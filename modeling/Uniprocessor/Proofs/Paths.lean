import Mathlib.Data.Finset.Insert
import Uniprocessor.Proofs.Pools

/-!
# Paths through a pool

Records of a pool may name the next one. A path from a handle is the list of records that are
met on the way, with the handles they are met under. Paths that end are what the walks over
chains and lists compute, and several of them can divide a pool among themselves.
-/

namespace Uniprocessor

namespace Pool

variable {α ι : Type} {next : α → Option Handle} {p q : Pool α}

/-- Going from `start` along `next` meets exactly the records `xs` and comes to `stop`. -/
def Path (next : α → Option Handle) (p : Pool α) :
    Option Handle → List (Handle × α) → Option Handle → Prop
  | start, [], stop => start = stop
  | start, (id, a) :: rest, stop => start = some id ∧ p.get? id = some a ∧ Path next p (next a) rest stop

@[simp]
lemma path_nil {start stop : Option Handle} : Path next p start [] stop ↔ start = stop := Iff.rfl

@[simp]
lemma path_cons {start stop : Option Handle} {id : Handle} {a : α} {rest : List (Handle × α)} :
    Path next p start ((id, a) :: rest) stop ↔
      start = some id ∧ p.get? id = some a ∧ Path next p (next a) rest stop := Iff.rfl

lemma path_append {start stop : Option Handle} {xs ys : List (Handle × α)} :
    Path next p start (xs ++ ys) stop ↔
      ∃ mid, Path next p start xs mid ∧ Path next p mid ys stop := by
  induction xs generalizing start with
  | nil => simp
  | cons x xs ih =>
    obtain ⟨id, a⟩ := x
    simp only [List.cons_append, path_cons, ih]
    constructor
    · rintro ⟨hs, ha, mid, hxs, hys⟩
      exact ⟨mid, ⟨hs, ha, hxs⟩, hys⟩
    · rintro ⟨mid, ⟨hs, ha, hxs⟩, hys⟩
      exact ⟨hs, ha, mid, hxs, hys⟩

lemma Path.get? {start stop : Option Handle} {xs : List (Handle × α)}
    (h : Path next p start xs stop) {e : Handle × α} (he : e ∈ xs) : p.get? e.1 = some e.2 := by
  induction xs generalizing start with
  | nil => simp at he
  | cons x xs ih =>
    obtain ⟨hs, ha, hxs⟩ := path_cons.mp h
    rcases List.mem_cons.mp he with rfl | he
    · exact ha
    · exact ih hxs he

lemma Path.contains {start stop : Option Handle} {xs : List (Handle × α)}
    (h : Path next p start xs stop) {id : Handle} (hid : id ∈ xs.map (·.1)) :
    p.contains id = true := by
  obtain ⟨e, he, rfl⟩ := List.mem_map.mp hid
  exact contains_of_get? (h.get? he)

/-- A path survives in every pool that agrees on its records. -/
lemma Path.frame {start stop : Option Handle} {xs : List (Handle × α)}
    (h : Path next p start xs stop) (hq : ∀ e ∈ xs, q.get? e.1 = some e.2) :
    Path next q start xs stop := by
  induction xs generalizing start with
  | nil => exact h
  | cons x xs ih =>
    obtain ⟨hs, -, hxs⟩ := path_cons.mp h
    exact path_cons.mpr ⟨hs, hq x List.mem_cons_self, ih hxs fun e he => hq e (List.mem_cons_of_mem x he)⟩

/-- Nothing is found under the handle, if there is one: a path that comes there goes no further. -/
def Ends (p : Pool α) (stop : Option Handle) : Prop := stop.bind p.get? = none

lemma ends_none (p : Pool α) : p.Ends none := rfl

lemma Path.unique {start stop stop' : Option Handle} {xs ys : List (Handle × α)}
    (hx : Path next p start xs stop) (hstop : p.Ends stop) (hy : Path next p start ys stop')
    (hstop' : p.Ends stop') : xs = ys := by
  have hgoes : ∀ {id : Handle} {a : α} {stop : Option Handle}, p.get? id = some a → p.Ends stop →
      stop ≠ some id := by
    rintro id a stop ha hends rfl
    exact absurd (ha.symm.trans hends) (Option.some_ne_none a)
  induction xs generalizing start ys with
  | nil =>
    cases ys with
    | nil => rfl
    | cons y ys =>
      obtain ⟨hs, ha, -⟩ := path_cons.mp hy
      exact absurd ((path_nil.mp hx).symm.trans hs) (hgoes ha hstop)
  | cons x xs ih =>
    obtain ⟨hs, ha, hxs⟩ := path_cons.mp hx
    cases ys with
    | nil => exact absurd ((path_nil.mp hy).symm.trans hs) (hgoes ha hstop')
    | cons y ys =>
      obtain ⟨hs', hb, hys⟩ := path_cons.mp hy
      have hid : x.1 = y.1 := Option.some_injective _ (hs.symm.trans hs')
      rw [hid, hb] at ha
      have hval : y.2 = x.2 := Option.some_injective _ ha
      rw [← hval] at hxs
      rw [Prod.ext hid hval.symm, ih hxs hys]

/-- A path that ends meets no record twice: from the second meeting on it would go on like from
the first, and never end. -/
theorem Path.nodup_of_ends {start stop : Option Handle} {xs : List (Handle × α)}
    (h : Path next p start xs stop) (hstop : p.Ends stop) : (xs.map (·.1)).Nodup := by
  induction xs generalizing start with
  | nil => exact List.nodup_nil
  | cons x xs ih =>
    obtain ⟨hs, ha, hxs⟩ := path_cons.mp h
    refine List.nodup_cons.mpr ⟨fun hmem => ?_, ih hxs⟩
    obtain ⟨e, he, hid⟩ := List.mem_map.mp hmem
    obtain ⟨us, vs, rfl⟩ := List.append_of_mem he
    obtain ⟨mid, -, hrest⟩ := path_append.mp hxs
    obtain ⟨-, he', hvs⟩ := path_cons.mp hrest
    rw [hid, ha] at he'
    rw [← Option.some_injective _ he'] at hvs
    have hlen := congrArg List.length (hxs.unique hstop hvs hstop)
    simp only [List.length_append, List.length_cons] at hlen
    omega

theorem Path.nodup {start : Option Handle} {xs : List (Handle × α)}
    (h : Path next p start xs none) : (xs.map (·.1)).Nodup :=
  h.nodup_of_ends (ends_none p)

/-- A path that meets no record twice meets no slot twice. -/
lemma Path.indices_nodup {start stop : Option Handle} {xs : List (Handle × α)}
    (h : Path next p start xs stop) (hxs : (xs.map (·.1)).Nodup) : (xs.map (·.1.index)).Nodup := by
  have hmap : xs.map (·.1.index) = (xs.map (·.1)).map (·.index) := by simp
  rw [hmap]
  refine List.Nodup.map_on (fun i hi j hj hij => ?_) hxs
  exact eq_of_index_eq (h.contains hi) (h.contains hj) hij

/-- A path that meets no record twice is no longer than there are slots. -/
lemma Path.length_le_of_nodup {start stop : Option Handle} {xs : List (Handle × α)}
    (h : Path next p start xs stop) (hxs : (xs.map (·.1)).Nodup) : xs.length ≤ p.slots.size := by
  have hsub : xs.map (·.1.index) ⊆ List.range p.slots.size := by
    intro i hi
    obtain ⟨e, he, rfl⟩ := List.mem_map.mp hi
    exact List.mem_range.mpr (index_lt (contains_of_get? (h.get? he)))
  simpa using ((h.indices_nodup hxs).subperm hsub).length_le

lemma Path.length_le {start : Option Handle} {xs : List (Handle × α)}
    (h : Path next p start xs none) : xs.length ≤ p.slots.size :=
  h.length_le_of_nodup h.nodup

/-- The walk along a path that ends lists its handles, and the one at which it ends. -/
lemma Path.trailWithin {start stop : Option Handle} {xs : List (Handle × α)}
    (h : Path next p start xs stop) (hstop : p.Ends stop) {fuel : Nat} (hfuel : xs.length < fuel) :
    trailWithin next p fuel start = xs.map (·.1) ++ stop.toList := by
  induction xs generalizing start fuel with
  | nil =>
    obtain ⟨fuel, rfl⟩ := Nat.exists_eq_add_of_lt hfuel
    rw [path_nil.mp h]
    cases stop with
    | none => rfl
    | some id =>
      have hnone : p.get? id = none := hstop
      rw [Pool.trailWithin, hnone]
      rfl
  | cons x xs ih =>
    obtain ⟨id, a⟩ := x
    obtain ⟨hs, ha, hxs⟩ := path_cons.mp h
    rw [List.length_cons] at hfuel
    obtain ⟨fuel, rfl⟩ : ∃ n, fuel = n + 1 := ⟨fuel - 1, by omega⟩
    rw [hs, Pool.trailWithin, ha, List.map_cons]
    dsimp only
    rw [ih hxs (by omega), List.cons_append]

theorem Path.trail_of_ends {start stop : Option Handle} {xs : List (Handle × α)}
    (h : Path next p start xs stop) (hstop : p.Ends stop) :
    p.trail next start = xs.map (·.1) ++ stop.toList :=
  h.trailWithin hstop (Nat.lt_succ_of_le (h.length_le_of_nodup (h.nodup_of_ends hstop)))

theorem Path.trail {start : Option Handle} {xs : List (Handle × α)}
    (h : Path next p start xs none) : p.trail next start = xs.map (·.1) := by
  rw [h.trail_of_ends (ends_none p), Option.toList_none, List.append_nil]

theorem Path.linked_of_ends {start stop : Option Handle} {xs : List (Handle × α)}
    (h : Path next p start xs stop) (hstop : p.Ends stop) : p.linked next start = xs := by
  have hget : ∀ e ∈ xs, p.get? e.1 = some e.2 := fun e he => h.get? he
  have hend : stop.toList.filterMap (fun id => (p.get? id).map (id, ·)) = [] := by
    cases stop with
    | none => rfl
    | some id =>
      have hnone : p.get? id = none := hstop
      simp [hnone]
  rw [Pool.linked, h.trail_of_ends hstop, List.filterMap_append, hend, List.append_nil,
    List.filterMap_map]
  clear h
  induction xs with
  | nil => rfl
  | cons x xs ih =>
    rw [List.filterMap_cons, Function.comp_apply, hget x List.mem_cons_self, Option.map_some]
    dsimp only
    rw [ih fun e he => hget e (List.mem_cons_of_mem x he)]

theorem Path.linked {start : Option Handle} {xs : List (Handle × α)}
    (h : Path next p start xs none) : p.linked next start = xs :=
  h.linked_of_ends (ends_none p)

/-- Changing the last record of a path sends the path to where the new record points. -/
lemma Path.redirect {start stop : Option Handle} {xs : List (Handle × α)} {last : Handle × α}
    (h : Path next p start (xs ++ [last]) stop) {b : α}
    (hb : q.get? last.1 = some b) (hq : ∀ e ∈ xs, q.get? e.1 = some e.2) :
    Path next q start (xs ++ [(last.1, b)]) (next b) := by
  obtain ⟨mid, hxs, hrest⟩ := path_append.mp h
  obtain ⟨hmid, -, -⟩ := path_cons.mp hrest
  exact path_append.mpr ⟨mid, hxs.frame hq, path_cons.mpr ⟨hmid, hb, rfl⟩⟩

lemma Path.next_last {start : Option Handle} {xs ys : List (Handle × α)} {last : Handle × α}
    (h : Path next p start xs none) (hxs : xs = ys ++ [last]) : next last.2 = none := by
  rw [hxs] at h
  obtain ⟨_, -, hend⟩ := path_append.mp h
  exact (path_cons.mp hend).2.2

/-- Changing a record, but not where it points, changes at most one record of a path. -/
lemma Path.modify {start stop : Option Handle} {xs : List (Handle × α)}
    (h : Path next p start xs stop) (id : Handle) {f : α → α} (hf : ∀ a, next (f a) = next a) :
    Path next (p.modify id f) start (xs.map fun e => (e.1, if e.1 = id then f e.2 else e.2)) stop := by
  induction xs generalizing start with
  | nil => exact h
  | cons x xs ih =>
    obtain ⟨hs, ha, hxs⟩ := path_cons.mp h
    refine path_cons.mpr ⟨hs, ?_, ?_⟩
    · rw [get?_modify]
      split
      · rename_i hid
        rw [← hid, ha, Option.map_some]
      · exact ha
    · split
      · rw [hf]
        exact ih hxs
      · exact ih hxs

/-! ### Lists that share a pool -/

/-- If all but finitely many lists are empty, then so it is after a change of one of them. -/
lemma exists_finset_update {β : Type} [DecidableEq ι] {seqs : ι → List β}
    (h : ∃ is : Finset ι, ∀ i ∉ is, seqs i = []) (i : ι) (seq : List β) :
    ∃ is : Finset ι, ∀ j ∉ is, Function.update seqs i seq j = [] := by
  obtain ⟨is, his⟩ := h
  refine ⟨insert i is, fun j hj => ?_⟩
  rw [Finset.mem_insert, not_or] at hj
  rw [Function.update_of_ne hj.1]
  exact his j hj.2

/-- The lists that start at the handles `head` are `items`, and they divide the live records
of the pool among themselves. -/
structure Shared (next : α → Option Handle) (p : Pool α) (head : ι → Option Handle)
    (items : ι → List (Handle × α)) : Prop where
  wellFormed : p.WellFormed
  path : ∀ i, Path next p (head i) (items i) none
  disjoint : ∀ i j id, id ∈ (items i).map (·.1) → id ∈ (items j).map (·.1) → i = j
  cover : ∀ id, p.contains id = true → ∃ i, id ∈ (items i).map (·.1)

lemma shared_ofCapacity (name : String) (capacity : Nat) (blank : α) :
    Shared next (Pool.ofCapacity name capacity blank) (fun _ : ι => none) fun _ => [] where
  wellFormed := wellFormed_ofCapacity name capacity blank
  path _ := rfl
  disjoint _ _ _ h := by simp at h
  cover id h := by simp [contains] at h

/-- Lists divide every pool among themselves that has the same records. -/
lemma Shared.congr {head : ι → Option Handle} {items : ι → List (Handle × α)}
    (h : Shared next p head items) (hq : q.WellFormed) (hget : ∀ id, q.get? id = p.get? id) :
    Shared next q head items where
  wellFormed := hq
  path i := (h.path i).frame fun _ he => (hget _).trans ((h.path i).get? he)
  disjoint := h.disjoint
  cover id hid := h.cover id (by rwa [Pool.contains, ← hget])

lemma Shared.withIssueHook {head : ι → Option Handle} {items : ι → List (Handle × α)}
    (h : Shared next p head items) (hook : α → α) : Shared next (p.withIssueHook hook) head items :=
  h.congr (h.wellFormed.withIssueHook hook) fun _ => rfl

lemma Shared.withReleaseHook {head : ι → Option Handle} {items : ι → List (Handle × α)}
    (h : Shared next p head items) (hook : α → α) : Shared next (p.withReleaseHook hook) head items :=
  h.congr (h.wellFormed.withReleaseHook hook) fun _ => rfl

lemma Shared.withStorage {head : ι → Option Handle} {items : ι → List (Handle × α)}
    (h : Shared next p head items) (slots : Nat) : Shared next (p.withStorage slots) head items :=
  h.congr (h.wellFormed.withStorage slots) fun _ => rfl

/-- Changing a record, but not where it points, keeps the lists apart. -/
lemma Shared.modify {head : ι → Option Handle} {items : ι → List (Handle × α)}
    (h : Shared next p head items) (id : Handle) {f : α → α} (hf : ∀ a, next (f a) = next a) :
    Shared next (p.modify id f) head
      fun i => (items i).map fun e => (e.1, if e.1 = id then f e.2 else e.2) := by
  have hids : ∀ i, ((items i).map fun e => (e.1, if e.1 = id then f e.2 else e.2)).map (·.1) =
      (items i).map (·.1) := fun i => by simp
  refine ⟨h.wellFormed.modify id f, fun i => (h.path i).modify id hf, ?_, ?_⟩
  · intro i j k hi hj
    rw [hids] at hi hj
    exact h.disjoint i j k hi hj
  · intro k hk
    rw [contains_modify] at hk
    simpa only [hids] using h.cover k hk

lemma Issues.get?_modify {id : Handle} (h : p.Issues id q) (g : α → α) (j : Handle) :
    (q.modify id g).get? j = if j = id then some (g p.fresh) else p.get? j := by
  rw [Pool.get?_modify, h.get?, if_pos rfl, Option.map_some]
  split
  · rfl
  · rw [h.get?, if_neg ‹_›]

/-- The records in use before are found under other handles than the new one. -/
lemma Shared.ne_of_issues {head : ι → Option Handle}
    {items : ι → List (Handle × α)} (h : Shared next p head items) {id : Handle} (hissue : p.Issues id q)
    {i : ι} {e : Handle × α} (he : e ∈ items i) : e.1 ≠ id := by
  intro hid
  have hsome := (h.path i).get? he
  rw [hid, hissue.vacant] at hsome
  cases hsome

section

variable [DecidableEq ι] {head : ι → Option Handle} {items : ι → List (Handle × α)}

/-- What has to be checked when one of the lists changes. -/
theorem Shared.replace (h : Shared next p head items) (hq : q.WellFormed) (i : ι)
    {start : Option Handle} {ys : List (Handle × α)} (hpath : Path next q start ys none)
    (hframe : ∀ j, j ≠ i → ∀ e ∈ items j, q.get? e.1 = some e.2)
    (hnew : ∀ id ∈ ys.map (·.1), id ∈ (items i).map (·.1) ∨ p.contains id = false)
    (hcover : ∀ id, q.contains id = true →
      id ∈ ys.map (·.1) ∨ p.contains id = true ∧ id ∉ (items i).map (·.1)) :
    Shared next q (Function.update head i start) (Function.update items i ys) := by
  have hapart : ∀ j, j ≠ i → ∀ id ∈ ys.map (·.1), id ∉ (items j).map (·.1) := by
    intro j hj id hid hidj
    rcases hnew id hid with hidi | hfresh
    · exact hj (h.disjoint j i id hidj hidi)
    · rw [(h.path j).contains hidj] at hfresh
      exact Bool.false_ne_true hfresh.symm
  refine ⟨hq, fun j => ?_, fun j k id hj hk => ?_, fun id hid => ?_⟩
  · by_cases hj : j = i
    · subst hj
      simpa using hpath
    · simpa [hj] using (h.path j).frame (hframe j hj)
  · by_cases hji : j = i <;> by_cases hki : k = i
    · rw [hji, hki]
    · subst hji
      simp only [Function.update_self, Function.update_of_ne hki] at hj hk
      exact absurd hk (hapart k hki id hj)
    · subst hki
      simp only [Function.update_self, Function.update_of_ne hji] at hj hk
      exact absurd hj (hapart j hji id hk)
    · simp only [Function.update_of_ne hji, Function.update_of_ne hki] at hj hk
      exact h.disjoint j k id hj hk
  · rcases hcover id hid with hys | ⟨hp, hnot⟩
    · exact ⟨i, by simpa using hys⟩
    · obtain ⟨j, hj⟩ := h.cover id hp
      have hji : j ≠ i := by
        rintro rfl
        exact hnot hj
      exact ⟨j, by simpa [hji] using hj⟩

/-- A new record that points to the first one of the list `i` becomes the first one. -/
theorem Shared.insertHead (h : Shared next p head items) {id : Handle} (hissue : p.Issues id q)
    (i : ι) {g : α → α} (hg : next (g p.fresh) = head i) :
    Shared next (q.modify id g) (Function.update head i (some id))
      (Function.update items i ((id, g p.fresh) :: items i)) := by
  have hkeep : ∀ j, ∀ e ∈ items j, (q.modify id g).get? e.1 = some e.2 := by
    intro j e he
    rw [hissue.get?_modify, if_neg (h.ne_of_issues hissue he)]
    exact (h.path j).get? he
  refine h.replace (hissue.wellFormed.modify _ _) i ?_ (fun j _ => hkeep j) ?_ ?_
  · refine path_cons.mpr ⟨rfl, by simp [hissue.get?_modify], ?_⟩
    rw [hg]
    exact (h.path i).frame (hkeep i)
  · intro k hk
    rcases List.mem_cons.mp hk with rfl | hk
    · exact .inr (by simp [Pool.contains, hissue.vacant])
    · exact .inl hk
  · intro k hk
    rw [Pool.contains, hissue.get?_modify] at hk
    by_cases hkid : k = id
    · exact .inl (by simp [hkid])
    · rw [if_neg hkid] at hk
      by_cases hmem : k ∈ (items i).map (·.1)
      · exact .inl (List.mem_cons_of_mem _ hmem)
      · exact .inr ⟨hk, hmem⟩

/-- A new record that points where the record `last` of the list `i` pointed comes to stand
behind `last`, once `last` is made to point to it. -/
theorem Shared.insertBehind (h : Shared next p head items) {id : Handle} (hissue : p.Issues id q)
    {i : ι} {xs ys : List (Handle × α)} {last : Handle × α} (hitems : items i = xs ++ last :: ys)
    {g f : α → α} (hg : next (g p.fresh) = next last.2) (hf : ∀ a, next (f a) = some id) :
    Shared next ((q.modify id g).modify last.1 f) head
      (Function.update items i (xs ++ (last.1, f last.2) :: (id, g p.fresh) :: ys)) := by
  have hpath : Path next p (head i) ((xs ++ [last]) ++ ys) none := by
    have hi := h.path i
    rwa [hitems, List.append_cons] at hi
  obtain ⟨mid, hfront, hback⟩ := path_append.mp hpath
  obtain ⟨_, -, hend⟩ := path_append.mp hfront
  have hmid : next last.2 = mid := (path_cons.mp hend).2.2
  have hnodup := hpath.nodup
  simp only [List.map_append, List.map_cons, List.append_assoc, List.cons_append, List.nil_append,
    List.nodup_append, List.nodup_cons, List.mem_cons, forall_eq_or_imp] at hnodup
  obtain ⟨-, ⟨hlast, -⟩, hxs⟩ := hnodup
  have hlastid : last.1 ≠ id := h.ne_of_issues hissue (i := i) (by simp [hitems])
  have hget : ∀ j, ((q.modify id g).modify last.1 f).get? j =
      if j = last.1 then some (f last.2) else if j = id then some (g p.fresh) else p.get? j := by
    intro j
    have hval := hpath.get? (e := last) (by simp)
    rw [get?_modify, hissue.get?_modify, hissue.get?_modify, if_neg hlastid, hval, Option.map_some]
  have hkeep : ∀ j, ∀ e ∈ items j, e.1 ≠ last.1 →
      ((q.modify id g).modify last.1 f).get? e.1 = some e.2 := by
    intro j e he hne
    rw [hget, if_neg hne, if_neg (h.ne_of_issues hissue he)]
    exact (h.path j).get? he
  rw [← Function.update_eq_self i head]
  refine h.replace ((hissue.wellFormed.modify _ _).modify _ _) i ?_ ?_ ?_ ?_
  · have hfirst := hfront.redirect (q := (q.modify id g).modify last.1 f) (b := f last.2)
      (by simp [hget]) fun e he =>
        hkeep i e (by simp [hitems, he]) (hxs e.1 (List.mem_map_of_mem he)).1
    have hsecond : Path next ((q.modify id g).modify last.1 f) (next (f last.2))
        ((id, g p.fresh) :: ys) none := by
      refine path_cons.mpr ⟨hf _, by simp [hget, hlastid.symm], ?_⟩
      rw [hg, hmid]
      refine hback.frame fun e he => hkeep i e (by simp [hitems, he]) ?_
      intro heq
      exact hlast (List.mem_map.mpr ⟨e, he, heq⟩)
    have happ := path_append.mpr ⟨_, hfirst, hsecond⟩
    rwa [List.append_assoc] at happ
  · intro j hj e he
    refine hkeep j e he fun heq => hj (h.disjoint j i e.1 (List.mem_map_of_mem he) ?_)
    rw [heq, hitems]
    simp
  · intro k hk
    simp only [hitems, List.map_append, List.map_cons, List.mem_append, List.mem_cons] at hk ⊢
    rcases hk with hk | rfl | rfl | hk
    · exact .inl (.inl hk)
    · exact .inl (.inr (.inl rfl))
    · exact .inr (by simp [Pool.contains, hissue.vacant])
    · exact .inl (.inr (.inr hk))
  · intro k hk
    rw [contains_modify, Pool.contains, hissue.get?_modify] at hk
    by_cases hkid : k = id
    · exact .inl (by simp [hkid])
    · rw [if_neg hkid] at hk
      by_cases hmem : k ∈ (items i).map (·.1)
      · left
        simp only [hitems, List.map_append, List.map_cons, List.mem_append, List.mem_cons] at hmem ⊢
        tauto
      · exact .inr ⟨hk, hmem⟩

/-- Giving back the first record of the list `i` leaves the list of the others. -/
theorem Shared.dropHead (h : Shared next p head items) {i : ι} {x : Handle × α}
    {ys : List (Handle × α)} (hitems : items i = x :: ys) (hrelease : p.Releases x.1 q) :
    Shared next q (Function.update head i (next x.2)) (Function.update items i ys) := by
  have hpath : Path next p (head i) (x :: ys) none := hitems ▸ h.path i
  obtain ⟨-, -, hys⟩ := path_cons.mp hpath
  have hnodup := List.nodup_cons.mp hpath.nodup
  refine h.replace hrelease.wellFormed i (hys.frame fun e he => ?_) ?_ ?_ ?_
  · have hne : e.1 ≠ x.1 := by
      intro heq
      exact hnodup.1 (List.mem_map.mpr ⟨e, he, heq⟩)
    rw [hrelease.get?, if_neg hne]
    exact hys.get? he
  · intro j hj e he
    have hne : e.1 ≠ x.1 := by
      intro heq
      refine hj (h.disjoint j i e.1 (List.mem_map_of_mem he) ?_)
      simp [heq, hitems]
    rw [hrelease.get?, if_neg hne]
    exact (h.path j).get? he
  · intro k hk
    rw [hitems]
    exact .inl (List.mem_cons_of_mem _ hk)
  · intro k hk
    rw [Pool.contains, hrelease.get?] at hk
    by_cases hkx : k = x.1
    · simp [hkx] at hk
    · rw [if_neg hkx] at hk
      by_cases hmem : k ∈ ys.map (·.1)
      · exact .inl hmem
      · exact .inr ⟨hk, by simpa [hitems, hkx] using hmem⟩

/-- Giving back a later record `x` of the list `i`, after the one before it was made to point
behind `x`. -/
theorem Shared.dropBehind (h : Shared next p head items) {i : ι} {xs ys : List (Handle × α)}
    {last x : Handle × α} (hitems : items i = xs ++ last :: x :: ys) {f : α → α}
    (hf : ∀ a, next (f a) = next x.2) (hrelease : (p.modify last.1 f).Releases x.1 q) :
    Shared next q head (Function.update items i (xs ++ (last.1, f last.2) :: ys)) := by
  have hpath : Path next p (head i) (xs ++ last :: x :: ys) none := hitems ▸ h.path i
  have hnodup := hpath.nodup
  simp only [List.map_append, List.map_cons, List.nodup_append, List.nodup_cons, List.mem_cons,
    not_or, forall_eq_or_imp] at hnodup
  obtain ⟨-, ⟨⟨hlx, hly⟩, hxy, -⟩, hxs⟩ := hnodup
  have hget : ∀ j, q.get? j =
      if j = x.1 then none else if j = last.1 then some (f last.2) else p.get? j := by
    intro j
    have hval := hpath.get? (List.mem_append_right xs (List.mem_cons_self))
    rw [hrelease.get?, get?_modify, hval, Option.map_some]
  have hkeep : ∀ e : Handle × α, p.get? e.1 = some e.2 → e.1 ≠ x.1 → e.1 ≠ last.1 → q.get? e.1 = some e.2 := by
    intro e he h₁ h₂
    rw [hget, if_neg h₁, if_neg h₂, he]
  rw [← Function.update_eq_self i head]
  refine h.replace hrelease.wellFormed i ?_ ?_ ?_ ?_
  · have hsplit : Path next p (head i) ((xs ++ [last]) ++ x :: ys) none := by simpa using hpath
    obtain ⟨mid, hfirst, hsecond⟩ := path_append.mp hsplit
    obtain ⟨-, -, hys⟩ := path_cons.mp hsecond
    have hfirst' := hfirst.redirect (q := q) (b := f last.2) (by rw [hget, if_neg hlx, if_pos rfl])
      fun e he => by
        obtain ⟨h₁, h₂, -⟩ := hxs e.1 (List.mem_map_of_mem he)
        exact hkeep e (hpath.get? (List.mem_append_left _ he)) h₂ h₁
    rw [hf] at hfirst'
    have hys' : Path next q (next x.2) ys none := hys.frame fun e he => by
      refine hkeep e (hys.get? he) ?_ ?_
      · intro heq
        exact hxy (List.mem_map.mpr ⟨e, he, heq⟩)
      · intro heq
        exact hly (List.mem_map.mpr ⟨e, he, heq⟩)
    have happ := path_append.mpr ⟨_, hfirst', hys'⟩
    rwa [List.append_assoc] at happ
  · intro j hj e he
    have hout : e.1 ∉ (items i).map (·.1) := fun hmem =>
      hj (h.disjoint j i e.1 (List.mem_map_of_mem he) hmem)
    rw [hitems] at hout
    simp only [List.map_append, List.map_cons, List.mem_append, List.mem_cons, not_or] at hout
    exact hkeep e ((h.path j).get? he) hout.2.2.1 hout.2.1
  · intro k hk
    left
    rw [hitems]
    simp only [List.map_append, List.map_cons, List.mem_append, List.mem_cons] at hk ⊢
    tauto
  · intro k hk
    rw [Pool.contains, hget] at hk
    by_cases hkx : k = x.1
    · simp [hkx] at hk
    · rw [if_neg hkx] at hk
      by_cases hmem : k ∈ (items i).map (·.1)
      · left
        rw [hitems] at hmem
        simp only [List.map_append, List.map_cons, List.mem_append, List.mem_cons] at hmem ⊢
        tauto
      · refine .inr ⟨?_, hmem⟩
        rw [hitems] at hmem
        simp only [List.map_append, List.map_cons, List.mem_append, List.mem_cons, not_or] at hmem
        rwa [if_neg hmem.2.1] at hk

/-- Giving back all records of the list `i` empties it. -/
theorem Shared.dropAll (h : Shared next p head items) {i : ι} {xs : List (Handle × α)}
    (hitems : items i = xs) :
    Shared next (xs.foldl (fun pool e => (pool.release e.1).2) p)
      (Function.update head i none) (Function.update items i []) := by
  induction xs generalizing p head items with
  | nil =>
    have hhead : head i = none := by
      have hpath := h.path i
      rwa [hitems] at hpath
    rw [← hhead, Function.update_eq_self]
    conv in Function.update items i [] => rw [← hitems, Function.update_eq_self]
    exact h
  | cons x xs ih =>
    have hlive : p.contains x.1 = true := (h.path i).contains (by simp [hitems])
    have hstep := h.dropHead hitems (h.wellFormed.release_of_contains hlive).2
    have hrest := ih hstep (by simp)
    simpa using hrest

/-- The pool counts as many records as the lists have together. -/
theorem Shared.size_eq (h : Shared next p head items) {is : List ι} (hnodup : is.Nodup)
    (hall : ∀ i, i ∉ is → items i = []) : (is.map fun i => (items i).length).sum = p.size := by
  have hmem : ∀ id, id ∈ is.flatMap (fun i => (items i).map (·.1)) ↔ p.contains id = true := by
    intro id
    rw [List.mem_flatMap]
    constructor
    · rintro ⟨i, -, hid⟩
      exact (h.path i).contains hid
    · intro hid
      obtain ⟨i, hi⟩ := h.cover id hid
      refine ⟨i, ?_, hi⟩
      by_contra hout
      simp [hall i hout] at hi
  have hflat : (is.flatMap fun i => (items i).map (·.1)).Nodup := by
    refine List.nodup_flatMap.mpr ⟨fun i _ => (h.path i).nodup, hnodup.imp_of_mem ?_⟩
    intro i j _ _ hij id hi hj
    exact hij (h.disjoint i j id hi hj)
  rw [← h.wellFormed.length_eq_size hflat hmem, List.length_flatMap]
  simp

end

end Pool

end Uniprocessor
