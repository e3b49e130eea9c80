import Uniprocessor.Proofs.ChildLists
import Uniprocessor.Proofs.Generations
import Uniprocessor.Proofs.SignalHistories

/-!
# Copies that go stale

A list or a queue can be copied like a number. The copy shares the links, and when one of the two gives
a link back, handles of the other go stale: links are lost, and lengths are wrong. Every walk ends all the
same, since no link leads back: a new link names none, and is put behind the last one. Nor does anything
name a new link already, since its handle was never issued before: all handles that are held, stale ones
included, were. This holds until a slot has been taken back `2 ^ 32` times. It then issues its first
handle again, and a link can come to name itself.
-/

namespace Uniprocessor

namespace Pool

variable {α : Type} {next : α → Option Handle} {p q : Pool α} {rank : Handle → Nat} {id j : Handle}
  {a b : α} {start stop : Option Handle} {xs : List (Handle × α)} {f : α → α}

/-- A live record names `id` as the next one. -/
def Named (next : α → Option Handle) (p : Pool α) (id : Handle) : Prop :=
  ∃ j a, p.get? j = some a ∧ next a = some id

/-- Each live record ranks below the one that it names. -/
def Ranked (next : α → Option Handle) (p : Pool α) (rank : Handle → Nat) : Prop :=
  ∀ id a j, p.get? id = some a → next a = some j → rank id < rank j

/-- The live records can be put in an order in which each names a later one. -/
structure Ordered (next : α → Option Handle) (p : Pool α) : Prop where
  wellFormed : p.WellFormed
  exists_ranked : ∃ rank, Ranked next p rank

/-! ### Walks -/

/-- The walk from a handle on that gives each record back before it goes on to the next one: the
handles that it gives back, and the pool that it leaves. -/
inductive Empties (next : α → Option Handle) : Pool α → Option Handle → List Handle → Pool α → Prop
  | stop {p : Pool α} {start : Option Handle} : p.Ends start → Empties next p start [] p
  | step {p q : Pool α} {id : Handle} {a : α} {ids : List Handle} : p.get? id = some a →
      Empties next (p.release id).2 (next a) ids q → Empties next p (some id) (id :: ids) q

/-- No walk over the records goes on forever. -/
structure WalksEnd (next : α → Option Handle) (p : Pool α) : Prop where
  /-- As far as a walk may have come, it has met no slot twice. -/
  apart : ∀ start xs stop, Path next p start xs stop →
    (xs.map (·.1.index)).Nodup ∧ xs.length ≤ p.size
  /-- It ends where there is no handle, or one under which nothing is found. -/
  ends : ∀ start, ∃ stop, Path next p start (p.linked next start) stop ∧ p.Ends stop
  empties : ∀ start, Empties next p start ((p.linked next start).map (·.1))
    (((p.linked next start).map (·.1)).foldl (fun pool id => (pool.release id).2) p)

/-- Of a walk one gets to see as many steps as one likes, unless it ends before. -/
lemma exists_path (p : Pool α) (start : Option Handle) (n : Nat) :
    ∃ xs stop, Path next p start xs stop ∧ (p.Ends stop ∨ xs.length = n) := by
  induction n generalizing start with
  | zero => exact ⟨[], start, rfl, .inr rfl⟩
  | succ n ih =>
    by_cases hends : p.Ends start
    · exact ⟨[], start, rfl, .inl hends⟩
    · obtain ⟨a, ha⟩ := Option.ne_none_iff_exists'.mp hends
      obtain ⟨id, rfl, hget⟩ := Option.bind_eq_some_iff.mp ha
      obtain ⟨xs, stop, hpath, hxs⟩ := ih (next a)
      exact ⟨(id, a) :: xs, stop, path_cons.mpr ⟨rfl, hget, hpath⟩, hxs.imp_right (congrArg (· + 1))⟩

/-- From a record that names itself no walk gets away. -/
lemma Path.stop_of_loop (ha : p.get? id = some a) (hloop : next a = some id)
    (h : Path next p (some id) xs stop) : stop = some id := by
  induction xs with
  | nil => exact (path_nil.mp h).symm
  | cons x xs ih =>
    obtain ⟨hid, hx, hrest⟩ := path_cons.mp h
    cases hid
    rw [hx] at ha
    cases ha
    rw [hloop] at hrest
    exact ih hrest

lemma Path.length_le_size (hp : p.WellFormed) (h : Path next p start xs stop)
    (hxs : (xs.map (·.1)).Nodup) : xs.length ≤ p.size := by
  have hlive : xs.map (·.1) ⊆ p.handles := fun id hid => mem_handles.mpr (h.contains hid)
  rw [← hp.length_handles, ← List.length_map (f := (·.1))]
  exact (hxs.subperm hlive).length_le

/-- A walk that gives back what it meets goes the same way as one that does not. -/
lemma Path.empties (hp : p.WellFormed) (h : Path next p start xs stop) (hstop : p.Ends stop)
    (hxs : (xs.map (·.1)).Nodup) :
    Empties next p start (xs.map (·.1)) ((xs.map (·.1)).foldl (fun pool id => (pool.release id).2) p) := by
  induction xs generalizing p start with
  | nil =>
    rw [path_nil.mp h]
    exact .stop hstop
  | cons x xs ih =>
    obtain ⟨rfl, ha, hrest⟩ := path_cons.mp h
    obtain ⟨hx, hxs⟩ := List.nodup_cons.mp hxs
    apply Empties.step ha
    apply ih (hp.release x.1) _ _ hxs
    · refine hrest.frame fun e he => ?_
      have hne : e.1 ≠ x.1 := fun heq => hx (List.mem_map.mpr ⟨e, he, heq⟩)
      rw [hp.get?_release, if_neg hne]
      exact hrest.get? he
    · cases stop with
      | none => exact ends_none _
      | some id =>
        have hnone : p.get? id = none := hstop
        rw [Ends, Option.bind_some, hp.get?_release, hnone, ite_self]

/-- What is met behind a record ranks above it. -/
lemma Ranked.lt_of_path (hranked : Ranked next p rank) (ha : p.get? id = some a)
    (h : Path next p (next a) xs stop) : ∀ e ∈ xs, rank id < rank e.1 := by
  induction xs generalizing id a with
  | nil => simp
  | cons x xs ih =>
    obtain ⟨hnext, hx, hrest⟩ := path_cons.mp h
    have hlt := hranked id a x.1 ha hnext
    intro e he
    rcases List.mem_cons.mp he with rfl | he
    · exact hlt
    · exact hlt.trans (ih hx hrest e he)

lemma Ranked.nodup_of_path (hranked : Ranked next p rank) (h : Path next p start xs stop) :
    (xs.map (·.1)).Nodup := by
  induction xs generalizing start with
  | nil => exact List.nodup_nil
  | cons x xs ih =>
    obtain ⟨-, hx, hrest⟩ := path_cons.mp h
    refine List.nodup_cons.mpr ⟨fun hmem => ?_, ih hrest⟩
    obtain ⟨e, he, heq⟩ := List.mem_map.mp hmem
    have hlt := hranked.lt_of_path hx hrest e he
    rw [heq] at hlt
    exact Nat.lt_irrefl _ hlt

theorem Ordered.walksEnd (h : Ordered next p) : WalksEnd next p := by
  obtain ⟨hp, rank, hranked⟩ := h
  have hends : ∀ start, ∃ stop, Path next p start (p.linked next start) stop ∧ p.Ends stop := by
    intro start
    obtain ⟨xs, stop, hpath, hxs⟩ : ∃ xs stop, Path next p start xs stop ∧ _ :=
      p.exists_path start (p.size + 1)
    have hle := hpath.length_le_size hp (hranked.nodup_of_path hpath)
    have hstop : p.Ends stop := hxs.resolve_right (by omega)
    rw [hpath.linked_of_ends hstop]
    exact ⟨stop, hpath, hstop⟩
  constructor
  · intro start xs stop hpath
    have hnodup := hranked.nodup_of_path hpath
    exact ⟨hpath.indices_nodup hnodup, hpath.length_le_size hp hnodup⟩
  · exact hends
  · intro start
    obtain ⟨stop, hpath, hstop⟩ := hends start
    exact hpath.empties hp hstop (hranked.nodup_of_path hpath)

lemma WalksEnd.length_linked_le (h : WalksEnd next p) (start : Option Handle) :
    (p.linked next start).length ≤ p.size := by
  obtain ⟨stop, hpath, -⟩ := h.ends start
  exact (h.apart start _ stop hpath).2

/-- It makes no difference whether the stale handle at the end is given back too. -/
lemma Ordered.releaseAll_trail (h : Ordered next p) (start : Option Handle) :
    (p.trail next start).foldl (fun pool id => (pool.release id).2) p =
      ((p.linked next start).map (·.1)).foldl (fun pool id => (pool.release id).2) p := by
  obtain ⟨stop, hpath, hstop⟩ := h.walksEnd.ends start
  obtain ⟨-, hget⟩ := h.wellFormed.releaseAll ((p.linked next start).map (·.1))
  rw [hpath.trail_of_ends hstop, List.foldl_append]
  cases stop with
  | none => rfl
  | some id =>
    have hnone : p.get? id = none := hstop
    rw [Option.toList_some, List.foldl_cons, List.foldl_nil, release_of_not_contains]
    rw [contains, hget, hnone, ite_self, Option.isSome_none]

/-! ### Changes -/

/-- The records that a walk comes to have been named, but for the first. -/
lemma mem_trailWithin {fuel : Nat} (h : id ∈ trailWithin next p fuel start) :
    start = some id ∨ Named next p id := by
  induction fuel generalizing start with
  | zero => cases h
  | succ fuel ih =>
    cases start with
    | none => cases h
    | some j =>
      rw [trailWithin] at h
      rcases List.mem_cons.mp h with rfl | h
      · exact .inl rfl
      · cases hget : p.get? j with
        | none => simp [hget] at h
        | some a =>
          rw [hget] at h
          rcases ih h with hnext | hnamed
          · exact .inr ⟨j, a, hget, hnext⟩
          · exact .inr hnamed

lemma Ranked.modify (hranked : Ranked next p rank)
    (hf : ∀ a j, next (f a) = some j → rank id < rank j) : Ranked next (p.modify id f) rank := by
  intro k a j hget hnext
  rw [get?_modify] at hget
  split at hget
  · rename_i hk
    obtain ⟨b, -, rfl⟩ := Option.map_eq_some_iff.mp hget
    rw [hk]
    exact hf b j hnext
  · exact hranked k a j hget hnext

/-- A new record that names no other may be ranked at will, unless it is named already. -/
lemma Ranked.issues (hranked : Ranked next p rank) (hissue : p.Issues id q)
    (hnamed : ¬ Named next p id) (hb : next b = none) (n : Nat) :
    Ranked next (q.modify id fun _ => b) (Function.update rank id n) := by
  intro k a j hget hnext
  rw [hissue.get?_modify] at hget
  split at hget
  · cases hget
    rw [hb] at hnext
    cases hnext
  · rename_i hk
    have hj : j ≠ id := by
      rintro rfl
      exact hnamed ⟨k, a, hget, hnext⟩
    rw [Function.update_of_ne hk, Function.update_of_ne hj]
    exact hranked k a j hget hnext

/-- A new record that was not named before is put behind another one. -/
lemma Ordered.append (h : Ordered next p) (hissue : p.Issues id q) (hnamed : ¬ Named next p id)
    (hb : next b = none) : Ordered next (q.modify id fun _ => b) ∧ ∀ last ≠ id, ∀ f,
      (∀ a, next (f a) = some id) → Ordered next ((q.modify id fun _ => b).modify last f) := by
  obtain ⟨-, rank, hranked⟩ := h
  have hwell := hissue.wellFormed.modify id fun _ => b
  refine ⟨⟨hwell, _, hranked.issues hissue hnamed hb 0⟩, fun last hlast f hf => ?_⟩
  refine ⟨hwell.modify last f, _, (hranked.issues hissue hnamed hb (rank last + 1)).modify ?_⟩
  intro a j hnext
  rw [hf] at hnext
  cases hnext
  rw [Function.update_self, Function.update_of_ne hlast]
  exact Nat.lt_succ_self _

/-- The record behind another one is passed over. -/
lemma Ordered.passOver (h : Ordered next p) (ha : p.get? id = some a) (hj : next a = some j)
    (hb : p.get? j = some b) (hf : ∀ a, next (f a) = next b) : Ordered next (p.modify id f) := by
  obtain ⟨hp, rank, hranked⟩ := h
  refine ⟨hp.modify id f, rank, hranked.modify fun a k hnext => ?_⟩
  rw [hf] at hnext
  exact (hranked _ _ _ ha hj).trans (hranked _ _ _ hb hnext)

lemma Ordered.releaseAll (h : Ordered next p) (ids : List Handle) :
    Ordered next (ids.foldl (fun pool id => (pool.release id).2) p) := by
  obtain ⟨hp, rank, hranked⟩ := h
  obtain ⟨hwell, hget⟩ := hp.releaseAll ids
  refine ⟨hwell, rank, fun id a j ha hnext => ?_⟩
  rw [hget] at ha
  split at ha
  · cases ha
  · exact hranked id a j ha hnext

lemma ordered_ofCapacity (name : String) (capacity : Nat) (blank : α) (onIssue onRelease : α → α) :
    Ordered next (((Pool.ofCapacity name capacity blank).withIssueHook onIssue).withReleaseHook
      onRelease) := by
  refine ⟨((wellFormed_ofCapacity name capacity blank).withIssueHook _).withReleaseHook _, fun _ => 0, ?_⟩
  intro id a j hget
  cases (get?_ofCapacity name capacity blank id).symm.trans hget

lemma named_of_modify (h : Named next (p.modify id f) j) : Named next p j ∨ ∃ a, next (f a) = some j := by
  obtain ⟨k, a, hget, hnext⟩ := h
  rw [get?_modify] at hget
  split at hget
  · obtain ⟨b, -, rfl⟩ := Option.map_eq_some_iff.mp hget
    exact .inr ⟨b, hnext⟩
  · exact .inl ⟨k, a, hget, hnext⟩

/-- A new record that names none leaves named what was named before. -/
lemma Issues.named (hissue : p.Issues id q) (hb : next b = none)
    (h : Named next (q.modify id fun _ => b) j) : Named next p j := by
  obtain ⟨k, a, hget, hnext⟩ := h
  rw [hissue.get?_modify] at hget
  split at hget
  · cases hget
    rw [hb] at hnext
    cases hnext
  · exact ⟨k, a, hget, hnext⟩

lemma named_of_releaseAll (hp : p.WellFormed) (ids : List Handle)
    (h : Named next (ids.foldl (fun pool id => (pool.release id).2) p) j) : Named next p j := by
  obtain ⟨k, a, hget, hnext⟩ := h
  rw [(hp.releaseAll ids).2] at hget
  split at hget
  · cases hget
  · exact ⟨k, a, hget, hnext⟩

/-! ### Handles that are held -/

section Held

variable {ι γ : Type} {held : γ → Option Handle} {counts : Nat → Nat} {ls : ι → γ} {r : Pool α}

/-- Neither a list that holds the handle `start` nor a record names `id`. -/
def Unheld (next : α → Option Handle) (start : Option Handle) (p : Pool α) (id : Handle) : Prop :=
  start ≠ some id ∧ ¬ Named next p id

/-- The records are in order, `counts` has how often each slot was taken back, and all handles that are
kept, in a record or by a list, were issued before. -/
structure Timely (next : α → Option Handle) (held : γ → Option Handle) (counts : Nat → Nat)
    (ls : ι → γ) (p : Pool α) : Prop where
  ordered : Ordered next p
  dated : p.Dated counts
  named : ∀ id, Named next p id → p.Issued id
  held : ∀ i id, held (ls i) = some id → p.Issued id

lemma timely_ofCapacity {l : γ} (hl : held l = none) (name : String) (capacity : Nat) (blank : α)
    (onIssue onRelease : α → α) :
    Timely next held 0 (fun _ : ι => l)
      (((Pool.ofCapacity name capacity blank).withIssueHook onIssue).withReleaseHook onRelease) := by
  refine ⟨ordered_ofCapacity name capacity blank onIssue onRelease, fun _ => rfl, ?_, fun _ id hid => ?_⟩
  · rintro id ⟨j, a, hget, -⟩
    cases (get?_ofCapacity name capacity blank j).symm.trans hget
  · rw [hl] at hid
    cases hid

lemma Timely.withStorage (h : Timely next held counts ls p) (slots : Nat) :
    Timely next held counts ls (p.withStorage slots) :=
  ⟨⟨h.ordered.wellFormed.withStorage slots, h.ordered.exists_ranked⟩, h.dated, h.named, h.held⟩

/-- What is issued is not held, since it was not issued before. -/
theorem Timely.unheld (h : Timely next held counts ls p) (hrun : p.issue = .ok (id, q)) (i : ι) :
    Unheld next (held (ls i)) p id := by
  have hnew := h.ordered.wellFormed.not_issued hrun
  exact ⟨fun hid => hnew (h.held i id hid), fun hid => hnew (h.named id hid)⟩

variable [DecidableEq ι]

lemma Timely.copy (h : Timely next held counts ls p) (i j : ι) :
    Timely next held counts (Function.update ls i (ls j)) p where
  ordered := h.ordered
  dated := h.dated
  named := h.named
  held k id hid := by
    by_cases hk : k = i
    · rw [hk, Function.update_self] at hid
      exact h.held j id hid
    · rw [Function.update_of_ne hk] at hid
      exact h.held k id hid

/-- A list comes to have a new record, under whose handle alone there was nothing before. -/
lemma Timely.issue (h : Timely next held counts ls p) (hrun : p.issue = .ok (id, q)) (i : ι) {l : γ}
    (hordered : Ordered next r) (hstamp : ∀ k, r.stamp? k = q.stamp? k)
    (hnamed : ∀ j, Named next r j → j = id ∨ Named next p j)
    (hheld : ∀ j, held l = some j → j = id ∨ held (ls i) = some j) :
    Timely next held counts (Function.update ls i l) r := by
  obtain ⟨hnew, hold⟩ := h.ordered.wellFormed.issued_issue hrun
  refine ⟨hordered, (dated_congr hstamp).mpr (h.ordered.wellFormed.dated_issue hrun h.dated),
    fun j hj => ?_, fun k j hj => ?_⟩ <;> rw [issued_congr hstamp]
  · rcases hnamed j hj with rfl | hbefore
    · exact hnew
    · exact hold j (h.named j hbefore)
  · by_cases hk : k = i
    · rw [hk, Function.update_self] at hj
      rcases hheld j hj with rfl | hbefore
      · exact hnew
      · exact hold j (h.held i j hbefore)
    · rw [Function.update_of_ne hk] at hj
      exact hold j (h.held k j hj)

/-- A list gives records back, and comes to hold only what it or a record held before. -/
lemma Timely.retire (h : Timely next held counts ls p) (i : ι) {l : γ} (hordered : Ordered next q)
    (hretires : p.Retires q) (hbound : ∀ k, (counts + p.takenBack q) k < 2 ^ 32)
    (hnamed : ∀ j, Named next q j → Named next p j)
    (hheld : ∀ j, held l = some j → held (ls i) = some j ∨ Named next p j) :
    Timely next held (counts + p.takenBack q) (Function.update ls i l) q := by
  have hlater := fun {j} (hj : p.Issued j) => hretires.issued h.dated hbound hj
  refine ⟨hordered, hretires.dated h.dated hbound, fun j hj => hlater (h.named j (hnamed j hj)),
    fun k j hj => ?_⟩
  by_cases hk : k = i
  · rw [hk, Function.update_self] at hj
    rcases hheld j hj with hbefore | hbefore
    · exact hlater (h.held i j hbefore)
    · exact hlater (h.named j hbefore)
  · rw [Function.update_of_ne hk] at hj
    exact hlater (h.held k j hj)

end Held

end Pool

namespace Children

variable {pool q r : Pool ChildEntry} {l l' : Children} {child : Pid} {id : Handle}

/-- A new link becomes the first one of the list, or is put behind one that a walk over the list met. -/
lemma push_cases (hrun : l.push pool child = .ok (l', r)) : ∃ id q, pool.issue = .ok (id, q) ∧
    (l'.head = some id ∧ r = (q.modify id fun _ => ⟨child, none⟩) ∨
      l'.head = l.head ∧ ∃ last ∈ (q.modify id fun _ => ⟨child, none⟩).trail ChildEntry.next l.head,
        r = (q.modify id fun _ => ⟨child, none⟩).modify last ({ · with next := some id })) := by
  rw [push] at hrun
  cases hissue : pool.issue with
  | error e =>
    rw [hissue] at hrun
    cases hrun
  | ok issued =>
    rw [hissue] at hrun
    simp only [bind, Except.bind, pure, Except.pure] at hrun
    cases hrun
    refine ⟨_, _, rfl, ?_⟩
    rw [attach]
    split
    · rename_i last hlast
      exact .inr ⟨rfl, last, List.mem_of_getLast? (Option.filter_eq_some_iff.mp hlast).1, rfl⟩
    · exact .inl ⟨rfl, rfl⟩

lemma push_ordered (h : pool.Ordered ChildEntry.next) (hissue : pool.issue = .ok (id, q))
    (hunheld : pool.Unheld ChildEntry.next l.head id) (hrun : l.push pool child = .ok (l', r)) :
    r.Ordered ChildEntry.next := by
  have hissues := h.wellFormed.issues_of_issue hissue
  obtain ⟨hnew, hbehind⟩ := h.append hissues hunheld.2 (b := ⟨child, none⟩) rfl
  obtain ⟨_, _, heq, hcases⟩ := push_cases hrun
  rw [hissue, Except.ok.injEq, Prod.mk.injEq] at heq
  obtain ⟨rfl, rfl⟩ := heq
  obtain ⟨-, rfl⟩ | ⟨-, last, hmem, rfl⟩ := hcases
  · exact hnew
  · refine hbehind last ?_ ({ · with next := some id }) fun _ => rfl
    rintro rfl
    rcases Pool.mem_trailWithin hmem with hhead | hnamed
    · exact hunheld.1 hhead
    · exact hunheld.2 (hissues.named rfl hnamed)

/-- If there is a link to the child, the list or the link before it goes on to the next one, and the
link is given back. -/
lemma remove_cases (h : pool.Ordered ChildEntry.next) (l : Children) (child : Pid) :
    (l.remove pool child).2 = (l, pool) ∨ ∃ id link, pool.get? id = some link ∧
      ((l.remove pool child).2.1.head = link.next ∧ (l.remove pool child).2.2 = (pool.release id).2 ∨
        (l.remove pool child).2.1.head = l.head ∧
          ∃ last b, pool.get? last = some b ∧ b.next = some id ∧
            (l.remove pool child).2.2 =
              ((pool.modify last ({ · with next := link.next })).release id).2) := by
  obtain ⟨stop, hpath, -⟩ := h.walksEnd.ends l.head
  by_cases hmem : child ∈ (l.entries pool).map (·.2.child)
  · obtain ⟨as, cs, hsplit, hnot⟩ := List.eq_append_cons_of_mem hmem
    obtain ⟨bs, ws, hentries, rfl, hws⟩ := List.map_eq_append_iff.mp hsplit
    obtain ⟨x, ys, rfl, hx, -⟩ := List.map_eq_cons_iff.mp hws
    rw [remove_of_first hentries hnot hx]
    change Pool.Path ChildEntry.next pool l.head (l.entries pool) stop at hpath
    rw [hentries] at hpath
    obtain ⟨mid, hfront, hback⟩ := Pool.path_append.mp hpath
    obtain ⟨rfl, hlive, -⟩ := Pool.path_cons.mp hback
    refine .inr ⟨x.1, x.2, hlive, ?_⟩
    rcases List.eq_nil_or_concat' bs with rfl | ⟨zs, last, rfl⟩
    · exact .inl ⟨rfl, rfl⟩
    · obtain ⟨_, -, hend⟩ := Pool.path_append.mp hfront
      obtain ⟨-, hlast, hnext⟩ := Pool.path_cons.mp hend
      have hattach : l.attach pool (some last.1) x.2.next =
          (l, pool.modify last.1 ({ · with next := x.2.next })) := by
        rw [attach, Option.filter_some_pos (Pool.contains_of_get? hlast)]
      rw [List.getLast?_concat, Option.map_some, hattach]
      exact .inr ⟨rfl, last.1, last.2, hlast, hnext, rfl⟩
  · exact .inl (by rw [remove_of_absent hmem])

section Histories

variable {ι : Type} [DecidableEq ι] (name : String) (capacity : Nat)
  (onIssue onRelease : ChildEntry → ChildEntry)

/-- The states that lists in one pool come to by any sequence of operations, when one may also become a
copy of another, with how often each slot was taken back. -/
inductive Copied : (Nat → Nat) → (ι → Children) → Pool ChildEntry → Prop
  | start : Copied 0 (fun _ => empty)
      (((Pool.ofCapacity name capacity .blank).withIssueHook onIssue).withReleaseHook onRelease)
  | push {counts ls pool l r} (i : ι) (child : Pid) : Copied counts ls pool →
      (ls i).push pool child = .ok (l, r) → Copied counts (Function.update ls i l) r
  | remove {counts ls pool} (i : ι) (child : Pid) : Copied counts ls pool →
      Copied (counts + pool.takenBack ((ls i).remove pool child).2.2)
        (Function.update ls i ((ls i).remove pool child).2.1) ((ls i).remove pool child).2.2
  | drain {counts ls pool} (i : ι) : Copied counts ls pool →
      Copied (counts + pool.takenBack ((ls i).drain pool).2.2)
        (Function.update ls i ((ls i).drain pool).2.1) ((ls i).drain pool).2.2
  | copy {counts ls pool} (i j : ι) : Copied counts ls pool →
      Copied counts (Function.update ls i (ls j)) pool
  | heap {counts ls pool} (slots : Nat) : Copied counts ls pool →
      Copied counts ls (pool.withStorage slots)

variable {name capacity onIssue onRelease} {counts : Nat → Nat} {ls : ι → Children} {i : ι}

lemma timely_push (h : Pool.Timely ChildEntry.next head counts ls pool)
    (hrun : (ls i).push pool child = .ok (l, r)) :
    Pool.Timely ChildEntry.next head counts (Function.update ls i l) r := by
  obtain ⟨id, q, hissue, hcases⟩ := push_cases hrun
  have hordered := push_ordered h.ordered hissue (h.unheld hissue i) hrun
  have hissues := h.ordered.wellFormed.issues_of_issue hissue
  obtain ⟨hhead, rfl⟩ | ⟨hhead, last, -, rfl⟩ := hcases
  · refine h.issue hissue i hordered (by simp) (fun j hj => .inr (hissues.named rfl hj)) fun j hj => ?_
    exact .inl (Option.some_injective _ (hj.symm.trans hhead))
  · refine h.issue hissue i hordered (by simp) (fun j hj => ?_) fun j hj => .inr (hhead.symm.trans hj)
    rcases Pool.named_of_modify hj with hbefore | ⟨_, hnext⟩
    · exact .inr (hissues.named rfl hbefore)
    · exact .inl (Option.some_injective _ hnext.symm)

lemma timely_remove (h : Pool.Timely ChildEntry.next head counts ls pool)
    (hbound : ∀ k, (counts + pool.takenBack ((ls i).remove pool child).2.2) k < 2 ^ 32) :
    Pool.Timely ChildEntry.next head (counts + pool.takenBack ((ls i).remove pool child).2.2)
      (Function.update ls i ((ls i).remove pool child).2.1) ((ls i).remove pool child).2.2 := by
  have hwell := h.ordered.wellFormed
  obtain hsame | ⟨id, link, hget, ⟨hhead, hpool⟩ | ⟨hhead, last, b, hlast, hnext, hpool⟩⟩ :=
    remove_cases h.ordered (ls i) child
  · rw [hsame] at hbound ⊢
    exact h.retire i h.ordered (.of_eq fun _ => rfl) hbound (fun _ hj => hj) fun _ hj => .inl hj
  · rw [hpool] at hbound ⊢
    refine h.retire i (h.ordered.releaseAll [id]) (Pool.retires_release pool id) hbound
      (fun j hj => Pool.named_of_releaseAll hwell [id] hj) fun j hj => .inr ?_
    exact ⟨id, link, hget, hhead.symm.trans hj⟩
  · rw [hpool] at hbound ⊢
    have hunlinked := h.ordered.passOver hlast hnext hget (f := ({ · with next := link.next })) fun _ => rfl
    have hretires := (Pool.Retires.of_eq (p := pool)
      (pool.stamp?_modify last ({ · with next := link.next }))).trans (Pool.retires_release _ id)
    refine h.retire i (hunlinked.releaseAll [id]) hretires hbound (fun j hj => ?_)
      fun j hj => .inl (hhead.symm.trans hj)
    have hbefore := Pool.named_of_releaseAll hunlinked.wellFormed [id] hj
    rcases Pool.named_of_modify hbefore with hnamed | ⟨_, hlink⟩
    · exact hnamed
    · exact ⟨id, link, hget, hlink⟩

lemma timely_drain (h : Pool.Timely ChildEntry.next head counts ls pool)
    (hbound : ∀ k, (counts + pool.takenBack ((ls i).drain pool).2.2) k < 2 ^ 32) :
    Pool.Timely ChildEntry.next head (counts + pool.takenBack ((ls i).drain pool).2.2)
      (Function.update ls i ((ls i).drain pool).2.1) ((ls i).drain pool).2.2 := by
  have hpool : ((ls i).drain pool).2.2 =
      (((ls i).entries pool).map (·.1)).foldl (fun pool id => (pool.release id).2) pool := by
    rw [List.foldl_map]
    rfl
  rw [hpool] at hbound ⊢
  refine h.retire i (h.ordered.releaseAll _) (Pool.retires_releaseAll pool _) hbound
    (fun j hj => Pool.named_of_releaseAll h.ordered.wellFormed _ hj) ?_
  rintro j ⟨⟩

/-- Until a slot has been taken back `2 ^ 32` times, all that is held was issued before. -/
theorem Copied.timely (h : Copied name capacity onIssue onRelease counts ls pool)
    (hbound : ∀ k, counts k < 2 ^ 32) : Pool.Timely ChildEntry.next head counts ls pool := by
  induction h with
  | start => exact Pool.timely_ofCapacity rfl name capacity _ onIssue onRelease
  | push i child _ hrun ih => exact timely_push (ih hbound) hrun
  | remove i child _ ih =>
    exact timely_remove (ih fun k => (Nat.le_add_right _ _).trans_lt (hbound k)) hbound
  | drain i _ ih => exact timely_drain (ih fun k => (Nat.le_add_right _ _).trans_lt (hbound k)) hbound
  | copy i j _ ih => exact (ih hbound).copy i j
  | heap slots _ ih => exact (ih hbound).withStorage slots

end Histories

/-- All walks over the lists and their links come to an end. -/
structure Walkable {ι : Type} (ls : ι → Children) (pool : Pool ChildEntry) : Prop where
  walks : pool.WalksEnd ChildEntry.next
  /-- A new child is brought to the end of a list when its link is in the pool already. -/
  push : ∀ child id p, pool.issue = .ok (id, p) →
    (p.modify id fun _ => ⟨child, none⟩).WalksEnd ChildEntry.next
  drain : ∀ i, ∃ ids, Pool.Empties ChildEntry.next pool (ls i).head ids ((ls i).drain pool).2.2 ∧
    ids.length ≤ pool.size

lemma walkable_of_timely {ι : Type} {counts : Nat → Nat} {ls : ι → Children}
    (h : pool.Timely ChildEntry.next head counts ls) : Walkable ls pool := by
  have hwell := h.ordered.wellFormed
  refine ⟨h.ordered.walksEnd, fun child id p hissue => ?_, fun i => ?_⟩
  · have hunnamed := mt (h.named id) (hwell.not_issued hissue)
    exact (h.ordered.append (hwell.issues_of_issue hissue) hunnamed rfl).1.walksEnd
  · have hempties := h.ordered.walksEnd.empties (ls i).head
    rw [List.foldl_map] at hempties
    refine ⟨_, hempties, ?_⟩
    rw [List.length_map]
    exact h.ordered.walksEnd.length_linked_le _

end Children

namespace PendingSignals

variable {pool p r : Pool SignalEntry} {q q' : PendingSignals} {signo : UInt8} {id : Handle}

/-- A new entry is put behind the last one of the queue, or begins the queue anew. -/
lemma push_cases (hrun : q.push pool signo = .ok (q', r)) : ∃ id p, pool.issue = .ok (id, p) ∧
    q'.tail = some id ∧ (r = (p.modify id fun _ => ⟨signo, none⟩) ∨
      ∃ last, q.tail = some last ∧
        r = (p.modify id fun _ => ⟨signo, none⟩).modify last ({ · with next := some id })) := by
  rw [push] at hrun
  cases hissue : pool.issue with
  | error e =>
    rw [hissue] at hrun
    cases hrun
  | ok issued =>
    rw [hissue] at hrun
    simp only [bind, Except.bind, pure, Except.pure] at hrun
    refine ⟨_, _, rfl, ?_⟩
    split at hrun
    · rename_i last hlast
      cases hrun
      exact ⟨rfl, .inr ⟨last, (Option.filter_eq_some_iff.mp hlast).1, rfl⟩⟩
    · cases hrun
      exact ⟨rfl, .inl rfl⟩

lemma push_ordered (h : pool.Ordered SignalEntry.next) (hissue : pool.issue = .ok (id, p))
    (hunheld : pool.Unheld SignalEntry.next q.tail id) (hrun : q.push pool signo = .ok (q', r)) :
    r.Ordered SignalEntry.next := by
  obtain ⟨hnew, hbehind⟩ := h.append (h.wellFormed.issues_of_issue hissue) hunheld.2 (b := ⟨signo, none⟩) rfl
  obtain ⟨_, _, heq, -, hcases⟩ := push_cases hrun
  rw [hissue, Except.ok.injEq, Prod.mk.injEq] at heq
  obtain ⟨rfl, rfl⟩ := heq
  obtain rfl | ⟨last, hlast, rfl⟩ := hcases
  · exact hnew
  · refine hbehind last ?_ ({ · with next := some id }) fun _ => rfl
    rintro rfl
    exact hunheld.1 hlast

section Histories

variable {ι : Type} [DecidableEq ι] (name : String) (capacity : Nat)
  (onIssue onRelease : SignalEntry → SignalEntry)

/-- The states that queues in one pool come to by any sequence of operations, when one may also become
a copy of another, with how often each slot was taken back. -/
inductive Copied : (Nat → Nat) → (ι → PendingSignals) → Pool SignalEntry → Prop
  | start : Copied 0 (fun _ => empty)
      (((Pool.ofCapacity name capacity .blank).withIssueHook onIssue).withReleaseHook onRelease)
  | push {counts qs pool q r} (i : ι) (signo : UInt8) : Copied counts qs pool →
      (qs i).push pool signo = .ok (q, r) → Copied counts (Function.update qs i q) r
  | clear {counts qs pool} (i : ι) : Copied counts qs pool →
      Copied (counts + pool.takenBack ((qs i).clear pool).2.2)
        (Function.update qs i ((qs i).clear pool).2.1) ((qs i).clear pool).2.2
  | copy {counts qs pool} (i j : ι) : Copied counts qs pool →
      Copied counts (Function.update qs i (qs j)) pool
  | heap {counts qs pool} (slots : Nat) : Copied counts qs pool →
      Copied counts qs (pool.withStorage slots)

variable {name capacity onIssue onRelease} {counts : Nat → Nat} {qs : ι → PendingSignals} {i : ι}

lemma timely_push (h : Pool.Timely SignalEntry.next tail counts qs pool)
    (hrun : (qs i).push pool signo = .ok (q, r)) :
    Pool.Timely SignalEntry.next tail counts (Function.update qs i q) r := by
  obtain ⟨id, p, hissue, htail, hcases⟩ := push_cases hrun
  have hordered := push_ordered h.ordered hissue (h.unheld hissue i) hrun
  have hissues := h.ordered.wellFormed.issues_of_issue hissue
  have hheld : ∀ j, q.tail = some j → j = id ∨ (qs i).tail = some j :=
    fun j hj => .inl (Option.some_injective _ (hj.symm.trans htail))
  obtain rfl | ⟨last, -, rfl⟩ := hcases
  · exact h.issue hissue i hordered (by simp) (fun j hj => .inr (hissues.named rfl hj)) hheld
  · refine h.issue hissue i hordered (by simp) (fun j hj => ?_) hheld
    rcases Pool.named_of_modify hj with hbefore | ⟨_, hnext⟩
    · exact .inr (hissues.named rfl hbefore)
    · exact .inl (Option.some_injective _ hnext.symm)

lemma timely_clear (h : Pool.Timely SignalEntry.next tail counts qs pool)
    (hbound : ∀ k, (counts + pool.takenBack ((qs i).clear pool).2.2) k < 2 ^ 32) :
    Pool.Timely SignalEntry.next tail (counts + pool.takenBack ((qs i).clear pool).2.2)
      (Function.update qs i ((qs i).clear pool).2.1) ((qs i).clear pool).2.2 := by
  have hpool : ((qs i).clear pool).2.2 =
      ((qs i).handles pool).foldl (fun pool id => (pool.release id).2) pool := snd_foldl_release _ 0
  rw [hpool] at hbound ⊢
  refine h.retire i (h.ordered.releaseAll _) (Pool.retires_releaseAll pool _) hbound
    (fun j hj => Pool.named_of_releaseAll h.ordered.wellFormed _ hj) ?_
  rintro j ⟨⟩

/-- Until a slot has been taken back `2 ^ 32` times, all that is held was issued before. -/
theorem Copied.timely (h : Copied name capacity onIssue onRelease counts qs pool)
    (hbound : ∀ k, counts k < 2 ^ 32) : Pool.Timely SignalEntry.next tail counts qs pool := by
  induction h with
  | start => exact Pool.timely_ofCapacity rfl name capacity _ onIssue onRelease
  | push i signo _ hrun ih => exact timely_push (ih hbound) hrun
  | clear i _ ih => exact timely_clear (ih fun k => (Nat.le_add_right _ _).trans_lt (hbound k)) hbound
  | copy i j _ ih => exact (ih hbound).copy i j
  | heap slots _ ih => exact (ih hbound).withStorage slots

end Histories

/-- All walks over the queues and their entries come to an end. -/
structure Walkable {ι : Type} (qs : ι → PendingSignals) (pool : Pool SignalEntry) : Prop where
  walks : pool.WalksEnd SignalEntry.next
  clear : ∀ i, ∃ ids, Pool.Empties SignalEntry.next pool (qs i).head ids ((qs i).clear pool).2.2 ∧
    ids.length ≤ pool.size

lemma walkable_of_ordered {ι : Type} {qs : ι → PendingSignals} (h : pool.Ordered SignalEntry.next) :
    Walkable qs pool where
  walks := h.walksEnd
  clear i := by
    have hempties := h.walksEnd.empties (qs i).head
    rw [← h.releaseAll_trail, ← handles, ← snd_foldl_release _ 0] at hempties
    refine ⟨_, hempties, ?_⟩
    rw [List.length_map]
    exact h.walksEnd.length_linked_le _

end PendingSignals

/-! ### Both kinds of lists -/

/-- Every walk over lists or queues comes to an end, whatever copies there are of them, as long as no
slot of their pool has been taken back `2 ^ 32` times. -/
theorem walks_end_on_copies {ι : Type} [DecidableEq ι] (name : String) (capacity : Nat) :
    (∀ onIssue onRelease counts (ls : ι → Children) pool,
      Children.Copied name capacity onIssue onRelease counts ls pool → (∀ k, counts k < 2 ^ 32) →
        Children.Walkable ls pool) ∧
    ∀ onIssue onRelease counts (qs : ι → PendingSignals) pool,
      PendingSignals.Copied name capacity onIssue onRelease counts qs pool → (∀ k, counts k < 2 ^ 32) →
        PendingSignals.Walkable qs pool :=
  ⟨fun _ _ _ _ _ h hbound => Children.walkable_of_timely (h.timely hbound),
    fun _ _ _ _ _ h hbound => PendingSignals.walkable_of_ordered (h.timely hbound).ordered⟩

/-- A list gives its first link back, and the copy that was made of it before is left with a stale head.
What is pushed to the copy next begins it anew, and its length is wrong. -/
theorem walks_end_on_copies_of_stale :
    (∃ (counts : _) (ls : Bool → Children) (pool : _), Children.Copied "list" 3 id id counts ls pool ∧
      counts 0 = 1 ∧ Children.Walkable ls pool ∧ (ls true).toList pool = [2, 3] ∧
      (ls false).toList pool = [4] ∧ (ls false).length = 3) ∧
    ∃ (counts : _) (qs : Bool → PendingSignals) (pool : _),
      PendingSignals.Copied "list" 3 id id counts qs pool ∧ counts 0 = 1 ∧
      PendingSignals.Walkable qs pool ∧ (qs true).toList pool = [2] ∧ (qs false).toList pool = [3] ∧
      (qs false).length = 2 := by
  obtain ⟨hlists, hqueues⟩ := walks_end_on_copies (ι := Bool) "list" 3
  constructor
  · have hbegun : Children.Copied "list" 3 id id 0 (fun _ : Bool => .empty) _ := .start
    have htwo := (hbegun.push true 1 rfl).push true 2 rfl
    have hanew := (((htwo.copy false true).remove true 1).push true 3 rfl).push false 4 rfl
    refine ⟨_, _, _, hanew, by decide +kernel, hlists id id _ _ _ hanew fun k => ?_, by decide +kernel,
      by decide +kernel, by decide +kernel⟩
    rw [zero_add]
    exact (Pool.takenBack_le_one _ _ k).trans_lt (by decide)
  · have hbegun : PendingSignals.Copied "list" 3 id id 0 (fun _ : Bool => .empty) _ := .start
    have hone := hbegun.push true 1 rfl
    have hanew := (((hone.copy false true).clear true).push true 2 rfl).push false 3 rfl
    refine ⟨_, _, _, hanew, by decide +kernel, hqueues id id _ _ _ hanew fun k => ?_, by decide +kernel,
      by decide +kernel, by decide +kernel⟩
    rw [zero_add]
    exact (Pool.takenBack_le_one _ _ k).trans_lt (by decide)

/-! ### A generation that comes round -/

namespace Children

/-- A pool with one link, which was given back. -/
def rested (g : UInt32) : Pool ChildEntry :=
  { Pool.ofCapacity "list" 1 ChildEntry.blank with
    slots := #[⟨⟨1, none⟩, g, false⟩]
    vacant := (Bitmap.empty.extendTo 0).insert 0 }

/-- The same pool with the link in use. -/
def busy (link : ChildEntry) (g : UInt32) : Pool ChildEntry :=
  { Pool.ofCapacity "list" 1 ChildEntry.blank with
    slots := #[⟨link, g, true⟩]
    vacant := Bitmap.empty.extendTo 0
    size := 1 }

lemma issue_rested (g : UInt32) : (rested g).issue = .ok (⟨0, g⟩, busy .blank g) := by
  have hlowest : ((Bitmap.empty.extendTo 0).insert 0).lowest? = some 0 := by decide +kernel
  have hvacant : ((Bitmap.empty.extendTo 0).insert 0).erase 0 = Bitmap.empty.extendTo 0 := by
    decide +kernel
  rw [Pool.issue, rested, hlowest]
  dsimp only
  rw [Pool.reissue, hvacant]
  rfl

lemma get?_busy (link : ChildEntry) (g : UInt32) : (busy link g).get? ⟨0, g⟩ = some link := by
  simp [Pool.get?, busy]

lemma modify_busy (link : ChildEntry) (g : UInt32) (f : ChildEntry → ChildEntry) :
    (busy link g).modify ⟨0, g⟩ f = busy (f link) g := by
  rw [Pool.modify, if_pos (Pool.contains_of_get? (get?_busy link g))]
  rfl

lemma push_rested (g : UInt32) : empty.push (rested g) 1 = .ok (⟨some ⟨0, g⟩, 1⟩, busy ⟨1, none⟩ g) := by
  rw [push, issue_rested]
  simp only [bind, Except.bind, pure, Except.pure, modify_busy]
  rfl

lemma drain_busy (g : UInt32) :
    (⟨some ⟨0, g⟩, 1⟩ : Children).drain (busy ⟨1, none⟩ g) = ([1], empty, rested (g + 1)) := by
  have hget := get?_busy ⟨1, none⟩ g
  have hpath : Pool.Path ChildEntry.next (busy ⟨1, none⟩ g) (some ⟨0, g⟩) [(⟨0, g⟩, ⟨1, none⟩)] none :=
    ⟨rfl, hget, rfl⟩
  have hrelease : ((busy ⟨1, none⟩ g).release ⟨0, g⟩).2 = rested (g + 1) := by
    rw [Pool.release, if_pos (Pool.contains_of_get? hget)]
    rfl
  rw [drain, entries, hpath.linked, List.foldl_cons, List.foldl_nil, hrelease]
  rfl

/-- The only link is put in a list and given back any number of times, after a copy was made of the list
when it held the link under its first handle. -/
lemma exists_copied (n : Nat) : ∃ (counts : _) (ls : Bool → Children),
    Copied "list" 1 id id counts ls (rested (UInt32.ofNat (n + 1))) ∧ counts 0 = n + 1 ∧
      ls true = empty ∧ ls false = ⟨some ⟨0, 0⟩, 1⟩ := by
  induction n with
  | zero =>
    have hbegun : Copied "list" 1 id id 0 (fun _ : Bool => empty) _ := .start
    have hcopied := ((hbegun.push true 1 rfl).copy false true).drain true
    exact ⟨_, _, hcopied, rfl, rfl, rfl⟩
  | succ n ih =>
    obtain ⟨counts, ls, hcopied, hcount, hdrained, hcopy⟩ := ih
    have hpushed := hcopied.push true 1 (by rw [hdrained]; exact push_rested _)
    have hround := hpushed.drain true
    rw [Function.update_self, drain_busy] at hround
    rw [UInt32.ofNat_add (n + 1)]
    refine ⟨_, _, hround, ?_, ?_, ?_⟩
    · rw [Pi.add_apply, hcount]
      rfl
    · rw [Function.update_self]
    · rw [Function.update_of_ne, Function.update_of_ne, hcopy] <;> decide

end Children

/-- When the generation of a slot has come round, a copy that was kept puts a new link behind itself. No
walk over that copy ends any more. -/
theorem goes_round_on_copies : ∃ (counts : _) (ls : Bool → Children) (pool : _),
    Children.Copied "list" 1 id id counts ls pool ∧ counts 0 = 2 ^ 32 ∧
    (∃ xs stop, Pool.Path ChildEntry.next pool (ls false).head xs stop ∧
      ¬ (xs.map (·.1.index)).Nodup) ∧
    ¬ ∃ xs stop, Pool.Path ChildEntry.next pool (ls false).head xs stop ∧ pool.Ends stop := by
  obtain ⟨counts, ls, hcopied, hcount, -, hcopy⟩ := Children.exists_copied (2 ^ 32 - 1)
  have hfirst : UInt32.ofNat (2 ^ 32 - 1 + 1) = 0 := by decide
  rw [hfirst] at hcopied
  obtain ⟨r, hrun, hget⟩ : ∃ r, (ls false).push (Children.rested 0) 2 = .ok (⟨some ⟨0, 0⟩, 2⟩, r) ∧
      r.get? ⟨0, 0⟩ = some ⟨2, some ⟨0, 0⟩⟩ := by
    rw [hcopy]
    exact ⟨_, rfl, by decide +kernel⟩
  have hlooped := hcopied.push false 2 hrun
  refine ⟨_, _, r, hlooped, hcount, ?_, ?_⟩ <;> rw [Function.update_self]
  · exact ⟨[(⟨0, 0⟩, _), (⟨0, 0⟩, _)], _, ⟨rfl, hget, rfl, hget, rfl⟩, by decide⟩
  · rintro ⟨xs, stop, hpath, hends⟩
    rw [hpath.stop_of_loop hget rfl, Pool.Ends, Option.bind_some, hget] at hends
    cases hends

end Uniprocessor
