import Uniprocessor.Roster
import Uniprocessor.Proofs.Paths

/-!
# Well-formed rosters

The chain of a well-formed roster is ascending, and index and pool hold exactly its records. Such
a roster is a finite map from identifiers to records: the operations below are described by what
each identifier stands for afterwards, the links of the chain left aside.
-/

namespace Uniprocessor

namespace ProcessRecord

variable {space : Type}

/-- The record without its place in the chain. -/
def unchained (p : ProcessRecord space) : ProcessRecord space := { p with next := none }

@[simp]
lemma unchained_pid (p : ProcessRecord space) : p.unchained.pid = p.pid := rfl

end ProcessRecord

namespace Roster

variable {space : Type} {r : Roster space} {xs ys : List (Handle × ProcessRecord space)}

/-- An index is as large as the list of its identifiers is long. -/
lemma size_eq_length {β : Type} {index : Std.ExtTreeMap Pid β} {pids : List Pid} (hnodup : pids.Nodup)
    (hmem : ∀ pid : Nat, index.contains pid = true ↔ pid ∈ pids) : index.size = pids.length := by
  have hperm : index.keys.Perm pids := by
    refine (List.perm_ext_iff_of_nodup ?_ hnodup).mpr fun pid => ?_
    · refine index.distinct_keys.imp fun hne heq => hne ?_
      rw [heq]
      exact Std.ReflCmp.compare_self
    · rw [Std.ExtTreeMap.mem_keys, ← Std.ExtTreeMap.contains_iff_mem, hmem]
  rw [← Std.ExtTreeMap.length_keys, hperm.length_eq]

/-- The entries of a chain without their places in it. -/
def bare (xs : List (Handle × ProcessRecord space)) : List (Handle × ProcessRecord space) :=
  xs.map fun e => (e.1, e.2.unchained)

lemma bare_append : bare (xs ++ ys) = bare xs ++ bare ys := List.map_append

@[simp]
lemma bare_cons (e : Handle × ProcessRecord space) :
    bare (e :: xs) = (e.1, e.2.unchained) :: bare xs := rfl

/-- The record of an identifier without its place in the chain. -/
def record? (r : Roster space) (pid : Pid) : Option (ProcessRecord space) :=
  (r.get? pid).map (·.unchained)

/-- The chain of the roster is `xs`, ascending, and index and pool have exactly its records. -/
structure Chain (r : Roster space) (xs : List (Handle × ProcessRecord space)) : Prop where
  shared : Pool.Shared ProcessRecord.next r.pool (fun _ : Unit => r.head) fun _ => xs
  sorted : ((bare xs).map (·.2.pid)).Pairwise (· < ·)
  index : ∀ (pid : Nat) slot,
    r.index[pid]? = some slot ↔ ∃ p, (slot, p) ∈ bare xs ∧ p.pid = pid

def WellFormed (r : Roster space) : Prop := ∃ xs, r.Chain xs

lemma chain_ofCapacity (capacity : Nat) (policy : Strictness) :
    (ofCapacity capacity policy : Roster space).Chain [] where
  shared := (Pool.shared_ofCapacity "process" capacity _).withIssueHook _
  sorted := .nil
  index := by simp [ofCapacity, bare]

section

variable (h : r.Chain xs)

include h

lemma Chain.path : Pool.Path ProcessRecord.next r.pool r.head xs none := h.shared.path ()

lemma Chain.entries : r.entries = xs := h.path.linked

lemma Chain.toList : r.toList = xs.map (·.2) := by rw [Roster.toList, h.entries]

lemma Chain.nodup : ((bare xs).map (·.2.pid)).Nodup := h.sorted.imp Nat.ne_of_lt

lemma Chain.eq_of_pid {e e' : Handle × ProcessRecord space} (he : e ∈ bare xs) (he' : e' ∈ bare xs)
    (hpid : e.2.pid = e'.2.pid) : e = e' := List.inj_on_of_nodup_map h.nodup he he' hpid

lemma Chain.get?_of_index {pid : Nat} {slot : Handle} (hslot : r.index[pid]? = some slot) :
    ∃ p, (slot, p) ∈ xs ∧ r.get? pid = some p ∧ p.pid = pid := by
  obtain ⟨p, hp, hpid⟩ := (h.index pid slot).mp hslot
  obtain ⟨e, he, heq⟩ := List.mem_map.mp hp
  obtain ⟨hslot', hp'⟩ := Prod.mk.inj heq
  refine ⟨e.2, hslot' ▸ he, ?_, ?_⟩
  · rw [get?, hslot, Option.bind_some, ← hslot', h.path.get? he]
  · rw [← hpid, ← hp', ProcessRecord.unchained_pid]

lemma Chain.record?_eq_some {pid : Nat} {p : ProcessRecord space} :
    r.record? pid = some p ↔ ∃ slot, (slot, p) ∈ bare xs ∧ p.pid = pid := by
  constructor
  · intro hp
    cases hslot : r.index[pid]? with
    | none => simp [record?, get?, hslot] at hp
    | some slot =>
      obtain ⟨q, hmem, hget, hpid⟩ := h.get?_of_index hslot
      rw [record?, hget, Option.map_some] at hp
      cases hp
      exact ⟨slot, List.mem_map.mpr ⟨_, hmem, rfl⟩, hpid⟩
  · rintro ⟨slot, hmem, hpid⟩
    have hslot := (h.index pid slot).mpr ⟨p, hmem, hpid⟩
    obtain ⟨q, hq, hget, hqpid⟩ := h.get?_of_index hslot
    have hq' : (slot, q.unchained) ∈ bare xs := List.mem_map.mpr ⟨_, hq, rfl⟩
    have heq := h.eq_of_pid hq' hmem (hqpid.trans hpid.symm)
    rw [record?, hget, Option.map_some, (Prod.mk.inj heq).2]

lemma Chain.contains_eq (pid : Nat) : r.contains pid = (r.get? pid).isSome := by
  have hindex : r.contains pid = r.index[pid]?.isSome := Std.ExtTreeMap.contains_eq_isSome_getElem?
  rw [hindex]
  cases hslot : r.index[pid]? with
  | none => simp [get?, hslot]
  | some slot =>
    obtain ⟨p, -, hget, -⟩ := h.get?_of_index hslot
    simp [hget]

lemma Chain.pool_size : r.pool.size = xs.length := by
  rw [← h.shared.size_eq (List.pairwise_singleton _ ()) (by simp)]
  simp

end

section

variable (h : r.WellFormed)

include h

lemma WellFormed.pid_of_get? {pid : Nat} {p : ProcessRecord space} (hp : r.get? pid = some p) :
    p.pid = pid := by
  obtain ⟨xs, h⟩ := h
  cases hslot : r.index[pid]? with
  | none => simp [get?, hslot] at hp
  | some slot =>
    obtain ⟨q, -, hget, hpid⟩ := h.get?_of_index hslot
    rw [hget] at hp
    cases hp
    exact hpid

lemma WellFormed.mem_toList {p : ProcessRecord space} : p ∈ r.toList ↔ r.get? p.pid = some p := by
  obtain ⟨xs, h⟩ := h
  rw [h.toList]
  constructor
  · intro hp
    obtain ⟨e, he, rfl⟩ := List.mem_map.mp hp
    have hslot := (h.index e.2.pid e.1).mpr ⟨_, List.mem_map.mpr ⟨e, he, rfl⟩, rfl⟩
    obtain ⟨q, hq, hget, -⟩ := h.get?_of_index hslot
    rw [get?, hslot, Option.bind_some] at hget ⊢
    exact h.path.get? he
  · intro hp
    cases hslot : r.index[p.pid]? with
    | none => simp [get?, hslot] at hp
    | some slot =>
      obtain ⟨q, hq, hget, -⟩ := h.get?_of_index hslot
      rw [hp] at hget
      cases hget
      exact List.mem_map_of_mem hq

lemma WellFormed.sorted : (r.toList.map (·.pid)).Pairwise (· < ·) := by
  obtain ⟨xs, h⟩ := h
  have hsorted := h.sorted
  simpa only [h.toList, bare, List.map_map, Function.comp_def, ProcessRecord.unchained_pid] using
    hsorted

lemma WellFormed.withProcessor (running : Option Pid) (active : Registers) :
    { r with running := running, active := active }.WellFormed := by
  obtain ⟨xs, h⟩ := h
  exact ⟨xs, h.shared, h.sorted, h.index⟩

lemma WellFormed.withStorage (slots entries : Nat) : (r.withStorage slots entries).WellFormed := by
  obtain ⟨xs, h⟩ := h
  exact ⟨xs, h.shared.withStorage slots, h.sorted, h.index⟩

lemma WellFormed.pool : r.pool.WellFormed := by
  obtain ⟨xs, h⟩ := h
  exact h.shared.wellFormed

lemma WellFormed.pool_size : r.pool.size = r.toList.length := by
  obtain ⟨xs, h⟩ := h
  rw [h.toList, List.length_map, h.pool_size]

lemma WellFormed.contains_eq (pid : Nat) : r.contains pid = (r.get? pid).isSome := by
  obtain ⟨xs, h⟩ := h
  exact h.contains_eq pid

lemma WellFormed.contains_iff (pid : Nat) : r.contains pid = true ↔ pid ∈ r.toList.map (·.pid) := by
  rw [h.contains_eq, Option.isSome_iff_exists, List.mem_map]
  constructor
  · rintro ⟨p, hp⟩
    have hpid := h.pid_of_get? hp
    exact ⟨p, h.mem_toList.mpr (by rwa [hpid]), hpid⟩
  · rintro ⟨p, hp, rfl⟩
    exact ⟨p, h.mem_toList.mp hp⟩

/-- A map with something for each live process lists it in the order of the chain. -/
lemma WellFormed.map_toList {β : Type} {t : Std.ExtTreeMap Pid β} {f : ProcessRecord space → β}
    (ht : ∀ pid : Nat, t[pid]? = (r.get? pid).map f) : r.toList.map (fun p => (p.pid, f p)) = t.toList := by
  have hsorted : (r.toList.map fun p => (p.pid, f p)).Pairwise fun a b => a.1 < b.1 := by
    have hroster := h.sorted
    simpa only [List.pairwise_map] using hroster
  have hordered : t.toList.Pairwise fun a b => a.1 < b.1 :=
    t.ordered_keys_toList.imp fun hlt => Nat.compare_eq_lt.mp hlt
  have hantisymm : ∀ a b : Pid × β, a.1 < b.1 → b.1 < a.1 → a = b :=
    fun a b hab hba => absurd hab (Nat.lt_asymm hba)
  apply List.Perm.eq_of_pairwise (fun a b _ _ => hantisymm a b) hsorted hordered
  refine (List.perm_ext_iff_of_nodup ?_ ?_).mpr fun e => ?_
  · exact hsorted.imp fun hlt heq => Nat.ne_of_lt hlt (congrArg Prod.fst heq)
  · exact hordered.imp fun hlt heq => Nat.ne_of_lt hlt (congrArg Prod.fst heq)
  · obtain ⟨pid, b⟩ := e
    rw [Std.ExtTreeMap.mem_toList_iff_getElem?_eq_some, ht, List.mem_map, Option.map_eq_some_iff]
    constructor
    · rintro ⟨p, hp, heq⟩
      obtain ⟨rfl, rfl⟩ := Prod.mk.inj heq
      exact ⟨p, h.mem_toList.mp hp, rfl⟩
    · rintro ⟨p, hp, rfl⟩
      have hpid := h.pid_of_get? hp
      exact ⟨p, h.mem_toList.mpr (by rwa [hpid]), by rw [hpid]⟩

/-- The index knows as many processes as the chain has. -/
lemma WellFormed.size_eq : r.size = r.toList.length := by
  rw [size, size_eq_length (h.sorted.imp Nat.ne_of_lt) h.contains_iff, List.length_map]

end

/-! ### Changing a record -/

lemma modify_eq (r : Roster space) (pid : Pid) (f : ProcessRecord space → ProcessRecord space) :
    r.modify pid f = { r with pool := (r.modify pid f).pool } := by
  unfold modify
  split <;> rfl

@[simp]
lemma running_modify (r : Roster space) (pid : Pid) (f : ProcessRecord space → ProcessRecord space) :
    (r.modify pid f).running = r.running := by
  rw [modify_eq]

@[simp]
lemma active_modify (r : Roster space) (pid : Pid) (f : ProcessRecord space → ProcessRecord space) :
    (r.modify pid f).active = r.active := by
  rw [modify_eq]

@[simp]
lemma policy_modify (r : Roster space) (pid : Pid) (f : ProcessRecord space → ProcessRecord space) :
    (r.modify pid f).policy = r.policy := by
  rw [modify_eq]

@[simp]
lemma indexStorage_modify (r : Roster space) (pid : Pid)
    (f : ProcessRecord space → ProcessRecord space) :
    (r.modify pid f).indexStorage = r.indexStorage := by
  rw [modify_eq]

lemma sameSetup_modify (r : Roster space) (pid : Pid)
    (f : ProcessRecord space → ProcessRecord space) : r.pool.SameSetup (r.modify pid f).pool := by
  unfold modify
  split
  · exact Pool.sameSetup_modify _ _ _
  · rfl

lemma WellFormed.get?_modify (h : r.WellFormed) (pid q : Nat)
    (f : ProcessRecord space → ProcessRecord space) :
    (r.modify pid f).get? q = if q = pid then (r.get? pid).map f else r.get? q := by
  obtain ⟨xs, h⟩ := h
  cases hslot : r.index[pid]? with
  | none =>
    split
    · rename_i hq
      simp [hq, modify, get?, hslot]
    · simp [modify, hslot]
  | some slot =>
    obtain ⟨p, -, hget, hpid⟩ := h.get?_of_index hslot
    cases hslot' : r.index[q]? with
    | none =>
      have hq : q ≠ pid := by
        rintro rfl
        rw [hslot] at hslot'
        cases hslot'
      simp [modify, get?, hslot, hslot', hq]
    | some slot' =>
      have hsame : slot' = slot ↔ q = pid := by
        constructor
        · rintro rfl
          obtain ⟨p', -, hget', hpid'⟩ := h.get?_of_index hslot'
          rw [get?, hslot, Option.bind_some] at hget
          rw [get?, hslot', Option.bind_some, hget] at hget'
          cases hget'
          exact hpid'.symm.trans hpid
        · rintro rfl
          exact Option.some_injective _ (hslot'.symm.trans hslot)
      simp [modify, get?, hslot, hslot', Pool.get?_modify, hsame]

lemma WellFormed.record?_modify (h : r.WellFormed) (pid q : Nat)
    {f : ProcessRecord space → ProcessRecord space} (hf : ∀ p, (f p).unchained = f p.unchained) :
    (r.modify pid f).record? q = if q = pid then (r.record? pid).map f else r.record? q := by
  rw [record?, h.get?_modify]
  split
  · simp [record?, hf, Function.comp_def]
  · rfl

lemma Chain.modify (h : r.Chain xs) (pid : Pid) {f : ProcessRecord space → ProcessRecord space}
    (hpid : ∀ p, (f p).pid = p.pid) (hnext : ∀ p, (f p).next = p.next) :
    ∃ ys, (r.modify pid f).Chain ys ∧ ys.length = xs.length := by
  unfold Roster.modify
  cases r.index[pid]? with
  | none => exact ⟨xs, h, rfl⟩
  | some slot =>
    refine ⟨_, ⟨h.shared.modify slot hnext, ?_, ?_⟩, List.length_map _⟩
    · have hpids : ∀ e : Handle × ProcessRecord space,
          (if e.1 = slot then f e.2 else e.2).pid = e.2.pid := by
        intro e
        split
        · exact hpid e.2
        · rfl
      have hsorted := h.sorted
      simp only [bare, List.map_map, Function.comp_def, ProcessRecord.unchained_pid] at hsorted ⊢
      simpa only [hpids] using hsorted
    · intro q slot'
      rw [h.index q slot']
      simp only [bare, List.mem_map, Prod.mk.injEq, List.map_map, Function.comp_apply]
      constructor
      · rintro ⟨p, ⟨e, he, rfl, rfl⟩, hq⟩
        refine ⟨_, ⟨e, he, rfl, rfl⟩, ?_⟩
        split <;> simp_all
      · rintro ⟨p, ⟨e, he, rfl, rfl⟩, hq⟩
        refine ⟨_, ⟨e, he, rfl, rfl⟩, ?_⟩
        split at hq <;> simp_all

theorem WellFormed.modify (h : r.WellFormed) (pid : Pid)
    {f : ProcessRecord space → ProcessRecord space} (hpid : ∀ p, (f p).pid = p.pid)
    (hnext : ∀ p, (f p).next = p.next) : (r.modify pid f).WellFormed := by
  obtain ⟨xs, h⟩ := h
  obtain ⟨ys, hys, -⟩ := h.modify pid hpid hnext
  exact ⟨ys, hys⟩

/-! ### Adding a record -/

/-- What has to be checked when a record joins the chain. -/
lemma Chain.adding (h : r.Chain xs) {us vs : List (Handle × ProcessRecord space)}
    (hxs : xs = us ++ vs) {t : Roster space} {i : Handle} {p : ProcessRecord space}
    (hbefore : ∀ e ∈ us, e.2.pid < p.pid) (hbehind : ∀ e ∈ vs, p.pid < e.2.pid)
    (hshared : Pool.Shared ProcessRecord.next t.pool (fun _ : Unit => t.head) fun _ => ys)
    (hindex : t.index = r.index.insert p.pid i) (hys : bare ys = bare us ++ (i, p) :: bare vs) :
    t.Chain ys ∧ ∀ q : Nat, t.record? q = if q = p.pid then some p else r.record? q := by
  subst hxs
  have hmem : ∀ e, e ∈ bare ys ↔ e = (i, p) ∨ e ∈ bare (us ++ vs) := by
    intro e
    rw [hys, bare_append]
    simp only [List.mem_append, List.mem_cons]
    tauto
  have hother : ∀ e ∈ bare (us ++ vs), e.2.pid ≠ p.pid := by
    intro e he
    obtain ⟨e', he', rfl⟩ := List.mem_map.mp he
    rcases List.mem_append.mp he' with hu | hv
    · exact Nat.ne_of_lt (hbefore e' hu)
    · exact Nat.ne_of_gt (hbehind e' hv)
  have hfind : ∀ (q : Nat) slot p', ((slot, p') ∈ bare ys ∧ p'.pid = q) ↔
      if q = p.pid then slot = i ∧ p' = p else (slot, p') ∈ bare (us ++ vs) ∧ p'.pid = q := by
    intro q slot p'
    rw [hmem, Prod.mk.injEq]
    split
    · rename_i hq
      constructor
      · rintro ⟨hnew | hold, hpid⟩
        · exact hnew
        · exact absurd (hpid.trans hq) (hother _ hold)
      · rintro ⟨rfl, rfl⟩
        exact ⟨.inl ⟨rfl, rfl⟩, hq.symm⟩
    · rename_i hq
      constructor
      · rintro ⟨⟨rfl, rfl⟩ | hold, hpid⟩
        · exact absurd hpid.symm hq
        · exact ⟨hold, hpid⟩
      · rintro ⟨hold, hpid⟩
        exact ⟨.inr hold, hpid⟩
  have hchain : t.Chain ys := by
    refine ⟨hshared, ?_, fun q slot => ?_⟩
    · have hsorted := h.sorted
      rw [bare_append, List.map_append, List.pairwise_append] at hsorted
      rw [hys, List.map_append, List.map_cons, List.pairwise_append, List.pairwise_cons]
      have hu : ∀ a ∈ (bare us).map (·.2.pid), a < p.pid := by
        simpa only [bare, List.forall_mem_map, ProcessRecord.unchained_pid] using hbefore
      have hv : ∀ b ∈ (bare vs).map (·.2.pid), p.pid < b := by
        simpa only [bare, List.forall_mem_map, ProcessRecord.unchained_pid] using hbehind
      refine ⟨hsorted.1, ⟨hv, hsorted.2.1⟩, fun a ha b hb => ?_⟩
      rcases List.mem_cons.mp hb with rfl | hb
      · exact hu a ha
      · exact hsorted.2.2 a ha b hb
    · simp only [hindex, Std.ExtTreeMap.getElem?_insert, hfind, Nat.compare_eq_eq, eq_comm (a := p.pid)]
      split
      · simp [eq_comm]
      · exact h.index q slot
  refine ⟨hchain, fun q => Option.ext fun p' => ?_⟩
  simp only [hchain.record?_eq_some, hfind]
  split
  · simp [eq_comm]
  · exact h.record?_eq_some.symm

/-- The place of a new identifier in an ascending chain. -/
lemma Chain.split (h : r.Chain xs) {pid : Nat} (hnew : r.get? pid = none) :
    ∃ us vs, xs = us ++ vs ∧ xs.takeWhile (fun e => e.2.pid ≤ pid) = us ∧
      (∀ e ∈ us, e.2.pid < pid) ∧ ∀ e ∈ vs, pid < e.2.pid := by
  have hsorted : xs.Pairwise fun a b => a.2.pid < b.2.pid := by
    have hs := h.sorted
    simpa only [bare, List.map_map, List.pairwise_map, Function.comp_apply,
      ProcessRecord.unchained_pid] using hs
  refine ⟨_, _, (List.takeWhile_append_dropWhile (p := fun e => e.2.pid ≤ pid)).symm, rfl, ?_, ?_⟩
  · intro e he
    have hle : e.2.pid ≤ pid := by
      simpa using List.all_eq_true.mp (List.all_takeWhile (p := fun e => e.2.pid ≤ pid)) e he
    refine Nat.lt_of_le_of_ne hle fun heq => ?_
    have hslot := (h.index pid e.1).mpr
      ⟨_, List.mem_map.mpr ⟨e, (List.takeWhile_prefix _).subset he, rfl⟩, heq⟩
    obtain ⟨_, -, hget, -⟩ := h.get?_of_index hslot
    rw [hnew] at hget
    cases hget
  · cases hdrop : xs.dropWhile (fun e => decide (e.2.pid ≤ pid)) with
    | nil => simp
    | cons x vs =>
      have hx : pid < x.2.pid := by
        have hhead := List.head_dropWhile_not (fun e => decide (e.2.pid ≤ pid)) (l := xs)
          (by simp [hdrop])
        simpa [hdrop] using hhead
      have hvs := hsorted.sublist (List.dropWhile_sublist fun e => decide (e.2.pid ≤ pid))
      rw [hdrop, List.pairwise_cons] at hvs
      intro e he
      rcases List.mem_cons.mp he with rfl | he
      · exact hx
      · exact Nat.lt_trans hx (hvs.1 e he)

lemma update_unit {β : Type} (f : Unit → β) (b : β) : Function.update f () b = fun _ => b :=
  Function.update_eq_const_of_subsingleton () b f

lemma enlist_eq (r : Roster space) (pid : Pid) (slot : Handle) (q : Pool (ProcessRecord space)) :
    r.enlist pid slot q = { r with
      pool := (r.enlist pid slot q).pool
      index := (r.enlist pid slot q).index
      head := (r.enlist pid slot q).head } := by
  simp only [enlist, attach]
  split <;> rfl

/-- The record that was issued for a new identifier comes to its place in the chain. -/
theorem Chain.enlist (h : r.Chain xs) {pid : Nat} (hnew : r.get? pid = none) {slot : Handle}
    {q : Pool (ProcessRecord space)} (hissues : r.pool.Issues slot q) :
    ∃ us vs ys, (r.enlist pid slot q).Chain ys ∧ xs = us ++ vs ∧
      bare ys = bare us ++ (slot, { r.pool.fresh with pid := pid, next := none }) :: bare vs ∧
      (∀ p : Nat, (r.enlist pid slot q).record? p =
        if p = pid then some { r.pool.fresh with pid := pid, next := none } else r.record? p) ∧
      r.pool.SameSetup (r.enlist pid slot q).pool := by
  obtain ⟨us, vs, hxs, htake, hbefore, hbehind⟩ := h.split hnew
  rcases List.eq_nil_or_concat' us with hnil | ⟨us', last, hlast⟩
  · have henlist : r.enlist pid slot q = { r with
        pool := q.modify slot ({ · with pid := pid, next := r.head })
        index := r.index.insert pid slot
        head := some slot } := by
      simp [Roster.enlist, h.entries, htake, hnil, attach]
    have hshared := h.shared.insertHead hissues () (g := ({ · with pid := pid, next := r.head })) rfl
    rw [update_unit, update_unit] at hshared
    have hys : bare ((slot, { r.pool.fresh with pid := pid, next := r.head }) :: xs) =
        bare us ++ (slot, { r.pool.fresh with pid := pid, next := none }) :: bare vs := by
      rw [hnil, hxs, hnil]
      rfl
    obtain ⟨hchain, hrecord⟩ := h.adding hxs (t := r.enlist pid slot q) (i := slot)
      (p := { r.pool.fresh with pid := pid, next := none }) hbefore hbehind
      (by rw [henlist]; exact hshared) (by rw [henlist]) hys
    refine ⟨us, vs, _, hchain, hxs, hys, hrecord, ?_⟩
    rw [henlist]
    dsimp only
    exact hissues.setup.trans (Pool.sameSetup_modify _ _ _)
  · have hcontains : q.contains last.1 = true := by
      have hval := h.path.get? (e := last) (by simp [hxs, hlast])
      rw [Pool.contains, hissues.get?]
      split <;> simp [hval]
    have henlist : r.enlist pid slot q = { r with
        pool := (q.modify slot ({ · with pid := pid, next := last.2.next })).modify last.1
          ({ · with next := some slot })
        index := r.index.insert pid slot } := by
      simp [Roster.enlist, h.entries, htake, hlast, attach, hcontains, Option.filter]
    have hsplit : xs = us' ++ last :: vs := by simp [hxs, hlast]
    have hshared := h.shared.insertBehind hissues (i := ()) hsplit
      (g := ({ · with pid := pid, next := last.2.next })) (f := ({ · with next := some slot })) rfl
      fun _ => rfl
    rw [update_unit] at hshared
    have hys : bare (us' ++ (last.1, { last.2 with next := some slot }) ::
          (slot, { r.pool.fresh with pid := pid, next := last.2.next }) :: vs) =
        bare us ++ (slot, { r.pool.fresh with pid := pid, next := none }) :: bare vs := by
      simp [hlast, bare, ProcessRecord.unchained]
    obtain ⟨hchain, hrecord⟩ := h.adding hxs (t := r.enlist pid slot q) (i := slot)
      (p := { r.pool.fresh with pid := pid, next := none }) hbefore hbehind
      (by rw [henlist]; exact hshared) (by rw [henlist]) hys
    refine ⟨us, vs, _, hchain, hxs, hys, hrecord, ?_⟩
    rw [henlist]
    dsimp only
    exact (hissues.setup.trans (Pool.sameSetup_modify _ _ _)).trans (Pool.sameSetup_modify _ _ _)

/-- Why a roster takes in no other record, if it does not. A record needs an entry in the index too. -/
def shortage? (r : Roster space) : Option IssueError :=
  Pool.shortage? r.pool.capacity (min r.pool.storage r.indexStorage) r.size

lemma Chain.size_eq (h : r.Chain xs) : r.size = r.pool.size :=
  (WellFormed.size_eq ⟨xs, h⟩).trans (WellFormed.pool_size ⟨xs, h⟩).symm

/-- A roster that is short of nothing takes in a record for a new identifier, at its place in the
chain. -/
theorem Chain.insert (h : r.Chain xs) {pid : Nat} (hnew : r.get? pid = none)
    (hshort : r.shortage? = none) :
    ∃ slot r' us vs ys, r.insert pid = (.ok slot, r') ∧ r'.Chain ys ∧ xs = us ++ vs ∧
      bare ys = bare us ++ (slot, { r.pool.fresh with pid := pid, next := none }) :: bare vs ∧
      (∀ q : Nat, r'.record? q =
        if q = pid then some { r.pool.fresh with pid := pid, next := none } else r.record? q) ∧
      r.pool.SameSetup r'.pool ∧ r' = { r with pool := r'.pool, index := r'.index, head := r'.head } := by
  obtain ⟨hcapacity, hstorage⟩ := Pool.shortage?_eq_none.mp hshort
  obtain ⟨hstorage, hindex⟩ := lt_min_iff.mp hstorage
  rw [h.size_eq] at hcapacity hstorage
  obtain ⟨slot, q, hissue, hissues⟩ :=
    h.shared.wellFormed.issue_eq_ok (Pool.shortage?_eq_none.mpr ⟨hcapacity, hstorage⟩)
  obtain ⟨us, vs, ys, hchain, hxs, hys, hrecord, hsetup⟩ := h.enlist hnew hissues
  refine ⟨slot, _, us, vs, ys, ?_, hchain, hxs, hys, hrecord, hsetup, r.enlist_eq pid slot q⟩
  rw [Roster.insert, hissue]
  exact if_pos hindex

/-- A roster that is short of something keeps the records it has. -/
theorem Chain.insert_of_shortage (h : r.Chain xs) (pid : Nat) {e : IssueError}
    (hshort : r.shortage? = some e) :
    ∃ q, r.insert pid = (.error e, { r with pool := q }) ∧ { r with pool := q }.Chain xs ∧
      (∀ id, q.get? id = r.pool.get? id) ∧ r.pool.SameSetup q := by
  have hwell := h.shared.wellFormed
  cases hpool : Pool.shortage? r.pool.capacity r.pool.storage r.pool.size with
  | some e' =>
    have he : e' = e := by
      rw [shortage?, h.size_eq] at hshort
      cases e' with
      | exhausted =>
        rw [Pool.shortage?_eq_exhausted.mpr (Pool.shortage?_eq_exhausted.mp hpool)] at hshort
        exact Option.some_injective _ hshort
      | storageFailed =>
        obtain ⟨hcapacity, hstorage⟩ := Pool.shortage?_eq_storageFailed.mp hpool
        rw [Pool.shortage?_eq_storageFailed.mpr ⟨hcapacity, min_le_of_left_le hstorage⟩] at hshort
        exact Option.some_injective _ hshort
    refine ⟨r.pool, ?_, h, fun _ => rfl, .refl _⟩
    rw [Roster.insert, hwell.issue_eq_error_iff.mpr hpool, he]
  | none =>
    -- the record is issued, and given back for want of an entry in the index
    obtain ⟨hcapacity, hstorage⟩ := Pool.shortage?_eq_none.mp hpool
    obtain ⟨slot, q, hissue, hissues⟩ := hwell.issue_eq_ok hpool
    obtain ⟨hq, hget, hsetup⟩ := hissues.undo
    have he : e = .storageFailed ∧ ¬ r.index.size < r.indexStorage := by
      rw [← h.size_eq] at hcapacity hstorage
      cases e with
      | exhausted => exact absurd (Pool.shortage?_eq_exhausted.mp hshort) (Nat.not_le.mpr hcapacity)
      | storageFailed =>
        have hmin := (Pool.shortage?_eq_storageFailed.mp hshort).2
        exact ⟨rfl, fun hindex => Nat.not_le.mpr (lt_min hstorage hindex) hmin⟩
    refine ⟨(q.release slot).2, ?_, ⟨h.shared.congr hq hget, h.sorted, h.index⟩, hget, hsetup⟩
    rw [Roster.insert, hissue, he.1]
    exact if_neg he.2

theorem WellFormed.insert (h : r.WellFormed) {pid : Nat} (hnew : r.get? pid = none)
    (hshort : r.shortage? = none) :
    ∃ slot r', r.insert pid = (.ok slot, r') ∧ r'.WellFormed ∧
      (∀ q : Nat, r'.record? q =
        if q = pid then some { r.pool.fresh with pid := pid, next := none } else r.record? q) ∧
      r.pool.SameSetup r'.pool ∧ r' = { r with pool := r'.pool, index := r'.index, head := r'.head } := by
  obtain ⟨xs, h⟩ := h
  obtain ⟨slot, r', us, vs, ys, hinsert, hchain, -, -, hrecord, hsetup, hrest⟩ := h.insert hnew hshort
  exact ⟨slot, r', hinsert, ⟨ys, hchain⟩, hrecord, hsetup, hrest⟩

theorem WellFormed.insert_of_shortage (h : r.WellFormed) (pid : Nat) {e : IssueError}
    (hshort : r.shortage? = some e) :
    ∃ q, r.insert pid = (.error e, { r with pool := q }) ∧ { r with pool := q }.WellFormed ∧
      (∀ id, q.get? id = r.pool.get? id) ∧ r.pool.SameSetup q := by
  obtain ⟨xs, h⟩ := h
  obtain ⟨q, hinsert, hchain, hget, hsetup⟩ := h.insert_of_shortage pid hshort
  exact ⟨q, hinsert, ⟨xs, hchain⟩, hget, hsetup⟩

/-- A record is refused exactly when the roster is short of something. -/
theorem WellFormed.insert_eq_error_iff (h : r.WellFormed) (pid : Nat) {e : IssueError} :
    (r.insert pid).1 = .error e ↔ r.shortage? = some e := by
  cases hshort : r.shortage? with
  | some short =>
    obtain ⟨q, hinsert, -⟩ := h.insert_of_shortage pid hshort
    simp [hinsert]
  | none =>
    obtain ⟨hcapacity, hstorage⟩ := Pool.shortage?_eq_none.mp hshort
    obtain ⟨hstorage, hindex⟩ := lt_min_iff.mp hstorage
    rw [h.size_eq, ← h.pool_size] at hcapacity hstorage
    obtain ⟨slot, q, hissue, -⟩ := h.pool.issue_eq_ok (Pool.shortage?_eq_none.mpr ⟨hcapacity, hstorage⟩)
    have hinsert : (r.insert pid).1 = .ok slot := by
      rw [Roster.insert, hissue]
      exact congrArg Prod.fst (if_pos hindex)
    simp [hinsert]

/-! ### Taking a record out -/

/-- What has to be checked when a record leaves the chain. -/
lemma Chain.dropping (h : r.Chain xs) {us vs : List (Handle × ProcessRecord space)}
    {e : Handle × ProcessRecord space} (hxs : xs = us ++ e :: vs) {t : Roster space}
    (hshared : Pool.Shared ProcessRecord.next t.pool (fun _ : Unit => t.head) fun _ => ys)
    (hindex : t.index = r.index.erase e.2.pid) (hys : bare ys = bare us ++ bare vs) :
    t.Chain ys ∧ ∀ q : Nat, t.record? q = if q = e.2.pid then none else r.record? q := by
  subst hxs
  have hnodup := h.nodup
  rw [bare_append, bare_cons, List.map_append, List.map_cons, List.nodup_middle, List.nodup_cons,
    ← List.map_append, ← hys] at hnodup
  have hmem : ∀ e' : Handle × ProcessRecord space,
      e' ∈ bare ys ↔ e' ∈ bare (us ++ e :: vs) ∧ e'.2.pid ≠ e.2.pid := by
    intro e'
    have hold : e' ∈ bare (us ++ e :: vs) ↔ e' = (e.1, e.2.unchained) ∨ e' ∈ bare ys := by
      rw [bare_append, bare_cons, hys]
      simp only [List.mem_append, List.mem_cons]
      tauto
    rw [hold]
    constructor
    · intro he'
      refine ⟨.inr he', fun hpid => hnodup.1 ?_⟩
      rw [ProcessRecord.unchained_pid, ← hpid]
      exact List.mem_map_of_mem he'
    · rintro ⟨rfl | he', hne⟩
      · exact absurd rfl hne
      · exact he'
  have hfind : ∀ (q : Nat) slot p, ((slot, p) ∈ bare ys ∧ p.pid = q) ↔
      if q = e.2.pid then False else (slot, p) ∈ bare (us ++ e :: vs) ∧ p.pid = q := by
    intro q slot p
    rw [hmem]
    split
    · rename_i hq
      exact iff_of_false (fun hp => hp.1.2 (hp.2.trans hq)) id
    · rename_i hq
      constructor
      · rintro ⟨⟨hold, -⟩, hpid⟩
        exact ⟨hold, hpid⟩
      · rintro ⟨hold, hpid⟩
        exact ⟨⟨hold, fun heq => hq (hpid.symm.trans heq)⟩, hpid⟩
  have hchain : t.Chain ys := by
    refine ⟨hshared, ?_, fun q slot => ?_⟩
    · have hsub : ((bare ys).map (·.2.pid)).Sublist ((bare (us ++ e :: vs)).map (·.2.pid)) := by
        rw [hys, bare_append, bare_cons]
        exact ((List.Sublist.refl _).append (List.sublist_cons_self _ _)).map _
      exact h.sorted.sublist hsub
    · simp only [hindex, Std.ExtTreeMap.getElem?_erase, hfind, Nat.compare_eq_eq, eq_comm (a := e.2.pid)]
      split
      · simp
      · exact h.index q slot
  refine ⟨hchain, fun q => Option.ext fun p => ?_⟩
  simp only [hchain.record?_eq_some, hfind]
  split
  · simp
  · exact h.record?_eq_some.symm

/-- The record of a live process can be taken out of the chain, and nothing else changes its place. -/
theorem Chain.remove (h : r.Chain xs) {pid : Nat} (hlive : (r.get? pid).isSome) :
    ∃ r' us e vs ys, r.remove pid = (true, r') ∧ r'.Chain ys ∧ xs = us ++ e :: vs ∧ e.2.pid = pid ∧
      bare ys = bare us ++ bare vs ∧
      (∀ q : Nat, r'.record? q = if q = pid then none else r.record? q) ∧
      r.pool.SameSetup r'.pool ∧
      r' = { r with
        pool := r'.pool
        index := r'.index
        head := r'.head
        running := if r.running = some pid then none else r.running } := by
  rw [← h.contains_eq, contains, Std.ExtTreeMap.contains_eq_isSome_getElem?,
    Option.isSome_iff_exists] at hlive
  obtain ⟨slot, hslot⟩ := hlive
  obtain ⟨p, hp, hget, hpid⟩ := h.get?_of_index hslot
  obtain ⟨us, vs, hxs⟩ := List.append_of_mem hp
  have hval : r.pool.get? slot = some p := h.path.get? hp
  have hlive : r.pool.contains slot = true := Pool.contains_of_get? hval
  have htake : (r.pool.trail ProcessRecord.next r.head).takeWhile (· != slot) = us.map (·.1) := by
    have hnodup := h.path.nodup
    rw [hxs, List.map_append, List.map_cons, List.nodup_middle, List.nodup_cons] at hnodup
    rw [h.path.trail, hxs, List.map_append, List.map_cons, List.takeWhile_append_of_pos]
    · simp
    · intro id hid
      rw [bne_iff_ne]
      rintro rfl
      exact hnodup.1 (List.mem_append_left _ hid)
  rcases List.eq_nil_or_concat' us with hnil | ⟨us', last, hlast⟩
  · have hrelease := h.shared.wellFormed.release_of_contains hlive
    obtain ⟨r', hr'⟩ : ∃ r', r' = { r with
      pool := (r.pool.release slot).2
      index := r.index.erase pid
      head := p.next
      running := if r.running = some pid then none else r.running } := ⟨_, rfl⟩
    have hremove : r.remove pid = (true, r') := by
      rw [hr', ← hrelease.1]
      simp [Roster.remove, hslot, htake, hnil, hval, attach]
    have hshared := h.shared.dropHead (i := ()) (by rw [hxs, hnil]; rfl) hrelease.2
    rw [update_unit, update_unit] at hshared
    have hys : bare vs = bare us ++ bare vs := by
      rw [hnil]
      rfl
    obtain ⟨hchain, hrecord⟩ := h.dropping hxs (t := r') (by rw [hr']; exact hshared)
      (by rw [hr', hpid]) hys
    rw [hpid] at hrecord
    refine ⟨r', us, _, vs, _, hremove, hchain, hxs, hpid, hys, hrecord, ?_, by rw [hr']⟩
    rw [hr']
    exact hrelease.2.setup
  · have hlive' : (r.pool.modify last.1 ({ · with next := p.next })).contains slot = true := by
      simpa using hlive
    have hrelease := (h.shared.wellFormed.modify last.1 _).release_of_contains hlive'
    have hcontains : r.pool.contains last.1 = true :=
      h.path.contains (List.mem_map_of_mem (by simp [hxs, hlast]))
    obtain ⟨r', hr'⟩ : ∃ r', r' = { r with
      pool := ((r.pool.modify last.1 ({ · with next := p.next })).release slot).2
      index := r.index.erase pid
      running := if r.running = some pid then none else r.running } := ⟨_, rfl⟩
    have hremove : r.remove pid = (true, r') := by
      rw [hr', ← hrelease.1]
      simp [Roster.remove, hslot, htake, hlast, hval, attach, hcontains, Option.filter]
    have hsplit : xs = us' ++ last :: (slot, p) :: vs := by simp [hxs, hlast]
    have hshared := h.shared.dropBehind (i := ()) hsplit (f := ({ · with next := p.next }))
      (fun _ => rfl) hrelease.2
    rw [update_unit] at hshared
    have hys : bare (us' ++ (last.1, { last.2 with next := p.next }) :: vs) = bare us ++ bare vs := by
      simp [hlast, bare, ProcessRecord.unchained]
    obtain ⟨hchain, hrecord⟩ := h.dropping hxs (t := r') (by rw [hr']; exact hshared)
      (by rw [hr', hpid]) hys
    rw [hpid] at hrecord
    refine ⟨r', us, _, vs, _, hremove, hchain, hxs, hpid, hys, hrecord, ?_, by rw [hr']⟩
    rw [hr']
    dsimp only
    exact (Pool.sameSetup_modify _ _ _).trans hrelease.2.setup

theorem WellFormed.remove (h : r.WellFormed) {pid : Nat} (hlive : (r.get? pid).isSome) :
    ∃ r', r.remove pid = (true, r') ∧ r'.WellFormed ∧
      (∀ q : Nat, r'.record? q = if q = pid then none else r.record? q) ∧
      r.pool.SameSetup r'.pool ∧
      r' = { r with
        pool := r'.pool
        index := r'.index
        head := r'.head
        running := if r.running = some pid then none else r.running } := by
  obtain ⟨xs, h⟩ := h
  obtain ⟨r', us, e, vs, ys, hremove, hchain, -, -, -, hrecord, hsetup, hrest⟩ := h.remove hlive
  exact ⟨r', hremove, ⟨ys, hchain⟩, hrecord, hsetup, hrest⟩

end Roster

end Uniprocessor
