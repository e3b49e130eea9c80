import Mathlib.Data.List.Nodup
import Mathlib.Data.Multiset.Basic
import Uniprocessor.Proofs.Forests

/-!
# The spaces that processes hold

The address spaces of a view, one for each process that has one. They are determined by who holds
what, so a change that moves one space changes them by that space.
-/

namespace Uniprocessor

namespace View

variable {μ space : Type} {v w : View μ space}

/-- The space of a process. -/
def spaceOf (v : View μ space) (pid : Pid) : Option space := v.table[pid]?.bind (·.space)

/-- The processes that hold a space, each with its space. -/
def holders (v : View μ space) : List (Pid × space) :=
  v.table.toList.filterMap fun entry => entry.2.space.map (entry.1, ·)

/-- The spaces held, each as often as it is held. -/
def spaces (v : View μ space) : Multiset space := (v.holders.map Prod.snd : List space)

lemma mem_holders {pid : Nat} {handle : space} :
    (pid, handle) ∈ v.holders ↔ v.spaceOf pid = some handle := by
  rw [holders, List.mem_filterMap, spaceOf]
  constructor
  · rintro ⟨⟨q, p⟩, hmem, heq⟩
    obtain ⟨held, hheld, heq⟩ := Option.map_eq_some_iff.mp heq
    cases heq
    rw [Std.ExtTreeMap.mem_toList_iff_getElem?_eq_some] at hmem
    rw [hmem]
    exact hheld
  · intro heq
    obtain ⟨p, hp, hheld⟩ := Option.bind_eq_some_iff.mp heq
    exact ⟨(pid, p), Std.ExtTreeMap.mem_toList_iff_getElem?_eq_some.mpr hp, by simp [hheld]⟩

lemma nodup_holders (v : View μ space) : v.holders.Nodup := by
  apply List.Nodup.of_map Prod.fst
  have hkeys : (v.table.toList.map Prod.fst).Nodup := by
    rw [Std.ExtTreeMap.map_fst_toList_eq_keys]
    exact v.keys_nodup
  refine hkeys.sublist ?_
  rw [holders]
  generalize v.table.toList = entries
  induction entries with
  | nil => exact List.Sublist.slnil
  | cons entry entries ih =>
    rw [List.filterMap_cons]
    split
    · exact ih.cons _
    · rename_i e heq
      obtain ⟨held, -, rfl⟩ := Option.map_eq_some_iff.mp heq
      exact ih.cons_cons _

lemma perm_holders {xs : List (Pid × space)} (hnodup : xs.Nodup)
    (hmem : ∀ (pid : Nat) (handle : space), (pid, handle) ∈ xs ↔ v.spaceOf pid = some handle) :
    v.holders.Perm xs :=
  (List.perm_ext_iff_of_nodup v.nodup_holders hnodup).mpr fun ⟨pid, handle⟩ =>
    mem_holders.trans (hmem pid handle).symm

/-- Who holds what determines the spaces held. -/
lemma spaces_congr (h : ∀ pid : Nat, w.spaceOf pid = v.spaceOf pid) : w.spaces = v.spaces := by
  refine Multiset.coe_eq_coe.mpr (List.Perm.map _ ?_)
  exact perm_holders v.nodup_holders fun pid handle => by rw [mem_holders, h]

/-- A process that holds a space holds one more than the others together. -/
theorem spaces_eq_cons {pid : Nat} {handle : space} (hpid : v.spaceOf pid = some handle)
    (hnone : w.spaceOf pid = none) (hothers : ∀ q : Nat, q ≠ pid → w.spaceOf q = v.spaceOf q) :
    v.spaces = handle ::ₘ w.spaces := by
  rw [spaces, spaces, Multiset.cons_coe, Multiset.coe_eq_coe, ← List.map_cons (f := Prod.snd)
    (a := (pid, handle))]
  refine List.Perm.map _ (perm_holders ?_ fun q held => ?_)
  · refine List.nodup_cons.mpr ⟨fun hmem => ?_, w.nodup_holders⟩
    rw [mem_holders, hnone] at hmem
    cases hmem
  · rw [List.mem_cons, mem_holders]
    by_cases hq : q = pid
    · simp [hq, hnone, hpid, eq_comm]
    · simp [hq, hothers q hq]

lemma mem_spaces {pid : Nat} {handle : space} (h : v.spaceOf pid = some handle) :
    handle ∈ v.spaces :=
  Multiset.mem_coe.mpr (List.mem_map.mpr ⟨_, mem_holders.mpr h, rfl⟩)

/-! ### Who holds what in changed views -/

lemma spaceOf_eq {pid : Nat} {p : ProcessView space} (hp : v.table[pid]? = some p) :
    v.spaceOf pid = p.space := by
  simp [spaceOf, hp]

lemma spaceOf_of_not_live {pid : Nat} (hp : v.table[pid]? = none) : v.spaceOf pid = none := by
  simp [spaceOf, hp]

lemma spaceOf_update (v : View μ space) (pid q : Nat)
    {f : ProcessView space → ProcessView space} (hf : ∀ p, (f p).space = p.space) :
    (v.update pid f).spaceOf q = v.spaceOf q := by
  rw [spaceOf, spaceOf, get?_update]
  split
  · rename_i hq
    subst hq
    cases v.table[q]? <;> simp [hf]
  · rfl

lemma spaceOf_update_ne (v : View μ space) {pid q : Nat} (hq : q ≠ pid)
    (f : ProcessView space → ProcessView space) : (v.update pid f).spaceOf q = v.spaceOf q := by
  rw [spaceOf, get?_update, if_neg hq]
  rfl

lemma get?_update_self {pid : Nat} {p : ProcessView space} (hp : v.table[pid]? = some p)
    (f : ProcessView space → ProcessView space) : (v.update pid f).table[pid]? = some (f p) := by
  rw [get?_update, if_pos rfl, hp]
  rfl

lemma spaceOf_update_self {pid : Nat} {p : ProcessView space} (hp : v.table[pid]? = some p)
    (f : ProcessView space → ProcessView space) : (v.update pid f).spaceOf pid = (f p).space :=
  spaceOf_eq (get?_update_self hp f)

lemma spaceOf_enroll {pid : Nat} (hnew : v.table[pid]? = none) (entry : UInt64) (q : Nat) :
    (v.enroll pid entry).spaceOf q = v.spaceOf q := by
  rw [spaceOf, get?_enroll]
  split
  · rename_i hq
    rw [hq, spaceOf_of_not_live hnew]
    rfl
  · rfl

lemma spaceOf_adopt (v : View μ space) (parent child q : Nat) :
    (v.adopt parent child).spaceOf q = v.spaceOf q := by
  rw [adopt, spaceOf_update _ child q (by intro _; rfl), spaceOf_update _ parent q (by intro _; rfl)]

lemma spaceOf_remove (v : View μ space) (pid q : Nat) :
    (v.remove pid).spaceOf q = if q = pid then none else v.spaceOf q := by
  rw [spaceOf, get?_remove]
  split
  · rfl
  · rw [spaceOf]
    cases v.table[q]? <;> rfl

end View

end Uniprocessor
