import Mathlib.Order.Bounds.Basic
import Std.Data.ExtTreeMap.Lemmas
import Uniprocessor.Proofs.Pools

/-!
# Histories of a pool

Whatever is issued, taken back and written in a history, a pool behaves as a bounded map from the
indices of slots to records: a record comes under the least index without one, fresh whatever the slot
held before, and goes by its own handle alone.
-/

namespace Uniprocessor

/-- The live records of a pool, each under the index of its slot and with the generation of its
handle. -/
abbrev LiveRecords (α : Type) := Std.ExtTreeMap Nat (UInt32 × α)

namespace LiveRecords

variable {α : Type}

/-- The record of a live handle. -/
def recordOf (m : LiveRecords α) (id : Handle) : Option α :=
  m[id.index]?.bind fun entry => if entry.1 = id.generation then some entry.2 else none

/-- Changes the record of a live handle. -/
def write (m : LiveRecords α) (id : Handle) (f : α → α) : LiveRecords α :=
  match m.recordOf id with
  | some a => m.insert id.index (id.generation, f a)
  | none => m

/-- The live handles with their records, in the order of the indices. -/
def entries (m : LiveRecords α) : List (Handle × α) :=
  m.toList.map fun entry => (⟨entry.1, entry.2.1⟩, entry.2.2)

lemma recordOf_eq_some {m : LiveRecords α} {id : Handle} {a : α} :
    m.recordOf id = some a ↔ m[id.index]? = some (id.generation, a) := by
  rw [recordOf, Option.bind_eq_some_iff]
  constructor
  · rintro ⟨⟨generation, b⟩, hentry, hsome⟩
    split at hsome
    · rename_i hgen
      cases hsome
      rw [hentry, ← hgen]
    · cases hsome
  · intro hentry
    exact ⟨_, hentry, if_pos rfl⟩

lemma recordOf_empty (id : Handle) : recordOf (∅ : LiveRecords α) id = none := by
  rw [recordOf, Std.ExtTreeMap.getElem?_empty, Option.bind_none]

lemma recordOf_insert (m : LiveRecords α) (id j : Handle) (a : α) :
    recordOf (m.insert id.index (id.generation, a)) j =
      if j.index = id.index then if j = id then some a else none else m.recordOf j := by
  rw [recordOf, Std.ExtTreeMap.getElem?_insert]
  simp only [Nat.compare_eq_eq, eq_comm (a := id.index)]
  by_cases hindex : j.index = id.index
  · have hgen : id.generation = j.generation ↔ j = id := by
      constructor
      · intro hgen
        cases id
        cases j
        simp_all
      · rintro rfl
        rfl
    rw [if_pos hindex, if_pos hindex, Option.bind_some]
    simp only [hgen]
  · rw [if_neg hindex, if_neg hindex]
    rfl

lemma recordOf_erase (m : LiveRecords α) (id j : Handle) :
    recordOf (m.erase id.index) j = if j.index = id.index then none else m.recordOf j := by
  rw [recordOf, Std.ExtTreeMap.getElem?_erase]
  simp only [Nat.compare_eq_eq, eq_comm (a := id.index)]
  by_cases hindex : j.index = id.index
  · rw [if_pos hindex, if_pos hindex, Option.bind_none]
  · rw [if_neg hindex, if_neg hindex]
    rfl

/-- One slot has one handle. -/
lemma recordOf_eq_none_of_index {m : LiveRecords α} {id j : Handle} {a : α} (h : m.recordOf id = some a)
    (hindex : j.index = id.index) (hne : j ≠ id) : m.recordOf j = none := by
  rw [recordOf_eq_some] at h
  rw [recordOf, hindex, h, Option.bind_some, if_neg]
  intro hgen
  apply hne
  cases id
  cases j
  simp_all

lemma recordOf_write (m : LiveRecords α) (id j : Handle) (f : α → α) :
    recordOf (m.write id f) j = if j = id then (m.recordOf id).map f else m.recordOf j := by
  rw [write]
  cases hid : m.recordOf id with
  | none =>
    by_cases hj : j = id
    · rw [if_pos hj, hj, hid, Option.map_none]
    · rw [if_neg hj]
  | some a =>
    dsimp only
    rw [recordOf_insert]
    by_cases hj : j = id
    · rw [if_pos (congrArg Handle.index hj), if_pos hj, if_pos hj, Option.map_some]
    · rw [if_neg hj, if_neg hj]
      split
      · rename_i hindex
        exact (recordOf_eq_none_of_index hid hindex hj).symm
      · rfl

lemma mem_entries {m : LiveRecords α} {id : Handle} {a : α} :
    (id, a) ∈ m.entries ↔ m.recordOf id = some a := by
  rw [recordOf_eq_some, entries, List.mem_map]
  constructor
  · rintro ⟨⟨index, generation, b⟩, hmem, heq⟩
    cases heq
    exact Std.ExtTreeMap.mem_toList_iff_getElem?_eq_some.mp hmem
  · intro hentry
    exact ⟨_, Std.ExtTreeMap.mem_toList_iff_getElem?_eq_some.mpr hentry, rfl⟩

end LiveRecords

namespace Pool

variable {α : Type}

section Histories

variable (name : String) (capacity : Nat) (blank : α) (onIssue onRelease : α → α)

/-- The states that a pool comes to by any sequence of calls, with arbitrary handles and whatever room
the heap has meanwhile, each with the records that were issued and not taken back since, as they were
written last. -/
inductive Reached : LiveRecords α → Pool α → Prop
  | start :
      Reached ∅ (((ofCapacity name capacity blank).withIssueHook onIssue).withReleaseHook onRelease)
  | issue {m p id q} : Reached m p → p.issue = .ok (id, q) →
      Reached (m.insert id.index (id.generation, onIssue blank)) q
  | release {m p} (id : Handle) : Reached m p →
      Reached (if (p.release id).1 then m.erase id.index else m) (p.release id).2
  | modify {m p} (id : Handle) (f : α → α) : Reached m p → Reached (m.write id f) (p.modify id f)
  | heap {m p} (slots : Nat) : Reached m p → Reached m (p.withStorage slots)

end Histories

/-- `p` has the live records `m`, issues `fresh` records and at most `bound` of them at a time. -/
structure ActsAs (bound : Nat) (fresh : α) (onRelease : α → α) (m : LiveRecords α) (p : Pool α) :
    Prop where
  get? : ∀ id, p.get? id = m.recordOf id
  contains : ∀ id, p.contains id = (m.recordOf id).isSome
  /-- What is written stands under the handle that it is written by, and nowhere else. -/
  modify : ∀ id f j, (p.modify id f).get? j = if j = id then (m.recordOf id).map f else m.recordOf j
  unwritten : ∀ id f, m.recordOf id = none → p.modify id f = p
  exhausted : p.issue = .error .exhausted ↔ m.size = bound
  /-- Below the bound, a record is refused only if the heap has no room for another slot. -/
  storageFailed : p.issue = .error .storageFailed ↔ m.size ≠ bound ∧ p.storage ≤ m.size
  /-- Issuing takes the least index that is left, and no other handle resolves in another way. -/
  issue : m.size ≠ bound → m.size < p.storage → ∃ id q, p.issue = .ok (id, q) ∧
    IsLeast {i : Nat | m[i]? = none} id.index ∧ id.index < bound ∧ q.get? id = some fresh ∧
    ∀ j ≠ id, q.get? j = m.recordOf j
  release : ∀ id, (p.release id).1 = (m.recordOf id).isSome
  refused : ∀ id, m.recordOf id = none → (p.release id).2 = p
  /-- Taking back changes no other handle, and passes the record through the hook once. -/
  released : ∀ id a, m.recordOf id = some a →
    (∀ j, (p.release id).2.get? j = if j = id then none else m.recordOf j) ∧
    (p.release id).2.slots[id.index]?.map (·.value) = some (onRelease a)
  size : p.size = m.size
  toList : p.toList = m.entries
  capacity : p.capacity = bound

variable {name : String} {capacity : Nat} {blank : α} {onIssue onRelease : α → α} {p q : Pool α}
  {id : Handle} {m : LiveRecords α}

/-- The invariant of a history: the handles that resolve are the live ones. -/
structure Holds (capacity : Nat) (blank : α) (onIssue onRelease : α → α) (m : LiveRecords α)
    (p : Pool α) : Prop where
  wellFormed : p.WellFormed
  capacity_eq : p.capacity = min capacity (2 ^ 32 - 1)
  fresh_eq : p.fresh = onIssue blank
  onRelease_eq : p.onRelease = onRelease
  get? : ∀ id, p.get? id = m.recordOf id

/-- A slot that is not listed as vacant has a live record. -/
lemma WellFormed.exists_get? (hp : p.WellFormed) {i : Nat} (hi : i < p.slots.size)
    (hin : p.vacant.contains i = false) : ∃ g a, p.get? ⟨i, g⟩ = some a := by
  have hslot : p.slots[i]? = some p.slots[i] := Array.getElem?_eq_getElem hi
  have huse : p.slots[i].inUse = true := by
    by_contra hfree
    rw [(hp.vacant i).mpr ⟨_, hslot, by simpa using hfree⟩] at hin
    cases hin
  exact ⟨_, _, get?_eq_some.mpr ⟨_, hslot, huse, rfl, rfl⟩⟩

/-- The slot of a record that is issued has none, and all before it have one. -/
lemma WellFormed.least_of_issue (hp : p.WellFormed) (hrun : p.issue = .ok (id, q)) :
    id.index < p.capacity ∧ (∀ g, p.get? ⟨id.index, g⟩ = none) ∧
      ∀ i < id.index, ∃ g a, p.get? ⟨i, g⟩ = some a := by
  rw [issue] at hrun
  cases hlow : p.vacant.lowest? with
  | some i =>
    rw [hlow] at hrun
    cases hrun
    obtain ⟨hmem, hbefore⟩ := Bitmap.lowest?_eq_some hlow
    obtain ⟨slot, hslot, hfree⟩ := (hp.vacant i).mp hmem
    have hlt : i < p.slots.size := (Array.getElem?_eq_some_iff.mp hslot).1
    refine ⟨Nat.lt_of_lt_of_le hlt hp.slots_le, fun g => ?_, fun k hk => ?_⟩
    · simp [Pool.get?, hslot, hfree]
    · exact hp.exists_get? (Nat.lt_trans hk hlt) (hbefore k hk)
  | none =>
    rw [hlow] at hrun
    dsimp only at hrun
    split_ifs at hrun with hlt hstorage
    · cases hrun
      -- no slot is vacant, so all of them come before the new one and are in use
      refine ⟨hlt, fun g => ?_, fun k hk => hp.exists_get? hk (Bitmap.lowest?_eq_none hlow k)⟩
      simp [Pool.get?]

/-- The slot of a record that is taken back keeps what the hook makes of it. -/
lemma value_release {a : α} (h : p.get? id = some a) :
    (p.release id).2.slots[id.index]?.map (·.value) = some (p.onRelease a) := by
  obtain ⟨slot, hslot, -, -, rfl⟩ := get?_eq_some.mp h
  simp [Pool.release, contains_of_get? h, Array.getElem?_modify, hslot]

section

variable (h : Holds capacity blank onIssue onRelease m p)

include h

/-- What no call changes stays as it is. -/
lemma Holds.of_setup (hq : q.WellFormed) (hsetup : p.SameSetup q) {m' : LiveRecords α}
    (hget : ∀ id, q.get? id = m'.recordOf id) : Holds capacity blank onIssue onRelease m' q where
  wellFormed := hq
  capacity_eq := hsetup.capacity.trans h.capacity_eq
  fresh_eq := hsetup.fresh.trans h.fresh_eq
  onRelease_eq := by
    rw [hsetup]
    exact h.onRelease_eq
  get? := hget

lemma Holds.contains_eq (id : Handle) : p.contains id = (m.recordOf id).isSome := by
  rw [Pool.contains, h.get?]

lemma Holds.not_contains (hid : m.recordOf id = none) : p.contains id = false := by
  rw [h.contains_eq, hid]
  rfl

lemma Holds.issue (hrun : p.issue = .ok (id, q)) :
    Holds capacity blank onIssue onRelease (m.insert id.index (id.generation, onIssue blank)) q := by
  have hissues := h.wellFormed.issues_of_issue hrun
  obtain ⟨-, hvacant, -⟩ := h.wellFormed.least_of_issue hrun
  refine h.of_setup hissues.wellFormed hissues.setup fun j => ?_
  rw [hissues.get?, LiveRecords.recordOf_insert, h.fresh_eq, h.get?]
  by_cases hindex : j.index = id.index
  · have hnone : m.recordOf j = none := by
      rw [← h.get?, ← hvacant j.generation, ← hindex]
    rw [if_pos hindex, hnone]
  · have hj : j ≠ id := fun heq => hindex (congrArg Handle.index heq)
    rw [if_neg hindex, if_neg hj]

lemma Holds.release (id : Handle) : Holds capacity blank onIssue onRelease
    (if (p.release id).1 then m.erase id.index else m) (p.release id).2 := by
  cases hid : m.recordOf id with
  | none =>
    rw [release_of_not_contains (h.not_contains hid)]
    exact h
  | some a =>
    have hlive : p.contains id = true := by
      rw [h.contains_eq, hid]
      rfl
    obtain ⟨hresult, hreleases⟩ := h.wellFormed.release_of_contains hlive
    rw [hresult, if_pos rfl]
    refine h.of_setup hreleases.wellFormed hreleases.setup fun j => ?_
    rw [hreleases.get?, LiveRecords.recordOf_erase, h.get?]
    by_cases hj : j = id
    · rw [if_pos hj, if_pos (congrArg Handle.index hj)]
    · rw [if_neg hj]
      -- while `id` was live, no other handle to its slot was
      split
      · rename_i hindex
        exact LiveRecords.recordOf_eq_none_of_index hid hindex hj
      · rfl

lemma Holds.modify (id : Handle) (f : α → α) :
    Holds capacity blank onIssue onRelease (m.write id f) (p.modify id f) := by
  refine h.of_setup (h.wellFormed.modify id f) (sameSetup_modify p id f) fun j => ?_
  rw [get?_modify, LiveRecords.recordOf_write, h.get?, h.get?]

lemma Holds.withStorage (slots : Nat) :
    Holds capacity blank onIssue onRelease m (p.withStorage slots) :=
  ⟨h.wellFormed.withStorage slots, h.capacity_eq, h.fresh_eq, h.onRelease_eq, h.get?⟩

lemma Holds.toList_eq : p.toList = m.entries := by
  have hsorted : p.toList.Pairwise fun x y => x.1.index < y.1.index := by
    have hindices := p.indices_sorted
    rwa [handles, List.pairwise_map, List.pairwise_map] at hindices
  have hordered : m.entries.Pairwise fun x y => x.1.index < y.1.index := by
    rw [LiveRecords.entries, List.pairwise_map]
    exact m.ordered_keys_toList.imp fun hlt => Nat.compare_eq_lt.mp hlt
  have hne : ∀ x y : Handle × α, x.1.index < y.1.index → x ≠ y := by
    rintro x _ hlt rfl
    exact Nat.lt_irrefl x.1.index hlt
  apply List.Perm.eq_of_pairwise (fun _ _ _ _ hlt hgt => absurd hlt (Nat.lt_asymm hgt)) hsorted hordered
  refine (List.perm_ext_iff_of_nodup (hsorted.imp (hne _ _)) (hordered.imp (hne _ _))).mpr fun x => ?_
  obtain ⟨id, a⟩ := x
  rw [mem_toList, LiveRecords.mem_entries, h.get?]

lemma Holds.size_eq : p.size = m.size := by
  rw [← h.wellFormed.length_handles, handles, h.toList_eq, LiveRecords.entries, List.length_map,
    List.length_map, Std.ExtTreeMap.length_toList]

end

lemma holds_start (name : String) (capacity : Nat) (blank : α) (onIssue onRelease : α → α) :
    Holds capacity blank onIssue onRelease ∅
      (((ofCapacity name capacity blank).withIssueHook onIssue).withReleaseHook onRelease) where
  wellFormed := ((wellFormed_ofCapacity name capacity blank).withIssueHook onIssue).withReleaseHook onRelease
  capacity_eq := rfl
  fresh_eq := rfl
  onRelease_eq := rfl
  get? id := by
    rw [LiveRecords.recordOf_empty]
    exact get?_ofCapacity name capacity blank id

lemma Reached.holds (h : Reached name capacity blank onIssue onRelease m p) :
    Holds capacity blank onIssue onRelease m p := by
  induction h with
  | start => exact holds_start name capacity blank onIssue onRelease
  | issue _ hrun ih => exact ih.issue hrun
  | release id _ ih => exact ih.release id
  | modify id f _ ih => exact ih.modify id f
  | heap slots _ ih => exact ih.withStorage slots

/-- A record that is issued comes under the least index that is left. -/
lemma Holds.isLeast_of_issue (h : Holds capacity blank onIssue onRelease m p)
    (hrun : p.issue = .ok (id, q)) : IsLeast {i : Nat | m[i]? = none} id.index := by
  obtain ⟨-, hvacant, hbefore⟩ := h.wellFormed.least_of_issue hrun
  constructor
  · rw [Set.mem_ofPred_eq, Option.eq_none_iff_forall_not_mem]
    rintro ⟨g, a⟩ hentry
    have hsome : m.recordOf ⟨id.index, g⟩ = some a := LiveRecords.recordOf_eq_some.mpr hentry
    rw [← h.get?, hvacant g] at hsome
    cases hsome
  · intro i hi
    by_contra hless
    obtain ⟨g, a, hsome⟩ := hbefore i (Nat.not_le.mp hless)
    rw [h.get?, LiveRecords.recordOf_eq_some] at hsome
    cases hsome.symm.trans hi

theorem Holds.actsAs (h : Holds capacity blank onIssue onRelease m p) :
    ActsAs (min capacity (2 ^ 32 - 1)) (onIssue blank) onRelease m p where
  get? := h.get?
  contains := h.contains_eq
  modify id f j := by rw [get?_modify, h.get?, h.get?]
  unwritten _ f hid := modify_of_not_contains (h.not_contains hid) f
  exhausted := by rw [h.wellFormed.issue_eq_exhausted_iff, h.size_eq, h.capacity_eq]
  storageFailed := by rw [h.wellFormed.issue_eq_storageFailed_iff, h.size_eq, h.capacity_eq]
  issue hroom hstorage := by
    rw [← h.capacity_eq, ← h.size_eq] at hroom
    rw [← h.size_eq] at hstorage
    have hshort := h.wellFormed.shortage?_eq_none hroom hstorage
    obtain ⟨id, q, hrun, hissues⟩ := h.wellFormed.issue_eq_ok hshort
    refine ⟨id, q, hrun, h.isLeast_of_issue hrun, ?_, ?_, fun j hj => ?_⟩
    · rw [← h.capacity_eq]
      exact (h.wellFormed.least_of_issue hrun).1
    · rw [hissues.get?, if_pos rfl, h.fresh_eq]
    · rw [hissues.get?, if_neg hj, h.get?]
  release id := by rw [fst_release, h.contains_eq]
  refused id hid := by rw [release_of_not_contains (h.not_contains hid)]
  released id a hid := by
    rw [← h.get?] at hid
    obtain ⟨-, hreleases⟩ := h.wellFormed.release_of_contains (contains_of_get? hid)
    refine ⟨fun j => by rw [hreleases.get?, h.get?], ?_⟩
    rw [value_release hid, h.onRelease_eq]
  size := h.size_eq
  toList := h.toList_eq
  capacity := h.capacity_eq

/-- A pool is the map of the records that it has issued and not got back: in every history it does what
that map calls for. -/
theorem Reached.acts_as_map (h : Reached name capacity blank onIssue onRelease m p) :
    ActsAs (min capacity (2 ^ 32 - 1)) (onIssue blank) onRelease m p :=
  h.holds.actsAs

/-- The slot of a record that was taken back is issued once more, with nothing left in it of what was
written before. -/
theorem acts_as_map_of_reissue : ∃ m p, Reached "records" 2 5 (· + 1) (· * 10) m p ∧
    ActsAs 2 6 (· * 10) m p ∧ p.issue = .error .exhausted ∧ m.entries = [(⟨0, 1⟩, 6), (⟨1, 0⟩, 6)] := by
  have hbegun : Reached "records" 2 5 (· + 1) (· * 10) ∅ _ := .start
  have hfull := (hbegun.issue rfl).issue rfl
  have hwritten := hfull.modify ⟨0, 0⟩ (· + 100)
  have hreissued := (hwritten.release ⟨0, 0⟩).issue rfl
  have hactsAs := hreissued.acts_as_map
  exact ⟨_, _, hreissued, hactsAs, hactsAs.exhausted.mpr (by decide +kernel), by decide +kernel⟩

end Pool

end Uniprocessor
