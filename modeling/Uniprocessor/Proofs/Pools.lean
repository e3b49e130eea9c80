import Uniprocessor.Pool
import Uniprocessor.Proofs.Bitmaps

/-!
# Well-formed pools

A pool is well formed when its bitmap lists exactly the slots not in use, its counter counts
the ones in use, and the slots exceed neither the capacity nor the storage. A new pool is, and every
operation keeps it so. Each operation is described by what the handles resolve to afterwards.

Since there is storage for every slot that exists, what a pool can be short of depends on three
numbers only: its capacity, its storage and how many records are in use.
-/

namespace Uniprocessor

namespace Pool

variable {α : Type}

/-- The bitmap, the counter, the capacity and the storage agree with the slots. -/
structure WellFormed (p : Pool α) : Prop where
  capacity_le : p.capacity ≤ capacityBound
  slots_le : p.slots.size ≤ p.capacity
  stored : p.slots.size ≤ p.storage
  words : p.slots.size ≤ 64 * p.vacant.words.size
  vacant : ∀ i, p.vacant.contains i = true ↔ ∃ slot, p.slots[i]? = some slot ∧ slot.inUse = false
  size : p.size = p.slots.toList.countP (·.inUse)

lemma get?_eq_some {p : Pool α} {id : Handle} {a : α} :
    p.get? id = some a ↔ ∃ slot, p.slots[id.index]? = some slot ∧ slot.inUse = true ∧
      slot.generation = id.generation ∧ slot.value = a := by
  unfold get?
  cases p.slots[id.index]? with
  | none => simp
  | some slot =>
    by_cases h : slot.inUse = true ∧ slot.generation = id.generation
    · simp [h]
    · simp only [h, if_false, Option.some.injEq, exists_eq_left']
      constructor
      · intro hn
        simp at hn
      · rintro ⟨hu, hg, -⟩
        exact absurd ⟨hu, hg⟩ h

lemma contains_iff {p : Pool α} {id : Handle} : p.contains id = true ↔ ∃ a, p.get? id = some a := by
  rw [contains, Option.isSome_iff_exists]

lemma contains_of_get? {p : Pool α} {id : Handle} {a : α} (h : p.get? id = some a) :
    p.contains id = true := contains_iff.mpr ⟨a, h⟩

/-- Of the handles to one slot at most one resolves. -/
lemma eq_of_index_eq {p : Pool α} {i j : Handle} (hi : p.contains i = true)
    (hj : p.contains j = true) (h : i.index = j.index) : i = j := by
  obtain ⟨a, ha⟩ := contains_iff.mp hi
  obtain ⟨b, hb⟩ := contains_iff.mp hj
  obtain ⟨slot, hslot, -, hgen, -⟩ := get?_eq_some.mp ha
  obtain ⟨slot', hslot', -, hgen', -⟩ := get?_eq_some.mp hb
  rw [← h, hslot] at hslot'
  cases hslot'
  cases i
  cases j
  simp_all

lemma index_lt {p : Pool α} {id : Handle} (h : p.contains id = true) : id.index < p.slots.size := by
  obtain ⟨a, ha⟩ := contains_iff.mp h
  obtain ⟨slot, hslot, -⟩ := get?_eq_some.mp ha
  exact (Array.getElem?_eq_some_iff.mp hslot).1

/-! ### Changing a record -/

lemma get?_modify (p : Pool α) (id j : Handle) (f : α → α) :
    (p.modify id f).get? j = if j = id then (p.get? id).map f else p.get? j := by
  unfold modify
  by_cases hid : p.contains id = true
  · rw [if_pos hid]
    obtain ⟨a, ha⟩ := contains_iff.mp hid
    obtain ⟨slot, hslot, huse, hgen, hval⟩ := get?_eq_some.mp ha
    by_cases hindex : id.index = j.index
    · by_cases hj : j = id
      · simp [get?, hj, Array.getElem?_modify, hslot, huse, hgen]
      · have hne : slot.generation ≠ j.generation := by
          intro h
          apply hj
          cases id
          cases j
          simp_all
        simp [get?, hj, Array.getElem?_modify, ← hindex, hslot, hne]
    · have hj : j ≠ id := fun h => hindex (h ▸ rfl)
      simp [get?, hj, Array.getElem?_modify, hindex]
  · rw [if_neg hid]
    split
    · rename_i hj
      have hnone : p.get? id = none := by simpa [contains] using hid
      rw [hj, hnone, Option.map_none]
    · rfl

@[simp]
lemma contains_modify (p : Pool α) (id j : Handle) (f : α → α) :
    (p.modify id f).contains j = p.contains j := by
  rw [contains, contains, get?_modify]
  split
  · rename_i hj
    simp [hj]
  · rfl

lemma modify_of_not_contains {p : Pool α} {id : Handle} (h : p.contains id = false) (f : α → α) :
    p.modify id f = p := by
  rw [modify, h]
  rfl

/-- The parts of a pool that no operation changes. -/
def SameSetup (p q : Pool α) : Prop :=
  q = { p with slots := q.slots, vacant := q.vacant, size := q.size }

lemma SameSetup.refl (p : Pool α) : p.SameSetup p := rfl

lemma SameSetup.trans {p q r : Pool α} (h₁ : p.SameSetup q) (h₂ : q.SameSetup r) :
    p.SameSetup r := by
  unfold SameSetup at *
  rw [h₂, h₁]

lemma SameSetup.capacity {p q : Pool α} (h : p.SameSetup q) : q.capacity = p.capacity := by
  rw [h]

lemma SameSetup.storage {p q : Pool α} (h : p.SameSetup q) : q.storage = p.storage := by
  rw [h]

lemma SameSetup.fresh {p q : Pool α} (h : p.SameSetup q) : q.fresh = p.fresh := by
  rw [h]
  rfl

lemma sameSetup_modify (p : Pool α) (id : Handle) (f : α → α) : p.SameSetup (p.modify id f) := by
  unfold modify SameSetup
  split <;> rfl

lemma countP_modify {β : Type} (q : β → Bool) (f : β → β) {l : List β} {i : Nat} {b : β}
    (h : l[i]? = some b) :
    (l.modify i f).countP q + (q b).toNat = l.countP q + (q (f b)).toNat := by
  induction l generalizing i with
  | nil => simp at h
  | cons c l ih =>
    cases i with
    | zero =>
      obtain rfl : c = b := by simpa using h
      rw [List.modify_zero_cons, List.countP_cons, List.countP_cons]
      cases q c <;> cases q (f c) <;> simp
    | succ i =>
      have hrest := ih (i := i) (by simpa using h)
      rw [List.modify_succ_cons, List.countP_cons, List.countP_cons]
      omega

lemma countP_modify_slots (p : Pool α) {i : Nat} {slot : Slot α} (f : Slot α → Slot α)
    (h : p.slots[i]? = some slot) :
    (p.slots.modify i f).toList.countP (·.inUse) + slot.inUse.toNat =
      p.slots.toList.countP (·.inUse) + (f slot).inUse.toNat := by
  rw [Array.toList_modify]
  exact countP_modify (·.inUse) f (by rw [Array.getElem?_toList, h])

theorem WellFormed.modify {p : Pool α} (hp : p.WellFormed) (id : Handle) (f : α → α) :
    (p.modify id f).WellFormed := by
  unfold Pool.modify
  by_cases hid : p.contains id = true
  · rw [if_pos hid]
    obtain ⟨a, ha⟩ := contains_iff.mp hid
    obtain ⟨slot, hslot, -⟩ := get?_eq_some.mp ha
    have hcount := countP_modify_slots p (fun s => { s with value := f s.value }) hslot
    refine ⟨hp.capacity_le, by simpa using hp.slots_le, by simpa using hp.stored,
      by simpa using hp.words, fun i => ?_, ?_⟩
    · rw [hp.vacant i]
      simp only [Array.getElem?_modify]
      by_cases hi : id.index = i
      · subst hi
        simp [hslot]
      · simp [hi]
    · dsimp only at hcount ⊢
      rw [hp.size]
      omega
  · rw [if_neg hid]
    exact hp

/-! ### Issuing a record -/

/-- `p` becomes `q` by issuing a record under the handle `id`. -/
structure Issues (p : Pool α) (id : Handle) (q : Pool α) : Prop where
  wellFormed : q.WellFormed
  vacant : p.get? id = none
  get? : ∀ j, q.get? j = if j = id then some p.fresh else p.get? j
  size : q.size = p.size + 1
  setup : p.SameSetup q

theorem wellFormed_ofCapacity (name : String) (capacity : Nat) (blank : α) :
    (Pool.ofCapacity name capacity blank).WellFormed := by
  refine ⟨min_le_right _ _, Nat.zero_le _, Nat.zero_le _, Nat.zero_le _, fun i => ?_, rfl⟩
  simp [ofCapacity]

@[simp]
lemma get?_ofCapacity (name : String) (capacity : Nat) (blank : α) (id : Handle) :
    (Pool.ofCapacity name capacity blank).get? id = none := by
  simp [get?, ofCapacity]

theorem WellFormed.withIssueHook {p : Pool α} (hp : p.WellFormed) (hook : α → α) :
    (p.withIssueHook hook).WellFormed :=
  ⟨hp.capacity_le, hp.slots_le, hp.stored, hp.words, hp.vacant, hp.size⟩

theorem WellFormed.withReleaseHook {p : Pool α} (hp : p.WellFormed) (hook : α → α) :
    (p.withReleaseHook hook).WellFormed :=
  ⟨hp.capacity_le, hp.slots_le, hp.stored, hp.words, hp.vacant, hp.size⟩

theorem WellFormed.withStorage {p : Pool α} (hp : p.WellFormed) (slots : Nat) :
    (p.withStorage slots).WellFormed :=
  ⟨hp.capacity_le, hp.slots_le, Nat.le_max_right _ _, hp.words, hp.vacant, hp.size⟩

lemma WellFormed.size_le {p : Pool α} (hp : p.WellFormed) : p.size ≤ p.slots.size := by
  rw [hp.size]
  simpa using List.countP_le_length (l := p.slots.toList) (p := (·.inUse))

lemma WellFormed.size_le_capacity {p : Pool α} (hp : p.WellFormed) : p.size ≤ p.capacity :=
  hp.size_le.trans hp.slots_le

/-- Without a vacant slot every slot is in use. -/
lemma WellFormed.size_eq_of_lowest? {p : Pool α} (hp : p.WellFormed)
    (h : p.vacant.lowest? = none) : p.size = p.slots.size := by
  rw [hp.size, ← Array.length_toList, List.countP_eq_length]
  intro slot hslot
  obtain ⟨i, hget⟩ := List.mem_iff_getElem?.mp hslot
  rw [Array.getElem?_toList] at hget
  by_contra hfree
  have hmem := (hp.vacant i).mpr ⟨slot, hget, by simpa using hfree⟩
  rw [Bitmap.lowest?_eq_none h i] at hmem
  exact Bool.false_ne_true hmem

lemma WellFormed.issues_reissue {p : Pool α} (hp : p.WellFormed) {i : Nat}
    (h : p.vacant.lowest? = some i) : p.Issues (p.reissue i).1 (p.reissue i).2 := by
  obtain ⟨slot, hslot, hfree⟩ := (hp.vacant i).mp (Bitmap.lowest?_eq_some h).1
  have hnone : ∀ g, p.get? ⟨i, g⟩ = none := by
    intro g
    simp [Pool.get?, hslot, hfree]
  have hcount := countP_modify_slots p (fun s => { s with value := p.fresh, inUse := true }) hslot
  rw [hfree] at hcount
  refine ⟨⟨hp.capacity_le, ?_, ?_, ?_, fun k => ?_, ?_⟩, hnone _, fun j => ?_, rfl, rfl⟩
  · simpa [reissue] using hp.slots_le
  · simpa [reissue] using hp.stored
  · simpa [reissue] using hp.words
  · simp only [reissue, Bitmap.contains_erase, Bool.and_eq_true, hp.vacant k, Array.getElem?_modify]
    by_cases hk : i = k
    · subst hk
      simp [hslot]
    · simp [hk]
  · simp only [reissue, hp.size]
    simp only [Bool.toNat_false, Bool.toNat_true] at hcount
    omega
  · simp only [reissue, hslot, Option.map_some, Option.getD_some]
    by_cases hindex : i = j.index
    · by_cases hj : j = ⟨i, slot.generation⟩
      · simp [Pool.get?, hj, Array.getElem?_modify, hslot]
      · have hgen : slot.generation ≠ j.generation := by
          intro hg
          apply hj
          cases j
          simp_all
        have hold : p.get? j = none := by
          have := hnone j.generation
          rwa [hindex] at this
        rw [if_neg hj, hold]
        simp [Pool.get?, Array.getElem?_modify, ← hindex, hslot, hgen]
    · have hj : j ≠ ⟨i, slot.generation⟩ := by
        rintro rfl
        exact hindex rfl
      rw [if_neg hj]
      simp [Pool.get?, Array.getElem?_modify, hindex]

lemma WellFormed.issues_extend {p : Pool α} (hp : p.WellFormed) (hcapacity : p.slots.size < p.capacity)
    (hstorage : p.slots.size < p.storage) : p.Issues ⟨p.slots.size, 0⟩ p.extend.2 := by
  have hnone : ∀ g, p.get? ⟨p.slots.size, g⟩ = none := by
    intro g
    simp [Pool.get?]
  refine ⟨⟨hp.capacity_le, ?_, ?_, ?_, fun k => ?_, ?_⟩, hnone _, fun j => ?_, rfl, rfl⟩
  · simp only [extend, Array.size_push]
    omega
  · simp only [extend, Array.size_push]
    omega
  · have hwords := hp.words
    simp only [extend, Array.size_push, Bitmap.size_extendTo]
    split <;> omega
  · simp only [extend, Bitmap.contains_extendTo, hp.vacant k, Array.getElem?_push]
    by_cases hk : k = p.slots.size
    · subst hk
      simp
    · simp [hk]
  · simp [extend, hp.size]
  · simp only [extend]
    by_cases hindex : j.index = p.slots.size
    · by_cases hj : j = ⟨p.slots.size, 0⟩
      · simp [Pool.get?, hj]
      · have hgen : ¬ (0 : UInt32) = j.generation := by
          intro hg
          apply hj
          cases j
          simp_all
        have hold : p.get? j = none := by
          have := hnone j.generation
          rwa [← hindex] at this
        rw [if_neg hj, hold]
        simp [Pool.get?, hindex, hgen]
    · have hj : j ≠ ⟨p.slots.size, 0⟩ := by
        rintro rfl
        exact hindex rfl
      rw [if_neg hj]
      simp [Pool.get?, Array.getElem?_push, hindex]

/-- Why a pool with `size` records in use issues no other one, if it does not. -/
def shortage? (capacity storage size : Nat) : Option IssueError :=
  if capacity ≤ size then some .exhausted
  else if storage ≤ size then some .storageFailed
  else none

lemma shortage?_eq_none {capacity storage size : Nat} :
    shortage? capacity storage size = none ↔ size < capacity ∧ size < storage := by
  unfold shortage?
  split
  · simp [*]
  · split <;> simp_all

lemma shortage?_eq_exhausted {capacity storage size : Nat} :
    shortage? capacity storage size = some .exhausted ↔ capacity ≤ size := by
  unfold shortage?
  split
  · simp [*]
  · split <;> simp [*]

lemma shortage?_eq_storageFailed {capacity storage size : Nat} :
    shortage? capacity storage size = some .storageFailed ↔ size < capacity ∧ storage ≤ size := by
  unfold shortage?
  split
  · simp [*]
  · split <;> simp_all

/-- Storage beyond the capacity is of no use. -/
lemma shortage?_min_capacity (capacity storage size : Nat) :
    shortage? capacity (min storage capacity) size = shortage? capacity storage size := by
  unfold shortage?
  split
  · rfl
  · rename_i hroom
    have hmin : min storage capacity ≤ size ↔ storage ≤ size := by omega
    simp only [hmin]

/-- A pool that is short of nothing issues a record. -/
theorem WellFormed.issue_eq_ok {p : Pool α} (hp : p.WellFormed)
    (h : shortage? p.capacity p.storage p.size = none) :
    ∃ id q, p.issue = .ok (id, q) ∧ p.Issues id q := by
  obtain ⟨hcapacity, hstorage⟩ := shortage?_eq_none.mp h
  unfold issue
  cases hlow : p.vacant.lowest? with
  | some i => exact ⟨_, _, rfl, hp.issues_reissue hlow⟩
  | none =>
    rw [hp.size_eq_of_lowest? hlow] at hcapacity hstorage
    dsimp only
    rw [if_pos hcapacity, if_pos hstorage]
    exact ⟨_, _, rfl, hp.issues_extend hcapacity hstorage⟩

/-- Where every slot is in use, none is vacant. -/
lemma WellFormed.lowest?_eq_none {p : Pool α} (hp : p.WellFormed) (h : p.slots.size ≤ p.size) :
    p.vacant.lowest? = none := by
  rw [Option.eq_none_iff_forall_ne_some]
  intro i hlow
  obtain ⟨slot, hslot, hfree⟩ := (hp.vacant i).mp (Bitmap.lowest?_eq_some hlow).1
  have hlen : p.slots.toList.countP (·.inUse) = p.slots.toList.length := by
    rw [← hp.size, Array.length_toList]
    exact Nat.le_antisymm hp.size_le h
  have huse := List.countP_eq_length.mp hlen slot
    (Array.mem_toList_iff.mpr (Array.mem_of_getElem? hslot))
  rw [hfree] at huse
  cases huse

/-- A pool refuses to issue a record exactly when it is short of something. -/
theorem WellFormed.issue_eq_error_iff {p : Pool α} (hp : p.WellFormed) {e : IssueError} :
    p.issue = .error e ↔ shortage? p.capacity p.storage p.size = some e := by
  cases hshort : shortage? p.capacity p.storage p.size with
  | none =>
    obtain ⟨id, q, hok, -⟩ := hp.issue_eq_ok hshort
    simp [hok]
  | some short =>
    -- all slots are in use, since there is room and storage for each of them
    have hslots : p.slots.size ≤ p.size := by
      cases short with
      | exhausted => exact hp.slots_le.trans (shortage?_eq_exhausted.mp hshort)
      | storageFailed => exact hp.stored.trans (shortage?_eq_storageFailed.mp hshort).2
    have hall := hp.size_eq_of_lowest? (hp.lowest?_eq_none hslots)
    have hissue : p.issue = .error short := by
      rw [issue, hp.lowest?_eq_none hslots]
      dsimp only
      rw [← hall]
      cases short with
      | exhausted => rw [if_neg (Nat.not_lt.mpr (shortage?_eq_exhausted.mp hshort))]
      | storageFailed =>
        obtain ⟨hcapacity, hstorage⟩ := shortage?_eq_storageFailed.mp hshort
        rw [if_pos hcapacity, if_neg (Nat.not_lt.mpr hstorage)]
    simp [hissue]

/-- What only fails for want of a record fails for the reason that the record is refused. -/
lemma issue_bind_eq_error_iff {p : Pool α} {β : Type} {f : Handle × Pool α → Except IssueError β}
    (hf : ∀ issued, ∃ b, f issued = .ok b) {e : IssueError} :
    p.issue >>= f = .error e ↔ p.issue = .error e := by
  cases p.issue with
  | error => simp [bind, Except.bind]
  | ok issued =>
    obtain ⟨b, hb⟩ := hf issued
    simp [bind, Except.bind, hb]

lemma WellFormed.issue_eq_exhausted_iff {p : Pool α} (hp : p.WellFormed) :
    p.issue = .error .exhausted ↔ p.size = p.capacity := by
  rw [hp.issue_eq_error_iff, shortage?_eq_exhausted]
  exact ⟨fun h => Nat.le_antisymm hp.size_le_capacity h, Eq.ge⟩

lemma WellFormed.issue_eq_storageFailed_iff {p : Pool α} (hp : p.WellFormed) :
    p.issue = .error .storageFailed ↔ p.size ≠ p.capacity ∧ p.storage ≤ p.size := by
  rw [hp.issue_eq_error_iff, shortage?_eq_storageFailed, Nat.lt_iff_le_and_ne]
  exact and_congr_left fun _ => and_iff_right hp.size_le_capacity

lemma WellFormed.shortage?_eq_none {p : Pool α} (hp : p.WellFormed) (hroom : p.size ≠ p.capacity)
    (hstorage : p.size < p.storage) : shortage? p.capacity p.storage p.size = none :=
  Pool.shortage?_eq_none.mpr ⟨Nat.lt_of_le_of_ne hp.size_le_capacity hroom, hstorage⟩

/-- What begins with a record that is issued and succeeds was short of nothing. -/
lemma WellFormed.shortage?_of_bind {p : Pool α} (hp : p.WellFormed) {β : Type} {b : β}
    {f : Handle × Pool α → Except IssueError β} (hrun : p.issue >>= f = .ok b) :
    shortage? p.capacity p.storage p.size = none := by
  rw [Option.eq_none_iff_forall_ne_some]
  intro e hshort
  rw [hp.issue_eq_error_iff.mpr hshort] at hrun
  cases hrun

lemma WellFormed.issues_of_issue {p q : Pool α} (hp : p.WellFormed) {id : Handle}
    (hrun : p.issue = .ok (id, q)) : p.Issues id q := by
  have hbind : p.issue >>= pure = .ok (id, q) := by rw [hrun]; rfl
  obtain ⟨id', q', hrun', hissues⟩ := hp.issue_eq_ok (hp.shortage?_of_bind hbind)
  cases hrun.symm.trans hrun'
  exact hissues

/-! ### Releasing a record -/

/-- `p` becomes `q` by taking back the record under the handle `id`. -/
structure Releases (p : Pool α) (id : Handle) (q : Pool α) : Prop where
  wellFormed : q.WellFormed
  get? : ∀ j, q.get? j = if j = id then none else p.get? j
  size : q.size + 1 = p.size
  setup : p.SameSetup q

theorem WellFormed.release_of_contains {p : Pool α} (hp : p.WellFormed) {id : Handle}
    (h : p.contains id = true) : (p.release id).1 = true ∧ p.Releases id (p.release id).2 := by
  obtain ⟨a, ha⟩ := contains_iff.mp h
  obtain ⟨slot, hslot, huse, hgen, -⟩ := get?_eq_some.mp ha
  have hlt := index_lt h
  have hcount := countP_modify_slots p
    (fun s => ⟨p.onRelease s.value, s.generation + 1, false⟩) hslot
  rw [huse] at hcount
  unfold release
  rw [if_pos h]
  refine ⟨rfl, ⟨hp.capacity_le, ?_, ?_, ?_, fun k => ?_, ?_⟩, fun j => ?_, ?_, rfl⟩
  · simpa using hp.slots_le
  · simpa using hp.stored
  · simpa using hp.words
  · have hword : id.index / 64 < p.vacant.words.size := by
      have := hp.words
      omega
    simp only [Bitmap.contains_insert hword, Bool.or_eq_true, hp.vacant k, Array.getElem?_modify]
    by_cases hk : id.index = k
    · subst hk
      simp [hslot]
    · simp [hk]
  · simp only [hp.size]
    simp only [Bool.toNat_false, Bool.toNat_true] at hcount
    omega
  · by_cases hindex : id.index = j.index
    · have hold : j ≠ id → p.get? j = none := by
        intro hj
        by_contra hsome
        obtain ⟨b, hb⟩ := Option.ne_none_iff_exists'.mp hsome
        exact hj (eq_of_index_eq (contains_of_get? hb) h hindex.symm)
      by_cases hj : j = id
      · simp [Pool.get?, hj, Array.getElem?_modify, hslot]
      · rw [if_neg hj, hold hj]
        simp [Pool.get?, Array.getElem?_modify, ← hindex, hslot]
    · have hj : j ≠ id := fun h => hindex (h ▸ rfl)
      rw [if_neg hj]
      simp [Pool.get?, Array.getElem?_modify, hindex]
  · have hpos : 0 < p.size := by
      simp only [Bool.toNat_false, Bool.toNat_true] at hcount
      rw [hp.size]
      omega
    simp only
    omega

/-- A slot that is taken back can be issued again, whatever the heap has left. -/
lemma WellFormed.shortage?_of_releases {p q : Pool α} (hp : p.WellFormed) {id : Handle}
    (h : p.Releases id q) : shortage? q.capacity q.storage q.size = none := by
  rw [h.setup.capacity, h.setup.storage]
  exact Pool.shortage?_eq_none.mpr
    ⟨(h.size.trans_le hp.size_le_capacity), h.size.trans_le (hp.size_le.trans hp.stored)⟩

/-- A record that is given back at once leaves the pool with the records it had. -/
lemma Issues.undo {p q : Pool α} {id : Handle} (h : p.Issues id q) :
    (q.release id).2.WellFormed ∧ (∀ j, (q.release id).2.get? j = p.get? j) ∧
      p.SameSetup (q.release id).2 := by
  have hlive : q.contains id = true := contains_of_get? ((h.get? id).trans (if_pos rfl))
  obtain ⟨-, hreleases⟩ := h.wellFormed.release_of_contains hlive
  refine ⟨hreleases.wellFormed, fun j => ?_, h.setup.trans hreleases.setup⟩
  rw [hreleases.get?, h.get?]
  split
  · rename_i hj
    rw [hj, h.vacant]
  · rfl

lemma fst_release (p : Pool α) (id : Handle) : (p.release id).1 = p.contains id := by
  rw [release]
  cases p.contains id <;> rfl

lemma release_of_not_contains {p : Pool α} {id : Handle} (h : p.contains id = false) :
    p.release id = (false, p) := by
  rw [release, h]
  rfl

theorem WellFormed.release {p : Pool α} (hp : p.WellFormed) (id : Handle) :
    (p.release id).2.WellFormed := by
  cases hlive : p.contains id
  · rw [release_of_not_contains hlive]
    exact hp
  · exact (hp.release_of_contains hlive).2.wellFormed

/-- After a handle is given back it does not resolve, whether or not it did before. -/
lemma WellFormed.get?_release {p : Pool α} (hp : p.WellFormed) (id j : Handle) :
    (p.release id).2.get? j = if j = id then none else p.get? j := by
  cases hlive : p.contains id
  · rw [release_of_not_contains hlive]
    split
    · rename_i hj
      rw [hj]
      simpa [contains] using hlive
    · rfl
  · exact (hp.release_of_contains hlive).2.get? j

lemma sameSetup_release (p : Pool α) (id : Handle) : p.SameSetup (p.release id).2 := by
  unfold release SameSetup
  split <;> rfl

lemma sameSetup_foldl_release (p : Pool α) (xs : List (Handle × α)) :
    p.SameSetup (xs.foldl (fun pool e => (pool.release e.1).2) p) := by
  induction xs generalizing p with
  | nil => exact .refl p
  | cons x xs ih => exact (sameSetup_release p x.1).trans (ih _)

/-- Of the records under many handles none is left once all are given back. -/
lemma WellFormed.releaseAll {p : Pool α} (hp : p.WellFormed) (ids : List Handle) :
    (ids.foldl (fun pool id => (pool.release id).2) p).WellFormed ∧ ∀ j,
      (ids.foldl (fun pool id => (pool.release id).2) p).get? j = if j ∈ ids then none else p.get? j := by
  induction ids generalizing p with
  | nil => exact ⟨hp, fun j => by simp⟩
  | cons id ids ih =>
    obtain ⟨hwell, hget⟩ := ih (hp.release id)
    refine ⟨hwell, fun j => ?_⟩
    rw [List.foldl_cons, hget, hp.get?_release]
    by_cases hj : j = id <;> simp [hj]

/-! ### The live records -/

/-- The handles that resolve. -/
def handles (p : Pool α) : List Handle := p.toList.map (·.1)

lemma mem_toList {p : Pool α} {id : Handle} {a : α} : (id, a) ∈ p.toList ↔ p.get? id = some a := by
  simp only [toList, List.mem_filterMap, Prod.exists, get?_eq_some]
  constructor
  · rintro ⟨slot, i, hmem, hsome⟩
    rw [List.mk_mem_zipIdx_iff_getElem?, Array.getElem?_toList] at hmem
    split at hsome
    · rename_i huse
      cases hsome
      exact ⟨slot, hmem, huse, rfl, rfl⟩
    · cases hsome
  · rintro ⟨slot, hslot, huse, hgen, rfl⟩
    refine ⟨slot, id.index, ?_, ?_⟩
    · rwa [List.mk_mem_zipIdx_iff_getElem?, Array.getElem?_toList]
    · rw [if_pos huse, hgen]

lemma mem_handles {p : Pool α} {id : Handle} : id ∈ p.handles ↔ p.contains id = true := by
  rw [contains_iff, handles, List.mem_map]
  constructor
  · rintro ⟨entry, hmem, rfl⟩
    exact ⟨entry.2, mem_toList.mp hmem⟩
  · rintro ⟨a, ha⟩
    exact ⟨(id, a), mem_toList.mpr ha, rfl⟩

/-- The live records are listed in the order of their slots. -/
lemma indices_sublist (p : Pool α) :
    (p.handles.map (·.index)).Sublist (List.range' 0 p.slots.size) := by
  have hsub : (p.handles.map (·.index)).Sublist (p.slots.toList.zipIdx.map (·.2)) := by
    unfold handles toList
    induction p.slots.toList.zipIdx with
    | nil => simp
    | cons x l ih =>
      obtain ⟨slot, i⟩ := x
      cases huse : slot.inUse with
      | true => simpa [huse] using ih
      | false => simpa [huse] using ih.cons i
  rwa [List.zipIdx_map_snd, Array.length_toList] at hsub

lemma handles_nodup (p : Pool α) : p.handles.Nodup :=
  (p.indices_sublist.nodup List.nodup_range').of_map _

lemma indices_sorted (p : Pool α) : (p.handles.map (·.index)).Pairwise (· < ·) :=
  (List.pairwise_lt_range' : (List.range' 0 p.slots.size).Pairwise (· < ·)).sublist p.indices_sublist

lemma WellFormed.length_handles {p : Pool α} (hp : p.WellFormed) : p.handles.length = p.size := by
  have hcount : p.slots.toList.countP (·.inUse) = p.slots.toList.zipIdx.countP (·.1.inUse) := by
    conv_lhs => rw [← List.zipIdx_map_fst 0 p.slots.toList]
    rw [List.countP_map]
    rfl
  rw [hp.size, hcount, handles, toList, List.length_map]
  induction p.slots.toList.zipIdx with
  | nil => simp
  | cons x l ih =>
    obtain ⟨slot, i⟩ := x
    cases huse : slot.inUse with
    | true => simpa [huse] using ih
    | false => simpa [huse] using ih

/-- A list that names each live record once is as long as the pool counts. -/
theorem WellFormed.length_eq_size {p : Pool α} (hp : p.WellFormed) {ids : List Handle}
    (hnodup : ids.Nodup) (hmem : ∀ id, id ∈ ids ↔ p.contains id = true) : ids.length = p.size := by
  have hperm : ids.Perm p.handles :=
    (List.perm_ext_iff_of_nodup hnodup p.handles_nodup).mpr fun id => by rw [hmem, mem_handles]
  rw [hperm.length_eq, hp.length_handles]

end Pool

end Uniprocessor
