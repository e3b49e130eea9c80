import Mathlib.Data.Finset.Sort
import Mathlib.Data.Nat.PSub
import Mathlib.Order.Bounds.Basic
import Uniprocessor.Proofs.PidSpaces

/-!
# Histories of an identifier space

Whatever is handed out and taken back in a history, the space behaves as the set of the identifiers
that were handed out and not taken back since. No access of the bitmap is out of range on the way, and
no subtraction goes below zero: the operations with all of this checked give the same results.
-/

namespace Uniprocessor

/-! ### Checked operations -/

/-- Changes the word of `i`, which has to be in range. -/
def Bitmap.change? (b : Bitmap) (i : Nat) (f : UInt64 → UInt64) : Option Bitmap :=
  (b.words[i / 64]?).map fun _ => ⟨b.words.modify (i / 64) f⟩

namespace PidSpace

/-- A new space, in which the access of the bitmap is checked. -/
def ofCapacity? (capacity : Nat) : Option PidSpace := do
  let taken ← (Bitmap.clear (max 1 ((capacity + 63) / 64))).change? reservedPid
    (· ||| Bitmap.mask reservedPid)
  return ⟨taken, capacity, 0, 0⟩

/-- Whether `pid` is in use, with a checked access of the bitmap below the capacity. -/
def isUsed? (a : PidSpace) (pid : Pid) : Option Bool :=
  if pid < a.capacity then (a.taken.words[pid / 64]?).map (·.toNat.testBit (pid % 64)) else some false

/-- The search of an allocation over `count` words from `start` on. It ends at the first word with a
clear bit, even if the identifier of that bit is out of bounds. -/
def search? (a : PidSpace) : Nat → Nat → Option (Option Pid)
  | 0, _ => some none
  | count + 1, start => do
    let word ← a.taken.words[start]?
    if ~~~ word = 0 then a.search? count (start + 1)
    else
      let bit ← Bitmap.lowestBit? (~~~ word)
      return if 64 * start + bit < a.capacity then some (64 * start + bit) else none

/-- An allocation in which every access of the bitmap is checked. -/
def allocate? (a : PidSpace) : Option (Option Pid × PidSpace) := do
  match ← a.search? (a.taken.words.size - a.hint) a.hint with
  | some pid =>
    let taken ← a.taken.change? pid (· ||| Bitmap.mask pid)
    return (some pid, { a with taken := taken, used := a.used + 1, hint := pid / 64 })
  | none => return (none, { a with hint := a.taken.words.size })

/-- A release in which every access of the bitmap and the subtraction are checked. -/
def release? (a : PidSpace) (pid : Pid) : Option (Bool × PidSpace) := do
  if pid = reservedPid ∨ a.capacity ≤ pid then return (false, a)
  if ← a.isUsed? pid then
    let taken ← a.taken.change? pid (· &&& ~~~ Bitmap.mask pid)
    let used ← a.used.ppred
    return (true, { a with taken := taken, used := used, hint := min a.hint (pid / 64) })
  else return (false, a)

/-- The number of identifiers left, with a checked subtraction. -/
def available? (a : PidSpace) : Option Nat := (a.capacity - 1).psub a.used

/-- Nothing goes out of range or below zero, whatever is asked next. -/
structure InBounds (a : PidSpace) : Prop where
  isUsed : ∀ pid, a.isUsed? pid = some (a.isUsed pid)
  allocate : a.allocate? = some a.allocate
  release : ∀ pid, a.release? pid = some (a.release pid)
  available : a.available? = some a.available

end PidSpace

namespace Bitmap

lemma getElem?_words {b : Bitmap} {i : Nat} (h : i < b.words.size) : b.words[i]? = some (b.word i) := by
  simp [word, Array.getD, h]

lemma change?_eq {b : Bitmap} {i : Nat} (h : i / 64 < b.words.size) (f : UInt64 → UInt64) :
    b.change? i f = some ⟨b.words.modify (i / 64) f⟩ := by
  rw [change?, getElem?_words h, Option.map_some]

end Bitmap

namespace PidSpace

variable {a b : PidSpace} {pid : Pid}

lemma ofCapacity?_eq (capacity : Nat) : ofCapacity? capacity = some (ofCapacity capacity) := by
  have hword : reservedPid / 64 < (Bitmap.clear (max 1 ((capacity + 63) / 64))).words.size := by
    rw [Bitmap.size_clear]
    exact Nat.lt_of_lt_of_le Nat.zero_lt_one (le_max_left 1 _)
  rw [ofCapacity?, Bitmap.change?_eq hword]
  rfl

/-- The words of a search that are in range are those of the search for the lowest number absent. -/
lemma search?_eq (a : PidSpace) {count start : Nat} (h : ∀ i < count, start + i < a.taken.words.size) :
    a.search? count start = some (((a.taken.findWordAmong? (~~~ · != 0) count start).bind fun i =>
      (Bitmap.lowestBit? (~~~ a.taken.word i)).bind fun bit => some (64 * i + bit)).filter
        (· < a.capacity)) := by
  induction count generalizing start with
  | zero => rfl
  | succ count ih =>
    have hstart : start < a.taken.words.size := h 0 (Nat.succ_pos count)
    rw [search?, Bitmap.findWordAmong?, Bitmap.getElem?_words hstart]
    by_cases hfull : ~~~ a.taken.word start = 0
    · simp only [Option.bind_eq_bind, Option.bind_some, bne_iff_ne, ne_eq, hfull, not_true_eq_false,
        if_false]
      refine ih fun i hi => ?_
      rw [Nat.add_assoc, Nat.add_comm 1]
      exact h (i + 1) (Nat.succ_lt_succ hi)
    · cases hbit : Bitmap.lowestBit? (~~~ a.taken.word start) with
      | none => exact absurd (Bitmap.lowestBit?_eq_none hbit) hfull
      | some bit => simp [hfull, hbit, Option.filter]

lemma search?_eq_next? (a : PidSpace) :
    a.search? (a.taken.words.size - a.hint) a.hint = some a.next? :=
  a.search?_eq fun _ hi => Nat.add_lt_of_lt_sub' hi

section

variable (ha : a.WellFormed)

include ha

lemma WellFormed.isUsed?_eq (pid : Pid) : a.isUsed? pid = some (a.isUsed pid) := by
  rw [isUsed?, isUsed]
  by_cases hlt : pid < a.capacity
  · rw [if_pos hlt, Bitmap.getElem?_words (ha.div_lt hlt), decide_eq_true hlt]
    rfl
  · rw [if_neg hlt, decide_eq_false hlt]
    rfl

lemma WellFormed.allocate?_eq : a.allocate? = some a.allocate := by
  rw [allocate?, search?_eq_next?, Option.bind_eq_bind, Option.bind_some, allocate]
  cases hnext : a.next? with
  | none => rfl
  | some pid =>
    have hlt := (ha.next?_eq_some hnext).2.1
    simp only [Bitmap.change?_eq (ha.div_lt hlt)]
    rfl

lemma WellFormed.used_pos (hne : pid ≠ reservedPid) (hused : a.isUsed pid = true) : 0 < a.used := by
  rw [ha.used]
  exact List.length_pos_of_mem (mem_toList.mpr ⟨hne, hused⟩)

lemma WellFormed.release?_eq (pid : Pid) : a.release? pid = some (a.release pid) := by
  rw [release?, release, ha.isUsed?_eq]
  by_cases hout : pid = reservedPid ∨ a.capacity ≤ pid
  · have hrefused : ¬(pid ≠ reservedPid ∧ a.isUsed pid = true) := by
      rintro ⟨hne, hused⟩
      exact hout.elim hne (Nat.not_le.mpr (isUsed_iff.mp hused).1)
    rw [if_pos hout, if_neg hrefused]
    rfl
  · rw [not_or] at hout
    cases hused : a.isUsed pid with
    | false => simp [hout.1, hout.2]
    | true =>
      have hlt := (isUsed_iff.mp hused).1
      have hpred : a.used.ppred = some (a.used - 1) :=
        Nat.ppred_eq_some.mpr (Nat.sub_add_cancel (ha.used_pos hout.1 hused))
      simp [hout.1, hout.2, Bitmap.change?_eq (ha.div_lt hlt), hpred, Bitmap.erase]

lemma WellFormed.used_le : a.used ≤ a.capacity - 1 := by
  rw [ha.used, toList]
  refine (List.length_filter_le _ _).trans ?_
  rw [List.length_range']

lemma WellFormed.inBounds : a.InBounds where
  isUsed := ha.isUsed?_eq
  allocate := ha.allocate?_eq
  release := ha.release?_eq
  available := Nat.psub_eq_some.mpr (Nat.sub_add_cancel ha.used_le)

end

/-! ### Histories -/

@[simp]
lemma fst_allocate (a : PidSpace) : a.allocate.1 = a.next? := by
  rw [allocate]
  cases a.next? <;> rfl

@[simp]
lemma fst_release {a : PidSpace} {pid : Pid} :
    (a.release pid).1 = true ↔ pid ≠ reservedPid ∧ a.isUsed pid = true := by
  rw [release]
  split <;> simp [*]

/-- A release that is refused changes nothing. -/
lemma snd_release {a : PidSpace} {pid : Pid} (h : (a.release pid).1 = false) : (a.release pid).2 = a := by
  rw [release] at h ⊢
  split
  · rename_i hused
    rw [if_pos hused] at h
    cases h
  · rfl

/-- The states that a space of identifiers below `capacity` comes to by any sequence of calls, each with
the identifiers that were handed out and not taken back since. -/
inductive Reached (capacity : Nat) : Finset Pid → PidSpace → Prop
  | start : Reached capacity ∅ (ofCapacity capacity)
  | allocate {U a} : Reached capacity U a → Reached capacity (U ∪ a.allocate.1.toFinset) a.allocate.2
  | release {U a} (pid : Pid) : Reached capacity U a →
      Reached capacity (if (a.release pid).1 then U.erase pid else U) (a.release pid).2

/-- What a space of identifiers does that holds exactly those in `U`. -/
structure ActsAs (capacity : Nat) (U : Finset Pid) (a : PidSpace) : Prop where
  /-- The least identifier that is left is handed out. -/
  issue : ∀ pid, a.allocate.1 = some pid ↔ IsLeast {q : Pid | 1 ≤ q ∧ q < capacity ∧ q ∉ U} pid
  exhausted : a.allocate.1 = none ↔ ∀ q, 1 ≤ q → q < capacity → q ∈ U
  release : ∀ pid, (a.release pid).1 = true ↔ pid ∈ U
  refused : ∀ pid ∉ U, (a.release pid).2 = a
  isUsed : ∀ pid, a.isUsed pid = true ↔ pid = reservedPid ∨ pid ∈ U
  toList : a.toList = U.sort
  used : a.used = U.card
  available : a.used + a.available = capacity - 1

/-- The invariant of a history: the bitmap holds the identifiers that are out. -/
structure Holds (capacity : Nat) (U : Finset Pid) (a : PidSpace) : Prop where
  wellFormed : a.WellFormed
  capacity_eq : a.capacity = capacity
  mem_iff : ∀ pid, pid ∈ U ↔ pid ≠ reservedPid ∧ a.isUsed pid = true

variable {capacity : Nat} {U : Finset Pid}

lemma holds_ofCapacity (capacity : Nat) : Holds capacity ∅ (ofCapacity capacity) where
  wellFormed := wellFormed_ofCapacity capacity
  capacity_eq := rfl
  mem_iff pid := by
    rw [isUsed_iff, contains_ofCapacity, decide_eq_true_iff]
    simp only [Finset.notMem_empty, false_iff]
    tauto

section

variable (h : Holds capacity U a)

include h

lemma Holds.allocate : Holds capacity (U ∪ a.allocate.1.toFinset) a.allocate.2 := by
  cases hnext : a.next? with
  | none =>
    obtain ⟨b, hrun, hwellFormed, hcapacity, hused⟩ := h.wellFormed.allocate_none hnext
    rw [hrun]
    refine ⟨hwellFormed, hcapacity.trans h.capacity_eq, fun q => ?_⟩
    simp [h.mem_iff, hused]
  | some pid =>
    obtain ⟨hne, -, -, -⟩ := h.wellFormed.next?_eq_some hnext
    obtain ⟨b, hrun, hwellFormed, hcapacity, hused⟩ := h.wellFormed.allocate_some hnext
    rw [hrun]
    refine ⟨hwellFormed, hcapacity.trans h.capacity_eq, fun q => ?_⟩
    rw [Finset.mem_union, Option.mem_toFinset, Option.mem_some_iff, h.mem_iff, hused, Bool.or_eq_true,
      decide_eq_true_iff]
    constructor
    · rintro (⟨hq, hin⟩ | rfl)
      · exact ⟨hq, .inl hin⟩
      · exact ⟨hne, .inr rfl⟩
    · rintro ⟨hq, hin | heq⟩
      · exact .inl ⟨hq, hin⟩
      · exact .inr heq

lemma Holds.release (pid : Pid) :
    Holds capacity (if (a.release pid).1 then U.erase pid else U) (a.release pid).2 := by
  cases hresult : (a.release pid).1 with
  | false =>
    rw [snd_release hresult]
    exact h
  | true =>
    obtain ⟨hne, hin⟩ := fst_release.mp hresult
    obtain ⟨b, hrun, hwellFormed, hcapacity, hused⟩ := h.wellFormed.release_of_isUsed hne hin
    rw [hrun, if_pos rfl]
    refine ⟨hwellFormed, hcapacity.trans h.capacity_eq, fun q => ?_⟩
    rw [Finset.mem_erase, h.mem_iff, hused, Bool.and_eq_true, Bool.not_eq_true',
      decide_eq_false_iff_not, ne_comm]
    tauto

/-- Every identifier but the reserved one is left exactly if it is not in use. -/
lemma Holds.notMem_iff (hpos : 1 ≤ pid) : pid ∉ U ↔ a.isUsed pid = false := by
  have hne : pid ≠ reservedPid := Nat.pos_iff_ne_zero.mp hpos
  rw [h.mem_iff, and_iff_right hne, Bool.not_eq_true]

/-- The identifiers that can be handed out. -/
lemma Holds.isLeast_next? {pid : Nat} (hnext : a.next? = some pid) :
    IsLeast {q : Pid | 1 ≤ q ∧ q < capacity ∧ q ∉ U} pid := by
  obtain ⟨hne, hlt, hfree, hbefore⟩ := h.wellFormed.next?_eq_some hnext
  have hpos : 1 ≤ pid := Nat.pos_of_ne_zero hne
  refine ⟨⟨hpos, h.capacity_eq ▸ hlt, (h.notMem_iff hpos).mpr hfree⟩, fun q hq => ?_⟩
  obtain ⟨hqpos, -, hq⟩ := hq
  rw [h.notMem_iff hqpos] at hq
  by_contra hless
  rw [hbefore q (Nat.not_le.mp hless)] at hq
  cases hq

lemma Holds.mem_of_next?_eq_none (hnext : a.next? = none) (hpos : 1 ≤ pid) (hlt : pid < capacity) :
    pid ∈ U :=
  (h.mem_iff pid).mpr
    ⟨Nat.pos_iff_ne_zero.mp hpos, h.wellFormed.next?_eq_none hnext (h.capacity_eq ▸ hlt)⟩

lemma Holds.toList_eq : a.toList = U.sort := by
  have hmem : a.toList.toFinset = U := by
    ext pid
    rw [List.mem_toFinset, mem_toList, h.mem_iff]
  rw [← hmem]
  exact ((List.toFinset_sort (· ≤ ·) a.toList_nodup).mpr (a.toList_sorted.imp Nat.le_of_lt)).symm

end

lemma Reached.holds (h : Reached capacity U a) : Holds capacity U a := by
  induction h with
  | start => exact holds_ofCapacity capacity
  | allocate _ ih => exact ih.allocate
  | release pid _ ih => exact ih.release pid

lemma Reached.allocateMany (h : Reached capacity U a) (count : Nat) :
    Reached capacity (U ∪ (a.allocateMany count).1.toFinset) (a.allocateMany count).2 := by
  induction count generalizing U a with
  | zero => simpa [PidSpace.allocateMany] using h
  | succ count ih =>
    have hnext := h.allocate
    rw [PidSpace.allocateMany]
    rcases hrun : a.allocate with ⟨_ | pid, b⟩
    · rw [hrun] at hnext
      exact hnext
    · rw [hrun] at hnext
      have hrest := ih hnext
      rw [Option.toFinset_some, Finset.union_assoc, ← Finset.insert_eq] at hrest
      simpa using hrest

theorem Holds.actsAs (h : Holds capacity U a) (hcapacity : 1 ≤ capacity) : ActsAs capacity U a where
  issue pid := by
    rw [fst_allocate]
    refine ⟨h.isLeast_next?, fun hleast => ?_⟩
    cases hnext : a.next? with
    | none => exact absurd (h.mem_of_next?_eq_none hnext hleast.1.1 hleast.1.2.1) hleast.1.2.2
    | some q => rw [(h.isLeast_next? hnext).unique hleast]
  exhausted := by
    rw [fst_allocate]
    refine ⟨fun hnext q => h.mem_of_next?_eq_none hnext, fun hall => ?_⟩
    cases hnext : a.next? with
    | none => rfl
    | some q =>
      obtain ⟨hpos, hlt, hnot⟩ := (h.isLeast_next? hnext).1
      exact absurd (hall q hpos hlt) hnot
  release pid := by rw [fst_release, h.mem_iff]
  refused pid hpid := by
    rw [h.mem_iff, ← fst_release, Bool.not_eq_true] at hpid
    exact snd_release hpid
  isUsed pid := by
    by_cases hpid : pid = reservedPid
    · have hreserved : a.isUsed pid = true :=
        hpid ▸ isUsed_iff.mpr ⟨h.capacity_eq ▸ hcapacity, h.wellFormed.reserved⟩
      exact iff_of_true hreserved (.inl hpid)
    · rw [h.mem_iff, or_iff_right hpid, and_iff_right hpid]
  toList := h.toList_eq
  used := by rw [h.wellFormed.used, h.toList_eq, Finset.length_sort]
  available := by
    rw [available, h.capacity_eq]
    exact Nat.add_sub_cancel' (h.capacity_eq ▸ h.wellFormed.used_le)

/-- An identifier space is the set of the identifiers that it has handed out and not got back: in every
history it does what that set calls for, and nothing goes out of range or below zero. -/
theorem Reached.acts_as_set (h : Reached capacity U a) (hcapacity : 1 ≤ capacity) :
    ActsAs capacity U a ∧ a.InBounds ∧ ofCapacity? capacity = some (ofCapacity capacity) :=
  ⟨h.holds.actsAs hcapacity, h.holds.wellFormed.inBounds, ofCapacity?_eq capacity⟩

/-- With all of the 69 identifiers out, two come back, and the one in the earlier word goes out again. -/
theorem acts_as_set_of_exhausted : ∃ U a, Reached 70 U a ∧ 1 ≤ 70 ∧ ActsAs 70 U a ∧ a.InBounds ∧ U.card = 67 ∧
    a.allocate.1 = some 3 ∧ IsLeast {q : Pid | 1 ≤ q ∧ q < 70 ∧ q ∉ U} 3 := by
  have hbegun : Reached 70 ∅ _ := .start
  have hfull := hbegun.allocateMany 80
  have hreleased := (hfull.release 65).release 3
  obtain ⟨hactsAs, hinBounds, -⟩ := hreleased.acts_as_set (by decide)
  exact ⟨_, _, hreleased, by decide, hactsAs, hinBounds, hactsAs.used.symm.trans (by decide +kernel),
    by decide +kernel, (hactsAs.issue 3).mp (by decide +kernel)⟩

end PidSpace

end Uniprocessor
