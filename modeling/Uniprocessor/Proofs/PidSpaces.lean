import Uniprocessor.Identifiers
import Uniprocessor.Proofs.Bitmaps

/-!
# The identifiers in use

A well-formed identifier space has all words of its bitmap, the reserved identifier marked, a
hint below which nothing is free, and a counter that counts. It then hands out the least
identifier that is not in use, and taking one back frees exactly that one.
-/

namespace Uniprocessor

namespace PidSpace

/-- The bitmap, the hint and the counter agree. -/
structure WellFormed (a : PidSpace) : Prop where
  words : a.capacity ≤ 64 * a.taken.words.size
  some_word : 0 < a.taken.words.size
  reserved : a.taken.contains reservedPid = true
  hint : ∀ pid : Nat, pid / 64 < a.hint → pid < a.capacity → a.taken.contains pid = true
  used : a.used = a.toList.length

lemma isUsed_iff {a : PidSpace} {pid : Nat} :
    a.isUsed pid = true ↔ pid < a.capacity ∧ a.taken.contains pid = true := by
  simp [isUsed]

lemma mem_toList {a : PidSpace} {pid : Nat} :
    pid ∈ a.toList ↔ pid ≠ reservedPid ∧ a.isUsed pid = true := by
  simp only [toList, List.mem_filter, List.mem_range'_1, reservedPid, isUsed_iff]
  constructor
  · rintro ⟨⟨hpos, hlt⟩, hu⟩
    exact ⟨by omega, hu⟩
  · rintro ⟨hne, hlt, hu⟩
    exact ⟨⟨by omega, by omega⟩, hlt, hu⟩

lemma toList_nodup (a : PidSpace) : a.toList.Nodup :=
  (List.nodup_range' : (List.range' 1 (a.capacity - 1)).Nodup).filter _

lemma toList_sorted (a : PidSpace) : a.toList.Pairwise (· < ·) :=
  (List.pairwise_lt_range' : (List.range' 1 (a.capacity - 1)).Pairwise (· < ·)).filter _

lemma contains_ofCapacity (capacity : Nat) (pid : Pid) :
    (ofCapacity capacity).taken.contains pid = decide (pid = reservedPid) := by
  rw [ofCapacity, Bitmap.contains_insert (by simp [reservedPid]), Bitmap.contains_clear]
  simp [eq_comm]

theorem wellFormed_ofCapacity (capacity : Nat) : (ofCapacity capacity).WellFormed where
  words := by
    simp only [ofCapacity, Bitmap.size_insert, Bitmap.size_clear]
    omega
  some_word := by simp [ofCapacity]
  reserved := by simp [contains_ofCapacity]
  hint := by simp [ofCapacity]
  used := by
    symm
    simp only [ofCapacity, List.length_eq_zero_iff, List.eq_nil_iff_forall_not_mem]
    intro pid
    rw [mem_toList, isUsed_iff]
    rintro ⟨hne, -, hmem⟩
    rw [← ofCapacity, contains_ofCapacity] at hmem
    exact hne (by simpa using hmem)

section

variable {a : PidSpace} (ha : a.WellFormed)

include ha

lemma WellFormed.div_lt {pid : Nat} (h : pid < a.capacity) : pid / 64 < a.taken.words.size := by
  have := ha.words
  omega

theorem WellFormed.next?_eq_some {pid : Nat} (h : a.next? = some pid) :
    pid ≠ reservedPid ∧ pid < a.capacity ∧ a.isUsed pid = false ∧
      ∀ q < pid, a.isUsed q = true := by
  obtain ⟨hlow, hlt⟩ := Option.filter_eq_some_iff.mp h
  have hlt : pid < a.capacity := by simpa using hlt
  obtain ⟨-, -, hfree, hbefore⟩ := Bitmap.lowestAbsent?_eq_some hlow
  refine ⟨?_, hlt, by simp [isUsed, hfree], fun q hq => ?_⟩
  · rintro rfl
    rw [ha.reserved] at hfree
    exact Bool.false_ne_true hfree.symm
  · refine isUsed_iff.mpr ⟨by omega, ?_⟩
    by_cases hhint : q / 64 < a.hint
    · exact ha.hint q hhint (by omega)
    · exact hbefore q hq (Nat.not_lt.mp hhint)

theorem WellFormed.next?_eq_none (h : a.next? = none) {pid : Nat} (hlt : pid < a.capacity) :
    a.isUsed pid = true := by
  refine isUsed_iff.mpr ⟨hlt, ?_⟩
  by_cases hhint : pid / 64 < a.hint
  · exact ha.hint pid hhint hlt
  · cases hlow : a.taken.lowestAbsent? a.hint with
    | none =>
      exact Bitmap.lowestAbsent?_eq_none hlow (Nat.not_lt.mp hhint) (ha.div_lt hlt)
    | some i =>
      have hle : a.capacity ≤ i := by
        simpa [next?, hlow, Option.filter] using h
      obtain ⟨-, -, -, hbefore⟩ := Bitmap.lowestAbsent?_eq_some hlow
      exact hbefore pid (by omega) (Nat.not_lt.mp hhint)

/-- The identifiers in use after one more is marked. -/
lemma WellFormed.isUsed_insert {pid : Pid} (hlt : pid < a.capacity) (q : Pid) (used hint : Nat) :
    isUsed ⟨a.taken.insert pid, a.capacity, used, hint⟩ q = (a.isUsed q || decide (pid = q)) := by
  simp only [isUsed, Bitmap.contains_insert (ha.div_lt hlt)]
  by_cases hq : pid = q
  · subst hq
    simp [hlt]
  · simp [hq]

lemma WellFormed.allocate_some {pid : Nat} (h : a.next? = some pid) :
    ∃ b, a.allocate = (some pid, b) ∧ b.WellFormed ∧ b.capacity = a.capacity ∧
      ∀ q, b.isUsed q = (a.isUsed q || decide (pid = q)) := by
  obtain ⟨hne, hlt, hfree, hbefore⟩ := ha.next?_eq_some h
  refine ⟨⟨a.taken.insert pid, a.capacity, a.used + 1, pid / 64⟩, by simp [allocate, h], ?_, rfl,
    fun q => ha.isUsed_insert hlt q _ _⟩
  have hcontains := Bitmap.contains_insert (ha.div_lt hlt)
  refine ⟨by simpa using ha.words, by simpa using ha.some_word, ?_, fun q hq hqc => ?_, ?_⟩
  · simp [hcontains, ha.reserved]
  · have hword : q / 64 < pid / 64 := hq
    simp only [hcontains, Bool.or_eq_true]
    exact .inl (isUsed_iff.mp (hbefore q (by omega))).2
  · have hperm : (toList ⟨a.taken.insert pid, a.capacity, a.used + 1, pid / 64⟩).Perm
        (pid :: a.toList) := by
      refine (List.perm_ext_iff_of_nodup (toList_nodup _) ?_).mpr fun q => ?_
      · exact List.nodup_cons.mpr ⟨by simp [mem_toList, hfree], toList_nodup a⟩
      · rw [mem_toList, ha.isUsed_insert hlt, List.mem_cons, mem_toList, Bool.or_eq_true,
          decide_eq_true_eq]
        constructor
        · rintro ⟨hq, hu | rfl⟩
          · exact .inr ⟨hq, hu⟩
          · exact .inl rfl
        · rintro (rfl | ⟨hq, hu⟩)
          · exact ⟨hne, .inr rfl⟩
          · exact ⟨hq, .inl hu⟩
    rw [hperm.length_eq, List.length_cons, ha.used]

lemma WellFormed.allocate_none (h : a.next? = none) :
    ∃ b, a.allocate = (none, b) ∧ b.WellFormed ∧ b.capacity = a.capacity ∧
      ∀ q, b.isUsed q = a.isUsed q := by
  refine ⟨{ a with hint := a.taken.words.size }, by simp [allocate, h], ?_, rfl, fun _ => rfl⟩
  exact ⟨ha.words, ha.some_word, ha.reserved,
    fun q _ hq => (isUsed_iff.mp (ha.next?_eq_none h hq)).2, ha.used⟩

theorem WellFormed.release_of_isUsed {pid : Pid} (hne : pid ≠ reservedPid)
    (hused : a.isUsed pid = true) :
    ∃ b, a.release pid = (true, b) ∧ b.WellFormed ∧ b.capacity = a.capacity ∧
      ∀ q, b.isUsed q = (a.isUsed q && !decide (pid = q)) := by
  let b : PidSpace := ⟨a.taken.erase pid, a.capacity, a.used - 1, min a.hint (pid / 64)⟩
  have hisUsed : ∀ q, b.isUsed q = (a.isUsed q && !decide (pid = q)) := by
    intro q
    simp [b, isUsed, Bitmap.contains_erase, Bool.and_assoc]
  refine ⟨b, by simp [release, hne, hused, b], ?_, rfl, hisUsed⟩
  refine ⟨by simpa [b] using ha.words, by simpa [b] using ha.some_word, ?_, fun q hq hqc => ?_, ?_⟩
  · simp [b, Bitmap.contains_erase, ha.reserved, hne]
  · have hne' : pid ≠ q := by
      rintro rfl
      simp [b] at hq
    simp only [b, Bitmap.contains_erase]
    simp only [b, lt_min_iff] at hq
    simp [ha.hint q hq.1 hqc, hne']
  · have hperm : a.toList.Perm (pid :: b.toList) := by
      refine (List.perm_ext_iff_of_nodup (toList_nodup a) ?_).mpr fun q => ?_
      · exact List.nodup_cons.mpr ⟨by simp [mem_toList, hisUsed], toList_nodup b⟩
      · rw [mem_toList, List.mem_cons, mem_toList, hisUsed, Bool.and_eq_true]
        by_cases hq : pid = q
        · subst hq
          simp [hne, hused]
        · simp [hq, Ne.symm hq]
    have hlength := hperm.length_eq
    rw [← ha.used, List.length_cons] at hlength
    simp only [b] at hlength ⊢
    omega

end

end PidSpace

end Uniprocessor
