import Mathlib.Data.Nat.Bitwise
import Mathlib.Tactic
import Uniprocessor.Bitmap

/-!
# Bitmaps as sets of numbers

Membership after each update of a bitmap, and the two searches: `lowest?` finds the least
member and `lowestAbsent?` the least number inside the words that is not a member.
-/

namespace Uniprocessor

namespace Bitmap

lemma div_mod_unique {i j : Nat} : i / 64 = j / 64 ∧ i % 64 = j % 64 ↔ i = j := by
  constructor
  · rintro ⟨hdiv, hmod⟩
    rw [← Nat.div_add_mod i 64, ← Nat.div_add_mod j 64, hdiv, hmod]
  · rintro rfl
    exact ⟨rfl, rfl⟩

lemma testBit_mask (i k : Nat) : (mask i).toNat.testBit k = decide (i % 64 = k) := by
  have hlt : 2 ^ (i % 64) < 2 ^ 64 := Nat.pow_lt_pow_right (by decide) (Nat.mod_lt i (by decide))
  rw [mask, Nat.one_shiftLeft, UInt64.toNat_ofNat_of_lt' hlt, Nat.testBit_two_pow]

lemma testBit_not (w : UInt64) {k : Nat} (hk : k < 64) :
    (~~~ w).toNat.testBit k = !w.toNat.testBit k := by
  have hw : w.toNat < 2 ^ 64 := w.toNat_lt
  have hnot : (~~~ w).toNat = 2 ^ 64 - (w.toNat + 1) := by
    rw [UInt64.toNat_not, UInt64.size]
    omega
  rw [hnot, Nat.testBit_two_pow_sub_succ hw]
  simp [hk]

lemma eq_zero_of_testBit {w : UInt64} (h : ∀ k < 64, w.toNat.testBit k = false) : w = 0 := by
  apply UInt64.toNat_inj.mp
  apply Nat.eq_of_testBit_eq
  intro k
  by_cases hk : k < 64
  · rw [h k hk]
    simp
  · have hlt : w.toNat < 2 ^ k :=
      lt_of_lt_of_le w.toNat_lt (Nat.pow_le_pow_right (by decide) (by omega))
    rw [Nat.testBit_lt_two_pow hlt]
    simp

lemma word_modify (b : Bitmap) (i j : Nat) (f : UInt64 → UInt64) :
    (⟨b.words.modify i f⟩ : Bitmap).word j =
      if i = j ∧ j < b.words.size then f (b.word j) else b.word j := by
  by_cases hj : j < b.words.size
  · by_cases hij : i = j <;> simp [word, Array.getD, hj, hij, Array.getElem_modify]
  · simp [word, Array.getD, hj]

@[simp]
lemma size_insert (b : Bitmap) (i : Nat) : (b.insert i).words.size = b.words.size := by
  simp [insert]

@[simp]
lemma size_erase (b : Bitmap) (i : Nat) : (b.erase i).words.size = b.words.size := by
  simp [erase]

@[simp]
lemma size_clear (words : Nat) : (clear words).words.size = words := by
  simp [clear]

lemma contains_of_size_le {b : Bitmap} {i : Nat} (h : b.words.size ≤ i / 64) :
    b.contains i = false := by
  simp [contains, word, Array.getD, Nat.not_lt.mpr h]

@[simp]
lemma contains_empty (i : Nat) : empty.contains i = false :=
  contains_of_size_le (Nat.zero_le _)

@[simp]
lemma contains_clear (words i : Nat) : (clear words).contains i = false := by
  by_cases h : i / 64 < words <;> simp [contains, word, clear, Array.getD, h]

lemma contains_insert {b : Bitmap} {i : Nat} (hi : i / 64 < b.words.size) (j : Nat) :
    (b.insert i).contains j = (b.contains j || decide (i = j)) := by
  rw [contains, contains, insert, word_modify]
  by_cases hword : i / 64 = j / 64
  · have hbit : i % 64 = j % 64 ↔ i = j :=
      ⟨fun h => div_mod_unique.mp ⟨hword, h⟩, fun h => h ▸ rfl⟩
    simp [hword, hword ▸ hi, testBit_mask, hbit]
  · have hne : i ≠ j := fun h => hword (h ▸ rfl)
    simp [hword, hne]

lemma contains_erase (b : Bitmap) (i j : Nat) :
    (b.erase i).contains j = (b.contains j && !decide (i = j)) := by
  by_cases hj : j / 64 < b.words.size
  · rw [contains, contains, erase, word_modify]
    by_cases hword : i / 64 = j / 64
    · have hbit : i % 64 = j % 64 ↔ i = j :=
        ⟨fun h => div_mod_unique.mp ⟨hword, h⟩, fun h => h ▸ rfl⟩
      rw [if_pos ⟨hword, hj⟩, UInt64.toNat_and, Nat.testBit_and,
        testBit_not _ (Nat.mod_lt j (by decide)), testBit_mask, decide_eq_decide.mpr hbit]
    · have hne : i ≠ j := fun h => hword (h ▸ rfl)
      simp [hword, hne]
  · rw [contains_of_size_le (by simpa using hj), contains_of_size_le (Nat.not_lt.mp hj),
      Bool.false_and]

lemma size_extendTo (b : Bitmap) (i : Nat) :
    (b.extendTo i).words.size = if b.words.size ≤ i / 64 then b.words.size + 1 else b.words.size := by
  unfold extendTo
  split <;> simp

@[simp]
lemma contains_extendTo (b : Bitmap) (i j : Nat) : (b.extendTo i).contains j = b.contains j := by
  unfold extendTo
  split
  · by_cases hj : j / 64 < b.words.size
    · simp [contains, word, Array.getD, hj, Nat.lt_succ_of_lt hj, Array.getElem_push]
    · rw [contains_of_size_le (Nat.not_lt.mp hj)]
      by_cases hlast : j / 64 = b.words.size
      · simp [contains, word, Array.getD, hlast]
      · exact contains_of_size_le (by simp; omega)
  · rfl

/-! ### Searches -/

lemma findWordAmong?_eq_some {b : Bitmap} {p : UInt64 → Bool} {count start k : Nat}
    (h : b.findWordAmong? p count start = some k) :
    start ≤ k ∧ k < start + count ∧ p (b.word k) = true ∧
      ∀ j, start ≤ j → j < k → p (b.word j) = false := by
  induction count generalizing start with
  | zero => simp [findWordAmong?] at h
  | succ count ih =>
    rw [findWordAmong?] at h
    by_cases hp : p (b.word start) = true
    · rw [if_pos hp] at h
      cases h
      exact ⟨le_rfl, by omega, hp, fun j h₁ h₂ => by omega⟩
    · rw [if_neg hp] at h
      obtain ⟨hle, hlt, hk, hbefore⟩ := ih h
      refine ⟨by omega, by omega, hk, fun j h₁ h₂ => ?_⟩
      rcases Nat.eq_or_lt_of_le h₁ with rfl | h₁
      · simpa using hp
      · exact hbefore j h₁ h₂

lemma findWordAmong?_eq_none {b : Bitmap} {p : UInt64 → Bool} {count start : Nat}
    (h : b.findWordAmong? p count start = none) :
    ∀ j, start ≤ j → j < start + count → p (b.word j) = false := by
  induction count generalizing start with
  | zero => intro j h₁ h₂; omega
  | succ count ih =>
    rw [findWordAmong?] at h
    by_cases hp : p (b.word start) = true
    · simp [hp] at h
    · rw [if_neg hp] at h
      intro j h₁ h₂
      rcases Nat.eq_or_lt_of_le h₁ with rfl | h₁
      · simpa using hp
      · exact ih h j h₁ (by omega)

lemma lowestBit?_eq_some {w : UInt64} {k : Nat} (h : lowestBit? w = some k) :
    k < 64 ∧ w.toNat.testBit k = true ∧ ∀ j < k, w.toNat.testBit j = false := by
  rw [lowestBit?, List.find?_range_eq_some] at h
  obtain ⟨hk, hmem, hbefore⟩ := h
  exact ⟨List.mem_range.mp hmem, hk, by simpa using hbefore⟩

lemma lowestBit?_eq_none {w : UInt64} (h : lowestBit? w = none) : w = 0 := by
  rw [lowestBit?, List.find?_eq_none] at h
  exact eq_zero_of_testBit fun k hk => by simpa using h k (List.mem_range.mpr hk)

/-- A word that has no set bit is zero, so skipping zero words loses no member. -/
lemma contains_eq_false_of_word {b : Bitmap} {i : Nat} (h : b.word (i / 64) = 0) :
    b.contains i = false := by
  simp [contains, h]

theorem lowest?_eq_some {b : Bitmap} {i : Nat} (h : b.lowest? = some i) :
    b.contains i = true ∧ ∀ j < i, b.contains j = false := by
  simp only [lowest?, findWord?, Option.bind_eq_bind, Option.bind_eq_some_iff,
    Option.pure_def, Option.some.injEq] at h
  obtain ⟨k, hk, bit, hbit, rfl⟩ := h
  obtain ⟨-, -, -, hbefore⟩ := findWordAmong?_eq_some hk
  obtain ⟨hlt, hset, hlow⟩ := lowestBit?_eq_some hbit
  have hdiv : (64 * k + bit) / 64 = k := by omega
  have hmod : (64 * k + bit) % 64 = bit := by omega
  refine ⟨by rw [contains, hdiv, hmod, hset], fun j hj => ?_⟩
  by_cases hjk : j / 64 = k
  · rw [contains, hjk]
    exact hlow _ (by omega)
  · have hzero := hbefore (j / 64) (Nat.zero_le _) (by omega)
    exact contains_eq_false_of_word (by simpa using hzero)

theorem lowest?_eq_none {b : Bitmap} (h : b.lowest? = none) (i : Nat) : b.contains i = false := by
  by_cases hi : i / 64 < b.words.size
  · apply contains_eq_false_of_word
    cases hk : b.findWord? (· != 0) 0 with
    | none =>
      have hzero := findWordAmong?_eq_none hk (i / 64) (Nat.zero_le _) (by simpa using hi)
      simpa using hzero
    | some k =>
      obtain ⟨-, -, hne, -⟩ := findWordAmong?_eq_some hk
      simp only [lowest?, hk, Option.bind_eq_bind, Option.bind_some, Option.bind_eq_none_iff] at h
      cases hbit : lowestBit? (b.word k) with
      | none => simp [lowestBit?_eq_none hbit] at hne
      | some bit => simpa using h bit hbit
  · exact contains_of_size_le (Nat.not_lt.mp hi)

lemma contains_of_full_word {b : Bitmap} {i : Nat} (h : ~~~ b.word (i / 64) = 0) :
    b.contains i = true := by
  have hbit := testBit_not (b.word (i / 64)) (Nat.mod_lt i (by decide : 64 > 0))
  rw [h] at hbit
  simpa [contains] using hbit.symm

theorem lowestAbsent?_eq_some {b : Bitmap} {start i : Nat} (h : b.lowestAbsent? start = some i) :
    i / 64 < b.words.size ∧ start ≤ i / 64 ∧ b.contains i = false ∧
      ∀ j < i, start ≤ j / 64 → b.contains j = true := by
  simp only [lowestAbsent?, findWord?, Option.bind_eq_bind, Option.bind_eq_some_iff,
    Option.pure_def, Option.some.injEq] at h
  obtain ⟨k, hk, bit, hbit, rfl⟩ := h
  obtain ⟨hstart, hsize, -, hbefore⟩ := findWordAmong?_eq_some hk
  obtain ⟨hlt, hset, hlow⟩ := lowestBit?_eq_some hbit
  rw [testBit_not _ hlt] at hset
  have hdiv : (64 * k + bit) / 64 = k := by omega
  have hmod : (64 * k + bit) % 64 = bit := by omega
  refine ⟨by omega, by omega, by rw [contains, hdiv, hmod]; simpa using hset, fun j hj hjs => ?_⟩
  by_cases hjk : j / 64 = k
  · have hclear := hlow (j % 64) (by omega)
    rw [testBit_not _ (Nat.mod_lt j (by decide))] at hclear
    rw [contains, hjk]
    simpa using hclear
  · have hzero := hbefore (j / 64) hjs (by omega)
    exact contains_of_full_word (by simpa using hzero)

theorem lowestAbsent?_eq_none {b : Bitmap} {start : Nat} (h : b.lowestAbsent? start = none)
    {i : Nat} (hstart : start ≤ i / 64) (hi : i / 64 < b.words.size) : b.contains i = true := by
  apply contains_of_full_word
  cases hk : b.findWord? (~~~ · != 0) start with
  | none =>
    have hzero := findWordAmong?_eq_none hk (i / 64) hstart (by omega)
    simpa using hzero
  | some k =>
    obtain ⟨-, -, hne, -⟩ := findWordAmong?_eq_some hk
    simp only [lowestAbsent?, hk, Option.bind_eq_bind, Option.bind_some,
      Option.bind_eq_none_iff] at h
    cases hbit : lowestBit? (~~~ b.word k) with
    | none => simp [lowestBit?_eq_none hbit] at hne
    | some bit => simpa using h bit hbit

end Bitmap

end Uniprocessor
