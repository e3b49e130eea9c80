import Mathlib.Data.List.Basic
import Uniprocessor.Interrupts

/-!
# Critical sections

Critical sections are entered at any time and left in any order. Every interrupt that was enabled
at the start is accounted for: the flag still has it, or exactly one section under way has it to
restore. While sections nest, only the outermost one restores, and interrupts stay masked inside.
-/

namespace Uniprocessor

namespace InterruptFlag

/-- How many of the sections restore what they found enabled. -/
def restoring (guards : List CriticalSection) : Nat := guards.countP (·.restore)

/-- A flag with the critical sections that were entered through it. -/
structure Sections where
  flag : InterruptFlag
  /-- The sections under way, the one entered last first. -/
  live : List CriticalSection
  /-- All sections that were ever entered. -/
  entered : List CriticalSection

namespace Sections

/-- Before any section. -/
def ofFlag (f : InterruptFlag) : Sections := ⟨f, [], []⟩

/-- Enters one more section. -/
def enter (s : Sections) : Sections :=
  ⟨s.flag.enter.2, s.flag.enter.1 :: s.live, s.flag.enter.1 :: s.entered⟩

/-- What becomes of a flag and its sections when sections are entered and left, in any order or,
when `nested`, always the one entered last. A body that is run with interrupts masked is itself free
to enter and to leave sections, except for the one that masks them. -/
inductive Passes (nested : Bool) : Sections → Sections → Prop
  | refl (s : Sections) : Passes nested s s
  | enter {s t : Sections} : Passes nested s t → Passes nested s t.enter
  | leave {s t : Sections} {front back : List CriticalSection} {guard : CriticalSection} :
      Passes nested s t → t.live = front ++ guard :: back → (nested = true → front = []) →
      Passes nested s ⟨t.flag.leave guard, front ++ back, t.entered⟩
  | masked {s t u : Sections} {front back : List CriticalSection} {α : Type}
      {body : InterruptFlag → α × InterruptFlag} :
      Passes nested s t → Passes nested t.enter u → (body t.enter.flag).2 = u.flag →
      u.live = front ++ t.flag.enter.1 :: back → (nested = true → front = []) →
      Passes nested s ⟨(t.flag.masked body).2, front ++ back, u.entered⟩

/-- How the flag stands to the sections under way, seen from the start. -/
structure Governs (nested : Bool) (start : InterruptFlag) (s : Sections) : Prop where
  restoring_le_one : restoring s.live ≤ 1
  enabled_iff : s.flag.enabled = true ↔
    start.enabled = true ∧ ∀ guard ∈ s.live, guard.restore = false
  disables : s.flag.disables = start.disables + restoring s.entered
  settled : s.live = [] → s.flag.enabled = start.enabled
  masked : nested = true → s.live ≠ [] → s.flag.enabled = false

variable {nested : Bool} {start : InterruptFlag} {s t : Sections} {front back : List CriticalSection}
  {guard : CriticalSection}

/-! ### One section -/

lemma restoring_cons (guard : CriticalSection) (guards : List CriticalSection) :
    restoring (guard :: guards) = restoring guards + guard.restore.toNat := by
  unfold restoring
  rw [List.countP_cons]
  cases guard.restore <;> rfl

lemma restoring_append (front back : List CriticalSection) :
    restoring (front ++ back) = restoring front + restoring back := List.countP_append

lemma restoring_eq_zero_iff {guards : List CriticalSection} :
    restoring guards = 0 ↔ ∀ guard ∈ guards, guard.restore = false := by
  unfold restoring
  rw [List.countP_eq_zero]
  simp only [Bool.not_eq_true]

lemma enabled_enter (f : InterruptFlag) : f.enter.2.enabled = false := by
  unfold InterruptFlag.enter
  cases henabled : f.enabled
  · exact henabled
  · rfl

lemma disables_enter (f : InterruptFlag) :
    f.enter.2.disables = f.disables + f.enter.1.restore.toNat := by
  unfold InterruptFlag.enter
  cases henabled : f.enabled
  · rfl
  · simp [disable, henabled]

lemma enabled_leave (f : InterruptFlag) (guard : CriticalSection) :
    (f.leave guard).enabled = (guard.restore || f.enabled) := by
  unfold InterruptFlag.leave
  cases guard.restore <;> rfl

lemma disables_leave (f : InterruptFlag) (guard : CriticalSection) :
    (f.leave guard).disables = f.disables := by
  unfold InterruptFlag.leave
  split <;> rfl

/-! ### Sections in any order -/

/-- What was enabled at the start is enabled, or is for one section to restore. -/
structure Balanced (start : InterruptFlag) (s : Sections) : Prop where
  balance : restoring s.live + s.flag.enabled.toNat = start.enabled.toNat
  disables : s.flag.disables = start.disables + restoring s.entered

lemma balanced_ofFlag (start : InterruptFlag) : Balanced start (ofFlag start) where
  balance := Nat.zero_add _
  disables := rfl

/-- A section takes over what it finds enabled. -/
lemma Balanced.enter (h : Balanced start s) : Balanced start s.enter where
  balance := by
    have hbalance := h.balance
    have htaken : s.flag.enter.1.restore = s.flag.enabled := rfl
    unfold Sections.enter
    rw [restoring_cons, enabled_enter, htaken, Bool.toNat_false]
    omega
  disables := by
    have hdisables := h.disables
    unfold Sections.enter
    rw [disables_enter, restoring_cons]
    omega

/-- A section gives back what it took over. If that is something, then nothing is enabled before,
since at the start there was no more than one thing to take. -/
lemma Balanced.leave (h : Balanced start s) (hlive : s.live = front ++ guard :: back) :
    Balanced start ⟨s.flag.leave guard, front ++ back, s.entered⟩ where
  balance := by
    have hbalance := h.balance
    have hle := start.enabled.toNat_le
    rw [hlive, restoring_append, restoring_cons] at hbalance
    rw [enabled_leave, restoring_append]
    cases hrestore : guard.restore
    · rw [hrestore, Bool.toNat_false] at hbalance
      rw [Bool.false_or]
      omega
    · rw [hrestore, Bool.toNat_true] at hbalance
      rw [Bool.true_or, Bool.toNat_true]
      omega
  disables := by
    rw [disables_leave]
    exact h.disables

lemma Passes.balanced (h : Passes nested s t) (hs : Balanced start s) : Balanced start t := by
  induction h with
  | refl => exact hs
  | enter _ ih => exact (ih hs).enter
  | leave _ hlive _ ih => exact (ih hs).leave hlive
  | masked _ _ hbody hlive _ iht ihu =>
    have hleft := (ihu (iht hs).enter).leave hlive
    rwa [← hbody] at hleft

lemma Balanced.enabled_iff (h : Balanced start s) :
    s.flag.enabled = true ↔ start.enabled = true ∧ ∀ guard ∈ s.live, guard.restore = false := by
  have hbalance := h.balance
  rw [← restoring_eq_zero_iff]
  cases hflag : s.flag.enabled
  · cases hstart : start.enabled
    · simp
    · simp only [hflag, hstart, Bool.toNat_false, Bool.toNat_true] at hbalance
      simp
      omega
  · cases hstart : start.enabled
    · simp only [hflag, hstart, Bool.toNat_false, Bool.toNat_true] at hbalance
      omega
    · simp only [hflag, hstart, Bool.toNat_true] at hbalance
      simp
      omega

/-! ### Nested sections -/

/-- Of nested sections only the outermost restores, and all of them run with interrupts masked. -/
structure Nested (s : Sections) : Prop where
  masked : s.live ≠ [] → s.flag.enabled = false
  outermost : s.live.Pairwise fun inner _ => inner.restore = false

lemma nested_ofFlag (start : InterruptFlag) : Nested (ofFlag start) where
  masked hlive := absurd rfl hlive
  outermost := .nil

lemma Nested.enter (h : Nested s) : Nested s.enter where
  masked _ := enabled_enter s.flag
  outermost := by
    apply List.Pairwise.cons
    · intro outer houter
      exact h.masked (List.ne_nil_of_mem houter)
    · exact h.outermost

/-- Behind the innermost section interrupts are masked still: there is an outer one, so the innermost
does not restore. -/
lemma Nested.leave (h : Nested s) (hlive : s.live = guard :: back) :
    Nested ⟨s.flag.leave guard, back, s.entered⟩ := by
  have houtermost := h.outermost
  rw [hlive, List.pairwise_cons] at houtermost
  constructor
  · intro hback
    obtain ⟨outer, houter⟩ := List.exists_mem_of_ne_nil back hback
    have hmasked : s.flag.enabled = false := by
      apply h.masked
      simp [hlive]
    rw [enabled_leave, houtermost.1 outer houter, hmasked, Bool.or_false]
  · exact houtermost.2

lemma Passes.keeps_nested (h : Passes true s t) (hs : Nested s) : Nested t := by
  induction h with
  | refl => exact hs
  | enter _ ih => exact (ih hs).enter
  | leave _ hlive hinner ih =>
    rw [hinner rfl] at hlive ⊢
    exact (ih hs).leave hlive
  | masked _ _ hbody hlive hinner iht ihu =>
    rw [hinner rfl] at hlive ⊢
    have hleft := (ihu (iht hs).enter).leave hlive
    rwa [← hbody] at hleft

/-! ### All of it -/

/-- Whatever sections are entered and left, interrupts are as at the start, but for the one section
that has them to restore; while sections nest, they are masked inside. -/
theorem Passes.governs (h : Passes nested (ofFlag start) s) : Governs nested start s := by
  have hbalanced := h.balanced (balanced_ofFlag start)
  have hbalance := hbalanced.balance
  have hle := start.enabled.toNat_le
  constructor
  · omega
  · exact hbalanced.enabled_iff
  · exact hbalanced.disables
  · intro hlive
    rw [Bool.eq_iff_iff, hbalanced.enabled_iff, hlive]
    simp
  · rintro rfl
    exact (h.keeps_nested (nested_ofFlag start)).masked

/-- The outer of two sections is left first: the inner one goes on with interrupts enabled, and leaves
them so. Inside a section, a masked body that enters one more and leaves it leaves them masked. -/
theorem governs_of_overlapping :
    (∃ s, Passes false (ofFlag initial) s ∧ Governs false initial s ∧ s.live = [⟨false⟩] ∧
      s.flag = ⟨true, 1⟩) ∧
    ∃ s, Passes true (ofFlag initial) s ∧ Governs true initial s ∧ s.live = [⟨true⟩] ∧
      s.flag = ⟨false, 1⟩ := by
  have hinside : ∀ nested, Passes nested (ofFlag initial) (ofFlag initial).enter :=
    fun nested => .enter (.refl _)
  have houter := @Passes.leave false _ _ [⟨false⟩] [] ⟨true⟩ (hinside false).enter rfl (by simp)
  have hagain := (@Passes.refl true (ofFlag initial).enter.enter).enter
  have hbody := @Passes.leave true _ _ [] _ ⟨false⟩ hagain rfl (by simp)
  have hmasked := @Passes.masked true _ _ _ [] _ _ (fun f => f.masked fun g => ((), g)) (hinside true) hbody
    rfl rfl (by simp)
  exact ⟨⟨_, houter, houter.governs, rfl, rfl⟩, _, hmasked, hmasked.governs, rfl, rfl⟩

end Sections

end InterruptFlag

end Uniprocessor
