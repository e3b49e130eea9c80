import Uniprocessor.Proofs.Attempts

/-!
# Giving memory to processes

An attempt to give memory to a created process either equips it, and it waits for its turn, or
leaves everything as it was, except that a space the process already had may have moved. Where the
attempt ends before its goal, no space stays in hand.
-/

namespace Uniprocessor

open Uniprocessor.Action Relation

namespace View

variable {μ space : Type}

variable {memory : MemoryService μ space} {outside : μ → μ → Prop} {start : μ}
  {v w : View μ space} {calls : List (MemoryCall space)} {pid : Pid} {p : ProcessView space}
  {handle : space}

/-! ### Accounts of an attempt -/

lemma spaceOf_taken_ne {q : Nat} (hq : q ≠ pid) (m : μ) : (v.taken pid m).spaceOf q = v.spaceOf q :=
  spaceOf_update_ne _ hq _

lemma spaces_of_own {own : space} (hp : v.table[pid]? = some p) (hspace : p.space = some own) (m : μ) :
    v.spaces = own ::ₘ (v.taken pid m).spaces :=
  spaces_eq_cons ((spaceOf_eq hp).trans hspace) (spaceOf_eq (get?_taken hp m))
    fun _ hq => spaceOf_taken_ne hq m

lemma spaces_of_none (hp : v.table[pid]? = some p) (hspace : p.space = none) (m : μ) :
    (v.taken pid m).spaces = v.spaces := by
  rw [taken_of_none hp hspace]
  rfl

/-- A space that an attempt works with is in hand, and the others are what they were. -/
lemma Source.accounts {c : List (MemoryCall space)} {m : μ}
    (hsource : Source memory v calls p (.ok handle) c m) (hp : v.table[pid]? = some p)
    (h : Traffic memory outside start calls v.memory v.spaces) :
    Traffic memory outside start c m (handle ::ₘ (v.taken pid m).spaces) ∧
      (SteadyRoots memory outside start →
        ∀ g ∈ (v.taken pid m).spaces, memory.root m g = memory.root v.memory g) := by
  cases hsource with
  | own hspace =>
    rw [spaces_of_own hp hspace v.memory] at h
    exact ⟨h, fun _ _ _ => rfl⟩
  | @inherited _ _ answer _ _ hspace _ hheld hclone hresult =>
    rw [spaces_of_none hp hspace]
    cases answer with
    | error e => cases hresult
    | ok copy =>
      cases hresult
      exact ⟨h.cloned (mem_spaces hheld) hclone,
        fun hsteady => hsteady.clone_root h (mem_spaces hheld) hclone⟩
  | @created answer _ _ hspace _ hcreate hresult =>
    rw [spaces_of_none hp hspace]
    cases answer with
    | error e => cases hresult
    | ok new =>
      cases hresult
      exact ⟨h.created hcreate, fun hsteady => hsteady.create_root h hcreate⟩

/-- Without a space in hand, all are what they were. -/
lemma Source.accounts_error {e : Refusal} {c : List (MemoryCall space)} {m : μ}
    (hsource : Source memory v calls p (.error e) c m)
    (h : Traffic memory outside start calls v.memory v.spaces) :
    Traffic memory outside start c m v.spaces ∧
      (SteadyRoots memory outside start →
        ∀ g ∈ v.spaces, memory.root m g = memory.root v.memory g) := by
  cases hsource with
  | @inherited _ _ answer _ _ hspace _ hheld hclone hresult =>
    cases answer with
    | ok copy => cases hresult
    | error e =>
      exact ⟨h.notCloned (mem_spaces hheld) hclone,
        fun hsteady => hsteady.clone_root h (mem_spaces hheld) hclone⟩
  | barren => exact ⟨h, fun _ _ _ => rfl⟩
  | @created answer _ _ hspace _ hcreate hresult =>
    cases answer with
    | ok new => cases hresult
    | error e => exact ⟨h.notCreated hcreate, fun hsteady => hsteady.create_root h hcreate⟩

/-- The space in hand is worked on, and the others are what they were. -/
lemma Stacks.accounts {c : List (MemoryCall space)} {m m' : μ} {handle' : space}
    {held : Multiset space} {bases : Option (UInt64 × UInt64)}
    (hstacks : Stacks memory m calls handle bases c handle' m')
    (h : Traffic memory outside start calls m (handle ::ₘ held)) :
    Traffic memory outside start c m' (handle' ::ₘ held) ∧
      (SteadyRoots memory outside start → ∀ g ∈ held, memory.root m' g = memory.root m g) := by
  cases hstacks with
  | refused hfirst => exact ⟨h.mapped hfirst, fun hsteady => hsteady.mapPages_root h hfirst⟩
  | undone hfirst hsecond hundo =>
    have h₁ := h.mapped hfirst
    have h₂ := h₁.mapped hsecond
    refine ⟨h₂.unmapped hundo, fun hsteady g hg => ?_⟩
    rw [hsteady.unmapPages_root h₂ hundo g hg, hsteady.mapPages_root h₁ hsecond g hg,
      hsteady.mapPages_root h hfirst g hg]
  | mapped hfirst hsecond =>
    have h₁ := h.mapped hfirst
    refine ⟨h₁.mapped hsecond, fun hsteady g hg => ?_⟩
    rw [hsteady.mapPages_root h₁ hsecond g hg, hsteady.mapPages_root h hfirst g hg]

/-- An attempt keeps the accounts in order, and the roots of the spaces of all other processes. -/
theorem Attempt.accounts {result : Except Refusal Unit} {c : List (MemoryCall space)}
    (hattempt : Attempt memory v calls pid result c w)
    (h : Traffic memory outside start calls v.memory v.spaces) :
    Traffic memory outside start c w.memory w.spaces ∧
      (SteadyRoots memory outside start → ∀ q : Nat, q ≠ pid → ∀ g, v.spaceOf q = some g →
        memory.root w.memory g = memory.root v.memory g) := by
  have hothers : ∀ (m : μ) {m' : μ} {q : Nat}, q ≠ pid → ∀ {g}, v.spaceOf q = some g →
      (∀ g ∈ (v.taken pid m).spaces, memory.root m' g = memory.root v.memory g) →
      memory.root m' g = memory.root v.memory g :=
    fun m _ _ hq _ hg h => h _ (mem_spaces ((spaceOf_taken_ne hq m).trans hg))
  cases hattempt with
  | unknown | late => exact ⟨h, fun _ _ _ _ _ => rfl⟩
  | spaceless hp hstate hsource =>
    obtain ⟨htraffic, hroots⟩ := hsource.accounts_error h
    exact ⟨htraffic, fun hsteady q _ g hg => hroots hsteady g (mem_spaces hg)⟩
  | @kept p own c handle m hp hstate hspace hstacks =>
    rw [spaces_of_own hp hspace v.memory] at h
    obtain ⟨htraffic, hroots⟩ := hstacks.accounts h
    refine ⟨?_, fun hsteady q hq g hg => hothers v.memory hq hg (hroots hsteady)⟩
    have hspaces : ({ v with memory := m }.update pid ({ · with space := some handle })).spaces =
        handle ::ₘ (v.taken pid v.memory).spaces :=
      spaces_eq_cons (spaceOf_update_self (v := { v with memory := m }) hp _)
        (spaceOf_eq (get?_taken hp v.memory)) fun q hq =>
          (spaceOf_taken_ne hq v.memory).trans (spaceOf_update_ne _ hq _).symm
    rw [hspaces]
    exact htraffic
  | @dropped p handle c m c' handle' m' hp hstate hspace hsource hstacks =>
    obtain ⟨hsourced, hroots⟩ := hsource.accounts hp h
    obtain ⟨htraffic, hroots'⟩ := hstacks.accounts hsourced
    refine ⟨?_, fun hsteady q hq g hg => hothers m hq hg fun g hg => ?_⟩
    · rw [spaces_of_none hp hspace] at htraffic
      exact htraffic.destroyed
    · rw [hsteady.destroy_root htraffic g hg, hroots' hsteady g hg, hroots hsteady g hg]
  | @equipped p handle c m userStack kernelStack c' handle' m' hp hstate hsource hstacks =>
    obtain ⟨hsourced, hroots⟩ := hsource.accounts hp h
    obtain ⟨htraffic, hroots'⟩ := hstacks.accounts hsourced
    refine ⟨?_, fun hsteady q hq g hg => hothers m hq hg fun g hg => ?_⟩
    · have hspaces : ({ v with memory := m' }.update pid (·.equipped handle'
          (memory.root m' handle') userStack kernelStack)).spaces = handle' ::ₘ (v.taken pid m).spaces :=
        spaces_eq_cons (spaceOf_update_self (v := { v with memory := m' }) hp _)
          (spaceOf_eq (get?_taken hp m)) fun q hq =>
            (spaceOf_taken_ne hq m).trans (spaceOf_update_ne _ hq _).symm
      rw [hspaces]
      exact htraffic.root (Multiset.mem_cons_self _ _)
    · exact (hroots' hsteady g hg).trans (hroots hsteady g hg)

lemma Accounts.of_attempt {v' w' : View μ space} {result : Except Refusal Unit}
    {c : List (MemoryCall space)} (h : Accounts memory outside start 0 v calls w)
    (hattempt : Attempt memory w calls pid result c w') (hsame : w' = { v' with memory := w'.memory }) :
    Accounts memory outside start 0 v' c w' where
  same := hsame
  traffic := by
    have hspaces : w'.spaces = v'.spaces := by
      rw [hsame]
      rfl
    rw [Multiset.zero_add, ← hspaces]
    exact (hattempt.accounts h.settled).1

/-- A successful attempt, as the accounts see it. -/
lemma Accounts.given {c : List (MemoryCall space)} {w' : View μ space}
    (h : Accounts memory outside start 0 v calls w)
    (hattempt : Attempt memory w calls pid (.ok ()) c w') :
    ∃ v', v.Equipped pid v' ∧ Accounts memory outside start 0 v' c w' := by
  have hequipped := hattempt
  rw [h.same] at hequipped
  obtain ⟨v', hv', hsame⟩ := hequipped.equipped_of_ok
  exact ⟨v', hv', h.of_attempt hattempt hsame⟩

/-- A failed attempt, as the accounts see it. -/
lemma Accounts.declined {c : List (MemoryCall space)} {w' : View μ space} {e : Refusal}
    (h : Accounts memory outside start 0 v calls w)
    (hattempt : Attempt memory w calls pid (.error e) c w') :
    ∃ v', v.Returned pid v' ∧ Accounts memory outside start 0 v' c w' := by
  have hreturned := hattempt
  rw [h.same] at hreturned
  obtain ⟨v', hv', hsame⟩ := hreturned.returned_of_error
  exact ⟨v', hv', h.of_attempt hattempt hsame⟩

theorem ensures_materialize (hlawful : v.Lawful) (h : Accounts memory outside start 0 v calls w)
    (pid : Pid) :
    (materialize memory pid).Ensures calls w
      (fun _ c w => ∃ v', v.Equipped pid v' ∧ Accounts memory outside start 0 v' c w)
      fun _ c w => ∃ v', v.Returned pid v' ∧ Accounts memory outside start 0 v' c w :=
  (ensures_materialize_attempt (h.lawful hlawful) pid).mono (fun _ _ _ => h.given)
    fun _ _ _ ⟨_, _, hattempt⟩ => h.declined hattempt

end View

end Uniprocessor
