import Uniprocessor.Proofs.Holdings

/-!
# Lawful views

A view is lawful when its processes form a forest, exactly the process it names as running is in
the running state, and whoever takes part in scheduling has an address space. All changes that the
commands are made of keep a view lawful.
-/

namespace Uniprocessor

open Relation

lemma ProcessState.isActive_of_canBecome {before after : ProcessState}
    (h : before.canBecome after = true) (hactive : after.isActive = true) :
    before.isActive = true ∨ before = .created ∧ after = .waiting := by
  cases before <;> cases after <;> simp_all [canBecome, isActive]

/-- Whoever comes to take part in scheduling has an address space. -/
lemma ProcessView.space_of_canEnter {space : Type} {p : ProcessView space} {state : ProcessState}
    (hcan : p.canEnter state = true) (hactive : state.isActive = true)
    (hbacked : p.state.isActive = true → p.space.isSome = true) : p.space.isSome = true := by
  rw [canEnter, Bool.and_eq_true] at hcan
  rcases ProcessState.isActive_of_canBecome hcan.1 hactive with hbefore | ⟨hcreated, rfl⟩
  · exact hbacked hbefore
  · have hmaterialized : p.isMaterialized = true := by simpa [hcreated] using hcan.2
    rw [isMaterialized, Bool.and_eq_true, Bool.and_eq_true] at hmaterialized
    exact hmaterialized.1.1

namespace View

variable {μ space : Type} {v w : View μ space}

/-- What holds of a view between any two commands. -/
structure Lawful (v : View μ space) : Prop where
  forest : v.Forest
  runner : ∀ (pid : Nat) (p : ProcessView space), v.table[pid]? = some p →
    (p.state = .running ↔ v.running = some pid)
  live : ∀ pid : Nat, v.running = some pid → ∃ p, v.table[pid]? = some p
  backed : ∀ (pid : Nat) (p : ProcessView space), v.table[pid]? = some p →
    p.state.isActive = true → p.space.isSome = true

/-- Every live process has an identifier that can be asked for. -/
def InRange (v : View μ space) : Prop :=
  ∀ (pid : Nat) (p : ProcessView space), v.table[pid]? = some p →
    pid ≠ reservedPid ∧ pid < v.limits.pids

lemma InRange.check (h : v.InRange) {pid : Nat} {p : ProcessView space} (hp : v.table[pid]? = some p) :
    v.check pid = .ok () := by
  obtain ⟨hne, hlt⟩ := h pid p hp
  rw [View.check, if_neg, if_pos]
  · rw [get?_iff_mem, hp]
    rfl
  · rintro (heq | hle)
    · exact hne heq
    · exact absurd hlt (Nat.not_lt.mpr hle)

/-! ### Who runs after a change of state -/

lemma get?_vacate (v : View μ space) (pid q : Nat) :
    (v.vacate pid).table[q]? =
      if v.running = some q ∧ q ≠ pid then
        v.table[q]?.map fun p => ({ p with context := v.active } : ProcessView space).enter .waiting
      else v.table[q]? := by
  rw [vacate]
  cases v.running with
  | none => simp
  | some runner =>
    by_cases hrunner : runner = pid
    · simp only [if_pos hrunner]
      rw [if_neg]
      rintro ⟨heq, hq⟩
      cases heq
      exact hq hrunner
    · simp only [if_neg hrunner, get?_update]
      by_cases hq : q = runner
      · rw [if_pos hq, if_pos ⟨by rw [hq], by rw [hq]; exact hrunner⟩, hq]
      · rw [if_neg hq, if_neg]
        rintro ⟨heq, -⟩
        cases heq
        exact hq rfl

/-- A process that does not run is put on the processor. -/
lemma dispatch_eq {pid : Nat} {p : ProcessView space} (hp : v.table[pid]? = some p) :
    v.dispatch pid = { v.vacate pid with active := p.context, running := some pid } := by
  have hvacate : (v.vacate pid).table[pid]? = some p := by
    rw [get?_vacate, if_neg (by simp), hp]
  rw [dispatch, hvacate]

lemma get?_suspend (v : View μ space) (pid q : Nat) :
    (v.suspend pid).table[q]? =
      if v.running = some q ∧ q = pid then
        v.table[q]?.map fun p => { p with context := v.active }
      else v.table[q]? := by
  rw [suspend]
  by_cases hrunning : v.running = some pid
  · rw [if_pos hrunning]
    by_cases hq : q = pid
    · rw [if_pos ⟨by rw [hq, hrunning], hq⟩]
      subst hq
      exact (get?_update v q q _).trans (if_pos rfl)
    · rw [if_neg fun h => hq h.2]
      exact (get?_update v pid q _).trans (if_neg hq)
  · rw [if_neg hrunning, if_neg]
    rintro ⟨heq, hq⟩
    exact hrunning (hq ▸ heq)

lemma suspend_running (v : View μ space) (pid : Nat) :
    (v.suspend pid).running = if v.running = some pid then none else v.running := by
  rw [suspend]
  split <;> rfl

lemma enter_running {pid : Nat} {p : ProcessView space} (hp : v.table[pid]? = some p)
    (state : ProcessState) :
    (v.enter pid state).running =
      if state = .running then some pid
      else if v.running = some pid then none else v.running := by
  rw [enter]
  split
  · rw [dispatch_eq hp]
    rfl
  · exact suspend_running v pid

lemma enter_active {pid : Nat} {p : ProcessView space} (hp : v.table[pid]? = some p)
    (state : ProcessState) :
    (v.enter pid state).active = if state = .running then p.context else v.active := by
  rw [enter]
  split
  · rw [dispatch_eq hp]
    rfl
  · rw [suspend]
    split <;> rfl

lemma enter_limits {pid : Nat} {p : ProcessView space} (hp : v.table[pid]? = some p)
    (state : ProcessState) : (v.enter pid state).limits = v.limits := by
  rw [enter]
  split
  · rw [dispatch_eq hp, vacate]
    repeat' split
    all_goals rfl
  · rw [suspend]
    split <;> rfl

/-- What becomes of a process `q` when `pid` changes its state. -/
def afterEntry (v : View μ space) (pid : Pid) (state : ProcessState) (q : Pid)
    (p : ProcessView space) : ProcessView space :=
  if q = pid then
    (if state ≠ .running ∧ v.running = some pid then { p with context := v.active } else p).enter
      state
  else if state = .running ∧ v.running = some q then
    ({ p with context := v.active } : ProcessView space).enter .waiting
  else p

lemma get?_enter {pid : Nat} {p : ProcessView space} (hp : v.table[pid]? = some p)
    (state : ProcessState) (q : Nat) :
    (v.enter pid state).table[q]? = v.table[q]?.map (v.afterEntry pid state q) := by
  rw [enter, get?_update]
  by_cases hstate : state = .running
  · rw [if_pos hstate, dispatch_eq hp]
    by_cases hq : q = pid
    · rw [if_pos hq, hq, get?_vacate, if_neg (by simp), hp]
      simp [afterEntry, hstate]
    · rw [if_neg hq, get?_vacate]
      by_cases hrunning : v.running = some q
      · rw [if_pos ⟨hrunning, hq⟩]
        cases v.table[q]? with
        | none => rfl
        | some r => simp [afterEntry, hq, hstate, hrunning]
      · rw [if_neg fun h => hrunning h.1]
        cases v.table[q]? with
        | none => rfl
        | some r => simp [afterEntry, hq, hrunning]
  · rw [if_neg hstate]
    by_cases hq : q = pid
    · rw [if_pos hq, hq, get?_suspend, hp]
      by_cases hrunning : v.running = some pid
      · simp [afterEntry, hstate, hrunning]
      · simp [afterEntry, hstate, hrunning]
    · rw [if_neg hq, get?_suspend, if_neg fun h => hq h.2]
      cases v.table[q]? with
      | none => rfl
      | some r => simp [afterEntry, hq, hstate]

lemma afterEntry_parent (v : View μ space) (pid : Pid) (state : ProcessState) (q : Pid)
    (p : ProcessView space) : (v.afterEntry pid state q p).parent = p.parent := by
  unfold afterEntry
  repeat' split
  all_goals rfl

lemma afterEntry_children (v : View μ space) (pid : Pid) (state : ProcessState) (q : Pid)
    (p : ProcessView space) : (v.afterEntry pid state q p).children = p.children := by
  unfold afterEntry
  repeat' split
  all_goals rfl

lemma afterEntry_space (v : View μ space) (pid : Pid) (state : ProcessState) (q : Pid)
    (p : ProcessView space) : (v.afterEntry pid state q p).space = p.space := by
  unfold afterEntry
  repeat' split
  all_goals rfl

lemma afterEntry_state (v : View μ space) (pid : Pid) (state : ProcessState) (q : Pid)
    (p : ProcessView space) :
    (v.afterEntry pid state q p).state =
      if q = pid then state
      else if state = .running ∧ v.running = some q then .waiting else p.state := by
  unfold afterEntry
  repeat' split
  all_goals rfl

lemma spaceOf_enter {pid : Nat} {p : ProcessView space} (hp : v.table[pid]? = some p)
    (state : ProcessState) (q : Nat) : (v.enter pid state).spaceOf q = v.spaceOf q := by
  rw [spaceOf, get?_enter hp, spaceOf]
  cases v.table[q]? with
  | none => rfl
  | some r => simp [afterEntry_space]

/-- A change of state has nothing to do with the memory. -/
lemma enter_withMemory (v : View μ space) (memory : μ) (pid : Pid) (state : ProcessState) :
    ({ v with memory := memory } : View μ space).enter pid state =
      { v.enter pid state with memory := memory } := by
  have hvacate : ({ v with memory := memory } : View μ space).vacate pid =
      { v.vacate pid with memory := memory } := by
    unfold vacate
    dsimp only
    repeat' split
    all_goals rfl
  unfold enter
  by_cases hstate : state = .running
  · rw [if_pos hstate, if_pos hstate, dispatch, dispatch, hvacate]
    dsimp only
    split <;> rfl
  · rw [if_neg hstate, if_neg hstate, suspend, suspend]
    dsimp only
    split <;> rfl

lemma InRange.enter (h : v.InRange) {pid : Nat} {p : ProcessView space} (hp : v.table[pid]? = some p)
    (state : ProcessState) : (v.enter pid state).InRange := by
  intro q r hr
  rw [get?_enter hp] at hr
  obtain ⟨r', hr', -⟩ := Option.map_eq_some_iff.mp hr
  rw [enter_limits hp]
  exact h q r' hr'

/-! ### Changes that keep a view lawful -/

namespace Lawful

lemma ofLimits (limits : Limits) (memory : μ) :
    (View.ofLimits limits memory : View μ space).Lawful where
  forest := .ofLimits limits memory
  runner pid p hp := by simp [View.ofLimits] at hp
  live pid hpid := by simp [View.ofLimits] at hpid
  backed pid p hp := by simp [View.ofLimits] at hp

/-- Only the processes and the running one matter. -/
lemma congr (h : v.Lawful) (htable : w.table = v.table) (hrunning : w.running = v.running) :
    w.Lawful where
  forest := h.forest.congr (fun _ => by rw [parentOf, parentOf, htable]) fun _ => by
    rw [childrenOf, childrenOf, htable]
  runner pid p hp := by
    rw [hrunning]
    exact h.runner pid p (htable ▸ hp)
  live pid hpid := by
    rw [htable]
    exact h.live pid (hrunning ▸ hpid)
  backed pid p hp := h.backed pid p (htable ▸ hp)

/-- A change of one process that leaves its place among the others as it is. -/
lemma update (h : v.Lawful) {pid : Nat} {p : ProcessView space} (hp : v.table[pid]? = some p)
    {f : ProcessView space → ProcessView space} (hparent : ∀ p, (f p).parent = p.parent)
    (hchildren : ∀ p, (f p).children = p.children)
    (hstate : (f p).state = .running ↔ p.state = .running)
    (hspace : (f p).state.isActive = true → (f p).space.isSome = true) :
    (v.update pid f).Lawful where
  forest := h.forest.update pid hparent hchildren
  runner q r hr := by
    rw [get?_update] at hr
    split at hr
    · rename_i hq
      rw [hp] at hr
      cases hr
      rw [hstate, hq]
      exact h.runner pid p hp
    · exact h.runner q r hr
  live q hq := by
    obtain ⟨r, hr⟩ := h.live q hq
    rw [get?_update]
    split
    · exact ⟨f p, by rw [hp]; rfl⟩
    · exact ⟨r, hr⟩
  backed q r hr := by
    rw [get?_update] at hr
    split at hr
    · rw [hp] at hr
      cases hr
      exact hspace
    · exact h.backed q r hr

lemma enroll (h : v.Lawful) {pid : Nat} (hnew : v.table[pid]? = none) (entry : UInt64) :
    (v.enroll pid entry).Lawful where
  forest := h.forest.enroll hnew entry
  runner q r hr := by
    rw [get?_enroll] at hr
    split at hr
    · rename_i hq
      cases hr
      refine ⟨fun hstate => absurd hstate (by simp [ProcessView.fresh]), fun hrunning => ?_⟩
      obtain ⟨p, hp⟩ := h.live q hrunning
      rw [hq, hnew] at hp
      cases hp
    · exact h.runner q r hr
  live q hq := by
    rw [get?_enroll]
    split
    · exact ⟨_, rfl⟩
    · exact h.live q hq
  backed q r hr := by
    rw [get?_enroll] at hr
    split at hr
    · cases hr
      exact fun hactive => by cases hactive
    · exact h.backed q r hr

theorem adopt (h : v.Lawful) {parent child : Nat} {p c : ProcessView space}
    (hp : v.table[parent]? = some p) (hc : v.table[child]? = some c)
    (hroot : v.parentOf child = none) (hapart : ¬ ReflTransGen v.Up parent child) :
    (v.adopt parent child).Lawful := by
  have hsame : ∀ q : Nat, ∀ r, (v.adopt parent child).table[q]? = some r →
      ∃ r', v.table[q]? = some r' ∧ r.state = r'.state ∧ r.space = r'.space := by
    intro q r hr
    rw [View.adopt, get?_update, get?_update, get?_update] at hr
    split at hr
    · rename_i hq
      subst hq
      split at hr
      · rename_i hq
        subst hq
        rw [hp] at hr
        cases hr
        exact ⟨p, hp, rfl, rfl⟩
      · rw [hc] at hr
        cases hr
        exact ⟨c, hc, rfl, rfl⟩
    · split at hr
      · rename_i hq
        rw [hp] at hr
        cases hr
        exact ⟨p, hq ▸ hp, rfl, rfl⟩
      · exact ⟨r, hr, rfl, rfl⟩
  refine ⟨h.forest.adopt hp hc hroot hapart, fun q r hr => ?_, fun q hq => ?_, fun q r hr => ?_⟩
  · obtain ⟨r', hr', hstate, -⟩ := hsame q r hr
    rw [hstate]
    exact h.runner q r' hr'
  · obtain ⟨r, hr⟩ := h.live q hq
    rw [View.adopt, get?_update, get?_update, get?_update]
    split
    · split
      · exact ⟨_, by rw [hp]; rfl⟩
      · exact ⟨_, by rw [hc]; rfl⟩
    · split
      · exact ⟨_, by rw [hp]; rfl⟩
      · exact ⟨r, hr⟩
  · obtain ⟨r', hr', hstate, hspace⟩ := hsame q r hr
    rw [hstate, hspace]
    exact h.backed q r' hr'

theorem remove (h : v.Lawful) (pid : Nat) : (v.remove pid).Lawful where
  forest := h.forest.remove pid
  runner q r hr := by
    rw [get?_remove] at hr
    split at hr
    · cases hr
    · rename_i hq
      obtain ⟨r', hr', rfl⟩ := Option.map_eq_some_iff.mp hr
      have hrunner := h.runner q r' hr'
      rw [View.remove]
      dsimp only
      rw [hrunner]
      split
      · rename_i hrunning
        rw [hrunning]
        simp [Ne.symm hq]
      · rfl
  live q hq := by
    rw [View.remove] at hq
    dsimp only at hq
    split at hq
    · cases hq
    · rename_i hrunning
      obtain ⟨r, hr⟩ := h.live q hq
      rw [get?_remove, if_neg, hr]
      · exact ⟨_, rfl⟩
      · rintro rfl
        exact hrunning hq
  backed q r hr := by
    rw [get?_remove] at hr
    split at hr
    · cases hr
    · obtain ⟨r', hr', rfl⟩ := Option.map_eq_some_iff.mp hr
      exact h.backed q r' hr'

/-- A process that may change its state is not lifted over the one that runs. -/
theorem enter (h : v.Lawful) {pid : Nat} {p : ProcessView space} (hp : v.table[pid]? = some p)
    {state : ProcessState} (hcan : p.canEnter state = true) : (v.enter pid state).Lawful where
  forest := by
    refine h.forest.congr (fun q => ?_) fun q => ?_
    · rw [parentOf, get?_enter hp, parentOf]
      cases v.table[q]? <;> simp [afterEntry_parent]
    · rw [childrenOf, get?_enter hp, childrenOf]
      cases v.table[q]? <;> simp [afterEntry_children]
  runner q r hr := by
    rw [get?_enter hp] at hr
    obtain ⟨r', hr', rfl⟩ := Option.map_eq_some_iff.mp hr
    have hrunner := h.runner q r' hr'
    rw [afterEntry_state, enter_running hp]
    by_cases hq : q = pid
    · subst hq
      by_cases hstate : state = .running <;> by_cases hrunning : v.running = some q <;>
        simp [hstate, hrunning]
    · by_cases hstate : state = .running
      · by_cases hrunning : v.running = some q
        · simp [hq, hstate, hrunning, Ne.symm hq]
        · simp [hq, hstate, hrunning, Ne.symm hq, hrunner]
      · by_cases hrunning : v.running = some pid
        · simp [hq, hstate, hrunning, hrunner, Ne.symm hq]
        · simp [hq, hstate, hrunning, hrunner]
  live q hq := by
    rw [enter_running hp] at hq
    rw [get?_enter hp]
    have hlive : ∃ r, v.table[q]? = some r := by
      split at hq
      · cases hq
        exact ⟨p, hp⟩
      · split at hq
        · cases hq
        · exact h.live q hq
    obtain ⟨r, hr⟩ := hlive
    exact ⟨_, by rw [hr]; rfl⟩
  backed q r hr := by
    rw [get?_enter hp] at hr
    obtain ⟨r', hr', rfl⟩ := Option.map_eq_some_iff.mp hr
    rw [afterEntry_state, afterEntry_space]
    split
    · rename_i hq
      rw [hq, hp] at hr'
      cases hr'
      exact fun hactive => ProcessView.space_of_canEnter hcan hactive (h.backed pid p hp)
    · split
      · rename_i hrunning
        intro _
        apply h.backed q r' hr'
        rw [(h.runner q r' hr').mpr hrunning.2]
        rfl
      · exact h.backed q r' hr'

end Lawful

end View

end Uniprocessor
