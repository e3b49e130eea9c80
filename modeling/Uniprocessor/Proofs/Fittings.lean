import Uniprocessor.Proofs.Roots

/-!
# Registers that fit the memory

The page table root and the two stack pointers get into the registers of a process when memory
arrives for it, and say where that memory is. However often the registers then move between the
processor and the record, nothing makes them say otherwise but a write to the processor.
-/

namespace Uniprocessor

open Uniprocessor.Action Relation

namespace Registers

variable {r r' : Registers} {root userStack kernelStack : UInt64} {still : Prop}

/-- Registers for a space with the given root and stacks with the given bases. The user stack pointer
is at the top of its stack if it is `still`. -/
structure Fit (r : Registers) (root userStack kernelStack : UInt64) (still : Prop) : Prop where
  cr3 : r.cr3 = root
  rsp0 : r.rsp0 = Supervisor.stackTop kernelStack
  rsp : still → r.rsp = Supervisor.stackTop userStack

/-- From `r` to `r'` the root and the kernel stack pointer stay, and the user stack pointer too if it
is `still`. -/
structure Anchored (still : Prop) (r r' : Registers) : Prop where
  cr3 : r'.cr3 = r.cr3
  rsp0 : r'.rsp0 = r.rsp0
  rsp : still → r'.rsp = r.rsp

lemma Anchored.refl (still : Prop) (r : Registers) : r.Anchored still r := ⟨rfl, rfl, fun _ => rfl⟩

lemma Fit.anchored (h : r.Fit root userStack kernelStack still) (h' : r.Anchored still r') :
    r'.Fit root userStack kernelStack still where
  cr3 := h'.cr3.trans h.cr3
  rsp0 := h'.rsp0.trans h.rsp0
  rsp hstill := (h'.rsp hstill).trans (h.rsp hstill)

end Registers

/-- A command that gives no memory moves no register that says where memory is, unless it writes it. -/
lemma Command.Permits.anchored {command : Command} {result : Except Fault Reply} {runner : Option Pid}
    {pid : Pid} {before after : Option ProcessState} {r r' : Registers} {still : Prop}
    (h : command.Permits result runner pid before after r r') (hsupply : ¬ command.MaySupply pid)
    (hwrites : ∀ writes, command = .writeActive writes → runner = some pid →
      r.Anchored still (r.assign writes)) : r.Anchored still r' := by
  cases command with
  | tick | ticks | schedule | materializeCreated => exact absurd trivial hsupply
  | materialize target =>
    cases result with
    | error fault => exact h ▸ .refl still r
    | ok reply =>
      have hother : target ≠ pid := hsupply
      rw [Command.Permits, if_neg hother] at h
      exact h ▸ .refl still r
  | setInSystemCall target on =>
    cases result with
    | error fault => exact h ▸ .refl still r
    | ok reply =>
      rw [Command.Permits] at h
      rw [h]
      split
      · exact ⟨rfl, rfl, fun _ => rfl⟩
      · exact .refl still r
  | writeActive writes =>
    cases result with
    | error fault => exact h ▸ .refl still r
    | ok reply =>
      rw [Command.Permits] at h
      rw [h]
      split
      · rename_i hrunner
        exact hwrites writes rfl hrunner
      · exact .refl still r
  | _ => exact h ▸ .refl still r

/-- A process keeps the memory it has, if it gets none. -/
lemma ProcessView.Evolves.memory_eq {space : Type} {p p' : ProcessView space} (h : p.Evolves False p')
    (hsound : p.Sound) (hstack : p'.userStack ≠ none) :
    p'.space = p.space ∧ p'.userStack = p.userStack ∧ p'.kernelStack = p.kernelStack := by
  cases h with
  | stays hstays =>
    refine ⟨hstays.space fun hcreated => hstack ?_, hstays.userStack, hstays.kernelStack⟩
    rw [hstays.userStack, (hsound.begun hcreated).2.1]
  | entered state hcan hstate hprevious huser hkernel hspace hexit => exact ⟨hspace, huser, hkernel⟩
  | supplied hgiven => exact hgiven.elim

/-- The base of the pages that a call mapped. -/
def MemoryCall.mappedBase? {space : Type} : MemoryCall space → Option UInt64
  | .mapPages _ _ (.ok base) => some base
  | _ => none

/-- The bases of all pages that were mapped. -/
def mappedBases {space : Type} (calls : List (MemoryCall space)) : List UInt64 :=
  calls.filterMap (·.mappedBase?)

lemma mappedBases_subset {space : Type} {calls calls' : List (MemoryCall space)}
    (h : calls ⊆ calls') : mappedBases calls ⊆ mappedBases calls' :=
  List.filterMap_subset _ h

namespace View

variable {μ space : Type} {memory : MemoryService μ space} {outside : μ → μ → Prop} {start : μ}
  {v w : View μ space} {calls c : List (MemoryCall space)} {pid : Nat} {p p' : ProcessView space}

variable (memory) in
/-- The registers of `pid` fit the memory it has. -/
def FitsAt (still : Prop) (calls : List (MemoryCall space)) (v : View μ space) (pid : Nat) : Prop :=
  ∀ (p : ProcessView space) (handle : space) (userStack kernelStack : UInt64),
    v.table[pid]? = some p → p.space = some handle → p.userStack = some userStack →
    p.kernelStack = some kernelStack →
    (v.registersIn pid p).Fit (memory.root v.memory handle) userStack kernelStack still ∧
      userStack ∈ mappedBases calls ∧ kernelStack ∈ mappedBases calls

variable (memory outside start) in
/-- All processes have registers that fit the memory they have, but for the user stack pointers that
are not `still`. -/
structure Fitted (still : Pid → Prop) (calls : List (MemoryCall space)) (v : View μ space) : Prop where
  lawful : v.Lawful
  traffic : Traffic memory outside start calls v.memory v.spaces
  sound : ∀ (pid : Nat) (p : ProcessView space), v.table[pid]? = some p → p.Sound
  fits : ∀ pid : Nat, FitsAt memory (still pid) calls v pid

variable {still still' : Pid → Prop}

lemma fitsAt_of_bare {s : Prop} (hp : v.table[pid]? = some p) (hbare : p.userStack = none) :
    FitsAt memory s calls v pid := by
  intro q handle userStack kernelStack hq _ huser
  rw [hp, Option.some_inj] at hq
  rw [← hq, hbare] at huser
  cases huser

/-- A process that goes on without new memory keeps registers that fit. -/
lemma FitsAt.kept {s : Prop} (h : FitsAt memory s calls v pid) (hp : v.table[pid]? = some p)
    (hsound : p.Sound) (hp' : w.table[pid]? = some p') (hevolves : p.Evolves False p')
    (hregisters : (v.registersIn pid p).Anchored s (w.registersIn pid p'))
    (hroot : ∀ handle, v.spaceOf pid = some handle → w.spaceOf pid = some handle →
      memory.root w.memory handle = memory.root v.memory handle)
    (hcalls : calls ⊆ c) : FitsAt memory s c w pid := by
  intro q handle userStack kernelStack hq hspace huser hkernel
  rw [hp', Option.some_inj] at hq
  subst hq
  obtain ⟨hspace', huser', hkernel'⟩ := hevolves.memory_eq hsound (by rw [huser]; nofun)
  have hbefore : p.space = some handle := hspace'.symm.trans hspace
  obtain ⟨hfit, huserBase, hkernelBase⟩ := h p handle userStack kernelStack hp hbefore
    (huser'.symm.trans huser) (hkernel'.symm.trans hkernel)
  rw [hroot handle ((spaceOf_eq hp).trans hbefore) ((spaceOf_eq hp').trans hspace)]
  exact ⟨hfit.anchored hregisters, mappedBases_subset hcalls huserBase,
    mappedBases_subset hcalls hkernelBase⟩

namespace Fitted

lemma ofLimits (still : Pid → Prop) (limits : Limits) :
    Fitted memory outside start still [] (.ofLimits limits start) where
  lawful := .ofLimits limits start
  traffic := .start
  sound _ _ hp := by simp [View.ofLimits] at hp
  fits _ _ _ _ _ hp := by simp [View.ofLimits] at hp

lemma mono (h : Fitted memory outside start still calls v)
    (hstill : ∀ (pid : Nat) (p : ProcessView space), v.table[pid]? = some p → still' pid → still pid) :
    Fitted memory outside start still' calls v where
  lawful := h.lawful
  traffic := h.traffic
  sound := h.sound
  fits pid p handle userStack kernelStack hp hspace huser hkernel := by
    obtain ⟨hfit, hbases⟩ := h.fits pid p handle userStack kernelStack hp hspace huser hkernel
    exact ⟨⟨hfit.cr3, hfit.rsp0, fun hs => hfit.rsp (hstill pid p hp hs)⟩, hbases⟩

lemma withRoom (h : Fitted memory outside start still calls v) (room : Storage) :
    Fitted memory outside start still calls { v with room } :=
  ⟨h.lawful.congr rfl rfl, h.traffic, h.sound, h.fits⟩

/-- A change from outside. -/
lemma withMemory (h : Fitted memory outside start still calls v)
    (hsteady : SteadyRoots memory outside start) {m : μ} (houtside : outside v.memory m) :
    Fitted memory outside start still calls { v with memory := m } where
  lawful := h.lawful.congr rfl rfl
  traffic := h.traffic.outside houtside
  sound := h.sound
  fits pid p handle userStack kernelStack hp hspace huser hkernel := by
    rw [hsteady.outside_root h.traffic houtside handle (mem_spaces ((spaceOf_eq hp).trans hspace))]
    exact h.fits pid p handle userStack kernelStack hp hspace huser hkernel

/-- Where nobody gets memory, all registers go on fitting if those that say where memory is stay. -/
lemma advance (h : Fitted memory outside start still calls v) (hlawful : w.Lawful)
    (htraffic : Traffic memory outside start c w.memory w.spaces)
    (hdevelops : ∀ pid : Nat, Develops (ProcessView.Evolves False) pid v w)
    (hcarries : ∀ (pid : Nat) (p' : ProcessView space), w.table[pid]? = some p' →
      Carries (fun _ _ => Registers.Anchored (still pid)) pid v w)
    (hroots : KeepsRoots memory v w) (hcalls : calls ⊆ c) :
    Fitted memory outside start still c w where
  lawful := hlawful
  traffic := htraffic
  sound pid p' hp' := by
    rcases hdevelops pid p' hp' with ⟨p, hp, hevolves⟩ | ⟨-, hnewborn⟩
    · exact hevolves.sound (h.sound pid p hp)
    · exact hnewborn.sound
  fits pid := by
    cases hp' : w.table[pid]? with
    | none =>
      intro q _ _ _ hq
      rw [hp'] at hq
      cases hq
    | some p' =>
      rcases hdevelops pid p' hp' with ⟨p, hp, hevolves⟩ | ⟨-, hnewborn⟩
      · obtain ⟨q, hq, -, hregisters⟩ := hcarries pid p' hp' p hp
        rw [hp', Option.some_inj] at hq
        subst hq
        exact (h.fits pid).kept hp (h.sound pid p hp) hp' hevolves hregisters (hroots pid) hcalls
      · exact fitsAt_of_bare hp' hnewborn.userStack

/-- A change of state moves registers, and they go on fitting. -/
lemma enter (h : Fitted memory outside start still calls v) (hp : v.table[pid]? = some p)
    {state : ProcessState} (hcan : p.canEnter state = true) :
    Fitted memory outside start still calls (v.enter pid state) := by
  have hmemory := enter_memory v pid state
  refine h.advance (h.lawful.enter hp hcan) ?_ (fun q => (h.lawful.evolves_enter hp hcan q).develops)
    (fun q _ _ => (h.lawful.keeps_enter hp hcan q).mono fun _ _ _ _ heq => heq ▸ .refl _ _)
    (keepsRoots_of_memory hmemory) (List.Subset.refl calls)
  rw [hmemory, spaces_congr (spaceOf_enter hp state)]
  exact h.traffic

end Fitted

/-! ### Attempts -/

lemma Source.subset {result : Except Refusal space} {m : μ}
    (h : Source memory v calls p result c m) : calls ⊆ c := by
  cases h with
  | own | barren => exact List.Subset.refl calls
  | inherited | created => exact List.subset_append_left calls _

lemma Stacks.subset {m m' : μ} {handle handle' : space} {bases : Option (UInt64 × UInt64)}
    (h : Stacks memory m calls handle bases c handle' m') : calls ⊆ c := by
  cases h with
  | refused => exact List.subset_append_left calls _
  | undone | mapped =>
    intro call hcall
    simp [hcall]

lemma Stacks.mem_mappedBases {m m' : μ} {handle handle' : space} {userStack kernelStack : UInt64}
    (h : Stacks memory m calls handle (some (userStack, kernelStack)) c handle' m') :
    userStack ∈ mappedBases c ∧ kernelStack ∈ mappedBases c := by
  cases h with
  | mapped => simp [mappedBases, MemoryCall.mappedBase?]

lemma Attempt.subset {result : Except Refusal Unit} (h : Attempt memory v calls pid result c w) :
    calls ⊆ c := by
  cases h with
  | unknown | late => exact List.Subset.refl calls
  | spaceless _ _ hsource => exact hsource.subset
  | kept _ _ _ hstacks => exact hstacks.subset
  | dropped _ _ _ hsource hstacks | equipped _ _ hsource hstacks =>
    exact fun call hcall => List.mem_append_left _ (hstacks.subset (hsource.subset hcall))

/-- The memory that arrives is what the registers then say. -/
lemma Fitted.fitsAt_attempt (h : Fitted memory outside start still calls v)
    {result : Except Refusal Unit} (hattempt : Attempt memory v calls pid result c w) :
    FitsAt memory (still pid) c w pid := by
  -- Without a user stack there is nothing to fit, and only a created process is given memory.
  have hbare : ∀ {p}, v.table[pid]? = some p → p.state = .created → p.userStack = none :=
    fun hp hstate => ((h.sound pid _ hp).begun hstate).2.1
  cases hattempt with
  | unknown | late => exact h.fits pid
  | spaceless hp hstate | dropped hp hstate =>
    exact fitsAt_of_bare (v := { v with memory := _ }) hp (hbare hp hstate)
  | kept hp hstate =>
    have hnone := hbare hp hstate
    exact fitsAt_of_bare (get?_update_self (v := { v with memory := _ }) hp _) hnone
  | @equipped p handle c m us ks c' handle' m' hp hstate hsource hstacks =>
    intro q held userStack kernelStack hq hspace huser hkernel
    rw [get?_update_self (v := { v with memory := m' }) hp, Option.some_inj] at hq
    subst hq
    cases hspace
    cases huser
    cases hkernel
    have hidle : ({ v with memory := m' }.update pid (·.equipped handle' (memory.root m' handle') us
        ks)).running ≠ some pid := h.lawful.running_ne hp (by simp [hstate])
    obtain ⟨huser, hkernel⟩ := hstacks.mem_mappedBases
    have hlater := mappedBases_subset (List.subset_append_left c' [.root handle' (memory.root m' handle')])
    rw [registersIn, if_neg hidle]
    exact ⟨⟨rfl, rfl, fun _ => rfl⟩, hlater huser, hlater hkernel⟩

namespace Fitted

/-- An attempt lets the registers of its process fit, and those of the others fit as before. -/
theorem attempt (h : Fitted memory outside start still calls v)
    (hsteady : SteadyRoots memory outside start) {result : Except Refusal Unit}
    (hattempt : Attempt memory v calls pid result c w) : Fitted memory outside start still c w where
  lawful := h.lawful.attempt hattempt
  traffic := (hattempt.accounts h.traffic).1
  sound q p' hp' := by
    obtain ⟨p, hp, hevolves⟩ := hattempt.evolves q p' hp'
    exact hevolves.sound (h.sound q p hp)
  fits q := by
    by_cases hq : q = pid
    · subst hq
      exact h.fitsAt_attempt hattempt
    · have hconfined := hattempt.confined
      have hother : w.table[q]? = v.table[q]? := hconfined.others q (by simpa using hq)
      intro p handle userStack kernelStack hp hspace huser hkernel
      rw [hother] at hp
      have hregisters : v.registersIn q p = w.registersIn q p := by
        rw [registersIn, registersIn, hconfined.running, hconfined.active]
      refine (h.fits q).kept hp (h.sound q p hp) (hother.trans hp) (.stays (.refl p))
        (hregisters ▸ .refl _ _)
        (fun held hheld _ => (hattempt.accounts h.traffic).2 hsteady q hq held hheld)
        hattempt.subset p handle userStack kernelStack (hother.trans hp) hspace huser hkernel

theorem attempts (h : Fitted memory outside start still calls v)
    (hsteady : SteadyRoots memory outside start) {pids : List Pid} {made : Nat}
    (hattempts : Attempts memory v calls pids made c w) : Fitted memory outside start still c w := by
  induction hattempts with
  | nil => exact h
  | given hattempt _ ih | declined hattempt _ ih => exact ih (h.attempt hsteady hattempt)

theorem decision (h : Fitted memory outside start still calls v)
    (hsteady : SteadyRoots memory outside start) {made : Nat}
    {decision : TickResult × Option ResumePoint}
    (hdecision : Decision memory v calls made decision c w) :
    Fitted memory outside start still c w := by
  cases hdecision with
  | idle => exact h
  | continued _ _ hattempts => exact h.attempts hsteady hattempts
  | switched _ _ hstate hattempts hp =>
    exact (h.attempts hsteady hattempts).enter hp (canEnter_running hstate)

theorem decisions (h : Fitted memory outside start still calls v)
    (hsteady : SteadyRoots memory outside start) {outcomes : List TickResult}
    (hdecisions : Decisions memory v calls outcomes c w) :
    Fitted memory outside start still c w := by
  induction hdecisions with
  | nil => exact h
  | cons hdecision _ ih => exact ih (h.decision hsteady hdecision)

end Fitted

/-! ### Commands -/

variable {command : Command}

/-- A command that gives memory to nobody. -/
lemma Fitted.performed_kept (h : Fitted memory outside start still calls v)
    (hsteady : SteadyRoots memory outside start) (hrange : v.InRange)
    (hsupply : ∀ pid, ¬ command.MaySupply pid)
    (hwrites : ∀ writes, command = .writeActive writes → ∀ pid : Nat, v.running = some pid →
      v.active.Anchored (still pid) (v.active.assign writes)) :
    Fitted memory outside start still (calls ++ Event.calls ((perform memory command).run v).events)
      ((perform memory command).run v).state := by
  have hperform : (perform memory command).Ensures calls v
      (fun _ c w => ∃ result v', v.Step command result v' ∧ Accounts memory outside start 0 v' c w)
      fun _ c w => ∃ result v', v.Step command result v' ∧ Accounts memory outside start 0 v' c w :=
    (ensures_perform h.lawful hrange h.traffic command).mono (fun _ _ _ h => ⟨_, h⟩)
      fun _ _ _ h => ⟨_, h⟩
  obtain ⟨result, v', hstep, haccounts⟩ := hperform.always
  refine h.advance (haccounts.lawful (h.lawful.step hstep)) haccounts.settled (fun pid => ?_)
    (fun pid p' hp' p hp => ?_) (ensures_keepsRoots hsteady h.lawful h.traffic hsupply).always
    (List.subset_append_left calls _)
  · have hticks : ∀ count, command ≠ .ticks count := by
      rintro count rfl
      exact hsupply pid trivial
    exact (ensures_develops h.lawful hrange h.traffic command pid).always.mono
      fun p p' hcourse => (hcourse.evolves hticks).mono (hsupply pid)
  · rw [haccounts.table_eq] at hp'
    obtain ⟨q, hq, hcreated, hpermits⟩ := h.lawful.carries_step hstep (fun _ => by rw [hp']; rfl) p hp
    refine ⟨q, by rw [haccounts.table_eq, hq], hcreated, ?_⟩
    rw [haccounts.registersIn_eq]
    refine hpermits.anchored (hsupply pid) fun writes hcommand hrunning => ?_
    rw [registersIn, if_pos hrunning]
    exact hwrites writes hcommand pid hrunning

lemma Fitted.round (h : Fitted memory outside start still calls v)
    (hsteady : SteadyRoots memory outside start) {reply : Reply}
    (hround : Round memory v calls command reply c w) : Fitted memory outside start still c w := by
  cases hround with
  | tick hdecision | schedule hdecision => exact h.decision hsteady hdecision
  | ticks _ hdecisions => exact h.decisions hsteady hdecisions
  | materializeCreated hattempts => exact h.attempts hsteady hattempts

/-- A command that may give memory to somebody. -/
lemma Fitted.ensures_supplied (h : Fitted memory outside start still calls v)
    (hsteady : SteadyRoots memory outside start) (hrange : v.InRange) {pid : Pid}
    (hsupply : command.MaySupply pid) :
    (perform memory command).Ensures calls v (fun _ => Fitted memory outside start still)
      fun _ => Fitted memory outside start still := by
  by_cases hturn : command.isTurn = true
  · exact (ensures_round h.lawful hrange hturn).mono (fun _ _ _ => h.round hsteady) fun _ _ _ h => h
  cases command with
  | tick | ticks | schedule | materializeCreated => exact absurd rfl hturn
  | materialize target =>
    exact (ensures_materialize_attempt h.lawful target).bind
      (fun _ _ _ ⟨_, _, hattempt⟩ => h.attempt hsteady hattempt)
      fun _ _ _ hattempt => ensures_pure (h.attempt hsteady hattempt)
  | _ => exact hsupply.elim

/-- A command lets all registers go on fitting, unless it writes what says where memory is. -/
theorem Fitted.performed (h : Fitted memory outside start still calls v)
    (hsteady : SteadyRoots memory outside start) (hrange : v.InRange)
    (hwrites : ∀ writes, command = .writeActive writes → ∀ pid : Nat, v.running = some pid →
      v.active.Anchored (still pid) (v.active.assign writes)) :
    Fitted memory outside start still (calls ++ Event.calls ((perform memory command).run v).events)
      ((perform memory command).run v).state := by
  by_cases hsupply : ∃ pid, command.MaySupply pid
  · obtain ⟨pid, hsupply⟩ := hsupply
    exact (h.ensures_supplied hsteady hrange hsupply).always
  · exact h.performed_kept hsteady hrange (fun pid hpid => hsupply ⟨pid, hpid⟩) hwrites

end View

end Uniprocessor
