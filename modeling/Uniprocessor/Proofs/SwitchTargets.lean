import Uniprocessor.Proofs.Fittings

/-!
# Where processes resume

A switch hands over a stack, an instruction pointer, segments and a page table root. They belong to
the process that gets the processor: the root is that of the space it holds, the instruction pointer
is its own, and stack and segments are those of the kernel or of the user as the process was marked.
-/

namespace Uniprocessor

open Uniprocessor.Action

/-! ### Marks -/

namespace Registers

/-- The mark of a system call that the last write to the execution flags leaves, if there is one. -/
def lastMark : List (Register × UInt64) → Option Bool
  | [] => none
  | (register, value) :: writes =>
    lastMark writes <|>
      if register = .flags then some (value.toUInt32 &&& systemCallFlag != 0) else none

lemma inSystemCall_write (r : Registers) (register : Register) (value : UInt64) :
    (r.write register value).inSystemCall =
      if register = .flags then value.toUInt32 &&& systemCallFlag != 0 else r.inSystemCall := by
  cases register <;> rfl

lemma inSystemCall_assign (r : Registers) (writes : List (Register × UInt64)) :
    (r.assign writes).inSystemCall = (lastMark writes).getD r.inSystemCall := by
  induction writes generalizing r with
  | nil => rfl
  | cons write writes ih =>
    obtain ⟨register, value⟩ := write
    have hcons : r.assign ((register, value) :: writes) = (r.write register value).assign writes := rfl
    rw [hcons, ih, inSystemCall_write, lastMark]
    cases lastMark writes with
    | some mark => rfl
    | none => split <;> rfl

lemma inSystemCall_setInSystemCall (r : Registers) (on : Bool) :
    (r.setInSystemCall on).inSystemCall = on := by
  cases on with
  | true =>
    have hset : (r.flags ||| systemCallFlag) &&& systemCallFlag = 1 := by
      rw [systemCallFlag, ← UInt32.toNat_inj]
      simp [Nat.and_one_is_mod]
    simp [setInSystemCall, inSystemCall, hset]
  | false =>
    have hcleared : r.flags &&& ~~~ systemCallFlag &&& systemCallFlag = 0 := by
      rw [UInt32.and_assoc, UInt32.not_and_self, UInt32.and_zero]
    simp [setInSystemCall, inSystemCall, hcleared]

lemma MemoryGiven.inSystemCall_eq {r r' : Registers} (h : r.MemoryGiven r') :
    r'.inSystemCall = r.inSystemCall := by
  rw [h]
  rfl

end Registers

lemma Supervisor.stackTop_toNat {base : UInt64} (h : base.toNat < 2 ^ 64 - pageSize * stackPages) :
    (stackTop base).toNat = base.toNat + pageSize * stackPages - stackReserve := by
  have hpages : (UInt64.ofNat (pageSize * stackPages)).toNat = 4096 := rfl
  have hreserve : (UInt64.ofNat stackReserve).toNat = 1 := rfl
  have hsize : pageSize * stackPages = 4096 := rfl
  have hone : stackReserve = 1 := rfl
  rw [stackTop, UInt64.toNat_sub, UInt64.toNat_add, hpages, hreserve, hsize, hone]
  omega

/-- `point` is where a process with registers `r` resumes whose space has the given root and whose
stacks have the given bases. -/
structure ResumePoint.IsFor (point : ResumePoint) (r : Registers) (root userStack kernelStack : UInt64)
    (marked moved : Bool) : Prop where
  pageTableRoot : point.pageTableRoot = root
  instructionPointer : point.instructionPointer = r.rip
  /-- Inside a system call, at the top of the kernel stack. -/
  kernel : marked = true →
    point.stackPointer.toNat = kernelStack.toNat + pageSize * stackPages - stackReserve ∧
      point.dataSelector = kernelData ∧ point.codeSelector = kernelCode
  user : marked = false →
    point.stackPointer = r.rsp ∧ point.dataSelector = userData ∧ point.codeSelector = userCode
  /-- At the top of the user stack, as long as the stack pointer was not moved. -/
  unmoved : marked = false → moved = false →
    point.stackPointer.toNat = userStack.toNat + pageSize * stackPages - stackReserve

lemma Registers.Fit.isFor {r : Registers} {root userStack kernelStack : UInt64} {marked moved : Bool}
    (h : r.Fit root userStack kernelStack (moved = false)) (hmark : r.inSystemCall = marked)
    (huser : userStack.toNat < 2 ^ 64 - pageSize * stackPages)
    (hkernel : kernelStack.toNat < 2 ^ 64 - pageSize * stackPages) :
    r.resumePoint.IsFor r root userStack kernelStack marked moved := by
  cases marked with
  | true =>
    have hpoint : r.resumePoint = ⟨r.rsp0, r.rip, kernelData, kernelCode, r.cr3⟩ := if_pos hmark
    rw [hpoint]
    refine ⟨h.cr3, rfl, fun _ => ⟨?_, rfl, rfl⟩, nofun, nofun⟩
    rw [h.rsp0, Supervisor.stackTop_toNat hkernel]
  | false =>
    have hpoint : r.resumePoint = ⟨r.rsp, r.rip, userData, userCode, r.cr3⟩ :=
      if_neg (Bool.eq_false_iff.mp hmark)
    rw [hpoint]
    refine ⟨h.cr3, rfl, nofun, fun _ => ⟨rfl, rfl, rfl⟩, fun _ hmoved => ?_⟩
    rw [h.rsp hmoved, Supervisor.stackTop_toNat huser]

namespace Command

/-- The mark that a command gives to `pid`, if it gives one while `runner` is on the processor. -/
def mark? (command : Command) (runner : Option Pid) (pid : Pid) : Option Bool :=
  match command with
  | .setInSystemCall target on => if target = pid then some on else none
  | .writeActive writes => if runner = some pid then Registers.lastMark writes else none
  | _ => none

/-- Whether a command moves the user stack pointer of `pid`, which is on the processor if it runs. -/
def moves (command : Command) (runner : Option Pid) (active : Registers) (pid : Pid) : Bool :=
  match command with
  | .writeActive writes => runner == some pid && (active.assign writes).rsp != active.rsp
  | _ => false

/-- A command leaves the page table root and the kernel stack pointer on the processor alone. -/
def IsTame (command : Command) (active : Registers) : Prop :=
  match command with
  | .writeActive writes =>
    (active.assign writes).cr3 = active.cr3 ∧ (active.assign writes).rsp0 = active.rsp0
  | _ => True

/-- A mark stays what it is until a command gives another. -/
lemma Permits.inSystemCall_eq {command : Command} {result : Except Fault Reply} {runner : Option Pid}
    {pid : Pid} {before after : Option ProcessState} {r r' : Registers}
    (h : command.Permits result runner pid before after r r')
    (hdone : command.mark? runner pid ≠ none → ∃ reply, result = .ok reply) :
    r'.inSystemCall = (command.mark? runner pid).getD r.inSystemCall := by
  have hfailed : (∀ reply, result ≠ .ok reply) → r' = r →
      r'.inSystemCall = (command.mark? runner pid).getD r.inSystemCall := by
    intro hnot heq
    have hnone : command.mark? runner pid = none := by
      by_contra hmark
      obtain ⟨reply, hok⟩ := hdone hmark
      exact hnot reply hok
    rw [hnone, heq]
    rfl
  cases command with
  | writeActive writes =>
    cases result with
    | error fault => exact hfailed nofun h
    | ok reply =>
      rw [Permits] at h
      rw [h, mark?]
      split
      · exact r.inSystemCall_assign writes
      · rfl
  | setInSystemCall target on =>
    cases result with
    | error fault => exact hfailed nofun h
    | ok reply =>
      rw [Permits] at h
      rw [h, mark?]
      split
      · exact r.inSystemCall_setInSystemCall on
      · rfl
  | materialize target =>
    cases result with
    | error fault => exact congrArg _ h
    | ok reply =>
      rw [Permits] at h
      split at h
      · exact h.2.2.inSystemCall_eq
      · exact congrArg _ h
  | tick | ticks | schedule | materializeCreated =>
    rcases h with heq | ⟨-, -, hgiven⟩
    · exact congrArg _ heq
    · exact hgiven.inSystemCall_eq
  | _ => exact congrArg _ h

end Command

variable {μ space : Type}

/-- `pid` holds the space `handle`, and among what the memory service has given out it is one more
than what the others hold. -/
structure Supervisor.Owns (memory : MemoryService μ space) (outside : μ → μ → Prop) (start : μ)
    (calls : List (MemoryCall space)) (s : Supervisor μ space) (pid : Pid) (handle : space) : Prop where
  held : s.spaceOf pid = some handle
  apart : ∃ others, Traffic memory outside start calls s.memory (handle ::ₘ others) ∧
    ∀ (q : Pid) (other : space), q ≠ pid → s.spaceOf q = some other → other ∈ others
  /-- A service that gives out no handle that is in use gave this one to nobody else. -/
  alone : FreshHandles memory outside start → ∀ q : Pid, q ≠ pid → s.spaceOf q ≠ some handle

lemma Supervisor.Shows.owns {memory : MemoryService μ space} {outside : μ → μ → Prop} {start : μ}
    {calls : List (MemoryCall space)} {s : Supervisor μ space} {v : View μ space} {pid : Nat}
    {handle : space} (h : s.Shows v) (htraffic : Traffic memory outside start calls v.memory v.spaces)
    (hheld : v.spaceOf pid = some handle) : s.Owns memory outside start calls pid handle := by
  have hothers : ∀ q : Nat, q ≠ pid → (v.drop pid).spaceOf q = v.spaceOf q := by
    intro q hq
    rw [View.spaceOf_drop, if_neg hq]
  have hgone : (v.drop pid).spaceOf pid = none := by rw [View.spaceOf_drop, if_pos rfl]
  rw [View.spaces_eq_cons hheld hgone hothers] at htraffic
  have hmem : ∀ (q : Pid) (other : space), q ≠ pid → s.spaceOf q = some other →
      other ∈ (v.drop pid).spaces := by
    intro q other hq hspace
    rw [h.spaceOf_eq, ← hothers q hq] at hspace
    exact View.mem_spaces hspace
  refine ⟨by rw [h.spaceOf_eq, hheld], ⟨_, h.memory ▸ htraffic, hmem⟩, fun hfresh q hq hspace => ?_⟩
  exact (Multiset.nodup_cons.mp (hfresh.nodup htraffic)).1 (hmem q handle hq hspace)

namespace View

variable {memory : MemoryService μ space} {outside : μ → μ → Prop} {start : μ} {v w : View μ space}
  {calls c : List (MemoryCall space)} {pid : Nat} {p : ProcessView space}

lemma get?_enter_running (hp : v.table[pid]? = some p) :
    (v.enter pid .running).table[pid]? = some (p.enter .running) := by
  rw [get?_enter hp, hp, Option.map_some, afterEntry, if_pos rfl, if_neg (by simp)]

/-- Whoever gets the processor has on it the registers that were saved. -/
lemma registersIn_enter_running (hp : v.table[pid]? = some p) (p' : ProcessView space) :
    (v.enter pid .running).registersIn pid p' = p.context := by
  rw [registersIn, enter_running hp, enter_active hp, if_pos rfl, if_pos rfl, if_pos rfl]

/-- The process that a tick switches to, before and after it. -/
lemma Fitted.switched {still : Pid → Prop} (h : Fitted memory outside start still calls v)
    (hsteady : SteadyRoots memory outside start) {made : Nat} {point : ResumePoint}
    (hdecision : Decision memory v calls made (.switched pid, some point) c w) :
    ∃ p p' handle userStack kernelStack, v.table[pid]? = some p ∧ w.table[pid]? = some p' ∧
      v.registersIn pid p = p.context ∧ w.registersIn pid p' = p.context ∧
      point = p.context.resumePoint ∧ p'.space = some handle ∧ p'.userStack = some userStack ∧
      p'.kernelStack = some kernelStack ∧
      p.context.Fit (memory.root w.memory handle) userStack kernelStack (still pid) ∧
      userStack ∈ mappedBases calls ∧ kernelStack ∈ mappedBases calls := by
  have hfitted := h.decision hsteady hdecision
  cases hdecision with
  | @switched _ p _ _ w hnext hp hstate hattempts hp' =>
    have hidle : v.running ≠ some pid := h.lawful.running_ne hp (by simp [hstate])
    have hentered := get?_enter_running hp'
    have hmaterialized := (hfitted.sound pid _ hentered).supplied rfl
    rw [ProcessView.isMaterialized, Bool.and_eq_true, Bool.and_eq_true] at hmaterialized
    obtain ⟨handle, hspace⟩ := Option.isSome_iff_exists.mp hmaterialized.1.1
    obtain ⟨userStack, huser⟩ := Option.isSome_iff_exists.mp hmaterialized.1.2
    obtain ⟨kernelStack, hkernel⟩ := Option.isSome_iff_exists.mp hmaterialized.2
    obtain ⟨hfit, -⟩ := hfitted.fits pid _ handle userStack kernelStack hentered hspace huser hkernel
    rw [registersIn_enter_running hp'] at hfit
    obtain ⟨-, hbases⟩ := h.fits pid p handle userStack kernelStack hp hspace huser hkernel
    exact ⟨p, _, handle, userStack, kernelStack, hp, hentered, if_neg hidle,
      registersIn_enter_running hp' _, rfl, hspace, huser, hkernel, hfit, hbases⟩

end View

namespace Session

variable (memory : MemoryService μ space) (outside : μ → μ → Prop)

/-- Runs with all that was done in them: each command with the session it was given to, the latest
first. -/
inductive History (limits : Limits) (start : μ) :
    List (Session μ space × Command) → List (Event space) → Session μ space → Prop
  | start : History limits start [] [] (.ofLimits limits start)
  | perform {past events s} (command : Command) : History limits start past events s →
      History limits start ((s, command) :: past)
        (events ++ ((perform memory command).run s).events) ((perform memory command).run s).state
  | outside {past events s m} : History limits start past events s →
      outside s.supervisor.memory m → History limits start past events (s.withMemory m)
  | heap {past events s} (storage : Storage) : History limits start past events s →
      History limits start past events (s.withStorage storage)

/-- Whether `pid` is marked as being inside a system call after what was done. It is as the last mark
says that was given to it or written to its flags while it ran. A new process has no mark. -/
def marked : List (Session μ space × Command) → Pid → Bool
  | [], _ => false
  | (s, command) :: past, pid =>
    match s.supervisor.stateOf pid with
    | none => false
    | some _ => (command.mark? s.supervisor.roster.running pid).getD (marked past pid)

/-- Whether the user stack pointer of `pid` was moved while it ran, since it was born. -/
def moved : List (Session μ space × Command) → Pid → Bool
  | [], _ => false
  | (s, command) :: past, pid =>
    match s.supervisor.stateOf pid with
    | none => false
    | some _ =>
      command.moves s.supervisor.roster.running s.supervisor.roster.active pid || moved past pid

variable {memory outside} {limits : Limits} {start : μ} {events : List (Event space)}
  {past : List (Session μ space × Command)} {s : Session μ space} {pid : Nat} {r : Registers}
  {command : Command}

lemma History.run (h : History memory outside limits start past events s) :
    Run memory outside limits start events s := by
  induction h with
  | start => exact .start
  | perform command _ ih => exact ih.perform command
  | outside _ houtside ih => exact ih.outside houtside
  | heap storage _ ih => exact ih.heap storage

lemma Run.exists_history (h : Run memory outside limits start events s) :
    ∃ past, History memory outside limits start past events s := by
  induction h with
  | start => exact ⟨[], .start⟩
  | perform command _ ih =>
    obtain ⟨past, hpast⟩ := ih
    exact ⟨_, hpast.perform command⟩
  | outside _ houtside ih =>
    obtain ⟨past, hpast⟩ := ih
    exact ⟨past, hpast.outside houtside⟩
  | heap storage _ ih =>
    obtain ⟨past, hpast⟩ := ih
    exact ⟨past, hpast.heap storage⟩

/-- Whoever is live can be marked. -/
lemma Run.ok_of_mark (h : Run memory outside limits start events s) {state : ProcessState}
    (hstate : s.supervisor.stateOf pid = some state)
    (hmark : command.mark? s.supervisor.roster.running pid ≠ none) :
    ∃ reply, ((Session.perform memory command).run s).result = .ok reply := by
  obtain ⟨v, hshows, -, -⟩ := h.shows
  rw [(refines_perform memory command s v hshows).result_eq]
  rw [Supervisor.Shows.stateOf_eq hshows] at hstate
  obtain ⟨p, hp, -⟩ := Option.map_eq_some_iff.mp hstate
  cases command with
  | setInSystemCall target on =>
    have htarget : target = pid := by
      by_contra hne
      exact hmark (if_neg hne)
    have hrequire : (View.require target : Action space (View μ space) Unit).run v = ⟨.ok (), v, []⟩ :=
      View.run_require ((Supervisor.Shows.inRange hshows).check (htarget ▸ hp))
    refine ⟨.done, ?_⟩
    rw [View.perform, View.setInSystemCall, bind_assoc, run_bind_quiet hrequire]
    rfl
  | writeActive writes => exact ⟨.done, rfl⟩
  | _ => exact absurd rfl hmark

/-- Whoever was not live before a command is unmarked after it. -/
lemma Run.unmarked_of_newcomer (h : Run memory outside limits start events s) (command : Command)
    (hnone : s.supervisor.stateOf pid = none)
    (hr : ((Session.perform memory command).run s).state.supervisor.registersOf pid = some r) :
    r.inSystemCall = false := by
  obtain ⟨w, hshows, hlawful, -⟩ := (h.perform command).shows
  rw [Supervisor.Shows.registersOf_eq hshows] at hr
  obtain ⟨p, hp, rfl⟩ := Option.map_eq_some_iff.mp hr
  have hview := (Supervisor.Shows.viewOf_eq hshows pid).trans hp
  rcases h.develops command hview with ⟨q, hq, -⟩ | ⟨-, hnewborn⟩
  · obtain ⟨v, hbefore, -, -⟩ := h.shows
    rw [Supervisor.Shows.viewOf_eq hbefore] at hq
    rw [Supervisor.Shows.stateOf_eq hbefore, hq] at hnone
    cases hnone
  · have hidle : w.running ≠ some pid := hlawful.running_ne hp (by simp [hnewborn.state])
    rw [View.registersIn, if_neg hidle, Registers.inSystemCall, hnewborn.flags]
    rfl

/-- The flag of a system call tells how a process is marked, wherever its registers are. -/
theorem History.marked_eq (h : History memory outside limits start past events s)
    (hr : s.supervisor.registersOf pid = some r) : r.inSystemCall = marked past pid := by
  induction h generalizing r with
  | start => cases hr
  | outside _ _ ih | heap _ _ ih => exact ih hr
  | @perform past events s command hpast ih =>
    rw [marked]
    cases hstate : s.supervisor.stateOf pid with
    | none => exact hpast.run.unmarked_of_newcomer command hstate hr
    | some state =>
      have hlive := s.supervisor.isSome_registersOf pid
      rw [hstate, Option.isSome_some, Option.isSome_iff_exists] at hlive
      obtain ⟨r₀, hr₀⟩ := hlive
      have hafter := ((Session.perform memory command).run s).state.supervisor.isSome_registersOf pid
      rw [hr, Option.isSome_some] at hafter
      obtain ⟨state', r', -, hr', -, hpermits⟩ :=
        hpast.run.carries_perform command (fun _ => hafter.symm) hstate hr₀
      rw [hr, Option.some_inj] at hr'
      rw [hr', hpermits.inSystemCall_eq (hpast.run.ok_of_mark hstate), ih hr₀]

/-- What every session shows in which no command changed where a process has its memory. -/
theorem History.fitted (h : History memory outside limits start past events s)
    (hsteady : SteadyRoots memory outside start)
    (htame : ∀ entry ∈ past, entry.2.IsTame entry.1.supervisor.roster.active) :
    ∃ v, s.Shows v ∧ View.Fitted memory outside start (moved past · = false) (Event.calls events) v := by
  induction h with
  | start => exact ⟨.ofLimits limits start, Supervisor.shows_ofLimits limits start, .ofLimits _ limits⟩
  | @outside past events s m _ houtside ih =>
    obtain ⟨v, hshows, hfitted⟩ := ih htame
    refine ⟨_, hshows.withMemory m, hfitted.withMemory hsteady ?_⟩
    rw [Supervisor.Shows.memory hshows]
    exact houtside
  | heap storage _ ih =>
    obtain ⟨v, hshows, hfitted⟩ := ih htame
    exact ⟨_, hshows.withStorage storage, hfitted.withRoom _⟩
  | @perform past events s command hpast ih =>
    rw [List.forall_mem_cons] at htame
    obtain ⟨v, hshows, hfitted⟩ := ih htame.2
    have hagree := refines_perform memory command s v hshows
    have hmoved : ∀ {pid : Nat} {p}, v.table[pid]? = some p → moved ((s, command) :: past) pid = false →
        command.moves s.supervisor.roster.running s.supervisor.roster.active pid = false ∧
          moved past pid = false := by
      intro pid p hp hstill
      rw [moved, Supervisor.Shows.stateOf_eq hshows, hp] at hstill
      simpa using hstill
    -- Whose stack pointer the command moves is given up before it, so that what fits is the same set
    -- of processes before and after. Who is only born in it has no stack yet.
    have hstill : View.Fitted memory outside start (moved ((s, command) :: past) · = false)
        (Event.calls events) v := hfitted.mono fun pid p hp h => (hmoved hp h).2
    refine ⟨_, hagree.state, ?_⟩
    rw [Event.calls_append, hagree.calls_eq]
    refine hstill.performed hsteady (Supervisor.Shows.inRange hshows) ?_
    rintro writes rfl pid hrunning
    obtain ⟨p, hp⟩ := hfitted.lawful.live pid hrunning
    rw [Supervisor.Shows.active hshows]
    refine ⟨htame.1.1, htame.1.2, fun h => ?_⟩
    have hmoves := (hmoved hp h).1
    rw [Command.moves, ← Supervisor.Shows.running hshows, hrunning] at hmoves
    simpa using hmoves

/-- Switches lead where they should. In every run over a memory service that keeps the roots of
spaces it is not called on and gives out stack bases with room above them, and in which no write to
the processor changes the page table root or the kernel stack pointer, the decision to switch to a
process names the root of the space that this process owns, its own instruction pointer, and the
stack and the segments of the mode that it was last put in. -/
theorem History.switch_target (h : History memory outside limits start past events s)
    (hsteady : SteadyRoots memory outside start)
    (htame : ∀ entry ∈ past, entry.2.IsTame entry.1.supervisor.roster.active)
    (hbases : ∀ base ∈ mappedBases (Event.calls events), base.toNat < 2 ^ 64 - pageSize * stackPages)
    {pid : Pid} {point : ResumePoint} {t : Session μ space} {es : List (Event space)}
    (hrun : (Session.perform memory .schedule).run s =
      ⟨.ok (.decision (.switched pid) (some point)), t, es⟩) :
    ∃ p r handle userStack kernelStack, t.supervisor.viewOf pid = some p ∧
      p.userStack = some userStack ∧ p.kernelStack = some kernelStack ∧
      t.supervisor.Owns memory outside start (Event.calls (events ++ es)) pid handle ∧
      s.supervisor.registersOf pid = some r ∧ t.supervisor.registersOf pid = some r ∧
      point.IsFor r (memory.root t.supervisor.memory handle) userStack kernelStack (marked past pid)
        (moved past pid) := by
  obtain ⟨v, hshows, hfitted⟩ := h.fitted hsteady htame
  have hagree := refines_perform memory .schedule s v hshows
  rw [hrun] at hagree
  have hround : (View.perform memory .schedule).Ensures (Event.calls events) v _ fun _ _ _ => True :=
    View.ensures_round hfitted.lawful (Supervisor.Shows.inRange hshows) rfl
  obtain _ | _ | ⟨hdecision⟩ := hround.ok hagree.result_eq.symm
  have hafter := hagree.state
  have htraffic := (hfitted.decision hsteady hdecision).traffic
  obtain ⟨p, p', handle, userStack, kernelStack, hp, hp', hbefore, hregisters, rfl, hspace, huser,
    hkernel, hfit, huserBase, hkernelBase⟩ := hfitted.switched hsteady hdecision
  have hr : s.supervisor.registersOf pid = some p.context := by
    rw [Supervisor.Shows.registersOf_eq hshows, hp, Option.map_some, hbefore]
  have hr' : t.supervisor.registersOf pid = some p.context := by
    rw [Supervisor.Shows.registersOf_eq hafter, hp', Option.map_some, hregisters]
  refine ⟨p', p.context, handle, userStack, kernelStack, ?_, huser, hkernel, ?_, hr, hr', ?_⟩
  · rw [Supervisor.Shows.viewOf_eq hafter, hp']
  · have hcalls : Event.calls es = _ := hagree.calls_eq
    rw [Event.calls_append, hcalls]
    exact Supervisor.Shows.owns hafter htraffic ((View.spaceOf_eq hp').trans hspace)
  · rw [← Supervisor.Shows.memory hafter]
    exact hfit.isFor (h.marked_eq hr) (hbases userStack huserBase) (hbases kernelStack hkernelBase)

/-- A process that enters a system call while it runs comes back to its kernel stack. -/
theorem switch_target_of_two : ∃ past events s point t es,
    History HostMemory.service HostMemory.Adjusted ⟨8, 4, 4, 4, .lenient⟩ .empty past events s ∧
    (Session.perform HostMemory.service .schedule).run s =
      ⟨.ok (.decision (.switched 1) (some point)), t, es⟩ ∧
    point = ⟨0x70001fff, 0x400, kernelData, kernelCode, 0x101000⟩ ∧
    marked past 1 = true ∧ moved past 1 = false ∧
    ∃ p r handle userStack kernelStack, t.supervisor.viewOf 1 = some p ∧
      p.userStack = some userStack ∧ p.kernelStack = some kernelStack ∧
      t.supervisor.Owns HostMemory.service HostMemory.Adjusted .empty (Event.calls (events ++ es)) 1
        handle ∧
      (∀ q : Pid, q ≠ 1 → t.supervisor.spaceOf q ≠ some handle) ∧
      s.supervisor.registersOf 1 = some r ∧ t.supervisor.registersOf 1 = some r ∧
      point.IsFor r (HostMemory.service.root t.supervisor.memory handle) userStack kernelStack
        (marked past 1) (moved past 1) := by
  have hbegun : History HostMemory.service HostMemory.Adjusted ⟨8, 4, 4, 4, .lenient⟩ .empty [] [] _ :=
    .start
  have hmade := ((hbegun.perform (.create none 0)).perform (.create (some 1) 0)).perform
    .materializeCreated
  have hleft := ((hmade.perform .tick).perform (.writeActive [(.rip, 0x400), (.flags, 1)])).perform .tick
  have hswitch := hleft.switch_target HostMemory.steadyRoots ?_ ?_ (run_eq_of_result
    (r := .ok (Reply.decision (.switched 1) (some ⟨0x70001fff, 0x400, kernelData, kernelCode, 0x101000⟩)))
    (by decide +kernel))
  · obtain ⟨p, r, handle, userStack, kernelStack, hp, huser, hkernel, howns, hregisters⟩ := hswitch
    exact ⟨_, _, _, _, _, _, hleft, run_eq_of_result (by decide +kernel), rfl, by decide +kernel,
      by decide +kernel, p, r, handle, userStack, kernelStack, hp, huser, hkernel, howns,
      howns.alone HostMemory.freshHandles, hregisters⟩
  · have htame : ∀ command ∈ [.tick, .writeActive [(.rip, 0x400), (.flags, 1)], .tick, .materializeCreated,
        .create (some 1) 0, .create none 0], ∀ active, Command.IsTame command active := by
      simp [Command.IsTame, Registers.assign, Registers.write]
    exact fun entry hmem => htame entry.2 (List.mem_map_of_mem hmem) _
  · refine fun base hbase => of_decide_eq_true ((List.all_eq_true (p := fun base =>
      decide (base.toNat < 2 ^ 64 - pageSize * stackPages))).mp ?_ base hbase)
    decide +kernel

end Session

end Uniprocessor
