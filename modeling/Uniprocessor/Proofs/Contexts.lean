import Uniprocessor.Proofs.Runs

/-!
# Registers across switches

A process has its registers on the processor while it runs and in its record while it does not.
Wherever they are, they stay what they are: a switch moves them, and nobody gets those of another.
Only a write to the processor, the mark of a system call and the arrival of memory change them, each
in its own way and for one process.
-/

namespace Uniprocessor

open Relation

/-- All that the arrival of memory changes of the registers of a process. -/
def Registers.MemoryGiven (r r' : Registers) : Prop :=
  r' = { r with cr3 := r'.cr3, rsp := r'.rsp, rsp0 := r'.rsp0 }

/-- What a command with the given result may make of the registers `r` of `pid`, while `runner` was
on the processor and `pid` went from one state of its life to another. -/
def Command.Permits (command : Command) (result : Except Fault Reply) (runner : Option Pid) (pid : Pid)
    (before after : Option ProcessState) (r r' : Registers) : Prop :=
  match command, result with
  | .writeActive writes, .ok _ => r' = if runner = some pid then r.assign writes else r
  | .setInSystemCall target on, .ok _ => r' = if target = pid then r.setInSystemCall on else r
  | .materialize target, .ok _ =>
    if target = pid then before = some .created ∧ after ≠ some .created ∧ r.MemoryGiven r' else r' = r
  | .tick, _ | .ticks _, _ | .schedule, _ | .materializeCreated, _ =>
    r' = r ∨ before = some .created ∧ after ≠ some .created ∧ r.MemoryGiven r'
  | _, _ => r' = r

/-- Whether a command takes processes out. -/
def Command.isDestruction : Command → Bool
  | .destroy .. => true
  | _ => false

lemma Command.permits_refused (command : Command) (fault : Fault) (runner : Option Pid) (pid : Pid)
    (before after : Option ProcessState) (r : Registers) :
    command.Permits (.error fault) runner pid before after r r := by
  cases command <;> first | rfl | exact .inl rfl

lemma ProcessState.canBecome_created (state : ProcessState) : state.canBecome .created = false := by
  cases state <;> rfl

lemma ProcessView.canEnter_created {space : Type} (p : ProcessView space) :
    p.canEnter .created = false := by
  rw [canEnter, ProcessState.canBecome_created, Bool.false_and]

lemma ProcessView.ne_of_canEnter {space : Type} {p : ProcessView space} {state : ProcessState}
    (hcan : p.canEnter state = true) : p.state ≠ state := by
  rintro rfl
  have hself : p.state.canBecome p.state = false := by cases p.state <;> rfl
  rw [canEnter, hself, Bool.false_and] at hcan
  cases hcan

namespace View

variable {μ space : Type} {u v w : View μ space} {pid : Pid} {p : ProcessView space}

/-- The registers of a process: those on the processor if it runs, or else the saved ones. -/
def registersIn (v : View μ space) (pid : Pid) (p : ProcessView space) : Registers :=
  if v.running = some pid then v.active else p.context

/-- `pid` goes on from `v` to `w`, with its registers related by `R`, and is at the beginning of its
life only if it was before. -/
def Carries (R : ProcessView space → ProcessView space → Registers → Registers → Prop) (pid : Pid)
    (v w : View μ space) : Prop :=
  ∀ p, v.table[pid]? = some p → ∃ p', w.table[pid]? = some p' ∧
    (p'.state = .created → p.state = .created) ∧ R p p' (v.registersIn pid p) (w.registersIn pid p')

/-- `pid` goes on with the registers it has. -/
def Keeps (pid : Pid) (v w : View μ space) : Prop := Carries (fun _ _ r r' => r' = r) pid v w

/-- `pid` goes on with the registers it has, or memory arrives for it. -/
def Provides (pid : Pid) (v w : View μ space) : Prop :=
  Carries (fun p p' r r' => r' = r ∨ p.state = .created ∧ p'.state ≠ .created ∧ r.MemoryGiven r') pid v w

lemma Carries.mono {R R' : ProcessView space → ProcessView space → Registers → Registers → Prop}
    (h : Carries R pid v w) (hR : ∀ p p' r r', R p p' r r' → R' p p' r r') : Carries R' pid v w := by
  intro p hp
  obtain ⟨p', hp', hstate, hregisters⟩ := h p hp
  exact ⟨p', hp', hstate, hR _ _ _ _ hregisters⟩

lemma Keeps.refl (pid : Pid) (v : View μ space) : Keeps pid v v :=
  fun p hp => ⟨p, hp, fun h => h, rfl⟩

lemma Keeps.trans (h : Keeps pid u v) (h' : Keeps pid v w) : Keeps pid u w := by
  intro p hp
  obtain ⟨q, hq, hstate, hregisters⟩ := h p hp
  obtain ⟨r, hr, hstate', hregisters'⟩ := h' q hq
  exact ⟨r, hr, fun h => hstate (hstate' h), hregisters'.trans hregisters⟩

lemma Keeps.provides (h : Keeps pid v w) : Provides pid v w := Carries.mono h fun _ _ _ _ => .inl

lemma Provides.trans (h : Provides pid u v) (h' : Provides pid v w) : Provides pid u w := by
  intro p hp
  obtain ⟨q, hq, hstate, hregisters⟩ := h p hp
  obtain ⟨r, hr, hstate', hregisters'⟩ := h' q hq
  refine ⟨r, hr, fun h => hstate (hstate' h), ?_⟩
  rcases hregisters' with heq | ⟨hq, hr, hgiven⟩
  · rcases hregisters with heq' | ⟨hp, hq, hgiven⟩
    · exact .inl (heq.trans heq')
    · exact .inr ⟨hp, fun h => hq (hstate' h), heq ▸ hgiven⟩
  · rcases hregisters with heq' | ⟨-, hnot, -⟩
    · exact .inr ⟨hstate hq, hr, heq' ▸ hgiven⟩
    · exact absurd hq hnot

/-! ### Changes that leave registers alone -/

lemma carries_of_map {R : ProcessView space → ProcessView space → Registers → Registers → Prop}
    {f : ProcessView space → ProcessView space} (hget : w.table[pid]? = v.table[pid]?.map f)
    (h : ∀ p, v.table[pid]? = some p → ((f p).state = .created → p.state = .created) ∧
      R p (f p) (v.registersIn pid p) (w.registersIn pid (f p))) : Carries R pid v w := by
  intro p hp
  rw [hp] at hget
  exact ⟨f p, hget, h p hp⟩

lemma keeps_update (pid target : Nat) (v : View μ space) {f : ProcessView space → ProcessView space}
    (hcontext : ∀ p, (f p).context = p.context) (hstate : ∀ p, (f p).state = p.state) :
    Keeps pid v (v.update target f) := by
  by_cases hpid : pid = target
  · subst hpid
    refine carries_of_map ((get?_update v pid pid f).trans (if_pos rfl)) fun p _ => ⟨?_, ?_⟩
    · rw [hstate]
      exact fun h => h
    · simp only [registersIn, hcontext p]
      rfl
  · intro p hp
    exact ⟨p, by rw [get?_update, if_neg hpid, hp], fun h => h, rfl⟩

lemma keeps_adopt (pid parent child : Nat) (v : View μ space) : Keeps pid v (v.adopt parent child) :=
  (keeps_update pid parent v (by intro _; rfl) (by intro _; rfl)).trans
    (keeps_update pid child _ (by intro _; rfl) (by intro _; rfl))

lemma keeps_born {new : Nat} (hnew : v.table[new]? = none) (pid : Nat) (parent : Option Pid)
    (entry : UInt64) : Keeps pid v (v.born parent new entry) := by
  have henroll : Keeps pid v (v.enroll new entry) := by
    intro p hp
    have hpid : pid ≠ new := by
      rintro rfl
      rw [hnew] at hp
      cases hp
    exact ⟨p, by rw [get?_enroll, if_neg hpid, hp], fun h => h, rfl⟩
  cases parent with
  | none => exact henroll
  | some parent => exact henroll.trans (keeps_adopt pid parent new _)

lemma keeps_remove {target : Nat} (hne : pid ≠ target) (v : View μ space) :
    Keeps pid v (v.remove target) := by
  refine carries_of_map ((get?_remove v target pid).trans (if_neg hne)) fun p _ => ⟨fun h => h, ?_⟩
  have hrunning : (v.remove target).running = some pid ↔ v.running = some pid := by
    rw [remove]
    dsimp only
    split
    · rename_i htarget
      rw [htarget]
      simpa using Ne.symm hne
    · rfl
  simp only [registersIn, hrunning]
  rfl

/-- Nobody comes back from a removal. -/
lemma get?_removeAll_of_none {v : View μ space} (h : v.table[pid]? = none) (pids : List Pid) :
    (v.removeAll pids).table[pid]? = none := by
  induction pids generalizing v with
  | nil => exact h
  | cons target pids ih =>
    apply ih
    rw [get?_remove, h]
    exact ite_self _

lemma keeps_removeAll {v : View μ space} {pids : List Pid}
    (hlive : (v.removeAll pids).table[pid]?.isSome = true) : Keeps pid v (v.removeAll pids) := by
  induction pids generalizing v with
  | nil => exact .refl pid v
  | cons target pids ih =>
    have hne : pid ≠ target := by
      rintro rfl
      have hdead : (v.remove pid).table[pid]? = none := by rw [get?_remove, if_pos rfl]
      have hgone : ((v.remove pid).removeAll pids).table[pid]? = none := get?_removeAll_of_none hdead pids
      rw [removeAll, List.foldl_cons, ← removeAll, hgone] at hlive
      cases hlive
    exact (keeps_remove hne v).trans (ih hlive)

/-! ### Changes of state -/

/-- Registers move with a change of state, and none are lost or mixed up. -/
theorem Lawful.keeps_enter (h : v.Lawful) {target : Nat} {p : ProcessView space}
    (hp : v.table[target]? = some p) {state : ProcessState} (hcan : p.canEnter state = true)
    (pid : Nat) : Keeps pid v (v.enter target state) := by
  refine carries_of_map (get?_enter hp state pid) fun q hq => ⟨?_, ?_⟩
  · rw [afterEntry_state]
    split
    · rintro rfl
      rw [ProcessView.canEnter_created] at hcan
      cases hcan
    · split
      · nofun
      · exact fun h => h
  · rw [registersIn, registersIn, enter_running hp, enter_active hp, afterEntry]
    by_cases hrun : state = .running
    · have hidle : v.running ≠ some target := h.running_ne hp (hrun ▸ ProcessView.ne_of_canEnter hcan)
      by_cases hpid : pid = target
      · -- the one that gets the processor brings its saved registers along
        subst hpid
        rw [hp, Option.some_inj] at hq
        simp [hrun, hidle, hq]
      · -- the one that loses it, if any, has them saved
        simp only [hrun, hpid, Ne.symm hpid, Option.some_inj, if_true, if_false, true_and]
        split <;> rfl
    · by_cases hpid : pid = target
      · subst hpid
        by_cases hrunning : v.running = some pid
        · simp [hrun, hrunning, ProcessView.enter]
        · simp [hrun, hrunning, ProcessView.enter]
      · by_cases hrunning : v.running = some target
        · simp [hrun, hpid, Ne.symm hpid, hrunning]
        · simp [hrun, hpid, hrunning]

/-! ### Memory -/

/-- Memory arrives for one process, and the others have no part in it. -/
lemma Lawful.carries_equipped (h : v.Lawful) {target : Nat} (hw : v.Equipped target w) (pid : Nat) :
    Carries (fun p p' r r' => if target = pid then
      p.state = .created ∧ p'.state ≠ .created ∧ r.MemoryGiven r' else r' = r) pid v w := by
  obtain ⟨p, handle, root, userStack, kernelStack, hp, hstate, rfl⟩ := hw
  by_cases hpid : pid = target
  · subst hpid
    refine carries_of_map ((get?_update v pid pid _).trans (if_pos rfl)) fun q hq => ⟨nofun, ?_⟩
    rw [hp, Option.some_inj] at hq
    subst hq
    have hidle : v.running ≠ some pid := h.running_ne hp (by simp [hstate])
    have hidle' : (v.update pid (·.equipped handle root userStack kernelStack)).running ≠ some pid :=
      hidle
    rw [if_pos rfl, registersIn, registersIn, if_neg hidle, if_neg hidle']
    exact ⟨hstate, nofun, rfl⟩
  · refine fun q hq => ⟨q, by rw [get?_update, if_neg hpid, hq], fun h => h, ?_⟩
    dsimp only
    rw [if_neg (Ne.symm hpid)]
    rfl

lemma keeps_returned {target : Nat} (hw : v.Returned target w) (pid : Nat) : Keeps pid v w := by
  rcases hw with rfl | ⟨p, handle, hp, hstate, -, rfl⟩
  · exact .refl pid _
  · exact keeps_update pid target v (by intro _; rfl) (by intro _; rfl)

lemma Lawful.provides_turn (h : v.Lawful) (hturn : v.Turn w) (pid : Nat) : Provides pid v w := by
  cases hturn with
  | equipped hw =>
    refine (h.carries_equipped hw pid).mono fun p p' r r' hregisters => ?_
    split at hregisters
    · exact .inr hregisters
    · exact .inl hregisters
  | returned hw => exact (keeps_returned hw pid).provides
  | promoted hp hcan => exact (h.keeps_enter hp hcan pid).provides

lemma Lawful.provides_turns (h : v.Lawful) (hturns : ReflTransGen Turn v w) (pid : Nat) :
    Provides pid v w := by
  induction hturns with
  | refl => exact (Keeps.refl pid v).provides
  | tail hbefore hturn ih => exact ih.trans ((h.turns hbefore).provides_turn hturn pid)

lemma keeps_births (hbirths : ReflTransGen Birth v w) (pid : Nat) :
    Keeps pid v w := by
  induction hbirths with
  | refl => exact .refl pid v
  | tail hbefore hbirth ih =>
    cases hbirth with
    | intro entry hfree hparent => exact ih.trans (keeps_born (get?_of_freePid? hfree) pid _ entry)

/-! ### Commands -/

lemma carries_flagged (target : Nat) (on : Bool) (v : View μ space) (pid : Nat) :
    Carries (fun _ _ r r' => r' = if target = pid then r.setInSystemCall on else r) pid v
      (v.flagged target on) := by
  rw [flagged]
  by_cases hrunning : v.running = some target
  · rw [if_pos hrunning]
    refine fun p hp => ⟨p, hp, fun h => h, ?_⟩
    simp only [registersIn, hrunning, Option.some_inj]
    split <;> rfl
  · rw [if_neg hrunning]
    by_cases hpid : pid = target
    · subst hpid
      refine carries_of_map ((get?_update v pid pid _).trans (if_pos rfl)) fun p _ => ⟨fun h => h, ?_⟩
      have hrunning' : (v.update pid fun p =>
        { p with context := p.context.setInSystemCall on }).running ≠ some pid := hrunning
      rw [registersIn, registersIn, if_neg hrunning, if_neg hrunning', if_pos rfl]
    · refine fun p hp => ⟨p, by rw [get?_update, if_neg hpid, hp], fun h => h, ?_⟩
      exact (if_neg (Ne.symm hpid)).symm

lemma carries_written (writes : List (Register × UInt64)) (v : View μ space) (pid : Nat) :
    Carries (fun _ _ r r' => r' = if v.running = some pid then r.assign writes else r) pid v
      { v with active := v.active.assign writes } := by
  refine fun p hp => ⟨p, hp, fun h => h, ?_⟩
  simp only [registersIn]
  split <;> rfl

lemma Accounts.registersIn_eq {memory : MemoryService μ space} {outside : μ → μ → Prop} {start : μ}
    {hand : Multiset space} {calls : List (MemoryCall space)}
    (h : Accounts memory outside start hand v calls w) (pid : Pid) :
    w.registersIn pid = v.registersIn pid := by
  rw [h.same]
  rfl

/-- A command makes of the registers of a process what it may, unless it ends the process. -/
theorem Lawful.carries_step (h : v.Lawful) {command : Command} {result : Except Fault Reply}
    (hstep : v.Step command result w) {pid : Nat}
    (hlive : command.isDestruction = true → w.table[pid]?.isSome = true) :
    Carries (fun p p' r r' => command.Permits result v.running pid (some p.state) (some p'.state) r r')
      pid v w := by
  cases hstep with
  | stopped command fault =>
    exact (Keeps.refl pid v).mono fun _ _ _ _ heq => heq ▸ command.permits_refused fault _ _ _ _ _
  | created entry hfree _ => exact keeps_born (get?_of_freePid? hfree) pid _ entry
  | createdMany nested count parent result hbirths => exact keeps_births hbirths pid
  | cloned entry copy hfree _ =>
    exact (keeps_born (get?_of_freePid? hfree) pid _ entry).trans
      (keeps_update pid _ _ (by intro _; rfl) (by intro _; rfl))
  | destroyed target cascade removed => exact keeps_removeAll (hlive rfl)
  | linked => exact keeps_adopt pid _ _ v
  | changed hp hcan => exact h.keeps_enter hp hcan pid
  | ignored => exact Keeps.refl pid v
  | exited status hp hcan =>
    exact (h.keeps_enter hp hcan pid).trans
      (keeps_update pid _ _ (by intro _; rfl) (by intro _; rfl))
  | notExited => exact Keeps.refl pid v
  | flagged on _ => exact carries_flagged _ on v pid
  | signalled signo _ => exact keeps_update pid _ v (by intro _; rfl) (by intro _; rfl)
  | materialized hw =>
    refine (h.carries_equipped hw pid).mono fun p p' r r' hregisters => ?_
    rw [Command.Permits, Option.some_inj, Ne, Option.some_inj]
    exact hregisters
  | notMaterialized fault hw => exact keeps_returned hw pid
  | @turned command after result hcommand hturns =>
    refine (h.provides_turns hturns pid).mono fun p p' r r' hregisters => ?_
    have hprovided : r' = r ∨ some p.state = some .created ∧ some p'.state ≠ some .created ∧
        r.MemoryGiven r' := by simpa using hregisters
    cases command <;> first | exact hprovided | cases hcommand
  | written writes => exact carries_written writes v pid
  | interrupts hcommand =>
    rcases hcommand with rfl | rfl
    · exact Keeps.refl pid v
    · exact Keeps.refl pid v

end View

/-! ### Sessions -/

variable {μ space : Type}

namespace Supervisor

variable {s : Supervisor μ space} {v : View μ space}

/-- The registers of a live process: those on the processor if it runs, or else the saved ones. -/
def registersOf (s : Supervisor μ space) (pid : Pid) : Option Registers :=
  (s.roster.get? pid).map fun p =>
    if s.roster.running = some pid then s.roster.active else p.context

def stateOf (s : Supervisor μ space) (pid : Pid) : Option ProcessState :=
  (s.roster.get? pid).map (·.state)

lemma isSome_registersOf (s : Supervisor μ space) (pid : Pid) :
    (s.registersOf pid).isSome = (s.stateOf pid).isSome := by
  rw [registersOf, stateOf, Option.isSome_map, Option.isSome_map]

lemma active_eq_of_registersOf {pid : Pid} {r : Registers} (hrunning : s.roster.running = some pid)
    (h : s.registersOf pid = some r) : s.roster.active = r := by
  obtain ⟨p, -, heq⟩ := Option.map_eq_some_iff.mp h
  rw [if_pos hrunning] at heq
  exact heq

lemma Shows.registersOf_eq (h : s.Shows v) (pid : Nat) :
    s.registersOf pid = v.table[pid]?.map (v.registersIn pid) := by
  rw [h.records, Roster.record?, registersOf, Option.map_map, Option.map_map, ← h.running, ← h.active]
  rfl

lemma Shows.stateOf_eq (h : s.Shows v) (pid : Nat) : s.stateOf pid = v.table[pid]?.map (·.state) := by
  rw [h.records, Roster.record?, stateOf, Option.map_map, Option.map_map]
  rfl

end Supervisor

namespace Session

variable (memory : MemoryService μ space) (outside : μ → μ → Prop)

/-- Whether a command leaves `pid` alone: it does not write its registers while it runs, does not
mark it, and does not end it. -/
def Spares (s : Session μ space) (pid : Pid) : Command → Prop
  | .writeActive _ => s.supervisor.roster.running ≠ some pid
  | .setInSystemCall target _ => target ≠ pid
  | .destroy target cascade =>
    (((perform memory (.destroy target cascade)).run s).state.supervisor.stateOf pid).isSome = true
  | _ => True

/-- What follows from a session by commands that leave `pid` alone. -/
inductive Sparing (pid : Pid) (s : Session μ space) : Session μ space → Prop
  | refl : Sparing pid s s
  | perform {t} (command : Command) : Sparing pid s t → t.Spares memory pid command →
      Sparing pid s ((perform memory command).run t).state
  | outside {t m} : Sparing pid s t → outside t.supervisor.memory m → Sparing pid s (t.withMemory m)
  | heap {t} (storage : Storage) : Sparing pid s t → Sparing pid s (t.withStorage storage)

variable {memory outside} {limits : Limits} {start : μ} {events : List (Event space)}
  {s t : Session μ space} {pid : Nat}

/-- A command passes on the registers of every process that it does not end. -/
lemma Run.carries_perform (h : Run memory outside limits start events s) (command : Command)
    (hlive : command.isDestruction = true →
      (((Session.perform memory command).run s).state.supervisor.stateOf pid).isSome = true)
    {state : ProcessState} {r : Registers} (hstate : s.supervisor.stateOf pid = some state)
    (hregisters : s.supervisor.registersOf pid = some r) :
    ∃ state' r', ((Session.perform memory command).run s).state.supervisor.stateOf pid = some state' ∧
      ((Session.perform memory command).run s).state.supervisor.registersOf pid = some r' ∧
      (state' = .created → state = .created) ∧
      command.Permits ((Session.perform memory command).run s).result s.supervisor.roster.running pid
        (some state) (some state') r r' := by
  obtain ⟨v, hshows, hlawful, htraffic⟩ := h.shows
  obtain ⟨v', w, hstep, hafter, haccounts⟩ := hshows.perform hlawful htraffic command
  have htable := haccounts.table_eq
  rw [Supervisor.Shows.stateOf_eq hshows] at hstate
  obtain ⟨p, hp, rfl⟩ := Option.map_eq_some_iff.mp hstate
  rw [Supervisor.Shows.registersOf_eq hshows, hp] at hregisters
  cases hregisters
  rw [Supervisor.Shows.stateOf_eq hafter, htable, Option.isSome_map] at hlive
  obtain ⟨p', hp', hcreated, hpermits⟩ := hlawful.carries_step hstep hlive p hp
  refine ⟨p'.state, v'.registersIn pid p', ?_, ?_, hcreated, ?_⟩
  · rw [Supervisor.Shows.stateOf_eq hafter, htable, hp']
    rfl
  · rw [Supervisor.Shows.registersOf_eq hafter, htable, hp', haccounts.registersIn_eq]
    rfl
  · rw [← Supervisor.Shows.running hshows]
    exact hpermits

lemma Spares.isSome {command : Command} (h : s.Spares memory pid command)
    (hdestruction : command.isDestruction = true) :
    (((perform memory command).run s).state.supervisor.stateOf pid).isSome = true := by
  cases command with
  | destroy target cascade => exact h
  | _ => cases hdestruction

/-- A command that spares a process past the beginning of its life leaves it its registers. -/
lemma Spares.eq_of_permits {command : Command} (h : s.Spares memory pid command)
    {result : Except Fault Reply} {before after : Option ProcessState} {r r' : Registers}
    (hbefore : before ≠ some .created)
    (hpermits : command.Permits result s.supervisor.roster.running pid before after r r') : r' = r := by
  cases command with
  | writeActive writes =>
    cases result with
    | error fault => exact hpermits
    | ok reply => exact hpermits.trans (if_neg h)
  | setInSystemCall target on =>
    cases result with
    | error fault => exact hpermits
    | ok reply => exact hpermits.trans (if_neg h)
  | materialize target =>
    cases result with
    | error fault => exact hpermits
    | ok reply =>
      rw [Command.Permits] at hpermits
      split at hpermits
      · exact absurd hpermits.1 hbefore
      · exact hpermits
  | tick | ticks | schedule | materializeCreated =>
    rcases hpermits with heq | ⟨hcreated, -⟩
    · exact heq
    · exact absurd hcreated hbefore
  | _ => exact hpermits

/-- While a process is spared, it keeps its registers. -/
lemma Run.registers_of_sparing (h : Run memory outside limits start events s)
    (hsparing : Sparing memory outside pid s t) {state : ProcessState} {r : Registers}
    (hstate : s.supervisor.stateOf pid = some state) (hcreated : state ≠ .created)
    (hregisters : s.supervisor.registersOf pid = some r) :
    (∃ events, Run memory outside limits start events t) ∧
      (∃ state, t.supervisor.stateOf pid = some state ∧ state ≠ .created) ∧
      t.supervisor.registersOf pid = some r := by
  induction hsparing with
  | refl => exact ⟨⟨events, h⟩, ⟨state, hstate, hcreated⟩, hregisters⟩
  | @perform t command _ hspares ih =>
    obtain ⟨⟨events, hrun⟩, ⟨state, hstate, hcreated⟩, hregisters⟩ := ih
    obtain ⟨state', r', hstate', hregisters', hlater, hpermits⟩ :=
      hrun.carries_perform command hspares.isSome hstate hregisters
    refine ⟨⟨_, hrun.perform command⟩, ⟨state', hstate', fun h => hcreated (hlater h)⟩, ?_⟩
    rw [hregisters', hspares.eq_of_permits (by rwa [Ne, Option.some_inj]) hpermits]
  | outside _ houtside ih =>
    obtain ⟨⟨events, hrun⟩, hstate, hregisters⟩ := ih
    exact ⟨⟨_, hrun.outside houtside⟩, hstate, hregisters⟩
  | heap storage _ ih =>
    obtain ⟨⟨events, hrun⟩, hstate, hregisters⟩ := ih
    exact ⟨⟨_, hrun.heap storage⟩, hstate, hregisters⟩

/-- The registers of processes survive: in every state that a run leads to, a command makes of the
registers of a process that lives before and after it only what it may; and a process that has left
the processor finds there, when it comes back, the registers that it left. -/
theorem Run.registers (h : Run memory outside limits start events s) (pid : Pid) :
    (∀ command r r', s.supervisor.registersOf pid = some r →
      ((Session.perform memory command).run s).state.supervisor.registersOf pid = some r' →
      command.Permits ((Session.perform memory command).run s).result s.supervisor.roster.running pid
        (s.supervisor.stateOf pid)
        (((Session.perform memory command).run s).state.supervisor.stateOf pid) r r') ∧
    ∀ t, Sparing memory outside pid s t → s.supervisor.roster.running = some pid →
      t.supervisor.roster.running = some pid →
      t.supervisor.roster.active = s.supervisor.roster.active := by
  constructor
  · intro command r r' hr hr'
    have hlive := s.supervisor.isSome_registersOf pid
    rw [hr, Option.isSome_some, eq_comm, Option.isSome_iff_exists] at hlive
    obtain ⟨state, hstate⟩ := hlive
    have hsurvives :=
      ((Session.perform memory command).run s).state.supervisor.isSome_registersOf pid
    rw [hr', Option.isSome_some] at hsurvives
    obtain ⟨state', r'', hstate', heq, -, hpermits⟩ :=
      h.carries_perform command (fun _ => hsurvives.symm) hstate hr
    rw [hr', Option.some_inj] at heq
    rw [hstate, hstate', heq]
    exact hpermits
  · intro t hsparing hbefore hafter
    obtain ⟨v, hshows, hlawful, -⟩ := h.shows
    have hrunning : v.running = some pid := (Supervisor.Shows.running hshows).trans hbefore
    obtain ⟨p, hp⟩ := hlawful.live pid hrunning
    have hstate : s.supervisor.stateOf pid = some .running := by
      rw [Supervisor.Shows.stateOf_eq hshows, hp, Option.map_some,
        (hlawful.runner pid p hp).mpr hrunning]
    have hregisters : s.supervisor.registersOf pid = some s.supervisor.roster.active := by
      rw [Supervisor.Shows.registersOf_eq hshows, hp, Option.map_some, View.registersIn, if_pos hrunning,
        Supervisor.Shows.active hshows]
    obtain ⟨-, -, hkept⟩ := h.registers_of_sparing hsparing hstate nofun hregisters
    exact Supervisor.active_eq_of_registersOf hafter hkept

/-- Two processes take turns, and the first finds what it wrote to a register. -/
theorem registers_after_turns : ∃ events s t,
    Run HostMemory.service HostMemory.Adjusted ⟨8, 4, 4, 4, .lenient⟩ .empty events s ∧
    Sparing HostMemory.service HostMemory.Adjusted 1 s t ∧
    s.supervisor.roster.running = some 1 ∧ s.supervisor.roster.active.rax = 7 ∧
    t.supervisor.roster.running = some 1 ∧
    t.supervisor.roster.active = s.supervisor.roster.active := by
  have hbegun : Run HostMemory.service HostMemory.Adjusted ⟨8, 4, 4, 4, .lenient⟩ .empty [] _ := .start
  have hmade := ((hbegun.perform (.create none 0)).perform (.create none 0)).perform .materializeCreated
  have hwritten := (hmade.perform .tick).perform (.writeActive [(.rax, 7)])
  have hback := (hwritten.registers 1).2 _
    ((Sparing.refl.perform .tick trivial).perform .tick trivial)
  exact ⟨_, _, _, hwritten, (Sparing.refl.perform .tick trivial).perform .tick trivial,
    by decide +kernel, by decide +kernel, by decide +kernel,
    hback (by decide +kernel) (by decide +kernel)⟩

end Session

end Uniprocessor
