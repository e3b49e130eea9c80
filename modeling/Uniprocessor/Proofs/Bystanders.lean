import Uniprocessor.Proofs.Resemblance
import Uniprocessor.Proofs.Ticks

/-!
# Bystanders of a command

A command about one process leaves the records of all others alone, and never changes which
processes there are. Two things reach further: who gets the processor takes it from the one that
runs, and a link shows at both of its ends.
-/

namespace Uniprocessor

open Uniprocessor.Action Relation

/-- Whether a command is about a process, or a link between two, and neither makes processes nor ends
them. -/
def Command.isLocal : Command → Bool
  | .addChild _ _ | .changeState _ _ | .exit _ _ | .setInSystemCall _ _ | .signal _ _
  | .materialize _ => true
  | _ => false

/-- The process that such a command is about. A link is about none of the two. -/
def Command.subject : Command → Option Pid
  | .changeState pid _ | .exit pid _ | .setInSystemCall pid _ | .signal pid _ | .materialize pid =>
    some pid
  | _ => none

lemma Command.isTurn_of_isLocal {command : Command} (h : command.isLocal = true) :
    command.isTurn = false := by
  cases command <;> first | rfl | cases h

namespace ProcessView

variable {space : Type}

/-- A process that had to leave the processor, with the registers found there. -/
def demoted (active : Registers) (p : ProcessView space) : ProcessView space :=
  { p with context := active, previous := .running, state := .waiting }

/-- What a command that came to `result` makes of the record of `pid`, unless it is about `pid`. -/
def bystander (command : Command) (result : Except Fault Reply) (running : Option Pid)
    (active : Registers) (pid : Pid) (p : ProcessView space) : ProcessView space :=
  match command, result with
  | .changeState _ .running, .ok (.flag true) => if running = some pid then p.demoted active else p
  | .addChild parent child, .ok _ =>
    if pid = parent then { p with children := p.children ++ [child] }
    else if pid = child then { p with parent := some parent }
    else p
  | _, _ => p

variable {running : Option Pid} {active : Registers} {pid : Pid}

@[simp]
lemma bystander_error (command : Command) (fault : Fault) :
    (bystander command (.error fault) running active pid : ProcessView space → _) = id := by
  funext p
  unfold bystander
  split <;> first | rfl | contradiction

lemma bystander_changeState (target : Pid) {state : ProcessState} {changed : Bool}
    (h : ¬(state = .running ∧ changed = true)) :
    (bystander (.changeState target state) (.ok (.flag changed)) running active pid :
      ProcessView space → _) = id := by
  funext p
  unfold bystander
  split
  · simp_all
  · contradiction
  · rfl

end ProcessView

namespace View

variable {μ space : Type} {v w : View μ space} {p : ProcessView space} {pid : Pid}

lemma get?_adopt (v : View μ space) {parent child : Nat} (hne : parent ≠ child) (q : Nat) :
    (v.adopt parent child).table[q]? = v.table[q]?.map fun p =>
      if q = parent then { p with children := p.children ++ [child] }
      else if q = child then { p with parent := some parent }
      else p := by
  rw [adopt, get?_update, get?_update, get?_update, if_neg hne.symm]
  by_cases hparent : q = parent
  · subst hparent
    simp [hne]
  · by_cases hchild : q = child
    · subst hchild
      simp [hparent]
    · simp [hparent, hchild]

/-- Whoever else is there keeps its record, unless it has to make room on the processor. -/
lemma Lawful.bystander_enter (h : v.Lawful) (hp : v.table[pid]? = some p) (state : ProcessState)
    {q : Nat} (hq : q ≠ pid) :
    (v.enter pid state).table[q]? =
      v.table[q]?.map (.bystander (.changeState pid state) (.ok (.flag true)) v.running v.active q) := by
  rw [get?_enter hp]
  refine Option.map_congr fun r hr => ?_
  rw [afterEntry, if_neg hq]
  by_cases hstate : state = .running
  · subst hstate
    by_cases hrunning : v.running = some q
    · have hbefore : r.state = .running := (h.runner q r hr).mpr hrunning
      rw [if_pos ⟨rfl, hrunning⟩, ProcessView.bystander, if_pos hrunning, ProcessView.enter, hbefore]
      rfl
    · rw [if_neg fun hroom => hrunning hroom.2, ProcessView.bystander, if_neg hrunning]
  · rw [if_neg fun hroom => hstate hroom.1,
      ProcessView.bystander_changeState pid fun hboth => hstate hboth.1]
    rfl

/-- Only the record of `pid` changes. -/
lemma others_of_update {f : ProcessView space → ProcessView space} (h : w = v.update pid f) (q : Nat) :
    w.table[q]?.isSome = v.table[q]?.isSome ∧ (some pid ≠ some q → w.table[q]? = v.table[q]?) := by
  rw [h, get?_update]
  split
  · rename_i heq
    rw [heq, Option.isSome_map]
    exact ⟨rfl, fun hne => absurd rfl hne⟩
  · exact ⟨rfl, fun _ => rfl⟩

/-- A local command changes each record by itself, and one that it is not about as a bystander. -/
theorem Lawful.alters (h : v.Lawful) {command : Command} {result : Except Fault Reply}
    (hstep : v.Step command result w) (hlocal : command.isLocal = true) (q : Nat) :
    w.table[q]?.isSome = v.table[q]?.isSome ∧
      (command.subject ≠ some q →
        w.table[q]? = v.table[q]?.map (.bystander command result v.running v.active q)) := by
  have hmap : ∀ {w : View μ space} {f : ProcessView space → ProcessView space},
      w.table[q]? = v.table[q]?.map f → w.table[q]?.isSome = v.table[q]?.isSome := by
    intro w f hget
    rw [hget, Option.isSome_map]
  cases hstep with
  | stopped => exact ⟨rfl, fun _ => by simp⟩
  | ignored pid state =>
    refine ⟨rfl, fun _ => ?_⟩
    rw [ProcessView.bystander_changeState pid fun hboth => Bool.false_ne_true hboth.2, Option.map_id,
      id_eq]
  | notExited => exact ⟨rfl, fun _ => Option.map_id'.symm⟩
  | @linked parent child hp hc hroot hapart =>
    have hne : parent ≠ child := by
      rintro rfl
      simp [lineage, lineageWithin] at hapart
    exact ⟨hmap (get?_adopt v hne q), fun _ => get?_adopt v hne q⟩
  | @changed pid state p hp hcan =>
    refine ⟨hmap (get?_enter hp state q), fun hq => h.bystander_enter hp state fun heq => hq ?_⟩
    rw [heq]
    rfl
  | @exited pid p status hp hcan =>
    obtain ⟨hsome, hother⟩ := others_of_update rfl q
    refine ⟨hsome.trans (hmap (get?_enter hp .terminated q)), fun hq => (hother hq).trans ?_⟩
    rw [h.bystander_enter hp .terminated fun heq => hq (congrArg some heq.symm)]
    rfl
  | @flagged pid on hp =>
    rw [View.flagged]
    split
    · exact ⟨rfl, fun _ => Option.map_id'.symm⟩
    · obtain ⟨hsome, hother⟩ := others_of_update rfl q
      exact ⟨hsome, fun hq => (hother hq).trans Option.map_id'.symm⟩
  | signalled signo hp =>
    obtain ⟨hsome, hother⟩ := others_of_update rfl q
    exact ⟨hsome, fun hq => (hother hq).trans Option.map_id'.symm⟩
  | materialized hw =>
    obtain ⟨p, handle, root, userStack, kernelStack, hp, hstate, hw⟩ := hw
    obtain ⟨hsome, hother⟩ := others_of_update hw q
    exact ⟨hsome, fun hq => (hother hq).trans Option.map_id'.symm⟩
  | notMaterialized fault hw =>
    rw [ProcessView.bystander_error, Option.map_id, id_eq]
    rcases hw with rfl | ⟨p, handle, -, -, -, hw⟩
    · exact ⟨rfl, fun _ => rfl⟩
    · exact others_of_update hw q
  | turned result hturn =>
    rw [Command.isTurn_of_isLocal hlocal] at hturn
    cases hturn
  | interrupts hcommand => rcases hcommand with rfl | rfl <;> cases hlocal
  | created | createdMany | cloned | destroyed | written => cases hlocal

end View

namespace Session

variable {μ space : Type} {memory : MemoryService μ space} {outside : μ → μ → Prop} {limits : Limits}
  {start : μ} {events : List (Event space)} {s : Session μ space}

/-- The frame of a local command: in every state that a run leads to, whatever comes of the command,
the record of every process that it is not about stays as it is, but for the process that has to make
room on the processor and for the two ends of a new link. The same processes are live and the same
identifiers in use. -/
theorem Run.bystanders (h : Run memory outside limits start events s) (command : Command)
    (hlocal : command.isLocal = true) :
    let outcome := (Session.perform memory command).run s
    (∀ pid, command.subject ≠ some pid →
      outcome.state.supervisor.viewOf pid =
        (s.supervisor.viewOf pid).map (.bystander command outcome.result s.supervisor.roster.running
          s.supervisor.roster.active pid)) ∧
    outcome.state.supervisor.processes.map (·.pid) = s.supervisor.processes.map (·.pid) ∧
    outcome.state.supervisor.pids.toList = s.supervisor.pids.toList := by
  intro outcome
  obtain ⟨v, hshows, hlawful, htraffic⟩ := h.shows
  obtain ⟨v', w, hstep, hafter, haccounts⟩ := hshows.perform hlawful htraffic command
  have halters := hlawful.alters hstep hlocal
  have hpids : outcome.state.supervisor.pids.toList = s.supervisor.pids.toList := by
    rw [Supervisor.Shows.usedPids_eq hafter, Supervisor.Shows.usedPids_eq hshows, haccounts.table_eq]
    exact View.keys_congr fun q => (halters q).1
  refine ⟨fun pid hpid => ?_, ?_, hpids⟩
  · rw [Supervisor.Shows.viewOf_eq hafter, Supervisor.Shows.viewOf_eq hshows, haccounts.table_eq,
      ← Supervisor.Shows.running hshows, ← Supervisor.Shows.active hshows]
    exact (halters pid).2 hpid
  · rw [Supervisor.Shows.map_pid_processes hafter, Supervisor.Shows.map_pid_processes hshows, hpids]

/-- A process leaves the processor when another is promoted. -/
theorem bystanders_of_promotion : ∃ events s,
    Run HostMemory.service HostMemory.Adjusted ⟨8, 4, 4, 4, .lenient⟩ .empty events s ∧
    (Command.changeState 2 .running).isLocal = true ∧
    ((Session.perform HostMemory.service (.changeState 2 .running)).run s).result = .ok (.flag true) ∧
    s.supervisor.stateOf 1 = some .running ∧
    ((Session.perform HostMemory.service (.changeState 2 .running)).run s).state.supervisor.viewOf 1 =
      (s.supervisor.viewOf 1).map (.demoted s.supervisor.roster.active) := by
  have hbegun : Run HostMemory.service HostMemory.Adjusted ⟨8, 4, 4, 4, .lenient⟩ .empty [] _ := .start
  have hpair := (hbegun.perform (.create none 0)).perform (.create none 0)
  have hrun := (hpair.perform .materializeCreated).perform (.changeState 1 .running)
  obtain ⟨hothers, -, -⟩ := hrun.bystanders (.changeState 2 .running) rfl
  exact ⟨_, _, hrun, rfl, by decide +kernel, by decide +kernel,
    (hothers 1 (by decide)).trans (by decide +kernel)⟩

end Session

end Uniprocessor
