import Uniprocessor.Interrupts
import Uniprocessor.Supervisor.Materialize

/-!
# The dispatcher

At each tick of the timer the dispatcher picks the next waiting process in round-robin order,
gives memory to the processes created since, and hands the processor to the one it picked. The
choice comes first, so a new process runs at the tick after the one that gave it memory.
-/

namespace Uniprocessor

/-- What a tick led to. -/
inductive TickResult where
  /-- There are no processes. -/
  | idle
  /-- No process waits; the running one, if any, goes on. -/
  | continued
  /-- The processor was handed to a process. -/
  | switched (pid : Pid)
  /-- The dispatcher was in use and the tick did nothing. -/
  | skipped
  deriving DecidableEq

/-- What the dispatcher counts. -/
structure TickCounters where
  ticks : Nat := 0
  contextSwitches : Nat := 0
  /-- Processes that got memory during a tick. -/
  materialized : Nat := 0
  deriving DecidableEq

/-- A supervisor driven by a timer. -/
structure Dispatcher (μ space : Type) where
  supervisor : Supervisor μ space
  interrupts : Interrupts
  counters : TickCounters

namespace Dispatcher

variable {μ space κ α : Type} (memory : MemoryService μ space)

/-- A dispatcher that has not seen a tick. -/
def ofSupervisor (supervisor : Supervisor μ space) (interrupts : Interrupts) :
    Dispatcher μ space :=
  ⟨supervisor, interrupts, {}⟩

/-- Runs an action inside a critical section. -/
def masked (x : Action space (Dispatcher μ space) α) : Action space (Dispatcher μ space) α :=
  fun s =>
    let (guard, interrupts) := s.interrupts.enter
    match x { s with interrupts := interrupts } with
    | ⟨result, s, events⟩ =>
      ⟨result, { s with interrupts := s.interrupts.leave guard }, events⟩

/-- Runs an action on the supervisor. -/
def onSupervisor (x : Action space (Supervisor μ space) α) :
    Action space (Dispatcher μ space) α :=
  x.within (·.supervisor) ({ · with supervisor := · })

/-- Runs an action on the supervisor with interrupts masked. -/
def guarded (x : Action space (Supervisor μ space) α) : Action space (Dispatcher μ space) α :=
  masked (onSupervisor x)

def count (f : TickCounters → TickCounters) : Action space (Dispatcher μ space) Unit :=
  modify fun s => { s with counters := f s.counters }

/-- Lets a waiting process run and says where it resumes. -/
def promote (pid : Pid) :
    Action space (Dispatcher μ space) (TickResult × Option ResumePoint) := do
  match ← .attempt (onSupervisor (Supervisor.changeState pid .running)) with
  | .ok true =>
    count fun c => { c with contextSwitches := c.contextSwitches + 1 }
    let target := (← get).supervisor.roster.active.resumePoint
    .note (.switched pid target)
    return (.switched pid, some target)
  | .ok false => return (.continued, none)
  | .error e =>
    .note (.cannotRun pid e)
    return (.continued, none)

/-- Decides what the tick leads to, without switching. -/
def schedule : Action space (Dispatcher μ space) (TickResult × Option ResumePoint) := masked do
  count fun c => { c with ticks := c.ticks + 1 }
  let roster := (← get).supervisor.roster
  if roster.isEmpty then return (.idle, none)
  let next := roster.nextInTurn roster.running
  let made ← onSupervisor (Supervisor.materializeCreated memory)
  count fun c => { c with materialized := c.materialized + made }
  match next with
  | none => return (.continued, none)
  | some pid => promote pid

/-- One tick of the timer: `switchTo` is told where to resume if a process was picked. -/
def tick (switchTo : κ → ResumePoint → κ) :
    Action space (Dispatcher μ space × κ) TickResult := do
  let (outcome, target) ← (schedule memory).within Prod.fst fun s dispatcher => (dispatcher, s.2)
  match target with
  | some point => modify fun s => (s.1, switchTo s.2 point)
  | none => pure ()
  return outcome

end Dispatcher

end Uniprocessor
