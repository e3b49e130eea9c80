import Uniprocessor.Dispatcher

/-!
# Sessions

A session drives a dispatcher by commands and keeps the points where execution resumed after its
ticks. Every command that changes processes runs inside a critical section of its own.
-/

namespace Uniprocessor

/-- A dispatcher together with the switches it made. -/
structure Session (μ space : Type) where
  dispatcher : Dispatcher μ space
  /-- Where execution resumed, in order. -/
  targets : Array ResumePoint

/-- What a dispatcher can be told to do. -/
inductive Command where
  | tick
  | ticks (count : Nat)
  /-- The decision of a tick, without the switch. -/
  | schedule
  | create (parent : Option Pid) (entry : UInt64)
  /-- A series of processes below one parent, or with `nested` each below the one before. -/
  | createMany (nested : Bool) (count : Nat) (parent : Option Pid)
  | clone (source : Pid)
  | destroy (pid : Pid) (cascade : Bool)
  | addChild (parent child : Pid)
  | changeState (pid : Pid) (state : ProcessState)
  | exit (pid : Pid) (status : Int32)
  | setInSystemCall (pid : Pid) (on : Bool)
  | signal (pid : Pid) (signo : UInt8)
  | materialize (pid : Pid)
  | materializeCreated
  | writeActive (writes : List (Register × UInt64))
  | disableInterrupts
  | enableInterrupts
  deriving DecidableEq

/-- What comes back from a command that is not refused. -/
inductive Reply where
  | done
  | pid (pid : Pid)
  | flag (flag : Bool)
  | count (count : Nat)
  | outcome (outcome : TickResult)
  | outcomes (outcomes : List TickResult)
  | decision (outcome : TickResult) (target : Option ResumePoint)
  /-- The processes made and what ended the series early. -/
  | series (made : List Pid) (refusal : Option Refusal)
  deriving DecidableEq

namespace Session

variable {μ space α : Type} (memory : MemoryService μ space)

/-- A session that has just begun. -/
def ofLimits (limits : Limits) (state : μ) : Session μ space where
  dispatcher := .ofSupervisor (.ofLimits limits state) (.flag .initial)
  targets := #[]

/-- The supervisor of the session. -/
def supervisor (s : Session μ space) : Supervisor μ space := s.dispatcher.supervisor

/-- Runs an action on the dispatcher. -/
def onDispatcher (x : Action space (Dispatcher μ space) α) : Action space (Session μ space) α :=
  x.within (·.dispatcher) ({ · with dispatcher := · })

/-- Runs an action on the supervisor without a critical section. -/
def inspect (x : Action space (Supervisor μ space) α) : Action space (Session μ space) α :=
  onDispatcher (Dispatcher.onSupervisor x)

/-- Runs an action on the supervisor inside a critical section. -/
def onSupervisor (x : Action space (Supervisor μ space) α) : Action space (Session μ space) α :=
  onDispatcher (Dispatcher.guarded x)

/-- One tick, with the switch recorded. -/
def tick : Action space (Session μ space) TickResult :=
  (Dispatcher.tick memory Array.push).within (fun s => (s.dispatcher, s.targets)) fun _ t =>
    ⟨t.1, t.2⟩

def ticks : Nat → Action space (Session μ space) (List TickResult)
  | 0 => return []
  | count + 1 => do
    let outcome ← tick memory
    return outcome :: (← ticks count)

/-- Creates processes that start at 0 until `count` are made or one is refused. -/
def createMany (nested : Bool) :
    Nat → Option Pid → Action space (Session μ space) (List Pid × Option Refusal)
  | 0, _ => return ([], none)
  | count + 1, parent => do
    match ← .attempt (onSupervisor (Supervisor.create parent 0)) with
    | .error e => return ([], some e)
    | .ok pid =>
      let (made, refusal) ← createMany nested count (if nested then some pid else parent)
      return (pid :: made, refusal)

/-- Changes how interrupts are controlled. -/
def onInterrupts (f : Interrupts → Interrupts) : Action space (Session μ space) Unit :=
  onDispatcher (modify fun s => { s with interrupts := f s.interrupts })

/-- Carries out a command. -/
def perform : Command → Action space (Session μ space) Reply
  | .tick => return .outcome (← tick memory)
  | .ticks count => return .outcomes (← ticks memory count)
  | .schedule => do
    let (outcome, target) ← onDispatcher (Dispatcher.schedule memory)
    return .decision outcome target
  | .create parent entry => return .pid (← onSupervisor (Supervisor.create parent entry))
  | .createMany nested count parent => do
    let (made, refusal) ← createMany nested count parent
    return .series made refusal
  | .clone source => return .pid (← onSupervisor (Supervisor.clone memory source))
  | .destroy pid cascade => do
    onSupervisor (Supervisor.destroy memory pid cascade)
    return .done
  | .addChild parent child => do
    onSupervisor (Supervisor.addChild parent child)
    return .done
  | .changeState pid state => return .flag (← onSupervisor (Supervisor.changeState pid state))
  | .exit pid status => do
    onSupervisor (Supervisor.exit pid status)
    return .done
  | .setInSystemCall pid on => do
    onSupervisor (Supervisor.setInSystemCall pid on)
    return .done
  | .signal pid signo => do
    onSupervisor (Supervisor.postSignal pid signo)
    return .done
  | .materialize pid => do
    onSupervisor (Supervisor.materialize memory pid)
    return .done
  | .materializeCreated => return .count (← onSupervisor (Supervisor.materializeCreated memory))
  | .writeActive writes => do
    onSupervisor (Supervisor.writeActive writes)
    return .done
  | .disableInterrupts => do
    onInterrupts .disable
    return .done
  | .enableInterrupts => do
    onInterrupts .enable
    return .done

end Session

end Uniprocessor
