import Uniprocessor.Session

/-!
# The dispatcher of a machine

A machine has room for one dispatcher, behind a lock, and for the primitive that switches to the
process the dispatcher picked. The timer calls `tick`; other code reaches the dispatcher through
`usingDispatcher`. A tick that finds the lock taken is counted and skipped. The switch happens
after the lock is released, so the primitive may call back.
-/

namespace Uniprocessor

/-- A primitive that records its switches instead of making them. -/
structure SwitchPrimitive where
  tag : Nat
  /-- Whether it asks the dispatcher for the running process at each switch. -/
  reenter : Bool
  deriving DecidableEq

/-- What a primitive records. -/
inductive SwitchRecord where
  | switched (tag : Nat) (target : ResumePoint)
  /-- The running process, asked for during a switch. -/
  | inside (running : Except Refusal (Option Pid))
  /-- What a tick during a switch led to. -/
  | nested (outcome : TickResult)

/-- A machine with at most one dispatcher. -/
structure Machine (μ space : Type) where
  dispatcher : Option (Dispatcher μ space)
  primitive : Option SwitchPrimitive
  locked : Bool
  /-- Ticks of the timer since the machine was started. -/
  timerTicks : Nat
  /-- Ticks that found the dispatcher in use. -/
  missedTicks : Nat
  /-- What the primitive recorded. -/
  switches : List SwitchRecord
  /-- Where execution resumed after ticks made directly on the dispatcher. -/
  targets : Array ResumePoint

namespace Machine

variable {μ space α : Type} (memory : MemoryService μ space)

/-- A machine without a dispatcher. -/
def initial : Machine μ space := ⟨none, none, false, 0, 0, [], #[]⟩

/-- Runs an action with the lock held, and releases the lock whatever happens. -/
def holdingLock (x : Action space (Machine μ space) α) : Action space (Machine μ space) α :=
  fun m =>
    match x { m with locked := true } with
    | ⟨result, m, events⟩ => ⟨result, { m with locked := false }, events⟩

/-- Installs a dispatcher and a primitive. Only the first installation succeeds. -/
def install (dispatcher : Dispatcher μ space) (primitive : SwitchPrimitive) :
    Action space (Machine μ space) Unit := do
  if (← get).dispatcher.isSome then
    .note .installRefused
    .fail (.invalidArgument .alreadyInstalled)
  modify fun m => { m with dispatcher := some dispatcher, primitive := some primitive }
  .note .installed

/-- Builds a dispatcher over a new supervisor and installs it. -/
def installNew (limits : Limits) (state : μ) (interrupts : Interrupts)
    (primitive : SwitchPrimitive) : Action space (Machine μ space) Unit := do
  .note (.built limits)
  install (.ofSupervisor (.ofLimits limits state) interrupts) primitive

/-- Whether the installed dispatcher controls interrupts in the given way. -/
def hasKind (m : Machine μ space) (kind : Interrupts.Kind) : Bool :=
  (m.dispatcher.map (·.interrupts.kind)) == some kind

/-- Runs `body` with the lock on the dispatcher held. Refused while the lock is held further up
the call chain, and when no dispatcher of the given kind is installed. -/
def usingDispatcher (kind : Interrupts.Kind) (body : Action space (Machine μ space) α) :
    Action space (Machine μ space) α := do
  if (← get).locked then .fail .busy
  if !(← get).hasKind kind then .fail (.invalidArgument .notInstalled)
  holdingLock body

/-- Runs an action on the installed dispatcher. -/
def onDispatcher (x : Action space (Dispatcher μ space) α) :
    Action space (Machine μ space) α := do
  match (← get).dispatcher with
  | none => .fail (.invalidArgument .notInstalled)
  | some dispatcher => x.within (fun _ => dispatcher) ({ · with dispatcher := some · })

/-- Runs a session on the installed dispatcher, with the machine's record of its switches. -/
def onSession (x : Action space (Session μ space) α) : Action space (Machine μ space) α := do
  match (← get).dispatcher with
  | none => .fail (.invalidArgument .notInstalled)
  | some dispatcher =>
    x.within (fun m => ⟨dispatcher, m.targets⟩) fun m s =>
      { m with dispatcher := some s.dispatcher, targets := s.targets }

/-- The process that runs. -/
def running : Action space (Machine μ space) (Option Pid) := do
  match (← get).dispatcher with
  | none => return none
  | some dispatcher => return dispatcher.supervisor.roster.running

/-- The decision of the installed dispatcher. -/
def schedule : Action space (Machine μ space) (TickResult × Option ResumePoint) := do
  if (← get).dispatcher.isSome then onDispatcher (Dispatcher.schedule memory)
  else return (.idle, none)

/-- One tick of the timer. `switchTo` is the switch primitive; it runs without the lock. -/
def tickWith (switchTo : ResumePoint → Action space (Machine μ space) Unit) :
    Action space (Machine μ space) TickResult := do
  modify fun m => { m with timerTicks := m.timerTicks + 1 }
  if (← get).locked then
    modify fun m => { m with missedTicks := m.missedTicks + 1 }
    .note .tickSkipped
    return .skipped
  let (outcome, target) ← holdingLock (schedule memory)
  match target with
  | some point => switchTo point
  | none => pure ()
  return outcome

def record (entry : SwitchRecord) : Action space (Machine μ space) Unit :=
  modify fun m => { m with switches := m.switches ++ [entry] }

/-- The installed primitive at work. While `nested` allows, the timer ticks once during each
switch. -/
def switchTo : Nat → ResumePoint → Action space (Machine μ space) Unit
  | nested, target => do
    match (← get).primitive with
    | none => return
    | some primitive =>
      record (.switched primitive.tag target)
      if primitive.reenter then
        record (.inside (← .attempt (usingDispatcher .flag running)))
      match nested with
      | 0 => return
      | nested + 1 => record (.nested (← tickWith memory (switchTo nested)))

/-- One tick of the timer, with up to `nested` more during its switch. -/
def tick (nested : Nat) : Action space (Machine μ space) TickResult :=
  tickWith memory (switchTo memory nested)

/-- Takes out what the primitive recorded. -/
def takeSwitches : Action space (Machine μ space) (List SwitchRecord) :=
  modifyGet fun m => (m.switches, { m with switches := [] })

end Machine

end Uniprocessor
