import Uniprocessor.Roster.Scan

/-!
# The supervisor of the processes

A supervisor owns the roster of processes, their identifiers, the pools of child links and of
pending signals, and the state of the memory service. This file holds its type, its queries and
the operations that touch one process only.
-/

namespace Uniprocessor

/-- The processes of a machine whose memory service has state `μ` and handles `space`. -/
structure Supervisor (μ space : Type) where
  limits : Limits
  memory : μ
  pids : PidSpace
  roster : Roster space
  links : Pool ChildEntry
  signals : Pool SignalEntry

/-- How many records the heap has room for behind each pool, and how many entries in the index of the
roster. -/
structure Storage where
  processes : Nat
  index : Nat
  links : Nat
  signals : Nat
  deriving DecidableEq

/-- How much of each resource is in use. -/
structure Usage where
  live : Nat
  running : Option Pid
  pidsInUse : Nat
  pidsAvailable : Nat
  childLinks : Nat
  pendingSignals : Nat
  deriving DecidableEq

namespace Supervisor

variable {μ space α : Type}

/-- A supervisor without processes. -/
def ofLimits (limits : Limits) (memory : μ) : Supervisor μ space where
  limits := limits
  memory := memory
  pids := .ofCapacity limits.pids
  roster := .ofCapacity limits.processes limits.policy
  links := .ofCapacity "child_link" limits.links .blank
  signals := .ofCapacity "signal" limits.signals .blank

/-- The heap has come to have other room. -/
def withStorage (s : Supervisor μ space) (storage : Storage) : Supervisor μ space :=
  { s with
    roster := s.roster.withStorage storage.processes storage.index
    links := s.links.withStorage storage.links
    signals := s.signals.withStorage storage.signals }

def usage (s : Supervisor μ space) : Usage where
  live := s.roster.size
  running := s.roster.running
  pidsInUse := s.pids.used
  pidsAvailable := s.pids.available
  childLinks := s.links.size
  pendingSignals := s.signals.size

/-- The live processes in ascending order of identifiers. -/
def processes (s : Supervisor μ space) : List (ProcessRecord space) := s.roster.toList

/-- Whether `pid` names a live process, and if not, why. -/
def check (s : Supervisor μ space) (pid : Pid) : Except Refusal Unit :=
  if pid = reservedPid ∨ s.limits.pids ≤ pid then .error (.invalidArgument .pidOutOfRange)
  else if s.roster.contains pid then .ok ()
  else .error .notFound

/-- The record of a live process. -/
def lookup (s : Supervisor μ space) (pid : Pid) : Except Refusal (ProcessRecord space) := do
  s.check pid
  match s.roster.get? pid with
  | some record => return record
  | none => throw .notFound

/-- The children of a process in link order. -/
def children (s : Supervisor μ space) (pid : Pid) : Except Refusal (List Pid) :=
  return (← s.lookup pid).children.toList s.links

/-- The pending signals of a process in order of arrival. -/
def pendingSignals (s : Supervisor μ space) (pid : Pid) : Except Refusal (List UInt8) :=
  return (← s.lookup pid).signals.toList s.signals

/-- Refuses unless `pid` names a live process. -/
def require (pid : Pid) : Action space (Supervisor μ space) Unit := do
  .ofExcept ((← get).check pid)

/-- The record of a live process, or a refusal. -/
def find (pid : Pid) : Action space (Supervisor μ space) (ProcessRecord space) := do
  .ofExcept ((← get).lookup pid)

/-- Runs an action on the roster. -/
def onRoster (x : Action space (Roster space) α) : Action space (Supervisor μ space) α :=
  x.within (·.roster) ({ · with roster := · })

/-- Runs an action on the state of the memory service. -/
def onMemory (x : Action space μ α) : Action space (Supervisor μ space) α :=
  x.within (·.memory) ({ · with memory := · })

/-- Changes the record of a process. -/
def amend (pid : Pid) (f : ProcessRecord space → ProcessRecord space) :
    Action space (Supervisor μ space) Unit :=
  modify fun s => { s with roster := s.roster.modify pid f }

/-- Asks for a change of state and says whether the state changed. -/
def changeState (pid : Pid) (state : ProcessState) : Action space (Supervisor μ space) Bool := do
  require pid
  .ofOption .notFound (← onRoster (Roster.changeState pid state))

/-- Terminates a process. Its record, with the exit status, stays until it is destroyed. -/
def exit (pid : Pid) (status : Int32) : Action space (Supervisor μ space) Unit := do
  if ← changeState pid .terminated then
    amend pid ({ · with exitStatus := some status })
    .note (.exited pid status)

/-- Marks a process as inside or outside a system call. -/
def setInSystemCall (pid : Pid) (on : Bool) : Action space (Supervisor μ space) Unit := do
  require pid
  modify fun s =>
    if s.roster.running = some pid then
      { s with roster := { s.roster with active := s.roster.active.setInSystemCall on } }
    else
      { s with roster := s.roster.modify pid fun p =>
          { p with context := p.context.setInSystemCall on } }

/-- Sets registers on the processor, whichever process they belong to. -/
def writeActive (writes : List (Register × UInt64)) : Action space (Supervisor μ space) Unit :=
  modify fun s => { s with roster := { s.roster with active := s.roster.active.assign writes } }

/-- Queues a signal. It is dropped when the pool of pending signals is full. -/
def postSignal (pid : Pid) (signo : UInt8) : Action space (Supervisor μ space) Unit := do
  if !isSignal signo then .fail (.invalidArgument .invalidSignal)
  let record ← find pid
  let s ← get
  .noteAll s.signals.issueNotices
  match record.signals.push s.signals signo with
  | .ok (queue, signals) =>
    set { s with signals := signals, roster := s.roster.modify pid ({ · with signals := queue }) }
  | .error e =>
    .note (.signalDropped pid signo e)
    .fail (.ofPool .signal e)

end Supervisor

end Uniprocessor
