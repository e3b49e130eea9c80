import Uniprocessor.Children
import Uniprocessor.Registers
import Uniprocessor.PendingSignals

/-!
# Processes

The life cycle of a process and its record. A process is created without memory, waits once its
address space and stacks are attached, and from then on alternates between waiting, running and
blocked until it terminates.
-/

namespace Uniprocessor

/-- Where a process is in its life. -/
inductive ProcessState where
  | created | waiting | running | blocked | terminated
  deriving DecidableEq

namespace ProcessState

def name : ProcessState → String
  | created => "Created"
  | waiting => "Waiting"
  | running => "Running"
  | blocked => "Blocked"
  | terminated => "Terminated"

/-- Whether the life cycle allows the step from one state to the next. -/
def canBecome : ProcessState → ProcessState → Bool
  | created, waiting => true
  | waiting, running => true
  | running, waiting => true
  | running, blocked => true
  | blocked, waiting => true
  | terminated, terminated => false
  | _, terminated => true
  | _, _ => false

/-- Whether a process in this state takes part in scheduling. -/
def isActive : ProcessState → Bool
  | waiting | running | blocked => true
  | created | terminated => false

end ProcessState

/-- The record of a process whose address space handle is a `space`. -/
structure ProcessRecord (space : Type) where
  pid : Pid
  state : ProcessState
  /-- The state before the latest change. -/
  previous : ProcessState
  /-- The registers saved when the process last left the processor. -/
  context : Registers
  space : Option space
  /-- Base of the user stack. -/
  userStack : Option UInt64
  /-- Base of the kernel stack. -/
  kernelStack : Option UInt64
  parent : Option Pid
  children : Children
  signals : PendingSignals
  /-- Where the process was created to start. -/
  entry : UInt64
  exitStatus : Option Int32
  /-- The next record in ascending order of identifiers. -/
  next : Option Handle

namespace ProcessRecord

variable {space : Type}

/-- The record of nobody. -/
def blank : ProcessRecord space where
  pid := reservedPid
  state := .created
  previous := .created
  context := .zero
  space := none
  userStack := none
  kernelStack := none
  parent := none
  children := .empty
  signals := .empty
  entry := 0
  exitStatus := none
  next := none

/-- Gives a record the registers every process starts from. -/
def withBaseline (p : ProcessRecord space) : ProcessRecord space := { p with context := .baseline }

/-- Whether the address space and both stacks are attached. -/
def isMaterialized (p : ProcessRecord space) : Bool :=
  p.space.isSome && p.userStack.isSome && p.kernelStack.isSome

/-- Moves a process to a state and remembers the one it leaves. -/
def enter (p : ProcessRecord space) (state : ProcessState) : ProcessRecord space :=
  { p with previous := p.state, state := state }

/-- Whether the process may move to `state`: only with memory attached does it start to wait. -/
def canEnter (p : ProcessRecord space) (state : ProcessState) : Bool :=
  p.state.canBecome state &&
    !(p.state == .created && !p.isMaterialized && state == .waiting)

end ProcessRecord

end Uniprocessor
