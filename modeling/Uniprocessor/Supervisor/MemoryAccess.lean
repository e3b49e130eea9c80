import Uniprocessor.Supervisor

/-!
# Calls of the memory service

Each call passes the state of the service through the supervisor and enters the call, with the
answer, into the journal.
-/

namespace Uniprocessor

namespace Supervisor

variable {μ space : Type} (memory : MemoryService μ space)

def createSpace : Action space (Supervisor μ space) (Except MemoryError space) := do
  let s ← get
  let (answer, state) := memory.create s.memory
  set { s with memory := state }
  .report [.call (.create answer)]
  return answer

def cloneSpace (source : space) (withContents : Bool) :
    Action space (Supervisor μ space) (Except MemoryError space) := do
  let s ← get
  let (answer, state) := memory.clone s.memory source withContents
  set { s with memory := state }
  .report [.call (.clone source withContents answer)]
  return answer

/-- Maps pages and gives, besides the answer, the handle to use from now on. -/
def mapPages (target : space) (count : Nat) :
    Action space (Supervisor μ space) (Except MemoryError UInt64 × space) := do
  let s ← get
  let (answer, handle, state) := memory.mapPages s.memory target count
  set { s with memory := state }
  .report [.call (.mapPages target count answer)]
  return (answer, handle)

/-- Unmaps pages and gives the handle to use from now on. -/
def unmapPages (target : space) (base : UInt64) (count : Nat) :
    Action space (Supervisor μ space) space := do
  let s ← get
  let (handle, state) := memory.unmapPages s.memory target base count
  set { s with memory := state }
  .report [.call (.unmapPages target base count)]
  return handle

def destroySpace (target : space) : Action space (Supervisor μ space) Unit := do
  let s ← get
  set { s with memory := memory.destroy s.memory target true }
  .report [.call (.destroy target true)]

def rootOf (target : space) : Action space (Supervisor μ space) UInt64 := do
  let answer := memory.root (← get).memory target
  .report [.call (.root target answer)]
  return answer

end Supervisor

end Uniprocessor
