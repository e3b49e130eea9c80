import Uniprocessor.Supervisor.Creation

/-!
# Giving processes memory

A created process starts to wait once it has an address space, a user stack and a kernel stack.
A clone has its address space already, a child gets a copy of its parent's, any other process a
new one. A refusal halfway gives back what was taken and leaves the process as it was.
-/

namespace Uniprocessor

namespace Supervisor

variable {μ space : Type} (memory : MemoryService μ space)

/-- The initial stack pointer of a stack that starts at `base`. -/
def stackTop (base : UInt64) : UInt64 :=
  base + UInt64.ofNat (pageSize * stackPages) - UInt64.ofNat stackReserve

/-- Takes an answer of the memory service or refuses. -/
def ofAnswer {α : Type} : Except MemoryError α → Action space (Supervisor μ space) α
  | .ok a => return a
  | .error e => .fail (.ofMemory e)

/-- The address space a process is to have: its own, taken out of its record, or a new one. -/
def obtainSpace (pid : Pid) (record : ProcessRecord space) :
    Action space (Supervisor μ space) space := do
  match record.space, record.parent with
  | some own, _ =>
    amend pid ({ · with space := none })
    return own
  | none, some parent =>
    match ((← get).roster.get? parent).bind (·.space) with
    | some inherited => ofAnswer (← cloneSpace memory inherited true)
    | none => .fail (.invalidArgument .parentWithoutSpace)
  | none, none => ofAnswer (← createSpace memory)

/-- Ends an attempt in which a stack could not be mapped: a space that the process brought along
goes back into its record, a new one is destroyed. -/
def giveUp {α : Type} (pid : Pid) (record : ProcessRecord space) (handle : space)
    (e : MemoryError) : Action space (Supervisor μ space) α := do
  .note (.stackFailed pid e)
  if record.space.isSome then amend pid ({ · with space := some handle })
  else destroySpace memory handle
  .fail (.exhausted .stack)

/-- Puts address space and stacks into the record of a process, which then starts to wait. -/
def equip (pid : Pid) (handle : space) (userStack kernelStack : UInt64) :
    Action space (Supervisor μ space) Unit := do
  let root ← rootOf memory handle
  amend pid fun p => { p with
    space := some handle
    userStack := some userStack
    kernelStack := some kernelStack
    context := { p.context with
      cr3 := root, rsp := stackTop userStack, rsp0 := stackTop kernelStack } }
  let _ ← onRoster (Roster.changeState pid .waiting)
  .note (.materialized pid root userStack kernelStack)

/-- Gives a created process its memory. -/
def materialize (pid : Pid) : Action space (Supervisor μ space) Unit := do
  let record ← find pid
  if record.state ≠ .created then .fail (.invalidArgument .alreadyMaterialized)
  let handle ← obtainSpace memory pid record
  match ← mapPages memory handle stackPages with
  | (.error e, handle) => giveUp memory pid record handle e
  | (.ok userStack, handle) =>
    match ← mapPages memory handle stackPages with
    | (.error e, handle) =>
      let handle ← unmapPages memory handle userStack stackPages
      giveUp memory pid record handle e
    | (.ok kernelStack, handle) => equip memory pid handle userStack kernelStack

/-- Gives memory to each process of a list and counts the successes. -/
def materializeEach : List Pid → Action space (Supervisor μ space) Nat
  | [] => return 0
  | pid :: rest => do
    match ← .attempt (materialize memory pid) with
    | .ok () => return (← materializeEach rest) + 1
    | .error e =>
      .note (.notMaterialized pid e)
      materializeEach rest

/-- The processes that wait for memory. -/
def createdPids (s : Supervisor μ space) : List Pid :=
  (s.processes.filter (·.state == .created)).map (·.pid)

/-- Gives memory to every process that was created before, in order of identifiers. -/
def materializeCreated : Action space (Supervisor μ space) Nat := do
  materializeEach memory (← get).createdPids

end Supervisor

end Uniprocessor
