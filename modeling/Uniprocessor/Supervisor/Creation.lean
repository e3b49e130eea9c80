import Uniprocessor.Supervisor.Teardown

/-!
# Creating and linking processes

A new process takes an identifier, a record and, below a parent, a child link. An operation that
is refused halfway gives back what it has taken. A clone is a child that resumes where its
source is, with a copy of the source's address space.
-/

namespace Uniprocessor

namespace Supervisor

variable {μ space : Type} (memory : MemoryService μ space)

/-- Takes the least free identifier. -/
def takePid : Action space (Supervisor μ space) Pid := do
  let s ← get
  .noteAll s.pids.allocateNotices
  let (pid, pids) := s.pids.allocate
  set { s with pids := pids }
  .ofOption (.exhausted .pid) pid

/-- Takes a record for `pid`, or gives the identifier back. -/
def takeRecord (pid : Pid) : Action space (Supervisor μ space) Unit := do
  let s ← get
  .noteAll s.roster.pool.issueNotices
  let (slot, roster) := s.roster.insert pid
  set { s with roster := roster }
  match slot with
  | .ok _ => return
  | .error e =>
    .note (.slotRefused pid e)
    releasePid pid
    .fail (.ofPool .processSlot e)

/-- Appends `child` to the children of `parent`. -/
def appendChild (parent child : Pid) : Action space (Supervisor μ space) Unit := do
  let s ← get
  let record ← .ofOption .notFound (s.roster.get? parent)
  .noteAll s.links.issueNotices
  match record.children.push s.links child with
  | .ok (children, links) =>
    let roster := s.roster.modify parent ({ · with children := children })
    set { s with links := links, roster := roster.modify child ({ · with parent := some parent }) }
  | .error e => .fail (.ofPool .childLink e)

/-- Links a new process below its parent, or gives back its record and identifier. -/
def adopt (parent pid : Pid) : Action space (Supervisor μ space) Unit := do
  match ← .attempt (appendChild parent pid) with
  | .ok () => return
  | .error e =>
    dropRecord pid
    releasePid pid
    .fail e

/-- Creates a process without memory, to start at `entry`. -/
def create (parent : Option Pid) (entry : UInt64) : Action space (Supervisor μ space) Pid := do
  match parent with
  | some parent => require parent
  | none => pure ()
  if (← get).roster.isFull then .fail (.exhausted .processSlot)
  let pid ← takePid
  takeRecord pid
  amend pid fun p => { p with entry := entry, context := { p.context with rip := entry } }
  match parent with
  | some parent => adopt parent pid
  | none => pure ()
  .note (.created pid parent entry)
  return pid

/-- Makes `child`, which must be without a parent, a child of `parent`. -/
def addChild (parent child : Pid) : Action space (Supervisor μ space) Unit := do
  require parent
  require child
  if parent = child then .fail (.invalidArgument .ownChild)
  let roster := (← get).roster
  if (roster.parentOf child).isSome then .fail (.invalidArgument .hasParent)
  if child ∈ roster.lineage parent then .fail (.invalidArgument .cycle)
  appendChild parent child

/-- Where a process is, or would resume. -/
def currentInstruction (s : Supervisor μ space) (pid : Pid) (record : ProcessRecord space) :
    UInt64 :=
  if s.roster.running = some pid then s.roster.active.rip else record.context.rip

/-- Creates a child of `source` with a copy of its address space, to resume where `source` is. -/
def clone (source : Pid) : Action space (Supervisor μ space) Pid := do
  let record ← find source
  match record.space with
  | none => .fail (.invalidArgument .sourceWithoutSpace)
  | some held =>
    let pid ← create (some source) ((← get).currentInstruction source record)
    match ← cloneSpace memory held true with
    | .ok copy =>
      amend pid ({ · with space := some copy })
      .note (.cloned source pid)
      return pid
    | .error e =>
      .note (.cloneFailed source e)
      destroy memory pid false
      .fail (.exhausted .addressSpace)

end Supervisor

end Uniprocessor
