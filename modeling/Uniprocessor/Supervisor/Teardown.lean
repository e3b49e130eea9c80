import Uniprocessor.Supervisor.MemoryAccess

/-!
# Destroying processes

A destroyed process gives back all it holds: its link in the parent's child list, its own child
links, its pending signals, its record, its address space and its identifier. Its children are
destroyed with it or become orphans.
-/

namespace Uniprocessor

namespace Supervisor

variable {μ space : Type} (memory : MemoryService μ space)

/-- Gives an identifier back. -/
def releasePid (pid : Pid) : Action space (Supervisor μ space) Unit := do
  let s ← get
  .noteAll (s.pids.releaseNotices pid)
  set { s with pids := (s.pids.release pid).2 }

/-- Takes a process out of the roster. -/
def dropRecord (pid : Pid) : Action space (Supervisor μ space) Unit := do
  let s ← get
  .noteAll (s.roster.removeNotices pid)
  set { s with roster := (s.roster.remove pid).2 }

/-- Removes a process from the child list of its parent. -/
def unlinkFromParent (pid : Pid) : Action space (Supervisor μ space) Unit :=
  modify fun s =>
    match s.roster.parentOf pid with
    | none => s
    | some parent =>
      match s.roster.get? parent with
      | none => s
      | some record =>
        let (_, children, links) := record.children.remove s.links pid
        { s with
          links := links
          roster := s.roster.modify parent ({ · with children := children }) }

/-- Empties the child list of a process and makes its children orphans. -/
def drainChildren (pid : Pid) : Action space (Supervisor μ space) (List Pid) := do
  let s ← get
  match s.roster.get? pid with
  | none => return []
  | some record =>
    let (children, list, links) := record.children.drain s.links
    let roster := s.roster.modify pid ({ · with children := list })
    set { s with
      links := links
      roster := children.foldl (fun t child => t.modify child ({ · with parent := none })) roster }
    return children

/-- Discards the pending signals of a process. -/
def discardSignals (pid : Pid) (record : ProcessRecord space) :
    Action space (Supervisor μ space) Unit := do
  let s ← get
  .noteAll (record.signals.clearNotices s.signals)
  let (count, queue, signals) := record.signals.clear s.signals
  set { s with signals := signals, roster := s.roster.modify pid ({ · with signals := queue }) }
  if 0 < count then .note (.signalsDiscarded pid count)

/-- Gives back all that a process without children holds. -/
def reclaim (pid : Pid) : Action space (Supervisor μ space) Unit := do
  match (← get).roster.get? pid with
  | none => return
  | some record =>
    discardSignals pid record
    amend pid ({ · with space := none })
    dropRecord pid
    match record.space with
    | some handle => destroySpace memory handle
    | none => pure ()
    releasePid pid
    .note (.destroyed pid)

/--
Destroys the processes of a worklist, the first one first, and with `cascade` their descendants:
children go to the front of the list, the last child first. Every entry that is added comes from
a child link that is given back, so one more round than there are links is enough.
-/
def destroyAll (cascade : Bool) : Nat → List Pid → Action space (Supervisor μ space) Unit
  | 0, _ => return
  | _, [] => return
  | fuel + 1, pid :: rest => do
    let children ← drainChildren pid
    if !cascade then .noteAll (children.map (.orphaned · pid))
    reclaim memory pid
    destroyAll cascade fuel (if cascade then children.reverse ++ rest else rest)

/-- Destroys a process, and with `cascade` all its descendants. -/
def destroy (pid : Pid) (cascade : Bool) : Action space (Supervisor μ space) Unit := do
  require pid
  unlinkFromParent pid
  destroyAll memory cascade ((← get).links.size + 1) [pid]

end Supervisor

end Uniprocessor
