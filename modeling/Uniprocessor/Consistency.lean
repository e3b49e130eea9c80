import Uniprocessor.Supervisor

/-!
# Consistency of a supervisor

Six invariants tie the parts of a supervisor together: identifiers in use are those of live
processes, the running reference agrees with the states, parents and children name each other and
form a forest, processes own distinct address spaces, the chain is ascending and complete, and
the shared pools hold what the processes reference. `violations` lists where they fail.
-/

namespace Uniprocessor

/-- The invariants of a supervisor. -/
inductive Invariant where
  | pidAccounting | singleRunning | hierarchy | addressSpaceOwnership | chainOrder
  | poolAccounting
  deriving DecidableEq

namespace Invariant

def name : Invariant → String
  | pidAccounting => "pid_accounting"
  | singleRunning => "single_running"
  | hierarchy => "hierarchy"
  | addressSpaceOwnership => "address_space_ownership"
  | chainOrder => "chain_order"
  | poolAccounting => "pool_accounting"

end Invariant

/-- A place where an invariant fails. -/
inductive Violation where
  /-- An identifier in use that no process has. -/
  | unheldPid (pid : Pid)
  /-- A process whose identifier is not in use. -/
  | unallocatedPid (pid : Pid)
  | manyRunning (pids : List Pid)
  | runningDisagrees (reference : Option Pid) (pids : List Pid)
  | danglingParent (pid parent : Pid)
  | childCount (parent child : Pid) (count : Nat)
  | missingChild (pid child : Pid)
  | foreignChild (child pid : Pid) (parent : Option Pid)
  | ownAncestor (pid : Pid)
  | sharedRoot (pid : Pid) (root : UInt64)
  | noSpace (pid : Pid) (state : ProcessState)
  | outOfOrder (pid before : Pid)
  | sizesDiffer (chain index pool : Nat)
  | linkCount (referenced issued : Nat)
  | signalCount (queued issued : Nat)
  deriving DecidableEq

namespace Violation

def invariant : Violation → Invariant
  | unheldPid .. | unallocatedPid .. => .pidAccounting
  | manyRunning .. | runningDisagrees .. => .singleRunning
  | danglingParent .. | childCount .. | missingChild .. | foreignChild .. | ownAncestor .. =>
    .hierarchy
  | sharedRoot .. | noSpace .. => .addressSpaceOwnership
  | outOfOrder .. | sizesDiffer .. => .chainOrder
  | linkCount .. | signalCount .. => .poolAccounting

/-- The wording of an identifier inside a list or an option. -/
def pidText (pid : Pid) : String := s!"ProcessId({pid})"

def pidsText (pids : List Pid) : String :=
  "[" ++ ", ".intercalate (pids.map pidText) ++ "]"

def pidOptionText : Option Pid → String
  | none => "None"
  | some pid => s!"Some({pidText pid})"

def description : Violation → String
  | unheldPid pid => s!"PID {pid} is allocated but no process holds it"
  | unallocatedPid pid => s!"Process {pid} holds a PID that is not allocated"
  | manyRunning pids => s!"{pids.length} processes are RUNNING: {pidsText pids}"
  | runningDisagrees reference pids =>
    s!"Running reference {pidOptionText reference} disagrees with RUNNING processes " ++
      pidsText pids
  | danglingParent pid parent => s!"Process {pid} has dangling parent {parent}"
  | childCount parent child count => s!"Parent {parent} lists child {child} {count} times"
  | missingChild pid child => s!"Process {pid} links to missing child {child}"
  | foreignChild child pid parent =>
    s!"Child {child} of {pid} has parent {pidOptionText parent}"
  | ownAncestor pid => s!"Process {pid} is its own ancestor"
  | sharedRoot pid root => s!"Process {pid} shares page table root {Notice.hex root}"
  | noSpace pid state => s!"Process {pid} is {state.name} without an address space"
  | outOfOrder pid before => s!"Process {pid} follows {before} in the chain"
  | sizesDiffer chain index pool => s!"Chain has {chain} entries, index {index}, pool {pool}"
  | linkCount referenced issued => s!"{referenced} child links referenced, {issued} issued"
  | signalCount queued issued => s!"{queued} signals queued, {issued} issued"

end Violation

/-- Whether going from child to parent from `ancestor` comes to `pid` or does not end within
`steps` steps. -/
def Roster.returnsTo {space : Type} (r : Roster space) (pid : Pid) : Nat → Option Pid → Bool
  | _, none => false
  | 0, some _ => true
  | steps + 1, some ancestor =>
    ancestor == pid || r.returnsTo pid steps (r.parentOf ancestor)

namespace Supervisor

variable {μ space : Type}

/-- The identifiers of the processes in the chain, ascending and each once. -/
def livePids (s : Supervisor μ space) : List Pid :=
  ((s.processes.map (·.pid)).mergeSort (· ≤ ·)).eraseDups

def pidViolations (s : Supervisor μ space) : List Violation :=
  let used := s.pids.toList
  let live := s.livePids
  (used.filter (!live.contains ·)).map .unheldPid ++
    (live.filter (!used.contains ·)).map .unallocatedPid

def runningViolations (s : Supervisor μ space) : List Violation :=
  let running := (s.processes.filter (·.state == .running)).map (·.pid)
  (if 1 < running.length then [.manyRunning running] else []) ++
    (if running.head? ≠ s.roster.running then [.runningDisagrees s.roster.running running]
    else [])

/-- What is wrong with the parent of a process. -/
def parentViolations (s : Supervisor μ space) (p : ProcessRecord space) : List Violation :=
  match p.parent with
  | none => []
  | some parent =>
    match s.roster.get? parent with
    | none => [.danglingParent p.pid parent]
    | some record =>
      let count := (record.children.toList s.links).count p.pid
      if count = 1 then [] else [.childCount parent p.pid count]

/-- What is wrong with the children of a process. -/
def childViolations (s : Supervisor μ space) (p : ProcessRecord space) : List Violation :=
  (p.children.toList s.links).filterMap fun child =>
    match s.roster.get? child with
    | none => some (.missingChild p.pid child)
    | some record =>
      if record.parent = some p.pid then none else some (.foreignChild child p.pid record.parent)

/-- A process that comes to itself by going from child to parent. -/
def ancestryViolations (s : Supervisor μ space) (p : ProcessRecord space) : List Violation :=
  if s.roster.returnsTo p.pid s.roster.size p.parent then [.ownAncestor p.pid] else []

def hierarchyViolations (s : Supervisor μ space) : List Violation :=
  s.processes.flatMap fun p =>
    s.parentViolations p ++ s.childViolations p ++ s.ancestryViolations p

/-- Goes through processes with the page table roots seen so far. -/
def spaceViolationsAfter (memory : MemoryService μ space) (state : μ) :
    List UInt64 → List (ProcessRecord space) → List Violation
  | _, [] => []
  | seen, p :: rest =>
    match p.space with
    | some handle =>
      let root := memory.root state handle
      if root ∈ seen then .sharedRoot p.pid root :: spaceViolationsAfter memory state seen rest
      else spaceViolationsAfter memory state (root :: seen) rest
    | none =>
      if p.state.isActive then .noSpace p.pid p.state :: spaceViolationsAfter memory state seen rest
      else spaceViolationsAfter memory state seen rest

def spaceViolations (memory : MemoryService μ space) (s : Supervisor μ space) : List Violation :=
  spaceViolationsAfter memory s.memory [] s.processes

def chainViolations (s : Supervisor μ space) : List Violation :=
  let pids := s.processes.map (·.pid)
  ((pids.zip pids.tail).filterMap fun (before, pid) =>
    if before < pid then none else some (.outOfOrder pid before)) ++
    (if pids.length ≠ s.roster.size ∨ pids.length ≠ s.roster.pool.size then
      [.sizesDiffer pids.length s.roster.size s.roster.pool.size]
    else [])

def poolViolations (s : Supervisor μ space) : List Violation :=
  let links := (s.processes.map (·.children.length)).foldr (· + ·) 0
  let signals := (s.processes.map (·.signals.length)).foldr (· + ·) 0
  (if links ≠ s.links.size then [.linkCount links s.links.size] else []) ++
    (if signals ≠ s.signals.size then [.signalCount signals s.signals.size] else [])

/-- Where the invariants of the supervisor fail. -/
def violations (memory : MemoryService μ space) (s : Supervisor μ space) : List Violation :=
  s.pidViolations ++ s.runningViolations ++ s.hierarchyViolations ++ s.spaceViolations memory ++
    s.chainViolations ++ s.poolViolations

/-- Halts unless the invariants hold. -/
def assertConsistent (memory : MemoryService μ space) :
    Action space (Supervisor μ space) Unit := do
  let violations := (← get).violations memory
  match violations with
  | [] => return
  | first :: _ =>
    .halt (.inconsistent first.invariant.name first.description violations.length)

end Supervisor

end Uniprocessor
