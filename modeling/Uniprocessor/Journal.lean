import Uniprocessor.Error
import Uniprocessor.ProcessRecord

/-!
# The journal

Everything an operation reports while it works: notices for the reader of the kernel's log, each
with a level and a wording, and the calls it makes of the memory service.
-/

namespace Uniprocessor

/-- How urgent a notice is. -/
inductive Level where
  | trace | debug | info | warn
  deriving DecidableEq

namespace Level

def name : Level → String
  | trace => "TRACE"
  | debug => "DEBUG"
  | info => "INFO"
  | warn => "WARN"

end Level

/-- One line of the kernel's log. -/
inductive Notice where
  | built (limits : Limits)
  | created (pid : Pid) (parent : Option Pid) (entry : UInt64)
  | cloned (source pid : Pid)
  | cloneFailed (source : Pid) (error : MemoryError)
  | slotRefused (pid : Pid) (error : IssueError)
  | exited (pid : Pid) (status : Int32)
  | signalDropped (pid : Pid) (signo : UInt8) (error : IssueError)
  | materialized (pid : Pid) (root userStack kernelStack : UInt64)
  | stackFailed (pid : Pid) (error : MemoryError)
  | notMaterialized (pid : Pid) (error : Refusal)
  | orphaned (child parent : Pid)
  | signalsDiscarded (pid : Pid) (count : Nat)
  | destroyed (pid : Pid)
  | stateChanged (pid : Pid) (before after : ProcessState)
  | changeIgnored (pid : Pid) (before after : ProcessState)
  | pidsExhausted (used : Nat)
  | strayRelease (pid : Pid)
  | switched (pid : Pid) (target : ResumePoint)
  | cannotRun (pid : Pid) (error : Refusal)
  | installed
  | installRefused
  | tickSkipped
  | poolExhausted (name : String) (capacity : Nat)
  | staleRelease (name : String) (id : Handle)
  deriving DecidableEq

namespace Notice

/-- A number in hexadecimal notation. -/
def hex (n : UInt64) : String := "0x" ++ String.ofList (Nat.toDigits 16 n.toNat)

/-- The wording of an optional number. -/
def optional : Option Nat → String
  | none => "None"
  | some n => "Some(" ++ toString n ++ ")"

/-- The wording of a handle. -/
def handle (id : Handle) : String :=
  "SlotId \x7b index: " ++ toString id.index ++ ", generation: " ++ toString id.generation.toNat
    ++ " \x7d"

def level : Notice → Level
  | created .. | exited .. | destroyed .. | installed => .info
  | cloneFailed .. | slotRefused .. | signalDropped .. | stackFailed .. | signalsDiscarded ..
  | changeIgnored .. | strayRelease .. | cannotRun .. | installRefused | staleRelease .. => .warn
  | built .. | cloned .. | materialized .. | notMaterialized .. | orphaned ..
  | pidsExhausted .. | poolExhausted .. => .debug
  | stateChanged .. | switched .. | tickSkipped => .trace

def message : Notice → String
  | built l =>
    s!"[PROC] manager: {l.pids} pids, {l.processes} processes, {l.links} links, " ++
      s!"{l.signals} signals"
  | created pid parent entry =>
    s!"[PROC] created pid {pid} (parent {optional parent}, entry {hex entry})"
  | cloned source pid => s!"[PROC] pid {source} cloned into pid {pid}"
  | cloneFailed source error =>
    s!"[PROC] address space clone of pid {source} failed: {error.message}"
  | slotRefused pid error => s!"[PROC] no process slot for pid {pid}: {error.message}"
  | exited pid status => s!"[PROC] pid {pid} exited with status {status.toInt}"
  | signalDropped pid signo error =>
    s!"[PROC] pid {pid}: dropped signal {signo.toNat}: {error.message}"
  | materialized pid root userStack kernelStack =>
    s!"[PROC] pid {pid} materialized (cr3 {hex root}, stack {hex userStack}, " ++
      s!"kstack {hex kernelStack})"
  | stackFailed pid error => s!"[PROC] pid {pid}: stack allocation failed: {error.message}"
  | notMaterialized pid error => s!"[PROC] pid {pid} not materialized: {error.message}"
  | orphaned child parent => s!"[PROC] pid {child} orphaned by pid {parent}"
  | signalsDiscarded pid count =>
    s!"[PROC] pid {pid}: discarding {count} undelivered signal(s)"
  | destroyed pid => s!"[PROC] destroyed pid {pid}"
  | stateChanged pid before after => s!"[PROC] pid {pid}: {before.name} -> {after.name}"
  | changeIgnored pid before after =>
    s!"[PROC] pid {pid}: ignoring illegal transition {before.name} -> {after.name}"
  | pidsExhausted used => s!"[PID] identifier space exhausted ({used} in use)"
  | strayRelease pid => s!"[PID] release of unallocated pid {pid}"
  | switched pid target =>
    s!"[SCHED] switch to pid {pid} (rip {hex target.instructionPointer}, " ++
      s!"rsp {hex target.stackPointer}, cs {hex target.codeSelector.toUInt64})"
  | cannotRun pid error => s!"[SCHED] cannot run pid {pid}: {error.message}"
  | installed => "[SCHED] scheduler installed"
  | installRefused => "[SCHED] scheduler already installed"
  | tickSkipped => "[SCHED] tick skipped, scheduler busy"
  | poolExhausted name capacity => s!"[POOL] {name} exhausted ({capacity} slots)"
  | staleRelease name id => s!"[POOL] {name}: free of stale slot {handle id}"

/-- The line as it stands in the log. -/
def line (n : Notice) : String := n.level.name ++ " " ++ n.message

end Notice

/-- What an operation leaves in the journal. -/
inductive Event (space : Type) where
  | notice (notice : Notice)
  | call (call : MemoryCall space)

namespace Event

variable {space : Type}

def notice? : Event space → Option Notice
  | notice n => some n
  | call _ => none

def call? : Event space → Option (MemoryCall space)
  | notice _ => none
  | call c => some c

end Event

/-- What issuing a record from the pool reports. -/
def Pool.issueNotices {α : Type} (p : Pool α) : List Notice :=
  match p.issue with
  | .ok _ | .error .storageFailed => []
  | .error .exhausted => [.poolExhausted p.name p.capacity]

/-- What releasing a handle reports: an existing slot that the handle no longer stands for. -/
def Pool.releaseNotices {α : Type} (p : Pool α) (id : Handle) : List Notice :=
  if id.index < p.slots.size ∧ ¬ p.contains id then [.staleRelease p.name id] else []

/-- What clearing the queue reports: a stale handle at its end. -/
def PendingSignals.clearNotices (q : PendingSignals) (pool : Pool SignalEntry) : List Notice :=
  (q.handles pool).flatMap pool.releaseNotices

/-- What handing out an identifier reports. -/
def PidSpace.allocateNotices (a : PidSpace) : List Notice :=
  match a.next? with
  | some _ => []
  | none => [.pidsExhausted a.used]

/-- What taking an identifier back reports. -/
def PidSpace.releaseNotices (a : PidSpace) (pid : Pid) : List Notice :=
  if (a.release pid).1 then [] else [.strayRelease pid]

/-- What taking identifiers back one after the other reports. -/
def PidSpace.releaseManyNotices (a : PidSpace) : List Pid → List Notice
  | [] => []
  | pid :: rest => a.releaseNotices pid ++ (a.release pid).2.releaseManyNotices rest

end Uniprocessor
