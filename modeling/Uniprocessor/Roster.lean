import Uniprocessor.Action
import Std.Data.ExtTreeMap.Basic

/-!
# The roster of processes

The records of the live processes, chained in ascending order of identifiers, with an index from
identifiers to slots. The roster also knows which process runs and holds the registers that are
live on the processor; the context in that process's own record is out of date meanwhile.
-/

namespace Uniprocessor

/-- The roster of live processes. -/
structure Roster (space : Type) where
  pool : Pool (ProcessRecord space)
  index : Std.ExtTreeMap Pid Handle
  /-- Number of entries that the heap has room for in the index. -/
  indexStorage : Nat
  /-- The record with the least identifier. -/
  head : Option Handle
  /-- The process on the processor. -/
  running : Option Pid
  /-- The registers live on the processor. -/
  active : Registers
  policy : Strictness

namespace Roster

variable {space : Type}

/-- The empty roster. -/
def ofCapacity (capacity : Nat) (policy : Strictness) : Roster space where
  pool := (Pool.ofCapacity "process" capacity .blank).withIssueHook ProcessRecord.withBaseline
  index := ∅
  indexStorage := min capacity Pool.capacityBound
  head := none
  running := none
  active := .zero
  policy := policy

/-- The heap has come to have room for `slots` records and for `entries` entries in the index. -/
def withStorage (r : Roster space) (slots entries : Nat) : Roster space :=
  { r with pool := r.pool.withStorage slots, indexStorage := entries }

/-- The records in chain order, with their handles. -/
def entries (r : Roster space) : List (Handle × ProcessRecord space) :=
  r.pool.linked ProcessRecord.next r.head

/-- The records in chain order. -/
def toList (r : Roster space) : List (ProcessRecord space) := r.entries.map (·.2)

def get? (r : Roster space) (pid : Pid) : Option (ProcessRecord space) :=
  r.index[pid]?.bind r.pool.get?

def contains (r : Roster space) (pid : Pid) : Bool := r.index.contains pid

/-- Number of live processes. -/
def size (r : Roster space) : Nat := r.index.size

def isEmpty (r : Roster space) : Bool := r.index.isEmpty

/-- Whether every record is in use. -/
def isFull (r : Roster space) : Bool := r.pool.isFull

/-- Changes the record of a live process. -/
def modify (r : Roster space) (pid : Pid) (f : ProcessRecord space → ProcessRecord space) :
    Roster space :=
  match r.index[pid]? with
  | some slot => { r with pool := r.pool.modify slot f }
  | none => r

/-- The parent of a live process. -/
def parentOf (r : Roster space) (pid : Pid) : Option Pid := (r.get? pid).bind (·.parent)

/-- The processes met from `pid` on by going from child to parent, at most `fuel` of them. -/
def lineageWithin (r : Roster space) : Nat → Option Pid → List Pid
  | 0, _ => []
  | _, none => []
  | fuel + 1, some pid => pid :: r.lineageWithin fuel (r.parentOf pid)

/-- `pid` and its ancestors: every live process at most once, and one that is not live. -/
def lineage (r : Roster space) (pid : Pid) : List Pid := r.lineageWithin (r.size + 1) (some pid)

/-- Makes `slot` the record after `before`, or the first one when `before` is missing or stale. -/
def attach (r : Roster space) (before slot : Option Handle) : Roster space :=
  match before.filter r.pool.contains with
  | some last => { r with pool := r.pool.modify last ({ · with next := slot }) }
  | none => { r with head := slot }

/-- Chains the record in `slot`, which `pool` has just issued for `pid`, behind the records with
identifiers up to `pid`. -/
def enlist (r : Roster space) (pid : Pid) (slot : Handle) (pool : Pool (ProcessRecord space)) :
    Roster space :=
  let before := (r.entries.takeWhile fun entry => entry.2.pid ≤ pid).getLast?
  let after := match before with
    | some (_, record) => record.next
    | none => r.head
  let pool := pool.modify slot ({ · with pid := pid, next := after })
  let r := { r with pool := pool, index := r.index.insert pid slot }
  r.attach (before.map (·.1)) (some slot)

/-- Issues a record for `pid` and chains it. When the index cannot grow, the record is given back. -/
def insert (r : Roster space) (pid : Pid) : Except IssueError Handle × Roster space :=
  match r.pool.issue with
  | .error e => (.error e, r)
  | .ok (slot, pool) =>
    if r.index.size < r.indexStorage then (.ok slot, r.enlist pid slot pool)
    else (.error .storageFailed, { r with pool := (pool.release slot).2 })

/-- Unchains the record of `pid` and gives it back to the pool. -/
def remove (r : Roster space) (pid : Pid) : Bool × Roster space :=
  match r.index[pid]? with
  | none => (false, r)
  | some slot =>
    let after := (r.pool.get? slot).bind (·.next)
    let before := ((r.pool.trail ProcessRecord.next r.head).takeWhile (· != slot)).getLast?
    let r := r.attach before after
    let (released, pool) := r.pool.release slot
    (released,
     { r with
       pool := pool
       index := r.index.erase pid
       running := if r.running = some pid then none else r.running })

/-- What removing `pid` reports. -/
def removeNotices (r : Roster space) (pid : Pid) : List Notice :=
  match r.index[pid]? with
  | none => []
  | some slot => r.pool.releaseNotices slot

/-- Takes the processor from every process but `pid`: its registers are saved and it waits. -/
def vacate (r : Roster space) (pid : Pid) : Roster space :=
  match r.running with
  | some runner =>
    if runner = pid then r
    else r.modify runner fun p => { p with context := r.active }.enter .waiting
  | none => r

/-- Puts the saved registers of `pid` on the processor. -/
def dispatch (r : Roster space) (pid : Pid) : Roster space :=
  match (r.vacate pid).get? pid with
  | some p => { r.vacate pid with active := p.context, running := some pid }
  | none => { r.vacate pid with running := none }

/-- Takes the registers of `pid` off the processor if it is the one that runs. -/
def suspend (r : Roster space) (pid : Pid) : Roster space :=
  if r.running = some pid then
    { r.modify pid ({ · with context := r.active }) with running := none }
  else r

/-- Moves `pid` to a state, together with the registers on the processor. -/
def enter (r : Roster space) (pid : Pid) (state : ProcessState) : Roster space :=
  (if state = .running then r.dispatch pid else r.suspend pid).modify pid (·.enter state)

/--
Asks for a change of state. The answer says whether the state changed; there is none for a
process that is not in the roster. A change that the life cycle does not allow is ignored under
the lenient policy and halts under the strict one.
-/
def changeState (pid : Pid) (state : ProcessState) :
    Action space (Roster space) (Option Bool) := do
  let r ← get
  match r.get? pid with
  | none => return none
  | some record =>
    if record.canEnter state then
      set (r.enter pid state)
      .note (.stateChanged pid record.state state)
      return some true
    else
      match r.policy with
      | .lenient =>
        .note (.changeIgnored pid record.state state)
        return some false
      | .strict => .halt (.illegalChange pid record.state state)

end Roster

end Uniprocessor
