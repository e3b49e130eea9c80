import Uniprocessor.Roster

/-!
# Round-robin scans

A scan visits the chain of processes once, starting behind a given process and wrapping around
at the end, so that the given process itself comes last. `nextInTurn` is the round-robin choice:
the first waiting process of the scan.
-/

namespace Uniprocessor

/-- A scan of the chain under way. -/
structure Scan where
  head : Option Handle
  /-- The record to visit next. -/
  cursor : Option Handle
  /-- The record to visit last, if the scan starts behind one. -/
  stop : Option Handle
  /-- Whether the scan has passed the end of the chain. -/
  wrapped : Bool
  deriving DecidableEq

namespace Scan

variable {space : Type}

/-- Goes back to the head of the chain when the end is reached for the first time. -/
def wrap (s : Scan) : Scan :=
  if s.cursor.isNone && !s.wrapped then { s with cursor := s.head, wrapped := true } else s

/-- The next process of the scan, and the scan behind it. -/
def next (pool : Pool (ProcessRecord space)) (s : Scan) : Option (ProcessRecord space) × Scan :=
  match s.wrap.cursor with
  | none => (none, s.wrap)
  | some slot =>
    match pool.get? slot with
    | none => (none, s.wrap)
    | some process =>
      (some process,
       if s.wrap.stop = some slot then { s.wrap with cursor := none, wrapped := true }
       else { s.wrap with cursor := process.next })

/-- The processes of the scan, at most `fuel` of them. -/
def toListWithin (pool : Pool (ProcessRecord space)) : Nat → Scan → List (ProcessRecord space)
  | 0, _ => []
  | fuel + 1, s =>
    match s.next pool with
    | (some process, rest) => process :: toListWithin pool fuel rest
    | (none, _) => []

end Scan

namespace Roster

variable {space : Type}

/-- The scan that starts behind `pid`, or at the head without one. -/
def scanFrom (r : Roster space) (pid : Option Pid) : Scan :=
  let stop := pid.bind (r.index[·]?)
  { head := r.head
    cursor := (stop.bind r.pool.get?).bind (·.next)
    stop := stop
    wrapped := false }

/-- The processes in the order of the scan. Each part of it, before and behind the wrap, visits
a slot at most once. -/
def cycleFrom (r : Roster space) (pid : Option Pid) : List (ProcessRecord space) :=
  (r.scanFrom pid).toListWithin r.pool (2 * r.pool.slots.size)

/-- The first waiting process of the scan from `pid`. -/
def nextInTurn (r : Roster space) (pid : Option Pid) : Option Pid :=
  ((r.cycleFrom pid).find? (·.state == .waiting)).map (·.pid)

end Roster

end Uniprocessor
