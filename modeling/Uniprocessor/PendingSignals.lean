import Uniprocessor.Pool

/-!
# Signal queues

Each process has a first-in first-out queue of signal numbers. The entries of all queues lie in
one shared pool, and a queue keeps the handles of its first and last entry, so that appending
does not walk the queue.
-/

namespace Uniprocessor

/-- Number of signal numbers, the unused 0 included. -/
def signalCount : Nat := 64

/-- Whether a process can be sent this signal number. -/
def isSignal (signo : UInt8) : Bool := signo != 0 && signo.toNat < signalCount

/-- One entry of a signal queue. -/
structure SignalEntry where
  number : UInt8
  next : Option Handle
  deriving DecidableEq

/-- The entry every issued entry starts as. -/
def SignalEntry.blank : SignalEntry := ⟨0, none⟩

/-- A queue of signals: its first entry, its last entry and its length. -/
structure PendingSignals where
  head : Option Handle
  tail : Option Handle
  length : Nat
  deriving DecidableEq

namespace PendingSignals

def empty : PendingSignals := ⟨none, none, 0⟩

def isEmpty (q : PendingSignals) : Bool := q.length == 0

/-- The signals in order of arrival. -/
def toList (q : PendingSignals) (pool : Pool SignalEntry) : List UInt8 :=
  (pool.linked SignalEntry.next q.head).map (·.2.number)

/-- Appends a signal. A queue whose last handle is missing or stale starts anew. -/
def push (q : PendingSignals) (pool : Pool SignalEntry) (signo : UInt8) :
    Except IssueError (PendingSignals × Pool SignalEntry) := do
  let (id, pool) ← pool.issue
  let pool := pool.modify id fun _ => ⟨signo, none⟩
  match q.tail.filter pool.contains with
  | some last =>
    return (⟨q.head, some id, q.length + 1⟩, pool.modify last ({ · with next := some id }))
  | none => return (⟨some id, some id, q.length + 1⟩, pool)

/-- The handles that `clear` gives back. -/
def handles (q : PendingSignals) (pool : Pool SignalEntry) : List Handle :=
  pool.trail SignalEntry.next q.head

/-- Empties the queue and counts the entries given back to the pool. -/
def clear (q : PendingSignals) (pool : Pool SignalEntry) :
    Nat × PendingSignals × Pool SignalEntry :=
  let (count, pool) := (q.handles pool).foldl
    (fun (count, pool) id =>
      let (released, pool) := pool.release id
      (count + released.toNat, pool))
    (0, pool)
  (count, empty, pool)

end PendingSignals

end Uniprocessor
