import Uniprocessor.Identifiers
import Uniprocessor.Pool

/-!
# Child lists

The children of a process, in the order in which they were linked. A list is the handle of its
first link; the links of all lists lie in one shared pool.
-/

namespace Uniprocessor

/-- One entry of a child list. -/
structure ChildEntry where
  child : Pid
  next : Option Handle
  deriving DecidableEq

/-- The link every issued link starts as. -/
def ChildEntry.blank : ChildEntry := ⟨reservedPid, none⟩

/-- A list of children: its first link and its length, a 64-bit count. -/
structure Children where
  head : Option Handle
  length : Nat
  deriving DecidableEq

namespace Children

def empty : Children := ⟨none, 0⟩

def isEmpty (l : Children) : Bool := l.length == 0

/-- The links of the list with their handles. -/
def entries (l : Children) (pool : Pool ChildEntry) : List (Handle × ChildEntry) :=
  pool.linked ChildEntry.next l.head

def toList (l : Children) (pool : Pool ChildEntry) : List Pid :=
  (l.entries pool).map (·.2.child)

def contains (l : Children) (pool : Pool ChildEntry) (child : Pid) : Bool :=
  (l.toList pool).contains child

/-- The largest count, which takes 64 bits. -/
def countBound : Nat := 0xFFFFFFFFFFFFFFFF

/-- The count after one more. -/
def countUp (n : Nat) : Nat := if n = countBound then 0 else n + 1

/-- The count after one less. A list whose copy has grown can lose more links than it counted;
its count then wraps around. -/
def countDown (n : Nat) : Nat := if n = 0 then countBound else n - 1

/-- Makes `id` the link after `before`, or the first one when `before` is missing or stale. -/
def attach (l : Children) (pool : Pool ChildEntry) (before : Option Handle)
    (id : Option Handle) : Children × Pool ChildEntry :=
  match before.filter pool.contains with
  | some last => (l, pool.modify last ({ · with next := id }))
  | none => ({ l with head := id }, pool)

/-- Appends a child. -/
def push (l : Children) (pool : Pool ChildEntry) (child : Pid) :
    Except IssueError (Children × Pool ChildEntry) := do
  let (id, pool) ← pool.issue
  let pool := pool.modify id fun _ => ⟨child, none⟩
  let (l, pool) := l.attach pool (pool.trail ChildEntry.next l.head).getLast? (some id)
  return ({ l with length := countUp l.length }, pool)

/-- Unlinks the first link to `child` and says whether there was one. -/
def remove (l : Children) (pool : Pool ChildEntry) (child : Pid) :
    Bool × Children × Pool ChildEntry :=
  let entries := l.entries pool
  let before := entries.takeWhile (·.2.child != child)
  match entries.drop before.length with
  | (id, link) :: _ =>
    let (l, pool) := l.attach pool (before.getLast?.map (·.1)) link.next
    (true, { l with length := countDown l.length }, (pool.release id).2)
  | [] => (false, l, pool)

/-- Empties the list. The children come back in order. -/
def drain (l : Children) (pool : Pool ChildEntry) : List Pid × Children × Pool ChildEntry :=
  let entries := l.entries pool
  (entries.map (·.2.child), empty, entries.foldl (fun pool entry => (pool.release entry.1).2) pool)

end Children

end Uniprocessor
