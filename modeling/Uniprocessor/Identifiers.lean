import Uniprocessor.Bitmap

/-!
# Process identifiers

Processes are named by numbers below a bound, and number 0 names none. `PidSpace` hands out
the least identifier that is not in use. It keeps a bitmap of the identifiers in use and a hint,
a word of the bitmap below which every identifier is taken.
-/

namespace Uniprocessor

/-- The name of a process. -/
abbrev Pid := Nat

/-- The identifier that no process has. -/
def reservedPid : Pid := 0

/-- The identifiers in use below `capacity`. -/
structure PidSpace where
  /-- The reserved identifier is marked for good. -/
  taken : Bitmap
  capacity : Nat
  /-- Number of identifiers in use, the reserved one not counted. -/
  used : Nat
  /-- No word of the bitmap below this one has a clear bit. -/
  hint : Nat

namespace PidSpace

/-- The identifiers from 1 up to but not including `capacity`, none of them in use. -/
def ofCapacity (capacity : Nat) : PidSpace where
  taken := (Bitmap.clear (max 1 ((capacity + 63) / 64))).insert reservedPid
  capacity := capacity
  used := 0
  hint := 0

/-- Whether `pid` is in use or reserved. -/
def isUsed (a : PidSpace) (pid : Pid) : Bool := pid < a.capacity && a.taken.contains pid

/-- The least identifier that can be handed out. -/
def next? (a : PidSpace) : Option Pid :=
  (a.taken.lowestAbsent? a.hint).filter (· < a.capacity)

/-- Hands out the least identifier that is not in use. -/
def allocate (a : PidSpace) : Option Pid × PidSpace :=
  match a.next? with
  | some pid =>
    (some pid, { a with taken := a.taken.insert pid, used := a.used + 1, hint := pid / 64 })
  | none => (none, { a with hint := a.taken.words.size })

/-- Takes an identifier back. The reserved one and those not in use are refused. -/
def release (a : PidSpace) (pid : Pid) : Bool × PidSpace :=
  if pid ≠ reservedPid ∧ a.isUsed pid then
    (true,
     { a with taken := a.taken.erase pid, used := a.used - 1, hint := min a.hint (pid / 64) })
  else (false, a)

/-- Number of identifiers that can still be handed out. -/
def available (a : PidSpace) : Nat := (a.capacity - 1) - a.used

/-- The identifiers in use, in ascending order. -/
def toList (a : PidSpace) : List Pid :=
  (List.range' 1 (a.capacity - 1)).filter a.isUsed

/-- Hands out identifiers until `count` are made or one is refused. -/
def allocateMany (a : PidSpace) : Nat → List Pid × PidSpace
  | 0 => ([], a)
  | count + 1 =>
    match a.allocate with
    | (some pid, b) => let (rest, c) := allocateMany b count; (pid :: rest, c)
    | (none, b) => ([], b)

/-- Takes back each identifier of a list and counts those that were in use. -/
def releaseMany (a : PidSpace) : List Pid → Nat × PidSpace
  | [] => (0, a)
  | pid :: rest =>
    let (released, b) := a.release pid
    let (count, c) := b.releaseMany rest
    (released.toNat + count, c)

end PidSpace

end Uniprocessor
