import Uniprocessor.Bitmap

/-!
# Object pools

A pool issues up to `capacity` records. A record is addressed by a `Handle`, the index of its
slot together with the generation the slot had when it was issued; releasing a record moves its
slot to the next generation, so a handle kept too long stops resolving. Storage grows one slot
at a time, and a vacant slot, the lowest first, is reused before the storage grows. The heap
behind the pool may refuse to let it grow.
-/

namespace Uniprocessor

/-- Handle to a record of a pool. -/
structure Handle where
  index : Nat
  generation : UInt32
  deriving DecidableEq

/-- Why a pool does not issue a record. -/
inductive IssueError where
  /-- Every slot up to the capacity is in use. -/
  | exhausted
  /-- The storage behind the slots could not grow. -/
  | storageFailed
  deriving DecidableEq

namespace IssueError

def message : IssueError → String
  | exhausted => "pool exhausted"
  | storageFailed => "pool storage allocation failed"

end IssueError

/-- The storage of one record. A vacant slot keeps the value it was released with. -/
structure Slot (α : Type) where
  value : α
  generation : UInt32
  inUse : Bool
  deriving DecidableEq

/-- A bounded pool of records of type `α`. -/
structure Pool (α : Type) where
  /-- Name used in reports. -/
  name : String
  capacity : Nat
  /-- The record every issue starts from. -/
  blank : α
  /-- Applied to the blank record when it is issued. -/
  onIssue : α → α
  /-- Applied to a record when it is released. -/
  onRelease : α → α
  slots : Array (Slot α)
  /-- Number of slots that there is storage for: those that exist, and those the heap has room for. -/
  storage : Nat
  /-- The slots that exist and are not in use. -/
  vacant : Bitmap
  /-- Number of records in use. -/
  size : Nat

namespace Pool

variable {α : Type}

/-- Largest capacity of a pool: slot indices are 32-bit numbers. -/
def capacityBound : Nat := 0xFFFFFFFF

/-- A pool without records, behind which the heap has room for as many as the pool may have. -/
def ofCapacity (name : String) (capacity : Nat) (blank : α) : Pool α where
  name := name
  capacity := min capacity capacityBound
  blank := blank
  onIssue := id
  onRelease := id
  slots := #[]
  storage := min capacity capacityBound
  vacant := .empty
  size := 0

/-- Applies `hook` to every record that is issued from now on. -/
def withIssueHook (p : Pool α) (hook : α → α) : Pool α := { p with onIssue := hook }

/-- Applies `hook` to every record that is released from now on. -/
def withReleaseHook (p : Pool α) (hook : α → α) : Pool α := { p with onRelease := hook }

/-- The heap has come to have room for `slots` slots. It takes no slot back that exists. -/
def withStorage (p : Pool α) (slots : Nat) : Pool α := { p with storage := max slots p.slots.size }

/-- The record a live handle stands for. -/
def get? (p : Pool α) (id : Handle) : Option α :=
  match p.slots[id.index]? with
  | some slot => if slot.inUse ∧ slot.generation = id.generation then some slot.value else none
  | none => none

/-- Whether the handle resolves. -/
def contains (p : Pool α) (id : Handle) : Bool := (p.get? id).isSome

/-- Changes the record of a live handle; nothing happens when the handle does not resolve. -/
def modify (p : Pool α) (id : Handle) (f : α → α) : Pool α :=
  if p.contains id then
    { p with slots := p.slots.modify id.index fun slot => { slot with value := f slot.value } }
  else p

def isEmpty (p : Pool α) : Bool := p.size == 0

/-- Whether as many records are in use as the capacity allows. -/
def isFull (p : Pool α) : Bool := p.capacity ≤ p.size

/-- The value of a newly issued record. -/
def fresh (p : Pool α) : α := p.onIssue p.blank

/-- Issues the record in the vacant slot `i`. -/
def reissue (p : Pool α) (i : Nat) : Handle × Pool α :=
  let value := p.fresh
  (⟨i, (p.slots[i]?.map (·.generation)).getD 0⟩,
   { p with
     slots := p.slots.modify i fun slot => { slot with value := value, inUse := true }
     vacant := p.vacant.erase i
     size := p.size + 1 })

/-- Issues a record in a new slot behind the existing ones. -/
def extend (p : Pool α) : Handle × Pool α :=
  (⟨p.slots.size, 0⟩,
   { p with
     slots := p.slots.push ⟨p.fresh, 0, true⟩
     vacant := p.vacant.extendTo p.slots.size
     size := p.size + 1 })

/-- Issues a fresh record in the lowest slot that is not in use. -/
def issue (p : Pool α) : Except IssueError (Handle × Pool α) :=
  match p.vacant.lowest? with
  | some i => .ok (p.reissue i)
  | none =>
    if p.slots.size < p.capacity then
      if p.slots.size < p.storage then .ok p.extend else .error .storageFailed
    else .error .exhausted

/-- Issues records until `count` are made or one is refused. -/
def issueMany (p : Pool α) : Nat → List Handle × Option IssueError × Pool α
  | 0 => ([], none, p)
  | count + 1 =>
    match p.issue with
    | .error e => ([], some e, p)
    | .ok (id, p) =>
      let (ids, refusal, p) := issueMany p count
      (id :: ids, refusal, p)

/-- Takes a record back. A handle that does not resolve is refused and changes nothing. -/
def release (p : Pool α) (id : Handle) : Bool × Pool α :=
  if p.contains id then
    let hook := p.onRelease
    (true,
     { p with
       slots := p.slots.modify id.index fun slot =>
         ⟨hook slot.value, slot.generation + 1, false⟩
       vacant := p.vacant.insert id.index
       size := p.size - 1 })
  else (false, p)

/-- The live records with their handles, in slot order. -/
def toList (p : Pool α) : List (Handle × α) :=
  p.slots.toList.zipIdx.filterMap fun (slot, i) =>
    if slot.inUse then some (⟨i, slot.generation⟩, slot.value) else none

/--
The handles met on the way from `start` through the links `next`. The way ends at a missing
link or at a handle that does not resolve, which is then the last one listed. `fuel` bounds the
number of handles.
-/
def trailWithin (next : α → Option Handle) (p : Pool α) : Nat → Option Handle → List Handle
  | 0, _ => []
  | _, none => []
  | fuel + 1, some id =>
    id :: match p.get? id with
      | some record => trailWithin next p fuel (next record)
      | none => []

/-- The handles met from `start`: each slot at most once, and one that does not resolve. -/
def trail (next : α → Option Handle) (p : Pool α) (start : Option Handle) : List Handle :=
  trailWithin next p (p.slots.size + 1) start

/-- The live records met from `start`, with their handles. -/
def linked (next : α → Option Handle) (p : Pool α) (start : Option Handle) :
    List (Handle × α) :=
  (p.trail next start).filterMap fun id => (p.get? id).map (id, ·)

end Pool

end Uniprocessor
