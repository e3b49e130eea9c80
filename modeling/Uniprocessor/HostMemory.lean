import Uniprocessor.Limits
import Uniprocessor.MemoryService
import Std.Data.ExtTreeMap.Basic

/-!
# Memory kept by the host

A memory service for machines without memory of their own. Spaces are numbered from 1 in order
of creation. Each has byte contents and the page runs mapped in it, and failures can be ordered
in advance.
-/

namespace Uniprocessor

/-- Handle to a space of the host. -/
structure HostSpace where
  id : Nat
  root : UInt64
  deriving DecidableEq

/-- What a space holds. -/
structure HostSpaceData where
  contents : Std.ExtTreeMap UInt64 UInt8
  /-- The page runs that are mapped, each with its base address and its length, the latest first. -/
  pages : List (UInt64 × UInt64)
  /-- Number of pages ever mapped. -/
  nextPage : UInt64

/-- The state of the host's memory service. -/
structure HostMemory where
  spaces : Std.ExtTreeMap Nat HostSpaceData
  /-- Number of spaces ever created. -/
  lastId : Nat
  /-- Whether the next creation fails. -/
  failCreate : Bool
  /-- Whether the next cloning fails. -/
  failClone : Bool
  /-- How many requests for pages succeed before one fails. -/
  failMappingAfter : Option Nat
  /-- The spaces given up, in order. -/
  freed : Array Nat

namespace HostMemory

/-- Root of the space numbered 0, which does not exist. -/
def rootBase : UInt64 := 0x100000

/-- Address of the first page of every space. -/
def pageBase : UInt64 := 0x70000000

/-- No space, and no failure ordered. -/
def empty : HostMemory := ⟨∅, 0, false, false, none, #[]⟩

/-- Enters a new space. -/
def register (m : HostMemory) (data : HostSpaceData) : HostSpace × HostMemory :=
  let id := m.lastId + 1
  (⟨id, rootBase + UInt64.ofNat id * UInt64.ofNat pageSize⟩,
   { m with spaces := m.spaces.insert id data, lastId := id })

def create (m : HostMemory) : Except MemoryError HostSpace × HostMemory :=
  if m.failCreate then (.error .outOfMemory, { m with failCreate := false })
  else
    let (handle, m) := m.register ⟨∅, [], 0⟩
    (.ok handle, m)

def clone (m : HostMemory) (source : HostSpace) (withContents : Bool) :
    Except MemoryError HostSpace × HostMemory :=
  if m.failClone then (.error .outOfMemory, { m with failClone := false })
  else
    match m.spaces[source.id]? with
    | none => (.error .invalidSpace, m)
    | some data =>
      let (handle, m) := m.register (if withContents then data else { data with contents := ∅ })
      (.ok handle, m)

/-- Maps pages behind the ones ever mapped in the space. An ordered failure comes before the
space is looked at. -/
def mapPages (m : HostMemory) (target : HostSpace) (count : Nat) :
    Except MemoryError UInt64 × HostSpace × HostMemory :=
  if m.failMappingAfter = some 0 then
    (.error .outOfMemory, target, { m with failMappingAfter := none })
  else
    let m := { m with failMappingAfter := m.failMappingAfter.map (· - 1) }
    match m.spaces[target.id]? with
    | none => (.error .invalidSpace, target, m)
    | some data =>
      let base := pageBase + data.nextPage * UInt64.ofNat pageSize
      let data := { data with
        pages := (base, UInt64.ofNat count) :: data.pages
        nextPage := data.nextPage + UInt64.ofNat count }
      (.ok base, target, { m with spaces := m.spaces.insert target.id data })

/-- Unmaps the run of pages at a base address, whatever its length. -/
def unmapPages (m : HostMemory) (target : HostSpace) (base : UInt64) : HostMemory :=
  match m.spaces[target.id]? with
  | none => m
  | some data =>
    { m with spaces :=
        m.spaces.insert target.id { data with pages := data.pages.eraseP (·.1 == base) } }

def destroy (m : HostMemory) (target : HostSpace) : HostMemory :=
  if m.spaces.contains target.id then
    { m with spaces := m.spaces.erase target.id, freed := m.freed.push target.id }
  else m

/-- The memory service of the host. -/
def service : MemoryService HostMemory HostSpace where
  create := create
  clone := clone
  mapPages := mapPages
  unmapPages m target base _ := (target, m.unmapPages target base)
  destroy m target _ := m.destroy target
  root _ target := target.root

/-- Makes the next creation fail. -/
def failNextCreate (m : HostMemory) : HostMemory := { m with failCreate := true }

/-- Makes the next cloning fail. -/
def failNextClone (m : HostMemory) : HostMemory := { m with failClone := true }

/-- Lets a number of requests for pages succeed and makes the one after them fail. -/
def failMapping (m : HostMemory) (successes : Nat) : HostMemory :=
  { m with failMappingAfter := some successes }

/-- Number of spaces that were not given up. -/
def liveSpaces (m : HostMemory) : Nat := m.spaces.size

def isLive (m : HostMemory) (id : Nat) : Bool := m.spaces.contains id

/-- Number of pages mapped in a space. -/
def mappedPages (m : HostMemory) (id : Nat) : UInt64 :=
  match m.spaces[id]? with
  | none => 0
  | some data => (data.pages.map (·.2)).foldr (· + ·) 0

/-- Writes a byte into a live space. -/
def write (m : HostMemory) (id : Nat) (address : UInt64) (value : UInt8) : HostMemory :=
  match m.spaces[id]? with
  | none => m
  | some data =>
    { m with spaces :=
        m.spaces.insert id { data with contents := data.contents.insert address value } }

/-- The byte that was written at an address of a live space. -/
def read (m : HostMemory) (id : Nat) (address : UInt64) : Option UInt8 :=
  m.spaces[id]?.bind (·.contents[address]?)

end HostMemory

end Uniprocessor
