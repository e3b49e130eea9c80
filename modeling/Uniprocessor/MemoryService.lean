/-!
# The memory service

What a process supervisor asks of the virtual memory of its machine. The service is a record of
operations over a state `μ` and handles `space`. Creating and cloning a space, and mapping pages
into one, can fail; giving back cannot.
-/

namespace Uniprocessor

/-- Why the memory service refuses. -/
inductive MemoryError where
  /-- No frame is left. -/
  | outOfMemory
  /-- The service does not know the handle. -/
  | invalidSpace
  deriving DecidableEq

namespace MemoryError

def message : MemoryError → String
  | outOfMemory => "out of memory"
  | invalidSpace => "invalid address space"

end MemoryError

/-- A virtual memory service with state `μ` and address space handles `space`. -/
structure MemoryService (μ space : Type) where
  /-- A new, empty address space. -/
  create : μ → Except MemoryError space × μ
  /-- A new space with the layout of the given one, and with a copy of its contents if asked. -/
  clone : μ → space → Bool → Except MemoryError space × μ
  /-- Maps a number of fresh pages. Gives their base address and the handle to use from now on. -/
  mapPages : μ → space → Nat → Except MemoryError UInt64 × space × μ
  /-- Unmaps the pages that were mapped at a base address. -/
  unmapPages : μ → space → UInt64 → Nat → space × μ
  /-- Gives up a space, with all pages mapped in it if asked. -/
  destroy : μ → space → Bool → μ
  /-- The address of the top page table of a space. -/
  root : μ → space → UInt64

/-- A call of the memory service, with the answer where there is one. -/
inductive MemoryCall (space : Type) where
  | create (answer : Except MemoryError space)
  | clone (source : space) (withContents : Bool) (answer : Except MemoryError space)
  | mapPages (space : space) (count : Nat) (answer : Except MemoryError UInt64)
  | unmapPages (space : space) (base : UInt64) (count : Nat)
  | destroy (space : space) (withContents : Bool)
  | root (space : space) (answer : UInt64)

end Uniprocessor
