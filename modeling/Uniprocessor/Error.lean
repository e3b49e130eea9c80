import Uniprocessor.MemoryService
import Uniprocessor.Pool

/-!
# Errors of process operations

The causes for which an operation on processes is refused, and their wording.
-/

namespace Uniprocessor

/-- A bounded resource that an operation can run out of. -/
inductive Resource where
  | pid | processSlot | childLink | signal | addressSpace | stack
  /-- Memory behind a pool that is below its capacity. -/
  | kernelMemory
  deriving DecidableEq

namespace Resource

def description : Resource → String
  | pid => "process identifiers"
  | processSlot => "process slots"
  | childLink => "child links"
  | signal => "signal slots"
  | addressSpace => "address space"
  | stack => "stack pages"
  | kernelMemory => "kernel memory"

end Resource

/-- What is wrong with the arguments of an operation. -/
inductive Misuse where
  | pidOutOfRange
  | ownChild
  | hasParent
  | cycle
  | sourceWithoutSpace
  | parentWithoutSpace
  | alreadyMaterialized
  | invalidSignal
  | invalidSpace
  | alreadyInstalled
  | notInstalled
  /-- Any other reason, in words. -/
  | other (reason : String)
  deriving DecidableEq

namespace Misuse

def reason : Misuse → String
  | pidOutOfRange => "pid out of range"
  | ownChild => "process cannot be its own child"
  | hasParent => "process already has a parent"
  | cycle => "link would create a cycle"
  | sourceWithoutSpace => "source has no address space"
  | parentWithoutSpace => "parent has no address space"
  | alreadyMaterialized => "process already materialized"
  | invalidSignal => "invalid signal number"
  | invalidSpace => "invalid address space"
  | alreadyInstalled => "scheduler already installed"
  | notInstalled => "no scheduler of this type installed"
  | other reason => reason

end Misuse

/-- Why an operation on processes is refused. -/
inductive Refusal where
  | exhausted (resource : Resource)
  | invalidArgument (misuse : Misuse)
  | notFound
  /-- The dispatcher is in use further up the call chain. -/
  | busy
  deriving DecidableEq

namespace Refusal

def message : Refusal → String
  | exhausted resource => "out of " ++ resource.description
  | invalidArgument misuse => "invalid argument: " ++ misuse.reason
  | notFound => "no such process"
  | busy => "scheduler busy"

/-- A full pool exhausts the resource it holds, one that cannot grow exhausts memory. -/
def ofPool (resource : Resource) : IssueError → Refusal
  | .exhausted => exhausted resource
  | .storageFailed => exhausted .kernelMemory

def ofMemory : MemoryError → Refusal
  | .outOfMemory => exhausted .addressSpace
  | .invalidSpace => invalidArgument .invalidSpace

end Refusal

end Uniprocessor
