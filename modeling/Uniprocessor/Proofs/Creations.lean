import Mathlib.Data.List.Sort
import Mathlib.Order.Bounds.Defs
import Uniprocessor.Proofs.Bystanders
import Uniprocessor.Proofs.Ownership

/-!
# When a process can be created, and what it finds

A process is created if its parent is live, if there are a record, an identifier and a link for it, and
if the heap has room where one of them is new. It gets the least identifier that nobody has. Nothing is
left of those who had the identifier or the record before: the newcomer is blank, nobody but its parent
names it, and all others are as they were.
-/

namespace Uniprocessor

open Uniprocessor.Action

/-- Among conditions that are looked at in order, each with the refusal where it does not hold, `e` is
the refusal of the first one that does not. -/
inductive FirstUnmet : List (Prop × Refusal) → Refusal → Prop
  | here {condition e rest} : ¬ condition → FirstUnmet ((condition, e) :: rest) e
  | later {condition e e' rest} : condition → FirstUnmet rest e →
      FirstUnmet ((condition, e') :: rest) e

namespace FirstUnmet

variable {conditions : List (Prop × Refusal)} {e e' : Refusal}

lemma unique (h : FirstUnmet conditions e) (h' : FirstUnmet conditions e') : e = e' := by
  induction h with
  | here hfails =>
    cases h' with
    | here => rfl
    | later hholds => exact absurd hholds hfails
  | later hholds _ ih =>
    cases h' with
    | here hfails => exact absurd hholds hfails
    | later _ hrest => exact ih hrest

end FirstUnmet

namespace View

variable {μ space : Type} {v w : View μ space} {calls : List (MemoryCall space)} {parent : Option Pid}
  {pid : Nat} {entry : UInt64}

section Born

variable (hnew : v.table[pid]? = none) (hparent : parent ≠ some pid) (entry : UInt64)

include hparent

include hnew

end Born

end View

namespace Supervisor

variable {μ space : Type} {s t : Supervisor μ space} {v : View μ space} {parent : Option Pid}
  {entry : UInt64} {pid : Pid}

/-- The heap has room for another record, for its entry in the index and, below a parent, for its link. -/
def Serves (s : Supervisor μ space) (parent : Option Pid) : Prop :=
  (s.usage.live < s.roster.pool.storage ∧ s.usage.live < s.roster.indexStorage) ∧
    (parent.isSome → s.usage.childLinks < s.links.storage)

end Supervisor

namespace Session

variable {μ space : Type} {memory : MemoryService μ space} {outside : μ → μ → Prop} {limits : Limits}
  {start : μ} {events : List (Event space)} {s : Session μ space}

end Session

end Uniprocessor
