import Uniprocessor.Proofs.Creations

/-!
# When a process can be put below another

A link is made between live processes if the child has no parent, the parent is not below the child and
the pool of links has one to give. The search for the child goes up from the parent without a bound. It ends because nobody is above
themselves, and finds the child exactly if the child lists lead from there down to the parent.
-/

namespace Uniprocessor

open Uniprocessor.Action Relation

namespace View

variable {μ space : Type} {v : View μ space} {calls : List (MemoryCall space)} {parent child : Nat}

namespace Forest

end Forest

/-! ### The conditions of a link -/

section Adopt

variable {c : ProcessView space} (hc : v.table[child]? = some c) (hroot : v.parentOf child = none)

include hc

include hroot

end Adopt

end View

namespace Supervisor

variable {μ space : Type} {s t : Supervisor μ space} {v : View μ space} {parent child : Pid}

/-- One step down, from a process to one in its child list. -/
def Down (s : Supervisor μ space) (parent child : Pid) : Prop := child ∈ s.childrenOf parent

/-- Child lists and parents name each other, without repetition, and nobody is above themselves. -/
structure IsForest (s : Supervisor μ space) : Prop where
  mirrored : ∀ parent child, s.Down parent child ↔ s.Up child parent
  nodup : ∀ pid, (s.childrenOf pid).Nodup
  acyclic : ∀ pid, ¬ TransGen s.Up pid pid

lemma Shows.isForest (h : s.Shows v) (hforest : v.Forest) : s.IsForest where
  mirrored parent child := by rw [Down, h.childrenOf_eq, hforest.mirrored, h.up_eq, View.Up]
  nodup pid := by
    rw [h.childrenOf_eq]
    exact hforest.nodup pid
  acyclic := by
    rw [h.up_eq]
    exact hforest.acyclic

/-- Descendants by child lists are those whose ancestor one is. -/
lemma Shows.below_iff (h : s.Shows v) (hforest : v.Forest) (x y : Pid) :
    ReflTransGen s.Down x y ↔ ReflTransGen v.Up y x := by
  have hswap : s.Down = Function.swap v.Up := by
    funext a b
    rw [← h.up_eq]
    exact propext ((h.isForest hforest).mirrored a b)
  rw [hswap, reflTransGen_swap]

end Supervisor

namespace Session

variable {μ space : Type} {memory : MemoryService μ space} {outside : μ → μ → Prop} {limits : Limits}
  {start : μ} {events : List (Event space)} {s : Session μ space}

end Session

end Uniprocessor
