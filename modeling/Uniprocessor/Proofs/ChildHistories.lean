import Uniprocessor.Proofs.ChildLists

/-!
# Histories of child lists

A family of child lists that begin empty in one pool, none of which is ever a copy of another. In
whatever order their operations come, and whatever room the heap has meanwhile, each list behaves as a
sequence of identifiers of its own, with repetitions, and together they use up as many links as they
are long.
-/

namespace Uniprocessor

namespace Children

variable {ι : Type}

section Histories

variable [DecidableEq ι] (name : String) (capacity : Nat) (onIssue onRelease : ChildEntry → ChildEntry)

/-- The states that the lists of a family and their pool come to by any sequence of operations, each
with the sequences that the lists stand for. -/
inductive Reached : (ι → List Pid) → (ι → Children) → Pool ChildEntry → Prop
  | start : Reached (fun _ => []) (fun _ => empty)
      (((Pool.ofCapacity name capacity .blank).withIssueHook onIssue).withReleaseHook onRelease)
  | push {seqs ls pool l q} (i : ι) (child : Pid) : Reached seqs ls pool →
      (ls i).push pool child = .ok (l, q) →
      Reached (Function.update seqs i (seqs i ++ [child])) (Function.update ls i l) q
  | remove {seqs ls pool} (i : ι) (child : Pid) : Reached seqs ls pool →
      Reached (Function.update seqs i ((seqs i).erase child))
        (Function.update ls i ((ls i).remove pool child).2.1) ((ls i).remove pool child).2.2
  | drain {seqs ls pool} (i : ι) : Reached seqs ls pool →
      Reached (Function.update seqs i []) (Function.update ls i ((ls i).drain pool).2.1)
        ((ls i).drain pool).2.2
  | heap {seqs ls pool} (slots : Nat) : Reached seqs ls pool →
      Reached seqs ls (pool.withStorage slots)

end Histories

/-- All that can be read of a list says that it is `seq`. -/
structure Reads (pool : Pool ChildEntry) (l : Children) (seq : List Pid) : Prop where
  /-- The links from the head on lead through the sequence and come to an end. -/
  path : ∃ xs, Pool.Path ChildEntry.next pool l.head xs none ∧ xs.map (·.2.child) = seq
  toList : l.toList pool = seq
  contains : ∀ child, l.contains pool child = decide (child ∈ seq)
  length : l.length = seq.length
  isEmpty : l.isEmpty = seq.isEmpty

/-- The lists `ls` are the sequences `seqs`, in a pool of `bound` links. -/
structure ActsAs (bound : Nat) (seqs : ι → List Pid) (ls : ι → Children) (pool : Pool ChildEntry) :
    Prop where
  reads : ∀ i, Reads pool (ls i) (seqs i)
  /-- All links in use are those of the lists. -/
  size : ∃ is : Finset ι, (∀ i ∉ is, seqs i = []) ∧ ∑ i ∈ is, (ls i).length = pool.size
  exhausted : ∀ i child, (ls i).push pool child = .error .exhausted ↔ pool.size = bound
  /-- Below the bound, a child is refused only if the heap has no room for another link. -/
  storageFailed : ∀ i child, (ls i).push pool child = .error .storageFailed ↔
    pool.size ≠ bound ∧ pool.storage ≤ pool.size
  push : pool.size ≠ bound → pool.size < pool.storage → ∀ i child, ∃ l q,
    (ls i).push pool child = .ok (l, q) ∧
    Reads q l (seqs i ++ [child]) ∧ ∀ j ≠ i, Reads q (ls j) (seqs j)
  /-- The first of the links to a child goes. -/
  remove : ∀ i child, ∃ l q, (ls i).remove pool child = (decide (child ∈ seqs i), l, q) ∧
    Reads q l ((seqs i).erase child) ∧ ∀ j ≠ i, Reads q (ls j) (seqs j)
  /-- The count that goes down with a link is not at zero. -/
  counted : ∀ i, ∀ child ∈ seqs i, 0 < (ls i).length
  drain : ∀ i, ∃ q, (ls i).drain pool = (seqs i, empty, q) ∧ Reads q empty [] ∧
    ∀ j ≠ i, Reads q (ls j) (seqs j)

variable {name : String} {capacity : Nat} {onIssue onRelease : ChildEntry → ChildEntry}
  {seqs : ι → List Pid} {ls : ι → Children} {pool : Pool ChildEntry}

lemma Family.reads (h : Family pool ls seqs) (i : ι) : Reads pool (ls i) (seqs i) where
  path := by
    obtain ⟨items, hshared, hitems⟩ := h
    exact ⟨items i, hshared.path i, (hitems i).1.symm⟩
  toList := h.toList_eq i
  contains child := by rw [contains, h.toList_eq, List.contains_eq_mem]
  length := h.length_eq i
  isEmpty := by
    rw [isEmpty, h.length_eq]
    cases seqs i <;> rfl

variable [DecidableEq ι]

lemma Reached.holds (h : Reached name capacity onIssue onRelease seqs ls pool) :
    layout.Holds capacity seqs ls pool := by
  induction h with
  | start => exact Layout.holds_start name capacity .blank onIssue onRelease
  | push i child _ hrun ih =>
    have hshort := ih.family.wellFormed.shortage?_of_bind hrun
    obtain ⟨l', q', hrun', hsetup, hfamily⟩ := Family.push ih.family i child hshort
    cases hrun.symm.trans hrun'
    exact ih.next hfamily hsetup
  | remove i child _ ih =>
    obtain ⟨l, q, hrun, hsetup, hfamily⟩ := Family.remove ih.family i child
    rw [hrun]
    exact ih.next hfamily hsetup
  | drain i _ ih =>
    obtain ⟨q, hrun, hsetup, hfamily⟩ := Family.drain ih.family i
    rw [hrun]
    exact ih.next hfamily hsetup
  | heap slots _ ih => exact ih.withStorage slots

end Children

end Uniprocessor
