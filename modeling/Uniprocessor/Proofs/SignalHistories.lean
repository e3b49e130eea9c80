import Uniprocessor.Proofs.SignalQueues

/-!
# Histories of signal queues

A family of signal queues that begin empty in one pool, none of which is ever a copy of another.
Whatever is sent, whatever is discarded and whatever room the heap has meanwhile, each queue is a
first-in first-out sequence of its own. A signal comes in behind the tail handle, so that no queue is
walked for it, and a queue that was emptied is like one that never held anything.
-/

namespace Uniprocessor

namespace PendingSignals

variable {ι : Type}

section Histories

variable [DecidableEq ι] (name : String) (capacity : Nat)
  (onIssue onRelease : SignalEntry → SignalEntry)

/-- The states that the queues of a family and their pool come to by any sequence of operations, each
with the sequences that the queues stand for. -/
inductive Reached : (ι → List UInt8) → (ι → PendingSignals) → Pool SignalEntry → Prop
  | start : Reached (fun _ => []) (fun _ => empty)
      (((Pool.ofCapacity name capacity .blank).withIssueHook onIssue).withReleaseHook onRelease)
  | push {seqs qs pool q r} (i : ι) (signo : UInt8) : Reached seqs qs pool →
      (qs i).push pool signo = .ok (q, r) →
      Reached (Function.update seqs i (seqs i ++ [signo])) (Function.update qs i q) r
  | clear {seqs qs pool} (i : ι) : Reached seqs qs pool →
      Reached (Function.update seqs i []) (Function.update qs i ((qs i).clear pool).2.1)
        ((qs i).clear pool).2.2
  | heap {seqs qs pool} (slots : Nat) : Reached seqs qs pool →
      Reached seqs qs (pool.withStorage slots)

end Histories

/-- All that can be read of a queue says that it is `seq`. -/
structure Reads (pool : Pool SignalEntry) (q : PendingSignals) (seq : List UInt8) : Prop where
  /-- The entries from the head on lead through the sequence and come to an end. -/
  path : ∃ xs, Pool.Path SignalEntry.next pool q.head xs none ∧ xs.map (·.2.number) = seq ∧
    xs.map (·.1) = q.handles pool
  /-- The tail handle is that of the last entry. -/
  tail : q.tail = (q.handles pool).getLast?
  isSome_tail : q.tail.isSome = true ↔ seq ≠ []
  toList : q.toList pool = seq
  length : q.length = seq.length
  isEmpty : q.isEmpty = seq.isEmpty

/-- The pool turns into `r` by what it takes to append a signal behind the tail handle: a new entry,
and a link to it in the entry under that handle. -/
def AppendedBehind (pool : Pool SignalEntry) (tail : Option Handle) (signo : UInt8) (id : Handle)
    (r : Pool SignalEntry) : Prop :=
  pool.get? id = none ∧ r.get? id = some ⟨signo, none⟩ ∧ ∀ j ≠ id, r.get? j =
    if tail = some j then (pool.get? j).map ({ · with next := some id }) else pool.get? j

/-- The queues `qs` are the sequences `seqs`, in a pool of `bound` entries. -/
structure ActsAs (bound : Nat) (seqs : ι → List UInt8) (qs : ι → PendingSignals)
    (pool : Pool SignalEntry) : Prop where
  reads : ∀ i, Reads pool (qs i) (seqs i)
  /-- All entries in use are those of the queues. -/
  size : ∃ is : Finset ι, (∀ i ∉ is, seqs i = []) ∧ ∑ i ∈ is, (qs i).length = pool.size
  exhausted : ∀ i signo, (qs i).push pool signo = .error .exhausted ↔ pool.size = bound
  /-- Below the bound, a signal is refused only if the heap has no room for another entry. -/
  storageFailed : ∀ i signo, (qs i).push pool signo = .error .storageFailed ↔
    pool.size ≠ bound ∧ pool.storage ≤ pool.size
  push : pool.size ≠ bound → pool.size < pool.storage → ∀ i signo, ∃ id q r,
    (qs i).push pool signo = .ok (q, r) ∧
    q.tail = some id ∧ AppendedBehind pool (qs i).tail signo id r ∧
    Reads r q (seqs i ++ [signo]) ∧ ∀ j ≠ i, Reads r (qs j) (seqs j)
  /-- The entries of the queue go and no others, and what is left of the queue is an empty one. -/
  clear : ∀ i, ∃ r, (qs i).clear pool = ((qs i).length, empty, r) ∧
    (∀ id, r.get? id = if id ∈ (qs i).handles pool then none else pool.get? id) ∧
    Reads r empty [] ∧ ∀ j ≠ i, Reads r (qs j) (seqs j)

variable {name : String} {capacity : Nat} {onIssue onRelease : SignalEntry → SignalEntry}
  {seqs : ι → List UInt8} {qs : ι → PendingSignals} {pool r : Pool SignalEntry} {i : ι}
  {q q' : PendingSignals} {seq : List UInt8} {signo : UInt8}

/-! ### One operation -/

lemma snd_foldl_release (ids : List Handle) (count : Nat) :
    (ids.foldl (fun (count, pool) id =>
        let (released, pool) := Pool.release pool id
        (count + released.toNat, pool)) (count, pool)).2 =
      ids.foldl (fun pool id => (pool.release id).2) pool := by
  induction ids generalizing pool count with
  | nil => rfl
  | cons id ids ih => exact ih _

lemma Family.reads (h : Family pool qs seqs) (i : ι) : Reads pool (qs i) (seqs i) := by
  have htoList := h.toList_eq i
  have hlength := h.length_eq i
  obtain ⟨items, hshared, hitems⟩ := h
  obtain ⟨hseq, htail, -⟩ := hitems i
  have hhandles : (qs i).handles pool = (items i).map (·.1) := (hshared.path i).trail
  constructor
  · exact ⟨items i, hshared.path i, hseq.symm, hhandles.symm⟩
  · rw [htail, hhandles, List.getLast?_map]
  · rw [htail, hseq, Option.isSome_map, List.getLast?_isSome, ne_eq, ne_eq, List.map_eq_nil_iff]
  · exact htoList
  · exact hlength
  · rw [isEmpty, hlength]
    cases seqs i <;> rfl

variable [DecidableEq ι]

lemma Reached.holds (h : Reached name capacity onIssue onRelease seqs qs pool) :
    layout.Holds capacity seqs qs pool := by
  induction h with
  | start => exact Layout.holds_start name capacity .blank onIssue onRelease
  | push i signo _ hrun ih =>
    have hshort := ih.family.wellFormed.shortage?_of_bind hrun
    obtain ⟨q', r', hrun', hsetup, hfamily⟩ := Family.push ih.family i signo hshort
    cases hrun.symm.trans hrun'
    exact ih.next hfamily hsetup
  | clear i _ ih =>
    obtain ⟨r, hrun, hsetup, hfamily⟩ := Family.clear ih.family i
    rw [hrun]
    exact ih.next hfamily hsetup
  | heap slots _ ih => exact ih.withStorage slots

end PendingSignals

end Uniprocessor
