import Uniprocessor.PendingSignals
import Uniprocessor.Proofs.Families

/-!
# Signal queues that share a pool

A family of signal queues, none a copy of another, that together hold all entries of a pool.
Each queue is then a first-in first-out sequence of its own, and its tail handle is that of the
last entry.
-/

namespace Uniprocessor

namespace PendingSignals

variable {ι : Type} {pool : Pool SignalEntry} {qs : ι → PendingSignals} {seqs : ι → List UInt8}

/-- A queue keeps its first entry, the handle of its last one, and its length. -/
def layout : Layout SignalEntry UInt8 PendingSignals where
  next := SignalEntry.next
  value := SignalEntry.number
  head := PendingSignals.head
  length := PendingSignals.length
  empty := empty
  fits q xs := q.tail = xs.getLast?.map (·.1) ∧ q.length = xs.length
  length_eq h := h.2
  head_empty := rfl
  fits_empty := ⟨rfl, rfl⟩
  eq_empty {q} hhead hfits := by
    obtain ⟨htail, hlength⟩ := hfits
    cases q
    simp_all [empty]

@[simp]
lemma layout_value (e : SignalEntry) : layout.value e = e.number := rfl

@[simp]
lemma layout_fits (q : PendingSignals) (xs : List (Handle × SignalEntry)) :
    layout.fits q xs ↔ q.tail = xs.getLast?.map (·.1) ∧ q.length = xs.length := Iff.rfl

/-- The queues `qs` divide the pool among themselves and contain the sequences `seqs`. -/
abbrev Family (pool : Pool SignalEntry) (qs : ι → PendingSignals) (seqs : ι → List UInt8) : Prop :=
  layout.Family pool qs seqs

lemma Family.exists_items (h : Family pool qs seqs) :
    ∃ items, Pool.Shared SignalEntry.next pool (fun i => (qs i).head) items ∧
      ∀ i, seqs i = (items i).map (·.2.number) ∧ (qs i).tail = (items i).getLast?.map (·.1) ∧
        (qs i).length = (items i).length := h

lemma Family.toList_eq (h : Family pool qs seqs) (i : ι) : (qs i).toList pool = seqs i :=
  h.linked_eq i

lemma Family.length_eq (h : Family pool qs seqs) (i : ι) : (qs i).length = (seqs i).length :=
  Layout.Family.length_eq h i

/-- A signal is refused for the reason that an entry is refused. -/
lemma push_eq_error_iff {q : PendingSignals} {signo : UInt8} {e : IssueError} :
    q.push pool signo = .error e ↔ pool.issue = .error e := by
  apply Pool.issue_bind_eq_error_iff
  intro issued
  dsimp only
  split <;> exact ⟨_, rfl⟩

section

variable [DecidableEq ι]

theorem Family.push (h : Family pool qs seqs) (i : ι) (signo : UInt8)
    (hshort : Pool.shortage? pool.capacity pool.storage pool.size = none) :
    ∃ q r, (qs i).push pool signo = .ok (q, r) ∧ pool.SameSetup r ∧
      Family r (Function.update qs i q) (Function.update seqs i (seqs i ++ [signo])) := by
  obtain ⟨items, hshared, hitems⟩ := h.exists_items
  obtain ⟨hseq, htail, hlen⟩ := hitems i
  obtain ⟨id, r, hissue, hissues⟩ := hshared.wellFormed.issue_eq_ok hshort
  rcases List.eq_nil_or_concat' (items i) with hnil | ⟨xs, last, hxs⟩
  · refine ⟨⟨some id, some id, (qs i).length + 1⟩, r.modify id fun _ => ⟨signo, none⟩, ?_, ?_, ?_⟩
    · rw [hnil] at htail
      simp [PendingSignals.push, hissue, htail, bind, Except.bind, pure, Except.pure]
    · exact hissues.setup.trans (Pool.sameSetup_modify _ _ _)
    · have hhead : none = (qs i).head := by
        have hpath := hshared.path i
        rw [hnil] at hpath
        exact hpath.symm
      have hinsert := hshared.insertHead hissues i (g := fun _ => ⟨signo, none⟩) hhead
      refine Layout.family_update hitems hinsert ?_ ?_
      · simp [hseq, hnil]
      · simp [hlen, hnil]
  · rw [hxs, List.getLast?_append, List.getLast?_singleton] at htail
    have hcontains : r.contains last.1 = true := by
      have hval := (hshared.path i).get? (e := last) (by simp [hxs])
      rw [Pool.contains, hissues.get?]
      split <;> simp [hval]
    refine ⟨⟨(qs i).head, some id, (qs i).length + 1⟩,
      (r.modify id fun _ => ⟨signo, none⟩).modify last.1 ({ · with next := some id }), ?_, ?_, ?_⟩
    · simp [PendingSignals.push, hissue, htail, hcontains, Option.filter, bind, Except.bind, pure,
        Except.pure]
    · exact (hissues.setup.trans (Pool.sameSetup_modify _ _ _)).trans (Pool.sameSetup_modify _ _ _)
    · have hinsert := hshared.insertBehind hissues (g := fun _ => ⟨signo, none⟩)
        (f := ({ · with next := some id })) hxs ((hshared.path i).next_last hxs).symm fun _ => rfl
      rw [← Function.update_eq_self i fun j => (qs j).head] at hinsert
      refine Layout.family_update hitems hinsert ?_ ?_
      · simp [hseq, hxs]
      · simp [hlen, hxs]

/-- Every handle of a list in the family is given back with success. -/
lemma foldl_release {head : ι → Option Handle} {items : ι → List (Handle × SignalEntry)}
    {i : ι} {xs : List (Handle × SignalEntry)}
    (h : Pool.Shared SignalEntry.next pool head items) (hitems : items i = xs) (count : Nat) :
    (xs.map (·.1)).foldl (fun (count, pool) id =>
        let (released, pool) := Pool.release pool id
        (count + released.toNat, pool)) (count, pool) =
      (count + xs.length, xs.foldl (fun pool e => (pool.release e.1).2) pool) := by
  induction xs generalizing pool head items count with
  | nil => simp
  | cons x xs ih =>
    have hlive : pool.contains x.1 = true := (h.path i).contains (by simp [hitems])
    obtain ⟨r, hr⟩ : ∃ r, pool.release x.1 = (true, r) :=
      ⟨_, Prod.ext (h.wellFormed.release_of_contains hlive).1 rfl⟩
    have hreleases := (h.wellFormed.release_of_contains hlive).2
    rw [hr] at hreleases
    have hrest := ih (h.dropHead hitems hreleases) (by simp) (count + 1)
    rw [List.map_cons, List.foldl_cons, List.foldl_cons]
    simp only [hr, Bool.toNat_true, List.length_cons]
    rw [hrest]
    simp [Nat.add_assoc, Nat.add_comm 1]

theorem Family.clear (h : Family pool qs seqs) (i : ι) :
    ∃ r, (qs i).clear pool = ((seqs i).length, empty, r) ∧ pool.SameSetup r ∧
      Family r (Function.update qs i empty) (Function.update seqs i []) := by
  obtain ⟨items, hshared, hitems⟩ := h.exists_items
  refine ⟨(items i).foldl (fun pool e => (pool.release e.1).2) pool, ?_, ?_, ?_⟩
  · have hfold := foldl_release hshared (i := i) rfl 0
    rw [PendingSignals.clear, handles, (hshared.path i).trail, hfold]
    simp [(hitems i).1]
  · exact Pool.sameSetup_foldl_release _ _
  · exact Layout.family_update hitems (hshared.dropAll rfl) rfl ⟨rfl, rfl⟩

end

end PendingSignals

end Uniprocessor
