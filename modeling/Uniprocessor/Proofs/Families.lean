import Mathlib.Algebra.BigOperators.Group.Finset.Basic
import Uniprocessor.Proofs.Paths

/-!
# Families of lists that share a pool

Child lists and signal queues are kept in the same way: a list knows where its first record is and how
many it has, and each record names the next one. A family of such lists, none a copy of another, that
together hold all records of a pool is a family of sequences. What follows from the sharing alone is
stated here, for lists of any kind.
-/

namespace Uniprocessor

/-- A kind of lists `γ` of values `β`, the records of which lie in pools of `α`. A list keeps its first
record and its length; whatever else it keeps is right for the records `xs` when it `fits` them. -/
structure Layout (α β γ : Type) where
  next : α → Option Handle
  value : α → β
  head : γ → Option Handle
  length : γ → Nat
  empty : γ
  fits : γ → List (Handle × α) → Prop
  length_eq : ∀ {l xs}, fits l xs → length l = xs.length
  head_empty : head empty = none
  fits_empty : fits empty []
  eq_empty : ∀ {l}, head l = none → fits l [] → l = empty

namespace Layout

variable {α β γ ι : Type} (L : Layout α β γ)

/-- The lists `ls` divide the pool among themselves and contain the sequences `seqs`. -/
def Family (pool : Pool α) (ls : ι → γ) (seqs : ι → List β) : Prop :=
  ∃ items, Pool.Shared L.next pool (fun i => L.head (ls i)) items ∧
    ∀ i, seqs i = (items i).map (fun e => L.value e.2) ∧ L.fits (ls i) (items i)

variable {L} {pool q : Pool α} {ls : ι → γ} {seqs : ι → List β} {i : ι} {l : γ} {seq : List β}
  {capacity : Nat}

lemma family_ofCapacity (name : String) (capacity : Nat) (blank : α) :
    L.Family (Pool.ofCapacity name capacity blank) (fun _ : ι => L.empty) fun _ => [] := by
  refine ⟨fun _ => [], ?_, fun _ => ⟨rfl, L.fits_empty⟩⟩
  simp only [L.head_empty]
  exact Pool.shared_ofCapacity name capacity blank

lemma Family.wellFormed (h : L.Family pool ls seqs) : pool.WellFormed := by
  obtain ⟨items, hshared, -⟩ := h
  exact hshared.wellFormed

lemma Family.withHooks (h : L.Family pool ls seqs) (onIssue onRelease : α → α) :
    L.Family ((pool.withIssueHook onIssue).withReleaseHook onRelease) ls seqs := by
  obtain ⟨items, hshared, hitems⟩ := h
  exact ⟨items, (hshared.withIssueHook _).withReleaseHook _, hitems⟩

lemma Family.withStorage (h : L.Family pool ls seqs) (slots : Nat) :
    L.Family (pool.withStorage slots) ls seqs := by
  obtain ⟨items, hshared, hitems⟩ := h
  exact ⟨items, hshared.withStorage slots, hitems⟩

/-- A list contains what the records from its head on hold. -/
theorem Family.linked_eq (h : L.Family pool ls seqs) (i : ι) :
    (pool.linked L.next (L.head (ls i))).map (fun e => L.value e.2) = seqs i := by
  obtain ⟨items, hshared, hitems⟩ := h
  rw [(hshared.path i).linked, (hitems i).1]

theorem Family.length_eq (h : L.Family pool ls seqs) (i : ι) : L.length (ls i) = (seqs i).length := by
  obtain ⟨items, -, hitems⟩ := h
  rw [(hitems i).1, L.length_eq (hitems i).2, List.length_map]

lemma Family.eq_empty (h : L.Family pool ls seqs) (hi : seqs i = []) : ls i = L.empty := by
  obtain ⟨items, hshared, hitems⟩ := h
  obtain ⟨hseq, hfits⟩ := hitems i
  have hpath := hshared.path i
  rw [hi, eq_comm, List.map_eq_nil_iff] at hseq
  rw [hseq] at hpath hfits
  exact L.eq_empty hpath hfits

variable (L) in
/-- The invariant of a history: a family, of which all but finitely many lists are empty. -/
structure Holds (capacity : Nat) (seqs : ι → List β) (ls : ι → γ) (pool : Pool α) : Prop where
  family : L.Family pool ls seqs
  capacity_eq : pool.capacity = min capacity Pool.capacityBound
  finite : ∃ is : Finset ι, ∀ i ∉ is, seqs i = []

lemma holds_start (name : String) (capacity : Nat) (blank : α) (onIssue onRelease : α → α) :
    L.Holds capacity (fun _ : ι => []) (fun _ => L.empty)
      (((Pool.ofCapacity name capacity blank).withIssueHook onIssue).withReleaseHook onRelease) :=
  ⟨(family_ofCapacity name capacity blank).withHooks _ _, rfl, ∅, fun _ _ => rfl⟩

lemma Holds.withStorage (h : L.Holds capacity seqs ls pool) (slots : Nat) :
    L.Holds capacity seqs ls (pool.withStorage slots) :=
  ⟨h.family.withStorage slots, h.capacity_eq, h.finite⟩

lemma Holds.issue_eq_exhausted_iff (h : L.Holds capacity seqs ls pool) :
    pool.issue = .error .exhausted ↔ pool.size = min capacity (2 ^ 32 - 1) := by
  rw [h.family.wellFormed.issue_eq_exhausted_iff, h.capacity_eq]
  rfl

lemma Holds.issue_eq_storageFailed_iff (h : L.Holds capacity seqs ls pool) :
    pool.issue = .error .storageFailed ↔
      pool.size ≠ min capacity (2 ^ 32 - 1) ∧ pool.storage ≤ pool.size := by
  rw [h.family.wellFormed.issue_eq_storageFailed_iff, h.capacity_eq]
  rfl

lemma Holds.shortage?_eq_none (h : L.Holds capacity seqs ls pool)
    (hroom : pool.size ≠ min capacity (2 ^ 32 - 1)) (hstorage : pool.size < pool.storage) :
    Pool.shortage? pool.capacity pool.storage pool.size = none := by
  refine h.family.wellFormed.shortage?_eq_none ?_ hstorage
  rw [h.capacity_eq]
  exact hroom

/-! ### One list of a family changes -/

variable [DecidableEq ι]

/-- What has to be checked when one list of the family changes. -/
lemma family_update {items : ι → List (Handle × α)} {xs : List (Handle × α)}
    (hitems : ∀ i, seqs i = (items i).map (fun e => L.value e.2) ∧ L.fits (ls i) (items i))
    (hshared : Pool.Shared L.next q (Function.update (fun j => L.head (ls j)) i (L.head l))
      (Function.update items i xs))
    (hseq : seq = xs.map fun e => L.value e.2) (hfits : L.fits l xs) :
    L.Family q (Function.update ls i l) (Function.update seqs i seq) := by
  refine ⟨Function.update items i xs, ?_, fun j => ?_⟩
  · have hhead : (fun j => L.head (Function.update ls i l j)) =
        Function.update (fun j => L.head (ls j)) i (L.head l) :=
      funext fun j => Function.apply_update (fun _ => L.head) ls i l j
    rw [hhead]
    exact hshared
  · by_cases hj : j = i
    · subst hj
      simpa using ⟨hseq, hfits⟩
    · simpa [hj] using hitems j

lemma Holds.next (h : L.Holds capacity seqs ls pool)
    (hfamily : L.Family q (Function.update ls i l) (Function.update seqs i seq))
    (hsetup : pool.SameSetup q) :
    L.Holds capacity (Function.update seqs i seq) (Function.update ls i l) q where
  family := hfamily
  capacity_eq := hsetup.capacity.trans h.capacity_eq
  finite := Pool.exists_finset_update h.finite i seq

theorem Family.size_eq (h : L.Family pool ls seqs) {is : List ι} (hnodup : is.Nodup)
    (hall : ∀ i, i ∉ is → seqs i = []) : (is.map fun i => (seqs i).length).sum = pool.size := by
  obtain ⟨items, hshared, hitems⟩ := h
  have hempty : ∀ i, i ∉ is → items i = [] := fun i hi => by simpa [(hitems i).1] using hall i hi
  rw [← hshared.size_eq hnodup hempty]
  simp [hitems]

end Layout

end Uniprocessor
