import Uniprocessor.Proofs.Operations
import Uniprocessor.Proofs.Traffic

/-!
# Accounts of spaces

While an operation works, it may have a space in its hands that no process holds yet, or no longer.
The accounts are in order when the spaces in hand and those that the processes hold are together
what the memory service has given out. Every call of the service and every change of one process
keeps them in order.
-/

namespace Uniprocessor

open Uniprocessor.Action

namespace View

variable {μ space α : Type} (memory : MemoryService μ space) (outside : μ → μ → Prop) (start : μ)

/-- After `calls`, `w` is `v` in all but the memory, and the service has given out `hand` and the
spaces of `v`. -/
structure Accounts (hand : Multiset space) (v : View μ space) (calls : List (MemoryCall space))
    (w : View μ space) : Prop where
  same : w = { v with memory := w.memory }
  traffic : Traffic memory outside start calls w.memory (hand + v.spaces)

variable {memory outside start} {hand : Multiset space} {v w : View μ space}
  {calls : List (MemoryCall space)} {handle : space}

namespace Accounts

lemma self (h : Traffic memory outside start calls v.memory v.spaces) :
    Accounts memory outside start 0 v calls v where
  same := rfl
  traffic := by rwa [Multiset.zero_add]

lemma settled (h : Accounts memory outside start 0 v calls w) :
    Traffic memory outside start calls w.memory w.spaces := by
  have htraffic := h.traffic
  rw [Multiset.zero_add] at htraffic
  have hspaces : w.spaces = v.spaces := by
    rw [h.same]
    rfl
  rw [hspaces]
  exact htraffic

lemma table_eq (h : Accounts memory outside start hand v calls w) : w.table = v.table := by
  rw [h.same]

lemma limits_eq (h : Accounts memory outside start hand v calls w) : w.limits = v.limits := by
  rw [h.same]

lemma running_eq (h : Accounts memory outside start hand v calls w) : w.running = v.running := by
  rw [h.same]

lemma lawful (h : Accounts memory outside start hand v calls w) (hlawful : v.Lawful) : w.Lawful :=
  hlawful.congr h.table_eq h.running_eq

/-- A change of both views that the memory has no part in. -/
lemma change (h : Accounts memory outside start hand v calls w) {hand' : Multiset space}
    {v' w' : View μ space} (hsame : w' = { v' with memory := w.memory })
    (hspaces : hand' + v'.spaces = hand + v.spaces) :
    Accounts memory outside start hand' v' calls w' where
  same := by rw [hsame]
  traffic := by
    rw [hspaces, hsame]
    exact h.traffic

/-- The same change on both sides, by which no space changes its holder. -/
lemma congr (h : Accounts memory outside start hand v calls w) (f : View μ space → View μ space)
    (hf : f { v with memory := w.memory } = { f v with memory := w.memory })
    (hspaces : ∀ pid : Nat, (f v).spaceOf pid = v.spaceOf pid) :
    Accounts memory outside start hand (f v) calls (f w) := by
  have hsame := h.same
  refine h.change ?_ (by rw [spaces_congr hspaces])
  rw [hsame]
  exact hf

/-- A process without a space gets the one in hand. -/
lemma give (h : Accounts memory outside start (handle ::ₘ hand) v calls w) {pid : Nat}
    {p : ProcessView space} (hp : v.table[pid]? = some p) (hnone : p.space = none)
    {f : ProcessView space → ProcessView space} (hf : (f p).space = some handle) :
    Accounts memory outside start hand (v.update pid f) calls (w.update pid f) := by
  have hsame := h.same
  apply h.change (by rw [hsame]; rfl)
  rw [spaces_eq_cons ((spaceOf_update_self hp f).trans hf) ((spaceOf_eq hp).trans hnone)
    fun q hq => (spaceOf_update_ne v hq f).symm, Multiset.cons_add, Multiset.add_cons]

/-- The memory moves on. -/
lemma step (h : Accounts memory outside start hand v calls w) {m : μ} {hand' : Multiset space}
    {calls' : List (MemoryCall space)}
    (htraffic : Traffic memory outside start calls' m (hand' + v.spaces)) :
    Accounts memory outside start hand' v calls' { w with memory := m } where
  same := by rw [h.same]
  traffic := htraffic

end Accounts

/-! ### Calls of the memory service -/

variable (memory outside start hand v) in
/-- The accounts after a request for a space: if it is granted, the space is in hand. -/
def Received (answer : Except MemoryError space) (calls : List (MemoryCall space))
    (w : View μ space) : Prop :=
  match answer with
  | .ok handle => Accounts memory outside start (handle ::ₘ hand) v calls w
  | .error _ => Accounts memory outside start hand v calls w

variable {stopped : Fault → List (MemoryCall space) → View μ space → Prop}

lemma ensures_ask {f : μ → α × μ} {call : α → MemoryCall space}
    {post : α → List (MemoryCall space) → View μ space → Prop}
    (h : post (f w.memory).1 (calls ++ [call (f w.memory).1]) { w with memory := (f w.memory).2 }) :
    (ask f call : Action space (View μ space) α).Ensures calls w post stopped := by
  have hask : (ask f call : Action space (View μ space) α).run w =
      ⟨.ok (f w.memory).1, { w with memory := (f w.memory).2 }, [.call (call (f w.memory).1)]⟩ := rfl
  rw [Ensures, hask]
  exact h

lemma ensures_cloneSpace (h : Accounts memory outside start hand v calls w) {source : space}
    (hsource : source ∈ v.spaces) (withContents : Bool) :
    (cloneSpace memory source withContents).Ensures calls w
      (fun answer c w' => memory.clone w.memory source withContents = (answer, w'.memory) ∧
        Received memory outside start hand v answer c w')
      stopped := by
  have hheld : source ∈ hand + v.spaces := Multiset.mem_add.mpr (.inr hsource)
  apply ensures_ask
  cases hclone : memory.clone w.memory source withContents with
  | mk answer m =>
    refine ⟨rfl, ?_⟩
    cases answer with
    | ok handle =>
      apply h.step
      rw [Multiset.cons_add]
      exact h.traffic.cloned hheld hclone
    | error e => exact h.step (h.traffic.notCloned hheld hclone)

lemma ensures_destroySpace (h : Accounts memory outside start (handle ::ₘ hand) v calls w) :
    (destroySpace memory handle).Ensures calls w
      (fun _ c w => Accounts memory outside start hand v c w) stopped := by
  have htraffic := h.traffic
  rw [Multiset.cons_add] at htraffic
  exact ensures_ask (h.step htraffic.destroyed)

end View

end Uniprocessor
