import Mathlib.Data.Multiset.AddSub
import Mathlib.Data.Multiset.MapFold
import Mathlib.Tactic.Lemma
import Uniprocessor.MemoryService

/-!
# Traffic with the memory service

A client deals properly with a memory service when it passes on only spaces that the service gave
to it and that it did not give back. The spaces in its hands are counted with multiplicity: each
that comes from the service is one more, and each that is given back is one less.
-/

namespace Uniprocessor

variable {μ space : Type} (memory : MemoryService μ space) (outside : μ → μ → Prop) (start : μ)

/-- Proper dealings with a service that is in state `start` at the beginning: the calls made, the
state of the service and the spaces in the hands of the client. In between, the state may change
from outside. -/
inductive Traffic : List (MemoryCall space) → μ → Multiset space → Prop
  | start : Traffic [] start 0
  | outside {calls m held m'} : Traffic calls m held → outside m m' → Traffic calls m' held
  | created {calls m held handle m'} : Traffic calls m held → memory.create m = (.ok handle, m') →
      Traffic (calls ++ [.create (.ok handle)]) m' (handle ::ₘ held)
  | notCreated {calls m held e m'} : Traffic calls m held → memory.create m = (.error e, m') →
      Traffic (calls ++ [.create (.error e)]) m' held
  | cloned {calls m held source withContents handle m'} : Traffic calls m held → source ∈ held →
      memory.clone m source withContents = (.ok handle, m') →
      Traffic (calls ++ [.clone source withContents (.ok handle)]) m' (handle ::ₘ held)
  | notCloned {calls m held source withContents e m'} : Traffic calls m held → source ∈ held →
      memory.clone m source withContents = (.error e, m') →
      Traffic (calls ++ [.clone source withContents (.error e)]) m' held
  | mapped {calls m held handle count answer handle' m'} : Traffic calls m (handle ::ₘ held) →
      memory.mapPages m handle count = (answer, handle', m') →
      Traffic (calls ++ [.mapPages handle count answer]) m' (handle' ::ₘ held)
  | unmapped {calls m held handle base count handle' m'} : Traffic calls m (handle ::ₘ held) →
      memory.unmapPages m handle base count = (handle', m') →
      Traffic (calls ++ [.unmapPages handle base count]) m' (handle' ::ₘ held)
  | destroyed {calls m held handle withContents} : Traffic calls m (handle ::ₘ held) →
      Traffic (calls ++ [.destroy handle withContents]) (memory.destroy m handle withContents) held
  | root {calls m held handle} : Traffic calls m held → handle ∈ held →
      Traffic (calls ++ [.root handle (memory.root m handle)]) m held

/-- Whatever a client properly does, a space from the service has a root that no other space in
its hands has, and keeps it. -/
structure DistinctRoots : Prop where
  outside_root {calls m held m'} : Traffic memory outside start calls m held → outside m m' →
    ∀ g ∈ held, memory.root m' g = memory.root m g
  create_root {calls m held answer m'} : Traffic memory outside start calls m held →
    memory.create m = (answer, m') → ∀ g ∈ held, memory.root m' g = memory.root m g
  create_new {calls m held handle m'} : Traffic memory outside start calls m held →
    memory.create m = (.ok handle, m') → ∀ g ∈ held, memory.root m' handle ≠ memory.root m g
  clone_root {calls m held source withContents answer m'} :
    Traffic memory outside start calls m held → source ∈ held →
    memory.clone m source withContents = (answer, m') →
    ∀ g ∈ held, memory.root m' g = memory.root m g
  clone_new {calls m held source withContents handle m'} :
    Traffic memory outside start calls m held → source ∈ held →
    memory.clone m source withContents = (.ok handle, m') →
    ∀ g ∈ held, memory.root m' handle ≠ memory.root m g
  mapPages_root {calls m held handle count answer handle' m'} :
    Traffic memory outside start calls m (handle ::ₘ held) →
    memory.mapPages m handle count = (answer, handle', m') →
    memory.root m' handle' = memory.root m handle ∧ ∀ g ∈ held, memory.root m' g = memory.root m g
  unmapPages_root {calls m held handle base count handle' m'} :
    Traffic memory outside start calls m (handle ::ₘ held) →
    memory.unmapPages m handle base count = (handle', m') →
    memory.root m' handle' = memory.root m handle ∧ ∀ g ∈ held, memory.root m' g = memory.root m g
  destroy_root {calls m held handle withContents} :
    Traffic memory outside start calls m (handle ::ₘ held) →
    ∀ g ∈ held, memory.root (memory.destroy m handle withContents) g = memory.root m g

/-- Whatever a client properly does, a space in its hands keeps its root, except one that pages are
mapped in or unmapped from. -/
structure SteadyRoots : Prop where
  outside_root {calls m held m'} : Traffic memory outside start calls m held → outside m m' →
    ∀ g ∈ held, memory.root m' g = memory.root m g
  create_root {calls m held answer m'} : Traffic memory outside start calls m held →
    memory.create m = (answer, m') → ∀ g ∈ held, memory.root m' g = memory.root m g
  clone_root {calls m held source withContents answer m'} :
    Traffic memory outside start calls m held → source ∈ held →
    memory.clone m source withContents = (answer, m') →
    ∀ g ∈ held, memory.root m' g = memory.root m g
  mapPages_root {calls m held handle count answer handle' m'} :
    Traffic memory outside start calls m (handle ::ₘ held) →
    memory.mapPages m handle count = (answer, handle', m') →
    ∀ g ∈ held, memory.root m' g = memory.root m g
  unmapPages_root {calls m held handle base count handle' m'} :
    Traffic memory outside start calls m (handle ::ₘ held) →
    memory.unmapPages m handle base count = (handle', m') →
    ∀ g ∈ held, memory.root m' g = memory.root m g
  destroy_root {calls m held handle withContents} :
    Traffic memory outside start calls m (handle ::ₘ held) →
    ∀ g ∈ held, memory.root (memory.destroy m handle withContents) g = memory.root m g

/-- Whatever a client properly does, a handle that comes into its hands is none of the others there. -/
structure FreshHandles : Prop where
  create_new {calls m held handle m'} : Traffic memory outside start calls m held →
    memory.create m = (.ok handle, m') → handle ∉ held
  clone_new {calls m held source withContents handle m'} :
    Traffic memory outside start calls m held → source ∈ held →
    memory.clone m source withContents = (.ok handle, m') → handle ∉ held
  mapPages_new {calls m held handle count answer handle' m'} :
    Traffic memory outside start calls m (handle ::ₘ held) →
    memory.mapPages m handle count = (answer, handle', m') → handle ∉ held → handle' ∉ held
  unmapPages_new {calls m held handle base count handle' m'} :
    Traffic memory outside start calls m (handle ::ₘ held) →
    memory.unmapPages m handle base count = (handle', m') → handle ∉ held → handle' ∉ held

variable {memory outside start} {m m' : μ} {handle handle' : space} {held : Multiset space}

lemma nodup_roots_congr (h : (held.map (memory.root m)).Nodup)
    (hroot : ∀ g ∈ held, memory.root m' g = memory.root m g) :
    (held.map (memory.root m')).Nodup := by
  rw [Multiset.map_congr rfl hroot]
  exact h

lemma nodup_roots_cons (h : (held.map (memory.root m)).Nodup)
    (hroot : ∀ g ∈ held, memory.root m' g = memory.root m g)
    (hnew : ∀ g ∈ held, memory.root m' handle ≠ memory.root m g) :
    ((handle ::ₘ held).map (memory.root m')).Nodup := by
  rw [Multiset.map_cons, Multiset.nodup_cons]
  refine ⟨fun hmem => ?_, nodup_roots_congr h hroot⟩
  obtain ⟨g, hg, heq⟩ := Multiset.mem_map.mp hmem
  exact hnew g hg (heq.symm.trans (hroot g hg))

lemma nodup_roots_swap (h : ((handle ::ₘ held).map (memory.root m)).Nodup)
    (hroot : memory.root m' handle' = memory.root m handle ∧
      ∀ g ∈ held, memory.root m' g = memory.root m g) :
    ((handle' ::ₘ held).map (memory.root m')).Nodup := by
  rw [Multiset.map_cons, hroot.1, Multiset.map_congr rfl hroot.2, ← Multiset.map_cons]
  exact h

/-- Spaces in the hands of a client have pairwise different roots. -/
theorem DistinctRoots.nodup (h : DistinctRoots memory outside start)
    {calls : List (MemoryCall space)} (htraffic : Traffic memory outside start calls m held) :
    (held.map (memory.root m)).Nodup := by
  induction htraffic with
  | start => exact Multiset.nodup_zero
  | outside ht hstep ih => exact nodup_roots_congr ih (h.outside_root ht hstep)
  | created ht hcreate ih =>
    exact nodup_roots_cons ih (h.create_root ht hcreate) (h.create_new ht hcreate)
  | notCreated ht hcreate ih => exact nodup_roots_congr ih (h.create_root ht hcreate)
  | cloned ht hsource hclone ih =>
    exact nodup_roots_cons ih (h.clone_root ht hsource hclone) (h.clone_new ht hsource hclone)
  | notCloned ht hsource hclone ih => exact nodup_roots_congr ih (h.clone_root ht hsource hclone)
  | mapped ht hmap ih => exact nodup_roots_swap ih (h.mapPages_root ht hmap)
  | unmapped ht hunmap ih => exact nodup_roots_swap ih (h.unmapPages_root ht hunmap)
  | destroyed ht ih =>
    rw [Multiset.map_cons, Multiset.nodup_cons] at ih
    exact nodup_roots_congr ih.2 (h.destroy_root ht)
  | root _ _ ih => exact ih

/-- No handle is twice in the hands of a client. -/
theorem FreshHandles.nodup (h : FreshHandles memory outside start)
    {calls : List (MemoryCall space)} (htraffic : Traffic memory outside start calls m held) :
    held.Nodup := by
  induction htraffic with
  | start => exact Multiset.nodup_zero
  | outside _ _ ih | notCreated _ _ ih | notCloned _ _ _ ih | root _ _ ih => exact ih
  | created ht hcreate ih => exact Multiset.nodup_cons.mpr ⟨h.create_new ht hcreate, ih⟩
  | cloned ht hsource hclone ih => exact Multiset.nodup_cons.mpr ⟨h.clone_new ht hsource hclone, ih⟩
  | mapped ht hmap ih =>
    rw [Multiset.nodup_cons] at ih ⊢
    exact ⟨h.mapPages_new ht hmap ih.1, ih.2⟩
  | unmapped ht hunmap ih =>
    rw [Multiset.nodup_cons] at ih ⊢
    exact ⟨h.unmapPages_new ht hunmap ih.1, ih.2⟩
  | destroyed _ ih => exact (Multiset.nodup_cons.mp ih).2

end Uniprocessor
