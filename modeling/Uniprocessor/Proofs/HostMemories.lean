import Mathlib.Logic.Function.Basic
import Std.Data.ExtTreeMap.Lemmas
import Uniprocessor.HostMemory
import Uniprocessor.Proofs.Traffic

/-!
# The host as a memory service

What can be seen of the host's memory are the contents of the live spaces and the page runs mapped
in them. Every call changes what can be seen of one space at most, and a call that is refused
changes nothing. Since a space gets a number that no space had before, giving it back undoes its
creation, and as long as addresses do not run out its root is its own.
-/

namespace Uniprocessor

namespace HostMemory

/-- What can be seen of a live space. -/
structure SpaceView where
  contents : Std.ExtTreeMap UInt64 UInt8
  pages : List (UInt64 × UInt64)

/-- What can be seen of the space with a given number, if it is live. -/
def observe (m : HostMemory) (id : Nat) : Option SpaceView :=
  m.spaces[id]?.map fun data => ⟨data.contents, data.pages⟩

/-- Everything that is done to the host's memory but by calls of the service: failures are ordered
and bytes are written. -/
inductive Adjusted (m : HostMemory) : HostMemory → Prop
  | failNextCreate : Adjusted m m.failNextCreate
  | failNextClone : Adjusted m m.failNextClone
  | failMapping (successes : Nat) : Adjusted m (m.failMapping successes)
  | write (id : Nat) (address : UInt64) (value : UInt8) : Adjusted m (m.write id address value)

/-- No live space has a number that was not given out yet. -/
def Numbered (m : HostMemory) : Prop := ∀ id, m.lastId < id → m.observe id = none

/-- How a request for a space is answered. -/
inductive Issue (m : HostMemory) : Except MemoryError HostSpace → HostMemory → Prop
  | refused {m' : HostMemory} (e : MemoryError) : m'.observe = m.observe → m'.lastId = m.lastId →
      Issue m (.error e) m'
  | given (data : HostSpaceData) : Issue m (.ok (m.register data).1) (m.register data).2

/-- How a request for pages is answered. -/
inductive Mapping (m : HostMemory) (handle : HostSpace) (count : Nat) :
    Except MemoryError UInt64 → HostMemory → Prop
  | refused {m' : HostMemory} (e : MemoryError) : m'.observe = m.observe →
      Mapping m handle count (.error e) m'
  | given {m' : HostMemory} (base : UInt64) :
      m'.observe = Function.update m.observe handle.id ((m.observe handle.id).map
        fun s => { s with pages := (base, UInt64.ofNat count) :: s.pages }) →
      Mapping m handle count (.ok base) m'

variable {m m' : HostMemory} {handle handle' : HostSpace} {held : Multiset HostSpace}
  {calls : List (MemoryCall HostSpace)}

/-! ### What the calls change -/

lemma observe_insert (m : HostMemory) (id : Nat) (data : HostSpaceData) (lastId : Nat)
    (failMappingAfter : Option Nat) :
    observe { m with
      spaces := m.spaces.insert id data, lastId := lastId, failMappingAfter := failMappingAfter } =
      Function.update m.observe id (some ⟨data.contents, data.pages⟩) := by
  funext q
  rw [observe, Std.ExtTreeMap.getElem?_insert, Function.update_apply]
  by_cases hq : q = id
  · simp [hq]
  · rw [if_neg hq, if_neg (by simpa using Ne.symm hq)]
    rfl

lemma observe_register (m : HostMemory) (data : HostSpaceData) :
    (m.register data).2.observe =
      Function.update m.observe (m.lastId + 1) (some ⟨data.contents, data.pages⟩) :=
  observe_insert m _ data _ _

lemma issue_create {answer : Except MemoryError HostSpace} (h : m.create = (answer, m')) :
    Issue m answer m' := by
  unfold create at h
  split at h
  · cases h
    exact .refused _ rfl rfl
  · cases h
    exact .given _

lemma issue_clone {source : HostSpace} {withContents : Bool} {answer : Except MemoryError HostSpace}
    (h : m.clone source withContents = (answer, m')) : Issue m answer m' := by
  unfold clone at h
  split at h
  · cases h
    exact .refused _ rfl rfl
  · split at h
    · cases h
      exact .refused _ rfl rfl
    · cases h
      exact .given _

lemma mapping_mapPages {count : Nat} {answer : Except MemoryError UInt64}
    (h : m.mapPages handle count = (answer, handle', m')) :
    handle' = handle ∧ m'.lastId = m.lastId ∧ Mapping m handle count answer m' := by
  unfold mapPages at h
  split at h
  · cases h
    exact ⟨rfl, rfl, .refused _ rfl⟩
  · dsimp only at h
    split at h
    · cases h
      exact ⟨rfl, rfl, .refused _ rfl⟩
    · rename_i data hdata
      cases h
      refine ⟨rfl, rfl, .given _ ?_⟩
      rw [observe_insert m, observe, hdata]
      rfl

lemma unmapPages_lastId (m : HostMemory) (handle : HostSpace) (base : UInt64) :
    (m.unmapPages handle base).lastId = m.lastId := by
  unfold unmapPages
  split <;> rfl

lemma observe_unmapPages (m : HostMemory) (handle : HostSpace) (base : UInt64) :
    (m.unmapPages handle base).observe = Function.update m.observe handle.id
      ((m.observe handle.id).map fun s => { s with pages := s.pages.eraseP (·.1 == base) }) := by
  unfold unmapPages
  split
  · rename_i hdata
    have hnone : m.observe handle.id = none := by
      rw [observe, hdata]
      rfl
    rw [hnone, Option.map_none, ← hnone, Function.update_eq_self]
  · rename_i data hdata
    rw [observe_insert, observe, hdata]
    rfl

lemma destroy_lastId (m : HostMemory) (handle : HostSpace) :
    (m.destroy handle).lastId = m.lastId := by
  unfold destroy
  split <;> rfl

lemma observe_destroy (m : HostMemory) (handle : HostSpace) :
    (m.destroy handle).observe = Function.update m.observe handle.id none := by
  funext id
  rw [Function.update_apply, destroy]
  split
  · rw [observe, Std.ExtTreeMap.getElem?_erase]
    by_cases hid : id = handle.id
    · simp [hid]
    · rw [if_neg (by simpa using Ne.symm hid), if_neg hid]
      rfl
  · rename_i hdead
    split
    · rename_i hid
      rw [hid, observe, Std.ExtTreeMap.getElem?_eq_none_of_contains_eq_false
        (Bool.eq_false_iff.mpr hdead)]
      rfl
    · rfl

/-! ### Fresh numbers -/

lemma Numbered.congr (h : m.Numbered) (hobserve : m'.observe = m.observe)
    (hlast : m'.lastId = m.lastId) : m'.Numbered := by
  intro id hid
  rw [hobserve]
  exact h id (hlast ▸ hid)

lemma Numbered.update (h : m.Numbered) {id : Nat} {o : Option SpaceView}
    (hobserve : m'.observe = Function.update m.observe id o) (hlast : m'.lastId = m.lastId)
    (hnone : m.observe id = none → o = none) : m'.Numbered := by
  intro q hq
  rw [hlast] at hq
  rw [hobserve, Function.update_apply]
  split
  · rename_i heq
    exact hnone (heq ▸ h q hq)
  · exact h q hq

lemma Numbered.issue (h : m.Numbered) {answer : Except MemoryError HostSpace}
    (hissue : Issue m answer m') : m'.Numbered := by
  cases hissue with
  | refused e hobserve hlast => exact h.congr hobserve hlast
  | given data =>
    intro id hid
    have hlast : (m.register data).2.lastId = m.lastId + 1 := rfl
    rw [observe_register, Function.update_of_ne (by omega)]
    exact h id (by omega)

lemma Numbered.adjusted (h : m.Numbered) (hadjusted : Adjusted m m') : m'.Numbered := by
  cases hadjusted with
  | failNextCreate => exact h.congr rfl rfl
  | failNextClone => exact h.congr rfl rfl
  | failMapping successes => exact h.congr rfl rfl
  | write id address value =>
    unfold write
    split
    · exact h
    · rename_i data hdata
      refine h.update (observe_insert m id _ _ _) rfl fun hnone => ?_
      rw [observe, hdata] at hnone
      cases hnone

lemma numbered_empty : empty.Numbered := by
  intro id _
  simp [observe, empty]

/-- Giving a new space back undoes its creation. -/
lemma Numbered.destroy_issued (h : m.Numbered) (hissue : Issue m (.ok handle) m') :
    (m'.destroy handle).observe = m.observe := by
  cases hissue with
  | given data =>
    have hid : (m.register data).1.id = m.lastId + 1 := rfl
    have hnone : m.observe (m.lastId + 1) = none := h _ (by omega)
    rw [observe_destroy, observe_register, hid, Function.update_idem, ← hnone,
      Function.update_eq_self]

/-- Unmapping pages undoes their mapping. -/
lemma Mapping.unmapPages {base : UInt64} {count : Nat} (h : Mapping m handle count (.ok base) m') :
    (m'.unmapPages handle base).observe = m.observe := by
  cases h with
  | given _ hobserve =>
    rw [observe_unmapPages, hobserve, Function.update_self, Function.update_idem, Option.map_map]
    have hsame : (m.observe handle.id).map ((fun s : SpaceView =>
        { s with pages := s.pages.eraseP (·.1 == base) }) ∘
        fun s => { s with pages := (base, UInt64.ofNat count) :: s.pages }) = m.observe handle.id := by
      cases m.observe handle.id <;> simp
    rw [hsame, Function.update_eq_self]

/-- In proper dealings with the service, every space gets a number of its own. -/
theorem Numbered.of_traffic (h : Traffic service Adjusted empty calls m held) : m.Numbered := by
  induction h with
  | start => exact numbered_empty
  | outside _ hadjusted ih => exact ih.adjusted hadjusted
  | created _ hcreate ih => exact ih.issue (issue_create hcreate)
  | notCreated _ hcreate ih => exact ih.issue (issue_create hcreate)
  | cloned _ _ hclone ih => exact ih.issue (issue_clone hclone)
  | notCloned _ _ hclone ih => exact ih.issue (issue_clone hclone)
  | mapped _ hmap ih =>
    obtain ⟨-, hlast, hmapping⟩ := mapping_mapPages hmap
    cases hmapping with
    | refused e hobserve => exact ih.congr hobserve hlast
    | given base hobserve => exact ih.update hobserve hlast fun hnone => by rw [hnone]; rfl
  | @unmapped _ m _ handle base _ _ _ _ hunmap ih =>
    cases hunmap
    exact ih.update (observe_unmapPages m handle base) (unmapPages_lastId m handle base)
      fun hnone => by rw [hnone]; rfl
  | @destroyed _ m _ handle _ _ ih =>
    exact ih.update (observe_destroy m handle) (destroy_lastId m handle) fun _ => rfl
  | root _ _ ih => exact ih

/-! ### Roots -/

/-- The host's memory with a bound on the number of spaces it ever gives out. -/
def boundedService (bound : Nat) : MemoryService HostMemory HostSpace :=
  { service with
    create := fun m => if m.lastId < bound then m.create else (.error .outOfMemory, m)
    clone := fun m source withContents =>
      if m.lastId < bound then m.clone source withContents else (.error .outOfMemory, m) }

/-- A space with a number that was given out, and with the root that belongs to the number. -/
def Registered (m : HostMemory) (handle : HostSpace) : Prop :=
  handle.id ≤ m.lastId ∧
    handle.root = rootBase + UInt64.ofNat handle.id * UInt64.ofNat pageSize

/-- Numbers with roots of their own: below this bound addresses do not run out. -/
def rootBound : Nat := 0x10000000000

variable {bound : Nat}

lemma root_injective {a b : Nat} (ha : a ≤ rootBound) (hb : b ≤ rootBound)
    (h : rootBase + UInt64.ofNat a * UInt64.ofNat pageSize =
      rootBase + UInt64.ofNat b * UInt64.ofNat pageSize) : a = b := by
  have hroot : ∀ n ≤ rootBound, (rootBase + UInt64.ofNat n * UInt64.ofNat pageSize).toNat =
      1048576 + n * 4096 := by
    intro n hn
    have hbase : rootBase.toNat = 1048576 := rfl
    have hsize : (UInt64.ofNat pageSize).toNat = 4096 := rfl
    rw [rootBound] at hn
    rw [UInt64.toNat_add, UInt64.toNat_mul, hbase, hsize, UInt64.toNat_ofNat']
    omega
  have heq := congrArg UInt64.toNat h
  rw [hroot a ha, hroot b hb] at heq
  omega

lemma Registered.mono (h : m.Registered handle) (hlast : m.lastId ≤ m'.lastId) :
    m'.Registered handle :=
  ⟨h.1.trans hlast, h.2⟩

lemma Issue.lastId_le {answer : Except MemoryError HostSpace} (h : Issue m answer m') :
    m.lastId ≤ m'.lastId ∧ m'.lastId ≤ m.lastId + 1 := by
  cases h with
  | refused e _ hlast => omega
  | given data => exact ⟨Nat.le_succ m.lastId, Nat.le_refl _⟩

lemma Issue.registered (h : Issue m (.ok handle) m') :
    m'.Registered handle ∧ handle.id = m.lastId + 1 := by
  cases h with
  | given data => exact ⟨⟨Nat.le_refl _, rfl⟩, rfl⟩

lemma issue_of_bounded {answer : Except MemoryError HostSpace}
    {request : Except MemoryError HostSpace × HostMemory}
    (h : (if m.lastId < bound then request else (.error .outOfMemory, m)) = (answer, m'))
    (hissue : request = (answer, m') → Issue m answer m') :
    Issue m answer m' ∧ (m.lastId ≤ bound → m'.lastId ≤ bound) := by
  split at h
  · exact ⟨hissue h, fun _ => by have := (hissue h).lastId_le; omega⟩
  · cases h
    exact ⟨.refused _ rfl rfl, fun h => h⟩

lemma Adjusted.lastId_eq (h : Adjusted m m') : m'.lastId = m.lastId := by
  cases h with
  | failNextCreate => rfl
  | failNextClone => rfl
  | failMapping successes => rfl
  | write id address value =>
    unfold HostMemory.write
    split <;> rfl

/-- In proper dealings with the service, every space in hand has a number that was given out. -/
theorem id_le_lastId_of_traffic (h : Traffic service Adjusted empty calls m held) :
    ∀ g ∈ held, g.id ≤ m.lastId := by
  induction h with
  | start => simp
  | outside _ hadjusted ih => exact fun g hg => hadjusted.lastId_eq ▸ ih g hg
  | created _ hcreate ih =>
    exact Multiset.forall_mem_cons.mpr ⟨(issue_create hcreate).registered.1.1,
      fun g hg => (ih g hg).trans (issue_create hcreate).lastId_le.1⟩
  | notCreated _ hcreate ih => exact fun g hg => (ih g hg).trans (issue_create hcreate).lastId_le.1
  | cloned _ _ hclone ih =>
    exact Multiset.forall_mem_cons.mpr ⟨(issue_clone hclone).registered.1.1,
      fun g hg => (ih g hg).trans (issue_clone hclone).lastId_le.1⟩
  | notCloned _ _ hclone ih => exact fun g hg => (ih g hg).trans (issue_clone hclone).lastId_le.1
  | mapped _ hmap ih =>
    obtain ⟨rfl, hlast, -⟩ := mapping_mapPages hmap
    exact fun g hg => hlast ▸ ih g hg
  | @unmapped _ m _ handle base _ _ _ _ hunmap ih =>
    cases hunmap
    exact fun g hg => (ih g hg).trans (unmapPages_lastId m handle base).ge
  | @destroyed _ m _ handle _ _ ih =>
    exact fun g hg => (ih g (Multiset.mem_cons_of_mem hg)).trans (destroy_lastId m handle).ge
  | root _ _ ih => exact ih

/-- The host never gives out a handle again that is in use. -/
theorem freshHandles : FreshHandles service Adjusted empty where
  create_new ht hcreate hmem := by
    have hle := id_le_lastId_of_traffic ht _ hmem
    rw [(issue_create hcreate).registered.2] at hle
    omega
  clone_new ht _ hclone hmem := by
    have hle := id_le_lastId_of_traffic ht _ hmem
    rw [(issue_clone hclone).registered.2] at hle
    omega
  mapPages_new _ hmap := by
    obtain ⟨rfl, -, -⟩ := mapping_mapPages hmap
    exact id
  unmapPages_new _ hunmap := by
    cases hunmap
    exact id

/-- The root of a space of the host is part of its handle. -/
theorem steadyRoots : SteadyRoots service Adjusted empty where
  outside_root _ _ _ _ := rfl
  create_root _ _ _ _ := rfl
  clone_root _ _ _ _ _ := rfl
  mapPages_root _ _ _ _ := rfl
  unmapPages_root _ _ _ _ := rfl
  destroy_root _ _ _ := rfl

/-- What a client of the bounded service holds is registered, and the bound is kept. -/
structure Bounded (bound : Nat) (m : HostMemory) (held : Multiset HostSpace) : Prop where
  lastId_le : m.lastId ≤ bound
  registered : ∀ g ∈ held, m.Registered g

namespace Bounded

lemma congr (h : Bounded bound m held) (hlast : m'.lastId = m.lastId) : Bounded bound m' held :=
  ⟨hlast ▸ h.lastId_le, fun g hg => (h.registered g hg).mono hlast.ge⟩

lemma refused (h : Bounded bound m held) {answer : Except MemoryError HostSpace}
    (hissue : Issue m answer m' ∧ (m.lastId ≤ bound → m'.lastId ≤ bound)) : Bounded bound m' held :=
  ⟨hissue.2 h.lastId_le, fun g hg => (h.registered g hg).mono hissue.1.lastId_le.1⟩

lemma given (h : Bounded bound m held)
    (hissue : Issue m (.ok handle) m' ∧ (m.lastId ≤ bound → m'.lastId ≤ bound)) :
    Bounded bound m' (handle ::ₘ held) := by
  refine ⟨hissue.2 h.lastId_le, fun g hg => ?_⟩
  rcases Multiset.mem_cons.mp hg with rfl | hg
  · exact hissue.1.registered.1
  · exact (h.refused hissue).registered g hg

/-- A space that was just given out has a root that no other space has. -/
lemma root_ne (h : Bounded bound m held) (hbound : bound ≤ rootBound)
    (hissue : Issue m (.ok handle) m' ∧ (m.lastId ≤ bound → m'.lastId ≤ bound)) :
    ∀ g ∈ held, handle.root ≠ g.root := by
  intro g hg hroot
  obtain ⟨hnumber, hown⟩ := h.registered g hg
  obtain ⟨⟨hnew, hnewRoot⟩, hlast⟩ := hissue.1.registered
  rw [hown, hnewRoot] at hroot
  have hle := (h.refused hissue).lastId_le
  have heq := root_injective ((hnew.trans hle).trans hbound)
    ((hnumber.trans h.lastId_le).trans hbound) hroot
  omega

theorem of_traffic (h : Traffic (boundedService bound) Adjusted empty calls m held) :
    Bounded bound m held := by
  induction h with
  | start => exact ⟨Nat.zero_le bound, by simp⟩
  | outside _ hadjusted ih => exact ih.congr hadjusted.lastId_eq
  | created _ hcreate ih => exact ih.given (issue_of_bounded hcreate issue_create)
  | notCreated _ hcreate ih => exact ih.refused (issue_of_bounded hcreate issue_create)
  | cloned _ _ hclone ih => exact ih.given (issue_of_bounded hclone issue_clone)
  | notCloned _ _ hclone ih => exact ih.refused (issue_of_bounded hclone issue_clone)
  | mapped _ hmap ih =>
    obtain ⟨rfl, hlast, -⟩ := mapping_mapPages hmap
    exact ih.congr hlast
  | unmapped _ hunmap ih =>
    cases hunmap
    exact ih.congr (unmapPages_lastId _ _ _)
  | @destroyed _ _ _ handle _ _ ih =>
    have hrest := ih.congr (destroy_lastId _ handle)
    exact ⟨hrest.lastId_le, fun g hg => hrest.registered g (Multiset.mem_cons_of_mem hg)⟩
  | root _ _ ih => exact ih

end Bounded

/-- With a bound below which addresses do not run out, the roots of the host are distinct. -/
theorem distinctRoots (hbound : bound ≤ rootBound) :
    DistinctRoots (boundedService bound) Adjusted empty where
  outside_root _ _ _ _ := rfl
  create_root _ _ _ _ := rfl
  create_new ht hcreate := (Bounded.of_traffic ht).root_ne hbound (issue_of_bounded hcreate issue_create)
  clone_root _ _ _ _ _ := rfl
  clone_new ht _ hclone := (Bounded.of_traffic ht).root_ne hbound (issue_of_bounded hclone issue_clone)
  mapPages_root _ hmap := by
    obtain ⟨rfl, -, -⟩ := mapping_mapPages hmap
    exact ⟨rfl, fun _ _ => rfl⟩
  unmapPages_root _ hunmap := by
    cases hunmap
    exact ⟨rfl, fun _ _ => rfl⟩
  destroy_root _ _ _ := rfl

end HostMemory

end Uniprocessor
