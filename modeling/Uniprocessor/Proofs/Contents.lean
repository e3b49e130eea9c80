import Uniprocessor.Proofs.HostMemories

/-!
# What is read from the spaces of the host

The bytes of a space change by writes to this space and by nothing else. Calls of the memory service
may add spaces, take spaces away and map pages, but no number of a space is given out again, so that
a number that stays in use means one space with one history of writes.
-/

namespace Uniprocessor

namespace HostMemory

/-- A byte written into the space with a given number. -/
structure Write where
  id : Nat
  address : UInt64
  value : UInt8

/-- The last byte written at an address of a space. -/
def lastWrite (writes : List Write) (id : Nat) (address : UInt64) : Option UInt8 :=
  (writes.reverse.find? fun w => w.id == id && w.address == address).map (·.value)

lemma lastWrite_append (writes more : List Write) (id : Nat) (address : UInt64) :
    lastWrite (writes ++ more) id address =
      (lastWrite more id address).or (lastWrite writes id address) := by
  rw [lastWrite, List.reverse_append, List.find?_append, Option.map_or]
  rfl

lemma lastWrite_singleton (w : Write) (id : Nat) (address : UInt64) :
    lastWrite [w] id address = if w.id = id ∧ w.address = address then some w.value else none := by
  rw [lastWrite, List.reverse_singleton, List.find?_singleton]
  by_cases h : w.id = id ∧ w.address = address
  · simp [h]
  · rw [if_neg h, if_neg (by simpa using h)]
    rfl

variable {m m' m'' : HostMemory} {handle handle' : HostSpace} {held : Multiset HostSpace}
  {calls : List (MemoryCall HostSpace)} {writes more : List Write}

lemma isLive_eq (m : HostMemory) (id : Nat) : m.isLive id = (m.observe id).isSome := by
  rw [isLive, observe, Option.isSome_map, Std.ExtTreeMap.isSome_getElem?_eq_contains]

lemma read_eq (m : HostMemory) (id : Nat) (address : UInt64) :
    m.read id address = (m.observe id).bind (·.contents[address]?) := by
  rw [read, observe, Option.bind_map]
  rfl

/-- Spaces that show the same are read alike. -/
lemma read_congr {id id' : Nat} (h : m'.observe id' = m.observe id) : m'.read id' = m.read id := by
  funext address
  rw [read_eq, read_eq, h]

/-- What is done to the host's memory from outside, but for writes: failures are ordered. -/
inductive Ordered (m : HostMemory) : HostMemory → Prop
  | failNextCreate : Ordered m m.failNextCreate
  | failNextClone : Ordered m m.failNextClone
  | failMapping (successes : Nat) : Ordered m (m.failMapping successes)

lemma Ordered.adjusted (h : Ordered m m') : Adjusted m m' := by
  cases h with
  | failNextCreate => exact .failNextCreate
  | failNextClone => exact .failNextClone
  | failMapping successes => exact .failMapping successes

/-! ### Histories of writes -/

/-- From `m` to `m'` the spaces were written to as the list says, in its order: whichever of the
spaces of `m` is still live has the bytes that it had, but for those writes. -/
structure Follows (writes : List Write) (m m' : HostMemory) : Prop where
  lastId_le : m.lastId ≤ m'.lastId
  bytes {id : Nat} {s' : SpaceView} : id ≤ m.lastId → m'.observe id = some s' →
    ∃ s, m.observe id = some s ∧ ∀ address : UInt64,
      s'.contents[address]? = (lastWrite writes id address).or s.contents[address]?

namespace Follows

lemma trans (h : Follows writes m m') (h' : Follows more m' m'') : Follows (writes ++ more) m m'' where
  lastId_le := h.lastId_le.trans h'.lastId_le
  bytes := by
    intro id s'' hid hs''
    obtain ⟨s', hs', hmore⟩ := h'.bytes (hid.trans h.lastId_le) hs''
    obtain ⟨s, hs, hbytes⟩ := h.bytes hid hs'
    refine ⟨s, hs, fun address => ?_⟩
    rw [hmore, hbytes, lastWrite_append, Option.or_assoc]

lemma trans_quiet (h : Follows writes m m') (h' : Follows [] m' m'') : Follows writes m m'' := by
  simpa using h.trans h'

/-- Nothing was written where what is seen of one space changes and its bytes do not. -/
lemma of_update {id : Nat} {o : Option SpaceView} (hlast : m'.lastId = m.lastId)
    (hobserve : m'.observe = Function.update m.observe id o)
    (ho : ∀ s' ∈ o, ∃ s, m.observe id = some s ∧ s'.contents = s.contents) : Follows [] m m' where
  lastId_le := hlast.ge
  bytes := by
    intro q s' _ hs'
    rw [hobserve, Function.update_apply] at hs'
    split at hs'
    · rename_i hq
      obtain ⟨s, hs, heq⟩ := ho s' hs'
      exact ⟨s, hq ▸ hs, fun address => by rw [heq]; rfl⟩
    · exact ⟨s', hs', fun _ => rfl⟩

lemma of_observe (hlast : m'.lastId = m.lastId) (hobserve : m'.observe = m.observe) :
    Follows [] m m' :=
  ⟨hlast.ge, fun _ hs' => ⟨_, hobserve ▸ hs', fun _ => rfl⟩⟩

lemma refl (m : HostMemory) : Follows [] m m := .of_observe rfl rfl

lemma issue {answer : Except MemoryError HostSpace} (h : Issue m answer m') : Follows [] m m' := by
  cases h with
  | refused e hobserve hlast => exact .of_observe hlast hobserve
  | given data =>
    refine ⟨Nat.le_succ m.lastId, fun {id s'} hid hs' => ?_⟩
    rw [observe_register, Function.update_of_ne (by omega)] at hs'
    exact ⟨s', hs', fun _ => rfl⟩

lemma mapPages {count : Nat} {answer : Except MemoryError UInt64}
    (h : m.mapPages handle count = (answer, handle', m')) : Follows [] m m' := by
  obtain ⟨-, hlast, hmapping⟩ := mapping_mapPages h
  cases hmapping with
  | refused e hobserve => exact .of_observe hlast hobserve
  | given base hobserve =>
    refine .of_update hlast hobserve fun s' hs' => ?_
    obtain ⟨s, hs, rfl⟩ := Option.map_eq_some_iff.mp hs'
    exact ⟨s, hs, rfl⟩

lemma unmapPages (m : HostMemory) (handle : HostSpace) (base : UInt64) :
    Follows [] m (m.unmapPages handle base) := by
  refine .of_update (unmapPages_lastId m handle base) (observe_unmapPages m handle base) fun s' hs' => ?_
  obtain ⟨s, hs, rfl⟩ := Option.map_eq_some_iff.mp hs'
  exact ⟨s, hs, rfl⟩

lemma destroy (m : HostMemory) (handle : HostSpace) : Follows [] m (m.destroy handle) :=
  .of_update (destroy_lastId m handle) (observe_destroy m handle) nofun

/-- One write. -/
lemma write (m : HostMemory) (w : Write) : Follows [w] m (m.write w.id w.address w.value) := by
  have hlast : (m.write w.id w.address w.value).lastId = m.lastId :=
    (Adjusted.write w.id w.address w.value).lastId_eq
  refine ⟨hlast.ge, fun {id s'} _ hs' => ?_⟩
  unfold HostMemory.write at hs'
  split at hs'
  · rename_i hdead
    refine ⟨s', hs', fun address => ?_⟩
    rw [lastWrite_singleton, if_neg]
    · rfl
    · rintro ⟨rfl, -⟩
      rw [observe, hdead] at hs'
      cases hs'
  · rename_i data hdata
    rw [observe_insert, Function.update_apply] at hs'
    split at hs'
    · rename_i hid
      cases hs'
      refine ⟨⟨data.contents, data.pages⟩, by rw [hid, observe, hdata]; rfl, fun address => ?_⟩
      rw [lastWrite_singleton, Std.ExtTreeMap.getElem?_insert, hid]
      by_cases haddress : w.address = address
      · simp [haddress]
      · simp [haddress]
    · rename_i hid
      refine ⟨s', hs', fun address => ?_⟩
      rw [lastWrite_singleton, if_neg fun h => hid h.1.symm]
      rfl

/-- Failures that are ordered write nothing. -/
lemma ordered (h : Ordered m m') : Follows [] m m' := by
  cases h <;> exact .of_observe rfl rfl

/-- What is read from a space that is live on both sides. -/
theorem read_eq (h : Follows writes m m') {id : Nat} (hid : id ≤ m.lastId) (hlive : m'.isLive id = true)
    (address : UInt64) : m'.read id address = (lastWrite writes id address).or (m.read id address) := by
  rw [isLive_eq, Option.isSome_iff_exists] at hlive
  obtain ⟨s', hs'⟩ := hlive
  obtain ⟨s, hs, hbytes⟩ := h.bytes hid hs'
  rw [HostMemory.read_eq, HostMemory.read_eq, hs', hs]
  exact hbytes address

end Follows

/-! ### One space at a time -/

/-- A copy has a new number and shows what its source shows. -/
lemma observe_clone (h : m.clone handle true = (.ok handle', m')) :
    handle'.id = m.lastId + 1 ∧ m'.observe = Function.update m.observe handle'.id (m.observe handle.id) := by
  unfold clone at h
  split at h
  · cases h
  · split at h
    · cases h
    · rename_i data hdata
      cases h
      refine ⟨rfl, ?_⟩
      rw [observe, hdata]
      exact observe_register m data

/-- Mapping pages shows in no other space. -/
lemma observe_mapPages_ne {count : Nat} {answer : Except MemoryError UInt64} {id : Nat}
    (h : m.mapPages handle count = (answer, handle', m')) (hid : id ≠ handle.id) :
    m'.observe id = m.observe id := by
  obtain ⟨-, -, hmapping⟩ := mapping_mapPages h
  cases hmapping with
  | refused e hobserve => rw [hobserve]
  | given base hobserve => rw [hobserve, Function.update_of_ne hid]

/-! ### The numbers in use -/

/-- What the host knows of the spaces in the hands of its client: they are live and have numbers of
their own, and no number that was given up is ahead. -/
structure Ledger (m : HostMemory) (held : Multiset HostSpace) : Prop where
  numbered : m.Numbered
  live : ∀ g ∈ held, (m.observe g.id).isSome = true
  nodup : (held.map (·.id)).Nodup
  freed_le : ∀ id ∈ m.freed, id ≤ m.lastId

lemma Numbered.id_le (h : m.Numbered) {id : Nat} (hlive : (m.observe id).isSome = true) :
    id ≤ m.lastId := by
  by_contra hid
  rw [h id (by omega)] at hlive
  cases hlive

namespace Ledger

lemma id_le (h : Ledger m held) {g : HostSpace} (hg : g ∈ held) : g.id ≤ m.lastId :=
  h.numbered.id_le (h.live g hg)

/-- A copy is apart from its source, and both show what the source showed. -/
lemma cloned (h : Ledger m held) (hheld : handle ∈ held)
    (hclone : m.clone handle true = (.ok handle', m')) :
    handle'.id = m.lastId + 1 ∧ handle.id ≠ handle'.id ∧
    m'.observe handle.id = m.observe handle.id ∧ m'.observe handle'.id = m.observe handle.id := by
  obtain ⟨hid, hobserve⟩ := observe_clone hclone
  have hle := h.id_le hheld
  have hne : handle.id ≠ handle'.id := by omega
  rw [hobserve, Function.update_of_ne hne, Function.update_self]
  exact ⟨hid, hne, rfl, rfl⟩

/-- Changes by which no space comes or goes. -/
lemma congr (h : Ledger m held) (hnumbered : m'.Numbered)
    (hlive : ∀ id, (m'.observe id).isSome = (m.observe id).isSome) (hlast : m'.lastId = m.lastId)
    (hfreed : m'.freed = m.freed) : Ledger m' held where
  numbered := hnumbered
  live g hg := (hlive g.id).trans (h.live g hg)
  nodup := h.nodup
  freed_le id hid := by
    rw [hfreed] at hid
    exact (h.freed_le id hid).trans hlast.ge

lemma isSome_update {f : Nat → Option SpaceView} {id : Nat} {o : Option SpaceView}
    (h : o.isSome = (f id).isSome) (q : Nat) : (Function.update f id o q).isSome = (f q).isSome := by
  rw [Function.update_apply]
  split
  · rename_i hq
    rw [hq, h]
  · rfl

lemma adjusted (h : Ledger m held) (hadjusted : Adjusted m m') : Ledger m' held := by
  have hnumbered := h.numbered.adjusted hadjusted
  cases hadjusted with
  | failNextCreate | failNextClone | failMapping => exact h.congr hnumbered (fun _ => rfl) rfl rfl
  | write id address value =>
    unfold HostMemory.write at hnumbered ⊢
    split
    · exact h
    · rename_i data hdata
      rw [hdata] at hnumbered
      refine h.congr hnumbered (fun q => ?_) rfl rfl
      rw [observe_insert]
      refine isSome_update ?_ q
      rw [observe, hdata]
      rfl

/-- A request for a space changes nothing here, or adds a space with a new number. -/
lemma issue (h : Ledger m held) {answer : Except MemoryError HostSpace} (hissue : Issue m answer m')
    (hfreed : m'.freed = m.freed) : Ledger m' held ∧ ∀ g, answer = .ok g → Ledger m' (g ::ₘ held) := by
  have hnumbered := h.numbered.issue hissue
  cases hissue with
  | refused e hobserve hlast =>
    exact ⟨h.congr hnumbered (fun id => by rw [hobserve]) hlast hfreed, nofun⟩
  | given data =>
    have hlive : ∀ g ∈ held, ((m.register data).2.observe g.id).isSome = true := by
      intro g hg
      have hid := h.id_le hg
      rw [observe_register, Function.update_of_ne (by omega)]
      exact h.live g hg
    have hself : (m.register data).2.observe (m.lastId + 1) = some ⟨data.contents, data.pages⟩ := by
      rw [observe_register, Function.update_self]
    have hnew : ((m.register data).2.observe (m.register data).1.id).isSome = true := by
      rw [show (m.register data).1.id = m.lastId + 1 from rfl, hself]
      rfl
    have hle : ∀ id ∈ m.freed, id ≤ m.lastId + 1 := fun id hid => (h.freed_le id hid).trans (Nat.le_succ _)
    refine ⟨⟨hnumbered, hlive, h.nodup, hle⟩, ?_⟩
    rintro g ⟨⟩
    refine ⟨hnumbered, Multiset.forall_mem_cons.mpr ⟨hnew, hlive⟩, ?_, hle⟩
    rw [Multiset.map_cons, Multiset.nodup_cons]
    refine ⟨fun hmem => ?_, h.nodup⟩
    obtain ⟨g, hg, hid⟩ := Multiset.mem_map.mp hmem
    have hle := h.id_le hg
    have hlast : (m.register data).1.id = m.lastId + 1 := rfl
    omega

lemma destroyed (h : Ledger m (handle ::ₘ held)) : Ledger (m.destroy handle) held := by
  have hnodup := h.nodup
  rw [Multiset.map_cons, Multiset.nodup_cons] at hnodup
  refine ⟨?_, fun g hg => ?_, hnodup.2, fun id hid => ?_⟩
  · exact h.numbered.update (observe_destroy m handle) (destroy_lastId m handle) fun _ => rfl
  · have hne : g.id ≠ handle.id := fun heq => hnodup.1 (heq ▸ Multiset.mem_map_of_mem _ hg)
    rw [observe_destroy, Function.update_of_ne hne]
    exact h.live g (Multiset.mem_cons_of_mem hg)
  · rw [destroy_lastId]
    unfold HostMemory.destroy at hid
    split at hid
    · rcases Array.mem_push.mp hid with hid | rfl
      · exact h.freed_le id hid
      · exact h.id_le (Multiset.mem_cons_self handle held)
    · exact h.freed_le id hid

end Ledger

lemma create_freed {answer : Except MemoryError HostSpace} (h : m.create = (answer, m')) :
    m'.freed = m.freed := by
  unfold create at h
  split at h <;> cases h <;> rfl

lemma clone_freed {source : HostSpace} {withContents : Bool} {answer : Except MemoryError HostSpace}
    (h : m.clone source withContents = (answer, m')) : m'.freed = m.freed := by
  unfold clone at h
  split at h
  · cases h
    rfl
  · split at h <;> cases h <;> rfl

lemma mapPages_freed {count : Nat} {answer : Except MemoryError UInt64}
    (h : m.mapPages handle count = (answer, handle', m')) : m'.freed = m.freed := by
  unfold mapPages at h
  split at h
  · cases h
    rfl
  · dsimp only at h
    split at h <;> cases h <;> rfl

lemma unmapPages_freed (m : HostMemory) (handle : HostSpace) (base : UInt64) :
    (m.unmapPages handle base).freed = m.freed := by
  unfold unmapPages
  split <;> rfl

/-- In proper dealings with the service, the host's books are in order. -/
theorem Ledger.of_traffic (h : Traffic service Adjusted empty calls m held) : Ledger m held := by
  induction h with
  | start => exact ⟨numbered_empty, nofun, Multiset.nodup_zero, nofun⟩
  | outside _ hadjusted ih => exact ih.adjusted hadjusted
  | created _ hcreate ih => exact (ih.issue (issue_create hcreate) (create_freed hcreate)).2 _ rfl
  | notCreated _ hcreate ih => exact (ih.issue (issue_create hcreate) (create_freed hcreate)).1
  | cloned _ _ hclone ih => exact (ih.issue (issue_clone hclone) (clone_freed hclone)).2 _ rfl
  | notCloned _ _ hclone ih => exact (ih.issue (issue_clone hclone) (clone_freed hclone)).1
  | mapped ht hmap ih =>
    have hnumbered := Numbered.of_traffic (ht.mapped hmap)
    obtain ⟨rfl, hlast, hmapping⟩ := mapping_mapPages hmap
    refine ih.congr hnumbered (fun q => ?_) hlast (mapPages_freed hmap)
    cases hmapping with
    | refused e hobserve => rw [hobserve]
    | given base hobserve =>
      rw [hobserve]
      exact isSome_update Option.isSome_map q
  | @unmapped _ m _ handle base _ _ _ ht hunmap ih =>
    have hnumbered := Numbered.of_traffic (ht.unmapped hunmap)
    cases hunmap
    refine ih.congr hnumbered (fun q => ?_) (unmapPages_lastId m handle base) (unmapPages_freed m handle base)
    rw [observe_unmapPages]
    exact isSome_update Option.isSome_map q
  | destroyed _ ih => exact ih.destroyed
  | root _ _ ih => exact ih

end HostMemory

end Uniprocessor
