import Uniprocessor.Proofs.PoolHistories

/-!
# Handles that are kept

Whenever a slot is taken back, its generation goes up by one, in 32 bits. A handle that is kept
resolves again exactly when its slot is in use and was taken back a multiple of `2 ^ 32` times since
the handle was issued; until the generation has come round it reaches no other record. Until then no
handle is issued twice either.
-/

namespace Uniprocessor

namespace Pool

variable {α : Type}

lemma add_ofNat_eq_iff (g : UInt32) (k : Nat) : g + UInt32.ofNat k = g ↔ 2 ^ 32 ∣ k := by
  rw [UInt32.add_eq_left, UInt32.ofNat_eq_iff_mod_eq_toNat, Nat.dvd_iff_mod_eq_zero]
  rfl

/-- The generation of a slot, in use or not. -/
def generationOf? (p : Pool α) (i : Nat) : Option UInt32 := p.slots[i]?.map (·.generation)

variable {p q : Pool α} {id j : Handle} {i : Nat} {a : α} {g : UInt32}

lemma generationOf?_of_get? (h : p.get? id = some a) :
    p.generationOf? id.index = some id.generation := by
  obtain ⟨slot, hslot, -, hgen, -⟩ := get?_eq_some.mp h
  rw [generationOf?, hslot, Option.map_some, hgen]

lemma generation_modify_slots (p : Pool α) (i k : Nat) (f : Slot α → Slot α) :
    (p.slots.modify i f)[k]?.map (·.generation) =
      p.slots[k]?.map fun slot => if i = k then (f slot).generation else slot.generation := by
  rw [Array.getElem?_modify]
  split
  · rw [Option.map_map]
    rfl
  · rfl

@[simp]
lemma generationOf?_modify (p : Pool α) (id : Handle) (f : α → α) (i : Nat) :
    (p.modify id f).generationOf? i = p.generationOf? i := by
  unfold modify generationOf?
  split
  · simp [generation_modify_slots]
  · rfl

/-- What is issued changes the generation of no slot. -/
lemma generationOf?_issue (hrun : p.issue = .ok (j, q)) (hg : p.generationOf? i = some g) :
    q.generationOf? i = some g := by
  rw [issue] at hrun
  split at hrun
  · cases hrun
    simpa [generationOf?, reissue, generation_modify_slots] using hg
  · split_ifs at hrun
    cases hrun
    obtain ⟨slot, hslot, rfl⟩ := Option.map_eq_some_iff.mp hg
    have hlt : i < p.slots.size := (Array.getElem?_eq_some_iff.mp hslot).1
    simp [generationOf?, Array.getElem?_push_lt hlt, ← Array.getElem?_eq_getElem, hslot]

/-- The generation of a slot goes up when the slot is taken back, and at no other time. -/
lemma generationOf?_release (p : Pool α) (j : Handle) (i : Nat) :
    (p.release j).2.generationOf? i =
      if (p.release j).1 = true ∧ j.index = i then (p.generationOf? i).map (· + 1)
      else p.generationOf? i := by
  unfold release generationOf?
  split
  · rw [generation_modify_slots, Option.map_map]
    by_cases hindex : j.index = i <;> simp [hindex, Function.comp_def]
  · simp

/-- Every operation takes the handle for that of the record `a`. -/
structure Accepts (p : Pool α) (id : Handle) (a : α) : Prop where
  get? : p.get? id = some a
  contains : p.contains id = true
  modify : ∀ f, (p.modify id f).get? id = some (f a)
  release : (p.release id).1 = true

/-- No operation finds a record under the handle, and none changes the pool by it. -/
structure Rejects (p : Pool α) (id : Handle) : Prop where
  get? : p.get? id = none
  contains : p.contains id = false
  modify : ∀ f, p.modify id f = p
  release : p.release id = (false, p)

lemma accepts_iff : p.Accepts id a ↔ p.get? id = some a := by
  refine ⟨fun h => h.get?, fun h => ⟨h, contains_of_get? h, fun f => ?_, ?_⟩⟩
  · rw [get?_modify, if_pos rfl, h, Option.map_some]
  · rw [fst_release, contains_of_get? h]

lemma rejects_iff : p.Rejects id ↔ p.get? id = none := by
  refine ⟨fun h => h.get?, fun h => ?_⟩
  have hcontains : p.contains id = false := by rw [contains, h, Option.isSome_none]
  exact ⟨h, hcontains, modify_of_not_contains hcontains, release_of_not_contains hcontains⟩

section Ages

variable (name : String) (capacity : Nat) (blank : α) (onIssue onRelease : α → α) (id : Handle)

/-- The states that a pool comes to after it has issued `id`, by any sequence of calls, with how often
the slot of `id` was taken back since and with the live records. -/
inductive Aged : Nat → LiveRecords α → Pool α → Prop
  | issued {m p q} : Reached name capacity blank onIssue onRelease m p → p.issue = .ok (id, q) →
      Aged 0 (m.insert id.index (id.generation, onIssue blank)) q
  | issue {k m p j q} : Aged k m p → p.issue = .ok (j, q) →
      Aged k (m.insert j.index (j.generation, onIssue blank)) q
  | release {k m p} (j : Handle) : Aged k m p →
      Aged (if (p.release j).1 = true ∧ j.index = id.index then k + 1 else k)
        (if (p.release j).1 then m.erase j.index else m) (p.release j).2
  | modify {k m p} (j : Handle) (f : α → α) : Aged k m p → Aged k (m.write j f) (p.modify j f)
  | heap {k m p} (slots : Nat) : Aged k m p → Aged k m (p.withStorage slots)

end Ages

variable {name : String} {capacity : Nat} {blank : α} {onIssue onRelease : α → α} {k : Nat}
  {m : LiveRecords α}

lemma Aged.reached (h : Aged name capacity blank onIssue onRelease id k m p) :
    Reached name capacity blank onIssue onRelease m p := by
  induction h with
  | issued hreached hrun => exact hreached.issue hrun
  | issue _ hrun ih => exact ih.issue hrun
  | release j _ ih => exact ih.release j
  | modify j f _ ih => exact ih.modify j f
  | heap slots _ ih => exact ih.heap slots

/-- The generation counts, in 32 bits, how often the slot was taken back. -/
lemma Aged.generationOf?_eq (h : Aged name capacity blank onIssue onRelease id k m p) :
    p.generationOf? id.index = some (id.generation + UInt32.ofNat k) := by
  induction h with
  | issued hreached hrun =>
    have hissues := hreached.holds.wellFormed.issues_of_issue hrun
    have hget := hissues.get? id
    rw [if_pos rfl] at hget
    rw [generationOf?_of_get? hget, (add_ofNat_eq_iff _ _).mpr (dvd_zero _)]
  | issue _ hrun ih => exact generationOf?_issue hrun ih
  | release j _ ih =>
    rw [generationOf?_release, ih]
    split
    · rw [Option.map_some, UInt32.ofNat_add, UInt32.add_assoc]
      rfl
    · rfl
  | modify j f _ ih => rw [generationOf?_modify, ih]
  | heap slots _ ih => exact ih

/-- The handle finds what is in its slot, provided that the generation has come round. -/
lemma Aged.get?_eq_some (h : Aged name capacity blank onIssue onRelease id k m p) :
    p.get? id = some a ↔ (∃ g, m[id.index]? = some (g, a)) ∧ 2 ^ 32 ∣ k := by
  have hget := h.reached.holds.get?
  constructor
  · intro hsome
    have hgen := h.generationOf?_eq.symm.trans (generationOf?_of_get? hsome)
    rw [hget, LiveRecords.recordOf_eq_some] at hsome
    exact ⟨⟨_, hsome⟩, (add_ofNat_eq_iff _ _).mp (Option.some_injective _ hgen)⟩
  · rintro ⟨⟨g, hentry⟩, hdvd⟩
    have hoccupant : p.get? ⟨id.index, g⟩ = some a := by
      rw [hget]
      exact LiveRecords.recordOf_eq_some.mpr hentry
    have hgen := generationOf?_of_get? hoccupant
    rw [h.generationOf?_eq, (add_ofNat_eq_iff _ _).mpr hdvd, Option.some_inj] at hgen
    cases hgen
    exact hoccupant

/-- A handle that was kept is taken for that of the record in its slot exactly if the slot was taken
back a multiple of `2 ^ 32` times since, and is refused if it is not. So it never reaches a later
record while its slot was taken back less often than that. -/
theorem Aged.resolves_iff (h : Aged name capacity blank onIssue onRelease id k m p) :
    (∀ a, p.Accepts id a ↔ (∃ g, m[id.index]? = some (g, a)) ∧ 2 ^ 32 ∣ k) ∧
      (p.Rejects id ↔ ¬ ((∃ e, m[id.index]? = some e) ∧ 2 ^ 32 ∣ k)) ∧
      (0 < k → k < 2 ^ 32 → p.Rejects id) := by
  have hrejects : p.Rejects id ↔ ¬ ((∃ e, m[id.index]? = some e) ∧ 2 ^ 32 ∣ k) := by
    rw [rejects_iff, Option.eq_none_iff_forall_ne_some, ← not_exists, not_iff_not]
    simp only [h.get?_eq_some, exists_and_right]
    rw [exists_comm, Prod.exists]
  refine ⟨fun a => ?_, hrejects, fun hpos hlt => hrejects.mpr ?_⟩
  · rw [accepts_iff, h.get?_eq_some]
  · rintro ⟨-, hdvd⟩
    exact absurd (Nat.le_of_dvd hpos hdvd) (Nat.not_le.mpr hlt)

/-- The first slot can be taken back and issued once more at any time. -/
lemma Aged.again (h : Aged name capacity blank onIssue onRelease id k m p) (hid : id.index = 0)
    (huse : ∃ e, m[id.index]? = some e) :
    ∃ m' q, Aged name capacity blank onIssue onRelease id (k + 1) m' q ∧ ∃ e, m'[id.index]? = some e := by
  obtain ⟨⟨g, a⟩, hentry⟩ := huse
  have hoccupant : m.recordOf ⟨id.index, g⟩ = some a := LiveRecords.recordOf_eq_some.mpr hentry
  have hcontains : p.contains ⟨id.index, g⟩ = true := by
    rw [h.reached.holds.contains_eq, hoccupant, Option.isSome_some]
  obtain ⟨hresult, hreleases⟩ := h.reached.holds.wellFormed.release_of_contains hcontains
  have hreleased := h.release ⟨id.index, g⟩
  rw [hresult, if_pos ⟨rfl, rfl⟩, if_pos rfl] at hreleased
  obtain ⟨j, q, hrun, -⟩ := hreleases.wellFormed.issue_eq_ok
    (h.reached.holds.wellFormed.shortage?_of_releases hreleases)
  have hleast := (hreleased.reached.holds.isLeast_of_issue hrun).2
  -- the slot that was taken back is vacant, and none comes before it
  have hj : j.index = id.index := by
    have hvacant : (m.erase id.index)[id.index]? = none := Std.ExtTreeMap.getElem?_erase_self
    have hle := hleast hvacant
    omega
  refine ⟨_, q, hreleased.issue hrun, (j.generation, onIssue blank), ?_⟩
  rw [hj]
  exact Std.ExtTreeMap.getElem?_insert_self

lemma exists_aged (k : Nat) : ∃ m p, Aged "records" 1 5 (· + 1) (· * 10) ⟨0, 0⟩ k m p ∧
    ∃ e, m[0]? = some e := by
  induction k with
  | zero =>
    have hbegun : Reached "records" 1 5 (· + 1) (· * 10) ∅ _ := .start
    exact ⟨_, _, .issued hbegun rfl, _, Std.ExtTreeMap.getElem?_insert_self⟩
  | succ k ih =>
    obtain ⟨m, p, haged, huse⟩ := ih
    exact haged.again rfl huse

/-- The only slot of a pool, issued anew, is out of reach of its first handle, unless it was taken back
`2 ^ 32` times. -/
theorem resolves_iff_of_reissues :
    (∃ m p, Aged "records" 1 5 (· + 1) (· * 10) ⟨0, 0⟩ 1 m p ∧ p.Rejects ⟨0, 0⟩) ∧
      ∃ m p a, Aged "records" 1 5 (· + 1) (· * 10) ⟨0, 0⟩ (2 ^ 32) m p ∧ p.Accepts ⟨0, 0⟩ a := by
  obtain ⟨m, p, hyoung, -⟩ := exists_aged 1
  obtain ⟨n, q, hold, ⟨g, a⟩, hentry⟩ := exists_aged (2 ^ 32)
  obtain ⟨-, -, hrejects⟩ := hyoung.resolves_iff
  obtain ⟨haccepts, -, -⟩ := hold.resolves_iff
  exact ⟨⟨m, p, hyoung, hrejects (by decide) (by decide)⟩,
    n, q, a, hold, (haccepts a).mpr ⟨⟨g, hentry⟩, dvd_refl _⟩⟩

/-! ### Handles that were issued before -/

/-- The generation of a slot, and whether it is in use. -/
def stamp? (p : Pool α) (i : Nat) : Option (UInt32 × Bool) :=
  p.slots[i]?.map fun slot => (slot.generation, slot.inUse)

/-- The handle was issued: it is that of the record in its slot, or of an earlier one. -/
def Issued (p : Pool α) (id : Handle) : Prop :=
  ∃ g inUse, p.stamp? id.index = some (g, inUse) ∧ id.generation.toNat < g.toNat + inUse.toNat

/-- Whether slot `i` is in use. -/
def occupied (p : Pool α) (i : Nat) : Bool := p.slots[i]?.any (·.inUse)

/-- How often slot `i` was taken back from `p` to `q`, if nothing was issued in between. -/
def takenBack (p q : Pool α) (i : Nat) : Nat := if p.occupied i ∧ ¬ q.occupied i then 1 else 0

/-- `counts` has for each slot how often it was taken back, and the generations have not come round. -/
def Dated (counts : Nat → Nat) (p : Pool α) : Prop :=
  ∀ i, ((p.stamp? i).map (·.1.toNat)).getD 0 = counts i

/-- From `p` to `q` slots are taken back, each at most once. -/
def Retires (p q : Pool α) : Prop :=
  ∀ i, q.stamp? i = p.stamp? i ∨ ∃ g, p.stamp? i = some (g, true) ∧ q.stamp? i = some (g + 1, false)

variable {r : Pool α} {counts : Nat → Nat}

lemma occupied_eq (p : Pool α) (i : Nat) : p.occupied i = (p.stamp? i).any (·.2) := by
  rw [occupied, stamp?]
  cases p.slots[i]? <;> rfl

lemma takenBack_le_one (p q : Pool α) (i : Nat) : p.takenBack q i ≤ 1 := by
  rw [takenBack]
  split <;> decide

lemma stamp?_of_get? (h : p.get? id = some a) : p.stamp? id.index = some (id.generation, true) := by
  obtain ⟨slot, hslot, huse, hgen, -⟩ := get?_eq_some.mp h
  rw [stamp?, hslot, Option.map_some, hgen, huse]

lemma issued_congr (h : ∀ i, q.stamp? i = p.stamp? i) : q.Issued id ↔ p.Issued id := by
  rw [Issued, Issued, h]

lemma dated_congr (h : ∀ i, q.stamp? i = p.stamp? i) : q.Dated counts ↔ p.Dated counts := by
  rw [Dated, Dated]
  simp only [h]

@[simp]
lemma stamp?_modify (p : Pool α) (id : Handle) (f : α → α) (i : Nat) :
    (p.modify id f).stamp? i = p.stamp? i := by
  unfold modify stamp?
  split
  · rw [Array.getElem?_modify]
    split
    · rw [Option.map_map]
      rfl
    · rfl
  · rfl

/-- What is issued marks its slot as in use. The slot was vacant at this very generation, or is new. -/
lemma WellFormed.stamp?_issue (hp : p.WellFormed) (hrun : p.issue = .ok (id, q)) :
    q.stamp? id.index = some (id.generation, true) ∧ (∀ i ≠ id.index, q.stamp? i = p.stamp? i) ∧
      (p.stamp? id.index = some (id.generation, false) ∨
        p.stamp? id.index = none ∧ id.generation = 0) := by
  rw [issue] at hrun
  split at hrun
  · rename_i i hlowest
    cases hrun
    obtain ⟨slot, hslot, hvacant⟩ := (hp.vacant i).mp ((Bitmap.lowest?_eq_some hlowest).1)
    refine ⟨?_, fun k hk => ?_, .inl ?_⟩
    · simp [stamp?, Array.getElem?_modify, hslot]
    · simp [stamp?, Array.getElem?_modify, Ne.symm hk]
    · simp [stamp?, hslot, hvacant]
  · split_ifs at hrun
    cases hrun
    refine ⟨?_, fun k hk => ?_, .inr ⟨?_, rfl⟩⟩
    · simp [stamp?]
    · simp [stamp?, Array.getElem?_push, hk]
    · simp [stamp?]

/-- As long as no generation has come round, what is issued was not issued before. -/
theorem WellFormed.not_issued (hp : p.WellFormed) (hrun : p.issue = .ok (id, q)) : ¬ p.Issued id := by
  rintro ⟨g, inUse, hstamp, hlt⟩
  rcases (hp.stamp?_issue hrun).2.2 with hvacant | ⟨hnew, -⟩
  · rw [hstamp, Option.some_inj] at hvacant
    cases hvacant
    exact Nat.lt_irrefl _ hlt
  · rw [hstamp] at hnew
    cases hnew

lemma WellFormed.issued_issue (hp : p.WellFormed) (hrun : p.issue = .ok (id, q)) :
    q.Issued id ∧ ∀ j, p.Issued j → q.Issued j := by
  obtain ⟨hafter, hothers, hbefore⟩ := hp.stamp?_issue hrun
  refine ⟨⟨_, _, hafter, Nat.lt_succ_self _⟩, fun j ⟨g, inUse, hstamp, hlt⟩ => ?_⟩
  by_cases hj : j.index = id.index
  · rw [hj] at hstamp
    rcases hbefore with hvacant | ⟨hnew, -⟩
    · rw [hstamp, Option.some_inj] at hvacant
      cases hvacant
      exact ⟨_, _, hj ▸ hafter, hlt.trans (Nat.lt_succ_self _)⟩
    · rw [hstamp] at hnew
      cases hnew
  · exact ⟨g, inUse, (hothers _ hj).trans hstamp, hlt⟩

lemma WellFormed.dated_issue (hp : p.WellFormed) (hrun : p.issue = .ok (id, q)) (h : p.Dated counts) :
    q.Dated counts := by
  obtain ⟨hafter, hothers, hbefore⟩ := hp.stamp?_issue hrun
  intro i
  rw [← h i]
  by_cases hi : i = id.index
  · rw [hi, hafter]
    rcases hbefore with hvacant | ⟨hnew, hzero⟩
    · rw [hvacant]
      rfl
    · rw [hnew, hzero]
      rfl
  · rw [hothers i hi]

/-! ### Slots that are taken back -/

lemma Retires.of_eq (h : ∀ i, q.stamp? i = p.stamp? i) : p.Retires q := fun i => .inl (h i)

lemma Retires.trans (h : p.Retires q) (h' : q.Retires r) : p.Retires r := by
  intro i
  rcases h i with hsame | ⟨g, hbefore, hafter⟩
  · rw [← hsame]
    exact h' i
  · rcases h' i with hsame | ⟨g', hbefore', -⟩
    · exact .inr ⟨g, hbefore, hsame.trans hafter⟩
    · rw [hafter] at hbefore'
      cases hbefore'

lemma retires_release (p : Pool α) (id : Handle) : p.Retires (p.release id).2 := by
  cases hlive : p.contains id with
  | false =>
    rw [release_of_not_contains hlive]
    exact .of_eq fun _ => rfl
  | true =>
    obtain ⟨a, ha⟩ := contains_iff.mp hlive
    intro i
    by_cases hi : id.index = i
    · subst hi
      have hstamp := stamp?_of_get? ha
      obtain ⟨slot, hslot, -, hgen, -⟩ := get?_eq_some.mp ha
      refine .inr ⟨_, hstamp, ?_⟩
      simp [stamp?, release, hlive, Array.getElem?_modify, hslot, hgen]
    · left
      simp [stamp?, release, hlive, Array.getElem?_modify, hi]

lemma retires_releaseAll (p : Pool α) (ids : List Handle) :
    p.Retires (ids.foldl (fun pool id => (pool.release id).2) p) := by
  induction ids generalizing p with
  | nil => exact .of_eq fun _ => rfl
  | cons id ids ih => exact (retires_release p id).trans (ih _)

/-- A slot stays as it is, or is taken back and goes on to the next generation, which is greater as long
as the count fits into 32 bits. -/
lemma Retires.cases (h : p.Retires q) (hdated : p.Dated counts)
    (hbound : ∀ i, (counts + p.takenBack q) i < 2 ^ 32) (i : Nat) :
    q.stamp? i = p.stamp? i ∧ p.takenBack q i = 0 ∨
      ∃ g, p.stamp? i = some (g, true) ∧ q.stamp? i = some (g + 1, false) ∧ p.takenBack q i = 1 ∧
        (g + 1).toNat = g.toNat + 1 := by
  rcases h i with hsame | ⟨g, hbefore, hafter⟩
  · refine .inl ⟨hsame, ?_⟩
    simp [takenBack, occupied_eq, hsame]
  · have hone : p.takenBack q i = 1 := by simp [takenBack, occupied_eq, hbefore, hafter]
    have hcount := hdated i
    rw [hbefore, Option.map_some, Option.getD_some] at hcount
    have hlt := hbound i
    rw [Pi.add_apply, hone, ← hcount] at hlt
    refine .inr ⟨g, hbefore, hafter, hone, ?_⟩
    rw [UInt32.toNat_add]
    exact Nat.mod_eq_of_lt hlt

/-- The generations go on to tell the counts. -/
lemma Retires.dated (h : p.Retires q) (hdated : p.Dated counts)
    (hbound : ∀ i, (counts + p.takenBack q) i < 2 ^ 32) : q.Dated (counts + p.takenBack q) := by
  intro i
  have hcount := hdated i
  rw [Pi.add_apply]
  rcases h.cases hdated hbound i with ⟨hsame, hzero⟩ | ⟨g, hbefore, hafter, hone, hnext⟩
  · rw [hsame, hcount, hzero, Nat.add_zero]
  · rw [hbefore, Option.map_some, Option.getD_some] at hcount
    rw [hafter, hone, Option.map_some, Option.getD_some, hnext, hcount]

/-- What was issued stays so, since its slot only goes on to greater generations. -/
lemma Retires.issued (h : p.Retires q) (hdated : p.Dated counts)
    (hbound : ∀ i, (counts + p.takenBack q) i < 2 ^ 32) (hid : p.Issued id) : q.Issued id := by
  obtain ⟨g, inUse, hstamp, hlt⟩ := hid
  rcases h.cases hdated hbound id.index with ⟨hsame, -⟩ | ⟨g', hbefore, hafter, -, hnext⟩
  · exact ⟨g, inUse, hsame.trans hstamp, hlt⟩
  · rw [hstamp, Option.some_inj] at hbefore
    cases hbefore
    exact ⟨_, _, hafter, hlt.trans_eq hnext.symm⟩

end Pool

end Uniprocessor
