import Uniprocessor.Proofs.Rosters

/-!
# Histories of a roster

Whatever records are added, taken out, changed and moved to other states in a history, and whatever room
the heap has meanwhile, a roster behaves as a finite map from identifiers to records. Its chain lists the map in ascending order, its
index and its pool have no other records, and a record keeps its place when others come and go.
-/

namespace Uniprocessor

namespace ProcessRecord

variable {space : Type}

/-- The record of a new process. -/
def newcomer (pid : Pid) : ProcessRecord space := { blank.withBaseline with pid := pid }

/-- What becomes of the record of `q` when `pid` moves to `state` while `runner` has the processor and
its registers are `active`. -/
def afterEntry (runner : Option Pid) (active : Registers) (pid : Pid) (state : ProcessState) (q : Pid)
    (p : ProcessRecord space) : ProcessRecord space :=
  if q = pid then
    (if state ≠ .running ∧ runner = some pid then { p with context := active } else p).enter state
  else if state = .running ∧ runner = some q then { p with context := active }.enter .waiting
  else p

end ProcessRecord

/-- What a roster stands for: the records of the live processes, without their places in a chain, the
process on the processor and the registers there. -/
structure Census (space : Type) where
  records : Std.ExtTreeMap Pid (ProcessRecord space)
  running : Option Pid
  active : Registers

namespace Census

variable {space : Type}

/-- Nobody is live. -/
def empty : Census space := ⟨∅, none, .zero⟩

def enlist (c : Census space) (pid : Pid) : Census space :=
  { c with records := c.records.insert pid (.newcomer pid) }

def strike (c : Census space) (pid : Pid) : Census space :=
  { c with
    records := c.records.erase pid
    running := if c.running = some pid then none else c.running }

def amend (c : Census space) (pid : Pid) (f : ProcessRecord space → ProcessRecord space) :
    Census space := { c with records := c.records.modify pid f }

/-- Moves a process with the record `p` to a state. Who enters the running state takes over the
processor, and who leaves it gives up the processor. -/
def enter (c : Census space) (pid : Pid) (p : ProcessRecord space) (state : ProcessState) :
    Census space where
  records := c.records.map (ProcessRecord.afterEntry c.running c.active pid state)
  running := if state = .running then some pid else if c.running = some pid then none else c.running
  active := if state = .running then p.context else c.active

/-- Moves a process to a state if it is live and the life cycle allows it. -/
def change (c : Census space) (pid : Pid) (state : ProcessState) : Census space :=
  match c.records[pid]? with
  | some p => if p.canEnter state then c.enter pid p state else c
  | none => c

end Census

namespace Roster

variable {space : Type} {r : Roster space} {p : ProcessRecord space} {pid : Nat}

/-! ### Changes of state -/

lemma WellFormed.vacate (h : r.WellFormed) (pid : Pid) : (r.vacate pid).WellFormed := by
  rw [Roster.vacate]
  cases r.running with
  | none => exact h
  | some runner =>
    dsimp only
    split
    · exact h
    · exact h.modify runner (fun _ => rfl) fun _ => rfl

lemma WellFormed.record?_vacate (h : r.WellFormed) (pid q : Nat) :
    (r.vacate pid).record? q =
      if r.running = some q ∧ q ≠ pid then
        (r.record? q).map fun p => { p with context := r.active }.enter .waiting
      else r.record? q := by
  rw [Roster.vacate]
  cases r.running with
  | none => simp
  | some runner =>
    by_cases hrunner : runner = pid
    · simp only [if_pos hrunner]
      rw [if_neg]
      rintro ⟨heq, hq⟩
      cases heq
      exact hq hrunner
    · have hrecord := h.record?_modify runner q
        (f := fun p => { p with context := r.active }.enter .waiting) fun _ => rfl
      simp only [if_neg hrunner, hrecord]
      by_cases hq : q = runner
      · rw [if_pos hq, if_pos ⟨by rw [hq], by rw [hq]; exact hrunner⟩, hq]
      · rw [if_neg hq, if_neg]
        rintro ⟨heq, -⟩
        cases heq
        exact hq rfl

lemma WellFormed.record?_vacate_self (h : r.WellFormed) (pid : Nat) :
    (r.vacate pid).record? pid = r.record? pid := by
  rw [h.record?_vacate, if_neg fun hne => hne.2 rfl]

lemma WellFormed.dispatch_eq (h : r.WellFormed) (hp : r.record? pid = some p) :
    r.dispatch pid = { r.vacate pid with active := p.context, running := some pid } := by
  have hvacate : (r.vacate pid).record? pid = some p := by rw [h.record?_vacate_self, hp]
  obtain ⟨record, hget, rfl⟩ := Option.map_eq_some_iff.mp hvacate
  rw [dispatch, hget]
  rfl

lemma WellFormed.record?_suspend (h : r.WellFormed) (pid q : Nat) :
    (r.suspend pid).record? q =
      if r.running = some q ∧ q = pid then (r.record? q).map fun p => { p with context := r.active }
      else r.record? q := by
  rw [suspend]
  by_cases hrunning : r.running = some pid
  · have hrecord := h.record?_modify pid q (f := ({ · with context := r.active })) fun _ => rfl
    rw [if_pos hrunning]
    by_cases hq : q = pid
    · rw [if_pos ⟨by rw [hq, hrunning], hq⟩]
      subst hq
      exact hrecord.trans (if_pos rfl)
    · rw [if_neg fun h => hq h.2]
      exact hrecord.trans (if_neg hq)
  · rw [if_neg hrunning, if_neg]
    rintro ⟨heq, hq⟩
    exact hrunning (hq ▸ heq)

lemma WellFormed.suspend (h : r.WellFormed) (pid : Pid) : (r.suspend pid).WellFormed := by
  rw [Roster.suspend]
  split
  · exact (h.modify pid (f := ({ · with context := r.active })) (fun _ => rfl) fun _ => rfl).withProcessor
      none _
  · exact h

lemma sameSetup_vacate (r : Roster space) (pid : Pid) : r.pool.SameSetup (r.vacate pid).pool := by
  rw [vacate]
  cases r.running with
  | none => rfl
  | some runner =>
    dsimp only
    split
    · rfl
    · exact r.sameSetup_modify runner _

section

variable (h : r.WellFormed) (hp : r.record? pid = some p) (state : ProcessState)

include h hp

lemma WellFormed.dispatch : (r.dispatch pid).WellFormed := by
  rw [h.dispatch_eq hp]
  exact (h.vacate pid).withProcessor _ _

lemma WellFormed.enter : (r.enter pid state).WellFormed := by
  rw [Roster.enter]
  split
  · exact (h.dispatch hp).modify pid (fun _ => rfl) fun _ => rfl
  · exact (h.suspend pid).modify pid (fun _ => rfl) fun _ => rfl

lemma WellFormed.record?_enter (q : Nat) :
    (r.enter pid state).record? q =
      (r.record? q).map (ProcessRecord.afterEntry r.running r.active pid state q) := by
  rw [Roster.enter]
  by_cases hstate : state = .running
  · have hvacate : (r.dispatch pid).record? = (r.vacate pid).record? := by
      rw [h.dispatch_eq hp]
      rfl
    have hrecord := (h.dispatch hp).record?_modify pid q (f := (·.enter state)) fun _ => rfl
    rw [hvacate, h.record?_vacate_self, h.record?_vacate] at hrecord
    rw [if_pos hstate, hrecord]
    by_cases hq : q = pid
    · rw [if_pos hq, hq, hp]
      simp [ProcessRecord.afterEntry, hstate]
    · rw [if_neg hq]
      by_cases hrunning : r.running = some q
      · rw [if_pos ⟨hrunning, hq⟩]
        cases r.record? q with
        | none => rfl
        | some record => simp [ProcessRecord.afterEntry, hq, hstate, hrunning]
      · rw [if_neg fun h => hrunning h.1]
        cases r.record? q with
        | none => rfl
        | some record => simp [ProcessRecord.afterEntry, hq, hrunning]
  · have hrecord := (h.suspend pid).record?_modify pid q (f := (·.enter state)) fun _ => rfl
    rw [h.record?_suspend, h.record?_suspend] at hrecord
    rw [if_neg hstate, hrecord]
    by_cases hq : q = pid
    · rw [if_pos hq, hq, hp]
      by_cases hrunning : r.running = some pid
      · simp [ProcessRecord.afterEntry, hstate, hrunning]
      · simp [ProcessRecord.afterEntry, hrunning]
    · rw [if_neg hq, if_neg fun h => hq h.2]
      cases r.record? q with
      | none => rfl
      | some record => simp [ProcessRecord.afterEntry, hq, hstate]

lemma WellFormed.running_enter : (r.enter pid state).running =
    if state = .running then some pid else if r.running = some pid then none else r.running := by
  rw [Roster.enter, running_modify]
  split
  · rw [h.dispatch_eq hp]
  · rw [Roster.suspend]
    split <;> rfl

lemma WellFormed.active_enter :
    (r.enter pid state).active = if state = .running then p.context else r.active := by
  rw [Roster.enter, active_modify]
  split
  · rw [h.dispatch_eq hp]
  · rw [Roster.suspend]
    split
    · exact active_modify _ _ _
    · rfl

lemma WellFormed.sameSetup_enter : r.pool.SameSetup (r.enter pid state).pool := by
  rw [Roster.enter]
  refine Pool.SameSetup.trans ?_ (sameSetup_modify _ _ _)
  split
  · rw [h.dispatch_eq hp]
    exact r.sameSetup_vacate pid
  · rw [Roster.suspend]
    split
    · exact r.sameSetup_modify _ _
    · rfl

end

/-- What a request for a change of state leaves, whatever the policy. -/
lemma state_changeState (r : Roster space) (pid : Nat) (state : ProcessState) :
    ((changeState pid state).run r).state =
      match r.record? pid with
      | some p => if p.canEnter state then r.enter pid state else r
      | none => r := by
  rw [changeState, record?]
  simp only [Action.run_bind, Action.run_get]
  cases r.get? pid with
  | none => rfl
  | some p =>
    have hcan : p.unchained.canEnter state = p.canEnter state := rfl
    dsimp only [Option.map_some]
    rw [hcan]
    split
    · rfl
    · cases r.policy <;> rfl

/-! ### Histories -/

/-- The link of a live process to the next record. -/
def linkOf (r : Roster space) (pid : Pid) : Option Handle := (r.get? pid).bind (·.next)

section Histories

variable (capacity : Nat) (policy : Strictness)

/-- The states that a roster comes to by any sequence of operations, each with what it stands for. What
a change of a record may not touch is the identifier of the record and its place in the chain. -/
inductive Reached : Census space → Roster space → Prop
  | start : Reached .empty (ofCapacity capacity policy)
  | insert {c r slot r'} (pid : Pid) : Reached c r → c.records[pid]? = none →
      r.insert pid = (.ok slot, r') → Reached (c.enlist pid) r'
  | refuse {c r e r'} (pid : Pid) : Reached c r → r.insert pid = (.error e, r') → Reached c r'
  | remove {c r} (pid : Pid) : Reached c r →
      Reached (if (r.remove pid).1 then c.strike pid else c) (r.remove pid).2
  | changeState {c r} (pid : Pid) (state : ProcessState) : Reached c r →
      Reached (c.change pid state) ((changeState pid state).run r).state
  | modify {c r} (pid : Pid) {f : ProcessRecord space → ProcessRecord space} :
      (∀ p, (f p).pid = p.pid) → (∀ p, (f p).next = p.next) → Reached c r →
      Reached (c.amend pid fun p => (f { p with next := r.linkOf pid }).unchained) (r.modify pid f)
  | writeActive {c r} (active : Registers) : Reached c r →
      Reached { c with active := active } { r with active := active }
  | heap {c r} (slots entries : Nat) : Reached c r → Reached c (r.withStorage slots entries)

end Histories

/-- `r` is the roster of the processes of `c`, with room for `bound` records. -/
structure ActsAs (bound : Nat) (c : Census space) (r : Roster space) : Prop where
  /-- From the head on the chain leads through all records and comes to an end. -/
  chain : ∃ xs, Pool.Path ProcessRecord.next r.pool r.head xs none ∧
    xs.map (fun e => (e.2.pid, e.2.unchained)) = c.records.toList
  toList : r.toList.map (fun p => (p.pid, p.unchained)) = c.records.toList
  ascending : (r.toList.map (·.pid)).Pairwise (· < ·)
  size : r.size = c.records.size
  poolSize : r.pool.size = c.records.size
  contains : ∀ pid : Nat, r.contains pid = c.records.contains pid
  get? : ∀ pid : Nat, (r.get? pid).map (·.unchained) = c.records[pid]?
  running : r.running = c.running
  active : r.active = c.active
  isFull : r.isFull = true ↔ c.records.size = bound
  exhausted : ∀ pid : Nat, (r.insert pid).1 = .error .exhausted ↔ c.records.size = bound
  full : c.records.size = bound → ∀ pid : Nat, r.insert pid = (.error .exhausted, r)
  /-- Below the bound, a record is refused only if the heap has no room for it or for its entry in the
  index. -/
  storageFailed : ∀ pid : Nat, (r.insert pid).1 = .error .storageFailed ↔ c.records.size ≠ bound ∧
    (r.pool.storage ≤ c.records.size ∨ r.indexStorage ≤ c.records.size)
  /-- Where a record is refused, the others stay as they are and where they are. -/
  refused : ∀ (pid : Nat) e r', r.insert pid = (.error e, r') →
    r'.entries = r.entries ∧ r'.index = r.index
  /-- A new record comes between the others, which stay as they are and where they are. -/
  insert : ∀ pid : Nat, c.records[pid]? = none → c.records.size ≠ bound →
    c.records.size < r.pool.storage → c.records.size < r.indexStorage → ∃ slot r' us vs,
    r.insert pid = (.ok slot, r') ∧ bare r.entries = us ++ vs ∧
      bare r'.entries = us ++ (slot, .newcomer pid) :: vs
  absent : ∀ pid : Nat, c.records[pid]? = none → r.remove pid = (false, r)
  /-- A record that is taken out leaves the others as they are and where they are. -/
  remove : ∀ pid : Nat, ∀ p ∈ c.records[pid]?, ∃ slot r' us vs, r.remove pid = (true, r') ∧
    bare r.entries = us ++ (slot, p) :: vs ∧ bare r'.entries = us ++ vs

/-- The invariant of a history. -/
structure Holds (capacity : Nat) (policy : Strictness) (c : Census space) (r : Roster space) : Prop where
  wellFormed : r.WellFormed
  capacity_eq : r.pool.capacity = min capacity Pool.capacityBound
  fresh_eq : r.pool.fresh = ProcessRecord.blank.withBaseline
  record? : ∀ pid : Nat, r.record? pid = c.records[pid]?
  running : r.running = c.running
  active : r.active = c.active

variable {capacity : Nat} {policy : Strictness} {c : Census space} {slot : Handle} {r' : Roster space}

lemma holds_start (capacity : Nat) (policy : Strictness) :
    Holds capacity policy (.empty : Census space) (ofCapacity capacity policy) where
  wellFormed := ⟨[], chain_ofCapacity capacity policy⟩
  capacity_eq := rfl
  fresh_eq := rfl
  record? pid := by simp [Roster.record?, Roster.get?, ofCapacity, Census.empty]
  running := rfl
  active := rfl

namespace Holds

variable (h : Holds capacity policy c r)

include h

lemma get?_eq_none (hnew : c.records[pid]? = none) : r.get? pid = none := by
  rw [← h.record?] at hnew
  exact Option.map_eq_none_iff.mp hnew

lemma isSome_get? (hp : c.records[pid]? = some p) : (r.get? pid).isSome := by
  rw [← h.record?] at hp
  obtain ⟨record, hget, -⟩ := Option.map_eq_some_iff.mp hp
  rw [hget]
  rfl

lemma insert (hnew : c.records[pid]? = none) (hrun : r.insert pid = (.ok slot, r')) :
    Holds capacity policy (c.enlist pid) r' := by
  have hshort : r.shortage? = none := by
    rw [Option.eq_none_iff_forall_ne_some]
    intro e hshort
    rw [← h.wellFormed.insert_eq_error_iff pid, hrun] at hshort
    cases hshort
  obtain ⟨slot', r'', hrun', hwellFormed, hrecord, hsetup, hrest⟩ :=
    h.wellFormed.insert (h.get?_eq_none hnew) hshort
  cases hrun.symm.trans hrun'
  refine ⟨hwellFormed, hsetup.capacity.trans h.capacity_eq, hsetup.fresh.trans h.fresh_eq, fun q => ?_,
    ?_, ?_⟩
  · rw [hrecord, h.fresh_eq, h.record?, Census.enlist, Std.ExtTreeMap.getElem?_insert]
    simp only [Nat.compare_eq_eq, eq_comm (a := pid)]
    rfl
  · rw [hrest]
    exact h.running
  · rw [hrest]
    exact h.active

/-- Where a record is refused, at most the slot has changed that was issued for it and given back. -/
lemma refused {e : IssueError} (hrun : r.insert pid = (.error e, r')) :
    ∃ q, r' = { r with pool := q } ∧ r'.WellFormed ∧ r'.entries = r.entries ∧
      (∀ id, q.get? id = r.pool.get? id) ∧ r.pool.SameSetup q := by
  have hshort := (h.wellFormed.insert_eq_error_iff pid).mp (congrArg Prod.fst hrun)
  obtain ⟨xs, hchain⟩ := h.wellFormed
  obtain ⟨q, hrun', hchain', hget, hsetup⟩ := hchain.insert_of_shortage pid hshort
  cases hrun.symm.trans hrun'
  exact ⟨q, rfl, ⟨xs, hchain'⟩, hchain'.entries.trans hchain.entries.symm, hget, hsetup⟩

lemma refuse {e : IssueError} (hrun : r.insert pid = (.error e, r')) : Holds capacity policy c r' := by
  obtain ⟨q, rfl, hwellFormed, -, hget, hsetup⟩ := h.refused hrun
  refine ⟨hwellFormed, hsetup.capacity.trans h.capacity_eq, hsetup.fresh.trans h.fresh_eq, fun p => ?_,
    h.running, h.active⟩
  rw [← h.record?, Roster.record?, Roster.record?, Roster.get?, Roster.get?]
  simp only [funext hget]

lemma remove_absent (hp : c.records[pid]? = none) : r.remove pid = (false, r) := by
  have hslot : r.index[pid]? = none := by
    have hcontains := h.wellFormed.contains_eq pid
    rw [h.get?_eq_none hp] at hcontains
    exact Std.ExtTreeMap.getElem?_eq_none_of_contains_eq_false hcontains
  rw [Roster.remove, hslot]

lemma remove (pid : Nat) :
    Holds capacity policy (if (r.remove pid).1 then c.strike pid else c) (r.remove pid).2 := by
  cases hp : c.records[pid]? with
  | none =>
    rw [h.remove_absent hp]
    exact h
  | some p =>
    obtain ⟨r', hrun, hwellFormed, hrecord, hsetup, hrest⟩ := h.wellFormed.remove (h.isSome_get? hp)
    rw [hrun]
    refine ⟨hwellFormed, hsetup.capacity.trans h.capacity_eq, hsetup.fresh.trans h.fresh_eq, fun q => ?_,
      ?_, ?_⟩
    · rw [hrecord, h.record?, if_pos rfl, Census.strike, Std.ExtTreeMap.getElem?_erase]
      simp only [Nat.compare_eq_eq, eq_comm (a := pid)]
    · rw [hrest, if_pos rfl, Census.strike, h.running]
    · rw [hrest]
      exact h.active

lemma modify (pid : Nat) {f : ProcessRecord space → ProcessRecord space} (hpid : ∀ p, (f p).pid = p.pid)
    (hnext : ∀ p, (f p).next = p.next) :
    Holds capacity policy (c.amend pid fun p => (f { p with next := r.linkOf pid }).unchained)
      (r.modify pid f) where
  wellFormed := h.wellFormed.modify pid hpid hnext
  capacity_eq := (r.sameSetup_modify pid f).capacity.trans h.capacity_eq
  fresh_eq := (r.sameSetup_modify pid f).fresh.trans h.fresh_eq
  record? q := by
    rw [Roster.record?, h.wellFormed.get?_modify, Census.amend, Std.ExtTreeMap.getElem?_modify]
    simp only [Nat.compare_eq_eq, eq_comm (a := pid), ← h.record?]
    split
    · -- the link that was left aside is put back before the change
      rw [Roster.record?, linkOf]
      cases r.get? pid <;> rfl
    · rfl
  running := (running_modify r pid f).trans h.running
  active := (active_modify r pid f).trans h.active

lemma changeState (pid : Nat) (state : ProcessState) :
    Holds capacity policy (c.change pid state) ((Roster.changeState pid state).run r).state := by
  rw [state_changeState, Census.change, ← h.record?]
  cases hp : r.record? pid with
  | none => exact h
  | some p =>
    dsimp only
    split
    · have hsetup := h.wellFormed.sameSetup_enter hp state
      refine ⟨h.wellFormed.enter hp state, hsetup.capacity.trans h.capacity_eq,
        hsetup.fresh.trans h.fresh_eq, fun q => ?_, ?_, ?_⟩
      · rw [h.wellFormed.record?_enter hp, Census.enter, Std.ExtTreeMap.getElem?_map, h.record?, h.running,
          h.active]
      · rw [h.wellFormed.running_enter hp, Census.enter, h.running]
      · rw [h.wellFormed.active_enter hp, Census.enter, h.active]
    · exact h

end Holds

lemma Reached.holds (h : Reached capacity policy c r) : Holds capacity policy c r := by
  induction h with
  | start => exact holds_start capacity policy
  | insert pid _ hnew hrun ih => exact ih.insert hnew hrun
  | refuse pid _ hrun ih => exact ih.refuse hrun
  | remove pid _ ih => exact ih.remove pid
  | changeState pid state _ ih => exact ih.changeState pid state
  | modify pid hpid hnext _ ih => exact ih.modify pid hpid hnext
  | writeActive active _ ih =>
    exact ⟨ih.wellFormed.withProcessor _ active, ih.capacity_eq, ih.fresh_eq, ih.record?, ih.running, rfl⟩
  | heap slots entries _ ih =>
    exact ⟨ih.wellFormed.withStorage slots entries, ih.capacity_eq, ih.fresh_eq, ih.record?, ih.running,
      ih.active⟩

namespace Holds

variable (h : Holds capacity policy c r)

include h

lemma toList_eq : r.toList.map (fun p => (p.pid, p.unchained)) = c.records.toList :=
  h.wellFormed.map_toList fun pid => by rw [← h.record?, Roster.record?]

lemma size_eq : r.toList.length = c.records.size := by
  rw [← Std.ExtTreeMap.length_toList, ← h.toList_eq, List.length_map]

lemma size_pool : r.pool.size = c.records.size := h.wellFormed.pool_size.trans h.size_eq

lemma size_index : r.size = c.records.size := h.wellFormed.size_eq.trans h.size_eq

/-- A new record goes in between the others. -/
lemma insert_between (hnew : c.records[pid]? = none) (hshort : r.shortage? = none) :
    ∃ slot r' us vs, r.insert pid = (.ok slot, r') ∧ bare r.entries = us ++ vs ∧
      bare r'.entries = us ++ (slot, .newcomer pid) :: vs := by
  obtain ⟨xs, hchain⟩ := h.wellFormed
  obtain ⟨slot, r', us, vs, ys, hrun, hchain', hxs, hys, -⟩ :=
    hchain.insert (h.get?_eq_none hnew) hshort
  refine ⟨slot, r', bare us, bare vs, hrun, ?_, ?_⟩
  · rw [hchain.entries, hxs, bare_append]
  · rw [hchain'.entries, hys, h.fresh_eq]
    rfl

/-- A record that goes is taken out from between the others. -/
lemma remove_between (hp : c.records[pid]? = some p) :
    ∃ slot r' us vs, r.remove pid = (true, r') ∧ bare r.entries = us ++ (slot, p) :: vs ∧
      bare r'.entries = us ++ vs := by
  obtain ⟨xs, hchain⟩ := h.wellFormed
  obtain ⟨r', us, e, vs, ys, hrun, hchain', hxs, hpid, hys, -⟩ := hchain.remove (h.isSome_get? hp)
  have he : e.2.unchained = p := by
    have hrecord : r.record? pid = some e.2.unchained :=
      hchain.record?_eq_some.mpr ⟨e.1, by simp [hxs, bare], hpid⟩
    rw [h.record?, hp] at hrecord
    exact (Option.some_injective _ hrecord).symm
  refine ⟨e.1, r', bare us, bare vs, hrun, ?_, ?_⟩
  · rw [hchain.entries, hxs, bare_append, bare_cons, he]
  · rw [hchain'.entries, hys]

theorem actsAs : ActsAs (min capacity (2 ^ 32 - 1)) c r := by
  have hcapacity : r.pool.capacity = min capacity (2 ^ 32 - 1) := h.capacity_eq
  have hsize : c.records.size ≤ r.pool.capacity := h.size_pool ▸ h.wellFormed.pool.size_le_capacity
  rw [← hcapacity]
  exact {
    chain := by
      obtain ⟨xs, hchain⟩ := h.wellFormed
      refine ⟨xs, hchain.path, ?_⟩
      rw [← h.toList_eq, hchain.toList, List.map_map]
      rfl
    toList := h.toList_eq
    ascending := h.wellFormed.sorted
    size := h.size_index
    poolSize := h.size_pool
    contains pid := by
      rw [h.wellFormed.contains_eq, Std.ExtTreeMap.contains_eq_isSome_getElem?, ← h.record?, Roster.record?,
        Option.isSome_map]
    get? := h.record?
    running := h.running
    active := h.active
    isFull := by
      rw [Roster.isFull, Pool.isFull, decide_eq_true_eq, ← h.size_pool]
      exact ⟨h.wellFormed.pool.size_le_capacity.antisymm, Eq.ge⟩
    exhausted pid := by
      rw [h.wellFormed.insert_eq_error_iff, shortage?, Pool.shortage?_eq_exhausted, h.size_index]
      exact ⟨hsize.antisymm, Eq.ge⟩
    full hfull pid := by
      have hissue : r.pool.issue = .error .exhausted := by
        rw [h.wellFormed.pool.issue_eq_exhausted_iff, h.size_pool, hfull]
      rw [Roster.insert, hissue]
    storageFailed pid := by
      rw [h.wellFormed.insert_eq_error_iff, shortage?, Pool.shortage?_eq_storageFailed, h.size_index,
        min_le_iff, Nat.lt_iff_le_and_ne]
      exact and_congr_left fun _ => and_iff_right hsize
    refused pid e r' hrun := by
      obtain ⟨q, rfl, -, hentries, -⟩ := h.refused hrun
      exact ⟨hentries, rfl⟩
    insert pid hnew hroom hstorage hindex := by
      refine h.insert_between hnew (Pool.shortage?_eq_none.mpr ?_)
      rw [h.size_index]
      exact ⟨Nat.lt_of_le_of_ne hsize hroom, lt_min hstorage hindex⟩
    absent pid hp := h.remove_absent hp
    remove pid p hp := h.remove_between hp }

end Holds

end Roster

end Uniprocessor
