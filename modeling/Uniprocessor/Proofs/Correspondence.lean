import Uniprocessor.Proofs.ChildLists
import Uniprocessor.Proofs.PidSpaces
import Uniprocessor.Proofs.Refinement
import Uniprocessor.Proofs.Scans
import Uniprocessor.Proofs.SignalQueues
import Uniprocessor.Proofs.Views

/-!
# Supervisors and their views

A supervisor shows a view when its parts agree with each other and together contain what the view
says. The changes that the operations are made of keep it so; each is stated for the supervisor
and for the view at once.
-/

namespace Uniprocessor

namespace Roster

variable {space : Type} {r : Roster space}

def childListOf (r : Roster space) (pid : Pid) : Children :=
  ((r.record? pid).map (·.children)).getD .empty

def signalQueueOf (r : Roster space) (pid : Pid) : PendingSignals :=
  ((r.record? pid).map (·.signals)).getD .empty

/-- Where one record changes and its lists do not, all lists are as they were. -/
lemma lists_congr {r' : Roster space} (pid : Nat)
    (hothers : ∀ q : Nat, q ≠ pid → r'.record? q = r.record? q)
    (hchildren : r'.childListOf pid = r.childListOf pid)
    (hsignals : r'.signalQueueOf pid = r.signalQueueOf pid) :
    r'.childListOf = r.childListOf ∧ r'.signalQueueOf = r.signalQueueOf := by
  refine ⟨funext fun q => ?_, funext fun q => ?_⟩
  · by_cases hq : q = pid
    · rw [hq, hchildren]
    · rw [childListOf, childListOf, hothers q hq]
  · by_cases hq : q = pid
    · rw [hq, hsignals]
    · rw [signalQueueOf, signalQueueOf, hothers q hq]

namespace WellFormed

variable (h : r.WellFormed) (pid : Nat) {f : ProcessRecord space → ProcessRecord space}

include h

lemma childListOf_modify (hchildren : ∀ p, (f p).children = p.children)
    (hbare : ∀ p, (f p).unchained = f p.unchained) : (r.modify pid f).childListOf = r.childListOf := by
  funext q
  rw [childListOf, childListOf, h.record?_modify pid q hbare]
  split
  · rename_i hq
    simp [hq, hchildren, Function.comp_def]
  · rfl

lemma signalQueueOf_modify (hsignals : ∀ p, (f p).signals = p.signals)
    (hbare : ∀ p, (f p).unchained = f p.unchained) :
    (r.modify pid f).signalQueueOf = r.signalQueueOf := by
  funext q
  rw [signalQueueOf, signalQueueOf, h.record?_modify pid q hbare]
  split
  · rename_i hq
    simp [hq, hsignals, Function.comp_def]
  · rfl

end WellFormed

end Roster

namespace Supervisor

variable {μ space : Type} {s : Supervisor μ space} {v : View μ space}

/-- The room that the heap has for records, as far as the capacities allow to use it. -/
def room (s : Supervisor μ space) : Storage where
  processes := min s.roster.pool.storage s.roster.pool.capacity
  index := min s.roster.indexStorage s.roster.pool.capacity
  links := min s.links.storage s.links.capacity
  signals := min s.signals.storage s.signals.capacity

/-- Where pools change their records only, there is as much room as before. -/
lemma room_congr {t : Supervisor μ space} (hpool : s.roster.pool.SameSetup t.roster.pool)
    (hindex : t.roster.indexStorage = s.roster.indexStorage) (hlinks : s.links.SameSetup t.links)
    (hsignals : s.signals.SameSetup t.signals) : s.room = t.room := by
  rw [room, room, hpool.storage, hpool.capacity, hindex, hlinks.storage, hlinks.capacity,
    hsignals.storage, hsignals.capacity]

/-- The parts of the supervisor agree, and `v` is what they show. -/
structure Shows (s : Supervisor μ space) (v : View μ space) : Prop where
  limits : v.limits = s.limits
  room : v.room = s.room
  memory : v.memory = s.memory
  running : v.running = s.roster.running
  live : ∀ pid ∈ v.running, v.table.contains pid = true
  active : v.active = s.roster.active
  policy : s.roster.policy = s.limits.policy
  roster : s.roster.WellFormed
  capacity : s.roster.pool.capacity = min s.limits.processes Pool.capacityBound
  fresh : s.roster.pool.fresh = ProcessRecord.blank.withBaseline
  pids : s.pids.WellFormed
  pidCapacity : s.pids.capacity = s.limits.pids
  used : ∀ pid : Nat, v.table.contains pid = true ↔ pid ≠ reservedPid ∧ s.pids.isUsed pid = true
  records : ∀ pid : Nat, v.table[pid]? =
    (s.roster.record? pid).map fun p => p.view (v.childrenOf pid) (v.signalsOf pid)
  children : Children.Family s.links s.roster.childListOf v.childrenOf
  linkCapacity : s.links.capacity = min s.limits.links Pool.capacityBound
  signals : PendingSignals.Family s.signals s.roster.signalQueueOf v.signalsOf
  signalCapacity : s.signals.capacity = min s.limits.signals Pool.capacityBound

theorem shows_ofLimits (limits : Limits) (memory : μ) :
    (ofLimits limits memory : Supervisor μ space).Shows (View.ofLimits limits memory) where
  limits := rfl
  room := by simp [View.ofLimits, Storage.ofLimits, room, ofLimits, Roster.ofCapacity, Pool.ofCapacity,
    Pool.withIssueHook]
  memory := rfl
  running := rfl
  live := by simp [View.ofLimits]
  active := rfl
  policy := rfl
  roster := ⟨_, Roster.chain_ofCapacity _ _⟩
  capacity := rfl
  fresh := rfl
  pids := PidSpace.wellFormed_ofCapacity _
  pidCapacity := rfl
  used pid := by
    simp only [View.ofLimits, ofLimits, PidSpace.isUsed, PidSpace.contains_ofCapacity]
    simp +contextual
  records pid := by
    simp [View.ofLimits, ofLimits, Roster.record?, Roster.get?, Roster.ofCapacity]
  children := by
    have hlists : (ofLimits limits memory : Supervisor μ space).roster.childListOf = fun _ => .empty := by
      funext pid
      simp [ofLimits, Roster.childListOf, Roster.record?, Roster.get?, Roster.ofCapacity]
    have hseqs : (View.ofLimits limits memory : View μ space).childrenOf = fun _ => [] := by
      funext pid
      simp [View.ofLimits, View.childrenOf]
    rw [hlists, hseqs]
    exact Layout.family_ofCapacity _ _ _
  linkCapacity := rfl
  signals := by
    have hqueues : (ofLimits limits memory : Supervisor μ space).roster.signalQueueOf =
        fun _ => .empty := by
      funext pid
      simp [ofLimits, Roster.signalQueueOf, Roster.record?, Roster.get?, Roster.ofCapacity]
    have hseqs : (View.ofLimits limits memory : View μ space).signalsOf = fun _ => [] := by
      funext pid
      simp [View.ofLimits, View.signalsOf]
    rw [hqueues, hseqs]
    exact Layout.family_ofCapacity _ _ _
  signalCapacity := rfl

/-- Who is in the view has a record. -/
lemma Shows.exists_record (h : s.Shows v) {pid : Nat} {p : ProcessView space}
    (hp : v.table[pid]? = some p) : ∃ record, s.roster.record? pid = some record := by
  have hrecords := h.records pid
  rw [hp] at hrecords
  exact (Option.map_eq_some_iff.mp hrecords.symm).imp fun _ hr => hr.1

lemma Shows.record?_eq_none (h : s.Shows v) {pid : Nat} (hp : v.table[pid]? = none) :
    s.roster.record? pid = none := by
  have hrecords := h.records pid
  rw [hp] at hrecords
  exact Option.map_eq_none_iff.mp hrecords.symm

/-! ### Records that change in place -/

/-- What has to be checked when one record changes, together with the shared pools. -/
lemma Shows.change (h : s.Shows v) (pid : Nat) {f : ProcessRecord space → ProcessRecord space}
    {g : ProcessView space → ProcessView space} {links : Pool ChildEntry}
    {signals : Pool SignalEntry}
    (hview : ∀ p cs ss, (f p).view (g (p.view cs ss)).children (g (p.view cs ss)).signals =
      g (p.view cs ss))
    (hlinks : Children.Family links (s.roster.modify pid f).childListOf (v.update pid g).childrenOf)
    (hlinkSetup : s.links.SameSetup links)
    (hsignals : PendingSignals.Family signals (s.roster.modify pid f).signalQueueOf
      (v.update pid g).signalsOf)
    (hsignalSetup : s.signals.SameSetup signals)
    (hpid : ∀ p, (f p).pid = p.pid := by intro _; rfl)
    (hnext : ∀ p, (f p).next = p.next := by intro _; rfl)
    (hbare : ∀ p, (f p).unchained = f p.unchained := by intro _; rfl) :
    { s with links := links, signals := signals, roster := s.roster.modify pid f }.Shows
      (v.update pid g) where
  limits := h.limits
  room := h.room.trans (room_congr (Roster.sameSetup_modify _ _ _) (by simp) hlinkSetup
    hsignalSetup)
  memory := h.memory
  running := by simpa [View.update] using h.running
  live q hq := by
    have hlive := h.live q hq
    rw [View.get?_iff_mem] at hlive ⊢
    rw [View.get?_update]
    split
    · rename_i heq
      simpa [← heq] using hlive
    · exact hlive
  active := by simpa [View.update] using h.active
  policy := by simpa using h.policy
  roster := h.roster.modify pid hpid hnext
  capacity := by
    rw [← h.capacity]
    exact (Roster.sameSetup_modify _ _ _).capacity
  fresh := by
    rw [← h.fresh]
    exact (Roster.sameSetup_modify _ _ _).fresh
  pids := h.pids
  pidCapacity := h.pidCapacity
  used q := by
    rw [← h.used q, View.get?_iff_mem, View.get?_iff_mem, View.get?_update]
    split
    · rename_i hq
      simp [hq]
    · rfl
  records q := by
    rw [View.get?_update, h.roster.record?_modify pid q hbare]
    by_cases hq : q = pid
    · subst hq
      rw [if_pos rfl, if_pos rfl, h.records q]
      cases hrecord : s.roster.record? q with
      | none => rfl
      | some p =>
        have hlive : (v.update q g).table[q]? =
            some (g (p.view (v.childrenOf q) (v.signalsOf q))) := by
          rw [View.get?_update, if_pos rfl, h.records q, hrecord]
          rfl
        rw [View.childrenOf_eq hlive, View.signalsOf_eq hlive]
        simp [hview]
    · rw [if_neg hq, if_neg hq, h.records q]
      have hsame : (v.update pid g).table[q]? = v.table[q]? := by
        rw [View.get?_update, if_neg hq]
      rw [View.childrenOf_congr hsame, View.signalsOf_congr hsame]
  children := hlinks
  linkCapacity := by rw [← h.linkCapacity, hlinkSetup.capacity]
  signals := hsignals
  signalCapacity := by rw [← h.signalCapacity, hsignalSetup.capacity]

/-- A change of a record that leaves its lists alone. -/
theorem Shows.amend (h : s.Shows v) (pid : Nat) {f : ProcessRecord space → ProcessRecord space}
    {g : ProcessView space → ProcessView space}
    (hview : ∀ p cs ss, (f p).view cs ss = g (p.view cs ss))
    (hchildren : ∀ p, (f p).children = p.children := by intro _; rfl)
    (hsignals : ∀ p, (f p).signals = p.signals := by intro _; rfl)
    (hpid : ∀ p, (f p).pid = p.pid := by intro _; rfl)
    (hnext : ∀ p, (f p).next = p.next := by intro _; rfl)
    (hbare : ∀ p, (f p).unchained = f p.unchained := by intro _; rfl) :
    { s with roster := s.roster.modify pid f }.Shows (v.update pid g) := by
  have hself : (v.update pid g).childrenOf pid = v.childrenOf pid ∧
      (v.update pid g).signalsOf pid = v.signalsOf pid := by
    have hrecords := h.records pid
    cases hp : s.roster.record? pid with
    | none =>
      rw [hp, Option.map_none] at hrecords
      simp [View.childrenOf, View.signalsOf, hrecords]
    | some p =>
      rw [hp, Option.map_some] at hrecords
      have hnew : (v.update pid g).table[pid]? =
          some ((f p).view (v.childrenOf pid) (v.signalsOf pid)) := by
        rw [View.get?_update, if_pos rfl, hrecords, Option.map_some, hview]
      exact ⟨View.childrenOf_eq hnew, View.signalsOf_eq hnew⟩
  obtain ⟨hchildrenOf, hsignalsOf⟩ := View.lists_congr pid
    (fun q hq => by rw [View.get?_update, if_neg hq]) hself.1 hself.2
  refine h.change pid ?_ ?_ rfl ?_ rfl hpid hnext hbare
  · intro p cs ss
    rw [← hview]
    rfl
  · rw [h.roster.childListOf_modify pid hchildren hbare, hchildrenOf]
    exact h.children
  · rw [h.roster.signalQueueOf_modify pid hsignals hbare, hsignalsOf]
    exact h.signals

/-- A child list of a live process changes, and no other. -/
theorem Shows.relink (h : s.Shows v) {pid : Nat} {p : ProcessView space}
    (hp : v.table[pid]? = some p) {l : Children} {links : Pool ChildEntry} {cs : List Pid}
    (hlinks : Children.Family links (Function.update s.roster.childListOf pid l)
      (Function.update v.childrenOf pid cs))
    (hsetup : s.links.SameSetup links) :
    { s with links := links, roster := s.roster.modify pid ({ · with children := l }) }.Shows
      (v.update pid ({ · with children := cs })) := by
  have hrecord := fun q => h.roster.record?_modify pid q (f := ({ · with children := l })) fun _ => rfl
  obtain ⟨record, hlive⟩ := h.exists_record hp
  refine h.change pid (fun _ _ _ => rfl) ?_ hsetup ?_ rfl
  · convert hlinks using 1
    · funext q
      rw [Roster.childListOf, hrecord]
      by_cases hq : q = pid
      · subst hq
        simp [hlive]
      · simp [hq, Roster.childListOf]
    · funext q
      rw [View.childrenOf, View.get?_update]
      by_cases hq : q = pid
      · subst hq
        simp [hp]
      · simp [hq, View.childrenOf]
  · convert h.signals using 1
    · exact h.roster.signalQueueOf_modify pid (fun _ => rfl) fun _ => rfl
    · funext q
      exact View.signalsOf_update v pid q fun _ => rfl

/-- A signal queue of a live process changes, and no other. -/
theorem Shows.requeue (h : s.Shows v) {pid : Nat} {p : ProcessView space}
    (hp : v.table[pid]? = some p) {l : PendingSignals} {signals : Pool SignalEntry}
    {ss : List UInt8}
    (hsignals : PendingSignals.Family signals (Function.update s.roster.signalQueueOf pid l)
      (Function.update v.signalsOf pid ss))
    (hsetup : s.signals.SameSetup signals) :
    { s with signals := signals, roster := s.roster.modify pid ({ · with signals := l }) }.Shows
      (v.update pid ({ · with signals := ss })) := by
  have hrecord := fun q => h.roster.record?_modify pid q (f := ({ · with signals := l })) fun _ => rfl
  obtain ⟨record, hlive⟩ := h.exists_record hp
  refine h.change pid (fun _ _ _ => rfl) ?_ rfl ?_ hsetup
  · convert h.children using 1
    · exact h.roster.childListOf_modify pid (fun _ => rfl) fun _ => rfl
    · funext q
      exact View.childrenOf_update v pid q fun _ => rfl
  · convert hsignals using 1
    · funext q
      rw [Roster.signalQueueOf, hrecord]
      by_cases hq : q = pid
      · subst hq
        simp [hlive]
      · simp [hq, Roster.signalQueueOf]
    · funext q
      rw [View.signalsOf, View.get?_update]
      by_cases hq : q = pid
      · subst hq
        simp [hp]
      · simp [hq, View.signalsOf]

/-! ### The processor and the memory -/

lemma Shows.withMemory (h : s.Shows v) (m : μ) :
    { s with memory := m }.Shows { v with memory := m } :=
  { h with memory := rfl }

/-- The heap may come to have other room at any time. -/
lemma Shows.withStorage (h : s.Shows v) (storage : Storage) :
    (s.withStorage storage).Shows { v with room := (s.withStorage storage).room } :=
  { h with
    room := rfl
    roster := h.roster.withStorage storage.processes storage.index
    children := h.children.withStorage storage.links
    signals := h.signals.withStorage storage.signals }

lemma Shows.withRunning (h : s.Shows v) (running : Option Pid)
    (hlive : ∀ pid ∈ running, v.table.contains pid = true) :
    { s with roster := { s.roster with running := running } }.Shows { v with running := running } :=
  { h with running := rfl, live := hlive, roster := h.roster.withProcessor running s.roster.active }

lemma Shows.withActive (h : s.Shows v) (active : Registers) :
    { s with roster := { s.roster with active := active } }.Shows { v with active := active } :=
  { h with active := rfl, roster := h.roster.withProcessor s.roster.running active }

/-! ### Processes that come and go -/

/-- The live processes, as the view lists them. -/
theorem Shows.toList_eq (h : s.Shows v) :
    s.processes.map (fun p => (p.pid, p.view (v.childrenOf p.pid) (v.signalsOf p.pid))) =
      v.table.toList := by
  refine h.roster.map_toList fun pid => ?_
  rw [h.records pid, Roster.record?, Option.map_map]
  refine Option.map_congr fun p hp => ?_
  rw [h.roster.pid_of_get? hp]
  rfl

lemma Shows.size_eq (h : s.Shows v) : v.table.size = s.roster.size := by
  rw [h.roster.size_eq, ← Std.ExtTreeMap.length_toList, ← h.toList_eq, List.length_map]
  rfl

lemma Shows.contains_eq (h : s.Shows v) (pid : Nat) :
    s.roster.contains pid = v.table.contains pid := by
  rw [h.roster.contains_eq, View.get?_iff_mem, h.records pid, Roster.record?, Option.isSome_map,
    Option.isSome_map]

/-- The identifier that is handed out next is the least one that no process has. -/
lemma Shows.next?_eq (h : s.Shows v) : s.pids.next? = v.freePid? := by
  have hlimit : v.limits.pids = s.pids.capacity := by rw [h.limits, h.pidCapacity]
  have hfree : ∀ pid : Nat, pid ≠ reservedPid →
      ((!v.table.contains pid) = true ↔ s.pids.isUsed pid = false) := by
    intro pid hpid
    rw [Bool.not_eq_true', ← Bool.not_eq_true, h.used pid]
    simp [hpid]
  cases hnext : s.pids.next? with
  | none =>
    symm
    rw [View.freePid?, List.find?_range'_eq_none]
    intro pid hpos hlt
    rw [hlimit] at hlt
    have hne : pid ≠ reservedPid := by
      unfold reservedPid
      omega
    have hused := h.pids.next?_eq_none hnext (by omega : pid < s.pids.capacity)
    rw [Bool.not_eq_true', ← Bool.not_eq_true, hfree pid hne, hused]
    simp
  | some pid =>
    obtain ⟨hne, hlt, hunused, hbefore⟩ := h.pids.next?_eq_some hnext
    symm
    rw [View.freePid?, List.find?_range'_eq_some]
    refine ⟨(hfree pid hne).mpr hunused, ?_, fun q hpos hq => ?_⟩
    · unfold reservedPid at hne
      rw [List.mem_range'_1, hlimit]
      omega
    · have hne' : q ≠ reservedPid := by
        unfold reservedPid
        omega
      rw [Bool.not_eq_true', ← Bool.not_eq_true, hfree q hne', hbefore q hq]
      simp

/-- A process without children and signals leaves, and its identifier becomes free. -/
theorem Shows.drop (h : s.Shows v) {pid : Nat} {p : ProcessView space}
    (hp : v.table[pid]? = some p) (hchildren : p.children = []) (hsignals : p.signals = []) :
    { s with roster := (s.roster.remove pid).2, pids := (s.pids.release pid).2 }.Shows
      (v.drop pid) := by
  obtain ⟨record, hlive⟩ := h.exists_record hp
  replace hlive : (s.roster.get? pid).isSome := by
    rw [← Option.isSome_map, ← Roster.record?, hlive, Option.isSome_some]
  obtain ⟨r, hremove, hr, hrecord, hsetup, heq⟩ := h.roster.remove hlive
  obtain ⟨hne, hused⟩ := (h.used pid).mp (by rw [View.get?_iff_mem, hp]; rfl)
  obtain ⟨b, hrelease, hb, hcapacity, hisUsed⟩ := h.pids.release_of_isUsed hne hused
  rw [hremove, hrelease]
  have htable := v.get?_drop pid
  have hnoChildren : v.childrenOf pid = [] := (View.childrenOf_eq hp).trans hchildren
  have hnoSignals : v.signalsOf pid = [] := (View.signalsOf_eq hp).trans hsignals
  obtain ⟨hlist, hqueue⟩ : r.childListOf = s.roster.childListOf ∧
      r.signalQueueOf = s.roster.signalQueueOf := by
    apply Roster.lists_congr pid fun q hq => by rw [hrecord q, if_neg hq]
    · rw [Roster.childListOf, hrecord pid, if_pos rfl, h.children.eq_empty hnoChildren]
      rfl
    · rw [Roster.signalQueueOf, hrecord pid, if_pos rfl, h.signals.eq_empty hnoSignals]
      rfl
  obtain ⟨hchildren', hsignals'⟩ : (v.drop pid).childrenOf = v.childrenOf ∧
      (v.drop pid).signalsOf = v.signalsOf := by
    apply View.lists_congr pid fun q hq => by rw [htable, if_neg hq]
    · rw [hnoChildren, View.childrenOf, htable, if_pos rfl]
      rfl
    · rw [hnoSignals, View.signalsOf, htable, if_pos rfl]
      rfl
  refine
    { h with
      room := ?_
      running := ?_, live := fun q hq => ?_, active := ?_, policy := ?_, roster := hr
      capacity := ?_, fresh := ?_
      pids := hb, pidCapacity := hcapacity.trans h.pidCapacity, used := fun q => ?_
      records := fun q => ?_, children := ?_, signals := ?_ }
  · exact h.room.trans (room_congr hsetup (by rw [heq]) rfl rfl)
  · rw [heq, View.drop, h.running]
  · rw [View.drop] at hq
    split at hq
    · simp at hq
    · rename_i hne
      rw [View.get?_iff_mem, htable, if_neg fun heq => hne (by rw [← heq]; exact hq),
        ← View.get?_iff_mem]
      exact h.live q hq
  · rw [heq]
    exact h.active
  · rw [heq]
    exact h.policy
  · rw [← h.capacity, hsetup.capacity]
  · rw [← h.fresh, hsetup.fresh]
  · rw [View.get?_iff_mem, htable, hisUsed]
    by_cases hq : q = pid
    · simp [hq]
    · rw [if_neg hq, ← View.get?_iff_mem, h.used q]
      simp [Ne.symm hq]
  · rw [htable, hrecord, hchildren', hsignals', h.records q]
    split <;> rfl
  · rw [hlist, hchildren']
    exact h.children
  · rw [hqueue, hsignals']
    exact h.signals

/-- The roster and the view are short of the same. -/
lemma Shows.shortage?_eq (h : s.Shows v) : s.roster.shortage? = v.processShortage? := by
  rw [View.processShortage?, View.processCapacity, h.limits, ← h.capacity, h.room, h.size_eq,
    Roster.shortage?, Supervisor.room]
  dsimp only
  rw [← inf_inf_distrib_right, Pool.shortage?_min_capacity]

/-- A new process takes the identifier that is free and a record. -/
theorem Shows.enroll (h : s.Shows v) {pid : Nat} (hfree : v.freePid? = some pid)
    (hshort : v.processShortage? = none) (entry : UInt64) :
    ∃ b slot r, s.pids.allocate = (some pid, b) ∧ s.roster.insert pid = (.ok slot, r) ∧
      { s with
        pids := b
        roster := r.modify pid fun p =>
          { p with entry := entry, context := { p.context with rip := entry } } }.Shows
        (v.enroll pid entry) := by
  have hnew := View.get?_of_freePid? hfree
  rw [← h.next?_eq] at hfree
  obtain ⟨b, hallocate, hb, hcapacity, hisUsed⟩ := h.pids.allocate_some hfree
  obtain ⟨hne, -, -, -⟩ := h.pids.next?_eq_some hfree
  have hnone := h.record?_eq_none hnew
  obtain ⟨slot, r, hinsert, hr, hrecord, hsetup, heq⟩ :=
    h.roster.insert (Option.map_eq_none_iff.mp hnone) (h.shortage?_eq.trans hshort)
  refine ⟨b, slot, r, hallocate, hinsert, ?_⟩
  obtain ⟨f, hf⟩ : ∃ f : ProcessRecord space → ProcessRecord space, f = fun p =>
    { p with entry := entry, context := { p.context with rip := entry } } := ⟨_, rfl⟩
  have hrecord' : ∀ q : Nat, (r.modify pid f).record? q =
      if q = pid then some { ProcessRecord.blank.withBaseline with
        pid := pid, entry := entry, context := { Registers.baseline with rip := entry } }
      else s.roster.record? q := by
    intro q
    rw [hr.record?_modify pid q (by rw [hf]; exact fun _ => rfl), hrecord, hrecord, if_pos rfl,
      h.fresh, hf]
    split <;> rfl
  have htable := fun q => v.get?_enroll pid q entry
  obtain ⟨hlists, hqueues⟩ : (r.modify pid f).childListOf = s.roster.childListOf ∧
      (r.modify pid f).signalQueueOf = s.roster.signalQueueOf := by
    apply Roster.lists_congr pid fun q hq => by rw [hrecord', if_neg hq]
    · rw [Roster.childListOf, Roster.childListOf, hrecord', if_pos rfl, hnone]
      rfl
    · rw [Roster.signalQueueOf, Roster.signalQueueOf, hrecord', if_pos rfl, hnone]
      rfl
  obtain ⟨hchildren, hsignals⟩ : (v.enroll pid entry).childrenOf = v.childrenOf ∧
      (v.enroll pid entry).signalsOf = v.signalsOf := by
    apply View.lists_congr pid fun q hq => by rw [htable, if_neg hq]
    · simp [View.childrenOf, htable, hnew, ProcessView.fresh]
    · simp [View.signalsOf, htable, hnew, ProcessView.fresh]
  have hsetup' := hsetup.trans (Roster.sameSetup_modify r pid f)
  rw [← hf]
  refine
    { h with
      room := ?_
      running := ?_, live := fun q hq => ?_, active := ?_, policy := ?_
      roster := hr.modify pid (by rw [hf]; exact fun _ => rfl) (by rw [hf]; exact fun _ => rfl)
      capacity := ?_, fresh := ?_
      pids := hb, pidCapacity := hcapacity.trans h.pidCapacity, used := fun q => ?_
      records := fun q => ?_, children := ?_, signals := ?_ }
  · exact h.room.trans (room_congr hsetup' (by rw [Roster.indexStorage_modify, heq]) rfl rfl)
  · rw [Roster.running_modify, heq]
    exact h.running
  · rw [View.get?_iff_mem, htable]
    split
    · rfl
    · rw [← View.get?_iff_mem]
      exact h.live q hq
  · rw [Roster.active_modify, heq]
    exact h.active
  · rw [Roster.policy_modify, heq]
    exact h.policy
  · rw [← h.capacity, hsetup'.capacity]
  · rw [← h.fresh, hsetup'.fresh]
  · rw [View.get?_iff_mem, htable, hisUsed]
    by_cases hq : q = pid
    · simp [hq, hne]
    · rw [if_neg hq, ← View.get?_iff_mem, h.used q]
      simp [Ne.symm hq]
  · rw [htable, hrecord', hchildren, hsignals, h.records q]
    by_cases hq : q = pid
    · subst hq
      simp only [if_true, Option.map_some, View.childrenOf, View.signalsOf, hnew]
      rfl
    · rw [if_neg hq, if_neg hq]
  · rw [hchildren, hlists]
    exact h.children
  · rw [hsignals, hqueues]
    exact h.signals

/-- Where there is no record for a new process, the identifier that is free is taken and given back. -/
theorem Shows.enroll_of_shortage (h : s.Shows v) {pid : Nat} (hfree : v.freePid? = some pid)
    {e : IssueError} (hshort : v.processShortage? = some e) :
    ∃ b r, s.pids.allocate = (some pid, b) ∧ s.roster.insert pid = (.error e, r) ∧
      { s with pids := (b.release pid).2, roster := r }.Shows v := by
  have hnew := View.get?_of_freePid? hfree
  rw [← h.next?_eq] at hfree
  obtain ⟨b, hallocate, hb, hcapacity, hisUsed⟩ := h.pids.allocate_some hfree
  obtain ⟨hne, -, -, -⟩ := h.pids.next?_eq_some hfree
  obtain ⟨c, hrelease, hc, hcapacity', hisUsed'⟩ :=
    hb.release_of_isUsed hne (by rw [hisUsed, decide_eq_true rfl, Bool.or_true])
  obtain ⟨q, hinsert, hq, hget, hsetup⟩ :=
    h.roster.insert_of_shortage pid (h.shortage?_eq.trans hshort)
  have hrecord : ({ s.roster with pool := q } : Roster space).record? = s.roster.record? := by
    funext p
    simp only [Roster.record?, Roster.get?, funext hget]
  refine ⟨b, _, hallocate, hinsert, ?_⟩
  rw [hrelease]
  refine
    { h with
      room := h.room.trans (room_congr hsetup rfl rfl rfl)
      roster := hq
      capacity := hsetup.capacity.trans h.capacity
      fresh := hsetup.fresh.trans h.fresh
      pids := hc
      pidCapacity := (hcapacity'.trans hcapacity).trans h.pidCapacity
      used := fun p => ?_
      records := fun p => by rw [hrecord, h.records p]
      children := ?_
      signals := ?_ }
  · have hnotLive : v.table.contains pid = false := by rw [View.get?_iff_mem, hnew, Option.isSome_none]
    rw [hisUsed', hisUsed]
    by_cases hp : pid = p
    · simp [← hp, hnotLive]
    · simpa [hp] using h.used p
  · have hlists : ({ s.roster with pool := q } : Roster space).childListOf = s.roster.childListOf := by
      unfold Roster.childListOf
      rw [hrecord]
    rw [hlists]
    exact h.children
  · have hqueues : ({ s.roster with pool := q } : Roster space).signalQueueOf =
        s.roster.signalQueueOf := by
      unfold Roster.signalQueueOf
      rw [hrecord]
    rw [hqueues]
    exact h.signals

end Supervisor

end Uniprocessor
