import Uniprocessor.Proofs.Correspondence

/-!
# Supervisors do what their views do

Every operation on a supervisor refines the operation of the same name on its view. The
operations that touch the pools are compared step by step; the others, which are made of them,
follow because refinements compose.
-/

namespace Uniprocessor

namespace Roster

variable {space : Type} {r : Roster space} {pid : Pid} {record : ProcessRecord space}

lemma childListOf_eq (h : r.get? pid = some record) : r.childListOf pid = record.children := by
  rw [childListOf, record?, h]
  rfl

lemma signalQueueOf_eq (h : r.get? pid = some record) : r.signalQueueOf pid = record.signals := by
  rw [signalQueueOf, record?, h]
  rfl

end Roster

namespace Supervisor

variable {μ space : Type} {s : Supervisor μ space} {v : View μ space}

/-! ### Queries -/

lemma Shows.check_eq (h : s.Shows v) (pid : Nat) : s.check pid = v.check pid := by
  rw [check, View.check, h.contains_eq, h.limits]

lemma Shows.get?_of_table (h : s.Shows v) {pid : Nat} {p : ProcessView space}
    (hp : v.table[pid]? = some p) :
    ∃ record, s.roster.get? pid = some record ∧ record.view p.children p.signals = p := by
  have hrecords := h.records pid
  rw [hp, View.childrenOf_eq hp, View.signalsOf_eq hp] at hrecords
  obtain ⟨r, hr, hview⟩ := Option.map_eq_some_iff.mp hrecords.symm
  obtain ⟨record, hget, rfl⟩ := Option.map_eq_some_iff.mp hr
  exact ⟨record, hget, hview⟩

lemma Shows.get?_of_table_none (h : s.Shows v) {pid : Nat} (hp : v.table[pid]? = none) :
    s.roster.get? pid = none := by
  have hrecords := h.records pid
  rw [hp] at hrecords
  exact Option.map_eq_none_iff.mp (Option.map_eq_none_iff.mp hrecords.symm)

/-- A lookup finds the same process on both sides, or is refused on both. -/
lemma Shows.lookup (h : s.Shows v) (pid : Nat) :
    (∃ record p, s.lookup pid = .ok record ∧ v.lookup pid = .ok p ∧
      s.roster.get? pid = some record ∧ v.table[pid]? = some p ∧
      record.view p.children p.signals = p) ∨
    ∃ e, s.lookup pid = .error e ∧ v.lookup pid = .error e := by
  unfold Supervisor.lookup View.lookup
  rw [h.check_eq]
  cases v.check pid with
  | error e => exact .inr ⟨e, rfl, rfl⟩
  | ok _ =>
    cases hp : v.table[pid]? with
    | none =>
      rw [h.get?_of_table_none hp]
      exact .inr ⟨.notFound, rfl, rfl⟩
    | some p =>
      obtain ⟨record, hget, hview⟩ := h.get?_of_table hp
      rw [hget]
      exact .inl ⟨record, p, rfl, rfl, rfl, rfl, hview⟩

lemma Shows.parentOf_eq (h : s.Shows v) (pid : Nat) : s.roster.parentOf pid = v.parentOf pid := by
  rw [Roster.parentOf, View.parentOf]
  cases hp : v.table[pid]? with
  | none => rw [h.get?_of_table_none hp]; rfl
  | some p =>
    obtain ⟨record, hget, hview⟩ := h.get?_of_table hp
    rw [hget, Option.bind_some, Option.bind_some, ← hview]
    rfl

lemma Shows.lineage_eq (h : s.Shows v) (pid : Nat) : s.roster.lineage pid = v.lineage pid := by
  have hwithin : ∀ fuel start, s.roster.lineageWithin fuel start = v.lineageWithin fuel start := by
    intro fuel
    induction fuel with
    | zero => exact fun _ => rfl
    | succ fuel ih =>
      intro start
      cases start with
      | none => rfl
      | some q => rw [Roster.lineageWithin, View.lineageWithin, h.parentOf_eq, ih]
  rw [Roster.lineage, View.lineage, h.size_eq, hwithin]

lemma Shows.linkCount_eq (h : s.Shows v) : v.linkCount = s.links.size := by
  refine h.children.size_eq (v.keys_nodup) fun pid hpid => ?_
  rw [Std.ExtTreeMap.mem_keys, ← Std.ExtTreeMap.contains_iff_mem, View.get?_iff_mem,
    Option.not_isSome_iff_eq_none] at hpid
  simp [View.childrenOf, hpid]

lemma Shows.signalCount_eq (h : s.Shows v) : v.signalCount = s.signals.size := by
  refine h.signals.size_eq (v.keys_nodup) fun pid hpid => ?_
  rw [Std.ExtTreeMap.mem_keys, ← Std.ExtTreeMap.contains_iff_mem, View.get?_iff_mem,
    Option.not_isSome_iff_eq_none] at hpid
  simp [View.signalsOf, hpid]

lemma Shows.linkShortage?_eq (h : s.Shows v) :
    v.linkShortage? = Pool.shortage? s.links.capacity s.links.storage s.links.size := by
  rw [View.linkShortage?, View.linkCapacity, h.limits, ← h.linkCapacity, h.room, h.linkCount_eq]
  exact Pool.shortage?_min_capacity _ _ _

lemma Shows.signalShortage?_eq (h : s.Shows v) :
    v.signalShortage? = Pool.shortage? s.signals.capacity s.signals.storage s.signals.size := by
  rw [View.signalShortage?, View.signalCapacity, h.limits, ← h.signalCapacity, h.room, h.signalCount_eq]
  exact Pool.shortage?_min_capacity _ _ _

lemma refines_require (pid : Pid) :
    Refines Shows Eq (require pid : Action space (Supervisor μ space) Unit) (View.require pid) :=
  Refines.get_bind fun s v h => by
    rw [h.check_eq]
    exact Refines.ofExcept _

lemma run_require {pid : Pid} {x : Except Refusal Unit} (h : s.check pid = x) :
    (require pid : Action space (Supervisor μ space) Unit).run s = ⟨x.mapError .error, s, []⟩ := by
  rw [require, Action.run_bind_quiet (Action.run_get s), h]
  cases x <;> rfl

/-- The record that is found has the view that is found. -/
lemma refines_find (pid : Pid) :
    Refines Shows (fun record p => record.view p.children p.signals = p)
      (find pid : Action space (Supervisor μ space) (ProcessRecord space)) (View.find pid) :=
  Refines.get_bind fun s v h => by
    rcases h.lookup pid with ⟨record, p, hs, hv, -, -, hview⟩ | ⟨e, hs, hv⟩
    · rw [hs, hv]
      exact Refines.pure hview
    · rw [hs, hv]
      exact Refines.fail e

/-! ### Operations on one process -/

lemma refines_amend (pid : Pid) {f : ProcessRecord space → ProcessRecord space}
    {g : ProcessView space → ProcessView space}
    (hview : ∀ p cs ss, (f p).view cs ss = g (p.view cs ss))
    (hchildren : ∀ p, (f p).children = p.children := by intro _; rfl)
    (hsignals : ∀ p, (f p).signals = p.signals := by intro _; rfl)
    (hpid : ∀ p, (f p).pid = p.pid := by intro _; rfl)
    (hnext : ∀ p, (f p).next = p.next := by intro _; rfl)
    (hbare : ∀ p, (f p).unchained = f p.unchained := by intro _; rfl) :
    Refines Shows Eq (amend pid f : Action space (Supervisor μ space) Unit) (View.amend pid g) :=
  Refines.update fun _ _ h => h.amend pid hview hchildren hsignals hpid hnext hbare

/-! ### Changes of state -/

lemma Shows.vacate (h : s.Shows v) (pid : Nat) :
    { s with roster := s.roster.vacate pid }.Shows (v.vacate pid) := by
  rw [Roster.vacate, View.vacate, h.running]
  cases s.roster.running with
  | none => exact h
  | some runner =>
    dsimp only
    split
    · exact h
    · refine h.amend runner fun p cs ss => ?_
      rw [h.active]
      rfl

lemma Shows.dispatch (h : s.Shows v) (pid : Nat) :
    { s with roster := s.roster.dispatch pid }.Shows (v.dispatch pid) := by
  have hvacate := h.vacate pid
  rw [Roster.dispatch, View.dispatch]
  cases hp : (v.vacate pid).table[pid]? with
  | none =>
    rw [hvacate.get?_of_table_none hp]
    exact hvacate.withRunning none (by simp)
  | some p =>
    obtain ⟨record, hget, hview⟩ := hvacate.get?_of_table hp
    have hcontext : record.context = p.context := by rw [← hview]; rfl
    rw [hget]
    dsimp only
    rw [hcontext]
    refine (hvacate.withActive p.context).withRunning (some pid) fun q hq => ?_
    rw [← Option.some_injective _ hq, View.get?_iff_mem]
    exact congrArg Option.isSome hp

lemma Shows.suspend (h : s.Shows v) (pid : Nat) :
    { s with roster := s.roster.suspend pid }.Shows (v.suspend pid) := by
  rw [Roster.suspend, View.suspend, h.running, h.active]
  split
  · exact (h.amend pid fun _ _ _ => rfl).withRunning none (by simp)
  · exact h

lemma Shows.enter (h : s.Shows v) (pid : Nat) (state : ProcessState) :
    { s with roster := s.roster.enter pid state }.Shows (v.enter pid state) := by
  rw [Roster.enter, View.enter]
  split
  · exact (h.dispatch pid).amend pid fun _ _ _ => rfl
  · exact (h.suspend pid).amend pid fun _ _ _ => rfl

lemma refines_requestState (pid : Pid) (state : ProcessState) :
    Refines Shows Eq
      (onRoster (Roster.changeState pid state) : Action space (Supervisor μ space) (Option Bool))
      (View.requestState pid state) := by
  intro s v h
  rw [onRoster, Action.run_within, Roster.changeState, View.requestState]
  simp only [Action.run_bind, Action.run_get]
  cases hp : v.table[pid]? with
  | none =>
    rw [h.get?_of_table_none hp]
    exact .ok rfl h rfl
  | some p =>
    obtain ⟨record, hget, hview⟩ := h.get?_of_table hp
    have hcan : record.canEnter state = p.canEnter state := by rw [← hview]; rfl
    have hstate : record.state = p.state := by rw [← hview]; rfl
    have hpolicy : s.roster.policy = v.limits.policy := by rw [h.policy, h.limits]
    rw [hget]
    dsimp only
    rw [hcan, hstate, hpolicy]
    split
    · exact .ok rfl (h.enter pid state) rfl
    · cases v.limits.policy with
      | lenient => exact .ok rfl h rfl
      | strict => exact .fault _ h rfl

lemma refines_ofOption {α : Type} (e : Refusal) (x : Option α) :
    Refines Shows Eq (.ofOption e x : Action space (Supervisor μ space) α)
      (.ofOption e x : Action space (View μ space) α) := by
  cases x with
  | none => exact Refines.fail e
  | some a => exact Refines.pure rfl

theorem refines_changeState (pid : Pid) (state : ProcessState) :
    Refines Shows Eq (changeState pid state : Action space (Supervisor μ space) Bool)
      (View.changeState pid state) := by
  refine (refines_require pid).bind fun _ _ _ => (refines_requestState pid state).bind ?_
  rintro answer _ rfl
  exact refines_ofOption _ _

theorem refines_exit (pid : Pid) (status : Int32) :
    Refines Shows Eq (exit pid status : Action space (Supervisor μ space) Unit)
      (View.exit pid status) := by
  apply (refines_changeState pid .terminated).bind
  rintro changed _ rfl
  cases changed with
  | false => exact Refines.pure rfl
  | true =>
    rw [if_pos rfl, if_pos rfl]
    exact (refines_amend pid fun _ _ _ => rfl).note_last

theorem refines_setInSystemCall (pid : Pid) (on : Bool) :
    Refines Shows Eq (setInSystemCall pid on : Action space (Supervisor μ space) Unit)
      (View.setInSystemCall pid on) := by
  refine (refines_require pid).bind fun _ _ _ => Refines.update fun s v h => ?_
  by_cases hrunning : s.roster.running = some pid
  · rw [if_pos hrunning, if_pos (h.running.trans hrunning), h.active]
    exact h.withActive _
  · rw [if_neg hrunning, if_neg fun heq => hrunning (h.running.symm.trans heq)]
    exact h.amend pid fun _ _ _ => rfl

theorem refines_writeActive (writes : List (Register × UInt64)) :
    Refines Shows Eq (writeActive writes : Action space (Supervisor μ space) Unit)
      (View.writeActive writes) := by
  refine Refines.update fun s v h => ?_
  rw [h.active]
  exact h.withActive _

lemma run_find_ok {pid : Pid} {record : ProcessRecord space} (h : s.lookup pid = .ok record) :
    (find pid : Action space (Supervisor μ space) _).run s = ⟨.ok record, s, []⟩ := by
  simp only [find, Action.run_bind, Action.run_get, h]
  rfl

lemma run_find_error {pid : Pid} {e : Refusal} (h : s.lookup pid = .error e) :
    (find pid : Action space (Supervisor μ space) _).run s = ⟨.error (.error e), s, []⟩ := by
  simp only [find, Action.run_bind, Action.run_get, h]
  rfl

theorem refines_postSignal (pid : Pid) (signo : UInt8) :
    Refines Shows Eq (postSignal pid signo : Action space (Supervisor μ space) Unit)
      (View.postSignal pid signo) := by
  intro s v h
  unfold postSignal View.postSignal
  cases isSignal signo with
  | false => exact Refines.fail _ s v h
  | true =>
    simp only [Bool.not_true, Bool.false_eq_true, if_false]
    rcases h.lookup pid with ⟨record, p, hs, hv, hget, hp, -⟩ | ⟨e, hs, hv⟩
    · rw [Action.run_bind_quiet (run_find_ok hs), Action.run_bind_quiet (Action.run_get s),
        Action.run_bind_quiet (View.run_find_ok hv), Action.run_bind_quiet (Action.run_get v),
        h.signalShortage?_eq]
      apply Agree.noteAll
      cases hshort : Pool.shortage? s.signals.capacity s.signals.storage s.signals.size with
      | some e =>
        have hissue := h.signals.wellFormed.issue_eq_error_iff.mpr hshort
        rw [PendingSignals.push_eq_error_iff.mpr hissue]
        exact Agree.note (.fault _ h rfl)
      | none =>
        obtain ⟨q, r, hpush, hsetup, hfamily⟩ := PendingSignals.Family.push h.signals pid signo hshort
        rw [Roster.signalQueueOf_eq hget] at hpush
        rw [View.signalsOf_eq hp] at hfamily
        rw [hpush]
        have hshows := h.requeue hp hfamily hsetup
        have hupdate : v.update pid (fun p => { p with signals := p.signals ++ [signo] }) =
            v.update pid ({ · with signals := p.signals ++ [signo] }) := View.update_congr hp rfl
        rw [hupdate]
        exact .ok rfl hshows rfl
    · rw [Action.run_bind_error (run_find_error hs), Action.run_bind_error (View.run_find_error hv)]
      exact .fault _ h rfl

end Supervisor

end Uniprocessor
