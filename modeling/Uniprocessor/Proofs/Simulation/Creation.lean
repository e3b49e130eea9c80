import Uniprocessor.Supervisor.Creation
import Uniprocessor.Proofs.Simulation.Teardown

/-!
# Creating and linking processes, seen from the view

A new process takes an identifier, a record and a link, and gives back what it has when one of
them is refused. In the view the process is there with all it needs, or nothing has happened.
-/

namespace Uniprocessor

namespace Supervisor

variable {μ space : Type} {s : Supervisor μ space} {v : View μ space}
  (memory : MemoryService μ space)

/-! ### Links -/

lemma Shows.run_appendChild_of_shortage (h : s.Shows v) {parent : Nat} {p : ProcessView space}
    (hp : v.table[parent]? = some p) (child : Pid) {e : IssueError}
    (hshort : Pool.shortage? s.links.capacity s.links.storage s.links.size = some e) :
    ∃ notices : List Notice, (appendChild parent child : Action space (Supervisor μ space) Unit).run s =
      ⟨.error (.error (.ofPool .childLink e)), s, notices.map .notice⟩ := by
  obtain ⟨record, hget, -⟩ := h.get?_of_table hp
  refine ⟨s.links.issueNotices, ?_⟩
  rw [appendChild, Action.run_bind_quiet (Action.run_get s), hget,
    Action.run_bind_quiet (Action.run_ofOption_some _ record s), Action.run_bind, Action.run_noteAll,
    Children.push_eq_error_iff.mpr (h.children.wellFormed.issue_eq_error_iff.mpr hshort)]
  simp

lemma Shows.run_appendChild (h : s.Shows v) {parent : Nat} {p : ProcessView space}
    (hp : v.table[parent]? = some p) (child : Pid)
    (hshort : Pool.shortage? s.links.capacity s.links.storage s.links.size = none) :
    ∃ (s' : Supervisor μ space) (notices : List Notice),
      (appendChild parent child : Action space (Supervisor μ space) Unit).run s =
        ⟨.ok (), s', notices.map .notice⟩ ∧ s'.Shows (v.adopt parent child) := by
  obtain ⟨record, hget, -⟩ := h.get?_of_table hp
  obtain ⟨l, links, hpush, hsetup, hfamily⟩ := Children.Family.push h.children parent child hshort
  rw [Roster.childListOf_eq hget] at hpush
  rw [View.childrenOf_eq hp] at hfamily
  have hlinked := (h.relink hp hfamily hsetup).amend child (f := ({ · with parent := some parent }))
    (g := ({ · with parent := some parent })) fun _ _ _ => rfl
  have hrun : (appendChild parent child : Action space (Supervisor μ space) Unit).run s = ⟨.ok (),
      { s with
        links := links
        roster := (s.roster.modify parent ({ · with children := l })).modify child
          ({ · with parent := some parent }) },
      s.links.issueNotices.map .notice⟩ := by
    rw [appendChild, Action.run_bind_quiet (Action.run_get s), hget,
      Action.run_bind_quiet (Action.run_ofOption_some _ record s), Action.run_bind,
      Action.run_noteAll, hpush]
    simp
  refine ⟨_, _, hrun, ?_⟩
  rw [View.adopt, View.update_congr (f := fun p => { p with children := p.children ++ [child] })
    (g := ({ · with children := p.children ++ [child] })) hp rfl]
  exact hlinked

theorem refines_appendChild (parent child : Pid) :
    Refines Shows Eq (appendChild parent child : Action space (Supervisor μ space) Unit)
      (View.appendChild parent child) := by
  intro s v h
  unfold View.appendChild
  rw [Action.run_bind_quiet (Action.run_get v), View.get?_iff_mem]
  cases hp : v.table[parent]? with
  | none =>
    rw [appendChild, Action.run_bind_quiet (Action.run_get s), h.get?_of_table_none hp]
    exact .fault _ h rfl
  | some p =>
    simp only [Option.isSome_some, Bool.not_true, Bool.false_eq_true, if_false]
    rw [h.linkShortage?_eq]
    cases hshort : Pool.shortage? s.links.capacity s.links.storage s.links.size with
    | some e =>
      obtain ⟨notices, hrun⟩ := h.run_appendChild_of_shortage hp child hshort
      rw [hrun]
      exact .fault _ h (by simp)
    | none =>
      obtain ⟨s', notices, hrun, hshows⟩ := h.run_appendChild hp child hshort
      rw [hrun]
      exact .ok rfl hshows (by simp)

theorem refines_addChild (parent child : Pid) :
    Refines Shows Eq (addChild parent child : Action space (Supervisor μ space) Unit)
      (View.addChild parent child) := by
  refine (refines_require parent).bind fun _ _ _ => (refines_require child).bind fun _ _ _ => ?_
  split
  · exact Refines.fail_bind _
  · refine Refines.get_bind fun s v h => ?_
    dsimp only
    rw [h.parentOf_eq, h.lineage_eq]
    split
    · exact Refines.fail_bind _
    · split
      · exact Refines.fail_bind _
      · exact refines_appendChild parent child

/-! ### Creating -/

/-- A process that joins and leaves again has not been there. -/
lemma View.drop_enroll {pid : Nat} (hnew : v.table[pid]? = none) (hrunning : v.running ≠ some pid)
    (entry : UInt64) : (v.enroll pid entry).drop pid = v := by
  refine View.ext_get? rfl rfl (fun q => ?_) (if_neg hrunning) rfl
  rw [View.get?_drop, View.get?_enroll]
  split
  · rename_i hq
    rw [hq, hnew]
  · rfl

/-- Without a free identifier nothing changes. -/
lemma run_takePid_none (h : s.Shows v) (hfree : v.freePid? = none) :
    ∃ (s' : Supervisor μ space) (notices : List Notice),
      (takePid : Action space (Supervisor μ space) Pid).run s =
        ⟨.error (.error (.exhausted .pid)), s', notices.map .notice⟩ ∧ s'.Shows v := by
  rw [← h.next?_eq] at hfree
  obtain ⟨b, hallocate, hb, hcapacity, hisUsed⟩ := h.pids.allocate_none hfree
  refine ⟨{ s with pids := b }, s.pids.allocateNotices, ?_, ?_⟩
  · rw [takePid, Action.run_bind_quiet (Action.run_get s), Action.run_bind, Action.run_noteAll,
      hallocate]
    dsimp only
    rw [Action.run_bind_quiet (Action.run_set _ _)]
    simp [Action.ofOption]
  · exact { h with
      pids := hb
      pidCapacity := hcapacity.trans h.pidCapacity
      used := fun q => by rw [h.used q, hisUsed q] }

/-- A free identifier is taken together with a record, or given back for want of one. -/
lemma agree_take {α : Type} (h : s.Shows v) {pid : Nat} (hfree : v.freePid? = some pid) (entry : UInt64)
    {f : Pid → Action space (Supervisor μ space) α} {g : Unit → Action space (View μ space) α}
    (hnext : ∀ s' : Supervisor μ space, s'.Shows (v.enroll pid entry) → s'.links = s.links →
      Agree Shows Eq ((f pid).run s') ((g ()).run v)) :
    Agree Shows Eq ((do
      let pid ← takePid
      takeRecord pid
      amend pid fun p => { p with entry := entry, context := { p.context with rip := entry } }
      f pid : Action space (Supervisor μ space) α).run s)
      ((View.refuseFor .processSlot v.processShortage? >>= g).run v) := by
  have hpids : ∀ {b : PidSpace} {x : Pid → Action space (Supervisor μ space) α},
      s.pids.allocate = (some pid, b) →
      Agree Shows Eq ((x pid).run { s with pids := b })
        ((View.refuseFor .processSlot v.processShortage? >>= g).run v) →
      Agree Shows Eq ((takePid >>= x).run s)
        ((View.refuseFor .processSlot v.processShortage? >>= g).run v) := by
    intro b x hallocate hrest
    rw [takePid, bind_assoc, Action.run_bind_quiet (Action.run_get s), bind_assoc]
    apply Agree.noteAll
    rw [hallocate]
    dsimp only
    rw [bind_assoc, Action.run_bind_quiet (Action.run_set _ _),
      Action.run_bind_quiet (Action.run_ofOption_some _ pid _)]
    exact hrest
  cases hshort : v.processShortage? with
  | some e =>
    obtain ⟨b, r, hallocate, hinsert, hshows⟩ := h.enroll_of_shortage hfree hshort
    rw [hshort] at hpids
    apply hpids hallocate
    rw [takeRecord, bind_assoc, Action.run_bind_quiet (Action.run_get _), bind_assoc]
    apply Agree.noteAll
    dsimp only
    rw [hinsert, bind_assoc, Action.run_bind_quiet (Action.run_set _ _)]
    dsimp only
    rw [bind_assoc]
    apply Agree.note
    rw [bind_assoc]
    exact agree_releasePid (.fault _ hshows rfl)
  | none =>
    obtain ⟨b, slot, r, hallocate, hinsert, hshows⟩ := h.enroll hfree hshort entry
    rw [hshort] at hpids
    apply hpids hallocate
    rw [takeRecord, bind_assoc, Action.run_bind_quiet (Action.run_get _), bind_assoc]
    apply Agree.noteAll
    dsimp only
    rw [hinsert, bind_assoc, Action.run_bind_quiet (Action.run_set _ _)]
    dsimp only
    rw [pure_bind, amend, Action.run_bind_quiet (Action.run_modify _ _)]
    exact hnext _ hshows rfl

/-- A new process is linked below its parent, or leaves again. -/
lemma agree_adopt (h : s.Shows v) {pid parent : Nat} {p : ProcessView space} {entry : UInt64}
    (hnew : v.table[pid]? = none) (hp : v.table[parent]? = some p)
    {s' : Supervisor μ space} (hs' : s'.Shows (v.enroll pid entry)) (hlinks : s'.links = s.links) :
    Agree Shows Eq ((adopt parent pid : Action space (Supervisor μ space) Unit).run s')
      ((do
        View.refuseFor .childLink v.linkShortage?
        set ((v.enroll pid entry).adopt parent pid) : Action space (View μ space) Unit).run v) := by
  have hne : parent ≠ pid := by
    rintro rfl
    rw [hnew] at hp
    cases hp
  have hp' : (v.enroll pid entry).table[parent]? = some p := by
    rw [View.get?_enroll, if_neg hne, hp]
  rw [h.linkShortage?_eq, ← hlinks, adopt]
  cases hshort : Pool.shortage? s'.links.capacity s'.links.storage s'.links.size with
  | some e =>
    obtain ⟨notices, hrun⟩ := hs'.run_appendChild_of_shortage hp' pid hshort
    have hborn : (v.enroll pid entry).table[pid]? = some (.fresh entry) := by simp
    have hback := hs'.drop hborn rfl rfl
    rw [View.drop_enroll hnew] at hback
    · apply Agree.bind_left (Action.run_attempt_error hrun)
      exact agree_dropRecord (agree_releasePid (.fault _ hback rfl))
    · intro hrunning
      have hlive := h.live pid hrunning
      rw [View.get?_iff_mem, hnew] at hlive
      cases hlive
  | none =>
    obtain ⟨t, notices, hrun, hshows⟩ := hs'.run_appendChild hp' pid hshort
    exact Agree.bind_left (Action.run_attempt_ok hrun) (.ok rfl hshows rfl)

/-- Creating a process once the parent is known to be live. -/
lemma agree_create (h : s.Shows v) (parent : Option Pid) (entry : UInt64)
    (hparent : ∀ q ∈ parent, ∃ p, v.table[q]? = some p) :
    Agree Shows Eq
      ((do
        if (← get).roster.isFull then .fail (.exhausted .processSlot)
        let pid ← takePid
        takeRecord pid
        amend pid fun p => { p with entry := entry, context := { p.context with rip := entry } }
        match parent with
        | some parent => adopt parent pid
        | none => pure ()
        .note (.created pid parent entry)
        return pid : Action space (Supervisor μ space) Pid).run s)
      ((do
        let v ← get
        if v.processCapacity ≤ v.table.size then .fail (.exhausted .processSlot)
        match v.freePid? with
        | none => .fail (.exhausted .pid)
        | some pid =>
          View.refuseFor .processSlot v.processShortage?
          match parent with
          | none =>
            set (v.enroll pid entry)
            return pid
          | some parent =>
            View.refuseFor .childLink v.linkShortage?
            set ((v.enroll pid entry).adopt parent pid)
            return pid : Action space (View μ space) Pid).run v) := by
  have hfull : s.roster.isFull = true ↔ v.processCapacity ≤ v.table.size := by
    rw [Roster.isFull, Pool.isFull, decide_eq_true_eq, h.capacity, h.roster.pool_size,
      ← h.roster.size_eq, ← h.size_eq, View.processCapacity, h.limits]
  rw [Action.run_bind_quiet (Action.run_get s), Action.run_bind_quiet (Action.run_get v)]
  dsimp only
  by_cases hroom : v.processCapacity ≤ v.table.size
  · rw [if_pos hroom, if_pos (hfull.mpr hroom)]
    exact Refines.fail_bind _ s v h
  rw [if_neg hroom, if_neg fun hf => hroom (hfull.mp hf)]
  cases hfree : v.freePid? with
  | none =>
    obtain ⟨s', notices, hrun, hshows⟩ := run_takePid_none h hfree
    rw [Action.run_bind_error hrun]
    exact .fault _ hshows (by simp)
  | some pid =>
    refine agree_take h hfree entry fun s' hs' hlinks => ?_
    cases parent with
    | none => exact Agree.note (.ok rfl hs' rfl)
    | some parent =>
      obtain ⟨p, hp⟩ := hparent parent rfl
      have hadopt := agree_adopt h (View.get?_of_freePid? hfree) hp hs' hlinks
      have hlinked := hadopt.bind (f := fun _ => do
          Action.note (.created pid (some parent) entry); return pid)
        (g := fun _ => pure pid) fun _ _ _ _ _ hs => Agree.note (.ok (R := Eq) rfl hs rfl)
      rwa [bind_assoc] at hlinked

theorem refines_create (parent : Option Pid) (entry : UInt64) :
    Refines Shows Eq (create parent entry : Action space (Supervisor μ space) Pid)
      (View.create parent entry) := by
  intro s v h
  cases parent with
  | none => exact agree_create h none entry (by simp)
  | some parent =>
    unfold create View.create
    dsimp only
    cases hcheck : v.check parent with
    | error e =>
      rw [Action.run_bind_error (run_require ((h.check_eq parent).trans hcheck)),
        Action.run_bind_error (View.run_require hcheck)]
      exact .fault _ h rfl
    | ok _ =>
      rw [Action.run_bind_quiet (run_require ((h.check_eq parent).trans hcheck)),
        Action.run_bind_quiet (View.run_require hcheck)]
      refine agree_create h (some parent) entry fun q hq => ?_
      rw [← Option.some_injective _ hq]
      exact View.get?_of_check hcheck

/-! ### Cloning -/

theorem refines_clone (source : Pid) :
    Refines Shows Eq (clone memory source) (View.clone memory source) := by
  refine (refines_find source).bind fun record p hview => ?_
  have hspace : record.space = p.space := by rw [← hview]; rfl
  rw [hspace]
  cases p.space with
  | none => exact Refines.fail _
  | some held =>
    refine Refines.get_bind fun s v h => ?_
    have hcurrent : s.currentInstruction source record = v.currentInstruction source p := by
      rw [currentInstruction, View.currentInstruction, h.running, h.active, ← hview]
      rfl
    rw [hcurrent]
    apply (refines_create (some source) _).bind
    rintro pid _ rfl
    apply (refines_cloneSpace memory held true).bind
    rintro answer _ rfl
    cases answer with
    | ok copy =>
      exact (refines_amend pid fun _ _ _ => rfl).bind fun _ _ _ => Refines.note (Refines.pure rfl)
    | error e =>
      exact Refines.note ((refines_destroy memory pid false).bind fun _ _ _ => Refines.fail _)

end Supervisor

end Uniprocessor
