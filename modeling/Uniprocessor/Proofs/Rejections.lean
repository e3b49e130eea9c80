import Uniprocessor.Proofs.Policies

/-!
# Rejected changes of state

What the supervisor and the dispatcher do comes to the same under the strict policy and under the
lenient one, up to the first change of state that the life cycle does not allow. Only a request for a
change of state can meet such a change: a process that exits, one that is given memory and one that is
given the processor.
-/

namespace Uniprocessor

open Uniprocessor.Action Governed

variable {μ space κ α : Type}

/-! ### Notices of other kinds -/

section

variable {pid : Pid} {before after : ProcessState}

lemma Pool.changeIgnored_not_mem_issueNotices (p : Pool α) :
    .changeIgnored pid before after ∉ p.issueNotices := by
  unfold Pool.issueNotices
  split <;> simp

lemma Pool.changeIgnored_not_mem_releaseNotices (p : Pool α) (id : Handle) :
    .changeIgnored pid before after ∉ p.releaseNotices id := by
  unfold Pool.releaseNotices
  split <;> simp

lemma PendingSignals.changeIgnored_not_mem_clearNotices (q : PendingSignals) (pool : Pool SignalEntry) :
    .changeIgnored pid before after ∉ q.clearNotices pool := by
  simp [clearNotices, Pool.changeIgnored_not_mem_releaseNotices]

lemma PidSpace.changeIgnored_not_mem_allocateNotices (a : PidSpace) :
    .changeIgnored pid before after ∉ a.allocateNotices := by
  unfold allocateNotices
  split <;> simp

lemma PidSpace.changeIgnored_not_mem_releaseNotices (a : PidSpace) (released : Pid) :
    .changeIgnored pid before after ∉ a.releaseNotices released := by
  unfold releaseNotices
  split <;> simp

lemma Roster.changeIgnored_not_mem_removeNotices (r : Roster space) (removed : Pid) :
    .changeIgnored pid before after ∉ r.removeNotices removed := by
  unfold removeNotices
  split
  · simp
  · exact Pool.changeIgnored_not_mem_releaseNotices _ _

end

namespace Roster

variable (policy : Strictness) (r : Roster space) (pid : Pid)

@[simp]
lemma pool_under : (under policy r).pool = r.pool := rfl

@[simp]
lemma index_under : (under policy r).index = r.index := rfl

@[simp]
lemma head_under : (under policy r).head = r.head := rfl

@[simp]
lemma running_under : (under policy r).running = r.running := rfl

@[simp]
lemma entries_under : (under policy r).entries = r.entries := rfl

@[simp]
lemma isFull_under : (under policy r).isFull = r.isFull := rfl

@[simp]
lemma parentOf_under : (under policy r).parentOf pid = r.parentOf pid := rfl

@[simp]
lemma get?_under : (under policy r).get? pid = r.get? pid := rfl

@[simp]
lemma modify_under (f : ProcessRecord space → ProcessRecord space) :
    (under policy r).modify pid f = under policy (r.modify pid f) := by
  unfold modify
  rw [index_under]
  cases r.index[pid]? <;> rfl

@[simp]
lemma lineage_under : (under policy r).lineage pid = r.lineage pid := by
  have hwithin : ∀ fuel start, (under policy r).lineageWithin fuel start = r.lineageWithin fuel start := by
    intro fuel
    induction fuel with
    | zero => exact fun _ => rfl
    | succ fuel ih =>
      intro start
      cases start with
      | none => rfl
      | some pid => exact congrArg (pid :: ·) (ih _)
  exact hwithin (r.size + 1) (some pid)

lemma vacate_under : (under policy r).vacate pid = under policy (r.vacate pid) := by
  unfold vacate
  rw [running_under]
  cases r.running with
  | none => rfl
  | some runner =>
    dsimp only
    split
    · rfl
    · exact modify_under policy r runner _

lemma dispatch_under : (under policy r).dispatch pid = under policy (r.dispatch pid) := by
  unfold dispatch
  rw [vacate_under, get?_under]
  cases (r.vacate pid).get? pid <;> rfl

lemma suspend_under : (under policy r).suspend pid = under policy (r.suspend pid) := by
  unfold suspend
  rw [running_under, modify_under]
  split <;> rfl

@[simp]
lemma enter_under (state : ProcessState) :
    (under policy r).enter pid state = under policy (r.enter pid state) := by
  unfold enter
  rw [dispatch_under, suspend_under]
  split <;> exact modify_under _ _ _ _

lemma attach_under (before slot : Option Handle) :
    (under policy r).attach before slot = under policy (r.attach before slot) := by
  unfold attach
  rw [pool_under]
  cases before.filter r.pool.contains <;> rfl

lemma enlist_under (slot : Handle) (q : Pool (ProcessRecord space)) :
    (under policy r).enlist pid slot q = under policy (r.enlist pid slot q) := by
  unfold enlist
  rw [entries_under, head_under, index_under, ← attach_under]
  rfl

@[simp]
lemma insert_under :
    (under policy r).insert pid = ((r.insert pid).1, under policy (r.insert pid).2) := by
  have hroom : (under policy r).indexStorage = r.indexStorage := rfl
  unfold insert
  rw [pool_under, index_under, hroom]
  cases r.pool.issue with
  | error e => rfl
  | ok issued =>
    dsimp only
    rw [enlist_under]
    split <;> rfl

@[simp]
lemma remove_under :
    (under policy r).remove pid = ((r.remove pid).1, under policy (r.remove pid).2) := by
  unfold remove
  rw [index_under]
  cases r.index[pid]? with
  | none => rfl
  | some slot =>
    dsimp only
    rw [attach_under]
    rfl

variable {rejects : Prop}

/-- The one place where the policy counts. -/
lemma tallies_changeState (state : ProcessState) :
    Tallies True (changeState pid state : Action space (Roster space) (Option Bool))
      (changeState pid state) := by
  refine .get_bind fun r => ?_
  simp only [get?_under]
  cases r.get? pid with
  | none => exact .pure none
  | some record =>
    dsimp only
    by_cases hcan : record.canEnter state = true
    · simp only [if_pos hcan, enter_under]
      exact (Tallies.set _).bind fun _ => (Tallies.note (by simp)).bind fun _ => .pure _
    · simp only [if_neg hcan]
      exact fun s => .rejected (s := s) (t := s) trivial nofun rfl rfl

end Roster

namespace Supervisor

section

variable (policy : Strictness) (s : Supervisor μ space) (pid : Pid)

@[simp]
lemma pids_under : (under policy s).pids = s.pids := rfl

@[simp]
lemma roster_under : (under policy s).roster = under policy s.roster := rfl

@[simp]
lemma links_under : (under policy s).links = s.links := rfl

@[simp]
lemma signals_under : (under policy s).signals = s.signals := rfl

@[simp]
lemma check_under : (under policy s).check pid = s.check pid := rfl

@[simp]
lemma lookup_under : (under policy s).lookup pid = s.lookup pid := rfl

end

variable {rejects : Prop} (memory : MemoryService μ space)

lemma tallies_set (s : Supervisor μ space) (m : μ) (pids : PidSpace) (r : Roster space)
    (links : Pool ChildEntry) (signals : Pool SignalEntry) :
    Tallies rejects
      (set { under .strict s with
        memory := m, pids := pids, roster := under .strict r, links := links, signals := signals } :
        Action space (Supervisor μ space) PUnit)
      (set { under .lenient s with
        memory := m, pids := pids, roster := under .lenient r, links := links, signals := signals }) :=
  .set { s with memory := m, pids := pids, roster := r, links := links, signals := signals }

lemma tallies_require (pid : Pid) :
    Tallies rejects (require pid : Action space (Supervisor μ space) Unit) (require pid) := by
  refine .get_bind fun s => ?_
  simp only [check_under]
  exact .ofExcept _

lemma tallies_find (pid : Pid) :
    Tallies rejects (find pid : Action space (Supervisor μ space) _) (find pid) := by
  refine .get_bind fun s => ?_
  simp only [lookup_under]
  exact .ofExcept _

lemma tallies_amend (pid : Pid) (f : ProcessRecord space → ProcessRecord space) :
    Tallies rejects (amend pid f : Action space (Supervisor μ space) Unit) (amend pid f) := by
  refine .update fun policy s => ?_
  rw [roster_under, Roster.modify_under]
  rfl

lemma tallies_onRoster {x : Action space (Roster space) α} (h : Tallies rejects x x) :
    Tallies rejects (onRoster x : Action space (Supervisor μ space) α) (onRoster x) :=
  h.within (fun _ _ => rfl) fun _ _ _ => rfl

lemma tallies_changeState (pid : Pid) (state : ProcessState) :
    Tallies True (changeState pid state : Action space (Supervisor μ space) Bool)
      (changeState pid state) :=
  (tallies_require pid).bind fun _ =>
    (tallies_onRoster (Roster.tallies_changeState pid state)).bind fun _ => .ofOption _ _

lemma tallies_exit (pid : Pid) (status : Int32) :
    Tallies True (exit pid status : Action space (Supervisor μ space) Unit) (exit pid status) :=
  (tallies_changeState pid .terminated).bind fun _ =>
    .ite ((tallies_amend pid _).bind fun _ => .note (by simp)) (.pure ())

lemma tallies_setInSystemCall (pid : Pid) (on : Bool) :
    Tallies rejects (setInSystemCall pid on : Action space (Supervisor μ space) Unit)
      (setInSystemCall pid on) := by
  refine (tallies_require pid).bind fun _ => .update fun policy s => ?_
  rw [roster_under, Roster.running_under]
  split
  · rfl
  · rw [Roster.modify_under]
    rfl

lemma tallies_writeActive (writes : List (Register × UInt64)) :
    Tallies rejects (writeActive writes : Action space (Supervisor μ space) Unit) (writeActive writes) :=
  .update fun _ _ => rfl

lemma tallies_postSignal (pid : Pid) (signo : UInt8) :
    Tallies rejects (postSignal pid signo : Action space (Supervisor μ space) Unit)
      (postSignal pid signo) := by
  refine .ite (.fail_bind _) ((tallies_find pid).bind fun record => .get_bind fun s => ?_)
  simp only [signals_under]
  refine (Tallies.noteAll fun _ _ _ => Pool.changeIgnored_not_mem_issueNotices _).bind fun _ => ?_
  cases record.signals.push s.signals signo with
  | error e => exact (Tallies.note (by simp)).bind fun _ => .fail _
  | ok pushed =>
    simp only [roster_under, Roster.modify_under]
    exact tallies_set s _ _ _ _ _

/-! ### Calls of the memory service -/

lemma tallies_createSpace :
    Tallies rejects (createSpace memory : Action space (Supervisor μ space) _) (createSpace memory) :=
  .of_run (fun _ _ => rfl) (fun _ _ => nofun) fun _ => rfl

lemma tallies_cloneSpace (source : space) (withContents : Bool) :
    Tallies rejects (cloneSpace memory source withContents : Action space (Supervisor μ space) _)
      (cloneSpace memory source withContents) :=
  .of_run (fun _ _ => rfl) (fun _ _ => nofun) fun _ => rfl

lemma tallies_mapPages (target : space) (count : Nat) :
    Tallies rejects (mapPages memory target count : Action space (Supervisor μ space) _)
      (mapPages memory target count) :=
  .of_run (fun _ _ => rfl) (fun _ _ => nofun) fun _ => rfl

lemma tallies_unmapPages (target : space) (base : UInt64) (count : Nat) :
    Tallies rejects (unmapPages memory target base count : Action space (Supervisor μ space) _)
      (unmapPages memory target base count) :=
  .of_run (fun _ _ => rfl) (fun _ _ => nofun) fun _ => rfl

lemma tallies_destroySpace (target : space) :
    Tallies rejects (destroySpace memory target : Action space (Supervisor μ space) _)
      (destroySpace memory target) :=
  .of_run (fun _ _ => rfl) (fun _ _ => nofun) fun _ => rfl

lemma tallies_rootOf (target : space) :
    Tallies rejects (rootOf memory target : Action space (Supervisor μ space) _) (rootOf memory target) :=
  .of_run (fun _ _ => rfl) (fun _ _ => nofun) fun _ => rfl

/-! ### Destroying -/

lemma tallies_releasePid (pid : Pid) :
    Tallies rejects (releasePid pid : Action space (Supervisor μ space) Unit) (releasePid pid) := by
  refine .get_bind fun s => ?_
  simp only [pids_under]
  exact (Tallies.noteAll fun _ _ _ => PidSpace.changeIgnored_not_mem_releaseNotices _ _).bind fun _ =>
    tallies_set s _ _ _ _ _

lemma tallies_dropRecord (pid : Pid) :
    Tallies rejects (dropRecord pid : Action space (Supervisor μ space) Unit) (dropRecord pid) := by
  refine .get_bind fun s => ?_
  simp only [roster_under, Roster.remove_under]
  exact (Tallies.noteAll fun _ _ _ => Roster.changeIgnored_not_mem_removeNotices s.roster _).bind fun _ =>
    tallies_set s _ _ _ _ _

lemma tallies_unlinkFromParent (pid : Pid) :
    Tallies rejects (unlinkFromParent pid : Action space (Supervisor μ space) Unit)
      (unlinkFromParent pid) := by
  refine .update fun policy s => ?_
  have hparent : (under policy s).roster.parentOf pid = s.roster.parentOf pid := rfl
  rw [hparent]
  cases s.roster.parentOf pid with
  | none => rfl
  | some parent =>
    dsimp only
    rw [roster_under, Roster.get?_under]
    cases s.roster.get? parent with
    | none => rfl
    | some record =>
      dsimp only
      rw [Roster.modify_under]
      rfl

lemma foldl_modify_under (policy : Strictness) (r : Roster space) (pids : List Pid)
    (f : ProcessRecord space → ProcessRecord space) :
    pids.foldl (fun t pid => t.modify pid f) (under policy r) =
      under policy (pids.foldl (fun t pid => t.modify pid f) r) := by
  induction pids generalizing r with
  | nil => rfl
  | cons pid pids ih => rw [List.foldl_cons, List.foldl_cons, Roster.modify_under, ih]

lemma tallies_drainChildren (pid : Pid) :
    Tallies rejects (drainChildren pid : Action space (Supervisor μ space) _) (drainChildren pid) := by
  refine .get_bind fun s => ?_
  simp only [roster_under, Roster.get?_under]
  cases s.roster.get? pid with
  | none => exact .pure _
  | some record =>
    simp only [links_under]
    simp only [Roster.modify_under, foldl_modify_under]
    exact (tallies_set s _ _ _ _ _).bind fun _ => .pure _

lemma tallies_discardSignals (pid : Pid) (record : ProcessRecord space) :
    Tallies rejects (discardSignals pid record : Action space (Supervisor μ space) Unit)
      (discardSignals pid record) := by
  refine .get_bind fun s => ?_
  simp only [signals_under]
  refine (Tallies.noteAll fun _ _ _ =>
    PendingSignals.changeIgnored_not_mem_clearNotices _ _).bind fun _ => ?_
  simp only [roster_under, Roster.modify_under]
  exact (tallies_set s _ _ _ _ _).bind fun _ => .ite (.note (by simp)) (.pure ())

lemma tallies_reclaim (pid : Pid) :
    Tallies rejects (reclaim memory pid : Action space (Supervisor μ space) Unit) (reclaim memory pid) := by
  refine .get_bind fun s => ?_
  simp only [roster_under, Roster.get?_under]
  cases s.roster.get? pid with
  | none => exact .pure ()
  | some record =>
    refine (tallies_discardSignals pid record).bind fun _ => (tallies_amend pid _).bind fun _ =>
      (tallies_dropRecord pid).bind fun _ => ?_
    have hrest : Tallies rejects
        (do releasePid pid; Action.note (.destroyed pid) : Action space (Supervisor μ space) Unit)
        (do releasePid pid; Action.note (.destroyed pid)) :=
      (tallies_releasePid pid).bind fun _ => .note (by simp)
    cases record.space with
    | none => exact hrest
    | some handle => exact (tallies_destroySpace memory handle).bind fun _ => hrest

lemma tallies_destroyAll (cascade : Bool) (fuel : Nat) (pids : List Pid) :
    Tallies rejects (destroyAll memory cascade fuel pids : Action space (Supervisor μ space) Unit)
      (destroyAll memory cascade fuel pids) := by
  induction fuel generalizing pids with
  | zero => exact .pure ()
  | succ fuel ih =>
    cases pids with
    | nil => exact .pure ()
    | cons pid rest =>
      refine (tallies_drainChildren pid).bind fun children => ?_
      cases cascade with
      | true => exact (tallies_reclaim memory pid).bind fun _ => ih _
      | false =>
        exact (Tallies.noteAll (by simp)).bind fun _ => (tallies_reclaim memory pid).bind fun _ => ih _

lemma tallies_destroy (pid : Pid) (cascade : Bool) :
    Tallies rejects (destroy memory pid cascade : Action space (Supervisor μ space) Unit)
      (destroy memory pid cascade) := by
  refine (tallies_require pid).bind fun _ => (tallies_unlinkFromParent pid).bind fun _ =>
    .get_bind fun s => ?_
  simp only [links_under]
  exact tallies_destroyAll memory cascade _ _

/-! ### Creating and linking -/

lemma tallies_takePid :
    Tallies rejects (takePid : Action space (Supervisor μ space) Pid) takePid := by
  refine .get_bind fun s => ?_
  simp only [pids_under]
  exact (Tallies.noteAll fun _ _ _ => PidSpace.changeIgnored_not_mem_allocateNotices _).bind fun _ =>
    (tallies_set s _ _ _ _ _).bind fun _ => .ofOption _ _

lemma tallies_takeRecord (pid : Pid) :
    Tallies rejects (takeRecord pid : Action space (Supervisor μ space) Unit) (takeRecord pid) := by
  refine .get_bind fun s => ?_
  simp only [roster_under, Roster.pool_under, Roster.insert_under]
  refine (Tallies.noteAll fun _ _ _ => Pool.changeIgnored_not_mem_issueNotices _).bind fun _ => ?_
  refine (tallies_set s _ _ _ _ _).bind fun _ => ?_
  cases (s.roster.insert pid).1 with
  | ok slot => exact .pure ()
  | error e =>
    exact (Tallies.note (by simp)).bind fun _ => (tallies_releasePid pid).bind fun _ => .fail _

lemma tallies_appendChild (parent child : Pid) :
    Tallies rejects (appendChild parent child : Action space (Supervisor μ space) Unit)
      (appendChild parent child) := by
  refine .get_bind fun s => ?_
  simp only [roster_under, Roster.get?_under, links_under]
  refine (Tallies.ofOption _ _).bind fun record =>
    (Tallies.noteAll fun _ _ _ => Pool.changeIgnored_not_mem_issueNotices _).bind fun _ => ?_
  cases record.children.push s.links child with
  | error e => exact .fail _
  | ok pushed =>
    dsimp only
    simp only [Roster.modify_under]
    exact tallies_set s _ _ _ _ _

lemma tallies_adopt (parent pid : Pid) :
    Tallies rejects (adopt parent pid : Action space (Supervisor μ space) Unit) (adopt parent pid) := by
  refine (tallies_appendChild parent pid).attempt.bind fun answer => ?_
  cases answer with
  | ok => exact .pure ()
  | error e => exact (tallies_dropRecord pid).bind fun _ => (tallies_releasePid pid).bind fun _ => .fail e

lemma tallies_create (parent : Option Pid) (entry : UInt64) :
    Tallies rejects (create parent entry : Action space (Supervisor μ space) Pid) (create parent entry) := by
  have hmade : ∀ pid, Tallies rejects
      (do Action.note (.created pid parent entry); return pid : Action space (Supervisor μ space) Pid)
      (do Action.note (.created pid parent entry); return pid) :=
    fun pid => (Tallies.note (by simp)).bind fun _ => .pure pid
  cases parent with
  | none =>
    refine .get_bind fun s => ?_
    simp only [roster_under, Roster.isFull_under]
    exact .ite (.fail_bind _) (tallies_takePid.bind fun pid => (tallies_takeRecord pid).bind fun _ =>
      (tallies_amend pid _).bind fun _ => hmade pid)
  | some parent =>
    refine (tallies_require parent).bind fun _ => .get_bind fun s => ?_
    simp only [roster_under, Roster.isFull_under]
    exact .ite (.fail_bind _) (tallies_takePid.bind fun pid => (tallies_takeRecord pid).bind fun _ =>
      (tallies_amend pid _).bind fun _ => (tallies_adopt parent pid).bind fun _ => hmade pid)

lemma tallies_addChild (parent child : Pid) :
    Tallies rejects (addChild parent child : Action space (Supervisor μ space) Unit)
      (addChild parent child) := by
  refine (tallies_require parent).bind fun _ => (tallies_require child).bind fun _ =>
    .ite (.fail_bind _) (.get_bind fun s => ?_)
  simp only [roster_under, Roster.parentOf_under, Roster.lineage_under]
  exact .ite (.fail_bind _) (.ite (.fail_bind _) (tallies_appendChild parent child))

lemma tallies_clone (source : Pid) :
    Tallies rejects (clone memory source : Action space (Supervisor μ space) Pid) (clone memory source) := by
  refine (tallies_find source).bind fun record => ?_
  cases record.space with
  | none => exact .fail _
  | some held =>
    refine .get_bind fun s => (tallies_create _ _).bind fun pid =>
      (tallies_cloneSpace memory held true).bind fun answer => ?_
    cases answer with
    | ok copy => exact (tallies_amend pid _).bind fun _ => (Tallies.note (by simp)).bind fun _ => .pure pid
    | error e =>
      exact (Tallies.note (by simp)).bind fun _ => (tallies_destroy memory pid false).bind fun _ => .fail _

/-! ### Giving memory -/

lemma tallies_ofAnswer (answer : Except MemoryError α) :
    Tallies rejects (ofAnswer answer : Action space (Supervisor μ space) α) (ofAnswer answer) := by
  cases answer with
  | ok a => exact .pure a
  | error e => exact .fail _

lemma tallies_obtainSpace (pid : Pid) (record : ProcessRecord space) :
    Tallies rejects (obtainSpace memory pid record : Action space (Supervisor μ space) space)
      (obtainSpace memory pid record) := by
  unfold obtainSpace
  cases record.space with
  | some own => exact (tallies_amend pid _).bind fun _ => .pure own
  | none =>
    cases record.parent with
    | none => exact (tallies_createSpace memory).bind fun answer => tallies_ofAnswer answer
    | some parent =>
      refine .get_bind fun s => ?_
      simp only [roster_under, Roster.get?_under]
      cases (s.roster.get? parent).bind (·.space) with
      | none => exact .fail _
      | some inherited =>
        exact (tallies_cloneSpace memory inherited true).bind fun answer => tallies_ofAnswer answer

lemma tallies_giveUp (pid : Pid) (record : ProcessRecord space) (handle : space) (e : MemoryError) :
    Tallies rejects (giveUp memory pid record handle e : Action space (Supervisor μ space) α)
      (giveUp memory pid record handle e) := by
  exact (Tallies.note (by simp)).bind fun _ => .ite ((tallies_amend pid _).bind fun _ => .fail _)
    ((tallies_destroySpace memory handle).bind fun _ => .fail _)

lemma tallies_equip (pid : Pid) (handle : space) (userStack kernelStack : UInt64) :
    Tallies True (equip memory pid handle userStack kernelStack : Action space (Supervisor μ space) Unit)
      (equip memory pid handle userStack kernelStack) :=
  (tallies_rootOf memory handle).bind fun _ => (tallies_amend pid _).bind fun _ =>
    (tallies_onRoster (Roster.tallies_changeState pid .waiting)).bind fun _ => .note (by simp)

lemma tallies_materialize (pid : Pid) :
    Tallies True (materialize memory pid : Action space (Supervisor μ space) Unit)
      (materialize memory pid) := by
  refine (tallies_find pid).bind fun record => .ite (.fail_bind _)
    ((tallies_obtainSpace memory pid record).bind fun handle =>
      (tallies_mapPages memory handle stackPages).bind fun answer => ?_)
  obtain ⟨e | userStack, handle⟩ := answer
  · exact tallies_giveUp memory pid record handle e
  · refine (tallies_mapPages memory handle stackPages).bind fun answer => ?_
    obtain ⟨e | kernelStack, handle⟩ := answer
    · exact (tallies_unmapPages memory handle userStack stackPages).bind fun handle =>
        tallies_giveUp memory pid record handle e
    · exact tallies_equip memory pid handle userStack kernelStack

lemma tallies_materializeEach (pids : List Pid) :
    Tallies True (materializeEach memory pids : Action space (Supervisor μ space) Nat)
      (materializeEach memory pids) := by
  induction pids with
  | nil => exact .pure 0
  | cons pid rest ih =>
    refine (tallies_materialize memory pid).attempt.bind fun answer => ?_
    cases answer with
    | ok => exact ih.bind fun made => .pure (made + 1)
    | error e => exact (Tallies.note (by simp)).bind fun _ => ih

lemma tallies_materializeCreated :
    Tallies True (materializeCreated memory : Action space (Supervisor μ space) Nat)
      (materializeCreated memory) :=
  .get_bind fun s => tallies_materializeEach memory s.createdPids

end Supervisor

namespace Dispatcher

variable {rejects : Prop} (memory : MemoryService μ space)

lemma tallies_onSupervisor {x : Action space (Supervisor μ space) α} (h : Tallies rejects x x) :
    Tallies rejects (onSupervisor x) (onSupervisor x) :=
  h.within (fun _ _ => rfl) fun _ _ _ => rfl

/-- A critical section is an action on the state with interrupts masked. -/
lemma masked_eq_within (x : Action space (Dispatcher μ space) α) :
    masked x = x.within (fun s => { s with interrupts := s.interrupts.enter.2 })
      fun s t => { t with interrupts := t.interrupts.leave s.interrupts.enter.1 } := rfl

lemma tallies_masked {x : Action space (Dispatcher μ space) α} (h : Tallies rejects x x) :
    Tallies rejects (masked x) (masked x) := by
  rw [masked_eq_within]
  exact h.within (fun _ _ => rfl) fun _ _ _ => rfl

lemma tallies_guarded {x : Action space (Supervisor μ space) α} (h : Tallies rejects x x) :
    Tallies rejects (guarded x) (guarded x) :=
  tallies_masked (tallies_onSupervisor h)

lemma tallies_count (f : TickCounters → TickCounters) :
    Tallies rejects (count f : Action space (Dispatcher μ space) Unit) (count f) :=
  .update fun _ _ => rfl

lemma tallies_promote (pid : Pid) :
    Tallies True (promote pid : Action space (Dispatcher μ space) _) (promote pid) := by
  refine (tallies_onSupervisor (Supervisor.tallies_changeState pid .running)).attempt.bind
    fun answer => ?_
  rcases answer with e | changed
  · exact (Tallies.note (by simp)).bind fun _ => .pure _
  · cases changed with
    | false => exact .pure _
    | true =>
      exact (tallies_count _).bind fun _ => .get_bind fun s => (Tallies.note (by simp)).bind fun _ => .pure _

lemma tallies_schedule :
    Tallies True (schedule memory : Action space (Dispatcher μ space) _) (schedule memory) := by
  refine tallies_masked ((tallies_count _).bind fun _ => .get_bind fun s => ?_)
  have hempty : ∀ policy, (under policy s).supervisor.roster.isEmpty = s.supervisor.roster.isEmpty :=
    fun _ => rfl
  have hnext : ∀ policy, (under policy s).supervisor.roster.nextInTurn
      (under policy s).supervisor.roster.running =
        s.supervisor.roster.nextInTurn s.supervisor.roster.running := fun _ => rfl
  simp only [hempty, hnext]
  refine .ite (.pure _) ((tallies_onSupervisor (Supervisor.tallies_materializeCreated memory)).bind
    fun made => (tallies_count _).bind fun _ => ?_)
  cases s.supervisor.roster.nextInTurn s.supervisor.roster.running with
  | none => exact .pure _
  | some pid => exact tallies_promote pid

lemma tallies_tick (switchTo : κ → ResumePoint → κ) :
    Tallies True (tick memory switchTo : Action space (Dispatcher μ space × κ) _)
      (tick memory switchTo) := by
  refine ((tallies_schedule memory).within (fun _ _ => rfl) fun _ _ _ => rfl).bind fun decision => ?_
  obtain ⟨outcome, target⟩ := decision
  cases target with
  | none => exact .pure _
  | some target => exact (Tallies.update fun _ _ => rfl).bind fun _ => .pure _

end Dispatcher

end Uniprocessor
