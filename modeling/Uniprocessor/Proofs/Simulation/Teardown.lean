import Uniprocessor.Supervisor.Teardown
import Uniprocessor.Proofs.Simulation

/-!
# Destroying processes, seen from the view

Draining the child list, discarding the signals and giving back record and identifier are several
steps of the supervisor and one change of the view.
-/

namespace Uniprocessor

namespace Supervisor

variable {μ space : Type} {s : Supervisor μ space} {v : View μ space}
  (memory : MemoryService μ space)

/-! ### Calls of the memory service -/

/-- A call of the memory service changes nothing but its state. -/
lemma refines_ask {α : Type} {x : Action space (Supervisor μ space) α} {f : μ → α × μ}
    {call : α → MemoryCall space}
    (hx : ∀ s, x.run s = ⟨.ok (f s.memory).1, { s with memory := (f s.memory).2 },
      [.call (call (f s.memory).1)]⟩) :
    Refines Shows Eq x (View.ask f call) := by
  intro s v h
  have hask : (View.ask f call).run v = ⟨.ok (f v.memory).1, { v with memory := (f v.memory).2 },
      [.call (call (f v.memory).1)]⟩ := rfl
  rw [hx, hask, h.memory]
  exact .ok rfl (h.withMemory _) rfl

lemma refines_createSpace :
    Refines Shows Eq (createSpace memory : Action space (Supervisor μ space) _)
      (View.createSpace memory) :=
  refines_ask fun _ => rfl

lemma refines_cloneSpace (source : space) (withContents : Bool) :
    Refines Shows Eq (cloneSpace memory source withContents) (View.cloneSpace memory source withContents) :=
  refines_ask fun _ => rfl

lemma refines_mapPages (target : space) (count : Nat) :
    Refines Shows Eq (mapPages memory target count) (View.mapPages memory target count) :=
  refines_ask fun _ => rfl

lemma refines_unmapPages (target : space) (base : UInt64) (count : Nat) :
    Refines Shows Eq (unmapPages memory target base count)
      (View.unmapPages memory target base count) :=
  refines_ask fun _ => rfl

lemma refines_destroySpace (target : space) :
    Refines Shows Eq (destroySpace memory target) (View.destroySpace memory target) :=
  refines_ask fun _ => rfl

lemma refines_rootOf (target : space) :
    Refines Shows Eq (rootOf memory target) (View.rootOf memory target) :=
  refines_ask fun _ => rfl

/-! ### Unlinking -/

lemma Shows.disown (h : s.Shows v) (pid : Nat) :
    ((unlinkFromParent pid : Action space (Supervisor μ space) Unit).run s).state.Shows
      (v.disown pid) := by
  rw [unlinkFromParent, Action.run_modify, h.parentOf_eq, View.disown]
  cases v.parentOf pid with
  | none => exact h
  | some parent =>
    dsimp only
    cases hp : v.table[parent]? with
    | none =>
      rw [h.get?_of_table_none hp]
      have hsame : v.update parent (fun p => { p with children := p.children.erase pid }) = v := by
        refine View.ext_get? rfl rfl (fun q => ?_) rfl rfl
        rw [View.get?_update]
        split
        · rename_i hq
          rw [hq, hp, Option.map_none]
        · rfl
      rw [hsame]
      exact h
    | some p =>
      obtain ⟨record, hget, -⟩ := h.get?_of_table hp
      obtain ⟨l, links, hremove, hsetup, hfamily⟩ := h.children.remove parent pid
      rw [Roster.childListOf_eq hget] at hremove
      rw [View.childrenOf_eq hp] at hfamily
      have hshows := h.relink hp hfamily hsetup
      rw [hget]
      dsimp only
      rw [hremove]
      rwa [View.update_congr (f := fun p => { p with children := p.children.erase pid })
        (g := ({ · with children := p.children.erase pid })) hp rfl]

lemma Shows.orphan (h : s.Shows v) (children : List Pid) :
    { s with
      roster := children.foldl (fun t child => t.modify child ({ · with parent := none })) s.roster
    }.Shows (v.orphan children) := by
  induction children generalizing s v with
  | nil => exact h
  | cons c children ih =>
    exact ih (h.amend c (f := ({ · with parent := none })) (g := ({ · with parent := none }))
      fun _ _ _ => rfl)

/-! ### Giving everything back -/

/-- A process whose children are drained has none. -/
lemma agree_drainChildren (h : s.Shows v) (pid : Nat) :
    Agree (fun s v => s.Shows v ∧ ∀ p, v.table[pid]? = some p → p.children = []) Eq
      ((drainChildren pid : Action space (Supervisor μ space) _).run s)
      ((View.drainChildren pid).run v) := by
  unfold drainChildren View.drainChildren
  rw [Action.run_bind_quiet (Action.run_get s), Action.run_bind_quiet (Action.run_get v)]
  cases hp : v.table[pid]? with
  | none =>
    rw [h.get?_of_table_none hp]
    exact .ok rfl ⟨h, by simp [hp]⟩ rfl
  | some p =>
    obtain ⟨record, hget, -⟩ := h.get?_of_table hp
    obtain ⟨links, hdrain, hsetup, hfamily⟩ := h.children.drain pid
    rw [Roster.childListOf_eq hget, View.childrenOf_eq hp] at hdrain
    rw [hget]
    dsimp only
    rw [hdrain]
    refine .ok rfl ⟨(h.relink hp hfamily hsetup).orphan p.children, fun p' hp' => ?_⟩ rfl
    rw [View.get?_orphan, View.get?_update, if_pos rfl, hp] at hp'
    obtain rfl := Option.some_injective _ hp'
    split <;> rfl

section

variable {α : Type} {f : Unit → Action space (Supervisor μ space) α}
  {y : Outcome space (View μ space) α}

lemma agree_releasePid {pid : Pid}
    (h : Agree Shows Eq ((f ()).run { s with pids := (s.pids.release pid).2 }) y) :
    Agree Shows Eq ((releasePid pid >>= f).run s) y := by
  rw [releasePid, bind_assoc, Action.run_bind_quiet (Action.run_get _), bind_assoc]
  apply Agree.noteAll
  rwa [Action.run_bind_quiet (Action.run_set _ _)]

lemma agree_dropRecord {pid : Pid}
    (h : Agree Shows Eq ((f ()).run { s with roster := (s.roster.remove pid).2 }) y) :
    Agree Shows Eq ((dropRecord pid >>= f).run s) y := by
  rw [dropRecord, bind_assoc, Action.run_bind_quiet (Action.run_get _), bind_assoc]
  apply Agree.noteAll
  rwa [Action.run_bind_quiet (Action.run_set _ _)]

/-- A process whose signals are discarded has none. -/
lemma agree_discardSignals (h : s.Shows v) {pid : Nat} {p : ProcessView space}
    {record : ProcessRecord space} (hp : v.table[pid]? = some p)
    (hget : s.roster.get? pid = some record)
    (hnext : ∀ s' : Supervisor μ space, s'.Shows (v.update pid ({ · with signals := [] })) →
      Agree Shows Eq ((f ()).run s') y) :
    Agree Shows Eq ((discardSignals pid record >>= f).run s) y := by
  obtain ⟨signals, hclear, hsetup, hfamily⟩ := h.signals.clear pid
  rw [Roster.signalQueueOf_eq hget] at hclear
  rw [discardSignals, bind_assoc, Action.run_bind_quiet (Action.run_get s), bind_assoc]
  apply Agree.noteAll
  rw [hclear]
  dsimp only
  rw [bind_assoc, Action.run_bind_quiet (Action.run_set s _)]
  exact Agree.note_if (hnext _ (h.requeue hp hfamily hsetup))

end

/-- A process without children gives back all it holds. -/
lemma agree_reclaim (h : s.Shows v) {pid : Nat}
    (hchildren : ∀ p, v.table[pid]? = some p → p.children = []) :
    Agree Shows Eq ((reclaim memory pid).run s) ((View.reclaim memory pid).run v) := by
  unfold reclaim View.reclaim
  rw [Action.run_bind_quiet (Action.run_get s), Action.run_bind_quiet (Action.run_get v)]
  cases hp : v.table[pid]? with
  | none =>
    rw [h.get?_of_table_none hp]
    exact .ok rfl h rfl
  | some p =>
    obtain ⟨record, hget, hview⟩ := h.get?_of_table hp
    have hspace : record.space = p.space := by rw [← hview]; rfl
    rw [hget]
    dsimp only
    refine agree_discardSignals h hp hget fun s' hs' => ?_
    have hbare := hs'.amend pid (f := ({ · with space := none })) (g := ({ · with space := none }))
      fun _ _ _ => rfl
    have hleft : ((v.update pid ({ · with signals := [] })).update pid ({ · with space := none })).table[pid]? =
        some { p with signals := [], space := none } := by
      simp [hp]
    have hgone := hbare.drop hleft (hchildren p hp) rfl
    have hdrop : ((v.update pid ({ · with signals := [] })).update pid ({ · with space := none })).drop
        pid = v.drop pid := by
      refine View.ext_get? rfl rfl (fun q => ?_) rfl rfl
      simp only [View.get?_drop, View.get?_update]
      split <;> rfl
    rw [hdrop] at hgone
    rw [amend, Action.run_bind_quiet (Action.run_modify _ _), hspace,
      Action.run_bind_quiet (Action.run_set v _)]
    apply agree_dropRecord
    cases p.space with
    | none => exact agree_releasePid (.ok rfl hgone rfl)
    | some handle =>
      have hfreed := hgone.withMemory (memory.destroy s'.memory handle true)
      have hask : (View.destroySpace memory handle).run (v.drop pid) = ⟨.ok (),
          { v.drop pid with memory := memory.destroy s'.memory handle true },
          [.call (.destroy handle true)]⟩ := by
        rw [← hs'.memory]
        rfl
      dsimp only
      rw [hask]
      exact .ok rfl hfreed (by simp [Event.calls, Event.call?])

theorem refines_destroyAll (cascade : Bool) (fuel : Nat) (pids : List Pid) :
    Refines Shows Eq (destroyAll memory cascade fuel pids)
      (View.destroyAll memory cascade fuel pids) := by
  induction fuel generalizing pids with
  | zero => exact Refines.pure rfl
  | succ fuel ih =>
    cases pids with
    | nil => exact Refines.pure rfl
    | cons pid rest =>
      intro s v h
      apply (agree_drainChildren h pid).bind_of_imp (fun _ _ hs => hs.1)
      rintro children _ s v rfl ⟨h, hchildren⟩
      cases cascade with
      | true => exact (agree_reclaim memory h hchildren).bind fun _ _ s' v' _ => ih _ s' v'
      | false =>
        apply Agree.noteAll
        exact (agree_reclaim memory h hchildren).bind fun _ _ s' v' _ => ih _ s' v'

theorem refines_destroy (pid : Pid) (cascade : Bool) :
    Refines Shows Eq (destroy memory pid cascade) (View.destroy memory pid cascade) := by
  refine (refines_require pid).bind fun _ _ _ s v h => ?_
  have hdisown := h.disown pid
  rw [unlinkFromParent, Action.run_modify] at hdisown
  rw [unlinkFromParent, Action.run_bind_quiet (Action.run_modify _ _),
    Action.run_bind_quiet (Action.run_get _), Action.run_bind_quiet (Action.run_get v),
    Action.run_bind_quiet (Action.run_set v _), hdisown.linkCount_eq]
  exact refines_destroyAll memory cascade _ _ _ _ hdisown

end Supervisor

end Uniprocessor
