import Uniprocessor.Supervisor.Materialize
import Uniprocessor.Proofs.Simulation.Creation

/-!
# Giving processes memory, seen from the view

All steps touch one record and the memory service, and correspond one to one.
-/

namespace Uniprocessor

namespace Supervisor

variable {μ space : Type} (memory : MemoryService μ space)

lemma refines_ofAnswer {α : Type} (x : Except MemoryError α) :
    Refines Shows Eq (ofAnswer x : Action space (Supervisor μ space) α)
      (View.ofAnswer x : Action space (View μ space) α) := by
  cases x with
  | ok a => exact Refines.pure rfl
  | error e => exact Refines.fail _

variable {record : ProcessRecord space} {p : ProcessView space}

lemma refines_obtainSpace (pid : Pid) (hview : record.view p.children p.signals = p) :
    Refines Shows Eq (obtainSpace memory pid record) (View.obtainSpace memory pid p) := by
  have hspace : record.space = p.space := by rw [← hview]; rfl
  have hparent : record.parent = p.parent := by rw [← hview]; rfl
  rw [obtainSpace, View.obtainSpace, hspace, hparent]
  cases p.space with
  | some own => exact (refines_amend pid fun _ _ _ => rfl).bind fun _ _ _ => Refines.pure rfl
  | none =>
    cases p.parent with
    | none =>
      apply (refines_createSpace memory).bind
      rintro answer _ rfl
      exact refines_ofAnswer answer
    | some parent =>
      refine Refines.get_bind fun s v h => ?_
      have hheld : (s.roster.get? parent).bind (·.space) = v.table[parent]?.bind (·.space) := by
        cases hp : v.table[parent]? with
        | none => rw [h.get?_of_table_none hp]; rfl
        | some q =>
          obtain ⟨held, hget, hq⟩ := h.get?_of_table hp
          rw [hget, ← hq]
          rfl
      rw [hheld]
      cases v.table[parent]?.bind (·.space) with
      | none => exact Refines.fail _
      | some inherited =>
        apply (refines_cloneSpace memory inherited true).bind
        rintro answer _ rfl
        exact refines_ofAnswer answer

lemma refines_giveUp {α : Type} (pid : Pid) (hview : record.view p.children p.signals = p)
    (handle : space) (e : MemoryError) :
    Refines Shows Eq (giveUp memory pid record handle e : Action space (Supervisor μ space) α)
      (View.giveUp memory pid p handle) := by
  have hspace : record.space = p.space := by rw [← hview]; rfl
  rw [giveUp, View.giveUp, hspace]
  apply Refines.note
  dsimp only
  split
  · exact (refines_amend pid fun _ _ _ => rfl).bind fun _ _ _ => Refines.fail _
  · exact (refines_destroySpace memory handle).bind fun _ _ _ => Refines.fail _

lemma refines_equip (pid : Pid) (handle : space) (userStack kernelStack : UInt64) :
    Refines Shows Eq (equip memory pid handle userStack kernelStack)
      (View.equip memory pid handle userStack kernelStack) := by
  apply (refines_rootOf memory handle).bind
  rintro root _ rfl
  refine (refines_amend pid fun _ _ _ => rfl).bind fun _ _ _ => ?_
  refine (refines_requestState pid .waiting).bind fun _ _ _ => ?_
  rw [← bind_pure (Action.note _)]
  exact Refines.note (Refines.pure rfl)

theorem refines_materialize (pid : Pid) :
    Refines Shows Eq (materialize memory pid) (View.materialize memory pid) := by
  refine (refines_find pid).bind fun record p hview => ?_
  have hstate : record.state = p.state := by rw [← hview]; rfl
  rw [hstate]
  dsimp only
  split
  · exact Refines.fail_bind _
  · apply (refines_obtainSpace memory pid hview).bind
    rintro handle _ rfl
    apply (refines_mapPages memory handle stackPages).bind
    rintro ⟨answer, handle⟩ _ rfl
    cases answer with
    | error e => exact refines_giveUp memory pid hview handle e
    | ok userStack =>
      apply (refines_mapPages memory handle stackPages).bind
      rintro ⟨answer, handle⟩ _ rfl
      cases answer with
      | error e =>
        apply (refines_unmapPages memory handle userStack stackPages).bind
        rintro handle _ rfl
        exact refines_giveUp memory pid hview handle e
      | ok kernelStack => exact refines_equip memory pid handle userStack kernelStack

theorem refines_materializeEach (pids : List Pid) :
    Refines Shows Eq (materializeEach memory pids) (View.materializeEach memory pids) := by
  induction pids with
  | nil => exact Refines.pure rfl
  | cons pid rest ih =>
    apply (refines_materialize memory pid).attempt.bind
    rintro _ _ (⟨_, _, rfl, rfl, -⟩ | ⟨e, rfl, rfl⟩)
    · apply ih.bind
      rintro count _ rfl
      exact Refines.pure rfl
    · exact Refines.note ih

variable {s : Supervisor μ space} {v : View μ space}

lemma Shows.createdPids_eq (h : s.Shows v) : s.createdPids = v.createdPids := by
  rw [createdPids, View.createdPids, ← h.toList_eq, List.filter_map, List.map_map]
  rfl

theorem refines_materializeCreated :
    Refines Shows Eq (materializeCreated memory) (View.materializeCreated memory) :=
  Refines.get_bind fun s v h => by
    rw [h.createdPids_eq]
    exact refines_materializeEach memory _

end Supervisor

end Uniprocessor
