import Uniprocessor.Proofs.Contracts
import Uniprocessor.Proofs.Lawful

/-!
# What the operations do to a view

Each operation that needs nothing of the memory service either stops and leaves the view as it is
or makes one change, which is given here together with what must hold for it.
-/

namespace Uniprocessor

open Uniprocessor.Action Relation

namespace View

variable {μ space : Type} {v : View μ space} {calls : List (MemoryCall space)}

/-- The view after a process is born, below its parent if there is one. -/
def born (v : View μ space) (parent : Option Pid) (pid : Pid) (entry : UInt64) : View μ space :=
  match parent with
  | none => v.enroll pid entry
  | some parent => (v.enroll pid entry).adopt parent pid

lemma ensures_require (pid : Pid) :
    (require pid : Action space (View μ space) Unit).Ensures calls v
      (fun _ c w => c = calls ∧ w = v ∧ ∃ p, v.table[pid]? = some p) (Refused calls v) := by
  cases hcheck : v.check pid with
  | error e => exact ensures_of_run_error (run_require hcheck) ⟨⟨e, rfl⟩, rfl, rfl⟩
  | ok => exact ensures_of_run (run_require hcheck) ⟨rfl, rfl, get?_of_check hcheck⟩

lemma ensures_find (pid : Pid) :
    (find pid : Action space (View μ space) _).Ensures calls v
      (fun p c w => c = calls ∧ w = v ∧ v.table[pid]? = some p) (Unmoved calls v) := by
  cases hlookup : v.lookup pid with
  | error e => exact ensures_of_run_error (run_find_error hlookup) ⟨rfl, rfl⟩
  | ok p => exact ensures_of_run (run_find_ok hlookup) ⟨rfl, rfl, get?_of_lookup hlookup⟩

lemma ensures_refuseFor (resource : Resource) (shortage : Option IssueError) :
    (refuseFor resource shortage : Action space (View μ space) Unit).Ensures calls v
      (fun _ c w => c = calls ∧ w = v ∧ shortage = none) (Refused calls v) := by
  cases shortage with
  | none => exact ensures_pure ⟨rfl, rfl, rfl⟩
  | some e => exact ensures_fail ⟨⟨_, rfl⟩, rfl, rfl⟩

theorem ensures_create (parent : Option Pid) (entry : UInt64) :
    (create parent entry : Action space (View μ space) Pid).Ensures calls v
      (fun pid c w => c = calls ∧ w = v.born parent pid entry ∧ v.freePid? = some pid ∧
        ∀ q ∈ parent, ∃ p, v.table[q]? = some p)
      (Refused calls v) := by
  cases parent with
  | none =>
    apply ensures_get_bind
    dsimp only
    split
    · exact ensures_fail_bind ⟨⟨_, rfl⟩, rfl, rfl⟩
    · cases hfree : v.freePid? with
      | none => exact ensures_fail ⟨⟨_, rfl⟩, rfl, rfl⟩
      | some pid =>
        apply ensures_bind (ensures_refuseFor _ _)
        rintro _ _ v ⟨rfl, rfl, -⟩
        exact ensures_run_bind (run_set _ _) (ensures_pure ⟨rfl, rfl, rfl, by simp⟩)
  | some parent =>
    apply ensures_bind (ensures_require parent)
    rintro _ _ v ⟨rfl, rfl, p, hp⟩
    apply ensures_get_bind
    dsimp only
    split
    · exact ensures_fail_bind ⟨⟨_, rfl⟩, rfl, rfl⟩
    · cases hfree : v.freePid? with
      | none => exact ensures_fail ⟨⟨_, rfl⟩, rfl, rfl⟩
      | some pid =>
        apply ensures_bind (ensures_refuseFor _ _)
        rintro _ _ v ⟨rfl, rfl, -⟩
        apply ensures_bind (ensures_refuseFor _ _)
        rintro _ _ v ⟨rfl, rfl, -⟩
        refine ensures_run_bind (run_set _ _) (ensures_pure ⟨rfl, rfl, rfl, ?_⟩)
        rintro q ⟨⟩
        exact ⟨p, hp⟩

theorem ensures_addChild (parent child : Pid) :
    (addChild parent child : Action space (View μ space) Unit).Ensures calls v
      (fun _ c w => c = calls ∧ w = v.adopt parent child ∧ (∃ p, v.table[parent]? = some p) ∧
        (∃ p, v.table[child]? = some p) ∧ v.parentOf child = none ∧ child ∉ v.lineage parent)
      (Unmoved calls v) := by
  apply (ensures_require parent).bind fun _ _ _ h => h.2
  rintro _ _ v ⟨rfl, rfl, hp⟩
  apply (ensures_require child).bind fun _ _ _ h => h.2
  rintro _ _ v ⟨rfl, rfl, hc⟩
  dsimp only
  split
  · exact ensures_fail_bind ⟨rfl, rfl⟩
  · apply ensures_get_bind
    split
    · exact ensures_fail_bind ⟨rfl, rfl⟩
    · rename_i hroot
      split
      · exact ensures_fail_bind ⟨rfl, rfl⟩
      · rename_i hapart
        apply ensures_get_bind
        dsimp only
        split
        · exact ensures_fail_bind ⟨rfl, rfl⟩
        · apply (ensures_refuseFor _ _).bind fun _ _ _ h => h.2
          rintro _ _ v ⟨rfl, rfl, -⟩
          apply ensures_of_run (run_set _ _)
          exact ⟨rfl, rfl, hp, hc, Option.not_isSome_iff_eq_none.mp hroot, hapart⟩

lemma run_requestState {pid : Pid} {p : ProcessView space} (hp : v.table[pid]? = some p)
    {state : ProcessState} (hcan : p.canEnter state = true) :
    (requestState pid state : Action space (View μ space) _).run v =
      ⟨.ok (some true), v.enter pid state, []⟩ := by
  rw [requestState, run_bind_quiet (run_get v), hp]
  dsimp only
  rw [if_pos hcan]
  rfl

/-- A change of state is made, or ignored or fatal as the limits have it. -/
lemma ensures_requestState {pid : Pid} {p : ProcessView space} (hp : v.table[pid]? = some p)
    (state : ProcessState) :
    (requestState pid state : Action space (View μ space) _).Ensures calls v
      (fun changed c w => c = calls ∧
        ((changed = some true ∧ p.canEnter state = true ∧ w = v.enter pid state) ∨
          (changed = some false ∧ p.canEnter state = false ∧ w = v)))
      (Unmoved calls v) := by
  cases hcan : p.canEnter state with
  | true => exact ensures_of_run (run_requestState hp hcan) ⟨rfl, .inl ⟨rfl, rfl, rfl⟩⟩
  | false =>
    apply ensures_get_bind
    rw [hp]
    dsimp only
    rw [if_neg (Bool.eq_false_iff.mp hcan)]
    cases v.limits.policy with
    | lenient => exact ensures_pure ⟨rfl, .inr ⟨rfl, rfl, rfl⟩⟩
    | strict => exact ensures_of_run_error (run_halt _ _) ⟨rfl, rfl⟩

theorem ensures_changeState (pid : Pid) (state : ProcessState) :
    (changeState pid state : Action space (View μ space) Bool).Ensures calls v
      (fun changed c w => c = calls ∧ ∃ p, v.table[pid]? = some p ∧ p.canEnter state = changed ∧
        w = if changed then v.enter pid state else v)
      (Unmoved calls v) := by
  apply (ensures_require pid).bind fun _ _ _ h => h.2
  rintro _ _ v ⟨rfl, rfl, p, hp⟩
  apply ensures_bind (ensures_requestState hp state)
  rintro _ _ _ ⟨rfl, ⟨rfl, hcan, rfl⟩ | ⟨rfl, hcan, rfl⟩⟩
  · exact ensures_of_run (run_ofOption_some _ _ _) ⟨rfl, p, hp, hcan, rfl⟩
  · exact ensures_of_run (run_ofOption_some _ _ _) ⟨rfl, p, hp, hcan, rfl⟩

theorem ensures_exit (pid : Pid) (status : Int32) :
    (exit pid status : Action space (View μ space) Unit).Ensures calls v
      (fun _ c w => c = calls ∧ ∃ p, v.table[pid]? = some p ∧
        ((p.canEnter .terminated = true ∧
            w = (v.enter pid .terminated).update pid ({ · with exitStatus := some status })) ∨
          (p.canEnter .terminated = false ∧ w = v)))
      (Unmoved calls v) := by
  apply ensures_bind (ensures_changeState pid .terminated)
  rintro changed _ _ ⟨rfl, p, hp, hcan, rfl⟩
  cases changed with
  | true => exact ensures_of_run (run_modify _ _) ⟨rfl, p, hp, .inl ⟨hcan, rfl⟩⟩
  | false => exact ensures_pure ⟨rfl, p, hp, .inr ⟨hcan, rfl⟩⟩

/-- Marks a process as being inside a system call or not, wherever its registers are. -/
def flagged (v : View μ space) (pid : Pid) (on : Bool) : View μ space :=
  if v.running = some pid then { v with active := v.active.setInSystemCall on }
  else v.update pid fun p => { p with context := p.context.setInSystemCall on }

theorem ensures_setInSystemCall (pid : Pid) (on : Bool) :
    (setInSystemCall pid on : Action space (View μ space) Unit).Ensures calls v
      (fun _ c w => c = calls ∧ w = v.flagged pid on ∧ ∃ p, v.table[pid]? = some p)
      (Unmoved calls v) := by
  apply (ensures_require pid).bind fun _ _ _ h => h.2
  rintro _ _ v ⟨rfl, rfl, hp⟩
  exact ensures_of_run (run_modify _ _) ⟨rfl, rfl, hp⟩

theorem ensures_postSignal (pid : Pid) (signo : UInt8) :
    (postSignal pid signo : Action space (View μ space) Unit).Ensures calls v
      (fun _ c w => c = calls ∧ w = v.update pid (fun p => { p with signals := p.signals ++ [signo] }) ∧
        ∃ p, v.table[pid]? = some p)
      (Unmoved calls v) := by
  unfold postSignal
  dsimp only
  split
  · exact ensures_fail_bind ⟨rfl, rfl⟩
  · apply ensures_bind (ensures_find pid)
    rintro p _ v ⟨rfl, rfl, hp⟩
    apply ensures_get_bind
    apply (ensures_refuseFor _ _).bind fun _ _ _ h => h.2
    rintro _ _ v ⟨rfl, rfl, -⟩
    exact ensures_of_run (run_set _ _) ⟨rfl, rfl, p, hp⟩

/-! ### Lawfulness -/

lemma spaceOf_born (hnew : v.table[pid]? = none) (parent : Option Pid) (entry : UInt64) (q : Nat) :
    (v.born parent pid entry).spaceOf q = v.spaceOf q := by
  cases parent with
  | none => exact spaceOf_enroll hnew entry q
  | some parent => exact (spaceOf_adopt _ parent pid q).trans (spaceOf_enroll hnew entry q)

namespace Lawful

theorem born (h : v.Lawful) {parent : Option Pid} {pid : Pid} (hfree : v.freePid? = some pid)
    (hparent : ∀ q ∈ parent, ∃ p, v.table[q]? = some p) (entry : UInt64) :
    (v.born parent pid entry).Lawful := by
  have hnew := get?_of_freePid? hfree
  have henroll := h.enroll hnew entry
  cases parent with
  | none => exact henroll
  | some parent =>
    obtain ⟨p, hp⟩ := hparent parent rfl
    have hne : parent ≠ pid := by
      rintro rfl
      rw [hnew] at hp
      cases hp
    have hroot : (v.enroll pid entry).parentOf pid = none := by
      rw [parentOf_enroll hnew, parentOf_of_not_live hnew]
    apply henroll.adopt (p := p) (c := .fresh entry) (by simp [hp, hne]) (by simp) hroot
    intro habove
    rcases habove.cases_tail with heq | ⟨below, -, hup⟩
    · exact hne heq.symm
    · rw [Up, parentOf_enroll hnew] at hup
      exact h.forest.parentOf_ne hnew hup

lemma adopt_of_lineage (h : v.Lawful) {parent child : Pid} (hp : ∃ p, v.table[parent]? = some p)
    (hc : ∃ p, v.table[child]? = some p) (hroot : v.parentOf child = none)
    (hapart : child ∉ v.lineage parent) : (v.adopt parent child).Lawful := by
  obtain ⟨p, hp⟩ := hp
  obtain ⟨c, hc⟩ := hc
  exact h.adopt hp hc hroot fun habove => hapart (h.forest.mem_lineage.mpr habove)

lemma flagged (h : v.Lawful) {pid : Pid} (hp : ∃ p, v.table[pid]? = some p) (on : Bool) :
    (v.flagged pid on).Lawful := by
  obtain ⟨p, hp⟩ := hp
  rw [View.flagged]
  split
  · exact h.congr rfl rfl
  · exact h.update hp (fun _ => rfl) (fun _ => rfl) Iff.rfl (h.backed pid p hp)

end Lawful

end View

end Uniprocessor
