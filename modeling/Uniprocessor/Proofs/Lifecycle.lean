import Uniprocessor.Proofs.Ticks

/-!
# The life of a process

A process is born without memory, moves along the edges of the life cycle only, and leaves its
beginning for the waiting state when memory arrives, and not before. Its record tells where it is
and where it came from. Nothing that is done to other processes, or to others of the same identifier
before, shows in it.
-/

namespace Uniprocessor

open Uniprocessor.Action Relation

namespace ProcessState

/-- The edges of the life cycle. -/
def Edge (before after : ProcessState) : Prop := before.canBecome after = true

lemma isActive_of_edge {before after : ProcessState} (h : before.Edge after)
    (hcreated : before ≠ .created) (hactive : after.isActive = true) : before.isActive = true :=
  (isActive_of_canBecome h hactive).resolve_right fun heq => hcreated heq.1

lemma ne_created_of_edge {before after : ProcessState} (h : before.Edge after) : after ≠ .created := by
  rintro rfl
  rw [Edge, canBecome_created] at h
  cases h

lemma ne_terminated_of_edge {before after : ProcessState} (h : before.Edge after) :
    before ≠ .terminated := by
  rintro rfl
  cases after <;> cases h

end ProcessState

namespace ProcessView

variable {space : Type} {p p' q : ProcessView space} {given given' : Prop}

/-- What holds of the record of a process at any time of its life. -/
structure Sound (p : ProcessView space) : Prop where
  begun : p.state = .created → p.previous = .created ∧ p.userStack = none ∧ p.kernelStack = none
  moved : p.state ≠ .created → p.previous.Edge p.state
  supplied : p.state.isActive = true → p.isMaterialized = true
  exited : p.exitStatus.isSome = true → p.state = .terminated

/-- The record of a process at the beginning of its life. -/
structure Newborn (p : ProcessView space) : Prop where
  state : p.state = .created
  previous : p.previous = .created
  userStack : p.userStack = none
  kernelStack : p.kernelStack = none
  exitStatus : p.exitStatus = none
  flags : p.context.flags = 0

/-- A process goes on where it is in its life. Before it has stacks its space may move. -/
structure Stays (p p' : ProcessView space) : Prop where
  state : p'.state = p.state
  previous : p'.previous = p.previous
  userStack : p'.userStack = p.userStack
  kernelStack : p'.kernelStack = p.kernelStack
  space : p.state ≠ .created → p'.space = p.space
  exitStatus : p'.exitStatus = p.exitStatus

/-- A process goes on with the registers in its record, while links to others come and go. -/
structure Linked (p p' : ProcessView space) : Prop extends p.Stays p' where
  context : p'.context = p.context

/-- One step in the life of a process. Memory arrives only where it is `given`. -/
inductive Evolves (given : Prop) (p p' : ProcessView space) : Prop
  | stays : p.Stays p' → Evolves given p p'
  | entered (state) : p.canEnter state = true → p'.state = state → p'.previous = p.state →
      p'.userStack = p.userStack → p'.kernelStack = p.kernelStack → p'.space = p.space →
      (p'.exitStatus = p.exitStatus ∨ state = .terminated) → Evolves given p p'
  | supplied : given → p.state = .created → p'.state = .waiting → p'.previous = .created →
      p'.isMaterialized = true → p'.exitStatus = p.exitStatus → Evolves given p p'

lemma Stays.refl (p : ProcessView space) : p.Stays p := ⟨rfl, rfl, rfl, rfl, fun _ => rfl, rfl⟩

lemma Stays.trans (h : p.Stays p') (h' : p'.Stays q) : p.Stays q where
  state := h'.state.trans h.state
  previous := h'.previous.trans h.previous
  userStack := h'.userStack.trans h.userStack
  kernelStack := h'.kernelStack.trans h.kernelStack
  space hcreated := (h'.space (by rwa [h.state])).trans (h.space hcreated)
  exitStatus := h'.exitStatus.trans h.exitStatus

lemma Linked.refl (p : ProcessView space) : p.Linked p := ⟨.refl p, rfl⟩

lemma Linked.trans (h : p.Linked p') (h' : p'.Linked q) : p.Linked q :=
  ⟨h.toStays.trans h'.toStays, h'.context.trans h.context⟩

lemma Newborn.linked (h : p.Newborn) (hlinked : p.Linked p') : p'.Newborn where
  state := hlinked.state.trans h.state
  previous := hlinked.previous.trans h.previous
  userStack := hlinked.userStack.trans h.userStack
  kernelStack := hlinked.kernelStack.trans h.kernelStack
  exitStatus := hlinked.exitStatus.trans h.exitStatus
  flags := by rw [hlinked.context, h.flags]

lemma newborn_fresh (entry : UInt64) : (fresh entry : ProcessView space).Newborn :=
  ⟨rfl, rfl, rfl, rfl, rfl, rfl⟩

lemma Newborn.sound (h : p.Newborn) : p.Sound where
  begun _ := ⟨h.previous, h.userStack, h.kernelStack⟩
  moved hstate := absurd h.state hstate
  supplied hactive := by
    rw [h.state] at hactive
    cases hactive
  exited hexit := by
    rw [h.exitStatus] at hexit
    cases hexit

lemma edge_of_canEnter {state : ProcessState} (h : p.canEnter state = true) : p.state.Edge state := by
  rw [canEnter, Bool.and_eq_true] at h
  exact h.1

lemma Sound.not_isMaterialized (h : p.Sound) (hstate : p.state = .created) :
    p.isMaterialized = false := by
  rw [isMaterialized, (h.begun hstate).2.1]
  simp

/-- A process without stacks is not let in among those that wait: it may only end. -/
lemma Sound.terminated_of_canEnter (h : p.Sound) (hstate : p.state = .created) {state : ProcessState}
    (hcan : p.canEnter state = true) : state = .terminated := by
  rw [canEnter, hstate, h.not_isMaterialized hstate] at hcan
  cases state <;> first | rfl | cases hcan

lemma Sound.not_canEnter_waiting (h : p.Sound) (hstate : p.state = .created) :
    p.canEnter .waiting = false := by
  rw [Bool.eq_false_iff]
  intro hcan
  cases h.terminated_of_canEnter hstate hcan

namespace Evolves

lemma mono (h : p.Evolves given p') (himp : given → given') : p.Evolves given' p' := by
  cases h with
  | stays hstays => exact .stays hstays
  | entered state hcan hstate hprevious huser hkernel hspace hexit =>
    exact .entered state hcan hstate hprevious huser hkernel hspace hexit
  | supplied hgiven hcreated hstate hprevious hmaterialized hexit =>
    exact .supplied (himp hgiven) hcreated hstate hprevious hmaterialized hexit

/-- The state stays or moves along one edge. -/
lemma edge (h : p.Evolves given p') : p'.state = p.state ∨ p.state.Edge p'.state := by
  cases h with
  | stays hstays => exact .inl hstays.state
  | entered state hcan hstate => exact .inr (hstate ▸ edge_of_canEnter hcan)
  | supplied _ hcreated hstate =>
    rw [hcreated, hstate]
    exact .inr rfl

/-- A process takes part in scheduling after its beginning only if memory arrived. -/
lemma given_of_active (h : p.Evolves given p') (hsound : p.Sound) (hcreated : p.state = .created)
    (hactive : p'.state.isActive = true) : given := by
  cases h with
  | stays hstays =>
    rw [hstays.state, hcreated] at hactive
    cases hactive
  | entered state hcan hstate =>
    rw [hstate, hsound.terminated_of_canEnter hcreated hcan] at hactive
    cases hactive
  | supplied hgiven => exact hgiven

lemma exitStatus_eq (h : p.Evolves given p') (hsound : p.Sound) {status : Int32}
    (hstatus : p.exitStatus = some status) : p'.exitStatus = some status := by
  have hended : p.state = .terminated := hsound.exited (by rw [hstatus]; rfl)
  cases h with
  | stays hstays => exact hstays.exitStatus.trans hstatus
  | entered state hcan => exact absurd hended (ProcessState.ne_terminated_of_edge (edge_of_canEnter hcan))
  | supplied _ hcreated =>
    rw [hended] at hcreated
    cases hcreated

/-- Every step keeps the record sound. -/
theorem sound (h : p.Evolves given p') (hsound : p.Sound) : p'.Sound := by
  cases h with
  | stays hstays =>
    refine ⟨?_, ?_, ?_, ?_⟩
    · rw [hstays.state, hstays.previous, hstays.userStack, hstays.kernelStack]
      exact hsound.begun
    · rw [hstays.state, hstays.previous]
      exact hsound.moved
    · rw [hstays.state]
      intro hactive
      have hspace := hstays.space (by rintro heq; rw [heq] at hactive; cases hactive)
      rw [isMaterialized, hspace, hstays.userStack, hstays.kernelStack]
      exact hsound.supplied hactive
    · rw [hstays.state, hstays.exitStatus]
      exact hsound.exited
  | entered state hcan hstate hprevious huser hkernel hspace hexit =>
    have hedge := edge_of_canEnter hcan
    refine ⟨?_, ?_, ?_, ?_⟩
    · rw [hstate]
      exact fun heq => absurd heq (ProcessState.ne_created_of_edge hedge)
    · rw [hprevious, hstate]
      exact fun _ => hedge
    · rw [hstate]
      intro hactive
      have hcreated : p.state ≠ .created := by
        intro hcreated
        rw [hsound.terminated_of_canEnter hcreated hcan] at hactive
        cases hactive
      rw [isMaterialized, hspace, huser, hkernel]
      exact hsound.supplied (ProcessState.isActive_of_edge hedge hcreated hactive)
    · rw [hstate]
      rintro hstatus
      rcases hexit with heq | heq
      · rw [heq] at hstatus
        exact absurd (hsound.exited hstatus) (ProcessState.ne_terminated_of_edge hedge)
      · exact heq
  | supplied _ hcreated hstate hprevious hmaterialized hexit =>
    refine ⟨?_, ?_, fun _ => hmaterialized, ?_⟩
    · rw [hstate]
      intro heq
      cases heq
    · rw [hprevious, hstate]
      exact fun _ => rfl
    · rw [hexit]
      intro hstatus
      rw [hsound.exited hstatus] at hcreated
      cases hcreated

end Evolves

end ProcessView

/-- Whether a command may give memory to a process. -/
def Command.MaySupply (command : Command) (pid : Pid) : Prop :=
  match command with
  | .materialize target => target = pid
  | .tick | .ticks _ | .schedule | .materializeCreated => True
  | _ => False

namespace View

variable {μ space : Type} {memory : MemoryService μ space} {u v w : View μ space}
  {calls c : List (MemoryCall space)} {pid : Pid} {p : ProcessView space}
  {R R' : ProcessView space → ProcessView space → Prop} {given : Prop}

/-- If `pid` is live in `w`, then it was in `v`, with records related by `R`. -/
def Matures (R : ProcessView space → ProcessView space → Prop) (pid : Pid) (v w : View μ space) : Prop :=
  ∀ p', w.table[pid]? = some p' → ∃ p, v.table[pid]? = some p ∧ R p p'

/-- If `pid` is live in `w`, then it was in `v`, with records related by `R`, or it is newborn. -/
def Develops (R : ProcessView space → ProcessView space → Prop) (pid : Pid) (v w : View μ space) :
    Prop :=
  ∀ p', w.table[pid]? = some p' →
    (∃ p, v.table[pid]? = some p ∧ R p p') ∨ (v.table[pid]? = none ∧ p'.Newborn)

lemma Matures.mono (h : Matures R pid v w) (hR : ∀ p p', R p p' → R' p p') : Matures R' pid v w := by
  intro p' hp'
  obtain ⟨p, hp, hrel⟩ := h p' hp'
  exact ⟨p, hp, hR p p' hrel⟩

lemma Matures.develops (h : Matures R pid v w) : Develops R pid v w := fun p' hp' => .inl (h p' hp')

lemma Develops.mono (h : Develops R pid v w) (hR : ∀ p p', R p p' → R' p p') : Develops R' pid v w := by
  intro p' hp'
  rcases h p' hp' with ⟨p, hp, hrel⟩ | hnew
  · exact .inl ⟨p, hp, hR p p' hrel⟩
  · exact .inr hnew

/-- Newborn processes stay newborn. -/
lemma Develops.trans (h : Develops ProcessView.Linked pid u v) (h' : Matures ProcessView.Linked pid v w) :
    Develops ProcessView.Linked pid u w := by
  intro p' hp'
  obtain ⟨p, hp, hlinked⟩ := h' p' hp'
  rcases h p hp with ⟨q, hq, hbefore⟩ | ⟨hnone, hnew⟩
  · exact .inl ⟨q, hq, hbefore.trans hlinked⟩
  · exact .inr ⟨hnone, hnew.linked hlinked⟩

lemma matures_of_table (h : w.table = v.table) (hR : ∀ p, R p p) (pid : Pid) : Matures R pid v w :=
  fun p' hp' => ⟨p', h ▸ hp', hR p'⟩

lemma matures_of_map {f : ProcessView space → ProcessView space}
    (hget : w.table[pid]? = v.table[pid]?.map f) (h : ∀ p, v.table[pid]? = some p → R p (f p)) :
    Matures R pid v w := by
  intro p' hp'
  rw [hget] at hp'
  obtain ⟨p, hp, rfl⟩ := Option.map_eq_some_iff.mp hp'
  exact ⟨p, hp, h p hp⟩

lemma matures_update (hR : ∀ p, R p p) (v : View μ space) (target pid : Nat)
    {f : ProcessView space → ProcessView space}
    (h : ∀ p, v.table[target]? = some p → R p (f p)) : Matures R pid v (v.update target f) := by
  by_cases hpid : pid = target
  · subst hpid
    exact matures_of_map ((get?_update v pid pid f).trans (if_pos rfl)) h
  · intro p' hp'
    rw [get?_update, if_neg hpid] at hp'
    exact ⟨p', hp', hR p'⟩

/-! ### Changes that move nobody along -/

lemma linked_adopt (v : View μ space) (parent child pid : Nat) :
    Matures ProcessView.Linked pid v (v.adopt parent child) := by
  have hparent := matures_update ProcessView.Linked.refl v parent pid
    (f := fun p => { p with children := p.children ++ [child] }) fun p _ =>
      ⟨⟨rfl, rfl, rfl, rfl, fun _ => rfl, rfl⟩, rfl⟩
  intro p' hp'
  obtain ⟨q, hq, hlinked⟩ := matures_update ProcessView.Linked.refl _ child pid
    (f := ({ · with parent := some parent }))
    (fun p _ => ⟨⟨rfl, rfl, rfl, rfl, fun _ => rfl, rfl⟩, rfl⟩) p' hp'
  obtain ⟨p, hp, hbefore⟩ := hparent q hq
  exact ⟨p, hp, hbefore.trans hlinked⟩

lemma linked_born {new : Nat} (hnew : v.table[new]? = none) (parent : Option Pid) (entry : UInt64)
    (pid : Nat) : Develops ProcessView.Linked pid v (v.born parent new entry) := by
  have henroll : Develops ProcessView.Linked pid v (v.enroll new entry) := by
    intro p' hp'
    rw [get?_enroll] at hp'
    split at hp'
    · rename_i hpid
      cases hp'
      rw [hpid]
      exact .inr ⟨hnew, ProcessView.newborn_fresh entry⟩
    · exact .inl ⟨p', hp', .refl p'⟩
  cases parent with
  | none => exact henroll
  | some parent => exact henroll.trans (linked_adopt _ parent new pid)

lemma linked_births (hbirths : ReflTransGen Birth v w) (pid : Nat) :
    Develops ProcessView.Linked pid v w := by
  induction hbirths using ReflTransGen.head_induction_on with
  | refl => exact (matures_of_table rfl .refl pid).develops
  | head hbirth _ ih =>
    cases hbirth with
    | @intro parent new entry hfree hparent =>
      have hnew := get?_of_freePid? hfree
      intro p' hp'
      rcases ih p' hp' with ⟨q, hq, hlinked⟩ | ⟨hnone, hnewborn⟩
      · rcases linked_born hnew parent entry pid q hq with ⟨p, hp, hbefore⟩ | ⟨hnone, hnewborn⟩
        · exact .inl ⟨p, hp, hbefore.trans hlinked⟩
        · exact .inr ⟨hnone, hnewborn.linked hlinked⟩
      · refine .inr ⟨Option.eq_none_iff_forall_ne_some.mpr fun p hp => ?_, hnewborn⟩
        obtain ⟨q, hq, -⟩ := keeps_born hnew pid parent entry p hp
        rw [hnone] at hq
        cases hq

lemma linked_remove (v : View μ space) (target pid : Nat) :
    Matures ProcessView.Linked pid v (v.remove target) := by
  by_cases hpid : pid = target
  · intro p' hp'
    rw [get?_remove, if_pos hpid] at hp'
    cases hp'
  · exact matures_of_map ((get?_remove v target pid).trans (if_neg hpid)) fun p _ =>
      ⟨⟨rfl, rfl, rfl, rfl, fun _ => rfl, rfl⟩, rfl⟩

lemma linked_removeAll (v : View μ space) (pids : List Pid) (pid : Nat) :
    Matures ProcessView.Linked pid v (v.removeAll pids) := by
  induction pids generalizing v with
  | nil => exact matures_of_table rfl .refl pid
  | cons target pids ih =>
    intro p' hp'
    obtain ⟨q, hq, hlinked⟩ := ih (v.remove target) p' hp'
    obtain ⟨p, hp, hbefore⟩ := linked_remove v target pid q hq
    exact ⟨p, hp, hbefore.trans hlinked⟩

/-! ### Changes of state -/

/-- Who changes its state, and who makes room for it, moves along an edge. -/
theorem Lawful.evolves_enter (h : v.Lawful) {target : Nat} (hp : v.table[target]? = some p)
    {state : ProcessState} (hcan : p.canEnter state = true) (pid : Nat) :
    Matures (ProcessView.Evolves given) pid v (v.enter target state) := by
  refine matures_of_map (get?_enter hp state pid) fun q hq => ?_
  unfold afterEntry
  split
  · rename_i hpid
    rw [hpid, hp, Option.some_inj] at hq
    subst hq
    split <;> exact .entered state hcan rfl rfl rfl rfl rfl (.inl rfl)
  · split
    · rename_i hdemoted
      have hrunning : q.state = .running := (h.runner pid q hq).mpr hdemoted.2
      have hcan : q.canEnter .waiting = true := by
        simp [ProcessView.canEnter, hrunning, ProcessState.canBecome]
      exact .entered .waiting hcan rfl rfl rfl rfl rfl (.inl rfl)
    · exact .stays (.refl q)

lemma Lawful.evolves_exit (h : v.Lawful) {target : Nat} (hp : v.table[target]? = some p)
    (hcan : p.canEnter .terminated = true) (status : Int32) (pid : Nat) :
    Matures (ProcessView.Evolves given) pid v
      ((v.enter target .terminated).update target ({ · with exitStatus := some status })) := by
  intro p' hp'
  rw [get?_update] at hp'
  split at hp'
  · rename_i hpid
    rw [get?_enter hp, hp] at hp'
    cases hp'
    refine ⟨p, hpid ▸ hp, ?_⟩
    unfold afterEntry
    rw [if_pos rfl]
    split <;> exact .entered .terminated hcan rfl rfl rfl rfl rfl (.inr rfl)
  · exact h.evolves_enter hp hcan pid p' hp'

lemma evolves_flagged (v : View μ space) (target : Nat) (on : Bool) (pid : Nat) :
    Matures ProcessView.Stays pid v (v.flagged target on) := by
  rw [flagged]
  split
  · exact matures_of_table rfl .refl pid
  · exact matures_update .refl v target pid fun p _ => ⟨rfl, rfl, rfl, rfl, fun _ => rfl, rfl⟩

lemma evolves_equipped {target : Nat} (hw : v.Equipped target w) (pid : Nat) :
    Matures (ProcessView.Evolves (target = pid)) pid v w := by
  obtain ⟨p, handle, root, userStack, kernelStack, hp, hstate, rfl⟩ := hw
  by_cases hpid : pid = target
  · subst hpid
    refine matures_update (fun p => .stays (.refl p)) v pid pid fun q hq => ?_
    rw [hp, Option.some_inj] at hq
    subst hq
    exact .supplied rfl hstate rfl hstate rfl rfl
  · intro p' hp'
    rw [get?_update, if_neg hpid] at hp'
    exact ⟨p', hp', .stays (.refl p')⟩

lemma evolves_returned {target : Nat} (hw : v.Returned target w) (pid : Nat) :
    Matures ProcessView.Stays pid v w := by
  rcases hw with rfl | ⟨p, handle, hp, hstate, -, rfl⟩
  · exact matures_of_table rfl .refl pid
  · refine matures_update .refl v target pid fun q hq => ?_
    rw [hp, Option.some_inj] at hq
    subst hq
    exact ⟨rfl, rfl, rfl, rfl, fun hcreated => absurd hstate hcreated, rfl⟩

/-! ### Commands -/

/-- A command other than a turn takes each process at most one step further. -/
theorem Lawful.develops_step (h : v.Lawful) {command : Command} {result : Except Fault Reply}
    (hstep : v.Step command result w) (hturn : command.isTurn = false) (pid : Nat) :
    Develops (ProcessView.Evolves (command.MaySupply pid)) pid v w := by
  have hstays : ∀ {w}, Develops ProcessView.Stays pid v w →
      Develops (ProcessView.Evolves (command.MaySupply pid)) pid v w :=
    fun h => h.mono fun _ _ => .stays
  have hlinked : ∀ {w}, Develops ProcessView.Linked pid v w →
      Develops (ProcessView.Evolves (command.MaySupply pid)) pid v w :=
    fun h => h.mono fun _ _ h => .stays h.toStays
  have hkept : Develops ProcessView.Stays pid v v := (matures_of_table rfl .refl pid).develops
  cases hstep with
  | stopped | ignored | notExited => exact hstays hkept
  | created entry hfree => exact hlinked (linked_born (get?_of_freePid? hfree) _ entry pid)
  | createdMany nested count parent result hbirths => exact hlinked (linked_births hbirths pid)
  | @cloned source new entry copy hfree hsource =>
    obtain ⟨p, hp⟩ := hsource
    have hne : source ≠ new := by
      rintro rfl
      rw [get?_of_freePid? hfree] at hp
      cases hp
    have hborn := linked_born (get?_of_freePid? hfree) (some source) entry pid
    refine hlinked (hborn.trans (matures_update .refl _ new pid fun q hq => ?_))
    rw [get?_born_self v (mt Option.some_inj.mp hne), Option.some_inj] at hq
    subst hq
    exact ⟨⟨rfl, rfl, rfl, rfl, fun hcreated => absurd rfl hcreated, rfl⟩, rfl⟩
  | destroyed target cascade removed => exact hlinked (linked_removeAll v _ pid).develops
  | linked => exact hlinked (linked_adopt v _ _ pid).develops
  | changed hp hcan => exact (h.evolves_enter hp hcan pid).develops
  | exited status hp hcan => exact (h.evolves_exit hp hcan status pid).develops
  | flagged on => exact hstays (evolves_flagged v _ on pid).develops
  | signalled signo =>
    exact hstays (matures_update .refl v _ pid fun p _ => ⟨rfl, rfl, rfl, rfl, fun _ => rfl, rfl⟩).develops
  | materialized hw => exact (evolves_equipped hw pid).develops
  | notMaterialized fault hw => exact hstays (evolves_returned hw pid).develops
  | turned result hcommand =>
    rw [hturn] at hcommand
    cases hcommand
  | written writes => exact hstays (matures_of_table rfl .refl pid).develops
  | interrupts => exact hstays hkept

/-! ### Turns -/

lemma Attempt.evolves {target : Pid} {result : Except Refusal Unit}
    (h : Attempt memory v calls target result c w) (pid : Nat) :
    Matures (ProcessView.Evolves (target = pid)) pid v w := by
  cases result with
  | ok =>
    obtain ⟨v', hv', hsame⟩ := h.equipped_of_ok
    rw [hsame]
    exact evolves_equipped hv' pid
  | error e =>
    obtain ⟨v', hv', hsame⟩ := h.returned_of_error
    rw [hsame]
    exact (evolves_returned hv' pid).mono fun _ _ => .stays

/-- A process takes part in one attempt at most. -/
lemma Attempt.evolves_cons {first : Pid} {rest : List Pid} {result : Except Refusal Unit}
    (h : Attempt memory u calls first result c v) (hrest : Confined rest v w) (hfirst : first ∉ rest)
    {pid : Nat} (ih : Matures (ProcessView.Evolves True) pid v w) :
    Matures (ProcessView.Evolves True) pid u w := by
  intro p' hp'
  by_cases hpid : first = pid
  · subst hpid
    rw [hrest.others first hfirst] at hp'
    obtain ⟨p, hp, hevolves⟩ := h.evolves first p' hp'
    exact ⟨p, hp, hevolves.mono fun _ => trivial⟩
  · obtain ⟨p, hp, hevolves⟩ := ih p' hp'
    rw [h.confined.others pid (by simpa using Ne.symm hpid)] at hp
    exact ⟨p, hp, hevolves⟩

lemma Attempts.evolves {pids : List Pid} {made : Nat} (h : Attempts memory v calls pids made c w)
    (hnodup : pids.Nodup) (pid : Nat) : Matures (ProcessView.Evolves True) pid v w := by
  induction h with
  | nil => exact matures_of_table rfl (fun p => .stays (.refl p)) pid
  | given hattempt hrest ih | declined hattempt hrest ih =>
    rw [List.nodup_cons] at hnodup
    exact hattempt.evolves_cons hrest.confined hnodup.1 (ih hnodup.2)

lemma get?_enter_of_idle {target : Nat} (hp : v.table[target]? = some p) (state : ProcessState) {q : Nat}
    (hne : q ≠ target) (hidle : v.running ≠ some q) :
    (v.enter target state).table[q]? = v.table[q]? := by
  rw [get?_enter hp]
  cases v.table[q]? with
  | none => rfl
  | some r => rw [Option.map_some, afterEntry, if_neg hne, if_neg fun h => hidle h.2]

/-- In a tick a process takes one step at most: memory arrives, or it gets the processor, or has to
leave it. -/
theorem Decision.evolves {made : Nat} {decision : TickResult × Option ResumePoint}
    (h : Decision memory v calls made decision c w) (hlawful : v.Lawful) (pid : Nat) :
    Matures (ProcessView.Evolves True) pid v w := by
  cases h with
  | idle => exact matures_of_table rfl (fun p => .stays (.refl p)) pid
  | continued _ _ hattempts => exact hattempts.evolves v.nodup_createdPids pid
  | @switched target p _ _ w _ hp hstate hattempts hp' =>
    intro p' hp''
    by_cases hcreated : pid ∈ v.createdPids
    · obtain ⟨q, hq, hqstate⟩ := mem_createdPids.mp hcreated
      have hne : pid ≠ target := by
        rintro rfl
        exact not_mem_createdPids hp (by simp [hstate]) hcreated
      have hidle : w.running ≠ some pid := by
        rw [hattempts.confined.running]
        exact hlawful.running_ne hq (by simp [hqstate])
      rw [get?_enter_of_idle hp' _ hne hidle] at hp''
      exact hattempts.evolves v.nodup_createdPids pid p' hp''
    · have hentered : ∃ q, w.table[pid]? = some q ∧ q.Evolves True p' :=
        (hattempts.lawful hlawful).evolves_enter hp' (canEnter_running hstate) pid p' hp''
      rw [hattempts.confined.others pid hcreated] at hentered
      exact hentered

lemma Decisions.evolves {outcomes : List TickResult} (h : Decisions memory v calls outcomes c w)
    (hlawful : v.Lawful) (pid : Nat) :
    Matures (ReflTransGen (ProcessView.Evolves True)) pid v w := by
  induction h with
  | nil => exact matures_of_table rfl (fun _ => .refl) pid
  | cons hdecision _ ih =>
    intro p' hp'
    obtain ⟨q, hq, hlater⟩ := ih (hdecision.lawful hlawful) p' hp'
    obtain ⟨p, hp, hevolves⟩ := hdecision.evolves hlawful pid q hq
    exact ⟨p, hp, .head hevolves hlater⟩

end View

/-- What a command may make of the record of a live process: one step, or one in each of its ticks. -/
def Command.Course {space : Type} (command : Command) (pid : Pid) (p p' : ProcessView space) : Prop :=
  match command with
  | .ticks _ => ReflTransGen (ProcessView.Evolves True) p p'
  | command => p.Evolves (command.MaySupply pid) p'

namespace View

variable {μ space : Type} {memory : MemoryService μ space} {outside : μ → μ → Prop} {start : μ}
  {v w : View μ space} {calls c : List (MemoryCall space)}

lemma Round.courses {command : Command} {reply : Reply} (h : Round memory v calls command reply c w)
    (hlawful : v.Lawful) (pid : Nat) : Matures (command.Course pid) pid v w := by
  cases h with
  | tick hdecision | schedule hdecision => exact hdecision.evolves hlawful pid
  | ticks _ hdecisions => exact hdecisions.evolves hlawful pid
  | materializeCreated hattempts => exact hattempts.evolves v.nodup_createdPids pid

/-- Whoever is live after a command was live before it and went on from there, or is newborn. -/
theorem ensures_develops (hlawful : v.Lawful) (hrange : v.InRange)
    (h : Traffic memory outside start calls v.memory v.spaces) (command : Command) (pid : Nat) :
    (perform memory command).Ensures calls v (fun _ _ => Develops (command.Course pid) pid v)
      fun _ _ => Develops (command.Course pid) pid v := by
  cases hturn : command.isTurn with
  | false =>
    have hcourse : ∀ p p' : ProcessView space, p.Evolves (command.MaySupply pid) p' →
        command.Course pid p p' := by
      intro p p' hevolves
      cases command <;> first | exact hevolves | cases hturn
    have hstep : ∀ {result : Except Fault Reply} {v' w : View μ space} {c : List (MemoryCall space)},
        v.Step command result v' → Accounts memory outside start 0 v' c w →
        Develops (command.Course pid) pid v w := by
      intro result v' w c hstep haccounts p' hp'
      rw [haccounts.table_eq] at hp'
      exact (hlawful.develops_step hstep hturn pid).mono hcourse p' hp'
    exact (ensures_perform hlawful hrange h command).mono (fun _ _ _ ⟨_, hs, ha⟩ => hstep hs ha)
      fun _ _ _ ⟨_, hs, ha⟩ => hstep hs ha
  | true =>
    exact (ensures_round hlawful hrange hturn).mono
      (fun _ _ _ hround => (hround.courses hlawful pid).develops) fun _ _ _ h => h

/-- A change of state that the life cycle does not allow is ignored or fatal, as the policy has it. -/
lemma run_changeState_refused {pid : Pid} {p : ProcessView space} (hcheck : v.check pid = .ok ())
    (hp : v.table[pid]? = some p) {state : ProcessState} (hcannot : p.canEnter state = false) :
    (changeState pid state : Action space (View μ space) Bool).run v =
      ⟨match v.limits.policy with
        | .lenient => .ok false
        | .strict => .error (.halt (.illegalChange pid p.state state)), v, []⟩ := by
  rw [changeState, run_bind_quiet (run_require hcheck), requestState, bind_assoc,
    run_bind_quiet (run_get v), hp]
  dsimp only
  rw [if_neg (Bool.eq_false_iff.mp hcannot)]
  cases v.limits.policy <;> rfl

end View

/-- The record of a process and its record at a later time. -/
structure ProcessView.Ages {space : Type} (p p' : ProcessView space) : Prop where
  path : ReflTransGen ProcessState.Edge p.state p'.state
  begun : p.state ≠ .created → p'.state ≠ .created
  ended : p.state = .terminated → p'.state = .terminated
  exitStatus (status : Int32) : p.exitStatus = some status → p'.exitStatus = some status

/-- What a command may make of the record of a live process. -/
structure Command.Leads {space : Type} (command : Command) (pid : Pid) (p p' : ProcessView space) :
    Prop where
  ages : p.Ages p'
  /-- Only a series of ticks makes more than one step. -/
  edge : (∀ count, command ≠ .ticks count) → p'.state = p.state ∨ p.state.Edge p'.state
  supplied : p.state = .created → p'.state.isActive = true → command.MaySupply pid

namespace ProcessView

variable {space : Type} {p p' q : ProcessView space} {given : Prop}

lemma Ages.refl (p : ProcessView space) : p.Ages p := ⟨.refl, fun h => h, fun h => h, fun _ h => h⟩

lemma Ages.trans (h : p.Ages p') (h' : p'.Ages q) : p.Ages q where
  path := h.path.trans h'.path
  begun hstate := h'.begun (h.begun hstate)
  ended hstate := h'.ended (h.ended hstate)
  exitStatus status hstatus := h'.exitStatus status (h.exitStatus status hstatus)

lemma Evolves.ages (h : p.Evolves given p') (hsound : p.Sound) : p.Ages p' where
  path := by
    rcases h.edge with heq | hedge
    · rw [heq]
    · exact .single hedge
  begun hstate := by
    rcases h.edge with heq | hedge
    · rwa [heq]
    · exact ProcessState.ne_created_of_edge hedge
  ended hstate := by
    rcases h.edge with heq | hedge
    · rwa [heq]
    · exact absurd hstate (ProcessState.ne_terminated_of_edge hedge)
  exitStatus _ := h.exitStatus_eq hsound

/-- A series of steps. -/
lemma Sound.evolves (hsound : p.Sound) (h : ReflTransGen (Evolves given) p p') :
    p'.Sound ∧ p.Ages p' := by
  induction h with
  | refl => exact ⟨hsound, .refl p⟩
  | tail _ hstep ih => exact ⟨hstep.sound ih.1, ih.2.trans (hstep.ages ih.1)⟩

end ProcessView

namespace Command.Course

variable {space : Type} {command : Command} {pid : Pid} {p p' : ProcessView space}

lemma evolves (h : command.Course pid p p') (hticks : ∀ count, command ≠ .ticks count) :
    p.Evolves (command.MaySupply pid) p' := by
  cases command with
  | ticks count => exact absurd rfl (hticks count)
  | _ => exact h

lemma sound (h : command.Course pid p p') (hsound : p.Sound) : p'.Sound := by
  by_cases hticks : ∃ count, command = .ticks count
  · obtain ⟨count, rfl⟩ := hticks
    exact (hsound.evolves h).1
  · exact (h.evolves fun count heq => hticks ⟨count, heq⟩).sound hsound

lemma leads (h : command.Course pid p p') (hsound : p.Sound) : command.Leads pid p p' := by
  by_cases hticks : ∃ count, command = .ticks count
  · obtain ⟨count, rfl⟩ := hticks
    exact ⟨(hsound.evolves h).2, fun hne => absurd rfl (hne count), fun _ _ => trivial⟩
  · have hevolves := h.evolves fun count heq => hticks ⟨count, heq⟩
    exact ⟨hevolves.ages hsound, fun _ => hevolves.edge, hevolves.given_of_active hsound⟩

end Command.Course

namespace Session

variable {μ space : Type} (memory : MemoryService μ space) (outside : μ → μ → Prop)

/-- What follows from a session while `pid` stays live. -/
inductive Enduring (pid : Pid) (s : Session μ space) : Session μ space → Prop
  | refl : Enduring pid s s
  | perform {t} (command : Command) : Enduring pid s t →
      (((perform memory command).run t).state.supervisor.viewOf pid).isSome = true →
      Enduring pid s ((perform memory command).run t).state
  | outside {t m} : Enduring pid s t → outside t.supervisor.memory m → Enduring pid s (t.withMemory m)
  | heap {t} (storage : Storage) : Enduring pid s t → Enduring pid s (t.withStorage storage)

variable {memory outside} {limits : Limits} {start : μ} {events : List (Event space)}
  {s t : Session μ space} {pid : Nat} {p p' : ProcessView space}

/-- A live process was live before and went on from there, or is newborn. -/
lemma Run.develops (h : Run memory outside limits start events s) (command : Command)
    (hp' : ((Session.perform memory command).run s).state.supervisor.viewOf pid = some p') :
    (∃ p, s.supervisor.viewOf pid = some p ∧ command.Course pid p p') ∨
      (s.supervisor.viewOf pid = none ∧ p'.Newborn) := by
  obtain ⟨v, hshows, hlawful, htraffic⟩ := h.shows
  have hafter := (refines_perform memory command s v hshows).state
  have hdevelops := (View.ensures_develops hlawful (Supervisor.Shows.inRange hshows) htraffic command
    pid).always
  rw [Supervisor.Shows.viewOf_eq hafter] at hp'
  rw [Supervisor.Shows.viewOf_eq hshows]
  exact hdevelops p' hp'

lemma Run.sound (h : Run memory outside limits start events s)
    (hp : s.supervisor.viewOf pid = some p) : p.Sound := by
  induction h generalizing p with
  | start => cases hp
  | perform command hrun ih =>
    rcases hrun.develops command hp with ⟨q, hq, hcourse⟩ | ⟨-, hnewborn⟩
    · exact hcourse.sound (ih hq)
    · exact hnewborn.sound
  | outside _ _ ih => exact ih hp
  | heap storage hrun ih =>
    rw [hrun.viewOf_withStorage storage] at hp
    exact ih hp

lemma Run.enduring (h : Run memory outside limits start events s)
    (henduring : Enduring memory outside pid s t) (hp : s.supervisor.viewOf pid = some p) :
    (∃ events, Run memory outside limits start events t) ∧
      ∃ p', t.supervisor.viewOf pid = some p' ∧ p.Ages p' := by
  induction henduring with
  | refl => exact ⟨⟨events, h⟩, p, hp, .refl p⟩
  | perform command _ hlive ih =>
    obtain ⟨⟨events, hrun⟩, q, hq, hages⟩ := ih
    obtain ⟨p', hp'⟩ := Option.isSome_iff_exists.mp hlive
    refine ⟨⟨_, hrun.perform command⟩, p', hp', ?_⟩
    rcases hrun.develops command hp' with ⟨q', hq', hcourse⟩ | ⟨hnone, -⟩
    · rw [hq, Option.some_inj] at hq'
      subst hq'
      exact hages.trans (hcourse.leads (hrun.sound hq)).ages
    · rw [hq] at hnone
      cases hnone
  | outside _ houtside ih =>
    obtain ⟨⟨events, hrun⟩, hages⟩ := ih
    exact ⟨⟨_, hrun.outside houtside⟩, hages⟩
  | heap storage _ ih =>
    obtain ⟨⟨events, hrun⟩, hages⟩ := ih
    refine ⟨⟨_, hrun.heap storage⟩, ?_⟩
    rw [hrun.viewOf_withStorage storage]
    exact hages

/-- An explicit request to let a process wait that has no memory yet is turned down. -/
lemma Run.changeState_created (h : Run memory outside limits start events s)
    (hp : s.supervisor.viewOf pid = some p) (hstate : p.state = .created) :
    ((Session.perform memory (.changeState pid .waiting)).run s).result =
        (match s.supervisor.limits.policy with
          | .lenient => .ok (.flag false)
          | .strict => .error (.halt (.illegalChange pid .created .waiting))) ∧
      ((Session.perform memory (.changeState pid .waiting)).run s).state.supervisor.observe =
        s.supervisor.observe := by
  obtain ⟨v, hshows, -, -⟩ := h.shows
  have hsound := h.sound hp
  rw [Supervisor.Shows.viewOf_eq hshows] at hp
  have hagree := refines_perform memory (.changeState pid .waiting) s v hshows
  have hrun : (View.perform memory (.changeState pid .waiting)).run v =
      ⟨match v.limits.policy with
        | .lenient => .ok (.flag false)
        | .strict => .error (.halt (.illegalChange pid p.state .waiting)), v, []⟩ := by
    rw [View.perform, Action.run_bind, View.run_changeState_refused
      ((Supervisor.Shows.inRange hshows).check hp) hp (hsound.not_canEnter_waiting hstate)]
    cases v.limits.policy <;> rfl
  rw [hrun] at hagree
  constructor
  · rw [hagree.result_eq, Supervisor.Shows.limits hshows, hstate]
  · rw [Supervisor.Shows.observe_eq hagree.state, Supervisor.Shows.observe_eq hshows]

/-- Processes live by the rules: in every state that a run leads to, the record of a live process is
sound, whatever a command then makes of it is a step along the life cycle, a request to let it wait
before it has memory is turned down, and while it stays live nothing is taken back. -/
theorem Run.lifecycle (h : Run memory outside limits start events s) (pid : Pid)
    (p : ProcessView space) (hp : s.supervisor.viewOf pid = some p) :
    p.Sound ∧
    (∀ command p', ((Session.perform memory command).run s).state.supervisor.viewOf pid = some p' →
      command.Leads pid p p') ∧
    (p.state = .created →
      ((Session.perform memory (.changeState pid .waiting)).run s).result =
          (match s.supervisor.limits.policy with
            | .lenient => .ok (.flag false)
            | .strict => .error (.halt (.illegalChange pid .created .waiting))) ∧
        ((Session.perform memory (.changeState pid .waiting)).run s).state.supervisor.observe =
          s.supervisor.observe) ∧
    ∀ t, Enduring memory outside pid s t → ∃ p', t.supervisor.viewOf pid = some p' ∧ p.Ages p' := by
  refine ⟨h.sound hp, fun command p' hp' => ?_, h.changeState_created hp, fun t henduring => ?_⟩
  · rcases h.develops command hp' with ⟨q, hq, hcourse⟩ | ⟨hnone, -⟩
    · rw [hp, Option.some_inj] at hq
      subst hq
      exact hcourse.leads (h.sound hp)
    · rw [hp] at hnone
      cases hnone
  · exact (h.enduring henduring hp).2

/-- Under the strict policy, a process that has just been created gets memory, and then the processor. -/
theorem lifecycle_of_newcomer : ∃ events s t p,
    Run HostMemory.service HostMemory.Adjusted ⟨8, 4, 4, 4, .strict⟩ .empty events s ∧
    Enduring HostMemory.service HostMemory.Adjusted 1 s t ∧
    s.supervisor.viewOf 1 = some p ∧ p.state = .created ∧ t.supervisor.stateOf 1 = some .running ∧
    p.Sound ∧ ∃ p', t.supervisor.viewOf 1 = some p' ∧ p.Ages p' := by
  have hbegun : Run HostMemory.service HostMemory.Adjusted ⟨8, 4, 4, 4, .strict⟩ .empty [] _ := .start
  have hmade := hbegun.perform (.create none 0)
  have hrefl : Enduring HostMemory.service HostMemory.Adjusted 1 ((Session.perform HostMemory.service
      (.create none 0)).run (.ofLimits ⟨8, 4, 4, 4, .strict⟩ .empty)).state _ := .refl
  have henduring := (hrefl.perform .tick (by decide +kernel)).perform .tick (by decide +kernel)
  have hstate : (((Session.perform HostMemory.service (.create none 0)).run (.ofLimits ⟨8, 4, 4, 4, .strict⟩
      .empty)).state.supervisor.viewOf 1).map (·.state) = some .created := by decide +kernel
  obtain ⟨p, hp, hcreated⟩ := Option.map_eq_some_iff.mp hstate
  obtain ⟨hsound, -, -, hages⟩ := hmade.lifecycle 1 p hp
  exact ⟨_, _, _, p, hmade, henduring, hp, hcreated, by decide +kernel, hsound, hages _ henduring⟩

end Session

end Uniprocessor
