import Uniprocessor.Proofs.Removal
import Uniprocessor.Proofs.Turns

/-!
# What a command does

All that a command can make of a lawful view, memory aside, with the reply it gives. The commands
keep the view lawful and the accounts of spaces in order, whether they finish or not.
-/

namespace Uniprocessor

open Uniprocessor.Action Relation

/-- Whether a command lets processes have memory and the processor, and nothing else. -/
def Command.isTurn : Command → Bool
  | .tick | .ticks _ | .schedule | .materializeCreated => true
  | _ => false

namespace View

variable {μ space : Type}

/-- A process is born. -/
inductive Birth : View μ space → View μ space → Prop
  | intro {before parent pid} (entry : UInt64) : before.freePid? = some pid →
      (∀ q ∈ parent, ∃ p, before.table[q]? = some p) → Birth before (before.born parent pid entry)

/-- What a command can lead to: its result and the view it leaves, but for the memory. -/
inductive Step (before : View μ space) : Command → Except Fault Reply → View μ space → Prop
  | stopped (command fault) : Step before command (.error fault) before
  | created {parent pid} (entry) : before.freePid? = some pid →
      (∀ q ∈ parent, ∃ p, before.table[q]? = some p) →
      Step before (.create parent entry) (.ok (.pid pid)) (before.born parent pid entry)
  | createdMany {after} (nested count parent result) : ReflTransGen Birth before after →
      Step before (.createMany nested count parent) result after
  | cloned {source pid} (entry copy) : before.freePid? = some pid →
      (∃ p, before.table[source]? = some p) →
      Step before (.clone source) (.ok (.pid pid))
        ((before.born (some source) pid entry).update pid ({ · with space := some copy }))
  | destroyed (pid cascade removed) :
      Step before (.destroy pid cascade) (.ok .done) (before.removeAll (pid :: removed))
  | linked {parent child} : (∃ p, before.table[parent]? = some p) →
      (∃ p, before.table[child]? = some p) → before.parentOf child = none →
      child ∉ before.lineage parent →
      Step before (.addChild parent child) (.ok .done) (before.adopt parent child)
  | changed {pid state p} : before.table[pid]? = some p → p.canEnter state = true →
      Step before (.changeState pid state) (.ok (.flag true)) (before.enter pid state)
  | ignored (pid state) : Step before (.changeState pid state) (.ok (.flag false)) before
  | exited {pid p} (status) : before.table[pid]? = some p → p.canEnter .terminated = true →
      Step before (.exit pid status) (.ok .done)
        ((before.enter pid .terminated).update pid ({ · with exitStatus := some status }))
  | notExited {pid p} (status) : before.table[pid]? = some p → p.canEnter .terminated = false →
      Step before (.exit pid status) (.ok .done) before
  | flagged {pid} (on) : (∃ p, before.table[pid]? = some p) →
      Step before (.setInSystemCall pid on) (.ok .done) (before.flagged pid on)
  | signalled {pid} (signo) : (∃ p, before.table[pid]? = some p) →
      Step before (.signal pid signo) (.ok .done)
        (before.update pid fun p => { p with signals := p.signals ++ [signo] })
  | materialized {pid after} : before.Equipped pid after →
      Step before (.materialize pid) (.ok .done) after
  | notMaterialized {pid after} (fault) : before.Returned pid after →
      Step before (.materialize pid) (.error fault) after
  | turned {command after} (result) : command.isTurn = true → ReflTransGen Turn before after →
      Step before command result after
  | written (writes) : Step before (.writeActive writes) (.ok .done)
      { before with active := before.active.assign writes }
  | interrupts {command} : command = .disableInterrupts ∨ command = .enableInterrupts →
      Step before command (.ok .done) before

variable {memory : MemoryService μ space} {outside : μ → μ → Prop} {start : μ}
  {v w : View μ space} {calls c : List (MemoryCall space)}

namespace Lawful

lemma births (h : v.Lawful) (hbirths : ReflTransGen Birth v w) : w.Lawful := by
  induction hbirths with
  | refl => exact h
  | tail _ hbirth ih =>
    cases hbirth with
    | intro entry hfree hparent => exact ih.born hfree hparent entry

/-- Commands keep a view lawful. -/
theorem step (h : v.Lawful) {command : Command} {result : Except Fault Reply}
    (hstep : v.Step command result w) : w.Lawful := by
  cases hstep with
  | stopped => exact h
  | created entry hfree hparent => exact h.born hfree hparent entry
  | createdMany nested count parent result hbirths => exact h.births hbirths
  | @cloned source pid entry copy hfree hsource =>
    have hborn : (v.born (some source) pid entry).Lawful := by
      refine h.born hfree ?_ entry
      rintro q ⟨⟩
      exact hsource
    obtain ⟨p, hp⟩ := hsource
    have hne : source ≠ pid := by
      rintro rfl
      rw [get?_of_freePid? hfree] at hp
      cases hp
    exact hborn.update (get?_born_self v (mt Option.some_inj.mp hne) entry) (fun _ => rfl) (fun _ => rfl)
      Iff.rfl fun _ => rfl
  | destroyed pid cascade removed => exact h.removeAll (pid :: removed)
  | linked hp hc hroot hapart => exact h.adopt_of_lineage hp hc hroot hapart
  | changed hp hcan => exact h.enter hp hcan
  | ignored => exact h
  | @exited pid p status hp hcan =>
    have hentered := h.enter hp hcan
    have hself : (v.enter pid .terminated).table[pid]? = some (v.afterEntry pid .terminated pid p) := by
      rw [get?_enter hp, hp]
      rfl
    have hbacked := hentered.backed pid _ hself
    exact hentered.update hself (fun _ => rfl) (fun _ => rfl) Iff.rfl hbacked
  | notExited => exact h
  | flagged on hp => exact h.flagged hp on
  | @signalled pid signo hp =>
    obtain ⟨p, hp⟩ := hp
    exact h.update hp (fun _ => rfl) (fun _ => rfl) Iff.rfl (h.backed pid p hp)
  | materialized hw => exact h.equipped hw
  | notMaterialized fault hw => exact h.returned hw
  | turned result _ hturns => exact h.turns hturns
  | written => exact h.congr rfl rfl
  | interrupts => exact h

end Lawful

/-! ### Limits -/

lemma born_limits (v : View μ space) (parent : Option Pid) (pid : Pid) (entry : UInt64) :
    (v.born parent pid entry).limits = v.limits := by
  cases parent <;> rfl

lemma born_running (v : View μ space) (parent : Option Pid) (pid : Pid) (entry : UInt64) :
    (v.born parent pid entry).running = v.running := by
  cases parent <;> rfl

lemma removeAll_limits (v : View μ space) (pids : List Pid) : (v.removeAll pids).limits = v.limits := by
  induction pids generalizing v with
  | nil => rfl
  | cons pid pids ih => exact ih (v.remove pid)

lemma Turn.limits (h : v.Turn w) : w.limits = v.limits := by
  cases h with
  | equipped hw =>
    obtain ⟨p, handle, root, userStack, kernelStack, -, -, rfl⟩ := hw
    rfl
  | returned hw => rcases hw with rfl | ⟨p, handle, -, -, -, rfl⟩ <;> rfl
  | promoted hp => exact enter_limits hp .running

/-- No command changes the limits. -/
theorem Step.limits {command : Command} {result : Except Fault Reply} (h : v.Step command result w) :
    w.limits = v.limits := by
  cases h with
  | stopped | ignored | notExited | interrupts | written | linked | signalled => rfl
  | created entry => exact born_limits v _ _ entry
  | createdMany nested count parent result hbirths =>
    induction hbirths with
    | refl => rfl
    | tail _ hbirth ih =>
      cases hbirth with
      | intro entry => exact (born_limits _ _ _ entry).trans ih
  | @cloned source pid entry => exact born_limits v (some source) pid entry
  | destroyed => exact removeAll_limits v _
  | changed hp => exact enter_limits hp _
  | exited status hp => exact enter_limits hp .terminated
  | flagged on =>
    rw [View.flagged]
    split <;> rfl
  | materialized hw => exact (Turn.equipped hw).limits
  | notMaterialized fault hw => exact (Turn.returned hw).limits
  | turned result _ hturns =>
    induction hturns with
    | refl => rfl
    | tail _ hturn ih => exact hturn.limits.trans ih

/-! ### Contracts -/

/-- A change that the memory has no part in and that moves no space. -/
lemma Accounts.of_same_spaces (h : Traffic memory outside start calls v.memory v.spaces)
    (hmemory : w.memory = v.memory) (hspaces : ∀ pid : Nat, w.spaceOf pid = v.spaceOf pid) :
    Accounts memory outside start 0 w calls w := by
  refine .self ?_
  rw [hmemory, spaces_congr hspaces]
  exact h

lemma enter_memory (v : View μ space) (pid : Pid) (state : ProcessState) :
    (v.enter pid state).memory = v.memory := by
  have hmemory := congrArg View.memory (enter_withMemory v v.memory pid state)
  exact hmemory

lemma born_memory (v : View μ space) (parent : Option Pid) (pid : Pid) (entry : UInt64) :
    (v.born parent pid entry).memory = v.memory := by
  cases parent <;> rfl

lemma ensures_create_birth (h : Traffic memory outside start calls v.memory v.spaces)
    (parent : Option Pid) (entry : UInt64) :
    (create parent entry : Action space (View μ space) Pid).Ensures calls v
      (fun pid c w => w = v.born parent pid entry ∧ v.freePid? = some pid ∧
        (∀ q ∈ parent, ∃ p, v.table[q]? = some p) ∧ Accounts memory outside start 0 w c w)
      fun _ c w => w = v ∧ Accounts memory outside start 0 w c w := by
  refine (ensures_create parent entry).mono ?_ ?_
  · rintro pid _ _ ⟨rfl, rfl, hfree, hparent⟩
    exact ⟨rfl, hfree, hparent, .of_same_spaces h (born_memory v parent pid entry)
      (spaceOf_born (get?_of_freePid? hfree) parent entry)⟩
  · rintro _ _ _ ⟨-, rfl, rfl⟩
    exact ⟨rfl, .self h⟩

lemma ensures_createMany (h : Traffic memory outside start calls v.memory v.spaces) (nested : Bool)
    (count : Nat) (parent : Option Pid) :
    (createMany nested count parent : Action space (View μ space) _).Ensures calls v
      (fun _ c w => ReflTransGen Birth v w ∧ Accounts memory outside start 0 w c w)
      fun _ c w => ReflTransGen Birth v w ∧ Accounts memory outside start 0 w c w := by
  induction count generalizing v calls parent with
  | zero => exact ensures_pure ⟨.refl, .self h⟩
  | succ count ih =>
    refine ensures_bind
      (Q := fun _ c w => ReflTransGen Birth v w ∧ Accounts memory outside start 0 w c w)
      (ensures_attempt ((ensures_create_birth h parent 0).mono ?_ ?_)) ?_
    · rintro pid c _ ⟨rfl, hfree, hparent, h⟩
      exact ⟨.single (.intro 0 hfree hparent), h⟩
    · rintro (e | reason) c _ ⟨rfl, hself⟩
      · exact ⟨.refl, hself⟩
      · exact ⟨.refl, hself⟩
    · rintro (e | pid) c w ⟨hbirths, h⟩
      · exact ensures_pure ⟨hbirths, h⟩
      · refine (ih h.settled _).bind ?_ ?_
        · rintro _ c w ⟨hmore, h⟩
          exact ⟨hbirths.trans hmore, h⟩
        · rintro _ c w ⟨hmore, h⟩
          exact ensures_pure ⟨hbirths.trans hmore, h⟩

/-- What a command that lets processes have memory and the processor replies, with the calls made so
far and the view after it. -/
inductive Round (memory : MemoryService μ space) (before : View μ space)
    (asked : List (MemoryCall space)) : Command → Reply → List (MemoryCall space) → View μ space → Prop
  | tick {made outcome target asked' after} :
      Decision memory before asked made (outcome, target) asked' after →
      Round memory before asked .tick (.outcome outcome) asked' after
  | ticks {outcomes asked' after} (count) : Decisions memory before asked outcomes asked' after →
      Round memory before asked (.ticks count) (.outcomes outcomes) asked' after
  | schedule {made outcome target asked' after} :
      Decision memory before asked made (outcome, target) asked' after →
      Round memory before asked .schedule (.decision outcome target) asked' after
  | materializeCreated {made asked' after} :
      Attempts memory before asked before.createdPids made asked' after →
      Round memory before asked .materializeCreated (.count made) asked' after

/-- In no such command anything fails. -/
theorem ensures_round {stopped : Fault → List (MemoryCall space) → View μ space → Prop}
    (hlawful : v.Lawful) (hrange : v.InRange) {command : Command} (hturn : command.isTurn = true) :
    (perform memory command).Ensures calls v (Round memory v calls command) stopped := by
  cases command with
  | tick =>
    exact ensures_bind (ensures_tick hlawful hrange) fun _ _ _ ⟨_, _, hdecision⟩ =>
      ensures_pure (.tick hdecision)
  | ticks count =>
    exact ensures_bind (ensures_ticks hlawful hrange count) fun _ _ _ ⟨_, hdecisions⟩ =>
      ensures_pure (.ticks count hdecisions)
  | schedule =>
    exact ensures_bind (ensures_schedule hlawful hrange) fun _ _ _ ⟨_, hdecision⟩ =>
      ensures_pure (.schedule hdecision)
  | materializeCreated =>
    exact ensures_bind (ensures_materializeCreated hlawful) fun _ _ _ hattempts =>
      ensures_pure (.materializeCreated hattempts)
  | _ => cases hturn

lemma Round.turned {command : Command} {reply : Reply}
    (h : Round memory v calls command reply c w)
    (htraffic : Traffic memory outside start calls v.memory v.spaces) :
    Turned memory outside start v c w := by
  have hself : Accounts memory outside start 0 v calls v := .self htraffic
  cases h with
  | tick hdecision | schedule hdecision => exact hdecision.turned hself
  | ticks _ hdecisions => exact hdecisions.turned hself
  | materializeCreated hattempts => exact hattempts.turned hself

/-- A command makes one of the steps it can make, with the accounts in order. -/
theorem ensures_perform (hlawful : v.Lawful) (hrange : v.InRange)
    (h : Traffic memory outside start calls v.memory v.spaces) (command : Command) :
    (perform memory command).Ensures calls v
      (fun reply c w => ∃ v', v.Step command (.ok reply) v' ∧ Accounts memory outside start 0 v' c w)
      fun fault c w => ∃ v', v.Step command (.error fault) v' ∧
        Accounts memory outside start 0 v' c w := by
  have hself : Accounts memory outside start 0 v calls v := .self h
  have hstopped : ∀ {fault : Fault} {c : List (MemoryCall space)} {w : View μ space},
      Unmoved calls v fault c w → ∃ v', v.Step command (.error fault) v' ∧
        Accounts memory outside start 0 v' c w := by
    rintro fault _ _ ⟨rfl, rfl⟩
    exact ⟨_, .stopped command fault, hself⟩
  by_cases hturn : command.isTurn = true
  · refine (ensures_round hlawful hrange hturn).mono (fun reply c w hround => ?_) fun _ _ _ h => h
    obtain ⟨v', hturns, haccounts⟩ := hround.turned h
    exact ⟨v', .turned _ hturn hturns, haccounts⟩
  cases command with
  | tick | ticks | schedule | materializeCreated => exact absurd rfl hturn
  | create parent entry =>
    refine (ensures_create_birth h parent entry).bind ?_ ?_
    · rintro fault c _ ⟨rfl, hstop⟩
      exact ⟨_, .stopped _ fault, hstop⟩
    · rintro pid c _ ⟨rfl, hfree, hparent, h⟩
      exact ensures_pure ⟨_, .created entry hfree hparent, h⟩
  | createMany nested count parent =>
    refine (ensures_createMany h nested count parent).bind ?_ ?_
    · rintro fault c w ⟨hbirths, h⟩
      exact ⟨w, .createdMany nested count parent _ hbirths, h⟩
    · rintro result c w ⟨hbirths, h⟩
      exact ensures_pure ⟨w, .createdMany nested count parent _ hbirths, h⟩
  | clone source =>
    refine (ensures_clone hlawful hself source).bind ?_ ?_
    · exact fun fault c w h => ⟨v, .stopped _ fault, h.1⟩
    · rintro pid c w ⟨entry, held, copy, hfree, hheld, -, h⟩
      obtain ⟨p, hp, -⟩ := Option.bind_eq_some_iff.mp hheld
      exact ensures_pure ⟨_, .cloned entry copy hfree ⟨p, hp⟩, h⟩
  | destroy pid cascade =>
    refine (ensures_destroy hlawful hself pid cascade).bind (fun _ _ _ => hstopped) ?_
    rintro _ c w ⟨removed, h⟩
    exact ensures_pure ⟨_, .destroyed pid cascade removed, h⟩
  | addChild parent child =>
    refine (ensures_addChild parent child).bind (fun _ _ _ => hstopped) ?_
    rintro _ _ _ ⟨rfl, rfl, hp, hc, hroot, hapart⟩
    exact ensures_pure ⟨_, .linked hp hc hroot hapart,
      .of_same_spaces h rfl (spaceOf_adopt v parent child)⟩
  | changeState pid state =>
    refine (ensures_changeState pid state).bind (fun _ _ _ => hstopped) ?_
    rintro changed _ _ ⟨rfl, p, hp, hcan, rfl⟩
    cases changed with
    | true =>
      exact ensures_pure ⟨_, .changed hp hcan,
        .of_same_spaces h (enter_memory v pid state) (spaceOf_enter hp state)⟩
    | false => exact ensures_pure ⟨_, .ignored pid state, hself⟩
  | exit pid status =>
    apply (ensures_exit pid status).bind (fun _ _ _ => hstopped)
    rintro _ _ _ ⟨rfl, p, hp, ⟨hcan, rfl⟩ | ⟨hcan, rfl⟩⟩
    · refine ensures_pure ⟨_, .exited status hp hcan, .of_same_spaces h ?_ fun q => ?_⟩
      · exact enter_memory v pid .terminated
      · rw [spaceOf_update _ pid q (by intro _; rfl), spaceOf_enter hp]
    · exact ensures_pure ⟨_, .notExited status hp hcan, hself⟩
  | setInSystemCall pid on =>
    refine (ensures_setInSystemCall pid on).bind (fun _ _ _ => hstopped) ?_
    rintro _ _ _ ⟨rfl, rfl, hp⟩
    refine ensures_pure ⟨_, .flagged on hp, .of_same_spaces h ?_ fun q => ?_⟩
    · rw [View.flagged]
      split <;> rfl
    · rw [View.flagged]
      split
      · rfl
      · exact spaceOf_update v pid q fun _ => rfl
  | signal pid signo =>
    refine (ensures_postSignal pid signo).bind (fun _ _ _ => hstopped) ?_
    rintro _ _ _ ⟨rfl, rfl, hp⟩
    exact ensures_pure ⟨_, .signalled signo hp,
      .of_same_spaces h rfl fun q => spaceOf_update v pid q fun _ => rfl⟩
  | materialize pid =>
    refine (ensures_materialize hlawful hself pid).bind ?_ ?_
    · rintro fault c w ⟨v', hv', h⟩
      exact ⟨v', .notMaterialized fault hv', h⟩
    · rintro _ c w ⟨v', hv', h⟩
      exact ensures_pure ⟨v', .materialized hv', h⟩
  | writeActive writes =>
    exact ensures_run_bind (run_modify _ _) (ensures_pure ⟨_, .written writes,
      .of_same_spaces h rfl fun _ => rfl⟩)
  | disableInterrupts => exact ensures_pure ⟨v, .interrupts (.inl rfl), hself⟩
  | enableInterrupts => exact ensures_pure ⟨v, .interrupts (.inr rfl), hself⟩

end View

end Uniprocessor
