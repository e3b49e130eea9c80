import Uniprocessor.Proofs.Provision

/-!
# Turns

What the ticks of the timer make of a view. A tick picks the process whose turn it is, gives memory
to the processes that wait for it, and puts the one it picked on the processor. The attempts to give
memory do not touch those that wait for their turn, so the choice stays good.
-/

namespace Uniprocessor

open Uniprocessor.Action Relation

namespace View

variable {μ space : Type} {memory : MemoryService μ space} {outside : μ → μ → Prop} {start : μ}
  {v w : View μ space} {calls c : List (MemoryCall space)} {pid : Pid} {p : ProcessView space}
  {post : TickResult × Option ResumePoint → List (MemoryCall space) → View μ space → Prop}
  {stopped : Fault → List (MemoryCall space) → View μ space → Prop}

/-! ### What attempts leave alone -/

/-- Nothing has changed but the records of some processes, and the memory. -/
structure Confined (pids : List Pid) (v w : View μ space) : Prop where
  limits : w.limits = v.limits
  running : w.running = v.running
  active : w.active = v.active
  live : ∀ q : Nat, w.table[q]?.isSome = v.table[q]?.isSome
  others : ∀ q : Nat, q ∉ pids → w.table[q]? = v.table[q]?

lemma confined_withMemory (v : View μ space) (pids : List Pid) (m : μ) :
    Confined pids v { v with memory := m } :=
  ⟨rfl, rfl, rfl, fun _ => rfl, fun _ _ => rfl⟩

lemma confined_update (v : View μ space) (pid : Nat) (m : μ) (f : ProcessView space → ProcessView space) :
    Confined [pid] v ({ v with memory := m }.update pid f) := by
  refine ⟨rfl, rfl, rfl, fun q => ?_, fun q hq => ?_⟩
  · rw [get?_update]
    split
    · rename_i hq
      rw [hq, Option.isSome_map]
    · rfl
  · rw [get?_update, if_neg fun heq => hq (List.mem_singleton.mpr heq)]

lemma Attempt.confined {result : Except Refusal Unit} (h : Attempt memory v calls pid result c w) :
    Confined [pid] v w := by
  cases h with
  | unknown | late => exact confined_withMemory v [pid] v.memory
  | spaceless | dropped => exact confined_withMemory v [pid] _
  | kept => exact confined_update v pid _ _
  | equipped => exact confined_update v pid _ _

lemma Confined.cons {u : View μ space} {pids : List Pid} (h : Confined [pid] u v)
    (hrest : Confined pids v w) : Confined (pid :: pids) u w where
  limits := hrest.limits.trans h.limits
  running := hrest.running.trans h.running
  active := hrest.active.trans h.active
  live q := (hrest.live q).trans (h.live q)
  others q hq := by
    rw [List.mem_cons, not_or] at hq
    exact (hrest.others q hq.2).trans (h.others q (by simpa using hq.1))

lemma Attempts.confined {pids : List Pid} {count : Nat}
    (h : Attempts memory v calls pids count c w) : Confined pids v w := by
  induction h with
  | nil v => exact confined_withMemory v [] v.memory
  | given hattempt _ ih => exact hattempt.confined.cons ih
  | declined hattempt _ ih => exact hattempt.confined.cons ih

lemma Confined.inRange {pids : List Pid} (h : Confined pids v w) (hrange : v.InRange) : w.InRange := by
  intro q r hr
  have hlive := h.live q
  rw [hr, Option.isSome_some, eq_comm, Option.isSome_iff_exists] at hlive
  obtain ⟨r', hr'⟩ := hlive
  rw [h.limits]
  exact hrange q r' hr'

/-! ### Whose turn it is -/

lemma mem_createdPids {q : Nat} :
    q ∈ v.createdPids ↔ ∃ p, v.table[q]? = some p ∧ p.state = .created := by
  simp [createdPids, Std.ExtTreeMap.mem_toList_iff_getElem?_eq_some]

lemma nodup_createdPids (v : View μ space) : v.createdPids.Nodup := by
  have hkeys := v.keys_nodup
  rw [← Std.ExtTreeMap.map_fst_toList_eq_keys] at hkeys
  exact hkeys.sublist (List.filter_sublist.map _)

/-- Whose turn it is waits for it. -/
lemma get?_of_nextInTurn {start : Option Pid} (h : v.nextInTurn start = some pid) :
    ∃ p, v.table[pid]? = some p ∧ p.state = .waiting := by
  obtain ⟨⟨q, p⟩, hfound, rfl⟩ := Option.map_eq_some_iff.mp h
  have hmem : (q, p) ∈ v.table.toList := by
    have hcycle := List.mem_of_find?_eq_some hfound
    unfold cycleFrom at hcycle
    split at hcycle
    · exact hcycle
    · split at hcycle
      · rcases List.mem_append.mp hcycle with hbehind | hbefore
        · exact List.mem_of_mem_filter hbehind
        · exact List.mem_of_mem_filter hbefore
      · exact hcycle
  exact ⟨p, Std.ExtTreeMap.mem_toList_iff_getElem?_eq_some.mp hmem,
    by simpa using List.find?_some hfound⟩

lemma not_mem_createdPids (hp : v.table[pid]? = some p) (hstate : p.state ≠ .created) :
    pid ∉ v.createdPids := by
  rw [mem_createdPids]
  rintro ⟨q, hq, hcreated⟩
  rw [hp, Option.some_inj] at hq
  exact hstate (hq ▸ hcreated)

/-- The choice stays good while the created processes get memory. -/
lemma Attempts.get?_of_nextInTurn {made : Nat} (h : Attempts memory v calls v.createdPids made c w)
    (hnext : v.nextInTurn v.running = some pid) :
    ∃ p, v.table[pid]? = some p ∧ p.state = .waiting ∧ w.table[pid]? = some p := by
  obtain ⟨p, hp, hstate⟩ := View.get?_of_nextInTurn hnext
  refine ⟨p, hp, hstate, ?_⟩
  rw [h.confined.others pid (not_mem_createdPids hp (by simp [hstate])), hp]

/-! ### Decisions -/

variable (memory) in
/-- How many processes get memory in a tick and what it decides, with the calls made so far and the
view after it. -/
inductive Decision (v : View μ space) (calls : List (MemoryCall space)) :
    Nat → TickResult × Option ResumePoint → List (MemoryCall space) → View μ space → Prop
  | idle : v.table.isEmpty = true → Decision v calls 0 (.idle, none) calls v
  | continued {made c w} : v.table.isEmpty = false → v.nextInTurn v.running = none →
      Attempts memory v calls v.createdPids made c w → Decision v calls made (.continued, none) c w
  | switched {pid p made c w} : v.nextInTurn v.running = some pid → v.table[pid]? = some p →
      p.state = .waiting → Attempts memory v calls v.createdPids made c w →
      w.table[pid]? = some p →
      Decision v calls made (.switched pid, some p.context.resumePoint) c (w.enter pid .running)

lemma canEnter_running (hstate : p.state = .waiting) : p.canEnter .running = true := by
  simp [ProcessView.canEnter, hstate, ProcessState.canBecome]

lemma run_changeState (hcheck : v.check pid = .ok ()) (hp : v.table[pid]? = some p)
    {state : ProcessState} (hcan : p.canEnter state = true) :
    (changeState pid state : Action space (View μ space) Bool).run v =
      ⟨.ok true, v.enter pid state, []⟩ := by
  rw [changeState, run_bind_quiet (run_require hcheck), run_bind_quiet (run_requestState hp hcan)]
  rfl

lemma ensures_promote (hrange : v.InRange) (hp : v.table[pid]? = some p) (hstate : p.state = .waiting)
    (h : post (.switched pid, some p.context.resumePoint) calls (v.enter pid .running)) :
    (promote pid : Action space (View μ space) _).Ensures calls v post stopped := by
  refine ensures_run_bind (run_attempt_ok
    (run_changeState (hrange.check hp) hp (canEnter_running hstate))) ?_
  apply ensures_get_bind
  rw [enter_active hp, if_pos rfl]
  exact ensures_pure h

/-- A tick comes to a decision, and nothing in it fails. -/
theorem ensures_schedule (hlawful : v.Lawful) (hrange : v.InRange) :
    (schedule memory).Ensures calls v
      (fun decision c w => ∃ made, Decision memory v calls made decision c w) stopped := by
  apply ensures_get_bind
  split
  · rename_i hempty
    exact ensures_pure ⟨0, .idle hempty⟩
  · rename_i hempty
    rw [Bool.not_eq_true] at hempty
    apply ensures_bind (ensures_materializeCreated hlawful)
    intro made c w hattempts
    cases hnext : v.nextInTurn v.running with
    | none => exact ensures_pure ⟨made, .continued hempty hnext hattempts⟩
    | some pid =>
      obtain ⟨p, hp, hstate, hp'⟩ := hattempts.get?_of_nextInTurn hnext
      exact ensures_promote (hattempts.confined.inRange hrange) hp' hstate
        ⟨made, .switched hnext hp hstate hattempts hp'⟩

namespace Decision

variable {made : Nat} {decision : TickResult × Option ResumePoint}

lemma lawful (h : Decision memory v calls made decision c w) (hlawful : v.Lawful) : w.Lawful := by
  cases h with
  | idle => exact hlawful
  | continued _ _ hattempts => exact hattempts.lawful hlawful
  | switched _ _ hstate hattempts hp =>
    exact (hattempts.lawful hlawful).enter hp (canEnter_running hstate)

lemma inRange (h : Decision memory v calls made decision c w) (hrange : v.InRange) : w.InRange := by
  cases h with
  | idle => exact hrange
  | continued _ _ hattempts => exact hattempts.confined.inRange hrange
  | switched _ _ hstate hattempts hp => exact (hattempts.confined.inRange hrange).enter hp .running

end Decision

/-- The decisions of several ticks, one after the other. -/
inductive Decisions (memory : MemoryService μ space) : View μ space → List (MemoryCall space) →
    List TickResult → List (MemoryCall space) → View μ space → Prop
  | nil (before asked) : Decisions memory before asked [] asked before
  | cons {before asked made outcome target asked' between outcomes asked'' after} :
      Decision memory before asked made (outcome, target) asked' between →
      Decisions memory between asked' outcomes asked'' after →
      Decisions memory before asked (outcome :: outcomes) asked'' after

lemma ensures_tick (hlawful : v.Lawful) (hrange : v.InRange) :
    (tick memory).Ensures calls v
      (fun outcome c w => ∃ made target, Decision memory v calls made (outcome, target) c w) stopped :=
  ensures_bind (ensures_schedule hlawful hrange) fun _ _ _ ⟨_, h⟩ => ensures_pure ⟨_, _, h⟩

theorem ensures_ticks (hlawful : v.Lawful) (hrange : v.InRange) (count : Nat) :
    (ticks memory count).Ensures calls v
      (fun outcomes c w => outcomes.length = count ∧ Decisions memory v calls outcomes c w) stopped := by
  induction count generalizing v calls with
  | zero => exact ensures_pure ⟨rfl, .nil v calls⟩
  | succ count ih =>
    apply ensures_bind (ensures_tick hlawful hrange)
    rintro outcome c w ⟨made, target, hdecision⟩
    exact ensures_bind (ih (hdecision.lawful hlawful) (hdecision.inRange hrange))
      fun _ _ _ ⟨hlength, h⟩ => ensures_pure ⟨congrArg (· + 1) hlength, .cons hdecision h⟩

/-! ### Turns -/

/-- A turn of events without anybody being created, linked or destroyed: memory is given to a
process, or tried to be, or a process gets the processor. -/
inductive Turn : View μ space → View μ space → Prop
  | equipped {before pid after} : Equipped before pid after → Turn before after
  | returned {before pid after} : Returned before pid after → Turn before after
  | promoted {before pid p} : before.table[pid]? = some p → p.canEnter .running = true →
      Turn before (before.enter pid .running)

lemma Lawful.turn (h : v.Lawful) (hturn : v.Turn w) : w.Lawful := by
  cases hturn with
  | equipped hw => exact h.equipped hw
  | returned hw => exact h.returned hw
  | promoted hp hcan => exact h.enter hp hcan

lemma Lawful.turns (h : v.Lawful) (hturns : ReflTransGen Turn v w) : w.Lawful := by
  induction hturns with
  | refl => exact h
  | tail _ hturn ih => exact ih.turn hturn

variable (memory outside start) in
/-- Turns of events lead from `v` to `w`, with the accounts in order. -/
def Turned (v : View μ space) (calls : List (MemoryCall space)) (w : View μ space) : Prop :=
  ∃ v', ReflTransGen Turn v v' ∧ Accounts memory outside start 0 v' calls w

lemma Turned.after {v' : View μ space} (hbefore : ReflTransGen Turn v v')
    (h : Turned memory outside start v' calls w) : Turned memory outside start v calls w := by
  obtain ⟨v'', hturns, haccounts⟩ := h
  exact ⟨v'', hbefore.trans hturns, haccounts⟩

theorem Attempts.turned {pids : List Pid} {count : Nat} {w' : View μ space}
    (hattempts : Attempts memory w calls pids count c w')
    (h : Accounts memory outside start 0 v calls w) : Turned memory outside start v c w' := by
  induction hattempts generalizing v with
  | nil => exact ⟨v, .refl, h⟩
  | given hattempt _ ih =>
    obtain ⟨v', hv', haccounts⟩ := h.given hattempt
    exact .after (.single (.equipped hv')) (ih haccounts)
  | declined hattempt _ ih =>
    obtain ⟨v', hv', haccounts⟩ := h.declined hattempt
    exact .after (.single (.returned hv')) (ih haccounts)

theorem Decision.turned {made : Nat} {decision : TickResult × Option ResumePoint} {w' : View μ space}
    (hdecision : Decision memory w calls made decision c w')
    (h : Accounts memory outside start 0 v calls w) : Turned memory outside start v c w' := by
  cases hdecision with
  | idle => exact ⟨v, .refl, h⟩
  | continued _ _ hattempts => exact hattempts.turned h
  | @switched pid p made _ w _ _ hstate hattempts hp =>
    obtain ⟨v', hturns, haccounts⟩ := hattempts.turned h
    rw [haccounts.table_eq] at hp
    exact ⟨_, hturns.tail (.promoted hp (canEnter_running hstate)),
      haccounts.congr (·.enter pid .running) (enter_withMemory v' w.memory pid .running)
        (spaceOf_enter hp .running)⟩

theorem Decisions.turned {outcomes : List TickResult} {w' : View μ space}
    (hdecisions : Decisions memory w calls outcomes c w')
    (h : Accounts memory outside start 0 v calls w) : Turned memory outside start v c w' := by
  induction hdecisions generalizing v with
  | nil => exact ⟨v, .refl, h⟩
  | cons hdecision _ ih =>
    obtain ⟨v', hturns, haccounts⟩ := hdecision.turned h
    exact .after hturns (ih haccounts)

end View

end Uniprocessor
