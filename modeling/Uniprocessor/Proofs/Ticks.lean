import Mathlib.Data.List.Find
import Uniprocessor.Proofs.Contexts

/-!
# What a tick decides

A tick never fails. It hands the processor to the first process that waits in the order of turns,
whatever the attempts to give memory in the same tick come to, and counts what it did.
-/

namespace Uniprocessor

open Uniprocessor.Action

variable {μ space : Type}

namespace View

variable {memory : MemoryService μ space} {v w : View μ space} {calls c : List (MemoryCall space)}
  {pid : Pid} {p : ProcessView space}

def stateOf (v : View μ space) (pid : Pid) : Option ProcessState := v.table[pid]?.map (·.state)

lemma stateOf_eq (hp : v.table[pid]? = some p) : v.stateOf pid = some p.state := by
  rw [stateOf, hp, Option.map_some]

lemma stateOf_eq_some {state : ProcessState} :
    v.stateOf pid = some state ↔ ∃ p, v.table[pid]? = some p ∧ p.state = state :=
  Option.map_eq_some_iff

lemma stateOf_enter (hp : v.table[pid]? = some p) (state : ProcessState) (q : Nat) :
    (v.enter pid state).stateOf q = (v.stateOf q).map fun before =>
      if q = pid then state
      else if state = .running ∧ v.running = some q then .waiting else before := by
  rw [stateOf, get?_enter hp, stateOf, Option.map_map, Option.map_map]
  congr 1
  funext r
  exact afterEntry_state v pid state q r

lemma isEmpty_of_get? (hp : v.table[pid]? = some p) : v.table.isEmpty = false := by
  rw [Std.ExtTreeMap.isEmpty_eq_false_iff]
  intro hempty
  rw [hempty] at hp
  simp at hp

/-- What is asked of the states of processes can be asked of their entries. -/
lemma stateOf_of_mem_toList {entry : Pid × ProcessView space} (h : entry ∈ v.table.toList) :
    v.stateOf entry.1 = some entry.2.state :=
  stateOf_eq (Std.ExtTreeMap.mem_toList_iff_getElem?_eq_some.mp h)

lemma createdPids_eq (v : View μ space) :
    v.createdPids = v.table.keys.filter (v.stateOf · == some .created) := by
  rw [createdPids, ← Std.ExtTreeMap.map_fst_toList_eq_keys, List.filter_map]
  congr 1
  refine List.filter_congr fun entry hentry => ?_
  rw [Function.comp_apply, stateOf_of_mem_toList hentry]
  rfl

/-! ### How many processes get memory -/

lemma Attempt.stateOf_of_ok (h : Attempt memory v calls pid (.ok ()) c w) :
    w.stateOf pid = some .waiting := by
  obtain ⟨v', ⟨p, _, _, _, _, hp, -, rfl⟩, hsame⟩ := h.equipped_of_ok
  rw [stateOf, hsame, get?_update, if_pos rfl, hp]
  rfl

lemma Attempt.stateOf_of_error {e : Refusal} (h : Attempt memory v calls pid (.error e) c w) :
    w.stateOf pid = v.stateOf pid := by
  obtain ⟨v', hreturned, hsame⟩ := h.returned_of_error
  rw [stateOf, hsame]
  rcases hreturned with rfl | ⟨p, _, hp, -, -, rfl⟩
  · rfl
  · rw [get?_update, if_pos rfl, hp, stateOf_eq hp]
    rfl

lemma Confined.stateOf_eq {pids : List Pid} (h : Confined pids v w) (hpid : pid ∉ pids) :
    w.stateOf pid = v.stateOf pid := by
  rw [stateOf, h.others pid hpid, stateOf]

/-- The attempts that succeed are as many as the processes that wait afterwards. -/
theorem Attempts.made_eq {pids : List Pid} {made : Nat} (h : Attempts memory v calls pids made c w)
    (hnodup : pids.Nodup) (hcreated : ∀ q ∈ pids, v.stateOf q = some .created) :
    made = (pids.filter (w.stateOf · == some .waiting)).length := by
  induction h with
  | nil => rfl
  | @given before _ first between _ rest count _ after hattempt hrest ih =>
    rw [List.nodup_cons] at hnodup
    have hfirst : after.stateOf first = some .waiting :=
      (hrest.confined.stateOf_eq hnodup.1).trans hattempt.stateOf_of_ok
    have hmade := ih hnodup.2 fun q hq => by
      rw [hattempt.confined.stateOf_eq (by rintro hmem; exact hnodup.1 (List.mem_singleton.mp hmem ▸ hq))]
      exact hcreated q (List.mem_cons_of_mem _ hq)
    rw [List.filter_cons_of_pos (by rw [hfirst]; rfl), List.length_cons, hmade]
  | @declined before _ first e between _ rest count _ after hattempt hrest ih =>
    rw [List.nodup_cons] at hnodup
    have hfirst : after.stateOf first = some .created := by
      rw [hrest.confined.stateOf_eq hnodup.1, hattempt.stateOf_of_error]
      exact hcreated first List.mem_cons_self
    have hmade := ih hnodup.2 fun q hq => by
      rw [hattempt.confined.stateOf_eq (by rintro hmem; exact hnodup.1 (List.mem_singleton.mp hmem ▸ hq))]
      exact hcreated q (List.mem_cons_of_mem _ hq)
    rw [List.filter_cons_of_neg (by rw [hfirst]; decide), hmade]

/-! ### Whose turn it is -/

/-- The live processes in the order of turns: those behind the one that runs, then the others. -/
def turnOrder (v : View μ space) : List Pid :=
  match v.running with
  | none => v.table.keys
  | some runner => v.table.keys.filter (runner < ·) ++ v.table.keys.filter (· ≤ runner)

lemma Lawful.turnOrder_eq (h : v.Lawful) :
    v.turnOrder = (v.cycleFrom v.running).map Prod.fst := by
  unfold turnOrder cycleFrom
  cases hrunning : v.running with
  | none => exact (Std.ExtTreeMap.map_fst_toList_eq_keys).symm
  | some runner =>
    obtain ⟨p, hp⟩ := h.live runner hrunning
    have hlive : v.table.contains runner = true := by
      rw [get?_iff_mem, hp]
      rfl
    dsimp only
    rw [if_pos hlive, List.map_append, ← Std.ExtTreeMap.map_fst_toList_eq_keys, List.filter_map,
      List.filter_map]
    rfl

lemma mem_toList_of_mem_cycleFrom {start : Option Pid} {entry : Pid × ProcessView space}
    (h : entry ∈ v.cycleFrom start) : entry ∈ v.table.toList := by
  unfold cycleFrom at h
  split at h
  · exact h
  · split at h
    · rcases List.mem_append.mp h with hbehind | hbefore
      · exact List.mem_of_mem_filter hbehind
      · exact List.mem_of_mem_filter hbefore
    · exact h

/-- Whose turn it is waits, and nobody before it in the order of turns does. -/
theorem Lawful.nextInTurn_eq (h : v.Lawful) :
    v.nextInTurn v.running = v.turnOrder.find? (v.stateOf · == some .waiting) := by
  rw [nextInTurn, h.turnOrder_eq, List.find?_map]
  congr 1
  refine List.find?_congr fun entry hentry => ?_
  rw [Function.comp_apply, stateOf_of_mem_toList (mem_toList_of_mem_cycleFrom hentry)]
  rfl

/-- Among the created processes, those that wait at the end of a tick got memory in it. -/
theorem Decision.made_eq {made : Nat} {decision : TickResult × Option ResumePoint}
    (h : Decision memory v calls made decision c w) (hlawful : v.Lawful) :
    made = (v.createdPids.filter (w.stateOf · == some .waiting)).length := by
  have hcreated : ∀ q ∈ v.createdPids, v.stateOf q = some .created :=
    fun q hq => stateOf_eq_some.mpr (mem_createdPids.mp hq)
  cases h with
  | idle hempty =>
    rw [createdPids_eq, Std.ExtTreeMap.isEmpty_iff.mp hempty]
    rfl
  | continued _ _ hattempts => exact hattempts.made_eq v.nodup_createdPids hcreated
  | @switched pid p _ _ w _ hp hstate hattempts hp' =>
    rw [hattempts.made_eq v.nodup_createdPids hcreated]
    congr 1
    refine List.filter_congr fun q hq => ?_
    obtain ⟨r, hr, hrcreated⟩ := mem_createdPids.mp hq
    have hne : q ≠ pid := by
      rintro rfl
      exact not_mem_createdPids hp (by simp [hstate]) hq
    have hrunning : w.running ≠ some q := by
      rw [hattempts.confined.running]
      exact hlawful.running_ne hr (by simp [hrcreated])
    rw [stateOf_enter hp']
    simp only [if_neg hne, hrunning, and_false, if_false, Option.map_id']

end View

/-! ### Dispatchers -/

namespace Dispatcher

variable {α : Type} {memory : MemoryService μ space} {d d' : Dispatcher μ space} {v : View μ space}
  {pid : Pid} {p : ProcessView space} {events : List (Event space)} {a : α}

lemma run_onSupervisor {x : Action space (Supervisor μ space) α} {s : Supervisor μ space}
    (h : x.run d.supervisor = ⟨.ok a, s, events⟩) :
    (onSupervisor x).run d = ⟨.ok a, { d with supervisor := s }, events⟩ := by
  rw [onSupervisor, run_within, h]

lemma exists_run_promote (hd : d.Shows v) (hrange : v.InRange) (hp : v.table[pid]? = some p)
    (hstate : p.state = .waiting) :
    ∃ d' events, (promote pid).run d = ⟨.ok (.switched pid, some p.context.resumePoint), d', events⟩ ∧
      d'.Shows (v.enter pid .running) ∧
      d'.counters = { d.counters with contextSwitches := d.counters.contextSwitches + 1 } := by
  have hchange : (View.changeState pid .running : Action space (View μ space) Bool).Ensures [] v
      (fun changed _ w => changed = true ∧ w = v.enter pid .running) fun _ _ _ => False :=
    ensures_of_run (View.run_changeState (hrange.check hp) hp (View.canEnter_running hstate))
      ⟨rfl, rfl⟩
  obtain ⟨_, s, events, _, hrun, hs, rfl, rfl⟩ :=
    (Supervisor.refines_changeState pid .running).exists_run hd hchange
  have hpoint : s.roster.active.resumePoint = p.context.resumePoint := by
    rw [← hs.active, View.enter_active hp, if_pos rfl]
  rw [promote, run_bind, run_attempt_ok (run_onSupervisor hrun), ← hpoint]
  exact ⟨_, _, rfl, hs, rfl⟩

lemma Shows.isEmpty_eq (hd : d.Shows v) : d.supervisor.roster.isEmpty = v.table.isEmpty := by
  have hsize := Supervisor.Shows.size_eq hd
  rw [Roster.isEmpty, Std.ExtTreeMap.isEmpty_eq_size_beq_zero, Std.ExtTreeMap.isEmpty_eq_size_beq_zero,
    hsize]
  rfl

/-- The outcome of a tick that finishes: a decision, as the view has it, and counters to match. -/
def Decided (memory : MemoryService μ space) (d : Dispatcher μ space) (v : View μ space)
    (run : Outcome space (Dispatcher μ space) (TickResult × Option ResumePoint)) : Prop :=
  ∃ made outcome target c w, run.result = .ok (outcome, target) ∧ run.state.Shows w ∧
    View.Decision memory v [] made (outcome, target) c w ∧
    run.state.counters = ⟨d.counters.ticks + 1, d.counters.contextSwitches + target.toList.length,
      d.counters.materialized + made⟩

lemma decided_masked {x : Action space (Dispatcher μ space) (TickResult × Option ResumePoint)}
    (h : Decided memory d v (x.run { d with interrupts := d.interrupts.enter.2 })) :
    Decided memory d v ((masked x).run d) := by
  obtain ⟨made, outcome, target, c, w, hresult, hshows, hdecision, hcounters⟩ := h
  exact ⟨made, outcome, target, c, w, hresult, hshows, hdecision, hcounters⟩

/-- A tick finishes. -/
theorem decided_schedule (hd : d.Shows v) (hlawful : v.Lawful) (hrange : v.InRange) :
    Decided memory d v ((schedule memory).run d) := by
  apply decided_masked
  rw [count, run_bind_quiet (run_modify _ _), run_bind_quiet (run_get _)]
  dsimp only
  rw [hd.isEmpty_eq, Supervisor.Shows.nextInTurn_eq hd]
  cases hempty : v.table.isEmpty with
  | true => exact ⟨0, .idle, none, [], v, rfl, hd, .idle hempty, rfl⟩
  | false =>
    have hcreated : (View.materializeCreated memory).Ensures [] v
        (View.Attempts memory v [] v.createdPids) fun _ _ _ => False :=
      View.ensures_materializeCreated hlawful
    obtain ⟨made, s, events, w, hmade, hs, hattempts⟩ :=
      (Supervisor.refines_materializeCreated memory).exists_run hd hcreated
    rw [if_neg (by decide), run_bind, run_onSupervisor (d := ⟨d.supervisor, d.interrupts.enter.2,
      ⟨d.counters.ticks + 1, d.counters.contextSwitches, d.counters.materialized⟩⟩) hmade]
    dsimp only
    rw [count, run_bind_quiet (run_modify _ _)]
    cases hnext : v.nextInTurn v.running with
    | none => exact ⟨made, .continued, none, _, w, rfl, hs, .continued hempty hnext hattempts, rfl⟩
    | some pid =>
      obtain ⟨p, hp, hstate, hp'⟩ := hattempts.get?_of_nextInTurn hnext
      obtain ⟨d', events, hrun, hshows, hcounters⟩ := exists_run_promote
        (d := ⟨s, d.interrupts.enter.2, ⟨d.counters.ticks + 1, d.counters.contextSwitches,
          d.counters.materialized + made⟩⟩) hs (hattempts.confined.inRange hrange) hp' hstate
      dsimp only
      rw [hrun]
      exact ⟨made, .switched pid, _, _, _, rfl, hshows, .switched hnext hp hstate hattempts hp',
        hcounters⟩

end Dispatcher

/-! ### Ticks in a run -/

namespace Supervisor

variable {s t : Supervisor μ space} {v w : View μ space}

/-- The processes in the order of their turns: in ascending order of identifiers and around, from
behind the one that runs, which comes last. -/
def turnOrder (s : Supervisor μ space) : List Pid :=
  match s.roster.running with
  | none => s.pids.toList
  | some runner => s.pids.toList.filter (runner < ·) ++ s.pids.toList.filter (· ≤ runner)

/-- The first process in the order of turns that waits. -/
def firstWaiting (s : Supervisor μ space) : Option Pid :=
  s.turnOrder.find? (s.stateOf · == some .waiting)

/-- The processes that were created before and wait afterwards. -/
def provided (s t : Supervisor μ space) : List Pid :=
  s.pids.toList.filter fun pid => s.stateOf pid == some .created && t.stateOf pid == some .waiting

lemma Shows.firstWaiting_eq (h : s.Shows v) (hlawful : v.Lawful) :
    s.firstWaiting = v.nextInTurn v.running := by
  have hstate : s.stateOf = v.stateOf := funext h.stateOf_eq
  rw [hlawful.nextInTurn_eq, firstWaiting, hstate, turnOrder, View.turnOrder, h.running, h.usedPids_eq]

lemma Shows.provided_eq (hs : s.Shows v) (ht : t.Shows w) :
    s.provided t = v.createdPids.filter (w.stateOf · == some .waiting) := by
  have hbefore : s.stateOf = v.stateOf := funext hs.stateOf_eq
  have hafter : t.stateOf = w.stateOf := funext ht.stateOf_eq
  rw [provided, hs.usedPids_eq, hbefore, hafter, View.createdPids_eq, List.filter_filter]
  refine List.filter_congr fun pid _ => Bool.and_comm _ _

lemma Shows.map_pid_processes (h : s.Shows v) : s.processes.map (·.pid) = s.pids.toList := by
  rw [h.usedPids_eq, ← Std.ExtTreeMap.map_fst_toList_eq_keys, ← h.processes_eq, List.map_map]
  rfl

lemma Shows.pids_eq_nil (h : s.Shows v) : s.pids.toList = [] ↔ v.table.isEmpty = true := by
  rw [h.usedPids_eq, Std.ExtTreeMap.isEmpty_iff, ← Std.ExtTreeMap.keys_eq_nil_iff]

end Supervisor

def TickResult.isSwitch : TickResult → Bool
  | .switched _ => true
  | .idle | .continued | .skipped => false

/-- What a tick may decide, and what it leaves and counts. -/
structure Dispatcher.Decides (d : Dispatcher μ space) (outcome : TickResult)
    (target : Option ResumePoint) (d' : Dispatcher μ space) : Prop where
  idle : outcome = .idle ∧ target = none ↔ d.supervisor.pids.toList = []
  /-- A change of state that is refused or ignored would show here: it makes no switch. -/
  switched (pid : Pid) : outcome = .switched pid ∧ target.isSome = true ↔
    d.supervisor.firstWaiting = some pid
  continued : outcome = .continued ∧ target = none ↔
    d.supervisor.pids.toList ≠ [] ∧ d.supervisor.firstWaiting = none
  /-- Nobody gets the processor in the tick that gives it memory. -/
  late (pid : Pid) : outcome = .switched pid → d.supervisor.stateOf pid ≠ some .created
  running (pid : Pid) : outcome = .switched pid → d'.supervisor.roster.running = some pid
  rests (pid runner : Pid) : outcome = .switched pid → d.supervisor.roster.running = some runner →
    d'.supervisor.stateOf runner = some .waiting
  ticks : d'.counters.ticks = d.counters.ticks + 1
  contextSwitches : d'.counters.contextSwitches =
    d.counters.contextSwitches + outcome.isSwitch.toNat
  materialized : d'.counters.materialized =
    d.counters.materialized + (d.supervisor.provided d'.supervisor).length

lemma Dispatcher.Decided.exists_decides {memory : MemoryService μ space} {d : Dispatcher μ space}
    {v : View μ space} {run : Outcome space (Dispatcher μ space) (TickResult × Option ResumePoint)}
    (h : Decided memory d v run) (hd : d.Shows v) (hlawful : v.Lawful) :
    ∃ outcome target, run.result = .ok (outcome, target) ∧ d.Decides outcome target run.state := by
  obtain ⟨made, outcome, target, c, w, hresult, hshows, hdecision, hcounters⟩ := h
  have hfirst := Supervisor.Shows.firstWaiting_eq hd hlawful
  have hnil := Supervisor.Shows.pids_eq_nil hd
  have hstate : d.supervisor.stateOf = v.stateOf := funext (Supervisor.Shows.stateOf_eq hd)
  have hstate' : run.state.supervisor.stateOf = w.stateOf :=
    funext (Supervisor.Shows.stateOf_eq hshows)
  have hmade : made = (d.supervisor.provided run.state.supervisor).length := by
    rw [Supervisor.Shows.provided_eq hd hshows, ← hdecision.made_eq hlawful]
  rw [hmade] at hcounters
  refine ⟨outcome, target, hresult, ?_⟩
  cases hdecision with
  | idle hempty =>
    have hnone : d.supervisor.firstWaiting = none := by
      rw [hfirst, Option.eq_none_iff_forall_ne_some]
      intro pid hnext
      obtain ⟨p, hp, -⟩ := View.get?_of_nextInTurn hnext
      rw [View.isEmpty_of_get? hp] at hempty
      cases hempty
    refine ⟨?_, fun pid => ?_, ?_, nofun, nofun, nofun, ?_, ?_, ?_⟩
    · simp [hnil, hempty]
    · simp [hnone]
    · simp [hnil, hempty]
    all_goals rw [hcounters]
    rfl
  | continued hempty hnext =>
    refine ⟨?_, fun pid => ?_, ?_, nofun, nofun, nofun, ?_, ?_, ?_⟩
    · simp [hnil, hempty]
    · simp [hfirst, hnext]
    · simp [hnil, hempty, hfirst, hnext]
    all_goals rw [hcounters]
    rfl
  | @switched pid p _ _ w hnext hp hwaiting hattempts hp' =>
    have hrunning : run.state.supervisor.roster.running = some pid := by
      rw [← Supervisor.Shows.running hshows, View.enter_running hp', if_pos rfl]
    refine ⟨?_, fun q => ?_, ?_, ?_, ?_, ?_, ?_, ?_, ?_⟩
    · simp [hnil, View.isEmpty_of_get? hp]
    · simp [hfirst, hnext]
    · simp [hfirst, hnext]
    · rintro _ ⟨⟩
      rw [hstate, View.stateOf_eq hp, hwaiting]
      decide
    · rintro _ ⟨⟩
      exact hrunning
    · rintro _ runner ⟨⟩ hrunner
      rw [← Supervisor.Shows.running hd] at hrunner
      obtain ⟨r, hr⟩ := hlawful.live runner hrunner
      have hstate := (hlawful.runner runner r hr).mpr hrunner
      have hne : runner ≠ pid := by
        rintro rfl
        rw [hp, Option.some_inj] at hr
        rw [← hr, hwaiting] at hstate
        cases hstate
      have hcreated := View.not_mem_createdPids hr (by simp [hstate])
      rw [hstate', View.stateOf_enter hp', hattempts.confined.stateOf_eq hcreated, View.stateOf_eq hr,
        Option.map_some, if_neg hne, if_pos ⟨rfl, hattempts.confined.running.trans hrunner⟩]
    all_goals rw [hcounters]
    rfl

namespace Session

variable {memory : MemoryService μ space} {outside : μ → μ → Prop} {limits : Limits} {start : μ}
  {events : List (Event space)} {s : Session μ space}

/-- Ticks are specified: in every state that a run leads to, the decision of a tick finishes, whatever
the policy, and hands the processor to the first waiting process in the order of turns if there is
one; a tick switches where the decision says, once or not at all. -/
theorem Run.tick_decides (h : Run memory outside limits start events s) :
    s.supervisor.processes.map (·.pid) = s.supervisor.pids.toList ∧
    ∃ outcome target d' es,
      (Dispatcher.schedule memory).run s.dispatcher = ⟨.ok (outcome, target), d', es⟩ ∧
      s.dispatcher.Decides outcome target d' ∧
      ∀ (κ : Type) (switchTo : κ → ResumePoint → κ) (k : κ),
        (Dispatcher.tick memory switchTo).run (s.dispatcher, k) =
          ⟨.ok outcome, (d', target.elim k (switchTo k)), es⟩ := by
  obtain ⟨v, hshows, hlawful, -⟩ := h.shows
  have hdecided : Dispatcher.Decided memory s.dispatcher v _ :=
    Dispatcher.decided_schedule hshows hlawful (Supervisor.Shows.inRange hshows)
  obtain ⟨outcome, target, hresult, hdecides⟩ := hdecided.exists_decides hshows hlawful
  rcases hrun : (Dispatcher.schedule memory).run s.dispatcher with ⟨result, d', es⟩
  rw [hrun] at hresult hdecides
  cases hresult
  refine ⟨Supervisor.Shows.map_pid_processes hshows, outcome, target, d', es, rfl, hdecides,
    fun κ switchTo k => ?_⟩
  rw [Dispatcher.tick, run_bind, run_within, hrun]
  cases target with
  | none => simp
  | some point => simp [Except.map]

/-- Under the strict policy, one process runs, another waits and a third has no memory yet. -/
theorem tick_decides_of_three : ∃ events s,
    Run HostMemory.service HostMemory.Adjusted ⟨8, 4, 4, 4, .strict⟩ .empty events s ∧
    s.supervisor.roster.running = some 1 ∧ s.supervisor.firstWaiting = some 2 ∧
    s.supervisor.stateOf 3 = some .created ∧
    ∃ outcome target d' es,
      (Dispatcher.schedule HostMemory.service).run s.dispatcher = ⟨.ok (outcome, target), d', es⟩ ∧
      s.dispatcher.Decides outcome target d' := by
  have hbegun : Run HostMemory.service HostMemory.Adjusted ⟨8, 4, 4, 4, .strict⟩ .empty [] _ := .start
  have hticked := (((hbegun.perform (.create none 0)).perform (.create none 0)).perform
    .materializeCreated).perform .tick
  have hmore := hticked.perform (.create none 0)
  obtain ⟨-, outcome, target, d', es, hrun, hdecides, -⟩ := hmore.tick_decides
  exact ⟨_, _, hmore, by decide +kernel, by decide +kernel, by decide +kernel, outcome, target, d', es,
    hrun, hdecides⟩

end Session

end Uniprocessor
