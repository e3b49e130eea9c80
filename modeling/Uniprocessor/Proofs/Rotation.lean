import Mathlib.Data.List.Rotate
import Uniprocessor.Proofs.Ticks

/-!
# Consecutive ticks

While nobody waits for memory, ticks hand the processor around. The processes that can run take it
in ascending order of identifiers and around, beginning behind the one that runs, and whatever the
other processes are in between. A process that is alone keeps it.
-/

namespace Uniprocessor

open Uniprocessor.Action

/-! ### Ascending lists read from a point on -/

/-- The identifiers behind `start`, then the others. -/
def cycleAfter (start : Option Pid) (pids : List Pid) : List Pid :=
  match start with
  | none => pids
  | some pid => pids.filter (pid < ·) ++ pids.filter (· ≤ pid)

namespace cycleAfter

variable {start : Option Pid} {pid : Pid} {pids front back rest : List Pid}

lemma filter_eq (start : Option Pid) (pids : List Pid) (f : Pid → Bool) :
    (cycleAfter start pids).filter f = cycleAfter start (pids.filter f) := by
  cases start with
  | none => rfl
  | some pid => simp only [cycleAfter, List.filter_append, List.filter_filter, Bool.and_comm]

lemma eq_of_split (hfront : ∀ q ∈ front, q ≤ pid) (hback : ∀ q ∈ back, pid < q) :
    cycleAfter (some pid) (front ++ back) = back ++ front := by
  have hbefore : ∀ q ∈ front, ¬ pid < q := fun q hq => Nat.not_lt.mpr (hfront q hq)
  have hbehind : ∀ q ∈ back, ¬ q ≤ pid := fun q hq => Nat.not_le.mpr (hback q hq)
  rw [cycleAfter, List.filter_append, List.filter_append,
    List.filter_eq_nil_iff.mpr (by simpa using hbefore), List.filter_eq_self.mpr (by simpa using hback),
    List.filter_eq_self.mpr (by simpa using hfront), List.filter_eq_nil_iff.mpr (by simpa using hbehind),
    List.nil_append, List.append_nil]

lemma exists_split (hsorted : pids.Pairwise (· < ·)) (pid : Pid) :
    ∃ front back, pids = front ++ back ∧ (∀ q ∈ front, q ≤ pid) ∧ ∀ q ∈ back, pid < q := by
  induction pids with
  | nil => exact ⟨[], [], rfl, by simp, by simp⟩
  | cons first pids ih =>
    rw [List.pairwise_cons] at hsorted
    by_cases hfirst : first ≤ pid
    · obtain ⟨front, back, rfl, hfront, hback⟩ := ih hsorted.2
      exact ⟨first :: front, back, rfl, by simpa using ⟨hfirst, hfront⟩, hback⟩
    · have hlt : pid < first := Nat.not_le.mp hfirst
      refine ⟨[], first :: pids, rfl, by simp, ?_⟩
      simpa using ⟨hlt, fun q hq => hlt.trans (hsorted.1 q hq)⟩

/-- Wherever the reading begins, it is a part of the list and then what is in front of that part. -/
lemma exists_append (hsorted : pids.Pairwise (· < ·)) (start : Option Pid) :
    ∃ front back, pids = front ++ back ∧ cycleAfter start pids = back ++ front := by
  cases start with
  | none => exact ⟨[], pids, rfl, (List.append_nil pids).symm⟩
  | some pid =>
    obtain ⟨front, back, rfl, hfront, hback⟩ := exists_split hsorted pid
    exact ⟨front, back, rfl, eq_of_split hfront hback⟩

lemma nodup (hsorted : pids.Pairwise (· < ·)) (start : Option Pid) : (cycleAfter start pids).Nodup := by
  obtain ⟨front, back, rfl, heq⟩ := exists_append hsorted start
  rw [heq]
  exact List.perm_append_comm.nodup (hsorted.imp Nat.ne_of_lt)

lemma mem_iff (hsorted : pids.Pairwise (· < ·)) : pid ∈ cycleAfter start pids ↔ pid ∈ pids := by
  obtain ⟨front, back, rfl, heq⟩ := exists_append hsorted start
  rw [heq, List.mem_append, List.mem_append, or_comm]

/-- Whoever comes first comes last when the reading begins behind it. -/
theorem of_cons (hsorted : pids.Pairwise (· < ·)) (h : cycleAfter start pids = pid :: rest) :
    cycleAfter (some pid) pids = rest ++ [pid] := by
  obtain ⟨front, back, rfl, heq⟩ := exists_append hsorted start
  rw [h] at heq
  cases back with
  | nil =>
    obtain rfl : front = pid :: rest := heq.symm
    rw [List.append_nil, List.pairwise_cons] at hsorted
    rw [List.append_nil]
    have halone : cycleAfter (some pid) ([pid] ++ rest) = rest ++ [pid] :=
      eq_of_split (by simp) hsorted.1
    exact halone
  | cons first back =>
    rw [List.cons_append, List.cons.injEq] at heq
    obtain ⟨rfl, rfl⟩ := heq
    obtain ⟨-, hback, hbefore⟩ := List.pairwise_append.mp hsorted
    rw [List.append_cons, List.append_assoc back]
    refine eq_of_split (fun q hq => ?_) (List.pairwise_cons.mp hback).1
    rcases List.mem_append.mp hq with hq | hq
    · exact Nat.le_of_lt (hbefore q hq pid List.mem_cons_self)
    · exact Nat.le_of_eq (List.mem_singleton.mp hq)

/-- Whoever comes first when the reading begins behind it is alone. -/
lemma eq_nil_of_cons (hsorted : pids.Pairwise (· < ·)) (h : cycleAfter (some pid) pids = pid :: rest) :
    rest = [] := by
  have hnodup := nodup hsorted (some pid)
  rw [h, List.nodup_cons] at hnodup
  have heq := of_cons hsorted h
  rw [h] at heq
  cases rest with
  | nil => rfl
  | cons q rest =>
    obtain ⟨rfl, -⟩ := List.cons.inj heq
    exact absurd List.mem_cons_self hnodup.1

end cycleAfter

/-- Once around, each comes up once, wherever the count begins. -/
lemma count_switched_eq_one {order : List Pid} {outcomes : List TickResult} {pid : Pid} {k : Nat}
    (hnodup : order.Nodup) (hpid : pid ∈ order) (hk : k + order.length ≤ outcomes.length)
    (haround : ∀ i < outcomes.length, outcomes[i]? = order[i % order.length]?.map .switched) :
    ((outcomes.drop k).take order.length).count (.switched pid) = 1 := by
  have hwindow : (outcomes.drop k).take order.length = (order.rotate k).map .switched := by
    refine List.ext_getElem? fun j => ?_
    rw [List.getElem?_take, List.getElem?_drop, List.getElem?_map]
    by_cases hj : j < order.length
    · rw [if_pos hj, haround (k + j) (by omega), List.getElem?_rotate hj, Nat.add_comm]
    · rw [if_neg hj, List.getElem?_eq_none (by rw [List.length_rotate]; omega), Option.map_none]
  have hinjective : Function.Injective TickResult.switched := fun _ _ => TickResult.switched.inj
  rw [hwindow, List.count_map_of_injective _ _ hinjective, (List.rotate_perm order k).count_eq]
  exact List.count_eq_one_of_mem hnodup hpid

/-- Whether a process runs or waits for its turn. -/
def ProcessState.isRunnable : ProcessState → Bool
  | waiting | running => true
  | created | blocked | terminated => false

namespace View

variable {μ space : Type} {memory : MemoryService μ space} {v w : View μ space}
  {calls c : List (MemoryCall space)} {pid : Pid} {rest : List Pid} {made : Nat} {outcome : TickResult}
  {outcomes : List TickResult} {target : Option ResumePoint}

def isRunnable (v : View μ space) (pid : Pid) : Bool := (v.stateOf pid).any (·.isRunnable)

/-- The processes that can run, in the order of turns. -/
def rotation (v : View μ space) : List Pid := v.turnOrder.filter v.isRunnable

/-- No process waits for memory. -/
def Settled (v : View μ space) : Prop := ∀ pid, v.stateOf pid ≠ some .created

lemma Settled.createdPids_eq (h : v.Settled) : v.createdPids = [] := by
  rw [View.createdPids_eq, List.filter_eq_nil_iff]
  intro pid _
  simpa using h pid

lemma rotation_eq (v : View μ space) :
    v.rotation = cycleAfter v.running (v.table.keys.filter v.isRunnable) := by
  rw [rotation, ← cycleAfter.filter_eq]
  rfl

lemma sorted_runnable (v : View μ space) : (v.table.keys.filter v.isRunnable).Pairwise (· < ·) :=
  v.keys_sorted.filter _

lemma rotation_nodup (v : View μ space) : v.rotation.Nodup := by
  rw [rotation_eq]
  exact cycleAfter.nodup v.sorted_runnable v.running

/-- The turn falls to the first that can run and does not run already. -/
lemma Lawful.nextInTurn_eq_find? (h : v.Lawful) :
    v.nextInTurn v.running = v.rotation.find? (v.stateOf · == some .waiting) := by
  rw [h.nextInTurn_eq, rotation, List.find?_filter]
  congr 1
  funext pid
  rw [isRunnable]
  cases hstate : v.stateOf pid with
  | none => rfl
  | some state => cases state <;> rfl

lemma stateOf_of_mem_rotation (hpid : pid ∈ v.rotation) :
    v.stateOf pid = some .waiting ∨ v.stateOf pid = some .running := by
  have hrunnable := (List.mem_filter.mp hpid).2
  rw [isRunnable] at hrunnable
  cases hstate : v.stateOf pid with
  | none =>
    rw [hstate] at hrunnable
    cases hrunnable
  | some state =>
    rw [hstate] at hrunnable
    cases state with
    | waiting => exact .inl rfl
    | running => exact .inr rfl
    | created | blocked | terminated => cases hrunnable

/-- Where the one that runs comes first, nobody else can run. -/
lemma eq_nil_of_running (hrotation : v.rotation = pid :: rest) (hrunning : v.running = some pid) :
    rest = [] := by
  rw [rotation_eq, hrunning] at hrotation
  exact cycleAfter.eq_nil_of_cons v.sorted_runnable hrotation

/-- Whoever runs can run. -/
lemma Lawful.mem_rotation (h : v.Lawful) (hrunning : v.running = some pid) : pid ∈ v.rotation := by
  obtain ⟨p, hp⟩ := h.live pid hrunning
  rw [rotation_eq, cycleAfter.mem_iff v.sorted_runnable, List.mem_filter, mem_keys, isRunnable,
    stateOf_eq hp, (h.runner pid p hp).mpr hrunning]
  exact ⟨⟨p, hp⟩, rfl⟩

/-- Nobody has to wait for the processor that can run. -/
lemma Lawful.nextInTurn_eq_none (h : v.Lawful)
    (hnobody : ∀ pid ∈ v.rotation, v.running = some pid) : v.nextInTurn v.running = none := by
  rw [h.nextInTurn_eq_find?, List.find?_eq_none]
  intro pid hpid hwaits
  obtain ⟨p, hp, hstate⟩ := stateOf_eq_some.mp (eq_of_beq hwaits)
  have hruns := (h.runner pid p hp).mpr (hnobody pid hpid)
  rw [hstate] at hruns
  cases hruns

lemma Lawful.nextInTurn_eq_some (h : v.Lawful) (hrotation : v.rotation = pid :: rest)
    (hidle : v.running ≠ some pid) : v.nextInTurn v.running = some pid := by
  have hmem : pid ∈ v.rotation := by
    rw [hrotation]
    exact List.mem_cons_self
  have hwaits : v.stateOf pid = some .waiting := by
    refine (stateOf_of_mem_rotation hmem).resolve_right fun hruns => hidle ?_
    obtain ⟨p, hp, hstate⟩ := stateOf_eq_some.mp hruns
    exact (h.runner pid p hp).mp hstate
  rw [h.nextInTurn_eq_find?, hrotation, List.find?_cons_of_pos (by rw [hwaits]; rfl)]

/-! ### One tick -/

/-- Without a process to give memory to, a tick that switches to nobody leaves everything as it is. -/
lemma Decision.of_nobody (h : Decision memory v calls made (outcome, target) c w) (hsettled : v.Settled)
    (hnext : v.nextInTurn v.running = none) :
    outcome = (if v.table.isEmpty then .idle else .continued) ∧ w = v := by
  cases h with
  | idle hempty => exact ⟨by rw [hempty]; rfl, rfl⟩
  | continued hlive _ hattempts =>
    rw [hsettled.createdPids_eq] at hattempts
    cases hattempts
    exact ⟨by rw [hlive]; rfl, rfl⟩
  | switched hsome =>
    rw [hnext] at hsome
    cases hsome

/-- Without a process to give memory to, a tick that switches does nothing else. -/
lemma Decision.of_next (h : Decision memory v calls made (outcome, target) c w) (hsettled : v.Settled)
    (hnext : v.nextInTurn v.running = some pid) :
    outcome = .switched pid ∧ (∃ p, v.table[pid]? = some p ∧ p.state = .waiting) ∧
      w = v.enter pid .running := by
  have hwaits := get?_of_nextInTurn hnext
  cases h with
  | idle hempty =>
    obtain ⟨p, hp, -⟩ := hwaits
    rw [isEmpty_of_get? hp] at hempty
    cases hempty
  | continued _ hnone =>
    rw [hnext] at hnone
    cases hnone
  | switched hsome _ _ hattempts =>
    rw [hnext, Option.some_inj] at hsome
    subst hsome
    rw [hsettled.createdPids_eq] at hattempts
    cases hattempts
    exact ⟨rfl, hwaits, rfl⟩

lemma Settled.enter {p : ProcessView space} (h : v.Settled) (hp : v.table[pid]? = some p) :
    (v.enter pid .running).Settled := by
  intro q
  rw [stateOf_enter hp]
  cases hstate : v.stateOf q with
  | none => simp
  | some state =>
    have hnot : state ≠ .created := fun heq => h q (by rw [hstate, heq])
    rw [Option.map_some]
    split_ifs <;> simp [hnot]

/-- Whoever gets the processor goes to the end of the order of turns. -/
theorem Lawful.rotation_enter (h : v.Lawful) (hrotation : v.rotation = pid :: rest)
    {p : ProcessView space} (hp : v.table[pid]? = some p) (hstate : p.state = .waiting) :
    (v.enter pid .running).rotation = rest ++ [pid] := by
  have hkeys : (v.enter pid .running).table.keys = v.table.keys :=
    keys_congr fun q => by rw [get?_enter hp, Option.isSome_map]
  have hrunnable : (v.enter pid .running).isRunnable = v.isRunnable := by
    funext q
    rw [isRunnable, isRunnable, stateOf_enter hp]
    cases hq : v.stateOf q with
    | none => rfl
    | some state =>
      obtain ⟨r, hr, rfl⟩ := stateOf_eq_some.mp hq
      by_cases hself : q = pid
      · subst hself
        rw [hp, Option.some_inj] at hr
        subst hr
        simp [hstate, ProcessState.isRunnable]
      · by_cases hrunning : v.running = some q
        · have hruns := (h.runner q r hr).mpr hrunning
          simp [hself, hrunning, hruns, ProcessState.isRunnable]
        · simp [hself, hrunning]
  rw [rotation_eq] at hrotation
  rw [rotation_eq, hkeys, hrunnable, enter_running hp, if_pos rfl]
  exact cycleAfter.of_cons v.sorted_runnable hrotation

/-! ### Many ticks -/

/-- Once nobody waits for the processor, ticks change nothing any more. -/
lemma Decisions.of_nobody (h : Decisions memory v calls outcomes c w) (hsettled : v.Settled)
    (hnext : v.nextInTurn v.running = none) :
    ∀ outcome ∈ outcomes, outcome = if v.table.isEmpty then .idle else .continued := by
  induction h with
  | nil => simp
  | cons hdecision _ ih =>
    obtain ⟨houtcome, rfl⟩ := hdecision.of_nobody hsettled hnext
    exact List.forall_mem_cons.mpr ⟨houtcome, ih hsettled hnext⟩

/-- The first tick that switches, and the ticks after it. -/
lemma Decisions.of_rotation (h : Decisions memory v calls (outcome :: outcomes) c w)
    (hlawful : v.Lawful) (hsettled : v.Settled) (hrotation : v.rotation = pid :: rest)
    (hidle : v.running ≠ some pid) :
    outcome = .switched pid ∧ ∃ calls u, Decisions memory u calls outcomes c w ∧ u.Lawful ∧ u.Settled ∧
      u.running = some pid ∧ u.rotation = rest ++ [pid] := by
  cases h with
  | cons hdecision hrest =>
    obtain ⟨houtcome, ⟨p, hp, hstate⟩, rfl⟩ :=
      hdecision.of_next hsettled (hlawful.nextInTurn_eq_some hrotation hidle)
    refine ⟨houtcome, _, _, hrest, hlawful.enter hp (canEnter_running hstate), hsettled.enter hp, ?_,
      hlawful.rotation_enter hrotation hp hstate⟩
    rw [enter_running hp, if_pos rfl]

/-- Where two can run, every tick switches, to one after the other and around. -/
theorem Decisions.around (h : Decisions memory v calls outcomes c w) (hlawful : v.Lawful)
    (hsettled : v.Settled) (htwo : 2 ≤ v.rotation.length) (i : Nat) (hi : i < outcomes.length) :
    outcomes[i]? = v.rotation[i % v.rotation.length]?.map .switched := by
  induction outcomes generalizing v calls i with
  | nil => cases hi
  | cons outcome outcomes ih =>
    obtain ⟨pid, rest, hrotation⟩ := List.exists_cons_of_length_pos (Nat.lt_of_lt_of_le Nat.two_pos htwo)
    have hidle : v.running ≠ some pid := fun hrunning => by
      rw [hrotation, eq_nil_of_running hrotation hrunning] at htwo
      exact Nat.not_succ_le_self 1 htwo
    obtain ⟨rfl, _, u, hrest, hlawful', hsettled', -, hrotation'⟩ :=
      h.of_rotation hlawful hsettled hrotation hidle
    have hrotate : u.rotation = v.rotation.rotate 1 := by
      rw [hrotation', hrotation, List.rotate_cons_succ, List.rotate_zero]
    have hlength : u.rotation.length = v.rotation.length := by
      rw [hrotate, List.length_rotate]
    cases i with
    | zero => rw [Nat.zero_mod, hrotation, List.getElem?_cons_zero, List.getElem?_cons_zero, Option.map_some]
    | succ i =>
      have hlt : i % v.rotation.length < v.rotation.length := Nat.mod_lt _ (by omega)
      rw [List.getElem?_cons_succ, ih hrest hlawful' hsettled' (hlength ▸ htwo) i (by simpa using hi),
        hlength, hrotate, List.getElem?_rotate hlt, Nat.mod_add_mod]

/-- Who is alone gets the processor in the first tick and keeps it. -/
theorem Decisions.first (h : Decisions memory v calls outcomes c w) (hlawful : v.Lawful)
    (hsettled : v.Settled) (halone : v.rotation = [pid]) (hidle : v.running = none) (i : Nat)
    (hi : i < outcomes.length) :
    outcomes[i]? = some (if i = 0 then .switched pid else .continued) := by
  cases outcomes with
  | nil => cases hi
  | cons outcome outcomes =>
    obtain ⟨rfl, _, u, hrest, hlawful', hsettled', hrunning, hrotation⟩ :=
      h.of_rotation hlawful hsettled halone (by simp [hidle])
    have hnobody : ∀ q ∈ u.rotation, u.running = some q := by
      rw [hrotation, hrunning]
      simp
    have hlive : u.table.isEmpty = false := by
      obtain ⟨p, hp⟩ := hlawful'.live pid hrunning
      exact isEmpty_of_get? hp
    have hcontinued := hrest.of_nobody hsettled' (hlawful'.nextInTurn_eq_none hnobody)
    rw [hlive] at hcontinued
    cases i with
    | zero => rfl
    | succ i =>
      rw [List.length_cons, Nat.add_lt_add_iff_right] at hi
      rw [List.getElem?_cons_succ, List.getElem?_eq_getElem hi, hcontinued _ (List.getElem_mem hi)]
      rfl

end View

namespace Supervisor

variable {μ space : Type} {memory : MemoryService μ space} {s : Supervisor μ space} {v w : View μ space}
  {calls c : List (MemoryCall space)} {outcomes : List TickResult}

/-- The processes that run or wait for their turn: in ascending order of identifiers and around, from
behind the one that runs, which comes last. -/
def rotation (s : Supervisor μ space) : List Pid :=
  s.turnOrder.filter fun pid => (s.stateOf pid).any (·.isRunnable)

/-- What consecutive ticks decide while nobody waits for memory. -/
structure Rotates (s : Supervisor μ space) (outcomes : List TickResult) : Prop where
  around : 2 ≤ s.rotation.length → ∀ i < outcomes.length,
    outcomes[i]? = s.rotation[i % s.rotation.length]?.map .switched
  /-- In as many ticks as there are processes that can run, each of these gets the processor once. -/
  once : 2 ≤ s.rotation.length → ∀ pid ∈ s.rotation, ∀ k, k + s.rotation.length ≤ outcomes.length →
    ((outcomes.drop k).take s.rotation.length).count (.switched pid) = 1
  first (pid : Pid) : s.rotation = [pid] → s.roster.running = none → ∀ i < outcomes.length,
    outcomes[i]? = some (if i = 0 then .switched pid else .continued)
  alone : s.rotation.length = 1 → s.roster.running ≠ none → ∀ outcome ∈ outcomes, outcome = .continued
  nobody : s.rotation = [] → s.processes ≠ [] → ∀ outcome ∈ outcomes, outcome = .continued
  empty : s.processes = [] → ∀ outcome ∈ outcomes, outcome = .idle

lemma Shows.rotation_eq (h : s.Shows v) : s.rotation = v.rotation := by
  have hstate : s.stateOf = v.stateOf := funext h.stateOf_eq
  rw [rotation, View.rotation, turnOrder, View.turnOrder, h.running, h.usedPids_eq, hstate]
  rfl

lemma Shows.settled (h : s.Shows v) (hnone : ∀ p ∈ s.processes, p.state ≠ .created) : v.Settled := by
  intro pid hcreated
  obtain ⟨p, hp, hstate⟩ := View.stateOf_eq_some.mp hcreated
  have hmem := Std.ExtTreeMap.mem_toList_iff_getElem?_eq_some.mpr hp
  rw [← h.processes_eq, List.mem_map] at hmem
  obtain ⟨record, hrecord, heq⟩ := hmem
  obtain ⟨-, rfl⟩ := Prod.mk.inj heq
  exact hnone record hrecord hstate

/-- The decisions of consecutive ticks, as they show. -/
lemma Shows.rotates (h : s.Shows v) (hlawful : v.Lawful) (hsettled : v.Settled)
    (hdecisions : View.Decisions memory v calls outcomes c w) : s.Rotates outcomes := by
  have hrotation := h.rotation_eq
  have hempty : v.table.isEmpty = true ↔ s.processes = [] := by
    rw [← h.pids_eq_nil, ← h.map_pid_processes, List.map_eq_nil_iff]
  have hstill := fun hnobody => hdecisions.of_nobody hsettled (hlawful.nextInTurn_eq_none hnobody)
  refine ⟨fun htwo => ?_, fun htwo pid hpid k hk => ?_, fun pid halone hidle => ?_,
    fun halone hrunning => ?_, fun hnobody hlive => ?_, fun hnone => ?_⟩
  · rw [hrotation] at htwo ⊢
    exact hdecisions.around hlawful hsettled htwo
  · rw [hrotation] at htwo hpid hk ⊢
    exact count_switched_eq_one v.rotation_nodup hpid hk (hdecisions.around hlawful hsettled htwo)
  · rw [hrotation] at halone
    rw [← h.running] at hidle
    exact hdecisions.first hlawful hsettled halone hidle
  · rw [hrotation] at halone
    rw [← h.running] at hrunning
    obtain ⟨runner, hrunner⟩ := Option.ne_none_iff_exists'.mp hrunning
    obtain ⟨pid, hpid⟩ := List.length_eq_one_iff.mp halone
    have hmem := hlawful.mem_rotation hrunner
    rw [hpid, List.mem_singleton] at hmem
    have hlive : v.table.isEmpty = false := by
      obtain ⟨p, hp⟩ := hlawful.live runner hrunner
      exact View.isEmpty_of_get? hp
    have hcontinued := hstill (by simp [hpid, hrunner, hmem])
    rwa [hlive] at hcontinued
  · rw [hrotation] at hnobody
    have hlive : v.table.isEmpty = false := Bool.eq_false_iff.mpr (mt hempty.mp hlive)
    have hcontinued := hstill (by simp [hnobody])
    rwa [hlive] at hcontinued
  · have hnobody : v.rotation = [] := by
      rw [View.rotation_eq, Std.ExtTreeMap.isEmpty_iff.mp (hempty.mpr hnone)]
      cases v.running <;> rfl
    have hidle := hstill (by simp [hnobody])
    rwa [hempty.mpr hnone] at hidle

end Supervisor

namespace Session

variable {μ space : Type} {memory : MemoryService μ space} {outside : μ → μ → Prop} {limits : Limits}
  {start : μ} {events : List (Event space)} {s : Session μ space}

/-- Round robin: from every state that a run leads to, if nobody waits for memory, any number of
consecutive ticks finish, and they hand the processor around among the processes that can run. -/
theorem Run.ticks_rotate (h : Run memory outside limits start events s)
    (hsettled : ∀ p ∈ s.supervisor.processes, p.state ≠ .created) (count : Nat) :
    ∃ outcomes t es,
      (Session.perform memory (.ticks count)).run s = ⟨.ok (.outcomes outcomes), t, es⟩ ∧
      outcomes.length = count ∧ s.supervisor.Rotates outcomes := by
  obtain ⟨v, hshows, hlawful, -⟩ := h.shows
  have hticks : (View.perform memory (.ticks count)).Ensures [] v
      (fun reply c w => ∃ outcomes, reply = .outcomes outcomes ∧ outcomes.length = count ∧
        View.Decisions memory v [] outcomes c w) fun _ _ _ => False :=
    ensures_bind (View.ensures_ticks hlawful (Supervisor.Shows.inRange hshows) count)
      fun outcomes _ _ ⟨hlength, hdecisions⟩ => ensures_pure ⟨outcomes, rfl, hlength, hdecisions⟩
  obtain ⟨_, t, es, w, hrun, -, outcomes, rfl, hlength, hdecisions⟩ :=
    (refines_perform memory (.ticks count)).exists_run hshows hticks
  refine ⟨outcomes, t, es, hrun, hlength, ?_⟩
  exact Supervisor.Shows.rotates hshows hlawful (Supervisor.Shows.settled hshows hsettled) hdecisions

/-- The first of four processes is blocked and the third has ended. The others take turns. -/
theorem ticks_rotate_of_two : ∃ events s outcomes t es,
    Run HostMemory.service HostMemory.Adjusted ⟨8, 4, 4, 4, .strict⟩ .empty events s ∧
    (∀ p ∈ s.supervisor.processes, p.state ≠ .created) ∧ s.supervisor.rotation = [4, 2] ∧
    (Session.perform HostMemory.service (.ticks 5)).run s = ⟨.ok (.outcomes outcomes), t, es⟩ ∧
    outcomes.length = 5 ∧ s.supervisor.Rotates outcomes := by
  have hbegun : Run HostMemory.service HostMemory.Adjusted ⟨8, 4, 4, 4, .strict⟩ .empty [] _ := .start
  have hticked := ((hbegun.perform (.createMany false 4 none)).perform .tick).perform .tick
  have hrun := ((hticked.perform (.changeState 1 .blocked)).perform .tick).perform (.exit 3 0)
  obtain ⟨outcomes, t, es, hticks, hlength, hrotates⟩ := hrun.ticks_rotate (by decide +kernel) 5
  exact ⟨_, _, outcomes, t, es, hrun, by decide +kernel, by decide +kernel, hticks, hlength, hrotates⟩

end Session

end Uniprocessor
