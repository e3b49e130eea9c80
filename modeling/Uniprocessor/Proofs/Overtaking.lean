import Uniprocessor.Proofs.Ticks

/-!
# Who is overtaken

Turns go up the identifiers and around. While a process waits, the turn can pass to those between
the one that got the processor first and itself, and not beyond. So nobody gets the processor twice
while another process waits all the time, as long as the turn is not lost: if nobody runs, the next
turn begins with the least identifier.
-/

namespace Uniprocessor

open Uniprocessor.Action

/-! ### Around the identifiers -/

/-- Going up from `p`, and around, `r` is met before `q`. The first one met is `p`. -/
def MetBefore (p q r : Nat) : Prop := if p < q then p ≤ r ∧ r < q else p ≤ r ∨ r < q

/-- Going up from behind `start`, and around, `r` is met no later than `q`. -/
def MetBy (start : Option Nat) (q r : Nat) : Prop :=
  match start with
  | none => r ≤ q
  | some p => if p < q then p < r ∧ r ≤ q else p < r ∨ r ≤ q

lemma metBefore_self (p q : Nat) : MetBefore p q p := by
  unfold MetBefore
  split <;> omega

/-- Who is met no later than `q` from somebody before `q` on, is met before `q` if it is not `q`. -/
lemma MetBy.metBefore {p q next : Nat} {start : Option Nat} (h : MetBy start q next) (hne : q ≠ p)
    (hstart : ∀ r ∈ start, MetBefore p q r) (hlost : start = none → q < p) :
    next ≠ p ∧ (next ≠ q → MetBefore p q next) := by
  unfold MetBefore at hstart ⊢
  unfold MetBy at h
  cases start with
  | none =>
    have hlt := hlost rfl
    dsimp only at h
    split <;> omega
  | some r =>
    have hr := hstart r rfl
    dsimp only at h
    split at hr <;> split at h <;> split <;> omega

lemma le_of_find?_eq_some {pids : List Nat} (hsorted : pids.Pairwise (· < ·)) {f : Nat → Bool} {a b : Nat}
    (ha : pids.find? f = some a) (hb : b ∈ pids) (hfb : f b = true) : a ≤ b := by
  obtain ⟨-, before, behind, rfl, hbefore⟩ := List.find?_eq_some_iff_append.mp ha
  rcases List.mem_append.mp hb with hb | hb
  · have hnot := hbefore b hb
    rw [hfb] at hnot
    cases hnot
  · rcases List.mem_cons.mp hb with rfl | hb
    · exact le_rfl
    · have hrest := (List.pairwise_append.mp hsorted).2.1
      exact ((List.pairwise_cons.mp hrest).1 b hb).le

/-! ### Turns of a view -/

namespace View

variable {μ space : Type} {v w : View μ space} {q : Nat}

/-- Whoever waits, the turn does not pass beyond. -/
theorem Lawful.exists_nextInTurn (h : v.Lawful) (hq : v.stateOf q = some .waiting) :
    ∃ next, v.nextInTurn v.running = some next ∧ MetBy v.running q next := by
  have hsorted := v.keys_sorted
  have hkey : q ∈ v.table.keys := by
    obtain ⟨p, hp, -⟩ := stateOf_eq_some.mp hq
    exact mem_keys.mpr ⟨p, hp⟩
  have hwaits : (v.stateOf q == some .waiting) = true := by rw [hq]; rfl
  rw [h.nextInTurn_eq, turnOrder]
  cases hrunning : v.running with
  | none =>
    obtain ⟨next, hnext⟩ := Option.isSome_iff_exists.mp
      (List.find?_isSome (p := (v.stateOf · == some .waiting)).mpr ⟨q, hkey, hwaits⟩)
    exact ⟨next, hnext, le_of_find?_eq_some hsorted hnext hkey hwaits⟩
  | some runner =>
    dsimp only [MetBy]
    rw [List.find?_append]
    cases hbehind : (v.table.keys.filter (runner < ·)).find? (v.stateOf · == some .waiting) with
    | some next =>
      have hmem := List.mem_of_find?_eq_some hbehind
      rw [List.mem_filter, decide_eq_true_eq] at hmem
      refine ⟨next, rfl, ?_⟩
      split
      · rename_i hlt
        refine ⟨hmem.2, le_of_find?_eq_some (hsorted.filter _) hbehind ?_ hwaits⟩
        exact List.mem_filter.mpr ⟨hkey, by simpa using hlt⟩
      · exact .inl hmem.2
    | none =>
      rw [List.find?_eq_none] at hbehind
      have hle : q ≤ runner := by
        by_contra hlt
        refine hbehind q (List.mem_filter.mpr ⟨hkey, ?_⟩) hwaits
        simpa using hlt
      have hmem : q ∈ v.table.keys.filter (· ≤ runner) := List.mem_filter.mpr ⟨hkey, by simpa using hle⟩
      obtain ⟨next, hnext⟩ := Option.isSome_iff_exists.mp
        (List.find?_isSome (p := (v.stateOf · == some .waiting)).mpr ⟨q, hmem, hwaits⟩)
      refine ⟨next, hnext, ?_⟩
      rw [if_neg (by omega)]
      exact .inr (le_of_find?_eq_some (hsorted.filter _) hnext hmem hwaits)

lemma removeAll_running (v : View μ space) (pids : List Pid) :
    (v.removeAll pids).running = v.running ∨ (v.removeAll pids).running = none := by
  rw [running_removeAll]
  cases v.running with
  | none => exact .inl rfl
  | some runner => by_cases hrunner : runner ∈ pids <;> simp [hrunner, Option.filter]

/-- No command but a tick, or one that says so, puts anybody on the processor. -/
theorem Step.running {command : Command} {result : Except Fault Reply} (h : v.Step command result w)
    (hturn : command.isTurn = false) (hrun : ∀ pid, command ≠ .changeState pid .running) :
    w.running = v.running ∨ w.running = none := by
  have henter : ∀ {pid : Nat} {p : ProcessView space} {state : ProcessState}, v.table[pid]? = some p →
      state ≠ .running → (v.enter pid state).running = v.running ∨ (v.enter pid state).running = none := by
    intro pid p state hp hstate
    rw [enter_running hp, if_neg hstate]
    split
    · exact .inr rfl
    · exact .inl rfl
  cases h with
  | created => exact .inl (born_running v _ _ _)
  | createdMany nested count parent result hbirths =>
    left
    induction hbirths with
    | refl => rfl
    | tail _ hbirth ih =>
      cases hbirth with
      | intro entry => exact (born_running _ _ _ entry).trans ih
  | cloned => exact .inl (born_running v _ _ _)
  | destroyed => exact removeAll_running v _
  | @changed pid state p hp => exact henter hp fun heq => hrun pid (heq ▸ rfl)
  | exited status hp => exact henter hp (by decide)
  | flagged on =>
    rw [View.flagged]
    split <;> exact .inl rfl
  | materialized hw =>
    obtain ⟨p, _, _, _, _, -, -, rfl⟩ := hw
    exact .inl rfl
  | notMaterialized fault hw =>
    rcases hw with rfl | ⟨p, _, -, -, -, rfl⟩ <;> exact .inl rfl
  | turned _ h => rw [h] at hturn; cases hturn
  | _ => exact .inl rfl

lemma Decision.running_of_switched {memory : MemoryService μ space} {calls c : List (MemoryCall space)}
    {made : Nat} {target : Option ResumePoint} {next : Pid}
    (h : Decision memory v calls made (.switched next, target) c w) : w.running = some next := by
  cases h with
  | switched _ _ _ _ hp => rw [enter_running hp, if_pos rfl]

/-- A tick switches to whose turn it is. -/
lemma Decision.switched_of_nextInTurn {memory : MemoryService μ space} {calls c : List (MemoryCall space)}
    {made : Nat} {outcome : TickResult} {target : Option ResumePoint} {next : Pid}
    (h : Decision memory v calls made (outcome, target) c w) (hnext : v.nextInTurn v.running = some next) :
    outcome = .switched next := by
  cases h with
  | idle hempty =>
    obtain ⟨p, hp, -⟩ := get?_of_nextInTurn hnext
    rw [isEmpty_of_get? hp] at hempty
    cases hempty
  | continued _ hnone =>
    rw [hnext] at hnone
    cases hnone
  | switched hnext' =>
    rw [hnext, Option.some_inj] at hnext'
    rw [hnext']

end View

/-! ### Turns in a run -/

/-- One tick, with the switch or without. -/
def Command.isTick : Command → Bool
  | .tick | .schedule => true
  | _ => false

lemma Command.isTurn_of_isTick {command : Command} (htick : command.isTick = true) :
    command.isTurn = true := by
  cases command with
  | tick | schedule => rfl
  | _ => cases htick

/-- Whether a command is one that puts nobody on the processor by name. A series of ticks counts as
so many commands and not as one. -/
def Command.isPlain : Command → Bool
  | .changeState _ .running | .ticks _ => false
  | _ => true

/-- The process that a tick switched to. -/
def Reply.switchedTo : Reply → Option Pid
  | .outcome (.switched next) | .decision (.switched next) _ => some next
  | _ => none

namespace Session

variable {μ space : Type} (memory : MemoryService μ space) (outside : μ → μ → Prop)

/-- A stretch of a run: plain commands one after the other, with changes of the memory service and of
the heap in between. `holds` is true of the session that it begins with and of all that follow. -/
inductive Stretch (holds : Session μ space → Prop) (s : Session μ space) : Session μ space → Prop
  | start : holds s → Stretch holds s s
  | perform {t} (command : Command) : Stretch holds s t → command.isPlain = true →
      holds ((perform memory command).run t).state →
      Stretch holds s ((perform memory command).run t).state
  | outside {t m} : Stretch holds s t → outside t.supervisor.memory m → holds (t.withMemory m) →
      Stretch holds s (t.withMemory m)
  | heap {t} (storage : Storage) : Stretch holds s t → holds (t.withStorage storage) →
      Stretch holds s (t.withStorage storage)

variable {memory outside} {holds : Session μ space → Prop} {limits : Limits} {start : μ}
  {events : List (Event space)} {s t : Session μ space} {command : Command} {p q : Nat}

lemma Stretch.holds_last (h : Stretch memory outside holds s t) : holds t := by
  cases h with
  | start hholds => exact hholds
  | perform _ _ _ hholds => exact hholds
  | outside _ _ hholds => exact hholds
  | heap _ _ hholds => exact hholds

lemma Stretch.holds_first (h : Stretch memory outside holds s t) : holds s := by
  induction h with
  | start hholds => exact hholds
  | perform _ _ _ _ ih | outside _ _ _ ih | heap _ _ _ ih => exact ih

lemma Run.stretch (h : Run memory outside limits start events s)
    (hstretch : Stretch memory outside holds s t) : ∃ events, Run memory outside limits start events t := by
  induction hstretch with
  | start => exact ⟨events, h⟩
  | perform command _ _ _ ih =>
    obtain ⟨events, hrun⟩ := ih
    exact ⟨_, hrun.perform command⟩
  | outside _ houtside _ ih =>
    obtain ⟨events, hrun⟩ := ih
    exact ⟨events, hrun.outside houtside⟩
  | heap storage _ _ ih =>
    obtain ⟨events, hrun⟩ := ih
    exact ⟨events, hrun.heap storage⟩

/-- A command that lets processes have memory and the processor finishes. -/
lemma Run.exists_round (h : Run memory outside limits start events s) (hturn : command.isTurn = true) :
    ∃ v reply calls c w, s.Shows v ∧ v.Lawful ∧
      ((Session.perform memory command).run s).result = .ok reply ∧
      ((Session.perform memory command).run s).state.Shows w ∧ v.Round memory calls command reply c w := by
  obtain ⟨v, hshows, hlawful, -⟩ := h.shows
  have hround : (View.perform memory command).Ensures [] v (View.Round memory v [] command)
      fun _ _ _ => False := View.ensures_round hlawful (Supervisor.Shows.inRange hshows) hturn
  obtain ⟨reply, t, es, w, hrun, hshows', hround⟩ :=
    (refines_perform memory command).exists_run hshows hround
  rw [hrun]
  exact ⟨v, reply, _, _, w, hshows, hlawful, rfl, hshows', hround⟩

/-- Whom a tick switches to runs after it. -/
lemma Run.running_of_switch (h : Run memory outside limits start events s)
    (htick : command.isTick = true) {reply : Reply}
    (hresult : ((Session.perform memory command).run s).result = .ok reply)
    (hswitched : reply.switchedTo = some p) :
    ((Session.perform memory command).run s).state.supervisor.roster.running = some p := by
  obtain ⟨v, reply', calls, c, w, -, -, hresult', hshows, hround⟩ :=
    h.exists_round (Command.isTurn_of_isTick htick)
  rw [hresult', Except.ok.injEq] at hresult
  subst hresult
  rw [← Supervisor.Shows.running hshows]
  cases hround with
  | @tick _ outcome _ _ _ hdecision | @schedule _ outcome _ _ _ hdecision =>
    cases outcome with
    | switched next =>
      rw [hdecision.running_of_switched, ← hswitched]
      rfl
    | _ => cases hswitched
  | ticks | materializeCreated => cases hswitched

/-- While somebody waits, every tick switches, and not to anybody beyond. -/
theorem Run.exists_switch (h : Run memory outside limits start events s)
    (htick : command.isTick = true) (hq : s.supervisor.stateOf q = some .waiting) :
    ∃ next reply, ((Session.perform memory command).run s).result = .ok reply ∧
      reply.switchedTo = some next ∧
      ((Session.perform memory command).run s).state.supervisor.roster.running = some next ∧
      MetBy s.supervisor.roster.running q next := by
  obtain ⟨v, reply, calls, c, w, hshows, hlawful, hresult, -, hround⟩ :=
    h.exists_round (Command.isTurn_of_isTick htick)
  rw [Supervisor.Shows.stateOf_eq hshows] at hq
  obtain ⟨next, hnext, hmet⟩ := hlawful.exists_nextInTurn hq
  rw [Supervisor.Shows.running hshows] at hmet
  have hswitched : reply.switchedTo = some next := by
    cases hround with
    | tick hdecision | schedule hdecision =>
      rw [hdecision.switched_of_nextInTurn hnext]
      rfl
    | ticks | materializeCreated => cases htick
  exact ⟨next, reply, hresult, hswitched, h.running_of_switch htick hresult hswitched, hmet⟩

/-- A plain command that is not a tick puts nobody on the processor. -/
theorem Run.running_of_plain (h : Run memory outside limits start events s)
    (hplain : command.isPlain = true) (htick : command.isTick = false) :
    ((Session.perform memory command).run s).state.supervisor.roster.running =
        s.supervisor.roster.running ∨
      ((Session.perform memory command).run s).state.supervisor.roster.running = none := by
  by_cases hturn : command.isTurn = true
  · obtain ⟨v, reply, calls, c, w, hshows, hlawful, -, hshows', hround⟩ := h.exists_round hturn
    rw [← Supervisor.Shows.running hshows, ← Supervisor.Shows.running hshows']
    cases hround with
    | tick | schedule => cases htick
    | ticks => cases hplain
    | materializeCreated hattempts => exact .inl hattempts.confined.running
  · obtain ⟨v, hshows, hlawful, htraffic⟩ := h.shows
    obtain ⟨v', w, hstep, hshows', haccounts⟩ := hshows.perform hlawful htraffic command
    rw [← Supervisor.Shows.running hshows, ← Supervisor.Shows.running hshows', haccounts.running_eq]
    refine hstep.running (Bool.eq_false_iff.mpr hturn) ?_
    rintro pid rfl
    cases hplain

/-- Who runs does not wait. -/
lemma Run.running_ne (h : Run memory outside limits start events s)
    (hq : s.supervisor.stateOf q = some .waiting) : s.supervisor.roster.running ≠ some q := by
  obtain ⟨v, hshows, hlawful, -⟩ := h.shows
  rw [Supervisor.Shows.stateOf_eq hshows] at hq
  obtain ⟨p, hp, hwaiting⟩ := View.stateOf_eq_some.mp hq
  rw [← Supervisor.Shows.running hshows]
  exact hlawful.running_ne hp (by simp [hwaiting])

/-- `q` waits for the turn to come up from `p`. If `q` is the greater one, somebody runs meanwhile: the
turn would begin anew otherwise, and come to `p` first. -/
structure Awaits (p q : Nat) (s : Session μ space) : Prop where
  waiting : s.supervisor.stateOf q = some .waiting
  kept : p < q → s.supervisor.roster.running ≠ none

lemma Awaits.lt_of_lost (h : Awaits p q s) (hne : q ≠ p) (hlost : s.supervisor.roster.running = none) :
    q < p := by
  by_contra hlt
  exact h.kept (by omega) hlost

/-- As long as `q` waits, the turn is on its way from `p` to `q`. -/
lemma Run.metBefore_of_stretch (h : Run memory outside limits start events s)
    (hrunning : s.supervisor.roster.running = some p) (hstretch : Stretch memory outside (Awaits p q) s t) :
    q ≠ p ∧ ∀ r ∈ t.supervisor.roster.running, MetBefore p q r := by
  have hne : q ≠ p := by
    rintro rfl
    exact h.running_ne hstretch.holds_first.waiting hrunning
  refine ⟨hne, ?_⟩
  induction hstretch with
  | start =>
    rw [hrunning]
    rintro r ⟨⟩
    exact metBefore_self p q
  | outside _ _ _ ih | heap _ _ _ ih => exact ih
  | @perform t command hbefore hplain hafter ih =>
    obtain ⟨events', hrun⟩ := h.stretch hbefore
    have hawaits := hbefore.holds_last
    cases htick : command.isTick with
    | true =>
      obtain ⟨next, reply, -, -, hnext, hmet⟩ := hrun.exists_switch htick hawaits.waiting
      rw [hnext]
      rintro r ⟨⟩
      refine (hmet.metBefore hne ih (hawaits.lt_of_lost hne)).2 ?_
      rintro rfl
      exact (hrun.perform command).running_ne hafter.waiting hnext
    | false =>
      rcases hrun.running_of_plain hplain htick with heq | hnone
      · rw [heq]
        exact ih
      · rw [hnone]
        nofun

/-- Nobody is overtaken twice: if a tick switches to `p`, and from then on `q` waits and nobody is put
on the processor by name, no tick switches to `p` once more. For a `q` above `p` this holds as long as
somebody runs; a process that leaves the processor of its own accord takes the turn with it. -/
theorem Run.not_overtaken_twice (h : Run memory outside limits start events s) {first second : Command}
    (hfirst : first.isTick = true) {reply : Reply}
    (hresult : ((Session.perform memory first).run s).result = .ok reply)
    (hswitched : reply.switchedTo = some p)
    (hstretch : Stretch memory outside (Awaits p q) ((Session.perform memory first).run s).state t)
    (hsecond : second.isTick = true) :
    ∃ next reply', ((Session.perform memory second).run t).result = .ok reply' ∧
      reply'.switchedTo = some next ∧ next ≠ p := by
  have hrunning := h.running_of_switch hfirst hresult hswitched
  obtain ⟨hne, hmet⟩ := (h.perform first).metBefore_of_stretch hrunning hstretch
  have hawaits := hstretch.holds_last
  obtain ⟨events', hrun⟩ := (h.perform first).stretch hstretch
  obtain ⟨next, reply', hresult', hswitched', -, hnext⟩ := hrun.exists_switch hsecond hawaits.waiting
  exact ⟨next, reply', hresult', hswitched', (hnext.metBefore hne hmet (hawaits.lt_of_lost hne)).1⟩

/-- The turn goes from 1 to 2 while 3 waits, and not back. -/
theorem not_overtaken_twice_of_three : ∃ events s t,
    Run HostMemory.service HostMemory.Adjusted ⟨8, 4, 4, 4, .lenient⟩ .empty events s ∧
    ((Session.perform HostMemory.service .tick).run s).result = .ok (.outcome (.switched 1)) ∧
    Stretch HostMemory.service HostMemory.Adjusted (Awaits 1 3)
      ((Session.perform HostMemory.service .tick).run s).state t ∧
    t.supervisor.roster.running = some 2 ∧
    ∃ next reply, ((Session.perform HostMemory.service .tick).run t).result = .ok reply ∧
      reply.switchedTo = some next ∧ next ≠ 1 := by
  have hbegun : Run HostMemory.service HostMemory.Adjusted ⟨8, 4, 4, 4, .lenient⟩ .empty [] _ := .start
  have hready := (((hbegun.perform (.create none 0)).perform (.create none 0)).perform
    (.create none 0)).perform .materializeCreated
  suffices hlast : _ = Except.ok (Reply.outcome (.switched 1)) ∧
      ∃ t, Stretch HostMemory.service HostMemory.Adjusted (Awaits 1 3) _ t ∧
        t.supervisor.roster.running = some 2 from
    have ⟨hresult, t, hstretch, hrunning⟩ := hlast
    ⟨_, _, t, hready, hresult, hstretch, hrunning,
      hready.not_overtaken_twice rfl hresult rfl hstretch rfl⟩
  refine ⟨?_, _, .perform (.signal 3 5) (.perform .tick (.start ⟨?_, ?_⟩) rfl ⟨?_, ?_⟩) rfl ⟨?_, ?_⟩, ?_⟩
  all_goals decide +kernel

/-- Without somebody to run the turn begins anew: 1 gives the processor up, and gets it again before
2, which waits all the time. -/
theorem overtaken_twice_after_yield : ∃ events s t,
    Run HostMemory.service HostMemory.Adjusted ⟨8, 4, 4, 4, .lenient⟩ .empty events s ∧
    ((Session.perform HostMemory.service .tick).run s).result = .ok (.outcome (.switched 1)) ∧
    Stretch HostMemory.service HostMemory.Adjusted (·.supervisor.stateOf 2 = some .waiting)
      ((Session.perform HostMemory.service .tick).run s).state t ∧
    ((Session.perform HostMemory.service .tick).run t).result = .ok (.outcome (.switched 1)) := by
  have hbegun : Run HostMemory.service HostMemory.Adjusted ⟨8, 4, 4, 4, .lenient⟩ .empty [] _ := .start
  have hready := ((hbegun.perform (.create none 0)).perform (.create none 0)).perform .materializeCreated
  refine ⟨_, _, _, hready, by decide +kernel, (Stretch.start ?_).perform (.changeState 1 .waiting) rfl ?_, ?_⟩
  all_goals decide +kernel

end Session

end Uniprocessor
