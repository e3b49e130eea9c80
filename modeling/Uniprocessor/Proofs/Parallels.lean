import Uniprocessor.Proofs.Rejections
import Uniprocessor.Proofs.Runs

/-!
# Runs under either policy

Two sessions that differ in the policy are driven by the same moves. They stay alike up to the first
command at which the lenient session ignores a change of state that the life cycle does not allow, and
at that command the strict one halts. Only a command that asks for a change of state, or one that lets
a process exit, can be it: what the dispatcher does of its own accord is always allowed.
-/

namespace Uniprocessor

open Uniprocessor.Action Governed

variable {μ space α : Type} {memory : MemoryService μ space}

/-- Whether a command asks for a change of state by name. -/
def Command.isRequest : Command → Bool
  | .changeState .. | .exit .. => true
  | _ => false

/-- Whether a command can move a process to another state. -/
def Command.movesStates (command : Command) : Bool :=
  command.isRequest || command.isTurn || command matches .materialize _

namespace Session

variable {rejects : Prop} (memory : MemoryService μ space)

lemma tallies_onDispatcher {x : Action space (Dispatcher μ space) α} (h : Tallies rejects x x) :
    Tallies rejects (onDispatcher x) (onDispatcher x) :=
  h.within (fun _ _ => rfl) fun _ _ _ => rfl

lemma tallies_onSupervisor {x : Action space (Supervisor μ space) α} (h : Tallies rejects x x) :
    Tallies rejects (onSupervisor x) (onSupervisor x) :=
  tallies_onDispatcher (Dispatcher.tallies_guarded h)

lemma tallies_tick :
    Tallies True (tick memory : Action space (Session μ space) TickResult) (tick memory) :=
  (Dispatcher.tallies_tick memory Array.push).within (fun _ _ => rfl) fun _ _ _ => rfl

lemma tallies_ticks (count : Nat) :
    Tallies True (ticks memory count : Action space (Session μ space) _) (ticks memory count) := by
  induction count with
  | zero => exact .pure []
  | succ count ih => exact (tallies_tick memory).bind fun outcome => ih.bind fun _ => .pure _

lemma tallies_createMany (nested : Bool) (count : Nat) (parent : Option Pid) :
    Tallies rejects (createMany nested count parent : Action space (Session μ space) _)
      (createMany nested count parent) := by
  induction count generalizing parent with
  | zero => exact .pure _
  | succ count ih =>
    refine (tallies_onSupervisor (Supervisor.tallies_create parent 0)).attempt.bind fun answer => ?_
    cases answer with
    | error e => exact .pure _
    | ok pid => exact (ih _).bind fun _ => .pure _

lemma tallies_onInterrupts (f : Interrupts → Interrupts) :
    Tallies rejects (onInterrupts f : Action space (Session μ space) Unit) (onInterrupts f) :=
  tallies_onDispatcher (.update fun _ _ => rfl)

/-- A command tallies, and one that moves no process to another state meets no change to turn down. -/
theorem tallies_perform (command : Command) :
    Tallies (command.movesStates = true) (perform memory command) (perform memory command) := by
  cases command with
  | tick => exact ((tallies_tick memory).mono fun _ => rfl).bind fun _ => .pure _
  | ticks count => exact ((tallies_ticks memory count).mono fun _ => rfl).bind fun _ => .pure _
  | schedule =>
    exact ((tallies_onDispatcher (Dispatcher.tallies_schedule memory)).mono fun _ => rfl).bind
      fun _ => .pure _
  | create parent entry =>
    exact (tallies_onSupervisor (Supervisor.tallies_create parent entry)).bind fun _ => .pure _
  | createMany nested count parent => exact (tallies_createMany nested count parent).bind fun _ => .pure _
  | clone source =>
    exact (tallies_onSupervisor (Supervisor.tallies_clone memory source)).bind fun _ => .pure _
  | destroy pid cascade =>
    exact (tallies_onSupervisor (Supervisor.tallies_destroy memory pid cascade)).bind fun _ => .pure _
  | addChild parent child =>
    exact (tallies_onSupervisor (Supervisor.tallies_addChild parent child)).bind fun _ => .pure _
  | changeState pid state =>
    exact ((tallies_onSupervisor (Supervisor.tallies_changeState pid state)).mono fun _ => rfl).bind
      fun _ => .pure _
  | exit pid status =>
    exact ((tallies_onSupervisor (Supervisor.tallies_exit pid status)).mono fun _ => rfl).bind
      fun _ => .pure _
  | setInSystemCall pid on =>
    exact (tallies_onSupervisor (Supervisor.tallies_setInSystemCall pid on)).bind fun _ => .pure _
  | signal pid signo =>
    exact (tallies_onSupervisor (Supervisor.tallies_postSignal pid signo)).bind fun _ => .pure _
  | materialize pid =>
    exact ((tallies_onSupervisor (Supervisor.tallies_materialize memory pid)).mono fun _ => rfl).bind
      fun _ => .pure _
  | materializeCreated =>
    exact ((tallies_onSupervisor (Supervisor.tallies_materializeCreated memory)).mono fun _ => rfl).bind
      fun _ => .pure _
  | writeActive writes =>
    exact (tallies_onSupervisor (Supervisor.tallies_writeActive writes)).bind fun _ => .pure _
  | disableInterrupts => exact (tallies_onInterrupts .disable).bind fun _ => .pure _
  | enableInterrupts => exact (tallies_onInterrupts .enable).bind fun _ => .pure _

end Session

/-! ### What is always allowed -/

/-- Nothing halts that the dispatcher does of its own accord, nor giving memory to a process. -/
lemma View.ensures_unhalted {v : View μ space} {calls : List (MemoryCall space)} (hlawful : v.Lawful)
    (hrange : v.InRange) {command : Command} (hrequest : command.isRequest = false)
    (hmoves : command.movesStates = true) :
    (View.perform memory command).Ensures calls v (fun _ _ _ => True)
      fun fault _ _ => ∃ e, fault = .error e := by
  cases command with
  | tick | ticks | schedule | materializeCreated =>
    exact (View.ensures_round hlawful hrange rfl).mono (fun _ _ _ _ => trivial) fun _ _ _ h => h
  | materialize pid =>
    refine (View.ensures_materialize_attempt hlawful pid).bind ?_ fun _ _ _ _ => ensures_pure trivial
    rintro _ _ _ ⟨e, rfl, -⟩
    exact ⟨e, rfl⟩
  | changeState | exit => cases hrequest
  | _ => cases hmoves

instance : Governed (View μ space) where
  under policy v := { v with limits := { v.limits with policy := policy } }
  under_under _ _ _ := rfl

lemma Supervisor.Shows.under {s : Supervisor μ space} {v : View μ space} (h : s.Shows v)
    (policy : Strictness) : (Governed.under policy s).Shows (Governed.under policy v) where
  limits := congrArg ({ · with policy := policy }) h.limits
  room := h.room
  memory := h.memory
  running := h.running
  live := h.live
  active := h.active
  policy := rfl
  roster := h.roster.imp fun _ hxs => { hxs with }
  capacity := h.capacity
  fresh := h.fresh
  pids := h.pids
  pidCapacity := h.pidCapacity
  used := h.used
  records := h.records
  children := h.children
  linkCapacity := h.linkCapacity
  signals := h.signals
  signalCapacity := h.signalCapacity

lemma Supervisor.under_self {s : Supervisor μ space} (h : s.roster.policy = s.limits.policy) :
    Governed.under s.limits.policy s = s := by
  have hroster : Governed.under s.limits.policy s.roster = s.roster := by
    rw [← h]
    rfl
  change { s with limits := s.limits, roster := Governed.under s.limits.policy s.roster } = s
  rw [hroster]

namespace Session

variable {memory : MemoryService μ space} {outside : μ → μ → Prop} {limits : Limits} {start : μ}
  {events : List (Event space)} {s : Session μ space}

/-- Wherever a run has led a session, the next command tallies, and only a request for a change of
state can be turned down. -/
theorem Run.tally (h : Run memory outside limits start events s) (command : Command) :
    Tally (command.isRequest = true) ((Session.perform memory command).run (under .strict s))
      ((Session.perform memory command).run (under .lenient s)) := by
  have htally := tallies_perform memory command s
  cases hrequest : command.isRequest with
  | true => exact htally.mono fun _ => rfl
  | false =>
    obtain ⟨v, hshows, hlawful, -⟩ := h.shows
    have hstrict : (under .strict s).Shows (under .strict v) := Supervisor.Shows.under hshows .strict
    have hlawful' : (under .strict v).Lawful := hlawful.congr rfl rfl
    have hresult := (refines_perform memory command _ _ hstrict).result_eq
    generalize (Session.perform memory command).run (under .strict s) = u at htally hresult
    generalize (Session.perform memory command).run (under .lenient s) = w at htally
    cases htally with
    | same hgone hevents => exact .same hgone hevents
    | rejected hmoves =>
      have hunhalted : (View.perform memory command).Ensures [] (under .strict v) (fun _ _ _ => True)
          fun fault _ _ => ∃ e, fault = .error e :=
        View.ensures_unhalted hlawful' (Supervisor.Shows.inRange hstrict) hrequest hmoves
      obtain ⟨e, he⟩ := hunhalted.stop hresult.symm
      cases he

/-- The policy on record is the one that the session began with. -/
lemma Run.under_eq {policy : Strictness}
    (h : Run memory outside { limits with policy := policy } start events s) : under policy s = s := by
  obtain ⟨v, hshows, -, -⟩ := h.shows
  have hlimits : s.supervisor.limits.policy = policy := by rw [h.limits_eq]
  have hsupervisor := Supervisor.under_self (Supervisor.Shows.policy hshows)
  rw [hlimits] at hsupervisor
  change { s with dispatcher := { s.dispatcher with supervisor := under policy s.supervisor } } = s
  rw [hsupervisor]
  rfl

end Session

/-! ### What is ignored -/

lemma Roster.result_changeState_eq_false_iff {r : Roster space} (hpolicy : r.policy = .lenient) (pid : Pid)
    (state : ProcessState) :
    ((changeState pid state).run r).result = .ok (some false) ↔
      ∃ before, ((changeState pid state).run r).ignored = [(pid, before, state)] := by
  rw [changeState, run_bind, run_get]
  dsimp only
  cases r.get? pid with
  | none => simp [Outcome.ignored, Event.ignored]
  | some record =>
    dsimp only
    by_cases hcan : record.canEnter state = true
    · rw [if_pos hcan]
      simp [run_bind, Action.note, Except.map, Outcome.ignored, Event.ignored]
    · rw [if_neg hcan, hpolicy]
      simp [Action.note, Except.map, Outcome.ignored, Event.ignored]

/-- Under the lenient policy a request is answered with `false` exactly when it is ignored. -/
lemma Supervisor.result_changeState_eq_false_iff {s : Supervisor μ space}
    (hpolicy : s.roster.policy = .lenient) (pid : Pid) (state : ProcessState) :
    ((changeState pid state).run s).result = .ok false ↔
      ∃ before, ((changeState pid state).run s).ignored = [(pid, before, state)] := by
  have hroster := Roster.result_changeState_eq_false_iff hpolicy pid state
  rw [changeState]
  cases hcheck : s.check pid with
  | error e =>
    rw [run_bind_error (run_require hcheck)]
    simp [Outcome.ignored, Event.ignored]
  | ok =>
    rw [run_bind_quiet (run_require hcheck), onRoster, run_bind, run_within]
    generalize (Roster.changeState pid state).run s.roster = o at hroster
    obtain ⟨_ | answer, _, events⟩ := o
    · simpa [Outcome.ignored] using hroster
    · cases answer with
      | none => simpa [Action.ofOption, Outcome.ignored] using hroster
      | some changed => simpa [Action.ofOption, Outcome.ignored] using hroster

/-! ### Two runs -/

/-- What happens to a session: a command, a change of the memory service from outside, or a change of the
room that the heap has for records. -/
inductive Move (μ : Type) where
  | perform (command : Command)
  | outside (change : μ → μ)
  | heap (storage : Storage)

/-- Whether a move asks for a change of state by name. -/
def Move.isRequest : Move μ → Bool
  | .perform command => command.isRequest
  | .outside _ | .heap _ => false

namespace Session

variable (memory) in
def move : Move μ → Action space (Session μ space) Reply
  | .perform command => perform memory command
  | .outside change => do
    modify fun s => s.withMemory (change s.supervisor.memory)
    return .done
  | .heap storage => do
    modify fun s => s.withStorage storage
    return .done

variable (memory) in
/-- The outcomes of one move after the other, also after one that is refused or halts. -/
def chronicle : List (Move μ) → Session μ space → List (Outcome space (Session μ space) Reply)
  | [], _ => []
  | next :: rest, s =>
    let outcome := (move memory next).run s
    outcome :: chronicle rest outcome.state

variable {limits : Limits} {start : μ} {events : List (Event space)} {s : Session μ space}
  {m : Move μ} {moves : List (Move μ)} {n : Nat}

lemma length_chronicle (moves : List (Move μ)) (s : Session μ space) :
    (chronicle memory moves s).length = moves.length := by
  induction moves generalizing s with
  | nil => rfl
  | cons m moves ih => exact congrArg (· + 1) (ih _)

variable (memory limits start) in
/-- Where a run can lead a session if the memory service can be changed from outside in any way. -/
def Reached (s : Session μ space) : Prop :=
  ∃ events, Run memory (fun _ _ => True) limits start events s

lemma Reached.move (h : Reached memory limits start s) (m : Move μ) :
    Reached memory limits start ((Session.move memory m).run s).state := by
  obtain ⟨events, hrun⟩ := h
  cases m with
  | perform command => exact ⟨_, hrun.perform command⟩
  | outside change => exact ⟨events, hrun.outside trivial⟩
  | heap storage => exact ⟨events, hrun.heap storage⟩

lemma Reached.tally (h : Reached memory limits start s) (m : Move μ) :
    Tally (m.isRequest = true) ((Session.move memory m).run (under .strict s))
      ((Session.move memory m).run (under .lenient s)) := by
  obtain ⟨events, hrun⟩ := h
  cases m with
  | perform command => exact hrun.tally command
  | outside change =>
    exact (Tallies.update (f := fun s => s.withMemory (change s.supervisor.memory)) fun _ _ => rfl).bind
      (fun _ => .pure Reply.done) s
  | heap storage =>
    exact (Tallies.update (f := fun s => s.withStorage storage) fun _ _ => rfl).bind
      (fun _ => .pure Reply.done) s

lemma Reached.under_eq {policy : Strictness}
    (h : Reached memory { limits with policy := policy } start s) : under policy s = s :=
  h.elim fun _ hrun => hrun.under_eq

/-- An outcome on record is that of its move, from where a run led the session. -/
lemma Reached.exists_run (h : Reached memory limits start s) {o : Outcome space (Session μ space) Reply}
    (ho : (chronicle memory moves s)[n]? = some o) :
    ∃ m t, moves[n]? = some m ∧ Reached memory limits start t ∧ o = (Session.move memory m).run t := by
  induction moves generalizing s n with
  | nil => cases ho
  | cons first rest ih =>
    cases n with
    | zero =>
      cases ho
      exact ⟨first, s, rfl, h, rfl⟩
    | succ n => exact ih (h.move first) ho

lemma Reached.tally_strict (h : Reached memory { limits with policy := .strict } start s)
    {u : Outcome space (Session μ space) Reply} (hu : (chronicle memory moves s)[n]? = some u) :
    ∃ m v, moves[n]? = some m ∧ Tally (m.isRequest = true) u v := by
  obtain ⟨m, t, hm, ht, rfl⟩ := h.exists_run hu
  have htally := ht.tally m
  rw [ht.under_eq] at htally
  exact ⟨m, _, hm, htally⟩

lemma Reached.tally_lenient (h : Reached memory { limits with policy := .lenient } start s)
    {v : Outcome space (Session μ space) Reply} (hv : (chronicle memory moves s)[n]? = some v) :
    ∃ m u, moves[n]? = some m ∧ Tally (m.isRequest = true) u v := by
  obtain ⟨m, t, hm, ht, rfl⟩ := h.exists_run hv
  have htally := ht.tally m
  rw [ht.under_eq] at htally
  exact ⟨m, _, hm, htally⟩

lemma Reached.answer_lenient (h : Reached memory { limits with policy := .lenient } start s)
    {o : Outcome space (Session μ space) Reply} {pid : Pid} {state : ProcessState}
    (hm : moves[n]? = some (.perform (.changeState pid state)))
    (ho : (chronicle memory moves s)[n]? = some o) :
    o.result = .ok (.flag false) ↔ ∃ before, o.ignored = [(pid, before, state)] := by
  obtain ⟨m, t, hm', ⟨events, hrun⟩, rfl⟩ := h.exists_run ho
  cases hm.symm.trans hm'
  obtain ⟨v, hshows, -, -⟩ := hrun.shows
  have hpolicy : t.supervisor.roster.policy = .lenient := by
    rw [Supervisor.Shows.policy hshows, hrun.limits_eq]
  have hanswer := Supervisor.result_changeState_eq_false_iff hpolicy pid state
  have hrun : (onSupervisor (Supervisor.changeState pid state)).run t =
      ⟨((Supervisor.changeState pid state).run t.supervisor).result,
        ((onSupervisor (Supervisor.changeState pid state)).run t).state,
        ((Supervisor.changeState pid state).run t.supervisor).events⟩ := rfl
  rw [Session.move, perform, run_bind, hrun]
  generalize (Supervisor.changeState pid state).run t.supervisor = o at hanswer
  obtain ⟨_ | changed, _, events⟩ := o <;> simpa [Outcome.ignored] using hanswer

/-- As long as the lenient session ignores nothing, the strict one does the same, and then the next move
tallies. -/
theorem Reached.chronicle_tally (h : Reached memory limits start (under .lenient s))
    (hquiet : ∀ o ∈ (chronicle memory moves (under .lenient s)).take n, o.ignored = []) :
    (chronicle memory moves (under .strict s)).take n =
        ((chronicle memory moves (under .lenient s)).take n).map
          (fun o => { o with state := under .strict o.state }) ∧
      ∀ v, (chronicle memory moves (under .lenient s))[n]? = some v →
        ∃ u, (chronicle memory moves (under .strict s))[n]? = some u ∧ Tally True u v := by
  induction moves generalizing s n with
  | nil => simp [chronicle]
  | cons first rest ih =>
    have htally := h.tally first
    rw [under_under, under_under] at htally
    cases n with
    | zero =>
      refine ⟨by simp, fun v hv => ?_⟩
      cases hv
      exact ⟨_, rfl, htally.mono fun _ => trivial⟩
    | succ n =>
      have hmoved := h.move first
      rw [chronicle] at hquiet ⊢
      rw [chronicle]
      generalize (Session.move memory first).run (under .strict s) = u at htally ⊢
      generalize (Session.move memory first).run (under .lenient s) = v at htally hmoved hquiet ⊢
      rw [List.take_succ_cons, List.forall_mem_cons] at hquiet
      cases htally with
      | same =>
        obtain ⟨hsame, hnext⟩ := ih hmoved hquiet.2
        refine ⟨?_, hnext⟩
        rw [List.take_succ_cons, List.take_succ_cons, List.map_cons, hsame, under_under]
      | rejected _ _ _ hfs =>
        have hnone := hquiet.1
        rw [Outcome.ignored] at hnone
        rw [hnone] at hfs
        cases hfs

/-- If the lenient session ignores nothing at all, the strict one does the same to the end. -/
lemma Reached.chronicle_eq (h : Reached memory limits start (under .lenient s))
    (hquiet : ∀ o ∈ chronicle memory moves (under .lenient s), o.ignored = []) :
    chronicle memory moves (under .strict s) =
      (chronicle memory moves (under .lenient s)).map
        fun o => { o with state := under .strict o.state } := by
  have hsame := (h.chronicle_tally (n := moves.length)
    fun o ho => hquiet o (List.mem_of_mem_take ho)).1
  rwa [List.take_of_length_le (length_chronicle _ _).le,
    List.take_of_length_le (length_chronicle _ _).le] at hsame

lemma Reached.not_halted (h : Reached memory { limits with policy := .lenient } start s) :
    ∀ o ∈ chronicle memory moves s, ¬o.Halted := by
  intro o ho
  obtain ⟨n, hn⟩ := List.mem_iff_getElem?.mp ho
  obtain ⟨_, _, _, htally⟩ := h.tally_lenient hn
  exact htally.not_halted

/-- Two chronicles of the same moves that are in step: they are the same, but for the policy, up to the
first move at which the lenient one ignores a change of state, and at that move the strict one halts. -/
structure InStep (moves : List (Move μ))
    (strict lenient : List (Outcome space (Session μ space) Reply)) : Prop where
  length_strict : strict.length = moves.length
  length_lenient : lenient.length = moves.length
  /-- Results, events and all of the states but the policy are the same. -/
  same (n : Nat) : (∀ o ∈ lenient.take n, o.ignored = []) →
    strict.take n = (lenient.take n).map fun o => { o with state := under .strict o.state }
  /-- So are the states as they are observed. -/
  observed (n : Nat) : (∀ o ∈ lenient.take n, o.ignored = []) →
    (strict.take n).map (·.state.supervisor.observe) = (lenient.take n).map (·.state.supervisor.observe)
  /-- The first change that the lenient run ignores is the one that the strict run halts at. -/
  halts (n : Nat) {o pid before after} : (∀ o ∈ lenient.take n, o.ignored = []) →
    lenient[n]? = some o → o.ignored.head? = some (pid, before, after) →
    ∃ o', strict[n]? = some o' ∧ o'.result = .error (.halt (.illegalChange pid before after))
  /-- If the lenient run ignores none, then the strict run does not halt. -/
  strict_not_halted : (∀ o ∈ lenient, o.ignored = []) → ∀ o ∈ strict, ¬o.Halted
  lenient_not_halted : ∀ o ∈ lenient, ¬o.Halted
  /-- The lenient run answers that a state did not change exactly when it ignores the change. -/
  answers (n : Nat) {o pid state} : moves[n]? = some (.perform (.changeState pid state)) →
    lenient[n]? = some o → (o.result = .ok (.flag false) ↔ ∃ before, o.ignored = [(pid, before, state)])
  /-- Only a request for a change of state can be turned down. -/
  requests (n : Nat) {m : Move μ} : moves[n]? = some m → m.isRequest = false →
    (∀ o ∈ strict[n]?, ¬o.Halted) ∧ ∀ o ∈ lenient[n]?, o.ignored = []

/-- Policy refinement: whatever the moves, a strict session and a lenient one that begin with the same
limits are in step. -/
theorem chronicle_inStep (memory : MemoryService μ space) (limits : Limits) (start : μ)
    (moves : List (Move μ)) :
    InStep moves (chronicle memory moves (.ofLimits { limits with policy := .strict } start))
      (chronicle memory moves (.ofLimits { limits with policy := .lenient } start)) := by
  have hstrict : Reached memory { limits with policy := .strict } start
      (under .strict (.ofLimits limits start)) := ⟨[], .start⟩
  have hlenient : Reached memory { limits with policy := .lenient } start
      (under .lenient (.ofLimits limits start)) := ⟨[], .start⟩
  refine ⟨length_chronicle _ _, length_chronicle _ _,
    fun n hquiet => (hlenient.chronicle_tally hquiet).1, ?observed, ?halts, ?unhalted,
    hlenient.not_halted, fun n _ _ _ hm ho => hlenient.answer_lenient hm ho, ?requests⟩
  case observed =>
    intro n hquiet
    refine (congrArg (List.map (·.state.supervisor.observe))
      (hlenient.chronicle_tally hquiet).1).trans ?_
    rw [List.map_map]
    rfl
  case halts =>
    intro n v pid before after hquiet hv hfirst
    obtain ⟨u, hu, htally⟩ := (hlenient.chronicle_tally hquiet).2 v hv
    exact ⟨u, hu, htally.result_eq_halt hfirst⟩
  case unhalted =>
    intro hquiet u hu
    obtain ⟨v, hv, rfl⟩ := List.mem_map.mp (hlenient.chronicle_eq hquiet ▸ hu)
    exact hlenient.not_halted v hv
  case requests =>
    intro n m hm hallowed
    refine ⟨fun u hu => ?_, fun v hv => ?_⟩
    · obtain ⟨m', _, hm', htally⟩ := hstrict.tally_strict hu
      obtain rfl := Option.some.inj (hm.symm.trans hm')
      exact (htally.quiet (by simp [hallowed])).1
    · obtain ⟨m', _, hm', htally⟩ := hlenient.tally_lenient hv
      obtain rfl := Option.some.inj (hm.symm.trans hm')
      exact (htally.quiet (by simp [hallowed])).2

/-- A process that was just created cannot run yet: the lenient session ignores that it is asked to, and
says so, and the strict one halts. -/
theorem chronicle_inStep_of_rejected :
    ∃ strict lenient : List (Outcome HostSpace (Session HostMemory HostSpace) Reply),
    InStep [.perform (.create none 0), .heap ⟨4, 4, 0, 0⟩, .perform (.changeState 1 .running)] strict
      lenient ∧
    lenient.map (·.ignored) = [[], [], [(1, .created, .running)]] ∧
    lenient.map (·.result) = [.ok (.pid 1), .ok .done, .ok (.flag false)] ∧
    strict.map (·.result) =
      [.ok (.pid 1), .ok .done, .error (.halt (.illegalChange 1 .created .running))] := by
  have hinStep := chronicle_inStep HostMemory.service ⟨8, 4, 4, 4, .lenient⟩ .empty
    [.perform (.create none 0), .heap ⟨4, 4, 0, 0⟩, .perform (.changeState 1 .running)]
  exact ⟨_, _, hinStep, by decide +kernel, by decide +kernel, by decide +kernel⟩

end Session

end Uniprocessor
