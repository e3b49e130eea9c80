import Uniprocessor.Machine
import Uniprocessor.Proofs.Meters

/-!
# Calls from inside of bodies

After a dispatcher is installed, ticks of the timer and bodies that use the dispatcher may come in any
order, and from inside of bodies as well. A routine is such a tree of calls. In whatever shape calls
are nested, the lock on the dispatcher is held exactly while a body is active, and every tick shows in
one counter or another.
-/

namespace Uniprocessor

open Uniprocessor.Action

/-- A tree of calls, on the machine or inside a body that uses the dispatcher. Only a body has the
dispatcher in its hands. -/
inductive Routine (μ : Type) : Bool → Type
  | done {inside} : Routine μ inside
  | tick {inside} (rest : Routine μ inside) : Routine μ inside
  | hold {inside} (body : Routine μ true) (rest : Routine μ inside) : Routine μ inside
  | direct (command : Command) (rest : Routine μ true) : Routine μ true
  /-- The body does something to the memory service. -/
  | adjust (change : μ → μ) (rest : Routine μ true) : Routine μ true

/-- What is called. -/
inductive Call where
  | tick
  | hold
  | direct (command : Command)
  | adjust

/-- A call that is made, and the machine that it finds. -/
structure Visit (μ space : Type) where
  call : Call
  /-- Whether a body is active. -/
  inside : Bool
  found : Machine μ space

variable {μ space α β : Type} (memory : MemoryService μ space) (kind : Interrupts.Kind)

namespace Machine

/-- A command carried out on the dispatcher directly. A refusal is for the body to deal with. -/
def carryOut (command : Command) : Action space (Machine μ space) (Except Refusal Reply) :=
  .attempt (onSession (Session.perform memory command))

/-- A change of the memory service behind the dispatcher. -/
def adjust (change : μ → μ) : Action space (Machine μ space) Unit :=
  onSession (modify fun s => s.withMemory (change s.supervisor.memory))

end Machine

namespace Routine

/-- The calls of a routine, one after the other. Bodies ask for a dispatcher of the given kind. -/
def perform : {inside : Bool} → Routine μ inside → Action space (Machine μ space) Unit
  | _, .done => pure ()
  | _, .tick rest => do
    let _ ← Machine.tick memory 0
    rest.perform
  | _, .hold body rest => do
    let _ ← .attempt (Machine.usingDispatcher kind body.perform)
    rest.perform
  | _, .direct command rest => do
    let _ ← Machine.carryOut memory command
    rest.perform
  | _, .adjust change rest => do
    Machine.adjust change
    rest.perform

/-- The calls that are made when a routine is performed. Those of a body are made only if it runs. -/
def visits : {inside : Bool} → Routine μ inside → Machine μ space → List (Visit μ space)
  | _, .done, _ => []
  | inside, .tick rest, m => ⟨.tick, inside, m⟩ :: rest.visits ((Machine.tick memory 0).run m).state
  | inside, .hold body rest, m =>
    ⟨.hold, inside, m⟩ ::
      (if m.locked || !m.hasKind kind then [] else body.visits { m with locked := true }) ++
        rest.visits ((Action.attempt (Machine.usingDispatcher kind (body.perform memory kind))).run m).state
  | _, .direct command rest, m =>
    ⟨.direct command, true, m⟩ :: rest.visits ((Machine.carryOut memory command).run m).state
  | _, .adjust change rest, m =>
    ⟨.adjust, true, m⟩ :: rest.visits ((Machine.adjust change : Action space _ Unit).run m).state

end Routine

namespace Visit

/-- Ticks of the timer. -/
def ticks (x : Visit μ space) : Nat :=
  match x.call with
  | .tick => 1
  | _ => 0

/-- Ticks of the timer while a body is active. -/
def ticksInside (x : Visit μ space) : Nat := if x.inside then x.ticks else 0

/-- Ticks that a body makes on the dispatcher directly. -/
def directTicks (x : Visit μ space) : Nat :=
  match x.call with
  | .direct command => command.ticksMade
  | _ => 0

/-- Whether the call does not halt. -/
def isCalm (x : Visit μ space) : Bool :=
  match x.call with
  | .direct command =>
    match ((Machine.carryOut memory command).run x.found).result with
    | .ok _ => true
    | .error _ => false
  | _ => true

/-- How a call is answered. -/
structure Proper (x : Visit μ space) : Prop where
  /-- The lock is held exactly while a body is active. -/
  locked : x.found.locked = x.inside
  /-- A tick inside a body is skipped, and nothing but two counters changes. -/
  skipped : x.call = .tick → x.inside = true → (Machine.tick memory 0).run x.found =
    ⟨.ok .skipped, { x.found with
      timerTicks := x.found.timerTicks + 1, missedTicks := x.found.missedTicks + 1 },
      [.notice .tickSkipped]⟩
  /-- Any other tick is not, and leaves the lock free. -/
  ticked : x.call = .tick → x.inside = false → ∃ outcome m events,
    (Machine.tick memory 0).run x.found = ⟨.ok outcome, m, events⟩ ∧ outcome ≠ .skipped ∧ m.locked = false
  /-- Inside a body no other one runs, whatever it is: nothing happens. -/
  busy : x.call = .hold → x.inside = true → ∀ (α : Type) (body : Action space (Machine μ space) α),
    (Machine.usingDispatcher kind body).run x.found = ⟨.error (.error .busy), x.found, []⟩
  /-- Elsewhere every body runs, with the lock held, and leaves the lock free. -/
  runs : x.call = .hold → x.inside = false → ∀ (α : Type) (body : Action space (Machine μ space) α),
    (Machine.usingDispatcher kind body).run x.found =
      ⟨(body.run { x.found with locked := true }).result,
        { (body.run { x.found with locked := true }).state with locked := false },
        (body.run { x.found with locked := true }).events⟩
  /-- What is in the hands of a body is used inside a body only. -/
  direct : (x.call ≠ .tick ∧ x.call ≠ .hold) → x.inside = true

end Visit

namespace Machine

variable {memory kind} {m m' : Machine μ space} {d d' : Dispatcher μ space} {start : μ}

/-! ### Single calls -/

lemma run_usingDispatcher_locked (h : m.locked = true) (body : Action space (Machine μ space) α) :
    (usingDispatcher kind body).run m = ⟨.error (.error .busy), m, []⟩ := by
  rw [usingDispatcher, run_bind_quiet (run_get m), h]
  rfl

lemma run_usingDispatcher_free (h : m.locked = false) (hkind : m.hasKind kind = true)
    (body : Action space (Machine μ space) α) :
    (usingDispatcher kind body).run m =
      ⟨(body.run { m with locked := true }).result,
        { (body.run { m with locked := true }).state with locked := false },
        (body.run { m with locked := true }).events⟩ := by
  rw [usingDispatcher, run_bind_quiet (run_get m), h, if_neg (by decide)]
  refine (run_bind_quiet (run_get m)).trans ?_
  rw [hkind, if_neg (by decide)]
  rfl

variable (memory) in
lemma run_tick_locked (h : m.locked = true) : (tick memory 0).run m =
    ⟨.ok .skipped, { m with timerTicks := m.timerTicks + 1, missedTicks := m.missedTicks + 1 },
      [.notice .tickSkipped]⟩ := by
  rw [tick, tickWith, run_bind_quiet (run_modify _ m), run_bind_quiet (run_get _), h]
  rfl

lemma run_tick_free (h : m.locked = false) : (tick memory 0).run m =
    (do
      let decision ← holdingLock (schedule memory)
      match decision.2 with
      | some point => switchTo memory 0 point
      | none => pure ()
      return decision.1).run { m with timerTicks := m.timerTicks + 1 } := by
  rw [tick, tickWith, run_bind_quiet (run_modify _ m), run_bind_quiet (run_get _), h]
  rfl

variable (memory) in
/-- The primitive records a switch. -/
lemma run_switchTo (h : ∀ p ∈ m.primitive, p.reenter = false) (point : ResumePoint) :
    ∃ switches, (switchTo memory 0 point).run m = ⟨.ok (), { m with switches := switches }, []⟩ := by
  obtain ⟨dispatcher, primitive, locked, timerTicks, missedTicks, switches, targets⟩ := m
  cases primitive with
  | none => exact ⟨switches, by rw [switchTo, run_bind_quiet (run_get _)]; rfl⟩
  | some primitive =>
    refine ⟨switches ++ [.switched primitive.tag point], ?_⟩
    rw [switchTo, run_bind_quiet (run_get _)]
    dsimp only
    rw [record, run_bind_quiet (run_modify _ _), h primitive rfl, if_neg (by decide)]
    rfl

/-- An installed dispatcher, of the kind asked for, with a primitive that does not call back. -/
structure Serves (memory : MemoryService μ space) (kind : Interrupts.Kind) (start : μ)
    (m : Machine μ space) (d : Dispatcher μ space) : Prop where
  dispatcher : m.dispatcher = some d
  kind_eq : d.interrupts.kind = kind
  sound : d.Sound memory start
  primitive : ∀ p ∈ m.primitive, p.reenter = false

lemma Serves.hasKind (h : m.Serves memory kind start d) : m.hasKind kind = true := by
  rw [Machine.hasKind, h.dispatcher, Option.map_some, h.kind_eq]
  cases kind <;> rfl

/-- What a machine with another dispatcher in place serves. -/
lemma Serves.next (h : m.Serves memory kind start d) (hdispatcher : m'.dispatcher = some d')
    (hprimitive : m'.primitive = m.primitive) (hsound : d'.Sound memory start)
    (hkind : d'.interrupts.kind = d.interrupts.kind) : m'.Serves memory kind start d' where
  dispatcher := hdispatcher
  kind_eq := hkind.trans h.kind_eq
  sound := hsound
  primitive := by
    rw [hprimitive]
    exact h.primitive

/-- The lock is taken for the dispatcher's part in a tick. -/
lemma Serves.run_schedule (h : m.Serves memory kind start d) (hfree : m.locked = false) :
    ∃ decision d' es, (holdingLock (schedule memory)).run m =
      ⟨.ok decision, { m with dispatcher := some d' }, es⟩ ∧
      decision.1 ≠ .skipped ∧ d'.Sound memory start ∧ Dispatcher.Advances 1 d d' := by
  obtain ⟨outcome, target, d', es, hrun, -, houtcome, hsound, hadvances⟩ :=
    Session.run_tick (s := ⟨d, m.targets⟩) h.sound
  obtain ⟨dispatcher, primitive, locked, timerTicks, missedTicks, switches, targets⟩ := m
  obtain rfl : dispatcher = some d := h.dispatcher
  obtain rfl : locked = false := hfree
  have hinside : (schedule memory).run
      ⟨some d, primitive, true, timerTicks, missedTicks, switches, targets⟩ =
      ⟨.ok (outcome, target),
        ⟨some d', primitive, true, timerTicks, missedTicks, switches, targets⟩, es⟩ := by
    rw [schedule, run_bind_quiet (run_get _), if_pos (by rfl), onDispatcher,
      run_bind_quiet (run_get _)]
    dsimp only
    rw [run_within, hrun]
  refine ⟨(outcome, target), d', es, ?_, houtcome, hsound, hadvances⟩
  rw [run, holdingLock]
  rw [run] at hinside
  rw [hinside]

lemma Serves.run_tick (h : m.Serves memory kind start d) (hfree : m.locked = false) :
    ∃ outcome switches d' es, (tick memory 0).run m =
      ⟨.ok outcome, { m with
        timerTicks := m.timerTicks + 1, dispatcher := some d', switches := switches }, es⟩ ∧
      outcome ≠ .skipped ∧ d'.Sound memory start ∧ Dispatcher.Advances 1 d d' := by
  have hcounted : Serves memory kind start { m with timerTicks := m.timerTicks + 1 } d :=
    h.next h.dispatcher rfl h.sound rfl
  obtain ⟨⟨outcome, target⟩, d', es, hrun, houtcome, hsound, hadvances⟩ := hcounted.run_schedule hfree
  rw [run_tick_free hfree, run_bind, hrun]
  cases target with
  | none => exact ⟨outcome, m.switches, d', es, by simp, houtcome, hsound, hadvances⟩
  | some point =>
    have hprimitive : ∀ p ∈ ({ m with timerTicks := m.timerTicks + 1, dispatcher := some d' } :
        Machine μ space).primitive, p.reenter = false := h.primitive
    obtain ⟨switches, hswitch⟩ := run_switchTo memory hprimitive point
    refine ⟨outcome, switches, d', es, ?_, houtcome, hsound, hadvances⟩
    dsimp only
    rw [run_bind_quiet hswitch]
    simp

/-- Between `m` with the dispatcher `d` and `m'` with the dispatcher `d'`, the calls `xs` show in the
counters, and the lock is as it was. -/
structure Counts (xs : List (Visit μ space)) (m : Machine μ space) (d : Dispatcher μ space)
    (m' : Machine μ space) (d' : Dispatcher μ space) : Prop where
  locked : m'.locked = m.locked
  timerTicks : m'.timerTicks = m.timerTicks + (xs.map Visit.ticks).sum
  missedTicks : m'.missedTicks = m.missedTicks + (xs.map Visit.ticksInside).sum
  ticks : d'.counters.ticks + (xs.map Visit.ticksInside).sum =
    d.counters.ticks + (xs.map Visit.ticks).sum + (xs.map Visit.directTicks).sum

lemma Counts.trans {xs ys : List (Visit μ space)} {m'' : Machine μ space} {d'' : Dispatcher μ space}
    (h : Counts xs m d m' d') (h' : Counts ys m' d' m'' d'') : Counts (xs ++ ys) m d m'' d'' where
  locked := h'.locked.trans h.locked
  timerTicks := by
    rw [h'.timerTicks, h.timerTicks, List.map_append, List.sum_append, Nat.add_assoc]
  missedTicks := by
    rw [h'.missedTicks, h.missedTicks, List.map_append, List.sum_append, Nat.add_assoc]
  ticks := by
    have hfirst := h.ticks
    have hsecond := h'.ticks
    simp only [List.map_append, List.sum_append]
    omega

variable (memory kind start) in
/-- The calls `xs` are properly answered and counted on the way from `m` with the dispatcher `d` to an
outcome without a halt. -/
structure Passes (xs : List (Visit μ space)) (m : Machine μ space) (d : Dispatcher μ space)
    (o : Outcome space (Machine μ space) α) : Prop where
  finishes : ∃ a, o.result = .ok a
  serves : ∃ d', o.state.Serves memory kind start d' ∧ Counts xs m d o.state d'
  proper : ∀ x ∈ xs, x.Proper memory kind

lemma Passes.bind {x : Action space (Machine μ space) α} {f : α → Action space (Machine μ space) β}
    {xs ys : List (Visit μ space)} (h : Passes memory kind start xs m d (x.run m))
    (hnext : ∀ a d', (x.run m).state.Serves memory kind start d' →
      (x.run m).state.locked = m.locked →
      Passes memory kind start ys (x.run m).state d' ((f a).run (x.run m).state)) :
    Passes memory kind start (xs ++ ys) m d ((x >>= f).run m) := by
  obtain ⟨⟨a, hresult⟩, ⟨d₁, hserves, hcounts⟩, hproper⟩ := h
  obtain ⟨⟨b, hlast⟩, ⟨d₂, hserves', hcounts'⟩, hproper'⟩ := hnext a d₁ hserves hcounts.locked
  have hrun : (x >>= f).run m = ⟨((f a).run (x.run m).state).result, ((f a).run (x.run m).state).state,
      (x.run m).events ++ ((f a).run (x.run m).state).events⟩ := by
    rw [run_bind, run_eq_of_result hresult]
  rw [hrun]
  refine ⟨⟨b, hlast⟩, ⟨d₂, hserves', hcounts.trans hcounts'⟩, fun y hy => ?_⟩
  rcases List.mem_append.mp hy with hy | hy
  · exact hproper y hy
  · exact hproper' y hy

/-- One tick of the timer. -/
lemma Serves.passes_tick (h : m.Serves memory kind start d) {inside : Bool}
    (hlocked : m.locked = inside) :
    Passes memory kind start [⟨.tick, inside, m⟩] m d ((tick memory 0).run m) := by
  cases inside with
  | true =>
    have hrun := run_tick_locked memory hlocked
    rw [hrun]
    refine ⟨⟨_, rfl⟩, ⟨d, h.next h.dispatcher rfl h.sound rfl, ⟨rfl, rfl, rfl, rfl⟩⟩, ?_⟩
    exact List.forall_mem_singleton.mpr ⟨hlocked, fun _ _ => hrun, nofun, nofun, nofun, nofun⟩
  | false =>
    obtain ⟨outcome, switches, d', es, hrun, houtcome, hsound, hadvances⟩ := h.run_tick hlocked
    rw [hrun]
    refine ⟨⟨_, rfl⟩, ⟨d', h.next rfl rfl hsound hadvances.kind, ⟨rfl, rfl, rfl, hadvances.ticks⟩⟩, ?_⟩
    exact List.forall_mem_singleton.mpr
      ⟨hlocked, nofun, fun _ _ => ⟨outcome, _, es, hrun, houtcome, hlocked⟩, nofun, nofun, nofun⟩

/-- One use of the dispatcher, with the calls that its body makes if it runs. -/
lemma Serves.passes_hold (h : m.Serves memory kind start d) {inside : Bool}
    (hlocked : m.locked = inside) {body : Action space (Machine μ space) α} {xs : List (Visit μ space)}
    (hbody : m.locked = false → Passes memory kind start xs { m with locked := true } d
      (body.run { m with locked := true })) :
    Passes memory kind start
      (⟨.hold, inside, m⟩ :: if m.locked || !m.hasKind kind then [] else xs) m d
      ((Action.attempt (usingDispatcher kind body)).run m) := by
  cases inside with
  | true =>
    rw [hlocked, run_attempt_error (run_usingDispatcher_locked hlocked body)]
    refine ⟨⟨_, rfl⟩, ⟨d, h, ⟨rfl, rfl, rfl, rfl⟩⟩, ?_⟩
    exact List.forall_mem_singleton.mpr
      ⟨hlocked, nofun, nofun, fun _ _ _ body => run_usingDispatcher_locked hlocked body, nofun, nofun⟩
  | false =>
    obtain ⟨⟨a, hresult⟩, ⟨d', hserves, hcounts⟩, hproper⟩ := hbody hlocked
    have hruns : ∀ (α : Type) (body : Action space (Machine μ space) α), _ :=
      fun _ body => run_usingDispatcher_free hlocked h.hasKind body
    rw [run_attempt_ok ((hruns _ body).trans (by rw [hresult])), hlocked, Bool.false_or, h.hasKind,
      Bool.not_true, if_neg (by decide)]
    refine ⟨⟨_, rfl⟩, ⟨d', hserves.next hserves.dispatcher rfl hserves.sound rfl, ?_⟩, ?_⟩
    · have hticks := hcounts.ticks
      have htimer := hcounts.timerTicks
      have hmissed := hcounts.missedTicks
      refine ⟨hlocked.symm, ?_, ?_, ?_⟩ <;> simp_all [Visit.ticks, Visit.ticksInside, Visit.directTicks]
    · exact List.forall_mem_cons.mpr
        ⟨⟨hlocked, nofun, nofun, nofun, fun _ _ => hruns, nofun⟩, hproper⟩

lemma Serves.state_onSession (h : m.Serves memory kind start d) (x : Action space (Session μ space) α) :
    ((onSession x).run m).state = { m with
      dispatcher := some (x.run ⟨d, m.targets⟩).state.dispatcher
      targets := (x.run ⟨d, m.targets⟩).state.targets } := by
  rw [onSession, run_bind_quiet (run_get m), h.dispatcher]
  rfl

/-- One command on the dispatcher that a body has in its hands. -/
lemma Serves.passes_carryOut (h : m.Serves memory kind start d) (hlocked : m.locked = true)
    {command : Command} (hcalm : Visit.isCalm memory ⟨.direct command, true, m⟩ = true) :
    Passes memory kind start [⟨.direct command, true, m⟩] m d ((carryOut memory command).run m) := by
  have hstate := h.state_onSession (Session.perform memory command)
  have hadvances := Session.advances_perform (s := ⟨d, m.targets⟩) h.sound command
  have hsound := Session.sound_perform (s := ⟨d, m.targets⟩) h.sound command
  have hresult : ∃ a, ((carryOut memory command).run m).result = .ok a := by
    dsimp only [Visit.isCalm] at hcalm
    cases hresult : ((carryOut memory command).run m).result with
    | ok a => exact ⟨a, rfl⟩
    | error fault =>
      rw [hresult] at hcalm
      cases hcalm
  rw [← state_attempt] at hstate
  refine ⟨hresult, ⟨_, h.next (by rw [carryOut, hstate]) (by rw [carryOut, hstate]) hsound hadvances.kind,
    ?_⟩, ?_⟩
  · have hticks := hadvances.ticks
    refine ⟨by rw [carryOut, hstate], by rw [carryOut, hstate]; rfl, by rw [carryOut, hstate]; rfl, ?_⟩
    simpa [Visit.ticks, Visit.ticksInside, Visit.directTicks] using hticks
  · exact List.forall_mem_singleton.mpr ⟨hlocked, nofun, nofun, nofun, nofun, fun _ => rfl⟩

lemma Serves.passes_adjust (h : m.Serves memory kind start d) (hlocked : m.locked = true)
    (change : μ → μ) : Passes memory kind start [⟨.adjust, true, m⟩] m d ((adjust change).run m) := by
  have hsound := Session.sound_withMemory (s := ⟨d, m.targets⟩) h.sound (change d.supervisor.memory)
  have hrun : (adjust change : Action space (Machine μ space) Unit).run m = ⟨.ok (), { m with
      dispatcher := some ((⟨d, m.targets⟩ : Session μ space).withMemory
        (change d.supervisor.memory)).dispatcher }, []⟩ := by
    rw [adjust, onSession, run_bind_quiet (run_get m), h.dispatcher]
    rfl
  rw [hrun]
  refine ⟨⟨_, rfl⟩, ⟨_, h.next rfl rfl hsound rfl, ⟨rfl, rfl, rfl, rfl⟩⟩, ?_⟩
  exact List.forall_mem_singleton.mpr ⟨hlocked, nofun, nofun, nofun, nofun, fun _ => rfl⟩

/-! ### Routines -/

/-- Every routine passes, by the calls in it one after the other. The lock tells the branches of the
tree that lie inside a body from those that do not. -/
theorem Serves.passes_perform {inside : Bool} (r : Routine μ inside) (h : m.Serves memory kind start d)
    (hlocked : m.locked = inside) (hcalm : ∀ x ∈ r.visits memory kind m, x.isCalm memory = true) :
    Passes memory kind start (r.visits memory kind m) m d ((r.perform memory kind).run m) := by
  induction r generalizing m d with
  | done =>
    rw [Routine.visits, Routine.perform]
    exact ⟨⟨(), rfl⟩, ⟨d, h, ⟨rfl, rfl, rfl, rfl⟩⟩, List.forall_mem_nil _⟩
  | tick rest ih =>
    rw [Routine.visits, List.forall_mem_cons] at hcalm
    rw [Routine.visits, Routine.perform, ← List.singleton_append]
    exact (h.passes_tick hlocked).bind fun _ d' hserves hsame => ih hserves (hsame.trans hlocked) hcalm.2
  | hold body rest ihbody ih =>
    rw [Routine.visits, List.forall_mem_append, List.forall_mem_cons] at hcalm
    rw [Routine.visits, Routine.perform]
    refine (h.passes_hold hlocked fun hfree => ?_).bind fun _ d' hserves hsame =>
      ih hserves (hsame.trans hlocked) hcalm.2
    have hbody := hcalm.1.2
    rw [hfree, Bool.false_or, h.hasKind, Bool.not_true, if_neg (by decide)] at hbody
    exact ihbody (m := { m with locked := true }) (h.next h.dispatcher rfl h.sound rfl) rfl hbody
  | direct command rest ih =>
    rw [Routine.visits, List.forall_mem_cons] at hcalm
    rw [Routine.visits, Routine.perform, ← List.singleton_append]
    exact (h.passes_carryOut hlocked hcalm.1).bind fun _ d' hserves hsame =>
      ih hserves (hsame.trans hlocked) hcalm.2
  | adjust change rest ih =>
    rw [Routine.visits, List.forall_mem_cons] at hcalm
    rw [Routine.visits, Routine.perform, ← List.singleton_append]
    exact (h.passes_adjust hlocked change).bind fun _ d' hserves hsame =>
      ih hserves (hsame.trans hlocked) hcalm.2

lemma serves_of_install {primitive : SwitchPrimitive} {es : List (Event space)}
    (hinstall : (install d primitive).run m = ⟨.ok (), m', es⟩) (hsound : d.Sound memory start)
    (hprimitive : primitive.reenter = false) :
    m'.Serves memory d.interrupts.kind start d ∧ m'.locked = m.locked := by
  rw [install, run_bind_quiet (run_get m)] at hinstall
  cases hdispatcher : m.dispatcher with
  | some other =>
    rw [hdispatcher, Option.isSome_some, if_pos rfl] at hinstall
    cases hinstall
  | none =>
    rw [hdispatcher, Option.isSome_none, if_neg (by decide)] at hinstall
    cases hinstall
    refine ⟨⟨rfl, rfl, hsound, ?_⟩, rfl⟩
    rintro _ ⟨⟩
    exact hprimitive

/-- Re-entrancy: a dispatcher of processes that a run has led to is installed, with a primitive that
does not call back, and any routine is performed in which no direct use of the dispatcher halts. Then
every call in it is properly answered, on the machine and inside of bodies to any depth; in the end the
lock is free, the machine has counted every tick and those inside of bodies, and the dispatcher has
counted the others and those that bodies made directly. -/
theorem routine_counts {limits : Limits} {events es : List (Event space)} {s : Session μ space}
    (hrun : Session.Run memory (fun _ _ => True) limits start events s)
    (hd : d.supervisor = s.supervisor) {primitive : SwitchPrimitive}
    (hprimitive : primitive.reenter = false) (hfree : m.locked = false)
    (hinstall : (install d primitive).run m = ⟨.ok (), m', es⟩) (r : Routine μ false)
    (hcalm : ∀ x ∈ r.visits memory d.interrupts.kind m', x.isCalm memory = true) :
    let calls := r.visits memory d.interrupts.kind m'
    ∃ after d' es', (r.perform memory d.interrupts.kind).run m' = ⟨.ok (), after, es'⟩ ∧
      (∀ x ∈ calls, x.Proper memory d.interrupts.kind) ∧
      after.locked = false ∧ after.dispatcher = some d' ∧
      after.timerTicks = m'.timerTicks + (calls.map Visit.ticks).sum ∧
      after.missedTicks = m'.missedTicks + (calls.map Visit.ticksInside).sum ∧
      d'.counters.ticks + (calls.map Visit.ticksInside).sum =
        d.counters.ticks + (calls.map Visit.ticks).sum + (calls.map Visit.directTicks).sum := by
  obtain ⟨v, hshows, hlawful, htraffic⟩ := hrun.shows
  have hd : d.Shows v := by
    rw [Dispatcher.Shows, hd]
    exact hshows
  have hsound : d.Sound memory start := ⟨v, _, hd, hlawful, htraffic⟩
  obtain ⟨hserves, hlocked⟩ := serves_of_install hinstall hsound hprimitive
  have hpasses := hserves.passes_perform r (hlocked.trans hfree) hcalm
  obtain ⟨⟨_, hresult⟩, ⟨d', hserves', hcounts⟩, hproper⟩ := hpasses
  exact ⟨_, d', _, run_eq_of_result hresult, hproper, hcounts.locked.trans (hlocked.trans hfree),
    hserves'.dispatcher, hcounts.timerTicks, hcounts.missedTicks, hcounts.ticks⟩

/-- A tick, a body that ticks the dispatcher, is hit by a tick and asks for the dispatcher in vain, and
another tick. -/
theorem routine_counts_of_nested : ∃ (s : Session HostMemory HostSpace) (events : _)
    (m : Machine HostMemory HostSpace) (r : Routine HostMemory false) (after : _) (d' : _) (es : _),
    Session.Run HostMemory.service (fun _ _ => True) ⟨8, 4, 4, 4, .strict⟩ .empty events s ∧
    (install (.ofSupervisor s.supervisor .alwaysMasked) ⟨7, false⟩).run initial =
      ⟨.ok (), m, [.notice .installed]⟩ ∧
    (r.perform HostMemory.service .alwaysMasked).run m = ⟨.ok (), after, es⟩ ∧
    after.locked = false ∧ after.dispatcher = some d' ∧
    after.timerTicks = 3 ∧ after.missedTicks = 1 ∧ d'.counters.ticks = 3 := by
  have hbegun : Session.Run HostMemory.service (fun _ _ => True) ⟨8, 4, 4, 4, .strict⟩ .empty [] _ := .start
  have hmade := (hbegun.perform (.create none 0)).perform (.create none 0)
  have hinstall : ∀ d : Dispatcher HostMemory HostSpace, (install d ⟨7, false⟩).run initial =
      ⟨.ok (), { initial with dispatcher := some d, primitive := some ⟨7, false⟩ },
        [.notice .installed]⟩ := fun _ => rfl
  have hprimitive : (⟨7, false⟩ : SwitchPrimitive).reenter = false := rfl
  obtain ⟨after, d', es, hrun, -, hfree, hdispatcher, htimer, hmissed, hticks⟩ :=
    routine_counts hmade (d := .ofSupervisor _ .alwaysMasked) rfl hprimitive rfl
      (hinstall _) (.tick (.hold (.direct .tick (.tick (.hold (.tick .done) .done))) (.tick .done)))
      (by decide +kernel)
  refine ⟨_, _, _, _, after, d', es, hmade, hinstall _, hrun, hfree, hdispatcher, ?_, ?_, ?_⟩
  · rw [htimer]
    decide +kernel
  · rw [hmissed]
    decide +kernel
  · exact Nat.add_right_cancel (hticks.trans (by decide +kernel))

end Machine

end Uniprocessor
