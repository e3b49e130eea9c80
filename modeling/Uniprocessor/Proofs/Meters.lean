import Uniprocessor.Proofs.Ticks

/-!
# What a dispatcher counts

A dispatcher counts its own ticks. In every state that a run can lead to, a tick of the dispatcher
finishes, so that each command moves the count by the ticks that it makes, and no command changes how
interrupts are controlled.
-/

namespace Uniprocessor

open Uniprocessor.Action

namespace Action

variable {space σ τ α β γ : Type} {x : Action space σ α} {f : σ → γ}

/-- However the action ends, it leaves `f` of the state as it is. -/
def Leaves (f : σ → γ) (x : Action space σ α) : Prop := ∀ s, f (x.run s).state = f s

lemma leaves_pure (a : α) : (pure a : Action space σ α).Leaves f := fun _ => rfl

lemma leaves_get : (get : Action space σ σ).Leaves f := fun _ => rfl

lemma leaves_note (notice : Notice) : (note notice : Action space σ Unit).Leaves f := fun _ => rfl

lemma leaves_modify {g : σ → σ} (h : ∀ s, f (g s) = f s) :
    (modify g : Action space σ Unit).Leaves f := h

lemma Leaves.bind {next : α → Action space σ β} (hx : x.Leaves f) (hnext : ∀ a, (next a).Leaves f) :
    (x >>= next).Leaves f := by
  intro s
  have hfirst := hx s
  rw [run_bind]
  rcases hrun : x.run s with ⟨_ | a, t, es⟩
  · rwa [hrun] at hfirst
  · rw [hrun] at hfirst
    exact (hnext a t).trans hfirst

lemma state_attempt (x : Action space σ α) (s : σ) : ((attempt x).run s).state = (x.run s).state := by
  rw [run, run, attempt]
  rcases x s with ⟨(_ | _) | _, _, _⟩ <;> rfl

lemma Leaves.attempt (hx : x.Leaves f) : (attempt x).Leaves f := by
  intro s
  rw [state_attempt]
  exact hx s

/-- What is no part of the state that an action works on is left by it. -/
lemma leaves_within {part : τ → σ} {put : τ → σ → τ} {g : τ → γ} (h : ∀ t s, g (put t s) = g t)
    (x : Action space σ α) : (within part put x).Leaves g := fun t => h t _

end Action

/-- How often a command has the dispatcher tick. -/
def Command.ticksMade : Command → Nat
  | .tick | .schedule => 1
  | .ticks count => count
  | _ => 0

/-- Whether a command has the dispatcher tick. -/
def Command.makesTicks : Command → Bool
  | .tick | .ticks _ | .schedule => true
  | _ => false

variable {μ space α γ : Type} {memory : MemoryService μ space} {start : μ}

namespace Interrupts

lemma kind_enter (i : Interrupts) : i.enter.2.kind = i.kind := by cases i <;> rfl

lemma kind_disable (i : Interrupts) : i.disable.kind = i.kind := by cases i <;> rfl

lemma kind_enable (i : Interrupts) : i.enable.kind = i.kind := by cases i <;> rfl

lemma kind_leave (i : Interrupts) (guard : CriticalSection) : (i.leave guard).kind = i.kind := by
  rw [leave]
  split
  · exact kind_enable i
  · rfl

end Interrupts

namespace Dispatcher

variable {d d' : Dispatcher μ space}

/-- How interrupts are controlled, and the counters. -/
def meter (d : Dispatcher μ space) : Interrupts.Kind × TickCounters := (d.interrupts.kind, d.counters)

lemma leaves_onSupervisor {f : Dispatcher μ space → γ}
    (hf : ∀ (d : Dispatcher μ space) s, f { d with supervisor := s } = f d)
    (x : Action space (Supervisor μ space) α) : (onSupervisor x).Leaves f := leaves_within hf x

/-- A critical section changes the interrupts only, and not the way in which they are controlled. -/
lemma leaves_masked {x : Action space (Dispatcher μ space) α} {f : Dispatcher μ space → γ}
    (hf : ∀ (d : Dispatcher μ space) i, i.kind = d.interrupts.kind → f { d with interrupts := i } = f d)
    (hx : x.Leaves f) : (masked x).Leaves f := by
  intro d
  have hinside := hx { d with interrupts := d.interrupts.enter.2 }
  rw [hf d _ (Interrupts.kind_enter d.interrupts)] at hinside
  rw [← hinside]
  exact hf _ _ (Interrupts.kind_leave _ _)

lemma leaves_count (g : TickCounters → TickCounters) :
    (count g : Action space (Dispatcher μ space) Unit).Leaves (·.interrupts.kind) :=
  leaves_modify fun _ => rfl

lemma leaves_promote (pid : Pid) :
    (promote pid : Action space (Dispatcher μ space) _).Leaves (·.interrupts.kind) := by
  refine (leaves_onSupervisor (fun _ _ => rfl) _).attempt.bind fun changed => ?_
  rcases changed with _ | _ | _
  · exact (leaves_note _).bind fun _ => leaves_pure _
  · exact leaves_pure _
  · exact (leaves_count _).bind fun _ => leaves_get.bind fun _ => (leaves_note _).bind fun _ =>
      leaves_pure _

lemma leaves_schedule : (schedule memory).Leaves (·.interrupts.kind) := by
  refine leaves_masked (fun _ _ hkind => hkind) ((leaves_count _).bind fun _ => leaves_get.bind fun d => ?_)
  dsimp only
  split
  · exact leaves_pure _
  · refine (leaves_onSupervisor (fun _ _ => rfl) _).bind fun made => (leaves_count _).bind fun _ => ?_
    split
    · exact leaves_pure _
    · exact leaves_promote _

variable (memory start) in
/-- A dispatcher of processes that a run has led to, whatever happened to the memory. -/
def Sound (d : Dispatcher μ space) : Prop :=
  ∃ v calls, d.Shows v ∧ v.Lawful ∧ Traffic memory (fun _ _ => True) start calls v.memory v.spaces

/-- From `d` to `d'` a dispatcher has made `n` ticks, and controls interrupts in the same way. -/
structure Advances (n : Nat) (d d' : Dispatcher μ space) : Prop where
  kind : d'.interrupts.kind = d.interrupts.kind
  ticks : d'.counters.ticks = d.counters.ticks + n

lemma Advances.of_meter (h : d'.meter = d.meter) : Advances 0 d d' := by
  obtain ⟨hkind, hcounters⟩ := Prod.mk.inj h
  exact ⟨hkind, by rw [hcounters]; rfl⟩

lemma Advances.trans {d'' : Dispatcher μ space} {n k : Nat} (h : Advances n d d')
    (h' : Advances k d' d'') : Advances (n + k) d d'' :=
  ⟨h'.kind.trans h.kind, by rw [h'.ticks, h.ticks, Nat.add_assoc]⟩

/-- A tick finishes. -/
lemma Sound.schedule (h : d.Sound memory start) :
    ∃ outcome target d' es, (schedule memory).run d = ⟨.ok (outcome, target), d', es⟩ ∧
      outcome ≠ .skipped ∧ Advances 1 d d' := by
  obtain ⟨v, calls, hshows, hlawful, -⟩ := h
  have hdecided : Decided memory d v ((Dispatcher.schedule memory).run d) :=
    decided_schedule hshows hlawful (Supervisor.Shows.inRange hshows)
  obtain ⟨made, outcome, target, c, w, hresult, -, hdecision, hcounters⟩ := hdecided
  have hkind : ((Dispatcher.schedule memory).run d).state.interrupts.kind = d.interrupts.kind :=
    leaves_schedule d
  rcases hrun : (Dispatcher.schedule memory).run d with ⟨result, d', es⟩
  rw [hrun] at hresult hcounters hkind
  cases hresult
  refine ⟨outcome, target, d', es, rfl, ?_, hkind, by rw [hcounters]⟩
  cases hdecision <;> nofun

end Dispatcher

namespace Session

variable {s : Session μ space}

open Dispatcher

lemma leaves_onDispatcher {x : Action space (Dispatcher μ space) α} {f : Dispatcher μ space → γ}
    (hx : x.Leaves f) : (onDispatcher x).Leaves (fun s : Session μ space => f s.dispatcher) :=
  fun s => hx s.dispatcher

lemma leaves_onSupervisor (x : Action space (Supervisor μ space) α) :
    (onSupervisor x).Leaves (fun s : Session μ space => s.dispatcher.meter) :=
  leaves_onDispatcher (leaves_masked (fun _ _ hkind => by rw [meter, meter, hkind])
    (Dispatcher.leaves_onSupervisor (fun _ _ => rfl) x))

lemma leaves_onInterrupts {f : Interrupts → Interrupts} (hf : ∀ i, (f i).kind = i.kind) :
    (onInterrupts f).Leaves (fun s : Session μ space => s.dispatcher.meter) :=
  leaves_onDispatcher (leaves_modify fun d => by rw [meter, meter, hf])

lemma leaves_createMany (nested : Bool) (count : Nat) (parent : Option Pid) :
    (createMany nested count parent).Leaves (fun s : Session μ space => s.dispatcher.meter) := by
  induction count generalizing parent with
  | zero => exact leaves_pure _
  | succ count ih =>
    refine (leaves_onSupervisor _).attempt.bind fun answer => ?_
    cases answer with
    | error e => exact leaves_pure _
    | ok pid => exact (ih _).bind fun _ => leaves_pure _

/-- Where a command makes no tick, the counters stay. -/
lemma leaves_perform {command : Command} (hquiet : command.makesTicks = false) :
    (perform memory command).Leaves (fun s => s.dispatcher.meter) := by
  cases command with
  | tick | ticks | schedule => cases hquiet
  | createMany nested count parent =>
    exact (leaves_createMany nested count parent).bind fun _ => leaves_pure _
  | disableInterrupts =>
    exact (leaves_onInterrupts Interrupts.kind_disable).bind fun _ => leaves_pure _
  | enableInterrupts =>
    exact (leaves_onInterrupts Interrupts.kind_enable).bind fun _ => leaves_pure _
  | _ => exact (leaves_onSupervisor _).bind fun _ => leaves_pure _

lemma sound_perform (h : s.dispatcher.Sound memory start) (command : Command) :
    ((perform memory command).run s).state.dispatcher.Sound memory start := by
  obtain ⟨v, calls, hshows, hlawful, htraffic⟩ := h
  have hshows : s.Shows v := hshows
  obtain ⟨v', w, hstep, hafter, haccounts⟩ := hshows.perform hlawful htraffic command
  exact ⟨w, _, hafter, haccounts.lawful (hlawful.step hstep), haccounts.settled⟩

lemma sound_withMemory (h : s.dispatcher.Sound memory start) (m : μ) :
    (s.withMemory m).dispatcher.Sound memory start := by
  obtain ⟨v, calls, hshows, hlawful, htraffic⟩ := h
  have hshows : s.Shows v := hshows
  exact ⟨_, calls, hshows.withMemory m, hlawful.congr rfl rfl, htraffic.outside trivial⟩

/-- A tick, with its decision alone or with the switch, finishes and is counted once. -/
lemma run_tick (h : s.dispatcher.Sound memory start) :
    ∃ outcome target d' es,
      (Dispatcher.schedule memory).run s.dispatcher = ⟨.ok (outcome, target), d', es⟩ ∧
      (tick memory).run s = ⟨.ok outcome, ⟨d', target.elim s.targets s.targets.push⟩, es⟩ ∧
      outcome ≠ .skipped ∧ d'.Sound memory start ∧ Advances 1 s.dispatcher d' := by
  obtain ⟨outcome, target, d', es, hrun, houtcome, hadvances⟩ := h.schedule
  have htick : (tick memory).run s = ⟨.ok outcome, ⟨d', target.elim s.targets s.targets.push⟩, es⟩ := by
    rw [tick, run_within, Dispatcher.tick, run_bind, run_within, hrun]
    cases target with
    | none => simp
    | some point => simp [Except.map]
  have hsound := sound_perform h .tick
  rw [perform, run_bind, htick] at hsound
  exact ⟨outcome, target, d', es, hrun, htick, houtcome, hsound, hadvances⟩

lemma run_ticks (h : s.dispatcher.Sound memory start) (count : Nat) :
    ∃ outcomes t es, (ticks memory count).run s = ⟨.ok outcomes, t, es⟩ ∧
      Advances count s.dispatcher t.dispatcher := by
  induction count generalizing s with
  | zero => exact ⟨[], s, [], rfl, rfl, rfl⟩
  | succ count ih =>
    obtain ⟨outcome, target, d', es, -, hfirst, -, hsound, hadvances⟩ := run_tick h
    obtain ⟨outcomes, t, es', hrest, hmore⟩ := ih (s := ⟨d', target.elim s.targets s.targets.push⟩) hsound
    refine ⟨outcome :: outcomes, t, es ++ es', ?_, ?_⟩
    · rw [ticks, run_bind, hfirst]
      dsimp only
      rw [run_bind, hrest]
      simp
    · rw [Nat.add_comm]
      exact hadvances.trans hmore

/-- A command moves the count of ticks by the ticks that it makes, whether it is refused or not. -/
theorem advances_perform (h : s.dispatcher.Sound memory start) (command : Command) :
    Advances command.ticksMade s.dispatcher ((perform memory command).run s).state.dispatcher := by
  cases htick : command.makesTicks with
  | false =>
    have hmade : command.ticksMade = 0 := by
      cases command with
      | tick | ticks | schedule => cases htick
      | _ => rfl
    rw [hmade]
    exact .of_meter (leaves_perform htick s)
  | true =>
    cases command with
    | tick =>
      obtain ⟨outcome, target, d', es, -, hrun, -, -, hadvances⟩ := run_tick h
      rw [perform, run_bind, hrun]
      exact hadvances
    | ticks count =>
      obtain ⟨outcomes, t, es, hrun, hadvances⟩ := run_ticks h count
      rw [perform, run_bind, hrun]
      exact hadvances
    | schedule =>
      obtain ⟨outcome, target, d', es, hrun, -, hadvances⟩ := h.schedule
      rw [perform, run_bind, onDispatcher, run_within, hrun]
      exact hadvances
    | _ => cases htick

end Session

end Uniprocessor
