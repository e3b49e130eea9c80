import Uniprocessor.Session
import Uniprocessor.Proofs.Simulation.Materialize

/-!
# Sessions, seen from the view

Interrupts, counters and recorded switches are no part of the view. With them left aside, every
command of a session does to its supervisor what it does to the view.
-/

namespace Uniprocessor

variable {μ space : Type}

namespace Supervisor

variable {s : Supervisor μ space} {v : View μ space}

/-- Turns are the same on both sides. -/
lemma Shows.nextInTurn_eq (h : s.Shows v) : s.roster.nextInTurn s.roster.running = v.nextInTurn v.running := by
  have hcycle : (s.roster.cycleFrom s.roster.running).map
      (fun p => (p.pid, p.view (v.childrenOf p.pid) (v.signalsOf p.pid))) = v.cycleFrom v.running := by
    rw [h.running]
    cases s.roster.running with
    | none =>
      rw [h.roster.cycleFrom_none (by simp)]
      exact h.toList_eq
    | some pid =>
      rw [View.cycleFrom]
      rw [← h.contains_eq, h.roster.contains_eq]
      split
      · rename_i hlive
        rw [h.roster.cycleFrom_some hlive, ← h.toList_eq, List.filter_map, List.filter_map,
          List.map_append]
        rfl
      · rename_i hlive
        rw [h.roster.cycleFrom_none]
        · exact h.toList_eq
        · intro q hq
          rw [← Option.some_injective _ hq]
          exact Option.not_isSome_iff_eq_none.mp hlive
  rw [Roster.nextInTurn, View.nextInTurn, ← hcycle, List.find?_map, Option.map_map]
  rfl

end Supervisor

namespace Dispatcher

/-- The view of a dispatcher is that of its supervisor. -/
def Shows (d : Dispatcher μ space) (v : View μ space) : Prop := d.supervisor.Shows v

variable {α β : Type} {R : α → β → Prop} (memory : MemoryService μ space)

lemma refines_onSupervisor {x : Action space (Supervisor μ space) α} {y : Action space (View μ space) β}
    (h : Refines Supervisor.Shows R x y) : Refines Shows R (onSupervisor x) y :=
  h.within (fun _ _ hs => hs) fun _ _ _ _ _ hs => hs

/-- Interrupts are not seen. -/
lemma refines_masked {x : Action space (Dispatcher μ space) α} {y : Action space (View μ space) β}
    (h : Refines Shows R x y) : Refines Shows R (masked x) y := by
  intro d v hd
  have hrun := h { d with interrupts := d.interrupts.enter.2 } v hd
  simp only [Action.run, masked] at hrun ⊢
  generalize x { d with interrupts := d.interrupts.enter.2 } = u at hrun
  cases hrun' : y v with
  | mk result w events =>
    rw [hrun'] at hrun
    cases hrun with
    | ok hr hs hcalls => exact .ok hr hs hcalls
    | fault f hs hcalls => exact .fault f hs hcalls

/-- Nor are the counters. -/
lemma refines_count_bind (f : TickCounters → TickCounters) {x : Unit → Action space (Dispatcher μ space) α}
    {y : Action space (View μ space) β} (h : Refines Shows R (x ()) y) :
    Refines Shows R (count f >>= x) y := by
  intro d v hd
  rw [count, Action.run_bind_quiet (Action.run_modify _ _)]
  exact h _ v hd

lemma refines_promote (pid : Pid) :
    Refines Shows Eq (promote pid : Action space (Dispatcher μ space) _) (View.promote pid) := by
  apply (refines_onSupervisor (Supervisor.refines_changeState pid .running)).attempt.bind
  rintro _ _ (⟨changed, _, rfl, rfl, rfl⟩ | ⟨e, rfl, rfl⟩)
  · cases changed with
    | true =>
      refine refines_count_bind _ (Refines.get_bind fun d v hd => ?_)
      rw [hd.active]
      exact Refines.note (Refines.pure rfl)
    | false => exact Refines.pure rfl
  · exact Refines.note (Refines.pure rfl)

theorem refines_schedule : Refines Shows Eq (schedule memory) (View.schedule memory) := by
  refine refines_masked (refines_count_bind _ (Refines.get_bind fun d v hd => ?_))
  have hempty : d.supervisor.roster.isEmpty = v.table.isEmpty := by
    have hsize := hd.size_eq
    rw [Roster.isEmpty, Std.ExtTreeMap.isEmpty_eq_size_beq_zero, Std.ExtTreeMap.isEmpty_eq_size_beq_zero,
      hsize]
    rfl
  dsimp only
  rw [hempty, hd.nextInTurn_eq]
  split
  · exact Refines.pure rfl
  · apply (refines_onSupervisor (Supervisor.refines_materializeCreated memory)).bind
    rintro made _ rfl
    apply refines_count_bind _
    cases v.nextInTurn v.running with
    | none => exact Refines.pure rfl
    | some pid => exact refines_promote pid

end Dispatcher

namespace Session

/-- The view of a session is that of its supervisor. -/
def Shows (s : Session μ space) (v : View μ space) : Prop := s.supervisor.Shows v

variable {α β : Type} {R : α → β → Prop} (memory : MemoryService μ space)

lemma refines_onDispatcher {x : Action space (Dispatcher μ space) α} {y : Action space (View μ space) β}
    (h : Refines Dispatcher.Shows R x y) : Refines Shows R (onDispatcher x) y :=
  h.within (fun _ _ hs => hs) fun _ _ _ _ _ hs => hs

lemma refines_onSupervisor {x : Action space (Supervisor μ space) α} {y : Action space (View μ space) β}
    (h : Refines Supervisor.Shows R x y) : Refines Shows R (onSupervisor x) y :=
  refines_onDispatcher (Dispatcher.refines_masked (Dispatcher.refines_onSupervisor h))

lemma refines_tick : Refines Shows Eq (tick memory) (View.tick memory) := by
  have hpair : Refines (fun (t : Dispatcher μ space × Array ResumePoint) v => t.1.Shows v) Eq
      (Dispatcher.tick memory Array.push) (View.tick memory) := by
    have hschedule : Refines (fun (t : Dispatcher μ space × Array ResumePoint) v => t.1.Shows v) Eq
        ((Dispatcher.schedule memory).within Prod.fst fun s dispatcher => (dispatcher, s.2))
        (View.schedule memory) :=
      (Dispatcher.refines_schedule memory).within (fun _ _ hs => hs) fun _ _ _ _ _ hs => hs
    apply hschedule.bind
    rintro ⟨outcome, target⟩ _ rfl
    cases target with
    | none => exact Refines.pure rfl
    | some point =>
      intro t v ht
      exact .ok rfl ht rfl
  exact hpair.within (fun _ _ hs => hs) fun _ _ _ _ _ hs => hs

lemma refines_ticks (count : Nat) : Refines Shows Eq (ticks memory count) (View.ticks memory count) := by
  induction count with
  | zero => exact Refines.pure rfl
  | succ count ih =>
    apply (refines_tick memory).bind
    rintro outcome _ rfl
    apply ih.bind
    rintro outcomes _ rfl
    exact Refines.pure rfl

lemma refines_createMany (nested : Bool) (count : Nat) (parent : Option Pid) :
    Refines Shows Eq (createMany nested count parent : Action space (Session μ space) _)
      (View.createMany nested count parent) := by
  induction count generalizing parent with
  | zero => exact Refines.pure rfl
  | succ count ih =>
    apply (refines_onSupervisor (Supervisor.refines_create parent 0)).attempt.bind
    rintro _ _ (⟨pid, _, rfl, rfl, rfl⟩ | ⟨e, rfl, rfl⟩)
    · apply (ih _).bind
      rintro ⟨made, refusal⟩ _ rfl
      exact Refines.pure rfl
    · exact Refines.pure rfl

/-- A session carries out a command as its view does. -/
theorem refines_perform (c : Command) :
    Refines Shows Eq (perform memory c) (View.perform memory c) := by
  cases c with
  | tick => exact (refines_tick memory).bind fun _ _ h => Refines.pure (by rw [h])
  | ticks count => exact (refines_ticks memory count).bind fun _ _ h => Refines.pure (by rw [h])
  | schedule =>
    apply (refines_onDispatcher (Dispatcher.refines_schedule memory)).bind
    rintro ⟨outcome, target⟩ _ rfl
    exact Refines.pure rfl
  | create parent entry =>
    exact (refines_onSupervisor (Supervisor.refines_create parent entry)).bind fun _ _ h =>
      Refines.pure (by rw [h])
  | createMany nested count parent =>
    apply (refines_createMany nested count parent).bind
    rintro ⟨made, refusal⟩ _ rfl
    exact Refines.pure rfl
  | clone source =>
    exact (refines_onSupervisor (Supervisor.refines_clone memory source)).bind fun _ _ h =>
      Refines.pure (by rw [h])
  | destroy pid cascade =>
    exact (refines_onSupervisor (Supervisor.refines_destroy memory pid cascade)).bind fun _ _ _ =>
      Refines.pure rfl
  | addChild parent child =>
    exact (refines_onSupervisor (Supervisor.refines_addChild parent child)).bind fun _ _ _ =>
      Refines.pure rfl
  | changeState pid state =>
    exact (refines_onSupervisor (Supervisor.refines_changeState pid state)).bind fun _ _ h =>
      Refines.pure (by rw [h])
  | exit pid status =>
    exact (refines_onSupervisor (Supervisor.refines_exit pid status)).bind fun _ _ _ =>
      Refines.pure rfl
  | setInSystemCall pid on =>
    exact (refines_onSupervisor (Supervisor.refines_setInSystemCall pid on)).bind fun _ _ _ =>
      Refines.pure rfl
  | signal pid signo =>
    exact (refines_onSupervisor (Supervisor.refines_postSignal pid signo)).bind fun _ _ _ =>
      Refines.pure rfl
  | materialize pid =>
    exact (refines_onSupervisor (Supervisor.refines_materialize memory pid)).bind fun _ _ _ =>
      Refines.pure rfl
  | materializeCreated =>
    exact (refines_onSupervisor (Supervisor.refines_materializeCreated memory)).bind fun _ _ h =>
      Refines.pure (by rw [h])
  | writeActive writes =>
    exact (refines_onSupervisor (Supervisor.refines_writeActive writes)).bind fun _ _ _ =>
      Refines.pure rfl
  | disableInterrupts => exact fun _ _ hs => .ok rfl hs rfl
  | enableInterrupts => exact fun _ _ hs => .ok rfl hs rfl

end Session

end Uniprocessor
