import Uniprocessor.Proofs.Commands
import Uniprocessor.Proofs.HostMemories
import Uniprocessor.Proofs.Observations
import Uniprocessor.Proofs.Simulation.Session

/-!
# Runs of a session

A run is any sequence of commands from a session that has just begun. In between, the memory service
may change from outside, and the heap may come to have any room for records. Whatever the commands lead
to, the session shows a lawful view afterwards, and the spaces that the memory service gave out are those
that the processes hold.
-/

namespace Uniprocessor

variable {μ space : Type}

/-- The spaces that the processes of a supervisor hold, each as often as it is held. -/
def Supervisor.spaces (s : Supervisor μ space) : Multiset space :=
  (s.processes.filterMap (·.space) : List space)

lemma Supervisor.Shows.spaces_eq {s : Supervisor μ space} {v : View μ space} (h : s.Shows v) :
    s.spaces = v.spaces := by
  rw [Supervisor.spaces, View.spaces, View.holders, ← h.toList_eq, List.filterMap_map,
    List.map_filterMap]
  congr 2
  funext p
  cases hspace : p.space <;> simp [ProcessRecord.view, hspace]

namespace Session

/-- The session with its memory service in another state. -/
def withMemory (s : Session μ space) (m : μ) : Session μ space :=
  { s with dispatcher := { s.dispatcher with
      supervisor := { s.dispatcher.supervisor with memory := m } } }

/-- The session when the heap has come to have other room for records. -/
def withStorage (s : Session μ space) (storage : Storage) : Session μ space :=
  { s with dispatcher := { s.dispatcher with
      supervisor := s.dispatcher.supervisor.withStorage storage } }

variable (memory : MemoryService μ space) (outside : μ → μ → Prop)

/-- Runs of a session with given limits over a memory service in state `start`, with all that they
left in the journal. A command that is refused is part of the run, and so is one that halts. -/
inductive Run (limits : Limits) (start : μ) : List (Event space) → Session μ space → Prop
  | start : Run limits start [] (.ofLimits limits start)
  | perform {events s} (command : Command) : Run limits start events s →
      Run limits start (events ++ ((perform memory command).run s).events)
        ((perform memory command).run s).state
  | outside {events s m} : Run limits start events s → outside s.supervisor.memory m →
      Run limits start events (s.withMemory m)
  | heap {events s} (storage : Storage) : Run limits start events s →
      Run limits start events (s.withStorage storage)

variable {memory outside} {limits : Limits} {start : μ} {events : List (Event space)}
  {s : Session μ space} {v : View μ space} {calls : List (MemoryCall space)}

lemma Shows.withMemory (h : s.Shows v) (m : μ) : (s.withMemory m).Shows { v with memory := m } :=
  Supervisor.Shows.withMemory h m

lemma Shows.withStorage (h : s.Shows v) (storage : Storage) :
    (s.withStorage storage).Shows { v with room := (s.withStorage storage).supervisor.room } :=
  Supervisor.Shows.withStorage h storage

/-- A command makes a step of the view that a session shows. -/
theorem Shows.perform (h : s.Shows v) (hlawful : v.Lawful)
    (htraffic : Traffic memory outside start calls v.memory v.spaces) (command : Command) :
    ∃ v' w, v.Step command ((perform memory command).run s).result v' ∧
      ((perform memory command).run s).state.Shows w ∧
      View.Accounts memory outside start 0 v'
        (calls ++ Event.calls ((perform memory command).run s).events) w := by
  have hagree := refines_perform memory command s v h
  rw [hagree.result_eq, hagree.calls_eq]
  have hensures := View.ensures_perform hlawful (Supervisor.Shows.inRange h) htraffic command
  cases hresult : ((View.perform memory command).run v).result with
  | ok reply =>
    obtain ⟨v', hstep, haccounts⟩ := hensures.ok hresult
    exact ⟨v', _, hstep, hagree.state, haccounts⟩
  | error fault =>
    obtain ⟨v', hstep, haccounts⟩ := hensures.stop hresult
    exact ⟨v', _, hstep, hagree.state, haccounts⟩

/-- What every session shows, wherever a run has led it. -/
theorem Run.shows (h : Run memory outside limits start events s) :
    ∃ v, s.Shows v ∧ v.Lawful ∧
      Traffic memory outside start (Event.calls events) v.memory v.spaces := by
  induction h with
  | start =>
    exact ⟨.ofLimits limits start, Supervisor.shows_ofLimits limits start, .ofLimits limits start,
      .start⟩
  | perform command _ ih =>
    obtain ⟨v, hshows, hlawful, htraffic⟩ := ih
    obtain ⟨v', w, hstep, hafter, haccounts⟩ := hshows.perform hlawful htraffic command
    refine ⟨w, hafter, haccounts.lawful (hlawful.step hstep), ?_⟩
    rw [Event.calls_append]
    exact haccounts.settled
  | @outside _ s m _ houtside ih =>
    obtain ⟨v, hshows, hlawful, htraffic⟩ := ih
    refine ⟨_, hshows.withMemory m, hlawful.congr rfl rfl, htraffic.outside ?_⟩
    rw [Supervisor.Shows.memory hshows]
    exact houtside
  | heap storage _ ih =>
    obtain ⟨v, hshows, hlawful, htraffic⟩ := ih
    exact ⟨_, hshows.withStorage storage, hlawful.congr rfl rfl, htraffic⟩

/-- The records do not depend on the room that there is for others. -/
lemma Run.viewOf_withStorage (h : Run memory outside limits start events s) (storage : Storage)
    (pid : Pid) : (s.withStorage storage).supervisor.viewOf pid = s.supervisor.viewOf pid := by
  obtain ⟨v, hshows, -⟩ := h.shows
  have hafter := hshows.withStorage storage
  rw [Supervisor.Shows.viewOf_eq hafter, Supervisor.Shows.viewOf_eq hshows]

/-- The limits are those that the session began with. -/
lemma Run.limits_eq (h : Run memory outside limits start events s) : s.supervisor.limits = limits := by
  induction h with
  | start => rfl
  | perform command hrun ih =>
    obtain ⟨v, hshows, hlawful, htraffic⟩ := hrun.shows
    obtain ⟨v', w, hstep, hafter, haccounts⟩ := hshows.perform hlawful htraffic command
    rw [← ih, ← Supervisor.Shows.limits hshows, ← hstep.limits, ← haccounts.limits_eq]
    exact (Supervisor.Shows.limits hafter).symm
  | outside _ _ ih => exact ih
  | heap _ _ ih => exact ih

lemma Shows.spaces_eq (h : s.Shows v) : s.supervisor.spaces = v.spaces :=
  Supervisor.Shows.spaces_eq h

/-- Conservation of spaces: in every run the dealings with the memory service are proper, and the
spaces it has given out and not got back are, one by one, those that the live processes hold. -/
theorem Run.traffic (h : Run memory outside limits start events s) :
    Traffic memory outside start (Event.calls events) s.supervisor.memory s.supervisor.spaces := by
  obtain ⟨v, hshows, -, htraffic⟩ := h.shows
  rw [hshows.spaces_eq, ← Supervisor.Shows.memory hshows]
  exact htraffic

/-- A run in which a process gets memory, is cloned once, and then the host refuses to clone. -/
theorem traffic_of_cloning : ∃ events s,
    Run HostMemory.service HostMemory.Adjusted ⟨8, 4, 4, 4, .lenient⟩ .empty events s ∧
    s.supervisor.spaces.card = 2 ∧
    Traffic HostMemory.service HostMemory.Adjusted .empty (Event.calls events) s.supervisor.memory
      s.supervisor.spaces := by
  have hbegun : Run HostMemory.service HostMemory.Adjusted ⟨8, 4, 4, 4, .lenient⟩ .empty [] _ := .start
  have hcloned := ((hbegun.perform (.create none 0)).perform (.materialize 1)).perform (.clone 1)
  have hrefused := (hcloned.outside .failNextClone).perform (.clone 2)
  exact ⟨_, _, hrefused, by decide +kernel, hrefused.traffic⟩

end Session

end Uniprocessor
