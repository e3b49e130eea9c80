import Uniprocessor.Proofs.Consistent

/-!
# Sessions that look alike

Two supervisors look alike when nothing that can be observed tells them apart: they have the same
limits and the same memory, the same processes in order, the same process running and the same
registers on the processor. What came before may have left them different slots, generations, free
storage and hints. None of that matters for what they do from there on, as long as the heap has room for
the records that they may have.
-/

namespace Uniprocessor

open Uniprocessor.Action

variable {μ space : Type}

deriving instance DecidableEq for ProcessView, HostSpaceData, HostMemory

namespace Supervisor

variable {s t : Supervisor μ space} {v w : View μ space} {memory : MemoryService μ space}

structure Alike (s t : Supervisor μ space) : Prop where
  limits : s.limits = t.limits
  memory : s.memory = t.memory
  processes : s.observe.processes = t.observe.processes
  running : s.roster.running = t.roster.running
  active : s.roster.active = t.roster.active

/-- The heap has room for all records that the capacities allow. -/
structure Ample (s : Supervisor μ space) : Prop where
  processes : s.roster.pool.capacity ≤ s.roster.pool.storage
  index : s.roster.pool.capacity ≤ s.roster.indexStorage
  links : s.links.capacity ≤ s.links.storage
  signals : s.signals.capacity ≤ s.signals.storage

lemma Shows.room_eq_of_ample (h : s.Shows v) (hample : s.Ample) : v.room = .ofLimits v.limits := by
  rw [h.room, Supervisor.room, min_eq_right hample.processes, min_eq_right hample.index, min_eq_right hample.links,
    min_eq_right hample.signals, h.capacity, h.linkCapacity, h.signalCapacity, h.limits]
  rfl

/-- The queries of two supervisors answer the same. -/
structure AnswersLike (memory : MemoryService μ space) (s t : Supervisor μ space) : Prop where
  observe : s.observe = t.observe
  viewOf : s.viewOf = t.viewOf
  check : s.check = t.check
  children : s.children = t.children
  pendingSignals : s.pendingSignals = t.pendingSignals
  violations : s.violations memory = t.violations memory

/-- Supervisors with the same room look alike exactly when they show one view. -/
theorem Shows.alike_iff (hs : s.Shows v) (ht : t.Shows w) (hroom : v.limits = w.limits → v.room = w.room) :
    s.Alike t ↔ v = w := by
  have hprocesses : s.observe.processes = v.table.toList := hs.processes_eq
  have hprocesses' : t.observe.processes = w.table.toList := ht.processes_eq
  constructor
  · intro h
    have htable : v.table = w.table := by
      rw [← Std.ExtTreeMap.toList_inj, ← hprocesses, ← hprocesses', h.processes]
    have hlimits : v.limits = w.limits := by rw [hs.limits, ht.limits, h.limits]
    refine View.ext_get? hlimits ?_ (fun pid => by rw [htable]) ?_ ?_ (hroom hlimits)
    · rw [hs.memory, ht.memory, h.memory]
    · rw [hs.running, ht.running, h.running]
    · rw [hs.active, ht.active, h.active]
  · rintro rfl
    refine ⟨?_, ?_, hprocesses.trans hprocesses'.symm, ?_, ?_⟩
    · rw [← hs.limits, ht.limits]
    · rw [← hs.memory, ht.memory]
    · rw [← hs.running, ht.running]
    · rw [← hs.active, ht.active]

/-! ### Queries -/

lemma Shows.children_eq (h : s.Shows v) (pid : Pid) :
    s.children pid = (v.lookup pid).map (·.children) := by
  rw [Supervisor.children]
  rcases h.lookup pid with ⟨record, p, hs, hv, hget, hp, -⟩ | ⟨e, hs, hv⟩
  · rw [hs, hv, Except.map, ← View.childrenOf_eq hp, ← h.children.toList_eq,
      Roster.childListOf_eq hget]
    rfl
  · rw [hs, hv]
    rfl

lemma Shows.pendingSignals_eq (h : s.Shows v) (pid : Pid) :
    s.pendingSignals pid = (v.lookup pid).map (·.signals) := by
  rw [Supervisor.pendingSignals]
  rcases h.lookup pid with ⟨record, p, hs, hv, hget, hp, -⟩ | ⟨e, hs, hv⟩
  · rw [hs, hv, Except.map, ← View.signalsOf_eq hp, ← h.signals.toList_eq,
      Roster.signalQueueOf_eq hget]
    rfl
  · rw [hs, hv]
    rfl

/-- What the check of spaces finds depends on identifiers, spaces and states. -/
lemma spaceViolationsAfter_congr {state : μ} {ps qs : List (ProcessRecord space)} (seen : List UInt64)
    (h : ps.map (fun p => (p.pid, p.space, p.state)) = qs.map fun p => (p.pid, p.space, p.state)) :
    spaceViolationsAfter memory state seen ps = spaceViolationsAfter memory state seen qs := by
  induction ps generalizing qs seen with
  | nil =>
    rw [List.map_nil, eq_comm, List.map_eq_nil_iff] at h
    rw [h]
  | cons p ps ih =>
    obtain ⟨q, qs, rfl, hfirst, hrest⟩ := List.map_eq_cons_iff.mp h.symm
    obtain ⟨hpid, hspace, hstate⟩ : q.pid = p.pid ∧ q.space = p.space ∧ q.state = p.state := by
      simpa using hfirst
    simp only [spaceViolationsAfter, hpid, hspace, hstate, fun seen => ih seen hrest.symm]

lemma Shows.spaceViolations_eq (hs : s.Shows v) (ht : t.Shows v) :
    s.spaceViolations memory = t.spaceViolations memory := by
  have hrecords : ∀ {s : Supervisor μ space}, s.Shows v →
      s.processes.map (fun p => (p.pid, p.space, p.state)) =
        v.table.toList.map fun entry => (entry.1, entry.2.space, entry.2.state) := by
    intro s h
    rw [← h.toList_eq, List.map_map]
    rfl
  rw [spaceViolations, spaceViolations, ← hs.memory, ← ht.memory]
  exact spaceViolationsAfter_congr [] ((hrecords hs).trans (hrecords ht).symm)

lemma Shows.violations_eq_spaceViolations (h : s.Shows v) (hlawful : v.Lawful) :
    s.violations memory = s.spaceViolations memory := by
  rw [violations, pidViolations_eq_nil_iff.mpr h.mem_used,
    runningViolations_eq_nil_iff.mpr (h.runners_eq hlawful),
    h.listed.hierarchyViolations_eq_nil_iff.mpr (h.hierarchy hlawful.forest),
    chainViolations_eq_nil_iff.mpr ⟨h.roster.sorted, h.sizes_eq⟩,
    poolViolations_eq_nil_iff.mpr ⟨h.sum_children_length, h.sum_signals_length⟩,
    List.append_nil, List.append_nil, List.nil_append, List.nil_append, List.nil_append]

/-- Whatever is asked of a view, all supervisors that show it answer the same. -/
theorem Shows.answersLike (hs : s.Shows v) (ht : t.Shows v) (hlawful : v.Lawful) :
    s.AnswersLike memory t where
  observe := hs.observe_eq.trans ht.observe_eq.symm
  viewOf := funext fun pid => (hs.viewOf_eq pid).trans (ht.viewOf_eq pid).symm
  check := funext fun pid => (hs.check_eq pid).trans (ht.check_eq pid).symm
  children := funext fun pid => (hs.children_eq pid).trans (ht.children_eq pid).symm
  pendingSignals := funext fun pid => (hs.pendingSignals_eq pid).trans (ht.pendingSignals_eq pid).symm
  violations := by
    rw [hs.violations_eq_spaceViolations hlawful, ht.violations_eq_spaceViolations hlawful,
      hs.spaceViolations_eq ht]

end Supervisor

namespace Session

variable {memory : MemoryService μ space} {outside outside' : μ → μ → Prop} {limits limits' : Limits}
  {start start' : μ} {events events' : List (Event space)} {s t : Session μ space} {v : View μ space}

variable (memory) in
/-- Carries out commands, also after one that is refused: the result of each, with its calls of the
memory service, and the session after the last. -/
def performAll : List Command → Session μ space →
    List (Except Fault Reply × List (MemoryCall space)) × Session μ space
  | [], s => ([], s)
  | command :: rest, s =>
    let outcome := (perform memory command).run s
    let (answers, last) := performAll rest outcome.state
    ((outcome.result, Event.calls outcome.events) :: answers, last)

lemma Run.performAll (h : Run memory outside limits start events s) (commands : List Command) :
    ∃ events, Run memory outside limits start events (Session.performAll memory commands s).2 := by
  induction commands generalizing s events with
  | nil => exact ⟨events, h⟩
  | cons command rest ih => exact ih (h.perform command)

/-- Sessions that show one view do the same with every command, and show one view again. -/
lemma Shows.performAll_eq (hs : s.Shows v) (ht : t.Shows v) (commands : List Command) :
    (performAll memory commands s).1 = (performAll memory commands t).1 ∧
      ∃ w, (performAll memory commands s).2.Shows w ∧ (performAll memory commands t).2.Shows w := by
  induction commands generalizing s t v with
  | nil => exact ⟨rfl, v, hs, ht⟩
  | cons command rest ih =>
    have hagree := refines_perform memory command s v hs
    have hagree' := refines_perform memory command t v ht
    obtain ⟨hanswers, w, hs', ht'⟩ := ih hagree.state hagree'.state
    refine ⟨?_, w, hs', ht'⟩
    rw [performAll, performAll]
    dsimp only
    rw [hagree.result_eq, hagree'.result_eq, hagree.calls_eq, hagree'.calls_eq, hanswers]

/-- History independence: two sessions that runs led to states that look alike, whatever slots,
generations, free storage and hints they are left with, give the same results to every sequence of
commands, call the memory service alike, look alike after it and answer every query alike. The heap is
taken to have room for whatever records the commands call for. -/
theorem Run.performAll_alike (hs : Run memory outside limits start events s)
    (ht : Run memory outside' limits' start' events' t) (h : s.supervisor.Alike t.supervisor)
    (hample : s.supervisor.Ample) (hample' : t.supervisor.Ample) (commands : List Command) :
    (Session.performAll memory commands s).1 = (Session.performAll memory commands t).1 ∧
      (Session.performAll memory commands s).2.supervisor.Alike
        (Session.performAll memory commands t).2.supervisor ∧
      (Session.performAll memory commands s).2.supervisor.AnswersLike memory
        (Session.performAll memory commands t).2.supervisor := by
  obtain ⟨v, hv, -, -⟩ := hs.shows
  obtain ⟨w, hw, -, -⟩ := ht.shows
  have hroom : v.limits = w.limits → v.room = w.room := by
    intro hlimits
    rw [Supervisor.Shows.room_eq_of_ample hv hample, Supervisor.Shows.room_eq_of_ample hw hample', hlimits]
  obtain rfl := (Supervisor.Shows.alike_iff hv hw hroom).mp h
  obtain ⟨hanswers, w, hs', ht'⟩ := hv.performAll_eq hw commands
  refine ⟨hanswers, (Supervisor.Shows.alike_iff hs' ht' fun _ => rfl).mpr rfl, ?_⟩
  obtain ⟨events, hrun⟩ := hs.performAll commands
  obtain ⟨w', hshows, hlawful, -⟩ := hrun.shows
  have hsame : w'.limits = w.limits → w'.room = w.room :=
    fun _ => (Supervisor.Shows.room hshows).trans (Supervisor.Shows.room hs').symm
  obtain rfl := (Supervisor.Shows.alike_iff hshows hs' hsame).mp ⟨rfl, rfl, rfl, rfl, rfl⟩
  exact Supervisor.Shows.answersLike hs' ht' hlawful

/-- The record of a process that was destroyed is issued once more, in its next generation. Nothing
tells it from a new one. -/
theorem performAll_alike_of_reissue : ∃ events events' s t,
    Run HostMemory.service HostMemory.Adjusted ⟨8, 4, 4, 4, .lenient⟩ .empty events s ∧
    Run HostMemory.service HostMemory.Adjusted ⟨8, 4, 4, 4, .lenient⟩ .empty events' t ∧
    s.supervisor.roster.head = some ⟨0, 1⟩ ∧ t.supervisor.roster.head = some ⟨0, 0⟩ ∧
    s.supervisor.Alike t.supervisor ∧
    (Session.performAll HostMemory.service [.tick, .tick, .create (some 2) 0] s).1 =
      (Session.performAll HostMemory.service [.tick, .tick, .create (some 2) 0] t).1 ∧
    (Session.performAll HostMemory.service [.tick, .tick, .create (some 2) 0] t).1.map (·.1) =
      [.ok (.outcome .continued), .ok (.outcome (.switched 1)), .ok (.pid 3)] := by
  have hbegun : Run HostMemory.service HostMemory.Adjusted ⟨8, 4, 4, 4, .lenient⟩ .empty [] _ := .start
  have hpair := (hbegun.perform (.create none 0)).perform (.create none 0)
  have hreissued := (hpair.perform (.destroy 1 false)).perform (.create none 0)
  suffices halike : Supervisor.Alike _ _ from
    ⟨_, _, _, _, hreissued, hpair, by decide +kernel, by decide +kernel, halike,
      (hreissued.performAll_alike hpair halike (by constructor <;> decide +kernel)
        (by constructor <;> decide +kernel) _).1, by decide +kernel⟩
  constructor <;> decide +kernel

end Session

end Uniprocessor
