import Uniprocessor.Proofs.Lawful
import Uniprocessor.Proofs.Simulation

/-!
# Observations of a supervisor

Everything that the queries of a supervisor can tell, whatever the slots, chains and hints behind
it. The view that a supervisor shows determines it.
-/

namespace Uniprocessor

/-- What can be found out about a supervisor, its memory service aside. -/
structure Observation (space : Type) where
  /-- The live processes in ascending order of identifiers, with their children and signals in
  order. -/
  processes : List (Pid × ProcessView space)
  running : Option Pid
  active : Registers
  /-- The identifiers in use. -/
  pids : List Pid
  usage : Usage

variable {μ space : Type}

namespace View

variable {v w : View μ space}

def observe (v : View μ space) : Observation space where
  processes := v.table.toList
  running := v.running
  active := v.active
  pids := v.table.keys
  usage :=
    { live := v.table.size
      running := v.running
      pidsInUse := v.table.size
      pidsAvailable := (v.limits.pids - 1) - v.table.size
      childLinks := v.linkCount
      pendingSignals := v.signalCount }

end View

namespace Supervisor

variable {s : Supervisor μ space} {v : View μ space}

def observe (s : Supervisor μ space) : Observation space where
  processes := s.processes.map fun p =>
    (p.pid, p.view (p.children.toList s.links) (p.signals.toList s.signals))
  running := s.roster.running
  active := s.roster.active
  pids := s.pids.toList
  usage := s.usage

lemma Shows.processes_eq (h : s.Shows v) :
    s.processes.map (fun p => (p.pid, p.view (p.children.toList s.links) (p.signals.toList s.signals))) =
      v.table.toList := by
  rw [← h.toList_eq]
  refine List.map_congr_left fun p hp => ?_
  have hget := h.roster.mem_toList.mp hp
  rw [← h.children.toList_eq, Roster.childListOf_eq hget, ← h.signals.toList_eq,
    Roster.signalQueueOf_eq hget]

lemma Shows.usedPids_eq (h : s.Shows v) : s.pids.toList = v.table.keys := by
  refine (View.keys_eq s.pids.toList_sorted fun pid => ?_).symm
  rw [PidSpace.mem_toList, ← h.used pid, View.get?_iff_mem, Option.isSome_iff_exists]

/-- What can be found out about one process. -/
def viewOf (s : Supervisor μ space) (pid : Pid) : Option (ProcessView space) :=
  (s.roster.get? pid).map fun p => p.view (p.children.toList s.links) (p.signals.toList s.signals)

def spaceOf (s : Supervisor μ space) (pid : Pid) : Option space := (s.viewOf pid).bind (·.space)

def childrenOf (s : Supervisor μ space) (pid : Pid) : List Pid :=
  ((s.viewOf pid).map (·.children)).getD []

def signalsOf (s : Supervisor μ space) (pid : Pid) : List UInt8 :=
  ((s.viewOf pid).map (·.signals)).getD []

/-- One step up, from a process to its parent. -/
def Up (s : Supervisor μ space) (child parent : Pid) : Prop :=
  s.roster.parentOf child = some parent

lemma Shows.viewOf_eq (h : s.Shows v) (pid : Nat) : s.viewOf pid = v.table[pid]? := by
  rw [h.records, Roster.record?, viewOf]
  cases hget : s.roster.get? pid with
  | none => rfl
  | some p =>
    rw [← h.children.toList_eq, ← h.signals.toList_eq, Roster.childListOf_eq hget,
      Roster.signalQueueOf_eq hget]
    rfl

lemma Shows.spaceOf_eq (h : s.Shows v) : s.spaceOf = v.spaceOf := by
  funext pid
  rw [spaceOf, h.viewOf_eq, View.spaceOf]

lemma Shows.childrenOf_eq (h : s.Shows v) : s.childrenOf = v.childrenOf := by
  funext pid
  rw [childrenOf, h.viewOf_eq, View.childrenOf]

lemma Shows.signalsOf_eq (h : s.Shows v) : s.signalsOf = v.signalsOf := by
  funext pid
  rw [signalsOf, h.viewOf_eq, View.signalsOf]

lemma Shows.up_eq (h : s.Shows v) : s.Up = v.Up := by
  funext child parent
  rw [Up, View.Up, h.parentOf_eq]

lemma Shows.inRange (h : s.Shows v) : v.InRange := by
  intro pid p hp
  have hlive : v.table.contains pid = true := by
    rw [View.get?_iff_mem, hp]
    rfl
  obtain ⟨hne, hused⟩ := (h.used pid).mp hlive
  rw [h.limits, ← h.pidCapacity]
  exact ⟨hne, (PidSpace.isUsed_iff.mp hused).1⟩

/-- A live process passes the check. -/
lemma Shows.check_of_table (h : s.Shows v) {pid : Nat} {p : ProcessView space}
    (hp : v.table[pid]? = some p) : s.check pid = .ok () := by
  rw [h.check_eq]
  exact h.inRange.check hp

/-- A supervisor tells what its view tells. -/
theorem Shows.observe_eq (h : s.Shows v) : s.observe = v.observe := by
  have hsize : s.pids.used = v.table.size := by
    rw [h.pids.used, h.usedPids_eq, Std.ExtTreeMap.length_keys]
  rw [observe, View.observe, h.processes_eq, h.usedPids_eq, usage, ← h.size_eq, hsize,
    PidSpace.available, hsize, h.pidCapacity, ← h.linkCount_eq, ← h.signalCount_eq, h.running,
    h.active, h.limits]

end Supervisor

end Uniprocessor
