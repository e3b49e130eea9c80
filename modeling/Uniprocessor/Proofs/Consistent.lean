import Uniprocessor.Proofs.HierarchyChecks

/-!
# Consistency of every session

The checks of the six invariants find nothing in a state exactly if the invariants hold there, and so
they do in any state that a run comes to. There the invariants are those of what the supervisor shows: a
lawful view, drawn from parts that agree.
-/

namespace Uniprocessor

variable {μ space : Type}

namespace Supervisor

/-! ### What the checks find -/

section Checks

variable {s : Supervisor μ space} {memory : MemoryService μ space} {state : μ}

lemma pidViolations_eq_nil_iff :
    s.pidViolations = [] ↔ ∀ pid, pid ∈ s.pids.toList ↔ pid ∈ s.processes.map (·.pid) := by
  have hlive : ∀ pid, pid ∈ s.livePids ↔ pid ∈ s.processes.map (·.pid) := fun pid => by
    rw [livePids, List.mem_eraseDups, List.mem_mergeSort]
  simp only [← hlive]
  rw [pidViolations, List.append_eq_nil_iff, List.map_eq_nil_iff, List.map_eq_nil_iff, List.filter_eq_nil_iff,
    List.filter_eq_nil_iff]
  constructor
  · rintro ⟨hheld, hallocated⟩ pid
    exact ⟨fun hused => by simpa using hheld pid hused, fun hpid => by simpa using hallocated pid hpid⟩
  · intro hused
    exact ⟨fun pid hpid => by simpa using (hused pid).mp hpid,
      fun pid hpid => by simpa using (hused pid).mpr hpid⟩

lemma runningViolations_eq_nil_iff : s.runningViolations = [] ↔
    (s.processes.filter (·.state == .running)).map (·.pid) = s.roster.running.toList := by
  rw [runningViolations]
  generalize (s.processes.filter (·.state == .running)).map (·.pid) = running
  rcases running with _ | ⟨pid, _ | ⟨other, rest⟩⟩ <;> cases s.roster.running <;> simp

/-- The roots seen before are those of `seen`. -/
lemma spaceViolationsAfter_eq_nil_iff {ps : List (ProcessRecord space)} {seen : List UInt64} :
    spaceViolationsAfter memory state seen ps = [] ↔
      ((∀ root ∈ (ps.filterMap (·.space)).map (memory.root state), root ∉ seen) ∧
        ((ps.filterMap (·.space)).map (memory.root state)).Nodup) ∧
      ∀ p ∈ ps, p.state.isActive = true → p.space.isSome = true := by
  induction ps generalizing seen with
  | nil => simp [spaceViolationsAfter]
  | cons p ps ih =>
    rw [spaceViolationsAfter, List.forall_mem_cons]
    cases hspace : p.space with
    | none =>
      rw [List.filterMap_cons_none hspace]
      by_cases hactive : p.state.isActive = true <;> simp [hactive, ih]
    | some handle =>
      rw [List.filterMap_cons_some hspace, List.map_cons, List.forall_mem_cons, List.nodup_cons]
      by_cases hseen : memory.root state handle ∈ seen
      · simp [hseen]
      · have hlater : ∀ roots : List UInt64, (∀ root ∈ roots, root ∉ memory.root state handle :: seen) ↔
            memory.root state handle ∉ roots ∧ ∀ root ∈ roots, root ∉ seen := fun roots => by
          simp only [List.mem_cons, not_or, forall₂_and, List.forall_mem_ne']
        simp only [hseen, if_false, ih, hlater, Option.isSome_some, implies_true, true_and, not_false_eq_true,
          and_assoc, and_left_comm]

lemma spaceViolations_eq_nil_iff : s.spaceViolations memory = [] ↔
    ((s.processes.filterMap (·.space)).map (memory.root s.memory)).Nodup ∧
      ∀ p ∈ s.processes, p.state.isActive = true → p.space.isSome = true := by
  simp [spaceViolations, spaceViolationsAfter_eq_nil_iff]

lemma forall_zip_tail_iff {pids : List Nat} :
    (∀ e ∈ pids.zip pids.tail, e.1 < e.2) ↔ pids.Pairwise (· < ·) := by
  rw [← List.isChain_iff_pairwise]
  induction pids with
  | nil => simp
  | cons a pids ih =>
    cases pids with
    | nil => simp
    | cons b pids =>
      rw [List.tail_cons, List.zip_cons_cons, List.forall_mem_cons, List.isChain_cons_cons, ← ih]
      rfl

lemma chainViolations_eq_nil_iff : s.chainViolations = [] ↔
    (s.processes.map (·.pid)).Pairwise (· < ·) ∧ s.processes.length = s.roster.size ∧
      s.processes.length = s.roster.pool.size := by
  rw [chainViolations, ← forall_zip_tail_iff, List.append_eq_nil_iff, List.filterMap_eq_nil_iff]
  refine and_congr (forall₂_congr fun e _ => ?_) ?_
  · simp only [ite_eq_left_iff, reduceCtorEq, imp_false, not_not]
  · simp only [List.length_map, ite_eq_right_iff, List.cons_ne_nil, imp_false, not_or, ne_eq, not_not]

lemma poolViolations_eq_nil_iff : s.poolViolations = [] ↔
    (s.processes.map (·.children.length)).sum = s.links.size ∧
      (s.processes.map (·.signals.length)).sum = s.signals.size := by
  simp only [poolViolations, List.append_eq_nil_iff, ite_eq_right_iff, List.cons_ne_nil, imp_false, ne_eq,
    not_not]
  rfl

end Checks

/-- The six invariants, of processes whose child lists are `childrenOf`. -/
structure Consistent (memory : MemoryService μ space) (s : Supervisor μ space)
    (childrenOf : Pid → List Pid) : Prop where
  pids : ∀ pid, pid ∈ s.pids.toList ↔ pid ∈ s.processes.map (·.pid)
  running : (s.processes.filter (·.state == .running)).map (·.pid) = s.roster.running.toList
  hierarchy : Hierarchy s.processes childrenOf
  roots : ((s.processes.filterMap (·.space)).map (memory.root s.memory)).Nodup
  backed : ∀ p ∈ s.processes, p.state.isActive = true → p.space.isSome = true
  ascending : (s.processes.map (·.pid)).Pairwise (· < ·)
  sizes : s.processes.length = s.roster.size ∧ s.processes.length = s.roster.pool.size
  links : (s.processes.map (·.children.length)).sum = s.links.size
  signals : (s.processes.map (·.signals.length)).sum = s.signals.size

/-- The checks are sound and complete: wherever chain and child lists come to their ends, they find
nothing exactly if the invariants hold. -/
theorem Listed.violations_eq_nil_iff {s : Supervisor μ space} {records : List (ProcessRecord space)}
    {childrenOf : Pid → List Pid} {memory : MemoryService μ space} (h : s.Listed records childrenOf) :
    s.violations memory = [] ↔ s.Consistent memory childrenOf := by
  simp only [violations, List.append_eq_nil_iff, pidViolations_eq_nil_iff, runningViolations_eq_nil_iff,
    h.hierarchyViolations_eq_nil_iff, spaceViolations_eq_nil_iff, chainViolations_eq_nil_iff,
    poolViolations_eq_nil_iff, ← h.processes_eq]
  constructor
  · rintro ⟨⟨⟨⟨⟨hpids, hrunning⟩, hhierarchy⟩, hroots, hbacked⟩, hascending, hsizes⟩, hlinks, hsignals⟩
    exact ⟨hpids, hrunning, hhierarchy, hroots, hbacked, hascending, hsizes, hlinks, hsignals⟩
  · intro h
    exact ⟨⟨⟨⟨⟨h.pids, h.running⟩, h.hierarchy⟩, h.roots, h.backed⟩, h.ascending, h.sizes⟩, h.links,
      h.signals⟩

/-! ### What a lawful view is drawn from -/

variable {s : Supervisor μ space} {v : View μ space} {p : ProcessRecord space}

lemma Shows.table_of_mem (h : s.Shows v) (hp : p ∈ s.processes) :
    v.table[p.pid]? = some (p.view (v.childrenOf p.pid) (v.signalsOf p.pid)) := by
  rw [h.records, Roster.record?, h.roster.mem_toList.mp hp]
  rfl

lemma Shows.pids_eq (h : s.Shows v) : s.processes.map (·.pid) = v.table.keys := by
  rw [← Std.ExtTreeMap.map_fst_toList_eq_keys, ← h.toList_eq, List.map_map]
  rfl

lemma Shows.mem_pids (h : s.Shows v) {pid : Nat} :
    pid ∈ s.processes.map (·.pid) ↔ ∃ p, v.table[pid]? = some p := by
  rw [h.pids_eq, Std.ExtTreeMap.mem_keys, ← Std.ExtTreeMap.contains_iff_mem, View.get?_iff_mem,
    Option.isSome_iff_exists]

/-- Exactly the identifiers of live processes are in use. -/
lemma Shows.mem_used (h : s.Shows v) (pid : Nat) :
    pid ∈ s.pids.toList ↔ pid ∈ s.processes.map (·.pid) := by
  rw [PidSpace.mem_toList, ← h.used pid, h.mem_pids, View.get?_iff_mem, Option.isSome_iff_exists]

/-- The running process is the only one in the running state. -/
lemma Shows.runners_eq (h : s.Shows v) (hlawful : v.Lawful) :
    (s.processes.filter (·.state == .running)).map (·.pid) = s.roster.running.toList := by
  have hsorted : ((s.processes.filter (·.state == .running)).map (·.pid)).Pairwise (· < ·) :=
    h.roster.sorted.sublist (List.filter_sublist.map _)
  have hantisymm : ∀ a b : Nat, a < b → b < a → a = b := fun a b hab hba => by omega
  rw [← h.running]
  refine List.Perm.eq_of_pairwise (fun a b _ _ => hantisymm a b) hsorted
    (by cases v.running <;> simp) ?_
  refine (List.perm_ext_iff_of_nodup ?_ (by cases v.running <;> simp)).mpr fun pid => ?_
  · exact hsorted.imp fun hlt => Nat.ne_of_lt hlt
  · rw [Option.mem_toList, List.mem_map]
    constructor
    · rintro ⟨p, hp, rfl⟩
      obtain ⟨hmem, hstate⟩ := List.mem_filter.mp hp
      exact (hlawful.runner p.pid _ (h.table_of_mem hmem)).mp (eq_of_beq hstate)
    · intro hrunning
      obtain ⟨p, hp⟩ := hlawful.live pid hrunning
      obtain ⟨record, hmem, rfl⟩ := List.mem_map.mp (h.mem_pids.mpr ⟨p, hp⟩)
      refine ⟨record, List.mem_filter.mpr ⟨hmem, ?_⟩, rfl⟩
      have hstate := (hlawful.runner record.pid _ (h.table_of_mem hmem)).mpr hrunning
      simpa [ProcessRecord.view] using hstate

lemma Shows.listed (h : s.Shows v) : s.Listed s.processes v.childrenOf :=
  listed_of_family h.roster h.children

/-- Parents and children mirror each other and form a forest. -/
lemma Shows.hierarchy (h : s.Shows v) (hforest : v.Forest) :
    Hierarchy s.processes v.childrenOf := by
  have hnames : Names s.processes = v.Up :=
    h.listed.up_eq.symm.trans h.up_eq
  constructor
  · intro p hp parent hparent
    have hup : v.Up p.pid parent := by
      rw [← hnames]
      exact ⟨p, hp, rfl, hparent⟩
    constructor
    · exact List.mem_map.mp (h.mem_pids.mpr (hforest.live_of_up hup))
    · exact List.count_eq_one_of_mem (hforest.nodup parent) ((hforest.mirrored parent p.pid).mpr hup)
  · intro q _ child hchild
    have hup : v.Up child q.pid := (hforest.mirrored q.pid child).mp hchild
    rwa [← hnames] at hup
  · intro p _
    rw [hnames]
    exact hforest.acyclic p.pid

/-- Index and pool have as many processes as the chain. -/
lemma Shows.sizes_eq (h : s.Shows v) :
    s.processes.length = s.roster.size ∧ s.processes.length = s.roster.pool.size := by
  rw [h.roster.size_eq, h.roster.pool_size]
  exact ⟨rfl, rfl⟩

lemma Shows.sum_children_length (h : s.Shows v) :
    (s.processes.map (·.children.length)).sum = s.links.size := by
  rw [← h.linkCount_eq, View.linkCount, ← h.pids_eq, List.map_map]
  refine congrArg List.sum (List.map_congr_left fun p hp => ?_)
  rw [Function.comp_apply, ← h.children.length_eq, Roster.childListOf_eq (h.roster.mem_toList.mp hp)]

lemma Shows.sum_signals_length (h : s.Shows v) :
    (s.processes.map (·.signals.length)).sum = s.signals.size := by
  rw [← h.signalCount_eq, View.signalCount, ← h.pids_eq, List.map_map]
  refine congrArg List.sum (List.map_congr_left fun p hp => ?_)
  rw [Function.comp_apply, ← h.signals.length_eq, Roster.signalQueueOf_eq (h.roster.mem_toList.mp hp)]

/-- The invariants hold in a supervisor that shows a lawful view, if the roots are distinct. -/
theorem Shows.consistent (h : s.Shows v) (hlawful : v.Lawful) {memory : MemoryService μ space}
    (hroots : (s.spaces.map (memory.root s.memory)).Nodup) : s.Consistent memory v.childrenOf where
  pids := h.mem_used
  running := h.runners_eq hlawful
  hierarchy := h.hierarchy hlawful.forest
  roots := by
    rw [spaces, Multiset.map_coe, Multiset.coe_nodup] at hroots
    exact hroots
  backed p hp hactive := hlawful.backed p.pid _ (h.table_of_mem hp) hactive
  ascending := h.roster.sorted
  sizes := h.sizes_eq
  links := h.sum_children_length
  signals := h.sum_signals_length

end Supervisor

namespace Session

variable {memory : MemoryService μ space} {outside : μ → μ → Prop} {limits : Limits} {start : μ}
  {events : List (Event space)} {s : Session μ space}

/-- With a memory service that keeps roots distinct, every run leads to a consistent supervisor. -/
theorem Run.violations_eq_nil (hroots : DistinctRoots memory outside start)
    (h : Run memory outside limits start events s) : s.supervisor.violations memory = [] := by
  obtain ⟨v, hshows, hlawful, htraffic⟩ := h.shows
  refine (Supervisor.Shows.listed hshows).violations_eq_nil_iff.mpr
    (Supervisor.Shows.consistent hshows hlawful ?_)
  rw [hshows.spaces_eq, ← Supervisor.Shows.memory hshows]
  exact hroots.nodup htraffic

/-- A run over the host with a process and a clone of it, one in the running state. -/
theorem violations_eq_nil_of_clones : ∃ events s,
    Run (HostMemory.boundedService 16) HostMemory.Adjusted ⟨8, 4, 4, 4, .lenient⟩ .empty events s ∧
    s.supervisor.roster.size = 2 ∧ s.supervisor.roster.running = some 1 ∧
    s.supervisor.violations (HostMemory.boundedService 16) = [] := by
  have hbegun : Run (HostMemory.boundedService 16) HostMemory.Adjusted ⟨8, 4, 4, 4, .lenient⟩ .empty
    [] _ := .start
  have hcloned := ((hbegun.perform (.create none 0)).perform (.materialize 1)).perform (.clone 1)
  have hticked := (hcloned.outside .failNextClone).perform .tick
  exact ⟨_, _, hticked, by decide +kernel, by decide +kernel,
    hticked.violations_eq_nil (HostMemory.distinctRoots (by decide))⟩

end Session

end Uniprocessor
