import Uniprocessor.Roster.Scan
import Uniprocessor.Proofs.RosterHistories

/-!
# What a scan visits

A scan of a well-formed roster visits every record once: first the ones behind its start, then
from the head of the chain the ones up to and with its start. From then on it has no answer. The
round-robin choice is the first waiting process that the scan meets.
-/

namespace Uniprocessor

namespace Scan

variable {space : Type} {pool : Pool (ProcessRecord space)} {s s' : Scan} {head cursor stop : Option Handle}
  {wrapped : Bool} {p : ProcessRecord space} {ps qs : List (ProcessRecord space)}

/-- The answer to call number `n` of a scan, counted from zero. -/
def answer (pool : Pool (ProcessRecord space)) : Nat → Scan → Option (ProcessRecord space)
  | 0, s => (s.next pool).1
  | n + 1, s => answer pool n (s.next pool).2

/-- The scan answers with `ps`, one after the other, and with nothing however often it is called then. -/
def Yields (pool : Pool (ProcessRecord space)) (s : Scan) (ps : List (ProcessRecord space)) : Prop :=
  ∀ n, s.answer pool n = ps[n]?

lemma Yields.unique (h : s.Yields pool ps) (h' : s.Yields pool qs) : ps = qs :=
  List.ext_getElem? fun n => (h n).symm.trans (h' n)

/-- Only the next step of a scan matters, not where it stands. -/
lemma Yields.of_next_eq (h : s'.Yields pool ps) (hnext : s.next pool = s'.next pool) :
    s.Yields pool ps := by
  intro n
  rw [← h n]
  cases n <;> rw [answer, answer, hnext]

lemma Yields.cons (h : s'.Yields pool ps) (hnext : s.next pool = (some p, s')) :
    s.Yields pool (p :: ps) := by
  intro n
  cases n with
  | zero =>
    rw [answer, hnext]
    rfl
  | succ n =>
    rw [answer, hnext]
    exact h n

lemma yields_nil (hnext : s.next pool = (none, s)) : s.Yields pool [] := by
  intro n
  induction n with
  | zero =>
    rw [answer, hnext]
    rfl
  | succ n ih =>
    rw [answer, hnext]
    exact ih

/-- The bounded list of a scan cuts off what it yields. -/
lemma Yields.toListWithin (h : s.Yields pool ps) (fuel : Nat) : s.toListWithin pool fuel = ps.take fuel := by
  induction fuel generalizing s ps with
  | zero => rfl
  | succ fuel ih =>
    have hfirst : (s.next pool).1 = ps[0]? := h 0
    rw [Scan.toListWithin]
    cases ps with
    | nil =>
      obtain ⟨s', hnext⟩ : ∃ s', s.next pool = (none, s') := ⟨_, Prod.ext hfirst rfl⟩
      rw [hnext]
      rfl
    | cons p ps =>
      obtain ⟨s', hnext⟩ : ∃ s', s.next pool = (some p, s') := ⟨_, Prod.ext hfirst rfl⟩
      have hrest : s'.Yields pool ps := fun n => by
        rw [← List.getElem?_cons_succ, ← h (n + 1), answer, hnext]
      rw [hnext, List.take_succ_cons, ← ih hrest]

/-- The scan ends at the end of the chain once it has wrapped around. -/
lemma yields_end (head stop : Option Handle) : Yields pool ⟨head, none, stop, true⟩ [] := yields_nil rfl

/-- At the end of the chain the scan goes on from the head. -/
lemma yields_wrap (h : Yields pool ⟨head, head, stop, true⟩ ps) :
    Yields pool ⟨head, none, stop, false⟩ ps := by
  refine h.of_next_eq ?_
  simp [next, wrap]

/-- A stretch of the chain that does not contain the stop. -/
lemma yields_path {mid : Option Handle} {zs : List (Handle × ProcessRecord space)}
    (hpath : Pool.Path ProcessRecord.next pool cursor zs mid) (hstop : ∀ e ∈ zs, stop ≠ some e.1)
    (h : Yields pool ⟨head, mid, stop, wrapped⟩ ps) :
    Yields pool ⟨head, cursor, stop, wrapped⟩ (zs.map (·.2) ++ ps) := by
  induction zs generalizing cursor with
  | nil => rwa [Pool.path_nil.mp hpath]
  | cons z zs ih =>
    obtain ⟨hcursor, hget, hrest⟩ := Pool.path_cons.mp hpath
    have hne := hstop z List.mem_cons_self
    refine (ih hrest fun e he => hstop e (List.mem_cons_of_mem z he)).cons ?_
    simp [next, wrap, hcursor, hget, hne]

/-- The scan ends behind its stop. -/
lemma yields_stop {slot : Handle} (hget : pool.get? slot = some p) :
    Yields pool ⟨head, some slot, some slot, wrapped⟩ [p] := by
  refine (yields_end head (some slot)).cons ?_
  simp [next, wrap, hget]

end Scan

namespace Roster

variable {space : Type} {r : Roster space}

/-! ### Scans of a roster -/

/-- The chain around a live process. -/
lemma WellFormed.exists_split (h : r.WellFormed) {pid : Nat} (hlive : (r.get? pid).isSome) :
    ∃ before p behind, r.toList = before ++ p :: behind ∧ p.pid = pid := by
  obtain ⟨p, hp⟩ := Option.isSome_iff_exists.mp hlive
  obtain rfl := h.pid_of_get? hp
  obtain ⟨before, behind, hlist⟩ := List.append_of_mem (h.mem_toList.mpr hp)
  exact ⟨before, p, behind, hlist, rfl⟩

/-- Without a live process to start behind, the scan visits the chain from its head. -/
theorem WellFormed.yields_all (h : r.WellFormed) {start : Option Pid}
    (hstart : ∀ pid ∈ start, r.contains pid = false) : (r.scanFrom start).Yields r.pool r.toList := by
  have hstop : start.bind (r.index[·]?) = none := by
    cases start with
    | none => rfl
    | some pid => exact Std.ExtTreeMap.getElem?_eq_none_of_contains_eq_false (hstart pid rfl)
  obtain ⟨xs, h⟩ := h
  have hscan := Scan.yields_path h.path (by simp) (Scan.yields_end r.head none)
  rw [List.append_nil, ← h.toList] at hscan
  rw [scanFrom, hstop]
  exact Scan.yields_wrap hscan

/-- Behind a live process the scan visits the records behind it, then the ones before it, and then the
process. -/
theorem WellFormed.yields_behind (h : r.WellFormed) {before behind : List (ProcessRecord space)}
    {p : ProcessRecord space} (hlist : r.toList = before ++ p :: behind) :
    (r.scanFrom (some p.pid)).Yields r.pool (behind ++ before ++ [p]) := by
  obtain ⟨xs, h⟩ := h
  rw [h.toList] at hlist
  obtain ⟨us, ws, rfl, rfl, hws⟩ := List.map_eq_append_iff.mp hlist
  obtain ⟨⟨slot, p⟩, vs, rfl, rfl, rfl⟩ := List.map_eq_cons_iff.mp hws
  have hslot : r.index[p.pid]? = some slot :=
    (h.index p.pid slot).mpr ⟨p.unchained, List.mem_map.mpr ⟨(slot, p), by simp, rfl⟩, rfl⟩
  obtain ⟨mid, hfront, hback⟩ := Pool.path_append.mp h.path
  obtain ⟨hmid, hget, hrest⟩ := Pool.path_cons.mp hback
  have hnodup := h.path.nodup
  rw [List.map_append, List.map_cons, List.nodup_middle, List.nodup_cons, ← List.map_append] at hnodup
  have hne : ∀ e ∈ us ++ vs, some slot ≠ some e.1 := by
    intro e he heq
    exact hnodup.1 (List.mem_map.mpr ⟨e, he, (Option.some_injective _ heq).symm⟩)
  rw [scanFrom]
  simp only [Option.bind_some, hslot, hget]
  rw [List.append_assoc]
  refine Scan.yields_path hrest (fun e he => hne e (List.mem_append_right _ he)) (Scan.yields_wrap ?_)
  refine Scan.yields_path hfront (fun e he => hne e (List.mem_append_left _ he)) ?_
  rw [hmid]
  exact Scan.yields_stop hget

/-- What the scan from `start` yields is visited within the bound. -/
lemma WellFormed.cycleFrom_eq (h : r.WellFormed) {start : Option Pid} {ps : List (ProcessRecord space)}
    (hscan : (r.scanFrom start).Yields r.pool ps) (hlen : ps.length = r.toList.length) :
    r.cycleFrom start = ps := by
  obtain ⟨xs, h⟩ := h
  have hle := h.path.length_le
  rw [h.toList, List.length_map] at hlen
  rw [cycleFrom, hscan.toListWithin, List.take_of_length_le (by omega)]

/-- Without a live process to start behind, the whole chain is visited from its head. -/
theorem WellFormed.cycleFrom_none (h : r.WellFormed) {start : Option Pid}
    (hstart : ∀ pid ∈ start, r.get? pid = none) : r.cycleFrom start = r.toList := by
  refine h.cycleFrom_eq (h.yields_all fun pid hpid => ?_) rfl
  rw [h.contains_eq, hstart pid hpid, Option.isSome_none]

/-- Behind a live process the greater identifiers are visited, and then the others. -/
theorem WellFormed.cycleFrom_some (h : r.WellFormed) {pid : Nat} (hlive : (r.get? pid).isSome) :
    r.cycleFrom (some pid) =
      r.toList.filter (pid < ·.pid) ++ r.toList.filter (·.pid ≤ pid) := by
  obtain ⟨before, p, behind, hlist, rfl⟩ := h.exists_split hlive
  have hsorted := List.pairwise_map.mp h.sorted
  rw [hlist, List.pairwise_append, List.pairwise_cons] at hsorted
  obtain ⟨-, ⟨hgreater, -⟩, hless⟩ := hsorted
  have hbefore : ∀ q ∈ before, q.pid < p.pid := fun q hq => hless q hq p List.mem_cons_self
  have hbehind : r.toList.filter (p.pid < ·.pid) = behind := by
    rw [hlist, List.filter_append, List.filter_cons, List.filter_eq_nil_iff.mpr, List.filter_eq_self.mpr]
    · simp
    · exact fun q hq => decide_eq_true (hgreater q hq)
    · exact fun q hq => by simpa using Nat.le_of_lt (hbefore q hq)
  have hothers : r.toList.filter (·.pid ≤ p.pid) = before ++ [p] := by
    rw [hlist, List.filter_append, List.filter_cons, List.filter_eq_self.mpr, List.filter_eq_nil_iff.mpr]
    · simp
    · exact fun q hq => by simpa using hgreater q hq
    · exact fun q hq => decide_eq_true (Nat.le_of_lt (hbefore q hq))
  rw [h.cycleFrom_eq (h.yields_behind hlist) (by simp [hlist]; omega), hbehind, hothers,
    List.append_assoc]

/-- How the processes of `r` take turns, whatever process a scan starts behind. -/
structure Cycles (r : Roster space) : Prop where
  /-- From the head on the chain leads through the processes and comes to an end. -/
  chain : ∃ xs, Pool.Path ProcessRecord.next r.pool r.head xs none ∧ xs.map (·.2) = r.toList
  ascending : (r.toList.map (·.pid)).Pairwise (· < ·)
  contains : ∀ pid : Nat, r.contains pid = true ↔ pid ∈ r.toList.map (·.pid)
  behind : ∀ before p behind, r.toList = before ++ p :: behind →
    (r.scanFrom (some p.pid)).Yields r.pool (behind ++ before ++ [p])
  all : ∀ start : Option Nat, (∀ pid ∈ start, r.contains pid = false) →
    (r.scanFrom start).Yields r.pool r.toList
  choice : ∀ start ps, (r.scanFrom start).Yields r.pool ps →
    r.nextInTurn start = (ps.find? (·.state == .waiting)).map (·.pid)
  nobody : ∀ start, r.nextInTurn start = none ↔ ∀ p ∈ r.toList, p.state ≠ .waiting

/-- Wherever a scan starts, it yields the records in some order. -/
lemma WellFormed.exists_yields (h : r.WellFormed) (start : Option Pid) :
    ∃ ps, (r.scanFrom start).Yields r.pool ps ∧ ps.Perm r.toList := by
  by_cases hstart : ∀ pid ∈ start, r.contains pid = false
  · exact ⟨r.toList, h.yields_all hstart, .refl _⟩
  · simp only [not_forall, Bool.not_eq_false] at hstart
    obtain ⟨pid, rfl, hlive⟩ := hstart
    obtain ⟨before, p, behind, hlist, rfl⟩ := h.exists_split (h.contains_eq pid ▸ hlive)
    refine ⟨_, h.yields_behind hlist, ?_⟩
    rw [hlist, List.append_assoc]
    refine List.perm_append_comm.trans ?_
    simp

lemma WellFormed.cycles (h : r.WellFormed) : r.Cycles where
  chain := by
    obtain ⟨xs, h⟩ := h
    exact ⟨xs, h.path, h.toList.symm⟩
  ascending := h.sorted
  contains := h.contains_iff
  behind _ _ _ := h.yields_behind
  all _ := h.yields_all
  choice start ps hscan := by
    obtain ⟨qs, hqs, hperm⟩ := h.exists_yields start
    obtain rfl := hscan.unique hqs
    rw [nextInTurn, h.cycleFrom_eq hscan hperm.length_eq]
  nobody start := by
    obtain ⟨ps, hscan, hperm⟩ := h.exists_yields start
    rw [nextInTurn, h.cycleFrom_eq hscan hperm.length_eq, Option.map_eq_none_iff, List.find?_eq_none]
    simp [hperm.mem_iff]

variable {capacity : Nat} {policy : Strictness} {c : Census space}

/-- In every roster that a history comes to, a scan goes around the chain once and stays at its end, and
the choice of the next process is the first waiting one on that way. -/
theorem Reached.scan_cycles (h : Reached capacity policy c r) : r.Cycles := h.holds.wellFormed.cycles

/-- Of four processes only the third waits: a scan behind the second goes around, and the third is the
choice behind itself and behind nobody. -/
theorem scan_cycles_of_four : ∃ (c : Census Nat) (r : Roster Nat), Reached 4 .lenient c r ∧ r.Cycles ∧
    (∃ ps, (r.scanFrom (some 5)).Yields r.pool ps ∧ ps.map (·.pid) = [7, 9, 2, 5]) ∧
      r.nextInTurn (some 7) = some 7 ∧ r.nextInTurn none = some 7 := by
  have hbegun : Reached 4 .lenient (.empty : Census Nat) _ := .start
  have hfull := (((hbegun.insert 5 rfl rfl).insert 2 rfl rfl).insert 9 rfl rfl).insert 7 rfl rfl
  have hequipped := hfull.modify 7
    (f := fun p => { p with space := some 0, userStack := some 1, kernelStack := some 2 })
    (fun _ => rfl) fun _ => rfl
  have hwaits := hequipped.changeState 7 .waiting
  have hcycles := hwaits.scan_cycles
  exact ⟨_, _, hwaits, hcycles, ⟨_, hcycles.behind [_] _ [_, _] rfl, rfl⟩,
    (hcycles.choice _ _ (hcycles.behind [_, _] _ [_] rfl)).trans rfl,
    (hcycles.choice _ _ (hcycles.all none (by simp))).trans rfl⟩

end Roster

end Uniprocessor
