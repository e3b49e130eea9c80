import Mathlib.Data.List.Perm.Subperm
import Mathlib.Logic.Relation
import Uniprocessor.Consistency
import Uniprocessor.Proofs.Runs

/-!
# What the checks of the hierarchy find

The checks of parents and children are sound and complete. In any state in which the chain and the
child lists come to an end, reached by a run or not, they find nothing exactly if parents and children
name each other and nobody is their own ancestor. For that the way up from a process is walked with no
more than a bound on the steps. The walk need not come back to the process to go round; it ends all the
same, and is given up exactly if it would not end otherwise.
-/

namespace Uniprocessor

open Relation

/-- The way up for the process `pid`, from somebody on and after some steps: who is met, and whether
the way is given up, since it has come back to `pid` or has taken more than `bound` steps. -/
inductive Walk (parentOf : Pid → Option Pid) (pid : Pid) (bound : Nat) :
    Nat → Option Pid → List Pid → Bool → Prop
  | top {steps} : Walk parentOf pid bound steps none [] false
  | stop {steps ancestor} : ancestor = pid ∨ bound < steps + 1 →
      Walk parentOf pid bound steps (some ancestor) [ancestor] true
  | up {steps ancestor met givenUp} : ancestor ≠ pid → steps + 1 ≤ bound →
      Walk parentOf pid bound (steps + 1) (parentOf ancestor) met givenUp →
      Walk parentOf pid bound steps (some ancestor) (ancestor :: met) givenUp

namespace Supervisor

variable {μ space : Type} {s : Supervisor μ space} {pid : Pid} {left : Nat} {start : Option Pid}

/-- The walk ends with the steps that are left. -/
lemma exists_walk (s : Supervisor μ space) (pid : Pid) {bound steps : Nat} (start : Option Pid)
    (hbound : steps + left = bound) :
    ∃ met, Walk s.roster.parentOf pid bound steps start met (s.roster.returnsTo pid left start) ∧
      met.length ≤ left + 1 := by
  induction left generalizing steps start with
  | zero =>
    cases start with
    | none => exact ⟨[], .top, Nat.zero_le _⟩
    | some ancestor => exact ⟨[ancestor], .stop (.inr (by omega)), Nat.le_refl _⟩
  | succ left ih =>
    cases start with
    | none => exact ⟨[], .top, Nat.zero_le _⟩
    | some ancestor =>
      rw [Roster.returnsTo]
      by_cases hpid : ancestor = pid
      · rw [beq_iff_eq.mpr hpid, Bool.true_or]
        exact ⟨[ancestor], .stop (.inl hpid), by simp⟩
      · have hleft : (steps + 1) + left = bound := by omega
        obtain ⟨met, hwalk, hlength⟩ := ih (s.roster.parentOf ancestor) hleft
        rw [beq_eq_false_iff_ne.mpr hpid, Bool.false_or]
        refine ⟨ancestor :: met, .up hpid (by omega) hwalk, ?_⟩
        rw [List.length_cons]
        omega

/-- A walk that is given up has come back, or has met as many processes as it had steps, each of them
above the ones before. -/
lemma climbs_of_returnsTo (hreturns : s.roster.returnsTo pid left start = true) :
    ∃ a, start = some a ∧ (ReflTransGen s.Up a pid ∨ ∃ met : List Pid, met.length = left ∧
      met.Pairwise (TransGen s.Up) ∧ ∀ q ∈ met, ReflTransGen s.Up a q ∧ ∃ parent, s.Up q parent) := by
  induction left generalizing start with
  | zero =>
    cases start with
    | none => simp [Roster.returnsTo] at hreturns
    | some a => exact ⟨a, rfl, .inr ⟨[], rfl, .nil, by simp⟩⟩
  | succ left ih =>
    cases start with
    | none => simp [Roster.returnsTo] at hreturns
    | some a =>
      rw [Roster.returnsTo, Bool.or_eq_true, beq_iff_eq] at hreturns
      refine ⟨a, rfl, ?_⟩
      rcases hreturns with rfl | hreturns
      · exact .inl .refl
      · obtain ⟨b, hup, hback | ⟨met, hlength, habove, hmet⟩⟩ := ih hreturns
        · exact .inl (.head hup hback)
        · refine .inr ⟨a :: met, by rw [List.length_cons, hlength], ?_, ?_⟩
          · apply List.Pairwise.cons
            · intro q hq
              exact .head' hup (hmet q hq).1
            · exact habove
          · intro q hq
            rcases List.mem_cons.mp hq with rfl | hq
            · exact ⟨.refl, b, hup⟩
            · exact ⟨.head hup (hmet q hq).1, (hmet q hq).2⟩

/-- Above the start of a walk that comes to its end, nobody is `pid` and nobody is above themselves. -/
lemma apart_of_returnsTo (hreturns : s.roster.returnsTo pid left start = false) {a q : Pid}
    (ha : start = some a) (habove : ReflTransGen s.Up a q) : q ≠ pid ∧ ¬ TransGen s.Up q q := by
  induction left generalizing start a with
  | zero => simp [ha, Roster.returnsTo] at hreturns
  | succ left ih =>
    rw [ha, Roster.returnsTo, Bool.or_eq_false_iff] at hreturns
    obtain ⟨hne, hrest⟩ := hreturns
    rcases habove.cases_head with rfl | ⟨b, hup, habove⟩
    · refine ⟨beq_eq_false_iff_ne.mp hne, fun hcycle => ?_⟩
      obtain ⟨b, hup, hback⟩ := TransGen.head'_iff.mp hcycle
      exact (ih hrest hup hback).2 hcycle
    · exact ih hrest hup habove

end Supervisor

/-- One step up among the records, from a process to the one that it names as its parent. -/
def Names {space : Type} (records : List (ProcessRecord space)) (child parent : Pid) : Prop :=
  ∃ p ∈ records, p.pid = child ∧ p.parent = some parent

/-- From `pid` on, the way up comes to somebody who is their own ancestor. -/
def GoesRound {space : Type} (records : List (ProcessRecord space)) (pid : Pid) : Prop :=
  ∃ q, ReflTransGen (Names records) pid q ∧ TransGen (Names records) q q

/-- Parents and children name each other, each child once, and nobody is their own ancestor. -/
structure Hierarchy {space : Type} (records : List (ProcessRecord space))
    (childrenOf : Pid → List Pid) : Prop where
  parents : ∀ p ∈ records, ∀ parent, p.parent = some parent →
    (∃ q ∈ records, q.pid = parent) ∧ (childrenOf parent).count p.pid = 1
  children : ∀ q ∈ records, ∀ child ∈ childrenOf q.pid,
    ∃ p ∈ records, p.pid = child ∧ p.parent = some q.pid
  acyclic : ∀ p ∈ records, ¬ TransGen (Names records) p.pid p.pid

lemma Hierarchy.not_goesRound {space : Type} {records : List (ProcessRecord space)}
    {childrenOf : Pid → List Pid} (h : Hierarchy records childrenOf) (pid : Pid) :
    ¬ GoesRound records pid := by
  rintro ⟨q, -, hcycle⟩
  obtain ⟨_, ⟨p, hp, rfl, -⟩, -⟩ := TransGen.head'_iff.mp hcycle
  exact h.acyclic p hp hcycle

namespace Supervisor

variable {μ space : Type}

/-- The chain leads through `records`, in ascending order and as the index has it, and their child
lists through `childrenOf`. Chain and lists come to an end, be it at a handle that does not resolve.
Nothing else is asked of the state. -/
structure Listed (s : Supervisor μ space) (records : List (ProcessRecord space))
    (childrenOf : Pid → List Pid) : Prop where
  chain : ∃ xs stop, Pool.Path ProcessRecord.next s.roster.pool s.roster.head xs stop ∧
    s.roster.pool.Ends stop ∧ xs.map (·.2) = records ∧
    ∀ (pid : Nat) slot, s.roster.index[pid]? = some slot ↔ ∃ p, (slot, p) ∈ xs ∧ p.pid = pid
  sorted : (records.map (·.pid)).Pairwise (· < ·)
  children : ∀ p ∈ records, ∃ ys stop, Pool.Path ChildEntry.next s.links p.children.head ys stop ∧
    s.links.Ends stop ∧ ys.map (·.2.child) = childrenOf p.pid

variable {s : Supervisor μ space} {records : List (ProcessRecord space)} {childrenOf : Pid → List Pid}
  {p : ProcessRecord space} {pid : Nat}

namespace Listed

variable (h : s.Listed records childrenOf)

include h

lemma processes_eq : s.processes = records := by
  obtain ⟨xs, stop, hpath, hends, rfl, -⟩ := h.chain
  rw [processes, Roster.toList, Roster.entries, hpath.linked_of_ends hends]

lemma get?_eq_some : s.roster.get? pid = some p ↔ p ∈ records ∧ p.pid = pid := by
  obtain ⟨xs, stop, hpath, -, rfl, hindex⟩ := h.chain
  rw [Roster.get?, Option.bind_eq_some_iff, List.mem_map]
  constructor
  · rintro ⟨slot, hslot, hget⟩
    obtain ⟨q, hq, hpid⟩ := (hindex pid slot).mp hslot
    have hsame : q = p := Option.some_injective _ ((hpath.get? hq).symm.trans hget)
    subst hsame
    exact ⟨⟨_, hq, rfl⟩, hpid⟩
  · rintro ⟨⟨e, he, rfl⟩, hpid⟩
    exact ⟨e.1, (hindex pid e.1).mpr ⟨e.2, he, hpid⟩, hpath.get? he⟩

lemma parentOf_eq (hp : p ∈ records) : s.roster.parentOf p.pid = p.parent := by
  rw [Roster.parentOf, h.get?_eq_some.mpr ⟨hp, rfl⟩, Option.bind_some]

lemma up_eq : s.Up = Names records := by
  funext child parent
  apply propext
  rw [Up, Roster.parentOf, Option.bind_eq_some_iff]
  constructor
  · rintro ⟨p, hget, hparent⟩
    obtain ⟨hp, hpid⟩ := h.get?_eq_some.mp hget
    exact ⟨p, hp, hpid, hparent⟩
  · rintro ⟨p, hp, hpid, hparent⟩
    exact ⟨p, h.get?_eq_some.mpr ⟨hp, hpid⟩, hparent⟩

lemma toList_children (hp : p ∈ records) : p.children.toList s.links = childrenOf p.pid := by
  obtain ⟨ys, stop, hpath, hends, hchildren⟩ := h.children p hp
  rw [Children.toList, Children.entries, hpath.linked_of_ends hends, hchildren]

lemma size_eq : s.roster.size = records.length := by
  have hcontains : ∀ pid : Nat, s.roster.index.contains pid = true ↔ pid ∈ records.map (·.pid) := by
    intro pid
    obtain ⟨xs, stop, -, -, rfl, hindex⟩ := h.chain
    rw [Std.ExtTreeMap.contains_eq_isSome_getElem?, Option.isSome_iff_exists]
    simp only [hindex, List.map_map, List.mem_map, Prod.exists]
    exact exists_congr fun slot => exists_congr fun p => Iff.rfl
  rw [Roster.size, Roster.size_eq_length (h.sorted.imp Nat.ne_of_lt) hcontains, List.length_map]

/-! ### One process -/

lemma parentViolations_eq_nil_iff (p : ProcessRecord space) :
    s.parentViolations p = [] ↔ ∀ parent, p.parent = some parent →
      (∃ q ∈ records, q.pid = parent) ∧ (childrenOf parent).count p.pid = 1 := by
  rw [parentViolations]
  cases hparent : p.parent with
  | none => simp
  | some parent =>
    simp only [Option.some_inj, forall_eq']
    cases hget : s.roster.get? parent with
    | none =>
      refine iff_of_false (by simp) ?_
      rintro ⟨⟨q, hq, hpid⟩, -⟩
      rw [h.get?_eq_some.mpr ⟨hq, hpid⟩] at hget
      cases hget
    | some record =>
      obtain ⟨hrecord, rfl⟩ := h.get?_eq_some.mp hget
      have hlive : ∃ q ∈ records, q.pid = record.pid := ⟨record, hrecord, rfl⟩
      dsimp only
      rw [h.toList_children hrecord]
      by_cases hcount : (childrenOf record.pid).count p.pid = 1
      · rw [if_pos hcount]
        exact iff_of_true rfl ⟨hlive, hcount⟩
      · rw [if_neg hcount]
        exact iff_of_false (List.cons_ne_nil _ _) fun hboth => hcount hboth.2

lemma childViolations_eq_nil_iff (hp : p ∈ records) :
    s.childViolations p = [] ↔ ∀ child ∈ childrenOf p.pid,
      ∃ c ∈ records, c.pid = child ∧ c.parent = some p.pid := by
  rw [childViolations, h.toList_children hp, List.filterMap_eq_nil_iff]
  refine forall₂_congr fun child _ => ?_
  cases hget : s.roster.get? child with
  | none =>
    refine iff_of_false (by simp) ?_
    rintro ⟨c, hc, hpid, -⟩
    rw [h.get?_eq_some.mpr ⟨hc, hpid⟩] at hget
    cases hget
  | some record =>
    obtain ⟨hrecord, hpid⟩ := h.get?_eq_some.mp hget
    by_cases hparent : record.parent = some p.pid
    · simp only [hparent, if_true, true_iff]
      exact ⟨record, hrecord, hpid, hparent⟩
    · simp only [hparent, if_false, reduceCtorEq, false_iff]
      rintro ⟨c, hc, hcpid, hcparent⟩
      rw [h.get?_eq_some.mpr ⟨hc, hcpid⟩] at hget
      cases hget
      exact hparent hcparent

/-- The way up from a process is given up exactly if it goes round. If it is given up for its length,
then among the processes on it, more than there are, somebody is met again. -/
lemma returnsTo_iff (hp : p ∈ records) :
    s.roster.returnsTo p.pid s.roster.size p.parent = true ↔ GoesRound records p.pid := by
  have hup := h.up_eq
  constructor
  · intro hreturns
    obtain ⟨a, ha, hclimb⟩ := climbs_of_returnsTo hreturns
    rw [hup] at hclimb
    have hstep : Names records p.pid a := ⟨p, hp, rfl, ha⟩
    rcases hclimb with hback | ⟨met, hlength, habove, hmet⟩
    · exact ⟨p.pid, .refl, .head' hstep hback⟩
    · by_contra hround
      have hreached : ∀ q ∈ p.pid :: met, ReflTransGen (Names records) p.pid q := by
        intro q hq
        rcases List.mem_cons.mp hq with rfl | hq
        · exact .refl
        · exact .head hstep (hmet q hq).1
      have hways : (p.pid :: met).Pairwise (TransGen (Names records)) :=
        .cons (fun q hq => .head' hstep (hmet q hq).1) habove
      have hnodup : (p.pid :: met).Nodup := by
        refine hways.imp_of_mem fun {q q'} hq _ hway heq => ?_
        subst heq
        exact hround ⟨q, hreached q hq, hway⟩
      have hlive : p.pid :: met ⊆ records.map (·.pid) := by
        intro q hq
        rcases List.mem_cons.mp hq with rfl | hq
        · exact List.mem_map_of_mem hp
        · obtain ⟨-, parent, q', hq', hpid, -⟩ := hmet q hq
          exact List.mem_map.mpr ⟨q', hq', hpid⟩
      have hle := (hnodup.subperm hlive).length_le
      rw [List.length_cons, List.length_map, hlength, h.size_eq] at hle
      omega
  · rintro ⟨q, habove, hcycle⟩
    by_contra hreturns
    rw [Bool.not_eq_true] at hreturns
    rw [← hup] at habove hcycle
    have hparent : ∀ {b : Pid}, s.Up p.pid b → p.parent = some b := fun hstep =>
      (h.parentOf_eq hp).symm.trans hstep
    rcases habove.cases_head with rfl | ⟨b, hstep, habove⟩
    · obtain ⟨b, hstep, hback⟩ := TransGen.head'_iff.mp hcycle
      exact (apart_of_returnsTo hreturns (hparent hstep) hback).1 rfl
    · exact (apart_of_returnsTo hreturns (hparent hstep) habove).2 hcycle

lemma ancestryViolations_eq_nil_iff (hp : p ∈ records) :
    s.ancestryViolations p = [] ↔ ¬ GoesRound records p.pid := by
  rw [ancestryViolations, ← h.returnsTo_iff hp]
  split <;> simp_all

/-! ### All processes -/

/-- The checks find nothing exactly in a hierarchy. -/
theorem hierarchyViolations_eq_nil_iff :
    s.hierarchyViolations = [] ↔ Hierarchy records childrenOf := by
  rw [hierarchyViolations, h.processes_eq, List.flatMap_eq_nil_iff]
  constructor
  · intro hnothing
    have hparts := fun p hp => List.append_eq_nil_iff.mp (hnothing p hp)
    constructor
    · intro p hp
      exact (h.parentViolations_eq_nil_iff p).mp (List.append_eq_nil_iff.mp (hparts p hp).1).1
    · intro p hp
      exact (h.childViolations_eq_nil_iff hp).mp (List.append_eq_nil_iff.mp (hparts p hp).1).2
    · intro p hp hcycle
      exact (h.ancestryViolations_eq_nil_iff hp).mp (hparts p hp).2 ⟨p.pid, .refl, hcycle⟩
  · intro hhierarchy p hp
    rw [(h.parentViolations_eq_nil_iff p).mpr (hhierarchy.parents p hp),
      (h.childViolations_eq_nil_iff hp).mpr (hhierarchy.children p hp),
      (h.ancestryViolations_eq_nil_iff hp).mpr (hhierarchy.not_goesRound p.pid)]
    rfl

end Listed

/-- Whatever the lists of children are, a family of them comes to its ends. -/
lemma listed_of_family (hroster : s.roster.WellFormed)
    (hchildren : Children.Family s.links s.roster.childListOf childrenOf) :
    s.Listed s.processes childrenOf := by
  have hmem := fun p => hroster.mem_toList (p := p)
  have hsorted := hroster.sorted
  obtain ⟨xs, hchain⟩ := hroster
  obtain ⟨items, hshared, hitems⟩ := hchildren
  refine ⟨⟨xs, none, hchain.path, rfl, hchain.toList.symm, fun pid slot => ?_⟩, hsorted, fun p hp => ?_⟩
  · rw [hchain.index]
    simp only [Roster.bare, List.mem_map, Prod.mk.injEq]
    constructor
    · rintro ⟨_, ⟨e, he, rfl, rfl⟩, hpid⟩
      exact ⟨e.2, he, hpid⟩
    · rintro ⟨p, hp, hpid⟩
      exact ⟨_, ⟨_, hp, rfl, rfl⟩, hpid⟩
  · refine ⟨items p.pid, none, ?_, rfl, (hitems p.pid).1.symm⟩
    have hpath := hshared.path p.pid
    rwa [Roster.childListOf_eq ((hmem p).mp hp)] at hpath

/-- Gives a process another parent, and nothing else. -/
def reparent (s : Supervisor μ space) (pid : Pid) (parent : Option Pid) : Supervisor μ space :=
  { s with roster := s.roster.modify pid fun p => { p with parent := parent } }

lemma Shows.listed_reparent {v : View μ space} (h : s.Shows v) (pid : Pid) (parent : Option Pid) :
    (s.reparent pid parent).Listed (s.reparent pid parent).processes v.childrenOf := by
  have hparents := h.roster.childListOf_modify pid (f := fun p => { p with parent := parent })
    (fun _ => rfl) fun _ => rfl
  apply listed_of_family
  · exact h.roster.modify pid (fun _ => rfl) fun _ => rfl
  · unfold reparent
    rw [hparents]
    exact h.children

/-- The checks of the hierarchy are sound and complete. The way up from each process comes to an end,
and is given up exactly if it goes round. -/
theorem Listed.checks_hierarchy (h : s.Listed records childrenOf) :
    (s.hierarchyViolations = [] ↔ Hierarchy records childrenOf) ∧
    ∀ p ∈ records, ∃ met givenUp, Walk s.roster.parentOf p.pid s.roster.size 0 p.parent met givenUp ∧
      met.length ≤ s.roster.size + 1 ∧
      s.ancestryViolations p = (if givenUp then [.ownAncestor p.pid] else []) ∧
      (givenUp = true ↔ GoesRound records p.pid) := by
  refine ⟨h.hierarchyViolations_eq_nil_iff, fun p hp => ?_⟩
  obtain ⟨met, hwalk, hlength⟩ := exists_walk s p.pid p.parent (Nat.zero_add s.roster.size)
  exact ⟨met, _, hwalk, hlength, rfl, h.returnsTo_iff hp⟩

/-- Of three processes, each the parent of the next, the first is made a child of the second. The way
up from the third goes round without coming back to it, and is given up. -/
theorem checks_hierarchy_of_cycle : ∃ (s : Supervisor HostMemory HostSpace) (childrenOf : Pid → List Pid),
    s.Listed s.processes childrenOf ∧
    s.processes.map (fun p => (p.pid, p.parent)) = [(1, some 2), (2, some 1), (3, some 2)] ∧
    s.hierarchyViolations ≠ [] ∧ ¬ Hierarchy s.processes childrenOf ∧ GoesRound s.processes 3 ∧
    ∃ met, Walk s.roster.parentOf 3 3 0 (some 2) met true ∧ met.length ≤ 4 := by
  have hbegun : Session.Run HostMemory.service HostMemory.Adjusted ⟨8, 4, 4, 4, .lenient⟩ .empty [] _ := .start
  have hrun := ((hbegun.perform (.create none 0)).perform (.create (some 1) 0)).perform (.create (some 2) 0)
  obtain ⟨v, hshows, -⟩ := hrun.shows
  obtain ⟨s, childrenOf, hlisted, hparents⟩ : ∃ (s : Supervisor HostMemory HostSpace) (childrenOf : _),
      s.Listed s.processes childrenOf ∧
      s.processes.map (fun p => (p.pid, p.parent)) = [(1, some 2), (2, some 1), (3, some 2)] :=
    ⟨_, _, Shows.listed_reparent hshows 1 (some 2), by decide +kernel⟩
  obtain ⟨hchecks, hwalks⟩ := hlisted.checks_hierarchy
  have hnames : ∀ {child parent : Pid}, Names s.processes child parent ↔
      (child, some parent) ∈ [(1, some 2), (2, some 1), (3, some 2)] := by
    intro child parent
    rw [← hparents, List.mem_map]
    simp [Names]
  have hround : GoesRound s.processes 3 := by
    have hdown : Names s.processes 2 1 := hnames.mpr (by decide)
    have hup : Names s.processes 1 2 := hnames.mpr (by decide)
    exact ⟨2, .single (hnames.mpr (by decide)), .head hdown (.single hup)⟩
  have hnot : ¬ Hierarchy s.processes childrenOf := fun hhierarchy => hhierarchy.not_goesRound 3 hround
  have hsize : s.roster.size = 3 := by
    have hlength := congrArg List.length hparents
    rwa [List.length_map, ← hlisted.size_eq] at hlength
  obtain ⟨p, hp, hpid, hparent⟩ : Names s.processes 3 2 := hnames.mpr (by decide)
  obtain ⟨met, givenUp, hwalk, hlength, -, hgivenUp⟩ := hwalks p hp
  rw [hpid] at hgivenUp hwalk
  rw [hparent, hsize, hgivenUp.mpr hround] at hwalk
  rw [hsize] at hlength
  exact ⟨s, childrenOf, hlisted, hparents, mt hchecks.mp hnot, hnot, hround, met, hwalk, hlength⟩

end Supervisor

end Uniprocessor
