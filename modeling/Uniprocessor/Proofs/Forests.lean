import Mathlib.Data.List.Perm.Subperm
import Mathlib.Logic.Relation
import Uniprocessor.Proofs.Views

/-!
# The forest of processes

The processes of a view form a forest: a process lists exactly those that name it as their parent,
each once, and nobody is above themselves. New processes, new links between processes that are
not related, and the removal of processes keep it so. In a forest the way up from a process is no
longer than the table is large, so a bounded walk finds every ancestor.
-/

namespace Uniprocessor

open Relation

namespace View

variable {μ space : Type} {v w : View μ space}

/-- One step up, from a process to its parent. -/
def Up (v : View μ space) (child parent : Pid) : Prop := v.parentOf child = some parent

/-- Parents and children name each other, and nobody is their own ancestor. -/
structure Forest (v : View μ space) : Prop where
  mirrored : ∀ parent child : Nat, child ∈ v.childrenOf parent ↔ v.parentOf child = some parent
  nodup : ∀ pid : Nat, (v.childrenOf pid).Nodup
  acyclic : ∀ pid : Nat, ¬ TransGen v.Up pid pid

/-- Takes a process out together with every link to it. -/
def remove (v : View μ space) (pid : Pid) : View μ space :=
  { v with
    table := (v.table.erase pid).map fun _ p => { p with
      parent := if p.parent = some pid then none else p.parent
      children := p.children.erase pid }
    running := if v.running = some pid then none else v.running }

lemma get?_remove (v : View μ space) (pid q : Nat) :
    (v.remove pid).table[q]? = if q = pid then none else v.table[q]?.map fun p => { p with
      parent := if p.parent = some pid then none else p.parent
      children := p.children.erase pid } := by
  have herase : (v.table.erase pid)[q]? = if q = pid then none else v.table[q]? := v.get?_drop pid q
  rw [remove, Std.ExtTreeMap.getElem?_map, herase]
  split <;> rfl

/-! ### Links of changed views -/

lemma parentOf_eq {pid : Nat} {p : ProcessView space} (hp : v.table[pid]? = some p) :
    v.parentOf pid = p.parent := by
  simp [parentOf, hp]

lemma parentOf_of_not_live {pid : Nat} (hp : v.table[pid]? = none) : v.parentOf pid = none := by
  simp [parentOf, hp]

lemma childrenOf_of_not_live {pid : Nat} (hp : v.table[pid]? = none) : v.childrenOf pid = [] := by
  simp [childrenOf, hp]

lemma live_of_parentOf {child parent : Nat} (h : v.parentOf child = some parent) :
    ∃ p, v.table[child]? = some p := by
  cases hp : v.table[child]? with
  | none => simp [parentOf_of_not_live hp] at h
  | some p => exact ⟨p, rfl⟩

lemma live_of_mem_childrenOf {child parent : Nat} (h : child ∈ v.childrenOf parent) :
    ∃ p, v.table[parent]? = some p := by
  cases hp : v.table[parent]? with
  | none => simp [childrenOf_of_not_live hp] at h
  | some p => exact ⟨p, rfl⟩

lemma parentOf_update (v : View μ space) (pid q : Nat)
    {f : ProcessView space → ProcessView space} (hf : ∀ p, (f p).parent = p.parent) :
    (v.update pid f).parentOf q = v.parentOf q := by
  rw [parentOf, parentOf, get?_update]
  split
  · rename_i hq
    subst hq
    cases v.table[q]? <;> simp [hf]
  · rfl

lemma parentOf_enroll {pid : Nat} (hnew : v.table[pid]? = none) (entry : UInt64) (q : Nat) :
    (v.enroll pid entry).parentOf q = v.parentOf q := by
  rw [parentOf, get?_enroll]
  split
  · rename_i hq
    rw [hq, parentOf_of_not_live hnew]
    rfl
  · rfl

lemma childrenOf_enroll {pid : Nat} (hnew : v.table[pid]? = none) (entry : UInt64) (q : Nat) :
    (v.enroll pid entry).childrenOf q = v.childrenOf q := by
  rw [childrenOf, get?_enroll]
  split
  · rename_i hq
    rw [hq, childrenOf_of_not_live hnew]
    rfl
  · rfl

lemma parentOf_adopt {parent child : Nat} {c : ProcessView space} (hc : v.table[child]? = some c)
    (q : Nat) :
    (v.adopt parent child).parentOf q = if q = child then some parent else v.parentOf q := by
  rw [parentOf, adopt, get?_update]
  split
  · rw [get?_update]
    split
    · rename_i hchild
      simp [← hchild, hc]
    · simp [hc]
  · exact parentOf_update _ _ _ fun _ => rfl

lemma childrenOf_adopt {parent child : Nat} {p : ProcessView space} (hp : v.table[parent]? = some p)
    (q : Nat) :
    (v.adopt parent child).childrenOf q =
      if q = parent then v.childrenOf parent ++ [child] else v.childrenOf q := by
  rw [adopt, childrenOf_update _ child q (by intro _; rfl), childrenOf, get?_update]
  split
  · rw [hp, childrenOf_eq hp]
    rfl
  · rfl

lemma parentOf_remove (v : View μ space) (pid q : Nat) :
    (v.remove pid).parentOf q =
      if q = pid ∨ v.parentOf q = some pid then none else v.parentOf q := by
  rw [parentOf, get?_remove]
  by_cases hq : q = pid
  · simp [hq]
  · rw [if_neg hq]
    cases hp : v.table[q]? with
    | none => simp [parentOf_of_not_live hp]
    | some p => simp [parentOf_eq hp, hq]

lemma childrenOf_remove (v : View μ space) (pid q : Nat) :
    (v.remove pid).childrenOf q = if q = pid then [] else (v.childrenOf q).erase pid := by
  rw [childrenOf, get?_remove]
  split
  · rfl
  · rw [childrenOf]
    cases v.table[q]? <;> rfl

/-! ### Walks towards the root -/

lemma mem_lineageWithin_imp {fuel start x : Nat} (h : x ∈ v.lineageWithin fuel (some start)) :
    ReflTransGen v.Up start x := by
  induction fuel generalizing start with
  | zero => simp [lineageWithin] at h
  | succ fuel ih =>
    rw [lineageWithin, List.mem_cons] at h
    rcases h with rfl | h
    · exact .refl
    · cases hparent : v.parentOf start with
      | none => cases fuel <;> simp [hparent, lineageWithin] at h
      | some parent =>
        rw [hparent] at h
        exact .head hparent (ih h)

/-- Every process on the way is above the ones met before it. -/
lemma lineageWithin_pairwise (v : View μ space) (fuel : Nat) (start : Option Pid) :
    (v.lineageWithin fuel start).Pairwise (TransGen v.Up) := by
  induction fuel generalizing start with
  | zero => simp [lineageWithin]
  | succ fuel ih =>
    cases start with
    | none => simp [lineageWithin]
    | some pid =>
      rw [lineageWithin]
      refine List.pairwise_cons.mpr ⟨fun x hx => ?_, ih _⟩
      cases hparent : v.parentOf pid with
      | none => cases fuel <;> simp [hparent, lineageWithin] at hx
      | some parent =>
        rw [hparent] at hx
        exact .head' hparent (mem_lineageWithin_imp hx)

/-- A walk that ends before its fuel does has met everybody above its start. -/
lemma mem_lineageWithin_of_above {fuel start x : Nat} (habove : ReflTransGen v.Up start x)
    (hlength : (v.lineageWithin fuel (some start)).length < fuel) :
    x ∈ v.lineageWithin fuel (some start) := by
  induction fuel generalizing start with
  | zero => simp at hlength
  | succ fuel ih =>
    rw [lineageWithin, List.length_cons] at hlength
    rw [lineageWithin, List.mem_cons]
    rcases habove.cases_head with heq | ⟨parent, hup, habove⟩
    · exact .inl heq.symm
    · rw [Up] at hup
      rw [hup] at hlength ⊢
      exact .inr (ih habove (by omega))

namespace Forest

lemma live_of_up (h : v.Forest) {child parent : Nat} (hup : v.Up child parent) :
    ∃ p, v.table[parent]? = some p :=
  live_of_mem_childrenOf ((h.mirrored parent child).mpr hup)

lemma live_of_above (h : v.Forest) {pid x : Nat} {p : ProcessView space}
    (hp : v.table[pid]? = some p) (habove : ReflTransGen v.Up pid x) :
    ∃ p, v.table[x]? = some p := by
  rcases habove.cases_tail with heq | ⟨below, -, hup⟩
  · exact ⟨p, heq ▸ hp⟩
  · exact h.live_of_up hup

/-- A walk meets no process twice. -/
lemma nodup_lineageWithin (h : v.Forest) (fuel : Nat) (start : Option Pid) :
    (v.lineageWithin fuel start).Nodup := by
  refine (v.lineageWithin_pairwise fuel start).imp fun {a b} habove heq => ?_
  subst heq
  exact h.acyclic a habove

/-- A walk meets only live processes. -/
lemma length_lineageWithin_le (h : v.Forest) {start : Nat} {p : ProcessView space}
    (hp : v.table[start]? = some p) (fuel : Nat) :
    (v.lineageWithin fuel (some start)).length ≤ v.table.size := by
  have hkeys : v.lineageWithin fuel (some start) ⊆ v.table.keys := by
    intro x hx
    obtain ⟨q, hq⟩ := h.live_of_above hp (mem_lineageWithin_imp hx)
    exact mem_keys.mpr ⟨q, hq⟩
  rw [← Std.ExtTreeMap.length_keys]
  exact ((h.nodup_lineageWithin fuel _).subperm hkeys).length_le

/-- What is passed up from a process to its parent, step by step, comes to an end after as many steps
as there are processes. -/
lemma not_of_passed_up (h : v.Forest) {pid : Nat} {p : ProcessView space} (hp : v.table[pid]? = some p)
    {P : Nat → Nat → Prop}
    (hup : ∀ steps q, P (steps + 1) q → ∃ parent, v.parentOf q = some parent ∧ P steps parent) :
    ¬ P v.table.size pid := by
  have hlength : ∀ (steps q : Nat), P steps q →
      (v.lineageWithin (steps + 1) (some q)).length = steps + 1 := by
    intro steps
    induction steps with
    | zero => exact fun q _ => by simp [lineageWithin]
    | succ steps ih =>
      intro q hq
      obtain ⟨parent, hparent, habove⟩ := hup steps q hq
      rw [lineageWithin, List.length_cons, hparent, ih parent habove]
  intro hpid
  have hle := h.length_lineageWithin_le hp (v.table.size + 1)
  rw [hlength _ _ hpid] at hle
  omega

/-- The lineage of a process consists of the process and its ancestors. -/
theorem mem_lineage (h : v.Forest) {pid x : Nat} : x ∈ v.lineage pid ↔ ReflTransGen v.Up pid x := by
  refine ⟨mem_lineageWithin_imp, fun habove => ?_⟩
  cases hp : v.table[pid]? with
  | none =>
    rcases habove.cases_head with rfl | ⟨parent, hup, -⟩
    · exact List.mem_cons_self
    · rw [Up, parentOf_of_not_live hp] at hup
      cases hup
  | some p =>
    have hlength := h.length_lineageWithin_le hp (v.table.size + 1)
    exact mem_lineageWithin_of_above habove (by omega)

/-! ### Changes that keep the forest -/

lemma ofLimits (limits : Limits) (memory : μ) : (View.ofLimits limits memory : View μ space).Forest where
  mirrored parent child := by simp [View.ofLimits, childrenOf, parentOf]
  nodup pid := by simp [View.ofLimits, childrenOf]
  acyclic pid hcycle := by
    obtain ⟨parent, hup, -⟩ := TransGen.head'_iff.mp hcycle
    simp [Up, View.ofLimits, parentOf] at hup

/-- Only the links matter. -/
lemma congr (h : v.Forest) (hparent : ∀ q : Nat, w.parentOf q = v.parentOf q)
    (hchildren : ∀ q : Nat, w.childrenOf q = v.childrenOf q) : w.Forest where
  mirrored parent child := by rw [hparent, hchildren, h.mirrored]
  nodup pid := by
    rw [hchildren]
    exact h.nodup pid
  acyclic pid hcycle := by
    refine h.acyclic pid (TransGen.mono (fun a b hup => ?_) pid pid hcycle)
    rw [Up, ← hparent]
    exact hup

lemma update (h : v.Forest) (pid : Nat) {f : ProcessView space → ProcessView space}
    (hparent : ∀ p, (f p).parent = p.parent) (hchildren : ∀ p, (f p).children = p.children) :
    (v.update pid f).Forest :=
  h.congr (fun q => parentOf_update v pid q hparent) fun q => childrenOf_update v pid q hchildren

lemma enroll (h : v.Forest) {pid : Nat} (hnew : v.table[pid]? = none) (entry : UInt64) :
    (v.enroll pid entry).Forest :=
  h.congr (parentOf_enroll hnew entry) (childrenOf_enroll hnew entry)

/-- Nobody names a process that is not live. -/
lemma parentOf_ne (h : v.Forest) {pid q : Nat} (hnew : v.table[pid]? = none) :
    v.parentOf q ≠ some pid := by
  intro hparent
  obtain ⟨p, hp⟩ := h.live_of_up hparent
  rw [hnew] at hp
  cases hp

lemma not_mem_childrenOf (h : v.Forest) {pid q : Nat} (hnew : v.table[pid]? = none) :
    pid ∉ v.childrenOf q := by
  rw [h.mirrored, parentOf_of_not_live hnew]
  simp

/-- A new link between a process and one that is not above it closes no cycle. -/
theorem adopt (h : v.Forest) {parent child : Nat} {p c : ProcessView space}
    (hp : v.table[parent]? = some p) (hc : v.table[child]? = some c)
    (hroot : v.parentOf child = none) (hapart : ¬ ReflTransGen v.Up parent child) :
    (v.adopt parent child).Forest where
  mirrored a b := by
    rw [childrenOf_adopt hp, parentOf_adopt hc]
    by_cases ha : a = parent <;> by_cases hb : b = child
    · simp [ha, hb]
    · simp [ha, hb, h.mirrored]
    · rw [if_neg ha, if_pos hb, h.mirrored, hb, hroot]
      simp [Ne.symm ha]
    · rw [if_neg ha, if_neg hb, h.mirrored]
  nodup a := by
    rw [childrenOf_adopt hp]
    split
    · refine List.nodup_append.mpr ⟨h.nodup parent, List.pairwise_singleton _ child, ?_⟩
      rintro x hx y hy rfl
      rw [List.mem_singleton.mp hy, h.mirrored, hroot] at hx
      cases hx
    · exact h.nodup a
  acyclic a := by
    -- a way up in the new view is an old one, or reaches the child and goes on from the parent
    have hsplit : ∀ {x y : Nat}, TransGen (v.adopt parent child).Up x y →
        TransGen v.Up x y ∨ ReflTransGen v.Up x child ∧ ReflTransGen v.Up parent y := by
      intro x y hway
      induction hway with
      | single hup =>
        rw [Up, parentOf_adopt hc] at hup
        split at hup
        · rename_i hx
          cases hup
          exact .inr ⟨hx ▸ .refl, .refl⟩
        · exact .inl (.single hup)
      | @tail y z _ hup ih =>
        rw [Up, parentOf_adopt hc] at hup
        split at hup
        · rename_i hy
          cases hup
          subst hy
          rcases ih with hold | ⟨hbelow, hback⟩
          · exact .inr ⟨hold.to_reflTransGen, .refl⟩
          · exact absurd hback hapart
        · rcases ih with hold | ⟨hbelow, hbeyond⟩
          · exact .inl (hold.tail hup)
          · exact .inr ⟨hbelow, hbeyond.tail hup⟩
    intro hcycle
    rcases hsplit hcycle with hold | ⟨hbelow, hbeyond⟩
    · exact h.acyclic a hold
    · exact hapart (hbeyond.trans hbelow)

/-- A removal adds no links. -/
lemma up_of_remove {pid x y : Nat} (hup : (v.remove pid).Up x y) : v.Up x y := by
  rw [Up, parentOf_remove] at hup
  split at hup
  · cases hup
  · exact hup

/-- Who is below `r` is so by ways that avoid a process which is not. -/
lemma below_remove {pid r : Nat} (hapart : ¬ ReflTransGen v.Up pid r) (q : Nat) :
    ReflTransGen (v.remove pid).Up q r ↔ ReflTransGen v.Up q r := by
  constructor
  · exact ReflTransGen.mono (fun _ _ hup => up_of_remove hup) q r
  · intro hbelow
    induction hbelow using ReflTransGen.head_induction_on with
    | refl => exact .refl
    | @head q m hup hbelow ih =>
      refine .head ?_ ih
      rw [Up, parentOf_remove, if_neg, hup]
      rintro (rfl | hparent)
      · exact hapart (.head hup hbelow)
      · rw [Up, hparent, Option.some_inj] at hup
        exact hapart (hup ▸ hbelow)

/-- Below a process are the process itself and those below its children. -/
lemma below_iff (h : v.Forest) (pid q : Nat) :
    ReflTransGen v.Up q pid ↔ q = pid ∨ ∃ child ∈ v.childrenOf pid, ReflTransGen v.Up q child := by
  constructor
  · intro hbelow
    rcases hbelow.cases_tail with heq | ⟨child, hbelow, hup⟩
    · exact .inl heq.symm
    · exact .inr ⟨child, (h.mirrored pid child).mpr hup, hbelow⟩
  · rintro (rfl | ⟨child, hchild, hbelow⟩)
    · exact .refl
    · exact hbelow.tail ((h.mirrored pid child).mp hchild)

/-- Nobody is above their parent. -/
lemma not_above_child (h : v.Forest) {pid child : Nat} (hchild : child ∈ v.childrenOf pid) :
    ¬ ReflTransGen v.Up pid child :=
  fun habove => h.acyclic pid (.tail' habove ((h.mirrored pid child).mp hchild))

/-- Nobody is above a process without a parent. -/
lemma eq_of_above {pid q : Nat} (hroot : v.parentOf pid = none) (habove : ReflTransGen v.Up pid q) :
    q = pid := by
  rcases habove.cases_head with heq | ⟨parent, hup, -⟩
  · exact heq.symm
  · rw [Up, hroot] at hup
    cases hup

theorem remove (h : v.Forest) (pid : Nat) : (v.remove pid).Forest where
  mirrored parent child := by
    rw [childrenOf_remove, parentOf_remove]
    by_cases hparent : parent = pid
    · subst hparent
      by_cases hchild : child = parent ∨ v.parentOf child = some parent
      · simp [hchild]
      · rw [if_neg hchild]
        simpa using fun heq => hchild (.inr heq)
    · rw [if_neg hparent, (h.nodup parent).mem_erase_iff, h.mirrored]
      by_cases hchild : child = pid
      · simp [hchild]
      · by_cases hup : v.parentOf child = some pid
        · simp [hup, Ne.symm hparent]
        · simp [hchild, hup]
  nodup q := by
    rw [childrenOf_remove]
    split
    · exact List.nodup_nil
    · exact (h.nodup q).erase pid
  acyclic a hcycle := by
    exact h.acyclic a (TransGen.mono (fun _ _ hup => up_of_remove hup) a a hcycle)

end Forest

end View

end Uniprocessor
