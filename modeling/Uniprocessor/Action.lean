import Uniprocessor.Journal

/-!
# Actions

An action changes a state, may be refused, and reports events on the way. What it changed and
reported before a refusal stays. A halt is a refusal that nothing recovers from.
-/

namespace Uniprocessor

/-- Why the kernel stops for good. -/
inductive Halt where
  /-- A state change outside the life cycle, under the strict policy. -/
  | illegalChange (pid : Pid) (before after : ProcessState)
  /-- A consistency check failed: the first violation and the number of all. -/
  | inconsistent (invariant description : String) (total : Nat)
  deriving DecidableEq

namespace Halt

def message : Halt → String
  | illegalChange pid before after =>
    s!"process {pid}: illegal transition {before.name} -> {after.name}"
  | inconsistent invariant description total =>
    s!"Invariant violated: {invariant} ({description}), {total} violation(s) total"

end Halt

/-- Why an action does not finish. -/
inductive Fault where
  | error (error : Refusal)
  | halt (halt : Halt)
  deriving DecidableEq

/-- What an action yields. -/
structure Outcome (space σ α : Type) where
  result : Except Fault α
  state : σ
  events : List (Event space)

/-- An action on a state `σ` with a result in `α`. -/
def Action (space σ α : Type) : Type := σ → Outcome space σ α

namespace Action

variable {space σ τ α β : Type}

def run (x : Action space σ α) (s : σ) : Outcome space σ α := x s

instance : Monad (Action space σ) where
  pure a := fun s => ⟨.ok a, s, []⟩
  bind x f := fun s =>
    match x s with
    | ⟨.error fault, s, events⟩ => ⟨.error fault, s, events⟩
    | ⟨.ok a, s, events⟩ =>
      match f a s with
      | ⟨result, s, more⟩ => ⟨result, s, events ++ more⟩

instance : MonadStateOf σ (Action space σ) where
  get := fun s => ⟨.ok s, s, []⟩
  set s := fun _ => ⟨.ok (), s, []⟩
  modifyGet f := fun s => let (a, s) := f s; ⟨.ok a, s, []⟩

/-- Refuses with an error. -/
def fail (error : Refusal) : Action space σ α := fun s => ⟨.error (.error error), s, []⟩

/-- Stops the kernel. -/
def halt (reason : Halt) : Action space σ α := fun s => ⟨.error (.halt reason), s, []⟩

/-- Puts events into the journal. -/
def report (events : List (Event space)) : Action space σ Unit := fun s => ⟨.ok (), s, events⟩

def note (notice : Notice) : Action space σ Unit := report [.notice notice]

def noteAll (notices : List Notice) : Action space σ Unit := report (notices.map .notice)

/-- Goes on after a refusal, with the error as a value. A halt is not held up. -/
def attempt (x : Action space σ α) : Action space σ (Except Refusal α) := fun s =>
  match x s with
  | ⟨.ok a, s, events⟩ => ⟨.ok (.ok a), s, events⟩
  | ⟨.error (.error e), s, events⟩ => ⟨.ok (.error e), s, events⟩
  | ⟨.error (.halt h), s, events⟩ => ⟨.error (.halt h), s, events⟩

/-- Takes a value or refuses. -/
def ofExcept : Except Refusal α → Action space σ α
  | .ok a => pure a
  | .error e => fail e

/-- Takes a present value or refuses. -/
def ofOption (error : Refusal) : Option α → Action space σ α
  | some a => pure a
  | none => fail error

/-- Runs an action on a part of the state. -/
def within (part : τ → σ) (put : τ → σ → τ) (x : Action space σ α) : Action space τ α :=
  fun t =>
    match x (part t) with
    | ⟨result, s, events⟩ => ⟨result, put t s, events⟩

@[simp]
theorem run_pure (a : α) (s : σ) :
    (pure a : Action space σ α).run s = ⟨.ok a, s, []⟩ := rfl

theorem run_bind (x : Action space σ α) (f : α → Action space σ β) (s : σ) :
    (x >>= f).run s =
      match x.run s with
      | ⟨.error fault, s, events⟩ => ⟨.error fault, s, events⟩
      | ⟨.ok a, s, events⟩ =>
        ⟨((f a).run s).result, ((f a).run s).state, events ++ ((f a).run s).events⟩ := rfl

@[ext]
theorem ext {x y : Action space σ α} (h : ∀ s, x.run s = y.run s) : x = y := funext h

instance : LawfulMonad (Action space σ) :=
  LawfulMonad.mk' _
    (fun x => ext fun s => by
      change (x >>= pure).run s = x.run s
      rw [run_bind]
      rcases x.run s with ⟨_ | _, _, _⟩ <;> simp)
    (fun _ _ => rfl)
    (fun x f g => ext fun s => by
      simp only [run_bind]
      rcases x.run s with ⟨_ | a, s, _⟩
      · rfl
      · dsimp only
        rcases (f a).run s with ⟨_ | _, _, _⟩ <;> simp)

@[simp]
theorem run_map (f : α → β) (x : Action space σ α) (s : σ) :
    (f <$> x).run s = ⟨(x.run s).result.map f, (x.run s).state, (x.run s).events⟩ := by
  rw [map_eq_pure_bind, run_bind]
  rcases x.run s with ⟨_ | _, _, _⟩ <;> simp [Except.map]

@[simp]
theorem run_get (s : σ) : (get : Action space σ σ).run s = ⟨.ok s, s, []⟩ := rfl

@[simp]
theorem run_set (s t : σ) : (set t : Action space σ Unit).run s = ⟨.ok (), t, []⟩ := rfl

@[simp]
theorem run_modify (f : σ → σ) (s : σ) :
    (modify f : Action space σ Unit).run s = ⟨.ok (), f s, []⟩ := rfl

@[simp]
theorem run_fail (e : Refusal) (s : σ) :
    (fail e : Action space σ α).run s = ⟨.error (.error e), s, []⟩ := rfl

@[simp]
theorem run_halt (h : Halt) (s : σ) :
    (halt h : Action space σ α).run s = ⟨.error (.halt h), s, []⟩ := rfl

@[simp]
theorem run_report (events : List (Event space)) (s : σ) :
    (report events).run s = ⟨.ok (), s, events⟩ := rfl

theorem run_within (part : τ → σ) (put : τ → σ → τ) (x : Action space σ α) (t : τ) :
    (within part put x).run t =
      ⟨(x.run (part t)).result, put t (x.run (part t)).state, (x.run (part t)).events⟩ := rfl

end Action

end Uniprocessor
