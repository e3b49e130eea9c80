import Uniprocessor.Proofs.Refinement
import Uniprocessor.Session

/-!
# Actions under either policy

The policy for changes of state that the life cycle does not allow is on record in the state. Here an
action is run twice, from states that differ in the policy only. Either both runs go the same way and
meet no such change, or the lenient one reports the change as ignored and goes on where the strict one
halts.
-/

namespace Uniprocessor

namespace Event

variable {space : Type}

/-- The changes of state that are reported as ignored, in order. -/
def ignored (events : List (Event space)) : List (Pid × ProcessState × ProcessState) :=
  events.filterMap fun
    | .notice (.changeIgnored pid before after) => some (pid, before, after)
    | _ => none

@[simp]
lemma ignored_append (es fs : List (Event space)) : ignored (es ++ fs) = ignored es ++ ignored fs :=
  List.filterMap_append

/-- Notices of other kinds. -/
lemma ignored_notices {notices : List Notice}
    (h : ∀ pid before after, .changeIgnored pid before after ∉ notices) :
    ignored (notices.map .notice : List (Event space)) = [] := by
  rw [ignored, List.filterMap_map, List.filterMap_eq_nil_iff]
  intro notice hnotice
  rw [Function.comp_apply]
  split
  · rename_i pid before after heq
    cases heq
    exact absurd hnotice (h pid before after)
  · rfl

end Event

namespace Outcome

variable {space σ α : Type}

/-- The changes of state that were ignored on the way, in order. -/
def ignored (o : Outcome space σ α) : List (Pid × ProcessState × ProcessState) :=
  Event.ignored o.events

/-- Whether the kernel halted. -/
def Halted (o : Outcome space σ α) : Prop := ∃ reason, o.result = .error (.halt reason)

end Outcome

/-- States with a policy on record. -/
class Governed (σ : Type) where
  /-- The same state, but for the policy. -/
  under : Strictness → σ → σ
  under_under (policy policy' : Strictness) (s : σ) : under policy (under policy' s) = under policy s

open Governed

attribute [simp] under_under

variable {μ space σ τ α β : Type}

instance : Governed (Roster space) where
  under policy r := { r with policy := policy }
  under_under _ _ _ := rfl

instance : Governed (Supervisor μ space) where
  under policy s := { s with
    limits := { s.limits with policy := policy }, roster := under policy s.roster }
  under_under _ _ _ := rfl

instance : Governed (Dispatcher μ space) where
  under policy s := { s with supervisor := under policy s.supervisor }
  under_under _ _ _ := rfl

instance : Governed (Session μ space) where
  under policy s := { s with dispatcher := under policy s.dispatcher }
  under_under _ _ _ := rfl

instance [Governed σ] : Governed (σ × τ) where
  under policy s := (under policy s.1, s.2)
  under_under policy policy' s := by rw [under_under]

/-- What an action comes to under the strict policy, and what it comes to under the lenient one. -/
inductive Tally [Governed σ] (rejects : Prop) : Outcome space σ α → Outcome space σ α → Prop
  | same {result s events} : (∀ reason, result ≠ .error (.halt reason)) → Event.ignored events = [] →
      Tally rejects ⟨result, under .strict s, events⟩ ⟨result, under .lenient s, events⟩
  | rejected {pid before after result s t es fs} : rejects →
      (∀ reason, result ≠ .error (.halt reason)) → Event.ignored es = [] →
      (Event.ignored fs).head? = some (pid, before, after) →
      Tally rejects ⟨.error (.halt (.illegalChange pid before after)), under .strict s, es⟩
        ⟨result, under .lenient t, fs⟩

lemma Tally.mono [Governed σ] {rejects rejects' : Prop} {u v : Outcome space σ α}
    (h : Tally rejects u v) (himp : rejects → rejects') : Tally rejects' u v := by
  cases h with
  | same hresult hevents => exact .same hresult hevents
  | rejected hrejects hresult hes hfs => exact .rejected (himp hrejects) hresult hes hfs

lemma Tally.not_halted [Governed σ] {rejects : Prop} {u v : Outcome space σ α} (h : Tally rejects u v) :
    ¬v.Halted := by
  rintro ⟨reason, hhalt⟩
  cases h with
  | same hresult => exact hresult reason hhalt
  | rejected _ hresult => exact hresult reason hhalt

/-- The strict run halts at the first change that the lenient one ignores. -/
lemma Tally.result_eq_halt [Governed σ] {rejects : Prop} {u v : Outcome space σ α}
    (h : Tally rejects u v) {pid : Pid} {before after : ProcessState}
    (hfirst : v.ignored.head? = some (pid, before, after)) :
    u.result = .error (.halt (.illegalChange pid before after)) := by
  rw [Outcome.ignored] at hfirst
  cases h with
  | same _ hevents =>
    rw [hevents] at hfirst
    cases hfirst
  | rejected _ _ _ hfs =>
    rw [hfs] at hfirst
    cases hfirst
    rfl

/-- Where no change can be turned down, none is. -/
lemma Tally.quiet [Governed σ] {rejects : Prop} {u v : Outcome space σ α} (h : Tally rejects u v)
    (hallowed : ¬rejects) : ¬u.Halted ∧ v.ignored = [] := by
  cases h with
  | same hresult hevents => exact ⟨fun ⟨reason, hhalt⟩ => hresult reason hhalt, hevents⟩
  | rejected hrejects => exact absurd hrejects hallowed

/-- `x` under the strict policy and `y` under the lenient one tally, from whatever state on. Only where
`rejects` holds a change of state can be turned down. -/
def Tallies [Governed σ] (rejects : Prop) (x y : Action space σ α) : Prop :=
  ∀ s, Tally rejects (x.run (under .strict s)) (y.run (under .lenient s))

namespace Tallies

open Uniprocessor.Action

variable [Governed σ] [Governed τ] {rejects rejects' : Prop} {x y : Action space σ α}

lemma mono (h : Tallies rejects x y) (himp : rejects → rejects') : Tallies rejects' x y :=
  fun s => (h s).mono himp

/-- An action that the policy has no part in. -/
lemma of_run
    (hrun : ∀ policy s, x.run (under policy s) = { x.run s with state := under policy (x.run s).state })
    (hresult : ∀ s reason, (x.run s).result ≠ .error (.halt reason))
    (hevents : ∀ s, Event.ignored (x.run s).events = []) : Tallies rejects x x := by
  intro s
  rw [hrun, hrun]
  exact .same (hresult s) (hevents s)

lemma pure (a : α) : Tallies rejects (Pure.pure a : Action space σ α) (Pure.pure a) :=
  fun s => .same (s := s) nofun rfl

lemma fail (e : Refusal) : Tallies rejects (Action.fail e : Action space σ α) (Action.fail e) :=
  fun s => .same (s := s) nofun rfl

/-- What would come after a refusal does not matter. -/
lemma fail_bind (e : Refusal) {f g : α → Action space σ β} :
    Tallies rejects (Action.fail e >>= f) (Action.fail e >>= g) :=
  fun s => .same (s := s) nofun rfl

lemma ite {c : Prop} [Decidable c] {x' y' : Action space σ α} (h : Tallies rejects x y)
    (h' : Tallies rejects x' y') : Tallies rejects (if c then x else x') (if c then y else y') := by
  split
  · exact h
  · exact h'

/-- A rejected change stays the first one, whatever the lenient run does after it. -/
theorem bind {f g : α → Action space σ β} (h : Tallies rejects x y)
    (hnext : ∀ a, Tallies rejects (f a) (g a)) : Tallies rejects (x >>= f) (y >>= g) := by
  intro s
  rw [run_bind, run_bind]
  have hfirst := h s
  generalize x.run (under .strict s) = u at hfirst
  generalize y.run (under .lenient s) = v at hfirst
  cases hfirst with
  | @same result t events hresult hevents =>
    cases result with
    | error fault =>
      exact .same (fun reason heq => hresult reason (congrArg _ (Except.error.inj heq))) hevents
    | ok a =>
      have hrest := hnext a t
      dsimp only
      generalize (f a).run (under .strict t) = u at hrest
      generalize (g a).run (under .lenient t) = v at hrest
      cases hrest with
      | same hresult' hevents' => exact .same hresult' (by simp [hevents, hevents'])
      | rejected hrejects hresult' hes hfs =>
        exact .rejected hrejects hresult' (by simp [hevents, hes]) (by simpa [hevents] using hfs)
  | @rejected pid before after result _ t es fs hrejects hresult hes hfs =>
    cases result with
    | error fault =>
      exact .rejected hrejects (fun reason heq => hresult reason (congrArg _ (Except.error.inj heq)))
        hes hfs
    | ok a =>
      have hrest := hnext a t
      dsimp only
      generalize (f a).run (under .strict t) = u at hrest
      generalize hv : (g a).run (under .lenient t) = v at hrest
      have hhead : (Event.ignored (fs ++ v.events)).head? = some (pid, before, after) := by
        rw [Event.ignored_append, List.head?_append, hfs, Option.some_or]
      cases hrest with
      | same hresult' => exact .rejected hrejects hresult' hes hhead
      | rejected _ hresult' => exact .rejected hrejects hresult' hes hhead

/-- Reading the state gives states that differ in the policy. -/
lemma get_bind {f g : σ → Action space σ β}
    (h : ∀ s, Tallies rejects (f (under .strict s)) (g (under .lenient s))) :
    Tallies rejects (get >>= f) (get >>= g) := by
  intro s
  rw [run_bind, run_bind]
  have hrest := h s s
  dsimp only [run_get]
  generalize (f (under .strict s)).run (under .strict s) = u at hrest
  generalize (g (under .lenient s)).run (under .lenient s) = v at hrest
  cases hrest with
  | same hresult hevents => exact .same hresult hevents
  | rejected hrejects hresult hes hfs => exact .rejected hrejects hresult hes hfs

lemma set (t : σ) : Tallies rejects (MonadStateOf.set (under .strict t) : Action space σ PUnit)
    (MonadStateOf.set (under .lenient t)) :=
  fun _ => .same (s := t) nofun rfl

/-- A change of the state that the policy has no part in. -/
lemma update {f : σ → σ} (hf : ∀ policy s, f (under policy s) = under policy (f s)) :
    Tallies rejects (modify f : Action space σ Unit) (modify f) := by
  intro s
  rw [run_modify, run_modify, hf, hf]
  exact .same nofun rfl

lemma report {events : List (Event space)} (h : Event.ignored events = []) :
    Tallies rejects (Action.report events : Action space σ Unit) (Action.report events) :=
  fun s => .same (s := s) nofun h

lemma noteAll {notices : List Notice} (h : ∀ pid before after, .changeIgnored pid before after ∉ notices) :
    Tallies rejects (Action.noteAll notices : Action space σ Unit) (Action.noteAll notices) :=
  report (Event.ignored_notices h)

lemma note {notice : Notice} (h : ∀ pid before after, .changeIgnored pid before after ≠ notice) :
    Tallies rejects (Action.note notice : Action space σ Unit) (Action.note notice) := by
  have hnotices : ∀ pid before after, .changeIgnored pid before after ∉ [notice] := by simpa using h
  exact noteAll hnotices

lemma ofExcept (x : Except Refusal α) :
    Tallies rejects (Action.ofExcept x : Action space σ α) (Action.ofExcept x) := by
  cases x with
  | ok a => exact pure a
  | error e => exact fail e

lemma ofOption (e : Refusal) (x : Option α) :
    Tallies rejects (Action.ofOption e x : Action space σ α) (Action.ofOption e x) := by
  cases x with
  | some a => exact pure a
  | none => exact fail e

lemma attempt (h : Tallies rejects x y) :
    Tallies rejects (Action.attempt x) (Action.attempt y) := by
  intro s
  have hrun := h s
  simp only [Action.run, Action.attempt] at hrun ⊢
  generalize x (under .strict s) = u at hrun
  generalize y (under .lenient s) = v at hrun
  cases hrun with
  | @same result _ _ hresult hevents =>
    rcases result with (e | reason) | a
    · exact .same (by simp) hevents
    · exact absurd rfl (hresult reason)
    · exact .same (by simp) hevents
  | @rejected _ _ _ result _ _ _ _ hrejects hresult hes hfs =>
    rcases result with (e | reason) | a
    · exact .rejected hrejects (by simp) hes hfs
    · exact absurd rfl (hresult reason)
    · exact .rejected hrejects (by simp) hes hfs

/-- An action on a part of the state that has the policy on record. -/
lemma within {part : τ → σ} {put : τ → σ → τ} (h : Tallies rejects x y)
    (hpart : ∀ policy t, part (under policy t) = under policy (part t))
    (hput : ∀ policy t s, put (under policy t) (under policy s) = under policy (put t s)) :
    Tallies rejects (Action.within part put x) (Action.within part put y) := by
  intro t
  have hrun := h (part t)
  rw [run_within, run_within, hpart, hpart]
  generalize x.run (under .strict (part t)) = u at hrun
  generalize y.run (under .lenient (part t)) = v at hrun
  cases hrun with
  | same hresult hevents =>
    dsimp only
    rw [hput, hput]
    exact .same hresult hevents
  | rejected hrejects hresult hes hfs =>
    dsimp only
    rw [hput, hput]
    exact .rejected hrejects hresult hes hfs

end Tallies

end Uniprocessor
