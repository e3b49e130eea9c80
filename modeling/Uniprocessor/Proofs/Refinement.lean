import Mathlib.Tactic.Lemma
import Uniprocessor.Action

/-!
# Refinement of actions

An action refines another one, on states of another kind, when from related states both end in
the same way: with related results or the same fault, in related states, and with the same calls
of the memory service. Notices do not count. Refinements compose along the steps of an action.
-/

namespace Uniprocessor

namespace Event

variable {space : Type}

/-- The calls of the memory service among events, in order. -/
def calls (events : List (Event space)) : List (MemoryCall space) := events.filterMap call?

@[simp]
theorem calls_nil : calls ([] : List (Event space)) = [] := rfl

@[simp]
theorem calls_append (xs ys : List (Event space)) : calls (xs ++ ys) = calls xs ++ calls ys :=
  List.filterMap_append

@[simp]
theorem calls_notice (n : Notice) : calls [(.notice n : Event space)] = [] := rfl

@[simp]
theorem calls_notices (ns : List Notice) : calls (ns.map (.notice : Notice → Event space)) = [] := by
  simp [calls, List.filterMap_map, call?, Function.comp_def]

end Event

namespace Action

variable {space σ α β : Type}

@[simp]
lemma run_noteAll (notices : List Notice) (s : σ) :
    (noteAll notices : Action space σ Unit).run s = ⟨.ok (), s, notices.map .notice⟩ := rfl

@[simp]
lemma run_ofOption_some (e : Refusal) (a : α) (s : σ) :
    (ofOption e (some a) : Action space σ α).run s = ⟨.ok a, s, []⟩ := rfl

variable {x : Action space σ α} {f : α → Action space σ β} {s t : σ} {events : List (Event space)}

/-- A first step that reports nothing. -/
lemma run_bind_quiet {a : α} (h : x.run s = ⟨.ok a, t, []⟩) : (x >>= f).run s = (f a).run t := by
  rw [run_bind, h]
  rfl

lemma run_bind_error {fault : Fault} (h : x.run s = ⟨.error fault, t, events⟩) :
    (x >>= f).run s = ⟨.error fault, t, events⟩ := by
  rw [run_bind, h]

lemma run_attempt_ok {a : α} (h : x.run s = ⟨.ok a, t, events⟩) :
    (attempt x).run s = ⟨.ok (.ok a), t, events⟩ := by
  rw [run] at h
  rw [run, attempt, h]

lemma run_attempt_error {e : Refusal} (h : x.run s = ⟨.error (.error e), t, events⟩) :
    (attempt x).run s = ⟨.ok (.error e), t, events⟩ := by
  rw [run] at h
  rw [run, attempt, h]

end Action

variable {space σ τ α β γ δ : Type}

/-- Two outcomes are alike in all but the notices. -/
inductive Agree (S : σ → τ → Prop) (R : α → β → Prop) :
    Outcome space σ α → Outcome space τ β → Prop
  | ok {a b s t es fs} : R a b → S s t → Event.calls es = Event.calls fs →
      Agree S R ⟨.ok a, s, es⟩ ⟨.ok b, t, fs⟩
  | fault {s t es fs} (f : Fault) : S s t → Event.calls es = Event.calls fs →
      Agree S R ⟨.error f, s, es⟩ ⟨.error f, t, fs⟩

/-- `x` does to `S`-related states what `y` does, with `R`-related results. -/
def Refines (S : σ → τ → Prop) (R : α → β → Prop) (x : Action space σ α) (y : Action space τ β) :
    Prop :=
  ∀ s t, S s t → Agree S R (x.run s) (y.run t)

namespace Agree

variable {S : σ → τ → Prop} {R : α → β → Prop} {Q : γ → δ → Prop}

lemma state {x : Outcome space σ α} {y : Outcome space τ β} (h : Agree S R x y) :
    S x.state y.state := by
  cases h with
  | ok _ hs => exact hs
  | fault _ hs => exact hs

lemma calls_eq {x : Outcome space σ α} {y : Outcome space τ β} (h : Agree S R x y) :
    Event.calls x.events = Event.calls y.events := by
  cases h with
  | ok _ _ hcalls => exact hcalls
  | fault _ _ hcalls => exact hcalls

/-- Results that are equal are the same result. -/
lemma result_eq {x : Outcome space σ α} {y : Outcome space τ α} (h : Agree S Eq x y) :
    x.result = y.result := by
  cases h with
  | ok hr => rw [hr]
  | fault => rfl

/-- Agreement goes on from one step to the next, also when more is known of the states in
between. -/
theorem bind_of_imp {T : σ → τ → Prop} {x : Action space σ α} {y : Action space τ β}
    {f : α → Action space σ γ} {g : β → Action space τ δ} {s : σ} {t : τ}
    (h : Agree T R (x.run s) (y.run t)) (hTS : ∀ s t, T s t → S s t)
    (hnext : ∀ a b s' t', R a b → T s' t' → Agree S Q ((f a).run s') ((g b).run t')) :
    Agree S Q ((x >>= f).run s) ((y >>= g).run t) := by
  rw [Action.run_bind, Action.run_bind]
  generalize x.run s = x at h
  generalize y.run t = y at h
  cases h with
  | @ok a b s' t' es fs hr hs hcalls =>
    dsimp only
    have hrest := hnext a b s' t' hr hs
    generalize (f a).run s' = u at hrest
    generalize (g b).run t' = v at hrest
    cases hrest with
    | ok hr' hs' hcalls' => exact .ok hr' hs' (by simp [hcalls, hcalls'])
    | fault f hs' hcalls' => exact .fault f hs' (by simp [hcalls, hcalls'])
  | fault f hs hcalls => exact .fault f (hTS _ _ hs) hcalls

theorem bind {x : Action space σ α} {y : Action space τ β} {f : α → Action space σ γ}
    {g : β → Action space τ δ} {s : σ} {t : τ} (h : Agree S R (x.run s) (y.run t))
    (hnext : ∀ a b s' t', R a b → S s' t' → Agree S Q ((f a).run s') ((g b).run t')) :
    Agree S Q ((x >>= f).run s) ((y >>= g).run t) :=
  h.bind_of_imp (fun _ _ hs => hs) hnext

/-- A first step that reports nothing but notices does not matter. -/
lemma bind_left {x : Action space σ γ} {f : γ → Action space σ α} {y : Outcome space τ β} {s s' : σ}
    {c : γ} {notices : List Notice} (hx : x.run s = ⟨.ok c, s', notices.map .notice⟩)
    (h : Agree S R ((f c).run s') y) : Agree S R ((x >>= f).run s) y := by
  rw [Action.run_bind, hx]
  dsimp only
  generalize (f c).run s' = u at h
  cases h with
  | ok hr hs hcalls => exact .ok hr hs (by simpa using hcalls)
  | fault f hs hcalls => exact .fault f hs (by simpa using hcalls)

lemma noteAll {notices : List Notice} {x : Unit → Action space σ α} {y : Outcome space τ β} {s : σ}
    (h : Agree S R ((x ()).run s) y) : Agree S R ((Action.noteAll notices >>= x).run s) y :=
  bind_left (Action.run_noteAll notices s) h

lemma note {notice : Notice} {x : Unit → Action space σ α} {y : Outcome space τ β} {s : σ}
    (h : Agree S R ((x ()).run s) y) : Agree S R ((Action.note notice >>= x).run s) y := by
  have hrun : (Action.note notice : Action space σ Unit).run s =
      ⟨.ok (), s, [notice].map .notice⟩ := rfl
  exact bind_left hrun h

lemma note_if {c : Prop} [Decidable c] {notice : Notice} {x : Unit → Action space σ α}
    {y : Outcome space τ β} {s : σ} (h : Agree S R ((x ()).run s) y) :
    Agree S R (((if c then Action.note notice else Pure.pure ()) >>= x).run s) y := by
  split
  · exact h.note
  · rw [pure_bind]
    exact h

end Agree

namespace Refines

variable {S : σ → τ → Prop} {R : α → β → Prop} {Q : γ → δ → Prop}

lemma pure {a : α} {b : β} (h : R a b) :
    Refines S R (Pure.pure a : Action space σ α) (Pure.pure b : Action space τ β) :=
  fun _ _ hs => .ok h hs rfl

lemma fail (e : Refusal) : Refines S R (Action.fail e : Action space σ α) (Action.fail e) :=
  fun _ _ hs => .fault (.error e) hs rfl

/-- What would come after a refusal does not matter. -/
lemma fail_bind (e : Refusal) {f : α → Action space σ γ} {g : β → Action space τ δ} :
    Refines S Q (Action.fail e >>= f) (Action.fail e >>= g) :=
  fun _ _ hs => .fault (.error e) hs rfl

lemma update {f : σ → σ} {g : τ → τ} (h : ∀ s t, S s t → S (f s) (g t)) :
    Refines S Eq (modify f : Action space σ Unit) (modify g) :=
  fun s t hs => .ok rfl (h s t hs) rfl

theorem bind {x : Action space σ α} {y : Action space τ β} {f : α → Action space σ γ}
    {g : β → Action space τ δ} (h : Refines S R x y) (hnext : ∀ a b, R a b → Refines S Q (f a) (g b)) :
    Refines S Q (x >>= f) (y >>= g) :=
  fun s t hs => (h s t hs).bind fun a b s' t' hr hs' => hnext a b hr s' t' hs'

/-- Reading the state gives related states. -/
lemma get_bind {f : σ → Action space σ γ} {g : τ → Action space τ δ}
    (h : ∀ s t, S s t → Refines S Q (f s) (g t)) :
    Refines S Q ((get : Action space σ σ) >>= f) ((get : Action space τ τ) >>= g) :=
  bind (R := S) (fun _ _ hs => .ok hs hs rfl) h

lemma note {notice : Notice} {x : Unit → Action space σ α} {y : Action space τ β}
    (h : Refines S R (x ()) y) : Refines S R (Action.note notice >>= x) y :=
  fun s t hs => (h s t hs).note

lemma note_last {notice : Notice} {x : Action space σ Unit} {y : Action space τ Unit}
    (h : Refines S Eq x y) : Refines S Eq (x >>= fun _ => Action.note notice) y := by
  intro s t hs
  have hrun := h s t hs
  rw [Action.run_bind]
  generalize x.run s = u at hrun
  generalize y.run t = v at hrun
  cases hrun with
  | ok hr hs' hcalls => exact .ok rfl hs' (by simpa [Action.note] using hcalls)
  | fault f hs' hcalls => exact .fault f hs' hcalls

lemma ofExcept (x : Except Refusal α) :
    Refines S Eq (Action.ofExcept x : Action space σ α) (Action.ofExcept x) := by
  cases x with
  | ok a => exact pure rfl
  | error e => exact fail e

lemma attempt {x : Action space σ α} {y : Action space τ β} (h : Refines S R x y) :
    Refines S (fun a b => (∃ a' b', a = .ok a' ∧ b = .ok b' ∧ R a' b') ∨ ∃ e, a = .error e ∧ b = .error e)
      (Action.attempt x) (Action.attempt y) := by
  intro s t hs
  have hrun := h s t hs
  simp only [Action.run, Action.attempt] at hrun ⊢
  generalize x s = u at hrun
  generalize y t = v at hrun
  cases hrun with
  | ok hr hs' hcalls => exact .ok (.inl ⟨_, _, rfl, rfl, hr⟩) hs' hcalls
  | fault f hs' hcalls =>
    cases f with
    | error e => exact .ok (.inr ⟨e, rfl, rfl⟩) hs' hcalls
    | halt f => exact .fault (.halt f) hs' hcalls

/-- An action on a part of the state refines what it refines on the part. -/
lemma within {ρ : Type} {T : ρ → τ → Prop} {part : ρ → σ} {put : ρ → σ → ρ}
    {x : Action space σ α} {y : Action space τ β} (h : Refines S R x y)
    (hpart : ∀ s t, T s t → S (part s) t)
    (hput : ∀ s t s' t', T s t → S s' t' → T (put s s') t') :
    Refines T R (Action.within part put x) y := by
  intro s t hs
  have hrun := h (part s) t (hpart s t hs)
  rw [Action.run_within]
  generalize x.run (part s) = u at hrun
  generalize hv : y.run t = v at hrun ⊢
  cases hrun with
  | ok hr hs' hcalls => exact .ok hr (hput _ _ _ _ hs hs') hcalls
  | fault f hs' hcalls => exact .fault f (hput _ _ _ _ hs hs') hcalls

end Refines

end Uniprocessor
