import Uniprocessor.Proofs.Refinement

/-!
# Contracts of actions

What an action ensures from a given state on: one condition for when it finishes and one for when
it does not, over the state it reaches and all calls of the memory service made so far. Contracts
compose along the steps of an action, with the calls of every step behind those before it.
-/

namespace Uniprocessor

namespace Action

variable {space σ α β : Type}

/-- After the calls `calls` and from `s` on, the action either yields a result in `post` or stops
with a fault in `stopped`. -/
def Ensures (x : Action space σ α) (calls : List (MemoryCall space)) (s : σ)
    (post : α → List (MemoryCall space) → σ → Prop)
    (stopped : Fault → List (MemoryCall space) → σ → Prop) : Prop :=
  match (x.run s).result with
  | .ok a => post a (calls ++ Event.calls (x.run s).events) (x.run s).state
  | .error f => stopped f (calls ++ Event.calls (x.run s).events) (x.run s).state

/-- Where an action stops that has called nothing and changed nothing. -/
def Unmoved (calls : List (MemoryCall space)) (s : σ) : Fault → List (MemoryCall space) → σ → Prop :=
  fun _ c t => c = calls ∧ t = s

/-- Where an action is refused that has called nothing and changed nothing. -/
def Refused (calls : List (MemoryCall space)) (s : σ) : Fault → List (MemoryCall space) → σ → Prop :=
  fun fault c t => (∃ e, fault = .error e) ∧ Unmoved calls s fault c t

variable {x : Action space σ α} {f : α → Action space σ β} {calls : List (MemoryCall space)}
  {s : σ} {post Q : α → List (MemoryCall space) → σ → Prop}
  {last : β → List (MemoryCall space) → σ → Prop}
  {stopped : Fault → List (MemoryCall space) → σ → Prop}

lemma Ensures.ok {a : α} (h : x.Ensures calls s post stopped) (hresult : (x.run s).result = .ok a) :
    post a (calls ++ Event.calls (x.run s).events) (x.run s).state := by
  rw [Ensures, hresult] at h
  exact h

lemma Ensures.stop {fault : Fault} (h : x.Ensures calls s post stopped)
    (hresult : (x.run s).result = .error fault) :
    stopped fault (calls ++ Event.calls (x.run s).events) (x.run s).state := by
  rw [Ensures, hresult] at h
  exact h

/-- What is ensured of the state in any case. -/
lemma Ensures.always {P : List (MemoryCall space) → σ → Prop}
    (h : x.Ensures calls s (fun _ => P) fun _ => P) :
    P (calls ++ Event.calls (x.run s).events) (x.run s).state := by
  unfold Ensures at h
  split at h <;> exact h

lemma Ensures.mono {post' : α → List (MemoryCall space) → σ → Prop}
    {stopped' : Fault → List (MemoryCall space) → σ → Prop} (h : x.Ensures calls s post stopped)
    (hpost : ∀ a c t, post a c t → post' a c t)
    (hstopped : ∀ e c t, stopped e c t → stopped' e c t) : x.Ensures calls s post' stopped' := by
  unfold Ensures at h ⊢
  split at h
  · exact hpost _ _ _ h
  · exact hstopped _ _ _ h

lemma run_eq_of_result {r : Except Fault α} (h : (x.run s).result = r) :
    x.run s = ⟨r, (x.run s).state, (x.run s).events⟩ := by
  rw [← h]

/-- A run that is known, and makes no calls. -/
lemma ensures_of_run {a : α} {t : σ} (hrun : x.run s = ⟨.ok a, t, []⟩) (h : post a calls t) :
    x.Ensures calls s post stopped := by
  simpa [Ensures, hrun] using h

lemma ensures_of_run_error {fault : Fault} {t : σ} (hrun : x.run s = ⟨.error fault, t, []⟩)
    (h : stopped fault calls t) : x.Ensures calls s post stopped := by
  simpa [Ensures, hrun] using h

/-- What the first step ensures is what the rest starts from. -/
theorem ensures_bind (h : x.Ensures calls s Q stopped)
    (hnext : ∀ a c t, Q a c t → (f a).Ensures c t last stopped) :
    (x >>= f).Ensures calls s last stopped := by
  unfold Ensures at h ⊢
  rw [run_bind]
  rcases hrun : x.run s with ⟨_ | a, t, events⟩
  · rw [hrun] at h
    exact h
  · rw [hrun] at h
    have hrest := hnext a _ t h
    unfold Ensures at hrest
    dsimp only
    rw [Event.calls_append, ← List.append_assoc]
    exact hrest

/-- The same, where the first step says in its own words how it stops. -/
theorem Ensures.bind {stopped' : Fault → List (MemoryCall space) → σ → Prop}
    (h : x.Ensures calls s Q stopped') (hstopped : ∀ e c t, stopped' e c t → stopped e c t)
    (hnext : ∀ a c t, Q a c t → (f a).Ensures c t last stopped) :
    (x >>= f).Ensures calls s last stopped :=
  ensures_bind (h.mono (fun _ _ _ h => h) hstopped) hnext

lemma ensures_pure {a : α} (h : post a calls s) :
    (pure a : Action space σ α).Ensures calls s post stopped :=
  ensures_of_run (run_pure a s) h

lemma ensures_fail {e : Refusal} (h : stopped (.error e) calls s) :
    (fail e : Action space σ α).Ensures calls s post stopped :=
  ensures_of_run_error (run_fail e s) h

lemma ensures_fail_bind {e : Refusal} (h : stopped (.error e) calls s) :
    ((fail e : Action space σ α) >>= f).Ensures calls s last stopped :=
  ensures_of_run_error (run_bind_error (run_fail e s)) h

lemma ensures_get_bind {f : σ → Action space σ β} (h : (f s).Ensures calls s last stopped) :
    (get >>= f).Ensures calls s last stopped :=
  ensures_bind (Q := fun a c t => a = s ∧ c = calls ∧ t = s)
    (ensures_of_run (run_get s) ⟨rfl, rfl, rfl⟩) fun _ _ _ ⟨ha, hc, ht⟩ => by
      rw [ha, hc, ht]
      exact h

/-- A first step whose run is known, and makes no calls. -/
lemma ensures_run_bind {a : α} {t : σ} (hrun : x.run s = ⟨.ok a, t, []⟩)
    (h : (f a).Ensures calls t last stopped) : (x >>= f).Ensures calls s last stopped := by
  unfold Ensures at h ⊢
  rw [run_bind_quiet hrun]
  exact h

/-- With `attempt` a refusal is one more result. -/
lemma ensures_attempt {post : Except Refusal α → List (MemoryCall space) → σ → Prop}
    (h : x.Ensures calls s (fun a => post (.ok a)) fun fault c t =>
      match fault with
      | .error e => post (.error e) c t
      | .halt reason => stopped (.halt reason) c t) :
    (attempt x).Ensures calls s post stopped := by
  rcases hrun : x.run s with ⟨(e | reason) | a, t, events⟩
  · rw [Ensures, hrun] at h
    rw [Ensures, run_attempt_error hrun]
    exact h
  · rw [Ensures, hrun] at h
    have hattempt : (attempt x).run s = ⟨.error (.halt reason), t, events⟩ := by
      rw [run] at hrun
      rw [run, attempt, hrun]
    rw [Ensures, hattempt]
    exact h
  · rw [Ensures, hrun] at h
    rw [Ensures, run_attempt_ok hrun]
    exact h

end Action

/-- An action finishes that does what another one does that never stops. -/
theorem Refines.exists_run {space σ τ α : Type} {S : σ → τ → Prop} {x : Action space σ α}
    {y : Action space τ α} (h : Refines S Eq x y) {s : σ} {t : τ} (hs : S s t)
    {calls : List (MemoryCall space)} {post : α → List (MemoryCall space) → τ → Prop}
    (hensures : y.Ensures calls t post fun _ _ _ => False) :
    ∃ a s' events t', x.run s = ⟨.ok a, s', events⟩ ∧ S s' t' ∧
      post a (calls ++ Event.calls events) t' := by
  have hrun := h s t hs
  unfold Action.Ensures at hensures
  generalize x.run s = u at hrun
  generalize y.run t = w at hrun hensures
  cases hrun with
  | @ok a b s' t' _ _ hr hs' hcalls =>
    subst hr
    refine ⟨a, s', _, t', rfl, hs', ?_⟩
    rw [hcalls]
    exact hensures
  | fault => exact hensures.elim

end Uniprocessor
