import Uniprocessor.Proofs.Accounts

/-!
# Attempts to give memory

All that an attempt to give memory to a process can be: which address space it works with, how far
it gets with the two stacks, what it asks of the memory service on the way, and what it leaves. What
is to be known of an attempt follows from this description.
-/

namespace Uniprocessor

open Uniprocessor.Action

/-- A process with memory and stacks. -/
def ProcessView.provided {space : Type} (p : ProcessView space) (handle : space)
    (root userStack kernelStack : UInt64) : ProcessView space :=
  { p with
    space := some handle
    userStack := some userStack
    kernelStack := some kernelStack
    context := { p.context with
      cr3 := root, rsp := Supervisor.stackTop userStack, rsp0 := Supervisor.stackTop kernelStack } }

/-- A process with memory and stacks that waits for its turn. -/
def ProcessView.equipped {space : Type} (p : ProcessView space) (handle : space)
    (root userStack kernelStack : UInt64) : ProcessView space :=
  { p with
    previous := p.state
    state := .waiting
    space := some handle
    userStack := some userStack
    kernelStack := some kernelStack
    context := { p.context with
      cr3 := root, rsp := Supervisor.stackTop userStack, rsp0 := Supervisor.stackTop kernelStack } }

lemma ProcessView.enter_provided {space : Type} (p : ProcessView space) (handle : space)
    (root userStack kernelStack : UInt64) :
    (p.provided handle root userStack kernelStack).enter .waiting =
      p.equipped handle root userStack kernelStack := by
  rw [enter, provided, equipped]

namespace View

variable {μ space : Type} (memory : MemoryService μ space)

/-- The space that an attempt works with, or why there is none, with the calls made so far. -/
inductive Source (v : View μ space) (calls : List (MemoryCall space)) (p : ProcessView space) :
    Except Refusal space → List (MemoryCall space) → μ → Prop
  | own {handle} : p.space = some handle → Source v calls p (.ok handle) calls v.memory
  | inherited {parent held answer m result} : p.space = none → p.parent = some parent →
      v.spaceOf parent = some held → memory.clone v.memory held true = (answer, m) →
      result = answer.mapError .ofMemory →
      Source v calls p result (calls ++ [.clone held true answer]) m
  | barren {parent} : p.space = none → p.parent = some parent → v.spaceOf parent = none →
      Source v calls p (.error (.invalidArgument .parentWithoutSpace)) calls v.memory
  | created {answer m result} : p.space = none → p.parent = none →
      memory.create v.memory = (answer, m) → result = answer.mapError .ofMemory →
      Source v calls p result (calls ++ [.create answer]) m

/-- How far the mapping of two stacks gets: both of them, or none, with the calls made so far, the
handle to use from now on and the memory. -/
inductive Stacks (m : μ) (calls : List (MemoryCall space)) (handle : space) :
    Option (UInt64 × UInt64) → List (MemoryCall space) → space → μ → Prop
  | refused {e handle' m'} : memory.mapPages m handle stackPages = (.error e, handle', m') →
      Stacks m calls handle none (calls ++ [.mapPages handle stackPages (.error e)]) handle' m'
  | undone {userStack handle₁ m₁ e handle₂ m₂ handle' m'} :
      memory.mapPages m handle stackPages = (.ok userStack, handle₁, m₁) →
      memory.mapPages m₁ handle₁ stackPages = (.error e, handle₂, m₂) →
      memory.unmapPages m₂ handle₂ userStack stackPages = (handle', m') →
      Stacks m calls handle none
        (calls ++ [.mapPages handle stackPages (.ok userStack)] ++
          [.mapPages handle₁ stackPages (.error e)] ++ [.unmapPages handle₂ userStack stackPages])
        handle' m'
  | mapped {userStack handle₁ m₁ kernelStack handle' m'} :
      memory.mapPages m handle stackPages = (.ok userStack, handle₁, m₁) →
      memory.mapPages m₁ handle₁ stackPages = (.ok kernelStack, handle', m') →
      Stacks m calls handle (some (userStack, kernelStack))
        (calls ++ [.mapPages handle stackPages (.ok userStack)] ++
          [.mapPages handle₁ stackPages (.ok kernelStack)]) handle' m'

/-- An attempt to give memory to `pid`: the result, the calls made so far and the view after it. -/
inductive Attempt (v : View μ space) (calls : List (MemoryCall space)) (pid : Pid) :
    Except Refusal Unit → List (MemoryCall space) → View μ space → Prop
  | unknown {e} : v.lookup pid = .error e → Attempt v calls pid (.error e) calls v
  | late {p} : v.table[pid]? = some p → p.state ≠ .created →
      Attempt v calls pid (.error (.invalidArgument .alreadyMaterialized)) calls v
  | spaceless {p e c m} : v.table[pid]? = some p → p.state = .created →
      Source memory v calls p (.error e) c m → Attempt v calls pid (.error e) c { v with memory := m }
  /-- Without stacks a space that the process brought along stays with it. -/
  | kept {p own c handle m} : v.table[pid]? = some p → p.state = .created → p.space = some own →
      Stacks memory v.memory calls own none c handle m →
      Attempt v calls pid (.error (.exhausted .stack)) c
        ({ v with memory := m }.update pid ({ · with space := some handle }))
  | dropped {p handle c m c' handle' m'} : v.table[pid]? = some p → p.state = .created →
      p.space = none → Source memory v calls p (.ok handle) c m →
      Stacks memory m c handle none c' handle' m' →
      Attempt v calls pid (.error (.exhausted .stack)) (c' ++ [.destroy handle' true])
        { v with memory := memory.destroy m' handle' true }
  | equipped {p handle c m userStack kernelStack c' handle' m'} : v.table[pid]? = some p →
      p.state = .created → Source memory v calls p (.ok handle) c m →
      Stacks memory m c handle (some (userStack, kernelStack)) c' handle' m' →
      Attempt v calls pid (.ok ()) (c' ++ [.root handle' (memory.root m' handle')])
        ({ v with memory := m' }.update pid
          (·.equipped handle' (memory.root m' handle') userStack kernelStack))

variable {memory} {v w : View μ space} {calls : List (MemoryCall space)} {pid : Pid}
  {p : ProcessView space} {handle : space} {m : μ}

lemma Lawful.running_ne (h : v.Lawful) (hp : v.table[pid]? = some p) (hstate : p.state ≠ .running) :
    v.running ≠ some pid :=
  fun hrunning => hstate ((h.runner pid p hp).mpr hrunning)

/-- Whoever does not run leaves no registers on the processor. -/
lemma enter_eq_update {state : ProcessState} (hrunning : v.running ≠ some pid)
    (hstate : state ≠ .running) : v.enter pid state = v.update pid (·.enter state) := by
  rw [enter, if_neg hstate, suspend, if_neg hrunning]

lemma ensures_ofAnswer {α : Type} {x : Except MemoryError α}
    {post : α → List (MemoryCall space) → View μ space → Prop}
    {stopped : Fault → List (MemoryCall space) → View μ space → Prop}
    (hok : ∀ a, x = .ok a → post a calls w)
    (herror : ∀ e, x = .error e → stopped (.error (.ofMemory e)) calls w) :
    (ofAnswer x : Action space (View μ space) α).Ensures calls w post stopped := by
  cases x with
  | ok a => exact ensures_pure (hok a rfl)
  | error e => exact ensures_fail (herror e rfl)

/-- The view while an attempt for `pid` is under way: a space of the process is not in its record. -/
def taken (v : View μ space) (pid : Pid) (m : μ) : View μ space :=
  { v with memory := m }.update pid ({ · with space := none })

lemma taken_of_none (hp : v.table[pid]? = some p) (hspace : p.space = none) (m : μ) :
    v.taken pid m = { v with memory := m } := by
  refine update_eq_self (v := { v with memory := m }) hp ?_
  rw [← hspace]

lemma get?_taken (hp : v.table[pid]? = some p) (m : μ) :
    (v.taken pid m).table[pid]? = some { p with space := none } :=
  get?_update_self (v := { v with memory := m }) hp _

/-- The space is taken out of the record of the process, if it was there. -/
lemma ensures_obtainSpace (hp : v.table[pid]? = some p) :
    (obtainSpace memory pid p).Ensures calls v
      (fun handle c w => ∃ m, Source memory v calls p (.ok handle) c m ∧
        w = v.taken pid m)
      fun fault c w => ∃ e m, fault = .error e ∧ Source memory v calls p (.error e) c m ∧
        w = { v with memory := m } := by
  unfold obtainSpace
  cases hspace : p.space with
  | some own => exact ensures_run_bind (run_modify _ _) (ensures_pure ⟨_, .own hspace, rfl⟩)
  | none =>
    have hanswer : ∀ (answer : Except MemoryError space) (c : List (MemoryCall space))
        (w : View μ space),
        (∃ m, Source memory v calls p (answer.mapError .ofMemory) c m ∧ w = { v with memory := m }) →
        (ofAnswer answer : Action space (View μ space) space).Ensures c w
          (fun handle c w => ∃ m, Source memory v calls p (.ok handle) c m ∧
            w = v.taken pid m)
          fun fault c w => ∃ e m, fault = .error e ∧ Source memory v calls p (.error e) c m ∧
            w = { v with memory := m } := by
      rintro answer c w ⟨m, hsource, rfl⟩
      refine ensures_ofAnswer ?_ ?_
      · rintro handle rfl
        exact ⟨m, hsource, (taken_of_none hp hspace m).symm⟩
      · rintro e rfl
        exact ⟨_, m, rfl, hsource, rfl⟩
    cases hparent : p.parent with
    | none => exact ensures_bind (ensures_ask ⟨_, .created hspace hparent rfl rfl, rfl⟩) hanswer
    | some parent =>
      apply ensures_get_bind
      cases hinherited : v.table[parent]?.bind (·.space) with
      | none => exact ensures_fail ⟨_, _, rfl, .barren hspace hparent hinherited, rfl⟩
      | some inherited =>
        exact ensures_bind (ensures_ask ⟨_, .inherited hspace hparent hinherited rfl rfl, rfl⟩) hanswer

lemma ensures_mapPages_taken {stopped : Fault → List (MemoryCall space) → View μ space → Prop}
    (v : View μ space) (pid : Pid) (m : μ) (handle : space) (count : Nat) :
    (mapPages memory handle count).Ensures calls (v.taken pid m)
      (fun answer c w => ∃ m', memory.mapPages m handle count = (answer.1, answer.2, m') ∧
        c = calls ++ [.mapPages handle count answer.1] ∧ w = v.taken pid m') stopped :=
  ensures_ask ⟨_, rfl, rfl, rfl⟩

variable {α : Type} {post : α → List (MemoryCall space) → View μ space → Prop}
  {c c' : List (MemoryCall space)} {handle' : space} {m' : μ}

/-- An attempt that ends without stacks puts its space back or destroys it. -/
lemma ensures_giveUp (hp : v.table[pid]? = some p) (hstate : p.state = .created)
    (hsource : Source memory v calls p (.ok handle) c m)
    (hstacks : Stacks memory m c handle none c' handle' m') :
    (giveUp memory pid p handle').Ensures c' (v.taken pid m') post
      fun fault c w => ∃ e, fault = .error e ∧ Attempt memory v calls pid (.error e) c w := by
  unfold giveUp
  cases hspace : p.space with
  | some own =>
    cases hsource with
    | own hown =>
      rw [hspace, Option.some_inj] at hown
      subst hown
      refine ensures_run_bind (run_modify _ _) (ensures_fail ⟨_, rfl, ?_⟩)
      rw [taken, update_update]
      exact .kept hp hstate hspace hstacks
    | inherited hnone | created hnone =>
      rw [hspace] at hnone
      cases hnone
  | none =>
    rw [taken_of_none hp hspace]
    refine ensures_bind (Q := fun _ c w => Attempt memory v calls pid (.error (.exhausted .stack)) c w)
      (ensures_ask ?_) fun _ _ _ hattempt => ensures_fail ⟨_, rfl, hattempt⟩
    exact .dropped hp hstate hspace hsource hstacks

/-- Whoever has not had memory before starts to wait. -/
lemma ensures_equip {stopped : Fault → List (MemoryCall space) → View μ space → Prop}
    (hp : w.table[pid]? = some p) (hstate : p.state = .created) (hrunning : w.running ≠ some pid)
    (userStack kernelStack : UInt64) :
    (equip memory pid handle userStack kernelStack).Ensures calls w
      (fun _ c w' => c = calls ++ [.root handle (memory.root w.memory handle)] ∧
        w' = w.update pid (·.equipped handle (memory.root w.memory handle) userStack kernelStack))
      stopped := by
  refine ensures_bind (Q := fun root c w' => root = memory.root w.memory handle ∧
    c = calls ++ [.root handle root] ∧ w' = w) (ensures_ask ⟨rfl, rfl, rfl⟩) ?_
  rintro _ _ w ⟨rfl, rfl, rfl⟩
  refine ensures_run_bind (t := w.update pid (·.provided handle (memory.root w.memory handle)
    userStack kernelStack)) rfl ?_
  have hprovided : (w.update pid (·.provided handle (memory.root w.memory handle) userStack
      kernelStack)).table[pid]? =
      some (p.provided handle (memory.root w.memory handle) userStack kernelStack) :=
    get?_update_self hp _
  refine ensures_run_bind (run_requestState hprovided ?_) (ensures_pure ⟨rfl, ?_⟩)
  · simp [ProcessView.canEnter, ProcessView.provided, hstate, ProcessState.canBecome,
      ProcessView.isMaterialized]
  · rw [enter_eq_update (v := w.update pid _) hrunning (by decide), update_update]
    simp only [ProcessView.enter_provided]

/-- To give memory to a process is an attempt, and nothing in it halts. -/
theorem ensures_materialize_attempt (hlawful : v.Lawful) (pid : Pid) :
    (materialize memory pid).Ensures calls v
      (fun _ c w => Attempt memory v calls pid (.ok ()) c w)
      fun fault c w => ∃ e, fault = .error e ∧ Attempt memory v calls pid (.error e) c w := by
  cases hlookup : v.lookup pid with
  | error e =>
    exact ensures_of_run_error (run_bind_error (run_find_error hlookup)) ⟨e, rfl, .unknown hlookup⟩
  | ok p =>
  have hp := get?_of_lookup hlookup
  refine ensures_run_bind (run_find_ok hlookup) ?_
  dsimp only
  split
  · rename_i hstate
    exact ensures_fail_bind ⟨_, rfl, .late hp hstate⟩
  rename_i hstate
  rw [not_not] at hstate
  refine (ensures_obtainSpace hp).bind ?_ ?_
  · rintro _ c _ ⟨e, m, rfl, hsource, rfl⟩
    exact ⟨e, rfl, .spaceless hp hstate hsource⟩
  rintro handle c _ ⟨m, hsource, rfl⟩
  apply ensures_bind (ensures_mapPages_taken v pid m handle stackPages)
  rintro ⟨answer, handle₁⟩ _ _ ⟨m₁, hfirst, rfl, rfl⟩
  cases answer with
  | error e => exact ensures_giveUp hp hstate hsource (.refused hfirst)
  | ok userStack =>
    apply ensures_bind (ensures_mapPages_taken v pid m₁ handle₁ stackPages)
    rintro ⟨answer, handle₂⟩ _ _ ⟨m₂, hsecond, rfl, rfl⟩
    cases answer with
    | error e =>
      refine ensures_bind (Q := fun handle' c' w => ∃ m', Stacks memory m c handle none c' handle' m' ∧
        w = v.taken pid m') (ensures_ask ⟨_, .undone hfirst hsecond rfl, rfl⟩) ?_
      rintro handle' c' _ ⟨m', hstacks, rfl⟩
      exact ensures_giveUp hp hstate hsource hstacks
    | ok kernelStack =>
      have hrunning : (v.taken pid m₂).running ≠ some pid := hlawful.running_ne hp (by simp [hstate])
      refine (ensures_equip (get?_taken hp m₂) hstate hrunning userStack kernelStack).mono ?_
        fun _ _ _ h => h
      rintro _ _ _ ⟨rfl, rfl⟩
      rw [taken, update_update]
      exact .equipped hp hstate hsource (.mapped hfirst hsecond)

/-! ### What an attempt makes of the processes -/

/-- What a successful attempt to give memory to `pid` makes of a view, memory aside. -/
def Equipped (v : View μ space) (pid : Pid) (w : View μ space) : Prop :=
  ∃ p handle root userStack kernelStack, v.table[pid]? = some p ∧ p.state = .created ∧
    w = v.update pid (·.equipped handle root userStack kernelStack)

/-- What a failed attempt to give memory to `pid` leaves of a view, memory aside. -/
def Returned (v : View μ space) (pid : Pid) (w : View μ space) : Prop :=
  w = v ∨ ∃ p handle, v.table[pid]? = some p ∧ p.state = .created ∧ p.space.isSome = true ∧
    w = v.update pid ({ · with space := some handle })

lemma Lawful.equipped (h : v.Lawful) (hw : v.Equipped pid w) : w.Lawful := by
  obtain ⟨p, handle, root, userStack, kernelStack, hp, hstate, rfl⟩ := hw
  refine h.update hp (fun _ => rfl) (fun _ => rfl) ?_ fun _ => rfl
  simp [ProcessView.equipped, hstate]

lemma Lawful.returned (h : v.Lawful) (hw : v.Returned pid w) : w.Lawful := by
  rcases hw with rfl | ⟨p, handle, hp, hstate, -, rfl⟩
  · exact h
  · exact h.update hp (fun _ => rfl) (fun _ => rfl) Iff.rfl fun _ => rfl

lemma Attempt.equipped_of_ok (hattempt : Attempt memory { v with memory := m } calls pid (.ok ()) c w) :
    ∃ v', v.Equipped pid v' ∧ w = { v' with memory := w.memory } := by
  cases hattempt with
  | equipped hp hstate => exact ⟨_, ⟨_, _, _, _, _, hp, hstate, rfl⟩, rfl⟩

lemma Attempt.returned_of_error {e : Refusal}
    (hattempt : Attempt memory { v with memory := m } calls pid (.error e) c w) :
    ∃ v', v.Returned pid v' ∧ w = { v' with memory := w.memory } := by
  cases hattempt with
  | unknown | late | spaceless | dropped => exact ⟨v, .inl rfl, rfl⟩
  | kept hp hstate hspace =>
    exact ⟨_, .inr ⟨_, _, hp, hstate, by rw [hspace]; rfl, rfl⟩, rfl⟩

lemma Lawful.attempt (h : v.Lawful) {result : Except Refusal Unit}
    (hattempt : Attempt memory v calls pid result c w) : w.Lawful := by
  cases result with
  | ok =>
    obtain ⟨v', hv', hsame⟩ := hattempt.equipped_of_ok
    exact (h.equipped hv').congr (by rw [hsame]) (by rw [hsame])
  | error e =>
    obtain ⟨v', hv', hsame⟩ := hattempt.returned_of_error
    exact (h.returned hv').congr (by rw [hsame]) (by rw [hsame])

/-! ### Attempts for several processes -/

/-- Attempts for several processes, one after the other: how many of them succeed, the calls made so
far and the view after them. -/
inductive Attempts (memory : MemoryService μ space) : View μ space → List (MemoryCall space) →
    List Pid → Nat → List (MemoryCall space) → View μ space → Prop
  | nil (before asked) : Attempts memory before asked [] 0 asked before
  | given {before asked first between asked' rest count asked'' after} :
      Attempt memory before asked first (.ok ()) asked' between →
      Attempts memory between asked' rest count asked'' after →
      Attempts memory before asked (first :: rest) (count + 1) asked'' after
  | declined {before asked first e between asked' rest count asked'' after} :
      Attempt memory before asked first (.error e) asked' between →
      Attempts memory between asked' rest count asked'' after →
      Attempts memory before asked (first :: rest) count asked'' after

variable {stopped : Fault → List (MemoryCall space) → View μ space → Prop} {pids : List Pid}
  {count : Nat}

/-- A refusal does not keep the processes behind it from their attempts. -/
theorem ensures_materializeEach (hlawful : v.Lawful) (pids : List Pid) :
    (materializeEach memory pids).Ensures calls v (Attempts memory v calls pids) stopped := by
  induction pids generalizing v calls with
  | nil => exact ensures_pure (.nil v calls)
  | cons pid rest ih =>
    refine ensures_bind (Q := fun result c w => Attempt memory v calls pid result c w)
      (ensures_attempt ((ensures_materialize_attempt hlawful pid).mono (fun _ _ _ h => h) ?_)) ?_
    · rintro _ c w ⟨e, rfl, hattempt⟩
      exact hattempt
    · rintro result c w hattempt
      have hrest : (materializeEach memory rest).Ensures c w (Attempts memory w c rest) stopped :=
        ih (hlawful.attempt hattempt)
      cases result with
      | ok => exact ensures_bind hrest fun _ _ _ h => ensures_pure (.given hattempt h)
      | error e => exact hrest.mono (fun _ _ _ h => .declined hattempt h) fun _ _ _ h => h

theorem ensures_materializeCreated (hlawful : v.Lawful) :
    (materializeCreated memory).Ensures calls v (Attempts memory v calls v.createdPids) stopped :=
  ensures_get_bind (ensures_materializeEach hlawful v.createdPids)

namespace Attempts

lemma lawful (hattempts : Attempts memory v calls pids count c w) (h : v.Lawful) : w.Lawful := by
  induction hattempts with
  | nil => exact h
  | given hattempt _ ih => exact ih (h.attempt hattempt)
  | declined hattempt _ ih => exact ih (h.attempt hattempt)

end Attempts

end View

end Uniprocessor
