import Uniprocessor.Proofs.Lifecycle

/-!
# Roots that stay

Where the memory service moves no root but those of spaces that pages are mapped in, a process keeps
the root of its space whatever is done, until memory arrives for it.
-/

namespace Uniprocessor

open Uniprocessor.Action Relation

/-- Whether a command may have the memory service called. -/
def Command.callsMemory : Command → Bool
  | .tick | .ticks _ | .schedule | .materialize _ | .materializeCreated | .clone _ | .destroy _ _ => true
  | _ => false

namespace View

variable {μ space : Type} {memory : MemoryService μ space} {outside : μ → μ → Prop} {start m : μ}
  {v w : View μ space} {calls : List (MemoryCall space)} {pid : Pid} {p : ProcessView space}
  {stopped : Fault → List (MemoryCall space) → View μ space → Prop}

variable (memory) in
/-- The spaces that processes keep from `v` to `w` keep their roots. -/
def KeepsRoots (v w : View μ space) : Prop :=
  ∀ (q : Nat) (handle : space), v.spaceOf q = some handle → w.spaceOf q = some handle →
    memory.root w.memory handle = memory.root v.memory handle

lemma keepsRoots_of_memory (h : w.memory = v.memory) : KeepsRoots memory v w :=
  fun _ _ _ _ => by rw [h]

/-! ### Destroying -/

lemma spaceOf_orphan (v : View μ space) (children : List Pid) (q : Nat) :
    (v.orphan children).spaceOf q = v.spaceOf q := by
  rw [spaceOf, get?_orphan, spaceOf]
  cases v.table[q]? with
  | none => rfl
  | some p =>
    rw [Option.map_some, Option.bind_some, Option.bind_some]
    split <;> rfl

lemma spaceOf_disown (v : View μ space) (pid q : Nat) : (v.disown pid).spaceOf q = v.spaceOf q := by
  rw [disown]
  split
  · rfl
  · exact spaceOf_update v _ q fun _ => rfl

lemma spaceOf_drop (v : View μ space) (pid q : Nat) :
    (v.drop pid).spaceOf q = if q = pid then none else v.spaceOf q := by
  rw [spaceOf, get?_drop]
  split <;> rfl

variable (memory outside start m) in
/-- The spaces of all processes are accounted for and have the roots that they had in `m`. -/
structure Rooted (calls : List (MemoryCall space)) (w : View μ space) : Prop where
  traffic : Traffic memory outside start calls w.memory w.spaces
  root (q : Nat) (handle : space) : w.spaceOf q = some handle →
    memory.root w.memory handle = memory.root m handle

lemma Rooted.congr (h : Rooted memory outside start m calls v) (hmemory : w.memory = v.memory)
    (hspaces : ∀ q : Nat, w.spaceOf q = v.spaceOf q) : Rooted memory outside start m calls w where
  traffic := by
    rw [hmemory, spaces_congr hspaces]
    exact h.traffic
  root q handle hhandle := by
    rw [hmemory]
    exact h.root q handle ((hspaces q).symm.trans hhandle)

/-! ### What survives a destruction

`I` is true of the memory and of who holds what, and stays true when a process goes and its space is
given back. -/

section Surviving

variable {I : List (MemoryCall space) → View μ space → Prop}
  (hcongr : ∀ {c : List (MemoryCall space)} {v w : View μ space}, I c v → w.memory = v.memory →
    (∀ q : Nat, w.spaceOf q = v.spaceOf q) → I c w)
  (hdrop : ∀ {c : List (MemoryCall space)} {w : View μ space} {pid : Nat} {handle : space}, I c w →
    w.spaceOf pid = some handle → I (c ++ [.destroy handle true])
      { w.drop pid with memory := memory.destroy w.memory handle true })

include hcongr

lemma ensures_drainChildren_of (h : I calls w) (pid : Pid) :
    (drainChildren pid).Ensures calls w (fun _ => I) stopped := by
  cases hp : w.table[pid]? with
  | none =>
    have hrun : (drainChildren pid : Action space (View μ space) _).run w = ⟨.ok [], w, []⟩ := by
      rw [drainChildren, run_bind_quiet (run_get w), hp]
      rfl
    exact ensures_of_run hrun h
  | some p =>
    refine ensures_of_run (run_drainChildren hp) (hcongr h ?_ fun q => ?_)
    · rw [orphan_eq]
      rfl
    · exact (spaceOf_orphan _ p.children q).trans (spaceOf_update w pid q fun _ => rfl)

include hdrop

lemma ensures_reclaim_of (h : I calls w) (pid : Pid) :
    (reclaim memory pid).Ensures calls w (fun _ => I) stopped := by
  apply ensures_get_bind
  cases hp : w.table[pid]? with
  | none => exact ensures_pure h
  | some p =>
    apply ensures_run_bind (run_set _ _)
    cases hspace : p.space with
    | none =>
      refine ensures_pure (hcongr h rfl fun q => ?_)
      rw [spaceOf_drop]
      split
      · rename_i hq
        rw [hq, spaceOf_eq hp, hspace]
      · rfl
    | some handle => exact ensures_ask (hdrop h ((spaceOf_eq hp).trans hspace))

lemma ensures_destroyAll_of (h : I calls w) (cascade : Bool) (fuel : Nat) (pids : List Pid) :
    (destroyAll memory cascade fuel pids).Ensures calls w (fun _ => I) stopped := by
  induction fuel generalizing calls w pids with
  | zero => exact ensures_pure h
  | succ fuel ih =>
    cases pids with
    | nil => exact ensures_pure h
    | cons pid rest =>
      apply ensures_bind (ensures_drainChildren_of (I := I) hcongr h pid)
      intro children c w h
      exact ensures_bind (ensures_reclaim_of (I := I) hcongr hdrop h pid) fun _ c w h => ih h _

theorem ensures_destroy_of (h : I calls v) (pid : Pid) (cascade : Bool) :
    (destroy memory pid cascade).Ensures calls v (fun _ => I) fun _ => I := by
  refine (ensures_require pid).bind ?_ ?_
  · rintro _ _ _ ⟨-, rfl, rfl⟩
    exact h
  · rintro _ _ w ⟨rfl, rfl, -⟩
    have hdisowned : I _ (w.disown pid) :=
      hcongr h (by rw [disown]; split <;> rfl) (spaceOf_disown w pid)
    exact ensures_get_bind (ensures_run_bind (run_set _ _)
      (ensures_destroyAll_of (I := I) hcongr hdrop hdisowned cascade _ [pid]))

end Surviving

lemma Rooted.dropped (hsteady : SteadyRoots memory outside start)
    (h : Rooted memory outside start m calls w) {pid : Nat} {handle : space}
    (hpid : w.spaceOf pid = some handle) :
    Rooted memory outside start m (calls ++ [.destroy handle true])
      { w.drop pid with memory := memory.destroy w.memory handle true } := by
  have hgone : (w.drop pid).spaceOf pid = none := by rw [spaceOf_drop, if_pos rfl]
  have hothers : ∀ q : Nat, q ≠ pid → (w.drop pid).spaceOf q = w.spaceOf q := by
    intro q hq
    rw [spaceOf_drop, if_neg hq]
  have htraffic := h.traffic
  rw [spaces_eq_cons hpid hgone hothers] at htraffic
  refine ⟨htraffic.destroyed, fun q g hg => ?_⟩
  have hq : q ≠ pid := by
    rintro rfl
    cases hgone.symm.trans hg
  have hheld : (w.drop pid).spaceOf q = some g := hg
  rw [hothers q hq] at hheld
  exact (hsteady.destroy_root htraffic g (mem_spaces hg)).trans (h.root q g hheld)

/-- Whoever survives a destruction keeps the root of its space. -/
theorem ensures_destroy_keepsRoots (hsteady : SteadyRoots memory outside start)
    (h : Traffic memory outside start calls v.memory v.spaces) (pid : Pid) (cascade : Bool) :
    (destroy memory pid cascade).Ensures calls v (fun _ _ => KeepsRoots memory v)
      fun _ _ => KeepsRoots memory v := by
  have hrooted : Rooted memory outside start v.memory calls v := ⟨h, fun _ _ _ => rfl⟩
  have hkeeps {c : List (MemoryCall space)} {w : View μ space}
      (h : Rooted memory outside start v.memory c w) : KeepsRoots memory v w :=
    fun q handle _ hafter => h.root q handle hafter
  exact (ensures_destroy_of (I := Rooted memory outside start v.memory) Rooted.congr
    (fun h hpid => h.dropped hsteady hpid) hrooted pid cascade).mono
    (fun _ _ _ => hkeeps) fun _ _ _ => hkeeps

/-! ### Commands -/

lemma births_memory (h : ReflTransGen Birth v w) : w.memory = v.memory := by
  induction h with
  | refl => rfl
  | tail _ hbirth ih =>
    cases hbirth with
    | intro entry => exact (born_memory _ _ _ entry).trans ih

/-- Most commands do not have the memory service called. -/
theorem ensures_memory_eq (h : Traffic memory outside start calls v.memory v.spaces)
    {command : Command} (hquiet : command.callsMemory = false) :
    (perform memory command).Ensures calls v (fun _ _ w => w.memory = v.memory)
      fun _ _ w => w.memory = v.memory := by
  have hunmoved : ∀ (fault : Fault) c w, Unmoved calls v fault c w → w.memory = v.memory := by
    rintro _ _ _ ⟨-, rfl⟩
    rfl
  cases command with
  | tick | ticks | schedule | materialize | materializeCreated | clone | destroy => cases hquiet
  | create parent entry =>
    refine (ensures_create parent entry).bind (fun _ _ _ h => hunmoved _ _ _ h.2) ?_
    rintro pid _ _ ⟨-, rfl, -⟩
    exact ensures_pure (born_memory v parent pid entry)
  | createMany nested count parent =>
    refine (ensures_createMany h nested count parent).bind (fun _ _ _ h => births_memory h.1) ?_
    rintro _ _ w ⟨hbirths, -⟩
    exact ensures_pure (births_memory hbirths)
  | addChild parent child =>
    refine (ensures_addChild parent child).bind hunmoved ?_
    rintro _ _ _ ⟨-, rfl, -⟩
    exact ensures_pure rfl
  | changeState pid state =>
    refine (ensures_changeState pid state).bind hunmoved ?_
    rintro changed _ _ ⟨-, p, -, -, rfl⟩
    cases changed with
    | true => exact ensures_pure (enter_memory v pid state)
    | false => exact ensures_pure rfl
  | exit pid status =>
    apply (ensures_exit pid status).bind hunmoved
    rintro _ _ _ ⟨-, p, -, ⟨-, rfl⟩ | ⟨-, rfl⟩⟩
    · exact ensures_pure (enter_memory v pid .terminated)
    · exact ensures_pure rfl
  | setInSystemCall pid on =>
    refine (ensures_setInSystemCall pid on).bind hunmoved ?_
    rintro _ _ _ ⟨-, rfl, -⟩
    refine ensures_pure ?_
    rw [View.flagged]
    split <;> rfl
  | signal pid signo =>
    refine (ensures_postSignal pid signo).bind hunmoved ?_
    rintro _ _ _ ⟨-, rfl, -⟩
    exact ensures_pure rfl
  | writeActive writes => exact ensures_run_bind (run_modify _ _) (ensures_pure rfl)
  | disableInterrupts | enableInterrupts => exact ensures_pure rfl

/-- A command that gives memory to nobody lets all spaces keep their roots. -/
theorem ensures_keepsRoots (hsteady : SteadyRoots memory outside start) (hlawful : v.Lawful)
    (h : Traffic memory outside start calls v.memory v.spaces) {command : Command}
    (hsupply : ∀ pid, ¬ command.MaySupply pid) :
    (perform memory command).Ensures calls v (fun _ _ => KeepsRoots memory v)
      fun _ _ => KeepsRoots memory v := by
  by_cases hquiet : command.callsMemory = false
  · exact (ensures_memory_eq h hquiet).mono (fun _ _ _ => keepsRoots_of_memory)
      fun _ _ _ => keepsRoots_of_memory
  cases command with
  | tick | ticks | schedule | materializeCreated => exact absurd trivial (hsupply 0)
  | materialize target => exact absurd rfl (hsupply target)
  | clone source =>
    have hcloned : ∀ {held answer m}, v.spaceOf source = some held →
        memory.clone v.memory held true = (answer, m) → ∀ {w : View μ space}, w.memory = m →
        KeepsRoots memory v w := by
      rintro held answer m hheld hclone w rfl q handle hbefore -
      exact hsteady.clone_root h (mem_spaces hheld) hclone handle (mem_spaces hbefore)
    refine (ensures_clone hlawful (.self h) source).bind ?_ ?_
    · rintro _ _ w ⟨-, hmemory | ⟨held, e, hheld, hclone⟩⟩
      · exact keepsRoots_of_memory hmemory
      · exact hcloned hheld hclone rfl
    · rintro _ _ w ⟨_, held, copy, -, hheld, hclone, -⟩
      exact ensures_pure (hcloned hheld hclone rfl)
  | destroy pid cascade =>
    exact ensures_bind (ensures_destroy_keepsRoots hsteady h pid cascade) fun _ _ _ h => ensures_pure h
  | _ => exact absurd rfl hquiet

end View

end Uniprocessor
