import Uniprocessor.Proofs.Observations
import Uniprocessor.Proofs.Runs

/-!
# Failures without a trace

An operation on processes that fails leaves nothing behind that could be observed: not in the
records, the identifiers and the pools, and not in the host's memory either. Operations that ask
nothing of the memory check everything first. A clone without a space is taken out again, and an
attempt to give a process memory that breaks off gives back what it took.
-/

namespace Uniprocessor

open Uniprocessor.Action

/-- Whether a command is an operation on processes, made at once. -/
def Command.isOperation : Command → Bool
  | .create .. | .clone _ | .destroy .. | .addChild .. | .changeState .. | .exit ..
  | .setInSystemCall .. | .signal .. | .materialize _ => true
  | .tick | .ticks _ | .schedule | .createMany .. | .materializeCreated | .writeActive _
  | .disableInterrupts | .enableInterrupts => false

/-- Whether a command with the given result did not do what it was to do: it is refused or halts,
or the life cycle does not allow the change of state that it asks for. -/
def Supervisor.Declined {μ space : Type} (s : Supervisor μ space) (command : Command) :
    Except Fault Reply → Prop
  | .error _ => True
  | .ok (.flag changed) => changed = false
  | .ok _ => ∃ pid status p, command = .exit pid status ∧ s.roster.get? pid = some p ∧
      p.canEnter .terminated = false

namespace View

variable {v w : View HostMemory HostSpace} {pid : Pid} {p : ProcessView HostSpace}
  {handle : HostSpace} {calls : List (MemoryCall HostSpace)}

/-- Nothing that can be observed has changed. -/
structure Kept (v w : View HostMemory HostSpace) : Prop where
  same : w = { v with memory := w.memory }
  memory : w.memory.observe = v.memory.observe

/-- While a process is given memory: its own space is out of its record, or a new space is there,
without which the memory would be as before. -/
structure Lent (v : View HostMemory HostSpace) (pid : Pid) (p : ProcessView HostSpace)
    (handle : HostSpace) (w : View HostMemory HostSpace) : Prop where
  same : w = { v.update pid ({ · with space := none }) with memory := w.memory }
  own : ∀ held, p.space = some held → handle = held ∧ w.memory.observe = v.memory.observe
  fresh : p.space = none → (w.memory.destroy handle).observe = v.memory.observe

namespace Lent

lemma congr {w' : View HostMemory HostSpace} (h : v.Lent pid p handle w)
    (hsame : w' = { w with memory := w'.memory }) (hobserve : w'.memory.observe = w.memory.observe) :
    v.Lent pid p handle w' where
  same := by rw [hsame, h.same]
  own held hheld := ⟨(h.own held hheld).1, hobserve.trans (h.own held hheld).2⟩
  fresh hnone := by
    rw [← h.fresh hnone, HostMemory.observe_destroy, HostMemory.observe_destroy, hobserve]

lemma get?_self (h : v.Lent pid p handle w) (hp : v.table[pid]? = some p) :
    w.table[pid]? = some { p with space := none } := by
  rw [h.same]
  dsimp only
  rw [get?_update, if_pos rfl, hp]
  rfl

lemma running_eq (h : v.Lent pid p handle w) : w.running = v.running := by
  rw [h.same]
  rfl

end Lent

lemma update_space_eq_self (hp : v.table[pid]? = some p) {o : Option HostSpace} (h : p.space = o) :
    v.update pid ({ · with space := o }) = v := by
  apply update_eq_self hp
  rw [← h]

/-! ### Giving memory to a process -/

variable {α : Type} {post : α → List (MemoryCall HostSpace) → View HostMemory HostSpace → Prop}
  {stopped : Fault → List (MemoryCall HostSpace) → View HostMemory HostSpace → Prop}

/-- A request for a space changes nothing that is not undone by giving the space back. -/
lemma ensures_issued (hnumbered : v.memory.Numbered) (hp : v.table[pid]? = some p)
    (hspace : p.space = none) {answer : Except MemoryError HostSpace} {m : HostMemory}
    (hissue : HostMemory.Issue v.memory answer m) :
    (ofAnswer answer : Action HostSpace (View HostMemory HostSpace) HostSpace).Ensures calls
      { v with memory := m } (fun handle _ w => v.Lent pid p handle w) fun _ _ w => v.Kept w := by
  cases answer with
  | error e =>
    cases hissue with
    | refused _ hobserve _ => exact ensures_fail ⟨rfl, hobserve⟩
  | ok handle =>
    refine ensures_pure ⟨?_, ?_, fun _ => hnumbered.destroy_issued hissue⟩
    · rw [update_space_eq_self hp hspace]
    · rw [hspace]
      nofun

lemma ensures_obtainSpace_lent (hnumbered : v.memory.Numbered) (hp : v.table[pid]? = some p) :
    (obtainSpace HostMemory.service pid p).Ensures calls v (fun handle _ w => v.Lent pid p handle w)
      fun _ _ w => v.Kept w := by
  unfold obtainSpace
  cases hspace : p.space with
  | some own =>
    refine ensures_run_bind (run_modify _ _) (ensures_pure ⟨rfl, ?_, ?_⟩)
    · rintro held hheld
      rw [hspace, Option.some_inj] at hheld
      exact ⟨hheld, rfl⟩
    · rw [hspace]
      nofun
  | none =>
    have hanswer : ∀ (answer : Except MemoryError HostSpace) c w,
        (∃ m, HostMemory.Issue v.memory answer m ∧ w = { v with memory := m }) →
        (ofAnswer answer : Action HostSpace (View HostMemory HostSpace) HostSpace).Ensures c w
          (fun handle _ w => v.Lent pid p handle w) fun _ _ w => v.Kept w := by
      rintro answer c w ⟨m, hissue, rfl⟩
      exact ensures_issued hnumbered hp hspace hissue
    cases p.parent with
    | none => exact ensures_bind (ensures_ask ⟨_, HostMemory.issue_create rfl, rfl⟩) hanswer
    | some parent =>
      apply ensures_get_bind
      cases v.table[parent]?.bind (·.space) with
      | none => exact ensures_fail ⟨rfl, rfl⟩
      | some inherited => exact ensures_bind (ensures_ask ⟨_, HostMemory.issue_clone rfl, rfl⟩) hanswer

lemma ensures_giveUp_lent (hp : v.table[pid]? = some p) (h : v.Lent pid p handle w) :
    (giveUp HostMemory.service pid p handle).Ensures calls w post fun _ _ w => v.Kept w := by
  unfold giveUp
  cases hspace : p.space with
  | some held =>
    obtain ⟨rfl, hobserve⟩ := h.own held hspace
    refine ensures_run_bind (run_modify _ _) (ensures_fail ⟨?_, hobserve⟩)
    have hback : (v.update pid ({ · with space := none })).update pid
        ({ · with space := some handle }) = v := by
      rw [update_update]
      exact update_space_eq_self hp hspace
    have hsame : w.update pid ({ · with space := some handle }) =
        { (v.update pid ({ · with space := none })).update pid ({ · with space := some handle }) with
          memory := w.memory } := by
      rw [h.same]
      rfl
    rw [hsame, hback]
  | none =>
    refine ensures_bind (Q := fun _ _ w => v.Kept w) (ensures_ask ⟨?_, h.fresh hspace⟩)
      fun _ _ _ h => ensures_fail h
    rw [h.same, update_space_eq_self hp hspace]

lemma ensures_mapPages_host (handle : HostSpace) (count : Nat) :
    (mapPages HostMemory.service handle count).Ensures calls w
      (fun answer _ w' => answer.2 = handle ∧ w' = { w with memory := w'.memory } ∧
        HostMemory.Mapping w.memory handle count answer.1 w'.memory)
      stopped := by
  obtain ⟨hhandle, -, hmapping⟩ := HostMemory.mapping_mapPages
    (rfl : w.memory.mapPages handle count = (_, _, _))
  exact ensures_ask ⟨hhandle, rfl, hmapping⟩

/-- An attempt to give a process memory leaves nothing behind when it breaks off. -/
theorem ensures_materialize_kept (hlawful : v.Lawful) (hnumbered : v.memory.Numbered) (pid : Pid) :
    (materialize HostMemory.service pid).Ensures calls v (fun _ _ _ => True) fun _ _ w => v.Kept w := by
  refine (ensures_find pid).bind (fun _ _ _ hstop => ?_) ?_
  · rw [hstop.2]
    exact ⟨rfl, rfl⟩
  rintro p _ v ⟨rfl, rfl, hp⟩
  dsimp only
  split
  · exact ensures_fail_bind ⟨rfl, rfl⟩
  rename_i hstate
  rw [not_not] at hstate
  refine ensures_bind (ensures_obtainSpace_lent hnumbered hp) fun handle c w h => ?_
  refine ensures_bind (ensures_mapPages_host handle stackPages) ?_
  rintro ⟨answer, handle'⟩ c w₁ ⟨hhandle, hsame, hmapping⟩
  obtain rfl : handle' = handle := hhandle
  cases hmapping with
  | refused e hobserve => exact ensures_giveUp_lent hp (h.congr hsame hobserve)
  | given userStack hobserve =>
    apply ensures_bind (ensures_mapPages_host handle' stackPages)
    rintro ⟨answer, handle⟩ c w₂ ⟨hhandle, hsame', hmapping'⟩
    obtain rfl : handle = handle' := hhandle
    cases hmapping' with
    | refused e hobserve' =>
      -- the pages that were mapped first are unmapped again
      have hmapped : HostMemory.Mapping w.memory handle stackPages (.ok userStack) w₂.memory :=
        .given userStack (hobserve'.trans hobserve)
      refine ensures_bind (Q := fun handle' _ w' => handle' = handle ∧ v.Lent pid p handle w')
        (ensures_ask ⟨rfl, h.congr ?_ hmapped.unmapPages⟩) ?_
      · rw [hsame', hsame]
      · rintro _ c w' ⟨rfl, h⟩
        exact ensures_giveUp_lent hp h
    | given kernelStack hobserve' =>
      have htable : w₂.table[pid]? = some { p with space := none } := by
        rw [hsame', hsame]
        exact h.get?_self hp
      have hrunning : w₂.running ≠ some pid := by
        rw [hsame', hsame]
        exact h.running_eq ▸ hlawful.running_ne hp (by simp [hstate])
      exact (ensures_equip htable hstate hrunning userStack kernelStack).mono
        (fun _ _ _ _ => trivial) fun _ _ _ h => h

/-! ### Commands -/

/-- Whether a command with the given result is declined, as far as the view tells. -/
def Declined {μ space : Type} (v : View μ space) (command : Command) : Except Fault Reply → Prop
  | .error _ => True
  | .ok (.flag changed) => changed = false
  | .ok _ => ∃ pid status p, command = .exit pid status ∧ v.table[pid]? = some p ∧
      p.canEnter .terminated = false

/-- Operations that are declined leave nothing behind. -/
theorem ensures_kept {outside : HostMemory → HostMemory → Prop} {start : HostMemory}
    (hlawful : v.Lawful) (hnumbered : v.memory.Numbered)
    (h : Traffic HostMemory.service outside start calls v.memory v.spaces) {command : Command}
    (hoperation : command.isOperation = true) :
    (perform HostMemory.service command).Ensures calls v
      (fun reply _ w => v.Declined command (.ok reply) → v.Kept w) fun _ _ w => v.Kept w := by
  have hunmoved : ∀ fault c w, Unmoved calls v fault c w → v.Kept w := by
    rintro _ _ _ ⟨rfl, rfl⟩
    exact ⟨rfl, rfl⟩
  have hmade : ∀ {w : View HostMemory HostSpace} {reply : Reply}, (∀ changed, reply ≠ .flag changed) →
      (∀ pid status, command ≠ .exit pid status) → v.Declined command (.ok reply) → v.Kept w := by
    intro w reply hreply hcommand hdeclined
    cases reply with
    | flag changed => exact absurd rfl (hreply changed)
    | _ =>
      obtain ⟨pid, status, -, heq, -⟩ := hdeclined
      exact absurd heq (hcommand pid status)
  cases command with
  | create parent entry =>
    exact (ensures_create parent entry).bind (fun _ _ _ h => hunmoved _ _ _ h.2)
      fun _ _ _ _ => ensures_pure (hmade nofun nofun)
  | clone source =>
    refine (ensures_clone hlawful (.self h) source).bind ?_
      fun _ _ _ _ => ensures_pure (hmade nofun nofun)
    rintro _ _ w ⟨haccounts, hmemory | ⟨held, e, -, hclone⟩⟩
    · exact ⟨haccounts.same, by rw [hmemory]⟩
    · cases HostMemory.issue_clone hclone with
      | refused _ hobserve => exact ⟨haccounts.same, hobserve⟩
  | destroy pid cascade =>
    exact (ensures_destroy hlawful (.self h) pid cascade).bind hunmoved
      fun _ _ _ _ => ensures_pure (hmade nofun nofun)
  | addChild parent child =>
    exact (ensures_addChild parent child).bind hunmoved
      fun _ _ _ _ => ensures_pure (hmade nofun nofun)
  | changeState pid state =>
    apply (ensures_changeState pid state).bind hunmoved
    rintro changed _ _ ⟨rfl, p, hp, hcan, rfl⟩
    apply ensures_pure
    rintro rfl
    exact ⟨rfl, rfl⟩
  | exit pid status =>
    apply (ensures_exit pid status).bind hunmoved
    rintro _ _ w ⟨rfl, p, hp, ⟨hcan, -⟩ | ⟨-, rfl⟩⟩
    · apply ensures_pure
      rintro ⟨_, _, q, ⟨⟩, hq, hcannot⟩
      rw [hp, Option.some_inj] at hq
      rw [hq, hcannot] at hcan
      cases hcan
    · exact ensures_pure fun _ => ⟨rfl, rfl⟩
  | setInSystemCall pid on =>
    exact (ensures_setInSystemCall pid on).bind hunmoved
      fun _ _ _ _ => ensures_pure (hmade nofun nofun)
  | signal pid signo =>
    exact (ensures_postSignal pid signo).bind hunmoved
      fun _ _ _ _ => ensures_pure (hmade nofun nofun)
  | materialize pid =>
    exact ensures_bind (ensures_materialize_kept hlawful hnumbered pid)
      fun _ _ _ _ => ensures_pure (hmade nofun nofun)
  | tick | ticks | schedule | createMany | materializeCreated | writeActive | disableInterrupts
  | enableInterrupts => cases hoperation

/-- What is kept cannot be told apart. -/
lemma Kept.observe_eq (h : v.Kept w) : w.observe = v.observe := by
  rw [h.same]
  rfl

end View

lemma Supervisor.Shows.declined {μ space : Type} {s : Supervisor μ space} {v : View μ space}
    (h : s.Shows v) {command : Command} {result : Except Fault Reply}
    (hdeclined : s.Declined command result) : v.Declined command result := by
  have hexit : (∃ pid status p, command = .exit pid status ∧ s.roster.get? pid = some p ∧
      p.canEnter .terminated = false) → ∃ pid status p, command = .exit pid status ∧
      v.table[pid]? = some p ∧ p.canEnter .terminated = false := by
    rintro ⟨pid, status, p, hcommand, hp, hcannot⟩
    refine ⟨pid, status, p.view (v.childrenOf pid) (v.signalsOf pid), hcommand, ?_, hcannot⟩
    rw [h.records pid, Roster.record?, hp]
    rfl
  cases result with
  | error fault => trivial
  | ok reply =>
    cases reply with
    | flag changed => exact hdeclined
    | _ => exact hexit hdeclined

namespace Session

variable {limits : Limits} {events : List (Event HostSpace)} {s : Session HostMemory HostSpace}

/-- Failure atomicity: in every state that a run over the host leads to, an operation that is
declined leaves the supervisor and the host's memory as they were, as far as can be observed. -/
theorem Run.observe_eq_of_declined
    (h : Run HostMemory.service HostMemory.Adjusted limits .empty events s) {command : Command}
    (hoperation : command.isOperation = true)
    (hdeclined : s.supervisor.Declined command ((Session.perform HostMemory.service command).run s).result) :
    ((Session.perform HostMemory.service command).run s).state.supervisor.observe = s.supervisor.observe ∧
      ((Session.perform HostMemory.service command).run s).state.supervisor.memory.observe =
        s.supervisor.memory.observe := by
  obtain ⟨v, hshows, hlawful, htraffic⟩ := h.shows
  have hagree := refines_perform HostMemory.service command s v hshows
  have hkept : v.Kept ((View.perform HostMemory.service command).run v).state := by
    have hensures := View.ensures_kept hlawful (.of_traffic htraffic) htraffic hoperation
    cases hresult : ((View.perform HostMemory.service command).run v).result with
    | error fault => exact hensures.stop hresult
    | ok reply =>
      apply hensures.ok hresult
      rw [← hresult, ← hagree.result_eq]
      exact Supervisor.Shows.declined hshows hdeclined
  rw [Supervisor.Shows.observe_eq hshows, Supervisor.Shows.observe_eq hagree.state, hkept.observe_eq,
    ← Supervisor.Shows.memory hshows, ← Supervisor.Shows.memory hagree.state]
  exact ⟨rfl, hkept.memory⟩

/-- A clone has its space already when the host refuses it the second of two stacks. A process has its
identifier and its record already when the heap has no room for it in the index. -/
theorem observe_eq_of_refusals : ∃ events s,
    Run HostMemory.service HostMemory.Adjusted ⟨8, 4, 4, 4, .lenient⟩ .empty events s ∧
    (((perform HostMemory.service (.materialize 2)).run s).result =
        .error (.error (.exhausted .stack)) ∧
      ((perform HostMemory.service (.materialize 2)).run s).state.supervisor.observe =
        s.supervisor.observe ∧
      ((perform HostMemory.service (.materialize 2)).run s).state.supervisor.memory.observe =
        s.supervisor.memory.observe) ∧
    s.supervisor.roster.pool.size < s.supervisor.roster.pool.storage ∧
    ((perform HostMemory.service (.create none 0)).run s).result =
      .error (.error (.exhausted .kernelMemory)) ∧
    ((perform HostMemory.service (.create none 0)).run s).state.supervisor.observe =
      s.supervisor.observe ∧
    ((perform HostMemory.service (.create none 0)).run s).state.supervisor.memory.observe =
      s.supervisor.memory.observe := by
  have hbegun : Run HostMemory.service HostMemory.Adjusted ⟨8, 4, 4, 4, .lenient⟩ .empty [] _ := .start
  have hcloned := ((hbegun.perform (.create none 0)).perform (.materialize 1)).perform (.clone 1)
  have hadjusted := (hcloned.outside (.failMapping 1)).heap ⟨4, 2, 4, 4⟩
  exact ⟨_, _, hadjusted, ⟨rfl, hadjusted.observe_eq_of_declined rfl trivial⟩, by decide +kernel, rfl,
    hadjusted.observe_eq_of_declined rfl trivial⟩

end Session

end Uniprocessor
