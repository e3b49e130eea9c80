import Uniprocessor.Proofs.Ownership
import Uniprocessor.Proofs.Resemblance
import Uniprocessor.Proofs.SwitchTargets

/-!
# Where pending signals come from

A signal queue holds what was sent to its process since this was made, in order and as often as it
was sent. What other processes are sent, and who had the identifier or the slots of the pool before,
does not show in it. A signal is dropped only when the queues of all processes together fill the
pool.
-/

namespace Uniprocessor

open Uniprocessor.Action Relation

/-- The identifiers that a command with this result gave to new processes. -/
def issuedBy : Except Fault Reply → List Pid
  | .ok (.pid pid) => [pid]
  | .ok (.series made _) => made
  | _ => []

/-- The signals that a command with this result queued for `pid`. -/
def Command.queued (command : Command) (result : Except Fault Reply) (pid : Pid) : List UInt8 :=
  match command, result with
  | .signal target signo, .ok _ => if target = pid then [signo] else []
  | _, _ => []

namespace View

variable {μ space : Type} {memory : MemoryService μ space} {outside : μ → μ → Prop} {start : μ}
  {u v w : View μ space} {calls : List (MemoryCall space)} {pid : Pid} {p : ProcessView space}
  {made more : List Pid}

/-- The processes `made` are new and have no signals yet. All others were there and keep theirs. -/
def Makes (made : List Pid) (v w : View μ space) : Prop :=
  ∀ (q : Nat) p', w.table[q]? = some p' →
    (q ∈ made ∧ p'.signals = []) ∨
      (q ∉ made ∧ ∃ p, v.table[q]? = some p ∧ p'.signals = p.signals)

namespace Makes

lemma of_matures (h : ∀ q, Matures (fun p p' => p'.signals = p.signals) q v w) : Makes [] v w :=
  fun q p' hp' => .inr ⟨List.not_mem_nil, h q p' hp'⟩

lemma refl (v : View μ space) : Makes [] v v :=
  .of_matures (matures_of_table rfl fun _ => rfl)

lemma trans (h : Makes made u v) (h' : Makes more v w) : Makes (made ++ more) u w := by
  intro q p' hp'
  rcases h' q p' hp' with ⟨hq, hsignals⟩ | ⟨hq, p, hp, hsignals⟩
  · exact .inl ⟨List.mem_append_right made hq, hsignals⟩
  · rcases h q p hp with ⟨hmade, hempty⟩ | ⟨hmade, hbefore⟩
    · exact .inl ⟨List.mem_append_left more hmade, hsignals.trans hempty⟩
    · obtain ⟨r, hr, heq⟩ := hbefore
      exact .inr ⟨by simp [hmade, hq], r, hr, hsignals.trans heq⟩

lemma after (h : Makes made u v) (h' : Makes [] v w) : Makes made u w := by
  rw [← List.append_nil made]
  exact h.trans h'

lemma update (v : View μ space) (pid : Nat) {f : ProcessView space → ProcessView space}
    (hf : ∀ p, (f p).signals = p.signals) : Makes [] v (v.update pid f) :=
  .of_matures fun q => matures_update (by intro _; rfl) v pid q (by intro p _; exact hf p)

lemma adopt (v : View μ space) (parent child : Nat) : Makes [] v (v.adopt parent child) :=
  (update v parent (by intro _; rfl)).trans (update _ child (by intro _; rfl))

lemma born (v : View μ space) (parent : Option Pid) (pid : Nat) (entry : UInt64) :
    Makes [pid] v (v.born parent pid entry) := by
  have henroll : Makes [pid] v (v.enroll pid entry) := by
    intro q p' hp'
    rw [get?_enroll] at hp'
    split at hp'
    · rename_i hq
      cases hp'
      exact .inl ⟨List.mem_singleton.mpr hq, rfl⟩
    · rename_i hq
      exact .inr ⟨fun hmem => hq (List.mem_singleton.mp hmem), p', hp', rfl⟩
  cases parent with
  | none => exact henroll
  | some parent => exact henroll.after (adopt _ parent pid)

lemma remove (v : View μ space) (pid : Nat) : Makes [] v (v.remove pid) := by
  refine .of_matures fun q => ?_
  by_cases hq : q = pid
  · intro p' hp'
    rw [get?_remove, if_pos hq] at hp'
    cases hp'
  · exact matures_of_map ((get?_remove v pid q).trans (if_neg hq)) fun _ _ => rfl

lemma removeAll (v : View μ space) (pids : List Pid) : Makes [] v (v.removeAll pids) := by
  induction pids generalizing v with
  | nil => exact .refl v
  | cons pid pids ih => exact (remove v pid).trans (ih (v.remove pid))

lemma enter (hp : v.table[pid]? = some p) (state : ProcessState) : Makes [] v (v.enter pid state) := by
  refine .of_matures fun q => matures_of_map (get?_enter hp state q) fun r _ => ?_
  unfold afterEntry
  repeat' split
  all_goals rfl

lemma flagged (v : View μ space) (pid : Nat) (on : Bool) : Makes [] v (v.flagged pid on) := by
  rw [View.flagged]
  split
  · exact .refl v
  · exact update v pid fun _ => rfl

lemma equipped (hw : v.Equipped pid w) : Makes [] v w := by
  obtain ⟨p, handle, root, userStack, kernelStack, -, -, rfl⟩ := hw
  exact update v pid fun _ => rfl

lemma returned (hw : v.Returned pid w) : Makes [] v w := by
  rcases hw with rfl | ⟨p, handle, -, -, -, rfl⟩
  · exact .refl w
  · exact update v pid fun _ => rfl

lemma turns (h : ReflTransGen Turn v w) : Makes [] v w := by
  induction h with
  | refl => exact .refl v
  | tail _ hturn ih =>
    cases hturn with
    | equipped hw => exact ih.trans (equipped hw)
    | returned hw => exact ih.trans (returned hw)
    | promoted hp => exact ih.trans (enter hp .running)

end Makes

/-- The processes of a series are told in the reply, and nothing in it fails. -/
lemma ensures_createMany_makes (nested : Bool) (count : Nat) (parent : Option Pid) :
    (createMany nested count parent : Action space (View μ space) _).Ensures calls v
      (fun answer _ w => Makes answer.1 v w) fun _ _ _ => False := by
  induction count generalizing v calls parent with
  | zero => exact ensures_pure (.refl v)
  | succ count ih =>
    refine ensures_bind
      (Q := fun answer _ w => match answer with
        | .ok pid => Makes [pid] v w
        | .error _ => w = v)
      (ensures_attempt ((ensures_create parent 0).mono ?_ ?_)) ?_
    · rintro pid _ _ ⟨-, rfl, -⟩
      exact .born v parent pid 0
    · rintro fault _ _ ⟨⟨e, rfl⟩, -, rfl⟩
      rfl
    · rintro (e | pid) _ w hmade
      · obtain rfl := hmade
        exact ensures_pure (.refl w)
      · exact ensures_bind (ih _) fun _ _ _ hmore => ensures_pure (hmade.trans hmore)

/-- What a command makes of the signals of all processes. -/
def Hears (command : Command) (result : Except Fault Reply) (v w : View μ space) : Prop :=
  ∀ (q : Nat) p', w.table[q]? = some p' →
    (q ∈ issuedBy result ∧ p'.signals = []) ∨
      (q ∉ issuedBy result ∧
        ∃ p, v.table[q]? = some p ∧ p'.signals = p.signals ++ command.queued result q)

lemma Makes.hears {command : Command} {result : Except Fault Reply} (h : Makes made v w)
    (hmade : issuedBy result = made) (hqueued : command.queued result = fun _ => []) :
    Hears command result v w := by
  intro q p' hp'
  rw [hmade, hqueued]
  simpa using h q p' hp'

lemma Hears.congr {command : Command} {result : Except Fault Reply} {w' : View μ space}
    (h : Hears command result v w) (htable : w'.table = w.table) : Hears command result v w' := by
  rw [Hears, htable]
  exact h

/-- What a step makes of the signals that is no turn and creates no series of processes. -/
theorem Step.hears {command : Command} {result : Except Fault Reply} (h : v.Step command result w)
    (hturn : command.isTurn = false)
    (hmany : ∀ nested count parent, command ≠ .createMany nested count parent) :
    Hears command result v w := by
  cases h with
  | stopped command fault => exact (Makes.refl v).hears rfl (by cases command <;> rfl)
  | ignored | notExited => exact (Makes.refl v).hears rfl rfl
  | interrupts hcommand => rcases hcommand with rfl | rfl <;> exact (Makes.refl v).hears rfl rfl
  | created entry => exact (Makes.born v _ _ entry).hears rfl rfl
  | createdMany nested count parent => exact absurd rfl (hmany nested count parent)
  | @cloned source pid entry =>
    exact ((Makes.born v (some source) pid entry).after (.update _ pid (by intro _; rfl))).hears rfl rfl
  | destroyed => exact (Makes.removeAll v _).hears rfl rfl
  | linked => exact (Makes.adopt v _ _).hears rfl rfl
  | changed hp => exact (Makes.enter hp _).hears rfl rfl
  | @exited pid p status hp =>
    exact ((Makes.enter hp .terminated).trans (.update _ pid (by intro _; rfl))).hears rfl rfl
  | flagged on => exact (Makes.flagged v _ on).hears rfl rfl
  | @signalled pid signo =>
    intro q p' hp'
    rw [get?_update] at hp'
    rw [Command.queued]
    refine .inr ⟨List.not_mem_nil, ?_⟩
    split at hp'
    · rename_i hq
      subst hq
      obtain ⟨p, hp, rfl⟩ := Option.map_eq_some_iff.mp hp'
      exact ⟨p, hp, by rw [if_pos rfl]⟩
    · rename_i hq
      exact ⟨p', hp', by rw [if_neg (Ne.symm hq), List.append_nil]⟩
  | materialized hw => exact (Makes.equipped hw).hears rfl rfl
  | notMaterialized fault hw => exact (Makes.returned hw).hears rfl rfl
  | turned result hcommand =>
    rw [hturn] at hcommand
    cases hcommand
  | written => exact (Makes.of_matures (matures_of_table rfl fun _ => rfl)).hears rfl rfl

/-- Every command does with the signals what its result says. -/
theorem ensures_hears (hlawful : v.Lawful) (hrange : v.InRange)
    (h : Traffic memory outside start calls v.memory v.spaces) (command : Command) :
    (perform memory command).Ensures calls v (fun reply _ => Hears command (.ok reply) v)
      fun fault _ => Hears command (.error fault) v := by
  cases hturn : command.isTurn with
  | true =>
    refine (ensures_round hlawful hrange hturn).mono (fun reply c w hround => ?_) fun _ _ _ h => h
    obtain ⟨v', hturns, haccounts⟩ := hround.turned h
    refine (Makes.turns hturns).hears ?_ ?_ |>.congr haccounts.table_eq
    · cases hround <;> rfl
    · cases hround <;> rfl
  | false =>
    by_cases hmany : ∃ nested count parent, command = .createMany nested count parent
    · obtain ⟨nested, count, parent, rfl⟩ := hmany
      exact ensures_bind ((ensures_createMany_makes nested count parent).mono (fun _ _ _ h => h)
        fun _ _ _ => False.elim) fun _ _ _ hmade => ensures_pure (hmade.hears rfl rfl)
    · have hstep := ensures_perform hlawful hrange h command
      refine hstep.mono (fun reply c w ⟨v', hstep, haccounts⟩ => ?_) fun fault c w ⟨v', hstep, haccounts⟩ => ?_
      · exact (hstep.hears hturn fun nested count parent heq => hmany ⟨_, _, _, heq⟩).congr
          haccounts.table_eq
      · exact (hstep.hears hturn fun nested count parent heq => hmany ⟨_, _, _, heq⟩).congr
          haccounts.table_eq

/-- A valid signal for a live process is dropped exactly when there is a shortage of room for it. -/
lemma run_postSignal (hcheck : v.check pid = .ok ()) (hp : v.table[pid]? = some p) {signo : UInt8}
    (hsigno : isSignal signo = true) :
    ((postSignal pid signo : Action space (View μ space) Unit).run v).result =
      match v.signalShortage? with
      | none => .ok ()
      | some e => .error (.error (.ofPool .signal e)) := by
  rw [postSignal, hsigno]
  dsimp only
  rw [if_neg (by decide), run_bind_quiet (run_find_ok (lookup_eq hcheck hp)), run_bind_quiet (run_get v)]
  cases v.signalShortage? <;> rfl

end View

namespace Session

variable {μ space : Type} (memory : MemoryService μ space)

/-- The signals that `pid` was sent by what was done since a command gave out this identifier, in
order. -/
def posted : List (Session μ space × Command) → Pid → List UInt8
  | [], _ => []
  | (s, command) :: past, pid =>
    let result := ((perform memory command).run s).result
    if pid ∈ issuedBy result then [] else posted past pid ++ command.queued result pid

variable {memory} {outside : μ → μ → Prop} {limits : Limits} {start : μ} {events : List (Event space)}
  {past : List (Session μ space × Command)} {s : Session μ space} {pid : Nat} {p : ProcessView space}

/-- What a command makes of the signals of a live process. -/
lemma Run.hears (h : Run memory outside limits start events s) (command : Command) :
    let outcome := (Session.perform memory command).run s
    outcome.state.supervisor.viewOf pid = some p →
      (pid ∈ issuedBy outcome.result ∧ p.signals = []) ∨
      (pid ∉ issuedBy outcome.result ∧ ∃ q, s.supervisor.viewOf pid = some q ∧
        p.signals = q.signals ++ command.queued outcome.result pid) := by
  intro outcome hp
  obtain ⟨v, hshows, hlawful, htraffic⟩ := h.shows
  have hagree := refines_perform memory command s v hshows
  have hhears := View.ensures_hears hlawful (Supervisor.Shows.inRange hshows) htraffic command
  rw [Supervisor.Shows.viewOf_eq hagree.state] at hp
  rw [Supervisor.Shows.viewOf_eq hshows, show outcome.result = _ from hagree.result_eq]
  cases hresult : ((View.perform memory command).run v).result with
  | ok reply => exact hhears.ok hresult pid p hp
  | error fault => exact hhears.stop hresult pid p hp

/-- The signals of a live process are those it was sent. -/
theorem History.signals_eq (h : History memory outside limits start past events s)
    (hp : s.supervisor.viewOf pid = some p) : p.signals = posted memory past pid := by
  induction h generalizing p with
  | start => cases hp
  | outside _ _ ih => exact ih hp
  | heap storage hpast ih =>
    rw [hpast.run.viewOf_withStorage storage] at hp
    exact ih hp
  | @perform past events s command hpast ih =>
    rw [posted]
    rcases hpast.run.hears command hp with ⟨hissued, hempty⟩ | ⟨hissued, q, hq, hsignals⟩
    · rw [if_pos hissued, hempty]
    · rw [if_neg hissued, hsignals, ih hq]

/-- Signals are kept, in every run and for every live process: pending are those that it was sent since
its identifier was last given out, in the order in which they were sent, and their number is on
record. One more is dropped for want of signals exactly when those pending for all live processes
together are as many as the limits allow, and otherwise it is kept if the heap has room for it. A limit
that does not fit into 32 bits is cut down to one that does. -/
theorem History.pending_posted (h : History memory outside limits start past events s) :
    ∀ p ∈ s.supervisor.processes,
      s.supervisor.pendingSignals p.pid = .ok (posted memory past p.pid) ∧
      p.signals.length = (posted memory past p.pid).length ∧
      ∀ signo, isSignal signo = true →
        ((Session.perform memory (.signal p.pid signo)).run s).result =
          let pending := (s.supervisor.processes.map fun p => (posted memory past p.pid).length).sum
          if pending = min limits.signals Pool.capacityBound then .error (.error (.exhausted .signal))
          else if pending < s.supervisor.signals.storage then .ok .done
          else .error (.error (.exhausted .kernelMemory)) := by
  obtain ⟨v, hshows, -, -⟩ := h.run.shows
  have hsignals : ∀ p ∈ s.supervisor.processes, v.signalsOf p.pid = posted memory past p.pid :=
    fun p hp => h.signals_eq
      ((Supervisor.Shows.viewOf_eq hshows p.pid).trans (Supervisor.Shows.table_of_mem hshows hp))
  have hlength : ∀ p ∈ s.supervisor.processes, p.signals.length = (posted memory past p.pid).length := by
    intro p hp
    have hget := (Supervisor.Shows.roster hshows).mem_toList.mp hp
    rw [← hsignals p hp, ← (Supervisor.Shows.signals hshows).length_eq, Roster.signalQueueOf_eq hget]
  have hcount : (s.supervisor.processes.map fun p => (posted memory past p.pid).length).sum =
      v.signalCount := by
    rw [Supervisor.Shows.signalCount_eq hshows, ← Supervisor.Shows.sum_signals_length hshows]
    exact congrArg List.sum (List.map_congr_left fun p hp => (hlength p hp).symm)
  have hcapacity : min limits.signals Pool.capacityBound = s.supervisor.signals.capacity := by
    rw [Supervisor.Shows.signalCapacity hshows, h.run.limits_eq]
  intro p hp
  have hview := Supervisor.Shows.table_of_mem hshows hp
  have hcheck := (Supervisor.Shows.inRange hshows).check hview
  refine ⟨?_, hlength p hp, fun signo hsigno => ?_⟩
  · rw [Supervisor.Shows.pendingSignals_eq hshows, View.lookup_eq hcheck hview, ← hsignals p hp]
    rfl
  · rw [(refines_perform memory (.signal p.pid signo) s v hshows).result_eq, View.perform, run_bind]
    have hresult := View.run_postSignal hcheck hview hsigno
    rw [Supervisor.Shows.signalShortage?_eq hshows] at hresult
    rw [hcount, Supervisor.Shows.signalCount_eq hshows, hcapacity]
    have hle := (Supervisor.Shows.signals hshows).wellFormed.size_le_capacity
    cases hshortage : Pool.shortage? s.supervisor.signals.capacity s.supervisor.signals.storage
        s.supervisor.signals.size with
    | none =>
      obtain ⟨hroom, hheap⟩ := Pool.shortage?_eq_none.mp hshortage
      rw [hshortage] at hresult
      rw [run_eq_of_result hresult, if_neg hroom.ne, if_pos hheap]
      rfl
    | some e =>
      rw [hshortage] at hresult
      rw [run_eq_of_result hresult]
      cases e with
      | exhausted =>
        rw [if_pos (le_antisymm hle (Pool.shortage?_eq_exhausted.mp hshortage))]
        rfl
      | storageFailed =>
        obtain ⟨hroom, hheap⟩ := Pool.shortage?_eq_storageFailed.mp hshortage
        rw [if_neg hroom.ne, if_neg (Nat.not_lt.mpr hheap)]
        rfl

/-- A signal is dropped, and then a process is destroyed and its identifier and its slot given out once
more. -/
theorem pending_posted_of_reissue : ∃ past events s,
    History HostMemory.service HostMemory.Adjusted ⟨8, 4, 4, 2, .lenient⟩ .empty past events s ∧
    s.supervisor.processes.map (·.pid) = [1, 2] ∧
    posted HostMemory.service past 1 = [5] ∧ posted HostMemory.service past 2 = [7] ∧
    ∀ p ∈ s.supervisor.processes,
      s.supervisor.pendingSignals p.pid = .ok (posted HostMemory.service past p.pid) := by
  have hbegun : History HostMemory.service HostMemory.Adjusted ⟨8, 4, 4, 2, .lenient⟩ .empty [] [] _ :=
    .start
  have hfull := (((hbegun.perform (.createMany false 2 none)).perform (.signal 1 5)).perform
    (.signal 2 9)).perform (.signal 1 6)
  have hreissued := ((hfull.perform (.destroy 2 false)).perform (.create none 0)).perform (.signal 2 7)
  exact ⟨_, _, _, hreissued, by decide +kernel, by decide +kernel, by decide +kernel,
    fun p hp => (hreissued.pending_posted p hp).1⟩

end Session

end Uniprocessor
