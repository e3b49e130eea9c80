import Uniprocessor.Proofs.Fittings

/-!
# Who gets memory in the end

A tick gives memory to the created processes that bring a space along, have no parent, or have one
with a space. If the memory service grants what it is asked for, each tick brings the others one
ancestor nearer to that. So as many ticks as there are processes suffice for all of them, but for
those below a process that was terminated before it had a space.
-/

namespace Uniprocessor

open Uniprocessor.Action

/-- Whether the memory service granted what was asked for. -/
def MemoryCall.isGranted {space : Type} : MemoryCall space → Bool
  | .create answer | .clone _ _ answer => answer.isOk
  | .mapPages _ _ answer => answer.isOk
  | .unmapPages .. | .destroy .. | .root .. => true

/-- Terminated before it had a space, or created below somebody like this without a space. Nobody
gets a space from there. -/
inductive Stranded {space : Type} (stateOf : Pid → Option ProcessState)
    (spaceOf : Pid → Option space) (parentOf : Pid → Option Pid) : Pid → Prop
  | terminated {pid} : stateOf pid = some .terminated → spaceOf pid = none →
      Stranded stateOf spaceOf parentOf pid
  | created {pid parent} : stateOf pid = some .created → spaceOf pid = none →
      parentOf pid = some parent → Stranded stateOf spaceOf parentOf parent →
      Stranded stateOf spaceOf parentOf pid

namespace View

variable {μ space : Type} {memory : MemoryService μ space} {u v w : View μ space}
  {calls c : List (MemoryCall space)} {pid : Nat} {p : ProcessView space}

def Stranded (v : View μ space) : Pid → Prop := Uniprocessor.Stranded v.stateOf v.spaceOf v.parentOf

/-- Nothing is in the way of memory for `pid`: it brings a space along, has no parent, or has one with
a space. -/
def Ready (v : View μ space) (pid : Pid) : Prop :=
  ∀ parent : Nat, v.spaceOf pid = none → v.parentOf pid = some parent → v.spaceOf parent ≠ none

/-! ### What is kept -/

/-- Parents stay the same, and whoever has a space goes on having one. -/
structure Gains (v w : View μ space) : Prop where
  parentOf : ∀ q : Nat, w.parentOf q = v.parentOf q
  spaceOf : ∀ q : Nat, w.spaceOf q = none → v.spaceOf q = none

lemma Gains.refl (v : View μ space) : v.Gains v := ⟨fun _ => rfl, fun _ h => h⟩

lemma Gains.trans (h : u.Gains v) (h' : v.Gains w) : u.Gains w :=
  ⟨fun q => (h'.parentOf q).trans (h.parentOf q), fun q hq => h.spaceOf q (h'.spaceOf q hq)⟩

lemma Gains.ready (h : v.Gains w) (hready : v.Ready pid) : w.Ready pid := by
  intro parent hspace hparent hnone
  rw [h.parentOf] at hparent
  exact hready parent (h.spaceOf pid hspace) hparent (h.spaceOf parent hnone)

lemma gains_withMemory (v : View μ space) (m : μ) : v.Gains { v with memory := m } :=
  ⟨fun _ => rfl, fun _ h => h⟩

lemma gains_update (v : View μ space) (pid : Nat) {f : ProcessView space → ProcessView space}
    (hparent : ∀ p, (f p).parent = p.parent) (hspace : ∀ p, (f p).space ≠ none) :
    v.Gains (v.update pid f) where
  parentOf q := parentOf_update v pid q hparent
  spaceOf q hq := by
    rw [View.spaceOf, get?_update] at hq
    split at hq
    · rename_i hpid
      subst hpid
      cases hp : v.table[q]? with
      | none => exact spaceOf_of_not_live hp
      | some p =>
        rw [hp] at hq
        exact absurd hq (hspace p)
    · exact hq

lemma gains_enter (hp : v.table[pid]? = some p) (state : ProcessState) : v.Gains (v.enter pid state) where
  parentOf q := by
    rw [View.parentOf, get?_enter hp, View.parentOf]
    cases v.table[q]? with
    | none => rfl
    | some r => exact afterEntry_parent v pid state q r
  spaceOf q hq := by rwa [spaceOf_enter hp] at hq

lemma Attempt.gains {result : Except Refusal Unit} (h : Attempt memory v calls pid result c w) :
    v.Gains w := by
  cases h with
  | unknown | late => exact .refl v
  | spaceless | dropped => exact gains_withMemory v _
  | kept | equipped =>
    refine (gains_withMemory v _).trans (gains_update _ pid (fun _ => rfl) fun _ => ?_)
    exact Option.some_ne_none _

lemma Attempts.gains {pids : List Pid} {made : Nat} (h : Attempts memory v calls pids made c w) :
    v.Gains w := by
  induction h with
  | nil => exact .refl _
  | given hattempt _ ih | declined hattempt _ ih => exact hattempt.gains.trans ih

lemma Attempts.subset {pids : List Pid} {made : Nat} (h : Attempts memory v calls pids made c w) :
    calls ⊆ c := by
  induction h with
  | nil => exact List.Subset.refl _
  | given hattempt _ ih | declined hattempt _ ih => exact List.Subset.trans hattempt.subset ih

section Decision

variable {made : Nat} {decision : TickResult × Option ResumePoint}

lemma Decision.gains (h : Decision memory v calls made decision c w) : v.Gains w := by
  cases h with
  | idle => exact .refl v
  | continued _ _ hattempts => exact hattempts.gains
  | switched _ _ _ hattempts hp => exact hattempts.gains.trans (gains_enter hp .running)

lemma Decision.subset (h : Decision memory v calls made decision c w) : calls ⊆ c := by
  cases h with
  | idle => exact List.Subset.refl calls
  | continued _ _ hattempts | switched _ _ _ hattempts => exact hattempts.subset

end Decision

lemma Decisions.subset {outcomes : List TickResult} (h : Decisions memory v calls outcomes c w) :
    calls ⊆ c := by
  induction h with
  | nil => exact List.Subset.refl _
  | cons hdecision _ ih => exact List.Subset.trans hdecision.subset ih

/-- Nobody goes back to the beginning of life. -/
lemma Decisions.stateOf_created {outcomes : List TickResult}
    (h : Decisions memory v calls outcomes c w) (hlawful : v.Lawful)
    (hcreated : w.stateOf pid = some .created) : v.stateOf pid = some .created := by
  obtain ⟨p', hp', hstate⟩ := stateOf_eq_some.mp hcreated
  obtain ⟨p, hp, hevolves⟩ := h.evolves hlawful pid p' hp'
  refine stateOf_eq_some.mpr ⟨p, hp, ?_⟩
  clear hp hp'
  induction hevolves with
  | refl => exact hstate
  | tail _ hlast ih =>
    refine ih ?_
    rcases hlast.edge with heq | hedge
    · rw [← heq, hstate]
    · exact absurd hstate (ProcessState.ne_created_of_edge hedge)

/-! ### Attempts that are granted -/

lemma Stacks.exists_refused {m m' : μ} {handle handle' : space}
    (h : Stacks memory m calls handle none c handle' m') : ∃ call ∈ c, call.isGranted = false := by
  cases h with
  | @refused e => exact ⟨.mapPages handle stackPages (.error e), by simp, rfl⟩
  | @undone _ handle₁ _ e => exact ⟨.mapPages handle₁ stackPages (.error e), by simp, rfl⟩

/-- If the memory service grants everything, only a parent without a space is in the way. -/
lemma Attempt.not_ready_of_error {e : Refusal} (h : Attempt memory v calls pid (.error e) c w)
    (hrange : v.InRange) (hcreated : v.stateOf pid = some .created)
    (hgranted : ∀ call ∈ c, call.isGranted = true) : ¬ v.Ready pid := by
  have hrefused : ∀ call ∈ c, call.isGranted ≠ false := fun call hcall => by simp [hgranted call hcall]
  cases h with
  | unknown hlookup =>
    obtain ⟨p, hp, -⟩ := stateOf_eq_some.mp hcreated
    rw [lookup, hrange.check hp, hp] at hlookup
    cases hlookup
  | late hp hstate =>
    rw [stateOf_eq hp, Option.some_inj] at hcreated
    exact absurd hcreated hstate
  | spaceless hp _ hsource =>
    cases hsource with
    | barren hspace hparent hnone =>
      exact fun hready => hready _ ((spaceOf_eq hp).trans hspace) ((parentOf_eq hp).trans hparent) hnone
    | @inherited parent held answer m _ _ _ _ _ herror =>
      have hanswer := hgranted (.clone held true answer) (by simp)
      cases answer with
      | ok => cases herror
      | error => cases hanswer
    | @created answer m _ _ _ _ herror =>
      have hanswer := hgranted (.create answer) (by simp)
      cases answer with
      | ok => cases herror
      | error => cases hanswer
  | kept _ _ _ hstacks =>
    obtain ⟨call, hcall, hnot⟩ := hstacks.exists_refused
    exact absurd hnot (hrefused call hcall)
  | dropped _ _ _ _ hstacks =>
    obtain ⟨call, hcall, hnot⟩ := hstacks.exists_refused
    exact absurd hnot (hrefused call (List.mem_append_left _ hcall))

lemma Attempt.spaceOf_of_ok (h : Attempt memory v calls pid (.ok ()) c w) : w.spaceOf pid ≠ none := by
  obtain ⟨v', ⟨p, handle, _, _, _, hp, -, rfl⟩, hsame⟩ := h.equipped_of_ok
  rw [spaceOf, hsame, get?_update, if_pos rfl, hp]
  exact Option.some_ne_none handle

/-- What a created process comes to in a tick in which everything is granted: memory has arrived, or
nobody had a space for it. -/
inductive Awaited (v w : View μ space) (pid : Nat) : Prop
  | supplied : w.stateOf pid = some .waiting → w.spaceOf pid ≠ none → Awaited v w pid
  | barren : w.stateOf pid = some .created → ¬ v.Ready pid → Awaited v w pid

lemma Awaited.of_gains (h : Awaited v w pid) (hgains : u.Gains v) : Awaited u w pid := by
  cases h with
  | supplied hwaiting hspace => exact .supplied hwaiting hspace
  | barren hcreated hbarren => exact .barren hcreated fun hready => hbarren (hgains.ready hready)

lemma Awaited.congr (h : Awaited u v pid) (hsame : w.table[pid]? = v.table[pid]?) : Awaited u w pid := by
  have hstate : w.stateOf pid = v.stateOf pid := by rw [stateOf, hsame, stateOf]
  cases h with
  | supplied hwaiting hspace => exact .supplied (hstate.trans hwaiting) (by rwa [spaceOf, hsame])
  | barren hcreated hbarren => exact .barren (hstate.trans hcreated) hbarren

lemma Awaited.not_ready (h : Awaited v w pid) (hstill : w.stateOf pid = some .created) :
    ¬ v.Ready pid := by
  cases h with
  | supplied hwaiting =>
    rw [hstill] at hwaiting
    cases hwaiting
  | barren _ hbarren => exact hbarren

lemma Attempt.awaited {result : Except Refusal Unit} (h : Attempt memory v calls pid result c w)
    (hrange : v.InRange) (hcreated : v.stateOf pid = some .created)
    (hgranted : ∀ call ∈ c, call.isGranted = true) : Awaited v w pid := by
  cases result with
  | ok => exact .supplied h.stateOf_of_ok h.spaceOf_of_ok
  | error e =>
    exact .barren (h.stateOf_of_error.trans hcreated) (h.not_ready_of_error hrange hcreated hgranted)

theorem Attempts.awaited {pids : List Pid} {made : Nat} (h : Attempts memory v calls pids made c w)
    (hnodup : pids.Nodup) (hrange : v.InRange) (hgranted : ∀ call ∈ c, call.isGranted = true)
    (hpid : pid ∈ pids) (hcreated : v.stateOf pid = some .created) : Awaited v w pid := by
  induction h with
  | nil => cases hpid
  | @given _ _ first _ _ rest _ _ _ hattempt hrest ih
  | @declined _ _ first _ _ _ rest _ _ _ hattempt hrest ih =>
    rw [List.nodup_cons] at hnodup
    by_cases hfirst : pid = first
    · subst hfirst
      have hawaited := hattempt.awaited hrange hcreated fun call hcall => hgranted call (hrest.subset hcall)
      exact hawaited.congr (hrest.confined.others pid hnodup.1)
    · have hlater := ih hnodup.2 (hattempt.confined.inRange hrange) hgranted
        ((List.mem_cons.mp hpid).resolve_left hfirst)
        ((hattempt.confined.stateOf_eq (by simpa using hfirst)).trans hcreated)
      exact hlater.of_gains hattempt.gains

/-- Who takes no part in turns goes through a tick as through the attempts to give memory in it. -/
lemma Decision.exists_attempts {made : Nat} {decision : TickResult × Option ResumePoint}
    (h : Decision memory v calls made decision c w) (hlawful : v.Lawful) (hp : v.table[pid]? = some p)
    (hinactive : p.state.isActive = false) :
    ∃ w', Attempts memory v calls v.createdPids made c w' ∧ w.table[pid]? = w'.table[pid]? := by
  cases h with
  | idle hempty =>
    rw [isEmpty_of_get? hp] at hempty
    cases hempty
  | continued _ _ hattempts => exact ⟨w, hattempts, rfl⟩
  | @switched target q _ _ w' _ hq hwaiting hattempts hq' =>
    have hne : pid ≠ target := by
      rintro rfl
      rw [hp, Option.some_inj] at hq
      rw [hq, hwaiting] at hinactive
      cases hinactive
    have hidle : w'.running ≠ some pid := by
      rw [hattempts.confined.running]
      refine hlawful.running_ne hp fun hruns => ?_
      rw [hruns] at hinactive
      cases hinactive
    exact ⟨w', hattempts, get?_enter_of_idle hq' .running hne hidle⟩

theorem Decision.awaited {made : Nat} {decision : TickResult × Option ResumePoint}
    (h : Decision memory v calls made decision c w) (hlawful : v.Lawful) (hrange : v.InRange)
    (hgranted : ∀ call ∈ c, call.isGranted = true) (hcreated : v.stateOf pid = some .created) :
    Awaited v w pid := by
  obtain ⟨p, hp, hstate⟩ := stateOf_eq_some.mp hcreated
  have hpid : pid ∈ v.createdPids := mem_createdPids.mpr ⟨p, hp, hstate⟩
  obtain ⟨w', hattempts, hsame⟩ := h.exists_attempts hlawful hp (by rw [hstate]; rfl)
  exact (hattempts.awaited v.nodup_createdPids hrange hgranted hpid hcreated).congr hsame

/-! ### The way to memory -/

/-- A created process that has memory after so many ticks, if everything is granted: nothing is in the
way, or its parent has memory one tick earlier. -/
def DueWithin (v : View μ space) : Nat → Pid → Prop
  | 0, _ => False
  | ticks + 1, pid => v.stateOf pid = some .created ∧
      (v.Ready pid ∨ ∃ parent, v.parentOf pid = some parent ∧ v.DueWithin ticks parent)

/-- A tick that grants everything brings those it leaves without memory one tick nearer to it. -/
theorem Decision.dueWithin {made : Nat} {decision : TickResult × Option ResumePoint}
    (h : Decision memory v calls made decision c w) (hlawful : v.Lawful) (hrange : v.InRange)
    (hgranted : ∀ call ∈ c, call.isGranted = true) {ticks : Nat} (hdue : v.DueWithin (ticks + 1) pid)
    (hstill : w.stateOf pid = some .created) : w.DueWithin ticks pid := by
  have hbarren : ∀ {q : Nat}, v.stateOf q = some .created → w.stateOf q = some .created → ¬ v.Ready q :=
    fun hcreated hstill => (h.awaited hlawful hrange hgranted hcreated).not_ready hstill
  induction ticks generalizing pid with
  | zero =>
    obtain ⟨hcreated, hready | ⟨_, _, hnever⟩⟩ := hdue
    · exact absurd hready (hbarren hcreated hstill)
    · exact hnever.elim
  | succ ticks ih =>
    obtain ⟨hcreated, hready | ⟨parent, hparent, hdue⟩⟩ := hdue
    · exact absurd hready (hbarren hcreated hstill)
    have hsame : w.parentOf pid = some parent := (h.gains.parentOf pid).trans hparent
    refine ⟨hstill, ?_⟩
    -- a parent without memory is one tick nearer to it, and any other has a space by now
    cases h.awaited hlawful hrange hgranted hdue.1 with
    | barren hstill => exact .inr ⟨parent, hsame, ih hdue hstill⟩
    | supplied _ hsupplied =>
      left
      intro q _ hq
      rw [hsame, Option.some_inj] at hq
      exact hq ▸ hsupplied

/-- Whoever is due has memory when its ticks are over. -/
theorem Decisions.stateOf_ne_created {outcomes : List TickResult}
    (h : Decisions memory v calls outcomes c w) (hlawful : v.Lawful) (hrange : v.InRange)
    (hgranted : ∀ call ∈ c, call.isGranted = true) (hdue : v.DueWithin outcomes.length pid) :
    w.stateOf pid ≠ some .created := by
  induction h with
  | nil => exact hdue.elim
  | cons hdecision hrest ih =>
    intro hcreated
    have hstill := hrest.stateOf_created (hdecision.lawful hlawful) hcreated
    refine ih (hdecision.lawful hlawful) (hdecision.inRange hrange) hgranted ?_ hcreated
    exact hdecision.dueWithin hlawful hrange (fun call hcall => hgranted call (hrest.subset hcall)) hdue
      hstill

/-- A process without a space has been terminated, if it is not created. -/
lemma Lawful.terminated_of_spaceless (h : v.Lawful) (hp : v.table[pid]? = some p)
    (hspace : v.spaceOf pid = none) (hcreated : v.stateOf pid ≠ some .created) :
    v.stateOf pid = some .terminated := by
  rw [spaceOf_eq hp] at hspace
  rw [stateOf_eq hp] at hcreated ⊢
  have hidle : p.state.isActive ≠ true := fun hactive => by
    have hsome := h.backed pid p hp hactive
    rw [hspace] at hsome
    cases hsome
  cases hstate : p.state with
  | created => exact absurd (congrArg some hstate) hcreated
  | terminated => rfl
  | waiting | running | blocked => exact absurd (by rw [hstate]; rfl) hidle

/-- Who waits for memory with something in the way, and is not stranded, has a parent that waits for
memory and is not stranded either. -/
lemma Lawful.exists_created_parent (h : v.Lawful) (hcreated : v.stateOf pid = some .created)
    (hfree : ¬ v.Stranded pid) (hready : ¬ v.Ready pid) :
    ∃ parent, v.parentOf pid = some parent ∧ v.stateOf parent = some .created ∧ ¬ v.Stranded parent := by
  simp only [Ready, not_forall, not_not] at hready
  obtain ⟨parent, hspace, hparent, hnone⟩ := hready
  have habove : ¬ v.Stranded parent := fun h => hfree (.created hcreated hspace hparent h)
  refine ⟨parent, hparent, ?_, habove⟩
  by_contra hbegun
  obtain ⟨q, hq⟩ := h.forest.live_of_up hparent
  exact habove (.terminated (h.terminated_of_spaceless hq hnone hbegun) hnone)

/-- The way up is no longer than there are processes. -/
theorem Lawful.dueWithin_size (h : v.Lawful) (hcreated : v.stateOf pid = some .created)
    (hfree : ¬ v.Stranded pid) : v.DueWithin v.table.size pid := by
  by_contra hnever
  obtain ⟨p, hp, -⟩ := stateOf_eq_some.mp hcreated
  refine h.forest.not_of_passed_up hp (P := fun ticks q => v.stateOf q = some .created ∧
    ¬ v.Stranded q ∧ ¬ v.DueWithin ticks q) ?_ ⟨hcreated, hfree, hnever⟩
  rintro ticks q ⟨hcreated, hfree, hnever⟩
  obtain ⟨parent, hparent, hwaits, habove⟩ :=
    h.exists_created_parent hcreated hfree fun hready => hnever ⟨hcreated, .inl hready⟩
  exact ⟨parent, hparent, hwaits, habove, fun hdue => hnever ⟨hcreated, .inr ⟨parent, hparent, hdue⟩⟩⟩

/-! ### No way to memory -/

lemma Stranded.spaceOf (h : v.Stranded pid) : v.spaceOf pid = none := by
  cases h with
  | terminated _ hspace | created _ hspace => exact hspace

lemma Stranded.exists_parent (h : v.Stranded pid) (hcreated : v.stateOf pid = some .created) :
    ∃ parent, v.parentOf pid = some parent ∧ v.Stranded parent := by
  cases h with
  | terminated hstate =>
    rw [hstate] at hcreated
    cases hcreated
  | created _ _ hparent habove => exact ⟨_, hparent, habove⟩

/-- A stranded process takes no part in turns. -/
lemma Stranded.exists_inactive (h : v.Stranded pid) :
    ∃ p, v.table[pid]? = some p ∧ p.state.isActive = false := by
  cases h with
  | terminated hstate | created hstate =>
    obtain ⟨p, hp, hstate⟩ := stateOf_eq_some.mp hstate
    exact ⟨p, hp, by rw [hstate]; rfl⟩

/-- Where the records of all stranded processes stay, they are stranded afterwards. -/
lemma Stranded.congr (h : v.Stranded pid)
    (hsame : ∀ q : Nat, v.Stranded q → w.table[q]? = v.table[q]?) : w.Stranded pid := by
  induction h with
  | @terminated q hstate hspace =>
    have hq := hsame q (.terminated hstate hspace)
    exact .terminated (by rwa [View.stateOf, hq]) (by rwa [View.spaceOf, hq])
  | @created q parent hstate hspace hparent habove ih =>
    have hq := hsame q (.created hstate hspace hparent habove)
    exact .created (by rwa [View.stateOf, hq]) (by rwa [View.spaceOf, hq])
      (by rwa [View.parentOf, hq]) ih

lemma Attempt.get?_of_stranded {target : Pid} {result : Except Refusal Unit}
    (h : Attempt memory v calls target result c w) (hstranded : v.Stranded pid) :
    w.table[pid]? = v.table[pid]? := by
  by_cases hpid : pid = target
  · subst hpid
    have hspace := hstranded.spaceOf
    cases h with
    | unknown | late | spaceless | dropped => rfl
    | kept hp _ hown =>
      rw [spaceOf_eq hp, hown] at hspace
      cases hspace
    | equipped hp hcreated hsource =>
      obtain ⟨parent, hparent, habove⟩ := hstranded.exists_parent ((stateOf_eq hp).trans (congrArg _ hcreated))
      rw [spaceOf_eq hp] at hspace
      rw [parentOf_eq hp] at hparent
      cases hsource with
      | own hown =>
        rw [hown] at hspace
        cases hspace
      | inherited _ hparent' hheld =>
        rw [hparent, Option.some_inj] at hparent'
        rw [← hparent', habove.spaceOf] at hheld
        cases hheld
      | created _ hnone =>
        rw [hparent] at hnone
        cases hnone
  · exact h.confined.others pid (by simpa using hpid)

lemma Attempts.get?_of_stranded {pids : List Pid} {made : Nat} (h : Attempts memory v calls pids made c w)
    (hstranded : v.Stranded pid) : w.table[pid]? = v.table[pid]? := by
  induction h with
  | nil => rfl
  | given hattempt _ ih | declined hattempt _ ih =>
    have hkept := hstranded.congr fun q hq => hattempt.get?_of_stranded hq
    exact (ih hkept).trans (hattempt.get?_of_stranded hstranded)

lemma Decision.get?_of_stranded {made : Nat} {decision : TickResult × Option ResumePoint}
    (h : Decision memory v calls made decision c w) (hlawful : v.Lawful) (hstranded : v.Stranded pid) :
    w.table[pid]? = v.table[pid]? := by
  obtain ⟨p, hp, hinactive⟩ := hstranded.exists_inactive
  obtain ⟨w', hattempts, hsame⟩ := h.exists_attempts hlawful hp hinactive
  exact hsame.trans (hattempts.get?_of_stranded hstranded)

/-- Ticks do not change a stranded process. -/
theorem Decisions.get?_of_stranded {outcomes : List TickResult}
    (h : Decisions memory v calls outcomes c w) (hlawful : v.Lawful) (hstranded : v.Stranded pid) :
    w.table[pid]? = v.table[pid]? := by
  induction h with
  | nil => rfl
  | cons hdecision _ ih =>
    have hkept := hstranded.congr fun q hq => hdecision.get?_of_stranded hlawful hq
    exact (ih (hdecision.lawful hlawful) hkept).trans (hdecision.get?_of_stranded hlawful hstranded)

/-- After as many ticks as there are processes the created ones are those that were stranded. -/
theorem Decisions.created_iff {outcomes : List TickResult} (h : Decisions memory v calls outcomes c w)
    (hlawful : v.Lawful) (hrange : v.InRange) (hgranted : ∀ call ∈ c, call.isGranted = true)
    (hlength : outcomes.length = v.table.size) :
    w.stateOf pid = some .created ↔ v.stateOf pid = some .created ∧ v.Stranded pid := by
  constructor
  · intro hstill
    have hcreated := h.stateOf_created hlawful hstill
    refine ⟨hcreated, ?_⟩
    by_contra hfree
    refine h.stateOf_ne_created hlawful hrange hgranted ?_ hstill
    rw [hlength]
    exact hlawful.dueWithin_size hcreated hfree
  · rintro ⟨hcreated, hstranded⟩
    rw [View.stateOf, h.get?_of_stranded hlawful hstranded]
    exact hcreated

end View

/-! ### Ticks in a run -/

namespace Supervisor

variable {μ space : Type} {s : Supervisor μ space} {v : View μ space}

/-- Terminated before it had a space, or created below somebody like this without a space. -/
def Stranded (s : Supervisor μ space) : Pid → Prop :=
  Uniprocessor.Stranded s.stateOf s.spaceOf s.roster.parentOf

lemma Shows.stranded_eq (h : s.Shows v) : s.Stranded = v.Stranded := by
  have hstate : s.stateOf = v.stateOf := funext h.stateOf_eq
  have hparent : s.roster.parentOf = v.parentOf := funext h.parentOf_eq
  rw [Stranded, View.Stranded, hstate, h.spaceOf_eq, hparent]

lemma Shows.length_processes (h : s.Shows v) : s.processes.length = v.table.size := by
  rw [← Std.ExtTreeMap.length_toList, ← h.processes_eq, List.length_map]

end Supervisor

namespace Session

variable {μ space : Type} {memory : MemoryService μ space} {outside : μ → μ → Prop} {limits : Limits}
  {start : μ} {events : List (Event space)} {s : Session μ space}

/-- Every tick makes progress: if the memory service grants everything it is asked for in as many ticks
as there are processes, the processes without memory afterwards are those that were stranded. -/
theorem Run.created_iff_stranded (h : Run memory outside limits start events s) :
    ∃ outcomes t es, (Session.perform memory (.ticks s.supervisor.processes.length)).run s =
        ⟨.ok (.outcomes outcomes), t, es⟩ ∧
      outcomes.length = s.supervisor.processes.length ∧
      ((∀ call ∈ Event.calls es, call.isGranted = true) → ∀ pid : Pid,
        t.supervisor.stateOf pid = some .created ↔
          s.supervisor.stateOf pid = some .created ∧ s.supervisor.Stranded pid) := by
  obtain ⟨v, hshows, hlawful, -⟩ := h.shows
  have hrange := Supervisor.Shows.inRange hshows
  have hcount := Supervisor.Shows.length_processes hshows
  have hticks : (View.perform memory (.ticks s.supervisor.processes.length)).Ensures [] v
      (fun reply c w => ∃ outcomes, reply = .outcomes outcomes ∧
        outcomes.length = s.supervisor.processes.length ∧ View.Decisions memory v [] outcomes c w)
      fun _ _ _ => False :=
    ensures_bind (View.ensures_ticks hlawful hrange _) fun outcomes _ _ ⟨hlength, hdecisions⟩ =>
      ensures_pure ⟨outcomes, rfl, hlength, hdecisions⟩
  obtain ⟨_, t, es, w, hrun, hafter, outcomes, rfl, hlength, hdecisions⟩ :=
    (refines_perform memory _).exists_run hshows hticks
  refine ⟨outcomes, t, es, hrun, hlength, fun hgranted pid => ?_⟩
  rw [Supervisor.Shows.stateOf_eq hafter, Supervisor.Shows.stateOf_eq hshows,
    Supervisor.Shows.stranded_eq hshows]
  exact hdecisions.created_iff hlawful hrange hgranted (hlength.trans hcount)

/-- Memory comes to 3 first, then to 2 below it, then to 1 below 2, and not to 5 below 4. -/
theorem created_iff_stranded_of_chain : ∃ events s outcomes t es,
    Run HostMemory.service HostMemory.Adjusted ⟨8, 8, 4, 4, .lenient⟩ .empty events s ∧
    (Session.perform HostMemory.service (.ticks s.supervisor.processes.length)).run s =
      ⟨.ok (.outcomes outcomes), t, es⟩ ∧
    (∀ call ∈ Event.calls es, call.isGranted = true) ∧
    (s.supervisor.stateOf 1 = some .created ∧ s.supervisor.stateOf 5 = some .created) ∧
    ∀ pid : Pid, t.supervisor.stateOf pid = some .created ↔
      s.supervisor.stateOf pid = some .created ∧ s.supervisor.Stranded pid := by
  have hbegun : Run HostMemory.service HostMemory.Adjusted ⟨8, 8, 4, 4, .lenient⟩ .empty [] _ := .start
  have hmade := (((((hbegun.perform (.create none 0)).perform (.create none 0)).perform
    (.create none 0)).perform (.addChild 3 2)).perform (.addChild 2 1))
  have hended := ((hmade.perform (.create none 0)).perform (.create (some 4) 0)).perform (.exit 4 0)
  obtain ⟨outcomes, t, es, hrun, -, hcreated⟩ := hended.created_iff_stranded
  have hevents : _ = es := congrArg Outcome.events hrun
  have hgranted : ∀ call ∈ Event.calls es, call.isGranted = true := by
    rw [← hevents]
    decide +kernel
  exact ⟨_, _, outcomes, t, es, hended, hrun, hgranted, by decide +kernel, hcreated hgranted⟩

/-- A process whose parent was terminated before it had a space gets no memory in as many ticks as
there are processes, though the one beside it does. -/
theorem created_after_ticks_of_terminated_parent : ∃ events s,
    Run HostMemory.service HostMemory.Adjusted ⟨8, 8, 4, 4, .lenient⟩ .empty events s ∧
    s.supervisor.processes.length = 3 ∧
    ((Session.perform HostMemory.service (.ticks 3)).run s).result =
      .ok (.outcomes [.continued, .switched 3, .continued]) ∧
    (∀ call ∈ Event.calls ((Session.perform HostMemory.service (.ticks 3)).run s).events,
      call.isGranted = true) ∧
    ((Session.perform HostMemory.service (.ticks 3)).run s).state.supervisor.stateOf 2 =
      some .created := by
  have hbegun : Run HostMemory.service HostMemory.Adjusted ⟨8, 8, 4, 4, .lenient⟩ .empty [] _ := .start
  have hended := (((hbegun.perform (.create none 0)).perform (.create (some 1) 0)).perform
    (.create none 0)).perform (.exit 1 0)
  refine ⟨_, _, hended, ?_, ?_, ?_, ?_⟩
  all_goals decide +kernel

end Session

end Uniprocessor
