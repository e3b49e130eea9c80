import Mathlib.Data.Set.Card
import Uniprocessor.Proofs.Progress

/-!
# One pass over those that wait for memory

A pass gives memory to the created processes in ascending order of identifiers, as they were listed
before the first of them had its turn. A child without a space of its own gets a copy of its parent's,
so it comes away empty if its parent has none yet. If the memory service grants everything, memory comes
down from the processes that have a space, or need no parent for one, along the links on which nobody
without a space has their turn after a child.
-/

namespace Uniprocessor

open Uniprocessor.Action Relation

section Reach

variable {space : Type} (stateOf : Pid → Option ProcessState) (spaceOf : Pid → Option space)
  (parentOf : Pid → Option Pid)

/-- A created process without a space, and a parent that has a space before the pass or comes before it
in the pass. -/
structure Draws (child parent : Pid) : Prop where
  up : parentOf child = some parent
  created : stateOf child = some .created
  spaceless : spaceOf child = none
  earlier : spaceOf parent = none → parent < child

/-- Memory comes to `pid` in one pass: the way up from it, along created processes without a space, leads
to one that has a space before the pass or is created without a space and a parent. -/
def WithinReach (pid : Pid) : Prop :=
  ∃ source, ReflTransGen (Draws stateOf spaceOf parentOf) pid source ∧
    (spaceOf source ≠ none ∨
      stateOf source = some .created ∧ parentOf source = none ∧ spaceOf source = none)

variable {stateOf spaceOf parentOf} {pid parent : Nat}

lemma withinReach_of_space (h : spaceOf pid ≠ none) : WithinReach stateOf spaceOf parentOf pid :=
  ⟨pid, .refl, .inl h⟩

lemma WithinReach.created (h : WithinReach stateOf spaceOf parentOf pid) (hnone : spaceOf pid = none) :
    stateOf pid = some .created := by
  obtain ⟨source, hway, hsource⟩ := h
  rcases hway.cases_head with rfl | ⟨_, hdraws, -⟩
  · exact (hsource.resolve_left (not_not.mpr hnone)).1
  · exact hdraws.created

/-- For a created process without a space all depends on its parent, if it has one. -/
lemma withinReach_iff (hcreated : stateOf pid = some .created) (hnone : spaceOf pid = none) :
    WithinReach stateOf spaceOf parentOf pid ↔ ∀ parent : Nat, parentOf pid = some parent →
      (spaceOf parent = none → parent < pid) ∧ WithinReach stateOf spaceOf parentOf parent := by
  constructor
  · rintro ⟨source, hway, hsource⟩ parent hparent
    rcases hway.cases_head with rfl | ⟨next, hdraws, hrest⟩
    · rw [(hsource.resolve_left (not_not.mpr hnone)).2.1] at hparent
      cases hparent
    · have hup := hdraws.up
      rw [hparent, Option.some_inj] at hup
      subst hup
      exact ⟨hdraws.earlier, source, hrest, hsource⟩
  · intro habove
    cases hparent : parentOf pid with
    | none => exact ⟨pid, .refl, .inr ⟨hcreated, hparent, hnone⟩⟩
    | some parent =>
      obtain ⟨hearlier, source, hway, hsource⟩ := habove parent hparent
      exact ⟨source, .head ⟨hparent, hcreated, hnone, hearlier⟩ hway, hsource⟩

end Reach

namespace View

variable {μ space : Type} {memory : MemoryService μ space} {v w : View μ space}
  {calls c : List (MemoryCall space)} {pid : Nat} {p : ProcessView space} {pids : List Pid} {made : Nat}

def WithinReach (v : View μ space) : Pid → Prop :=
  Uniprocessor.WithinReach v.stateOf v.spaceOf v.parentOf

/-! ### One attempt that is granted -/

/-- Nothing was in the way of an attempt that succeeds. -/
lemma Attempt.ready_of_ok (h : Attempt memory v calls pid (.ok ()) c w) : v.Ready pid := by
  cases h with
  | equipped hp _ hsource =>
    intro parent hnone hparent
    rw [spaceOf_eq hp] at hnone
    rw [parentOf_eq hp] at hparent
    cases hsource with
    | own hspace =>
      rw [hspace] at hnone
      cases hnone
    | inherited _ hup hheld =>
      rw [hparent, Option.some_inj] at hup
      rw [hup, hheld]
      nofun
    | created _ hroot =>
      rw [hparent] at hroot
      cases hroot

/-- An attempt that fails though everything is granted changes nothing. -/
lemma Attempt.get?_of_error {e : Refusal} (h : Attempt memory v calls pid (.error e) c w)
    (hgranted : ∀ call ∈ c, call.isGranted = true) (q : Nat) : w.table[q]? = v.table[q]? := by
  cases h with
  | unknown | late | spaceless | dropped => rfl
  | kept _ _ _ hstacks =>
    obtain ⟨call, hcall, hnot⟩ := hstacks.exists_refused
    rw [hgranted call hcall] at hnot
    cases hnot

/-- If everything is granted, a created process gets memory exactly if nothing is in the way. -/
lemma Attempt.waiting_iff {result : Except Refusal Unit} (h : Attempt memory v calls pid result c w)
    (hrange : v.InRange) (hcreated : v.stateOf pid = some .created)
    (hgranted : ∀ call ∈ c, call.isGranted = true) :
    w.stateOf pid = some .waiting ↔ v.Ready pid := by
  cases result with
  | ok => exact iff_of_true h.stateOf_of_ok h.ready_of_ok
  | error e =>
    refine iff_of_false ?_ (h.not_ready_of_error hrange hcreated hgranted)
    rw [h.stateOf_of_error, hcreated]
    nofun

/-! ### Passes -/

/-- An attempt in the middle of a pass, with what comes before and behind it. -/
lemma Attempts.exists_attempt {before rest : List Pid}
    (h : Attempts memory v calls (before ++ pid :: rest) made c w) :
    ∃ done c₁ u result c₂ u' left, Attempts memory v calls before done c₁ u ∧
      Attempt memory u c₁ pid result c₂ u' ∧ Attempts memory u' c₂ rest left c w := by
  induction before generalizing v calls made with
  | nil =>
    cases h with
    | given hattempt hrest => exact ⟨0, _, _, _, _, _, _, .nil v calls, hattempt, hrest⟩
    | declined hattempt hrest => exact ⟨0, _, _, _, _, _, _, .nil v calls, hattempt, hrest⟩
  | cons first before ih =>
    cases h with
    | given hattempt hrest =>
      obtain ⟨done, c₁, u, result, c₂, u', left, hbefore, hmiddle, hbehind⟩ := ih hrest
      exact ⟨done + 1, c₁, u, result, c₂, u', left, .given hattempt hbefore, hmiddle, hbehind⟩
    | declined hattempt hrest =>
      obtain ⟨done, c₁, u, result, c₂, u', left, hbefore, hmiddle, hbehind⟩ := ih hrest
      exact ⟨done, c₁, u, result, c₂, u', left, .declined hattempt hbefore, hmiddle, hbehind⟩

/-- In a pass in which everything is granted, each process either gets memory or stays as it was. -/
lemma Attempts.equipped_or_same (h : Attempts memory v calls pids made c w) (hnodup : pids.Nodup)
    (hgranted : ∀ call ∈ c, call.isGranted = true) (q : Nat) :
    w.table[q]? = v.table[q]? ∨ q ∈ pids ∧ ∃ p handle root userStack kernelStack,
      v.table[q]? = some p ∧ w.table[q]? = some (p.equipped handle root userStack kernelStack) := by
  induction h with
  | nil => exact .inl rfl
  | @given _ _ first _ _ rest _ _ _ hattempt hrest ih =>
    rw [List.nodup_cons] at hnodup
    by_cases hq : q = first
    · subst hq
      obtain ⟨v', ⟨p, handle, root, userStack, kernelStack, hp, -, rfl⟩, hsame⟩ := hattempt.equipped_of_ok
      refine .inr ⟨List.mem_cons_self, p, handle, root, userStack, kernelStack, hp, ?_⟩
      rw [hrest.confined.others q hnodup.1, hsame, get?_update, if_pos rfl, hp, Option.map_some]
    · rw [← hattempt.confined.others q (by simpa using hq)]
      exact (ih hnodup.2 hgranted).imp_right fun ⟨hmem, hp⟩ => ⟨List.mem_cons_of_mem _ hmem, hp⟩
  | @declined _ _ first _ _ _ rest _ _ _ hattempt hrest ih =>
    rw [← hattempt.get?_of_error (fun call hcall => hgranted call (hrest.subset hcall)) q]
    refine (ih (List.nodup_cons.mp hnodup).2 hgranted).imp_right ?_
    exact fun ⟨hmem, hp⟩ => ⟨List.mem_cons_of_mem _ hmem, hp⟩

/-- Who had no space before a pass has one after it exactly if memory came in the pass. -/
lemma Attempts.spaceOf_iff (h : Attempts memory v calls pids made c w) (hnodup : pids.Nodup)
    (hgranted : ∀ call ∈ c, call.isGranted = true) (hcreated : v.stateOf pid = some .created)
    (hnone : v.spaceOf pid = none) : w.spaceOf pid ≠ none ↔ w.stateOf pid = some .waiting := by
  rcases h.equipped_or_same hnodup hgranted pid with hsame | ⟨-, p, handle, _, _, _, -, hp⟩
  · rw [spaceOf, stateOf, hsame, ← spaceOf, ← stateOf, hnone, hcreated]
    simp
  · rw [spaceOf_eq hp, stateOf_eq hp]
    exact iff_of_true (Option.some_ne_none handle) rfl

lemma createdPids_sorted (v : View μ space) : v.createdPids.Pairwise (· < ·) := by
  rw [createdPids_eq]
  exact v.keys_sorted.filter _

/-- A process that is not created, or has its turn later, is in the middle of a pass as it was before; one
that had its turn has a space if memory came to it. -/
lemma Attempts.spaceOf_at_turn {u : View μ space} {before rest : List Pid} {parent : Nat}
    (h : Attempts memory v calls before made c u) (hsplit : v.createdPids = before ++ pid :: rest)
    (hgranted : ∀ call ∈ c, call.isGranted = true)
    (hbefore : ∀ q ∈ before, u.stateOf q = some .waiting ↔ v.WithinReach q) :
    u.spaceOf parent ≠ none ↔ (v.spaceOf parent = none → parent < pid) ∧ v.WithinReach parent := by
  have hsorted := v.createdPids_sorted
  have hnodup := v.nodup_createdPids
  rw [hsplit, List.pairwise_append, List.pairwise_cons] at hsorted
  rw [hsplit, List.nodup_append] at hnodup
  obtain ⟨-, ⟨hbehind, -⟩, hacross⟩ := hsorted
  by_cases hnone : v.spaceOf parent = none
  · have hmem : ∀ q : Nat, v.stateOf q = some .created ↔ q ∈ before ∨ q = pid ∨ q ∈ rest := by
      intro q
      rw [stateOf_eq_some, ← mem_createdPids, hsplit, List.mem_append, List.mem_cons]
    by_cases hparent : parent ∈ before
    · rw [h.spaceOf_iff hnodup.1 hgranted ((hmem parent).mpr (.inl hparent)) hnone, hbefore parent hparent]
      exact (and_iff_right fun _ => hacross parent hparent pid List.mem_cons_self).symm
    · rw [spaceOf, h.confined.others parent hparent, ← spaceOf]
      refine iff_of_false (not_not.mpr hnone) fun hboth => ?_
      obtain ⟨hearlier, hreach⟩ := hboth
      have hlater := ((hmem parent).mp (hreach.created hnone)).resolve_left hparent
      have hlt := hearlier hnone
      rcases hlater with rfl | hlater
      · exact absurd hlt (Nat.lt_irrefl parent)
      · exact absurd hlt (Nat.not_lt.mpr (Nat.le_of_lt (hbehind parent hlater)))
  · exact iff_of_true (mt (h.gains.spaceOf parent) hnone)
      ⟨fun h => absurd h hnone, withinReach_of_space hnone⟩

/-- Memory comes to those within reach and to nobody else. -/
theorem Attempts.waiting_iff (h : Attempts memory v calls v.createdPids made c w) (hrange : v.InRange)
    (hgranted : ∀ call ∈ c, call.isGranted = true) (hcreated : v.stateOf pid = some .created) :
    w.stateOf pid = some .waiting ↔ v.WithinReach pid := by
  -- the parents that matter have smaller identifiers
  induction pid using Nat.strong_induction_on with
  | _ pid ih =>
  obtain ⟨before, rest, hsplit⟩ := List.append_of_mem (mem_createdPids.mpr (stateOf_eq_some.mp hcreated))
  have hnodup := v.nodup_createdPids
  have hsorted := v.createdPids_sorted
  rw [hsplit] at h hnodup hsorted
  obtain ⟨-, hnodup', hapart⟩ := List.nodup_append.mp hnodup
  obtain ⟨done, c₁, u, result, c₂, u', left, hbefore, hturn, hbehind⟩ := h.exists_attempt
  have hgranted₂ : ∀ call ∈ c₂, call.isGranted = true := fun call hcall => hgranted call (hbehind.subset hcall)
  have hgranted₁ : ∀ call ∈ c₁, call.isGranted = true := fun call hcall => hgranted₂ call (hturn.subset hcall)
  have hself : u.table[pid]? = v.table[pid]? :=
    hbefore.confined.others pid fun hmem => hapart pid hmem pid List.mem_cons_self rfl
  have hdone : ∀ q ∈ before, u.stateOf q = some .waiting ↔ v.WithinReach q := by
    intro q hq
    have hcreated' : v.stateOf q = some .created := by
      rw [stateOf_eq_some, ← mem_createdPids, hsplit]
      exact List.mem_append_left _ hq
    have hlater : q ∉ pid :: rest := fun hmem => hapart q hq q hmem rfl
    rw [List.mem_cons, not_or] at hlater
    rw [← ih q ((List.pairwise_append.mp hsorted).2.2 q hq pid List.mem_cons_self) hcreated',
      hbehind.confined.stateOf_eq hlater.2, hturn.confined.stateOf_eq (by simpa using hlater.1)]
  have hready : u.Ready pid ↔ v.WithinReach pid := by
    by_cases hnone : v.spaceOf pid = none
    · rw [WithinReach, withinReach_iff hcreated hnone, Ready]
      refine forall_congr' fun parent => ?_
      rw [spaceOf, hself, ← spaceOf, parentOf, hself, ← parentOf, hbefore.spaceOf_at_turn hsplit hgranted₁ hdone]
      exact ⟨fun h hup => h hnone hup, fun h _ hup => h hup⟩
    · refine iff_of_true (fun _ hnone' => ?_) (withinReach_of_space hnone)
      rw [spaceOf, hself] at hnone'
      exact absurd hnone' hnone
  rw [hbehind.confined.stateOf_eq (List.nodup_cons.mp hnodup').1, ← hready]
  refine hturn.waiting_iff (hbefore.confined.inRange hrange) ?_ hgranted₂
  rw [stateOf, hself, ← stateOf, hcreated]

end View

/-! ### Passes in a run -/

namespace Supervisor

variable {μ space : Type} {s t : Supervisor μ space} {v w : View μ space}

/-- Memory comes to `pid` in one pass: the way up from it, along created processes without a space, leads
to one that has a space before the pass or is created without a space and a parent. -/
def WithinReach (s : Supervisor μ space) : Pid → Prop :=
  Uniprocessor.WithinReach s.stateOf s.spaceOf s.roster.parentOf

/-- What a pass that gives memory to `made` processes makes of `s`, if everything is granted. -/
structure Provides (s : Supervisor μ space) (made : Nat) (t : Supervisor μ space) : Prop where
  waiting_iff : ∀ pid : Pid, s.stateOf pid = some .created →
    (t.stateOf pid = some .waiting ↔ s.WithinReach pid)
  made : made = {pid : Pid | s.stateOf pid = some .created ∧ s.WithinReach pid}.ncard
  /-- Memory comes with its place in the registers, and the process keeps all else. -/
  equipped : ∀ pid : Pid, s.stateOf pid = some .created → s.WithinReach pid →
    ∃ p handle root userStack kernelStack, s.viewOf pid = some p ∧
      t.viewOf pid = some (p.equipped handle root userStack kernelStack)
  others : ∀ pid : Pid, ¬(s.stateOf pid = some .created ∧ s.WithinReach pid) →
    t.viewOf pid = s.viewOf pid
  running : t.roster.running = s.roster.running
  active : t.roster.active = s.roster.active

lemma Shows.withinReach_eq (h : s.Shows v) : s.WithinReach = v.WithinReach := by
  have hstate : s.stateOf = v.stateOf := funext h.stateOf_eq
  have hparent : s.roster.parentOf = v.parentOf := funext h.parentOf_eq
  rw [WithinReach, View.WithinReach, hstate, hparent, h.spaceOf_eq]

/-- What a pass in the view means for the supervisor. -/
theorem Shows.provides {memory : MemoryService μ space} {calls c : List (MemoryCall space)} {made : Nat}
    (hs : s.Shows v) (ht : t.Shows w) (hattempts : View.Attempts memory v calls v.createdPids made c w)
    (hgranted : ∀ call ∈ c, call.isGranted = true) : s.Provides made t := by
  have hstate : s.stateOf = v.stateOf := funext hs.stateOf_eq
  have hstate' : t.stateOf = w.stateOf := funext ht.stateOf_eq
  have hwaiting : ∀ pid : Nat, v.stateOf pid = some .created →
      (w.stateOf pid = some .waiting ↔ v.WithinReach pid) :=
    fun pid hcreated => hattempts.waiting_iff hs.inRange hgranted hcreated
  have hcreated : ∀ pid : Nat, pid ∈ v.createdPids ↔ v.stateOf pid = some .created := fun pid => by
    rw [View.mem_createdPids, View.stateOf_eq_some]
  have hcases := fun q : Nat => hattempts.equipped_or_same v.nodup_createdPids hgranted q
  refine
    { waiting_iff := ?_, made := ?_, equipped := fun pid hpid hreach => ?_, others := fun pid hpid => ?_
      running := ?_, active := ?_ }
  · rw [hstate, hstate', hs.withinReach_eq]
    exact hwaiting
  · have hset : {pid : Pid | s.stateOf pid = some .created ∧ s.WithinReach pid} =
        ↑(v.createdPids.filter (w.stateOf · == some .waiting)).toFinset := by
      ext pid
      rw [Set.mem_ofPred_eq, List.coe_toFinset, Set.mem_ofPred_eq, List.mem_filter, hcreated, hstate,
        hs.withinReach_eq, beq_iff_eq]
      exact and_congr_right fun hpid => (hwaiting pid hpid).symm
    rw [hset, Set.ncard_coe_finset, List.toFinset_card_of_nodup (v.nodup_createdPids.filter _)]
    exact hattempts.made_eq v.nodup_createdPids fun q hq => (hcreated q).mp hq
  · rw [hstate] at hpid
    rw [hs.withinReach_eq, ← hwaiting pid hpid] at hreach
    rw [hs.viewOf_eq, ht.viewOf_eq]
    rcases hcases pid with hsame | ⟨-, hequipped⟩
    · rw [View.stateOf, hsame, ← View.stateOf, hpid] at hreach
      cases hreach
    · exact hequipped
  · rw [hs.viewOf_eq, ht.viewOf_eq]
    rw [hstate, hs.withinReach_eq] at hpid
    rcases hcases pid with hsame | ⟨hmem, p, handle, root, userStack, kernelStack, -, hequipped⟩
    · exact hsame
    · rw [hcreated] at hmem
      exact absurd ⟨hmem, (hwaiting pid hmem).mp (View.stateOf_eq hequipped)⟩ hpid
  · rw [← ht.running, ← hs.running]
    exact hattempts.confined.running
  · rw [← ht.active, ← hs.active]
    exact hattempts.confined.active

end Supervisor

namespace Session

variable {μ space : Type} {memory : MemoryService μ space} {outside : μ → μ → Prop} {limits : Limits}
  {start : μ} {events : List (Event space)} {s : Session μ space}

/-- A pass is exact: wherever a run has led, a pass over the processes that wait for memory finishes. If
the memory service grants everything it is asked for, memory comes to those within reach, which are as
many as the pass counts, and all others are as they were. -/
theorem Run.pass_provides (h : Run memory outside limits start events s) :
    ∃ made t es, (Supervisor.materializeCreated memory).run s.supervisor = ⟨.ok made, t, es⟩ ∧
      ((∀ call ∈ Event.calls es, call.isGranted = true) → s.supervisor.Provides made t) := by
  obtain ⟨v, hshows, hlawful, -⟩ := h.shows
  replace hshows : s.supervisor.Shows v := hshows
  have hpass : (View.materializeCreated memory).Ensures [] v (View.Attempts memory v [] v.createdPids)
      fun _ _ _ => False := View.ensures_materializeCreated hlawful
  obtain ⟨made, t, es, w, hrun, hafter, hattempts⟩ :=
    (Supervisor.refines_materializeCreated memory).exists_run hshows hpass
  exact ⟨made, t, es, hrun, fun hgranted => hshows.provides hafter hattempts hgranted⟩

/-- Memory comes to 4 below 1, which comes before it, and to 3 below the clone 6, which has a space, but
not to 2 below 3. -/
theorem pass_provides_of_clone : ∃ events s made t es,
    Run HostMemory.service HostMemory.Adjusted ⟨8, 8, 4, 4, .lenient⟩ .empty events s ∧
    (Supervisor.materializeCreated HostMemory.service).run s.supervisor = ⟨.ok made, t, es⟩ ∧
    (∀ call ∈ Event.calls es, call.isGranted = true) ∧ s.supervisor.Provides made t ∧ made = 4 ∧
    s.supervisor.WithinReach 4 ∧ s.supervisor.WithinReach 3 ∧ ¬ s.supervisor.WithinReach 2 := by
  have hbegun : Run HostMemory.service HostMemory.Adjusted ⟨8, 8, 4, 4, .lenient⟩ .empty [] _ := .start
  have hmade := (((hbegun.perform (.create none 0)).perform (.create none 0)).perform
    (.create none 0)).perform (.create (some 1) 0)
  have hcloned := ((hmade.perform (.create none 0)).perform (.materialize 5)).perform (.clone 5)
  have hlinked := (hcloned.perform (.addChild 6 3)).perform (.addChild 3 2)
  obtain ⟨made, t, es, hrun, hprovides⟩ := hlinked.pass_provides
  have hresult : _ = Except.ok made := congrArg Outcome.result hrun
  have hafter : _ = t := congrArg Outcome.state hrun
  have hevents : _ = es := congrArg Outcome.events hrun
  have hgranted : ∀ call ∈ Event.calls es, call.isGranted = true := by
    rw [← hevents]
    decide +kernel
  have hfour : made = 4 := Except.ok.inj (hresult.symm.trans (by decide +kernel))
  have hstates : t.stateOf 4 = some .waiting ∧ t.stateOf 3 = some .waiting ∧
      t.stateOf 2 = some .created := by
    rw [← hafter]
    decide +kernel
  have hprovides := hprovides hgranted
  refine ⟨_, _, made, t, es, hlinked, hrun, hgranted, hprovides, hfour, ?_, ?_, ?_⟩
  · exact (hprovides.waiting_iff 4 (by decide +kernel)).mp hstates.1
  · exact (hprovides.waiting_iff 3 (by decide +kernel)).mp hstates.2.1
  · rw [← hprovides.waiting_iff 2 (by decide +kernel), hstates.2.2]
    nofun

end Session

end Uniprocessor
