import Uniprocessor.Proofs.Observations
import Uniprocessor.Proofs.Runs

/-!
# Destroying processes, from end to end

A destruction works through a list of processes: the first one gives back all it holds, and with
`cascade` its children join the list. The processes of the list are alive, different and without a
parent, so each round takes exactly one process out, and exactly the descendants of the first one
follow it.
-/

namespace Uniprocessor

open Uniprocessor.Action Relation

/-- The processes that events report as destroyed, in order. -/
def Event.destroyed {space : Type} (events : List (Event space)) : List Pid :=
  events.filterMap fun
    | .notice (.destroyed pid) => some pid
    | _ => none

namespace Event

variable {space : Type}

@[simp]
lemma destroyed_append (xs ys : List (Event space)) :
    destroyed (xs ++ ys) = destroyed xs ++ destroyed ys :=
  List.filterMap_append

lemma destroyed_notices {notices : List Notice} (h : ∀ pid, .destroyed pid ∉ notices) :
    destroyed (notices.map (.notice : Notice → Event space)) = [] := by
  rw [destroyed, List.filterMap_map, List.filterMap_eq_nil_iff]
  intro notice hnotice
  cases notice with
  | destroyed pid => exact absurd hnotice (h pid)
  | _ => rfl

end Event

namespace Action

variable {space σ α β : Type} {x : Action space σ α} {f : α → Action space σ β}

/-- A first step that is known to finish. -/
lemma run_bind_ok {s t : σ} {a : α} {events : List (Event space)} (h : x.run s = ⟨.ok a, t, events⟩) :
    (x >>= f).run s =
      ⟨((f a).run t).result, ((f a).run t).state, events ++ ((f a).run t).events⟩ := by
  rw [run_bind, h]

/-- The action finishes and reports nobody as destroyed. -/
def Discreet (x : Action space σ α) : Prop :=
  ∀ s, ∃ a t events, x.run s = ⟨.ok a, t, events⟩ ∧ Event.destroyed events = []

lemma discreet_pure (a : α) : (pure a : Action space σ α).Discreet := fun s => ⟨a, s, [], rfl, rfl⟩

lemma discreet_get : (get : Action space σ σ).Discreet := fun s => ⟨s, s, [], rfl, rfl⟩

lemma discreet_set (t : σ) : (set t : Action space σ Unit).Discreet := fun _ => ⟨(), t, [], rfl, rfl⟩

lemma discreet_noteAll {notices : List Notice} (h : ∀ pid, .destroyed pid ∉ notices) :
    (noteAll notices : Action space σ Unit).Discreet :=
  fun s => ⟨(), s, _, rfl, Event.destroyed_notices h⟩

lemma discreet_note {notice : Notice} (h : ∀ pid, notice ≠ .destroyed pid) :
    (note notice : Action space σ Unit).Discreet :=
  discreet_noteAll fun pid hmem => h pid (List.mem_singleton.mp hmem).symm

lemma Discreet.bind (hx : x.Discreet) (hf : ∀ a, (f a).Discreet) : (x >>= f).Discreet := by
  intro s
  obtain ⟨a, t, events, hrun, hnone⟩ := hx s
  obtain ⟨b, u, more, hrest, hnone'⟩ := hf a t
  exact ⟨b, u, events ++ more, by rw [run_bind_ok hrun, hrest], by simp [hnone, hnone']⟩

/-- What is destroyed behind a first step that is discreet. -/
lemma Discreet.destroyed_bind (hx : x.Discreet) {pids : List Pid}
    (hf : ∀ a t, Event.destroyed ((f a).run t).events = pids) (s : σ) :
    Event.destroyed ((x >>= f).run s).events = pids := by
  obtain ⟨a, t, events, hrun, hnone⟩ := hx s
  rw [run_bind_ok hrun, Event.destroyed_append, hnone, hf, List.nil_append]

end Action

namespace Supervisor

variable {μ space : Type} (memory : MemoryService μ space)

/-! ### Reports -/

variable {memory} {s : Supervisor μ space} {pid : Pid} {record : ProcessRecord space}

lemma destroyed_not_mem_releaseNotices {α : Type} (p : Pool α) (id : Handle) (pid : Pid) :
    .destroyed pid ∉ p.releaseNotices id := by
  rw [Pool.releaseNotices]
  split <;> simp

lemma discreet_discardSignals (pid : Pid) (record : ProcessRecord space) :
    (discardSignals pid record : Action space (Supervisor μ space) Unit).Discreet := by
  refine discreet_get.bind fun s => (discreet_noteAll fun q hq => ?_).bind fun _ =>
    (discreet_set _).bind fun _ => ?_
  · obtain ⟨id, -, hmem⟩ := List.mem_flatMap.mp hq
    exact destroyed_not_mem_releaseNotices s.signals id q hmem
  · split
    · exact discreet_note nofun
    · exact discreet_pure ()

lemma discreet_dropRecord (pid : Pid) :
    (dropRecord pid : Action space (Supervisor μ space) Unit).Discreet := by
  refine discreet_get.bind fun s => (discreet_noteAll fun q => ?_).bind fun _ => discreet_set _
  rw [Roster.removeNotices]
  split
  · simp
  · exact destroyed_not_mem_releaseNotices _ _ q

lemma discreet_releasePid (pid : Pid) :
    (releasePid pid : Action space (Supervisor μ space) Unit).Discreet := by
  refine discreet_get.bind fun s => (discreet_noteAll fun q => ?_).bind fun _ => discreet_set _
  rw [PidSpace.releaseNotices]
  split <;> simp

variable (memory) in
/-- Whoever gives everything back is reported as destroyed, and nobody else is. -/
lemma destroyed_reclaim (hget : s.roster.get? pid = some record) :
    Event.destroyed ((reclaim memory pid).run s).events = [pid] := by
  have hlast (t : Supervisor μ space) : Event.destroyed ((do
      releasePid pid
      .note (.destroyed pid) : Action space (Supervisor μ space) Unit).run t).events = [pid] :=
    (discreet_releasePid pid).destroyed_bind (fun _ _ => rfl) t
  rw [reclaim, run_bind_quiet (run_get s), hget]
  refine (discreet_discardSignals pid record).destroyed_bind (fun _ _ => ?_) s
  refine Discreet.destroyed_bind (fun s => ⟨(), _, [], rfl, rfl⟩) (fun _ _ => ?_) _
  refine (discreet_dropRecord pid).destroyed_bind (fun _ t => ?_) _
  cases record.space with
  | none => exact hlast t
  | some handle => exact Discreet.destroyed_bind (fun s => ⟨(), _, _, rfl, rfl⟩) (fun _ => hlast) t

/-! ### Rounds -/

lemma discreet_drainChildren (pid : Pid) :
    (drainChildren pid : Action space (Supervisor μ space) (List Pid)).Discreet := by
  refine discreet_get.bind fun s => ?_
  split
  · exact discreet_pure []
  · exact (discreet_set _).bind fun _ => discreet_pure _

variable (memory) in
/-- One round of a destruction. -/
def clear (cascade : Bool) (pid : Pid) : Action space (Supervisor μ space) (List Pid) := do
  let children ← drainChildren pid
  .noteAll (if cascade then [] else children.map (.orphaned · pid))
  reclaim memory pid
  return children

lemma destroyAll_cons (cascade : Bool) (rounds : Nat) (pid : Pid) (rest : List Pid) :
    (destroyAll memory cascade (rounds + 1) (pid :: rest) : Action space (Supervisor μ space) Unit) =
      clear memory cascade pid >>= fun children =>
        destroyAll memory cascade rounds (if cascade then children.reverse ++ rest else rest) := by
  rw [destroyAll, clear]
  have hnone : (noteAll [] : Action space (Supervisor μ space) Unit) = pure () := rfl
  cases cascade with
  | true => simp [hnone]
  | false => simp

variable {v : View μ space} {p : ProcessView space}

variable (memory) in
/-- In one round a process leaves, with every link to it, and gives its space back. -/
lemma run_clear (h : s.Shows (v.disown pid)) (hforest : v.Forest) (hp : v.table[pid]? = some p)
    (cascade : Bool) :
    ∃ t events, (clear memory cascade pid).run s = ⟨.ok p.children, t, events⟩ ∧
      t.Shows { v.remove pid with
        memory := p.space.toList.foldl (memory.destroy · · true) v.memory } ∧
      Event.calls events = p.space.toList.map (.destroy · true) ∧ Event.destroyed events = [pid] := by
  have hself := View.get?_disown_self hforest hp
  obtain ⟨children, t, events, hrun, hnone⟩ := discreet_drainChildren pid s
  have hdrain := agree_drainChildren h pid
  rw [hrun, View.run_drainChildren hself] at hdrain
  cases hdrain with
  | ok hr hs hcalls =>
  obtain ⟨hshows, hchildren⟩ := hs
  obtain ⟨record, hget, -⟩ := hshows.get?_of_table (View.get?_drained hforest hp)
  have hreclaim := agree_reclaim memory hshows hchildren
  have hdestroyed := destroyed_reclaim memory hget
  cases hrun' : (reclaim memory pid).run t with
  | mk result t' more =>
  rw [View.run_reclaim memory hforest hp, hrun'] at hreclaim
  rw [hrun'] at hdestroyed
  cases hreclaim with
  | ok _ hs' hcalls' =>
  obtain ⟨notices, hnotices⟩ : ∃ notices : List Notice,
      notices = if cascade then [] else children.map (.orphaned · pid) := ⟨_, rfl⟩
  have hnone' : Event.destroyed (notices.map (.notice : Notice → Event space)) = [] := by
    apply Event.destroyed_notices
    intro q
    rw [hnotices]
    cases cascade <;> simp
  refine ⟨t', events ++ (notices.map .notice ++ more), ?_, hs', ?_, ?_⟩
  · rw [clear, run_bind_ok hrun, run_bind_ok (run_noteAll _ t), run_bind_ok hrun', run_pure, hr,
      List.append_nil, hnotices, hr]
  · rw [Event.calls_append, Event.calls_append, Event.calls_notices, hcalls, hcalls']
    cases p.space <;> rfl
  · rw [Event.destroyed_append, Event.destroyed_append, hnone, hnone', hdestroyed]
    rfl

end Supervisor

/-! ### Worklists -/

namespace View

variable {μ space : Type} {memory : MemoryService μ space} {v w : View μ space} {pid : Pid}
  {p : ProcessView space} {roots removed : List Pid}

variable (memory) in
/-- The memory after the spaces of processes are given back, one by one. -/
def freed (v : View μ space) (pids : List Pid) : μ :=
  (pids.filterMap v.spaceOf).foldl (memory.destroy · · true) v.memory

variable (memory) in
/-- `w` is `v` without the processes `removed`, which are those below the ones in `roots`. -/
structure Cleared (v : View μ space) (roots removed : List Pid) (w : View μ space) : Prop where
  mem_iff : ∀ q : Nat, q ∈ removed ↔ ∃ r ∈ roots, ReflTransGen v.Up q r
  nodup : removed.Nodup
  live : ∀ q ∈ removed, ∃ p, v.table[q]? = some p
  length_eq : removed.length = roots.length + (removed.flatMap v.childrenOf).length
  table : ∀ q : Nat, w.table[q]? = if q ∈ removed then none else v.table[q]?
  running : w.running = v.running.filter (· ∉ removed)
  active : w.active = v.active
  memory : w.memory = v.freed memory removed

lemma cleared_nil (v : View μ space) : Cleared memory v [] [] v where
  mem_iff := by simp
  nodup := List.nodup_nil
  live := by simp
  length_eq := rfl
  table := by simp
  running := by cases v.running <;> rfl
  active := rfl
  memory := rfl

/-- Of the spaces of several processes, that of the first one comes first. -/
lemma filterMap_spaceOf_cons (hp : v.table[pid]? = some p) (hnodup : (pid :: removed).Nodup) :
    (pid :: removed).filterMap v.spaceOf =
      p.space.toList ++ removed.filterMap (v.remove pid).spaceOf := by
  have hrest : removed.filterMap (v.remove pid).spaceOf = removed.filterMap v.spaceOf := by
    refine List.filterMap_congr fun q hq => ?_
    rw [spaceOf_remove, if_neg]
    rintro rfl
    exact (List.nodup_cons.mp hnodup).1 hq
  rw [hrest, List.filterMap_cons, spaceOf_eq hp]
  cases p.space <;> rfl

/-- A removal leaves alone whoever is not linked to the process that goes. -/
lemma get?_remove_of_apart (h : v.Forest) {q : Nat} (hne : q ≠ pid) (hparent : v.parentOf pid ≠ some q)
    (hchild : v.parentOf q ≠ some pid) : (v.remove pid).table[q]? = v.table[q]? := by
  rw [get?_remove, if_neg hne]
  cases hr : v.table[q]? with
  | none => rfl
  | some r =>
    rw [parentOf_eq hr] at hchild
    rw [Ne, ← h.mirrored, childrenOf_eq hr] at hparent
    rw [Option.map_some, if_neg hchild, List.erase_of_not_mem hparent]

lemma size_remove_lt (hp : v.table[pid]? = some p) : (v.remove pid).table.size < v.table.size := by
  have hlive : v.table.contains pid = true := by
    rw [get?_iff_mem, hp]
    rfl
  have hpos : 0 < v.table.size := by
    rw [← Std.ExtTreeMap.length_keys]
    exact List.length_pos_of_mem (mem_keys.mpr ⟨p, hp⟩)
  rw [remove, Std.ExtTreeMap.size_map, Std.ExtTreeMap.size_erase, if_pos hlive]
  omega

/-- What a worklist becomes in a round consists of live processes. -/
lemma live_next {rest : List Pid} (h : v.Forest) (hp : v.table[pid]? = some p) (hnot : pid ∉ rest)
    (hlive : ∀ r ∈ rest, ∃ p, v.table[r]? = some p) :
    ∀ r ∈ p.children.reverse ++ rest, ∃ p, (v.remove pid).table[r]? = some p := by
  intro r hr
  have hother : r ≠ pid ∧ ∃ p, v.table[r]? = some p := by
    rcases List.mem_append.mp hr with hchild | hrest
    · rw [List.mem_reverse, ← childrenOf_eq hp] at hchild
      refine ⟨?_, live_of_parentOf ((h.mirrored pid r).mp hchild)⟩
      rintro rfl
      exact h.not_above_child hchild .refl
    · exact ⟨fun heq => hnot (heq ▸ hrest), hlive r hrest⟩
  obtain ⟨hne, q, hq⟩ := hother
  exact ⟨_, by rw [get?_remove, if_neg hne, hq]; rfl⟩

/-- The children of a process that goes become roots. -/
lemma root_next {rest : List Pid} (h : v.Forest) (hp : v.table[pid]? = some p)
    (hroots : ∀ r ∈ rest, v.parentOf r = none) :
    ∀ r ∈ p.children.reverse ++ rest, (v.remove pid).parentOf r = none := by
  intro r hr
  rw [parentOf_remove]
  rcases List.mem_append.mp hr with hchild | hrest
  · rw [List.mem_reverse, ← childrenOf_eq hp, h.mirrored] at hchild
    exact if_pos (.inr hchild)
  · rw [hroots r hrest, ite_self]

lemma nodup_next {rest : List Pid} (h : v.Forest) (hp : v.table[pid]? = some p)
    (hroots : ∀ r ∈ rest, v.parentOf r = none) (hnodup : rest.Nodup) :
    (p.children.reverse ++ rest).Nodup := by
  have hchildren : p.children.reverse.Nodup := by
    rw [List.nodup_reverse, ← childrenOf_eq hp]
    exact h.nodup pid
  refine List.nodup_append.mpr ⟨hchildren, hnodup, ?_⟩
  rintro r hchild _ hrest rfl
  rw [List.mem_reverse, ← childrenOf_eq hp, h.mirrored, hroots r hrest] at hchild
  cases hchild

/-- Who has gone does not go again. -/
lemma Cleared.nodup_cons {m : μ} (h : Cleared memory { v.remove pid with memory := m } roots removed w) :
    (pid :: removed).Nodup := by
  refine List.nodup_cons.mpr ⟨fun hself => ?_, h.nodup⟩
  obtain ⟨q, hq⟩ := h.live pid hself
  rw [get?_remove, if_pos rfl] at hq
  cases hq

lemma Cleared.get?_eq {m : μ} (h : Cleared memory { v.remove pid with memory := m } roots removed w)
    (q : Nat) : w.table[q]? = if q ∈ pid :: removed then none else (v.remove pid).table[q]? := by
  refine (h.table q).trans ?_
  by_cases hq : q ∈ removed
  · rw [if_pos hq, if_pos (List.mem_cons_of_mem _ hq)]
  · rw [if_neg hq]
    split
    · rename_i hmem
      exact (get?_remove v pid q).trans (if_pos ((List.mem_cons.mp hmem).resolve_right hq))
    · rfl

lemma Cleared.subset_keys {m : μ} (hp : v.table[pid]? = some p)
    (h : Cleared memory { v.remove pid with memory := m } roots removed w) :
    pid :: removed ⊆ v.table.keys := by
  intro q hq
  rw [mem_keys]
  rcases List.mem_cons.mp hq with rfl | hq
  · exact ⟨p, hp⟩
  · obtain ⟨r, hr⟩ := h.live q hq
    rw [get?_remove] at hr
    split at hr
    · cases hr
    · exact (Option.map_eq_some_iff.mp hr).imp fun _ hr => hr.1

lemma Cleared.running_eq {m : μ} (h : Cleared memory { v.remove pid with memory := m } roots removed w) :
    w.running = v.running.filter (· ∉ pid :: removed) := by
  refine h.running.trans ?_
  rw [remove]
  cases hrunning : v.running with
  | none => rfl
  | some runner => by_cases hrunner : runner = pid <;> simp [hrunner, Option.filter]

lemma Cleared.memory_eq (hp : v.table[pid]? = some p)
    (h : Cleared memory
      { v.remove pid with memory := p.space.toList.foldl (memory.destroy · · true) v.memory } roots
      removed w) : w.memory = v.freed memory (pid :: removed) := by
  rw [h.memory, freed, freed, filterMap_spaceOf_cons hp h.nodup_cons, List.foldl_append]
  rfl

/-- After a process its children are roots, and what is below them and the other roots is all
that is below. -/
lemma Cleared.cons {rest : List Pid} (h : v.Forest) (hp : v.table[pid]? = some p)
    (hroot : v.parentOf pid = none) (hnot : pid ∉ rest)
    (hcleared : Cleared memory
      { v.remove pid with memory := p.space.toList.foldl (memory.destroy · · true) v.memory }
      (p.children.reverse ++ rest) removed w) :
    Cleared memory v (pid :: rest) (pid :: removed) w := by
  have hbelow : ∀ r ∈ p.children.reverse ++ rest, ∀ q : Nat,
      ReflTransGen (v.remove pid).Up q r ↔ ReflTransGen v.Up q r := by
    intro r hr
    apply Forest.below_remove
    rcases List.mem_append.mp hr with hchild | hother
    · rw [List.mem_reverse, ← childrenOf_eq hp] at hchild
      exact h.not_above_child hchild
    · intro habove
      exact hnot (Forest.eq_of_above hroot habove ▸ hother)
  have hmem : ∀ q : Nat, q ∈ removed ↔ ∃ r ∈ p.children.reverse ++ rest, ReflTransGen v.Up q r := by
    intro q
    rw [hcleared.mem_iff]
    exact exists_congr fun r => and_congr_right fun hr => hbelow r hr q
  have hnodup := hcleared.nodup_cons
  have hself := (List.nodup_cons.mp hnodup).1
  have hchildren : ∀ q ∈ removed, (v.remove pid).childrenOf q = v.childrenOf q := by
    intro q hq
    have hroot' : pid ∉ v.childrenOf q := by
      rw [h.mirrored, hroot]
      nofun
    have hne : q ≠ pid := by
      rintro rfl
      exact hself hq
    rw [childrenOf_remove, if_neg hne, List.erase_of_not_mem hroot']
  refine
    { mem_iff := fun q => ?_, nodup := hnodup
      live := fun q hq => mem_keys.mp (hcleared.subset_keys hp hq), length_eq := ?_
      table := fun q => ?_, running := hcleared.running_eq, active := hcleared.active
      memory := hcleared.memory_eq hp }
  · rw [List.mem_cons, hmem, List.exists_mem_cons_iff, h.below_iff, childrenOf_eq hp, or_assoc]
    simp only [List.mem_append, List.mem_reverse, or_and_right, exists_or]
  · have hlength : removed.length = (p.children.reverse ++ rest).length +
        (removed.flatMap (v.remove pid).childrenOf).length := hcleared.length_eq
    rw [List.flatMap_congr hchildren, List.length_append, List.length_reverse] at hlength
    rw [List.length_cons, List.length_cons, List.flatMap_cons, List.length_append, childrenOf_eq hp,
      hlength]
    omega
  · rw [hcleared.get?_eq]
    split
    · rfl
    · rename_i hq
      have hne : q ≠ pid := fun heq => hq (heq ▸ List.mem_cons_self)
      refine get?_remove_of_apart h hne (by rw [hroot]; nofun) fun hup => hq ?_
      refine List.mem_cons_of_mem _ ((hmem q).mpr ⟨q, List.mem_append_left _ ?_, .refl⟩)
      rwa [List.mem_reverse, ← childrenOf_eq hp, h.mirrored]

end View

namespace Supervisor

variable {μ space : Type} {memory : MemoryService μ space} {s : Supervisor μ space}
  {v : View μ space} {pid : Pid} {p : ProcessView space} {roots : List Pid}

/-- With `cascade`, the processes of a worklist go and all that are below them, in one round each. -/
theorem run_destroyAll_cascade (h : s.Shows v) (hforest : v.Forest)
    (hlive : ∀ r ∈ roots, ∃ p, v.table[r]? = some p) (hroots : ∀ r ∈ roots, v.parentOf r = none)
    (hnodup : roots.Nodup) :
    ∃ removed t w events, v.Cleared memory roots removed w ∧ t.Shows w ∧
      (∀ rounds, removed.length ≤ rounds →
        (destroyAll memory true rounds roots).run s = ⟨.ok (), t, events⟩) ∧
      Event.calls events = (removed.filterMap v.spaceOf).map (.destroy · true) ∧
      Event.destroyed events = removed := by
  induction hsize : v.table.size using Nat.strong_induction_on generalizing s v roots with
  | _ size ih =>
  subst hsize
  cases roots with
  | nil =>
    refine ⟨[], s, v, [], v.cleared_nil, h, fun rounds _ => ?_, rfl, rfl⟩
    cases rounds <;> rfl
  | cons pid rest =>
    obtain ⟨p, hp⟩ := hlive pid List.mem_cons_self
    have hroot := hroots pid List.mem_cons_self
    have hlive := fun r hr => hlive r (List.mem_cons_of_mem pid hr)
    have hroots := fun r hr => hroots r (List.mem_cons_of_mem pid hr)
    obtain ⟨hnot, hnodup⟩ := List.nodup_cons.mp hnodup
    have hdisown : v.disown pid = v := by rw [View.disown, hroot]
    obtain ⟨t, events, hrun, hshows, hcalls, hdestroyed⟩ :=
      run_clear memory (hdisown.symm ▸ h) hforest hp true
    have hforest' := (hforest.remove pid).congr
      (w := { v.remove pid with memory := p.space.toList.foldl (memory.destroy · · true) v.memory })
      (fun _ => rfl) fun _ => rfl
    obtain ⟨removed, t', w, events', hcleared, hshows', hruns, hcalls', hdestroyed'⟩ :=
      ih _ (View.size_remove_lt hp) hshows hforest' (View.live_next hforest hp hnot hlive)
        (View.root_next hforest hp hroots) (View.nodup_next hforest hp hroots hnodup) rfl
    have hall := hcleared.cons hforest hp hroot hnot
    refine ⟨pid :: removed, t', w, events ++ events', hall, hshows', fun rounds hrounds => ?_, ?_, ?_⟩
    · obtain ⟨rounds, rfl⟩ := Nat.exists_eq_succ_of_ne_zero
        (Nat.ne_of_gt (Nat.lt_of_lt_of_le (Nat.succ_pos _) hrounds))
      rw [destroyAll_cons, run_bind_ok hrun, if_pos rfl, hruns rounds (Nat.le_of_succ_le_succ hrounds)]
    · rw [Event.calls_append, hcalls, hcalls', View.filterMap_spaceOf_cons hp hcleared.nodup_cons,
        List.map_append]
      rfl
    · rw [Event.destroyed_append, hdestroyed, hdestroyed']
      rfl

variable (memory) in
/-- One process goes, wherever it is in the forest, and with `cascade` all that are below it. -/
theorem run_destroyAll (h : s.Shows (v.disown pid)) (hforest : v.Forest) (hp : v.table[pid]? = some p)
    (cascade : Bool) :
    ∃ removed t w events,
      View.Cleared memory
        { v.remove pid with memory := p.space.toList.foldl (memory.destroy · · true) v.memory }
        (if cascade then p.children.reverse else []) removed w ∧ t.Shows w ∧
      (∀ rounds, removed.length < rounds →
        (destroyAll memory cascade rounds [pid]).run s = ⟨.ok (), t, events⟩) ∧
      Event.calls events = ((pid :: removed).filterMap v.spaceOf).map (.destroy · true) ∧
      Event.destroyed events = pid :: removed := by
  obtain ⟨t, events, hrun, hshows, hcalls, hdestroyed⟩ :=
    run_clear memory h hforest hp cascade
  have hrest : ∃ removed t' w events',
      View.Cleared memory
        { v.remove pid with memory := p.space.toList.foldl (memory.destroy · · true) v.memory }
        (if cascade then p.children.reverse else []) removed w ∧ t'.Shows w ∧
      (∀ rounds, removed.length ≤ rounds → (destroyAll memory cascade rounds
        (if cascade then p.children.reverse ++ [] else [])).run t = ⟨.ok (), t', events'⟩) ∧
      Event.calls events' = (removed.filterMap (v.remove pid).spaceOf).map (.destroy · true) ∧
      Event.destroyed events' = removed := by
    cases cascade with
    | true =>
      rw [if_pos rfl, if_pos rfl, ← List.append_nil p.children.reverse, List.append_assoc]
      exact run_destroyAll_cascade hshows ((hforest.remove pid).congr (fun _ => rfl) fun _ => rfl)
        (View.live_next hforest hp (by simp) (by simp)) (View.root_next hforest hp (by simp))
        (View.nodup_next hforest hp (by simp) List.nodup_nil)
    | false =>
      refine ⟨[], t, _, [], View.cleared_nil _, hshows, fun rounds _ => ?_, rfl, rfl⟩
      cases rounds <;> rfl
  obtain ⟨removed, t', w, events', hcleared, hshows', hruns, hcalls', hdestroyed'⟩ := hrest
  refine ⟨removed, t', w, events ++ events', hcleared, hshows', fun rounds hrounds => ?_, ?_, ?_⟩
  · obtain ⟨rounds, rfl⟩ := Nat.exists_eq_succ_of_ne_zero (Nat.ne_of_gt (Nat.zero_lt_of_lt hrounds))
    rw [destroyAll_cons, run_bind_ok hrun, hruns rounds (Nat.le_of_lt_succ hrounds)]
  · rw [Event.calls_append, hcalls, hcalls', View.filterMap_spaceOf_cons hp hcleared.nodup_cons,
      List.map_append]
  · rw [Event.destroyed_append, hdestroyed, hdestroyed']
    rfl

end Supervisor

/-! ### What is given back -/

lemma perm_gone_append {keys removed : List Nat} (hkeys : keys.Nodup) (hnodup : removed.Nodup)
    (hlive : removed ⊆ keys) : keys.Perm (removed ++ keys.filter (· ∉ removed)) := by
  refine (List.perm_ext_iff_of_nodup hkeys (List.nodup_append.mpr ⟨hnodup, hkeys.filter _, ?_⟩)).mpr
    fun q => ?_
  · rintro q hq _ hother rfl
    simpa [hq] using List.of_mem_filter hother
  · by_cases hq : q ∈ removed
    · simpa [hq] using hlive hq
    · simp [hq]

/-- What the ones that go had and what the others have make up what there was. -/
lemma sum_map_of_gone {keys removed : List Nat} {f g : Nat → Nat} (hkeys : keys.Nodup)
    (hnodup : removed.Nodup) (hlive : removed ⊆ keys) (hgone : ∀ q ∈ removed, g q = 0)
    (hkept : ∀ q ∉ removed, g q = f q) :
    (keys.map g).sum + (removed.map f).sum = (keys.map f).sum := by
  have hperm := perm_gone_append hkeys hnodup hlive
  have hzero : (removed.map g).sum = 0 := List.sum_eq_zero (by simpa using hgone)
  have hsame : (keys.filter (· ∉ removed)).map g = (keys.filter (· ∉ removed)).map f :=
    List.map_congr_left fun q hq => hkept q (by simpa using List.of_mem_filter hq)
  rw [(hperm.map g).sum_eq, (hperm.map f).sum_eq, List.map_append, List.map_append, List.sum_append,
    List.sum_append, hzero, hsame]
  omega

namespace View

variable {μ space : Type} {memory : MemoryService μ space} {v w : View μ space} {pid : Pid}
  {p : ProcessView space} {roots removed : List Pid} {m : μ}

lemma childrenOf_disown (h : v.Forest) (pid q : Nat) :
    (v.disown pid).childrenOf q = (v.childrenOf q).erase pid := by
  rw [childrenOf, get?_disown h, childrenOf]
  cases v.table[q]? <;> rfl

lemma childrenOf_of_not_mem {q : Nat} (hq : q ∉ v.table.keys) : v.childrenOf q = [] := by
  cases hr : v.table[q]? with
  | none => exact childrenOf_of_not_live hr
  | some r => exact absurd (mem_keys.mpr ⟨r, hr⟩) hq

lemma signalsOf_of_not_mem {q : Nat} (hq : q ∉ v.table.keys) : v.signalsOf q = [] := by
  cases hr : v.table[q]? with
  | none => simp [signalsOf, hr]
  | some r => exact absurd (mem_keys.mpr ⟨r, hr⟩) hq

/-- A process has one link to its parent, if it has a parent. -/
lemma sum_childrenOf (h : v.Forest) (pid : Nat) :
    (v.table.keys.map fun q => (v.childrenOf q).length).sum =
      (v.table.keys.map fun q => ((v.childrenOf q).erase pid).length).sum +
        (if (v.parentOf pid).isSome then 1 else 0) := by
  cases hparent : v.parentOf pid with
  | none =>
    have hsame : ∀ q : Nat, (v.childrenOf q).erase pid = v.childrenOf q := by
      intro q
      rw [List.erase_of_not_mem]
      rw [h.mirrored, hparent]
      nofun
    simp [hsame]
  | some parent =>
    have hmem : parent ∈ v.table.keys := mem_keys.mpr (h.live_of_up hparent)
    have hothers : ((v.table.keys.erase parent).map fun q => ((v.childrenOf q).erase pid).length) =
        (v.table.keys.erase parent).map fun q => (v.childrenOf q).length := by
      refine List.map_congr_left fun q hq => ?_
      rw [List.erase_of_not_mem]
      rw [h.mirrored, hparent, Option.some_inj]
      rintro rfl
      exact (v.keys_nodup.mem_erase_iff.mp hq).1 rfl
    have hlink := (h.mirrored parent pid).mpr hparent
    have hperm := List.perm_cons_erase hmem
    rw [(hperm.map _).sum_eq, (hperm.map (fun q => ((v.childrenOf q).erase pid).length)).sum_eq,
      List.map_cons, List.map_cons, List.sum_cons, List.sum_cons, hothers,
      List.length_erase_of_mem hlink, Option.isSome_some, if_pos rfl]
    have hpos := List.length_pos_of_mem hlink
    omega

variable {cascade : Bool}

/-- The processes that follow a process are its descendants. -/
lemma Cleared.mem_iff_below (h : v.Forest) (hp : v.table[pid]? = some p)
    (hcleared : Cleared memory { v.remove pid with memory := m }
      (if cascade then p.children.reverse else []) removed w) (q : Nat) :
    q ∈ removed ↔ cascade = true ∧ TransGen v.Up q pid := by
  rw [hcleared.mem_iff]
  cases cascade with
  | false => simp
  | true =>
    have hbelow : ∀ child : Nat, (child ∈ p.children ∧ ReflTransGen (v.remove pid).Up q child) ↔
        ReflTransGen v.Up q child ∧ v.Up child pid := by
      intro child
      rw [Up, ← childrenOf_eq hp, ← h.mirrored pid child, and_comm]
      exact and_congr_left fun hchild => Forest.below_remove (h.not_above_child hchild) q
    simp only [if_true, List.mem_reverse, true_and, TransGen.tail'_iff]
    exact exists_congr hbelow

/-- Nobody who goes is the parent of the one that goes first. -/
lemma Cleared.not_parent (h : v.Forest) (hp : v.table[pid]? = some p)
    (hcleared : Cleared memory { v.remove pid with memory := m }
      (if cascade then p.children.reverse else []) removed w) {q : Nat} (hq : q ∈ pid :: removed) :
    ¬ v.Up pid q := by
  intro hup
  rcases List.mem_cons.mp hq with rfl | hq
  · exact h.acyclic q (.single hup)
  · exact h.acyclic pid (.head hup ((hcleared.mem_iff_below h hp q).mp hq).2)

lemma Cleared.keys_eq (hcleared : Cleared memory { v.remove pid with memory := m } roots removed w) :
    w.table.keys = v.table.keys.filter (· ∉ pid :: removed) := by
  refine View.keys_eq (v.keys_sorted.filter _) fun q => ?_
  rw [List.mem_filter, mem_keys, hcleared.get?_eq, get?_remove]
  by_cases hq : q ∈ pid :: removed
  · simp [hq]
  · have hne : q ≠ pid := by
      rintro rfl
      exact hq List.mem_cons_self
    rw [if_neg hq, if_neg hne]
    simp [hq]

lemma Cleared.not_mem_keys (hcleared : Cleared memory { v.remove pid with memory := m } roots removed w)
    {q : Nat} (hq : q ∉ v.table.keys) : q ∉ w.table.keys := by
  rw [hcleared.keys_eq]
  exact fun hmem => hq (List.mem_of_mem_filter hmem)

/-- Every process that goes gives its child links back, and there is one link to the first one. -/
lemma Cleared.sum_links (h : v.Forest) (hp : v.table[pid]? = some p)
    (hcleared : Cleared memory { v.remove pid with memory := m }
      (if cascade then p.children.reverse else []) removed w) :
    (v.table.keys.map fun q => (w.childrenOf q).length).sum +
        ((pid :: removed).flatMap v.childrenOf).length =
      (v.table.keys.map fun q => ((v.childrenOf q).erase pid).length).sum := by
  have hown : ((pid :: removed).flatMap v.childrenOf).length =
      ((pid :: removed).map fun q => ((v.childrenOf q).erase pid).length).sum := by
    rw [List.length_flatMap]
    refine congrArg List.sum (List.map_congr_left fun q hq => ?_)
    rw [List.erase_of_not_mem]
    rw [h.mirrored]
    exact hcleared.not_parent h hp hq
  rw [hown]
  refine sum_map_of_gone v.keys_nodup hcleared.nodup_cons (hcleared.subset_keys hp) (fun q hq => ?_)
    fun q hq => ?_
  · rw [childrenOf, hcleared.get?_eq, if_pos hq]
    rfl
  · rw [childrenOf_congr ((hcleared.get?_eq q).trans (if_neg hq)), childrenOf_remove, if_neg]
    rintro rfl
    exact hq List.mem_cons_self

/-- Whoever follows the first one is somebody's child. -/
lemma Cleared.length_le (hp : v.table[pid]? = some p)
    (hcleared : Cleared memory { v.remove pid with memory := m }
      (if cascade then p.children.reverse else []) removed w) :
    removed.length ≤ ((pid :: removed).flatMap v.childrenOf).length := by
  have hroots : (if cascade then p.children.reverse else []).length ≤ (v.childrenOf pid).length := by
    rw [childrenOf_eq hp]
    cases cascade <;> simp
  have hrest : (removed.flatMap (v.remove pid).childrenOf).length ≤
      (removed.flatMap v.childrenOf).length := by
    rw [List.length_flatMap, List.length_flatMap]
    refine List.sum_le_sum fun q _ => ?_
    rw [childrenOf_remove]
    split
    · exact Nat.zero_le _
    · exact List.length_erase_le
  have hlength : removed.length = (if cascade then p.children.reverse else []).length +
      (removed.flatMap (v.remove pid).childrenOf).length := hcleared.length_eq
  rw [List.flatMap_cons, List.length_append]
  omega

lemma Cleared.sum_signals (hp : v.table[pid]? = some p)
    (hcleared : Cleared memory { v.remove pid with memory := m } roots removed w) :
    (v.table.keys.map fun q => (w.signalsOf q).length).sum +
        ((pid :: removed).flatMap v.signalsOf).length =
      (v.table.keys.map fun q => (v.signalsOf q).length).sum := by
  rw [List.length_flatMap]
  refine sum_map_of_gone v.keys_nodup hcleared.nodup_cons (hcleared.subset_keys hp) (fun q hq => ?_)
    fun q hq => ?_
  · rw [signalsOf, hcleared.get?_eq, if_pos hq]
    rfl
  · rw [signalsOf_congr ((hcleared.get?_eq q).trans (if_neg hq)), signalsOf, get?_remove, if_neg,
      signalsOf]
    · cases v.table[q]? <;> rfl
    · rintro rfl
      exact hq List.mem_cons_self

end View

namespace Supervisor

variable {μ space : Type} (memory : MemoryService μ space)

/-- `t` is `s` after the destruction of `pid`, with the processes that went in the order in which
they did. -/
structure Destroyed (s : Supervisor μ space) (pid : Pid) (cascade : Bool) (removed : List Pid)
    (events : List (Event space)) (t : Supervisor μ space) : Prop where
  /-- The process goes, and with `cascade` so do its descendants. -/
  mem_removed : ∀ q : Pid, q ∈ removed ↔ q = pid ∨ cascade = true ∧ TransGen s.Up q pid
  nodup : removed.Nodup
  visited : Event.destroyed events = removed
  gone : ∀ q ∈ removed, t.viewOf q = none
  /-- In the child list of the parent, the siblings stay in order. -/
  parent : ∀ q : Pid, s.Up pid q →
    t.viewOf q = (s.viewOf q).map fun p => { p with children := p.children.filter (· != pid) }
  orphan : ∀ q ∉ removed, s.Up q pid → t.viewOf q = (s.viewOf q).map ({ · with parent := none })
  apart : ∀ q ∉ removed, ¬ s.Up pid q → ¬ s.Up q pid → t.viewOf q = s.viewOf q
  running : t.roster.running = s.roster.running.filter (· ∉ removed)
  active : t.roster.active = s.roster.active
  pids : t.pids.toList = s.pids.toList.filter (· ∉ removed)
  slots : t.roster.pool.size + removed.length = s.roster.pool.size
  /-- All child links of the processes that go are given back, and the link to the first one. -/
  links : t.links.size + (removed.flatMap s.childrenOf).length +
    (if (s.roster.parentOf pid).isSome then 1 else 0) = s.links.size
  signals : t.signals.size + (removed.flatMap s.signalsOf).length = s.signals.size
  spaces : Event.calls events = (removed.filterMap s.spaceOf).map (.destroy · true)
  memory : t.memory = (removed.filterMap s.spaceOf).foldl (memory.destroy · · true) s.memory

variable {memory} {s t : Supervisor μ space} {v w : View μ space} {pid : Pid} {p : ProcessView space}
  {removed : List Pid} {cascade : Bool} {events : List (Event space)}

lemma Shows.pool_size_eq (h : s.Shows v) : s.roster.pool.size = v.table.size := by
  rw [h.size_eq, h.roster.pool_size, h.roster.size_eq]

/-- What the views show of a destruction. -/
theorem destroyed_of_cleared (h : s.Shows v) (h' : t.Shows w) (hforest : v.Forest)
    (hp : v.table[pid]? = some p)
    (hcleared : View.Cleared memory
      { v.remove pid with memory := p.space.toList.foldl (memory.destroy · · true) v.memory }
      (if cascade then p.children.reverse else []) removed w)
    (hcalls : Event.calls events = ((pid :: removed).filterMap v.spaceOf).map (.destroy · true))
    (hdestroyed : Event.destroyed events = pid :: removed) :
    s.Destroyed memory pid cascade (pid :: removed) events t where
  mem_removed q := by
    rw [List.mem_cons, hcleared.mem_iff_below hforest hp, h.up_eq]
  nodup := hcleared.nodup_cons
  visited := hdestroyed
  gone q hq := by rw [h'.viewOf_eq, hcleared.get?_eq, if_pos hq]
  parent q hup := by
    rw [h.up_eq] at hup
    have hq : q ∉ pid :: removed := fun hq => hcleared.not_parent hforest hp hq hup
    rw [h'.viewOf_eq, h.viewOf_eq, hcleared.get?_eq, if_neg hq, View.get?_remove, if_neg]
    · cases hr : v.table[q]? with
      | none => rfl
      | some r =>
        have hroot : r.parent ≠ some pid := fun hparent =>
          hforest.acyclic pid (.head hup (.single ((View.parentOf_eq hr).trans hparent)))
        have hnodup : r.children.Nodup := by
          rw [← View.childrenOf_eq hr]
          exact hforest.nodup q
        rw [Option.map_some, Option.map_some, if_neg hroot, hnodup.erase_eq_filter]
    · rintro rfl
      exact hq List.mem_cons_self
  orphan q hq hup := by
    rw [h.up_eq] at hup
    rw [h'.viewOf_eq, h.viewOf_eq, hcleared.get?_eq, if_neg hq, View.get?_remove, if_neg]
    · cases hr : v.table[q]? with
      | none => rfl
      | some r =>
        have hparent : r.parent = some pid := (View.parentOf_eq hr).symm.trans hup
        have hnot : pid ∉ r.children := by
          rw [← View.childrenOf_eq hr, hforest.mirrored]
          exact fun hup' => hforest.acyclic pid (.head hup' (.single hup))
        rw [Option.map_some, Option.map_some, if_pos hparent, List.erase_of_not_mem hnot]
    · rintro rfl
      exact hq List.mem_cons_self
  apart q hq hparent hchild := by
    rw [h.up_eq] at hparent hchild
    rw [h'.viewOf_eq, h.viewOf_eq, hcleared.get?_eq, if_neg hq]
    exact View.get?_remove_of_apart hforest (fun heq => hq (heq ▸ List.mem_cons_self)) hparent hchild
  running := by
    rw [← h'.running, ← h.running]
    exact hcleared.running_eq
  active := by
    rw [← h'.active, ← h.active]
    exact hcleared.active
  pids := by
    rw [h'.usedPids_eq, h.usedPids_eq]
    exact hcleared.keys_eq
  slots := by
    have hperm := perm_gone_append v.keys_nodup hcleared.nodup_cons (hcleared.subset_keys hp)
    rw [h'.pool_size_eq, h.pool_size_eq, ← Std.ExtTreeMap.length_keys, ← Std.ExtTreeMap.length_keys,
      hcleared.keys_eq, hperm.length_eq, List.length_append, Nat.add_comm]
  links := by
    have hbefore := h.children.size_eq v.keys_nodup fun q hq => View.childrenOf_of_not_mem hq
    have hafter := h'.children.size_eq v.keys_nodup fun q hq =>
      View.childrenOf_of_not_mem (hcleared.not_mem_keys hq)
    rw [h.childrenOf_eq, h.parentOf_eq, ← hbefore, ← hafter, View.sum_childrenOf hforest pid,
      ← hcleared.sum_links hforest hp]
  signals := by
    have hbefore := h.signals.size_eq v.keys_nodup fun q hq => View.signalsOf_of_not_mem hq
    have hafter := h'.signals.size_eq v.keys_nodup fun q hq =>
      View.signalsOf_of_not_mem (hcleared.not_mem_keys hq)
    rw [h.signalsOf_eq, ← hbefore, ← hafter, ← hcleared.sum_signals hp]
  spaces := by
    rw [h.spaceOf_eq]
    exact hcalls
  memory := by
    rw [h.spaceOf_eq, ← h'.memory, ← h.memory]
    exact hcleared.memory_eq hp

/-- A destruction ends: it needs one round for every process that goes. -/
theorem run_destroy_cleared (h : s.Shows v) (hforest : v.Forest) (hp : v.table[pid]? = some p)
    (cascade : Bool) :
    ∃ removed t w events,
      View.Cleared memory
        { v.remove pid with memory := p.space.toList.foldl (memory.destroy · · true) v.memory }
        (if cascade then p.children.reverse else []) removed w ∧ t.Shows w ∧
      (destroy memory pid cascade).run s = ⟨.ok (), t, events⟩ ∧
      (∀ rounds, removed.length < rounds → (do
        unlinkFromParent pid
        destroyAll memory cascade rounds [pid]).run s = ⟨.ok (), t, events⟩) ∧
      Event.calls events = ((pid :: removed).filterMap v.spaceOf).map (.destroy · true) ∧
      Event.destroyed events = pid :: removed := by
  obtain ⟨s', hunlink⟩ : ∃ s', (unlinkFromParent pid : Action space (Supervisor μ space) Unit).run s =
      ⟨.ok (), s', []⟩ := ⟨_, run_modify _ s⟩
  have hdisown := h.disown pid
  rw [hunlink] at hdisown
  obtain ⟨removed, t, w, events, hcleared, hshows, hruns, hcalls, hdestroyed⟩ :=
    run_destroyAll memory hdisown hforest hp cascade
  have henough : removed.length < s'.links.size + 1 := by
    have hlinks := hdisown.children.size_eq v.keys_nodup fun q hq => by
      rw [View.childrenOf_disown hforest, View.childrenOf_of_not_mem hq, List.erase_nil]
    have hsum := hcleared.sum_links hforest hp
    have hle := hcleared.length_le hp
    simp only [View.childrenOf_disown hforest] at hlinks
    omega
  refine ⟨removed, t, w, events, hcleared, hshows, ?_, fun rounds hrounds => ?_, hcalls, hdestroyed⟩
  · rw [destroy, run_bind_quiet (run_require (h.check_of_table hp)), run_bind_quiet hunlink,
      run_bind_quiet (run_get s')]
    exact hruns _ henough
  · rw [run_bind_quiet hunlink]
    exact hruns rounds hrounds

theorem run_destroy (h : s.Shows v) (hforest : v.Forest) (hp : v.table[pid]? = some p)
    (cascade : Bool) :
    ∃ removed events t, (destroy memory pid cascade).run s = ⟨.ok (), t, events⟩ ∧
      (∀ rounds, removed.length ≤ rounds → (do
        unlinkFromParent pid
        destroyAll memory cascade rounds [pid]).run s = ⟨.ok (), t, events⟩) ∧
      s.Destroyed memory pid cascade removed events t := by
  obtain ⟨removed, t, w, events, hcleared, hshows, hrun, hruns, hcalls, hdestroyed⟩ :=
    run_destroy_cleared h hforest hp cascade
  exact ⟨pid :: removed, events, t, hrun, hruns,
    destroyed_of_cleared h hshows hforest hp hcleared hcalls hdestroyed⟩

end Supervisor

namespace Session

variable {μ space : Type} {memory : MemoryService μ space} {outside : μ → μ → Prop} {limits : Limits}
  {start : μ} {events : List (Event space)} {s : Session μ space}

/-- Destruction: wherever a run has led, every live process can be destroyed, alone or with all its
descendants. The destruction ends after one round for each process that goes; these give back all
that they hold, and nothing else changes but the links to the process that goes first. -/
theorem Run.teardown (h : Run memory outside limits start events s) {pid : Pid}
    (hlive : (s.supervisor.viewOf pid).isSome = true) (cascade : Bool) :
    ∃ removed reports t,
      (Supervisor.destroy memory pid cascade).run s.supervisor = ⟨.ok (), t, reports⟩ ∧
      (∀ rounds, removed.length ≤ rounds → (do
        Supervisor.unlinkFromParent pid
        Supervisor.destroyAll memory cascade rounds [pid]).run s.supervisor = ⟨.ok (), t, reports⟩) ∧
      s.supervisor.Destroyed memory pid cascade removed reports t := by
  obtain ⟨v, hshows, hlawful, -⟩ := h.shows
  rw [Supervisor.Shows.viewOf_eq hshows] at hlive
  obtain ⟨p, hp⟩ := Option.isSome_iff_exists.mp hlive
  exact Supervisor.run_destroy hshows hlawful.forest hp cascade

/-- A process goes with its child and its grandchild. -/
theorem teardown_of_family : ∃ events s removed reports t,
    Run HostMemory.service HostMemory.Adjusted ⟨8, 4, 4, 4, .lenient⟩ .empty events s ∧
    (s.supervisor.viewOf 1).isSome = true ∧
    (Supervisor.destroy HostMemory.service 1 true).run s.supervisor = ⟨.ok (), t, reports⟩ ∧
    s.supervisor.Destroyed HostMemory.service 1 true removed reports t ∧ 3 ∈ removed := by
  have hbegun : Run HostMemory.service HostMemory.Adjusted ⟨8, 4, 4, 4, .lenient⟩ .empty [] _ := .start
  have hfamily := ((hbegun.perform (.create none 0)).perform (.create (some 1) 0)).perform
    (.create (some 2) 0)
  obtain ⟨removed, reports, t, hrun, -, hdestroyed⟩ :=
    hfamily.teardown (show (Supervisor.viewOf _ 1).isSome = true by decide +kernel) true
  refine ⟨_, _, removed, reports, t, hfamily, by decide +kernel, hrun, hdestroyed,
    (hdestroyed.mem_removed 3).mpr (.inr ⟨rfl, .tail (.single (b := 2) ?_) ?_⟩)⟩
  · rfl
  · rfl

end Session

end Uniprocessor
