import Uniprocessor.Proofs.Resemblance
import Uniprocessor.Proofs.Teardowns

/-!
# Destroying a family one by one

A process and all below it can go in one cascade or by a destruction each, in any order. A destruction
alone leaves orphans, which a later one takes; in the end nobody can tell the two ways apart. Only the
order in which the spaces are given up is another.
-/

namespace Uniprocessor

open Uniprocessor.Action Relation

section Order

variable {μ space : Type}

/-- The order in which spaces are given up makes no difference that counts for `alike`. -/
structure MemoryService.Unordered (memory : MemoryService μ space) (alike : μ → μ → Prop) : Prop where
  equivalence : Equivalence alike
  congr : ∀ {m m'} handle, alike m m' → alike (memory.destroy m handle true) (memory.destroy m' handle true)
  swap : ∀ m handle handle', alike (memory.destroy (memory.destroy m handle true) handle' true)
    (memory.destroy (memory.destroy m handle' true) handle true)

variable {memory : MemoryService μ space} {alike : μ → μ → Prop}

lemma MemoryService.Unordered.foldl_congr (h : memory.Unordered alike) (given : List space) {m m' : μ}
    (hsame : alike m m') :
    alike (given.foldl (memory.destroy · · true) m) (given.foldl (memory.destroy · · true) m') := by
  induction given generalizing m m' with
  | nil => exact hsame
  | cons handle given ih => exact ih (h.congr handle hsame)

lemma MemoryService.Unordered.foldl_perm (h : memory.Unordered alike) {given given' : List space}
    (hperm : given.Perm given') (m : μ) :
    alike (given.foldl (memory.destroy · · true) m) (given'.foldl (memory.destroy · · true) m) := by
  induction hperm generalizing m with
  | nil => exact h.equivalence.refl m
  | cons handle _ ih => exact ih (memory.destroy m handle true)
  | swap handle handle' rest => exact h.foldl_congr rest (h.swap m handle' handle)
  | trans _ _ ih ih' => exact h.equivalence.trans (ih m) (ih' m)

end Order

namespace HostMemory

variable {m m' : HostMemory}

/-- Nothing but the order in which spaces were given up tells `m` from `m'`. -/
structure AlikeUnordered (m m' : HostMemory) : Prop where
  spaces : m.spaces = m'.spaces
  lastId : m.lastId = m'.lastId
  failCreate : m.failCreate = m'.failCreate
  failClone : m.failClone = m'.failClone
  failMappingAfter : m.failMappingAfter = m'.failMappingAfter
  freed : m.freed.toList.Perm m'.freed.toList

lemma destroy_eq (m : HostMemory) (handle : HostSpace) :
    m.destroy handle = { m with
      spaces := m.spaces.erase handle.id
      freed := if m.spaces.contains handle.id then m.freed.push handle.id else m.freed } := by
  rw [destroy]
  split
  · rfl
  · rename_i hdead
    have hnone : m.spaces.erase handle.id = m.spaces := by
      apply Std.ExtTreeMap.ext_getElem?
      intro id
      rw [Std.ExtTreeMap.getElem?_erase]
      split
      · rename_i hid
        rw [← Nat.compare_eq_eq.mp hid, eq_comm]
        exact Std.ExtTreeMap.getElem?_eq_none_of_contains_eq_false (Bool.eq_false_iff.mpr hdead)
      · rfl
    rw [hnone]

lemma erase_erase (spaces : Std.ExtTreeMap Nat HostSpaceData) (id id' : Nat) :
    (spaces.erase id).erase id' = (spaces.erase id').erase id := by
  apply Std.ExtTreeMap.ext_getElem?
  intro other
  simp only [Std.ExtTreeMap.getElem?_erase]
  split <;> split <;> rfl

/-- The host keeps the order in which spaces were given up, and else no trace of it. -/
lemma unordered_service : service.Unordered AlikeUnordered where
  equivalence :=
    { refl := fun m => ⟨rfl, rfl, rfl, rfl, rfl, .refl _⟩
      symm := fun h => ⟨h.spaces.symm, h.lastId.symm, h.failCreate.symm, h.failClone.symm,
        h.failMappingAfter.symm, h.freed.symm⟩
      trans := fun h h' => ⟨h.spaces.trans h'.spaces, h.lastId.trans h'.lastId,
        h.failCreate.trans h'.failCreate, h.failClone.trans h'.failClone,
        h.failMappingAfter.trans h'.failMappingAfter, h.freed.trans h'.freed⟩ }
  congr {m m'} handle h := by
    change AlikeUnordered (m.destroy handle) (m'.destroy handle)
    rw [destroy_eq, destroy_eq, h.spaces]
    refine ⟨rfl, h.lastId, h.failCreate, h.failClone, h.failMappingAfter, ?_⟩
    dsimp only
    split
    · rw [Array.toList_push, Array.toList_push]
      exact h.freed.append_right _
    · exact h.freed
  swap m handle handle' := by
    change AlikeUnordered ((m.destroy handle).destroy handle') ((m.destroy handle').destroy handle)
    rw [destroy_eq, destroy_eq m, destroy_eq, destroy_eq m]
    refine ⟨erase_erase m.spaces handle.id handle'.id, rfl, rfl, rfl, rfl, ?_⟩
    by_cases hid : handle.id = handle'.id
    · rw [hid]
    · have hother : compare handle.id handle'.id ≠ .eq := mt Nat.compare_eq_eq.mp hid
      have hother' : compare handle'.id handle.id ≠ .eq := mt Nat.compare_eq_eq.mp (Ne.symm hid)
      simp only [Std.ExtTreeMap.contains_erase, bne_iff_ne.mpr hother, bne_iff_ne.mpr hother', Bool.true_and]
      cases m.spaces.contains handle.id <;> cases m.spaces.contains handle'.id
      · exact .refl _
      · exact .refl _
      · exact .refl _
      · simp only [if_true, Array.toList_push, List.append_assoc]
        exact (List.Perm.swap handle'.id handle.id []).append_left _

end HostMemory

/-! ### Removals in any order -/

namespace View

variable {μ space : Type} {memory : MemoryService μ space} {v w : View μ space} {pid : Pid}
  {p : ProcessView space} {pids order removed : List Pid} {m : μ}

/-- If a process goes with all below it, a single link is cut that is not between them: the one to it. -/
lemma get?_removeAll_of_below (h : v.Forest) (horder : ∀ q : Nat, q ∈ order ↔ ReflTransGen v.Up q pid)
    {q : Nat} (hq : q ∉ order) : (v.removeAll order).table[q]? = (v.remove pid).table[q]? := by
  have hne : q ≠ pid := by
    rintro rfl
    exact hq ((horder q).mpr .refl)
  have habove : ∀ parent : Nat, v.parentOf q = some parent → parent ∉ order := fun parent hup hparent =>
    hq ((horder q).mpr (.head hup ((horder parent).mp hparent)))
  rw [get?_removeAll h, if_neg hq, get?_remove, if_neg hne]
  cases hr : v.table[q]? with
  | none => rfl
  | some r =>
    have hpid : pid ∈ order := (horder pid).mpr .refl
    have hnodup : r.children.Nodup := by
      rw [← childrenOf_eq hr]
      exact h.nodup q
    have hchildren : r.children.filter (· ∉ order) = r.children.erase pid := by
      rw [hnodup.erase_eq_filter]
      refine List.filter_congr fun child hchild => ?_
      rw [← childrenOf_eq hr, h.mirrored] at hchild
      -- the way from any other child to `pid` leads through `q`, which stays
      have hiff : child ∉ order ↔ child ≠ pid := by
        refine not_congr ⟨fun hmem => ?_, fun heq => heq ▸ hpid⟩
        rcases ((horder child).mp hmem).cases_head with heq | ⟨parent, hup, hbelow⟩
        · exact heq
        · rw [Up, hchild, Option.some_inj] at hup
          exact absurd ((horder q).mpr (hup ▸ hbelow)) hq
      simp [hiff, bne, beq_eq_decide]
    have hparent : r.parent.filter (· ∉ order) = if r.parent = some pid then none else r.parent := by
      rw [parentOf_eq hr] at habove
      cases hparent : r.parent with
      | none => rfl
      | some parent =>
        have hout := habove parent hparent
        have hother : parent ≠ pid := fun heq => hout (heq ▸ hpid)
        simp [hout, hother]
    rw [Option.map_some, Option.map_some, hchildren, hparent]

lemma live_of_below {q : Nat} (hp : v.table[pid]? = some p) (hbelow : ReflTransGen v.Up q pid) :
    ∃ p, v.table[q]? = some p := by
  rcases hbelow.cases_head with rfl | ⟨_, hup, -⟩
  · exact ⟨p, hp⟩
  · exact live_of_parentOf hup

lemma Cleared.mem_iff_mem (h : v.Forest) (hp : v.table[pid]? = some p)
    (hcleared : Cleared memory { v.remove pid with memory := m } p.children.reverse removed w)
    (horder : ∀ q : Nat, q ∈ order ↔ ReflTransGen v.Up q pid) (q : Nat) :
    q ∈ pid :: removed ↔ q ∈ order := by
  have hbelow : q ∈ removed ↔ true = true ∧ TransGen v.Up q pid := hcleared.mem_iff_below h hp q
  rw [List.mem_cons, hbelow, horder, reflTransGen_iff_eq_or_transGen, eq_comm, eq_self, true_and]

/-- What goes in a cascade may go one by one. -/
lemma Cleared.eq_removeAll (h : v.Forest) (hp : v.table[pid]? = some p)
    (hcleared : Cleared memory { v.remove pid with memory := m } p.children.reverse removed w)
    (horder : ∀ q : Nat, q ∈ order ↔ ReflTransGen v.Up q pid) (hlimits : w.limits = v.limits) :
    w = { v.removeAll order with memory := w.memory, room := w.room } := by
  have hmem := hcleared.mem_iff_mem h hp horder
  have hsame : (fun q => decide (q ∉ pid :: removed)) = fun q => decide (q ∉ order) := by
    funext q
    rw [decide_eq_decide, hmem]
  refine ext_get? (hlimits.trans (removeAll_limits v order).symm) rfl (fun q => ?_) ?_ ?_
  · rw [hcleared.get?_eq]
    by_cases hq : q ∈ order
    · rw [if_pos ((hmem q).mpr hq), get?_removeAll h, if_pos hq]
    · rw [if_neg (mt (hmem q).mp hq), get?_removeAll_of_below h horder hq]
  · rw [hcleared.running_eq, running_removeAll, hsame]
  · rw [hcleared.active, active_removeAll]
    rfl

/-- Of the spaces of several processes, that of the first one comes first, and then it is gone. -/
lemma freed_cons (hp : v.table[pid]? = some p) (hnodup : (pid :: pids).Nodup) :
    v.freed memory (pid :: pids) =
      View.freed memory { v.remove pid with
        memory := p.space.toList.foldl (memory.destroy · · true) v.memory } pids := by
  rw [freed, freed, filterMap_spaceOf_cons hp hnodup, List.foldl_append]
  rfl

end View

/-! ### One by one -/

namespace Supervisor

variable {μ space : Type} {memory : MemoryService μ space} {s t : Supervisor μ space} {v w : View μ space}
  {pid : Pid} {p : ProcessView space}

/-- A process and its descendants, in ascending order of identifiers. -/
def family (s : Supervisor μ space) (pid : Pid) : List Pid :=
  s.pids.toList.filter (pid ∈ s.roster.lineage ·)

lemma Shows.mem_family (h : s.Shows v) (hforest : v.Forest) (hp : v.table[pid]? = some p) (q : Pid) :
    q ∈ s.family pid ↔ ReflTransGen s.Up q pid := by
  rw [family, List.mem_filter, h.usedPids_eq, View.mem_keys, decide_eq_true_iff, h.lineage_eq,
    hforest.mem_lineage, h.up_eq]
  exact and_iff_right_of_imp (View.live_of_below hp)

/-- A process that is destroyed alone leaves, with every link to it, and gives its space back. -/
lemma run_destroy_alone (h : s.Shows v) (hforest : v.Forest) (hp : v.table[pid]? = some p) :
    ∃ t events, (destroy memory pid false).run s = ⟨.ok (), t, events⟩ ∧
      t.Shows { v.remove pid with memory := p.space.toList.foldl (memory.destroy · · true) v.memory } ∧
      Event.calls events = p.space.toList.map (.destroy · true) := by
  obtain ⟨s', hunlink⟩ : ∃ s', (unlinkFromParent pid : Action space (Supervisor μ space) Unit).run s =
      ⟨.ok (), s', []⟩ := ⟨_, run_modify _ s⟩
  have hdisown := h.disown pid
  rw [hunlink] at hdisown
  obtain ⟨t, events, hrun, hshows, hcalls, -⟩ := run_clear memory hdisown hforest hp false
  refine ⟨t, events, ?_, hshows, hcalls⟩
  have hrest : (destroyAll memory false s'.links.size []).run t = ⟨.ok (), t, []⟩ := by
    cases s'.links.size <;> rfl
  rw [destroy, run_bind_quiet (run_require (h.check_of_table hp)), run_bind_quiet hunlink,
    run_bind_quiet (run_get s'), destroyAll_cons, run_bind_ok hrun, if_neg Bool.false_ne_true, hrest,
    List.append_nil]

/-- `t` is `s` after the spaces in `given` were given up, in this order, by the calls in `calls`. -/
structure GivesUp (memory : MemoryService μ space) (s : Supervisor μ space) (given : List space)
    (calls : List (MemoryCall space)) (t : Supervisor μ space) : Prop where
  calls : calls = given.map (.destroy · true)
  memory : t.memory = given.foldl (memory.destroy · · true) s.memory

/-- A cascade takes the same processes out as removals in any order, and gives the same spaces up. -/
lemma run_destroy_family {order : List Pid} (h : s.Shows v) (hforest : v.Forest)
    (hp : v.table[pid]? = some p) (hnodup : order.Nodup)
    (horder : ∀ q : Nat, q ∈ order ↔ ReflTransGen v.Up q pid) :
    ∃ given t w events, (destroy memory pid true).run s = ⟨.ok (), t, events⟩ ∧ t.Shows w ∧
      (w.limits = v.limits → w = { v.removeAll order with memory := w.memory, room := w.room }) ∧
      s.GivesUp memory given (Event.calls events) t ∧ given.Perm (order.filterMap v.spaceOf) := by
  obtain ⟨removed, t, w, events, hcleared, hshows, hrun, -, hcalls, -⟩ :=
    run_destroy_cleared h hforest hp true
  rw [if_pos rfl] at hcleared
  refine ⟨(pid :: removed).filterMap v.spaceOf, t, w, events, hrun, hshows,
    hcleared.eq_removeAll hforest hp horder, ⟨hcalls, ?_⟩, List.Perm.filterMap _ ?_⟩
  · rw [← hshows.memory, hcleared.memory_eq hp, ← h.memory]
    rfl
  · exact (List.perm_ext_iff_of_nodup hcleared.nodup_cons hnodup).mpr
      (hcleared.mem_iff_mem hforest hp horder)

/-- Nothing but their memory tells `s` from `t`. -/
structure AlikeButMemory (s t : Supervisor μ space) : Prop where
  limits : s.limits = t.limits
  observe : s.observe = t.observe
  viewOf : s.viewOf = t.viewOf
  slots : s.roster.pool.size = t.roster.pool.size
  /-- The spaces that the processes hold. -/
  spaces : s.spaces = t.spaces

/-- All that is not memory is in the view. -/
lemma Shows.alikeButMemory (hs : s.Shows v) (ht : t.Shows w)
    (h : w = { v with memory := w.memory, room := w.room }) : s.AlikeButMemory t where
  limits := by
    rw [← hs.limits, ← ht.limits, h]
  observe := by
    rw [hs.observe_eq, ht.observe_eq, h]
    rfl
  viewOf := by
    funext pid
    rw [hs.viewOf_eq, ht.viewOf_eq, h]
  slots := by
    rw [hs.pool_size_eq, ht.pool_size_eq, h]
  spaces := by
    rw [hs.spaces_eq, ht.spaces_eq, h]
    rfl

end Supervisor

namespace Session

variable {μ space : Type} {memory : MemoryService μ space} {outside : μ → μ → Prop} {limits : Limits}
  {start : μ} {events : List (Event space)} {s : Session μ space} {v : View μ space} {order : List Pid}

lemma run_perform_destroy {t : Supervisor μ space} {pid : Pid} {cascade : Bool}
    (h : (Supervisor.destroy memory pid cascade).run s.supervisor = ⟨.ok (), t, events⟩) :
    ∃ s', (perform memory (.destroy pid cascade)).run s = ⟨.ok .done, s', events⟩ ∧ s'.supervisor = t := by
  have hsame : ∃ s', (onSupervisor (Supervisor.destroy memory pid cascade)).run s =
      ⟨((Supervisor.destroy memory pid cascade).run s.supervisor).result, s',
        ((Supervisor.destroy memory pid cascade).run s.supervisor).events⟩ ∧
      s'.supervisor = ((Supervisor.destroy memory pid cascade).run s.supervisor).state := ⟨_, rfl, rfl⟩
  rw [h] at hsame
  obtain ⟨s', hrun, hafter⟩ := hsame
  exact ⟨s', by rw [perform, run_bind_ok hrun, run_pure, List.append_nil], hafter⟩

/-- Destructions of different live processes, one by one, all succeed. -/
lemma Shows.performAll_destroy (h : s.Shows v) (hforest : v.Forest) (hnodup : order.Nodup)
    (hlive : ∀ q ∈ order, ∃ p, v.table[q]? = some p) :
    ∃ answers t, performAll memory (order.map (.destroy · false)) s = (answers, t) ∧
      answers.map (·.1) = order.map (fun _ => .ok .done) ∧
      t.Shows { v.removeAll order with memory := v.freed memory order } ∧
      answers.flatMap (·.2) = (order.filterMap v.spaceOf).map (.destroy · true) := by
  induction order generalizing s v with
  | nil => exact ⟨[], s, rfl, rfl, h, rfl⟩
  | cons pid rest ih =>
    obtain ⟨p, hp⟩ := hlive pid List.mem_cons_self
    obtain ⟨t, events, hrun, hshows, hcalls⟩ := Supervisor.run_destroy_alone h hforest hp
    obtain ⟨s', hrun', rfl⟩ := run_perform_destroy hrun
    have hlive' : ∀ q ∈ rest, ∃ p, (v.remove pid).table[q]? = some p := by
      intro q hq
      have hne : q ≠ pid := by
        rintro rfl
        exact (List.nodup_cons.mp hnodup).1 hq
      obtain ⟨r, hr⟩ := hlive q (List.mem_cons_of_mem pid hq)
      exact ⟨_, by rw [View.get?_remove, if_neg hne, hr]; rfl⟩
    obtain ⟨answers, t, hall, hdone, hshows', hcalls'⟩ := ih hshows
      ((hforest.remove pid).congr (fun _ => rfl) fun _ => rfl) (List.nodup_cons.mp hnodup).2 hlive'
    refine ⟨(.ok .done, Event.calls events) :: answers, t, ?_, ?_, ?_, ?_⟩
    · rw [List.map_cons, performAll, hrun']
      dsimp only
      rw [hall]
    · rw [List.map_cons, List.map_cons, hdone]
    · rw [View.freed_cons hp hnodup, View.removeAll, List.foldl_cons, ← View.removeAll]
      rwa [View.removeAll_withMemory] at hshows'
    · rw [List.flatMap_cons, hcalls, hcalls', View.filterMap_spaceOf_cons hp hnodup, List.map_append]
      rfl

lemma Run.mem_family (h : Run memory outside limits start events s) {pid : Pid}
    (hlive : (s.supervisor.viewOf pid).isSome = true) (q : Pid) :
    q ∈ s.supervisor.family pid ↔ ReflTransGen s.supervisor.Up q pid := by
  obtain ⟨v, hshows, hlawful, -⟩ := h.shows
  rw [Supervisor.Shows.viewOf_eq hshows] at hlive
  obtain ⟨p, hp⟩ := Option.isSome_iff_exists.mp hlive
  exact Supervisor.Shows.mem_family hshows hlawful.forest hp q

/-- Order independence: wherever a run has led, a live process and all its descendants can be destroyed
one by one in any order. Each destruction succeeds, and the end is that of a single cascade, for the same
spaces are given up. Nobody can tell the two ways apart but by the order in which they are. -/
theorem Run.teardown_one_by_one (h : Run memory outside limits start events s) {pid : Pid}
    (hlive : (s.supervisor.viewOf pid).isSome = true) (hnodup : order.Nodup)
    (horder : ∀ q : Pid, q ∈ order ↔ ReflTransGen s.supervisor.Up q pid) :
    ∃ answers t t' reports given,
      Session.performAll memory (order.map (.destroy · false)) s = (answers, t) ∧
      answers.map (·.1) = order.map (fun _ => .ok .done) ∧
      (Session.perform memory (.destroy pid true)).run s = ⟨.ok .done, t', reports⟩ ∧
      t.supervisor.AlikeButMemory t'.supervisor ∧
      s.supervisor.GivesUp memory (order.filterMap s.supervisor.spaceOf) (answers.flatMap (·.2))
        t.supervisor ∧
      s.supervisor.GivesUp memory given (Event.calls reports) t'.supervisor ∧
      given.Perm (order.filterMap s.supervisor.spaceOf) ∧
      ∀ alike, memory.Unordered alike → alike t.supervisor.memory t'.supervisor.memory := by
  obtain ⟨v, hshows, hlawful, -⟩ := h.shows
  replace hshows : s.supervisor.Shows v := hshows
  have hforest := hlawful.forest
  rw [hshows.viewOf_eq] at hlive
  obtain ⟨p, hp⟩ := Option.isSome_iff_exists.mp hlive
  rw [hshows.up_eq] at horder
  obtain ⟨answers, t, hall, hdone, halone, hcalls⟩ :=
    Shows.performAll_destroy hshows hforest hnodup fun q hq => View.live_of_below hp ((horder q).mp hq)
  obtain ⟨given, u, w, reports, hrun, hcascade, hview, hgiven, hperm⟩ :=
    Supervisor.run_destroy_family hshows hforest hp hnodup horder
  obtain ⟨t', hrun', rfl⟩ := run_perform_destroy hrun
  have hlimits : w.limits = v.limits := by
    have hafter := h.perform (.destroy pid true)
    rw [hrun'] at hafter
    rw [hcascade.limits, hafter.limits_eq, hshows.limits, h.limits_eq]
  have hgiven' : s.supervisor.GivesUp memory (order.filterMap v.spaceOf) (answers.flatMap (·.2))
      t.supervisor := by
    refine ⟨hcalls, ?_⟩
    rw [← Supervisor.Shows.memory halone, ← hshows.memory]
    rfl
  rw [hshows.spaceOf_eq]
  refine ⟨answers, t, t', reports, given, hall, hdone, hrun',
    Supervisor.Shows.alikeButMemory halone hcascade (hview hlimits), hgiven', hgiven, hperm,
    fun alike hunordered => ?_⟩
  rw [hgiven.memory, hgiven'.memory]
  exact hunordered.foldl_perm hperm.symm s.supervisor.memory

/-- A child of 1 goes with its two children: one of them before it, as nobody's parent, and the other one
after it, as an orphan. -/
theorem teardown_one_by_one_of_family : ∃ events s answers t t' reports,
    Run HostMemory.service HostMemory.Adjusted ⟨8, 8, 4, 4, .lenient⟩ .empty events s ∧
    (s.supervisor.viewOf 2).isSome = true ∧ [4, 2, 3].Nodup ∧
    (∀ q : Pid, q ∈ [4, 2, 3] ↔ ReflTransGen s.supervisor.Up q 2) ∧
    performAll HostMemory.service ([4, 2, 3].map (.destroy · false)) s = (answers, t) ∧
    answers.map (·.1) = [.ok .done, .ok .done, .ok .done] ∧
    (perform HostMemory.service (.destroy 2 true)).run s = ⟨.ok .done, t', reports⟩ ∧
    t.supervisor.AlikeButMemory t'.supervisor ∧ t.supervisor.memory.AlikeUnordered t'.supervisor.memory ∧
    t.supervisor.memory.freed = #[4, 2, 3] ∧ t'.supervisor.memory.freed = #[2, 4, 3] := by
  have hbegun : Run HostMemory.service HostMemory.Adjusted ⟨8, 8, 4, 4, .lenient⟩ .empty [] _ := .start
  have hfamily := (((hbegun.perform (.create none 0)).perform (.create (some 1) 0)).perform
    (.create (some 2) 0)).perform (.create (some 2) 0)
  have hequipped := hfamily.perform .materializeCreated
  have horder := fun hlive q =>
    (show List.Perm [4, 2, 3] (Supervisor.family _ 2) by decide +kernel).mem_iff.trans
      (hequipped.mem_family hlive q)
  obtain ⟨answers, t, t', reports, given, hall, hdone, hrun, halike, -, -, -, hunordered⟩ :=
    hequipped.teardown_one_by_one (by decide +kernel) (by decide) (horder (by decide +kernel))
  have hafter : _ = t := congrArg Prod.snd hall
  have hafter' : _ = t' := congrArg Outcome.state hrun
  refine ⟨_, _, answers, t, t', reports, hequipped, by decide +kernel, by decide,
    horder (by decide +kernel), hall, hdone, hrun, halike, hunordered _ HostMemory.unordered_service, ?_, ?_⟩
  · rw [← hafter]
    decide +kernel
  · rw [← hafter']
    decide +kernel

end Session

end Uniprocessor
