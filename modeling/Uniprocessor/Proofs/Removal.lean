import Uniprocessor.Proofs.Accounts

/-!
# Removal of processes

Destroying a process takes it out of the forest together with every link to it and gives its space
back. A cascade goes on with the children, which are roots by then, so one removal after the other
is all there is to it. Cloning undoes a birth by the same way.
-/

namespace Uniprocessor

open Uniprocessor.Action Relation

namespace View

variable {μ space : Type} {v w : View μ space} {pid : Pid} {p : ProcessView space}

/-- Takes processes out, one after the other. -/
def removeAll (v : View μ space) (pids : List Pid) : View μ space := pids.foldl remove v

lemma Lawful.removeAll (h : v.Lawful) (pids : List Pid) : (v.removeAll pids).Lawful := by
  induction pids generalizing v with
  | nil => exact h
  | cons pid pids ih => exact ih (h.remove pid)

/-- In removals those of the list go, and with them all links to them. -/
lemma get?_removeAll (h : v.Forest) (pids : List Pid) (q : Nat) :
    (v.removeAll pids).table[q]? = if q ∈ pids then none else v.table[q]?.map fun p => { p with
      parent := p.parent.filter (· ∉ pids)
      children := p.children.filter (· ∉ pids) } := by
  induction pids generalizing v with
  | nil =>
    rw [removeAll, List.foldl_nil, if_neg List.not_mem_nil]
    cases v.table[q]? with
    | none => rfl
    | some r => cases r with | mk _ _ _ _ _ _ parent => cases parent <;> simp [Option.filter]
  | cons pid pids ih =>
    rw [removeAll, List.foldl_cons, ← removeAll, ih (h.remove pid), get?_remove]
    by_cases hq : q = pid
    · simp [hq]
    · cases hr : v.table[q]? with
      | none => simp
      | some r =>
        have hnodup : r.children.Nodup := by
          rw [← childrenOf_eq hr]
          exact h.nodup q
        have hchildren : (r.children.erase pid).filter (· ∉ pids) = r.children.filter (· ∉ pid :: pids) := by
          rw [hnodup.erase_eq_filter, List.filter_filter]
          refine List.filter_congr fun child _ => ?_
          rw [Bool.and_comm]
          simp [bne, beq_eq_decide]
        have hparent : (if r.parent = some pid then none else r.parent).filter (· ∉ pids) =
            r.parent.filter (· ∉ pid :: pids) := by
          cases r.parent with
          | none => rfl
          | some parent => by_cases hparent : parent = pid <;> simp [hparent, Option.filter]
        simp only [List.mem_cons, hq, false_or, if_neg, Option.map_some, hchildren, hparent, not_false_iff]

lemma running_removeAll (v : View μ space) (pids : List Pid) :
    (v.removeAll pids).running = v.running.filter (· ∉ pids) := by
  induction pids generalizing v with
  | nil => cases hrunning : v.running <;> simp [removeAll, hrunning, Option.filter]
  | cons pid pids ih =>
    rw [removeAll, List.foldl_cons, ← removeAll, ih, remove]
    cases hrunning : v.running with
    | none => rfl
    | some runner => by_cases hrunner : runner = pid <;> simp [hrunner, Option.filter]

lemma active_removeAll (v : View μ space) (pids : List Pid) : (v.removeAll pids).active = v.active := by
  induction pids generalizing v with
  | nil => rfl
  | cons pid pids ih => exact ih (v.remove pid)

lemma removeAll_withMemory (v : View μ space) (m : μ) (pids : List Pid) :
    View.removeAll { v with memory := m } pids = { v.removeAll pids with memory := m } := by
  induction pids generalizing v with
  | nil => rfl
  | cons pid pids ih => exact ih (v.remove pid)

/-! ### One removal in parts -/

lemma disown_eq (v : View μ space) (pid : Pid) :
    v.disown pid = { v with table := (v.disown pid).table } := by
  unfold disown
  split <;> rfl

lemma get?_disown (h : v.Forest) (pid q : Nat) :
    (v.disown pid).table[q]? =
      v.table[q]?.map fun p => { p with children := p.children.erase pid } := by
  have hsame : ∀ p, v.table[q]? = some p → v.parentOf pid ≠ some q →
      ({ p with children := p.children.erase pid } : ProcessView space) = p := by
    intro p hp hparent
    have hnot : pid ∉ p.children := by
      rw [← childrenOf_eq hp, h.mirrored]
      exact hparent
    rw [List.erase_of_not_mem hnot]
  rw [disown]
  cases hparent : v.parentOf pid with
  | none =>
    cases hp : v.table[q]? with
    | none => rfl
    | some p => rw [Option.map_some, hsame p hp (by rw [hparent]; simp)]
  | some parent =>
    dsimp only
    rw [get?_update]
    split
    · rename_i hq
      rw [hq]
    · rename_i hq
      cases hp : v.table[q]? with
      | none => rfl
      | some p =>
        rw [Option.map_some, hsame p hp]
        rw [hparent, Ne, Option.some_inj]
        exact Ne.symm hq

lemma get?_disown_self (h : v.Forest) (hp : v.table[pid]? = some p) :
    (v.disown pid).table[pid]? = some p := by
  have hnot : pid ∉ p.children := by
    rw [← childrenOf_eq hp, h.mirrored]
    exact fun hup => h.acyclic pid (.single hup)
  rw [get?_disown h, hp, Option.map_some, List.erase_of_not_mem hnot]

/-- The parts of a removal make it up. -/
lemma drop_orphan_disown (h : v.Forest) (hp : v.table[pid]? = some p) :
    (((v.disown pid).update pid ({ · with children := [] })).orphan p.children).drop pid =
      v.remove pid := by
  have horphan := orphan_eq ((v.disown pid).update pid ({ · with children := [] })) p.children
  have hdisown := disown_eq v pid
  refine ext_get? ?_ ?_ (fun q => ?_) ?_ ?_ ?_
  · rw [drop, horphan, update, hdisown]
    rfl
  · rw [drop, horphan, update, hdisown]
    rfl
  · rw [get?_drop, get?_remove]
    split
    · rfl
    · rename_i hq
      rw [get?_orphan, get?_update, if_neg hq, get?_disown h]
      cases hr : v.table[q]? with
      | none => rfl
      | some r =>
        have hmem : q ∈ p.children ↔ r.parent = some pid := by
          rw [← childrenOf_eq hp, h.mirrored, parentOf_eq hr]
        simp only [Option.map_some, hmem]
        split <;> rfl
  · rw [drop, horphan, update, hdisown]
    rfl
  · rw [drop, horphan, update, hdisown]
    rfl
  · rw [drop, horphan, update, hdisown]
    rfl

lemma get?_born_self (v : View μ space) {parent : Option Pid} (hne : parent ≠ some pid)
    (entry : UInt64) :
    (v.born parent pid entry).table[pid]? =
      some { (ProcessView.fresh entry : ProcessView space) with parent := parent } := by
  cases parent with
  | none => rw [born, get?_enroll, if_pos rfl, ProcessView.fresh]
  | some parent =>
    have hapart : pid ≠ parent := fun heq => hne (congrArg some heq.symm)
    rw [born, adopt, get?_update, if_pos rfl, get?_update, if_neg hapart, get?_enroll, if_pos rfl]
    rfl

/-- Of the others only the parent changes. -/
lemma get?_born_other (v : View μ space) (parent : Option Pid) (entry : UInt64) {q : Nat}
    (hq : q ≠ pid) :
    (v.born parent pid entry).table[q]? = v.table[q]?.map fun p =>
      if parent = some q then { p with children := p.children ++ [pid] } else p := by
  cases parent with
  | none => simp [born, hq]
  | some parent =>
    rw [born, adopt, get?_update, if_neg hq, get?_update, get?_enroll, get?_enroll, if_neg hq]
    by_cases hparent : q = parent
    · subst hparent
      rw [if_pos rfl, if_neg hq]
      simp
    · rw [if_neg hparent]
      simp [Ne.symm hparent]

/-- A process that is born and removed leaves nothing behind. -/
lemma remove_born (h : v.Lawful) (hfree : v.freePid? = some pid) (parent : Option Pid)
    (entry : UInt64) : (v.born parent pid entry).remove pid = v := by
  have hnew := get?_of_freePid? hfree
  have hrunning : v.running ≠ some pid := by
    intro hrunning
    obtain ⟨p, hp⟩ := h.live pid hrunning
    rw [hnew] at hp
    cases hp
  have hborn : v.born parent pid entry = { v with table := (v.born parent pid entry).table } := by
    cases parent <;> rfl
  rw [hborn]
  refine ext_get? rfl rfl (fun q => ?_) (if_neg hrunning) rfl
  rw [get?_remove]
  split
  · rename_i hq
    rw [hq, hnew]
  · rename_i hq
    have hplain : ∀ r, v.table[q]? = some r → r.parent ≠ some pid ∧ pid ∉ r.children := by
      intro r hr
      rw [← parentOf_eq hr, ← childrenOf_eq hr]
      exact ⟨h.forest.parentOf_ne hnew, h.forest.not_mem_childrenOf hnew⟩
    rw [get?_born_other v parent entry hq, Option.map_map]
    cases hr : v.table[q]? with
    | none => rfl
    | some r =>
      obtain ⟨hparent, hchildren⟩ := hplain r hr
      by_cases habove : parent = some q
      · simp [habove, hparent, List.erase_append_right _ hchildren]
      · simp [habove, hparent, List.erase_of_not_mem hchildren]

/-! ### Destroying -/

variable {memory : MemoryService μ space} {outside : μ → μ → Prop} {start : μ}
  {calls : List (MemoryCall space)} {handle : space} {hand : Multiset space}
  {α : Type} {stopped : Fault → List (MemoryCall space) → View μ space → Prop}

namespace Accounts

lemma remove (h : Accounts memory outside start hand v calls w) (hp : v.table[pid]? = some p)
    (hnone : p.space = none) : Accounts memory outside start hand (v.remove pid) calls (w.remove pid) := by
  refine h.congr (·.remove pid) rfl fun q => ?_
  rw [spaceOf_remove]
  split
  · rename_i hq
    rw [hq, spaceOf_eq hp, hnone]
  · rfl

/-- What a removed process held is in hand. -/
lemma remove_take (h : Accounts memory outside start hand v calls w) (hp : v.table[pid]? = some p)
    (hspace : p.space = some handle) :
    Accounts memory outside start (handle ::ₘ hand) (v.remove pid) calls (w.remove pid) := by
  have hsame := h.same
  apply h.change (by rw [hsame]; rfl)
  have hnone : (v.remove pid).spaceOf pid = none := by rw [spaceOf_remove, if_pos rfl]
  rw [spaces_eq_cons ((spaceOf_eq hp).trans hspace) hnone
    fun q hq => by rw [spaceOf_remove, if_neg hq], Multiset.cons_add, Multiset.add_cons]

end Accounts

lemma run_drainChildren (hp : w.table[pid]? = some p) :
    (drainChildren pid : Action space (View μ space) _).run w =
      ⟨.ok p.children, (w.update pid ({ · with children := [] })).orphan p.children, []⟩ := by
  rw [drainChildren, run_bind_quiet (run_get w), hp]
  rfl

lemma get?_drained (h : w.Forest) (hp : w.table[pid]? = some p) :
    (((w.disown pid).update pid ({ · with children := [] })).orphan p.children).table[pid]? =
      some { p with children := [] } := by
  have hnot : pid ∉ p.children := by
    rw [← childrenOf_eq hp, h.mirrored]
    exact fun hup => h.acyclic pid (.single hup)
  rw [get?_orphan, get?_update, if_pos rfl, get?_disown_self h hp]
  simp [hnot]

/-- Draining and reclaiming a process is one removal. -/
lemma ensures_release {f : List Pid → Action space (View μ space) α}
    {post : α → List (MemoryCall space) → View μ space → Prop} (hlawful : v.Lawful)
    (h : Accounts memory outside start 0 v calls w) (hp : v.table[pid]? = some p)
    (hnext : ∀ c w, Accounts memory outside start 0 (v.remove pid) c w →
      (f p.children).Ensures c w post stopped) :
    (do
      let children ← drainChildren pid
      reclaim memory pid
      f children).Ensures calls (w.disown pid) post stopped := by
  have hforest := (h.lawful hlawful).forest
  have hwp : w.table[pid]? = some p := by rw [h.table_eq, hp]
  refine ensures_run_bind (run_drainChildren (get?_disown_self hforest hwp)) ?_
  refine ensures_bind (Q := fun _ c w => Accounts memory outside start 0 (v.remove pid) c w) ?_
    fun _ c w h => hnext c w h
  apply ensures_get_bind
  rw [get?_drained hforest hwp, drop_orphan_disown hforest hwp]
  apply ensures_run_bind (run_set _ _)
  dsimp only
  cases hspace : p.space with
  | none => exact ensures_pure (h.remove hp hspace)
  | some handle => exact ensures_destroySpace (h.remove_take hp hspace)

variable (memory) in
/-- Reclaiming a drained process ends its removal and gives its space back. -/
lemma run_reclaim (h : w.Forest) (hp : w.table[pid]? = some p) :
    (reclaim memory pid).run
      (((w.disown pid).update pid ({ · with children := [] })).orphan p.children) =
      ⟨.ok (), { w.remove pid with memory := p.space.toList.foldl (memory.destroy · · true) w.memory },
        p.space.toList.map fun handle => .call (.destroy handle true)⟩ := by
  rw [reclaim, run_bind_quiet (run_get _), get?_drained h hp, drop_orphan_disown h hp]
  dsimp only
  rw [run_bind_quiet (run_set _ _)]
  cases p.space <;> rfl

/-- To destroy a process without a space, nothing is asked of the memory service. -/
lemma run_destroy_spaceless (h : w.Forest) (hcheck : w.check pid = .ok ())
    (hp : w.table[pid]? = some p) (hspace : p.space = none) :
    (destroy memory pid false).run w = ⟨.ok (), w.remove pid, []⟩ := by
  have hreclaim := run_reclaim memory h hp
  rw [hspace] at hreclaim
  rw [destroy, run_bind_quiet (run_require hcheck), run_bind_quiet (run_get w),
    run_bind_quiet (run_set _ _), destroyAll, run_bind_quiet (run_drainChildren (get?_disown_self h hp)),
    run_bind_quiet hreclaim]
  cases (w.disown pid).linkCount <;> rfl

/-- Roots are removed one by one, and with `cascade` what becomes a root by that. -/
theorem ensures_destroyAll (hlawful : v.Lawful) (h : Accounts memory outside start 0 v calls w)
    (cascade : Bool) (fuel : Nat) {pids : List Pid} (hroots : ∀ pid ∈ pids, v.parentOf pid = none) :
    (destroyAll memory cascade fuel pids).Ensures calls w
      (fun _ c w => ∃ removed, Accounts memory outside start 0 (v.removeAll removed) c w)
      stopped := by
  induction fuel generalizing v calls w pids with
  | zero => exact ensures_pure ⟨[], h⟩
  | succ fuel ih =>
    cases pids with
    | nil => exact ensures_pure ⟨[], h⟩
    | cons pid rest =>
      unfold destroyAll
      cases hp : v.table[pid]? with
      | none =>
        have hdead : w.table[pid]? = none := by rw [h.table_eq, hp]
        have hdrain : (drainChildren pid : Action space (View μ space) _).run w = ⟨.ok [], w, []⟩ := by
          rw [drainChildren, run_bind_quiet (run_get _), hdead]
          rfl
        have hreclaim : (reclaim memory pid).run w = ⟨.ok (), w, []⟩ := by
          rw [reclaim, run_bind_quiet (run_get _), hdead]
          rfl
        refine ensures_run_bind hdrain (ensures_run_bind hreclaim ?_)
        have hrest : ∀ q ∈ if cascade then [].reverse ++ rest else rest, v.parentOf q = none := by
          rw [List.reverse_nil, List.nil_append, ite_self]
          exact fun q hq => hroots q (List.mem_cons_of_mem _ hq)
        exact ih hlawful h hrest
      | some p =>
        have hdisown : w.disown pid = w := by
          have hroot : w.parentOf pid = none := by
            rw [parentOf, h.table_eq]
            exact hroots pid List.mem_cons_self
          rw [disown, hroot]
        rw [← hdisown]
        refine ensures_release hlawful h hp fun c w h => ?_
        refine (ih (hlawful.remove pid) h ?_).mono ?_ fun _ _ _ h => h
        · have hroot : ∀ q ∈ p.children.reverse ++ rest, (v.remove pid).parentOf q = none := by
            intro q hq
            rw [parentOf_remove]
            split
            · rfl
            · rename_i hother
              rcases List.mem_append.mp hq with hchild | hrest
              · rw [List.mem_reverse, ← childrenOf_eq hp, hlawful.forest.mirrored] at hchild
                exact absurd (.inr hchild) hother
              · exact hroots q (List.mem_cons_of_mem _ hrest)
          intro q hq
          apply hroot q
          cases cascade with
          | true => exact hq
          | false => exact List.mem_append_right _ hq
        · rintro _ c w ⟨removed, h⟩
          exact ⟨pid :: removed, h⟩

theorem ensures_destroy (hlawful : v.Lawful) (h : Accounts memory outside start 0 v calls w)
    (pid : Pid) (cascade : Bool) :
    (destroy memory pid cascade).Ensures calls w
      (fun _ c w => ∃ removed, Accounts memory outside start 0 (v.removeAll (pid :: removed)) c w)
      (Unmoved calls w) := by
  cases hcheck : w.check pid with
  | error e => exact ensures_of_run_error (run_bind_error (run_require hcheck)) ⟨rfl, rfl⟩
  | ok =>
    obtain ⟨p, hp⟩ := get?_of_check hcheck
    rw [h.table_eq] at hp
    refine ensures_run_bind (run_require hcheck) (ensures_get_bind (ensures_run_bind (run_set _ _) ?_))
    unfold destroyAll
    refine ensures_release hlawful h hp fun c w h => ?_
    refine ensures_destroyAll (hlawful.remove pid) h cascade _ ?_
    intro q hq
    cases cascade with
    | true =>
      rw [if_pos rfl, List.append_nil, List.mem_reverse, ← childrenOf_eq hp,
        hlawful.forest.mirrored] at hq
      rw [parentOf_remove, if_pos (.inr hq)]
    | false => cases hq

/-! ### Cloning -/

lemma check_of_freePid? {pid : Nat} (hfree : v.freePid? = some pid) (hlimits : w.limits = v.limits)
    (hlive : w.table[pid]? = some p) : w.check pid = .ok () := by
  have hrange : 1 ≤ pid ∧ pid < 1 + (v.limits.pids - 1) :=
    List.mem_range'_1.mp (List.mem_of_find?_eq_some hfree)
  rw [check, hlimits, if_neg, if_pos]
  · rw [get?_iff_mem, hlive]
    rfl
  · rintro (hzero | hlarge)
    · exact absurd hzero (Nat.pos_iff_ne_zero.mp hrange.1)
    · have hlarge : v.limits.pids ≤ (pid : Nat) := hlarge
      omega

/-- A clone is a birth and a space for it. Where there is no space, the birth is undone, and the
memory has at most seen a request that it refused. -/
theorem ensures_clone (hlawful : v.Lawful) (h : Accounts memory outside start 0 v calls w)
    (source : Pid) :
    (clone memory source).Ensures calls w
      (fun pid c w' => ∃ entry held copy, v.freePid? = some pid ∧ v.spaceOf source = some held ∧
        memory.clone w.memory held true = (.ok copy, w'.memory) ∧
        Accounts memory outside start 0
          ((v.born (some source) pid entry).update pid ({ · with space := some copy })) c w')
      fun _ c w' => Accounts memory outside start 0 v c w' ∧ (w'.memory = w.memory ∨
        ∃ held e, v.spaceOf source = some held ∧
          memory.clone w.memory held true = (.error e, w'.memory)) := by
  refine (ensures_find source).bind (fun _ _ _ hstop => ?_) ?_
  · rw [hstop.1, hstop.2]
    exact ⟨h, .inl rfl⟩
  rintro p _ w ⟨rfl, rfl, hp⟩
  rw [h.table_eq] at hp
  cases hspace : p.space with
  | none => exact ensures_fail ⟨h, .inl rfl⟩
  | some held =>
    refine ensures_get_bind ((ensures_create (some source) _).bind (fun _ _ _ hstop => ?_) ?_)
    · rw [hstop.2.1, hstop.2.2]
      exact ⟨h, .inl rfl⟩
    rintro pid c w' ⟨rfl, rfl, hfree, -⟩
    generalize w.currentInstruction source p = entry
    have hlimits : w.limits = v.limits := by rw [h.same]
    have hfreev : v.freePid? = some pid := by
      rw [← hfree, freePid?, freePid?, hlimits, h.table_eq]
    have hnew := get?_of_freePid? hfreev
    have hlive : ∀ q ∈ some source, ∃ p, v.table[q]? = some p := by
      rintro q ⟨⟩
      exact ⟨p, hp⟩
    have hsource : source ≠ pid := by
      rintro rfl
      rw [hnew] at hp
      cases hp
    have hborn : Accounts memory outside start 0 (v.born (some source) pid entry) c
        (w.born (some source) pid entry) :=
      h.congr (·.born (some source) pid entry) rfl (spaceOf_born hnew (some source) entry)
    have hself := get?_born_self v (mt Option.some_inj.mp hsource) entry
    have hheld : (v.born (some source) pid entry).spaceOf source = some held := by
      rw [spaceOf_born hnew, spaceOf_eq hp, hspace]
    apply ensures_bind (ensures_cloneSpace hborn (mem_spaces hheld) true)
    rintro (e | copy) c w' ⟨hclone, h'⟩
    · have hself' : w'.table[pid]? =
          some { (ProcessView.fresh entry : ProcessView space) with parent := some source } := by
        rw [h'.table_eq, hself]
      have hcheck : w'.check pid = .ok () := by
        refine check_of_freePid? hfreev ?_ hself'
        rw [h'.same]
        rfl
      have hforest := (h'.lawful (hlawful.born hfreev hlive entry)).forest
      refine ensures_run_bind (run_destroy_spaceless hforest hcheck hself' rfl)
        (ensures_fail ⟨?_, .inr ⟨held, e, (spaceOf_eq hp).trans hspace, hclone⟩⟩)
      have hundone := h'.remove hself rfl
      rw [remove_born hlawful hfreev] at hundone
      exact hundone
    · refine ensures_run_bind (run_modify _ _) (ensures_pure
        ⟨entry, held, copy, hfreev, (spaceOf_eq hp).trans hspace, hclone, ?_⟩)
      exact h'.give hself rfl rfl

end View

end Uniprocessor
