import Mathlib.Data.List.TakeWhile
import Uniprocessor.Children
import Uniprocessor.Proofs.Families

/-!
# Child lists that share a pool

A family of child lists, none a copy of another, that together hold all links of a pool. Each
list then behaves as a sequence of identifiers of its own: an operation on one list changes its
sequence in the expected way and no other.
-/

namespace Uniprocessor

namespace Children

variable {ι : Type} {pool : Pool ChildEntry} {ls : ι → Children} {seqs : ι → List Pid}

/-- A child list keeps its first link and its length. -/
def layout : Layout ChildEntry Pid Children where
  next := ChildEntry.next
  value := ChildEntry.child
  head := Children.head
  length := Children.length
  empty := empty
  fits l xs := l.length = xs.length
  length_eq h := h
  head_empty := rfl
  fits_empty := rfl
  eq_empty {l} hhead hlength := by
    rw [empty, ← hhead]
    exact congrArg (Children.mk l.head) hlength

@[simp]
lemma layout_value (e : ChildEntry) : layout.value e = e.child := rfl

@[simp]
lemma layout_fits (l : Children) (xs : List (Handle × ChildEntry)) :
    layout.fits l xs ↔ l.length = xs.length := Iff.rfl

/-- The lists `ls` divide the pool among themselves and contain the sequences `seqs`. -/
abbrev Family (pool : Pool ChildEntry) (ls : ι → Children) (seqs : ι → List Pid) : Prop :=
  layout.Family pool ls seqs

lemma Family.exists_items (h : Family pool ls seqs) :
    ∃ items, Pool.Shared ChildEntry.next pool (fun i => (ls i).head) items ∧
      ∀ i, seqs i = (items i).map (·.2.child) ∧ (ls i).length = (items i).length := h

lemma Family.toList_eq (h : Family pool ls seqs) (i : ι) : (ls i).toList pool = seqs i :=
  h.linked_eq i

lemma Family.length_eq (h : Family pool ls seqs) (i : ι) : (ls i).length = (seqs i).length :=
  Layout.Family.length_eq h i

/-- No list is so long that its count could wrap around. -/
lemma Family.length_lt (h : Family pool ls seqs) (i : ι) : (ls i).length < countBound := by
  obtain ⟨items, hshared, hitems⟩ := h.exists_items
  have hlen := (hshared.path i).length_le
  have hslots := hshared.wellFormed.slots_le
  have hcap := hshared.wellFormed.capacity_le
  rw [(hitems i).2]
  unfold Pool.capacityBound at hcap
  unfold countBound
  omega

/-- A child is refused for the reason that a link is refused. -/
lemma push_eq_error_iff {l : Children} {child : Pid} {e : IssueError} :
    l.push pool child = .error e ↔ pool.issue = .error e :=
  Pool.issue_bind_eq_error_iff fun _ => ⟨_, rfl⟩

section

variable [DecidableEq ι]

theorem Family.push (h : Family pool ls seqs) (i : ι) (child : Pid)
    (hshort : Pool.shortage? pool.capacity pool.storage pool.size = none) :
    ∃ l q, (ls i).push pool child = .ok (l, q) ∧ pool.SameSetup q ∧
      Family q (Function.update ls i l) (Function.update seqs i (seqs i ++ [child])) := by
  have hlength := h.length_lt i
  obtain ⟨items, hshared, hitems⟩ := h.exists_items
  obtain ⟨id, r, hissue, hissues⟩ := hshared.wellFormed.issue_eq_ok hshort
  have hcount : countUp (ls i).length = (items i).length + 1 := by
    rw [countUp, if_neg (by omega), (hitems i).2]
  -- the walk to the end goes through the pool in which the new link already lies
  have htrail : (r.modify id fun _ => ⟨child, none⟩).trail ChildEntry.next (ls i).head =
      (items i).map (·.1) := by
    refine ((hshared.path i).frame fun e he => ?_).trail
    have hne : e.1 ≠ id := by
      intro heq
      have hsome := (hshared.path i).get? he
      rw [heq, hissues.vacant] at hsome
      cases hsome
    rw [Pool.get?_modify, if_neg hne, hissues.get?, if_neg hne]
    exact (hshared.path i).get? he
  rcases List.eq_nil_or_concat' (items i) with hnil | ⟨xs, last, hxs⟩
  · refine ⟨⟨some id, countUp (ls i).length⟩, r.modify id fun _ => ⟨child, none⟩, ?_, ?_, ?_⟩
    · simp [Children.push, hissue, htrail, hnil, attach, bind, Except.bind, pure, Except.pure]
    · exact hissues.setup.trans (Pool.sameSetup_modify _ _ _)
    · have hhead : none = (ls i).head := by
        have hpath := hshared.path i
        rw [hnil] at hpath
        exact hpath.symm
      have hinsert := hshared.insertHead hissues i (g := fun _ => ⟨child, none⟩) hhead
      refine Layout.family_update hitems hinsert ?_ ?_
      · simp [(hitems i).1, hnil]
      · simp [hcount]
  · have hcontains : r.contains last.1 = true := by
      have hval := (hshared.path i).get? (e := last) (by simp [hxs])
      rw [Pool.contains, hissues.get?]
      split <;> simp [hval]
    refine ⟨⟨(ls i).head, countUp (ls i).length⟩,
      (r.modify id fun _ => ⟨child, none⟩).modify last.1 ({ · with next := some id }), ?_, ?_, ?_⟩
    · simp [Children.push, hissue, htrail, hxs, attach, hcontains, Option.filter, bind, Except.bind,
        pure, Except.pure]
    · exact (hissues.setup.trans (Pool.sameSetup_modify _ _ _)).trans (Pool.sameSetup_modify _ _ _)
    · have hinsert := hshared.insertBehind hissues (g := fun _ => ⟨child, none⟩)
        (f := ({ · with next := some id })) hxs ((hshared.path i).next_last hxs).symm fun _ => rfl
      rw [← Function.update_eq_self i fun j => (ls j).head] at hinsert
      refine Layout.family_update hitems hinsert ?_ ?_
      · simp [(hitems i).1, hxs]
      · simp [hcount, hxs]

lemma bne_child_of_absent {child : Pid} {bs : List (Handle × ChildEntry)}
    (habsent : child ∉ bs.map (·.2.child)) : ∀ e ∈ bs, (e.2.child != child) = true := by
  intro e he
  rw [bne_iff_ne]
  rintro rfl
  exact habsent (List.mem_map_of_mem he)

/-- A list without a link to `child` stays as it is. -/
lemma remove_of_absent {l : Children} {child : Pid} (habsent : child ∉ (l.entries pool).map (·.2.child)) :
    l.remove pool child = (false, l, pool) := by
  have hall : (l.entries pool).takeWhile (·.2.child != child) = l.entries pool :=
    List.takeWhile_eq_self_iff.mpr (bne_child_of_absent habsent)
  rw [Children.remove, hall, List.drop_length]

/-- Of the links to `child` the first is unlinked. -/
lemma remove_of_first {l : Children} {child : Pid} {bs ys : List (Handle × ChildEntry)}
    {x : Handle × ChildEntry} (hentries : l.entries pool = bs ++ x :: ys)
    (hbefore : child ∉ bs.map (·.2.child)) (hx : x.2.child = child) :
    l.remove pool child =
      let (l, pool) := l.attach pool (bs.getLast?.map (·.1)) x.2.next
      (true, { l with length := countDown l.length }, (pool.release x.1).2) := by
  have hfront : (bs ++ x :: ys).takeWhile (·.2.child != child) = bs := by
    rw [List.takeWhile_append_of_pos (bne_child_of_absent hbefore),
      List.takeWhile_cons_of_neg (by simp [hx]), List.append_nil]
  rw [Children.remove, hentries, hfront, List.drop_left]

theorem Family.remove (h : Family pool ls seqs) (i : ι) (child : Pid) :
    ∃ l q, (ls i).remove pool child = (decide (child ∈ seqs i), l, q) ∧ pool.SameSetup q ∧
      Family q (Function.update ls i l) (Function.update seqs i ((seqs i).erase child)) := by
  have hfamily := h
  obtain ⟨items, hshared, hitems⟩ := h.exists_items
  have hentries : (ls i).entries pool = items i := (hshared.path i).linked
  by_cases hmem : child ∈ seqs i
  · obtain ⟨as, cs, hseq, hnot⟩ := List.eq_append_cons_of_mem hmem
    obtain ⟨bs, ws, hsplit, rfl, hws⟩ := List.map_eq_append_iff.mp ((hitems i).1.symm.trans hseq)
    obtain ⟨x, ys, rfl, hx, rfl⟩ := List.map_eq_cons_iff.mp hws
    have hremove := remove_of_first (hentries.trans hsplit) hnot hx
    have herase : (seqs i).erase child = (bs ++ ys).map (·.2.child) := by
      rw [hseq, List.erase_append_right _ hnot, List.erase_cons_head, List.map_append]
    have hcount : countDown (ls i).length = (bs ++ ys).length := by
      have hlen := (hitems i).2
      rw [hsplit] at hlen
      simp only [List.length_append, List.length_cons] at hlen ⊢
      rw [countDown, if_neg (by omega)]
      omega
    have hlive : pool.contains x.1 = true := (hshared.path i).contains (by simp [hsplit])
    rw [decide_eq_true hmem]
    rcases List.eq_nil_or_concat' bs with rfl | ⟨xs, last, rfl⟩
    · have hrelease := hshared.wellFormed.release_of_contains hlive
      exact ⟨⟨x.2.next, countDown (ls i).length⟩, _, hremove, hrelease.2.setup,
        Layout.family_update hitems (hshared.dropHead hsplit hrelease.2) herase hcount⟩
    · have hlast : pool.contains last.1 = true := (hshared.path i).contains (by simp [hsplit])
      have hlive' : (pool.modify last.1 ({ · with next := x.2.next })).contains x.1 = true := by
        simpa using hlive
      have hrelease := (hshared.wellFormed.modify last.1 _).release_of_contains hlive'
      have hitems' : items i = xs ++ last :: x :: ys := by
        rw [hsplit]
        simp
      refine ⟨⟨(ls i).head, countDown (ls i).length⟩,
        ((pool.modify last.1 ({ · with next := x.2.next })).release x.1).2, ?_, ?_, ?_⟩
      · rw [hremove]
        simp [attach, hlast, Option.filter]
      · exact (Pool.sameSetup_modify _ _ _).trans hrelease.2.setup
      · have hdropped := hshared.dropBehind hitems' (f := ({ · with next := x.2.next })) (fun _ => rfl)
          hrelease.2
        rw [← Function.update_eq_self i fun j => (ls j).head] at hdropped
        refine Layout.family_update hitems hdropped ?_ ?_
        · rw [herase]
          simp
        · rw [hcount]
          simp
  · refine ⟨ls i, pool, ?_, rfl, ?_⟩
    · rw [decide_eq_false hmem]
      exact remove_of_absent (by rwa [hentries, ← (hitems i).1])
    · rw [List.erase_of_not_mem hmem, Function.update_eq_self, Function.update_eq_self]
      exact hfamily

theorem Family.drain (h : Family pool ls seqs) (i : ι) :
    ∃ q, (ls i).drain pool = (seqs i, empty, q) ∧ pool.SameSetup q ∧
      Family q (Function.update ls i empty) (Function.update seqs i []) := by
  obtain ⟨items, hshared, hitems⟩ := h.exists_items
  have hentries : (ls i).entries pool = items i := (hshared.path i).linked
  refine ⟨(items i).foldl (fun pool e => (pool.release e.1).2) pool, ?_, ?_, ?_⟩
  · simp [Children.drain, hentries, (hitems i).1]
  · exact Pool.sameSetup_foldl_release _ _
  · exact Layout.family_update hitems (hshared.dropAll rfl) rfl rfl

end

end Children

end Uniprocessor
