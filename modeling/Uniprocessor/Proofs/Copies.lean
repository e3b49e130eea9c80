import Uniprocessor.Proofs.Contents
import Uniprocessor.Proofs.Ticks
import Uniprocessor.Proofs.Roots

/-!
# Copies of address spaces

A clone, and a child that memory arrives for, owns a space of its own with the bytes that its source
has at that moment. No two processes ever share a space, and a process keeps the space that it has,
so that from then on the bytes of each go their own way.
-/

namespace Uniprocessor

open Uniprocessor.Action Relation HostMemory

/-- Whether a command may map the stacks of a process. -/
def Command.mapsStacks : Command → Bool
  | .materialize _ => true
  | command => command.isTurn

namespace View

variable {outside : HostMemory → HostMemory → Prop} {start m m' : HostMemory}
  {u v w : View HostMemory HostSpace} {calls c : List (MemoryCall HostSpace)} {pid : Pid}
  {p : ProcessView HostSpace} {handle handle' : HostSpace}

/-! ### Who keeps what -/

/-- From `v` to `w` nothing is written, and every process keeps its space. -/
structure Holds (v w : View HostMemory HostSpace) : Prop where
  memory : Follows [] v.memory w.memory
  space (q : Nat) (g : HostSpace) : v.spaceOf q = some g → w.spaceOf q = some g

/-- From `v` to `w` nothing is written, and every process keeps its space or is gone. -/
structure Retains (v w : View HostMemory HostSpace) : Prop where
  memory : Follows [] v.memory w.memory
  space (q : Nat) (g : HostSpace) : v.spaceOf q = some g → w.spaceOf q = some g ∨ w.table[q]? = none

lemma Holds.refl (v : View HostMemory HostSpace) : Holds v v := ⟨.refl v.memory, fun _ _ h => h⟩

lemma Holds.trans (h : Holds u v) (h' : Holds v w) : Holds u w :=
  ⟨h.memory.trans_quiet h'.memory, fun q g hg => h'.space q g (h.space q g hg)⟩

lemma Source.follows {result : Except Refusal HostSpace}
    (h : Source service v calls p result c m) : Follows [] v.memory m := by
  cases h with
  | own | barren => exact .refl _
  | inherited _ _ _ hclone => exact .issue (issue_clone hclone)
  | created _ _ hcreate => exact .issue (issue_create hcreate)

/-- Stacks are mapped in the space at hand, and nothing else shows it. -/
lemma Stacks.local {o : Option (UInt64 × UInt64)} (h : Stacks service m calls handle o c handle' m') :
    handle' = handle ∧ Follows [] m m' ∧ ∀ id, id ≠ handle.id → m'.observe id = m.observe id := by
  cases h with
  | refused hmap =>
    exact ⟨(mapping_mapPages hmap).1, .mapPages hmap, fun id hid => observe_mapPages_ne hmap hid⟩
  | mapped hfirst hsecond =>
    obtain ⟨rfl, -⟩ := mapping_mapPages hfirst
    refine ⟨(mapping_mapPages hsecond).1, (Follows.mapPages hfirst).trans (.mapPages hsecond),
      fun id hid => ?_⟩
    rw [observe_mapPages_ne hsecond hid, observe_mapPages_ne hfirst hid]
  | @undone base _ _ _ _ m₂ _ _ hfirst hsecond hunmap =>
    obtain ⟨rfl, -⟩ := mapping_mapPages hfirst
    obtain ⟨rfl, -⟩ := mapping_mapPages hsecond
    cases hunmap
    have hmapped := (Follows.mapPages hfirst).trans (.mapPages hsecond)
    refine ⟨rfl, hmapped.trans (.unmapPages m₂ _ base), fun id hid => ?_⟩
    rw [observe_unmapPages, Function.update_of_ne hid, observe_mapPages_ne hsecond hid,
      observe_mapPages_ne hfirst hid]

/-- An attempt to give memory to a process takes no space away. -/
lemma Attempt.holds {result : Except Refusal Unit} (h : Attempt service v calls pid result c w) :
    Holds v w := by
  have hupdate : ∀ {p own : _} {m : HostMemory} {f : ProcessView HostSpace → ProcessView HostSpace},
      v.table[pid]? = some p → (∀ g, p.space = some g → g = own) → (f p).space = some own →
      Follows [] v.memory m → Holds v ({ v with memory := m }.update pid f) := by
    intro p own m f hp hown hf hfollows
    refine ⟨hfollows, fun q g hg => ?_⟩
    by_cases hq : q = pid
    · subst hq
      rw [spaceOf_eq hp] at hg
      rw [hown g hg, ← hf]
      exact spaceOf_update_self (v := { v with memory := m }) hp f
    · exact (spaceOf_update_ne { v with memory := m } hq f).trans hg
  cases h with
  | unknown | late => exact .refl v
  | spaceless _ _ hsource => exact ⟨hsource.follows, fun _ _ hg => hg⟩
  | kept hp _ hspace hstacks =>
    obtain ⟨rfl, hfollows, -⟩ := hstacks.local
    exact hupdate hp (fun g hg => Option.some_inj.mp (hg.symm.trans hspace)) rfl hfollows
  | dropped hp _ hspace hsource hstacks =>
    obtain ⟨rfl, hfollows, -⟩ := hstacks.local
    exact ⟨(hsource.follows.trans hfollows).trans (.destroy _ _), fun _ _ hg => hg⟩
  | @equipped p handle _ _ _ _ _ _ _ hp _ hsource hstacks =>
    obtain ⟨rfl, hfollows, -⟩ := hstacks.local
    refine hupdate hp (fun g hg => ?_) rfl (hsource.follows.trans hfollows)
    cases hsource with
    | own hspace => exact Option.some_inj.mp (hg.symm.trans hspace)
    | inherited hnone | created hnone =>
      rw [hnone] at hg
      cases hg

lemma Attempts.holds {pids : List Pid} {made : Nat} (h : Attempts service v calls pids made c w) :
    Holds v w := by
  induction h with
  | nil => exact .refl _
  | given hattempt _ ih | declined hattempt _ ih => exact hattempt.holds.trans ih

lemma Decision.holds {made : Nat} {decision : TickResult × Option ResumePoint}
    (h : Decision service v calls made decision c w) : Holds v w := by
  cases h with
  | idle => exact .refl _
  | continued _ _ hattempts => exact hattempts.holds
  | switched _ _ _ hattempts hp =>
    refine hattempts.holds.trans ⟨?_, fun q g hg => (spaceOf_enter hp .running q).trans hg⟩
    rw [enter_memory]
    exact .refl _

lemma Decisions.holds {outcomes : List TickResult} (h : Decisions service v calls outcomes c w) :
    Holds v w := by
  induction h with
  | nil => exact .refl _
  | cons hdecision _ ih => exact hdecision.holds.trans ih

lemma Round.holds {command : Command} {reply : Reply} (h : Round service v calls command reply c w) :
    Holds v w := by
  cases h with
  | tick hdecision | schedule hdecision => exact hdecision.holds
  | ticks _ hdecisions => exact hdecisions.holds
  | materializeCreated hattempts => exact hattempts.holds

lemma spaceOf_births (h : ReflTransGen Birth v w) (q : Nat) : w.spaceOf q = v.spaceOf q := by
  induction h with
  | refl => rfl
  | tail _ hbirth ih =>
    cases hbirth with
    | @intro parent new entry hfree => exact (spaceOf_born (get?_of_freePid? hfree) parent entry q).trans ih

lemma spaceOf_removeAll (v : View HostMemory HostSpace) (pids : List Pid) (q : Nat) :
    (v.removeAll pids).spaceOf q = v.spaceOf q ∨ (v.removeAll pids).table[q]? = none := by
  induction pids generalizing v with
  | nil => exact .inl rfl
  | cons pid pids ih =>
    by_cases hq : q = pid
    · have hdead : (v.remove pid).table[q]? = none := by rw [get?_remove, if_pos hq]
      exact .inr (get?_removeAll_of_none hdead pids)
    · have hspace : (v.remove pid).spaceOf q = v.spaceOf q := by rw [spaceOf_remove, if_neg hq]
      rw [← hspace]
      exact ih (v.remove pid)

/-- Where a command maps no stacks, whoever stays keeps its space. -/
lemma Step.spaceOf_eq {command : Command} {result : Except Fault Reply} (h : v.Step command result w)
    (hmaps : command.mapsStacks = false) {q : Nat} (hheld : (v.spaceOf q).isSome = true) :
    w.spaceOf q = v.spaceOf q ∨ w.table[q]? = none := by
  cases h with
  | stopped | ignored | notExited | written | interrupts => exact .inl rfl
  | created entry hfree => exact .inl (spaceOf_born (get?_of_freePid? hfree) _ entry q)
  | createdMany nested count parent result hbirths => exact .inl (spaceOf_births hbirths q)
  | @cloned source pid entry copy hfree =>
    have hnew := get?_of_freePid? hfree
    have hq : q ≠ pid := by
      rintro rfl
      rw [spaceOf_of_not_live hnew] at hheld
      cases hheld
    exact .inl ((spaceOf_update_ne _ hq _).trans (spaceOf_born hnew (some source) entry q))
  | destroyed pid cascade removed => exact spaceOf_removeAll v (pid :: removed) q
  | linked => exact .inl (spaceOf_adopt v _ _ q)
  | changed hp => exact .inl (spaceOf_enter hp _ q)
  | exited status hp =>
    exact .inl ((spaceOf_update _ _ q (by intro _; rfl)).trans (spaceOf_enter hp .terminated q))
  | flagged on =>
    refine .inl ?_
    rw [View.flagged]
    split
    · rfl
    · exact spaceOf_update v _ q fun _ => rfl
  | signalled signo => exact .inl (spaceOf_update v _ q fun _ => rfl)
  | materialized | notMaterialized => cases hmaps
  | turned result hturned =>
    cases command with
    | tick | ticks | schedule | materializeCreated => cases hmaps
    | _ => cases hturned

/-- A command that maps stacks takes no space away. -/
lemma ensures_holds (hlawful : v.Lawful) (hrange : v.InRange) {command : Command}
    (hmaps : command.mapsStacks = true) :
    (perform service command).Ensures calls v (fun _ _ => Holds v) fun _ _ => Holds v := by
  have hround (hturn : command.isTurn = true) :
      (perform service command).Ensures calls v (fun _ _ => Holds v) fun _ _ => Holds v :=
    (ensures_round hlawful hrange hturn).mono (fun _ _ _ => Round.holds) fun _ _ _ h => h
  cases command with
  | materialize pid =>
    refine (ensures_materialize_attempt hlawful pid).bind ?_ ?_
    · rintro _ _ _ ⟨e, -, hattempt⟩
      exact hattempt.holds
    · exact fun _ _ _ hattempt => ensures_pure hattempt.holds
  | tick | ticks | schedule | materializeCreated => exact hround rfl
  | _ => cases hmaps

/-- Nor does any other command write into a space. -/
lemma ensures_follows (hlawful : v.Lawful) (h : Traffic service outside start calls v.memory v.spaces)
    {command : Command} (hmaps : command.mapsStacks = false) :
    (perform service command).Ensures calls v (fun _ _ w => Follows [] v.memory w.memory)
      fun _ _ w => Follows [] v.memory w.memory := by
  by_cases hquiet : command.callsMemory = false
  · have hsame {w : View HostMemory HostSpace} (hmemory : w.memory = v.memory) :
        Follows [] v.memory w.memory := hmemory ▸ .refl v.memory
    exact (ensures_memory_eq h hquiet).mono (fun _ _ _ => hsame) fun _ _ _ => hsame
  cases command with
  | clone source =>
    refine (ensures_clone hlawful (.self h) source).bind ?_ ?_
    · rintro _ _ w ⟨-, hmemory | ⟨held, e, -, hclone⟩⟩
      · exact hmemory ▸ .refl v.memory
      · exact .issue (issue_clone hclone)
    · rintro _ _ w ⟨_, held, copy, -, -, hclone, -⟩
      exact ensures_pure (.issue (issue_clone hclone))
  | destroy pid cascade =>
    refine ensures_bind (ensures_destroy_of (I := fun _ w => Follows [] v.memory w.memory) ?_ ?_
      (.refl v.memory) pid cascade) fun _ _ _ h => ensures_pure h
    · intro _ _ w hfollows hmemory _
      exact hmemory ▸ hfollows
    · intro _ w _ handle hfollows _
      exact hfollows.trans (.destroy w.memory handle)
  | materialize | tick | ticks | schedule | materializeCreated => cases hmaps
  | _ => exact absurd rfl hquiet

/-- A command writes nothing, and whoever survives it keeps its space. -/
theorem retains_perform (hlawful : v.Lawful) (hrange : v.InRange)
    (h : Traffic service outside start calls v.memory v.spaces) (command : Command) :
    Retains v ((perform service command).run v).state := by
  cases hmaps : command.mapsStacks with
  | true =>
    have hensures : (perform service command).Ensures calls v (fun _ _ => Holds v) fun _ _ => Holds v :=
      ensures_holds hlawful hrange hmaps
    have hholds := hensures.always
    exact ⟨hholds.memory, fun q g hg => .inl (hholds.space q g hg)⟩
  | false =>
    refine ⟨(ensures_follows hlawful h hmaps).always, fun q g hg => ?_⟩
    have hkept {result : Except Fault Reply} {v' w : View HostMemory HostSpace}
        (hstep : v.Step command result v') (htable : w.table = v'.table) :
        w.spaceOf q = v.spaceOf q ∨ w.table[q]? = none := by
      have hspace := hstep.spaceOf_eq hmaps (q := q) (by rw [hg]; rfl)
      rwa [View.spaceOf, View.spaceOf, htable]
    have hensures : (perform service command).Ensures calls v
        (fun _ _ w => w.spaceOf q = v.spaceOf q ∨ w.table[q]? = none)
        fun _ _ w => w.spaceOf q = v.spaceOf q ∨ w.table[q]? = none := by
      refine (ensures_perform hlawful hrange h command).mono ?_ ?_ <;>
      · rintro _ _ _ ⟨v', hstep, haccounts⟩
        exact hkept hstep haccounts.table_eq
    rw [← hg]
    exact hensures.always

/-! ### New copies -/

/-- From `v` to `w`, `pid` has got a copy of the space of `source`, and the host shows no change in
the space copied. -/
structure Copied (v : View HostMemory HostSpace) (source pid : Pid) (held copy : HostSpace)
    (w : View HostMemory HostSpace) : Prop where
  before : v.spaceOf source = some held
  after : w.spaceOf source = some held
  owner : w.spaceOf pid = some copy
  id_eq : copy.id = v.memory.lastId + 1
  bytes : w.memory.read copy.id = w.memory.read held.id
  unchanged : w.memory.observe held.id = v.memory.observe held.id

lemma ensures_clone_copied (hlawful : v.Lawful)
    (h : Traffic service outside start calls v.memory v.spaces) (hledger : Ledger v.memory v.spaces)
    (source : Pid) :
    (perform service (.clone source)).Ensures calls v
      (fun reply _ w => ∃ pid held copy, reply = .pid pid ∧ Copied v source pid held copy w)
      fun _ _ _ => True := by
  refine (ensures_clone hlawful (.self h) source).bind (fun _ _ _ _ => trivial) ?_
  rintro pid c w ⟨entry, held, copy, hfree, hheld, hclone, haccounts⟩
  have hnew := get?_of_freePid? hfree
  have hsource : source ≠ pid := by
    rintro rfl
    rw [spaceOf_of_not_live hnew] at hheld
    cases hheld
  have hspaces : w.spaceOf =
      ((v.born (some source) pid entry).update pid ({ · with space := some copy })).spaceOf := by
    funext q
    rw [View.spaceOf, View.spaceOf, haccounts.table_eq]
  have hself := get?_born_self v (mt Option.some_inj.mp hsource) entry
  obtain ⟨hid, -, hunchanged, hshown⟩ := hledger.cloned (mem_spaces hheld) hclone
  have hbytes : w.memory.read copy.id = w.memory.read held.id :=
    read_congr (hshown.trans hunchanged.symm)
  refine ensures_pure ⟨pid, held, copy, rfl, hheld, ?_, ?_, hid, hbytes, hunchanged⟩
  · rw [hspaces, spaceOf_update_ne _ hsource, spaceOf_born hnew, hheld]
  · rw [hspaces]
    exact spaceOf_update_self hself _

/-- Memory arrives for a child without a space. -/
lemma Attempt.copied (h : Attempt service v calls pid (.ok ()) c w) (hp : v.table[pid]? = some p)
    (hnone : p.space = none) {parent : Pid} (hparent : p.parent = some parent)
    (hledger : Ledger v.memory v.spaces) (hafter : Ledger w.memory w.spaces) :
    ∃ held copy, Copied v parent pid held copy w := by
  cases h with
  | @equipped q _ _ m userStack kernelStack _ copy m' hq _ hsource hstacks =>
    cases hp.symm.trans hq
    cases hsource with
    | own hown =>
      rw [hnone] at hown
      cases hown
    | created _ hroot =>
      rw [hparent] at hroot
      cases hroot
    | @inherited parent' held answer _ _ _ hparent' hheld hclone hresult =>
      cases hparent.symm.trans hparent'
      cases answer with
      | error e => cases hresult
      | ok given =>
        cases hresult
        obtain ⟨rfl, hfollows, hothers⟩ := hstacks.local
        obtain ⟨hid, hne, hsource, hshown⟩ := hledger.cloned (mem_spaces hheld) hclone
        have hapart : parent ≠ pid := by
          rintro rfl
          rw [spaceOf_eq hp, hnone] at hheld
          cases hheld
        have howner := spaceOf_update_self (v := { v with memory := m' }) hp
          (·.equipped copy (service.root m' copy) userStack kernelStack)
        have hunchanged : m'.observe held.id = v.memory.observe held.id := by
          rw [hothers _ hne, hsource]
        refine ⟨held, copy, hheld, ?_, howner, hid, ?_, hunchanged⟩
        · exact (spaceOf_update_ne { v with memory := m' } hapart _).trans hheld
        · have hlive : m'.isLive copy.id = true := by
            rw [isLive_eq]
            exact hafter.live copy (mem_spaces howner)
          have hcopied : m.read copy.id = v.memory.read held.id := read_congr hshown
          funext address
          refine (hfollows.read_eq (issue_clone hclone).registered.1.1 hlive address).trans ?_
          rw [hcopied, ← read_congr hunchanged]
          rfl

end View

/-! ### Attempts in a series -/

namespace Supervisor

variable {μ space : Type} {memory : MemoryService μ space} {s : Supervisor μ space} {v : View μ space}

variable (memory) in
lemma Shows.materialize_next (h : s.Shows v) (hlawful : v.Lawful) (pid : Pid) :
    (∃ w, ((materialize memory pid).run s).state.Shows w ∧ w.Lawful) ∧
    ∀ reason, ((materialize memory pid).run s).result ≠ .error (.halt reason) := by
  have hagree := refines_materialize memory pid s v h
  have hensures : (View.materialize memory pid).Ensures [] v
      (fun _ c w => View.Attempt memory v [] pid (.ok ()) c w)
      fun fault c w => ∃ e, fault = .error e ∧ View.Attempt memory v [] pid (.error e) c w :=
    View.ensures_materialize_attempt hlawful pid
  rw [hagree.result_eq]
  cases hresult : ((View.materialize memory pid).run v).result with
  | ok =>
    exact ⟨⟨_, hagree.state, hlawful.attempt (hensures.ok hresult)⟩, nofun⟩
  | error fault =>
    obtain ⟨e, rfl, hattempt⟩ := hensures.stop hresult
    exact ⟨⟨_, hagree.state, hlawful.attempt hattempt⟩, nofun⟩

/-- A pass over several processes is one attempt after the other. -/
theorem Shows.state_materializeEach (h : s.Shows v) (hlawful : v.Lawful) (pids : List Pid) :
    ((materializeEach memory pids).run s).state =
      pids.foldl (fun t pid => ((materialize memory pid).run t).state) s := by
  induction pids generalizing s v with
  | nil => rfl
  | cons pid rest ih =>
    obtain ⟨⟨w, hnext, hlawful'⟩, hgoes⟩ := h.materialize_next memory hlawful pid
    rw [List.foldl_cons, ← ih hnext hlawful', materializeEach, run_bind]
    rcases hrun : (materialize memory pid).run s with ⟨(e | reason) | _, t, es⟩
    · rw [run_attempt_error hrun]
      rfl
    · rw [hrun] at hgoes
      exact absurd rfl (hgoes reason)
    · rw [run_attempt_ok hrun]
      simp only [run_bind]
      rcases (materializeEach memory rest).run t with ⟨_ | _, _, _⟩ <;> rfl

end Supervisor

namespace Session

section Passes

variable {μ space : Type} {memory : MemoryService μ space} {outside : μ → μ → Prop} {limits : Limits}
  {start : μ} {events : List (Event space)} {s : Session μ space}

variable (memory) in
/-- The session after an attempt to give memory to each process of a list, by a command each. -/
def materializeAll (s : Session μ space) (pids : List Pid) : Session μ space :=
  pids.foldl (fun t pid => ((perform memory (.materialize pid)).run t).state) s

lemma supervisor_materializeAll (s : Session μ space) (pids : List Pid) :
    (s.materializeAll memory pids).supervisor =
      pids.foldl (fun t pid => ((Supervisor.materialize memory pid).run t).state) s.supervisor := by
  have hstate : ∀ (t : Session μ space) (pid : Pid),
      ((perform memory (.materialize pid)).run t).state.supervisor =
        ((Supervisor.materialize memory pid).run t.supervisor).state := by
    intro t pid
    have houtcome : ((onSupervisor (Supervisor.materialize memory pid)).run t).state.supervisor =
        ((Supervisor.materialize memory pid).run t.supervisor).state := rfl
    rw [perform, run_bind, ← houtcome]
    rcases (onSupervisor (Supervisor.materialize memory pid)).run t with ⟨_ | _, _, _⟩ <;> rfl
  induction pids generalizing s with
  | nil => rfl
  | cons pid pids ih => exact (ih _).trans (by rw [hstate]; rfl)

lemma Run.materializeAll (h : Run memory outside limits start events s) (pids : List Pid) :
    ∃ events, Run memory outside limits start events (s.materializeAll memory pids) := by
  induction pids generalizing s events with
  | nil => exact ⟨events, h⟩
  | cons pid pids ih => exact ih (h.perform (.materialize pid))

lemma Run.state_materializeCreated (h : Run memory outside limits start events s) :
    ((Supervisor.materializeCreated memory).run s.supervisor).state =
      (s.materializeAll memory s.supervisor.createdPids).supervisor := by
  obtain ⟨v, hshows, hlawful, -⟩ := h.shows
  rw [supervisor_materializeAll]
  exact Supervisor.Shows.state_materializeEach hshows hlawful _

end Passes

/-! ### Spaces that go their own way -/

/-- What follows from a session by commands, writes into spaces, failures that are ordered and changes
of the heap, with the writes in order. `holds` is true of the session that it begins with and of all that follow. -/
inductive Onward (holds : Session HostMemory HostSpace → Prop) (s : Session HostMemory HostSpace) :
    List Write → Session HostMemory HostSpace → Prop
  | start : holds s → Onward holds s [] s
  | perform {writes t} (command : Command) : Onward holds s writes t →
      holds ((perform service command).run t).state →
      Onward holds s writes ((perform service command).run t).state
  | write {writes t} (w : Write) : Onward holds s writes t →
      holds (t.withMemory (t.supervisor.memory.write w.id w.address w.value)) →
      Onward holds s (writes ++ [w]) (t.withMemory (t.supervisor.memory.write w.id w.address w.value))
  | order {writes t m} : Onward holds s writes t → Ordered t.supervisor.memory m →
      holds (t.withMemory m) → Onward holds s writes (t.withMemory m)
  | heap {writes t} (storage : Storage) : Onward holds s writes t → holds (t.withStorage storage) →
      Onward holds s writes (t.withStorage storage)

/-- The spaces of a session have nothing to do with each other, now and in all that follows. -/
structure Isolated (s : Session HostMemory HostSpace) : Prop where
  live {pid : Nat} {g : HostSpace} : s.supervisor.spaceOf pid = some g →
    s.supervisor.memory.isLive g.id = true
  /-- No two processes hold one space. -/
  apart {p q : Nat} {g h : HostSpace} : s.supervisor.spaceOf p = some g →
    s.supervisor.spaceOf q = some h → p ≠ q → g.id ≠ h.id
  /-- In a space that stays, what is read is what was written to this very space. -/
  read {writes : List Write} {t : Session HostMemory HostSpace} {id : Nat} (address : UInt64) :
    Onward (fun _ => True) s writes t → s.supervisor.memory.isLive id = true →
    t.supervisor.memory.isLive id = true →
    t.supervisor.memory.read id address =
      (lastWrite writes id address).or (s.supervisor.memory.read id address)
  /-- A process that stays keeps its space, before memory arrives for it and after. -/
  keeps {writes : List Write} {t : Session HostMemory HostSpace} {pid : Nat} {g : HostSpace} :
    Onward (fun u => (u.supervisor.viewOf pid).isSome = true) s writes t →
    s.supervisor.spaceOf pid = some g → t.supervisor.spaceOf pid = some g

/-- From `s` to `t`, `pid` has got a copy of the space of `source`. -/
structure Copies (s : Session HostMemory HostSpace) (source pid : Pid) (held copy : HostSpace)
    (t : Session HostMemory HostSpace) : Prop where
  before : s.supervisor.spaceOf source = some held
  after : t.supervisor.spaceOf source = some held
  owner : t.supervisor.spaceOf pid = some copy
  /-- The number of the copy is that of no space before, live or given up. -/
  fresh : s.supervisor.memory.isLive copy.id = false ∧ copy.id ∉ s.supervisor.memory.freed
  bytes : t.supervisor.memory.read copy.id = t.supervisor.memory.read held.id
  /-- The host shows no change in the bytes and the pages of the source. -/
  unchanged : t.supervisor.memory.observe held.id = s.supervisor.memory.observe held.id
  isolated : t.Isolated

variable {limits : Limits} {events : List (Event HostSpace)} {s t : Session HostMemory HostSpace}
  {holds : Session HostMemory HostSpace → Prop} {writes : List Write} {pid : Nat}

lemma Run.ledger (h : Run service Adjusted limits .empty events s) :
    Ledger s.supervisor.memory s.supervisor.spaces := by
  obtain ⟨v, hshows, -, htraffic⟩ := h.shows
  rw [hshows.spaces_eq, ← Supervisor.Shows.memory hshows]
  exact .of_traffic htraffic

/-- A command writes nothing, and whoever survives it keeps its space. -/
lemma Run.retains (h : Run service Adjusted limits .empty events s) (command : Command) (pid : Pid) :
    Follows [] s.supervisor.memory ((Session.perform service command).run s).state.supervisor.memory ∧
    ∀ g, s.supervisor.spaceOf pid = some g →
      ((Session.perform service command).run s).state.supervisor.spaceOf pid = some g ∨
      ((Session.perform service command).run s).state.supervisor.viewOf pid = none := by
  obtain ⟨v, hshows, hlawful, htraffic⟩ := h.shows
  have hafter := (refines_perform service command s v hshows).state
  have hretains := View.retains_perform hlawful (Supervisor.Shows.inRange hshows) htraffic command
  rw [Supervisor.Shows.spaceOf_eq hshows, Supervisor.Shows.spaceOf_eq hafter,
    Supervisor.Shows.viewOf_eq hafter, ← Supervisor.Shows.memory hshows,
    ← Supervisor.Shows.memory hafter]
  exact ⟨hretains.memory, hretains.space pid⟩

lemma Run.onward (h : Run service Adjusted limits .empty events s) (honward : Onward holds s writes t) :
    ∃ events, Run service Adjusted limits .empty events t := by
  induction honward with
  | start => exact ⟨events, h⟩
  | perform command _ _ ih =>
    obtain ⟨events, hrun⟩ := ih
    exact ⟨_, hrun.perform command⟩
  | write w _ _ ih =>
    obtain ⟨events, hrun⟩ := ih
    exact ⟨events, hrun.outside (.write w.id w.address w.value)⟩
  | order _ hordered _ ih =>
    obtain ⟨events, hrun⟩ := ih
    exact ⟨events, hrun.outside hordered.adjusted⟩
  | heap storage _ _ ih =>
    obtain ⟨events, hrun⟩ := ih
    exact ⟨events, hrun.heap storage⟩

lemma Run.follows (h : Run service Adjusted limits .empty events s) (honward : Onward holds s writes t) :
    Follows writes s.supervisor.memory t.supervisor.memory := by
  induction honward with
  | start => exact .refl _
  | perform command honward _ ih =>
    obtain ⟨events, hrun⟩ := h.onward honward
    exact ih.trans_quiet (hrun.retains command 0).1
  | write w _ _ ih => exact ih.trans (.write _ w)
  | order _ hordered _ ih => exact ih.trans_quiet (.ordered hordered)
  | heap _ _ _ ih => exact ih

lemma Run.keeps (h : Run service Adjusted limits .empty events s) {g : HostSpace}
    (honward : Onward (fun u => (u.supervisor.viewOf pid).isSome = true) s writes t)
    (hg : s.supervisor.spaceOf pid = some g) : t.supervisor.spaceOf pid = some g := by
  induction honward with
  | start => exact hg
  | perform command honward hlive ih =>
    obtain ⟨events, hrun⟩ := h.onward honward
    rcases (hrun.retains command pid).2 g ih with hkept | hgone
    · exact hkept
    · rw [hgone] at hlive
      cases hlive
  | write _ _ _ ih | order _ _ _ ih => exact ih
  | heap storage honward _ ih =>
    obtain ⟨events, hrun⟩ := h.onward honward
    rw [Supervisor.spaceOf, hrun.viewOf_withStorage storage]
    exact ih

/-- Wherever a run has led, the spaces are isolated. -/
theorem Run.isolated (h : Run service Adjusted limits .empty events s) : s.Isolated := by
  obtain ⟨v, hshows, -⟩ := h.shows
  have hledger := h.ledger
  have hspaces := Supervisor.Shows.spaceOf_eq hshows
  rw [hshows.spaces_eq] at hledger
  refine ⟨fun {pid g} hg => ?_, fun {p q g g'} hg hg' hne => ?_, ?_, fun honward => h.keeps honward⟩
  · rw [hspaces] at hg
    rw [isLive_eq]
    exact hledger.live g (View.mem_spaces hg)
  · rw [hspaces] at hg hg'
    have hcons := View.spaces_eq_cons (w := v.drop p) hg (by rw [View.spaceOf_drop, if_pos rfl])
      fun q hq => by rw [View.spaceOf_drop, if_neg hq]
    have hother : (v.drop p).spaceOf q = some g' := by rwa [View.spaceOf_drop, if_neg hne.symm]
    have hmem : g' ∈ (v.drop p).spaces := View.mem_spaces hother
    have hnodup := hledger.nodup
    rw [hcons, Multiset.map_cons, Multiset.nodup_cons] at hnodup
    exact fun hid => hnodup.1 (hid ▸ Multiset.mem_map_of_mem _ hmem)
  · intro writes t id address honward hbefore hafter
    rw [isLive_eq] at hbefore
    exact (h.follows honward).read_eq (hledger.numbered.id_le hbefore) hafter address

/-- A new copy has its owner. -/
lemma Copies.onward {source : Pid} {held copy : HostSpace} (h : Copies s source pid held copy t) :
    Onward (fun u => (u.supervisor.viewOf pid).isSome = true) t [] t := by
  refine .start ?_
  obtain ⟨p, hp, -⟩ := Option.bind_eq_some_iff.mp h.owner
  rw [hp]
  rfl

/-- A copy that the views show. -/
lemma Run.copies (h : Run service Adjusted limits .empty events s) {events' : List (Event HostSpace)}
    (h' : Run service Adjusted limits .empty events' t) {v w : View HostMemory HostSpace}
    (hs : s.Shows v) (ht : t.Shows w) {source : Pid} {held copy : HostSpace}
    (hcopied : View.Copied v source pid held copy w) : Copies s source pid held copy t := by
  replace hs : s.supervisor.Shows v := hs
  replace ht : t.supervisor.Shows w := ht
  obtain ⟨hbefore, hafter, howner, hid, hbytes, hunchanged⟩ := hcopied
  rw [← hs.spaceOf_eq] at hbefore
  rw [← ht.spaceOf_eq] at hafter howner
  rw [hs.memory] at hid hunchanged
  rw [ht.memory] at hbytes hunchanged
  refine ⟨hbefore, hafter, howner, ⟨?_, fun hmem => ?_⟩, hbytes, hunchanged, h'.isolated⟩
  · rw [isLive_eq, h.ledger.numbered copy.id (by omega)]
    rfl
  · have hle := h.ledger.freed_le copy.id hmem
    omega

/-- Isolation of copies: wherever a run has led, the spaces of the processes are isolated from each
other. A clone, and a child without a space that memory arrives for, gets a copy of its source's
space: a space that nobody has or had, with the bytes that the source has, while the source stays as
it was. A pass over the processes that wait for memory is a series of such commands, so that all this
holds in the middle of a pass as well. -/
theorem Run.copies_isolated (h : Run service Adjusted limits .empty events s) :
    s.Isolated ∧
    (∀ source pid : Pid, ((Session.perform service (.clone source)).run s).result = .ok (.pid pid) →
      ∃ held copy, Copies s source pid held copy ((Session.perform service (.clone source)).run s).state) ∧
    (∀ parent pid : Pid, ((Session.perform service (.materialize pid)).run s).result = .ok .done →
      s.supervisor.spaceOf pid = none → s.supervisor.roster.parentOf pid = some parent →
      ∃ held copy, Copies s parent pid held copy ((Session.perform service (.materialize pid)).run s).state) ∧
    ((Supervisor.materializeCreated service).run s.supervisor).state =
      (s.materializeAll service s.supervisor.createdPids).supervisor ∧
    ∀ pids, ∃ events, Run service Adjusted limits .empty events (s.materializeAll service pids) := by
  obtain ⟨v, hshows, hlawful, htraffic⟩ := h.shows
  have hledger := Ledger.of_traffic htraffic
  refine ⟨h.isolated, fun source pid hresult => ?_, fun parent pid hresult hnone hparent => ?_,
    h.state_materializeCreated, h.materializeAll⟩
  · have hagree := refines_perform service (.clone source) s v hshows
    rw [hagree.result_eq] at hresult
    obtain ⟨pid', held, copy, hreply, hcopied⟩ :=
      (View.ensures_clone_copied hlawful htraffic hledger source).ok hresult
    cases hreply
    exact ⟨held, copy, h.copies (h.perform (.clone source)) hshows hagree.state hcopied⟩
  · have hagree := refines_perform service (.materialize pid) s v hshows
    have hnext := h.perform (.materialize pid)
    rw [hagree.result_eq] at hresult
    rw [Supervisor.Shows.spaceOf_eq hshows] at hnone
    rw [Supervisor.Shows.parentOf_eq hshows] at hparent
    obtain ⟨p, hp, hpparent⟩ := Option.bind_eq_some_iff.mp hparent
    rw [View.spaceOf_eq hp] at hnone
    have hafter := hnext.ledger
    rw [Shows.spaces_eq hagree.state, ← Supervisor.Shows.memory hagree.state] at hafter
    have hensures : (View.perform service (.materialize pid)).Ensures [] v
        (fun _ c w => View.Attempt service v [] pid (.ok ()) c w) fun _ _ _ => True :=
      (View.ensures_materialize_attempt hlawful pid).bind (fun _ _ _ _ => trivial)
        fun _ _ _ hattempt => ensures_pure hattempt
    obtain ⟨held, copy, hcopied⟩ := (hensures.ok hresult).copied hp hnone hpparent hledger hafter
    exact ⟨held, copy, h.copies hnext hshows hagree.state hcopied⟩

/-- A clone is materialized and its source destroyed, after a byte that both had has changed in the
source: the clone has its space and its byte. -/
theorem copies_isolated_of_lost_source : ∃ events s held copy t u,
    Run service Adjusted ⟨8, 4, 4, 4, .lenient⟩ .empty events s ∧
    ((Session.perform service (.clone 1)).run s).result = .ok (.pid 2) ∧ Copies s 1 2 held copy t ∧
    Onward (fun u => (u.supervisor.viewOf 2).isSome = true) t [⟨1, 16, 9⟩] u ∧
    u.supervisor.spaceOf 1 = none ∧ u.supervisor.spaceOf 2 = some copy ∧
    t.supervisor.memory.read 2 16 = some 7 ∧ u.supervisor.memory.read 2 16 = some 7 := by
  have hbegun : Run service Adjusted ⟨8, 4, 4, 4, .lenient⟩ .empty [] _ := .start
  have hsource := ((hbegun.perform (.create none 0)).perform (.materialize 1)).outside (.write 1 16 7)
  obtain ⟨held, copy, hcopies⟩ := hsource.copies_isolated.2.1 1 2 (by decide +kernel)
  have honward := ((hcopies.onward.write ⟨1, 16, 9⟩ (by decide +kernel)).perform (.materialize 2)
    (by decide +kernel)).perform (.destroy 1 false) (by decide +kernel)
  exact ⟨_, _, held, copy, _, _, hsource, by decide +kernel, hcopies, honward, by decide +kernel,
    hcopies.isolated.keeps honward hcopies.owner, by decide +kernel, by decide +kernel⟩

end Session

end Uniprocessor
