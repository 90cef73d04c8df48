import Mathlib.Tactic.Common
import ChezAsync.HighLevel.ResumeOrder
import ChezAsync.HighLevel.Determinism

/-!
# The ready list is fair (`io-async.ss`)

`scheduler-loop` takes up the fibers in the order in which they were put on the ready list, across
batches and whatever completes in the meantime.  So a fiber that is ready is overtaken by nobody,
the scheduler neither blocks nor exits before it has run, and its own steps bring it to run.
-/

namespace ChezAsync.Async

variable {D : Type}

section
variable {res : Handle → Int} {root : Body D} {s t : State D}

/-- A fiber is to be taken up at most once. -/
theorem upcoming_nodup (hs : s.Inv res) : (s.upcoming.map Item.fib).Nodup := by
  have hle : Multiset.ofList (s.upcoming.map Item.thread) ≤ s.threads := by
    have hrest : Multiset.ofList (s.pc.rest.map Item.thread) ≤ Multiset.ofList s.pc.threads := by
      cases s.pc with
      | running fib body items => exact Multiset.le_cons_self _ _
      | batch items => exact le_refl _
      | _ => exact Multiset.zero_le _
    have hready : Multiset.ofList (s.ready.reverse.map Item.thread) ≤ s.aside := by
      rw [List.map_reverse, Multiset.coe_reverse, State.aside, add_assoc]
      exact Multiset.le_add_right _ _
    rw [State.upcoming, List.map_append, ← Multiset.coe_add]
    exact add_le_add hrest hready
  have hnodup : (s.threads.map Prod.fst).Nodup :=
    Multiset.nodup_of_le (Multiset.le_add_right _ _) hs.pool.nodup
  have hlist := Multiset.nodup_of_le (Multiset.map_le_map hle) hnodup
  rw [Multiset.map_coe, List.map_map, Multiset.coe_nodup] at hlist
  exact hlist

/-- The fibers are taken up in the order in which they were put on the ready list. -/
theorem begun_runFrom {as : List Action} (hs : s.Inv res)
    (hrun : (machine res root).runFrom s as = some t) :
    ∃ new, (machine res root).outputs begun s as ++ t.upcoming = s.upcoming ++ new := by
  have hqueue := @Machine.queue_runFrom _ _ (machine res root) _ begun State.upcoming
    (State.Inv res) (fun _ => True) (fun _ _ _ hs h => inv_step hs h) ?_ s t as hs hrun
  · rcases hqueue with ⟨new, heq, -⟩
    exact ⟨new, heq⟩
  · intro s a t _ hstep
    rcases upcoming_step hstep with ⟨new, heq, -⟩
    exact ⟨new, heq, fun _ _ => trivial⟩

/-- A prefix that does not come to the item stays before it. -/
theorem prefix_before {α : Type} {taken before after rest new : List α} {x : α}
    (h : taken ++ rest = (before ++ x :: after) ++ new) (hx : x ∉ taken) : taken <+: before := by
  have htaken : taken <+: before ++ (x :: after ++ new) := by
    rw [← List.append_assoc, ← h]
    exact List.prefix_append _ _
  rcases List.prefix_or_prefix_of_prefix htaken (List.prefix_append _ _) with hpre | ⟨more, rfl⟩
  · exact hpre
  · rcases more with _ | ⟨y, more⟩
    · rw [List.append_nil]
    · -- the next one would be the item
      rw [List.prefix_append_right_inj, List.cons_append, List.cons_prefix_cons] at htaken
      exact absurd (List.mem_append_right before (htaken.1 ▸ List.mem_cons_self)) hx

theorem upcoming_of_quiet (ht : t.Inv res) (hpc : t.pc = .waiting ∨ t.pc = .exited) :
    t.upcoming = [] := by
  rcases hpc with hpc | hpc
  · rw [State.upcoming, hpc, (ht.waiting hpc).1]
    rfl
  · rw [State.upcoming, hpc, (ht.exited hpc).1]
    rfl

/-- **A ready fiber is overtaken by nobody.**  Let a fiber be ready in a reachable state, with
`before` ready ahead of it.  As long as it has not been taken up, only fibers of `before` have, in
their order and each at most once, however many completions have come; and the scheduler has
neither blocked nor exited.  By its own steps alone the scheduler takes up `before` and then the
fiber. -/
theorem ready_fibers_fair {as : List Action} {item : Item D} {before after : List (Item D)}
    (hs : (machine res root).Reachable s) (hitem : s.upcoming = before ++ item :: after)
    (hrun : (machine res root).runFrom s as = some t) :
    (item ∉ (machine res root).outputs begun s as →
        (machine res root).outputs begun s as <+: before ∧
          (((machine res root).outputs begun s as).map Item.fib).Nodup ∧
          t.pc ≠ .waiting ∧ t.pc ≠ .exited) ∧
      ((∀ v, (machine res root).Reachable v → ¬ Astray v) →
        ∃ n v, (machine res root).runFrom s (List.replicate n .tick) = some v ∧
          before ++ [item] <+: (machine res root).outputs begun s (List.replicate n .tick)) := by
  have hinv := inv_reachable hs
  refine ⟨fun hnot => ?_, fun hnamed => ?_⟩
  · rcases begun_runFrom hinv hrun with ⟨new, heq⟩
    rw [hitem] at heq
    have hpre := prefix_before heq hnot
    have hnodup := upcoming_nodup hinv
    rw [hitem, List.map_append, List.nodup_append'] at hnodup
    -- the fiber is still to come, so the loop is not at rest
    have hmem : item ∈ t.upcoming := by
      have hall : item ∈ (machine res root).outputs begun s as ++ t.upcoming := by
        rw [heq]
        simp
      exact (List.mem_append.mp hall).resolve_left hnot
    have hbusy : ¬ (t.pc = .waiting ∨ t.pc = .exited) := by
      intro hpc
      rw [upcoming_of_quiet (inv_reachable (hs.runFrom hrun)) hpc] at hmem
      exact absurd hmem List.not_mem_nil
    rw [not_or] at hbusy
    exact ⟨hpre, (hpre.map Item.fib).sublist.nodup hnodup.1, hbusy⟩
  · rcases exists_quiet hs hnamed with ⟨n, v, hn, hv, hpc⟩
    refine ⟨n, v, hn, ?_⟩
    rcases begun_runFrom hinv hn with ⟨new, heq⟩
    rw [upcoming_of_quiet hv hpc, List.append_nil, hitem] at heq
    rw [heq, List.append_assoc]
    exact (List.prefix_append_right_inj before).mpr (List.prefix_append [item] _)

end

/-- The second child of the root is ready behind the first one, which parks on its task. -/
theorem ready_fibers_fair_fetchBoth :
    ∃ s t, (machine fetched fetchBoth).run (List.replicate 8 .tick) = some s ∧
      (machine fetched fetchBoth).runFrom s (List.replicate 3 .tick) = some t ∧
      t.pc ≠ .waiting ∧ t.pc ≠ .exited := by
  have hs : (machine fetched fetchBoth).run (List.replicate 8 .tick) = some _ := rfl
  refine ⟨_, _, hs, rfl, ?_⟩
  have hfair := @ready_fibers_fair _ fetched fetchBoth _ _ (List.replicate 3 .tick)
    ⟨[1], .start fetch⟩ [⟨[0], .start fetch⟩] [] ⟨_, hs⟩ rfl rfl
  refine (hfair.1 fun hmem => ?_).2.2
  have hmem : (⟨[1], .start fetch⟩ : Item Unit) ∈ [⟨[0], .start fetch⟩] := hmem
  cases congrArg Item.fib (List.mem_singleton.mp hmem)

end ChezAsync.Async
