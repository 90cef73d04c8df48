import Mathlib.Tactic.Common
import Mathlib.Logic.Hydra
import ChezAsync.HighLevel.Quiescence

/-!
# Every run ends

A step of one fiber cuts its body down to parts of it, and between two such steps the scheduler's
weight goes down, so that there is no infinite run.  A run that has come to its end has exited when
every awaited handle is that of a submitted task and is awaited once.
-/

namespace ChezAsync.Async

variable {D : Type}

section
variable {res : Handle → Int} {s t u : State D} {fib : FutureId} {items : List (Item D)}

/-! ## 1. Runs are finite -/

theorem step_wf (res : Handle → Int) :
    WellFounded fun u s : State D => s.Inv res ∧ ∃ a, step res s a = some u := by
  let measured : State D → Multiset (Body D) × Nat := fun s => (s.threads.map Prod.snd, s.weight)
  have hwf : WellFounded (Prod.Lex (Relation.CutExpand (Body.Part (D := D))) (· < ·)) :=
    WellFounded.prod_lex Body.part_wf.cutExpand Nat.lt_wfRel.wf
  refine Subrelation.wf ?_ (InvImage.wf measured hwf)
  intro u s h
  rcases h with ⟨hs, a, hstep⟩
  -- a stutter lowers the weight, a step of a fiber the bodies, which come first in the order
  rcases pool_step hs hstep with ⟨heq, hweight⟩ | hpool
  · have hthreads : u.threads = s.threads := congrArg Pool.threads heq
    show Prod.Lex _ _ (u.threads.map Prod.snd, u.weight) (s.threads.map Prod.snd, s.weight)
    rw [hthreads]
    exact Prod.Lex.right _ hweight
  · exact Prod.Lex.left _ _ hpool.cutExpand

/-- **Termination.**  From every reachable state the actions of any kind `A`, taken in any order,
come to an end. -/
theorem exists_stopped (root : Body D) (A : Action → Prop) (hs : s.Inv res) :
    ∃ as t, (∀ a ∈ as, A a) ∧ (machine res root).runFrom s as = some t ∧ t.Inv res ∧
      ∀ a, A a → step res t a = none := by
  refine (machine res root).exists_stopped (fun s a t hs _ hstep => inv_step hs hstep) ?_ hs
  refine Subrelation.wf ?_ (step_wf res)
  intro t s h
  rcases h with ⟨hs, a, -, hstep⟩
  exact ⟨hs, a, hstep⟩

/-! ## 2. Where the scheduler's thread stops -/

/-- The running fiber awaits a future that has not been made; no program can name one. -/
def Astray (s : State D) : Prop :=
  ∃ fib f k items, s.pc = .running fib (.await (.future f) k) items ∧ f ∉ s.created

theorem tick_stopped (h : tick res s = none) :
    s.pc = .exited ∨ (s.pc = .waiting ∧ s.cq = []) ∨ Astray s := by
  unfold tick at h
  split at h
  -- a running fiber goes on, unless the future that it awaits does not exist
  case h_4 fib body items hpc =>
    right
    right
    cases body with
    | await x k =>
      cases x with
      | future f =>
        simp only [State.runFiber, State.awaitFuture] at h
        split at h
        case isTrue =>
          split at h <;> cases h
        case isFalse hf => exact ⟨fib, f, k, items, hpc, hf⟩
      | _ => cases h
    | _ => cases h
  case h_6 hpc =>
    split at h
    case h_1 => cases h
    case h_2 hcq => exact Or.inr (Or.inl ⟨hpc, hcq⟩)
  case h_7 hpc => split at h <;> cases h
  case h_8 hpc => exact Or.inl hpc
  all_goals cases h

/-- The run of the scheduler's thread alone comes to a wait or to the exit. -/
theorem exists_quiet {root : Body D} (hs : (machine res root).Reachable s)
    (hnamed : ∀ t, (machine res root).Reachable t → ¬ Astray t) :
    ∃ n t, (machine res root).runFrom s (List.replicate n .tick) = some t ∧ t.Inv res ∧
      (t.pc = .waiting ∨ t.pc = .exited) := by
  rcases exists_stopped root (fun a => a = .tick) (inv_reachable hs) with
    ⟨as, t, has, hrun, ht, hstop⟩
  have hreplicate : as = List.replicate as.length .tick := List.eq_replicate_of_mem has
  refine ⟨as.length, t, hreplicate ▸ hrun, ht, ?_⟩
  rcases tick_stopped (hstop .tick rfl) with hpc | ⟨hpc, -⟩ | hastray
  · exact Or.inr hpc
  · exact Or.inl hpc
  · exact absurd hastray (hnamed t (hs.runFrom hrun))

/-- An await that has gone on or is queued stays so. -/
theorem met_runFrom {root : Body D} {as : List Action} (hs : s.Inv res)
    (hrun : (machine res root).runFrom s as = some t) {c : FutureId × Handle × Int}
    (hc : c ∈ s.continued ++ s.queued) : c ∈ t.continued ++ t.queued := by
  have key := (machine res root).runFrom_invariant
    (P := fun t => t.Inv res ∧ c ∈ t.meeting.met) ?_ ⟨hs, hc⟩ hrun
  · exact key.2
  · intro t a u ht hstep
    refine ⟨inv_step ht.1 hstep, ?_⟩
    rcases meeting_step ht.1 hstep with heq | hmeet
    · exact heq ▸ ht.2
    · exact hmeet.met ht.2

/-- **Queued awaits go on** by the scheduler's own steps, before it blocks or exits. -/
theorem queued_goesOn {root : Body D} (hs : (machine res root).Reachable s)
    (hnamed : ∀ t, (machine res root).Reachable t → ¬ Astray t) :
    ∃ n t, (machine res root).runFrom s (List.replicate n .tick) = some t ∧
      ∀ c ∈ s.queued, c ∈ t.continued := by
  rcases exists_quiet hs hnamed with ⟨n, t, hrun, ht, hpc⟩
  refine ⟨n, t, hrun, fun c hc => ?_⟩
  have hmet := met_runFrom (inv_reachable hs) hrun (List.mem_append_right s.continued hc)
  rw [quiet_queued ht hpc, List.append_nil] at hmet
  exact hmet

/-- **The end of a run is the exit**, when what is awaited are submitted tasks, each once. -/
theorem halted_exited {root : Body D} (hs : (machine res root).Reachable s)
    (hhalt : (machine res root).Halted s) (honce : AwaitedOnce s)
    (hsubmitted : ∀ x ∈ s.awaits, x.2 ∈ s.tasks) (hnamed : ¬ Astray s) : s.pc = .exited := by
  rcases tick_stopped (hhalt .tick) with hpc | ⟨hpc, hcq⟩ | hastray
  · exact hpc
  · rcases waiting_open hs honce hpc with ⟨f, h, hmem, hreaped⟩
    -- the task that the scheduler waits for is still in flight, so it can be posted
    have htask := hsubmitted (f, h) hmem
    rw [State.tasks, hcq, List.append_nil] at htask
    have hin : h ∈ s.inFlight := (List.mem_append.mp htask).resolve_right hreaped
    have hpost : step res s (.post h) = none := hhalt (.post h)
    unfold step at hpost
    simp only [if_pos hin] at hpost
    cases hpost
  · exact absurd hastray hnamed

end

end ChezAsync.Async
