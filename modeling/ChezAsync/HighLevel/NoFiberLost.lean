import Mathlib.Tactic.Common
import ChezAsync.Lib.WaitGraph
import ChezAsync.HighLevel.Termination

/-!
# No fiber is lost

What the scheduler owes to every fiber that it has suspended.
-/

namespace ChezAsync.Async

variable {D : Type} {res : Handle → Int} {s : State D}

/-- **No fiber is lost.**  Let each handle be awaited once.  In every reachable state an await whose
task has been reaped has gone on, or is queued to go on, once and with the task's result; what is
queued goes on by the scheduler's own steps, before it blocks or exits; it blocks only while an
awaited task has not been reaped; and after the exit a pending fiber is parked on a pending future,
so that all have settled if waiting goes in no circle. -/
theorem no_fiber_lost {root : Body D} (hs : (machine res root).Reachable s)
    (honce : AwaitedOnce s) :
    (∀ f h, (f, h) ∈ s.awaits → h ∈ s.reaped →
      (s.continued ++ s.queued).filter (fun c => c.2.1 = h) = [(f, h, res h)]) ∧
    (s.pc = .waiting ∨ s.pc = .exited → s.queued = []) ∧
    ((∀ t, (machine res root).Reachable t → ¬ Astray t) →
      ∃ n t, (machine res root).runFrom s (List.replicate n .tick) = some t ∧
        ∀ c ∈ s.queued, c ∈ t.continued) ∧
    (s.pc = .waiting → ∃ f h, (f, h) ∈ s.awaits ∧ h ∉ s.reaped) ∧
    (s.pc = .exited →
      (∀ f ∈ s.created, (s.futures f).state = none →
        ∃ g, (s.futures g).state = none ∧ WaitsFor s f g) ∧
      ((∀ f, ¬ Relation.TransGen (WaitsFor s) f f) →
        ∀ f ∈ s.created, (s.futures f).state ≠ none)) := by
  have hinv := inv_reachable hs
  have hparked : s.pc = .exited → ∀ f ∈ s.created, (s.futures f).state = none →
      ∃ g, (s.futures g).state = none ∧ WaitsFor s f g := by
    intro hpc f hf hpend
    rcases exited_pending hinv hpc hf hpend with hmem | hwait
    · rw [once_overwritten hs honce] at hmem
      cases hmem
    · exact hwait
  refine ⟨?_, quiet_queued hinv, queued_goesOn hs, waiting_open hs honce,
    fun hpc => ⟨hparked hpc, ?_⟩⟩
  · intro f h hmem hreaped
    have hmet : (s.continued ++ s.queued).Perm (Rendezvous.due res s.awaits s.reaped) :=
      Multiset.coe_eq_coe.mp (settled_reachable hs honce).met
    -- one handle has one taker, so one meeting
    have hone := hmet.filter fun c => c.2.1 = h
    rw [Rendezvous.due_filter honce hmem hreaped] at hone
    exact List.perm_singleton.mp hone
  · intro hacyclic f hf hpend
    -- in the finite set of the pending fibers each waits for another one
    let S : Set FutureId := {f | f ∈ s.created ∧ (s.futures f).state = none}
    have hS : S.Finite := s.created.finite_toSet.subset fun f hf => hf.1
    have hnext : ∀ f ∈ S, ∃ g ∈ S, WaitsFor s f g := by
      intro f hf
      rcases hparked hpc f hf.1 hf.2 with ⟨g, hpend, hwait⟩
      exact ⟨g, ⟨hwait.1, hpend⟩, hwait⟩
    rcases WaitGraph.exists_cycle hS hnext ⟨hf, hpend⟩ with ⟨g, hg⟩
    exact hacyclic g hg

/-- The root's task completes, and is reaped, before the root awaits it. -/
def lateAwait : Body Unit :=
  .async (.submit fun task => .await task fun
    | .ok v => .ret v
    | .error e => .raise e) fun child => .submit fun task => .await child fun _ => .await task fun
      | .ok v => .ret v
      | .error e => .raise e

def lateAwaitRun : List Action :=
  List.replicate 12 .tick ++ [.post (.task [] 0), .post (.task [0] 0)] ++ List.replicate 16 .tick

theorem no_fiber_lost_lateAwait :
    ∃ s, (machine (fun _ => 7) lateAwait).run lateAwaitRun = some s ∧
      (s.continued ++ s.queued).filter (fun c => c.2.1 = .task [] 0) = [([], .task [] 0, 7)] := by
  have hrun : (machine (fun _ => 7) lateAwait).run lateAwaitRun = some _ := rfl
  exact ⟨_, hrun, (no_fiber_lost ⟨_, hrun⟩ (by decide)).1 [] (.task [] 0) (by decide) (by decide)⟩

/-- The root awaits its task, and awaits it again when the completion has been consumed. -/
def awaitAgain : Body Unit :=
  .submit fun h => .await h fun _ => .await h fun _ => .ret .void

def awaitAgainRun : List Action :=
  List.replicate 6 .tick ++ .post (.task [] 0) :: List.replicate 7 .tick

/-- The second await never goes on, and the loop blocks though every awaited task was reaped. -/
theorem await_again_blocks :
    ∃ s, (machine (fun _ => 0) awaitAgain).run awaitAgainRun = some s ∧
      s.awaits = [([], .task [] 0), ([], .task [] 0)] ∧
      s.continued ++ s.queued = [([], .task [] 0, 0)] ∧
      s.pc = .waiting ∧ ∀ a ∈ s.awaits, a.2 ∈ s.reaped :=
  ⟨_, rfl, rfl, rfl, rfl, by decide⟩

end ChezAsync.Async
