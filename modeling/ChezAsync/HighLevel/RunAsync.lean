import Mathlib.Tactic.Common
import ChezAsync.Lib.WaitGraph
import ChezAsync.HighLevel.Quiescence

/-!
# When `run-async` returns

`run-async` looks at the root's future once `scheduler-loop` has exited.  A fiber that is stuck, in
a circle of waiting fibers or with its wake overwritten, keeps the loop from nothing: it is in
neither structure that the loop tests.  The root's future tells of it only when the root waits for
it.
-/

namespace ChezAsync.Async

open Relation

variable {D : Type}

/-! ## 1. Stuck fibers -/

/-- A fiber that nothing will wake: its wake was overwritten, or it waits for itself. -/
def Stuck (s : State D) (f : FutureId) : Prop :=
  f ∈ s.overwritten ∨ TransGen (WaitsFor s) f f

/-- The next step parks no fiber on a future that waits for it already, and registers none on a
handle that another one awaits. -/
def Sound (s : State D) : Action → Prop
  | .tick =>
      match s.pc with
      | .running fib (.await (.future f) _) _ =>
          (s.futures f).state = none → ¬ ReflTransGen (WaitsFor s) f fib
      | .running _ (.await (.int h) _) _ =>
          s.completed.lookup h = none → s.waiters.lookup h = none
      | _ => True
  | .post _ => True

/-- What the comment on `run-async` says of its end: with a fiber that has not settled it is the
deadlock error. -/
def ReturnsSettled (s : State D) : Prop :=
  (∃ f ∈ s.created, (s.futures f).state = none) → runAsync s = some .deadlock

section
variable {res : Handle → Int} {s u : State D} {fib : FutureId} {items : List (Item D)}

theorem runAsync_deadlock_iff (hpc : s.pc = .exited) :
    runAsync s = some .deadlock ↔ (s.futures []).state = none := by
  unfold runAsync
  rw [hpc]
  rcases (s.futures []).state with _ | (e | v) <;> simp

theorem stuck_pending (hs : s.Inv res) {f : FutureId} (h : Stuck s f) :
    f ∈ s.created ∧ (s.futures f).state = none := by
  rcases h with h | h
  · apply (hs.pool.mem f).mp
    exact Multiset.mem_add.mpr (Or.inr h)
  · rcases TransGen.head'_iff.mp h with ⟨g, hg, -⟩
    exact waitsFor_waiter hs hg

theorem waiting_pending (hs : s.Inv res) {f g : FutureId} (h : ReflTransGen (WaitsFor s) f g)
    (hg : Stuck s g) : (s.futures f).state = none := by
  rcases ReflTransGen.cases_head h with rfl | ⟨c, hc, -⟩
  · exact (stuck_pending hs hg).2
  · exact (waitsFor_waiter hs hc).2

/-- After the exit a fiber that has not settled waits, through others, for a stuck one. -/
theorem exited_stuck (hs : s.Inv res) (hpc : s.pc = .exited) {f : FutureId} (hf : f ∈ s.created)
    (hpend : (s.futures f).state = none) : ∃ g, ReflTransGen (WaitsFor s) f g ∧ Stuck s g := by
  let S : Set FutureId := {f | f ∈ s.created ∧ (s.futures f).state = none}
  have hS : S.Finite := s.created.finite_toSet.subset fun f hf => hf.1
  have hnext : ∀ f ∈ S, f ∈ s.overwritten ∨ ∃ g ∈ S, WaitsFor s f g := by
    intro f hf
    rcases exited_pending hs hpc hf.1 hf.2 with h | ⟨g, hpend, hwait⟩
    · exact Or.inl h
    · exact Or.inr ⟨g, ⟨hwait.1, hpend⟩, hwait⟩
  exact WaitGraph.reaches_stuck_or_cycle hS hnext ⟨hf, hpend⟩

/-- **The end of `run-async`, by the wait graph.** -/
theorem returnsSettled_iff_stuck (hs : s.Inv res) (hpc : s.pc = .exited) :
    ReturnsSettled s ↔
      (¬ ∃ f, Stuck s f) ∨ ∃ f, Stuck s f ∧ ReflTransGen (WaitsFor s) [] f := by
  constructor
  · intro h
    by_cases hstuck : ∃ f, Stuck s f
    · right
      rcases hstuck with ⟨f, hf⟩
      have hroot := (runAsync_deadlock_iff hpc).mp (h ⟨f, stuck_pending hs hf⟩)
      rcases exited_stuck hs hpc hs.pool.root hroot with ⟨g, hwait, hg⟩
      exact ⟨g, hg, hwait⟩
    · exact Or.inl hstuck
  · intro h hpend
    rcases h with h | ⟨f, hf, hwait⟩
    · -- a pending fiber would be stuck or wait for a stuck one
      rcases hpend with ⟨f, hf, hpend⟩
      rcases exited_stuck hs hpc hf hpend with ⟨g, -, hg⟩
      exact absurd ⟨g, hg⟩ h
    · -- the root waits for a stuck fiber, so it is pending itself
      exact (runAsync_deadlock_iff hpc).mpr (waiting_pending hs hwait hf)

/-! ## 2. The step that makes a fiber stuck -/

/-- Parking a fiber ends no waiting. -/
theorem park_keeps {c : FutureId} {k : Outcome D → Body D} {f g : FutureId}
    (hfg : WaitsFor s f g) :
    WaitsFor { s with
      pc := .batch items
      futures := Function.update s.futures c
        { state := none, waiters := ⟨fib, k⟩ :: (s.futures c).waiters } } f g := by
  rcases hfg with ⟨hmem, w, hw, hfib⟩
  refine ⟨hmem, w, ?_, hfib⟩
  show w ∈ (Function.update s.futures c _ g).waiters
  rw [Function.update_apply]
  split
  case isTrue hgc =>
    subst hgc
    exact List.mem_cons_of_mem _ hw
  case isFalse => exact hw

/-- Parking it on a future that waits for it closes a circle. -/
theorem park_closes {c : FutureId} {k : Outcome D → Body D} (hc : c ∈ s.created)
    (hback : ReflTransGen (WaitsFor s) c fib) :
    TransGen (WaitsFor { s with
      pc := .batch items
      futures := Function.update s.futures c
        { state := none, waiters := ⟨fib, k⟩ :: (s.futures c).waiters } }) fib fib := by
  refine TransGen.head' (b := c) ⟨hc, ⟨fib, k⟩, ?_, rfl⟩ ?_
  · show _ ∈ (Function.update s.futures c _ c).waiters
    rw [Function.update_self]
    exact List.mem_cons_self
  · exact ReflTransGen.mono (fun x y hxy => park_keeps hxy) c fib hback

/-- The running fiber only ends the waiting for itself. -/
theorem run_keeps {body : Body D} (hs : s.Inv res) (h : Run s fib items body u) {f g : FutureId}
    (hfg : WaitsFor s f g) (hg : g ≠ fib) : WaitsFor u f g := by
  rcases hfg with ⟨hmem, w, hw, hfib⟩
  have hother : ∀ (c : FutureId) (F : Future D), g ≠ c →
      w ∈ (Function.update s.futures c F g).waiters := by
    intro c F hc
    rw [Function.update_of_ne hc]
    exact hw
  cases h with
  | ret v => exact ⟨hmem, w, hother fib _ hg, hfib⟩
  | raise e => exact ⟨hmem, w, hother fib _ hg, hfib⟩
  | async thunk k =>
    have hnew : g ≠ s.spawned fib :: fib := fun h => hs.pool.child_notMem fib (h ▸ hmem)
    exact ⟨List.mem_append_left _ hmem, w, hother _ _ hnew, hfib⟩
  | parked k hc ho => exact park_keeps ⟨hmem, w, hw, hfib⟩
  | _ => exact ⟨hmem, w, hw, hfib⟩

/-- It waits for the future that it awaits, and nobody else for anything new. -/
theorem run_adds {body : Body D} (h : Run s fib items body u) {f g : FutureId}
    (hfg : WaitsFor u f g) :
    WaitsFor s f g ∨
      (f = fib ∧ (∃ k, body = .await (.future g) k) ∧ (s.futures g).state = none) := by
  rcases hfg with ⟨hmem, w, hw, hfib⟩
  have hclear : ∀ (c : FutureId) (st : Option (Outcome D)),
      w ∈ (Function.update s.futures c { state := st, waiters := [] } g).waiters →
      g ≠ c ∧ w ∈ (s.futures g).waiters := by
    intro c st hw
    rw [Function.update_apply] at hw
    split at hw
    case isTrue => cases hw
    case isFalse hc => exact ⟨hc, hw⟩
  cases h with
  | ret v => exact Or.inl ⟨hmem, w, (hclear fib _ hw).2, hfib⟩
  | raise e => exact Or.inl ⟨hmem, w, (hclear fib _ hw).2, hfib⟩
  | async thunk k =>
    have hold := hclear _ _ hw
    have hmem' := (List.mem_append.mp hmem).resolve_right fun h => hold.1 (List.mem_singleton.mp h)
    exact Or.inl ⟨hmem', w, hold.2, hfib⟩
  | @parked c k hc ho =>
    change w ∈ (Function.update s.futures c _ g).waiters at hw
    rw [Function.update_apply] at hw
    split at hw
    case isTrue hgc =>
      subst hgc
      rcases List.mem_cons.mp hw with rfl | hw
      · exact Or.inr ⟨hfib.symm, ⟨k, rfl⟩, ho⟩
      · exact Or.inl ⟨hmem, w, hw, hfib⟩
    case isFalse => exact Or.inl ⟨hmem, w, hw, hfib⟩
  | _ => exact Or.inl ⟨hmem, w, hw, hfib⟩

theorem run_overwritten {body : Body D} (h : Run s fib items body u) :
    u.overwritten = s.overwritten ∨
      ∃ g k, body = .await (.int g) k ∧ s.completed.lookup g = none ∧
        u.overwritten = ((s.waiters.lookup g).map Wake.fib).toList ++ s.overwritten := by
  cases h with
  | registered k hr => exact Or.inr ⟨_, k, rfl, hr, rfl⟩
  | _ => exact Or.inl rfl

theorem stuck_congr (hfutures : u.futures = s.futures) (hcreated : u.created = s.created)
    (hover : u.overwritten = s.overwritten) (f : FutureId) : Stuck u f ↔ Stuck s f := by
  have hwaits : WaitsFor u = WaitsFor s := by
    funext f g
    unfold WaitsFor
    rw [hfutures, hcreated]
  unfold Stuck
  rw [hwaits, hover]

/-- A stuck fiber stays stuck. -/
theorem stuck_step (hs : s.Inv res) {a : Action} (hstep : step res s a = some u) {f : FutureId}
    (hf : Stuck s f) : Stuck u f := by
  rcases step_runs hstep with ⟨hfutures, hcreated, hover⟩ | ⟨fib, body, items, -, hpc, hrun⟩
  · exact (stuck_congr hfutures hcreated hover f).mpr hf
  · rcases hf with hf | hf
    · left
      rcases run_overwritten hrun with hover | ⟨g, k, -, -, hover⟩
      · exact hover ▸ hf
      · exact hover ▸ List.mem_append_right _ hf
    · right
      -- the waiting that ends is for the running fiber, and that one waits for nobody
      apply WaitGraph.cycle_keep _ hf
      intro x y z hxy hyz
      exact run_keeps hs hrun hxy (waitsFor_ne_running hs hpc hyz)

/-- A sound step makes no fiber stuck. -/
theorem stuck_sound {a : Action} (hstep : step res s a = some u) (hsound : Sound s a)
    (hfree : ∀ f, ¬ Stuck s f) (f : FutureId) : ¬ Stuck u f := by
  have hover : ∀ f, f ∉ s.overwritten := fun f hf => hfree f (Or.inl hf)
  have hacyclic : ∀ f, ¬ TransGen (WaitsFor s) f f := fun f hf => hfree f (Or.inr hf)
  rcases step_runs hstep with ⟨hfutures, hcreated, hover⟩ | ⟨fib, body, items, rfl, hpc, hrun⟩
  · exact fun hf => hfree f ((stuck_congr hfutures hcreated hover f).mp hf)
  · unfold Sound at hsound
    simp only [hpc] at hsound
    intro hf
    rcases hf with hf | hf
    · rcases run_overwritten hrun with hover' | ⟨g, k, rfl, hg, hover'⟩
      · exact hover f (hover' ▸ hf)
      · have hnone := hsound hg
        rw [hover', hnone] at hf
        exact hover f hf
    · by_cases hnew : ∃ g k, body = .await (.future g) k ∧ (s.futures g).state = none
      · rcases hnew with ⟨g, k, rfl, hg⟩
        -- one edge more, to a future that does not lead back to the fiber
        apply WaitGraph.acyclic_add hacyclic _ (hsound hg) f hf
        intro x y hxy
        rcases run_adds hrun hxy with h | ⟨hx, ⟨k', hk⟩, -⟩
        · exact Or.inl h
        · cases hk
          exact Or.inr ⟨hx, rfl⟩
      · have hold : WaitsFor u ≤ WaitsFor s := by
          intro x y hxy
          rcases run_adds hrun hxy with h | ⟨-, ⟨k, hk⟩, hy⟩
          · exact h
          · exact absurd ⟨y, k, hk, hy⟩ hnew
        exact hacyclic f (TransGen.mono hold f f hf)

/-- A step that is not sound makes one stuck. -/
theorem stuck_unsound {a : Action} (hstep : step res s a = some u)
    (hsound : ¬ Sound s a) : ∃ f, Stuck u f := by
  cases a with
  | post h => exact absurd trivial hsound
  | tick =>
    unfold Sound at hsound
    simp only at hsound
    split at hsound
    case h_1 fib f k items hpc =>
      rw [Classical.not_imp, not_not] at hsound
      rcases hsound with ⟨hf, hback⟩
      cases run_of_tick hpc hstep with
      | settled k hc ho =>
        rw [hf] at ho
        cases ho
      | refused k hx => cases hx
      | parked k hc ho => exact ⟨fib, Or.inr (park_closes hc hback)⟩
    case h_2 fib g k items hpc =>
      rw [Classical.not_imp] at hsound
      rcases hsound with ⟨hr, hw⟩
      cases run_of_tick hpc hstep with
      | completed k hr' =>
        rw [hr] at hr'
        cases hr'
      | refused k hx => cases hx
      | registered k hr' =>
        rcases Option.ne_none_iff_exists'.mp hw with ⟨w, hw⟩
        refine ⟨w.fib, Or.inl ?_⟩
        show w.fib ∈ ((s.waiters.lookup g).map Wake.fib).toList ++ s.overwritten
        rw [hw]
        exact List.mem_cons_self
    case h_3 => exact absurd trivial hsound

/-! ## 3. The end of `run-async` -/

theorem stuck_iff_meets {root : Body D} {as : List Action}
    (hrun : (machine res root).run as = some s) :
    (¬ ∃ f, Stuck s f) ↔ (machine res root).Meets Sound (machine res root).init as := by
  have hinit : ∀ f, ¬ Stuck (machine res root).init f := by
    intro f hf
    rcases hf with hf | hf
    · cases hf
    · rcases TransGen.head'_iff.mp hf with ⟨g, ⟨-, w, hw, -⟩, -⟩
      cases hw
  constructor
  · intro hfree
    refine Machine.meets_of_unmarked (I := State.Inv res)
      (B := fun s => s.Inv res ∧ ∃ f, Stuck s f) ?_ ?_ ?_ (inv_init root) hrun ?_
    · exact fun s a t hs _ hstep => inv_step hs hstep
    · exact fun s a t hs hsound hstep => ⟨inv_step hs hstep, stuck_unsound hstep hsound⟩
    · intro s a t hst hstep
      rcases hst with ⟨hs, f, hf⟩
      exact ⟨inv_step hs hstep, f, stuck_step hs hstep hf⟩
    · exact fun h => hfree h.2
  · intro hmeets
    have hfree : ∀ f, ¬ Stuck s f := by
      refine (hmeets.always (I := fun s => ∀ f, ¬ Stuck s f) ?_ hinit).last hrun
      exact fun s a t hs hsound hstep => stuck_sound hstep hsound hs
    exact fun h => h.elim hfree

/-- Nobody is stuck where nothing was overwritten and no future has waiters. -/
theorem stuck_free (hover : s.overwritten = [])
    (hwaiters : ∀ f ∈ s.created, (s.futures f).waiters = []) : ¬ ∃ f, Stuck s f := by
  intro h
  rcases h with ⟨f, hf | hf⟩
  · rw [hover] at hf
    cases hf
  · rcases TransGen.head'_iff.mp hf with ⟨g, ⟨hg, w, hw, -⟩, -⟩
    rw [hwaiters g hg] at hw
    cases hw

/-- **When `run-async` returns over no stuck fiber.**  At the exit of a run the root's value or
exception means that every fiber has settled, and the deadlock error is raised otherwise, if and
only if no step of the run made a fiber stuck or the root itself waits for a stuck one. -/
theorem returnsSettled_iff {root : Body D} {as : List Action}
    (hrun : (machine res root).run as = some s) (hpc : s.pc = .exited) :
    ReturnsSettled s ↔ (machine res root).Meets Sound (machine res root).init as ∨
      ∃ f, Stuck s f ∧ ReflTransGen (WaitsFor s) [] f := by
  rw [← stuck_iff_meets hrun]
  exact returnsSettled_iff_stuck (inv_reachable ⟨as, hrun⟩) hpc

/-- The root awaits its child. -/
def joined : Body Unit :=
  .async (.ret .void) fun child => .await child fun
    | .ok v => .ret v
    | .error e => .raise e

theorem returnsSettled_joined :
    ∃ s, (machine (fun _ => 0) joined).run (List.replicate 17 .tick) = some s ∧
      ReturnsSettled s := by
  have hrun : (machine (fun _ => 0) joined).run (List.replicate 17 .tick) = some _ := rfl
  refine ⟨_, hrun, (returnsSettled_iff hrun rfl).mpr (Or.inl ?_)⟩
  exact (stuck_iff_meets hrun).mp (stuck_free rfl (by decide))

/-- The root lets a child have its own future, and returns. -/
def selfAwaiting : Body Unit :=
  .async (.get "self" fun self => .await self fun
    | .ok v => .ret v
    | .error e => .raise e) fun child => .set "self" child (.ret .void)

/-- The child awaits itself; `run-async` returns the root's value over it. -/
theorem returns_over_stuck :
    ∃ s, (machine (fun _ => 0) selfAwaiting).run (List.replicate 13 .tick) = some s ∧
      runAsync s = some (.value .void) ∧ ¬ ReturnsSettled s :=
  ⟨_, rfl, rfl, fun h => by cases h ⟨[0], by decide, rfl⟩⟩

end

end ChezAsync.Async
