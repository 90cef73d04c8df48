import Mathlib.Tactic.Common
import ChezAsync.HighLevel.Termination

/-!
# The order of the completions

Fibers that share no variable and await only tasks of their own: every run that `run-async` returns
from is a complete run of one pool, so all of them have the same outcomes; and `await-all` gives
the values in the order of its list.
-/

namespace ChezAsync.Async

variable {D : Type}

/-! ## 1. Isolated fibers -/

/-- The fiber that has submitted the task. -/
def Handle.owner : Handle → Option FutureId
  | .num _ => none
  | .task f _ => some f

/-- In the run up to `s` no fiber has used a shared variable, and each has awaited only tasks that
it submitted itself. -/
structure Isolated (s : State D) : Prop where
  sharing : s.sharing = []
  own : ∀ x ∈ s.awaits, x.2 ∈ s.tasks ∧ x.2.owner = some x.1

section
variable {res : Handle → Int} {s t u : State D} {fib : FutureId} {items : List (Item D)}

theorem step_awaits (hs : s.Inv res) {a : Action} (hstep : step res s a = some u)
    {x : FutureId × Handle} (hx : x ∈ s.awaits) : x ∈ u.awaits := by
  rcases meeting_step hs hstep with heq | hmeet
  · have hawaits : u.awaits = s.awaits := congrArg Rendezvous.takes heq
    exact hawaits ▸ hx
  · exact hmeet.takes hx

/-- A fiber that waits in the table does not run. -/
theorem taker_ne_running (hs : s.Inv res) {body : Body D} (hpc : s.pc = .running fib body items)
    {h : Handle} {w : Wake D} (hw : s.waiters.lookup h = some w) : w.fib ≠ fib := by
  have hentry : (⟨h, w⟩ : Sigma fun _ : Handle => Wake D) ∈ s.waiters.entries :=
    AList.mem_lookup_iff.mp hw
  have haside : taskThread ⟨h, w⟩ ∈ s.aside := by
    apply Multiset.mem_add.mpr
    exact Or.inl (Multiset.mem_add.mpr (Or.inr (List.mem_map_of_mem hentry)))
  exact hs.pool.ne_of_mem (threads_running hpc) (Multiset.mem_add.mpr (Or.inr haside))

/-- A fiber that awaits its own tasks overwrites no wake: it would have to be parked on the handle
already. -/
theorem own_overwritten {root : Body D} (hs : (machine res root).Reachable s)
    (hown : ∀ x ∈ s.awaits, x.2.owner = some x.1) : s.overwritten = [] := by
  refine Machine.Reachable.invariant
    (P := fun s => (∀ x ∈ s.awaits, x.2.owner = some x.1) → s.overwritten = [])
    (fun _ => rfl) ?_ hs hown
  intro s a u hs hover hstep hown
  have hinv := inv_reachable hs
  have hs' := hover fun x hx => hown x (step_awaits hinv hstep hx)
  rcases step_runs hstep with ⟨-, -, heq⟩ | ⟨fib, body, items, rfl, hpc, hrun⟩
  · exact heq.trans hs'
  · cases hrun with
    | @registered h k hr =>
      have hnone : s.waiters.lookup h = none := by
        rcases hw : s.waiters.lookup h with _ | w
        · rfl
        · have htaker : s.meeting.taker h = some w.fib := congrArg (Option.map Wake.fib) hw
          have hmem : (w.fib, h) ∈ s.awaits := hinv.meeting.taker h _ htaker
          -- the fiber in the table would own the task as well, hence be the running one
          have hold := hown (w.fib, h) (List.mem_append_left _ hmem)
          have hnew := hown (fib, h) (List.mem_append_right _ (List.mem_singleton_self _))
          exact absurd (Option.some.inj (hold.symm.trans hnew)) (taker_ne_running hinv hpc hw)
      show ((s.waiters.lookup h).map Wake.fib).toList ++ s.overwritten = []
      rw [hnone, hs']
      rfl
    | _ => exact hs'

/-! ## 2. Complete runs -/

theorem exited_complete (hs : s.Inv res) (hpc : s.pc = .exited) : s.pool.Complete := by
  intro x hx
  have hx' : x ∈ parked s.futures s.created := exited_threads hs hpc ▸ hx
  rcases mem_parked.mp hx' with ⟨g, hg, w, hw, rfl⟩
  exact ⟨g, w.k, rfl, waitsFor_pending hs ⟨hg, w, hw, rfl⟩⟩

theorem isolated_private {root : Body D} (hs : (machine res root).Reachable s)
    (his : Isolated s) : s.pool.Private :=
  ⟨own_overwritten hs fun x hx => (his.own x hx).2, his.sharing⟩

/-- Two runs from which `run-async` returns have settled the same futures in the same way. -/
theorem outcomes_eq {root : Body D} (hs : (machine res root).Reachable s)
    (ht : (machine res root).Reachable t) (his : Isolated s) (hit : Isolated t)
    (hse : s.pc = .exited) (hte : t.pc = .exited) (f : FutureId) :
    (s.futures f).state = (t.futures f).state := by
  have hps := isolated_private hs his
  have hpt := isolated_private ht hit
  have hcs := exited_complete (inv_reachable hs) hse
  have hct := exited_complete (inv_reachable ht) hte
  rcases hs with ⟨as, has⟩
  rcases ht with ⟨bs, hbs⟩
  have hss := (pool_runFrom (inv_init root) has).2
  have hst := (pool_runFrom (inv_init root) hbs).2
  exact congrFun (Pool.outcome_unique hss hst hcs hct hps hpt) f

theorem runAsync_congr (hse : s.pc = .exited) (hte : t.pc = .exited)
    (hroot : (s.futures []).state = (t.futures []).state) : runAsync s = runAsync t := by
  unfold runAsync
  rw [hse, hte, hroot]

/-! ## 3. `await-all` -/

/-- A fiber that awaits a future goes on with its outcome before the run is over. -/
theorem await_goesOn {root : Body D} {as : List Action} (hs : s.Inv res)
    (hrun : (machine res root).runFrom s as = some t) (hpc : t.pc = .exited)
    (hpriv : t.pool.Private) {f g : FutureId} {k : Outcome D → Body D} {o : Outcome D}
    (hmem : (f, .await (.future g) k) ∈ s.threads) (ho : (t.futures g).state = some o) :
    ∃ bs cs u, as = bs ++ cs ∧ (machine res root).runFrom s bs = some u ∧
      (machine res root).runFrom u cs = some t ∧ (f, k o) ∈ u.threads := by
  induction as generalizing s with
  | nil =>
    cases hrun
    -- at the exit it would still await a future that has settled
    rcases exited_complete hs hpc _ hmem with ⟨g', k', hb, hnone⟩
    cases hb
    cases ho.symm.trans hnone
  | cons a as ih =>
    rcases (machine res root).runFrom_cons.mp hrun with ⟨v, hv, hrest⟩
    have hv' := inv_step hs hv
    have hsteps := (pool_runFrom hv' hrest).2
    have hgo : (f, .await (.future g) k) ∈ v.threads →
        ∃ bs cs u, a :: as = bs ++ cs ∧ (machine res root).runFrom s bs = some u ∧
          (machine res root).runFrom u cs = some t ∧ (f, k o) ∈ u.threads := by
      intro hmem'
      rcases ih hv' hrest hmem' with ⟨bs, cs, u, rfl, hbs, hcs, hu⟩
      exact ⟨a :: bs, cs, u, rfl, (machine res root).runFrom_cons.mpr ⟨v, hv, hbs⟩, hcs, hu⟩
    rcases pool_step hs hv with ⟨heq, -⟩ | hpool
    · have hthreads : v.threads = s.threads := congrArg Pool.threads heq
      exact hgo (hthreads ▸ hmem)
    · rcases hpool.awaiting (Pool.Private.of_steps hsteps hpriv) hmem with hmem' | ⟨o', ho', hmem'⟩
      · exact hgo hmem'
      · -- outcomes do not change, so the one it goes on with is the last one
        have hlast := (PoolStep.outcomes hv'.pool hsteps).2 g o' (hpool.outcome hs.pool ho')
        cases hlast.symm.trans ho
        exact ⟨[a], as, v, rfl, (machine res root).runFrom_cons.mpr ⟨v, hv, rfl⟩, hrest, hmem'⟩

/-- `await-all` goes on with the values in the order of its list, or with the first exception in
that order. -/
theorem awaitAll_goesOn {root : Body D} {as : List Action} (hs : s.Inv res)
    (hrun : (machine res root).runFrom s as = some t) (hpc : t.pc = .exited)
    (hpriv : t.pool.Private) {f : FutureId} {gs : List FutureId}
    {k : Except (Val D) (List (Val D)) → Body D} {o : FutureId → Except (Val D) (Val D)}
    (hmem : (f, awaitAll (gs.map .future) k) ∈ s.threads)
    (ho : ∀ g ∈ gs, (t.futures g).state = some (o g)) :
    ∃ bs cs u, as = bs ++ cs ∧ (machine res root).runFrom s bs = some u ∧
      (machine res root).runFrom u cs = some t ∧ (f, k (gs.mapM o)) ∈ u.threads := by
  induction gs generalizing s as k with
  | nil => exact ⟨[], as, s, rfl, rfl, hrun, hmem⟩
  | cons g gs ih =>
    have hg := ho g List.mem_cons_self
    rcases await_goesOn hs hrun hpc hpriv hmem hg with ⟨bs, cs, u, rfl, hbs, hcs, hu⟩
    rcases hog : o g with e | v
    · rw [hog] at hu
      refine ⟨bs, cs, u, rfl, hbs, hcs, ?_⟩
      rw [List.mapM_cons, hog]
      exact hu
    · rw [hog] at hu
      have hu' := (pool_runFrom hs hbs).1
      rcases ih hu' hcs hu fun g' hg' => ho g' (List.mem_cons_of_mem g hg') with
        ⟨bs', cs', u', rfl, hbs', hcs', hu''⟩
      refine ⟨bs ++ bs', cs', u', (List.append_assoc ..).symm,
        (machine res root).runFrom_append.mpr ⟨u, hbs, hbs'⟩, hcs', ?_⟩
      rw [List.mapM_cons, hog]
      rcases hrest : gs.mapM o with e | vs
      · rw [hrest] at hu''
        exact hu''
      · rw [hrest] at hu''
        exact hu''

/-! ## 4. The outcome of `run-async` -/

/-- **The order of the completions does not matter.**  Let the fibers of two runs be isolated.  If
`run-async` returns from both, it ends in the same way; a run that has come to its end has come
to the exit of `scheduler-loop`, when each handle is awaited once; and an `await-all` at any point
of a run that exits goes on with the values of its futures in the order of its list. -/
theorem runAsync_order_irrelevant {root : Body D} (hs : (machine res root).Reachable s)
    (ht : (machine res root).Reachable t) (his : Isolated s) (hit : Isolated t) :
    (s.pc = .exited → t.pc = .exited → runAsync s = runAsync t) ∧
    ((machine res root).Halted s → AwaitedOnce s → ¬ Astray s → s.pc = .exited) ∧
    (∀ (v : State D) (as : List Action) (f : FutureId) (gs : List FutureId)
      (k : Except (Val D) (List (Val D)) → Body D) (o : FutureId → Except (Val D) (Val D)),
      (machine res root).Reachable v → (machine res root).runFrom v as = some s →
      s.pc = .exited → (f, awaitAll (gs.map .future) k) ∈ v.threads →
      (∀ g ∈ gs, (s.futures g).state = some (o g)) →
      ∃ bs cs u, as = bs ++ cs ∧ (machine res root).runFrom v bs = some u ∧
        (machine res root).runFrom u cs = some s ∧ (f, k (gs.mapM o)) ∈ u.threads) := by
  refine ⟨fun hse hte => ?_, fun hhalt honce hnamed => ?_, ?_⟩
  · exact runAsync_congr hse hte (outcomes_eq hs ht his hit hse hte [])
  · exact halted_exited hs hhalt honce (fun x hx => (his.own x hx).1) hnamed
  · intro v as f gs k o hv hrun hse hmem ho
    exact awaitAll_goesOn (inv_reachable hv) hrun hse (isolated_private hs his) hmem ho

end

def fetch : Body Unit :=
  .submit fun task => .await task fun
    | .ok v => .ret v
    | .error e => .raise e

/-- The root awaits two children, each of which awaits a task. -/
def fetchBoth : Body Unit :=
  .async fetch fun a => .async fetch fun b => awaitAll [a, b] fun
    | .ok vs => .ret (.list vs)
    | .error e => .raise e

/-- The task of the `n`-th child has the result `10 * n`. -/
def fetched : Handle → Int
  | .task (n :: _) _ => 10 * n
  | _ => 0

/-- The second task completes first, and both are reaped at once. -/
def reapedTogether : List Action :=
  List.replicate 16 .tick ++ [.post (.task [1] 0), .post (.task [0] 0)] ++ List.replicate 17 .tick

def reapedApart : List Action :=
  List.replicate 16 .tick ++ .post (.task [0] 0) :: List.replicate 13 .tick ++
    .post (.task [1] 0) :: List.replicate 13 .tick

theorem runAsync_order_irrelevant_fetchBoth :
    ∃ s t, (machine fetched fetchBoth).run reapedTogether = some s ∧
      (machine fetched fetchBoth).run reapedApart = some t ∧
      runAsync s = runAsync t := by
  have hs : (machine fetched fetchBoth).run reapedTogether = some _ := rfl
  have ht : (machine fetched fetchBoth).run reapedApart = some _ := rfl
  refine ⟨_, _, hs, ht, ?_⟩
  exact (runAsync_order_irrelevant ⟨_, hs⟩ ⟨_, ht⟩ ⟨rfl, by decide⟩ ⟨rfl, by decide⟩).1 rfl rfl

end ChezAsync.Async
