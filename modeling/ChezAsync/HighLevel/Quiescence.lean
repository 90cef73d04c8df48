import Mathlib.Tactic.Common
import ChezAsync.Lib.WaitGraph
import ChezAsync.HighLevel.TaskAwait

/-!
# What the scheduler leaves behind

The invariant of the scheduler's runs, and from it what holds when `scheduler-loop` blocks in
`completion-queue-wait` and when it exits: which fibers are still pending, and what they wait for.
-/

namespace ChezAsync.Async

variable {D : Type}

/-! ## 1. The invariant -/

structure State.Inv (res : Handle → Int) (s : State D) : Prop where
  pool : s.pool.Inv
  -- the tables hold results of reaped tasks and fibers that have awaited
  meeting : s.meeting.Inv res
  tasks : s.Tasks
  -- `settle!` leaves no waiter behind, and nobody parks on a settled future
  settled : ∀ f, (s.futures f).state ≠ none → (s.futures f).waiters = []
  -- what the `cond` has tested, and no step but its own undoes
  waiting : s.pc = .waiting → s.ready = [] ∧ s.waiters.entries ≠ []
  exited : s.pc = .exited → s.ready = [] ∧ s.waiters.entries = []

section
variable {res : Handle → Int} {s u : State D} {fib : FutureId} {items : List (Item D)}

theorem inv_init (root : Body D) : (machine res root).init.Inv res := by
  refine ⟨?_, ?_, ?_, ?_, ?_, ?_⟩
  · exact Pool.inv_init root
  · exact Rendezvous.inv_empty res
  · constructor <;> simp [machine, State.tasks]
  · intro f h
    rfl
  · intro h
    cases h
  · intro h
    cases h

/-- A fiber that settles has no waiters left, and the other futures only get more of them while
they are pending. -/
theorem run_settled {body : Body D} (hs : s.Inv res) (h : Run s fib items body u) (f : FutureId)
    (hf : (u.futures f).state ≠ none) : (u.futures f).waiters = [] := by
  have hupdate : ∀ (g : FutureId) (F : Future D), (F.state ≠ none → F.waiters = []) →
      (Function.update s.futures g F f).state ≠ none →
      (Function.update s.futures g F f).waiters = [] := by
    intro g F hF hf
    rw [Function.update_apply] at hf ⊢
    split
    case isTrue heq =>
      rw [if_pos heq] at hf
      exact hF hf
    case isFalse hne =>
      rw [if_neg hne] at hf
      exact hs.settled f hf
  cases h with
  | ret v => exact hupdate fib _ (fun _ => rfl) hf
  | raise e => exact hupdate fib _ (fun _ => rfl) hf
  | async thunk k => exact hupdate _ _ (fun _ => rfl) hf
  | @parked g k hg ho => exact hupdate g _ (fun h => absurd rfl h) hf
  | _ => exact hs.settled f hf

/-- A fiber goes on or gives way to the next one of the batch. -/
theorem run_pc {body : Body D} (h : Run s fib items body u) :
    u.pc = .batch items ∨ ∃ body', u.pc = .running fib body' items := by
  cases h with
  | ret => exact Or.inl rfl
  | raise => exact Or.inl rfl
  | parked => exact Or.inl rfl
  | registered => exact Or.inl rfl
  | _ => exact Or.inr ⟨_, rfl⟩

theorem deliverOne_futures (s : State D) (h : Handle) (r : Int) :
    (s.deliverOne h r).futures = s.futures :=
  (deliverOne_frame s h r).1

theorem begin_futures (s : State D) (item : Item D) (items : List (Item D)) :
    (s.begin item items).futures = s.futures :=
  (begin_frame s item items).1

theorem inv_tick (hs : s.Inv res) (h : tick res s = some u) : u.Inv res := by
  have hcomp : ∀ h r, s.completed.lookup h = some r → r = res h :=
    fun h r hr => (hs.meeting.stash h r hr).1
  have hpool : u.pool.Inv := by
    rcases pool_tick hs.pool hcomp h with ⟨heq, -⟩ | hstep
    · -- the pool is as it was, the fiber only changes its place
      exact heq ▸ hs.pool
    · exact hs.pool.step hstep
  have hmeeting : u.meeting.Inv res := by
    rcases meeting_tick hs.tasks h with heq | hstep
    · exact heq ▸ hs.meeting
    · exact hs.meeting.step hstep
  have htasks := tasks_tick hs.tasks h
  refine ⟨hpool, hmeeting, htasks, ?_, ?_, ?_⟩
  · intro f hf
    cases tick_cases h with
    | begin hpc =>
      rw [begin_futures] at hf ⊢
      exact hs.settled f hf
    | run hpc hrun => exact run_settled hs hrun f hf
    | @popped g cq hpc hcq =>
      have hfut := deliverOne_futures { s with cq := cq } g (res g)
      simp only [hfut] at hf ⊢
      exact hs.settled f hf
    | @polled g cq hpc hcq =>
      have hfut := deliverOne_futures { s with cq := cq } g (res g)
      simp only [hfut] at hf ⊢
      exact hs.settled f hf
    | _ => exact hs.settled f hf
  · intro hwait
    cases tick_cases h with
    | wait hpc hready hw => exact ⟨hready, hw⟩
    | @begin item items hpc =>
      unfold State.begin at hwait
      split at hwait <;> cases hwait
    | run hpc hrun =>
      rcases run_pc hrun with hu | ⟨body', hu⟩
      · cases hu.symm.trans hwait
      · cases hu.symm.trans hwait
    | _ => cases hwait
  · intro hexit
    cases tick_cases h with
    | exit hpc hready hw => exact ⟨hready, hw⟩
    | @begin item items hpc =>
      unfold State.begin at hexit
      split at hexit <;> cases hexit
    | run hpc hrun =>
      rcases run_pc hrun with hu | ⟨body', hu⟩
      · cases hu.symm.trans hexit
      · cases hu.symm.trans hexit
    | _ => cases hexit

/-- The loop thread touches the tasks alone. -/
theorem inv_post {h : Handle} (hs : s.Inv res) (hstep : step res s (.post h) = some u) :
    u.Inv res := by
  have htasks := tasks_post hs.tasks hstep
  rcases step_post hstep with ⟨hmem, rfl⟩
  exact ⟨hs.pool, hs.meeting, htasks, hs.settled, hs.waiting, hs.exited⟩

theorem inv_step {a : Action} (hs : s.Inv res) (hstep : step res s a = some u) : u.Inv res := by
  cases a with
  | tick => exact inv_tick hs hstep
  | post h => exact inv_post hs hstep

theorem inv_reachable {root : Body D} (hs : (machine res root).Reachable s) : s.Inv res := by
  exact Machine.Reachable.invariant (P := State.Inv res) (inv_init root)
    (fun s a u _ hinv hstep => inv_step hinv hstep) hs

/-- A step either is one of the running fiber or touches neither the futures nor the record of
overwritten wakes. -/
theorem step_runs {a : Action} (hstep : step res s a = some u) :
    (u.futures = s.futures ∧ u.created = s.created ∧ u.overwritten = s.overwritten) ∨
      ∃ fib body items, a = .tick ∧ s.pc = .running fib body items ∧ Run s fib items body u := by
  have hdeliver : ∀ (t : State D) (h : Handle) (r : Int),
      (t.deliverOne h r).created = t.created ∧
      (t.deliverOne h r).overwritten = t.overwritten := by
    intro t h r
    simp only [State.deliverOne, State.enqueueReady]
    split <;> exact ⟨rfl, rfl⟩
  cases a with
  | post h =>
    rcases step_post hstep with ⟨hmem, rfl⟩
    exact Or.inl ⟨rfl, rfl, rfl⟩
  | tick =>
    cases tick_cases hstep with
    | begin hpc =>
      left
      refine ⟨begin_futures s _ _, ?_, ?_⟩ <;> unfold State.begin <;> split <;> rfl
    | run hpc hrun => exact Or.inr ⟨_, _, _, rfl, hpc, hrun⟩
    | popped hpc hcq => exact Or.inl ⟨deliverOne_futures _ _ _, hdeliver _ _ _⟩
    | polled hpc hcq => exact Or.inl ⟨deliverOne_futures _ _ _, hdeliver _ _ _⟩
    | _ => exact Or.inl ⟨rfl, rfl, rfl⟩

/-- A step of the scheduler is one of the pool, or leaves the pool as it is and lowers the
weight. -/
theorem pool_step (hs : s.Inv res) {a : Action} (hstep : step res s a = some u) :
    (u.pool = s.pool ∧ u.weight < s.weight) ∨ PoolStep res s.pool u.pool := by
  cases a with
  | tick => exact pool_tick hs.pool (fun h r hr => (hs.meeting.stash h r hr).1) hstep
  | post h =>
    rcases step_post hstep with ⟨hmem, rfl⟩
    refine Or.inl ⟨rfl, ?_⟩
    have hpos := List.length_pos_of_mem hmem
    simp only [State.weight, List.length_erase_of_mem hmem, List.length_append, List.length_cons,
      List.length_nil]
    omega

/-- A run of the scheduler is a run of its pool. -/
theorem pool_runFrom {root : Body D} {as : List Action} (hs : s.Inv res)
    (hrun : (machine res root).runFrom s as = some u) :
    u.Inv res ∧ Relation.ReflTransGen (PoolStep res) s.pool u.pool := by
  have hstep : ∀ (t : State D) (a : Action) (v : State D),
      (t.Inv res ∧ Relation.ReflTransGen (PoolStep res) s.pool t.pool) →
      step res t a = some v → v.Inv res ∧ Relation.ReflTransGen (PoolStep res) s.pool v.pool := by
    intro t a v ht hv
    refine ⟨inv_step ht.1 hv, ?_⟩
    rcases pool_step ht.1 hv with ⟨heq, -⟩ | hpool
    · exact heq ▸ ht.2
    · exact ht.2.tail hpool
  exact (machine res root).runFrom_invariant
    (P := fun t => t.Inv res ∧ Relation.ReflTransGen (PoolStep res) s.pool t.pool) hstep
    ⟨hs, Relation.ReflTransGen.refl⟩ hrun

theorem meeting_step (hs : s.Inv res) {a : Action} (hstep : step res s a = some u) :
    u.meeting = s.meeting ∨ s.meeting.Step res u.meeting := by
  cases a with
  | tick => exact meeting_tick hs.tasks hstep
  | post h =>
    rcases step_post hstep with ⟨hmem, rfl⟩
    exact Or.inl rfl

/-! ## 2. Who waits for whom -/

/-- The fiber `f` is parked on the future `g`. -/
def WaitsFor (s : State D) (f g : FutureId) : Prop :=
  g ∈ s.created ∧ ∃ w ∈ (s.futures g).waiters, w.fib = f

theorem waitsFor_pending (hs : s.Inv res) {f g : FutureId} (h : WaitsFor s f g) :
    (s.futures g).state = none := by
  by_contra hne
  rcases h with ⟨hg, w, hw, hfib⟩
  rw [hs.settled g hne] at hw
  cases hw

/-- A parked fiber is aside. -/
theorem waitsFor_aside {f g : FutureId} (h : WaitsFor s f g) : ∃ body, (f, body) ∈ s.aside := by
  rcases h with ⟨hg, w, hw, rfl⟩
  refine ⟨.await (.future g) w.k, Multiset.mem_add.mpr (Or.inr ?_)⟩
  exact mem_parked.mpr ⟨g, hg, w, hw, rfl⟩

/-- It has been made and has not settled. -/
theorem waitsFor_waiter (hs : s.Inv res) {f g : FutureId} (h : WaitsFor s f g) :
    f ∈ s.created ∧ (s.futures f).state = none := by
  rcases waitsFor_aside h with ⟨body, hmem⟩
  have hthread : (f, body) ∈ s.pool.threads := Multiset.mem_add.mpr (Or.inr hmem)
  rcases Multiset.exists_cons_of_mem hthread with ⟨X, hX⟩
  exact hs.pool.pending hX

/-- The running fiber is not parked. -/
theorem waitsFor_ne_running (hs : s.Inv res) {body : Body D}
    (hpc : s.pc = .running fib body items) {f g : FutureId} (h : WaitsFor s f g) : f ≠ fib := by
  rcases waitsFor_aside h with ⟨body', hmem⟩
  exact hs.pool.ne_of_mem (threads_running hpc) (Multiset.mem_add.mpr (Or.inr hmem))

theorem exited_threads (hs : s.Inv res) (hpc : s.pc = .exited) :
    s.threads = parked s.futures s.created := by
  rcases hs.exited hpc with ⟨hready, hwaiters⟩
  rw [State.threads, State.aside, hpc, hready, hwaiters]
  show 0 + (0 + 0 + _) = _
  rw [zero_add, zero_add, zero_add]

/-- A fiber that is still pending after the exit is lost or parked on a pending future. -/
theorem exited_pending (hs : s.Inv res) (hpc : s.pc = .exited) {f : FutureId}
    (hf : f ∈ s.created) (hpend : (s.futures f).state = none) :
    f ∈ s.overwritten ∨ ∃ g, (s.futures g).state = none ∧ WaitsFor s f g := by
  have hmem : f ∈ s.pool.fibers := (hs.pool.mem f).mpr ⟨hf, hpend⟩
  rcases Multiset.mem_add.mp hmem with hmem | hmem
  · right
    rcases Multiset.mem_map.mp hmem with ⟨x, hx, hxf⟩
    -- all places but the waiter lists are empty
    have hx' : x ∈ parked s.futures s.created := exited_threads hs hpc ▸ hx
    rcases mem_parked.mp hx' with ⟨g, hg, w, hw, hwx⟩
    have hwait : WaitsFor s f g := by
      rw [← hxf, ← hwx]
      exact ⟨hg, w, hw, rfl⟩
    exact ⟨g, waitsFor_pending hs hwait, hwait⟩
  · exact Or.inl hmem

/-- When `scheduler-loop` blocks or has exited, nothing is queued. -/
theorem quiet_queued (hs : s.Inv res) (hpc : s.pc = .waiting ∨ s.pc = .exited) :
    s.queued = [] := by
  rcases hpc with hpc | hpc
  · rw [State.queued, hpc, (hs.waiting hpc).1]
    rfl
  · rw [State.queued, hpc, (hs.exited hpc).1]
    rfl

/-! ## 3. Each handle awaited once -/

/-- Each handle is awaited once, as `task-run` awaits the one it has just submitted. -/
def AwaitedOnce (s : State D) : Prop := (s.awaits.map Prod.snd).Nodup

instance (s : State D) : Decidable (AwaitedOnce s) :=
  inferInstanceAs (Decidable (s.awaits.map Prod.snd).Nodup)

theorem settled_reachable {root : Body D} (hs : (machine res root).Reachable s)
    (honce : AwaitedOnce s) : s.meeting.Settled res := by
  have hinit : AwaitedOnce (machine res root).init →
      (machine res root).init.meeting.Settled res := fun _ => Rendezvous.settled_empty res
  refine Machine.Reachable.invariant (P := fun s => AwaitedOnce s → s.meeting.Settled res) hinit
    ?_ hs honce
  intro s a u hs hsettled hstep honce
  have hinv := inv_reachable hs
  rcases meeting_step hinv hstep with heq | hmeet
  · -- that no handle is awaited twice holds of the earlier state too
    have honce' : s.meeting.Once := heq ▸ honce
    exact heq ▸ hsettled honce'
  · have honce' : s.meeting.Once := Rendezvous.Once.of_step hmeet honce
    exact (hsettled honce').step hinv.meeting hmeet honce

theorem once_overwritten {root : Body D} (hs : (machine res root).Reachable s)
    (honce : AwaitedOnce s) : s.overwritten = [] := (settled_reachable hs honce).dropped

/-- The scheduler blocks for the sake of a task that has not been reaped. -/
theorem waiting_open {root : Body D} (hs : (machine res root).Reachable s)
    (honce : AwaitedOnce s) (hpc : s.pc = .waiting) :
    ∃ f h, (f, h) ∈ s.awaits ∧ h ∉ s.reaped := by
  have hinv := inv_reachable hs
  -- the table of waiters is not empty, and a fiber in it has not met its task
  rcases List.exists_mem_of_ne_nil _ (hinv.waiting hpc).2 with ⟨⟨h, w⟩, hw⟩
  have hlookup : s.waiters.lookup h = some w := AList.mem_lookup_iff.mpr hw
  have htaker : s.meeting.taker h = some w.fib := by
    show (s.waiters.lookup h).map Wake.fib = some w.fib
    rw [hlookup]
    rfl
  exact ⟨w.fib, h, hinv.meeting.taker h _ htaker,
    (settled_reachable hs honce).waiting h _ htaker⟩

end

end ChezAsync.Async
