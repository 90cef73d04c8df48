import Mathlib.Algebra.BigOperators.Group.List.Basic
import Mathlib.Algebra.Order.Group.Multiset
import Mathlib.Data.List.AList
import Mathlib.Tactic.Common
import ChezAsync.HighLevel.Scheduler
import ChezAsync.HighLevel.Pool

/-!
# Where the scheduler keeps its fibers

A fiber that has not settled runs, stands in the batch or in the ready list, or is parked: in the
table of task waiters or in the waiter list of a future.  Read as a bag of fibers with their
bodies, a scheduler state is a `Pool`, and every step of the scheduler is a step of that pool or
moves a fiber from one place to another.
-/

namespace ChezAsync.Async

variable {D : Type}

/-! ## 1. The pool of a state -/

/-- The body that a step-producer runs. -/
def Step.body : Step D → Body D
  | .start thunk => thunk
  | .resumeTask _ r k => k (.ok (.int (.num r)))
  | .resumeFuture f k => .await (.future f) k

def Item.thread (item : Item D) : FutureId × Body D := (item.fib, item.step.body)

/-- A fiber parked on a handle still stands at its `await`. -/
def taskThread (e : Sigma fun _ : Handle => Wake D) : FutureId × Body D :=
  (e.2.fib, .await (.int e.1) e.2.k)

/-- So does a fiber parked on the future `f`. -/
def futureThread (f : FutureId) (w : Wake D) : FutureId × Body D := (w.fib, .await (.future f) w.k)

def Pc.threads : Pc D → List (FutureId × Body D)
  | .batch items => items.map Item.thread
  | .running fib body items => (fib, body) :: items.map Item.thread
  | _ => []

/-- The fibers parked on the futures of a list. -/
def parked (futures : FutureId → Future D) (fs : List FutureId) : Multiset (FutureId × Body D) :=
  (fs.map fun f => (((futures f).waiters.map (futureThread f) : List _) : Multiset _)).sum

/-- The fibers in the ready list and the parked ones. -/
def State.aside (s : State D) : Multiset (FutureId × Body D) :=
  (s.ready.map Item.thread : List _) + (s.waiters.entries.map taskThread : List _) +
    parked s.futures s.created

def State.threads (s : State D) : Multiset (FutureId × Body D) := s.pc.threads + s.aside

def State.pool (s : State D) : Pool D :=
  { threads := s.threads, outcome := fun f => (s.futures f).state, created := s.created
    spawned := s.spawned, submitted := s.submitted, lost := s.overwritten, sharing := s.sharing }

/-- How far the scheduler is from its next wait by the place it stands at: `top` follows `branch`
only with a ready list that is not empty. -/
def Pc.weight (ready : List (Item D)) : Pc D → Nat
  | .top => if ready = [] then 3 else 0
  | .batch items => 3 * items.length + 2
  | .running _ _ items => 3 * items.length + 3
  | .branch => 1
  | .waiting => 0
  | .poll => 4
  | .exited => 0

/-- What is left to do as long as no fiber takes a step. -/
def State.weight (s : State D) : Nat :=
  10 * s.inFlight.length + 5 * s.cq.length + 6 * s.ready.length + s.pc.weight s.ready

/-! ## 2. The tables and the waiter lists as bags -/

theorem perm_kerase {ν : Handle → Type} {h : Handle} {w : ν h} {l : List (Sigma ν)}
    (hl : l.dlookup h = some w) : l.Perm (⟨h, w⟩ :: l.kerase h) := by
  induction l with
  | nil => cases hl
  | cons e l ih =>
    by_cases he : h = e.1
    · subst he
      rw [List.dlookup_cons_eq] at hl
      cases hl
      rw [List.kerase_cons_eq rfl]
    · rw [List.dlookup_cons_ne l e he] at hl
      rw [List.kerase_cons_ne he]
      exact ((ih hl).cons e).trans (List.Perm.swap _ _ _)

theorem parked_head (futures : FutureId → Future D) (g : FutureId) (fs : List FutureId) :
    parked futures (g :: fs) =
      ((futures g).waiters.map (futureThread g) : List _) + parked futures fs := by
  rw [parked, List.map_cons, List.sum_cons]
  rfl

theorem mem_parked {futures : FutureId → Future D} {fs : List FutureId} {x : FutureId × Body D} :
    x ∈ parked futures fs ↔ ∃ f ∈ fs, ∃ w ∈ (futures f).waiters, futureThread f w = x := by
  induction fs with
  | nil => simp [parked]
  | cons g fs ih =>
    rw [parked_head, Multiset.mem_add, ih, Multiset.mem_coe, List.mem_map, List.exists_mem_cons_iff]

theorem parked_append (futures : FutureId → Future D) (fs gs : List FutureId) :
    parked futures (fs ++ gs) = parked futures fs + parked futures gs := by
  simp [parked]

theorem parked_update_of_notMem {futures : FutureId → Future D} {f : FutureId} {F : Future D}
    {fs : List FutureId} (hf : f ∉ fs) :
    parked (Function.update futures f F) fs = parked futures fs := by
  unfold parked
  congr 1
  apply List.map_congr_left
  intro g hg
  have hgf : g ≠ f := fun h => hf (h ▸ hg)
  rw [Function.update_of_ne hgf]

/-- The waiters of one future of the list are replaced. -/
theorem parked_update (futures : FutureId → Future D) {f : FutureId} (F : Future D)
    {fs : List FutureId} (hnodup : fs.Nodup) (hf : f ∈ fs) :
    parked (Function.update futures f F) fs + ((futures f).waiters.map (futureThread f) : List _) =
      parked futures fs + (F.waiters.map (futureThread f) : List _) := by
  induction fs with
  | nil => cases hf
  | cons g fs ih =>
    rw [List.nodup_cons] at hnodup
    rw [parked_head, parked_head]
    by_cases hgf : g = f
    · subst hgf
      -- the future of the update stands at the head, and only there
      rw [parked_update_of_notMem hnodup.1, Function.update_self]
      ac_rfl
    · have hmem := (List.mem_cons.mp hf).resolve_left fun h => hgf h.symm
      have h := ih hnodup.2 hmem
      rw [Function.update_of_ne hgf, add_assoc, h, add_assoc]

theorem parked_cons {futures : FutureId → Future D} {f : FutureId} {w : Wake D}
    {st : Option (Outcome D)} {fs : List FutureId} (hnodup : fs.Nodup) (hf : f ∈ fs) :
    parked (Function.update futures f { state := st, waiters := w :: (futures f).waiters }) fs =
      futureThread f w ::ₘ parked futures fs := by
  have h := parked_update futures { state := st, waiters := w :: (futures f).waiters } hnodup hf
  rw [List.map_cons, ← Multiset.cons_coe, Multiset.add_cons, ← Multiset.cons_add] at h
  exact add_right_cancel h

theorem parked_clear (futures : FutureId → Future D) {f : FutureId} (st : Option (Outcome D))
    {fs : List FutureId} (hnodup : fs.Nodup) (hf : f ∈ fs) :
    parked (Function.update futures f { state := st, waiters := [] }) fs +
      ((futures f).waiters.map (futureThread f) : List _) = parked futures fs := by
  have h := parked_update futures { state := st, waiters := [] } hnodup hf
  rw [h]
  exact add_zero _

/-! ## 3. What the operations move -/

theorem aside_enqueueReady (s : State D) (item : Item D) :
    (s.enqueueReady item).aside = item.thread ::ₘ s.aside := by
  simp only [State.aside, State.enqueueReady, List.map_cons, ← Multiset.cons_coe,
    Multiset.cons_add]

/-- `settle!` moves the waiters to the ready list. -/
theorem aside_settle {s : State D} {f : FutureId} (hnodup : s.created.Nodup)
    (hf : f ∈ s.created) (o : Outcome D) : (s.settle f o).aside = s.aside := by
  have hready : ∀ (ws : List (Wake D)) (ready : List (Item D)),
      Multiset.ofList
          ((ws.foldl (fun ready w => ⟨w.fib, .resumeFuture f w.k⟩ :: ready) ready).map
            Item.thread) =
        Multiset.ofList (ready.map Item.thread) + Multiset.ofList (ws.map (futureThread f)) := by
    intro ws
    induction ws with
    | nil => intro ready; exact (add_zero _).symm
    | cons w ws ih =>
      intro ready
      rw [List.foldl_cons, ih, List.map_cons, List.map_cons, ← Multiset.cons_coe,
        ← Multiset.cons_coe, Multiset.cons_add, Multiset.add_cons]
      rfl
  have hparked := parked_clear s.futures (some o) hnodup hf
  simp only [State.aside, State.settle, hready]
  rw [← hparked]
  ac_rfl

theorem aside_insert {s : State D} {h : Handle} (w : Wake D) (hw : s.waiters.lookup h = none) :
    { s with waiters := s.waiters.insert h w }.aside = taskThread ⟨h, w⟩ ::ₘ s.aside := by
  have hmem : h ∉ s.waiters := AList.lookup_eq_none.mp hw
  simp only [State.aside, AList.entries_insert_of_notMem hmem, List.map_cons, ← Multiset.cons_coe,
    Multiset.cons_add, Multiset.add_cons]

theorem aside_erase {s : State D} {h : Handle} {w : Wake D} (hw : s.waiters.lookup h = some w) :
    taskThread ⟨h, w⟩ ::ₘ { s with waiters := s.waiters.erase h }.aside = s.aside := by
  have hperm := (perm_kerase (h := h) (l := s.waiters.entries) hw).map taskThread
  have heq := Multiset.coe_eq_coe.mpr hperm
  simp only [State.aside, heq, List.map_cons, ← Multiset.cons_coe, Multiset.cons_add,
    Multiset.add_cons]
  rfl

/-- A wake that is already there for the handle is overwritten. -/
theorem aside_overwrite {s : State D} {h : Handle} (w : Wake D) {w' : Wake D}
    (hw : s.waiters.lookup h = some w') :
    taskThread ⟨h, w'⟩ ::ₘ { s with waiters := s.waiters.insert h w }.aside =
      taskThread ⟨h, w⟩ ::ₘ s.aside := by
  rw [← aside_erase hw]
  simp only [State.aside, AList.entries_insert, List.map_cons, ← Multiset.cons_coe,
    Multiset.cons_add, Multiset.add_cons]
  exact Multiset.cons_swap _ _ _

theorem aside_park {s : State D} {f : FutureId} (hnodup : s.created.Nodup) (hf : f ∈ s.created)
    (w : Wake D) :
    { s with
      futures := Function.update s.futures f
        { state := none, waiters := w :: (s.futures f).waiters } }.aside =
      futureThread f w ::ₘ s.aside := by
  simp only [State.aside, parked_cons hnodup hf, Multiset.add_cons]

theorem aside_create {s : State D} {f : FutureId} (hf : f ∉ s.created) :
    { s with
      futures := Function.update s.futures f { state := none, waiters := [] }
      created := s.created ++ [f] }.aside = s.aside := by
  have hnew : parked (Function.update s.futures f { state := none, waiters := [] }) [f] = 0 := by
    rw [parked, List.map_singleton, List.sum_singleton, Function.update_self]
    rfl
  simp only [State.aside, parked_append, parked_update_of_notMem hf, hnew, add_zero]

/-! ## 4. The scheduler's steps are steps of the pool -/

theorem outcome_update (futures : FutureId → Future D) (f : FutureId) (F : Future D) :
    (fun g => (Function.update futures f F g).state) =
      Function.update (fun g => (futures g).state) f F.state := by
  funext g
  by_cases hg : g = f
  · rw [hg, Function.update_self, Function.update_self]
  · rw [Function.update_of_ne hg, Function.update_of_ne hg]

section
variable {res : Handle → Int} {s u : State D} {fib : FutureId} {items : List (Item D)}

theorem threads_running {body : Body D} (hpc : s.pc = .running fib body items) :
    s.threads = (fib, body) ::ₘ ((items.map Item.thread : List _) + s.aside) := by
  rw [State.threads, hpc, Pc.threads, ← Multiset.cons_coe, Multiset.cons_add]

/-- The fiber that runs goes on without touching anything aside. -/
theorem pool_goOn (s : State D) (fib : FutureId) (items : List (Item D)) (body' : Body D) :
    { s with pc := .running fib body' items }.pool =
      { s.pool with threads := (fib, body') ::ₘ ((items.map Item.thread : List _) + s.aside) } := by
  have h := threads_running (s := { s with pc := .running fib body' items }) rfl
  simp only [State.pool, h]
  rfl

theorem pool_settle {body : Body D} {o : Outcome D} (hs : s.pool.Inv)
    (hpc : s.pc = .running fib body items) (hb : body.outcome? = some o) :
    PoolStep res s.pool { s.settle fib o with pc := .batch items }.pool := by
  have hX : s.pool.threads = _ := threads_running hpc
  have hf : fib ∈ s.created := (hs.pending hX).1
  have haside := aside_settle hs.created hf o
  have hu : { s.settle fib o with pc := .batch items }.pool =
      { s.pool with
        threads := (items.map Item.thread : List _) + s.aside
        outcome := Function.update s.pool.outcome fib (some o) } := by
    refine Pool.ext ?_ (outcome_update _ _ _) rfl rfl rfl rfl rfl
    show Multiset.ofList (items.map Item.thread) + (s.settle fib o).aside = _
    rw [haside]
  rw [hu]
  exact PoolStep.settle hb hX

/-- The fiber that runs makes a fiber. -/
theorem threads_async (thunk : Body D) (k : Val D → Body D) (hs : s.pool.Inv) :
    State.threads { s.enqueueReady ⟨s.spawned fib :: fib, .start thunk⟩ with
      pc := .running fib (k (.future (s.spawned fib :: fib))) items
      futures := Function.update s.futures (s.spawned fib :: fib) { state := none, waiters := [] }
      created := s.created ++ [s.spawned fib :: fib]
      spawned := Function.update s.spawned fib (s.spawned fib + 1) } =
    (s.spawned fib :: fib, thunk) ::ₘ (fib, k (.future (s.spawned fib :: fib))) ::ₘ
      ((items.map Item.thread : List _) + s.aside) := by
  rw [← aside_create (hs.child_notMem fib), threads_running rfl]
  simp only [State.aside, State.enqueueReady, List.map_cons, ← Multiset.cons_coe,
    Multiset.cons_add, Multiset.add_cons]
  exact Multiset.cons_swap _ _ _

theorem pool_async {thunk : Body D} {k : Val D → Body D} (hs : s.pool.Inv)
    (hpc : s.pc = .running fib (.async thunk k) items) :
    PoolStep res s.pool { s.enqueueReady ⟨s.spawned fib :: fib, .start thunk⟩ with
      pc := .running fib (k (.future (s.spawned fib :: fib))) items
      futures := Function.update s.futures (s.spawned fib :: fib) { state := none, waiters := [] }
      created := s.created ++ [s.spawned fib :: fib]
      spawned := Function.update s.spawned fib (s.spawned fib + 1) }.pool := by
  have hX : s.pool.threads = _ := threads_running hpc
  have hu : State.pool { s.enqueueReady ⟨s.spawned fib :: fib, .start thunk⟩ with
      pc := .running fib (k (.future (s.spawned fib :: fib))) items
      futures := Function.update s.futures (s.spawned fib :: fib) { state := none, waiters := [] }
      created := s.created ++ [s.spawned fib :: fib]
      spawned := Function.update s.spawned fib (s.spawned fib + 1) } = { s.pool with
      threads := (s.pool.spawned fib :: fib, thunk) ::ₘ
        (fib, k (.future (s.pool.spawned fib :: fib))) ::ₘ
          ((items.map Item.thread : List _) + s.aside)
      outcome := Function.update s.pool.outcome (s.pool.spawned fib :: fib) none
      created := s.pool.created ++ [s.pool.spawned fib :: fib]
      spawned := Function.update s.pool.spawned fib (s.pool.spawned fib + 1) } :=
    Pool.ext (threads_async thunk k hs) (outcome_update _ _ _) rfl rfl rfl rfl rfl
  rw [hu]
  exact PoolStep.async hX

/-- A fiber parked on a future stands where it stood. -/
theorem pool_parked {f : FutureId} {k : Outcome D → Body D} (hs : s.pool.Inv)
    (hpc : s.pc = .running fib (.await (.future f) k) items) (hf : f ∈ s.created)
    (ho : (s.futures f).state = none) :
    State.pool { s with
      pc := .batch items
      futures := Function.update s.futures f
        { state := none, waiters := ⟨fib, k⟩ :: (s.futures f).waiters } } = s.pool := by
  have haside := aside_park hs.created hf ⟨fib, k⟩
  refine Pool.ext ?_ ?_ rfl rfl rfl rfl rfl
  · show Multiset.ofList (items.map Item.thread) + State.aside { s with
      futures := Function.update s.futures f
        { state := none, waiters := ⟨fib, k⟩ :: (s.futures f).waiters } } = s.threads
    rw [haside, threads_running hpc, Multiset.add_cons]
    rfl
  · refine (outcome_update _ _ _).trans ?_
    exact (congrArg (Function.update _ f) ho.symm).trans (Function.update_eq_self f _)

/-- A fiber that gives way lowers the weight. -/
theorem weight_park {body : Body D} (hpc : s.pc = .running fib body items)
    (hu : u.pc = .batch items) (hready : u.ready = s.ready) (hcq : u.cq = s.cq)
    (hin : u.inFlight = s.inFlight) : u.weight < s.weight := by
  simp only [State.weight, Pc.weight, hpc, hu, hready, hcq, hin]
  omega

/-- A fiber registered on a handle stands where it stood; the one whose wake is overwritten is
lost. -/
theorem pool_registered {h : Handle} {k : Outcome D → Body D}
    (hpc : s.pc = .running fib (.await (.int h) k) items) :
    State.pool { s with
        pc := .batch items
        awaits := s.awaits ++ [(fib, h)]
        waiters := s.waiters.insert h ⟨fib, k⟩
        overwritten := ((s.waiters.lookup h).map Wake.fib).toList ++ s.overwritten } = s.pool ∨
      PoolStep res s.pool (State.pool { s with
        pc := .batch items
        awaits := s.awaits ++ [(fib, h)]
        waiters := s.waiters.insert h ⟨fib, k⟩
        overwritten := ((s.waiters.lookup h).map Wake.fib).toList ++ s.overwritten }) := by
  have hX : s.pool.threads = _ := threads_running hpc
  rcases hw : s.waiters.lookup h with _ | w
  · left
    have haside := aside_insert (s := s) ⟨fib, k⟩ hw
    refine Pool.ext ?_ rfl rfl rfl rfl rfl rfl
    rw [hX]
    show Multiset.ofList (items.map Item.thread) +
      State.aside { s with waiters := s.waiters.insert h ⟨fib, k⟩ } = _
    rw [haside, Multiset.add_cons]
    rfl
  · right
    have haside := aside_overwrite (s := s) ⟨fib, k⟩ hw
    have hXw : s.pool.threads = taskThread ⟨h, w⟩ ::ₘ (Multiset.ofList (items.map Item.thread) +
        State.aside { s with waiters := s.waiters.insert h ⟨fib, k⟩ }) := by
      rw [hX, ← Multiset.add_cons, ← Multiset.add_cons, haside]
      rfl
    exact PoolStep.lose hXw

/-- No fiber comes up with it. -/
theorem threads_registered {g : Handle} {k : Outcome D → Body D}
    (hpc : s.pc = .running fib (.await (.int g) k) items) {x : FutureId × Body D}
    (hx : x ∈ State.threads { s with
      pc := .batch items
      awaits := s.awaits ++ [(fib, g)]
      waiters := s.waiters.insert g ⟨fib, k⟩
      overwritten := ((s.waiters.lookup g).map Wake.fib).toList ++ s.overwritten }) :
    x ∈ s.threads := by
  have hmem : x ∈ Multiset.ofList (items.map Item.thread) +
      State.aside { s with waiters := s.waiters.insert g ⟨fib, k⟩ } := hx
  rw [threads_running hpc]
  rcases hw : s.waiters.lookup g with _ | w
  · rw [aside_insert ⟨fib, k⟩ hw, Multiset.add_cons] at hmem
    exact hmem
  · rw [← Multiset.add_cons]
    rcases Multiset.mem_add.mp hmem with hmem | hmem
    · exact Multiset.mem_add.mpr (Or.inl hmem)
    · have hmore := Multiset.mem_cons_of_mem (b := taskThread ⟨g, w⟩) hmem
      rw [aside_overwrite ⟨fib, k⟩ hw] at hmore
      exact Multiset.mem_add.mpr (Or.inr hmore)

/-- `deliver-one!` lets a waiting fiber go on with the result, or touches no fiber. -/
theorem threads_deliverOne (hpc : s.pc.threads = []) (h : Handle) (r : Int) (pc : Pc D)
    (hpc' : pc.threads = []) :
    ((s.deliverOne h r).ready = s.ready ∧ { s.deliverOne h r with pc := pc }.threads = s.threads) ∨
      ∃ (w : Wake D) (X : Multiset (FutureId × Body D)),
        s.threads = (w.fib, .await (.int h) w.k) ::ₘ X ∧
        { s.deliverOne h r with pc := pc }.threads = (w.fib, w.k (.ok (.int (.num r)))) ::ₘ X := by
  have hthreads : ∀ t : State D, t.pc.threads = [] → t.threads = t.aside := by
    intro t ht
    rw [State.threads, ht]
    exact zero_add _
  simp only [State.deliverOne]
  split
  case h_1 w hw =>
    refine Or.inr ⟨w, State.aside { s with waiters := s.waiters.erase h }, ?_, ?_⟩
    · exact (hthreads s hpc).trans (aside_erase hw).symm
    · refine (hthreads _ hpc').trans ?_
      exact aside_enqueueReady { s with waiters := s.waiters.erase h } ⟨w.fib, .resumeTask h r w.k⟩
  case h_2 hnone => exact Or.inl ⟨rfl, (hthreads _ hpc').trans (hthreads s hpc).symm⟩

theorem deliverOne_frame (s : State D) (h : Handle) (r : Int) :
    (s.deliverOne h r).futures = s.futures ∧ (s.deliverOne h r).created = s.created ∧
      (s.deliverOne h r).vars = s.vars ∧ (s.deliverOne h r).submitted = s.submitted := by
  simp only [State.deliverOne, State.enqueueReady]
  split <;> exact ⟨rfl, rfl, rfl, rfl⟩

theorem begin_frame (s : State D) (item : Item D) (items : List (Item D)) :
    (s.begin item items).futures = s.futures ∧ (s.begin item items).created = s.created ∧
      (s.begin item items).vars = s.vars ∧ (s.begin item items).submitted = s.submitted := by
  unfold State.begin
  split <;> exact ⟨rfl, rfl, rfl, rfl⟩

/-- In the pool, that is an answer to the waiting fiber, or nothing. -/
theorem pool_deliverOne (res : Handle → Int) (hpc : s.pc.threads = []) (h : Handle) (pc : Pc D)
    (hpc' : pc.threads = []) :
    ({ s.deliverOne h (res h) with pc := pc }.pool = s.pool ∧
        { s.deliverOne h (res h) with pc := pc }.weight =
          10 * s.inFlight.length + 5 * s.cq.length + 6 * s.ready.length + pc.weight s.ready) ∨
      PoolStep res s.pool { s.deliverOne h (res h) with pc := pc }.pool := by
  have hpool : { s.deliverOne h (res h) with pc := pc }.pool =
      { s.pool with threads := { s.deliverOne h (res h) with pc := pc }.threads } := by
    simp only [State.pool, State.deliverOne, State.enqueueReady]
    split <;> rfl
  have hrest : (s.deliverOne h (res h)).inFlight = s.inFlight ∧
      (s.deliverOne h (res h)).cq = s.cq := by
    simp only [State.deliverOne, State.enqueueReady]
    split <;> exact ⟨rfl, rfl⟩
  rcases threads_deliverOne hpc h (res h) pc hpc' with ⟨hready, heq⟩ | ⟨w, X, hX, hu⟩
  · left
    refine ⟨hpool.trans (Pool.ext heq rfl rfl rfl rfl rfl rfl), ?_⟩
    simp only [State.weight, hready, hrest]
  · rw [hpool, hu]
    -- the waiting fiber goes from its `await` to the ready list in one step of the pool
    exact Or.inr (PoolStep.answer (Answer.task h w.k) hX)

/-- The fiber that runs uses a shared variable. -/
theorem pool_share {body body' : Body D} (hpc : s.pc = .running fib body items)
    (hpart : body'.Part body) (hu : u.pc = .running fib body' items) (haside : u.aside = s.aside)
    (hpool : u.pool = { s.pool with threads := u.threads, sharing := fib :: s.sharing }) :
    PoolStep res s.pool u.pool := by
  rw [hpool, threads_running hu, haside]
  exact PoolStep.share hpart (threads_running hpc)

theorem pool_run {body : Body D} (hs : s.pool.Inv)
    (hcomp : ∀ h r, s.completed.lookup h = some r → r = res h)
    (hpc : s.pc = .running fib body items) (h : Run s fib items body u) :
    (u.pool = s.pool ∧ u.weight < s.weight) ∨ PoolStep res s.pool u.pool := by
  have hX : s.pool.threads = _ := threads_running hpc
  cases h with
  | ret v => exact Or.inr (pool_settle hs hpc rfl)
  | raise e => exact Or.inr (pool_settle hs hpc rfl)
  | async thunk k => exact Or.inr (pool_async hs hpc)
  | settled k hf ho =>
    rw [pool_goOn]
    exact Or.inr (PoolStep.answer (Answer.future k ho) hX)
  | parked k hf ho =>
    exact Or.inl ⟨pool_parked hs hpc hf ho, weight_park hpc rfl rfl rfl rfl⟩
  | @completed g r k hr =>
    have hu := pool_goOn s fib items (k (.ok (.int (.num r))))
    rw [hcomp g r hr] at hu ⊢
    exact Or.inr (hu ▸ PoolStep.answer (Answer.task g k) hX)
  | registered k hr =>
    rcases pool_registered hpc with heq | hstep
    · exact Or.inl ⟨heq, weight_park hpc rfl rfl rfl rfl⟩
    · exact Or.inr hstep
  | refused k hx =>
    rw [pool_goOn]
    exact Or.inr (PoolStep.answer (Answer.other k hx) hX)
  | submit k =>
    have hu : State.pool { s with
        pc := .running fib (k (.int (.task fib (s.submitted fib)))) items
        inFlight := s.inFlight ++ [.task fib (s.submitted fib)]
        submitted := Function.update s.submitted fib (s.submitted fib + 1) } = { s.pool with
        threads := (fib, k (.int (.task fib (s.pool.submitted fib)))) ::ₘ
          ((items.map Item.thread : List _) + s.aside)
        submitted := Function.update s.pool.submitted fib (s.pool.submitted fib + 1) } := by
      exact Pool.ext (threads_running rfl) rfl rfl rfl rfl rfl rfl
    rw [hu]
    exact Or.inr (PoolStep.submit hX)
  | get x k => exact Or.inr (pool_share hpc (Body.Part.get x k _) rfl rfl rfl)
  | set x v k => exact Or.inr (pool_share hpc (Body.Part.set x v k) rfl rfl rfl)

/-- Only the places in the batch, the ready list and the running fiber change. -/
theorem pool_place (pc : Pc D) (ready : List (Item D))
    (heq : Multiset.ofList pc.threads + Multiset.ofList (ready.map Item.thread) =
      Multiset.ofList s.pc.threads + Multiset.ofList (s.ready.map Item.thread)) :
    { s with pc := pc, ready := ready }.pool = s.pool := by
  refine Pool.ext ?_ rfl rfl rfl rfl rfl rfl
  simp only [State.pool, State.threads, State.aside, ← add_assoc]
  rw [heq]

theorem pool_begin {item : Item D} (hpc : s.pc = .batch (item :: items)) :
    (s.begin item items).pool = s.pool := by
  have hrun : ∀ body, item.step.body = body →
      { s with pc := .running item.fib body items }.pool = s.pool := by
    intro body hbody
    apply pool_place _ s.ready
    rw [hpc, ← hbody]
    rfl
  unfold State.begin
  split
  case h_1 thunk hstep => exact hrun thunk (by rw [hstep]; rfl)
  case h_2 g r k hstep => exact hrun _ (by rw [hstep]; rfl)
  case h_3 f k hstep => exact hrun _ (by rw [hstep]; rfl)

theorem weight_begin {item : Item D} (hpc : s.pc = .batch (item :: items)) :
    (s.begin item items).weight < s.weight := by
  have hrun : ∀ body, { s with pc := .running item.fib body items }.weight < s.weight := by
    intro body
    simp only [State.weight, Pc.weight, hpc, List.length_cons]
    omega
  unfold State.begin
  split <;> exact hrun _

/-- **The scheduler refines the pool.**  A step of the scheduler's thread is one step of one fiber
of the pool, or leaves the pool as it is and lowers the weight. -/
theorem pool_tick (hs : s.pool.Inv) (hcomp : ∀ h r, s.completed.lookup h = some r → r = res h)
    (h : tick res s = some u) :
    (u.pool = s.pool ∧ u.weight < s.weight) ∨ PoolStep res s.pool u.pool := by
  have hstill : ∀ pc : Pc D, s.pc.threads = pc.threads → { s with pc := pc }.pool = s.pool := by
    intro pc hpc
    apply pool_place _ s.ready
    rw [hpc]
  have hpop : ∀ (h : Handle) (cq : List Handle), s.cq = h :: cq → s.pc.threads = [] →
      ({ State.deliverOne { s with cq := cq } h (res h) with pc := .poll }.pool = s.pool ∧
        { State.deliverOne { s with cq := cq } h (res h) with pc := .poll }.weight < s.weight) ∨
      PoolStep res s.pool
        { State.deliverOne { s with cq := cq } h (res h) with pc := .poll }.pool := by
    intro h cq hcq hpc
    rcases pool_deliverOne res (s := { s with cq := cq }) hpc h .poll rfl with
      ⟨heq, hweight⟩ | hstep
    · refine Or.inl ⟨heq, ?_⟩
      apply hweight.trans_lt
      simp only [State.weight, Pc.weight, hcq, List.length_cons]
      omega
    · exact Or.inr hstep
  cases tick_cases h with
  | top hpc =>
    refine Or.inl ⟨pool_place _ _ ?_, ?_⟩
    · rw [hpc]
      show Multiset.ofList (s.ready.reverse.map Item.thread) + 0 = 0 + _
      rw [List.map_reverse, Multiset.coe_reverse]
      exact add_comm _ _
    · simp only [State.weight, Pc.weight, hpc, List.length_reverse, List.length_nil]
      split
      case isTrue hready =>
        rw [hready, List.length_nil]
        omega
      case isFalse hready =>
        have hpos := List.length_pos_of_ne_nil hready
        omega
  | begin hpc => exact Or.inl ⟨pool_begin hpc, weight_begin hpc⟩
  | run hpc hrun => exact pool_run hs hcomp hpc hrun
  | popped hpc hcq => exact hpop _ _ hcq (by rw [hpc]; rfl)
  | polled hpc hcq => exact hpop _ _ hcq (by rw [hpc]; rfl)
  | batchEnd hpc =>
    refine Or.inl ⟨hstill _ (by rw [hpc]; rfl), ?_⟩
    simp only [State.weight, Pc.weight, hpc]
    omega
  | again hpc hready =>
    refine Or.inl ⟨hstill _ (by rw [hpc]; rfl), ?_⟩
    simp only [State.weight, Pc.weight, hpc, if_neg hready]
    omega
  | wait hpc =>
    refine Or.inl ⟨hstill _ (by rw [hpc]; rfl), ?_⟩
    simp only [State.weight, Pc.weight, hpc]
    omega
  | exit hpc =>
    refine Or.inl ⟨hstill _ (by rw [hpc]; rfl), ?_⟩
    simp only [State.weight, Pc.weight, hpc]
    omega
  | drained hpc =>
    refine Or.inl ⟨hstill _ (by rw [hpc]; rfl), ?_⟩
    simp only [State.weight, Pc.weight, hpc]
    split <;> omega

end

end ChezAsync.Async
