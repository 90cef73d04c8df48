import Mathlib.Logic.Function.Basic
import Mathlib.Data.List.AList
import Mathlib.Tactic.Common
import ChezAsync.Lib.Machine
import ChezAsync.HighLevel.Fiber

/-!
# The scheduler (`io-async.ss`)

`scheduler-loop` with its ready list, its two tables and the futures' waiter lists, against the
loop thread, which posts the completions of the submitted tasks in any order and at any time.  The
continuation that `park!` captures is the function that takes the answer of `await` to the rest of
the body; a `wake` is that function together with the fiber.
-/

namespace ChezAsync.Async

/-! ## 1. The state -/

/-- What `park!` registers: the fiber, and the rest of its body after the `await`. -/
structure Wake (D : Type) where
  fib : FutureId
  k : Outcome D → Body D

/-- A step-producer. -/
inductive Step (D : Type)
  /-- `(lambda () (run-step thunk))` -/
  | start (thunk : Body D)
  /-- The `await` of a task handle resumes with its result. -/
  | resumeTask (h : Handle) (r : Int) (k : Outcome D → Body D)
  /-- The `await` of a future resumes and looks at the future again. -/
  | resumeFuture (f : FutureId) (k : Outcome D → Body D)

structure Item (D : Type) where
  fib : FutureId
  step : Step D

structure Future (D : Type) where
  state : Option (Outcome D)
  waiters : List (Wake D)

/-- Where the scheduler's thread stands. -/
inductive Pc (D : Type)
  /-- At the head of `loop`. -/
  | top
  /-- In the `for-each` over the batch. -/
  | batch (items : List (Item D))
  /-- In `run-fiber!`. -/
  | running (fib : FutureId) (body : Body D) (items : List (Item D))
  /-- At the `cond` after the batch. -/
  | branch
  /-- In `completion-queue-wait`. -/
  | waiting
  | poll
  | exited

structure State (D : Type) where
  pc : Pc D
  /-- The ready list, in reverse. -/
  ready : List (Item D)
  waiters : AList fun _ : Handle => Wake D
  completed : AList fun _ : Handle => Int
  futures : FutureId → Future D
  vars : String → Val D
  /-- The completion queue, and the tasks submitted to it that have not completed. -/
  cq : List Handle
  inFlight : List Handle
  -- The record of the run: the futures made, how many futures and tasks each fiber has made, the
  -- awaits of a handle, the completions reaped, the awaits of a handle that went on and with what,
  -- the fibers whose wake was overwritten, and those that used a shared variable.
  created : List FutureId
  spawned : FutureId → Nat
  submitted : FutureId → Nat
  awaits : List (FutureId × Handle)
  reaped : List Handle
  continued : List (FutureId × Handle × Int)
  overwritten : List FutureId
  sharing : List FutureId

inductive Action
  /-- The next step of the scheduler's thread. -/
  | tick
  /-- The loop thread completes a task. -/
  | post (h : Handle)
  deriving DecidableEq

variable {D : Type}

/-! ## 2. The operations -/

def State.enqueueReady (s : State D) (item : Item D) : State D :=
  { s with ready := item :: s.ready }

/-- `settle!`: every waiter is woken, the first of the list first. -/
def State.settle (s : State D) (f : FutureId) (outcome : Outcome D) : State D :=
  let ws := (s.futures f).waiters
  { s with
    futures := Function.update s.futures f { state := some outcome, waiters := [] }
    -- `(for-each (lambda (wake) (wake #f)) ws)`, the value being ignored
    ready := ws.foldl (fun ready w => ⟨w.fib, .resumeFuture f w.k⟩ :: ready) s.ready }

/-- `await-future` in the fiber `fib`; `none` for a future that does not exist, which no program
can name. -/
def State.awaitFuture (s : State D) (fib f : FutureId) (k : Outcome D → Body D)
    (items : List (Item D)) : Option (State D) :=
  if f ∈ s.created then
    match (s.futures f).state with
    -- `(cdr st)` or `(raise (cdr st))`: the body goes on with the outcome
    | some outcome => some { s with pc := .running fib (k outcome) items }
    | none =>
        some { s with
          pc := .batch items
          futures := Function.update s.futures f
            { state := none, waiters := ⟨fib, k⟩ :: (s.futures f).waiters } }
  else none

/-- `scheduler-await` in the fiber `fib`. -/
def State.schedulerAwait (s : State D) (fib : FutureId) (h : Handle) (k : Outcome D → Body D)
    (items : List (Item D)) : State D :=
  let s := { s with awaits := s.awaits ++ [(fib, h)] }
  match s.completed.lookup h with
  -- the completion came first and was kept: it is consumed, the fiber does not park
  | some r =>
      { s with
        pc := .running fib (k (.ok (.int (.num r)))) items
        completed := s.completed.erase h
        continued := s.continued ++ [(fib, h, r)] }
  | none =>
      { s with
        pc := .batch items
        waiters := s.waiters.insert h ⟨fib, k⟩
        overwritten :=
          match s.waiters.lookup h with
          | some w => w.fib :: s.overwritten
          | none => s.overwritten }

/-- `deliver-one!`; `r` is the `task-result` of `h`. -/
def State.deliverOne (s : State D) (h : Handle) (r : Int) : State D :=
  let s := { s with reaped := s.reaped ++ [h] }
  match s.waiters.lookup h with
  -- the wake puts the resumption on the ready list
  | some w => { s with waiters := s.waiters.erase h }.enqueueReady ⟨w.fib, .resumeTask h r w.k⟩
  | none => { s with completed := s.completed.insert h r }

/-- The fiber `fib` up to its next call, with what is left of the batch. -/
def State.runFiber (s : State D) (fib : FutureId) (items : List (Item D)) :
    Body D → Option (State D)
  | .ret v => some { s.settle fib (.ok v) with pc := .batch items }
  | .raise e => some { s.settle fib (.error e) with pc := .batch items }
  | .async thunk k =>
      let f := s.spawned fib :: fib
      some { s.enqueueReady ⟨f, .start thunk⟩ with
        pc := .running fib (k (.future f)) items
        futures := Function.update s.futures f { state := none, waiters := [] }
        created := s.created ++ [f]
        spawned := Function.update s.spawned fib (s.spawned fib + 1) }
  | .await x k =>
      match x with
      | .future f => s.awaitFuture fib f k items
      | .int h => some (s.schedulerAwait fib h k items)
      | x => some { s with pc := .running fib (k (.error (notAwaitable x))) items }
  | .submit k =>
      let h := Handle.task fib (s.submitted fib)
      some { s with
        pc := .running fib (k (.int h)) items
        inFlight := s.inFlight ++ [h]
        submitted := Function.update s.submitted fib (s.submitted fib + 1) }
  | .get x k =>
      some { s with
        pc := .running fib (k (s.vars x)) items
        sharing := fib :: s.sharing }
  | .set x v k =>
      some { s with
        pc := .running fib k items
        vars := Function.update s.vars x v
        sharing := fib :: s.sharing }

/-- `run-fiber!` takes up an item of the batch. -/
def State.begin (s : State D) (item : Item D) (items : List (Item D)) : State D :=
  match item.step with
  | .start thunk => { s with pc := .running item.fib thunk items }
  | .resumeTask h r k =>
      { s with
        pc := .running item.fib (k (.ok (.int (.num r)))) items
        continued := s.continued ++ [(item.fib, h, r)] }
  -- `(await-future f)` once more, after `park!` has returned
  | .resumeFuture f k => { s with pc := .running item.fib (.await (.future f) k) items }

/-! ## 3. The machine -/

section
variable (res : Handle → Int)

def tick (s : State D) : Option (State D) :=
  match s.pc with
  | .top => some { s with pc := .batch s.ready.reverse, ready := [] }
  | .batch [] => some { s with pc := .branch }
  | .batch (item :: items) => some (s.begin item items)
  | .running fib body items => s.runFiber fib items body
  -- more work, or fibers in the table of waiters, or quiescence; parked fibers do not count
  | .branch =>
      some { s with
        pc := if s.ready ≠ [] then .top else if s.waiters.entries ≠ [] then .waiting else .exited }
  | .waiting =>
      match s.cq with
      | h :: cq => some { { s with cq }.deliverOne h (res h) with pc := .poll }
      | [] => none
  -- `(let poll () …)`: what has been posted is drained before the next batch
  | .poll =>
      match s.cq with
      | h :: cq => some ({ s with cq }.deliverOne h (res h))
      | [] => some { s with pc := .top }
  | .exited => none

def step (s : State D) : Action → Option (State D)
  | .tick => tick res s
  | .post h =>
      if h ∈ s.inFlight then some { s with inFlight := s.inFlight.erase h, cq := s.cq ++ [h] }
      else none

/-- `run-async` has made the root future and calls `scheduler-loop`; `res` is the result that each
task has when it completes. -/
def machine (root : Body D) : Machine (State D) Action where
  init :=
    { pc := .top, ready := [⟨[], .start root⟩], waiters := ∅, completed := ∅
      futures := fun _ => { state := none, waiters := [] }, vars := fun _ => .void
      cq := [], inFlight := []
      created := [[]], spawned := fun _ => 0, submitted := fun _ => 0, awaits := [], reaped := []
      continued := [], overwritten := [], sharing := [] }
  step := step res

end

/-! ## 4. What a step does -/

section
variable {res : Handle → Int} {s u : State D}

/-- What the running fiber does, by its next call. -/
inductive Run (s : State D) (fib : FutureId) (items : List (Item D)) : Body D → State D → Prop
  | ret (v : Val D) : Run s fib items (.ret v) { s.settle fib (.ok v) with pc := .batch items }
  | raise (e : Val D) :
      Run s fib items (.raise e) { s.settle fib (.error e) with pc := .batch items }
  | async (thunk : Body D) (k : Val D → Body D) :
      Run s fib items (.async thunk k)
        { s.enqueueReady ⟨s.spawned fib :: fib, .start thunk⟩ with
          pc := .running fib (k (.future (s.spawned fib :: fib))) items
          futures :=
            Function.update s.futures (s.spawned fib :: fib) { state := none, waiters := [] }
          created := s.created ++ [s.spawned fib :: fib]
          spawned := Function.update s.spawned fib (s.spawned fib + 1) }
  | settled {f : FutureId} {o : Outcome D} (k : Outcome D → Body D) (hf : f ∈ s.created)
      (ho : (s.futures f).state = some o) :
      Run s fib items (.await (.future f) k) { s with pc := .running fib (k o) items }
  | parked {f : FutureId} (k : Outcome D → Body D) (hf : f ∈ s.created)
      (ho : (s.futures f).state = none) :
      Run s fib items (.await (.future f) k)
        { s with
          pc := .batch items
          futures := Function.update s.futures f
            { state := none, waiters := ⟨fib, k⟩ :: (s.futures f).waiters } }
  | completed {h : Handle} {r : Int} (k : Outcome D → Body D) (hr : s.completed.lookup h = some r) :
      Run s fib items (.await (.int h) k)
        { s with
          pc := .running fib (k (.ok (.int (.num r)))) items
          awaits := s.awaits ++ [(fib, h)]
          completed := s.completed.erase h
          continued := s.continued ++ [(fib, h, r)] }
  | registered {h : Handle} (k : Outcome D → Body D) (hr : s.completed.lookup h = none) :
      Run s fib items (.await (.int h) k)
        { s with
          pc := .batch items
          awaits := s.awaits ++ [(fib, h)]
          waiters := s.waiters.insert h ⟨fib, k⟩
          overwritten := ((s.waiters.lookup h).map Wake.fib).toList ++ s.overwritten }
  | refused {x : Val D} (k : Outcome D → Body D) (hx : x.awaitable = false) :
      Run s fib items (.await x k) { s with pc := .running fib (k (.error (notAwaitable x))) items }
  | submit (k : Val D → Body D) :
      Run s fib items (.submit k)
        { s with
          pc := .running fib (k (.int (.task fib (s.submitted fib)))) items
          inFlight := s.inFlight ++ [.task fib (s.submitted fib)]
          submitted := Function.update s.submitted fib (s.submitted fib + 1) }
  | get (x : String) (k : Val D → Body D) :
      Run s fib items (.get x k)
        { s with pc := .running fib (k (s.vars x)) items, sharing := fib :: s.sharing }
  | set (x : String) (v : Val D) (k : Body D) :
      Run s fib items (.set x v k)
        { s with
          pc := .running fib k items
          vars := Function.update s.vars x v
          sharing := fib :: s.sharing }

theorem runFiber_cases {fib : FutureId} {items : List (Item D)} {body : Body D}
    (h : s.runFiber fib items body = some u) : Run s fib items body u := by
  cases body with
  | ret v => exact Option.some.inj h ▸ Run.ret v
  | raise e => exact Option.some.inj h ▸ Run.raise e
  | async thunk k => exact Option.some.inj h ▸ Run.async thunk k
  | submit k => exact Option.some.inj h ▸ Run.submit k
  | get x k => exact Option.some.inj h ▸ Run.get x k
  | set x v k => exact Option.some.inj h ▸ Run.set x v k
  | await x k =>
    cases x with
    | future f =>
      simp only [State.runFiber, State.awaitFuture, Option.ite_none_right_eq_some] at h
      rcases h with ⟨hf, h⟩
      split at h
      case h_1 o ho => exact Option.some.inj h ▸ Run.settled k hf ho
      case h_2 ho => exact Option.some.inj h ▸ Run.parked k hf ho
    | int g =>
      simp only [State.runFiber, State.schedulerAwait, Option.some.injEq] at h
      split at h
      case h_1 r hr => exact h ▸ Run.completed k hr
      case h_2 hr =>
        have hover : ((s.waiters.lookup g).map Wake.fib).toList ++ s.overwritten =
            match s.waiters.lookup g with
            | some w => w.fib :: s.overwritten
            | none => s.overwritten := by
          rcases s.waiters.lookup g with _ | w <;> rfl
        rw [← h, ← hover]
        exact Run.registered k hr
    | _ => exact Option.some.inj h ▸ Run.refused k rfl

/-- The steps of the scheduler's thread by the place it stands at. -/
inductive Tick (res : Handle → Int) (s : State D) : State D → Prop
  | top (hpc : s.pc = .top) : Tick res s { s with pc := .batch s.ready.reverse, ready := [] }
  | batchEnd (hpc : s.pc = .batch []) : Tick res s { s with pc := .branch }
  | begin {item : Item D} {items : List (Item D)} (hpc : s.pc = .batch (item :: items)) :
      Tick res s (s.begin item items)
  | run {fib : FutureId} {body : Body D} {items : List (Item D)} {u : State D}
      (hpc : s.pc = .running fib body items) (h : Run s fib items body u) : Tick res s u
  | again (hpc : s.pc = .branch) (h : s.ready ≠ []) : Tick res s { s with pc := .top }
  | wait (hpc : s.pc = .branch) (hready : s.ready = []) (h : s.waiters.entries ≠ []) :
      Tick res s { s with pc := .waiting }
  | exit (hpc : s.pc = .branch) (hready : s.ready = []) (h : s.waiters.entries = []) :
      Tick res s { s with pc := .exited }
  | popped {h : Handle} {cq : List Handle} (hpc : s.pc = .waiting) (hcq : s.cq = h :: cq) :
      Tick res s { { s with cq := cq }.deliverOne h (res h) with pc := .poll }
  | polled {h : Handle} {cq : List Handle} (hpc : s.pc = .poll) (hcq : s.cq = h :: cq) :
      Tick res s { { s with cq := cq }.deliverOne h (res h) with pc := .poll }
  | drained (hpc : s.pc = .poll) (hcq : s.cq = []) : Tick res s { s with pc := .top }

theorem deliverOne_pc (hpc : s.pc = .poll) (h : Handle) (r : Int) :
    { s.deliverOne h r with pc := .poll } = s.deliverOne h r := by
  simp only [State.deliverOne, State.enqueueReady, ← hpc]
  split <;> rfl

theorem tick_cases (h : tick res s = some u) : Tick res s u := by
  unfold tick at h
  split at h
  case h_1 hpc => exact Option.some.inj h ▸ Tick.top hpc
  case h_2 hpc => exact Option.some.inj h ▸ Tick.batchEnd hpc
  case h_3 hpc => exact Option.some.inj h ▸ Tick.begin hpc
  case h_4 hpc => exact Tick.run hpc (runFiber_cases h)
  case h_5 hpc =>
    rw [← Option.some.inj h]
    split
    case isTrue hready => exact Tick.again hpc hready
    case isFalse hready =>
      have hready := not_not.mp hready
      split
      case isTrue hw => exact Tick.wait hpc hready hw
      case isFalse hw => exact Tick.exit hpc hready (not_not.mp hw)
  case h_6 hpc =>
    split at h
    case h_1 hcq => exact Option.some.inj h ▸ Tick.popped hpc hcq
    case h_2 => cases h
  case h_7 hpc =>
    split at h
    case h_1 g cq hcq =>
      rw [← Option.some.inj h, ← deliverOne_pc (s := { s with cq := cq }) hpc]
      exact Tick.polled hpc hcq
    case h_2 hcq => exact Option.some.inj h ▸ Tick.drained hpc hcq
  case h_8 => cases h

theorem run_of_tick {fib : FutureId} {body : Body D} {items : List (Item D)}
    (hpc : s.pc = .running fib body items) (h : tick res s = some u) : Run s fib items body u := by
  apply runFiber_cases
  rw [← h]
  unfold tick
  rw [hpc]

theorem step_post {h : Handle} (hstep : step res s (.post h) = some u) :
    h ∈ s.inFlight ∧ u = { s with inFlight := s.inFlight.erase h, cq := s.cq ++ [h] } := by
  simp only [step, Option.ite_none_right_eq_some, Option.some.injEq] at hstep
  exact ⟨hstep.1, hstep.2.symm⟩

end

/-! ## 5. The end of the run -/

/-- How `run-async` ends once `scheduler-loop` has returned. -/
inductive RunResult (D : Type)
  | value (v : Val D)
  | reraised (e : Val D)
  /-- `(error 'run-async "deadlock: root fiber never settled")` -/
  | deadlock
  deriving DecidableEq

def runAsync (s : State D) : Option (RunResult D) :=
  match s.pc with
  | .exited =>
      match (s.futures []).state with
      | none => some .deadlock
      | some (.ok v) => some (.value v)
      | some (.error e) => some (.reraised e)
  | _ => none

end ChezAsync.Async
