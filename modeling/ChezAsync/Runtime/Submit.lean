import Mathlib.Logic.Function.Basic
import Mathlib.Data.List.Nodup
import Mathlib.Tactic.Common
import ChezAsync.Lib.Machine
import ChezAsync.Runtime.Task

/-!
# Submit, Drain and Stop (`runtime.cpp`)

`Runtime::Submit` pushes a task onto `queue_` under `qmutex_` and sends the async wake-up; the loop
thread's `Runtime::Drain` swaps the queue out, dispatches the batch and then tests `stopping_`;
`Runtime::Stop` clears `running_`, sets `stopping_`, sends the wake-up and joins.  One schedule of
`machine` is one interleaving of any number of submitting threads, the loop thread and the
stopping thread, from the moment `Runtime::Start` has returned.
-/

namespace ChezAsync.Submit

/-! ## 1. The machine -/

/-- Where a thread stands in `Runtime::Submit`. -/
inductive SubmitPc
  | idle
  /-- Past the assertion on `running_`, which is compiled out in release builds. -/
  | entered (t : TaskId)
  /-- `queue_` has the task, `uv_async_send` has not run. -/
  | pushed (t : TaskId)
  deriving DecidableEq

/-- Where the loop thread stands in `OnAsync` and `Drain`. -/
inductive LoopPc
  | polling
  /-- The callback has begun, `Drain` has not swapped. -/
  | draining
  /-- After the swap: the for loop over `local`, then the test of `stopping_`. -/
  | dispatching
  /-- The stopping branch has closed `async_`. -/
  | closed
  deriving DecidableEq

/-- Where the stopping thread stands in `Runtime::Stop`. -/
inductive StopPc
  | idle
  | cleared
  | stored
  | sent
  | joined
  deriving DecidableEq

structure State where
  running : Bool
  stopping : Bool
  queue : List TaskId
  /-- A send on `async_` whose callback has not begun. -/
  wakeup : Bool
  loop : LoopPc
  /-- What is left of `Drain`'s vector `local`. -/
  batch : List TaskId
  submit : Nat → SubmitPc
  stop : StopPc
  -- The record of the run: calls of `Submit`, those begun under `running_`, pushes, dispatches.
  started : List (Nat × TaskId)
  onTime : List TaskId
  pushes : List (Nat × TaskId)
  dispatched : List TaskId

inductive Action
  | submit (p : Nat) (t : TaskId)
  | push (p : Nat)
  | send (p : Nat)
  | onAsync
  | swap
  | dispatch
  | testStopping
  | stopClear
  | stopStore
  | stopSend
  | stopJoin
  deriving DecidableEq

def Action.isStop : Action → Bool
  | .stopClear | .stopStore | .stopSend | .stopJoin => true
  | _ => false

def Action.isLoop : Action → Bool
  | .onAsync | .swap | .dispatch | .testStopping => true
  | _ => false

/-- `uv_async_send`: sends coalesce, and a closed handle has no callback any more. -/
def asyncSend (s : State) : State :=
  { s with wakeup := s.wakeup || decide (s.loop ≠ .closed) }

def step (s : State) : Action → Option State
  | .submit p t =>
      if s.submit p = .idle ∧ t ∉ s.started.map Prod.snd then
        some { s with
          submit := Function.update s.submit p (.entered t)
          started := s.started ++ [(p, t)]
          onTime := if s.running then s.onTime ++ [t] else s.onTime }
      else none
  | .push p =>
      match s.submit p with
      | .entered t =>
          some { s with
            submit := Function.update s.submit p (.pushed t)
            queue := s.queue ++ [t]
            pushes := s.pushes ++ [(p, t)] }
      | _ => none
  | .send p =>
      match s.submit p with
      | .pushed _ => some { asyncSend s with submit := Function.update s.submit p .idle }
      | _ => none
  | .onAsync =>
      if s.loop = .polling ∧ s.wakeup = true then
        some { s with loop := .draining, wakeup := false }
      else none
  | .swap =>
      if s.loop = .draining then
        some { s with loop := .dispatching, batch := s.queue, queue := [] }
      else none
  | .dispatch =>
      match s.loop, s.batch with
      | .dispatching, t :: ts => some { s with batch := ts, dispatched := s.dispatched ++ [t] }
      | _, _ => none
  | .testStopping =>
      if s.loop = .dispatching ∧ s.batch = [] then
        some { s with loop := if s.stopping then .closed else .polling }
      else none
  | .stopClear =>
      if s.stop = .idle ∧ s.running = true then some { s with running := false, stop := .cleared }
      else none
  | .stopStore =>
      if s.stop = .cleared then some { s with stopping := true, stop := .stored } else none
  | .stopSend =>
      if s.stop = .stored then some { asyncSend s with stop := .sent } else none
  | .stopJoin =>
      if s.stop = .sent ∧ s.loop = .closed then some { s with stop := .joined } else none

/-- The runtime right after `Runtime::Start`. -/
def machine : Machine State Action where
  init :=
    { running := true, stopping := false, queue := [], wakeup := false, loop := .polling
      batch := [], submit := fun _ => .idle, stop := .idle
      started := [], onTime := [], pushes := [], dispatched := [] }
  step := step

/-- The steps, each with its guard. -/
inductive Step (s : State) : Action → State → Prop
  | submit {p : Nat} {t : TaskId} (hidle : s.submit p = .idle)
      (hfresh : t ∉ s.started.map Prod.snd) :
      Step s (.submit p t)
        { s with
          submit := Function.update s.submit p (.entered t)
          started := s.started ++ [(p, t)]
          onTime := if s.running then s.onTime ++ [t] else s.onTime }
  | push {p : Nat} {t : TaskId} (ht : s.submit p = .entered t) :
      Step s (.push p)
        { s with
          submit := Function.update s.submit p (.pushed t)
          queue := s.queue ++ [t]
          pushes := s.pushes ++ [(p, t)] }
  | send {p : Nat} {t : TaskId} (ht : s.submit p = .pushed t) :
      Step s (.send p) { asyncSend s with submit := Function.update s.submit p .idle }
  | onAsync (hloop : s.loop = .polling) (hwake : s.wakeup = true) :
      Step s .onAsync { s with loop := .draining, wakeup := false }
  | swap (hloop : s.loop = .draining) :
      Step s .swap { s with loop := .dispatching, batch := s.queue, queue := [] }
  | dispatch {t : TaskId} {ts : List TaskId} (hloop : s.loop = .dispatching)
      (hbatch : s.batch = t :: ts) :
      Step s .dispatch { s with batch := ts, dispatched := s.dispatched ++ [t] }
  | testStopping (hloop : s.loop = .dispatching) (hbatch : s.batch = []) :
      Step s .testStopping { s with loop := if s.stopping then .closed else .polling }
  | stopClear (hstop : s.stop = .idle) (hrun : s.running = true) :
      Step s .stopClear { s with running := false, stop := .cleared }
  | stopStore (hstop : s.stop = .cleared) :
      Step s .stopStore { s with stopping := true, stop := .stored }
  | stopSend (hstop : s.stop = .stored) : Step s .stopSend { asyncSend s with stop := .sent }
  | stopJoin (hstop : s.stop = .sent) (hloop : s.loop = .closed) :
      Step s .stopJoin { s with stop := .joined }

theorem step_cases {s u : State} {a : Action} (h : step s a = some u) : Step s a u := by
  cases a with
  | submit p t =>
    simp only [step, Option.ite_none_right_eq_some] at h
    exact Option.some.inj h.2 ▸ Step.submit h.1.1 h.1.2
  | push p =>
    simp only [step] at h
    split at h
    case h_1 t ht => exact Option.some.inj h ▸ Step.push ht
    case h_2 => cases h
  | send p =>
    simp only [step] at h
    split at h
    case h_1 t ht => exact Option.some.inj h ▸ Step.send ht
    case h_2 => cases h
  | onAsync =>
    simp only [step, Option.ite_none_right_eq_some] at h
    exact Option.some.inj h.2 ▸ Step.onAsync h.1.1 h.1.2
  | swap =>
    simp only [step, Option.ite_none_right_eq_some] at h
    exact Option.some.inj h.2 ▸ Step.swap h.1
  | dispatch =>
    simp only [step] at h
    split at h
    case h_1 t ts hloop hbatch => exact Option.some.inj h ▸ Step.dispatch hloop hbatch
    case h_2 => cases h
  | testStopping =>
    simp only [step, Option.ite_none_right_eq_some] at h
    exact Option.some.inj h.2 ▸ Step.testStopping h.1.1 h.1.2
  | stopClear =>
    simp only [step, Option.ite_none_right_eq_some] at h
    exact Option.some.inj h.2 ▸ Step.stopClear h.1.1 h.1.2
  | stopStore =>
    simp only [step, Option.ite_none_right_eq_some] at h
    exact Option.some.inj h.2 ▸ Step.stopStore h.1
  | stopSend =>
    simp only [step, Option.ite_none_right_eq_some] at h
    exact Option.some.inj h.2 ▸ Step.stopSend h.1
  | stopJoin =>
    simp only [step, Option.ite_none_right_eq_some] at h
    exact Option.some.inj h.2 ▸ Step.stopJoin h.1.1 h.1.2

/-! ## 2. The invariant -/

/-- The task of producer `p` that is not pushed yet, under its producer's name. -/
def unpushed (s : State) (p : Nat) : List (Nat × TaskId) :=
  match s.submit p with
  | .entered t => [(p, t)]
  | _ => []

structure Inv (s : State) : Prop where
  -- nothing is lost, doubled or overtaken between the push and `Dispatch`
  order : s.pushes.map Prod.snd = s.dispatched ++ s.batch ++ s.queue
  batch : s.loop ≠ .dispatching → s.batch = []
  started_nodup : (s.started.map Prod.snd).Nodup
  pushes_nodup : (s.pushes.map Prod.snd).Nodup
  -- a producer is in one `Submit` at a time, so what it has started it has pushed, up to that one
  entered : ∀ p t, s.submit p = .entered t → (p, t) ∈ s.started ∧ t ∉ s.pushes.map Prod.snd
  pushed : ∀ x ∈ s.pushes, x ∈ s.started
  producer : ∀ p, s.started.filter (·.1 = p) = s.pushes.filter (·.1 = p) ++ unpushed s p
  -- no lost wake-up: somebody will look at the queue again
  wake : ∀ t ∈ s.queue,
    s.wakeup = true ∨ s.loop = .draining ∨ s.loop = .closed ∨ ∃ p, s.submit p = .pushed t
  onTime : ∀ t ∈ s.onTime, t ∈ s.started.map Prod.snd

theorem inv_init : Inv machine.init := by
  constructor <;> simp [machine, unpushed]

/-- A task is started by one producer only. -/
theorem Inv.started_inj {s : State} (hs : Inv s) {p q : Nat} {t : TaskId}
    (hp : (p, t) ∈ s.started) (hq : (q, t) ∈ s.started) : p = q := by
  have h := List.inj_on_of_nodup_map hs.started_nodup hp hq rfl
  exact congrArg Prod.fst h

/-- A step of a producer without a send to come leaves the sends of the others. -/
theorem wake_update {s : State} {p : Nat} {x : TaskId} {c : SubmitPc}
    (h : s.loop = .draining ∨ s.loop = .closed ∨ ∃ q, s.submit q = .pushed x)
    (hp : s.submit p ≠ .pushed x) :
    s.loop = .draining ∨ s.loop = .closed ∨ ∃ q, Function.update s.submit p c q = .pushed x := by
  rcases h with h | h | ⟨q, hq⟩
  · exact Or.inl h
  · exact Or.inr (Or.inl h)
  · have hqp : q ≠ p := by
      intro e
      rw [e] at hq
      exact hp hq
    exact Or.inr (Or.inr ⟨q, by rw [Function.update_of_ne hqp, hq]⟩)

theorem inv_submit {s : State} {p : Nat} {t : TaskId} (hs : Inv s) (hidle : s.submit p = .idle)
    (hfresh : t ∉ s.started.map Prod.snd) :
    Inv { s with
      submit := Function.update s.submit p (.entered t)
      started := s.started ++ [(p, t)]
      onTime := if s.running then s.onTime ++ [t] else s.onTime } := by
  have hnew : t ∉ s.pushes.map Prod.snd := by
    intro ht
    rcases List.mem_map.mp ht with ⟨x, hx, rfl⟩
    exact hfresh (List.mem_map_of_mem (hs.pushed x hx))
  refine
    { hs with
      started_nodup := ?_, entered := ?_, pushed := ?_, producer := ?_, wake := ?_, onTime := ?_ }
  · rw [List.map_append, List.map_singleton, ← List.concat_eq_append]
    exact hs.started_nodup.concat hfresh
  · intro q t' hq
    by_cases hqp : q = p
    · subst hqp
      simp only [Function.update_self, SubmitPc.entered.injEq] at hq
      subst hq
      exact ⟨by simp, hnew⟩
    · simp only [Function.update_of_ne hqp] at hq
      have he := hs.entered q t' hq
      exact ⟨List.mem_append_left _ he.1, he.2⟩
  · intro x hx
    exact List.mem_append_left _ (hs.pushed x hx)
  · intro q
    have hq := hs.producer q
    by_cases hqp : q = p
    · subst hqp
      simp only [unpushed, hidle, List.append_nil] at hq
      simp [unpushed, List.filter_append, hq]
    · have hpq : ¬ p = q := fun e => hqp e.symm
      simp [unpushed, List.filter_append, hq, Function.update_of_ne hqp, hpq]
  · intro x hx
    apply (hs.wake x hx).elim Or.inl
    intro h
    right
    apply wake_update h
    simp [hidle]
  · intro x hx
    simp only [List.map_append, List.mem_append]
    by_cases hrun : s.running = true
    · simp only [hrun, if_true, List.mem_append, List.mem_singleton] at hx
      rcases hx with hx | rfl
      · exact Or.inl (hs.onTime x hx)
      · simp
    · simp only [hrun] at hx
      exact Or.inl (hs.onTime x hx)

theorem inv_push {s : State} {p : Nat} {t : TaskId} (hs : Inv s) (ht : s.submit p = .entered t) :
    Inv { s with
      submit := Function.update s.submit p (.pushed t)
      queue := s.queue ++ [t]
      pushes := s.pushes ++ [(p, t)] } := by
  have hent := hs.entered p t ht
  refine
    { hs with
      order := ?_, pushes_nodup := ?_, entered := ?_, pushed := ?_, producer := ?_, wake := ?_ }
  · simp only [List.map_append, hs.order, List.map_cons, List.map_nil, List.append_assoc]
  · rw [List.map_append, List.map_singleton, ← List.concat_eq_append]
    exact hs.pushes_nodup.concat hent.2
  · intro q t' hq
    have hqp : q ≠ p := by
      intro e
      subst e
      simp at hq
    simp only [Function.update_of_ne hqp] at hq
    have he := hs.entered q t' hq
    refine ⟨he.1, ?_⟩
    simp only [List.map_append, List.map_cons, List.map_nil, List.mem_append, List.mem_singleton,
      not_or]
    -- two producers never have the same task in hand
    refine ⟨he.2, ?_⟩
    intro e
    subst e
    exact hqp (hs.started_inj he.1 hent.1)
  · intro x hx
    rcases List.mem_append.mp hx with hx | hx
    · exact hs.pushed x hx
    · exact (List.mem_singleton.mp hx) ▸ hent.1
  · intro q
    have hq := hs.producer q
    by_cases hqp : q = p
    · subst hqp
      simp only [unpushed, ht] at hq
      simp [unpushed, List.filter_append, hq]
    · have hpq : ¬ p = q := fun e => hqp e.symm
      simp [unpushed, List.filter_append, hq, Function.update_of_ne hqp, hpq]
  · intro x hx
    rcases List.mem_append.mp hx with hx | hx
    · apply (hs.wake x hx).elim Or.inl
      intro h
      right
      apply wake_update h
      simp [ht]
    · -- the new task's own send is still to come
      rw [List.mem_singleton.mp hx]
      exact Or.inr (Or.inr (Or.inr ⟨p, by simp⟩))

/-- A send leaves a wake-up behind, or `async_` is closed. -/
theorem wakeup_asyncSend (s : State) : (asyncSend s).wakeup = true ∨ s.loop = .closed := by
  by_cases hc : s.loop = .closed
  · exact Or.inr hc
  · exact Or.inl (by simp [asyncSend, hc])

theorem inv_send {s : State} {p : Nat} {t : TaskId} (hs : Inv s) (ht : s.submit p = .pushed t) :
    Inv { asyncSend s with submit := Function.update s.submit p .idle } := by
  refine { hs with entered := ?_, producer := ?_, wake := ?_ }
  · intro q t' hq
    have hqp : q ≠ p := by
      intro e
      subst e
      simp at hq
    simp only [Function.update_of_ne hqp] at hq
    exact hs.entered q t' hq
  · intro q
    have hq := hs.producer q
    by_cases hqp : q = p
    · subst hqp
      simp only [unpushed, ht] at hq
      simp [unpushed, asyncSend, hq]
    · simpa [unpushed, asyncSend, Function.update_of_ne hqp] using hq
  · intro x _
    rcases wakeup_asyncSend s with h | h
    · exact Or.inl h
    · exact Or.inr (Or.inr (Or.inl h))

theorem inv_step {s u : State} {a : Action} (hs : Inv s) (h : step s a = some u) : Inv u := by
  cases step_cases h with
  | submit hidle hfresh => exact inv_submit hs hidle hfresh
  | push ht => exact inv_push hs ht
  | send ht => exact inv_send hs ht
  | onAsync hloop =>
    have hbatch := hs.batch (by simp [hloop])
    exact { hs with batch := fun _ => hbatch, wake := fun _ _ => Or.inr (Or.inl rfl) }
  | swap hloop =>
    have hbatch := hs.batch (by simp [hloop])
    have horder := hs.order
    refine { hs with order := ?_, batch := fun h => absurd rfl h, wake := by simp }
    simp only [hbatch, List.append_nil] at horder ⊢
    exact horder
  | dispatch hloop hbatch =>
    have horder := hs.order
    refine { hs with order := ?_, batch := fun h => absurd hloop h }
    rw [hbatch] at horder
    simpa using horder
  | testStopping hloop hbatch =>
    refine { hs with batch := fun _ => hbatch, wake := ?_ }
    intro x hx
    rcases hs.wake x hx with h | h | h | h
    · exact Or.inl h
    · simp [hloop] at h
    · simp [hloop] at h
    · exact Or.inr (Or.inr (Or.inr h))
  | stopSend =>
    refine { hs with wake := ?_ }
    intro x _
    rcases wakeup_asyncSend s with h | h
    · exact Or.inl h
    · exact Or.inr (Or.inr (Or.inl h))
  | stopClear | stopStore | stopJoin => exact { hs with }

theorem inv_reachable {s : State} (h : machine.Reachable s) : Inv s :=
  h.invariant inv_init fun _ _ _ _ hs ht => inv_step hs ht

/-! ## 3. Without `Stop`: every task is dispatched once, in push order -/

/-- `Submit` has returned for the pushed task `t`. -/
def Finished (s : State) (t : TaskId) : Prop :=
  t ∈ s.pushes.map Prod.snd ∧ ∀ p, s.submit p ≠ .pushed t

def Open (s : State) : Prop := s.stopping = false ∧ s.loop ≠ .closed

theorem open_step {s u : State} {a : Action} (hs : Open s) (ha : a.isStop = false)
    (h : step s a = some u) : Open u := by
  have hstop := hs.1
  cases step_cases h with
  | submit | push | send | dispatch => exact hs
  | onAsync | swap => exact ⟨hstop, by simp⟩
  | testStopping => exact ⟨hstop, by simp [hstop]⟩
  | stopClear | stopStore | stopSend | stopJoin => cases ha

theorem open_of_no_stop {as : List Action} {s : State} (hrun : machine.run as = some s)
    (hstop : ∀ a ∈ as, a.isStop = false) : Open s :=
  ((Machine.meets_of_actions hstop).always (M := machine)
    (fun _ _ _ hs ha ht => open_step hs ha ht) ⟨rfl, by simp [machine]⟩).last hrun

/-- The for loop of `Drain` hands its whole batch to `Dispatch`. -/
theorem dispatch_batch {s : State} (hloop : s.loop = .dispatching) :
    machine.runFrom s (s.batch.map fun _ => .dispatch) =
      some { s with batch := [], dispatched := s.dispatched ++ s.batch } := by
  cases s with
  | mk running stopping queue wakeup loop batch submit stop started onTime pushes dispatched =>
    simp only at hloop
    subst hloop
    induction batch generalizing dispatched with
    | nil => simp
    | cons t ts ih =>
      have hrest := ih (dispatched ++ [t])
      simp only [List.append_assoc, List.singleton_append] at hrest
      exact hrest

/-- A `Drain` that has not swapped yet dispatches all of `queue_`. -/
theorem drain_queue {s : State} (hloop : s.loop = .draining) :
    ∃ bs u, (∀ b ∈ bs, b.isLoop = true) ∧ machine.runFrom s bs = some u ∧
      u.dispatched = s.dispatched ++ s.queue := by
  refine ⟨.swap :: s.queue.map fun _ => .dispatch,
    { s with
      loop := .dispatching, batch := [], queue := [], dispatched := s.dispatched ++ s.queue },
    ?_, ?_, ?_⟩
  · simp [Action.isLoop]
  · refine machine.runFrom_cons.mpr ⟨_, if_pos hloop, ?_⟩
    exact dispatch_batch (s := { s with loop := .dispatching, batch := s.queue, queue := [] }) rfl
  · rfl

theorem drain_when_polling {s : State} (hs : Inv s) (hloop : s.loop = .polling) :
    ∃ bs u, (∀ b ∈ bs, b.isLoop = true) ∧ machine.runFrom s bs = some u ∧
      ∀ t, Finished s t → t ∈ u.dispatched := by
  have hbatch := hs.batch (by simp [hloop])
  by_cases hq : ∃ t ∈ s.queue, Finished s t
  · rcases hq with ⟨t, ht, hfin⟩
    have hwake : s.wakeup = true := by
      rcases hs.wake t ht with h | h | h | ⟨p, hp⟩
      · exact h
      · simp [hloop] at h
      · simp [hloop] at h
      · exact absurd hp (hfin.2 p)
    rcases drain_queue (s := { s with loop := .draining, wakeup := false }) rfl with
      ⟨bs, u, hbs, hu, hd⟩
    refine ⟨.onAsync :: bs, u, ?_, ?_, ?_⟩
    · simpa [Action.isLoop] using hbs
    · exact machine.runFrom_cons.mpr ⟨_, if_pos ⟨hloop, hwake⟩, hu⟩
    · intro t' ht'
      have ho := hs.order ▸ ht'.1
      simpa [hbatch, hd] using ho
  · refine ⟨[], s, by simp, rfl, ?_⟩
    intro t' ht'
    have ho := hs.order ▸ ht'.1
    simp only [hbatch, List.append_nil, List.mem_append] at ho
    rcases ho with ho | ho
    · exact ho
    · exact absurd ⟨t', ho, ht'⟩ hq

/-- Left to itself, the loop thread dispatches every task whose `Submit` has returned. -/
theorem loop_dispatches {s : State} (hs : Inv s) (hopen : Open s) :
    ∃ bs u, (∀ b ∈ bs, b.isLoop = true) ∧ machine.runFrom s bs = some u ∧
      ∀ t, Finished s t → t ∈ u.dispatched := by
  cases hloop : s.loop with
  | polling => exact drain_when_polling hs hloop
  | draining =>
    rcases drain_queue hloop with ⟨bs, u, hbs, hu, hd⟩
    refine ⟨bs, u, hbs, hu, ?_⟩
    intro t ht
    have ho := hs.order ▸ ht.1
    simpa [hs.batch (by simp [hloop]), hd] using ho
  | closed => exact absurd hloop hopen.2
  | dispatching =>
    -- finish the batch in hand and return to `uv_run`, then drain as from there
    let v : State :=
      { s with loop := .polling, batch := [], dispatched := s.dispatched ++ s.batch }
    have hv : machine.runFrom s ((s.batch.map fun _ => .dispatch) ++ [.testStopping]) = some v := by
      apply machine.runFrom_snoc (dispatch_batch hloop)
      simp [machine, step, hloop, hopen.1, v]
    have hinv : Inv v := machine.runFrom_invariant (fun _ _ _ hs ht => inv_step hs ht) hs hv
    rcases drain_when_polling hinv rfl with ⟨bs, u, hbs, hu, hd⟩
    refine ⟨((s.batch.map fun _ => .dispatch) ++ [.testStopping]) ++ bs, u, ?_, ?_, hd⟩
    · intro b hb
      simp only [List.mem_append, List.mem_map, List.mem_singleton] at hb
      rcases hb with (⟨_, _, rfl⟩ | rfl) | hb
      · rfl
      · rfl
      · exact hbs b hb
    · exact machine.runFrom_append.mpr ⟨v, hv, hu⟩

/-- **Submit and Drain lose and duplicate nothing.**  In every interleaving without `Stop` the
pushed tasks are the dispatched ones, the rest of the batch and the queue, in push order and each
once; each producer's pushes are in the order of its calls; a queued task whose `Submit` has
returned has a wake-up pending or a `Drain` about to swap; and the loop thread's own next steps
dispatch every task whose `Submit` has returned. -/
theorem submit_drain_exact {as : List Action} {s : State} (hrun : machine.run as = some s)
    (hstop : ∀ a ∈ as, a.isStop = false) :
    s.pushes.map Prod.snd = s.dispatched ++ s.batch ++ s.queue ∧
    (s.dispatched ++ s.batch ++ s.queue).Nodup ∧
    (∀ p, s.pushes.filter (·.1 = p) <+: s.started.filter (·.1 = p)) ∧
    (∀ t ∈ s.queue, Finished s t → s.wakeup = true ∨ s.loop = .draining) ∧
    ∃ bs u, (∀ b ∈ bs, b.isLoop = true) ∧ machine.runFrom s bs = some u ∧
      ∀ t, Finished s t → u.dispatched.count t = 1 := by
  have hs : Inv s := inv_reachable ⟨as, hrun⟩
  have hopen := open_of_no_stop hrun hstop
  refine ⟨hs.order, hs.order ▸ hs.pushes_nodup, ?_, ?_, ?_⟩
  · intro p
    rw [hs.producer p]
    exact List.prefix_append _ _
  · intro t ht hfin
    rcases hs.wake t ht with h | h | h | ⟨p, hp⟩
    · exact .inl h
    · exact .inr h
    · exact absurd h hopen.2
    · exact absurd hp (hfin.2 p)
  · rcases loop_dispatches hs hopen with ⟨bs, u, hbs, hu, hd⟩
    have hinv : Inv u := machine.runFrom_invariant (fun _ _ _ hs ht => inv_step hs ht) hs hu
    have hnodup : u.dispatched.Nodup := by
      have h := hinv.order ▸ hinv.pushes_nodup
      rw [List.append_assoc] at h
      exact h.of_append_left
    exact ⟨bs, u, hbs, hu, fun t ht => List.count_eq_one_of_mem hnodup (hd t ht)⟩

/-- Two producers whose sends coalesce into one callback. -/
def coalescedSends : List Action :=
  [.submit 0 7, .push 0, .submit 1 8, .push 1, .send 1, .send 0, .onAsync, .swap, .dispatch,
    .dispatch]

theorem submit_drain_coalesced :
    ∃ s, machine.run coalescedSends = some s ∧ s.dispatched = [7, 8] ∧
      (s.dispatched ++ s.batch ++ s.queue).Nodup :=
  ⟨_, rfl, rfl, (@submit_drain_exact coalescedSends _ rfl (by decide)).2.1⟩

/-! ## 4. `Stop`: exactly when the loop thread closes with nothing left behind -/

/-- A `Submit` that began under `running_` has not pushed its task. -/
def InFlight (s : State) : Prop := ∃ p t, s.submit p = .entered t ∧ t ∈ s.onTime

/-- No task that began under `running_` is still to be swapped out of `queue_`. -/
def Settled (s : State) : Prop := ¬ InFlight s ∧ ∀ t ∈ s.queue, t ∉ s.onTime

/-- A `Drain` that is past its swap and will find `stopping_`, or has found it. -/
def Closing (s : State) : Prop := s.stopping = true ∧ (s.loop = .dispatching ∨ s.loop = .closed)

/-- The condition on the steps: the swap of a `Drain` that runs under `stopping_` finds every
`Submit` past its push, and `Stop` does not set `stopping_` behind the back of a `Drain` that has
swapped while work is still to come. -/
def QuietStop (s : State) : Action → Prop
  | .swap => s.stopping = true → ¬ InFlight s
  | .stopStore => s.loop = .dispatching → Settled s
  | _ => True

structure StopInv (s : State) : Prop where
  inv : Inv s
  running : s.stop ≠ .idle → s.running = false
  stopping : s.stopping = true → s.stop ≠ .idle
  -- the loop closes on `stopping_` only, which `Stop` sets after it has cleared `running_`
  closed : s.loop = .closed → s.stopping = true

theorem started_cases {s : State} (hs : Inv s) {p : Nat} {t : TaskId} (h : (p, t) ∈ s.started) :
    s.submit p = .entered t ∨ t ∈ s.pushes.map Prod.snd := by
  have hmem : (p, t) ∈ s.started.filter (·.1 = p) := by simpa using h
  rw [hs.producer p, List.mem_append] at hmem
  rcases hmem with h | h
  · exact .inr (List.mem_map.mpr ⟨(p, t), (List.mem_filter.mp h).1, rfl⟩)
  · unfold unpushed at h
    split at h
    case h_1 t' ht' => simp_all
    case h_2 => simp at h

theorem stopInv_step {s u : State} {a : Action} (hs : StopInv s) (h : step s a = some u) :
    StopInv u := by
  have hinv := inv_step hs.inv h
  rcases hs with ⟨_, hrun, hstop, hclosed⟩
  cases step_cases h with
  | submit | push | send | dispatch => exact ⟨hinv, hrun, hstop, hclosed⟩
  | onAsync | swap => exact ⟨hinv, hrun, hstop, by simp⟩
  | testStopping => exact ⟨hinv, hrun, hstop, by simp⟩
  | stopClear => exact ⟨hinv, by simp, by simp, hclosed⟩
  | stopStore hpc => exact ⟨hinv, fun _ => hrun (by simp [hpc]), by simp, by simp⟩
  | stopSend hpc => exact ⟨hinv, fun _ => hrun (by simp [hpc]), by simp, hclosed⟩
  | stopJoin hpc => exact ⟨hinv, fun _ => hrun (by simp [hpc]), by simp, hclosed⟩

/-- Once `running_` is cleared no new task is on time. -/
theorem settled_submit {s u : State} {p : Nat} {t : TaskId} (hs : Inv s)
    (hrun : s.running = false) (h : step s (.submit p t) = some u) : Settled u ↔ Settled s := by
  cases step_cases h with
  | submit hidle hfresh =>
    have hlate : t ∉ s.onTime := fun ht => hfresh (hs.onTime t ht)
    have hflight : ∀ q t', t' ∈ s.onTime →
        (Function.update s.submit p (.entered t) q = .entered t' ↔ s.submit q = .entered t') := by
      intro q t' hon
      by_cases hqp : q = p
      · subst hqp
        have htt : t ≠ t' := fun e => hlate (e ▸ hon)
        simp [hidle, htt]
      · rw [Function.update_of_ne hqp]
    simp only [Settled, InFlight, hrun, Bool.false_eq_true, if_false]
    constructor
    · intro hset
      refine ⟨?_, hset.2⟩
      intro hfl
      rcases hfl with ⟨q, t', hq, hon⟩
      exact hset.1 ⟨q, t', (hflight q t' hon).mpr hq, hon⟩
    · intro hset
      refine ⟨?_, hset.2⟩
      intro hfl
      rcases hfl with ⟨q, t', hq, hon⟩
      exact hset.1 ⟨q, t', (hflight q t' hon).mp hq, hon⟩

theorem settled_push {s u : State} {p : Nat} (h : step s (.push p) = some u) :
    Settled u ↔ Settled s := by
  cases step_cases h with
  | @push _ t ht =>
    -- the task moves from its producer into `queue_`, so it is owed before and after
    have hother : ∀ q t', q ≠ p →
        (Function.update s.submit p (.pushed t) q = .entered t' ↔ s.submit q = .entered t') := by
      intro q t' hqp
      rw [Function.update_of_ne hqp]
    constructor
    · intro hset
      refine ⟨?_, fun x hx => hset.2 x (List.mem_append_left _ hx)⟩
      intro hfl
      rcases hfl with ⟨q, t', hq, hon⟩
      by_cases hqp : q = p
      · rw [hqp, ht, SubmitPc.entered.injEq] at hq
        exact hset.2 t' (by simp [hq]) hon
      · exact hset.1 ⟨q, t', (hother q t' hqp).mpr hq, hon⟩
    · intro hset
      refine ⟨?_, ?_⟩
      · intro hfl
        rcases hfl with ⟨q, t', hq, hon⟩
        have hqp : q ≠ p := by
          intro e
          simp [e] at hq
        exact hset.1 ⟨q, t', (hother q t' hqp).mp hq, hon⟩
      · intro x hx
        rcases List.mem_append.mp hx with hx | hx
        · exact hset.2 x hx
        · rw [List.mem_singleton.mp hx]
          exact fun hon => hset.1 ⟨p, t, ht, hon⟩

theorem settled_send {s u : State} {p : Nat} (h : step s (.send p) = some u) :
    Settled u ↔ Settled s := by
  cases step_cases h with
  | send ht =>
    have hfl : ∀ q t', Function.update s.submit p .idle q = .entered t' ↔
        s.submit q = .entered t' := by
      intro q t'
      by_cases hqp : q = p
      · subst hqp
        simp [ht]
      · rw [Function.update_of_ne hqp]
    simp only [Settled, InFlight, asyncSend, hfl]

/-- While the loop is closing, nothing that is owed is dispatched and nothing becomes owed. -/
theorem closing_step {s u : State} {a : Action} (hs : StopInv s) (hc : Closing s)
    (h : step s a = some u) : Closing u ∧ (Settled u ↔ Settled s) := by
  have hrun : s.running = false := hs.running (hs.stopping hc.1)
  have hstop := hc.1
  cases step_cases h with
  | submit => exact ⟨hc, settled_submit hs.inv hrun h⟩
  | push => exact ⟨hc, settled_push h⟩
  | send => exact ⟨hc, settled_send h⟩
  | onAsync hloop => simp [Closing, hloop] at hc
  | swap hloop => simp [Closing, hloop] at hc
  | testStopping => exact ⟨⟨hstop, Or.inr (by simp [hstop])⟩, Iff.rfl⟩
  | stopStore => exact ⟨⟨rfl, hc.2⟩, Iff.rfl⟩
  | dispatch | stopClear | stopSend | stopJoin => exact ⟨hc, Iff.rfl⟩

/-- The loop begins to close at a swap under `stopping_` or at a store behind a swap, and the
condition says that nothing is owed then. -/
theorem quietStop_iff {s u : State} {a : Action} (hs : StopInv s) (hc : ¬ Closing s)
    (h : step s a = some u) :
    (¬ QuietStop s a → Closing u) ∧ (Closing u → (QuietStop s a ↔ Settled u)) := by
  cases step_cases h with
  | swap =>
    refine ⟨fun hq => ⟨?_, Or.inl rfl⟩, fun hcl => ?_⟩
    · simp only [QuietStop, Classical.not_imp] at hq
      exact hq.1
    · have hstop : s.stopping = true := hcl.1
      simp [QuietStop, hstop, Settled, InFlight]
  | stopStore =>
    refine ⟨fun hq => ⟨rfl, Or.inl ?_⟩, fun hcl => ?_⟩
    · simp only [QuietStop, Classical.not_imp] at hq
      exact hq.1
    · have hloop : s.loop = .dispatching := by
        rcases hcl.2 with hl | hl
        · exact hl
        · exact absurd ⟨hs.closed hl, Or.inr hl⟩ hc
      simp [QuietStop, hloop, Settled, InFlight]
  -- the other steps do not make the loop close, and the condition leaves them alone
  | testStopping hloop =>
    exact ⟨fun hq => absurd trivial hq, fun hcl => absurd ⟨hcl.1, Or.inl hloop⟩ hc⟩
  | onAsync => exact ⟨fun hq => absurd trivial hq, fun hcl => by simpa [Closing] using hcl.2⟩
  | submit | push | send | dispatch | stopClear | stopSend | stopJoin =>
    exact ⟨fun hq => absurd trivial hq, fun hcl => absurd hcl hc⟩

/-- At the close, what began under `running_` is dispatched exactly when nothing is owed. -/
theorem dispatched_iff_settled {s : State} (hs : StopInv s) (hclosed : s.loop = .closed) :
    (∀ t ∈ s.onTime, t ∈ s.dispatched) ↔ Settled s := by
  have hbatch := hs.inv.batch (by simp [hclosed])
  have horder := hs.inv.order
  simp only [hbatch, List.append_nil] at horder
  have hnodup : (s.dispatched ++ s.queue).Nodup := horder ▸ hs.inv.pushes_nodup
  constructor
  · intro h
    refine ⟨?_, fun t ht hon => (List.nodup_append.mp hnodup).2.2 t (h t hon) t ht rfl⟩
    intro hfl
    rcases hfl with ⟨p, t, hp, hon⟩
    apply (hs.inv.entered p t hp).2
    rw [horder]
    exact List.mem_append_left _ (h t hon)
  · intro hset t hon
    rcases hset with ⟨hfl, hq⟩
    rcases List.mem_map.mp (hs.inv.onTime t hon) with ⟨⟨p, t'⟩, hstart, rfl⟩
    rcases started_cases hs.inv hstart with h | h
    · exact absurd ⟨p, t', h, hon⟩ hfl
    · rw [horder, List.mem_append] at h
      rcases h with h | h
      · exact h
      · exact absurd hon (hq t' h)

/-- **When `Stop` drains.**  In a schedule that ends with `async_` closed, every task whose
`Submit` began under `running_` has been dispatched if and only if every step met `QuietStop`. -/
theorem stop_drains_iff {as : List Action} {s : State} (hrun : machine.run as = some s)
    (hclosed : s.loop = .closed) :
    (∀ t ∈ s.onTime, t ∈ s.dispatched) ↔ machine.Meets QuietStop machine.init as := by
  have hinit : StopInv machine.init ∧ (Closing machine.init → Settled machine.init) := by
    constructor
    · exact ⟨inv_init, by simp [machine], by simp [machine], by simp [machine]⟩
    · simp [machine, Closing]
  have hkeep : ∀ s a t, (StopInv s ∧ (Closing s → Settled s)) → QuietStop s a →
      machine.step s a = some t → StopInv t ∧ (Closing t → Settled t) := by
    intro s a t hst hC ht
    rcases hst with ⟨hs, hq⟩
    refine ⟨stopInv_step hs ht, fun hcl => ?_⟩
    by_cases hc : Closing s
    · exact (closing_step hs hc ht).2.mpr (hq hc)
    · exact ((quietStop_iff hs hc ht).2 hcl).mp hC
  have hend : StopInv s := machine.runFrom_invariant (fun _ _ _ h ht => stopInv_step h ht)
    hinit.1 hrun
  rw [dispatched_iff_settled hend hclosed]
  constructor
  · intro hsettled
    refine Machine.meets_of_unmarked (B := fun s => StopInv s ∧ Closing s ∧ ¬ Settled s) hkeep
      ?_ ?_ hinit hrun (fun h => h.2.2 hsettled)
    · intro s a t hst hC ht
      rcases hst with ⟨hs, hq⟩
      have hc : ¬ Closing s := by
        intro hc
        apply hC
        cases step_cases ht with
        | swap hloop => simp [Closing, hloop] at hc
        | stopStore => exact fun _ => hq hc
        | _ => trivial
      have hcl := (quietStop_iff hs hc ht).1 hC
      exact ⟨stopInv_step hs ht, hcl, fun h => hC (((quietStop_iff hs hc ht).2 hcl).mpr h)⟩
    · intro s a t hst ht
      rcases hst with ⟨hs, hc, hq⟩
      have h := closing_step hs hc ht
      exact ⟨stopInv_step hs ht, h.1, fun hset => hq (h.2.mp hset)⟩
  · intro hmeets
    have h := (hmeets.always hkeep hinit).last hrun
    exact h.2 ⟨hend.closed hclosed, .inr hclosed⟩

def drainedStop : List Action :=
  [.submit 0 7, .push 0, .send 0, .stopClear, .stopStore, .stopSend, .onAsync, .swap, .dispatch,
    .testStopping, .stopJoin]

theorem stop_drains_drainedStop : machine.Meets QuietStop machine.init drainedStop :=
  (@stop_drains_iff drainedStop _ rfl rfl).mp (by decide)

/-- A `Submit` that has returned before `Stop` is called, on the back of a `Drain` that has
already swapped. -/
def swappedTooEarly : List Action :=
  [.submit 1 8, .push 1, .send 1, .onAsync, .swap, .dispatch, .submit 0 7, .push 0, .send 0,
    .stopClear, .stopStore, .testStopping]

/-- `Stop` does not drain: the loop thread closes `async_` over a task whose `Submit` had
returned before `Stop` began. -/
theorem stop_leaves_task :
    ∃ s, machine.run swappedTooEarly = some s ∧ s.loop = .closed ∧ s.queue = [7] ∧
      ¬ ∀ t ∈ s.onTime, t ∈ s.dispatched :=
  ⟨_, rfl, rfl, rfl, by decide⟩

end ChezAsync.Submit
