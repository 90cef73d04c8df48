import Mathlib.Tactic.Common
import ChezAsync.Lib.Machine
import ChezAsync.Runtime.Submit

/-!
# The queue across restarts (`runtime.cpp`)

`queue_` belongs to the runtime and not to an epoch: a task that a `Stop` has left there is still
there when `Start` is called again.  `Start` makes a new `async_`, on which nobody has called
`uv_async_send`.  The submitting threads go on through a restart, each from where it is.
-/

namespace ChezAsync.Restarts

open Submit (Finished asyncSend)

/-! ## 1. The machine -/

structure State where
  rt : Submit.State
  /-- `uv_async_send` has been called since the last `Start`. -/
  rung : Bool
  -- The record of the run: what `queue_` held when `Start` was last called.
  left : List TaskId

inductive Action
  /-- `Runtime::Start`, behind a `Stop` that has returned. -/
  | start
  | rt (a : Submit.Action)
  deriving DecidableEq

/-- `Runtime::Start`, as far as it is about the queue. -/
def start (s : State) : State :=
  { rt := { s.rt with
      running := true, stopping := false, wakeup := false, loop := .polling, stop := .idle }
    rung := false, left := s.rt.queue }

def rings : Submit.Action → Bool
  | .send _ | .stopSend => true
  | _ => false

def step (s : State) : Action → Option State
  | .start => if s.rt.stop = .joined then some (start s) else none
  | .rt a => (Submit.step s.rt a).map fun rt => { s with rt, rung := s.rung || rings a }

/-- The runtime right after its first `Start`. -/
def machine : Machine State Action where
  init := { rt := Submit.machine.init, rung := false, left := [] }
  step := step

def IsLoop : Action → Prop
  | .start => False
  | .rt a => a.isLoop = true

/-! ## 2. The invariant -/

/-- As if `Start` had called `uv_async_send` itself. -/
def primed (s : State) : Submit.State :=
  if s.rung then s.rt else { s.rt with wakeup := true }

structure Inv (s : State) : Prop where
  stop : Submit.StopInv (primed s)
  joined : s.rt.stop = .joined → s.rt.loop = .closed
  -- until somebody sends, the loop thread sleeps
  asleep : s.rung = false → s.rt.loop = .polling ∧ s.rt.wakeup = false
  -- the first swap of the epoch takes what was left
  left : ∀ t ∈ s.left, t ∈ s.rt.dispatched ∨ t ∈ s.rt.batch ∨
    (t ∈ s.rt.queue ∧ (s.rt.loop = .polling ∨ s.rt.loop = .draining))

section
variable {s u : State}

theorem primed_of_rung (h : s.rung = true) : primed s = s.rt := by
  simp [primed, h]

theorem primed_of_not_rung (h : s.rung = false) : primed s = { s.rt with wakeup := true } := by
  simp [primed, h]

-- The two differ in the wake-up only.
theorem Inv.submit (hs : Inv s) : ∃ wakeup, Submit.Inv { s.rt with wakeup } := by
  have h := hs.stop.inv
  unfold primed at h
  split at h
  · exact ⟨s.rt.wakeup, h⟩
  · exact ⟨true, h⟩

theorem Inv.batch (hs : Inv s) (hloop : s.rt.loop ≠ .dispatching) : s.rt.batch = [] := by
  obtain ⟨_, hinv⟩ := hs.submit
  exact hinv.batch hloop

theorem inv_init : Inv machine.init := by
  refine ⟨⟨?_, ?_, ?_, ?_⟩, ?_, ?_, ?_⟩
  · rw [primed_of_not_rung rfl]
    exact { Submit.inv_init with wake := fun _ _ => .inl rfl }
  all_goals simp [machine, primed, Submit.machine]

/-- Behind a `Stop` somebody has sent, for the loop thread has run. -/
theorem Inv.rung_of_closed (hs : Inv s) (hclosed : s.rt.loop = .closed) : s.rung = true := by
  by_contra hrung
  have hpolling := (hs.asleep (Bool.eq_false_iff.mpr hrung)).1
  rw [hclosed] at hpolling
  cases hpolling

theorem inv_start (hs : Inv s) (hjoin : s.rt.stop = .joined) : Inv (start s) := by
  have hclosed := hs.joined hjoin
  have hinv : Submit.Inv s.rt := by
    rw [← primed_of_rung (hs.rung_of_closed hclosed)]
    exact hs.stop.inv
  have hbatch := hinv.batch (by simp [hclosed])
  refine ⟨?_, (fun h => by cases h), fun _ => ⟨rfl, rfl⟩, fun t ht => .inr (.inr ⟨ht, .inl rfl⟩)⟩
  rw [primed_of_not_rung rfl]
  exact
    { inv := { hinv with batch := fun _ => hbatch, wake := fun _ _ => .inl rfl }
      running := fun h => absurd rfl h
      stopping := fun h => by cases h
      closed := fun h => by cases h }

/-- What was left goes the way from the queue to `Dispatch`. -/
theorem left_step {a : Submit.Action} {rt : Submit.State} (hs : Inv s)
    (h : Submit.step s.rt a = some rt) :
    ∀ t ∈ s.left, t ∈ rt.dispatched ∨ t ∈ rt.batch ∨
      (t ∈ rt.queue ∧ (rt.loop = .polling ∨ rt.loop = .draining)) := by
  intro t ht
  have hleft := hs.left t ht
  cases Submit.step_cases h with
  | submit | send | stopClear | stopStore | stopSend | stopJoin => exact hleft
  | push =>
    rcases hleft with h | h | ⟨h, hloop⟩
    · exact .inl h
    · exact .inr (.inl h)
    · exact .inr (.inr ⟨List.mem_append_left _ h, hloop⟩)
  | onAsync hloop =>
    rcases hleft with h | h | ⟨h, -⟩
    · exact .inl h
    · exact .inr (.inl h)
    · exact .inr (.inr ⟨h, .inr rfl⟩)
  | swap hloop =>
    rcases hleft with h | h | ⟨h, -⟩
    · exact .inl h
    · rw [hs.batch (by simp [hloop])] at h
      cases h
    · exact .inr (.inl h)
  | dispatch hloop hbatch =>
    rw [hbatch] at hleft
    rcases hleft with h | h | ⟨-, h | h⟩
    · exact .inl (List.mem_append_left _ h)
    · rcases List.mem_cons.mp h with rfl | h
      · exact .inl (by simp)
      · exact .inr (.inl h)
    · rw [hloop] at h
      cases h
    · rw [hloop] at h
      cases h
  | testStopping hloop hbatch =>
    rw [hbatch] at hleft
    rcases hleft with h | h | ⟨-, h | h⟩
    · exact .inl h
    · cases h
    · rw [hloop] at h
      cases h
    · rw [hloop] at h
      cases h

/-- Until somebody sends, the loop thread can do nothing. -/
theorem Inv.no_loop (hs : Inv s) (hrung : s.rung = false) {a : Submit.Action}
    (ha : a.isLoop = true) : Submit.step s.rt a = none := by
  obtain ⟨hloop, hwake⟩ := hs.asleep hrung
  cases a with
  | onAsync | swap | testStopping => simp [Submit.step, hloop, hwake]
  | dispatch =>
    simp only [Submit.step]
    split
    case h_1 hdispatching _ =>
      rw [hloop] at hdispatching
      cases hdispatching
    case h_2 => rfl
  | _ => cases ha

/-- A step of the sleeping runtime is one of the primed runtime too. -/
theorem primed_step {a : Submit.Action} {rt : Submit.State} (hs : Inv s) (hrung : s.rung = false)
    (h : Submit.step s.rt a = some rt) :
    Submit.step (primed s) a = some (primed { s with rt, rung := s.rung || rings a }) ∧
      (rings a = false → rt.loop = .polling ∧ rt.wakeup = false) := by
  obtain ⟨hloop, hwake⟩ := hs.asleep hrung
  cases hl : a.isLoop with
  | true =>
    rw [hs.no_loop hrung hl] at h
    cases h
  | false =>
    rw [primed_of_not_rung hrung, hrung]
    cases Submit.step_cases h with
    | submit hidle hfresh => exact ⟨if_pos ⟨hidle, hfresh⟩, fun _ => ⟨hloop, hwake⟩⟩
    | push ht =>
      simp only [Submit.step, ht]
      exact ⟨rfl, fun _ => ⟨hloop, hwake⟩⟩
    | send ht =>
      simp only [Submit.step, ht, primed, asyncSend, hloop, hwake]
      exact ⟨rfl, fun h => by cases h⟩
    | onAsync | swap | dispatch | testStopping => cases hl
    | stopClear hstop hrun => exact ⟨if_pos ⟨hstop, hrun⟩, fun _ => ⟨hloop, hwake⟩⟩
    | stopStore hstop => exact ⟨if_pos hstop, fun _ => ⟨hloop, hwake⟩⟩
    | stopSend hstop =>
      simp only [Submit.step, hstop, primed, asyncSend, hloop, hwake]
      exact ⟨rfl, fun h => by cases h⟩
    | stopJoin _ hclosed =>
      rw [hloop] at hclosed
      cases hclosed

theorem joined_step {a : Submit.Action} {rt : Submit.State} (hs : Inv s)
    (h : Submit.step s.rt a = some rt) : rt.stop = .joined → rt.loop = .closed := by
  intro hjoin
  have hold := hs.joined
  cases Submit.step_cases h with
  | submit | push | send | dispatch => exact hold hjoin
  | onAsync hloop | swap hloop | testStopping hloop =>
    have hclosed := hold hjoin
    rw [hloop] at hclosed
    cases hclosed
  | stopClear | stopStore | stopSend => cases hjoin
  | stopJoin _ hloop => exact hloop

theorem inv_rt {a : Submit.Action} {rt : Submit.State} (hs : Inv s)
    (h : Submit.step s.rt a = some rt) : Inv { s with rt, rung := s.rung || rings a } := by
  have hstop := hs.stop
  have hleft := left_step hs h
  cases hrung : s.rung with
  | true =>
    rw [primed_of_rung hrung] at hstop
    refine ⟨?_, joined_step hs h, (fun h => by cases h), hleft⟩
    rw [primed_of_rung rfl]
    exact Submit.stopInv_step hstop h
  | false =>
    obtain ⟨hstep, hasleep⟩ := primed_step hs hrung h
    rw [hrung] at hstep
    exact ⟨Submit.stopInv_step hstop hstep, joined_step hs h, hasleep, hleft⟩

theorem inv_step {x : Action} (hs : Inv s) (h : step s x = some u) : Inv u := by
  cases x with
  | start =>
    simp only [step, Option.ite_none_right_eq_some, Option.some.injEq] at h
    exact h.2 ▸ inv_start hs h.1
  | rt a =>
    obtain ⟨rt, hrt, rfl⟩ := Option.map_eq_some_iff.mp h
    exact inv_rt hs hrt

theorem inv_reachable (h : machine.Reachable s) : Inv s :=
  h.invariant inv_init fun _ _ _ _ hs ht => inv_step hs ht

/-! ## 3. Nothing is lost across restarts -/

/-- The steps of the loop thread leave the sends to others. -/
theorem runFrom_loop {bs : List Submit.Action} {rt : Submit.State}
    (hbs : ∀ b ∈ bs, b.isLoop = true) (hrun : Submit.machine.runFrom s.rt bs = some rt) :
    machine.runFrom s (bs.map .rt) = some { s with rt } := by
  induction bs generalizing s with
  | nil =>
    cases hrun
    rfl
  | cons b bs ih =>
    obtain ⟨mid, hmid, hrest⟩ := Submit.machine.runFrom_cons.mp hrun
    have hring : (s.rung || rings b) = s.rung := by
      cases b with
      | onAsync | swap | dispatch | testStopping => exact Bool.or_false _
      | _ => cases hbs _ List.mem_cons_self
    have hstep : machine.step s (.rt b) = some { s with rt := mid } := by
      show (Submit.step s.rt b).map _ = _
      rw [show Submit.step s.rt b = some mid from hmid, Option.map_some, hring]
    have htail := @ih { s with rt := mid } (fun c hc => hbs c (List.mem_cons_of_mem b hc)) hrest
    exact machine.runFrom_cons.mpr ⟨_, hstep, htail⟩

/-- While the runtime runs and somebody has sent, the loop thread comes to everything whose `Submit`
has returned. -/
theorem Inv.dispatches (hs : Inv s) (hrun : s.rt.running = true) (hrung : s.rung = true) :
    ∃ bs u, (∀ b ∈ bs, IsLoop b) ∧ machine.runFrom s bs = some u ∧
      ∀ t, Finished s.rt t → u.rt.dispatched.count t = 1 := by
  have hstop := hs.stop
  rw [primed_of_rung hrung] at hstop
  have hopen : Submit.Open s.rt := by
    have hidle : s.rt.stop = .idle := by
      by_contra h
      rw [hstop.running h] at hrun
      cases hrun
    have hnot : s.rt.stopping = false := by
      by_contra h
      exact hstop.stopping (Bool.not_eq_false _ ▸ h) hidle
    refine ⟨hnot, fun hclosed => ?_⟩
    rw [hstop.closed hclosed] at hnot
    cases hnot
  obtain ⟨bs, rt, hbs, hrt, hd⟩ := Submit.loop_dispatches hstop.inv hopen
  have hrunFrom := runFrom_loop hbs hrt
  have hinv : Submit.Inv rt :=
    Submit.machine.runFrom_invariant (fun _ _ _ h ht => Submit.inv_step h ht) hstop.inv hrt
  have hnodup : rt.dispatched.Nodup := by
    have h := hinv.order ▸ hinv.pushes_nodup
    rw [List.append_assoc] at h
    exact h.of_append_left
  refine ⟨bs.map .rt, _, fun b hb => ?_, hrunFrom, fun t ht => ?_⟩
  · obtain ⟨a, ha, rfl⟩ := List.mem_map.mp hb
    exact hbs a ha
  · exact List.count_eq_one_of_mem hnodup (hd t ht)

/-- **Nothing is lost across restarts.**  Over any number of epochs and any interleaving of the
submitting threads with the loop threads and the stops: the pushed tasks are the dispatched ones,
the rest of the batch and the queue, in push order and each once; each producer's pushes are in the
order of its calls; what a `Stop` has left in the queue is dispatched before the next epoch's
`async_` is closed; the loop thread of an epoch can do nothing until somebody sends; and from then
on, while the runtime runs, its own steps dispatch every task whose `Submit` has returned. -/
theorem restarts_lose_nothing (h : machine.Reachable s) :
    s.rt.pushes.map Prod.snd = s.rt.dispatched ++ s.rt.batch ++ s.rt.queue ∧
    (s.rt.dispatched ++ s.rt.batch ++ s.rt.queue).Nodup ∧
    (∀ p, s.rt.pushes.filter (·.1 = p) <+: s.rt.started.filter (·.1 = p)) ∧
    (s.rt.loop = .closed → ∀ t ∈ s.left, t ∈ s.rt.dispatched) ∧
    (s.rung = false → ∀ b, IsLoop b → step s b = none) ∧
    (s.rt.running = true → s.rung = true → ∃ bs u, (∀ b ∈ bs, IsLoop b) ∧
      machine.runFrom s bs = some u ∧ ∀ t, Finished s.rt t → u.rt.dispatched.count t = 1) := by
  have hs := inv_reachable h
  obtain ⟨_, hinv⟩ := hs.submit
  have horder := hinv.order
  have hnodup := hinv.pushes_nodup
  rw [horder] at hnodup
  refine ⟨horder, hnodup, fun p => ?_, fun hclosed t ht => ?_, fun hrung b hb => ?_, hs.dispatches⟩
  · have hproducer := hinv.producer p
    exact ⟨_, hproducer.symm⟩
  · have hbatch := hs.batch (by simp [hclosed])
    rcases hs.left t ht with h | h | ⟨-, h | h⟩
    · exact h
    · rw [hbatch] at h
      cases h
    · rw [hclosed] at h
      cases h
    · rw [hclosed] at h
      cases h
  · cases b with
    | start => cases hb
    | rt a =>
      show (Submit.step s.rt a).map _ = none
      rw [hs.no_loop hrung hb, Option.map_none]

/-- A task that a `Stop` leaves behind is dispatched in the next epoch, ahead of what comes then. -/
def leftBehind : List Action :=
  [.rt (.submit 1 8), .rt (.push 1), .rt (.send 1), .rt .onAsync, .rt .swap, .rt .dispatch,
    .rt (.submit 0 7), .rt (.push 0), .rt (.send 0), .rt .stopClear, .rt .stopStore,
    .rt .testStopping, .rt .stopSend, .rt .stopJoin, .start, .rt (.submit 2 9), .rt (.push 2),
    .rt (.send 2), .rt .onAsync, .rt .swap, .rt .dispatch]

theorem restarts_lose_nothing_leftBehind :
    ∃ s, machine.run leftBehind = some s ∧ s.left = [7] ∧ s.rt.dispatched = [8, 7] ∧
      s.rt.pushes.map Prod.snd = s.rt.dispatched ++ s.rt.batch ++ s.rt.queue :=
  ⟨_, rfl, rfl, rfl, (@restarts_lose_nothing _ ⟨leftBehind, rfl⟩).1⟩

end

end ChezAsync.Restarts
