import Mathlib.Logic.Function.Basic
import Mathlib.Data.List.Nodup
import Mathlib.Tactic.Common
import ChezAsync.Lib.Machine
import ChezAsync.Runtime.Task

/-!
# The completion hand-off (`task.hpp`, `rt_ffi.cpp`)

`Task::Complete` on the loop thread against `rt_await`, `rt_task_free` and the completion-queue
calls on the Scheme side.  `cq t` is the queue the task was submitted with, if any.  A task is freed
only after an `rt_await` on it has returned or its handle was popped from its queue; the model
records every use of a freed task instead of giving it a meaning.
-/

namespace ChezAsync.Handoff

/-! ## 1. The machine -/

/-- How far `t->Complete(r)` has come. -/
inductive CompletePc
  | idle
  /-- After `CompletionQueue* q = cq`. -/
  | cached
  /-- After the critical section that sets `result` and `done_`. -/
  | signalled
  /-- After `cv_.notify_one()`. -/
  | notified
  /-- After `q->Post(this)`. -/
  | posted
  | finished
  deriving DecidableEq

structure State where
  /-- The task whose `Complete` the loop thread is in. -/
  active : Option TaskId
  pc : TaskId → CompletePc
  result : TaskId → Int
  done : TaskId → Bool
  queue : Nat → List TaskId
  /-- What an `rt_await` on the task has returned. -/
  awaited : TaskId → Option Int
  popped : TaskId → Bool
  freed : TaskId → Bool
  -- The record of the run: uses of a freed task by `Complete`, freed handles that were popped.
  misused : List TaskId
  staleReturns : List TaskId

inductive Action
  | cache (t : TaskId)
  | signal (t : TaskId) (r : Int)
  | notify (t : TaskId)
  | post (t : TaskId)
  | release (t : TaskId)
  | await (t : TaskId)
  | free (t : TaskId)
  | pop (q : Nat)
  deriving DecidableEq

/-- The task `t` is touched: a record of such touches grows if it has been freed. -/
def touch (s : State) (t : TaskId) (record : List TaskId) : List TaskId :=
  if s.freed t then record ++ [t] else record

theorem touch_of_live {s : State} {t : TaskId} (h : s.freed t = false) (l : List TaskId) :
    touch s t l = l := by
  simp [touch, h]

theorem touch_of_freed {s : State} {t : TaskId} (h : s.freed t = true) (l : List TaskId) :
    touch s t l ≠ [] := by
  simp [touch, h]

theorem touch_ne_nil {s : State} {t : TaskId} {l : List TaskId} (h : l ≠ []) :
    touch s t l ≠ [] := by
  simp only [touch]
  split
  · exact List.append_ne_nil_of_left_ne_nil h [t]
  · exact h

section
variable (cq : TaskId → Option Nat)

def step (s : State) : Action → Option State
  | .cache t =>
      if s.active = none ∧ s.pc t = .idle then
        some { s with
          active := some t, pc := Function.update s.pc t .cached, misused := touch s t s.misused }
      else none
  | .signal t r =>
      if s.pc t = .cached then
        some { s with
          pc := Function.update s.pc t .signalled
          result := Function.update s.result t r
          done := Function.update s.done t true
          misused := touch s t s.misused }
      else none
  | .notify t =>
      if s.pc t = .signalled then
        some { s with pc := Function.update s.pc t .notified, misused := touch s t s.misused }
      else none
  -- `Post` stores the pointer, it does not follow it.
  | .post t =>
      match cq t with
      | some q =>
          if s.pc t = .notified then
            some { s with
              pc := Function.update s.pc t .posted
              queue := Function.update s.queue q (s.queue q ++ [t]) }
          else none
      | none => none
  -- The end of `Complete`: after `q->Release()`, or at once for a task without a queue.
  | .release t =>
      if s.pc t = (if (cq t).isSome then .posted else .notified) then
        some { s with active := none, pc := Function.update s.pc t .finished }
      else none
  | .await t =>
      if s.done t = true ∧ s.freed t = false then
        some { s with awaited := Function.update s.awaited t (some (s.result t)) }
      else none
  | .free t =>
      if s.freed t = false ∧ ((s.awaited t).isSome ∨ s.popped t = true) then
        some { s with freed := Function.update s.freed t true }
      else none
  -- `WaitOne`, and `TryPop` on a queue that is not empty.
  | .pop q =>
      match s.queue q with
      | t :: ts =>
          some { s with
            queue := Function.update s.queue q ts
            popped := Function.update s.popped t true
            staleReturns := touch s t s.staleReturns }
      | [] => none

def machine : Machine State Action where
  init :=
    { active := none, pc := fun _ => .idle, result := fun _ => 0, done := fun _ => false
      queue := fun _ => [], awaited := fun _ => none, popped := fun _ => false
      freed := fun _ => false, misused := [], staleReturns := [] }
  step := step cq

/-- The steps, each with its guard. -/
inductive Step (s : State) : Action → State → Prop
  | cache {t : TaskId} (hidle : s.active = none) (hpc : s.pc t = .idle) :
      Step s (.cache t)
        { s with
          active := some t, pc := Function.update s.pc t .cached, misused := touch s t s.misused }
  | signal {t : TaskId} (r : Int) (hpc : s.pc t = .cached) :
      Step s (.signal t r)
        { s with
          pc := Function.update s.pc t .signalled
          result := Function.update s.result t r
          done := Function.update s.done t true
          misused := touch s t s.misused }
  | notify {t : TaskId} (hpc : s.pc t = .signalled) :
      Step s (.notify t)
        { s with pc := Function.update s.pc t .notified, misused := touch s t s.misused }
  | post {t : TaskId} {q : Nat} (hcq : cq t = some q) (hpc : s.pc t = .notified) :
      Step s (.post t)
        { s with
          pc := Function.update s.pc t .posted
          queue := Function.update s.queue q (s.queue q ++ [t]) }
  | release {t : TaskId} (hpc : s.pc t = (if (cq t).isSome then .posted else .notified)) :
      Step s (.release t) { s with active := none, pc := Function.update s.pc t .finished }
  | await {t : TaskId} (hdone : s.done t = true) (hlive : s.freed t = false) :
      Step s (.await t) { s with awaited := Function.update s.awaited t (some (s.result t)) }
  | free {t : TaskId} (hlive : s.freed t = false)
      (hret : (s.awaited t).isSome ∨ s.popped t = true) :
      Step s (.free t) { s with freed := Function.update s.freed t true }
  | pop {q : Nat} {t : TaskId} {ts : List TaskId} (hq : s.queue q = t :: ts) :
      Step s (.pop q)
        { s with
          queue := Function.update s.queue q ts
          popped := Function.update s.popped t true
          staleReturns := touch s t s.staleReturns }

variable {cq} in
theorem step_cases {s u : State} {a : Action} (h : step cq s a = some u) : Step cq s a u := by
  cases a with
  | cache t =>
    simp only [step, Option.ite_none_right_eq_some] at h
    exact Option.some.inj h.2 ▸ Step.cache h.1.1 h.1.2
  | signal t r =>
    simp only [step, Option.ite_none_right_eq_some] at h
    exact Option.some.inj h.2 ▸ Step.signal r h.1
  | notify t =>
    simp only [step, Option.ite_none_right_eq_some] at h
    exact Option.some.inj h.2 ▸ Step.notify h.1
  | post t =>
    simp only [step] at h
    split at h
    case h_1 q hcq =>
      rw [Option.ite_none_right_eq_some] at h
      exact Option.some.inj h.2 ▸ Step.post hcq h.1
    case h_2 => cases h
  | release t =>
    simp only [step, Option.ite_none_right_eq_some] at h
    exact Option.some.inj h.2 ▸ Step.release h.1
  | await t =>
    simp only [step, Option.ite_none_right_eq_some] at h
    exact Option.some.inj h.2 ▸ Step.await h.1.1 h.1.2
  | free t =>
    simp only [step, Option.ite_none_right_eq_some] at h
    exact Option.some.inj h.2 ▸ Step.free h.1.1 h.1.2
  | pop q =>
    simp only [step] at h
    split at h
    case h_1 t ts hq => exact Option.some.inj h ▸ Step.pop hq
    case h_2 => cases h

/-! ## 2. Safety and the condition on the frees -/

/-- No step of `Complete` has used a freed task, and no queue holds or has returned one. -/
def HandoffSafe (s : State) : Prop :=
  s.misused = [] ∧ s.staleReturns = [] ∧ ∀ q, ∀ t ∈ s.queue q, s.freed t = false

/-- The condition on the steps: a task with a queue is freed after its handle was popped, a task
without one after `Complete` has notified its condition variable. -/
def FreedLate (s : State) : Action → Prop
  | .free t =>
      if (cq t).isSome then s.popped t = true else s.pc t = .notified ∨ s.pc t = .finished
  | _ => True

instance (s : State) (a : Action) : Decidable (FreedLate cq s a) := by
  cases a <;> unfold FreedLate <;> infer_instance

/-- What holds in every run, whenever the tasks are freed. -/
structure Inv (s : State) : Prop where
  -- the loop thread is in one `Complete` at a time
  active : ∀ t, s.pc t ≠ .idle → s.pc t ≠ .finished → s.active = some t
  done : ∀ t, s.done t = true → s.pc t ≠ .idle ∧ s.pc t ≠ .cached
  -- an `rt_await` returns on `done_` alone, whether or not the task has been notified and posted
  awaited : ∀ t, (s.awaited t).isSome → s.done t = true
  posted : ∀ t, s.pc t = .posted → (cq t).isSome
  -- a handle is in the queue it was submitted with, from its post to its pop
  queue : ∀ q, ∀ t ∈ s.queue q,
    cq t = some q ∧ (s.pc t = .posted ∨ s.pc t = .finished) ∧ s.popped t = false
  nodup : ∀ q, (s.queue q).Nodup
  popped : ∀ t, s.popped t = true → (cq t).isSome ∧ (s.pc t = .posted ∨ s.pc t = .finished)
  unpopped : ∀ t q, cq t = some q → (s.pc t = .posted ∨ s.pc t = .finished) →
    s.popped t = false → t ∈ s.queue q

theorem inv_init : Inv cq (machine cq).init := by
  refine ⟨?_, ?_, ?_, ?_, ?_, ?_, ?_, ?_⟩ <;> simp [machine]

variable {cq}

/-- A move of `Complete` that takes no task with a queue past its post. -/
theorem inv_move {s : State} {active : Option TaskId} {pc : TaskId → CompletePc} (hs : Inv cq s)
    (hact : ∀ t, pc t ≠ .idle → pc t ≠ .finished → active = some t)
    (hdone : ∀ t, s.done t = true → pc t ≠ .idle ∧ pc t ≠ .cached)
    (hpost : ∀ t, pc t = .posted → (cq t).isSome)
    (hpast : ∀ t, (cq t).isSome →
      (pc t = .posted ∨ pc t = .finished ↔ s.pc t = .posted ∨ s.pc t = .finished)) :
    Inv cq { s with active, pc } := by
  refine ⟨hact, hdone, hs.awaited, hpost, ?_, hs.nodup, ?_, ?_⟩
  · intro q t ht
    have hold := hs.queue q t ht
    exact ⟨hold.1, (hpast t (by simp [hold.1])).mpr hold.2.1, hold.2.2⟩
  · intro t ht
    have hold := hs.popped t ht
    exact ⟨hold.1, (hpast t hold.1).mpr hold.2⟩
  · intro t q hcq ht hp
    exact hs.unpopped t q hcq ((hpast t (by simp [hcq])).mp ht) hp

/-- A move of `Complete` before its post, `c` being where it arrives. -/
theorem inv_advance {s : State} {t : TaskId} {c : CompletePc} (hs : Inv cq s)
    (hpc : s.pc t = .idle ∧ s.active = none ∨ s.pc t = .cached ∨ s.pc t = .signalled)
    (hc : c = .cached ∧ s.pc t = .idle ∨ c = .signalled ∨ c = .notified) :
    Inv cq { s with active := some t, pc := Function.update s.pc t c } := by
  have hother : ∀ t', t' ≠ t → s.pc t' ≠ .idle → s.pc t' ≠ .finished → False := by
    intro t' ht h1 h2
    have h := hs.active t' h1 h2
    rcases hpc with ⟨_, hnone⟩ | hpc | hpc
    · rw [hnone] at h
      cases h
    · rw [hs.active t (by simp [hpc]) (by simp [hpc])] at h
      exact ht (Option.some.inj h).symm
    · rw [hs.active t (by simp [hpc]) (by simp [hpc])] at h
      exact ht (Option.some.inj h).symm
  have hbefore : ¬ (s.pc t = .posted ∨ s.pc t = .finished) := by
    rcases hpc with ⟨h, _⟩ | h | h <;> simp [h]
  have hafter : ¬ (c = .posted ∨ c = .finished) := by
    rcases hc with ⟨h, _⟩ | h | h <;> simp [h]
  apply inv_move hs
  · intro t' h1 h2
    by_cases ht : t' = t
    · exact congrArg some ht.symm
    · rw [Function.update_of_ne ht] at h1 h2
      exact (hother t' ht h1 h2).elim
  · intro t' hd
    have hold := hs.done t' hd
    by_cases ht : t' = t
    · subst ht
      rw [Function.update_self]
      rcases hc with ⟨_, h⟩ | h | h
      · exact absurd h hold.1
      · simp [h]
      · simp [h]
    · rw [Function.update_of_ne ht]
      exact hold
  · intro t' hp
    by_cases ht : t' = t
    · rw [ht, Function.update_self] at hp
      exact absurd (Or.inl hp) hafter
    · rw [Function.update_of_ne ht] at hp
      exact hs.posted t' hp
  · intro t' _
    by_cases ht : t' = t
    · rw [ht, Function.update_self]
      exact iff_of_false hafter hbefore
    · rw [Function.update_of_ne ht]

/-- A post puts the handle into its own queue and leaves the other queues. -/
theorem mem_posted {queue : Nat → List TaskId} {q q' : Nat} {t t' : TaskId} :
    t' ∈ Function.update queue q (queue q ++ [t]) q' ↔ t' ∈ queue q' ∨ (q' = q ∧ t' = t) := by
  by_cases hqq : q' = q
  · rw [hqq, Function.update_self, List.mem_append, List.mem_singleton, and_iff_right rfl]
  · rw [Function.update_of_ne hqq, or_iff_left fun h => hqq h.1]

theorem inv_post {s : State} {t : TaskId} {q : Nat} (hs : Inv cq s) (hcq : cq t = some q)
    (hpc : s.pc t = .notified) :
    Inv cq { s with
      pc := Function.update s.pc t .posted
      queue := Function.update s.queue q (s.queue q ++ [t]) } := by
  have hbefore : ¬ (s.pc t = .posted ∨ s.pc t = .finished) := by simp [hpc]
  have hnew : ∀ q', t ∉ s.queue q' := fun q' h => hbefore (hs.queue q' t h).2.1
  have hunpopped : s.popped t = false :=
    Bool.eq_false_iff.mpr fun h => hbefore (hs.popped t h).2
  have hlive : s.active = some t := hs.active t (by simp [hpc]) (by simp [hpc])
  refine ⟨?_, ?_, hs.awaited, ?_, ?_, ?_, ?_, ?_⟩ <;> dsimp only
  · intro t' h1 h2
    by_cases ht : t' = t
    · rw [ht]
      exact hlive
    · rw [Function.update_of_ne ht] at h1 h2
      exact hs.active t' h1 h2
  · intro t' hd
    by_cases ht : t' = t
    · rw [ht, Function.update_self]
      simp
    · rw [Function.update_of_ne ht]
      exact hs.done t' hd
  · intro t' hp
    by_cases ht : t' = t
    · simp [ht, hcq]
    · rw [Function.update_of_ne ht] at hp
      exact hs.posted t' hp
  · intro q' t' ht'
    rcases mem_posted.mp ht' with hold | ⟨rfl, rfl⟩
    · -- the others stand where they stood
      have hne : t' ≠ t := fun heq => hnew q' (heq ▸ hold)
      rw [Function.update_of_ne hne]
      exact hs.queue q' t' hold
    · rw [Function.update_self]
      exact ⟨hcq, Or.inl rfl, hunpopped⟩
  · intro q'
    by_cases hqq : q' = q
    · subst hqq
      rw [Function.update_self, ← List.concat_eq_append]
      exact (hs.nodup q').concat (hnew q')
    · rw [Function.update_of_ne hqq]
      exact hs.nodup q'
  · intro t' hp
    have hold := hs.popped t' hp
    have hne : t' ≠ t := by
      rintro rfl
      exact hbefore hold.2
    rw [Function.update_of_ne hne]
    exact hold
  · intro t' q' hcq' hp hpop
    by_cases ht : t' = t
    · have hqq : q' = q := Option.some.inj (hcq'.symm.trans (ht ▸ hcq))
      exact mem_posted.mpr (Or.inr ⟨hqq, ht⟩)
    · rw [Function.update_of_ne ht] at hp
      exact mem_posted.mpr (Or.inl (hs.unpopped t' q' hcq' hp hpop))

theorem inv_release {s : State} {t : TaskId} (hs : Inv cq s)
    (hpc : s.pc t = (if (cq t).isSome then .posted else .notified)) :
    Inv cq { s with active := none, pc := Function.update s.pc t .finished } := by
  have hlive : s.active = some t := by
    refine hs.active t ?_ ?_ <;> rw [hpc] <;> split <;> simp
  apply inv_move hs
  · intro t' h1 h2
    by_cases ht : t' = t
    · rw [ht, Function.update_self] at h2
      exact absurd rfl h2
    · rw [Function.update_of_ne ht] at h1 h2
      have h := hs.active t' h1 h2
      rw [hlive] at h
      exact absurd (Option.some.inj h).symm ht
  · intro t' hd
    by_cases ht : t' = t
    · rw [ht, Function.update_self]
      simp
    · rw [Function.update_of_ne ht]
      exact hs.done t' hd
  · intro t' hp
    by_cases ht : t' = t
    · rw [ht, Function.update_self] at hp
      cases hp
    · rw [Function.update_of_ne ht] at hp
      exact hs.posted t' hp
  · intro t' hcq
    by_cases ht : t' = t
    · -- a task with a queue is past its post already
      subst ht
      rw [if_pos hcq] at hpc
      simp [hpc]
    · rw [Function.update_of_ne ht]

theorem inv_pop {s : State} {q : Nat} {t : TaskId} {ts : List TaskId} (hs : Inv cq s)
    (hqt : s.queue q = t :: ts) :
    Inv cq { s with
      queue := Function.update s.queue q ts, popped := Function.update s.popped t true } := by
  have hfront := hs.queue q t (by rw [hqt]; exact List.mem_cons_self)
  have hndq := hs.nodup q
  rw [hqt, List.nodup_cons] at hndq
  refine ⟨hs.active, hs.done, hs.awaited, hs.posted, ?_, ?_, ?_, ?_⟩ <;> dsimp only
  · intro q' t' ht'
    have hmem : t' ∈ s.queue q' := by
      by_cases hqq : q' = q
      · rw [hqq, Function.update_self] at ht'
        rw [hqq, hqt]
        exact List.mem_cons_of_mem t ht'
      · rw [Function.update_of_ne hqq] at ht'
        exact ht'
    have hold := hs.queue q' t' hmem
    -- the popped handle was in `q` only, and there once
    have hne : t' ≠ t := by
      rintro rfl
      have hqq : q' = q := Option.some.inj (hold.1.symm.trans hfront.1)
      rw [hqq, Function.update_self] at ht'
      exact hndq.1 ht'
    rw [Function.update_of_ne hne]
    exact hold
  · intro q'
    by_cases hqq : q' = q
    · rw [hqq, Function.update_self]
      exact hndq.2
    · rw [Function.update_of_ne hqq]
      exact hs.nodup q'
  · intro t' hp
    by_cases ht : t' = t
    · rw [ht]
      exact ⟨by simp [hfront.1], hfront.2.1⟩
    · rw [Function.update_of_ne ht] at hp
      exact hs.popped t' hp
  · intro t' q' hcq' hp hpop
    by_cases ht : t' = t
    · rw [ht, Function.update_self] at hpop
      cases hpop
    · rw [Function.update_of_ne ht] at hpop
      have hold := hs.unpopped t' q' hcq' hp hpop
      by_cases hqq : q' = q
      · rw [hqq, hqt] at hold
        rw [hqq, Function.update_self]
        exact (List.mem_cons.mp hold).resolve_left ht
      · rw [Function.update_of_ne hqq]
        exact hold

theorem inv_step {s u : State} {a : Action} (hs : Inv cq s) (h : step cq s a = some u) :
    Inv cq u := by
  cases step_cases h with
  | cache hidle hpc =>
    exact { inv_advance hs (Or.inl ⟨hpc, hidle⟩) (Or.inl ⟨rfl, hpc⟩) with }
  | @signal t r hpc =>
    have hlive := hs.active t (by simp [hpc]) (by simp [hpc])
    have hadv := inv_advance hs (Or.inr (Or.inl hpc)) (Or.inr (Or.inl rfl))
    refine { hadv with active := ?_, done := ?_, awaited := ?_ }
    · rw [hlive]
      exact hadv.active
    · intro t' ht'
      by_cases htt : t' = t
      · subst htt
        simp
      · simp only [Function.update_of_ne htt] at ht' ⊢
        exact hs.done t' ht'
    · intro t' ht'
      have h := hs.awaited t' ht'
      simp only [Function.update_apply, h, ite_self]
  | @notify t hpc =>
    have hlive := hs.active t (by simp [hpc]) (by simp [hpc])
    have hadv := inv_advance hs (Or.inr (Or.inr hpc)) (Or.inr (Or.inr rfl))
    rw [← hlive] at hadv
    exact { hadv with }
  | post hcq hpc => exact inv_post hs hcq hpc
  | release hpc => exact inv_release hs hpc
  | @await t hdone =>
    refine { hs with awaited := ?_ }
    intro t' ht'
    by_cases htt : t' = t
    · rw [htt]
      exact hdone
    · simp only [Function.update_of_ne htt] at ht'
      exact hs.awaited t' ht'
  | free => exact { hs with }
  | pop hqt => exact { inv_pop hs hqt with }

/-! ## 3. Late frees are safe -/

structure SafeInv (cq : TaskId → Option Nat) (s : State) : Prop where
  inv : Inv cq s
  -- the condition on the frees, as it is remembered from them
  popped : ∀ t, s.freed t = true → (cq t).isSome → s.popped t = true
  notified : ∀ t, s.freed t = true → cq t = none → s.pc t = .notified ∨ s.pc t = .finished
  misused : s.misused = []
  stale : s.staleReturns = []

theorem SafeInv.handoffSafe {s : State} (hs : SafeInv cq s) : HandoffSafe s := by
  refine ⟨hs.misused, hs.stale, ?_⟩
  intro q t ht
  have hq := hs.inv.queue q t ht
  rcases hf : s.freed t with _ | _
  · rfl
  · -- a freed task with a queue has been popped, so it is not in the queue
    have hp := hs.popped t hf (by rw [hq.1]; rfl)
    rw [hq.2.2] at hp
    cases hp

/-- A task that `Complete` has not notified yet is not freed. -/
theorem SafeInv.freed_eq_false {s : State} (hs : SafeInv cq s) {t : TaskId}
    (hpc : s.pc t = .idle ∨ s.pc t = .cached ∨ s.pc t = .signalled) : s.freed t = false := by
  rcases hf : s.freed t with _ | _
  · rfl
  · rcases hcq : cq t with _ | q
    · have h := hs.notified t hf hcq
      grind
    · have h := hs.inv.popped t (hs.popped t hf (by rw [hcq]; rfl))
      grind

theorem safeInv_step {s u : State} {a : Action} (hs : SafeInv cq s) (hC : FreedLate cq s a)
    (h : step cq s a = some u) : SafeInv cq u := by
  have hinv := inv_step hs.inv h
  have hlive := fun t => hs.freed_eq_false (t := t)
  rcases hs with ⟨hs, hpopped, hnotified, hmis, hstale⟩
  cases step_cases h with
  | @cache t hidle hpc =>
    refine ⟨hinv, hpopped, ?_, (touch_of_live (hlive t (by simp [hpc])) _).trans hmis, hstale⟩
    grind [Function.update_apply]
  | @signal t r hpc =>
    refine ⟨hinv, hpopped, ?_, (touch_of_live (hlive t (by simp [hpc])) _).trans hmis, hstale⟩
    grind [Function.update_apply]
  | @notify t hpc =>
    refine ⟨hinv, hpopped, ?_, (touch_of_live (hlive t (by simp [hpc])) _).trans hmis, hstale⟩
    grind [Function.update_apply]
  | post hcq hpc =>
    refine ⟨hinv, hpopped, ?_, hmis, hstale⟩
    grind [Function.update_apply]
  | release hpc =>
    refine ⟨hinv, hpopped, ?_, hmis, hstale⟩
    grind [Function.update_apply]
  | await => exact ⟨hinv, hpopped, hnotified, hmis, hstale⟩
  | free hf hret =>
    -- the one action that the condition is about
    simp only [FreedLate] at hC
    refine ⟨hinv, ?_, ?_, hmis, hstale⟩
    · grind [Function.update_apply]
    · grind [Function.update_apply]
  | @pop q t ts hqt =>
    have hq := hs.queue q t (by rw [hqt]; exact List.mem_cons_self)
    have hf : s.freed t = false := by
      rcases hf : s.freed t with _ | _
      · rfl
      · -- freed, it would have been popped already
        grind
    refine ⟨hinv, ?_, hnotified, hmis, (touch_of_live hf _).trans hstale⟩
    grind [Function.update_apply]

/-! ## 4. An early free leaves a mark -/

/-- A freed task that `Complete` is still going to use or to post, or that a queue holds. -/
def ExposedTask (cq : TaskId → Option Nat) (s : State) (t : TaskId) : Prop :=
  s.freed t = true ∧
    (s.pc t = .signalled ∨ s.pc t = .notified ∧ (cq t).isSome ∨ ∃ q, t ∈ s.queue q)

def Exposed (cq : TaskId → Option Nat) (s : State) : Prop :=
  s.misused ≠ [] ∨ s.staleReturns ≠ [] ∨ ∃ t, ExposedTask cq s t

/-- An exposed task stays exposed until a step of `Complete` uses it or a queue returns it. -/
theorem ExposedTask.step {s u : State} {a : Action} {t : TaskId} (ht : ExposedTask cq s t)
    (h : step cq s a = some u) : u.misused ≠ [] ∨ u.staleReturns ≠ [] ∨ ExposedTask cq u t := by
  rcases ht with ⟨hf, hcase⟩
  cases step_cases h with
  | cache => grind [Function.update_apply, ExposedTask]
  | signal => grind [Function.update_apply, ExposedTask]
  | @notify t' hpc =>
    by_cases htt : t' = t
    · subst htt
      exact Or.inl (touch_of_freed hf _)
    · grind [Function.update_apply, ExposedTask]
  | @post t' q hcq hpc =>
    right; right
    refine ⟨hf, ?_⟩
    rcases hcase with hpc' | ⟨hpc', hcq'⟩ | ⟨q', hq'⟩
    · grind [Function.update_apply]
    · by_cases htt : t = t'
      · -- the freed handle goes into the queue
        subst htt
        exact Or.inr (Or.inr ⟨q, by simp⟩)
      · exact Or.inr (Or.inl ⟨by simp [htt, hpc'], hcq'⟩)
    · refine Or.inr (Or.inr ⟨q', ?_⟩)
      grind [Function.update_apply]
  | release => grind [Function.update_apply, ExposedTask]
  | await => exact Or.inr (Or.inr ⟨hf, hcase⟩)
  | free => exact Or.inr (Or.inr ⟨by simp [Function.update_apply, hf], hcase⟩)
  | @pop q t' ts hqt =>
    by_cases htt : t' = t
    · subst htt
      exact Or.inr (Or.inl (touch_of_freed hf _))
    · right; right
      refine ⟨hf, ?_⟩
      rcases hcase with hpc | hpc | ⟨q', hq'⟩
      · exact Or.inl hpc
      · exact Or.inr (Or.inl hpc)
      · refine Or.inr (Or.inr ⟨q', ?_⟩)
        grind [Function.update_apply]

theorem exposed_step {s u : State} {a : Action} (hs : Exposed cq s) (h : step cq s a = some u) :
    Exposed cq u := by
  rcases hs with hm | hr | ⟨t, ht⟩
  · -- the records only grow
    left
    cases step_cases h with
    | cache | signal | notify => exact touch_ne_nil hm
    | post | release | await | free | pop => exact hm
  · right; left
    cases step_cases h with
    | pop => exact touch_ne_nil hr
    | cache | signal | notify | post | release | await | free => exact hr
  · rcases ht.step h with hm | hr | ht
    · exact Or.inl hm
    · exact Or.inr (Or.inl hr)
    · exact Or.inr (Or.inr ⟨t, ht⟩)

theorem exposed_of_early {s u : State} {a : Action} (hs : Inv cq s) (hC : ¬ FreedLate cq s a)
    (h : step cq s a = some u) : Exposed cq u := by
  cases step_cases h with
  | @free t hlive hret =>
    right; right
    refine ⟨t, by simp, ?_⟩
    rcases hs with ⟨hact, hdone, haw, hpost, hq, hnd, hpop, hunpop⟩
    simp only [FreedLate] at hC
    rcases hcq : cq t with _ | q
    · -- no queue: only an `rt_await` can have let the free through, before the notification
      left
      -- `done_` is set, so the task is past `cached`; it is not late, so not yet notified
      cases hpc : s.pc t <;> grind
    · cases hpc : s.pc t <;> grind
  | _ => exact absurd trivial hC

/-- Between two calls of `Complete` an exposed task is in plain sight. -/
theorem not_exposed_of_safe {s : State} (hs : Inv cq s) (hsafe : HandoffSafe s)
    (hidle : s.active = none) : ¬ Exposed cq s := by
  rcases hsafe with ⟨hm, hr, hq⟩
  have hact := hs.active
  intro h
  rcases h with h | h | ⟨t, hf, h | ⟨h, _⟩ | ⟨q, h⟩⟩
  · exact h hm
  · exact h hr
  · have := hact t (by simp [h]) (by simp [h])
    rw [hidle] at this
    cases this
  · have := hact t (by simp [h]) (by simp [h])
    rw [hidle] at this
    cases this
  · rw [hq q t h] at hf
    cases hf

/-- **When the hand-off is safe.**  If every free of a schedule is late, then all along it no step
of `Complete` uses a freed task and no queue holds or returns one; and in a schedule that does not
end inside a `Complete` this is the case only if every free was late. -/
theorem handoff_safe_iff {as : List Action} {s : State} (hrun : (machine cq).run as = some s) :
    ((machine cq).Meets (FreedLate cq) (machine cq).init as →
      (machine cq).Always HandoffSafe (machine cq).init as) ∧
    (s.active = none →
      ((machine cq).Always HandoffSafe (machine cq).init as ↔
        (machine cq).Meets (FreedLate cq) (machine cq).init as)) := by
  have hinit : SafeInv cq (machine cq).init :=
    ⟨inv_init cq, by simp [machine], by simp [machine], rfl, rfl⟩
  have hmeets : (machine cq).Meets (FreedLate cq) (machine cq).init as →
      (machine cq).Always HandoffSafe (machine cq).init as := by
    intro h
    have hall : (machine cq).Always (SafeInv cq) (machine cq).init as :=
      h.always (fun _ _ _ hs hC ht => safeInv_step hs hC ht) hinit
    exact hall.mono fun _ hs => hs.handoffSafe
  refine ⟨hmeets, fun hidle => ⟨fun h => ?_, hmeets⟩⟩
  have hinv : Inv cq s :=
    (machine cq).runFrom_invariant (fun _ _ _ hs ht => inv_step hs ht) (inv_init cq) hrun
  exact Machine.meets_of_unmarked (I := Inv cq) (B := Exposed cq)
    (fun _ _ _ hs _ ht => inv_step hs ht) (fun _ _ _ hs hC ht => exposed_of_early hs hC ht)
    (fun _ _ _ hs ht => exposed_step hs ht) (inv_init cq) hrun
    (not_exposed_of_safe hinv (h.last hrun) hidle)

/-- A blocking waiter that frees its task once `Complete` has notified it, and a queue consumer
that frees another one after the pop. -/
def freedLate : List Action :=
  [.cache 5, .signal 5 0, .await 5, .notify 5, .free 5, .release 5,
    .cache 6, .signal 6 1, .notify 6, .post 6, .release 6, .pop 0, .await 6, .free 6]

/-- Task 5 has no queue, task 6 has queue 0. -/
def onlySixQueued (t : TaskId) : Option Nat := if t = 6 then some 0 else none

theorem handoff_safe_freedLate :
    (machine onlySixQueued).Always HandoffSafe (machine onlySixQueued).init freedLate :=
  (@handoff_safe_iff onlySixQueued freedLate _ rfl).1 (by decide)

/-- A blocking waiter that finds `done_` set, returns and frees the task before the loop thread
notifies it and posts it. -/
def freedAtOnce : List Action :=
  [.cache 5, .signal 5 0, .await 5, .free 5, .notify 5, .post 5, .release 5]

/-- `Complete` notifies through the freed task and posts its handle. -/
theorem handoff_unsafe :
    ∃ s, (machine fun _ => some 0).run freedAtOnce = some s ∧ s.misused = [5] ∧
      s.queue 0 = [5] ∧ s.freed 5 = true ∧ ¬ HandoffSafe s :=
  ⟨_, rfl, rfl, rfl, rfl, fun h => absurd h.1 (by decide)⟩

/-- The same without a queue: the notification alone uses the freed task. -/
example : ∃ s, (machine fun _ => none).run
    [.cache 5, .signal 5 0, .await 5, .free 5, .notify 5] = some s ∧ s.misused = [5] :=
  ⟨_, rfl, rfl⟩

end

end ChezAsync.Handoff
