import Mathlib.Tactic.Common
import ChezAsync.Lib.CondVar
import ChezAsync.Lib.Machine
import ChezAsync.Runtime.Task

/-!
# Delivery through a completion queue (`task.hpp`)

Any number of threads that post to one `CompletionQueue` and any number that take from it.  A
critical section of `m_` is one step; `notify_one` is a step of its own, outside the lock.
-/

namespace ChezAsync.QueueDelivery

abbrev ThreadId := Nat

structure State where
  /-- `q_`. -/
  q : List TaskId
  /-- `cv_`. -/
  cv : CondVar ThreadId
  /-- The threads in `Post` that have pushed and not yet notified. -/
  posting : List ThreadId
  -- The record of the run: the tasks pushed, and the tasks returned with the thread they went to.
  pushed : List TaskId
  returned : List (ThreadId × TaskId)

inductive Action
  /-- `Post`: the push, under the lock. -/
  | push (p : ThreadId) (t : TaskId)
  /-- `Post`: `notify_one`, with the sleeper that it reaches. -/
  | notify (p : ThreadId) (sleeper : Option ThreadId)
  /-- `WaitOne` up to its return or to the first sleep. -/
  | waitOne (c : ThreadId)
  | spurious (c : ThreadId)
  /-- A woken thread has the lock again and tests the predicate. -/
  | resume (c : ThreadId)
  | tryPop (c : ThreadId)
  deriving DecidableEq

/-- `q_.front()`, `q_.pop_front()`, and the task is returned to `c`; or what an empty queue
means. -/
def take (s : State) (c : ThreadId) (ifEmpty : State) : State :=
  match s.q with
  | t :: q => { s with q, returned := s.returned ++ [(c, t)] }
  | [] => ifEmpty

theorem take_cases (s : State) (c : ThreadId) (u : State) :
    s.q = [] ∧ take s c u = u ∨
      ∃ t q, s.q = t :: q ∧ take s c u = { s with q, returned := s.returned ++ [(c, t)] } := by
  unfold take
  split
  case h_1 t q hq => exact Or.inr ⟨t, q, hq, rfl⟩
  case h_2 hq => exact Or.inl ⟨hq, rfl⟩

def step (s : State) : Action → Option State
  | .push p t =>
      if p ∉ s.posting then
        some { s with q := s.q ++ [t], posting := p :: s.posting, pushed := s.pushed ++ [t] }
      else none
  | .notify p sleeper =>
      if p ∈ s.posting then
        match sleeper with
        | some c =>
            if c ∈ s.cv.asleep then
              some { s with cv := s.cv.notifyOne c, posting := s.posting.erase p }
            else none
        | none =>
            if s.cv.asleep = [] then some { s with posting := s.posting.erase p } else none
      else none
  | .waitOne c =>
      if ¬ s.cv.Waits c then some (take s c { s with cv := s.cv.sleep c }) else none
  | .spurious c => if c ∈ s.cv.asleep then some { s with cv := s.cv.spurious c } else none
  | .resume c =>
      if s.cv.Runnable c then
        let s := { s with cv := s.cv.resume c }
        some (take s c { s with cv := s.cv.sleep c })
      else none
  | .tryPop c => if ¬ s.cv.Waits c then some (take s c s) else none

def machine : Machine State Action where
  init := { q := [], cv := .new, posting := [], pushed := [], returned := [] }
  step := step

/-! ## 1. What a step does -/

/-- One constructor for each branch of `step`. -/
inductive Step (s : State) : Action → State → Prop
  | push {p t} : p ∉ s.posting → Step s (.push p t)
      { s with q := s.q ++ [t], posting := p :: s.posting, pushed := s.pushed ++ [t] }
  | notify {p c} : p ∈ s.posting → c ∈ s.cv.asleep →
      Step s (.notify p (some c)) { s with cv := s.cv.notifyOne c, posting := s.posting.erase p }
  | notifyNobody {p} : p ∈ s.posting → s.cv.asleep = [] →
      Step s (.notify p none) { s with posting := s.posting.erase p }
  | taken {c t q} : ¬ s.cv.Waits c → s.q = t :: q →
      Step s (.waitOne c) { s with q, returned := s.returned ++ [(c, t)] }
  | sleep {c} : ¬ s.cv.Waits c → s.q = [] → Step s (.waitOne c) { s with cv := s.cv.sleep c }
  | spurious {c} : c ∈ s.cv.asleep → Step s (.spurious c) { s with cv := s.cv.spurious c }
  | resumeTaken {c t q} : s.cv.Runnable c → s.q = t :: q →
      Step s (.resume c)
        { s with cv := s.cv.resume c, q, returned := s.returned ++ [(c, t)] }
  | sleepAgain {c} : s.cv.Runnable c → s.q = [] →
      Step s (.resume c) { s with cv := (s.cv.resume c).sleep c }
  | popped {c t q} : ¬ s.cv.Waits c → s.q = t :: q →
      Step s (.tryPop c) { s with q, returned := s.returned ++ [(c, t)] }
  | nullptr {c} : ¬ s.cv.Waits c → s.q = [] → Step s (.tryPop c) s

theorem step_cases {s u : State} {a : Action} (h : step s a = some u) : Step s a u := by
  cases a with
  | push p t =>
    simp only [step, Option.ite_none_right_eq_some] at h
    exact Option.some.inj h.2 ▸ .push h.1
  | notify p sleeper =>
    simp only [step, Option.ite_none_right_eq_some] at h
    rcases h with ⟨hp, h⟩
    cases sleeper with
    | some c =>
      simp only [Option.ite_none_right_eq_some] at h
      exact Option.some.inj h.2 ▸ .notify hp h.1
    | none =>
      simp only [Option.ite_none_right_eq_some] at h
      exact Option.some.inj h.2 ▸ .notifyNobody hp h.1
  | waitOne c =>
    simp only [step, Option.ite_none_right_eq_some, Option.some.injEq] at h
    rcases h with ⟨hc, rfl⟩
    rcases take_cases s c { s with cv := s.cv.sleep c } with ⟨hq, h⟩ | ⟨t, q, hq, h⟩ <;> rw [h]
    · exact .sleep hc hq
    · exact .taken hc hq
  | spurious c =>
    simp only [step, Option.ite_none_right_eq_some] at h
    exact Option.some.inj h.2 ▸ .spurious h.1
  | resume c =>
    simp only [step, Option.ite_none_right_eq_some, Option.some.injEq] at h
    rcases h with ⟨hc, rfl⟩
    rcases take_cases { s with cv := s.cv.resume c } c
        { s with cv := (s.cv.resume c).sleep c } with ⟨hq, h⟩ | ⟨t, q, hq, h⟩ <;> rw [h]
    · exact .sleepAgain hc hq
    · exact .resumeTaken hc hq
  | tryPop c =>
    simp only [step, Option.ite_none_right_eq_some, Option.some.injEq] at h
    rcases h with ⟨hc, rfl⟩
    rcases take_cases s c s with ⟨hq, h⟩ | ⟨t, q, hq, h⟩ <;> rw [h]
    · exact .nullptr hc hq
    · exact .popped hc hq

/-! ## 2. The invariant -/

structure Inv (s : State) : Prop where
  order : s.pushed = s.returned.map Prod.snd ++ s.q
  covered : s.cv.Covered s.posting.length s.q.length

theorem inv_init : Inv machine.init := ⟨rfl, CondVar.covered_zero⟩

/-- The front of the queue is the next task to be returned. -/
theorem Inv.order_take {s : State} (hs : Inv s) {t : TaskId} {q : List TaskId} (hq : s.q = t :: q)
    (c : ThreadId) : s.pushed = (s.returned ++ [(c, t)]).map Prod.snd ++ q := by
  rw [hs.order, hq, List.map_append, List.append_assoc]
  rfl

theorem Inv.covered_take {s : State} (hs : Inv s) {t : TaskId} {q : List TaskId}
    (hq : s.q = t :: q) : s.cv.Covered s.posting.length q.length := by
  have h := hs.covered
  rw [hq, List.length_cons] at h
  exact h.take

theorem inv_step {s u : State} {a : Action} (hs : Inv s) (h : step s a = some u) : Inv u := by
  cases step_cases h with
  | push =>
    refine ⟨?_, ?_⟩
    · show s.pushed ++ _ = _ ++ (s.q ++ _)
      rw [hs.order, List.append_assoc]
    · rw [List.length_append, List.length_cons]
      exact hs.covered.add
  | notify hp hc =>
    have h := hs.covered
    rw [← List.length_erase_add_one hp] at h
    exact ⟨hs.order, h.notifyOne hc⟩
  | notifyNobody hp hnil => exact ⟨hs.order, CondVar.covered_of_asleep_eq_nil hnil⟩
  | @taken c t q _ hq => exact ⟨hs.order_take hq c, hs.covered_take hq⟩
  | sleep _ hq =>
    refine ⟨hs.order, ?_⟩
    show CondVar.Covered _ _ s.q.length
    rw [hq]
    exact CondVar.covered_zero
  | spurious hc => exact ⟨hs.order, hs.covered.spurious hc⟩
  | @resumeTaken c t q hc hq =>
    have h := hs.covered
    rw [hq, List.length_cons] at h
    exact ⟨hs.order_take hq c, h.resume⟩
  | sleepAgain hc hq =>
    refine ⟨hs.order, ?_⟩
    show CondVar.Covered _ _ s.q.length
    rw [hq]
    exact CondVar.covered_zero
  | @popped c t q _ hq => exact ⟨hs.order_take hq c, hs.covered_take hq⟩
  | nullptr => exact hs

theorem inv_reachable {s : State} (h : machine.Reachable s) : Inv s :=
  h.invariant inv_init fun _ _ _ _ hs ht => inv_step hs ht

/-! ## 3. The steps that are owed -/

/-- A thread goes on with what it has begun: a poster notifies, a woken consumer runs. -/
def Owed : Action → Prop
  | .notify _ _ => True
  | .resume _ => True
  | _ => False

def owedSteps (s : State) : Nat :=
  2 * s.posting.length + s.cv.notified.length + s.cv.woken.length

/-- An owed step uses up one of those that are owed. -/
theorem owedSteps_lt {s u : State} {a : Action} (ha : Owed a) (h : step s a = some u) :
    owedSteps u < owedSteps s := by
  cases step_cases h with
  | notify hp hc =>
    have hlen := List.length_erase_add_one hp
    simp only [owedSteps, CondVar.notifyOne, List.length_cons]
    omega
  | notifyNobody hp hnil =>
    have hlen := List.length_erase_add_one hp
    simp only [owedSteps]
    omega
  | resumeTaken hc hq =>
    have hlen := CondVar.length_resume hc
    simp only [owedSteps]
    omega
  | sleepAgain hc hq =>
    have hlen := CondVar.length_resume hc
    simp only [owedSteps, CondVar.sleep]
    omega
  | push => exact absurd ha (by simp [Owed])
  | taken => exact absurd ha (by simp [Owed])
  | sleep => exact absurd ha (by simp [Owed])
  | spurious => exact absurd ha (by simp [Owed])
  | popped => exact absurd ha (by simp [Owed])
  | nullptr => exact absurd ha (by simp [Owed])

theorem length_le_owedSteps {as : List Action} {s u : State} (has : ∀ a ∈ as, Owed a)
    (hrun : machine.runFrom s as = some u) : as.length + owedSteps u ≤ owedSteps s := by
  induction as generalizing s with
  | nil =>
    simp only [Machine.runFrom_nil, Option.some.injEq] at hrun
    exact Nat.le_of_eq (by rw [hrun, List.length_nil, Nat.zero_add])
  | cons a as ih =>
    rcases machine.runFrom_cons.mp hrun with ⟨t, ht, hrest⟩
    have hlt := owedSteps_lt (has a List.mem_cons_self) ht
    have hle := ih (fun b hb => has b (List.mem_cons_of_mem a hb)) hrest
    rw [List.length_cons]
    omega

/-- Nothing is owed any more: no poster has still to notify, no woken consumer to run. -/
theorem settled_of_stopped {s : State} (h : ∀ a, Owed a → step s a = none) :
    s.posting = [] ∧ s.cv.notified = [] := by
  constructor
  · by_contra hne
    rcases List.exists_mem_of_ne_nil _ hne with ⟨p, hp⟩
    rcases hasleep : s.cv.asleep with _ | ⟨c, cs⟩
    · have hstep := h (.notify p none) trivial
      simp [step, hp, hasleep] at hstep
    · have hstep := h (.notify p (some c)) trivial
      simp [step, hp, hasleep] at hstep
  · by_contra hne
    rcases List.exists_mem_of_ne_nil _ hne with ⟨c, hc⟩
    have hstep := h (.resume c) trivial
    simp [step, CondVar.Runnable, hc] at hstep

/-! ## 4. Delivery -/

/-- **Delivery.**  In every reachable state the tasks returned are the first tasks posted, in
posting order, and the queue holds the others; over a non-empty queue nobody sleeps unless a
consumer has been notified and has not run or a poster has still to notify; and when the threads go
on with what they have begun, after at most `owedSteps s` steps they are done, and then the queue
is empty or nobody sleeps. -/
theorem delivered_in_order {s : State} (h : machine.Reachable s) :
    s.pushed = s.returned.map Prod.snd ++ s.q ∧
      (s.q ≠ [] → s.cv.asleep ≠ [] → s.cv.notified ≠ [] ∨ s.posting ≠ []) ∧
      (∀ as u, (∀ a ∈ as, Owed a) → machine.runFrom s as = some u →
        as.length ≤ owedSteps s ∧
          ((∀ a, Owed a → step u a = none) → u.q = [] ∨ u.cv.asleep = [])) := by
  have pending : ∀ u, machine.Reachable u → u.q ≠ [] → u.cv.asleep ≠ [] →
      u.cv.notified ≠ [] ∨ u.posting ≠ [] := by
    intro u hu hq hasleep
    have hpos := List.length_pos_iff.mpr hq
    rcases (inv_reachable hu).covered.pending hasleep hpos with hn | hp
    · exact Or.inl hn
    · exact Or.inr (List.length_pos_iff.mp hp)
  refine ⟨(inv_reachable h).order, pending s h, ?_⟩
  intro as u has hrun
  refine ⟨by have := length_le_owedSteps has hrun; omega, ?_⟩
  intro hstop
  rcases settled_of_stopped hstop with ⟨hposting, hnotified⟩
  by_contra hnot
  rw [not_or] at hnot
  rcases pending u (h.runFrom hrun) hnot.1 hnot.2 with hn | hp
  · exact hn hnotified
  · exact hp hposting

/-- The item that a sleeper is notified of is stolen by a `TryPop`; the next post wakes it again. -/
def stolen : List Action :=
  [.waitOne 1, .waitOne 2, .push 9 7, .notify 9 (some 1), .tryPop 3, .spurious 2, .resume 1,
    .push 9 8, .resume 2, .notify 9 (some 1), .resume 1]

theorem delivered_in_order_stolen :
    ∃ s, machine.run stolen = some s ∧ s.pushed = s.returned.map Prod.snd ++ s.q :=
  ⟨_, rfl, (@delivered_in_order _ ⟨stolen, rfl⟩).1⟩

end ChezAsync.QueueDelivery
