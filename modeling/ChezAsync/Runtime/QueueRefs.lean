import Mathlib.Data.Finset.Image
import Mathlib.Tactic.Common
import ChezAsync.Lib.Machine
import ChezAsync.Lib.RefCount
import ChezAsync.Runtime.Task

/-!
# The life of a completion queue (`task.hpp`, `rt_ffi.cpp`)

One `CompletionQueue`, the tasks that name it and its creator.  A task takes its reference in
`new_task` and drops it at the end of `Complete`, after `Post`; the creator drops its own in
`rt_cq_free`, at any time.  The steps of different tasks interleave freely.
-/

namespace ChezAsync.QueueRefs

/-! ## 1. The machine -/

inductive Holder
  | creator
  | task (t : TaskId)
  deriving DecidableEq

/-- How far a task that names the queue has come. -/
inductive Phase
  /-- `new_task` has called `Retain`. -/
  | created
  /-- Submitted, and not yet posted. -/
  | inFlight
  /-- `Complete` is in `Post`: `push_back` is done, `notify_one` is not. -/
  | pushed
  /-- `Post` has returned. -/
  | posted
  /-- The reference is dropped. -/
  | released
  deriving DecidableEq

/-- A member of the queue that a thread reads or writes. -/
inductive Access
  | retain (t : TaskId)
  | push (t : TaskId)
  | notify (t : TaskId)
  | release (h : Holder)
  deriving DecidableEq

structure State where
  /-- `refs_`, and the `delete this` that follows from it. -/
  rc : RefCount Holder
  /-- `q_`, which nobody reads here. -/
  q : List TaskId
  /-- `rt_cq_free` has been called. -/
  freed : Bool
  -- The record of the run: the tasks that name the queue, how far each has come, and the accesses
  -- made when the deletion had been decided.
  tasks : Finset TaskId
  phase : TaskId → Phase
  misused : List Access

inductive Action
  | newTask (t : TaskId)
  | submit (t : TaskId)
  | push (t : TaskId)
  | notify (t : TaskId)
  | release (t : TaskId)
  | cqFree
  /-- The `delete this` of the `Release` by `h`. -/
  | delete (h : Holder)
  deriving DecidableEq

def touch (s : State) (a : Access) : State :=
  if s.rc.Dying then { s with misused := s.misused ++ [a] } else s

def setPhase (s : State) (t : TaskId) (p : Phase) : State :=
  { s with phase := Function.update s.phase t p }

/-- `CompletionQueue::Retain`, in `new_task`. -/
def retain (s : State) (t : TaskId) : State :=
  let s := touch s (.retain t)
  { s with rc := s.rc.retain }

/-- `CompletionQueue::Release` up to the test of the old count. -/
def release (s : State) (h : Holder) : State :=
  let s := touch s (.release h)
  { s with rc := s.rc.release h }

def step (s : State) : Action → Option State
  -- The creator still has the queue when it names it to a new task.
  | .newTask t =>
      if s.freed = false ∧ t ∉ s.tasks then
        some (setPhase { retain s t with tasks := insert t s.tasks } t .created)
      else none
  | .submit t =>
      if t ∈ s.tasks ∧ s.phase t = .created then some (setPhase s t .inFlight) else none
  | .push t =>
      if t ∈ s.tasks ∧ s.phase t = .inFlight then
        some (setPhase { touch s (.push t) with q := s.q ++ [t] } t .pushed)
      else none
  | .notify t =>
      if t ∈ s.tasks ∧ s.phase t = .pushed then
        some (setPhase (touch s (.notify t)) t .posted)
      else none
  | .release t =>
      if t ∈ s.tasks ∧ s.phase t = .posted then
        some (setPhase (release s (.task t)) t .released)
      else none
  | .cqFree => if s.freed = false then some { release s .creator with freed := true } else none
  | .delete h => if h ∈ s.rc.deleting then some { s with rc := s.rc.delete h } else none

/-- The queue that `rt_cq_create` has just made. -/
def machine : Machine State Action where
  init :=
    { rc := .new, q := [], freed := false, tasks := ∅, phase := fun _ => .created, misused := [] }
  step := step

/-! ## 2. Who holds a reference -/

/-- The submitted tasks that have not dropped their reference. -/
def unreleased (s : State) : Finset TaskId := s.tasks.filter fun t => s.phase t ≠ .released

def creatorRef (s : State) : Finset Holder := if s.freed then ∅ else {.creator}

def taskHolder : TaskId ↪ Holder := ⟨.task, fun _ _ h => Holder.task.inj h⟩

@[simp] theorem taskHolder_apply (t : TaskId) : taskHolder t = .task t := rfl

def holders (s : State) : Finset Holder := creatorRef s ∪ (unreleased s).map taskHolder

@[simp] theorem mem_unreleased {s : State} {t : TaskId} :
    t ∈ unreleased s ↔ t ∈ s.tasks ∧ s.phase t ≠ .released := by
  simp [unreleased]

@[simp] theorem creator_mem_holders {s : State} : .creator ∈ holders s ↔ s.freed = false := by
  cases h : s.freed <;> simp [holders, creatorRef, h]

@[simp] theorem task_mem_holders {s : State} {t : TaskId} :
    .task t ∈ holders s ↔ t ∈ s.tasks ∧ s.phase t ≠ .released := by
  have hcreator : .task t ∉ creatorRef s := by
    unfold creatorRef
    split <;> simp
  simp [holders, hcreator]

theorem holders_ext {H : Finset Holder} {s : State}
    (hc : .creator ∈ H ↔ s.freed = false)
    (ht : ∀ t, .task t ∈ H ↔ t ∈ s.tasks ∧ s.phase t ≠ .released) : holders s = H := by
  ext h
  cases h with
  | creator => rw [creator_mem_holders, hc]
  | task t => rw [task_mem_holders, ht]

theorem card_holders (s : State) :
    (holders s).card = (if s.freed then 0 else 1) + (unreleased s).card := by
  rw [holders, Finset.card_union_of_disjoint, Finset.card_map]
  · unfold creatorRef
    split <;> rfl
  · rw [Finset.disjoint_left]
    intro h hc ht
    simp only [Finset.mem_map] at ht
    rcases ht with ⟨t, _, rfl⟩
    unfold creatorRef at hc
    split at hc <;> simp at hc

theorem holders_eq_empty {s : State} :
    holders s = ∅ ↔ s.freed = true ∧ unreleased s = ∅ := by
  rw [← Finset.card_eq_zero, card_holders, ← Finset.card_eq_zero]
  cases s.freed <;> simp

/-! ## 3. The invariant -/

structure Inv (s : State) : Prop where
  held : s.rc.Held (holders s)
  misused : s.misused = []

theorem inv_init : Inv machine.init := by
  have h : holders machine.init = {.creator} := holders_ext (by simp [machine]) (by simp [machine])
  exact ⟨h ▸ RefCount.held_new _, rfl⟩

/-- A holder's access is no misuse. -/
theorem Inv.touch_eq {s : State} (hs : Inv s) {h : Holder} (hh : h ∈ holders s) (a : Access) :
    touch s a = s := by
  rw [touch, if_neg (hs.held.not_dying hh)]

/-- A step of a task that keeps its reference. -/
theorem inv_setPhase {s : State} {t : TaskId} {p : Phase} (hs : Inv s) (ht : .task t ∈ holders s)
    (hp : p ≠ .released) : Inv (setPhase s t p) := by
  have hkeep : holders (setPhase s t p) = holders s := by
    rw [task_mem_holders] at ht
    apply holders_ext
    · simp [setPhase]
    · intro t'
      by_cases h : t' = t
      · subst h
        simp [setPhase, ht, hp]
      · simp [setPhase, h]
  exact ⟨hkeep ▸ hs.held, hs.misused⟩

theorem inv_newTask {s : State} {t : TaskId} (hs : Inv s) (hf : s.freed = false)
    (ht : t ∉ s.tasks) :
    Inv (setPhase { retain s t with tasks := insert t s.tasks } t .created) := by
  have hc : .creator ∈ holders s := creator_mem_holders.mpr hf
  have hnew : .task t ∉ holders s := fun h => ht (task_mem_holders.mp h).1
  simp only [retain, hs.touch_eq hc]
  refine ⟨?_, hs.misused⟩
  have hadd : holders (setPhase { s with rc := s.rc.retain, tasks := insert t s.tasks } t .created) =
      insert (.task t) (holders s) := by
    apply holders_ext
    · simp [setPhase]
    · intro t'
      by_cases h : t' = t
      · subst h
        simp [setPhase]
      · simp [setPhase, h]
  rw [hadd]
  exact hs.held.retain ⟨_, hc⟩ hnew

theorem inv_release {s : State} {t : TaskId} (hs : Inv s) (ht : .task t ∈ holders s) :
    Inv (setPhase (release s (.task t)) t .released) := by
  simp only [release, hs.touch_eq ht]
  refine ⟨?_, hs.misused⟩
  have hdrop : holders (setPhase { s with rc := s.rc.release (.task t) } t .released) =
      (holders s).erase (.task t) := by
    apply holders_ext
    · simp [setPhase]
    · intro t'
      by_cases h : t' = t
      · subst h
        simp [setPhase]
      · simp [setPhase, h]
  rw [hdrop]
  exact hs.held.release ht

theorem inv_cqFree {s : State} (hs : Inv s) (hf : s.freed = false) :
    Inv { release s .creator with freed := true } := by
  have hc : .creator ∈ holders s := creator_mem_holders.mpr hf
  simp only [release, hs.touch_eq hc]
  refine ⟨?_, hs.misused⟩
  have hdrop : holders { s with rc := s.rc.release .creator, freed := true } =
      (holders s).erase .creator := holders_ext (by simp) (by simp)
  rw [hdrop]
  exact hs.held.release hc

theorem inv_step {s u : State} {a : Action} (hs : Inv s) (h : step s a = some u) : Inv u := by
  cases a with
  | newTask t =>
    simp only [step, Option.ite_none_right_eq_some, Option.some.injEq] at h
    rcases h with ⟨⟨hf, ht⟩, rfl⟩
    exact inv_newTask hs hf ht
  | submit t =>
    simp only [step, Option.ite_none_right_eq_some, Option.some.injEq] at h
    rcases h with ⟨⟨ht, hp⟩, rfl⟩
    exact inv_setPhase hs (task_mem_holders.mpr ⟨ht, by simp [hp]⟩) (by simp)
  | push t =>
    simp only [step, Option.ite_none_right_eq_some, Option.some.injEq] at h
    rcases h with ⟨⟨ht, hp⟩, rfl⟩
    have hmem : .task t ∈ holders s := task_mem_holders.mpr ⟨ht, by simp [hp]⟩
    rw [hs.touch_eq hmem]
    have hs' : Inv { s with q := s.q ++ [t] } := ⟨hs.held, hs.misused⟩
    exact inv_setPhase hs' hmem (by simp)
  | notify t =>
    simp only [step, Option.ite_none_right_eq_some, Option.some.injEq] at h
    rcases h with ⟨⟨ht, hp⟩, rfl⟩
    have hmem : .task t ∈ holders s := task_mem_holders.mpr ⟨ht, by simp [hp]⟩
    rw [hs.touch_eq hmem]
    exact inv_setPhase hs hmem (by simp)
  | release t =>
    simp only [step, Option.ite_none_right_eq_some, Option.some.injEq] at h
    rcases h with ⟨⟨ht, hp⟩, rfl⟩
    exact inv_release hs (task_mem_holders.mpr ⟨ht, by simp [hp]⟩)
  | cqFree =>
    simp only [step, Option.ite_none_right_eq_some, Option.some.injEq] at h
    rcases h with ⟨hf, rfl⟩
    exact inv_cqFree hs hf
  | delete k =>
    simp only [step, Option.ite_none_right_eq_some, Option.some.injEq] at h
    rcases h with ⟨hk, rfl⟩
    exact ⟨hs.held.delete hk, hs.misused⟩

theorem inv_reachable {s : State} (h : machine.Reachable s) : Inv s :=
  h.invariant inv_init fun _ _ _ _ hs ht => inv_step hs ht

/-! ## 4. The lifetime -/

/-- A task that has not dropped its reference can go on. -/
theorem exists_step_of_unreleased {s : State} {t : TaskId} (ht : t ∈ unreleased s) :
    ∃ a, step s a ≠ none := by
  rw [mem_unreleased] at ht
  rcases ht with ⟨ht, hp⟩
  rcases h : s.phase t
  case created => exact ⟨.submit t, by simp [step, ht, h]⟩
  case inFlight => exact ⟨.push t, by simp [step, ht, h]⟩
  case pushed => exact ⟨.notify t, by simp [step, ht, h]⟩
  case posted => exact ⟨.release t, by simp [step, ht, h]⟩
  case released => exact absurd h hp

/-- The runs that cannot go on are those that have deleted the queue. -/
theorem halted_iff {s : State} (hs : Inv s) : machine.Halted s ↔ s.rc.deletes = 1 := by
  have hdel := hs.held.deletions
  constructor
  · intro hhalt
    have hfreed : s.freed = true := by
      by_contra hf
      have h := hhalt .cqFree
      simp [machine, step, hf] at h
    have hun : unreleased s = ∅ := by
      by_contra hne
      rcases Finset.nonempty_iff_ne_empty.mpr hne with ⟨t, ht⟩
      rcases exists_step_of_unreleased ht with ⟨a, ha⟩
      exact ha (hhalt a)
    have hnil : s.rc.deleting = [] := by
      by_contra hne
      rcases List.exists_mem_of_ne_nil _ hne with ⟨k, hk⟩
      have h := hhalt (.delete k)
      simp [machine, step, hk] at h
    rw [if_pos (holders_eq_empty.mpr ⟨hfreed, hun⟩), hnil, List.length_nil] at hdel
    omega
  · intro hone a
    have hpos : 0 < s.rc.deletes := by omega
    have hempty := hs.held.dying_iff.mp (Or.inr hpos)
    rw [holders_eq_empty] at hempty
    have hdone : ∀ t ∈ s.tasks, s.phase t = .released := by
      intro t ht
      by_contra hp
      have h : t ∈ unreleased s := mem_unreleased.mpr ⟨ht, hp⟩
      rw [hempty.2] at h
      cases h
    have hnil := hs.held.deleting_eq_nil hpos
    cases a <;> simp [machine, step, hempty.1, hnil] <;> grind

/-- **The lifetime of a completion queue.**  In every reachable state `refs_` counts the creator's
reference and the submitted tasks that have not released; no access is ever made to a queue whose
deletion has been decided; the queue is deleted, or one thread is just about to delete it, exactly
when the creator and every task have released, and then it is deleted once; and a run that cannot
go on has deleted it. -/
theorem queue_lifetime {s : State} (h : machine.Reachable s) :
    s.rc.refs = ((if s.freed then 0 else 1) + (unreleased s).card : Nat) ∧
      s.misused = [] ∧
      (s.rc.Dying ↔ s.freed = true ∧ unreleased s = ∅) ∧
      s.rc.deleting.length + s.rc.deletes ≤ 1 ∧
      (∀ k ∈ s.rc.deleting, ∃ u, step s (.delete k) = some u ∧ u.rc.deletes = 1) ∧
      (machine.Halted s ↔ s.rc.deletes = 1) := by
  have hs := inv_reachable h
  have hdel := hs.held.deletions
  refine ⟨?_, hs.misused, ?_, ?_, ?_, halted_iff hs⟩
  · rw [← card_holders]
    exact hs.held.refs
  · rw [hs.held.dying_iff, holders_eq_empty]
  · split at hdel <;> omega
  · intro k hk
    have hpos := List.length_pos_of_mem hk
    refine ⟨{ s with rc := s.rc.delete k }, by simp [step, hk], ?_⟩
    show s.rc.deletes + 1 = 1
    split at hdel <;> omega

/-- The creator frees the queue between the posts of two tasks. -/
def freedInBetween : List Action :=
  [.newTask 1, .submit 1, .newTask 2, .push 1, .submit 2, .notify 1, .release 1, .cqFree, .push 2,
    .notify 2, .release 2, .delete (.task 2)]

theorem queue_lifetime_freedInBetween :
    ∃ s, machine.run freedInBetween = some s ∧ s.misused = [] ∧ s.rc.deletes = 1 :=
  ⟨_, rfl, (@queue_lifetime _ ⟨freedInBetween, rfl⟩).2.1, rfl⟩

end ChezAsync.QueueRefs
