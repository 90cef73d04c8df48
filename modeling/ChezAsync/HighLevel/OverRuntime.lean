import Mathlib.Logic.Equiv.List
import Mathlib.Tactic.Common
import ChezAsync.Runtime.AnswersRest
import ChezAsync.HighLevel.SerialElision

/-!
# `run-async` over the runtime (`io-async.ss`, `task.hpp`, `runtime.cpp`)

Any number of threads, each in a `run-async` of its own, over one runtime that other threads use as
well.  A fiber's task is submitted with the completion queue of its thread; the loop thread takes it
up, its custody moves about in the runtime, and `Complete` posts it to that queue.  To each
scheduler this whole is what `Scheduler.lean` takes for granted: an environment that completes each
task at most once, and with one result.
-/

namespace ChezAsync.OverRuntime

open TaskCustody (held dropped Kept)
open Async (Handle Body)

/-! ## 1. The whole -/

/-- The addresses of the tasks that the threads submit.  A task tells its thread: it has the
completion queue of that thread. -/
structure Names (ι : Type) where
  addr : ι → Handle → TaskId
  owner : TaskId → Option (ι × Handle)
  owner_eq : ∀ t i h, owner t = some (i, h) ↔ addr i h = t

structure State (ι D : Type) where
  threads : ι → Async.State D
  rt : Shutdown.State

inductive Action (ι : Type)
  /-- A step of the scheduler of one of the threads. -/
  | scheduler (i : ι)
  /-- A step of the loop thread. -/
  | runtime (a : Shutdown.Action)

/-- `task-result` -/
def taskResult (s : Shutdown.State) (t : TaskId) : Int := (s.rt.completed.results t).headD 0

/-- `q->Post(this)`: the task goes to the queue that it was submitted with. -/
def posted {D : Type} (s : Async.State D) (h : Handle) : Async.State D :=
  { s with inFlight := s.inFlight.erase h, cq := s.cq ++ [h] }

section
variable {ι D : Type} [DecidableEq ι] (names : Names ι) (root : ι → Body D)

/-- The tasks of the thread among those that have been completed. -/
def Names.mine (i : ι) (c : Completions) : List Handle :=
  c.filterMap fun p => (names.owner p.1).bind fun x => if x.1 = i then some x.2 else none

/-- A task that is taken up has been submitted. -/
def Names.submitted (s : State ι D) (t : TaskId) : Bool :=
  match names.owner t with
  | some (i, h) => h ∈ (s.threads i).inFlight
  -- some other thread has submitted it
  | none => true

/-- The threads after the loop thread has made the completions. -/
def Names.deliver (threads : ι → Async.State D) (c : Completions) : ι → Async.State D :=
  fun i => (names.mine i c).foldl posted (threads i)

def step (s : State ι D) : Action ι → Option (State ι D)
  | .scheduler i =>
    (Async.tick (fun h => taskResult s.rt (names.addr i h)) (s.threads i)).map fun u =>
      { s with threads := Function.update s.threads i u }
  | .runtime a =>
    (Shutdown.step s.rt a).bind fun rt =>
      if ∀ t ∈ rt.rt.tasks, t ∈ s.rt.rt.tasks ∨ names.submitted s t then
        let new := rt.rt.completed.drop s.rt.rt.completed.length
        some { threads := names.deliver s.threads new, rt }
      else none

@[reducible] def machine : Machine (State ι D) (Action ι) where
  init :=
    { threads := fun i => (Async.machine (fun _ => 0) (root i)).init, rt := Shutdown.machine.init }
  step := step names

/-- The schedule of the loop thread. -/
def runtimeActions (as : List (Action ι)) : List Shutdown.Action :=
  as.filterMap fun
    | .runtime a => some a
    | .scheduler _ => none

end

/-! ## 2. A scheduler among the others -/

section
variable {D : Type} {res res' : Handle → Int} {s u : Async.State D}

/-- A step looks at the results of tasks in the queue only. -/
theorem tick_congr (h : ∀ g ∈ s.cq, res g = res' g) : Async.tick res s = Async.tick res' s := by
  unfold Async.tick
  split
  case h_6 =>
    split
    case h_1 g cq hcq => rw [h g (hcq ▸ List.mem_cons_self)]
    case h_2 => rfl
  case h_7 =>
    split
    case h_1 g cq hcq => rw [h g (hcq ▸ List.mem_cons_self)]
    case h_2 => rfl
  all_goals rfl

theorem run_queue {fib : Async.FutureId} {items : List (Async.Item D)} {body : Body D}
    (h : Async.Run s fib items body u) : u.cq = s.cq ∧ u.reaped = s.reaped := by
  cases h <;> exact ⟨rfl, rfl⟩

theorem run_inFlight {fib : Async.FutureId} {items : List (Async.Item D)} {body : Body D}
    (h : Async.Run s fib items body u) : ∀ g ∈ s.inFlight, g ∈ u.inFlight := by
  cases h with
  | submit k => exact fun g hg => List.mem_append_left _ hg
  | _ => exact fun g hg => hg

/-- The scheduler takes tasks from the queue and drops none, and completes none itself. -/
theorem tick_tasks (h : Async.tick res s = some u) (g : Handle) :
    ((g ∈ u.cq ∨ g ∈ u.reaped) ↔ (g ∈ s.cq ∨ g ∈ s.reaped)) ∧
      (g ∈ s.inFlight → g ∈ u.inFlight) := by
  have hpop : ∀ h cq, s.cq = h :: cq →
      ((g ∈ (Async.State.deliverOne { s with cq := cq } h (res h)).cq ∨
        g ∈ (Async.State.deliverOne { s with cq := cq } h (res h)).reaped) ↔
          (g ∈ s.cq ∨ g ∈ s.reaped)) ∧
      (g ∈ s.inFlight → g ∈ (Async.State.deliverOne { s with cq := cq } h (res h)).inFlight) := by
    intro h cq hcq
    obtain ⟨hin, hcq', hreaped, -⟩ := Async.tasks_deliverOne { s with cq := cq } h (res h)
    rw [hin, hcq', hreaped, hcq]
    refine ⟨?_, id⟩
    simp only [List.mem_cons, List.mem_append, List.not_mem_nil, or_false]
    tauto
  cases Async.tick_cases h with
  | @begin item items hpc =>
    unfold Async.State.begin
    split <;> exact ⟨Iff.rfl, id⟩
  | run hpc hrun =>
    rw [(run_queue hrun).1, (run_queue hrun).2]
    exact ⟨Iff.rfl, run_inFlight hrun g⟩
  | popped hpc hcq => exact hpop _ _ hcq
  | polled hpc hcq => exact hpop _ _ hcq
  | _ => exact ⟨Iff.rfl, id⟩

/-- A fiber goes on with the result of the task that it has awaited, which has been reaped. -/
theorem continued_value {root : Body D} (hs : (Async.machine res root).Reachable s)
    {f : Async.FutureId} {h : Handle} {r : Int} (hmem : (f, h, r) ∈ s.continued) :
    r = res h ∧ h ∈ s.reaped := by
  have key : ∀ m ∈ s.meeting.met, m.2.2 = res m.2.1 ∧ m.2.1 ∈ s.meeting.arrived := by
    refine Machine.Reachable.invariant
      (P := fun s => ∀ m ∈ s.meeting.met, m.2.2 = res m.2.1 ∧ m.2.1 ∈ s.meeting.arrived) ?_ ?_ hs
    · intro m hm
      cases hm
    · intro s a u hs hmet hstep
      rcases Async.meeting_step (Async.inv_reachable hs) hstep with heq | hmeet
      · rwa [heq]
      · exact hmeet.met_value (Async.inv_reachable hs).meeting hmet
  exact key (f, h, r) (Multiset.mem_coe.mpr (List.mem_append_left _ hmem))

theorem runAsync_eq_none : Async.runAsync s = none ↔ s.pc ≠ .exited := by
  unfold Async.runAsync
  split
  · rename_i hpc
    refine ⟨fun h => ?_, fun h => absurd hpc h⟩
    split at h <;> cases h
  · rename_i hpc
    exact ⟨fun _ => hpc, fun _ => rfl⟩

/-- The posts of several tasks. -/
theorem runFrom_posts {root : Body D} {hs : List Handle} (hnodup : hs.Nodup)
    (hin : ∀ h ∈ hs, h ∈ s.inFlight) :
    (Async.machine res root).runFrom s (hs.map .post) = some (hs.foldl posted s) := by
  induction hs generalizing s with
  | nil => rfl
  | cons h hs ih =>
    rw [List.nodup_cons] at hnodup
    have hstep : Async.step res s (.post h) = some (posted s h) :=
      if_pos (hin h List.mem_cons_self)
    refine (Machine.runFrom_cons _).mpr ⟨posted s h, hstep, ih hnodup.2 fun g hg => ?_⟩
    -- the first post leaves the others in flight
    have hne : g ≠ h := fun heq => hnodup.1 (heq ▸ hg)
    exact (List.mem_erase_of_ne hne).mpr (hin g (List.mem_cons_of_mem h hg))

theorem foldl_posted (hs : List Handle) (s : Async.State D) :
    (hs.foldl posted s).cq = s.cq ++ hs ∧ (hs.foldl posted s).reaped = s.reaped ∧
      (hs.foldl posted s).inFlight = s.inFlight.diff hs := by
  induction hs generalizing s with
  | nil => exact ⟨(List.append_nil _).symm, rfl, rfl⟩
  | cons h hs ih =>
    obtain ⟨hcq, hreaped, hin⟩ := ih (posted s h)
    refine ⟨?_, hreaped, ?_⟩
    · rw [List.foldl_cons, hcq]
      exact List.append_assoc _ [h] hs
    · rw [List.foldl_cons, hin, List.diff_cons]
      rfl

end

/-! ## 3. The runtime as the schedulers see it -/

section
variable {ι D : Type} {names : Names ι} {root : ι → Body D} {s u : State ι D}

/-- The assignment gives every completed task the result that it was completed with. -/
def Agrees (res : TaskId → Int) (s : Shutdown.State) : Prop :=
  ∀ t, ∀ r ∈ s.rt.completed.results t, res t = r

theorem agrees_taskResult {rt : Shutdown.State} {lost : List TaskId} (h : Kept rt lost) :
    Agrees (taskResult rt) rt := by
  intro t r hr
  have hle := h.results_le_one t
  rw [taskResult]
  match hres : rt.rt.completed.results t with
  | [] =>
    rw [hres] at hr
    cases hr
  | [r'] =>
    rw [hres] at hr
    exact (List.mem_singleton.mp hr).symm
  | _ :: _ :: _ =>
    rw [hres] at hle
    exact absurd hle (by simp)

/-- What links the threads to the runtime. -/
structure Linked (names : Names ι) (root : ι → Body D) (s : State ι D) : Prop where
  kept : ∃ lost, Kept s.rt lost
  reach : ∀ res, Agrees res s.rt → ∀ i,
    (Async.machine (fun h => res (names.addr i h)) (root i)).Reachable (s.threads i)
  -- a task of a thread has been completed if it is in the thread's queue or has been taken from it
  done : ∀ i h, h ∈ (s.threads i).cq ∨ h ∈ (s.threads i).reaped ↔
    s.rt.rt.completed.results (names.addr i h) ≠ []
  taken : ∀ i h, names.addr i h ∈ s.rt.rt.tasks → h ∈ (s.threads i).tasks

theorem linked_init [DecidableEq ι] : Linked names root (machine names root).init where
  kept := ⟨[], TaskCustody.kept_init⟩
  reach := fun _ _ _ => Machine.reachable_init _
  done := fun _ _ => ⟨fun h => absurd h (by rintro (h | h) <;> cases h), fun h => absurd rfl h⟩
  taken := fun _ _ h => absurd h List.not_mem_nil

section
variable (h : Linked names root s)

include h

theorem Linked.tasks (i : ι) : (s.threads i).Tasks := by
  obtain ⟨lost, hkept⟩ := h.kept
  exact (Async.inv_reachable (h.reach _ (agrees_taskResult hkept) i)).tasks

/-- A task in flight has not been completed, and every task of a thread that has not been completed
is in flight. -/
theorem Linked.inFlight (i : ι) (g : Handle) : g ∈ (s.threads i).inFlight ↔
    g ∈ (s.threads i).tasks ∧ s.rt.rt.completed.results (names.addr i g) = [] := by
  have hnodup := (h.tasks i).nodup
  rw [Async.State.tasks, List.append_assoc, List.nodup_append'] at hnodup
  have hdone := h.done i g
  rw [← List.mem_append] at hdone
  rw [Async.State.tasks, List.append_assoc]
  constructor
  · intro hin
    refine ⟨List.mem_append_left _ hin, ?_⟩
    by_contra hne
    exact hnodup.2.2 hin (hdone.mpr hne)
  · rintro ⟨hmem, hnil⟩
    rcases List.mem_append.mp hmem with hin | hout
    · exact hin
    · exact absurd hnil (hdone.mp hout)

/-! ### A step of a scheduler -/

variable [DecidableEq ι]

theorem linked_scheduler {i : ι} {v : Async.State D}
    (hv : Async.tick (fun g => taskResult s.rt (names.addr i g)) (s.threads i) = some v) :
    Linked names root { s with threads := Function.update s.threads i v } := by
  obtain ⟨lost, hkept⟩ := h.kept
  have htasks := tick_tasks hv
  refine ⟨h.kept, fun res hres j => ?_, fun j g => ?_, fun j g hg => ?_⟩
  · by_cases hj : j = i
    · subst hj
      -- the results that the step looks at have been recorded, so `res` has them
      have hcongr : Async.tick (fun g => res (names.addr j g)) (s.threads j) = some v := by
        rw [← hv]
        apply tick_congr
        intro g hg
        obtain ⟨r, hr⟩ := List.exists_mem_of_ne_nil _ ((h.done j g).mp (Or.inl hg))
        rw [hres _ r hr]
        exact (agrees_taskResult hkept _ r hr).symm
      simp only [Function.update_self]
      exact (h.reach res hres j).step (a := .tick) hcongr
    · simp only [Function.update_of_ne hj]
      exact h.reach res hres j
  · by_cases hj : j = i
    · subst hj
      simp only [Function.update_self]
      exact (htasks g).1.trans (h.done j g)
    · simp only [Function.update_of_ne hj]
      exact h.done j g
  · by_cases hj : j = i
    · subst hj
      simp only [Function.update_self]
      have hmem := h.taken j g hg
      rw [Async.State.tasks, List.append_assoc, List.mem_append, List.mem_append] at hmem ⊢
      exact hmem.imp (htasks g).2 (htasks g).1.mpr
    · simp only [Function.update_of_ne hj]
      exact h.taken j g hg

end

/-! ### A step of the loop thread -/

variable [DecidableEq ι]

theorem mem_mine {i : ι} {c : Completions} {g : Handle} :
    g ∈ names.mine i c ↔ names.addr i g ∈ c.map Prod.fst := by
  simp only [Names.mine, List.mem_filterMap, List.mem_map, Option.bind_eq_some_iff]
  constructor
  · rintro ⟨p, hp, ⟨j, g'⟩, howner, hif⟩
    split at hif
    case isTrue hj =>
      cases hif
      subst hj
      exact ⟨p, hp, ((names.owner_eq _ _ _).mp howner).symm⟩
    case isFalse => cases hif
  · rintro ⟨p, hp, hfst⟩
    exact ⟨p, hp, (i, g), (names.owner_eq _ _ _).mpr hfst.symm, if_pos rfl⟩

theorem nodup_mine {c : Completions} (hc : (c.map Prod.fst).Nodup) (i : ι) :
    (names.mine i c).Nodup := by
  induction c with
  | nil => exact List.nodup_nil
  | cons p c ih =>
    rw [List.map_cons, List.nodup_cons] at hc
    rw [Names.mine, List.filterMap_cons]
    split
    · exact ih hc.2
    · rename_i g hg
      refine List.nodup_cons.mpr ⟨fun hmem => hc.1 ?_, ih hc.2⟩
      have hself : g ∈ names.mine i [p] := by
        rw [Names.mine, List.filterMap_cons, hg]
        exact List.mem_singleton_self g
      have hfst := mem_mine.mp hself
      rw [List.map_singleton, List.mem_singleton] at hfst
      exact hfst ▸ mem_mine.mp hmem

theorem Agrees.of_prefix {res : TaskId → Int} {rt rt' : Shutdown.State} (h : Agrees res rt')
    (hgrow : rt.rt.completed <+: rt'.rt.completed) : Agrees res rt :=
  fun t r hr => h t r ((Completions.results_prefix hgrow t).subset hr)

theorem linked_runtime (h : Linked names root s) {a : Shutdown.Action} {rt : Shutdown.State}
    (hstep : Shutdown.step s.rt a = some rt)
    (hsub : ∀ t ∈ rt.rt.tasks, t ∈ s.rt.rt.tasks ∨ names.submitted s t) :
    Linked names root
      { threads := names.deliver s.threads (rt.rt.completed.drop s.rt.rt.completed.length)
        rt } := by
  obtain ⟨lost, hkept⟩ := h.kept
  have hkept' := TaskCustody.kept_step hkept hstep
  have hgrow := AnswersRest.grows_step hkept.inv hkept.sound hstep
  obtain ⟨cs, hcs⟩ := hgrow
  have hdrop : rt.rt.completed.drop s.rt.rt.completed.length = cs := by
    rw [← hcs, List.drop_left]
  rw [hdrop]
  -- no task is completed twice
  have hnodup : ((s.rt.rt.completed ++ cs).map Prod.fst).Nodup := by
    rw [hcs]
    exact (List.nodup_append'.mp hkept'.balanced.settled).1
  rw [List.map_append, List.nodup_append'] at hnodup
  -- the tasks of a thread that are completed were in flight
  have hin : ∀ i, ∀ g ∈ names.mine i cs, g ∈ (s.threads i).inFlight := by
    intro i g hg
    have hmem := mem_mine.mp hg
    have htask : names.addr i g ∈ rt.rt.tasks := by
      refine (hkept'.mem_tasks _).mpr (Or.inl ?_)
      rw [← TaskCustody.mem_answered, ← hcs, List.map_append]
      exact List.mem_append_right _ hmem
    rcases hsub _ htask with hold | hnew
    · refine (h.inFlight i g).mpr ⟨h.taken i g hold, ?_⟩
      by_contra hne
      exact hnodup.2.2 ((TaskCustody.mem_answered _ _).mpr hne) hmem
    · rw [Names.submitted, (names.owner_eq _ i g).mpr rfl] at hnew
      exact of_decide_eq_true hnew
  refine ⟨⟨_, hkept'⟩, fun res hres i => ?_, fun i g => ?_, fun i g hg => ?_⟩
  · have hreach := h.reach res (hres.of_prefix ⟨cs, hcs⟩) i
    exact hreach.runFrom (runFrom_posts (nodup_mine hnodup.2.1 i) (hin i))
  · obtain ⟨hcq, hreaped, -⟩ := foldl_posted (names.mine i cs) (s.threads i)
    have hold := h.done i g
    rw [← TaskCustody.mem_answered] at hold ⊢
    simp only [Names.deliver, hcq, hreaped, ← hcs, List.map_append, List.mem_append, mem_mine]
    tauto
  · obtain ⟨hcq, hreaped, hflight⟩ := foldl_posted (names.mine i cs) (s.threads i)
    simp only [Names.deliver, Async.State.tasks, hcq, hreaped, hflight, List.mem_append]
    by_cases hmine : g ∈ names.mine i cs
    · exact Or.inl (Or.inr (Or.inr hmine))
    · have hold : g ∈ (s.threads i).tasks := by
        rcases hsub _ hg with hold | hnew
        · exact h.taken i g hold
        · rw [Names.submitted, (names.owner_eq _ i g).mpr rfl] at hnew
          exact List.mem_append_left _ (List.mem_append_left _ (of_decide_eq_true hnew))
      rw [Async.State.tasks, List.mem_append, List.mem_append] at hold
      rcases hold with (hflight | hcq) | hreaped
      · exact Or.inl (Or.inl (List.mem_diff_of_mem hflight hmine))
      · exact Or.inl (Or.inr (Or.inl hcq))
      · exact Or.inr hreaped

theorem linked_step (h : Linked names root s) {a : Action ι} (hstep : step names s a = some u) :
    Linked names root u := by
  cases a with
  | scheduler i =>
    simp only [step, Option.map_eq_some_iff] at hstep
    obtain ⟨v, hv, rfl⟩ := hstep
    exact linked_scheduler h hv
  | runtime a =>
    simp only [step, Option.bind_eq_some_iff, Option.ite_none_right_eq_some,
      Option.some.injEq] at hstep
    obtain ⟨rt, hrt, hsub, rfl⟩ := hstep
    exact linked_runtime h hrt hsub

theorem linked_run {as : List (Action ι)} (hrun : (machine names root).run as = some s) :
    Linked names root s :=
  (machine names root).runFrom_invariant (fun _ _ _ h hstep => linked_step h hstep) linked_init hrun

/-- The runtime by itself makes a run of its own. -/
theorem runtime_run {as : List (Action ι)} (hrun : (machine names root).runFrom s as = some u) :
    Shutdown.machine.runFrom s.rt (runtimeActions as) = some u.rt := by
  induction as generalizing s with
  | nil =>
    cases hrun
    rfl
  | cons a as ih =>
    obtain ⟨v, hv, hrest⟩ := (machine names root).runFrom_cons.mp hrun
    cases a with
    | scheduler i =>
      simp only [step, Option.map_eq_some_iff] at hv
      obtain ⟨w, -, rfl⟩ := hv
      have htail := ih hrest
      exact htail
    | runtime a =>
      simp only [step, Option.bind_eq_some_iff, Option.ite_none_right_eq_some,
        Option.some.injEq] at hv
      obtain ⟨rt, hrt, -, rfl⟩ := hv
      exact Shutdown.machine.runFrom_cons.mpr ⟨rt, hrt, ih hrest⟩

/-! ## 4. From the fiber to the runtime and back -/

/-- **Every task, from end to end.**  In every interleaving of the threads and of the loop thread, a
task that a fiber has submitted is in flight, with no result, and either has not been taken up, or
has been dropped by a step of the loop thread, or is in the custody of exactly one place of the
runtime; or it has one result, is in no place any more, and is once in the queue of its thread or
among what has been taken from it; and the fibers that have awaited it went on with that result. -/
theorem task_end_to_end {as : List (Action ι)} (hrun : (machine names root).run as = some s)
    {i : ι} {h : Handle} (htask : h ∈ (s.threads i).tasks) :
    (h ∈ (s.threads i).inFlight ∧ s.rt.rt.completed.results (names.addr i h) = [] ∧
        (∀ f r, (f, h, r) ∉ (s.threads i).continued) ∧
        (names.addr i h ∉ s.rt.rt.tasks ∨
          names.addr i h ∈ Shutdown.machine.outputs dropped Shutdown.machine.init
            (runtimeActions as) ∨ ∃! p, names.addr i h ∈ held s.rt p)) ∨
      ∃ r, s.rt.rt.completed.results (names.addr i h) = [r] ∧
        ((s.threads i).cq ++ (s.threads i).reaped).count h = 1 ∧
        (∀ f r', (f, h, r') ∈ (s.threads i).continued → r' = r) ∧
        ∀ p, names.addr i h ∉ held s.rt p := by
  have hlinked := linked_run hrun
  have hkept := TaskCustody.kept_run (runtime_run hrun)
  have hagrees := agrees_taskResult hkept
  have hreach := hlinked.reach _ hagrees i
  by_cases hnil : s.rt.rt.completed.results (names.addr i h) = []
  · have hcontinued : ∀ f r, (f, h, r) ∉ (s.threads i).continued := by
      intro f r hmem
      have hreaped := (continued_value hreach hmem).2
      exact (hlinked.done i h).mp (Or.inr hreaped) hnil
    refine Or.inl ⟨(hlinked.inFlight i h).mpr ⟨htask, hnil⟩, hnil, hcontinued, ?_⟩
    by_cases hmem : names.addr i h ∈ s.rt.rt.tasks
    · refine Or.inr ?_
      rcases (hkept.mem_tasks _).mp hmem with hne | hlost | ⟨p, hp⟩
      · exact absurd hnil hne
      · exact Or.inl hlost
      · exact Or.inr ⟨p, hp, fun q hq => hkept.balanced.apart q p _ hq hp⟩
    · exact Or.inl hmem
  · obtain ⟨r, hr⟩ := List.exists_mem_of_ne_nil _ hnil
    have hone : s.rt.rt.completed.results (names.addr i h) = [r] := by
      have hpos := List.length_pos_of_mem hr
      have hle := hkept.results_le_one (names.addr i h)
      obtain ⟨x, hx⟩ := List.length_eq_one_iff.mp (Nat.le_antisymm hle hpos)
      rw [hx] at hr ⊢
      rw [List.mem_singleton.mp hr]
    refine Or.inr ⟨r, hone, ?_, fun f r' hmem => ?_, fun p hp => ?_⟩
    · have hnodup := (hlinked.tasks i).nodup
      rw [Async.State.tasks, List.append_assoc, List.nodup_append'] at hnodup
      apply List.count_eq_one_of_mem hnodup.2.1
      exact List.mem_append.mpr ((hlinked.done i h).mpr hnil)
    · exact (continued_value hreach hmem).1.trans (hagrees _ r hr)
    · exact hnil (hkept.open_of_held hp).1

/-- **`run-async` over the runtime.**  Whatever the other threads do, a thread whose `run-async` has
come to its exit returns or raises what its program, read without scheduler and runtime, makes of
the results that the runtime has given its tasks.  And a scheduler that can make no step has exited,
or blocks for the sake of a task that the loop thread has not taken up, has dropped or holds. -/
theorem runAsync_over_runtime {as : List (Action ι)}
    (hroot : ∀ i, (root i).Disciplined (fun _ => False) fun _ => False)
    (hrun : (machine names root).run as = some s) (i : ι) :
    ((s.threads i).pc = .exited → ∃ o,
        (root i).elide (fun h => taskResult s.rt (names.addr i h)) = some o ∧
          Async.runAsync (s.threads i) = some (.of o)) ∧
      (step names s (.scheduler i) = none → (s.threads i).pc = .exited ∨
        ∃ f h, (f, h) ∈ (s.threads i).awaits ∧ h ∈ (s.threads i).inFlight ∧
          (names.addr i h ∉ s.rt.rt.tasks ∨
            names.addr i h ∈ Shutdown.machine.outputs dropped Shutdown.machine.init
              (runtimeActions as) ∨ ∃ p, names.addr i h ∈ held s.rt p)) := by
  have hlinked := linked_run hrun
  have hkept := TaskCustody.kept_run (runtime_run hrun)
  have hreach := hlinked.reach _ (agrees_taskResult hkept) i
  have hbehaves := Async.behaves_reachable (hroot i) hreach
  refine ⟨fun hpc => ?_, fun hstop => ?_⟩
  · obtain ⟨O, o, hO, ho, helide⟩ :=
      Async.elide_total (fun h => taskResult s.rt (names.addr i h)) (hroot i)
    exact ⟨o, helide, Async.runAsync_exited hO ho hreach hbehaves.isolated hpc⟩
  · rw [step, Option.map_eq_none_iff] at hstop
    rcases Async.tick_stopped hstop with hpc | ⟨hpc, hcq⟩ | hastray
    · exact Or.inl hpc
    · refine Or.inr ?_
      obtain ⟨f, h, hmem, hreaped⟩ := Async.waiting_open hreach hbehaves.once hpc
      -- the queue is empty, so the task has not been completed
      have hnil : s.rt.rt.completed.results (names.addr i h) = [] := by
        by_contra hne
        rcases (hlinked.done i h).mpr hne with hq | hr
        · rw [hcq] at hq
          cases hq
        · exact hreaped hr
      refine ⟨f, h, hmem, (hlinked.inFlight i h).mpr ⟨(hbehaves.isolated.own _ hmem).1, hnil⟩, ?_⟩
      by_cases htask : names.addr i h ∈ s.rt.rt.tasks
      · exact Or.inr (((hkept.mem_tasks _).mp htask).resolve_left fun hne => hne hnil)
      · exact Or.inl htask
    · exact absurd hastray hbehaves.not_astray

end

/-! ## 5. Two threads -/

instance : Encodable Handle :=
  Encodable.ofLeftInverse
    (fun h => match h with
      | .num n => Sum.inl n
      | .task f n => Sum.inr (f, n))
    (fun x : Int ⊕ (Async.FutureId × Nat) => match x with
      | .inl n => Handle.num n
      | .inr (f, n) => .task f n)
    fun h => by cases h <;> rfl

def Names.coded : Names Bool where
  addr i h := Encodable.encode (i, h)
  owner := Encodable.decode₂ (Bool × Handle)
  owner_eq _ _ _ := Encodable.mem_decode₂

/-- Two threads open a file each.  The loop thread has opened that of the first one, which has come
to its exit, and has taken up the task of the second one. -/
def twoOpens : List (Action Bool) :=
  let first : OneShot.Task := { id := Names.coded.addr true (.task [] 0), op := .fsOpen }
  let second : OneShot.Task := { id := Names.coded.addr false (.task [] 0), op := .fsOpen }
  List.replicate 6 (.scheduler true) ++ List.replicate 6 (.scheduler false) ++
    [.runtime (.oneShot (.dispatch second {})), .runtime (.oneShot (.dispatch first {})),
      .runtime (.oneShot (.onFsDone first { result := 9 }))] ++
    List.replicate 7 (.scheduler true)

def fetchers : Bool → Body Unit := fun _ => Async.fetch

theorem task_end_to_end_twoOpens :
    ∃ s, (machine Names.coded fetchers).run twoOpens = some s ∧
      ∃ r, s.rt.rt.completed.results (Names.coded.addr true (.task [] 0)) = [r] ∧
        ((s.threads true).cq ++ (s.threads true).reaped).count (.task [] 0) = 1 := by
  have hmap : ((machine Names.coded fetchers).run twoOpens).map (fun s =>
      ((s.threads true).inFlight, (s.threads true).tasks)) = some ([], [.task [] 0]) := by
    decide +kernel
  obtain ⟨s, hs, hlists⟩ := Option.map_eq_some_iff.mp hmap
  rw [Prod.mk.injEq] at hlists
  have htask : Handle.task [] 0 ∈ (s.threads true).tasks := hlists.2 ▸ List.mem_singleton_self _
  rcases task_end_to_end hs htask with ⟨hin, -⟩ | ⟨r, hr, hcount, -⟩
  · rw [hlists.1] at hin
    cases hin
  · exact ⟨s, hs, r, hr, hcount⟩

/-- The first thread has come to its exit, the second one waits for its task. -/
theorem runAsync_over_runtime_twoOpens :
    ∃ s o, (machine Names.coded fetchers).run twoOpens = some s ∧
      Async.runAsync (s.threads true) = some (.of o) ∧
      ∃ f h, (f, h) ∈ (s.threads false).awaits ∧ h ∈ (s.threads false).inFlight := by
  have hmap : ((machine Names.coded fetchers).run twoOpens).map (fun s =>
      (Async.runAsync (s.threads true), Async.runAsync (s.threads false),
        (step Names.coded s (.scheduler false)).isNone)) =
      some (some (.value (.int (.num 9))), none, true) := by
    decide +kernel
  obtain ⟨s, hs, hparts⟩ := Option.map_eq_some_iff.mp hmap
  simp only [Prod.mk.injEq, Option.isNone_iff_eq_none] at hparts
  have hroot : ∀ i, (fetchers i).Disciplined (fun _ => False) fun _ => False :=
    fun _ => Async.disciplined_fetch _
  have hexited : (s.threads true).pc = .exited := by
    by_contra hpc
    rw [runAsync_eq_none.mpr hpc] at hparts
    cases hparts.1
  obtain ⟨o, -, ho⟩ := (runAsync_over_runtime hroot hs true).1 hexited
  rcases (runAsync_over_runtime hroot hs false).2 hparts.2.2 with hpc | ⟨f, h, hmem, hin, -⟩
  · exact absurd hpc (runAsync_eq_none.mp hparts.2.1)
  · exact ⟨s, o, hs, ho, f, h, hmem, hin⟩

end ChezAsync.OverRuntime
