import Mathlib.Tactic.Common
import ChezAsync.Lib.Machine
import ChezAsync.Runtime.Task

/-!
# Waiting for a child process (`runtime.cpp`, `net.hpp`)

One `Process` after a successful spawn: `ProcWait`, `ProcKill` and `ProcClose` dispatches, the exit
callback and the close callback, in any order.  libuv calls the exit callback at most once and not
after `uv_close`.
-/

namespace ChezAsync.Process

structure State where
  exited : Bool
  exitStatus : Int
  termSignal : Int
  waitTask : Option TaskId
  handle : LoopHandle
  completed : Completions
  -- The record of the run: the tasks dispatched, the `ProcWait` ones, and those whose dispatch
  -- read the object after it was deleted.
  tasks : List TaskId
  waits : List TaskId
  misused : List TaskId

inductive Action
  | procWait (t : TaskId)
  | procKill (t : TaskId) (r : Int)
  | procClose (t : TaskId)
  | onProcessExit (exitStatus termSignal : Int)
  | onClosed
  deriving DecidableEq

/-- Dispatch of `ProcWait`. -/
def procWait (s : State) (t : TaskId) : State :=
  if s.exited then { s with completed := s.completed ++ [(t, s.exitStatus)] }
  else { s with waitTask := some t }

/-- `on_process_exit`. -/
def onProcessExit (s : State) (exitStatus termSignal : Int) : State :=
  let s := { s with exited := true, exitStatus, termSignal }
  match s.waitTask with
  | some t => { s with waitTask := none, completed := s.completed ++ [(t, exitStatus)] }
  | none => s

/-- Dispatch of `ProcClose`. -/
def procClose (s : State) (t : TaskId) : State :=
  { s with handle := s.handle.close (some t) }

def step (s : State) : Action → Option State
  | .procWait t =>
      if t ∉ s.tasks then
        let u := if s.handle.state = .destroyed then { s with misused := s.misused ++ [t] }
          else procWait s t
        some { u with tasks := s.tasks ++ [t], waits := s.waits ++ [t] }
      else none
  | .procKill t r =>
      if t ∉ s.tasks then
        let u := if s.handle.state = .destroyed then { s with misused := s.misused ++ [t] }
          else { s with completed := s.completed ++ [(t, r)] }
        some { u with tasks := s.tasks ++ [t] }
      else none
  | .procClose t =>
      if t ∉ s.tasks ∧ s.handle.state = .live then
        some { procClose s t with tasks := s.tasks ++ [t] }
      else none
  | .onProcessExit exitStatus termSignal =>
      if s.exited = false ∧ s.handle.state = .live then
        some (onProcessExit s exitStatus termSignal)
      else none
  | .onClosed =>
      if s.handle.state = .closing then
        some { s with
          handle := s.handle.onClosed.1, completed := s.completed ++ s.handle.onClosed.2 }
      else none

/-- A process that has just been spawned. -/
def machine : Machine State Action where
  init :=
    { exited := false, exitStatus := 0, termSignal := 0, waitTask := none
      handle := { state := .live, closeTask := none }
      completed := [], tasks := [], waits := [], misused := [] }
  step := step

/-- One constructor for each kind of step. -/
inductive Step (s : State) : Action → State → Prop
  | waitDeleted {t} : t ∉ s.tasks → s.handle.state = .destroyed →
      Step s (.procWait t) { s with
        misused := s.misused ++ [t], tasks := s.tasks ++ [t], waits := s.waits ++ [t] }
  | waitExited {t} : t ∉ s.tasks → s.handle.state ≠ .destroyed → s.exited = true →
      Step s (.procWait t) { s with
        completed := s.completed ++ [(t, s.exitStatus)]
        tasks := s.tasks ++ [t], waits := s.waits ++ [t] }
  | waitParked {t} : t ∉ s.tasks → s.handle.state ≠ .destroyed → s.exited = false →
      Step s (.procWait t) { s with
        waitTask := some t, tasks := s.tasks ++ [t], waits := s.waits ++ [t] }
  | killDeleted {t r} : t ∉ s.tasks → s.handle.state = .destroyed →
      Step s (.procKill t r) { s with misused := s.misused ++ [t], tasks := s.tasks ++ [t] }
  | kill {t r} : t ∉ s.tasks → s.handle.state ≠ .destroyed →
      Step s (.procKill t r) { s with
        completed := s.completed ++ [(t, r)], tasks := s.tasks ++ [t] }
  | procClose {t} : t ∉ s.tasks → s.handle.state = .live →
      Step s (.procClose t) { procClose s t with tasks := s.tasks ++ [t] }
  | exitAlone {st sg} : s.exited = false → s.handle.state = .live → s.waitTask = none →
      Step s (.onProcessExit st sg) { s with
        exited := true, exitStatus := st, termSignal := sg }
  | exitParked {st sg t} : s.exited = false → s.handle.state = .live → s.waitTask = some t →
      Step s (.onProcessExit st sg) { s with
        exited := true, exitStatus := st, termSignal := sg
        waitTask := none, completed := s.completed ++ [(t, st)] }
  | closed : s.handle.state = .closing → s.handle.closeTask = none →
      Step s .onClosed { s with handle := { state := .destroyed, closeTask := none } }
  | closedFor {t} : s.handle.state = .closing → s.handle.closeTask = some t →
      Step s .onClosed { s with
        handle := { state := .destroyed, closeTask := none }
        completed := s.completed ++ [(t, 0)] }

theorem step_cases {s u : State} {a : Action} (h : step s a = some u) : Step s a u := by
  cases a with
  | procWait t =>
    simp only [step, procWait, Option.ite_none_right_eq_some, Option.some.injEq] at h
    rcases h with ⟨ht, rfl⟩
    split
    case isTrue hd => exact .waitDeleted ht hd
    case isFalse hd =>
      split
      case isTrue hexit => exact .waitExited ht hd hexit
      case isFalse hexit => exact .waitParked ht hd (Bool.eq_false_iff.mpr hexit)
  | procKill t r =>
    simp only [step, Option.ite_none_right_eq_some, Option.some.injEq] at h
    rcases h with ⟨ht, rfl⟩
    split
    case isTrue hd => exact .killDeleted ht hd
    case isFalse hd => exact .kill ht hd
  | procClose t =>
    simp only [step, Option.ite_none_right_eq_some, Option.some.injEq] at h
    rcases h with ⟨⟨ht, hlive⟩, rfl⟩
    exact .procClose ht hlive
  | onProcessExit st sg =>
    simp only [step, Option.ite_none_right_eq_some, Option.some.injEq] at h
    rcases h with ⟨⟨hexit, hlive⟩, rfl⟩
    rcases hslot : s.waitTask with _ | t <;> simp only [onProcessExit, hslot]
    · exact hslot ▸ .exitAlone hexit hlive hslot
    · exact .exitParked hexit hlive hslot
  | onClosed =>
    simp only [step, LoopHandle.onClosed, Option.ite_none_right_eq_some, Option.some.injEq] at h
    rcases h with ⟨hclosing, rfl⟩
    rcases hct : s.handle.closeTask with _ | t
    · rw [List.append_nil]
      exact .closed hclosing hct
    · exact .closedFor hclosing hct

/-! ## 1. What a wait is owed -/

/-- Completed once: with the exit status of a child that has exited, or with an error when the
handle was closed first. -/
def AnsweredOnce (s : State) (t : TaskId) : Prop :=
  ∃ r, s.completed.results t = [r] ∧
    (s.exited = true ∧ r = s.exitStatus ∨ s.handle.state ≠ .live ∧ r < 0)

/-- Parked on a process that can still exit. -/
def Parked (s : State) (t : TaskId) : Prop :=
  s.waitTask = some t ∧ s.exited = false ∧ s.handle.state = .live ∧ s.completed.results t = []

def EveryWaitAnswered (s : State) : Prop := ∀ t ∈ s.waits, AnsweredOnce s t ∨ Parked s t

/-- The condition on the steps: a `ProcWait` is dispatched to an object that exists, and on a child
that has not exited only to an open handle without a parked wait; a `ProcClose` is dispatched only
when no wait is parked. -/
def OneWaiter (s : State) : Action → Prop
  | .procWait _ =>
      s.handle.state ≠ .destroyed ∧
        (s.exited = true ∨ s.handle.state = .live ∧ s.waitTask = none)
  | .procClose _ => s.waitTask = none
  | _ => True

instance (s : State) (a : Action) : Decidable (OneWaiter s a) := by
  cases a <;> unfold OneWaiter <;> infer_instance

structure Inv (s : State) : Prop where
  -- within the condition a wait is answered or in the slot, and nobody else is in the slot
  waits : ∀ t ∈ s.waits, t ∈ s.tasks ∧
    (s.exited = true ∧ s.completed.results t = [s.exitStatus] ∨ Parked s t)
  parked : ∀ t, s.waitTask = some t → t ∈ s.waits ∧ Parked s t
  fresh : ∀ t, t ∉ s.tasks → s.completed.results t = []
  -- `OnClosed` will complete the close task, which is no wait
  close : ∀ t, s.handle.closeTask = some t →
    t ∈ s.tasks ∧ t ∉ s.waits ∧ s.handle.state = .closing

theorem inv_init : Inv machine.init := by
  refine ⟨?_, ?_, ?_, ?_⟩ <;> simp [machine]

/-! ## 2. Steps within the condition keep the invariant -/

/-- A task is dispatched. -/
theorem inv_dispatch {s : State} (hs : Inv s) (t : TaskId) :
    Inv { s with tasks := s.tasks ++ [t] } := by
  refine ⟨?_, hs.parked, ?_, ?_⟩
  · intro t' ht'
    exact ⟨List.mem_append_left _ (hs.waits t' ht').1, (hs.waits t' ht').2⟩
  · intro t' ht'
    exact hs.fresh t' fun h => ht' (List.mem_append_left _ h)
  · intro t' ht'
    exact ⟨List.mem_append_left _ (hs.close t' ht').1, (hs.close t' ht').2⟩

/-- A completion of a task that is no wait. -/
theorem inv_complete {s : State} {t : TaskId} {r : Int} (hs : Inv s) (ht : t ∈ s.tasks)
    (hw : t ∉ s.waits) : Inv { s with completed := s.completed ++ [(t, r)] } := by
  have hne : ∀ t' ∈ s.waits, t' ≠ t := fun t' ht' heq => hw (heq ▸ ht')
  have hpark : ∀ t' ∈ s.waits, Parked s t' →
      Parked { s with completed := s.completed ++ [(t, r)] } t' := by
    intro t' ht' h
    exact ⟨h.1, h.2.1, h.2.2.1, (s.completed.results_snoc_of_ne (hne t' ht') r).trans h.2.2.2⟩
  refine ⟨?_, ?_, ?_, hs.close⟩
  · intro t' ht'
    refine ⟨(hs.waits t' ht').1, (hs.waits t' ht').2.imp ?_ (hpark t' ht')⟩
    exact fun h => ⟨h.1, (s.completed.results_snoc_of_ne (hne t' ht') r).trans h.2⟩
  · intro t' ht'
    exact ⟨(hs.parked t' ht').1, hpark t' (hs.parked t' ht').1 (hs.parked t' ht').2⟩
  · intro t' ht'
    have hne' : t' ≠ t := by
      rintro rfl
      exact ht' ht
    exact (s.completed.results_snoc_of_ne hne' r).trans (hs.fresh t' ht')

/-- A wait that is dispatched now is a task, as the earlier ones are. -/
theorem Inv.waitTasks {s : State} {t : TaskId} (hs : Inv s) :
    ∀ t' ∈ s.waits ++ [t], t' ∈ s.tasks ++ [t] := by
  intro t' ht'
  rcases List.mem_append.mp ht' with ht' | ht'
  · exact List.mem_append_left _ (hs.waits t' ht').1
  · exact List.mem_append_right _ ht'

/-- The close task was there before the wait. -/
theorem Inv.closeTask {s : State} {t : TaskId} (hs : Inv s) (ht : t ∉ s.tasks) :
    ∀ t', s.handle.closeTask = some t' →
      t' ∈ s.tasks ++ [t] ∧ t' ∉ s.waits ++ [t] ∧ s.handle.state = .closing := by
  intro t' ht'
  have hold := hs.close t' ht'
  refine ⟨List.mem_append_left _ hold.1, ?_, hold.2.2⟩
  rw [List.mem_append, List.mem_singleton, not_or]
  exact ⟨hold.2.1, fun heq => ht (heq ▸ hold.1)⟩

/-- The status is known: the wait completes at once. -/
theorem inv_waitExited {s : State} {t : TaskId} (hs : Inv s) (ht : t ∉ s.tasks)
    (hexit : s.exited = true) :
    Inv { s with
      completed := s.completed ++ [(t, s.exitStatus)]
      tasks := s.tasks ++ [t], waits := s.waits ++ [t] } := by
  have hne : ∀ t' ∈ s.waits, t' ≠ t := fun t' ht' heq => ht (heq ▸ (hs.waits t' ht').1)
  refine ⟨?_, ?_, ?_, hs.closeTask ht⟩
  · intro t' ht'
    refine ⟨hs.waitTasks t' ht', Or.inl ⟨hexit, ?_⟩⟩
    rcases List.mem_append.mp ht' with ht' | ht'
    · rcases (hs.waits t' ht').2 with hold | hold
      · exact (s.completed.results_snoc_of_ne (hne t' ht') _).trans hold.2
      · exact absurd (hexit.symm.trans hold.2.1) (by simp)
    · rw [List.mem_singleton.mp ht']
      exact Completions.results_snoc_self (hs.fresh t ht) _
  · intro t' ht'
    exact absurd (hexit.symm.trans (hs.parked t' ht').2.2.1) (by simp)
  · intro t' ht'
    rw [List.mem_append, List.mem_singleton, not_or] at ht'
    exact (s.completed.results_snoc_of_ne ht'.2 _).trans (hs.fresh t' ht'.1)

/-- The slot was empty and the handle open: the wait is parked. -/
theorem inv_waitParked {s : State} {t : TaskId} (hs : Inv s) (ht : t ∉ s.tasks)
    (hexit : s.exited = false) (hlive : s.handle.state = .live) (hslot : s.waitTask = none) :
    Inv { s with waitTask := some t, tasks := s.tasks ++ [t], waits := s.waits ++ [t] } := by
  have hpark : Parked { s with waitTask := some t } t := ⟨rfl, hexit, hlive, hs.fresh t ht⟩
  refine ⟨?_, ?_, ?_, hs.closeTask ht⟩
  · intro t' ht'
    refine ⟨hs.waitTasks t' ht', ?_⟩
    rcases List.mem_append.mp ht' with ht' | ht'
    · refine (hs.waits t' ht').2.imp_right fun hold => ?_
      exact absurd (hslot.symm.trans hold.1) (by simp)
    · rw [List.mem_singleton.mp ht']
      exact Or.inr hpark
  · intro t' ht'
    cases ht'
    exact ⟨List.mem_append_right _ (List.mem_singleton_self _), hpark⟩
  · intro t' ht'
    exact hs.fresh t' fun h => ht' (List.mem_append_left _ h)

/-- Before the exit nobody has an answer: every wait is parked. -/
theorem Inv.parked_of_running {s : State} (hs : Inv s) (hexit : s.exited = false) :
    ∀ t ∈ s.waits, Parked s t := by
  intro t ht
  refine (hs.waits t ht).2.resolve_left fun h => ?_
  exact absurd (hexit.symm.trans h.1) (by simp)

-- The one wait that is owed an answer is the one in the slot.
theorem inv_exitParked {s : State} {t : TaskId} {st sg : Int} (hs : Inv s)
    (hexit : s.exited = false) (hslot : s.waitTask = some t) :
    Inv { s with
      exited := true, exitStatus := st, termSignal := sg
      waitTask := none, completed := s.completed ++ [(t, st)] } := by
  have hold := hs.parked t hslot
  have hone : ∀ t' ∈ s.waits, t' = t := by
    intro t' ht'
    exact Option.some.inj ((hs.parked_of_running hexit t' ht').1.symm.trans hslot)
  refine ⟨?_, ?_, ?_, hs.close⟩
  · intro t' ht'
    refine ⟨(hs.waits t' ht').1, Or.inl ⟨rfl, ?_⟩⟩
    rw [hone t' ht']
    exact Completions.results_snoc_self hold.2.2.2.2 st
  · intro t' ht'
    cases ht'
  · intro t' ht'
    have hne : t' ≠ t := fun heq => ht' (heq ▸ (hs.waits t hold.1).1)
    exact (s.completed.results_snoc_of_ne hne st).trans (hs.fresh t' ht')

/-- With an empty slot every wait is answered, and the handle may change. -/
theorem inv_handle {s : State} (hs : Inv s) (hslot : s.waitTask = none) (x : LoopHandle)
    (hclose : ∀ t, x.closeTask = some t → t ∈ s.tasks ∧ t ∉ s.waits ∧ x.state = .closing) :
    Inv { s with handle := x } := by
  refine ⟨?_, ?_, hs.fresh, hclose⟩
  · intro t ht
    refine ⟨(hs.waits t ht).1, (hs.waits t ht).2.imp_right fun hold => ?_⟩
    exact absurd (hslot.symm.trans hold.1) (by simp)
  · intro t ht
    exact absurd (hslot.symm.trans ht) (by simp)

/-- A parked wait has an open handle. -/
theorem Inv.slot_of_closing {s : State} (hs : Inv s) (hclosing : s.handle.state = .closing) :
    s.waitTask = none := by
  rcases hp : s.waitTask with _ | t
  · rfl
  · exact absurd (hclosing.symm.trans (hs.parked t hp).2.2.2.1) (by simp)

theorem inv_step {s u : State} {a : Action} (hs : Inv s) (hC : OneWaiter s a)
    (h : step s a = some u) : Inv u := by
  cases step_cases h with
  | waitDeleted ht hd => exact absurd hd hC.1
  | waitExited ht hd hexit => exact inv_waitExited hs ht hexit
  | waitParked ht hd hexit =>
    have hopen := hC.2.resolve_left (by simp [hexit])
    exact inv_waitParked hs ht hexit hopen.1 hopen.2
  | @killDeleted t r ht hd => exact { inv_dispatch hs t with }
  | @kill t r ht hd =>
    apply inv_complete (inv_dispatch hs t) (List.mem_append_right _ (List.mem_singleton_self _))
    exact fun hw => ht (hs.waits t hw).1
  | @procClose t ht hlive =>
    refine inv_handle (inv_dispatch hs t) hC _ fun t' ht' => ?_
    cases ht'
    exact ⟨List.mem_append_right _ (List.mem_singleton_self _),
      fun hw => ht (hs.waits t hw).1, rfl⟩
  | exitAlone hexit hlive hslot =>
    have hnone : ∀ t, t ∉ s.waits := fun t ht =>
      absurd (hslot.symm.trans (hs.parked_of_running hexit t ht).1) (by simp)
    refine ⟨fun t ht => absurd ht (hnone t), fun t ht => ?_, hs.fresh, hs.close⟩
    exact absurd (hslot.symm.trans ht) (by simp)
  | exitParked hexit hlive hslot => exact inv_exitParked hs hexit hslot
  | closed hclosing hct => exact inv_handle hs (hs.slot_of_closing hclosing) _ (by simp)
  | closedFor hclosing hct =>
    have hs' := inv_handle hs (hs.slot_of_closing hclosing)
      { state := .destroyed, closeTask := none } (by simp)
    exact inv_complete hs' (hs.close _ hct).1 (hs.close _ hct).2.1

theorem Inv.answered {s : State} (hs : Inv s) : EveryWaitAnswered s := by
  intro t ht
  rcases (hs.waits t ht).2 with ⟨hexit, hres⟩ | hp
  · exact Or.inl ⟨s.exitStatus, hres, Or.inl ⟨hexit, rfl⟩⟩
  · exact Or.inr hp

/-! ## 3. A step outside the condition loses a wait -/

/-- A wait without a result that is not in the slot of an open handle is lost. -/
theorem lost_of_unparked {s : State} {t : TaskId} (ht : t ∈ s.waits)
    (hres : s.completed.results t = []) (hp : ¬ Parked s t) : ¬ EveryWaitAnswered s := by
  intro h
  rcases h t ht with ⟨r, hr, _⟩ | h
  · rw [hres] at hr
    cases hr
  · exact hp h

-- Each way out of the condition leaves a wait that nobody will complete.
theorem lost_of_not_oneWaiter {s u : State} {a : Action} (hs : Inv s) (hC : ¬ OneWaiter s a)
    (h : step s a = some u) : ¬ EveryWaitAnswered u := by
  rcases hs with ⟨hw, hp, hf, _⟩
  cases step_cases h with
  | killDeleted | kill | exitAlone | exitParked | closed | closedFor => exact absurd trivial hC
  | waitExited ht hd hexit => exact absurd ⟨hd, Or.inl hexit⟩ hC
  | @waitDeleted t ht hd =>
    -- the dispatch reads a deleted object
    refine lost_of_unparked (t := t) ?_ ?_ ?_ <;> grind [Parked]
  | @waitParked t ht hd hexit =>
    rcases hslot : s.waitTask with _ | x
    · -- the handle is closing: the exit callback will not come
      refine lost_of_unparked (t := t) ?_ ?_ ?_ <;> grind [Parked, OneWaiter]
    · -- the slot is overwritten
      refine lost_of_unparked (t := x) ?_ ?_ ?_ <;> grind [Parked]
  | @procClose t ht hlive =>
    rcases hslot : s.waitTask with _ | x
    · exact absurd hslot hC
    · refine lost_of_unparked (t := x) ?_ ?_ ?_ <;>
        grind [Parked, procClose, LoopHandle.close]

/-- **When every waiter is answered.**  All along a schedule every dispatched `ProcWait` has been
completed exactly once, with the exit status of a child that has exited or with an error, or is
parked on a process that can still exit, if and only if every step met `OneWaiter`. -/
theorem waits_answered_iff {as : List Action} {s : State} (hrun : machine.run as = some s) :
    machine.Always EveryWaitAnswered machine.init as ↔
      machine.Meets OneWaiter machine.init as :=
  Machine.always_iff_meets (fun _ _ _ hs hC ht => inv_step hs hC ht) (fun _ hs => hs.answered)
    (fun _ _ _ hs hC ht => lost_of_not_oneWaiter hs hC ht) inv_init hrun

def answeredWaits : List Action :=
  [.procWait 1, .onProcessExit 3 0, .procWait 2, .procClose 4, .onClosed]

theorem waits_answered_answeredWaits :
    machine.Always EveryWaitAnswered machine.init answeredWaits :=
  (@waits_answered_iff answeredWaits _ rfl).mpr (by decide)

/-- Two threads wait on one child; the second wait takes the slot of the first. -/
def overwrittenWait : List Action := [.procWait 1, .procWait 2, .onProcessExit 0 0]

/-- The child has exited, the second wait is answered, the first has no result and is parked
nowhere. -/
theorem wait_overwritten :
    ∃ s, machine.run overwrittenWait = some s ∧ s.waits = [1, 2] ∧ s.waitTask = none ∧
      s.completed = [(2, 0)] ∧ ¬ EveryWaitAnswered s :=
  ⟨_, rfl, rfl, rfl, rfl,
    lost_of_unparked (t := 1) (by decide) rfl fun h => absurd h.1 (by decide)⟩

end ChezAsync.Process