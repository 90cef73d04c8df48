import ChezAsync.HighLevel.Composite
import ChezAsync.Runtime.Process

/-!
# The exit code of a child (`runtime.cpp`, `io-proc.ss`)

libuv hands a child's end to `on_process_exit` as an exit status and a signal.  `io-proc-wait`
returns the status alone, whether the wait was parked when the child exited or came after it, and
so a child that was killed looks like one that has returned 0.
-/

namespace ChezAsync.ExitCode

open Process
open Composite (Request Completion Act ioProcWait ioRun ioRunOutput)

/-! ## 1. How a child ends, and what the wait is told -/

inductive Outcome
  | exited (code : Nat)
  | killed (signal : Nat) (hsignal : 0 < signal)

/-- What libuv passes to the exit callback. -/
def Outcome.exitStatus : Outcome → Int
  | .exited code => code
  | .killed .. => 0

def Outcome.termSignal : Outcome → Int
  | .exited _ => 0
  | .killed signal _ => signal

def Outcome.Success (o : Outcome) : Prop := o = .exited 0

/-- A result of a wait, in some order of the exit callback and of the dispatches. -/
def WaitResult (o : Outcome) (r : Int) : Prop :=
  ∃ as s t, machine.run as = some s ∧ .onProcessExit o.exitStatus o.termSignal ∈ as ∧
    t ∈ s.waits ∧ r ∈ s.completed.results t

/-! ## 2. A wait is told the exit status -/

/-- What holds in every run, however many waits there are and whenever the handle is closed. -/
structure Inv (s : State) : Prop where
  waits : ∀ t ∈ s.waits, t ∈ s.tasks
  fresh : ∀ t, t ∉ s.tasks → s.completed.results t = []
  slot : ∀ t, s.waitTask = some t → t ∈ s.waits
  close : ∀ t, s.handle.closeTask = some t → t ∈ s.tasks ∧ t ∉ s.waits
  told : ∀ t ∈ s.waits, ∀ r ∈ s.completed.results t, s.exited = true ∧ r = s.exitStatus

theorem inv_init : Inv machine.init := by
  refine ⟨?_, ?_, ?_, ?_, ?_⟩ <;> simp [machine]

/-- A completion of a task that is no wait. -/
theorem inv_complete {s : State} {t : TaskId} {r : Int} (hs : Inv s) (ht : t ∈ s.tasks)
    (hw : t ∉ s.waits) : Inv { s with completed := s.completed ++ [(t, r)] } := by
  refine ⟨hs.waits, ?_, hs.slot, hs.close, ?_⟩
  · intro t' ht'
    have hne : t' ≠ t := fun heq => ht' (heq ▸ ht)
    exact (s.completed.results_snoc_of_ne hne r).trans (hs.fresh t' ht')
  · intro t' ht' r' hr'
    have hne : t' ≠ t := fun heq => hw (heq ▸ ht')
    rw [s.completed.results_snoc_of_ne hne r] at hr'
    exact hs.told t' ht' r' hr'

/-- A completion of a wait with the status of a child that has exited. -/
theorem inv_tell {s : State} {t : TaskId} (hs : Inv s) (hexit : s.exited = true)
    (hw : t ∈ s.waits) : Inv { s with completed := s.completed ++ [(t, s.exitStatus)] } := by
  refine ⟨hs.waits, ?_, hs.slot, hs.close, ?_⟩
  · intro t' ht'
    have hne : t' ≠ t := fun heq => ht' (heq ▸ hs.waits t hw)
    exact (s.completed.results_snoc_of_ne hne _).trans (hs.fresh t' ht')
  · intro t' ht' r' hr'
    rw [Completions.results_snoc] at hr'
    split at hr'
    case isTrue =>
      rcases List.mem_append.mp hr' with hr' | hr'
      · exact hs.told t' ht' r' hr'
      · exact ⟨hexit, List.mem_singleton.mp hr'⟩
    case isFalse => exact hs.told t' ht' r' hr'

-- A dispatch only makes the task known.
theorem inv_dispatch {s : State} (hs : Inv s) (t : TaskId) :
    Inv { s with tasks := s.tasks ++ [t] } := by
  refine ⟨?_, ?_, hs.slot, ?_, hs.told⟩
  · exact fun t' ht' => List.mem_append_left _ (hs.waits t' ht')
  · exact fun t' ht' => hs.fresh t' fun h => ht' (List.mem_append_left _ h)
  · exact fun t' ht' => ⟨List.mem_append_left _ (hs.close t' ht').1, (hs.close t' ht').2⟩

/-- A task that is dispatched as a wait. -/
theorem inv_wait {s : State} {t : TaskId} (hs : Inv s) (ht : t ∉ s.tasks) :
    Inv { s with tasks := s.tasks ++ [t], waits := s.waits ++ [t] } := by
  have hs' := inv_dispatch hs t
  refine ⟨?_, hs'.fresh, ?_, ?_, ?_⟩
  · intro t' ht'
    rcases List.mem_append.mp ht' with ht' | ht'
    · exact hs'.waits t' ht'
    · exact List.mem_append_right _ ht'
  · exact fun t' ht' => List.mem_append_left _ (hs.slot t' ht')
  · intro t' ht'
    refine ⟨(hs'.close t' ht').1, ?_⟩
    rw [List.mem_append, List.mem_singleton, not_or]
    exact ⟨(hs.close t' ht').2, fun heq => ht (heq ▸ (hs.close t' ht').1)⟩
  · intro t' ht' r hr
    rcases List.mem_append.mp ht' with ht' | ht'
    · exact hs.told t' ht' r hr
    · -- a wait that has just come has no result yet
      rw [List.mem_singleton.mp ht', hs.fresh t ht] at hr
      cases hr

/-- Nobody has been told anything before the child exits. -/
theorem inv_exit {s : State} (hs : Inv s) (hexit : s.exited = false) (st sg : Int) :
    Inv { s with exited := true, exitStatus := st, termSignal := sg } := by
  refine { hs with told := fun t ht r hr => ?_ }
  exact absurd (hexit.symm.trans (hs.told t ht r hr).1) (by simp)

-- A wait is completed in two places: when it comes late, and by the exit callback.
theorem inv_step {s u : State} {a : Action} (hs : Inv s) (h : step s a = some u) : Inv u := by
  cases Process.step_cases h with
  | waitDeleted ht hd => exact { inv_wait hs ht with }
  | waitExited ht hd hexit =>
    exact inv_tell (inv_wait hs ht) hexit (List.mem_append_right _ (List.mem_singleton_self _))
  | @waitParked t ht hd hexit =>
    refine { inv_wait hs ht with slot := fun t' ht' => ?_ }
    cases ht'
    exact List.mem_append_right _ (List.mem_singleton_self _)
  | @killDeleted t r ht hd => exact { inv_dispatch hs t with }
  | @kill t r ht hd =>
    apply inv_complete (inv_dispatch hs t) (List.mem_append_right _ (List.mem_singleton_self _))
    exact fun hw => ht (hs.waits t hw)
  | @procClose t ht hlive =>
    refine { inv_dispatch hs t with close := fun t' ht' => ?_ }
    cases ht'
    exact ⟨List.mem_append_right _ (List.mem_singleton_self _), fun hw => ht (hs.waits t hw)⟩
  | exitAlone hexit => exact inv_exit hs hexit _ _
  | @exitParked st sg t hexit hlive hslot =>
    have hs' : Inv { s with
        exited := true, exitStatus := st, termSignal := sg, waitTask := none } :=
      { inv_exit hs hexit st sg with slot := fun t' ht' => by cases ht' }
    exact inv_tell hs' rfl (hs.slot t hslot)
  | closed => exact { hs with close := fun t ht => by cases ht }
  | closedFor hclosing hct =>
    have hs' : Inv { s with handle := { state := .destroyed, closeTask := none } } :=
      { hs with close := fun t ht => by cases ht }
    exact inv_complete hs' (hs.close _ hct).1 (hs.close _ hct).2

theorem inv_run {as : List Action} {s : State} (h : machine.run as = some s) : Inv s :=
  machine.runFrom_invariant (fun _ _ _ hs ht => inv_step hs ht) inv_init h

/-- The child exits once: what the callback has stored stays. -/
theorem exited_step {s u : State} {a : Action} {st : Int}
    (hs : s.exited = true ∧ s.exitStatus = st) (h : step s a = some u) :
    u.exited = true ∧ u.exitStatus = st := by
  cases Process.step_cases h with
  | exitAlone hexit | exitParked hexit => exact absurd (hexit.symm.trans hs.1) (by simp)
  | _ => exact hs

theorem exited_onProcessExit {s u : State} {st sg : Int}
    (h : step s (.onProcessExit st sg) = some u) : u.exited = true ∧ u.exitStatus = st := by
  cases Process.step_cases h with
  | exitAlone | exitParked => exact ⟨rfl, rfl⟩

-- The exit callback splits the run; nothing after it changes what it has stored.
theorem exited_run {as : List Action} {s : State} {st sg : Int}
    (h : machine.run as = some s) (hmem : .onProcessExit st sg ∈ as) :
    s.exited = true ∧ s.exitStatus = st := by
  obtain ⟨as₁, as₂, rfl⟩ := List.append_of_mem hmem
  obtain ⟨s₁, -, h⟩ := machine.runFrom_append.mp h
  obtain ⟨s₂, hexit, h⟩ := machine.runFrom_cons.mp h
  exact machine.runFrom_invariant (fun _ _ _ hs ht => exited_step hs ht)
    (exited_onProcessExit hexit) h

-- However a wait comes to its result, it is the exit status.
theorem WaitResult.eq {o : Outcome} {r : Int} (h : WaitResult o r) : r = o.exitStatus := by
  obtain ⟨as, s, t, hrun, hmem, ht, hr⟩ := h
  have hexit := (exited_run hrun hmem).2
  exact ((inv_run hrun).told t ht r hr).2.trans hexit

/-- The wait is parked when the child exits. -/
theorem waitResult_parked (o : Outcome) : WaitResult o o.exitStatus :=
  ⟨[.procWait 1, .onProcessExit o.exitStatus o.termSignal], _, 1, rfl,
    List.mem_cons_of_mem _ (List.mem_singleton_self _), List.mem_singleton_self 1,
    List.mem_singleton_self _⟩

/-! ## 3. The code of `io-proc-wait`, `io-run` and `io-run/output` -/

/-- The code is what a wait has completed with. -/
def Waited (code : Int) (tr : List (Request × Completion)) : Prop :=
  ∃ p c, (.procWait p, c) ∈ tr ∧ c.result = code

-- What comes before and after the wait in a trace does not matter.
theorem Waited.after {code : Int} {tr' : List (Request × Completion)} (h : Waited code tr')
    (tr : List (Request × Completion)) : Waited code (tr ++ tr') := by
  obtain ⟨p, c, hmem, hc⟩ := h
  exact ⟨p, c, List.mem_append_right tr hmem, hc⟩

theorem Waited.before {code : Int} {tr : List (Request × Completion)} (h : Waited code tr)
    (tr' : List (Request × Completion)) : Waited code (tr ++ tr') := by
  obtain ⟨p, c, hmem, hc⟩ := h
  exact ⟨p, c, List.mem_append_left tr' hmem, hc⟩

-- The result of the task is returned as it is.
theorem waited_ioProcWait (p : Composite.Process) :
    (ioProcWait p).Ensures Waited := by
  refine Issue.Prog.ensures_bind (P := fun c tr => tr = [(.procWait p.handle, c)])
    (Issue.Prog.ensures_issue _ fun _ => rfl) fun c tr htr => ?_
  subst htr
  split
  · exact Issue.Prog.ensures_raise _
  · exact Issue.Prog.ensures_pure _ ⟨p.handle, c, List.mem_singleton_self _, rfl⟩

/-- What follows the wait does not change the code. -/
theorem waited_finish {β : Type} {g : β → Int} {x : β} {tr : List (Request × Completion)}
    (h : Waited (g x) tr) (close : Act Unit) :
    (close >>= fun _ => pure x : Act β).Ensures fun y tr' => Waited (g y) (tr ++ tr') := by
  refine Issue.Prog.ensures_bind (P := fun _ _ => True) (fun _ _ _ => trivial) fun _ tr' _ => ?_
  exact Issue.Prog.ensures_pure _ (h.before _)

section
variable (e : Bytes.Endian) (junk : Nat → UInt8) (args : List Spawn.SchemeString)

theorem waited_ioRun : (ioRun e junk args).Ensures Waited := by
  refine Issue.Prog.ensures_next (fun _ tr _ h => h.after tr) fun p => ?_
  exact Issue.Prog.ensures_bind (waited_ioProcWait p) fun code tr h =>
    waited_finish (g := id) h (Composite.ioProcClose p)

theorem waited_ioRunOutput : (ioRunOutput e junk args).Ensures fun r => Waited r.1 := by
  have hkeep : ∀ (r : Int × List UInt8) (tr tr' : List (Request × Completion)),
      Waited r.1 tr' → Waited r.1 (tr ++ tr') := fun _ tr _ h => h.after tr
  -- the streams are read and closed before the wait
  refine Issue.Prog.ensures_next hkeep fun p => ?_
  refine Issue.Prog.ensures_next hkeep fun _ => ?_
  refine Issue.Prog.ensures_next hkeep fun data => ?_
  refine Issue.Prog.ensures_next hkeep fun _ => ?_
  refine Issue.Prog.ensures_next hkeep fun _ => ?_
  exact Issue.Prog.ensures_bind (waited_ioProcWait p) fun code tr h =>
    waited_finish (g := Prod.fst) (x := (code, data)) h (Composite.ioProcClose p)

end

/-! ## 4. Success and failure -/

/-- With a child that ends as `o`, the code that `p` returns is 0 exactly on success. -/
def Reports {β : Type} (o : Outcome) (p : Act β) (code : β → Int) : Prop :=
  ∀ as x, (p as).outcome = some (.ok x) →
    (∀ w c, (.procWait w, c) ∈ (p as).trace → WaitResult o c.result) →
    (code x = 0 ↔ o.Success)

/-- The code tells success from failure, and is the same in every order. -/
structure TellsSuccess (o : Outcome) : Prop where
  orders : ∀ r r', WaitResult o r → WaitResult o r' → r = r'
  procWait : ∀ p, Reports o (ioProcWait p) id
  run : ∀ e junk args, Reports o (ioRun e junk args) id
  runOutput : ∀ e junk args, Reports o (ioRunOutput e junk args) Prod.fst

theorem Outcome.exitStatus_exited (n : Nat) :
    (Outcome.exited n).exitStatus = 0 ↔ (Outcome.exited n).Success := by
  simp [exitStatus, Success]

-- A normal exit is told as such.
theorem reports_exited {β : Type} {p : Act β} {code : β → Int}
    (hp : p.Ensures fun x => Waited (code x)) (n : Nat) : Reports (.exited n) p code := by
  intro as x hx hwait
  obtain ⟨w, c, hmem, hc⟩ := hp as x hx
  rw [← hc, (hwait w c hmem).eq]
  exact Outcome.exitStatus_exited n

-- A killed child has status 0, and 0 is what is returned.
theorem not_reports_killed {signal : Nat} (h : 0 < signal) (p : Composite.Process) :
    ¬ Reports (.killed signal h) (ioProcWait p) id := by
  intro hreports
  have hzero : WaitResult (.killed signal h) 0 := waitResult_parked (.killed signal h)
  have hcode := hreports [Completion.of 0] 0 rfl fun w c hmem => by
    cases List.mem_singleton.mp hmem
    exact hzero
  cases hcode.mp rfl

/-- **Which ends are told apart.**  The code of `io-proc-wait`, `io-run` and `io-run/output` is 0
exactly on success, in every order of the exit and the wait, if and only if the child exited and was
not killed by a signal. -/
theorem tellsSuccess_iff (o : Outcome) : TellsSuccess o ↔ ∃ n, o = .exited n := by
  constructor
  · intro htells
    cases o with
    | exited n => exact ⟨n, rfl⟩
    | killed signal h => exact absurd (htells.procWait ⟨16, 0, 0, 0⟩) (not_reports_killed h _)
  · rintro ⟨n, rfl⟩
    exact {
      orders := fun r r' hr hr' => hr.eq.trans hr'.eq.symm
      procWait := fun p => reports_exited (waited_ioProcWait p) n
      run := fun e junk args => reports_exited (waited_ioRun e junk args) n
      runOutput := fun e junk args => reports_exited (waited_ioRunOutput e junk args) n }

/-- A child killed by signal 9: in either order the wait completes with 0, and `io-proc-wait`
returns it. -/
theorem killed_reported_as_success :
    (machine.run [.procWait 1, .onProcessExit 0 9]).map (·.completed) = some [(1, 0)] ∧
      (machine.run [.onProcessExit 0 9, .procWait 1]).map (·.completed) = some [(1, 0)] ∧
      (ioProcWait ⟨16, 0, 0, 0⟩ [Completion.of 0]).outcome = some (.ok 0) ∧
      ¬ TellsSuccess (.killed 9 (by decide)) :=
  ⟨rfl, rfl, rfl, fun htells => not_reports_killed _ _ (htells.procWait ⟨16, 0, 0, 0⟩)⟩

end ChezAsync.ExitCode
