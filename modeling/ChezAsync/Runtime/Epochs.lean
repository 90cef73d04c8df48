import Mathlib.Logic.Function.Basic
import Mathlib.Data.List.Nodup
import Mathlib.Tactic.Common
import ChezAsync.Lib.Machine

/-!
# Starting and stopping the runtime (`runtime.cpp`, `runtime.hpp`)

The handles that belong to the runtime itself over any number of epochs, an epoch being what lies
between a `Start` and the end of the matching `Stop`.  `Start` and `Stop` come one after the other;
`ExitOnSignal` may be called from anywhere at any time, and the loop thread runs on its own.
-/

namespace ChezAsync.Epochs

/-! ## 1. The machine -/

inductive Handle
  | async
  | sigInt
  | sigTerm
  | shutdownTimer
  deriving DecidableEq

def handles : List Handle := [.async, .sigInt, .sigTerm, .shutdownTimer]

/-- A uv handle since the last `Start`. -/
inductive Status
  | uninitialised
  | open
  | closing
  | closed
  deriving DecidableEq

inductive Signal
  | int
  | term
  deriving DecidableEq

def Signal.handle : Signal → Handle
  | .int => .sigInt
  | .term => .sigTerm

structure State where
  running : Bool
  stopping : Bool
  exitOnSignal : Bool
  shutdownSignaled : Bool
  shutdownTimerStarted : Bool
  status : Handle → Status
  /-- `uv_async_send` has been called since the last callback. -/
  sent : Bool
  /-- The loop thread is in `uv_run`, or has not been joined yet. -/
  thread : Bool
  /-- A `Stop` waits for the loop thread. -/
  joining : Bool
  /-- `_Exit` has been called. -/
  exited : Bool
  -- The record of the run: the flag that the last `Start` has read, and the handles that were
  -- closed without being open.
  started : Bool
  misclosed : List Handle

inductive Action
  | start
  | stop
  | join
  | exitOnSignal (on : Bool)
  | submit
  | drain
  /-- `OnSignal`; `listening` says whether `listeners_` has somebody. -/
  | onSignal (signum : Signal) (listening : Bool)
  | onShutdownTimer
  /-- libuv is done with a close. -/
  | onClose (h : Handle)
  deriving DecidableEq

/-- `Runtime::Start`. -/
def start (s : State) : State :=
  if s.running then s
  else
    { s with
      running := true, stopping := false, shutdownSignaled := false
      shutdownTimerStarted := false, sent := false, thread := true, started := s.exitOnSignal
      status := fun
        | .async => .open
        | .sigInt | .sigTerm => if s.exitOnSignal then .open else .uninitialised
        | .shutdownTimer => .uninitialised }

/-- `Runtime::Stop` up to the join. -/
def stop (s : State) : State :=
  if s.running then { s with running := false, stopping := true, sent := true, joining := true }
  else s

/-- `uv_close`. -/
def uvClose (s : State) (h : Handle) : State :=
  if s.status h = .open then { s with status := Function.update s.status h .closing }
  else { s with misclosed := s.misclosed ++ [h] }

/-- What the stopping branch of `Drain` closes, in its order. -/
def closings (s : State) : List Handle :=
  [.async] ++ (if s.exitOnSignal then [.sigInt, .sigTerm] else []) ++
    if s.shutdownTimerStarted then [.shutdownTimer] else []

/-- `Runtime::Drain`. -/
def drain (s : State) : State :=
  if s.stopping then { (closings s).foldl uvClose s with shutdownTimerStarted := false } else s

/-- `Runtime::OnSignal`. -/
def onSignal (s : State) (listening : Bool) : State :=
  if s.shutdownSignaled || !listening then { s with shutdownSignaled := true, exited := true }
  else
    { s with
      shutdownSignaled := true, shutdownTimerStarted := true
      status := Function.update s.status .shutdownTimer .open }

def step (s : State) (a : Action) : Option State :=
  if s.exited then none
  else
    match a with
    | .start => if s.joining then none else some (start s)
    | .stop => if s.joining then none else some (stop s)
    -- `uv_run` returns when no handle is left
    | .join =>
        if s.joining ∧ ∀ h ∈ handles, s.status h ≠ .open ∧ s.status h ≠ .closing then
          some { s with joining := false, thread := false }
        else none
    | .exitOnSignal on => some { s with exitOnSignal := on }
    | .submit => if s.running then some { s with sent := true } else none
    | .drain =>
        if s.status .async = .open ∧ s.sent then some (drain { s with sent := false }) else none
    | .onSignal signum listening =>
        if s.status signum.handle = .open then some (onSignal s listening) else none
    | .onShutdownTimer =>
        if s.status .shutdownTimer = .open then some { s with exited := true } else none
    | .onClose h =>
        if s.status h = .closing then
          some { s with status := Function.update s.status h .closed }
        else none

/-- The process before its first `Start`. -/
def machine : Machine State Action where
  init :=
    { running := false, stopping := false, exitOnSignal := false, shutdownSignaled := false
      shutdownTimerStarted := false, status := fun _ => .uninitialised, sent := false
      thread := false, joining := false, exited := false, started := false, misclosed := [] }
  step := step

/-- One constructor for each kind of step. -/
inductive Step (s : State) : Action → State → Prop
  | started : s.joining = false → s.running = true → Step s .start s
  | start : s.joining = false → s.running = false → Step s .start (start s)
  | stopped : s.joining = false → s.running = false → Step s .stop s
  | stop : s.joining = false → s.running = true →
      Step s .stop { s with running := false, stopping := true, sent := true, joining := true }
  | join : s.joining = true → (∀ h, s.status h ≠ .open ∧ s.status h ≠ .closing) →
      Step s .join { s with joining := false, thread := false }
  | exitOnSignal {on} : Step s (.exitOnSignal on) { s with exitOnSignal := on }
  | submit : s.running = true → Step s .submit { s with sent := true }
  | drained : s.status .async = .open → s.stopping = false → Step s .drain { s with sent := false }
  | drain : s.status .async = .open → s.stopping = true →
      Step s .drain { (closings s).foldl uvClose { s with sent := false } with
        shutdownTimerStarted := false }
  | exit {signum listening} : s.status signum.handle = .open →
      Step s (.onSignal signum listening) { s with shutdownSignaled := true, exited := true }
  | onSignal {signum} : s.status signum.handle = .open → s.shutdownSignaled = false →
      Step s (.onSignal signum true) { s with
        shutdownSignaled := true, shutdownTimerStarted := true
        status := Function.update s.status .shutdownTimer .open }
  | onShutdownTimer : Step s .onShutdownTimer { s with exited := true }
  | onClose {h} : s.status h = .closing →
      Step s (.onClose h) { s with status := Function.update s.status h .closed }

-- The join waits for the handles of the list, which are all there are.
theorem forall_handles {p : Handle → Prop} : (∀ h ∈ handles, p h) ↔ ∀ h, p h := by
  refine ⟨fun hp h => hp h ?_, fun hp h _ => hp h⟩
  cases h <;> decide

theorem step_cases {s u : State} {a : Action} (h : step s a = some u) :
    s.exited = false ∧ Step s a u := by
  simp only [step, Option.ite_none_left_eq_some, Bool.not_eq_true] at h
  rcases h with ⟨hexit, h⟩
  refine ⟨hexit, ?_⟩
  cases a with
  | start =>
    simp only [Option.ite_none_left_eq_some, Bool.not_eq_true, Option.some.injEq] at h
    rcases h with ⟨hjoin, rfl⟩
    rcases hrun : s.running
    · exact .start hjoin hrun
    · rw [start, if_pos hrun]
      exact .started hjoin hrun
  | stop =>
    simp only [Option.ite_none_left_eq_some, Bool.not_eq_true, Option.some.injEq] at h
    rcases h with ⟨hjoin, rfl⟩
    rcases hrun : s.running
    · rw [stop, if_neg (by simp [hrun])]
      exact .stopped hjoin hrun
    · rw [stop, if_pos hrun]
      exact .stop hjoin hrun
  | join =>
    simp only [Option.ite_none_right_eq_some, Option.some.injEq] at h
    rcases h with ⟨⟨hjoin, hnone⟩, rfl⟩
    exact .join hjoin (forall_handles.mp hnone)
  | exitOnSignal on =>
    simp only [Option.some.injEq] at h
    exact h ▸ .exitOnSignal
  | submit =>
    simp only [Option.ite_none_right_eq_some, Option.some.injEq] at h
    rcases h with ⟨hrun, rfl⟩
    exact .submit hrun
  | drain =>
    simp only [Option.ite_none_right_eq_some, Option.some.injEq] at h
    rcases h with ⟨⟨hopen, -⟩, rfl⟩
    unfold drain
    split
    case isTrue hstop => exact .drain hopen hstop
    case isFalse hstop => exact .drained hopen (Bool.eq_false_iff.mpr hstop)
  | onSignal signum listening =>
    simp only [Option.ite_none_right_eq_some, Option.some.injEq] at h
    rcases h with ⟨hopen, rfl⟩
    rw [onSignal]
    split
    · exact .exit hopen
    case isFalse hgo =>
      simp only [Bool.or_eq_true, Bool.not_eq_true', not_or, Bool.not_eq_true,
        Bool.not_eq_false] at hgo
      rw [hgo.2]
      exact .onSignal hopen hgo.1
  | onShutdownTimer =>
    simp only [Option.ite_none_right_eq_some, Option.some.injEq] at h
    rcases h with ⟨-, rfl⟩
    exact .onShutdownTimer
  | onClose h' =>
    simp only [Option.ite_none_right_eq_some, Option.some.injEq] at h
    rcases h with ⟨hclosing, rfl⟩
    exact .onClose hclosing

/-! ## 2. What is open -/

/-- Facts of every reachable state, whenever `ExitOnSignal` is called. -/
structure Inv (s : State) : Prop where
  -- as long as `async_` is open the stopping branch has not run since `Start`
  signals : s.status .async = .open → ∀ signum : Signal,
    s.status signum.handle = if s.started then .open else .uninitialised
  timer : s.status .async = .open →
    s.status .shutdownTimer = if s.shutdownTimerStarted then .open else .uninitialised
  signaled : s.shutdownTimerStarted = true → s.shutdownSignaled = true
  running : s.running = true → s.status .async = .open ∧ s.thread = true
  notJoining : s.running = true → s.joining = false ∧ s.stopping = false
  joining : s.joining = true → s.stopping = true ∧ s.thread = true
  -- the wake-up of `Stop` is on its way until the stopping branch has run
  sent : s.joining = true → s.status .async = .open → s.sent = true
  -- between the epochs nothing is left
  idle : s.thread = false → ∀ h, s.status h ≠ .open

theorem inv_init : Inv machine.init := by
  refine ⟨?_, ?_, ?_, ?_, ?_, ?_, ?_, ?_⟩ <;> simp [machine]

section
variable {s u : State}

-- A close of what is not open is counted as a mistake and opens nothing either.
theorem status_uvClose (s : State) (h h' : Handle) :
    (uvClose s h).status h' = .open ↔ h' ≠ h ∧ s.status h' = .open := by
  unfold uvClose
  split
  case isTrue hopen =>
    show Function.update s.status h .closing h' = .open ↔ _
    rw [Function.update_apply]
    split
    case isTrue heq => exact iff_of_false Status.noConfusion fun hne => hne.1 heq
    case isFalse hne => exact (and_iff_right hne).symm
  case isFalse hopen =>
    refine (and_iff_right_of_imp fun hopen' heq => ?_).symm
    exact hopen (heq ▸ hopen')

/-- A round of closes leaves open what it does not close. -/
theorem status_foldl (hs : List Handle) (s : State) (h : Handle) :
    (hs.foldl uvClose s).status h = .open ↔ h ∉ hs ∧ s.status h = .open := by
  induction hs generalizing s with
  | nil => simp
  | cons h' hs ih => rw [List.foldl_cons, ih, status_uvClose, List.mem_cons, not_or]; tauto

/-- A close is about the handle only. -/
structure Frame (s u : State) : Prop where
  running : u.running = s.running
  stopping : u.stopping = s.stopping
  exitOnSignal : u.exitOnSignal = s.exitOnSignal
  shutdownSignaled : u.shutdownSignaled = s.shutdownSignaled
  sent : u.sent = s.sent
  thread : u.thread = s.thread
  joining : u.joining = s.joining
  exited : u.exited = s.exited
  started : u.started = s.started

theorem frame_foldl (hs : List Handle) (s : State) : Frame s (hs.foldl uvClose s) := by
  induction hs generalizing s with
  | nil => exact ⟨rfl, rfl, rfl, rfl, rfl, rfl, rfl, rfl, rfl⟩
  | cons h hs ih =>
    have hclose : Frame s (uvClose s h) := by
      unfold uvClose
      split <;> exact ⟨rfl, rfl, rfl, rfl, rfl, rfl, rfl, rfl, rfl⟩
    have hrest := ih (uvClose s h)
    exact ⟨hrest.running.trans hclose.running, hrest.stopping.trans hclose.stopping,
      hrest.exitOnSignal.trans hclose.exitOnSignal,
      hrest.shutdownSignaled.trans hclose.shutdownSignaled, hrest.sent.trans hclose.sent,
      hrest.thread.trans hclose.thread, hrest.joining.trans hclose.joining,
      hrest.exited.trans hclose.exited, hrest.started.trans hclose.started⟩

-- Whatever the flags are, the stopping branch closes `async_`.
theorem async_mem_closings (s : State) : Handle.async ∈ closings s :=
  List.mem_append_left _ (List.mem_append_left _ (List.mem_singleton_self _))

-- After `Start` everything is as the constructor of the handles leaves it.
theorem inv_start (hjoin : s.joining = false) (hrun : s.running = false) : Inv (start s) := by
  have hnone : ∀ {p : Prop}, s.joining = true → p := fun h => by
    rw [hjoin] at h
    cases h
  rw [start, if_neg (by simp [hrun])]
  refine ⟨fun _ signum => ?_, fun _ => rfl, (fun h => by cases h), fun _ => ⟨rfl, rfl⟩,
    fun _ => ⟨hjoin, rfl⟩, hnone, hnone, (fun h => by cases h)⟩
  cases signum <;> rfl

/-- The stopping branch closes `async_`, so that little is left to say. -/
theorem inv_drain (hs : Inv s) (hstop : s.stopping = true) :
    Inv { (closings s).foldl uvClose { s with sent := false } with
      shutdownTimerStarted := false } := by
  let v : State := { s with sent := false }
  have hframe := frame_foldl (closings s) v
  have hasync : ((closings s).foldl uvClose v).status .async ≠ .open := fun hopen =>
    ((status_foldl _ _ _).mp hopen).1 (async_mem_closings s)
  have hnotRunning : ∀ {p : Prop}, ((closings s).foldl uvClose v).running = true → p := by
    intro p hrun
    have hother := (hs.notJoining (hframe.running ▸ hrun)).2
    rw [hstop] at hother
    cases hother
  refine ⟨fun hopen => absurd hopen hasync, fun hopen => absurd hopen hasync,
    (fun h => by cases h), hnotRunning, hnotRunning, fun hjoin => ?_,
    fun _ hopen => absurd hopen hasync, fun hthread h hopen => ?_⟩
  · have hold := hs.joining (hframe.joining ▸ hjoin)
    exact ⟨hframe.stopping.trans hold.1, hframe.thread.trans hold.2⟩
  · exact hs.idle (hframe.thread ▸ hthread) h ((status_foldl _ _ _).mp hopen).2

/-- The first signal opens the shutdown timer. -/
theorem inv_onSignal (hs : Inv s) {signum : Signal} (hopen : s.status signum.handle = .open) :
    Inv { s with
      shutdownSignaled := true, shutdownTimerStarted := true
      status := Function.update s.status .shutdownTimer .open } := by
  have hother : ∀ h, h ≠ .shutdownTimer →
      Function.update s.status .shutdownTimer .open h = s.status h :=
    fun h hne => Function.update_of_ne hne _ _
  have hasync := hother .async Handle.noConfusion
  have htimer : Function.update s.status .shutdownTimer .open .shutdownTimer = .open :=
    Function.update_self ..
  refine ⟨fun h signum' => ?_, fun _ => htimer, fun _ => rfl, fun hrun => ?_, hs.notJoining,
    hs.joining, fun hjoin h => hs.sent hjoin (hasync ▸ h), fun hthread => ?_⟩
  · have hfar : signum'.handle ≠ .shutdownTimer := by
      cases signum' <;> exact Handle.noConfusion
    exact (hother _ hfar).trans (hs.signals (hasync ▸ h) signum')
  · exact ⟨hasync.trans (hs.running hrun).1, (hs.running hrun).2⟩
  · exact absurd hopen (hs.idle hthread _)

/-- The end of a close opens nothing. -/
theorem open_of_onClose {status : Handle → Status} {h h' : Handle}
    (hopen : Function.update status h .closed h' = .open) : status h' = .open := by
  rw [Function.update_apply] at hopen
  split at hopen
  · cases hopen
  · exact hopen

theorem inv_onClose (hs : Inv s) {h : Handle} (hclosing : s.status h = .closing) :
    Inv { s with status := Function.update s.status h .closed } := by
  -- a handle with another status is not the one that has been closed
  have hkeep : ∀ {h' st}, s.status h' = st → st ≠ .closing →
      Function.update s.status h .closed h' = st := by
    intro h' st hst hne
    have hfar : h' ≠ h := by
      rintro rfl
      exact hne (hst.symm.trans hclosing)
    exact (Function.update_of_ne hfar _ _).trans hst
  refine ⟨fun hasync signum => ?_, fun hasync => ?_, hs.signaled, fun hrun => ?_, hs.notJoining,
    hs.joining, fun hjoin hasync => hs.sent hjoin (open_of_onClose hasync),
    fun hthread h' hopen => hs.idle hthread h' (open_of_onClose hopen)⟩
  · refine hkeep (hs.signals (open_of_onClose hasync) signum) ?_
    split <;> exact Status.noConfusion
  · refine hkeep (hs.timer (open_of_onClose hasync)) ?_
    split <;> exact Status.noConfusion
  · exact ⟨hkeep (hs.running hrun).1 Status.noConfusion, (hs.running hrun).2⟩

theorem inv_step {a : Action} (hs : Inv s) (hstep : step s a = some u) : Inv u := by
  cases (step_cases hstep).2 with
  | started | stopped => exact hs
  | start hjoin hrun => exact inv_start hjoin hrun
  | stop hjoin hrun =>
    exact ⟨hs.signals, hs.timer, hs.signaled, (fun h => by cases h), (fun h => by cases h),
      fun _ => ⟨rfl, (hs.running hrun).2⟩, fun _ _ => rfl, hs.idle⟩
  | join hjoin hnone =>
    refine ⟨fun hopen => absurd hopen (hnone _).1, fun hopen => absurd hopen (hnone _).1,
      hs.signaled, fun hrun => ?_, fun hrun => ?_, (fun h => by cases h), (fun h => by cases h),
      fun _ h => (hnone h).1⟩ <;>
    · have hother := (hs.notJoining hrun).1
      rw [hjoin] at hother
      cases hother
  | exitOnSignal => exact { hs with }
  | submit => exact { hs with sent := fun _ _ => rfl }
  | drained hopen hstop =>
    refine { hs with sent := fun hjoin => ?_ }
    have hother := (hs.joining hjoin).1
    rw [hstop] at hother
    cases hother
  | drain hopen hstop => exact inv_drain hs hstop
  | exit => exact { hs with signaled := fun _ => rfl }
  | onSignal hopen hsig => exact inv_onSignal hs hopen
  | onShutdownTimer => exact { hs with }
  | onClose hclosing => exact inv_onClose hs hclosing

/-! ## 3. One stopping branch -/

theorem closings_nodup (s : State) : (closings s).Nodup := by
  unfold closings
  split <;> split <;> decide

/-- As long as `async_` is open, the stopping branch would close what is open if and only if the
flag is what `Start` has read. -/
theorem closings_iff (hs : Inv s) (hopen : s.status .async = .open) :
    (∀ h, h ∈ closings s ↔ s.status h = .open) ↔ s.exitOnSignal = s.started := by
  have hint := hs.signals hopen .int
  have hterm := hs.signals hopen .term
  have htimer := hs.timer hopen
  simp only [Signal.handle] at hint hterm
  constructor
  · intro hall
    have hflag : s.exitOnSignal = true ↔ s.started = true := by
      have h := hall .sigInt
      rw [hint] at h
      simpa [closings] using h
    exact Bool.eq_iff_iff.mpr hflag
  · intro heq h
    cases h with
    | async => simp [closings, hopen]
    | sigInt => simp [closings, hint, heq]
    | sigTerm => simp [closings, hterm, heq]
    | shutdownTimer => simp [closings, htimer]

/-- The stopping branch closes the handles that are open, each of them once, and no others. -/
def ClosesWhatIsOpen (s : State) : Action → Prop
  | .drain => s.stopping = true → (closings s).Nodup ∧ ∀ h, h ∈ closings s ↔ s.status h = .open
  | _ => True

/-- The condition on the steps: the stopping branch reads the flag as `Start` has read it. -/
def SameFlag (s : State) : Action → Prop
  | .drain => s.stopping = true → s.exitOnSignal = s.started
  | _ => True

/-- What the header asks for: `ExitOnSignal` is called before `Start`. -/
def BeforeStart (s : State) : Action → Prop
  | .exitOnSignal _ => s.thread = false
  | _ => True

instance (p : Handle → Prop) [DecidablePred p] : Decidable (∀ h, p h) :=
  decidable_of_iff _ (forall_handles (p := p))

instance (s : State) (a : Action) : Decidable (ClosesWhatIsOpen s a) := by
  cases a <;> unfold ClosesWhatIsOpen <;> infer_instance

instance (s : State) (a : Action) : Decidable (SameFlag s a) := by
  cases a <;> unfold SameFlag <;> infer_instance

/-- No handle has been closed in vain, and when the stopping branch has run nothing is open. -/
structure Clean (s : State) : Prop where
  inv : Inv s
  misclosed : s.misclosed = []
  closed : s.status .async ≠ .open → ∀ h, s.status h ≠ .open

-- By induction on the closes: no handle comes twice, so each is still open at its turn.
theorem misclosed_foldl {hs : List Handle} {s : State} (hnd : hs.Nodup)
    (hopen : ∀ h ∈ hs, s.status h = .open) :
    (hs.foldl uvClose s).misclosed = s.misclosed := by
  induction hs generalizing s with
  | nil => rfl
  | cons h hs ih =>
    rw [List.nodup_cons] at hnd
    have hclose : (uvClose s h).misclosed = s.misclosed := by
      rw [uvClose, if_pos (hopen h List.mem_cons_self)]
    rw [List.foldl_cons, ih hnd.2 fun h' hmem => ?_, hclose]
    refine (status_uvClose s h h').mpr ⟨fun heq => hnd.1 (heq ▸ hmem), ?_⟩
    exact hopen h' (List.mem_cons_of_mem h hmem)

-- The condition is needed at the stopping branch alone.
theorem clean_step {a : Action} (hs : Clean s) (hC : SameFlag s a) (hstep : step s a = some u) :
    Clean u := by
  have hinv := inv_step hs.inv hstep
  cases (step_cases hstep).2 with
  | started | stopped | stop | exitOnSignal | submit | drained | exit | onShutdownTimer =>
    exact ⟨hinv, hs.misclosed, hs.closed⟩
  | join hjoin hnone => exact ⟨hinv, hs.misclosed, fun _ h => (hnone h).1⟩
  | start hjoin hrun =>
    rw [start, if_neg (by simp [hrun])] at hinv ⊢
    exact ⟨hinv, hs.misclosed, fun hasync => absurd rfl hasync⟩
  | drain hopen hstop =>
    have hexact := (closings_iff hs.inv hopen).mpr (hC hstop)
    refine ⟨hinv, ?_, fun _ h hafter => ?_⟩
    · exact (misclosed_foldl (s := { s with sent := false }) (closings_nodup s)
        fun h hmem => (hexact h).mp hmem).trans hs.misclosed
    · have hleft := (status_foldl (closings s) { s with sent := false } h).mp hafter
      exact hleft.1 ((hexact h).mpr hleft.2)
  | @onSignal signum hopen =>
    refine ⟨hinv, hs.misclosed, fun hasync => ?_⟩
    have hkeep : Function.update s.status .shutdownTimer .open .async = s.status .async :=
      Function.update_of_ne Handle.noConfusion _ _
    have hclosed : s.status .async ≠ .open := fun h => hasync (hkeep.trans h)
    exact absurd hopen (hs.closed hclosed _)
  | @onClose h hclosing =>
    refine ⟨hinv, hs.misclosed, fun hasync h' hopen => ?_⟩
    refine hs.closed (fun hold => hasync ?_) h' (open_of_onClose hopen)
    have hfar : Handle.async ≠ h := by
      rintro rfl
      cases hold.symm.trans hclosing
    exact (Function.update_of_ne hfar _ _).trans hold

/-! ## 4. The end of an epoch -/

/-- The close callbacks run when libuv gets to them. -/
theorem callbacks (hs : List Handle) (hexit : s.exited = false) :
    ∃ bs u, (∀ b ∈ bs, ∃ h, b = .onClose h) ∧ machine.runFrom s bs = some u ∧
      u.exited = false ∧ u.joining = s.joining ∧ (∀ h ∈ hs, u.status h ≠ .closing) ∧
      ∀ h, u.status h = s.status h ∨ (s.status h = .closing ∧ u.status h = .closed) := by
  induction hs generalizing s with
  | nil =>
    exact ⟨[], s, (fun _ h => by cases h), rfl, hexit, rfl, (fun _ h => by cases h),
      fun _ => Or.inl rfl⟩
  | cons h hs ih =>
    by_cases hclosing : s.status h = .closing
    · have hstep : step s (.onClose h) =
          some { s with status := Function.update s.status h .closed } := by
        simp only [step, hexit, hclosing, Bool.false_eq_true, if_false, if_true]
      have hnow : Function.update s.status h .closed h = .closed := Function.update_self ..
      rcases @ih { s with status := Function.update s.status h .closed } hexit with
        ⟨bs, u, hbs, hrun, hu, hjoin, hdone, hframe⟩
      refine ⟨.onClose h :: bs, u, ?_, machine.runFrom_cons.mpr ⟨_, hstep, hrun⟩, hu, hjoin, ?_, ?_⟩
      · intro b hb
        rcases List.mem_cons.mp hb with rfl | hb
        · exact ⟨h, rfl⟩
        · exact hbs b hb
      · intro h' hmem
        rcases List.mem_cons.mp hmem with rfl | hmem
        · rcases hframe h' with heq | ⟨hold, -⟩
          · rw [heq]
            exact fun hbad => Status.noConfusion (hnow.symm.trans hbad)
          · exact absurd (hnow.symm.trans hold) Status.noConfusion
        · exact hdone h' hmem
      · intro h'
        by_cases heq : h' = h
        · subst heq
          rcases hframe h' with hkeep | ⟨hold, -⟩
          · exact Or.inr ⟨hclosing, hkeep.trans hnow⟩
          · exact absurd (hnow.symm.trans hold) Status.noConfusion
        · have hfar : Function.update s.status h .closed h' = s.status h' :=
            Function.update_of_ne heq _ _
          rcases hframe h' with hkeep | ⟨hold, hnew⟩
          · exact Or.inl (hkeep.trans hfar)
          · exact Or.inr ⟨hfar.symm.trans hold, hnew⟩
    · rcases @ih s hexit with ⟨bs, u, hbs, hrun, hu, hjoin, hdone, hframe⟩
      refine ⟨bs, u, hbs, hrun, hu, hjoin, fun h' hmem => ?_, hframe⟩
      rcases List.mem_cons.mp hmem with rfl | hmem
      · rcases hframe h' with heq | ⟨hold, -⟩
        · exact heq.symm ▸ hclosing
        · exact absurd hold hclosing
      · exact hdone h' hmem

/-- When the stopping branch has run, the callbacks of its closes let the join come to its end. -/
theorem Clean.joins (hs : Clean s) (hexit : s.exited = false) (hjoin : s.joining = true)
    (hasync : s.status .async ≠ .open) :
    ∃ bs u v, (∀ b ∈ bs, ∃ h, b = .onClose h) ∧ machine.runFrom s bs = some u ∧
      step u .join = some v := by
  rcases callbacks handles hexit with ⟨bs, u, hbs, hrun, hu, hjoin', hdone, hframe⟩
  have hnone : ∀ h ∈ handles, u.status h ≠ .open ∧ u.status h ≠ .closing := by
    intro h hmem
    refine ⟨fun hopen => ?_, hdone h hmem⟩
    rcases hframe h with heq | ⟨-, hclosed⟩
    · exact hs.closed hasync h (heq.symm.trans hopen)
    · exact Status.noConfusion (hopen.symm.trans hclosed)
  refine ⟨bs, u, { u with joining := false, thread := false }, hbs, hrun, ?_⟩
  simp only [step, hu, Bool.false_eq_true, if_false]
  exact if_pos ⟨hjoin'.trans hjoin, hnone⟩

/-- Called before `Start` only, `ExitOnSignal` leaves the flag as it has been read. -/
theorem flag_step {a : Action} (hflag : s.thread = true → s.exitOnSignal = s.started)
    (hC : BeforeStart s a) (hstep : step s a = some u) :
    u.thread = true → u.exitOnSignal = u.started := by
  cases (step_cases hstep).2 with
  | start _ hrun =>
    rw [start, if_neg (by simp [hrun])]
    exact fun _ => rfl
  | join => exact fun h => by cases h
  | exitOnSignal =>
    intro hthread
    have hnone : s.thread = false := hC
    exact absurd (hnone.symm.trans hthread) Bool.noConfusion
  | drain =>
    have hframe := frame_foldl (closings s) { s with sent := false }
    intro hthread
    exact hframe.exitOnSignal.trans
      ((hflag (hframe.thread ▸ hthread)).trans hframe.started.symm)
  | started | stopped | stop | submit | drained | exit | onSignal | onShutdownTimer | onClose =>
    exact hflag

-- The flag and what `Start` has read stay equal as long as the loop thread is there.
theorem sameFlag_of_beforeStart {as : List Action} (hs : Inv s)
    (hflag : s.thread = true → s.exitOnSignal = s.started) (hrun : machine.runFrom s as = some u)
    (hC : machine.Meets BeforeStart s as) : machine.Meets SameFlag s as := by
  induction as generalizing s with
  | nil => trivial
  | cons a as ih =>
    rcases machine.runFrom_cons.mp hrun with ⟨v, hv, hrest⟩
    refine ⟨?_, fun w hw => ?_⟩
    · cases (step_cases hv).2 with
      | drained hopen | drain hopen =>
        intro _
        refine hflag (Bool.of_not_eq_false fun hthread => ?_)
        exact hs.idle hthread _ hopen
      | _ => trivial
    · have heq : v = w := Option.some.inj (hv.symm.trans hw)
      subst heq
      exact ih (inv_step hs hv) (flag_step hflag hC.1 hv) hrest (hC.2 v hv)

/-- **Stop closes what Start has opened.**  In every sequence of calls, signals and callbacks the
stopping branches close exactly what is open if and only if they read the flag as the matching
`Start` has, as they do when `ExitOnSignal` is called before `Start` only.  Then nothing is closed
in vain, the stopping branch comes to run, and when it has, the join comes to its end. -/
theorem stop_closes_what_start_opened {as : List Action} (hrun : machine.run as = some s) :
    (machine.Meets ClosesWhatIsOpen machine.init as ↔ machine.Meets SameFlag machine.init as) ∧
    (machine.Meets BeforeStart machine.init as → machine.Meets SameFlag machine.init as) ∧
    (machine.Meets SameFlag machine.init as →
      s.misclosed = [] ∧ (s.status .async ≠ .open → ∀ h, s.status h ≠ .open) ∧
      (s.exited = false → s.joining = true →
        (s.status .async = .open → s.stopping = true ∧ ∃ u, step s .drain = some u) ∧
        (s.status .async ≠ .open → ∃ bs u v, (∀ b ∈ bs, ∃ h, b = .onClose h) ∧
          machine.runFrom s bs = some u ∧ step u .join = some v))) := by
  refine ⟨?_, sameFlag_of_beforeStart inv_init (fun h => by cases h) hrun, fun hC => ?_⟩
  · refine Machine.meets_congr (I := Inv) (fun _ _ _ hs hstep => inv_step hs hstep) ?_ inv_init hrun
    intro s a u hs hstep
    cases (step_cases hstep).2 with
    | drained hopen hstop | drain hopen hstop =>
      refine forall_congr' fun _ => ?_
      rw [and_iff_right (closings_nodup s), closings_iff hs hopen]
    | _ => exact Iff.rfl
  · have hclean : Clean s := (hC.always (I := Clean) (fun _ _ _ hs hC hstep =>
      clean_step hs hC hstep) ⟨inv_init, rfl, fun _ _ => Status.noConfusion⟩).last hrun
    refine ⟨hclean.misclosed, hclean.closed, fun hexit hjoin => ⟨fun hopen => ?_,
      hclean.joins hexit hjoin⟩⟩
    refine ⟨(hclean.inv.joining hjoin).1, drain { s with sent := false }, ?_⟩
    have hsent := hclean.inv.sent hjoin hopen
    simp only [step, hexit, Bool.false_eq_true, if_false, hopen, hsent, and_self, if_true]

/-- Two epochs, the first one with a graceful signal, the second one without signal handlers. -/
def twoEpochs : List Action :=
  [.exitOnSignal true, .start, .submit, .onSignal .int true, .drain, .stop, .drain,
    .onClose .async, .onClose .sigInt, .onClose .sigTerm, .onClose .shutdownTimer, .join,
    .exitOnSignal false, .start, .stop, .drain]

theorem stop_closes_twoEpochs :
    machine.Meets ClosesWhatIsOpen machine.init twoEpochs ∧
      ∃ s, machine.run twoEpochs = some s ∧ s.misclosed = [] ∧ ∀ h, s.status h ≠ .open := by
  have hrun : ∃ s, machine.run twoEpochs = some s ∧ s.status .async = .closing := ⟨_, rfl, rfl⟩
  rcases hrun with ⟨s, hrun, hasync⟩
  have h := stop_closes_what_start_opened hrun
  have hC : machine.Meets SameFlag machine.init twoEpochs := by decide
  have hclean := h.2.2 hC
  refine ⟨h.1.mpr hC, s, hrun, hclean.1, hclean.2.1 ?_⟩
  rw [hasync]
  exact Status.noConfusion

/-- The flag is set after `Start`. -/
def setAfterStart : List Action := [.start, .exitOnSignal true, .stop, .drain]

/-- The flag is cleared after `Start`. -/
def clearedAfterStart : List Action :=
  [.exitOnSignal true, .start, .exitOnSignal false, .stop, .drain]

/-- In the first run the stopping branch closes two handles that have not been initialised; in the
second one it leaves two open, and when libuv has closed the other one the join still waits. -/
theorem flag_changed_in_epoch :
    (∃ s, machine.run setAfterStart = some s ∧ s.misclosed = [.sigInt, .sigTerm] ∧
      ¬ machine.Meets ClosesWhatIsOpen machine.init setAfterStart) ∧
    ∃ s, machine.run (clearedAfterStart ++ [.onClose .async]) = some s ∧
      s.status .sigInt = .open ∧ s.status .sigTerm = .open ∧ s.joining = true ∧
      step s .join = none ∧ ¬ machine.Meets ClosesWhatIsOpen machine.init clearedAfterStart :=
  ⟨⟨_, rfl, rfl, by decide⟩, _, rfl, rfl, rfl, rfl, by decide, by decide⟩

end

end ChezAsync.Epochs
