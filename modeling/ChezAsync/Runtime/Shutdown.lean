import Mathlib.Logic.Function.Basic
import Mathlib.Tactic.Common
import ChezAsync.Lib.Machine
import ChezAsync.Runtime.Accept
import ChezAsync.Runtime.Streams
import ChezAsync.Runtime.OneShot
import ChezAsync.Runtime.Process
import ChezAsync.Runtime.Watch

/-!
# Graceful shutdown (`runtime.cpp`)

The whole runtime of one Start/Stop epoch: listeners, streams, one-shot operations, any number of
processes and watchers, each by the functions of its own file, and `OnSignal` over all of them.
The parts share the flag of the shutdown, the record of completions and that of dispatched tasks;
these are kept in `rt`, and a part is run on its own state with the shared fields filled in.
-/

namespace ChezAsync.Shutdown

/-! ## 1. The machine -/

structure State where
  /-- The listeners, and the fields that all parts share. -/
  rt : Accept.State
  streams : Streams.State
  oneShot : OneShot.State
  processes : Nat → Process.State
  watchers : Nat → Watch.State

inductive Action
  | listeners (a : Accept.Action)
  | streams (a : Streams.Action)
  | oneShot (a : OneShot.Action)
  | process (p : Nat) (a : Process.Action)
  | watcher (w : Nat) (a : Watch.Action)
  /-- A signal, with the orders in which the handler meets `listeners_` and `reading_streams`. -/
  | onSignal (signum : Int) (order : List Accept.Addr) (sweep : List Streams.Addr)

/-- The shared fields after the step of a part. -/
def share (s : State) (completed : Completions) (tasks : List TaskId) : State :=
  { s with rt := { s.rt with completed, tasks } }

/-- The streams as their own functions see them. -/
def streamsView (s : State) : Streams.State :=
  { s.streams with
    shutdownSignaled := s.rt.shutdownSignaled, completed := s.rt.completed, tasks := s.rt.tasks }

def oneShotView (s : State) : OneShot.State :=
  { s.oneShot with completed := s.rt.completed, tasks := s.rt.tasks }

def processView (s : State) (p : Nat) : Process.State :=
  { s.processes p with completed := s.rt.completed, tasks := s.rt.tasks }

def watcherView (s : State) (w : Nat) : Watch.State :=
  { s.watchers w with completed := s.rt.completed, tasks := s.rt.tasks }

def stepStreams (s : State) (a : Streams.Action) : Option State :=
  (Streams.step (streamsView s) a).map fun u =>
    { share s u.completed u.tasks with streams := u }

def stepOneShot (s : State) (a : OneShot.Action) : Option State :=
  (OneShot.step (oneShotView s) a).map fun u =>
    { share s u.completed u.tasks with oneShot := u }

def stepProcess (s : State) (p : Nat) (a : Process.Action) : Option State :=
  (Process.step (processView s p) a).map fun u =>
    { share s u.completed u.tasks with processes := Function.update s.processes p u }

def stepWatcher (s : State) (w : Nat) (a : Watch.Action) : Option State :=
  (Watch.step (watcherView s w) a).map fun u =>
    { share s u.completed u.tasks with watchers := Function.update s.watchers w u }

/-- `Runtime::OnSignal`: the listeners, and on the graceful path the streams. -/
def onSignal (s : State) (signum : Int) (order : List Accept.Addr) (sweep : List Streams.Addr) :
    Option State :=
  (Accept.step s.rt (.onSignal signum order)).bind fun rt =>
    if rt.exited then some { s with rt } else stepStreams { s with rt } (.sweep sweep)

def step (s : State) (a : Action) : Option State :=
  if s.rt.exited then none
  else
    match a with
    -- the two halves of the handler are no steps of their own
    | .listeners (.onSignal _ _) => none
    | .listeners a => (Accept.step s.rt a).map fun rt => { s with rt }
    | .streams (.sweep _) => none
    | .streams a => stepStreams s a
    | .oneShot (.dispatch t uv) =>
        -- a listen is an action of the listeners
        if t.op = .tcpListen then none else stepOneShot s (.dispatch t uv)
    | .oneShot a => stepOneShot s a
    | .process p a => stepProcess s p a
    | .watcher w a => stepWatcher s w a
    | .onSignal signum order sweep => onSignal s signum order sweep

/-- The runtime right after `Runtime::Start`. -/
def machine : Machine State Action where
  init :=
    { rt := Accept.machine.init, streams := Streams.machine.init
      oneShot := OneShot.machine.init, processes := fun _ => Process.machine.init
      watchers := fun _ => Watch.machine.init }
  step := step

/-! ## 2. What a part does to the tasks of the others -/

/-- A part of the runtime, before and after a step: a task that it does not hold, and that is not
dispatched to it by the step, keeps its results and does not come to be held. -/
structure Frame (held held' : TaskId → Prop) (tasks tasks' : List TaskId)
    (c c' : Completions) : Prop where
  mono : ∀ t ∈ tasks, t ∈ tasks'
  idle : ∀ t, ¬ held t → (t ∈ tasks ∨ t ∉ tasks') → c'.results t = c.results t ∧ ¬ held' t

def oneShotHeld (s : OneShot.State) (t : TaskId) : Prop := ∃ q ∈ s.requests, q.task.id = t

def processHeld (s : Process.State) (t : TaskId) : Prop :=
  s.waitTask = some t ∨ s.handle.closeTask = some t

def watcherHeld (s : Watch.State) (t : TaskId) : Prop :=
  s.pendingNext = some t ∨ s.handle.closeTask = some t

/-- A listener holds the accepts parked on it and the task of its close. -/
def heldAt (heap : Accept.Heap) (t : TaskId) (l : Accept.Addr) : Prop :=
  ∃ x, heap l = some x ∧ (t ∈ x.pendingAccepts ∨ x.handle.closeTask = some t)

def listenersHeld (heap : Accept.Heap) (t : TaskId) : Prop := ∃ l, heldAt heap t l

section
variable {held held' : TaskId → Prop} {tasks tasks' : List TaskId} {c c' cs : Completions}

/-- The completions of a step are those of tasks that it dispatches or that were held, and it comes
to hold only tasks that it dispatches. -/
theorem Frame.of_completes (fresh : TaskId → Prop) (hmono : ∀ t ∈ tasks, t ∈ tasks')
    (hfresh : ∀ t, fresh t → t ∉ tasks ∧ t ∈ tasks') (hc : c' = c ++ cs)
    (hcs : ∀ p ∈ cs, held p.1 ∨ fresh p.1) (hheld : ∀ t, held' t → held t ∨ fresh t) :
    Frame held held' tasks tasks' c c' := by
  refine ⟨hmono, fun t ht hold => ?_⟩
  have hnot : ¬ fresh t := by
    intro h
    rcases hold with hmem | hmem
    · exact (hfresh t h).1 hmem
    · exact hmem (hfresh t h).2
  have hnil : cs.results t = [] := by
    apply Completions.results_eq_nil
    rintro p hp rfl
    exact (hcs p hp).elim ht hnot
  refine ⟨?_, fun h => (hheld t h).elim ht hnot⟩
  rw [hc, Completions.results_append, hnil, List.append_nil]

/-- The dispatch of the task `t`. -/
theorem Frame.dispatch {t : TaskId} (ht : t ∉ tasks)
    (htasks : ∀ t', t' ∈ tasks' ↔ t' = t ∨ t' ∈ tasks) (hc : c' = c ++ cs)
    (hcs : ∀ p ∈ cs, held p.1 ∨ p.1 = t) (hheld : ∀ t', held' t' → held t' ∨ t' = t) :
    Frame held held' tasks tasks' c c' := by
  apply Frame.of_completes (fun t' => t' = t) _ _ hc hcs hheld
  · exact fun t' ht' => (htasks t').mpr (Or.inr ht')
  · rintro t' rfl
    exact ⟨ht, (htasks t').mpr (Or.inl rfl)⟩

/-- A callback. -/
theorem Frame.callback (hc : c' = c ++ cs) (hcs : ∀ p ∈ cs, held p.1)
    (hheld : ∀ t, held' t → held t) : Frame held held' tasks tasks c c' :=
  Frame.of_completes (fun _ => False) (fun _ h => h) (fun _ h => h.elim) hc
    (fun p hp => Or.inl (hcs p hp)) fun t h => Or.inl (hheld t h)

end

/-- `OnClosed` completes the close task. -/
theorem mem_onClosed {h : LoopHandle} {p : TaskId × Int} (hp : p ∈ h.onClosed.2) :
    h.closeTask = some p.1 := by
  rcases h with ⟨st, _ | t⟩
  · cases hp
  · rw [List.mem_singleton.mp hp]

theorem mem_snoc (ts : List TaskId) (t t' : TaskId) : t' ∈ ts ++ [t] ↔ t' = t ∨ t' ∈ ts := by
  rw [List.mem_append, List.mem_singleton, or_comm]

-- A process holds its wait and the task of its close.
theorem frame_process {s u : Process.State} {a : Process.Action}
    (h : Process.step s a = some u) :
    Frame (processHeld s) (processHeld u) s.tasks u.tasks s.completed u.completed := by
  cases Process.step_cases h with
  | waitDeleted ht | killDeleted ht =>
    exact .dispatch ht (mem_snoc _ _) (List.append_nil _).symm (by simp) fun _ => Or.inl
  | waitExited ht | kill ht =>
    exact .dispatch ht (mem_snoc _ _) rfl (by simp) fun _ => Or.inl
  | waitParked ht =>
    apply Frame.dispatch ht (mem_snoc _ _) (List.append_nil _).symm (by simp)
    intro t' h
    -- the slot is the new task's
    rcases h with h | h
    · exact Or.inr (Option.some.inj h).symm
    · exact Or.inl (Or.inr h)
  | procClose ht =>
    apply Frame.dispatch ht (mem_snoc _ _) (List.append_nil _).symm (by simp)
    intro t' h
    rcases h with h | h
    · exact Or.inl (Or.inl h)
    · exact Or.inr (Option.some.inj h).symm
  | exitAlone => exact .callback (List.append_nil _).symm (by simp) fun _ h => h
  | exitParked _ _ hslot =>
    apply Frame.callback rfl
    · intro p hp
      rw [List.mem_singleton.mp hp]
      exact Or.inl hslot
    · intro t' h
      rcases h with h | h
      · cases h
      · exact Or.inr h
  | closed =>
    apply Frame.callback (List.append_nil _).symm (by simp)
    intro t h
    rcases h with h | h
    · exact Or.inl h
    · cases h
  | closedFor _ hct =>
    apply Frame.callback rfl
    · intro p hp
      rw [List.mem_singleton.mp hp]
      exact Or.inr hct
    · intro t h
      rcases h with h | h
      · exact Or.inl h
      · cases h

theorem frame_watcher {s u : Watch.State} {a : Watch.Action} (h : Watch.step s a = some u) :
    Frame (watcherHeld s) (watcherHeld u) s.tasks u.tasks s.completed u.completed := by
  cases Watch.step_cases h with
  | busy ht => exact .dispatch ht (mem_snoc _ _) rfl (by simp) fun _ => Or.inl
  | queued ht => exact .dispatch ht (mem_snoc _ _) rfl (by simp) fun _ => Or.inl
  | park ht =>
    apply Frame.dispatch ht (mem_snoc _ _) (List.append_nil _).symm (by simp)
    intro t' h
    rcases h with h | h
    · exact Or.inr (Option.some.inj h).symm
    · exact Or.inl (Or.inr h)
  | handOver _ hp =>
    apply Frame.callback rfl
    · intro p hmem
      rw [List.mem_singleton.mp hmem]
      exact Or.inl hp
    · intro t' h
      rcases h with h | h
      · cases h
      · exact Or.inr h
  | keep => exact .callback (List.append_nil _).symm (by simp) fun _ h => h
  | cancel ht _ hp =>
    apply Frame.dispatch ht (mem_snoc _ _) rfl
    · intro p hmem
      rw [List.mem_singleton.mp hmem]
      exact Or.inl (Or.inl hp)
    · intro t' h
      rcases h with h | h
      · cases h
      · exact Or.inr (Option.some.inj h).symm
  | close ht =>
    apply Frame.dispatch ht (mem_snoc _ _) (List.append_nil _).symm (by simp)
    intro t' h
    rcases h with h | h
    · exact Or.inl (Or.inl h)
    · exact Or.inr (Option.some.inj h).symm
  | closed =>
    apply Frame.callback rfl
    · exact fun p hp => Or.inr (mem_onClosed hp)
    · intro t h
      rcases h with h | h
      · exact Or.inl h
      · cases h

theorem oneShotHeld_iff (s : OneShot.State) (t : TaskId) :
    oneShotHeld s t ↔ s.requests.countP (·.task.id = t) ≠ 0 := by
  rw [← Nat.pos_iff_ne_zero, List.countP_pos_iff]
  simp [oneShotHeld]

/-- The answers of a task are its results and its requests, and its results only grow. -/
theorem frame_oneShot {s u : OneShot.State} {a : OneShot.Action}
    (h : OneShot.step s a = some u) :
    Frame (oneShotHeld s) (oneShotHeld u) s.tasks u.tasks s.completed u.completed := by
  have htasks := OneShot.tasks_step h
  constructor
  · intro t ht
    rcases htasks with ⟨t', uv, _, _, heq⟩ | ⟨_, heq⟩
    · exact heq ▸ List.mem_append_left _ ht
    · exact heq ▸ ht
  · intro t hheld hnew
    have hgain : OneShot.gain a t = 0 := by
      rcases htasks with ⟨t', uv, rfl, ht', heq⟩ | ⟨hgain, _⟩
      · apply OneShot.gain_of_ne
        rintro rfl
        rcases hnew with hmem | hmem
        · exact ht' hmem
        · exact hmem (heq ▸ List.mem_append_right _ (List.mem_singleton.mpr rfl))
      · exact hgain t
    have hans := OneShot.answers_step h t
    have hpre := Completions.results_prefix (OneShot.grows_step h) t
    have hlen := hpre.length_le
    rw [oneShotHeld_iff, not_not] at hheld ⊢
    unfold OneShot.answers at hans
    refine ⟨(hpre.eq_of_length (by omega)).symm, by omega⟩

/-! ## 3. Listeners -/

@[grind =] theorem heldAt_update (heap : Accept.Heap) (l l' : Accept.Addr) (x : Accept.Listener)
    (t : TaskId) :
    heldAt (Function.update heap l (some x)) t l' ↔
      if l' = l then t ∈ x.pendingAccepts ∨ x.handle.closeTask = some t else heldAt heap t l' := by
  by_cases h : l' = l
  · simp [heldAt, h]
  · simp [heldAt, h]

@[grind =] theorem heldAt_update_none (heap : Accept.Heap) (l l' : Accept.Addr) (t : TaskId) :
    heldAt (Function.update heap l none) t l' ↔ l' ≠ l ∧ heldAt heap t l' := by
  by_cases h : l' = l
  · simp [heldAt, h]
  · simp [heldAt, h]

theorem heldAt_iff {heap : Accept.Heap} {l : Accept.Addr} {x : Accept.Listener}
    (hx : heap l = some x) (t : TaskId) :
    heldAt heap t l ↔ t ∈ x.pendingAccepts ∨ x.handle.closeTask = some t := by
  simp [heldAt, hx]

theorem tasks_abortListener (s : Accept.State) (l : Accept.Addr) (closeTask : Option TaskId) :
    (Accept.abortListener s l closeTask).tasks = s.tasks := by
  unfold Accept.abortListener
  split <;> rfl

/-- An abort completes the accepts parked on its listener. -/
theorem results_abortListener (s : Accept.State) (l : Accept.Addr) (closeTask : Option TaskId)
    (t : TaskId) (ht : ¬ s.heap.Pending t l) :
    (Accept.abortListener s l closeTask).completed.results t = s.completed.results t := by
  unfold Accept.abortListener
  split
  · rfl
  case h_2 x hx =>
    rw [Accept.Heap.pending_iff hx] at ht
    have hnil : Completions.results (x.pendingAccepts.map fun p => (p, UV_ECANCELED)) t = [] := by
      apply Completions.results_eq_nil
      intro p hp heq
      rcases List.mem_map.mp hp with ⟨t', ht', rfl⟩
      exact ht (heq ▸ ht')
    rw [Completions.results_append, hnil, List.append_nil]

theorem heldAt_abortListener (s : Accept.State) (l : Accept.Addr) (closeTask : Option TaskId)
    (t : TaskId) (l' : Accept.Addr) (hne : closeTask ≠ some t)
    (h : heldAt (Accept.abortListener s l closeTask).heap t l') : heldAt s.heap t l' := by
  unfold Accept.abortListener at h
  split at h
  · exact h
  case h_2 x hx =>
    rw [heldAt_update] at h
    split at h
    · rcases h with h | h
      · cases h
      · exact absurd h hne
    · exact h

/-- The loop of the signal handler. -/
theorem foldl_abort (order : List Accept.Addr) (s : Accept.State) (t : TaskId) :
    ((∀ l ∈ order, ¬ s.heap.Pending t l) →
        (order.foldl (fun s l => Accept.abortListener s l none) s).completed.results t =
          s.completed.results t) ∧
      (∀ l, heldAt (order.foldl (fun s l => Accept.abortListener s l none) s).heap t l →
        heldAt s.heap t l) ∧
      (order.foldl (fun s l => Accept.abortListener s l none) s).tasks = s.tasks := by
  induction order generalizing s with
  | nil => exact ⟨fun _ => rfl, fun _ h => h, rfl⟩
  | cons l order ih =>
    have h := ih (Accept.abortListener s l none)
    refine ⟨?_, ?_, h.2.2.trans (tasks_abortListener s l none)⟩
    · intro ht
      rw [List.foldl_cons, h.1, results_abortListener s l none t (ht l List.mem_cons_self)]
      -- the abort of `l` parks nobody elsewhere
      intro l' hl' hp
      have hp' := ht l' (List.mem_cons_of_mem l hl')
      unfold Accept.abortListener at hp
      split at hp
      · exact hp' hp
      · rw [Accept.pending_update] at hp
        split at hp
        · cases hp
        · exact hp' hp
    · intro l' hl'
      exact heldAt_abortListener s l none t l' (by simp) (h.2.1 l' hl')

theorem not_held_at {heap : Accept.Heap} {l : Accept.Addr} {x : Accept.Listener}
    (hx : heap l = some x) {t : TaskId} (ht : ¬ listenersHeld heap t) :
    t ∉ x.pendingAccepts ∧ x.handle.closeTask ≠ some t := by
  have h : ¬ heldAt heap t l := fun h => ht ⟨l, h⟩
  rw [heldAt_iff hx, not_or] at h
  exact h

theorem not_pending {heap : Accept.Heap} {t : TaskId} (ht : ¬ listenersHeld heap t)
    (l : Accept.Addr) : ¬ heap.Pending t l := by
  intro hp
  rcases hp with ⟨x, hx, hmem⟩
  exact (not_held_at hx ht).1 hmem

theorem frame_onSignal (s : Accept.State) (signum : Int) (order : List Accept.Addr) :
    Frame (listenersHeld s.heap) (listenersHeld (Accept.onSignal s signum order).heap) s.tasks
      (Accept.onSignal s signum order).tasks s.completed
      (Accept.onSignal s signum order).completed := by
  unfold Accept.onSignal
  split
  · exact ⟨fun _ h => h, fun t ht _ => ⟨rfl, ht⟩⟩
  · have hfold := foldl_abort order { s with shutdownSignaled := true, shutdownSignum := signum }
    constructor
    · intro t ht
      show t ∈ (order.foldl (fun s l => Accept.abortListener s l none) _).tasks
      rw [(hfold t).2.2]
      exact ht
    · intro t ht _
      refine ⟨(hfold t).1 fun l _ => not_pending ht l, fun hheld => ?_⟩
      rcases hheld with ⟨l, hl⟩
      exact ht ⟨l, (hfold t).2.1 l hl⟩

/-- A listener of the heap changes, and holds nobody new. -/
theorem held_update {heap : Accept.Heap} {l : Accept.Addr} {x' : Accept.Listener} {t : TaskId}
    (h : listenersHeld (Function.update heap l (some x')) t) :
    listenersHeld heap t ∨ t ∈ x'.pendingAccepts ∨ x'.handle.closeTask = some t := by
  rcases h with ⟨l', hl'⟩
  rw [heldAt_update] at hl'
  split at hl'
  · exact Or.inr hl'
  · exact Or.inl ⟨l', hl'⟩

/-- A listener changes, and holds nobody but `t` that it has not held. -/
theorem held_update_of {heap : Accept.Heap} {l : Accept.Addr} {x x' : Accept.Listener}
    {t t' : TaskId} (hx : heap l = some x) (hclose : x'.handle = x.handle)
    (hps : ∀ p ∈ x'.pendingAccepts, p ∈ x.pendingAccepts ∨ p = t)
    (h : listenersHeld (Function.update heap l (some x')) t') : listenersHeld heap t' ∨ t' = t := by
  rcases held_update h with h | h | h
  · exact Or.inl h
  · exact (hps t' h).imp_left fun hp => ⟨l, x, hx, Or.inl hp⟩
  · exact Or.inl ⟨l, x, hx, Or.inr (hclose ▸ h)⟩

section
variable {s : Accept.State} {t : TaskId} {l : Accept.Addr}

/-- What a step to `u` does to the tasks that the listeners hold. -/
abbrev Listens (s u : Accept.State) : Prop :=
  Frame (listenersHeld s.heap) (listenersHeld u.heap) s.tasks u.tasks s.completed u.completed

theorem mem_dispatched (s : Accept.State) (t t' : TaskId) :
    t' ∈ t :: s.tasks ↔ t' = t ∨ t' ∈ s.tasks := List.mem_cons

-- A new listener holds nobody.
theorem frame_tcpListen (ht : t ∉ s.tasks) (rc : Int) :
    Listens s (Accept.tcpListen { s with tasks := t :: s.tasks } t l rc) := by
  have hnobody : ∀ {x : Accept.Listener} {t' : TaskId}, x.pendingAccepts = [] →
      x.handle.closeTask = none → listenersHeld (Function.update s.heap l (some x)) t' →
      listenersHeld s.heap t' ∨ t' = t := by
    intro x t' hps hclose h
    rcases held_update h with h | h | h
    · exact Or.inl h
    · rw [hps] at h
      cases h
    · rw [hclose] at h
      cases h
  unfold Accept.tcpListen
  split <;> exact .dispatch ht (mem_dispatched s t) rfl (by simp) fun _ => hnobody rfl rfl

/-- A connection shortens the queue of parked accepts or leaves it. -/
theorem frame_onConnection {x : Accept.Listener} (hx : s.heap l = some x) (status : Int)
    (c : Accept.StreamId) (rc : Int) : Listens s (Accept.onConnection s l x status c rc) := by
  have hkeep : ∀ {ps : List TaskId} {cs : List Accept.StreamId} {t : TaskId},
      (∀ p ∈ ps, p ∈ x.pendingAccepts) →
      listenersHeld (Function.update s.heap l
        (some { x with accepted := cs, pendingAccepts := ps })) t → listenersHeld s.heap t := by
    intro ps cs t hps h
    rcases held_update h with h | h | h
    · exact h
    · exact ⟨l, x, hx, Or.inl (hps t h)⟩
    · exact ⟨l, x, hx, Or.inr h⟩
  unfold Accept.onConnection
  split
  · exact .callback (List.append_nil _).symm (by simp) fun _ h => h
  simp only
  split
  · exact .callback (List.append_nil _).symm (by simp) fun _ h => h
  split
  case h_1 t ts hp =>
    apply Frame.callback rfl
    · intro p hmem
      rw [List.mem_singleton.mp hmem]
      exact ⟨l, x, hx, Or.inl (hp ▸ List.mem_cons_self)⟩
    · exact fun t' => hkeep fun p hmem => hp ▸ List.mem_cons_of_mem t hmem
  case h_2 hp =>
    apply Frame.callback (List.append_nil _).symm (by simp)
    exact fun t' => hkeep fun p hmem => hmem

theorem frame_tcpAccept (ht : t ∉ s.tasks) :
    Listens s { Accept.tcpAccept { s with tasks := t :: s.tasks } t l with
      accepts := (t, l) :: s.accepts } := by
  unfold Accept.tcpAccept
  split
  case h_1 =>
    exact .dispatch ht (mem_dispatched s t) (List.append_nil _).symm (by simp) fun _ => Or.inl
  case h_2 x hx =>
    split
    case h_1 c cs hcs =>
      apply Frame.dispatch ht (mem_dispatched s t) rfl (by simp)
      exact fun t' => held_update_of hx rfl fun p hp => Or.inl hp
    case h_2 =>
      apply Frame.dispatch ht (mem_dispatched s t) (List.append_nil _).symm (by simp)
      exact fun t' => held_update_of hx rfl fun p hp => (mem_snoc _ t p).mp hp |>.symm

-- An abort completes those that the listener holds; the close task is new.
theorem frame_listenerClose (ht : t ∉ s.tasks) :
    Listens s (Accept.listenerClose { s with tasks := t :: s.tasks } t l) := by
  unfold Accept.listenerClose
  split
  · constructor
    · intro t' ht'
      rw [tasks_abortListener]
      exact List.mem_cons_of_mem t ht'
    · intro t' ht' hnew
      have hne : some t ≠ some t' := by
        intro heq
        cases heq
        rw [tasks_abortListener] at hnew
        exact hnew.elim ht fun h => h List.mem_cons_self
      refine ⟨results_abortListener _ l (some t) t' (not_pending ht' l), fun hheld => ?_⟩
      rcases hheld with ⟨l', hl'⟩
      exact ht' ⟨l', heldAt_abortListener
        { s with tasks := t :: s.tasks, listeners := s.listeners.erase l } l (some t) t' l' hne hl'⟩
  · exact .dispatch ht (mem_dispatched s t) rfl (by simp) fun _ => Or.inl

end

theorem frame_listeners {s u : Accept.State} {a : Accept.Action}
    (h : Accept.step s a = some u) : Listens s u := by
  cases (Accept.step_cases h).2 with
  | tcpListen ht _ => exact frame_tcpListen ht _
  | onConnection hx => exact frame_onConnection hx _ _ _
  | tcpAccept ht _ => exact frame_tcpAccept ht
  | listenerClose ht _ => exact frame_listenerClose ht
  | @onClosed l x hx hclosing =>
    apply Frame.callback rfl
    · exact fun p hp => ⟨l, x, hx, Or.inr (mem_onClosed hp)⟩
    · intro t h
      rcases h with ⟨l', hl'⟩
      exact ⟨l', ((heldAt_update_none ..).mp hl').2⟩
  | onSignal horder => exact frame_onSignal s _ _

/-- What is in the registry is open and has no close task. -/
structure Registry (s : Accept.State) : Prop where
  nodup : s.listeners.Nodup
  handle : ∀ l ∈ s.listeners,
    (s.heap l).map Accept.Listener.handle = some { state := .live, closeTask := none }

-- Only a listen adds to the registry, and its listener is open.
theorem registry_step {s u : Accept.State} {a : Accept.Action} (hs : Registry s)
    (h : Accept.step s a = some u) : Registry u := by
  rcases hs with ⟨hnd, hreg⟩
  cases (Accept.step_cases h).2 with
  | @tcpListen t l rc ht hl =>
    have hnot : l ∉ s.listeners := fun hmem => by grind
    unfold Accept.tcpListen
    split
    · exact ⟨hnd, by grind [Function.update_apply]⟩
    · refine ⟨List.nodup_cons.mpr ⟨hnot, hnd⟩, ?_⟩
      grind [Function.update_apply, Accept.newListener]
  | onConnection hx =>
    unfold Accept.onConnection
    split
    · exact ⟨hnd, hreg⟩
    · simp only
      split
      · exact ⟨hnd, hreg⟩
      · split <;> exact ⟨hnd, by grind [Function.update_apply]⟩
  | tcpAccept =>
    unfold Accept.tcpAccept
    split
    · exact ⟨hnd, hreg⟩
    · split <;> exact ⟨hnd, by grind [Function.update_apply]⟩
  | @listenerClose t l ht _ =>
    unfold Accept.listenerClose
    split
    · have hmem := fun l' => hnd.mem_erase_iff (a := l') (b := l)
      have hnd' := hnd.erase l
      unfold Accept.abortListener
      split <;> exact ⟨hnd', by grind [Function.update_apply]⟩
    · exact ⟨hnd, hreg⟩
  | onClosed hx hclosing => exact ⟨hnd, by grind [Function.update_apply]⟩
  | onSignal =>
    unfold Accept.onSignal
    split
    · exact ⟨hnd, hreg⟩
    · exact ⟨List.nodup_nil, by simp⟩

/-- The handler touches the listeners it meets, and no others. -/
theorem heap_foldl_abort (order : List Accept.Addr) (s : Accept.State) (l : Accept.Addr)
    (hl : l ∉ order) :
    (order.foldl (fun s l => Accept.abortListener s l none) s).heap l = s.heap l := by
  induction order generalizing s with
  | nil => rfl
  | cons l' order ih =>
    rw [List.mem_cons, not_or] at hl
    rw [List.foldl_cons, ih _ hl.2]
    unfold Accept.abortListener
    split
    · rfl
    · exact Function.update_of_ne hl.1 _ _

-- Only the signal handler sets these flags.
theorem flags_of_not_signal {s u : Accept.State} {a : Accept.Action}
    (h : Accept.step s a = some u) (ha : ∀ signum order, a ≠ .onSignal signum order) :
    u.shutdownSignaled = s.shutdownSignaled ∧ u.exited = s.exited := by
  cases (Accept.step_cases h).2 with
  | tcpListen =>
    unfold Accept.tcpListen
    split <;> exact ⟨rfl, rfl⟩
  | onConnection =>
    unfold Accept.onConnection
    split
    · exact ⟨rfl, rfl⟩
    · simp only
      split
      · exact ⟨rfl, rfl⟩
      · split <;> exact ⟨rfl, rfl⟩
  | tcpAccept =>
    unfold Accept.tcpAccept
    split
    · exact ⟨rfl, rfl⟩
    · split <;> exact ⟨rfl, rfl⟩
  | listenerClose =>
    unfold Accept.listenerClose
    split
    · unfold Accept.abortListener
      split <;> exact ⟨rfl, rfl⟩
    · exact ⟨rfl, rfl⟩
  | onClosed => exact ⟨rfl, rfl⟩
  | onSignal => exact absurd rfl (ha _ _)

/-! ## 4. The invariant -/

/-- What a part holds are dispatched tasks, and none of them is a read. -/
def Foreign (s : State) (held : TaskId → Prop) : Prop :=
  ∀ t, held t → t ∈ s.rt.tasks ∧ t ∉ s.streams.reads

structure Inv (s : State) : Prop where
  streams : s.rt.exited = false → Streams.Inv (streamsView s)
  reads : ∀ t ∈ s.streams.reads, t ∈ s.rt.tasks
  listeners : Foreign s (listenersHeld s.rt.heap)
  oneShot : Foreign s (oneShotHeld s.oneShot)
  processes : ∀ p, Foreign s (processHeld (s.processes p))
  watchers : ∀ w, Foreign s (watcherHeld (s.watchers w))
  registry : Registry s.rt

theorem inv_init : Inv machine.init := by
  refine ⟨fun _ => Streams.inv_init, ?_, ?_, ?_, ?_, ?_, ⟨List.nodup_nil, ?_⟩⟩
  · exact fun _ h => by cases h
  · exact fun t h => by rcases h with ⟨l, x, hx, _⟩; cases hx
  · exact fun t h => by rcases h with ⟨q, hq, _⟩; cases hq
  · exact fun _ t h => by rcases h with h | h <;> cases h
  · exact fun _ t h => by rcases h with h | h <;> cases h
  · exact fun _ h => by cases h

/-- A step of a part other than the streams: what it leaves of the invariant. -/
structure Moved (s u : State) (held held' : TaskId → Prop) : Prop where
  frame : Frame held held' s.rt.tasks u.rt.tasks s.rt.completed u.rt.completed
  streams : u.streams = s.streams
  signaled : u.rt.shutdownSignaled = s.rt.shutdownSignaled

section Moved

variable {s u : State} {held held' : TaskId → Prop}

-- What the moving part holds are known tasks, and none of them is a read.
theorem Moved.foreign (h : Moved s u held held') (hs : Inv s) (hheld : Foreign s held) :
    Foreign u held' := by
  intro t ht
  have hidle := h.frame.idle t
  by_cases hold : held t
  · rw [h.streams]
    exact ⟨h.frame.mono t (hheld t hold).1, (hheld t hold).2⟩
  · -- held only now, so it has just been dispatched
    have hnew : ¬ (t ∈ s.rt.tasks ∨ t ∉ u.rt.tasks) := fun hc => (hidle hold hc).2 ht
    rw [not_or, not_not] at hnew
    rw [h.streams]
    exact ⟨hnew.2, fun hread => hnew.1 (hs.reads t hread)⟩

theorem Moved.others (h : Moved s u held held') {held₀ : TaskId → Prop}
    (h₀ : Foreign s held₀) : Foreign u held₀ := by
  intro t ht
  rw [h.streams]
  exact ⟨h.frame.mono t (h₀ t ht).1, (h₀ t ht).2⟩

/-- The results of the reads stay. -/
theorem Moved.results (h : Moved s u held held') (hs : Inv s) (hheld : Foreign s held) {t : TaskId}
    (ht : t ∈ s.streams.reads) : u.rt.completed.results t = s.rt.completed.results t :=
  (h.frame.idle t (fun hold => (hheld t hold).2 ht) (Or.inl (hs.reads t ht))).1

theorem Moved.streamsInv (h : Moved s u held held') (hs : Inv s) (hheld : Foreign s held)
    (hexit : s.rt.exited = false) : Streams.Inv (streamsView u) := by
  have hinv := hs.streams hexit
  have hview : streamsView u =
      { streamsView s with tasks := u.rt.tasks, completed := u.rt.completed } := by
    simp only [streamsView, h.streams, h.signaled]
  rw [hview]
  apply Streams.inv_others hinv h.frame.mono
  · exact fun t ht => h.results hs hheld ht
  · intro t ht
    have hnot : ¬ held t := fun hold => ht (h.frame.mono t (hheld t hold).1)
    rw [(h.frame.idle t hnot (Or.inr ht)).1]
    exact hinv.fresh t fun hmem => ht (h.frame.mono t hmem)

theorem Moved.reads (h : Moved s u held held') (hs : Inv s) :
    ∀ t ∈ u.streams.reads, t ∈ u.rt.tasks := by
  intro t ht
  rw [h.streams] at ht
  exact h.frame.mono t (hs.reads t ht)

end Moved

/-- One constructor for each part, and two for the signal. -/
inductive Step (s : State) : Action → State → Prop
  | listeners {a rt} : (∀ signum order, a ≠ .onSignal signum order) →
      Accept.step s.rt a = some rt → Step s (.listeners a) { s with rt }
  | streams {a u} : (∀ order, a ≠ .sweep order) → Streams.step (streamsView s) a = some u →
      Step s (.streams a) { share s u.completed u.tasks with streams := u }
  | oneShot {a u} : OneShot.step (oneShotView s) a = some u →
      Step s (.oneShot a) { share s u.completed u.tasks with oneShot := u }
  | process {p a u} : Process.step (processView s p) a = some u →
      Step s (.process p a)
        { share s u.completed u.tasks with processes := Function.update s.processes p u }
  | watcher {w a u} : Watch.step (watcherView s w) a = some u →
      Step s (.watcher w a)
        { share s u.completed u.tasks with watchers := Function.update s.watchers w u }
  | exit {signum order sweep} : order.Perm s.rt.listeners →
      (s.rt.shutdownSignaled = true ∨ s.rt.listeners = []) →
      Step s (.onSignal signum order sweep) { s with rt := Accept.onSignal s.rt signum order }
  | signal {signum order sweep u} : order.Perm s.rt.listeners →
      s.rt.shutdownSignaled = false → s.rt.listeners ≠ [] →
      Streams.step (streamsView { s with rt := Accept.onSignal s.rt signum order })
        (.sweep sweep) = some u →
      Step s (.onSignal signum order sweep)
        { share { s with rt := Accept.onSignal s.rt signum order } u.completed u.tasks with
          streams := u }

theorem signaled_foldl (order : List Accept.Addr) (s : Accept.State) :
    (order.foldl (fun s l => Accept.abortListener s l none) s).shutdownSignaled =
        s.shutdownSignaled ∧
      (order.foldl (fun s l => Accept.abortListener s l none) s).exited = s.exited := by
  induction order generalizing s with
  | nil => exact ⟨rfl, rfl⟩
  | cons l order ih =>
    have habort : (Accept.abortListener s l none).shutdownSignaled = s.shutdownSignaled ∧
        (Accept.abortListener s l none).exited = s.exited := by
      unfold Accept.abortListener
      split <;> exact ⟨rfl, rfl⟩
    exact ⟨(ih _).1.trans habort.1, (ih _).2.trans habort.2⟩

/-- The handler exits when it has nothing to wind down, or is called again. -/
theorem exited_onSignal {s : Accept.State} (hexit : s.exited = false) (signum : Int)
    (order : List Accept.Addr) :
    ((Accept.onSignal s signum order).exited = true ↔
        s.shutdownSignaled = true ∨ s.listeners = []) ∧
      (Accept.onSignal s signum order).shutdownSignaled = true := by
  unfold Accept.onSignal
  split
  case isTrue h => exact ⟨⟨fun _ => h, fun _ => rfl⟩, rfl⟩
  case isFalse h =>
    have hfold := signaled_foldl order
      { s with shutdownSignaled := true, shutdownSignum := signum }
    refine ⟨⟨fun hx => ?_, fun hx => absurd hx h⟩, hfold.1⟩
    have hx' := hfold.2.symm.trans hx
    rw [hexit] at hx'
    cases hx'

theorem step_cases {s u : State} {a : Action} (h : step s a = some u) :
    s.rt.exited = false ∧ Step s a u := by
  simp only [step, Option.ite_none_left_eq_some, Bool.not_eq_true] at h
  rcases h with ⟨hexit, h⟩
  refine ⟨hexit, ?_⟩
  split at h
  case h_1 => cases h
  case h_2 a hne =>
    rcases Option.map_eq_some_iff.mp h with ⟨rt, hrt, rfl⟩
    exact .listeners (fun signum order heq => hne signum order heq) hrt
  case h_3 => cases h
  case h_4 a hne =>
    rcases Option.map_eq_some_iff.mp h with ⟨v, hv, rfl⟩
    exact .streams (fun order heq => hne order heq) hv
  case h_5 t uv =>
    simp only [Option.ite_none_left_eq_some] at h
    rcases Option.map_eq_some_iff.mp h.2 with ⟨v, hv, rfl⟩
    exact .oneShot hv
  case h_6 a _ =>
    rcases Option.map_eq_some_iff.mp h with ⟨v, hv, rfl⟩
    exact .oneShot hv
  case h_7 p a =>
    rcases Option.map_eq_some_iff.mp h with ⟨v, hv, rfl⟩
    exact .process hv
  case h_8 w a =>
    rcases Option.map_eq_some_iff.mp h with ⟨v, hv, rfl⟩
    exact .watcher hv
  case h_9 signum order sweep =>
    simp only [onSignal, Option.bind_eq_some_iff] at h
    rcases h with ⟨rt, hrt, h⟩
    cases (Accept.step_cases hrt).2 with
    | onSignal horder =>
      have hx := (exited_onSignal hexit signum order).1
      split at h
      case isTrue hc =>
        simp only [Option.some.injEq] at h
        exact h ▸ .exit horder (hx.mp hc)
      case isFalse hc =>
        rw [hx, not_or, Bool.not_eq_true] at hc
        rcases Option.map_eq_some_iff.mp h with ⟨v, hv, rfl⟩
        exact .signal horder hc.1 hc.2 hv

/-- A step of the streams: what it leaves of the invariant. -/
theorem streams_foreign {s : State} {v : Streams.State} {a : Streams.Action} {u : Streams.State}
    (hv : Streams.Inv v) (hvtasks : v.tasks = s.rt.tasks) (hvreads : v.reads = s.streams.reads)
    (h : Streams.step v a = some u) {held : TaskId → Prop} (hheld : Foreign s held) :
    Foreign { share s u.completed u.tasks with streams := u } held := by
  have hrecord := Streams.record_step hv h
  intro t ht
  have hold := hheld t ht
  refine ⟨hrecord.1 t (hvtasks ▸ hold.1), fun hread => ?_⟩
  rcases hrecord.2 t hread with hread | hnew
  · exact hold.2 (hvreads ▸ hread)
  · exact hnew (hvtasks ▸ hold.1)

/-- The state between the two halves of the handler, before anybody sees the flag. -/
def cancelAccepts (s : State) (signum : Int) (order : List Accept.Addr) : State :=
  { s with
    rt := { Accept.onSignal s.rt signum order with shutdownSignaled := s.rt.shutdownSignaled } }

theorem moved_listeners (s : State) (signum : Int) (order : List Accept.Addr) :
    Moved s (cancelAccepts s signum order) (listenersHeld s.rt.heap)
      (listenersHeld (Accept.onSignal s.rt signum order).heap) :=
  ⟨frame_onSignal s.rt signum order, rfl, rfl⟩

-- By the part that moves; the frames say that the others stay as they are.
theorem inv_step {s u : State} {a : Action} (hs : Inv s) (h : step s a = some u) : Inv u := by
  rcases step_cases h with ⟨hexit, hstep⟩
  cases hstep with
  | @listeners a rt hne hrt =>
    have hflags := flags_of_not_signal hrt hne
    have hm : Moved s { s with rt } _ _ := ⟨frame_listeners hrt, rfl, hflags.1⟩
    exact ⟨fun _ => hm.streamsInv hs hs.listeners hexit, hm.reads hs,
      hm.foreign hs hs.listeners, hm.others hs.oneShot, fun p => hm.others (hs.processes p),
      fun w => hm.others (hs.watchers w), registry_step hs.registry hrt⟩
  | @oneShot a v hv =>
    have hm : Moved s { share s v.completed v.tasks with oneShot := v } _ _ :=
      ⟨frame_oneShot hv, rfl, rfl⟩
    exact ⟨fun _ => hm.streamsInv hs hs.oneShot hexit, hm.reads hs, hm.others hs.listeners,
      hm.foreign hs hs.oneShot, fun p => hm.others (hs.processes p),
      fun w => hm.others (hs.watchers w), ⟨hs.registry.nodup, hs.registry.handle⟩⟩
  | @process p a v hv =>
    have hm : Moved s { share s v.completed v.tasks with
        processes := Function.update s.processes p v } _ _ := ⟨frame_process hv, rfl, rfl⟩
    refine ⟨fun _ => hm.streamsInv hs (hs.processes p) hexit, hm.reads hs, hm.others hs.listeners,
      hm.others hs.oneShot, fun q => ?_, fun w => hm.others (hs.watchers w),
      ⟨hs.registry.nodup, hs.registry.handle⟩⟩
    by_cases hq : q = p
    · subst hq
      simp only [Function.update_self]
      exact hm.foreign hs (hs.processes q)
    · simp only [Function.update_of_ne hq]
      exact hm.others (hs.processes q)
  | @watcher w a v hv =>
    have hm : Moved s { share s v.completed v.tasks with
        watchers := Function.update s.watchers w v } _ _ := ⟨frame_watcher hv, rfl, rfl⟩
    refine ⟨fun _ => hm.streamsInv hs (hs.watchers w) hexit, hm.reads hs, hm.others hs.listeners,
      hm.others hs.oneShot, fun p => hm.others (hs.processes p), fun w' => ?_,
      ⟨hs.registry.nodup, hs.registry.handle⟩⟩
    by_cases hw : w' = w
    · subst hw
      simp only [Function.update_self]
      exact hm.foreign hs (hs.watchers w')
    · simp only [Function.update_of_ne hw]
      exact hm.others (hs.watchers w')
  | @streams a v hne hv =>
    have hview := hs.streams hexit
    have hinv := Streams.inv_step hview hv
    have hflag := Streams.flag_step hne hv
    have hf := fun held (hheld : Foreign s held) => streams_foreign hview rfl rfl hv hheld
    refine ⟨fun _ => ?_, hinv.reads, hf _ hs.listeners, hf _ hs.oneShot,
      fun p => hf _ (hs.processes p), fun w => hf _ (hs.watchers w),
      ⟨hs.registry.nodup, hs.registry.handle⟩⟩
    have hback : streamsView { share s v.completed v.tasks with streams := v } = v := by
      show ({ v with shutdownSignaled := s.rt.shutdownSignaled } : Streams.State) = v
      rw [show s.rt.shutdownSignaled = v.shutdownSignaled from hflag.symm]
    rw [hback]
    exact hinv
  | @exit signum order _ horder hdone =>
    have hrt : Accept.step s.rt (.onSignal signum order) =
        some (Accept.onSignal s.rt signum order) := by simp [Accept.step, hexit, horder]
    have hreg := registry_step hs.registry hrt
    have hx := (exited_onSignal hexit signum order).1.mpr hdone
    unfold Accept.onSignal at hreg hx ⊢
    rw [if_pos hdone] at hreg hx ⊢
    exact ⟨fun hexit' => absurd (hexit'.symm.trans hx) (by simp), hs.reads, hs.listeners,
      hs.oneShot, hs.processes, hs.watchers, hreg⟩
  | @signal signum order sweep v horder hflag _ hv =>
    have hrt : Accept.step s.rt (.onSignal signum order) =
        some (Accept.onSignal s.rt signum order) := by simp [Accept.step, hexit, horder]
    have hm := moved_listeners s signum order
    have hview := hm.streamsInv hs hs.listeners hexit
    have hv' : Streams.step (streamsView (cancelAccepts s signum order)) (.sweep sweep) = some v :=
      hv
    have hinv := Streams.inv_step hview hv'
    have hf := fun held (hheld : Foreign (cancelAccepts s signum order) held) =>
      streams_foreign hview rfl rfl hv' hheld
    refine ⟨fun _ => ?_, hinv.reads, hf _ (hm.foreign hs hs.listeners), hf _ (hm.others hs.oneShot),
      fun p => hf _ (hm.others (hs.processes p)), fun w => hf _ (hm.others (hs.watchers w)), ?_⟩
    · have hsignaled : v.shutdownSignaled = true := by
        cases Streams.step_cases hv' with
        | sweep => exact Streams.signaled_cancelPendingReads _ _
      have hrtflag := (exited_onSignal hexit signum order).2
      show Streams.Inv
        { v with shutdownSignaled := (Accept.onSignal s.rt signum order).shutdownSignaled }
      rw [hrtflag, ← hsignaled]
      exact hinv
    · have hreg := registry_step hs.registry hrt
      exact ⟨hreg.nodup, hreg.handle⟩

theorem inv_reachable {s : State} (h : machine.Reachable s) : Inv s :=
  h.invariant inv_init fun _ _ _ _ hs ht => inv_step hs ht

/-! ## 5. After the first signal -/

/-- The read `t` is parked on some stream. -/
def ParkedRead (s : State) (t : TaskId) : Prop := ∃ a, Streams.Parked s.streams t a

/-- The accept `t` is parked on a listener that the handler will close. -/
def ParkedAccept (s : State) (t : TaskId) : Prop := ∃ l ∈ s.rt.listeners, s.rt.heap.Pending t l

/-- The signal has been handled, the reads `woken` being parked and libuv having read `consumed`
when it came. -/
structure After (woken : TaskId → Prop) (consumed : List (Streams.Addr × List UInt8))
    (s : State) : Prop where
  signaled : s.rt.shutdownSignaled = true
  empty : s.streams.readingStreams = ∅
  queues : ∀ a x, s.streams.heap a = some x → x.readQueue = []
  consumed : s.streams.consumed = consumed
  woken : ∀ t, woken t → t ∈ s.streams.reads ∧ s.rt.completed.results t = [UV_ECANCELED]

section After

variable {s u : State} {woken : TaskId → Prop} {consumed : List (Streams.Addr × List UInt8)}

theorem After.moved {held held' : TaskId → Prop} (ha : After woken consumed s) (hs : Inv s)
    (hm : Moved s u held held') (hheld : Foreign s held) : After woken consumed u := by
  refine ⟨hm.signaled.trans ha.signaled, ?_, ?_, ?_, ?_⟩
  · rw [hm.streams]
    exact ha.empty
  · rw [hm.streams]
    exact ha.queues
  · rw [hm.streams]
    exact ha.consumed
  · intro t ht
    have h := ha.woken t ht
    rw [hm.streams, hm.results hs hheld h.1]
    exact h

/-- Nobody is parked again, nothing is read, and the reads woken are not completed again. -/
theorem after_step {a : Action} (ha : After woken consumed s) (hs : Inv s)
    (h : step s a = some u) : After woken consumed u := by
  rcases step_cases h with ⟨hexit, hstep⟩
  cases hstep with
  | @listeners a rt hne hrt =>
    exact ha.moved (u := { s with rt }) hs
      ⟨frame_listeners hrt, rfl, (flags_of_not_signal hrt hne).1⟩ hs.listeners
  | @oneShot a v hv =>
    exact ha.moved (u := { share s v.completed v.tasks with oneShot := v }) hs
      ⟨frame_oneShot hv, rfl, rfl⟩ hs.oneShot
  | @process p a v hv =>
    exact ha.moved (u := { share s v.completed v.tasks with
      processes := Function.update s.processes p v }) hs ⟨frame_process hv, rfl, rfl⟩
      (hs.processes p)
  | @watcher w a v hv =>
    exact ha.moved (u := { share s v.completed v.tasks with
      watchers := Function.update s.watchers w v }) hs ⟨frame_watcher hv, rfl, rfl⟩
      (hs.watchers w)
  | @streams a v hne hv =>
    have hview := hs.streams hexit
    have hsig := Streams.signaled_step hview ha.signaled hv
    have hidle := Streams.idle_of_signaled (Streams.inv_step hview hv) hsig.1
    refine ⟨ha.signaled, hidle.1, hidle.2, hsig.2.trans ha.consumed, fun t ht => ?_⟩
    have hread := ha.woken t ht
    have hsettled : Streams.Settled (streamsView s) t := by
      refine ⟨hread.1, fun b hb => ?_⟩
      rcases hb with ⟨x, hx, hmem⟩
      rw [ha.queues b x hx] at hmem
      cases hmem
    have hkeep := Streams.settled_step hview hsettled hv
    exact ⟨hkeep.1.1, hkeep.2.trans hread.2⟩
  | @exit signum order _ _ hdone =>
    simp only [Accept.onSignal, hdone, if_true]
    exact ⟨rfl, ha.empty, ha.queues, ha.consumed, ha.woken⟩
  | signal _ hflag => exact absurd (ha.signaled.symm.trans hflag) (by simp)

theorem after_run {as : List Action} (ha : After woken consumed s) (hs : Inv s)
    (hrun : machine.runFrom s as = some u) : After woken consumed u :=
  (machine.runFrom_invariant (P := fun s => Inv s ∧ After woken consumed s)
    (fun _ _ _ h hstep => ⟨inv_step h.1 hstep, after_step h.2 h.1 hstep⟩) ⟨hs, ha⟩ hrun).2

end After

/-- What the signal leaves as it was: the results of every task but the parked reads and accepts,
what every other part holds, and every close under way. -/
structure Untouched (s u : State) : Prop where
  results : ∀ t, ¬ ParkedRead s t → ¬ ParkedAccept s t →
    u.rt.completed.results t = s.rt.completed.results t
  oneShot : u.oneShot = s.oneShot
  processes : u.processes = s.processes
  watchers : u.watchers = s.watchers
  handles : ∀ a, (u.streams.heap a).map Streams.Obj.handle =
    (s.streams.heap a).map Streams.Obj.handle
  listeners : ∀ l, l ∉ s.rt.listeners → u.rt.heap l = s.rt.heap l
  closes : ∀ l x t, s.rt.heap l = some x → x.handle.closeTask = some t → u.rt.heap l = some x

/-- The first signal on the graceful path. -/
theorem signal_cases {s u : State} {signum : Int} {order : List Accept.Addr}
    {sweep : List Streams.Addr} (hs : Inv s)
    (h : step s (.onSignal signum order sweep) = some u) (hgrace : u.rt.exited = false) :
    Untouched s u ∧ After (ParkedRead s) s.streams.consumed u := by
  rcases step_cases h with ⟨hexit, hstep⟩
  have hsignaled := exited_onSignal hexit signum order
  cases hstep with
  | exit _ hdone => exact absurd (hgrace.symm.trans (hsignaled.1.mpr hdone)) (by simp)
  | @signal _ _ _ v horder hflag hne hv =>
    have hm := moved_listeners s signum order
    have hview := hm.streamsInv hs hs.listeners hexit
    have hv' : Streams.step (streamsView (cancelAccepts s signum order)) (.sweep sweep) = some v :=
      hv
    have hinv := Streams.inv_step hview hv'
    cases Streams.step_cases hv' with
    | sweep hsweep =>
      have hof := Streams.sweepOf_cancelPendingReads hview hsweep
      have hidle := Streams.idle_of_signaled hinv (Streams.signaled_cancelPendingReads _ _)
      -- the listeners' half, as a loop over `order`
      have hdone : ¬ (s.rt.shutdownSignaled = true ∨ s.rt.listeners = []) := by simp [hflag, hne]
      have hloop : Accept.onSignal s.rt signum order =
          { order.foldl (fun s l => Accept.abortListener s l none)
              { s.rt with shutdownSignaled := true, shutdownSignum := signum } with
            listeners := [] } := by
        unfold Accept.onSignal
        rw [if_neg hdone]
      have hheap : ∀ l, l ∉ s.rt.listeners →
          (Accept.onSignal s.rt signum order).heap l = s.rt.heap l := by
        intro l hl
        rw [hloop]
        exact heap_foldl_abort order _ l fun hmem => hl (horder.mem_iff.mp hmem)
      refine ⟨⟨?_, rfl, rfl, rfl, hof.handles, hheap, ?_⟩,
        ⟨hsignaled.2, hidle.1, hidle.2, hof.consumed, ?_⟩⟩
      · intro t hread hacc
        have hsame := hof.others t fun a _ hp => hread ⟨a, hp⟩
        have hloopres := (foldl_abort order
          { s.rt with shutdownSignaled := true, shutdownSignum := signum } t).1 fun l hl hp =>
            hacc ⟨l, horder.mem_iff.mp hl, hp⟩
        rw [← hloopres]
        refine hsame.trans ?_
        show (Accept.onSignal s.rt signum order).completed.results t = _
        rw [hloop]
      · intro l x t hx hct
        -- a listener with a close task has left the registry
        have hl : l ∉ s.rt.listeners := by
          intro hl
          have hhandle := hs.registry.handle l hl
          rw [hx, Option.map_some, Option.some.injEq] at hhandle
          rw [hhandle] at hct
          cases hct
        exact (hheap l hl).trans hx
      · intro t ht
        rcases ht with ⟨a, hp⟩
        have ha : a ∈ sweep := by
          have hmem := Streams.Parked.mem (hs.streams hexit) hp
          exact List.mem_toFinset.mp (hsweep ▸ hmem)
        refine ⟨?_, hof.woken t a ha hp⟩
        rw [hof.reads]
        exact ((hs.streams hexit).parked t a hp).1

/-- **Graceful shutdown wakes exactly the idle readers.**  Let the first signal be handled on the
graceful path in a reachable state `s`, and let any schedule lead on from there to `v`.  Then no read
is parked in `v` and `reading_streams` is empty; every read that was parked in `s` has one result,
`ECANCELED`, and libuv has read nothing more from any stream; a `StreamRead` dispatched in `v`, be
its stream deleted or not, completes at once with `ECANCELED` and changes no stream; and the signal
itself has touched no other task than the parked reads and the accepts parked on the listeners it
has closed. -/
theorem graceful_shutdown {s u v : State} {signum : Int} {order : List Accept.Addr}
    {sweep : List Streams.Addr} {as : List Action} (hs : machine.Reachable s)
    (hsig : step s (.onSignal signum order sweep) = some u) (hgrace : u.rt.exited = false)
    (hrun : machine.runFrom u as = some v) :
    (v.streams.readingStreams = ∅ ∧ ∀ a x, v.streams.heap a = some x → x.readQueue = []) ∧
      (∀ t, ParkedRead s t →
        s.rt.completed.results t = [] ∧ v.rt.completed.results t = [UV_ECANCELED]) ∧
      v.streams.consumed = s.streams.consumed ∧
      (v.rt.exited = false → ∀ a t rc, t.id ∉ v.rt.tasks →
        ∃ w, step v (.streams (.streamRead a t rc)) = some w ∧
          w.rt = { v.rt with
            completed := v.rt.completed ++ [(t.id, UV_ECANCELED)], tasks := t.id :: v.rt.tasks } ∧
          w.streams.heap = v.streams.heap ∧
          w.streams.readingStreams = v.streams.readingStreams ∧
          w.streams.memory = v.streams.memory) ∧
      Untouched s u := by
  have hinv := inv_reachable hs
  have hsignal := signal_cases hinv hsig hgrace
  have hafter := after_run hsignal.2 (inv_step hinv hsig) hrun
  refine ⟨⟨hafter.empty, hafter.queues⟩, ?_, hafter.consumed, ?_, hsignal.1⟩
  · intro t ht
    refine ⟨?_, (hafter.woken t ht).2⟩
    rcases ht with ⟨a, hp⟩
    exact ((hinv.streams (step_cases hsig).1).parked t a hp).2
  · intro hexit a t rc ht
    have hflag : (streamsView v).shutdownSignaled = true := hafter.signaled
    have htask : t.id ∉ (streamsView v).tasks := ht
    have hread : Streams.step (streamsView v) (.streamRead a t rc) =
        some { streamsView v with
          completed := v.rt.completed ++ [(t.id, UV_ECANCELED)], tasks := t.id :: v.rt.tasks
          reads := t.id :: v.streams.reads } := by
      rw [Streams.step, if_pos htask, Streams.streamRead, if_pos hflag]
      rfl
    have hstep : step v (.streams (.streamRead a t rc)) = (some { streamsView v with
        completed := v.rt.completed ++ [(t.id, UV_ECANCELED)], tasks := t.id :: v.rt.tasks
        reads := t.id :: v.streams.reads }).map fun u =>
          { share v u.completed u.tasks with streams := u } := by
      rw [← hread]
      show (if v.rt.exited then none else stepStreams v (.streamRead a t rc)) = _
      rw [hexit]
      rfl
    exact ⟨_, hstep, rfl, rfl, rfl, rfl⟩

/-- A listener with a parked accept, a stream with two parked reads, a timer and a watcher with a
parked next-task. -/
def beforeSignal : List Action :=
  [.listeners (.tcpListen 1 16 0), .listeners (.tcpAccept 2 16), .streams (.newStream 64),
    .streams (.streamRead 64 ⟨3, 8, none⟩ 0), .streams (.read 64 (.data [7])),
    .streams (.streamRead 64 ⟨4, 8, none⟩ 0), .streams (.streamRead 64 ⟨5, 8, none⟩ 0),
    .oneShot (.dispatch { id := 6, op := .timer } {}), .watcher 0 (.fsWatchNext 7)]

/-- The stream is closed and deleted, the timer fires, and a read comes too late. -/
def afterSignal : List Action :=
  [.streams (.streamClose 64 8), .oneShot (.onTimer { id := 6, op := .timer }),
    .streams (.onClosed 64), .streams (.streamRead 64 ⟨9, 8, none⟩ 0)]

theorem graceful_shutdown_twoReaders :
    ∃ s u v, machine.run beforeSignal = some s ∧ step s (.onSignal 15 [16] [64]) = some u ∧
      machine.runFrom u afterSignal = some v ∧ v.rt.completed.results 5 = [UV_ECANCELED] := by
  refine ⟨_, _, _, rfl, rfl, rfl, ?_⟩
  have hs : machine.Reachable _ := ⟨beforeSignal, rfl⟩
  have h := @graceful_shutdown _ _ _ 15 [16] [64] afterSignal hs rfl rfl rfl
  exact (h.2.1 5 ⟨64, _, rfl, by decide⟩).2

end ChezAsync.Shutdown
