import Mathlib.Data.List.Count
import Mathlib.Tactic.Common
import ChezAsync.Lib.Holdings
import ChezAsync.Runtime.Shutdown

/-!
# Who holds a task (`runtime.cpp`)

Over the whole runtime: a task that has been dispatched is referred to from one place (a queue or a
slot of some object, a request that libuv works on) until `Complete` is called for it, and from
nowhere afterwards; or it was dropped by one of the steps that `dropped` names.  So the Scheme side
may free a task once it has awaited it, and what the accessors read of it then has come to rest.
-/

namespace ChezAsync.TaskCustody

open Shutdown (State Action machine share streamsView oneShotView processView watcherView)

/-! ## 1. Places -/

inductive Place
  | listener (l : Accept.Addr)
  | stream (a : Streams.Addr)
  /-- The requests and the timers that libuv works on. -/
  | requests
  | process (p : Nat)
  | watcher (w : Nat)
  deriving DecidableEq

def listenerHolds : Option Accept.Listener → List TaskId
  | some x => x.pendingAccepts ++ x.handle.closeTask.toList
  | none => []

def streamHolds : Option Streams.Obj → List TaskId
  | some x => x.readQueue.map Stream.ReadTask.id ++ x.handle.closeTask.toList
  | none => []

def requestsHold (s : OneShot.State) : List TaskId := s.requests.map fun q => q.task.id

/-- Nothing is held by an object that has been deleted. -/
def processHolds (s : Process.State) : List TaskId :=
  if s.handle.state = .destroyed then [] else s.waitTask.toList ++ s.handle.closeTask.toList

def watcherHolds (s : Watch.State) : List TaskId :=
  if s.handle.state = .destroyed then [] else s.pendingNext.toList ++ s.handle.closeTask.toList

/-- The tasks that the place refers to. -/
def held (s : State) : Place → List TaskId
  | .listener l => listenerHolds (s.rt.heap l)
  | .stream a => streamHolds (s.streams.heap a)
  | .requests => requestsHold s.oneShot
  | .process p => processHolds (s.processes p)
  | .watcher w => watcherHolds (s.watchers w)

/-- The tasks that a step of a process drops: its dispatch reads a deleted object, it overwrites the
wait that is parked, or the object is deleted with a wait on it. -/
def processDrops (s : Process.State) : Process.Action → List TaskId
  | .procWait t =>
      if s.handle.state = .destroyed then [t] else if s.exited then [] else s.waitTask.toList
  | .procKill t _ => if s.handle.state = .destroyed then [t] else []
  | .onClosed => s.waitTask.toList
  | _ => []

/-- A watcher is deleted with a next-task on it. -/
def watcherDrops (s : Watch.State) : Watch.Action → List TaskId
  | .onClosed => s.pendingNext.toList
  | _ => []

/-- An accept reads a deleted listener, or a listener is deleted with accepts on it. -/
def listenersDrop (s : Accept.State) : Accept.Action → List TaskId
  | .tcpAccept t l => if (s.heap l).isNone then [t] else []
  | .onClosed l => ((s.heap l).map Accept.Listener.pendingAccepts).getD []
  | _ => []

/-- A call whose code is not looked at has failed, or the process has died in the dispatch. -/
def oneShotDrops : OneShot.Action → List TaskId
  | .dispatch t uv => if OneShot.Accepted t uv then [] else [t.id]
  | _ => []

/-- The tasks that a step leaves without a result and without anybody who will complete them. -/
def dropped (s : State) : Action → List TaskId
  | .listeners a => listenersDrop s.rt a
  | .oneShot a => oneShotDrops a
  | .process p a => processDrops (s.processes p) a
  | .watcher w a => watcherDrops (s.watchers w) a
  | _ => []

/-- The books of a state, when the tasks `lost` have been dropped on the way to it. -/
def books (s : State) (lost : List TaskId) : Holdings Place TaskId :=
  { held := held s, answered := s.rt.completed.map Prod.fst, dropped := lost, issued := s.rt.tasks }

/-! ## 2. What a step of a part exchanges -/

/-- A step of a part that holds `before`: new tasks come in, some tasks are completed, some are
dropped, and the part holds the rest afterwards. -/
structure Turn (before after lost : List TaskId) (tasks tasks' : List TaskId)
    (c c' : Completions) (new : List TaskId) (cs : Completions) : Prop where
  completed : c' = c ++ cs
  record : ∀ t, t ∈ tasks' ↔ t ∈ new ∨ t ∈ tasks
  fresh : new.Nodup ∧ ∀ t ∈ new, t ∉ tasks
  exchange : (cs.map Prod.fst ++ lost ++ after).Perm (before ++ new)

section
variable {before after lost tasks tasks' : List TaskId} {c c' cs : Completions}

theorem Turn.dispatch {t : TaskId} (ht : t ∉ tasks)
    (htasks : ∀ t', t' ∈ tasks' ↔ t' = t ∨ t' ∈ tasks)
    (hc : c' = c ++ cs) (hperm : (cs.map Prod.fst ++ lost ++ after).Perm (before ++ [t])) :
    Turn before after lost tasks tasks' c c' [t] cs := by
  refine ⟨hc, fun t' => ?_, ⟨List.nodup_singleton t, ?_⟩, hperm⟩
  · rw [htasks t', List.mem_singleton]
  · intro t' ht'
    rw [List.mem_singleton.mp ht']
    exact ht

theorem Turn.callback (hc : c' = c ++ cs)
    (hperm : (cs.map Prod.fst ++ lost ++ after).Perm before) :
    Turn before after lost tasks tasks c c' [] cs := by
  refine ⟨hc, fun t => ?_, ⟨List.nodup_nil, fun t ht => absurd ht List.not_mem_nil⟩, ?_⟩
  · exact ⟨Or.inr, fun h => h.resolve_left List.not_mem_nil⟩
  · rw [List.append_nil]
    exact hperm

end

/-- One of several objects of a kind takes the turn. -/
structure TurnAt {κ : Type} (before after : κ → List TaskId) (k : κ)
    (lost tasks tasks' : List TaskId) (c c' : Completions) (new : List TaskId)
    (cs : Completions) : Prop where
  others : ∀ k', k' ≠ k → after k' = before k'
  turn : Turn (before k) (after k) lost tasks tasks' c c' new cs

/-- Only a handle that is being closed has a close task. -/
def Sound (h : LoopHandle) : Prop := h.state ≠ .closing → h.closeTask = none

theorem sound_close (h : LoopHandle) (t : Option TaskId) : Sound (h.close t) :=
  fun hne => absurd rfl hne

theorem sound_of_none (st : HandleState) : Sound { state := st, closeTask := none } := fun _ => rfl

theorem Sound.live {h : LoopHandle} (hs : Sound h) (hlive : h.state = .live) : h.closeTask = none :=
  hs (by rw [hlive]; decide)

/-- After its exit no wait is parked on a process. -/
structure SoundProcess (s : Process.State) : Prop where
  handle : Sound s.handle
  exited : s.exited = true → s.waitTask = none

theorem turn_process {s u : Process.State} {a : Process.Action} (hs : SoundProcess s)
    (h : Process.step s a = some u) :
    (∃ new cs, Turn (processHolds s) (processHolds u) (processDrops s a) s.tasks u.tasks
      s.completed u.completed new cs) ∧ SoundProcess u := by
  cases Process.step_cases h with
  | waitDeleted ht hd =>
    refine ⟨⟨_, [], .dispatch ht (Shutdown.mem_snoc _ _) (List.append_nil _).symm ?_⟩, { hs with }⟩
    simp [processHolds, processDrops, hd]
  | waitExited ht hd hexit =>
    refine ⟨⟨_, _, .dispatch ht (Shutdown.mem_snoc _ _) rfl ?_⟩, { hs with }⟩
    simp only [processHolds, processDrops, hd, hexit, if_false, if_true, List.append_nil,
      List.map_cons, List.map_nil]
    exact List.perm_append_comm
  | waitParked ht hd hexit =>
    refine ⟨⟨_, [], .dispatch ht (Shutdown.mem_snoc _ _) (List.append_nil _).symm ?_⟩, hs.handle,
      fun hx => absurd (hexit.symm.trans hx) (by decide)⟩
    simp only [processHolds, processDrops, hd, hexit, if_false, Bool.false_eq_true, List.map_nil,
      List.nil_append, List.append_assoc]
    -- the wait that was parked is overwritten
    exact List.Perm.append_left _ List.perm_append_comm
  | killDeleted ht hd =>
    refine ⟨⟨_, [], .dispatch ht (Shutdown.mem_snoc _ _) (List.append_nil _).symm ?_⟩, { hs with }⟩
    simp [processHolds, processDrops, hd]
  | kill ht hd =>
    refine ⟨⟨_, _, .dispatch ht (Shutdown.mem_snoc _ _) rfl ?_⟩, { hs with }⟩
    simp only [processHolds, processDrops, hd, if_false, List.append_nil, List.map_cons,
      List.map_nil]
    exact List.perm_append_comm
  | procClose ht hlive =>
    refine ⟨⟨_, [], .dispatch ht (Shutdown.mem_snoc _ _) (List.append_nil _).symm ?_⟩,
      sound_close s.handle _, hs.exited⟩
    simp [processHolds, processDrops, Process.procClose, LoopHandle.close, hlive,
      hs.handle.live hlive]
  | exitAlone hexit hlive hslot =>
    refine ⟨⟨_, [], .callback (List.append_nil _).symm ?_⟩, hs.handle, fun _ => hslot⟩
    simp [processHolds, processDrops, hlive, hslot]
  | exitParked hexit hlive hslot =>
    refine ⟨⟨_, _, .callback rfl ?_⟩, hs.handle, fun _ => rfl⟩
    simp [processHolds, processDrops, hlive, hslot]
  | closed hclosing hct =>
    refine ⟨⟨_, [], .callback (List.append_nil _).symm ?_⟩, sound_of_none _, hs.exited⟩
    simp [processHolds, processDrops, hclosing, hct]
  | closedFor hclosing hct =>
    refine ⟨⟨_, _, .callback rfl ?_⟩, sound_of_none _, hs.exited⟩
    simp only [processHolds, processDrops, hclosing, hct, if_true, reduceCtorEq, if_false,
      List.append_nil]
    exact List.perm_append_comm

theorem turn_watcher {s u : Watch.State} {a : Watch.Action} (hs : Sound s.handle)
    (h : Watch.step s a = some u) :
    (∃ new cs, Turn (watcherHolds s) (watcherHolds u) (watcherDrops s a) s.tasks u.tasks
      s.completed u.completed new cs) ∧ Sound u.handle := by
  cases Watch.step_cases h with
  | busy ht hd =>
    refine ⟨⟨_, _, .dispatch ht (Shutdown.mem_snoc _ _) rfl ?_⟩, hs⟩
    simp only [watcherHolds, watcherDrops, hd, if_false, List.append_nil, List.map_cons,
      List.map_nil]
    exact List.perm_append_comm
  | queued ht hd =>
    refine ⟨⟨_, _, .dispatch ht (Shutdown.mem_snoc _ _) rfl ?_⟩, hs⟩
    simp only [watcherHolds, watcherDrops, Watch.deliverWatchEvent, hd, if_false, List.append_nil,
      List.map_cons, List.map_nil]
    exact List.perm_append_comm
  | park ht hd hp =>
    refine ⟨⟨_, [], .dispatch ht (Shutdown.mem_snoc _ _) (List.append_nil _).symm ?_⟩, hs⟩
    simp only [watcherHolds, watcherDrops, hd, hp, if_false, List.map_nil, List.nil_append,
      Option.toList_none]
    exact List.perm_append_comm
  | handOver hlive hp =>
    refine ⟨⟨_, _, .callback rfl ?_⟩, hs⟩
    simp [watcherHolds, watcherDrops, Watch.deliverWatchEvent, hlive, hp]
  | keep hlive hp =>
    refine ⟨⟨_, [], .callback (List.append_nil _).symm ?_⟩, hs⟩
    simp [watcherHolds, watcherDrops, hlive, hp]
  | cancel ht hlive hp =>
    refine ⟨⟨_, _, .dispatch ht (Shutdown.mem_snoc _ _) rfl ?_⟩, sound_close s.handle _⟩
    simp [watcherHolds, watcherDrops, LoopHandle.close, hlive, hp, hs.live hlive]
  | close ht hlive hp =>
    refine ⟨⟨_, [], .dispatch ht (Shutdown.mem_snoc _ _) (List.append_nil _).symm ?_⟩,
      sound_close s.handle _⟩
    simp [watcherHolds, watcherDrops, LoopHandle.close, hlive, hp, hs.live hlive]
  | closed hclosing =>
    refine ⟨⟨_, _, .callback rfl ?_⟩, sound_of_none _⟩
    rcases hct : s.handle.closeTask with _ | t
    · simp [watcherHolds, watcherDrops, LoopHandle.onClosed, hclosing, hct]
    · simp only [watcherHolds, watcherDrops, LoopHandle.onClosed, hclosing, hct, if_true,
        reduceCtorEq, if_false, List.append_nil]
      exact List.perm_append_comm

theorem length_results (c : Completions) (t : TaskId) :
    (c.results t).length = (c.map Prod.fst).count t := by
  rw [Completions.results, List.length_map, ← List.countP_eq_length_filter, List.count,
    List.countP_map]
  rfl

/-- Counting: a result or a request is one answer, and the dispatch that gains none is dropped. -/
theorem turn_oneShot {s u : OneShot.State} {a : OneShot.Action} (h : OneShot.step s a = some u) :
    ∃ new cs, Turn (requestsHold s) (requestsHold u) (oneShotDrops a) s.tasks u.tasks
      s.completed u.completed new cs := by
  rcases OneShot.grows_step h with ⟨cs, hcs⟩
  have hcount : ∀ (v : OneShot.State) t, OneShot.answers v t =
      (v.completed.map Prod.fst).count t + (requestsHold v).count t := by
    intro v t
    rw [OneShot.answers, length_results, requestsHold, List.count_eq_countP (l := v.requests.map _),
      List.countP_map]
    rfl
  have hgain : ∀ t, (cs.map Prod.fst).count t + (requestsHold u).count t =
      (requestsHold s).count t + OneShot.gain a t := by
    intro t
    have hans := OneShot.answers_step h t
    rw [hcount, hcount, ← hcs, List.map_append, List.count_append] at hans
    omega
  rcases OneShot.tasks_step h with ⟨t, uv, rfl, ht, htasks⟩ | ⟨hzero, htasks⟩
  · refine ⟨_, cs, .dispatch ht (fun t' => ?_) hcs.symm ?_⟩
    · rw [htasks]
      exact Shutdown.mem_snoc _ _ t'
    · rw [List.perm_iff_count]
      intro t'
      have hg := hgain t'
      simp only [List.count_append, List.count_singleton, oneShotDrops, OneShot.gain] at hg ⊢
      by_cases hacc : OneShot.Accepted t uv
      · by_cases heq : t.id = t'
        · simp [hacc, heq] at hg ⊢
          omega
        · simp [hacc, heq] at hg ⊢
          omega
      · by_cases heq : t.id = t'
        · simp [hacc, heq] at hg ⊢
          omega
        · simp [hacc, heq] at hg ⊢
          omega
  · refine ⟨[], cs, ?_⟩
    rw [htasks]
    refine .callback hcs.symm ?_
    rw [List.perm_iff_count]
    intro t
    have hg := hgain t
    have hdrop : oneShotDrops a = [] := by
      cases a with
      | dispatch t uv =>
        -- a dispatch records its task
        simp only [OneShot.step, Option.ite_none_right_eq_some, Option.some.injEq] at h
        rw [← h.2] at htasks
        exact absurd htasks (by simp)
      | _ => rfl
    simp only [List.count_append, hdrop, List.count_nil, hzero] at hg ⊢
    omega

/-! ## 3. Listeners and streams -/

section
variable {s u : Accept.State} {l : Accept.Addr} {t : TaskId}

theorem update_of_ne {heap : Accept.Heap} {l l' : Accept.Addr} {x : Option Accept.Listener}
    (h : l' ≠ l) : listenerHolds (Function.update heap l x l') = listenerHolds (heap l') := by
  rw [Function.update_of_ne h]

/-- A step of the listeners that is about the one at `l`. -/
abbrev ListenerTurn (s u : Accept.State) (l : Accept.Addr) (lost : List TaskId)
    (new : List TaskId) (cs : Completions) : Prop :=
  TurnAt (fun l => listenerHolds (s.heap l)) (fun l => listenerHolds (u.heap l)) l lost s.tasks
    u.tasks s.completed u.completed new cs

theorem mem_cons_tasks (s : Accept.State) (t t' : TaskId) :
    t' ∈ t :: s.tasks ↔ t' = t ∨ t' ∈ s.tasks := List.mem_cons

theorem turn_tcpListen (ht : t ∉ s.tasks) (hl : s.heap l = none) (rc : Int) :
    ∃ cs,
      ListenerTurn s (Accept.tcpListen { s with tasks := t :: s.tasks } t l rc) l [] [t] cs := by
  unfold Accept.tcpListen
  split
  all_goals
    refine ⟨_, fun l' h => update_of_ne h, .dispatch ht (mem_cons_tasks s t) rfl ?_⟩
    simp only [hl, Function.update_self, listenerHolds, Accept.newListener, LoopHandle.close]
    exact List.Perm.refl _

theorem turn_onConnection {x : Accept.Listener} (hx : s.heap l = some x) (status : Int)
    (c : Accept.StreamId) (acceptRc : Int) :
    ∃ cs, ListenerTurn s (Accept.onConnection s l x status c acceptRc) l [] [] cs := by
  have hsame : ∀ streams droppedStreams, ListenerTurn s
      { s with streams := streams, dropped := droppedStreams } l [] [] [] := fun _ _ =>
    ⟨fun _ _ => rfl, .callback (List.append_nil _).symm (List.Perm.refl _)⟩
  unfold Accept.onConnection
  split
  · exact ⟨[], hsame _ _⟩
  · simp only
    split
    · exact ⟨[], hsame _ _⟩
    · split
      case h_1 p ps hps =>
        refine ⟨_, fun l' h => update_of_ne h, .callback rfl ?_⟩
        simp [hx, listenerHolds, hps]
      case h_2 hps =>
        refine ⟨[], fun l' h => update_of_ne h, .callback (List.append_nil _).symm ?_⟩
        simp [hx, listenerHolds]

theorem turn_tcpAccept (ht : t ∉ s.tasks) :
    ∃ cs, ListenerTurn s
      { Accept.tcpAccept { s with tasks := t :: s.tasks } t l with
        accepts := (t, l) :: s.accepts } l (listenersDrop s (.tcpAccept t l)) [t] cs := by
  unfold Accept.tcpAccept listenersDrop
  rcases hx : s.heap l with _ | x
  · refine ⟨[], fun _ _ => rfl, .dispatch ht (mem_cons_tasks s t) (List.append_nil _).symm ?_⟩
    simp [hx, listenerHolds]
  · simp only
    split
    case h_1 c cs hcs =>
      refine ⟨_, fun l' h => update_of_ne h, .dispatch ht (mem_cons_tasks s t) rfl ?_⟩
      simp only [hx, Function.update_self, listenerHolds, List.map_cons, List.map_nil,
        Option.isNone_some, Bool.false_eq_true, if_false, List.append_nil]
      exact List.perm_append_comm
    case h_2 hcs =>
      refine ⟨[], fun l' h => update_of_ne h,
        .dispatch ht (mem_cons_tasks s t) (List.append_nil _).symm ?_⟩
      simp only [hx, Function.update_self, listenerHolds, List.map_nil, List.nil_append,
        Option.isNone_some, Bool.false_eq_true, if_false, List.append_assoc]
      exact List.Perm.append_left _ List.perm_append_comm

/-- `abort_listener` completes the accepts parked, and the close task takes their place. -/
theorem exchange_abort {x : Accept.Listener} (hx : s.heap l = some x)
    (hct : x.handle.closeTask = none) (closeTask : Option TaskId) :
    ∃ cs, (Accept.abortListener s l closeTask).completed = s.completed ++ cs ∧
      (∀ l', l' ≠ l → listenerHolds ((Accept.abortListener s l closeTask).heap l') =
        listenerHolds (s.heap l')) ∧
      (cs.map Prod.fst ++ listenerHolds ((Accept.abortListener s l closeTask).heap l)) =
        listenerHolds (s.heap l) ++ closeTask.toList := by
  simp only [Accept.abortListener, hx]
  refine ⟨_, rfl, fun l' h => update_of_ne h, ?_⟩
  simp [listenerHolds, LoopHandle.close, hct, Function.comp_def]

theorem turn_listenerClose (hs : Shutdown.Registry s) (ht : t ∉ s.tasks) :
    ∃ cs,
      ListenerTurn s (Accept.listenerClose { s with tasks := t :: s.tasks } t l) l [] [t] cs := by
  unfold Accept.listenerClose
  split
  case isTrue hmem =>
    obtain ⟨x, hx, hhandle⟩ := Option.map_eq_some_iff.mp (hs.handle l hmem)
    have hct : x.handle.closeTask = none := by rw [hhandle]
    obtain ⟨cs, hc, hothers, hex⟩ := exchange_abort (l := l) (x := x)
      (s := { s with tasks := t :: s.tasks, listeners := s.listeners.erase l }) hx hct (some t)
    refine ⟨cs, hothers, .dispatch ht (fun t' => ?_) hc ?_⟩
    · rw [Shutdown.tasks_abortListener]
      exact mem_cons_tasks s t t'
    · rw [List.append_nil, hex]
      exact List.Perm.refl _
  case isFalse hmem =>
    refine ⟨_, fun _ _ => rfl, .dispatch ht (mem_cons_tasks s t) rfl ?_⟩
    rw [List.append_nil]
    exact List.perm_append_comm

theorem turn_onClosed {x : Accept.Listener} (hx : s.heap l = some x) :
    ∃ cs, ListenerTurn s
      { s with
        heap := Function.update s.heap l none, completed := s.completed ++ x.handle.onClosed.2 } l
      (listenersDrop s (.onClosed l)) [] cs := by
  refine ⟨_, fun l' h => update_of_ne h, .callback rfl ?_⟩
  rcases hct : x.handle.closeTask with _ | t
  · simp [listenersDrop, listenerHolds, LoopHandle.onClosed, hx, hct]
  · simp only [listenersDrop, listenerHolds, LoopHandle.onClosed, hx, hct, Function.update_self,
      Option.map_some, Option.getD_some, List.append_nil]
    exact List.perm_append_comm

theorem turn_listeners {a : Accept.Action} (hs : Shutdown.Registry s)
    (ha : ∀ signum order, a ≠ .onSignal signum order) (h : Accept.step s a = some u) :
    ∃ l new cs, ListenerTurn s u l (listenersDrop s a) new cs := by
  cases (Accept.step_cases h).2 with
  | tcpListen ht hl => exact ⟨_, _, turn_tcpListen ht hl _⟩
  | onConnection hx => exact ⟨_, _, turn_onConnection hx _ _ _⟩
  | tcpAccept ht => exact ⟨_, _, turn_tcpAccept ht⟩
  | listenerClose ht => exact ⟨_, _, turn_listenerClose hs ht⟩
  | onClosed hx => exact ⟨_, _, turn_onClosed hx⟩
  | onSignal => exact absurd rfl (ha _ _)

end

section
variable {s u : Streams.State} {a : Streams.Addr} {x : Streams.Obj} {v : Stream.State}

abbrev StreamTurn (s u : Streams.State) (a : Streams.Addr) (new : List TaskId)
    (cs : Completions) : Prop :=
  TurnAt (fun a => streamHolds (s.heap a)) (fun a => streamHolds (u.heap a)) a [] s.tasks u.tasks
    s.completed u.completed new cs

/-- What a step of one stream makes of its handle. -/
def closedBy (h : LoopHandle) : Stream.Action → LoopHandle
  | .streamClose t => h.close (some t)
  | _ => h

theorem handle_streamRead (s : Stream.State) (t : Stream.ReadTask) (rc : Int) :
    (Stream.streamRead s t rc).handle = s.handle := by
  unfold Stream.streamRead
  split
  · rfl
  · dsimp only
    split
    · rfl
    · split <;> rfl

theorem handle_onRead (s : Stream.State) (nread : Int) :
    (Stream.onRead s nread).handle = s.handle := by
  unfold Stream.onRead
  split
  · rfl
  · split
    · rfl
    · split
      · dsimp only
        split <;> rfl
      · rw [Stream.completeAll_eq]
        rfl

theorem handle_step {s u : Stream.State} {act : Stream.Action} (hact : act ≠ .onSignal)
    (h : Stream.step s act = some u) :
    u.handle = closedBy s.handle act ∧ (∀ t, act = .streamClose t → s.handle.state = .live) := by
  cases act with
  | streamRead t rc =>
    simp only [Stream.step, Option.ite_none_right_eq_some, Option.some.injEq] at h
    refine ⟨?_, fun t' ht' => by cases ht'⟩
    rw [← h.2]
    exact handle_streamRead s t rc
  | read e =>
    refine ⟨?_, fun t' ht' => by cases ht'⟩
    simp only [Stream.step, Option.ite_none_right_eq_some] at h
    rcases h with ⟨-, h⟩
    split at h
    · simp only [Option.ite_none_right_eq_some, Option.some.injEq] at h
      rw [← h.2]
      exact handle_onRead _ _
    · simp only [Option.ite_none_right_eq_some, Option.some.injEq] at h
      rw [← h.2]
      exact handle_onRead _ _
    · simp only [Option.ite_none_right_eq_some, Option.some.injEq] at h
      rw [← h.2]
      exact handle_onRead _ _
    · cases h
  | streamClose t =>
    simp only [Stream.step, Option.ite_none_right_eq_some, Option.some.injEq] at h
    refine ⟨?_, fun _ _ => h.1⟩
    rw [← h.2]
    simp only [Stream.streamClose, Stream.stopIfActive_eq, Stream.completeAll_eq]
    rfl
  | onSignal => exact absurd rfl hact

/-- The tasks that an action of one stream brings in. -/
def newTasks : Stream.Action → List TaskId
  | .streamRead t _ => [t.id]
  | .streamClose t => [t]
  | _ => []

/-- The reads by the order of the queue, the close task by the handle. -/
theorem exchange_put {act : Stream.Action} (hs : Stream.Inv (Streams.view s a x))
    (hsound : Sound x.handle) (hact : act ≠ .onSignal)
    (hv : Stream.step (Streams.view s a x) act = some v) :
    (Streams.served x v ++ streamHolds (some (Streams.toObj v))).Perm
      (streamHolds (some x) ++ newTasks act) ∧ Sound v.handle := by
  have horder := Streams.order_ids (Streams.effect_step hs hact hv) hs (Stream.inv_step hs hv)
  have hhandle := handle_step hact hv
  have hview : (Streams.view s a x).handle = x.handle := rfl
  rw [hview] at hhandle
  simp only [streamHolds, Streams.toObj, ← List.append_assoc, horder, hhandle.1]
  cases act with
  | streamRead t rc =>
    refine ⟨?_, hsound⟩
    simp only [Streams.newReads, closedBy, newTasks, List.map_cons, List.map_nil, List.append_assoc]
    exact List.Perm.append_left _ List.perm_append_comm
  | read e =>
    refine ⟨?_, hsound⟩
    simp only [Streams.newReads, closedBy, newTasks, List.map_nil, List.append_nil]
    exact List.Perm.refl _
  | streamClose t =>
    have hct := hsound.live (hhandle.2 t rfl)
    refine ⟨?_, sound_close x.handle _⟩
    simp [Streams.newReads, closedBy, newTasks, LoopHandle.close, hct]
  | onSignal => exact absurd rfl hact

/-- The streams at other addresses hold what they held. -/
theorem streamHolds_update {heap : Streams.Addr → Option Streams.Obj} {a b : Streams.Addr}
    {o : Option Streams.Obj} (h : b ≠ a) :
    streamHolds (Function.update heap a o b) = streamHolds (heap b) := by
  rw [Function.update_of_ne h]

theorem completed_put (s : Streams.State) (a : Streams.Addr) (x : Streams.Obj) (v : Stream.State) :
    ∃ cs, (Streams.put s a x v).completed = s.completed ++ cs ∧
      cs.map Prod.fst = Streams.served x v := by
  refine ⟨_, rfl, ?_⟩
  rw [List.map_map]
  rfl

/-- Every stream's handle is sound. -/
def SoundStreams (s : Streams.State) : Prop := ∀ a x, s.heap a = some x → Sound x.handle

theorem soundStreams_update {heap : Streams.Addr → Option Streams.Obj} {y : Streams.Obj}
    (h : ∀ b x, heap b = some x → Sound x.handle) (hy : Sound y.handle) (b : Streams.Addr)
    (x : Streams.Obj) (hx : Function.update heap a (some y) b = some x) : Sound x.handle := by
  by_cases hb : b = a
  · subst hb
    rw [Function.update_self] at hx
    exact Option.some.inj hx ▸ hy
  · rw [Function.update_of_ne hb] at hx
    exact h b x hx

/-- A step of the stream at `a`, in the state in which its tasks are recorded. -/
theorem turn_stepAt {act : Stream.Action} (tasks reads : List TaskId) (hs : Streams.Inv s)
    (hsound : SoundStreams s) (hact : act ≠ .onSignal)
    (hfresh : ∀ t ∈ newTasks act, t ∉ s.tasks)
    (hrecord : ∀ t, t ∈ tasks ↔ t ∈ newTasks act ∨ t ∈ s.tasks)
    (h : Streams.stepAt { s with tasks, reads } a act = some u) :
    (∃ cs, StreamTurn s u a (newTasks act) cs) ∧ SoundStreams u := by
  rcases Streams.stepAt_cases h with ⟨x, v, hx, hv, rfl⟩
  have hx : s.heap a = some x := hx
  have hex := exchange_put (s := s) (hs.streams a x hx) (hsound a x hx) hact hv
  obtain ⟨cs, hcs, hserved⟩ := completed_put { s with tasks, reads } a x v
  refine ⟨⟨cs, fun b hb => streamHolds_update hb, hcs, hrecord, ⟨?_, hfresh⟩, ?_⟩,
    soundStreams_update hsound hex.2⟩
  · cases act <;> simp [newTasks]
  · have hheld := Streams.heap_put_self { s with tasks, reads } a x v
    simp only [hserved, List.append_nil, hheld, hx]
    exact hex.1

theorem turn_streams {act : Streams.Action} (hs : Streams.Inv s) (hsound : SoundStreams s)
    (hact : ∀ order, act ≠ .sweep order) (h : Streams.step s act = some u) :
    (∃ a new cs, StreamTurn s u a new cs) ∧ SoundStreams u := by
  cases Streams.step_cases h with
  | @newStream a ha =>
    refine ⟨⟨a, [], [], fun b hb => streamHolds_update hb,
      .callback (List.append_nil _).symm ?_⟩, ?_⟩
    · simp [ha, streamHolds, Streams.newObj]
    · exact soundStreams_update hsound fun _ => rfl
  | @refused a t rc ht hflag =>
    refine ⟨⟨a, _, _, fun _ _ => rfl, .dispatch ht (fun t' => List.mem_cons) rfl ?_⟩, hsound⟩
    rw [List.append_nil]
    exact List.perm_append_comm
  | @streamRead a t rc u ht _ hu =>
    have hturn := turn_stepAt _ _ hs hsound (by simp) (fun t' ht' => by
      rw [List.mem_singleton.mp ht']
      exact ht) (fun t' => by simp [newTasks]) hu
    exact ⟨⟨a, _, hturn.1⟩, hturn.2⟩
  | @read a e u hu =>
    have hturn := turn_stepAt s.tasks s.reads hs hsound (by simp)
      (fun t' ht' => by cases ht') (fun t' => by simp [newTasks]) hu
    exact ⟨⟨a, _, hturn.1⟩, hturn.2⟩
  | @streamClose a t u ht hu =>
    have hturn := turn_stepAt (t :: s.tasks) s.reads hs hsound (by simp) (fun t' ht' => by
      rw [List.mem_singleton.mp ht']
      exact ht) (fun t' => by simp [newTasks]) hu
    exact ⟨⟨a, _, hturn.1⟩, hturn.2⟩
  | @onClosed a x hx hclosing =>
    -- nobody is parked on a stream whose close has begun
    have hq : x.readQueue = [] :=
      (hs.streams a x hx).closing (by simp [Streams.view, hclosing])
    refine ⟨⟨a, [], _, fun b hb => streamHolds_update hb, .callback rfl ?_⟩, ?_⟩
    · rcases hct : x.handle.closeTask with _ | t <;>
        simp [hx, streamHolds, LoopHandle.onClosed, hq, hct]
    · intro b y hy
      by_cases hb : b = a
      · simp [hb] at hy
      · exact hsound b y (by simpa [hb] using hy)
  | sweep => exact absurd rfl (hact _)

/-- A round of `cancel_pending_reads`. -/
theorem turn_cancelAt (hs : Streams.Inv s) (hsound : SoundStreams s) (a : Streams.Addr) :
    (∃ cs, StreamTurn s (Streams.cancelAt s a) a [] cs) ∧ SoundStreams (Streams.cancelAt s a) := by
  rcases hx : s.heap a with _ | x
  · rw [Streams.cancelAt_none hx]
    exact ⟨⟨[], fun _ _ => rfl, .callback (List.append_nil _).symm (List.Perm.refl _)⟩, hsound⟩
  · have hview := hs.streams a x hx
    have hswept := Streams.swept hview
    have horder := Streams.order_ids hswept.effect hview
      (Stream.inv_cancelPendingReads hview s.shutdownSignaled)
    rw [Streams.cancelAt_eq hx]
    obtain ⟨cs, hcs, hserved⟩ :=
      completed_put s a x (Stream.cancelPendingReads (Streams.view s a x))
    have hheld := Streams.heap_put_self s a x (Stream.cancelPendingReads (Streams.view s a x))
    have hh : (Streams.toObj (Stream.cancelPendingReads (Streams.view s a x))).handle = x.handle :=
      hswept.handle
    have hq : (Streams.toObj (Stream.cancelPendingReads (Streams.view s a x))).readQueue = [] :=
      hswept.queue
    refine ⟨⟨cs, fun b hb => streamHolds_update hb, .callback hcs ?_⟩,
      soundStreams_update hsound (by rw [hh]; exact hsound a x hx)⟩
    rw [hswept.queue] at horder
    simp only [Streams.newReads, List.map_nil, List.append_nil] at horder
    simp only [hserved, hheld, hx, streamHolds, hh, hq, horder, List.append_nil, List.map_nil,
      List.nil_append]
    exact List.Perm.refl _

end

/-! ## 4. The whole runtime -/

section
variable {s u : State} {lost : List TaskId}

structure AllSound (s : State) : Prop where
  streams : SoundStreams s.streams
  processes : ∀ p, SoundProcess (s.processes p)
  watchers : ∀ w, Sound (s.watchers w).handle

theorem allSound_init : AllSound machine.init :=
  ⟨fun _ _ h => (by cases h), fun _ => ⟨fun _ => rfl, fun _ => rfl⟩, fun _ _ => rfl⟩

variable (lost) in
/-- A turn at one place is a move of the books. -/
theorem books_of_turn {i : Place} {before after drops new : List TaskId} {cs : Completions}
    (hbefore : before = held s i) (hafter : after = held u i)
    (hothers : ∀ j, j ≠ i → held u j = held s j)
    (h : Turn before after drops s.rt.tasks u.rt.tasks s.rt.completed u.rt.completed new cs) :
    Holdings.Moved (books s lost) (books u (lost ++ drops)) := by
  subst hbefore hafter
  refine ⟨i, new, cs.map Prod.fst, drops, hothers, ?_, rfl, h.record, h.fresh, h.exchange⟩
  show u.rt.completed.map Prod.fst = _
  rw [h.completed, List.map_append]
  rfl

variable (lost) in
theorem books_listeners {rt : Accept.State} {l : Accept.Addr} {drops new : List TaskId}
    {cs : Completions} (h : ListenerTurn s.rt rt l drops new cs) :
    Holdings.Moved (books s lost) (books { s with rt } (lost ++ drops)) := by
  refine books_of_turn (s := s) (u := { s with rt }) lost (i := .listener l) rfl rfl ?_ h.turn
  intro j hj
  cases j with
  | listener l' => exact h.others l' fun heq => hj (heq ▸ rfl)
  | _ => rfl

/-- The runtime with the streams `v` and their record. -/
abbrev withStreams (s : State) (v : Streams.State) : State :=
  { share s v.completed v.tasks with streams := v }

variable (lost) in
theorem books_streams {v w : Streams.State} {a : Streams.Addr} {new : List TaskId}
    {cs : Completions} (h : StreamTurn v w a new cs) :
    Holdings.Moved (books (withStreams s v) lost) (books (withStreams s w) lost) := by
  have hmoved := books_of_turn (s := withStreams s v) (u := withStreams s w) lost
    (i := .stream a) rfl rfl ?_ h.turn
  · rw [List.append_nil] at hmoved
    exact hmoved
  · intro j hj
    cases j with
    | stream b => exact h.others b fun heq => hj (heq ▸ rfl)
    | _ => rfl

variable (s lost) in
/-- The loop of `cancel_pending_reads`. -/
theorem moves_sweep (order : List Streams.Addr) {v : Streams.State} (hv : Streams.Inv v)
    (hsound : SoundStreams v) :
    Relation.ReflTransGen Holdings.Moved (books (withStreams s v) lost)
      (books (withStreams s (order.foldl Streams.cancelAt v)) lost) ∧
      SoundStreams (order.foldl Streams.cancelAt v) := by
  induction order generalizing v with
  | nil => exact ⟨.refl, hsound⟩
  | cons a order ih =>
    obtain ⟨⟨cs, hturn⟩, hsound'⟩ := turn_cancelAt hv hsound a
    obtain ⟨hrest, hend⟩ := ih (Streams.inv_cancelAt hv a) hsound'
    exact ⟨.head (books_streams lost hturn) hrest, hend⟩

variable (s lost) in
/-- The loop of the signal handler over the listeners. -/
theorem moves_abort (rt : Accept.State) (order : List Accept.Addr) (hnd : order.Nodup)
    (hreg : ∀ l ∈ order,
      (rt.heap l).map Accept.Listener.handle = some { state := .live, closeTask := none }) :
    Relation.ReflTransGen Holdings.Moved (books { s with rt } lost)
      (books { s with rt := order.foldl (fun rt l => Accept.abortListener rt l none) rt }
        lost) := by
  induction order generalizing rt with
  | nil => exact .refl
  | cons l order ih =>
    rw [List.nodup_cons] at hnd
    obtain ⟨x, hx, hhandle⟩ := Option.map_eq_some_iff.mp (hreg l List.mem_cons_self)
    have hct : x.handle.closeTask = none := by rw [hhandle]
    obtain ⟨cs, hc, hothers, hex⟩ := exchange_abort hx hct none
    have hturn : ListenerTurn rt (Accept.abortListener rt l none) l [] [] cs := by
      refine ⟨hothers, ?_⟩
      rw [Shutdown.tasks_abortListener]
      apply Turn.callback hc
      rw [List.append_nil, hex]
      exact List.Perm.of_eq (List.append_nil _)
    have hmove := books_listeners (s := { s with rt }) lost hturn
    rw [List.append_nil] at hmove
    apply Relation.ReflTransGen.head hmove (ih _ hnd.2 _)
    intro l' hl'
    have hne : l' ≠ l := fun heq => hnd.1 (heq ▸ hl')
    have hkeep := Shutdown.heap_foldl_abort [l] rt l' (by simpa using hne)
    rw [List.foldl_cons, List.foldl_nil] at hkeep
    rw [hkeep]
    exact hreg l' (List.mem_cons_of_mem l hl')

variable (lost) in
/-- The graceful path of the signal handler: the listeners, then the streams. -/
theorem moves_signal {signum : Int} {order : List Accept.Addr} {sweep : List Streams.Addr}
    {v : Streams.State} (hs : Shutdown.Inv s) (hsound : AllSound s) (hexit : s.rt.exited = false)
    (horder : order.Perm s.rt.listeners) (hflag : s.rt.shutdownSignaled = false)
    (hne : s.rt.listeners ≠ [])
    (hv : Streams.step (streamsView { s with rt := Accept.onSignal s.rt signum order })
      (.sweep sweep) = some v) :
    Relation.ReflTransGen Holdings.Moved (books s lost)
        (books (withStreams { s with rt := Accept.onSignal s.rt signum order } v) lost) ∧
      AllSound (withStreams { s with rt := Accept.onSignal s.rt signum order } v) := by
  have hgo : ¬ (s.rt.shutdownSignaled = true ∨ s.rt.listeners = []) := by
    rw [not_or, Bool.not_eq_true]
    exact ⟨hflag, hne⟩
  have habort := moves_abort s lost
    { s.rt with shutdownSignaled := true, shutdownSignum := signum } order
    (horder.nodup_iff.mpr hs.registry.nodup)
    fun l hl => hs.registry.handle l (horder.mem_iff.mp hl)
  -- the sweep starts from the streams as the aborts leave them, the flag apart
  have hview := (Shutdown.moved_listeners s signum order).streamsInv hs hs.listeners hexit
  have hsweep := moves_sweep (Shutdown.cancelAccepts s signum order) lost sweep hview
    hsound.streams
  have hv' : Streams.step (streamsView (Shutdown.cancelAccepts s signum order)) (.sweep sweep) =
      some v := hv
  cases Streams.step_cases hv' with
  | sweep hset =>
    rw [Streams.cancelPendingReads, Streams.foldl_cancelAt_flag]
    refine ⟨Relation.ReflTransGen.trans ?_ hsweep.1, { hsound with streams := hsweep.2 }⟩
    have hbooks : books
        { s with
          rt := order.foldl (fun rt l => Accept.abortListener rt l none)
            { s.rt with shutdownSignaled := true, shutdownSignum := signum } } lost =
        books (withStreams (Shutdown.cancelAccepts s signum order)
          (streamsView (Shutdown.cancelAccepts s signum order))) lost := by
      simp only [books, Shutdown.cancelAccepts, Accept.onSignal, if_neg hgo]
      rfl
    rw [← hbooks]
    exact habort

variable (lost) in
/-- **A step of the runtime moves tasks between the books.** -/
theorem moves_step {a : Action} (hs : Shutdown.Inv s) (hsound : AllSound s)
    (h : Shutdown.step s a = some u) :
    Relation.ReflTransGen Holdings.Moved (books s lost) (books u (lost ++ dropped s a)) ∧
      AllSound u := by
  obtain ⟨hexit, hstep⟩ := Shutdown.step_cases h
  have hstreams := hs.streams hexit
  cases hstep with
  | @listeners a rt ha hrt =>
    obtain ⟨l, new, cs, hturn⟩ := turn_listeners hs.registry ha hrt
    exact ⟨.single (books_listeners lost hturn), { hsound with }⟩
  | @streams a v ha hv =>
    obtain ⟨⟨b, new, cs, hturn⟩, hsound'⟩ := turn_streams hstreams hsound.streams ha hv
    have hmove := books_streams (s := s) lost hturn
    refine ⟨?_, { hsound with streams := hsound' }⟩
    rw [show dropped s (.streams a) = [] from rfl, List.append_nil]
    exact .single hmove
  | @oneShot a v hv =>
    obtain ⟨new, cs, hturn⟩ := turn_oneShot hv
    refine ⟨.single (books_of_turn lost (i := .requests) rfl rfl ?_ hturn), { hsound with }⟩
    intro j hj
    cases j with
    | requests => exact absurd rfl hj
    | _ => rfl
  | @process p a v hv =>
    have hold : SoundProcess (processView s p) := { hsound.processes p with }
    obtain ⟨⟨new, cs, hturn⟩, hsound'⟩ := turn_process hold hv
    have hself : Function.update s.processes p v p = v := Function.update_self ..
    refine ⟨.single
        (books_of_turn lost (i := .process p) rfl (congrArg processHolds hself.symm) ?_ hturn),
      { hsound with processes := fun q => ?_ }⟩
    · intro j hj
      cases j with
      | process q =>
        have hq : q ≠ p := fun heq => hj (heq ▸ rfl)
        show processHolds (Function.update s.processes p v q) = processHolds (s.processes q)
        rw [Function.update_of_ne hq]
      | _ => rfl
    · by_cases hq : q = p
      · subst hq
        show SoundProcess (Function.update s.processes q v q)
        rw [hself]
        exact hsound'
      · show SoundProcess (Function.update s.processes p v q)
        rw [Function.update_of_ne hq]
        exact hsound.processes q
  | @watcher w a v hv =>
    have hold : Sound (watcherView s w).handle := hsound.watchers w
    obtain ⟨⟨new, cs, hturn⟩, hsound'⟩ := turn_watcher hold hv
    have hself : Function.update s.watchers w v w = v := Function.update_self ..
    refine ⟨.single
        (books_of_turn lost (i := .watcher w) rfl (congrArg watcherHolds hself.symm) ?_ hturn),
      { hsound with watchers := fun q => ?_ }⟩
    · intro j hj
      cases j with
      | watcher q =>
        have hq : q ≠ w := fun heq => hj (heq ▸ rfl)
        show watcherHolds (Function.update s.watchers w v q) = watcherHolds (s.watchers q)
        rw [Function.update_of_ne hq]
      | _ => rfl
    · by_cases hq : q = w
      · subst hq
        show Sound (Function.update s.watchers q v q).handle
        rw [hself]
        exact hsound'
      · show Sound (Function.update s.watchers w v q).handle
        rw [Function.update_of_ne hq]
        exact hsound.watchers q
  | exit horder hx =>
    refine ⟨?_, { hsound with }⟩
    rw [show dropped s (.onSignal _ _ _) = [] from rfl, List.append_nil, Accept.onSignal,
      if_pos hx]
    exact .refl
  | signal horder hflag hne hv =>
    rw [show dropped s (.onSignal _ _ _) = [] from rfl, List.append_nil]
    exact moves_signal lost hs hsound hexit horder hflag hne hv

end

/-! ## 5. Whole runs -/

/-- Every task so far is on the books once. -/
structure Kept (s : State) (lost : List TaskId) : Prop where
  inv : Shutdown.Inv s
  sound : AllSound s
  balanced : (books s lost).Balanced

theorem kept_init : Kept machine.init [] := by
  have hheld : ∀ i, held machine.init i = [] := fun i => by cases i <;> rfl
  refine ⟨Shutdown.inv_init, allSound_init, ?_, ?_, List.nodup_nil, ?_, ?_⟩
  · intro i
    show (held machine.init i).Nodup
    rw [hheld i]
    exact List.nodup_nil
  · intro i j t hi
    rw [show (books machine.init []).held i = [] from hheld i] at hi
    exact absurd hi List.not_mem_nil
  · exact fun i t _ => List.not_mem_nil
  · intro t
    constructor
    · exact fun h => absurd h List.not_mem_nil
    · rintro (h | ⟨i, hi⟩)
      · exact absurd h List.not_mem_nil
      · rw [show (books machine.init []).held i = [] from hheld i] at hi
        exact absurd hi List.not_mem_nil

theorem kept_step {s u : State} {lost : List TaskId} {a : Action} (hs : Kept s lost)
    (h : Shutdown.step s a = some u) : Kept u (lost ++ dropped s a) := by
  have hmoves := moves_step lost hs.inv hs.sound h
  exact ⟨Shutdown.inv_step hs.inv h, hmoves.2, hs.balanced.moves hmoves.1⟩

theorem kept_runFrom {s u : State} {lost : List TaskId} {as : List Action} (hs : Kept s lost)
    (hrun : machine.runFrom s as = some u) : Kept u (lost ++ machine.outputs dropped s as) := by
  induction as generalizing s lost with
  | nil =>
    rw [Machine.runFrom_nil, Option.some.injEq] at hrun
    subst hrun
    rw [show machine.outputs dropped s [] = [] from rfl, List.append_nil]
    exact hs
  | cons a as ih =>
    obtain ⟨t, ht, hrest⟩ := machine.runFrom_cons.mp hrun
    rw [machine.outputs_cons as ht, ← List.append_assoc]
    exact ih (kept_step hs ht) hrest

theorem kept_run {s : State} {as : List Action} (hrun : machine.run as = some s) :
    Kept s (machine.outputs dropped machine.init as) := kept_runFrom kept_init hrun

theorem mem_answered (c : Completions) (t : TaskId) : t ∈ c.map Prod.fst ↔ c.results t ≠ [] := by
  rw [← List.count_pos_iff, ← length_results, List.length_pos_iff]

section
variable {s : State} {lost : List TaskId} {t : TaskId}

theorem Kept.results_le_one (hs : Kept s lost) (t : TaskId) :
    (s.rt.completed.results t).length ≤ 1 := by
  rw [length_results]
  exact List.nodup_iff_count_le_one.mp (List.nodup_append'.mp hs.balanced.settled).1 t

/-- A task that some place holds has no result, and is none of the dropped ones. -/
theorem Kept.open_of_held (hs : Kept s lost) {i : Place} (ht : t ∈ held s i) :
    s.rt.completed.results t = [] ∧ t ∉ lost := by
  have hfree := hs.balanced.free i t ht
  rw [List.mem_append, not_or] at hfree
  refine ⟨?_, hfree.2⟩
  by_contra hne
  exact hfree.1 ((mem_answered s.rt.completed t).mpr hne)

theorem Kept.open_of_lost (hs : Kept s lost) (ht : t ∈ lost) :
    s.rt.completed.results t = [] := by
  by_contra hne
  have hans := (mem_answered s.rt.completed t).mpr hne
  exact (List.nodup_append'.mp hs.balanced.settled).2.2 hans ht

theorem Kept.mem_tasks (hs : Kept s lost) (t : TaskId) :
    t ∈ s.rt.tasks ↔ s.rt.completed.results t ≠ [] ∨ t ∈ lost ∨ ∃ i, t ∈ held s i := by
  have hissued := hs.balanced.issued t
  rw [List.mem_append, or_assoc] at hissued
  rw [← mem_answered]
  exact hissued

end

/-- **One custodian for each task.**  After any schedule of the runtime, a dispatched task has its
result, or one place refers to it, or one of the schedule's steps has dropped it; each of these
excludes the others, a task has at most one result, and a place refers to a task at most once. -/
theorem one_custodian {as : List Action} {s : State} (hrun : machine.run as = some s)
    (t : TaskId) :
    (t ∈ s.rt.tasks ↔ s.rt.completed.results t ≠ [] ∨
        t ∈ machine.outputs dropped machine.init as ∨ ∃ i, t ∈ held s i) ∧
      (s.rt.completed.results t).length ≤ 1 ∧
      (t ∈ machine.outputs dropped machine.init as → s.rt.completed.results t = []) ∧
      ∀ i, t ∈ held s i → s.rt.completed.results t = [] ∧
        t ∉ machine.outputs dropped machine.init as ∧ (held s i).count t = 1 ∧
        ∀ j, t ∈ held s j → j = i := by
  have hs := kept_run hrun
  refine ⟨hs.mem_tasks t, hs.results_le_one t, hs.open_of_lost, fun i hi => ?_⟩
  have hopen := hs.open_of_held hi
  have hcount : (held s i).count t = 1 := List.count_eq_one_of_mem (hs.balanced.nodup i) hi
  exact ⟨hopen.1, hopen.2, hcount, fun j hj => hs.balanced.apart j i t hj hi⟩

/-- A read that is served, a timer, and two waits on one process, of which the second one
overwrites the first. -/
def overwrittenWait : List Action :=
  [.streams (.newStream 64), .streams (.streamRead 64 ⟨1, 8, none⟩ 0),
    .streams (.read 64 (.data [7])),
    .oneShot (.dispatch { id := 2, op := .timer } {}), .process 0 (.procWait 3),
    .process 0 (.procWait 4)]

theorem one_custodian_overwrittenWait :
    ∃ s, machine.run overwrittenWait = some s ∧ s.rt.completed.results 3 = [] ∧
      (held s (.process 0)).count 4 = 1 ∧ ∀ j, 4 ∈ held s j → j = .process 0 := by
  refine ⟨_, rfl, ?_, ?_⟩
  · exact (@one_custodian overwrittenWait _ rfl 3).2.2.1 (by decide)
  · exact ((@one_custodian overwrittenWait _ rfl 4).2.2.2 (.process 0) (by decide)).2.2

/-! ## 6. The end of the loop -/

/-- What libuv waits for before `uv_run` returns is over: there is no listener, no stream is being
read or closed, no request is in flight, and a process or a watcher is gone unless it was never
used; the handle of a process that has exited keeps the loop from nothing. -/
structure Ended (s : State) : Prop where
  listeners : ∀ l, s.rt.heap l = none
  streams : ∀ a x, s.streams.heap a = some x → x.uvReading = false ∧ x.handle.state ≠ .closing
  requests : s.oneShot.requests = []
  processes : ∀ p, s.processes p = Process.machine.init ∨
    (s.processes p).handle.state = .destroyed ∨
      ((s.processes p).exited = true ∧ (s.processes p).handle.state ≠ .closing)
  watchers : ∀ w, s.watchers w = Watch.machine.init ∨ (s.watchers w).handle.state = .destroyed

section
variable {s : State}

theorem streamHolds_of_ended (hs : Shutdown.Inv s) (hsound : AllSound s) (hend : Ended s)
    (hexit : s.rt.exited = false) (a : Streams.Addr) : streamHolds (s.streams.heap a) = [] := by
  rcases hx : s.streams.heap a with _ | x
  · rfl
  · obtain ⟨huv, hclosing⟩ := hend.streams a x hx
    have hview := (hs.streams hexit).streams a x hx
    -- libuv reads a stream as long as somebody is parked on it
    have hq : x.readQueue = [] := by
      by_contra hq
      have hactive := hview.active.mpr hq
      rw [← hview.uvReading] at hactive
      exact absurd (huv.symm.trans hactive) (by simp)
    simp [streamHolds, hq, hsound.streams a x hx hclosing]

theorem held_of_ended (hs : Shutdown.Inv s) (hsound : AllSound s) (hend : Ended s)
    (hexit : s.rt.exited = false) (i : Place) : held s i = [] := by
  cases i with
  | listener l => simp [held, hend.listeners l, listenerHolds]
  | stream a => exact streamHolds_of_ended hs hsound hend hexit a
  | requests => simp [held, requestsHold, hend.requests]
  | process p =>
    rcases hend.processes p with h | h | ⟨hx, hclosing⟩
    · simp [held, h, processHolds, Process.machine]
    · simp [held, processHolds, h]
    · have hp := hsound.processes p
      simp [held, processHolds, hp.exited hx, hp.handle hclosing]
  | watcher w =>
    rcases hend.watchers w with h | h
    · simp [held, h, watcherHolds, Watch.machine]
    · simp [held, watcherHolds, h]

end

/-- **At the end of the loop every await has been answered.**  When a schedule leaves nothing that
`uv_run` would wait for, each dispatched task has been completed exactly once, but for the dropped
ones, which have no result; so all are answered if and only if no step of the schedule drops one. -/
theorem answered_at_end {as : List Action} {s : State} (hrun : machine.run as = some s)
    (hexit : s.rt.exited = false) (hend : Ended s) :
    (∀ t ∈ s.rt.tasks, (∃ r, s.rt.completed.results t = [r]) ↔
        t ∉ machine.outputs dropped machine.init as) ∧
      ((∀ t ∈ s.rt.tasks, s.rt.completed.results t ≠ []) ↔
        machine.outputs dropped machine.init as = []) := by
  have hs := kept_run hrun
  have hheld := held_of_ended hs.inv hs.sound hend hexit
  have hmem : ∀ t, t ∈ s.rt.tasks ↔ s.rt.completed.results t ≠ [] ∨
      t ∈ machine.outputs dropped machine.init as := by
    intro t
    have hsettled := hs.balanced.settled_of_empty hheld t
    rw [← mem_answered]
    exact hsettled
  refine ⟨fun t ht => ⟨?_, fun hkept => ?_⟩, fun hall => ?_, fun hnone t ht => ?_⟩
  · rintro ⟨r, hr⟩ hlost
    rw [hs.open_of_lost hlost] at hr
    cases hr
  · have hne := ((hmem t).mp ht).resolve_right hkept
    have hle := hs.results_le_one t
    exact List.length_eq_one_iff.mp (le_antisymm hle (List.length_pos_iff.mpr hne))
  · rw [List.eq_nil_iff_forall_not_mem]
    intro t hlost
    exact hall t ((hmem t).mpr (Or.inr hlost)) (hs.open_of_lost hlost)
  · refine ((hmem t).mp ht).resolve_right ?_
    rw [hnone]
    exact List.not_mem_nil

/-- A timer and a stat run to their end; another stat is not started, for want of memory. -/
def withoutMemory : List Action :=
  [.oneShot (.dispatch { id := 1, op := .timer } {}),
    .oneShot (.dispatch { id := 2, op := .fsStat } { fs := -12 }),
    .oneShot (.dispatch { id := 3, op := .fsStat } {}),
    .oneShot (.onTimer { id := 1, op := .timer }),
    .oneShot (.onFsDone { id := 3, op := .fsStat } { result := -2 }),
    .oneShot (.onTimerClosed { id := 1, op := .timer })]

theorem answered_at_end_withoutMemory :
    ∃ s, machine.run withoutMemory = some s ∧
      (∀ t ∈ s.rt.tasks, (∃ r, s.rt.completed.results t = [r]) ↔ t ∉ [2]) :=
  ⟨_, rfl, (@answered_at_end withoutMemory _ rfl rfl
    ⟨fun _ => rfl, fun _ _ h => (by cases h), rfl, fun _ => Or.inl rfl, fun _ => Or.inl rfl⟩).1⟩

end ChezAsync.TaskCustody
