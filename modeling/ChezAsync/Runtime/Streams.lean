import Mathlib.Data.Finset.Basic
import Mathlib.Tactic.Common
import ChezAsync.Lib.Machine
import ChezAsync.Runtime.Stream

/-!
# All streams of a runtime (`runtime.cpp`, `net.hpp`)

Any number of `Stream` objects by the functions of `Runtime.Stream`, and the global set
`reading_streams` of raw pointers to them, over which the signal handler sweeps.  A stream is in the
heap from when its handle is handed out until `OnClosed` deletes it, and its address may then be
used again.  To dispatch on an address without an object has no defined behaviour in C++ and is no
step of the machine.
-/

namespace ChezAsync.Streams

open ChezAsync.Stream (ReadTask Delivery Buffer ReadEvent)

/-! ## 1. The machine -/

abbrev Addr := Nat

/-- A `Stream` object, with the record of its own reads. -/
structure Obj where
  readQueue : List ReadTask
  readActive : Bool
  uvReading : Bool
  handle : LoopHandle
  dispatched : List ReadTask
  completed : List Delivery
  chunks : List (List UInt8)

structure State where
  heap : Addr → Option Obj
  readingStreams : Finset Addr
  shutdownSignaled : Bool
  memory : Buffer → List UInt8
  completed : Completions
  /-- The tasks dispatched. -/
  tasks : List TaskId
  -- The record of the run: the `StreamRead` tasks, and what libuv has read, from which stream.
  reads : List TaskId
  consumed : List (Addr × List UInt8)

inductive Action
  /-- A connect, an accept, a spawn or a stdio open hands out the stream at `a`. -/
  | newStream (a : Addr)
  | streamRead (a : Addr) (t : ReadTask) (rc : Int)
  | read (a : Addr) (e : ReadEvent)
  | streamClose (a : Addr) (t : TaskId)
  | onClosed (a : Addr)
  /-- The signal handler, with the order in which it meets the set. -/
  | sweep (order : List Addr)
  deriving DecidableEq

def newObj : Obj :=
  { readQueue := [], readActive := false, uvReading := false
    handle := { state := .live, closeTask := none }, dispatched := [], completed := [], chunks := [] }

/-- The stream `x` at `a`, as the functions of one stream see it. -/
def view (s : State) (a : Addr) (x : Obj) : Stream.State :=
  { readQueue := x.readQueue, readActive := x.readActive, uvReading := x.uvReading
    handle := x.handle, dispatched := x.dispatched, completed := x.completed, chunks := x.chunks
    inReadingStreams := decide (a ∈ s.readingStreams), shutdownSignaled := s.shutdownSignaled
    memory := s.memory }

def toObj (u : Stream.State) : Obj :=
  { readQueue := u.readQueue, readActive := u.readActive, uvReading := u.uvReading
    handle := u.handle, dispatched := u.dispatched, completed := u.completed, chunks := u.chunks }

/-- What a function of one stream has made of the stream `x` at `a`. -/
def put (s : State) (a : Addr) (x : Obj) (u : Stream.State) : State :=
  { s with
    heap := Function.update s.heap a (some (toObj u))
    readingStreams :=
      if u.inReadingStreams then insert a s.readingStreams else s.readingStreams.erase a
    memory := u.memory
    completed := s.completed ++
      (u.completed.drop x.completed.length).map fun d => (d.task.id, d.result)
    consumed := s.consumed ++ (u.chunks.drop x.chunks.length).map fun c => (a, c) }

/-- An action of one stream, on the stream at `a`. -/
def stepAt (s : State) (a : Addr) (act : Stream.Action) : Option State :=
  match s.heap a with
  | some x => (Stream.step (view s a x) act).map (put s a x)
  | none => none

/-- Dispatch of `StreamRead`: the flag is tested before the stream is touched. -/
def streamRead (s : State) (a : Addr) (t : ReadTask) (rc : Int) : Option State :=
  if s.shutdownSignaled then some { s with completed := s.completed ++ [(t.id, UV_ECANCELED)] }
  else stepAt s a (.streamRead t rc)

/-- One round of `cancel_pending_reads`. -/
def cancelAt (s : State) (a : Addr) : State :=
  match s.heap a with
  | some x => put s a x (Stream.cancelPendingReads (view s a x))
  | none => s

/-- `cancel_pending_reads`, meeting the set in the order given. -/
def cancelPendingReads (s : State) (order : List Addr) : State :=
  { order.foldl cancelAt s with readingStreams := ∅ }

def step (s : State) : Action → Option State
  | .newStream a =>
      if s.heap a = none then some { s with heap := Function.update s.heap a (some newObj) }
      else none
  | .streamRead a t rc =>
      if t.id ∉ s.tasks then
        (streamRead s a t rc).map fun s =>
          { s with tasks := t.id :: s.tasks, reads := t.id :: s.reads }
      else none
  | .read a e => stepAt s a (.read e)
  | .streamClose a t =>
      if t ∉ s.tasks then
        (stepAt s a (.streamClose t)).map fun s => { s with tasks := t :: s.tasks }
      else none
  | .onClosed a =>
      match s.heap a with
      | some x =>
          if x.handle.state = .closing then
            some { s with
              heap := Function.update s.heap a none
              completed := s.completed ++ x.handle.onClosed.2 }
          else none
      | none => none
  | .sweep order =>
      if order.Nodup ∧ order.toFinset = s.readingStreams then
        some (cancelPendingReads { s with shutdownSignaled := true } order)
      else none

/-- The runtime right after `Runtime::Start`. -/
def machine : Machine State Action where
  init :=
    { heap := fun _ => none, readingStreams := ∅, shutdownSignaled := false
      memory := fun _ => [], completed := [], tasks := [], reads := [], consumed := [] }
  step := step

/-! ## 2. What a step of one stream does -/

/-- The reads that an action dispatches. -/
def newReads : Stream.Action → List ReadTask
  | .streamRead t _ => [t]
  | _ => []

/-- What the other streams and the record of the runtime see of a step of one stream: it completes
reads of its own only, and is in `reading_streams` while somebody is parked. -/
structure Effect (s : Stream.State) (act : Stream.Action) (u : Stream.State) : Prop where
  grows : ∃ ds, u.completed = s.completed ++ ds
  dispatched : u.dispatched = s.dispatched ++ newReads act
  signaled : u.shutdownSignaled = s.shutdownSignaled
  handle : ∀ t, u.handle.closeTask = some t → s.handle.closeTask = some t ∨ act = .streamClose t
  member : (s.inReadingStreams = true → s.readQueue ≠ []) →
    u.inReadingStreams = true → u.readQueue ≠ []

theorem effect_streamRead {s : Stream.State} (hs : Stream.Inv s) (t : ReadTask) (rc : Int) :
    Effect s (.streamRead t rc)
      { Stream.streamRead s t rc with dispatched := s.dispatched ++ [t] } := by
  rcases hshut : s.shutdownSignaled with _ | _
  · rcases hact : s.readActive with _ | _
    · have hq : s.readQueue = [] := by
        by_contra hq
        rw [hs.active.mpr hq] at hact
        cases hact
      by_cases hrc : rc < 0
      · rw [Stream.streamRead_failed hshut hact hq hrc]
        exact ⟨⟨_, rfl⟩, rfl, rfl, fun _ h => Or.inl h, fun h => h⟩
      · rw [Stream.streamRead_started hshut hact hrc]
        exact ⟨⟨[], (List.append_nil _).symm⟩, rfl, rfl, fun _ h => Or.inl h, fun _ _ => by simp⟩
    · rw [Stream.streamRead_parked hshut hact]
      exact ⟨⟨[], (List.append_nil _).symm⟩, rfl, rfl, fun _ h => Or.inl h, fun _ _ => by simp⟩
  · rw [Stream.streamRead_shutdown hshut]
    exact ⟨⟨_, rfl⟩, rfl, rfl, fun _ h => Or.inl h, fun h => h⟩

theorem effect_read {s u : Stream.State} {e : ReadEvent} (hs : Stream.Inv s)
    (h : Stream.step s (.read e) = some u) : Effect s (.read e) u := by
  simp only [Stream.step, Option.ite_none_right_eq_some] at h
  rcases h with ⟨huv, h⟩
  have hq : s.readQueue ≠ [] := hs.active.mp (hs.uvReading ▸ huv)
  rcases hqt : s.readQueue with _ | ⟨t, ts⟩
  · exact absurd hqt hq
  · have hoffer : Stream.onAlloc s = (some t.data, t.nbytes) := by
      rw [Stream.onAlloc, hqt]
    simp only [hoffer] at h
    cases e with
    | data bytes =>
      simp only [Option.ite_none_right_eq_some, Option.some.injEq] at h
      rcases h with ⟨⟨hne, _⟩, rfl⟩
      have hpos : 0 < bytes.length := List.length_pos_iff.mpr hne
      have hnz : ¬ (bytes.length : Int) = 0 := by omega
      have hgt : (0 : Int) < bytes.length := by omega
      simp only [Stream.onRead, hnz, if_false, hqt, hgt, if_true]
      by_cases hts : ts = []
      · simp only [hts, if_true]
        exact ⟨⟨_, rfl⟩, (List.append_nil _).symm, rfl, fun _ h => Or.inl h, fun _ h => by cases h⟩
      · simp only [hts, if_false]
        exact ⟨⟨_, rfl⟩, (List.append_nil _).symm, rfl, fun _ h => Or.inl h, fun _ _ => hts⟩
    | eagain =>
      simp only [Option.ite_none_right_eq_some, Option.some.injEq] at h
      rcases h with ⟨_, rfl⟩
      exact ⟨⟨[], (List.append_nil _).symm⟩, (List.append_nil _).symm, rfl, fun _ h => Or.inl h,
        fun h => h⟩
    | fail nread =>
      simp only [Option.ite_none_right_eq_some, Option.some.injEq] at h
      rcases h with ⟨⟨hneg, _⟩, rfl⟩
      have hz : ¬ nread = 0 := by omega
      have hp : ¬ 0 < nread := by omega
      simp only [Stream.onRead, hz, if_false, hqt, hp, Stream.completeAll_eq]
      exact ⟨⟨_, rfl⟩, (List.append_nil _).symm, rfl, fun _ h => Or.inl h, fun _ h => by cases h⟩

theorem effect_step {s u : Stream.State} {act : Stream.Action} (hs : Stream.Inv s)
    (hact : act ≠ .onSignal) (h : Stream.step s act = some u) : Effect s act u := by
  cases act with
  | streamRead t rc =>
    simp only [Stream.step, Option.ite_none_right_eq_some, Option.some.injEq] at h
    exact h.2 ▸ effect_streamRead hs t rc
  | read e => exact effect_read hs h
  | streamClose t =>
    simp only [Stream.step, Option.ite_none_right_eq_some, Option.some.injEq] at h
    rcases h with ⟨_, rfl⟩
    simp only [Stream.streamClose, Stream.stopIfActive_eq, Stream.completeAll_eq]
    refine ⟨⟨_, rfl⟩, (List.append_nil _).symm, rfl, fun t' h => ?_, fun _ h => by cases h⟩
    cases h
    exact Or.inr rfl
  | onSignal => exact absurd rfl hact

/-- The reads completed and those parked afterwards are those parked before and the new one. -/
theorem Effect.order {s u : Stream.State} {act : Stream.Action} (h : Effect s act u)
    (hs : Stream.Inv s) (hu : Stream.Inv u) :
    (u.completed.drop s.completed.length).map Delivery.task ++ u.readQueue =
      s.readQueue ++ newReads act := by
  rcases h.grows with ⟨ds, hds⟩
  have horder := hu.order
  rw [h.dispatched, hs.order, hds, List.map_append, List.append_assoc, List.append_assoc,
    List.append_cancel_left_eq] at horder
  rw [hds, List.drop_left]
  exact horder.symm

/-! ## 3. The invariant -/

/-- The read `t` is parked on the stream at `a`. -/
def Parked (s : State) (t : TaskId) (a : Addr) : Prop :=
  ∃ x, s.heap a = some x ∧ t ∈ x.readQueue.map ReadTask.id

theorem parked_iff {s : State} {a : Addr} {x : Obj} (hx : s.heap a = some x) (t : TaskId) :
    Parked s t a ↔ t ∈ x.readQueue.map ReadTask.id := by
  simp [Parked, hx]

structure Inv (s : State) : Prop where
  streams : ∀ a x, s.heap a = some x → Stream.Inv (view s a x)
  -- no pointer of the set dangles, and nobody is swept for nothing
  members : ∀ a ∈ s.readingStreams, ∃ x, s.heap a = some x ∧ x.readQueue ≠ []
  parked : ∀ t a, Parked s t a → t ∈ s.reads ∧ s.completed.results t = []
  one : ∀ t a b, Parked s t a → Parked s t b → a = b
  -- `OnClosed` completes a `StreamClose`, never a read
  close : ∀ a x t, s.heap a = some x → x.handle.closeTask = some t → t ∈ s.tasks ∧ t ∉ s.reads
  reads : ∀ t ∈ s.reads, t ∈ s.tasks
  fresh : ∀ t, t ∉ s.tasks → s.completed.results t = []

theorem inv_init : Inv machine.init := by
  refine ⟨?_, ?_, ?_, ?_, ?_, ?_, ?_⟩ <;> simp [machine, Parked]

/-- The tasks of the reads that a step of the stream `x` has completed. -/
def served (x : Obj) (u : Stream.State) : List TaskId :=
  (u.completed.drop x.completed.length).map fun d => d.task.id

theorem results_put_of_notMem {s : State} {a : Addr} {x : Obj} {u : Stream.State} {t : TaskId}
    (ht : t ∉ served x u) : (put s a x u).completed.results t = s.completed.results t := by
  have hnil : Completions.results
      ((u.completed.drop x.completed.length).map fun d => (d.task.id, d.result)) t = [] := by
    apply Completions.results_eq_nil
    intro p hp
    simp only [List.mem_map] at hp
    rcases hp with ⟨d, hd, rfl⟩
    exact fun heq => ht (List.mem_map.mpr ⟨d, hd, heq⟩)
  rw [put, Completions.results_append, hnil, List.append_nil]

theorem heap_put_self (s : State) (a : Addr) (x : Obj) (u : Stream.State) :
    (put s a x u).heap a = some (toObj u) := Function.update_self a _ _

theorem heap_put_of_ne {s : State} {a b : Addr} {x : Obj} {u : Stream.State} (hb : b ≠ a) :
    (put s a x u).heap b = s.heap b := Function.update_of_ne hb _ _

theorem parked_put (s : State) (a : Addr) (x : Obj) (u : Stream.State) (t : TaskId) (b : Addr) :
    Parked (put s a x u) t b ↔
      if b = a then t ∈ u.readQueue.map ReadTask.id else Parked s t b := by
  by_cases hb : b = a
  · subst hb
    simp [Parked, heap_put_self, toObj]
  · simp [Parked, heap_put_of_ne hb, hb]

/-- The streams at other addresses are as before, whatever the step has written to memory. -/
theorem stream_inv_put {s : State} {a : Addr} {x y : Obj} {u : Stream.State} {b : Addr}
    (hb : b ≠ a) (hy : Stream.Inv (view s b y)) : Stream.Inv (view (put s a x u) b y) := by
  have hmem : b ∈ (put s a x u).readingStreams ↔ b ∈ s.readingStreams := by
    simp only [put]
    split
    · simp [hb]
    · simp [hb]
  have hview : view (put s a x u) b y = { view s b y with memory := u.memory } := by
    simp only [view, hmem]
    rfl
  rw [hview]
  exact { hy with }

theorem stepAt_cases {s u : State} {a : Addr} {act : Stream.Action} (h : stepAt s a act = some u) :
    ∃ x v, s.heap a = some x ∧ Stream.step (view s a x) act = some v ∧ u = put s a x v := by
  unfold stepAt at h
  split at h
  case h_2 => cases h
  case h_1 x hx =>
    simp only [Option.map_eq_some_iff] at h
    rcases h with ⟨v, hv, rfl⟩
    exact ⟨x, v, hx, hv, rfl⟩

section Put

variable {s : State} {a : Addr} {x : Obj} {act : Stream.Action} {u : Stream.State}

/-- Back in the heap the stream is what its step has made of it. -/
theorem view_put (hflag : u.shutdownSignaled = s.shutdownSignaled) :
    view (put s a x u) a (toObj u) = u := by
  have hset : decide (a ∈ (put s a x u).readingStreams) = u.inReadingStreams := by
    rcases hin : u.inReadingStreams with _ | _ <;> simp [put, hin]
  simp only [view, hset, toObj]
  show ({ u with shutdownSignaled := s.shutdownSignaled } : Stream.State) = u
  rw [← hflag]

theorem order_ids (he : Effect (view s a x) act u) (hx : Stream.Inv (view s a x))
    (hu : Stream.Inv u) :
    served x u ++ u.readQueue.map ReadTask.id =
      x.readQueue.map ReadTask.id ++ (newReads act).map ReadTask.id := by
  have h := congrArg (List.map ReadTask.id) (he.order hx hu)
  rw [List.map_append, List.map_append, List.map_map] at h
  exact h

/-- Every read that the stream completes or parks was parked there or is new. -/
theorem parked_or_new (hheap : s.heap a = some x) (he : Effect (view s a x) act u)
    (hx : Stream.Inv (view s a x)) (hu : Stream.Inv u) {t : TaskId}
    (ht : t ∈ served x u ∨ t ∈ u.readQueue.map ReadTask.id) :
    Parked s t a ∨ t ∈ (newReads act).map ReadTask.id := by
  rw [← List.mem_append, order_ids he hx hu, List.mem_append] at ht
  rw [parked_iff hheap]
  exact ht

/-- A read is not both completed and parked. -/
theorem disjoint_ids (he : Effect (view s a x) act u) (hu : Stream.Inv u) {t : TaskId}
    (ht : t ∈ u.readQueue.map ReadTask.id) : t ∉ served x u := by
  rcases he.grows with ⟨ds, hds⟩
  have hdrop : u.completed.drop x.completed.length = ds := by
    rw [hds]
    exact List.drop_left
  have hnodup := hu.nodup
  rw [hu.order, hds, List.map_append, List.map_append, List.map_append] at hnodup
  intro hserved
  have hmem : t ∈ (ds.map Delivery.task).map ReadTask.id := by
    rw [served, hdrop] at hserved
    rw [List.map_map]
    exact hserved
  exact (List.nodup_append.mp hnodup).2.2 t (List.mem_append_right _ hmem) t ht rfl

/-- A step of one stream, by reads that it has parked and a new one. -/
theorem inv_put (hs : Inv s) (hheap : s.heap a = some x) (he : Effect (view s a x) act u)
    (hu : Stream.Inv u)
    (hnew : ∀ t ∈ (newReads act).map ReadTask.id,
      t ∈ s.reads ∧ s.completed.results t = [] ∧ ∀ b, ¬ Parked s t b)
    (hclose : ∀ t, u.handle.closeTask = some t → t ∈ s.tasks ∧ t ∉ s.reads) :
    Inv (put s a x u) := by
  have hx := hs.streams a x hheap
  have hold := fun t => parked_or_new (t := t) hheap he hx hu
  have hread : ∀ t, t ∈ served x u ∨ t ∈ u.readQueue.map ReadTask.id →
      t ∈ s.reads ∧ s.completed.results t = [] := by
    intro t ht
    rcases hold t ht with h | h
    · exact hs.parked t a h
    · exact ⟨(hnew t h).1, (hnew t h).2.1⟩
  -- none of them is parked elsewhere
  have helse : ∀ t b, b ≠ a → Parked s t b →
      t ∉ served x u ∧ t ∉ u.readQueue.map ReadTask.id := by
    intro t b hb hp
    rw [← not_or]
    intro ht
    rcases hold t ht with h | h
    · exact hb (hs.one t b a hp h)
    · exact (hnew t h).2.2 b hp
  refine ⟨?_, ?_, ?_, ?_, ?_, hs.reads, ?_⟩
  · intro b y hy
    by_cases hb : b = a
    · subst hb
      have hyu : y = toObj u := Option.some.inj (hy.symm.trans (heap_put_self s b x u))
      rw [hyu, view_put he.signaled]
      exact hu
    · exact stream_inv_put hb (hs.streams b y ((heap_put_of_ne hb).symm.trans hy))
  · intro b hb
    by_cases hba : b = a
    · subst hba
      have hin : u.inReadingStreams = true := by
        by_contra hin
        simp [put, hin] at hb
      refine ⟨toObj u, heap_put_self s b x u, he.member ?_ hin⟩
      intro hmem
      rcases hs.members b (of_decide_eq_true hmem) with ⟨y, hy, hne⟩
      rw [hheap] at hy
      exact Option.some.inj hy ▸ hne
    · have hmem : b ∈ s.readingStreams := by
        simp only [put] at hb
        split at hb
        · simpa [hba] using hb
        · simpa [hba] using hb
      rcases hs.members b hmem with ⟨y, hy, hne⟩
      exact ⟨y, (heap_put_of_ne hba).trans hy, hne⟩
  · intro t b hp
    rw [parked_put] at hp
    split at hp
    · rw [results_put_of_notMem (disjoint_ids he hu hp)]
      exact hread t (Or.inr hp)
    · rename_i hb
      rw [results_put_of_notMem (helse t b hb hp).1]
      exact hs.parked t b hp
  · intro t b c hb hc
    rw [parked_put] at hb hc
    split at hb <;> split at hc
    · simp [*]
    · rename_i hcne
      exact absurd hb (helse t c hcne hc).2
    · rename_i hbne _
      exact absurd hc (helse t b hbne hb).2
    · exact hs.one t b c hb hc
  · intro b y t hy ht
    by_cases hb : b = a
    · subst hb
      have hyu : y = toObj u := Option.some.inj (hy.symm.trans (heap_put_self s b x u))
      rw [hyu] at ht
      exact hclose t ht
    · exact hs.close b y t ((heap_put_of_ne hb).symm.trans hy) ht
  · intro t ht
    have hserved : t ∉ served x u := fun h => ht (hs.reads t (hread t (Or.inl h)).1)
    rw [results_put_of_notMem hserved]
    exact hs.fresh t ht

end Put

theorem inv_stepAt {s u : State} {a : Addr} {act : Stream.Action} (hs : Inv s)
    (hact : act ≠ .onSignal)
    (hnew : ∀ t ∈ (newReads act).map ReadTask.id,
      t ∈ s.reads ∧ s.completed.results t = [] ∧ ∀ b, ¬ Parked s t b)
    (hclose : ∀ t, act = .streamClose t → t ∈ s.tasks ∧ t ∉ s.reads)
    (h : stepAt s a act = some u) : Inv u := by
  rcases stepAt_cases h with ⟨x, v, hx, hv, rfl⟩
  have he := effect_step (hs.streams a x hx) hact hv
  apply inv_put hs hx he (Stream.inv_step (hs.streams a x hx) hv) hnew
  intro t ht
  rcases he.handle t ht with ht | ht
  · exact hs.close a x t hx ht
  · exact hclose t ht

/-- The record of the dispatched tasks is not looked at. -/
theorem stepAt_record {s u : State} {a : Addr} {act : Stream.Action} (h : stepAt s a act = some u)
    (tasks reads : List TaskId) :
    stepAt { s with tasks, reads } a act = some { u with tasks, reads } := by
  rcases stepAt_cases h with ⟨x, v, hx, hv, rfl⟩
  have hv' : Stream.step (view { s with tasks, reads } a x) act = some v := hv
  simp only [stepAt, hx, hv', Option.map_some]
  rfl

theorem Inv.not_parked {s : State} (hs : Inv s) {t : TaskId} (ht : t ∉ s.tasks) (a : Addr) :
    ¬ Parked s t a := fun h => ht (hs.reads t (hs.parked t a h).1)

theorem inv_newRead {s : State} {t : TaskId} (hs : Inv s) (ht : t ∉ s.tasks) :
    Inv { s with tasks := t :: s.tasks, reads := t :: s.reads } := by
  refine ⟨hs.streams, hs.members, ?_, hs.one, ?_, ?_, ?_⟩
  · intro t' a hp
    have h := hs.parked t' a hp
    exact ⟨List.mem_cons_of_mem t h.1, h.2⟩
  · intro a x t' hx hc
    have h := hs.close a x t' hx hc
    refine ⟨List.mem_cons_of_mem t h.1, fun hmem => ?_⟩
    rcases List.mem_cons.mp hmem with rfl | hmem
    · exact ht h.1
    · exact h.2 hmem
  · intro t' ht'
    rcases List.mem_cons.mp ht' with rfl | ht'
    · exact List.mem_cons_self
    · exact List.mem_cons_of_mem t (hs.reads t' ht')
  · exact fun t' ht' => hs.fresh t' fun h => ht' (List.mem_cons_of_mem t h)

/-- Other parts of the runtime dispatch tasks and complete tasks that are no reads. -/
theorem inv_others {s : State} {tasks : List TaskId} {completed : Completions} (hs : Inv s)
    (htasks : ∀ t ∈ s.tasks, t ∈ tasks)
    (hres : ∀ t ∈ s.reads, completed.results t = s.completed.results t)
    (hfresh : ∀ t, t ∉ tasks → completed.results t = []) : Inv { s with tasks, completed } := by
  refine ⟨hs.streams, hs.members, ?_, hs.one, ?_, ?_, hfresh⟩
  · intro t a hp
    have h := hs.parked t a hp
    exact ⟨h.1, (hres t h.1).trans h.2⟩
  · intro a x t hx hc
    have h := hs.close a x t hx hc
    exact ⟨htasks t h.1, h.2⟩
  · exact fun t ht => htasks t (hs.reads t ht)

/-- A completion of a task that nobody has parked. -/
theorem inv_complete {s : State} {t : TaskId} {r : Int} (hs : Inv s) (ht : t ∈ s.tasks)
    (hp : ∀ a, ¬ Parked s t a) : Inv { s with completed := s.completed ++ [(t, r)] } := by
  refine ⟨hs.streams, hs.members, ?_, hs.one, hs.close, hs.reads, ?_⟩
  · intro t' a hp'
    have hne : t' ≠ t := fun heq => hp a (heq ▸ hp')
    rw [s.completed.results_snoc_of_ne hne]
    exact hs.parked t' a hp'
  · intro t' ht'
    have hne : t' ≠ t := by
      rintro rfl
      exact ht' ht
    exact (s.completed.results_snoc_of_ne hne r).trans (hs.fresh t' ht')

/-! ## 4. The sweep -/

/-- What a round of the sweep makes of a stream. -/
structure Swept (s u : Stream.State) : Prop where
  effect : Effect s .onSignal u
  queue : u.readQueue = []
  inSet : u.inReadingStreams = false
  completed : u.completed = s.completed ++ Stream.fanOut s UV_ECANCELED s.readQueue
  chunks : u.chunks = s.chunks
  handle : u.handle = s.handle

theorem swept {s : Stream.State} (hs : Stream.Inv s) : Swept s (Stream.cancelPendingReads s) := by
  unfold Stream.cancelPendingReads
  rcases hin : s.inReadingStreams with _ | _
  · -- not in the set, so nobody is parked
    have hq : s.readQueue = [] := by
      by_contra hq
      rw [hs.inSet hq] at hin
      cases hin
    rw [if_neg (by decide)]
    refine ⟨⟨⟨[], (List.append_nil _).symm⟩, (List.append_nil _).symm, rfl, ?_, ?_⟩, hq, rfl, ?_,
      rfl, rfl⟩
    · exact fun _ h => Or.inl h
    · exact fun _ h => by cases h
    · simp [hq, Stream.fanOut]
  · rw [if_pos rfl]
    simp only [Stream.stopIfActive_eq, Stream.completeAll_eq]
    refine ⟨⟨⟨_, rfl⟩, (List.append_nil _).symm, rfl, ?_, ?_⟩, rfl, rfl, rfl, rfl, rfl⟩
    · exact fun _ h => Or.inl h
    · exact fun _ h => by cases h

theorem cancelAt_eq {s : State} {a : Addr} {x : Obj} (hx : s.heap a = some x) :
    cancelAt s a = put s a x (Stream.cancelPendingReads (view s a x)) := by
  simp only [cancelAt, hx]

theorem cancelAt_none {s : State} {a : Addr} (hx : s.heap a = none) : cancelAt s a = s := by
  simp only [cancelAt, hx]

theorem inv_cancelAt {s : State} (hs : Inv s) (a : Addr) : Inv (cancelAt s a) := by
  rcases hx : s.heap a with _ | x
  · rw [cancelAt_none hx]
    exact hs
  · rw [cancelAt_eq hx]
    have hview := hs.streams a x hx
    have hswept := swept hview
    apply inv_put hs hx hswept.effect (Stream.inv_cancelPendingReads hview s.shutdownSignaled)
    · exact fun t ht => by cases ht
    · intro t ht
      rw [hswept.handle] at ht
      exact hs.close a x t hx ht

/-- After its round a stream is out of the set. -/
theorem readingStreams_cancelAt {s : State} (hs : Inv s) (a : Addr) :
    (cancelAt s a).readingStreams = s.readingStreams.erase a := by
  rcases hx : s.heap a with _ | x
  · have hnot : a ∉ s.readingStreams := by
      intro hmem
      rcases hs.members a hmem with ⟨y, hy, _⟩
      rw [hx] at hy
      cases hy
    rw [cancelAt_none hx, Finset.erase_eq_of_notMem hnot]
  · have hin := (swept (hs.streams a x hx)).inSet
    rw [cancelAt_eq hx, put]
    simp only [hin, Bool.false_eq_true, if_false]

/-- Nobody is parked there any more, and elsewhere nothing has changed. -/
theorem parked_cancelAt {s : State} (hs : Inv s) (a : Addr) (t : TaskId) (b : Addr) :
    Parked (cancelAt s a) t b ↔ b ≠ a ∧ Parked s t b := by
  rcases hx : s.heap a with _ | x
  · rw [cancelAt_none hx]
    refine ⟨fun h => ⟨?_, h⟩, fun h => h.2⟩
    intro hb
    rcases h with ⟨y, hy, _⟩
    rw [hb, hx] at hy
    cases hy
  · rw [cancelAt_eq hx, parked_put, (swept (hs.streams a x hx)).queue]
    split
    · rename_i hb
      simp [hb]
    · rename_i hb
      simp [hb]

/-- Exactly the reads parked there are completed, each once, with `ECANCELED`. -/
theorem results_cancelAt {s : State} (hs : Inv s) (a : Addr) (t : TaskId) :
    (Parked s t a → (cancelAt s a).completed.results t = [UV_ECANCELED]) ∧
      (¬ Parked s t a →
        (cancelAt s a).completed.results t = s.completed.results t) := by
  rcases hx : s.heap a with _ | x
  · rw [cancelAt_none hx]
    refine ⟨fun h => ?_, fun _ => rfl⟩
    rcases h with ⟨y, hy, _⟩
    rw [hx] at hy
    cases hy
  · have hview := hs.streams a x hx
    have hnodup : (x.readQueue.map ReadTask.id).Nodup := by
      have h := hview.nodup
      rw [hview.order, List.map_append] at h
      exact (List.nodup_append.mp h).2.1
    have hcomp : (cancelAt s a).completed =
        s.completed ++ (x.readQueue.map ReadTask.id).map fun p => (p, UV_ECANCELED) := by
      rw [cancelAt_eq hx, put, (swept hview).completed]
      simp only [view, List.drop_left, Stream.fanOut, List.map_map]
      rfl
    rw [hcomp, Completions.results_append, Completions.results_map hnodup, parked_iff hx]
    constructor
    · intro ht
      rw [if_pos ht, (hs.parked t a ((parked_iff hx t).mpr ht)).2, List.nil_append]
    · intro ht
      rw [if_neg ht, List.append_nil]

theorem consumed_cancelAt {s : State} (hs : Inv s) (a : Addr) :
    (cancelAt s a).consumed = s.consumed := by
  rcases hx : s.heap a with _ | x
  · rw [cancelAt_none hx]
  · rw [cancelAt_eq hx, put, (swept (hs.streams a x hx)).chunks]
    simp [view]

/-- No handle is touched by the sweep. -/
theorem handle_cancelAt {s : State} (hs : Inv s) (a b : Addr) :
    ((cancelAt s a).heap b).map Obj.handle = (s.heap b).map Obj.handle := by
  rcases hx : s.heap a with _ | x
  · rw [cancelAt_none hx]
  · have hhandle := (swept (hs.streams a x hx)).handle
    rw [cancelAt_eq hx]
    by_cases hb : b = a
    · subst hb
      rw [hx, heap_put_self]
      exact congrArg some hhandle
    · rw [heap_put_of_ne hb]

/-- What the rounds over `order` have done, from `s` to `u`. -/
structure SweepOf (s : State) (order : List Addr) (u : State) : Prop where
  inv : Inv u
  readingStreams : u.readingStreams = s.readingStreams \ order.toFinset
  parked : ∀ t a, Parked u t a ↔ a ∉ order ∧ Parked s t a
  woken : ∀ t a, a ∈ order → Parked s t a → u.completed.results t = [UV_ECANCELED]
  others : ∀ t, (∀ a ∈ order, ¬ Parked s t a) → u.completed.results t = s.completed.results t
  consumed : u.consumed = s.consumed
  handles : ∀ a, (u.heap a).map Obj.handle = (s.heap a).map Obj.handle
  tasks : u.tasks = s.tasks
  reads : u.reads = s.reads

theorem sweepOf_foldl {s : State} (hs : Inv s) (order : List Addr) :
    SweepOf s order (order.foldl cancelAt s) := by
  induction order generalizing s with
  | nil => exact ⟨hs, by simp, by simp, by simp, by simp, rfl, fun _ => rfl, rfl, rfl⟩
  | cons a order ih =>
    have h := ih (inv_cancelAt hs a)
    have hpark := parked_cancelAt hs a
    have hrecord : (cancelAt s a).tasks = s.tasks ∧ (cancelAt s a).reads = s.reads := by
      unfold cancelAt
      split <;> exact ⟨rfl, rfl⟩
    refine ⟨h.inv, ?_, ?_, ?_, ?_, ?_, ?_, h.tasks.trans hrecord.1, h.reads.trans hrecord.2⟩
    · rw [List.foldl_cons, h.readingStreams, readingStreams_cancelAt hs]
      ext b
      simp only [Finset.mem_sdiff, Finset.mem_erase, List.mem_toFinset, List.mem_cons]
      tauto
    · intro t b
      rw [List.foldl_cons, h.parked, hpark, List.mem_cons]
      tauto
    · intro t b hb hp
      rw [List.foldl_cons]
      by_cases hba : b = a
      · -- its own round comes first, and no later one completes the task again
        subst hba
        rw [h.others t fun c _ hc => ?_]
        · exact (results_cancelAt hs b t).1 hp
        · rw [hpark] at hc
          exact hc.1 (hs.one t c b hc.2 hp)
      · have hb' := (List.mem_cons.mp hb).resolve_left hba
        exact h.woken t b hb' ((hpark t b).mpr ⟨hba, hp⟩)
    · intro t ht
      rw [List.foldl_cons, h.others t fun c hc hp => ht c (List.mem_cons_of_mem a hc)
        ((hpark t c).mp hp).2]
      exact (results_cancelAt hs a t).2 (ht a List.mem_cons_self)
    · rw [List.foldl_cons, h.consumed, consumed_cancelAt hs]
    · intro b
      rw [List.foldl_cons, h.handles, handle_cancelAt hs]

theorem Inv.setFlag {s : State} (hs : Inv s) (b : Bool)
    (hb : b = true → ∀ a x, s.heap a = some x → x.readQueue = []) :
    Inv { s with shutdownSignaled := b } :=
  { hs with
    streams := fun a x hx =>
      { hs.streams a x hx with shutdown := fun h => hb h a x hx } }

theorem cancelPendingReads_flag (s : Stream.State) (b : Bool) :
    Stream.cancelPendingReads { s with shutdownSignaled := b } =
      { Stream.cancelPendingReads s with shutdownSignaled := b } := by
  unfold Stream.cancelPendingReads
  rcases hin : s.inReadingStreams with _ | _
  · rw [if_neg (by decide), if_neg (by decide)]
  · rw [if_pos rfl, if_pos rfl]
    simp only [Stream.stopIfActive_eq, Stream.completeAll_eq]
    rfl

/-- The rounds do not look at the flag. -/
theorem foldl_cancelAt_flag (order : List Addr) (s : State) (b : Bool) :
    order.foldl cancelAt { s with shutdownSignaled := b } =
      { order.foldl cancelAt s with shutdownSignaled := b } := by
  have hround : ∀ (s : State) (a : Addr),
      cancelAt { s with shutdownSignaled := b } a =
        { cancelAt s a with shutdownSignaled := b } := by
    intro s a
    rcases hx : s.heap a with _ | x
    · simp only [cancelAt, hx]
    · simp only [cancelAt, hx]
      have hview : view { s with shutdownSignaled := b } a x =
        { view s a x with shutdownSignaled := b } := rfl
      rw [hview, cancelPendingReads_flag]
      rfl
  induction order generalizing s with
  | nil => rfl
  | cons a order ih => rw [List.foldl_cons, hround, ih, List.foldl_cons]

theorem queue_nil_of_notMem {s : State} (hs : Inv s) {a : Addr} {x : Obj} (hx : s.heap a = some x)
    (ha : a ∉ s.readingStreams) : x.readQueue = [] := by
  by_contra hq
  exact ha (of_decide_eq_true ((hs.streams a x hx).inSet hq))

theorem Parked.mem {s : State} (hs : Inv s) {t : TaskId} {a : Addr} (h : Parked s t a) :
    a ∈ s.readingStreams := by
  rcases h with ⟨x, hx, ht⟩
  by_contra ha
  rw [queue_nil_of_notMem hs hx ha] at ht
  cases ht

/-- The sweep of the whole set, under the flag. -/
theorem sweepOf_cancelPendingReads {s : State} (hs : Inv s) {order : List Addr}
    (horder : order.toFinset = s.readingStreams) :
    SweepOf s order (cancelPendingReads { s with shutdownSignaled := true } order) := by
  have h := sweepOf_foldl (hs.setFlag false fun h => by cases h) order
  have hempty : (order.foldl cancelAt { s with shutdownSignaled := false }).readingStreams = ∅ := by
    rw [h.readingStreams, horder]
    exact Finset.sdiff_self _
  have hdrop : ∀ v : State, v.readingStreams = ∅ →
      ({ v with shutdownSignaled := true, readingStreams := ∅ } : State) =
        { v with shutdownSignaled := true } := by
    intro v hv
    rw [← hv]
  have heq := foldl_cancelAt_flag order { s with shutdownSignaled := false } true
  rw [cancelPendingReads, heq, hdrop _ hempty]
  exact ⟨h.inv.setFlag true fun _ a x hx => queue_nil_of_notMem h.inv hx (by simp [hempty]),
    h.readingStreams, h.parked, h.woken, h.others, h.consumed, h.handles, h.tasks, h.reads⟩

theorem signaled_cancelPendingReads (s : State) (order : List Addr) :
    (cancelPendingReads { s with shutdownSignaled := true } order).shutdownSignaled = true := by
  rw [cancelPendingReads, foldl_cancelAt_flag order s true]

/-! ## 5. Runs -/

theorem inv_onClosed {s : State} {a : Addr} {x : Obj} (hs : Inv s) (hx : s.heap a = some x)
    (hclosing : x.handle.state = .closing) :
    Inv { s with
      heap := Function.update s.heap a none
      completed := s.completed ++ x.handle.onClosed.2 } := by
  have hq : x.readQueue = [] := (hs.streams a x hx).closing (by simp [view, hclosing])
  have hpark : ∀ t b, Parked { s with heap := Function.update s.heap a none } t b ↔
      Parked s t b := by
    intro t b
    by_cases hb : b = a
    · subst hb
      simp [Parked, hx, hq]
    · simp [Parked, hb]
  have hinv : Inv { s with heap := Function.update s.heap a none } := by
    refine ⟨?_, ?_, ?_, ?_, ?_, hs.reads, hs.fresh⟩
    · intro b y hy
      by_cases hb : b = a
      · simp [hb] at hy
      · exact hs.streams b y (by simpa [hb] using hy)
    · intro b hb
      rcases hs.members b hb with ⟨y, hy, hne⟩
      have hba : b ≠ a := by
        intro heq
        rw [heq, hx] at hy
        exact hne (Option.some.inj hy ▸ hq)
      exact ⟨y, by simpa [hba] using hy, hne⟩
    · exact fun t b hp => hs.parked t b ((hpark t b).mp hp)
    · exact fun t b c hb hc => hs.one t b c ((hpark t b).mp hb) ((hpark t c).mp hc)
    · intro b y t hy
      by_cases hb : b = a
      · simp [hb] at hy
      · exact hs.close b y t (by simpa [hb] using hy)
  rcases hct : x.handle.closeTask with _ | t
  · simp only [LoopHandle.onClosed, hct, List.append_nil]
    exact hinv
  · simp only [LoopHandle.onClosed, hct]
    have hclose := hs.close a x t hx hct
    exact inv_complete hinv hclose.1 fun b hp => hclose.2 (hinv.parked t b hp).1

/-- One constructor for each kind of step. -/
inductive Step (s : State) : Action → State → Prop
  | newStream {a} : s.heap a = none →
      Step s (.newStream a) { s with heap := Function.update s.heap a (some newObj) }
  | refused {a t rc} : t.id ∉ s.tasks → s.shutdownSignaled = true →
      Step s (.streamRead a t rc)
        { s with
          completed := s.completed ++ [(t.id, UV_ECANCELED)]
          tasks := t.id :: s.tasks, reads := t.id :: s.reads }
  | streamRead {a t rc u} : t.id ∉ s.tasks → s.shutdownSignaled = false →
      stepAt { s with tasks := t.id :: s.tasks, reads := t.id :: s.reads } a
        (.streamRead t rc) = some u →
      Step s (.streamRead a t rc) u
  | read {a e u} : stepAt s a (.read e) = some u → Step s (.read a e) u
  | streamClose {a t u} : t ∉ s.tasks →
      stepAt { s with tasks := t :: s.tasks } a (.streamClose t) = some u →
      Step s (.streamClose a t) u
  | onClosed {a x} : s.heap a = some x → x.handle.state = .closing →
      Step s (.onClosed a)
        { s with
          heap := Function.update s.heap a none
          completed := s.completed ++ x.handle.onClosed.2 }
  | sweep {order} : order.toFinset = s.readingStreams →
      Step s (.sweep order) (cancelPendingReads { s with shutdownSignaled := true } order)

theorem step_cases {s u : State} {act : Action} (h : step s act = some u) : Step s act u := by
  cases act with
  | newStream a =>
    simp only [step, Option.ite_none_right_eq_some, Option.some.injEq] at h
    exact h.2 ▸ .newStream h.1
  | streamRead a t rc =>
    simp only [step, Option.ite_none_right_eq_some, Option.map_eq_some_iff] at h
    rcases h with ⟨ht, v, hv, rfl⟩
    rcases hflag : s.shutdownSignaled with _ | _
    · rw [streamRead, if_neg (by simp [hflag])] at hv
      rcases stepAt_cases hv with ⟨x, w, _, _, rfl⟩
      exact .streamRead ht hflag (stepAt_record hv _ _)
    · rw [streamRead, if_pos hflag, Option.some.injEq] at hv
      exact hv ▸ .refused ht hflag
  | read a e => exact .read h
  | streamClose a t =>
    simp only [step, Option.ite_none_right_eq_some, Option.map_eq_some_iff] at h
    rcases h with ⟨ht, v, hv, rfl⟩
    rcases stepAt_cases hv with ⟨x, w, _, _, rfl⟩
    exact .streamClose ht (stepAt_record hv _ _)
  | onClosed a =>
    simp only [step] at h
    split at h
    case h_2 => cases h
    case h_1 x hx =>
      simp only [Option.ite_none_right_eq_some, Option.some.injEq] at h
      exact h.2 ▸ .onClosed hx h.1
  | sweep order =>
    simp only [step, Option.ite_none_right_eq_some, Option.some.injEq] at h
    exact h.2 ▸ .sweep h.1.2

theorem inv_newStream {s : State} {a : Addr} (hs : Inv s) (ha : s.heap a = none) :
    Inv { s with heap := Function.update s.heap a (some newObj) } := by
  have hpark : ∀ t b, Parked { s with heap := Function.update s.heap a (some newObj) } t b ↔
      Parked s t b := by
    intro t b
    by_cases hb : b = a
    · subst hb
      simp [Parked, ha, newObj]
    · simp [Parked, hb]
  refine ⟨?_, ?_, ?_, ?_, ?_, hs.reads, hs.fresh⟩
  · intro b y hy
    by_cases hb : b = a
    · have hnew : y = newObj := by simpa [hb] using hy.symm
      subst hnew
      refine ⟨?_, ?_, ?_, ?_, ?_, ?_, ?_, ?_, ?_⟩ <;> simp [view, newObj, Stream.delivered]
    · exact hs.streams b y (by simpa [hb] using hy)
  · intro b hb
    rcases hs.members b hb with ⟨y, hy, hne⟩
    have hba : b ≠ a := by
      intro heq
      rw [heq, ha] at hy
      cases hy
    exact ⟨y, by simpa [hba] using hy, hne⟩
  · exact fun t b hp => hs.parked t b ((hpark t b).mp hp)
  · exact fun t b c hb hc => hs.one t b c ((hpark t b).mp hb) ((hpark t c).mp hc)
  · intro b y t hy ht
    by_cases hb : b = a
    · have hnew : y = newObj := by simpa [hb] using hy.symm
      subst hnew
      cases ht
    · exact hs.close b y t (by simpa [hb] using hy) ht

/-- The task of a close. -/
theorem inv_newTask {s : State} {t : TaskId} (hs : Inv s) : Inv { s with tasks := t :: s.tasks } :=
  inv_others hs (fun _ h => List.mem_cons_of_mem t h) (fun _ _ => rfl)
    fun t' h => hs.fresh t' fun h' => h (List.mem_cons_of_mem t h')

theorem inv_step {s u : State} {act : Action} (hs : Inv s) (h : step s act = some u) : Inv u := by
  cases step_cases h with
  | newStream ha => exact inv_newStream hs ha
  | refused ht _ =>
    exact inv_complete (inv_newRead hs ht) List.mem_cons_self fun a => hs.not_parked ht a
  | streamRead ht _ hu =>
    apply inv_stepAt (inv_newRead hs ht) (by simp) _ (fun _ h => by cases h) hu
    intro t' ht'
    rw [List.mem_singleton.mp ht']
    exact ⟨List.mem_cons_self, hs.fresh _ ht, fun b => hs.not_parked ht b⟩
  | read hu => exact inv_stepAt hs (by simp) (fun _ h => by cases h) (fun _ h => by cases h) hu
  | streamClose ht hu =>
    apply inv_stepAt (inv_newTask hs) (by simp) (fun _ h => by cases h) _ hu
    intro t' ht'
    cases ht'
    exact ⟨List.mem_cons_self, fun h => ht (hs.reads _ h)⟩
  | onClosed hx hclosing => exact inv_onClosed hs hx hclosing
  | sweep horder => exact (sweepOf_cancelPendingReads hs horder).inv

theorem inv_reachable {s : State} (h : machine.Reachable s) : Inv s :=
  h.invariant inv_init fun _ _ _ _ hs ht => inv_step hs ht

/-- A read that is parked nowhere any more. -/
def Settled (s : State) (t : TaskId) : Prop := t ∈ s.reads ∧ ∀ a, ¬ Parked s t a

theorem settled_stepAt {s u : State} {a : Addr} {act : Stream.Action} {t : TaskId} (hs : Inv s)
    (ht : Settled s t) (hact : act ≠ .onSignal) (hne : t ∉ (newReads act).map ReadTask.id)
    (h : stepAt s a act = some u) :
    Settled u t ∧ u.completed.results t = s.completed.results t := by
  rcases stepAt_cases h with ⟨x, v, hx, hv, rfl⟩
  have hview := hs.streams a x hx
  have hold := parked_or_new (t := t) hx (effect_step hview hact hv) hview
    (Stream.inv_step hview hv)
  -- neither completed by the step nor parked by it
  have hnot : ¬ (t ∈ served x v ∨ t ∈ v.readQueue.map ReadTask.id) := by
    intro hmem
    rcases hold hmem with h | h
    · exact ht.2 a h
    · exact hne h
  rw [not_or] at hnot
  refine ⟨⟨ht.1, fun b hb => ?_⟩, results_put_of_notMem hnot.1⟩
  rw [parked_put] at hb
  split at hb
  · exact hnot.2 hb
  · exact ht.2 b hb

/-- It is never completed again. -/
theorem settled_step {s u : State} {act : Action} {t : TaskId} (hs : Inv s) (ht : Settled s t)
    (h : step s act = some u) :
    Settled u t ∧ u.completed.results t = s.completed.results t := by
  have hold : t ∈ s.tasks := hs.reads t ht.1
  cases step_cases h with
  | @newStream a ha =>
    refine ⟨⟨ht.1, fun b hb => ?_⟩, rfl⟩
    by_cases hba : b = a
    · subst hba
      simp [Parked, newObj] at hb
    · exact ht.2 b (by simpa [Parked, hba] using hb)
  | @refused a t' rc ht' _ =>
    have hne : t'.id ≠ t := fun heq => ht' (heq ▸ hold)
    refine ⟨⟨List.mem_cons_of_mem _ ht.1, ht.2⟩, ?_⟩
    show Completions.results (s.completed ++ [(t'.id, UV_ECANCELED)]) t = _
    rw [Completions.results_snoc, if_neg hne]
  | @streamRead a t' rc u ht' _ hu =>
    have hne : t'.id ≠ t := fun heq => ht' (heq ▸ hold)
    have hset : Settled { s with tasks := t'.id :: s.tasks, reads := t'.id :: s.reads } t :=
      ⟨List.mem_cons_of_mem _ ht.1, ht.2⟩
    have hkeep := settled_stepAt (inv_newRead hs ht') hset (by simp)
      (by simpa [newReads] using hne.symm) hu
    exact hkeep
  | read hu => exact settled_stepAt hs ht (by simp) (by simp [newReads]) hu
  | @streamClose a t' u _ hu =>
    have hset : Settled { s with tasks := t' :: s.tasks } t := ht
    have hkeep := settled_stepAt (inv_newTask hs) hset (by simp) (by simp [newReads]) hu
    exact hkeep
  | @onClosed a x hx hclosing =>
    refine ⟨⟨ht.1, fun b hb => ?_⟩, ?_⟩
    · by_cases hba : b = a
      · subst hba
        simp [Parked] at hb
      · exact ht.2 b (by simpa [Parked, hba] using hb)
    · rcases hct : x.handle.closeTask with _ | t'
      · simp [LoopHandle.onClosed, hct]
      · have hne : t' ≠ t := fun heq => (hs.close a x t' hx hct).2 (heq ▸ ht.1)
        simp only [LoopHandle.onClosed, hct]
        rw [Completions.results_snoc, if_neg hne]
  | sweep horder =>
    have hsweep := sweepOf_cancelPendingReads hs horder
    refine ⟨⟨?_, fun b hb => ht.2 b ((hsweep.parked t b).mp hb).2⟩, ?_⟩
    · rw [hsweep.reads]
      exact ht.1
    · exact hsweep.others t fun b _ => ht.2 b

/-- Dispatched tasks stay dispatched, and a new read is a new task. -/
theorem record_step {s u : State} {act : Action} (hs : Inv s) (h : step s act = some u) :
    (∀ t ∈ s.tasks, t ∈ u.tasks) ∧ ∀ t ∈ u.reads, t ∈ s.reads ∨ t ∉ s.tasks := by
  cases step_cases h with
  | newStream | onClosed => exact ⟨fun _ h => h, fun _ h => Or.inl h⟩
  | refused ht _ =>
    refine ⟨fun _ h => List.mem_cons_of_mem _ h, fun t' h => ?_⟩
    rcases List.mem_cons.mp h with rfl | h
    · exact Or.inr ht
    · exact Or.inl h
  | streamRead ht _ hu =>
    rcases stepAt_cases hu with ⟨x, v, _, _, rfl⟩
    refine ⟨fun _ h => List.mem_cons_of_mem _ h, fun t' h => ?_⟩
    rcases List.mem_cons.mp h with rfl | h
    · exact Or.inr ht
    · exact Or.inl h
  | read hu =>
    rcases stepAt_cases hu with ⟨x, v, _, _, rfl⟩
    exact ⟨fun _ h => h, fun _ h => Or.inl h⟩
  | streamClose _ hu =>
    rcases stepAt_cases hu with ⟨x, v, _, _, rfl⟩
    exact ⟨fun _ h => List.mem_cons_of_mem _ h, fun _ h => Or.inl h⟩
  | sweep horder =>
    have hsweep := sweepOf_cancelPendingReads hs horder
    rw [hsweep.tasks, hsweep.reads]
    exact ⟨fun _ h => h, fun _ h => Or.inl h⟩

/-- Only the sweep comes with the flag. -/
theorem flag_step {s u : State} {act : Action} (hact : ∀ order, act ≠ .sweep order)
    (h : step s act = some u) : u.shutdownSignaled = s.shutdownSignaled := by
  cases step_cases h with
  | newStream | onClosed | refused => rfl
  | streamRead _ _ hu | read hu | streamClose _ hu =>
    rcases stepAt_cases hu with ⟨x, v, _, _, rfl⟩
    rfl
  | sweep => exact absurd rfl (hact _)

/-! ## 6. After the signal -/

/-- Under the flag nobody is parked, so the set is empty. -/
theorem idle_of_signaled {s : State} (hs : Inv s) (hflag : s.shutdownSignaled = true) :
    s.readingStreams = ∅ ∧ ∀ a x, s.heap a = some x → x.readQueue = [] := by
  have hq : ∀ a x, s.heap a = some x → x.readQueue = [] :=
    fun a x hx => (hs.streams a x hx).shutdown hflag
  refine ⟨?_, hq⟩
  apply Finset.eq_empty_of_forall_notMem
  intro a ha
  rcases hs.members a ha with ⟨x, hx, hne⟩
  exact hne (hq a x hx)

theorem chunks_streamClose (s : Stream.State) (t : TaskId) :
    (Stream.streamClose s t).chunks = s.chunks := by
  simp only [Stream.streamClose, Stream.stopIfActive_eq, Stream.completeAll_eq]

/-- The flag stays, and libuv reads nothing any more. -/
theorem signaled_step {s u : State} {act : Action} (hs : Inv s) (hflag : s.shutdownSignaled = true)
    (h : step s act = some u) : u.shutdownSignaled = true ∧ u.consumed = s.consumed := by
  cases step_cases h with
  | newStream | refused | onClosed => exact ⟨hflag, rfl⟩
  | streamRead _ hf => exact absurd (hflag.symm.trans hf) (by simp)
  | read hu =>
    -- nobody is parked, so libuv does not read
    rcases stepAt_cases hu with ⟨x, v, hx, hv, rfl⟩
    have hview := hs.streams _ x hx
    simp only [Stream.step, Option.ite_none_right_eq_some] at hv
    have hq := hview.active.mp (hview.uvReading ▸ hv.1)
    exact absurd (hview.shutdown hflag) hq
  | streamClose _ hu =>
    rcases stepAt_cases hu with ⟨x, v, hx, hv, rfl⟩
    simp only [Stream.step, Option.ite_none_right_eq_some, Option.some.injEq] at hv
    rcases hv with ⟨_, rfl⟩
    refine ⟨hflag, ?_⟩
    simp [put, chunks_streamClose, view]
  | sweep horder =>
    exact ⟨signaled_cancelPendingReads s _, (sweepOf_cancelPendingReads hs horder).consumed⟩

/-! ## 7. The read state -/

/-- The flag, the deque and the set of an open stream say the same, and the set has open streams
only. -/
structure ReadState (s : State) : Prop where
  active : ∀ a x, s.heap a = some x → x.handle.state = .live →
    (x.readActive = true ↔ x.readQueue ≠ [])
  queued : ∀ a x, s.heap a = some x → x.handle.state = .live →
    (x.readQueue ≠ [] ↔ a ∈ s.readingStreams)
  members : ∀ a ∈ s.readingStreams, ∃ x, s.heap a = some x ∧ x.handle.state = .live

theorem Inv.live_of_queued {s : State} (hs : Inv s) {a : Addr} {x : Obj} (hx : s.heap a = some x)
    (hq : x.readQueue ≠ []) : x.handle.state = .live := by
  by_contra hstate
  exact hq ((hs.streams a x hx).closing hstate)

theorem Inv.readState {s : State} (hs : Inv s) : ReadState s := by
  refine ⟨fun a x hx _ => (hs.streams a x hx).active, ?_, ?_⟩
  · intro a x hx _
    refine ⟨fun hq => of_decide_eq_true ((hs.streams a x hx).inSet hq), fun ha => ?_⟩
    rcases hs.members a ha with ⟨y, hy, hne⟩
    rw [hx] at hy
    exact Option.some.inj hy ▸ hne
  · intro a ha
    rcases hs.members a ha with ⟨x, hx, hne⟩
    exact ⟨x, hx, hs.live_of_queued hx hne⟩

/-- libuv reads a stream only while somebody is parked on it. -/
theorem Inv.queued_of_read {s u : State} (hs : Inv s) {a : Addr} {e : ReadEvent}
    (h : step s (.read a e) = some u) : ∃ x, s.heap a = some x ∧ x.readQueue ≠ [] := by
  rcases stepAt_cases h with ⟨x, v, hx, hv, _⟩
  have hview := hs.streams a x hx
  simp only [Stream.step, Option.ite_none_right_eq_some] at hv
  exact ⟨x, hx, hview.active.mp (hview.uvReading ▸ hv.1)⟩

/-- A round of the sweep deletes no object and closes none. -/
theorem live_foldl_cancelAt {s : State} (hs : Inv s) (order : List Addr) {a : Addr}
    (h : ∃ x, s.heap a = some x ∧ x.handle.state = .live) :
    ∃ x, (order.foldl cancelAt s).heap a = some x ∧ x.handle.state = .live := by
  rcases h with ⟨x, hx, hlive⟩
  have hhandle := (sweepOf_foldl hs order).handles a
  rw [hx] at hhandle
  rcases Option.map_eq_some_iff.mp hhandle with ⟨y, hy, heq⟩
  exact ⟨y, hy, heq ▸ hlive⟩

/-- **The read state of the streams.**  In every reachable state the flag, the deque and the set
agree on every open stream and the set has open streams only; so a read callback always finds a
reader, and a sweep meets an open stream at each of its rounds. -/
theorem read_state {s : State} (h : machine.Reachable s) :
    ReadState s ∧
    (∀ a e u, step s (.read a e) = some u → ∃ x, s.heap a = some x ∧ x.readQueue ≠ []) ∧
    (∀ order done a rest, order.toFinset = s.readingStreams → order = done ++ a :: rest →
      ∃ x, (done.foldl cancelAt { s with shutdownSignaled := true }).heap a = some x ∧
        x.handle.state = .live) := by
  have hs := inv_reachable h
  refine ⟨hs.readState, fun a e u hu => hs.queued_of_read hu, ?_⟩
  intro order done a rest horder hsplit
  have ha : a ∈ s.readingStreams := by
    rw [← horder, hsplit]
    simp
  rw [foldl_cancelAt_flag]
  exact live_foldl_cancelAt hs done (hs.readState.members a ha)

/-- Two streams with parked reads; one is closed, the other one is swept. -/
def closedThenSwept : List Action :=
  [.newStream 1, .newStream 2, .streamRead 1 ⟨1, 4, none⟩ 0, .streamRead 2 ⟨2, 4, none⟩ 0,
    .streamRead 2 ⟨3, 4, none⟩ 0, .read 2 (.data [7]), .streamClose 1 4, .onClosed 1]

theorem read_state_closedThenSwept :
    ∃ s, machine.run closedThenSwept = some s ∧ ReadState s ∧ s.readingStreams = {2} :=
  ⟨_, rfl, (@read_state _ ⟨closedThenSwept, rfl⟩).1, by decide⟩

end ChezAsync.Streams
