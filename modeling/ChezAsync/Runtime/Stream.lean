import Mathlib.Logic.Function.Basic
import Mathlib.Data.List.Nodup
import Mathlib.Tactic.Common
import ChezAsync.Lib.Machine
import ChezAsync.Runtime.Task

/-!
# Read on demand (`runtime.cpp`, `net.hpp`)

One `Stream` up to its deletion: `StreamRead` and `StreamClose` dispatches, libuv's read callbacks
and the sweep of the signal handler.  libuv runs `on_alloc` and `on_read` of one read back to back,
so a read is one step: it asks `on_alloc` for a buffer, writes the bytes there, and calls `on_read`.
-/

namespace ChezAsync.Stream

/-! ## 1. Reads and buffers -/

/-- Where the bytes of a read go: the task's own `buffer`, or a pinned bytevector. -/
inductive Buffer
  | buffer (t : TaskId)
  | pinned (extData : Nat)
  deriving DecidableEq

structure ReadTask where
  id : TaskId
  nbytes : Nat
  extData : Option Nat
  deriving DecidableEq

/-- `task_data`. -/
def ReadTask.data (t : ReadTask) : Buffer :=
  match t.extData with
  | some p => .pinned p
  | none => .buffer t.id

def UV_ENOBUFS : Int := -105

/-- Writing at the start of a buffer leaves what lies beyond. -/
def overwrite (old bytes : List UInt8) : List UInt8 := bytes ++ old.drop bytes.length

@[simp] theorem take_overwrite (old bytes : List UInt8) :
    (overwrite old bytes).take bytes.length = bytes := by
  simp [overwrite]

/-! ## 2. The machine -/

/-- A completed read: its task, its result, and the bytes its buffer then holds. -/
structure Delivery where
  task : ReadTask
  result : Int
  bytes : List UInt8

structure State where
  readQueue : List ReadTask
  readActive : Bool
  /-- The stream is in `reading_streams`. -/
  inReadingStreams : Bool
  /-- libuv reads the stream: the last `uv_read_start` has not been stopped. -/
  uvReading : Bool
  handle : LoopHandle
  shutdownSignaled : Bool
  memory : Buffer → List UInt8
  -- The record of the run: the reads dispatched, the reads completed, the chunks libuv has read.
  dispatched : List ReadTask
  completed : List Delivery
  chunks : List (List UInt8)

/-- What one read of libuv comes to. -/
inductive ReadEvent
  | data (bytes : List UInt8)
  /-- `nread == 0`. -/
  | eagain
  /-- End of file, or an error. -/
  | fail (nread : Int)
  deriving DecidableEq

inductive Action
  /-- Dispatch of `StreamRead`; `rc` is what `uv_read_start` returns if it is called. -/
  | streamRead (t : ReadTask) (rc : Int)
  | read (e : ReadEvent)
  | streamClose (t : TaskId)
  /-- The first signal: `shutdown_signaled_` is set and the parked reads are cancelled. -/
  | onSignal
  deriving DecidableEq

/-- `t->Complete(r)` on a read task. -/
def complete (s : State) (t : ReadTask) (r : Int) : State :=
  { s with
    completed := s.completed ++
      [{ task := t, result := r, bytes := (s.memory t.data).take r.toNat }] }

/-- `while (!read_queue.empty()) { …; p->Complete(r); }` -/
def completeAll (r : Int) : List ReadTask → State → State
  | [], s => { s with readQueue := [] }
  | t :: ts, s => completeAll r ts (complete s t r)

/-- `if (s->read_active) { uv_read_stop(…); s->read_active = false; }` -/
def stopIfActive (s : State) : State :=
  if s.readActive then { s with uvReading := false, readActive := false } else s

/-- `uv_read_stop`, with `read_active` cleared and the stream erased from `reading_streams`. -/
def readStop (s : State) : State :=
  { s with uvReading := false, readActive := false, inReadingStreams := false }

/-- `on_alloc`: the buffer offered to libuv and its length. -/
def onAlloc (s : State) : Option Buffer × Nat :=
  match s.readQueue with
  | t :: _ => (some t.data, t.nbytes)
  | [] => (none, 0)

/-- `on_read`. -/
def onRead (s : State) (nread : Int) : State :=
  if nread = 0 then s
  else
    match s.readQueue with
    | [] => readStop s
    | t :: ts =>
        if 0 < nread then
          let s := { s with readQueue := ts }
          complete (if ts = [] then readStop s else s) t nread
        else completeAll (if nread = UV_EOF then 0 else nread) s.readQueue (readStop s)

/-- Dispatch of `StreamRead`. -/
def streamRead (s : State) (t : ReadTask) (rc : Int) : State :=
  if s.shutdownSignaled then complete s t UV_ECANCELED
  else
    let s := { s with readQueue := s.readQueue ++ [t] }
    let s :=
      if s.readActive then s
      else if rc < 0 then complete { s with readQueue := s.readQueue.dropLast } t rc
      else { s with readActive := true, uvReading := true }
    { s with inReadingStreams := s.inReadingStreams || !s.readQueue.isEmpty }

/-- Dispatch of `StreamClose`; `uv_close` ends the reading too. -/
def streamClose (s : State) (t : TaskId) : State :=
  let s := stopIfActive s
  let s := completeAll UV_ECANCELED s.readQueue s
  { s with inReadingStreams := false, uvReading := false, handle := s.handle.close (some t) }

/-- `cancel_pending_reads`, as far as this stream goes. -/
def cancelPendingReads (s : State) : State :=
  let s :=
    if s.inReadingStreams then
      let s := stopIfActive s
      completeAll UV_ECANCELED s.readQueue s
    else s
  { s with inReadingStreams := false }

def step (s : State) : Action → Option State
  | .streamRead t rc =>
      -- `uv_read_start` fails on a closing stream.
      if t.id ∉ s.dispatched.map ReadTask.id ∧ (s.handle.state ≠ .live → rc < 0) then
        some { streamRead s t rc with dispatched := s.dispatched ++ [t] }
      else none
  | .read e =>
      if s.uvReading then
        match e, onAlloc s with
        | .data bytes, (some b, len) =>
            if bytes ≠ [] ∧ bytes.length ≤ len then
              some (onRead { s with
                memory := Function.update s.memory b (overwrite (s.memory b) bytes)
                chunks := s.chunks ++ [bytes] } bytes.length)
            else none
        | .eagain, (some _, len) => if 0 < len then some (onRead s 0) else none
        -- libuv reports an offer of no room as an error of its own.
        | .fail nread, (_, len) =>
            if nread < 0 ∧ (len = 0 → nread = UV_ENOBUFS) then some (onRead s nread) else none
        | _, (none, _) => none
      else none
  | .streamClose t => if s.handle.state = .live then some (streamClose s t) else none
  | .onSignal =>
      if s.shutdownSignaled = false then
        some (cancelPendingReads { s with shutdownSignaled := true })
      else none

/-- A stream that has just been connected. -/
def machine : Machine State Action where
  init :=
    { readQueue := [], readActive := false, inReadingStreams := false, uvReading := false
      handle := { state := .live, closeTask := none }, shutdownSignaled := false
      memory := fun _ => [], dispatched := [], completed := [], chunks := [] }
  step := step

/-! ## 3. The invariant -/

/-- What `completeAll` adds to the record. -/
def fanOut (s : State) (r : Int) (ts : List ReadTask) : List Delivery :=
  ts.map fun t => { task := t, result := r, bytes := (s.memory t.data).take r.toNat }

theorem completeAll_eq (r : Int) (ts : List ReadTask) (s : State) :
    completeAll r ts s = { s with readQueue := [], completed := s.completed ++ fanOut s r ts } := by
  induction ts generalizing s with
  | nil => simp [completeAll, fanOut]
  | cons t ts ih =>
    rw [completeAll, ih]
    simp [complete, fanOut]

theorem fanOut_task (s : State) (r : Int) (ts : List ReadTask) :
    (fanOut s r ts).map Delivery.task = ts := by
  simp [fanOut, Function.comp_def]

/-- A result that is no byte count comes without bytes. -/
theorem mem_fanOut {s : State} {r : Int} {ts : List ReadTask} (hr : r ≤ 0) {d : Delivery}
    (hd : d ∈ fanOut s r ts) : d.result ≤ 0 ∧ d.bytes = [] := by
  simp only [fanOut, List.mem_map] at hd
  rcases hd with ⟨t, _, rfl⟩
  exact ⟨hr, by simp [Int.toNat_of_nonpos hr]⟩

/-- The chunks that the completed reads have delivered, in completion order. -/
def delivered (ds : List Delivery) : List (List UInt8) :=
  (ds.filter (0 < ·.result)).map Delivery.bytes

theorem delivered_append (ds es : List Delivery) :
    delivered (ds ++ es) = delivered ds ++ delivered es := by
  simp [delivered]

theorem delivered_fanOut (s : State) {r : Int} (hr : r ≤ 0) (ts : List ReadTask) :
    delivered (fanOut s r ts) = [] := by
  have hnone : (fanOut s r ts).filter (0 < ·.result) = [] := by
    rw [List.filter_eq_nil_iff]
    intro d hd
    have h := (mem_fanOut hr hd).1
    simp only [decide_eq_true_eq]
    omega
  rw [delivered, hnone, List.map_nil]

/-- A completed read has as many bytes as its result says, and no more than it asked for. -/
def Delivery.Fits (d : Delivery) : Prop :=
  d.bytes.length = d.result.toNat ∧ d.bytes.length ≤ d.task.nbytes

/-- Reads without a positive result have delivered no bytes. -/
theorem flatMap_bytes {ds : List Delivery} (h : ∀ d ∈ ds, d.Fits) :
    ds.flatMap Delivery.bytes = (delivered ds).flatten := by
  induction ds with
  | nil => rfl
  | cons d ds ih =>
    have hd := (h d List.mem_cons_self).1
    have hds := ih fun e he => h e (List.mem_cons_of_mem d he)
    by_cases hpos : 0 < d.result
    · simp [delivered, hpos, hds]
    · have hnil : d.bytes = [] := by
        rw [← List.length_eq_zero_iff, hd]
        omega
      simp [delivered, hpos, hds, hnil]

structure Inv (s : State) : Prop where
  -- the reads complete in the order of their dispatch
  order : s.dispatched = s.completed.map Delivery.task ++ s.readQueue
  nodup : (s.dispatched.map ReadTask.id).Nodup
  -- libuv reads exactly while somebody is parked, so a chunk always finds its reader
  active : s.readActive = true ↔ s.readQueue ≠ []
  uvReading : s.uvReading = s.readActive
  inSet : s.readQueue ≠ [] → s.inReadingStreams = true
  -- the close and the sweep leave nobody behind, and later reads are answered at once
  closing : s.handle.state ≠ .live → s.readQueue = []
  shutdown : s.shutdownSignaled = true → s.readQueue = []
  fits : ∀ d ∈ s.completed, d.Fits
  chunks : delivered s.completed = s.chunks

theorem inv_init : Inv machine.init := by
  refine ⟨?_, ?_, ?_, ?_, ?_, ?_, ?_, ?_, ?_⟩ <;> simp [machine, delivered]

/-- Everybody parked is completed with the same `r ≤ 0`, and the reading has stopped. -/
theorem Inv.fanOut {s u : State} (hs : Inv s) {r : Int} (hr : r ≤ 0)
    (hq : u.readQueue = []) (hactive : u.readActive = false) (huv : u.uvReading = false)
    (hcomp : u.completed = s.completed ++ Stream.fanOut s r s.readQueue)
    (hdisp : u.dispatched = s.dispatched) (hchunks : u.chunks = s.chunks) : Inv u := by
  refine ⟨?_, ?_, ?_, ?_, ?_, fun _ => hq, fun _ => hq, ?_, ?_⟩
  · rw [hdisp, hcomp, hq, List.map_append, fanOut_task, List.append_nil]
    exact hs.order
  · rw [hdisp]
    exact hs.nodup
  · simp [hactive, hq]
  · rw [huv, hactive]
  · exact fun h => absurd hq h
  · rw [hcomp]
    intro d hd
    rcases List.mem_append.mp hd with hd | hd
    · exact hs.fits d hd
    · have h := mem_fanOut hr hd
      exact ⟨by rw [h.2, Int.toNat_of_nonpos h.1]; rfl, by rw [h.2]; exact Nat.zero_le _⟩
  · rw [hcomp, delivered_append, delivered_fanOut s hr, List.append_nil, hchunks]
    exact hs.chunks

/-- The order survives a read that is dispatched and completed at once, with `r ≤ 0`. -/
theorem Inv.answer {s : State} (hs : Inv s) {t : ReadTask} {r : Int} (hr : r ≤ 0)
    (ht : t.id ∉ s.dispatched.map ReadTask.id) (hq : s.readQueue = []) :
    Inv { complete s t r with dispatched := s.dispatched ++ [t] } := by
  have hnone :
      delivered [{ task := t, result := r, bytes := (s.memory t.data).take r.toNat }] = [] :=
    delivered_fanOut s hr [t]
  rcases hs with ⟨horder, hnodup, hactive, huv, hset, hclosing, hshut, hfits, hchunks⟩
  refine ⟨?_, ?_, hactive, huv, hset, hclosing, hshut, ?_, ?_⟩
  · simp [complete, horder, hq]
  · rw [List.map_append, List.map_singleton, ← List.concat_eq_append]
    exact hnodup.concat ht
  · intro d hd
    rcases List.mem_append.mp hd with hd | hd
    · exact hfits d hd
    · have h := mem_fanOut hr (show d ∈ Stream.fanOut s r [t] from hd)
      exact ⟨by rw [h.2, Int.toNat_of_nonpos h.1]; rfl, by rw [h.2]; exact Nat.zero_le _⟩
  · show delivered (s.completed ++ _) = s.chunks
    rw [delivered_append, hnone, List.append_nil, hchunks]

theorem streamRead_shutdown {s : State} {t : ReadTask} {rc : Int}
    (h : s.shutdownSignaled = true) : streamRead s t rc = complete s t UV_ECANCELED := by
  simp [streamRead, h]

theorem streamRead_parked {s : State} {t : ReadTask} {rc : Int} (h : s.shutdownSignaled = false)
    (hact : s.readActive = true) :
    streamRead s t rc =
      { s with readQueue := s.readQueue ++ [t], inReadingStreams := true } := by
  simp [streamRead, h, hact]

theorem streamRead_failed {s : State} {t : ReadTask} {rc : Int} (h : s.shutdownSignaled = false)
    (hact : s.readActive = false) (hq : s.readQueue = []) (hrc : rc < 0) :
    streamRead s t rc = complete s t rc := by
  simp only [streamRead, h, hact, hrc, Bool.false_eq_true, if_false, if_true, complete,
    List.dropLast_concat, hq, List.isEmpty_nil, Bool.not_true, Bool.or_false]

theorem streamRead_started {s : State} {t : ReadTask} {rc : Int} (h : s.shutdownSignaled = false)
    (hact : s.readActive = false) (hrc : ¬ rc < 0) :
    streamRead s t rc =
      { s with
        readQueue := s.readQueue ++ [t], readActive := true, uvReading := true
        inReadingStreams := true } := by
  simp [streamRead, h, hact, hrc]

theorem inv_streamRead {s : State} {t : ReadTask} {rc : Int} (hs : Inv s)
    (ht : t.id ∉ s.dispatched.map ReadTask.id) (hrc : s.handle.state ≠ .live → rc < 0) :
    Inv { streamRead s t rc with dispatched := s.dispatched ++ [t] } := by
  have hnodup : ((s.dispatched ++ [t]).map ReadTask.id).Nodup := by
    rw [List.map_append, List.map_singleton, ← List.concat_eq_append]
    exact hs.nodup.concat ht
  rcases hshut : s.shutdownSignaled with _ | _
  · rcases hact : s.readActive with _ | _
    · have hq : s.readQueue = [] := by
        by_contra hq
        rw [hs.active.mpr hq] at hact
        cases hact
      by_cases hneg : rc < 0
      · rw [streamRead_failed hshut hact hq hneg]
        exact hs.answer (by omega) ht hq
      · have hlive : s.handle.state = .live := by
          by_contra hlive
          exact hneg (hrc hlive)
        rw [streamRead_started hshut hact hneg]
        refine { hs with
          order := ?_, nodup := hnodup, active := ?_, uvReading := rfl, inSet := fun _ => rfl
          closing := fun h => absurd hlive h, shutdown := ?_ }
        · simp [hs.order, hq]
        · simp
        · exact fun h => absurd (hshut.symm.trans h) (by simp)
    · have hq := hs.active.mp hact
      have hlive : s.handle.state = .live := by
        by_contra hlive
        exact hq (hs.closing hlive)
      rw [streamRead_parked hshut hact]
      refine { hs with
        order := ?_, nodup := hnodup, active := ?_, inSet := fun _ => rfl
        closing := fun h => absurd hlive h, shutdown := ?_ }
      · simp [hs.order]
      · simp [hact]
      · exact fun h => absurd (hshut.symm.trans h) (by simp)
  · rw [streamRead_shutdown hshut]
    exact hs.answer (by decide) ht (hs.shutdown hshut)

/-- A chunk goes to the front reader, whose buffer it was read into. -/
theorem inv_onRead_data {s : State} {t : ReadTask} {ts : List ReadTask} {bytes : List UInt8}
    (hs : Inv s) (hq : s.readQueue = t :: ts) (hne : bytes ≠ []) (hlen : bytes.length ≤ t.nbytes) :
    Inv (onRead { s with
      memory := Function.update s.memory t.data (overwrite (s.memory t.data) bytes)
      chunks := s.chunks ++ [bytes] } bytes.length) := by
  have hpos : 0 < bytes.length := List.length_pos_iff.mpr hne
  have hnz : ¬ (bytes.length : Int) = 0 := by omega
  have hgt : (0 : Int) < bytes.length := by omega
  have hnew : delivered [{ task := t, result := (bytes.length : Int), bytes }] = [bytes] := by
    simp [delivered, hpos]
  have hactive := hs.active
  have hset := hs.inSet
  have hshut := hs.shutdown
  have hclosing := hs.closing
  rw [hq] at hactive hset hshut hclosing
  simp only [onRead, hnz, if_false, hq, hgt, if_true]
  by_cases hts : ts = []
  · -- the last reader: reading stops
    subst hts
    simp only [if_true, complete, readStop, Function.update_self, Int.toNat_natCast, take_overwrite]
    refine ⟨?_, hs.nodup, by simp, rfl, by simp, by simp, by simp, ?_, ?_⟩
    · rw [hs.order, hq]
      simp
    · intro d hd
      rcases List.mem_append.mp hd with hd | hd
      · exact hs.fits d hd
      · rw [List.mem_singleton.mp hd]
        exact ⟨by simp, hlen⟩
    · show delivered (s.completed ++ _) = s.chunks ++ [bytes]
      rw [delivered_append, hnew, hs.chunks]
  · simp only [hts, if_false, complete, Function.update_self, Int.toNat_natCast, take_overwrite]
    refine ⟨?_, hs.nodup, ?_, hs.uvReading, ?_, ?_, ?_, ?_, ?_⟩
    · rw [hs.order, hq]
      simp
    · exact ⟨fun _ => hts, fun _ => hactive.mpr (by simp)⟩
    · exact fun _ => hset (by simp)
    · exact fun h => absurd (hclosing h) (by simp)
    · exact fun h => absurd (hshut h) (by simp)
    · intro d hd
      rcases List.mem_append.mp hd with hd | hd
      · exact hs.fits d hd
      · rw [List.mem_singleton.mp hd]
        exact ⟨by simp, hlen⟩
    · show delivered (s.completed ++ _) = s.chunks ++ [bytes]
      rw [delivered_append, hnew, hs.chunks]

theorem inv_onRead_fail {s : State} {nread : Int} (hs : Inv s) (hneg : nread < 0) :
    Inv (onRead s nread) := by
  have hz : ¬ nread = 0 := by omega
  have hp : ¬ 0 < nread := by omega
  simp only [onRead, hz, if_false]
  split
  case h_1 hq =>
    refine hs.fanOut (r := 0) (by omega) ?_ rfl rfl ?_ rfl rfl
    · exact hq
    · simp [hq, readStop, fanOut]
  case h_2 t ts hq =>
    simp only [hp, if_false]
    rw [completeAll_eq]
    refine hs.fanOut (r := if nread = UV_EOF then 0 else nread) ?_ rfl rfl rfl rfl rfl rfl
    split <;> omega

theorem stopIfActive_eq (s : State) :
    stopIfActive s =
      { s with uvReading := s.uvReading && !s.readActive, readActive := false } := by
  rcases h : s.readActive with _ | _
  · simp only [stopIfActive, h, Bool.false_eq_true, if_false, Bool.not_false, Bool.and_true]
    cases s
    cases h
    rfl
  · simp [stopIfActive, h]

theorem inv_streamClose {s : State} {t : TaskId} (hs : Inv s) : Inv (streamClose s t) := by
  simp only [streamClose, stopIfActive_eq, completeAll_eq]
  exact hs.fanOut (r := UV_ECANCELED) (by decide) rfl rfl rfl rfl rfl rfl

theorem inv_cancelPendingReads {s : State} (hs : Inv s) (signaled : Bool) :
    Inv (cancelPendingReads { s with shutdownSignaled := signaled }) := by
  rcases hin : s.inReadingStreams with _ | _
  · -- not in the set, so nobody is parked
    have hq : s.readQueue = [] := by
      by_contra hq
      rw [hs.inSet hq] at hin
      cases hin
    simp only [cancelPendingReads, Bool.false_eq_true, if_false]
    exact { hs with inSet := fun h => absurd hq h, shutdown := fun _ => hq }
  · simp only [cancelPendingReads, if_true, stopIfActive_eq, completeAll_eq]
    refine hs.fanOut (r := UV_ECANCELED) (by decide) rfl rfl ?_ rfl rfl rfl
    simp [hs.uvReading]

theorem inv_step {s u : State} {a : Action} (hs : Inv s) (h : step s a = some u) : Inv u := by
  cases a with
  | streamRead t rc =>
    simp only [step, Option.ite_none_right_eq_some, Option.some.injEq] at h
    rcases h with ⟨⟨ht, hrc⟩, rfl⟩
    exact inv_streamRead hs ht hrc
  | read e =>
    simp only [step, Option.ite_none_right_eq_some] at h
    rcases h with ⟨huv, h⟩
    -- libuv reads only while somebody is parked
    have hq : s.readQueue ≠ [] := hs.active.mp (hs.uvReading ▸ huv)
    rcases hqt : s.readQueue with _ | ⟨t, ts⟩
    · exact absurd hqt hq
    · have hoffer : onAlloc s = (some t.data, t.nbytes) := by
        rw [onAlloc, hqt]
      simp only [hoffer] at h
      cases e with
      | data bytes =>
        simp only [Option.ite_none_right_eq_some, Option.some.injEq] at h
        rcases h with ⟨⟨hne, hlen⟩, rfl⟩
        exact inv_onRead_data hs hqt hne hlen
      | eagain =>
        simp only [Option.ite_none_right_eq_some, Option.some.injEq] at h
        rcases h with ⟨_, rfl⟩
        exact hs
      | fail nread =>
        simp only [Option.ite_none_right_eq_some, Option.some.injEq] at h
        rcases h with ⟨⟨hneg, _⟩, rfl⟩
        exact inv_onRead_fail hs hneg
  | streamClose t =>
    simp only [step, Option.ite_none_right_eq_some, Option.some.injEq] at h
    rcases h with ⟨_, rfl⟩
    exact inv_streamClose hs
  | onSignal =>
    simp only [step, Option.ite_none_right_eq_some, Option.some.injEq] at h
    rcases h with ⟨_, rfl⟩
    exact inv_cancelPendingReads hs true

theorem inv_reachable {s : State} (h : machine.Reachable s) : Inv s :=
  h.invariant inv_init fun _ _ _ _ hs ht => inv_step hs ht

/-! ## 4. Integrity of the byte stream -/

/-- **Byte-stream integrity.**  In every reachable state the reads have completed in the order in
which they were dispatched, each once, and the others are parked in that order; a read completed
with `n` bytes has them in its own buffer and asked for at least `n`; and the deliveries are, in
completion order, exactly the chunks that libuv has read. -/
theorem read_on_demand {s : State} (h : machine.Reachable s) :
    s.dispatched = s.completed.map Delivery.task ++ s.readQueue ∧
      (s.dispatched.map ReadTask.id).Nodup ∧
      (∀ d ∈ s.completed, d.bytes.length = d.result.toNat ∧ d.bytes.length ≤ d.task.nbytes) ∧
      delivered s.completed = s.chunks ∧
      s.completed.flatMap Delivery.bytes = s.chunks.flatten := by
  have hs := inv_reachable h
  refine ⟨hs.order, hs.nodup, hs.fits, hs.chunks, ?_⟩
  rw [← hs.chunks]
  exact flatMap_bytes hs.fits

/-- Two readers, one of them pinned, three chunks and the end of the file. -/
def twoReaders : List Action :=
  [.streamRead ⟨1, 4, none⟩ 0, .streamRead ⟨2, 2, some 80⟩ 0, .read (.data [1, 2, 3]),
    .read .eagain, .read (.data [4, 5]), .streamRead ⟨3, 8, none⟩ 0, .read (.data [6]),
    .streamRead ⟨4, 8, none⟩ 0, .read (.fail UV_EOF), .streamClose 5]

theorem read_on_demand_twoReaders :
    ∃ s, machine.run twoReaders = some s ∧
      s.completed.flatMap Delivery.bytes = s.chunks.flatten :=
  ⟨_, rfl, (@read_on_demand _ ⟨twoReaders, rfl⟩).2.2.2.2⟩

end ChezAsync.Stream
