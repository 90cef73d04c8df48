import Mathlib.Tactic.Common
import ChezAsync.Lib.Machine
import ChezAsync.Runtime.Stream

/-!
# Readers of different sizes on one stream (`runtime.cpp`)

What makes a queued `StreamRead` complete without bytes, on the machine of `Runtime.Stream`.  A read
of libuv is offered the buffer of the front reader; an offer of no room comes back as an error of
libuv's own making, and `on_read` hands it to everybody in the queue.
-/

namespace ChezAsync.Stream

/-! ## 1. Completions and their causes -/

/-- The reads that the step from `s` to `u` has completed. -/
def answered (s u : State) : List Delivery := u.completed.drop s.completed.length

theorem answered_of_append {s u : State} {ds : List Delivery}
    (h : u.completed = s.completed ++ ds) : answered s u = ds := by
  rw [answered, h, List.drop_left]

/-- Why a read completes with an error or with the end of the file. -/
inductive Cause (s : State) : Action → Delivery → Prop
  /-- The stream reports it, having been offered room. -/
  | reported {nread d t ts} : s.readQueue = t :: ts → 0 < t.nbytes → nread < 0 →
      d.result = (if nread = UV_EOF then 0 else nread) → Cause s (.read (.fail nread)) d
  /-- The reader's own `uv_read_start` has failed. -/
  | notStarted {d t rc} : d.task = t → rc < 0 → d.result = rc → Cause s (.streamRead t rc) d
  /-- The shutdown has begun before its dispatch. -/
  | shutdown {d t rc} : d.task = t → s.shutdownSignaled = true → d.result = UV_ECANCELED →
      Cause s (.streamRead t rc) d
  | closed {d t} : d.result = UV_ECANCELED → Cause s (.streamClose t) d
  | swept {d} : d.result = UV_ECANCELED → Cause s .onSignal d

/-- The step completes nobody with an error or the end of the file without a cause. -/
def Isolated (s : State) (a : Action) : Prop :=
  ∀ u, step s a = some u → ∀ d ∈ answered s u, d.result ≤ 0 → Cause s a d

/-- The condition on the steps: libuv reads only while the reader at the front asks for some
bytes. -/
def RoomOffered (s : State) : Action → Prop
  | .read _ => ∀ t ∈ s.readQueue.head?, 0 < t.nbytes
  | _ => True

instance (s : State) (a : Action) : Decidable (RoomOffered s a) := by
  cases a <;> unfold RoomOffered <;> infer_instance

/-! ## 2. What a step completes -/

theorem answered_streamRead {s : State} (hs : Inv s) {t : ReadTask} {rc : Int} {d : Delivery}
    (hd : d ∈ answered s { streamRead s t rc with dispatched := s.dispatched ++ [t] }) :
    Cause s (.streamRead t rc) d := by
  have hone : ∀ r, answered s { complete s t r with dispatched := s.dispatched ++ [t] } =
      [{ task := t, result := r, bytes := (s.memory t.data).take r.toNat }] :=
    fun r => answered_of_append rfl
  have hnone : ∀ u : State, u.completed = s.completed → d ∉ answered s u := by
    intro u hu
    have hnil : u.completed = s.completed ++ [] := by rw [hu, List.append_nil]
    rw [answered_of_append hnil]
    exact List.not_mem_nil
  rcases hshut : s.shutdownSignaled with _ | _
  · rcases hact : s.readActive with _ | _
    · by_cases hrc : rc < 0
      · have hq : s.readQueue = [] := by
          by_contra hq
          rw [hs.active.mpr hq] at hact
          cases hact
        rw [streamRead_failed hshut hact hq hrc, hone, List.mem_singleton] at hd
        subst hd
        exact .notStarted rfl hrc rfl
      · rw [streamRead_started hshut hact hrc] at hd
        exact absurd hd (hnone _ rfl)
    · rw [streamRead_parked hshut hact] at hd
      exact absurd hd (hnone _ rfl)
  · rw [streamRead_shutdown hshut, hone, List.mem_singleton] at hd
    subst hd
    exact .shutdown rfl hshut rfl

/-- Everybody parked is completed with the same result. -/
theorem mem_fanOut_iff {s : State} {r : Int} {ts : List ReadTask} {d : Delivery}
    (hd : d ∈ fanOut s r ts) : d.result = r := by
  simp only [fanOut, List.mem_map] at hd
  rcases hd with ⟨_, _, rfl⟩
  rfl

theorem completed_onRead_fail {s : State} {t : ReadTask} {ts : List ReadTask} {nread : Int}
    (hq : s.readQueue = t :: ts) (hneg : nread < 0) :
    (onRead s nread).completed =
      s.completed ++ fanOut s (if nread = UV_EOF then 0 else nread) s.readQueue := by
  have hz : ¬ nread = 0 := by omega
  have hp : ¬ 0 < nread := by omega
  simp only [onRead, hz, hq, hp, if_false, completeAll_eq]
  rfl

theorem completed_streamClose (s : State) (t : TaskId) :
    (streamClose s t).completed = s.completed ++ fanOut s UV_ECANCELED s.readQueue := by
  simp only [streamClose, stopIfActive_eq, completeAll_eq]
  rfl

theorem completed_cancelPendingReads {s : State} (hs : Inv s) :
    (cancelPendingReads { s with shutdownSignaled := true }).completed =
      s.completed ++ fanOut s UV_ECANCELED s.readQueue := by
  rcases hin : s.inReadingStreams with _ | _
  · have hq : s.readQueue = [] := by
      by_contra hq
      rw [hs.inSet hq] at hin
      cases hin
    simp [cancelPendingReads, hq, fanOut]
  · simp only [cancelPendingReads, if_true, stopIfActive_eq, completeAll_eq]
    rfl

/-! ## 3. Isolation -/

/-- A step that libuv takes with room, or that is no read, completes nobody without a cause. -/
theorem isolated_of_roomOffered {s u : State} {a : Action} (hs : Inv s) (hC : RoomOffered s a)
    (h : step s a = some u) : ∀ d ∈ answered s u, d.result ≤ 0 → Cause s a d := by
  intro d hd hle
  cases a with
  | streamRead t rc =>
    simp only [step, Option.ite_none_right_eq_some, Option.some.injEq] at h
    rcases h with ⟨_, rfl⟩
    exact answered_streamRead hs hd
  | streamClose t =>
    simp only [step, Option.ite_none_right_eq_some, Option.some.injEq] at h
    rcases h with ⟨_, rfl⟩
    rw [answered_of_append (completed_streamClose s t)] at hd
    exact .closed (mem_fanOut_iff hd)
  | onSignal =>
    simp only [step, Option.ite_none_right_eq_some, Option.some.injEq] at h
    rcases h with ⟨_, rfl⟩
    rw [answered_of_append (completed_cancelPendingReads hs)] at hd
    exact .swept (mem_fanOut_iff hd)
  | read e =>
    simp only [step, Option.ite_none_right_eq_some] at h
    rcases h with ⟨huv, h⟩
    rcases hq : s.readQueue with _ | ⟨t, ts⟩
    · exact absurd hq (hs.active.mp (hs.uvReading ▸ huv))
    · have hoffer : onAlloc s = (some t.data, t.nbytes) := by
        rw [onAlloc, hq]
      have hroom : 0 < t.nbytes := hC t (by rw [hq]; rfl)
      simp only [hoffer] at h
      cases e with
      | data bytes =>
        -- the front reader gets bytes, so its result is positive
        simp only [Option.ite_none_right_eq_some, Option.some.injEq] at h
        rcases h with ⟨⟨hne, _⟩, rfl⟩
        have hpos : 0 < bytes.length := List.length_pos_iff.mpr hne
        have hz : ¬ (bytes.length : Int) = 0 := by omega
        have hgt : (0 : Int) < bytes.length := by omega
        have hone : (onRead { s with
            memory := Function.update s.memory t.data (overwrite (s.memory t.data) bytes)
            chunks := s.chunks ++ [bytes] } bytes.length).completed =
            s.completed ++ [{ task := t, result := (bytes.length : Int), bytes }] := by
          simp only [onRead, hz, if_false, hq, hgt, if_true]
          split <;> simp [complete, readStop]
        rw [answered_of_append hone, List.mem_singleton] at hd
        rw [hd] at hle
        exact absurd hle (by simpa using hne)
      | eagain =>
        simp only [Option.ite_none_right_eq_some, Option.some.injEq] at h
        rcases h with ⟨_, rfl⟩
        have hnil : (onRead s 0).completed = s.completed ++ [] := by simp [onRead]
        rw [answered_of_append hnil] at hd
        exact absurd hd List.not_mem_nil
      | fail nread =>
        simp only [Option.ite_none_right_eq_some, Option.some.injEq] at h
        rcases h with ⟨⟨hneg, _⟩, rfl⟩
        rw [answered_of_append (completed_onRead_fail hq hneg)] at hd
        exact .reported hq hroom hneg (mem_fanOut_iff hd)

/-- A read without room completes the front reader, and everybody behind it, without a cause. -/
theorem not_isolated_of_not_roomOffered {s u : State} {a : Action} (hs : Inv s)
    (hC : ¬ RoomOffered s a) (h : step s a = some u) : ¬ Isolated s a := by
  intro hiso
  have hcause := hiso u h
  cases a with
  | streamRead | streamClose | onSignal => exact hC trivial
  | read e =>
    simp only [step, Option.ite_none_right_eq_some] at h
    rcases h with ⟨huv, h⟩
    rcases hq : s.readQueue with _ | ⟨t, ts⟩
    · exact absurd hq (hs.active.mp (hs.uvReading ▸ huv))
    · have hoffer : onAlloc s = (some t.data, t.nbytes) := by
        rw [onAlloc, hq]
      have hzero : t.nbytes = 0 := by
        simpa [RoomOffered, hq] using hC
      simp only [hoffer, hzero] at h
      cases e with
      | data bytes =>
        simp only [Option.ite_none_right_eq_some, Nat.le_zero, List.length_eq_zero_iff] at h
        exact h.1.1 h.1.2
      | eagain => simp at h
      | fail nread =>
        simp only [Option.ite_none_right_eq_some, Option.some.injEq] at h
        rcases h with ⟨⟨hneg, _⟩, rfl⟩
        have hmem : { task := t, result := if nread = UV_EOF then 0 else nread
                      bytes := (s.memory t.data).take
                        (if nread = UV_EOF then 0 else nread).toNat } ∈ answered s (onRead s nread) := by
          rw [answered_of_append (completed_onRead_fail hq hneg), hq]
          exact List.mem_cons_self
        have hle : (if nread = UV_EOF then 0 else nread) ≤ 0 := by
          split <;> omega
        cases hcause _ hmem hle with
        | reported hq' hroom =>
          rw [hq] at hq'
          cases hq'
          omega

/-- **When readers are isolated from each other's sizes.**  Along a schedule no read completes with
an error or the end of the file but for a report of the stream, a failed start of its own, the
close or the shutdown, if and only if libuv never reads while the front reader asks for 0 bytes. -/
theorem isolated_iff {as : List Action} {s : State} (hrun : machine.run as = some s) :
    machine.Meets Isolated machine.init as ↔ machine.Meets RoomOffered machine.init as := by
  refine Machine.meets_congr (I := Inv) (fun _ _ _ hs ht => inv_step hs ht) ?_ inv_init hrun
  intro s a t hs ht
  constructor
  · intro hiso
    by_contra hC
    exact not_isolated_of_not_roomOffered hs hC ht hiso
  · intro hC u hu
    exact isolated_of_roomOffered hs hC hu

/-- Readers of several sizes; the one of size 0 is never at the front when libuv reads. -/
def zeroBehind : List Action :=
  [.streamRead ⟨1, 4, none⟩ 0, .streamRead ⟨2, 0, none⟩ 0, .read (.data [1, 2]), .streamClose 3,
    .streamRead ⟨4, 4, none⟩ (-22)]

theorem isolated_zeroBehind : machine.Meets Isolated machine.init zeroBehind :=
  (@isolated_iff zeroBehind _ rfl).mpr (by decide)

/-- A read of size 0 in front of a read of 4 bytes. -/
def zeroInFront : List Action :=
  [.streamRead ⟨1, 0, none⟩ 0, .streamRead ⟨2, 4, none⟩ 0, .read (.fail UV_ENOBUFS)]

theorem zero_length_read_fails_others :
    ∃ s, machine.run zeroInFront = some s ∧
      s.completed.map (fun d => (d.task.id, d.result)) = [(1, UV_ENOBUFS), (2, UV_ENOBUFS)] ∧
      ¬ machine.Meets Isolated machine.init zeroInFront :=
  ⟨_, rfl, rfl, fun h =>
    not_isolated_of_not_roomOffered (inv_reachable ⟨zeroInFront.take 2, rfl⟩) (by decide) rfl
      ((h.2 _ rfl).2 _ rfl).1⟩

end ChezAsync.Stream
