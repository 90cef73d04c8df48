import Mathlib.Tactic.Common
import ChezAsync.Lib.Machine
import ChezAsync.Runtime.ReadIsolation
import ChezAsync.Runtime.Streams
import ChezAsync.HighLevel.CapturedOutput

/-!
# `read-stream-to-eof` on a stream of the runtime (`io-proc.ss`, `runtime.cpp`)

The one reader of a stream, over the machine of `Runtime/Stream.lean`.  Between its reads and while
one is parked there may be callbacks of libuv, a close by another thread and the shutdown.
-/

namespace ChezAsync.StreamToEof

open Bytes (Endian)
open Composite (Completion Act Chunks ReadsWith readRound readStreamToEof)
open RunOutput (maxlen)
open ChezAsync.Stream (ReadTask Delivery delivered answered)
open ChezAsync.Streams (newReads)

/-! ## 1. The machine -/

/-- Where the loop of `read-stream-to-eof` stands. -/
inductive Pc
  | between
  | awaiting (t : TaskId)
  /-- A read has come back with `r ≤ 0`. -/
  | ended (r : Int)
  deriving DecidableEq

structure State where
  stream : Stream.State
  pc : Pc
  -- What the reader has been told so far, and the record of what has been done with the stream.
  answers : List Delivery
  history : List Stream.Action

inductive Action
  /-- `submit-stream-read`, and its dispatch. -/
  | read (t : TaskId) (rc : Int)
  /-- The await of the task returns. -/
  | resume
  | other (a : Stream.Action)

/-- The task of `io-stream-read` with its default length. -/
def task (t : TaskId) : ReadTask := { id := t, nbytes := maxlen, extData := none }

def perform (s : State) (a : Stream.Action) (pc : Pc) : Option State :=
  (Stream.step s.stream a).map fun stream => { s with stream, pc, history := s.history ++ [a] }

def step (s : State) : Action → Option State
  | .read t rc =>
      if s.pc = .between then perform s (.streamRead (task t) rc) (.awaiting t) else none
  | .resume =>
      match s.pc with
      | .awaiting t =>
          (s.stream.completed.find? (·.task.id = t)).map fun d =>
            { s with
              pc := if d.result ≤ 0 then .ended d.result else .between
              answers := s.answers ++ [d] }
      | _ => none
  -- nobody else reads
  | .other (.streamRead _ _) => none
  | .other a => perform s a s.pc

def machine : Machine State Action where
  init := { stream := Stream.machine.init, pc := .between, answers := [], history := [] }
  step := step

/-- What the accessors find in the completed task. -/
def completion (d : Delivery) : Completion :=
  { result := d.result, data := d.bytes, stdin := 0, stdout := 0, stderr := 0 }

/-! ## 2. The steps of the stream -/

/-- Completions are only ever added, reads are dispatched by `StreamRead`, and the shutdown begins
with the signal. -/
structure Grows (s u : Stream.State) (a : Stream.Action) : Prop where
  completed : ∃ ds, u.completed = s.completed ++ ds
  dispatched : u.dispatched = s.dispatched ++ newReads a
  signaled : u.shutdownSignaled = true → s.shutdownSignaled = true ∨ a = .onSignal

theorem grows {s u : Stream.State} {a : Stream.Action} (hs : Stream.Inv s)
    (h : Stream.step s a = some u) : Grows s u a := by
  by_cases ha : a = .onSignal
  · subst ha
    simp only [Stream.step, Option.ite_none_right_eq_some, Option.some.injEq] at h
    rcases h with ⟨_, rfl⟩
    refine ⟨⟨_, Stream.completed_cancelPendingReads hs⟩, ?_, fun _ => .inr rfl⟩
    unfold Stream.cancelPendingReads
    split <;> simp [Stream.stopIfActive_eq, Stream.completeAll_eq, newReads]
  · have heffect := Streams.effect_step hs ha h
    exact ⟨heffect.grows, heffect.dispatched, fun hsig => .inl (heffect.signaled ▸ hsig)⟩

/-! ## 3. The invariant -/

/-- What a read without bytes is told comes from the stream or from somebody who has ended it. -/
inductive Caused (history : List Stream.Action) (r : Int) : Prop
  | eof : r = 0 → .read (.fail UV_EOF) ∈ history → Caused history r
  | failed : r < 0 → .read (.fail r) ∈ history → Caused history r
  | notStarted {t : ReadTask} : r < 0 → .streamRead t r ∈ history → Caused history r
  | closed {t : TaskId} : r = UV_ECANCELED → .streamClose t ∈ history → Caused history r
  | shutdown : r = UV_ECANCELED → .onSignal ∈ history → Caused history r

/-- How the stream stands to its reader. -/
def Stands (s : State) : Prop :=
  match s.pc with
  | .between => s.stream.readQueue = [] ∧ s.stream.completed = s.answers ∧
      ∀ d ∈ s.answers, 0 < d.result
  | .awaiting t => (∀ d ∈ s.answers, 0 < d.result) ∧
      ((s.stream.readQueue = [task t] ∧ s.stream.completed = s.answers) ∨
        ∃ d, d.task = task t ∧ s.stream.readQueue = [] ∧ s.stream.completed = s.answers ++ [d])
  | .ended r => s.stream.readQueue = [] ∧ s.stream.completed = s.answers ∧ r ≤ 0 ∧
      ∃ ds d, s.answers = ds ++ [d] ∧ d.result = r ∧ ∀ x ∈ ds, 0 < x.result

structure Inv (s : State) : Prop where
  stream : Stream.Inv s.stream
  stands : Stands s
  sizes : ∀ t ∈ s.stream.dispatched, t.nbytes = maxlen
  caused : ∀ d ∈ s.stream.completed, d.result ≤ 0 → Caused s.history d.result
  signaled : s.stream.shutdownSignaled = true → .onSignal ∈ s.history

section
variable {s u : State}

theorem Caused.mono {h h' : List Stream.Action} {r : Int} (hsub : ∀ a ∈ h, a ∈ h')
    (hc : Caused h r) : Caused h' r := by
  cases hc with
  | eof hr ha => exact .eof hr (hsub _ ha)
  | failed hr ha => exact .failed hr (hsub _ ha)
  | notStarted hr ha => exact .notStarted hr (hsub _ ha)
  | closed hr ha => exact .closed hr (hsub _ ha)
  | shutdown hr ha => exact .shutdown hr (hsub _ ha)

theorem inv_init : Inv machine.init := by
  refine ⟨Stream.inv_init, ⟨rfl, rfl, ?_⟩, ?_, ?_, ?_⟩ <;> simp [machine, Stream.machine]

/-- What a step completes is caused by it, or by the shutdown before it. -/
theorem caused_answered (hs : Inv s) {a : Stream.Action} {v : Stream.State}
    (h : Stream.step s.stream a = some v) :
    ∀ d ∈ answered s.stream v, d.result ≤ 0 → Caused (s.history ++ [a]) d.result := by
  intro d hd hr
  have hroom : Stream.RoomOffered s.stream a := by
    cases a with
    | read e =>
      intro t ht
      have hmem : t ∈ s.stream.dispatched := by
        rw [hs.stream.order]
        exact List.mem_append_right _ (List.mem_of_mem_head? ht)
      rw [hs.sizes t hmem]
      decide
    | _ => trivial
  have hlast : a ∈ s.history ++ [a] := List.mem_append_right _ List.mem_cons_self
  cases Stream.isolated_of_roomOffered hs.stream hroom h d hd hr with
  | @reported nread _ _ _ _ _ hneg hresult =>
    split at hresult
    case isTrue heof => exact .eof hresult (heof ▸ hlast)
    case isFalse => exact .failed (hresult ▸ hneg) (hresult ▸ hlast)
  | notStarted _ hneg hresult =>
    rw [hresult]
    exact .notStarted hneg hlast
  | shutdown _ hshut hresult => exact .shutdown hresult (List.mem_append_left _ (hs.signaled hshut))
  | closed hresult => exact .closed hresult hlast
  | swept hresult => exact .shutdown hresult hlast

/-- A step of the stream keeps all but the stand, which is said for each kind of step. -/
theorem inv_perform (hs : Inv s) {a : Stream.Action} {pc : Pc} (h : perform s a pc = some u)
    (hsize : ∀ t rc, a = .streamRead t rc → t.nbytes = maxlen)
    (hstands : ∀ v, Stream.step s.stream a = some v → Stream.Inv v → Grows s.stream v a →
      Stands { s with stream := v, pc, history := s.history ++ [a] }) : Inv u := by
  obtain ⟨v, hv, rfl⟩ := Option.map_eq_some_iff.mp h
  have hinv := Stream.inv_step hs.stream hv
  have hgrows := grows hs.stream hv
  obtain ⟨ds, hds⟩ := hgrows.completed
  refine ⟨hinv, hstands v hv hinv hgrows, fun t ht => ?_, fun d hd hr => ?_, fun hsig => ?_⟩
  · rw [hgrows.dispatched] at ht
    rcases List.mem_append.mp ht with ht | ht
    · exact hs.sizes t ht
    · cases a with
      | streamRead t' rc => exact List.mem_singleton.mp ht ▸ hsize t' rc rfl
      | _ => cases ht
  · rw [hds] at hd
    rcases List.mem_append.mp hd with hd | hd
    · exact (hs.caused d hd hr).mono fun a ha => List.mem_append_left _ ha
    · refine caused_answered hs hv d ?_ hr
      rw [Stream.answered_of_append hds]
      exact hd
  · rcases hgrows.signaled hsig with h | rfl
    · exact List.mem_append_left _ (hs.signaled h)
    · exact List.mem_append_right _ List.mem_cons_self

/-- The reads that a step completes are the first of those that were parked or come with it. -/
theorem answered_queue {a : Stream.Action} {v : Stream.State} (hs : Inv s) (hv : Stream.Inv v)
    (hg : Grows s.stream v a) : ∃ ds, v.completed = s.stream.completed ++ ds ∧
      ds.map Delivery.task ++ v.readQueue = s.stream.readQueue ++ newReads a := by
  obtain ⟨ds, hds⟩ := hg.completed
  refine ⟨ds, hds, ?_⟩
  have horder := hv.order
  rw [hg.dispatched, hs.stream.order, hds, List.map_append, List.append_assoc,
    List.append_assoc] at horder
  exact (List.append_cancel_left horder).symm

/-- One read, parked or completed. -/
theorem parked_or_completed {t : ReadTask} {ds : List Delivery} {q : List ReadTask}
    (h : ds.map Delivery.task ++ q = [t]) :
    (ds = [] ∧ q = [t]) ∨ ∃ d, d.task = t ∧ ds = [d] ∧ q = [] := by
  cases ds with
  | nil => exact .inl ⟨rfl, h⟩
  | cons d ds =>
    simp only [List.map_cons, List.cons_append, List.cons.injEq, List.append_eq_nil_iff,
      List.map_eq_nil_iff] at h
    exact .inr ⟨d, h.1, by rw [h.2.1], h.2.2⟩

theorem nothing_parked {ds : List Delivery} {q : List ReadTask}
    (h : ds.map Delivery.task ++ q = []) : ds = [] ∧ q = [] := by
  obtain ⟨hds, hq⟩ := List.append_eq_nil_iff.mp h
  exact ⟨List.map_eq_nil_iff.mp hds, hq⟩

theorem inv_read (hs : Inv s) {t : TaskId} {rc : Int} (hpc : s.pc = .between)
    (h : perform s (.streamRead (task t) rc) (.awaiting t) = some u) : Inv u := by
  refine inv_perform hs h (fun t' rc' heq => by cases heq; rfl) fun v hv hinv hg => ?_
  have hstands := hs.stands
  rw [Stands, hpc] at hstands
  obtain ⟨hq, hcompleted, hpos⟩ := hstands
  obtain ⟨ds, hds, hqueue⟩ := answered_queue hs hinv hg
  rw [hq, List.nil_append] at hqueue
  refine ⟨hpos, ?_⟩
  rcases parked_or_completed hqueue with ⟨rfl, hq'⟩ | ⟨d, hd, rfl, hq'⟩
  · exact .inl ⟨hq', by rw [hds, List.append_nil, hcompleted]⟩
  · exact .inr ⟨d, hd, hq', by rw [hds, hcompleted]⟩

theorem inv_other (hs : Inv s) {a : Stream.Action} (ha : ∀ t rc, a ≠ .streamRead t rc)
    (h : perform s a s.pc = some u) : Inv u := by
  refine inv_perform hs h (fun t rc heq => absurd heq (ha t rc)) fun v hv hinv hg => ?_
  obtain ⟨ds, hds, hqueue⟩ := answered_queue hs hinv hg
  have hqueue : ds.map Delivery.task ++ v.readQueue = s.stream.readQueue := by
    rw [hqueue]
    cases a with
    | streamRead t rc => exact absurd rfl (ha t rc)
    | _ => exact List.append_nil _
  have hstands := hs.stands
  -- without a parked read nothing is completed
  have hsame : s.stream.readQueue = [] → v.readQueue = [] ∧ v.completed = s.stream.completed := by
    intro hq
    rw [hq] at hqueue
    obtain ⟨rfl, hq'⟩ := nothing_parked hqueue
    exact ⟨hq', by rw [hds, List.append_nil]⟩
  unfold Stands at hstands ⊢
  cases hpc : s.pc with
  | between =>
    simp only [hpc] at hstands ⊢
    obtain ⟨hq, hcompleted, hpos⟩ := hstands
    obtain ⟨hq', hv'⟩ := hsame hq
    exact ⟨hq', hv'.trans hcompleted, hpos⟩
  | ended r =>
    simp only [hpc] at hstands ⊢
    obtain ⟨hq, hcompleted, hrest⟩ := hstands
    obtain ⟨hq', hv'⟩ := hsame hq
    exact ⟨hq', hv'.trans hcompleted, hrest⟩
  | awaiting t =>
    simp only [hpc] at hstands ⊢
    obtain ⟨hpos, ⟨hq, hcompleted⟩ | ⟨d, hd, hq, hcompleted⟩⟩ := hstands
    · rw [hq] at hqueue
      refine ⟨hpos, ?_⟩
      rcases parked_or_completed hqueue with ⟨rfl, hq'⟩ | ⟨d, hd, rfl, hq'⟩
      · exact .inl ⟨hq', by rw [hds, List.append_nil, hcompleted]⟩
      · exact .inr ⟨d, hd, hq', by rw [hds, hcompleted]⟩
    · obtain ⟨hq', hv'⟩ := hsame hq
      exact ⟨hpos, .inr ⟨d, hd, hq', hv'.trans hcompleted⟩⟩

/-- The await returns the completion of its own read. -/
theorem find_answer (hs : Stream.Inv s.stream) {t : TaskId} {d : Delivery}
    {ds : List Delivery} (hcompleted : s.stream.completed = ds ++ [d]) (hd : d.task = task t) :
    s.stream.completed.find? (·.task.id = t) = some d := by
  have hnodup := hs.nodup
  rw [hs.order, hcompleted] at hnodup
  simp only [List.map_append, List.append_assoc, List.map_cons, hd] at hnodup
  have hnone : ds.find? (·.task.id = t) = none := by
    rw [List.find?_eq_none]
    intro x hx heq
    have hmem : t ∈ (ds.map Delivery.task).map ReadTask.id := by
      rw [List.map_map]
      exact List.mem_map.mpr ⟨x, hx, of_decide_eq_true heq⟩
    exact (List.nodup_append.mp hnodup).2.2 t hmem t (by simp [task]) rfl
  rw [hcompleted, List.find?_append, hnone, Option.none_or, List.find?_singleton, hd]
  simp [task]

theorem resume_cases (hs : Inv s) (h : step s .resume = some u) :
    ∃ t d, s.pc = .awaiting t ∧ d.task = task t ∧ s.stream.readQueue = [] ∧
      s.stream.completed = s.answers ++ [d] ∧
      u = { s with
        pc := if d.result ≤ 0 then .ended d.result else .between
        answers := s.answers ++ [d] } := by
  simp only [step] at h
  split at h
  case h_2 => cases h
  case h_1 t hpc =>
    obtain ⟨d, hfind, rfl⟩ := Option.map_eq_some_iff.mp h
    have hstands := hs.stands
    unfold Stands at hstands
    simp only [hpc] at hstands
    obtain ⟨-, ⟨hq, hcompleted⟩ | ⟨d', hd', hq, hcompleted⟩⟩ := hstands
    · -- a parked read has no completion
      have hmem := List.mem_of_find?_eq_some hfind
      have hid := List.find?_some hfind
      have hnodup := hs.stream.nodup
      rw [hs.stream.order, hq, List.map_append] at hnodup
      have hin : t ∈ (s.stream.completed.map Delivery.task).map ReadTask.id := by
        rw [List.map_map]
        exact List.mem_map.mpr ⟨d, hmem, of_decide_eq_true hid⟩
      exact absurd rfl ((List.nodup_append.mp hnodup).2.2 t hin t (by simp [task]))
    · rw [find_answer hs.stream hcompleted hd'] at hfind
      cases hfind
      exact ⟨t, d, hpc, hd', hq, hcompleted, rfl⟩

theorem inv_resume (hs : Inv s) (h : step s .resume = some u) : Inv u := by
  obtain ⟨t, d, hpc, hd, hq, hcompleted, rfl⟩ := resume_cases hs h
  have hstands := hs.stands
  unfold Stands at hstands
  simp only [hpc] at hstands
  have hpos := hstands.1
  refine ⟨hs.stream, ?_, hs.sizes, hs.caused, hs.signaled⟩
  unfold Stands
  by_cases hr : d.result ≤ 0
  · simp only [hr, if_true]
    exact ⟨hq, hcompleted, trivial, s.answers, d, rfl, rfl, hpos⟩
  · simp only [hr, if_false]
    refine ⟨hq, hcompleted, fun x hx => ?_⟩
    rcases List.mem_append.mp hx with hx | hx
    · exact hpos x hx
    · rw [List.mem_singleton.mp hx]
      omega

theorem inv_step {x : Action} (hs : Inv s) (h : step s x = some u) : Inv u := by
  cases x with
  | read t rc =>
    simp only [step, Option.ite_none_right_eq_some] at h
    exact inv_read hs h.1 h.2
  | resume => exact inv_resume hs h
  | other a =>
    cases a with
    | streamRead t rc => cases h
    | read e => exact inv_other hs (fun _ _ => Stream.Action.noConfusion) h
    | streamClose t => exact inv_other hs (fun _ _ => Stream.Action.noConfusion) h
    | onSignal => exact inv_other hs (fun _ _ => Stream.Action.noConfusion) h

theorem inv_reachable (h : machine.Reachable s) : Inv s :=
  h.invariant inv_init fun _ _ _ _ hs ht => inv_step hs ht

end

/-! ## 4. What the reader returns -/

section
variable {who : String} {t : Transfer.Task} {read : Act (Option (List UInt8))}

end

section
variable (e : Endian) (junk : Nat → UInt8) (stream : Nat)

end

/-- A read that has come back with bytes brings one chunk. -/
theorem completion_chunk {d : Delivery} (hfits : d.Fits) (hpos : 0 < d.result) :
    completion d = Completion.chunk d.bytes := by
  have hlen : (d.bytes.length : Int) = d.result := by
    rw [hfits.1]
    omega
  simp [completion, Completion.chunk, hlen]

theorem completion_of {d : Delivery} (hfits : d.Fits) (hr : d.result ≤ 0) :
    completion d = Completion.of d.result := by
  have hnil : d.bytes = [] := by
    rw [← List.length_eq_zero_iff, hfits.1]
    omega
  simp [completion, Completion.of, hnil]

section
variable {s : State}

/-- The answers with bytes are chunks of the reader's size. -/
theorem Inv.chunks (hs : Inv s) {ds : List Delivery} (hsub : ∀ d ∈ ds, d ∈ s.stream.completed)
    (hpos : ∀ d ∈ ds, 0 < d.result) :
    ds.map completion = (ds.map Delivery.bytes).map Completion.chunk ∧
      ∀ c ∈ ds.map Delivery.bytes, c ≠ [] ∧ c.length ≤ maxlen := by
  constructor
  · rw [List.map_map]
    exact List.map_congr_left fun d hd =>
      completion_chunk (hs.stream.fits d (hsub d hd)) (hpos d hd)
  · intro c hc
    obtain ⟨d, hd, rfl⟩ := List.mem_map.mp hc
    obtain ⟨hlen, hle⟩ := hs.stream.fits d (hsub d hd)
    have hp := hpos d hd
    have htask : d.task ∈ s.stream.dispatched := by
      rw [hs.stream.order]
      exact List.mem_append_left _ (List.mem_map_of_mem (hsub d hd))
    rw [hs.sizes d.task htask] at hle
    refine ⟨fun hnil => ?_, hle⟩
    rw [hnil, List.length_nil] at hlen
    omega

/-- The answers with bytes are what libuv has read. -/
theorem delivered_of_pos {ds : List Delivery} (hpos : ∀ d ∈ ds, 0 < d.result) :
    delivered ds = ds.map Delivery.bytes := by
  rw [delivered, List.filter_eq_self.mpr fun d hd => decide_eq_true (hpos d hd)]

/-- The end that the stream has come to, as the reader sees it. -/
theorem Inv.ended (hs : Inv s) {r : Int} (hpc : s.pc = .ended r) :
    ∃ cs, (∀ c ∈ cs, c ≠ [] ∧ c.length ≤ maxlen) ∧
      s.answers.map completion = cs.map Completion.chunk ++ [Completion.of r] ∧
      s.stream.chunks = cs ∧ r ≤ 0 ∧ Caused s.history r := by
  have hstands := hs.stands
  unfold Stands at hstands
  simp only [hpc] at hstands
  obtain ⟨-, hcompleted, hr, ds, d, hans, rfl, hpos⟩ := hstands
  have hsub : ∀ x ∈ ds, x ∈ s.stream.completed := by
    intro x hx
    rw [hcompleted, hans]
    exact List.mem_append_left _ hx
  have hd : d ∈ s.stream.completed := by
    rw [hcompleted, hans]
    exact List.mem_append_right _ List.mem_cons_self
  obtain ⟨hmap, hcs⟩ := hs.chunks hsub hpos
  refine ⟨ds.map Delivery.bytes, hcs, ?_, ?_, hr, hs.caused d hd hr⟩
  · rw [hans, List.map_append, hmap, List.map_singleton, completion_of (hs.stream.fits d hd) hr]
  · have hnone : delivered [d] = [] := by simp [delivered, hr]
    rw [← hs.stream.chunks, hcompleted, hans, Stream.delivered_append, hnone, List.append_nil,
      delivered_of_pos hpos]

/-- Before the end the reader has been told chunks only. -/
theorem Inv.before (hs : Inv s) (hpc : ∀ r, s.pc ≠ .ended r) :
    (∀ d ∈ s.answers, 0 < d.result) ∧ ∀ d ∈ s.answers, d ∈ s.stream.completed := by
  have hstands := hs.stands
  unfold Stands at hstands
  cases hat : s.pc with
  | ended r => exact absurd hat (hpc r)
  | between =>
    simp only [hat] at hstands
    obtain ⟨-, hcompleted, hpos⟩ := hstands
    exact ⟨hpos, fun d hd => hcompleted ▸ hd⟩
  | awaiting t =>
    simp only [hat] at hstands
    obtain ⟨hpos, ⟨-, hcompleted⟩ | ⟨d, -, -, hcompleted⟩⟩ := hstands
    · exact ⟨hpos, fun d hd => hcompleted ▸ hd⟩
    · exact ⟨hpos, fun x hx => hcompleted ▸ List.mem_append_left _ hx⟩

/-- While it awaits a read, that has come back or libuv reads for it. -/
theorem Inv.awaits (hs : Inv s) {t : TaskId} (hpc : s.pc = .awaiting t) :
    (∃ u, step s .resume = some u) ∨
      s.stream.uvReading = true ∧ s.stream.readQueue = [task t] := by
  have hstands := hs.stands
  unfold Stands at hstands
  simp only [hpc] at hstands
  obtain ⟨-, ⟨hq, -⟩ | ⟨d, hd, -, hcompleted⟩⟩ := hstands
  · refine .inr ⟨?_, hq⟩
    rw [hs.stream.uvReading]
    exact hs.stream.active.mpr (by simp [hq])
  · left
    simp only [step, hpc, find_answer hs.stream hcompleted hd]
    exact ⟨_, rfl⟩

end

end ChezAsync.StreamToEof
