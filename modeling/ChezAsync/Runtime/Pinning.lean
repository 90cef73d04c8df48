import ChezAsync.Lib.Relocation
import ChezAsync.Lib.Simulation
import ChezAsync.Runtime.Task

/-!
# Pinned bytevectors under the collector (`rt_ffi.cpp`, `runtime.cpp`, `task.hpp`)

A read or write with `!` gives libuv a pointer into the caller's bytevector.  Until the task is
freed the bytevector is locked, and meanwhile the Scheme threads go on: they read and write
bytevectors, make new ones, and the collector moves and reclaims them.  The machine of section 1
works on addresses, as the code does.  That of section 2 knows bytevectors only by what they are and
has no addresses; section 3 shows that the first one is the second one.
-/

namespace ChezAsync.Pinning

open Relocation
open Bytes (slice overlay)

abbrev Obj := Nat

/-! ## 1. The runtime and the collector -/

/-- The fields of a pinned task; `pinnedObj` and `extData` are addresses. -/
structure Task where
  pinnedObj : Nat
  extData : Nat
  nbytes : Nat
  done : Bool
  deriving DecidableEq, Inhabited

/-- What libuv keeps of an operation until it completes. -/
structure UvBuf where
  base : Nat
  len : Nat
  deriving DecidableEq

structure State where
  heap : Heap Obj UInt8
  /-- The locked objects, each as often as it is locked. -/
  locked : List Obj
  /-- The tasks that have been made and not been freed. -/
  handles : List TaskId
  task : TaskId → Task
  bufs : TaskId → Option UvBuf

def State.init : State where
  heap := { mem := fun _ => 0, live := [], base := fun _ => 0, size := fun _ => 0 }
  locked := []
  handles := []
  task := fun _ => default
  bufs := fun _ => none

inductive Action
  /-- `make-bytevector`, at an address that the allocator chooses. -/
  | alloc (o : Obj) (a : Nat) (bs : List UInt8)
  | store (o : Obj) (i : Nat) (b : UInt8)
  | load (o : Obj) (i n : Nat)
  /-- A collection keeps some of the objects and gives each of them a new address. -/
  | collect (keep : Obj → Bool) (base : Obj → Nat) (rest : Nat → UInt8)
  /-- `rt_fs_read_pinned` and the other three. -/
  | submit (t : TaskId) (o : Obj) (start nbytes : Nat)
  /-- libuv is given the buffer of the task. -/
  | dispatch (t : TaskId)
  /-- Bytes that have been read arrive in the buffer. -/
  | fill (t : TaskId) (k : Nat) (bs : List UInt8)
  /-- Bytes to be written are taken from the buffer. -/
  | take (t : TaskId) (k n : Nat)
  | complete (t : TaskId)
  | free (t : TaskId)

/-- What comes out of the bytevectors: to the program and to the world. -/
inductive Event
  | loaded (bs : List UInt8)
  | taken (t : TaskId) (bs : List UInt8)
  deriving DecidableEq

section
variable (header : Nat)

/-- `new_pinned_task`: `Slock_object`, `pinned_obj` and `&Sbytevector_u8_ref(bv, start)`. -/
def newPinnedTask (s : State) (t : TaskId) (o : Obj) (start nbytes : Nat) : State :=
  { s with
    locked := o :: s.locked
    handles := t :: s.handles
    task := Function.update s.task t
      { pinnedObj := s.heap.base o, extData := s.heap.data header o + start, nbytes
        done := false } }

/-- `Sunlock_object` of the object that begins at an address. -/
def unlockObject (s : State) (a : Nat) : State :=
  match s.heap.objectAt a with
  | some o => { s with locked := s.locked.erase o }
  | none => s

/-- `rt_task_free` -/
def rtTaskFree (s : State) (t : TaskId) : State :=
  { unlockObject s (s.task t).pinnedObj with handles := s.handles.erase t }

/-- `uv_buf_init(task_data(t), t->nbytes)` -/
def taskData (t : Task) : UvBuf := { base := t.extData, len := t.nbytes }

def complete (s : State) (t : TaskId) : State :=
  { s with
    task := Function.update s.task t { s.task t with done := true }
    bufs := Function.update s.bufs t none }

def step (s : State) : Action → Option State
  | .alloc o a bs =>
    if o ∉ s.heap.live ∧ (s.heap.allocate header o a bs).Apart header then
      some { s with heap := s.heap.allocate header o a bs }
    else none
  | .store o i b =>
    if o ∈ s.heap.live ∧ i < s.heap.size o then
      some { s with heap := s.heap.write (s.heap.data header o + i) [b] }
    else none
  | .load o i n => if o ∈ s.heap.live ∧ i + n ≤ s.heap.size o then some s else none
  | .collect keep base rest =>
    -- a locked object is kept where it is
    if (∀ o ∈ s.locked, keep o = true ∧ base o = s.heap.base o) ∧
        (s.heap.relocate header keep base rest).Apart header then
      some { s with heap := s.heap.relocate header keep base rest }
    else none
  | .submit t o start nbytes =>
    if o ∈ s.heap.live ∧ t ∉ s.handles then some (newPinnedTask header s t o start nbytes) else none
  | .dispatch t =>
    if t ∈ s.handles ∧ (s.task t).done = false ∧ s.bufs t = none then
      some { s with bufs := Function.update s.bufs t (some (taskData (s.task t))) }
    else none
  | .fill t k bs =>
    match s.bufs t with
    | some b =>
      if k + bs.length ≤ b.len then some { s with heap := s.heap.write (b.base + k) bs } else none
    | none => none
  | .take t k n =>
    match s.bufs t with
    | some b => if k + n ≤ b.len then some s else none
    | none => none
  | .complete t =>
    if t ∈ s.handles ∧ (s.task t).done = false then some (complete s t) else none
  | .free t => if t ∈ s.handles then some (rtTaskFree s t) else none

def out (s : State) : Action → List Event
  | .load o i n => [.loaded (peek s.heap.mem (s.heap.data header o + i) n)]
  | .take t k n => (s.bufs t).toList.map fun b => .taken t (peek s.heap.mem (b.base + k) n)
  | _ => []

@[reducible] def machine : Machine State Action := ⟨.init, step header⟩

end

/-- What the callers see to: a stretch of the bytevector is submitted, and a task is freed once it
has completed. -/
def Proper (s : State) : Action → Prop
  | .submit _ o start nbytes => start + nbytes ≤ s.heap.size o
  | .free t => (s.task t).done = true
  | _ => True

instance (s : State) (a : Action) : Decidable (Proper s a) := by
  cases a <;> unfold Proper <;> infer_instance

/-! ## 2. Bytevectors without addresses -/

namespace Objects

inductive Phase
  | queued
  | inFlight
  | done
  deriving DecidableEq

/-- An operation on a stretch of a bytevector. -/
structure Task where
  obj : Obj
  start : Nat
  nbytes : Nat
  phase : Phase
  deriving DecidableEq

structure State where
  /-- What each live bytevector holds. -/
  contents : Obj → Option (List UInt8)
  handles : List TaskId
  task : TaskId → Task

inductive Action
  | alloc (o : Obj) (bs : List UInt8)
  | store (o : Obj) (i : Nat) (b : UInt8)
  | load (o : Obj) (i n : Nat)
  | reclaim (keep : Obj → Bool)
  | submit (t : TaskId) (o : Obj) (start nbytes : Nat)
  | dispatch (t : TaskId)
  | fill (t : TaskId) (k : Nat) (bs : List UInt8)
  | take (t : TaskId) (k n : Nat)
  | complete (t : TaskId)
  | free (t : TaskId)

def State.init : State where
  contents := fun _ => none
  handles := []
  task := fun _ => ⟨0, 0, 0, .queued⟩

def State.write (s : State) (o : Obj) (i : Nat) (bs : List UInt8) : Option State := do
  let c ← s.contents o
  if i + bs.length ≤ c.length then
    some { s with contents := Function.update s.contents o (some (overlay c i bs)) }
  else none

def State.read (s : State) (o : Obj) (i n : Nat) : Option (List UInt8) :=
  (s.contents o).bind fun c => Bytes.readAt c i n

def State.setPhase (s : State) (t : TaskId) (phase : Phase) : State :=
  { s with task := Function.update s.task t { s.task t with phase } }

@[simp] theorem setPhase_self (s : State) (t : TaskId) (phase : Phase) :
    (s.setPhase t phase).task t = { s.task t with phase } := Function.update_self ..

theorem setPhase_of_ne (s : State) {t t' : TaskId} (h : t' ≠ t) (phase : Phase) :
    (s.setPhase t phase).task t' = s.task t' := Function.update_of_ne h ..

def step (s : State) : Action → Option State
  | .alloc o bs =>
    if s.contents o = none then
      some { s with contents := Function.update s.contents o (some bs) }
    else none
  | .store o i b => s.write o i [b]
  | .load o i n => (s.read o i n).map fun _ => s
  | .reclaim keep =>
    -- no operation loses its bytevector
    if ∀ t ∈ s.handles, keep (s.task t).obj = true then
      some { s with contents := fun o => if keep o then s.contents o else none }
    else none
  | .submit t o start nbytes =>
    if s.read o start nbytes ≠ none ∧ t ∉ s.handles then
      some { s with
        handles := t :: s.handles
        task := Function.update s.task t ⟨o, start, nbytes, .queued⟩ }
    else none
  | .dispatch t =>
    if t ∈ s.handles ∧ (s.task t).phase = .queued then some (s.setPhase t .inFlight) else none
  | .fill t k bs =>
    if t ∈ s.handles ∧ (s.task t).phase = .inFlight ∧ k + bs.length ≤ (s.task t).nbytes then
      s.write (s.task t).obj ((s.task t).start + k) bs
    else none
  | .take t k n =>
    if t ∈ s.handles ∧ (s.task t).phase = .inFlight ∧ k + n ≤ (s.task t).nbytes then
      (s.read (s.task t).obj ((s.task t).start + k) n).map fun _ => s
    else none
  | .complete t =>
    if t ∈ s.handles ∧ (s.task t).phase ≠ .done then some (s.setPhase t .done) else none
  | .free t =>
    if t ∈ s.handles ∧ (s.task t).phase = .done then
      some { s with handles := s.handles.erase t }
    else none

def out (s : State) : Action → List Event
  | .load o i n => (s.read o i n).toList.map .loaded
  | .take t k n => (s.read (s.task t).obj ((s.task t).start + k) n).toList.map (.taken t)
  | _ => []

@[reducible] def machine : Machine State Action := ⟨.init, step⟩

end Objects

/-- The action without its addresses. -/
def Action.erase : Action → Objects.Action
  | .alloc o _ bs => .alloc o bs
  | .store o i b => .store o i b
  | .load o i n => .load o i n
  | .collect keep _ _ => .reclaim keep
  | .submit t o start nbytes => .submit t o start nbytes
  | .dispatch t => .dispatch t
  | .fill t k bs => .fill t k bs
  | .take t k n => .take t k n
  | .complete t => .complete t
  | .free t => .free t

/-! ## 3. The first machine is the second one -/

section
variable (header : Nat)

/-- The addresses of a task are those of a stretch of a live bytevector. -/
structure Points (h : Heap Obj UInt8) (x : Task) (y : Objects.Task) : Prop where
  live : y.obj ∈ h.live
  obj : x.pinnedObj = h.base y.obj
  data : x.extData = h.data header y.obj + y.start
  nbytes : x.nbytes = y.nbytes
  inside : y.start + y.nbytes ≤ h.size y.obj
  done : x.done = true ↔ y.phase = .done

structure Shows (s : State) (v : Objects.State) : Prop where
  apart : s.heap.Apart header
  contents : ∀ o, v.contents o = if o ∈ s.heap.live then some (s.heap.contents header o) else none
  handles : v.handles = s.handles
  nodup : s.handles.Nodup
  points : ∀ t ∈ s.handles, Points header s.heap (s.task t) (v.task t)
  bufs : ∀ t, s.bufs t =
    if t ∈ s.handles ∧ (v.task t).phase = .inFlight then some (taskData (s.task t)) else none
  locked : s.locked.Perm (s.handles.map fun t => (v.task t).obj)

variable {header} {s : State} {v : Objects.State} {o : Obj} {t : TaskId}

theorem shows_init : Shows header .init .init where
  apart := fun _ ho => absurd ho List.not_mem_nil
  contents := fun _ => rfl
  handles := rfl
  nodup := List.nodup_nil
  points := fun _ ht => absurd ht List.not_mem_nil
  bufs := fun _ => rfl
  locked := List.Perm.refl _

theorem Shows.contents_live (h : Shows header s v) (ho : o ∈ s.heap.live) :
    v.contents o = some (s.heap.contents header o) := by
  rw [h.contents, if_pos ho]

/-- A read of a live bytevector, by name and by address. -/
theorem Shows.read (h : Shows header s v) (ho : o ∈ s.heap.live) {i n : Nat}
    (hle : i + n ≤ s.heap.size o) :
    v.read o i n = some (peek s.heap.mem (s.heap.data header o + i) n) := by
  have hlen : i + n ≤ (s.heap.contents header o).length := by rwa [Heap.length_contents]
  rw [Objects.State.read, h.contents_live ho, Option.bind_some, Bytes.readAt_eq hlen,
    Heap.contents, slice_peek hle]

/-- A buffer that libuv holds is a stretch of the bytevector of an unfinished task. -/
theorem Shows.buf (h : Shows header s v) {b : UvBuf} (hb : s.bufs t = some b) :
    t ∈ s.handles ∧ (v.task t).phase = .inFlight ∧ b = taskData (s.task t) := by
  rw [h.bufs] at hb
  split at hb
  · rename_i hcond
    exact ⟨hcond.1, hcond.2, (Option.some.inj hb).symm⟩
  · cases hb

/-! ### The bytevectors change -/

/-- Another heap, in which the bytevectors of the tasks are still where they were. -/
theorem Shows.heap (h : Shows header s v) {heap : Heap Obj UInt8}
    {contents : Obj → Option (List UInt8)} (hapart : heap.Apart header)
    (hcontents : ∀ o, contents o = if o ∈ heap.live then some (heap.contents header o) else none)
    (hstay : ∀ t ∈ s.handles, (v.task t).obj ∈ heap.live ∧
      heap.base (v.task t).obj = s.heap.base (v.task t).obj ∧
      heap.size (v.task t).obj = s.heap.size (v.task t).obj) :
    Shows header { s with heap } { v with contents } where
  apart := hapart
  contents := hcontents
  handles := h.handles
  nodup := h.nodup
  points := by
    intro t ht
    have hp := h.points t ht
    obtain ⟨hlive, hbase, hsize⟩ := hstay t ht
    refine ⟨hlive, hp.obj.trans hbase.symm, ?_, hp.nbytes, ?_, hp.done⟩
    · rw [hp.data, Heap.data, Heap.data]
      simp only [hbase]
    · simp only [hsize]
      exact hp.inside
  bufs := h.bufs
  locked := h.locked

/-- A write into a live bytevector, by name and by address. -/
theorem Shows.write (h : Shows header s v) (ho : o ∈ s.heap.live) {i : Nat} {bs : List UInt8}
    (hle : i + bs.length ≤ s.heap.size o) :
    ∃ w, v.write o i bs = some w ∧
      Shows header { s with heap := s.heap.write (s.heap.data header o + i) bs } w := by
  have hlen : i + bs.length ≤ (s.heap.contents header o).length := by rwa [Heap.length_contents]
  refine ⟨{ v with
    contents := Function.update v.contents o (some (overlay (s.heap.contents header o) i bs)) },
    ?_, ?_⟩
  · simp only [Objects.State.write, h.contents_live ho, Option.bind_eq_bind, Option.bind_some,
      if_pos hlen]
  · refine h.heap h.apart (fun p => ?_) fun t ht => ⟨(h.points t ht).live, rfl, rfl⟩
    by_cases hpo : p = o
    · subst hpo
      rw [Function.update_self, Heap.contents_write_self hle]
      exact (if_pos ho).symm
    · rw [Function.update_of_ne hpo, h.contents]
      by_cases hp : p ∈ s.heap.live
      · rw [if_pos hp, Heap.contents_write_other h.apart ho hp hpo hle]
        exact (if_pos hp).symm
      · rw [if_neg hp]
        exact (if_neg hp).symm

theorem shows_alloc (h : Shows header s v) {a : Nat} {bs : List UInt8} (ho : o ∉ s.heap.live)
    (hapart : (s.heap.allocate header o a bs).Apart header) :
    Shows header { s with heap := s.heap.allocate header o a bs }
      { v with contents := Function.update v.contents o (some bs) } := by
  apply h.heap hapart
  · intro p
    by_cases hpo : p = o
    · subst hpo
      rw [Function.update_self, if_pos (Heap.mem_live_allocate.mpr (Or.inl rfl)),
        Heap.contents_allocate_self]
    · rw [Function.update_of_ne hpo, h.contents]
      by_cases hp : p ∈ s.heap.live
      · rw [if_pos hp, if_pos (Heap.mem_live_allocate.mpr (Or.inr hp)),
          Heap.contents_allocate_other hp hpo hapart]
      · rw [if_neg hp, if_neg fun hmem => (Heap.mem_live_allocate.mp hmem).elim hpo hp]
  · intro t ht
    have hlive := (h.points t ht).live
    have hne : (v.task t).obj ≠ o := fun heq => ho (heq ▸ hlive)
    exact ⟨Heap.mem_live_allocate.mpr (Or.inr hlive), Function.update_of_ne hne ..,
      Function.update_of_ne hne ..⟩

theorem shows_collect (h : Shows header s v) {keep : Obj → Bool} {base : Obj → Nat}
    {rest : Nat → UInt8} (hlocked : ∀ o ∈ s.locked, keep o = true ∧ base o = s.heap.base o)
    (hapart : (s.heap.relocate header keep base rest).Apart header) :
    (∀ t ∈ s.handles, keep (v.task t).obj = true) ∧
      Shows header { s with heap := s.heap.relocate header keep base rest }
        { v with contents := fun o => if keep o then v.contents o else none } := by
  -- the bytevector of a task is locked
  have hpinned : ∀ t ∈ s.handles, (v.task t).obj ∈ s.locked := by
    intro t ht
    exact h.locked.symm.subset (List.mem_map_of_mem ht)
  refine ⟨fun t ht => (hlocked _ (hpinned t ht)).1, h.heap hapart (fun p => ?_) fun t ht => ?_⟩
  · rw [h.contents]
    by_cases hk : keep p = true
    · by_cases hp : p ∈ s.heap.live
      · rw [if_pos hk, if_pos hp, if_pos (Heap.mem_live_relocate.mpr ⟨hp, hk⟩),
          Heap.contents_relocate hapart hp hk]
      · rw [if_pos hk, if_neg hp, if_neg fun hmem => hp (Heap.mem_live_relocate.mp hmem).1]
    · rw [if_neg hk, if_neg fun hmem => hk (Heap.mem_live_relocate.mp hmem).2]
  · have hkeep := hlocked _ (hpinned t ht)
    exact ⟨Heap.mem_live_relocate.mpr ⟨(h.points t ht).live, hkeep.1⟩, hkeep.2, rfl⟩

/-! ### The tasks change -/

theorem shows_submit (h : Shows header s v) {start nbytes : Nat} (ho : o ∈ s.heap.live)
    (ht : t ∉ s.handles) (hle : start + nbytes ≤ s.heap.size o) :
    Shows header (newPinnedTask header s t o start nbytes)
      { v with
        handles := t :: v.handles
        task := Function.update v.task t ⟨o, start, nbytes, .queued⟩ } := by
  have hne : ∀ t' ∈ s.handles, t' ≠ t := fun t' ht' heq => ht (heq ▸ ht')
  refine ⟨h.apart, h.contents, congrArg (t :: ·) h.handles, List.nodup_cons.mpr ⟨ht, h.nodup⟩,
    fun t' ht' => ?_, fun t' => ?_, ?_⟩
  · rcases List.mem_cons.mp ht' with rfl | ht'
    · simp only [newPinnedTask, Function.update_self]
      exact ⟨ho, rfl, rfl, rfl, hle, by simp⟩
    · simp only [newPinnedTask, Function.update_of_ne (hne t' ht')]
      exact h.points t' ht'
  · by_cases heq : t' = t
    · subst heq
      simp [newPinnedTask, h.bufs, ht]
    · simp [newPinnedTask, h.bufs, heq]
  · have hsame : s.handles.map (fun t' => (Function.update v.task t
        ⟨o, start, nbytes, .queued⟩ t').obj) = s.handles.map fun t' => (v.task t').obj := by
      refine List.map_congr_left fun t' ht' => ?_
      rw [Function.update_of_ne (hne t' ht')]
    simp only [newPinnedTask, List.map_cons, Function.update_self, hsame]
    exact h.locked.cons o

/-- A task goes on to its next phase. -/
theorem Shows.setPhase (h : Shows header s v) (ht : t ∈ s.handles) (phase : Objects.Phase)
    {x : Task} {b : Option UvBuf}
    (hx : x = { s.task t with done := decide (phase = .done) })
    (hb : b = if phase = .inFlight then some (taskData (s.task t)) else none) :
    Shows header
      { s with task := Function.update s.task t x, bufs := Function.update s.bufs t b }
      (v.setPhase t phase) := by
  have hobj : ∀ t', ((v.setPhase t phase).task t').obj = (v.task t').obj := by
    intro t'
    by_cases heq : t' = t
    · rw [heq, Objects.setPhase_self]
    · rw [Objects.setPhase_of_ne v heq]
  refine ⟨h.apart, h.contents, h.handles, h.nodup, fun t' ht' => ?_, fun t' => ?_, ?_⟩
  · by_cases heq : t' = t
    · subst heq
      have hp := h.points t' ht
      simp only [Objects.setPhase_self, Function.update_self, hx]
      exact ⟨hp.live, hp.obj, hp.data, hp.nbytes, hp.inside, decide_eq_true_iff⟩
    · simp only [Objects.setPhase_of_ne v heq, Function.update_of_ne heq]
      exact h.points t' ht'
  · by_cases heq : t' = t
    · subst heq
      simp only [Objects.setPhase_self, Function.update_self, hb, hx, ht, true_and]
      rfl
    · simp only [Objects.setPhase_of_ne v heq, Function.update_of_ne heq]
      exact h.bufs t'
  · simp only [hobj]
    exact h.locked

/-- `Sunlock_object` finds the bytevector that was locked: it has not moved. -/
theorem shows_free (hheader : 0 < header) (h : Shows header s v) (ht : t ∈ s.handles)
    (hdone : (s.task t).done = true) :
    Shows header (rtTaskFree s t) { v with handles := v.handles.erase t } := by
  have hp := h.points t ht
  have hunlock : unlockObject s (s.task t).pinnedObj =
      { s with locked := s.locked.erase (v.task t).obj } := by
    rw [unlockObject, hp.obj, Heap.objectAt_base h.apart hheader hp.live]
  rw [rtTaskFree, hunlock]
  refine ⟨h.apart, h.contents, congrArg (·.erase t) h.handles, h.nodup.erase t, fun t' ht' => ?_,
    fun t' => ?_, ?_⟩
  · exact h.points t' (List.mem_of_mem_erase ht')
  · rw [h.bufs]
    by_cases heq : t' = t
    · -- the task has completed, so libuv has no buffer of it
      subst heq
      have hphase := hp.done.mp hdone
      simp [hphase]
    · simp [List.mem_erase_of_ne heq]
  · have hperm := (List.perm_cons_erase ht).map fun t' => (v.task t').obj
    have hcons := (h.locked.trans hperm).erase (v.task t).obj
    rwa [List.map_cons, List.erase_cons_head] at hcons

/-! ### Every step -/

/-- The bytes of a buffer that libuv holds lie in the bytevector of the task. -/
theorem Shows.buf_inside (h : Shows header s v) {b : UvBuf} (hb : s.bufs t = some b) :
    t ∈ s.handles ∧ (v.task t).phase = .inFlight ∧ (v.task t).obj ∈ s.heap.live ∧
      b.base = s.heap.data header (v.task t).obj + (v.task t).start ∧
      b.len = (v.task t).nbytes ∧
      (v.task t).start + (v.task t).nbytes ≤ s.heap.size (v.task t).obj := by
  obtain ⟨ht, hphase, rfl⟩ := h.buf hb
  have hp := h.points t ht
  exact ⟨ht, hphase, hp.live, hp.data, hp.nbytes, hp.inside⟩

theorem shows_step (hheader : 0 < header) {a : Action} {u : State} (h : Shows header s v)
    (ha : Proper s a) (hstep : step header s a = some u) :
    ∃ w, Objects.step v a.erase = some w ∧ Shows header u w ∧
      out header s a = Objects.out v a.erase := by
  cases a with
  | alloc o a bs =>
    simp only [step, Option.ite_none_right_eq_some, Option.some.injEq] at hstep
    obtain ⟨⟨ho, hapart⟩, rfl⟩ := hstep
    refine ⟨_, if_pos ?_, shows_alloc h ho hapart, rfl⟩
    rw [h.contents, if_neg ho]
  | store o i b =>
    simp only [step, Option.ite_none_right_eq_some, Option.some.injEq] at hstep
    obtain ⟨⟨ho, hi⟩, rfl⟩ := hstep
    have hle : i + [b].length ≤ s.heap.size o := hi
    obtain ⟨w, hw, hshows⟩ := h.write ho hle
    exact ⟨w, hw, hshows, rfl⟩
  | load o i n =>
    simp only [step, Option.ite_none_right_eq_some, Option.some.injEq] at hstep
    obtain ⟨⟨ho, hle⟩, rfl⟩ := hstep
    refine ⟨v, ?_, h, ?_⟩
    · rw [Action.erase, Objects.step, h.read ho hle, Option.map_some]
    · rw [Action.erase, Objects.out, h.read ho hle]
      rfl
  | collect keep base rest =>
    simp only [step, Option.ite_none_right_eq_some, Option.some.injEq] at hstep
    obtain ⟨⟨hlocked, hapart⟩, rfl⟩ := hstep
    obtain ⟨hkeep, hshows⟩ := shows_collect h hlocked hapart
    refine ⟨_, if_pos ?_, hshows, rfl⟩
    rwa [h.handles]
  | submit t o start nbytes =>
    simp only [step, Option.ite_none_right_eq_some, Option.some.injEq] at hstep
    obtain ⟨⟨ho, ht⟩, rfl⟩ := hstep
    refine ⟨_, if_pos ⟨?_, ?_⟩, shows_submit h ho ht ha, rfl⟩
    · rw [h.read ho ha]
      exact Option.some_ne_none _
    · rwa [h.handles]
  | dispatch t =>
    simp only [step, Option.ite_none_right_eq_some, Option.some.injEq] at hstep
    obtain ⟨⟨ht, hdone, hbuf⟩, rfl⟩ := hstep
    have hqueued : (v.task t).phase = .queued := by
      have hflight := h.bufs t
      have hnot := (h.points t ht).done
      rw [hbuf] at hflight
      cases hphase : (v.task t).phase with
      | queued => rfl
      | inFlight => simp [ht, hphase] at hflight
      | done => simp [hphase, hdone] at hnot
    refine ⟨_, if_pos ⟨h.handles ▸ ht, hqueued⟩, ?_, rfl⟩
    have hsame : s.task t = { s.task t with done := decide (Objects.Phase.inFlight = .done) } :=
      congrArg (fun done => { s.task t with done }) hdone
    have hshows := h.setPhase ht .inFlight hsame rfl
    rwa [Function.update_eq_self] at hshows
  | fill t k bs =>
    simp only [step] at hstep
    split at hstep
    · rename_i b hb
      simp only [Option.ite_none_right_eq_some, Option.some.injEq] at hstep
      obtain ⟨hle, rfl⟩ := hstep
      obtain ⟨ht, hphase, hlive, hbase, hlen, hinside⟩ := h.buf_inside hb
      have hin : (v.task t).start + k + bs.length ≤ s.heap.size (v.task t).obj := by omega
      obtain ⟨w, hw, hshows⟩ := h.write hlive hin
      refine ⟨w, ?_, ?_, rfl⟩
      · rw [Action.erase, Objects.step, if_pos ⟨h.handles ▸ ht, hphase, hlen ▸ hle⟩, hw]
      · rw [hbase, Nat.add_assoc]
        exact hshows
    · cases hstep
  | take t k n =>
    simp only [step] at hstep
    split at hstep
    · rename_i b hb
      simp only [Option.ite_none_right_eq_some, Option.some.injEq] at hstep
      obtain ⟨hle, rfl⟩ := hstep
      obtain ⟨ht, hphase, hlive, hbase, hlen, hinside⟩ := h.buf_inside hb
      have hin : (v.task t).start + k + n ≤ s.heap.size (v.task t).obj := by omega
      have hread := h.read hlive hin
      refine ⟨v, ?_, h, ?_⟩
      · rw [Action.erase, Objects.step, if_pos ⟨h.handles ▸ ht, hphase, hlen ▸ hle⟩, hread,
          Option.map_some]
      · simp only [Action.erase, Objects.out, out, hread, hb, hbase, Nat.add_assoc,
          Option.toList_some, List.map_cons, List.map_nil]
    · cases hstep
  | complete t =>
    simp only [step, Option.ite_none_right_eq_some, Option.some.injEq] at hstep
    obtain ⟨⟨ht, hdone⟩, rfl⟩ := hstep
    refine ⟨_, if_pos ⟨h.handles ▸ ht, fun hphase => ?_⟩,
      h.setPhase ht .done rfl rfl, rfl⟩
    rw [(h.points t ht).done.mpr hphase] at hdone
    cases hdone
  | free t =>
    simp only [step, Option.ite_none_right_eq_some, Option.some.injEq] at hstep
    obtain ⟨ht, rfl⟩ := hstep
    have hphase := (h.points t ht).done.mp ha
    exact ⟨_, if_pos ⟨h.handles ▸ ht, hphase⟩, shows_free hheader h ht ha, rfl⟩

/-- **Pinned I/O does not see the collector.**  Whatever bytevectors the collector moves, wherever
to, and whichever it reclaims, at any moment between a submission and the release of its task: as
long as a stretch of a bytevector is submitted and a task is freed once it has completed, the run is
one of the machine without addresses, with the same bytes read by the program and written to the
world, and the same in the bytevectors at its end.  A bytevector is locked as often as there are
unfreed tasks on it, so none stays locked; and a buffer that libuv still has is inside a live
bytevector. -/
theorem pinned_io_refines (hheader : 0 < header) {as : List Action}
    (hproper : (machine header).Meets Proper .init as) (hrun : (machine header).run as = some s) :
    ∃ v, Objects.machine.run (as.map Action.erase) = some v ∧
      (machine header).outputs (out header) .init as =
        Objects.machine.outputs Objects.out .init (as.map Action.erase) ∧
      (∀ o, v.contents o = if o ∈ s.heap.live then some (s.heap.contents header o) else none) ∧
      (∀ o, s.locked.count o = s.handles.countP fun t => (v.task t).obj = o) ∧
      ∀ t b, s.bufs t = some b → t ∈ s.handles ∧ ∃ o ∈ s.heap.live,
        s.heap.data header o ≤ b.base ∧ b.base + b.len ≤ s.heap.top header o := by
  have hsim : ∀ s v a u, Shows header s v → Proper s a → (machine header).step s a = some u →
      ∃ w, Objects.machine.runFrom v [a.erase] = some w ∧ Shows header u w ∧
        out header s a = Objects.machine.outputs Objects.out v [a.erase] := by
    intro s v a u h ha hstep
    obtain ⟨w, hw, hshows, hout⟩ := shows_step hheader h ha hstep
    refine ⟨w, Objects.machine.runFrom_cons.mpr ⟨w, hw, rfl⟩, hshows, ?_⟩
    rw [Objects.machine.outputs_cons [] hw, hout]
    exact (List.append_nil _).symm
  obtain ⟨v, hv, hshows, hout⟩ := Machine.runFrom_simulation (fun a => [a.erase])
    (out header) Objects.out hsim shows_init hproper hrun
  rw [← List.map_eq_flatMap] at hv hout
  refine ⟨v, hv, hout, hshows.contents, fun o => ?_, fun t b hb => ?_⟩
  · rw [hshows.locked.count_eq, List.count, List.countP_map]
    rfl
  · obtain ⟨ht, -, hlive, hbase, hlen, hinside⟩ := hshows.buf_inside hb
    refine ⟨ht, _, hlive, by omega, ?_⟩
    rw [Heap.data] at hbase
    rw [Heap.top]
    omega

end

/-- Two bytevectors, 0 and 1.  A read into 0 is under way while a collection moves 1 over what was
the end of an object that it reclaims; after the release 0 is moved as well. -/
def readUnderCollection : List Action :=
  [.alloc 0 16 [1, 2, 3, 4], .alloc 2 32 [5], .alloc 1 64 [9, 9], .submit 7 0 1 2, .dispatch 7,
    .collect (· ≠ 2) (fun o => if o = 0 then 16 else 30) (fun _ => 255), .fill 7 0 [170, 187],
    .complete 7, .free 7,
    .collect (fun _ => true) (fun o => if o = 0 then 100 else 30) (fun _ => 254),
    .load 0 0 4, .load 1 0 2]

/-- The program reads what has been read into the bytevector, wherever it is by then. -/
theorem pinned_io_refines_readUnderCollection :
    ∃ s v, (machine 8).run readUnderCollection = some s ∧
      Objects.machine.run (readUnderCollection.map Action.erase) = some v ∧
      v.contents 0 = some [1, 170, 187, 4] ∧ s.heap.contents 8 0 = [1, 170, 187, 4] ∧
      s.locked.count 0 = 0 := by
  have hrun : (machine 8).run readUnderCollection = some _ := rfl
  obtain ⟨v, hv, -, hcontents, hlocked, -⟩ :=
    pinned_io_refines (by decide : 0 < 8) (by decide +kernel) hrun
  exact ⟨_, v, hrun, hv, hcontents 0, rfl, hlocked 0⟩

end ChezAsync.Pinning
