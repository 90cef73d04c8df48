import ChezAsync.HighLevel.ZeroCopy
import ChezAsync.Lib.Machine

/-!
# Pumping a stream into another one (`io-net.ss`, `runtime.cpp`)

`io-stream-pipe` reads into one bytevector and writes out of the same one, both pinned: libuv works
on the bytevector itself from the submission of a task to its completion.  The machine is the fiber,
which waits for its task, and libuv, which stores what it reads and takes what it writes bit by bit.
-/

namespace ChezAsync.Pipe

open Bytes (slice overlay)
open Transfer (Task Target ioStreamReadBang ioStreamWriteBang readBangResult handed)

/-! ## 1. The fiber and libuv -/

/-- Where the call of `io-stream-pipe` is. -/
inductive Pc
  /-- In `io-stream-read!`, which waits for the task. -/
  | reading (t : Task)
  /-- In `io-stream-write!`, with the count of the read before it. -/
  | writing (t : Task) (n : Int)
  | returned (total : Int)
  /-- `&io-error` -/
  | raised (who : String) (errno : Int)
  /-- A foreign procedure has refused an argument. -/
  | refused

structure State where
  buf : List UInt8
  total : Int
  pc : Pc
  /-- What libuv has taken of the write in flight, or of the one that failed. -/
  sent : List UInt8
  -- The record of the run: the bytes read from `src`, what each write was given, how many writes
  -- have completed, and their bytes (those of an unfinished or a failed write are not counted).
  read : List UInt8
  issued : List (List UInt8)
  completed : Nat
  written : List UInt8

/-- What `dst` has received: what libuv takes of a write is on its way, whether or not the write
completes. -/
def State.received (s : State) : List UInt8 := s.written ++ s.sent

section
variable (chunk src dst : Nat)

/-- A task has been submitted, or its arguments have been refused. -/
def submitted (s : State) (pc : Task → Pc) : Option Task → State
  | none => { s with pc := .refused }
  | some t => { s with pc := pc t }

/-- A round of the loop starts with `(io-stream-read! src buf 0 chunk)`. -/
def loop (s : State) : State := submitted s .reading (ioStreamReadBang src 0 chunk)

/-- The read has completed with `r`. -/
def afterRead (s : State) (r : Int) : State :=
  match readBangResult r with
  | .eof => { s with pc := .returned s.total }
  | .error errno => { s with pc := .raised "io-stream-read!" errno }
  | .count n =>
    let t := ioStreamWriteBang dst 0 n
    let s := { s with issued := s.issued ++ (t.bind (handed s.buf)).toList }
    submitted s (.writing · n) t
  | .bytes _ => s

/-- The write of the `n` bytes that were read has completed with `r`. -/
def afterWrite (s : State) (n r : Int) : State :=
  if r < 0 then { s with pc := .raised "io-stream-write!" r }
  else loop chunk src { s with
    total := s.total + n, sent := []
    completed := s.completed + 1, written := s.written ++ s.sent }

inductive Action
  /-- libuv has read these bytes into the buffer of the task. -/
  | onRead (data : List UInt8)
  /-- The end of `src`, which `on_read` turns into 0, or an error. -/
  | onReadEnd (r : Int)
  /-- libuv takes `k` more bytes of the write from the bytevector. -/
  | take (k : Nat)
  | onWrite (status : Int)

def step (s : State) : Action → Option State
  | .onRead data =>
    match s.pc with
    | .reading t =>
      if 0 < data.length ∧ data.length ≤ t.nbytes then
        (Transfer.received s.buf t data).map fun p =>
          afterRead dst { s with buf := p.1, read := s.read ++ data } data.length
      else none
    | _ => none
  | .onReadEnd r =>
    match s.pc with
    | .reading _ => if r ≤ 0 then some (afterRead dst s r) else none
    | _ => none
  | .take k =>
    match s.pc with
    | .writing t _ =>
      (handed s.buf t).bind fun bytes =>
        if s.sent.length + k ≤ bytes.length then
          some { s with sent := s.sent ++ slice bytes s.sent.length k }
        else none
    | _ => none
  | .onWrite status =>
    match s.pc with
    | .writing t n =>
      -- without an error libuv has taken all of it
      if status < 0 ∨ s.sent.length = t.nbytes then
        some (afterWrite chunk src s n (if status < 0 then status else t.nbytes))
      else none
    | _ => none

/-- Before the first round; `junk` is what the new bytevector holds. -/
def start (junk : Nat → UInt8) : State :=
  { buf := Buffer.alloc junk chunk, total := 0, pc := .refused, sent := []
    read := [], issued := [], completed := 0, written := [] }

/-- `(io-stream-pipe src dst chunk)` -/
def machine (junk : Nat → UInt8) : Machine State Action where
  init := loop chunk src (start chunk junk)
  step := step chunk src dst

/-- One constructor for each kind of step. -/
inductive Step (s : State) : Action → State → Prop
  | onRead {t data p} : s.pc = .reading t → 0 < data.length → data.length ≤ t.nbytes →
      Transfer.received s.buf t data = some p →
      Step s (.onRead data)
        (afterRead dst { s with buf := p.1, read := s.read ++ data } data.length)
  | onReadEnd {t r} : s.pc = .reading t → r ≤ 0 → Step s (.onReadEnd r) (afterRead dst s r)
  | take {t n k bytes} : s.pc = .writing t n → handed s.buf t = some bytes →
      s.sent.length + k ≤ bytes.length →
      Step s (.take k) { s with sent := s.sent ++ slice bytes s.sent.length k }
  | onWrite {t n status} : s.pc = .writing t n → status < 0 ∨ s.sent.length = t.nbytes →
      Step s (.onWrite status)
        (afterWrite chunk src s n (if status < 0 then status else t.nbytes))

end

/-! ## 2. The invariant -/

section
variable {chunk src dst : Nat}

-- The place of the call decides which callback may come.
theorem step_cases {s u : State} {a : Action} (h : step chunk src dst s a = some u) :
    Step chunk src dst s a u := by
  cases a with
  | onRead data =>
    rw [step] at h
    split at h
    case h_2 => cases h
    case h_1 t hpc =>
      rw [Option.ite_none_right_eq_some, Option.map_eq_some_iff] at h
      obtain ⟨⟨hpos, hlen⟩, p, hreceived, rfl⟩ := h
      exact .onRead hpc hpos hlen hreceived
  | onReadEnd r =>
    rw [step] at h
    split at h
    case h_2 => cases h
    case h_1 t hpc =>
      rw [Option.ite_none_right_eq_some, Option.some.injEq] at h
      obtain ⟨hr, rfl⟩ := h
      exact .onReadEnd hpc hr
  | take k =>
    rw [step] at h
    split at h
    case h_2 => cases h
    case h_1 t n hpc =>
      obtain ⟨bytes, hgiven, h⟩ := Option.bind_eq_some_iff.mp h
      rw [Option.ite_none_right_eq_some, Option.some.injEq] at h
      obtain ⟨hfit, rfl⟩ := h
      exact .take hpc hgiven hfit
  | onWrite status =>
    rw [step] at h
    split at h
    case h_2 => cases h
    case h_1 t n hpc =>
      rw [Option.ite_none_right_eq_some, Option.some.injEq] at h
      obtain ⟨hdone, rfl⟩ := h
      exact .onWrite hpc hdone

/-- What holds at each place of the call. -/
def At (chunk : Nat) (s : State) : Pc → Prop
  | .reading t =>
    t.extData = some 0 ∧ t.nbytes = chunk ∧ chunk < 2 ^ 32 ∧
      s.sent = [] ∧ s.completed = s.issued.length ∧ s.written = s.read ∧ s.total = s.read.length
  | .writing t n =>
    ∃ last, handed s.buf t = some last ∧ t.nbytes = last.length ∧ n = last.length ∧
      s.sent <+: last ∧ s.read = s.written ++ last ∧
      s.completed + 1 = s.issued.length ∧ s.total + n = s.read.length
  | .returned total =>
    s.sent = [] ∧ s.completed = s.issued.length ∧ s.written = s.read ∧ total = s.read.length
  | .raised _ errno => errno < 0 ∧ s.received <+: s.read
  | .refused => s.sent = [] ∧ s.completed = s.issued.length ∧ s.written = s.read

structure Inv (chunk : Nat) (s : State) : Prop where
  buf : s.buf.length = chunk
  issued : s.issued.flatten = s.read
  written : s.written = (s.issued.take s.completed).flatten
  place : At chunk s s.pc

/-- Between the rounds every write has completed, and `dst` has received all that was read. -/
structure Between (chunk : Nat) (s : State) : Prop where
  buf : s.buf.length = chunk
  issued : s.issued.flatten = s.read
  sent : s.sent = []
  completed : s.completed = s.issued.length
  written : s.written = s.read
  total : s.total = s.read.length

theorem Between.written_eq {s : State} (h : Between chunk s) :
    s.written = (s.issued.take s.completed).flatten := by
  rw [h.completed, List.take_length, h.issued, h.written]

theorem wrap32_zero : Transfer.wrap32 0 = 0 := by
  rw [Transfer.wrap32, Int.zero_emod]
  rfl

/-- The read of the next round has been submitted. -/
theorem Between.reading {s : State} {t : Task} (h : Between chunk s) (hext : t.extData = some 0)
    (hn : t.nbytes = chunk) (hlt : chunk < 2 ^ 32) : Inv chunk { s with pc := .reading t } :=
  ⟨h.buf, h.issued, h.written_eq,
    hext, hn, hlt, h.sent, h.completed, h.written, h.total⟩

-- A chunk that the FFI does not take ends the call here.
theorem Between.refused {s : State} (h : Between chunk s) : Inv chunk { s with pc := .refused } :=
  ⟨h.buf, h.issued, h.written_eq, h.sent, h.completed, h.written⟩

-- Between two rounds the next read is submitted, or refused.
theorem inv_loop {s : State} (h : Between chunk s) : Inv chunk (loop chunk src s) := by
  by_cases htaken : Transfer.StreamTaken 0 (chunk : Int)
  · have hread : ioStreamReadBang src 0 chunk =
        some (Transfer.rtStreamReadPinned src 0 chunk) := by
      rw [Transfer.ioStreamReadBang_eq, if_pos htaken, wrap32_zero,
        Transfer.wrap32_nat htaken.2]
    have hlt : chunk < 2 ^ 32 := by
      have := htaken.2.2
      omega
    rw [loop, hread]
    exact h.reading rfl rfl hlt
  · have hread : ioStreamReadBang src 0 chunk = none := by
      rw [Transfer.ioStreamReadBang_eq, if_neg htaken]
    rw [loop, hread]
    exact h.refused

theorem between_start (junk : Nat → UInt8) : Between chunk (start chunk junk) :=
  ⟨Buffer.length_alloc junk chunk, rfl, rfl, rfl, rfl, rfl⟩

theorem inv_init (junk : Nat → UInt8) : Inv chunk (machine chunk src dst junk).init := by
  rw [machine]
  dsimp only
  exact inv_loop (between_start junk)

/-- After a read of some bytes they are given to a write. -/
theorem afterRead_count (s : State) {n : Nat} (hpos : 0 < n) (hlt : n < 2 ^ 32) :
    afterRead dst s n =
      { s with
        pc := .writing (Transfer.rtStreamWritePinned dst 0 n) n
        issued := s.issued ++ (handed s.buf (Transfer.rtStreamWritePinned dst 0 n)).toList } := by
  have hresult : readBangResult (n : Int) = .count (n : Int) := by
    rw [readBangResult, if_neg (by omega), if_neg (by omega)]
  have htaken : Transfer.StreamTaken 0 (n : Int) := by
    unfold Transfer.StreamTaken Buffer.InRange32
    omega
  have hwrite : ioStreamWriteBang dst 0 (n : Int) =
      some (Transfer.rtStreamWritePinned dst 0 n) := by
    rw [Transfer.ioStreamWriteBang_eq, if_pos htaken, wrap32_zero, Transfer.wrap32_nat htaken.2]
  unfold afterRead
  rw [hresult]
  dsimp only
  rw [hwrite]
  rfl

/-- With no write under way, `dst` has received the whole source so far. -/
theorem received_of_written {s : State} (hsent : s.sent = []) (hwritten : s.written = s.read) :
    s.received = s.read := by
  rw [State.received, hsent, List.append_nil, hwritten]

theorem front_of_written {s : State} (hsent : s.sent = []) (hwritten : s.written = s.read) :
    s.received <+: s.read :=
  ⟨[], by rw [List.append_nil, received_of_written hsent hwritten]⟩

/-- While a read waits, nothing is left to be written. -/
theorem between_of_reading {s : State} {t : Task} (hs : Inv chunk s) (hpc : s.pc = .reading t) :
    Between chunk s := by
  have hplace := hs.place
  rw [hpc] at hplace
  obtain ⟨-, -, -, hsent, hcompleted, hwritten, htotal⟩ := hplace
  exact ⟨hs.buf, hs.issued, hsent, hcompleted, hwritten, htotal⟩

-- The bytes go to the front of the buffer, and the write is given exactly them.
theorem inv_onRead {s : State} {t : Task} {data : List UInt8} {p : List UInt8 × Task}
    (hs : Inv chunk s) (hpc : s.pc = .reading t) (hpos : 0 < data.length)
    (hlen : data.length ≤ t.nbytes) (h : Transfer.received s.buf t data = some p) :
    Inv chunk (afterRead dst { s with buf := p.1, read := s.read ++ data } data.length) := by
  have hbetween := between_of_reading hs hpc
  have hplace := hs.place
  rw [hpc] at hplace
  obtain ⟨hext, hn, hlt, -⟩ := hplace
  have hfit : 0 + data.length ≤ s.buf.length := by
    rw [hs.buf]
    omega
  -- the bytes stand at the front of the buffer
  have hreceived : Transfer.received s.buf t data = some (overlay s.buf 0 data, t) := by
    rw [Transfer.received, hext]
    exact congrArg (Option.map _) (Bytes.writeAt_eq hfit)
  rw [hreceived, Option.some.injEq] at h
  subst h
  have hover : (overlay s.buf 0 data).length = s.buf.length := Bytes.length_overlay hfit
  have hgiven : handed (overlay s.buf 0 data) (Transfer.rtStreamWritePinned dst 0 data.length) =
      some data := by
    have hpinned := @Transfer.handed_pinned (overlay s.buf 0 data) 0 data.length
      (by rw [hover]; exact hfit) (.stream dst)
    rw [Bytes.slice_overlay hfit] at hpinned
    exact hpinned
  rw [afterRead_count _ hpos (by omega), hgiven, Option.toList_some]
  refine ⟨hover.trans hs.buf, ?_, ?_, data, hgiven, rfl, rfl, ?_, ?_, ?_, ?_⟩
  · show (s.issued ++ [data]).flatten = s.read ++ data
    rw [List.flatten_append, hs.issued, List.flatten_singleton]
  · show s.written = ((s.issued ++ [data]).take s.completed).flatten
    rw [List.take_append_of_le_length (Nat.le_of_eq hbetween.completed)]
    exact hs.written
  · show s.sent <+: data
    rw [hbetween.sent]
    exact List.nil_prefix
  · show s.read ++ data = s.written ++ data
    rw [hbetween.written]
  · show s.completed + 1 = (s.issued ++ [data]).length
    rw [hbetween.completed, List.length_append, List.length_singleton]
  · show s.total + (data.length : Int) = ((s.read ++ data).length : Nat)
    rw [hbetween.total, List.length_append, Int.natCast_add]

-- Zero is the end, everything below is an error.
theorem inv_onReadEnd {s : State} {t : Task} {r : Int} (hs : Inv chunk s)
    (hpc : s.pc = .reading t) (hr : r ≤ 0) : Inv chunk (afterRead dst s r) := by
  have hbetween := between_of_reading hs hpc
  by_cases hneg : r < 0
  · have hresult : readBangResult r = .error r := if_pos hneg
    simp only [afterRead, hresult]
    exact ⟨hs.buf, hs.issued, hs.written, hneg,
      front_of_written hbetween.sent hbetween.written⟩
  · have hzero : r = 0 := by omega
    have hresult : readBangResult r = .eof := by rw [readBangResult, if_neg hneg, if_pos hzero]
    simp only [afterRead, hresult]
    exact ⟨hs.buf, hs.issued, hs.written, hbetween.sent, hbetween.completed, hbetween.written,
      hbetween.total⟩

theorem inv_take {s : State} {t : Task} {n : Int} {bytes : List UInt8} (hs : Inv chunk s)
    (hpc : s.pc = .writing t n) (hbytes : handed s.buf t = some bytes) (k : Nat) :
    Inv chunk { s with sent := s.sent ++ slice bytes s.sent.length k } := by
  have hplace := hs.place
  rw [hpc] at hplace
  obtain ⟨last, hgiven, hn, hcount, hprefix, hread, hcompleted, htotal⟩ := hplace
  obtain rfl : last = bytes := Option.some.inj (hgiven.symm.trans hbytes)
  refine ⟨hs.buf, hs.issued, hs.written, ?_⟩
  show At chunk _ s.pc
  rw [hpc]
  refine ⟨last, hgiven, hn, hcount, ?_, hread, hcompleted, htotal⟩
  -- libuv goes on where it has stopped
  have hsent : s.sent = slice last 0 s.sent.length := by
    rw [slice, List.drop_zero]
    exact List.prefix_iff_eq_take.mp hprefix
  have hjoin := Bytes.slice_append last 0 s.sent.length k
  rw [← hsent, Nat.zero_add] at hjoin
  show s.sent ++ slice last s.sent.length k <+: last
  rw [hjoin, slice, List.drop_zero]
  exact List.take_prefix _ _

-- Without an error libuv has taken the whole chunk.
theorem inv_onWrite {s : State} {t : Task} {n status : Int} (hs : Inv chunk s)
    (hpc : s.pc = .writing t n) (hdone : status < 0 ∨ s.sent.length = t.nbytes) :
    Inv chunk (afterWrite chunk src s n (if status < 0 then status else t.nbytes)) := by
  have hplace := hs.place
  rw [hpc] at hplace
  obtain ⟨last, hgiven, hn, hcount, hprefix, hread, hcompleted, htotal⟩ := hplace
  by_cases hneg : status < 0
  · rw [if_pos hneg, afterWrite, if_pos hneg]
    refine ⟨hs.buf, hs.issued, hs.written, hneg, ?_⟩
    show s.received <+: s.read
    rw [hread]
    exact (List.prefix_append_right_inj _).mpr hprefix
  · have hall : s.sent = last :=
      hprefix.eq_of_length ((hdone.resolve_left hneg).trans hn)
    rw [if_neg hneg, afterWrite, if_neg (by omega)]
    apply inv_loop
    refine ⟨hs.buf, hs.issued, rfl, hcompleted, ?_, htotal⟩
    show s.written ++ s.sent = s.read
    rw [hread, hall]

theorem inv_step {s u : State} {a : Action} (hs : Inv chunk s)
    (h : step chunk src dst s a = some u) : Inv chunk u := by
  cases step_cases h with
  | onRead hpc hpos hlen hreceived => exact inv_onRead hs hpc hpos hlen hreceived
  | onReadEnd hpc hr => exact inv_onReadEnd hs hpc hr
  | take hpc hgiven hfit => exact inv_take hs hpc hgiven _
  | onWrite hpc hdone => exact inv_onWrite hs hpc hdone

theorem inv_run {junk : Nat → UInt8} {as : List Action} {s : State}
    (h : (machine chunk src dst junk).run as = some s) : Inv chunk s :=
  (machine chunk src dst junk).runFrom_invariant (fun _ _ _ hs ht => inv_step hs ht)
    (inv_init junk) h

/-! ## 3. An exact copy -/

structure Copies (s : State) : Prop where
  /-- The writes have been given the bytes that were read, in order. -/
  issued : s.issued.flatten = s.read
  /-- What has been written are the bytes of the writes that have completed. -/
  written : s.written = (s.issued.take s.completed).flatten
  /-- A read has the buffer only when every write has completed. -/
  reading : ∀ t, s.pc = .reading t → s.completed = s.issued.length
  returned : ∀ total, s.pc = .returned total → s.received = s.read ∧ total = s.received.length
  /-- `dst` has received every completed write, and nothing but a beginning of the source. -/
  front : s.written <+: s.received ∧ s.received <+: s.read

theorem Inv.received {s : State} (hs : Inv chunk s) : s.received <+: s.read := by
  have hplace := hs.place
  rcases hpc : s.pc with t | ⟨t, n⟩ | total | ⟨who, errno⟩ | _ <;> rw [hpc] at hplace
  · have hbetween := between_of_reading hs hpc
    exact front_of_written hbetween.sent hbetween.written
  · obtain ⟨last, -, -, -, hprefix, hread, -⟩ := hplace
    rw [hread]
    exact (List.prefix_append_right_inj _).mpr hprefix
  · exact front_of_written hplace.1 hplace.2.2.1
  · exact hplace.2
  · exact front_of_written hplace.1 hplace.2.2

theorem Inv.copies {s : State} (hs : Inv chunk s) : Copies s := by
  have hplace := hs.place
  refine ⟨hs.issued, hs.written, ?_, ?_, List.prefix_append _ _, hs.received⟩
  · exact fun t hpc => (between_of_reading hs hpc).completed
  · intro total hpc
    rw [hpc] at hplace
    obtain ⟨hsent, -, hwritten, htotal⟩ := hplace
    have hreceived := received_of_written hsent hwritten
    exact ⟨hreceived, by rw [hreceived, htotal]⟩

/-- The ends of the call: the end of `src`, and the first error. -/
structure Ends (chunk src dst : Nat) (s : State) : Prop where
  eof : ∀ u, step chunk src dst s (.onReadEnd 0) = some u → u.pc = .returned s.received.length
  readError : ∀ r u, r < 0 → step chunk src dst s (.onReadEnd r) = some u →
    u.pc = .raised "io-stream-read!" r ∧ u.received = s.received
  writeError : ∀ r u, r < 0 → step chunk src dst s (.onWrite r) = some u →
    u.pc = .raised "io-stream-write!" r ∧ u.received = s.received
  /-- After that nothing is read and nothing is written. -/
  ended : (∀ t, s.pc ≠ .reading t) → (∀ t n, s.pc ≠ .writing t n) →
    ∀ a, step chunk src dst s a = none

end

end ChezAsync.Pipe
