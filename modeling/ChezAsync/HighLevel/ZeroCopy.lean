import ChezAsync.HighLevel.Transfer

/-!
# Pinned bytevectors against copies (`io-fs.ss`, `io-net.ss`)

The procedures with `!` hand over and store the same bytes as those that copy, for the stretches
that lie inside the bytevector.  Nothing on the way from Scheme to libuv looks at the length of the
bytevector: which stretches the runtime touches is settled by the foreign interface alone.
-/

namespace ChezAsync.Transfer

open Bytes (Endian readAt writeAt slice overlay)
open Buffer (InRange32 InRange64 int32 unsigned32 integer64)

/-! ## 1. What the foreign procedures take -/

/-- The arguments of a read or write of a file that are not refused. -/
def FsTaken (fd start n offset : Int) : Prop :=
  InRange32 fd ∧ InRange32 start ∧ InRange32 n ∧ InRange64 offset

/-- The arguments of a read or write of a stream that are not refused. -/
def StreamTaken (start n : Int) : Prop := InRange32 start ∧ InRange32 n

instance (fd start n offset : Int) : Decidable (FsTaken fd start n offset) :=
  inferInstanceAs (Decidable (_ ∧ _))

instance (start n : Int) : Decidable (StreamTaken start n) :=
  inferInstanceAs (Decidable (_ ∧ _))

/-- An `unsigned-32` argument on the other side. -/
def wrap32 (n : Int) : Nat := (n % 2 ^ 32).toNat

theorem wrap32_cast {n : Int} (h : InRange32 n) :
    (wrap32 n : Int) = if 0 ≤ n then n else n + 2 ^ 32 :=
  (Buffer.unsigned32_eq_some (n := n) (m := wrap32 n) (if_pos h)).2

theorem wrap32_nat {n : Nat} (h : InRange32 n) : wrap32 n = n := by
  have hcast := wrap32_cast h
  omega

section
variable {α : Type} {fd start n offset : Int}

theorem fs_args (f : Int → Nat → Nat → Int → α) :
    (do some (f (← int32 fd) (← unsigned32 start) (← unsigned32 n) (← integer64 offset))) =
      if FsTaken fd start n offset then
        some (f (fd.bmod (2 ^ 32)) (wrap32 start) (wrap32 n) (offset.bmod (2 ^ 64)))
      else none := by
  unfold int32 unsigned32 integer64
  by_cases htaken : FsTaken fd start n offset
  · have hargs := htaken
    obtain ⟨hfd, hstart, hn, hoffset⟩ := hargs
    rw [if_pos hfd, if_pos hstart, if_pos hn, if_pos hoffset, if_pos htaken]
    rfl
  · rw [if_neg htaken]
    by_cases hfd : InRange32 fd
    · by_cases hstart : InRange32 start
      · by_cases hn : InRange32 n
        · have hoffset : ¬ InRange64 offset := fun h => htaken ⟨hfd, hstart, hn, h⟩
          rw [if_pos hfd, if_pos hstart, if_pos hn, if_neg hoffset]
          rfl
        · rw [if_pos hfd, if_pos hstart, if_neg hn]
          rfl
      · rw [if_pos hfd, if_neg hstart]
        rfl
    · rw [if_neg hfd]
      rfl

theorem stream_args (f : Nat → Nat → α) :
    (do some (f (← unsigned32 start) (← unsigned32 n))) =
      if StreamTaken start n then some (f (wrap32 start) (wrap32 n)) else none := by
  unfold unsigned32
  by_cases hstart : InRange32 start
  · by_cases hn : InRange32 n
    · have htaken : StreamTaken start n := ⟨hstart, hn⟩
      rw [if_pos hstart, if_pos hn, if_pos htaken]
      rfl
    · have hno : ¬ StreamTaken start n := fun h => hn h.2
      rw [if_pos hstart, if_neg hn, if_neg hno]
      rfl
  · have hno : ¬ StreamTaken start n := fun h => hstart h.1
    rw [if_neg hstart, if_neg hno]
    rfl

end

section
variable (e : Endian) (junk : Nat → UInt8) (bv : List UInt8) (fd start n offset : Int) (s : Nat)

/-- The foreign block of `run-write` holds the whole bytevector. -/
theorem runWrite_eq (submitFn : List UInt8 → Int → Int → Option Copied) :
    runWrite e junk bv submitFn start n = submitFn bv start n := by
  rw [runWrite, Buffer.bytevectorToForeign_eq]
  rfl

theorem ioWrite_eq :
    ioWrite e junk bv fd start n offset =
      if FsTaken fd start n offset then
        some (rtFsWrite (fd.bmod (2 ^ 32)) bv (wrap32 start) (wrap32 n) (offset.bmod (2 ^ 64)))
      else none := by
  rw [ioWrite, runWrite_eq]
  exact fs_args fun fd start nbytes offset => rtFsWrite fd bv start nbytes offset

theorem ioStreamWrite_eq :
    ioStreamWrite e junk bv s start n =
      if StreamTaken start n then some (rtStreamWrite s bv (wrap32 start) (wrap32 n)) else none := by
  rw [ioStreamWrite, runWrite_eq]
  exact stream_args (rtStreamWrite s bv)

theorem ioWriteBang_eq :
    ioWriteBang fd start n offset =
      if FsTaken fd start n offset then
        some (rtFsWritePinned (fd.bmod (2 ^ 32)) (wrap32 start) (wrap32 n) (offset.bmod (2 ^ 64)))
      else none :=
  fs_args rtFsWritePinned

theorem ioStreamWriteBang_eq :
    ioStreamWriteBang s start n =
      if StreamTaken start n then some (rtStreamWritePinned s (wrap32 start) (wrap32 n)) else none :=
  stream_args (rtStreamWritePinned s)

theorem ioReadBang_eq :
    ioReadBang fd start n offset =
      if FsTaken fd start n offset then
        some (rtFsReadPinned (fd.bmod (2 ^ 32)) (wrap32 start) (wrap32 n) (offset.bmod (2 ^ 64)))
      else none :=
  fs_args rtFsReadPinned

theorem ioStreamReadBang_eq :
    ioStreamReadBang s start n =
      if StreamTaken start n then some (rtStreamReadPinned s (wrap32 start) (wrap32 n)) else none :=
  stream_args (rtStreamReadPinned s)

end

/-! ## 2. The two paths -/

/-- A write and the one with `!`: both raise, or they hand over the same bytes of `bv` to the same
file or stream. -/
def SameWrite (bv : List UInt8) (start n : Nat) (taken : Prop) (copying : Option Copied)
    (pinned : Option Task) : Prop :=
  (¬ taken ∧ copying = none ∧ pinned = none) ∨
    (taken ∧ ∃ c t t', copying = some c ∧ c.task = some t ∧ pinned = some t' ∧
      t.target = t'.target ∧
      handed bv t = some (slice bv start n) ∧ handed bv t' = some (slice bv start n))

/-- libuv reports the result `r` of a read of at most `n` bytes, for which it has stored `data`. -/
def Completes (n : Nat) (r : Int) (data : List UInt8) : Prop :=
  (0 < r ∧ r ≤ n ∧ (data.length : Int) = r) ∨ (r ≤ 0 ∧ data = [])

instance (n : Nat) (r : Int) (data : List UInt8) : Decidable (Completes n r data) :=
  inferInstanceAs (Decidable (_ ∨ _))

/-- What a read and the one with `!`, which leaves `bv'` in the place of `bv`, make of a result. -/
def Agree (bv bv' : List UInt8) (start : Nat) (r : Int) (copying pinned : Answer) : Prop :=
  (r < 0 ∧ copying = .error r ∧ pinned = .error r ∧ bv' = bv) ∨
    (r = 0 ∧ copying = .eof ∧ pinned = .eof ∧ bv' = bv) ∨
    (0 < r ∧ copying = .bytes (slice bv' start r.toNat) ∧ pinned = .count r ∧
      bv'.length = bv.length ∧
      ∀ i, i < start ∨ start + r.toNat ≤ i → bv'[i]? = bv[i]?)

/-- A read and the one with `!`: where the second does not raise, both ask for as many bytes of the
same file or stream and agree on whatever comes back. -/
def SameRead (e : Endian) (junk : Nat → UInt8) (bv : List UInt8) (start n : Nat) (taken : Prop)
    (copying pinned : Option Task) : Prop :=
  (¬ taken ∧ pinned = none) ∨
    (taken ∧ ∃ t t', copying = some t ∧ pinned = some t' ∧ t.target = t'.target ∧
      t.nbytes = n ∧ t'.nbytes = n ∧
      ∀ r data, Completes n r data → ∃ bv' u a,
        received bv t data = some (bv, u) ∧ received bv t' data = some (bv', t') ∧
        readTaskResult e junk u r = some a ∧ Agree bv bv' start r a (readBangResult r))

section
variable {e : Endian} {junk : Nat → UInt8} {bv : List UInt8} {start n : Nat}

theorem handed_copied (h : start + n ≤ bv.length) (target : Target) :
    ∃ t, (newWriteTask target bv start n).task = some t ∧ t.target = target ∧
      handed bv t = some (slice bv start n) := by
  refine ⟨{ target, nbytes := n, buffer := slice bv start n, extData := none }, ?_, rfl, ?_⟩
  · rw [newWriteTask, Bytes.readAt_eq h]
    rfl
  · have hlen := Bytes.length_slice h
    show readAt (slice bv start n) 0 n = _
    rw [Bytes.readAt_eq (by omega)]
    congr 1
    have hall := Bytes.slice_all (slice bv start n)
    rw [hlen] at hall
    exact hall

theorem handed_pinned (h : start + n ≤ bv.length) (target : Target) :
    handed bv (newPinnedTask target start n) = some (slice bv start n) :=
  Bytes.readAt_eq h

/-- `read-task->result` of a task into whose buffer `data` has been read. -/
theorem readTaskResult_eq {t : Task} {r : Int} {data : List UInt8} (hr : 0 < r)
    (hlen : (data.length : Int) = r) (hbuf : r ≤ t.buffer.length) :
    readTaskResult e junk { t with buffer := overlay t.buffer 0 data } r = some (.bytes data) := by
  have hnat : r.toNat = data.length := by omega
  have hover : (overlay t.buffer 0 data).length = t.buffer.length :=
    Bytes.length_overlay (by omega)
  have hfront : slice (overlay t.buffer 0 data) 0 data.length = data :=
    Bytes.slice_overlay (by omega)
  have halloc : (Buffer.alloc junk data.length).length = data.length := Buffer.length_alloc _ _
  have hdrop : (Buffer.alloc junk data.length).drop data.length = [] :=
    List.drop_of_length_le (Nat.le_of_eq halloc)
  have hinto : rtReadInto { t with buffer := overlay t.buffer 0 data } r
      (Buffer.alloc junk data.length) 0 = some data := by
    rw [rtReadInto, if_pos hr, hnat, Bytes.readAt_eq (by rw [hover]; omega), Option.bind_some,
      hfront, Bytes.writeAt_eq (by rw [halloc]; omega), Bytes.overlay_front, hdrop,
      List.append_nil]
  rw [readTaskResult, if_neg (by omega), if_neg (by omega), hnat, hinto]
  show (Buffer.foreignToBytevector e junk data data.length).bind _ = _
  rw [Buffer.foreignToBytevector_eq junk (Nat.le_refl _), List.take_length]
  rfl

theorem length_completes {r : Int} {data : List UInt8} (hr : Completes n r data) :
    data.length ≤ n := by
  rcases hr with ⟨-, hle, hlen⟩ | ⟨-, hnil⟩
  · omega
  · rw [hnil]
    exact Nat.zero_le n

variable (e junk) in
/-- What the copying reads return. -/
theorem read_completes (bv : List UInt8) (target : Target) {r : Int} {data : List UInt8}
    (hr : Completes n r data) :
    ∃ u, received bv (newReadTask target n) data = some (bv, u) ∧
      readTaskResult e junk u r =
        some (if r < 0 then .error r else if r = 0 then .eof else .bytes data) := by
  have hbuf : (newReadTask target n).buffer.length = n := List.length_replicate
  have hle := length_completes hr
  have hread : received bv (newReadTask target n) data =
      some (bv, { newReadTask target n with
        buffer := overlay (newReadTask target n).buffer 0 data }) := by
    show (writeAt (newReadTask target n).buffer 0 data).map _ = _
    rw [Bytes.writeAt_eq (by rw [hbuf]; omega)]
    rfl
  refine ⟨_, hread, ?_⟩
  rcases hr with ⟨hpos, hrle, hlen⟩ | ⟨hnonpos, -⟩
  · rw [if_neg (by omega), if_neg (by omega)]
    exact readTaskResult_eq hpos hlen (by rw [hbuf]; exact hrle)
  · rcases Int.lt_or_eq_of_le hnonpos with hneg | hzero
    · rw [if_pos hneg]
      exact if_pos hneg
    · subst hzero
      rfl

/-- The reads of one stretch, from the file or the stream `target`. -/
theorem reads_agree (h : start + n ≤ bv.length) (target : Target) {r : Int} {data : List UInt8}
    (hr : Completes n r data) :
    ∃ bv' u a, received bv (newReadTask target n) data = some (bv, u) ∧
      received bv (newPinnedTask target start n) data =
        some (bv', newPinnedTask target start n) ∧
      readTaskResult e junk u r = some a ∧ Agree bv bv' start r a (readBangResult r) := by
  have hle := length_completes hr
  have hfit : start + data.length ≤ bv.length := by omega
  obtain ⟨u, hread, hanswer⟩ := read_completes e junk bv target hr
  have hpinned : received bv (newPinnedTask target start n) data =
      some (overlay bv start data, newPinnedTask target start n) := by
    show (writeAt bv start data).map _ = _
    rw [Bytes.writeAt_eq hfit]
    rfl
  refine ⟨_, u, _, hread, hpinned, hanswer, ?_⟩
  rcases hr with ⟨hpos, hrle, hlen⟩ | ⟨hnonpos, hnil⟩
  · have hnat : r.toNat = data.length := by omega
    rw [if_neg (by omega), if_neg (by omega), readBangResult, if_neg (by omega),
      if_neg (by omega)]
    refine .inr (.inr ⟨hpos, ?_, rfl, Bytes.length_overlay hfit, fun i hi => ?_⟩)
    · rw [hnat, Bytes.slice_overlay hfit]
    · exact Bytes.getElem?_overlay hfit (by omega)
  · subst hnil
    have hsame := Bytes.overlay_nil bv start
    rcases Int.lt_or_eq_of_le hnonpos with hneg | hzero
    · rw [if_pos hneg, readBangResult, if_pos hneg]
      exact .inl ⟨hneg, rfl, rfl, hsame⟩
    · subst hzero
      exact .inr (.inl ⟨rfl, rfl, rfl, hsame⟩)

end

/-- **The zero-copy path agrees with the copying path.** -/
theorem zeroCopy_agrees (e : Endian) (junk : Nat → UInt8) (bv : List UInt8) (start n : Nat)
    (h : start + n ≤ bv.length) (fd offset : Int) (s : Nat) :
    SameWrite bv start n (FsTaken fd start n offset) (ioWrite e junk bv fd start n offset)
        (ioWriteBang fd start n offset) ∧
      SameWrite bv start n (StreamTaken start n) (ioStreamWrite e junk bv s start n)
        (ioStreamWriteBang s start n) ∧
      SameRead e junk bv start n (FsTaken fd start n offset) (ioRead fd n offset)
        (ioReadBang fd start n offset) ∧
      SameRead e junk bv start n (StreamTaken start n) (ioStreamRead s n)
        (ioStreamReadBang s start n) := by
  have hfile : ∀ {α : Type} (f : Int → Nat → Nat → Int → α), FsTaken fd start n offset →
      f (fd.bmod (2 ^ 32)) (wrap32 start) (wrap32 n) (offset.bmod (2 ^ 64)) =
        f (fd.bmod (2 ^ 32)) start n (offset.bmod (2 ^ 64)) := by
    intro α f htaken
    rw [wrap32_nat htaken.2.1, wrap32_nat htaken.2.2.1]
  have hstream : ∀ {α : Type} (f : Nat → Nat → α), StreamTaken start n →
      f (wrap32 start) (wrap32 n) = f start n := by
    intro α f htaken
    rw [wrap32_nat htaken.1, wrap32_nat htaken.2]
  rw [ioWrite_eq, ioWriteBang_eq, ioStreamWrite_eq, ioStreamWriteBang_eq, ioReadBang_eq,
    ioStreamReadBang_eq]
  refine ⟨?_, ?_, ?_, ?_⟩
  · by_cases htaken : FsTaken fd start n offset
    · obtain ⟨t, ht, htarget, hhanded⟩ :=
        handed_copied h (.file (fd.bmod (2 ^ 32)) (offset.bmod (2 ^ 64)))
      rw [if_pos htaken, if_pos htaken, hfile rtFsWritePinned htaken,
        hfile (fun fd start n offset => rtFsWrite fd bv start n offset) htaken]
      exact .inr ⟨htaken, _, t, _, rfl, ht, rfl, htarget, hhanded, handed_pinned h _⟩
    · rw [if_neg htaken, if_neg htaken]
      exact .inl ⟨htaken, rfl, rfl⟩
  · by_cases htaken : StreamTaken start n
    · obtain ⟨t, ht, htarget, hhanded⟩ := handed_copied h (.stream s)
      rw [if_pos htaken, if_pos htaken, hstream (rtStreamWritePinned s) htaken,
        hstream (rtStreamWrite s bv) htaken]
      exact .inr ⟨htaken, _, t, _, rfl, ht, rfl, htarget, hhanded, handed_pinned h _⟩
    · rw [if_neg htaken, if_neg htaken]
      exact .inl ⟨htaken, rfl, rfl⟩
  · by_cases htaken : FsTaken fd start n offset
    · have hread : ioRead fd n offset =
          some (rtFsRead (fd.bmod (2 ^ 32)) n (offset.bmod (2 ^ 64))) := by
        have hn := Buffer.unsigned32_of_nat (n := n) (by have := htaken.2.2.1.2; omega)
        rw [ioRead, submitFsRead, int32, if_pos htaken.1, hn, integer64, if_pos htaken.2.2.2]
        rfl
      rw [if_pos htaken, hfile rtFsReadPinned htaken]
      exact .inr ⟨htaken, _, _, hread, rfl, rfl, rfl, rfl, fun r data hr => reads_agree h _ hr⟩
    · rw [if_neg htaken]
      exact .inl ⟨htaken, rfl⟩
  · by_cases htaken : StreamTaken start n
    · have hread : ioStreamRead s n = some (rtStreamRead s n) := by
        have hn := Buffer.unsigned32_of_nat (n := n) (by have := htaken.2.2; omega)
        rw [ioStreamRead, submitStreamRead, hn]
        rfl
      rw [if_pos htaken, hstream (rtStreamReadPinned s) htaken]
      exact .inr ⟨htaken, _, _, hread, rfl, rfl, rfl, rfl, fun r data hr => reads_agree h _ hr⟩
    · rw [if_neg htaken]
      exact .inl ⟨htaken, rfl⟩

theorem zeroCopy_agrees_twelveBytes :
    ∃ bv : List UInt8, bv.length = 12 ∧ FsTaken 3 2 9 (-1) ∧
      SameWrite bv 2 9 (FsTaken 3 2 9 (-1)) (ioWrite .little (fun _ => 7) bv 3 2 9 (-1))
        (ioWriteBang 3 2 9 (-1)) ∧
      SameRead .little (fun _ => 7) bv 2 9 (FsTaken 3 2 9 (-1)) (ioRead 3 9 (-1))
        (ioReadBang 3 2 9 (-1)) := by
  have h := zeroCopy_agrees .little (fun _ => 7) [0, 1, 2, 3, 4, 5, 6, 7, 8, 9, 10, 11] 2 9
    (by decide) 3 (-1) 0
  exact ⟨_, rfl, by decide, h.1, h.2.2.1⟩

/-! ## 3. Stretches outside of the bytevector -/

/-- The procedures that take a stretch of a bytevector, with their other arguments. -/
inductive Call
  | write (fd offset : Int)
  | writeBang (fd offset : Int)
  | readBang (fd offset : Int)
  | streamWrite (s : Nat)
  | streamWriteBang (s : Nat)
  | streamReadBang (s : Nat)

/-- The cells of the bytevector, or of its copy, that the runtime reads or writes; `none` when the
call raises before anything is submitted. -/
def Call.touches (e : Endian) (junk : Nat → UInt8) (bv : List UInt8) (start n : Int) :
    Call → Option Stretch
  | .write fd offset => (ioWrite e junk bv fd start n offset).map Copied.source
  | .writeBang fd offset => (ioWriteBang fd start n offset).bind Task.pinned
  | .readBang fd offset => (ioReadBang fd start n offset).bind Task.pinned
  | .streamWrite s => (ioStreamWrite e junk bv s start n).map Copied.source
  | .streamWriteBang s => (ioStreamWriteBang s start n).bind Task.pinned
  | .streamReadBang s => (ioStreamReadBang s start n).bind Task.pinned

/-- The foreign procedure refuses none of the arguments. -/
def Call.Taken (start n : Int) : Call → Prop
  | .write fd offset => FsTaken fd start n offset
  | .writeBang fd offset => FsTaken fd start n offset
  | .readBang fd offset => FsTaken fd start n offset
  | .streamWrite _ => StreamTaken start n
  | .streamWriteBang _ => StreamTaken start n
  | .streamReadBang _ => StreamTaken start n

/-- The cells are those at `start .. start + n - 1` of a bytevector with `len` bytes. -/
def Stretch.Inside (s : Stretch) (len : Nat) (start n : Int) : Prop :=
  ∀ i : Nat, s.start ≤ i → i < s.start + s.length →
    start ≤ i ∧ (i : Int) < start + n ∧ i < len

def Call.StaysInside (c : Call) (e : Endian) (junk : Nat → UInt8) (bv : List UInt8)
    (start n : Int) : Prop :=
  ∀ s, c.touches e junk bv start n = some s → s.Inside bv.length start n

section
variable {start n : Int}

theorem Call.ranges {c : Call} (h : c.Taken start n) : InRange32 start ∧ InRange32 n := by
  cases c with
  | write => exact ⟨h.2.1, h.2.2.1⟩
  | writeBang => exact ⟨h.2.1, h.2.2.1⟩
  | readBang => exact ⟨h.2.1, h.2.2.1⟩
  | streamWrite => exact h
  | streamWriteBang => exact h
  | streamReadBang => exact h

/-- Nothing is checked but that the numbers have 32 bits. -/
theorem Call.touches_eq_some (e : Endian) (junk : Nat → UInt8) (bv : List UInt8) (c : Call)
    (s : Stretch) :
    c.touches e junk bv start n = some s ↔ c.Taken start n ∧ s = ⟨wrap32 start, wrap32 n⟩ := by
  have hite : ∀ (p : Prop) [Decidable p],
      (if p then some (⟨wrap32 start, wrap32 n⟩ : Stretch) else none) = some s ↔
        p ∧ s = ⟨wrap32 start, wrap32 n⟩ := by
    intro p _
    rw [Option.ite_none_right_eq_some, Option.some.injEq, eq_comm (a := s)]
  cases c with
  | write fd offset =>
    rw [touches, ioWrite_eq, apply_ite (Option.map Copied.source)]
    exact hite _
  | writeBang fd offset =>
    rw [touches, ioWriteBang_eq, apply_ite (fun t => Option.bind t Task.pinned)]
    exact hite _
  | readBang fd offset =>
    rw [touches, ioReadBang_eq, apply_ite (fun t => Option.bind t Task.pinned)]
    exact hite _
  | streamWrite s =>
    rw [touches, ioStreamWrite_eq, apply_ite (Option.map Copied.source)]
    exact hite _
  | streamWriteBang s =>
    rw [touches, ioStreamWriteBang_eq, apply_ite (fun t => Option.bind t Task.pinned)]
    exact hite _
  | streamReadBang s =>
    rw [touches, ioStreamReadBang_eq, apply_ite (fun t => Option.bind t Task.pinned)]
    exact hite _

theorem inside_iff {len : Nat} (hstart : InRange32 start) (hn : InRange32 n) :
    (⟨wrap32 start, wrap32 n⟩ : Stretch).Inside len start n ↔
      n = 0 ∨ (0 ≤ start ∧ 0 < n ∧ start + n ≤ len) := by
  have hfirst := wrap32_cast hstart
  have hcount := wrap32_cast hn
  unfold InRange32 at hstart hn
  constructor
  · intro h
    by_cases hzero : n = 0
    · exact .inl hzero
    · -- The first and the last cell say where the stretch is.
      have hpos : 0 < wrap32 n := by
        split at hcount <;> omega
      have hhead := h (wrap32 start) (Nat.le_refl _) (Nat.lt_add_of_pos_right hpos)
      have hlast := h (wrap32 start + wrap32 n - 1)
        (Nat.le_sub_of_add_le (Nat.add_le_add_left hpos _)) (Nat.sub_lt (by omega) (by decide))
      have hnonneg : 0 ≤ n := by omega
      have hinside : 0 ≤ start := by
        by_contra hneg
        rw [if_neg hneg] at hfirst
        omega
      rw [if_pos hnonneg] at hcount
      rw [if_pos hinside] at hfirst
      exact .inr ⟨hinside, by omega, by omega⟩
  · rintro (rfl | ⟨hs, hpos, hfit⟩) i hlo hhi
    · exact absurd hhi (Nat.not_lt_of_ge hlo)
    · rw [if_pos hs] at hfirst
      rw [if_pos (by omega)] at hcount
      dsimp only at hlo hhi
      omega

/-- **Inside the caller's bytevector.**  The runtime keeps to the stretch that it is asked for, and
to the bytevector, for a stretch of the bytevector, for no bytes at all, and where the foreign
procedure refuses an argument; for any other arguments it goes outside. -/
theorem staysInside_iff (c : Call) (e : Endian) (junk : Nat → UInt8) (bv : List UInt8)
    (start n : Int) :
    c.StaysInside e junk bv start n ↔
      ¬ c.Taken start n ∨ n = 0 ∨ (0 ≤ start ∧ 0 < n ∧ start + n ≤ bv.length) := by
  constructor
  · intro h
    by_cases htaken : c.Taken start n
    · have hranges := Call.ranges htaken
      have hinside := h _ ((Call.touches_eq_some e junk bv c _).mpr ⟨htaken, rfl⟩)
      exact .inr ((inside_iff hranges.1 hranges.2).mp hinside)
    · exact .inl htaken
  · intro h s hs
    obtain ⟨htaken, rfl⟩ := (Call.touches_eq_some e junk bv c s).mp hs
    have hranges := Call.ranges htaken
    rcases h with hno | hok
    · exact absurd htaken hno
    · exact (inside_iff hranges.1 hranges.2).mpr hok

/-- Four bytes from the third one on, of a bytevector that has four. -/
theorem pinned_past_the_end :
    ¬ (Call.writeBang 3 (-1)).StaysInside .little (fun _ => 0) [1, 2, 3, 4] 2 4 := by
  intro h
  have hlast := h ⟨2, 4⟩ (by decide) 5 (by decide) (by decide)
  exact absurd hlast.2.2 (by decide)

end

end ChezAsync.Transfer
