import ChezAsync.HighLevel.Buffer

/-!
# Copying by words and by bytes (`buffer.ss`)

The copies of `buffer.ss` go over a block in 64-bit words and finish it byte by byte.  Against the
plain loop over the bytes they are the same function of source and destination, on every input.
-/

namespace ChezAsync.Buffer

open Bytes (Endian Tiles counters slice overlay)

/-- The plain loop: one byte after the other. -/
def copyBytes (src dst : List UInt8) (len : Nat) : Option (List UInt8) :=
  Bytes.loop (fun i dst => do set8 dst i (← ref8 src i)) 1 len 0 dst

/-! ## 1. The accesses of a copy -/

/-- What a round of the two loops touches in the source and in the destination. -/
inductive Access
  | word (i : Nat)
  | byte (i : Nat)

/-- The first cell and the number of cells. -/
def Access.stretch : Access → Nat × Nat
  | .word i => (i, 8)
  | .byte i => (i, 1)

section
variable (e : Endian)

/-- The round of `copy-bytevector-to-foreign!` that makes the access. -/
def Access.toForeign (bv ptr : List UInt8) : Access → Option (List UInt8)
  | .word i => do foreignSet64 e ptr i (← u64NativeRef e bv i)
  | .byte i => do set8 ptr i (← ref8 bv i)

/-- The round of `copy-foreign-to-bytevector!` that makes the access. -/
def Access.toBytevector (ptr bv : List UInt8) : Access → Option (List UInt8)
  | .word i => do u64NativeSet e bv i (← foreignRef64 e ptr i)
  | .byte i => do set8 bv i (← ref8 ptr i)

end

/-- The accesses of a copy of `len` bytes, in order. -/
def accesses (len : Nat) : List Access :=
  (counters 8 (wordsEnd len / 8) 0).map .word ++
    (counters 1 (len - wordsEnd len) (wordsEnd len)).map .byte

-- The words end at `wordsEnd`, which is not after `len`.
theorem word_mem_accesses {len i : Nat} (h : .word i ∈ accesses len) : 8 ∣ i ∧ i + 8 ≤ len := by
  have hle := wordsEnd_le len
  rcases List.mem_append.mp h with h | h
  · obtain ⟨c, hc, heq⟩ := List.mem_map.mp h
    obtain ⟨j, hj, rfl⟩ := List.mem_map.mp hc
    cases heq
    rw [List.mem_range] at hj
    exact ⟨⟨j, by omega⟩, by omega⟩
  · obtain ⟨c, -, heq⟩ := List.mem_map.mp h
    cases heq

/-- No byte is left out and none is touched twice. -/
theorem tiles_accesses (len : Nat) : Tiles ((accesses len).map Access.stretch) 0 len := by
  have hle := wordsEnd_le len
  have hcount : wordsEnd len / 8 * 8 = wordsEnd len := by
    rw [wordsEnd, Nat.mul_div_cancel _ (by decide)]
  have hwords := Bytes.tiles_counters 8 (wordsEnd len / 8) 0
  have hbytes := Bytes.tiles_counters 1 (len - wordsEnd len) (wordsEnd len)
  rw [Nat.zero_add, Nat.mul_comm, hcount] at hwords
  rw [Nat.one_mul, Nat.add_sub_cancel' hle] at hbytes
  have hall := hwords.append hbytes (Nat.zero_le _) hle
  rw [accesses, List.map_append, List.map_map, List.map_map]
  exact hall

/-! ## 2. The copies make these accesses -/

section
variable {e : Endian}

/-- Two loops one behind the other, as one list of rounds. -/
theorem loops_eq_foldlM {round : Access → List UInt8 → Option (List UInt8)} (len : Nat)
    (dst : List UInt8) :
    ((Bytes.loop (fun i dst => round (.word i) dst) 8 (wordsEnd len / 8) 0 dst).bind fun dst =>
      Bytes.loop (fun i dst => round (.byte i) dst) 1 (len - wordsEnd len) (wordsEnd len) dst) =
        (accesses len).foldlM (fun dst a => round a dst) dst := by
  rw [accesses, List.foldlM_append, List.foldlM_map, Bytes.loop_eq_foldlM]
  refine congrArg (Option.bind _) (funext fun dst => ?_)
  rw [List.foldlM_map, Bytes.loop_eq_foldlM]

theorem copyBytevectorToForeign_accesses (bv ptr : List UInt8) :
    copyBytevectorToForeign e bv ptr =
      (accesses bv.length).foldlM (fun ptr a => a.toForeign e bv ptr) ptr :=
  @loops_eq_foldlM (fun a ptr => a.toForeign e bv ptr) bv.length ptr

theorem copyForeignToBytevector_accesses (ptr bv : List UInt8) (len : Nat) :
    copyForeignToBytevector e ptr bv len =
      (accesses len).foldlM (fun bv a => a.toBytevector e ptr bv) bv :=
  @loops_eq_foldlM (fun a bv => a.toBytevector e ptr bv) len bv

end

/-! ## 3. Words and bytes -/

section
variable {e : Endian} {src dst : List UInt8} {i len : Nat}

-- The plain loop copies a front of the source over a front of the destination.
theorem copyBytes_eq (hsrc : len ≤ src.length) (hdst : len ≤ dst.length) :
    copyBytes src dst len = some (src.take len ++ dst.drop len) := by
  have hcopy := @Bytes.loop_copy _ _ 1 src
    (fun i xs (_ : 1 ∣ i) hs hd => @byte_copied src xs i hs hd) len 0 dst
    (Nat.dvd_zero 1) (by omega) (by omega)
  rw [Nat.mul_one, Bytes.overlay_front, Bytes.length_slice (by omega), slice, List.drop_zero]
    at hcopy
  exact hcopy

-- Outside of either side an access has no meaning.
theorem byte_not_copied (h : ¬ (i + 1 ≤ src.length ∧ i + 1 ≤ dst.length)) :
    (do set8 dst i (← ref8 src i)) = none := by
  by_cases hsrc : i < src.length
  · rw [ref8, List.getElem?_eq_getElem hsrc]
    exact Bytes.writeAt_none fun hdst => h ⟨hsrc, hdst⟩
  · rw [ref8, List.getElem?_eq_none (Nat.not_lt.mp hsrc)]
    rfl

-- The same for words, where an unaligned index has none either.
theorem word_not_to_foreign (h : ¬ (i + 8 ≤ src.length ∧ i + 8 ≤ dst.length)) :
    (do foreignSet64 e dst i (← u64NativeRef e src i)) = none := by
  by_cases hi : 8 ∣ i
  · rw [u64NativeRef, if_pos hi]
    by_cases hsrc : i + 8 ≤ src.length
    · rw [Bytes.readAt_eq hsrc]
      refine Bytes.writeAt_none fun hdst => h ⟨hsrc, ?_⟩
      rw [e.length_toBytes] at hdst
      exact hdst
    · rw [Bytes.readAt_none hsrc]
      rfl
  · rw [u64NativeRef, if_neg hi]
    rfl

theorem word_not_to_bytevector (h : ¬ (i + 8 ≤ src.length ∧ i + 8 ≤ dst.length)) :
    (do u64NativeSet e dst i (← foreignRef64 e src i)) = none := by
  rw [foreignRef64]
  by_cases hsrc : i + 8 ≤ src.length
  · rw [Bytes.readAt_eq hsrc]
    show u64NativeSet e dst i _ = none
    rw [u64NativeSet]
    split
    · refine Bytes.writeAt_none fun hdst => h ⟨hsrc, ?_⟩
      rw [e.length_toBytes] at hdst
      exact hdst
    · rfl
  · rw [Bytes.readAt_none hsrc]
    rfl

-- So a copy that does not fit has no meaning as a whole.
theorem copyBytes_none (h : ¬ (len ≤ src.length ∧ len ≤ dst.length)) :
    copyBytes src dst len = none :=
  @Bytes.loop_copy_none _ _ 1 src (fun _ _ _ hs hd => byte_copied hs hd)
    (fun _ _ => byte_not_copied) len 0 dst (Nat.dvd_zero 1) (by omega) (by omega)

/-- A block that is too short fails in one of the two loops. -/
theorem copy_loops_none {words bytes : Nat → List UInt8 → Option (List UInt8)}
    (hwords : ∀ i xs, 8 ∣ i → i + 8 ≤ src.length → i + 8 ≤ xs.length →
      words i xs = some (overlay xs i (slice src i 8)))
    (hwords' : ∀ i xs, ¬ (i + 8 ≤ src.length ∧ i + 8 ≤ xs.length) → words i xs = none)
    (hbytes : ∀ i xs, 1 ∣ i → i + 1 ≤ src.length → i + 1 ≤ xs.length →
      bytes i xs = some (overlay xs i (slice src i 1)))
    (hbytes' : ∀ i xs, ¬ (i + 1 ≤ src.length ∧ i + 1 ≤ xs.length) → bytes i xs = none)
    (h : ¬ (len ≤ src.length ∧ len ≤ dst.length)) :
    ((Bytes.loop words 8 (wordsEnd len / 8) 0 dst).bind fun xs =>
      Bytes.loop bytes 1 (len - wordsEnd len) (wordsEnd len) xs) = none := by
  have hle := wordsEnd_le len
  have hcount : wordsEnd len / 8 * 8 = wordsEnd len := by
    rw [wordsEnd, Nat.mul_div_cancel _ (by decide)]
  by_cases hin : wordsEnd len ≤ src.length ∧ wordsEnd len ≤ dst.length
  · have hhead := @Bytes.loop_copy _ _ _ _ hwords (wordsEnd len / 8) 0 dst (Nat.dvd_zero 8)
      (by omega) (by omega)
    rw [hcount] at hhead
    have hlen : (slice src 0 (wordsEnd len)).length = wordsEnd len :=
      Bytes.length_slice (by omega)
    have hover : (overlay dst 0 (slice src 0 (wordsEnd len))).length = dst.length :=
      Bytes.length_overlay (by rw [hlen]; omega)
    rw [hhead, Option.bind_some]
    -- the words are inside, the bytes that are left are not
    exact Bytes.loop_copy_none hbytes hbytes' _ (Nat.one_dvd _) (by omega) (by rw [hover]; omega)
  · have hpos : 0 < wordsEnd len / 8 := by omega
    rw [Bytes.loop_copy_none hwords hwords' _ (Nat.dvd_zero 8) hpos (by omega), Option.bind_none]

-- When all fits both are known; otherwise both come to nothing.
theorem copyBytevectorToForeign_eq_copyBytes (bv ptr : List UInt8) :
    copyBytevectorToForeign e bv ptr = copyBytes bv ptr bv.length := by
  by_cases h : bv.length ≤ ptr.length
  · rw [copyBytevectorToForeign_eq h, copyBytes_eq (Nat.le_refl _) h, List.take_length]
  · rw [copyBytes_none fun hin => h hin.2]
    exact copy_loops_none (fun _ _ hi hs hd => word_to_foreign hi hs hd)
      (fun _ _ => word_not_to_foreign) (fun _ _ _ hs hd => byte_copied hs hd)
      (fun _ _ => byte_not_copied) fun hin => h hin.2

theorem copyForeignToBytevector_eq_copyBytes (ptr bv : List UInt8) (len : Nat) :
    copyForeignToBytevector e ptr bv len = copyBytes ptr bv len := by
  by_cases h : len ≤ ptr.length ∧ len ≤ bv.length
  · rw [copyForeignToBytevector_eq h.1 h.2, copyBytes_eq h.1 h.2]
  · rw [copyBytes_none h]
    exact copy_loops_none (fun _ _ hi hs hd => word_to_bytevector hi hs hd)
      (fun _ _ => word_not_to_bytevector) (fun _ _ _ hs hd => byte_copied hs hd)
      (fun _ _ => byte_not_copied) h

end

/-! ## 4. What is written -/

/-- The positions before `len` hold the bytes of the source, all others what they have held. -/
structure Copied (src dst : List UInt8) (len : Nat) (out : List UInt8) : Prop where
  length : out.length = dst.length
  inside : ∀ j < len, out[j]? = src[j]?
  outside : ∀ j, len ≤ j → out[j]? = dst[j]?

-- The copy, read back at each position.
theorem copied_copyBytes {src dst : List UInt8} {len : Nat} (hsrc : len ≤ src.length)
    (hdst : len ≤ dst.length) :
    ∃ out, copyBytes src dst len = some out ∧ Copied src dst len out := by
  refine ⟨_, copyBytes_eq hsrc hdst, ?_, ?_, ?_⟩
  · rw [List.length_append, List.length_take, List.length_drop]
    omega
  · intro j hj
    rw [List.getElem?_append_left (by rw [List.length_take]; omega),
      List.getElem?_take_of_lt hj]
  · intro j hj
    have hlen : (src.take len).length = len := by
      rw [List.length_take]
      omega
    rw [List.getElem?_append_right (by omega), hlen, List.getElem?_drop]
    congr 1
    omega

/-- A copy is the plain byte loop, and makes the accesses of `accesses`. -/
structure CopiesAs (copy : List UInt8 → Option (List UInt8)) (src : List UInt8) (len : Nat)
    (round : List UInt8 → Access → Option (List UInt8)) : Prop where
  plain : ∀ dst, copy dst = copyBytes src dst len
  rounds : ∀ dst, copy dst = (accesses len).foldlM round dst
  copied : ∀ dst, len ≤ src.length → len ≤ dst.length → ∃ out, copy dst = some out ∧
    Copied src dst len out

/-- **Chunked copies.**  Both copies do what the plain byte loop does, with accesses that tile the
positions `0` to `len - 1`, the 64-bit ones at aligned indices within bounds; and a bytevector comes
back from foreign memory as it was. -/
theorem chunked_copy (e : Endian) :
    (∀ bv, CopiesAs (copyBytevectorToForeign e bv) bv bv.length
      fun ptr a => a.toForeign e bv ptr) ∧
    (∀ ptr len, CopiesAs (fun bv => copyForeignToBytevector e ptr bv len) ptr len
      fun bv a => a.toBytevector e ptr bv) ∧
    (∀ len, Tiles ((accesses len).map Access.stretch) 0 len ∧
      ∀ i, .word i ∈ accesses len → 8 ∣ i ∧ i + 8 ≤ len) ∧
    (∀ junk junk' bv, ((bytevectorToForeign e junk bv).bind fun p =>
      foreignToBytevector e junk' p.1 p.2) = some bv) := by
  refine ⟨fun bv => ⟨?_, ?_, ?_⟩, fun ptr len => ⟨?_, ?_, ?_⟩, fun len => ?_,
    fun junk junk' bv => ?_⟩
  · exact copyBytevectorToForeign_eq_copyBytes bv
  · exact copyBytevectorToForeign_accesses bv
  · intro dst hsrc hdst
    rw [copyBytevectorToForeign_eq_copyBytes]
    exact copied_copyBytes hsrc hdst
  · exact fun bv => copyForeignToBytevector_eq_copyBytes ptr bv len
  · exact fun bv => copyForeignToBytevector_accesses ptr bv len
  · intro dst hsrc hdst
    rw [copyForeignToBytevector_eq_copyBytes]
    exact copied_copyBytes hsrc hdst
  · exact ⟨tiles_accesses len, fun i hi => word_mem_accesses hi⟩
  · rw [bytevectorToForeign_eq, Option.bind_some, foreignToBytevector_eq junk' (Nat.le_refl _),
      List.take_length]

end ChezAsync.Buffer
