import Mathlib.Algebra.Group.Int.Defs
import Mathlib.Algebra.Group.Nat.Defs
import ChezAsync.Lib.Bytes

/-!
# Bytevectors and foreign memory (`buffer.ss`)

The copies between bytevectors and foreign blocks: a loop over 64-bit words in the native byte order
and a loop over the bytes that are left.  A foreign pointer is the block that it points to, the null
pointer one without cells; an access outside of a block or a bytevector fails.
-/

namespace ChezAsync.Buffer

open Bytes (Endian readAt writeAt slice overlay)

/-! ## 1. Chez Scheme -/

/-- `(foreign-alloc n)` and `(make-bytevector n)`: nobody says what the new cells hold. -/
def alloc (junk : Nat → UInt8) (n : Nat) : List UInt8 := (List.range n).map junk

theorem length_alloc (junk : Nat → UInt8) (n : Nat) : (alloc junk n).length = n := by
  rw [alloc, List.length_map, List.length_range]

section
variable (e : Endian)

/-- `(bytevector-u64-native-ref bv i)`, which asks for an aligned index. -/
def u64NativeRef (bv : List UInt8) (i : Nat) : Option Nat :=
  if 8 ∣ i then (readAt bv i 8).map e.ofBytes else none

def u64NativeSet (bv : List UInt8) (i v : Nat) : Option (List UInt8) :=
  if 8 ∣ i then writeAt bv i (e.toBytes 8 v) else none

/-- `(foreign-ref 'unsigned-64 ptr i)` -/
def foreignRef64 (ptr : List UInt8) (i : Nat) : Option Nat := (readAt ptr i 8).map e.ofBytes

def foreignSet64 (ptr : List UInt8) (i v : Nat) : Option (List UInt8) :=
  writeAt ptr i (e.toBytes 8 v)

/-- `bytevector-u8-ref`, and `(foreign-ref 'unsigned-8 ptr i)`. -/
def ref8 (xs : List UInt8) (i : Nat) : Option UInt8 := xs[i]?

def set8 (xs : List UInt8) (i : Nat) (b : UInt8) : Option (List UInt8) := writeAt xs i [b]

/-- `(bytevector-copy! src i dst j n)` -/
def bytevectorCopy (src : List UInt8) (i : Nat) (dst : List UInt8) (j n : Nat) :
    Option (List UInt8) := do
  let bytes ← readAt src i n
  writeAt dst j bytes

/-! ## 2. The copies -/

/-- `(fxand len (fxnot 7))` -/
def wordsEnd (len : Nat) : Nat := len / 8 * 8

/-- `copy-bytevector-to-foreign!` -/
def copyBytevectorToForeign (bv ptr : List UInt8) : Option (List UInt8) := do
  let len := bv.length
  let n8 := wordsEnd len
  let ptr ← Bytes.loop (fun i ptr => do foreignSet64 e ptr i (← u64NativeRef e bv i)) 8 (n8 / 8) 0 ptr
  Bytes.loop (fun i ptr => do set8 ptr i (← ref8 bv i)) 1 (len - n8) n8 ptr

/-- `copy-foreign-to-bytevector!` -/
def copyForeignToBytevector (ptr bv : List UInt8) (len : Nat) : Option (List UInt8) := do
  let n8 := wordsEnd len
  let bv ← Bytes.loop (fun i bv => do u64NativeSet e bv i (← foreignRef64 e ptr i)) 8 (n8 / 8) 0 bv
  Bytes.loop (fun i bv => do set8 bv i (← ref8 ptr i)) 1 (len - n8) n8 bv

/-- `bytevector->foreign` -/
def bytevectorToForeign (junk : Nat → UInt8) (bv : List UInt8) :
    Option (List UInt8 × Nat) :=
  let len := bv.length
  if len = 0 then some ([], 0)
  else do
    let ptr ← copyBytevectorToForeign e bv (alloc junk len)
    some (ptr, len)

/-- `foreign->bytevector` -/
def foreignToBytevector (junk : Nat → UInt8) (ptr : List UInt8) (length : Nat) :
    Option (List UInt8) :=
  if length = 0 then some []
  else copyForeignToBytevector e ptr (alloc junk length) length

end

/-! ## 3. What they copy -/

section
variable {e : Endian} {src dst : List UInt8} {i : Nat}

/-- A round of the loop over the words of a bytevector. -/
theorem word_to_foreign (hi : 8 ∣ i) (hsrc : i + 8 ≤ src.length) (hdst : i + 8 ≤ dst.length) :
    (do foreignSet64 e dst i (← u64NativeRef e src i)) = some (overlay dst i (slice src i 8)) := by
  have hlen := Bytes.length_slice hsrc
  have hword : e.toBytes 8 (e.ofBytes (slice src i 8)) = slice src i 8 := by
    have h := e.toBytes_ofBytes (slice src i 8)
    rw [hlen] at h
    exact h
  rw [u64NativeRef, if_pos hi, Bytes.readAt_eq hsrc]
  show writeAt dst i (e.toBytes 8 (e.ofBytes (slice src i 8))) = _
  rw [hword]
  exact Bytes.writeAt_eq (by rw [hlen]; exact hdst)

theorem word_to_bytevector (hi : 8 ∣ i) (hsrc : i + 8 ≤ src.length) (hdst : i + 8 ≤ dst.length) :
    (do u64NativeSet e dst i (← foreignRef64 e src i)) = some (overlay dst i (slice src i 8)) := by
  have hlen := Bytes.length_slice hsrc
  have hword : e.toBytes 8 (e.ofBytes (slice src i 8)) = slice src i 8 := by
    have h := e.toBytes_ofBytes (slice src i 8)
    rw [hlen] at h
    exact h
  rw [foreignRef64, Bytes.readAt_eq hsrc]
  show u64NativeSet e dst i (e.ofBytes (slice src i 8)) = _
  rw [u64NativeSet, if_pos hi, hword]
  exact Bytes.writeAt_eq (by rw [hlen]; exact hdst)

theorem byte_copied (hsrc : i + 1 ≤ src.length) (hdst : i + 1 ≤ dst.length) :
    (do set8 dst i (← ref8 src i)) = some (overlay dst i (slice src i 1)) := by
  have hlt : i < src.length := hsrc
  have hone : slice src i 1 = [src[i]] := by
    rw [slice, List.drop_eq_getElem_cons hlt]
    rfl
  rw [ref8, List.getElem?_eq_getElem hlt, hone]
  exact Bytes.writeAt_eq hdst

theorem wordsEnd_le (len : Nat) : wordsEnd len ≤ len := Nat.div_mul_le_self len 8

/-- Two loops, one behind the other. -/
theorem copy_loops {words bytes : Nat → List UInt8 → Option (List UInt8)} {len : Nat}
    (hwords : ∀ i xs, 8 ∣ i → i + 8 ≤ src.length → i + 8 ≤ xs.length →
      words i xs = some (overlay xs i (slice src i 8)))
    (hbytes : ∀ i xs, 1 ∣ i → i + 1 ≤ src.length → i + 1 ≤ xs.length →
      bytes i xs = some (overlay xs i (slice src i 1)))
    (hsrc : len ≤ src.length) (hdst : len ≤ dst.length) :
    ((Bytes.loop words 8 (wordsEnd len / 8) 0 dst).bind fun xs =>
      Bytes.loop bytes 1 (len - wordsEnd len) (wordsEnd len) xs) =
        some (src.take len ++ dst.drop len) := by
  have hle := wordsEnd_le len
  have hcount : wordsEnd len / 8 * 8 = wordsEnd len := by
    rw [wordsEnd, Nat.mul_div_cancel _ (by decide)]
  have hhead := @Bytes.loop_copy _ _ _ _ hwords (wordsEnd len / 8) 0 dst (Nat.dvd_zero 8)
    (by omega) (by omega)
  rw [hcount] at hhead
  have hlen : (slice src 0 (wordsEnd len)).length = wordsEnd len :=
    Bytes.length_slice (by omega)
  have hover : (overlay dst 0 (slice src 0 (wordsEnd len))).length = dst.length :=
    Bytes.length_overlay (by rw [hlen]; omega)
  have htail := @Bytes.loop_copy _ _ _ _ hbytes (len - wordsEnd len) (wordsEnd len)
    (overlay dst 0 (slice src 0 (wordsEnd len))) (Nat.one_dvd _) (by omega)
    (by rw [hover]; omega)
  rw [Nat.mul_one] at htail
  have hrest : (slice src (wordsEnd len) (len - wordsEnd len)).length = len - wordsEnd len :=
    Bytes.length_slice (by omega)
  have hjoin : overlay (overlay dst 0 (slice src 0 (wordsEnd len))) (wordsEnd len)
      (slice src (wordsEnd len) (len - wordsEnd len)) = src.take len ++ dst.drop len := by
    have h := @Bytes.overlay_overlay _ dst 0 (slice src 0 (wordsEnd len))
      (slice src (wordsEnd len) (len - wordsEnd len)) (by rw [hlen, hrest]; omega)
    have happend := Bytes.slice_append src 0 (wordsEnd len) (len - wordsEnd len)
    rw [Nat.zero_add] at happend
    rw [hlen, Nat.zero_add, happend, Nat.add_sub_cancel' hle] at h
    rw [h, Bytes.overlay_front dst (slice src 0 len), Bytes.length_slice (by omega), slice,
      List.drop_zero]
  rw [hhead, Option.bind_some, htail, hjoin]

/-- **To foreign memory.**  The front of the block becomes the bytevector, and nothing else is
written. -/
theorem copyBytevectorToForeign_eq {bv ptr : List UInt8} (h : bv.length ≤ ptr.length) :
    copyBytevectorToForeign e bv ptr = some (bv ++ ptr.drop bv.length) := by
  have hloops := @copy_loops bv ptr _ _ bv.length
    (fun _ _ hi hs hd => word_to_foreign (e := e) hi hs hd) (fun _ _ _ hs hd => byte_copied hs hd)
    (Nat.le_refl _) h
  rw [List.take_length] at hloops
  exact hloops

/-- **From foreign memory.** -/
theorem copyForeignToBytevector_eq {ptr bv : List UInt8} {len : Nat} (hptr : len ≤ ptr.length)
    (hbv : len ≤ bv.length) :
    copyForeignToBytevector e ptr bv len = some (ptr.take len ++ bv.drop len) :=
  @copy_loops ptr bv _ _ len (fun _ _ hi hs hd => word_to_bytevector (e := e) hi hs hd)
    (fun _ _ _ hs hd => byte_copied hs hd) hptr hbv

theorem bytevectorToForeign_eq (junk : Nat → UInt8) (bv : List UInt8) :
    bytevectorToForeign e junk bv = some (bv, bv.length) := by
  dsimp only [bytevectorToForeign]
  split
  case isTrue h =>
    rw [List.length_eq_zero_iff] at h
    subst h
    rfl
  case isFalse =>
    have hlen : bv.length ≤ (alloc junk bv.length).length := Nat.le_of_eq (length_alloc _ _).symm
    have hdrop : (alloc junk bv.length).drop bv.length = [] :=
      List.drop_of_length_le (Nat.le_of_eq (length_alloc _ _))
    simp only [copyBytevectorToForeign_eq hlen, hdrop, List.append_nil, Option.bind_eq_bind,
      Option.bind_some]

theorem foreignToBytevector_eq (junk : Nat → UInt8) {ptr : List UInt8} {n : Nat}
    (h : n ≤ ptr.length) : foreignToBytevector e junk ptr n = some (ptr.take n) := by
  unfold foreignToBytevector
  split
  case isTrue hn => rw [hn, List.take_zero]
  case isFalse =>
    have hdrop : (alloc junk n).drop n = [] :=
      List.drop_of_length_le (Nat.le_of_eq (length_alloc _ _))
    rw [copyForeignToBytevector_eq h (Nat.le_of_eq (length_alloc _ _).symm), hdrop,
      List.append_nil]

theorem bytevectorCopy_eq {j n : Nat} (hsrc : i + n ≤ src.length) (hdst : j + n ≤ dst.length) :
    bytevectorCopy src i dst j n = some (overlay dst j (slice src i n)) := by
  have hlen := Bytes.length_slice hsrc
  rw [bytevectorCopy, Bytes.readAt_eq hsrc]
  exact Bytes.writeAt_eq (by rw [hlen]; exact hdst)

end

/-! ## 4. Arguments of foreign procedures -/

/-- What a 32-bit parameter takes: the numbers of either reading, modulo `2 ^ 32`. -/
def InRange32 (n : Int) : Prop := -2 ^ 31 ≤ n ∧ n < 2 ^ 32

instance (n : Int) : Decidable (InRange32 n) := inferInstanceAs (Decidable (_ ∧ _))

/-- An `int` argument; any other number raises. -/
def int32 (n : Int) : Option Int := if InRange32 n then some (n.bmod (2 ^ 32)) else none

/-- An `unsigned-32` argument. -/
def unsigned32 (n : Int) : Option Nat :=
  if InRange32 n then some (n % 2 ^ 32).toNat else none

/-- What a 64-bit parameter takes. -/
def InRange64 (n : Int) : Prop := -2 ^ 63 ≤ n ∧ n < 2 ^ 64

instance (n : Int) : Decidable (InRange64 n) := inferInstanceAs (Decidable (_ ∧ _))

/-- An `integer-64` argument. -/
def integer64 (n : Int) : Option Int := if InRange64 n then some (n.bmod (2 ^ 64)) else none

theorem int32_eq_some {n m : Int} (h : int32 n = some m) :
    InRange32 n ∧ m = if n < 2 ^ 31 then n else n - 2 ^ 32 := by
  simp only [int32, Option.ite_none_right_eq_some, Option.some.injEq] at h
  refine ⟨h.1, h.2.symm.trans ?_⟩
  have hrange := h.1
  unfold InRange32 at hrange
  have hbmod := Int.bmod_def n (2 ^ 32)
  split <;> omega

theorem int32_of_int {n : Int} (hlo : -2 ^ 31 ≤ n) (hhi : n < 2 ^ 31) : int32 n = some n := by
  have hrange : InRange32 n := ⟨hlo, by omega⟩
  have heq : int32 n = some (n.bmod (2 ^ 32)) := if_pos hrange
  rw [heq, (int32_eq_some heq).2, if_pos hhi]

theorem unsigned32_eq_some {n : Int} {m : Nat} (h : unsigned32 n = some m) :
    InRange32 n ∧ (m : Int) = if 0 ≤ n then n else n + 2 ^ 32 := by
  simp only [unsigned32, Option.ite_none_right_eq_some, Option.some.injEq] at h
  refine ⟨h.1, ?_⟩
  have hrange := h.1
  have hm := h.2
  unfold InRange32 at hrange
  split <;> omega

theorem unsigned32_of_nat {n : Nat} (h : n < 2 ^ 32) : unsigned32 n = some n := by
  have hrange : InRange32 n := by
    unfold InRange32
    omega
  rw [unsigned32, if_pos hrange, Option.some.injEq]
  omega

end ChezAsync.Buffer
