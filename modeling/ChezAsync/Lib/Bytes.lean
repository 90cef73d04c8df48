import Mathlib.Data.List.Basic
import Mathlib.Tactic.Common

/-!
# Stretches of memory

Blocks of memory are lists of cells.  `readAt` and `writeAt` are the checked accesses, which fail
outside the block; `slice` and `overlay` are what they read and leave inside it.  Loops that copy a
block piece by piece copy it as a whole, and words of any number of bytes are read back as they
were written, in either byte order.
-/

universe u

namespace Bytes

variable {α : Type u}

/-! ## 1. Reading and writing -/

/-- The `n` cells from the `i`-th one on. -/
def slice (xs : List α) (i n : Nat) : List α := (xs.drop i).take n

/-- The block `xs` with `ys` written over it from the `i`-th cell on. -/
def overlay (xs : List α) (i : Nat) (ys : List α) : List α :=
  xs.take i ++ ys ++ xs.drop (i + ys.length)

def readAt (xs : List α) (i n : Nat) : Option (List α) :=
  if i + n ≤ xs.length then some (slice xs i n) else none

def writeAt (xs : List α) (i : Nat) (ys : List α) : Option (List α) :=
  if i + ys.length ≤ xs.length then some (overlay xs i ys) else none

theorem readAt_eq {xs : List α} {i n : Nat} (h : i + n ≤ xs.length) :
    readAt xs i n = some (slice xs i n) := if_pos h

theorem writeAt_eq {xs : List α} {i : Nat} {ys : List α} (h : i + ys.length ≤ xs.length) :
    writeAt xs i ys = some (overlay xs i ys) := if_pos h

theorem length_slice {xs : List α} {i n : Nat} (h : i + n ≤ xs.length) :
    (slice xs i n).length = n := by
  rw [slice, List.length_take, List.length_drop]
  omega

theorem slice_zero (xs : List α) (i : Nat) : slice xs i 0 = [] := List.take_zero

theorem slice_all (xs : List α) : slice xs 0 xs.length = xs := by
  rw [slice, List.drop_zero, List.take_length]

-- Two stretches one behind the other are one stretch.
theorem slice_append (xs : List α) (i m n : Nat) :
    slice xs i m ++ slice xs (i + m) n = slice xs i (m + n) := by
  rw [slice, slice, slice, List.take_add, List.drop_drop]

theorem length_overlay {xs : List α} {i : Nat} {ys : List α} (h : i + ys.length ≤ xs.length) :
    (overlay xs i ys).length = xs.length := by
  simp only [overlay, List.length_append, List.length_take, List.length_drop]
  omega

theorem overlay_nil (xs : List α) (i : Nat) : overlay xs i [] = xs := by
  rw [overlay, List.append_nil, List.length_nil, Nat.add_zero, List.take_append_drop]

/-- A write right behind another one. -/
theorem overlay_overlay {xs : List α} {i : Nat} {ys zs : List α}
    (h : i + ys.length + zs.length ≤ xs.length) :
    overlay (overlay xs i ys) (i + ys.length) zs = overlay xs i (ys ++ zs) := by
  have htake : (xs.take i).length = i := by
    rw [List.length_take]
    omega
  have hfront : (xs.take i ++ ys).length = i + ys.length := by
    rw [List.length_append, htake]
  have hdrop : (overlay xs i ys).drop (i + ys.length + zs.length) =
      xs.drop (i + ys.length + zs.length) := by
    rw [overlay, ← List.drop_drop, List.drop_append_of_le_length (Nat.le_of_eq hfront.symm),
      List.drop_of_length_le (Nat.le_of_eq hfront), List.nil_append, List.drop_drop]
  rw [overlay, hdrop, overlay, List.take_append_of_le_length (Nat.le_of_eq hfront.symm),
    List.take_of_length_le (Nat.le_of_eq hfront), overlay, List.length_append, List.append_assoc,
    List.append_assoc, List.append_assoc, List.append_assoc, Nat.add_assoc]

-- A read that goes over the end has no result, however little.
theorem readAt_none {xs : List α} {i n : Nat} (h : ¬ i + n ≤ xs.length) : readAt xs i n = none :=
  if_neg h

theorem writeAt_none {xs : List α} {i : Nat} {ys : List α} (h : ¬ i + ys.length ≤ xs.length) :
    writeAt xs i ys = none := if_neg h

/-- A write over the whole front of a block. -/
theorem overlay_front (xs ys : List α) : overlay xs 0 ys = ys ++ xs.drop ys.length := by
  rw [overlay, List.take_zero, List.nil_append, Nat.zero_add]

-- What has been written is read back.
theorem slice_overlay {xs : List α} {i : Nat} {ys : List α} (h : i + ys.length ≤ xs.length) :
    slice (overlay xs i ys) i ys.length = ys := by
  have htake : (xs.take i).length = i := by
    rw [List.length_take]
    omega
  rw [slice, overlay, List.append_assoc, List.drop_append_of_le_length (Nat.le_of_eq htake.symm),
    List.drop_of_length_le (Nat.le_of_eq htake), List.nil_append, List.take_left]

/-- A write leaves the cells before it and behind it as they are. -/
theorem getElem?_overlay {xs : List α} {i j : Nat} {ys : List α} (h : i + ys.length ≤ xs.length)
    (hj : j < i ∨ i + ys.length ≤ j) : (overlay xs i ys)[j]? = xs[j]? := by
  have htake : (xs.take i).length = i := by
    rw [List.length_take]
    omega
  have hfront : (xs.take i ++ ys).length = i + ys.length := by
    rw [List.length_append, htake]
  rw [overlay]
  rcases hj with hlt | hge
  · rw [List.append_assoc, List.getElem?_append_left (by omega), List.getElem?_take_of_lt hlt]
  · rw [List.getElem?_append_right (by omega), hfront, List.getElem?_drop]
    congr 1
    omega

/-! ## 2. Loops -/

section
variable {σ : Type u}

/-- `k` rounds of a loop whose counter starts at `i` and goes up by `d`. -/
def loop (body : Nat → σ → Option σ) (d : Nat) : Nat → Nat → σ → Option σ
  | 0, _, s => some s
  | k + 1, i, s => (body i s).bind fun s => loop body d k (i + d) s

/-- The counters of the rounds. -/
def counters (d k i : Nat) : List Nat := (List.range k).map fun j => i + d * j

theorem counters_succ (d k i : Nat) : counters d (k + 1) i = i :: counters d k (i + d) := by
  rw [counters, List.range_succ_eq_map, List.map_cons, List.map_map, counters, Nat.mul_zero,
    Nat.add_zero]
  congr 1
  refine List.map_congr_left fun j _ => ?_
  rw [Function.comp_apply, Nat.mul_succ]
  omega

-- A loop is its rounds in the order of their counters.
theorem loop_eq_foldlM (body : Nat → σ → Option σ) (d k i : Nat) (s : σ) :
    loop body d k i s = (counters d k i).foldlM (fun s i => body i s) s := by
  induction k generalizing i s with
  | zero => rfl
  | succ k ih =>
    rw [loop, counters_succ, List.foldlM_cons]
    exact congrArg (Option.bind (body i s)) (funext (ih (i + d)))

end

/-- **Copying piece by piece.**  A loop that copies `d` cells in each round, at counters that are
multiples of `d`, copies the stretch that its counter runs over. -/
theorem loop_copy {body : Nat → List α → Option (List α)} {d : Nat} {src : List α}
    (hbody : ∀ i xs, d ∣ i → i + d ≤ src.length → i + d ≤ xs.length →
      body i xs = some (overlay xs i (slice src i d)))
    (k : Nat) {i : Nat} {xs : List α} (hi : d ∣ i) (hsrc : i + k * d ≤ src.length)
    (hxs : i + k * d ≤ xs.length) :
    loop body d k i xs = some (overlay xs i (slice src i (k * d))) := by
  induction k generalizing i xs with
  | zero => rw [loop, Nat.zero_mul, slice_zero, overlay_nil]
  | succ k ih =>
    rw [Nat.succ_mul] at hsrc hxs ⊢
    have hlen : (slice src i d).length = d := length_slice (by omega)
    have hlen' : (slice src (i + d) (k * d)).length = k * d := length_slice (by omega)
    have hover : (overlay xs i (slice src i d)).length = xs.length :=
      length_overlay (by rw [hlen]; omega)
    have hrest := @ih (i + d) (overlay xs i (slice src i d))
      ((Nat.dvd_add_right hi).mpr (Nat.dvd_refl d)) (by omega) (by rw [hover]; omega)
    have hjoin : overlay (overlay xs i (slice src i d)) (i + d) (slice src (i + d) (k * d)) =
        overlay xs i (slice src i d ++ slice src (i + d) (k * d)) := by
      have h := @overlay_overlay _ xs i (slice src i d) (slice src (i + d) (k * d))
        (by rw [hlen, hlen']; omega)
      rw [hlen] at h
      exact h
    rw [loop, hbody i xs hi (by omega) (by omega), Option.bind_some, hrest, hjoin, slice_append,
      Nat.add_comm d]

/-- A loop that leaves the stretch of its counter fails. -/
theorem loop_copy_none {body : Nat → List α → Option (List α)} {d : Nat} {src : List α}
    (hbody : ∀ i xs, d ∣ i → i + d ≤ src.length → i + d ≤ xs.length →
      body i xs = some (overlay xs i (slice src i d)))
    (hfail : ∀ i xs, ¬ (i + d ≤ src.length ∧ i + d ≤ xs.length) → body i xs = none)
    (k : Nat) {i : Nat} {xs : List α} (hi : d ∣ i) (hpos : 0 < k)
    (hout : ¬ (i + k * d ≤ src.length ∧ i + k * d ≤ xs.length)) :
    loop body d k i xs = none := by
  induction k generalizing i xs with
  | zero => exact absurd hpos (Nat.lt_irrefl 0)
  | succ k ih =>
    rw [Nat.succ_mul] at hout
    by_cases hin : i + d ≤ src.length ∧ i + d ≤ xs.length
    · have hlen : (slice src i d).length = d := length_slice hin.1
      have hover : (overlay xs i (slice src i d)).length = xs.length :=
        length_overlay (by rw [hlen]; exact hin.2)
      rw [loop, hbody i xs hi hin.1 hin.2, Option.bind_some]
      -- the first round is inside: it is a later one that fails
      refine ih ((Nat.dvd_add_right hi).mpr (Nat.dvd_refl d)) ?_ ?_
      · rcases Nat.eq_zero_or_pos k with rfl | hk
        · omega
        · exact hk
      · rw [hover]
        omega
    · rw [loop, hfail i xs hin, Option.bind_none]

/-! ## 3. Stretches that tile another one -/

/-- The stretches `ps`, each with its first cell and its length, lie between `a` and `b`, none of
them overlaps a later one, and every cell between `a` and `b` is in one of them. -/
structure Tiles (ps : List (Nat × Nat)) (a b : Nat) : Prop where
  inside : ∀ p ∈ ps, a ≤ p.1 ∧ p.1 + p.2 ≤ b
  apart : ps.Pairwise fun p q => p.1 + p.2 ≤ q.1
  cover : ∀ j, a ≤ j → j < b → ∃ p ∈ ps, p.1 ≤ j ∧ j < p.1 + p.2

theorem tiles_nil (a : Nat) : Tiles [] a a :=
  ⟨fun _ hp => absurd hp List.not_mem_nil, List.Pairwise.nil, fun _ ha hb => by omega⟩

theorem tiles_single (a n : Nat) : Tiles [(a, n)] a (a + n) := by
  refine ⟨?_, List.pairwise_singleton _ _, ?_⟩
  · intro p hp
    rw [List.mem_singleton.mp hp]
    exact ⟨Nat.le_refl a, Nat.le_refl (a + n)⟩
  · exact fun j ha hb => ⟨(a, n), List.mem_singleton_self _, ha, hb⟩

-- Tilings are put together at a common border.
theorem Tiles.append {ps qs : List (Nat × Nat)} {a b c : Nat} (hps : Tiles ps a b)
    (hqs : Tiles qs b c) (hab : a ≤ b) (hbc : b ≤ c) : Tiles (ps ++ qs) a c := by
  refine ⟨?_, ?_, ?_⟩
  · intro p hp
    rcases List.mem_append.mp hp with hp | hp
    · exact ⟨(hps.inside p hp).1, Nat.le_trans (hps.inside p hp).2 hbc⟩
    · exact ⟨Nat.le_trans hab (hqs.inside p hp).1, (hqs.inside p hp).2⟩
  · refine List.pairwise_append.mpr ⟨hps.apart, hqs.apart, ?_⟩
    exact fun p hp q hq => Nat.le_trans (hps.inside p hp).2 (hqs.inside q hq).1
  · intro j ha hc
    by_cases hb : j < b
    · obtain ⟨p, hp, hj⟩ := hps.cover j ha hb
      exact ⟨p, List.mem_append_left qs hp, hj⟩
    · obtain ⟨q, hq, hj⟩ := hqs.cover j (Nat.not_lt.mp hb) hc
      exact ⟨q, List.mem_append_right ps hq, hj⟩

/-- The rounds of a loop that works on `d` cells in each of them. -/
theorem tiles_counters (d k i : Nat) :
    Tiles ((counters d k i).map fun i => (i, d)) i (i + d * k) := by
  induction k generalizing i with
  | zero => exact tiles_nil i
  | succ k ih =>
    rw [counters_succ, List.map_cons, Nat.mul_succ, Nat.add_comm (d * k), ← Nat.add_assoc]
    exact (tiles_single i d).append (ih (i + d)) (Nat.le_add_right i d) (Nat.le_add_right _ _)

/-! ## 4. Words -/

inductive Endian
  | little
  | big
  deriving DecidableEq

/-- The value of some bytes, the lowest first. -/
def ofLittle : List UInt8 → Nat
  | [] => 0
  | b :: bs => b.toNat + 256 * ofLittle bs

/-- The `n` lowest bytes of a number, the lowest first. -/
def toLittle : Nat → Nat → List UInt8
  | 0, _ => []
  | n + 1, v => UInt8.ofNat (v % 256) :: toLittle n (v / 256)

-- By induction on the bytes, the lowest first.
theorem toLittle_ofLittle (bs : List UInt8) : toLittle bs.length (ofLittle bs) = bs := by
  induction bs with
  | nil => rfl
  | cons b bs ih =>
    have hb : b.toNat < 256 := b.toNat_lt
    have hmod : (b.toNat + 256 * ofLittle bs) % 256 = b.toNat := by omega
    have hdiv : (b.toNat + 256 * ofLittle bs) / 256 = ofLittle bs := by omega
    rw [List.length_cons, ofLittle, toLittle, hmod, hdiv, ih, UInt8.ofNat_toNat]

def Endian.ofBytes : Endian → List UInt8 → Nat
  | .little, bs => ofLittle bs
  | .big, bs => ofLittle bs.reverse

def Endian.toBytes : Endian → Nat → Nat → List UInt8
  | .little, n, v => toLittle n v
  | .big, n, v => (toLittle n v).reverse

theorem length_toLittle (n v : Nat) : (toLittle n v).length = n := by
  induction n generalizing v with
  | zero => rfl
  | succ n ih => rw [toLittle, List.length_cons, ih]

theorem Endian.length_toBytes (e : Endian) (n v : Nat) : (e.toBytes n v).length = n := by
  cases e with
  | little => exact length_toLittle n v
  | big => exact List.length_reverse.trans (length_toLittle n v)

/-- A word is written as it has been read, whatever the byte order. -/
theorem Endian.toBytes_ofBytes (e : Endian) (bs : List UInt8) :
    e.toBytes bs.length (e.ofBytes bs) = bs := by
  cases e with
  | little => exact toLittle_ofLittle bs
  | big =>
    have h := toLittle_ofLittle bs.reverse
    rw [List.length_reverse] at h
    rw [toBytes, ofBytes, h, List.reverse_reverse]

end Bytes
