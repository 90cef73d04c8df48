import Mathlib.Data.List.GetD
import Mathlib.Logic.Function.Basic
import ChezAsync.Lib.Bytes

/-!
# Objects that a collector moves

A flat memory, and in it objects: a header and then the cells, from a base address on.  A copying
collector keeps some of the objects and gives each of them a new base; the rest of the memory is
whatever it leaves there.  Reads and writes go by address.  The file says what such a read or write
is to the objects, as long as no two of them overlap.
-/

universe u v

namespace Relocation

open Bytes (slice overlay)

variable {ι : Type u} {β : Type v}

/-! ## 1. Reads and writes by address -/

def peek (mem : Nat → β) (a n : Nat) : List β := (List.range' a n).map mem

def poke (mem : Nat → β) (a : Nat) (bs : List β) : Nat → β :=
  fun x => if a ≤ x then bs.getD (x - a) (mem x) else mem x

section
variable {mem mem' : Nat → β} {a b k m n : Nat} {bs : List β}

@[simp] theorem length_peek : (peek mem a n).length = n := by
  rw [peek, List.length_map, List.length_range']

theorem peek_congr (h : ∀ i < n, mem (a + i) = mem' (b + i)) : peek mem a n = peek mem' b n := by
  apply List.ext_getElem
  · rw [length_peek, length_peek]
  · intro i hi _
    rw [length_peek] at hi
    simp only [peek, List.getElem_map, List.getElem_range', Nat.one_mul]
    exact h i hi

theorem peek_append (mem : Nat → β) (a m n : Nat) :
    peek mem a m ++ peek mem (a + m) n = peek mem a (m + n) := by
  rw [peek, peek, peek, ← List.map_append, ← List.range'_append, Nat.one_mul]

theorem slice_peek (h : k + m ≤ n) : slice (peek mem a n) k m = peek mem (a + k) m := by
  obtain ⟨d, rfl⟩ := Nat.exists_eq_add_of_le h
  rw [slice, Nat.add_assoc, ← peek_append, List.drop_left' length_peek, ← peek_append,
    List.take_left' length_peek]

theorem peek_poke_self (mem : Nat → β) (a : Nat) (bs : List β) :
    peek (poke mem a bs) a bs.length = bs := by
  apply List.ext_getElem
  · exact length_peek
  · intro i hi hi'
    have hle : a ≤ a + i := by omega
    simp only [peek, List.getElem_map, List.getElem_range', Nat.one_mul, poke, if_pos hle,
      Nat.add_sub_cancel_left]
    rw [List.getD_eq_getElem _ _ hi']

theorem peek_poke_apart (h : a + bs.length ≤ b ∨ b + n ≤ a) :
    peek (poke mem a bs) b n = peek mem b n := by
  apply peek_congr
  intro i hi
  unfold poke
  split
  · rw [List.getD_eq_default _ _ (by omega)]
  · rfl

/-- A write into a stretch that is read. -/
theorem peek_poke (h : k + bs.length ≤ n) :
    peek (poke mem (a + k) bs) a n = overlay (peek mem a n) k bs := by
  have hsplit : n = k + (bs.length + (n - (k + bs.length))) := by omega
  have htail : slice (peek mem a n) (k + bs.length) (n - (k + bs.length)) =
      (peek mem a n).drop (k + bs.length) := by
    rw [slice, List.take_of_length_le]
    simp
  have hfront : slice (peek mem a n) 0 k = (peek mem a n).take k := by rw [slice, List.drop_zero]
  rw [overlay, ← hfront, ← htail, slice_peek (by omega), slice_peek (by omega), Nat.add_zero]
  conv_lhs => rw [hsplit]
  rw [← peek_append, ← peek_append, peek_poke_self, peek_poke_apart (by omega),
    peek_poke_apart (by omega), List.append_assoc, Nat.add_assoc a k]

end

/-! ## 2. Objects -/

/-- A memory with its objects: which of them are live, where each begins, how many cells it has. -/
structure Heap (ι : Type u) (β : Type v) where
  mem : Nat → β
  live : List ι
  base : ι → Nat
  size : ι → Nat

variable (header : Nat)

namespace Heap

section
variable (h : Heap ι β) (o : ι)

/-- The address of the first cell. -/
def data : Nat := h.base o + header

/-- The first address behind the object. -/
def top : Nat := h.base o + header + h.size o

def contents : List β := peek h.mem (h.data header o) (h.size o)

@[simp] theorem length_contents : (h.contents header o).length = h.size o := length_peek

/-- No two live objects overlap. -/
def Apart : Prop :=
  ∀ o ∈ h.live, ∀ o' ∈ h.live, o ≠ o' → h.top header o ≤ h.base o' ∨ h.top header o' ≤ h.base o

instance [DecidableEq ι] : Decidable (h.Apart header) :=
  inferInstanceAs (Decidable (∀ o ∈ h.live, ∀ o' ∈ h.live, o ≠ o' → _ ∨ _))

/-- The live object that begins at an address. -/
def objectAt (a : Nat) : Option ι := h.live.find? fun o => h.base o == a

def write (a : Nat) (bs : List β) : Heap ι β := { h with mem := poke h.mem a bs }

/-- A new object, with `bs` in its cells. -/
def allocate [DecidableEq ι] (a : Nat) (bs : List β) : Heap ι β where
  mem := poke h.mem (a + header) bs
  live := o :: h.live
  base := Function.update h.base o a
  size := Function.update h.size o bs.length

/-- The collector keeps the live objects that `keep` names and moves each of them to its new base;
`rest` is what the memory holds elsewhere after that. -/
def relocate (keep : ι → Bool) (base : ι → Nat) (rest : Nat → β) : Heap ι β where
  mem := fun x =>
    match (h.live.filter keep).find? fun o =>
        base o + header ≤ x && x < base o + header + h.size o with
    | some o => h.mem (h.data header o + (x - (base o + header)))
    | none => rest x
  live := h.live.filter keep
  base := base
  size := h.size

end

variable {header} {h : Heap ι β} {o p : ι} {a k n : Nat} {bs : List β}

theorem objectAt_base (hapart : h.Apart header) (hheader : 0 < header) (ho : o ∈ h.live) :
    h.objectAt (h.base o) = some o := by
  have hsome : (h.objectAt (h.base o)).isSome := by
    rw [objectAt, List.find?_isSome]
    exact ⟨o, ho, beq_self_eq_true _⟩
  obtain ⟨p, hp⟩ := Option.isSome_iff_exists.mp hsome
  have hbase := List.find?_some hp
  rw [beq_iff_eq] at hbase
  have hmem : p ∈ h.live := List.mem_of_find?_eq_some hp
  by_cases hpo : p = o
  · rw [hp, hpo]
  · -- two objects with one base would overlap in their headers
    have hor := hapart p hmem o ho hpo
    simp only [top] at hor
    omega

/-! ### Writes -/

theorem contents_write_self (hle : k + bs.length ≤ h.size o) :
    (h.write (h.data header o + k) bs).contents header o = overlay (h.contents header o) k bs :=
  peek_poke hle

/-- A write inside one object leaves the others as they are. -/
theorem contents_write_other (hapart : h.Apart header) (ho : o ∈ h.live) (hp : p ∈ h.live)
    (hne : p ≠ o) (hle : k + bs.length ≤ h.size o) :
    (h.write (h.data header o + k) bs).contents header p = h.contents header p := by
  apply peek_poke_apart
  have hor := hapart p hp o ho hne
  simp only [top, data, write] at hor ⊢
  omega

/-! ### New objects -/

section
variable [DecidableEq ι]

theorem mem_live_allocate : p ∈ (h.allocate header o a bs).live ↔ p = o ∨ p ∈ h.live :=
  List.mem_cons

theorem contents_allocate_self :
    (h.allocate header o a bs).contents header o = bs := by
  simp only [contents, data, allocate, Function.update_self]
  exact peek_poke_self ..

theorem contents_allocate_other (hp : p ∈ h.live) (hne : p ≠ o)
    (hapart : (h.allocate header o a bs).Apart header) :
    (h.allocate header o a bs).contents header p = h.contents header p := by
  have hor := hapart p (List.mem_cons_of_mem o hp) o List.mem_cons_self hne
  simp only [top, allocate, Function.update_self, Function.update_of_ne hne] at hor
  simp only [contents, data, allocate, Function.update_of_ne hne]
  exact peek_poke_apart (by omega)

end

/-! ### Collections -/

theorem mem_live_relocate {keep : ι → Bool} {base : ι → Nat} {rest : Nat → β} :
    p ∈ (h.relocate header keep base rest).live ↔ p ∈ h.live ∧ keep p = true := List.mem_filter

/-- **The collector keeps what the objects hold**, wherever it puts them. -/
theorem contents_relocate {keep : ι → Bool} {base : ι → Nat} {rest : Nat → β}
    (hapart : (h.relocate header keep base rest).Apart header) (ho : o ∈ h.live)
    (hkeep : keep o = true) :
    (h.relocate header keep base rest).contents header o = h.contents header o := by
  have hmem : o ∈ h.live.filter keep := List.mem_filter.mpr ⟨ho, hkeep⟩
  apply peek_congr
  intro i hi
  have hi : i < h.size o := hi
  -- the object that is found at the address can only be `o`
  have hfind : (h.live.filter keep).find? (fun p => base p + header ≤ base o + header + i &&
      base o + header + i < base p + header + h.size p) = some o := by
    have hsome : ((h.live.filter keep).find? (fun p => base p + header ≤ base o + header + i &&
        base o + header + i < base p + header + h.size p)).isSome := by
      rw [List.find?_isSome]
      exact ⟨o, hmem, by simp [hi]⟩
    obtain ⟨p, hp⟩ := Option.isSome_iff_exists.mp hsome
    have hin := List.find?_some hp
    simp only [Bool.and_eq_true, decide_eq_true_eq] at hin
    by_cases hpo : p = o
    · rw [hp, hpo]
    · have hor := hapart p (List.mem_of_find?_eq_some hp) o hmem hpo
      simp only [top, relocate] at hor
      omega
  simp only [relocate, data, hfind, Nat.add_sub_cancel_left]

end Heap

end Relocation
