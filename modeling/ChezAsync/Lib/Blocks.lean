import Mathlib.Tactic.Common

/-!
# Blocks that are obtained and released

Programs over blocks of memory.  A block is live from the call that obtains it to the one that
releases it; an access to a block that is not live, and its release, have no meaning.  A program
that is balanced has released every block that it has obtained, whether it returns or raises.
-/

/-- `β` is what a block holds. -/
inductive Block (β : Type)
  | live (content : β)
  | released

namespace Block

/-- The blocks obtained so far; the i-th of them has the address i + 1, and 0 is no block. -/
abbrev Heap (β : Type) := List (Block β)

variable {β : Type}

/-- The content of the live block at an address. -/
def find (h : Heap β) : Nat → Option β
  | 0 => none
  | i + 1 =>
    match h[i]? with
    | some (.live c) => some c
    | _ => none

/-- What a program has done: it has returned or raised, and left these blocks. -/
abbrev Ran (β E α : Type) := Except E α × Heap β

/-- Programs with exceptions `E` and results `α`; `none` when what they do has no meaning. -/
def Prog (β E α : Type) := Heap β → Option (Ran β E α)

namespace Prog

variable {E α α' : Type}

/-! ## 1. Operations -/

def ret (x : α) : Prog β E α := fun h => some (.ok x, h)

def raise (e : E) : Prog β E α := fun h => some (.error e, h)

/-- A value that may be missing, and the exception for that. -/
def ofOption (e : E) : Option α → Prog β E α
  | some x => ret x
  | none => raise e

/-- A value that has to be there. -/
def expect : Option α → Prog β E α
  | some x => ret x
  | none => fun _ => none

def andThen (p : Prog β E α) (f : α → Prog β E α') : Prog β E α' := fun h =>
  match p h with
  | some (.ok x, h') => f x h'
  | some (.error e, h') => some (.error e, h')
  | none => none

instance : Monad (Prog β E) where
  pure := ret
  bind := andThen

/-- A new block, and its address. -/
def obtain (c : β) : Prog β E Nat := fun h => some (.ok (h.length + 1), h ++ [.live c])

def load (a : Nat) : Prog β E β := fun h => (find h a).map fun c => (.ok c, h)

def store (a : Nat) (c : β) : Prog β E Unit := fun h =>
  (find h a).map fun _ => (.ok (), h.set (a - 1) (.live c))

def release (a : Nat) : Prog β E Unit := fun h =>
  (find h a).map fun _ => (.ok (), h.set (a - 1) .released)

/-- In every case the program has a meaning, and has released all blocks that it has obtained. -/
def Balanced (p : Prog β E α) : Prop :=
  ∀ h, ∃ o h', p h = some (o, h') ∧ ∀ i, h.length ≤ i → i < h'.length → h'[i]? = some .released

/-! ## 2. Rules -/

section
variable {p : Prog β E α} {f : α → Prog β E α'} {h h' new : Heap β} {c : β}

theorem bind_ok {x : α} (hp : p h = some (.ok x, h')) : (p >>= f) h = f x h' := by
  show p.andThen f h = _
  rw [andThen, hp]

theorem bind_error {e : E} (hp : p h = some (.error e, h')) :
    (p >>= f) h = some (.error e, h') := by
  show p.andThen f h = _
  rw [andThen, hp]

end

end Prog

end Block
