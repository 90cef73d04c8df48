import ChezAsync.Lib.Blocks
import ChezAsync.HighLevel.Composite

/-!
# Who frees the foreign blocks (`buffer.ss`, `io-fs.ss`, `io-net.ss`, `io-proc.ss`)

`run-write` and `io-spawn` copy their bytevectors into foreign blocks for the runtime, which copies
them once more while the task is submitted, and free the blocks after that; `read-task->result` gets
the bytes of a task through a block of its own.  None of them frees a block when an exception comes
between its allocation and the `foreign-free`.
-/

namespace ChezAsync.Foreign

open Bytes (Endian)
open Buffer (alloc)
open Composite (Condition)
open Transfer (Copied Answer)
open Spawn (SchemeString Stdio packed)
open Block.Prog (obtain load store release raise ofOption expect)

/-- What a procedure does with foreign blocks. -/
abbrev M (α : Type) := Block.Prog (List UInt8) Condition α

/-! ## 1. Foreign memory (`buffer.ss`) -/

section
variable (e : Endian) (junk : Nat → UInt8)

def foreignAlloc (n : Nat) : M Nat := obtain (alloc junk n)

/-- `foreign-free`; nothing happens for the null pointer. -/
def foreignFree (ptr : Nat) : M Unit := if ptr = 0 then pure () else release ptr

/-- The block that a pointer points to; the null pointer points to no cells. -/
def blockAt (ptr : Nat) : M (List UInt8) := if ptr = 0 then pure [] else load ptr

def bytevectorToForeign (bv : List UInt8) : M (Nat × Nat) :=
  let len := bv.length
  if len = 0 then pure (0, 0)
  else do
    let ptr ← foreignAlloc junk len
    let block ← load ptr
    let block ← expect (Buffer.copyBytevectorToForeign e bv block)
    store ptr block
    pure (ptr, len)

def foreignToBytevector (ptr length : Nat) : M (List UInt8) := do
  let block ← blockAt ptr
  expect (Buffer.foreignToBytevector e junk block length)

/-! ## 2. Reading and writing (`io-fs.ss`, `io-net.ss`) -/

/-- `task-await`: the result of the task, or an exception of the `await-hook`. -/
def taskAwait (answer : Option Int) : M Int := ofOption .other answer

def taskRun (who : String) (answer : Option Int) : M Int := do
  let r ← taskAwait answer
  if r < 0 then raise (.ioError who r) else pure r

/-- `run-write`.  A `bv` that is no bytevector is `none`; `submitFn` is given the block that its
pointer points to, and is `none` when it raises. -/
def runWrite {D : Type} (who : String) (submitFn : List UInt8 → D → D → Option Copied)
    (bv : Option (List UInt8)) (start n : D) (answer : Option Int) : M Int := do
  let bv ← ofOption .other bv
  let (fp, _) ← bytevectorToForeign e junk bv
  let src ← blockAt fp
  let _ ← ofOption .other (submitFn src start n)
  foreignFree fp
  taskRun who answer

/-- `io-write` -/
def ioWrite (fd : Int) (bv : Option (List UInt8)) (start n offset : Int) (answer : Option Int) :
    M Int :=
  runWrite e junk "io-write" (fun src s nn => Transfer.submitFsWrite fd src s nn offset) bv start n
    answer

/-- `io-stream-write` -/
def ioStreamWrite (stream : Nat) (bv : Option (List UInt8)) (start n : Int)
    (answer : Option Int) : M Int :=
  runWrite e junk "io-stream-write" (Transfer.submitStreamWrite stream) bv start n answer

/-- `read-task->result` of the task `t`, which has completed when `task-await` returns. -/
def readTaskResult (who : String) (t : Transfer.Task) (answer : Option Int) : M Answer := do
  let r ← taskAwait answer
  if r < 0 then raise (.ioError who r)
  else if r = 0 then pure .eof
  else do
    let fp ← foreignAlloc junk r.toNat
    let block ← load fp
    let block ← expect (Transfer.rtReadInto t r block 0)
    store fp block
    let bv ← foreignToBytevector e junk fp r.toNat
    foreignFree fp
    pure (.bytes bv)

/-! ## 3. Spawning (`io-proc.ss`) -/

/-- An argument that should be a list of strings. -/
inductive Strings
  | list (strs : List SchemeString)
  /-- Any other object. -/
  | other

def Strings.isNull : Strings → Bool
  | .list [] => true
  | _ => false

/-- `pack-strings`, whose `map` raises for another object. -/
def Strings.pack : Strings → Option (List UInt8)
  | .list strs => Spawn.packStrings strs
  | .other => none

def Strings.length : Strings → Option Nat
  | .list strs => some strs.length
  | .other => none

/-- The order in which the two clauses of the `let-values` are evaluated, which Scheme leaves
open. -/
inductive Order
  | argsFirst
  | envFirst

def Order.both {α β : Type} (p : M α) (q : M β) : Order → M (α × β)
  | .argsFirst => do
    let x ← p
    let y ← q
    pure (x, y)
  | .envFirst => do
    let y ← q
    let x ← p
    pure (x, y)

/-- `(bytevector->foreign (pack-strings strs))` -/
def packForeign (strs : Strings) : M (Nat × Nat) := do
  let bv ← ofOption .other strs.pack
  bytevectorToForeign e junk bv

/-- `(if env (length env) -1)` -/
def envCount : Option Strings → M Int
  | none => pure (-1)
  | some env => do
    let n ← ofOption .other env.length
    pure n

/-- What follows the `let-values` of `io-spawn`. -/
def spawnWith (args : Strings) (env : Option Strings) (stdio : Stdio) (answer : Option Int)
    (blocks : (Nat × Nat) × (Nat × Nat)) : M Int := do
  let ((afp, alen), (efp, elen)) := blocks
  let envc ← envCount env
  let mode ← ofOption .other stdio.mode
  let argc ← ofOption .other args.length
  let argbuf ← blockAt afp
  let envbuf ← blockAt efp
  let _ ← ofOption .other (Spawn.submitSpawn argbuf alen argc envbuf elen envc "" mode)
  foreignFree afp
  foreignFree efp
  taskRun "io-spawn" answer

/-- `io-spawn`; an `env` of `#f` is `none`. -/
def ioSpawn (order : Order) (args : Strings) (env : Option Strings) (stdio : Stdio)
    (answer : Option Int) : M Int := do
  if args.isNull then raise .other
  else do
    let blocks ← order.both (packForeign e junk args) (packForeign e junk (env.getD (.list [])))
    spawnWith args env stdio answer blocks

end

/-! ## 4. What the procedures do with blocks -/

section
variable {e : Endian} {junk : Nat → UInt8} {h new : Block.Heap (List UInt8)} {c : List UInt8}

end

section
variable (e : Endian) (junk : Nat → UInt8)

section
variable {D : Type} (who : String) (submitFn : List UInt8 → D → D → Option Copied) (start n : D)
  (answer : Option Int)

end

end

/-! ## 5. The two blocks of `io-spawn` -/

namespace Order

end Order

section
variable {e : Endian} {junk : Nat → UInt8} {h : Block.Heap (List UInt8)} {c c' : List UInt8}

end

/-! ## 6. When the blocks are freed -/

section
variable {e : Endian} {junk : Nat → UInt8}

section
variable (strs : List SchemeString) (env : Option (List SchemeString)) (order : Order)
  (stdio : Stdio) (answer : Option Int) (h : Block.Heap (List UInt8))

end

end

end ChezAsync.Foreign
