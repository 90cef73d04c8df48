import ChezAsync.Lib.Issue
import ChezAsync.HighLevel.Spawn
import ChezAsync.HighLevel.ZeroCopy

/-!
# Composite operations (`io-fs.ss`, `io-proc.ss`)

`io-read-file`, `io-write-file`, `io-run` and `io-run/output` as programs that submit one task after
the other and go on with what each of them completes with.  None of them has a guard or a
`dynamic-wind`: an exception goes straight through.
-/

namespace ChezAsync.Composite

open Bytes (Endian slice overlay)
open Buffer (alloc int32)
open Transfer (Task)
open Spawn (SpawnTask SchemeString Stdio)

/-! ## 1. Tasks -/

inductive Request
  | fsOpen (path : String) (flags mode : Int)
  | read (t : Task)
  | write (t : Task)
  | fsClose (fd : Int)
  | streamClose (s : Nat)
  | procSpawn (t : SpawnTask)
  | procWait (p : Int)
  | procClose (p : Int)

/-- What the procedures see of a task that has completed. -/
structure Completion where
  result : Int
  /-- What libuv has read. -/
  data : List UInt8
  /-- The streams of the process that `result` points to, `0` for a null pointer. -/
  stdin : Nat
  stdout : Nat
  stderr : Nat

inductive Condition
  /-- `&io-error` with its `who`. -/
  | ioError (who : String) (errno : Int)
  /-- Raised by Chez Scheme or by `error`, with nothing submitted. -/
  | other
  deriving DecidableEq

/-- A procedure that submits tasks. -/
abbrev Act (α : Type) := Issue.Prog Request Completion Condition α

open Issue.Prog (issue raise stuck ofOption iterate)

/-- A task that has nothing but a result. -/
def Completion.of (result : Int) : Completion :=
  { result, data := [], stdin := 0, stdout := 0, stderr := 0 }

/-- A capturing spawn that succeeds has made three streams. -/
def Completion.Captured (c : Completion) : Prop :=
  0 ≤ c.result →
    c.stdin ≠ 0 ∧ c.stdout ≠ 0 ∧ c.stderr ≠ 0 ∧
      c.stdin ≠ c.stdout ∧ c.stdin ≠ c.stderr ∧ c.stdout ≠ c.stderr

def Completion.Inherited (c : Completion) : Prop := c.stdin = 0 ∧ c.stdout = 0 ∧ c.stderr = 0

instance (c : Completion) : Decidable c.Captured := inferInstanceAs (Decidable (_ → _))

instance (c : Completion) : Decidable c.Inherited := inferInstanceAs (Decidable (_ ∧ _))

/-- What libuv and the runtime may answer. -/
def Possible : Request → Completion → Prop
  -- a descriptor and an error are `int`s
  | .fsOpen .., c => -2 ^ 31 ≤ c.result ∧ c.result < 2 ^ 31
  | .read t, c => Transfer.Completes t.nbytes c.result c.data
  | .procSpawn t, c => if t.stdioMode = 1 then c.Captured else c.Inherited
  | _, _ => True

instance (q : Request) (c : Completion) : Decidable (Possible q c) :=
  match q with
  | .fsOpen .. => inferInstanceAs (Decidable (_ ∧ _))
  | .read t => inferInstanceAs (Decidable (Transfer.Completes t.nbytes c.result c.data))
  | .procSpawn t =>
    inferInstanceAs (Decidable (if t.stdioMode = 1 then c.Captured else c.Inherited))
  | .write _ => isTrue trivial
  | .fsClose _ => isTrue trivial
  | .streamClose _ => isTrue trivial
  | .procWait _ => isTrue trivial
  | .procClose _ => isTrue trivial

/-- `task-run` -/
def taskRun (who : String) (q : Request) : Act Int := do
  let c ← issue q
  if c.result < 0 then raise (.ioError who c.result) else pure c.result

def taskRunVoid (who : String) (q : Request) : Act Unit := do
  let _ ← taskRun who q
  pure ()

/-! ## 2. Files (`io-fs.ss`) -/

section
variable (e : Endian) (junk : Nat → UInt8)

def O_RDONLY : Nat := 0
def O_WRONLY : Nat := 1
def O_CREAT : Nat := 0o100
def O_TRUNC : Nat := 0o1000

def ioOpen (path : String) (flags mode : Int) : Act Int := do
  let flags ← ofOption .other (int32 flags)
  let mode ← ofOption .other (int32 mode)
  taskRun "io-open" (.fsOpen path flags mode)

def ioClose (fd : Int) : Act Unit := do
  let fd ← ofOption .other (int32 fd)
  taskRunVoid "io-close" (.fsClose fd)

/-- `read-task->result`, `none` being the end of the file or the stream. -/
def readTaskResult (who : String) (t : Task) : Act (Option (List UInt8)) := do
  let c ← issue (.read t)
  match Transfer.received [] t c.data with
  | none => stuck
  | some (_, t) =>
    match Transfer.readTaskResult e junk t c.result with
    | some (.error errno) => raise (.ioError who errno)
    | some .eof => pure none
    | some (.bytes bv) => pure (some bv)
    | _ => stuck

def ioRead (fd n offset : Int) : Act (Option (List UInt8)) := do
  let t ← ofOption .other (Transfer.ioRead fd n offset)
  readTaskResult e junk "io-read" t

/-- `io-write` of a whole bytevector. -/
def ioWrite (fd : Int) (bv : List UInt8) (offset : Int) : Act Int := do
  let c ← ofOption .other (Transfer.ioWrite e junk bv fd 0 bv.length offset)
  match c.task with
  | none => stuck
  | some t => taskRun "io-write" (.write t)

/-- The chunks that have been read, the last one first, and their length. -/
structure Chunks where
  chunks : List (List UInt8)
  total : Nat

/-- A round of the loop of `io-read-file` and `read-stream-to-eof`. -/
def readRound (read : Act (Option (List UInt8))) (s : Chunks) : Act (Chunks ⊕ Chunks) := do
  let chunk ← read
  match chunk with
  | none => pure (.inr s)
  | some chunk => pure (.inl ⟨chunk :: s.chunks, s.total + chunk.length⟩)

def readLoop (read : Act (Option (List UInt8))) : Act Chunks := iterate (readRound read) ⟨[], 0⟩

/-- The loop `copy`. -/
def copyChunks : List (List UInt8) → Nat → List UInt8 → Option (List UInt8)
  | [], _, out => some out
  | c :: cs, off, out => do
    let out ← Buffer.bytevectorCopy c 0 out off c.length
    copyChunks cs (off + c.length) out

/-- The bytevector that the chunks are put together to. -/
def Chunks.join (s : Chunks) : Act (List UInt8) :=
  match copyChunks s.chunks.reverse 0 (alloc junk s.total) with
  | none => stuck
  | some out => pure out

def ioReadFile (path : String) : Act (List UInt8) := do
  let fd ← ioOpen path O_RDONLY 0
  let s ← readLoop (ioRead e junk fd 65536 (-1))
  ioClose fd
  s.join junk

def ioWriteFile (path : String) (bv : List UInt8) (mode : Int) : Act Unit := do
  let fd ← ioOpen path ((O_WRONLY ||| O_CREAT ||| O_TRUNC : Nat) : Int) mode
  let _ ← ioWrite e junk fd bv (-1)
  ioClose fd
  pure ()

/-! ## 3. Processes (`io-proc.ss`) -/

/-- A process handle, and the streams that the accessors find in it. -/
structure Process where
  handle : Int
  stdin : Nat
  stdout : Nat
  stderr : Nat

def ioSpawn (args : List SchemeString) (env : Option (List SchemeString)) (stdio : Stdio) :
    Act Process := do
  let t ← ofOption .other (Spawn.ioSpawn e junk args env stdio)
  let c ← issue (.procSpawn t)
  if c.result < 0 then raise (.ioError "io-spawn" c.result)
  else pure ⟨c.result, c.stdin, c.stdout, c.stderr⟩

def ioProcWait (p : Process) : Act Int := taskRun "io-proc-wait" (.procWait p.handle)

def ioProcClose (p : Process) : Act Unit := taskRunVoid "io-proc-close" (.procClose p.handle)

/-- `(if (= h 0) #f h)` -/
def streamOf (h : Nat) : Option Nat := if h = 0 then none else some h

def ioProcStdin (p : Process) : Option Nat := streamOf p.stdin

def ioProcStdout (p : Process) : Option Nat := streamOf p.stdout

def ioProcStderr (p : Process) : Option Nat := streamOf p.stderr

/-- `io-stream-read` with its default length; `#f` is no stream. -/
def ioStreamRead (s : Option Nat) : Act (Option (List UInt8)) := do
  let s ← ofOption .other s
  let t ← ofOption .other (Transfer.ioStreamRead s 65536)
  readTaskResult e junk "io-stream-read" t

def ioStreamClose (s : Option Nat) : Act Unit := do
  let s ← ofOption .other s
  taskRunVoid "io-stream-close" (.streamClose s)

def readStreamToEof (s : Option Nat) : Act (List UInt8) := do
  let s ← readLoop (ioStreamRead e junk s)
  s.join junk

def ioRun (args : List SchemeString) : Act Int := do
  let p ← ioSpawn e junk args none .inherit
  let code ← ioProcWait p
  ioProcClose p
  pure code

def ioRunOutput (args : List SchemeString) : Act (Int × List UInt8) := do
  let p ← ioSpawn e junk args none .capture
  let sin := ioProcStdin p
  let out := ioProcStdout p
  let err := ioProcStderr p
  let _ ← (if sin.isSome then ioStreamClose sin else pure ())
  let data ← readStreamToEof e junk out
  ioStreamClose out
  let _ ← (if err.isSome then ioStreamClose err else pure ())
  let code ← ioProcWait p
  ioProcClose p
  pure (code, data)

end

end ChezAsync.Composite
