import ChezAsync.HighLevel.Buffer

/-!
# Reads and writes of bytevectors (`io-fs.ss`, `io-net.ss`, `rt_ffi.cpp`)

The two ways in which bytes go from a bytevector to libuv and back.  The copying procedures go
through a foreign block and a buffer of the task's own; the procedures with `!` pin the bytevector
and give libuv a pointer into it.
-/

namespace ChezAsync.Transfer

open Bytes (Endian readAt writeAt slice overlay)
open Buffer (alloc bytevectorToForeign foreignToBytevector int32 unsigned32 integer64)

/-! ## 1. Tasks (`rt_ffi.cpp`) -/

/-- `length` cells of a block, from `start` on. -/
structure Stretch where
  start : Nat
  length : Nat
  deriving DecidableEq

/-- What is read or written: a file, at an offset or where it stands, or a stream. -/
inductive Target
  | file (fd offset : Int)
  | stream (s : Nat)
  deriving DecidableEq

/-- The fields of a read or write task. -/
structure Task where
  target : Target
  nbytes : Nat
  buffer : List UInt8
  /-- `ext_data`, as an offset into the pinned bytevector. -/
  extData : Option Nat
  deriving DecidableEq

/-- A task into whose buffer the caller's bytes are copied: where they are taken from, and the
task, `none` when there is no such place in the caller's block. -/
structure Copied where
  source : Stretch
  task : Option Task
  deriving DecidableEq

def newReadTask (target : Target) (nbytes : Nat) : Task :=
  { target, nbytes, buffer := List.replicate nbytes 0, extData := none }

/-- `memcpy(t->buffer.data(), src + start, nbytes)` -/
def newWriteTask (target : Target) (src : List UInt8) (start nbytes : Nat) : Copied :=
  { source := { start, length := nbytes }
    task := (readAt src start nbytes).map fun buffer => { target, nbytes, buffer, extData := none } }

def newPinnedTask (target : Target) (start nbytes : Nat) : Task :=
  { target, nbytes, buffer := [], extData := some start }

def rtFsRead (fd : Int) (nbytes : Nat) (offset : Int) : Task :=
  newReadTask (.file fd offset) nbytes

def rtFsWrite (fd : Int) (src : List UInt8) (start nbytes : Nat) (offset : Int) : Copied :=
  newWriteTask (.file fd offset) src start nbytes

def rtStreamRead (stream maxlen : Nat) : Task := newReadTask (.stream stream) maxlen

def rtStreamWrite (stream : Nat) (src : List UInt8) (start nbytes : Nat) : Copied :=
  newWriteTask (.stream stream) src start nbytes

def rtFsReadPinned (fd : Int) (start nbytes : Nat) (offset : Int) : Task :=
  newPinnedTask (.file fd offset) start nbytes

def rtFsWritePinned (fd : Int) (start nbytes : Nat) (offset : Int) : Task :=
  newPinnedTask (.file fd offset) start nbytes

def rtStreamReadPinned (stream start nbytes : Nat) : Task :=
  newPinnedTask (.stream stream) start nbytes

def rtStreamWritePinned (stream start nbytes : Nat) : Task :=
  newPinnedTask (.stream stream) start nbytes

/-- `rt_read_into` of a task that has completed with `result`. -/
def rtReadInto (t : Task) (result : Int) (dst : List UInt8) (start : Nat) : Option (List UInt8) :=
  if 0 < result then (readAt t.buffer 0 result.toNat).bind (writeAt dst start) else some dst

/-- The cells of the pinned bytevector that libuv is given. -/
def Task.pinned (t : Task) : Option Stretch :=
  t.extData.map fun off => { start := off, length := t.nbytes }

/-! ## 2. The loop thread (`runtime.cpp`) -/

section
variable (bv : List UInt8)

/-- `task_data`: a block, the pinned bytevector or the task's buffer, and an offset. -/
def taskData (t : Task) : List UInt8 × Nat :=
  match t.extData with
  | some off => (bv, off)
  | none => (t.buffer, 0)

/-- The bytes of the `uv_buf_t` that `uv_fs_write` and `uv_write` are given. -/
def handed (t : Task) : Option (List UInt8) := readAt (taskData bv t).1 (taskData bv t).2 t.nbytes

/-- libuv has read `data` into the `uv_buf_t` of `uv_fs_read` or `on_alloc`: the bytevector and the
task after that. -/
def received (t : Task) (data : List UInt8) : Option (List UInt8 × Task) :=
  match t.extData with
  | some off => (writeAt bv off data).map fun bv => (bv, t)
  | none => (writeAt t.buffer 0 data).map fun buffer => (bv, { t with buffer })

end

/-! ## 3. Submissions (`io-runtime.ss`) -/

/-- `submit-fs-read`; `none` when a foreign procedure refuses one of its arguments. -/
def submitFsRead (fd nbytes offset : Int) : Option Task := do
  some (rtFsRead (← int32 fd) (← unsigned32 nbytes) (← integer64 offset))

def submitFsWrite (fd : Int) (src : List UInt8) (start nbytes offset : Int) : Option Copied := do
  some (rtFsWrite (← int32 fd) src (← unsigned32 start) (← unsigned32 nbytes) (← integer64 offset))

def submitFsReadPinned (fd start nbytes offset : Int) : Option Task := do
  some (rtFsReadPinned (← int32 fd) (← unsigned32 start) (← unsigned32 nbytes) (← integer64 offset))

def submitFsWritePinned (fd start nbytes offset : Int) : Option Task := do
  some (rtFsWritePinned (← int32 fd) (← unsigned32 start) (← unsigned32 nbytes)
    (← integer64 offset))

def submitStreamRead (stream : Nat) (maxlen : Int) : Option Task := do
  some (rtStreamRead stream (← unsigned32 maxlen))

def submitStreamWrite (stream : Nat) (src : List UInt8) (start nbytes : Int) : Option Copied := do
  some (rtStreamWrite stream src (← unsigned32 start) (← unsigned32 nbytes))

def submitStreamReadPinned (stream : Nat) (start nbytes : Int) : Option Task := do
  some (rtStreamReadPinned stream (← unsigned32 start) (← unsigned32 nbytes))

def submitStreamWritePinned (stream : Nat) (start nbytes : Int) : Option Task := do
  some (rtStreamWritePinned stream (← unsigned32 start) (← unsigned32 nbytes))

/-! ## 4. Writing (`io-fs.ss`, `io-net.ss`) -/

section
variable (e : Endian) (junk : Nat → UInt8) (bv : List UInt8)

/-- `run-write`, up to its `task-run`. -/
def runWrite (submitFn : List UInt8 → Int → Int → Option Copied) (start n : Int) :
    Option Copied := do
  let (fp, _) ← bytevectorToForeign e junk bv
  submitFn fp start n

/-- `io-write` -/
def ioWrite (fd start n offset : Int) : Option Copied :=
  runWrite e junk bv (fun src s nn => submitFsWrite fd src s nn offset) start n

/-- `io-stream-write` -/
def ioStreamWrite (stream : Nat) (start n : Int) : Option Copied :=
  runWrite e junk bv (submitStreamWrite stream) start n

end

/-- `io-write!` -/
def ioWriteBang (fd start n offset : Int) : Option Task := submitFsWritePinned fd start n offset

/-- `io-stream-write!` -/
def ioStreamWriteBang (stream : Nat) (start n : Int) : Option Task :=
  submitStreamWritePinned stream start n

/-! ## 5. Reading -/

inductive Answer
  | eof
  | bytes (bv : List UInt8)
  | count (n : Int)
  | error (errno : Int)
  deriving DecidableEq

/-- `io-read`, up to `read-task->result`. -/
def ioRead (fd n offset : Int) : Option Task := submitFsRead fd n offset

/-- `io-stream-read` -/
def ioStreamRead (stream : Nat) (maxlen : Int) : Option Task := submitStreamRead stream maxlen

/-- `io-read!`, up to its `task-await`. -/
def ioReadBang (fd start n offset : Int) : Option Task := submitFsReadPinned fd start n offset

/-- `io-stream-read!` -/
def ioStreamReadBang (stream : Nat) (start n : Int) : Option Task :=
  submitStreamReadPinned stream start n

/-- `read-task->result`; `none` when an access goes outside of a block. -/
def readTaskResult (e : Endian) (junk : Nat → UInt8) (t : Task) (r : Int) : Option Answer :=
  if r < 0 then some (.error r)
  else if r = 0 then some .eof
  else do
    let fp ← rtReadInto t r (alloc junk r.toNat) 0
    let bv ← foreignToBytevector e junk fp r.toNat
    some (.bytes bv)

/-- The `cond` of `io-read!` and `io-stream-read!`. -/
def readBangResult (r : Int) : Answer :=
  if r < 0 then .error r else if r = 0 then .eof else .count r

end ChezAsync.Transfer
