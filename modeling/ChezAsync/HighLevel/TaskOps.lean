import Mathlib.Algebra.Group.Nat.Defs
import Mathlib.Tactic.Common
import ChezAsync.HighLevel.Fiber

/-!
# Operations built on one task (`io-runtime.ss`, `io-fs.ss`, `io-net.ss`)

What the procedures that own a task do with it from `task-await` to `task-free`.  The task is given
by its handle; where `task-await` blocks and where it suspends is not their business.
-/

namespace ChezAsync.Async

/-! ## 1. Tasks -/

/-- What the accessors find in a task that has completed. -/
structure Completion where
  result : Int
  buffer : List UInt8
  strOut : String
  names : List String
  stSize : Nat
  stMtime : Nat
  stMode : Nat

inductive Accessor
  | strResult
  /-- `task-read-into!` into a foreign buffer of `task-result` bytes, read back as a bytevector. -/
  | readInto
  | scandirCount
  | scandirName (i : Nat)
  | statSize
  | statMtime
  | statMode
  | statDir
  | statFile
  deriving DecidableEq

def Accessor.Result : Accessor → Type
  | .strResult => String
  | .readInto => List UInt8
  | .scandirCount => Int
  | .scandirName _ => String
  | .statSize => Nat
  | .statMtime => Nat
  | .statMode => Nat
  | .statDir => Bool
  | .statFile => Bool

/-- `S_IFMT` -/
def fileType (mode : Nat) : Nat := mode &&& 0o170000

def Completion.get (c : Completion) : (a : Accessor) → a.Result
  | .strResult => c.strOut
  | .readInto => c.buffer.take c.result.toNat
  -- `static_cast<int>`
  | .scandirCount => (c.names.length : Int).bmod (2 ^ 32)
  | .scandirName i => c.names.getD i ""
  | .statSize => c.stSize
  | .statMtime => c.stMtime
  | .statMode => c.stMode % 2 ^ 32
  | .statDir => fileType c.stMode == 0o040000
  | .statFile => fileType c.stMode == 0o100000

/-- What the programs see of the runtime: the completions of the tasks and libuv's error texts. -/
structure Native where
  task : Handle → Completion
  errName : Int → String
  errStr : Int → String

/-- The calls of the runtime, `R` being the `submit-…` procedures with their arguments. -/
inductive Call (R : Type)
  | submit (r : R) (t : Handle)
  | await (t : Handle)
  | access (a : Accessor) (t : Handle)
  | free (t : Handle)
  deriving DecidableEq

/-- The values that are not the scheduler's own, `E` being those that no task gives. -/
inductive Datum (R E : Type)
  | string (s : String)
  | bytevector (bytes : List UInt8)
  | eof
  | statInfo (size mtime mode : Nat) (dir file : Bool)
  /-- `&io-error` with its `who` and its message. -/
  | ioError (errno : Int) (name who message : String)
  | call (c : Call R)
  | other (e : E)
  deriving DecidableEq

variable {R E : Type}

/-! ## 2. Codes -/

/-- What is done with one task. -/
inductive Code (D : Type)
  | ret (v : Val D)
  | raise (e : Val D)
  | await (k : Int → Code D)
  | access (a : Accessor) (k : a.Result → Code D)
  | free (k : Code D)

/-- `(begin c c')`: the value of `c` is dropped. -/
def Code.andThen {D : Type} : Code D → Code D → Code D
  | .ret _, c' => c'
  | .raise e, _ => .raise e
  | .await k, c' => .await fun r => (k r).andThen c'
  | .access a k, c' => .access a fun v => (k v).andThen c'
  | .free c, c' => .free (c.andThen c')

section
variable (nat : Native) (who : String)

def raiseIoError (r : Int) : Code (Datum R E) :=
  .raise (.data (.ioError r (nat.errName r) who (nat.errStr r)))

def taskRun : Code (Datum R E) :=
  .await fun r => .free (if r < 0 then raiseIoError nat who r else .ret (.int (.num r)))

def taskRunVoid : Code (Datum R E) := (taskRun nat who).andThen (.ret .void)

def taskRunStr : Code (Datum R E) :=
  .await fun r =>
    if r < 0 then .free (raiseIoError nat who r)
    else .access .strResult fun s => .free (.ret (.data (.string s)))

/-- `read-task->result` -/
def readTaskResult : Code (Datum R E) :=
  .await fun r =>
    if r < 0 then .free (raiseIoError nat who r)
    else if r = 0 then .free (.ret (.data .eof))
    else .access .readInto fun bv => .free (.ret (.data (.bytevector bv)))

/-- `io-read!` and `io-stream-read!`, after the submission. -/
def readPinned : Code (Datum R E) :=
  .await fun r =>
    .free (if r < 0 then raiseIoError nat who r
      else if r = 0 then .ret (.data .eof)
      else .ret (.int (.num r)))

/-- The loop over `task-scandir-name` from `i`, with `n` names to go. -/
def namesLoop : Nat → Nat → List (Val (Datum R E)) → Code (Datum R E)
  | 0, _, acc => .free (.ret (.list acc.reverse))
  | n + 1, i, acc => .access (.scandirName i) fun s => namesLoop n (i + 1) (.data (.string s) :: acc)

/-- `io-scandir` and `io-dns-resolve-all`, after the submission. -/
def listNames : Code (Datum R E) :=
  .await fun r =>
    if r < 0 then .free (raiseIoError nat who r)
    else .access .scandirCount fun n => namesLoop n.toNat 0 []

def ioStat : Code (Datum R E) :=
  .await fun r =>
    if r < 0 then .free (raiseIoError nat "io-stat" r)
    else
      .access .statSize fun size => .access .statMtime fun mtime => .access .statMode fun mode =>
        .access .statDir fun dir => .access .statFile fun file =>
          .free (.ret (.data (.statInfo size mtime mode dir file)))

def UV_ECANCELED : Int := -125

def ioWatchNext : Code (Datum R E) :=
  .await fun r =>
    if r = UV_ECANCELED then .free (.ret (.data .eof))
    else if r < 0 then .free (raiseIoError nat "io-watch-next" r)
    else .access .strResult fun name => .free (.ret (.cons (.data (.string name)) (.int (.num r))))

end

/-! ## 3. Linear use -/

/-- What has been done with the task. -/
inductive Stage
  | submitted
  | awaited
  | freed

/-- The task is awaited once, asked only after that, then freed once, and not used again. -/
def Code.Linear {D : Type} : Stage → Code D → Prop
  | .submitted, .await k => ∀ r, (k r).Linear .awaited
  | .awaited, .access _ k => ∀ v, (k v).Linear .awaited
  | .awaited, .free c => c.Linear .freed
  | .freed, .ret _ => True
  | .freed, .raise _ => True
  | _, _ => False

/-- An operation built on one task. -/
structure TaskOp (D : Type) where
  code : Code D
  linear : code.Linear .submitted

theorem linear_andThen {D : Type} {c : Code D} {v : Val D} {stage : Stage}
    (h : c.Linear stage) : (c.andThen (.ret v)).Linear stage := by
  induction c generalizing stage with
  | ret => cases stage <;> exact h
  | raise => exact h
  | await k ih =>
    cases stage with
    | submitted => exact fun r => ih r (h r)
    | _ => cases h
  | access a k ih =>
    cases stage with
    | awaited => exact fun r => ih r (h r)
    | _ => cases h
  | free c ih =>
    cases stage with
    | awaited => exact ih h
    | _ => cases h

section
variable (nat : Native) (who : String)

theorem linear_taskRun : (taskRun nat who : Code (Datum R E)).Linear .submitted := by
  intro r
  show Code.Linear .freed (if r < 0 then _ else _)
  split <;> trivial

theorem linear_taskRunStr : (taskRunStr nat who : Code (Datum R E)).Linear .submitted := by
  intro r
  show Code.Linear .awaited (if r < 0 then _ else _)
  split
  · trivial
  · exact fun _ => trivial

theorem linear_readTaskResult :
    (readTaskResult nat who : Code (Datum R E)).Linear .submitted := by
  intro r
  show Code.Linear .awaited (if r < 0 then _ else if r = 0 then _ else _)
  split
  · trivial
  · split
    · trivial
    · exact fun _ => trivial

theorem linear_readPinned : (readPinned nat who : Code (Datum R E)).Linear .submitted := by
  intro r
  show Code.Linear .freed (if r < 0 then _ else if r = 0 then _ else _)
  split
  · trivial
  · split <;> trivial

theorem linear_namesLoop (n i : Nat) (acc : List (Val (Datum R E))) :
    (namesLoop n i acc).Linear .awaited := by
  induction n generalizing i acc with
  | zero => trivial
  | succ n ih => exact fun s => ih (i + 1) (.data (.string s) :: acc)

theorem linear_listNames : (listNames nat who : Code (Datum R E)).Linear .submitted := by
  intro r
  show Code.Linear .awaited (if r < 0 then _ else _)
  split
  · trivial
  · exact fun n => linear_namesLoop n.toNat 0 []

theorem linear_ioStat : (ioStat nat : Code (Datum R E)).Linear .submitted := by
  intro r
  show Code.Linear .awaited (if r < 0 then _ else _)
  split
  · trivial
  · exact fun _ _ _ _ _ => trivial

theorem linear_ioWatchNext : (ioWatchNext nat : Code (Datum R E)).Linear .submitted := by
  intro r
  show Code.Linear .awaited (if r = UV_ECANCELED then _ else if r < 0 then _ else _)
  split
  · trivial
  · split
    · trivial
    · exact fun _ => trivial

/-! ## 4. The operations -/

namespace TaskOp

def taskRun : TaskOp (Datum R E) := ⟨Async.taskRun nat who, linear_taskRun nat who⟩

def taskRunVoid : TaskOp (Datum R E) :=
  ⟨Async.taskRunVoid nat who, linear_andThen (linear_taskRun nat who)⟩

def taskRunStr : TaskOp (Datum R E) := ⟨Async.taskRunStr nat who, linear_taskRunStr nat who⟩

def readTaskResult : TaskOp (Datum R E) :=
  ⟨Async.readTaskResult nat who, linear_readTaskResult nat who⟩

def readPinned : TaskOp (Datum R E) := ⟨Async.readPinned nat who, linear_readPinned nat who⟩

def listNames : TaskOp (Datum R E) := ⟨Async.listNames nat who, linear_listNames nat who⟩

def ioStat : TaskOp (Datum R E) := ⟨Async.ioStat nat, linear_ioStat nat⟩

def ioWatchNext : TaskOp (Datum R E) := ⟨Async.ioWatchNext nat, linear_ioWatchNext nat⟩

end TaskOp

end

end ChezAsync.Async
