import Mathlib.Algebra.GroupWithZero.Nat
import Mathlib.Data.List.Basic
import Mathlib.Tactic.Common
import ChezAsync.Lib.Machine

/-!
# A captured child process (`io-proc.ss`)

`io-run/output` against its child: the parent closes the child's stdin, reads stdout to EOF, closes
stdout and stderr, waits and closes the process handle; the child performs its writes and exits, and
keeps its ends of the pipes open until then.  Each of the two output pipes holds at most `C` bytes.
-/

namespace ChezAsync.RunOutput

/-! ## 1. Pipes and the child -/

inductive Fd
  | stdout
  | stderr
  deriving DecidableEq

/-- One output pipe: the bytes in flight, and whether the parent still holds its end. -/
structure Pipe where
  bytes : List UInt8
  readerOpen : Bool
  deriving DecidableEq

/-- Bytes written to a pipe without a reader are lost. -/
def Pipe.push (p : Pipe) (bytes : List UInt8) : Pipe :=
  if p.readerOpen then { p with bytes := p.bytes ++ bytes } else p

def Pipe.close (_ : Pipe) : Pipe := { bytes := [], readerOpen := false }

/-- The next `k` bytes of a write go through: they fit, or nobody reads the pipe. -/
def Pipe.accepts (C : Nat) (p : Pipe) (k : Nat) : Prop :=
  p.readerOpen = true → p.bytes.length + k ≤ C

instance (C : Nat) (p : Pipe) (k : Nat) : Decidable (p.accepts C k) :=
  inferInstanceAs (Decidable (_ → _))

/-- A child is the sequence of its calls of `write` and its exit status; it does not close its stdout
or its stderr before it exits. -/
structure Child where
  writes : List (Fd × List UInt8)
  status : Int

/-- The bytes that the calls `writes` send to `fd`. -/
def bytesTo (fd : Fd) (writes : List (Fd × List UInt8)) : List UInt8 :=
  (writes.filter (·.1 = fd)).flatMap Prod.snd

@[simp] theorem bytesTo_nil (fd : Fd) : bytesTo fd [] = [] := rfl

@[simp] theorem bytesTo_cons_same (fd : Fd) (bytes : List UInt8) (ws : List (Fd × List UInt8)) :
    bytesTo fd ((fd, bytes) :: ws) = bytes ++ bytesTo fd ws := by
  simp [bytesTo]

theorem bytesTo_cons_other {fd fd' : Fd} (h : fd' ≠ fd) (bytes : List UInt8)
    (ws : List (Fd × List UInt8)) : bytesTo fd ((fd', bytes) :: ws) = bytesTo fd ws := by
  simp [bytesTo, h]

/-! ## 2. The machine -/

/-- The call that `io-run/output` makes next. -/
inductive ParentPc
  | closeStdin
  | readStdout
  | closeStdout
  | closeStderr
  | procWait
  | procClose
  | returned
  deriving DecidableEq

structure State where
  parent : ParentPc
  stdinOpen : Bool
  out : Pipe
  err : Pipe
  /-- What the child has left to do; the head is the call it is in. -/
  writes : List (Fd × List UInt8)
  exitStatus : Option Int
  /-- The chunks of `read-stream-to-eof`, in order. -/
  chunks : List (List UInt8)
  /-- What `io-proc-wait` has returned. -/
  code : Option Int
  deriving DecidableEq

def State.pipe (s : State) : Fd → Pipe
  | .stdout => s.out
  | .stderr => s.err

def State.setPipe (s : State) : Fd → Pipe → State
  | .stdout, p => { s with out := p }
  | .stderr, p => { s with err := p }

inductive Action
  /-- `k` bytes of the child's current write enter the pipe. -/
  | write (k : Nat)
  | writeReturn
  /-- The child is killed by writing to a pipe without a reader. -/
  | sigpipe
  | exit
  | closeStdin
  | read (n : Nat)
  | readEof
  | closeStdout
  | closeStderr
  | procWait
  | procClose
  deriving DecidableEq

/-- The `maxlen` that `io-stream-read` asks for when it is given a stream only. -/
def maxlen : Nat := 65536

section
variable (C : Nat) (child : Child)

def step (s : State) : Action → Option State
  | .write k =>
      match s.writes with
      | (fd, bytes) :: ws =>
          if 0 < k ∧ k ≤ bytes.length ∧ (s.pipe fd).accepts C k then
            some { s.setPipe fd ((s.pipe fd).push (bytes.take k)) with
              writes := (fd, bytes.drop k) :: ws }
          else none
      | [] => none
  | .writeReturn =>
      match s.writes with
      | (_, []) :: ws => some { s with writes := ws }
      | _ => none
  | .sigpipe =>
      match s.writes with
      | (fd, _ :: _) :: _ =>
          if (s.pipe fd).readerOpen = false then
            some { s with writes := [], exitStatus := some 0 }
          else none
      | _ => none
  | .exit =>
      if s.writes = [] ∧ s.exitStatus = none then
        some { s with exitStatus := some child.status }
      else none
  | .closeStdin =>
      if s.parent = .closeStdin then
        some { s with stdinOpen := false, parent := .readStdout }
      else none
  | .read n =>
      if s.parent = .readStdout ∧ 0 < n ∧ n ≤ maxlen ∧ n ≤ s.out.bytes.length then
        some { s with
          out := { s.out with bytes := s.out.bytes.drop n }
          chunks := s.chunks ++ [s.out.bytes.take n] }
      else none
  -- The child's end of its stdout is closed when it exits, and not before.
  | .readEof =>
      if s.parent = .readStdout ∧ s.out.bytes = [] ∧ s.exitStatus.isSome then
        some { s with parent := .closeStdout }
      else none
  | .closeStdout =>
      if s.parent = .closeStdout then
        some { s with out := s.out.close, parent := .closeStderr }
      else none
  | .closeStderr =>
      if s.parent = .closeStderr then
        some { s with err := s.err.close, parent := .procWait }
      else none
  | .procWait =>
      if s.parent = .procWait ∧ s.exitStatus.isSome then
        some { s with code := s.exitStatus, parent := .procClose }
      else none
  | .procClose =>
      if s.parent = .procClose then some { s with parent := .returned } else none

/-- A child that has just been spawned in capture mode. -/
def machine : Machine State Action where
  init :=
    { parent := .closeStdin, stdinOpen := true
      out := { bytes := [], readerOpen := true }, err := { bytes := [], readerOpen := true }
      writes := child.writes, exitStatus := none, chunks := [], code := none }
  step := step C child

/-- The steps, each with its guard. -/
inductive Step (s : State) : Action → State → Prop
  | write {fd : Fd} {bytes : List UInt8} {ws : List (Fd × List UInt8)} {k : Nat}
      (hw : s.writes = (fd, bytes) :: ws) (hk : 0 < k) (hlen : k ≤ bytes.length)
      (hroom : (s.pipe fd).accepts C k) :
      Step s (.write k)
        { s.setPipe fd ((s.pipe fd).push (bytes.take k)) with writes := (fd, bytes.drop k) :: ws }
  | writeReturn {fd : Fd} {ws : List (Fd × List UInt8)} (hw : s.writes = (fd, []) :: ws) :
      Step s .writeReturn { s with writes := ws }
  | sigpipe {fd : Fd} {b : UInt8} {bs : List UInt8} {ws : List (Fd × List UInt8)}
      (hw : s.writes = (fd, b :: bs) :: ws) (hclosed : (s.pipe fd).readerOpen = false) :
      Step s .sigpipe { s with writes := [], exitStatus := some 0 }
  | exit (hw : s.writes = []) (hlive : s.exitStatus = none) :
      Step s .exit { s with exitStatus := some child.status }
  | closeStdin (hpc : s.parent = .closeStdin) :
      Step s .closeStdin { s with stdinOpen := false, parent := .readStdout }
  | read {n : Nat} (hpc : s.parent = .readStdout) (hn : 0 < n) (hmax : n ≤ maxlen)
      (hlen : n ≤ s.out.bytes.length) :
      Step s (.read n)
        { s with
          out := { s.out with bytes := s.out.bytes.drop n }
          chunks := s.chunks ++ [s.out.bytes.take n] }
  | readEof (hpc : s.parent = .readStdout) (hout : s.out.bytes = []) (hst : s.exitStatus.isSome) :
      Step s .readEof { s with parent := .closeStdout }
  | closeStdout (hpc : s.parent = .closeStdout) :
      Step s .closeStdout { s with out := s.out.close, parent := .closeStderr }
  | closeStderr (hpc : s.parent = .closeStderr) :
      Step s .closeStderr { s with err := s.err.close, parent := .procWait }
  | procWait (hpc : s.parent = .procWait) (hst : s.exitStatus.isSome) :
      Step s .procWait { s with code := s.exitStatus, parent := .procClose }
  | procClose (hpc : s.parent = .procClose) : Step s .procClose { s with parent := .returned }

variable {C child} in
theorem step_cases {s u : State} {a : Action} (h : step C child s a = some u) :
    Step C child s a u := by
  cases a with
  | write k =>
    simp only [step] at h
    split at h
    case h_1 fd bytes ws hw =>
      rw [Option.ite_none_right_eq_some] at h
      exact Option.some.inj h.2 ▸ Step.write hw h.1.1 h.1.2.1 h.1.2.2
    case h_2 => cases h
  | writeReturn =>
    simp only [step] at h
    split at h
    case h_1 fd ws hw => exact Option.some.inj h ▸ Step.writeReturn hw
    case h_2 => cases h
  | sigpipe =>
    simp only [step] at h
    split at h
    case h_1 fd b bs ws hw =>
      rw [Option.ite_none_right_eq_some] at h
      exact Option.some.inj h.2 ▸ Step.sigpipe hw h.1
    case h_2 => cases h
  | exit =>
    simp only [step, Option.ite_none_right_eq_some] at h
    exact Option.some.inj h.2 ▸ Step.exit h.1.1 h.1.2
  | closeStdin =>
    simp only [step, Option.ite_none_right_eq_some] at h
    exact Option.some.inj h.2 ▸ Step.closeStdin h.1
  | read n =>
    simp only [step, Option.ite_none_right_eq_some] at h
    exact Option.some.inj h.2 ▸ Step.read h.1.1 h.1.2.1 h.1.2.2.1 h.1.2.2.2
  | readEof =>
    simp only [step, Option.ite_none_right_eq_some] at h
    exact Option.some.inj h.2 ▸ Step.readEof h.1.1 h.1.2.1 h.1.2.2
  | closeStdout =>
    simp only [step, Option.ite_none_right_eq_some] at h
    exact Option.some.inj h.2 ▸ Step.closeStdout h.1
  | closeStderr =>
    simp only [step, Option.ite_none_right_eq_some] at h
    exact Option.some.inj h.2 ▸ Step.closeStderr h.1
  | procWait =>
    simp only [step, Option.ite_none_right_eq_some] at h
    exact Option.some.inj h.2 ▸ Step.procWait h.1.1 h.1.2
  | procClose =>
    simp only [step, Option.ite_none_right_eq_some] at h
    exact Option.some.inj h.2 ▸ Step.procClose h.1

/-! ## 3. Deadlock -/

/-- The parent waits, the child has not exited, and nothing can happen any more. -/
def Deadlocked (s : State) : Prop :=
  s.parent ≠ .returned ∧ s.exitStatus = none ∧ (machine C child).Halted s

/-- The parent has not seen the end of stdout. -/
def ParentPc.draining : ParentPc → Prop
  | .closeStdin | .readStdout => True
  | _ => False

structure Inv (s : State) : Prop where
  outOpen : s.parent.draining → s.out.readerOpen = true
  errOpen : s.parent.draining → s.err.readerOpen = true
  /-- No byte of stderr leaves its pipe before the parent closes it. -/
  stderr : s.parent.draining →
    s.err.bytes.length + (bytesTo .stderr s.writes).length = (bytesTo .stderr child.writes).length
  -- a writer blocks while its pipe is full
  bound : s.err.bytes.length ≤ C
  exited : ¬ s.parent.draining → s.exitStatus.isSome
  finished : s.exitStatus.isSome → s.writes = []

theorem inv_init : Inv C child (machine C child).init := by
  refine ⟨?_, ?_, ?_, ?_, ?_, ?_⟩ <;> simp [machine, ParentPc.draining]

variable {C child}

theorem Pipe.push_open {p : Pipe} (h : p.readerOpen = true) (bytes : List UInt8) :
    p.push bytes = { p with bytes := p.bytes ++ bytes } := by
  rw [Pipe.push, if_pos h]

/-- Before the parent has seen the end of stdout both pipes have a reader. -/
theorem Inv.pipe_open {s : State} (hs : Inv C child s) (hd : s.parent.draining) (fd : Fd) :
    (s.pipe fd).readerOpen = true := by
  cases fd with
  | stdout => exact hs.outOpen hd
  | stderr => exact hs.errOpen hd

/-- A child that is in a call of `write` has not exited, and the parent drains its stdout. -/
theorem Inv.writing {s : State} (hs : Inv C child s) {w : Fd × List UInt8}
    {ws : List (Fd × List UInt8)} (hw : s.writes = w :: ws) :
    s.exitStatus.isSome = false ∧ s.parent.draining := by
  have hlive : s.exitStatus.isSome = false := by
    rcases hst : s.exitStatus.isSome with _ | _
    · rfl
    · have hnil := hs.finished hst
      rw [hw] at hnil
      cases hnil
  refine ⟨hlive, ?_⟩
  by_contra hd
  have hst := hs.exited hd
  rw [hlive] at hst
  cases hst

theorem inv_write {s : State} {fd : Fd} {bytes : List UInt8} {ws : List (Fd × List UInt8)}
    {k : Nat} (hs : Inv C child s) (hw : s.writes = (fd, bytes) :: ws) (hlen : k ≤ bytes.length)
    (hroom : (s.pipe fd).accepts C k) :
    Inv C child { s.setPipe fd ((s.pipe fd).push (bytes.take k)) with
      writes := (fd, bytes.drop k) :: ws } := by
  have hd := (hs.writing hw).2
  have hlive := (hs.writing hw).1
  have hb := hs.stderr hd
  rw [hw] at hb
  cases fd with
  | stdout =>
    -- a write to stdout moves no byte of stderr
    rw [bytesTo_cons_other (by decide)] at hb
    simp only [State.setPipe, State.pipe, Pipe.push_open (hs.outOpen hd)]
    refine { hs with stderr := fun _ => ?_, finished := fun hst => ?_ }
    · rw [bytesTo_cons_other (by decide)]
      exact hb
    · exact absurd (hlive.symm.trans hst) (by decide)
  | stderr =>
    -- what leaves the write enters the pipe, so their sum stays
    have hk : s.err.bytes.length + k ≤ C := hroom (hs.errOpen hd)
    rw [bytesTo_cons_same, List.length_append] at hb
    simp only [State.setPipe, State.pipe, Pipe.push_open (hs.errOpen hd)]
    refine { hs with stderr := fun _ => ?_, bound := ?_, finished := fun hst => ?_ }
    · rw [bytesTo_cons_same]
      simp only [List.length_append, List.length_take, List.length_drop]
      omega
    · simp only [List.length_append, List.length_take]
      omega
    · exact absurd (hlive.symm.trans hst) (by decide)

/-- Past the end of stdout only the child's exit and the bound on stderr matter. -/
theorem Inv.pastEof {s u : State} (hs : Inv C child s) (hst : s.exitStatus.isSome)
    (hd : ¬ u.parent.draining) (hwrites : u.writes = s.writes)
    (hexit : u.exitStatus = s.exitStatus) (hbound : u.err.bytes.length ≤ C) : Inv C child u := by
  refine ⟨fun h => absurd h hd, fun h => absurd h hd, fun h => absurd h hd, hbound, ?_, ?_⟩
  · intro _
    rw [hexit]
    exact hst
  · intro _
    rw [hwrites]
    exact hs.finished hst

theorem inv_step {s u : State} {a : Action} (hs : Inv C child s)
    (h : step C child s a = some u) : Inv C child u := by
  cases step_cases h with
  | write hw _ hlen hroom => exact inv_write hs hw hlen hroom
  | @writeReturn fd ws hw =>
    refine { hs with stderr := fun hd => ?_, finished := fun hst => ?_ }
    · have hb := hs.stderr hd
      rw [hw] at hb
      cases fd with
      | stdout => rwa [bytesTo_cons_other (by decide)] at hb
      | stderr => rwa [bytesTo_cons_same, List.nil_append] at hb
    · exact absurd ((hs.writing hw).1.symm.trans hst) (by decide)
  | sigpipe hw hclosed =>
    exact absurd ((hs.pipe_open (hs.writing hw).2 _).symm.trans hclosed) (by decide)
  | exit hw => exact { hs with exited := fun _ => rfl, finished := fun _ => hw }
  | closeStdin hpc =>
    have hd : s.parent.draining := by
      rw [hpc]
      trivial
    exact { hs with
      outOpen := fun _ => hs.outOpen hd, errOpen := fun _ => hs.errOpen hd
      stderr := fun _ => hs.stderr hd, exited := fun h => absurd trivial h }
  | read => exact { hs with }
  | readEof hpc _ hst => exact hs.pastEof hst id rfl rfl hs.bound
  | closeStdout hpc => exact hs.pastEof (hs.exited (by rw [hpc]; exact id)) id rfl rfl hs.bound
  | closeStderr hpc =>
    exact hs.pastEof (hs.exited (by rw [hpc]; exact id)) id rfl rfl (Nat.zero_le C)
  | procWait hpc hst => exact hs.pastEof hst id rfl rfl hs.bound
  | procClose hpc => exact hs.pastEof (hs.exited (by rw [hpc]; exact id)) id rfl rfl hs.bound

theorem inv_reachable {s : State} (h : (machine C child).Reachable s) : Inv C child s :=
  h.invariant (inv_init C child) fun _ _ _ _ hs ht => inv_step hs ht

/-! ## 4. Enough room for stderr: something can always happen -/

theorem exists_step {s : State} (hs : Inv C child s) (hC : 0 < C)
    (hroom : (bytesTo .stderr child.writes).length ≤ C) (hp : s.parent ≠ .returned) :
    ∃ a, (machine C child).step s a ≠ none := by
  rcases hs with ⟨hout, herr, hbytes, hbound, hex, hfin⟩
  cases hpc : s.parent with
  | closeStdin => exact ⟨.closeStdin, by simp [machine, step, hpc]⟩
  | closeStdout => exact ⟨.closeStdout, by simp [machine, step, hpc]⟩
  | closeStderr => exact ⟨.closeStderr, by simp [machine, step, hpc]⟩
  | procWait =>
    have hst := hex (by simp [hpc, ParentPc.draining])
    exact ⟨.procWait, by simp [machine, step, hpc, hst]⟩
  | procClose => exact ⟨.procClose, by simp [machine, step, hpc]⟩
  | returned => exact absurd hpc hp
  | readStdout =>
    have hd : s.parent.draining := by simp [hpc, ParentPc.draining]
    by_cases hempty : s.out.bytes = []
    · rcases hst : s.exitStatus with _ | st
      · -- the parent waits for the child, which can always go on
        rcases hw : s.writes with _ | ⟨⟨fd, bytes⟩, ws⟩
        · exact ⟨.exit, by simp [machine, step, hw, hst]⟩
        · rcases bytes with _ | ⟨b, bs⟩
          · exact ⟨.writeReturn, by simp [machine, step, hw]⟩
          · have hacc : (s.pipe fd).accepts C 1 := by
              intro _
              cases fd with
              | stdout =>
                simp only [State.pipe, hempty, List.length_nil]
                omega
              | stderr =>
                have hb := hbytes hd
                rw [hw, bytesTo_cons_same, List.length_append, List.length_cons] at hb
                simp only [State.pipe]
                omega
            exact ⟨.write 1, by simp [machine, step, hw, hacc]⟩
      · exact ⟨.readEof, by simp [machine, step, hpc, hempty, hst]⟩
    · have hpos : 0 < s.out.bytes.length := List.length_pos_iff.mpr hempty
      have hone : 1 ≤ s.out.bytes.length := hpos
      exact ⟨.read 1, by simp [machine, step, hpc, maxlen, hone]⟩

/-! ## 5. Too many bytes on stderr: every run jams -/

/-- The parent still reads stdout, the child still writes. -/
def Jammed (s : State) : Prop := s.parent.draining ∧ s.exitStatus = none

theorem jammed_step {s u : State} {a : Action} (hs : Inv C child s)
    (hfull : C < (bytesTo .stderr child.writes).length) (hj : Jammed s)
    (h : step C child s a = some u) : Jammed u := by
  rcases hj with ⟨hd, hlive⟩
  cases step_cases h with
  | @write fd => cases fd <;> exact ⟨hd, hlive⟩
  | writeReturn | read => exact ⟨hd, hlive⟩
  | sigpipe hw hclosed => exact absurd ((hs.pipe_open hd _).symm.trans hclosed) (by decide)
  | exit hw =>
    -- all of stderr would be in the pipe
    have hb := hs.stderr hd
    have hbound := hs.bound
    rw [hw, bytesTo_nil, List.length_nil] at hb
    omega
  | closeStdin => exact ⟨trivial, hlive⟩
  | readEof _ _ hst =>
    rw [hlive] at hst
    cases hst
  | closeStdout hpc | closeStderr hpc | procWait hpc | procClose hpc =>
    rw [hpc] at hd
    exact hd.elim

/-- The calls the parent has left to make. -/
def ParentPc.rank : ParentPc → Nat
  | .closeStdin => 6
  | .readStdout => 5
  | .closeStdout => 4
  | .closeStderr => 3
  | .procWait => 2
  | .procClose => 1
  | .returned => 0

/-- What is left to do: a byte to be written costs two steps, one in the pipe one. -/
def work (s : State) : Nat :=
  (s.writes.map fun w => 1 + 2 * w.2.length).sum + s.out.bytes.length + s.err.bytes.length +
    s.parent.rank + (if s.exitStatus.isSome then 0 else 1)

theorem Pipe.length_push (p : Pipe) (bytes : List UInt8) :
    (p.push bytes).bytes.length ≤ p.bytes.length + bytes.length := by
  simp only [Pipe.push]
  split
  · simp
  · omega

theorem work_step {s u : State} {a : Action} (h : step C child s a = some u) :
    work u < work s := by
  cases step_cases h with
  | @write fd bytes ws k hw hk hlen =>
    have hpush := Pipe.length_push (s.pipe fd) (bytes.take k)
    rw [List.length_take] at hpush
    cases fd with
    | stdout | stderr =>
      simp only [work, State.pipe, State.setPipe, hw, List.map_cons, List.sum_cons,
        List.length_drop] at hpush ⊢
      omega
  | writeReturn hw =>
    simp only [work, hw, List.map_cons, List.sum_cons, List.length_nil]
    omega
  | sigpipe hw =>
    simp only [work, hw, List.map_cons, List.sum_cons, List.map_nil, List.sum_nil,
      Option.isSome_some, if_true]
    omega
  | exit _ hlive => simp [work, hlive]
  | read _ hn _ hlen =>
    simp only [work, List.length_drop]
    omega
  | closeStdin hpc | readEof hpc | procWait hpc | procClose hpc => simp [work, hpc, ParentPc.rank]
  | closeStdout hpc | closeStderr hpc =>
    simp only [work, hpc, ParentPc.rank, Pipe.close, List.length_nil]
    omega

theorem exists_deadlock (hfull : C < (bytesTo .stderr child.writes).length) :
    ∃ s, (machine C child).Reachable s ∧ Deadlocked C child s := by
  rcases (machine C child).exists_halted work (fun _ _ _ ht => work_step ht)
    (machine C child).init with ⟨as, s, hrun, hhalt⟩
  have hinit : Jammed (machine C child).init := ⟨trivial, rfl⟩
  have key := (machine C child).runFrom_invariant
    (P := fun s => Inv C child s ∧ Jammed s)
    (fun s a t hs ht => ⟨inv_step hs.1 ht, jammed_step hs.1 hfull hs.2 ht⟩)
    ⟨inv_init C child, hinit⟩ hrun
  refine ⟨s, ⟨as, hrun⟩, ?_, key.2.2, hhalt⟩
  intro hp
  have hd := key.2.1
  rw [hp] at hd
  exact hd

/-- **When `io-run/output` cannot deadlock.**  With pipes of `C` bytes no reachable state is a
deadlock if and only if the child writes at most `C` bytes to stderr in all. -/
theorem no_deadlock_iff (C : Nat) (child : Child) (hC : 0 < C) :
    (∀ s, (machine C child).Reachable s → ¬ Deadlocked C child s) ↔
      (bytesTo .stderr child.writes).length ≤ C := by
  constructor
  · intro h
    by_contra hfull
    rcases exists_deadlock (Nat.lt_of_not_le hfull) with ⟨s, hs, hdead⟩
    exact h s hs hdead
  · intro hroom s hs hdead
    rcases hdead with ⟨hp, _, hhalt⟩
    rcases exists_step (inv_reachable hs) hC hroom hp with ⟨a, ha⟩
    exact ha (hhalt a)

/-- Three bytes of stdout, two of stderr. -/
def quietChild : Child := { writes := [(.stdout, [1, 2, 3]), (.stderr, [0, 0])], status := 7 }

/-- Two bytes fill its stdout, and the parent still has a step. -/
theorem no_deadlock_quietChild :
    ∃ s, (machine 2 quietChild).run [.closeStdin, .write 2] = some s ∧
      ¬ Deadlocked 2 quietChild s :=
  ⟨_, rfl, (no_deadlock_iff 2 quietChild (by decide)).mpr (by decide) _
    ⟨[.closeStdin, .write 2], rfl⟩⟩

/-- A child that writes two bytes to stderr, on pipes of one byte: it blocks in the write while
the parent reads stdout. -/
theorem chatty_child_deadlocks :
    ∃ s, (machine 1 ⟨[(.stderr, [0, 0])], 0⟩).run [.closeStdin, .write 1] = some s ∧
      Deadlocked 1 ⟨[(.stderr, [0, 0])], 0⟩ s := by
  refine ⟨_, rfl, by decide, rfl, ?_⟩
  intro a
  cases a with
  | write k =>
    rcases k with _ | k
    · rfl
    · simp [machine, step, State.pipe, State.setPipe, Pipe.accepts, Pipe.push]
  | read n =>
    simp only [machine, step, State.setPipe, List.length_nil]
    exact if_neg (by omega)
  | _ => rfl

end

end ChezAsync.RunOutput
