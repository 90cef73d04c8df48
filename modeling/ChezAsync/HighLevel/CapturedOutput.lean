import Mathlib.Tactic.Common
import ChezAsync.HighLevel.Chunks
import ChezAsync.HighLevel.RunOutput

/-!
# What `io-run/output` returns (`io-proc.ss`)

Against the machine of `RunOutput.lean`: however the writes of the child and the reads of the parent
interleave, and however the bytes are cut into chunks, the procedure returns the child's exit status
and what the child has written to its stdout.
-/

namespace ChezAsync.RunOutput

open Composite (chunkAnswers readStreamToEof)
open Bytes (Endian)

variable {C : Nat} {child : Child} {s u : State}

/-! ## 1. The bytes on their way -/

/-- Each byte of stdout is in a chunk, in the pipe or still to be written, in the order of the
writes. -/
structure Flow (child : Child) (s : State) : Prop where
  stdout : s.parent.draining → s.chunks.flatten ++ s.out.bytes ++ bytesTo .stdout s.writes =
    bytesTo .stdout child.writes
  whole : ¬ s.parent.draining → s.chunks.flatten = bytesTo .stdout child.writes
  chunks : ∀ c ∈ s.chunks, c ≠ [] ∧ c.length ≤ maxlen
  status : ∀ st, s.exitStatus = some st → st = child.status
  code : s.parent = .procClose ∨ s.parent = .returned → s.code = some child.status

theorem flow_init : Flow child (machine C child).init := by
  refine ⟨fun _ => rfl, fun h => absurd trivial h, fun c hc => ?_, fun st h => ?_, fun h => ?_⟩
  · cases hc
  · cases h
  · rcases h with h | h <;> cases h

/-- The parent has not come to the wait. -/
theorem ParentPc.code_draining {pc : ParentPc} (h : pc.draining) :
    ¬ (pc = .procClose ∨ pc = .returned) := by
  rintro (rfl | rfl) <;> exact h

theorem flow_write {fd : Fd} {bytes : List UInt8} {ws : List (Fd × List UInt8)} {k : Nat}
    (hs : Inv C child s) (hf : Flow child s) (hw : s.writes = (fd, bytes) :: ws) :
    Flow child { s.setPipe fd ((s.pipe fd).push (bytes.take k)) with
      writes := (fd, bytes.drop k) :: ws } := by
  have hd := (hs.writing hw).2
  have hb := hf.stdout hd
  rw [hw] at hb
  cases fd with
  | stdout =>
    rw [bytesTo_cons_same] at hb
    simp only [State.setPipe, State.pipe, Pipe.push_open (hs.outOpen hd)]
    refine { hf with stdout := fun _ => ?_ }
    rw [bytesTo_cons_same, ← hb]
    simp only [List.append_assoc]
    rw [← List.append_assoc (bytes.take k), List.take_append_drop]
  | stderr =>
    rw [bytesTo_cons_other (by decide)] at hb
    simp only [State.setPipe, State.pipe, Pipe.push_open (hs.errOpen hd)]
    refine { hf with stdout := fun _ => ?_ }
    rw [bytesTo_cons_other (by decide)]
    exact hb

theorem flow_read {n : Nat} (hf : Flow child s) (hpc : s.parent = .readStdout) (hn : 0 < n)
    (hmax : n ≤ maxlen) (hlen : n ≤ s.out.bytes.length) :
    Flow child { s with
      out := { s.out with bytes := s.out.bytes.drop n }
      chunks := s.chunks ++ [s.out.bytes.take n] } := by
  refine { hf with stdout := fun hd => ?_, whole := fun hd => ?_, chunks := fun c hc => ?_ }
  · rw [← hf.stdout hd, List.flatten_append, List.flatten_singleton,
      List.append_assoc _ (_ : List _) (List.drop n _), List.take_append_drop]
  · rw [show s.parent.draining = True by rw [hpc]; rfl] at hd
    exact absurd trivial hd
  · rcases List.mem_append.mp hc with hc | hc
    · exact hf.chunks c hc
    · rw [List.mem_singleton.mp hc]
      have htake : (s.out.bytes.take n).length = n := by
        rw [List.length_take]
        omega
      refine ⟨fun hnil => ?_, by omega⟩
      rw [hnil, List.length_nil] at htake
      omega

theorem flow_step {a : Action} (hs : Inv C child s) (hf : Flow child s)
    (h : step C child s a = some u) : Flow child u := by
  -- behind the end of stdout only the parent's place and what it knows of the exit change
  have hpast : ∀ pc : ParentPc, ¬ s.parent.draining → ¬ pc.draining → ∀ out err code,
      (pc = .procClose ∨ pc = .returned → code = some child.status) →
        Flow child { s with parent := pc, out, err, code } :=
    fun _ hd hd' _ _ _ hcode => { hf with
      stdout := fun h => absurd h hd', whole := fun _ => hf.whole hd, code := hcode }
  cases step_cases h with
  | write hw => exact flow_write hs hf hw
  | @writeReturn fd ws hw =>
    refine { hf with stdout := fun hd => ?_ }
    have hb := hf.stdout hd
    rw [hw] at hb
    cases fd with
    | stdout => rwa [bytesTo_cons_same, List.nil_append] at hb
    | stderr => rwa [bytesTo_cons_other (by decide)] at hb
  | sigpipe hw hclosed =>
    exact absurd ((hs.pipe_open (hs.writing hw).2 _).symm.trans hclosed) (by decide)
  | exit hw hlive => exact { hf with status := fun st hst => (Option.some.inj hst).symm }
  | closeStdin hpc =>
    have hd : s.parent.draining := by
      rw [hpc]
      trivial
    exact { hf with
      stdout := fun _ => hf.stdout hd, whole := fun h => absurd trivial h
      code := fun h => absurd h (@ParentPc.code_draining .readStdout trivial) }
  | read hpc hn hmax hlen => exact flow_read hf hpc hn hmax hlen
  | readEof hpc hout hst =>
    have hd : s.parent.draining := by
      rw [hpc]
      trivial
    -- the child has exited, so that nothing is left to be written
    have hb := hf.stdout hd
    rw [hout, hs.finished hst, bytesTo_nil, List.append_nil, List.append_nil] at hb
    refine { hf with stdout := fun h => h.elim, whole := fun _ => hb, code := fun h => ?_ }
    rcases h with h | h <;> cases h
  | closeStdout hpc =>
    exact hpast .closeStderr (by rw [hpc]; exact id) id _ s.err s.code
      (by rintro (h | h) <;> cases h)
  | closeStderr hpc =>
    exact hpast .procWait (by rw [hpc]; exact id) id s.out _ s.code
      (by rintro (h | h) <;> cases h)
  | procWait hpc hst =>
    refine hpast .procClose (by rw [hpc]; exact id) id s.out s.err _ fun _ => ?_
    obtain ⟨st, hst⟩ := Option.isSome_iff_exists.mp hst
    rw [hst, hf.status st hst]
  | procClose hpc =>
    exact hpast .returned (by rw [hpc]; exact id) id s.out s.err s.code
      fun _ => hf.code (Or.inl hpc)

theorem flow_reachable (h : (machine C child).Reachable s) : Flow child s :=
  h.invariant flow_init fun _ _ _ hreach hf hstep => flow_step (inv_reachable hreach) hf hstep

/-! ## 2. The result -/

theorem work_runFrom {as : List Action} (hrun : (machine C child).runFrom s as = some u) :
    as.length + work u ≤ work s := by
  induction as generalizing s with
  | nil =>
    cases hrun
    exact Nat.le_of_eq (Nat.zero_add _)
  | cons a as ih =>
    obtain ⟨t, ht, hrest⟩ := (machine C child).runFrom_cons.mp hrun
    have hlt := work_step ht
    have hle := ih hrest
    rw [List.length_cons]
    omega

/-- The stream's reader, on the stretches that the machine has read. -/
theorem readStreamToEof_chunks (e : Endian) (junk : Nat → UInt8) (stream : Nat)
    {cs : List (List UInt8)} (hcs : ∀ c ∈ cs, c ≠ [] ∧ c.length ≤ maxlen) :
    (readStreamToEof e junk (some stream) (chunkAnswers cs)).outcome = some (.ok cs.flatten) := by
  have hreads := Composite.delivers_chunkAnswers
    (Composite.readTaskResult_readsWith e junk "io-stream-read" (.stream stream) maxlen) hcs []
  rw [List.append_nil] at hreads
  exact Composite.readStreamToEof_delivers hreads

/-- **`io-run/output` returns what the child has written.**  Let the child keep its stdout open until
it exits.  In every interleaving with it: when the procedure returns, `read-stream-to-eof` on the
chunks that came has made the bytevector of all that the child has written to stdout, and the exit
code is the child's; no run is longer than the work that is there at the start; and if the child's
stderr fits into its pipe, every run that can go no further has returned. -/
theorem runOutput_total (e : Endian) (junk : Nat → UInt8) (stream : Nat) (hC : 0 < C) :
    (∀ s, (machine C child).Reachable s → s.parent = .returned →
      (readStreamToEof e junk (some stream) (chunkAnswers s.chunks)).outcome =
          some (.ok (bytesTo .stdout child.writes)) ∧ s.code = some child.status) ∧
      (∀ as s, (machine C child).run as = some s → as.length ≤ work (machine C child).init) ∧
      ((bytesTo .stderr child.writes).length ≤ C →
        ∀ s, (machine C child).Reachable s → (machine C child).Halted s →
          s.parent = .returned) := by
  refine ⟨fun s hs hpc => ?_, fun as s hrun => ?_, fun hroom s hs hhalt => ?_⟩
  · have hf := flow_reachable hs
    have hd : ¬ s.parent.draining := by
      rw [hpc]
      exact id
    rw [readStreamToEof_chunks e junk stream hf.chunks, hf.whole hd]
    exact ⟨rfl, hf.code (Or.inr hpc)⟩
  · have hle := work_runFrom hrun
    omega
  · by_contra hp
    obtain ⟨a, ha⟩ := exists_step (inv_reachable hs) hC hroom hp
    exact ha (hhalt a)

/-- The three bytes of stdout are read in two chunks, with a write to the full pipe in between. -/
def quietRun : List Action :=
  [.closeStdin, .write 2, .read 1, .write 1, .read 2, .writeReturn, .write 2, .writeReturn, .exit,
    .readEof, .closeStdout, .closeStderr, .procWait, .procClose]

theorem runOutput_total_quietChild :
    ∃ s, (machine 2 quietChild).run quietRun = some s ∧
      (readStreamToEof .little (fun _ => 0) (some 0) (chunkAnswers s.chunks)).outcome =
        some (.ok [1, 2, 3]) ∧ s.code = some 7 := by
  have hrun : (machine 2 quietChild).run quietRun = some _ := rfl
  exact ⟨_, hrun, (runOutput_total .little (fun _ => 0) 0 (by decide)).1 _ ⟨_, hrun⟩ rfl⟩

end ChezAsync.RunOutput
