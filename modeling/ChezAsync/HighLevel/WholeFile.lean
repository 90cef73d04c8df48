import Mathlib.Logic.Function.Basic
import ChezAsync.HighLevel.Release

/-!
# Whole files (`io-fs.ss`)

`io-write-file` and `io-read-file` against a file system that may transfer less than it is asked
for.  The reads are in a loop, the write is not.
-/

namespace ChezAsync.Composite

open Bytes (Endian slice overlay)
open Buffer (InRange32)

/-! ## 1. The file system -/

/-- An open file and where it stands. -/
structure Descriptor where
  path : String
  pos : Nat

structure Os where
  files : String → Option (List UInt8)
  fds : Int → Option Descriptor

/-- The open flag `flag`, a single bit, is set. -/
def hasFlag (flags : Int) (flag : Nat) : Bool := flags.toNat &&& flag != 0

/-- The content of a file with `bytes` written at `pos`; a gap is filled with zeros. -/
def patch (content : List UInt8) (pos : Nat) (bytes : List UInt8) : List UInt8 :=
  overlay (content ++ List.replicate (pos - content.length) 0) pos bytes

/-- What a successful `open` makes of the file. -/
def opened (file : Option (List UInt8)) (flags : Int) : Option (List UInt8) :=
  match file with
  | none => if hasFlag flags O_CREAT then some [] else none
  | some content => if hasFlag flags O_TRUNC then some [] else some content

/-- `pread` and `pwrite` are given a position, `read` and `write` go on where the file stands. -/
def Descriptor.at (d : Descriptor) (offset : Int) : Nat := if offset < 0 then d.pos else offset.toNat

def Descriptor.advance (d : Descriptor) (offset : Int) (n : Nat) : Descriptor :=
  if offset < 0 then { d with pos := d.pos + n } else d

/-- The file system answers the request `q` with `c`; `none` where that is no answer of it.  A
task that fails leaves the files alone. -/
def Os.answer (os : Os) : Request → Completion → Option Os
  | .fsOpen path flags _, c =>
    if c.result < 0 then some os
    else do
      let content ← opened (os.files path) flags
      if (os.fds c.result).isNone then
        some
          { files := Function.update os.files path (some content)
            fds := Function.update os.fds c.result (some { path, pos := 0 }) }
      else none
  | .read { target := .file fd offset, nbytes, .. }, c =>
    if c.result < 0 then some os
    else do
      let d ← os.fds fd
      let content ← os.files d.path
      let left := content.drop (d.at offset)
      -- a front part of what is left, nothing only at the end of the file
      if c.data = left.take c.result.toNat ∧ (c.result = 0 → nbytes = 0 ∨ left = []) then
        some { os with
          fds := Function.update os.fds fd (some (d.advance offset c.result.toNat)) }
      else none
  | .write { target := .file fd offset, nbytes, buffer, .. }, c =>
    if c.result < 0 then some os
    else do
      let d ← os.fds fd
      let content ← os.files d.path
      if c.result ≤ nbytes ∧ (0 < nbytes → 0 < c.result) then
        some
          { files := Function.update os.files d.path
              (some (patch content (d.at offset) (buffer.take c.result.toNat)))
            fds := Function.update os.fds fd (some (d.advance offset c.result.toNat)) }
      else none
  | .fsClose fd, _ => some { os with fds := Function.update os.fds fd none }
  | _, _ => some os

/-- The file system gives the answers of `tr`. -/
def Os.run (os : Os) : Trace → Option Os
  | [] => some os
  | (q, c) :: tr => if Possible q c then (os.answer q c).bind fun os => os.run tr else none

-- The file system answers the parts of a trace one after the other.
theorem Os.run_append (os : Os) (tr tr' : Trace) :
    os.run (tr ++ tr') = (os.run tr).bind fun os => os.run tr' := by
  induction tr generalizing os with
  | nil => rfl
  | cons x tr ih =>
    rw [List.cons_append, run, run]
    split
    · cases os.answer x.1 x.2 with
      | none => rfl
      | some os' => exact ih os'
    · rfl

theorem Os.possible_of_run {os os' : Os} {tr : Trace} (h : os.run tr = some os') :
    ∀ x ∈ tr, Possible x.1 x.2 := by
  induction tr generalizing os with
  | nil => exact fun _ hx => nomatch hx
  | cons x tr ih =>
    rw [run, Option.ite_none_right_eq_some] at h
    obtain ⟨hposs, hrest⟩ := h
    obtain ⟨os'', -, hrun⟩ := Option.bind_eq_some_iff.mp hrest
    intro y hy
    rcases List.mem_cons.mp hy with rfl | hmem
    · exact hposs
    · exact ih hrun y hmem

theorem Os.run_cons {os os' : Os} {q : Request} {c : Completion} {tr : Trace}
    (h : os.run ((q, c) :: tr) = some os') :
    Possible q c ∧ ∃ os'', os.answer q c = some os'' ∧ os''.run tr = some os' := by
  rw [run, Option.ite_none_right_eq_some] at h
  exact ⟨h.1, Option.bind_eq_some_iff.mp h.2⟩

/-! ## 2. Reading back -/

/-- `bv` stands in the file `path`, which is open as `fd` at `pos`. -/
structure Reading (os : Os) (path : String) (bv : List UInt8) (fd : Int) (pos : Nat) : Prop where
  content : os.files path = some bv
  fd : os.fds fd = some { path, pos }
  le : pos ≤ bv.length

section
variable {os os' : Os} {path : String} {bv : List UInt8} {fd : Int} {pos : Nat}

/-- A read at the end of the file. -/
theorem answer_eof {buffer : List UInt8} {c : Completion} (h : Reading os path bv fd pos)
    (hread : os.answer (.read { target := .file fd (-1), nbytes := 65536, buffer, extData := none })
      c = some os') (hzero : c.result = 0) : pos = bv.length := by
  have hnonneg : ¬ c.result < 0 := by omega
  simp only [Os.answer, if_neg hnonneg, h.fd, h.content, Option.bind_eq_bind, Option.bind_some,
    Option.ite_none_right_eq_some] at hread
  have hend := (hread.1.2 hzero).resolve_left (by decide)
  have hdrop : bv.drop pos = [] := hend
  have hle := List.drop_eq_nil_iff.mp hdrop
  exact Nat.le_antisymm h.le hle

/-- A read of some bytes. -/
theorem answer_more {buffer : List UInt8} {c : Completion} (h : Reading os path bv fd pos)
    (hread : os.answer (.read { target := .file fd (-1), nbytes := 65536, buffer, extData := none })
      c = some os') (hposs : (c.data.length : Int) = c.result) (hpos : 0 < c.result) :
    Reading os' path bv fd (pos + c.data.length) ∧ bv.take (pos + c.data.length) =
      bv.take pos ++ c.data := by
  have hnat : c.result.toNat = c.data.length := by omega
  simp only [Os.answer, if_neg (Int.not_lt.mpr (Int.le_of_lt hpos)), h.fd, h.content,
    Option.bind_eq_bind, Option.bind_some, Option.ite_none_right_eq_some, Option.some.injEq]
    at hread
  obtain ⟨⟨hdata, -⟩, rfl⟩ := hread
  have hfront : c.data = (bv.drop pos).take c.data.length := by
    have hat : Descriptor.at { path, pos } (-1) = pos := rfl
    rw [hat, hnat] at hdata
    exact hdata
  have hfit : c.data.length ≤ bv.length - pos := by
    have hlen := congrArg List.length hfront
    rw [List.length_take, List.length_drop] at hlen
    omega
  refine ⟨⟨h.content, ?_, by have := h.le; omega⟩, ?_⟩
  · have hself := Function.update_self (f := os.fds) fd
      (some (Descriptor.advance { path, pos } (-1) c.result.toNat))
    rw [hnat] at hself ⊢
    exact hself
  · rw [List.take_add, ← hfront]

/-- The loop reads the file to its end, in whatever pieces it comes. -/
theorem loop_reads {who : String} {s : Chunks} {cs : List Completion}
    {r : Issue.Ran Request Completion Condition Chunks}
    (hloop : LoopRan who (Transfer.newReadTask (.file fd (-1)) 65536) s cs r)
    (h : Reading os path bv fd pos) (hchunks : s.chunks.reverse.flatten = bv.take pos)
    (htotal : s.total = pos) (hlegal : os.run r.trace = some os')
    (hsound : ∀ x ∈ r.trace, 0 ≤ x.2.result) (hlen : bv.length - pos + 2 ≤ cs.length) :
    ∃ s' c rest, r.outcome = some (.ok s') ∧ s'.chunks.reverse.flatten = bv ∧
      s'.total = bv.length ∧ r.rest = c :: rest := by
  induction hloop generalizing os pos with
  | wait s =>
    rw [List.length_nil] at hlen
    omega
  | fail s c cs hneg =>
    have hpos := hsound _ List.mem_cons_self
    dsimp only at hpos
    omega
  | eof s c cs hzero =>
    obtain ⟨-, os'', hread, -⟩ := Os.run_cons hlegal
    have hend := answer_eof h hread hzero
    rw [hend, List.take_length] at hchunks
    rw [List.length_cons] at hlen
    cases cs with
    | nil =>
      rw [List.length_nil] at hlen
      omega
    | cons c' rest => exact ⟨s, c', rest, rfl, hchunks, htotal.trans hend, rfl⟩
  | more s c cs r hpos hr ih =>
    obtain ⟨hposs, os'', hread, hrun⟩ := Os.run_cons hlegal
    have hdata : (c.data.length : Int) = c.result := by
      rcases hposs with ⟨-, -, hdata⟩ | ⟨hneg, -⟩
      · exact hdata
      · omega
    obtain ⟨hnext, htake⟩ := answer_more h hread hdata hpos
    have hle := hnext.le
    rw [List.length_cons] at hlen
    refine ih hnext ?_ ?_ hrun (fun x hx => hsound x (List.mem_cons_of_mem _ hx)) (by omega)
    · rw [List.reverse_cons, List.flatten_append, hchunks, htake, List.flatten_singleton]
    · show s.total + c.data.length = _
      rw [htotal]

end

/-- The chunks are put one behind the other. -/
theorem copyChunks_eq (cs : List (List UInt8)) {off : Nat} {out : List UInt8}
    (h : off + cs.flatten.length ≤ out.length) :
    copyChunks cs off out = some (overlay out off cs.flatten) := by
  induction cs generalizing off out with
  | nil => exact congrArg some (Bytes.overlay_nil out off).symm
  | cons c cs ih =>
    rw [List.flatten_cons, List.length_append] at h
    have hcopy : Buffer.bytevectorCopy c 0 out off c.length = some (overlay out off c) := by
      rw [Buffer.bytevectorCopy_eq (by omega) (by omega), Bytes.slice_all]
    have hover := @Bytes.length_overlay _ out off c (by omega)
    rw [copyChunks, hcopy, List.flatten_cons]
    simp only [Option.bind_eq_bind, Option.bind_some]
    rw [ih (by rw [hover]; omega), Bytes.overlay_overlay (by omega)]

-- The loop has counted the bytes of its chunks.
theorem join_eq {junk : Nat → UInt8} {s : Chunks} {bv : List UInt8} (as : List Completion)
    (hchunks : s.chunks.reverse.flatten = bv) (htotal : s.total = bv.length) :
    s.join junk as = { trace := [], outcome := some (.ok bv), rest := as } := by
  have halloc : (Buffer.alloc junk s.total).length = bv.length := by
    rw [Buffer.length_alloc, htotal]
  have hcopy : copyChunks s.chunks.reverse 0 (Buffer.alloc junk s.total) = some bv := by
    rw [copyChunks_eq _ (by rw [hchunks, halloc]; omega), hchunks, Bytes.overlay_front,
      List.drop_of_length_le (Nat.le_of_eq halloc), List.append_nil]
  rw [Chunks.join, hcopy]
  rfl

/-- A call of `io-read-file` of which no task fails returns `bv`, in whatever pieces the file system
hands it out. -/
def ReadsBack (e : Endian) (junk : Nat → UInt8) (path : String) (bv : List UInt8) (os : Os) :
    Prop :=
  ∀ as os', os.run (ioReadFile e junk path as).trace = some os' →
    (∀ x ∈ (ioReadFile e junk path as).trace, 0 ≤ x.2.result) → bv.length + 3 ≤ as.length →
    (ioReadFile e junk path as).outcome = some (.ok bv)

/-- A successful `open` for reading. -/
theorem reading_of_open {path : String} {bv : List UInt8} {os os' : Os} {f : Completion}
    (h : os.files path = some bv) (hpos : 0 ≤ f.result)
    (hanswer : os.answer (.fsOpen path 0 0) f = some os') : Reading os' path bv f.result 0 := by
  have hcontent : opened (os.files path) 0 = some bv := by
    rw [h]
    rfl
  simp only [Os.answer, if_neg (Int.not_lt.mpr hpos), hcontent, Option.bind_eq_bind,
    Option.bind_some, Option.ite_none_right_eq_some, Option.some.injEq] at hanswer
  obtain ⟨-, rfl⟩ := hanswer
  exact ⟨Function.update_self .., Function.update_self .., Nat.zero_le _⟩

/-- The loop of `io-read-file`, of which no read fails, comes to the end with the whole file and
leaves a completion for the `close`. -/
theorem readLoop_reads {e : Endian} {junk : Nat → UInt8} {path : String} {bv : List UInt8}
    {fd : Int} {os os' : Os} {cs : List Completion} (h : Reading os path bv fd 0)
    (hlegal : os.run (readLoop (readTaskResult e junk "io-read"
      (Transfer.newReadTask (.file fd (-1)) 65536)) cs).trace = some os')
    (hsound : ∀ x ∈ (readLoop (readTaskResult e junk "io-read"
      (Transfer.newReadTask (.file fd (-1)) 65536)) cs).trace, 0 ≤ x.2.result)
    (hlen : bv.length + 2 ≤ cs.length) :
    ∃ s c rest tr, s.chunks.reverse.flatten = bv ∧ s.total = bv.length ∧
      readLoop (readTaskResult e junk "io-read" (Transfer.newReadTask (.file fd (-1)) 65536)) cs =
        { trace := tr, outcome := some (.ok s), rest := c :: rest } := by
  have hloop := loop_ran ⟨[], 0⟩ cs
    (readTaskResult_readsWith e junk "io-read" (.file fd (-1)) 65536) (Os.possible_of_run hlegal)
  obtain ⟨s, c, rest, hok, hchunks, htotal, hcs⟩ :=
    loop_reads hloop h rfl rfl hlegal hsound (by omega)
  refine ⟨s, c, rest, (readLoop (readTaskResult e junk "io-read"
    (Transfer.newReadTask (.file fd (-1)) 65536)) cs).trace, hchunks, htotal, ?_⟩
  rw [← hok, ← hcs]
  rfl

-- Open, loop and close, each with the answers that the one before has left.
theorem readsBack_of_content {e : Endian} {junk : Nat → UInt8} {path : String} {bv : List UInt8}
    {os : Os} (h : os.files path = some bv) : ReadsBack e junk path bv os := by
  intro as os' hlegal hsound hlen
  cases as with
  | nil =>
    rw [List.length_nil] at hlen
    omega
  | cons f cs =>
    rw [List.length_cons] at hlen
    have hopen : ioOpen path O_RDONLY 0 = taskRun "io-open" (.fsOpen path 0 0) := rfl
    have hpos : 0 ≤ f.result := hsound (.fsOpen path 0 0, f)
      (Issue.Prog.mem_bind_left (by rw [hopen]; exact taskRun_mem _ _ _ _))
    have hfirst : ioOpen path O_RDONLY 0 (f :: cs) =
        { trace := [(.fsOpen path 0 0, f)], outcome := some (.ok f.result), rest := cs } := by
      rw [hopen]
      exact taskRun_pass cs hpos
    have hrun := Issue.Prog.bind_ok (f := fun fd => (do
      let s ← readLoop (ioRead e junk fd 65536 (-1))
      ioClose fd
      s.join junk : Act (List UInt8))) hfirst
    rw [ioReadFile, hrun] at hlegal hsound ⊢
    rw [Issue.Ran.after_trace, List.singleton_append] at hlegal
    obtain ⟨hint, os₁, hanswer, hrest⟩ := Os.run_cons hlegal
    have hfd : Buffer.int32 f.result = some f.result := Buffer.int32_of_int hint.1 hint.2
    rw [ioRead_eq hfd, ioClose_eq hfd] at hrest hsound ⊢
    -- the loop
    obtain ⟨tr, htr⟩ := Issue.Prog.trace_bind
      (readLoop (readTaskResult e junk "io-read"
        (Transfer.newReadTask (.file f.result (-1)) 65536)))
      (fun s => (do
        taskRunVoid "io-close" (.fsClose f.result)
        s.join junk : Act (List UInt8))) cs
    rw [htr, Os.run_append] at hrest
    obtain ⟨os₂, hlegal₁, -⟩ := Option.bind_eq_some_iff.mp hrest
    obtain ⟨s, c, rest, tr', hchunks, htotal, hr⟩ :=
      readLoop_reads (reading_of_open h hpos hanswer) hlegal₁
        (fun x hx => hsound x (List.mem_append_right _ (Issue.Prog.mem_bind_left hx))) (by omega)
    -- the close
    rw [Issue.Prog.bind_ok hr] at hsound ⊢
    have hclose : 0 ≤ c.result := hsound (.fsClose f.result, c)
      (List.mem_append_right _ (List.mem_append_right _
        (Issue.Prog.mem_bind_left (Issue.Prog.mem_bind_left (taskRun_mem _ _ _ _)))))
    rw [Issue.Prog.bind_ok (taskRunVoid_pass rest hclose), join_eq rest hchunks htotal]
    rfl

/-! ## 3. Writing -/

/-- Nothing fails, but the one write of `io-write-file` transfers less than the bytevector. -/
def ShortWrite (bv : List UInt8) (mode : Int) (as : List Completion) : Prop :=
  InRange32 mode ∧ bv.length < 2 ^ 32 ∧
    ∃ f w c rest, as = f :: w :: c :: rest ∧ 0 ≤ f.result ∧ 0 ≤ w.result ∧ 0 ≤ c.result ∧
      w.result < bv.length

/-- If `io-write-file` returns, the file holds the bytevector and is read back as it. -/
def RoundTrip (e : Endian) (junk : Nat → UInt8) (path : String) (bv : List UInt8)
    (o : Except Condition Unit) (os' : Os) : Prop :=
  o = .ok () → os'.files path = some bv ∧ ReadsBack e junk path bv os'

section
variable {e : Endian} {junk : Nat → UInt8} {path : String} {bv : List UInt8} {mode : Int}
  {as : List Completion} {o : Except Condition Unit} {os os' : Os}

-- An exception is no return.
theorem roundTrip_of_error {x : Condition} : RoundTrip e junk path bv (.error x) os' :=
  fun h => nomatch h

/-- The files after an `open` that empties the file, a write of `k` bytes and a `close`. -/
theorem written {f w c : Completion} {t : Transfer.Task} {mode' : Int}
    (ht : t = { target := .file f.result (-1), nbytes := bv.length, buffer := bv, extData := none })
    (hf : 0 ≤ f.result) (hw : 0 ≤ w.result)
    (hlegal : os.run [(.fsOpen path 0o1101 mode', f), (.write t, w), (.fsClose f.result, c)] =
      some os') :
    os'.files path = some (bv.take w.result.toNat) ∧ w.result ≤ bv.length := by
  subst ht
  obtain ⟨-, os₁, hopen, hlegal⟩ := Os.run_cons hlegal
  obtain ⟨-, os₂, hwrite, hlegal⟩ := Os.run_cons hlegal
  obtain ⟨-, os₃, hclose, hlegal⟩ := Os.run_cons hlegal
  cases hclose
  cases hlegal
  have hempty : opened (os.files path) 0o1101 = some [] := by
    cases os.files path <;> rfl
  simp only [Os.answer, if_neg (Int.not_lt.mpr hf), hempty, Option.bind_eq_bind, Option.bind_some,
    Option.ite_none_right_eq_some, Option.some.injEq] at hopen
  obtain ⟨-, rfl⟩ := hopen
  simp only [Os.answer, if_neg (Int.not_lt.mpr hw), Function.update_self, Option.bind_eq_bind,
    Option.bind_some, Option.ite_none_right_eq_some, Option.some.injEq] at hwrite
  obtain ⟨⟨hle, -⟩, rfl⟩ := hwrite
  refine ⟨?_, hle⟩
  have hpatch : patch [] 0 (bv.take w.result.toNat) = bv.take w.result.toNat := by
    rw [patch, Bytes.overlay_front]
    show _ ++ List.drop _ [] = _
    rw [List.drop_nil, List.append_nil]
  exact (Function.update_self ..).trans (congrArg some hpatch)

/-- How `io-write-file` ends: with an exception, and then no write was short, or after its three
tasks. -/
theorem ioWriteFile_cases (hfin : (ioWriteFile e junk path bv mode as).outcome = some o)
    (hposs : ∀ x ∈ (ioWriteFile e junk path bv mode as).trace, Possible x.1 x.2) :
    ((∃ x, o = .error x) ∧ ¬ ShortWrite bv mode as) ∨
      ∃ mode' f w c rest, InRange32 mode ∧ bv.length < 2 ^ 32 ∧ as = f :: w :: c :: rest ∧
        0 ≤ f.result ∧ 0 ≤ w.result ∧ 0 ≤ c.result ∧ o = .ok () ∧
        (ioWriteFile e junk path bv mode as).trace = [(.fsOpen path 0o1101 mode', f),
          (.write { target := .file f.result (-1), nbytes := bv.length, buffer := bv,
                    extData := none }, w), (.fsClose f.result, c)] := by
  rcases open_then 0o1101 (k := fun fd => do
      let _ ← ioWrite e junk fd bv (-1)
      ioClose fd
      pure ()) rfl hfin with
    ⟨hno, hrun⟩ | ⟨mode', f, cs, hmode, rfl, ⟨hneg, hrun⟩ | ⟨hpos, hrun⟩⟩
  · rw [ioWriteFile, hrun] at hfin
    cases hfin
    exact .inl ⟨⟨_, rfl⟩, fun h => hno h.1⟩
  · -- the open fails
    rw [ioWriteFile, hrun] at hfin
    cases hfin
    refine .inl ⟨⟨_, rfl⟩, ?_⟩
    rintro ⟨-, -, f', w, c, rest, heq, hpos, -⟩
    cases heq
    omega
  have hint : Possible (.fsOpen path 0o1101 mode') f := hposs _ (by
    rw [ioWriteFile, hrun]
    exact List.mem_cons_self)
  have hfd : Buffer.int32 f.result = some f.result := Buffer.int32_of_int hint.1 hint.2
  by_cases hlen : bv.length < 2 ^ 32
  case neg =>
    have hall := hrun.trans (congrArg _ (Issue.Prog.bind_error
      (congrFun (ioWrite_refused e junk f.result (Nat.le_of_not_lt hlen)) cs)))
    rw [ioWriteFile, hall] at hfin
    cases hfin
    exact .inl ⟨⟨_, rfl⟩, fun h => hlen h.2.1⟩
  rw [ioWrite_taken e junk hfd hlen, ioClose_eq hfd] at hrun
  rcases taskRun_cases "io-write" (.write
      { target := .file f.result (-1), nbytes := bv.length, buffer := bv, extData := none })
      cs with hw | ⟨w, ds, rfl, hwneg, hw⟩ | ⟨w, ds, rfl, hwpos, hw⟩
  · rw [ioWriteFile, hrun, Issue.Prog.bind_none hw] at hfin
    cases hfin
  · -- the write fails
    rw [ioWriteFile, hrun, Issue.Prog.bind_error hw] at hfin
    cases hfin
    refine .inl ⟨⟨_, rfl⟩, ?_⟩
    rintro ⟨-, -, f', w', c, rest, heq, -, hpos', -⟩
    cases heq
    omega
  rw [Issue.Prog.bind_ok hw] at hrun
  rcases taskRunVoid_cases "io-close" (.fsClose f.result) ds with
    hc | ⟨c, rest, rfl, hcneg, hc⟩ | ⟨c, rest, rfl, hcpos, hc⟩
  · rw [ioWriteFile, hrun, Issue.Prog.bind_none hc] at hfin
    cases hfin
  · -- the close fails
    rw [ioWriteFile, hrun, Issue.Prog.bind_error hc] at hfin
    cases hfin
    refine .inl ⟨⟨_, rfl⟩, ?_⟩
    rintro ⟨-, -, f', w', c', rest', heq, -, -, hpos', -⟩
    cases heq
    omega
  · rw [Issue.Prog.bind_ok hc] at hrun
    rw [ioWriteFile, hrun] at hfin
    cases hfin
    exact .inr ⟨mode', f, w, c, rest, hmode, hlen, rfl, hpos, hwpos, hcpos, rfl, by
      rw [ioWriteFile, hrun]
      rfl⟩

/-- **Whole-file round trip.**  With every file system, and however it cuts the transfers, what
`io-write-file` returns from having written is read back, if and only if its write is not short. -/
theorem roundTrip_iff (hfin : (ioWriteFile e junk path bv mode as).outcome = some o)
    (hlegal : os.run (ioWriteFile e junk path bv mode as).trace = some os') :
    RoundTrip e junk path bv o os' ↔ ¬ ShortWrite bv mode as := by
  rcases ioWriteFile_cases hfin (Os.possible_of_run hlegal) with ⟨⟨x, rfl⟩, hno⟩ |
    ⟨mode', f, w, c, rest, hmode, hlen, rfl, hpos, hwpos, hcpos, rfl, htrace⟩
  · exact iff_of_true roundTrip_of_error hno
  rw [htrace] at hlegal
  obtain ⟨hfiles, hle⟩ := written rfl hpos hwpos hlegal
  have hshort : ShortWrite bv mode (f :: w :: c :: rest) ↔ w.result < bv.length := by
    constructor
    · rintro ⟨-, -, f', w', c', rest', heq, -, -, -, hlt⟩
      cases heq
      exact hlt
    · exact fun hlt => ⟨hmode, hlen, f, w, c, rest, rfl, hpos, hwpos, hcpos, hlt⟩
  rw [hshort, RoundTrip, hfiles]
  constructor
  · intro h hlt
    have htake := Option.some.inj (h rfl).1
    have hcount := congrArg List.length htake
    rw [List.length_take] at hcount
    omega
  · intro hge _
    have hall : bv.take w.result.toNat = bv := List.take_of_length_le (by omega)
    rw [hall] at hfiles ⊢
    exact ⟨rfl, readsBack_of_content hfiles⟩

/-- A file system without files. -/
def Os.empty : Os := { files := fun _ => none, fds := fun _ => none }

theorem roundTrip_threeBytes :
    ∃ os', Os.empty.run (ioWriteFile .little (fun _ => 0) "f" [1, 2, 3] 0o644
        [.of 3, .of 3, .of 0]).trace = some os' ∧
      RoundTrip .little (fun _ => 0) "f" [1, 2, 3] (.ok ()) os' := by
  have hrun : ∃ os', Os.empty.run (ioWriteFile .little (fun _ => 0) "f" [1, 2, 3] 0o644
      [.of 3, .of 3, .of 0]).trace = some os' := ⟨_, rfl⟩
  obtain ⟨os', hlegal⟩ := hrun
  refine ⟨os', hlegal, (roundTrip_iff rfl hlegal).mpr ?_⟩
  rintro ⟨-, -, f, w, c, rest, heq, -, -, -, hlt⟩
  cases heq
  exact absurd hlt (by decide)

/-- The write takes two of three bytes, and `io-write-file` returns. -/
theorem shortWrite_returns :
    (ioWriteFile .little (fun _ => 0) "f" [1, 2, 3] 0o644 [.of 3, .of 2, .of 0]).outcome =
        some (.ok ()) ∧
      ∃ os', Os.empty.run (ioWriteFile .little (fun _ => 0) "f" [1, 2, 3] 0o644
          [.of 3, .of 2, .of 0]).trace = some os' ∧
        os'.files "f" = some [1, 2] ∧
        ¬ RoundTrip .little (fun _ => 0) "f" [1, 2, 3] (.ok ()) os' := by
  refine ⟨by decide, _, rfl, rfl, fun h => ?_⟩
  have hfile := (h rfl).1
  exact absurd hfile (by decide)

end

end ChezAsync.Composite
