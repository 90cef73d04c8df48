import Mathlib.Algebra.GroupWithZero.Nat
import ChezAsync.HighLevel.WholeFile

/-!
# Putting chunks together (`io-fs.ss`, `io-proc.ss`)

`io-read-file` and `read-stream-to-eof` keep the chunks that they read in a list, the last one
first, with their length, and copy them into one bytevector at the end.
-/

namespace ChezAsync.Composite

open Bytes (Endian Tiles)

/-! ## 1. What a reader delivers -/

/-- On the answers `as` the reader returns the chunks `cs`, one a call, and then the end; `rest` is
left. -/
inductive Delivers (read : Act (Option (List UInt8))) :
    List Completion → List (List UInt8) → List Completion → Prop
  | eof {as rest : List Completion} {tr : Trace}
      (h : read as = { trace := tr, outcome := some (.ok none), rest }) : Delivers read as [] rest
  | more {as mid rest : List Completion} {tr : Trace} {c : List UInt8} {cs : List (List UInt8)}
      (h : read as = { trace := tr, outcome := some (.ok (some c)), rest := mid })
      (hlen : mid.length + 1 = as.length) (hrest : Delivers read mid cs rest) :
      Delivers read as (c :: cs) rest

/-- A read of the bytes `c`. -/
def Completion.chunk (c : List UInt8) : Completion :=
  { result := c.length, data := c, stdin := 0, stdout := 0, stderr := 0 }

/-- The answers to the reads of a file or a stream that hands out the chunks `cs`. -/
def chunkAnswers (cs : List (List UInt8)) : List Completion :=
  cs.map Completion.chunk ++ [Completion.of 0]

/-- Chunks of up to `n` bytes, none of them empty, are delivered as they come. -/
theorem delivers_chunkAnswers {who : String} {t : Transfer.Task}
    {read : Act (Option (List UInt8))} (hread : ReadsWith read who t) {cs : List (List UInt8)}
    (hcs : ∀ c ∈ cs, c ≠ [] ∧ c.length ≤ t.nbytes) (rest : List Completion) :
    Delivers read (chunkAnswers cs ++ rest) cs rest := by
  induction cs with
  | nil => exact .eof (hread.cons (Completion.of 0) rest (.inr ⟨Int.le_refl 0, rfl⟩))
  | cons c cs ih =>
    obtain ⟨hne, hlen⟩ := hcs c List.mem_cons_self
    have hpos : (0 : Int) < (Completion.chunk c).result :=
      Int.natCast_pos.mpr (List.length_pos_iff.mpr hne)
    have hfirst := hread.cons (Completion.chunk c) (chunkAnswers cs ++ rest)
      (.inl ⟨hpos, Int.ofNat_le.mpr hlen, rfl⟩)
    rw [if_neg (Int.not_lt.mpr (Int.le_of_lt hpos)), if_neg (Int.ne_of_gt hpos)] at hfirst
    exact .more hfirst rfl (ih fun c' hc' => hcs c' (List.mem_cons_of_mem c hc'))

/-- The loop keeps the chunks in reverse and counts their bytes. -/
theorem iterate_delivers {read : Act (Option (List UInt8))} {as rest : List Completion}
    {cs : List (List UInt8)} (h : Delivers read as cs rest) (s : Chunks) :
    ∃ tr, Issue.Prog.iterate (readRound read) s as =
      { trace := tr
        outcome := some (.ok ⟨cs.reverse ++ s.chunks, s.total + cs.flatten.length⟩)
        rest } := by
  induction h generalizing s with
  | eof h => exact ⟨_, Issue.Prog.iterate_done (Issue.Prog.bind_eq h rfl)⟩
  | @more as mid rest tr c cs h hlen hrest ih =>
    obtain ⟨tr', hloop⟩ := ih ⟨c :: s.chunks, s.total + c.length⟩
    have hround : readRound read s as =
        { trace := tr ++ []
          outcome := some (.ok (.inl ⟨c :: s.chunks, s.total + c.length⟩))
          rest := mid } := Issue.Prog.bind_eq h rfl
    have hchunks : cs.reverse ++ c :: s.chunks = (c :: cs).reverse ++ s.chunks := by
      rw [List.reverse_cons, List.append_assoc, List.singleton_append]
    have htotal : s.total + c.length + cs.flatten.length = s.total + (c :: cs).flatten.length := by
      rw [List.flatten_cons, List.length_append, Nat.add_assoc]
    dsimp only at hloop
    rw [hchunks, htotal] at hloop
    refine ⟨tr ++ [] ++ tr', ?_⟩
    rw [Issue.Prog.iterate_next hround hlen, hloop]
    rfl

-- The list of chunks is kept in reverse.
theorem readLoop_delivers {read : Act (Option (List UInt8))} {as rest : List Completion}
    {cs : List (List UInt8)} (h : Delivers read as cs rest) :
    ∃ tr, readLoop read as =
      { trace := tr, outcome := some (.ok ⟨cs.reverse, cs.flatten.length⟩), rest } := by
  obtain ⟨tr, hloop⟩ := iterate_delivers h ⟨[], 0⟩
  rw [List.append_nil, Nat.zero_add] at hloop
  exact ⟨tr, hloop⟩

/-! ## 2. The copies -/

/-- The calls of `bytevector-copy!` in the loop `copy`: where a chunk goes, and the chunk. -/
def copies : Nat → List (List UInt8) → List (Nat × List UInt8)
  | _, [] => []
  | off, c :: cs => (off, c) :: copies (off + c.length) cs

-- By induction on the chunks, each one further to the right.
theorem copyChunks_eq_foldlM (cs : List (List UInt8)) (off : Nat) (out : List UInt8) :
    copyChunks cs off out =
      (copies off cs).foldlM (fun out p => Buffer.bytevectorCopy p.2 0 out p.1 p.2.length) out := by
  induction cs generalizing off out with
  | nil => rfl
  | cons c cs ih =>
    rw [copyChunks, copies, List.foldlM_cons]
    exact congrArg (Option.bind _) (funext (ih (off + c.length)))

/-- The chunks go to stretches that are disjoint and leave nothing out. -/
theorem tiles_copies (cs : List (List UInt8)) (off : Nat) :
    Tiles ((copies off cs).map fun p => (p.1, p.2.length)) off (off + cs.flatten.length) := by
  induction cs generalizing off with
  | nil => exact Bytes.tiles_nil off
  | cons c cs ih =>
    rw [List.flatten_cons, List.length_append, ← Nat.add_assoc]
    exact (Bytes.tiles_single off c.length).append (ih (off + c.length)) (Nat.le_add_right _ _)
      (Nat.le_add_right _ _)

theorem join_chunks (junk : Nat → UInt8) (cs : List (List UInt8)) (as : List Completion) :
    Chunks.join junk ⟨cs.reverse, cs.flatten.length⟩ as =
      { trace := [], outcome := some (.ok cs.flatten), rest := as } :=
  join_eq as (congrArg List.flatten cs.reverse_reverse) rfl

/-! ## 3. The procedures -/

section
variable {e : Endian} {junk : Nat → UInt8} {cs : List (List UInt8)} {as rest : List Completion}

-- The reader is the stream, and nothing comes behind the loop.
theorem readStreamToEof_delivers {s : Option Nat}
    (h : Delivers (ioStreamRead e junk s) as cs rest) :
    (readStreamToEof e junk s as).outcome = some (.ok cs.flatten) := by
  obtain ⟨tr, hloop⟩ := readLoop_delivers h
  rw [readStreamToEof, Issue.Prog.bind_eq hloop (join_chunks junk cs rest)]

/-- `f` answers the `open`, `c` the `close`. -/
theorem ioReadFile_delivers {path : String} {f c : Completion} (hf : 0 ≤ f.result)
    (hfd : f.result < 2 ^ 31) (hc : 0 ≤ c.result)
    (h : Delivers (ioRead e junk f.result 65536 (-1)) as cs (c :: rest)) :
    (ioReadFile e junk path (f :: as)).outcome = some (.ok cs.flatten) := by
  have hint : Buffer.int32 f.result = some f.result := Buffer.int32_of_int (by omega) hfd
  have hopen : ioOpen path O_RDONLY 0 (f :: as) =
      { trace := [(.fsOpen path 0 0, f)], outcome := some (.ok f.result), rest := as } :=
    taskRun_pass as hf
  have hclose : ioClose f.result (c :: rest) =
      { trace := [(.fsClose f.result, c)], outcome := some (.ok ()), rest } := by
    rw [ioClose_eq hint]
    exact taskRunVoid_pass rest hc
  obtain ⟨tr, hloop⟩ := readLoop_delivers h
  have hend := Issue.Prog.bind_eq hclose
    (f := fun _ => Chunks.join junk ⟨cs.reverse, cs.flatten.length⟩) (join_chunks junk cs rest)
  rw [ioReadFile, Issue.Prog.bind_eq hopen (Issue.Prog.bind_eq hloop hend)]

end

/-- **Chunk assembly.**  Whatever chunks come before the end, `io-read-file` and
`read-stream-to-eof` return them put one behind the other; the bytevector has the length of all of
them together, and the copies into it tile it. -/
theorem chunks_assembled (e : Endian) (junk : Nat → UInt8) (cs : List (List UInt8)) :
    (∀ path f c as rest, 0 ≤ f.result → f.result < 2 ^ 31 → 0 ≤ c.result →
      Delivers (ioRead e junk f.result 65536 (-1)) as cs (c :: rest) →
      (ioReadFile e junk path (f :: as)).outcome = some (.ok cs.flatten)) ∧
    (∀ s as rest, Delivers (ioStreamRead e junk s) as cs rest →
      (readStreamToEof e junk s as).outcome = some (.ok cs.flatten)) ∧
    (∀ read as rest, Delivers read as cs rest → ∃ tr, (readLoop read >>= Chunks.join junk) as =
      { trace := tr, outcome := some (.ok cs.flatten), rest }) ∧
    (∀ who target n rest, (∀ c ∈ cs, c ≠ [] ∧ c.length ≤ n) →
      Delivers (readTaskResult e junk who (Transfer.newReadTask target n))
        (chunkAnswers cs ++ rest) cs rest) ∧
    cs.flatten.length = (cs.map List.length).sum ∧
    (∀ off out, copyChunks cs off out = (copies off cs).foldlM
      (fun out p => Buffer.bytevectorCopy p.2 0 out p.1 p.2.length) out) ∧
    Tiles ((copies 0 cs).map fun p => (p.1, p.2.length)) 0 cs.flatten.length := by
  have htiles := tiles_copies cs 0
  rw [Nat.zero_add] at htiles
  refine ⟨?_, ?_, ?_, ?_, List.length_flatten, copyChunks_eq_foldlM cs, htiles⟩
  · exact fun _ _ _ _ _ hf hfd hc h => ioReadFile_delivers hf hfd hc h
  · exact fun _ _ _ h => readStreamToEof_delivers h
  · intro read as rest h
    obtain ⟨tr, hloop⟩ := readLoop_delivers h
    exact ⟨_, Issue.Prog.bind_eq hloop (join_chunks junk cs rest)⟩
  · exact fun who target n rest hcs =>
      delivers_chunkAnswers (readTaskResult_readsWith e junk who target n) hcs rest

end ChezAsync.Composite
