import Mathlib.Data.List.TakeWhile
import ChezAsync.HighLevel.Buffer

/-!
# Arguments and environment of a child (`io-proc.ss`, `rt_spawn`, `UnpackStrings`)

`io-spawn` packs its strings with a NUL behind each of them, the packed bytes go through foreign
memory into the task, and the loop thread finds the strings again by their number and the NULs.
What the child is given are the strings themselves if and only if no string has a NUL of its own and
the numbers are `int`s.
-/

namespace ChezAsync.Spawn

open Bytes (Endian readAt slice overlay)
open Buffer (bytevectorCopy set8 bytevectorToForeign InRange32 int32 unsigned32)

/-! ## 1. Strings -/

/-- A Scheme string; the characters are the Unicode scalar values. -/
abbrev SchemeString := List Char

def nul : Char := Char.ofNat 0

/-- `string->utf8` -/
def stringToUtf8 (s : SchemeString) : List UInt8 := s.flatMap String.utf8EncodeChar

/-- The NUL is the only character with a zero byte in its encoding. -/
theorem zero_mem_utf8EncodeChar (c : Char) : 0 ∈ String.utf8EncodeChar c ↔ c = nul := by
  have hzero : ∀ {n : Nat}, 0 = UInt8.ofNat n → n % 256 = 0 := fun h =>
    (congrArg UInt8.toNat h).symm
  constructor
  · intro h
    unfold String.utf8EncodeChar at h
    dsimp only at h
    split at h
    case isTrue hle =>
      have hmod := hzero (List.mem_singleton.mp h)
      have hval : c.val.toNat = nul.val.toNat := by
        show c.val.toNat = 0
        omega
      exact Char.ext (UInt32.toNat_inj.mp hval)
    -- the bytes of a longer encoding have their highest bit set
    case isFalse =>
      exfalso
      split at h
      · simp only [List.mem_cons, List.not_mem_nil, or_false] at h
        rcases h with h | h <;> have hmod := hzero h <;> omega
      · split at h
        · simp only [List.mem_cons, List.not_mem_nil, or_false] at h
          rcases h with h | h | h <;> have hmod := hzero h <;> omega
        · simp only [List.mem_cons, List.not_mem_nil, or_false] at h
          rcases h with h | h | h | h <;> have hmod := hzero h <;> omega
  · rintro rfl
    decide

theorem zero_mem_stringToUtf8 (s : SchemeString) : 0 ∈ stringToUtf8 s ↔ nul ∈ s := by
  rw [stringToUtf8, List.mem_flatMap]
  constructor
  · intro h
    rcases h with ⟨c, hc, hzero⟩
    exact (zero_mem_utf8EncodeChar c).mp hzero ▸ hc
  · exact fun h => ⟨nul, h, (zero_mem_utf8EncodeChar nul).mpr rfl⟩

/-! ## 2. The packing (`io-proc.ss`) -/

/-- The loop of `pack-strings`. -/
def packLoop : List (List UInt8) → Nat → List UInt8 → Option (List UInt8)
  | [], _, out => some out
  | p :: ps, off, out => do
    let n := p.length
    let out ← bytevectorCopy p 0 out off n
    let out ← set8 out (off + n) 0
    packLoop ps (off + n + 1) out

/-- `pack-strings` -/
def packStrings (strs : List SchemeString) : Option (List UInt8) :=
  let parts := strs.map stringToUtf8
  let total := parts.foldl (fun a p => a + p.length + 1) 0
  packLoop parts 0 (List.replicate (max total 1) 0)

inductive Stdio
  | inherit
  | capture
  | pipe
  /-- Any other object. -/
  | other
  deriving DecidableEq

def Stdio.mode : Stdio → Option Int
  | .inherit => some 0
  | .capture => some 1
  | .pipe => some 1
  -- `(error 'io-spawn "bad stdio option" stdio)`
  | .other => none

/-! ## 3. The task (`rt_ffi.cpp`) -/

/-- The fields of a spawn task. -/
structure SpawnTask where
  buffer : List UInt8
  argc : Int
  envBuf : List UInt8
  envc : Int
  cwd : String
  stdioMode : Int

/-- `rt_spawn`; `none` when it reads outside of a block that it is given. -/
def rtSpawn (argbuf : List UInt8) (arglen : Nat) (argc : Int) (envbuf : List UInt8) (envlen : Nat)
    (envc : Int) (cwd : String) (stdioMode : Int) : Option SpawnTask := do
  let buffer ← readAt argbuf 0 arglen
  let envBuf ← (if 0 ≤ envc then readAt envbuf 0 envlen else some [])
  some { buffer, argc, envBuf, envc, cwd, stdioMode }

/-- `submit-spawn`: the arguments of the foreign procedure, and the call. -/
def submitSpawn (afp : List UInt8) (alen argc : Int) (efp : List UInt8) (elen envc : Int)
    (cwd : String) (mode : Int) : Option SpawnTask := do
  rtSpawn afp (← unsigned32 alen) (← int32 argc) efp (← unsigned32 elen) (← int32 envc) cwd
    (← int32 mode)

/-- `io-spawn` up to its `task-run`; `none` when it raises, with nothing submitted. -/
def ioSpawn (e : Endian) (junk : Nat → UInt8) (args : List SchemeString)
    (env : Option (List SchemeString)) (stdio : Stdio) : Option SpawnTask :=
  if args = [] then none
  else do
    let (afp, alen) ← bytevectorToForeign e junk (← packStrings args)
    let (efp, elen) ← bytevectorToForeign e junk (← packStrings (env.getD []))
    let envc : Int :=
      match env with
      | some es => es.length
      | none => -1
    let mode ← stdio.mode
    submitSpawn afp alen args.length efp elen envc "" mode

/-! ## 4. The loop thread (`runtime.cpp`) -/

/-- The C string at `off`, if its end is in the block: what `strlen` and its callers read. -/
def cString (buf : List UInt8) (off : Nat) : Option (List UInt8) :=
  if 0 ∈ buf.drop off then some ((buf.drop off).takeWhile (· ≠ 0)) else none

/-- The loop of `UnpackStrings` and the `nullptr` behind it. -/
def unpackLoop (buf : List UInt8) : Nat → Nat → Option (List (Option Nat))
  | 0, _ => some [none]
  | n + 1, off => do
    let s ← cString buf off
    let out ← unpackLoop buf n (off + s.length + 1)
    some (some off :: out)

/-- `UnpackStrings`; a pointer into `buf` is its offset.  `out.reserve(count + 1)` throws for a
negative number, and `count + 1` is to be an `int`. -/
def unpackStrings (buf : List UInt8) (count : Int) : Option (List (Option Nat)) :=
  if 0 ≤ count + 1 ∧ count + 1 < 2 ^ 31 then unpackLoop buf count.toNat 0 else none

/-- What `uv_spawn` is called with. -/
structure ProcessOptions where
  file : Option Nat
  args : List (Option Nat)
  env : Option (List (Option Nat))

/-- `Dispatch: ProcSpawn`, up to `uv_spawn`; `none` when it reads outside of a buffer or throws. -/
def procSpawn (t : SpawnTask) : Option ProcessOptions := do
  let argv ← unpackStrings t.buffer t.argc
  let envp ← (if 0 ≤ t.envc then (unpackStrings t.envBuf t.envc).map some else some none)
  some { file := argv.head?.join, args := argv, env := envp }

/-- The array of pointers is that of the C strings `strs`, with the null pointer behind it. -/
def ArrayOf (buf : List UInt8) (ptrs : List (Option Nat)) (strs : List (List UInt8)) : Prop :=
  ∃ offs : List Nat, ptrs = offs.map some ++ [none] ∧ offs.map (cString buf) = strs.map some

/-- The child is given the strings of `args` and `env`. -/
def Receives (t : SpawnTask) (args : List SchemeString) (env : Option (List SchemeString)) : Prop :=
  ∃ o, procSpawn t = some o ∧ ArrayOf t.buffer o.args (args.map stringToUtf8) ∧
    match env with
    | none => o.env = none
    | some es => ∃ ptrs, o.env = some ptrs ∧ ArrayOf t.envBuf ptrs (es.map stringToUtf8)

/-! ## 5. The packed bytes -/

/-- The parts with a NUL behind each of them. -/
def terminated (parts : List (List UInt8)) : List UInt8 := parts.flatMap (· ++ [0])

theorem packLoop_eq (ps : List (List UInt8)) {off : Nat} {out : List UInt8}
    (h : off + (terminated ps).length ≤ out.length) :
    packLoop ps off out = some (overlay out off (terminated ps)) := by
  induction ps generalizing off out with
  | nil => exact congrArg some (Bytes.overlay_nil out off).symm
  | cons p ps ih =>
    have hsplit : terminated (p :: ps) = p ++ [0] ++ terminated ps := List.flatMap_cons
    have hlen : (terminated (p :: ps)).length = p.length + 1 + (terminated ps).length := by
      rw [hsplit, List.length_append, List.length_append, List.length_singleton]
    have hcopy : bytevectorCopy p 0 out off p.length = some (overlay out off p) := by
      rw [Buffer.bytevectorCopy_eq (by omega) (by omega), Bytes.slice_all]
    have hset : set8 (overlay out off p) (off + p.length) 0 =
        some (overlay out off (p ++ [0])) := by
      have hover := @Bytes.length_overlay _ out off p (by omega)
      rw [set8, Bytes.writeAt_eq (by rw [hover, List.length_singleton]; omega),
        Bytes.overlay_overlay (by rw [List.length_singleton]; omega)]
    have hover := @Bytes.length_overlay _ out off (p ++ [0])
      (by rw [List.length_append, List.length_singleton]; omega)
    have hrest := @ih (off + p.length + 1) (overlay out off (p ++ [0]))
      (by rw [hover]; omega)
    have hjoin := @Bytes.overlay_overlay _ out off (p ++ [0]) (terminated ps)
      (by rw [List.length_append, List.length_singleton]; omega)
    rw [List.length_append, List.length_singleton, ← Nat.add_assoc] at hjoin
    rw [packLoop, hcopy]
    simp only [Option.bind_eq_bind, Option.bind_some, hset, hrest, hjoin, hsplit]

theorem foldl_total (ps : List (List UInt8)) (a : Nat) :
    ps.foldl (fun a p => a + p.length + 1) a = a + (terminated ps).length := by
  induction ps generalizing a with
  | nil => rfl
  | cons p ps ih =>
    have hsplit : terminated (p :: ps) = p ++ [0] ++ terminated ps := List.flatMap_cons
    rw [List.foldl_cons, ih, hsplit, List.length_append, List.length_append,
      List.length_singleton]
    omega

/-- What `pack-strings` makes; the empty list is packed to one byte. -/
def packed (strs : List SchemeString) : List UInt8 :=
  if strs = [] then [0] else terminated (strs.map stringToUtf8)

theorem packStrings_eq (strs : List SchemeString) : packStrings strs = some (packed strs) := by
  have htotal := foldl_total (strs.map stringToUtf8) 0
  rw [Nat.zero_add] at htotal
  have hloop := @packLoop_eq (strs.map stringToUtf8) 0
    (List.replicate (max (terminated (strs.map stringToUtf8)).length 1) 0)
    (by rw [List.length_replicate]; omega)
  rw [packStrings, htotal, hloop, Bytes.overlay_front, packed]
  cases strs with
  | nil => rfl
  | cons s strs =>
    have hpos : 1 ≤ (terminated ((s :: strs).map stringToUtf8)).length := by
      rw [terminated, List.map_cons, List.flatMap_cons, List.length_append, List.length_append,
        List.length_singleton]
      omega
    rw [Nat.max_eq_left hpos, List.drop_replicate, Nat.sub_self, if_neg (List.cons_ne_nil s strs)]
    exact congrArg some (List.append_nil _)

/-! ## 6. From the packed bytes to the strings -/

theorem cString_of_append (pre s post : List UInt8) (hs : 0 ∉ s) :
    cString (pre ++ (s ++ 0 :: post)) pre.length = some s := by
  have hmem : 0 ∈ s ++ 0 :: post := List.mem_append_right s List.mem_cons_self
  have hall : ∀ b ∈ s, decide (b ≠ 0) = true := by
    intro b hb
    rw [decide_eq_true_eq]
    rintro rfl
    exact hs hb
  rw [cString, List.drop_left, if_pos hmem, List.takeWhile_append_of_pos hall,
    List.takeWhile_cons_of_neg (by simp), List.append_nil]

/-- Strings without a NUL are found again. -/
theorem unpackLoop_eq (parts : List (List UInt8)) (h : ∀ p ∈ parts, 0 ∉ p)
    (pre post : List UInt8) :
    ∃ ptrs, unpackLoop (pre ++ (terminated parts ++ post)) parts.length pre.length = some ptrs ∧
      ArrayOf (pre ++ (terminated parts ++ post)) ptrs parts := by
  induction parts generalizing pre with
  | nil => exact ⟨[none], rfl, [], rfl, rfl⟩
  | cons p parts ih =>
    have hbuf : pre ++ (terminated (p :: parts) ++ post) =
        pre ++ (p ++ 0 :: (terminated parts ++ post)) := by
      have hsplit : terminated (p :: parts) = p ++ [0] ++ terminated parts := List.flatMap_cons
      rw [hsplit, List.append_assoc, List.append_assoc, List.singleton_append]
    have hbuf' : pre ++ (terminated (p :: parts) ++ post) =
        (pre ++ p ++ [0]) ++ (terminated parts ++ post) := by
      rw [hbuf, List.append_assoc, List.append_assoc, List.singleton_append]
    have hlen : (pre ++ p ++ [0]).length = pre.length + p.length + 1 := by
      rw [List.length_append, List.length_append, List.length_singleton]
    have hfirst := cString_of_append pre p (terminated parts ++ post) (h p List.mem_cons_self)
    rcases ih (fun q hq => h q (List.mem_cons_of_mem p hq)) (pre ++ p ++ [0]) with
      ⟨ptrs, hptrs, offs, hoffs, hstrs⟩
    rw [← hbuf', hlen] at hptrs
    rw [← hbuf] at hfirst
    rw [← hbuf'] at hstrs
    refine ⟨some pre.length :: ptrs, ?_, pre.length :: offs, ?_, ?_⟩
    · rw [List.length_cons, unpackLoop, hfirst]
      simp only [Option.bind_eq_bind, Option.bind_some, hptrs]
    · rw [hoffs, List.map_cons, List.cons_append]
    · rw [List.map_cons, List.map_cons, hfirst, hstrs]

/-- A C string has no NUL in it. -/
theorem ArrayOf.zero_notMem {buf : List UInt8} {ptrs : List (Option Nat)}
    {strs : List (List UInt8)} (h : ArrayOf buf ptrs strs) : ∀ s ∈ strs, 0 ∉ s := by
  rcases h with ⟨offs, -, hstrs⟩
  intro s hs hzero
  have hmem : some s ∈ offs.map (cString buf) := hstrs ▸ List.mem_map_of_mem hs
  rcases List.mem_map.mp hmem with ⟨off, -, hoff⟩
  simp only [cString, Option.ite_none_right_eq_some, Option.some.injEq] at hoff
  have hne := List.mem_takeWhile_imp (hoff.2 ▸ hzero)
  simp at hne

/-! ## 7. The child's arguments and environment -/

section
variable {e : Endian} {junk : Nat → UInt8} {args : List SchemeString}
  {env : Option (List SchemeString)} {stdio : Stdio} {t : SpawnTask}

/-- The number of the environment's strings, `-1` for the parent's environment. -/
def envCount (env : Option (List SchemeString)) : Int :=
  match env with
  | some es => es.length
  | none => -1

/-- What `io-spawn` submits when it does not raise. -/
structure Submitted (args : List SchemeString) (env : Option (List SchemeString))
    (t : SpawnTask) : Prop where
  nonempty : args ≠ []
  buffer : t.buffer = packed args
  argc : int32 args.length = some t.argc
  envc : int32 (envCount env) = some t.envc
  envBuf : 0 ≤ t.envc → t.envBuf = packed (env.getD [])

/-- The copy into the task's buffer is a copy of the whole block. -/
theorem readAt_whole {xs : List UInt8} {n : Nat} (h : unsigned32 xs.length = some n) :
    readAt xs 0 n = some xs := by
  have hn := (Buffer.unsigned32_eq_some h).2
  rw [if_pos (by omega)] at hn
  have hlen : n = xs.length := by omega
  rw [hlen, Bytes.readAt_eq (by omega), Bytes.slice_all]

/-- The packing and the way through foreign memory always come to the packed bytes. -/
theorem ioSpawn_eq (hne : args ≠ []) :
    ioSpawn e junk args env stdio = stdio.mode.bind fun mode =>
      submitSpawn (packed args) (packed args).length args.length (packed (env.getD []))
        (packed (env.getD [])).length (envCount env) "" mode := by
  simp only [ioSpawn, if_neg hne, packStrings_eq, Buffer.bytevectorToForeign_eq,
    Option.bind_eq_bind, Option.bind_some]
  rfl

theorem ioSpawn_submits (h : ioSpawn e junk args env stdio = some t) : Submitted args env t := by
  by_cases hne : args = []
  · subst hne
    cases h
  · rw [ioSpawn_eq hne] at h
    simp only [submitSpawn, rtSpawn, Option.bind_eq_bind, Option.bind_eq_some_iff] at h
    rcases h with ⟨mode, -, arglen, harglen, argc, hargc, envlen, henvlen, envc, henvc, mode', -,
      buffer, hbuffer, envBuf, henvBuf, ht⟩
    cases ht
    rw [readAt_whole harglen] at hbuffer
    refine ⟨hne, (Option.some.inj hbuffer).symm, hargc, henvc, fun henv => ?_⟩
    have hpos : 0 ≤ envc := henv
    rw [if_pos hpos, readAt_whole henvlen] at henvBuf
    exact (Option.some.inj henvBuf).symm

/-- The mode that the loop thread sees. -/
theorem ioSpawn_mode (h : ioSpawn e junk args env stdio = some t) :
    stdio.mode = some t.stdioMode := by
  by_cases hne : args = []
  · subst hne
    cases h
  · rw [ioSpawn_eq hne] at h
    simp only [submitSpawn, rtSpawn, Option.bind_eq_bind, Option.bind_eq_some_iff] at h
    rcases h with ⟨mode, hmode, arglen, -, argc, -, envlen, -, envc, -, mode', hmode', buffer, -,
      envBuf, -, ht⟩
    cases ht
    have hint : int32 mode = some mode := by
      cases stdio with
      | inherit => cases hmode; decide
      | capture => cases hmode; decide
      | pipe => cases hmode; decide
      | other => cases hmode
    rw [hmode, ← hint, hmode']

/-- Strings without a NUL, and not too many of them. -/
def Intact (strs : List SchemeString) : Prop := strs.length < 2 ^ 31 - 1 ∧ ∀ s ∈ strs, nul ∉ s

instance (strs : List SchemeString) : Decidable (Intact strs) := inferInstanceAs (Decidable (_ ∧ _))

theorem zero_notMem_iff (strs : List SchemeString) :
    (∀ p ∈ strs.map stringToUtf8, 0 ∉ p) ↔ ∀ s ∈ strs, nul ∉ s := by
  simp only [List.forall_mem_map, zero_mem_stringToUtf8]

theorem unpackStrings_packed {strs : List SchemeString} {count : Int} (h : Intact strs)
    (hcount : int32 strs.length = some count) :
    count = strs.length ∧ ∃ ptrs, unpackStrings (packed strs) count = some ptrs ∧
      ArrayOf (packed strs) ptrs (strs.map stringToUtf8) := by
  have hlen := h.1
  have hc := (Buffer.int32_eq_some hcount).2
  rw [if_pos (by omega)] at hc
  refine ⟨hc, ?_⟩
  subst hc
  rw [unpackStrings, if_pos (by omega), Int.toNat_natCast, packed]
  split
  case isTrue hnil =>
    subst hnil
    exact ⟨[none], rfl, [], rfl, rfl⟩
  case isFalse =>
    have hloop := unpackLoop_eq (strs.map stringToUtf8) ((zero_notMem_iff strs).mpr h.2) [] []
    rw [List.nil_append, List.append_nil, List.length_map] at hloop
    exact hloop

/-- What the number of the strings says about an array that has been made. -/
theorem length_lt_of_unpack {strs : List SchemeString} {count : Int} {buf : List UInt8}
    {ptrs : List (Option Nat)} (hcount : int32 strs.length = some count)
    (hptrs : unpackStrings buf count = some ptrs) (hne : count = -1 → strs ≠ [])
    (harray : ArrayOf buf ptrs (strs.map stringToUtf8)) : strs.length < 2 ^ 31 - 1 := by
  have hc := (Buffer.int32_eq_some hcount).2
  have hrange := (Buffer.int32_eq_some hcount).1.2
  simp only [unpackStrings, Option.ite_none_right_eq_some] at hptrs
  rcases hptrs with ⟨⟨hlow, hhigh⟩, hloop⟩
  split at hc
  case isTrue => omega
  case isFalse hbig =>
    -- the number has wrapped to `-1`, and the array is empty
    have hminus : count = -1 := by omega
    subst hminus
    simp only [Int.reduceNeg, Int.reduceToNat, unpackLoop, Option.some.injEq] at hloop
    rcases harray with ⟨offs, hoffs, hstrs⟩
    subst hloop
    have hnil : offs = [] := by
      cases offs with
      | nil => rfl
      | cons off offs =>
        have hlen := congrArg List.length hoffs
        simp at hlen
    subst hnil
    have hmap : strs.map stringToUtf8 = [] := List.map_eq_nil_iff.mp hstrs.symm
    exact absurd (List.map_eq_nil_iff.mp hmap) (hne rfl)

/-- **Arguments and environment.**  A child that `io-spawn` submits is given exactly the strings of
`args` and `env` if and only if they have no NUL and their numbers, with the null pointer, are
`int`s. -/
theorem receives_iff (h : ioSpawn e junk args env stdio = some t) :
    Receives t args env ↔ Intact args ∧ ∀ es, env = some es → Intact es := by
  have hs := ioSpawn_submits h
  constructor
  · intro hreceives
    rcases hreceives with ⟨o, ho, hargs, henv⟩
    simp only [procSpawn, Option.bind_eq_bind, Option.bind_eq_some_iff] at ho
    rcases ho with ⟨argv, hargv, envp, henvp, heq⟩
    cases heq
    refine ⟨⟨length_lt_of_unpack hs.argc hargv (fun _ => hs.nonempty) hargs,
      (zero_notMem_iff args).mp hargs.zero_notMem⟩, fun es hes => ?_⟩
    subst hes
    rcases henv with ⟨ptrs, hptrs, harray⟩
    cases hptrs
    split at henvp
    case isTrue hpos =>
      rcases Option.map_eq_some_iff.mp henvp with ⟨ptrs', hptrs', heq⟩
      cases heq
      exact ⟨length_lt_of_unpack hs.envc hptrs' (fun hminus => absurd hpos (by omega)) harray,
        (zero_notMem_iff es).mp harray.zero_notMem⟩
    case isFalse => cases henvp
  · intro hintact
    rcases unpackStrings_packed hintact.1 hs.argc with ⟨-, argv, hargv, hargs⟩
    rw [← hs.buffer] at hargv hargs
    cases env with
    | none =>
      have henvc : t.envc = -1 := (Buffer.int32_eq_some hs.envc).2
      refine ⟨⟨argv.head?.join, argv, none⟩, ?_, hargs, rfl⟩
      have hneg : ¬ 0 ≤ t.envc := by omega
      simp only [procSpawn, hargv, if_neg hneg, Option.bind_eq_bind, Option.bind_some]
    | some es =>
      rcases unpackStrings_packed (hintact.2 es rfl) hs.envc with ⟨hcount, ptrs, hptrs, harray⟩
      have hpos : 0 ≤ t.envc := by omega
      have hbuf : t.envBuf = packed es := hs.envBuf hpos
      rw [← hbuf] at hptrs harray
      refine ⟨⟨argv.head?.join, argv, some ptrs⟩, ?_, hargs, ptrs, rfl, harray⟩
      simp only [procSpawn, hargv, if_pos hpos, hptrs, Option.map_some, Option.bind_eq_bind,
        Option.bind_some]

end

/-- An empty string among the arguments, and an environment. -/
theorem receives_emptyArgument :
    ∃ t, ioSpawn .little (fun _ => 0) [['l', 's'], [], ['é']] (some [['K', '=']]) .capture =
        some t ∧
      Receives t [['l', 's'], [], ['é']] (some [['K', '=']]) := by
  have hargs : packed [['l', 's'], [], ['é']] = [108, 115, 0, 0, 195, 169, 0] := by decide
  have henv : packed [['K', '=']] = [75, 61, 0] := by decide
  have hrun : ∃ t, ioSpawn .little (fun _ => 0) [['l', 's'], [], ['é']] (some [['K', '=']])
      .capture = some t := by
    rw [ioSpawn_eq (List.cons_ne_nil _ _), Option.getD_some, hargs, henv]
    exact ⟨_, rfl⟩
  rcases hrun with ⟨t, ht⟩
  refine ⟨t, ht, (receives_iff ht).mpr ⟨by decide, fun es hes => ?_⟩⟩
  cases hes
  decide

/-- The first argument has a NUL: the child is given its two halves, and no second argument. -/
theorem nul_splits_argument :
    ∃ t, ioSpawn .little (fun _ => 0) [['a', nul, 'b'], ['c']] none .inherit = some t ∧
      (procSpawn t).map (fun o => o.args.map (·.bind (cString t.buffer))) =
        some [some [97], some [98], none] ∧
      ¬ Receives t [['a', nul, 'b'], ['c']] none := by
  have hargs : packed [['a', nul, 'b'], ['c']] = [97, 0, 98, 0, 99, 0] := by decide
  have henv : packed [] = [0] := rfl
  rw [ioSpawn_eq (List.cons_ne_nil _ _), Option.getD_none, hargs, henv]
  refine ⟨_, rfl, by decide, ?_⟩
  intro h
  rcases h with ⟨o, -, hargs, -⟩
  exact hargs.zero_notMem _ List.mem_cons_self (by decide)

end ChezAsync.Spawn
