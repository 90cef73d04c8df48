import Mathlib.Data.List.Nodup
import ChezAsync.HighLevel.Composite

/-!
# What the composite operations release

Every descriptor, process and captured stream that a composite operation has obtained is to be
closed once, whatever its tasks complete with.  An exception that leaves the operation between the
first task and the last close takes what is still open with it.
-/

namespace ChezAsync.Composite

open Bytes (Endian)
open Buffer (InRange32)
open Spawn (SpawnTask SchemeString Stdio)

/-! ## 1. Resources -/

inductive Resource
  | fd (n : Int)
  | process (p : Int)
  | stream (s : Nat)
  deriving DecidableEq

/-- What the operation obtains with the answer to a request. -/
def Request.obtains : Request → Completion → List Resource
  | .fsOpen .., c => if 0 ≤ c.result then [.fd c.result] else []
  | .procSpawn _, c =>
      if 0 ≤ c.result then
        .process c.result :: ([c.stdin, c.stdout, c.stderr].filterMap streamOf).map .stream
      else []
  | _, _ => []

def Request.closes : Request → Option Resource
  | .fsClose fd => some (.fd fd)
  | .procClose p => some (.process p)
  | .streamClose s => some (.stream s)
  | _ => none

abbrev Trace := List (Request × Completion)

def obtained (tr : Trace) : List Resource := tr.flatMap fun x => x.1.obtains x.2

/-- The resources whose close has been submitted. -/
def closings (tr : Trace) : List Resource := tr.filterMap fun x => x.1.closes

/-- Each resource that has been obtained has had its close submitted exactly once. -/
def Released (tr : Trace) : Prop := ∀ x ∈ obtained tr, (closings tr).count x = 1

instance (tr : Trace) : Decidable (Released tr) := inferInstanceAs (Decidable (∀ _ ∈ _, _))

theorem obtained_append (tr tr' : Trace) :
    obtained (tr ++ tr') = obtained tr ++ obtained tr' := List.flatMap_append

theorem closings_append (tr tr' : Trace) :
    closings (tr ++ tr') = closings tr ++ closings tr' := List.filterMap_append

/-- Reads of one file or stream. -/
def reads (t : Transfer.Task) (cs : List Completion) : Trace := cs.map fun c => (.read t, c)

-- Reads neither open nor close anything.
theorem obtained_reads (t : Transfer.Task) (cs : List Completion) : obtained (reads t cs) = [] := by
  induction cs with
  | nil => rfl
  | cons c cs ih => exact ih

theorem closings_reads (t : Transfer.Task) (cs : List Completion) : closings (reads t cs) = [] := by
  induction cs with
  | nil => rfl
  | cons c cs ih => exact ih

/-- After the task that obtains them, the resources only have to be closed. -/
theorem released_cons {q : Request} {c : Completion} {tr : Trace} (hq : q.closes = none)
    (htr : obtained tr = []) :
    Released ((q, c) :: tr) ↔ ∀ x ∈ q.obtains c, (closings tr).count x = 1 := by
  have hobtained : obtained ((q, c) :: tr) = q.obtains c := by
    have hcons : obtained ((q, c) :: tr) = q.obtains c ++ obtained tr := List.flatMap_cons
    rw [hcons, htr, List.append_nil]
  have hclosings : closings ((q, c) :: tr) = closings tr := List.filterMap_cons_none hq
  rw [Released, hobtained, hclosings]

/-- A task that obtains one resource, which is closed later. -/
theorem released_closed {q : Request} {c : Completion} {tr : Trace} {x : Resource}
    (hq : q.closes = none) (hx : q.obtains c = [x]) (htr : obtained tr = [])
    (hclosings : closings tr = [x]) : Released ((q, c) :: tr) := by
  rw [released_cons hq htr, hx, hclosings]
  intro y hy
  rw [List.mem_singleton.mp hy]
  exact List.count_singleton_self

/-- A task that obtains a resource, and nothing is closed later. -/
theorem not_released_open {q : Request} {c : Completion} {tr : Trace} {x : Resource}
    {xs : List Resource} (hq : q.closes = none) (hx : q.obtains c = x :: xs)
    (htr : obtained tr = []) (hclosings : closings tr = []) : ¬ Released ((q, c) :: tr) := by
  rw [released_cons hq htr, hx, hclosings]
  exact fun h => Nat.zero_ne_one (h x List.mem_cons_self)

/-! ## 2. The procedures, task by task -/

open Issue.Prog (issue raise ofOption iterate)

section
variable {e : Endian} {junk : Nat → UInt8}

-- A task is part of the trace whatever comes of it.
theorem taskRun_mem (who : String) (q : Request) (c : Completion) (cs : List Completion) :
    (q, c) ∈ (taskRun who q (c :: cs)).trace := Issue.Prog.mem_bind_left List.mem_cons_self

theorem taskRun_pass {who : String} {q : Request} {c : Completion} (cs : List Completion)
    (h : 0 ≤ c.result) :
    taskRun who q (c :: cs) =
      { trace := [(q, c)], outcome := some (.ok c.result), rest := cs } := by
  rw [taskRun, Issue.Prog.issue_bind_cons, if_neg (Int.not_lt.mpr h)]
  rfl

theorem taskRunVoid_pass {who : String} {q : Request} {c : Completion} (cs : List Completion)
    (h : 0 ≤ c.result) :
    taskRunVoid who q (c :: cs) = { trace := [(q, c)], outcome := some (.ok ()), rest := cs } :=
  Issue.Prog.bind_eq (taskRun_pass cs h) rfl

theorem taskRun_cases (who : String) (q : Request) (as : List Completion) :
    taskRun who q as = { trace := [], outcome := none, rest := [] } ∨
      (∃ c cs, as = c :: cs ∧ c.result < 0 ∧ taskRun who q as =
        { trace := [(q, c)], outcome := some (.error (.ioError who c.result)), rest := cs }) ∨
      (∃ c cs, as = c :: cs ∧ 0 ≤ c.result ∧ taskRun who q as =
        { trace := [(q, c)], outcome := some (.ok c.result), rest := cs }) := by
  cases as with
  | nil => exact .inl rfl
  | cons c cs =>
    by_cases hneg : c.result < 0
    · rw [taskRun, Issue.Prog.issue_bind_cons, if_pos hneg]
      exact .inr (.inl ⟨c, cs, rfl, hneg, rfl⟩)
    · have hpos := Int.not_lt.mp hneg
      exact .inr (.inr ⟨c, cs, rfl, hpos, taskRun_pass cs hpos⟩)

theorem taskRunVoid_cases (who : String) (q : Request) (as : List Completion) :
    taskRunVoid who q as = { trace := [], outcome := none, rest := [] } ∨
      (∃ c cs, as = c :: cs ∧ c.result < 0 ∧ taskRunVoid who q as =
        { trace := [(q, c)], outcome := some (.error (.ioError who c.result)), rest := cs }) ∨
      (∃ c cs, as = c :: cs ∧ 0 ≤ c.result ∧ taskRunVoid who q as =
        { trace := [(q, c)], outcome := some (.ok ()), rest := cs }) := by
  rcases taskRun_cases who q as with h | ⟨c, cs, has, hneg, h⟩ | ⟨c, cs, has, hpos, h⟩
  · exact .inl (Issue.Prog.bind_none h)
  · exact .inr (.inl ⟨c, cs, has, hneg, Issue.Prog.bind_error h⟩)
  · exact .inr (.inr ⟨c, cs, has, hpos, Issue.Prog.bind_eq h rfl⟩)

/-- A last task, with nothing submitted after it. -/
theorem taskRunVoid_last {α : Type} {who : String} {q : Request} {as : List Completion}
    {k : Unit → Act α} {o : Except Condition α} (hk : ∀ as, (k () as).trace = [])
    (hfin : ((taskRunVoid who q >>= k) as).outcome = some o) :
    ∃ c, ((taskRunVoid who q >>= k) as).trace = [(q, c)] := by
  rcases taskRunVoid_cases who q as with h | ⟨c, cs, -, -, h⟩ | ⟨c, cs, -, -, h⟩
  · rw [Issue.Prog.bind_none h] at hfin
    cases hfin
  · rw [Issue.Prog.bind_error h]
    exact ⟨c, rfl⟩
  · rw [Issue.Prog.bind_ok h, Issue.Ran.after_trace, hk]
    exact ⟨c, rfl⟩

/-- A procedure that reads from one file or stream, with the task `t`. -/
structure ReadsWith (read : Act (Option (List UInt8))) (who : String) (t : Transfer.Task) :
    Prop where
  nil : read [] = { trace := [], outcome := none, rest := [] }
  mem : ∀ c cs, (.read t, c) ∈ (read (c :: cs)).trace
  cons : ∀ c cs, Possible (.read t) c →
    read (c :: cs) =
      { trace := [(.read t, c)]
        outcome := some (if c.result < 0 then .error (.ioError who c.result)
          else .ok (if c.result = 0 then none else some c.data))
        rest := cs }

variable (e junk) in
theorem readTaskResult_readsWith (who : String) (target : Transfer.Target) (n : Nat) :
    ReadsWith (readTaskResult e junk who (Transfer.newReadTask target n)) who
      (Transfer.newReadTask target n) := by
  refine ⟨rfl, fun c cs => Issue.Prog.mem_bind_left List.mem_cons_self, fun c cs hc => ?_⟩
  obtain ⟨u, hreceived, hanswer⟩ :=
    Transfer.read_completes e junk [] target (n := n) hc
  rw [readTaskResult, Issue.Prog.issue_bind_cons, hreceived]
  simp only [hanswer]
  by_cases hneg : c.result < 0
  · rw [if_pos hneg, if_pos hneg]
    rfl
  · by_cases hzero : c.result = 0
    · rw [if_neg hneg, if_neg hneg, if_pos hzero, if_pos hzero]
      rfl
    · rw [if_neg hneg, if_neg hneg, if_neg hzero, if_neg hzero]
      rfl

end

/-! ## 3. Reading to the end -/

/-- What the loop makes of the answers to its reads. -/
inductive LoopRan (who : String) (t : Transfer.Task) :
    Chunks → List Completion → Issue.Ran Request Completion Condition Chunks → Prop
  | wait (s : Chunks) : LoopRan who t s [] { trace := [], outcome := none, rest := [] }
  | fail (s : Chunks) (c : Completion) (cs : List Completion) (h : c.result < 0) :
      LoopRan who t s (c :: cs)
        { trace := [(.read t, c)], outcome := some (.error (.ioError who c.result)), rest := cs }
  | eof (s : Chunks) (c : Completion) (cs : List Completion) (h : c.result = 0) :
      LoopRan who t s (c :: cs)
        { trace := [(.read t, c)], outcome := some (.ok s), rest := cs }
  | more (s : Chunks) (c : Completion) (cs : List Completion)
      (r : Issue.Ran Request Completion Condition Chunks) (h : 0 < c.result)
      (hr : LoopRan who t ⟨c.data :: s.chunks, s.total + c.data.length⟩ cs r) :
      LoopRan who t s (c :: cs) (r.after [(.read t, c)])

section
variable {who : String} {t : Transfer.Task} {read : Act (Option (List UInt8))} {s : Chunks}
  {cs : List Completion} {r : Issue.Ran Request Completion Condition Chunks}

-- By induction on the answers: each read ends the loop or is followed by a shorter run.
variable (s cs) in
theorem loop_ran (hread : ReadsWith read who t)
    (hposs : ∀ x ∈ (iterate (readRound read) s cs).trace, Possible x.1 x.2) :
    LoopRan who t s cs (iterate (readRound read) s cs) := by
  induction cs generalizing s with
  | nil =>
    have hround : readRound read s [] = { trace := [], outcome := none, rest := [] } :=
      Issue.Prog.bind_none hread.nil
    rw [Issue.Prog.iterate_none hround]
    exact .wait s
  | cons c cs ih =>
    have hc : Possible (.read t) c :=
      hposs (.read t, c) (Issue.Prog.mem_iterate (Issue.Prog.mem_bind_left (hread.mem c cs)))
    have hfirst := hread.cons c cs hc
    by_cases hneg : c.result < 0
    · rw [if_pos hneg] at hfirst
      have hround : readRound read s (c :: cs) =
          { trace := [(.read t, c)], outcome := some (.error (.ioError who c.result)), rest := cs } :=
        Issue.Prog.bind_error hfirst
      rw [Issue.Prog.iterate_error hround]
      exact .fail s c cs hneg
    · rw [if_neg hneg] at hfirst
      by_cases hzero : c.result = 0
      · rw [if_pos hzero] at hfirst
        have hround : readRound read s (c :: cs) =
            { trace := [(.read t, c)], outcome := some (.ok (.inr s)), rest := cs } := by
          rw [readRound, Issue.Prog.bind_ok hfirst]
          rfl
        rw [Issue.Prog.iterate_done hround]
        exact .eof s c cs hzero
      · rw [if_neg hzero] at hfirst
        have hround : readRound read s (c :: cs) =
            { trace := [(.read t, c)]
              outcome := some (.ok (.inl ⟨c.data :: s.chunks, s.total + c.data.length⟩))
              rest := cs } := by
          rw [readRound, Issue.Prog.bind_ok hfirst]
          rfl
        rw [Issue.Prog.iterate_next hround rfl] at hposs ⊢
        exact .more s c cs _ (by omega) (ih _ fun x hx => hposs x (List.mem_append_right _ hx))

/-- The answers behind those of the reads up to the end; `none` when a read fails before that. -/
def afterReads : List Completion → Option (List Completion)
  | [] => none
  | c :: cs => if c.result < 0 then none else if c.result = 0 then some cs else afterReads cs

-- Whatever comes of the loop, it submits reads only.
theorem LoopRan.trace (h : LoopRan who t s cs r) : ∃ rd, r.trace = reads t rd := by
  induction h with
  | wait s => exact ⟨[], rfl⟩
  | fail s c cs h => exact ⟨[c], rfl⟩
  | eof s c cs h => exact ⟨[c], rfl⟩
  | more s c cs r h hr ih =>
    obtain ⟨rd, hrd⟩ := ih
    refine ⟨c :: rd, ?_⟩
    rw [Issue.Ran.after_trace, hrd]
    rfl

-- The loop has come to its end: the answers behind it are left.
theorem LoopRan.after_ok {s' : Chunks} (h : LoopRan who t s cs r)
    (hok : r.outcome = some (.ok s')) : afterReads cs = some r.rest := by
  induction h with
  | wait s => cases hok
  | fail s c cs h => cases hok
  | eof s c cs h => rw [afterReads, if_neg (by omega), if_pos h]
  | more s c cs r h hr ih =>
    rw [afterReads, if_neg (by omega), if_neg (by omega)]
    exact ih hok

-- One of its reads has failed before the end.
theorem LoopRan.after_error {x : Condition} (h : LoopRan who t s cs r)
    (herr : r.outcome = some (.error x)) : afterReads cs = none := by
  induction h with
  | wait s => cases herr
  | fail s c cs h => rw [afterReads, if_pos h]
  | eof s c cs h => cases herr
  | more s c cs r h hr ih =>
    rw [afterReads, if_neg (by omega), if_neg (by omega)]
    exact ih herr

/-- A loop of reads has waited, failed, or come to the end. -/
theorem readLoop_cases (hread : ReadsWith read who t)
    (hposs : ∀ x ∈ (readLoop read cs).trace, Possible x.1 x.2) :
    ∃ rd out rest, readLoop read cs = { trace := reads t rd, outcome := out, rest } ∧
      (out = none ∨ (∃ x, out = some (.error x) ∧ afterReads cs = none) ∨
        ∃ s, out = some (.ok s) ∧ afterReads cs = some rest) := by
  have hloop := loop_ran ⟨[], 0⟩ cs hread hposs
  obtain ⟨rd, hrd⟩ := hloop.trace
  refine ⟨rd, (readLoop read cs).outcome, (readLoop read cs).rest, by rw [← hrd]; rfl, ?_⟩
  rcases hout : (readLoop read cs).outcome with _ | x | s
  · exact .inl rfl
  · exact .inr (.inl ⟨x, rfl, hloop.after_error hout⟩)
  · exact .inr (.inr ⟨s, rfl, hloop.after_ok hout⟩)

end

/-! ## 4. The operations -/

/-- The answers to the tasks behind the spawn, one of which fails before the last close. -/
def CaptureFails (as : List Completion) : Prop :=
  ∃ i cs, as = i :: cs ∧
    (i.result < 0 ∨ afterReads cs = none ∨
      ∃ rest, afterReads cs = some rest ∧ ∃ c ∈ rest.take 3, c.result < 0)

section
variable (e : Endian) (junk : Nat → UInt8)

inductive Op
  | readFile (path : String)
  | writeFile (path : String) (bv : List UInt8) (mode : Int)
  | run (args : List SchemeString)
  | runOutput (args : List SchemeString)

def Op.act : Op → Act Unit
  | .readFile path => (ioReadFile e junk path).drop
  | .writeFile path bv mode => ioWriteFile e junk path bv mode
  | .run args => (ioRun e junk args).drop
  | .runOutput args => (ioRunOutput e junk args).drop

/-- A task fails between the first one and the last close, or `io-write` refuses its bytevector:
with the answers `as`, the operation is left by an exception while a resource is open. -/
def Op.Abandons : Op → List Completion → Prop
  | .readFile _, as => ∃ o cs, as = o :: cs ∧ 0 ≤ o.result ∧ afterReads cs = none
  | .writeFile _ bv mode, as =>
      InRange32 mode ∧ ∃ o cs, as = o :: cs ∧ 0 ≤ o.result ∧
        (2 ^ 32 ≤ bv.length ∨ ∃ w ∈ cs.take 1, w.result < 0)
  | .run args, as =>
      (Spawn.ioSpawn e junk args none .inherit).isSome ∧
        ∃ p cs, as = p :: cs ∧ 0 ≤ p.result ∧ ∃ w ∈ cs.take 1, w.result < 0
  | .runOutput args, as =>
      (Spawn.ioSpawn e junk args none .capture).isSome ∧
        ∃ p cs, as = p :: cs ∧ 0 ≤ p.result ∧ CaptureFails cs

end

section
variable {e : Endian} {junk : Nat → UInt8}

-- Nothing is submitted, nothing is open.
theorem released_nil : Released [] := fun _ h => nomatch h

/-- What has failed has opened nothing. -/
theorem released_open {path : String} {flags mode : Int} {c : Completion} (h : c.result < 0) :
    Released [(.fsOpen path flags mode, c)] := by
  rw [released_cons rfl rfl, Request.obtains, if_neg (Int.not_le.mpr h)]
  exact fun _ hx => nomatch hx

theorem released_spawn {t : SpawnTask} {c : Completion} (h : c.result < 0) :
    Released [(.procSpawn t, c)] := by
  rw [released_cons rfl rfl, Request.obtains, if_neg (Int.not_le.mpr h)]
  exact fun _ hx => nomatch hx

section
variable {α : Type} {as : List Completion} {o : Except Condition α}

/-- The three ways in which an operation that begins with `io-open` comes to an end. -/
theorem open_then {path : String} {flags mode : Int} (flags' : Int) {k : Int → Act α}
    (hflags : Buffer.int32 flags = some flags')
    (hfin : ((ioOpen path flags mode >>= k) as).outcome = some o) :
    (¬ InRange32 mode ∧ (ioOpen path flags mode >>= k) as =
        { trace := [], outcome := some (.error .other), rest := as }) ∨
      ∃ mode' c cs, InRange32 mode ∧ as = c :: cs ∧
        ((c.result < 0 ∧ (ioOpen path flags mode >>= k) as =
            { trace := [(.fsOpen path flags' mode', c)]
              outcome := some (.error (.ioError "io-open" c.result))
              rest := cs }) ∨
          (0 ≤ c.result ∧ (ioOpen path flags mode >>= k) as =
            (k c.result cs).after [(.fsOpen path flags' mode', c)])) := by
  by_cases hmode : InRange32 mode
  · have heq : ioOpen path flags mode =
        taskRun "io-open" (.fsOpen path flags' (mode.bmod (2 ^ 32))) := by
      rw [ioOpen, hflags, Buffer.int32, if_pos hmode]
      rfl
    rw [heq] at hfin ⊢
    rcases taskRun_cases "io-open" (.fsOpen path flags' (mode.bmod (2 ^ 32))) as with
      h | ⟨c, cs, has, hneg, h⟩ | ⟨c, cs, has, hpos, h⟩
    · rw [Issue.Prog.bind_none h] at hfin
      cases hfin
    · rw [Issue.Prog.bind_error h]
      exact .inr ⟨_, c, cs, hmode, has, .inl ⟨hneg, rfl⟩⟩
    · rw [Issue.Prog.bind_ok h]
      exact .inr ⟨_, c, cs, hmode, has, .inr ⟨hpos, rfl⟩⟩
  · have heq : ioOpen path flags mode = raise .other := by
      rw [ioOpen, hflags, Buffer.int32, if_neg hmode]
      rfl
    rw [heq]
    exact .inl ⟨hmode, rfl⟩

-- As `open_then`, for the operations that begin with `io-spawn`.
theorem spawn_then {args : List SchemeString} {stdio : Stdio} {k : Process → Act α}
    (hfin : ((ioSpawn e junk args none stdio >>= k) as).outcome = some o) :
    ((Spawn.ioSpawn e junk args none stdio).isSome = false ∧
        ((ioSpawn e junk args none stdio >>= k) as).trace = []) ∨
      ∃ t c cs, Spawn.ioSpawn e junk args none stdio = some t ∧ as = c :: cs ∧
        ((c.result < 0 ∧
            ((ioSpawn e junk args none stdio >>= k) as).trace = [(.procSpawn t, c)]) ∨
          (0 ≤ c.result ∧ ioSpawn e junk args none stdio as =
            { trace := [(.procSpawn t, c)]
              outcome := some (.ok ⟨c.result, c.stdin, c.stdout, c.stderr⟩)
              rest := cs })) := by
  cases hspawn : Spawn.ioSpawn e junk args none stdio with
  | none =>
    have heq : ioSpawn e junk args none stdio = raise .other := by
      rw [ioSpawn, hspawn]
      rfl
    rw [heq]
    exact .inl ⟨rfl, rfl⟩
  | some t =>
    have heq : ioSpawn e junk args none stdio = (do
        let c ← issue (.procSpawn t)
        if c.result < 0 then raise (.ioError "io-spawn" c.result)
        else pure ⟨c.result, c.stdin, c.stdout, c.stderr⟩) := by
      rw [ioSpawn, hspawn]
      rfl
    cases as with
    | nil =>
      have hnil : ioSpawn e junk args none stdio [] =
          { trace := [], outcome := none, rest := [] } := by
        rw [heq]
        rfl
      rw [Issue.Prog.bind_none hnil] at hfin
      cases hfin
    | cons c cs =>
      refine .inr ⟨t, c, cs, rfl, rfl, ?_⟩
      by_cases hneg : c.result < 0
      · have hcons : ioSpawn e junk args none stdio (c :: cs) =
            { trace := [(.procSpawn t, c)]
              outcome := some (.error (.ioError "io-spawn" c.result))
              rest := cs } := by
          rw [heq, Issue.Prog.issue_bind_cons, if_pos hneg]
          rfl
        rw [Issue.Prog.bind_error hcons]
        exact .inl ⟨hneg, rfl⟩
      · have hcons : ioSpawn e junk args none stdio (c :: cs) =
            { trace := [(.procSpawn t, c)]
              outcome := some (.ok ⟨c.result, c.stdin, c.stdout, c.stderr⟩)
              rest := cs } := by
          rw [heq, Issue.Prog.issue_bind_cons, if_neg hneg]
          rfl
        exact .inr ⟨Int.not_lt.mp hneg, hcons⟩

end

-- Only a wait that fails keeps `io-proc-close` from being reached.
theorem released_run {args : List SchemeString} {as : List Completion} {o : Except Condition Int}
    (hfin : (ioRun e junk args as).outcome = some o)
    (hposs : ∀ x ∈ (ioRun e junk args as).trace, Possible x.1 x.2) :
    Released (ioRun e junk args as).trace ↔ ¬ (Op.run args).Abandons e junk as := by
  rcases spawn_then (k := fun p => do
      let code ← ioProcWait p
      ioProcClose p
      pure code) hfin with
    ⟨hno, htr⟩ | ⟨t, p, cs, hspawn, rfl, ⟨hneg, htr⟩ | ⟨hpos, hp⟩⟩
  · refine iff_of_true (htr ▸ released_nil) ?_
    rintro ⟨hsome, -⟩
    rw [hno] at hsome
    cases hsome
  · refine iff_of_true (htr ▸ released_spawn hneg) ?_
    rintro ⟨-, p', cs', heq, hpos, -⟩
    cases heq
    omega
  · have hrun : ioRun e junk args (p :: cs) =
        ((do
          let code ← taskRun "io-proc-wait" (.procWait p.result)
          taskRunVoid "io-proc-close" (.procClose p.result)
          pure code : Act Int) cs).after [(.procSpawn t, p)] := Issue.Prog.bind_ok hp
    have hstreams : Possible (.procSpawn t) p := hposs _ (by
      rw [hrun]
      exact List.mem_cons_self)
    have hmode : t.stdioMode = 0 := (Option.some.inj (Spawn.ioSpawn_mode hspawn)).symm
    have hobtains : (Request.procSpawn t).obtains p = [.process p.result] := by
      rw [Possible, hmode, if_neg (by decide)] at hstreams
      obtain ⟨hin, hout, herr⟩ := hstreams
      rw [Request.obtains, if_pos hpos, hin, hout, herr]
      rfl
    have habandons : (Op.run args).Abandons e junk (p :: cs) ↔ ∃ w ∈ cs.take 1, w.result < 0 := by
      constructor
      · rintro ⟨-, p', cs', heq, -, hw⟩
        cases heq
        exact hw
      · exact fun hw => ⟨hspawn ▸ rfl, p, cs, rfl, hpos, hw⟩
    rw [habandons]
    rw [hrun] at hfin ⊢
    rcases taskRun_cases "io-proc-wait" (.procWait p.result) cs with
      hw | ⟨w, ds, rfl, hwneg, hw⟩ | ⟨w, ds, rfl, hwpos, hw⟩
    · rw [Issue.Prog.bind_none hw] at hfin
      cases hfin
    · rw [Issue.Prog.bind_error hw]
      refine iff_of_false ?_ fun h => h ⟨w, List.mem_cons_self, hwneg⟩
      exact not_released_open rfl hobtains rfl rfl
    · rw [Issue.Prog.bind_ok hw] at hfin ⊢
      obtain ⟨c, hc⟩ := taskRunVoid_last (fun _ => rfl) hfin
      rw [Issue.Ran.after_trace, Issue.Ran.after_trace, hc]
      refine iff_of_true (released_closed rfl hobtains rfl rfl) ?_
      rintro ⟨w', hmem, hneg⟩
      rw [List.take_succ_cons, List.take_zero, List.mem_singleton] at hmem
      subst hmem
      omega

/-! ### Files -/

theorem ioRead_eq {fd : Int} (hfd : Buffer.int32 fd = some fd) :
    ioRead e junk fd 65536 (-1) =
      readTaskResult e junk "io-read" (Transfer.newReadTask (.file fd (-1)) 65536) := by
  rw [ioRead, Transfer.ioRead, Transfer.submitFsRead, hfd]
  rfl

theorem ioClose_eq {fd : Int} (hfd : Buffer.int32 fd = some fd) :
    ioClose fd = taskRunVoid "io-close" (.fsClose fd) := by
  rw [ioClose, hfd]
  rfl

-- The chunks are put together without a task.
variable (junk) in
theorem join_cases (s : Chunks) (as : List Completion) :
    s.join junk as = { trace := [], outcome := none, rest := as } ∨
      ∃ out, s.join junk as = { trace := [], outcome := some (.ok out), rest := as } := by
  rw [Chunks.join]
  cases copyChunks s.chunks.reverse 0 (Buffer.alloc junk s.total) with
  | none => exact .inl rfl
  | some out => exact .inr ⟨out, rfl⟩

theorem join_trace (s : Chunks) (as : List Completion) : (s.join junk as).trace = [] := by
  rcases join_cases junk s as with h | ⟨out, h⟩ <;> rw [h]

-- Only a read that fails keeps `io-close` from being reached.
theorem released_readFile {path : String} {as : List Completion}
    {o : Except Condition (List UInt8)} (hfin : (ioReadFile e junk path as).outcome = some o)
    (hposs : ∀ x ∈ (ioReadFile e junk path as).trace, Possible x.1 x.2) :
    Released (ioReadFile e junk path as).trace ↔ ¬ (Op.readFile path).Abandons e junk as := by
  rcases open_then 0 (k := fun fd => do
      let s ← readLoop (ioRead e junk fd 65536 (-1))
      ioClose fd
      s.join junk) rfl hfin with
    ⟨hno, -⟩ | ⟨mode, f, cs, -, rfl, ⟨hneg, hrun⟩ | ⟨hpos, hrun⟩⟩
  · exact absurd (by decide) hno
  · rw [ioReadFile, hrun]
    refine iff_of_true (released_open hneg) ?_
    rintro ⟨f', cs', heq, hpos, -⟩
    cases heq
    omega
  · have hint : Possible (.fsOpen path 0 mode) f := hposs _ (by
      rw [ioReadFile, hrun]
      exact List.mem_cons_self)
    have hfd : Buffer.int32 f.result = some f.result := Buffer.int32_of_int hint.1 hint.2
    have hobtains : (Request.fsOpen path 0 mode).obtains f = [.fd f.result] := if_pos hpos
    have habandons : (Op.readFile path).Abandons e junk (f :: cs) ↔ afterReads cs = none := by
      constructor
      · rintro ⟨f', cs', heq, -, hnone⟩
        cases heq
        exact hnone
      · exact fun hnone => ⟨f, cs, rfl, hpos, hnone⟩
    rw [habandons]
    rw [ioRead_eq hfd] at hrun
    obtain ⟨rd, out, rest, hr, hout⟩ := readLoop_cases
      (readTaskResult_readsWith e junk "io-read" (.file f.result (-1)) 65536)
      fun x hx => hposs x (by
        rw [ioReadFile, hrun]
        exact List.mem_append_right _ (Issue.Prog.mem_bind_left hx))
    rcases hout with rfl | ⟨x, rfl, hnone⟩ | ⟨s, rfl, hafter⟩
    · have hall := hrun.trans (congrArg _ (Issue.Prog.bind_none hr))
      rw [ioReadFile, hall] at hfin
      cases hfin
    · have hall := hrun.trans (congrArg _ (Issue.Prog.bind_error hr))
      rw [ioReadFile, hall]
      refine iff_of_false ?_ fun h => h hnone
      exact not_released_open rfl hobtains (obtained_reads _ rd) (closings_reads _ rd)
    · have hall := hrun.trans (congrArg _ (Issue.Prog.bind_ok hr))
      rw [ioReadFile, hall, ioClose_eq hfd] at hfin
      obtain ⟨c, hc⟩ := taskRunVoid_last (join_trace s) hfin
      have hsome : ¬ afterReads cs = none := by
        rw [hafter]
        exact fun h => nomatch h
      have hobtained : obtained (reads (Transfer.newReadTask (.file f.result (-1)) 65536) rd ++
          [(.fsClose f.result, c)]) = [] := by
        rw [obtained_append, obtained_reads]
        rfl
      have hclosings : closings (reads (Transfer.newReadTask (.file f.result (-1)) 65536) rd ++
          [(.fsClose f.result, c)]) = [.fd f.result] := by
        rw [closings_append, closings_reads]
        rfl
      rw [ioReadFile, hall, ioClose_eq hfd, Issue.Ran.after_trace, Issue.Ran.after_trace, hc]
      exact iff_of_true (released_closed rfl hobtains hobtained hclosings) hsome

-- The descriptor is one that `io-open` has returned, so only the length may be refused.
variable (e junk) in
theorem ioWrite_taken {fd : Int} {bv : List UInt8} (hfd : Buffer.int32 fd = some fd)
    (hlen : bv.length < 2 ^ 32) :
    ioWrite e junk fd bv (-1) = taskRun "io-write"
      (.write { target := .file fd (-1), nbytes := bv.length, buffer := bv, extData := none }) := by
  have hrange : Buffer.InRange32 fd := by
    rw [Buffer.int32, Option.ite_none_right_eq_some] at hfd
    exact hfd.1
  have hwrap : fd.bmod (2 ^ 32) = fd := by
    rw [Buffer.int32, if_pos hrange] at hfd
    exact Option.some.inj hfd
  have hn : InRange32 bv.length := ⟨by omega, by omega⟩
  have htaken : Transfer.FsTaken fd 0 bv.length (-1) := ⟨hrange, by decide, hn, by decide⟩
  have hzero : Transfer.wrap32 0 = 0 := rfl
  have hminus : (-1 : Int).bmod (2 ^ 64) = -1 := by decide
  rw [ioWrite, Transfer.ioWrite_eq, if_pos htaken, hwrap, Transfer.wrap32_nat hn, hzero, hminus,
    Transfer.rtFsWrite, Transfer.newWriteTask, Bytes.readAt_eq (Nat.le_of_eq (Nat.zero_add _)),
    Bytes.slice_all]
  rfl

variable (e junk) in
theorem ioWrite_refused (fd : Int) {bv : List UInt8} (hlen : 2 ^ 32 ≤ bv.length) :
    ioWrite e junk fd bv (-1) = raise .other := by
  have hno : ¬ Transfer.FsTaken fd 0 bv.length (-1) := fun h => by
    have hn := h.2.2.1.2
    omega
  rw [ioWrite, Transfer.ioWrite_eq, if_neg hno]
  rfl

-- A refused length and a write that fails keep `io-close` from being reached.
theorem released_writeFile {path : String} {bv : List UInt8} {mode : Int} {as : List Completion}
    {o : Except Condition Unit} (hfin : (ioWriteFile e junk path bv mode as).outcome = some o)
    (hposs : ∀ x ∈ (ioWriteFile e junk path bv mode as).trace, Possible x.1 x.2) :
    Released (ioWriteFile e junk path bv mode as).trace ↔
      ¬ (Op.writeFile path bv mode).Abandons e junk as := by
  rcases open_then 0o1101 (k := fun fd => do
      let _ ← ioWrite e junk fd bv (-1)
      ioClose fd
      pure ()) rfl hfin with
    ⟨hno, hrun⟩ | ⟨mode', f, cs, hmode, rfl, ⟨hneg, hrun⟩ | ⟨hpos, hrun⟩⟩
  · rw [ioWriteFile, hrun]
    exact iff_of_true released_nil fun h => hno h.1
  · rw [ioWriteFile, hrun]
    refine iff_of_true (released_open hneg) ?_
    rintro ⟨-, f', cs', heq, hpos, -⟩
    cases heq
    omega
  · have hint : Possible (.fsOpen path 0o1101 mode') f := hposs _ (by
      rw [ioWriteFile, hrun]
      exact List.mem_cons_self)
    have hfd : Buffer.int32 f.result = some f.result := Buffer.int32_of_int hint.1 hint.2
    have hobtains : (Request.fsOpen path 0o1101 mode').obtains f = [.fd f.result] := if_pos hpos
    have habandons : (Op.writeFile path bv mode).Abandons e junk (f :: cs) ↔
        2 ^ 32 ≤ bv.length ∨ ∃ w ∈ cs.take 1, w.result < 0 := by
      constructor
      · rintro ⟨-, f', cs', heq, -, h⟩
        cases heq
        exact h
      · exact fun h => ⟨hmode, f, cs, rfl, hpos, h⟩
    rw [habandons]
    by_cases hlen : bv.length < 2 ^ 32
    · have hwrite := ioWrite_taken e junk hfd hlen
      rw [hwrite] at hrun
      rcases taskRun_cases "io-write" (.write
          { target := .file f.result (-1), nbytes := bv.length, buffer := bv, extData := none })
          cs with hw | ⟨w, ds, rfl, hwneg, hw⟩ | ⟨w, ds, rfl, hwpos, hw⟩
      · have hall := hrun.trans (congrArg _ (Issue.Prog.bind_none hw))
        rw [ioWriteFile, hall] at hfin
        cases hfin
      · have hall := hrun.trans (congrArg _ (Issue.Prog.bind_error hw))
        rw [ioWriteFile, hall]
        refine iff_of_false ?_ fun h => h (.inr ⟨w, List.mem_cons_self, hwneg⟩)
        exact not_released_open rfl hobtains rfl rfl
      · have hall := hrun.trans (congrArg _ (Issue.Prog.bind_ok hw))
        rw [ioWriteFile, hall, ioClose_eq hfd] at hfin
        obtain ⟨c, hc⟩ := taskRunVoid_last (fun _ => rfl) hfin
        rw [ioWriteFile, hall, ioClose_eq hfd, Issue.Ran.after_trace, Issue.Ran.after_trace, hc]
        refine iff_of_true (released_closed rfl hobtains rfl rfl) ?_
        rintro (hge | ⟨w', hmem, hneg⟩)
        · omega
        · rw [List.take_succ_cons, List.take_zero, List.mem_singleton] at hmem
          subst hmem
          omega
    · have hwrite := ioWrite_refused e junk f.result
        (Nat.le_of_not_lt hlen)
      rw [hwrite] at hrun
      have hall := hrun.trans (congrArg _ (Issue.Prog.bind_error rfl))
      rw [ioWriteFile, hall]
      refine iff_of_false ?_ fun h => h (.inl (Nat.le_of_not_lt hlen))
      exact not_released_open rfl hobtains rfl rfl

/-! ### Processes -/

theorem streamOf_pos {h : Nat} (hh : h ≠ 0) : streamOf h = some h := if_neg hh

theorem closeAny_eq {s : Option Nat} {h : Nat} (hs : s = some h) :
    (if s.isSome then ioStreamClose s else pure ()) =
      taskRunVoid "io-stream-close" (.streamClose h) := by
  subst hs
  rfl

theorem readStreamToEof_cases (h : Nat) (as : List Completion)
    (hposs : ∀ x ∈ (readStreamToEof e junk (some h) as).trace, Possible x.1 x.2) :
    ∃ rd out rest, readStreamToEof e junk (some h) as =
        { trace := reads (Transfer.newReadTask (.stream h) 65536) rd, outcome := out, rest } ∧
      (out = none ∨ (∃ x, out = some (.error x) ∧ afterReads as = none) ∨
        ∃ data, out = some (.ok data) ∧ afterReads as = some rest) := by
  have hread : ioStreamRead e junk (some h) =
      readTaskResult e junk "io-stream-read" (Transfer.newReadTask (.stream h) 65536) := rfl
  rw [readStreamToEof, hread] at hposs ⊢
  obtain ⟨rd, out, rest, hr, hout⟩ := readLoop_cases
    (readTaskResult_readsWith e junk "io-stream-read" (.stream h) 65536)
    fun x hx => hposs x (Issue.Prog.mem_bind_left hx)
  rcases hout with rfl | ⟨x, rfl, hnone⟩ | ⟨s, rfl, hafter⟩
  · exact ⟨rd, none, rest, Issue.Prog.bind_none hr, .inl rfl⟩
  · exact ⟨rd, _, rest, Issue.Prog.bind_error hr, .inr (.inl ⟨x, rfl, hnone⟩)⟩
  · rcases join_cases junk s rest with hj | ⟨data, hj⟩
    · have hall := Issue.Prog.bind_eq hr hj
      rw [List.append_nil] at hall
      exact ⟨rd, none, rest, hall, .inl rfl⟩
    · have hall := Issue.Prog.bind_eq hr hj
      rw [List.append_nil] at hall
      exact ⟨rd, _, rest, hall, .inr (.inr ⟨data, rfl, hafter⟩)⟩

/-- The end of `io-run/output`, for a process with three streams. -/
def closeDown (p : Completion) (data : List UInt8) : Act (Int × List UInt8) := do
  taskRunVoid "io-stream-close" (.streamClose p.stdout)
  taskRunVoid "io-stream-close" (.streamClose p.stderr)
  let code ← taskRun "io-proc-wait" (.procWait p.result)
  taskRunVoid "io-proc-close" (.procClose p.result)
  pure (code, data)

/-- `io-run/output` behind its `io-spawn`. -/
def afterCapture (e : Endian) (junk : Nat → UInt8) (p : Completion) : Act (Int × List UInt8) := do
  taskRunVoid "io-stream-close" (.streamClose p.stdin)
  let data ← readStreamToEof e junk (some p.stdout)
  closeDown p data

-- A captured process has its three streams, so none of the tests for them fails.
theorem ioRunOutput_eq {args : List SchemeString} {t : SpawnTask} {p : Completion}
    {cs : List Completion} (hin : p.stdin ≠ 0) (hout : p.stdout ≠ 0) (herr : p.stderr ≠ 0)
    (hspawn : ioSpawn e junk args none .capture (p :: cs) =
      { trace := [(.procSpawn t, p)]
        outcome := some (.ok ⟨p.result, p.stdin, p.stdout, p.stderr⟩)
        rest := cs }) :
    ioRunOutput e junk args (p :: cs) =
      (afterCapture e junk p cs).after [(.procSpawn t, p)] := by
  have hsin : ioProcStdin ⟨p.result, p.stdin, p.stdout, p.stderr⟩ = some p.stdin :=
    streamOf_pos hin
  have hsout : ioProcStdout ⟨p.result, p.stdin, p.stdout, p.stderr⟩ = some p.stdout :=
    streamOf_pos hout
  have hserr : ioProcStderr ⟨p.result, p.stdin, p.stdout, p.stderr⟩ = some p.stderr :=
    streamOf_pos herr
  rw [ioRunOutput, Issue.Prog.bind_ok hspawn, closeAny_eq hsin, closeAny_eq hserr, hsout]
  rfl

/-- Either all goes well up to the last close, or the process is left open. -/
theorem closeDown_closes {p : Completion} {data : List UInt8} {as : List Completion}
    {o : Except Condition (Int × List UInt8)} (hfin : (closeDown p data as).outcome = some o) :
    obtained (closeDown p data as).trace = [] ∧
      ((closings (closeDown p data as).trace =
            [.stream p.stdout, .stream p.stderr, .process p.result] ∧
          ¬ ∃ c ∈ as.take 3, c.result < 0) ∨
        (.process p.result ∉ closings (closeDown p data as).trace ∧
          ∃ c ∈ as.take 3, c.result < 0)) := by
  rcases taskRunVoid_cases "io-stream-close" (.streamClose p.stdout) as with
    hx | ⟨x, bs, rfl, hxneg, hx⟩ | ⟨x, bs, rfl, hxpos, hx⟩
  · rw [closeDown, Issue.Prog.bind_none hx] at hfin
    cases hfin
  · rw [closeDown, Issue.Prog.bind_error hx]
    exact ⟨rfl, .inr ⟨by simp [closings, Request.closes], x, List.mem_cons_self, hxneg⟩⟩
  · rw [closeDown, Issue.Prog.bind_ok hx] at hfin ⊢
    rcases taskRunVoid_cases "io-stream-close" (.streamClose p.stderr) bs with
      hy | ⟨y, cs, rfl, hyneg, hy⟩ | ⟨y, cs, rfl, hypos, hy⟩
    · rw [Issue.Prog.bind_none hy] at hfin
      cases hfin
    · rw [Issue.Prog.bind_error hy]
      exact ⟨rfl, .inr ⟨by simp [closings, Request.closes], y,
        List.mem_cons_of_mem x List.mem_cons_self, hyneg⟩⟩
    · rw [Issue.Prog.bind_ok hy] at hfin ⊢
      rcases taskRun_cases "io-proc-wait" (.procWait p.result) cs with
        hz | ⟨z, ds, rfl, hzneg, hz⟩ | ⟨z, ds, rfl, hzpos, hz⟩
      · rw [Issue.Prog.bind_none hz] at hfin
        cases hfin
      · rw [Issue.Prog.bind_error hz]
        exact ⟨rfl, .inr ⟨by simp [closings, Request.closes], z,
          List.mem_cons_of_mem x (List.mem_cons_of_mem y List.mem_cons_self), hzneg⟩⟩
      · rw [Issue.Prog.bind_ok hz] at hfin ⊢
        obtain ⟨c, hc⟩ := taskRunVoid_last (fun _ => rfl) hfin
        simp only [Issue.Ran.after_trace, hc]
        refine ⟨rfl, .inl ⟨rfl, ?_⟩⟩
        rintro ⟨w, hw, hneg⟩
        simp only [List.take_succ_cons, List.take_zero, List.mem_cons, List.not_mem_nil,
          or_false] at hw
        rcases hw with rfl | rfl | rfl <;> omega

-- The task that fails first decides; up to it the closes come in their order.
theorem afterCapture_closes {p : Completion} {as : List Completion}
    {o : Except Condition (Int × List UInt8)} (hfin : (afterCapture e junk p as).outcome = some o)
    (hposs : ∀ x ∈ (afterCapture e junk p as).trace, Possible x.1 x.2) :
    obtained (afterCapture e junk p as).trace = [] ∧
      ((closings (afterCapture e junk p as).trace =
            [.stream p.stdin, .stream p.stdout, .stream p.stderr, .process p.result] ∧
          ¬ CaptureFails as) ∨
        (.process p.result ∉ closings (afterCapture e junk p as).trace ∧ CaptureFails as)) := by
  rcases taskRunVoid_cases "io-stream-close" (.streamClose p.stdin) as with
    hi | ⟨i, cs, rfl, hineg, hi⟩ | ⟨i, cs, rfl, hipos, hi⟩
  · rw [afterCapture, Issue.Prog.bind_none hi] at hfin
    cases hfin
  · rw [afterCapture, Issue.Prog.bind_error hi]
    exact ⟨rfl, .inr ⟨by simp [closings, Request.closes], i, cs, rfl, .inl hineg⟩⟩
  · have hfails : CaptureFails (i :: cs) ↔ afterReads cs = none ∨
        ∃ rest, afterReads cs = some rest ∧ ∃ c ∈ rest.take 3, c.result < 0 := by
      constructor
      · rintro ⟨i', cs', heq, h⟩
        cases heq
        exact h.resolve_left (Int.not_lt.mpr hipos)
      · exact fun h => ⟨i, cs, rfl, .inr h⟩
    rw [hfails]
    rw [afterCapture, Issue.Prog.bind_ok hi] at hfin hposs ⊢
    obtain ⟨rd, out, rest, hr, hout⟩ := readStreamToEof_cases p.stdout cs fun x hx =>
      hposs x (List.mem_append_right _ (Issue.Prog.mem_bind_left hx))
    rcases hout with rfl | ⟨x, rfl, hnone⟩ | ⟨data, rfl, hafter⟩
    · rw [Issue.Prog.bind_none hr] at hfin
      cases hfin
    · rw [Issue.Prog.bind_error hr, Issue.Ran.after_trace, obtained_append, obtained_reads,
        closings_append, closings_reads]
      exact ⟨rfl, .inr ⟨by simp [closings, Request.closes], .inl hnone⟩⟩
    · rw [Issue.Prog.bind_ok hr] at hfin ⊢
      obtain ⟨hobtained, hcloses⟩ := closeDown_closes hfin
      rw [Issue.Ran.after_trace, Issue.Ran.after_trace, obtained_append, obtained_append,
        obtained_reads, hobtained, closings_append, closings_append, closings_reads]
      refine ⟨rfl, ?_⟩
      rcases hcloses with ⟨heq, hsound⟩ | ⟨hno, hfails⟩
      · refine .inl ⟨by rw [heq]; rfl, ?_⟩
        rintro (hnone | ⟨rest', hrest, h⟩)
        · rw [hafter] at hnone
          cases hnone
        · rw [hafter] at hrest
          cases hrest
          exact hsound h
      · refine .inr ⟨fun hmem => ?_, .inr ⟨rest, hafter, hfails⟩⟩
        rcases List.mem_cons.mp hmem with heq | hmem
        · cases heq
        · exact hno hmem

-- All four resources come from the one spawn.
theorem released_runOutput {args : List SchemeString} {as : List Completion}
    {o : Except Condition (Int × List UInt8)}
    (hfin : (ioRunOutput e junk args as).outcome = some o)
    (hposs : ∀ x ∈ (ioRunOutput e junk args as).trace, Possible x.1 x.2) :
    Released (ioRunOutput e junk args as).trace ↔
      ¬ (Op.runOutput args).Abandons e junk as := by
  rcases spawn_then (k := fun p => do
      let _ ← (if (ioProcStdin p).isSome then ioStreamClose (ioProcStdin p) else pure ())
      let data ← readStreamToEof e junk (ioProcStdout p)
      ioStreamClose (ioProcStdout p)
      let _ ← (if (ioProcStderr p).isSome then ioStreamClose (ioProcStderr p) else pure ())
      let code ← ioProcWait p
      ioProcClose p
      pure (code, data)) hfin with
    ⟨hno, htr⟩ | ⟨t, p, cs, hspawn, rfl, ⟨hneg, htr⟩ | ⟨hpos, hp⟩⟩
  · refine iff_of_true (htr ▸ released_nil) ?_
    rintro ⟨hsome, -⟩
    rw [hno] at hsome
    cases hsome
  · refine iff_of_true (htr ▸ released_spawn hneg) ?_
    rintro ⟨-, p', cs', heq, hpos, -⟩
    cases heq
    omega
  · have hstreams : Possible (.procSpawn t) p := hposs _ (Issue.Prog.mem_bind_left (by
      rw [hp]
      exact List.mem_cons_self))
    have hmode : t.stdioMode = 1 := (Option.some.inj (Spawn.ioSpawn_mode hspawn)).symm
    rw [Possible, if_pos hmode] at hstreams
    obtain ⟨hin, hout, herr, hio, hie, hoe⟩ := hstreams hpos
    have hobtains : (Request.procSpawn t).obtains p =
        [.process p.result, .stream p.stdin, .stream p.stdout, .stream p.stderr] := by
      rw [Request.obtains, if_pos hpos, List.filterMap_cons_some (streamOf_pos hin),
        List.filterMap_cons_some (streamOf_pos hout), List.filterMap_cons_some (streamOf_pos herr)]
      rfl
    have habandons : (Op.runOutput args).Abandons e junk (p :: cs) ↔ CaptureFails cs := by
      constructor
      · rintro ⟨-, p', cs', heq, -, h⟩
        cases heq
        exact h
      · exact fun h => ⟨hspawn ▸ rfl, p, cs, rfl, hpos, h⟩
    have hrun := ioRunOutput_eq hin hout herr hp
    rw [hrun] at hfin hposs
    obtain ⟨hobtained, hcloses⟩ :=
      afterCapture_closes hfin fun x hx => hposs x (List.mem_append_right _ hx)
    rw [habandons, hrun, Issue.Ran.after_trace, List.singleton_append,
      released_cons rfl hobtained, hobtains]
    rcases hcloses with ⟨heq, hsound⟩ | ⟨hno, hfails⟩
    · refine iff_of_true (fun x hx => ?_) hsound
      rw [heq]
      have hnodup : [Resource.stream p.stdin, .stream p.stdout, .stream p.stderr,
          .process p.result].Nodup := by
        simp [hio, hie, hoe]
      refine List.count_eq_one_of_mem hnodup ?_
      simp only [List.mem_cons, List.not_mem_nil, or_false] at hx ⊢
      tauto
    · refine iff_of_false (fun h => ?_) (fun h => h hfails)
      have hone := h _ List.mem_cons_self
      rw [List.count_eq_zero_of_not_mem hno] at hone
      cases hone

/-- **Composite operations release what they opened**, on every path but those on which a task
fails, or a bytevector is refused, between the first task and the last close. -/
theorem released_iff (op : Op) {as : List Completion} {o : Except Condition Unit}
    (hfin : (op.act e junk as).outcome = some o)
    (hposs : ∀ x ∈ (op.act e junk as).trace, Possible x.1 x.2) :
    Released (op.act e junk as).trace ↔ ¬ op.Abandons e junk as := by
  cases op with
  | readFile path =>
    obtain ⟨o', ho'⟩ := Issue.Prog.drop_outcome hfin
    exact released_readFile ho' hposs
  | writeFile path bv mode => exact released_writeFile hfin hposs
  | run args =>
    obtain ⟨o', ho'⟩ := Issue.Prog.drop_outcome hfin
    exact released_run ho' hposs
  | runOutput args =>
    obtain ⟨o', ho'⟩ := Issue.Prog.drop_outcome hfin
    exact released_runOutput ho' hposs

theorem released_threeBytes :
    Released ((Op.writeFile "f" [1, 2, 3] 0o644).act .little (fun _ => 0)
      [.of 3, .of 3, .of 0]).trace := by
  refine (released_iff (.writeFile "f" [1, 2, 3] 0o644) (o := .ok ()) rfl (by decide)).mpr ?_
  rintro ⟨-, f, cs, heq, -, hge | ⟨w, hw, hneg⟩⟩
  · exact absurd hge (by decide)
  · cases heq
    rw [List.mem_singleton.mp hw] at hneg
    exact absurd hneg (by decide)

/-- The disk is full (`ENOSPC`): the exception leaves `io-write-file` with its descriptor open. -/
theorem fullDisk_leaks :
    ((Op.writeFile "f" [1, 2, 3] 0o644).act .little (fun _ => 0) [.of 3, .of (-28)]).outcome =
        some (.error (.ioError "io-write" (-28))) ∧
      (∀ x ∈ ((Op.writeFile "f" [1, 2, 3] 0o644).act .little (fun _ => 0)
        [.of 3, .of (-28)]).trace, Possible x.1 x.2) ∧
      ¬ Released ((Op.writeFile "f" [1, 2, 3] 0o644).act .little (fun _ => 0)
        [.of 3, .of (-28)]).trace := by
  decide

end

end ChezAsync.Composite
