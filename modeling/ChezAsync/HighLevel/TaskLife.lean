import Mathlib.Algebra.Group.Pi.Basic
import Mathlib.Algebra.Group.Prod
import Mathlib.Tactic.Common
import ChezAsync.Lib.Ledger
import ChezAsync.HighLevel.Modes
import ChezAsync.HighLevel.Quiescence

/-!
# The life of a task

The I/O procedures that are built on one task, on a plain thread and in any number of fibers at
once.  Their calls of the runtime go into a ledger that knows what a `Task` object allows: it is
made by a submission, awaited once, asked after that, and freed once.  The balance of the ledger
are the counter of live tasks and the lock counts of the bytevectors.
-/

namespace ChezAsync.Async

/-! ## 1. The procedures -/

/-- The I/O procedures that own one task; `B` are the bytevectors that a submission locks. -/
inductive Operation (B : Type)
  | ioSleep
  | ioOpen
  | ioRead
  | ioWrite
  | ioClose
  | ioReadBang (bv : B)
  | ioWriteBang (bv : B)
  | ioMkdir
  | ioRmdir
  | ioUnlink
  | ioRename
  | ioRealpath
  | ioScandir
  | ioStat
  | ioWatch
  | ioWatchNext
  | ioWatchClose
  | ioDnsResolve
  | ioDnsResolveAll
  | tryConnect
  | ioTcpListen
  | ioTcpAccept
  | ioStreamRead
  | ioStreamWrite
  | ioStreamReadBang (bv : B)
  | ioStreamWriteBang (bv : B)
  | ioStreamClose
  | ioListenerClose
  | ioSpawn
  | ioProcWait
  | ioProcKill
  | ioProcClose
  deriving DecidableEq

variable {B E : Type}

/-- The argument of `new_pinned_task`; the other tasks are made by `new_task`. -/
def Operation.pinned : Operation B → Option B
  | .ioReadBang bv => some bv
  | .ioWriteBang bv => some bv
  | .ioStreamReadBang bv => some bv
  | .ioStreamWriteBang bv => some bv
  | _ => none

section
variable (nat : Native)

/-- What the procedure does with the task that it has submitted. -/
def Operation.op : Operation B → TaskOp (Datum (Operation B) E)
  | .ioSleep => .taskRunVoid nat "io-sleep"
  | .ioOpen => .taskRun nat "io-open"
  | .ioRead => .readTaskResult nat "io-read"
  | .ioWrite => .taskRun nat "io-write"
  | .ioClose => .taskRunVoid nat "io-close"
  | .ioReadBang _ => .readPinned nat "io-read!"
  | .ioWriteBang _ => .taskRun nat "io-write!"
  | .ioMkdir => .taskRunVoid nat "io-mkdir"
  | .ioRmdir => .taskRunVoid nat "io-rmdir"
  | .ioUnlink => .taskRunVoid nat "io-unlink"
  | .ioRename => .taskRunVoid nat "io-rename"
  | .ioRealpath => .taskRunStr nat "io-realpath"
  | .ioScandir => .listNames nat "io-scandir"
  | .ioStat => .ioStat nat
  | .ioWatch => .taskRun nat "io-watch"
  | .ioWatchNext => .ioWatchNext nat
  | .ioWatchClose => .taskRunVoid nat "io-watch-close"
  | .ioDnsResolve => .taskRunStr nat "io-dns-resolve"
  | .ioDnsResolveAll => .listNames nat "io-dns-resolve-all"
  | .tryConnect => .taskRun nat "io-tcp-connect"
  | .ioTcpListen => .taskRun nat "io-tcp-listen"
  | .ioTcpAccept => .taskRun nat "io-tcp-accept"
  | .ioStreamRead => .readTaskResult nat "io-stream-read"
  | .ioStreamWrite => .taskRun nat "io-stream-write"
  | .ioStreamReadBang _ => .readPinned nat "io-stream-read!"
  | .ioStreamWriteBang _ => .taskRun nat "io-stream-write!"
  | .ioStreamClose => .taskRunVoid nat "io-stream-close"
  | .ioListenerClose => .taskRunVoid nat "io-listener-close"
  | .ioSpawn => .taskRun nat "io-spawn"
  | .ioProcWait => .taskRun nat "io-proc-wait"
  | .ioProcKill => .taskRunVoid nat "io-proc-kill"
  | .ioProcClose => .taskRunVoid nat "io-proc-close"

/-- The whole procedure. -/
def Operation.prog (o : Operation B) : Prog (Operation B) E :=
  .submit o fun t => .run (o.op nat) t .ret

end

/-! ## 2. The ledger of the tasks -/

/-- A call of the runtime as an event of the task's life. -/
def Call.event : Call (Operation B) → Ledger.Event Handle (Operation B) Accessor
  | .submit o t => .acquire t o
  | .await t => .ready t
  | .access a t => .use a t
  | .free t => .release t

/-- The constructor of `Task` counts it, `new_pinned_task` locks the bytevector; `rt_task_free`
takes both back. -/
def Operation.weight [DecidableEq B] (o : Operation B) : Int × (B → Int) :=
  (1, fun bv => if o.pinned = some bv then 1 else 0)

/-- The tasks, the number of live ones and the lock count of each bytevector. -/
abbrev Tasks (B : Type) := Ledger Handle (Operation B) (Int × (B → Int))

/-- The life of the tasks; `none` is a use after the free, a second free, or a use before the
await. -/
def life [DecidableEq B] : Machine (Tasks B) (Ledger.Event Handle (Operation B) Accessor) :=
  Ledger.machine Accessor Operation.weight

/-- The calls of the runtime so far, the first one first. -/
def State.events (s : State (Datum (Operation B) E)) :
    List (Ledger.Event Handle (Operation B) Accessor) :=
  s.calls.reverse.map Call.event

def Thread.events (w : Thread (Operation B) E) :
    List (Ledger.Event Handle (Operation B) Accessor) :=
  w.calls.reverse.map Call.event

/-! ## 3. One call on a plain thread -/

/-- The events that are left when the task is at the stage. -/
def Stage.rest (t : Handle) (as : List Accessor) :
    Stage → List (Ledger.Event Handle (Operation B) Accessor)
  | .submitted => .ready t :: as.map (.use · t) ++ [.release t]
  | .awaited => as.map (.use · t) ++ [.release t]
  | .freed => []

theorem events_then (w : Thread (Operation B) E) (c : Call (Operation B))
    (es : List (Ledger.Event Handle (Operation B) Accessor)) :
    (w.call c).events ++ es = w.events ++ c.event :: es := by
  rw [Thread.events, Thread.call, List.reverse_cons, List.map_append, List.append_assoc]
  rfl

-- By induction on the program, as its steps are recorded.
theorem plain_code (nat : Native) {c : Code (Datum (Operation B) E)} {stage : Stage}
    (hc : c.Linear stage) {t : Handle} {w : Thread (Operation B) E}
    (ht : stage = .freed ∨ t ∈ w.live) :
    ∃ w' r as, c.plain nat t w = some (w', r) ∧ w'.events = w.events ++ stage.rest t as := by
  induction c generalizing stage w with
  | ret v =>
    cases stage with
    | freed => exact ⟨w, _, [], rfl, (List.append_nil _).symm⟩
    | _ => cases hc
  | raise e =>
    cases stage with
    | freed => exact ⟨w, _, [], rfl, (List.append_nil _).symm⟩
    | _ => cases hc
  | await k ih =>
    cases stage with
    | submitted =>
      have hlive : t ∈ w.live := ht.resolve_left (fun h => by cases h)
      rcases ih (nat.task t).result (hc _) (w := w.call (.await t)) (Or.inr hlive) with
        ⟨w', r, as, hrun, hevents⟩
      exact ⟨w', r, as, (if_pos hlive).trans hrun, hevents.trans (events_then w (.await t) _)⟩
    | _ => cases hc
  | access a k ih =>
    cases stage with
    | awaited =>
      have hlive : t ∈ w.live := ht.resolve_left (fun h => by cases h)
      rcases ih ((nat.task t).get a) (hc _) (w := w.call (.access a t)) (Or.inr hlive) with
        ⟨w', r, as, hrun, hevents⟩
      exact ⟨w', r, a :: as, (if_pos hlive).trans hrun, hevents.trans (events_then w (.access a t) _)⟩
    | _ => cases hc
  | free c ih =>
    cases stage with
    | awaited =>
      have hlive : t ∈ w.live := ht.resolve_left (fun h => by cases h)
      rcases ih hc (w := w.free t) (Or.inl rfl) with ⟨w', r, as, hrun, hevents⟩
      exact ⟨w', r, [], (if_pos hlive).trans hrun, hevents.trans (events_then w (.free t) _)⟩
    | _ => cases hc

/-- The calls of a procedure on a plain thread are one life of its task. -/
theorem plain_uses (nat : Native) (o : Operation B) (w : Thread (Operation B) E) :
    ∃ w' r as, (o.prog nat).plain nat w = some (w', r) ∧
      w'.events = w.events ++ Ledger.uses (.task [] w.submitted) o as := by
  rcases plain_code nat (o.op nat).linear (t := .task [] w.submitted) (w := w.submit o)
    (Or.inr List.mem_cons_self) with ⟨w', r, as, hrun, hevents⟩
  refine ⟨w', r, as, ?_, hevents.trans (events_then w (.submit o (.task [] w.submitted)) _)⟩
  rw [Operation.prog, Prog.plain, Prog.plain, hrun]
  rcases r with e | v <;> rfl

/-! ## 4. What a fiber is about to do -/

/-- Of the tasks of the fiber `f` those before the `m`-th are gone, the `m`-th is at the stage and
those behind it have not been made. -/
def Upto (L : Tasks B) (f : FutureId) (m : Nat) (st : Ledger.Stage (Operation B)) : Prop :=
  ∀ i, L.stage (.task f i) = if i < m then .gone else if i = m then st else .unborn

/-- The body uses tasks through the I/O procedures only: what `κ` does with the outcome of such a
call may be anything, an exception handler included. -/
inductive Client (nat : Native) : Body (Datum (Operation B) E) → Prop
  | ret (v : Val (Datum (Operation B) E)) : Client nat (.ret v)
  | raise (e : Val (Datum (Operation B) E)) : Client nat (.raise e)
  | async {thunk : Body (Datum (Operation B) E)}
      {k : Val (Datum (Operation B) E) → Body (Datum (Operation B) E)}
      (hthunk : Client nat thunk) (hk : ∀ v, Client nat (k v)) : Client nat (.async thunk k)
  | await {x : Val (Datum (Operation B) E)}
      {k : Outcome (Datum (Operation B) E) → Body (Datum (Operation B) E)}
      (hk : ∀ o, Client nat (k o)) : Client nat (.await x k)
  | get (x : Var) {k : Val (Datum (Operation B) E) → Body (Datum (Operation B) E)}
      (hk : ∀ v, Client nat (k v)) : Client nat (.get x k)
  | set (x : Var) {v : Val (Datum (Operation B) E)} {b : Body (Datum (Operation B) E)}
      (hb : Client nat b) : Client nat (.set x v b)
  | call (o : Operation B) {κ : Outcome (Datum (Operation B) E) → Body (Datum (Operation B) E)}
      (hκ : ∀ r, Client nat (κ r)) : Client nat ((o.prog nat).body nat κ)

/-- The stage of the task in the ledger. -/
def Stage.task (o : Operation B) : Stage → Ledger.Stage (Operation B)
  | .submitted => .held o false
  | .awaited => .held o true
  | .freed => .gone

/-- What the fiber `f`, which has submitted `n` tasks, is about to do: until it stands outside of
the procedures with all its tasks gone, each of its calls has a step in the ledger. -/
inductive Standing [DecidableEq B] (nat : Native) (f : FutureId) (n : Nat) :
    Tasks B → Body (Datum (Operation B) E) → Prop
  | outside {L : Tasks B} {b : Body (Datum (Operation B) E)} (hb : Client nat b)
      (h : Upto L f n .unborn) : Standing nat f n L b
  | call {L M : Tasks B} {c : Call (Operation B)} {i : Nat} {b : Body (Datum (Operation B) E)}
      (hkey : c.event.key = .task f i) (hstep : life.step L c.event = some M)
      (h : Standing nat f n M b) :
      Standing nat f n L (.get record fun old => .set record (.cons (.data (.call c)) old) b)
  | waiting {L : Tasks B} {t : Handle} {k : Int → Body (Datum (Operation B) E)}
      {κ : Outcome (Datum (Operation B) E) → Body (Datum (Operation B) E)}
      (hκ : ∀ o, Client nat (κ o)) (hk : ∀ r, Standing nat f n L (k r)) :
      Standing nat f n L (.await (.int t) (onResult k κ))

theorem Upto.update {L M : Tasks B} {f : FutureId} {m : Nat} {st : Ledger.Stage (Operation B)}
    (h : Upto L f m st) (st' : Ledger.Stage (Operation B))
    (hM : M.stage = Function.update L.stage (.task f m) st') : Upto M f m st' := by
  intro i
  rw [hM]
  by_cases him : i = m
  · subst him
    rw [Function.update_self, if_neg (Nat.lt_irrefl i), if_pos rfl]
  · have hne : Handle.task f i ≠ .task f m := fun heq => him (Handle.task.inj heq).2
    rw [Function.update_of_ne hne, h i, if_neg him, if_neg him]

theorem Upto.at {L : Tasks B} {f : FutureId} {m : Nat} {st : Ledger.Stage (Operation B)}
    (h : Upto L f m st) : L.stage (.task f m) = st := by
  rw [h m, if_neg (Nat.lt_irrefl m), if_pos rfl]

/-- The `m`-th task is gone, too. -/
theorem Upto.gone {L : Tasks B} {f : FutureId} {m : Nat} (h : Upto L f m .gone) :
    Upto L f (m + 1) .unborn := by
  intro i
  rw [h i]
  rcases Nat.lt_trichotomy i m with hlt | rfl | hgt
  · rw [if_pos hlt, if_pos (Nat.lt_succ_of_lt hlt)]
  · rw [if_neg (Nat.lt_irrefl i), if_pos rfl, if_pos (Nat.lt_succ_self i)]
  · rw [if_neg (by omega), if_neg (by omega), if_neg (by omega), ite_self]

section
variable [DecidableEq B]

/-- Only the tasks of the fiber matter to it. -/
theorem Standing.congr {nat : Native} {f : FutureId} {n : Nat} {L L' : Tasks B}
    {b : Body (Datum (Operation B) E)} (h : Standing nat f n L b)
    (heq : ∀ i, L'.stage (.task f i) = L.stage (.task f i)) : Standing nat f n L' b := by
  induction h generalizing L' with
  | outside hb h => exact .outside hb fun i => (heq i).trans (h i)
  | @call L M c i b hkey hstep h ih =>
    have hkeyeq : L'.stage c.event.key = L.stage c.event.key := by
      rw [hkey]
      exact heq i
    rcases Ledger.step_congr hstep hkeyeq with ⟨M', hM', hstage⟩
    refine .call hkey hM' (ih fun j => ?_)
    by_cases hj : Handle.task f j = c.event.key
    · rw [hj, hstage]
    · rw [Ledger.stage_of_ne hM' hj, Ledger.stage_of_ne hstep hj, heq j]
  | waiting hκ hk ih => exact .waiting hκ fun r => ih r heq

/-- **What a procedure does with its task** has a step in the ledger, call by call. -/
theorem standing_code {nat : Native} {f : FutureId} {m : Nat} {o : Operation B}
    {κ : Outcome (Datum (Operation B) E) → Body (Datum (Operation B) E)}
    (hκ : ∀ r, Client nat (κ r)) {c : Code (Datum (Operation B) E)} {stage : Stage}
    (hc : c.Linear stage) {L : Tasks B} (hL : Upto L f m (stage.task o)) :
    Standing nat f (m + 1) L (c.body nat (.task f m) κ) := by
  induction c generalizing stage L with
  | ret v =>
    cases stage with
    | freed => exact .outside (hκ _) hL.gone
    | _ => cases hc
  | raise e =>
    cases stage with
    | freed => exact .outside (hκ _) hL.gone
    | _ => cases hc
  | await k ih =>
    cases stage with
    | submitted =>
      refine .call rfl (Ledger.Steps.step (.ready hL.at)) (.waiting hκ fun r => ?_)
      exact ih r (hc r) (hL.update _ rfl)
    | _ => cases hc
  | access a k ih =>
    cases stage with
    | awaited => exact .call rfl (Ledger.Steps.step (.use a hL.at)) (ih _ (hc _) hL)
    | _ => cases hc
  | free c ih =>
    cases stage with
    | awaited =>
      exact .call rfl (Ledger.Steps.step (.release hL.at)) (ih hc (hL.update _ rfl))
    | _ => cases hc

/-- A body that stands outside of the procedures has settled its tasks. -/
theorem Standing.upto {nat : Native} {f : FutureId} {n : Nat} {L : Tasks B}
    {b : Body (Datum (Operation B) E)} (h : Standing nat f n L b) (hb : Client nat b) :
    Upto L f n .unborn := by
  induction h with
  | outside _ h => exact h
  | call hkey hstep h ih =>
    generalize hx : record = x at hb
    cases hb with
    | get y => exact absurd hx.symm y.2
  | waiting hκ hk ih =>
    cases hb with
    | await hb => exact ih 0 (hb (.ok (.int (.num 0))))

/-- The `await` goes on: that of a handle with an integer, the others with anything. -/
theorem Standing.resume {nat : Native} {f : FutureId} {n : Nat} {L : Tasks B}
    {x : Val (Datum (Operation B) E)}
    {k : Outcome (Datum (Operation B) E) → Body (Datum (Operation B) E)}
    (h : Standing nat f n L (.await x k)) {o : Outcome (Datum (Operation B) E)}
    (ho : ∀ t, x = .int t → ∃ r, o = .ok (.int (.num r))) : Standing nat f n L (k o) := by
  cases h with
  | outside hb h =>
    cases hb with
    | await hk => exact .outside (hk o) h
  | waiting hκ hk =>
    rcases ho _ rfl with ⟨r, rfl⟩
    exact hk r

/-- The submission of a procedure. -/
theorem Standing.submitted {nat : Native} {f : FutureId} {n : Nat} {L : Tasks B}
    {k : Val (Datum (Operation B) E) → Body (Datum (Operation B) E)}
    (h : Standing nat f n L (.submit k)) :
    Standing nat f (n + 1) L (k (.int (.task f n))) := by
  cases h with
  | outside hb h =>
    cases hb with
    | @call o κ hκ =>
      have hreturn : ∀ r, Client nat (onValue (fun v => κ (.ok v)) κ r) := by
        intro r
        rcases r with e | v
        · exact hκ _
        · exact hκ _
      have hmade := h.update (M := { stage := Function.update L.stage (.task f n) (.held o false)
                                     balance := L.balance + o.weight }) (.held o false) rfl
      exact .call rfl (Ledger.Steps.step (.acquire o h.at))
        (standing_code hreturn (o.op nat).linear hmade)

/-! ## 5. What the scheduler does with the fibers -/

/-- The running fiber is about to record the call `c`. -/
structure Writing (nat : Native) (s : State (Datum (Operation B) E))
    (h : List (Call (Operation B))) (L : Tasks B) (f : FutureId) (c : Call (Operation B))
    (b : Body (Datum (Operation B) E)) (items : List (Item (Datum (Operation B) E))) : Prop where
  pc : s.pc = .running f (.set record (.cons (.data (.call c)) (Call.list h)) b) items
  key : ∃ i, c.event.key = .task f i
  step : ∃ M, life.step L c.event = some M ∧ Standing nat f (s.submitted f) M b
  others : ∀ x ∈ Multiset.ofList (items.map Item.thread) + s.aside,
    Standing nat x.1 (s.submitted x.1) L x.2

/-- The calls recorded are `h`, the last one first, and the ledger has come to `L` by them. -/
structure Books (nat : Native) (s : State (Datum (Operation B) E))
    (h : List (Call (Operation B))) (L : Tasks B) : Prop where
  record : s.vars record = Call.list h
  run : life.run (h.reverse.map Call.event) = some L
  numbers : ∀ n, L.stage (.num n) = .unborn
  fresh : ∀ f, f ∉ s.created → ∀ i, L.stage (.task f i) = .unborn
  settled : ∀ f, (s.futures f).state ≠ none → Upto L f (s.submitted f) .unborn
  threads : (∀ x ∈ s.threads, Standing nat x.1 (s.submitted x.1) L x.2) ∨
    ∃ f c b items, Writing nat s h L f c b items

section
variable {nat : Native} {s u : State (Datum (Operation B) E)} {h : List (Call (Operation B))}
  {L : Tasks B} {fib : FutureId} {body b : Body (Datum (Operation B) E)}
  {items : List (Item (Datum (Operation B) E))}

/-- The fiber that runs goes on. -/
theorem books_goOn (hB : Books nat s h L) (hpc : u.pc = .running fib b items)
    (haside : u.aside = s.aside) (hvars : u.vars record = s.vars record)
    (hfut : u.futures = s.futures) (hcreated : u.created = s.created)
    (hsub : u.submitted = s.submitted) (hb : Standing nat fib (s.submitted fib) L b)
    (hX : ∀ x ∈ Multiset.ofList (items.map Item.thread) + s.aside,
      Standing nat x.1 (s.submitted x.1) L x.2) : Books nat u h L := by
  refine ⟨hvars.trans hB.record, hB.run, hB.numbers, ?_, ?_, Or.inl ?_⟩
  · rw [hcreated]
    exact hB.fresh
  · rw [hfut, hsub]
    exact hB.settled
  · rw [threads_running hpc, haside, hsub]
    intro x hx
    rcases Multiset.mem_cons.mp hx with rfl | hx
    · exact hb
    · exact hX x hx

/-- It records a call. -/
theorem books_write (hs : s.pool.Inv) (hB : Books nat s h L) {c : Call (Operation B)}
    (hw : Writing nat s h L fib c b items) (hpc : u.pc = .running fib b items)
    (haside : u.aside = s.aside) (hvars : u.vars record = .cons (.data (.call c)) (Call.list h))
    (hfut : u.futures = s.futures) (hcreated : u.created = s.created)
    (hsub : u.submitted = s.submitted) : ∃ M, Books nat u (c :: h) M := by
  rcases hw.step with ⟨M, hstep, hb⟩
  rcases hw.key with ⟨i, hkey⟩
  have hX : s.pool.threads = _ := threads_running hw.pc
  have hfib := hs.pending hX
  -- the tasks of the other fibers are as they were
  have hother : ∀ f, f ≠ fib → ∀ j, M.stage (.task f j) = L.stage (.task f j) := by
    intro f hf j
    apply Ledger.stage_of_ne hstep
    rw [hkey]
    exact fun heq => hf (Handle.task.inj heq).1
  refine ⟨M, hvars, ?_, ?_, ?_, ?_, Or.inl ?_⟩
  · rw [List.reverse_cons, List.map_append]
    exact life.runFrom_snoc hB.run hstep
  · intro n
    rw [Ledger.stage_of_ne hstep (by rw [hkey]; exact Handle.noConfusion), hB.numbers]
  · intro f hf j
    rw [hcreated] at hf
    rw [hother f (fun heq => hf (heq ▸ hfib.1)), hB.fresh f hf]
  · intro f hf j
    rw [hfut] at hf
    have hne : f ≠ fib := fun heq => hf (heq ▸ hfib.2)
    rw [hother f hne, hsub, hB.settled f hf]
  · rw [threads_running hpc, haside, hsub]
    intro x hx
    rcases Multiset.mem_cons.mp hx with rfl | hx
    · exact hb
    · exact (hw.others x hx).congr (hother x.1 (hs.ne_of_mem hX hx))

/-- It has submitted a task. -/
theorem books_submit (hs : s.pool.Inv) (hB : Books nat s h L)
    (hthreads : s.pool.threads =
      (fib, body) ::ₘ (Multiset.ofList (items.map Item.thread) + s.aside))
    (hpc : u.pc = .running fib b items) (haside : u.aside = s.aside)
    (hvars : u.vars record = s.vars record) (hfut : u.futures = s.futures)
    (hcreated : u.created = s.created)
    (hsub : u.submitted = Function.update s.submitted fib (s.submitted fib + 1))
    (hb : Standing nat fib (s.submitted fib + 1) L b)
    (hX : ∀ x ∈ Multiset.ofList (items.map Item.thread) + s.aside,
      Standing nat x.1 (s.submitted x.1) L x.2) : Books nat u h L := by
  have hother : ∀ f, f ≠ fib → u.submitted f = s.submitted f := by
    intro f hf
    rw [hsub, Function.update_of_ne hf]
  refine ⟨hvars.trans hB.record, hB.run, hB.numbers, ?_, fun f hf => ?_, Or.inl fun x hx => ?_⟩
  · rw [hcreated]
    exact hB.fresh
  · rw [hfut] at hf
    have hne : f ≠ fib := fun heq => hf (heq ▸ (hs.pending hthreads).2)
    rw [hother f hne]
    exact hB.settled f hf
  · rw [threads_running hpc, haside] at hx
    rcases Multiset.mem_cons.mp hx with rfl | hx
    · rw [hsub, Function.update_self]
      exact hb
    · rw [hother x.1 (hs.ne_of_mem hthreads hx)]
      exact hX x hx

/-- The fiber settles. -/
theorem books_settle (hs : s.pool.Inv) (hB : Books nat s h L)
    (hpc : s.pc = .running fib body items) (hend : Upto L fib (s.submitted fib) .unborn)
    (hX : ∀ x ∈ Multiset.ofList (items.map Item.thread) + s.aside,
      Standing nat x.1 (s.submitted x.1) L x.2) (o : Outcome (Datum (Operation B) E)) :
    Books nat { s.settle fib o with pc := .batch items } h L := by
  have hf : fib ∈ s.created := (hs.pending (threads_running hpc)).1
  refine ⟨hB.record, hB.run, hB.numbers, hB.fresh, fun f hne => ?_, Or.inl ?_⟩
  · by_cases hfib : f = fib
    · exact hfib ▸ hend
    · have hstate : (s.futures f).state ≠ none := by
        simp only [State.settle, Function.update_of_ne hfib] at hne
        exact hne
      exact hB.settled f hstate
  · intro x hx
    have haside := aside_settle hs.created hf o
    have hmem : x ∈ Multiset.ofList (items.map Item.thread) + (s.settle fib o).aside := hx
    rw [haside] at hmem
    exact hX x hmem

/-- The fiber makes a fiber, which has no tasks yet. -/
theorem books_async (hs : s.pool.Inv) (hB : Books nat s h L)
    {thunk : Body (Datum (Operation B) E)}
    {k : Val (Datum (Operation B) E) → Body (Datum (Operation B) E)}
    (hend : Upto L fib (s.submitted fib) .unborn) (hthunk : Client nat thunk)
    (hk : ∀ v, Client nat (k v))
    (hX : ∀ x ∈ Multiset.ofList (items.map Item.thread) + s.aside,
      Standing nat x.1 (s.submitted x.1) L x.2) :
    Books nat { s.enqueueReady ⟨s.spawned fib :: fib, .start thunk⟩ with
      pc := .running fib (k (.future (s.spawned fib :: fib))) items
      futures := Function.update s.futures (s.spawned fib :: fib) { state := none, waiters := [] }
      created := s.created ++ [s.spawned fib :: fib]
      spawned := Function.update s.spawned fib (s.spawned fib + 1) } h L := by
  have hnew : s.spawned fib :: fib ∉ s.created := hs.child_notMem fib
  refine ⟨hB.record, hB.run, hB.numbers, fun f hf => ?_, fun f hne => ?_, Or.inl ?_⟩
  · exact hB.fresh f fun hmem => hf (List.mem_append_left _ hmem)
  · have hstate : (Function.update s.futures (s.spawned fib :: fib)
        { state := none, waiters := [] } f).state ≠ none := hne
    have hfib : f ≠ s.spawned fib :: fib := by
      rintro rfl
      rw [Function.update_self] at hstate
      exact hstate rfl
    rw [Function.update_of_ne hfib] at hstate
    exact hB.settled f hstate
  · rw [threads_async thunk k hs]
    intro x hx
    rcases Multiset.mem_cons.mp hx with rfl | hx
    · have hzero : s.submitted (s.spawned fib :: fib) = 0 := (hs.counters _ hnew).2
      refine .outside hthunk fun i => ?_
      show L.stage _ = if i < s.submitted (s.spawned fib :: fib) then _ else _
      rw [hB.fresh _ hnew, hzero, if_neg (Nat.not_lt_zero i), ite_self]
    · rcases Multiset.mem_cons.mp hx with rfl | hx
      · exact .outside (hk _) hend
      · exact hX x hx

/-- **A step of a fiber keeps the books.** -/
theorem books_run (hs : s.pool.Inv) (hB : Books nat s h L)
    (hpc : s.pc = .running fib body items) (hrun : Run s fib items body u) :
    ∃ h' M, Books nat u h' M := by
  have hX := threads_running hpc
  rcases hB.threads with hall | ⟨f, c, b, items', hw⟩
  case inr =>
    cases hpc.symm.trans hw.pc
    cases hrun
    have hvars : Function.update s.vars record (.cons (.data (.call c)) (Call.list h)) record = _ :=
      Function.update_self ..
    exact ⟨c :: h, books_write hs hB hw rfl rfl hvars rfl rfl rfl⟩
  rw [hX] at hall
  have hfib := hall _ (Multiset.mem_cons_self _ _)
  have hrest := fun x hx => hall x (Multiset.mem_cons_of_mem hx)
  cases hrun with
  | ret v =>
    cases hfib with
    | outside _ hend => exact ⟨h, L, books_settle hs hB hpc hend hrest _⟩
  | raise e =>
    cases hfib with
    | outside _ hend => exact ⟨h, L, books_settle hs hB hpc hend hrest _⟩
  | async thunk k =>
    cases hfib with
    | outside hb hend =>
      cases hb with
      | async hthunk hk => exact ⟨h, L, books_async hs hB hend hthunk hk hrest⟩
  | @settled f o k hf ho =>
    have hb := hfib.resume (o := o) fun t heq => by cases heq
    exact ⟨h, L, books_goOn hB rfl rfl rfl rfl rfl rfl hb hrest⟩
  | @parked f k hf ho =>
    have hthreads := congrArg Pool.threads (pool_parked hs hpc hf ho)
    have houtcome := congrArg Pool.outcome (pool_parked hs hpc hf ho)
    refine ⟨h, L, hB.record, hB.run, hB.numbers, hB.fresh, fun g hg => ?_, Or.inl fun x hx => ?_⟩
    · exact hB.settled g fun heq => hg ((congrFun houtcome g).trans heq)
    · have hmem : x ∈ s.pool.threads := hthreads.subst hx
      exact hall x (hX.subst hmem)
  | @completed g r k hr =>
    have hb := hfib.resume (o := .ok (.int (.num r))) fun t _ => ⟨r, rfl⟩
    exact ⟨h, L, books_goOn hB rfl rfl rfl rfl rfl rfl hb hrest⟩
  | registered k hr =>
    refine ⟨h, L, hB.record, hB.run, hB.numbers, hB.fresh, hB.settled, Or.inl fun x hx => ?_⟩
    exact hall x (hX ▸ threads_registered hpc hx)
  | @refused x k hx =>
    have hb := hfib.resume (o := .error (notAwaitable x)) fun t heq => by
      rw [heq] at hx
      cases hx
    exact ⟨h, L, books_goOn hB rfl rfl rfl rfl rfl rfl hb hrest⟩
  | submit k =>
    have hX' : s.pool.threads = _ := hX
    exact ⟨h, L, books_submit hs hB hX' rfl rfl rfl rfl rfl rfl hfib.submitted hrest⟩
  | get x k =>
    cases hfib with
    | outside hb hend =>
      cases hb with
      | get y hk => exact ⟨h, L, books_goOn hB rfl rfl rfl rfl rfl rfl (.outside (hk _) hend) hrest⟩
    | @call _ M c i b hkey hstep hb =>
      -- what the fiber has read is what it will write back, with the call in front
      refine ⟨h, L, hB.record, hB.run, hB.numbers, hB.fresh, hB.settled,
        Or.inr ⟨fib, c, b, items, ?_, ⟨i, hkey⟩, ⟨M, hstep, hb⟩, hrest⟩⟩
      rw [← hB.record]
  | set x v k =>
    cases hfib with
    | outside hb hend =>
      cases hb with
      | set y hb =>
        have hvars : Function.update s.vars y v record = s.vars record :=
          Function.update_of_ne y.2.symm _ _
        exact ⟨h, L, books_goOn hB rfl rfl hvars rfl rfl rfl (.outside hb hend) hrest⟩

/-- No fiber runs, and at most one is handed the result of a task. -/
theorem books_idle (hB : Books nat s h L) (hidle : ∀ fib body items, s.pc ≠ .running fib body items)
    (hvars : u.vars = s.vars) (hfut : u.futures = s.futures) (hcreated : u.created = s.created)
    (hsub : u.submitted = s.submitted)
    (hthreads : u.threads = s.threads ∨ ∃ t r f k X, s.threads = (f, .await (.int t) k) ::ₘ X ∧
      u.threads = (f, k (.ok (.int (.num r)))) ::ₘ X) : Books nat u h L := by
  have hall : ∀ x ∈ s.threads, Standing nat x.1 (s.submitted x.1) L x.2 := by
    rcases hB.threads with hall | ⟨f, c, b, items, hw⟩
    · exact hall
    · exact absurd hw.pc (hidle _ _ _)
  refine ⟨hvars ▸ hB.record, hB.run, hB.numbers, hcreated ▸ hB.fresh, ?_, Or.inl ?_⟩
  · rw [hfut, hsub]
    exact hB.settled
  · rw [hsub]
    rcases hthreads with heq | ⟨t, r, f, k, X, hX, hu⟩
    · exact heq ▸ hall
    · intro x hx
      rw [hX] at hall
      rw [hu] at hx
      rcases Multiset.mem_cons.mp hx with rfl | hx
      · exact (hall _ (Multiset.mem_cons_self _ _)).resume fun t _ => ⟨r, rfl⟩
      · exact hall x (Multiset.mem_cons_of_mem hx)

/-- **The books are kept** by every step of the scheduler and of the loop thread. -/
theorem books_step {a : Action} (hs : s.Inv nat.result) (hB : Books nat s h L)
    (hstep : step nat.result s a = some u) : ∃ h' M, Books nat u h' M := by
  have hplace : ∀ (pc : Pc (Datum (Operation B) E)) (ready : List (Item (Datum (Operation B) E))),
      (∀ fib body items, s.pc ≠ .running fib body items) →
      Multiset.ofList pc.threads + Multiset.ofList (ready.map Item.thread) =
        Multiset.ofList s.pc.threads + Multiset.ofList (s.ready.map Item.thread) →
      ∃ h' M, Books nat { s with pc := pc, ready := ready } h' M := by
    intro pc ready hidle heq
    have hthreads := congrArg Pool.threads (pool_place pc ready heq)
    exact ⟨h, L, books_idle hB hidle rfl rfl rfl rfl (Or.inl hthreads)⟩
  have hpop : ∀ (t : Handle) (cq : List Handle), s.pc.threads = [] →
      (∀ fib body items, s.pc ≠ .running fib body items) →
      ∃ h' M, Books nat { { s with cq := cq }.deliverOne t (nat.result t) with pc := .poll }
        h' M := by
    intro t cq hpc hidle
    rcases deliverOne_frame { s with cq := cq } t (nat.result t) with ⟨hfut, hcreated, hvars, hsub⟩
    refine ⟨h, L, books_idle hB hidle hvars hfut hcreated hsub ?_⟩
    rcases threads_deliverOne (s := { s with cq := cq }) hpc t (nat.result t) .poll rfl with
      ⟨-, heq⟩ | ⟨w, X, hX, hu⟩
    · exact Or.inl heq
    · exact Or.inr ⟨t, _, w.fib, w.k, X, hX, hu⟩
  cases a with
  | post t =>
    rcases step_post hstep with ⟨-, rfl⟩
    refine ⟨h, L, hB.record, hB.run, hB.numbers, hB.fresh, hB.settled, ?_⟩
    rcases hB.threads with hall | ⟨f, c, b, items, hw⟩
    · exact Or.inl hall
    · exact Or.inr ⟨f, c, b, items, hw.pc, hw.key, hw.step, hw.others⟩
  | tick =>
    cases tick_cases hstep with
    | run hpc hrun => exact books_run hs.pool hB hpc hrun
    | begin hpc =>
      rcases begin_frame s _ _ with ⟨hfut, hcreated, hvars, hsub⟩
      have hthreads := congrArg Pool.threads (pool_begin hpc)
      have hidle : ∀ fib body items, s.pc ≠ .running fib body items := by
        intro fib body items heq
        cases hpc.symm.trans heq
      exact ⟨h, L, books_idle hB hidle hvars hfut hcreated hsub (Or.inl hthreads)⟩
    | popped hpc hcq => exact hpop _ _ (by rw [hpc]; rfl) (by simp [hpc])
    | polled hpc hcq => exact hpop _ _ (by rw [hpc]; rfl) (by simp [hpc])
    | top hpc =>
      refine hplace _ _ (by simp [hpc]) ?_
      rw [hpc]
      show Multiset.ofList (s.ready.reverse.map Item.thread) + 0 = 0 + _
      rw [List.map_reverse, Multiset.coe_reverse]
      exact add_comm _ _
    | batchEnd hpc => exact hplace _ s.ready (by simp [hpc]) (by rw [hpc]; rfl)
    | again hpc => exact hplace _ s.ready (by simp [hpc]) (by rw [hpc]; rfl)
    | wait hpc => exact hplace _ s.ready (by simp [hpc]) (by rw [hpc]; rfl)
    | exit hpc => exact hplace _ s.ready (by simp [hpc]) (by rw [hpc]; rfl)
    | drained hpc => exact hplace _ s.ready (by simp [hpc]) (by rw [hpc]; rfl)

theorem books_init {root : Body (Datum (Operation B) E)} (hroot : Client nat root) :
    Books nat (machine nat.result root).init [] life.init := by
  have hupto : ∀ f, Upto (life (B := B)).init f 0 .unborn := by
    intro f i
    rw [if_neg (Nat.not_lt_zero i), ite_self]
    rfl
  refine ⟨rfl, rfl, fun _ => rfl, fun _ _ _ => rfl, fun f hf => absurd rfl hf, Or.inl ?_⟩
  intro x hx
  have hmem : x ∈ ({([], root)} : Multiset (FutureId × Body (Datum (Operation B) E))) := hx
  rw [Multiset.mem_singleton.mp hmem]
  exact .outside hroot (hupto [])

-- The books are opened with the machine and kept by each step.
theorem books_reachable {root : Body (Datum (Operation B) E)} (hroot : Client nat root)
    (hs : (machine nat.result root).Reachable s) : ∃ h L, Books nat s h L := by
  refine Machine.Reachable.invariant (P := fun s => ∃ h L, Books nat s h L)
    ⟨[], life.init, books_init hroot⟩ ?_ hs
  intro s a u hs hB hstep
  rcases hB with ⟨h, L, hB⟩
  exact books_step (inv_reachable hs) hB hstep

/-! ## 6. Every task is used linearly -/

/-- The fiber `f` is in no call of a procedure: its body has ended, or what it will do next is a
client's. -/
def State.Outside (nat : Native) (s : State (Datum (Operation B) E)) (f : FutureId) : Prop :=
  (s.futures f).state ≠ none ∨ ∃ b, (f, b) ∈ s.threads ∧ Client nat b

theorem Books.upto (hB : Books nat s h L) {f : FutureId} (hf : s.Outside nat f) :
    Upto L f (s.submitted f) .unborn := by
  rcases hf with hf | ⟨b, hmem, hb⟩
  · exact hB.settled f hf
  · rcases hB.threads with hall | ⟨g, c, b', items, hw⟩
    · exact (hall _ hmem).upto hb
    · rw [threads_running hw.pc] at hmem
      rcases Multiset.mem_cons.mp hmem with heq | hmem
      · -- the fiber that is about to record a call is in it
        cases heq
        generalize hx : Async.record = x at hb
        cases hb with
        | set y => exact absurd hx.symm y.2
      · exact (hw.others _ hmem).upto hb

/-- A live task is that of a call that has not returned. -/
theorem Books.inside (hB : Books nat s h L) {t : Handle} {o : Operation B} {isReady : Bool}
    (ht : L.stage t = .held o isReady) : ∃ f i, t = .task f i ∧ ¬ s.Outside nat f := by
  cases t with
  | num n => cases (hB.numbers n).symm.trans ht
  | task f i =>
    refine ⟨f, i, rfl, fun hf => ?_⟩
    rw [hB.upto hf i] at ht
    split at ht
    · cases ht
    · rw [ite_self] at ht
      cases ht

theorem sum_weight (H : Multiset (Handle × Operation B)) :
    (H.map fun x => Operation.weight x.2).sum.1 = H.card ∧
      ∀ bv, (H.map fun x => Operation.weight x.2).sum.2 bv =
        H.countP fun x => x.2.pinned = some bv := by
  induction H using Multiset.induction with
  | empty => exact ⟨rfl, fun _ => rfl⟩
  | cons x H ih =>
    rw [Multiset.map_cons, Multiset.sum_cons, Multiset.card_cons]
    refine ⟨?_, fun bv => ?_⟩
    · rw [Prod.fst_add, ih.1, Nat.cast_succ, add_comm]
      rfl
    · rw [Prod.snd_add, Pi.add_apply, ih.2, Multiset.countP_cons, Nat.cast_add, add_comm,
        Nat.cast_ite]
      rfl

end

/-- **Tasks are used linearly.**  On a plain thread a call of an I/O procedure, whatever its task
completes with, comes to its end, and its calls of the runtime are one life of the task, which
leaves the counters as they were.  Under `run-async`, with any number of fibers that use tasks
through the procedures, the calls of the runtime are always steps of the ledger, each task has
had the part of its life that its stage tells, and the tasks of a fiber that is in no call are
gone; the live tasks and the locks are those of the calls that have not returned. -/
theorem tasks_linear (nat : Native) :
    (∀ (o : Operation B) (w : Thread (Operation B) E), ∃ w' r as,
      (o.prog nat).plain nat w = some (w', r) ∧
      w'.events = w.events ++ Ledger.uses (.task [] w.submitted) o as ∧
      ∀ L : Tasks B, L.stage (.task [] w.submitted) = .unborn →
        life.runFrom L (Ledger.uses (.task [] w.submitted) o as) =
          some { L with stage := Function.update L.stage (.task [] w.submitted) .gone }) ∧
    ∀ root : Body (Datum (Operation B) E), Client nat root →
      ∀ s, (machine nat.result root).Reachable s →
        ∃ L : Tasks B, life.run s.events = some L ∧
          (∀ t, (L.stage t).Events t (s.events.filter (·.key = t))) ∧
          (∀ f, s.Outside nat f → ∀ i < s.submitted f, L.stage (.task f i) = .gone) ∧
          ∃ H : Multiset (Handle × Operation B),
            (∀ x ∈ H, ∃ f i, x.1 = .task f i ∧ ¬ s.Outside nat f) ∧
            L.balance.1 = H.card ∧
            ∀ bv, L.balance.2 bv = H.countP (·.2.pinned = some bv) := by
  refine ⟨fun o w => ?_, fun root hroot s hs => ?_⟩
  · rcases plain_uses nat o w with ⟨w', r, as, hplain, hevents⟩
    exact ⟨w', r, as, hplain, hevents, fun L hL => Ledger.runFrom_uses o as hL⟩
  · rcases books_reachable hroot hs with ⟨h, L, hB⟩
    have hrun : life.run s.events = some L := by
      rw [State.events, State.calls, hB.record, recorded_list]
      exact hB.run
    rcases Ledger.holds_of_run hrun with ⟨H, hH⟩
    refine ⟨L, hrun, Ledger.events_of_run hrun, fun f hf i hi => ?_, H, fun x hx => ?_, ?_⟩
    · rw [hB.upto hf i, if_pos hi]
    · rcases (hH.mem x.1 x.2).mp hx with ⟨isReady, hheld⟩
      exact hB.inside hheld
    · rw [hH.balance]
      exact sum_weight H

end

/-- Every task fails with `UV_EBADF`. -/
def badDescriptor : Native :=
  { task := fun _ => ⟨-9, [], "", [], 0, 0, 0⟩
    errName := fun _ => "EBADF"
    errStr := fun _ => "bad file descriptor" }

/-- `io-read!` into the bytevector 7. -/
def pinnedRead : Prog (Operation Nat) Unit := (Operation.ioReadBang 7).prog badDescriptor

/-- The read raises, with its bytevector unlocked. -/
theorem tasks_linear_badDescriptor :
    ∃ s L, (machine badDescriptor.result (pinnedRead.fiber badDescriptor)).Reachable s ∧
      runAsync s = some (.reraised
        (.data (.ioError (-9) "EBADF" "io-read!" "bad file descriptor"))) ∧
      life.run s.events = some L ∧ L.stage (.task [] 0) = .gone ∧ L.balance.2 7 = 0 := by
  have hclient : Client badDescriptor (pinnedRead.fiber badDescriptor) :=
    .call (.ioReadBang 7) fun
      | .ok v => .ret v
      | .error e => .raise e
  have hend : ∃ s, (machine badDescriptor.result (pinnedRead.fiber badDescriptor)).run
      (List.replicate 10 .tick ++ [.post (.task [] 0)] ++ List.replicate 9 .tick) = some s ∧
      runAsync s = some (.reraised
        (.data (.ioError (-9) "EBADF" "io-read!" "bad file descriptor"))) ∧
      (s.futures []).state.isSome ∧ s.submitted [] = 1 ∧
      (life.run s.events).map (·.balance.2 7) = some 0 := ⟨_, rfl, rfl, rfl, rfl, rfl⟩
  rcases hend with ⟨s, hrun, hraised, hsettled, hone, hlocks⟩
  rcases (tasks_linear badDescriptor).2 _ hclient s ⟨_, hrun⟩ with ⟨L, hL, -, hgone, -⟩
  have houtside : s.Outside badDescriptor [] := Or.inl (Option.isSome_iff_ne_none.mp hsettled)
  refine ⟨s, L, ⟨_, hrun⟩, hraised, hL, hgone [] houtside 0 (by omega), ?_⟩
  rw [hL] at hlocks
  exact Option.some.inj hlocks

end ChezAsync.Async
