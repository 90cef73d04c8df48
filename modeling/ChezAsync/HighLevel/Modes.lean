import Mathlib.Tactic.Common
import ChezAsync.HighLevel.Sequential
import ChezAsync.HighLevel.TaskOps

/-!
# Two modes, one API

A program that uses the I/O procedures one after the other, on a plain thread and under `run-async`.
On the thread `await-hook` is `%await`: the program is called, its guards are on the stack, and
every `task-await` returns with the result.  Under `run-async` the rest of the program is the
continuation that `park!` captures, the guards in force being part of it.
-/

namespace ChezAsync.Async

variable {R E : Type}

/-! ## 1. Programs -/

/-- The variable in which the fiber's calls of the runtime are recorded. -/
def record : String := "calls"

/-- The variables of the programs. -/
abbrev Var := { x : String // x ≠ record }

/-- Programs that call neither `async` nor `await`. -/
inductive Prog (R E : Type)
  | ret (v : Val (Datum R E))
  | raise (e : Val (Datum R E))
  | get (x : Var) (k : Val (Datum R E) → Prog R E)
  | set (x : Var) (v : Val (Datum R E)) (p : Prog R E)
  | submit (r : R) (k : Handle → Prog R E)
  | run (op : TaskOp (Datum R E)) (t : Handle) (k : Val (Datum R E) → Prog R E)
  /-- `(guard (e [(catches e) (handler e)]) body)`, and what is done with its value. -/
  | guard (body : Prog R E) (catches : Val (Datum R E) → Bool)
      (handler : Val (Datum R E) → Prog R E) (k : Val (Datum R E) → Prog R E)

/-- `io-error?` -/
def isIoError : Val (Datum R E) → Bool
  | .data (.ioError ..) => true
  | _ => false

/-! ## 2. On a plain thread -/

/-- What a thread has made of its surroundings. -/
structure Thread (R E : Type) where
  vars : String → Val (Datum R E)
  submitted : Nat
  /-- The tasks that it has submitted and not freed. -/
  live : List Handle
  /-- Its calls of the runtime, the last one first. -/
  calls : List (Call R)

def Thread.init : Thread R E :=
  { vars := fun _ => .void, submitted := 0, live := [], calls := [] }

def Thread.call (w : Thread R E) (c : Call R) : Thread R E := { w with calls := c :: w.calls }

def Thread.submit (w : Thread R E) (r : R) : Thread R E :=
  { w.call (.submit r (.task [] w.submitted)) with
    submitted := w.submitted + 1
    live := .task [] w.submitted :: w.live }

def Thread.free (w : Thread R E) (t : Handle) : Thread R E :=
  { w.call (.free t) with live := w.live.filter (· ≠ t) }

section
variable (nat : Native)

/-- `none` where the runtime is handed a task that does not exist or has been freed. -/
def Code.plain (t : Handle) :
    Code (Datum R E) → Thread R E → Option (Thread R E × Outcome (Datum R E))
  | .ret v, w => some (w, .ok v)
  | .raise e, w => some (w, .error e)
  | .await k, w =>
      if t ∈ w.live then (k (nat.task t).result).plain t (w.call (.await t)) else none
  | .access a k, w =>
      if t ∈ w.live then (k ((nat.task t).get a)).plain t (w.call (.access a t)) else none
  | .free c, w => if t ∈ w.live then c.plain t (w.free t) else none

/-- `k` is called with the value that is returned; an exception is not. -/
def onReturn (k : Val (Datum R E) → Thread R E → Option (Thread R E × Outcome (Datum R E))) :
    Option (Thread R E × Outcome (Datum R E)) → Option (Thread R E × Outcome (Datum R E))
  | none => none
  | some (w, .ok v) => k v w
  | some (w, .error e) => some (w, .error e)

def Prog.plain : Prog R E → Thread R E → Option (Thread R E × Outcome (Datum R E))
  | .ret v, w => some (w, .ok v)
  | .raise e, w => some (w, .error e)
  | .get x k, w => (k (w.vars x)).plain w
  | .set x v p, w => p.plain { w with vars := Function.update w.vars x v }
  | .submit r k, w => (k (.task [] w.submitted)).plain (w.submit r)
  | .run op t k, w => onReturn (fun v => (k v).plain) (op.code.plain nat t w)
  | .guard body catches handler k, w =>
      match body.plain w with
      | none => none
      | some (w, .ok v) => (k v).plain w
      -- the handler runs outside the guard
      | some (w, .error e) =>
          if catches e then onReturn (fun v => (k v).plain) ((handler e).plain w)
          else some (w, .error e)

/-! ## 3. Under `run-async` -/

def Body.recording (c : Call R) (b : Body (Datum R E)) : Body (Datum R E) :=
  .get record fun old => .set record (.cons (.data (.call c)) old) b

/-- A value goes to `k`, an exception to the guards of the continuation `κ`. -/
def onValue {D : Type} (k : Val D → Body D) (κ : Outcome D → Body D) : Outcome D → Body D
  | .ok v => k v
  | .error e => κ (.error e)

/-- An exception that the guard catches goes to its handler. -/
def onGuard {D : Type} (catches : Val D → Bool) (handler k : Val D → Body D)
    (κ : Outcome D → Body D) : Outcome D → Body D
  | .ok v => k v
  | .error e => if catches e then handler e else κ (.error e)

/-- `k` goes on with the result of a task; the scheduler answers with nothing else. -/
def onResult {D : Type} (k : Int → Body D) (κ : Outcome D → Body D) : Outcome D → Body D
  | .ok (.int (.num r)) => k r
  | o => κ o

/-- `k` goes on with the handle of a new task; `submit` answers with nothing else. -/
def onHandle {D : Type} (k : Handle → Body D) (κ : Outcome D → Body D) : Val D → Body D
  | .int t => k t
  | v => κ (.ok v)

/-- `κ` is the continuation of the operation. -/
def Code.body (t : Handle) :
    Code (Datum R E) → (Outcome (Datum R E) → Body (Datum R E)) → Body (Datum R E)
  | .ret v, κ => κ (.ok v)
  | .raise e, κ => κ (.error e)
  | .await k, κ => .recording (.await t) (.await (.int t) (onResult (fun r => (k r).body t κ) κ))
  | .access a k, κ => .recording (.access a t) ((k ((nat.task t).get a)).body t κ)
  | .free c, κ => .recording (.free t) (c.body t κ)

def Prog.body :
    Prog R E → (Outcome (Datum R E) → Body (Datum R E)) → Body (Datum R E)
  | .ret v, κ => κ (.ok v)
  | .raise e, κ => κ (.error e)
  | .get x k, κ => .get x fun v => (k v).body κ
  | .set x v p, κ => .set x v (p.body κ)
  | .submit r k, κ => .submit (onHandle (fun t => .recording (.submit r t) ((k t).body κ)) κ)
  | .run op t k, κ => op.code.body nat t (onValue (fun v => (k v).body κ) κ)
  | .guard body catches handler k, κ =>
      body.body (onGuard catches (fun e => (handler e).body (onValue (fun v => (k v).body κ) κ))
        (fun v => (k v).body κ) κ)

/-- The root fiber. -/
def Prog.fiber (p : Prog R E) : Body (Datum R E) :=
  p.body nat fun
    | .ok v => .ret v
    | .error e => .raise e

def Native.result (t : Handle) : Int := (nat.task t).result

end

/-- The recorded calls, read back. -/
def recorded : Val (Datum R E) → List (Call R)
  | .cons (.data (.call c)) v => c :: recorded v
  | _ => []

def State.calls (s : State (Datum R E)) : List (Call R) := recorded (s.vars record)

/-! ## 4. The record -/

def Call.list : List (Call R) → Val (Datum R E)
  | [] => .void
  | c :: cs => .cons (.data (.call c)) (Call.list cs)

theorem recorded_list (cs : List (Call R)) : recorded (Call.list (E := E) cs) = cs := by
  induction cs with
  | nil => rfl
  | cons c cs ih => exact congrArg (c :: ·) ih

/-- The variables of the fiber that does what the thread does. -/
def Thread.store (w : Thread R E) : String → Val (Datum R E) :=
  Function.update w.vars record (Call.list w.calls)

def Thread.solo (w : Thread R E) : Solo (Datum R E) :=
  { vars := w.store, submitted := w.submitted, unawaited := w.live }

theorem solo_init : (Thread.init : Thread R E).solo = Solo.init := by
  show Solo.mk (Function.update (fun _ => .void) record .void) 0 [] = _
  rw [Function.update_eq_self_iff.mpr rfl]
  rfl

theorem store_var (w : Thread R E) (x : Var) : w.store x = w.vars x :=
  Function.update_of_ne x.2 _ _

theorem store_set (w : Thread R E) (x : Var) (v : Val (Datum R E)) :
    Function.update w.store x v =
      { w with vars := Function.update w.vars x v : Thread R E }.store :=
  Function.update_comm x.2.symm _ _ _

theorem store_call (w : Thread R E) (c : Call R) :
    Function.update w.store record (.cons (.data (.call c)) (w.store record)) =
      (w.call c).store := by
  show Function.update (Function.update w.vars record _) record _ = _
  rw [Function.update_idem, Thread.store, Function.update_self]
  rfl

section
variable {nat : Native} {res : Handle → Int}

theorem solo_recording (c : Call R) (b : Body (Datum R E)) (w : Thread R E)
    {l : Solo (Datum R E)} (hl : l.vars = w.store) :
    (Body.recording c b).solo res l = b.solo res { l with vars := (w.call c).store } := by
  show b.solo res { l with vars := Function.update l.vars record _ } = _
  rw [hl, store_call]

/-! ## 5. An operation in both modes -/

/-- What the fiber has made when the thread has made `w` and uses the task `t`. -/
def Stage.solo (w : Thread R E) (t : Handle) : Stage → Solo (Datum R E)
  | .awaited => { w.solo with unawaited := w.live.filter (· ≠ t) }
  | _ => w.solo

theorem solo_code {c : Code (Datum R E)} {stage : Stage} (hc : c.Linear stage) {t : Handle}
    {w w' : Thread R E} {o : Outcome (Datum R E)} (hplain : c.plain nat t w = some (w', o))
    (κ : Outcome (Datum R E) → Body (Datum R E)) :
    (c.body nat t κ).solo nat.result (stage.solo w t) = (κ o).solo nat.result w'.solo := by
  induction c generalizing stage w with
  | ret v =>
    cases hplain
    cases stage with
    | freed => rfl
    | _ => cases hc
  | raise e =>
    cases hplain
    cases stage with
    | freed => rfl
    | _ => cases hc
  | await k ih =>
    cases stage with
    | submitted =>
      simp only [Code.plain, Option.ite_none_right_eq_some] at hplain
      rw [← ih _ (hc _) hplain.2]
      exact (solo_recording _ _ w rfl).trans (if_pos hplain.1)
    | _ => cases hc
  | access a k ih =>
    cases stage with
    | awaited =>
      simp only [Code.plain, Option.ite_none_right_eq_some] at hplain
      rw [← ih _ (hc _) hplain.2]
      exact solo_recording _ _ w rfl
    | _ => cases hc
  | free c ih =>
    cases stage with
    | awaited =>
      simp only [Code.plain, Option.ite_none_right_eq_some] at hplain
      rw [← ih hc hplain.2]
      exact solo_recording _ _ w rfl
    | _ => cases hc

/-! ## 6. A program in both modes -/

theorem solo_prog {p : Prog R E} {w w' : Thread R E} {o : Outcome (Datum R E)}
    (hplain : p.plain nat w = some (w', o)) (κ : Outcome (Datum R E) → Body (Datum R E)) :
    (p.body nat κ).solo nat.result w.solo = (κ o).solo nat.result w'.solo := by
  induction p generalizing w w' o κ with
  | ret v =>
    cases hplain
    rfl
  | raise e =>
    cases hplain
    rfl
  | get x k ih =>
    show ((k (w.store x)).body nat κ).solo nat.result w.solo = _
    rw [store_var]
    exact ih _ hplain κ
  | set x v p ih =>
    rw [← ih hplain κ]
    show (p.body nat κ).solo nat.result { w.solo with vars := Function.update w.store x v } = _
    rw [store_set]
    rfl
  | submit r k ih =>
    rw [← ih _ hplain κ]
    exact solo_recording _ _ w rfl
  | run op t k ih =>
    rcases hop : op.code.plain nat t w with _ | ⟨w₁, e | v⟩
    · simp only [Prog.plain, hop, onReturn] at hplain
      cases hplain
    · simp only [Prog.plain, hop, onReturn] at hplain
      cases hplain
      exact solo_code op.linear hop _
    · simp only [Prog.plain, hop, onReturn] at hplain
      exact (solo_code op.linear hop _).trans (ih v hplain κ)
  | guard body catches handler k ihbody ihhandler ihk =>
    rcases hbody : body.plain nat w with _ | ⟨w₁, e | v⟩
    · simp only [Prog.plain, hbody] at hplain
      cases hplain
    · simp only [Prog.plain, hbody] at hplain
      refine (ihbody hbody _).trans ?_
      -- the exception comes to the guard, which is part of the continuation
      split at hplain
      case isTrue he =>
        rw [onGuard, if_pos he]
        rcases hhandler : (handler e).plain nat w₁ with _ | ⟨w₂, e' | v⟩
        · rw [hhandler] at hplain
          cases hplain
        · rw [hhandler] at hplain
          cases hplain
          exact ihhandler e hhandler _
        · rw [hhandler] at hplain
          exact (ihhandler e hhandler _).trans (ihk v hplain κ)
      case isFalse he =>
        cases hplain
        rw [onGuard, if_neg he]
    · simp only [Prog.plain, hbody] at hplain
      exact (ihbody hbody _).trans (ihk v hplain κ)

/-! ## 7. Programs of I/O procedures -/

/-- Every task goes at once to the operation that owns it. -/
inductive Prog.Owned : Prog R E → Prop
  | ret (v : Val (Datum R E)) : Owned (.ret v)
  | raise (e : Val (Datum R E)) : Owned (.raise e)
  | get {x : Var} {k : Val (Datum R E) → Prog R E} (hk : ∀ v, (k v).Owned) : Owned (.get x k)
  | set {x : Var} {v : Val (Datum R E)} {p : Prog R E} (hp : p.Owned) : Owned (.set x v p)
  | call {r : R} {op : TaskOp (Datum R E)} {k : Val (Datum R E) → Prog R E}
      (hk : ∀ v, (k v).Owned) : Owned (.submit r fun t => .run op t k)
  | guard {body : Prog R E} {catches : Val (Datum R E) → Bool}
      {handler k : Val (Datum R E) → Prog R E} (hbody : body.Owned)
      (hhandler : ∀ e, (handler e).Owned) (hk : ∀ v, (k v).Owned) :
      Owned (.guard body catches handler k)

theorem exists_plain_code {c : Code (Datum R E)} {stage : Stage} (hc : c.Linear stage)
    {t : Handle} {w : Thread R E} (ht : stage = .freed ∨ t ∈ w.live) :
    ∃ fin, c.plain nat t w = some fin := by
  induction c generalizing stage w with
  | ret v => exact ⟨_, rfl⟩
  | raise e => exact ⟨_, rfl⟩
  | await k ih =>
    cases stage with
    | submitted =>
      have hlive : t ∈ w.live := ht.resolve_left (fun h => by cases h)
      rcases ih (nat.task t).result (hc _) (w := w.call (.await t)) (Or.inr hlive) with ⟨fin, hfin⟩
      exact ⟨fin, (if_pos hlive).trans hfin⟩
    | _ => cases hc
  | access a k ih =>
    cases stage with
    | awaited =>
      have hlive : t ∈ w.live := ht.resolve_left (fun h => by cases h)
      rcases ih ((nat.task t).get a) (hc _) (w := w.call (.access a t)) (Or.inr hlive) with
        ⟨fin, hfin⟩
      exact ⟨fin, (if_pos hlive).trans hfin⟩
    | _ => cases hc
  | free c ih =>
    cases stage with
    | awaited =>
      have hlive : t ∈ w.live := ht.resolve_left (fun h => by cases h)
      rcases ih hc (w := w.free t) (Or.inl rfl) with ⟨fin, hfin⟩
      exact ⟨fin, (if_pos hlive).trans hfin⟩
    | _ => cases hc

/-- Such a program hands the runtime no task that it should not. -/
theorem exists_plain {p : Prog R E} (hp : p.Owned) (w : Thread R E) :
    ∃ fin, p.plain nat w = some fin := by
  induction hp generalizing w with
  | ret v => exact ⟨_, rfl⟩
  | raise e => exact ⟨_, rfl⟩
  | get hk ih => exact ih _ w
  | set hp ih => exact ih _
  | @call r op k hk ih =>
    have hlive : .task [] w.submitted ∈ (w.submit r).live := List.mem_cons_self
    have hcode : ∃ fin, op.code.plain nat (.task [] w.submitted) (w.submit r) = some fin :=
      exists_plain_code op.linear (Or.inr hlive)
    rcases hcode with ⟨⟨w₁, e | v⟩, hop⟩
    · refine ⟨(w₁, .error e), ?_⟩
      simp only [Prog.plain, hop, onReturn]
    · rcases ih v w₁ with ⟨fin, hfin⟩
      refine ⟨fin, ?_⟩
      simp only [Prog.plain, hop, onReturn]
      exact hfin
  | @guard body catches handler k hbody hhandler hk ihbody ihhandler ihk =>
    rcases ihbody w with ⟨⟨w₁, e | v⟩, hb⟩
    · by_cases he : catches e = true
      · rcases ihhandler e w₁ with ⟨⟨w₂, e' | v⟩, hh⟩
        · refine ⟨(w₂, .error e'), ?_⟩
          simp only [Prog.plain, hb, if_pos he, hh, onReturn]
        · rcases ihk v w₂ with ⟨fin, hfin⟩
          refine ⟨fin, ?_⟩
          simp only [Prog.plain, hb, if_pos he, hh, onReturn]
          exact hfin
      · refine ⟨(w₁, .error e), ?_⟩
        simp only [Prog.plain, hb, if_neg he]
    · rcases ihk v w₁ with ⟨fin, hfin⟩
      refine ⟨fin, ?_⟩
      simp only [Prog.plain, hb]
      exact hfin

end

/-! ## 8. Both modes -/

/-- **Blocking mode and async mode agree.**  What a program comes to on a plain thread, where no
task is used that does not exist, it comes to under `run-async`: every run can be taken to its
end, whatever the order of the completions, and at its end `run-async` has returned the thread's
value, or raised the object that the thread has raised, after the same calls of the runtime.  A
program of I/O procedures has a run on a plain thread. -/
theorem modes_agree (nat : Native) (p : Prog R E) :
    (p.Owned → ∃ fin, p.plain nat Thread.init = some fin) ∧
    ∀ w o, p.plain nat Thread.init = some (w, o) →
      (∀ s, (machine nat.result (p.fiber nat)).Reachable s →
        ∃ as t, (machine nat.result (p.fiber nat)).runFrom s as = some t ∧
          (machine nat.result (p.fiber nat)).Halted t) ∧
      ∀ s, (machine nat.result (p.fiber nat)).Reachable s →
        (machine nat.result (p.fiber nat)).Halted s →
        runAsync s = some (.of o) ∧ s.calls = w.calls := by
  refine ⟨fun hp => exists_plain hp Thread.init, fun w o hplain => ⟨?_, ?_⟩⟩
  · intro s hs
    rcases exists_stopped (p.fiber nat) (fun _ => True) (inv_reachable hs) with
      ⟨as, t, -, hrun, -, hstop⟩
    exact ⟨as, t, hrun, fun a => hstop a trivial⟩
  · intro s hs hhalt
    have hroot : (p.fiber nat).solo nat.result Solo.init = some (w.solo, o) := by
      rw [← solo_init (R := R) (E := E), Prog.fiber, solo_prog hplain]
      rcases o with e | v <;> rfl
    rcases runAsync_of_solo hroot hs hhalt with ⟨hresult, hvars⟩
    refine ⟨hresult, ?_⟩
    have hrecord : s.vars record = Call.list w.calls := by
      rw [hvars]
      exact Function.update_self record _ w.vars
    rw [State.calls, hrecord, recorded_list]

/-- The first task fails with `UV_ENOENT`, the second gives a path, the third two bytes. -/
def missingFile : Native :=
  { task := fun
      | .task [] 0 => ⟨-2, [], "", [], 0, 0, 0⟩
      | .task [] 1 => ⟨0, [], "/srv/default", [], 0, 0, 0⟩
      | _ => ⟨2, [104, 105], "", [], 0, 0, 0⟩
    errName := fun _ => "ENOENT"
    errStr := fun _ => "no such file or directory" }

def io (r : String) (op : TaskOp (Datum String Unit)) : Prog String Unit :=
  .submit r fun t => .run op t .ret

/-- `io-open` fails; its guard resolves another path and lets the program go on, whose next error
is not caught. -/
def openOrResolve : Prog String Unit :=
  .guard (io "open" (.taskRun missingFile "io-open")) isIoError
    (fun _ => io "realpath" (.taskRunStr missingFile "io-realpath"))
    fun path => .submit "read" fun t => .run (.readTaskResult missingFile "io-read") t fun bytes =>
      .raise (.cons path bytes)

theorem modes_agree_openOrResolve :
    ∃ s, (machine missingFile.result (openOrResolve.fiber missingFile)).Reachable s ∧
      runAsync s = some (.reraised
        (.cons (.data (.string "/srv/default")) (.data (.bytevector [104, 105])))) := by
  have hplain : openOrResolve.plain missingFile Thread.init = some _ := rfl
  rcases (modes_agree missingFile openOrResolve).2 _ _ hplain with ⟨hend, hagree⟩
  rcases hend _ (Machine.reachable_init _) with ⟨as, s, hrun, hhalt⟩
  have hs := (Machine.reachable_init _).runFrom hrun
  exact ⟨s, hs, (hagree s hs hhalt).1⟩

end ChezAsync.Async
