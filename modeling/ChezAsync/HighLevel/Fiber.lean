import Mathlib.Data.List.Basic
import Mathlib.Tactic.Common

/-!
# Fibers (`io-async.ss`)

The programs that `run-async` runs.  A fiber's body is the tree of its calls of the scheduler's
operations: each call with what the body does with the answer.  Everything between two calls is an
arbitrary function.  Futures and tasks are named by where they come from: the `n`-th future that
the fiber `f` makes is `n :: f`, the root's is `[]`.
-/

namespace ChezAsync.Async

/-! ## 1. Values -/

/-- The name of a future, which is also the name of the fiber that settles it. -/
abbrev FutureId := List Nat

/-- An exact integer, as `await` finds it: a number, or the handle of the `n`-th task that the fiber
`f` has submitted. -/
inductive Handle
  | num (n : Int)
  | task (f : FutureId) (n : Nat)
  deriving DecidableEq

/-- Scheme values, with `D` for whatever else a program computes with. -/
inductive Val (D : Type)
  | void
  | bool (b : Bool)
  | int (h : Handle)
  | data (d : D)
  | future (f : FutureId)
  | nil
  | cons (a d : Val D)
  | condition (who message : String) (irritants : Val D)
  deriving DecidableEq

variable {D : Type}

def Val.list : List (Val D) → Val D
  | [] => .nil
  | v :: vs => .cons v (Val.list vs)

/-- `await` takes futures and exact integers. -/
def Val.awaitable : Val D → Bool
  | .future _ => true
  | .int _ => true
  | _ => false

/-- The condition of `(error 'await "not awaitable" x)`. -/
def notAwaitable (x : Val D) : Val D := .condition "await" "not awaitable" (.list [x])

/-- How a computation ends: `(ok . v)` or `(err . e)`. -/
abbrev Outcome (D : Type) := Except (Val D) (Val D)

/-! ## 2. Bodies -/

/-- What a fiber does from some point on.  The answer of `await` is an outcome, since `await` may
raise and the body may catch it. -/
inductive Body (D : Type)
  | ret (v : Val D)
  | raise (e : Val D)
  | async (thunk : Body D) (k : Val D → Body D)
  | await (x : Val D) (k : Outcome D → Body D)
  /-- A call of one of the `submit-…` procedures. -/
  | submit (k : Val D → Body D)
  /-- A variable shared between the fibers. -/
  | get (x : String) (k : Val D → Body D)
  | set (x : String) (v : Val D) (k : Body D)

/-- What a body starts or goes on with at its first call. -/
inductive Body.Part : Body D → Body D → Prop
  | thunk (b : Body D) (k : Val D → Body D) : Part b (.async b k)
  | async (b : Body D) (k : Val D → Body D) (v : Val D) : Part (k v) (.async b k)
  | await (x : Val D) (k : Outcome D → Body D) (o : Outcome D) : Part (k o) (.await x k)
  | submit (k : Val D → Body D) (v : Val D) : Part (k v) (.submit k)
  | get (x : String) (k : Val D → Body D) (v : Val D) : Part (k v) (.get x k)
  | set (x : String) (v : Val D) (b : Body D) : Part b (.set x v b)

/-- Bodies are finite: from call to call they end. -/
theorem Body.part_wf : WellFounded (Body.Part (D := D)) := by
  refine ⟨fun b => ?_⟩
  induction b with
  | ret v => exact Acc.intro _ (fun _ h => by cases h)
  | raise e => exact Acc.intro _ (fun _ h => by cases h)
  -- every call is followed by parts of the body only, whatever the answer
  | async b k ihb ihk =>
    apply Acc.intro
    intro _ h
    cases h with
    | thunk => exact ihb
    | async _ _ v => exact ihk v
  | await x k ih =>
    apply Acc.intro
    intro _ h
    cases h with
    | await _ _ o => exact ih o
  | submit k ih =>
    apply Acc.intro
    intro _ h
    cases h with
    | submit _ v => exact ih v
  | get x k ih =>
    apply Acc.intro
    intro _ h
    cases h with
    | get _ _ v => exact ih v
  | set x v b ih =>
    apply Acc.intro
    intro _ h
    cases h with
    | set => exact ih

/-- `await-all`, the elements being visited from left to right. -/
def awaitAll : List (Val D) → (Except (Val D) (List (Val D)) → Body D) → Body D
  | [], k => k (.ok [])
  | x :: xs, k =>
      .await x fun
        | .error e => k (.error e)
        | .ok v => awaitAll xs fun
            | .error e => k (.error e)
            | .ok vs => k (.ok (v :: vs))

end ChezAsync.Async
