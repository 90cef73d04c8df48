import Mathlib.Logic.Function.Basic
import Mathlib.Tactic.Common
import ChezAsync.Lib.DynamicWind
import ChezAsync.Lib.Machine
import ChezAsync.HighLevel.Fiber

/-!
# Fibers by `shift` and `reset` (`io-async.ss`)

`reset*`, `shift*`, `run-step`, `park!` and `run-fiber!` on a machine with an explicit continuation:
`call/cc` captures the stack of frames and the list of winders, a jump to what it has captured goes
out of the winders of the one place and into those of the other, one after the other, `parameterize`
is a winder that swaps, and `guard` binds the handler stack, which is a parameter too.  The thunks
of a `dynamic-wind` are code like any other, also when a jump runs them: they may park, raise, and
jump elsewhere.  The scheduler is the one who starts the machine: when no step is running it begins a
fiber or resumes any continuation that was registered, in any order and any number of times.
-/

namespace ChezAsync.ShiftReset

open ChezAsync.Async (FutureId)
open DynamicWind (Cell)

/-! ## 1. Bodies, continuations and states -/

/-- The body of a fiber, `V` being the values it computes with.  A parameter of the program is given
by its number. -/
inductive Body (V : Type)
  | ret (v : V)
  | raise (e : V)
  /-- `(guard (e [(test e) (handler e)]) body)`, and `k` with its value. -/
  | guard (test : V → Bool) (handler : V → Body V) (body : Body V) (k : V → Body V)
  | parameterize (p : Nat) (v : V) (body : Body V) (k : V → Body V)
  | dynamicWind (before after body : Body V) (k : V → Body V)
  | getParam (p : Nat) (k : V → Body V)
  | setParam (p : Nat) (v : V) (k : Body V)
  /-- `(call/cc (lambda (c) body))`; a continuation is named by its number. -/
  | callcc (body : Nat → Body V) (k : V → Body V)
  | throw (c : Nat) (v : V)
  /-- `park!`, under an `await`. -/
  | park (k : V → Body V)

/-- What a step comes to: the token, `(ok . v)` or `(err . e)`. -/
inductive StepResult (V : Type)
  | suspended
  | ok (v : V)
  | err (e : V)

/-- The clauses of a `guard`: those of the fiber `f`'s code, or the `[#t (cons 'err e)]` of
`run-step`. -/
inductive Clauses (V : Type)
  | user (f : FutureId) (test : V → Bool) (handler : V → Body V)
  | runStep (f : FutureId)

inductive Value (V : Type)
  | user (v : V)
  | step (x : StepResult V)

/-- A continuation: the frames `F` of its stack and its winders. -/
structure KontOf (F : Type) where
  stack : List F
  winders : List Nat

/-- What a jump brings to the place where it ends. -/
inductive FocusOf (V F : Type)
  | value (x : Value V)
  /-- A raised object for the clauses of a `guard`; `back` is the place of the `raise`. -/
  | caught (f : Option FutureId) (e : V) (clauses : Clauses V) (back : KontOf F)
  /-- Back at the `raise`, no clause having matched. -/
  | again (f : Option FutureId) (e : V)

/-- What is still to be done with a value. -/
inductive Frame (V : Type)
  /-- The rest of the code of the fiber `f`. -/
  | bind (f : FutureId) (k : V → Body V)
  /-- A `dynamic-wind` whose `before` is running. -/
  | enter (f : FutureId) (before after body : Body V)
  /-- The exit from a `parameterize` or from the body of a `dynamic-wind`. -/
  | wind (w : Nat)
  /-- A `dynamic-wind` whose `after` is running: it returns the value of its body. -/
  | keep (v : V)
  /-- A jump that has called a thunk goes on from the winders `ws`. -/
  | jump (ws : List Nat) (k : KontOf (Frame V)) (x : FocusOf V (Frame V))
  /-- The exit from a `guard`. -/
  | guard (w : Nat) (clauses : Clauses V)
  /-- The handler that a `raise` has called, with the outer handlers bound. -/
  | raise (w : Nat)
  /-- `(cons 'ok …)` -/
  | consOk (f : FutureId)
  /-- `(let ([result …]) ((meta-prompt) result))` -/
  | result
  /-- `(handle-step fib …)`, in the `n`-th call of `run-fiber!`. -/
  | handleStep (n : Nat) (fib : Option FutureId)

abbrev Kont (V : Type) := KontOf (Frame V)

abbrev Focus (V : Type) := FocusOf V (Frame V)

structure Handler (V : Type) where
  k : Kont V
  clauses : Clauses V

/-- `#f`, or the closure that `reset*` makes. -/
inductive MetaPrompt (V : Type)
  | none
  | prompt (saved : MetaPrompt V) (k : Kont V)

/-- What a winder was made for, with the value that its `parameterize` binds. -/
inductive Kind (V : Type)
  | currentFiber (fib : Option FutureId)
  | handlers (hs : List (Handler V))
  | param (p : Nat) (v : V)
  /-- By code of the fiber `f`. -/
  | thunks (f : FutureId) (before after : Body V)

inductive Control (V : Type)
  /-- The scheduler runs. -/
  | idle
  /-- Code of the fiber `f`. -/
  | run (f : FutureId) (body : Body V)
  /-- A value goes to the innermost frame. -/
  | ret (x : Value V)
  /-- By code of the fiber `f`, or by that of the scheduler. -/
  | raise (f : Option FutureId) (e : V)
  /-- On the way to a continuation. -/
  | jump (k : Kont V) (x : Focus V)

/-- What a caller of `run-fiber!` may look at before and after. -/
structure Cells (V : Type) where
  metaPrompt : MetaPrompt V
  currentFiber : Option FutureId

/-- The record of the run: the calls of `run-fiber!` and their returns, and how the code of a fiber
came to the end of a step. -/
inductive Event (V : Type)
  | called (n : Nat) (fib : Option FutureId) (cells : Cells V)
  | parked (f : FutureId)
  | finished (f : FutureId) (v : V)
  | failed (f : FutureId) (e : V)
  | returned (n : Nat) (x : StepResult V) (cells : Cells V)

structure State (V : Type) where
  control : Control V
  stack : List (Frame V)
  winders : List Nat
  metaPrompt : MetaPrompt V
  currentFiber : Cell Nat (Option FutureId)
  /-- The stack of exception handlers. -/
  handlers : Cell Nat (List (Handler V))
  params : Nat → V
  /-- What the winders keep for the parameters of the program. -/
  saved : Nat → V
  /-- The winders that there are, by their numbers. -/
  kinds : List (Kind V)
  /-- The wakes that were registered: the fiber that each puts on the ready list and the
  continuation that it resumes. -/
  wakes : List (Option FutureId × Kont V)
  /-- The continuations that code has captured, each with its fiber. -/
  konts : List (FutureId × Kont V)
  calls : Nat
  trace : List (Event V)
  /-- The condition that is raised where `#f` is applied. -/
  notProcedure : V

variable {V : Type}

def State.cells (s : State V) : Cells V :=
  { metaPrompt := s.metaPrompt, currentFiber := s.currentFiber.value }

/-! ## 2. Winders -/

/-- The swap of a `parameterize`. -/
def State.swap (w : Nat) (s : State V) : State V :=
  match s.kinds[w]? with
  | some (.currentFiber _) => { s with currentFiber := s.currentFiber.swap w }
  | some (.handlers _) => { s with handlers := s.handlers.swap w }
  | some (.param p _) =>
      { s with
        params := Function.update s.params p (s.saved w)
        saved := Function.update s.saved w (s.params p) }
  | _ => s

/-- A new winder keeps the value that it is going to bind. -/
def State.keep (w : Nat) (kind : Kind V) (s : State V) : State V :=
  match kind with
  | .currentFiber fib => { s with currentFiber := s.currentFiber.keep w fib }
  | .handlers hs => { s with handlers := s.handlers.keep w hs }
  | .param _ v => { s with saved := Function.update s.saved w v }
  | .thunks _ _ _ => s

/-- Into the extent of a new winder, whose exit is the given frame. -/
def State.wind (kind : Kind V) (frame : Nat → Frame V) (s : State V) : State V :=
  let w := s.kinds.length
  let s := ({ s with kinds := s.kinds ++ [kind] }.keep w kind).swap w
  { s with stack := frame w :: s.stack, winders := w :: s.winders }

/-- Out of the extent of the innermost winder, to the frames `K`. -/
def State.exit (w : Nat) (K : List (Frame V)) (s : State V) : State V :=
  { s.swap w with stack := K, winders := s.winders.tail }

/-- `(k …)` -/
def State.jump (k : Kont V) (x : Focus V) (s : State V) : State V :=
  { s with control := .jump k x }

/-- At the end of a jump. -/
def State.arrive (s : State V) : Focus V → State V
  | .value x => { s with control := .ret x }
  | .caught _ e (.runStep f) _ =>
      { s with control := .ret (.step (.err e)), trace := s.trace ++ [.failed f e] }
  | .caught f e (.user f' test handler) back =>
      if test e then { s with control := .run f' (handler e) } else s.jump back (.again f e)
  | .again f e => { s with control := .raise f e }

/-- The next move of a jump.  The frames that it comes from are never returned to, so that a thunk
has the rest of the jump under it and nothing else. -/
def State.move (k : Kont V) (x : Focus V) (s : State V) : State V :=
  match DynamicWind.next s.winders k.winders with
  | none => { s with stack := k.stack, winders := k.winders }.arrive x
  | some (.leave w) =>
      let ws := s.winders.tail
      match s.kinds[w]? with
      | some (.thunks f _ after) =>
          { s with control := .run f after, stack := [.jump ws k x], winders := ws }
      | _ => { s.swap w with winders := ws }
  | some (.enter w) =>
      let ws := w :: s.winders
      match s.kinds[w]? with
      | some (.thunks f before _) =>
          { s with control := .run f before, stack := [.jump ws k x] }
      | _ => { s.swap w with winders := ws }

/-! ## 3. Conditions -/

/-- Into a `guard`: its continuation is captured, and the handler stack bound. -/
def State.guard (clauses : Clauses V) (s : State V) : State V :=
  s.wind (.handlers ({ k := ⟨s.stack, s.winders⟩, clauses } :: s.handlers.value)) (.guard · clauses)

/-- `raise`, and `raise-continuable` from a `guard` without a matching clause: the handler is called
with the outer handlers bound, and jumps to its `guard`. -/
def State.raise (f : Option FutureId) (e : V) (s : State V) : Option (State V) :=
  match s.handlers.value with
  | h :: hs =>
      let s := s.wind (.handlers hs) .raise
      some (s.jump h.k (.caught f e h.clauses ⟨s.stack, s.winders⟩))
  | [] => none

/-! ## 4. Shift and reset -/

/-- `reset*`, up to the call of its thunk. -/
def State.reset (s : State V) : State V :=
  { s with
    metaPrompt := .prompt s.metaPrompt ⟨s.stack, s.winders⟩
    stack := .result :: s.stack }

/-- `((meta-prompt) x)`, in code of the fiber `f` or of the scheduler. -/
def State.callPrompt (f : Option FutureId) (x : StepResult V) (s : State V) : State V :=
  match s.metaPrompt with
  | .prompt saved k => { s with metaPrompt := saved }.jump k (.value (.step x))
  | .none => { s with control := .raise f s.notProcedure }

/-- `shift*`: its argument is given the continuation that it has captured. -/
def State.shift (f : FutureId) (body : Kont V → State V → State V × StepResult V) (s : State V) :
    State V :=
  let (s, x) := body ⟨s.stack, s.winders⟩ s
  s.callPrompt (some f) x

/-- The call of a continuation that `shift*` has made, with `v`. -/
def State.resume (k : Kont V) (v : V) (s : State V) : State V :=
  s.reset.jump k (.value (.user v))

/-- `run-step` -/
def State.runStep (f : FutureId) (thunk : Body V) (s : State V) : State V :=
  let s := s.reset.guard (.runStep f)
  { s with stack := .consOk f :: s.stack, control := .run f thunk }

/-- `park!`; `current-fiber` is looked up, the wake that is registered closes over it. -/
def State.park (f : FutureId) (s : State V) : State V :=
  let fib := s.currentFiber.value
  s.shift f fun resumeK s =>
    ({ s with wakes := s.wakes ++ [(fib, resumeK)], trace := s.trace ++ [.parked f] }, .suspended)

/-- `run-fiber!` -/
def State.runFiber (fib : Option FutureId) (produceStep : State V → State V) (s : State V) :
    State V :=
  let s : State V := { s with
    stack := .handleStep s.calls fib :: s.stack, calls := s.calls + 1
    trace := s.trace ++ [.called s.calls fib s.cells] }
  produceStep (s.wind (.currentFiber fib) .wind)

/-! ## 5. The machine -/

/-- The next step of the code of the fiber `f`. -/
def State.runBody (f : FutureId) (s : State V) : Body V → Option (State V)
  | .ret v => some { s with control := .ret (.user v) }
  | .raise e => some { s with control := .raise f e }
  | .guard test handler body k =>
      some { { s with stack := .bind f k :: s.stack }.guard (.user f test handler) with
        control := .run f body }
  | .parameterize p v body k =>
      some { { s with stack := .bind f k :: s.stack }.wind (.param p v) .wind with
        control := .run f body }
  | .dynamicWind before after body k =>
      some { s with
        stack := .enter f before after body :: .bind f k :: s.stack, control := .run f before }
  | .getParam p k => some { s with control := .run f (k (s.params p)) }
  | .setParam p v k =>
      some { s with control := .run f k, params := Function.update s.params p v }
  | .callcc body k =>
      some { s with
        control := .run f (body s.konts.length)
        stack := .bind f k :: s.stack
        konts := s.konts ++ [(f, ⟨.bind f k :: s.stack, s.winders⟩)] }
  | .throw c v =>
      match s.konts[c]? with
      | some (_, k) => some (s.jump k (.value (.user v)))
      -- no program can name it
      | none => none
  | .park k => some ({ s with stack := .bind f k :: s.stack }.park f)

/-- A value arrives at the innermost frame. -/
def State.deliver (s : State V) (x : Value V) : Option (State V) :=
  match x, s.stack with
  | .user v, .bind f k :: K => some { s with stack := K, control := .run f (k v) }
  | .user _, .enter f before after body :: K =>
      some { { s with stack := K }.wind (.thunks f before after) .wind with
        control := .run f body }
  | .user v, .wind w :: K =>
      match s.kinds[w]? with
      | some (.thunks f _ after) =>
          some { s with
            stack := .keep v :: K, winders := s.winders.tail, control := .run f after }
      | _ => some (s.exit w K)
  | .user _, .keep v :: K => some { s with stack := K, control := .ret (.user v) }
  | .user _, .jump ws k x :: _ => some { s with winders := ws, control := .jump k x }
  | .user v, .consOk f :: K =>
      some { s with
        stack := K, control := .ret (.step (.ok v)), trace := s.trace ++ [.finished f v] }
  | _, .guard w _ :: K => some (s.exit w K)
  | .step x, .result :: K => some ({ s with stack := K }.callPrompt none x)
  | .step _, .wind w :: K => some (s.exit w K)
  | .step x, .handleStep n _ :: K =>
      some { s with
        stack := K, control := .idle, trace := s.trace ++ [.returned n x s.cells] }
  | _, _ => none

inductive Action (V : Type)
  /-- The scheduler runs the `(lambda () (run-step thunk))` of the fiber `f`. -/
  | start (f : FutureId) (thunk : Body V)
  /-- The scheduler runs what the `i`-th wake has put on the ready list. -/
  | resume (i : Nat) (v : V)
  | tick

def tick (s : State V) : Option (State V) :=
  match s.control with
  | .idle => none
  | .run f body => s.runBody f body
  | .ret x => s.deliver x
  | .raise f e => s.raise f e
  | .jump k x => some (s.move k x)

def step (s : State V) : Action V → Option (State V)
  | .start f thunk =>
      match s.control with
      | .idle => some (s.runFiber (some f) (State.runStep f thunk))
      | _ => none
  | .resume i v =>
      match s.control, s.wakes[i]? with
      | .idle, some (fib, k) => some (s.runFiber fib (State.resume k v))
      | _, _ => none
  | .tick => tick s

/-- The scheduler's thread when `scheduler-loop` is called: what its cells hold then. -/
structure Outer (V : Type) extends Cells V where
  handlers : List (Handler V)
  params : Nat → V
  notProcedure : V

def machine (outer : Outer V) : Machine (State V) (Action V) where
  init :=
    { control := .idle, stack := [], winders := [], metaPrompt := outer.metaPrompt
      currentFiber := { value := outer.currentFiber, saved := fun _ => none }
      handlers := { value := outer.handlers, saved := fun _ => [] }
      params := outer.params, saved := outer.params, kinds := []
      wakes := [], konts := [], calls := 0, trace := [], notProcedure := outer.notProcedure }
  step := step

end ChezAsync.ShiftReset
