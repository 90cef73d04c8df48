import Mathlib.Logic.Function.Basic
import Mathlib.Data.List.Nodup
import Mathlib.Data.List.Perm.Basic
import Mathlib.Tactic.Common
import ChezAsync.Lib.Machine
import ChezAsync.Runtime.Task

/-!
# Listeners and the graceful shutdown (`runtime.cpp`, `net.hpp`)

Any number of `Listener` objects with their backlogs of accepted streams and parked accepts, the
registry `listeners_`, the two paths that close a listener (`ListenerClose` and the signal
handler), and the asynchronous destruction.  Scheme holds a listener as a raw address, so an
address may be dispatched on when its object is gone, or when the allocator has reused it.
-/

namespace ChezAsync.Accept

/-! ## 1. The machine -/

/-- The address of a `Listener`, as Scheme sees it. -/
abbrev Addr := Nat

/-- The address of a connected `Stream`. -/
abbrev StreamId := Nat

structure Listener where
  /-- Ready connections awaiting an accept task. -/
  accepted : List StreamId
  /-- Accept tasks awaiting a connection. -/
  pendingAccepts : List TaskId
  handle : LoopHandle
  deriving DecidableEq

abbrev Heap := Addr → Option Listener

/-- There is a listener at `l`, and its close has not begun. -/
def Heap.Open (heap : Heap) (l : Addr) : Prop :=
  ∃ x, heap l = some x ∧ x.handle.state = .live

/-- The accept `t` is parked on the listener at `l`. -/
def Heap.Pending (heap : Heap) (t : TaskId) (l : Addr) : Prop :=
  ∃ x, heap l = some x ∧ t ∈ x.pendingAccepts

theorem open_update (heap : Heap) (l l' : Addr) (x : Listener) :
    Heap.Open (Function.update heap l (some x)) l' ↔
      if l' = l then x.handle.state = .live else heap.Open l' := by
  by_cases h : l' = l
  · simp [Heap.Open, h]
  · simp [Heap.Open, h]

theorem open_update_none (heap : Heap) (l l' : Addr) :
    Heap.Open (Function.update heap l none) l' ↔ l' ≠ l ∧ heap.Open l' := by
  by_cases h : l' = l
  · simp [Heap.Open, h]
  · simp [Heap.Open, h]

theorem pending_update (heap : Heap) (t : TaskId) (l l' : Addr) (x : Listener) :
    Heap.Pending (Function.update heap l (some x)) t l' ↔
      if l' = l then t ∈ x.pendingAccepts else heap.Pending t l' := by
  by_cases h : l' = l
  · simp [Heap.Pending, h]
  · simp [Heap.Pending, h]

theorem pending_update_none (heap : Heap) (t : TaskId) (l l' : Addr) :
    Heap.Pending (Function.update heap l none) t l' ↔ l' ≠ l ∧ heap.Pending t l' := by
  by_cases h : l' = l
  · simp [Heap.Pending, h]
  · simp [Heap.Pending, h]

theorem Heap.open_iff {heap : Heap} {l : Addr} {x : Listener} (hx : heap l = some x) :
    heap.Open l ↔ x.handle.state = .live := by
  simp [Heap.Open, hx]

theorem Heap.pending_iff {heap : Heap} {t : TaskId} {l : Addr} {x : Listener}
    (hx : heap l = some x) : heap.Pending t l ↔ t ∈ x.pendingAccepts := by
  simp [Heap.Pending, hx]

structure State where
  heap : Heap
  /-- The registry `listeners_`. -/
  listeners : List Addr
  shutdownSignaled : Bool
  shutdownSignum : Int
  /-- `_Exit` has been called. -/
  exited : Bool
  completed : Completions
  -- The record of the run: addresses handed out by a successful listen, dispatched tasks, the
  -- accepts among them, accepts whose dispatch read a destroyed listener, connections made, and
  -- connections closed before anybody accepted them.
  issued : List Addr
  tasks : List TaskId
  accepts : List (TaskId × Addr)
  misread : List TaskId
  streams : List StreamId
  dropped : List StreamId

inductive Action
  /-- `l` is what `new Listener()` returns, `rc` what bind and listen make of it. -/
  | tcpListen (t : TaskId) (l : Addr) (rc : Int)
  /-- `on_connection` with its status; `s` is what `new Stream()` returns. -/
  | onConnection (l : Addr) (status : Int) (s : StreamId) (acceptRc : Int)
  | tcpAccept (t : TaskId) (l : Addr)
  | listenerClose (t : TaskId) (l : Addr)
  | onClosed (l : Addr)
  /-- A signal, with the order in which the handler meets the registry. -/
  | onSignal (signum : Int) (order : List Addr)
  deriving DecidableEq

def newListener : Listener :=
  { accepted := [], pendingAccepts := [], handle := { state := .live, closeTask := none } }

/-- Dispatch of `TcpListen`. -/
def tcpListen (s : State) (t : TaskId) (l : Addr) (rc : Int) : State :=
  if rc < 0 then
    { s with
      heap := Function.update s.heap l
        (some { newListener with handle := newListener.handle.close none })
      completed := s.completed ++ [(t, rc)] }
  else
    { s with
      heap := Function.update s.heap l (some newListener)
      listeners := l :: s.listeners
      completed := s.completed ++ [(t, (l : Int))]
      issued := l :: s.issued }

/-- `on_connection`, on the listener `x` at `l`. -/
def onConnection (s : State) (l : Addr) (x : Listener) (status : Int) (c : StreamId)
    (acceptRc : Int) : State :=
  if status < 0 then s
  else
    let s := { s with streams := c :: s.streams }
    if acceptRc ≠ 0 then { s with dropped := c :: s.dropped }
    else
      match x.pendingAccepts with
      | t :: ts =>
          { s with
            heap := Function.update s.heap l (some { x with pendingAccepts := ts })
            completed := s.completed ++ [(t, (c : Int))] }
      | [] =>
          { s with heap := Function.update s.heap l (some { x with accepted := x.accepted ++ [c] }) }

/-- Dispatch of `TcpAccept`. -/
def tcpAccept (s : State) (t : TaskId) (l : Addr) : State :=
  match s.heap l with
  | none => { s with misread := s.misread ++ [t] }
  | some x =>
      match x.accepted with
      | c :: cs =>
          { s with
            heap := Function.update s.heap l (some { x with accepted := cs })
            completed := s.completed ++ [(t, (c : Int))] }
      | [] =>
          { s with
            heap := Function.update s.heap l
              (some { x with pendingAccepts := x.pendingAccepts ++ [t] }) }

/-- `abort_listener`. -/
def abortListener (s : State) (l : Addr) (closeTask : Option TaskId) : State :=
  match s.heap l with
  | none => s
  | some x =>
      { s with
        heap := Function.update s.heap l
          (some { accepted := [], pendingAccepts := [], handle := x.handle.close closeTask })
        completed := s.completed ++ x.pendingAccepts.map fun p => (p, UV_ECANCELED)
        dropped := x.accepted ++ s.dropped }

/-- Dispatch of `ListenerClose`. -/
def listenerClose (s : State) (t : TaskId) (l : Addr) : State :=
  if l ∈ s.listeners then
    abortListener { s with listeners := s.listeners.erase l } l (some t)
  else { s with completed := s.completed ++ [(t, 0)] }

/-- `Runtime::OnSignal`, meeting the registry in the order given. -/
def onSignal (s : State) (signum : Int) (order : List Addr) : State :=
  if s.shutdownSignaled = true ∨ s.listeners = [] then
    { s with shutdownSignaled := true, exited := true }
  else
    let s := { s with shutdownSignaled := true, shutdownSignum := signum }
    { order.foldl (fun s l => abortListener s l none) s with listeners := [] }

/-- A task is dispatched once. -/
def dispatch (s : State) (t : TaskId) (f : State → State) : Option State :=
  if t ∉ s.tasks then some (f { s with tasks := t :: s.tasks }) else none

def step (s : State) (a : Action) : Option State :=
  if s.exited then none
  else
    match a with
    | .tcpListen t l rc =>
        if s.heap l = none then dispatch s t fun s => tcpListen s t l rc else none
    -- libuv calls it on a listening handle only.
    | .onConnection l status c acceptRc =>
        match s.heap l with
        | some x =>
            if x.handle.state = .live ∧ 0 < c ∧ c ∉ s.streams then
              some (onConnection s l x status c acceptRc)
            else none
        | none => none
    -- Scheme has the address from a listen.
    | .tcpAccept t l =>
        if l ∈ s.issued then
          dispatch s t fun s => { tcpAccept s t l with accepts := (t, l) :: s.accepts }
        else none
    | .listenerClose t l =>
        if l ∈ s.issued then dispatch s t fun s => listenerClose s t l else none
    | .onClosed l =>
        match s.heap l with
        | some x =>
            if x.handle.state = .closing then
              some { s with
                heap := Function.update s.heap l none
                completed := s.completed ++ x.handle.onClosed.2 }
            else none
        | none => none
    | .onSignal signum order =>
        if order.Perm s.listeners then some (onSignal s signum order) else none

/-- The runtime right after `Runtime::Start`. -/
def machine : Machine State Action where
  init :=
    { heap := fun _ => none, listeners := [], shutdownSignaled := false, shutdownSignum := 0
      exited := false, completed := [], issued := [], tasks := [], accepts := [], misread := []
      streams := [], dropped := [] }
  step := step

/-- One constructor for each kind of step. -/
inductive Step (s : State) : Action → State → Prop
  | tcpListen {t l rc} : t ∉ s.tasks → s.heap l = none →
      Step s (.tcpListen t l rc) (tcpListen { s with tasks := t :: s.tasks } t l rc)
  | onConnection {l x status c acceptRc} : s.heap l = some x → x.handle.state = .live → 0 < c →
      c ∉ s.streams → Step s (.onConnection l status c acceptRc) (onConnection s l x status c acceptRc)
  | tcpAccept {t l} : t ∉ s.tasks → l ∈ s.issued →
      Step s (.tcpAccept t l)
        { tcpAccept { s with tasks := t :: s.tasks } t l with accepts := (t, l) :: s.accepts }
  | listenerClose {t l} : t ∉ s.tasks → l ∈ s.issued →
      Step s (.listenerClose t l) (listenerClose { s with tasks := t :: s.tasks } t l)
  | onClosed {l x} : s.heap l = some x → x.handle.state = .closing →
      Step s (.onClosed l)
        { s with
          heap := Function.update s.heap l none
          completed := s.completed ++ x.handle.onClosed.2 }
  | onSignal {signum order} : order.Perm s.listeners →
      Step s (.onSignal signum order) (onSignal s signum order)

theorem step_cases {s u : State} {a : Action} (h : step s a = some u) :
    s.exited = false ∧ Step s a u := by
  simp only [step, Option.ite_none_left_eq_some, Bool.not_eq_true] at h
  rcases h with ⟨hexit, h⟩
  refine ⟨hexit, ?_⟩
  split at h
  case h_1 t l rc =>
    simp only [dispatch, Option.ite_none_right_eq_some, Option.some.injEq] at h
    rcases h with ⟨hl, ht, rfl⟩
    exact .tcpListen ht hl
  case h_2 l status c acceptRc =>
    split at h
    case h_2 => cases h
    case h_1 x hx =>
      simp only [Option.ite_none_right_eq_some, Option.some.injEq] at h
      rcases h with ⟨⟨hlive, hc, hnew⟩, rfl⟩
      exact .onConnection hx hlive hc hnew
  case h_3 t l =>
    simp only [dispatch, Option.ite_none_right_eq_some, Option.some.injEq] at h
    rcases h with ⟨hl, ht, rfl⟩
    exact .tcpAccept ht hl
  case h_4 t l =>
    simp only [dispatch, Option.ite_none_right_eq_some, Option.some.injEq] at h
    rcases h with ⟨hl, ht, rfl⟩
    exact .listenerClose ht hl
  case h_5 l =>
    split at h
    case h_2 => cases h
    case h_1 x hx =>
      simp only [Option.ite_none_right_eq_some, Option.some.injEq] at h
      rcases h with ⟨hclosing, rfl⟩
      exact .onClosed hx hclosing
  case h_6 signum order =>
    simp only [Option.ite_none_right_eq_some, Option.some.injEq] at h
    rcases h with ⟨horder, rfl⟩
    exact .onSignal horder

/-! ## 2. What an accept is owed -/

/-- Completed once, with a stream or with `ECANCELED`. -/
def Answered (s : State) (t : TaskId) : Prop :=
  ∃ r, s.completed.results t = [r] ∧ (0 < r ∨ r = UV_ECANCELED)

/-- Parked on an open listener. -/
def Parked (s : State) (t : TaskId) (l : Addr) : Prop :=
  s.completed.results t = [] ∧ l ∈ s.listeners ∧ s.heap.Open l ∧ s.heap.Pending t l

/-- No dispatch of an accept has read a destroyed listener, no listener whose close has begun has
an accept parked on it, and every accept is answered once or parked on an open listener. -/
structure NoAcceptLost (s : State) : Prop where
  misread : s.misread = []
  closing : ∀ l x, s.heap l = some x → x.handle.state ≠ .live → x.pendingAccepts = []
  accepts : ∀ t l, (t, l) ∈ s.accepts → Answered s t ∨ Parked s t l

/-- The condition on the steps: the listener of a `TcpAccept` is in the registry. -/
def Registered (s : State) : Action → Prop
  | .tcpAccept _ l => l ∈ s.listeners
  | _ => True

instance (s : State) (a : Action) : Decidable (Registered s a) := by
  cases a <;> unfold Registered <;> infer_instance

structure Inv (s : State) : Prop where
  registered : ∀ l ∈ s.listeners, s.heap.Open l
  nodup : s.listeners.Nodup
  -- what is not in the registry has been aborted and waits for `OnClosed`
  unregistered : ∀ l x, s.heap l = some x → l ∉ s.listeners →
    x.handle.state = .closing ∧ x.accepted = [] ∧ x.pendingAccepts = []
  streams : ∀ l x, s.heap l = some x → ∀ c ∈ x.accepted, 0 < c
  -- a parked accept is in one backlog and has no result
  parked : ∀ l x, s.heap l = some x → x.pendingAccepts.Nodup ∧
    ∀ t ∈ x.pendingAccepts, (t, l) ∈ s.accepts ∧ s.completed.results t = []
  accepts : ∀ t l, (t, l) ∈ s.accepts → t ∈ s.tasks ∧
    (Answered s t ∨ s.heap.Pending t l)
  one : ∀ t l l', (t, l) ∈ s.accepts → (t, l') ∈ s.accepts → l = l'
  fresh : ∀ t, t ∉ s.tasks → s.completed.results t = []
  -- `OnClosed` completes a `ListenerClose`, never an accept
  close : ∀ l x t, s.heap l = some x → x.handle.closeTask = some t →
    t ∈ s.tasks ∧ ∀ l', (t, l') ∉ s.accepts
  misread : s.misread = []

theorem inv_init : Inv machine.init := by
  refine ⟨?_, ?_, ?_, ?_, ?_, ?_, ?_, ?_, ?_, ?_⟩ <;> simp [machine]

theorem Inv.noAcceptLost {s : State} (hs : Inv s) : NoAcceptLost s := by
  refine ⟨hs.misread, ?_, ?_⟩
  · intro l x hx hstate
    by_cases hl : l ∈ s.listeners
    · exact absurd ((Heap.open_iff hx).mp (hs.registered l hl)) hstate
    · exact (hs.unregistered l x hx hl).2.2
  · intro t l ht
    rcases (hs.accepts t l ht).2 with h | ⟨x, hx, htx⟩
    · exact Or.inl h
    · right
      have hl : l ∈ s.listeners := by
        by_contra hl
        rw [(hs.unregistered l x hx hl).2.2] at htx
        cases htx
      exact ⟨((hs.parked l x hx).2 t htx).2, hl, hs.registered l hl, x, hx, htx⟩

/-! ## 3. Steps within the condition keep the invariant -/

/-- A task at its dispatch. -/
structure New (s : State) (t : TaskId) : Prop where
  task : t ∈ s.tasks
  results : s.completed.results t = []
  accepts : ∀ l, (t, l) ∉ s.accepts
  close : ∀ l x, s.heap l = some x → x.handle.closeTask ≠ some t

theorem inv_dispatch {s : State} {t : TaskId} (hs : Inv s) (ht : t ∉ s.tasks) :
    Inv { s with tasks := t :: s.tasks } ∧ New { s with tasks := t :: s.tasks } t := by
  refine ⟨{ hs with accepts := ?_, fresh := ?_, close := ?_ }, ⟨?_, ?_, ?_, ?_⟩⟩
  · intro t' l ht'
    have h := hs.accepts t' l ht'
    exact ⟨List.mem_cons_of_mem t h.1, h.2⟩
  · intro t' ht'
    exact hs.fresh t' fun h => ht' (List.mem_cons_of_mem t h)
  · intro l x t' hx hc
    have h := hs.close l x t' hx hc
    exact ⟨List.mem_cons_of_mem t h.1, h.2⟩
  · exact List.mem_cons_self
  · exact hs.fresh t ht
  · exact fun l hl => ht (hs.accepts t l hl).1
  · exact fun l x hx hc => ht (hs.close l x t hx hc).1

/-- A completion of a task that is no accept. -/
theorem inv_complete {s : State} {t : TaskId} {r : Int} (hs : Inv s) (ht : t ∈ s.tasks)
    (hacc : ∀ l, (t, l) ∉ s.accepts) : Inv { s with completed := s.completed ++ [(t, r)] } := by
  have hkeep : ∀ t', t' ≠ t →
      Completions.results (s.completed ++ [(t, r)]) t' = s.completed.results t' :=
    fun t' hne => s.completed.results_snoc_of_ne hne r
  have haccept : ∀ t' l, (t', l) ∈ s.accepts → t' ≠ t := by
    intro t' l ht' heq
    exact hacc l (heq ▸ ht')
  refine { hs with parked := ?_, accepts := ?_, fresh := ?_ }
  · intro l x hx
    refine ⟨(hs.parked l x hx).1, ?_⟩
    intro t' ht'
    have h := (hs.parked l x hx).2 t' ht'
    exact ⟨h.1, (hkeep t' (haccept t' l h.1)).trans h.2⟩
  · intro t' l ht'
    have h := hs.accepts t' l ht'
    refine ⟨h.1, h.2.imp_left ?_⟩
    unfold Answered
    rw [hkeep t' (haccept t' l ht')]
    exact id
  · intro t' ht'
    have hne : t' ≠ t := fun heq => ht' (heq ▸ ht)
    exact (hkeep t' hne).trans (hs.fresh t' ht')

/-- The listener at `l` becomes `x'`, and accepts of its own are completed: what the registry `ls`
and the accepts `acc` must be afterwards. -/
structure Change (s : State) (l : Addr) (x' : Listener) (ls : List Addr)
    (acc : List (TaskId × Addr)) (cs : Completions) : Prop where
  nodup : ls.Nodup
  registry : ∀ l', l' ≠ l → (l' ∈ ls ↔ l' ∈ s.listeners)
  registered : l ∈ ls → x'.handle.state = .live
  unregistered : l ∉ ls →
    x'.handle.state = .closing ∧ x'.accepted = [] ∧ x'.pendingAccepts = []
  streams : ∀ c ∈ x'.accepted, 0 < c
  parked : x'.pendingAccepts.Nodup ∧ ∀ t ∈ x'.pendingAccepts,
    (t, l) ∈ acc ∧ Completions.results (s.completed ++ cs) t = []
  old : ∀ p ∈ s.accepts, p ∈ acc
  new : ∀ t l', (t, l') ∈ acc → (t, l') ∈ s.accepts ∨ (l' = l ∧ New s t)
  accepts : ∀ t, (t, l) ∈ acc →
    Answered { s with completed := s.completed ++ cs } t ∨ t ∈ x'.pendingAccepts
  own : ∀ p ∈ cs, (p.1, l) ∈ acc
  close : ∀ t, x'.handle.closeTask = some t → t ∈ s.tasks ∧ ∀ l', (t, l') ∉ acc

section
variable {s : State} {l : Addr} {x' : Listener} {ls : List Addr} {acc : List (TaskId × Addr)}
  {cs : Completions}

theorem Change.task (hs : Inv s) (h : Change s l x' ls acc cs) {t : TaskId} {l' : Addr}
    (ht : (t, l') ∈ acc) : t ∈ s.tasks := by
  rcases h.new t l' ht with ht | ⟨-, ht⟩
  · exact (hs.accepts t l' ht).1
  · exact ht.task

/-- An accept is one of one listener. -/
theorem Change.one (hs : Inv s) (h : Change s l x' ls acc cs) {t : TaskId} {l₁ l₂ : Addr}
    (h₁ : (t, l₁) ∈ acc) (h₂ : (t, l₂) ∈ acc) : l₁ = l₂ := by
  rcases h.new t l₁ h₁ with h₁ | ⟨rfl, hnew⟩
  · rcases h.new t l₂ h₂ with h₂ | ⟨rfl, hnew⟩
    · exact hs.one t l₁ l₂ h₁ h₂
    · exact absurd h₁ (hnew.accepts l₁)
  · rcases h.new t l₂ h₂ with h₂ | ⟨rfl, -⟩
    · exact absurd h₂ (hnew.accepts l₂)
    · rfl

/-- The accepts of the other listeners have the results that they had. -/
theorem Change.results (hs : Inv s) (h : Change s l x' ls acc cs) {t : TaskId} {l' : Addr}
    (hl : l' ≠ l) (ht : (t, l') ∈ acc) :
    Completions.results (s.completed ++ cs) t = s.completed.results t := by
  have hcs : Completions.results cs t = [] := by
    apply Completions.results_eq_nil
    intro p hp heq
    exact hl (h.one hs ht (heq ▸ h.own p hp))
  rw [Completions.results_append, hcs, List.append_nil]

theorem Change.inv (hs : Inv s) (h : Change s l x' ls acc cs) :
    Inv { s with
      heap := Function.update s.heap l (some x'), listeners := ls, accepts := acc
      completed := s.completed ++ cs } := by
  -- an object of the new heap is the changed listener or an old one at another address
  have hheap : ∀ l' y, Function.update s.heap l (some x') l' = some y →
      (l' = l ∧ y = x') ∨ (l' ≠ l ∧ s.heap l' = some y) := by
    intro l' y hy
    by_cases hl : l' = l
    · subst hl
      rw [Function.update_self] at hy
      exact Or.inl ⟨rfl, (Option.some.inj hy).symm⟩
    · rw [Function.update_of_ne hl] at hy
      exact Or.inr ⟨hl, hy⟩
  refine ⟨?_, h.nodup, ?_, ?_, ?_, ?_, fun t l₁ l₂ h₁ h₂ => h.one hs h₁ h₂, ?_, ?_, hs.misread⟩
  · intro l' hl'
    by_cases hl : l' = l
    · subst hl
      exact ⟨x', Function.update_self .., h.registered hl'⟩
    · rw [open_update, if_neg hl]
      exact hs.registered l' ((h.registry l' hl).mp hl')
  · intro l' y hy hl'
    rcases hheap l' y hy with ⟨rfl, rfl⟩ | ⟨hl, hy⟩
    · exact h.unregistered hl'
    · exact hs.unregistered l' y hy fun hmem => hl' ((h.registry l' hl).mpr hmem)
  · intro l' y hy
    rcases hheap l' y hy with ⟨rfl, rfl⟩ | ⟨hl, hy⟩
    · exact h.streams
    · exact hs.streams l' y hy
  · intro l' y hy
    rcases hheap l' y hy with ⟨rfl, rfl⟩ | ⟨hl, hy⟩
    · exact h.parked
    · refine ⟨(hs.parked l' y hy).1, ?_⟩
      intro t ht
      have hold := (hs.parked l' y hy).2 t ht
      exact ⟨h.old _ hold.1, (h.results hs hl (h.old _ hold.1)).trans hold.2⟩
  · intro t l' ht
    refine ⟨h.task hs ht, ?_⟩
    rw [pending_update]
    by_cases hl : l' = l
    · subst hl
      rw [if_pos rfl]
      exact h.accepts t ht
    · rw [if_neg hl]
      have hold := (h.new t l' ht).resolve_right fun hnew => hl hnew.1
      unfold Answered
      rw [h.results hs hl ht]
      exact (hs.accepts t l' hold).2
  · intro t ht
    have hcs : Completions.results cs t = [] := by
      apply Completions.results_eq_nil
      intro p hp heq
      exact ht (h.task hs (heq ▸ h.own p hp))
    rw [Completions.results_append, hcs, hs.fresh t ht]
    rfl
  · intro l' y t hy ht
    rcases hheap l' y hy with ⟨rfl, rfl⟩ | ⟨hl, hy⟩
    · exact h.close t ht
    · refine ⟨(hs.close l' y t hy ht).1, ?_⟩
      intro l'' hacc
      rcases h.new t l'' hacc with hacc | ⟨-, hnew⟩
      · exact (hs.close l' y t hy ht).2 l'' hacc
      · exact hnew.close l' y hy ht

end

theorem answered_first {s : State} {t : TaskId} {r : Int} (ht : s.completed.results t = [])
    (hr : 0 < r ∨ r = UV_ECANCELED) :
    Answered { s with completed := s.completed ++ [(t, r)] } t :=
  ⟨r, Completions.results_snoc_self ht r, hr⟩

/-- An accept keeps its answer when others get theirs. -/
theorem Answered.append {s : State} {t : TaskId} {cs : Completions} (h : Answered s t)
    (hcs : Completions.results cs t = []) : Answered { s with completed := s.completed ++ cs } t := by
  rcases h with ⟨r, ht, hr⟩
  refine ⟨r, ?_, hr⟩
  rw [Completions.results_append, hcs, List.append_nil]
  exact ht

theorem results_singleton {t u : TaskId} (r : Int) (h : u ≠ t) :
    Completions.results [(t, r)] u = [] := by
  apply Completions.results_eq_nil
  intro p hp
  rw [List.mem_singleton.mp hp]
  exact h.symm

theorem inv_tcpListen {s : State} {t : TaskId} {l : Addr} {rc : Int} (hs : Inv s)
    (ht : New s t) (hl : s.heap l = none) : Inv (tcpListen s t l rc) := by
  have hlreg : l ∉ s.listeners := by
    intro h
    rcases hs.registered l h with ⟨x, hx, _⟩
    rw [hl] at hx
    cases hx
  -- the accepts of the listener that was at the address before have their answers
  have hold : ∀ t', (t', l) ∈ s.accepts → Answered s t' := by
    intro t' ht'
    rcases (hs.accepts t' l ht').2 with h | ⟨x, hx, _⟩
    · exact h
    · rw [hl] at hx
      cases hx
  have hfresh : ∀ (x' : Listener) (ls : List Addr), ls.Nodup →
      (∀ l', l' ≠ l → (l' ∈ ls ↔ l' ∈ s.listeners)) → (l ∈ ls → x'.handle.state = .live) →
      (l ∉ ls → x'.handle.state = .closing) → x'.accepted = [] → x'.pendingAccepts = [] →
      x'.handle.closeTask = none → Inv { s with
        heap := Function.update s.heap l (some x'), listeners := ls } := by
    intro x' ls hnodup hkeep hin hout hacc hpend hclose
    have hchange : Change s l x' ls s.accepts [] := by
      refine ⟨hnodup, hkeep, hin, fun h => ⟨hout h, hacc, hpend⟩, ?_, ?_, fun _ => id,
        fun _ _ => Or.inl, ?_, (fun _ h => by cases h), ?_⟩
      · rw [hacc]
        exact fun c hc => by cases hc
      · rw [hpend]
        exact ⟨List.nodup_nil, fun t' ht' => by cases ht'⟩
      · exact fun t' ht' => Or.inl ((hold t' ht').append rfl)
      · rw [hclose]
        exact fun t' ht' => by cases ht'
    have hinv := hchange.inv hs
    rw [List.append_nil] at hinv
    exact hinv
  unfold tcpListen
  split
  · -- `listen` has failed: the listener is closing from the start
    have hinv := hfresh { newListener with handle := newListener.handle.close none } s.listeners
      hs.nodup (fun _ _ => Iff.rfl) (fun h => absurd h hlreg) (fun _ => rfl) rfl rfl rfl
    exact inv_complete hinv ht.task ht.accepts
  · -- the address was free, so it was not in the registry
    have hinv := hfresh newListener (l :: s.listeners) (List.nodup_cons.mpr ⟨hlreg, hs.nodup⟩)
      (fun l' hne => List.mem_cons.trans (or_iff_right hne)) (fun _ => rfl)
      (fun h => absurd List.mem_cons_self h) rfl rfl rfl
    exact { inv_complete hinv ht.task ht.accepts with }

/-- The queues of an open listener change. -/
theorem Change.queues {s : State} {l : Addr} {x : Listener} (hs : Inv s)
    (hx : s.heap l = some x) (hl : l ∈ s.listeners) {accepted : List StreamId}
    {pendingAccepts : List TaskId} {acc : List (TaskId × Addr)} {cs : Completions}
    (streams : ∀ c ∈ accepted, 0 < c)
    (parked : pendingAccepts.Nodup ∧ ∀ t ∈ pendingAccepts,
      (t, l) ∈ acc ∧ Completions.results (s.completed ++ cs) t = [])
    (old : ∀ p ∈ s.accepts, p ∈ acc)
    (new : ∀ t l', (t, l') ∈ acc → (t, l') ∈ s.accepts ∨ (l' = l ∧ New s t))
    (accepts : ∀ t, (t, l) ∈ acc →
      Answered { s with completed := s.completed ++ cs } t ∨ t ∈ pendingAccepts)
    (own : ∀ p ∈ cs, (p.1, l) ∈ acc) :
    Change s l { x with accepted := accepted, pendingAccepts := pendingAccepts } s.listeners acc
      cs := by
  refine ⟨hs.nodup, fun _ _ => Iff.rfl, fun _ => (Heap.open_iff hx).mp (hs.registered l hl),
    fun h => absurd hl h, streams, parked, old, new, accepts, own, ?_⟩
  intro t ht
  refine ⟨(hs.close l x t hx ht).1, ?_⟩
  intro l' hacc
  rcases new t l' hacc with hacc | ⟨-, hnew⟩
  · exact (hs.close l x t hx ht).2 l' hacc
  · exact hnew.close l x hx ht

theorem inv_onConnection {s : State} {l : Addr} {x : Listener} {status : Int} {c : StreamId}
    {acceptRc : Int} (hs : Inv s) (hx : s.heap l = some x) (hlive : x.handle.state = .live)
    (hc : 0 < c) : Inv (onConnection s l x status c acceptRc) := by
  have hl : l ∈ s.listeners := by
    by_contra hl
    rw [(hs.unregistered l x hx hl).1] at hlive
    cases hlive
  have hpark := hs.parked l x hx
  have hacc : ∀ t, (t, l) ∈ s.accepts → Answered s t ∨ t ∈ x.pendingAccepts := by
    intro t ht
    rw [← Heap.pending_iff hx]
    exact (hs.accepts t l ht).2
  unfold onConnection
  split
  · exact hs
  · simp only
    split
    · exact { hs with }
    · split
      case h_1 t ts hp =>
        -- the first parked accept gets the stream
        rw [hp] at hpark hacc
        have hnd := List.nodup_cons.mp hpark.1
        have hchange := @Change.queues s l x hs hx hl x.accepted ts s.accepts [(t, (c : Int))]
          (hs.streams l x hx) ⟨hnd.2, ?_⟩ (fun _ => id) (fun _ _ => Or.inl) ?_ ?_
        · exact { hchange.inv hs with }
        · intro t' ht'
          have hne : t' ≠ t := fun heq => hnd.1 (heq ▸ ht')
          have h := hpark.2 t' (List.mem_cons_of_mem t ht')
          rw [Completions.results_append, results_singleton _ hne, List.append_nil]
          exact h
        · intro t' ht'
          by_cases hne : t' = t
          · subst hne
            have hres := (hpark.2 t' List.mem_cons_self).2
            exact Or.inl (answered_first hres (Or.inl (Int.natCast_pos.mpr hc)))
          · refine (hacc t' ht').imp (fun h => h.append (results_singleton _ hne)) ?_
            exact fun h => (List.mem_cons.mp h).resolve_left hne
        · intro p hp'
          rw [List.mem_singleton.mp hp']
          exact (hpark.2 t List.mem_cons_self).1
      case h_2 hp =>
        -- nobody waits: the stream is kept
        have hchange := @Change.queues s l x hs hx hl (x.accepted ++ [c]) x.pendingAccepts
          s.accepts [] ?_ ⟨hpark.1, ?_⟩ (fun _ => id) (fun _ _ => Or.inl) ?_
          (fun _ h => by cases h)
        · have hinv := hchange.inv hs
          rw [List.append_nil] at hinv
          exact { hinv with }
        · intro c' hc'
          rcases List.mem_append.mp hc' with hc' | hc'
          · exact hs.streams l x hx c' hc'
          · exact List.mem_singleton.mp hc' ▸ hc
        · rw [List.append_nil]
          exact hpark.2
        · exact fun t ht => (hacc t ht).imp_left fun h => h.append rfl

theorem inv_tcpAccept {s : State} {t : TaskId} {l : Addr} (hs : Inv s) (ht : New s t)
    (hl : l ∈ s.listeners) : Inv { tcpAccept s t l with accepts := (t, l) :: s.accepts } := by
  rcases hs.registered l hl with ⟨x, hx, _⟩
  have hpark := hs.parked l x hx
  have hold : ∀ p ∈ s.accepts, p ∈ (t, l) :: s.accepts := fun p hp => List.mem_cons_of_mem _ hp
  have hnew : ∀ t' l', (t', l') ∈ (t, l) :: s.accepts →
      (t', l') ∈ s.accepts ∨ (l' = l ∧ New s t') := by
    intro t' l' h
    rcases List.mem_cons.mp h with heq | h
    · cases heq
      exact Or.inr ⟨rfl, ht⟩
    · exact Or.inl h
  have hacc : ∀ t', (t', l) ∈ (t, l) :: s.accepts →
      t' = t ∨ (t' ≠ t ∧ (Answered s t' ∨ t' ∈ x.pendingAccepts)) := by
    intro t' h
    rcases List.mem_cons.mp h with heq | h
    · exact Or.inl (Prod.mk.inj heq).1
    · rw [← Heap.pending_iff hx]
      exact Or.inr ⟨fun heq => ht.accepts l (heq ▸ h), (hs.accepts t' l h).2⟩
  simp only [tcpAccept, hx]
  split
  case h_1 c cs hcs =>
    -- a ready connection
    have hstreams : ∀ c' ∈ cs, 0 < c' := by
      intro c' hc'
      exact hs.streams l x hx c' (hcs ▸ List.mem_cons_of_mem c hc')
    have hc : 0 < c := hs.streams l x hx c (hcs ▸ List.mem_cons_self)
    have hchange := @Change.queues s l x hs hx hl cs x.pendingAccepts ((t, l) :: s.accepts)
      [(t, (c : Int))] hstreams ⟨hpark.1, ?_⟩ hold hnew ?_ ?_
    · exact hchange.inv hs
    · intro t' ht'
      have h := hpark.2 t' ht'
      have hne : t' ≠ t := fun heq => ht.accepts l (heq ▸ h.1)
      rw [Completions.results_append, results_singleton _ hne, List.append_nil]
      exact ⟨hold _ h.1, h.2⟩
    · intro t' ht'
      rcases hacc t' ht' with rfl | ⟨hne, h⟩
      · exact Or.inl (answered_first ht.results (Or.inl (Int.natCast_pos.mpr hc)))
      · exact h.imp_left fun h => h.append (results_singleton _ hne)
    · intro p hp
      rw [List.mem_singleton.mp hp]
      exact List.mem_cons_self
  case h_2 hcs =>
    -- parked behind the others, on a listener that is open
    have hnotin : t ∉ x.pendingAccepts := fun h => ht.accepts l (hpark.2 t h).1
    have hchange := @Change.queues s l x hs hx hl x.accepted (x.pendingAccepts ++ [t])
      ((t, l) :: s.accepts) [] (hs.streams l x hx) ⟨?_, ?_⟩ hold hnew ?_ (fun _ h => by cases h)
    · have hinv := hchange.inv hs
      rw [List.append_nil] at hinv
      exact hinv
    · refine List.nodup_append.mpr ⟨hpark.1, List.nodup_singleton t, ?_⟩
      intro a ha b hb heq
      exact hnotin (List.mem_singleton.mp hb ▸ heq ▸ ha)
    · intro t' ht'
      rw [List.append_nil]
      rcases List.mem_append.mp ht' with ht' | ht'
      · exact ⟨hold _ (hpark.2 t' ht').1, (hpark.2 t' ht').2⟩
      · rw [List.mem_singleton.mp ht']
        exact ⟨List.mem_cons_self, ht.results⟩
    · intro t' ht'
      rcases hacc t' ht' with rfl | ⟨-, h | h⟩
      · exact Or.inr (List.mem_append_right _ (List.mem_singleton_self _))
      · exact Or.inl (h.append rfl)
      · exact Or.inr (List.mem_append_left _ h)

/-- A registered listener is taken off the registry and aborted. -/
theorem inv_abortListener {s : State} {l : Addr} {closeTask : Option TaskId} (hs : Inv s)
    (hl : l ∈ s.listeners)
    (hct : ∀ t, closeTask = some t → t ∈ s.tasks ∧ ∀ l', (t, l') ∉ s.accepts) :
    Inv (abortListener { s with listeners := s.listeners.erase l } l closeTask) := by
  rcases hs.registered l hl with ⟨x, hx, _⟩
  have hpark := hs.parked l x hx
  have hres := Completions.results_map hpark.1 UV_ECANCELED
  have hnotin : l ∉ s.listeners.erase l := hs.nodup.not_mem_erase
  have hchange : Change s l
      { accepted := [], pendingAccepts := [], handle := x.handle.close closeTask }
      (s.listeners.erase l) s.accepts (x.pendingAccepts.map fun p => (p, UV_ECANCELED)) := by
    refine ⟨hs.nodup.erase l, fun l' hne => List.mem_erase_of_ne hne, fun h => absurd h hnotin,
      fun _ => ⟨rfl, rfl, rfl⟩, (fun _ h => by cases h), ⟨List.nodup_nil, (fun _ h => by cases h)⟩,
      fun _ => id, fun _ _ => Or.inl, ?_, ?_, hct⟩
    · intro t ht
      left
      by_cases hmem : t ∈ x.pendingAccepts
      · -- parked until now
        refine ⟨UV_ECANCELED, ?_, Or.inr rfl⟩
        rw [Completions.results_append, hres, if_pos hmem, (hpark.2 t hmem).2]
        rfl
      · have h := (hs.accepts t l ht).2
        rw [Heap.pending_iff hx] at h
        exact (h.resolve_right hmem).append ((hres t).trans (if_neg hmem))
    · intro p hp
      rcases List.mem_map.mp hp with ⟨t, ht, rfl⟩
      exact (hpark.2 t ht).1
  simp only [abortListener, hx]
  exact { hchange.inv hs with }

theorem inv_listenerClose {s : State} {t : TaskId} {l : Addr} (hs : Inv s) (ht : New s t) :
    Inv (listenerClose s t l) := by
  unfold listenerClose
  split
  case isTrue hl =>
    apply inv_abortListener hs hl
    intro t' ht'
    cases ht'
    exact ⟨ht.task, ht.accepts⟩
  case isFalse hl => exact inv_complete hs ht.task ht.accepts

theorem inv_onClosed {s : State} {l : Addr} {x : Listener} (hs : Inv s) (hx : s.heap l = some x)
    (hclosing : x.handle.state = .closing) :
    Inv { s with
      heap := Function.update s.heap l none
      completed := s.completed ++ x.handle.onClosed.2 } := by
  have hl : l ∉ s.listeners := by
    intro hl
    rw [(Heap.open_iff hx).mp (hs.registered l hl)] at hclosing
    cases hclosing
  have hheap : ∀ l' y, Function.update s.heap l none l' = some y → s.heap l' = some y := by
    intro l' y hy
    by_cases hne : l' = l
    · rw [hne, Function.update_self] at hy
      cases hy
    · rw [Function.update_of_ne hne] at hy
      exact hy
  have hinv : Inv { s with heap := Function.update s.heap l none } := by
    refine ⟨?_, hs.nodup, fun l' y hy => hs.unregistered l' y (hheap l' y hy),
      fun l' y hy => hs.streams l' y (hheap l' y hy), fun l' y hy => hs.parked l' y (hheap l' y hy),
      ?_, hs.one, hs.fresh, fun l' y t hy => hs.close l' y t (hheap l' y hy), hs.misread⟩
    · intro l' hl'
      exact (open_update_none ..).mpr ⟨fun heq => hl (heq ▸ hl'), hs.registered l' hl'⟩
    · intro t l' ht
      refine ⟨(hs.accepts t l' ht).1, (hs.accepts t l' ht).2.imp_right ?_⟩
      intro hpend
      refine (pending_update_none ..).mpr ⟨?_, hpend⟩
      -- nobody is parked on what is about to be deleted
      rintro rfl
      rw [Heap.pending_iff hx, (hs.unregistered l' x hx hl).2.2] at hpend
      cases hpend
  rcases hct : x.handle.closeTask with _ | t
  · simp only [LoopHandle.onClosed, hct, List.append_nil]
    exact hinv
  · have h := hs.close l x t hx hct
    simp only [LoopHandle.onClosed, hct]
    exact inv_complete hinv h.1 h.2

/-- The loop of the signal handler does not look at the registry: it may as well be emptied along
the way. -/
theorem foldl_abort (order : List Addr) (s : State) :
    { order.foldl (fun s l => abortListener s l none) s with listeners := [] } =
      { order.foldl
          (fun s l => abortListener { s with listeners := s.listeners.erase l } l none) s with
        listeners := [] } := by
  have habort : ∀ (s : State) (l : Addr) (ls : List Addr),
      abortListener { s with listeners := ls } l none =
        { abortListener s l none with listeners := ls } := by
    intro s l ls
    simp only [abortListener]
    split <;> rfl
  have key : ∀ (s : State) (ls : List Addr),
      { order.foldl (fun s l => abortListener s l none) s with listeners := [] } =
        { order.foldl
            (fun s l => abortListener { s with listeners := s.listeners.erase l } l none)
            { s with listeners := ls } with
          listeners := [] } := by
    induction order with
    | nil => intro s ls; rfl
    | cons l order ih =>
      intro s ls
      have h := ih (abortListener s l none) (ls.erase l)
      rw [← habort] at h
      exact h
  exact key s s.listeners

theorem foldl_erase_listeners (order : List Addr) (s : State) (horder : order.Perm s.listeners) :
    (order.foldl
      (fun s l => abortListener { s with listeners := s.listeners.erase l } l none) s).listeners =
      [] := by
  induction order generalizing s with
  | nil => exact horder.nil_eq.symm
  | cons l order ih =>
    rw [List.cons_perm_iff_perm_erase] at horder
    apply ih _
    simp only [abortListener]
    split <;> exact horder.2

theorem inv_foldl_abort {order : List Addr} {s : State} (hs : Inv s)
    (horder : order.Perm s.listeners) :
    Inv (order.foldl
      (fun s l => abortListener { s with listeners := s.listeners.erase l } l none) s) := by
  induction order generalizing s with
  | nil => exact hs
  | cons l order ih =>
    rw [List.cons_perm_iff_perm_erase] at horder
    apply ih (inv_abortListener hs horder.1 fun t h => by cases h)
    simp only [abortListener]
    split <;> exact horder.2

theorem inv_onSignal {s : State} {signum : Int} {order : List Addr} (hs : Inv s)
    (horder : order.Perm s.listeners) : Inv (onSignal s signum order) := by
  unfold onSignal
  split
  · exact { hs with }
  · have hs' : Inv { s with shutdownSignaled := true, shutdownSignum := signum } := { hs with }
    have hend := inv_foldl_abort hs' horder
    have hnil := foldl_erase_listeners order
      { s with shutdownSignaled := true, shutdownSignum := signum } horder
    simp only [foldl_abort]
    rw [show ∀ u : State, u.listeners = [] → { u with listeners := [] } = u from
      fun u hu => by cases u; cases hu; rfl]
    · exact hend
    · exact hnil

theorem inv_step {s u : State} {a : Action} (hs : Inv s) (hC : Registered s a)
    (h : step s a = some u) : Inv u := by
  cases (step_cases h).2 with
  | tcpListen ht hl =>
    have hnew := inv_dispatch hs ht
    exact inv_tcpListen hnew.1 hnew.2 hl
  | onConnection hx hlive hc _ => exact inv_onConnection hs hx hlive hc
  | tcpAccept ht _ =>
    have hnew := inv_dispatch hs ht
    exact inv_tcpAccept hnew.1 hnew.2 hC
  | listenerClose ht _ =>
    have hnew := inv_dispatch hs ht
    exact inv_listenerClose hnew.1 hnew.2
  | onClosed hx hclosing => exact inv_onClosed hs hx hclosing
  | onSignal horder => exact inv_onSignal hs horder

/-! ## 4. A step outside the condition loses an accept -/

/-- A dispatched accept on a listener that is not in the registry reads a destroyed object, or is
parked where no connection will come. -/
theorem lost_of_not_registered {s u : State} {a : Action} (hs : Inv s) (hC : ¬ Registered s a)
    (h : step s a = some u) : ¬ NoAcceptLost u := by
  cases (step_cases h).2 with
  | tcpListen | onConnection | listenerClose | onClosed | onSignal => exact absurd trivial hC
  | @tcpAccept t l ht _ =>
    intro hlost
    rcases hx : s.heap l with _ | x
    · have hmis := hlost.misread
      simp only [tcpAccept, hx] at hmis
      exact absurd hmis (by simp)
    · have hun := hs.unregistered l x hx hC
      have hpark := hlost.closing l
      simp only [tcpAccept, hx, hun.2.1] at hpark
      have hnil := hpark _ (Function.update_self ..) (by simp [hun.1])
      exact absurd hnil (by simp)

/-- **When no accept is left behind.**  All along a schedule no accept is parked on a closing
listener, none reads a destroyed one, and each is answered once or parked on an open listener, if
and only if every `TcpAccept` was dispatched on a listener in the registry. -/
theorem no_accept_lost_iff {as : List Action} {s : State} (hrun : machine.run as = some s) :
    machine.Always NoAcceptLost machine.init as ↔ machine.Meets Registered machine.init as :=
  Machine.always_iff_meets (fun _ _ _ hs hC ht => inv_step hs hC ht)
    (fun _ hs => hs.noAcceptLost) (fun _ _ _ hs hC ht => lost_of_not_registered hs hC ht)
    inv_init hrun

/-- Two listeners, an accept served before the signal and one cancelled by it. -/
def servedAndCancelled : List Action :=
  [.tcpListen 1 16 0, .tcpListen 2 32 0, .tcpAccept 3 16, .onConnection 16 0 64 0,
    .tcpAccept 4 32, .listenerClose 5 16, .onSignal 15 [32], .onClosed 32, .onClosed 16]

theorem no_accept_lost_servedAndCancelled :
    machine.Always NoAcceptLost machine.init servedAndCancelled :=
  (@no_accept_lost_iff servedAndCancelled _ rfl).mpr (by decide)

/-- The listener is closed by the first signal; the worker's next accept is parked on it. -/
def acceptAfterSignal : List Action :=
  [.tcpListen 1 16 0, .tcpAccept 2 16, .onSignal 15 [16], .tcpAccept 3 16]

theorem accept_parked_on_closing :
    ∃ s, machine.run acceptAfterSignal = some s ∧ s.completed = [(1, 16), (2, UV_ECANCELED)] ∧
      (∃ x, s.heap 16 = some x ∧ x.handle.state = .closing ∧ x.pendingAccepts = [3]) ∧
      ¬ NoAcceptLost s :=
  ⟨_, rfl, rfl, ⟨_, rfl, rfl, rfl⟩,
    fun h => absurd (h.closing 16 _ rfl (by decide)) (by decide)⟩

/-- Once `OnClosed` has run, the accept reads the deleted listener. -/
example : ∃ s, machine.run [.tcpListen 1 16 0, .onSignal 15 [16], .onClosed 16, .tcpAccept 3 16] =
    some s ∧ s.misread = [3] :=
  ⟨_, rfl, rfl⟩

end ChezAsync.Accept
