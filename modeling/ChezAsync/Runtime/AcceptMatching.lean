import Mathlib.Data.List.Nodup
import Mathlib.Tactic.Common
import ChezAsync.Lib.Machine
import ChezAsync.Lib.Pairing
import ChezAsync.Runtime.Accept

/-!
# Connections and accepts of one listener (`runtime.cpp`)

One listener from its listen to its `abort_listener`, by the functions of `Runtime.Accept`.  The
machine adds the order in which connections and accept tasks arrive; what the listener holds and
what has been completed turn out to be functions of these two histories.
-/

namespace ChezAsync.AcceptMatching

open Accept (Addr StreamId Listener)
open Pairing

/-! ## 1. The machine -/

structure State where
  rt : Accept.State
  -- The record of the run: the streams that `uv_accept` has connected, in order, those that it has
  -- not, latest first, and the accept tasks in the order of their dispatch.
  arrived : List StreamId
  refused : List StreamId
  requested : List TaskId

inductive Action
  | onConnection (status : Int) (c : StreamId) (acceptRc : Int)
  | tcpAccept (t : TaskId)
  /-- `abort_listener` from `ListenerClose`. -/
  | listenerClose (t : TaskId)
  /-- `abort_listener` from the signal handler. -/
  | onSignal (signum : Int)
  deriving DecidableEq

/-- The listener at `l` is open while it is in the registry. -/
def step (l : Addr) (s : State) (a : Action) : Option State :=
  if l ∈ s.rt.listeners then
    match a with
    | .onConnection status c acceptRc =>
        (Accept.step s.rt (.onConnection l status c acceptRc)).map fun rt =>
          if status < 0 then { s with rt }
          else if acceptRc ≠ 0 then { s with rt, refused := c :: s.refused }
          else { s with rt, arrived := s.arrived ++ [c] }
    | .tcpAccept t =>
        (Accept.step s.rt (.tcpAccept t l)).map fun rt =>
          { s with rt, requested := s.requested ++ [t] }
    | .listenerClose t => (Accept.step s.rt (.listenerClose t l)).map fun rt => { s with rt }
    | .onSignal signum => (Accept.step s.rt (.onSignal signum [l])).map fun rt => { s with rt }
  else none

/-- The listen `t₀` has just succeeded. -/
def machine (t₀ : TaskId) (l : Addr) : Machine State Action where
  init :=
    { rt := Accept.tcpListen { Accept.machine.init with tasks := [t₀] } t₀ l 0
      arrived := [], refused := [], requested := [] }
  step := step l

/-! ## 2. What a step does -/

/-- One constructor for each kind of step, by the functions of the listener. -/
inductive Step (l : Addr) (s : State) : Action → State → Prop
  | failed {x status c rc} : s.rt.heap l = some x → status < 0 →
      Step l s (.onConnection status c rc) s
  | refused {x status c rc} : s.rt.heap l = some x → ¬ status < 0 → rc ≠ 0 → 0 < c →
      c ∉ s.rt.streams →
      Step l s (.onConnection status c rc)
        { s with
          rt := { s.rt with streams := c :: s.rt.streams, dropped := c :: s.rt.dropped }
          refused := c :: s.refused }
  | connected {x status c} : s.rt.heap l = some x → ¬ status < 0 → 0 < c → c ∉ s.rt.streams →
      Step l s (.onConnection status c 0)
        { s with rt := Accept.onConnection s.rt l x 0 c 0, arrived := s.arrived ++ [c] }
  | accept {t} : t ∉ s.rt.tasks →
      Step l s (.tcpAccept t)
        { s with
          rt := { Accept.tcpAccept { s.rt with tasks := t :: s.rt.tasks } t l with
            accepts := (t, l) :: s.rt.accepts }
          requested := s.requested ++ [t] }
  | close {t} : t ∉ s.rt.tasks →
      Step l s (.listenerClose t)
        { s with
          rt := Accept.abortListener
            { s.rt with tasks := t :: s.rt.tasks, listeners := s.rt.listeners.erase l } l (some t) }
  | signal {signum} :
      Step l s (.onSignal signum)
        { s with rt := Accept.onSignal s.rt signum [l] }

theorem step_cases {l : Addr} {s u : State} {a : Action} (h : step l s a = some u) :
    l ∈ s.rt.listeners ∧ Step l s a u := by
  simp only [step, Option.ite_none_right_eq_some] at h
  rcases h with ⟨hl, h⟩
  refine ⟨hl, ?_⟩
  cases a with
  | onConnection status c rc =>
    rcases Option.map_eq_some_iff.mp h with ⟨rt, hrt, rfl⟩
    cases (Accept.step_cases hrt).2 with
    | onConnection hx _ hpos hc =>
      by_cases hst : status < 0
      · simp only [Accept.onConnection, hst, if_true]
        exact .failed hx hst
      · by_cases hrc : rc = 0
        · subst hrc
          have h := Step.connected (l := l) (s := s) hx hst hpos hc
          simp only [Accept.onConnection, hst, if_false, ne_eq, not_true_eq_false,
            Int.lt_irrefl] at h ⊢
          exact h
        · simp only [Accept.onConnection, hst, if_false, ne_eq, hrc, not_false_eq_true, if_true]
          exact .refused hx hst hrc hpos hc
  | tcpAccept t =>
    rcases Option.map_eq_some_iff.mp h with ⟨rt, hrt, rfl⟩
    cases (Accept.step_cases hrt).2 with
    | tcpAccept ht _ => exact .accept ht
  | listenerClose t =>
    rcases Option.map_eq_some_iff.mp h with ⟨rt, hrt, rfl⟩
    cases (Accept.step_cases hrt).2 with
    | listenerClose ht _ =>
      simp only [Accept.listenerClose, hl, if_true]
      exact .close ht
  | onSignal signum =>
    rcases Option.map_eq_some_iff.mp h with ⟨rt, hrt, rfl⟩
    cases (Accept.step_cases hrt).2 with
    | onSignal _ => exact .signal

/-! ## 3. The invariant -/

/-- The completions of matched accepts. -/
def answers (ps : List (StreamId × TaskId)) : Completions := ps.map fun p => (p.2, (p.1 : Int))

/-- Nothing arrives twice. -/
structure Arrivals (t₀ : TaskId) (s : State) : Prop where
  fresh : (s.arrived ++ s.refused).Nodup
  streams : ∀ c ∈ s.arrived ++ s.refused, c ∈ s.rt.streams
  requested : s.requested.Nodup
  tasks : ∀ t ∈ s.requested, t ∈ s.rt.tasks
  listen : t₀ ∈ s.rt.tasks ∧ t₀ ∉ s.requested

/-- The open listener `x` holds what the two histories leave over. -/
structure OpenQueues (t₀ : TaskId) (l : Addr) (s : State) (x : Listener) : Prop where
  heap : s.rt.heap l = some x
  live : x.handle.state = .live
  registered : s.rt.listeners = [l]
  signaled : s.rt.shutdownSignaled = false
  accepted : x.accepted = backlog s.arrived s.requested
  pending : x.pendingAccepts = parked s.arrived s.requested
  completed : s.rt.completed = (t₀, (l : Int)) :: answers (pairs s.arrived s.requested)
  dropped : s.rt.dropped = s.refused

/-- After the abort it holds nothing: what was left over is closed or cancelled. -/
structure AbortedQueues (t₀ : TaskId) (l : Addr) (s : State) (x : Listener) : Prop where
  heap : s.rt.heap l = some x
  closing : x.handle.state = .closing
  registered : s.rt.listeners = []
  accepted : x.accepted = []
  pending : x.pendingAccepts = []
  completed : s.rt.completed =
    (t₀, (l : Int)) :: (answers (pairs s.arrived s.requested) ++
      (parked s.arrived s.requested).map fun t => (t, UV_ECANCELED))
  dropped : s.rt.dropped = backlog s.arrived s.requested ++ s.refused

structure Inv (t₀ : TaskId) (l : Addr) (s : State) : Prop where
  arrivals : Arrivals t₀ s
  queues : (∃ x, OpenQueues t₀ l s x) ∨ ∃ x, AbortedQueues t₀ l s x

variable {t₀ : TaskId} {l : Addr} {s u : State} {x : Listener}

theorem inv_init (t₀ : TaskId) (l : Addr) : Inv t₀ l (machine t₀ l).init := by
  refine ⟨⟨?_, ?_, ?_, ?_, ?_⟩, Or.inl ⟨Accept.newListener, ?_⟩⟩
  case refine_6 =>
    refine ⟨?_, rfl, rfl, rfl, rfl, rfl, rfl, rfl⟩
    exact Function.update_self l _ _
  all_goals simp [machine, Accept.tcpListen]

/-- A connection is handed to the accept that has waited longest, or kept. -/
theorem OpenQueues.connected (h : OpenQueues t₀ l s x) (c : StreamId) :
    ∃ y, OpenQueues t₀ l
      { s with rt := Accept.onConnection s.rt l x 0 c 0, arrived := s.arrived ++ [c] } y := by
  have hpending := h.pending
  simp only [Accept.onConnection, Int.lt_irrefl, if_false, ne_eq, not_true_eq_false]
  split
  case h_1 t ts hp =>
    rw [hp] at hpending
    have hparked := hpending.symm
    have hnil : backlog s.arrived s.requested = [] := by
      rcases backlog_or_parked s.arrived s.requested with hb | hb
      · exact hb
      · rw [hb] at hparked
        cases hparked
    refine ⟨_, Function.update_self .., h.live, h.registered, h.signaled, ?_, ?_, ?_, h.dropped⟩
    · rw [h.accepted, hnil, backlog_offer_parked hparked]
    · exact (parked_offer_parked hparked c).symm
    · simp only [h.completed, pairs_offer_parked hparked, answers, List.map_append,
        List.cons_append, List.map_cons, List.map_nil]
  case h_2 hp =>
    rw [hp] at hpending
    refine ⟨_, Function.update_self .., h.live, h.registered, h.signaled, ?_, ?_, ?_, h.dropped⟩
    · rw [backlog_offer hpending.symm, h.accepted]
    · rw [parked_offer hpending.symm]
      exact hp
    · rw [pairs_offer hpending.symm]
      exact h.completed

/-- An accept takes the connection that has waited longest, or waits. -/
theorem OpenQueues.accept (h : OpenQueues t₀ l s x) (t : TaskId) :
    ∃ y, OpenQueues t₀ l
      { s with
        rt := { Accept.tcpAccept { s.rt with tasks := t :: s.rt.tasks } t l with
          accepts := (t, l) :: s.rt.accepts }
        requested := s.requested ++ [t] } y := by
  have haccepted := h.accepted
  simp only [Accept.tcpAccept, h.heap]
  split
  case h_1 c cs hc =>
    rw [hc] at haccepted
    have hbacklog := haccepted.symm
    have hnil : parked s.arrived s.requested = [] := by
      rcases backlog_or_parked s.arrived s.requested with hb | hb
      · rw [hb] at hbacklog
        cases hbacklog
      · exact hb
    refine ⟨_, Function.update_self .., h.live, h.registered, h.signaled, ?_, ?_, ?_, h.dropped⟩
    · exact (backlog_request_backlog hbacklog t).symm
    · rw [h.pending, hnil, parked_request_backlog hbacklog]
    · simp only [h.completed, pairs_request_backlog hbacklog, answers, List.map_append,
        List.cons_append, List.map_cons, List.map_nil]
  case h_2 hc =>
    rw [hc] at haccepted
    refine ⟨_, Function.update_self .., h.live, h.registered, h.signaled, ?_, ?_, ?_, h.dropped⟩
    · rw [backlog_request haccepted.symm]
      exact hc
    · rw [parked_request haccepted.symm, h.pending]
    · rw [pairs_request haccepted.symm]
      exact h.completed

/-- The abort closes the connections and cancels the accepts that are left over. -/
theorem OpenQueues.abort (h : OpenQueues t₀ l s x) (rt : Accept.State)
    (closeTask : Option TaskId) (hheap : rt.heap l = some x) (hcomp : rt.completed = s.rt.completed)
    (hdrop : rt.dropped = s.rt.dropped) :
    ∃ y, AbortedQueues t₀ l
      { s with rt := { Accept.abortListener rt l closeTask with listeners := [] } } y := by
  simp only [Accept.abortListener, hheap]
  refine ⟨_, Function.update_self .., rfl, rfl, rfl, rfl, ?_, ?_⟩
  · show rt.completed ++ _ = _
    rw [hcomp, h.completed, h.pending]
    rfl
  · show x.accepted ++ rt.dropped = _
    rw [hdrop, h.dropped, h.accepted]

theorem Arrivals.connected (h : Arrivals t₀ s) {c : StreamId} (hc : c ∉ s.rt.streams)
    {rt : Accept.State} (hstreams : rt.streams = c :: s.rt.streams)
    (htasks : rt.tasks = s.rt.tasks) :
    Arrivals t₀ { s with rt, arrived := s.arrived ++ [c] } := by
  have hnew : c ∉ s.arrived ++ s.refused := fun hmem => hc (h.streams c hmem)
  refine ⟨?_, ?_, h.requested, ?_, ?_⟩
  · have hperm : (s.arrived ++ [c] ++ s.refused).Perm (c :: (s.arrived ++ s.refused)) := by
      rw [List.append_assoc]
      exact List.perm_middle
    rw [hperm.nodup_iff]
    exact List.nodup_cons.mpr ⟨hnew, h.fresh⟩
  · intro d hd
    have hmem := h.streams d
    simp only [List.mem_append, List.mem_singleton] at hd hmem
    show d ∈ rt.streams
    rw [hstreams, List.mem_cons]
    rcases hd with (hd | hd) | hd
    · exact Or.inr (hmem (Or.inl hd))
    · exact Or.inl hd
    · exact Or.inr (hmem (Or.inr hd))
  · rw [htasks]
    exact h.tasks
  · rw [htasks]
    exact h.listen

theorem Arrivals.accept (h : Arrivals t₀ s) {t : TaskId} (ht : t ∉ s.rt.tasks) {rt : Accept.State}
    (hstreams : rt.streams = s.rt.streams) (htasks : rt.tasks = t :: s.rt.tasks) :
    Arrivals t₀ { s with rt, requested := s.requested ++ [t] } := by
  refine ⟨h.fresh, ?_, ?_, ?_, ?_⟩
  · rw [hstreams]
    exact h.streams
  · rw [← List.concat_eq_append]
    exact h.requested.concat fun hmem => ht (h.tasks t hmem)
  · intro t' ht'
    show t' ∈ rt.tasks
    rw [htasks, List.mem_cons]
    rcases List.mem_append.mp ht' with ht' | ht'
    · exact Or.inr (h.tasks t' ht')
    · exact Or.inl (List.mem_singleton.mp ht')
  · show t₀ ∈ rt.tasks ∧ t₀ ∉ s.requested ++ [t]
    rw [htasks]
    refine ⟨List.mem_cons_of_mem t h.listen.1, ?_⟩
    intro hmem
    rcases List.mem_append.mp hmem with hmem | hmem
    · exact h.listen.2 hmem
    · exact ht (List.mem_singleton.mp hmem ▸ h.listen.1)

theorem inv_step {a : Action} (hs : Inv t₀ l s) (h : step l s a = some u) : Inv t₀ l u := by
  rcases step_cases h with ⟨hl, hstep⟩
  rcases hs with ⟨harr, ⟨x, hopen⟩ | ⟨x, hab⟩⟩
  case inr => exact absurd hl (by simp [hab.registered])
  cases hstep with
  | failed => exact ⟨harr, Or.inl ⟨x, hopen⟩⟩
  | @refused y status c rc hy _ _ _ hc =>
    refine ⟨?_, Or.inl ⟨x, { hopen with dropped := ?_ }⟩⟩
    · have hnew : c ∉ s.arrived ++ s.refused := fun hmem => hc (harr.streams c hmem)
      refine { harr with fresh := ?_, streams := ?_ }
      · exact List.perm_middle.nodup_iff.mpr (List.nodup_cons.mpr ⟨hnew, harr.fresh⟩)
      · intro d hd
        rcases List.mem_cons.mp (List.perm_middle.mem_iff.mp hd) with hd | hd
        · exact hd ▸ List.mem_cons_self
        · exact List.mem_cons_of_mem c (harr.streams d hd)
    · exact congrArg (c :: ·) hopen.dropped
  | @connected y status c hy _ _ hc =>
    have hxy : y = x := Option.some.inj (hy.symm.trans hopen.heap)
    subst hxy
    refine ⟨?_, Or.inl (hopen.connected c)⟩
    apply harr.connected hc
    · simp only [Accept.onConnection, Int.lt_irrefl, if_false, ne_eq, not_true_eq_false]
      split <;> rfl
    · simp only [Accept.onConnection, Int.lt_irrefl, if_false, ne_eq, not_true_eq_false]
      split <;> rfl
  | @accept t ht =>
    refine ⟨?_, Or.inl (hopen.accept t)⟩
    apply harr.accept ht
    · simp only [Accept.tcpAccept, hopen.heap]
      split <;> rfl
    · simp only [Accept.tcpAccept, hopen.heap]
      split <;> rfl
  | @close t ht =>
    have hnil : s.rt.listeners.erase l = [] := by simp [hopen.registered]
    have habort := hopen.abort { s.rt with tasks := t :: s.rt.tasks, listeners := [] } (some t)
      hopen.heap rfl rfl
    rw [hnil]
    refine ⟨?_, Or.inr ?_⟩
    · refine { harr with streams := ?_, tasks := ?_, listen := ?_ }
      · simp only [Accept.abortListener, hopen.heap]
        exact harr.streams
      · simp only [Accept.abortListener, hopen.heap]
        exact fun t' ht' => List.mem_cons_of_mem t (harr.tasks t' ht')
      · simp only [Accept.abortListener, hopen.heap]
        exact ⟨List.mem_cons_of_mem t harr.listen.1, harr.listen.2⟩
    · simp only [Accept.abortListener, hopen.heap] at habort ⊢
      exact habort
  | @signal signum =>
    have hfirst : ¬ (s.rt.shutdownSignaled = true ∨ s.rt.listeners = []) := by
      simp [hopen.signaled, hopen.registered]
    have habort := hopen.abort
      { s.rt with shutdownSignaled := true, shutdownSignum := signum } none hopen.heap rfl rfl
    simp only [Accept.onSignal, hfirst, if_false, List.foldl_cons, List.foldl_nil]
    refine ⟨?_, Or.inr habort⟩
    refine { harr with streams := ?_, tasks := ?_, listen := ?_ }
    · simp only [Accept.abortListener, hopen.heap]
      exact harr.streams
    · simp only [Accept.abortListener, hopen.heap]
      exact harr.tasks
    · simp only [Accept.abortListener, hopen.heap]
      exact harr.listen

theorem inv_reachable (h : (machine t₀ l).Reachable s) : Inv t₀ l s :=
  h.invariant (inv_init t₀ l) fun _ _ _ _ hs ht => inv_step hs ht

/-! ## 4. Who got what -/

/-- How many accept tasks were completed with the stream `c`. -/
def handed (s : State) (c : StreamId) : Nat :=
  s.rt.completed.countP fun p => p.1 ∈ s.requested ∧ p.2 = (c : Int)

/-- A stream that has arrived is matched or left over, once. -/
theorem fates (harr : Arrivals t₀ s) {c : StreamId} (hc : c ∈ s.arrived) :
    ((pairs s.arrived s.requested).map Prod.fst).count c +
      (backlog s.arrived s.requested).count c = 1 ∧ s.refused.count c = 0 := by
  have hfresh := List.nodup_append.mp harr.fresh
  constructor
  · rw [← List.count_append, ← offers_eq]
    exact List.count_eq_one_of_mem hfresh.1 hc
  · rw [List.count_eq_zero]
    exact fun hmem => hfresh.2.2 c hc c hmem rfl

end ChezAsync.AcceptMatching
