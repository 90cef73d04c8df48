import Mathlib.Logic.Function.Basic
import Mathlib.Data.List.Nodup
import Mathlib.Tactic.Common
import ChezAsync.Lib.Machine
import ChezAsync.Lib.Pairing
import ChezAsync.Runtime.Task

/-!
# Watching the file system (`runtime.cpp`, `net.hpp`, `io-fs.ss`)

One `Watcher` after a successful open: the event callback, `FsWatchNext` and `FsWatchClose`
dispatches, and the asynchronous destruction.  libuv calls the event callback only while the handle
is started, that is until the close.
-/

namespace ChezAsync.Watch

open Pairing

/-! ## 1. The machine -/

/-- A filename with the uv bitmask of its events, or with a negative errno. -/
structure Event where
  name : String
  ev : Int
  deriving DecidableEq

structure State where
  /-- Events awaiting a next-task. -/
  events : List Event
  pendingNext : Option TaskId
  handle : LoopHandle
  completed : Completions
  /-- `str_out` of the tasks. -/
  strOut : TaskId → String
  -- The record of the run: the tasks dispatched, the `FsWatchNext` ones, those of them that found
  -- the slot taken and those that did not, in order, the events received, and the calls of
  -- `deliver_watch_event`.
  tasks : List TaskId
  nexts : List TaskId
  refused : List TaskId
  admitted : List TaskId
  received : List Event
  delivered : List (Event × TaskId)

inductive Action
  | fsWatchNext (t : TaskId)
  | onFsEvent (filename : Option String) (events status : Int)
  | fsWatchClose (t : TaskId)
  | onClosed
  deriving DecidableEq

/-- `deliver_watch_event`. -/
def deliverWatchEvent (s : State) (t : TaskId) (e : Event) : State :=
  { s with
    strOut := Function.update s.strOut t e.name
    completed := s.completed ++ [(t, e.ev)]
    delivered := s.delivered ++ [(e, t)] }

/-- The event that `on_fs_event` makes of its arguments. -/
def mkEvent (filename : Option String) (events status : Int) : Event :=
  { name := filename.getD "", ev := if status < 0 then status else events }

/-- `on_fs_event`. -/
def onFsEvent (s : State) (filename : Option String) (events status : Int) : State :=
  let e := mkEvent filename events status
  match s.pendingNext with
  | some t => deliverWatchEvent { s with pendingNext := none } t e
  | none => { s with events := s.events ++ [e] }

/-- Dispatch of `FsWatchNext`. -/
def fsWatchNext (s : State) (t : TaskId) : State :=
  if s.pendingNext ≠ none then { s with completed := s.completed ++ [(t, UV_EBUSY)] }
  else
    match s.events with
    | e :: es => deliverWatchEvent { s with events := es } t e
    | [] => { s with pendingNext := some t }

/-- Dispatch of `FsWatchClose`. -/
def fsWatchClose (s : State) (t : TaskId) : State :=
  let s :=
    match s.pendingNext with
    | some p => { s with pendingNext := none, completed := s.completed ++ [(p, UV_ECANCELED)] }
    | none => s
  { s with handle := s.handle.close (some t) }

/-- The record of a dispatched `FsWatchNext`. -/
def recordNext (s : State) (t : TaskId) : State :=
  { s with
    tasks := s.tasks ++ [t], nexts := s.nexts ++ [t]
    refused := if s.pendingNext ≠ none then s.refused ++ [t] else s.refused
    admitted := if s.pendingNext ≠ none then s.admitted else s.admitted ++ [t] }

def step (s : State) : Action → Option State
  | .fsWatchNext t =>
      if t ∉ s.tasks ∧ s.handle.state ≠ .destroyed then some (fsWatchNext (recordNext s t) t)
      else none
  | .onFsEvent filename events status =>
      if s.handle.state = .live then
        some { onFsEvent s filename events status with
          received := s.received ++ [mkEvent filename events status] }
      else none
  | .fsWatchClose t =>
      if t ∉ s.tasks ∧ s.handle.state = .live then
        some { fsWatchClose s t with tasks := s.tasks ++ [t] }
      else none
  | .onClosed =>
      if s.handle.state = .closing then
        some { s with
          handle := s.handle.onClosed.1, completed := s.completed ++ s.handle.onClosed.2 }
      else none

/-- A watcher that has just been opened. -/
def machine : Machine State Action where
  init :=
    { events := [], pendingNext := none, handle := { state := .live, closeTask := none }
      completed := [], strOut := fun _ => "", tasks := [], nexts := [], refused := []
      admitted := [], received := [], delivered := [] }
  step := step

/-! ## 2. What a step does -/

/-- One constructor for each branch of `step`. -/
inductive Step (s : State) : Action → State → Prop
  | busy {t p} : t ∉ s.tasks → s.handle.state ≠ .destroyed → s.pendingNext = some p →
      Step s (.fsWatchNext t)
        { s with
          tasks := s.tasks ++ [t], nexts := s.nexts ++ [t], refused := s.refused ++ [t]
          completed := s.completed ++ [(t, UV_EBUSY)] }
  | queued {t e es} : t ∉ s.tasks → s.handle.state ≠ .destroyed → s.pendingNext = none →
      s.events = e :: es →
      Step s (.fsWatchNext t)
        (deliverWatchEvent { s with
          tasks := s.tasks ++ [t], nexts := s.nexts ++ [t], admitted := s.admitted ++ [t]
          events := es } t e)
  | park {t} : t ∉ s.tasks → s.handle.state ≠ .destroyed → s.pendingNext = none →
      s.events = [] →
      Step s (.fsWatchNext t)
        { s with
          tasks := s.tasks ++ [t], nexts := s.nexts ++ [t], admitted := s.admitted ++ [t]
          pendingNext := some t }
  | handOver {filename events status t} : s.handle.state = .live → s.pendingNext = some t →
      Step s (.onFsEvent filename events status)
        (deliverWatchEvent { s with
          pendingNext := none
          received := s.received ++ [mkEvent filename events status] } t
            (mkEvent filename events status))
  | keep {filename events status} : s.handle.state = .live → s.pendingNext = none →
      Step s (.onFsEvent filename events status)
        { s with
          events := s.events ++ [mkEvent filename events status]
          received := s.received ++ [mkEvent filename events status] }
  | cancel {t p} : t ∉ s.tasks → s.handle.state = .live → s.pendingNext = some p →
      Step s (.fsWatchClose t)
        { s with
          tasks := s.tasks ++ [t], pendingNext := none
          completed := s.completed ++ [(p, UV_ECANCELED)], handle := s.handle.close (some t) }
  | close {t} : t ∉ s.tasks → s.handle.state = .live → s.pendingNext = none →
      Step s (.fsWatchClose t)
        { s with tasks := s.tasks ++ [t], handle := s.handle.close (some t) }
  | closed : s.handle.state = .closing →
      Step s .onClosed
        { s with
          handle := s.handle.onClosed.1, completed := s.completed ++ s.handle.onClosed.2 }

theorem step_cases {s u : State} {a : Action} (h : step s a = some u) : Step s a u := by
  cases a with
  | fsWatchNext t =>
    simp only [step, Option.ite_none_right_eq_some, Option.some.injEq] at h
    rcases h with ⟨⟨ht, hd⟩, rfl⟩
    rcases hp : s.pendingNext with _ | p
    · rcases he : s.events with _ | ⟨e, es⟩
      · have h := Step.park ht hd hp he
        simpa [fsWatchNext, recordNext, hp, he] using h
      · have h := Step.queued ht hd hp he
        simpa [fsWatchNext, recordNext, hp, he] using h
    · have h := Step.busy ht hd hp
      simpa [fsWatchNext, recordNext, hp] using h
  | onFsEvent filename events status =>
    simp only [step, Option.ite_none_right_eq_some, Option.some.injEq] at h
    rcases h with ⟨hlive, rfl⟩
    rcases hp : s.pendingNext with _ | p
    · have h : Step s (.onFsEvent filename events status) _ := .keep hlive hp
      simpa [onFsEvent, hp] using h
    · have h : Step s (.onFsEvent filename events status) _ := .handOver hlive hp
      simpa [onFsEvent, hp, deliverWatchEvent] using h
  | fsWatchClose t =>
    simp only [step, Option.ite_none_right_eq_some, Option.some.injEq] at h
    rcases h with ⟨⟨ht, hlive⟩, rfl⟩
    rcases hp : s.pendingNext with _ | p
    · have h := Step.close ht hlive hp
      simpa [fsWatchClose, hp] using h
    · have h := Step.cancel ht hlive hp
      simpa [fsWatchClose, hp] using h
  | onClosed =>
    simp only [step, Option.ite_none_right_eq_some] at h
    exact Option.some.inj h.2 ▸ .closed h.1

/-! ## 3. An open watcher -/

/-- While the watcher is open, what it holds and what it has delivered are functions of the events
received and of the next-tasks admitted. -/
structure OpenInv (s : State) : Prop where
  events : s.events = backlog s.received s.admitted
  slot : s.pendingNext.toList = parked s.received s.admitted
  delivered : s.delivered = pairs s.received s.admitted
  nexts : ∀ t, t ∈ s.nexts ↔ t ∈ s.refused ∨ t ∈ s.admitted
  tasks : ∀ t ∈ s.nexts, t ∈ s.tasks
  fresh : ∀ t, t ∉ s.tasks → s.completed.results t = []
  -- every result but the one that is still to come
  answered : ∀ p ∈ s.delivered, s.completed.results p.2 = [p.1.ev] ∧ s.strOut p.2 = p.1.name
  busy : ∀ t ∈ s.refused, s.completed.results t = [UV_EBUSY]
  waiting : ∀ t, s.pendingNext = some t → t ∈ s.tasks ∧ s.completed.results t = []

theorem openInv_init : OpenInv machine.init := by
  refine ⟨rfl, rfl, rfl, ?_, ?_, ?_, ?_, ?_, ?_⟩ <;> simp [machine]

/-- An event goes to a task that has no result yet. -/
theorem answered_deliver {s : State} {t : TaskId} {e : Event} (hres : s.completed.results t = [])
    (hans : ∀ p ∈ s.delivered, s.completed.results p.2 = [p.1.ev] ∧ s.strOut p.2 = p.1.name) :
    ∀ p ∈ (deliverWatchEvent s t e).delivered,
      (deliverWatchEvent s t e).completed.results p.2 = [p.1.ev] ∧
        (deliverWatchEvent s t e).strOut p.2 = p.1.name := by
  intro p hp
  simp only [deliverWatchEvent, List.mem_append, List.mem_singleton] at hp ⊢
  rcases hp with hp | rfl
  · have hne : t ≠ p.2 := by
      intro heq
      rw [heq, (hans p hp).1] at hres
      cases hres
    rw [Completions.results_snoc, if_neg hne, Function.update_of_ne hne.symm]
    exact hans p hp
  · rw [Completions.results_snoc, if_pos rfl, hres, Function.update_self]
    exact ⟨rfl, rfl⟩

theorem openInv_step {s u : State} {a : Action} (hs : OpenInv s) (h : step s a = some u)
    (hlive : u.handle.state = .live) : OpenInv u := by
  rcases hs with ⟨hev, hslot, hdel, hnexts, htasks, hfresh, hans, hbusy, hwait⟩
  cases step_cases h with
  | @busy t p ht _ hp =>
    -- refused: only the record of the task changes
    refine ⟨hev, hslot, hdel, ?_, ?_, ?_, ?_, ?_, ?_⟩
    · intro t'
      simp only [List.mem_append, List.mem_singleton, hnexts t']
      exact or_right_comm
    · grind
    · grind
    · grind
    · grind
    · grind
  | @queued t e es ht _ hp he =>
    have hback : backlog s.received s.admitted = e :: es := by rw [← hev, he]
    have hnone : s.pendingNext.toList = [] := by rw [hp]; rfl
    refine ⟨?_, ?_, ?_, ?_, ?_, ?_, answered_deliver (hfresh t ht) hans, ?_, ?_⟩
    · exact (backlog_request_backlog hback t).symm
    · exact hnone.trans (parked_request_backlog hback t).symm
    · show s.delivered ++ [(e, t)] = _
      rw [hdel]
      exact (pairs_request_backlog hback t).symm
    · intro t'
      simp only [deliverWatchEvent, List.mem_append, List.mem_singleton, hnexts t']
      exact or_assoc
    · grind [deliverWatchEvent]
    · grind [deliverWatchEvent]
    · grind [deliverWatchEvent]
    · grind [deliverWatchEvent]
  | @park t ht _ hp he =>
    have hback : backlog s.received s.admitted = [] := by rw [← hev, he]
    have hnone : parked s.received s.admitted = [] := by rw [← hslot, hp]; rfl
    refine ⟨?_, ?_, ?_, ?_, ?_, ?_, hans, hbusy, ?_⟩
    · rw [backlog_request hback]
      exact he
    · show [t] = _
      rw [parked_request hback, hnone]
      rfl
    · rw [pairs_request hback]
      exact hdel
    · intro t'
      simp only [List.mem_append, List.mem_singleton, hnexts t']
      exact or_assoc
    · grind
    · grind
    · grind
  | @handOver filename events status t _ hp =>
    have hpark : parked s.received s.admitted = t :: [] := by rw [← hslot, hp]; rfl
    have hback : backlog s.received s.admitted = [] := by
      rcases backlog_or_parked s.received s.admitted with hb | hb
      · exact hb
      · rw [hb] at hpark
        cases hpark
    refine ⟨?_, ?_, ?_, hnexts, htasks, ?_, answered_deliver (hwait t hp).2 hans, ?_, ?_⟩
    · rw [deliverWatchEvent, backlog_offer_parked hpark, hev, hback]
    · exact (parked_offer_parked hpark _).symm
    · show s.delivered ++ _ = _
      rw [hdel]
      exact (pairs_offer_parked hpark _).symm
    · have htask := (hwait t hp).1
      grind [deliverWatchEvent]
    · have hres := hwait t hp
      grind [deliverWatchEvent]
    · grind [deliverWatchEvent]
  | keep _ hp =>
    have hnone : parked s.received s.admitted = [] := by rw [← hslot, hp]; rfl
    refine ⟨?_, ?_, ?_, hnexts, htasks, hfresh, hans, hbusy, hwait⟩
    · rw [backlog_offer hnone, hev]
    · rw [parked_offer hnone]
      simp [hp]
    · rw [pairs_offer hnone]
      exact hdel
  | cancel => exact absurd hlive (by simp [LoopHandle.close])
  | close => exact absurd hlive (by simp [LoopHandle.close])
  | closed => exact absurd hlive (by simp [LoopHandle.onClosed])

/-- The handle is open only as long as it has always been. -/
theorem live_of_step {s u : State} {a : Action} (h : step s a = some u)
    (hlive : u.handle.state = .live) : s.handle.state = .live := by
  cases step_cases h with
  | busy | queued | park => exact hlive
  | handOver hstate => exact hstate
  | keep hstate => exact hstate
  | cancel _ hstate => exact hstate
  | close _ hstate => exact hstate
  | closed => exact absurd hlive (by simp [LoopHandle.onClosed])

theorem openInv_reachable {s : State} (h : machine.Reachable s) :
    s.handle.state = .live → OpenInv s :=
  h.invariant (P := fun s => s.handle.state = .live → OpenInv s) (fun _ => openInv_init)
    fun _ _ _ _ hs ht hlive => openInv_step (hs (live_of_step ht hlive)) ht hlive

/-- **Events are delivered in order, once each.**  On an open watcher a next-task is parked only
while no event is queued; the events delivered, each with its own name and mask to one task, and
then the queued ones are the events received, in order; the next-tasks not refused have got them in
the order of their dispatch, the last of them being parked or not; and a dispatched next-task is
answered with `EBUSY`, everything else left as it was, exactly when another one is parked. -/
theorem events_in_order {s : State} (h : machine.Reachable s) (hlive : s.handle.state = .live) :
    (s.pendingNext ≠ none → s.events = []) ∧
      s.delivered.map Prod.fst ++ s.events = s.received ∧
      s.delivered.map Prod.snd ++ s.pendingNext.toList = s.admitted ∧
      (∀ p ∈ s.delivered, s.completed.results p.2 = [p.1.ev] ∧ s.strOut p.2 = p.1.name) ∧
      (∀ t ∈ s.nexts, t ∈ s.admitted ∨ s.completed.results t = [UV_EBUSY]) ∧
      (∀ t u, step s (.fsWatchNext t) = some u →
        (s.pendingNext ≠ none ↔
          u = { recordNext s t with completed := s.completed ++ [(t, UV_EBUSY)] })) := by
  have hs := openInv_reachable h hlive
  refine ⟨?_, ?_, ?_, hs.answered, ?_, ?_⟩
  · intro hp
    rw [hs.events]
    apply (backlog_or_parked s.received s.admitted).resolve_right
    rw [← hs.slot]
    simpa using hp
  · rw [hs.delivered, hs.events]
    exact (offers_eq _ _).symm
  · rw [hs.delivered, hs.slot]
    exact (requests_eq _ _).symm
  · intro t ht
    rcases (hs.nexts t).mp ht with ht | ht
    · exact Or.inr (hs.busy t ht)
    · exact Or.inl ht
  · intro t u hu
    constructor
    · intro hp
      cases step_cases hu with
      | busy => simp [recordNext, hp]
      | queued _ _ hnone => exact absurd hnone hp
      | park _ _ hnone => exact absurd hnone hp
    · intro heq hp
      -- an admitted task leaves its mark in the queue or in the slot
      cases step_cases hu with
      | busy _ _ hsome => simp [hp] at hsome
      | @queued _ e es _ _ _ he =>
        have hev := congrArg State.events heq
        simp [deliverWatchEvent, recordNext, he] at hev
      | park =>
        have hslot := congrArg State.pendingNext heq
        simp [recordNext, hp] at hslot

/-- Three events, one of them an error, two next-tasks that wait and one that is refused. -/
def renamedTwice : List Action :=
  [.onFsEvent (some "a") 1 0, .fsWatchNext 1, .fsWatchNext 2, .fsWatchNext 3,
    .onFsEvent none 0 (-5), .onFsEvent (some "b") 2 0]

theorem events_in_order_renamedTwice :
    ∃ s, machine.run renamedTwice = some s ∧
      s.delivered.map Prod.fst ++ s.events = s.received :=
  ⟨_, rfl, (@events_in_order _ ⟨renamedTwice, rfl⟩ rfl).2.1⟩

/-! ## 4. Closing -/

/-- Completed once: with `EBUSY`, with `ECANCELED`, or with an event delivered to the task. -/
def Answered (s : State) (t : TaskId) : Prop :=
  s.completed.results t = [UV_EBUSY] ∨ s.completed.results t = [UV_ECANCELED] ∨
    ∃ e, (e, t) ∈ s.delivered ∧ s.completed.results t = [e.ev] ∧ s.strOut t = e.name

/-- Parked on an open watcher. -/
def Parked (s : State) (t : TaskId) : Prop :=
  s.pendingNext = some t ∧ s.handle.state = .live ∧ s.completed.results t = []

structure NextsAnswered (s : State) : Prop where
  nexts : ∀ t ∈ s.nexts, Answered s t ∨ Parked s t
  deleted : s.handle.state = .destroyed → s.pendingNext = none

/-- The condition on the steps: a `FsWatchNext` is dispatched on an open watcher, or finds an event
in the queue. -/
def OpenOrQueued (s : State) : Action → Prop
  | .fsWatchNext _ => s.handle.state = .live ∨ s.events ≠ []
  | _ => True

instance (s : State) (a : Action) : Decidable (OpenOrQueued s a) := by
  cases a <;> unfold OpenOrQueued <;> infer_instance

structure Inv (s : State) : Prop where
  nexts : ∀ t ∈ s.nexts, t ∈ s.tasks ∧ (Answered s t ∨ Parked s t)
  parked : ∀ t, s.pendingNext = some t → t ∈ s.nexts ∧ t ∈ s.tasks ∧ Parked s t
  fresh : ∀ t, t ∉ s.tasks → s.completed.results t = []
  -- `OnClosed` completes the close task, which is no next-task
  close : ∀ t, s.handle.closeTask = some t →
    t ∈ s.tasks ∧ t ∉ s.nexts ∧ s.handle.state = .closing

theorem inv_init : Inv machine.init := by
  refine ⟨?_, ?_, ?_, ?_⟩ <;> simp [machine]

theorem Inv.nextsAnswered {s : State} (hs : Inv s) : NextsAnswered s := by
  refine ⟨fun t ht => (hs.nexts t ht).2, fun hd => ?_⟩
  rcases hp : s.pendingNext with _ | t
  · rfl
  · have hlive := (hs.parked t hp).2.2.2.1
    rw [hd] at hlive
    cases hlive

theorem results_deliver (s : State) (t t' : TaskId) (e : Event) :
    (deliverWatchEvent s t e).completed.results t' =
      if t = t' then s.completed.results t' ++ [e.ev] else s.completed.results t' :=
  Completions.results_snoc s.completed t' t e.ev

theorem answered_deliver_self {s : State} {t : TaskId} (hres : s.completed.results t = [])
    (e : Event) : Answered (deliverWatchEvent s t e) t := by
  refine Or.inr (Or.inr ⟨e, by simp [deliverWatchEvent], ?_, by simp [deliverWatchEvent]⟩)
  rw [results_deliver, if_pos rfl, hres]
  rfl

theorem Answered.deliver {s : State} {t t' : TaskId} (h : Answered s t') (hne : t ≠ t')
    (e : Event) : Answered (deliverWatchEvent s t e) t' := by
  have hres := results_deliver s t t' e
  rw [if_neg hne] at hres
  have hstr : (deliverWatchEvent s t e).strOut t' = s.strOut t' :=
    Function.update_of_ne hne.symm _ _
  rcases h with h | h | ⟨e', he', h, hname⟩
  · exact Or.inl (hres.trans h)
  · exact Or.inr (Or.inl (hres.trans h))
  · exact Or.inr (Or.inr ⟨e', List.mem_append_left _ he', hres.trans h, hstr.trans hname⟩)

/-- A delivery to the only next-task that is not answered. -/
theorem inv_deliver {s : State} {t : TaskId}
    (hn : ∀ t' ∈ s.nexts, t' ∈ s.tasks ∧ (t' = t ∨ Answered s t')) (ht : t ∈ s.tasks)
    (hres : s.completed.results t = []) (hslot : s.pendingNext = none)
    (hf : ∀ t', t' ∉ s.tasks → s.completed.results t' = [])
    (hc : ∀ t', s.handle.closeTask = some t' →
      t' ∈ s.tasks ∧ t' ∉ s.nexts ∧ s.handle.state = .closing) (e : Event) :
    Inv (deliverWatchEvent s t e) := by
  refine ⟨?_, ?_, ?_, hc⟩
  · intro t' ht'
    refine ⟨(hn t' ht').1, Or.inl ?_⟩
    by_cases heq : t = t'
    · exact heq ▸ answered_deliver_self hres e
    · exact ((hn t' ht').2.resolve_left fun h => heq h.symm).deliver heq e
  · exact fun t' ht' => absurd (hslot.symm.trans ht') (by simp)
  · intro t' ht'
    have hne : t ≠ t' := fun heq => ht' (heq ▸ ht)
    rw [results_deliver, if_neg hne]
    exact hf t' ht'

/-- With the slot empty every next-task is answered. -/
theorem Inv.answered {s : State} (hs : Inv s) (hslot : s.pendingNext = none) {t : TaskId}
    (ht : t ∈ s.nexts) : Answered s t :=
  (hs.nexts t ht).2.resolve_right fun h => absurd (hslot.symm.trans h.1) (by simp)

/-- A task is dispatched. -/
theorem inv_dispatch {s : State} (hs : Inv s) (t : TaskId) :
    Inv { s with tasks := s.tasks ++ [t] } := by
  refine ⟨?_, ?_, ?_, ?_⟩
  · intro t' ht'
    exact ⟨List.mem_append_left _ (hs.nexts t' ht').1, (hs.nexts t' ht').2⟩
  · intro t' ht'
    have hold := hs.parked t' ht'
    exact ⟨hold.1, List.mem_append_left _ hold.2.1, hold.2.2⟩
  · intro t' ht'
    exact hs.fresh t' fun h => ht' (List.mem_append_left _ h)
  · intro t' ht'
    exact ⟨List.mem_append_left _ (hs.close t' ht').1, (hs.close t' ht').2⟩

theorem Answered.complete {s : State} {t t' : TaskId} (h : Answered s t') (r : Int)
    (hne : t' ≠ t) : Answered { s with completed := s.completed ++ [(t, r)] } t' := by
  have hres := s.completed.results_snoc_of_ne hne r
  rcases h with h | h | ⟨e, he, h, hname⟩
  · exact Or.inl (hres.trans h)
  · exact Or.inr (Or.inl (hres.trans h))
  · exact Or.inr (Or.inr ⟨e, he, hres.trans h, hname⟩)

/-- A completion of a task that is no next-task. -/
theorem inv_complete {s : State} {t : TaskId} {r : Int} (hs : Inv s) (ht : t ∈ s.tasks)
    (hn : t ∉ s.nexts) : Inv { s with completed := s.completed ++ [(t, r)] } := by
  have hne : ∀ t' ∈ s.nexts, t' ≠ t := fun t' ht' heq => hn (heq ▸ ht')
  have hpark : ∀ t' ∈ s.nexts, Parked s t' →
      Parked { s with completed := s.completed ++ [(t, r)] } t' := by
    intro t' ht' h
    exact ⟨h.1, h.2.1, (s.completed.results_snoc_of_ne (hne t' ht') r).trans h.2.2⟩
  refine ⟨?_, ?_, ?_, hs.close⟩
  · intro t' ht'
    refine ⟨(hs.nexts t' ht').1, ?_⟩
    exact (hs.nexts t' ht').2.imp (fun h => h.complete r (hne t' ht')) (hpark t' ht')
  · intro t' ht'
    have hold := hs.parked t' ht'
    exact ⟨hold.1, hold.2.1, hpark t' hold.1 hold.2.2⟩
  · intro t' ht'
    have hne' : t' ≠ t := by
      rintro rfl
      exact ht' ht
    exact (s.completed.results_snoc_of_ne hne' r).trans (hs.fresh t' ht')

/-- An answered task is recorded as a next-task. -/
theorem inv_next {s : State} {t : TaskId} (hs : Inv s) (ht : t ∈ s.tasks) (ha : Answered s t)
    (hc : s.handle.closeTask ≠ some t) : Inv { s with nexts := s.nexts ++ [t] } := by
  refine ⟨?_, ?_, hs.fresh, ?_⟩
  · intro t' ht'
    rcases List.mem_append.mp ht' with ht' | ht'
    · exact hs.nexts t' ht'
    · rw [List.mem_singleton.mp ht']
      exact ⟨ht, Or.inl ha⟩
  · intro t' ht'
    exact ⟨List.mem_append_left _ (hs.parked t' ht').1, (hs.parked t' ht').2⟩
  · intro t' ht'
    have hold := hs.close t' ht'
    refine ⟨hold.1, ?_, hold.2.2⟩
    rw [List.mem_append, List.mem_singleton, not_or]
    exact ⟨hold.2.1, fun heq => hc (heq ▸ ht')⟩

/-- A new next-task goes to the empty slot of an open watcher. -/
theorem inv_park {s : State} {t : TaskId} (hs : Inv s) (ht : t ∉ s.tasks)
    (hslot : s.pendingNext = none) (hlive : s.handle.state = .live) :
    Inv { s with
      tasks := s.tasks ++ [t], nexts := s.nexts ++ [t], pendingNext := some t } := by
  have hpark : Parked { s with pendingNext := some t } t := ⟨rfl, hlive, hs.fresh t ht⟩
  refine ⟨?_, ?_, (inv_dispatch hs t).fresh, ?_⟩
  · intro t' ht'
    rcases List.mem_append.mp ht' with ht' | ht'
    · exact ⟨List.mem_append_left _ (hs.nexts t' ht').1, Or.inl (hs.answered hslot ht')⟩
    · rw [List.mem_singleton.mp ht']
      exact ⟨List.mem_append_right _ (List.mem_singleton_self _), Or.inr hpark⟩
  · intro t' ht'
    cases ht'
    have hself := List.mem_singleton_self t
    exact ⟨List.mem_append_right _ hself, List.mem_append_right _ hself, hpark⟩
  · intro t' ht'
    exact absurd (hlive.symm.trans (hs.close t' ht').2.2) (by simp)

/-- The parked next-task is cancelled. -/
theorem inv_cancel {s : State} {p : TaskId} (hs : Inv s) (hslot : s.pendingNext = some p) :
    Inv { s with
      pendingNext := none, completed := s.completed ++ [(p, UV_ECANCELED)] } := by
  have hold := hs.parked p hslot
  refine ⟨?_, (fun t' ht' => by cases ht'), ?_, hs.close⟩
  · intro t' ht'
    refine ⟨(hs.nexts t' ht').1, Or.inl ?_⟩
    by_cases heq : t' = p
    · refine Or.inr (Or.inl ?_)
      rw [heq]
      exact Completions.results_snoc_self hold.2.2.2.2 _
    · have hans := (hs.nexts t' ht').2.resolve_right fun h =>
        heq (Option.some.inj (h.1.symm.trans hslot))
      exact hans.complete _ heq
  · intro t' ht'
    have hne : t' ≠ p := by
      rintro rfl
      exact ht' hold.2.1
    exact (s.completed.results_snoc_of_ne hne _).trans (hs.fresh t' ht')

/-- The handle starts to close. -/
theorem inv_close {s : State} {t : TaskId} (hs : Inv s) (ht : t ∉ s.tasks)
    (hslot : s.pendingNext = none) :
    Inv { s with tasks := s.tasks ++ [t], handle := s.handle.close (some t) } := by
  refine ⟨?_, ?_, (inv_dispatch hs t).fresh, ?_⟩
  · intro t' ht'
    exact ⟨List.mem_append_left _ (hs.nexts t' ht').1, Or.inl (hs.answered hslot ht')⟩
  · exact fun t' ht' => absurd (hslot.symm.trans ht') (by simp)
  · intro t' ht'
    cases ht'
    refine ⟨List.mem_append_right _ (List.mem_singleton_self _), ?_, rfl⟩
    exact fun hn => ht (hs.nexts t hn).1

theorem inv_onClosed {s : State} (hs : Inv s) (hclosing : s.handle.state = .closing) :
    Inv { s with
      handle := s.handle.onClosed.1, completed := s.completed ++ s.handle.onClosed.2 } := by
  -- a parked next-task has an open watcher
  have hslot : s.pendingNext = none := by
    rcases hp : s.pendingNext with _ | t
    · rfl
    · exact absurd (hclosing.symm.trans (hs.parked t hp).2.2.2.1) (by simp)
  have hs' : Inv { s with handle := s.handle.onClosed.1 } := by
    refine ⟨?_, ?_, hs.fresh, ?_⟩
    · exact fun t ht => ⟨(hs.nexts t ht).1, Or.inl (hs.answered hslot ht)⟩
    · exact fun t ht => absurd (hslot.symm.trans ht) (by simp)
    · intro t ht
      cases ht
  rcases hct : s.handle.closeTask with _ | t
  · simp only [LoopHandle.onClosed, hct, List.append_nil] at hs' ⊢
    exact hs'
  · simp only [LoopHandle.onClosed, hct] at hs' ⊢
    exact inv_complete hs' (hs.close t hct).1 (hs.close t hct).2.1

theorem inv_step {s u : State} {a : Action} (hs : Inv s) (hC : OpenOrQueued s a)
    (h : step s a = some u) : Inv u := by
  cases step_cases h with
  | @busy t p ht =>
    have hself : t ∈ s.tasks ++ [t] := List.mem_append_right _ (List.mem_singleton_self t)
    have hdone : Inv { s with
        tasks := s.tasks ++ [t], completed := s.completed ++ [(t, UV_EBUSY)] } :=
      inv_complete (inv_dispatch hs t) hself fun hn => ht (hs.nexts t hn).1
    have hnext := inv_next hdone hself
      (Or.inl (Completions.results_snoc_self (hs.fresh t ht) _))
      fun hct => ht (hs.close t hct).1
    exact { hnext with }
  | @queued t e es ht _ hslot he =>
    apply inv_deliver
    · intro t' ht'
      rcases List.mem_append.mp ht' with ht' | ht'
      · exact ⟨List.mem_append_left _ (hs.nexts t' ht').1, Or.inr (hs.answered hslot ht')⟩
      · exact ⟨List.mem_append_right _ ht', Or.inl (List.mem_singleton.mp ht')⟩
    · exact List.mem_append_right _ (List.mem_singleton_self _)
    · exact hs.fresh t ht
    · exact hslot
    · exact (inv_dispatch hs t).fresh
    · intro t' hct
      have hold := hs.close t' hct
      refine ⟨List.mem_append_left _ hold.1, ?_, hold.2.2⟩
      rw [List.mem_append, List.mem_singleton, not_or]
      exact ⟨hold.2.1, fun heq => ht (heq ▸ hold.1)⟩
  | park ht _ hslot he =>
    -- no event is queued, so the watcher is open
    have hlive : s.handle.state = .live := hC.resolve_right fun hne => hne he
    exact { inv_park hs ht hslot hlive with }
  | @handOver _ _ _ t hlive hslot =>
    have hold := hs.parked t hslot
    apply inv_deliver
    · intro t' ht'
      refine ⟨(hs.nexts t' ht').1, (hs.nexts t' ht').2.symm.imp_left fun h => ?_⟩
      exact Option.some.inj (h.1.symm.trans hslot)
    · exact hold.2.1
    · exact hold.2.2.2.2
    · rfl
    · exact hs.fresh
    · exact hs.close
  | keep => exact ⟨hs.nexts, hs.parked, hs.fresh, hs.close⟩
  | cancel ht _ hslot => exact inv_close (inv_cancel hs hslot) ht rfl
  | close ht _ hslot => exact inv_close hs ht hslot
  | closed hclosing => exact inv_onClosed hs hclosing

/-- A next-task in the slot of a watcher that is closing or gone. -/
structure Lost (s : State) (t : TaskId) : Prop where
  next : t ∈ s.nexts
  task : t ∈ s.tasks
  slot : s.pendingNext = some t
  state : s.handle.state ≠ .live
  result : s.completed.results t = []
  close : s.handle.closeTask ≠ some t

/-- No event comes any more and nobody cancels the task. -/
theorem lost_step {s u : State} {t : TaskId} {a : Action} (hs : Lost s t)
    (h : step s a = some u) : Lost u t := by
  rcases hs with ⟨hn, ht, hslot, hst, hres, hct⟩
  cases step_cases h with
  | busy ht' => refine ⟨?_, ?_, ?_, ?_, ?_, ?_⟩ <;> grind
  | queued _ _ hnone | park _ _ hnone => exact absurd (hslot.symm.trans hnone) (by simp)
  | handOver hlive | keep hlive | cancel _ hlive | close _ hlive => exact absurd hlive hst
  | closed hclosing =>
    refine ⟨hn, ht, hslot, by simp [LoopHandle.onClosed], ?_, by simp [LoopHandle.onClosed]⟩
    rcases hclose : s.handle.closeTask with _ | t'
    · simpa [LoopHandle.onClosed, hclose] using hres
    · have hne : t ≠ t' := fun heq => hct (heq ▸ hclose)
      simp only [LoopHandle.onClosed, hclose]
      exact (s.completed.results_snoc_of_ne hne 0).trans hres

/-- A `FsWatchNext` outside the condition is parked where nothing wakes it. -/
theorem lost_of_not_openOrQueued {s u : State} {a : Action} (hs : Inv s)
    (hC : ¬ OpenOrQueued s a) (h : step s a = some u) : ∃ t, Lost u t := by
  cases a with
  | onFsEvent | fsWatchClose | onClosed => exact absurd trivial hC
  | fsWatchNext t =>
    simp only [OpenOrQueued, not_or, ne_eq, not_not] at hC
    cases step_cases h with
    | busy _ _ hslot => exact absurd (hs.parked _ hslot).2.2.2.1 hC.1
    | queued _ _ _ he => rw [hC.2] at he; cases he
    | park ht =>
      refine ⟨t, by simp, by simp, rfl, hC.1, hs.fresh t ht, ?_⟩
      exact fun hct => ht (hs.close t hct).1

theorem Lost.not_answered {s : State} {t : TaskId} (hs : Lost s t) : ¬ Answered s t := by
  intro h
  rcases h with h | h | ⟨_, _, h, _⟩ <;> rw [hs.result] at h <;> cases h

/-- **When closing ends every watch-next.**  All along a schedule every next-task is answered once
or parked on an open watcher, and none is in the slot of a deleted one, if and only if every
`FsWatchNext` was dispatched on an open watcher or found a queued event; and of a schedule at whose
end the watcher is deleted this is so if and only if every next-task has been answered once. -/
theorem nexts_answered_iff {as : List Action} {s : State} (hrun : machine.run as = some s) :
    (machine.Always NextsAnswered machine.init as ↔
        machine.Meets OpenOrQueued machine.init as) ∧
      (s.handle.state = .destroyed →
        ((∀ t ∈ s.nexts, Answered s t) ↔ machine.Meets OpenOrQueued machine.init as)) := by
  have halways : machine.Always NextsAnswered machine.init as ↔
      machine.Meets OpenOrQueued machine.init as := by
    refine Machine.always_iff_meets (fun _ _ _ hs hC ht => inv_step hs hC ht)
      (fun _ hs => hs.nextsAnswered) ?_ inv_init hrun
    intro s a t hs hC ht hans
    rcases lost_of_not_openOrQueued hs hC ht with ⟨t', hlost⟩
    rcases hans.nexts t' hlost.next with h | h
    · exact hlost.not_answered h
    · exact hlost.state h.2.1
  refine ⟨halways, fun hd => ?_⟩
  constructor
  · intro hans
    refine Machine.meets_of_unmarked (B := fun s => ∃ t, Lost s t)
      (fun _ _ _ hs hC ht => inv_step hs hC ht)
      (fun _ _ _ hs hC ht => lost_of_not_openOrQueued hs hC ht)
      (fun _ _ _ hs ht => hs.imp fun _ h => lost_step h ht) inv_init hrun ?_
    intro hlost
    rcases hlost with ⟨t, hlost⟩
    exact hlost.not_answered (hans t hlost.next)
  · intro hmeets t ht
    rcases ((halways.mpr hmeets).last hrun).nexts t ht with h | h
    · exact h
    · exact absurd (hd.symm.trans h.2.1) (by simp)

/-- One next-task gets an event, one is refused, one is cancelled, and one dispatched after the
close finds a queued event. -/
def closedInTime : List Action :=
  [.fsWatchNext 1, .fsWatchNext 2, .onFsEvent (some "a") 1 0, .onFsEvent (some "b") 2 0,
    .fsWatchClose 3, .fsWatchNext 4, .onClosed]

theorem nexts_answered_closedInTime :
    machine.Always NextsAnswered machine.init closedInTime :=
  (@nexts_answered_iff closedInTime _ rfl).1.mpr (by decide)

/-- The close and a next of another fiber in one batch. -/
def nextAfterClose : List Action := [.fsWatchClose 1, .fsWatchNext 2, .onClosed]

theorem next_lost_after_close :
    ∃ s, machine.run nextAfterClose = some s ∧ s.handle.state = .destroyed ∧
      s.pendingNext = some 2 ∧ s.nexts = [2] ∧ s.completed = [(1, 0)] ∧ ¬ NextsAnswered s :=
  ⟨_, rfl, rfl, rfl, rfl, rfl, fun h => absurd (h.deleted rfl) (by decide)⟩

end ChezAsync.Watch
