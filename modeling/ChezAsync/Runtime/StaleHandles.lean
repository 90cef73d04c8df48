import Mathlib.Logic.Function.Basic
import Mathlib.Data.List.Basic
import Mathlib.Tactic.Common
import ChezAsync.Lib.Machine
import ChezAsync.Runtime.Accept
import ChezAsync.Runtime.Shutdown

/-!
# Stale listener handles (`runtime.cpp`)

Scheme closes a listener by its handle, the raw address that the listen has returned, and may do so
again when the listener is closed.  In between the allocator may have given the address to another
listener.  Here the handles are numbered in the order in which they are issued, so that two handles
with the same address are told apart.
-/

namespace ChezAsync.StaleHandles

open Accept (Addr Listener)

/-! ## 1. The machine -/

structure State where
  rt : Accept.State
  /-- The addresses that listens have returned, in order. -/
  handles : List Addr
  -- The record of the run: the number of the handle that was issued for the listener at an address.
  owner : Addr → Option Nat

inductive Action
  /-- `ListenerClose` with the `h`-th handle. -/
  | listenerClose (t : TaskId) (h : Nat)
  | other (a : Accept.Action)
  deriving DecidableEq

/-- What a step of the runtime does to the handles. -/
def record (s : State) (a : Accept.Action) (rt : Accept.State) : State :=
  match a with
  | .tcpListen _ l rc =>
      if rc < 0 then { s with rt, owner := Function.update s.owner l none }
      else
        { rt, handles := s.handles ++ [l]
          owner := Function.update s.owner l (some s.handles.length) }
  | .onClosed l => { s with rt, owner := Function.update s.owner l none }
  | _ => { s with rt }

def step (s : State) : Action → Option State
  | .listenerClose t h => do
      let l ← s.handles[h]?
      let rt ← Accept.step s.rt (.listenerClose t l)
      some { s with rt }
  -- a close is one with a handle
  | .other (.listenerClose _ _) => none
  | .other a => (Accept.step s.rt a).map (record s a)

def machine : Machine State Action where
  init := { rt := Accept.machine.init, handles := [], owner := fun _ => none }
  step := step

/-- One constructor for each kind of step. -/
inductive Step (s : State) : Action → State → Prop
  | listenerClose {t h l rt} : s.handles[h]? = some l →
      Accept.step s.rt (.listenerClose t l) = some rt → Step s (.listenerClose t h) { s with rt }
  | other {a rt} : (∀ t l, a ≠ .listenerClose t l) → Accept.step s.rt a = some rt →
      Step s (.other a) (record s a rt)

theorem step_cases {s u : State} {a : Action} (h : step s a = some u) : Step s a u := by
  cases a with
  | listenerClose t n =>
    simp only [step, Option.bind_eq_bind, Option.bind_eq_some_iff, Option.some.injEq] at h
    rcases h with ⟨l, hl, rt, hrt, rfl⟩
    exact .listenerClose hl hrt
  | other a =>
    have hne : ∀ t l, a ≠ .listenerClose t l := by
      rintro t l rfl
      cases h
    have hstep : step s (.other a) = (Accept.step s.rt a).map (record s a) := by
      cases a with
      | listenerClose t l => exact absurd rfl (hne t l)
      | _ => rfl
    rw [hstep, Option.map_eq_some_iff] at h
    rcases h with ⟨rt, hrt, rfl⟩
    exact .other hne hrt

/-! ## 2. What a close may do -/

/-- The listener of the `h`-th handle is open, and the step begins to close it. -/
def Closes (s u : State) (t : TaskId) (h : Nat) : Prop :=
  ∃ l, s.handles[h]? = some l ∧ s.owner l = some h ∧ s.rt.heap.Open l ∧
    ∃ y, u.rt.heap l = some y ∧ y.handle = { state := .closing, closeTask := some t }

/-- A `ListenerClose` with the `h`-th handle closes the listener of that handle or completes with 0,
and leaves every other open listener as it is. -/
structure Harmless (s u : State) (t : TaskId) (h : Nat) : Prop where
  result : Closes s u t h ∨ u.rt.completed = s.rt.completed ++ [(t, 0)]
  others : ∀ l, s.rt.heap.Open l → s.owner l ≠ some h →
    u.rt.heap l = s.rt.heap l ∧ (l ∈ u.rt.listeners ↔ l ∈ s.rt.listeners)
  -- whoever is completed besides the close itself was parked on the listener of the handle
  completed : ∃ cs, u.rt.completed = s.rt.completed ++ cs ∧
    ∀ p ∈ cs, p = (t, 0) ∨ ∃ l, s.owner l = some h ∧ s.rt.heap.Pending p.1 l

def ClosesItsOwn (s : State) : Action → Prop
  | .listenerClose t h => ∀ u, step s (.listenerClose t h) = some u → Harmless s u t h
  | _ => True

/-- The condition on the steps: a close is not dispatched while a listener that was opened after
that of the handle has its address. -/
def NotReused (s : State) : Action → Prop
  | .listenerClose _ h => ∀ l ∈ s.handles[h]?, l ∈ s.rt.listeners → l ∉ s.handles.drop (h + 1)
  | _ => True

instance (s : State) (a : Action) : Decidable (NotReused s a) := by
  cases a <;> unfold NotReused <;> infer_instance

/-! ## 3. Who is in the registry -/

structure Inv (s : State) : Prop where
  registry : Shutdown.Registry s.rt
  -- what is in the registry has the latest of the handles with its address
  owned : ∀ l ∈ s.rt.listeners, ∃ m, s.owner l = some m ∧ s.handles[m]? = some l ∧
    l ∉ s.handles.drop (m + 1)

theorem inv_init : Inv machine.init :=
  ⟨⟨List.nodup_nil, (fun _ h => by cases h)⟩, (fun _ h => by cases h)⟩

/-- A listener is in the registry when it was before, or when a listen has just opened it. -/
theorem listeners_step {s u : Accept.State} {a : Accept.Action} (h : Accept.step s a = some u)
    {l : Addr} (hl : l ∈ u.listeners) :
    l ∈ s.listeners ∨ ∃ t rc, a = .tcpListen t l rc ∧ ¬ rc < 0 := by
  cases (Accept.step_cases h).2 with
  | @tcpListen t l' rc =>
    unfold Accept.tcpListen at hl
    split at hl
    · exact Or.inl hl
    case isFalse hrc =>
      rcases List.mem_cons.mp hl with rfl | hl
      · exact Or.inr ⟨t, rc, rfl, hrc⟩
      · exact Or.inl hl
  | onConnection =>
    unfold Accept.onConnection at hl
    split at hl
    · exact Or.inl hl
    · dsimp only at hl
      split at hl
      · exact Or.inl hl
      · split at hl <;> exact Or.inl hl
  | tcpAccept =>
    unfold Accept.tcpAccept at hl
    split at hl
    · exact Or.inl hl
    · split at hl <;> exact Or.inl hl
  | listenerClose =>
    unfold Accept.listenerClose at hl
    split at hl
    · unfold Accept.abortListener at hl
      split at hl <;> exact Or.inl (List.mem_of_mem_erase hl)
    · exact Or.inl hl
  | onClosed => exact Or.inl hl
  | onSignal =>
    unfold Accept.onSignal at hl
    split at hl
    · exact Or.inl hl
    · cases hl

section
variable {s u : State} {t : TaskId} {h : Nat} {l : Addr}

-- The registry has open listeners only, so an address in it has an object.
theorem Inv.open_of_mem (hs : Inv s) (hl : l ∈ s.rt.listeners) :
    ∃ x, s.rt.heap l = some x ∧ x.handle = { state := .live, closeTask := none } :=
  Option.map_eq_some_iff.mp (hs.registry.handle l hl)

/-- The steps that change who owns an address are not about a registered listener. -/
theorem owner_record (hs : Inv s) {a : Accept.Action} {rt : Accept.State}
    (hstep : Accept.step s.rt a = some rt) (hl : l ∈ s.rt.listeners) :
    (record s a rt).owner l = s.owner l ∧ ∀ m, s.handles[m]? = some l →
      l ∉ s.handles.drop (m + 1) →
      (record s a rt).handles[m]? = some l ∧ l ∉ (record s a rt).handles.drop (m + 1) := by
  rcases hs.open_of_mem hl with ⟨x, hx, hlive⟩
  have hkeep : ∀ m, s.handles[m]? = some l → l ∉ s.handles.drop (m + 1) →
      s.handles[m]? = some l ∧ l ∉ s.handles.drop (m + 1) := fun m hm hdrop => ⟨hm, hdrop⟩
  cases (Accept.step_cases hstep).2 with
  | @tcpListen _ l' rc _ hfree =>
    have hne : l ≠ l' := by
      rintro rfl
      cases hx.symm.trans hfree
    simp only [record]
    split
    · exact ⟨Function.update_of_ne hne _ _, hkeep⟩
    · refine ⟨Function.update_of_ne hne _ _, fun m hm hdrop => ?_⟩
      have hlt : m < s.handles.length := (List.getElem?_eq_some_iff.mp hm).1
      refine ⟨(List.getElem?_append_left hlt).trans hm, ?_⟩
      rw [List.drop_append_of_le_length hlt, List.mem_append, List.mem_singleton, not_or]
      exact ⟨hdrop, hne⟩
  | @onClosed l' y hy hclosing =>
    have hne : l ≠ l' := by
      rintro rfl
      rw [Option.some.inj (hx.symm.trans hy)] at hlive
      rw [hlive] at hclosing
      cases hclosing
    exact ⟨Function.update_of_ne hne _ _, hkeep⟩
  | onConnection | tcpAccept | listenerClose | onSignal => exact ⟨rfl, hkeep⟩

-- By the kinds of steps; the listen and `OnClosed` are the ones that move an owner.
theorem inv_step {a : Action} (hs : Inv s) (hstep : step s a = some u) : Inv u := by
  cases step_cases hstep with
  | @listenerClose t h l rt hl hrt =>
    refine ⟨Shutdown.registry_step hs.registry hrt, fun l' hl' => ?_⟩
    rcases listeners_step hrt hl' with hold | ⟨_, _, heq, -⟩
    · exact hs.owned l' hold
    · cases heq
  | @other a rt hne hrt =>
    have hrt' : (record s a rt).rt = rt := by
      unfold record
      split
      · split <;> rfl
      · rfl
      · rfl
    refine ⟨hrt'.symm ▸ Shutdown.registry_step hs.registry hrt, fun l hl => ?_⟩
    rw [hrt'] at hl
    rcases listeners_step hrt hl with hold | ⟨t, rc, rfl, hrc⟩
    · rcases hs.owned l hold with ⟨m, hm, hget, hdrop⟩
      have hrecord := owner_record hs hrt hold
      exact ⟨m, hrecord.1.trans hm, hrecord.2 m hget hdrop⟩
    · -- the newest handle is the latest of all
      simp only [record, if_neg hrc]
      refine ⟨s.handles.length, Function.update_self .., List.getElem?_concat_length, ?_⟩
      rw [List.drop_of_length_le (by simp)]
      exact List.not_mem_nil

/-! ## 4. One close -/

/-- What a close does when nobody is in the registry at its address, or the listener at `l`. -/
theorem close_cases {rt : Accept.State} (hrt : Accept.step s.rt (.listenerClose t l) = some rt) :
    (l ∉ s.rt.listeners ∧ rt.heap = s.rt.heap ∧ rt.listeners = s.rt.listeners ∧
      rt.completed = s.rt.completed ++ [(t, 0)]) ∨
    (l ∈ s.rt.listeners ∧ ∀ x, s.rt.heap l = some x →
      rt.heap = Function.update s.rt.heap l (some { accepted := [], pendingAccepts := []
                                                    handle := x.handle.close (some t) }) ∧
      rt.listeners = s.rt.listeners.erase l ∧
      rt.completed = s.rt.completed ++ x.pendingAccepts.map fun p => (p, UV_ECANCELED)) := by
  cases (Accept.step_cases hrt).2 with
  | listenerClose =>
    unfold Accept.listenerClose
    split
    case isTrue hl =>
      refine Or.inr ⟨hl, fun x hx => ?_⟩
      simp only [Accept.abortListener, hx, and_self]
    case isFalse hl => exact Or.inl ⟨hl, rfl, rfl, rfl⟩

-- With no later listener at the address it is the own listener, or nothing is there.
theorem harmless_of_notReused (hs : Inv s) (hC : NotReused s (.listenerClose t h))
    (hstep : step s (.listenerClose t h) = some u) : Harmless s u t h := by
  cases step_cases hstep with
  | @listenerClose _ _ l rt hget hrt =>
    rcases close_cases hrt with ⟨-, hheap, hlisteners, hcompleted⟩ | ⟨hl, hclose⟩
    · refine ⟨Or.inr hcompleted, fun l' _ _ => ⟨congrFun hheap l', hlisteners ▸ Iff.rfl⟩,
        [(t, 0)], hcompleted, fun p hp => Or.inl (List.mem_singleton.mp hp)⟩
    · rcases hs.open_of_mem hl with ⟨x, hx, hlive⟩
      rcases hclose x hx with ⟨hheap, hlisteners, hcompleted⟩
      -- the latest handle with the address is the one given
      have howner : s.owner l = some h := by
        rcases hs.owned l hl with ⟨m, hm, hmget, hdrop⟩
        have hlatest := hC l hget hl
        rcases Nat.lt_trichotomy m h with hlt | heq | hgt
        · refine absurd (List.mem_iff_getElem?.mpr ⟨h - (m + 1), ?_⟩) hdrop
          rw [List.getElem?_drop, Nat.add_sub_cancel' hlt]
          exact hget
        · exact heq ▸ hm
        · refine absurd (List.mem_iff_getElem?.mpr ⟨m - (h + 1), ?_⟩) hlatest
          rw [List.getElem?_drop, Nat.add_sub_cancel' hgt]
          exact hmget
      refine ⟨Or.inl ⟨l, hget, howner, ⟨x, hx, ?_⟩, ?_⟩, fun l' _ hne => ?_, ?_⟩
      · rw [hlive]
      · refine ⟨_, (congrFun hheap l).trans (Function.update_self ..), ?_⟩
        rfl
      · have hfar : l' ≠ l := fun heq => hne (heq ▸ howner)
        refine ⟨(congrFun hheap l').trans (Function.update_of_ne hfar _ _), ?_⟩
        show l' ∈ rt.listeners ↔ _
        rw [hlisteners]
        exact List.mem_erase_of_ne hfar
      · refine ⟨_, hcompleted, fun p hp => Or.inr ?_⟩
        rcases List.mem_map.mp hp with ⟨t', ht', rfl⟩
        exact ⟨l, howner, x, hx, ht'⟩

-- The registry has somebody else at the address, and the close goes through to it.
theorem not_harmless_of_reused (hs : Inv s) (hC : ¬ NotReused s (.listenerClose t h))
    (hstep : step s (.listenerClose t h) = some u) : ¬ Harmless s u t h := by
  cases step_cases hstep with
  | @listenerClose _ _ l rt hget hrt =>
    simp only [NotReused, hget, Option.mem_def, Option.some.injEq, forall_eq', not_forall,
      not_not] at hC
    rcases hC with ⟨hl, hlater⟩
    rcases hs.open_of_mem hl with ⟨x, hx, hlive⟩
    rcases close_cases hrt with ⟨hnot, -⟩ | ⟨-, hclose⟩
    · exact absurd hl hnot
    · intro hharmless
      have howner : s.owner l ≠ some h := by
        rcases hs.owned l hl with ⟨m, hm, -, hdrop⟩
        intro heq
        rw [hm, Option.some.injEq] at heq
        exact hdrop (heq ▸ hlater)
      have hopen : s.rt.heap.Open l := ⟨x, hx, by rw [hlive]⟩
      -- another listener at the address is closed
      have hsame : rt.heap l = s.rt.heap l := (hharmless.others l hopen howner).1
      rw [(hclose x hx).1, Function.update_self, hx, Option.some.injEq] at hsame
      have hstate := congrArg (fun y => y.handle.state) hsame
      simp only [LoopHandle.close, hlive] at hstate
      cases hstate

/-- **When a stale handle is harmless.**  In every run, with every choice of addresses, each close
closes the listener of its own handle or completes with 0, and leaves the other listeners alone, if
and only if no close is dispatched while a later listener has the address of its handle. -/
theorem closes_its_own_iff {as : List Action} (hrun : machine.run as = some s) :
    machine.Meets ClosesItsOwn machine.init as ↔ machine.Meets NotReused machine.init as := by
  refine Machine.meets_congr (I := Inv) (fun _ _ _ hs hstep => inv_step hs hstep) ?_ inv_init hrun
  intro s a u hs hstep
  cases a with
  | other a => exact Iff.rfl
  | listenerClose t h =>
    constructor
    · intro hharmless
      by_contra hC
      exact not_harmless_of_reused hs hC hstep (hharmless u hstep)
    · intro hC v hv
      exact harmless_of_notReused hs hC hv

/-- A handle is closed twice, the second time when its address has been reused and freed again, and
the listener opened last is closed with its own handle. -/
def closedTwice : List Action :=
  [.other (.tcpListen 1 16 0), .listenerClose 2 0, .other (.onClosed 16),
    .other (.tcpListen 3 16 0), .other (.tcpAccept 4 16), .listenerClose 5 1, .listenerClose 6 0]

theorem closes_its_own_closedTwice : machine.Meets ClosesItsOwn machine.init closedTwice :=
  (@closes_its_own_iff _ closedTwice rfl).mpr (by decide)

/-- The listener of the first handle is closed and deleted, and the second listen gets its
address. -/
def reused : List Action :=
  [.other (.tcpListen 1 16 0), .listenerClose 2 0, .other (.onClosed 16),
    .other (.tcpListen 3 16 0), .other (.tcpAccept 4 16)]

/-- Closing the first handle again closes the second listener and cancels its accept. -/
theorem stale_close_closes_other :
    ∃ s u, machine.run reused = some s ∧ step s (.listenerClose 5 0) = some u ∧
      s.handles = [16, 16] ∧ s.owner 16 = some 1 ∧ s.rt.heap.Open 16 ∧ ¬ u.rt.heap.Open 16 ∧
      u.rt.completed = s.rt.completed ++ [(4, UV_ECANCELED)] ∧ ¬ Harmless s u 5 0 := by
  have hend : ∃ s u, machine.run reused = some s ∧ step s (.listenerClose 5 0) = some u ∧
      s.handles = [16, 16] ∧ s.owner 16 = some 1 ∧
      s.rt.heap 16 = some { accepted := [], pendingAccepts := [4]
                            handle := { state := .live, closeTask := none } } ∧
      u.rt.heap 16 = some { accepted := [], pendingAccepts := []
                            handle := { state := .closing, closeTask := some 5 } } ∧
      u.rt.completed = s.rt.completed ++ [(4, UV_ECANCELED)] :=
    ⟨_, _, rfl, rfl, rfl, rfl, rfl, rfl, rfl⟩
  rcases hend with ⟨s, u, hrun, hstep, hhandles, howner, hs, hu, hcompleted⟩
  have hopen : s.rt.heap.Open 16 := ⟨_, hs, rfl⟩
  have hclosed : ¬ u.rt.heap.Open 16 := by
    rw [Accept.Heap.open_iff hu]
    decide
  refine ⟨s, u, hrun, hstep, hhandles, howner, hopen, hclosed, hcompleted, fun hharmless => ?_⟩
  have hsame := (hharmless.others 16 hopen (by rw [howner]; decide)).1
  rw [hu, hs] at hsame
  exact absurd hsame (by decide)

end

end ChezAsync.StaleHandles
