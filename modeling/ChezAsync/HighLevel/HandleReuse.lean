import Mathlib.Logic.Function.Basic
import Mathlib.Tactic.Common
import ChezAsync.Lib.Machine

/-!
# Addresses of tasks are reused (`io-async.ss`, `rt_ffi.cpp`)

A task handle is the address of its `Task` object.  The two tables of the scheduler have these
addresses as their keys, and so has the completion queue; but `rt_task_free` gives the object's
memory back, and the next task of whatever thread may lie there.  The machine has the addresses, and
an allocator that hands out any free one.
-/

namespace ChezAsync.HandleReuse

abbrev Addr := Nat

/-- One use of a task, from its submission to its release. -/
abbrev Call := Nat

/-! ## 1. The machine -/

/-- A `Task` object: whose task it is, and `result` once `Complete` has run. -/
structure Cell where
  call : Call
  result : Option Int
  deriving DecidableEq

inductive Phase
  | unborn
  | submitted (a : Addr)
  /-- In the table of waiters. -/
  | parked (a : Addr)
  /-- The await has its answer. -/
  | resumed (a : Addr) (r : Int)
  | released (r : Option Int)
  deriving DecidableEq

def Phase.isSubmitted : Phase → Bool
  | .submitted _ => true
  | _ => false

/-- The address that the call still uses. -/
def Phase.addr : Phase → Option Addr
  | .submitted a => some a
  | .parked a => some a
  | .resumed a _ => some a
  | _ => none

theorem Phase.addr_eq {p : Phase} {a : Addr} :
    p.addr = some a ↔ p = .submitted a ∨ p = .parked a ∨ ∃ r, p = .resumed a r := by
  cases p <;> simp [Phase.addr]

structure State where
  /-- The objects that the fibers of this thread have submitted and not released. -/
  heap : Addr → Option Cell
  /-- The addresses that are taken by whatever else there is. -/
  others : List Addr
  cq : List Addr
  waiters : Addr → Option Call
  completed : Addr → Option Int
  phase : Call → Phase

inductive Action
  /-- `new Task`, at an address that the allocator chooses. -/
  | submit (c : Call) (a : Addr)
  /-- The loop thread completes the task at the address. -/
  | complete (a : Addr)
  /-- `deliver-one!` of the head of the completion queue. -/
  | reap
  /-- `scheduler-await` -/
  | await (c : Call)
  /-- `rt_task_free` -/
  | free (c : Call)
  | take (a : Addr)
  | giveBack (a : Addr)
  deriving DecidableEq

/-- `rt_task_result`; of a deleted object it is anything. -/
def State.taskResult (s : State) (a : Addr) : Int := ((s.heap a).bind Cell.result).getD 0

def State.deliverOne (s : State) (a : Addr) : State :=
  match s.waiters a with
  | some c =>
    { s with
      waiters := Function.update s.waiters a none
      phase := Function.update s.phase c (.resumed a (s.taskResult a)) }
  | none => { s with completed := Function.update s.completed a (some (s.taskResult a)) }

def State.schedulerAwait (s : State) (c : Call) (a : Addr) : State :=
  match s.completed a with
  | some r =>
    { s with
      completed := Function.update s.completed a none
      phase := Function.update s.phase c (.resumed a r) }
  | none =>
    { s with
      waiters := Function.update s.waiters a (some c)
      phase := Function.update s.phase c (.parked a) }

section
variable (res : Call → Int)

def step (s : State) : Action → Option State
  | .submit c a =>
    if s.phase c = .unborn ∧ s.heap a = none ∧ a ∉ s.others then
      some { s with
        heap := Function.update s.heap a (some ⟨c, none⟩)
        phase := Function.update s.phase c (.submitted a) }
    else none
  | .complete a =>
    match s.heap a with
    | some ⟨c, none⟩ =>
      some { s with heap := Function.update s.heap a (some ⟨c, some (res c)⟩), cq := s.cq ++ [a] }
    | _ => none
  | .reap =>
    match s.cq with
    | a :: cq => some ({ s with cq }.deliverOne a)
    | [] => none
  | .await c =>
    match s.phase c with
    | .submitted a => some (s.schedulerAwait c a)
    | _ => none
  | .free c =>
    match s.phase c with
    | .submitted a =>
      some { s with
        heap := Function.update s.heap a none
        phase := Function.update s.phase c (.released none) }
    | .resumed a r =>
      some { s with
        heap := Function.update s.heap a none
        phase := Function.update s.phase c (.released (some r)) }
    | _ => none
  | .take a =>
    if s.heap a = none ∧ a ∉ s.others then some { s with others := a :: s.others } else none
  | .giveBack a => if a ∈ s.others then some { s with others := s.others.erase a } else none

/-- The result of the task of each call is `res` of the call. -/
@[reducible] def machine : Machine State Action where
  init :=
    { heap := fun _ => none, others := [], cq := [], waiters := fun _ => none
      completed := fun _ => none, phase := fun _ => .unborn }
  step := step res

end

/-- Every I/O procedure frees its task behind the await of it. -/
def FreesAfterAwait (s : State) : Action → Prop
  | .free c => (s.phase c).isSubmitted = false
  | _ => True

instance (s : State) : ∀ x, Decidable (FreesAfterAwait s x)
  | .free c => inferInstanceAs (Decidable ((s.phase c).isSubmitted = false))
  | .submit _ _ | .complete _ | .reap | .await _ | .take _ | .giveBack _ => isTrue trivial

/-! ## 2. Each address means one call -/

/-- The call whose object is at the address. -/
def State.owner (s : State) (a : Addr) : Option Call := (s.heap a).map Cell.call

structure Inv (res : Call → Int) (s : State) : Prop where
  /-- A call uses the address of its own object. -/
  cell : ∀ c a, (s.phase c).addr = some a ↔ s.owner a = some c
  result : ∀ a c r, s.heap a = some ⟨c, some r⟩ → r = res c
  -- what is queued has completed and has not been delivered
  queue : ∀ a ∈ s.cq, ∃ c r, s.heap a = some ⟨c, some r⟩ ∧ s.completed a = none ∧
    (s.phase c = .submitted a ∨ s.phase c = .parked a)
  nodup : s.cq.Nodup
  waiters : ∀ a c, s.waiters a = some c ↔ s.phase c = .parked a
  stash : ∀ a r, s.completed a = some r →
    ∃ c, s.phase c = .submitted a ∧ s.heap a = some ⟨c, some r⟩
  -- and what has completed is queued, or kept, or has been delivered
  delivered : ∀ a c r, s.heap a = some ⟨c, some r⟩ →
    a ∈ s.cq ∨ s.completed a = some r ∨ ∃ r, s.phase c = .resumed a r
  resumed : ∀ c a r, s.phase c = .resumed a r → s.heap a = some ⟨c, some r⟩
  released : ∀ c r, s.phase c = .released r → r = some (res c)

section
variable {res : Call → Int} {s u : State}

theorem inv_init : Inv res (machine res).init := by
  constructor <;> simp [Phase.addr, State.owner]

theorem owner_eq {a : Addr} {c : Call} : s.owner a = some c ↔ ∃ r, s.heap a = some ⟨c, r⟩ := by
  simp only [State.owner, Option.map_eq_some_iff]
  constructor
  · rintro ⟨cell, hcell, rfl⟩
    exact ⟨cell.result, hcell⟩
  · rintro ⟨r, hr⟩
    exact ⟨_, hr, rfl⟩

/-- The call that uses an address is the only one. -/
theorem Inv.unique (hs : Inv res s) {c d : Call} {a : Addr} (hc : (s.phase c).addr = some a)
    (hd : (s.phase d).addr = some a) : c = d := by
  have howner := (hs.cell c a).mp hc
  rw [(hs.cell d a).mp hd] at howner
  exact (Option.some.inj howner).symm

theorem inv_submit (hs : Inv res s) {c : Call} {a : Addr} (hc : s.phase c = .unborn)
    (ha : s.heap a = none) :
    Inv res { s with
      heap := Function.update s.heap a (some ⟨c, none⟩)
      phase := Function.update s.phase c (.submitted a) } := by
  have hcaddr : (s.phase c).addr = none := by rw [hc]; rfl
  have haowner : s.owner a = none := by simp [State.owner, ha]
  obtain ⟨hcell, hresult, hqueue, hnodup, hwaiters, hstash, hdelivered, hresumed, hreleased⟩ := hs
  constructor
  case cell =>
    intro d b
    have := hcell d b
    simp only [State.owner] at this haowner ⊢
    grind [Function.update_apply, Phase.addr]
  all_goals grind [Function.update_apply, Phase.addr]

theorem inv_complete (hs : Inv res s) {c : Call} {a : Addr} (ha : s.heap a = some ⟨c, none⟩) :
    Inv res { s with
      heap := Function.update s.heap a (some ⟨c, some (res c)⟩), cq := s.cq ++ [a] } := by
  have hphase : s.phase c = .submitted a ∨ s.phase c = .parked a := by
    rcases Phase.addr_eq.mp ((hs.cell c a).mpr (owner_eq.mpr ⟨none, ha⟩)) with h | h | ⟨r, h⟩
    · exact .inl h
    · exact .inr h
    · simpa [ha] using hs.resumed c a r h
  have hfresh : a ∉ s.cq := by
    intro hmem
    obtain ⟨d, r, hd, -⟩ := hs.queue a hmem
    simp [ha] at hd
  have hnone : s.completed a = none := by
    cases hstash : s.completed a with
    | none => rfl
    | some r =>
      obtain ⟨d, -, hd⟩ := hs.stash a r hstash
      simp [ha] at hd
  obtain ⟨hcell, hresult, hqueue, hnodup, hwaiters, hstash, hdelivered, hresumed, hreleased⟩ := hs
  constructor
  case cell =>
    intro d b
    have := hcell d b
    simp only [State.owner] at this ⊢
    grind [Function.update_apply]
  case queue =>
    intro b hb
    rcases List.mem_append.mp hb with hb | hb
    · obtain ⟨d, r, hd, hrest⟩ := hqueue b hb
      have hne : b ≠ a := fun h => hfresh (h ▸ hb)
      exact ⟨d, r, (Function.update_of_ne hne ..).trans hd, hrest⟩
    · obtain rfl := List.mem_singleton.mp hb
      exact ⟨c, res c, Function.update_self .., hnone, hphase⟩
  case nodup => exact List.nodup_append.mpr ⟨hnodup, by simp, by grind⟩
  all_goals grind [Function.update_apply]

theorem inv_reap (hs : Inv res s) {a : Addr} {cq : List Addr} (hcq : s.cq = a :: cq) :
    Inv res ({ s with cq }.deliverOne a) := by
  obtain ⟨c, r, hc, hnone, hphase⟩ := hs.queue a (by simp [hcq])
  have htask : ({ s with cq }.taskResult a) = r := by simp [State.taskResult, hc]
  have haddr : (s.phase c).addr = some a := (hs.cell c a).mpr (owner_eq.mpr ⟨_, hc⟩)
  have hunique : ∀ d, (s.phase d).addr = some a → d = c := fun d hd => hs.unique hd haddr
  unfold State.deliverOne
  rw [htask]
  obtain ⟨hcell, hresult, hqueue, hnodup, hwaiters, hstash, hdelivered, hresumed, hreleased⟩ := hs
  rw [hcq] at hqueue hnodup hdelivered
  cases hw : s.waiters a with
  | some d =>
    have hd := (hwaiters a d).mp hw
    obtain rfl : d = c := hunique d (by rw [hd]; rfl)
    constructor
    case cell =>
      intro e b
      have := hcell e b
      simp only [State.owner] at this ⊢
      grind [Function.update_apply, Phase.addr]
    all_goals grind [Function.update_apply]
  | none =>
    have hsub : s.phase c = .submitted a := by
      refine hphase.resolve_right fun h => ?_
      simp [(hwaiters a c).mpr h] at hw
    constructor
    case cell => exact hcell
    all_goals grind [Function.update_apply]

theorem inv_await (hs : Inv res s) {c : Call} {a : Addr} (hc : s.phase c = .submitted a) :
    Inv res (s.schedulerAwait c a) := by
  have hunique : ∀ d, (s.phase d).addr = some a → c = d := fun d hd =>
    hs.unique (by rw [hc]; rfl) hd
  have hparked : ∀ d, s.phase d ≠ .parked a := by
    intro d hd
    obtain rfl := hunique d (by rw [hd]; rfl)
    rw [hc] at hd
    cases hd
  unfold State.schedulerAwait
  obtain ⟨hcell, hresult, hqueue, hnodup, hwaiters, hstash, hdelivered, hresumed, hreleased⟩ := hs
  cases hd : s.completed a with
  | some r =>
    obtain ⟨d, hd', hheap⟩ := hstash a r hd
    obtain rfl := hunique d (by rw [hd']; rfl)
    constructor
    case cell =>
      intro e b
      have := hcell e b
      simp only [State.owner] at this ⊢
      grind [Function.update_apply, Phase.addr]
    all_goals grind [Function.update_apply]
  | none =>
    constructor
    case cell =>
      intro e b
      have := hcell e b
      simp only [State.owner] at this ⊢
      grind [Function.update_apply, Phase.addr]
    all_goals grind [Function.update_apply]

theorem inv_free (hs : Inv res s) {c : Call} {a : Addr} {r : Int} (hc : s.phase c = .resumed a r) :
    Inv res { s with
      heap := Function.update s.heap a none
      phase := Function.update s.phase c (.released (some r)) } := by
  have hheap := hs.resumed c a r hc
  have hunique : ∀ d, (s.phase d).addr = some a → c = d := fun d hd =>
    hs.unique (by rw [hc]; rfl) hd
  obtain ⟨hcell, hresult, hqueue, hnodup, hwaiters, hstash, hdelivered, hresumed, hreleased⟩ := hs
  constructor
  case cell =>
    intro e b
    have := hcell e b
    simp only [State.owner] at this ⊢
    grind [Function.update_apply, Phase.addr]
  all_goals grind [Function.update_apply, Phase.addr]

theorem Inv.others (hs : Inv res s) (others : List Addr) : Inv res { s with others } :=
  ⟨hs.cell, hs.result, hs.queue, hs.nodup, hs.waiters, hs.stash, hs.delivered, hs.resumed,
    hs.released⟩

theorem inv_step {x : Action} (hs : Inv res s) (hx : FreesAfterAwait s x)
    (hstep : (machine res).step s x = some u) : Inv res u := by
  cases x with
  | submit c a =>
    simp only [step, Option.ite_none_right_eq_some, Option.some.injEq] at hstep
    obtain ⟨⟨hc, ha, -⟩, rfl⟩ := hstep
    exact inv_submit hs hc ha
  | complete a =>
    simp only [step] at hstep
    split at hstep
    · rename_i c ha
      cases hstep
      exact inv_complete hs ha
    · cases hstep
  | reap =>
    simp only [step] at hstep
    split at hstep
    · rename_i a cq hcq
      cases hstep
      exact inv_reap hs hcq
    · cases hstep
  | await c =>
    simp only [step] at hstep
    split at hstep
    · rename_i a hc
      cases hstep
      exact inv_await hs hc
    · cases hstep
  | free c =>
    simp only [step] at hstep
    split at hstep
    · rename_i a hc
      simp [FreesAfterAwait, Phase.isSubmitted, hc] at hx
    · rename_i a r hc
      cases hstep
      exact inv_free hs hc
    · cases hstep
  | take a =>
    simp only [step, Option.ite_none_right_eq_some, Option.some.injEq] at hstep
    obtain ⟨-, rfl⟩ := hstep
    exact hs.others _
  | giveBack a =>
    simp only [step, Option.ite_none_right_eq_some, Option.some.injEq] at hstep
    obtain ⟨-, rfl⟩ := hstep
    exact hs.others _

theorem inv_run {xs : List Action} (hs : Inv res s)
    (hxs : (machine res).Meets FreesAfterAwait s xs) (hrun : (machine res).runFrom s xs = some u) :
    Inv res u := by
  induction xs generalizing s with
  | nil =>
    simp only [Machine.runFrom_nil, Option.some.injEq] at hrun
    exact hrun ▸ hs
  | cons x xs ih =>
    obtain ⟨t, ht, hrest⟩ := (machine res).runFrom_cons.mp hrun
    exact ih (inv_step hs hxs.1 ht) (hxs.2 t ht) hrest

end

/-! ## 3. The reuse is not seen -/

/-- What the fibers see of the run, where they cannot see the addresses. -/
structure Unaliased (res : Call → Int) (s : State) : Prop where
  resumed : ∀ c a r, s.phase c = .resumed a r → r = res c
  released : ∀ c r, s.phase c = .released r → r = some (res c)
  waiters : ∀ a c, s.waiters a = some c ↔ s.phase c = .parked a
  kept : ∀ a r, s.completed a = some r → ∃ c, s.phase c = .submitted a ∧ r = res c
  -- no result is read from an object that is gone
  live : ∀ a ∈ s.cq, ∃ c r, s.heap a = some ⟨c, some r⟩
  due : ∀ c a r, s.phase c = .parked a → s.heap a = some ⟨c, some r⟩ → a ∈ s.cq

theorem Inv.unaliased {res : Call → Int} {s : State} (hs : Inv res s) : Unaliased res s where
  resumed c a r h := hs.result a c r (hs.resumed c a r h)
  released := hs.released
  waiters := hs.waiters
  kept a r h := by
    obtain ⟨c, hc, hheap⟩ := hs.stash a r h
    exact ⟨c, hc, hs.result a c r hheap⟩
  live a ha := by
    obtain ⟨c, r, hc, -⟩ := hs.queue a ha
    exact ⟨c, r, hc⟩
  due c a r hc hheap := by
    rcases hs.delivered a c r hheap with h | h | ⟨q, h⟩
    · exact h
    · -- what is kept is for a call that has not awaited
      obtain ⟨d, hd, hd'⟩ := hs.stash a r h
      obtain rfl : d = c := by
        rw [hd'] at hheap
        cases hheap
        rfl
      rw [hc] at hd
      cases hd
    · rw [hc] at h
      cases h

/-- **A reused address is as good as a new one.**  In every interleaving of the fibers, the loop
thread and the allocator in which a task is freed only behind its await, each await has the result
of its own task, neither the tables nor the queue hold anything of a task that is gone, and no
parked fiber is left out. -/
theorem addresses_reusable {res : Call → Int} {xs : List Action} {s : State}
    (hxs : (machine res).Meets FreesAfterAwait (machine res).init xs)
    (hrun : (machine res).run xs = some s) : Unaliased res s :=
  (inv_run inv_init hxs hrun).unaliased

/-- Two calls, one after the other, at one address. -/
def reused : List Action :=
  [.submit 0 8, .complete 8, .reap, .await 0, .free 0, .take 8, .giveBack 8,
    .submit 1 8, .await 1, .complete 8, .reap]

theorem addresses_reusable_reused : ∃ s,
    (machine fun c => c + 40).run reused = some s ∧ s.phase 1 = .resumed 8 41 ∧
      Unaliased (fun c => c + 40) s := by
  have hrun : ((machine fun c => c + 40).run reused).map (fun s => s.phase 1) =
      some (.resumed 8 41) := by decide +kernel
  obtain ⟨s, hs, hphase⟩ := Option.map_eq_some_iff.mp hrun
  exact ⟨s, hs, hphase, addresses_reusable (by decide +kernel) hs⟩

/-- Without the await the next owner of the address has the result of the one before. -/
example : ((machine fun c => c + 40).run
    [.submit 0 8, .complete 8, .reap, .free 0, .submit 1 8, .await 1]).map (fun s => s.phase 1) =
      some (.resumed 8 40) := by
  decide +kernel

end ChezAsync.HandleReuse
