import Mathlib.Data.List.Perm.Basic
import Mathlib.Tactic.Common
import ChezAsync.Lib.Rendezvous
import ChezAsync.HighLevel.Placement

/-!
# The awaits of tasks

The two tables of the scheduler, with the resumptions that it has queued and carried out, are a
`Rendezvous` of the fibers that await handles with the completions that are reaped.
-/

namespace ChezAsync.Async

variable {D : Type}

/-! ## 1. The rendezvous of a state -/

/-- The await of a handle that goes on in the item, and with what. -/
def Item.continues (item : Item D) : Option (FutureId × Handle × Int) :=
  match item.step with
  | .resumeTask h r _ => some (item.fib, h, r)
  | _ => none

def Pc.items : Pc D → List (Item D)
  | .batch items => items
  | .running _ _ items => items
  | _ => []

/-- The awaits of a handle that are about to go on: in the batch and in the ready list. -/
def State.queued (s : State D) : List (FutureId × Handle × Int) :=
  (s.pc.items ++ s.ready).filterMap Item.continues

def State.meeting (s : State D) : Rendezvous FutureId Handle Int :=
  { takes := s.awaits, arrived := s.reaped, taker := fun h => (s.waiters.lookup h).map Wake.fib
    stash := fun h => s.completed.lookup h, met := (s.continued ++ s.queued : List _)
    dropped := s.overwritten }

/-- Where the submitted tasks are. -/
def State.tasks (s : State D) : List Handle := s.inFlight ++ s.cq ++ s.reaped

structure State.Tasks (s : State D) : Prop where
  nodup : s.tasks.Nodup
  submitted : ∀ h ∈ s.tasks, ∃ f n, h = .task f n ∧ n < s.submitted f

/-! ## 2. The steps of the scheduler's thread -/

section
variable {res : Handle → Int} {s u : State D} {fib : FutureId} {items : List (Item D)}

theorem settle_continues (f : FutureId) (ws : List (Wake D)) (ready : List (Item D)) :
    (ws.foldl (fun ready w => ⟨w.fib, .resumeFuture f w.k⟩ :: ready) ready).filterMap
      Item.continues = ready.filterMap Item.continues := by
  induction ws generalizing ready with
  | nil => rfl
  | cons w ws ih =>
    rw [List.foldl_cons, ih]
    rfl

theorem queued_running {body : Body D} (hpc : s.pc = .running fib body items) :
    s.queued = (items ++ s.ready).filterMap Item.continues := by
  rw [State.queued, hpc]
  rfl

theorem lookup_insert {β γ : Type} (F : Option β → γ) (t : AList fun _ : Handle => β) (h : Handle)
    (v : β) : (fun g => F ((t.insert h v).lookup g)) =
      Function.update (fun g => F (t.lookup g)) h (F (some v)) := by
  funext g
  by_cases hg : g = h
  · rw [hg, AList.lookup_insert, Function.update_self]
  · rw [AList.lookup_insert_ne hg, Function.update_of_ne hg]

theorem lookup_erase {β γ : Type} (F : Option β → γ) (t : AList fun _ : Handle => β) (h : Handle) :
    (fun g => F ((t.erase h).lookup g)) =
      Function.update (fun g => F (t.lookup g)) h (F none) := by
  funext g
  by_cases hg : g = h
  · rw [hg, AList.lookup_erase, Function.update_self]
  · rw [AList.lookup_erase_ne hg, Function.update_of_ne hg]

theorem meeting_deliverOne (res : Handle → Int) (hpc : s.pc.items = []) {h : Handle}
    (hnew : h ∉ s.reaped) :
    s.meeting.Step res { s.deliverOne h (res h) with pc := .poll }.meeting := by
  have hq : s.queued = s.ready.filterMap Item.continues := by
    rw [State.queued, hpc]
    rfl
  simp only [State.deliverOne]
  split
  case h_1 w hw =>
    have ht : s.meeting.taker h = some w.fib := by
      show (s.waiters.lookup h).map Wake.fib = some w.fib
      rw [hw]
      rfl
    have hu : State.meeting { s with
        pc := .poll
        waiters := s.waiters.erase h
        reaped := s.reaped ++ [h]
        ready := ⟨w.fib, .resumeTask h (res h) w.k⟩ :: s.ready } =
        { s.meeting with
          arrived := s.meeting.arrived ++ [h]
          taker := Function.update s.meeting.taker h none
          met := (w.fib, h, res h) ::ₘ s.meeting.met } := by
      refine Rendezvous.ext rfl rfl (lookup_erase (Option.map Wake.fib) _ _) rfl ?_ rfl
      show Multiset.ofList (s.continued ++ (w.fib, h, res h) :: _) = _
      rw [State.meeting, hq, Multiset.cons_coe, Multiset.coe_eq_coe]
      exact List.perm_middle
    exact hu ▸ Rendezvous.Step.wake hnew ht
  case h_2 hnone =>
    have ht : s.meeting.taker h = none := by
      show (s.waiters.lookup h).map Wake.fib = none
      rw [hnone]
      rfl
    have hu : State.meeting { s with
        pc := .poll
        reaped := s.reaped ++ [h]
        completed := s.completed.insert h (res h) } =
        { s.meeting with
          arrived := s.meeting.arrived ++ [h]
          stash := Function.update s.meeting.stash h (some (res h)) } := by
      refine Rendezvous.ext rfl rfl rfl (lookup_insert id _ _ _) ?_ rfl
      simp only [State.meeting]
      rw [hq]
      rfl
    exact hu ▸ Rendezvous.Step.keep hnew ht

theorem meeting_begin {item : Item D} (hpc : s.pc = .batch (item :: items)) :
    (s.begin item items).meeting = s.meeting := by
  have hq : s.queued = (item :: (items ++ s.ready)).filterMap Item.continues := by
    rw [State.queued, hpc]
    rfl
  rcases item with ⟨fib, producer⟩
  cases producer with
  | start thunk =>
    refine Rendezvous.ext rfl rfl rfl rfl ?_ rfl
    simp only [State.meeting, hq]
    rfl
  | resumeTask h r k =>
    refine Rendezvous.ext rfl rfl rfl rfl ?_ rfl
    show Multiset.ofList (s.continued ++ [(fib, h, r)] ++ _) = _
    simp only [State.meeting, hq, List.append_assoc]
    rfl
  | resumeFuture f k =>
    refine Rendezvous.ext rfl rfl rfl rfl ?_ rfl
    simp only [State.meeting, hq]
    rfl

theorem meeting_completed {h : Handle} {r : Int} {k : Outcome D → Body D}
    (hpc : s.pc = .running fib (.await (.int h) k) items) (hr : s.completed.lookup h = some r) :
    s.meeting.Step res (State.meeting { s with
      pc := .running fib (k (.ok (.int (.num r)))) items
      awaits := s.awaits ++ [(fib, h)]
      completed := s.completed.erase h
      continued := s.continued ++ [(fib, h, r)] }) := by
  have hu : State.meeting { s with
      pc := .running fib (k (.ok (.int (.num r)))) items
      awaits := s.awaits ++ [(fib, h)]
      completed := s.completed.erase h
      continued := s.continued ++ [(fib, h, r)] } =
      { s.meeting with
        takes := s.meeting.takes ++ [(fib, h)]
        stash := Function.update s.meeting.stash h none
        met := (fib, h, r) ::ₘ s.meeting.met } := by
    refine Rendezvous.ext rfl rfl rfl (lookup_erase id _ _) ?_ rfl
    show Multiset.ofList (s.continued ++ [(fib, h, r)] ++ _) = _
    rw [State.meeting, queued_running hpc, Multiset.cons_coe, Multiset.coe_eq_coe,
      List.append_assoc]
    exact List.perm_middle
  exact hu ▸ Rendezvous.Step.take fib hr

theorem meeting_registered {h : Handle} {k : Outcome D → Body D}
    (hpc : s.pc = .running fib (.await (.int h) k) items) (hr : s.completed.lookup h = none) :
    s.meeting.Step res (State.meeting { s with
      pc := .batch items
      awaits := s.awaits ++ [(fib, h)]
      waiters := s.waiters.insert h ⟨fib, k⟩
      overwritten := ((s.waiters.lookup h).map Wake.fib).toList ++ s.overwritten }) := by
  have hu : State.meeting { s with
      pc := .batch items
      awaits := s.awaits ++ [(fib, h)]
      waiters := s.waiters.insert h ⟨fib, k⟩
      overwritten := ((s.waiters.lookup h).map Wake.fib).toList ++ s.overwritten } =
      { s.meeting with
        takes := s.meeting.takes ++ [(fib, h)]
        taker := Function.update s.meeting.taker h (some fib)
        dropped := (s.meeting.taker h).toList ++ s.meeting.dropped } := by
    refine Rendezvous.ext rfl rfl (lookup_insert (Option.map Wake.fib) _ _ _) rfl ?_ rfl
    rw [State.meeting, State.meeting, queued_running hpc]
    rfl
  exact hu ▸ Rendezvous.Step.wait fib hr

theorem meeting_run {body : Body D} (hpc : s.pc = .running fib body items)
    (h : Run s fib items body u) : u.meeting = s.meeting ∨ s.meeting.Step res u.meeting := by
  have hq := queued_running hpc
  have hmet : ∀ t : State D, t.queued = s.queued → t.continued = s.continued →
      t.meeting.met = s.meeting.met := by
    intro t hqueued hcontinued
    simp only [State.meeting, hqueued, hcontinued]
  have hsettle : ∀ o, { s.settle fib o with pc := .batch items }.meeting = s.meeting := by
    intro o
    refine Rendezvous.ext rfl rfl rfl rfl (hmet _ ?_ rfl) rfl
    rw [hq]
    show (items ++ _).filterMap Item.continues = _
    rw [List.filterMap_append, List.filterMap_append]
    exact congrArg _ (settle_continues fib _ s.ready)
  cases h with
  | ret v => exact Or.inl (hsettle _)
  | raise e => exact Or.inl (hsettle _)
  | async thunk k =>
    left
    refine Rendezvous.ext rfl rfl rfl rfl (hmet _ ?_ rfl) rfl
    rw [hq, State.queued, List.filterMap_append, List.filterMap_append]
    rfl
  | completed k hr => exact Or.inr (meeting_completed hpc hr)
  | registered k hr => exact Or.inr (meeting_registered hpc hr)
  | _ => exact Or.inl (Rendezvous.ext rfl rfl rfl rfl (hmet _ hq.symm rfl) rfl)

/-- **The tables refine the rendezvous.** -/
theorem meeting_tick (hs : s.Tasks) (h : tick res s = some u) :
    u.meeting = s.meeting ∨ s.meeting.Step res u.meeting := by
  have hplace : ∀ pc ready, (pc.items ++ ready).Perm (s.pc.items ++ s.ready) →
      { s with pc := pc, ready := ready }.meeting = s.meeting := by
    intro pc ready hperm
    refine Rendezvous.ext rfl rfl rfl rfl (Multiset.coe_eq_coe.mpr ?_) rfl
    exact (hperm.filterMap _).append_left _
  have hstill : ∀ pc : Pc D, pc.items = s.pc.items → { s with pc := pc }.meeting = s.meeting := by
    intro pc hpc
    exact hplace pc s.ready (by rw [hpc])
  have hnew : ∀ h cq, s.cq = h :: cq → h ∉ s.reaped := by
    intro h cq hcq hmem
    -- a task is in one place: the completion that is popped has not been reaped
    have hnodup := hs.nodup
    rw [State.tasks, hcq, List.append_assoc, List.nodup_append, List.cons_append,
      List.nodup_cons] at hnodup
    exact hnodup.2.1.1 (List.mem_append_right _ hmem)
  cases tick_cases h with
  | top hpc =>
    refine Or.inl (hplace _ _ ?_)
    rw [hpc]
    show (s.ready.reverse ++ []).Perm s.ready
    rw [List.append_nil]
    exact List.reverse_perm s.ready
  | begin hpc => exact Or.inl (meeting_begin hpc)
  | run hpc hrun => exact meeting_run hpc hrun
  | @popped g cq hpc hcq =>
    exact Or.inr (meeting_deliverOne res (s := { s with cq := cq }) (by rw [hpc]; rfl)
      (hnew g cq hcq))
  | @polled g cq hpc hcq =>
    exact Or.inr (meeting_deliverOne res (s := { s with cq := cq }) (by rw [hpc]; rfl)
      (hnew g cq hcq))
  | batchEnd hpc => exact Or.inl (hstill _ (by rw [hpc]; rfl))
  | again hpc => exact Or.inl (hstill _ (by rw [hpc]; rfl))
  | wait hpc => exact Or.inl (hstill _ (by rw [hpc]; rfl))
  | exit hpc => exact Or.inl (hstill _ (by rw [hpc]; rfl))
  | drained hpc => exact Or.inl (hstill _ (by rw [hpc]; rfl))

/-! ## 3. Where the tasks are -/

/-- Only `submit` makes a task. -/
theorem tasks_run {body : Body D} (h : Run s fib items body u) :
    (u.tasks = s.tasks ∧ u.submitted = s.submitted) ∨
      (u.tasks.Perm (.task fib (s.submitted fib) :: s.tasks) ∧
        u.submitted = Function.update s.submitted fib (s.submitted fib + 1)) := by
  cases h with
  | submit k =>
    refine Or.inr ⟨?_, rfl⟩
    simp only [State.tasks, List.append_assoc]
    exact List.perm_middle
  | _ => exact Or.inl ⟨rfl, rfl⟩

theorem tasks_deliverOne (s : State D) (h : Handle) (r : Int) :
    (s.deliverOne h r).inFlight = s.inFlight ∧ (s.deliverOne h r).cq = s.cq ∧
      (s.deliverOne h r).reaped = s.reaped ++ [h] ∧
      (s.deliverOne h r).submitted = s.submitted := by
  simp only [State.deliverOne, State.enqueueReady]
  split <;> exact ⟨rfl, rfl, rfl, rfl⟩

theorem State.Tasks.perm {s u : State D} (hs : s.Tasks) (htasks : u.tasks.Perm s.tasks)
    (hsub : u.submitted = s.submitted) : u.Tasks := by
  constructor
  · exact htasks.nodup_iff.mpr hs.nodup
  · intro h hmem
    rw [hsub]
    exact hs.submitted h (htasks.mem_iff.mp hmem)

theorem State.Tasks.submit {s u : State D} (hs : s.Tasks)
    (htasks : u.tasks.Perm (.task fib (s.submitted fib) :: s.tasks))
    (hsub : u.submitted = Function.update s.submitted fib (s.submitted fib + 1)) : u.Tasks := by
  constructor
  · refine htasks.nodup_iff.mpr (List.nodup_cons.mpr ⟨fun hmem => ?_, hs.nodup⟩)
    -- the number of the new task has not been given before
    rcases hs.submitted _ hmem with ⟨f, n, heq, hlt⟩
    cases heq
    exact Nat.lt_irrefl _ hlt
  · intro h hmem
    rcases List.mem_cons.mp (htasks.mem_iff.mp hmem) with rfl | hmem
    · refine ⟨fib, _, rfl, ?_⟩
      rw [hsub, Function.update_self]
      exact Nat.lt_succ_self _
    · rcases hs.submitted h hmem with ⟨f, n, heq, hlt⟩
      refine ⟨f, n, heq, ?_⟩
      rw [hsub, Function.update_apply]
      split
      case isTrue hf =>
        rw [hf] at hlt
        omega
      case isFalse => exact hlt

/-- A completion that is reaped leaves the queue. -/
theorem tasks_pop {h : Handle} {cq : List Handle} (hcq : s.cq = h :: cq) (r : Int) :
    (State.deliverOne { s with cq := cq } h r).tasks.Perm s.tasks := by
  rcases tasks_deliverOne { s with cq := cq } h r with ⟨hin, hcq', hreaped, -⟩
  simp only [State.tasks, hin, hcq', hreaped, hcq]
  rw [List.append_assoc, List.append_assoc, ← List.append_assoc cq]
  exact (List.perm_append_singleton h _).append_left _

/-- A task that is posted goes from the loop thread to the queue. -/
theorem tasks_complete {h : Handle} (hmem : h ∈ s.inFlight) :
    { s with inFlight := s.inFlight.erase h, cq := s.cq ++ [h] }.tasks.Perm s.tasks := by
  show (s.inFlight.erase h ++ (s.cq ++ [h]) ++ s.reaped).Perm (s.inFlight ++ s.cq ++ s.reaped)
  apply List.Perm.append_right _
  rw [← List.append_assoc]
  refine (List.perm_append_singleton h _).trans ?_
  exact (List.perm_cons_erase hmem).symm.append_right s.cq

theorem tasks_tick (hs : s.Tasks) (h : tick res s = some u) : u.Tasks := by
  have hpop : ∀ h cq, s.cq = h :: cq →
      { State.deliverOne { s with cq := cq } h (res h) with pc := .poll }.Tasks := by
    intro h cq hcq
    exact hs.perm (tasks_pop hcq (res h)) (tasks_deliverOne _ h (res h)).2.2.2
  cases tick_cases h with
  | begin hpc =>
    refine hs.perm ?_ ?_ <;> unfold State.begin <;> split <;> rfl
  | run hpc hrun =>
    rcases tasks_run hrun with ⟨htasks, hsub⟩ | ⟨htasks, hsub⟩
    · exact hs.perm (htasks ▸ List.Perm.refl _) hsub
    · exact hs.submit htasks hsub
  | popped hpc hcq => exact hpop _ _ hcq
  | polled hpc hcq => exact hpop _ _ hcq
  | _ => exact hs.perm (List.Perm.refl _) rfl

theorem tasks_post {h : Handle} (hs : s.Tasks) (hstep : step res s (.post h) = some u) :
    u.Tasks := by
  rcases step_post hstep with ⟨hmem, rfl⟩
  exact hs.perm (tasks_complete hmem) rfl

end

end ChezAsync.Async
