import Mathlib.Tactic.Common
import ChezAsync.HighLevel.Termination

/-!
# Sequential roots

`run-async` over a root that makes no fibers, awaits only tasks that it has submitted and each of
them once.  The scheduler takes it apart at every `await`, lets the completions come in any order
and puts it together again; it comes to what its body comes to read straight through.
-/

namespace ChezAsync.Async

variable {D : Type}

/-! ## 1. Reading a body straight through -/

/-- What the root has made of its surroundings. -/
structure Solo (D : Type) where
  vars : String → Val D
  submitted : Nat
  /-- The tasks that it has submitted and not awaited. -/
  unawaited : List Handle

def Solo.init : Solo D := { vars := fun _ => .void, submitted := 0, unawaited := [] }

/-- `none` for a body that is not sequential. -/
def Body.solo (res : Handle → Int) : Body D → Solo D → Option (Solo D × Outcome D)
  | .ret v, l => some (l, .ok v)
  | .raise e, l => some (l, .error e)
  | .submit k, l =>
      (k (.int (.task [] l.submitted))).solo res
        { l with
          submitted := l.submitted + 1
          unawaited := .task [] l.submitted :: l.unawaited }
  | .await (.int h) k, l =>
      if h ∈ l.unawaited then
        (k (.ok (.int (.num (res h))))).solo res
          { l with unawaited := l.unawaited.filter (· ≠ h) }
      else none
  | .get x k, l => (k (l.vars x)).solo res l
  | .set x v k, l => k.solo res { l with vars := Function.update l.vars x v }
  | .await _ _, _ => none
  | .async _ _, _ => none

/-- How `run-async` hands an outcome of the root to its caller. -/
def RunResult.of : Outcome D → RunResult D
  | .ok v => .value v
  | .error e => .reraised e

section
variable {res : Handle → Int} {s u : State D} {fin : Solo D × Outcome D}

/-! ## 2. The root in the scheduler -/

/-- The root is the only fiber, and goes on as `b`. -/
inductive Stands (res : Handle → Int) (s : State D) : Body D → Prop
  | running {b : Body D} (hpc : s.pc = .running [] b []) (hready : s.ready = [])
      (hw : s.waiters.entries = []) : Stands res s b
  | batch (producer : Step D) (hpc : s.pc = .batch [⟨[], producer⟩]) (hready : s.ready = [])
      (hw : s.waiters.entries = []) : Stands res s producer.body
  | ready (producer : Step D) (hpc : s.pc = .top ∨ s.pc = .poll)
      (hready : s.ready = [⟨[], producer⟩]) (hw : s.waiters.entries = []) :
      Stands res s producer.body
  -- what it goes on with is known before the task has completed
  | parked {h : Handle} {k : Outcome D → Body D}
      (hpc : s.pc = .batch [] ∨ s.pc = .branch ∨ s.pc = .waiting ∨ s.pc = .poll ∨ s.pc = .top)
      (hready : s.ready = []) (hw : s.waiters.entries = [⟨h, ⟨[], k⟩⟩]) :
      Stands res s (k (.ok (.int (.num (res h)))))

/-- The root has settled, and the loop is on its way out. -/
structure Left (s : State D) (o : Outcome D) : Prop where
  pc : s.pc = .batch [] ∨ s.pc = .branch ∨ s.pc = .exited
  ready : s.ready = []
  waiters : s.waiters.entries = []
  root : (s.futures []).state = some o

/-- The state as the root has made it. -/
structure Made (s : State D) (l : Solo D) : Prop where
  vars : s.vars = l.vars
  submitted : s.submitted [] = l.submitted
  unawaited : ∀ h ∈ l.unawaited, h ∈ s.tasks ∧ ∀ x ∈ s.awaits, x.2 ≠ h

/-- From here the root comes to `fin`. -/
structure OnCourse (res : Handle → Int) (fin : Solo D × Outcome D) (s : State D) : Prop where
  -- nobody awaits the root's future
  alone : (s.futures []).waiters = []
  awaited : ∀ x ∈ s.awaits, x.2 ∈ s.tasks
  once : AwaitedOnce s
  course : (∃ b l, Stands res s b ∧ Made s l ∧ b.solo res l = some fin) ∨
    (Left s fin.2 ∧ s.vars = fin.1.vars)

theorem onCourse_init {root : Body D} (hroot : root.solo res Solo.init = some fin) :
    OnCourse res fin (machine res root).init := by
  refine ⟨rfl, ?_, List.nodup_nil, Or.inl ⟨root, Solo.init, ?_, ?_, hroot⟩⟩
  · intro x hx
    cases hx
  · exact Stands.ready (.start root) (Or.inl rfl) rfl rfl
  · refine ⟨rfl, rfl, ?_⟩
    intro h hh
    cases hh

/-! ## 3. The steps of the scheduler itself -/

/-- What the root has made is as it was. -/
structure Still (s u : State D) : Prop where
  vars : u.vars = s.vars
  submitted : u.submitted = s.submitted
  awaits : u.awaits = s.awaits
  futures : u.futures = s.futures
  tasks : u.tasks.Perm s.tasks

theorem Made.still {l : Solo D} (h : Made s l) (hsu : Still s u) : Made u l := by
  refine ⟨hsu.vars.trans h.vars, (congrFun hsu.submitted []).trans h.submitted, ?_⟩
  intro g hg
  rw [hsu.tasks.mem_iff, hsu.awaits]
  exact h.unawaited g hg

theorem still_deliverOne {h : Handle} {cq : List Handle} (hcq : s.cq = h :: cq) (r : Int) :
    Still s { State.deliverOne { s with cq := cq } h r with pc := .poll } := by
  have htasks := tasks_pop hcq r
  simp only [State.deliverOne, State.enqueueReady] at htasks ⊢
  split at htasks <;> exact ⟨rfl, rfl, rfl, rfl, htasks⟩

/-- No fiber runs. -/
def State.Idle (s : State D) : Prop := ∀ fib body items, s.pc ≠ .running fib body items

theorem still_tick (hidle : s.Idle) (hstep : tick res s = some u) : Still s u := by
  cases tick_cases hstep with
  | begin hpc =>
    unfold State.begin
    split <;> exact ⟨rfl, rfl, rfl, rfl, List.Perm.refl _⟩
  | run hpc hrun => exact absurd hpc (hidle _ _ _)
  | popped hpc hcq => exact still_deliverOne hcq _
  | polled hpc hcq => exact still_deliverOne hcq _
  | _ => exact ⟨rfl, rfl, rfl, rfl, List.Perm.refl _⟩

theorem still_post {h : Handle} (hmem : h ∈ s.inFlight) :
    Still s { s with inFlight := s.inFlight.erase h, cq := s.cq ++ [h] } :=
  ⟨rfl, rfl, rfl, rfl, tasks_complete hmem⟩

theorem lookup_of_entries_nil {β : Handle → Type} {t : AList β} (ht : t.entries = [])
    (h : Handle) : t.lookup h = none := by
  apply AList.lookup_eq_none.mpr
  rw [AList.mem_keys, AList.keys, ht]
  exact List.not_mem_nil

/-- A completion that no fiber waits for is kept. -/
theorem deliverOne_kept {h : Handle} (hw : s.waiters.lookup h = none) (r : Int) :
    s.deliverOne h r =
      { s with reaped := s.reaped ++ [h], completed := s.completed.insert h r } := by
  simp only [State.deliverOne, hw]

/-- The completion that a fiber waits for puts it on the ready list. -/
theorem deliverOne_wakes {h : Handle} {w : Wake D} (hw : s.waiters.lookup h = some w) (r : Int) :
    s.deliverOne h r =
      { s with
        reaped := s.reaped ++ [h]
        waiters := s.waiters.erase h
        ready := ⟨w.fib, .resumeTask h r w.k⟩ :: s.ready } := by
  simp only [State.deliverOne, hw, State.enqueueReady]

/-- A completion comes while the root is parked. -/
theorem stands_deliverOne {h g : Handle} {k : Outcome D → Body D} (hready : s.ready = [])
    (hw : s.waiters.entries = [⟨h, ⟨[], k⟩⟩]) :
    Stands res { s.deliverOne g (res g) with pc := .poll } (k (.ok (.int (.num (res h))))) := by
  have hlookup : s.waiters.lookup h = some ⟨[], k⟩ := by
    apply AList.mem_lookup_iff.mpr
    rw [hw]
    exact List.mem_singleton_self _
  by_cases hgh : g = h
  · subst hgh
    rw [deliverOne_wakes hlookup]
    refine Stands.ready (.resumeTask g (res g) k) (Or.inr rfl) ?_ ?_
    · rw [hready]
    · show s.waiters.entries.kerase g = []
      rw [hw]
      exact List.kerase_cons_eq rfl
  · have hnone : s.waiters.lookup g = none := by
      apply AList.lookup_eq_none.mpr
      rw [AList.mem_keys, AList.keys, hw]
      exact fun hmem => hgh (List.mem_singleton.mp hmem)
    rw [deliverOne_kept hnone]
    exact Stands.parked (Or.inr (Or.inr (Or.inr (Or.inl rfl)))) hready hw

theorem Stands.running_or_idle {b : Body D} (h : Stands res s b) :
    (s.pc = .running [] b [] ∧ s.ready = [] ∧ s.waiters.entries = []) ∨ s.Idle := by
  cases h with
  | running hpc hready hw => exact Or.inl ⟨hpc, hready, hw⟩
  | batch producer hpc =>
    right
    intro fib body items hrun
    cases hpc.symm.trans hrun
  | ready producer hpc =>
    right
    intro fib body items hrun
    rw [hrun] at hpc
    rcases hpc with hpc | hpc <;> cases hpc
  | parked hpc =>
    right
    intro fib body items hrun
    rw [hrun] at hpc
    rcases hpc with hpc | hpc | hpc | hpc | hpc <;> cases hpc

/-- The steps of the scheduler move the root from place to place. -/
theorem stands_tick {b : Body D} (h : Stands res s b) (hidle : s.Idle)
    (hstep : tick res s = some u) : Stands res u b := by
  have htick : ∀ v, tick res s = some v → u = v := by
    intro v hv
    exact Option.some.inj (hstep.symm.trans hv)
  cases h with
  | running hpc hready hw => exact absurd hpc (hidle _ _ _)
  | batch producer hpc hready hw =>
    have hu := htick (s.begin ⟨[], producer⟩ []) (by unfold tick; rw [hpc])
    cases producer with
    | start thunk => exact hu ▸ Stands.running rfl hready hw
    | resumeTask g r k => exact hu ▸ Stands.running rfl hready hw
    | resumeFuture f k => exact hu ▸ Stands.running rfl hready hw
  | ready producer hpc hready hw =>
    rcases hpc with hpc | hpc
    · have hu := htick _ (by unfold tick; rw [hpc])
      rw [hready] at hu
      exact hu ▸ Stands.batch producer rfl rfl hw
    -- it waits on the ready list while the completions already posted are drained
    · rcases hcq : s.cq with _ | ⟨g, cq⟩
      · have hu := htick { s with pc := .top } (by unfold tick; rw [hpc, hcq])
        exact hu ▸ Stands.ready producer (Or.inl rfl) hready hw
      · have hu := htick (State.deliverOne { s with cq := cq } g (res g))
          (by unfold tick; rw [hpc, hcq])
        have hlookup := lookup_of_entries_nil hw g
        rw [deliverOne_kept (s := { s with cq := cq }) hlookup] at hu
        exact hu ▸ Stands.ready producer (Or.inr hpc) hready hw
  | @parked g k hpc hready hw =>
    rcases hpc with hpc | hpc | hpc | hpc | hpc
    · have hu := htick { s with pc := .branch } (by unfold tick; rw [hpc])
      exact hu ▸ Stands.parked (Or.inr (Or.inl rfl)) hready hw
    · have hu := htick { s with pc := .waiting } (by unfold tick; rw [hpc, hready, hw]; rfl)
      exact hu ▸ Stands.parked (Or.inr (Or.inr (Or.inl rfl))) hready hw
    · rcases hcq : s.cq with _ | ⟨g', cq⟩
      · unfold tick at hstep
        rw [hpc, hcq] at hstep
        cases hstep
      · have hu := htick { State.deliverOne { s with cq := cq } g' (res g') with pc := .poll }
          (by unfold tick; rw [hpc, hcq])
        exact hu ▸ stands_deliverOne (s := { s with cq := cq }) hready hw
    · rcases hcq : s.cq with _ | ⟨g', cq⟩
      · have hu := htick { s with pc := .top } (by unfold tick; rw [hpc, hcq])
        exact hu ▸ Stands.parked (Or.inr (Or.inr (Or.inr (Or.inr rfl)))) hready hw
      · have hu := htick (State.deliverOne { s with cq := cq } g' (res g'))
          (by unfold tick; rw [hpc, hcq])
        rw [← deliverOne_pc (s := { s with cq := cq }) hpc] at hu
        exact hu ▸ stands_deliverOne (s := { s with cq := cq }) hready hw
    · have hu := htick { s with pc := .batch s.ready.reverse, ready := [] }
        (by unfold tick; rw [hpc])
      rw [hready] at hu
      exact hu ▸ Stands.parked (Or.inl rfl) rfl hw

theorem Left.idle {o : Outcome D} (h : Left s o) : s.Idle := by
  intro fib body items hrun
  have hpc := h.pc
  rw [hrun] at hpc
  rcases hpc with hpc | hpc | hpc <;> cases hpc

theorem left_tick {o : Outcome D} (h : Left s o) (hstep : tick res s = some u) : Left u o := by
  have hroot : (u.futures []).state = some o := (still_tick h.idle hstep).futures ▸ h.root
  have htick : ∀ v, tick res s = some v → u = v := by
    intro v hv
    exact Option.some.inj (hstep.symm.trans hv)
  rcases h.pc with hpc | hpc | hpc
  · have hu := htick { s with pc := .branch } (by unfold tick; rw [hpc])
    exact ⟨hu ▸ Or.inr (Or.inl rfl), hu ▸ h.ready, hu ▸ h.waiters, hroot⟩
  · have hu := htick { s with pc := .exited }
      (by unfold tick; rw [hpc, h.ready, h.waiters]; rfl)
    exact ⟨hu ▸ Or.inr (Or.inr rfl), hu ▸ h.ready, hu ▸ h.waiters, hroot⟩
  · unfold tick at hstep
    rw [hpc] at hstep
    cases hstep

/-! ## 4. The steps of the root -/

/-- The root goes on, with what it has submitted and awaited as it was. -/
theorem Made.goOn {l : Solo D} (h : Made s l) {vars : String → Val D} (hvars : u.vars = vars)
    (hsub : u.submitted = s.submitted) (htasks : u.tasks = s.tasks) (hawaits : u.awaits = s.awaits) :
    Made u { l with vars := vars } := by
  refine ⟨hvars, (congrFun hsub []).trans h.submitted, ?_⟩
  intro g hg
  rw [htasks, hawaits]
  exact h.unawaited g hg

/-- It awaits a task for the first time. -/
theorem Made.await {l : Solo D} (h : Made s l) (g : Handle) (hvars : u.vars = s.vars)
    (hsub : u.submitted = s.submitted) (htasks : u.tasks = s.tasks)
    (hawaits : u.awaits = s.awaits ++ [([], g)]) :
    Made u { l with unawaited := l.unawaited.filter (· ≠ g) } := by
  refine ⟨hvars.trans h.vars, (congrFun hsub []).trans h.submitted, ?_⟩
  intro g' hg'
  rcases List.mem_filter.mp hg' with ⟨hmem, hne⟩
  rw [htasks, hawaits]
  refine ⟨(h.unawaited g' hmem).1, ?_⟩
  intro x hx
  rcases List.mem_append.mp hx with hx | hx
  · exact (h.unawaited g' hmem).2 x hx
  · rw [List.mem_singleton.mp hx]
    exact fun heq => (of_decide_eq_true hne) heq.symm

/-- The name of a new task is new. -/
theorem Made.submit {l : Solo D} (h : Made s l) (hs : s.Inv res) (hvars : u.vars = s.vars)
    (hsub : u.submitted = Function.update s.submitted [] (s.submitted [] + 1))
    (htasks : u.tasks.Perm (.task [] (s.submitted []) :: s.tasks)) (hawaits : u.awaits = s.awaits)
    (hawaited : ∀ x ∈ s.awaits, x.2 ∈ s.tasks) :
    Made u { l with
      submitted := l.submitted + 1
      unawaited := .task [] l.submitted :: l.unawaited } := by
  refine ⟨hvars.trans h.vars, ?_, ?_⟩
  · rw [hsub, Function.update_self, h.submitted]
  · intro g hg
    rw [htasks.mem_iff, hawaits]
    rcases List.mem_cons.mp hg with rfl | hg
    · rw [← h.submitted]
      refine ⟨List.mem_cons_self, ?_⟩
      intro x hx heq
      rcases hs.tasks.submitted x.2 (hawaited x hx) with ⟨f, n, hname, hlt⟩
      cases heq.symm.trans hname
      exact Nat.lt_irrefl _ hlt
    · exact ⟨List.mem_cons_of_mem _ (h.unawaited g hg).1, (h.unawaited g hg).2⟩

theorem onCourse_settle {l : Solo D} {o : Outcome D} (h : OnCourse res (l, o) s)
    (hready : s.ready = []) (hw : s.waiters.entries = []) (hl : Made s l) :
    OnCourse res (l, o) { s.settle [] o with pc := .batch [] } := by
  have hwaiters : (Function.update s.futures [] { state := some o, waiters := [] } []).waiters = [] ∧
      (Function.update s.futures [] { state := some o, waiters := [] } []).state = some o := by
    rw [Function.update_self]
    exact ⟨rfl, rfl⟩
  refine ⟨hwaiters.1, h.awaited, h.once, Or.inr ⟨⟨Or.inl rfl, ?_, hw, hwaiters.2⟩, hl.vars⟩⟩
  show (s.futures []).waiters.foldl _ s.ready = []
  rw [h.alone]
  exact hready

/-- An await that has not been made before. -/
theorem OnCourse.await (h : OnCourse res fin s) {l : Solo D} (hl : Made s l) {g : Handle}
    (hg : g ∈ l.unawaited) :
    (∀ x ∈ s.awaits ++ [([], g)], x.2 ∈ s.tasks) ∧
      ((s.awaits ++ [(([] : FutureId), g)]).map Prod.snd).Nodup := by
  have hopen := hl.unawaited g hg
  constructor
  · intro x hx
    rcases List.mem_append.mp hx with hx | hx
    · exact h.awaited x hx
    · rw [List.mem_singleton.mp hx]
      exact hopen.1
  · rw [List.map_append, List.nodup_append]
    refine ⟨h.once, List.nodup_singleton g, ?_⟩
    intro a ha b hb
    rcases List.mem_map.mp ha with ⟨x, hx, rfl⟩
    rw [List.mem_singleton.mp hb]
    exact hopen.2 x hx

theorem onCourse_run {body : Body D} {l : Solo D} (hs : s.Inv res) (h : OnCourse res fin s)
    (hready : s.ready = []) (hw : s.waiters.entries = []) (hl : Made s l)
    (hsolo : body.solo res l = some fin) (hrun : Run s [] [] body u) :
    OnCourse res fin u := by
  cases hrun with
  | ret v =>
    cases hsolo
    exact onCourse_settle h hready hw hl
  | raise e =>
    cases hsolo
    exact onCourse_settle h hready hw hl
  | async thunk k => cases hsolo
  | settled k hf ho => cases hsolo
  | parked k hf ho => cases hsolo
  | @completed g r k hr =>
    simp only [Body.solo, Option.ite_none_right_eq_some] at hsolo
    rcases h.await hl hsolo.1 with ⟨hawaited, honce⟩
    -- the result that was kept is the task's
    have hres : r = res g := (hs.meeting.stash g r hr).1
    rw [← hres] at hsolo
    exact ⟨h.alone, hawaited, honce, Or.inl ⟨_, _, Stands.running rfl hready hw,
      hl.await g rfl rfl rfl rfl, hsolo.2⟩⟩
  | @registered g k hr =>
    simp only [Body.solo, Option.ite_none_right_eq_some] at hsolo
    rcases h.await hl hsolo.1 with ⟨hawaited, honce⟩
    have hentries : (s.waiters.insert g ⟨[], k⟩).entries = [⟨g, ⟨[], k⟩⟩] := by
      rw [AList.entries_insert_of_notMem (AList.lookup_eq_none.mp (lookup_of_entries_nil hw g)), hw]
    exact ⟨h.alone, hawaited, honce, Or.inl ⟨_, _, Stands.parked (Or.inl rfl) hready hentries,
      hl.await g rfl rfl rfl rfl, hsolo.2⟩⟩
  | @refused x k hx =>
    cases x with
    | future f => cases hx
    | int g => cases hx
    | _ => cases hsolo
  | submit k =>
    have htasks : (s.inFlight ++ [Handle.task [] (s.submitted [])] ++ s.cq ++ s.reaped).Perm
        (.task [] (s.submitted []) :: s.tasks) := by
      simp only [State.tasks, List.append_assoc]
      exact List.perm_middle
    have hsolo' : (k (.int (.task [] (s.submitted [])))).solo res
        { l with
          submitted := l.submitted + 1
          unawaited := .task [] l.submitted :: l.unawaited } = some fin := by
      rw [hl.submitted]
      exact hsolo
    refine ⟨h.alone, ?_, h.once, Or.inl ⟨_, _, Stands.running rfl hready hw,
      hl.submit hs rfl rfl htasks rfl h.awaited, hsolo'⟩⟩
    exact fun x hx => htasks.mem_iff.mpr (List.mem_cons_of_mem _ (h.awaited x hx))
  | get x k =>
    simp only [Body.solo, ← hl.vars] at hsolo
    exact ⟨h.alone, h.awaited, h.once, Or.inl ⟨_, l, Stands.running rfl hready hw,
      hl.goOn hl.vars rfl rfl rfl, hsolo⟩⟩
  | set x v k =>
    simp only [Body.solo, ← hl.vars] at hsolo
    exact ⟨h.alone, h.awaited, h.once, Or.inl ⟨_, _, Stands.running rfl hready hw,
      hl.goOn rfl rfl rfl rfl, hsolo⟩⟩

theorem OnCourse.still (h : OnCourse res fin s) (hsu : Still s u)
    (hcourse : (∃ b l, Stands res u b ∧ Made u l ∧ b.solo res l = some fin) ∨
      (Left u fin.2 ∧ u.vars = fin.1.vars)) : OnCourse res fin u := by
  refine ⟨?_, ?_, ?_, hcourse⟩
  · rw [hsu.futures]
    exact h.alone
  · rw [hsu.awaits]
    exact fun x hx => hsu.tasks.mem_iff.mpr (h.awaited x hx)
  · rw [AwaitedOnce, hsu.awaits]
    exact h.once

theorem onCourse_post {g : Handle} (h : OnCourse res fin s) (hmem : g ∈ s.inFlight) :
    OnCourse res fin { s with inFlight := s.inFlight.erase g, cq := s.cq ++ [g] } := by
  have hsu := still_post hmem
  apply h.still hsu
  rcases h.course with ⟨b, l, hb, hl, hsolo⟩ | ⟨hleft, hvars⟩
  · refine Or.inl ⟨b, l, ?_, hl.still hsu, hsolo⟩
    -- the root stands where it stood
    cases hb with
    | running hpc hready hw => exact Stands.running hpc hready hw
    | batch producer hpc hready hw => exact Stands.batch producer hpc hready hw
    | ready producer hpc hready hw => exact Stands.ready producer hpc hready hw
    | parked hpc hready hw => exact Stands.parked hpc hready hw
  · exact Or.inr ⟨⟨hleft.pc, hleft.ready, hleft.waiters, hleft.root⟩, hvars⟩

theorem onCourse_step {a : Action} (hs : s.Inv res) (h : OnCourse res fin s)
    (hstep : step res s a = some u) : OnCourse res fin u := by
  cases a with
  | post g =>
    rcases step_post hstep with ⟨hmem, rfl⟩
    exact onCourse_post h hmem
  | tick =>
    rcases h.course with ⟨b, l, hb, hl, hsolo⟩ | ⟨hleft, hvars⟩
    · rcases hb.running_or_idle with ⟨hpc, hready, hw⟩ | hidle
      · exact onCourse_run hs h hready hw hl hsolo (run_of_tick hpc hstep)
      · have hsu := still_tick hidle hstep
        exact h.still hsu (Or.inl ⟨b, l, stands_tick hb hidle hstep, hl.still hsu, hsolo⟩)
    · have hsu := still_tick hleft.idle hstep
      exact h.still hsu (Or.inr ⟨left_tick hleft hstep, hsu.vars.trans hvars⟩)

/-! ## 5. The end of the run -/

theorem onCourse_reachable {root : Body D} (hroot : root.solo res Solo.init = some fin)
    (hs : (machine res root).Reachable s) : OnCourse res fin s := by
  exact Machine.Reachable.invariant (P := OnCourse res fin) (onCourse_init hroot)
    (fun s a u hs h hstep => onCourse_step (inv_reachable hs) h hstep) hs

/-- **A sequential root** whose run has come to its end has come to what its body comes to. -/
theorem runAsync_of_solo {root : Body D} (hroot : root.solo res Solo.init = some fin)
    (hs : (machine res root).Reachable s) (hhalt : (machine res root).Halted s) :
    runAsync s = some (.of fin.2) ∧ s.vars = fin.1.vars := by
  have h := onCourse_reachable hroot hs
  have hnamed : ¬ Astray s := by
    intro hastray
    rcases hastray with ⟨fib, f, k, items, hpc, -⟩
    rcases h.course with ⟨b, l, hb, -, hsolo⟩ | ⟨hleft, -⟩
    · rcases hb.running_or_idle with ⟨hpc', -⟩ | hidle
      · cases hpc.symm.trans hpc'
        cases hsolo
      · exact hidle _ _ _ hpc
    · exact hleft.idle _ _ _ hpc
  have hpc := halted_exited hs hhalt h.once h.awaited hnamed
  rcases h.course with ⟨b, l, hb, -⟩ | ⟨hleft, hvars⟩
  · -- a root that has not settled keeps the loop going
    cases hb with
    | running hpc' => cases hpc.symm.trans hpc'
    | batch producer hpc' => cases hpc.symm.trans hpc'
    | ready producer hpc' =>
      rw [hpc] at hpc'
      rcases hpc' with hpc' | hpc' <;> cases hpc'
    | parked hpc' =>
      rw [hpc] at hpc'
      rcases hpc' with hpc' | hpc' | hpc' | hpc' | hpc' <;> cases hpc'
  · refine ⟨?_, hvars⟩
    unfold runAsync
    rw [hpc, hleft.root]
    rcases fin with ⟨l, e | v⟩ <;> rfl

end

end ChezAsync.Async
