import Mathlib.Tactic.Common
import ChezAsync.HighLevel.Termination

/-!
# The order in which the waiters of a future resume

`await-future` puts a waiter before the others, `settle!` wakes them from the first to the last,
`enqueue-ready!` puts each resumption before the others, and `scheduler-loop` takes the ready list
from its end: of these reversals there are three, so that the waiters resume from the last to the
first.
-/

namespace ChezAsync.Async

variable {D : Type}

/-! ## 1. What the scheduler takes up -/

/-- What is left of the batch. -/
def Pc.rest : Pc D → List (Item D)
  | .batch items => items
  | .running _ _ items => items
  | _ => []

/-- The items to come, in the order in which they are going to be taken up. -/
def State.upcoming (s : State D) : List (Item D) := s.pc.rest ++ s.ready.reverse

/-- The future that a step-producer has waited for. -/
def Step.resumes : Step D → Option FutureId
  | .resumeFuture f _ => some f
  | _ => none

/-- The fiber of an item, with the future whose waiter it was. -/
def Item.tag (item : Item D) : FutureId × Option FutureId := (item.fib, item.step.resumes)

/-- The item that `run-fiber!` takes up in a step. -/
def begun (s : State D) (a : Action) : List (Item D) :=
  match a, s.pc with
  | .tick, .batch (item :: _) => [item]
  | _, _ => []

/-- The future that the next call of a body awaits. -/
def Body.awaited : Body D → Option FutureId
  | .await (.future f) _ => some f
  | _ => none

/-- The fiber that parks on `f` in a step. -/
def parking (f : FutureId) (s : State D) (a : Action) : List FutureId :=
  match a, s.pc with
  | .tick, .running fib body _ =>
      if body.awaited = some f ∧ (s.futures f).state.isNone then [fib] else []
  | _, _ => []

/-- The resumption of a waiter of `f`. -/
def Wake.resumption (f : FutureId) (w : Wake D) : Item D := ⟨w.fib, .resumeFuture f w.k⟩

/-! ## 2. One step -/

section
variable {res : Handle → Int} {s t u : State D} {fib : FutureId} {items : List (Item D)}

/-- `settle!` puts the waiters behind all other items, the first of its list first. -/
theorem ready_settle (s : State D) (f : FutureId) (o : Outcome D) :
    (s.settle f o).ready.reverse =
      s.ready.reverse ++ (s.futures f).waiters.map (Wake.resumption f) := by
  have hfold : ∀ (ws : List (Wake D)) (ready : List (Item D)),
      (ws.foldl (fun ready w => ⟨w.fib, .resumeFuture f w.k⟩ :: ready) ready).reverse =
        ready.reverse ++ ws.map (Wake.resumption f) := by
    intro ws
    induction ws with
    | nil => exact fun ready => (List.append_nil _).symm
    | cons w ws ih =>
      intro ready
      rw [List.foldl_cons, ih, List.reverse_cons, List.append_assoc]
      rfl
  exact hfold _ _

theorem run_settles {body : Body D} {o : Outcome D} (h : Run s fib items body u)
    (ho : body.outcome? = some o) : u = { s.settle fib o with pc := .batch items } := by
  cases h <;> simp_all [Body.outcome?]

theorem upcoming_settle {body : Body D} {o : Outcome D} (hpc : s.pc = .running fib body items)
    (h : Run s fib items body u) (ho : body.outcome? = some o) :
    u.upcoming = s.upcoming ++ (s.futures fib).waiters.map (Wake.resumption fib) := by
  rw [run_settles h ho, State.upcoming, State.upcoming, hpc, Pc.rest, List.append_assoc,
    ← ready_settle s fib o]
  rfl

/-- What the running fiber adds to the items to come. -/
theorem upcoming_run {body : Body D} (hpc : s.pc = .running fib body items)
    (h : Run s fib items body u) :
    ∃ new, u.upcoming = s.upcoming ++ new ∧
      ∀ item ∈ new, ∀ f, item.step.resumes = some f →
        f = fib ∧ body.outcome?.isSome ∧ (s.futures f).waiters ≠ [] := by
  have hrest : s.upcoming = items ++ s.ready.reverse := by rw [State.upcoming, hpc, Pc.rest]
  have hends : ∀ {o : Outcome D}, body.outcome? = some o →
      ∃ new, u.upcoming = s.upcoming ++ new ∧
        ∀ item ∈ new, ∀ f, item.step.resumes = some f →
          f = fib ∧ body.outcome?.isSome ∧ (s.futures f).waiters ≠ [] := by
    intro o ho
    refine ⟨_, upcoming_settle hpc h ho, fun item hi f hf => ?_⟩
    rcases List.mem_map.mp hi with ⟨w, hw, rfl⟩
    cases hf
    exact ⟨rfl, ho ▸ rfl, List.ne_nil_of_mem hw⟩
  cases h with
  | ret v => exact hends rfl
  | raise e => exact hends rfl
  | async thunk k =>
    refine ⟨[⟨s.spawned fib :: fib, .start thunk⟩], ?_, fun item hi f hf => ?_⟩
    · rw [hrest, List.append_assoc, ← List.reverse_cons]
      rfl
    · rw [List.mem_singleton.mp hi] at hf
      cases hf
  | _ =>
    exact ⟨[], hrest.symm.trans (List.append_nil _).symm,
      fun item hi => absurd hi List.not_mem_nil⟩

theorem upcoming_deliverOne {h : Handle} {r : Int} (s : State D) :
    ∃ new, (s.deliverOne h r).ready.reverse = s.ready.reverse ++ new ∧
      ∀ item ∈ new, item.step.resumes = none := by
  dsimp only [State.deliverOne]
  split
  case h_1 w hw =>
    refine ⟨[⟨w.fib, .resumeTask h r w.k⟩], List.reverse_cons, fun item hi => ?_⟩
    rw [List.mem_singleton.mp hi]
    rfl
  case h_2 => exact ⟨[], (List.append_nil _).symm, fun item hi => absurd hi List.not_mem_nil⟩

/-- A step takes from the front of what is to come and adds behind it. -/
theorem upcoming_step {a : Action} (h : step res s a = some u) :
    ∃ new, begun s a ++ u.upcoming = s.upcoming ++ new ∧
      ∀ item ∈ new, ∀ f, item.step.resumes = some f →
        (∃ body items, s.pc = .running f body items ∧ body.outcome?.isSome) ∧
          (s.futures f).waiters ≠ [] := by
  have hnone : ∀ {p : Item D → Prop}, ∀ item ∈ ([] : List (Item D)), p item :=
    fun item hi => absurd hi List.not_mem_nil
  cases a with
  | post g =>
    rcases step_post h with ⟨-, rfl⟩
    exact ⟨[], (List.append_nil _).symm, hnone⟩
  | tick =>
    have htick := tick_cases h
    cases htick with
    | top hpc => exact ⟨[], by simp [begun, State.upcoming, hpc, Pc.rest], hnone⟩
    | batchEnd hpc => exact ⟨[], by simp [begun, State.upcoming, hpc, Pc.rest], hnone⟩
    | @begin item items hpc =>
      refine ⟨[], ?_, hnone⟩
      have hrest : (s.begin item items).upcoming = items ++ s.ready.reverse := by
        unfold State.begin
        split <;> rfl
      rw [hrest]
      simp [begun, State.upcoming, hpc, Pc.rest]
    | run hpc hrun =>
      rcases upcoming_run hpc hrun with ⟨new, heq, hnew⟩
      refine ⟨new, ?_, fun item hi f hf => ?_⟩
      · simp only [begun, hpc, List.nil_append]
        exact heq
      · rcases hnew item hi f hf with ⟨rfl, hends, hw⟩
        exact ⟨⟨_, _, hpc, hends⟩, hw⟩
    | again hpc => exact ⟨[], by simp [begun, State.upcoming, hpc, Pc.rest], hnone⟩
    | wait hpc => exact ⟨[], by simp [begun, State.upcoming, hpc, Pc.rest], hnone⟩
    | exit hpc => exact ⟨[], by simp [begun, State.upcoming, hpc, Pc.rest], hnone⟩
    | @popped g cq hpc hcq =>
      rcases upcoming_deliverOne (h := g) (r := res g) { s with cq := cq } with ⟨new, heq, hnew⟩
      have hbegun : begun s .tick = [] := by simp only [begun, hpc]
      have hready : s.upcoming = s.ready.reverse := by rw [State.upcoming, hpc]; rfl
      refine ⟨new, ?_, fun item hi f hf => ?_⟩
      · rw [hbegun, hready]
        exact heq
      · rw [hnew item hi] at hf
        cases hf
    | @polled g cq hpc hcq =>
      rcases upcoming_deliverOne (h := g) (r := res g) { s with cq := cq } with ⟨new, heq, hnew⟩
      have hbegun : begun s .tick = [] := by simp only [begun, hpc]
      have hready : s.upcoming = s.ready.reverse := by rw [State.upcoming, hpc]; rfl
      refine ⟨new, ?_, fun item hi f hf => ?_⟩
      · rw [hbegun, hready]
        exact heq
      · rw [hnew item hi] at hf
        cases hf
    | drained hpc => exact ⟨[], by simp [begun, State.upcoming, hpc, Pc.rest], hnone⟩

theorem settled_step (hs : s.Inv res) {a : Action} (h : step res s a = some u) {f : FutureId}
    (hf : (s.futures f).state ≠ none) : (u.futures f).state ≠ none := by
  rcases Option.ne_none_iff_exists'.mp hf with ⟨o, ho⟩
  rcases pool_step hs h with ⟨heq, -⟩ | hpool
  · have hout : (u.futures f).state = (s.futures f).state := congrFun (congrArg Pool.outcome heq) f
    rw [hout]
    exact hf
  · have hout : (u.futures f).state = some o := hpool.outcome hs.pool ho
    rw [hout]
    exact Option.some_ne_none o

/-! ## 3. Who waits -/

/-- What the waiter lists and the items to come have to do with the futures. -/
structure Waits (res : Handle → Int) (s : State D) : Prop where
  inv : s.Inv res
  fresh : ∀ f, f ∉ s.created → (s.futures f).waiters = []
  upcoming : ∀ item ∈ s.upcoming, ∀ f, item.step.resumes = some f → (s.futures f).state ≠ none

/-- A step other than one of the running fiber. -/
theorem parking_idle (hpc : ∀ fib body items, s.pc ≠ .running fib body items) (f : FutureId)
    (a : Action) : parking f s a = [] := by
  unfold parking
  split
  case h_1 hrun => exact absurd hrun (hpc _ _ _)
  case h_2 => rfl

/-- A future that a settle leaves pending is another one, and stays as it is. -/
theorem futures_of_settle {f : FutureId} {o : Outcome D}
    (hf : ((s.settle fib o).futures f).state = none) :
    (s.settle fib o).futures f = s.futures f := by
  have hne : f ≠ fib := by
    rintro rfl
    have hsome : (s.settle f o).futures f = { state := some o, waiters := [] } :=
      Function.update_self f _ _
    rw [hsome] at hf
    cases hf
  exact Function.update_of_ne hne _ _

/-- A pending future has the waiters of before, and in front of them the one that has parked. -/
theorem waiters_run {body : Body D} (hs : Waits res s) (hpc : s.pc = .running fib body items)
    (h : Run s fib items body u) {f : FutureId} (hf : (u.futures f).state = none) :
    (s.futures f).state = none ∧ ((u.futures f).waiters.map Wake.fib).reverse =
      ((s.futures f).waiters.map Wake.fib).reverse ++ parking f s .tick := by
  have hparking : parking f s .tick =
      if body.awaited = some f ∧ (s.futures f).state.isNone then [fib] else [] := by
    unfold parking
    rw [hpc]
  have hother : body.awaited ≠ some f → parking f s .tick = [] := by
    intro hne
    rw [hparking, if_neg fun h => hne h.1]
  have hquiet : body.awaited = none → parking f s .tick = [] := by
    intro hnone
    exact hother (hnone ▸ (Option.some_ne_none f).symm)
  cases h with
  | ret v | raise e =>
    have hsame := futures_of_settle hf
    simp only [hsame, hquiet rfl, List.append_nil, and_true] at hf ⊢
    exact hf
  | async thunk k =>
    rw [hquiet rfl, List.append_nil]
    by_cases hnew : f = s.spawned fib :: fib
    · subst hnew
      have hcreated := hs.inv.pool.child_notMem fib
      have hpend : (s.futures (s.spawned fib :: fib)).state = none := hs.inv.pool.settled _ hcreated
      have hw : (s.futures (s.spawned fib :: fib)).waiters = [] := hs.fresh _ hcreated
      simp only [Function.update_self, hpend, hw, and_self]
    · simp only [Function.update_of_ne hnew, and_true] at hf ⊢
      exact hf
  | @settled g o k hg ho =>
    have hne : g ≠ f := by
      rintro rfl
      rw [ho] at hf
      cases hf
    rw [hother fun heq => hne (Option.some.inj heq), List.append_nil]
    exact ⟨hf, rfl⟩
  | @parked g k hg ho =>
    by_cases hgf : g = f
    · subst hgf
      rw [hparking, if_pos ⟨rfl, ho ▸ rfl⟩]
      simp only [Function.update_self, ho, List.map_cons, List.reverse_cons, and_self]
    · rw [hother fun heq => hgf (Option.some.inj heq), List.append_nil]
      simp only [Function.update_of_ne (Ne.symm hgf), and_true] at hf ⊢
      exact hf
  | @refused x k hx =>
    have hnone : (Body.await x k).awaited = none := by
      cases x with
      | future g => cases hx
      | _ => rfl
    rw [hquiet hnone, List.append_nil]
    exact ⟨hf, rfl⟩
  | _ =>
    rw [hquiet rfl, List.append_nil]
    exact ⟨hf, rfl⟩

theorem waiters_step (hs : Waits res s) {a : Action} (h : step res s a = some u) {f : FutureId}
    (hf : (u.futures f).state = none) :
    (s.futures f).state = none ∧ ((u.futures f).waiters.map Wake.fib).reverse =
      ((s.futures f).waiters.map Wake.fib).reverse ++ parking f s a := by
  have hsame : u.futures = s.futures → parking f s a = [] → _ := fun hfutures hpark =>
    (⟨hfutures ▸ hf, by rw [hpark, hfutures, List.append_nil]⟩ :
      (s.futures f).state = none ∧ ((u.futures f).waiters.map Wake.fib).reverse =
        ((s.futures f).waiters.map Wake.fib).reverse ++ parking f s a)
  cases a with
  | post g =>
    rcases step_post h with ⟨-, rfl⟩
    exact hsame rfl rfl
  | tick =>
    have htick := tick_cases h
    cases htick with
    | @run fib body items _ hpc hrun => exact waiters_run hs hpc hrun hf
    | begin hpc => exact hsame (begin_futures _ _ _) (parking_idle (by simp [hpc]) f _)
    | @popped g cq hpc hcq =>
      exact hsame (deliverOne_futures { s with cq := cq } _ _) (parking_idle (by simp [hpc]) f _)
    | @polled g cq hpc hcq =>
      exact hsame (deliverOne_futures { s with cq := cq } _ _) (parking_idle (by simp [hpc]) f _)
    | top hpc | batchEnd hpc | again hpc | wait hpc | exit hpc | drained hpc =>
      exact hsame rfl (parking_idle (by simp [hpc]) f _)

theorem fresh_run {body : Body D} (hs : Waits res s) (h : Run s fib items body u) {f : FutureId}
    (hf : f ∉ u.created) : (u.futures f).waiters = [] := by
  have hupdate : ∀ {g : FutureId} {F : Future D}, f ∉ s.created → (f = g → F.waiters = []) →
      (Function.update s.futures g F f).waiters = [] := by
    intro g F hf hF
    by_cases hfg : f = g
    · subst hfg
      rw [Function.update_self]
      exact hF rfl
    · rw [Function.update_of_ne hfg]
      exact hs.fresh f hf
  cases h with
  | ret v => exact hupdate hf fun _ => rfl
  | raise e => exact hupdate hf fun _ => rfl
  | async thunk k => exact hupdate (fun h => hf (List.mem_append_left _ h)) fun _ => rfl
  | @parked g k hg ho => exact hupdate hf fun heq => absurd (heq ▸ hg) hf
  | _ => exact hs.fresh f hf

theorem waits_step (hs : Waits res s) {a : Action} (h : step res s a = some u) : Waits res u := by
  refine ⟨inv_step hs.inv h, fun f hf => ?_, fun item hi f hf => ?_⟩
  · rcases step_runs h with ⟨hfutures, hcreated, -⟩ | ⟨fib, body, items, -, -, hrun⟩
    · rw [hfutures]
      exact hs.fresh f (hcreated ▸ hf)
    · exact fresh_run hs hrun hf
  · rcases upcoming_step h with ⟨new, heq, hnew⟩
    have hmem : item ∈ s.upcoming ++ new := heq ▸ List.mem_append_right _ hi
    rcases List.mem_append.mp hmem with hold | hadd
    · exact settled_step hs.inv h (hs.upcoming item hold f hf)
    · rcases hnew item hadd f hf with ⟨⟨body, items, hpc, hends⟩, -⟩
      rcases Option.isSome_iff_exists.mp hends with ⟨o, ho⟩
      cases a with
      | post g =>
        rcases step_post h with ⟨-, rfl⟩
        exact hs.upcoming item hi f hf
      | tick =>
        have hsome : (u.futures f).state = some o := by
          rw [run_settles (run_of_tick hpc h) ho]
          show (Function.update s.futures f _ f).state = _
          rw [Function.update_self]
        rw [hsome]
        exact Option.some_ne_none o

theorem waits_init (root : Body D) : Waits res (machine res root).init := by
  refine ⟨inv_init root, fun _ _ => rfl, fun item hi f hf => ?_⟩
  have hroot : item = ⟨[], .start root⟩ := List.mem_singleton.mp hi
  subst hroot
  cases hf

theorem waits_reachable {root : Body D} (hs : (machine res root).Reachable s) : Waits res s :=
  Machine.Reachable.invariant (P := Waits res) (waits_init root)
    (fun _ _ _ _ hinv hstep => waits_step hinv hstep) hs

/-- A fiber waits once. -/
theorem waiters_nodup (hs : s.Inv res) {f : FutureId} (hf : f ∈ s.created) :
    ((s.futures f).waiters.map Wake.fib).Nodup := by
  have hcreated : s.created.Nodup := hs.pool.created
  have hclear := parked_clear s.futures none hcreated hf
  have hle : Multiset.ofList ((s.futures f).waiters.map (futureThread f)) ≤ s.threads := by
    refine le_trans ?_ (Multiset.le_add_left s.aside (s.pc.threads : Multiset _))
    refine le_trans ?_ (Multiset.le_add_left (parked s.futures s.created) _)
    rw [← hclear]
    exact Multiset.le_add_left _ _
  have hnodup : (s.threads.map Prod.fst).Nodup :=
    Multiset.nodup_of_le (Multiset.le_add_right _ _) hs.pool.nodup
  have hlist := Multiset.nodup_of_le (Multiset.map_le_map hle) hnodup
  rw [Multiset.map_coe, List.map_map, Multiset.coe_nodup] at hlist
  exact hlist

end

/-! ## 4. The order of the resumptions -/

section
variable (res : Handle → Int) (root : Body D)

/-- The fibers that have parked on `f`, in the order of their calls of `await`. -/
def parkedOn (f : FutureId) (as : List Action) : List FutureId :=
  (machine res root).outputs (parking f) (machine res root).init as

/-- What is taken up after the state `u`, and then what is still to come. -/
def takenFrom (u : State D) (bs : List Action) (t : State D) : List (FutureId × Option FutureId) :=
  ((machine res root).outputs begun u bs ++ t.upcoming).map Item.tag

/-- After the step from `s` to `u`, in which `f` has settled, its waiters `ws` resume in their
order, each of them once, after all that was to be taken up before; and all of it is taken up. -/
def ResumedInOrder (f : FutureId) (ws : List FutureId) (s u : State D) : Prop :=
  (∀ bs t, (machine res root).runFrom u bs = some t →
    s.upcoming.map Item.tag ++ ws.map (·, some f) <+: takenFrom res root u bs t ∧
      (takenFrom res root u bs t).filter (·.2 = some f) = ws.map (·, some f)) ∧
  ((∀ t, (machine res root).Reachable t → ¬ Astray t) →
    ∃ n t, (machine res root).runFrom u (List.replicate n .tick) = some t ∧ t.upcoming = [])

end

section
variable {res : Handle → Int} {root : Body D} {s u : State D} {f : FutureId}

theorem parkedOn_eq {as : List Action} (hrun : (machine res root).run as = some s)
    (hf : (s.futures f).state = none) :
    parkedOn res root f as = ((s.futures f).waiters.map Wake.fib).reverse := by
  have hrecord := @Machine.record_runFrom _ _ (machine res root) _ (parking f)
    (fun s => ((s.futures f).waiters.map Wake.fib).reverse) (Waits res)
    (fun s => (s.futures f).state = none) (fun _ _ _ hs h => waits_step hs h)
    (fun _ _ _ hs h hf => waiters_step hs h hf) _ _ _ (waits_init root) hrun hf
  exact hrecord.2.symm

/-- A fiber that runs has not settled. -/
theorem pending_running (hs : s.Inv res) {body : Body D} {items : List (Item D)}
    (hpc : s.pc = .running f body items) : f ∈ s.created ∧ (s.futures f).state = none :=
  hs.pool.pending (threads_running hpc)

/-- The waiters are taken up after what was to come before, from the first of the list to the last,
and nobody else resumes from the future. -/
theorem taken_after_settle {body : Body D} {items : List (Item D)} {o : Outcome D}
    (hs : Waits res s) (hpc : s.pc = .running f body items) (ho : body.outcome? = some o)
    (h : tick res s = some u) {bs : List Action} {t : State D}
    (hrun : (machine res root).runFrom u bs = some t) :
    ∃ new, takenFrom res root u bs t =
        s.upcoming.map Item.tag ++
          ((s.futures f).waiters.map fun w => (w.fib, some f)) ++ new ∧
      ∀ x ∈ new, x.2 ≠ some f := by
  have hu : Waits res u := waits_step (a := .tick) hs h
  have hsettled : (u.futures f).state ≠ none := by
    rw [run_settles (run_of_tick hpc h) ho]
    show (Function.update s.futures f _ f).state ≠ none
    rw [Function.update_self]
    exact Option.some_ne_none o
  have hqueue := @Machine.queue_runFrom _ _ (machine res root) _ begun State.upcoming
    (fun t => Waits res t ∧ (t.futures f).state ≠ none) (fun item => item.step.resumes ≠ some f)
    ?_ ?_ u t bs ⟨hu, hsettled⟩ hrun
  · rcases hqueue with ⟨new, heq, hnew⟩
    refine ⟨new.map Item.tag, ?_, fun x hx => ?_⟩
    · rw [takenFrom, heq, upcoming_settle hpc (run_of_tick hpc h) ho, List.map_append,
        List.map_append, List.map_map]
      rfl
    · rcases List.mem_map.mp hx with ⟨item, hi, rfl⟩
      exact hnew item hi
  · exact fun _ _ _ ht hstep => ⟨waits_step ht.1 hstep, settled_step ht.1.inv hstep ht.2⟩
  · intro t a t' ht hstep
    rcases upcoming_step hstep with ⟨new, heq, hnew⟩
    exact ⟨new, heq, fun item hi hf => (hnew item hi f hf).2 (ht.1.inv.settled f ht.2)⟩

theorem length_le_one_of_reverse {α : Type} {l : List α} (hnodup : l.Nodup)
    (h : l.reverse = l) : l.length ≤ 1 := by
  cases l with
  | nil => exact Nat.zero_le 1
  | cons x l =>
    cases l with
    | nil => exact Nat.le_refl 1
    | cons y l =>
      -- the last element is the first one too
      have hlast : (y :: l).getLast (List.cons_ne_nil y l) = x := by
        have hhead := congrArg List.head? h
        rw [List.head?_reverse, List.getLast?_cons_cons,
          List.getLast?_eq_some_getLast (List.cons_ne_nil y l)] at hhead
        exact Option.some.inj hhead
      have hmem : x ∈ y :: l := hlast ▸ List.getLast_mem (List.cons_ne_nil y l)
      exact absurd hmem (List.nodup_cons.mp hnodup).1

theorem reverse_of_length_le_one {α : Type} {l : List α} (h : l.length ≤ 1) : l.reverse = l := by
  cases l with
  | nil => rfl
  | cons x l =>
    have hnil : l = [] := List.length_eq_zero_iff.mp (Nat.le_zero.mp (Nat.le_of_succ_le_succ h))
    subst hnil
    rfl

/-- **The order of the resumptions.**  In every run, when a future settles, the fibers parked on it
resume in the order in which they called `await`, each once and after all that was ready before, if
and only if there is at most one of them. -/
theorem resumed_in_order_iff {as : List Action} {body : Body D} {items : List (Item D)}
    {o : Outcome D} (hrun : (machine res root).run as = some s)
    (hpc : s.pc = .running f body items) (ho : body.outcome? = some o)
    (h : tick res s = some u) :
    ResumedInOrder res root f (parkedOn res root f as) s u ↔
      (parkedOn res root f as).length ≤ 1 := by
  have hreach : (machine res root).Reachable s := ⟨as, hrun⟩
  have hs := waits_reachable hreach
  have hpend := pending_running hs.inv hpc
  have hparked := parkedOn_eq hrun hpend.2
  have hu : (machine res root).Reachable u := hreach.step (a := .tick) h
  have hold : (s.upcoming.map Item.tag).filter (·.2 = some f) = [] := by
    refine List.filter_eq_nil_iff.mpr fun x hx => ?_
    rcases List.mem_map.mp hx with ⟨item, hi, rfl⟩
    rw [decide_eq_true_eq]
    exact fun hf => hs.upcoming item hi f hf hpend.2
  have hfilter : ∀ bs t, (machine res root).runFrom u bs = some t →
      (takenFrom res root u bs t).filter (·.2 = some f) =
        (s.futures f).waiters.map fun w => (w.fib, some f) := by
    intro bs t hbs
    rcases taken_after_settle hs hpc ho h hbs with ⟨new, heq, hnew⟩
    have hnone : new.filter (·.2 = some f) = [] :=
      List.filter_eq_nil_iff.mpr fun x hx => by
        rw [decide_eq_true_eq]
        exact hnew x hx
    have hall : ((s.futures f).waiters.map fun w => (w.fib, some f)).filter
        (fun x => decide (x.2 = some f)) = (s.futures f).waiters.map fun w => (w.fib, some f) := by
      refine List.filter_eq_self.mpr fun x hx => ?_
      rcases List.mem_map.mp hx with ⟨w, -, rfl⟩
      exact decide_eq_true rfl
    rw [heq, List.filter_append, List.filter_append, hold, hnone, List.nil_append,
      List.append_nil, hall]
  have hmap : ((s.futures f).waiters.map fun w => (w.fib, some f)) =
      ((s.futures f).waiters.map Wake.fib).map (·, some f) := by
    rw [List.map_map]
    rfl
  constructor
  · intro horder
    -- at once, before anything is taken up
    have hnow := (hfilter [] u rfl).symm.trans (horder.1 [] u rfl).2
    rw [hmap, hparked] at hnow
    have heq := List.map_injective_iff.mpr (fun _ _ h => (Prod.mk.inj h).1) hnow
    rw [hparked, List.length_reverse]
    exact length_le_one_of_reverse (waiters_nodup hs.inv hpend.1) heq.symm
  · intro hone
    rw [hparked, List.length_reverse] at hone
    have hsame : parkedOn res root f as = (s.futures f).waiters.map Wake.fib := by
      rw [hparked]
      exact reverse_of_length_le_one hone
    rw [hsame]
    refine ⟨fun bs t hbs => ⟨?_, (hfilter bs t hbs).trans hmap⟩, fun hnamed => ?_⟩
    · rcases taken_after_settle hs hpc ho h hbs with ⟨new, heq, -⟩
      rw [heq, hmap]
      exact List.prefix_append _ new
    · rcases exists_quiet hu hnamed with ⟨n, t, hn, ht, hpc⟩
      refine ⟨n, t, hn, ?_⟩
      rcases hpc with hpc | hpc
      · rw [State.upcoming, hpc, (ht.waiting hpc).1]
        rfl
      · rw [State.upcoming, hpc, (ht.exited hpc).1]
        rfl

end

/-- One child, with a task of its own. -/
def slowChild : Body Unit := .submit fun task => .await task fun _ => .ret .void

/-- The root alone waits for the child. -/
def oneWaiter : Body Unit := .async slowChild fun child => .await child fun _ => .ret .void

/-- Up to the end of the child. -/
def oneWaiterRun : List Action :=
  List.replicate 12 .tick ++ .post (.task [0] 0) :: List.replicate 4 .tick

theorem resumed_in_order_oneWaiter :
    ∃ s u, (machine (fun _ => 7) oneWaiter).run oneWaiterRun = some s ∧
      ResumedInOrder (fun _ => 7) oneWaiter [0] [[]] s u :=
  ⟨_, _, rfl, (@resumed_in_order_iff _ (fun _ => 7) oneWaiter _ _ [0] oneWaiterRun (.ret .void) []
    _ rfl rfl rfl rfl).mpr (by decide)⟩

/-- Two more fibers wait for the child. -/
def twoWaiters : Body Unit :=
  .async slowChild fun child =>
    .async (.await child fun _ => .ret .void) fun _ =>
      .async (.await child fun _ => .ret .void) fun _ => .ret .void

def twoWaitersRun : List Action :=
  List.replicate 18 .tick ++ .post (.task [0] 0) :: List.replicate 4 .tick

/-- The second one resumes first. -/
theorem waiters_resume_reversed :
    ∃ s u t, (machine (fun _ => 7) twoWaiters).run twoWaitersRun = some s ∧
      s.pc = .running [0] (.ret .void) [] ∧ tick (fun _ => 7) s = some u ∧
      (machine (fun _ => 7) twoWaiters).runFrom u (List.replicate 11 .tick) = some t ∧
      parkedOn (fun _ => 7) twoWaiters [0] twoWaitersRun = [[1], [2]] ∧
      takenFrom (fun _ => 7) twoWaiters u (List.replicate 11 .tick) t =
        [([2], some [0]), ([1], some [0])] ∧
      t.pc = .exited ∧
      ¬ ResumedInOrder (fun _ => 7) twoWaiters [0]
        (parkedOn (fun _ => 7) twoWaiters [0] twoWaitersRun) s u := by
  refine ⟨_, _, _, rfl, rfl, rfl, rfl, by decide, by decide, rfl, fun horder => ?_⟩
  have hnow := (horder.1 [] _ rfl).2
  revert hnow
  decide

end ChezAsync.Async
