import Mathlib.Tactic.Common
import ChezAsync.HighLevel.Determinism
import ChezAsync.HighLevel.Sequential

/-!
# Disciplined programs (`io-async.ss`)

Programs that share no variable, name only futures that they have come to know, and await a task
only in the fiber that has submitted it, and once, as `task-run` does.  This is a property of the
program text; here it becomes an invariant of the scheduler: every run of a disciplined program is
isolated, awaits no handle twice and goes astray nowhere.
-/

namespace ChezAsync.Async

variable {D : Type}

/-! ## 1. The discipline -/

/-- The futures that a value mentions. -/
def Val.futures : Val D → List FutureId
  | .future f => [f]
  | .cons a d => a.futures ++ d.futures
  | .condition _ _ irritants => irritants.futures
  | _ => []

def outcomeFutures : Outcome D → List FutureId
  | .ok v => v.futures
  | .error e => e.futures

/-- The body knows the futures `K`, and the tasks `H` that it has submitted and not awaited. -/
def Body.Disciplined : Body D → (FutureId → Prop) → (Handle → Prop) → Prop
  | .ret v, K, _ => ∀ f ∈ v.futures, K f
  | .raise e, K, _ => ∀ f ∈ e.futures, K f
  | .async thunk k, K, H =>
      thunk.Disciplined K (fun _ => False) ∧
        ∀ f, (k (.future f)).Disciplined (fun g => g = f ∨ K g) H
  | .submit k, K, H => ∀ h, ¬ H h → (k (.int h)).Disciplined K (fun g => g = h ∨ H g)
  | .await (.future f) k, K, H =>
      K f ∧ ∀ o, (k o).Disciplined (fun g => g ∈ outcomeFutures o ∨ K g) H
  | .await (.int h) k, K, H =>
      H h ∧ ∀ r : Int, (k (.ok (.int (.num r)))).Disciplined K (fun g => g ≠ h ∧ H g)
  -- `await` raises
  | .await x k, K, H => (k (.error (notAwaitable x))).Disciplined K H
  | .get _ _, _, _ => False
  | .set _ _ _, _, _ => False

/-- More futures may be known. -/
theorem Body.Disciplined.mono {b : Body D} {K K' : FutureId → Prop} {H : Handle → Prop}
    (hK : ∀ f, K f → K' f) (h : b.Disciplined K H) : b.Disciplined K' H := by
  induction b generalizing K K' H with
  | ret v => exact fun f hf => hK f (h f hf)
  | raise e => exact fun f hf => hK f (h f hf)
  | async thunk k ihb ihk =>
    exact ⟨ihb hK h.1, fun f => ihk _ (fun g hg => hg.imp_right (hK g)) (h.2 f)⟩
  | submit k ih => exact fun g hg => ih _ hK (h g hg)
  | await x k ih =>
    cases x with
    | future f => exact ⟨hK f h.1, fun o => ih o (fun g hg => hg.imp_right (hK g)) (h.2 o)⟩
    | int g => exact ⟨h.1, fun r => ih _ hK (h.2 r)⟩
    | _ => exact ih _ hK h
  | get x k => exact h
  | set x v b => exact h

/-- What the body does next, of an `await` that raises. -/
theorem Body.Disciplined.refused {x : Val D} {k : Outcome D → Body D} {K : FutureId → Prop}
    {H : Handle → Prop} (hx : x.awaitable = false) (h : (Body.await x k).Disciplined K H) :
    (k (.error (notAwaitable x))).Disciplined K H := by
  cases x with
  | future f => cases hx
  | int g => cases hx
  | _ => exact h

/-! ## 2. The invariant -/

/-- The thread is at a disciplined point, the tasks it may still await being its own.  One of them
it has awaited already, when it is parked on it. -/
def Obeys (s : State D) (x : FutureId × Body D) : Prop :=
  ∃ H : Handle → Prop, x.2.Disciplined (· ∈ s.created) H ∧
    ∀ h, H h → h ∈ s.tasks ∧ h.owner = some x.1 ∧
      ((x.1, h) ∈ s.awaits → ∃ k, x.2 = .await (.int h) k ∧ s.waiters.lookup h = some ⟨x.1, k⟩)

structure Behaves (s : State D) : Prop where
  threads : ∀ x ∈ s.threads, Obeys s x
  outcomes : ∀ f o, (s.futures f).state = some o → ∀ g ∈ outcomeFutures o, g ∈ s.created
  isolated : Isolated s
  once : AwaitedOnce s

theorem behaves_init {res : Handle → Int} {root : Body D}
    (hroot : root.Disciplined (fun _ => False) (fun _ => False)) :
    Behaves (machine res root).init := by
  refine ⟨?_, ?_, ⟨rfl, ?_⟩, List.nodup_nil⟩
  · intro x hx
    have hx' : x = ([], root) := by
      have hpool : x ∈ (Pool.init root).threads := hx
      exact Multiset.mem_singleton.mp hpool
    rw [hx']
    exact ⟨fun _ => False, hroot.mono fun _ h => h.elim, fun _ h => h.elim⟩
  · intro f o h
    cases h
  · intro x hx
    cases hx

section
variable {res : Handle → Int} {s u : State D} {fib : FutureId} {items : List (Item D)}

/-- A thread that the step does not move. -/
theorem Obeys.still {x : FutureId × Body D} (h : Obeys s x)
    (hcreated : ∀ f, f ∈ s.created → f ∈ u.created) (htasks : ∀ g, g ∈ s.tasks → g ∈ u.tasks)
    (hawaits : ∀ g, (x.1, g) ∈ u.awaits → (x.1, g) ∈ s.awaits)
    (hlookup : ∀ g k, s.waiters.lookup g = some ⟨x.1, k⟩ → u.waiters.lookup g = some ⟨x.1, k⟩) :
    Obeys u x := by
  rcases h with ⟨H, hb, hH⟩
  refine ⟨H, hb.mono hcreated, fun g hg => ?_⟩
  rcases hH g hg with ⟨htask, howner, hparked⟩
  refine ⟨htasks g htask, howner, fun hmem => ?_⟩
  rcases hparked (hawaits g hmem) with ⟨k, hk, hw⟩
  exact ⟨k, hk, hlookup g k hw⟩

/-- The running fiber has not awaited any of the tasks that it may still await. -/
theorem Obeys.unawaited {b : Body D} (hs : s.Inv res) (hpc : s.pc = .running fib b items)
    (h : Obeys s (fib, b)) :
    ∃ H : Handle → Prop, b.Disciplined (· ∈ s.created) H ∧
      ∀ g, H g → g ∈ s.tasks ∧ g.owner = some fib ∧ (fib, g) ∉ s.awaits := by
  rcases h with ⟨H, hb, hH⟩
  refine ⟨H, hb, fun g hg => ?_⟩
  rcases hH g hg with ⟨htask, howner, hparked⟩
  refine ⟨htask, howner, fun hmem => ?_⟩
  rcases hparked hmem with ⟨k, -, hw⟩
  exact absurd rfl (taker_ne_running hs hpc hw)

/-- A thread that is not parked on a handle. -/
theorem obeys_of_unawaited {x : FutureId × Body D} {H : Handle → Prop}
    (hb : x.2.Disciplined (· ∈ s.created) H)
    (hH : ∀ g, H g → g ∈ s.tasks ∧ g.owner = some x.1 ∧ (x.1, g) ∉ s.awaits) : Obeys s x :=
  ⟨H, hb, fun g hg => ⟨(hH g hg).1, (hH g hg).2.1, fun hmem => absurd hmem (hH g hg).2.2⟩⟩

/-! ## 3. The steps of the scheduler itself -/

/-- Only the places of the fibers change. -/
theorem Behaves.move (hs : Behaves s) (hpool : u.pool = s.pool) (hawaits : u.awaits = s.awaits)
    (hwaiters : u.waiters = s.waiters) (htasks : u.tasks.Perm s.tasks) : Behaves u := by
  have hthreads : u.threads = s.threads := congrArg Pool.threads hpool
  have hcreated : u.created = s.created := congrArg Pool.created hpool
  have houtcome : ∀ f, (u.futures f).state = (s.futures f).state :=
    fun f => congrFun (congrArg Pool.outcome hpool) f
  refine ⟨?_, ?_, ⟨(congrArg Pool.sharing hpool).trans hs.isolated.sharing, ?_⟩, ?_⟩
  · intro x hx
    apply (hs.threads x (hthreads ▸ hx)).still
    · exact fun f hf => hcreated ▸ hf
    · exact fun g hg => htasks.mem_iff.mpr hg
    · exact fun g hg => hawaits ▸ hg
    · exact fun g k hg => hwaiters ▸ hg
  · intro f o ho g hg
    rw [houtcome f] at ho
    exact hcreated ▸ hs.outcomes f o ho g hg
  · intro x hx
    rw [hawaits] at hx
    exact ⟨htasks.mem_iff.mpr (hs.isolated.own x hx).1, (hs.isolated.own x hx).2⟩
  · rw [AwaitedOnce, hawaits]
    exact hs.once

/-- The fiber that waits for the completion goes on with the result. -/
theorem behaves_deliverOne {h : Handle} {cq : List Handle} (hinv : s.Inv res) (hs : Behaves s)
    (hpc : s.pc = .waiting ∨ s.pc = .poll) (hcq : s.cq = h :: cq) :
    Behaves { State.deliverOne { s with cq := cq } h (res h) with pc := .poll } := by
  have hnone : ({ s with cq := cq } : State D).pc.threads = [] := by
    rcases hpc with hpc | hpc <;> rw [hpc] <;> rfl
  have htasks := tasks_pop hcq (res h)
  rcases hw : s.waiters.lookup h with _ | w
  · -- nobody waits for it yet
    refine hs.move ?_ ?_ ?_ ?_
    · have hkept := deliverOne_kept (s := { s with cq := cq }) hw (res h)
      rw [hkept]
      refine Pool.ext ?_ rfl rfl rfl rfl rfl rfl
      show Multiset.ofList [] + s.aside = s.threads
      rw [State.threads, show s.pc.threads = [] from hnone]
    · rw [deliverOne_kept (s := { s with cq := cq }) hw]
    · rw [deliverOne_kept (s := { s with cq := cq }) hw]
    · exact htasks
  · have hwakes := deliverOne_wakes (s := { s with cq := cq }) hw (res h)
    rw [hwakes] at htasks ⊢
    have hthreads : s.threads = (w.fib, .await (.int h) w.k) ::ₘ
        State.aside { s with waiters := s.waiters.erase h } := by
      rw [State.threads, show s.pc.threads = [] from hnone]
      exact (zero_add _).trans (aside_erase hw).symm
    have hX : s.pool.threads = _ := hthreads
    have hmem : ∀ x ∈ State.aside { s with waiters := s.waiters.erase h }, x ∈ s.threads := by
      intro x hx
      rw [hthreads]
      exact Multiset.mem_cons_of_mem hx
    have hself := hs.threads (w.fib, .await (.int h) w.k) (by
      rw [hthreads]
      exact Multiset.mem_cons_self _ _)
    refine ⟨?_, hs.outcomes, ⟨hs.isolated.sharing, ?_⟩, hs.once⟩
    · intro x hx
      have hx' : x ∈ State.threads { s with
          pc := .poll
          cq := cq
          reaped := s.reaped ++ [h]
          waiters := s.waiters.erase h
          ready := ⟨w.fib, .resumeTask h (res h) w.k⟩ :: s.ready } := hx
      have hcases : x = (w.fib, w.k (.ok (.int (.num (res h))))) ∨
          x ∈ State.aside { s with waiters := s.waiters.erase h } := by
        have haside := aside_enqueueReady { s with waiters := s.waiters.erase h }
          ⟨w.fib, .resumeTask h (res h) w.k⟩
        have hx'' : x ∈ (0 : Multiset _) + State.aside
            (State.enqueueReady { s with waiters := s.waiters.erase h }
              ⟨w.fib, .resumeTask h (res h) w.k⟩) := hx'
        rw [zero_add, haside, Multiset.mem_cons] at hx''
        exact hx''
      rcases hcases with rfl | hold
      · rcases hself with ⟨H, hb, hH⟩
        refine ⟨fun g => g ≠ h ∧ H g, hb.2 (res h), fun g hg => ?_⟩
        rcases hH g hg.2 with ⟨htask, howner, hparked⟩
        refine ⟨htasks.mem_iff.mpr htask, howner, fun haw => ?_⟩
        -- it was parked on `h`, so it has awaited no other one of them
        rcases hparked haw with ⟨k, hk, -⟩
        cases hk
        exact absurd rfl hg.1
      · have hne := hinv.pool.ne_of_mem hX hold
        apply (hs.threads x (hmem x hold)).still
        · exact fun f hf => hf
        · exact fun g hg => htasks.mem_iff.mpr hg
        · exact fun g hg => hg
        · intro g k hg
          have hgh : g ≠ h := by
            rintro rfl
            rw [hw] at hg
            cases hg
            exact hne rfl
          show (s.waiters.erase h).lookup g = _
          rw [AList.lookup_erase_ne hgh]
          exact hg
    · intro x hx
      exact ⟨htasks.mem_iff.mpr (hs.isolated.own x hx).1, (hs.isolated.own x hx).2⟩

/-! ## 4. The steps of the running fiber -/

/-- The other fibers stay where they are, whatever the running one has awaited. -/
theorem obeys_others {b : Body D} (hinv : s.Inv res) (hs : Behaves s)
    (hpc : s.pc = .running fib b items) (hcreated : ∀ f, f ∈ s.created → f ∈ u.created)
    (htasks : ∀ g, g ∈ s.tasks → g ∈ u.tasks)
    (hawaits : ∀ y ∈ u.awaits, y ∈ s.awaits ∨ y.1 = fib)
    (hlookup : ∀ g w, w.fib ≠ fib → s.waiters.lookup g = some w → u.waiters.lookup g = some w)
    {x : FutureId × Body D} (hx : x ∈ Multiset.ofList (items.map Item.thread) + s.aside) :
    Obeys u x := by
  have hX : s.pool.threads = _ := threads_running hpc
  have hne : x.1 ≠ fib := hinv.pool.ne_of_mem hX hx
  have hmem : x ∈ s.threads := by
    rw [threads_running hpc]
    exact Multiset.mem_cons_of_mem hx
  apply (hs.threads x hmem).still hcreated htasks
  · exact fun g hg => (hawaits (x.1, g) hg).resolve_right hne
  · exact fun g k hg => hlookup g _ hne hg

theorem Behaves.self (hs : Behaves s) {b : Body D} (hpc : s.pc = .running fib b items) :
    Obeys s (fib, b) := by
  apply hs.threads
  rw [threads_running hpc]
  exact Multiset.mem_cons_self _ _

/-- The running fiber settles; what it mentions is known. -/
theorem behaves_settle {b : Body D} {o : Outcome D} (hinv : s.Inv res) (hs : Behaves s)
    (hpc : s.pc = .running fib b items)
    (ho : ∀ g ∈ outcomeFutures o, g ∈ s.created) :
    Behaves { s.settle fib o with pc := .batch items } := by
  have hX : s.pool.threads = _ := threads_running hpc
  have haside := aside_settle hinv.pool.created (hinv.pool.pending hX).1 o
  refine ⟨?_, ?_, ⟨hs.isolated.sharing, hs.isolated.own⟩, hs.once⟩
  · intro x hx
    have hx' : x ∈ Multiset.ofList (items.map Item.thread) + (s.settle fib o).aside := hx
    rw [haside] at hx'
    exact obeys_others hinv hs hpc (fun _ h => h) (fun _ h => h) (fun _ h => Or.inl h)
      (fun _ _ _ h => h) hx'
  · intro f o' hf
    have hstate : Function.update (fun f => (s.futures f).state) fib (some o) f = some o' :=
      (congrFun (outcome_update s.futures fib ⟨some o, []⟩) f).symm.trans hf
    by_cases hfib : f = fib
    · rw [hfib, Function.update_self] at hstate
      cases hstate
      exact ho
    · rw [Function.update_of_ne hfib] at hstate
      exact hs.outcomes f o' hstate

/-- The running fiber makes a fiber, which has no tasks yet. -/
theorem behaves_async {thunk : Body D} {k : Val D → Body D} (hinv : s.Inv res) (hs : Behaves s)
    (hpc : s.pc = .running fib (.async thunk k) items) :
    Behaves { s.enqueueReady ⟨s.spawned fib :: fib, .start thunk⟩ with
      pc := .running fib (k (.future (s.spawned fib :: fib))) items
      futures := Function.update s.futures (s.spawned fib :: fib) { state := none, waiters := [] }
      created := s.created ++ [s.spawned fib :: fib]
      spawned := Function.update s.spawned fib (s.spawned fib + 1) } := by
  rcases (hs.self hpc).unawaited hinv hpc with ⟨H, ⟨hthunk, hk⟩, hH⟩
  have hgrow : ∀ f, f ∈ s.created → f ∈ s.created ++ [s.spawned fib :: fib] :=
    fun f hf => List.mem_append_left _ hf
  refine ⟨?_, ?_, ⟨hs.isolated.sharing, hs.isolated.own⟩, hs.once⟩
  · intro x hx
    rw [threads_async thunk k hinv.pool, Multiset.mem_cons, Multiset.mem_cons] at hx
    rcases hx with rfl | rfl | hx
    · exact ⟨fun _ => False, hthunk.mono hgrow, fun _ h => h.elim⟩
    · refine obeys_of_unawaited ((hk _).mono ?_) hH
      rintro f (rfl | hf)
      · exact List.mem_append_right _ (List.mem_singleton_self _)
      · exact hgrow f hf
    · apply obeys_others hinv hs hpc ?_ ?_ ?_ ?_ hx
      · exact hgrow
      · exact fun _ h => h
      · exact fun _ h => Or.inl h
      · exact fun _ _ _ h => h
  · intro f o hf g hg
    have hstate :=
      (congrFun (outcome_update s.futures (s.spawned fib :: fib) ⟨none, []⟩) f).symm.trans hf
    by_cases hfib : f = s.spawned fib :: fib
    · rw [hfib, Function.update_self] at hstate
      cases hstate
    · rw [Function.update_of_ne hfib] at hstate
      exact hgrow g (hs.outcomes f o hstate g hg)

/-- The running fiber goes on as `b'`. -/
theorem behaves_goOn {b b' : Body D} (hinv : s.Inv res) (hs : Behaves s)
    (hpc : s.pc = .running fib b items)
    (hself : Obeys { s with pc := .running fib b' items } (fib, b')) :
    Behaves { s with pc := .running fib b' items } := by
  refine ⟨?_, hs.outcomes, ⟨hs.isolated.sharing, hs.isolated.own⟩, hs.once⟩
  intro x hx
  rw [threads_running (s := { s with pc := .running fib b' items }) rfl, Multiset.mem_cons] at hx
  rcases hx with rfl | hx
  · exact hself
  · exact obeys_others hinv hs hpc (fun _ h => h) (fun _ h => h) (fun _ h => Or.inl h)
      (fun _ _ _ h => h) hx

/-- The fiber awaits a task of its own that it has not awaited. -/
theorem once_await {h : Handle} (hs : Behaves s) (htask : h ∈ s.tasks)
    (howner : h.owner = some fib) (hnew : (fib, h) ∉ s.awaits) :
    (∀ x ∈ s.awaits ++ [(fib, h)], x.2 ∈ s.tasks ∧ x.2.owner = some x.1) ∧
      ((s.awaits ++ [(fib, h)]).map Prod.snd).Nodup := by
  constructor
  · intro x hx
    rcases List.mem_append.mp hx with hx | hx
    · exact hs.isolated.own x hx
    · rw [List.mem_singleton.mp hx]
      exact ⟨htask, howner⟩
  · rw [List.map_append, List.map_singleton, ← List.concat_eq_append]
    refine hs.once.concat fun hmem => ?_
    rcases List.mem_map.mp hmem with ⟨x, hx, hxh⟩
    -- whoever has awaited it has submitted it
    have hfib : x.1 = fib := by
      have hx' := (hs.isolated.own x hx).2
      rw [hxh, howner] at hx'
      exact (Option.some.inj hx').symm
    have heq : x = (fib, h) := Prod.ext hfib hxh
    exact hnew (heq ▸ hx)

/-- The completion has come first. -/
theorem behaves_completed {h : Handle} {r : Int} {k : Outcome D → Body D} (hinv : s.Inv res)
    (hs : Behaves s) (hpc : s.pc = .running fib (.await (.int h) k) items) :
    Behaves { s with
      pc := .running fib (k (.ok (.int (.num r)))) items
      awaits := s.awaits ++ [(fib, h)]
      completed := s.completed.erase h
      continued := s.continued ++ [(fib, h, r)] } := by
  rcases (hs.self hpc).unawaited hinv hpc with ⟨H, ⟨hh, hk⟩, hH⟩
  have hself := hH h hh
  have honce := once_await hs hself.1 hself.2.1 hself.2.2
  refine ⟨?_, hs.outcomes, ⟨hs.isolated.sharing, honce.1⟩, honce.2⟩
  intro x hx
  rw [threads_running rfl, Multiset.mem_cons] at hx
  rcases hx with rfl | hx
  · refine obeys_of_unawaited (hk r) fun g hg => ?_
    rcases hH g hg.2 with ⟨htask, howner, hnew⟩
    refine ⟨htask, howner, fun hmem => ?_⟩
    rcases List.mem_append.mp hmem with hmem | hmem
    · exact hnew hmem
    · exact hg.1 (congrArg Prod.snd (List.mem_singleton.mp hmem))
  · apply obeys_others hinv hs hpc ?_ ?_ ?_ ?_ hx
    · exact fun _ h => h
    · exact fun _ h => h
    · intro y hy
      exact (List.mem_append.mp hy).imp_right fun hy => congrArg Prod.fst (List.mem_singleton.mp hy)
    · exact fun _ _ _ h => h

/-- The fiber parks on the task. -/
theorem behaves_registered {h : Handle} {k : Outcome D → Body D} (hinv : s.Inv res)
    (hs : Behaves s) (hpc : s.pc = .running fib (.await (.int h) k) items) :
    Behaves { s with
      pc := .batch items
      awaits := s.awaits ++ [(fib, h)]
      waiters := s.waiters.insert h ⟨fib, k⟩
      overwritten := ((s.waiters.lookup h).map Wake.fib).toList ++ s.overwritten } := by
  rcases (hs.self hpc).unawaited hinv hpc with ⟨H, hb, hH⟩
  have hself := hH h hb.1
  have honce := once_await hs hself.1 hself.2.1 hself.2.2
  have hX : s.pool.threads = _ := threads_running hpc
  refine ⟨?_, hs.outcomes, ⟨hs.isolated.sharing, honce.1⟩, honce.2⟩
  intro x hx
  have hold := threads_registered hpc hx
  rw [threads_running hpc, Multiset.mem_cons] at hold
  rcases hold with rfl | hold
  · refine ⟨H, hb, fun g hg => ⟨(hH g hg).1, (hH g hg).2.1, fun hmem => ?_⟩⟩
    rcases List.mem_append.mp hmem with hmem | hmem
    · exact absurd hmem (hH g hg).2.2
    · have hgh : g = h := congrArg Prod.snd (List.mem_singleton.mp hmem)
      rw [hgh]
      exact ⟨k, rfl, AList.lookup_insert _⟩
  · apply obeys_others hinv hs hpc ?_ ?_ ?_ ?_ hold
    · exact fun _ h => h
    · exact fun _ h => h
    · intro y hy
      exact (List.mem_append.mp hy).imp_right fun hy => congrArg Prod.fst (List.mem_singleton.mp hy)
    · intro g w hw hlook
      have hgh : g ≠ h := by
        rintro rfl
        -- the fiber in the table would own the task as well
        have htaker : s.meeting.taker g = some w.fib := congrArg (Option.map Wake.fib) hlook
        have hown := (hs.isolated.own (w.fib, g) (hinv.meeting.taker g _ htaker)).2
        exact hw (Option.some.inj (hown.symm.trans hself.2.1))
      show (s.waiters.insert h ⟨fib, k⟩).lookup g = _
      rw [AList.lookup_insert_ne hgh]
      exact hlook

/-- The fiber submits a task. -/
theorem behaves_submit {k : Val D → Body D} (hinv : s.Inv res) (hs : Behaves s)
    (hpc : s.pc = .running fib (.submit k) items) :
    Behaves { s with
      pc := .running fib (k (.int (.task fib (s.submitted fib)))) items
      inFlight := s.inFlight ++ [.task fib (s.submitted fib)]
      submitted := Function.update s.submitted fib (s.submitted fib + 1) } := by
  have hfresh : Handle.task fib (s.submitted fib) ∉ s.tasks := by
    intro hmem
    rcases hinv.tasks.submitted _ hmem with ⟨f, n, heq, hlt⟩
    cases heq
    exact Nat.lt_irrefl _ hlt
  have hgrow : ∀ g, g ∈ s.tasks →
      g ∈ s.inFlight ++ [Handle.task fib (s.submitted fib)] ++ s.cq ++ s.reaped := by
    intro g hg
    simp only [State.tasks, List.mem_append] at hg ⊢
    tauto
  rcases (hs.self hpc).unawaited hinv hpc with ⟨H, hb, hH⟩
  have hnew : ¬ H (.task fib (s.submitted fib)) := fun h => hfresh (hH _ h).1
  refine ⟨?_, hs.outcomes, ⟨hs.isolated.sharing, ?_⟩, hs.once⟩
  · intro x hx
    rw [threads_running rfl, Multiset.mem_cons] at hx
    rcases hx with rfl | hx
    · refine obeys_of_unawaited (hb _ hnew) ?_
      rintro g (rfl | hg)
      · refine ⟨?_, rfl, fun hmem => hfresh (hs.isolated.own _ hmem).1⟩
        simp [State.tasks]
      · exact ⟨hgrow g (hH g hg).1, (hH g hg).2⟩
    · apply obeys_others hinv hs hpc ?_ ?_ ?_ ?_ hx
      · exact fun _ h => h
      · exact hgrow
      · exact fun _ h => Or.inl h
      · exact fun _ _ _ h => h
  · exact fun x hx => ⟨hgrow _ (hs.isolated.own x hx).1, (hs.isolated.own x hx).2⟩

/-- A disciplined fiber keeps the discipline, and shares no variable. -/
theorem behaves_run {b : Body D} (hinv : s.Inv res) (hs : Behaves s)
    (hpc : s.pc = .running fib b items) (h : Run s fib items b u) : Behaves u := by
  rcases (hs.self hpc).unawaited hinv hpc with ⟨H, hb, hH⟩
  cases h with
  | ret v => exact behaves_settle hinv hs hpc hb
  | raise e => exact behaves_settle hinv hs hpc hb
  | async thunk k => exact behaves_async hinv hs hpc
  | @settled f o k hf ho =>
    refine behaves_goOn hinv hs hpc (obeys_of_unawaited ((hb.2 o).mono ?_) hH)
    rintro g (hg | hg)
    · exact hs.outcomes f o ho g hg
    · exact hg
  | @parked f k hf ho =>
    exact hs.move (pool_parked hinv.pool hpc hf ho) rfl rfl (List.Perm.refl _)
  | completed k hr => exact behaves_completed hinv hs hpc
  | registered k hr => exact behaves_registered hinv hs hpc
  | refused k hx => exact behaves_goOn hinv hs hpc (obeys_of_unawaited (hb.refused hx) hH)
  | submit k => exact behaves_submit hinv hs hpc
  | get x k => exact hb.elim
  | set x v k => exact hb.elim

theorem behaves_step {a : Action} (hinv : s.Inv res) (hs : Behaves s)
    (hstep : step res s a = some u) : Behaves u := by
  cases a with
  | post h =>
    rcases step_post hstep with ⟨hmem, rfl⟩
    exact hs.move rfl rfl rfl (tasks_complete hmem)
  | tick =>
    cases tick_cases hstep with
    | begin hpc =>
      refine hs.move (pool_begin hpc) ?_ ?_ ?_ <;> unfold State.begin
      · split <;> rfl
      · split <;> rfl
      · split <;> exact List.Perm.refl _
    | run hpc hrun => exact behaves_run hinv hs hpc hrun
    | popped hpc hcq => exact behaves_deliverOne hinv hs (Or.inl hpc) hcq
    | polled hpc hcq => exact behaves_deliverOne hinv hs (Or.inr hpc) hcq
    | top hpc =>
      refine hs.move (pool_place _ _ ?_) rfl rfl (List.Perm.refl _)
      rw [hpc]
      show Multiset.ofList (s.ready.reverse.map Item.thread) + 0 = 0 + _
      rw [List.map_reverse, Multiset.coe_reverse]
      exact add_comm _ _
    | batchEnd hpc | again hpc | wait hpc | exit hpc | drained hpc =>
      refine hs.move (pool_place _ s.ready ?_) rfl rfl (List.Perm.refl _)
      rw [hpc]
      rfl

theorem behaves_reachable {root : Body D}
    (hroot : root.Disciplined (fun _ => False) (fun _ => False))
    (hs : (machine res root).Reachable s) : Behaves s :=
  Machine.Reachable.invariant (P := Behaves) (behaves_init hroot)
    (fun _ _ _ hs h hstep => behaves_step (inv_reachable hs) h hstep) hs

/-- The future that a disciplined fiber awaits has been made. -/
theorem Behaves.not_astray (hs : Behaves s) : ¬ Astray s := by
  rintro ⟨fib, f, k, items, hpc, hf⟩
  rcases hs.self hpc with ⟨H, hb, -⟩
  exact hf hb.1

/-- A disciplined program's run that has come to its end has come to the exit of the loop. -/
theorem exited_of_halted {root : Body D}
    (hroot : root.Disciplined (fun _ => False) (fun _ => False))
    (hs : (machine res root).Reachable s) (hhalt : (machine res root).Halted s) :
    s.pc = .exited := by
  have h := behaves_reachable hroot hs
  exact halted_exited hs hhalt h.once (fun x hx => (h.isolated.own x hx).1) h.not_astray

end

end ChezAsync.Async
