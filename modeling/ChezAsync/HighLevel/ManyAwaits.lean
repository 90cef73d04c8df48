import Mathlib.Tactic.Common
import ChezAsync.HighLevel.Quiescence

/-!
# Several fibers await one task (`io-async.ss`)

What `await` on a raw task handle comes to when any number of fibers call it, before or after the
completion is reaped.  The table of waiters has one wake a handle, and the table of completed tasks
is emptied by its first reader.
-/

namespace ChezAsync.Async

variable {D : Type}

/-! ## 1. What the awaits of a handle are owed -/

/-- The fibers that have awaited `h`, in order. -/
def State.awaitsOf (s : State D) (h : Handle) : List FutureId :=
  (s.awaits.filter fun x => x.2 = h).map Prod.fst

/-- The awaits of `h` that have gone on, or are queued to go on, and with what. -/
def State.answersOf (s : State D) (h : Handle) : List (FutureId × Handle × Int) :=
  (s.continued ++ s.queued).filter fun m => m.2.1 = h

/-- Of every task handle: until its completion is reaped its awaits are parked, all of them; from
then on each has the task's result, once, and none is parked, so the loop does not block for it.
When the loop blocks or exits, whoever has the result has gone on with it. -/
structure AwaitsServed (res : Handle → Int) (s : State D) : Prop where
  parked : ∀ f n, .task f n ∉ s.reaped →
    s.awaitsOf (.task f n) = ((s.waiters.lookup (.task f n)).map Wake.fib).toList
  answered : ∀ f n, .task f n ∈ s.reaped → (s.answersOf (.task f n)).Perm
    ((s.awaitsOf (.task f n)).map fun g => (g, .task f n, res (.task f n)))
  unparked : ∀ f n, .task f n ∈ s.reaped → s.waiters.lookup (.task f n) = none
  gone : s.pc = .waiting ∨ s.pc = .exited → s.queued = []

/-- The task handle that the running fiber is about to await. -/
def Pc.awaited : Pc D → Option Handle
  | .running _ (.await (.int (.task f n)) _) _ => some (.task f n)
  | _ => none

/-- The condition on the steps: a fiber awaits a task handle that nobody has awaited before. -/
def FirstAwait (s : State D) : Action → Prop
  | .tick => ∀ h ∈ s.pc.awaited, s.awaitsOf h = []
  | .post _ => True

instance (s : State D) (a : Action) : Decidable (FirstAwait s a) := by
  cases a <;> unfold FirstAwait <;> infer_instance

theorem awaited_eq_some {pc : Pc D} {h : Handle} (hh : pc.awaited = some h) :
    ∃ fib f n k items, h = .task f n ∧ pc = .running fib (.await (.int h) k) items := by
  unfold Pc.awaited at hh
  split at hh
  case h_1 fib f n k items =>
    cases hh
    exact ⟨fib, f, n, k, items, rfl, rfl⟩
  case h_2 => cases hh

/-! ## 2. One await more -/

section
variable {res : Handle → Int} {s u : State D}

/-- Only an `await` of an exact integer adds to the awaits. -/
theorem awaits_step {a : Action} (hstep : step res s a = some u) :
    u.awaits = s.awaits ∨ ∃ fib h k items, a = .tick ∧
      s.pc = .running fib (.await (.int h) k) items ∧ u.awaits = s.awaits ++ [(fib, h)] := by
  have hdeliver : ∀ (t : State D) (h : Handle) (r : Int), (t.deliverOne h r).awaits = t.awaits := by
    intro t h r
    simp only [State.deliverOne, State.enqueueReady]
    split <;> rfl
  cases a with
  | post h =>
    rcases step_post hstep with ⟨_, rfl⟩
    exact Or.inl rfl
  | tick =>
    cases tick_cases hstep with
    | begin hpc =>
      left
      unfold State.begin
      split <;> rfl
    | @run fib body items _ hpc hrun =>
      cases hrun with
      | completed k hr => exact Or.inr ⟨_, _, _, _, rfl, hpc, rfl⟩
      | registered k hr => exact Or.inr ⟨_, _, _, _, rfl, hpc, rfl⟩
      | _ => exact Or.inl rfl
    | popped hpc hcq => exact Or.inl (hdeliver _ _ _)
    | polled hpc hcq => exact Or.inl (hdeliver _ _ _)
    | _ => exact Or.inl rfl

theorem awaitsOf_append {awaits : List (FutureId × Handle)} (hu : u.awaits = awaits)
    {fib : FutureId} {g : Handle} (hs : awaits = s.awaits ++ [(fib, g)]) (h : Handle) :
    u.awaitsOf h = if g = h then s.awaitsOf h ++ [fib] else s.awaitsOf h := by
  rw [State.awaitsOf, hu, hs]
  exact Rendezvous.comers_snoc s.meeting fib h g

/-- A step within the condition leaves a task handle's awaits as they are, or is its first. -/
theorem awaitsOf_of_firstAwait {a : Action} (hC : FirstAwait s a) (hstep : step res s a = some u)
    (f : FutureId) (n : Nat) :
    u.awaitsOf (.task f n) = s.awaitsOf (.task f n) ∨ s.awaitsOf (.task f n) = [] := by
  rcases awaits_step hstep with heq | ⟨fib, g, k, items, rfl, hpc, heq⟩
  · left
    rw [State.awaitsOf, heq]
    rfl
  · by_cases hg : g = .task f n
    · subst hg
      right
      exact hC (.task f n) (by rw [hpc]; rfl)
    · left
      rw [awaitsOf_append heq rfl, if_neg hg]

/-- A step outside the condition is another await of a task handle. -/
theorem second_of_not_firstAwait {a : Action} (hC : ¬ FirstAwait s a)
    (hstep : step res s a = some u) :
    ∃ f n, s.awaitsOf (.task f n) ≠ [] ∧
      u.awaitsOf (.task f n) ≠ s.awaitsOf (.task f n) ∧ u.meeting ≠ s.meeting := by
  cases a with
  | post h => exact absurd trivial hC
  | tick =>
    simp only [FirstAwait, not_forall] at hC
    rcases hC with ⟨h, hh, hne⟩
    rcases awaited_eq_some hh with ⟨fib, f, n, k, items, rfl, hpc⟩
    have heq : u.awaits = s.awaits ++ [(fib, .task f n)] := by
      cases run_of_tick hpc hstep with
      | completed | registered => rfl
      | refused _ hx => cases hx
    have hof := awaitsOf_append heq rfl (.task f n)
    rw [if_pos rfl] at hof
    refine ⟨f, n, hne, ?_, ?_⟩
    · rw [hof]
      simp
    · intro hmeet
      have htakes : u.awaits = s.awaits := congrArg Rendezvous.takes hmeet
      rw [heq] at htakes
      simp at htakes

/-! ## 3. The invariant -/

/-- The invariant of the runs within the condition. -/
structure State.ServedInv (res : Handle → Int) (s : State D) : Prop where
  inv : s.Inv res
  served : ∀ f n, s.meeting.Served res (.task f n)

theorem servedInv_init (root : Body D) : (machine res root).init.ServedInv res :=
  ⟨inv_init root, fun f n => Rendezvous.served_empty res (.task f n)⟩

theorem servedInv_step {a : Action} (hs : s.ServedInv res) (hC : FirstAwait s a)
    (hstep : step res s a = some u) : u.ServedInv res := by
  refine ⟨inv_step hs.inv hstep, fun f n => ?_⟩
  rcases meeting_step hs.inv hstep with heq | hmeet
  · exact heq ▸ hs.served f n
  · exact (hs.served f n).step hmeet (awaitsOf_of_firstAwait hC hstep f n)

theorem State.ServedInv.awaitsServed (hs : s.ServedInv res) : AwaitsServed res s := by
  refine ⟨?_, ?_, ?_, fun hpc => quiet_queued hs.inv hpc⟩
  · intro f n hout
    exact ((hs.served f n).waiting hout).1
  · intro f n hin
    have hmet := ((hs.served f n).arrived hin).2.1
    rw [Rendezvous.metAt, State.meeting, Multiset.filter_coe, Multiset.coe_eq_coe] at hmet
    exact hmet
  · intro f n hin
    have htaker := ((hs.served f n).arrived hin).1
    exact Option.map_eq_none_iff.mp htaker

/-- A second await of a task handle drops the first one's wake, or waits for a completion that has
been consumed. -/
theorem not_awaitsServed_of_second {a : Action} (hs : s.ServedInv res) (hC : ¬ FirstAwait s a)
    (hstep : step res s a = some u) : ¬ AwaitsServed res u := by
  intro hserved
  rcases second_of_not_firstAwait hC hstep with ⟨f, n, hne, hnew, hmeet⟩
  rcases meeting_step hs.inv hstep with heq | hR
  · exact hmeet heq
  · rcases (hs.served f n).second hR hnew hne with ⟨hout, hlen⟩ | ⟨hin, htaker⟩
    · -- two awaits, and at most one wake in the table
      have hpark := hserved.parked f n hout
      have hlen' : 2 ≤ (u.awaitsOf (.task f n)).length := hlen
      rw [hpark] at hlen'
      have hone := Option.length_toList_le (o := (u.waiters.lookup (.task f n)).map Wake.fib)
      omega
    · apply htaker
      show (u.waiters.lookup (.task f n)).map Wake.fib = none
      rw [hserved.unparked f n hin]
      rfl

end

/-! ## 4. When every await is served -/

/-- **When awaiting a raw handle is safe.**  All along a schedule every await of a task handle gets
the task's result, none stays parked once the completion is reaped, and the loop does not block for
a reaped task, if and only if no task handle is awaited that has been awaited before. -/
theorem awaits_served_iff {res : Handle → Int} {root : Body D} {as : List Action} {s : State D}
    (hrun : (machine res root).run as = some s) :
    (machine res root).Always (AwaitsServed res) (machine res root).init as ↔
      (machine res root).Meets FirstAwait (machine res root).init as :=
  Machine.always_iff_meets (fun _ _ _ hs hC ht => servedInv_step hs hC ht)
    (fun _ hs => hs.awaitsServed) (fun _ _ _ hs hC ht => not_awaitsServed_of_second hs hC ht)
    (servedInv_init root) hrun

/-- A fiber awaits the task that it has submitted, and blocks until the task completes. -/
def awaitOwn : Body Unit := .submit fun h => .await h fun _ => .ret .void

def awaitOwnRun : List Action :=
  List.replicate 6 .tick ++ .post (.task [] 0) :: List.replicate 7 .tick

theorem awaits_served_awaitOwn :
    (machine (fun _ => 0) awaitOwn).Always (AwaitsServed fun _ => 0)
      (machine (fun _ => 0) awaitOwn).init awaitOwnRun :=
  have hrun : (machine (fun _ => 0) awaitOwn).run awaitOwnRun = some _ := rfl
  (awaits_served_iff hrun).mpr (by decide)

/-- The root and a second fiber await one task before it completes. -/
def awaitTwice : Body Unit :=
  .submit fun h => .async (.await h fun _ => .ret .void) fun _ => .await h fun _ => .ret .void

def awaitTwiceRun : List Action :=
  List.replicate 12 .tick ++ .post (.task [] 0) :: List.replicate 7 .tick

theorem second_await_loses_first :
    ∃ s, (machine (fun _ => 0) awaitTwice).run awaitTwiceRun = some s ∧
      s.awaitsOf (.task [] 0) = [[], [0]] ∧ s.continued = [([0], .task [] 0, 0)] ∧
      runAsync s = some .deadlock ∧ ¬ AwaitsServed (fun _ => 0) s :=
  ⟨_, rfl, rfl, rfl, rfl, fun h =>
    absurd (h.answered [] 0 (List.mem_singleton_self _)).length_eq (by decide)⟩

end ChezAsync.Async
