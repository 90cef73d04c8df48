import Mathlib.Logic.Relation
import Mathlib.Tactic.Common

/-!
# Machines — labelled transition systems that run

A `Machine` is an initial state and a computable step: `step s a = none` says that the action `a`
is not enabled in `s`.  A schedule is a list of actions, so an interleaving of several threads is a
schedule whose actions name the thread that moves.  The file gives the induction rules that the
developments built on it use: invariants over reachable states, properties of all states of one
schedule (`Always`), conditions on all steps of one schedule (`Meets`), the existence of a state in
which nothing is enabled any more, and what the steps of a schedule put out (`outputs`).
-/

universe u v

structure Machine (σ : Type u) (α : Type v) where
  init : σ
  step : σ → α → Option σ

namespace Machine

variable {σ : Type u} {α : Type v} (M : Machine σ α)

/-! ## 1. Schedules -/

/-- The state after the schedule `as`, or `none` when one of its actions is not enabled. -/
def runFrom : σ → List α → Option σ
  | s, [] => some s
  | s, a :: as => (M.step s a).bind fun t => runFrom t as

def run (as : List α) : Option σ := M.runFrom M.init as

@[simp] theorem runFrom_nil (s : σ) : M.runFrom s [] = some s := rfl

theorem runFrom_cons {s u : σ} {a : α} {as : List α} :
    M.runFrom s (a :: as) = some u ↔ ∃ t, M.step s a = some t ∧ M.runFrom t as = some u := by
  simp only [runFrom, Option.bind_eq_some_iff]

theorem runFrom_append {s u : σ} {as bs : List α} :
    M.runFrom s (as ++ bs) = some u ↔ ∃ t, M.runFrom s as = some t ∧ M.runFrom t bs = some u := by
  induction as generalizing s with
  | nil => simp
  | cons a as ih =>
    simp only [List.cons_append, runFrom_cons, ih]
    constructor
    · intro h
      rcases h with ⟨t, ht, w, hw, hu⟩
      exact ⟨w, ⟨t, ht, hw⟩, hu⟩
    · intro h
      rcases h with ⟨w, ⟨t, ht, hw⟩, hu⟩
      exact ⟨t, ht, w, hw, hu⟩

theorem runFrom_snoc {s t u : σ} {a : α} {as : List α}
    (h : M.runFrom s as = some t) (ha : M.step t a = some u) :
    M.runFrom s (as ++ [a]) = some u :=
  M.runFrom_append.mpr ⟨t, h, M.runFrom_cons.mpr ⟨u, ha, rfl⟩⟩

/-- A property that every step keeps holds at the end of every schedule that starts with it. -/
theorem runFrom_invariant {P : σ → Prop}
    (hstep : ∀ s a t, P s → M.step s a = some t → P t) {s t : σ} {as : List α}
    (hs : P s) (hrun : M.runFrom s as = some t) : P t := by
  induction as generalizing s with
  | nil =>
    simp only [runFrom_nil, Option.some.injEq] at hrun
    exact hrun ▸ hs
  | cons a as ih =>
    rcases M.runFrom_cons.mp hrun with ⟨u, hu, hrest⟩
    exact ih (hstep s a u hs hu) hrest

/-! ## 2. Reachable states -/

def Reachable (s : σ) : Prop := ∃ as, M.run as = some s

theorem reachable_init : M.Reachable M.init := ⟨[], rfl⟩

variable {M}

theorem Reachable.step {s t : σ} {a : α} (h : M.Reachable s) (ha : M.step s a = some t) :
    M.Reachable t := by
  rcases h with ⟨as, has⟩
  exact ⟨as ++ [a], M.runFrom_snoc has ha⟩

theorem Reachable.runFrom {s t : σ} {as : List α} (h : M.Reachable s)
    (hrun : M.runFrom s as = some t) : M.Reachable t :=
  M.runFrom_invariant (fun _ _ _ hs ht => hs.step ht) h hrun

/-- The invariant rule: `P` holds at the start and every step from a reachable state keeps it. -/
theorem Reachable.invariant {P : σ → Prop} (hinit : P M.init)
    (hstep : ∀ s a t, M.Reachable s → P s → M.step s a = some t → P t) {s : σ}
    (h : M.Reachable s) : P s := by
  rcases h with ⟨as, has⟩
  have key := M.runFrom_invariant (P := fun s => M.Reachable s ∧ P s)
    (fun s a t hs ht => ⟨hs.1.step ht, hstep s a t hs.1 hs.2 ht⟩)
    ⟨M.reachable_init, hinit⟩ has
  exact key.2

variable (M)

/-! ## 3. Properties of the states and of the steps of one schedule -/

/-- `P` holds in every state that the schedule passes through, the first and the last included. -/
def Always (P : σ → Prop) : σ → List α → Prop
  | s, [] => P s
  | s, a :: as => P s ∧ ∀ t, M.step s a = some t → Always P t as

/-- `C` holds of every step of the schedule: of the state before it and of its action. -/
def Meets (C : σ → α → Prop) : σ → List α → Prop
  | _, [] => True
  | s, a :: as => C s a ∧ ∀ t, M.step s a = some t → Meets C t as

variable {M}

instance decidableMeets {C : σ → α → Prop} [∀ s a, Decidable (C s a)] :
    ∀ (s : σ) (as : List α), Decidable (M.Meets C s as)
  | _, [] => isTrue trivial
  | s, a :: as =>
    match ht : M.step s a with
    | none => decidable_of_iff (C s a) (by simp [Meets, ht])
    | some t =>
      have : Decidable (M.Meets C t as) := decidableMeets t as
      decidable_of_iff (C s a ∧ M.Meets C t as) (by simp [Meets, ht])

theorem Always.head {P : σ → Prop} {s : σ} {as : List α} (h : M.Always P s as) : P s := by
  cases as with
  | nil => exact h
  | cons => exact h.1

theorem Always.last {P : σ → Prop} {s t : σ} {as : List α} (h : M.Always P s as)
    (hrun : M.runFrom s as = some t) : P t := by
  induction as generalizing s with
  | nil =>
    simp only [runFrom_nil, Option.some.injEq] at hrun
    exact hrun ▸ h
  | cons a as ih =>
    rcases M.runFrom_cons.mp hrun with ⟨u, hu, hrest⟩
    exact ih (h.2 u hu) hrest

theorem meets_of_actions {C : α → Prop} {s : σ} {as : List α} (h : ∀ a ∈ as, C a) :
    M.Meets (fun _ a => C a) s as := by
  induction as generalizing s with
  | nil => trivial
  | cons a as ih =>
    exact ⟨h a List.mem_cons_self, fun t _ => ih fun b hb => h b (List.mem_cons_of_mem a hb)⟩

/-- An invariant that the steps meeting `C` keep holds all along a schedule that meets `C`. -/
theorem Meets.always {I : σ → Prop} {C : σ → α → Prop}
    (hstep : ∀ s a t, I s → C s a → M.step s a = some t → I t) {s : σ} {as : List α}
    (hs : I s) (h : M.Meets C s as) : M.Always I s as := by
  induction as generalizing s with
  | nil => exact hs
  | cons a as ih => exact ⟨hs, fun t ht => ih (hstep s a t hs h.1 ht) (h.2 t ht)⟩

theorem Always.mono {P Q : σ → Prop} (hpq : ∀ s, P s → Q s) {s : σ} {as : List α}
    (h : M.Always P s as) : M.Always Q s as := by
  induction as generalizing s with
  | nil => exact hpq s h
  | cons a as ih => exact ⟨hpq s h.1, fun t ht => ih (h.2 t ht)⟩

/-- The converse rule: a step outside `C` leaves a lasting mark `B`, so a schedule that ends
without the mark meets `C` throughout. -/
theorem meets_of_unmarked {I B : σ → Prop} {C : σ → α → Prop}
    (hstep : ∀ s a t, I s → C s a → M.step s a = some t → I t)
    (hmark : ∀ s a t, I s → ¬ C s a → M.step s a = some t → B t)
    (hkeep : ∀ s a t, B s → M.step s a = some t → B t) {s t : σ} {as : List α}
    (hs : I s) (hrun : M.runFrom s as = some t) (hend : ¬ B t) : M.Meets C s as := by
  induction as generalizing s with
  | nil => trivial
  | cons a as ih =>
    rcases M.runFrom_cons.mp hrun with ⟨u, hu, hrest⟩
    have hC : C s a := by
      by_contra hC
      -- the step would leave the mark, and the rest of the schedule would keep it
      exact hend (M.runFrom_invariant hkeep (hmark s a u hs hC hu) hrest)
    refine ⟨hC, fun u' hu' => ?_⟩
    have heq : u = u' := Option.some.inj (hu.symm.trans hu')
    subst heq
    exact ih (hstep s a u hs hC hu) hrest

/-- The exact rule for a property that a step outside `C` breaks at once. -/
theorem always_iff_meets {I P : σ → Prop} {C : σ → α → Prop}
    (hstep : ∀ s a t, I s → C s a → M.step s a = some t → I t)
    (hIP : ∀ s, I s → P s)
    (hbreak : ∀ s a t, I s → ¬ C s a → M.step s a = some t → ¬ P t) {s t : σ} {as : List α}
    (hs : I s) (hrun : M.runFrom s as = some t) : M.Always P s as ↔ M.Meets C s as := by
  constructor
  · intro h
    induction as generalizing s with
    | nil => trivial
    | cons a as ih =>
      rcases M.runFrom_cons.mp hrun with ⟨u, hu, hrest⟩
      have hC : C s a := by
        by_contra hC
        -- the next state of the schedule would be without `P`
        exact hbreak s a u hs hC hu (h.2 u hu).head
      refine ⟨hC, fun u' hu' => ?_⟩
      have heq : u = u' := Option.some.inj (hu.symm.trans hu')
      subst heq
      exact ih (hstep s a u hs hC hu) hrest (h.2 u hu)
  · intro h
    exact (h.always hstep hs).mono hIP

/-- Two conditions that agree on the steps taken from the states of an invariant. -/
theorem meets_congr {I : σ → Prop} {C D : σ → α → Prop}
    (hstep : ∀ s a t, I s → M.step s a = some t → I t)
    (hCD : ∀ s a t, I s → M.step s a = some t → (C s a ↔ D s a)) {s t : σ} {as : List α}
    (hs : I s) (hrun : M.runFrom s as = some t) : M.Meets C s as ↔ M.Meets D s as := by
  induction as generalizing s with
  | nil => exact Iff.rfl
  | cons a as ih =>
    rcases M.runFrom_cons.mp hrun with ⟨u, hu, hrest⟩
    have htail := ih (hstep s a u hs hu) hrest
    have hnext : ∀ E : σ → α → Prop,
        (∀ u', M.step s a = some u' → M.Meets E u' as) ↔ M.Meets E u as := by
      intro E
      rw [hu]
      simp
    rw [Meets, Meets, hCD s a u hs hu, hnext, hnext, htail]

/-! ## 4. States in which nothing is enabled -/

variable (M)

def Halted (s : σ) : Prop := ∀ a, M.step s a = none

/-- A machine whose steps by the actions `A`, from the states of an invariant, are well founded can
be run by them until none of them is enabled. -/
theorem exists_stopped {I : σ → Prop} {A : α → Prop}
    (hstep : ∀ s a t, I s → A a → M.step s a = some t → I t)
    (hwf : WellFounded fun t s => I s ∧ ∃ a, A a ∧ M.step s a = some t) {s : σ} (hs : I s) :
    ∃ as t, (∀ a ∈ as, A a) ∧ M.runFrom s as = some t ∧ I t ∧ ∀ a, A a → M.step t a = none := by
  induction s using hwf.induction with
  | _ s ih =>
    by_cases hstop : ∀ a, A a → M.step s a = none
    · exact ⟨[], s, by simp, rfl, hs, hstop⟩
    · -- an action of the kind is enabled: take it and go on from there
      simp only [not_forall, ← ne_eq, Option.ne_none_iff_exists'] at hstop
      rcases hstop with ⟨a, hA, t, ht⟩
      have ht' := hstep s a t hs hA ht
      rcases ih t ⟨hs, a, hA, ht⟩ ht' with ⟨as, u, has, hu, hIu, hend⟩
      refine ⟨a :: as, u, ?_, M.runFrom_cons.mpr ⟨t, ht, hu⟩, hIu, hend⟩
      intro b hb
      rcases List.mem_cons.mp hb with rfl | hb
      · exact hA
      · exact has b hb

/-- A machine whose every step lowers a measure can be run until nothing is enabled. -/
theorem exists_halted (μ : σ → Nat) (hμ : ∀ s a t, M.step s a = some t → μ t < μ s) (s : σ) :
    ∃ as t, M.runFrom s as = some t ∧ M.Halted t := by
  have hwf : WellFounded fun t s => True ∧ ∃ a, True ∧ M.step s a = some t := by
    refine Subrelation.wf ?_ (measure μ).wf
    intro t s hts
    rcases hts with ⟨-, a, -, ht⟩
    exact hμ s a t ht
  rcases M.exists_stopped (I := fun _ => True) (A := fun _ => True) (fun _ _ _ _ _ _ => trivial)
    hwf (s := s) trivial with ⟨as, t, -, ht, -, hend⟩
  exact ⟨as, t, ht, fun a => hend a trivial⟩

/-! ## 5. What a schedule puts out -/

section
variable {β : Type*}

/-- What the steps of a schedule put out, in order. -/
def outputs (out : σ → α → List β) : σ → List α → List β
  | _, [] => []
  | s, a :: as =>
    out s a ++
      match M.step s a with
      | some t => outputs out t as
      | none => []

theorem outputs_cons {out : σ → α → List β} {s t : σ} {a : α} (as : List α)
    (h : M.step s a = some t) :
    M.outputs out s (a :: as) = out s a ++ M.outputs out t as := by
  rw [outputs, h]

/-- **Queues.**  When every step puts out what it takes from the front of a queue, a schedule puts
out the queue in its order, and then what has been added behind it. -/
theorem queue_runFrom {out : σ → α → List β} {queue : σ → List β} {I : σ → Prop} {P : β → Prop}
    (hstep : ∀ s a t, I s → M.step s a = some t → I t)
    (hqueue : ∀ s a t, I s → M.step s a = some t →
      ∃ new, out s a ++ queue t = queue s ++ new ∧ ∀ x ∈ new, P x)
    {s t : σ} {as : List α} (hs : I s) (hrun : M.runFrom s as = some t) :
    ∃ new, M.outputs out s as ++ queue t = queue s ++ new ∧ ∀ x ∈ new, P x := by
  induction as generalizing s with
  | nil =>
    simp only [runFrom_nil, Option.some.injEq] at hrun
    subst hrun
    exact ⟨[], (List.append_nil _).symm, fun x hx => absurd hx List.not_mem_nil⟩
  | cons a as ih =>
    rcases M.runFrom_cons.mp hrun with ⟨u, hu, hrest⟩
    rcases hqueue s a u hs hu with ⟨new, heq, hnew⟩
    rcases ih (hstep s a u hs hu) hrest with ⟨new', heq', hnew'⟩
    refine ⟨new ++ new', ?_, fun x hx => ?_⟩
    · rw [M.outputs_cons as hu, List.append_assoc, heq', ← List.append_assoc, heq,
        List.append_assoc]
    · exact (List.mem_append.mp hx).elim (hnew x) (hnew' x)

/-- **Records.**  A record to which every step adds what it puts out, as long as `P` lasts. -/
theorem record_runFrom {out : σ → α → List β} {record : σ → List β} {I P : σ → Prop}
    (hstep : ∀ s a t, I s → M.step s a = some t → I t)
    (hrecord : ∀ s a t, I s → M.step s a = some t → P t →
      P s ∧ record t = record s ++ out s a)
    {s t : σ} {as : List α} (hs : I s) (hrun : M.runFrom s as = some t) (ht : P t) :
    P s ∧ record t = record s ++ M.outputs out s as := by
  induction as generalizing s with
  | nil =>
    simp only [runFrom_nil, Option.some.injEq] at hrun
    subst hrun
    exact ⟨ht, (List.append_nil _).symm⟩
  | cons a as ih =>
    rcases M.runFrom_cons.mp hrun with ⟨u, hu, hrest⟩
    rcases ih (hstep s a u hs hu) hrest with ⟨hP, heq⟩
    rcases hrecord s a u hs hu hP with ⟨hP', heq'⟩
    exact ⟨hP', by rw [heq, heq', M.outputs_cons as hu, List.append_assoc]⟩

end

end Machine
