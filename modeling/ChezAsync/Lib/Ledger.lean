import Mathlib.Algebra.BigOperators.Group.Multiset.Basic
import Mathlib.Tactic.Abel
import Mathlib.Tactic.Common
import ChezAsync.Lib.Machine

/-!
# Ledgers of linear resources

Resources that are acquired, become ready, are used while they are ready, and are released, all but
the uses once.  A ledger keeps the stage of every resource, together with a balance to which a
resource adds its weight while it is held; an event that comes at the wrong time has no step.  The
file tells what the events of one resource look like in a run, and what the balance is made of.
-/

universe u v w x

namespace Ledger

/-! ## 1. Events and stages -/

/-- `τ` is what is known of a resource when it is acquired, `α` the ways in which it is used. -/
inductive Event (κ : Type u) (τ : Type v) (α : Type w)
  | acquire (k : κ) (tag : τ)
  | ready (k : κ)
  | use (a : α) (k : κ)
  | release (k : κ)

variable {κ : Type u} {τ : Type v} {α : Type w} {β : Type x}

def Event.key : Event κ τ α → κ
  | .acquire k _ => k
  | .ready k => k
  | .use _ k => k
  | .release k => k

inductive Stage (τ : Type v)
  | unborn
  | held (tag : τ) (isReady : Bool)
  | gone

/-- The whole life of a resource. -/
def uses (k : κ) (tag : τ) (as : List α) : List (Event κ τ α) :=
  .acquire k tag :: .ready k :: as.map (.use · k) ++ [.release k]

/-- The events of a resource that is at the stage. -/
def Stage.Events (k : κ) : Stage τ → List (Event κ τ α) → Prop
  | .unborn, es => es = []
  | .held tag false, es => es = [.acquire k tag]
  | .held tag true, es => ∃ as : List α, es = .acquire k tag :: .ready k :: as.map (.use · k)
  | .gone, es => ∃ (tag : τ) (as : List α), es = uses k tag as

end Ledger

structure Ledger (κ : Type u) (τ : Type v) (β : Type x) where
  stage : κ → Ledger.Stage τ
  balance : β

namespace Ledger

variable {κ : Type u} {τ : Type v} {α : Type w} {β : Type x} [DecidableEq κ] [AddCommGroup β]

/-- `none` when the event comes at the wrong time. -/
def step (weight : τ → β) (L : Ledger κ τ β) : Event κ τ α → Option (Ledger κ τ β)
  | .acquire k tag =>
      match L.stage k with
      | .unborn =>
          some { stage := Function.update L.stage k (.held tag false)
                 balance := L.balance + weight tag }
      | _ => none
  | .ready k =>
      match L.stage k with
      | .held tag false => some { L with stage := Function.update L.stage k (.held tag true) }
      | _ => none
  | .use _ k =>
      match L.stage k with
      | .held _ true => some L
      | _ => none
  | .release k =>
      match L.stage k with
      | .held tag true =>
          some { stage := Function.update L.stage k .gone, balance := L.balance - weight tag }
      | _ => none

def machine (α : Type w) (weight : τ → β) : Machine (Ledger κ τ β) (Event κ τ α) where
  init := { stage := fun _ => .unborn, balance := 0 }
  step := step weight

/-! ## 2. What a step does -/

section
variable {weight : τ → β} {L M : Ledger κ τ β} {k : κ}

/-- The events that have a step, with what they do. -/
inductive Steps (weight : τ → β) (L : Ledger κ τ β) : Event κ τ α → Ledger κ τ β → Prop
  | acquire {k : κ} (tag : τ) (hk : L.stage k = .unborn) :
      Steps weight L (.acquire k tag)
        { stage := Function.update L.stage k (.held tag false)
          balance := L.balance + weight tag }
  | ready {k : κ} {tag : τ} (hk : L.stage k = .held tag false) :
      Steps weight L (.ready k) { L with stage := Function.update L.stage k (.held tag true) }
  | use (a : α) {k : κ} {tag : τ} (hk : L.stage k = .held tag true) :
      Steps weight L (.use a k) L
  | release {k : κ} {tag : τ} (hk : L.stage k = .held tag true) :
      Steps weight L (.release k)
        { stage := Function.update L.stage k .gone, balance := L.balance - weight tag }

theorem steps_iff {e : Event κ τ α} : L.step weight e = some M ↔ Steps weight L e M := by
  constructor
  · intro h
    cases e with
    | acquire k tag =>
      simp only [step] at h
      split at h
      case h_1 hk => exact Option.some.inj h ▸ .acquire tag hk
      case h_2 => cases h
    | ready k =>
      simp only [step] at h
      split at h
      case h_1 hk => exact Option.some.inj h ▸ .ready hk
      case h_2 => cases h
    | use a k =>
      simp only [step] at h
      split at h
      case h_1 hk => exact Option.some.inj h ▸ .use a hk
      case h_2 => cases h
    | release k =>
      simp only [step] at h
      split at h
      case h_1 hk => exact Option.some.inj h ▸ .release hk
      case h_2 => cases h
  · intro h
    cases h with
    | acquire tag hk => simp only [step, hk]
    | ready hk => simp only [step, hk]
    | use a hk => simp only [step, hk]
    | release hk => simp only [step, hk]

theorem Steps.step {e : Event κ τ α} (h : Steps weight L e M) :
    (machine α weight).step L e = some M :=
  steps_iff.mpr h

/-- The other resources are not concerned. -/
theorem stage_of_ne {e : Event κ τ α} (h : L.step weight e = some M) (hk : k ≠ e.key) :
    M.stage k = L.stage k := by
  cases steps_iff.mp h with
  | use => rfl
  | _ => exact Function.update_of_ne hk _ _

/-- Whether an event has a step depends on the stage of its own resource alone, and so does the
stage in which it leaves it. -/
theorem step_congr {L' : Ledger κ τ β} {e : Event κ τ α} (h : L.step weight e = some M)
    (heq : L'.stage e.key = L.stage e.key) :
    ∃ M', L'.step weight e = some M' ∧ M'.stage e.key = M.stage e.key := by
  cases steps_iff.mp h with
  | acquire tag hk =>
    refine ⟨_, steps_iff.mpr (.acquire tag (heq.trans hk)), ?_⟩
    simp only [Event.key, Function.update_self]
  | ready hk =>
    refine ⟨_, steps_iff.mpr (.ready (heq.trans hk)), ?_⟩
    simp only [Event.key, Function.update_self]
  | use a hk => exact ⟨_, steps_iff.mpr (.use a (heq.trans hk)), heq⟩
  | release hk =>
    refine ⟨_, steps_iff.mpr (.release (heq.trans hk)), ?_⟩
    simp only [Event.key, Function.update_self]

/-! ## 3. The life of one resource -/

theorem runFrom_use (as : List α) {tag : τ} (hk : L.stage k = .held tag true) :
    (machine α weight).runFrom L (as.map (.use · k)) = some L := by
  induction as with
  | nil => rfl
  | cons a as ih =>
    exact (machine α weight).runFrom_cons.mpr ⟨L, Steps.step (.use a hk), ih⟩

/-- **A whole life leaves the balance as it was.** -/
theorem runFrom_uses (tag : τ) (as : List α) (hk : L.stage k = .unborn) :
    (machine α weight).runFrom L (uses k tag as) =
      some { L with stage := Function.update L.stage k .gone } := by
  let A : Ledger κ τ β :=
    { stage := Function.update L.stage k (.held tag false), balance := L.balance + weight tag }
  have hA : A.stage k = .held tag false := Function.update_self ..
  let R : Ledger κ τ β := { A with stage := Function.update A.stage k (.held tag true) }
  have hR : R.stage k = .held tag true := Function.update_self ..
  have hend : { stage := Function.update R.stage k .gone, balance := R.balance - weight tag } =
      ({ L with stage := Function.update L.stage k .gone } : Ledger κ τ β) := by
    simp only [R, A, Function.update_idem, add_sub_cancel_right]
  refine (machine α weight).runFrom_cons.mpr ⟨A, Steps.step (.acquire tag hk), ?_⟩
  refine (machine α weight).runFrom_cons.mpr ⟨R, Steps.step (.ready hA), ?_⟩
  refine (machine α weight).runFrom_append.mpr ⟨R, runFrom_use as hR, ?_⟩
  exact (machine α weight).runFrom_cons.mpr ⟨_, Steps.step (.release hR), congrArg some hend⟩

/-- The events of a resource, one after the other. -/
theorem events_step {e : Event κ τ α} (h : L.step weight e = some M) {es : List (Event κ τ α)}
    (hes : (L.stage e.key).Events e.key es) : (M.stage e.key).Events e.key (es ++ [e]) := by
  cases steps_iff.mp h with
  | @acquire k tag hk =>
    rw [Event.key, hk] at hes
    simp only [Event.key, Function.update_self]
    exact congrArg (· ++ [_]) hes
  | @ready k tag hk =>
    rw [Event.key, hk] at hes
    simp only [Event.key, Function.update_self]
    exact ⟨[], congrArg (· ++ [_]) hes⟩
  | @use a k tag hk =>
    rw [Event.key, hk] at hes ⊢
    rcases hes with ⟨as, rfl⟩
    refine ⟨as ++ [a], ?_⟩
    rw [List.map_append]
    rfl
  | @release k tag hk =>
    rw [Event.key, hk] at hes
    simp only [Event.key, Function.update_self]
    rcases hes with ⟨as, rfl⟩
    exact ⟨tag, as, rfl⟩

/-- **The events of one resource.**  In a run from the empty ledger they are the beginning of a
life that the resource's stage tells. -/
theorem events_of_run {es : List (Event κ τ α)} (h : (machine α weight).run es = some L) (k : κ) :
    (L.stage k).Events k (es.filter (·.key = k)) := by
  induction es using List.reverseRecOn generalizing L with
  | nil =>
    cases h
    rfl
  | append_singleton es e ih =>
    rcases (machine α weight).runFrom_append.mp h with ⟨M, hM, hlast⟩
    have hstep : M.step weight e = some L := by
      rcases (machine α weight).runFrom_cons.mp hlast with ⟨N, hN, hend⟩
      cases hend
      exact hN
    rw [List.filter_append]
    by_cases hk : e.key = k
    · subst hk
      rw [List.filter_singleton, decide_eq_true rfl]
      exact events_step hstep (ih hM)
    · rw [List.filter_singleton, decide_eq_false hk, stage_of_ne hstep fun heq => hk heq.symm]
      exact (List.append_nil _).symm ▸ ih hM

/-! ## 4. What the balance is made of -/

/-- `H` are the resources held, with their tags. -/
structure Holds (weight : τ → β) (L : Ledger κ τ β) (H : Multiset (κ × τ)) : Prop where
  nodup : (H.map Prod.fst).Nodup
  mem : ∀ k tag, (k, tag) ∈ H ↔ ∃ isReady, L.stage k = .held tag isReady
  balance : L.balance = (H.map fun x => weight x.2).sum

theorem holds_step {e : Event κ τ α} {H : Multiset (κ × τ)} (hL : L.Holds weight H)
    (h : L.step weight e = some M) : ∃ H', M.Holds weight H' := by
  cases steps_iff.mp h with
  | @acquire k tag hk =>
    refine ⟨(k, tag) ::ₘ H, ?_, ?_, ?_⟩
    · rw [Multiset.map_cons, Multiset.nodup_cons]
      refine ⟨fun hmem => ?_, hL.nodup⟩
      rcases Multiset.mem_map.mp hmem with ⟨⟨k', tag'⟩, hx, rfl⟩
      rcases (hL.mem k' tag').mp hx with ⟨isReady, hheld⟩
      cases hk.symm.trans hheld
    · intro k' tag'
      rw [Multiset.mem_cons, hL.mem, Prod.mk.injEq]
      by_cases hkk : k' = k
      · subst hkk
        simp only [hk, Function.update_self, Stage.held.injEq, true_and, reduceCtorEq,
          exists_false, or_false, exists_and_left, exists_eq', and_true]
        exact eq_comm
      · simp only [Function.update_of_ne hkk, hkk, false_and, false_or]
    · show L.balance + weight tag = _
      rw [Multiset.map_cons, Multiset.sum_cons, hL.balance, add_comm]
  | @ready k tag hk =>
    refine ⟨H, hL.nodup, fun k' tag' => ?_, hL.balance⟩
    rw [hL.mem]
    by_cases hkk : k' = k
    · subst hkk
      simp only [hk, Function.update_self, Stage.held.injEq, exists_and_left, exists_eq', and_true]
    · simp only [Function.update_of_ne hkk]
  | use => exact ⟨H, hL⟩
  | @release k tag hk =>
    rcases Multiset.exists_cons_of_mem ((hL.mem k tag).mpr ⟨true, hk⟩) with ⟨H', rfl⟩
    have hnodup := hL.nodup
    rw [Multiset.map_cons, Multiset.nodup_cons] at hnodup
    refine ⟨H', hnodup.2, fun k' tag' => ?_, ?_⟩
    · by_cases hkk : k' = k
      · subst hkk
        simp only [Function.update_self, reduceCtorEq, exists_false, iff_false]
        exact fun hmem => hnodup.1 (Multiset.mem_map.mpr ⟨_, hmem, rfl⟩)
      · have hmem := hL.mem k' tag'
        rw [Multiset.mem_cons, Prod.mk.injEq] at hmem
        simp only [hkk, false_and, false_or] at hmem
        simp only [Function.update_of_ne hkk]
        exact hmem
    · show L.balance - weight tag = _
      rw [hL.balance, Multiset.map_cons, Multiset.sum_cons, add_sub_cancel_left]

/-- **The balance of a run** is the weight of the resources that are held. -/
theorem holds_of_run {es : List (Event κ τ α)} (h : (machine α weight).run es = some L) :
    ∃ H, L.Holds weight H := by
  refine (machine α weight).runFrom_invariant (P := fun L => ∃ H, L.Holds weight H)
    (fun M e N hM hstep => hM.elim fun H hH => holds_step hH hstep) ⟨0, ?_, ?_, ?_⟩ h
  · exact Multiset.nodup_zero
  · intro k tag
    simp [machine]
  · rfl

end

end Ledger
