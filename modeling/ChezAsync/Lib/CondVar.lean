import Mathlib.Data.List.Basic
import Mathlib.Tactic.Common

/-!
# Condition variables over a stock of items

A condition variable whose predicate is "there is an item": consumers sleep on it when the stock is
empty, a producer adds an item and afterwards, outside the lock, notifies one sleeper.  `Covered`
is the invariant of that discipline: as long as somebody sleeps, every item has a consumer that has
been notified and has not run yet, or a producer that has not notified yet.
-/

universe u

structure CondVar (κ : Type u) where
  asleep : List κ
  /-- Taken off the wait set by `notifyOne`, and not run yet. -/
  notified : List κ
  /-- Woken without a notification, and not run yet. -/
  woken : List κ

namespace CondVar

variable {κ : Type u}

def new : CondVar κ := { asleep := [], notified := [], woken := [] }

/-- The threads inside a wait. -/
def Waits (v : CondVar κ) (k : κ) : Prop := k ∈ v.asleep ∨ k ∈ v.notified ∨ k ∈ v.woken

/-- The threads that have been woken and have still to test the predicate again. -/
def Runnable (v : CondVar κ) (k : κ) : Prop := k ∈ v.notified ∨ k ∈ v.woken

variable [DecidableEq κ]

instance (v : CondVar κ) (k : κ) : Decidable (v.Waits k) := by
  unfold Waits
  infer_instance

instance (v : CondVar κ) (k : κ) : Decidable (v.Runnable k) := by
  unfold Runnable
  infer_instance

/-! ## 1. Operations -/

def sleep (v : CondVar κ) (k : κ) : CondVar κ := { v with asleep := k :: v.asleep }

/-- A notification reaches the sleeper `k`. -/
def notifyOne (v : CondVar κ) (k : κ) : CondVar κ :=
  { v with asleep := v.asleep.erase k, notified := k :: v.notified }

def spurious (v : CondVar κ) (k : κ) : CondVar κ :=
  { v with asleep := v.asleep.erase k, woken := k :: v.woken }

/-- The runnable `k` runs. -/
def resume (v : CondVar κ) (k : κ) : CondVar κ :=
  if k ∈ v.notified then { v with notified := v.notified.erase k }
  else { v with woken := v.woken.erase k }

@[simp] theorem asleep_resume (v : CondVar κ) (k : κ) : (v.resume k).asleep = v.asleep := by
  unfold resume
  split <;> rfl

/-- Running takes one off the runnable threads. -/
theorem length_resume {v : CondVar κ} {k : κ} (h : v.Runnable k) :
    (v.resume k).notified.length + (v.resume k).woken.length + 1 =
      v.notified.length + v.woken.length := by
  unfold resume
  split
  case isTrue hk =>
    have hlen := List.length_erase_add_one hk
    show (v.notified.erase k).length + v.woken.length + 1 = _
    omega
  case isFalse hk =>
    have hlen := List.length_erase_add_one (h.resolve_left hk)
    show v.notified.length + (v.woken.erase k).length + 1 = _
    omega

/-- At most one notification is used up. -/
theorem notified_resume (v : CondVar κ) (k : κ) :
    v.notified.length ≤ (v.resume k).notified.length + 1 := by
  unfold resume
  split
  case isTrue hk => exact Nat.le_of_eq (List.length_erase_add_one hk).symm
  case isFalse => exact Nat.le_succ _

/-! ## 2. No sleeper over an uncovered item -/

/-- `posting` producers have added their item and have still to notify. -/
def Covered (v : CondVar κ) (posting items : Nat) : Prop :=
  v.asleep ≠ [] → items ≤ v.notified.length + posting

variable {v : CondVar κ} {posting items : Nat} {k : κ}

omit [DecidableEq κ]

theorem Covered.add (h : v.Covered posting items) : v.Covered (posting + 1) (items + 1) :=
  fun hne => Nat.add_le_add_right (h hne) 1

theorem Covered.take (h : v.Covered posting (items + 1)) : v.Covered posting items :=
  fun hne => Nat.le_of_succ_le (h hne)

/-- Who goes to sleep has found no item. -/
theorem covered_zero : v.Covered posting 0 := fun _ => Nat.zero_le _

theorem covered_of_asleep_eq_nil (h : v.asleep = []) : v.Covered posting items :=
  fun hne => absurd h hne

/-- Somebody sleeps while there is an item: a wake-up is on its way. -/
theorem Covered.pending (h : v.Covered posting items) (hne : v.asleep ≠ []) (hpos : 0 < items) :
    v.notified ≠ [] ∨ 0 < posting := by
  have hle := h hne
  by_cases hn : v.notified = []
  · rw [hn, List.length_nil] at hle
    exact Or.inr (by omega)
  · exact Or.inl hn

variable [DecidableEq κ]

theorem Covered.notifyOne (h : v.Covered (posting + 1) items) (hk : k ∈ v.asleep) :
    (v.notifyOne k).Covered posting items := by
  intro _
  have hle := h (List.ne_nil_of_mem hk)
  show items ≤ (k :: v.notified).length + posting
  rw [List.length_cons]
  omega

theorem Covered.spurious (h : v.Covered posting items) (hk : k ∈ v.asleep) :
    (v.spurious k).Covered posting items :=
  fun _ => h (List.ne_nil_of_mem hk)

/-- The one that runs takes an item with it. -/
theorem Covered.resume (h : v.Covered posting (items + 1)) : (v.resume k).Covered posting items := by
  intro hne
  have hle := h (v.asleep_resume k ▸ hne)
  have hrun := v.notified_resume k
  omega

end CondVar
