import Mathlib.Data.Finset.Card
import Mathlib.Tactic.Common

/-!
# Reference counts

An object that several parties share and that the last of them deletes.  The counter is decremented
and tested in one atomic step; the party that has taken it from 1 deletes the object in a later
step of its own.  `Held c H` says that the parties holding a reference are exactly those of `H`;
each operation has one rule that says what becomes of `H`.
-/

universe u

structure RefCount (κ : Type u) where
  refs : Int
  /-- The parties that have seen the count at 1 and are about to delete the object. -/
  deleting : List κ
  /-- How often the object has been deleted. -/
  deletes : Nat

namespace RefCount

variable {κ : Type u}

/-! ## 1. Operations -/

/-- A new object: its creator holds the only reference. -/
def new : RefCount κ := { refs := 1, deleting := [], deletes := 0 }

def retain (c : RefCount κ) : RefCount κ := { c with refs := c.refs + 1 }

/-- The atomic decrement, with the decision that follows from the old value. -/
def release (c : RefCount κ) (k : κ) : RefCount κ :=
  { c with
    refs := c.refs - 1, deleting := if c.refs = 1 then k :: c.deleting else c.deleting }

def delete [DecidableEq κ] (c : RefCount κ) (k : κ) : RefCount κ :=
  { c with deleting := c.deleting.erase k, deletes := c.deletes + 1 }

/-- The deletion has been decided: from now on the object may be gone at any time. -/
def Dying (c : RefCount κ) : Prop := c.deleting ≠ [] ∨ 0 < c.deletes

instance [DecidableEq κ] (c : RefCount κ) : Decidable c.Dying := by
  unfold Dying
  infer_instance

/-! ## 2. Who holds a reference -/

structure Held (c : RefCount κ) (H : Finset κ) : Prop where
  refs : c.refs = H.card
  alive : H.Nonempty → ¬ c.Dying
  last : H = ∅ → c.deleting.length + c.deletes = 1

theorem held_new (k : κ) : Held new {k} := by
  refine ⟨rfl, ?_, ?_⟩
  · intro _
    simp [new, Dying]
  · intro h
    exact absurd h (Finset.singleton_ne_empty k)

namespace Held

variable {c : RefCount κ} {H : Finset κ}

/-- Nobody who still holds a reference can find the object gone. -/
theorem not_dying (h : Held c H) {k : κ} (hk : k ∈ H) : ¬ c.Dying := h.alive ⟨k, hk⟩

theorem dying_iff (h : Held c H) : c.Dying ↔ H = ∅ := by
  constructor
  · intro hd
    by_contra hne
    exact h.alive (Finset.nonempty_iff_ne_empty.mpr hne) hd
  · intro he
    have hlast := h.last he
    by_cases hdel : c.deleting = []
    · rw [hdel, List.length_nil] at hlast
      exact Or.inr (by omega)
    · exact Or.inl hdel

/-- Once the object is deleted nobody is about to delete it again. -/
theorem deleting_eq_nil (h : Held c H) (hd : 0 < c.deletes) : c.deleting = [] := by
  have hlast := h.last (h.dying_iff.mp (Or.inr hd))
  rw [← List.length_eq_zero_iff]
  omega

variable [DecidableEq κ]

/-- The object is deleted once, by one party, when nobody holds it any more. -/
theorem deletions (h : Held c H) :
    c.deleting.length + c.deletes = if H = ∅ then 1 else 0 := by
  by_cases he : H = ∅
  · rw [if_pos he]
    exact h.last he
  · have hd := h.alive (Finset.nonempty_iff_ne_empty.mpr he)
    simp only [Dying, not_or, not_not] at hd
    rw [if_neg he, hd.1, List.length_nil]
    omega

/-- A reference is taken while somebody else holds one. -/
theorem retain (h : Held c H) {k : κ} (hne : H.Nonempty) (hk : k ∉ H) :
    Held c.retain (insert k H) := by
  refine ⟨?_, fun _ => h.alive hne, fun he => absurd he (Finset.insert_ne_empty k H)⟩
  rw [Finset.card_insert_of_notMem hk]
  show c.refs + 1 = _
  rw [h.refs]
  rfl

theorem release (h : Held c H) {k : κ} (hk : k ∈ H) : Held (c.release k) (H.erase k) := by
  have hcard := Finset.card_erase_add_one hk
  have hrefs := h.refs
  have hd := h.not_dying hk
  simp only [Dying, not_or, not_not] at hd
  refine ⟨?_, ?_, ?_⟩
  · show c.refs - 1 = _
    omega
  · intro hne
    -- somebody is left, so the count was not 1
    have hpos := hne.card_pos
    have hrefs1 : ¬ c.refs = 1 := by omega
    simp only [Dying, RefCount.release, hrefs1, if_false, hd.1]
    simpa using hd.2
  · intro he
    rw [he, Finset.card_empty] at hcard
    have hrefs1 : c.refs = 1 := by omega
    have hdel : c.deletes = 0 := by omega
    simp [RefCount.release, hrefs1, hd.1, hdel]

theorem delete (h : Held c H) {k : κ} (hk : k ∈ c.deleting) : Held (c.delete k) H := by
  have he : H = ∅ := h.dying_iff.mp (Or.inl (List.ne_nil_of_mem hk))
  have hlen := List.length_erase_add_one hk
  have hlast := h.last he
  refine ⟨h.refs, fun hne => absurd he hne.ne_empty, fun _ => ?_⟩
  show (c.deleting.erase k).length + (c.deletes + 1) = 1
  omega

end Held

end RefCount
