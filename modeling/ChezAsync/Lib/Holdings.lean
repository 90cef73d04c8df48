import Mathlib.Data.List.Nodup
import Mathlib.Logic.Relation
import Mathlib.Tactic.Common

/-!
# Holdings — items that are in one place at a time

Items are issued, held by places, and in the end answered or dropped.  A move takes what one place
holds and what is issued just then, and hands each item to the place again, to the answers or to
the dropped ones.  Moves keep every item in exactly one of these spots.
-/

universe u v

/-- What each place holds, what has been answered, what has been dropped, and all items so far. -/
structure Holdings (ι : Type u) (α : Type v) where
  held : ι → List α
  answered : List α
  dropped : List α
  issued : List α

namespace Holdings

variable {ι : Type u} {α : Type v}

/-! ## 1. Balance -/

/-- An issued item is answered, dropped or held, once and in one place. -/
structure Balanced (h : Holdings ι α) : Prop where
  nodup : ∀ i, (h.held i).Nodup
  apart : ∀ i j a, a ∈ h.held i → a ∈ h.held j → i = j
  settled : (h.answered ++ h.dropped).Nodup
  free : ∀ i, ∀ a ∈ h.held i, a ∉ h.answered ++ h.dropped
  issued : ∀ a, a ∈ h.issued ↔ a ∈ h.answered ++ h.dropped ∨ ∃ i, a ∈ h.held i

/-- The place `i` is given the items `new`, and hands out `done` and `lost`. -/
structure Move (i : ι) (new done lost : List α) (h h' : Holdings ι α) : Prop where
  others : ∀ j, j ≠ i → h'.held j = h.held j
  answered : h'.answered = h.answered ++ done
  dropped : h'.dropped = h.dropped ++ lost
  issued : ∀ a, a ∈ h'.issued ↔ a ∈ new ∨ a ∈ h.issued
  fresh : new.Nodup ∧ ∀ a ∈ new, a ∉ h.issued
  exchange : (done ++ lost ++ h'.held i).Perm (h.held i ++ new)

section
variable {h h' h'' : Holdings ι α} {i : ι} {new done lost : List α}

/-- What leaves the place or stays there was held by it or is new. -/
theorem Move.mem_exchange (hm : Move i new done lost h h') (a : α) :
    (a ∈ done ++ lost ∨ a ∈ h'.held i) ↔ (a ∈ h.held i ∨ a ∈ new) := by
  rw [← List.mem_append, ← List.mem_append]
  exact hm.exchange.mem_iff

/-- Neither the old items of the place nor the new ones are settled. -/
theorem Balanced.unsettled (hb : h.Balanced) (hm : Move i new done lost h h') {a : α}
    (ha : a ∈ h.held i ∨ a ∈ new) : a ∉ h.answered ++ h.dropped := by
  rcases ha with ha | ha
  · exact hb.free i a ha
  · exact fun hset => hm.fresh.2 a ha ((hb.issued a).mpr (Or.inl hset))

/-- No other place holds an item that the move is about. -/
theorem Balanced.elsewhere (hb : h.Balanced) (hm : Move i new done lost h h') {a : α}
    (ha : a ∈ h.held i ∨ a ∈ new) {j : ι} (hj : j ≠ i) : a ∉ h.held j := by
  intro hmem
  rcases ha with ha | ha
  · exact hj (hb.apart j i a hmem ha)
  · exact hm.fresh.2 a ha ((hb.issued a).mpr (Or.inr ⟨j, hmem⟩))

theorem Balanced.nodup_exchange (hb : h.Balanced) (hm : Move i new done lost h h') :
    (done ++ lost ++ h'.held i).Nodup := by
  rw [hm.exchange.nodup_iff]
  refine List.nodup_append'.mpr ⟨hb.nodup i, hm.fresh.1, ?_⟩
  intro a hold hnew
  exact hm.fresh.2 a hnew ((hb.issued a).mpr (Or.inr ⟨i, hold⟩))

/-- The settled items after a move, in the order of the two halves. -/
theorem Move.settled (hm : Move i new done lost h h') :
    (h'.answered ++ h'.dropped).Perm ((h.answered ++ h.dropped) ++ (done ++ lost)) := by
  rw [hm.answered, hm.dropped, List.append_assoc, List.append_assoc]
  apply List.Perm.append_left
  rw [← List.append_assoc, ← List.append_assoc]
  exact List.perm_append_comm.append_right lost

/-- **Moves keep the balance.** -/
theorem Balanced.move (hb : h.Balanced) (hm : Move i new done lost h h') : h'.Balanced := by
  have hnodup := hb.nodup_exchange hm
  have hset : ∀ a, a ∈ h'.answered ++ h'.dropped ↔
      a ∈ h.answered ++ h.dropped ∨ a ∈ done ++ lost := by
    intro a
    rw [hm.settled.mem_iff, List.mem_append]
  have hheld : ∀ {j a}, j ≠ i → (a ∈ h'.held j ↔ a ∈ h.held j) := by
    intro j a hj
    rw [hm.others j hj]
  refine ⟨?_, ?_, ?_, ?_, ?_⟩
  · intro j
    by_cases hj : j = i
    · exact hj ▸ (List.nodup_append'.mp hnodup).2.1
    · exact hm.others j hj ▸ hb.nodup j
  · intro j k a ha hk
    by_cases hj : j = i
    · by_cases hki : k = i
      · exact hj.trans hki.symm
      · have hmem := (hm.mem_exchange a).mp (Or.inr (hj ▸ ha))
        exact absurd ((hheld hki).mp hk) (hb.elsewhere hm hmem hki)
    · by_cases hki : k = i
      · have hmem := (hm.mem_exchange a).mp (Or.inr (hki ▸ hk))
        exact absurd ((hheld hj).mp ha) (hb.elsewhere hm hmem hj)
      · exact hb.apart j k a ((hheld hj).mp ha) ((hheld hki).mp hk)
  · rw [hm.settled.nodup_iff]
    refine List.nodup_append'.mpr ⟨hb.settled, (List.nodup_append'.mp hnodup).1, ?_⟩
    intro a hold hnew
    exact hb.unsettled hm ((hm.mem_exchange a).mp (Or.inl hnew)) hold
  · intro j a ha
    rw [hset a, not_or]
    by_cases hj : j = i
    · subst hj
      refine ⟨hb.unsettled hm ((hm.mem_exchange a).mp (Or.inr ha)), fun hmem => ?_⟩
      exact (List.nodup_append'.mp hnodup).2.2 hmem ha
    · have hold := (hheld hj).mp ha
      refine ⟨hb.free j a hold, fun hmem => ?_⟩
      exact hb.elsewhere hm ((hm.mem_exchange a).mp (Or.inl hmem)) hj hold
  · intro a
    rw [hm.issued a, hset a, hb.issued a]
    have hmem := hm.mem_exchange a
    constructor
    · rintro (hnew | hold | ⟨j, hj⟩)
      · rcases hmem.mpr (Or.inr hnew) with h | h
        · exact Or.inl (Or.inr h)
        · exact Or.inr ⟨i, h⟩
      · exact Or.inl (Or.inl hold)
      · by_cases hji : j = i
        · rcases hmem.mpr (Or.inl (hji ▸ hj)) with h | h
          · exact Or.inl (Or.inr h)
          · exact Or.inr ⟨i, h⟩
        · exact Or.inr ⟨j, (hheld hji).mpr hj⟩
    · rintro ((hold | hout) | ⟨j, hj⟩)
      · exact Or.inr (Or.inl hold)
      · rcases hmem.mp (Or.inl hout) with h | h
        · exact Or.inr (Or.inr ⟨i, h⟩)
        · exact Or.inl h
      · by_cases hji : j = i
        · rcases hmem.mp (Or.inr (hji ▸ hj)) with h | h
          · exact Or.inr (Or.inr ⟨i, h⟩)
          · exact Or.inl h
        · exact Or.inr (Or.inr ⟨j, (hheld hji).mp hj⟩)

end

/-! ## 2. Several moves -/

/-- One move of whatever place. -/
def Moved (h h' : Holdings ι α) : Prop := ∃ i new done lost, Move i new done lost h h'

theorem Balanced.moves {h h' : Holdings ι α} (hb : h.Balanced)
    (hm : Relation.ReflTransGen Moved h h') : h'.Balanced := by
  induction hm with
  | refl => exact hb
  | tail _ hlast ih =>
    rcases hlast with ⟨i, new, done, lost, hlast⟩
    exact ih.move hlast

/-- Where no place holds anything, every item is answered or dropped. -/
theorem Balanced.settled_of_empty {h : Holdings ι α} (hb : h.Balanced) (hempty : ∀ i, h.held i = [])
    (a : α) : a ∈ h.issued ↔ a ∈ h.answered ∨ a ∈ h.dropped := by
  rw [hb.issued a, List.mem_append]
  constructor
  · rintro (hset | ⟨i, hi⟩)
    · exact hset
    · rw [hempty i] at hi
      exact absurd hi List.not_mem_nil
  · exact Or.inl

end Holdings
