import Mathlib.Logic.Relation
import Mathlib.Data.Set.Finite.Basic
import Mathlib.Data.Fintype.Card
import Mathlib.Tactic.Common

/-!
# Wait graphs

A relation `R a b` read as "`a` waits for `b`".  In a finite set in which everybody waits for
somebody, waiting leads to a cycle; a new edge closes a cycle exactly when its end already leads
back to its start; a cycle stays as long as only those who wait for nobody stop being waited for.
-/

universe u

namespace WaitGraph

open Relation

variable {α : Type u} {R R' : α → α → Prop}

/-- In a finite set whose members are stuck or wait for a member, waiting leads to a member that
is stuck or waits for itself. -/
theorem reaches_stuck_or_cycle {S : Set α} (hS : S.Finite) {B : α → Prop}
    (hnext : ∀ a ∈ S, B a ∨ ∃ b ∈ S, R a b) {a : α} (ha : a ∈ S) :
    ∃ b, ReflTransGen R a b ∧ (B b ∨ TransGen R b b) := by
  by_contra hno
  have hfree : ∀ b, ReflTransGen R a b → ¬ B b ∧ ¬ TransGen R b b := by
    intro b hb
    exact ⟨fun h => hno ⟨b, hb, Or.inl h⟩, fun h => hno ⟨b, hb, Or.inr h⟩⟩
  let T : Set α := {b | b ∈ S ∧ ReflTransGen R a b}
  have hT : Finite T := hS.subset fun b hb => hb.1
  -- without a cycle the members that `a` leads to can be followed down to a last one
  let below : T → T → Prop := fun x y => TransGen R y x
  have : IsTrans T below := ⟨fun x y z hxy hyz => hyz.trans hxy⟩
  have : Std.Irrefl below := ⟨fun x hx => (hfree x x.2.2).2 hx⟩
  have hwf := Finite.wellFounded_of_trans_of_irrefl below
  have hnone : ∀ x : T, False := by
    intro x
    induction x using hwf.induction with
    | _ x ih =>
      rcases hnext x x.2.1 with hx | hx
      · exact (hfree x x.2.2).1 hx
      · rcases hx with ⟨c, hc, hxc⟩
        exact ih ⟨c, hc, x.2.2.tail hxc⟩ (TransGen.single hxc)
  exact hnone ⟨a, ha, ReflTransGen.refl⟩

/-- In a finite set whose members wait for members, somebody waits for himself. -/
theorem exists_cycle {S : Set α} (hS : S.Finite) (hnext : ∀ a ∈ S, ∃ b ∈ S, R a b) {a : α}
    (ha : a ∈ S) : ∃ b, TransGen R b b := by
  rcases reaches_stuck_or_cycle hS (B := fun _ => False) (fun a ha => Or.inr (hnext a ha)) ha
    with ⟨b, -, hb⟩
  exact ⟨b, hb.resolve_left id⟩

/-- A path after the edge from `a` to `b` was added passes that edge or was there before. -/
theorem transGen_add {a b : α} (hadd : ∀ x y, R' x y → R x y ∨ (x = a ∧ y = b)) {x y : α}
    (h : TransGen R' x y) : TransGen R x y ∨ (ReflTransGen R x a ∧ ReflTransGen R b y) := by
  induction h with
  | single hxy =>
    rcases hadd _ _ hxy with hxy | ⟨rfl, rfl⟩
    · exact Or.inl (TransGen.single hxy)
    · exact Or.inr ⟨ReflTransGen.refl, ReflTransGen.refl⟩
  | tail _ hyz ih =>
    -- the last edge is an old one or the new one, and so for the path before it
    rcases hadd _ _ hyz with hyz | ⟨rfl, rfl⟩
    · rcases ih with ih | ih
      · exact Or.inl (ih.tail hyz)
      · exact Or.inr ⟨ih.1, ih.2.tail hyz⟩
    · rcases ih with ih | ih
      · exact Or.inr ⟨ih.to_reflTransGen, ReflTransGen.refl⟩
      · exact Or.inr ⟨ih.1, ReflTransGen.refl⟩

/-- An edge closes no cycle if its end does not lead to its start. -/
theorem acyclic_add {a b : α} (hacyclic : ∀ x, ¬ TransGen R x x)
    (hadd : ∀ x y, R' x y → R x y ∨ (x = a ∧ y = b)) (hopen : ¬ ReflTransGen R b a) (x : α) :
    ¬ TransGen R' x x := by
  intro h
  rcases transGen_add hadd h with h | ⟨hxa, hbx⟩
  · exact hacyclic x h
  · exact hopen (hbx.trans hxa)

/-- A path to somebody who waits stays when nobody who waits stops being waited for. -/
theorem transGen_keep (hkeep : ∀ x y z, R x y → R y z → R' x y) {x y z : α} (h : TransGen R x y)
    (hyz : R y z) : TransGen R' x y := by
  induction h generalizing z with
  | single hxy => exact TransGen.single (hkeep _ _ _ hxy hyz)
  | tail _ hbc ih => exact (ih hbc).tail (hkeep _ _ _ hbc hyz)

theorem cycle_keep (hkeep : ∀ x y z, R x y → R y z → R' x y) {x : α} (h : TransGen R x x) :
    TransGen R' x x := by
  rcases TransGen.head'_iff.mp h with ⟨z, hxz, -⟩
  exact transGen_keep hkeep h hxz

end WaitGraph
