import Mathlib.Logic.Function.Basic
import Mathlib.Data.List.Basic
import Mathlib.Tactic.Common

/-!
# Dynamic winds and parameters

A continuation carries the list of the winders whose extents it is in, the innermost first.  A jump
from one list to another leaves the winders of the first one down to the tail that both share, and
then enters those of the second one, one after the other.  `parameterize` is a winder that swaps the
value of a cell with one of its own, at each entry and at each exit.  The file gives the rule for
jumps and, for cells that are bound but never assigned, what they hold at each place.
-/

universe u v

namespace DynamicWind

variable {ι : Type u} {α : Type v}

/-! ## 1. Jumps -/

/-- What a jump does next: out of the extent of a winder, or into it. -/
inductive Move (ι : Type u)
  | leave (w : ι)
  | enter (w : ι)

section
variable [DecidableEq ι] {src dst : List ι} {w : ι}

/-- The next move of a jump from the winders `src` to the winders `dst`: out of the innermost one
until the others are a tail of `dst`, and from then on into those of `dst`. -/
def next (src dst : List ι) : Option (Move ι) :=
  if src <:+ dst then (dst.take (dst.length - src.length)).getLast?.map .enter
  else src.head?.map .leave

theorem next_none (h : next src dst = none) : src = dst := by
  unfold next at h
  split at h
  case isTrue hsuf =>
    rcases hsuf with ⟨ws, rfl⟩
    rw [Option.map_eq_none_iff, List.length_append, Nat.add_sub_cancel, List.take_left] at h
    rw [List.getLast?_eq_none_iff.mp h]
    rfl
  case isFalse hsuf =>
    rw [Option.map_eq_none_iff, List.head?_eq_none_iff] at h
    rw [h] at hsuf
    exact absurd List.nil_suffix hsuf

theorem next_self (ws : List ι) : next ws ws = none := by
  rw [next, if_pos (List.suffix_refl ws), Nat.sub_self]
  rfl

theorem next_leave (h : next src dst = some (.leave w)) : ∃ ws, src = w :: ws ∧ ¬ src <:+ dst := by
  unfold next at h
  split at h
  case isTrue =>
    rcases Option.map_eq_some_iff.mp h with ⟨v, _, hv⟩
    cases hv
  case isFalse hsuf =>
    rcases Option.map_eq_some_iff.mp h with ⟨v, hhead, hv⟩
    cases hv
    exact ⟨_, (List.cons_head?_tail hhead).symm, hsuf⟩

theorem next_enter (h : next src dst = some (.enter w)) : w :: src <:+ dst := by
  unfold next at h
  split at h
  case isTrue hsuf =>
    rcases Option.map_eq_some_iff.mp h with ⟨v, hlast, hv⟩
    cases hv
    rcases hsuf with ⟨ws, rfl⟩
    rw [List.length_append, Nat.add_sub_cancel, List.take_left] at hlast
    rcases List.getLast?_eq_some_iff.mp hlast with ⟨vs, rfl⟩
    exact ⟨vs, by rw [List.append_assoc, List.singleton_append]⟩
  case isFalse =>
    rcases Option.map_eq_some_iff.mp h with ⟨v, _, hv⟩
    cases hv

/-- How many moves are left, at most. -/
def distance (src dst : List ι) : Nat :=
  if src <:+ dst then dst.length - src.length else src.length + dst.length

theorem distance_leave {ws : List ι} (h : ¬ w :: ws <:+ dst) :
    distance ws dst < distance (w :: ws) dst := by
  rw [distance, distance, if_neg h, List.length_cons]
  split <;> omega

theorem distance_enter (h : w :: src <:+ dst) : distance (w :: src) dst < distance src dst := by
  have hlen := h.length_le
  rw [List.length_cons] at hlen
  rw [distance, distance, if_pos h, if_pos ((List.suffix_cons w src).trans h), List.length_cons]
  omega

/-- **The rule for jumps.**  What holds at the end of a jump, and before each move if it holds
after it, holds at its beginning. -/
theorem jump_induction {P : List ι → Prop} (dst : List ι) (here : P dst)
    (leave : ∀ w ws, next (w :: ws) dst = some (.leave w) → P ws → P (w :: ws))
    (enter : ∀ w ws, next ws dst = some (.enter w) → P (w :: ws) → P ws) (src : List ι) :
    P src := by
  induction hn : distance src dst using Nat.strongRecOn generalizing src with
  | ind n ih =>
    subst hn
    rcases hnext : next src dst with _ | w | w
    · exact next_none hnext ▸ here
    · rcases next_leave hnext with ⟨ws, rfl, hsuf⟩
      exact leave w ws hnext (ih _ (distance_leave hsuf) ws rfl)
    · exact enter w src hnext (ih _ (distance_enter (next_enter hnext)) _ rfl)

end

/-! ## 2. Cells -/

/-- A parameter: its value, and the value that each winder keeps for it. -/
structure Cell (ι : Type u) (α : Type v) where
  value : α
  saved : ι → α

/-- What the innermost winder that binds the cell has bound it to; `inner w = none` for a winder
that does not bind it. -/
def bound (inner : ι → Option α) (outer : α) : List ι → α
  | [] => outer
  | w :: ws => (inner w).getD (bound inner outer ws)

theorem bound_congr {inner inner' : ι → Option α} (outer : α) {ws : List ι}
    (h : ∀ w ∈ ws, inner' w = inner w) : bound inner' outer ws = bound inner outer ws := by
  induction ws with
  | nil => rfl
  | cons w ws ih =>
    rw [bound, bound, h w List.mem_cons_self, ih fun w' hw' => h w' (List.mem_cons_of_mem w hw')]

section
variable [DecidableEq ι]

def Cell.swap (c : Cell ι α) (w : ι) : Cell ι α :=
  { value := c.saved w, saved := Function.update c.saved w c.value }

/-- The entry of `w`, and also its exit. -/
def Cell.cross (inner : ι → Option α) (w : ι) (c : Cell ι α) : Cell ι α :=
  if (inner w).isSome then c.swap w else c

/-- A new winder keeps the value that it is going to bind. -/
def Cell.keep (c : Cell ι α) (w : ι) (a : α) : Cell ι α :=
  { c with saved := Function.update c.saved w a }

theorem Cell.saved_swap_self (c : Cell ι α) (w : ι) : (c.swap w).saved w = c.value :=
  Function.update_self w _ _

theorem Cell.saved_swap_of_ne {v w : ι} (h : v ≠ w) (c : Cell ι α) :
    (c.swap w).saved v = c.saved v := Function.update_of_ne h _ _

theorem Cell.saved_keep_self (c : Cell ι α) (w : ι) (a : α) : (c.keep w a).saved w = a :=
  Function.update_self w _ _

theorem Cell.saved_keep_of_ne {v w : ι} (h : v ≠ w) (c : Cell ι α) (a : α) :
    (c.keep w a).saved v = c.saved v := Function.update_of_ne h _ _

end

/-- What the cell holds inside the winders `ws`: the value that the innermost one has bound, while
each of them keeps the value from outside and all others keep the value that they bind. -/
structure Cell.Holds (inner : ι → Option α) (outer : α) (ws : List ι) (c : Cell ι α) : Prop where
  value : c.value = bound inner outer ws
  inside : ∀ w vs, w :: vs <:+ ws → ∀ a, inner w = some a → c.saved w = bound inner outer vs
  outside : ∀ w, w ∉ ws → ∀ a, inner w = some a → c.saved w = a

section
variable [DecidableEq ι] {inner : ι → Option α} {outer : α} {ws : List ι} {w : ι} {c : Cell ι α}

theorem Cell.Holds.leave (h : c.Holds inner outer (w :: ws)) (hnd : (w :: ws).Nodup) :
    (c.cross inner w).Holds inner outer ws := by
  have hw : w ∉ ws := (List.nodup_cons.mp hnd).1
  rcases hin : inner w with _ | a
  · -- another cell's winder
    have hcross : c.cross inner w = c := by simp [cross, hin]
    rw [hcross]
    refine ⟨by rw [h.value, bound, hin, Option.getD_none], ?_, ?_⟩
    · exact fun v vs hsuf => h.inside v vs (hsuf.trans (List.suffix_cons w ws))
    · intro v hv b hb
      refine h.outside v (fun hmem => ?_) b hb
      rcases List.mem_cons.mp hmem with rfl | hmem
      · rw [hin] at hb
        cases hb
      · exact hv hmem
  · have hcross : c.cross inner w = c.swap w := by simp [cross, hin]
    rw [hcross]
    refine ⟨h.inside w ws (List.suffix_refl _) a hin, ?_, ?_⟩
    · intro v vs hsuf b hb
      have hv : v ≠ w := by
        rintro rfl
        exact hw (hsuf.subset List.mem_cons_self)
      rw [saved_swap_of_ne hv]
      exact h.inside v vs (hsuf.trans (List.suffix_cons w ws)) b hb
    · intro v hv b hb
      by_cases hvw : v = w
      · subst hvw
        rw [saved_swap_self, h.value, bound, hb, Option.getD_some]
      · rw [saved_swap_of_ne hvw]
        exact h.outside v (by simp [hvw, hv]) b hb

theorem Cell.Holds.enter (h : c.Holds inner outer ws) (hw : w ∉ ws) :
    (c.cross inner w).Holds inner outer (w :: ws) := by
  rcases hin : inner w with _ | a
  · have hcross : c.cross inner w = c := by simp [cross, hin]
    rw [hcross]
    refine ⟨by rw [h.value, bound, hin, Option.getD_none], ?_, ?_⟩
    · intro v vs hsuf b hb
      rcases List.suffix_cons_iff.mp hsuf with heq | hsuf
      · cases heq
        rw [hin] at hb
        cases hb
      · exact h.inside v vs hsuf b hb
    · exact fun v hv => h.outside v fun hmem => hv (List.mem_cons_of_mem w hmem)
  · have hcross : c.cross inner w = c.swap w := by simp [cross, hin]
    rw [hcross]
    refine ⟨?_, ?_, ?_⟩
    · rw [bound, hin, Option.getD_some]
      exact h.outside w hw a hin
    · intro v vs hsuf b hb
      rcases List.suffix_cons_iff.mp hsuf with heq | htail
      · cases heq
        rw [saved_swap_self]
        exact h.value
      · have hmem : v ∈ ws := htail.subset List.mem_cons_self
        have hv : v ≠ w := fun heq => hw (heq ▸ hmem)
        rw [saved_swap_of_ne hv]
        exact h.inside v vs htail b hb
    · intro v hv b hb
      rw [List.mem_cons, not_or] at hv
      rw [saved_swap_of_ne hv.1]
      exact h.outside v hv.2 b hb

/-- A new winder for the cell. -/
theorem Cell.Holds.keep (h : c.Holds inner outer ws) (hw : w ∉ ws) (a : α) :
    (c.keep w a).Holds (Function.update inner w (some a)) outer ws := by
  have hsame : ∀ {vs : List ι}, vs <:+ ws →
      bound (Function.update inner w (some a)) outer vs = bound inner outer vs := by
    intro vs hvs
    apply bound_congr
    intro v hv
    have hmem : v ∈ ws := hvs.subset hv
    exact Function.update_of_ne (fun heq : v = w => hw (heq ▸ hmem)) _ _
  refine ⟨h.value.trans (hsame (List.suffix_refl _)).symm, ?_, ?_⟩
  · intro v vs hsuf b hb
    have hv : v ≠ w := by
      rintro rfl
      exact hw (hsuf.subset List.mem_cons_self)
    rw [Function.update_of_ne hv] at hb
    rw [saved_keep_of_ne hv, hsame ((List.suffix_cons v vs).trans hsuf)]
    exact h.inside v vs hsuf b hb
  · intro v hv b hb
    by_cases hvw : v = w
    · subst hvw
      rw [Function.update_self] at hb
      rw [saved_keep_self]
      exact Option.some.inj hb
    · rw [Function.update_of_ne hvw] at hb
      rw [saved_keep_of_ne hvw]
      exact h.outside v hv b hb

end

end DynamicWind
