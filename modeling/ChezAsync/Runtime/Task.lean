import Mathlib.Data.List.Basic
import Mathlib.Tactic.Common

/-!
# Tasks and persistent handles (`task.hpp`, `net.hpp`)

What every part of the loop thread's model shares: task identities, the record of the calls of
`Task::Complete`, the libuv codes the loop thread tests or hands on, and the life of a
`LoopHandle`.
-/

namespace ChezAsync

/-- The identity of a `Task` object. -/
abbrev TaskId := Nat

/-! ## 1. Result codes -/

def UV_EOF : Int := -4095
def UV_ECANCELED : Int := -125
def UV_EBUSY : Int := -16

/-! ## 2. Completions -/

/-- The calls `t->Complete(r)` of a run, in order. -/
abbrev Completions := List (TaskId × Int)

namespace Completions

/-- The results `t` was completed with, in order. -/
def results (c : Completions) (t : TaskId) : List Int :=
  (c.filter (·.1 = t)).map Prod.snd

@[simp] theorem results_nil (t : TaskId) : results [] t = [] := rfl

@[simp] theorem results_append (c d : Completions) (t : TaskId) :
    results (c ++ d) t = results c t ++ results d t := by
  simp [results, List.filter_append]

theorem results_prefix {c d : Completions} (h : c <+: d) (t : TaskId) :
    c.results t <+: d.results t := by
  rcases h with ⟨e, rfl⟩
  rw [results_append]
  exact List.prefix_append _ _

theorem results_eq_nil {c : Completions} {t : TaskId} (h : ∀ p ∈ c, p.1 ≠ t) :
    results c t = [] := by
  have hnone : c.filter (·.1 = t) = [] := List.filter_eq_nil_iff.mpr fun p hp => by simp [h p hp]
  rw [results, hnone, List.map_nil]

/-- One more call of `Complete` is seen by its own task only. -/
@[grind =] theorem results_snoc (c : Completions) (t u : TaskId) (r : Int) :
    results (c ++ [(u, r)]) t = if u = t then results c t ++ [r] else results c t := by
  rw [results_append]
  by_cases h : u = t
  · simp [results, h]
  · simp [results, h]

theorem results_snoc_self {c : Completions} {t : TaskId} (h : results c t = []) (r : Int) :
    results (c ++ [(t, r)]) t = [r] := by
  rw [results_snoc, if_pos rfl, h, List.nil_append]

theorem results_snoc_of_ne (c : Completions) {t u : TaskId} (h : t ≠ u) (r : Int) :
    results (c ++ [(u, r)]) t = results c t := by
  rw [results_snoc, if_neg h.symm]

/-- The same result for several tasks, as in a loop that wakes everybody parked. -/
theorem results_map {ps : List TaskId} (h : ps.Nodup) (r : Int) (t : TaskId) :
    results (ps.map fun p => (p, r)) t = if t ∈ ps then [r] else [] := by
  induction ps with
  | nil => simp
  | cons p ps ih =>
    rw [List.nodup_cons] at h
    have hcons : results ((p :: ps).map fun p => (p, r)) t =
        results [(p, r)] t ++ results (ps.map fun p => (p, r)) t := by
      rw [← results_append]
      rfl
    rw [hcons, ih h.2]
    by_cases hp : p = t
    · subst hp
      simp [results, h.1]
    · have htp : ¬ t = p := fun e => hp e.symm
      simp [results, hp, htp]

end Completions

/-! ## 3. Persistent handles -/

/-- The life of a `LoopHandle`: `uv_close` has not been called, it has been called, or `OnClosed`
has deleted the object. -/
inductive HandleState
  | live
  | closing
  | destroyed
  deriving DecidableEq

structure LoopHandle where
  state : HandleState
  closeTask : Option TaskId
  deriving DecidableEq

/-- `LoopHandle::Close`. -/
def LoopHandle.close (_ : LoopHandle) (closeTask : Option TaskId) : LoopHandle :=
  { state := .closing, closeTask }

/-- `LoopHandle::OnClosed`: the object is deleted, its close task completes with 0. -/
def LoopHandle.onClosed (h : LoopHandle) : LoopHandle × Completions :=
  ({ state := .destroyed, closeTask := none },
    match h.closeTask with
    | some t => [(t, 0)]
    | none => [])

end ChezAsync
