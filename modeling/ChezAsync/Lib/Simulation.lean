import ChezAsync.Lib.Machine

/-!
# Forward simulations

One machine stands for another when every step of the first is a run of the second, of any length,
between states that the relation `R` keeps together, and both put out the same.  The rule takes a
simulation of single steps to whole schedules; `C` is what is asked of the steps.
-/

universe u v w x

namespace Machine

variable {σ : Type u} {α : Type v} {τ : Type w} {γ : Type x} {β : Type*}
variable {M : Machine σ α} {N : Machine τ γ}

/-- What a schedule puts out, in two parts. -/
theorem outputs_append {out : σ → α → List β} {s t : σ} {as bs : List α}
    (h : M.runFrom s as = some t) :
    M.outputs out s (as ++ bs) = M.outputs out s as ++ M.outputs out t bs := by
  induction as generalizing s with
  | nil =>
    cases h
    rfl
  | cons a as ih =>
    rcases M.runFrom_cons.mp h with ⟨u, hu, hrest⟩
    rw [List.cons_append, M.outputs_cons _ hu, M.outputs_cons _ hu, ih hrest, List.append_assoc]

theorem runFrom_simulation {R : σ → τ → Prop} {C : σ → α → Prop} (act : α → List γ)
    (out : σ → α → List β) (out' : τ → γ → List β)
    (hstep : ∀ s v a t, R s v → C s a → M.step s a = some t →
      ∃ w, N.runFrom v (act a) = some w ∧ R t w ∧ out s a = N.outputs out' v (act a))
    {s t : σ} {v : τ} {as : List α} (hs : R s v) (hC : M.Meets C s as)
    (hrun : M.runFrom s as = some t) :
    ∃ w, N.runFrom v (as.flatMap act) = some w ∧ R t w ∧
      M.outputs out s as = N.outputs out' v (as.flatMap act) := by
  induction as generalizing s v with
  | nil =>
    cases hrun
    exact ⟨v, rfl, hs, rfl⟩
  | cons a as ih =>
    rcases M.runFrom_cons.mp hrun with ⟨u, hu, hrest⟩
    rcases hstep s v a u hs hC.1 hu with ⟨w, hw, hR, hout⟩
    rcases ih hR (hC.2 u hu) hrest with ⟨w', hw', hR', hout'⟩
    refine ⟨w', ?_, hR', ?_⟩
    · rw [List.flatMap_cons]
      exact N.runFrom_append.mpr ⟨w, hw, hw'⟩
    · rw [List.flatMap_cons, outputs_append hw, M.outputs_cons as hu, hout, hout']

end Machine
