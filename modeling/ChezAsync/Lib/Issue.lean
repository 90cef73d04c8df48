import Mathlib.Tactic.Common

/-!
# Programs that issue requests

A program issues requests, one at a time, and goes on with the answer to each of them until it
returns or raises.  Its meaning is what it makes of a list of answers: the requests with the answers
that they got, the outcome, which is still open when the answers run out, and the answers that are
left.
-/

universe u v w

namespace Issue

/-- What a program has made of some answers. -/
structure Ran (Q : Type u) (A : Type v) (E : Type w) (α : Type v) where
  trace : List (Q × A)
  outcome : Option (Except E α)
  rest : List A

/-- Programs with requests `Q`, answers `A`, exceptions `E` and results `α`. -/
def Prog (Q : Type u) (A : Type v) (E : Type w) (α : Type v) := List A → Ran Q A E α

variable {Q : Type u} {A : Type v} {E : Type w} {α β : Type v}

/-- The same behind the requests of `tr`. -/
def Ran.after (tr : List (Q × A)) (r : Ran Q A E α) : Ran Q A E α :=
  { r with trace := tr ++ r.trace }

@[simp] theorem Ran.after_trace (tr : List (Q × A)) (r : Ran Q A E α) :
    (r.after tr).trace = tr ++ r.trace := rfl

namespace Prog

/-! ## 1. Operations -/

def ret (x : α) : Prog Q A E α := fun as => { trace := [], outcome := some (.ok x), rest := as }

def raise (e : E) : Prog Q A E α := fun as =>
  { trace := [], outcome := some (.error e), rest := as }

/-- What never comes to an end. -/
def stuck : Prog Q A E α := fun as => { trace := [], outcome := none, rest := as }

def issue (q : Q) : Prog Q A E A
  | [] => { trace := [], outcome := none, rest := [] }
  | a :: as => { trace := [(q, a)], outcome := some (.ok a), rest := as }

def andThen (p : Prog Q A E α) (f : α → Prog Q A E β) : Prog Q A E β := fun as =>
  match p as with
  | { trace, outcome := some (.ok x), rest } => (f x rest).after trace
  | { trace, outcome := some (.error e), rest } => { trace, outcome := some (.error e), rest }
  | { trace, outcome := none, rest } => { trace, outcome := none, rest }

/-- An exception that the handler takes is gone on with outside of `p`; any other one passes. -/
def catching (p : Prog Q A E α) (handler : E → Option (Prog Q A E α)) : Prog Q A E α := fun as =>
  match p as with
  | { trace, outcome := some (.error e), rest } =>
    match handler e with
    | some q => (q rest).after trace
    | none => { trace, outcome := some (.error e), rest }
  | r => r

/-- A value that may be missing, and the exception for that. -/
def ofOption (e : E) : Option α → Prog Q A E α
  | some x => ret x
  | none => raise e

instance : Monad (Prog Q A E) where
  pure := ret
  bind := andThen

/-- The same program, its value dropped. -/
def drop (p : Prog Q A E α) : Prog Q A E PUnit := fun as =>
  { trace := (p as).trace
    outcome := (p as).outcome.map (Except.map fun _ => ⟨⟩)
    rest := (p as).rest }

/-- At most `n` rounds of a loop. -/
def rounds {σ : Type v} (body : σ → Prog Q A E (σ ⊕ α)) : Nat → σ → Prog Q A E α
  | 0, _ => stuck
  | n + 1, s => do
    match ← body s with
    | .inl s => rounds body n s
    | .inr x => pure x

/-- A loop that issues a request in every round: there are no more rounds than answers. -/
def iterate {σ : Type v} (body : σ → Prog Q A E (σ ⊕ α)) (s : σ) : Prog Q A E α := fun as =>
  rounds body (as.length + 1) s as

/-! ## 2. Rules -/

section
variable {p : Prog Q A E α} {f : α → Prog Q A E β} {as rest : List A} {tr : List (Q × A)}

theorem bind_ok {x : α} (h : p as = { trace := tr, outcome := some (.ok x), rest }) :
    (p >>= f) as = (f x rest).after tr := by
  show p.andThen f as = _
  rw [andThen, h]

theorem bind_error {e : E} (h : p as = { trace := tr, outcome := some (.error e), rest }) :
    (p >>= f) as = { trace := tr, outcome := some (.error e), rest } := by
  show p.andThen f as = _
  rw [andThen, h]

theorem bind_none (h : p as = { trace := tr, outcome := none, rest }) :
    (p >>= f) as = { trace := tr, outcome := none, rest } := by
  show p.andThen f as = _
  rw [andThen, h]

-- The two parts are known: what the program as a whole does.
theorem bind_eq {x : α} {tr' : List (Q × A)} {o : Option (Except E β)} {rest' : List A}
    (h : p as = { trace := tr, outcome := some (.ok x), rest })
    (hf : f x rest = { trace := tr', outcome := o, rest := rest' }) :
    (p >>= f) as = { trace := tr ++ tr', outcome := o, rest := rest' } := by
  rw [bind_ok h, hf]
  rfl

section
variable {handler : E → Option (Prog Q A E α)}

theorem catching_ok {x : α} (h : p as = { trace := tr, outcome := some (.ok x), rest }) :
    p.catching handler as = { trace := tr, outcome := some (.ok x), rest } := by
  rw [catching, h]

theorem catching_none (h : p as = { trace := tr, outcome := none, rest }) :
    p.catching handler as = { trace := tr, outcome := none, rest } := by
  rw [catching, h]

-- The handler goes on with the answers that are left.
theorem catching_caught {e : E} {q : Prog Q A E α}
    (h : p as = { trace := tr, outcome := some (.error e), rest }) (hq : handler e = some q) :
    p.catching handler as = (q rest).after tr := by
  rw [catching, h]
  dsimp only
  rw [hq]

theorem catching_passed {e : E} (h : p as = { trace := tr, outcome := some (.error e), rest })
    (hq : handler e = none) :
    p.catching handler as = { trace := tr, outcome := some (.error e), rest } := by
  rw [catching, h]
  dsimp only
  rw [hq]

end

-- A program has come to its end when it has with its result dropped.
theorem drop_outcome {o : Except E PUnit} (h : (p.drop as).outcome = some o) :
    ∃ o', (p as).outcome = some o' := by
  obtain ⟨o', ho', -⟩ := Option.map_eq_some_iff.mp h
  exact ⟨o', ho'⟩

/-- The requests of the first part come first. -/
theorem trace_bind (p : Prog Q A E α) (f : α → Prog Q A E β) (as : List A) :
    ∃ tr, ((p >>= f) as).trace = (p as).trace ++ tr := by
  show ∃ tr, (p.andThen f as).trace = _
  rw [andThen]
  split
  case h_1 x rest heq => exact ⟨(f x rest).trace, by rw [heq]; rfl⟩
  case h_2 heq => exact ⟨[], by rw [heq, List.append_nil]⟩
  case h_3 heq => exact ⟨[], by rw [heq, List.append_nil]⟩

theorem mem_bind_left {x : Q × A} (h : x ∈ (p as).trace) : x ∈ ((p >>= f) as).trace := by
  obtain ⟨tr, htr⟩ := trace_bind p f as
  rw [htr]
  exact List.mem_append_left tr h

theorem issue_bind_cons (q : Q) (f : A → Prog Q A E α) (a : A) (as : List A) :
    (issue q >>= f) (a :: as) = (f a as).after [(q, a)] := bind_ok rfl

end

section
variable {σ : Type v} {body : σ → Prog Q A E (σ ⊕ α)} {s s' : σ} {as rest : List A}
  {tr : List (Q × A)}

/-- A round that is not the last one. -/
theorem iterate_next (h : body s as = { trace := tr, outcome := some (.ok (.inl s')), rest })
    (hlen : rest.length + 1 = as.length) :
    iterate body s as = (iterate body s' rest).after tr := by
  rw [iterate, rounds, bind_ok h, iterate, hlen]

theorem iterate_done {x : α}
    (h : body s as = { trace := tr, outcome := some (.ok (.inr x)), rest }) :
    iterate body s as = { trace := tr, outcome := some (.ok x), rest } := by
  rw [iterate, rounds, bind_ok h]
  exact congrArg (fun tr => { trace := tr, outcome := some (.ok x), rest : Ran Q A E α })
    (List.append_nil tr)

theorem iterate_error {e : E} (h : body s as = { trace := tr, outcome := some (.error e), rest }) :
    iterate body s as = { trace := tr, outcome := some (.error e), rest } := by
  rw [iterate, rounds, bind_error h]

-- The first round is part of the run.
theorem mem_iterate {x : Q × A} (h : x ∈ (body s as).trace) : x ∈ (iterate body s as).trace :=
  mem_bind_left h

theorem iterate_none (h : body s as = { trace := tr, outcome := none, rest }) :
    iterate body s as = { trace := tr, outcome := none, rest } := by
  rw [iterate, rounds, bind_none h]

end

/-! ## 3. What a program ensures when it returns -/

/-- Whatever the answers, `R` holds of the value that is returned and of the requests that have been
issued for it. -/
def Ensures (p : Prog Q A E α) (R : α → List (Q × A) → Prop) : Prop :=
  ∀ as x, (p as).outcome = some (.ok x) → R x (p as).trace

section
variable {p : Prog Q A E α} {f : α → Prog Q A E β} {P : α → List (Q × A) → Prop}
  {R : β → List (Q × A) → Prop}

-- Nothing is known about the answer to a request.
theorem ensures_issue (q : Q) {R : A → List (Q × A) → Prop} (h : ∀ a, R a [(q, a)]) :
    (issue q : Prog Q A E A).Ensures R := by
  intro as x hx
  cases as with
  | nil => cases hx
  | cons a as =>
    cases hx
    exact h _

theorem ensures_pure (x : α) (h : P x []) : (pure x : Prog Q A E α).Ensures P := by
  intro as y hy
  cases hy
  exact h

theorem ensures_raise (e : E) : (raise e : Prog Q A E α).Ensures P := by
  intro as x hx
  cases hx

/-- A program that returns has been through both parts. -/
theorem ensures_bind (hp : p.Ensures P)
    (hf : ∀ x tr, P x tr → (f x).Ensures fun y tr' => R y (tr ++ tr')) : (p >>= f).Ensures R := by
  intro as y hy
  rcases hr : p as with ⟨tr, o, rest⟩
  rcases o with _ | e | x
  · rw [bind_none hr] at hy
    cases hy
  · rw [bind_error hr] at hy
    cases hy
  · rw [bind_ok hr] at hy ⊢
    have hx : P x (p as).trace := hp as x (by rw [hr])
    rw [hr] at hx
    exact hf x tr hx rest y hy

/-- What does not depend on the first part, and is kept when requests come before it. -/
theorem ensures_next (hR : ∀ y tr tr', R y tr' → R y (tr ++ tr'))
    (hf : ∀ x, (f x).Ensures R) : (p >>= f).Ensures R := by
  refine ensures_bind (P := fun _ _ => True) (fun _ _ _ => trivial) fun x tr _ => ?_
  intro as y hy
  exact hR y tr _ (hf x as y hy)

end

end Prog

end Issue
