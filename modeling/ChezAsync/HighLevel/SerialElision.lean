import Mathlib.Tactic.Common
import ChezAsync.HighLevel.Discipline

/-!
# Concurrency is only concurrency (`io-async.ss`)

A program can be read without the scheduler: `async` runs its thunk to the end on the spot, and
`await` looks up what has come of it.  What `run-async` makes of a disciplined program is what this
reading makes of it, for every order of completions; and no fiber is left pending.
-/

namespace ChezAsync.Async

variable {D : Type}

/-! ## 1. Reading a program without the scheduler -/

/-- What has come of the futures so far. -/
abbrev Outcomes (D : Type) := FutureId → Option (Outcome D)

/-- The outcomes after the fiber `f` has run to its end on the spot, from a point at which it has
made `i` futures and `j` tasks.  `none`: it awaits a future that has come to nothing, or shares a
variable. -/
def Body.serial (res : Handle → Int) :
    Body D → FutureId → Nat → Nat → Outcomes D → Option (Outcomes D)
  | .ret v, f, _, _, O => some (Function.update O f (some (.ok v)))
  | .raise e, f, _, _, O => some (Function.update O f (some (.error e)))
  | .async thunk k, f, i, j, O =>
      match thunk.serial res (i :: f) 0 0 O with
      | some O => (k (.future (i :: f))).serial res f (i + 1) j O
      | none => none
  | .submit k, f, i, j, O => (k (.int (.task f j))).serial res f i (j + 1) O
  | .await (.future g) k, f, i, j, O =>
      match O g with
      | some o => (k o).serial res f i j O
      | none => none
  | .await (.int h) k, f, i, j, O => (k (.ok (.int (.num (res h))))).serial res f i j O
  | .await x k, f, i, j, O => (k (.error (notAwaitable x))).serial res f i j O
  | .get _ _, _, _, _, _ => none
  | .set _ _ _, _, _, _, _ => none

/-- The root's outcome, in this reading. -/
def Body.elide (res : Handle → Int) (root : Body D) : Option (Outcome D) :=
  (root.serial res [] 0 0 fun _ => none).bind fun O => O []

section
variable {res : Handle → Int}

theorem serial_answer {b b' : Body D} {O : Outcomes D} (h : Answer res O b b') (f : FutureId)
    (i j : Nat) : b.serial res f i j O = b'.serial res f i j O := by
  cases h with
  | future k ho => simp only [Body.serial, ho]
  | task g k => rfl
  | @other x k hx =>
    cases x with
    | future g => cases hx
    | int g => cases hx
    | _ => rfl

/-! ## 2. Bodies that never wait in vain -/

/-- With its awaits answered from `O`, the body comes to its end, and so does all that it makes. -/
def Body.Settles (res : Handle → Int) (O : Outcomes D) : Body D → FutureId → Nat → Nat → Prop
  | .ret _, _, _, _ => True
  | .raise _, _, _, _ => True
  | .async thunk k, f, i, j =>
      thunk.Settles res O (i :: f) 0 0 ∧ (k (.future (i :: f))).Settles res O f (i + 1) j
  | .submit k, f, i, j => (k (.int (.task f j))).Settles res O f i (j + 1)
  | .await (.future g) k, f, i, j => ∃ o, O g = some o ∧ (k o).Settles res O f i j
  | .await (.int h) k, f, i, j => (k (.ok (.int (.num (res h))))).Settles res O f i j
  | .await x k, f, i, j => (k (.error (notAwaitable x))).Settles res O f i j
  | .get _ _, _, _, _ => False
  | .set _ _ _, _, _, _ => False

theorem settles_answer {outcome O : Outcomes D} {b b' : Body D} (h : Answer res outcome b b')
    (hO : ∀ g o, outcome g = some o → O g = some o) (f : FutureId) (i j : Nat) :
    b.Settles res O f i j ↔ b'.Settles res O f i j := by
  cases h with
  | @future g o k ho =>
    have hOg := hO g o ho
    constructor
    · rintro ⟨o', ho', h⟩
      cases hOg.symm.trans ho'
      exact h
    · exact fun h => ⟨o, hOg, h⟩
  | task g k => exact Iff.rfl
  | @other x k hx =>
    cases x with
    | future g => cases hx
    | int g => cases hx
    | _ => exact Iff.rfl

/-- Every thread of the pool is at such a point. -/
def Pool.Settles (res : Handle → Int) (O : Outcomes D) (P : Pool D) : Prop :=
  ∀ x ∈ P.threads, x.2.Settles res O x.1 (P.spawned x.1) (P.submitted x.1)

theorem PoolStep.settles {P Q : Pool D} {O : Outcomes D} (hP : P.Inv) (h : PoolStep res P Q)
    (hQ : Q.Private) (hO : ∀ g o, P.outcome g = some o → O g = some o) (hS : P.Settles res O) :
    Q.Settles res O := by
  -- the threads that do not move keep what they have made
  have hrest : ∀ {f : FutureId} {b : Body D} {X : Multiset (FutureId × Body D)} (i j : Nat),
      P.threads = (f, b) ::ₘ X → ∀ x ∈ X, x.2.Settles res O x.1
        (Function.update P.spawned f i x.1) (Function.update P.submitted f j x.1) := by
    intro f b X i j hX x hx
    have hne := hP.ne_of_mem hX hx
    rw [Function.update_of_ne hne, Function.update_of_ne hne]
    exact hS x (hX ▸ Multiset.mem_cons_of_mem hx)
  have hself : ∀ {f : FutureId} {b : Body D} {X : Multiset (FutureId × Body D)},
      P.threads = (f, b) ::ₘ X → b.Settles res O f (P.spawned f) (P.submitted f) :=
    fun {f b X} hX => hS (f, b) (hX ▸ Multiset.mem_cons_self _ _)
  cases h with
  | settle hb hX => exact fun x hx => hS x (hX ▸ Multiset.mem_cons_of_mem hx)
  | share hb hX => exact absurd hQ.sharing (by simp)
  | lose hX => exact absurd hQ.lost (by simp)
  | @async f thunk k X hX =>
    have hcount := hP.counters _ (hP.child_notMem f)
    have hne : P.spawned f :: f ≠ f := fun h => hP.child_notMem f (h.symm ▸ (hP.pending hX).1)
    have h := hself hX
    have hX' := hrest (P.spawned f + 1) (P.submitted f) hX
    rw [Function.update_eq_self] at hX'
    simp only [Pool.Settles, Multiset.forall_mem_cons, Function.update_self,
      Function.update_of_ne hne, hcount.1, hcount.2]
    exact ⟨h.1, h.2, hX'⟩
  | @answer f b b' X hb hX =>
    have h := (settles_answer hb hO f _ _).mp (hself hX)
    simp only [Pool.Settles, Multiset.forall_mem_cons]
    exact ⟨h, fun x hx => hS x (hX ▸ Multiset.mem_cons_of_mem hx)⟩
  | @submit f k X hX =>
    have h := hself hX
    have hX' := hrest (P.spawned f) (P.submitted f + 1) hX
    rw [Function.update_eq_self] at hX'
    simp only [Pool.Settles, Multiset.forall_mem_cons, Function.update_self]
    exact ⟨h, hX'⟩

theorem Pool.Settles.of_steps {P Q : Pool D} {O : Outcomes D} (hP : P.Inv) (hS : P.Settles res O)
    (hsteps : Relation.ReflTransGen (PoolStep res) P Q) (hpriv : Q.Private)
    (hO : ∀ g o, Q.outcome g = some o → O g = some o) : Q.Settles res O := by
  induction hsteps using Relation.ReflTransGen.head_induction_on with
  | refl => exact hS
  | @head P₁ P₂ hstep hrest ih =>
    have hP₂ := hP.step hstep
    have hlast := (PoolStep.outcomes hP₂ hrest).2
    refine ih hP₂ (hstep.settles hP (Pool.Private.of_steps hrest hpriv) ?_ hS)
    exact fun g o hg => hO g o (hlast g o (hstep.outcome hP hg))

/-- A complete pool whose outcomes answer every await holds no fiber. -/
theorem Pool.Complete.empty {P : Pool D} (hc : P.Complete) (hS : P.Settles res P.outcome) :
    P.threads = 0 := by
  rw [Multiset.eq_zero_iff_forall_notMem]
  intro x hx
  rcases hc x hx with ⟨g, k, hb, hg⟩
  have h := hS x hx
  rw [hb] at h
  rcases h with ⟨o, ho, -⟩
  cases hg.symm.trans ho

/-! ## 3. The reading is one of the pool's runs -/

/-- The fiber `f` of `P` has run to its end, and all that it has made is settled. -/
structure RunToEnd (res : Handle → Int) (P : Pool D) (f : FutureId)
    (X : Multiset (FutureId × Body D)) (O : Outcomes D) (Q : Pool D) : Prop where
  steps : Relation.ReflTransGen (PoolStep res) P Q
  threads : Q.threads = X
  outcome : Q.outcome = O
  lost : Q.lost = P.lost
  sharing : Q.sharing = P.sharing
  created : ∀ g ∈ P.created, g ∈ Q.created
  counters : ∀ g ∈ P.created, g ≠ f → Q.spawned g = P.spawned g ∧ Q.submitted g = P.submitted g

theorem RunToEnd.head {P P' Q : Pool D} {f : FutureId} {X : Multiset (FutureId × Body D)}
    {O : Outcomes D} (h : RunToEnd res P' f X O Q) (hstep : PoolStep res P P')
    (hlost : P'.lost = P.lost) (hsharing : P'.sharing = P.sharing)
    (hcreated : ∀ g ∈ P.created, g ∈ P'.created)
    (hcounters : ∀ g ∈ P.created, g ≠ f → P'.spawned g = P.spawned g ∧
      P'.submitted g = P.submitted g) : RunToEnd res P f X O Q := by
  refine ⟨.head hstep h.steps, h.threads, h.outcome, h.lost.trans hlost,
    h.sharing.trans hsharing, fun g hg => h.created g (hcreated g hg), fun g hg hne => ?_⟩
  have hQ := h.counters g (hcreated g hg) hne
  have hP := hcounters g hg hne
  exact ⟨hQ.1.trans hP.1, hQ.2.trans hP.2⟩

theorem runToEnd_settle {P : Pool D} {f : FutureId} {b : Body D} {o : Outcome D}
    {X : Multiset (FutureId × Body D)} (hb : b.outcome? = some o) (hX : P.threads = (f, b) ::ₘ X) :
    RunToEnd res P f X (Function.update P.outcome f (some o))
      { P with threads := X, outcome := Function.update P.outcome f (some o) } :=
  ⟨.single (PoolStep.settle hb hX), rfl, rfl, rfl, rfl, fun _ h => h, fun _ _ _ => ⟨rfl, rfl⟩⟩

theorem runToEnd_serial {b : Body D} {P : Pool D} {f : FutureId} {X : Multiset (FutureId × Body D)}
    {O : Outcomes D} (hP : P.Inv) (hX : P.threads = (f, b) ::ₘ X)
    (h : b.serial res f (P.spawned f) (P.submitted f) P.outcome = some O) :
    ∃ Q, RunToEnd res P f X O Q ∧ ∀ O', (∀ g o, O g = some o → O' g = some o) →
      b.Settles res O' f (P.spawned f) (P.submitted f) := by
  induction b generalizing P f X O with
  | ret v =>
    cases h
    exact ⟨_, runToEnd_settle rfl hX, fun _ _ => trivial⟩
  | raise e =>
    cases h
    exact ⟨_, runToEnd_settle rfl hX, fun _ _ => trivial⟩
  | async thunk k ihthunk ihk =>
    have hnew := hP.child_notMem f
    have hf := (hP.pending hX).1
    have hne : f ≠ P.spawned f :: f := fun heq => hnew (heq ▸ hf)
    have hcount := hP.counters _ hnew
    have hstep : PoolStep res P _ := PoolStep.async hX
    have hP₁ := hP.step hstep
    have hnone : Function.update P.outcome (P.spawned f :: f) none = P.outcome := by
      rw [← hP.settled _ hnew]
      exact Function.update_eq_self _ _
    simp only [Body.serial] at h
    split at h
    case h_2 => cases h
    case h_1 O₁ hthunk =>
      -- first the child to its end, with the parent waiting
      obtain ⟨Q₁, hQ₁, hset₁⟩ := ihthunk hP₁ rfl (by
        simp only [Function.update_of_ne hne.symm, hcount.1, hcount.2, hnone]
        exact hthunk)
      have hkeep := hQ₁.counters f (List.mem_append_left _ hf) hne
      have hQ₁inv := (PoolStep.outcomes hP₁ hQ₁.steps).1
      have hspawned : Q₁.spawned f = P.spawned f + 1 := by
        rw [hkeep.1]
        exact Function.update_self ..
      -- then the rest of the parent
      obtain ⟨Q, hQ, hset⟩ := ihk _ hQ₁inv hQ₁.threads (by
        rw [hspawned, hkeep.2, hQ₁.outcome]
        exact h)
      refine ⟨Q, ⟨.head hstep (hQ₁.steps.trans hQ.steps), hQ.threads, hQ.outcome,
        hQ.lost.trans hQ₁.lost, hQ.sharing.trans hQ₁.sharing, fun g hg => ?_, fun g hg hgf => ?_⟩,
        fun O' hO' => ⟨?_, ?_⟩⟩
      · exact hQ.created g (hQ₁.created g (List.mem_append_left _ hg))
      · have hmem := List.mem_append_left [P.spawned f :: f] hg
        have hchild : g ≠ P.spawned f :: f := fun heq => hnew (heq ▸ hg)
        have h₁ := hQ₁.counters g hmem hchild
        have h₂ := hQ.counters g (hQ₁.created g hmem) hgf
        have h₀ : Function.update P.spawned f (P.spawned f + 1) g = P.spawned g :=
          Function.update_of_ne hgf _ _
        exact ⟨(h₂.1.trans h₁.1).trans h₀, h₂.2.trans h₁.2⟩
      · have hlast := (PoolStep.outcomes hQ₁inv hQ.steps).2
        rw [hQ₁.outcome, hQ.outcome] at hlast
        have h₁ := hset₁ O' fun g o hg => hO' g o (hlast g o hg)
        simp only [Function.update_of_ne hne.symm, hcount.1, hcount.2] at h₁
        exact h₁
      · have h₂ := hset O' hO'
        rw [hspawned, hkeep.2] at h₂
        exact h₂
  | submit k ih =>
    have hstep : PoolStep res P _ := PoolStep.submit hX
    obtain ⟨Q, hQ, hset⟩ := ih _ (hP.step hstep) rfl (by
      simp only [Function.update_self]
      exact h)
    simp only [Function.update_self] at hset
    refine ⟨Q, hQ.head hstep rfl rfl (fun _ h => h) fun g _ hgf => ⟨rfl, ?_⟩, hset⟩
    exact Function.update_of_ne hgf _ _
  | await x k ih =>
    have hanswer : ∀ o, Answer res P.outcome (.await x k) (k o) →
        ∃ Q, RunToEnd res P f X O Q ∧ ∀ O', (∀ g o, O g = some o → O' g = some o) →
          (Body.await x k).Settles res O' f (P.spawned f) (P.submitted f) := by
      intro o ho
      have hstep := PoolStep.answer ho hX
      have hP₁ := hP.step hstep
      rw [serial_answer ho] at h
      obtain ⟨Q, hQ, hset⟩ := ih o hP₁ rfl h
      refine ⟨Q, hQ.head hstep rfl rfl (fun _ h => h) fun _ _ _ => ⟨rfl, rfl⟩, fun O' hO' => ?_⟩
      have hlast := (PoolStep.outcomes hP₁ hQ.steps).2
      rw [hQ.outcome] at hlast
      exact (settles_answer ho (fun g o' hg => hO' g o' (hlast g o' hg)) f _ _).mpr (hset O' hO')
    cases x with
    | future g =>
      rcases ho : P.outcome g with _ | o
      · simp only [Body.serial, ho] at h
        cases h
      · exact hanswer o (Answer.future k ho)
    | int g => exact hanswer _ (Answer.task g k)
    | _ => exact hanswer _ (Answer.other k rfl)
  | get x k => cases h
  | set x v b => cases h

/-- The whole program. -/
theorem complete_serial {root : Body D} {O : Outcomes D}
    (h : root.serial res [] 0 0 (fun _ => none) = some O) :
    (∃ Q, Relation.ReflTransGen (PoolStep res) (Pool.init root) Q ∧ Q.Complete ∧ Q.Private ∧
      Q.outcome = O) ∧ (Pool.init root).Settles res O := by
  obtain ⟨Q, hQ, hset⟩ := runToEnd_serial (P := Pool.init root) (f := []) (X := 0)
    (Pool.inv_init root) rfl h
  refine ⟨⟨Q, hQ.steps, fun x hx => ?_, ⟨hQ.lost, hQ.sharing⟩, hQ.outcome⟩, fun x hx => ?_⟩
  · rw [hQ.threads] at hx
    exact absurd hx (Multiset.notMem_zero x)
  · rw [Multiset.mem_singleton.mp hx]
    exact hset O fun _ _ h => h

/-- Isolated runs to the exit settle the futures as the program read without the scheduler, and
leave no fiber pending. -/
theorem exited_serial {root : Body D} {s : State D} {O : Outcomes D}
    (h : root.serial res [] 0 0 (fun _ => none) = some O) (hs : (machine res root).Reachable s)
    (his : Isolated s) (hpc : s.pc = .exited) :
    (fun f => (s.futures f).state) = O ∧ ∀ f ∈ s.created, (s.futures f).state ≠ none := by
  obtain ⟨⟨Q, hQ, hcQ, hpQ, hout⟩, hset⟩ := complete_serial h
  have hinv := inv_reachable hs
  have hps := isolated_private hs his
  have hcs := exited_complete hinv hpc
  rcases hs with ⟨as, has⟩
  have hss := (pool_runFrom (inv_init root) has).2
  have heq : s.pool.outcome = O := (Pool.outcome_unique hss hQ hcs hcQ hps hpQ).trans hout
  have hset' : s.pool.Settles res s.pool.outcome := by
    rw [heq]
    exact hset.of_steps (Pool.inv_init root) hss hps fun g o hg => heq ▸ hg
  refine ⟨heq, fun f hf hnone => ?_⟩
  -- a fiber without an outcome would be in the pool
  have hmem : f ∈ s.pool.fibers := (hinv.pool.mem f).mpr ⟨hf, hnone⟩
  rw [Pool.fibers, hcs.empty hset', hps.lost] at hmem
  exact absurd hmem (Multiset.notMem_zero f)

/-! ## 4. A disciplined program can be read so -/

/-- What has come of the futures mentions only futures that have come to something. -/
def Known (O : Outcomes D) : Prop :=
  ∀ f o, O f = some o → ∀ g ∈ outcomeFutures o, O g ≠ none

theorem known_update {O : Outcomes D} (hO : Known O) (f : FutureId) {o : Outcome D}
    (ho : ∀ g ∈ outcomeFutures o, O g ≠ none) : Known (Function.update O f (some o)) := by
  intro g o' hg g' hg'
  by_cases hgf : g' = f
  · rw [hgf, Function.update_self]
    exact Option.some_ne_none o
  · rw [Function.update_of_ne hgf]
    by_cases hf : g = f
    · rw [hf, Function.update_self] at hg
      cases hg
      exact ho g' hg'
    · rw [Function.update_of_ne hf] at hg
      exact hO g o' hg g' hg'

/-- The fiber has come to its end, and nothing is undone. -/
structure Ends (O : Outcomes D) (f : FutureId) (O' : Outcomes D) : Prop where
  known : Known O'
  self : O' f ≠ none
  grows : ∀ g, O g ≠ none → O' g ≠ none

theorem ends_update {O : Outcomes D} (hO : Known O) (f : FutureId) {o : Outcome D}
    (ho : ∀ g ∈ outcomeFutures o, O g ≠ none) : Ends O f (Function.update O f (some o)) := by
  refine ⟨known_update hO f ho, ?_, fun g hg => ?_⟩
  · rw [Function.update_self]
    exact Option.some_ne_none o
  · by_cases hgf : g = f
    · rw [hgf, Function.update_self]
      exact Option.some_ne_none o
    · rw [Function.update_of_ne hgf]
      exact hg

variable (res) in
theorem Body.Disciplined.serial {b : Body D} {K : FutureId → Prop} {H : Handle → Prop}
    (hb : b.Disciplined K H) {f : FutureId} {i j : Nat} {O : Outcomes D} (hO : Known O)
    (hK : ∀ g, K g → O g ≠ none) (hH : ∀ h, H h → ∃ n < j, h = .task f n) :
    ∃ O', b.serial res f i j O = some O' ∧ Ends O f O' := by
  induction b generalizing K H f i j O with
  | ret v => exact ⟨_, rfl, ends_update hO f fun g hg => hK g (hb g hg)⟩
  | raise e => exact ⟨_, rfl, ends_update hO f fun g hg => hK g (hb g hg)⟩
  | async thunk k ihthunk ihk =>
    obtain ⟨O₁, h₁, hend₁⟩ := ihthunk hb.1 (f := i :: f) (i := 0) (j := 0) hO hK fun _ h => h.elim
    obtain ⟨O₂, h₂, hend₂⟩ := ihk _ (hb.2 (i :: f)) (f := f) (i := i + 1) (j := j) hend₁.known (by
      rintro g (rfl | hg)
      · exact hend₁.self
      · exact hend₁.grows g (hK g hg)) hH
    refine ⟨O₂, ?_, hend₂.known, hend₂.self, fun g hg => hend₂.grows g (hend₁.grows g hg)⟩
    simp only [Body.serial, h₁]
    exact h₂
  | submit k ih =>
    have hnew : ¬ H (.task f j) := by
      intro h
      obtain ⟨n, hn, heq⟩ := hH _ h
      cases heq
      exact Nat.lt_irrefl _ hn
    refine ih _ (hb _ hnew) hO hK ?_
    rintro h (rfl | hh)
    · exact ⟨j, Nat.lt_succ_self j, rfl⟩
    · obtain ⟨n, hn, heq⟩ := hH h hh
      exact ⟨n, Nat.lt_succ_of_lt hn, heq⟩
  | await x k ih =>
    cases x with
    | future g =>
      -- what a fiber knows has come to something, since whatever is made ends on the spot
      obtain ⟨o, ho⟩ := Option.ne_none_iff_exists'.mp (hK g hb.1)
      simp only [Body.serial, ho]
      refine ih o (hb.2 o) hO ?_ hH
      rintro g' (hg' | hg')
      · exact hO g o ho g' hg'
      · exact hK g' hg'
    | int g => exact ih _ (hb.2 (res g)) hO hK fun h hh => hH h hh.2
    | _ => exact ih _ hb hO hK hH
  | get x k => exact hb.elim
  | set x v b => exact hb.elim

/-! ## 5. The outcome of `run-async` -/

/-- No run goes on for ever. -/
theorem no_infinite_run {root : Body D} (run : Nat → State D)
    (h0 : (machine res root).Reachable (run 0))
    (hrun : ∀ n, ∃ a, step res (run n) a = some (run (n + 1))) : False := by
  have hreach : ∀ n, (machine res root).Reachable (run n) := by
    intro n
    induction n with
    | zero => exact h0
    | succ n ih =>
      obtain ⟨a, ha⟩ := hrun n
      exact ih.step ha
  have hnone := wellFounded_iff_isEmpty_descending_chain.mp (step_wf (D := D) res)
  exact hnone.false ⟨run, fun n => ⟨inv_reachable (hreach n), hrun n⟩⟩

/-- The reading comes to an end. -/
theorem elide_total (res : Handle → Int) {root : Body D}
    (hroot : root.Disciplined (fun _ => False) (fun _ => False)) :
    ∃ O o, root.serial res [] 0 0 (fun _ => none) = some O ∧ O [] = some o ∧
      root.elide res = some o := by
  obtain ⟨O, hO, hend⟩ := hroot.serial res (f := []) (i := 0) (j := 0)
    (O := fun _ => none) (fun _ _ h => by cases h) (fun _ h => h.elim) (fun _ h => h.elim)
  obtain ⟨o, ho⟩ := Option.ne_none_iff_exists'.mp hend.self
  refine ⟨O, o, hO, ho, ?_⟩
  simp only [Body.elide, hO]
  exact ho

/-- What `run-async` returns or raises at the exit. -/
theorem runAsync_exited {root : Body D} {s : State D} {O : Outcomes D} {o : Outcome D}
    (hO : root.serial res [] 0 0 (fun _ => none) = some O) (ho : O [] = some o)
    (hs : (machine res root).Reachable s) (his : Isolated s) (hpc : s.pc = .exited) :
    runAsync s = some (.of o) := by
  have hstate : (s.futures []).state = some o :=
    (congrFun (exited_serial hO hs his hpc).1 []).trans ho
  unfold runAsync
  rw [hpc, hstate]
  rcases o with e | v <;> rfl

/-- **Serial elision.**  A disciplined program, read without the scheduler, comes to an outcome `o`.
Run by `run-async`, it ends with `o` under every order of the completions: no run goes on for ever,
a run that can go no further has exited, and at the exit every fiber has settled as in that
reading, and what is returned or raised is `o`. -/
theorem serial_elision {root : Body D}
    (hroot : root.Disciplined (fun _ => False) (fun _ => False)) :
    ∃ O o, root.serial res [] 0 0 (fun _ => none) = some O ∧ root.elide res = some o ∧
      ∀ s, (machine res root).Reachable s →
        (∀ run : Nat → State D, run 0 = s → ¬ ∀ n, ∃ a, step res (run n) a = some (run (n + 1))) ∧
          ((machine res root).Halted s → s.pc = .exited) ∧
          (s.pc = .exited → runAsync s = some (.of o) ∧ (∀ f, (s.futures f).state = O f) ∧
            ∀ f ∈ s.created, (s.futures f).state ≠ none) := by
  obtain ⟨O, o, hO, ho, helide⟩ := elide_total res hroot
  refine ⟨O, o, hO, helide, fun s hs => ⟨?_, exited_of_halted hroot hs, fun hpc => ?_⟩⟩
  · rintro run rfl hrun
    exact no_infinite_run run hs hrun
  · have hbeh := behaves_reachable hroot hs
    have hexit := exited_serial hO hs hbeh.isolated hpc
    exact ⟨runAsync_exited hO ho hs hbeh.isolated hpc, congrFun hexit.1, hexit.2⟩

end

theorem disciplined_fetch (K : FutureId → Prop) : fetch.Disciplined K (fun _ => False) := by
  intro h _
  refine ⟨Or.inl rfl, fun r f hf => ?_⟩
  cases hf

theorem disciplined_fetchBoth :
    fetchBoth.Disciplined (fun _ => False) (fun _ => False) := by
  refine ⟨disciplined_fetch _, fun a => ⟨disciplined_fetch _, fun b => ⟨Or.inr (Or.inl rfl), ?_⟩⟩⟩
  rintro (e | v)
  · exact fun f hf => Or.inl hf
  · refine ⟨Or.inr (Or.inl rfl), ?_⟩
    rintro (e | w)
    · exact fun f hf => Or.inl hf
    · intro f hf
      simp only [Val.list, Val.futures, List.append_nil, List.mem_append] at hf
      exact hf.symm.imp_right Or.inl

/-- Two children, whose tasks complete in the order opposite to the one they are awaited in. -/
theorem serial_elision_fetchBoth :
    ∃ s o, (machine fetched fetchBoth).run reapedTogether = some s ∧
      fetchBoth.elide fetched = some o ∧ runAsync s = some (.of o) := by
  have hs : (machine fetched fetchBoth).run reapedTogether = some _ := rfl
  obtain ⟨O, o, -, ho, hruns⟩ := @serial_elision Unit fetched fetchBoth disciplined_fetchBoth
  exact ⟨_, o, hs, ho, ((hruns _ ⟨_, hs⟩).2.2 rfl).1⟩

example : fetchBoth.elide fetched = some (.ok (.list [.int (.num 0), .int (.num 10)])) := by rfl

end ChezAsync.Async
