import Mathlib.Logic.Function.Basic
import Mathlib.Logic.Hydra
import Mathlib.Logic.Relation
import Mathlib.Data.Multiset.MapFold
import Mathlib.Data.Multiset.UnionInter
import Mathlib.Data.Multiset.AddSub
import Mathlib.Data.Multiset.ZeroCons
import Mathlib.Tactic.Common
import ChezAsync.HighLevel.Fiber

/-!
# A pool of fibers

What the scheduler is for, with no scheduler in it: a bag of fibers, each at some point of its
body, and the outcomes of the futures settled so far.  Any fiber whose next call has an answer may
go on, in any order.  Fibers that meet only through their outcomes reach the same outcomes in every
order; that is the second half of the file.
-/

namespace ChezAsync.Async

variable {D : Type}

/-! ## 1. Pools -/

@[ext] structure Pool (D : Type) where
  threads : Multiset (FutureId × Body D)
  outcome : FutureId → Option (Outcome D)
  created : List FutureId
  spawned : FutureId → Nat
  submitted : FutureId → Nat
  /-- Fibers that will never go on. -/
  lost : List FutureId
  /-- Fibers that have used a shared variable. -/
  sharing : List FutureId

namespace Pool

def init (root : Body D) : Pool D :=
  { threads := {([], root)}, outcome := fun _ => none, created := [[]], spawned := fun _ => 0
    submitted := fun _ => 0, lost := [], sharing := [] }

end Pool

/-- The outcome of a body that is at its end. -/
def Body.outcome? : Body D → Option (Outcome D)
  | .ret v => some (.ok v)
  | .raise e => some (.error e)
  | _ => none

section
variable (res : Handle → Int)

/-- The `await` at the head of a body has an answer, and the body goes on with it. -/
inductive Answer (outcome : FutureId → Option (Outcome D)) : Body D → Body D → Prop
  | future {f : FutureId} {o : Outcome D} (k : Outcome D → Body D) (h : outcome f = some o) :
      Answer outcome (.await (.future f) k) (k o)
  | task (h : Handle) (k : Outcome D → Body D) :
      Answer outcome (.await (.int h) k) (k (.ok (.int (.num (res h)))))
  | other {x : Val D} (k : Outcome D → Body D) (h : x.awaitable = false) :
      Answer outcome (.await x k) (k (.error (notAwaitable x)))

/-- One fiber of the pool makes one call. -/
inductive PoolStep (P : Pool D) : Pool D → Prop
  | settle {f : FutureId} {b : Body D} {o : Outcome D} {X : Multiset (FutureId × Body D)}
      (hb : b.outcome? = some o) (hX : P.threads = (f, b) ::ₘ X) :
      PoolStep P { P with threads := X, outcome := Function.update P.outcome f (some o) }
  | async {f : FutureId} {thunk : Body D} {k : Val D → Body D} {X : Multiset (FutureId × Body D)}
      (hX : P.threads = (f, .async thunk k) ::ₘ X) :
      PoolStep P { P with
        threads := (P.spawned f :: f, thunk) ::ₘ (f, k (.future (P.spawned f :: f))) ::ₘ X
        outcome := Function.update P.outcome (P.spawned f :: f) none
        created := P.created ++ [P.spawned f :: f]
        spawned := Function.update P.spawned f (P.spawned f + 1) }
  | answer {f : FutureId} {b b' : Body D} {X : Multiset (FutureId × Body D)}
      (hb : Answer res P.outcome b b') (hX : P.threads = (f, b) ::ₘ X) :
      PoolStep P { P with threads := (f, b') ::ₘ X }
  | submit {f : FutureId} {k : Val D → Body D} {X : Multiset (FutureId × Body D)}
      (hX : P.threads = (f, .submit k) ::ₘ X) :
      PoolStep P { P with
        threads := (f, k (.int (.task f (P.submitted f)))) ::ₘ X
        submitted := Function.update P.submitted f (P.submitted f + 1) }
  -- A pool has no variables: whatever the fiber may go on with.
  | share {f : FutureId} {b b' : Body D} {X : Multiset (FutureId × Body D)} (hb : b'.Part b)
      (hX : P.threads = (f, b) ::ₘ X) :
      PoolStep P { P with threads := (f, b') ::ₘ X, sharing := f :: P.sharing }
  | lose {f : FutureId} {b : Body D} {X : Multiset (FutureId × Body D)}
      (hX : P.threads = (f, b) ::ₘ X) :
      PoolStep P { P with threads := X, lost := f :: P.lost }

/-! ## 2. Where each fiber is -/

/-- The fibers that are in the pool or lost. -/
def Pool.fibers (P : Pool D) : Multiset FutureId := P.threads.map Prod.fst + P.lost

structure Pool.Inv (P : Pool D) : Prop where
  /-- A fiber is in one place. -/
  nodup : P.fibers.Nodup
  mem : ∀ f, f ∈ P.fibers ↔ f ∈ P.created ∧ P.outcome f = none
  created : P.created.Nodup
  root : [] ∈ P.created
  child : ∀ n f, n :: f ∈ P.created → n < P.spawned f
  settled : ∀ f, f ∉ P.created → P.outcome f = none
  counters : ∀ f, f ∉ P.created → P.spawned f = 0 ∧ P.submitted f = 0

theorem Pool.inv_init (root : Body D) : (Pool.init root).Inv := by
  refine ⟨?_, ?_, ?_, ?_, ?_, ?_, ?_⟩ <;> simp [Pool.init, Pool.fibers]

variable {res}

theorem Pool.fibers_cons {P : Pool D} {f : FutureId} {b : Body D}
    {X : Multiset (FutureId × Body D)} (hX : P.threads = (f, b) ::ₘ X) :
    P.fibers = f ::ₘ (X.map Prod.fst + P.lost) := by
  rw [Pool.fibers, hX, Multiset.map_cons, Multiset.cons_add]

namespace Pool.Inv

variable {P : Pool D} {f : FutureId} {b : Body D} {X : Multiset (FutureId × Body D)}

/-- The fiber of a thread has been made and has not settled. -/
theorem pending (hP : P.Inv) (hX : P.threads = (f, b) ::ₘ X) :
    f ∈ P.created ∧ P.outcome f = none := by
  rw [← hP.mem f, Pool.fibers_cons hX]
  exact Multiset.mem_cons_self f _

/-- No other thread belongs to the fiber, and it is not lost. -/
theorem notMem (hP : P.Inv) (hX : P.threads = (f, b) ::ₘ X) : f ∉ X.map Prod.fst + P.lost := by
  have h := hP.nodup
  rw [Pool.fibers_cons hX] at h
  exact (Multiset.nodup_cons.mp h).1

theorem ne_of_mem (hP : P.Inv) (hX : P.threads = (f, b) ::ₘ X) {x : FutureId × Body D}
    (hx : x ∈ X) : x.1 ≠ f := by
  intro hxf
  apply hP.notMem hX
  rw [← hxf]
  exact Multiset.mem_add.mpr (Or.inl (Multiset.mem_map_of_mem _ hx))

theorem child_notMem (hP : P.Inv) (f : FutureId) : P.spawned f :: f ∉ P.created := by
  intro h
  exact Nat.lt_irrefl _ (hP.child _ _ h)

/-- The fiber goes on within its body. -/
theorem move (hP : P.Inv) (hX : P.threads = (f, b) ::ₘ X) (b' : Body D) :
    { P with threads := (f, b') ::ₘ X }.Inv := by
  have hfib : { P with threads := (f, b') ::ₘ X }.fibers = P.fibers := by
    rw [Pool.fibers_cons hX, Pool.fibers_cons rfl]
  exact { hP with nodup := hfib ▸ hP.nodup, mem := fun g => hfib ▸ hP.mem g }

theorem settle (hP : P.Inv) (hX : P.threads = (f, b) ::ₘ X) (o : Outcome D) :
    { P with threads := X, outcome := Function.update P.outcome f (some o) }.Inv := by
  have hnodup := hP.nodup
  have hmem := hP.mem
  rw [Pool.fibers_cons hX] at hnodup hmem
  have hf := hP.pending hX
  refine { hP with nodup := (Multiset.nodup_cons.mp hnodup).2, mem := ?_, settled := ?_ }
  · intro g
    by_cases hg : g = f
    · rw [hg]
      simp only [Function.update_self, reduceCtorEq, and_false, iff_false]
      exact (Multiset.nodup_cons.mp hnodup).1
    · simp only [Function.update_of_ne hg]
      rw [← hmem g, Multiset.mem_cons]
      exact ⟨Or.inr, fun h => h.resolve_left hg⟩
  · intro g hg
    have hgf : g ≠ f := fun h => hg (h ▸ hf.1)
    simp only [Function.update_of_ne hgf]
    exact hP.settled g hg

theorem lose (hP : P.Inv) (hX : P.threads = (f, b) ::ₘ X) :
    { P with threads := X, lost := f :: P.lost }.Inv := by
  have hfib : { P with threads := X, lost := f :: P.lost }.fibers = P.fibers := by
    rw [Pool.fibers_cons hX, Pool.fibers, ← Multiset.cons_coe, Multiset.add_cons]
  exact { hP with nodup := hfib ▸ hP.nodup, mem := fun g => hfib ▸ hP.mem g }

theorem async (hP : P.Inv) {thunk : Body D} (hX : P.threads = (f, b) ::ₘ X) (b' : Body D) :
    { P with
      threads := (P.spawned f :: f, thunk) ::ₘ (f, b') ::ₘ X
      outcome := Function.update P.outcome (P.spawned f :: f) none
      created := P.created ++ [P.spawned f :: f]
      spawned := Function.update P.spawned f (P.spawned f + 1) }.Inv := by
  -- the child's name is new, since the counter of its parent has not reached it
  have hnew := hP.child_notMem f
  have hf := hP.pending hX
  have hne : P.spawned f :: f ≠ f := fun h => hnew (h.symm ▸ hf.1)
  have hfib : Pool.fibers { P with
      threads := (P.spawned f :: f, thunk) ::ₘ (f, b') ::ₘ X
      outcome := Function.update P.outcome (P.spawned f :: f) none
      created := P.created ++ [P.spawned f :: f]
      spawned := Function.update P.spawned f (P.spawned f + 1) } =
      (P.spawned f :: f) ::ₘ P.fibers := by
    rw [Pool.fibers_cons hX, Pool.fibers_cons rfl, Multiset.map_cons, Multiset.cons_add]
  have hnfib : P.spawned f :: f ∉ P.fibers := fun h => hnew ((hP.mem _).mp h).1
  refine ⟨?_, ?_, ?_, ?_, ?_, ?_, ?_⟩
  · rw [hfib]
    exact Multiset.nodup_cons.mpr ⟨hnfib, hP.nodup⟩
  · intro g
    rw [hfib, Multiset.mem_cons, List.mem_append, List.mem_singleton]
    by_cases hg : g = P.spawned f :: f
    · simp [hg]
    · simp only [hg, false_or, or_false, Function.update_of_ne hg]
      exact hP.mem g
  · rw [← List.concat_eq_append]
    exact hP.created.concat hnew
  · exact List.mem_append_left _ hP.root
  · intro n g h
    by_cases hg : g = f
    · subst hg
      simp only [Function.update_self]
      rcases List.mem_append.mp h with h | h
      · have := hP.child n g h
        omega
      · have := (List.cons.inj (List.mem_singleton.mp h)).1
        omega
    · simp only [Function.update_of_ne hg]
      rcases List.mem_append.mp h with h | h
      · exact hP.child n g h
      · exact absurd (List.cons.inj (List.mem_singleton.mp h)).2 hg
  · intro g hg
    have hg' : g ∉ P.created := fun h => hg (List.mem_append_left _ h)
    by_cases hgn : g = P.spawned f :: f
    · rw [hgn]
      exact Function.update_self ..
    · simp only [Function.update_of_ne hgn]
      exact hP.settled g hg'
  · intro g hg
    have hg' : g ∉ P.created := fun h => hg (List.mem_append_left _ h)
    have hgf : g ≠ f := fun h => hg' (h ▸ hf.1)
    simp only [Function.update_of_ne hgf]
    exact hP.counters g hg'

theorem step {Q : Pool D} (hP : P.Inv) (h : PoolStep res P Q) : Q.Inv := by
  cases h with
  | settle hb hX => exact hP.settle hX _
  | async hX => exact hP.async hX _
  | answer hb hX => exact hP.move hX _
  | submit hX =>
    have hf := hP.pending hX
    refine { hP.move hX _ with counters := ?_ }
    intro g hg
    have hgf : g ≠ _ := fun h => hg (h ▸ hf.1)
    simp only [Function.update_of_ne hgf]
    exact hP.counters g hg
  | share hb hX => exact { hP.move hX _ with }
  | lose hX => exact hP.lose hX

end Pool.Inv

/-! ## 3. Steps lose no outcome -/

theorem PoolStep.outcome {P Q : Pool D} (hP : P.Inv) (h : PoolStep res P Q) {f : FutureId}
    {o : Outcome D} (hf : P.outcome f = some o) : Q.outcome f = some o := by
  cases h with
  | settle hb hX =>
    refine (Function.update_of_ne ?_ ..).trans hf
    intro e
    subst e
    rw [(hP.pending hX).2] at hf
    cases hf
  | async hX =>
    refine (Function.update_of_ne ?_ ..).trans hf
    intro e
    subst e
    rw [hP.settled _ (hP.child_notMem _)] at hf
    cases hf
  | answer hb hX => exact hf
  | submit hX => exact hf
  | share hb hX => exact hf
  | lose hX => exact hf

theorem PoolStep.outcomes {P Q : Pool D} (hP : P.Inv)
    (h : Relation.ReflTransGen (PoolStep res) P Q) :
    Q.Inv ∧ ∀ f o, P.outcome f = some o → Q.outcome f = some o := by
  induction h with
  | refl => exact ⟨hP, fun _ _ hf => hf⟩
  | tail _ hstep ih => exact ⟨ih.1.step hstep, fun f o hf => hstep.outcome ih.1 (ih.2 f o hf)⟩

/-- Nothing is lost, and no variable is shared. -/
structure Pool.Private (P : Pool D) : Prop where
  lost : P.lost = []
  sharing : P.sharing = []

theorem PoolStep.private {P Q : Pool D} (h : PoolStep res P Q) (hQ : Q.Private) : P.Private := by
  rcases hQ with ⟨hlost, hshare⟩
  cases h with
  | share hb hX => cases hshare
  | lose hX => cases hlost
  | _ => exact ⟨hlost, hshare⟩

theorem Pool.Private.of_steps {P Q : Pool D} (h : Relation.ReflTransGen (PoolStep res) P Q)
    (hQ : Q.Private) : P.Private := by
  induction h with
  | refl => exact hQ
  | tail _ hstep ih => exact ih (hstep.private hQ)

/-- A fiber at the `await` of a future stays there or goes on with the outcome. -/
theorem PoolStep.awaiting {P Q : Pool D} (h : PoolStep res P Q) (hQ : Q.Private)
    {f g : FutureId} {k : Outcome D → Body D} (hmem : (f, .await (.future g) k) ∈ P.threads) :
    (f, .await (.future g) k) ∈ Q.threads ∨
      ∃ o, P.outcome g = some o ∧ (f, k o) ∈ Q.threads := by
  -- the thread is one of the others, or the one that moves
  have hsplit : ∀ {f' : FutureId} {b : Body D} {X : Multiset (FutureId × Body D)},
      P.threads = (f', b) ::ₘ X →
      (f' = f ∧ b = .await (.future g) k) ∨ (f, Body.await (.future g) k) ∈ X := by
    intro f' b X hX
    rw [hX, Multiset.mem_cons] at hmem
    rcases hmem with heq | hmem
    · cases heq
      exact Or.inl ⟨rfl, rfl⟩
    · exact Or.inr hmem
  cases h with
  | share hb hX => exact absurd hQ.sharing (by simp)
  | lose hX => exact absurd hQ.lost (by simp)
  | settle hb hX =>
    rcases hsplit hX with ⟨rfl, rfl⟩ | hmem
    · cases hb
    · exact Or.inl hmem
  | async hX =>
    rcases hsplit hX with ⟨-, hb⟩ | hmem
    · cases hb
    · exact Or.inl (Multiset.mem_cons_of_mem (Multiset.mem_cons_of_mem hmem))
  | submit hX =>
    rcases hsplit hX with ⟨-, hb⟩ | hmem
    · cases hb
    · exact Or.inl (Multiset.mem_cons_of_mem hmem)
  | answer hb hX =>
    rcases hsplit hX with ⟨rfl, rfl⟩ | hmem
    · cases hb with
      | future k ho => exact Or.inr ⟨_, ho, Multiset.mem_cons_self _ _⟩
      | other k hx => cases hx
    · exact Or.inl (Multiset.mem_cons_of_mem hmem)

theorem Answer.part {outcome : FutureId → Option (Outcome D)} {b b' : Body D}
    (h : Answer res outcome b b') : b'.Part b := by
  cases h with
  | future k ho => exact Body.Part.await _ k _
  | task g k => exact Body.Part.await _ k _
  | other k hx => exact Body.Part.await _ k _

/-- A step cuts one body down to parts of it. -/
theorem PoolStep.cutExpand {P Q : Pool D} (h : PoolStep res P Q) :
    Relation.CutExpand Body.Part (Q.threads.map Prod.snd) (P.threads.map Prod.snd) := by
  have hcut : ∀ {f : FutureId} {b : Body D} {X Y : Multiset (FutureId × Body D)}
      (bs : Multiset (Body D)), P.threads = (f, b) ::ₘ X → (∀ a ∈ bs, a.Part b) →
      Y.map Prod.snd = bs + X.map Prod.snd →
      Relation.CutExpand Body.Part (Y.map Prod.snd) (P.threads.map Prod.snd) := by
    intro f b X Y bs hX hbs hY
    refine ⟨bs, b, hbs, ?_⟩
    rw [hY, hX, Multiset.map_cons, ← Multiset.singleton_add]
    ac_rfl
  have hone : ∀ {f : FutureId} {b b' : Body D} {X : Multiset (FutureId × Body D)},
      P.threads = (f, b) ::ₘ X → b'.Part b → Relation.CutExpand Body.Part
        (((f, b') ::ₘ X).map Prod.snd) (P.threads.map Prod.snd) := by
    intro f b b' X hX hb
    apply hcut {b'} hX
    · exact fun a ha => Multiset.mem_singleton.mp ha ▸ hb
    · rw [Multiset.map_cons, Multiset.singleton_add]
  cases h with
  | settle hb hX =>
    apply hcut 0 hX
    · exact fun a ha => absurd ha (Multiset.notMem_zero a)
    · exact (zero_add _).symm
  | lose hX =>
    apply hcut 0 hX
    · exact fun a ha => absurd ha (Multiset.notMem_zero a)
    · exact (zero_add _).symm
  | answer hb hX => exact hone hX hb.part
  | submit hX => exact hone hX (Body.Part.submit _ _)
  | share hb hX => exact hone hX hb
  | @async f thunk k X hX =>
    apply hcut {thunk, k (.future (P.spawned f :: f))} hX
    · intro a ha
      rcases Multiset.mem_cons.mp ha with rfl | ha
      · exact Body.Part.thunk _ k
      · exact Multiset.mem_singleton.mp ha ▸ Body.Part.async thunk k _
    · rw [Multiset.map_cons, Multiset.map_cons, Multiset.insert_eq_cons, Multiset.cons_add,
        Multiset.singleton_add]

/-! ## 4. A body against the outcomes -/

/-- What the outcomes `O` are, as far as the body decides it: the fiber `f`, after making `i`
futures and `j` tasks, comes to its own outcome in `O` when its awaits are answered from `O`; it has none
if one of them has no answer there. -/
def Follows (res : Handle → Int) (O : FutureId → Option (Outcome D)) :
    Body D → FutureId → Nat → Nat → Prop
  | .ret v, f, _, _ => O f = some (.ok v)
  | .raise e, f, _, _ => O f = some (.error e)
  | .async thunk k, f, i, j =>
      Follows res O thunk (i :: f) 0 0 ∧ Follows res O (k (.future (i :: f))) f (i + 1) j
  | .submit k, f, i, j => Follows res O (k (.int (.task f j))) f i (j + 1)
  | .await (.future g) k, f, i, j =>
      (∀ o, O g = some o → Follows res O (k o) f i j) ∧ (O g = none → O f = none)
  | .await (.int h) k, f, i, j => Follows res O (k (.ok (.int (.num (res h))))) f i j
  | .await x k, f, i, j => Follows res O (k (.error (notAwaitable x))) f i j
  | .get _ _, _, _, _ => False
  | .set _ _ _, _, _, _ => False

variable {O : FutureId → Option (Outcome D)}

theorem follows_outcome {b : Body D} {o : Outcome D} (hb : b.outcome? = some o) {f : FutureId}
    {i j : Nat} : Follows res O b f i j ↔ O f = some o := by
  cases b <;> simp only [Body.outcome?, Option.some.injEq, reduceCtorEq] at hb
  · rw [← hb]
    exact Iff.rfl
  · rw [← hb]
    exact Iff.rfl

/-- An answer that agrees with `O` changes nothing. -/
theorem follows_answer {outcome : FutureId → Option (Outcome D)} {b b' : Body D}
    (hb : Answer res outcome b b') (hO : ∀ g o, outcome g = some o → O g = some o) {f : FutureId}
    {i j : Nat} : Follows res O b f i j ↔ Follows res O b' f i j := by
  cases hb with
  | @future g o k hg =>
    have hOg := hO g o hg
    constructor
    · exact fun h => h.1 o hOg
    · intro h
      refine ⟨fun o' ho' => ?_, fun hnone => ?_⟩
      · rw [hOg] at ho'
        cases ho'
        exact h
      · rw [hOg] at hnone
        cases hnone
  | task h k => exact Iff.rfl
  | @other x k hx =>
    cases x with
    | future g => cases hx
    | int h => cases hx
    | _ => exact Iff.rfl

/-- Every thread of the pool agrees with the outcomes `O`. -/
def Pool.Follow (res : Handle → Int) (O : FutureId → Option (Outcome D)) (P : Pool D) : Prop :=
  ∀ x ∈ P.threads, Follows res O x.2 x.1 (P.spawned x.1) (P.submitted x.1)

/-- The other threads keep what they have made. -/
theorem Pool.Inv.follow_rest (res : Handle → Int) (O : FutureId → Option (Outcome D))
    {P : Pool D} (hP : P.Inv) {f : FutureId} {b : Body D}
    {X : Multiset (FutureId × Body D)} (hX : P.threads = (f, b) ::ₘ X) (i j : Nat) :
    (∀ x ∈ X, Follows res O x.2 x.1 (Function.update P.spawned f i x.1)
        (Function.update P.submitted f j x.1)) ↔
      ∀ x ∈ X, Follows res O x.2 x.1 (P.spawned x.1) (P.submitted x.1) := by
  apply forall₂_congr
  intro x hx
  rw [Function.update_of_ne (hP.ne_of_mem hX hx), Function.update_of_ne (hP.ne_of_mem hX hx)]

/-- A step neither makes nor breaks the agreement of the threads with `O`, as long as the outcome
it sets, if any, is the one in `O`. -/
theorem PoolStep.follow_iff {P Q : Pool D} (hP : P.Inv) (h : PoolStep res P Q) (hQ : Q.Private)
    (hO : ∀ f o, P.outcome f = some o → O f = some o) :
    P.Follow res O ↔
      Q.Follow res O ∧ ∀ f o, P.outcome f = none → Q.outcome f = some o → O f = some o := by
  cases h with
  | share hb hX => exact absurd hQ.sharing (by simp)
  | lose hX => exact absurd hQ.lost (by simp)
  | @settle f b o X hb hX =>
    have hnew : (∀ g o', P.outcome g = none → Function.update P.outcome f (some o) g = some o' →
        O g = some o') ↔ O f = some o := by
      constructor
      · exact fun h => h f o (hP.pending hX).2 (Function.update_self ..)
      · intro hf g o' hg hg'
        by_cases hgf : g = f
        · subst hgf
          rw [Function.update_self] at hg'
          exact hf.trans hg'
        · rw [Function.update_of_ne hgf, hg] at hg'
          cases hg'
    simp only [Pool.Follow, hX, Multiset.forall_mem_cons, follows_outcome hb, hnew]
    exact and_comm
  | @async f thunk k X hX =>
    have hcount := hP.counters _ (hP.child_notMem f)
    have hne : P.spawned f :: f ≠ f := fun h => hP.child_notMem f (h.symm ▸ (hP.pending hX).1)
    have hrest := hP.follow_rest res O hX (P.spawned f + 1) (P.submitted f)
    rw [Function.update_eq_self] at hrest
    have hnew : ∀ g o', P.outcome g = none →
        Function.update P.outcome (P.spawned f :: f) none g = some o' → O g = some o' := by
      intro g o' hg hg'
      by_cases hgf : g = P.spawned f :: f
      · rw [hgf, Function.update_self] at hg'
        cases hg'
      · rw [Function.update_of_ne hgf, hg] at hg'
        cases hg'
    simp only [Pool.Follow, hX, Multiset.forall_mem_cons, Follows, hrest, Function.update_self,
      Function.update_of_ne hne, hcount.1, hcount.2]
    rw [and_iff_left hnew, and_assoc]
  | @answer f b b' X hb hX =>
    have hnew : ∀ g o', P.outcome g = none → P.outcome g = some o' → O g = some o' := by
      intro g o' hg hg'
      rw [hg] at hg'
      cases hg'
    simp only [Pool.Follow, hX, Multiset.forall_mem_cons, follows_answer hb hO]
    rw [and_iff_left hnew]
  | @submit f k X hX =>
    have hrest := hP.follow_rest res O hX (P.spawned f) (P.submitted f + 1)
    rw [Function.update_eq_self] at hrest
    have hnew : ∀ g o', P.outcome g = none → P.outcome g = some o' → O g = some o' := by
      intro g o' hg hg'
      rw [hg] at hg'
      cases hg'
    simp only [Pool.Follow, hX, Multiset.forall_mem_cons, Follows, hrest, Function.update_self]
    rw [and_iff_left hnew]

/-! ## 5. The outcomes do not depend on the order -/

/-- Every fiber that is left awaits a future without an outcome. -/
def Pool.Complete (P : Pool D) : Prop :=
  ∀ x ∈ P.threads, ∃ g k, x.2 = .await (.future g) k ∧ P.outcome g = none

theorem Pool.Complete.follow {P : Pool D} (hc : P.Complete) (hP : P.Inv) :
    P.Follow res P.outcome := by
  intro x hx
  rcases hc x hx with ⟨g, k, hb, hg⟩
  have hpend : P.outcome x.1 = none := by
    have hmem : x.1 ∈ P.fibers := Multiset.mem_add.mpr (Or.inl (Multiset.mem_map_of_mem _ hx))
    exact ((hP.mem x.1).mp hmem).2
  rw [hb]
  refine ⟨fun o ho => ?_, fun _ => hpend⟩
  rw [hg] at ho
  cases ho

/-- Backwards from a complete pool: its outcomes agree with the threads of every earlier one. -/
theorem Pool.Complete.follow_of_steps {P P' : Pool D} (hc : P.Complete) (hpriv : P.Private)
    (hsteps : Relation.ReflTransGen (PoolStep res) P' P) (hP' : P'.Inv) :
    P'.Private ∧ P'.Follow res P.outcome := by
  induction hsteps using Relation.ReflTransGen.head_induction_on with
  | refl => exact ⟨hpriv, hc.follow hP'⟩
  | @head P₁ P₂ hstep hrest ih =>
    have hP₂ := hP'.step hstep
    have h₂ := ih hP₂
    -- the induction is from the end of the run back to the start
    have hlast := (PoolStep.outcomes hP₂ hrest).2
    refine ⟨hstep.private h₂.1, (hstep.follow_iff hP' h₂.1 ?_).mpr ⟨h₂.2, ?_⟩⟩
    · exact fun f o hf => hlast f o (hstep.outcome hP' hf)
    · exact fun f o _ hf => hlast f o hf

/-- Forwards from a pool whose threads agree with `O`: it settles futures as in `O`. -/
theorem Pool.Follow.outcome_of_steps {P Q : Pool D} (hP : P.Inv) (hF : P.Follow res O)
    (hO : ∀ f o, P.outcome f = some o → O f = some o)
    (hsteps : Relation.ReflTransGen (PoolStep res) P Q) (hpriv : Q.Private) :
    ∀ f o, Q.outcome f = some o → O f = some o := by
  induction hsteps using Relation.ReflTransGen.head_induction_on with
  | refl => exact hO
  | @head P₁ P₂ hstep hrest ih =>
    have hpriv₂ : P₂.Private := Pool.Private.of_steps hrest hpriv
    have h := (hstep.follow_iff hP hpriv₂ hO).mp hF
    apply ih (hP.step hstep) h.1
    intro f o hf
    rcases hf₁ : P₁.outcome f with _ | o₁
    · exact h.2 f o hf₁ hf
    · rw [hstep.outcome hP hf₁] at hf
      cases hf
      exact hO f o hf₁

/-- **Confluence.**  Two complete pools of one program have the same outcomes. -/
theorem Pool.outcome_unique {root : Body D} {P Q : Pool D}
    (hP : Relation.ReflTransGen (PoolStep res) (Pool.init root) P)
    (hQ : Relation.ReflTransGen (PoolStep res) (Pool.init root) Q)
    (hcP : P.Complete) (hcQ : Q.Complete) (hpP : P.Private) (hpQ : Q.Private) :
    P.outcome = Q.outcome := by
  have hinit := Pool.inv_init root
  have hnone : ∀ (O : FutureId → Option (Outcome D)) f o,
      (Pool.init root).outcome f = some o → O f = some o := by
    intro O f o h
    cases h
  -- the program agrees with the outcomes of either end, so each end settles as the other one
  have hPQ := (hcQ.follow_of_steps hpQ hQ hinit).2.outcome_of_steps hinit (hnone _) hP hpP
  have hQP := (hcP.follow_of_steps hpP hP hinit).2.outcome_of_steps hinit (hnone _) hQ hpQ
  funext f
  rcases hf : P.outcome f with _ | o
  · rcases hg : Q.outcome f with _ | o
    · rfl
    · rw [hQP f o hg] at hf
      cases hf
  · exact (hPQ f o hf).symm

end

end ChezAsync.Async
