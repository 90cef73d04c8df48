import Mathlib.Logic.Function.Basic
import Mathlib.Logic.Relation
import Mathlib.Data.Multiset.MapFold
import Mathlib.Data.Multiset.Filter
import Mathlib.Tactic.Common

/-!
# Rendezvous — values and takers that meet at keys

At each key one value arrives and takers come for it, in either order.  A value without a taker is
kept; a taker without a value waits, in one place a key, so that a second taker drops the first.
When no two takers come to one key, nothing is dropped and every taker whose value has arrived has
met it once.
-/

universe u v w

@[ext] structure Rendezvous (T : Type u) (K : Type v) (V : Type w) where
  /-- The takers that have come, with their keys, in order. -/
  takes : List (T × K)
  arrived : List K
  taker : K → Option T
  stash : K → Option V
  met : Multiset (T × K × V)
  dropped : List T

namespace Rendezvous

variable {T : Type u} {K : Type v} {V : Type w}

def empty : Rendezvous T K V :=
  { takes := [], arrived := [], taker := fun _ => none, stash := fun _ => none, met := 0
    dropped := [] }

/-! ## 1. What holds of a rendezvous -/

structure Inv (value : K → V) (R : Rendezvous T K V) : Prop where
  stash : ∀ k v, R.stash k = some v → v = value k ∧ k ∈ R.arrived
  taker : ∀ k t, R.taker k = some t → (t, k) ∈ R.takes

theorem inv_empty (value : K → V) : Inv value (empty : Rendezvous T K V) := by
  constructor <;> simp [empty]

/-- No two takers come to one key. -/
def Once (R : Rendezvous T K V) : Prop := (R.takes.map Prod.snd).Nodup

/-- The last taker is the first at its key. -/
theorem Once.fresh {takes : List (T × K)} {t : T} {k : K}
    (h : ((takes ++ [(t, k)]).map Prod.snd).Nodup) (t' : T) : (t', k) ∉ takes := by
  intro hmem
  rw [List.map_append, List.nodup_append] at h
  exact h.2.2 k (List.mem_map_of_mem (f := Prod.snd) hmem) k (List.mem_singleton_self k) rfl

/-- The takers before and after the one at its key. -/
theorem Once.split {takes : List (T × K)} (h : (takes.map Prod.snd).Nodup) {t : T} {k : K}
    (hmem : (t, k) ∈ takes) :
    ∃ before after, takes = before ++ (t, k) :: after ∧ (∀ t', (t', k) ∉ before) ∧
      ∀ t', (t', k) ∉ after := by
  rcases List.append_of_mem hmem with ⟨before, after, rfl⟩
  rw [List.map_append, List.map_cons, List.nodup_append, List.nodup_cons] at h
  refine ⟨before, after, rfl, fun t' h' => ?_, fun t' h' => ?_⟩
  · exact h.2.2 k (List.mem_map_of_mem (f := Prod.snd) h') k List.mem_cons_self rfl
  · have hk := List.mem_map_of_mem (f := Prod.snd) h'
    exact h.2.1.1 hk

/-! ## 2. Steps -/

variable [DecidableEq K]

inductive Step (value : K → V) (R : Rendezvous T K V) : Rendezvous T K V → Prop
  /-- A taker finds the value. -/
  | take (t : T) {k : K} {v : V} (h : R.stash k = some v) :
      Step value R { R with
        takes := R.takes ++ [(t, k)]
        stash := Function.update R.stash k none
        met := (t, k, v) ::ₘ R.met }
  | wait (t : T) {k : K} (h : R.stash k = none) :
      Step value R { R with
        takes := R.takes ++ [(t, k)]
        taker := Function.update R.taker k (some t)
        dropped := (R.taker k).toList ++ R.dropped }
  /-- A value finds its taker. -/
  | wake {t : T} {k : K} (hnew : k ∉ R.arrived) (h : R.taker k = some t) :
      Step value R { R with
        arrived := R.arrived ++ [k]
        taker := Function.update R.taker k none
        met := (t, k, value k) ::ₘ R.met }
  | keep {k : K} (hnew : k ∉ R.arrived) (h : R.taker k = none) :
      Step value R { R with
        arrived := R.arrived ++ [k]
        stash := Function.update R.stash k (some (value k)) }

variable {value : K → V} {R S : Rendezvous T K V}

theorem Inv.step (hR : Inv value R) (h : Step value R S) : Inv value S := by
  cases h with
  | take t hv =>
    constructor
    · -- the values that are left were kept before
      intro k' v' h'
      simp only [Function.update_apply] at h'
      split at h'
      · cases h'
      · exact hR.stash k' v' h'
    · exact fun k' t' h' => List.mem_append_left _ (hR.taker k' t' h')
  | wait t hk =>
    refine ⟨hR.stash, fun k' t' h' => ?_⟩
    simp only [Function.update_apply] at h'
    split at h'
    case isTrue heq =>
      cases h'
      exact heq ▸ List.mem_append_right _ (List.mem_singleton_self _)
    case isFalse => exact List.mem_append_left _ (hR.taker k' t' h')
  | wake hnew ht =>
    constructor
    · intro k' v' h'
      have h := hR.stash k' v' h'
      exact ⟨h.1, List.mem_append_left _ h.2⟩
    · intro k' t' h'
      simp only [Function.update_apply] at h'
      split at h'
      · cases h'
      · exact hR.taker k' t' h'
  | keep hnew ht =>
    refine ⟨fun k' v' h' => ?_, hR.taker⟩
    simp only [Function.update_apply] at h'
    split at h'
    case isTrue heq =>
      cases h'
      exact heq ▸ ⟨rfl, List.mem_append_right _ (List.mem_singleton_self _)⟩
    case isFalse =>
      have h := hR.stash k' v' h'
      exact ⟨h.1, List.mem_append_left _ h.2⟩

theorem Step.takes (h : Step value R S) {x : T × K} (hx : x ∈ R.takes) : x ∈ S.takes := by
  cases h with
  | take t hv => exact List.mem_append_left _ hx
  | wait t hk => exact List.mem_append_left _ hx
  | wake hnew ht => exact hx
  | keep hnew ht => exact hx

theorem Step.met (h : Step value R S) {m : T × K × V} (hm : m ∈ R.met) : m ∈ S.met := by
  cases h with
  | take t hv => exact Multiset.mem_cons_of_mem hm
  | wait t hk => exact hm
  | wake hnew ht => exact Multiset.mem_cons_of_mem hm
  | keep hnew ht => exact hm

/-- Whoever meets a value meets that of the key, which has arrived. -/
theorem Step.met_value (hR : Inv value R) (h : Step value R S)
    (hmet : ∀ m ∈ R.met, m.2.2 = value m.2.1 ∧ m.2.1 ∈ R.arrived) :
    ∀ m ∈ S.met, m.2.2 = value m.2.1 ∧ m.2.1 ∈ S.arrived := by
  cases h with
  | take t hv =>
    intro m hm
    rcases Multiset.mem_cons.mp hm with rfl | hm
    · exact hR.stash _ _ hv
    · exact hmet m hm
  | wait t hk => exact hmet
  | wake hnew ht =>
    intro m hm
    rcases Multiset.mem_cons.mp hm with rfl | hm
    · exact ⟨rfl, List.mem_append_right _ (List.mem_singleton_self _)⟩
    · exact ⟨(hmet m hm).1, List.mem_append_left _ (hmet m hm).2⟩
  | keep hnew ht => exact fun m hm => ⟨(hmet m hm).1, List.mem_append_left _ (hmet m hm).2⟩

/-! ## 3. One taker a key -/

theorem Once.of_step (h : Step value R S) (hS : S.Once) : R.Once := by
  unfold Once at *
  cases h with
  | take t hv =>
    rw [List.map_append] at hS
    exact hS.of_append_left
  | wait t hk =>
    rw [List.map_append] at hS
    exact hS.of_append_left
  | wake hnew ht => exact hS
  | keep hnew ht => exact hS

/-- The meetings that are due: of each taker whose value has arrived. -/
def due (value : K → V) (takes : List (T × K)) (arrived : List K) : List (T × K × V) :=
  (takes.filter fun x => x.2 ∈ arrived).map fun x => (x.1, x.2, value x.2)

/-- Every taker is waiting or has met its value, every value is kept or has met its taker. -/
structure Settled (value : K → V) (R : Rendezvous T K V) : Prop where
  dropped : R.dropped = []
  waiting : ∀ k t, R.taker k = some t → k ∉ R.arrived
  fresh : ∀ k v, R.stash k = some v → ∀ t, (t, k) ∉ R.takes
  waits : ∀ t k, (t, k) ∈ R.takes → k ∉ R.arrived → R.taker k = some t
  keeps : ∀ k, k ∈ R.arrived → (∀ t, (t, k) ∉ R.takes) → R.stash k = some (value k)
  met : R.met = due value R.takes R.arrived

theorem settled_empty (value : K → V) : Settled value (empty : Rendezvous T K V) := by
  refine ⟨rfl, ?_, ?_, ?_, ?_, rfl⟩ <;> simp [empty]

theorem due_append (before after : List (T × K)) (arrived : List K) :
    due value (before ++ after) arrived = due value before arrived ++ due value after arrived := by
  rw [due, List.filter_append, List.map_append]
  rfl

/-- One taker alone: its meeting is due if its value has arrived. -/
theorem due_singleton (arrived : List K) (t : T) (k : K) :
    due value [(t, k)] arrived = if k ∈ arrived then [(t, k, value k)] else [] := by
  by_cases hk : k ∈ arrived <;> simp [due, hk]

/-- A value more, for a key to which nobody has come. -/
theorem due_keep {takes : List (T × K)} (arrived : List K) {k : K} (h : ∀ t, (t, k) ∉ takes) :
    due value takes (arrived ++ [k]) = due value takes arrived := by
  unfold due
  congr 1
  apply List.filter_congr
  intro x hx
  have hne : x.2 ≠ k := fun heq => h x.1 (heq ▸ hx)
  simp [hne]

/-- A value more, for the key of one taker. -/
theorem due_wake {takes : List (T × K)} {arrived : List K} {t : T} {k : K}
    (honce : (takes.map Prod.snd).Nodup) (hmem : (t, k) ∈ takes) (hk : k ∉ arrived) :
    (due value takes (arrived ++ [k])).Perm ((t, k, value k) :: due value takes arrived) := by
  rcases Once.split honce hmem with ⟨before, after, rfl, hbefore, hafter⟩
  have hmem' : k ∈ arrived ++ [k] := List.mem_append_right _ (List.mem_singleton_self k)
  have hcons : (t, k) :: after = [(t, k)] ++ after := rfl
  rw [hcons, due_append, due_append, due_append, due_append, due_singleton, due_singleton,
    due_keep arrived hbefore, due_keep arrived hafter, if_neg hk, if_pos hmem']
  exact List.perm_middle

/-- The meetings at a key that one taker has come to. -/
theorem due_filter {takes : List (T × K)} {arrived : List K} {t : T} {k : K}
    (honce : (takes.map Prod.snd).Nodup) (hmem : (t, k) ∈ takes) (hk : k ∈ arrived) :
    (due value takes arrived).filter (fun m => m.2.1 = k) = [(t, k, value k)] := by
  have hnone : ∀ l : List (T × K), (∀ t', (t', k) ∉ l) →
      (due value l arrived).filter (fun m => m.2.1 = k) = [] := by
    intro l hl
    rw [List.filter_eq_nil_iff]
    intro m hm heq
    rcases List.mem_map.mp hm with ⟨x, hx, rfl⟩
    have hxk : x.2 = k := of_decide_eq_true heq
    exact hl x.1 (hxk ▸ (List.mem_filter.mp hx).1)
  rcases Once.split honce hmem with ⟨before, after, rfl, hbefore, hafter⟩
  have hcons : (t, k) :: after = [(t, k)] ++ after := rfl
  rw [hcons, due_append, due_append, due_singleton, if_pos hk, List.filter_append,
    List.filter_append, hnone before hbefore, hnone after hafter]
  simp

theorem Settled.take (hR : Settled value R) {t : T} {k : K} (hk : k ∈ R.arrived) :
    Settled value { R with
      takes := R.takes ++ [(t, k)]
      stash := Function.update R.stash k none
      met := (t, k, value k) ::ₘ R.met } := by
  -- the key is spent: its value has arrived and is no longer kept
  refine { hR with fresh := ?_, waits := ?_, keeps := ?_, met := ?_ }
  · intro k' v' h' t' hmem
    simp only [Function.update_apply] at h'
    split at h'
    case isTrue => cases h'
    case isFalse hne =>
      rcases List.mem_append.mp hmem with hmem | hmem
      · exact hR.fresh k' v' h' t' hmem
      · exact hne (congrArg Prod.snd (List.mem_singleton.mp hmem))
  · intro t' k' hmem hk'
    rcases List.mem_append.mp hmem with hmem | hmem
    · exact hR.waits t' k' hmem hk'
    · cases List.mem_singleton.mp hmem
      exact absurd hk hk'
  · intro k' hk' hnone
    have hne : k' ≠ k := by
      intro heq
      exact hnone t (heq ▸ List.mem_append_right _ (List.mem_singleton_self _))
    have hkeep := hR.keeps k' hk' fun t' hmem => hnone t' (List.mem_append_left _ hmem)
    exact (Function.update_of_ne hne ..).trans hkeep
  · show (t, k, value k) ::ₘ R.met = _
    rw [due_append, due_singleton, if_pos hk, hR.met, Multiset.cons_coe, Multiset.coe_eq_coe]
    exact (List.perm_append_singleton _ _).symm

theorem Settled.wait (hR : Settled value R) {t : T} {k : K} (hk : R.stash k = none)
    (hnone : R.taker k = none) (hfresh : ∀ t', (t', k) ∉ R.takes) :
    Settled value { R with
      takes := R.takes ++ [(t, k)]
      taker := Function.update R.taker k (some t)
      dropped := (R.taker k).toList ++ R.dropped } := by
  have hout : k ∉ R.arrived := by
    intro hmem
    rw [hR.keeps k hmem hfresh] at hk
    cases hk
  refine ⟨?_, ?_, ?_, ?_, ?_, ?_⟩
  · show (R.taker k).toList ++ R.dropped = []
    rw [hnone, hR.dropped]
    rfl
  · intro k' t' h'
    by_cases hne : k' = k
    · exact hne ▸ hout
    · exact hR.waiting k' t' ((Function.update_of_ne hne ..).symm.trans h')
  · intro k' v' h' t' hmem
    rcases List.mem_append.mp hmem with hmem | hmem
    · exact hR.fresh k' v' h' t' hmem
    · cases List.mem_singleton.mp hmem
      cases h'.symm.trans hk
  · intro t' k' hmem hk'
    rcases List.mem_append.mp hmem with hmem | hmem
    · have hne : k' ≠ k := fun heq => hfresh t' (heq ▸ hmem)
      exact (Function.update_of_ne hne ..).trans (hR.waits t' k' hmem hk')
    · cases List.mem_singleton.mp hmem
      exact Function.update_self ..
  · intro k' hk' hnone
    exact hR.keeps k' hk' fun t' hmem => hnone t' (List.mem_append_left _ hmem)
  · show R.met = _
    rw [due_append, due_singleton, if_neg hout, List.append_nil]
    exact hR.met

theorem Settled.wake (hR : Settled value R) {t : T} {k : K} (honce : R.Once)
    (hmem : (t, k) ∈ R.takes) (hnew : k ∉ R.arrived) :
    Settled value { R with
      arrived := R.arrived ++ [k]
      taker := Function.update R.taker k none
      met := (t, k, value k) ::ₘ R.met } := by
  -- the taker leaves its place, and its meeting becomes due with the arrival
  refine { hR with waiting := ?_, waits := ?_, keeps := ?_, met := ?_ }
  · intro k' t' h' hk'
    simp only [Function.update_apply] at h'
    split at h'
    case isTrue => cases h'
    case isFalse hne =>
      rcases List.mem_append.mp hk' with hk' | hk'
      · exact hR.waiting k' t' h' hk'
      · exact hne (List.mem_singleton.mp hk')
  · intro t' k' hmem' hk'
    have hne : k' ≠ k := fun heq => hk' (List.mem_append_right _ (List.mem_singleton.mpr heq))
    have hwait := hR.waits t' k' hmem' fun h => hk' (List.mem_append_left _ h)
    exact (Function.update_of_ne hne ..).trans hwait
  · intro k' hk' hnone
    rcases List.mem_append.mp hk' with hk' | hk'
    · exact hR.keeps k' hk' hnone
    · exact absurd (List.mem_singleton.mp hk' ▸ hmem) (hnone t)
  · show (t, k, value k) ::ₘ R.met = _
    rw [hR.met, Multiset.cons_coe, Multiset.coe_eq_coe]
    exact (due_wake honce hmem hnew).symm

theorem Settled.keep (hR : Settled value R) {k : K} (ht : R.taker k = none)
    (hnew : k ∉ R.arrived) :
    Settled value { R with
      arrived := R.arrived ++ [k]
      stash := Function.update R.stash k (some (value k)) } := by
  have hnone : ∀ t, (t, k) ∉ R.takes := by
    intro t hmem
    rw [hR.waits t k hmem hnew] at ht
    cases ht
  -- nobody has come to the key, so the arrival makes no meeting due
  refine { hR with waiting := ?_, fresh := ?_, waits := ?_, keeps := ?_, met := ?_ }
  · intro k' t' h' hk'
    rcases List.mem_append.mp hk' with hk' | hk'
    · exact hR.waiting k' t' h' hk'
    · rw [List.mem_singleton.mp hk', ht] at h'
      cases h'
  · intro k' v' h' t' hmem
    by_cases hne : k' = k
    · exact hnone t' (hne ▸ hmem)
    · exact hR.fresh k' v' ((Function.update_of_ne hne ..).symm.trans h') t' hmem
  · exact fun t' k' hmem hk' => hR.waits t' k' hmem fun h => hk' (List.mem_append_left _ h)
  · intro k' hk' hfresh
    by_cases hne : k' = k
    · rw [hne]
      exact Function.update_self ..
    · have hmem := (List.mem_append.mp hk').resolve_right fun h => hne (List.mem_singleton.mp h)
      exact (Function.update_of_ne hne ..).trans (hR.keeps k' hmem hfresh)
  · show R.met = _
    rw [due_keep R.arrived hnone]
    exact hR.met

theorem Settled.step (hR : Settled value R) (hinv : Inv value R) (h : Step value R S)
    (hS : S.Once) : Settled value S := by
  have honce := Once.of_step h hS
  cases h with
  | @take t k v hv =>
    rw [(hinv.stash k v hv).1]
    exact hR.take (hinv.stash k v hv).2
  | @wait t k hk =>
    have hfresh := Once.fresh hS
    have hnone : R.taker k = none := by
      rcases ht : R.taker k with _ | t'
      · rfl
      · exact absurd (hinv.taker k t' ht) (hfresh t')
    -- the place is free: whoever stood there would have come to the key before
    exact hR.wait hk hnone hfresh
  | @wake t k hnew ht => exact hR.wake honce (hinv.taker k t ht) hnew
  | keep hnew ht => exact hR.keep ht hnew

/-! ## 4. One key -/

/-- The takers that have come to `k`, in order. -/
def comers (R : Rendezvous T K V) (k : K) : List T :=
  (R.takes.filter fun x => x.2 = k).map Prod.fst

/-- The meetings at `k`. -/
def metAt (R : Rendezvous T K V) (k : K) : Multiset (T × K × V) :=
  R.met.filter fun m => m.2.1 = k

/-- The takers at `k` are all served: before the value arrives they are waiting, afterwards each
has met it, and it is kept only while nobody has come. -/
structure Served (value : K → V) (R : Rendezvous T K V) (k : K) : Prop where
  waiting : k ∉ R.arrived → R.comers k = (R.taker k).toList ∧ R.stash k = none ∧ R.metAt k = 0
  arrived : k ∈ R.arrived → R.taker k = none ∧
    R.metAt k = ((R.comers k).map fun t => (t, k, value k) : List _) ∧
    R.stash k = if R.comers k = [] then some (value k) else none

theorem served_empty (value : K → V) (k : K) : Served value (empty : Rendezvous T K V) k := by
  constructor <;> simp [empty, comers, metAt]

/-- The steps at other keys. -/
theorem Served.of_eq (hR : Served value R k) (harrived : k ∈ S.arrived ↔ k ∈ R.arrived)
    (hcomers : S.comers k = R.comers k) (htaker : S.taker k = R.taker k)
    (hstash : S.stash k = R.stash k) (hmet : S.metAt k = R.metAt k) : Served value S k := by
  constructor
  · rw [harrived, hcomers, htaker, hstash, hmet]
    exact hR.waiting
  · rw [harrived, hcomers, htaker, hstash, hmet]
    exact hR.arrived

theorem comers_snoc (R : Rendezvous T K V) (t : T) (k k' : K) :
    ((R.takes ++ [(t, k')]).filter fun x => x.2 = k).map Prod.fst =
      if k' = k then R.comers k ++ [t] else R.comers k := by
  rw [List.filter_append, List.map_append]
  split
  case isTrue heq => simp [comers, heq]
  case isFalse hne => simp [comers, hne]

theorem metAt_cons (m : Multiset (T × K × V)) (t : T) (k k' : K) (v : V) :
    ((t, k', v) ::ₘ m).filter (fun m => m.2.1 = k) =
      if k' = k then (t, k', v) ::ₘ m.filter fun m => m.2.1 = k
      else m.filter fun m => m.2.1 = k := by
  split
  case isTrue heq => exact Multiset.filter_cons_of_pos m heq
  case isFalse hne => exact Multiset.filter_cons_of_neg m hne

/-- The value is kept, so this taker is the first. -/
theorem Served.take {t : T} {k : K} {v : V} (hR : Served value R k) (hv : R.stash k = some v) :
    Served value { R with
      takes := R.takes ++ [(t, k)]
      stash := Function.update R.stash k none
      met := (t, k, v) ::ₘ R.met } k := by
  have hin : k ∈ R.arrived := by
    by_contra hout
    rw [(hR.waiting hout).2.1] at hv
    cases hv
  rcases hR.arrived hin with ⟨htaker, hmet, hstash⟩
  have hnil : R.comers k = [] := by
    by_contra hne
    rw [hstash, if_neg hne] at hv
    cases hv
  have hval : v = value k := by
    rw [hstash, if_pos hnil] at hv
    exact (Option.some.inj hv).symm
  refine ⟨fun hout => absurd hin hout, fun _ => ⟨htaker, ?_, ?_⟩⟩
  · rw [metAt, metAt_cons, if_pos rfl, comers, comers_snoc, if_pos rfl, hnil, hval]
    rw [hnil] at hmet
    exact congrArg ((t, k, value k) ::ₘ ·) hmet
  · rw [comers, comers_snoc, if_pos rfl, hnil]
    exact Function.update_self ..

theorem Served.wait {t : T} {k : K} (hR : Served value R k) (hv : R.stash k = none)
    (hnil : R.comers k = []) :
    Served value { R with
      takes := R.takes ++ [(t, k)]
      taker := Function.update R.taker k (some t)
      dropped := (R.taker k).toList ++ R.dropped } k := by
  have hout : k ∉ R.arrived := by
    intro hin
    rw [(hR.arrived hin).2.2, if_pos hnil] at hv
    cases hv
  rcases hR.waiting hout with ⟨_, hstash, hmet⟩
  refine ⟨fun _ => ⟨?_, hstash, hmet⟩, fun hin => absurd hin hout⟩
  rw [comers, comers_snoc, if_pos rfl, hnil]
  show [t] = (Function.update R.taker k (some t) k).toList
  rw [Function.update_self]
  rfl

theorem Served.wake {t : T} {k : K} (hR : Served value R k) (hnew : k ∉ R.arrived)
    (ht : R.taker k = some t) :
    Served value { R with
      arrived := R.arrived ++ [k]
      taker := Function.update R.taker k none
      met := (t, k, value k) ::ₘ R.met } k := by
  rcases hR.waiting hnew with ⟨hcomers, hstash, hmet⟩
  rw [ht] at hcomers
  have hin : k ∈ R.arrived ++ [k] := List.mem_append_right _ (List.mem_singleton_self k)
  refine ⟨fun hout => absurd hin hout, fun _ => ⟨Function.update_self .., ?_, ?_⟩⟩
  · rw [metAt, metAt_cons, if_pos rfl]
    show (t, k, value k) ::ₘ R.metAt k =
      Multiset.ofList ((R.comers k).map fun t => (t, k, value k))
    rw [hmet, hcomers]
    rfl
  · show R.stash k = if R.comers k = [] then some (value k) else none
    rw [hstash, hcomers]
    rfl

theorem Served.keep {k : K} (hR : Served value R k) (hnew : k ∉ R.arrived)
    (ht : R.taker k = none) :
    Served value { R with
      arrived := R.arrived ++ [k]
      stash := Function.update R.stash k (some (value k)) } k := by
  rcases hR.waiting hnew with ⟨hcomers, hstash, hmet⟩
  rw [ht] at hcomers
  have hin : k ∈ R.arrived ++ [k] := List.mem_append_right _ (List.mem_singleton_self k)
  refine ⟨fun hout => absurd hin hout, fun _ => ⟨ht, ?_, ?_⟩⟩
  · show R.metAt k = Multiset.ofList ((R.comers k).map fun t => (t, k, value k))
    rw [hmet, hcomers]
    rfl
  · show Function.update R.stash k (some (value k)) k =
      if R.comers k = [] then some (value k) else none
    rw [Function.update_self, hcomers]
    rfl

/-- A key keeps its takers served as long as only one comes to it. -/
theorem Served.step {k : K} (hR : Served value R k) (h : Step value R S)
    (honce : S.comers k = R.comers k ∨ R.comers k = []) : Served value S k := by
  cases h with
  | @take t k' v hv =>
    by_cases hk : k' = k
    · subst hk
      exact hR.take hv
    · apply hR.of_eq
      · rfl
      · rw [comers, comers_snoc, if_neg hk]
      · rfl
      · exact Function.update_of_ne (Ne.symm hk) ..
      · rw [metAt, metAt_cons, if_neg hk]
        rfl
  | @wait t k' hv =>
    by_cases hk : k' = k
    · subst hk
      refine hR.wait hv (honce.resolve_left fun h => ?_)
      rw [comers, comers_snoc, if_pos rfl] at h
      exact absurd h (by simp)
    · apply hR.of_eq
      · rfl
      · rw [comers, comers_snoc, if_neg hk]
      · exact Function.update_of_ne (Ne.symm hk) ..
      · rfl
      · rfl
  | @wake t k' hnew ht =>
    by_cases hk : k' = k
    · subst hk
      exact hR.wake hnew ht
    · apply hR.of_eq
      · simp [Ne.symm hk]
      · rfl
      · exact Function.update_of_ne (Ne.symm hk) ..
      · rfl
      · rw [metAt, metAt_cons, if_neg hk]
        rfl
  | @keep k' hnew ht =>
    by_cases hk : k' = k
    · subst hk
      exact hR.keep hnew ht
    · apply hR.of_eq
      · simp [Ne.symm hk]
      · rfl
      · rfl
      · exact Function.update_of_ne (Ne.symm hk) ..
      · rfl

/-- A second taker drops the first or waits for a value that has been spent. -/
theorem Served.second {k : K} (hR : Served value R k) (h : Step value R S)
    (hnew : S.comers k ≠ R.comers k) (hne : R.comers k ≠ []) :
    (k ∉ S.arrived ∧ 2 ≤ (S.comers k).length) ∨ (k ∈ S.arrived ∧ S.taker k ≠ none) := by
  cases h with
  | @take t k' v hv =>
    by_cases hk : k' = k
    · subst hk
      -- a value that is kept has had no taker
      by_cases hin : k' ∈ R.arrived
      · rw [(hR.arrived hin).2.2, if_neg hne] at hv
        cases hv
      · rw [(hR.waiting hin).2.1] at hv
        cases hv
    · rw [comers, comers_snoc, if_neg hk] at hnew
      exact absurd rfl hnew
  | @wait t k' hv =>
    by_cases hk : k' = k
    · subst hk
      by_cases hin : k' ∈ R.arrived
      · refine Or.inr ⟨hin, ?_⟩
        show Function.update R.taker k' (some t) k' ≠ none
        rw [Function.update_self]
        exact Option.some_ne_none t
      · refine Or.inl ⟨hin, ?_⟩
        have hpos := List.length_pos_iff.mpr hne
        rw [comers, comers_snoc, if_pos rfl, List.length_append, List.length_singleton]
        omega
    · rw [comers, comers_snoc, if_neg hk] at hnew
      exact absurd rfl hnew
  | wake => exact absurd rfl hnew
  | keep => exact absurd rfl hnew

end Rendezvous
