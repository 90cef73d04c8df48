import Mathlib.Logic.Function.Basic
import Mathlib.Tactic.Common
import ChezAsync.Lib.Machine
import ChezAsync.Runtime.Accept

/-!
# The streams of `on_connection` (`runtime.cpp`)

`on_connection` allocates a stream before it knows whether `uv_accept` fails.  From then on the
stream is in the backlog of one listener, or an accept has got it, or it has been closed.
-/

namespace ChezAsync.Connections

open Accept

/-! ## 1. Where a stream is -/

/-- An accept has got the stream. -/
def Handed (s : State) (c : StreamId) : Prop :=
  ∃ t l, (t, l) ∈ s.accepts ∧ (t, (c : Int)) ∈ s.completed

/-- The ready connections of the listener at `l`. -/
def backlog (heap : Heap) (l : Addr) : List StreamId := (heap l).elim [] Listener.accepted

/-- A stream is allocated once, and it is in one place. -/
inductive Place (s : State) (c : StreamId) : Prop
  | unborn (hmem : c ∉ s.streams) (hback : ∀ l, (backlog s.heap l).count c = 0)
      (hdrop : s.dropped.count c = 0) (hhanded : ¬ Handed s c)
  | waiting (hmem : c ∈ s.streams) (l : Addr) (hin : (backlog s.heap l).count c = 1)
      (hback : ∀ l', l' ≠ l → (backlog s.heap l').count c = 0)
      (hdrop : s.dropped.count c = 0) (hhanded : ¬ Handed s c)
  | handed (hmem : c ∈ s.streams) (hback : ∀ l, (backlog s.heap l).count c = 0)
      (hdrop : s.dropped.count c = 0) (hhanded : Handed s c)
  | dropped (hmem : c ∈ s.streams) (hback : ∀ l, (backlog s.heap l).count c = 0)
      (hdrop : s.dropped.count c = 1) (hhanded : ¬ Handed s c)

structure Custody (s : State) : Prop where
  -- no address is 0, which is the result of a close task
  place : ∀ c, 0 < c → Place s c
  closing : ∀ l x, s.heap l = some x → x.handle.state ≠ .live → x.accepted = []
  parked : ∀ l x, s.heap l = some x → ∀ t ∈ x.pendingAccepts, (t, l) ∈ s.accepts
  accepts : ∀ t l, (t, l) ∈ s.accepts → t ∈ s.tasks
  close : ∀ l x t, s.heap l = some x → x.handle.closeTask = some t → t ∈ s.tasks
  completed : ∀ p ∈ s.completed, p.1 ∈ s.tasks

section
variable {s u v : State} {c : StreamId} {l : Addr} {x x' : Listener} {t : TaskId} {cs : Completions}

/-! ## 2. What a change of one listener does to a stream -/

theorem backlog_of_some {heap : Heap} (hx : heap l = some x) : backlog heap l = x.accepted := by
  rw [backlog, hx]
  rfl

theorem backlog_update (heap : Heap) (l l' : Addr) (o : Option Listener) :
    backlog (Function.update heap l o) l' =
      if l' = l then o.elim [] Listener.accepted else backlog heap l' := by
  by_cases hl : l' = l
  · rw [if_pos hl, hl, backlog, Function.update_self]
  · rw [if_neg hl, backlog, Function.update_of_ne hl, backlog]

theorem count_update {heap : Heap} {o : Option Listener}
    (h : (o.elim [] Listener.accepted).count c = (backlog heap l).count c) (l' : Addr) :
    (backlog (Function.update heap l o) l').count c = (backlog heap l').count c := by
  rw [backlog_update]
  split
  case isTrue heq => rw [h, heq]
  case isFalse => rfl

/-- An object of the new heap is the changed one or an old one. -/
theorem update_eq_some {heap : Heap} {o : Option Listener} {l' : Addr} {y : Listener}
    (hy : Function.update heap l o l' = some y) : (l' = l ∧ o = some y) ∨ heap l' = some y := by
  by_cases hl : l' = l
  · subst hl
    exact Or.inl ⟨rfl, (Function.update_self (f := heap) l' o).symm.trans hy⟩
  · exact Or.inr ((Function.update_of_ne hl o heap).symm.trans hy)

/-- The completions added give the stream to no accept. -/
theorem handed_append (haccepts : u.accepts = s.accepts)
    (hcompleted : u.completed = s.completed ++ cs)
    (hcs : ∀ p ∈ cs, p.2 = (c : Int) → ∀ l, (p.1, l) ∉ s.accepts) :
    Handed u c ↔ Handed s c := by
  unfold Handed
  rw [haccepts, hcompleted]
  constructor
  · rintro ⟨t, l, hacc, hmem⟩
    rcases List.mem_append.mp hmem with hmem | hmem
    · exact ⟨t, l, hacc, hmem⟩
    · exact absurd hacc (hcs _ hmem rfl l)
  · rintro ⟨t, l, hacc, hmem⟩
    exact ⟨t, l, hacc, List.mem_append_left _ hmem⟩

/-- The step does not concern the stream. -/
structure Same (s u : State) (c : StreamId) : Prop where
  streams : c ∈ u.streams ↔ c ∈ s.streams
  backlog : ∀ l, (backlog u.heap l).count c = (backlog s.heap l).count c
  dropped : u.dropped.count c = s.dropped.count c
  handed : Handed u c ↔ Handed s c

theorem Place.same (h : Place s c) (hsame : Same s u c) : Place u c := by
  cases h with
  | unborn hmem hback hdrop hhanded =>
    exact .unborn (mt hsame.streams.mp hmem) (fun l => (hsame.backlog l).trans (hback l))
      (hsame.dropped.trans hdrop) (mt hsame.handed.mp hhanded)
  | waiting hmem l hin hback hdrop hhanded =>
    exact .waiting (hsame.streams.mpr hmem) l ((hsame.backlog l).trans hin)
      (fun l' hne => (hsame.backlog l').trans (hback l' hne)) (hsame.dropped.trans hdrop)
      (mt hsame.handed.mp hhanded)
  | handed hmem hback hdrop hhanded =>
    exact .handed (hsame.streams.mpr hmem) (fun l => (hsame.backlog l).trans (hback l))
      (hsame.dropped.trans hdrop) (hsame.handed.mpr hhanded)
  | dropped hmem hback hdrop hhanded =>
    exact .dropped (hsame.streams.mpr hmem) (fun l => (hsame.backlog l).trans (hback l))
      (hsame.dropped.trans hdrop) (mt hsame.handed.mp hhanded)

/-- A stream of a backlog is nowhere else. -/
theorem Place.of_mem (h : Place s c) (hc : c ∈ backlog s.heap l) :
    c ∈ s.streams ∧ (backlog s.heap l).count c = 1 ∧
      (∀ l', l' ≠ l → (backlog s.heap l').count c = 0) ∧ s.dropped.count c = 0 ∧
      ¬ Handed s c := by
  have hpos := List.count_pos_iff.mpr hc
  cases h with
  | unborn _ hback => exact absurd (hback l) (Nat.ne_of_gt hpos)
  | handed _ hback => exact absurd (hback l) (Nat.ne_of_gt hpos)
  | dropped _ hback => exact absurd (hback l) (Nat.ne_of_gt hpos)
  | waiting hmem l' hin hback hdrop hhanded =>
    have heq : l = l' := by
      by_contra hne
      exact absurd (hback l hne) (Nat.ne_of_gt hpos)
    subst heq
    exact ⟨hmem, hin, hback, hdrop, hhanded⟩

/-- A stream that `on_connection` allocates: it is in none of the places yet. -/
structure Fresh (s : State) (c : StreamId) : Prop where
  backlog : ∀ l, (backlog s.heap l).count c = 0
  dropped : s.dropped.count c = 0
  handed : ¬ Handed s c

theorem Place.fresh (h : Place s c) (hc : c ∉ s.streams) : Fresh s c := by
  cases h with
  | unborn _ hback hdrop hhanded => exact ⟨hback, hdrop, hhanded⟩
  | waiting hmem => exact absurd hmem hc
  | handed hmem => exact absurd hmem hc
  | dropped hmem => exact absurd hmem hc

/-! ## 3. Steps -/

variable (cs) in
/-- One listener changes, and tasks of the runtime are completed. -/
theorem Custody.change (hs : Custody s) {o : Option Listener}
    (hheap : u.heap = Function.update s.heap l o) (hcompleted : u.completed = s.completed ++ cs)
    (htasks : u.tasks = s.tasks) (hold : ∀ p ∈ s.accepts, p ∈ u.accepts)
    (haccepts : ∀ p ∈ u.accepts, p.1 ∈ s.tasks) (hcs : ∀ p ∈ cs, p.1 ∈ s.tasks)
    (ho : ∀ y, o = some y → (y.handle.state ≠ .live → y.accepted = []) ∧
      (∀ t ∈ y.pendingAccepts, (t, l) ∈ u.accepts) ∧
      ∀ t, y.handle.closeTask = some t → t ∈ s.tasks)
    (hplace : ∀ c, 0 < c → Place u c) : Custody u := by
  refine ⟨hplace, fun l' y hy => ?_, fun l' y hy => ?_, fun t l' ht => ?_, fun l' y t hy ht => ?_,
    fun p hp => ?_⟩
  · rw [hheap] at hy
    rcases update_eq_some hy with ⟨-, hnew⟩ | hold
    · exact (ho y hnew).1
    · exact hs.closing l' y hold
  · rw [hheap] at hy
    rcases update_eq_some hy with ⟨rfl, hnew⟩ | hkept
    · exact (ho y hnew).2.1
    · exact fun t ht => hold _ (hs.parked l' y hkept t ht)
  · exact htasks ▸ haccepts _ ht
  · rw [hheap] at hy
    rcases update_eq_some hy with ⟨-, hnew⟩ | hold
    · exact htasks ▸ (ho y hnew).2.2 t ht
    · exact htasks ▸ hs.close l' y t hold ht
  · rw [hcompleted] at hp
    rcases List.mem_append.mp hp with hp | hp
    · exact htasks ▸ hs.completed p hp
    · exact htasks ▸ hcs p hp

theorem custody_dispatch (hs : Custody s) (t : TaskId) :
    Custody { s with tasks := t :: s.tasks } :=
  ⟨fun c hc => (hs.place c hc).same ⟨Iff.rfl, fun _ => rfl, rfl, Iff.rfl⟩, hs.closing, hs.parked,
    fun t' l h => List.mem_cons_of_mem t (hs.accepts t' l h),
    fun l x t' hx h => List.mem_cons_of_mem t (hs.close l x t' hx h),
    fun p hp => List.mem_cons_of_mem t (hs.completed p hp)⟩

/-- A completion of a task that is no accept, or with a code. -/
theorem custody_complete (hs : Custody s) {r : Int} (ht : t ∈ s.tasks)
    (hr : r ≤ 0 ∨ ∀ l, (t, l) ∉ s.accepts) :
    Custody { s with completed := s.completed ++ [(t, r)] } := by
  refine ⟨fun c hc => (hs.place c hc).same ⟨Iff.rfl, fun _ => rfl, rfl, ?_⟩, hs.closing, hs.parked,
    hs.accepts, hs.close, fun p hp => ?_⟩
  · refine handed_append rfl rfl fun p hp heq l => ?_
    rw [List.mem_singleton.mp hp] at heq ⊢
    rcases hr with hr | hr
    · have hpos : 0 < (c : Int) := Int.natCast_pos.mpr hc
      exact absurd (heq ▸ hr) (Int.not_le.mpr hpos)
    · exact hr l
  · rcases List.mem_append.mp hp with hp | hp
    · exact hs.completed p hp
    · rw [List.mem_singleton.mp hp]
      exact ht

theorem custody_tcpListen (hs : Custody s) {rc : Int} (ht : t ∈ s.tasks)
    (hacc : ∀ l', (t, l') ∉ s.accepts) (hl : s.heap l = none) :
    Custody (tcpListen s t l rc) := by
  have hback : backlog s.heap l = [] := by rw [backlog, hl, Option.elim_none]
  have hplace : ∀ (y : Listener) (r : Int) (u : State), y.accepted = [] →
      u.streams = s.streams → u.dropped = s.dropped → u.accepts = s.accepts →
      u.heap = Function.update s.heap l (some y) → u.completed = s.completed ++ [(t, r)] →
      ∀ c, 0 < c → Place u c := by
    intro y r u hy hstreams hdropped haccepts hheap hcompleted c hc
    refine (hs.place c hc).same ⟨hstreams ▸ Iff.rfl, ?_, hdropped ▸ rfl, ?_⟩
    · rw [hheap]
      refine count_update ?_
      rw [Option.elim_some, hy, hback]
    · refine handed_append haccepts hcompleted fun p hp _ l' => ?_
      rw [List.mem_singleton.mp hp]
      exact hacc l'
  have hcs : ∀ (r : Int), ∀ p ∈ [(t, r)], p.1 ∈ s.tasks := by
    intro r p hp
    rw [List.mem_singleton.mp hp]
    exact ht
  unfold tcpListen
  split
  · refine hs.change _ rfl rfl rfl (fun _ => id) (fun p => hs.accepts p.1 p.2) (hcs rc) ?_
      (hplace _ rc _ rfl rfl rfl rfl rfl rfl)
    intro y hy
    cases hy
    exact ⟨fun _ => rfl, (fun _ h => by cases h), (fun _ h => by cases h)⟩
  · refine hs.change _ rfl rfl rfl (fun _ => id) (fun p => hs.accepts p.1 p.2) (hcs l) ?_
      (hplace _ l _ rfl rfl rfl rfl rfl rfl)
    intro y hy
    cases hy
    exact ⟨fun _ => rfl, (fun _ h => by cases h), (fun _ h => by cases h)⟩

/-- The streams of the backlog are closed, the others stay where they are. -/
theorem custody_abortListener (hs : Custody s) (l : Addr) {closeTask : Option TaskId}
    (hct : ∀ t, closeTask = some t → t ∈ s.tasks) : Custody (abortListener s l closeTask) := by
  rcases hx : s.heap l with _ | x
  · rw [abortListener, hx]
    exact hs
  · have hcanceled : ∀ c, 0 < c → ∀ p ∈ x.pendingAccepts.map fun p => (p, UV_ECANCELED),
        p.2 = ((c : Nat) : Int) → ∀ l, (p.1, l) ∉ s.accepts := by
      intro c hc p hp heq
      rcases List.mem_map.mp hp with ⟨t, -, rfl⟩
      have hcode : UV_ECANCELED = (c : Int) := heq
      have hpos : 0 < UV_ECANCELED := hcode ▸ Int.natCast_pos.mpr hc
      exact absurd hpos (by decide)
    simp only [abortListener, hx]
    refine hs.change _ rfl rfl rfl (fun _ => id) (fun p => hs.accepts p.1 p.2) ?_ ?_ ?_
    · intro p hp
      rcases List.mem_map.mp hp with ⟨t, ht, rfl⟩
      exact hs.accepts t l (hs.parked l x hx t ht)
    · intro y hy
      cases hy
      exact ⟨fun _ => rfl, (fun _ h => by cases h), hct⟩
    · intro c hc
      have hhanded := handed_append (s := s) (c := c) (u := abortListener s l closeTask)
        (by rw [abortListener, hx]) (by rw [abortListener, hx]) (hcanceled c hc)
      simp only [abortListener, hx] at hhanded
      by_cases hmem : c ∈ x.accepted
      · -- closed now
        have hb : c ∈ backlog s.heap l := (backlog_of_some hx).symm ▸ hmem
        rcases (hs.place c hc).of_mem hb with ⟨hstreams, hin, hback, hdrop, hnot⟩
        refine .dropped hstreams (fun l' => ?_) ?_ (mt hhanded.mp hnot)
        · show (backlog (Function.update s.heap l _) l').count c = 0
          rw [backlog_update]
          split
          · rfl
          case isFalse hne => exact hback l' hne
        · show (x.accepted ++ s.dropped).count c = 1
          rw [List.count_append, hdrop, ← backlog_of_some hx, hin]
      · have hzero := List.count_eq_zero.mpr hmem
        refine (hs.place c hc).same ⟨Iff.rfl, ?_, ?_, hhanded⟩
        · refine count_update ?_
          rw [backlog_of_some hx, hzero]
          rfl
        · show (x.accepted ++ s.dropped).count c = _
          rw [List.count_append, hzero, Nat.zero_add]

variable (cs) in
/-- The queues of a listener change: its handle is the same. -/
theorem Custody.queues (hs : Custody s) (hx : s.heap l = some x) (accepted : List StreamId)
    (pendingAccepts : List TaskId) (hheap : u.heap = Function.update s.heap l
      (some { x with accepted := accepted, pendingAccepts := pendingAccepts }))
    (hcompleted : u.completed = s.completed ++ cs) (htasks : u.tasks = s.tasks)
    (hold : ∀ p ∈ s.accepts, p ∈ u.accepts) (haccepts : ∀ p ∈ u.accepts, p.1 ∈ s.tasks)
    (hcs : ∀ p ∈ cs, p.1 ∈ s.tasks) (hclosing : x.handle.state ≠ .live → accepted = [])
    (hparked : ∀ t ∈ pendingAccepts, (t, l) ∈ u.accepts) (hplace : ∀ c, 0 < c → Place u c) :
    Custody u := by
  refine hs.change cs hheap hcompleted htasks hold haccepts hcs ?_ hplace
  intro y hy
  cases hy
  exact ⟨hclosing, hparked, fun t ht => hs.close l x t hx ht⟩

theorem count_snoc_of_ne {ds : List StreamId} {d : StreamId} (h : c ≠ d) :
    (ds ++ [d]).count c = ds.count c := by
  rw [List.count_append, List.count_singleton, if_neg (by simpa using h.symm), Nat.add_zero]

theorem count_cons_other {ds : List StreamId} {d : StreamId} (h : c ≠ d) :
    (d :: ds).count c = ds.count c := by
  rw [List.count_cons, if_neg (by simpa using h.symm), Nat.add_zero]

theorem mem_cons_of_ne {d : StreamId} {ds : List StreamId} (hne : c ≠ d) : c ∈ d :: ds ↔ c ∈ ds :=
  List.mem_cons.trans (or_iff_right hne)

/-- `uv_accept` has failed. -/
theorem custody_acceptFailed (hs : Custody s) {d : StreamId} (hd : Fresh s d) :
    Custody { s with streams := d :: s.streams, dropped := d :: s.dropped } := by
  refine { hs with place := fun c hc => ?_ }
  by_cases hne : c = d
  · subst hne
    refine .dropped List.mem_cons_self hd.backlog ?_ hd.handed
    show (c :: s.dropped).count c = 1
    rw [List.count_cons_self, hd.dropped]
  · exact (hs.place c hc).same
      ⟨mem_cons_of_ne hne, fun _ => rfl, count_cons_other hne, Iff.rfl⟩

/-- The first parked accept gets the stream. -/
theorem custody_handOver (hs : Custody s) {d : StreamId} (hd : Fresh s d) (hx : s.heap l = some x)
    {ts : List TaskId} (hpend : x.pendingAccepts = t :: ts) :
    Custody { s with
      heap := Function.update s.heap l (some { x with pendingAccepts := ts })
      completed := s.completed ++ [(t, (d : Int))], streams := d :: s.streams } := by
  have hpark := hs.parked l x hx
  rw [hpend] at hpark
  have hacc := hpark t List.mem_cons_self
  refine hs.queues [(t, (d : Int))] hx x.accepted ts rfl rfl rfl (fun _ => id)
    (fun p => hs.accepts p.1 p.2) ?_ (hs.closing l x hx)
    (fun t' ht' => hpark t' (List.mem_cons_of_mem t ht')) ?_
  · intro p hp
    rw [List.mem_singleton.mp hp]
    exact hs.accepts t l hacc
  · intro c hc
    have hcount : ∀ l', (backlog (Function.update s.heap l
        (some { x with pendingAccepts := ts })) l').count c = (backlog s.heap l').count c := by
      refine count_update ?_
      rw [backlog_of_some hx]
      rfl
    by_cases hne : c = d
    · subst hne
      refine .handed List.mem_cons_self (fun l' => (hcount l').trans (hd.backlog l')) hd.dropped ?_
      exact ⟨t, l, hacc, List.mem_append_right _ (List.mem_singleton_self _)⟩
    · refine (hs.place c hc).same ⟨mem_cons_of_ne hne, hcount, rfl, ?_⟩
      refine handed_append rfl rfl fun p hp heq => ?_
      rw [List.mem_singleton.mp hp] at heq
      exact absurd (Int.ofNat_inj.mp heq).symm hne

/-- No accept waits: the stream goes to the end of the backlog. -/
theorem custody_keep (hs : Custody s) {d : StreamId} (hd : Fresh s d) (hx : s.heap l = some x)
    (hlive : x.handle.state = .live) :
    Custody { s with
      heap := Function.update s.heap l (some { x with accepted := x.accepted ++ [d] })
      streams := d :: s.streams } := by
  refine hs.queues [] hx (x.accepted ++ [d]) x.pendingAccepts rfl (List.append_nil _).symm rfl
    (fun _ => id) (fun p => hs.accepts p.1 p.2) (fun _ h => by cases h) (fun h => absurd hlive h)
    (hs.parked l x hx) ?_
  intro c hc
  by_cases hne : c = d
  · subst hne
    refine .waiting List.mem_cons_self l ?_ (fun l' hl' => ?_) hd.dropped hd.handed
    · show (backlog (Function.update s.heap l _) l).count c = 1
      rw [backlog_update, if_pos rfl, Option.elim_some, List.count_append, ← backlog_of_some hx,
        hd.backlog, List.count_singleton_self]
    · show (backlog (Function.update s.heap l _) l').count c = 0
      rw [backlog_update, if_neg hl']
      exact hd.backlog l'
  · refine (hs.place c hc).same ⟨mem_cons_of_ne hne, ?_, rfl, Iff.rfl⟩
    refine count_update ?_
    rw [Option.elim_some, count_snoc_of_ne hne, backlog_of_some hx]

theorem custody_onConnection (hs : Custody s) {status acceptRc : Int} {d : StreamId}
    (hx : s.heap l = some x) (hlive : x.handle.state = .live) (hnew : d ∉ s.streams)
    (hpos : 0 < d) : Custody (onConnection s l x status d acceptRc) := by
  have hd := (hs.place d hpos).fresh hnew
  unfold onConnection
  split
  · exact hs
  · dsimp only
    split
    · exact custody_acceptFailed hs hd
    · split
      case h_1 t ts hpend => exact custody_handOver hs hd hx hpend
      case h_2 => exact custody_keep hs hd hx hlive

variable (cs) in
/-- A new accept and what it completes with. -/
theorem handed_accept (hfresh : ∀ r, (t, r) ∉ s.completed)
    (haccepts : u.accepts = (t, l) :: s.accepts) (hcompleted : u.completed = s.completed ++ cs)
    (hcs : ∀ p ∈ cs, p.1 = t) : Handed u c ↔ Handed s c ∨ (t, (c : Int)) ∈ cs := by
  unfold Handed
  rw [haccepts, hcompleted]
  constructor
  · rintro ⟨t', l', hacc, hmem⟩
    rcases List.mem_append.mp hmem with hold | hnew
    · have hne : t' ≠ t := fun heq => hfresh _ (heq ▸ hold)
      refine Or.inl ⟨t', l', (List.mem_cons.mp hacc).resolve_left ?_, hold⟩
      exact fun heq => hne (Prod.mk.inj heq).1
    · have heq : t' = t := hcs _ hnew
      exact Or.inr (heq ▸ hnew)
  · rintro (⟨t', l', hacc, hmem⟩ | hmem)
    · exact ⟨t', l', List.mem_cons_of_mem _ hacc, List.mem_append_left _ hmem⟩
    · exact ⟨t, l, List.mem_cons_self, List.mem_append_right _ hmem⟩

/-- A new accept that is not served. -/
theorem handed_parked (hfresh : ∀ r, (t, r) ∉ s.completed)
    (haccepts : u.accepts = (t, l) :: s.accepts) (hcompleted : u.completed = s.completed) :
    Handed u c ↔ Handed s c := by
  have h := handed_accept (c := c) [] hfresh haccepts
    (hcompleted.trans (List.append_nil _).symm) (fun _ h => by cases h)
  exact h.trans (or_iff_left List.not_mem_nil)

/-- The accept gets the first stream of the backlog. -/
theorem custody_serve (hs : Custody s) (ht : t ∈ s.tasks) (hfresh : ∀ r, (t, r) ∉ s.completed)
    (haccepts : ∀ p ∈ (t, l) :: s.accepts, p.1 ∈ s.tasks) (hx : s.heap l = some x)
    {d : StreamId} {ds : List StreamId} (hcons : x.accepted = d :: ds) :
    Custody { s with
      heap := Function.update s.heap l (some { x with accepted := ds })
      completed := s.completed ++ [(t, (d : Int))], accepts := (t, l) :: s.accepts } := by
  have hback : backlog s.heap l = d :: ds := (backlog_of_some hx).trans hcons
  have hcs : ∀ p ∈ [(t, (d : Int))], p.1 = t := by
    intro p hp
    rw [List.mem_singleton.mp hp]
  refine hs.queues [(t, (d : Int))] hx ds x.pendingAccepts rfl rfl rfl
    (fun p hp => List.mem_cons_of_mem _ hp) haccepts (fun p hp => (hcs p hp).symm ▸ ht)
    (fun hne => ?_) (fun t' ht' => List.mem_cons_of_mem _ (hs.parked l x hx t' ht'))
    fun c hc => ?_
  · have hnil := hs.closing l x hx hne
    rw [hcons] at hnil
    cases hnil
  · have hhanded := handed_accept (s := s) (c := c)
      (u := { s with
        heap := Function.update s.heap l (some { x with accepted := ds })
        completed := s.completed ++ [(t, (d : Int))], accepts := (t, l) :: s.accepts })
      [(t, (d : Int))] hfresh rfl rfl hcs
    by_cases hne : c = d
    · subst hne
      have hmem : c ∈ backlog s.heap l := hback ▸ List.mem_cons_self
      rcases (hs.place c hc).of_mem hmem with ⟨hstreams, hin, hother, hdrop, -⟩
      refine .handed hstreams (fun l' => ?_) hdrop
        (hhanded.mpr (Or.inr (List.mem_singleton_self _)))
      show (backlog (Function.update s.heap l _) l').count c = 0
      rw [backlog_update]
      split
      · rw [hback, List.count_cons_self] at hin
        exact Nat.succ.inj hin
      case isFalse hl' => exact hother l' hl'
    · refine (hs.place c hc).same ⟨Iff.rfl, count_update ?_, rfl, hhanded.trans ?_⟩
      · rw [hback, count_cons_other hne]
        rfl
      · refine or_iff_left fun hmem => hne ?_
        exact Int.ofNat_inj.mp (Prod.mk.inj (List.mem_singleton.mp hmem)).2

theorem custody_tcpAccept (hs : Custody s) (ht : t ∈ s.tasks)
    (hfresh : ∀ r, (t, r) ∉ s.completed) :
    Custody { tcpAccept s t l with accepts := (t, l) :: s.accepts } := by
  have haccepts : ∀ p ∈ (t, l) :: s.accepts, p.1 ∈ s.tasks := by
    intro p hp
    rcases List.mem_cons.mp hp with rfl | hp
    · exact ht
    · exact hs.accepts p.1 p.2 hp
  have hold : ∀ p ∈ s.accepts, p ∈ (t, l) :: s.accepts := fun p hp => List.mem_cons_of_mem _ hp
  unfold tcpAccept
  split
  case h_1 hx =>
    refine hs.change (o := s.heap l) (l := l) [] (Function.update_eq_self l s.heap).symm
      (List.append_nil _).symm rfl hold haccepts (fun _ h => by cases h) ?_ fun c hc =>
        (hs.place c hc).same ⟨Iff.rfl, fun _ => rfl, rfl, handed_parked hfresh rfl rfl⟩
    intro y hy
    cases hx.symm.trans hy
  case h_2 x hx =>
    split
    case h_1 d ds hcons => exact custody_serve hs ht hfresh haccepts hx hcons
    case h_2 hnil =>
      refine hs.queues [] hx x.accepted (x.pendingAccepts ++ [t]) rfl (List.append_nil _).symm rfl
        hold haccepts (fun _ h => by cases h) (fun _ => hnil) ?_ fun c hc =>
          (hs.place c hc).same ⟨Iff.rfl, count_update ?_, rfl, handed_parked hfresh rfl rfl⟩
      · intro t' ht'
        rcases List.mem_append.mp ht' with ht' | ht'
        · exact hold _ (hs.parked l x hx t' ht')
        · rw [List.mem_singleton.mp ht']
          exact List.mem_cons_self
      · rw [backlog_of_some hx]
        rfl

theorem custody_listenerClose (hs : Custody s) (ht : t ∈ s.tasks) (l : Addr) :
    Custody (listenerClose s t l) := by
  unfold listenerClose
  split
  · have hs' : Custody { s with listeners := s.listeners.erase l } := { hs with
      place := fun c hc => (hs.place c hc).same ⟨Iff.rfl, fun _ => rfl, rfl, Iff.rfl⟩ }
    refine custody_abortListener hs' l fun t' heq => ?_
    cases heq
    exact ht
  · exact custody_complete hs ht (Or.inl (Int.le_refl 0))

theorem custody_onClosed (hs : Custody s) (hx : s.heap l = some x)
    (hclosing : x.handle.state = .closing) : Custody { s with
      heap := Function.update s.heap l none
      completed := s.completed ++ x.handle.onClosed.2 } := by
  have hnil : x.accepted = [] := by
    refine hs.closing l x hx ?_
    rw [hclosing]
    decide
  -- the object is deleted first
  have hdeleted : Custody { s with heap := Function.update s.heap l none } := by
    refine hs.change [] rfl (List.append_nil _).symm rfl (fun _ => id)
      (fun p => hs.accepts p.1 p.2) (fun _ h => by cases h) (fun _ h => by cases h) fun c hc => ?_
    refine (hs.place c hc).same ⟨Iff.rfl, count_update ?_, rfl, Iff.rfl⟩
    rw [backlog_of_some hx, hnil]
    rfl
  rcases hct : x.handle.closeTask with _ | t
  · simp only [LoopHandle.onClosed, hct, List.append_nil]
    exact hdeleted
  · simp only [LoopHandle.onClosed, hct]
    exact custody_complete hdeleted (hs.close l x t hx hct) (Or.inl (Int.le_refl 0))

theorem custody_onSignal (hs : Custody s) (signum : Int) (order : List Addr) :
    Custody (onSignal s signum order) := by
  -- the flags and the registry are no part of it
  have hcongr : ∀ {u v : State}, Custody u → v.heap = u.heap → v.completed = u.completed →
      v.accepts = u.accepts → v.tasks = u.tasks → v.streams = u.streams →
      v.dropped = u.dropped → Custody v := by
    intro u v hu hheap hcompleted haccepts htasks hstreams hdropped
    refine hu.change (o := u.heap 0) (l := 0) []
      (hheap.trans (Function.update_eq_self 0 u.heap).symm)
      (hcompleted.trans (List.append_nil _).symm) htasks (fun p hp => haccepts.symm ▸ hp)
      (fun p hp => hu.accepts p.1 p.2 (haccepts ▸ hp)) (fun _ h => by cases h) ?_ ?_
    · intro y hy
      exact ⟨hu.closing 0 y hy, fun t ht => haccepts.symm ▸ hu.parked 0 y hy t ht,
        fun t ht => hu.close 0 y t hy ht⟩
    · intro c hc
      refine (hu.place c hc).same ⟨hstreams ▸ Iff.rfl, fun l => by rw [hheap], by rw [hdropped], ?_⟩
      unfold Handed
      rw [haccepts, hcompleted]
  unfold onSignal
  split
  · exact hcongr hs rfl rfl rfl rfl rfl rfl
  · have hfold : ∀ (u : State), Custody u →
        Custody (order.foldl (fun s l => abortListener s l none) u) := by
      induction order with
      | nil => exact fun _ hu => hu
      | cons l order ih =>
        exact fun u hu => ih _ (custody_abortListener hu l fun _ h => by cases h)
    refine hcongr (hfold _ (hcongr (v := { s with
      shutdownSignaled := true, shutdownSignum := signum }) hs rfl rfl rfl rfl rfl rfl))
      rfl rfl rfl rfl rfl rfl

/-! ## 4. Every run -/

theorem custody_step {a : Action} (hs : Custody s) (h : step s a = some u) : Custody u := by
  cases (step_cases h).2 with
  | @tcpListen t l rc ht hl =>
    exact custody_tcpListen (custody_dispatch hs t) List.mem_cons_self
      (fun l' hacc => ht (hs.accepts t l' hacc)) hl
  | onConnection hx hlive hpos hnew => exact custody_onConnection hs hx hlive hnew hpos
  | @tcpAccept t l ht =>
    exact custody_tcpAccept (custody_dispatch hs t) List.mem_cons_self
      fun r hmem => ht (hs.completed _ hmem)
  | @listenerClose t l ht =>
    exact custody_listenerClose (custody_dispatch hs t) List.mem_cons_self l
  | onClosed hx hclosing => exact custody_onClosed hs hx hclosing
  | onSignal => exact custody_onSignal hs _ _

theorem custody_init : Custody machine.init := by
  refine ⟨fun c _ => .unborn List.not_mem_nil (fun _ => rfl) rfl ?_, (fun _ _ h => by cases h),
    (fun _ _ h => by cases h), (fun _ _ h => by cases h), (fun _ _ _ h => by cases h),
    (fun _ h => by cases h)⟩
  rintro ⟨t, l, hacc, -⟩
  cases hacc

theorem custody_reachable (h : machine.Reachable s) : Custody s :=
  h.invariant custody_init fun _ _ _ _ hs hstep => custody_step hs hstep

theorem mem_dropped_abort (o : Option TaskId) (hc : c ∈ s.dropped) (l : Addr) :
    c ∈ (abortListener s l o).dropped := by
  unfold abortListener
  split
  · exact hc
  · exact List.mem_append_right _ hc

theorem mem_dropped_foldl (order : List Addr) (hc : c ∈ s.dropped) :
    c ∈ (order.foldl (fun s l => abortListener s l none) s).dropped := by
  induction order generalizing s with
  | nil => exact hc
  | cons l order ih => exact ih (mem_dropped_abort none hc l)

/-- What is closed remains closed. -/
theorem mem_dropped_step {a : Action} (h : step s a = some u) (hc : c ∈ s.dropped) :
    c ∈ u.dropped := by
  cases (step_cases h).2 with
  | tcpListen =>
    unfold tcpListen
    split <;> exact hc
  | onConnection =>
    unfold onConnection
    split
    · exact hc
    · dsimp only
      split
      · exact List.mem_cons_of_mem _ hc
      · split <;> exact hc
  | tcpAccept =>
    unfold tcpAccept
    split
    · exact hc
    · split <;> exact hc
  | listenerClose =>
    unfold listenerClose
    split
    · apply mem_dropped_abort
      exact hc
    · exact hc
  | onClosed => exact hc
  | onSignal =>
    unfold onSignal
    split
    · exact hc
    · apply mem_dropped_foldl
      exact hc

/-- The stream of a failed `uv_accept` is closed once, no listener has it and no accept gets it. -/
theorem Place.of_dropped (h : Place s c) (hc : c ∈ s.dropped) :
    s.dropped.count c = 1 ∧ (∀ l, c ∉ backlog s.heap l) ∧ ¬ Handed s c := by
  have hpos := Nat.ne_of_gt (List.count_pos_iff.mpr hc)
  cases h with
  | unborn _ _ hdrop => exact absurd hdrop hpos
  | waiting _ _ _ _ hdrop => exact absurd hdrop hpos
  | handed _ _ hdrop => exact absurd hdrop hpos
  | dropped _ hback hdrop hhanded =>
    exact ⟨hdrop, fun l => List.count_eq_zero.mp (hback l), hhanded⟩

theorem Place.of_handed (h : Place s c) (hc : Handed s c) :
    c ∉ s.dropped ∧ ∀ l, c ∉ backlog s.heap l := by
  cases h with
  | unborn _ _ _ hnot => exact absurd hc hnot
  | waiting _ _ _ _ _ hnot => exact absurd hc hnot
  | dropped _ _ _ hnot => exact absurd hc hnot
  | handed _ hback hdrop =>
    exact ⟨List.count_eq_zero.mp hdrop, fun l => List.count_eq_zero.mp (hback l)⟩

/-! ## 5. One call of `on_connection` -/

/-- What a call of `on_connection` with the stream `c` on the listener at `l` has made of the
state `s`. -/
inductive Connected (s : State) (l : Addr) (c : StreamId) (u : State) : Int → Int → Prop
  /-- No stream is allocated. -/
  | status {status acceptRc : Int} (hstatus : status < 0) (hu : u = s) :
      Connected s l c u status acceptRc
  | acceptFailed {status acceptRc : Int} (hstatus : 0 ≤ status) (hrc : acceptRc ≠ 0)
      (hu : u = { s with streams := c :: s.streams, dropped := c :: s.dropped }) :
      Connected s l c u status acceptRc
  | handed {status : Int} (hstatus : 0 ≤ status) (t : TaskId) (hacc : (t, l) ∈ s.accepts)
      (hdropped : u.dropped = s.dropped) (hlisteners : u.listeners = s.listeners)
      (hcompleted : u.completed = s.completed ++ [(t, (c : Int))]) (hhanded : Handed u c) :
      Connected s l c u status 0
  | kept {status : Int} (hstatus : 0 ≤ status) (hdropped : u.dropped = s.dropped)
      (hlisteners : u.listeners = s.listeners) (hcompleted : u.completed = s.completed)
      (hback : backlog u.heap l = backlog s.heap l ++ [c]) : Connected s l c u status 0

theorem connected {status acceptRc : Int} (hs : Custody s)
    (h : step s (.onConnection l status c acceptRc) = some u) :
    Connected s l c u status acceptRc := by
  cases (step_cases h).2 with
  | @onConnection _ x _ _ _ hx hlive hpos hnew =>
    unfold onConnection
    split
    case isTrue hstatus => exact .status hstatus rfl
    case isFalse hstatus =>
      have hstatus := Int.not_lt.mp hstatus
      dsimp only
      split
      case isTrue hrc => exact .acceptFailed hstatus hrc rfl
      case isFalse hrc =>
        rw [not_not.mp hrc]
        split
        case h_1 t ts hpend =>
          have hacc := hs.parked l x hx t (hpend ▸ List.mem_cons_self)
          exact .handed hstatus t hacc rfl rfl rfl
            ⟨t, l, hacc, List.mem_append_right _ (List.mem_singleton_self _)⟩
        case h_2 =>
          refine .kept hstatus rfl rfl rfl ?_
          rw [backlog_update, if_pos rfl, backlog_of_some hx]
          rfl

end

end ChezAsync.Connections
