import Mathlib.Data.List.Induction
import Mathlib.Data.List.Nodup
import Mathlib.Data.List.Perm.Basic
import Mathlib.Tactic.Common
import ChezAsync.Lib.Machine
import ChezAsync.Runtime.OneShot
import ChezAsync.Runtime.Connections

/-!
# Operations that create handles (`runtime.cpp`)

An operation that creates a handle hands it out, with all that belongs to it, or closes everything
it has allocated.  This is about the tasks of `Runtime.OneShot`, between whose dispatch and callback
anything else may run; for the streams of `on_connection` it is in `Runtime.Connections`.
-/

namespace ChezAsync.Handles

open OneShot

/-! ## 1. What an operation allocates -/

def creates : Op → Bool
  | .tcpConnect => true
  | .tcpListen => true
  | .procSpawn => true
  | .fsWatchOpen => true
  | .stdioOpen => true
  | _ => false

/-- What belongs to the handle `p` of the task, and `p` itself. -/
def made (t : Task) (p : Address) : List (OneShot.Class × Address) :=
  match t.op with
  | .tcpConnect => [(.stream, p)]
  | .tcpListen => [(.listener, p)]
  | .procSpawn =>
      (.process, p) ::
        if t.stdioMode = 1 then [(.stream, p + 1), (.stream, p + 2), (.stream, p + 3)] else []
  | .fsWatchOpen => [(.watcher, p)]
  | .stdioOpen => [(.stream, p)]
  | _ => []

/-- The objects allocated for a task. -/
def objectsOf (s : State) (t : TaskId) : List (OneShot.Class × Address) :=
  (s.objects.zipIdx 1).filterMap fun x => if x.1.2 = t then some (x.1.1, x.2) else none

/-- The address of the next object. -/
def next (s : State) : Address := s.objects.length + 1

/-- The objects of the task are allocated. -/
def put (s : State) (t : Task) : State :=
  { s with objects := s.objects ++ (made t (next s)).map fun x => (x.1, t.id) }

theorem mem_objectsOf {s : State} {t : TaskId} {x : OneShot.Class × Address} :
    x ∈ objectsOf s t ↔ 1 ≤ x.2 ∧ s.objects[x.2 - 1]? = some (x.1, t) := by
  rw [objectsOf, List.mem_filterMap]
  constructor
  · rintro ⟨⟨⟨c, t'⟩, p⟩, hmem, hx⟩
    simp only [Option.ite_none_right_eq_some, Option.some.injEq] at hx
    rcases hx with ⟨rfl, rfl⟩
    exact List.mk_mem_zipIdx_iff_le_and_getElem?_sub.mp hmem
  · intro hx
    exact ⟨((x.1, t), x.2), List.mk_mem_zipIdx_iff_le_and_getElem?_sub.mpr hx, if_pos rfl⟩

/-- An object is allocated for one task. -/
theorem owner_unique {s : State} {t t' : TaskId} {x y : OneShot.Class × Address}
    (hx : x ∈ objectsOf s t) (hy : y ∈ objectsOf s t') (heq : x.2 = y.2) : t = t' ∧ x = y := by
  have hget := (mem_objectsOf.mp hx).2
  rw [heq, (mem_objectsOf.mp hy).2, Option.some.injEq, Prod.mk.injEq] at hget
  exact ⟨hget.2.symm, Prod.ext hget.1.symm heq⟩

theorem lt_next {s : State} {t : TaskId} {x : OneShot.Class × Address} (hx : x ∈ objectsOf s t) :
    x.2 < next s := by
  rcases mem_objectsOf.mp hx with ⟨hpos, hget⟩
  rcases List.getElem?_eq_some_iff.mp hget with ⟨hlt, -⟩
  exact Nat.lt_succ_of_le (Nat.le_of_pred_lt hlt)

/-- The addresses of new objects follow each other. -/
theorem made_zipIdx (t : Task) (p : Address) :
    (((made t p).map fun x => (x.1, t.id)).zipIdx p).map (fun x => (x.1.1, x.2)) = made t p := by
  rcases ht : t.op <;> simp only [made, ht] <;> try rfl
  split <;> rfl

theorem objectsOf_put (s : State) (t : Task) (t' : TaskId) :
    objectsOf (put s t) t' = objectsOf s t' ++ if t.id = t' then made t (next s) else [] := by
  have hown : ∀ x ∈ ((made t (next s)).map fun x => (x.1, t.id)).zipIdx (next s),
      x.1.2 = t.id := by
    intro x hx
    rcases List.mem_map.mp (List.fst_mem_of_mem_zipIdx hx) with ⟨y, -, hy⟩
    exact hy ▸ rfl
  have hnew : (((made t (next s)).map fun x => (x.1, t.id)).zipIdx (next s)).filterMap
      (fun x => if x.1.2 = t' then some (x.1.1, x.2) else none) =
      if t.id = t' then made t (next s) else [] := by
    split
    case isTrue heq =>
      subst heq
      rw [List.filterMap_congr fun x hx => if_pos (hown x hx)]
      exact (congrFun List.filterMap_eq_map' _).trans (made_zipIdx t (next s))
    case isFalse hne =>
      rw [List.filterMap_eq_nil_iff]
      exact fun x hx => if_neg fun heq => hne ((hown x hx).symm.trans heq)
  have hnext : 1 + s.objects.length = next s := Nat.add_comm _ _
  rw [objectsOf, put, List.zipIdx_append, List.filterMap_append, hnext, hnew]
  rfl

theorem next_le_made {t : Task} {p : Address} {x : OneShot.Class × Address} (hx : x ∈ made t p) :
    p ≤ x.2 := by
  rw [← made_zipIdx t p] at hx
  rcases List.mem_map.mp hx with ⟨y, hy, rfl⟩
  exact List.le_snd_of_mem_zipIdx (x := y) hy

/-! ## 2. What a dispatch leaves -/

/-- The states that the dispatch of an operation leads to. -/
inductive Dispatched (s : State) (t : Task) : State → Prop
  /-- Everything allocated is closed, in some order. -/
  | failed {r : Int} {ps : List Address} (hr : r < 0)
      (hps : ps.Perm ((made t (next s)).map Prod.snd)) :
      Dispatched s t { put s t with
        closed := s.closed ++ ps, completed := s.completed ++ [(t.id, r)] }
  | handedOut :
      Dispatched s t { put s t with
        listeners := s.listeners ++ if t.op = .tcpListen then [next s] else []
        completed := s.completed ++ [(t.id, asResult (next s))] }
  | connecting (ht : t.op = .tcpConnect) :
      Dispatched s t { put s t with requests := s.requests ++ [.connect t (next s)] }
  /-- The address parser has returned a positive code, or the terminal could not be set up. -/
  | stuck (ht : t.op = .tcpConnect ∨ t.op = .stdioOpen) : Dispatched s t (put s t)
  /-- The descriptor is that of a file. -/
  | nothing (ht : t.op = .stdioOpen) :
      Dispatched s t { s with completed := s.completed ++ [(t.id, 0)] }

/-- One object, which is handed out unless the code is negative. -/
theorem dispatched_conclude {s : State} {t : Task} {c : OneShot.Class}
    (hmade : made t (next s) = [(c, next s)]) (hlisten : t.op ≠ .tcpListen) (r : Int) :
    Dispatched s t (conclude (alloc s c t).1 t (next s) r) := by
  rw [conclude]
  by_cases hr : r < 0
  · have h := Dispatched.failed (s := s) (t := t) hr (.refl _)
    rw [put, hmade] at h
    rw [if_pos hr]
    exact h
  · have h := Dispatched.handedOut (s := s) (t := t)
    rw [put, hmade, if_neg hlisten, List.append_nil] at h
    rw [if_neg hr]
    exact h

theorem dispatched_tcpListen {s : State} {t : Task} (ht : t.op = .tcpListen) (uv : Uv) :
    Dispatched s t (tcpListen s t uv) := by
  have hmade : made t (next s) = [(.listener, next s)] := by simp only [made, ht]
  simp only [tcpListen, conclude]
  by_cases hr : listenCode uv < 0
  · have h := Dispatched.failed (s := s) (t := t) hr (.refl _)
    rw [put, hmade] at h
    rw [if_pos hr, if_pos hr]
    exact h
  · have h := Dispatched.handedOut (s := s) (t := t)
    rw [put, hmade, if_pos ht] at h
    rw [if_neg hr, if_neg hr]
    exact h

theorem dispatched_tcpConnect {s : State} {t : Task} (ht : t.op = .tcpConnect) (uv : Uv) :
    Dispatched s t (tcpConnect s t uv) := by
  have hmade : made t (next s) = [(.stream, next s)] := by simp only [made, ht]
  -- the code of the parser or that of the call
  have hfailed : ∀ r : Int, r < 0 →
      Dispatched s t (complete (close (alloc s .stream t).1 (next s)) t r) := by
    intro r hr
    have h := Dispatched.failed (s := s) (t := t) hr (.refl _)
    rw [put, hmade] at h
    exact h
  simp only [tcpConnect]
  by_cases hparse : parseIpAddr uv = 0
  · rw [if_pos hparse]
    by_cases hr : uv.tcpConnect < 0
    · simp only [startReq, if_pos hr]
      exact hfailed _ hr
    · have h := Dispatched.connecting (s := s) ht
      rw [put, hmade] at h
      simp only [startReq, if_neg hr]
      exact h
  · rw [if_neg hparse]
    by_cases hr : parseIpAddr uv < 0
    · rw [if_pos hr]
      exact hfailed _ hr
    · have h := Dispatched.stuck (s := s) (Or.inl ht)
      rw [put, hmade] at h
      rw [if_neg hr]
      exact h

theorem dispatched_procSpawn {s : State} {t : Task} (ht : t.op = .procSpawn) (uv : Uv) :
    Dispatched s t (procSpawn s t uv) := by
  have hlisten : t.op ≠ .tcpListen := by
    rw [ht]
    decide
  simp only [procSpawn]
  by_cases hmode : t.stdioMode = 1
  · have hmade : made t (next s) = [(.process, next s), (.stream, next s + 1),
        (.stream, next s + 2), (.stream, next s + 3)] := by simp only [made, ht, if_pos hmode]
    by_cases hr : uv.spawn < 0
    · -- the pipes are closed before the process
      have hperm : ([next s + 1, next s + 2, next s + 3] ++ [next s]).Perm
          ((made t (next s)).map Prod.snd) := by
        rw [hmade]
        exact List.perm_append_singleton _ _
      have h := Dispatched.failed hr hperm
      rw [put, hmade] at h
      rw [if_pos hmode, if_pos hr, conclude, if_pos hr]
      simp only [alloc, close, complete, List.foldl_cons, List.foldl_nil, List.length_append,
        List.length_singleton, List.append_assoc, List.cons_append, List.nil_append]
      exact h
    · have h := Dispatched.handedOut (s := s) (t := t)
      rw [put, hmade, if_neg hlisten, List.append_nil] at h
      rw [if_pos hmode, if_neg hr, conclude, if_neg hr]
      simp only [alloc, complete, List.append_assoc, List.cons_append, List.nil_append]
      exact h
  · have hmade : made t (next s) = [(.process, next s)] := by
      simp only [made, ht, if_neg hmode]
    have h := dispatched_conclude hmade hlisten uv.spawn
    rw [if_neg hmode]
    simp only [List.foldl_nil, ite_self]
    exact h

/-- **The dispatch of an operation that creates a handle**, whatever codes libuv returns. -/
theorem dispatched (s : State) (t : Task) (uv : Uv) (ht : creates t.op = true) :
    Dispatched s t (dispatch s t uv) := by
  rcases hop : t.op <;> rw [hop] at ht <;> try cases ht
  case tcpConnect =>
    rw [dispatch, hop]
    exact dispatched_tcpConnect hop uv
  case tcpListen =>
    rw [dispatch, hop]
    exact dispatched_tcpListen hop uv
  case procSpawn =>
    rw [dispatch, hop]
    exact dispatched_procSpawn hop uv
  case fsWatchOpen =>
    rw [dispatch, hop]
    exact dispatched_conclude (by simp only [made, hop]) (by rw [hop]; decide) uv.fsEventStart
  case stdioOpen =>
    simp only [dispatch, hop, stdioOpen]
    have hmade : made t (next s) = [(.stream, next s)] := by simp only [made, hop]
    split
    · exact .nothing hop
    · split
      · have h := Dispatched.stuck (s := s) (Or.inr hop)
        rw [put, hmade] at h
        exact h
      · exact dispatched_conclude hmade (by rw [hop]; decide) (stdioCode uv)

/-! ## 3. What has become of an operation -/

/-- What a state holds against the task: it has failed and everything is closed, it has handed out
its handle and everything is open, it has found nothing to open, or it has no result yet. -/
inductive Fate (s : State) (t : Task) : Prop
  | failed {r : Int} (hr : r < 0) (hres : s.completed.results t.id = [r])
      (hclosed : ∀ x ∈ objectsOf s t.id, s.closed.count x.2 = 1 ∧ x.2 ∉ s.listeners)
  | handedOut {p : Address} (hres : s.completed.results t.id = [asResult p])
      (hobj : objectsOf s t.id = made t p)
      (hlive : ∀ x ∈ objectsOf s t.id, s.closed.count x.2 = 0 ∧
        (x.2 ∈ s.listeners ↔ x.1 = .listener))
  | nothing (ht : t.op = .stdioOpen) (hres : s.completed.results t.id = [0])
      (hobj : objectsOf s t.id = [])
  | unanswered (hres : s.completed.results t.id = [])
      (hlive : ∀ x ∈ objectsOf s t.id, s.closed.count x.2 = 0 ∧ x.2 ∉ s.listeners)

/-- The step does not concern the task. -/
structure Same (s u : State) (id : TaskId) : Prop where
  objects : objectsOf u id = objectsOf s id
  results : u.completed.results id = s.completed.results id
  closed : ∀ x ∈ objectsOf s id, u.closed.count x.2 = s.closed.count x.2
  listeners : ∀ x ∈ objectsOf s id, (x.2 ∈ u.listeners ↔ x.2 ∈ s.listeners)

theorem Fate.same {s u : State} {t : Task} (h : Fate s t) (hsame : Same s u t.id) : Fate u t := by
  cases h with
  | failed hr hres hclosed =>
    refine .failed hr (hsame.results.trans hres) fun x hx => ?_
    rw [hsame.objects] at hx
    rw [hsame.closed x hx, hsame.listeners x hx]
    exact hclosed x hx
  | handedOut hres hobj hlive =>
    refine .handedOut (hsame.results.trans hres) (hsame.objects.trans hobj) fun x hx => ?_
    rw [hsame.objects] at hx
    rw [hsame.closed x hx, hsame.listeners x hx]
    exact hlive x hx
  | nothing ht hres hobj =>
    exact .nothing ht (hsame.results.trans hres) (hsame.objects.trans hobj)
  | unanswered hres hlive =>
    refine .unanswered (hsame.results.trans hres) fun x hx => ?_
    rw [hsame.objects] at hx
    rw [hsame.closed x hx, hsame.listeners x hx]
    exact hlive x hx

/-- The tasks dispatched in a schedule. -/
def dispatches (as : List Action) : List Task :=
  as.filterMap fun
    | .dispatch t _ => some t
    | _ => none

/-- A request of an operation that creates no handle. -/
def IsOther (q : Request) : Prop := ∀ p, q ≠ .connect q.task p

/-- What holds of the tasks `D` dispatched so far. -/
structure Inv (D : List Task) (s : State) : Prop where
  tasks : s.tasks = D.map Task.id
  nodup : s.tasks.Nodup
  once : ∀ id, answers s id ≤ 1
  fresh : ∀ id, id ∉ s.tasks → answers s id = 0 ∧ objectsOf s id = []
  -- a request belongs to a dispatched task; the only one of a handle's creator is a connect
  requests : ∀ q ∈ s.requests, q.task ∈ D ∧ (creates q.task.op = false ∧ IsOther q ∨
    ∃ p, q = .connect q.task p ∧ q.task.op = .tcpConnect ∧ objectsOf s q.task.id = [(.stream, p)])
  closed : ∀ p ∈ s.closed, p < next s
  listeners : s.listeners.Nodup
  listed : ∀ p ∈ s.listeners, p < next s ∧
    ∃ t ∈ D, t.op = .tcpListen ∧ s.completed.results t.id = [asResult p]
  fates : ∀ t ∈ D, creates t.op = true → Fate s t

section
variable {D : List Task} {s u : State} {t : Task}

/-- Two tasks of the list have two names. -/
theorem Inv.id_ne (hs : Inv D s) {t' : Task} (ht : t ∈ D) (ht' : t' ∈ D) (hne : t ≠ t') :
    t.id ≠ t'.id := by
  have hnd : (D.map Task.id).Nodup := hs.tasks ▸ hs.nodup
  exact fun heq => hne (List.inj_on_of_nodup_map hnd ht ht' heq)

theorem results_of_answers {id : TaskId} (h : answers s id = 0) :
    s.completed.results id = [] := by
  have hlen : (s.completed.results id).length = 0 := by
    rw [answers] at h
    omega
  exact List.eq_nil_of_length_eq_zero hlen

theorem gain_le (a : Action) (id : TaskId) : gain a id ≤ 1 := by
  unfold gain
  split
  · split <;> omega
  · omega

/-- No step gives a task a second answer. -/
theorem once_step (hs : Inv D s) {a : Action} (h : step s a = some u) :
    u.tasks.Nodup ∧ (∀ id, answers u id ≤ 1) ∧ ∀ id, id ∉ u.tasks → answers u id = 0 := by
  have hans := answers_step h
  rcases tasks_step h with ⟨t, uv, rfl, ht, htasks⟩ | ⟨hgain, htasks⟩
  · have hgain := gain_le (.dispatch t uv) t.id
    have hzero := (hs.fresh t.id ht).1
    have hother : ∀ id, id ≠ t.id → answers u id = answers s id := by
      intro id hid
      rw [hans, gain_of_ne hid.symm, Nat.add_zero]
    rw [htasks, ← List.concat_eq_append]
    refine ⟨hs.nodup.concat ht, fun id => ?_, fun id hid => ?_⟩
    · by_cases heq : id = t.id
      · rw [heq, hans, hzero, Nat.zero_add]
        exact hgain
      · rw [hother id heq]
        exact hs.once id
    · rw [List.concat_eq_append, List.mem_append, List.mem_singleton, not_or] at hid
      rw [hother id hid.2]
      exact (hs.fresh id hid.1).1
  · refine ⟨htasks ▸ hs.nodup, fun id => ?_, fun id hid => ?_⟩
    · rw [hans, hgain]
      exact hs.once id
    · rw [hans, hgain]
      exact (hs.fresh id (htasks ▸ hid)).1

/-! ## 4. Steps that create nothing -/

/-- The step is one of the task `t`, and allocates, closes and registers nothing. -/
structure Quiet (s u : State) (t : Task) : Prop where
  objects : u.objects = s.objects
  closed : u.closed = s.closed
  listeners : u.listeners = s.listeners
  results : ∀ id, id ≠ t.id → u.completed.results id = s.completed.results id
  requests : ∀ q ∈ u.requests, q ∈ s.requests ∨ q.task = t ∧ IsOther q

theorem Quiet.objectsOf (h : Quiet s u t) (id : TaskId) : objectsOf u id = objectsOf s id := by
  rw [Handles.objectsOf, h.objects, Handles.objectsOf]

theorem Quiet.next (h : Quiet s u t) : next u = next s := by
  rw [Handles.next, h.objects, Handles.next]

theorem Quiet.same (h : Quiet s u t) {id : TaskId} (hid : id ≠ t.id) : Same s u id := by
  refine ⟨h.objectsOf id, h.results id hid, fun x _ => ?_, fun x _ => ?_⟩
  · rw [h.closed]
  · rw [h.listeners]

theorem Quiet.trans {v : State} (h : Quiet s u t) (h' : Quiet u v t) : Quiet s v t := by
  refine ⟨h'.objects.trans h.objects, h'.closed.trans h.closed, h'.listeners.trans h.listeners,
    fun id hid => (h'.results id hid).trans (h.results id hid), fun q hq => ?_⟩
  rcases h'.requests q hq with hold | heq
  · exact h.requests q hold
  · exact Or.inr heq

theorem quiet_out (s : State) (out : TaskId → Out) (t : Task) (r : Int) :
    Quiet s (complete { s with out := out } t r) t :=
  ⟨rfl, rfl, rfl, fun _ hid => Completions.results_snoc_of_ne _ hid r, fun _ hq => Or.inl hq⟩

theorem quiet_complete (s : State) (t : Task) (r : Int) : Quiet s (complete s t r) t :=
  quiet_out s s.out t r

theorem quiet_startReq (s : State) (rc : Int) {q : Request} (hq : IsOther q) :
    Quiet s (startReq s rc q) q.task := by
  unfold startReq
  split
  · exact ⟨rfl, rfl, rfl, fun _ _ => rfl, fun _ hq => Or.inl hq⟩
  · refine ⟨rfl, rfl, rfl, fun _ _ => rfl, fun q' hq' => ?_⟩
    rcases List.mem_append.mp hq' with hold | hnew
    · exact Or.inl hold
    · rw [List.mem_singleton.mp hnew]
      exact Or.inr ⟨rfl, hq⟩

theorem quiet_startOrFail (s : State) (rc : Int) {q : Request} (hq : IsOther q) :
    Quiet s (startOrFail s q.task rc q) q.task := by
  simp only [startOrFail]
  split
  · exact (quiet_startReq s rc hq).trans (quiet_complete _ _ _)
  · exact quiet_startReq s rc hq

theorem quiet_dispatch (s : State) (uv : Uv) (hc : creates t.op = false) :
    Quiet s (dispatch s t uv) t := by
  rcases hop : t.op <;> rw [hop] at hc <;> simp only [dispatch, hop] <;> try cases hc
  case timer => exact quiet_startReq s _ (q := .timer t) fun _ => Request.noConfusion
  case streamWrite => exact quiet_startOrFail s _ (q := .write t) fun _ => Request.noConfusion
  case dnsResolve =>
    exact quiet_startOrFail s _ (q := .getaddrinfo t) fun _ => Request.noConfusion
  case procKill => exact quiet_complete s t _
  -- the file system operations
  all_goals exact quiet_startReq s _ (q := .fs t) fun _ => Request.noConfusion

theorem quiet_getaddrinfo (s : State) (t : Task) (status : Int) (res : List Addrinfo) :
    Quiet s (onGetaddrinfo s t status res) t := by
  simp only [onGetaddrinfo]
  split <;> exact quiet_out s _ t _

/-- A callback takes its request off the list first. -/
theorem quiet_answer {q : Request} {f : State → State} (h : answer s q f = some u)
    (hf : ∀ v, Quiet v (f v) q.task) : q ∈ s.requests ∧ Quiet s u q.task := by
  simp only [answer, Option.ite_none_right_eq_some, Option.some.injEq] at h
  rcases h with ⟨hq, rfl⟩
  refine ⟨hq, Quiet.trans ?_ (hf _)⟩
  exact ⟨rfl, rfl, rfl, fun _ _ => rfl, fun _ hmem => Or.inl (List.mem_of_mem_erase hmem)⟩

theorem inv_quiet (hs : Inv D s) {a : Action} (h : step s a = some u) (hquiet : Quiet s u t)
    (hcreates : creates t.op = false) {D' : List Task} (hD' : u.tasks = D'.map Task.id)
    (hsub : ∀ t' ∈ D, t' ∈ D') (ht : t ∈ D') (hnew : ∀ t' ∈ D', t' ∈ D ∨ t' = t) : Inv D' u := by
  rcases once_step hs h with ⟨hnodup, honce, hzero⟩
  -- a creator of handles is another task
  have hother : ∀ t' ∈ D', creates t'.op = true → t' ∈ D ∧ t'.id ≠ t.id := by
    intro t' ht' hc
    have hne : t' ≠ t := by
      rintro rfl
      rw [hcreates] at hc
      cases hc
    have hnd : (D'.map Task.id).Nodup := hD' ▸ hnodup
    exact ⟨(hnew t' ht').resolve_right hne, fun heq => hne (List.inj_on_of_nodup_map hnd ht' ht heq)⟩
  refine ⟨hD', hnodup, honce, fun id hid => ⟨hzero id hid, ?_⟩, fun q hq => ?_, ?_, ?_, ?_, ?_⟩
  · rw [hquiet.objectsOf]
    refine (hs.fresh id fun hmem => hid ?_).2
    rw [hs.tasks] at hmem
    rcases List.mem_map.mp hmem with ⟨t', ht', rfl⟩
    rw [hD']
    exact List.mem_map_of_mem (hsub t' ht')
  · rcases hquiet.requests q hq with hold | ⟨heq, hother⟩
    · rw [hquiet.objectsOf]
      exact ⟨hsub _ (hs.requests q hold).1, (hs.requests q hold).2⟩
    · rw [heq]
      exact ⟨ht, Or.inl ⟨hcreates, hother⟩⟩
  · rw [hquiet.closed, hquiet.next]
    exact hs.closed
  · rw [hquiet.listeners]
    exact hs.listeners
  · rw [hquiet.listeners, hquiet.next]
    intro p hp
    rcases hs.listed p hp with ⟨hlt, t', ht', hop, hres⟩
    have hne := (hother t' (hsub t' ht') (by rw [hop]; rfl)).2
    exact ⟨hlt, t', hsub t' ht', hop, (hquiet.results _ hne).trans hres⟩
  · intro t' ht' hc
    rcases hother t' ht' hc with ⟨hmem, hne⟩
    exact (hs.fates t' hmem hc).same (hquiet.same hne)

/-- Such a callback. -/
theorem inv_answer (hs : Inv D s) {a : Action} (h : step s a = some u) (ha : IsCallback a)
    {q : Request} (hq : q ∈ s.requests) (hquiet : Quiet s u q.task) (hother : IsOther q) :
    Inv D u := by
  have hcreates : creates q.task.op = false := by
    rcases (hs.requests q hq).2 with ⟨hc, -⟩ | ⟨p, heq, -⟩
    · exact hc
    · exact absurd heq (hother p)
  have htasks : u.tasks = s.tasks := by
    rcases tasks_step h with ⟨t, uv, rfl, ht, -⟩ | ⟨-, htasks⟩
    · exact absurd rfl (ha t uv)
    · exact htasks
  exact inv_quiet hs h hquiet hcreates (htasks.trans hs.tasks) (fun _ h => h) (hs.requests q hq).1
    fun _ h => Or.inl h

/-! ## 5. The dispatch of an operation that creates a handle -/

theorem nodup_made (t : Task) (p : Address) : ((made t p).map Prod.snd).Nodup := by
  unfold made
  split
  case h_3 => split <;> simp
  all_goals simp

/-- Only a listen allocates a listener, and nothing else. -/
theorem mem_made {p : Address} {x : OneShot.Class × Address} (hx : x ∈ made t p) :
    (x.1 = .listener ↔ t.op = .tcpListen) ∧ (t.op = .tcpListen → x.2 = p) := by
  unfold made at hx
  split at hx
  case h_3 hop =>
    rw [hop]
    split at hx
    · simp only [List.mem_cons, List.not_mem_nil, or_false] at hx
      rcases hx with rfl | rfl | rfl | rfl <;> simp
    · rw [List.mem_singleton.mp hx]
      simp
  case h_6 => cases hx
  all_goals
    rename_i hop
    rw [hop, List.mem_singleton.mp hx]
    simp

theorem count_of_lt {ps : List Address} {p : Address} (h : ∀ q ∈ ps, q < p) : ps.count p = 0 :=
  List.count_eq_zero_of_not_mem fun hmem => Nat.lt_irrefl p (h p hmem)

/-- The new task. -/
theorem Dispatched.fate (hs : Inv D s) (ht : t.id ∉ s.tasks) (h : Dispatched s t u) :
    Fate u t := by
  rcases hs.fresh t.id ht with ⟨hzero, hnone⟩
  have hres := results_of_answers hzero
  have hobj : objectsOf (put s t) t.id = made t (next s) := by
    rw [objectsOf_put, hnone, if_pos rfl, List.nil_append]
  -- the new addresses are none of those closed or registered before
  have hnew : ∀ x ∈ made t (next s), s.closed.count x.2 = 0 ∧ x.2 ∉ s.listeners := by
    intro x hx
    have hle := next_le_made hx
    refine ⟨count_of_lt fun q hq => Nat.lt_of_lt_of_le (hs.closed q hq) hle, fun hmem => ?_⟩
    exact Nat.lt_irrefl _ (Nat.lt_of_lt_of_le (hs.listed x.2 hmem).1 hle)
  cases h with
  | @failed r ps hr hps =>
    refine .failed hr (Completions.results_snoc_self hres r) fun x hx => ?_
    have hx' : x ∈ made t (next s) := hobj ▸ hx
    refine ⟨?_, (hnew x hx').2⟩
    show (s.closed ++ ps).count x.2 = 1
    rw [List.count_append, (hnew x hx').1, hps.count_eq, Nat.zero_add]
    exact List.count_eq_one_of_mem (nodup_made t _) (List.mem_map_of_mem hx')
  | handedOut =>
    refine .handedOut (Completions.results_snoc_self hres _) hobj fun x hx => ?_
    have hx' : x ∈ made t (next s) := hobj ▸ hx
    refine ⟨(hnew x hx').1, ?_⟩
    rcases mem_made hx' with ⟨hclass, haddr⟩
    show x.2 ∈ s.listeners ++ _ ↔ _
    rw [hclass, List.mem_append]
    by_cases hop : t.op = .tcpListen
    · rw [if_pos hop, haddr hop]
      exact iff_of_true (Or.inr (List.mem_singleton_self _)) hop
    · rw [if_neg hop]
      exact iff_of_false (fun hmem => hmem.elim (hnew x hx').2 (fun h => nomatch h)) hop
  | connecting => exact .unanswered hres fun x hx => hnew x (hobj ▸ hx)
  | stuck => exact .unanswered hres fun x hx => hnew x (hobj ▸ hx)
  | nothing hop => exact .nothing hop (Completions.results_snoc_self hres 0) hnone

/-- The other tasks. -/
theorem Dispatched.same (h : Dispatched s t u) {id : TaskId} (hid : id ≠ t.id) : Same s u id := by
  have hobj : objectsOf (put s t) id = objectsOf s id := by
    rw [objectsOf_put, if_neg hid.symm, List.append_nil]
  have hres := fun r => Completions.results_snoc_of_ne s.completed hid r
  cases h with
  | @failed r ps hr hps =>
    refine ⟨hobj, hres r, fun x hx => ?_, fun _ _ => Iff.rfl⟩
    show (s.closed ++ ps).count x.2 = _
    have hzero : ps.count x.2 = 0 := by
      apply List.count_eq_zero_of_not_mem
      intro hmem
      rcases List.mem_map.mp (hps.mem_iff.mp hmem) with ⟨y, hy, heq⟩
      exact Nat.lt_irrefl _ (Nat.lt_of_lt_of_le (lt_next hx) (heq ▸ next_le_made hy))
    rw [List.count_append, hzero, Nat.add_zero]
  | handedOut =>
    refine ⟨hobj, hres _, fun _ _ => rfl, fun x hx => ?_⟩
    show x.2 ∈ s.listeners ++ _ ↔ _
    rw [List.mem_append]
    refine ⟨fun hmem => hmem.resolve_right fun hnew => ?_, Or.inl⟩
    split at hnew
    · exact Nat.ne_of_lt (lt_next hx) (List.mem_singleton.mp hnew)
    · cases hnew
  | connecting => exact ⟨hobj, rfl, fun _ _ => rfl, fun _ _ => Iff.rfl⟩
  | stuck => exact ⟨hobj, rfl, fun _ _ => rfl, fun _ _ => Iff.rfl⟩
  | nothing => exact ⟨rfl, hres 0, fun _ _ => rfl, fun _ _ => Iff.rfl⟩

theorem next_le_put (s : State) (t : Task) : next s ≤ next (put s t) := by
  rw [next, next, put, List.length_append]
  exact Nat.succ_le_succ (Nat.le_add_right _ _)

/-- Every address closed is one allocated. -/
theorem Dispatched.closed (hs : Inv D s) (h : Dispatched s t u) : ∀ p ∈ u.closed, p < next u := by
  have hold : ∀ p ∈ s.closed, p < next (put s t) := fun p hp =>
    Nat.lt_of_lt_of_le (hs.closed p hp) (next_le_put s t)
  cases h with
  | @failed r ps hr hps =>
    intro p hp
    rcases List.mem_append.mp hp with hp | hp
    · exact hold p hp
    · rcases List.mem_map.mp (hps.mem_iff.mp hp) with ⟨x, hx, rfl⟩
      have hmem : x ∈ objectsOf (put s t) t.id := by
        rw [objectsOf_put, if_pos rfl]
        exact List.mem_append_right _ hx
      exact lt_next hmem
  | nothing => exact hs.closed
  | _ => exact hold

/-- A listener is registered when the listen hands it out. -/
theorem Dispatched.listeners (h : Dispatched s t u) :
    u.listeners = s.listeners ∨ t.op = .tcpListen ∧ u.listeners = s.listeners ++ [next s] ∧
      u.completed = s.completed ++ [(t.id, asResult (next s))] ∧ next s < next u := by
  cases h with
  | handedOut =>
    by_cases hop : t.op = .tcpListen
    · refine Or.inr ⟨hop, ?_, rfl, ?_⟩
      · rw [if_pos hop]
      · rw [next, next, put, made, hop, List.length_append]
        exact Nat.lt_succ_self _
    · left
      rw [if_neg hop]
      exact List.append_nil _
  | _ => exact Or.inl rfl

theorem Dispatched.requests (hs : Inv D s) (ht : t.id ∉ s.tasks) (h : Dispatched s t u) :
    ∀ q ∈ u.requests, q ∈ s.requests ∨
      q = .connect t (next s) ∧ t.op = .tcpConnect ∧ objectsOf u t.id = [(.stream, next s)] := by
  intro q hq
  cases h with
  | connecting hop =>
    rcases List.mem_append.mp hq with hq | hq
    · exact Or.inl hq
    · refine Or.inr ⟨List.mem_singleton.mp hq, hop, ?_⟩
      have hobj := objectsOf_put s t t.id
      rw [(hs.fresh t.id ht).2, if_pos rfl, List.nil_append] at hobj
      refine hobj.trans ?_
      rw [made, hop]
  | _ => exact Or.inl hq

theorem Dispatched.next_le (h : Dispatched s t u) : next s ≤ next u := by
  cases h with
  | nothing => exact Nat.le_refl _
  | _ => exact next_le_put s t

theorem inv_create (hs : Inv D s) {uv : Uv} (h : step s (.dispatch t uv) = some u)
    (hc : creates t.op = true) : Inv (D ++ [t]) u := by
  rcases once_step hs h with ⟨hnodup, honce, hzero⟩
  simp only [step, Option.ite_none_right_eq_some, Option.some.injEq] at h
  rcases h with ⟨ht, rfl⟩
  have hd := dispatched s t uv hc
  have hu : ∀ id, Same (dispatch s t uv)
      { dispatch s t uv with tasks := s.tasks ++ [t.id] } id :=
    fun id => ⟨rfl, rfl, fun _ _ => rfl, fun _ _ => Iff.rfl⟩
  have hne : ∀ t' ∈ D, t'.id ≠ t.id := by
    intro t' ht' heq
    rw [hs.tasks] at ht
    exact ht (heq ▸ List.mem_map_of_mem ht')
  refine ⟨?_, hnodup, honce, fun id hid => ⟨hzero id hid, ?_⟩, fun q hq => ?_,
    fun p hp => hd.closed hs p hp, ?_, fun p hp => ?_, fun t' ht' hc' => ?_⟩
  · rw [List.map_append, ← hs.tasks]
    rfl
  · rw [List.mem_append, List.mem_singleton, not_or] at hid
    exact (hd.same hid.2).objects.trans (hs.fresh id hid.1).2
  · rcases hd.requests hs ht q hq with hold | ⟨rfl, hop, hobj⟩
    · rcases hs.requests q hold with ⟨hmem, hconnect⟩
      have hobj : objectsOf (dispatch s t uv) q.task.id = objectsOf s q.task.id :=
        (hd.same (hne _ hmem)).objects
      exact ⟨List.mem_append_left _ hmem, hobj.symm ▸ hconnect⟩
    · exact ⟨List.mem_append_right _ (List.mem_singleton_self t), Or.inr ⟨_, rfl, hop, hobj⟩⟩
  · rcases hd.listeners with heq | ⟨-, heq, -⟩
    · exact heq.symm ▸ hs.listeners
    · have hnew : next s ∉ s.listeners := fun hmem => Nat.lt_irrefl _ (hs.listed _ hmem).1
      refine heq.symm ▸ ?_
      rw [← List.concat_eq_append]
      exact hs.listeners.concat hnew
  · have hold : p ∈ s.listeners → p < next (dispatch s t uv) ∧ ∃ t' ∈ D ++ [t],
        t'.op = .tcpListen ∧ (dispatch s t uv).completed.results t'.id = [asResult p] := by
      intro hmem
      rcases hs.listed p hmem with ⟨hlt, t', ht', hop, hres⟩
      exact ⟨Nat.lt_of_lt_of_le hlt hd.next_le, t', List.mem_append_left _ ht', hop,
        (hd.same (hne t' ht')).results.trans hres⟩
    rcases hd.listeners with heq | ⟨hop, heq, hcompleted, hlt⟩
    · exact hold (heq ▸ hp)
    · have hmem : p ∈ s.listeners ++ [next s] := heq ▸ hp
      rcases List.mem_append.mp hmem with hmem | hmem
      · exact hold hmem
      · rw [List.mem_singleton.mp hmem]
        refine ⟨hlt, t, List.mem_append_right _ (List.mem_singleton_self t), hop, ?_⟩
        show (dispatch s t uv).completed.results t.id = _
        rw [hcompleted]
        exact Completions.results_snoc_self (results_of_answers (hs.fresh t.id ht).1) _
  · rcases List.mem_append.mp ht' with ht' | ht'
    · exact ((hs.fates t' ht' hc').same (hd.same (hne t' ht'))).same (hu _)
    · rw [List.mem_singleton.mp ht']
      exact (hd.fate hs ht).same (hu _)

/-! ## 6. The connect that is decided later -/

theorem conclude_frame (s : State) (t : Task) (p : Address) (r : Int) :
    (conclude s t p r).objects = s.objects ∧ (conclude s t p r).listeners = s.listeners ∧
      (conclude s t p r).tasks = s.tasks ∧ (conclude s t p r).requests = s.requests ∧
      ∀ q ∈ (conclude s t p r).closed, q ∈ s.closed ∨ q = p := by
  unfold conclude
  split
  · refine ⟨rfl, rfl, rfl, rfl, fun q hq => ?_⟩
    exact (List.mem_append.mp hq).imp_right List.mem_singleton.mp
  · exact ⟨rfl, rfl, rfl, rfl, fun q hq => Or.inl hq⟩

theorem objectsOf_conclude (s : State) (t : Task) (p : Address) (r : Int) (id : TaskId) :
    objectsOf (conclude s t p r) id = objectsOf s id := by
  rw [objectsOf, (conclude_frame s t p r).1, objectsOf]

/-- The tasks that the object is not of. -/
theorem same_conclude {p : Address} (hp : (OneShot.Class.stream, p) ∈ objectsOf s t.id) (r : Int)
    {id : TaskId} (hid : id ≠ t.id) : Same s (conclude s t p r) id := by
  refine ⟨objectsOf_conclude s t p r id, ?_, fun x hx => ?_,
    fun _ _ => (conclude_frame s t p r).2.1 ▸ Iff.rfl⟩
  · rw [conclude]
    split <;> exact Completions.results_snoc_of_ne _ hid _
  · have hfar : p ≠ x.2 := fun heq => hid (owner_unique hp hx heq).1.symm
    rw [conclude]
    split
    · show (s.closed ++ [p]).count x.2 = _
      rw [List.count_append, List.count_singleton, if_neg (by simpa using hfar), Nat.add_zero]
    · rfl

/-- The task that it is of is decided. -/
theorem fate_conclude {p : Address} (hop : t.op = .tcpConnect)
    (hobj : objectsOf s t.id = [(.stream, p)]) (hres : s.completed.results t.id = [])
    (hlive : s.closed.count p = 0 ∧ p ∉ s.listeners) (r : Int) :
    Fate (conclude s t p r) t := by
  have hobj' := (objectsOf_conclude s t p r t.id).trans hobj
  rw [conclude] at hobj' ⊢
  split
  case isTrue hr =>
    rw [if_pos hr] at hobj'
    refine .failed hr (Completions.results_snoc_self hres _) fun x hx => ?_
    rw [hobj', List.mem_singleton] at hx
    rw [hx]
    refine ⟨?_, hlive.2⟩
    show (s.closed ++ [p]).count p = 1
    rw [List.count_append, hlive.1, List.count_singleton_self]
  case isFalse hr =>
    rw [if_neg hr] at hobj'
    refine .handedOut (Completions.results_snoc_self hres _) ?_ fun x hx => ?_
    · rw [made, hop]
      exact hobj'
    · rw [hobj', List.mem_singleton] at hx
      rw [hx]
      exact ⟨hlive.1, iff_of_false hlive.2 OneShot.Class.noConfusion⟩

/-- A connect that libuv works on has its stream, open, and no result. -/
theorem Inv.connecting (hs : Inv D s) {p : Address} (hq : .connect t p ∈ s.requests) :
    t ∈ D ∧ t.op = .tcpConnect ∧ objectsOf s t.id = [(.stream, p)] ∧
      s.completed.results t.id = [] ∧ s.closed.count p = 0 ∧ p ∉ s.listeners := by
  have hfacts : t ∈ D ∧ t.op = .tcpConnect ∧ objectsOf s t.id = [(.stream, p)] := by
    rcases hs.requests _ hq with ⟨ht, ⟨-, hother⟩ | ⟨p', heq, hop, hobj⟩⟩
    · exact absurd rfl (hother p)
    · cases heq
      exact ⟨ht, hop, hobj⟩
  rcases hfacts with ⟨ht, hop, hobj⟩
  have hres : s.completed.results t.id = [] := by
    have hcount : 0 < s.requests.countP (·.task.id = t.id) :=
      List.countP_pos_iff.mpr ⟨_, hq, decide_eq_true rfl⟩
    have hle := hs.once t.id
    rw [answers] at hle
    exact List.eq_nil_of_length_eq_zero (by omega)
  refine ⟨ht, hop, hobj, hres, ?_⟩
  cases hs.fates t ht (by rw [hop]; rfl) with
  | failed hr hres' => cases hres.symm.trans hres'
  | handedOut hres' => cases hres.symm.trans hres'
  | nothing _ hres' => cases hres.symm.trans hres'
  | unanswered _ hlive =>
    exact hlive (.stream, p) (hobj ▸ List.mem_singleton_self _)

theorem inv_onConnect (hs : Inv D s) {p : Address} {status : Int}
    (h : step s (.onConnect t p status) = some u) : Inv D u := by
  rcases once_step hs h with ⟨hnodup, honce, hzero⟩
  simp only [step, answer, Option.ite_none_right_eq_some, Option.some.injEq] at h
  rcases h with ⟨hq, rfl⟩
  rcases hs.connecting hq with ⟨ht, hop, hobj, hres, hlive⟩
  have hp : (OneShot.Class.stream, p) ∈ objectsOf s t.id := hobj ▸ List.mem_singleton_self _
  -- the request is gone, nothing else is different
  let v : State := { s with requests := s.requests.erase (.connect t p) }
  have hframe := conclude_frame v t p status
  have hobjects : ∀ id, objectsOf (onConnect v t p status) id = objectsOf s id :=
    objectsOf_conclude v t p status
  have hnext : next (onConnect v t p status) = next s := congrArg (List.length · + 1) hframe.1
  have hother : ∀ t' ∈ D, t' ≠ t → Same s (onConnect v t p status) t'.id := by
    intro t' ht' hne
    have hsame := same_conclude (s := v) hp status (hs.id_ne ht' ht hne)
    exact ⟨hsame.objects, hsame.results, hsame.closed, hsame.listeners⟩
  refine ⟨hframe.2.2.1.trans hs.tasks, hnodup, honce, fun id hid => ⟨hzero id hid, ?_⟩,
    fun q hq' => ?_, fun q hq' => ?_, hframe.2.1.symm ▸ hs.listeners, fun q hq' => ?_,
    fun t' ht' hc => ?_⟩
  · exact (hobjects id).trans (hs.fresh id (hframe.2.2.1 ▸ hid)).2
  · have hold : q ∈ v.requests := by
      rw [← hframe.2.2.2.1]
      exact hq'
    exact (hobjects q.task.id).symm ▸ hs.requests q (List.mem_of_mem_erase hold)
  · rcases hframe.2.2.2.2 q hq' with hold | rfl
    · exact hnext.symm ▸ hs.closed q hold
    · exact hnext.symm ▸ lt_next hp
  · rcases hs.listed q (hframe.2.1 ▸ hq') with ⟨hlt, t', ht', hop', hres'⟩
    have hne : t' ≠ t := by
      rintro rfl
      cases hop.symm.trans hop'
    exact ⟨hnext.symm ▸ hlt, t', ht', hop', (hother t' ht' hne).results.trans hres'⟩
  · by_cases hne : t' = t
    · subst hne
      exact fate_conclude (s := v) hop hobj hres hlive status
    · exact (hs.fates t' ht' hc).same (hother t' ht' hne)

/-! ## 7. Every run -/

theorem inv_step (hs : Inv D s) {a : Action} (h : step s a = some u) :
    Inv (D ++ dispatches [a]) u := by
  have hback : D ++ [] = D := List.append_nil D
  cases a with
  | dispatch t uv =>
    by_cases hc : creates t.op = true
    · exact inv_create hs h hc
    · have hstep := h
      simp only [step, Option.ite_none_right_eq_some, Option.some.injEq] at hstep
      rcases hstep with ⟨-, rfl⟩
      have hquiet : Quiet (dispatch s t uv) { dispatch s t uv with tasks := s.tasks ++ [t.id] } t :=
        ⟨rfl, rfl, rfl, fun _ _ => rfl, fun _ hq => Or.inl hq⟩
      have hc' : creates t.op = false := Bool.not_eq_true _ ▸ hc
      refine inv_quiet hs h ((quiet_dispatch s uv hc').trans hquiet) hc' ?_
        (fun _ => List.mem_append_left _) (List.mem_append_right _ (List.mem_singleton_self t))
        fun t' ht' => (List.mem_append.mp ht').imp_right List.mem_singleton.mp
      rw [List.map_append, ← hs.tasks]
      rfl
  | onConnect t p status => exact hback.symm ▸ inv_onConnect hs h
  | onFsDone t req =>
    rcases quiet_answer (q := .fs t) (f := (onFsDone · t req)) h fun v =>
      quiet_out v _ t req.result with ⟨hq, hquiet⟩
    exact hback.symm ▸ inv_answer hs h (by simp [IsCallback]) hq hquiet fun _ => Request.noConfusion
  | onTimer t =>
    rcases quiet_answer (q := .timer t) (f := (onTimer · t)) h fun v =>
      quiet_startReq v 0 (q := .timerClose t) fun _ => Request.noConfusion with ⟨hq, hquiet⟩
    exact hback.symm ▸ inv_answer hs h (by simp [IsCallback]) hq hquiet fun _ => Request.noConfusion
  | onTimerClosed t =>
    rcases quiet_answer (q := .timerClose t) (f := (onTimerClosed · t)) h fun v =>
      quiet_complete v t 0 with ⟨hq, hquiet⟩
    exact hback.symm ▸ inv_answer hs h (by simp [IsCallback]) hq hquiet fun _ => Request.noConfusion
  | onWrite t status =>
    rcases quiet_answer (q := .write t) (f := (onWrite · t status)) h fun v =>
      quiet_complete v t _ with ⟨hq, hquiet⟩
    exact hback.symm ▸ inv_answer hs h (by simp [IsCallback]) hq hquiet fun _ => Request.noConfusion
  | onGetaddrinfo t status res =>
    rcases quiet_answer (q := .getaddrinfo t) (f := (onGetaddrinfo · t status res)) h fun v =>
      quiet_getaddrinfo v t status res with ⟨hq, hquiet⟩
    exact hback.symm ▸ inv_answer hs h (by simp [IsCallback]) hq hquiet fun _ => Request.noConfusion

theorem inv_of_run {as : List Action} (hrun : machine.run as = some s) : Inv (dispatches as) s := by
  induction as using List.reverseRecOn generalizing s with
  | nil =>
    cases hrun
    refine ⟨rfl, List.nodup_nil, fun _ => Nat.zero_le 1, fun _ _ => ⟨rfl, rfl⟩, ?_, ?_,
      List.nodup_nil, ?_, ?_⟩ <;> exact fun _ h => nomatch h
  | append_singleton as a ih =>
    rcases machine.runFrom_append.mp hrun with ⟨v, hv, hlast⟩
    rcases machine.runFrom_cons.mp hlast with ⟨w, hw, hend⟩
    cases hend
    have h := inv_step (ih hv) hw
    rw [dispatches, List.filterMap_append]
    exact h

theorem mem_made_self (hc : creates t.op = true) (p : Address) : ∃ c, (c, p) ∈ made t p := by
  rcases hop : t.op <;> rw [hop] at hc <;> simp only [made, hop] <;> try cases hc
  all_goals exact ⟨_, List.mem_cons_self⟩

theorem asResult_inj {p q : Address} (h : asResult p = asResult q) : p = q := Int.ofNat_inj.mp h

/-- Everything allocated for the task is closed, once, and nobody has got it. -/
def Undone (D : List Task) (s : State) (t : Task) : Prop :=
  ∀ x ∈ objectsOf s t.id, s.closed.count x.2 = 1 ∧ x.2 ∉ s.listeners ∧
    ∀ t' ∈ D, creates t'.op = true → asResult x.2 ∉ s.completed.results t'.id

/-- The result of the task is a handle, which is open with what belongs to it; for the descriptor
of a file it is 0 and there is no handle. -/
def HandedOut (s : State) (t : Task) (r : Int) : Prop :=
  (t.op = .stdioOpen ∧ r = 0 ∧ objectsOf s t.id = []) ∨
    ∃ p, r = asResult p ∧ objectsOf s t.id = made t p ∧
      ∀ x ∈ objectsOf s t.id, s.closed.count x.2 = 0 ∧ (x.2 ∈ s.listeners ↔ x.1 = .listener)

theorem Inv.undone (hs : Inv D s) (ht : t ∈ D) (hc : creates t.op = true) {r : Int}
    (hr : r < 0) (hres : r ∈ s.completed.results t.id) : Undone D s t := by
  have hclosed : ∀ x ∈ objectsOf s t.id, s.closed.count x.2 = 1 ∧ x.2 ∉ s.listeners := by
    cases hs.fates t ht hc with
    | failed _ _ hclosed => exact hclosed
    | handedOut hres' =>
      rw [hres'] at hres
      rw [List.mem_singleton.mp hres] at hr
      exact absurd hr (Int.not_lt.mpr (Int.natCast_nonneg _))
    | nothing _ hres' =>
      rw [hres'] at hres
      rw [List.mem_singleton.mp hres] at hr
      cases hr
    | unanswered hres' =>
      rw [hres'] at hres
      cases hres
  intro x hx
  refine ⟨(hclosed x hx).1, (hclosed x hx).2, fun t' ht' hc' hmem => ?_⟩
  cases hs.fates t' ht' hc' with
  | failed hr' hres' =>
    rw [hres'] at hmem
    rw [← List.mem_singleton.mp hmem] at hr'
    exact Int.not_lt.mpr (Int.natCast_nonneg _) hr'
  | @handedOut p hres' hobj hlive =>
    rw [hres'] at hmem
    have hp := asResult_inj (List.mem_singleton.mp hmem)
    rcases mem_made_self hc' p with ⟨c, hmade⟩
    rw [← hobj] at hmade
    -- the object would be open and closed
    have hone := (hclosed x hx).1
    rw [hp, (hlive _ hmade).1] at hone
    cases hone
  | nothing _ hres' =>
    rw [hres'] at hmem
    have hzero : x.2 = 0 := asResult_inj (List.mem_singleton.mp hmem)
    have hpos := (mem_objectsOf.mp hx).1
    rw [hzero] at hpos
    cases hpos
  | unanswered hres' =>
    rw [hres'] at hmem
    cases hmem

theorem Inv.handedOut (hs : Inv D s) (ht : t ∈ D) (hc : creates t.op = true) {r : Int}
    (hr : 0 ≤ r) (hres : r ∈ s.completed.results t.id) : HandedOut s t r := by
  cases hs.fates t ht hc with
  | failed hr' hres' =>
    rw [hres'] at hres
    rw [List.mem_singleton.mp hres] at hr
    exact absurd hr' (Int.not_lt.mpr hr)
  | @handedOut p hres' hobj hlive =>
    rw [hres'] at hres
    exact Or.inr ⟨p, List.mem_singleton.mp hres, hobj, hlive⟩
  | nothing hop hres' hobj =>
    rw [hres'] at hres
    exact Or.inl ⟨hop, List.mem_singleton.mp hres, hobj⟩
  | unanswered hres' =>
    rw [hres'] at hres
    cases hres

/-- The registry holds the listeners handed out. -/
theorem Inv.mem_listeners (hs : Inv D s) (p : Address) :
    p ∈ s.listeners ↔ ∃ t ∈ D, t.op = .tcpListen ∧ asResult p ∈ s.completed.results t.id := by
  constructor
  · intro hp
    rcases (hs.listed p hp).2 with ⟨t, ht, hop, hres⟩
    exact ⟨t, ht, hop, hres ▸ List.mem_singleton_self _⟩
  · rintro ⟨t, ht, hop, hres⟩
    have hc : creates t.op = true := by
      rw [hop]
      rfl
    cases hs.fates t ht hc with
    | failed hr hres' =>
      rw [hres'] at hres
      rw [← List.mem_singleton.mp hres] at hr
      exact absurd hr (Int.not_lt.mpr (Int.natCast_nonneg _))
    | @handedOut q hres' hobj hlive =>
      rw [hres'] at hres
      have hq := asResult_inj (List.mem_singleton.mp hres)
      have hmem : (OneShot.Class.listener, p) ∈ objectsOf s t.id := by
        rw [hobj, made, hop, hq]
        exact List.mem_singleton_self _
      exact (hlive _ hmem).2.mpr rfl
    | nothing hop' => cases hop.symm.trans hop'
    | unanswered hres' =>
      rw [hres'] at hres
      cases hres

/-- What a step makes of the registry: it is as before, or a listen has handed out a new listener. -/
def Registers (s : State) (a : Action) (u : State) : Prop :=
  u.listeners = s.listeners ∨ ∃ t uv, a = .dispatch t uv ∧ t.op = .tcpListen ∧
    u.listeners = s.listeners ++ [next s] ∧
    u.completed = s.completed ++ [(t.id, asResult (next s))]

theorem registers_step {a : Action} (h : step s a = some u) : Registers s a u := by
  have hquiet : ∀ {q : Request} {f : State → State}, answer s q f = some u →
      (∀ v, (f v).listeners = v.listeners) → u.listeners = s.listeners := by
    intro q f hanswer hf
    simp only [answer, Option.ite_none_right_eq_some, Option.some.injEq] at hanswer
    exact hanswer.2 ▸ hf _
  cases a with
  | dispatch t uv =>
    simp only [step, Option.ite_none_right_eq_some, Option.some.injEq] at h
    rcases h with ⟨-, rfl⟩
    by_cases hc : creates t.op = true
    · rcases (dispatched s t uv hc).listeners with heq | ⟨hop, heq, hcompleted, -⟩
      · exact Or.inl heq
      · exact Or.inr ⟨t, uv, rfl, hop, heq, hcompleted⟩
    · exact Or.inl (quiet_dispatch s uv (Bool.not_eq_true _ ▸ hc)).listeners
  | onConnect t p status =>
    exact Or.inl (hquiet (q := .connect t p) (f := (onConnect · t p status)) h
      fun v => (conclude_frame v t p status).2.1)
  | onGetaddrinfo t status res =>
    exact Or.inl (hquiet (q := .getaddrinfo t) (f := (onGetaddrinfo · t status res)) h
      fun v => (quiet_getaddrinfo v t status res).listeners)
  | onFsDone t req => exact Or.inl (hquiet (q := .fs t) (f := (onFsDone · t req)) h fun _ => rfl)
  | onTimer t => exact Or.inl (hquiet (q := .timer t) (f := (onTimer · t)) h fun _ => rfl)
  | onTimerClosed t =>
    exact Or.inl (hquiet (q := .timerClose t) (f := (onTimerClosed · t)) h fun _ => rfl)
  | onWrite t status =>
    exact Or.inl (hquiet (q := .write t) (f := (onWrite · t status)) h fun _ => rfl)

end

/-! ## 8. Handles are created as a whole or not at all -/

/-- **Operations that create handles.**  Whatever codes libuv returns and whatever runs in between:
when the task has a negative result, everything allocated for it is closed, once, and is neither in
the registry nor in a result; when it has a handle, exactly what belongs to the handle is open.
The registry holds the listeners handed out, and a step only ever adds a new one.  The same holds
of `on_connection` and its stream, in all that follows the call. -/
theorem handles_atomic :
    (∀ (as : List Action) (s : State), machine.run as = some s →
      (∀ t ∈ dispatches as, creates t.op = true → ∀ r ∈ s.completed.results t.id,
        (r < 0 → Undone (dispatches as) s t) ∧ (0 ≤ r → HandedOut s t r)) ∧
      (∀ p, p ∈ s.listeners ↔ ∃ t ∈ dispatches as, t.op = .tcpListen ∧
        asResult p ∈ s.completed.results t.id) ∧
      ∀ a u, step s a = some u → Registers s a u) ∧
    ∀ (as bs : List Accept.Action) (s u v : Accept.State) (l : Accept.Addr) (c : Accept.StreamId)
      (status acceptRc : Int), Accept.machine.run as = some s →
      Accept.step s (.onConnection l status c acceptRc) = some u →
      Accept.machine.runFrom u bs = some v →
      Connections.Connected s l c u status acceptRc ∧
      (acceptRc = 0 → c ∉ u.dropped) ∧
      (0 ≤ status → acceptRc ≠ 0 → v.dropped.count c = 1 ∧
        (∀ l', c ∉ Connections.backlog v.heap l') ∧ ¬ Connections.Handed v c) ∧
      (Connections.Handed v c → c ∉ v.dropped ∧ ∀ l', c ∉ Connections.backlog v.heap l') := by
  constructor
  · intro as s hrun
    have hs := inv_of_run hrun
    exact ⟨fun t ht hc r hres => ⟨fun hr => hs.undone ht hc hr hres,
      fun hr => hs.handedOut ht hc hr hres⟩, hs.mem_listeners, fun a u h => registers_step h⟩
  · intro as bs s u v l c status acceptRc hs hu hv
    have hreach : Accept.machine.Reachable s := ⟨as, hs⟩
    have hreachu : Accept.machine.Reachable u :=
      hreach.step (a := .onConnection l status c acceptRc) hu
    have hcall := Connections.connected (Connections.custody_reachable hreach) hu
    have hnew : 0 < c ∧ c ∉ s.streams := by
      cases (Accept.step_cases hu).2 with
      | onConnection _ _ hpos hnew => exact ⟨hpos, hnew⟩
    have hbefore := (Connections.custody_reachable hreach).place c hnew.1
    have hplace := (Connections.custody_reachable (hreachu.runFrom hv)).place c hnew.1
    refine ⟨hcall, fun hrc => ?_, fun hstatus hrc => ?_, hplace.of_handed⟩
    · have hopen := List.count_eq_zero.mp (hbefore.fresh hnew.2).dropped
      cases hcall with
      | status _ heq => exact heq ▸ hopen
      | acceptFailed _ hne => exact absurd hrc hne
      | handed _ _ _ hdropped => exact hdropped ▸ hopen
      | kept _ hdropped => exact hdropped ▸ hopen
    refine hplace.of_dropped (Accept.machine.runFrom_invariant
      (P := fun s => c ∈ s.dropped) (fun _ _ _ hc h => Connections.mem_dropped_step h hc) ?_ hv)
    cases hcall with
    | status hneg => exact absurd hstatus (Int.not_le.mpr hneg)
    | acceptFailed _ _ heq =>
      rw [heq]
      exact List.mem_cons_self
    | handed => exact absurd rfl hrc
    | kept => exact absurd rfl hrc

def failingSpawn : Task := { id := 1, op := .procSpawn, stdioMode := 1 }
def refusedConnect : Task := { id := 2, op := .tcpConnect }
def listening : Task := { id := 3, op := .tcpListen }
def capturingSpawn : Task := { id := 4, op := .procSpawn, stdioMode := 1 }

/-- A spawn with pipes that fails, a connect that is refused later, a listen, and a spawn with
pipes that succeeds. -/
def spawnsAndConnect : List Action :=
  [.dispatch failingSpawn { spawn := -2 }, .dispatch refusedConnect {}, .dispatch listening {},
    .onConnect refusedConnect 5 (-111), .dispatch capturingSpawn {}]

/-- An accept waits. -/
def waitingAccept : List Accept.Action :=
  [.tcpListen 1 16 0, .tcpAccept 2 16]

theorem handles_atomic_spawnsAndConnect :
    (∃ s, machine.run spawnsAndConnect = some s ∧ s.closed = [2, 3, 4, 1, 5] ∧ s.listeners = [6] ∧
      Undone (dispatches spawnsAndConnect) s failingSpawn ∧
      Undone (dispatches spawnsAndConnect) s refusedConnect ∧ HandedOut s capturingSpawn 7) ∧
    ∃ s u v, Accept.machine.run waitingAccept = some s ∧
      Accept.step s (.onConnection 16 0 64 (-24)) = some u ∧
      Accept.machine.runFrom u [.onConnection 16 0 65 0] = some v ∧
      Connections.Connected s 16 64 u 0 (-24) ∧ v.dropped.count 64 = 1 ∧
      ¬ Connections.Handed v 64 ∧ v.completed = [(1, 16), (2, 65)] := by
  constructor
  · have hend : ∃ s, machine.run spawnsAndConnect = some s ∧ s.closed = [2, 3, 4, 1, 5] ∧
        s.listeners = [6] ∧ s.completed = [(1, -2), (3, 6), (2, -111), (4, 7)] :=
      ⟨_, rfl, rfl, rfl, rfl⟩
    rcases hend with ⟨s, hrun, hclosed, hlisteners, hcompleted⟩
    have h := (handles_atomic.1 _ s hrun).1
    refine ⟨s, hrun, hclosed, hlisteners, ?_, ?_, ?_⟩
    · exact (h failingSpawn (by decide) rfl (-2) (by rw [hcompleted]; decide)).1 (by decide)
    · exact (h refusedConnect (by decide) rfl (-111) (by rw [hcompleted]; decide)).1 (by decide)
    · exact (h capturingSpawn (by decide) rfl 7 (by rw [hcompleted]; decide)).2 (by decide)
  · have hend : ∃ s u v, Accept.machine.run waitingAccept = some s ∧
        Accept.step s (.onConnection 16 0 64 (-24)) = some u ∧
        Accept.machine.runFrom u [.onConnection 16 0 65 0] = some v ∧
        v.completed = [(1, 16), (2, 65)] :=
      ⟨_, _, _, rfl, rfl, rfl, rfl⟩
    rcases hend with ⟨s, u, v, hs, hu, hv, hcompleted⟩
    have h := handles_atomic.2 _ _ s u v _ _ _ _ hs hu hv
    have hfailed := h.2.2.1 (by decide) (by decide)
    exact ⟨s, u, v, hs, hu, hv, h.1, hfailed.1, hfailed.2.2, hcompleted⟩

end ChezAsync.Handles
