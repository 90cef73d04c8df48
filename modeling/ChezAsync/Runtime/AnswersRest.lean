import ChezAsync.Runtime.TaskCustody

/-!
# Answers come to rest (`runtime.cpp`, `rt_ffi.cpp`)

What the accessors read of a task is written by the steps of the place that holds it, the last time
by the step that completes it.  From then on no step writes to the task any more and no place refers
to it, whatever the loop goes on to do.
-/

namespace ChezAsync.AnswersRest

open Shutdown (State machine streamsView oneShotView processView watcherView)
open TaskCustody (Place held dropped Kept)

/-! ## 1. What the accessors read -/

/-- What `rt_task_result` and the accessors of the output fields give for one task. -/
structure Answer where
  results : List Int
  /-- `statbuf`, `str_out` and `names`, as the one-shot operations fill them in. -/
  out : OneShot.Out
  /-- `str_out`, as the watchers fill it in. -/
  strOut : Nat → String
  /-- `buffer`. -/
  buffer : List UInt8

def answer (s : State) (t : TaskId) : Answer :=
  { results := s.rt.completed.results t, out := s.oneShot.out t
    strOut := fun w => (s.watchers w).strOut t, buffer := s.streams.memory (.buffer t) }

/-! ## 2. The fields of the tasks that a part does not hold -/

section OneShot

variable {s u : OneShot.State} {t : TaskId}

theorem out_conclude (s : OneShot.State) (t : OneShot.Task) (p : OneShot.Address) (r : Int) :
    (OneShot.conclude s t p r).out = s.out := by
  unfold OneShot.conclude
  split <;> rfl

theorem out_startReq (s : OneShot.State) (rc : Int) (q : OneShot.Request) :
    (OneShot.startReq s rc q).out = s.out := by
  unfold OneShot.startReq
  split <;> rfl

theorem out_startOrFail (s : OneShot.State) (t : OneShot.Task) (rc : Int) (q : OneShot.Request) :
    (OneShot.startOrFail s t rc q).out = s.out := by
  unfold OneShot.startOrFail
  simp only
  split
  · exact out_startReq s rc q
  · exact out_startReq s rc q

theorem out_foldl_close (pipes : List OneShot.Address) (s : OneShot.State) :
    (pipes.foldl OneShot.close s).out = s.out := by
  induction pipes generalizing s with
  | nil => rfl
  | cons p pipes ih => exact ih _

/-- A dispatch fills in nothing. -/
theorem out_dispatch (s : OneShot.State) (t : OneShot.Task) (uv : OneShot.Uv) :
    (OneShot.dispatch s t uv).out = s.out := by
  unfold OneShot.dispatch
  split
  case h_13 =>
    unfold OneShot.tcpConnect
    simp only
    split
    · split
      · exact out_startReq _ _ _
      · exact out_startReq _ _ _
    · split <;> rfl
  case h_14 =>
    unfold OneShot.tcpListen
    simp only
    rw [out_conclude]
    split <;> rfl
  case h_15 => exact out_startOrFail s t _ _
  case h_16 => exact out_startOrFail s t _ _
  case h_17 =>
    unfold OneShot.procSpawn
    simp only
    rw [out_conclude]
    split <;> split <;> (try rw [out_foldl_close]) <;> rfl
  case h_18 => rfl
  case h_19 => exact out_conclude _ t _ _
  case h_20 =>
    simp only [OneShot.stdioOpen]
    split
    · rfl
    · split
      · rfl
      · exact out_conclude _ t _ _
  all_goals exact out_startReq s _ _

/-- A callback fills in the task of its request. -/
theorem out_answer {q : OneShot.Request} {f : OneShot.State → OneShot.State}
    (hf : ∀ v, (f v).out t = v.out t ∨ q.task.id = t) (ht : t ∉ TaskCustody.requestsHold s)
    (h : OneShot.answer s q f = some u) : u.out t = s.out t := by
  simp only [OneShot.answer, Option.ite_none_right_eq_some, Option.some.injEq] at h
  rw [← h.2]
  refine (hf _).resolve_right fun heq => ht ?_
  exact List.mem_map.mpr ⟨q, h.1, heq⟩

theorem out_update (v : OneShot.State) (t' t : TaskId) (o : OneShot.Out) :
    Function.update v.out t' o t = v.out t ∨ t' = t := by
  by_cases heq : t = t'
  · exact Or.inr heq.symm
  · exact Or.inl (Function.update_of_ne heq _ _)

theorem out_step {a : OneShot.Action} (ht : t ∉ TaskCustody.requestsHold s)
    (h : OneShot.step s a = some u) : u.out t = s.out t := by
  cases a with
  | dispatch t' uv =>
    simp only [OneShot.step, Option.ite_none_right_eq_some, Option.some.injEq] at h
    rw [← h.2]
    exact congrFun (out_dispatch s t' uv) t
  | onFsDone t' req =>
    exact out_answer (q := .fs t') (f := (OneShot.onFsDone · t' req))
      (fun v => out_update v _ t _) ht h
  | onGetaddrinfo t' status res =>
    exact out_answer (q := .getaddrinfo t') (f := (OneShot.onGetaddrinfo · t' status res))
      (fun v => out_update v _ t _) ht h
  | onConnect t' p status =>
    exact out_answer (q := .connect t' p) (f := (OneShot.onConnect · t' p status))
      (fun v => Or.inl (congrFun (out_conclude v t' p status) t)) ht h
  | onTimer t' =>
    exact out_answer (q := .timer t') (f := (OneShot.onTimer · t')) (fun _ => Or.inl rfl) ht h
  | onTimerClosed t' =>
    exact out_answer (q := .timerClose t') (f := (OneShot.onTimerClosed · t'))
      (fun _ => Or.inl rfl) ht h
  | onWrite t' status =>
    exact out_answer (q := .write t') (f := (OneShot.onWrite · t' status)) (fun _ => Or.inl rfl)
      ht h

end OneShot

/-- A watcher fills in the task that it hands an event to: the pending or the dispatched one. -/
theorem strOut_step {s u : Watch.State} {a : Watch.Action} {t : TaskId} (hmem : t ∈ s.tasks)
    (ht : t ∉ TaskCustody.watcherHolds s) (h : Watch.step s a = some u) :
    u.strOut t = s.strOut t := by
  cases Watch.step_cases h with
  | @queued t' _ _ hnew =>
    have hne : t ≠ t' := by
      rintro rfl
      exact hnew hmem
    exact Function.update_of_ne hne _ _
  | @handOver _ _ _ p hlive hp =>
    have hne : t ≠ p := by
      rintro rfl
      simp [TaskCustody.watcherHolds, hlive, hp] at ht
    exact Function.update_of_ne hne _ _
  | _ => rfl

section Stream

/-- `Complete` writes no buffer. -/
theorem memory_streamRead (s : Stream.State) (t : Stream.ReadTask) (rc : Int) :
    (Stream.streamRead s t rc).memory = s.memory := by
  unfold Stream.streamRead
  split
  · rfl
  · dsimp only
    split
    · rfl
    · split <;> rfl

theorem memory_onRead (s : Stream.State) (nread : Int) :
    (Stream.onRead s nread).memory = s.memory := by
  unfold Stream.onRead
  split
  · rfl
  · split
    · rfl
    · split
      · dsimp only
        split <;> rfl
      · rw [Stream.completeAll_eq]
        rfl

theorem memory_cancelPendingReads (s : Stream.State) :
    (Stream.cancelPendingReads s).memory = s.memory := by
  unfold Stream.cancelPendingReads
  split
  · simp only [Stream.stopIfActive_eq, Stream.completeAll_eq]
  · rfl

/-- libuv writes into the buffer of the front reader. -/
theorem memory_step {s u : Stream.State} {act : Stream.Action} {b : Stream.Buffer}
    (hb : ∀ t ∈ s.readQueue, t.data ≠ b) (h : Stream.step s act = some u) :
    u.memory b = s.memory b := by
  cases act with
  | streamRead t rc =>
    simp only [Stream.step, Option.ite_none_right_eq_some, Option.some.injEq] at h
    rw [← h.2]
    exact congrFun (memory_streamRead s t rc) b
  | streamClose t =>
    simp only [Stream.step, Option.ite_none_right_eq_some, Option.some.injEq] at h
    rw [← h.2]
    simp only [Stream.streamClose, Stream.stopIfActive_eq, Stream.completeAll_eq]
  | onSignal =>
    simp only [Stream.step, Option.ite_none_right_eq_some, Option.some.injEq] at h
    rw [← h.2]
    exact congrFun (memory_cancelPendingReads _) b
  | read e =>
    simp only [Stream.step, Option.ite_none_right_eq_some] at h
    rcases h with ⟨-, h⟩
    split at h
    case h_1 bytes b' len hoffer =>
      simp only [Option.ite_none_right_eq_some, Option.some.injEq] at h
      rw [← h.2, memory_onRead]
      -- the buffer offered is that of the front reader
      unfold Stream.onAlloc at hoffer
      split at hoffer
      case h_2 => cases hoffer
      case h_1 t ts hq =>
        cases hoffer
        have hne : t.data ≠ b := hb t (by rw [hq]; exact List.mem_cons_self)
        exact Function.update_of_ne hne.symm _ _
    case h_2 =>
      simp only [Option.ite_none_right_eq_some, Option.some.injEq] at h
      rw [← h.2, memory_onRead]
    case h_3 =>
      simp only [Option.ite_none_right_eq_some, Option.some.injEq] at h
      rw [← h.2, memory_onRead]
    case h_4 => cases h

theorem memory_stepAt {s u : Streams.State} {a : Streams.Addr} {act : Stream.Action} {t : TaskId}
    (ht : t ∉ TaskCustody.streamHolds (s.heap a)) (h : Streams.stepAt s a act = some u) :
    u.memory (.buffer t) = s.memory (.buffer t) := by
  rcases Streams.stepAt_cases h with ⟨x, v, hx, hv, rfl⟩
  refine memory_step (fun t' ht' heq => ht ?_) hv
  have hid : t'.id = t := by
    unfold Stream.ReadTask.data at heq
    split at heq
    · cases heq
    · exact Stream.Buffer.buffer.inj heq
  rw [hx, ← hid]
  exact List.mem_append_left _ (List.mem_map.mpr ⟨t', ht', rfl⟩)

theorem memory_cancelAt (s : Streams.State) (a : Streams.Addr) :
    (Streams.cancelAt s a).memory = s.memory := by
  unfold Streams.cancelAt
  split
  · exact memory_cancelPendingReads _
  · rfl

theorem memory_foldl_cancelAt (order : List Streams.Addr) (s : Streams.State) :
    (order.foldl Streams.cancelAt s).memory = s.memory := by
  induction order generalizing s with
  | nil => rfl
  | cons a order ih => rw [List.foldl_cons, ih, memory_cancelAt]

theorem memory_streams {s u : Streams.State} {act : Streams.Action} {t : TaskId}
    (ht : ∀ a, t ∉ TaskCustody.streamHolds (s.heap a)) (h : Streams.step s act = some u) :
    u.memory (.buffer t) = s.memory (.buffer t) := by
  cases Streams.step_cases h with
  | newStream | refused | onClosed => rfl
  | @streamRead a t' _ _ _ _ hu =>
    exact memory_stepAt (s := { s with tasks := t'.id :: s.tasks, reads := t'.id :: s.reads })
      (ht a) hu
  | read hu => exact memory_stepAt (ht _) hu
  | @streamClose a t' _ _ hu =>
    exact memory_stepAt (s := { s with tasks := t' :: s.tasks }) (ht a) hu
  | sweep => exact congrFun (memory_foldl_cancelAt _ _) (.buffer t)

end Stream

/-! ## 3. The whole runtime -/

section
variable {s u : State} {t : TaskId}

/-- The aborts of the signal handler complete tasks, and the record keeps the earlier ones. -/
theorem grows_abort (order : List Accept.Addr) (rt : Accept.State) :
    rt.completed <+: (order.foldl (fun rt l => Accept.abortListener rt l none) rt).completed := by
  induction order generalizing rt with
  | nil => exact List.prefix_refl _
  | cons l order ih =>
    refine List.IsPrefix.trans ?_ (ih (Accept.abortListener rt l none))
    unfold Accept.abortListener
    split
    · exact List.prefix_refl _
    · exact List.prefix_append _ _

theorem grows_sweep (order : List Streams.Addr) (v : Streams.State) :
    v.completed <+: (order.foldl Streams.cancelAt v).completed := by
  induction order generalizing v with
  | nil => exact List.prefix_refl _
  | cons a order ih =>
    refine List.IsPrefix.trans ?_ (ih (Streams.cancelAt v a))
    unfold Streams.cancelAt
    split
    · exact List.prefix_append _ _
    · exact List.prefix_refl _

theorem grows_onSignal (rt : Accept.State) (signum : Int) (order : List Accept.Addr) :
    rt.completed <+: (Accept.onSignal rt signum order).completed := by
  unfold Accept.onSignal
  split
  · exact List.prefix_refl _
  · exact grows_abort order { rt with shutdownSignaled := true, shutdownSignum := signum }

/-- No step takes a completion back. -/
theorem grows_step {a : Shutdown.Action} (hs : Shutdown.Inv s) (hsound : TaskCustody.AllSound s)
    (h : Shutdown.step s a = some u) : s.rt.completed <+: u.rt.completed := by
  obtain ⟨hexit, hstep⟩ := Shutdown.step_cases h
  cases hstep with
  | listeners ha hrt =>
    obtain ⟨l, new, cs, hturn⟩ := TaskCustody.turn_listeners hs.registry ha hrt
    exact hturn.turn.completed ▸ List.prefix_append _ _
  | streams ha hv =>
    obtain ⟨⟨b, new, cs, hturn⟩, -⟩ :=
      TaskCustody.turn_streams (hs.streams hexit) hsound.streams ha hv
    exact hturn.turn.completed ▸ List.prefix_append _ _
  | oneShot hv => exact OneShot.grows_step hv
  | @process p a v hv =>
    have hold : TaskCustody.SoundProcess (processView s p) := { hsound.processes p with }
    obtain ⟨⟨new, cs, hturn⟩, -⟩ := TaskCustody.turn_process hold hv
    exact hturn.completed ▸ List.prefix_append _ _
  | @watcher w a v hv =>
    have hold : TaskCustody.Sound (watcherView s w).handle := hsound.watchers w
    obtain ⟨⟨new, cs, hturn⟩, -⟩ := TaskCustody.turn_watcher hold hv
    exact hturn.completed ▸ List.prefix_append _ _
  | exit => exact grows_onSignal _ _ _
  | @signal signum order sweep v _ _ _ hv =>
    refine List.IsPrefix.trans (grows_onSignal s.rt signum order) ?_
    cases Streams.step_cases hv with
    | sweep =>
      exact grows_sweep sweep { streamsView { s with rt := Accept.onSignal s.rt signum order } with
        shutdownSignaled := true }

/-- The fields of a task are written while some place holds it. -/
theorem fields_step {a : Shutdown.Action} (hmem : t ∈ s.rt.tasks) (ht : ∀ i, t ∉ held s i)
    (h : Shutdown.step s a = some u) :
    u.oneShot.out t = s.oneShot.out t ∧ (∀ w, (u.watchers w).strOut t = (s.watchers w).strOut t) ∧
      u.streams.memory (.buffer t) = s.streams.memory (.buffer t) := by
  obtain ⟨-, hstep⟩ := Shutdown.step_cases h
  cases hstep with
  | listeners | process | exit => exact ⟨rfl, fun _ => rfl, rfl⟩
  | streams _ hv =>
    exact ⟨rfl, fun _ => rfl, memory_streams (s := streamsView s) (fun b => ht (.stream b)) hv⟩
  | oneShot hv => exact ⟨out_step (s := oneShotView s) (ht .requests) hv, fun _ => rfl, rfl⟩
  | @watcher w a v hv =>
    refine ⟨rfl, fun w' => ?_, rfl⟩
    by_cases hw : w' = w
    · subst hw
      show (Function.update s.watchers w' v w').strOut t = _
      rw [Function.update_self]
      exact strOut_step (s := watcherView s w') hmem (ht (.watcher w')) hv
    · show (Function.update s.watchers w v w').strOut t = _
      rw [Function.update_of_ne hw]
  | @signal signum order _ _ _ _ _ hv =>
    exact ⟨rfl, fun _ => rfl,
      memory_streams (s := streamsView { s with rt := Accept.onSignal s.rt signum order })
        (fun b => ht (.stream b)) hv⟩

/-- A result that is there stays the only one. -/
theorem results_of_grows {lost : List TaskId} (hu : Kept u lost)
    (hgrow : s.rt.completed <+: u.rt.completed) (hne : s.rt.completed.results t ≠ []) :
    u.rt.completed.results t = s.rt.completed.results t := by
  obtain ⟨cs, hcs⟩ := hgrow
  have hone := hu.results_le_one t
  rw [← hcs, Completions.results_append] at hone ⊢
  rw [List.length_append] at hone
  have hpos := List.length_pos_iff.mpr hne
  have hnil : Completions.results cs t = [] := List.length_eq_zero_iff.mp (by omega)
  rw [hnil, List.append_nil]

/-- The task `t` has been completed. -/
theorem answer_step {lost : List TaskId} {a : Shutdown.Action} (hs : Kept s lost)
    (hne : s.rt.completed.results t ≠ []) (h : Shutdown.step s a = some u) :
    answer u t = answer s t := by
  have hmem := (hs.mem_tasks t).mpr (Or.inl hne)
  have hfree : ∀ i, t ∉ held s i := fun i hi => hne (hs.open_of_held hi).1
  have hfields := fields_step hmem hfree h
  have hres := results_of_grows (TaskCustody.kept_step hs h) (grows_step hs.inv hs.sound h) hne
  simp only [answer, hres, hfields.1, hfields.2.1, hfields.2.2]

theorem answer_runFrom {lost : List TaskId} {as : List Shutdown.Action} (hs : Kept s lost)
    (hne : s.rt.completed.results t ≠ []) (hrun : machine.runFrom s as = some u) :
    answer u t = answer s t := by
  induction as generalizing s lost with
  | nil =>
    rw [Machine.runFrom_nil, Option.some.injEq] at hrun
    rw [hrun]
  | cons a as ih =>
    obtain ⟨v, hv, hrest⟩ := machine.runFrom_cons.mp hrun
    have hstep := answer_step hs hne hv
    have hres : (answer v t).results = (answer s t).results := congrArg Answer.results hstep
    exact (ih (TaskCustody.kept_step hs hv) (fun h => hne (hres.symm.trans h)) hrest).trans hstep

end

/-- **An answer comes to rest.**  Once a task has its result, no schedule changes what the accessors
read of it, no place ever refers to it again, and no step drops it. -/
theorem answer_rests {as bs : List Shutdown.Action} {s u : State} {t : TaskId}
    (hrun : machine.run as = some s) (hans : s.rt.completed.results t ≠ [])
    (hrest : machine.runFrom s bs = some u) :
    answer u t = answer s t ∧ (∀ i, t ∉ held u i) ∧ t ∉ machine.outputs dropped s bs := by
  have hs := TaskCustody.kept_run hrun
  have hu := TaskCustody.kept_runFrom hs hrest
  have hsame := answer_runFrom hs hans hrest
  have hans' : u.rt.completed.results t ≠ [] := by
    rw [show u.rt.completed.results t = s.rt.completed.results t from congrArg Answer.results hsame]
    exact hans
  refine ⟨hsame, fun i hi => hans' (hu.open_of_held hi).1, fun hlost => ?_⟩
  exact hans' (hu.open_of_lost (List.mem_append_right _ hlost))

/-- A read gets its bytes; then two more reads of the same stream get theirs. -/
def firstRead : List Shutdown.Action :=
  [.streams (.newStream 64), .streams (.streamRead 64 ⟨1, 8, none⟩ 0),
    .streams (.read 64 (.data [7, 8]))]

def laterReads : List Shutdown.Action :=
  [.streams (.streamRead 64 ⟨2, 8, none⟩ 0), .streams (.streamRead 64 ⟨3, 8, none⟩ 0),
    .streams (.read 64 (.data [9])), .streams (.read 64 (.fail (-104)))]

theorem answer_rests_firstRead :
    ∃ s u, machine.run firstRead = some s ∧ machine.runFrom s laterReads = some u ∧
      (answer s 1).buffer = [7, 8] ∧ answer u 1 = answer s 1 :=
  ⟨_, _, rfl, rfl, by decide, (@answer_rests firstRead laterReads _ _ 1 rfl (by decide) rfl).1⟩

end ChezAsync.AnswersRest
