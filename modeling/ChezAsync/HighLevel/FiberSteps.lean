import ChezAsync.HighLevel.FiberPlaces

/-!
# The steps of a fiber's code

The invariant of the machine: at each place of a call of `run-fiber!`, where the winders, the
frames, the meta-prompt and the record of the run stand to each other; and that every contained step
keeps it.
-/

namespace ChezAsync.ShiftReset

open ChezAsync.Async (FutureId)
open DynamicWind (bound)

variable {V : Type} {outer : Outer V} {s t u : State V}

/-! ## 1. The invariant -/

/-- How the code of the fiber `f` comes to the end of a step, and what the call is to return. -/
inductive Ends (f : FutureId) : Event V → StepResult V → Prop
  | parked : Ends f (.parked f) .suspended
  | finished (v : V) : Ends f (.finished f v) (.ok v)
  | failed (e : V) : Ends f (.failed f e) (.err e)

/-- The record of `n` calls of `run-fiber!`: each has returned once, before the next one, with what
the code of its fiber came to and with the cells as they were. -/
inductive Calls (cells : Cells V) : Nat → List (Event V) → Prop
  | nil : Calls cells 0 []
  | call {n : Nat} {tr : List (Event V)} {f : FutureId} {e : Event V} {x : StepResult V}
      (h : Calls cells n tr) (he : Ends f e x) :
      Calls cells (n + 1) (tr ++ [.called n (some f) cells, e, .returned n x cells])

/-- The `n`-th call is on, for the fiber `f`, and `es` has been recorded since. -/
structure InCall (outer : Outer V) (s : State V) (f : FutureId) (n : Nat)
    (es : List (Event V)) : Prop where
  trace : ∃ tr, Calls outer.toCells n tr ∧
    s.trace = tr ++ .called n (some f) outer.toCells :: es
  calls : s.calls = n + 1

/-- The meta-prompt returns to the `n`-th call. -/
def Prompted (outer : Outer V) (s : State V) (f : FutureId) (n : Nat) : Prop :=
  ∃ w, s.kinds[w]? = some (.currentFiber (some f)) ∧
    s.metaPrompt = .prompt outer.metaPrompt ⟨callFrames f n w, [w]⟩

/-- How far the `n`-th call is at a place with the given departure: the step is on, or `park!` has
left it. -/
def Course (outer : Outer V) (s : State V) (f : FutureId) (n : Nat) : Option Nat → Prop
  | none => Prompted outer s f n ∧ InCall outer s f n []
  | some m => m = n ∧ s.metaPrompt = outer.metaPrompt ∧ InCall outer s f n [.parked f]

/-- Where the machine stands. -/
inductive Stage (outer : Outer V) (s : State V) : Prop
  | idle (hc : s.control = .idle) (hstack : s.stack = []) (hws : s.winders = [])
      (hmp : s.metaPrompt = outer.metaPrompt) (hcalls : Calls outer.toCells s.calls s.trace)
  | code {f : FutureId} {n : Nat}
      (hc : (∃ b, s.control = .run f b) ∨ ∃ v, s.control = .ret (.user v))
      (hk : Fits outer s.kinds f (.frames s.stack s.winders))
      (hcourse : Course outer s f n (departure s.stack))
  | raising {f : FutureId} {n : Nat} {e : V} {hs : List (Handler V)}
      (hc : s.control = .raise (some f) e) (hws : Fits outer s.kinds f (.winders s.winders hs))
      (hcourse : Course outer s f n (departure s.stack))
  | jumping {f : FutureId} {n : Nat} {k : Kont V} {x : Focus V} (hc : s.control = .jump k x)
      (hws : Below outer s.kinds f s.winders) (hk : Fits outer s.kinds f (.target k x))
      (hcourse : Course outer s f n (departure k.stack))
  -- the value of a step on its way from the code to the call
  | leaving {f : FutureId} {n g w : Nat} {e : Event V} {x : StepResult V} {K : List (Frame V)}
      (hc : s.control = .ret (.step x))
      (hstack : s.stack = .guard g (.runStep f) :: .result :: K) (hws : s.winders = [g, w])
      (hw : Swaps s.kinds w) (hp : Prompted outer s f n) (hcall : InCall outer s f n [e])
      (he : Ends f e x)
  | result {f : FutureId} {n w : Nat} {e : Event V} {x : StepResult V} {K : List (Frame V)}
      (hc : s.control = .ret (.step x)) (hstack : s.stack = .result :: K) (hws : s.winders = [w])
      (hw : Swaps s.kinds w) (hp : Prompted outer s f n) (hcall : InCall outer s f n [e])
      (he : Ends f e x)
  | returning {f : FutureId} {n w : Nat} {e : Event V} {x : StepResult V}
      (hc : s.control = .jump ⟨callFrames f n w, [w]⟩ (.value (.step x)))
      (hswaps : ∀ v ∈ s.winders, Swaps s.kinds v)
      (hw : s.kinds[w]? = some (.currentFiber (some f))) (hmp : s.metaPrompt = outer.metaPrompt)
      (hcall : InCall outer s f n [e]) (he : Ends f e x)
  | back {f : FutureId} {n w : Nat} {e : Event V} {x : StepResult V}
      (hc : s.control = .ret (.step x)) (hstack : s.stack = callFrames f n w)
      (hws : s.winders = [w]) (hmp : s.metaPrompt = outer.metaPrompt)
      (hcall : InCall outer s f n [e]) (he : Ends f e x)
  | handle {f : FutureId} {n : Nat} {e : Event V} {x : StepResult V}
      (hc : s.control = .ret (.step x)) (hstack : s.stack = [.handleStep n (some f)])
      (hws : s.winders = []) (hmp : s.metaPrompt = outer.metaPrompt)
      (hcall : InCall outer s f n [e]) (he : Ends f e x)

/-- The continuations that are kept are places in the code of the fibers they are kept for. -/
structure Known (outer : Outer V) (s : State V) : Prop where
  wakes : ∀ p ∈ s.wakes, ∃ f, p.1 = some f ∧
    Fits outer s.kinds f (.frames p.2.stack p.2.winders) ∧ departure p.2.stack = none
  konts : ∀ p ∈ s.konts, Fits outer s.kinds p.1 (.frames p.2.stack p.2.winders)

structure Inv (outer : Outer V) (s : State V) : Prop where
  winds : Winds outer s
  known : Known outer s
  stage : Stage outer s

section
variable {f : FutureId} {n : Nat} {d : Option Nat}

theorem Known.mono (h : Known outer s) (hkinds : s.kinds <+: u.kinds) (hwakes : u.wakes = s.wakes)
    (hkonts : u.konts = s.konts) : Known outer u := by
  refine ⟨fun p hp => ?_, fun p hp => ?_⟩
  · rcases h.wakes p (hwakes ▸ hp) with ⟨f, hf, hk, hd⟩
    exact ⟨f, hf, hk.mono hkinds, hd⟩
  · exact (h.konts p (hkonts ▸ hp)).mono hkinds

theorem Prompted.mono (h : Prompted outer s f n) (hkinds : s.kinds <+: u.kinds)
    (hmp : u.metaPrompt = s.metaPrompt) : Prompted outer u f n := by
  rcases h with ⟨w, hw, heq⟩
  exact ⟨w, kind_mono hkinds hw, hmp.trans heq⟩

theorem InCall.congr {es : List (Event V)} (h : InCall outer s f n es) (htrace : u.trace = s.trace)
    (hcalls : u.calls = s.calls) : InCall outer u f n es := by
  rcases h.trace with ⟨tr, htr, heq⟩
  exact ⟨⟨tr, htr, htrace.trans heq⟩, hcalls.trans h.calls⟩

theorem Course.congr (h : Course outer s f n d) (hkinds : s.kinds <+: u.kinds)
    (hmp : u.metaPrompt = s.metaPrompt) (htrace : u.trace = s.trace) (hcalls : u.calls = s.calls) :
    Course outer u f n d := by
  cases d with
  | none => exact ⟨h.1.mono hkinds hmp, h.2.congr htrace hcalls⟩
  | some m => exact ⟨h.1, hmp.trans h.2.1, h.2.2.congr htrace hcalls⟩

theorem Course.kept (h : Course outer s f n d) (hkinds : s.kinds <+: u.kinds) (hkept : Kept s u) :
    Course outer u f n d := h.congr hkinds hkept.metaPrompt hkept.trace hkept.calls

/-- During the `n`-th call, before its step is on its way back. -/
structure During (outer : Outer V) (s : State V) (f : FutureId) (n : Nat) (d : Option Nat) :
    Prop where
  winds : Winds outer s
  known : Known outer s
  course : Course outer s f n d

/-- In the code of the fiber. -/
structure InCode (outer : Outer V) (s : State V) (f : FutureId) (n : Nat) : Prop
    extends During outer s f n (departure s.stack) where
  frames : Fits outer s.kinds f (.frames s.stack s.winders)

theorem During.at (h : During outer s f n d) (c : Control V) (K : List (Frame V)) :
    During outer { s with control := c, stack := K } f n d :=
  ⟨h.winds.congr rfl rfl rfl rfl, h.known.mono (List.prefix_refl _) rfl rfl,
    h.course.kept (List.prefix_refl _) ⟨rfl, rfl, rfl, rfl, rfl⟩⟩

theorem During.moved {ws : List Nat} (h : During outer s f n d) (hw : Winds outer u)
    (hm : Moved s ws u) : During outer u f n d :=
  have hkinds : s.kinds <+: u.kinds := hm.kinds ▸ List.prefix_refl _
  ⟨hw, h.known.mono hkinds hm.wakes hm.konts, h.course.kept hkinds hm.toKept⟩

theorem Entered.ext {kind : Kind V} {frame : Nat → Frame V} (h : Entered s kind frame u) :
    s.kinds <+: u.kinds := h.kinds ▸ List.prefix_append _ _

theorem During.wind (h : During outer s f n d) (kind : Kind V) (frame : Nat → Frame V) :
    During outer (s.wind kind frame) f n d :=
  have hspec := entered_wind s kind frame
  ⟨h.winds.wind kind frame, h.known.mono hspec.ext hspec.wakes hspec.konts,
    h.course.kept hspec.ext hspec.toKept⟩

theorem InCode.at (h : InCode outer s f n) (c : Control V) :
    InCode outer { s with control := c } f n :=
  ⟨h.toDuring.at c s.stack, h.frames⟩

theorem InCode.inv (h : InCode outer s f n)
    (hc : (∃ b, s.control = .run f b) ∨ ∃ v, s.control = .ret (.user v)) : Inv outer s :=
  ⟨h.winds, h.known, .code hc h.frames h.course⟩

theorem InCode.run (h : InCode outer s f n) (b : Body V) :
    Inv outer { s with control := .run f b } := (h.at _).inv (.inl ⟨b, rfl⟩)

theorem InCode.ret (h : InCode outer s f n) (v : V) :
    Inv outer { s with control := .ret (.user v) } := (h.at _).inv (.inr ⟨v, rfl⟩)

/-- On the way to a continuation. -/
theorem During.jump {k : Kont V} {x : Focus V} (h : During outer s f n (departure k.stack))
    (hws : Below outer s.kinds f s.winders) (hk : Fits outer s.kinds f (.target k x)) :
    Inv outer (s.jump k x) :=
  have hat := h.at (.jump k x) s.stack
  ⟨hat.winds, hat.known, .jumping rfl hws hk hat.course⟩

/-- What holds where code of the fiber runs or raises. -/
theorem Winds.cells {hs : List (Handler V)} (h : Winds outer s)
    (hws : Fits outer s.kinds f (.winders s.winders hs)) :
    s.currentFiber.value = some f ∧ s.handlers.value = hs ++ outer.handlers :=
  ⟨h.fiber.value.trans hws.place.fiber, h.handlers.value.trans hws.place.handlers⟩

theorem InCode.winders (h : InCode outer s f n) :
    ∃ hs, Fits outer s.kinds f (.winders s.winders hs) := h.frames.frames_winders

/-- Other frames in the same winders. -/
theorem InCode.with (h : InCode outer s f n) {K : List (Frame V)}
    (hd : departure K = departure s.stack) (hK : Fits outer s.kinds f (.frames K s.winders)) :
    InCode outer { s with stack := K } f n :=
  ⟨hd ▸ h.toDuring.at s.control K, hK⟩

theorem InCode.push (h : InCode outer s f n) (k : V → Body V) :
    InCode outer { s with stack := .bind f k :: s.stack } f n := h.with rfl (.bind k h.frames)

/-- Into the extent of a new winder. -/
theorem InCode.wind (h : InCode outer s f n) {kind : Kind V} {frame : Nat → Frame V}
    (hd : ∀ w K, departure (frame w :: K) = departure K)
    (hfits : ∀ kinds w, s.kinds <+: kinds → w ∉ s.winders → kinds[w]? = some kind →
      Fits outer kinds f (.frames (frame w :: s.stack) (w :: s.winders))) :
    InCode outer (s.wind kind frame) f n := by
  have hspec := entered_wind s kind frame
  refine ⟨?_, ?_⟩
  · rw [hspec.stack, hd]
    exact h.toDuring.wind kind frame
  · rw [hspec.stack, hspec.winders]
    exact hfits _ _ hspec.ext h.winds.new_notMem hspec.kind

theorem InCode.windOwn (h : InCode outer s f n) (kind : Kind V) (hown : kind.Own f) :
    InCode outer (s.wind kind .wind) f n :=
  h.wind (fun _ _ => rfl) fun _ _ hext hnew hw => .wind (h.frames.mono hext) hnew hw hown

theorem InCode.guard (h : InCode outer s f n) (test : V → Bool) (handler : V → Body V) :
    InCode outer (s.guard (.user f test handler)) f n := by
  rcases h.winders with ⟨hs, hws⟩
  refine h.wind (fun _ _ => rfl) fun kinds w hext hnew hw => ?_
  rw [(h.winds.cells hws).2] at hw
  exact .guard (h.frames.mono hext) ((hws.mono hext).guarded (h.frames.mono hext) hnew hw)

end

/-! ## 2. Calls of `run-fiber!` -/

theorem Winds.outside (h : Winds outer s) (hws : s.winders = [])
    (hmp : s.metaPrompt = outer.metaPrompt) : s.cells = outer.toCells := by
  have hvalue := h.fiber.value
  rw [hws] at hvalue
  rw [State.cells, hmp, hvalue]
  rfl

/-- The state in which `run-fiber!` calls `produce-step`. -/
structure Begun (outer : Outer V) (s : State V) (f : FutureId) (t : State V) : Prop where
  winds : Winds outer t
  known : Known outer t
  ext : s.kinds <+: t.kinds
  stack : t.stack = callFrames f s.calls s.kinds.length
  winders : t.winders = [s.kinds.length]
  kind : t.kinds[s.kinds.length]? = some (.currentFiber (some f))
  metaPrompt : t.metaPrompt = outer.metaPrompt
  call : InCall outer t f s.calls []

theorem begun_runFiber (hs : Inv outer s) (hc : s.control = .idle) (f : FutureId) :
    ∃ t, Begun outer s f t ∧
      ∀ produceStep, s.runFiber (some f) produceStep = produceStep t := by
  cases hs.stage with
  | idle _ hstack hws hmp hcalls =>
    have hcells := hs.winds.outside hws hmp
    refine ⟨_, ?_, fun _ => rfl⟩
    have hpre : Winds outer { s with
        stack := .handleStep s.calls (some f) :: s.stack, calls := s.calls + 1
        trace := s.trace ++ [.called s.calls (some f) s.cells] } :=
      hs.winds.congr rfl rfl rfl rfl
    have hknown : Known outer { s with
        stack := .handleStep s.calls (some f) :: s.stack, calls := s.calls + 1
        trace := s.trace ++ [.called s.calls (some f) s.cells] } :=
      hs.known.mono (List.prefix_refl _) rfl rfl
    have hwind := entered_wind { s with
      stack := .handleStep s.calls (some f) :: s.stack, calls := s.calls + 1
      trace := s.trace ++ [.called s.calls (some f) s.cells] } (.currentFiber (some f)) .wind
    refine ⟨hpre.wind _ _, hknown.mono hwind.ext hwind.wakes hwind.konts, hwind.ext, ?_, ?_,
      hwind.kind, hwind.metaPrompt.trans hmp, ⟨s.trace, hcalls, ?_⟩, hwind.calls⟩
    · rw [hwind.stack, hstack]
      rfl
    · rw [hwind.winders, hws]
    · rw [hwind.trace, hcells]
  | code h | raising h | jumping h | leaving h | result h | returning h | back h | handle h =>
    simp_all

/-- After the `reset*` of the call. -/
structure Begun.Reset (outer : Outer V) (s : State V) (f : FutureId) (t : State V) : Prop
    extends During outer t f s.calls none where
  ext : s.kinds <+: t.kinds
  stack : t.stack = .result :: callFrames f s.calls s.kinds.length
  winders : t.winders = [s.kinds.length]
  kind : t.kinds[s.kinds.length]? = some (.currentFiber (some f))

theorem Begun.reset {f : FutureId} (h : Begun outer s f t) : Begun.Reset outer s f t.reset := by
  refine ⟨⟨h.winds.congr rfl rfl rfl rfl, h.known.mono (List.prefix_refl _) rfl rfl,
    ⟨s.kinds.length, h.kind, ?_⟩, ⟨h.call.trace, h.call.calls⟩⟩, h.ext, ?_, h.winders, h.kind⟩
  · rw [State.reset, h.metaPrompt, h.stack, h.winders]
  · show _ :: t.stack = _
    rw [h.stack]

/-- `run-step` is in the code of the fiber. -/
theorem Begun.Reset.runStep {f : FutureId} (h : Begun.Reset outer s f t) :
    InCode outer { t.guard (.runStep f) with
      stack := .consOk f :: (t.guard (.runStep f)).stack } f s.calls := by
  have hvalue : t.handlers.value = outer.handlers := by
    rw [h.winds.handlers.value, h.winders]
    simp [DynamicWind.bound, binds, h.kind, Kind.handlerStack]
  have hspec := entered_wind t
    (.handlers (⟨⟨t.stack, t.winders⟩, .runStep f⟩ :: t.handlers.value)) (.guard · (.runStep f))
  have hin := h.toDuring.wind
    (.handlers (⟨⟨t.stack, t.winders⟩, .runStep f⟩ :: t.handlers.value)) (.guard · (.runStep f))
  have hstack : (t.guard (.runStep f)).stack = .guard t.kinds.length (.runStep f) :: .result ::
      callFrames f s.calls s.kinds.length := by
    rw [← h.stack]
    exact hspec.stack
  have hwinders : (t.guard (.runStep f)).winders = [t.kinds.length, s.kinds.length] := by
    rw [← h.winders]
    exact hspec.winders
  refine ⟨?_, ?_⟩
  · show During _ _ _ _ (departure (.consOk f :: (t.guard (.runStep f)).stack))
    rw [hstack]
    exact hin.at _ _
  · show Fits _ (t.guard (.runStep f)).kinds _ (.frames (.consOk f :: (t.guard (.runStep f)).stack)
      (t.guard (.runStep f)).winders)
    rw [hstack, hwinders]
    refine .base (kind_mono hspec.ext h.kind) ?_
    show (t.guard (.runStep f)).kinds[t.kinds.length]? = _
    rw [State.guard, hspec.kind, h.stack, h.winders, hvalue]
    rfl

theorem inv_start {f : FutureId} {thunk : Body V} (hs : Inv outer s)
    (h : step s (.start f thunk) = some u) : Inv outer u := by
  simp only [step] at h
  split at h
  case h_1 hc =>
    rcases begun_runFiber hs hc f with ⟨t, ht, hrun⟩
    rw [hrun, Option.some.injEq] at h
    subst h
    exact ht.reset.runStep.run thunk
  case h_2 => cases h

theorem inv_resume {i : Nat} {v : V} (hs : Inv outer s)
    (h : step s (.resume i v) = some u) : Inv outer u := by
  simp only [step] at h
  split at h
  case h_1 fib k hc hwake =>
    rcases hs.known.wakes _ (List.mem_of_getElem? hwake) with ⟨f, hf, hk, hd⟩
    simp only at hf hk hd
    subst hf
    rcases begun_runFiber hs hc f with ⟨t, ht, hrun⟩
    rw [hrun, Option.some.injEq] at h
    subst h
    have hreset := ht.reset
    have hbelow : Below outer t.reset.kinds f t.reset.winders := by
      rw [hreset.winders]
      exact (path_call hreset.kind).below
    exact During.jump (hd ▸ hreset.toDuring) hbelow (.value v (hk.mono hreset.ext))
  case h_2 => cases h

/-! ## 3. Jumps -/

section
variable {f : FutureId} {n : Nat} {k : Kont V} {x : Focus V} {w : Nat} {ws : List Nat}

theorem InCall.record {e : Event V} (h : InCall outer s f n [])
    (htrace : u.trace = s.trace ++ [e]) (hcalls : u.calls = s.calls) :
    InCall outer u f n [e] := by
  rcases h.trace with ⟨tr, htr, heq⟩
  refine ⟨⟨tr, htr, ?_⟩, hcalls.trans h.calls⟩
  rw [htrace, heq, List.append_assoc]
  rfl

theorem move_arrive (h : DynamicWind.next s.winders k.winders = none) :
    s.move k x = { s with stack := k.stack }.arrive x := by
  rw [State.move, h, ← DynamicWind.next_none h]

theorem move_leave (hws : s.winders = w :: ws)
    (h : DynamicWind.next s.winders k.winders = some (.leave w)) :
    (∃ f before after, s.kinds[w]? = some (.thunks f before after) ∧ s.move k x =
        { s with control := .run f after, stack := [.jump ws k x], winders := ws }) ∨
      Swaps s.kinds w ∧ s.move k x = { s.swap w with winders := ws } := by
  rw [State.move, h]
  simp only [hws, List.tail_cons]
  split
  case h_1 f before after hw => exact .inl ⟨f, before, after, hw, rfl⟩
  case h_2 hne => exact .inr ⟨hne, rfl⟩

theorem move_enter (h : DynamicWind.next s.winders k.winders = some (.enter w)) :
    (∃ f before after, s.kinds[w]? = some (.thunks f before after) ∧ s.move k x =
        { s with control := .run f before, stack := [.jump (w :: s.winders) k x] }) ∨
      Swaps s.kinds w ∧ s.move k x = { s.swap w with winders := w :: s.winders } := by
  simp only [State.move, h]
  split
  case h_1 f before after hw => exact .inl ⟨f, before, after, hw, rfl⟩
  case h_2 hne => exact .inr ⟨hne, rfl⟩

/-- At the end of a jump. -/
theorem inv_arrive (h : During outer s f n (departure k.stack)) (hws : s.winders = k.winders)
    (hk : Fits outer s.kinds f (.target k x)) :
    Inv outer ({ s with stack := k.stack }.arrive x) := by
  have hat := h.at s.control k.stack
  cases hk with
  | value v hK =>
    have hcode : InCode outer { s with stack := _ } f n := ⟨hat, hws ▸ hK⟩
    exact hcode.ret v
  | @caught K B ws ws' hs test handler e hK hback hd =>
    have hcode : InCode outer { s with stack := K } f n := ⟨hat, hws ▸ hK⟩
    simp only [State.arrive]
    split
    · exact hcode.run (handler e)
    · rcases hcode.winders with ⟨hs', hplace⟩
      refine During.jump (n := n) (k := ⟨B, ws'⟩) ?_ hplace.place.below (.again e hback)
      exact hd ▸ hat
  | @failed m w e back hw =>
    have hat' := h.at (.ret (.step (.err e))) (.result :: callFrames f m w)
    refine ⟨hat'.winds.congr rfl rfl rfl rfl, hat'.known.mono (List.prefix_refl _) rfl rfl,
      .result rfl rfl hws (swaps_currentFiber hw) h.course.1 (h.course.2.record rfl rfl)
        (.failed e)⟩
  | @again B _ hs e hplace =>
    have hat' := h.at (.raise (some f) e) B
    have hplace' : Fits outer s.kinds f (.winders s.winders hs) := by
      rw [hws]
      exact hplace
    exact ⟨hat'.winds, hat'.known, .raising rfl hplace' hat'.course⟩
  | @parked m w hw =>
    have hat' := h.at (.ret (.step .suspended)) (callFrames f m w)
    rcases hat'.course with ⟨rfl, hmp, hcall⟩
    exact ⟨hat'.winds, hat'.known, .back rfl rfl hws hmp hcall .parked⟩

/-- A thunk that a jump has called is code of the fiber. -/
theorem During.thunk (h : During outer s f n (departure k.stack)) (hwinds : Winds outer u)
    {hs : List (Handler V)} (hws : Fits outer s.kinds f (.winders u.winders hs))
    (hk : Fits outer s.kinds f (.target k x)) {ws' : List Nat}
    (hnext : ws' = u.winders ∨ ∃ w before after, ws' = w :: u.winders ∧
      s.kinds[w]? = some (.thunks f before after) ∧ w :: u.winders <:+ k.winders)
    (hkept : Kept s u) (hkonts : u.kinds = s.kinds) (hstack : u.stack = [.jump ws' k x]) :
    InCode outer u f n := by
  have hkinds : s.kinds <+: u.kinds := hkonts ▸ List.prefix_refl _
  refine ⟨⟨hwinds, h.known.mono hkinds hkept.wakes hkept.konts, ?_⟩, ?_⟩
  · rw [hstack, departure_jump]
    exact h.course.kept hkinds hkept
  · rw [hstack, hkonts]
    exact .jump hws hk hnext

theorem inv_jumping (h : During outer s f n (departure k.stack)) (hc : s.control = .jump k x)
    (hws : Below outer s.kinds f s.winders) (hk : Fits outer s.kinds f (.target k x)) :
    Inv outer (s.move k x) := by
  rcases hnext : DynamicWind.next s.winders k.winders with _ | w | w
  · rw [move_arrive hnext]
    exact inv_arrive h (DynamicWind.next_none hnext) hk
  · rcases DynamicWind.next_leave hnext with ⟨ws, hcons, -⟩
    have hleave := h.winds.leave hcons
    rcases move_leave (x := x) hcons hnext with ⟨g, before, after, hw, hmove⟩ | ⟨hw, hmove⟩
    · rcases hws w ws g before after (hcons ▸ List.suffix_refl _) hw with ⟨rfl, hs, hplace⟩
      rw [swap_of_thunks hw] at hleave
      rw [hmove]
      exact (h.thunk
        (u := { s with control := .run g after, stack := [.jump ws k x], winders := ws })
        (hleave.congr rfl rfl rfl rfl) hplace hk (.inl rfl) ⟨rfl, rfl, rfl, rfl, rfl⟩ rfl rfl).run
        after
    · have hmoved := moved_swap w s ws
      rw [hmove]
      refine ⟨hleave, (h.moved hleave hmoved).known, .jumping (hmoved.control.trans hc) ?_ ?_
        (h.moved hleave hmoved).course⟩
      · rw [hmoved.kinds]
        exact hws.suffix (hcons ▸ List.suffix_cons w ws)
      · rw [hmoved.kinds]
        exact hk
  · have hsuf := DynamicWind.next_enter hnext
    have hpath := hk.path
    have hnew : w ∉ s.winders := (List.nodup_cons.mp (hpath.nodup.sublist hsuf.sublist)).1
    have henter := h.winds.enter hnew (hpath.lt w (hsuf.subset List.mem_cons_self))
    rcases move_enter (x := x) hnext with ⟨g, before, after, hw, hmove⟩ | ⟨hw, hmove⟩
    · rcases hpath.below w s.winders g before after hsuf hw with ⟨rfl, hs, hplace⟩
      rw [hmove]
      exact (h.thunk (u := { s with
          control := .run g before, stack := [.jump (w :: s.winders) k x] })
        (h.winds.congr rfl rfl rfl rfl) hplace hk (.inr ⟨w, before, after, rfl, hw, hsuf⟩)
        ⟨rfl, rfl, rfl, rfl, rfl⟩ rfl rfl).run before
    · have hmoved := moved_swap w s (w :: s.winders)
      rw [hmove]
      refine ⟨henter, (h.moved henter hmoved).known, .jumping (hmoved.control.trans hc) ?_ ?_
        (h.moved henter hmoved).course⟩
      · rw [hmoved.kinds]
        exact hpath.below.suffix hsuf
      · rw [hmoved.kinds]
        exact hk

end

/-! ## 4. Steps -/

section
variable {f : FutureId} {n : Nat}

theorem park_eq {saved : MetaPrompt V} {k : Kont V} (h : s.metaPrompt = .prompt saved k)
    (f : FutureId) : s.park f =
      { s with
        control := .jump k (.value (.step .suspended)), metaPrompt := saved
        wakes := s.wakes ++ [(s.currentFiber.value, ⟨s.stack, s.winders⟩)]
        trace := s.trace ++ [.parked f] } := by
  simp only [State.park, State.shift, State.callPrompt, State.jump, h]

theorem inv_park (h : InCode outer s f n) (hd : departure s.stack = none) :
    Inv outer (s.park f) := by
  rcases h.winders with ⟨hs, hws⟩
  have hcourse := h.course
  rw [hd] at hcourse
  rcases hcourse with ⟨⟨w, hw, hmp⟩, hcall⟩
  rw [park_eq hmp]
  refine ⟨h.winds.congr rfl rfl rfl rfl, ⟨?_, h.known.konts⟩,
    .jumping rfl hws.place.below (.parked hw) ⟨rfl, rfl, hcall.record rfl rfl⟩⟩
  intro p hp
  rcases List.mem_append.mp hp with hp | hp
  · exact h.known.wakes p hp
  · rw [List.mem_singleton.mp hp]
    exact ⟨f, (h.winds.cells hws).1, h.frames, hd⟩

theorem raise_eq {h : Handler V} {hs : List (Handler V)} (hvalue : s.handlers.value = h :: hs)
    (f : Option FutureId) (e : V) : s.raise f e =
      some ((s.wind (.handlers hs) .raise).jump h.k (.caught f e h.clauses
        ⟨.raise s.kinds.length :: s.stack, s.kinds.length :: s.winders⟩)) := by
  have hspec := entered_wind s (.handlers hs) .raise
  simp only [State.raise, hvalue, hspec.stack, hspec.winders]

/-- The call of a handler. -/
theorem inv_raise {h : Handler V} {hs : List (Handler V)} {e : V}
    (hin : During outer s f n (departure s.stack))
    (hws : Fits outer s.kinds f (.winders s.winders (h :: hs)))
    (hd : departure h.k.stack = departure s.stack) :
    Inv outer ((s.wind (.handlers (hs ++ outer.handlers)) .raise).jump h.k
      (.caught (some f) e h.clauses
        ⟨.raise s.kinds.length :: s.stack, s.kinds.length :: s.winders⟩)) := by
  have hspec := entered_wind s (.handlers (hs ++ outer.handlers)) .raise
  have hwind := hin.wind (.handlers (hs ++ outer.handlers)) .raise
  have hnew := hin.winds.new_notMem
  generalize s.wind (.handlers (hs ++ outer.handlers)) .raise = t at hspec hwind ⊢
  have hkind := hspec.kind
  have hplace := hws.mono hspec.ext
  refine During.jump (hd ▸ hwind) ?_ ?_
  · rw [hspec.winders]
    exact hplace.place.below.cons (swaps_handlers hkind)
  · have hcatch := hplace.catches h List.mem_cons_self
    cases hcatch with
    | user hK =>
      have hne := hplace.place.tail_ne_nil
      exact .caught e hK (hplace.handling (List.suffix_cons _ _) hne hnew hkind) hd.symm
    | runStep hw => exact .failed e _ hw

theorem inv_runBody {b : Body V} (hs : InCode outer s f n) (hc : s.control = .run f b)
    (hC : Contained s .tick) (h : s.runBody f b = some u) : Inv outer u := by
  cases b with
  | ret v =>
    cases h
    exact hs.ret v
  | raise e =>
    cases h
    rcases hs.winders with ⟨hs', hws⟩
    have hat := hs.at (.raise (some f) e)
    exact ⟨hat.winds, hat.known, .raising rfl hws hat.course⟩
  | guard test handler body k =>
    cases h
    exact ((hs.push k).guard test handler).run body
  | parameterize p v body k =>
    cases h
    exact ((hs.push k).windOwn (.param p v) trivial).run body
  | dynamicWind before after body k =>
    cases h
    exact (hs.with (K := .enter f before after body :: .bind f k :: s.stack) rfl
      (.enter before after body (.bind k hs.frames))).run before
  | getParam p k =>
    cases h
    exact hs.run (k (s.params p))
  | setParam p v k =>
    cases h
    have hcode : InCode outer { s with params := Function.update s.params p v } f n :=
      ⟨⟨hs.winds.congr rfl rfl rfl rfl, hs.known.mono (List.prefix_refl _) rfl rfl,
        hs.course.kept (List.prefix_refl _) ⟨rfl, rfl, rfl, rfl, rfl⟩⟩, hs.frames⟩
    exact hcode.run k
  | callcc body k =>
    cases h
    have hpush := hs.push k
    have hcode : InCode outer { s with
        stack := .bind f k :: s.stack
        konts := s.konts ++ [(f, ⟨.bind f k :: s.stack, s.winders⟩)] } f n := by
      refine ⟨⟨hpush.winds.congr rfl rfl rfl rfl, ⟨hs.known.wakes, ?_⟩, ?_⟩, hpush.frames⟩
      · intro p hp
        rcases List.mem_append.mp hp with hp | hp
        · exact hs.known.konts p hp
        · rw [List.mem_singleton.mp hp]
          exact hpush.frames
      · exact hpush.course.congr (List.prefix_refl _) rfl rfl rfl
    exact hcode.run (body s.konts.length)
  | throw c v =>
    simp only [State.runBody] at h
    split at h
    case h_1 g k hk =>
      cases h
      have hown : g = f ∧ departure k.stack = departure s.stack := by
        simp only [Contained, hc] at hC
        exact hC _ hk
      rcases hown with ⟨rfl, hd⟩
      rcases hs.winders with ⟨hs', hws⟩
      exact During.jump (hd ▸ hs.toDuring) hws.place.below
        (.value v (hs.known.konts _ (List.mem_of_getElem? hk)))
    case h_2 => cases h
  | park k =>
    cases h
    have hd : departure s.stack = none := by
      simp only [Contained, hc] at hC
      exact hC
    exact inv_park (hs.push k) hd

/-- Out of the extent of the innermost winder. -/
theorem InCode.exit (h : InCode outer s f n) {w : Nat} {ws : List Nat} {K : List (Frame V)}
    (hws : s.winders = w :: ws) (hd : departure K = departure s.stack)
    (hK : Fits outer s.kinds f (.frames K ws)) : InCode outer (s.exit w K) f n := by
  have hleave := h.winds.leave hws
  have hmoved := moved_swap w s ws
  have hin := (h.toDuring.moved hleave hmoved).at (s.swap w).control K
  rw [← hd] at hin
  rw [State.exit, hws]
  refine ⟨hin, ?_⟩
  show Fits outer (s.swap w).kinds f (.frames K ws)
  rw [show (s.swap w).kinds = s.kinds from hmoved.kinds]
  exact hK

theorem control_exit (w : Nat) (K : List (Frame V)) (s : State V) :
    (s.exit w K).control = s.control := (moved_swap w s s.winders.tail).control

/-- A value comes to the innermost frame. -/
theorem inv_ret {v : V} (hs : InCode outer s f n) (hc : s.control = .ret (.user v))
    (h : s.deliver (.user v) = some u) : Inv outer u := by
  have hframes := hs.frames
  generalize hK : s.stack = K at hframes
  generalize hW : s.winders = W at hframes
  cases hframes with
  | @base m w g hw hg =>
    simp only [State.deliver, hK, Option.some.injEq] at h
    subst h
    have hcourse := hs.course
    rw [hK] at hcourse
    exact ⟨hs.winds.congr rfl rfl rfl rfl, hs.known.mono (List.prefix_refl _) rfl rfl,
      .leaving rfl rfl hW (swaps_currentFiber hw) hcourse.1 (hcourse.2.record rfl rfl)
        (.finished v)⟩
  | bind k hext =>
    simp only [State.deliver, hK, Option.some.injEq] at h
    subst h
    exact (hs.with (by rw [hK]; rfl) (hW ▸ hext)).run (k v)
  | enter before after body hext =>
    simp only [State.deliver, hK, Option.some.injEq] at h
    subst h
    exact ((hs.with (by rw [hK]; rfl) (hW ▸ hext)).windOwn (.thunks f before after)
      rfl).run body
  | keep v' hext =>
    simp only [State.deliver, hK, Option.some.injEq] at h
    subst h
    exact (hs.with (by rw [hK]; rfl) (hW ▸ hext)).ret v'
  | @wind K ws w kind hext hnew hw hown =>
    cases kind with
    | param p a =>
      simp only [State.deliver, hK, hw, Option.some.injEq] at h
      subst h
      exact (hs.exit hW (by rw [hK]; rfl) hext).inv (.inr ⟨v, (control_exit w K s).trans hc⟩)
    | thunks g before after =>
      simp only [State.deliver, hK, hw, Option.some.injEq] at h
      subst h
      obtain rfl : g = f := hown
      have hexit := hs.exit hW (K := .keep v :: K) (by rw [hK]; rfl) (.keep v hext)
      rw [State.exit, swap_of_thunks hw] at hexit
      exact hexit.run after
    | currentFiber | handlers => cases hown
  | @guard K ws hs' w test handler hext hws =>
    simp only [State.deliver, hK, Option.some.injEq] at h
    subst h
    exact (hs.exit hW (by rw [hK]; rfl) hext).inv (.inr ⟨v, (control_exit w K s).trans hc⟩)
  | @jump _ ws' hs' k x hws hk hnext =>
    simp only [State.deliver, hK, Option.some.injEq] at h
    subst h
    -- from behind the thunk
    have hafter : Winds outer { s with winders := ws' } ∧ Below outer s.kinds f ws' := by
      rcases hnext with rfl | ⟨w, before, after, rfl, hw, hsuf⟩
      · exact ⟨hs.winds.congr hW.symm rfl rfl rfl, hws.place.below⟩
      · have hnew : w ∉ W := (List.nodup_cons.mp (hk.path.nodup.sublist hsuf.sublist)).1
        have henter := hs.winds.enter (hW.symm ▸ hnew) (lt_of_kind hw)
        rw [swap_of_thunks hw, hW] at henter
        exact ⟨henter, hk.path.below.suffix hsuf⟩
    have hcourse := hs.course
    rw [hK, departure_jump] at hcourse
    exact ⟨hafter.1.congr rfl rfl rfl rfl, hs.known.mono (List.prefix_refl _) rfl rfl,
      .jumping rfl hafter.2 hk
        (hcourse.congr (List.prefix_refl _) rfl rfl rfl)⟩

/-! The way of a step's value from the code to the scheduler. -/

variable {x : StepResult V} {K : List (Frame V)} {g w : Nat} {e : Event V}

theorem leaving_spec (hs : Inv outer s) (hc : s.control = .ret (.step x))
    (hstack : s.stack = .guard g (.runStep f) :: .result :: K) :
    ∃ u, tick s = some u ∧ Inv outer u ∧ u.control = .ret (.step x) ∧ u.stack = .result :: K := by
  cases hs.stage with
  | @leaving _ _ g w _ _ _ hc' hstack' hws hw hp hcall he =>
    rw [hstack] at hstack'
    cases hstack'
    rw [hc] at hc'
    cases hc'
    have hleave := hs.winds.leave hws
    have hmoved := moved_swap g s [w]
    have hkinds : s.kinds <+: (s.swap g).kinds := hmoved.kinds ▸ List.prefix_refl _
    refine ⟨s.exit g (.result :: K), ?_, ?_, (control_exit g _ s).trans hc, rfl⟩
    · simp only [tick, hc, State.deliver, hstack]
    · rw [State.exit, hws]
      refine ⟨hleave.congr rfl rfl rfl rfl, hs.known.mono hkinds hmoved.wakes hmoved.konts,
        .result (hmoved.control.trans hc) rfl rfl ?_ (hp.mono hkinds hmoved.metaPrompt)
          (hcall.congr hmoved.trace hmoved.calls) he⟩
      show Swaps (s.swap g).kinds _
      rw [show (s.swap g).kinds = s.kinds from hmoved.kinds]
      exact hw
  | idle | code | raising | jumping | result | returning | back | handle => simp_all [callFrames]

theorem result_spec (hs : Inv outer s) (hc : s.control = .ret (.step x))
    (hstack : s.stack = .result :: K) :
    ∃ u f n w, tick s = some u ∧ Inv outer u ∧
      u.control = .jump ⟨callFrames f n w, [w]⟩ (.value (.step x)) ∧
      u.kinds[w]? = some (.currentFiber (some f)) ∧ ∀ v ∈ u.winders, Swaps u.kinds v := by
  cases hs.stage with
  | @result f n w e _ _ hc' hstack' hws hw hp hcall he =>
    rw [hc] at hc'
    cases hc'
    rcases hp with ⟨v, hv, hmp⟩
    have hswaps : ∀ v ∈ s.winders, Swaps s.kinds v := by
      intro a ha
      have hmem : a ∈ [w] := hws ▸ ha
      rw [List.mem_singleton.mp hmem]
      exact hw
    refine ⟨{ s with
      control := .jump ⟨callFrames f n v, [v]⟩ (.value (.step x)), stack := K
      metaPrompt := outer.metaPrompt }, f, n, v, ?_, ⟨hs.winds.congr rfl rfl rfl rfl,
        hs.known.mono (List.prefix_refl _) rfl rfl, .returning rfl hswaps hv rfl
          (hcall.congr rfl rfl) he⟩, rfl, hv, hswaps⟩
    simp only [tick, hc, State.deliver, hstack, State.callPrompt, State.jump, hmp]
  | idle | code | raising | jumping | leaving | returning | back | handle => simp_all [callFrames]

/-- On the way back no thunk is called. -/
theorem inv_returning (hwinds : Winds outer s) (hknown : Known outer s)
    (hc : s.control = .jump ⟨callFrames f n w, [w]⟩ (.value (.step x)))
    (hswaps : ∀ v ∈ s.winders, Swaps s.kinds v)
    (hw : s.kinds[w]? = some (.currentFiber (some f))) (hmp : s.metaPrompt = outer.metaPrompt)
    (hcall : InCall outer s f n [e]) (he : Ends f e x) :
    Inv outer (s.move ⟨callFrames f n w, [w]⟩ (.value (.step x))) := by
  have hmove : ∀ ws, (∀ v ∈ ws, Swaps s.kinds v) →
      ∀ v, Winds outer { s.swap v with winders := ws } →
        Inv outer { s.swap v with winders := ws } := by
    intro ws hws v hv
    have hmoved := moved_swap v s ws
    refine ⟨hv, hknown.mono (hmoved.kinds ▸ List.prefix_refl _) hmoved.wakes hmoved.konts,
      .returning (hmoved.control.trans hc) ?_ ?_ (hmoved.metaPrompt.trans hmp)
        (hcall.congr hmoved.trace hmoved.calls) he⟩
    · rw [hmoved.kinds]
      exact hws
    · rw [hmoved.kinds]
      exact hw
  rcases hnext : DynamicWind.next s.winders [w] with _ | v | v
  · rw [move_arrive hnext]
    exact ⟨hwinds.congr rfl rfl rfl rfl, hknown.mono (List.prefix_refl _) rfl rfl,
      .back rfl rfl (DynamicWind.next_none hnext) hmp (hcall.congr rfl rfl) he⟩
  · rcases DynamicWind.next_leave hnext with ⟨ws, hcons, -⟩
    have hv : Swaps s.kinds v := hswaps v (hcons ▸ List.mem_cons_self)
    rcases move_leave (k := ⟨callFrames f n w, [w]⟩) hcons hnext with
      ⟨g, before, after, hthunks, -⟩ | ⟨-, heq⟩
    · exact absurd hthunks (hv g before after)
    · rw [heq]
      exact hmove ws (fun a ha => hswaps a (hcons ▸ List.mem_cons_of_mem v ha)) v
        (hwinds.leave hcons)
  · have hsuf := DynamicWind.next_enter hnext
    obtain rfl : v = w := List.mem_singleton.mp (hsuf.subset List.mem_cons_self)
    have hv := swaps_currentFiber hw
    rcases move_enter (k := ⟨callFrames f n v, [v]⟩) hnext with
      ⟨g, before, after, hthunks, -⟩ | ⟨-, heq⟩
    · exact absurd hthunks (hv g before after)
    · have hone : [v].Nodup := by simp
      have hnd := hone.sublist hsuf.sublist
      rw [heq]
      refine hmove (v :: s.winders) ?_ v
        (hwinds.enter (List.nodup_cons.mp hnd).1 (lt_of_kind hw))
      intro a ha
      rcases List.mem_cons.mp ha with rfl | ha
      · exact hv
      · exact hswaps a ha

theorem back_spec (hs : Inv outer s) (hc : s.control = .ret (.step x))
    (hstack : s.stack = callFrames f n w) :
    ∃ u, tick s = some u ∧ Inv outer u ∧ u.control = .ret (.step x) ∧
      u.stack = [.handleStep n (some f)] := by
  cases hs.stage with
  | back hc' hstack' hws hmp hcall he =>
    rw [hstack] at hstack'
    cases hstack'
    rw [hc] at hc'
    cases hc'
    have hleave := hs.winds.leave hws
    have hmoved := moved_swap w s []
    refine ⟨s.exit w [.handleStep n (some f)], ?_, ?_, (control_exit w _ s).trans hc, rfl⟩
    · simp only [tick, hc, State.deliver, hstack, callFrames]
    · rw [State.exit, hws]
      exact ⟨hleave.congr rfl rfl rfl rfl,
        hs.known.mono (hmoved.kinds ▸ List.prefix_refl _) hmoved.wakes hmoved.konts,
        .handle (hmoved.control.trans hc) rfl rfl (hmoved.metaPrompt.trans hmp)
          (hcall.congr hmoved.trace hmoved.calls) he⟩
  | idle | code | raising | jumping | leaving | result | returning | handle =>
    simp_all [callFrames]

theorem handle_spec {fib : Option FutureId} (hs : Inv outer s) (hc : s.control = .ret (.step x))
    (hstack : s.stack = [.handleStep n fib]) :
    ∃ u, tick s = some u ∧ Inv outer u ∧ u.control = .idle := by
  cases hs.stage with
  | @handle f _ e _ hc' hstack' hws hmp hcall he =>
    rw [hstack] at hstack'
    cases hstack'
    rw [hc] at hc'
    cases hc'
    refine ⟨{ s with
      stack := [], control := .idle, trace := s.trace ++ [.returned n x s.cells] }, ?_,
      ⟨hs.winds.congr rfl rfl rfl rfl, hs.known.mono (List.prefix_refl _) rfl rfl,
        .idle rfl rfl hws hmp ?_⟩, rfl⟩
    · simp only [tick, hc, State.deliver, hstack]
    · rcases hcall.trace with ⟨tr, htr, heq⟩
      show Calls _ s.calls (s.trace ++ _)
      rw [hcall.calls, heq, hs.winds.outside hws hmp, List.append_assoc]
      exact .call htr he
  | idle | code | raising | jumping | leaving | result | returning | back =>
    simp_all [callFrames]

end

theorem inv_tick (hs : Inv outer s) (hC : Contained s .tick) (h : tick s = some u) :
    Inv outer u := by
  have hdone : ∀ {t : State V}, tick s = some t → Inv outer t → Inv outer u := by
    intro t ht hinv
    rw [h] at ht
    cases ht
    exact hinv
  cases hs.stage with
  | idle hc =>
    simp only [tick, hc] at h
    cases h
  | code hc hk hcourse =>
    have hcode : InCode outer s _ _ := ⟨⟨hs.winds, hs.known, hcourse⟩, hk⟩
    rcases hc with ⟨b, hb⟩ | ⟨v, hv⟩
    · simp only [tick, hb] at h
      exact inv_runBody hcode hb hC h
    · simp only [tick, hv] at h
      exact inv_ret hcode hv h
  | @raising f _ e hs' hc hws hcourse =>
    have hvalue := (hs.winds.cells hws).2
    cases hs' with
    | nil => exact absurd rfl hws.place.ne_nil
    | cons x hs' =>
      have hd : departure x.k.stack = departure s.stack := by
        simp only [Contained, hc] at hC
        exact hC x (by rw [hvalue]; rfl)
      simp only [tick, hc] at h
      rw [raise_eq hvalue, Option.some.injEq] at h
      exact h ▸ inv_raise ⟨hs.winds, hs.known, hcourse⟩ hws hd
  | jumping hc hws hk hcourse =>
    simp only [tick, hc, Option.some.injEq] at h
    exact h ▸ inv_jumping ⟨hs.winds, hs.known, hcourse⟩ hc hws hk
  | leaving hc hstack =>
    rcases leaving_spec hs hc hstack with ⟨t, ht, hinv, _⟩
    exact hdone ht hinv
  | result hc hstack =>
    rcases result_spec hs hc hstack with ⟨t, _, _, _, ht, hinv, _⟩
    exact hdone ht hinv
  | returning hc hswaps hw hmp hcall he =>
    simp only [tick, hc, Option.some.injEq] at h
    exact h ▸ inv_returning hs.winds hs.known hc hswaps hw hmp hcall he
  | back hc hstack =>
    rcases back_spec hs hc hstack with ⟨t, ht, hinv, _⟩
    exact hdone ht hinv
  | handle hc hstack =>
    rcases handle_spec hs hc hstack with ⟨t, ht, hinv, _⟩
    exact hdone ht hinv

theorem inv_init (outer : Outer V) : Inv outer (machine outer).init := by
  refine ⟨⟨⟨rfl, ?_, ?_⟩, ⟨rfl, ?_, ?_⟩, List.nodup_nil, ?_⟩, ⟨?_, ?_⟩, .idle rfl rfl rfl rfl .nil⟩
  · exact fun w vs hsuf => absurd (List.suffix_nil.mp hsuf) (List.cons_ne_nil w vs)
  · intro w _ a ha
    cases ha
  · exact fun w vs hsuf => absurd (List.suffix_nil.mp hsuf) (List.cons_ne_nil w vs)
  · intro w _ a ha
    cases ha
  · exact fun w hw => absurd hw List.not_mem_nil
  · exact fun p hp => absurd hp List.not_mem_nil
  · exact fun p hp => absurd hp List.not_mem_nil

theorem inv_step {a : Action V} (hs : Inv outer s) (hC : Contained s a) (h : step s a = some u) :
    Inv outer u := by
  cases a with
  | start f thunk => exact inv_start hs h
  | resume i v => exact inv_resume hs h
  | tick => exact inv_tick hs hC h

end ChezAsync.ShiftReset
