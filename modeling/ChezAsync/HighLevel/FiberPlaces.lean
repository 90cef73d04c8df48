import ChezAsync.HighLevel.ShiftReset

/-!
# The places of a fiber's code

What the winders and the frames say about a place in the code of a fiber, whatever call of
`run-fiber!` it was captured in: the values of the two cells, the handlers, and where they and the
jumps that have called a thunk lead to.
-/

namespace ChezAsync.ShiftReset

open ChezAsync.Async (FutureId)
open DynamicWind (Cell bound)

variable {V : Type} {outer : Outer V} {s t u : State V}

/-! ## 1. Winders and cells -/

def Kind.fiber : Kind V → Option (Option FutureId)
  | .currentFiber fib => some fib
  | _ => none

def Kind.handlerStack : Kind V → Option (List (Handler V))
  | .handlers hs => some hs
  | _ => none

/-- What each winder binds the cell to that `bind` tells. -/
def binds {α : Type} (bind : Kind V → Option α) (kinds : List (Kind V)) (w : Nat) : Option α :=
  kinds[w]?.bind bind

/-- A winder without thunks. -/
def Swaps (kinds : List (Kind V)) (w : Nat) : Prop :=
  ∀ f before after, kinds[w]? ≠ some (.thunks f before after)

/-- An entry or an exit of a winder touches the cells and parameters only. -/
def Crossed (s u : State V) : Prop :=
  ∃ fiber handlers params saved,
    u = { s with currentFiber := fiber, handlers := handlers, params := params, saved := saved }

theorem Crossed.trans (h : Crossed s t) (h' : Crossed t u) : Crossed s u := by
  rcases h with ⟨_, _, _, _, rfl⟩
  rcases h' with ⟨_, _, _, _, rfl⟩
  exact ⟨_, _, _, _, rfl⟩

theorem crossed_swap (w : Nat) (s : State V) : Crossed s (s.swap w) := by
  unfold State.swap
  split <;> exact ⟨_, _, _, _, rfl⟩

theorem crossed_keep (w : Nat) (kind : Kind V) (s : State V) : Crossed s (s.keep w kind) := by
  cases kind <;> exact ⟨_, _, _, _, rfl⟩

theorem swap_of_thunks {w : Nat} {f : FutureId} {before after : Body V}
    (h : s.kinds[w]? = some (.thunks f before after)) : s.swap w = s := by
  simp only [State.swap, h]

theorem currentFiber_swap (w : Nat) (s : State V) :
    (s.swap w).currentFiber = s.currentFiber.cross (binds Kind.fiber s.kinds) w := by
  rcases h : s.kinds[w]? with _ | kind
  · simp [State.swap, Cell.cross, binds, h]
  · cases kind <;> simp [State.swap, Cell.cross, binds, Kind.fiber, h]

theorem handlers_swap (w : Nat) (s : State V) :
    (s.swap w).handlers = s.handlers.cross (binds Kind.handlerStack s.kinds) w := by
  rcases h : s.kinds[w]? with _ | kind
  · simp [State.swap, Cell.cross, binds, h]
  · cases kind <;> simp [State.swap, Cell.cross, binds, Kind.handlerStack, h]

theorem binds_append {α : Type} (bind : Kind V → Option α) (kinds : List (Kind V))
    (kind : Kind V) :
    binds bind (kinds ++ [kind]) = Function.update (binds bind kinds) kinds.length (bind kind) := by
  funext w
  rcases Nat.lt_trichotomy w kinds.length with h | rfl | h
  · rw [Function.update_of_ne (Nat.ne_of_lt h), binds, binds, List.getElem?_append_left h]
  · rw [Function.update_self, binds, List.getElem?_concat_length, Option.bind_some]
  · rw [Function.update_of_ne (Nat.ne_of_gt h), binds, binds,
      List.getElem?_eq_none (by rw [List.length_append]; exact h),
      List.getElem?_eq_none (Nat.le_of_lt h)]

/-- A new winder that has nothing to do with the cell. -/
theorem binds_append_none {α : Type} {bind : Kind V → Option α} {kind : Kind V}
    (kinds : List (Kind V)) (h : bind kind = none) :
    binds bind (kinds ++ [kind]) = binds bind kinds := by
  rw [binds_append, h, Function.update_eq_self_iff, binds,
    List.getElem?_eq_none (Nat.le_refl _)]
  rfl

/-- What holds of the winders wherever the machine stands: the two cells hold what the winders have
bound. -/
structure Winds (outer : Outer V) (s : State V) : Prop where
  fiber : s.currentFiber.Holds (binds Kind.fiber s.kinds) outer.currentFiber s.winders
  handlers : s.handlers.Holds (binds Kind.handlerStack s.kinds) outer.handlers s.winders
  nodup : s.winders.Nodup
  lt : ∀ w ∈ s.winders, w < s.kinds.length

theorem Winds.congr (h : Winds outer s) (hwinders : u.winders = s.winders)
    (hfiber : u.currentFiber = s.currentFiber) (hhandlers : u.handlers = s.handlers)
    (hkinds : u.kinds = s.kinds) : Winds outer u := by
  refine ⟨?_, ?_, hwinders ▸ h.nodup, ?_⟩
  · rw [hwinders, hfiber, hkinds]
    exact h.fiber
  · rw [hwinders, hhandlers, hkinds]
    exact h.handlers
  · rw [hwinders, hkinds]
    exact h.lt

theorem Winds.new_notMem (h : Winds outer s) : s.kinds.length ∉ s.winders :=
  fun hmem => Nat.lt_irrefl _ (h.lt _ hmem)

/-- What no winder has to do with. -/
structure Kept (s u : State V) : Prop where
  metaPrompt : u.metaPrompt = s.metaPrompt
  wakes : u.wakes = s.wakes
  konts : u.konts = s.konts
  calls : u.calls = s.calls
  trace : u.trace = s.trace

/-- In other winders. -/
structure Moved (s : State V) (ws : List Nat) (u : State V) : Prop extends Kept s u where
  control : u.control = s.control
  winders : u.winders = ws
  kinds : u.kinds = s.kinds

theorem moved_swap (w : Nat) (s : State V) (ws : List Nat) :
    Moved s ws { s.swap w with winders := ws } := by
  rcases crossed_swap w s with ⟨_, _, _, _, heq⟩
  rw [heq]
  exact ⟨⟨rfl, rfl, rfl, rfl, rfl⟩, rfl, rfl, rfl⟩

/-- Out of the extent of a winder. -/
theorem Winds.leave {w : Nat} {ws : List Nat} (h : Winds outer s) (hws : s.winders = w :: ws) :
    Winds outer { s.swap w with winders := ws } := by
  have hkinds : (s.swap w).kinds = s.kinds := (moved_swap w s ws).kinds
  have hnd := h.nodup
  have hfiber := h.fiber
  have hhandlers := h.handlers
  rw [hws] at hnd hfiber hhandlers
  refine ⟨?_, ?_, (List.nodup_cons.mp hnd).2, fun v hv => ?_⟩
  · show (s.swap w).currentFiber.Holds _ _ ws
    rw [currentFiber_swap, hkinds]
    exact hfiber.leave hnd
  · show (s.swap w).handlers.Holds _ _ ws
    rw [handlers_swap, hkinds]
    exact hhandlers.leave hnd
  · rw [hkinds]
    exact h.lt v (hws ▸ List.mem_cons_of_mem w hv)

/-- Into the extent of a winder. -/
theorem Winds.enter {w : Nat} (h : Winds outer s) (hw : w ∉ s.winders)
    (hlt : w < s.kinds.length) : Winds outer { s.swap w with winders := w :: s.winders } := by
  have hkinds : (s.swap w).kinds = s.kinds := (moved_swap w s s.winders).kinds
  refine ⟨?_, ?_, List.nodup_cons.mpr ⟨hw, h.nodup⟩, fun v hv => ?_⟩
  · show (s.swap w).currentFiber.Holds _ _ (w :: s.winders)
    rw [currentFiber_swap, hkinds]
    exact h.fiber.enter hw
  · show (s.swap w).handlers.Holds _ _ (w :: s.winders)
    rw [handlers_swap, hkinds]
    exact h.handlers.enter hw
  · rw [hkinds]
    rcases List.mem_cons.mp hv with rfl | hv
    · exact hlt
    · exact h.lt v hv

/-- A winder that has been made but not yet entered. -/
theorem Winds.keep (h : Winds outer s) (kind : Kind V) :
    Winds outer ({ s with kinds := s.kinds ++ [kind] }.keep s.kinds.length kind) := by
  have hw := h.new_notMem
  have hlt : ∀ w ∈ s.winders, w < (s.kinds ++ [kind]).length := by
    intro w hmem
    rw [List.length_append]
    exact Nat.lt_succ_of_lt (h.lt w hmem)
  cases kind with
  | currentFiber fib =>
    refine ⟨?_, ?_, h.nodup, hlt⟩
    · show Cell.Holds (binds Kind.fiber (s.kinds ++ [.currentFiber fib])) _ _ _
      rw [binds_append]
      exact h.fiber.keep hw fib
    · show Cell.Holds (binds Kind.handlerStack (s.kinds ++ [.currentFiber fib])) _ _ _
      rw [binds_append_none s.kinds rfl]
      exact h.handlers
  | handlers hs =>
    refine ⟨?_, ?_, h.nodup, hlt⟩
    · show Cell.Holds (binds Kind.fiber (s.kinds ++ [.handlers hs])) _ _ _
      rw [binds_append_none s.kinds rfl]
      exact h.fiber
    · show Cell.Holds (binds Kind.handlerStack (s.kinds ++ [.handlers hs])) _ _ _
      rw [binds_append]
      exact h.handlers.keep hw hs
  | param p v =>
    refine ⟨?_, ?_, h.nodup, hlt⟩
    · show Cell.Holds (binds Kind.fiber (s.kinds ++ [.param p v])) _ _ _
      rw [binds_append_none s.kinds rfl]
      exact h.fiber
    · show Cell.Holds (binds Kind.handlerStack (s.kinds ++ [.param p v])) _ _ _
      rw [binds_append_none s.kinds rfl]
      exact h.handlers
  | thunks f before after =>
    refine ⟨?_, ?_, h.nodup, hlt⟩
    · show Cell.Holds (binds Kind.fiber (s.kinds ++ [.thunks f before after])) _ _ _
      rw [binds_append_none s.kinds rfl]
      exact h.fiber
    · show Cell.Holds (binds Kind.handlerStack (s.kinds ++ [.thunks f before after])) _ _ _
      rw [binds_append_none s.kinds rfl]
      exact h.handlers

/-- In the extent of a new winder. -/
structure Entered (s : State V) (kind : Kind V) (frame : Nat → Frame V) (u : State V) : Prop
    extends Kept s u where
  stack : u.stack = frame s.kinds.length :: s.stack
  winders : u.winders = s.kinds.length :: s.winders
  kinds : u.kinds = s.kinds ++ [kind]

theorem Entered.kind {kind : Kind V} {frame : Nat → Frame V} (h : Entered s kind frame u) :
    u.kinds[s.kinds.length]? = some kind := by
  rw [h.kinds, List.getElem?_concat_length]

theorem entered_wind (s : State V) (kind : Kind V) (frame : Nat → Frame V) :
    Entered s kind frame (s.wind kind frame) := by
  have hcross := (crossed_keep s.kinds.length kind { s with kinds := s.kinds ++ [kind] }).trans
    (crossed_swap s.kinds.length _)
  rcases hcross with ⟨_, _, _, _, heq⟩
  rw [State.wind, heq]
  exact ⟨⟨rfl, rfl, rfl, rfl, rfl⟩, rfl, rfl, rfl⟩

theorem Winds.wind (h : Winds outer s) (kind : Kind V) (frame : Nat → Frame V) :
    Winds outer (s.wind kind frame) := by
  have hkeep := h.keep kind
  have hwinders : ({ s with kinds := s.kinds ++ [kind] }.keep s.kinds.length kind).winders =
      s.winders := by
    cases kind <;> rfl
  have hkinds : ({ s with kinds := s.kinds ++ [kind] }.keep s.kinds.length kind).kinds =
      s.kinds ++ [kind] := by
    cases kind <;> rfl
  have henter := hkeep.enter (w := s.kinds.length) (by rw [hwinders]; exact h.new_notMem)
    (by simp [hkinds])
  refine henter.congr ?_ rfl rfl rfl
  rw [(entered_wind s kind frame).winders, hwinders]

/-! ## 2. Departures

When `park!` has called the meta-prompt, the thunks that the jump back to `run-fiber!` runs are code
of the fiber without a meta-prompt. -/

mutual

/-- The call whose step the frames `F :: K` have left, given that of the frames `K`. -/
def Frame.departure : Frame V → Option Nat → Option Nat
  | .result, _ => none
  | .handleStep n _, _ => some n
  | .jump _ k _, _ => k.departure
  | .bind _ _, d | .enter _ _ _ _, d | .wind _, d | .keep _, d | .guard _ _, d | .raise _, d
  | .consOk _, d => d

def KontOf.departure : KontOf (Frame V) → Option Nat
  | ⟨stack, _⟩ => departure stack

/-- The call whose step the frames have left: they lead to its `handle-step` past the `reset*`. -/
def departure : List (Frame V) → Option Nat
  | [] => none
  | F :: K => F.departure (departure K)

end

theorem departure_jump (ws : List Nat) (k : Kont V) (x : Focus V) (K : List (Frame V)) :
    departure (.jump ws k x :: K) = departure k.stack := by
  cases k
  rfl

/-- The condition on the steps.  Thunks that run when the step has been left stay there: they do not
park, and neither an exception nor a `throw` goes out of them or into others.  A fiber throws to
continuations of its own. -/
def Contained (s : State V) : Action V → Prop
  | .tick =>
    match s.control with
    | .run _ (.park _) => departure s.stack = none
    | .run f (.throw c _) =>
      ∀ p ∈ s.konts[c]?, p.1 = f ∧ departure p.2.stack = departure s.stack
    | .raise _ _ => ∀ h ∈ s.handlers.value.head?, departure h.k.stack = departure s.stack
    | _ => True
  | _ => True

instance (s : State V) (a : Action V) : Decidable (Contained s a) := by
  unfold Contained
  split
  · split <;> infer_instance
  · infer_instance

/-! ## 3. Places -/

/-- The frames below the `reset*` of the `n`-th call. -/
def callFrames (f : FutureId) (n w : Nat) : List (Frame V) := [.wind w, .handleStep n (some f)]

/-- The handler of `run-step`. -/
def stepHandler (f : FutureId) (n w : Nat) : Handler V :=
  ⟨⟨.result :: callFrames f n w, [w]⟩, .runStep f⟩

/-- A winder of the fiber's own that is no condition handler's. -/
def Kind.Own (f : FutureId) : Kind V → Prop
  | .param _ _ => True
  | .thunks g _ _ => g = f
  | _ => False

/-- What places in the code of a fiber consist of. -/
inductive Piece (V : Type)
  /-- The winders of a place, with the handlers that code of the fiber has bound there. -/
  | winders (ws : List Nat) (hs : List (Handler V))
  /-- The frames under code that runs in the winders `ws`. -/
  | frames (K : List (Frame V)) (ws : List Nat)
  /-- Where a jump ends. -/
  | target (k : Kont V) (x : Focus V)

/-- The pieces of code of the fiber `f`: its own frames and winders over those of a call of
`run-fiber!` that began it. -/
inductive Fits (outer : Outer V) (kinds : List (Kind V)) (f : FutureId) : Piece V → Prop
  | step {n w g : Nat} (hw : kinds[w]? = some (.currentFiber (some f)))
      (hg : kinds[g]? = some (.handlers (stepHandler f n w :: outer.handlers))) :
      Fits outer kinds f (.winders [g, w] [stepHandler f n w])
  | own {ws : List Nat} {hs : List (Handler V)} {w : Nat} {kind : Kind V}
      (h : Fits outer kinds f (.winders ws hs)) (hnew : w ∉ ws) (hw : kinds[w]? = some kind)
      (hown : kind.Own f) : Fits outer kinds f (.winders (w :: ws) hs)
  | guarded {K : List (Frame V)} {ws : List Nat} {hs : List (Handler V)} {w : Nat}
      {test : V → Bool} {handler : V → Body V} (h : Fits outer kinds f (.winders ws hs))
      (hK : Fits outer kinds f (.frames K ws)) (hnew : w ∉ ws)
      (hw : kinds[w]? = some
        (.handlers (⟨⟨K, ws⟩, .user f test handler⟩ :: hs ++ outer.handlers))) :
      Fits outer kinds f (.winders (w :: ws) (⟨⟨K, ws⟩, .user f test handler⟩ :: hs))
  | handling {ws : List Nat} {hs hs' : List (Handler V)} {w : Nat}
      (h : Fits outer kinds f (.winders ws hs)) (hsuf : hs' <:+ hs) (hne : hs' ≠ []) (hnew : w ∉ ws)
      (hw : kinds[w]? = some (.handlers (hs' ++ outer.handlers))) :
      Fits outer kinds f (.winders (w :: ws) hs')
  | base {n w g : Nat} (hw : kinds[w]? = some (.currentFiber (some f)))
      (hg : kinds[g]? = some (.handlers (stepHandler f n w :: outer.handlers))) :
      Fits outer kinds f
        (.frames (.consOk f :: .guard g (.runStep f) :: .result :: callFrames f n w) [g, w])
  | bind {K : List (Frame V)} {ws : List Nat} (k : V → Body V)
      (h : Fits outer kinds f (.frames K ws)) : Fits outer kinds f (.frames (.bind f k :: K) ws)
  | enter {K : List (Frame V)} {ws : List Nat} (before after body : Body V)
      (h : Fits outer kinds f (.frames K ws)) :
      Fits outer kinds f (.frames (.enter f before after body :: K) ws)
  | keep {K : List (Frame V)} {ws : List Nat} (v : V) (h : Fits outer kinds f (.frames K ws)) :
      Fits outer kinds f (.frames (.keep v :: K) ws)
  | wind {K : List (Frame V)} {ws : List Nat} {w : Nat} {kind : Kind V}
      (h : Fits outer kinds f (.frames K ws)) (hnew : w ∉ ws) (hw : kinds[w]? = some kind)
      (hown : kind.Own f) : Fits outer kinds f (.frames (.wind w :: K) (w :: ws))
  | guard {K : List (Frame V)} {ws : List Nat} {hs : List (Handler V)} {w : Nat}
      {test : V → Bool} {handler : V → Body V} (h : Fits outer kinds f (.frames K ws))
      (hws : Fits outer kinds f (.winders (w :: ws) hs)) :
      Fits outer kinds f (.frames (.guard w (.user f test handler) :: K) (w :: ws))
  -- a thunk that a jump has called
  | jump {ws ws' : List Nat} {hs : List (Handler V)} {k : Kont V} {x : Focus V}
      (h : Fits outer kinds f (.winders ws hs)) (hk : Fits outer kinds f (.target k x))
      (hws : ws' = ws ∨ ∃ w before after, ws' = w :: ws ∧
        kinds[w]? = some (.thunks f before after) ∧ w :: ws <:+ k.winders) :
      Fits outer kinds f (.frames [.jump ws' k x] ws)
  | value {K : List (Frame V)} {ws : List Nat} (v : V) (h : Fits outer kinds f (.frames K ws)) :
      Fits outer kinds f (.target ⟨K, ws⟩ (.value (.user v)))
  | caught {K B : List (Frame V)} {ws ws' : List Nat} {hs : List (Handler V)} {test : V → Bool}
      {handler : V → Body V} (e : V) (h : Fits outer kinds f (.frames K ws))
      (hback : Fits outer kinds f (.winders ws' hs)) (hd : departure B = departure K) :
      Fits outer kinds f (.target ⟨K, ws⟩ (.caught (some f) e (.user f test handler) ⟨B, ws'⟩))
  | failed {n w : Nat} (e : V) (back : Kont V) (hw : kinds[w]? = some (.currentFiber (some f))) :
      Fits outer kinds f
        (.target ⟨.result :: callFrames f n w, [w]⟩ (.caught (some f) e (.runStep f) back))
  | again {B : List (Frame V)} {ws : List Nat} {hs : List (Handler V)} (e : V)
      (h : Fits outer kinds f (.winders ws hs)) :
      Fits outer kinds f (.target ⟨B, ws⟩ (.again (some f) e))
  | parked {n w : Nat} (hw : kinds[w]? = some (.currentFiber (some f))) :
      Fits outer kinds f (.target ⟨callFrames f n w, [w]⟩ (.value (.step .suspended)))

section
variable {kinds kinds' : List (Kind V)} {f : FutureId} {p : Piece V} {K : List (Frame V)}
  {ws : List Nat} {hs : List (Handler V)} {w : Nat} {kind : Kind V}

theorem kind_mono (h : kinds <+: kinds') (hw : kinds[w]? = some kind) :
    kinds'[w]? = some kind := by
  rcases h with ⟨rest, rfl⟩
  rw [List.getElem?_append_left (List.getElem?_eq_some_iff.mp hw).1]
  exact hw

/-- Winders are only added. -/
theorem Fits.mono (h : Fits outer kinds f p) (hkinds : kinds <+: kinds') :
    Fits outer kinds' f p := by
  induction h with
  | step hw hg => exact .step (kind_mono hkinds hw) (kind_mono hkinds hg)
  | own _ hnew hw hown ih => exact ih.own hnew (kind_mono hkinds hw) hown
  | guarded _ _ hnew hw ih ihK => exact ih.guarded ihK hnew (kind_mono hkinds hw)
  | handling _ hsuf hne hnew hw ih => exact ih.handling hsuf hne hnew (kind_mono hkinds hw)
  | base hw hg => exact .base (kind_mono hkinds hw) (kind_mono hkinds hg)
  | bind k _ ih => exact ih.bind k
  | enter before after body _ ih => exact ih.enter before after body
  | keep v _ ih => exact ih.keep v
  | wind _ hnew hw hown ih => exact ih.wind hnew (kind_mono hkinds hw) hown
  | guard _ _ ih ihws => exact ih.guard ihws
  | jump _ _ hws ih ihk =>
    refine ih.jump ihk (hws.imp_right ?_)
    rintro ⟨w, before, after, hcons, hw, hsuf⟩
    exact ⟨w, before, after, hcons, kind_mono hkinds hw, hsuf⟩
  | value v _ ih => exact ih.value v
  | caught e _ _ hd ih ihback => exact ih.caught e ihback hd
  | failed e back hw => exact .failed e back (kind_mono hkinds hw)
  | again e _ ih => exact ih.again e
  | parked hw => exact .parked (kind_mono hkinds hw)

theorem Fits.frames_winders (h : Fits outer kinds f (.frames K ws)) :
    ∃ hs, Fits outer kinds f (.winders ws hs) := by
  generalize hp : Piece.frames K ws = p at h
  induction h generalizing K ws with
  | base hw hg =>
    cases hp
    exact ⟨_, .step hw hg⟩
  | bind _ _ ih | enter _ _ _ _ ih | keep _ _ ih =>
    cases hp
    exact ih rfl
  | wind _ hnew hw hown ih =>
    cases hp
    rcases ih rfl with ⟨hs, hws⟩
    exact ⟨hs, hws.own hnew hw hown⟩
  | guard _ hws =>
    cases hp
    exact ⟨_, hws⟩
  | jump h =>
    cases hp
    exact ⟨_, h⟩
  | step | own | guarded | handling | value | caught | failed | again | parked => cases hp

/-- Under the winders with thunks there are places of the fiber. -/
def Below (outer : Outer V) (kinds : List (Kind V)) (f : FutureId) (ws : List Nat) : Prop :=
  ∀ w vs g before after, w :: vs <:+ ws → kinds[w]? = some (.thunks g before after) →
    g = f ∧ ∃ hs, Fits outer kinds f (.winders vs hs)

theorem Below.suffix {vs : List Nat} (h : Below outer kinds f ws) (hsuf : vs <:+ ws) :
    Below outer kinds f vs :=
  fun w us g before after hus hw => h w us g before after (hus.trans hsuf) hw

theorem Below.cons (h : Below outer kinds f ws) (hw : Swaps kinds w) :
    Below outer kinds f (w :: ws) := by
  intro v vs g before after hsuf hv
  rcases List.suffix_cons_iff.mp hsuf with heq | hsuf
  · cases heq
    exact absurd hv (hw g before after)
  · exact h v vs g before after hsuf hv

theorem below_nil : Below outer kinds f [] :=
  fun w vs _ _ _ hsuf _ => absurd (List.suffix_nil.mp hsuf) (List.cons_ne_nil w vs)

theorem swaps_of_kind (hw : kinds[w]? = some kind)
    (hkind : ∀ g before after, kind ≠ .thunks g before after) : Swaps kinds w := by
  intro g before after h
  rw [hw] at h
  exact hkind g before after (Option.some.inj h)

theorem swaps_currentFiber {fib : Option FutureId} (hw : kinds[w]? = some (.currentFiber fib)) :
    Swaps kinds w := swaps_of_kind hw fun _ _ _ h => by cases h

theorem swaps_handlers {x : List (Handler V)} (hw : kinds[w]? = some (.handlers x)) :
    Swaps kinds w := swaps_of_kind hw fun _ _ _ h => by cases h

/-- What the winders of a place say. -/
structure Place (outer : Outer V) (kinds : List (Kind V)) (f : FutureId) (ws : List Nat)
    (hs : List (Handler V)) : Prop where
  nodup : ws.Nodup
  lt : ∀ w ∈ ws, w < kinds.length
  fiber : bound (binds Kind.fiber kinds) outer.currentFiber ws = some f
  handlers : bound (binds Kind.handlerStack kinds) outer.handlers ws = hs ++ outer.handlers
  below : Below outer kinds f ws
  /-- The outermost handler is that of `run-step`. -/
  last : ∃ n w, [stepHandler f n w] <:+ hs

theorem Place.ne_nil (h : Place outer kinds f ws hs) : hs ≠ [] := by
  rintro rfl
  rcases h.last with ⟨n, w, hlast⟩
  exact List.cons_ne_nil _ _ (List.suffix_nil.mp hlast)

/-- Behind a `guard` of the fiber's code the handler of `run-step` is still to come. -/
theorem Place.tail_ne_nil {k : Kont V} {g : FutureId} {test : V → Bool} {handler : V → Body V}
    (h : Place outer kinds f ws (⟨k, .user g test handler⟩ :: hs)) : hs ≠ [] := by
  rintro rfl
  rcases h.last with ⟨n, w, hlast⟩
  rcases List.suffix_cons_iff.mp hlast with heq | hnil
  · cases heq
  · exact List.cons_ne_nil _ _ (List.suffix_nil.mp hnil)

theorem lt_of_kind (hw : kinds[w]? = some kind) : w < kinds.length :=
  (List.getElem?_eq_some_iff.mp hw).1

theorem lt_cons (hws : ∀ v ∈ ws, v < kinds.length) (hw : kinds[w]? = some kind) :
    ∀ v ∈ w :: ws, v < kinds.length := by
  intro v hv
  rcases List.mem_cons.mp hv with rfl | hv
  · exact lt_of_kind hw
  · exact hws v hv

/-- A winder that binds the handler stack. -/
theorem Place.handlers_cons {hs' : List (Handler V)} (h : Place outer kinds f ws hs)
    (hnew : w ∉ ws) (hw : kinds[w]? = some (.handlers (hs' ++ outer.handlers)))
    (hlast : ∃ n w, [stepHandler f n w] <:+ hs') : Place outer kinds f (w :: ws) hs' := by
  refine ⟨List.nodup_cons.mpr ⟨hnew, h.nodup⟩, lt_cons h.lt hw, ?_, ?_,
    h.below.cons (swaps_handlers hw), hlast⟩
  · simpa [bound, binds, hw, Kind.fiber] using h.fiber
  · simp [bound, binds, hw, Kind.handlerStack]

/-- A winder of the fiber's own. -/
theorem Place.own_cons (h : Place outer kinds f ws hs) (hfits : Fits outer kinds f (.winders ws hs))
    (hnew : w ∉ ws) (hw : kinds[w]? = some kind) (hown : kind.Own f) :
    Place outer kinds f (w :: ws) hs := by
  refine ⟨List.nodup_cons.mpr ⟨hnew, h.nodup⟩, lt_cons h.lt hw, ?_, ?_, ?_, h.last⟩
  · cases kind with
    | param | thunks => simpa [bound, binds, hw, Kind.fiber] using h.fiber
    | currentFiber | handlers => cases hown
  · cases kind with
    | param | thunks => simpa [bound, binds, hw, Kind.handlerStack] using h.handlers
    | currentFiber | handlers => cases hown
  · intro v vs g before after hsuf hv
    rcases List.suffix_cons_iff.mp hsuf with heq | hsuf
    · cases heq
      rw [hw] at hv
      cases hv
      exact ⟨hown, hs, hfits⟩
    · exact h.below v vs g before after hsuf hv

theorem Fits.place (h : Fits outer kinds f (.winders ws hs)) : Place outer kinds f ws hs := by
  generalize hp : Piece.winders ws hs = p at h
  induction h generalizing ws hs with
  | @step n w g hw hg =>
    cases hp
    have hne : g ≠ w := by
      rintro rfl
      rw [hw] at hg
      cases hg
    refine ⟨by simp [hne], lt_cons (lt_cons (fun _ hv => absurd hv List.not_mem_nil) hw) hg,
      ?_, ?_, ?_, n, w, List.suffix_refl _⟩
    · simp [bound, binds, hg, hw, Kind.fiber]
    · simp [bound, binds, hg, Kind.handlerStack]
    · exact (below_nil.cons (swaps_currentFiber hw)).cons (swaps_handlers hg)
  | own h hnew hw hown ih =>
    cases hp
    exact (ih rfl).own_cons h hnew hw hown
  | guarded h _ hnew hw ih =>
    cases hp
    have hplace := ih rfl
    rcases hplace.last with ⟨n, v, hlast⟩
    exact hplace.handlers_cons hnew hw ⟨n, v, hlast.trans (List.suffix_cons _ _)⟩
  | handling h hsuf hne hnew hw ih =>
    cases hp
    have hplace := ih rfl
    rcases hplace.last with ⟨n, v, hlast⟩
    exact hplace.handlers_cons hnew hw
      ⟨n, v, List.suffix_of_suffix_length_le hlast hsuf (List.length_pos_of_ne_nil hne)⟩
  | base | bind | enter | keep | wind | guard | jump | value | caught | failed | again | parked =>
    cases hp

/-- Where the handlers of a place jump to. -/
inductive Catches (outer : Outer V) (kinds : List (Kind V)) (f : FutureId) : Handler V → Prop
  | user {K : List (Frame V)} {ws : List Nat} {test : V → Bool} {handler : V → Body V}
      (h : Fits outer kinds f (.frames K ws)) :
      Catches outer kinds f ⟨⟨K, ws⟩, .user f test handler⟩
  | runStep {n w : Nat} (hw : kinds[w]? = some (.currentFiber (some f))) :
      Catches outer kinds f (stepHandler f n w)

theorem Fits.catches (h : Fits outer kinds f (.winders ws hs)) :
    ∀ x ∈ hs, Catches outer kinds f x := by
  generalize hp : Piece.winders ws hs = p at h
  induction h generalizing ws hs with
  | step hw hg =>
    cases hp
    intro x hx
    rw [List.mem_singleton.mp hx]
    exact .runStep hw
  | own _ _ _ _ ih =>
    cases hp
    exact ih rfl
  | guarded _ hK _ _ ih =>
    cases hp
    intro x hx
    rcases List.mem_cons.mp hx with rfl | hx
    · exact .user hK
    · exact ih rfl x hx
  | handling _ hsuf _ _ _ ih =>
    cases hp
    exact fun x hx => ih rfl x (hsuf.subset hx)
  | base | bind | enter | keep | wind | guard | jump | value | caught | failed | again | parked =>
    cases hp

/-- Winders that a jump may come from or go to. -/
structure Path (outer : Outer V) (kinds : List (Kind V)) (f : FutureId) (ws : List Nat) : Prop where
  nodup : ws.Nodup
  lt : ∀ w ∈ ws, w < kinds.length
  below : Below outer kinds f ws

theorem Place.path (h : Place outer kinds f ws hs) : Path outer kinds f ws :=
  ⟨h.nodup, h.lt, h.below⟩

theorem path_call {fib : Option FutureId} (hw : kinds[w]? = some (.currentFiber fib)) :
    Path outer kinds f [w] :=
  ⟨by simp, lt_cons (fun _ hv => absurd hv List.not_mem_nil) hw,
    below_nil.cons (swaps_currentFiber hw)⟩

theorem Fits.path {k : Kont V} {x : Focus V} (h : Fits outer kinds f (.target k x)) :
    Path outer kinds f k.winders := by
  cases h with
  | value v h | caught e h =>
    rcases h.frames_winders with ⟨hs, hws⟩
    exact hws.place.path
  | failed _ _ hw | parked hw => exact path_call hw
  | again e h => exact h.place.path

end

end ChezAsync.ShiftReset
