import ChezAsync.HighLevel.FiberSteps

/-!
# The encoding isolates fibers

In every run whose departing thunks are contained and whose fibers throw to their own continuations
only, each call of `run-fiber!` gets its step back, with what the code of its own fiber came to and
with the two cells as they were, and code of a fiber runs under its own `current-fiber`.
-/

namespace ChezAsync.ShiftReset

open ChezAsync.Async (FutureId)

variable {V : Type} {outer : Outer V} {s t u : State V}

/-! ## 1. Every step comes back -/

/-- The machine gets to the scheduler again, or to a `throw` of the fiber's code, or to a step that
is not contained. -/
def Returns (outer : Outer V) (s : State V) : Prop :=
  ∃ n t, (machine outer).runFrom s (List.replicate n .tick) = some t ∧
    (t.control = .idle ∨ (∃ f c v, t.control = .run f (.throw c v)) ∨ ¬ Contained t .tick)

theorem returns_idle (h : s.control = .idle) : Returns outer s := ⟨0, s, rfl, .inl h⟩

theorem returns_tick (hs : Inv outer s) (ht : tick s = some t) (h : Inv outer t → Returns outer t) :
    Returns outer s := by
  by_cases hC : Contained s .tick
  · rcases h (inv_tick hs hC ht) with ⟨n, u, hrun, hu⟩
    exact ⟨n + 1, u, (machine outer).runFrom_cons.mpr ⟨t, ht, hrun⟩, hu⟩
  · exact ⟨0, s, rfl, .inr (.inr hC)⟩

section
variable {kinds kinds' : List (Kind V)} {f : FutureId} {K : List (Frame V)} {ws : List Nat}
  {hs : List (Handler V)} {w : Nat}

/-- A value that is given to the frames `K` in the winders `ws` comes back, once there are the
winders `kinds`. -/
def Delivers (outer : Outer V) (kinds : List (Kind V)) (K : List (Frame V)) (ws : List Nat) :
    Prop :=
  ∀ u v, kinds <+: u.kinds → Inv outer u → u.control = .ret (.user v) → u.stack = K →
    u.winders = ws → Returns outer u

/-- So does code over them. -/
def Runs (outer : Outer V) (kinds : List (Kind V)) (f : FutureId) (b : Body V) (K : List (Frame V))
    (ws : List Nat) : Prop :=
  ∀ u, kinds <+: u.kinds → Inv outer u → u.control = .run f b → u.stack = K → u.winders = ws →
    Returns outer u

/-- What comes to the end of a jump comes back. -/
def Arrives (outer : Outer V) (kinds : List (Kind V)) (k : Kont V) (x : Focus V) : Prop :=
  ∀ u, kinds <+: u.kinds → Inv outer u → u.control = .jump k x → u.winders = k.winders →
    Returns outer u

/-- Code that comes back in the winders `ws`, over frames that a value comes back from. -/
def Sound (outer : Outer V) (kinds : List (Kind V)) (f : FutureId) (ws : List Nat)
    (b : Body V) : Prop :=
  ∀ kinds' K, kinds <+: kinds' → Delivers outer kinds' K ws → Runs outer kinds' f b K ws

/-- The thunks that a jump calls on its way are such code. -/
def Passes (outer : Outer V) (kinds : List (Kind V)) (ws : List Nat) : Prop :=
  ∀ w vs g before after kinds', w :: vs <:+ ws → kinds <+: kinds' →
    kinds'[w]? = some (.thunks g before after) →
      Sound outer kinds' g vs before ∧ Sound outer kinds' g vs after

theorem Delivers.mono (h : Delivers outer kinds K ws) (hk : kinds <+: kinds') :
    Delivers outer kinds' K ws := fun u v hu => h u v (hk.trans hu)

theorem Runs.mono {b : Body V} (h : Runs outer kinds f b K ws) (hk : kinds <+: kinds') :
    Runs outer kinds' f b K ws := fun u hu => h u (hk.trans hu)

theorem Sound.mono {b : Body V} (h : Sound outer kinds f ws b) (hk : kinds <+: kinds') :
    Sound outer kinds' f ws b := fun kinds'' K hu => h kinds'' K (hk.trans hu)

theorem Passes.mono (h : Passes outer kinds ws) (hk : kinds <+: kinds') :
    Passes outer kinds' ws :=
  fun w vs g before after kinds'' hsuf hu => h w vs g before after kinds'' hsuf (hk.trans hu)

theorem Passes.suffix {vs : List Nat} (h : Passes outer kinds ws) (hsuf : vs <:+ ws) :
    Passes outer kinds vs :=
  fun w us g before after kinds' hus => h w us g before after kinds' (hus.trans hsuf)

theorem passes_nil : Passes outer kinds [] :=
  fun w vs _ _ _ _ hsuf => absurd (List.suffix_nil.mp hsuf) (List.cons_ne_nil w vs)

theorem Passes.cons (h : Passes outer kinds ws) (hw : w < kinds.length) (hswaps : Swaps kinds w) :
    Passes outer kinds (w :: ws) := by
  intro v vs g before after kinds' hsuf hk hv
  rcases List.suffix_cons_iff.mp hsuf with heq | hsuf
  · cases heq
    rcases hk with ⟨rest, rfl⟩
    rw [List.getElem?_append_left hw] at hv
    exact absurd hv (hswaps g before after)
  · exact h v vs g before after kinds' hsuf hk hv

theorem passes_of_swaps (hlt : ∀ w ∈ ws, w < kinds.length) (hswaps : ∀ w ∈ ws, Swaps kinds w) :
    Passes outer kinds ws := by
  induction ws with
  | nil => exact passes_nil
  | cons w ws ih =>
    have htail := ih (fun v hv => hlt v (List.mem_cons_of_mem w hv))
      fun v hv => hswaps v (List.mem_cons_of_mem w hv)
    exact htail.cons (hlt w List.mem_cons_self) (hswaps w List.mem_cons_self)

/-- A jump whose end comes back comes back. -/
theorem returns_jump {k : Kont V} {x : Focus V} (harrives : Arrives outer kinds k x)
    (hdst : Passes outer kinds k.winders) (hsrc : Passes outer kinds u.winders)
    (hext : kinds <+: u.kinds) (hu : Inv outer u) (hc : u.control = .jump k x) :
    Returns outer u := by
  generalize hws : u.winders = ws at hsrc
  induction ws using DynamicWind.jump_induction k.winders generalizing u with
  | here => exact harrives u hext hu hc hws
  | leave w ws hnext ih =>
    have hdeliver : Delivers outer u.kinds [.jump ws k x] ws := by
      intro t v htu ht htc htstack htws
      refine returns_tick (t := { t with winders := ws, control := .jump k x }) ht ?_ fun hinv =>
        ih (hext.trans htu) hinv rfl rfl (hsrc.suffix (List.suffix_cons w ws))
      simp only [tick, htc, State.deliver, htstack]
    have htick : tick u = some (u.move k x) := by
      simp only [tick, hc]
    rcases move_leave hws (hws.symm ▸ hnext) with ⟨g, before, after, hw, hmove⟩ | ⟨-, hmove⟩
    · rw [hmove] at htick
      exact returns_tick hu htick fun hinv =>
        (hsrc w ws g before after u.kinds (List.suffix_refl _) hext hw).2 _ _
          (List.prefix_refl _) hdeliver _ (List.prefix_refl _) hinv rfl rfl rfl
    · have hmoved := moved_swap w u ws
      rw [hmove] at htick
      exact returns_tick hu htick fun hinv =>
        ih (hmoved.kinds ▸ hext) hinv (hmoved.control.trans hc) rfl
          (hsrc.suffix (List.suffix_cons w ws))
  | enter w ws hnext ih =>
    have hsuf := DynamicWind.next_enter hnext
    have hdeliver : Delivers outer u.kinds [.jump (w :: ws) k x] ws := by
      intro t v htu ht htc htstack htws
      refine returns_tick (t := { t with winders := w :: ws, control := .jump k x }) ht ?_
        fun hinv => ih (hext.trans htu) hinv rfl rfl (hdst.suffix hsuf)
      simp only [tick, htc, State.deliver, htstack]
    have htick : tick u = some (u.move k x) := by
      simp only [tick, hc]
    rcases move_enter (hws.symm ▸ hnext) with ⟨g, before, after, hw, hmove⟩ | ⟨-, hmove⟩
    · rw [hmove, hws] at htick
      exact returns_tick hu htick fun hinv =>
        (hdst w ws g before after u.kinds hsuf hext hw).1 _ _
          (List.prefix_refl _) hdeliver _ (List.prefix_refl _) hinv rfl rfl rfl
    · have hmoved := moved_swap w u (w :: u.winders)
      rw [hmove] at htick
      exact returns_tick hu htick fun hinv =>
        ih (hmoved.kinds ▸ hext) hinv (hmoved.control.trans hc) (hws ▸ rfl) (hdst.suffix hsuf)

/-- The end of a jump: what the state is then. -/
theorem tick_arrive {k : Kont V} {x : Focus V} (hc : u.control = .jump k x)
    (hws : u.winders = k.winders) : tick u = some ({ u with stack := k.stack }.arrive x) := by
  have hnext : DynamicWind.next u.winders k.winders = none := hws ▸ DynamicWind.next_self _
  simp only [tick, hc, move_arrive hnext]

section
variable {x : StepResult V} {n : Nat}

theorem returns_handle {fib : Option FutureId} (hs : Inv outer s) (hc : s.control = .ret (.step x))
    (hstack : s.stack = [.handleStep n fib]) : Returns outer s := by
  rcases handle_spec hs hc hstack with ⟨t, ht, _, hidle⟩
  exact returns_tick hs ht fun _ => returns_idle hidle

theorem returns_back (hs : Inv outer s) (hc : s.control = .ret (.step x))
    (hstack : s.stack = callFrames f n w) : Returns outer s := by
  rcases back_spec hs hc hstack with ⟨t, ht, hinv, hc', hstack'⟩
  exact returns_tick hs ht fun _ => returns_handle hinv hc' hstack'

theorem arrives_call : Arrives outer kinds ⟨callFrames f n w, [w]⟩ (.value (.step x)) :=
  fun _ _ hu hc hws => returns_tick hu (tick_arrive hc hws) fun hinv => returns_back hinv rfl rfl

theorem passes_call {fib : Option FutureId} (hw : kinds[w]? = some (.currentFiber fib)) :
    Passes outer kinds [w] := passes_nil.cons (lt_of_kind hw) (swaps_currentFiber hw)

theorem returns_result (hs : Inv outer s) (hc : s.control = .ret (.step x))
    (hstack : s.stack = .result :: K) : Returns outer s := by
  rcases result_spec hs hc hstack with ⟨t, g, m, w, ht, hinv, hc', hw, hswaps⟩
  exact returns_tick hs ht fun _ => returns_jump (arrives_call : Arrives outer t.kinds _ _)
    (passes_call hw) (passes_of_swaps hinv.winds.lt hswaps) (List.prefix_refl _) hinv hc'

/-- The value of a step comes back. -/
theorem returns_step (hs : Inv outer s) (hc : s.control = .ret (.step x)) : Returns outer s := by
  cases hs.stage with
  | leaving hc' hstack =>
    rw [hc] at hc'
    cases hc'
    rcases leaving_spec hs hc hstack with ⟨t, ht, hinv, hc', hstack'⟩
    exact returns_tick hs ht fun _ => returns_result hinv hc' hstack'
  | result _ hstack => exact returns_result hs hc hstack
  | back _ hstack => exact returns_back hs hc hstack
  | handle _ hstack => exact returns_handle hs hc hstack
  | idle | code | raising | jumping | returning => simp_all

end

/-! Exceptions. -/

/-- What a handler comes to comes back, and so does the way there. -/
def Handles (outer : Outer V) (kinds : List (Kind V)) (f : FutureId) (h : Handler V) : Prop :=
  match h.clauses with
  | .user _ _ handler => Passes outer kinds h.k.winders ∧
      ∀ e, Runs outer kinds f (handler e) h.k.stack h.k.winders
  | .runStep _ => True

/-- A place whose thunks and handlers come back. -/
structure Safe (outer : Outer V) (kinds : List (Kind V)) (f : FutureId) (ws : List Nat)
    (hs : List (Handler V)) : Prop where
  fits : Fits outer kinds f (.winders ws hs)
  passes : Passes outer kinds ws
  handles : ∀ h ∈ hs, Handles outer kinds f h

theorem Handles.mono {h : Handler V} (hh : Handles outer kinds f h) (hk : kinds <+: kinds') :
    Handles outer kinds' f h := by
  rcases h with ⟨k, clauses⟩
  cases clauses with
  | user g test handler => exact ⟨hh.1.mono hk, fun e => (hh.2 e).mono hk⟩
  | runStep g => trivial

theorem Safe.mono (h : Safe outer kinds f ws hs) (hk : kinds <+: kinds') :
    Safe outer kinds' f ws hs :=
  ⟨h.fits.mono hk, h.passes.mono hk, fun x hx => (h.handles x hx).mono hk⟩

theorem arrives_failed {k : Kont V} {g : FutureId} {e : V} {back : Kont V} :
    Arrives outer kinds k (.caught (some f) e (.runStep g) back) :=
  fun _ _ hu hc hws => returns_tick hu (tick_arrive hc hws) fun hinv => returns_step hinv rfl

/-- The clauses of a `guard`, and the way back if none matches. -/
theorem arrives_caught {test : V → Bool} {handler : V → Body V} {e : V} {back : Kont V}
    (hhandler : ∀ e, Runs outer kinds f (handler e) K ws) (hpasses : Passes outer kinds ws)
    (hback : Passes outer kinds back.winders)
    (hagain : Arrives outer kinds back (.again (some f) e)) :
    Arrives outer kinds ⟨K, ws⟩ (.caught (some f) e (.user f test handler) back) := by
  intro u hext hu hc hws
  refine returns_tick hu (tick_arrive hc hws) fun hinv => ?_
  simp only [State.arrive] at hinv ⊢
  split
  case isTrue htest =>
    rw [if_pos htest] at hinv
    exact hhandler e _ hext hinv rfl rfl hws
  case isFalse htest =>
    rw [if_neg htest] at hinv
    have hsrc : Passes outer kinds u.winders := by
      rw [hws]
      exact hpasses
    exact returns_jump hagain hback hsrc hext hinv rfl

/-- An exception of a safe place comes back. -/
theorem returns_raise {e : V} (hsafe : Safe outer u.kinds f u.winders hs) (hu : Inv outer u)
    (hc : u.control = .raise (some f) e) : Returns outer u := by
  induction hs generalizing u with
  | nil => exact absurd rfl hsafe.fits.place.ne_nil
  | cons h hs ih =>
    have hvalue := (hu.winds.cells hsafe.fits).2
    have htick : tick u = u.raise (some f) e := by
      simp only [tick, hc]
    rw [raise_eq hvalue] at htick
    refine returns_tick hu htick fun ht => ?_
    have hspec := entered_wind u (.handlers (hs ++ outer.handlers)) .raise
    have hnew := hu.winds.new_notMem
    generalize u.wind (.handlers (hs ++ outer.handlers)) .raise = inner at hspec ht ⊢
    have hkind := hspec.kind
    have hsafe' := hsafe.mono hspec.ext
    have hpasses := hsafe'.passes.cons (lt_of_kind hkind) (swaps_handlers hkind)
    have hhandles := hsafe'.handles h List.mem_cons_self
    -- the next handler, with the outer ones bound
    have hback : hs ≠ [] → Arrives outer inner.kinds
        ⟨.raise u.kinds.length :: u.stack, u.kinds.length :: u.winders⟩ (.again (some f) e) := by
      intro hne v hv hinv hcv hws
      refine returns_tick hinv (tick_arrive hcv hws) fun hinv' => ih ?_ hinv' rfl
      have hplace := hsafe'.fits.handling (List.suffix_cons _ _) hne hnew hkind
      have htail : Safe outer inner.kinds f (u.kinds.length :: u.winders) hs :=
        ⟨hplace, hpasses, fun x hx => hsafe'.handles x (List.mem_cons_of_mem h hx)⟩
      show Safe outer v.kinds f v.winders hs
      rw [hws]
      exact htail.mono hv
    have hsrc : Passes outer inner.kinds inner.winders := by
      rw [hspec.winders]
      exact hpasses
    have hcatch := hsafe'.fits.catches h List.mem_cons_self
    cases hcatch with
    | user hK =>
      have hagain := hback hsafe.fits.place.tail_ne_nil
      exact returns_jump (arrives_caught hhandles.2 hhandles.1 hpasses hagain) hhandles.1 hsrc
        (List.prefix_refl _) ht rfl
    | runStep hw =>
      exact returns_jump arrives_failed (passes_call hw) hsrc (List.prefix_refl _) ht rfl

theorem Safe.arrives_again {B : List (Frame V)} {e : V} (h : Safe outer kinds f ws hs) :
    Arrives outer kinds ⟨B, ws⟩ (.again (some f) e) := by
  intro u hext hu hc hws
  have hsafe : Safe outer u.kinds f u.winders hs := by
    rw [hws]
    exact h.mono hext
  exact returns_tick hu (tick_arrive hc hws) fun hinv => returns_raise hsafe hinv rfl

/-! Frames. -/

theorem Delivers.bind {k : V → Body V} (h : ∀ v, Runs outer kinds f (k v) K ws) :
    Delivers outer kinds (.bind f k :: K) ws := by
  intro u v hext hu hc hstack hws
  have htick : tick u = some { u with stack := K, control := .run f (k v) } := by
    simp only [tick, hc, State.deliver, hstack]
  exact returns_tick hu htick fun hinv => h v _ hext hinv rfl rfl hws

theorem Delivers.keep (h : Delivers outer kinds K ws) (v : V) :
    Delivers outer kinds (.keep v :: K) ws := by
  intro u v' hext hu hc hstack hws
  have htick : tick u = some { u with stack := K, control := .ret (.user v) } := by
    simp only [tick, hc, State.deliver, hstack]
  exact returns_tick hu htick fun hinv => h _ v hext hinv rfl rfl hws

theorem Delivers.exit (h : Delivers outer kinds K ws) {frame : Frame V}
    (hframe : (∃ clauses, frame = .guard w clauses) ∨
      ∃ p v, frame = .wind w ∧ kinds[w]? = some (.param p v)) :
    Delivers outer kinds (frame :: K) (w :: ws) := by
  intro u v hext hu hc hstack hws
  have htick : tick u = some (u.exit w K) := by
    rcases hframe with ⟨clauses, rfl⟩ | ⟨p, a, rfl, hw⟩
    · simp only [tick, hc, State.deliver, hstack]
    · simp only [tick, hc, State.deliver, hstack, kind_mono hext hw]
  have hmoved := moved_swap w u u.winders.tail
  refine returns_tick hu htick fun hinv =>
    h _ v (hmoved.kinds ▸ hext) hinv ((control_exit w K u).trans hc) rfl ?_
  show u.winders.tail = ws
  rw [hws, List.tail_cons]

theorem Delivers.after {before after : Body V} (h : Delivers outer kinds K ws)
    (hw : kinds[w]? = some (.thunks f before after)) (hafter : Sound outer kinds f ws after) :
    Delivers outer kinds (.wind w :: K) (w :: ws) := by
  intro u v hext hu hc hstack hws
  have htick : tick u = some { u with
      stack := .keep v :: K, winders := u.winders.tail, control := .run f after } := by
    simp only [tick, hc, State.deliver, hstack, kind_mono hext hw]
  refine returns_tick hu htick fun hinv =>
    hafter kinds _ (List.prefix_refl _) (h.keep v) _ hext hinv rfl rfl ?_
  show u.winders.tail = ws
  rw [hws, List.tail_cons]

/-- Inside a `parameterize`, or the body of a `dynamic-wind` whose thunks come back. -/
theorem Safe.own {kind : Kind V} (h : Safe outer kinds f ws hs) (hnew : w ∉ ws)
    (hw : kinds[w]? = some kind) (hown : kind.Own f)
    (hthunks : ∀ before after, kind = .thunks f before after →
      Sound outer kinds f ws before ∧ Sound outer kinds f ws after) :
    Safe outer kinds f (w :: ws) hs := by
  refine ⟨h.fits.own hnew hw hown, ?_, h.handles⟩
  intro v vs g before after kinds' hsuf hk hv
  rcases List.suffix_cons_iff.mp hsuf with heq | hsuf
  · cases heq
    rw [kind_mono hk hw, Option.some.injEq] at hv
    subst hv
    obtain rfl : g = f := hown
    have hsound := hthunks before after rfl
    exact ⟨hsound.1.mono hk, hsound.2.mono hk⟩
  · exact h.passes v vs g before after kinds' hsuf hk hv

/-- Inside a `guard` whose handler comes back. -/
theorem Safe.guard {test : V → Bool} {handler : V → Body V} (h : Safe outer kinds f ws hs)
    (hfits : Fits outer kinds f (.winders (w :: ws) (⟨⟨K, ws⟩, .user f test handler⟩ :: hs)))
    (hw : Swaps kinds w) (hlt : w < kinds.length)
    (hhandler : ∀ e, Runs outer kinds f (handler e) K ws) :
    Safe outer kinds f (w :: ws) (⟨⟨K, ws⟩, .user f test handler⟩ :: hs) := by
  refine ⟨hfits, h.passes.cons hlt hw, fun x hx => ?_⟩
  rcases List.mem_cons.mp hx with rfl | hx
  · exact ⟨h.passes, hhandler⟩
  · exact h.handles x hx

/-- The body of a `dynamic-wind`, once `before` has come back. -/
theorem Delivers.enter {before after body : Body V} (h : Delivers outer kinds K ws)
    (hsafe : Safe outer kinds f ws hs) (hbefore : Sound outer kinds f ws before)
    (hafter : Sound outer kinds f ws after)
    (hbody : ∀ kinds' w, kinds <+: kinds' → Safe outer kinds' f (w :: ws) hs →
      Sound outer kinds' f (w :: ws) body) :
    Delivers outer kinds (.enter f before after body :: K) ws := by
  intro u v hext hu hc hstack hws
  have htick : tick u = some { { u with stack := K }.wind (.thunks f before after) .wind with
      control := .run f body } := by
    simp only [tick, hc, State.deliver, hstack]
  refine returns_tick hu htick fun hinv => ?_
  have hspec := entered_wind { u with stack := K } (.thunks f before after) .wind
  have hkind : ({ u with stack := K }.wind (.thunks f before after) .wind).kinds[u.kinds.length]? =
      some (.thunks f before after) := hspec.kind
  have hk : kinds <+: ({ u with stack := K }.wind (.thunks f before after) .wind).kinds :=
    hext.trans hspec.ext
  have hnew : u.kinds.length ∉ ws := by
    rw [← hws]
    exact hu.winds.new_notMem
  have hin := (hsafe.mono hk).own hnew hkind rfl fun b a heq => by
    cases heq
    exact ⟨hbefore.mono hk, hafter.mono hk⟩
  refine hbody _ u.kinds.length hk hin _ _ (List.prefix_refl _)
    ((h.mono hk).after hkind (hafter.mono hk)) _ (List.prefix_refl _) hinv rfl hspec.stack ?_
  exact hspec.winders.trans (hws ▸ rfl)

theorem Inv.inCode_run {b : Body V} (hs : Inv outer s) (hc : s.control = .run f b) :
    ∃ n, InCode outer s f n := by
  cases hs.stage with
  | @code f' n hc' hk hcourse =>
    have hf : f' = f := by
      rcases hc' with ⟨b', hb⟩ | ⟨v, hv⟩ <;> simp_all
    subst hf
    exact ⟨n, ⟨hs.winds, hs.known, hcourse⟩, hk⟩
  | idle | raising | jumping | leaving | result | returning | back | handle => simp_all

/-- Code of the fiber `f` that comes back from every safe place. -/
def Sure (outer : Outer V) (f : FutureId) (b : Body V) : Prop :=
  ∀ ⦃kinds ws hs⦄, Safe outer kinds f ws hs → Sound outer kinds f ws b

theorem Sure.returns {b : Body V} (hb : Sure outer f b) (hu : Inv outer u)
    (hc : u.control = .run f b) (hsafe : Safe outer u.kinds f u.winders hs)
    (hK : Delivers outer u.kinds u.stack u.winders) : Returns outer u :=
  hb hsafe _ _ (List.prefix_refl _) hK u (List.prefix_refl _) hu hc rfl rfl

theorem sure_of {b : Body V}
    (h : ∀ u hs, Inv outer u → u.control = .run f b → Safe outer u.kinds f u.winders hs →
      Delivers outer u.kinds u.stack u.winders → Returns outer u) : Sure outer f b := by
  intro kinds ws hs hsafe kinds' K hk hK u hext hu hc hstack hws
  subst hstack hws
  exact h u hs hu hc (hsafe.mono (hk.trans hext)) (hK.mono hext)

theorem Delivers.sure {k : V → Body V} (h : Delivers outer kinds K ws)
    (hsafe : Safe outer kinds f ws hs) (hk : ∀ v, Sure outer f (k v)) :
    Delivers outer kinds (.bind f k :: K) ws :=
  .bind fun v => hk v hsafe _ _ (List.prefix_refl _) h

theorem sure_ret (v : V) : Sure outer f (.ret v) := by
  refine sure_of fun u hs hu hc _ hK => ?_
  have htick : tick u = some { u with control := .ret (.user v) } := by
    simp only [tick, hc, State.runBody]
  exact returns_tick hu htick fun hinv => hK _ v (List.prefix_refl _) hinv rfl rfl rfl

theorem sure_raise (e : V) : Sure outer f (.raise e) := by
  refine sure_of fun u hs hu hc hsafe _ => ?_
  have htick : tick u = some { u with control := .raise (some f) e } := by
    simp only [tick, hc, State.runBody]
  exact returns_tick hu htick fun hinv => returns_raise hsafe hinv rfl

theorem sure_guard {test : V → Bool} {handler : V → Body V} {body : Body V} {k : V → Body V}
    (hhandler : ∀ e, Sure outer f (handler e)) (hbody : Sure outer f body)
    (hk : ∀ v, Sure outer f (k v)) : Sure outer f (.guard test handler body k) := by
  refine sure_of fun u hs hu hc hsafe hK => ?_
  have hbind := hK.sure hsafe hk
  have htick : tick u = some { { u with stack := .bind f k :: u.stack }.guard
      (.user f test handler) with control := .run f body } := by
    simp only [tick, hc, State.runBody]
  refine returns_tick hu htick fun hinv => ?_
  rcases hu.inCode_run hc with ⟨n, hcode⟩
  have hvalue := (hu.winds.cells hsafe.fits).2
  have hspec := entered_wind { u with stack := .bind f k :: u.stack }
    (.handlers (⟨⟨.bind f k :: u.stack, u.winders⟩, .user f test handler⟩ :: u.handlers.value))
    (.guard · (.user f test handler))
  rw [State.guard] at hinv ⊢
  generalize { u with stack := .bind f k :: u.stack }.wind _ _ = t at hspec hinv ⊢
  have hkind : t.kinds[u.kinds.length]? = some (.handlers
      (⟨⟨.bind f k :: u.stack, u.winders⟩, .user f test handler⟩ :: hs ++ outer.handlers)) := by
    rw [hspec.kind, hvalue]
    rfl
  have hsafe' := hsafe.mono hspec.ext
  have hfits :=
    hsafe'.fits.guarded ((hcode.push k).frames.mono hspec.ext) hu.winds.new_notMem hkind
  have hin := hsafe'.guard hfits (swaps_handlers hkind) (lt_of_kind hkind) fun e =>
    hhandler e hsafe' _ _ (List.prefix_refl _) (hbind.mono hspec.ext)
  rw [← hspec.winders] at hin
  have hexit : Delivers outer t.kinds t.stack t.winders := by
    rw [hspec.stack, hspec.winders]
    exact (hbind.mono hspec.ext).exit (.inl ⟨_, rfl⟩)
  exact hbody.returns hinv rfl hin hexit

theorem sure_parameterize {p : Nat} {v : V} {body : Body V} {k : V → Body V}
    (hbody : Sure outer f body) (hk : ∀ v, Sure outer f (k v)) :
    Sure outer f (.parameterize p v body k) := by
  refine sure_of fun u hs hu hc hsafe hK => ?_
  have hbind := hK.sure hsafe hk
  have htick : tick u = some { { u with stack := .bind f k :: u.stack }.wind (.param p v) .wind
      with control := .run f body } := by
    simp only [tick, hc, State.runBody]
  refine returns_tick hu htick fun hinv => ?_
  have hspec := entered_wind { u with stack := .bind f k :: u.stack } (.param p v) .wind
  generalize { u with stack := .bind f k :: u.stack }.wind (.param p v) .wind = t at hspec hinv ⊢
  have hin := (hsafe.mono hspec.ext).own hu.winds.new_notMem hspec.kind trivial fun _ _ heq => by
    cases heq
  rw [← hspec.winders] at hin
  have hexit : Delivers outer t.kinds t.stack t.winders := by
    rw [hspec.stack, hspec.winders]
    exact (hbind.mono hspec.ext).exit (.inr ⟨p, v, rfl, hspec.kind⟩)
  exact hbody.returns hinv rfl hin hexit

theorem sure_dynamicWind {before after body : Body V} {k : V → Body V}
    (hbefore : Sure outer f before) (hafter : Sure outer f after) (hbody : Sure outer f body)
    (hk : ∀ v, Sure outer f (k v)) : Sure outer f (.dynamicWind before after body k) := by
  refine sure_of fun u hs hu hc hsafe hK => ?_
  have htick : tick u = some { u with
      stack := .enter f before after body :: .bind f k :: u.stack, control := .run f before } := by
    simp only [tick, hc, State.runBody]
  have henter := (hK.sure hsafe hk).enter hsafe (hbefore hsafe) (hafter hsafe)
    fun _ _ _ hin => hbody hin
  exact returns_tick hu htick fun hinv => hbefore.returns hinv rfl hsafe henter

theorem sure_getParam {p : Nat} {k : V → Body V} (hk : ∀ v, Sure outer f (k v)) :
    Sure outer f (.getParam p k) := by
  refine sure_of fun u hs hu hc hsafe hK => ?_
  have htick : tick u = some { u with control := .run f (k (u.params p)) } := by
    simp only [tick, hc, State.runBody]
  exact returns_tick hu htick fun hinv => (hk _).returns hinv rfl hsafe hK

theorem sure_setParam {p : Nat} {v : V} {k : Body V} (hk : Sure outer f k) :
    Sure outer f (.setParam p v k) := by
  refine sure_of fun u hs hu hc hsafe hK => ?_
  have htick : tick u = some { u with
      control := .run f k, params := Function.update u.params p v } := by
    simp only [tick, hc, State.runBody]
  exact returns_tick hu htick fun hinv => hk.returns hinv rfl hsafe hK

theorem sure_callcc {body : Nat → Body V} {k : V → Body V} (hbody : ∀ c, Sure outer f (body c))
    (hk : ∀ v, Sure outer f (k v)) : Sure outer f (.callcc body k) := by
  refine sure_of fun u hs hu hc hsafe hK => ?_
  have htick : tick u = some { u with
      control := .run f (body u.konts.length), stack := .bind f k :: u.stack
      konts := u.konts ++ [(f, ⟨.bind f k :: u.stack, u.winders⟩)] } := by
    simp only [tick, hc, State.runBody]
  exact returns_tick hu htick fun hinv =>
    (hbody _).returns hinv rfl hsafe (hK.sure hsafe hk)

theorem sure_throw (c : Nat) (v : V) : Sure outer f (.throw c v) :=
  sure_of fun u _ _ hc _ _ => ⟨0, u, rfl, .inr (.inl ⟨f, c, v, hc⟩)⟩

theorem sure_park (k : V → Body V) : Sure outer f (.park k) := by
  refine sure_of fun u hs hu hc hsafe _ => ?_
  by_cases hC : Contained u .tick
  · rcases hu.inCode_run hc with ⟨n, hcode⟩
    have hd : departure u.stack = none := by
      simp only [Contained, hc] at hC
      exact hC
    have hcourse := hcode.course
    rw [hd] at hcourse
    rcases hcourse with ⟨⟨w, hw, hmp⟩, -⟩
    have htick : tick u = some ({ u with stack := .bind f k :: u.stack }.park f) := by
      simp only [tick, hc, State.runBody]
    rw [park_eq (s := { u with stack := .bind f k :: u.stack }) hmp] at htick
    exact returns_tick hu htick fun hinv => returns_jump
      (arrives_call : Arrives outer u.kinds _ _) (passes_call hw) hsafe.passes
      (List.prefix_refl _) hinv rfl
  · exact ⟨0, u, rfl, .inr (.inr hC)⟩

theorem sure (outer : Outer V) (f : FutureId) (b : Body V) : Sure outer f b := by
  induction b with
  | ret v => exact sure_ret v
  | raise e => exact sure_raise e
  | guard _ _ _ _ ihhandler ihbody ihk => exact sure_guard ihhandler ihbody ihk
  | parameterize _ _ _ _ ihbody ihk => exact sure_parameterize ihbody ihk
  | dynamicWind _ _ _ _ ihbefore ihafter ihbody ihk =>
    exact sure_dynamicWind ihbefore ihafter ihbody ihk
  | getParam _ _ ihk => exact sure_getParam ihk
  | setParam _ _ _ ihk => exact sure_setParam ihk
  | callcc _ _ ihbody ihk => exact sure_callcc ihbody ihk
  | throw c v => exact sure_throw c v
  | park k => exact sure_park k

/-- Code of a fiber in a safe place comes back. -/
theorem Safe.sound (b : Body V) (h : Safe outer kinds f ws hs) : Sound outer kinds f ws b :=
  sure outer f b h

/-- What it is for a piece of a fiber's code that what comes to it comes back. -/
def Good (outer : Outer V) (kinds : List (Kind V)) (f : FutureId) : Piece V → Prop
  | .winders ws hs => Safe outer kinds f ws hs
  | .frames K ws => Delivers outer kinds K ws ∧ ∃ hs, Safe outer kinds f ws hs
  | .target k x => Arrives outer kinds k x ∧ Passes outer kinds k.winders

theorem safe_step {n g : Nat} (hw : kinds[w]? = some (.currentFiber (some f)))
    (hg : kinds[g]? = some (.handlers (stepHandler f n w :: outer.handlers))) :
    Safe outer kinds f [g, w] [stepHandler f n w] := by
  refine ⟨.step hw hg, (passes_call hw).cons (lt_of_kind hg) (swaps_handlers hg), fun x hx => ?_⟩
  rw [List.mem_singleton.mp hx]
  trivial

/-- Everything that code of a fiber may stand in. -/
theorem Fits.good {p : Piece V} (h : Fits outer kinds f p) : Good outer kinds f p := by
  induction h with
  | step hw hg => exact safe_step hw hg
  | own h hnew hw hown ih =>
    exact Safe.own ih hnew hw hown fun before after _ => ⟨ih.sound before, ih.sound after⟩
  | @guarded K ws hs w test handler h hK hnew hw ih ihK =>
    exact Safe.guard ih (h.guarded hK hnew hw) (swaps_handlers hw) (lt_of_kind hw) fun e =>
      ih.sound (handler e) _ _ (List.prefix_refl _) ihK.1
  | handling h hsuf hne hnew hw ih =>
    exact ⟨h.handling hsuf hne hnew hw, ih.passes.cons (lt_of_kind hw) (swaps_handlers hw),
      fun x hx => ih.handles x (hsuf.subset hx)⟩
  | @base n w g hw hg =>
    refine ⟨?_, _, safe_step hw hg⟩
    intro u v _ hu hc hstack _
    have htick : tick u = some { u with
        stack := .guard g (.runStep f) :: .result :: callFrames f n w
        control := .ret (.step (.ok v)), trace := u.trace ++ [.finished f v] } := by
      simp only [tick, hc, State.deliver, hstack]
    exact returns_tick hu htick fun hinv => returns_step hinv rfl
  | bind k _ ih =>
    rcases ih with ⟨hK, hs, hsafe⟩
    exact ⟨.bind fun v => hsafe.sound (k v) _ _ (List.prefix_refl _) hK, hs, hsafe⟩
  | enter before after body _ ih =>
    rcases ih with ⟨hK, hs, hsafe⟩
    exact ⟨hK.enter hsafe (hsafe.sound before) (hsafe.sound after)
      fun _ _ _ hin => hin.sound body, hs, hsafe⟩
  | keep v _ ih => exact ⟨ih.1.keep v, ih.2⟩
  | @wind K ws w kind _ hnew hw hown ih =>
    rcases ih with ⟨hK, hs, hsafe⟩
    refine ⟨?_, hs, hsafe.own hnew hw hown fun before after _ =>
      ⟨hsafe.sound before, hsafe.sound after⟩⟩
    cases kind with
    | param p v => exact hK.exit (.inr ⟨p, v, rfl, hw⟩)
    | thunks g before after =>
      obtain rfl : g = f := hown
      exact hK.after hw (hsafe.sound after)
    | currentFiber | handlers => cases hown
  | guard _ _ ih ihws => exact ⟨ih.1.exit (.inl ⟨_, rfl⟩), _, ihws⟩
  | @jump ws ws' hs k x _ _ hws ih ihk =>
    refine ⟨?_, hs, ih⟩
    have hsrc : Passes outer kinds ws' := by
      rcases hws with rfl | ⟨w, _, _, rfl, _, hsuf⟩
      · exact ih.passes
      · exact ihk.2.suffix hsuf
    intro u v hext hu hc hstack _
    have htick : tick u = some { u with winders := ws', control := .jump k x } := by
      simp only [tick, hc, State.deliver, hstack]
    exact returns_tick hu htick fun hinv => returns_jump ihk.1 ihk.2 hsrc hext hinv rfl
  | value v _ ih =>
    rcases ih with ⟨hK, hs, hsafe⟩
    exact ⟨fun u hext hu hc hws => returns_tick hu (tick_arrive hc hws) fun hinv =>
      hK _ v hext hinv rfl rfl hws, hsafe.passes⟩
  | @caught _ _ _ _ _ test handler e _ _ _ ih ihback =>
    rcases ih with ⟨hK, hs, hsafe⟩
    exact ⟨arrives_caught (fun e => hsafe.sound (handler e) _ _ (List.prefix_refl _) hK)
      hsafe.passes ihback.passes ihback.arrives_again, hsafe.passes⟩
  | failed e back hw => exact ⟨arrives_failed, passes_call hw⟩
  | again e _ ih => exact ⟨ih.arrives_again, ih.passes⟩
  | parked hw => exact ⟨arrives_call, passes_call hw⟩

end

theorem returns_of_inv (hs : Inv outer s) : Returns outer s := by
  have hinv := hs
  cases hs.stage with
  | idle hc => exact returns_idle hc
  | code hc hk =>
    rcases hk.good with ⟨hK, hs', hsafe⟩
    rcases hc with ⟨b, hb⟩ | ⟨v, hv⟩
    · exact hsafe.sound b _ _ (List.prefix_refl _) hK s (List.prefix_refl _) hinv hb rfl rfl
    · exact hK s v (List.prefix_refl _) hinv hv rfl rfl
  | raising hc hws => exact returns_raise hws.good hinv hc
  | jumping hc hws hk =>
    have hsrc : Passes outer s.kinds s.winders := by
      intro w vs g before after kinds' hsuf hkinds hw
      have hlt := hinv.winds.lt w (hsuf.subset List.mem_cons_self)
      rcases hkinds with ⟨rest, rfl⟩
      rw [List.getElem?_append_left hlt] at hw
      rcases hws w vs g before after hsuf hw with ⟨rfl, hs', hplace⟩
      have hsafe : Safe outer s.kinds g vs hs' := hplace.good
      have hmore := hsafe.mono (List.prefix_append s.kinds rest)
      exact ⟨hmore.sound before, hmore.sound after⟩
    exact returns_jump hk.good.1 hk.good.2 hsrc (List.prefix_refl _) hinv hc
  | returning hc hswaps hw =>
    exact returns_jump arrives_call (passes_call hw) (passes_of_swaps hinv.winds.lt hswaps)
      (List.prefix_refl _) hinv hc
  | leaving hc | result hc | back hc | handle hc => exact returns_step hinv hc

/-! ## 2. Isolation -/

/-- The fiber whose code runs. -/
def Control.fiber : Control V → Option FutureId
  | .run f _ => some f
  | .raise f _ => f
  | _ => none

/-- The call whose step the machine has left. -/
def State.departure (s : State V) : Option Nat :=
  match s.control with
  | .jump k _ => ShiftReset.departure k.stack
  | _ => ShiftReset.departure s.stack

/-- What the encoding promises in the state `s`. -/
structure Isolated (outer : Outer V) (s : State V) : Prop where
  /-- Between two steps, every call has returned once, with what its own fiber came to, and the
  cells are those of before. -/
  idle : s.control = .idle → Calls outer.toCells s.calls s.trace ∧ s.cells = outer.toCells
  /-- During a step one call is on; when the code has come to its end, it is on the way back. -/
  call : s.control ≠ .idle → ∃ f n es, InCall outer s f n es ∧ (es = [] ∨ ∃ e x,
    es = [e] ∧ Ends f e x ∧ (s.control = .ret (.step x) ∨ s.departure = some n))
  /-- Code that runs is code of the fiber that this call is for, which is the current one. -/
  fiber : ∀ f, s.control.fiber = some f →
    s.currentFiber.value = some f ∧ ∃ n es, InCall outer s f n es
  returns : Returns outer s

theorem Course.inCall {f : FutureId} {n : Nat} {d : Option Nat} (h : Course outer s f n d) :
    ∃ es, InCall outer s f n es ∧ (es = [] ∨ es = [.parked f] ∧ d = some n) := by
  cases d with
  | none => exact ⟨[], h.2, .inl rfl⟩
  | some m => exact ⟨_, h.2.2, .inr ⟨rfl, congrArg some h.1⟩⟩

theorem isolated_of_course {f : FutureId} {n : Nat} (hne : s.control ≠ .idle)
    (hcourse : Course outer s f n s.departure)
    (hfiber : ∀ g, s.control.fiber = some g → g = f ∧ s.currentFiber.value = some f)
    (hreturns : Returns outer s) : Isolated outer s := by
  rcases hcourse.inCall with ⟨es, hcall, hes⟩
  refine ⟨fun hidle => absurd hidle hne, fun _ => ⟨f, n, es, hcall, hes.imp_right ?_⟩,
    fun g hg => ?_, hreturns⟩
  · exact fun h => ⟨_, _, h.1, .parked, .inr h.2⟩
  · rcases hfiber g hg with ⟨rfl, hcell⟩
    exact ⟨hcell, n, es, hcall⟩

theorem Inv.isolated (hinv : Inv outer s) : Isolated outer s := by
  have hreturns := returns_of_inv hinv
  cases hinv.stage with
  | idle hc hstack hws hmp hcalls =>
    refine ⟨fun _ => ⟨hcalls, hinv.winds.outside hws hmp⟩, fun hne => absurd hc hne, ?_, hreturns⟩
    intro f hf
    rw [hc] at hf
    cases hf
  | @code f n hc hk hcourse =>
    rcases hk.frames_winders with ⟨hs, hws⟩
    have hcell := (hinv.winds.cells hws).1
    rcases hc with ⟨b, hb⟩ | ⟨v, hv⟩
    · refine isolated_of_course (f := f) (n := n) (by simp [hb]) ?_ ?_ hreturns
      · simpa only [State.departure, hb] using hcourse
      · intro g hg
        rw [hb] at hg
        cases hg
        exact ⟨rfl, hcell⟩
    · refine isolated_of_course (f := f) (n := n) (by simp [hv]) ?_ ?_ hreturns
      · simpa only [State.departure, hv] using hcourse
      · intro g hg
        rw [hv] at hg
        cases hg
  | @raising f n e hs hc hws hcourse =>
    refine isolated_of_course (f := f) (n := n) (by simp [hc]) ?_ ?_ hreturns
    · simpa only [State.departure, hc] using hcourse
    · intro g hg
      rw [hc] at hg
      cases hg
      exact ⟨rfl, (hinv.winds.cells hws).1⟩
  | @jumping f n k x hc hws hk hcourse =>
    refine isolated_of_course (f := f) (n := n) (by simp [hc]) ?_ ?_ hreturns
    · simpa only [State.departure, hc] using hcourse
    · intro g hg
      rw [hc] at hg
      cases hg
  | returning hc _ _ _ hcall he =>
    refine ⟨fun hidle => ?_, fun _ => ⟨_, _, _, hcall, .inr ⟨_, _, rfl, he, .inr ?_⟩⟩,
      fun f hf => ?_, hreturns⟩
    · rw [hc] at hidle
      cases hidle
    · simp only [State.departure, hc]
      rfl
    · rw [hc] at hf
      cases hf
  | leaving hc _ _ _ _ hcall he | result hc _ _ _ _ hcall he | back hc _ _ _ hcall he
  | handle hc _ _ _ hcall he =>
    refine ⟨fun hidle => ?_, fun _ => ⟨_, _, _, hcall, .inr ⟨_, _, rfl, he, .inl hc⟩⟩,
      fun f hf => ?_, hreturns⟩
    · rw [hc] at hidle
      cases hidle
    · rw [hc] at hf
      cases hf

/-- **When the encoding isolates fibers.**  In every run in which the thunks of a step that has been
left are contained, and fibers throw to continuations of their own: each call that `run-fiber!` has
made is on, or it has returned exactly once, before the next call, with the token or the pair that
the code of its fiber came to and with both cells as they were before; code runs under its own
`current-fiber`; and the step that is running comes back, unless the code throws for ever. -/
theorem fibers_isolated {as : List (Action V)}
    (hC : (machine outer).Meets Contained (machine outer).init as) :
    (machine outer).Always (Isolated outer) (machine outer).init as :=
  have hinv := hC.always (I := Inv outer) (fun _ _ _ hs hC ht => inv_step hs hC ht) (inv_init outer)
  Machine.Always.mono (fun _ hs => hs.isolated) hinv

/-- A fiber that parks inside a `guard` and a `dynamic-wind`, whose thunk raises and catches on its
own. -/
def guardedBody : Body Nat :=
  .guard (fun _ => true) .ret
    (.dynamicWind (.setParam 0 7 (.ret 0)) (.guard (fun _ => true) .ret (.raise 3) .ret)
      (.park .raise) .ret) .ret

/-- One that looks at the parameter after it has parked. -/
def readingBody : Body Nat := .park fun _ => .getParam 0 .ret

/-- The second fiber is resumed first. -/
def crossedSchedule : List (Action Nat) :=
  .start [0] guardedBody :: List.replicate 22 .tick ++
    .start [1] readingBody :: List.replicate 5 .tick ++
      .resume 1 5 :: List.replicate 15 .tick ++ .resume 0 9 :: List.replicate 37 .tick

def plainOuter : Outer Nat :=
  { metaPrompt := .none, currentFiber := none, handlers := [], params := fun _ => 0
    notProcedure := 99 }

theorem fibers_isolated_crossed :
    ∃ s, (machine plainOuter).run crossedSchedule = some s ∧ Isolated plainOuter s ∧
      s.control = .idle ∧ s.calls = 4 :=
  ⟨_, rfl, (@fibers_isolated _ plainOuter crossedSchedule (by decide +kernel)).last rfl, rfl, rfl⟩

/-- A fiber whose `after` thunk parks: it runs first when the body parks. -/
def leavingBody : Body Nat := .dynamicWind (.ret 0) (.park .ret) (.park .ret) .ret

/-- The meta-prompt is `#f` when the thunk calls it, and again when `run-step` has caught the
exception: that one leaves `run-fiber!`, and the call never returns. -/
theorem after_thunk_parks :
    ∃ s, (machine plainOuter).run (.start [0] leavingBody :: List.replicate 11 .tick) = some s ∧
      (machine plainOuter).Halted s ∧ s.control = .raise none 99 ∧ s.handlers.value = [] ∧
      s.trace = [.called 0 (some [0]) plainOuter.toCells, .parked [0], .parked [0],
        .failed [0] 99] := by
  refine ⟨_, rfl, fun a => ?_, rfl, rfl, rfl⟩
  cases a <;> rfl

end ChezAsync.ShiftReset
