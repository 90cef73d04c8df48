import ChezAsync.Lib.Issue
import ChezAsync.HighLevel.Buffer
import ChezAsync.Runtime.OneShot

/-!
# Names and connections (`io-net.ss`)

`io-dns-resolve` and `io-dns-resolve-all` read the task that `on_getaddrinfo` has filled in, and
`io-tcp-connect` tries the addresses of a host one after the other.
-/

namespace ChezAsync.Net

open OneShot (Addrinfo collect onGetaddrinfo UV_EAI_NONAME)
open Buffer (int32)
open Issue.Prog (issue raise ofOption catching)

/-! ## 1. Tasks -/

inductive Request
  | dnsResolve (host service : String) (family : Int)
  | tcpConnect (ip : String) (port : Int)

/-- What the procedures read of a task that has completed. -/
structure Completion where
  result : Int
  names : List String
  strOut : String

/-- What `task-await` comes back with: the completed task, or an exception of the `await-hook`. -/
inductive Awaited (X : Type)
  | done (c : Completion)
  | ioError (who : String) (errno : Int)
  | other (x : X)

inductive Condition (X : Type)
  | ioError (who : String) (errno : Int)
  /-- `(error who message irritant)` -/
  | error (who message irritant : String)
  /-- A foreign procedure refuses an argument. -/
  | refused
  /-- Any other exception of the `await-hook`. -/
  | other (x : X)

/-- `io-error?` -/
def Condition.isIoError {X : Type} : Condition X → Bool
  | .ioError .. => true
  | _ => false

/-- A procedure that submits tasks; `X` is what the `await-hook` may raise besides `&io-error`. -/
abbrev Act (X α : Type) := Issue.Prog Request (Awaited X) (Condition X) α

section
variable {X : Type}

def taskAwait (q : Request) : Act X Completion := do
  match ← issue q with
  | .done c => pure c
  | .ioError who errno => raise (.ioError who errno)
  | .other x => raise (.other x)

def taskRun (who : String) (q : Request) : Act X Int := do
  let c ← taskAwait q
  if c.result < 0 then raise (.ioError who c.result) else pure c.result

def taskRunStr (who : String) (q : Request) : Act X String := do
  let c ← taskAwait q
  if c.result < 0 then raise (.ioError who c.result) else pure c.strOut

/-! ## 2. Resolving names -/

/-- The argument `family`: one of the three symbols, or any other datum, as it is written. -/
inductive FamilyArg
  | any
  | ipv4
  | ipv6
  | bad (datum : String)

/-- `family->int` -/
def familyToInt : FamilyArg → Act X Int
  | .any => pure 0
  | .ipv4 => pure 4
  | .ipv6 => pure 6
  | .bad datum => raise (.error "io-dns-resolve" "bad family (want any/ipv4/ipv6)" datum)

def ioDnsResolve (host : String) (family : FamilyArg) : Act X String := do
  let family ← familyToInt family
  taskRunStr "io-dns-resolve" (.dnsResolve host "" family)

/-- `task-scandir-count` -/
def Completion.scandirCount (c : Completion) : Nat := c.names.length

/-- `task-scandir-name` -/
def Completion.scandirName (c : Completion) (i : Nat) : String := (c.names[i]?).getD ""

/-- The loop of `io-dns-resolve-all`, `k` rounds before its end. -/
def namesLoop (c : Completion) : Nat → Nat → List String → List String
  | 0, _, acc => acc.reverse
  | k + 1, i, acc => namesLoop c k (i + 1) (c.scandirName i :: acc)

def ioDnsResolveAll (host : String) (family : FamilyArg) : Act X (List String) := do
  let family ← familyToInt family
  let c ← taskAwait (.dnsResolve host "" family)
  if c.result < 0 then raise (.ioError "io-dns-resolve-all" c.result)
  else pure (namesLoop c c.scandirCount 0 [])

/-! ## 3. Connecting -/

def tryConnect (ip : String) (port : Int) : Act X Int := do
  let port ← ofOption .refused (int32 port)
  taskRun "io-tcp-connect" (.tcpConnect ip port)

/-- The loop of `io-tcp-connect`.  The last address is tried without a handler. -/
def connectLoop (host : String) (port : Int) : List String → Act X Int
  | [] => raise (.error "io-tcp-connect" "no addresses" host)
  | [ip] => tryConnect ip port
  | ip :: ip' :: ips =>
    catching (tryConnect ip port) fun e =>
      if e.isIoError then some (connectLoop host port (ip' :: ips)) else none

def ioTcpConnect (host : String) (port : Int) : Act X Int := do
  let ips ← ioDnsResolveAll host .any
  connectLoop host port ips

end

/-! ## 4. The addresses of a list -/

/-- The texts of the IPv4 and IPv6 entries, each where it comes first. -/
def addresses (res : List Addrinfo) : List String :=
  ((res.filter fun ai => ai.family ≠ .other).map (·.ip)).eraseDups

/-- The loop of `on_getaddrinfo` adds to `names` what is not in it yet. -/
theorem foldl_collect (res : List Addrinfo) (names : List String) :
    res.foldl collect names = names ++
      (((res.filter fun ai => ai.family ≠ .other).map (·.ip)).filter (· ∉ names)).eraseDups := by
  induction res generalizing names with
  | nil => exact (List.append_nil names).symm
  | cons ai res ih =>
    rw [List.foldl_cons, ih]
    by_cases hother : ai.family = .other
    · rw [collect, if_pos (.inl hother), List.filter_cons_of_neg (by simp [hother])]
    · rw [List.filter_cons_of_pos (by simp [hother]), List.map_cons]
      by_cases hmem : ai.ip ∈ names
      · rw [collect, if_pos (.inr hmem), List.filter_cons_of_neg (by simp [hmem])]
      · -- a new address: the rest of the list is searched for others
        rw [collect, if_neg (not_or.mpr ⟨hother, hmem⟩), List.filter_cons_of_pos (by simp [hmem]),
          List.eraseDups_cons, List.filter_filter, List.append_assoc, List.singleton_append]
        congr 4
        funext ip
        simp only [List.mem_append, List.mem_singleton, not_or, decide_not, Bool.decide_and]
        rw [Bool.and_comm]
        rfl

-- The loop of `on_getaddrinfo` comes to the addresses, each once.
theorem foldl_collect_nil (res : List Addrinfo) : res.foldl collect [] = addresses res := by
  rw [foldl_collect, List.nil_append, addresses]
  congr 1
  exact List.filter_eq_self.mpr fun ip _ => by simp

theorem nodup_collect (res : List Addrinfo) {names : List String} (h : names.Nodup) :
    (res.foldl collect names).Nodup := by
  induction res generalizing names with
  | nil => exact h
  | cons ai res ih =>
    refine ih ?_
    unfold collect
    split
    · exact h
    case isFalse hnew =>
      refine List.nodup_append.mpr ⟨h, List.pairwise_singleton _ _, ?_⟩
      intro a ha b hb heq
      rw [List.mem_singleton.mp hb] at heq
      exact hnew (.inr (heq ▸ ha))

theorem nodup_addresses (res : List Addrinfo) : (addresses res).Nodup := by
  rw [← foldl_collect_nil]
  exact nodup_collect res List.nodup_nil

/-- Nothing has been filled in, and there is no result. -/
structure Fresh (s : OneShot.State) (t : OneShot.Task) : Prop where
  names : (s.out t.id).names = []
  results : s.completed.results t.id = []

/-- `t` has completed, and `c` is what the procedures read of it. -/
structure Holds (s : OneShot.State) (t : OneShot.Task) (c : Completion) : Prop where
  result : s.completed.results t.id = [c.result]
  names : (s.out t.id).names = c.names
  strOut : (s.out t.id).strOut = c.strOut

section
variable {s : OneShot.State} {t : OneShot.Task} {status : Int} {res : List Addrinfo}
  {c : Completion}

-- A new task has no result before this one.
theorem results_complete (hfresh : Fresh s t) (r : Int) (o : TaskId → OneShot.Out) :
    (OneShot.complete { s with out := o } t r).completed.results t.id = [r] :=
  Completions.results_snoc_self hfresh.results r

/-- The list has addresses: the task holds all of them, and the first. -/
theorem holds_found {ip : String} {ips : List String} (hfresh : Fresh s t)
    (hc : Holds (onGetaddrinfo s t 0 res) t c) (hres : addresses res = ip :: ips) :
    c.result = 0 ∧ c.names = addresses res ∧ c.strOut = ip := by
  have hcollect : res.foldl collect (s.out t.id).names = ip :: ips := by
    rw [hfresh.names, foldl_collect_nil, hres]
  have hgo : onGetaddrinfo s t 0 res = OneShot.complete { s with
      out := Function.update s.out t.id
        { s.out t.id with names := ip :: ips, strOut := ip } } t 0 := by
    simp only [onGetaddrinfo, if_true, hcollect]
  rw [hgo] at hc
  have hout : (Function.update s.out t.id
      { s.out t.id with names := ip :: ips, strOut := ip }) t.id =
        { s.out t.id with names := ip :: ips, strOut := ip } := Function.update_self ..
  refine ⟨?_, ?_, ?_⟩
  · exact (List.singleton_inj.mp ((results_complete hfresh 0 _).symm.trans hc.result)).symm
  · rw [hres, ← hc.names]
    exact congrArg OneShot.Out.names hout
  · rw [← hc.strOut]
    exact congrArg OneShot.Out.strOut hout

/-- The resolver fails, or its list has no address. -/
theorem holds_failed (hfresh : Fresh s t) (hstatus : status ≤ 0)
    (hc : Holds (onGetaddrinfo s t status res) t c) (hnone : status = 0 → addresses res = []) :
    c.result = (if status = 0 then UV_EAI_NONAME else status) ∧ c.result < 0 := by
  have hresult : c.result = if status = 0 then UV_EAI_NONAME else status := by
    by_cases hzero : status = 0
    · have hcollect : res.foldl collect (s.out t.id).names = [] := by
        rw [hfresh.names, foldl_collect_nil, hnone hzero]
      have hgo := hc.result
      simp only [onGetaddrinfo, if_pos hzero, hcollect] at hgo
      rw [if_pos hzero]
      exact (List.singleton_inj.mp ((results_complete hfresh _ _).symm.trans hgo)).symm
    · have hgo := hc.result
      simp only [onGetaddrinfo, if_neg hzero] at hgo
      rw [if_neg hzero]
      exact (List.singleton_inj.mp ((results_complete hfresh _ _).symm.trans hgo)).symm
  refine ⟨hresult, ?_⟩
  rw [hresult]
  split
  · decide
  · omega

end

/-! ## 5. The procedures -/

section
variable {X : Type}

/-- What `task-run` makes of what `task-await` comes back with. -/
def Awaited.value (who : String) : Awaited X → Except (Condition X) Int
  | .done c => if c.result < 0 then .error (.ioError who c.result) else .ok c.result
  | .ioError who errno => .error (.ioError who errno)
  | .other x => .error (.other x)

/-- A try that ends with an `&io-error`. -/
def Awaited.Fails (a : Awaited X) : Prop :=
  ∃ who errno, a.value "io-tcp-connect" = .error (.ioError who errno)

-- An await does not raise the error of the empty list.
theorem Awaited.value_ne_error (a : Awaited X) (who w m i : String) :
    a.value who ≠ .error (.error w m i) := by
  intro h
  cases a with
  | done c =>
    rw [value] at h
    split at h <;> cases h
  | ioError who errno => cases h
  | other x => cases h

-- A task takes one answer.
theorem taskRun_cons (who : String) (q : Request) (a : Awaited X) (as : List (Awaited X)) :
    taskRun who q (a :: as) =
      { trace := [(q, a)], outcome := some (a.value who), rest := as } := by
  cases a with
  | done c =>
    have hawait : taskAwait q (.done c :: as) =
        { trace := [(q, Awaited.done c)], outcome := some (.ok c), rest := as } :=
      Issue.Prog.issue_bind_cons q _ _ as
    rw [taskRun, Issue.Prog.bind_ok hawait, Awaited.value]
    split <;> rfl
  | ioError who errno => exact Issue.Prog.bind_error (Issue.Prog.issue_bind_cons q _ _ as)
  | other x => exact Issue.Prog.bind_error (Issue.Prog.issue_bind_cons q _ _ as)

theorem tryConnect_eq (ip : String) {port p : Int} (hport : int32 port = some p) :
    (tryConnect ip port : Act X Int) = taskRun "io-tcp-connect" (.tcpConnect ip p) := by
  rw [tryConnect, hport]
  rfl

-- A port out of range raises before anything is submitted.
theorem tryConnect_refused (ip : String) {port : Int} (hport : int32 port = none)
    (as : List (Awaited X)) :
    tryConnect ip port as = { trace := [], outcome := some (.error .refused), rest := as } := by
  rw [tryConnect, hport]
  rfl

/-- **The loop of `io-tcp-connect`.**  It tries the addresses in order, up to the first whose try
does not end with an `&io-error` or to the last one, and ends as that try does. -/
theorem connectLoop_eq (host : String) {port p : Int} (hport : int32 port = some p)
    (out : String → Awaited X) (as : List (Awaited X)) {ips : List String} (hips : ips ≠ []) :
    ∃ pre ip post, ips = pre ++ ip :: post ∧ (∀ a ∈ pre, (out a).Fails) ∧
      (post = [] ∨ ¬ (out ip).Fails) ∧
      connectLoop host port ips (ips.map out ++ as) =
        { trace := (pre ++ [ip]).map fun a => (.tcpConnect a p, out a)
          outcome := some ((out ip).value "io-tcp-connect")
          rest := post.map out ++ as } := by
  match ips with
  | [] => exact absurd rfl hips
  | [ip] =>
    refine ⟨[], ip, [], rfl, fun a ha => absurd ha List.not_mem_nil, .inl rfl, ?_⟩
    rw [connectLoop, tryConnect_eq ip hport]
    exact taskRun_cons _ _ (out ip) as
  | ip :: ip' :: ips =>
    have hfirst : tryConnect ip port ((ip :: ip' :: ips).map out ++ as) =
        { trace := [(Request.tcpConnect ip p, out ip)]
          outcome := some ((out ip).value "io-tcp-connect")
          rest := (ip' :: ips).map out ++ as } := by
      rw [tryConnect_eq ip hport]
      exact taskRun_cons _ _ (out ip) _
    by_cases hfails : (out ip).Fails
    · -- the handler goes on with the rest of the list
      obtain ⟨pre, ip'', post, heq, hpre, hstop, hrun⟩ :=
        connectLoop_eq host hport out as (List.cons_ne_nil ip' ips)
      refine ⟨ip :: pre, ip'', post, by rw [heq]; rfl, ?_, hstop, ?_⟩
      · intro a ha
        rcases List.mem_cons.mp ha with rfl | ha
        · exact hfails
        · exact hpre a ha
      · obtain ⟨who, errno, hvalue⟩ := hfails
        rw [hvalue] at hfirst
        rw [connectLoop, Issue.Prog.catching_caught hfirst rfl, hrun]
        rfl
    · refine ⟨[], ip, ip' :: ips, rfl, fun a ha => absurd ha List.not_mem_nil, .inr hfails, ?_⟩
      rw [connectLoop]
      rcases hvalue : (out ip).value "io-tcp-connect" with e | h
      · rw [hvalue] at hfirst
        have hpass : e.isIoError = false := by
          cases e with
          | ioError who errno => exact absurd ⟨who, errno, hvalue⟩ hfails
          | error | refused | other => rfl
        exact Issue.Prog.catching_passed hfirst (by rw [hpass]; rfl)
      · rw [hvalue] at hfirst
        exact Issue.Prog.catching_ok hfirst

-- Then the first address ends the loop: this is no `&io-error`.
theorem connectLoop_refused (host : String) {port : Int} (hport : int32 port = none)
    (as : List (Awaited X)) {ips : List String} (hips : ips ≠ []) :
    connectLoop host port ips as =
      { trace := [], outcome := some (.error .refused), rest := as } := by
  match ips with
  | [] => exact absurd rfl hips
  | [ip] => exact tryConnect_refused ip hport as
  | ip :: ip' :: ips => exact Issue.Prog.catching_passed (tryConnect_refused ip hport as) rfl

/-- Whatever the tries come back with, the loop does not come to the end of the list. -/
theorem connectLoop_ne_error (host : String) (port : Int) {w m i : String}
    (as : List (Awaited X)) {ips : List String} (hips : ips ≠ []) :
    (connectLoop host port ips as).outcome ≠ some (.error (.error w m i)) := by
  rcases hport : int32 port with _ | p
  · rw [connectLoop_refused host hport as hips]
    exact fun h => by cases h
  have htry : ∀ ip (as : List (Awaited X)),
      tryConnect ip port as = taskRun "io-tcp-connect" (.tcpConnect ip p) as :=
    fun ip as => by rw [tryConnect_eq ip hport]
  match ips, as with
  | [], _ => exact absurd rfl hips
  | [ip], [] =>
    rw [connectLoop, htry]
    exact fun h => by cases h
  | [ip], a :: as =>
    rw [connectLoop, htry, taskRun_cons]
    exact fun h => a.value_ne_error _ w m i (Option.some.inj h)
  | ip :: ip' :: ips, [] =>
    rw [connectLoop, Issue.Prog.catching_none (htry ip [])]
    exact fun h => by cases h
  | ip :: ip' :: ips, a :: as =>
    have hfirst := (htry ip (a :: as)).trans (taskRun_cons _ _ a as)
    rw [connectLoop]
    rcases hvalue : a.value "io-tcp-connect" with e | h
    · rw [hvalue] at hfirst
      by_cases hio : e.isIoError
      · rw [Issue.Prog.catching_caught hfirst (if_pos hio)]
        exact connectLoop_ne_error host port as (List.cons_ne_nil ip' ips)
      · rw [Issue.Prog.catching_passed hfirst (if_neg hio)]
        intro h
        have heq := Except.error.inj (Option.some.inj h)
        exact a.value_ne_error _ w m i (heq ▸ hvalue)
    · rw [hvalue] at hfirst
      rw [Issue.Prog.catching_ok hfirst]
      exact fun h => by cases h

/-- The loop over the names of a task gathers all of them. -/
theorem namesLoop_eq (c : Completion) (k i : Nat) (acc : List String)
    (h : i + k = c.names.length) : namesLoop c k i acc = acc.reverse ++ c.names.drop i := by
  induction k generalizing i acc with
  | zero => rw [namesLoop, List.drop_of_length_le (by omega), List.append_nil]
  | succ k ih =>
    have hlt : i < c.names.length := by omega
    have hname : c.scandirName i = c.names[i] := by
      rw [Completion.scandirName, List.getElem?_eq_getElem hlt, Option.getD_some]
    rw [namesLoop, ih (i + 1) _ (by omega), List.reverse_cons, List.append_assoc, hname,
      List.singleton_append, List.drop_eq_getElem_cons hlt]

/-- The numbers that `family->int` maps the three symbols to. -/
def FamilyArg.code : FamilyArg → Option Int
  | .any => some 0
  | .ipv4 => some 4
  | .ipv6 => some 6
  | .bad _ => none

-- The symbols and numbers that `family->int` knows.
theorem familyToInt_eq {family : FamilyArg} {f : Int} (h : family.code = some f) :
    (familyToInt family : Act X Int) = pure f := by
  cases family <;> cases h <;> rfl

theorem ioDnsResolveAll_cons {family : FamilyArg} {f : Int} (hfamily : family.code = some f)
    (host : String) (c : Completion) (as : List (Awaited X)) :
    ioDnsResolveAll host family (.done c :: as) =
      { trace := [(.dnsResolve host "" f, .done c)]
        outcome := some (if c.result < 0 then .error (.ioError "io-dns-resolve-all" c.result)
          else .ok c.names)
        rest := as } := by
  have hawait : taskAwait (.dnsResolve host "" f) (.done c :: as) =
      { trace := [(Request.dnsResolve host "" f, Awaited.done c)]
        outcome := some (.ok c), rest := as } := Issue.Prog.issue_bind_cons _ _ _ as
  have hnames : namesLoop c c.scandirCount 0 [] = c.names :=
    namesLoop_eq c c.names.length 0 [] (Nat.zero_add _)
  rw [ioDnsResolveAll, familyToInt_eq hfamily]
  refine (Issue.Prog.bind_ok (p := pure f) rfl).trans ?_
  rw [Issue.Prog.bind_ok hawait, hnames]
  split <;> rfl

theorem ioDnsResolve_cons {family : FamilyArg} {f : Int} (hfamily : family.code = some f)
    (host : String) (c : Completion) (as : List (Awaited X)) :
    (ioDnsResolve host family (.done c :: as)).outcome =
      some (if c.result < 0 then .error (.ioError "io-dns-resolve" c.result)
        else .ok c.strOut) := by
  have hawait : taskAwait (.dnsResolve host "" f) (.done c :: as) =
      { trace := [(Request.dnsResolve host "" f, Awaited.done c)]
        outcome := some (.ok c), rest := as } := Issue.Prog.issue_bind_cons _ _ _ as
  rw [ioDnsResolve, familyToInt_eq hfamily]
  refine (congrArg _ (Issue.Prog.bind_ok (p := pure f) rfl)).trans ?_
  show (taskRunStr "io-dns-resolve" (.dnsResolve host "" f) (.done c :: as)).outcome = _
  rw [taskRunStr, Issue.Prog.bind_ok hawait]
  split <;> rfl

end

/-! ## 6. Names and connections together -/

section
variable (X : Type)

/-- A resolved task whose addresses are `ips`: what the three procedures make of it. -/
structure Resolved (c : Completion) (ips : List String) : Prop where
  resolveAll : ∀ host (family : FamilyArg) (as : List (Awaited X)), family.code.isSome →
    (ioDnsResolveAll host family (.done c :: as)).outcome = some (.ok ips)
  resolve : ∀ host (family : FamilyArg) (as : List (Awaited X)), family.code.isSome →
    ∃ ip, ips.head? = some ip ∧
      (ioDnsResolve host family (.done c :: as)).outcome = some (.ok ip)
  connect : ∀ host port p, int32 port = some p →
    ∀ (out : String → Awaited X) (as : List (Awaited X)), ∃ pre ip post,
      ips = pre ++ ip :: post ∧ (∀ a ∈ pre, (out a).Fails) ∧ (post = [] ∨ ¬ (out ip).Fails) ∧
      ioTcpConnect host port (.done c :: (ips.map out ++ as)) =
        { trace := (.dnsResolve host "" 0, .done c) ::
            (pre ++ [ip]).map fun a => (.tcpConnect a p, out a)
          outcome := some ((out ip).value "io-tcp-connect")
          rest := post.map out ++ as }
  -- a port that is no `int` is refused at the first try
  refused : ∀ host port, int32 port = none → ∀ as : List (Awaited X),
    ioTcpConnect host port (.done c :: as) =
      { trace := [(.dnsResolve host "" 0, .done c)]
        outcome := some (.error .refused), rest := as }

/-- A task without an address: the three procedures raise its error, and no try is made. -/
structure Unresolved (c : Completion) (errno : Int) : Prop where
  resolveAll : ∀ host (family : FamilyArg) (as : List (Awaited X)), family.code.isSome →
    (ioDnsResolveAll host family (.done c :: as)).outcome =
      some (.error (.ioError "io-dns-resolve-all" errno))
  resolve : ∀ host (family : FamilyArg) (as : List (Awaited X)), family.code.isSome →
    (ioDnsResolve host family (.done c :: as)).outcome =
      some (.error (.ioError "io-dns-resolve" errno))
  connect : ∀ host port (as : List (Awaited X)), ioTcpConnect host port (.done c :: as) =
    { trace := [(.dnsResolve host "" 0, .done c)]
      outcome := some (.error (.ioError "io-dns-resolve-all" errno)), rest := as }

variable {X}

-- The task holds the addresses: what the three procedures make of them.
theorem resolved_of_holds {c : Completion} {ip : String} {ips : List String} (hzero : c.result = 0)
    (hnames : c.names = ip :: ips) (hstr : c.strOut = ip) : Resolved X c (ip :: ips) := by
  have hpos : ¬ c.result < 0 := by omega
  have hall : ∀ host (as : List (Awaited X)), ioDnsResolveAll host .any (.done c :: as) =
      { trace := [(.dnsResolve host "" 0, .done c)]
        outcome := some (.ok (ip :: ips)), rest := as } := by
    intro host as
    rw [ioDnsResolveAll_cons rfl, if_neg hpos, hnames]
  refine ⟨fun host family as hfamily => ?_, fun host family as hfamily => ?_, ?_, ?_⟩
  · obtain ⟨f, hf⟩ := Option.isSome_iff_exists.mp hfamily
    rw [ioDnsResolveAll_cons hf, if_neg hpos, hnames]
  · obtain ⟨f, hf⟩ := Option.isSome_iff_exists.mp hfamily
    exact ⟨ip, rfl, by rw [ioDnsResolve_cons hf, if_neg hpos, hstr]⟩
  · intro host port p hport out as
    obtain ⟨pre, ip', post, heq, hpre, hstop, hrun⟩ :=
      connectLoop_eq host hport out as (List.cons_ne_nil ip ips)
    refine ⟨pre, ip', post, heq, hpre, hstop, ?_⟩
    rw [ioTcpConnect, Issue.Prog.bind_eq (hall host _) hrun]
    rfl
  · intro host port hport as
    rw [ioTcpConnect, Issue.Prog.bind_eq (hall host as)
      (connectLoop_refused host hport as (List.cons_ne_nil ip ips))]
    rfl

-- A negative result is raised by all three before the first connect.
theorem unresolved_of_result {c : Completion} (hneg : c.result < 0) : Unresolved X c c.result := by
  refine ⟨fun host family as hfamily => ?_, fun host family as hfamily => ?_, ?_⟩
  · obtain ⟨f, hf⟩ := Option.isSome_iff_exists.mp hfamily
    rw [ioDnsResolveAll_cons hf, if_pos hneg]
  · obtain ⟨f, hf⟩ := Option.isSome_iff_exists.mp hfamily
    rw [ioDnsResolve_cons hf, if_pos hneg]
  · intro host port as
    have hall := @ioDnsResolveAll_cons X .any 0 rfl host c as
    rw [if_pos hneg] at hall
    rw [ioTcpConnect, Issue.Prog.bind_error hall]

/-- An exception of the `await-hook` while the name is resolved goes through. -/
theorem ioDnsResolveAll_raised (host : String) {a : Awaited X} (as : List (Awaited X))
    (ha : ∀ c, a ≠ .done c) :
    ∃ e, (∀ w m i, e ≠ .error w m i) ∧ ioDnsResolveAll host .any (a :: as) =
      { trace := [(.dnsResolve host "" 0, a)], outcome := some (.error e), rest := as } := by
  cases a with
  | done c => exact absurd rfl (ha c)
  | ioError who errno => exact ⟨.ioError who errno, fun _ _ _ h => (by cases h), rfl⟩
  | other x => exact ⟨.other x, fun _ _ _ h => (by cases h), rfl⟩

/-- **Names and connections.**  `on_getaddrinfo` has been called for a new task with `status` and
the list `res`.  The procedures see the addresses of the list, each once and in their order, and
`io-tcp-connect` tries them one by one; without an address they raise the task's error, and the
branch for an empty list is never taken. -/
theorem resolve_and_connect {s : OneShot.State} {t : OneShot.Task} {status : Int}
    {res : List Addrinfo} {c : Completion} (hfresh : Fresh s t) (hstatus : status ≤ 0)
    (hc : Holds (onGetaddrinfo s t status res) t c) :
    (addresses res).Nodup ∧
      (status = 0 ∧ addresses res ≠ [] → Resolved X c (addresses res)) ∧
      (¬ (status = 0 ∧ addresses res ≠ []) →
        Unresolved X c (if status = 0 then UV_EAI_NONAME else status)) ∧
      ∀ host port (a : Awaited X) as, (∀ c', a = .done c' → c' = c) →
        (ioTcpConnect host port (a :: as)).outcome ≠
          some (.error (.error "io-tcp-connect" "no addresses" host)) := by
  have hfound : status = 0 ∧ addresses res ≠ [] → Resolved X c (addresses res) := by
    rintro ⟨rfl, hne⟩
    obtain ⟨ip, ips, hres⟩ := List.exists_cons_of_ne_nil hne
    obtain ⟨hzero, hnames, hstr⟩ := holds_found hfresh hc hres
    rw [hres] at hnames ⊢
    exact resolved_of_holds hzero hnames hstr
  have hfailed : ¬ (status = 0 ∧ addresses res ≠ []) →
      Unresolved X c (if status = 0 then UV_EAI_NONAME else status) := by
    intro hnone
    obtain ⟨hresult, hneg⟩ := holds_failed hfresh hstatus hc fun hzero =>
      not_not.mp fun hne => hnone ⟨hzero, hne⟩
    rw [← hresult]
    exact unresolved_of_result hneg
  refine ⟨nodup_addresses res, hfound, hfailed, fun host port a as ha => ?_⟩
  by_cases hdone : ∃ c', a = .done c'
  · obtain ⟨c', rfl⟩ := hdone
    rw [ha c' rfl]
    by_cases hres : status = 0 ∧ addresses res ≠ []
    · obtain ⟨rfl, hne⟩ := hres
      obtain ⟨ip, ips, heq⟩ := List.exists_cons_of_ne_nil hne
      obtain ⟨hzero, hnames, -⟩ := holds_found hfresh hc heq
      have hall := @ioDnsResolveAll_cons X .any 0 rfl host c as
      rw [if_neg (by omega), hnames] at hall
      rw [ioTcpConnect, Issue.Prog.bind_ok hall]
      exact connectLoop_ne_error host port as hne
    · rw [(hfailed hres).connect host port as]
      exact fun h => by cases h
  · obtain ⟨e, hne, hall⟩ := ioDnsResolveAll_raised host as fun c' h => hdone ⟨c', h⟩
    rw [ioTcpConnect, Issue.Prog.bind_error hall]
    exact fun h => hne _ _ _ (Except.error.inj (Option.some.inj h))

end

/-- A host with an IPv6 and an IPv4 address, the first of them twice in the list. -/
def localhost : List Addrinfo :=
  [⟨.inet6, "::1"⟩, ⟨.inet, "127.0.0.1"⟩, ⟨.other, ""⟩, ⟨.inet6, "::1"⟩]

theorem resolve_and_connect_localhost :
    addresses localhost = ["::1", "127.0.0.1"] ∧
      Resolved String ⟨0, ["::1", "127.0.0.1"], "::1"⟩ (addresses localhost) :=
  ⟨by decide,
    (@resolve_and_connect String OneShot.machine.init { id := 1, op := .dnsResolve } 0 localhost
      ⟨0, ["::1", "127.0.0.1"], "::1"⟩ ⟨rfl, rfl⟩ (Int.le_refl 0)
      ⟨by decide, by decide, by decide⟩).2.1 ⟨rfl, by decide⟩⟩

end ChezAsync.Net
