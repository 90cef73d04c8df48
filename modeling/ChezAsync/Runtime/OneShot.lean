import Mathlib.Algebra.GroupWithZero.Nat
import Mathlib.Logic.Function.Basic
import Mathlib.Data.List.Count
import Mathlib.Algebra.BigOperators.Group.List.Basic
import Mathlib.Tactic.Common
import ChezAsync.Lib.Machine
import ChezAsync.Runtime.Task

/-!
# One-shot operations (`runtime.cpp`)

`Dispatch` of the operations that park on no handle, and the callbacks of the requests they start.
The codes that the libuv calls return are arguments of the dispatch: libuv owes one callback to a
request whose call returned 0 or more, and none to another one.
-/

namespace ChezAsync.OneShot

/-! ## 1. Tasks, requests and objects -/

inductive Op
  | timer
  | fsOpen
  | fsRead
  | fsWrite
  | fsClose
  | fsStat
  | fsMkdir
  | fsRmdir
  | fsUnlink
  | fsRename
  | fsRealpath
  | fsScandir
  | tcpConnect
  | tcpListen
  | streamWrite
  | dnsResolve
  | procSpawn
  | procKill
  | fsWatchOpen
  | stdioOpen
  deriving DecidableEq

structure Task where
  id : TaskId
  op : Op
  nbytes : Nat := 0
  stdioMode : Int := 0
  deriving DecidableEq

/-- `uv_handle_type`, as far as `StdioOpen` tells its values apart. -/
inductive HandleType
  | tty
  | namedPipe
  | other
  deriving DecidableEq

/-- The codes of the calls that one dispatch makes.  `uv_timer_init`, `uv_tcp_init`,
`uv_fs_event_init` and the `uv_pipe_init` of a spawn are called for their effect only. -/
structure Uv where
  timerStart : Int := 0
  /-- The `uv_fs_*` call of the operation. -/
  fs : Int := 0
  ip4Addr : Int := 0
  ip6Addr : Int := 0
  tcpConnect : Int := 0
  tcpBind : Int := 0
  listen : Int := 0
  write : Int := 0
  getaddrinfo : Int := 0
  spawn : Int := 0
  processKill : Int := 0
  fsEventStart : Int := 0
  guessHandle : HandleType := .other
  ttyInit : Int := 0
  pipeInit : Int := 0
  pipeOpen : Int := 0

abbrev Address := Nat

def asResult (p : Address) : Int := p

/-- The classes of `net.hpp`. -/
inductive Class
  | stream
  | listener
  | process
  | watcher
  deriving DecidableEq

/-- A request or a timer handle that libuv works on. -/
inductive Request
  | fs (t : Task)
  | timer (t : Task)
  /-- `uv_close` of the timer handle. -/
  | timerClose (t : Task)
  | connect (t : Task) (s : Address)
  | write (t : Task)
  | getaddrinfo (t : Task)
  deriving DecidableEq

def Request.task : Request → Task
  | .fs t | .timer t | .timerClose t | .connect t _ | .write t | .getaddrinfo t => t

/-- `uv_stat_t`: its 64-bit fields in order. -/
abbrev Statbuf := List Nat

/-- The fields of a task that the callbacks fill in. -/
structure Out where
  statbuf : Option Statbuf
  strOut : String
  names : List String

structure State where
  requests : List Request
  /-- The objects allocated, each with the task it was allocated for.  The n-th of them has the
  address n + 1, since 0 is the null pointer. -/
  objects : List (Class × TaskId)
  /-- The calls `Close(nullptr)`. -/
  closed : List Address
  listeners : List Address
  out : TaskId → Out
  completed : Completions
  /-- The tasks dispatched. -/
  tasks : List TaskId

def complete (s : State) (t : Task) (r : Int) : State :=
  { s with completed := s.completed ++ [(t.id, r)] }

def alloc (s : State) (c : Class) (t : Task) : State × Address :=
  ({ s with objects := s.objects ++ [(c, t.id)] }, s.objects.length + 1)

def close (s : State) (p : Address) : State := { s with closed := s.closed ++ [p] }

/-- A call that returned `rc` and, unless that is negative, has started the request. -/
def startReq (s : State) (rc : Int) (q : Request) : State :=
  if rc < 0 then s else { s with requests := s.requests ++ [q] }

/-! ## 2. Dispatch -/

/-- `parse_ip_addr`. -/
def parseIpAddr (uv : Uv) : Int := if uv.ip4Addr < 0 then uv.ip6Addr else uv.ip4Addr

def tcpConnect (s : State) (t : Task) (uv : Uv) : State :=
  let (s, p) := alloc s .stream t
  let r := parseIpAddr uv
  let (s, r) :=
    if r = 0 then (startReq s uv.tcpConnect (.connect t p), uv.tcpConnect) else (s, r)
  if r < 0 then complete (close s p) t r else s

/-- Hand out a new handle, or discard it when setting it up returned a negative code. -/
def conclude (s : State) (t : Task) (p : Address) (r : Int) : State :=
  if r < 0 then complete (close s p) t r else complete s t (asResult p)

/-- Parse, then bind, then listen, up to the first code that is not 0. -/
def listenCode (uv : Uv) : Int :=
  let r := parseIpAddr uv
  let r := if r = 0 then uv.tcpBind else r
  if r = 0 then uv.listen else r

def tcpListen (s : State) (t : Task) (uv : Uv) : State :=
  let (s, p) := alloc s .listener t
  let r := listenCode uv
  -- visible to the signal path only when it is handed out
  let s := if r < 0 then s else { s with listeners := s.listeners ++ [p] }
  conclude s t p r

/-- A start whose failure completes the task. -/
def startOrFail (s : State) (t : Task) (rc : Int) (q : Request) : State :=
  let s := startReq s rc q
  if rc < 0 then complete s t rc else s

def streamWrite (s : State) (t : Task) (uv : Uv) : State := startOrFail s t uv.write (.write t)

def dnsResolve (s : State) (t : Task) (uv : Uv) : State :=
  startOrFail s t uv.getaddrinfo (.getaddrinfo t)

def procSpawn (s : State) (t : Task) (uv : Uv) : State :=
  let (s, p) := alloc s .process t
  let (s, pipes) :=
    if t.stdioMode = 1 then
      let (s, stdin) := alloc s .stream t
      let (s, stdout) := alloc s .stream t
      let (s, stderr) := alloc s .stream t
      (s, [stdin, stdout, stderr])
    else (s, [])
  conclude (if uv.spawn < 0 then pipes.foldl close s else s) t p uv.spawn

def fsWatchOpen (s : State) (t : Task) (uv : Uv) : State :=
  let (s, p) := alloc s .watcher t
  conclude s t p uv.fsEventStart

def stdioCode (uv : Uv) : Int :=
  if uv.guessHandle = .tty then uv.ttyInit
  else if uv.pipeInit = 0 then uv.pipeOpen
  else uv.pipeInit

def stdioOpen (s : State) (t : Task) (uv : Uv) : State :=
  -- a regular file is no uv stream: 0, never a handle, makes the caller fall back to the fd
  if uv.guessHandle ≠ .tty ∧ uv.guessHandle ≠ .namedPipe then complete s t 0
  else
    let (s, p) := alloc s .stream t
    -- `Close` on a handle that was never initialised: the process dies in `uv_close`, before the
    -- task is completed (the machine goes on, the program does not)
    if uv.guessHandle = .tty ∧ uv.ttyInit < 0 then s
    else conclude s t p (stdioCode uv)

/-- `Runtime::Dispatch`, for the operations of this file. -/
def dispatch (s : State) (t : Task) (uv : Uv) : State :=
  match t.op with
  -- the code of the starting call is not looked at
  | .timer => startReq s uv.timerStart (.timer t)
  | .fsOpen | .fsRead | .fsWrite | .fsClose | .fsStat | .fsMkdir | .fsRmdir | .fsUnlink
  | .fsRename | .fsRealpath | .fsScandir => startReq s uv.fs (.fs t)
  | .tcpConnect => tcpConnect s t uv
  | .tcpListen => tcpListen s t uv
  | .streamWrite => streamWrite s t uv
  | .dnsResolve => dnsResolve s t uv
  | .procSpawn => procSpawn s t uv
  | .procKill => complete s t uv.processKill
  | .fsWatchOpen => fsWatchOpen s t uv
  | .stdioOpen => stdioOpen s t uv

/-! ## 3. Callbacks -/

/-- What `uv_fs_t` holds when its callback runs: `result`, `statbuf`, `ptr` and the entries that
`uv_fs_scandir_next` goes through. -/
structure FsReq where
  result : Int
  statbuf : Statbuf := []
  ptr : String := ""
  entries : List String := []

/-- `on_fs_done`. -/
def onFsDone (s : State) (t : Task) (req : FsReq) : State :=
  let o := s.out t.id
  let o :=
    match t.op with
    | .fsStat => if req.result = 0 then { o with statbuf := some req.statbuf } else o
    | .fsRealpath => if req.result = 0 then { o with strOut := req.ptr } else o
    | .fsScandir => if 0 ≤ req.result then { o with names := o.names ++ req.entries } else o
    | _ => o
  complete { s with out := Function.update s.out t.id o } t req.result

/-- `on_timer`. -/
def onTimer (s : State) (t : Task) : State :=
  { s with requests := s.requests ++ [.timerClose t] }

/-- `on_timer_closed`. -/
def onTimerClosed (s : State) (t : Task) : State := complete s t 0

/-- `on_connect`. -/
def onConnect (s : State) (t : Task) (p : Address) (status : Int) : State := conclude s t p status

/-- `on_write`. -/
def onWrite (s : State) (t : Task) (status : Int) : State :=
  complete s t (if status < 0 then status else t.nbytes)

def UV_EAI_NONAME : Int := -3008

inductive Family
  | inet
  | inet6
  | other
  deriving DecidableEq

/-- An entry of the list that the resolver returns; `ip` is its text by `uv_ip4_name` or
`uv_ip6_name`. -/
structure Addrinfo where
  family : Family
  ip : String
  deriving DecidableEq

/-- One round of the loop of `on_getaddrinfo`. -/
def collect (names : List String) (ai : Addrinfo) : List String :=
  if ai.family = .other ∨ ai.ip ∈ names then names else names ++ [ai.ip]

/-- `on_getaddrinfo`. -/
def onGetaddrinfo (s : State) (t : Task) (status : Int) (res : List Addrinfo) : State :=
  let o := s.out t.id
  let (o, status) :=
    if status = 0 then
      let o := { o with names := res.foldl collect o.names }
      match o.names with
      | [] => (o, UV_EAI_NONAME)
      | ip :: _ => ({ o with strOut := ip }, status)
    else (o, status)
  complete { s with out := Function.update s.out t.id o } t status

/-! ## 4. The machine -/

inductive Action
  | dispatch (t : Task) (uv : Uv)
  | onFsDone (t : Task) (req : FsReq)
  | onTimer (t : Task)
  | onTimerClosed (t : Task)
  | onConnect (t : Task) (p : Address) (status : Int)
  | onWrite (t : Task) (status : Int)
  | onGetaddrinfo (t : Task) (status : Int) (res : List Addrinfo)

/-- The callback `f` of the request `q`, which libuv runs once. -/
def answer (s : State) (q : Request) (f : State → State) : Option State :=
  if q ∈ s.requests then some (f { s with requests := s.requests.erase q }) else none

def step (s : State) : Action → Option State
  | .dispatch t uv =>
      if t.id ∉ s.tasks then some { dispatch s t uv with tasks := s.tasks ++ [t.id] } else none
  | .onFsDone t req => answer s (.fs t) (onFsDone · t req)
  | .onTimer t => answer s (.timer t) (onTimer · t)
  | .onTimerClosed t => answer s (.timerClose t) (onTimerClosed · t)
  | .onConnect t p status => answer s (.connect t p) (onConnect · t p status)
  | .onWrite t status => answer s (.write t) (onWrite · t status)
  | .onGetaddrinfo t status res => answer s (.getaddrinfo t) (onGetaddrinfo · t status res)

def machine : Machine State Action where
  init :=
    { requests := [], objects := [], closed := [], listeners := []
      out := fun _ => { statbuf := none, strOut := "", names := [] }
      completed := [], tasks := [] }
  step := step

/-! ## 5. Counting answers -/

/-- The results of a task and the requests that will still give it one. -/
def answers (s : State) (t : TaskId) : Nat :=
  (s.completed.results t).length + s.requests.countP (·.task.id = t)

theorem answers_complete (s : State) (t : Task) (r : Int) (t' : TaskId) :
    answers (complete s t r) t' = answers s t' + if t.id = t' then 1 else 0 := by
  simp only [answers, complete, Completions.results_snoc]
  split
  · rw [List.length_append, List.length_singleton]
    omega
  · omega

theorem answers_startReq (s : State) (rc : Int) (q : Request) (t' : TaskId) :
    answers (startReq s rc q) t' = answers s t' + if 0 ≤ rc ∧ q.task.id = t' then 1 else 0 := by
  unfold startReq
  split
  · rw [if_neg (by omega), Nat.add_zero]
  · have hrc : 0 ≤ rc := by omega
    simp only [answers, List.countP_append, List.countP_singleton, hrc, true_and,
      decide_eq_true_eq, Nat.add_assoc]

/-- Allocating and closing objects answers nobody. -/
@[simp] theorem answers_alloc (s : State) (c : Class) (t : Task) :
    answers (alloc s c t).1 = answers s := rfl

@[simp] theorem answers_close (s : State) (p : Address) : answers (close s p) = answers s := rfl

/-- The condition under which a dispatch has its task answered: a timer or a file system request
has started, a connect has not found an address parser that returns a positive code, and a terminal
could be set up. -/
def Accepted (t : Task) (uv : Uv) : Prop :=
  match t.op with
  | .timer => 0 ≤ uv.timerStart
  | .fsOpen | .fsRead | .fsWrite | .fsClose | .fsStat | .fsMkdir | .fsRmdir | .fsUnlink
  | .fsRename | .fsRealpath | .fsScandir => 0 ≤ uv.fs
  | .tcpConnect => parseIpAddr uv ≤ 0
  | .stdioOpen => ¬ (uv.guessHandle = .tty ∧ uv.ttyInit < 0)
  | _ => True

instance (t : Task) (uv : Uv) : Decidable (Accepted t uv) := by
  unfold Accepted
  split <;> infer_instance

theorem answers_tcpConnect (s : State) (t : Task) (uv : Uv) (t' : TaskId) :
    answers (tcpConnect s t uv) t' =
      answers s t' + if parseIpAddr uv ≤ 0 ∧ t.id = t' then 1 else 0 := by
  unfold tcpConnect
  rcases Int.lt_trichotomy (parseIpAddr uv) 0 with hr | hr | hr
  · have hne : parseIpAddr uv ≠ 0 := by omega
    have hle : parseIpAddr uv ≤ 0 := by omega
    simp [hne, hr, hle, answers_complete]
  · by_cases hc : uv.tcpConnect < 0
    · have hn : ¬ 0 ≤ uv.tcpConnect := by omega
      simp [hr, hc, answers_complete, answers_startReq, hn]
    · have hn : 0 ≤ uv.tcpConnect := by omega
      simp [hr, hc, answers_startReq, hn, Request.task]
  · -- the parser neither failed nor said 0: no connect is tried and nobody completes the task
    have hne : parseIpAddr uv ≠ 0 := by omega
    have hlt : ¬ parseIpAddr uv < 0 := by omega
    have hle : ¬ parseIpAddr uv ≤ 0 := by omega
    simp [hne, hlt, hle]

theorem answers_conclude (s : State) (t : Task) (p : Address) (r : Int) (t' : TaskId) :
    answers (conclude s t p r) t' = answers s t' + if t.id = t' then 1 else 0 := by
  unfold conclude
  split
  · rw [answers_complete, answers_close]
  · exact answers_complete s t _ t'

theorem answers_startOrFail (s : State) (t : Task) (rc : Int) (q : Request) (hq : q.task = t)
    (t' : TaskId) :
    answers (startOrFail s t rc q) t' = answers s t' + if t.id = t' then 1 else 0 := by
  simp only [startOrFail]
  split
  · rw [answers_complete, answers_startReq, if_neg (by omega), Nat.add_zero]
  · have hrc : 0 ≤ rc := by omega
    rw [answers_startReq]
    simp only [hrc, true_and, hq]

theorem answers_tcpListen (s : State) (t : Task) (uv : Uv) (t' : TaskId) :
    answers (tcpListen s t uv) t' = answers s t' + if t.id = t' then 1 else 0 := by
  simp only [tcpListen]
  rw [answers_conclude]
  split <;> rfl

theorem answers_procSpawn (s : State) (t : Task) (uv : Uv) (t' : TaskId) :
    answers (procSpawn s t uv) t' = answers s t' + if t.id = t' then 1 else 0 := by
  simp only [procSpawn]
  rw [answers_conclude]
  congr 1
  by_cases hm : t.stdioMode = 1
  · simp only [hm, if_true]
    split <;> simp
  · simp only [hm, if_false]
    split <;> simp

theorem answers_fsWatchOpen (s : State) (t : Task) (uv : Uv) (t' : TaskId) :
    answers (fsWatchOpen s t uv) t' = answers s t' + if t.id = t' then 1 else 0 :=
  answers_conclude (alloc s .watcher t).1 t _ uv.fsEventStart t'

theorem answers_stdioOpen (s : State) (t : Task) (uv : Uv) (t' : TaskId) :
    answers (stdioOpen s t uv) t' =
      answers s t' + if ¬ (uv.guessHandle = .tty ∧ uv.ttyInit < 0) ∧ t.id = t' then 1 else 0 := by
  simp only [stdioOpen]
  by_cases hdead : uv.guessHandle = .tty ∧ uv.ttyInit < 0
  · have htty : ¬ (uv.guessHandle ≠ .tty ∧ uv.guessHandle ≠ .namedPipe) := fun h => h.1 hdead.1
    rw [if_neg htty, if_pos hdead, if_neg fun h => h.1 hdead, Nat.add_zero, answers_alloc]
  · simp only [hdead, not_false_eq_true, true_and, if_false]
    split
    · exact answers_complete s t 0 t'
    · exact answers_conclude (alloc s .stream t).1 t _ (stdioCode uv) t'

/-- A dispatch answers its task once, now or by the one request it starts, exactly under the
condition, and nobody else. -/
theorem answers_dispatch (s : State) (t : Task) (uv : Uv) (t' : TaskId) :
    answers (dispatch s t uv) t' = answers s t' + if Accepted t uv ∧ t.id = t' then 1 else 0 := by
  rcases ht : t.op <;> simp only [dispatch, Accepted, ht, true_and]
  case timer => exact answers_startReq s uv.timerStart (.timer t) t'
  case tcpConnect => exact answers_tcpConnect s t uv t'
  case tcpListen => exact answers_tcpListen s t uv t'
  case streamWrite => exact answers_startOrFail s t uv.write (.write t) rfl t'
  case dnsResolve => exact answers_startOrFail s t uv.getaddrinfo (.getaddrinfo t) rfl t'
  case procSpawn => exact answers_procSpawn s t uv t'
  case procKill => exact answers_complete s t uv.processKill t'
  case fsWatchOpen => exact answers_fsWatchOpen s t uv t'
  case stdioOpen => exact answers_stdioOpen s t uv t'
  -- the file system operations
  all_goals exact answers_startReq s uv.fs (.fs t) t'

/-- Running the callback of a request takes from its task what the request was worth. -/
theorem answers_erase {s : State} {q : Request} (hq : q ∈ s.requests) (t' : TaskId) :
    answers { s with requests := s.requests.erase q } t' + (if q.task.id = t' then 1 else 0) =
      answers s t' := by
  have hcount := (List.perm_cons_erase hq).countP_eq (fun q => decide (q.task.id = t'))
  rw [List.countP_cons] at hcount
  simp only [answers, hcount, decide_eq_true_eq]
  omega

theorem answers_onGetaddrinfo (s : State) (t : Task) (status : Int) (res : List Addrinfo)
    (t' : TaskId) :
    answers (onGetaddrinfo s t status res) t' = answers s t' + if t.id = t' then 1 else 0 :=
  answers_complete { s with out := _ } t _ t'

/-- A callback that answers the task of its request once, or starts its next request. -/
theorem answers_answer {s u : State} {q : Request} {f : State → State}
    (hf : ∀ v t', answers (f v) t' = answers v t' + if q.task.id = t' then 1 else 0)
    (h : answer s q f = some u) (t' : TaskId) : answers u t' = answers s t' := by
  simp only [answer, Option.ite_none_right_eq_some, Option.some.injEq] at h
  rcases h with ⟨hq, rfl⟩
  rw [hf, answers_erase hq]

/-- The answer that an action brings to a task: a dispatch brings its own task one. -/
def gain : Action → TaskId → Nat
  | .dispatch t uv, t' => if Accepted t uv ∧ t.id = t' then 1 else 0
  | _, _ => 0

theorem answers_step {s u : State} {a : Action} (h : step s a = some u) (t' : TaskId) :
    answers u t' = answers s t' + gain a t' := by
  cases a with
  | dispatch t uv =>
    simp only [step, Option.ite_none_right_eq_some, Option.some.injEq] at h
    rcases h with ⟨-, rfl⟩
    exact answers_dispatch s t uv t'
  | onFsDone t req =>
    apply answers_answer (q := .fs t) (f := (onFsDone · t req)) _ h
    exact fun v => answers_complete { v with out := _ } t req.result
  | onTimer t =>
    apply answers_answer (q := .timer t) (f := (onTimer · t)) _ h
    intro v t'
    show answers (startReq v 0 (.timerClose t)) t' = _
    rw [answers_startReq]
    by_cases heq : t.id = t' <;> simp [Request.task, heq]
  | onTimerClosed t =>
    apply answers_answer (q := .timerClose t) (f := (onTimerClosed · t)) _ h
    exact fun v => answers_complete v t 0
  | onConnect t p status =>
    apply answers_answer (q := .connect t p) (f := (onConnect · t p status)) _ h
    exact fun v => answers_conclude v t p status
  | onWrite t status =>
    apply answers_answer (q := .write t) (f := (onWrite · t status)) _ h
    exact fun v => answers_complete v t _
  | onGetaddrinfo t status res =>
    apply answers_answer (q := .getaddrinfo t) (f := (onGetaddrinfo · t status res)) _ h
    exact fun v => answers_onGetaddrinfo v t status res

/-- A dispatch records its task, which is a new one; a callback records none. -/
theorem tasks_step {s u : State} {a : Action} (h : step s a = some u) :
    (∃ t uv, a = .dispatch t uv ∧ t.id ∉ s.tasks ∧ u.tasks = s.tasks ++ [t.id]) ∨
      (∀ t', gain a t' = 0) ∧ u.tasks = s.tasks := by
  cases a with
  | dispatch t uv =>
    simp only [step, Option.ite_none_right_eq_some, Option.some.injEq] at h
    exact Or.inl ⟨t, uv, rfl, h.1, by rw [← h.2]⟩
  | onFsDone | onTimer | onTimerClosed | onConnect | onWrite | onGetaddrinfo =>
    simp only [step, answer, Option.ite_none_right_eq_some, Option.some.injEq] at h
    refine Or.inr ⟨fun _ => rfl, ?_⟩
    rw [← h.2]
    first
      | rfl
      | (unfold onConnect conclude; split <;> rfl)

/-! ## 6. Answered exactly once -/

/-- Every dispatched task has been completed once and has no request left, or has not been
completed and has one request left. -/
def AnsweredOnce (s : State) : Prop := ∀ t ∈ s.tasks, answers s t = 1

/-- The condition on the steps. -/
def StartAccepted (_ : State) : Action → Prop
  | .dispatch t uv => Accepted t uv
  | _ => True

instance (s : State) (a : Action) : Decidable (StartAccepted s a) := by
  cases a <;> unfold StartAccepted <;> infer_instance

structure Inv (s : State) : Prop where
  once : AnsweredOnce s
  fresh : ∀ t, t ∉ s.tasks → answers s t = 0

theorem inv_init : Inv machine.init := ⟨by simp [AnsweredOnce, machine], fun _ _ => rfl⟩

theorem gain_self {t : Task} {uv : Uv} (h : Accepted t uv) :
    gain (.dispatch t uv) t.id = 1 := if_pos ⟨h, rfl⟩

theorem gain_of_ne {t : Task} {uv : Uv} {t' : TaskId} (h : t.id ≠ t') :
    gain (.dispatch t uv) t' = 0 := if_neg fun hc => h hc.2

theorem inv_step {s u : State} {a : Action} (hs : Inv s) (hC : StartAccepted s a)
    (h : step s a = some u) : Inv u := by
  have hans := answers_step h
  rcases tasks_step h with ⟨t, uv, rfl, ht, htasks⟩ | ⟨hgain, htasks⟩
  · constructor
    · intro t' ht'
      rw [htasks, List.mem_append, List.mem_singleton] at ht'
      rcases ht' with ht' | rfl
      · have hne : t.id ≠ t' := fun heq => ht (heq ▸ ht')
        rw [hans, gain_of_ne hne, hs.once t' ht']
      · rw [hans, gain_self hC, hs.fresh _ ht]
    · intro t' ht'
      rw [htasks, List.mem_append, List.mem_singleton, not_or] at ht'
      rw [hans, gain_of_ne fun heq => ht'.2 heq.symm, hs.fresh t' ht'.1]
  · constructor
    · intro t' ht'
      rw [hans, hgain, hs.once t' (htasks ▸ ht')]
    · intro t' ht'
      rw [hans, hgain, hs.fresh t' (htasks ▸ ht')]

/-- A task that was dispatched, has no result and no request to give it one. -/
def Lost (s : State) (t : TaskId) : Prop := t ∈ s.tasks ∧ answers s t = 0

theorem lost_step {s u : State} {t : TaskId} {a : Action} (hs : Lost s t)
    (h : step s a = some u) : Lost u t := by
  have hans := answers_step h t
  rcases tasks_step h with ⟨t', uv, rfl, ht', htasks⟩ | ⟨hgain, htasks⟩
  · -- no task is dispatched twice
    have hne : t'.id ≠ t := fun heq => ht' (heq ▸ hs.1)
    rw [gain_of_ne hne, hs.2] at hans
    exact ⟨htasks ▸ List.mem_append_left _ hs.1, hans⟩
  · rw [hgain, hs.2] at hans
    exact ⟨htasks ▸ hs.1, hans⟩

theorem lost_of_not_startAccepted {s u : State} {a : Action} (hs : Inv s)
    (hC : ¬ StartAccepted s a) (h : step s a = some u) : ∃ t, Lost u t := by
  cases a with
  | dispatch t uv =>
    have hgain : gain (.dispatch t uv) t.id = 0 := if_neg fun hacc => hC hacc.1
    have hans := answers_step h t.id
    simp only [step, Option.ite_none_right_eq_some, Option.some.injEq] at h
    rcases h with ⟨ht, rfl⟩
    rw [hgain, hs.fresh _ ht] at hans
    exact ⟨t.id, by simp, hans⟩
  | _ => exact absurd trivial hC

/-- Of a task that has no request left the results are all that counts. -/
theorem answers_of_drained {s : State} (h : s.requests = []) (t : TaskId) :
    answers s t = (s.completed.results t).length := by
  simp [answers, h]

/-- **When every one-shot operation is answered once.**  All along a schedule every dispatched task
has been completed once, or has one request left that will complete it, if and only if every timer
and file system call was accepted by libuv, no connect met a parser with a positive code, and every
terminal that was opened could be set up; and of a schedule at whose end libuv owes no callback this
is so if and only if every dispatched task has been completed exactly once. -/
theorem answered_once_iff {as : List Action} {s : State} (hrun : machine.run as = some s) :
    (machine.Always AnsweredOnce machine.init as ↔
        machine.Meets StartAccepted machine.init as) ∧
      (s.requests = [] →
        ((∀ t ∈ s.tasks, ∃ r, s.completed.results t = [r]) ↔
          machine.Meets StartAccepted machine.init as)) := by
  have halways : machine.Always AnsweredOnce machine.init as ↔
      machine.Meets StartAccepted machine.init as := by
    refine Machine.always_iff_meets (I := Inv) (fun _ _ _ hs hC ht => inv_step hs hC ht)
      (fun _ hs => hs.once) ?_ inv_init hrun
    intro s a u hs hC hu honce
    rcases lost_of_not_startAccepted hs hC hu with ⟨t, ht, hzero⟩
    have hone := honce t ht
    omega
  refine ⟨halways, fun hend => ?_⟩
  constructor
  · intro hres
    refine Machine.meets_of_unmarked (I := Inv) (B := fun s => ∃ t, Lost s t)
      (fun _ _ _ hs hC ht => inv_step hs hC ht)
      (fun _ _ _ hs hC ht => lost_of_not_startAccepted hs hC ht)
      (fun _ _ _ hs ht => hs.imp fun _ h => lost_step h ht) inv_init hrun ?_
    intro hlost
    rcases hlost with ⟨t, ht, hzero⟩
    rcases hres t ht with ⟨r, hr⟩
    rw [answers_of_drained hend, hr] at hzero
    cases hzero
  · intro hmeets t ht
    have hone := (halways.mpr hmeets).last hrun t ht
    rw [answers_of_drained hend] at hone
    exact List.length_eq_one_iff.mp hone

/-- A timer, a write that fails at once, a stat and a connect that is refused later. -/
def fourAnswered : List Action :=
  [.dispatch { id := 1, op := .timer } {},
    .dispatch { id := 2, op := .streamWrite } { write := -32 },
    .dispatch { id := 3, op := .fsStat } {},
    .onTimer { id := 1, op := .timer },
    .dispatch { id := 4, op := .tcpConnect } {},
    .onFsDone { id := 3, op := .fsStat } { result := 0 },
    .onTimerClosed { id := 1, op := .timer },
    .onConnect { id := 4, op := .tcpConnect } 1 (-111)]

theorem answered_once_fourAnswered :
    ∃ s, machine.run fourAnswered = some s ∧
      ∀ t ∈ s.tasks, ∃ r, s.completed.results t = [r] :=
  ⟨_, rfl, ((@answered_once_iff fourAnswered _ rfl).2 rfl).mpr (by decide)⟩

/-- `uv_fs_stat` cannot copy the path and returns `UV_ENOMEM`. -/
def statWithoutMemory : List Action := [.dispatch { id := 1, op := .fsStat } { fs := -12 }]

theorem stat_without_memory_unanswered :
    ∃ s, machine.run statWithoutMemory = some s ∧ s.tasks = [1] ∧ s.requests = [] ∧
      s.completed = [] ∧ ¬ AnsweredOnce s :=
  ⟨_, rfl, rfl, rfl, rfl, fun h => absurd (h 1 (by decide)) (by decide)⟩

/-! ## 7. What libuv owes -/

/-- The callbacks that a request still brings about. -/
def Request.rounds : Request → Nat
  | .timer _ => 2
  | _ => 1

def rounds (s : State) : Nat := (s.requests.map Request.rounds).sum

def IsCallback (a : Action) : Prop := ∀ t uv, a ≠ .dispatch t uv

theorem rounds_answer {s u : State} {q : Request} {f : State → State}
    (hf : ∀ v, rounds (f v) + 1 = rounds v + q.rounds) (h : answer s q f = some u) :
    rounds u + 1 = rounds s := by
  simp only [answer, Option.ite_none_right_eq_some, Option.some.injEq] at h
  rcases h with ⟨hq, rfl⟩
  have hsum := List.sum_map_erase Request.rounds hq
  rw [hf, Nat.add_comm]
  exact hsum

theorem rounds_conclude (s : State) (t : Task) (p : Address) (r : Int) :
    rounds (conclude s t p r) = rounds s := by
  unfold conclude
  split <;> rfl

theorem rounds_step {s u : State} {a : Action} (ha : IsCallback a) (h : step s a = some u) :
    rounds u + 1 = rounds s := by
  cases a with
  | dispatch t uv => exact absurd rfl (ha t uv)
  | onFsDone t req =>
    exact rounds_answer (q := .fs t) (f := (onFsDone · t req)) (fun _ => rfl) h
  | onTimer t =>
    apply rounds_answer (q := .timer t) (f := (onTimer · t)) _ h
    intro v
    show ((v.requests ++ [Request.timerClose t]).map Request.rounds).sum + 1 = rounds v + 2
    rw [List.map_append, List.sum_append]
    rfl
  | onTimerClosed t =>
    exact rounds_answer (q := .timerClose t) (f := (onTimerClosed · t)) (fun _ => rfl) h
  | onConnect t p status =>
    apply rounds_answer (q := .connect t p) (f := (onConnect · t p status)) _ h
    exact fun v => congrArg (· + 1) (rounds_conclude v t p status)
  | onWrite t status =>
    exact rounds_answer (q := .write t) (f := (onWrite · t status)) (fun _ => rfl) h
  | onGetaddrinfo t status res =>
    exact rounds_answer (q := .getaddrinfo t) (f := (onGetaddrinfo · t status res))
      (fun _ => rfl) h

/-- A request has a callback that can run. -/
theorem callback_of_request {s : State} {q : Request} (hq : q ∈ s.requests) :
    ∃ a u, IsCallback a ∧ step s a = some u := by
  cases q with
  | fs t => exact ⟨.onFsDone t { result := 0 }, _, by simp [IsCallback], if_pos hq⟩
  | timer t => exact ⟨.onTimer t, _, by simp [IsCallback], if_pos hq⟩
  | timerClose t => exact ⟨.onTimerClosed t, _, by simp [IsCallback], if_pos hq⟩
  | connect t p => exact ⟨.onConnect t p 0, _, by simp [IsCallback], if_pos hq⟩
  | write t => exact ⟨.onWrite t 0, _, by simp [IsCallback], if_pos hq⟩
  | getaddrinfo t => exact ⟨.onGetaddrinfo t 0 [], _, by simp [IsCallback], if_pos hq⟩

/-- Callbacks alone lead from every state to one in which libuv owes nothing. -/
theorem exists_drained (s : State) :
    ∃ as u, (∀ a ∈ as, IsCallback a) ∧ machine.runFrom s as = some u ∧ u.requests = [] := by
  have hwf : WellFounded fun t s => True ∧ ∃ a, IsCallback a ∧ machine.step s a = some t := by
    refine Subrelation.wf ?_ (measure rounds).wf
    intro t s hts
    rcases hts with ⟨-, a, ha, ht⟩
    have hlt := rounds_step ha ht
    show rounds t < rounds s
    omega
  rcases machine.exists_stopped (I := fun _ => True) (A := IsCallback) (fun _ _ _ _ _ _ => trivial)
    hwf (s := s) trivial with ⟨as, u, has, hu, -, hstop⟩
  refine ⟨as, u, has, hu, ?_⟩
  apply List.eq_nil_iff_forall_not_mem.mpr
  intro q hq
  rcases callback_of_request hq with ⟨a, v, ha, hv⟩
  have hnone := hstop a ha
  change step u a = none at hnone
  rw [hv] at hnone
  cases hnone

/-! ## 8. Results are final -/

theorem grows_conclude (s : State) (t : Task) (p : Address) (r : Int) :
    s.completed <+: (conclude s t p r).completed := by
  unfold conclude
  split <;> exact List.prefix_append _ _

theorem completed_startReq (s : State) (rc : Int) (q : Request) :
    (startReq s rc q).completed = s.completed := by
  unfold startReq
  split <;> rfl

theorem grows_startReq (s : State) (rc : Int) (q : Request) :
    s.completed <+: (startReq s rc q).completed := by
  exact ⟨[], by rw [List.append_nil, completed_startReq]⟩

theorem grows_startOrFail (s : State) (t : Task) (rc : Int) (q : Request) :
    s.completed <+: (startOrFail s t rc q).completed := by
  simp only [startOrFail]
  split
  · rw [complete, completed_startReq]
    exact List.prefix_append _ _
  · exact grows_startReq s rc q

theorem grows_dispatch (s : State) (t : Task) (uv : Uv) :
    s.completed <+: (dispatch s t uv).completed := by
  rcases ht : t.op <;> simp only [dispatch, ht]
  case timer => exact grows_startReq s _ _
  case tcpConnect =>
    simp only [tcpConnect]
    by_cases hr : parseIpAddr uv = 0
    · simp only [hr, if_true]
      split
      · rw [complete, close, completed_startReq]
        exact List.prefix_append _ _
      · rw [completed_startReq]
        exact List.prefix_refl _
    · simp only [hr, if_false]
      split
      · exact List.prefix_append _ _
      · exact List.prefix_refl _
  case tcpListen =>
    simp only [tcpListen]
    split
    · exact grows_conclude (alloc s .listener t).1 _ _ _
    · exact grows_conclude { (alloc s .listener t).1 with listeners := _ } _ _ _
  case streamWrite => exact grows_startOrFail s t _ _
  case dnsResolve => exact grows_startOrFail s t _ _
  case procSpawn =>
    simp only [procSpawn]
    refine List.IsPrefix.trans ?_ (grows_conclude _ _ _ _)
    by_cases hm : t.stdioMode = 1
    · simp only [hm, if_true]
      split <;> exact List.prefix_refl _
    · simp only [hm, if_false]
      split <;> exact List.prefix_refl _
  case procKill => exact List.prefix_append _ _
  case fsWatchOpen => exact grows_conclude (alloc s .watcher t).1 _ _ _
  case stdioOpen =>
    simp only [stdioOpen]
    split
    · exact List.prefix_append _ _
    · split
      · exact List.prefix_refl _
      · exact grows_conclude (alloc s .stream t).1 _ _ _
  -- the file system operations
  all_goals exact grows_startReq s _ _

theorem grows_step {s u : State} {a : Action}
    (h : step s a = some u) : s.completed <+: u.completed := by
  cases a with
  | dispatch t uv =>
    simp only [step, Option.ite_none_right_eq_some, Option.some.injEq] at h
    exact h.2 ▸ grows_dispatch s t uv
  | onTimer t =>
    simp only [step, answer, Option.ite_none_right_eq_some,
      Option.some.injEq] at h
    exact h.2 ▸ List.prefix_refl _
  | onConnect t p status =>
    simp only [step, answer, Option.ite_none_right_eq_some,
      Option.some.injEq] at h
    exact h.2 ▸ grows_conclude { s with requests := s.requests.erase (.connect t p) } t p status
  | onFsDone | onTimerClosed | onWrite | onGetaddrinfo =>
    simp only [step, answer, Option.ite_none_right_eq_some,
      Option.some.injEq] at h
    exact h.2 ▸ List.prefix_append _ _

end ChezAsync.OneShot
