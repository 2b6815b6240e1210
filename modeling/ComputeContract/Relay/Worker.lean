import Mathlib.Data.Nat.Notation
import Mathlib.Data.List.Basic
import Mathlib.Logic.Function.Basic
import ComputeContract.Lib.Along

/-!
# The relay worker

The relay of the browser: a SharedWorker that keeps one socket to the dispatcher for all the
tabs. To open it, it needs two tokens, for which it asks a tab that is signed in (a *host*);
when the socket closes, or the registration fails, it tries again after a while.

The messages of the tabs, the answers of the host, the timers and what happens to the sockets
come in any order (`Event`); `doConnect` is cut at its awaits.

* `Sound`: what is said about a step;
* `Inv`: what holds in between;
* `reconnects_of_careful`: the runs in which it holds: nothing is left of the last connection when
  the next one is started, no attempt is under way when the worker is stopped, and the host
  gives the second token.
-/

namespace ComputeContract.RelayWorker

/-! ## The worker -/

inductive Status
  | disconnected
  | connecting
  | connected
  deriving DecidableEq

/-- What the tabs are told. -/
structure Published where
  status : Status
  subdomain : Option String
  proxyRef : Option String
  deriving DecidableEq

/-- Where a `doConnect` waits; it is named after its first call to the host. -/
inductive Attempt
  /-- For the token of the nonce. -/
  | nonceAuth (id : ℕ)
  /-- For the nonce, and its signature. -/
  | nonce (id : ℕ)
  /-- For the token of the subscription. -/
  | subscribeAuth (id : ℕ)
  deriving DecidableEq

inductive ReadyState
  | connecting
  | open
  | closing
  | closed
  deriving DecidableEq

def ReadyState.live : ReadyState → Bool
  | .connecting => true
  | .open => true
  | _ => false

/-- `close` of a socket. -/
def ReadyState.close : ReadyState → ReadyState
  | .closed => .closed
  | _ => .closing

structure State where
  keypair : Bool
  /-- The imports of the keypair that are under way. -/
  imports : ℕ
  stopped : Bool
  published : Published
  minterPorts : List ℕ
  oauthSeq : ℕ
  attempts : List Attempt
  /-- The timers that will call `doConnect`, with their delays. -/
  timers : List ℕ
  ws : Option ℕ
  /-- How many sockets there were so far. -/
  sockets : ℕ
  socket : ℕ → ReadyState
  reconnectDelay : ℕ

def State.start : State :=
  ⟨false, 0, false, ⟨.disconnected, none, none⟩, [], 0, [], [], none, 0, fun _ => .closed, 1000⟩

variable {s : State}

def setStatus (status : Status) (s : State) : State :=
  { s with published := { s.published with status := status } }

def doConnect (s : State) : State :=
  if s.stopped then s
  else if !s.keypair then { s with timers := s.timers ++ [200] }
  else if s.minterPorts = [] then setStatus .disconnected s
  else
    { s with
      oauthSeq := s.oauthSeq + 1
      attempts := .nonceAuth (s.oauthSeq + 1) :: s.attempts }

theorem doConnect_of_no_host (hrun : s.stopped = false) (hkeypair : s.keypair)
    (hhost : s.minterPorts = []) : doConnect s = setStatus .disconnected s := by
  rw [doConnect, hrun, hkeypair, if_neg Bool.false_ne_true, if_neg (by decide), if_pos hhost]

/-- The registration failed. -/
def fail (s : State) : State :=
  let s := setStatus .disconnected s
  if s.stopped then s else { s with timers := s.timers ++ [5000] }

theorem fail_attempts (s : State) : (fail s).attempts = s.attempts := by
  rw [fail]
  split <;> rfl

def openSocket (s : State) : State :=
  { s with
    ws := some s.sockets
    sockets := s.sockets + 1
    socket := Function.update s.socket s.sockets .connecting }

/-- The answer to a call that is pending. The second call is not caught. -/
def settle (id : ℕ) (ok : Bool) (s : State) : State :=
  if .nonceAuth id ∈ s.attempts then
    let s := { s with attempts := s.attempts.erase (.nonceAuth id) }
    if ok then { s with attempts := .nonce id :: s.attempts } else fail s
  else if .subscribeAuth id ∈ s.attempts then
    let s := { s with attempts := s.attempts.erase (.subscribeAuth id) }
    if ok then openSocket s else s
  else s

/-- The nonce has come and is signed, or not; the second call is rejected without a host. -/
def registration (id : ℕ) (ok : Bool) (s : State) : State :=
  if .nonce id ∈ s.attempts then
    let s := { s with attempts := s.attempts.erase (.nonce id) }
    if !ok then fail s
    else if s.minterPorts = [] then s
    else
      { s with
        oauthSeq := s.oauthSeq + 1
        attempts := .subscribeAuth (s.oauthSeq + 1) :: s.attempts }
  else s

def start (s : State) : State :=
  let s := { s with stopped := false }
  if s.published.status = .disconnected then doConnect (setStatus .connecting s) else s

def closeSocket (s : State) : State :=
  match s.ws with
  | none => s
  | some i => { s with socket := Function.update s.socket i (s.socket i).close }

def stop (s : State) : State :=
  { closeSocket s with
    stopped := true
    ws := none
    published := ⟨.disconnected, none, none⟩ }

/-- The id of the call that an attempt waits for. -/
def Attempt.call : Attempt → Option ℕ
  | .nonceAuth id => some id
  | .nonce _ => none
  | .subscribeAuth id => some id

def removePort (port : ℕ) (s : State) : State :=
  let s := { s with minterPorts := s.minterPorts.filter (· ≠ port) }
  if s.minterPorts = [] then
    (s.attempts.filterMap Attempt.call).foldl (fun s id => settle id false s) s
  else s

/-! ## The steps -/

inductive Event
  | init
  | imported (ok : Bool)
  | minter (port : ℕ) (available : Bool)
  | start
  | stop
  | bye (port : ℕ)
  /-- `oauthResult`, or the timeout of the call. -/
  | reply (id : ℕ) (ok : Bool)
  | registration (id : ℕ) (ok : Bool)
  /-- A timer comes, that one of those armed. -/
  | fire (i : ℕ)
  | opened (i : ℕ)
  | registered (i : ℕ) (subdomain proxyRef : String)
  | error (i : ℕ)
  | closed (i : ℕ)

/-- The socket that the event is of. -/
def Event.socket : Event → Option ℕ
  | .opened i => some i
  | .registered i _ _ => some i
  | .error i => some i
  | .closed i => some i
  | _ => none

def onOpened (i : ℕ) (s : State) : State :=
  { setStatus .connected s with
    socket := Function.update s.socket i .open
    reconnectDelay := 1000 }

def onClosed (i : ℕ) (s : State) : State :=
  let s := { s with
    socket := Function.update s.socket i .closed
    published := ⟨.disconnected, none, none⟩ }
  if s.stopped then s
  else
    { s with
      timers := s.timers ++ [s.reconnectDelay]
      reconnectDelay := min (s.reconnectDelay * 2) 30000 }

def step (s : State) : Event → State
  | .init => if s.keypair then s else { s with imports := s.imports + 1 }
  | .imported ok => if 0 < s.imports then
      { s with imports := s.imports - 1, keypair := s.keypair || ok } else s
  | .minter port false => { s with minterPorts := s.minterPorts.filter (· ≠ port) }
  | .minter port true =>
    let s := { s with minterPorts := s.minterPorts.insert port }
    if !s.stopped ∧ s.published.status = .disconnected then start s else s
  | .start => start s
  | .stop => stop s
  | .bye port => removePort port s
  | .reply id ok => settle id ok s
  | .registration id ok => registration id ok s
  | .fire i => if i < s.timers.length then
      doConnect { s with timers := s.timers.eraseIdx i } else s
  | .opened i => if s.socket i = .connecting then onOpened i s else s
  | .registered i subdomain proxyRef => if s.socket i = .open then
      { s with published := { s.published with subdomain := subdomain, proxyRef := proxyRef } }
      else s
  -- It is only logged.
  | .error _ => s
  | .closed i => if s.socket i = .closed then s else onClosed i s

/-! ## What is said about it -/

def liveSockets (s : State) : ℕ := (List.range s.sockets).countP fun i => (s.socket i).live

structure Sound (s : State) (e : Event) : Prop where
  one : (step s e).attempts.length + (step s e).timers.length + liveSockets (step s e) ≤ 1
  /-- When there is a newer socket, or an attempt at one. -/
  stale : ∀ i ∈ e.socket, i + 1 < s.sockets ∨ s.attempts ≠ [] →
    (step s e).published = s.published
  silent : (step s e).stopped → (step s e).attempts = [] → liveSockets (step s e) = 0
  restless : (step s e).stopped = false → (step s e).keypair → (step s e).minterPorts ≠ [] →
    (step s e).attempts ≠ [] ∨ (step s e).timers ≠ [] ∨ liveSockets (step s e) ≠ 0

/-- Nothing is left of the last connection. -/
def Idle (s : State) : Prop := s.attempts = [] ∧ s.timers = [] ∧ ∀ i, s.socket i = .closed

/-- A start finds nothing left of the last connection, if it connects; a stop finds no attempt;
    and the second call to the host is answered. -/
def Careful (s : State) : Event → Prop
  | .start => s.published.status = .disconnected → Idle s ∨ (s.keypair ∧ s.minterPorts = [])
  | .minter _ true => s.stopped = false → s.published.status = .disconnected → Idle s
  | .stop => s.attempts = []
  | .bye port => (∀ host ∈ s.minterPorts, host = port) → ∀ id, .subscribeAuth id ∉ s.attempts
  | .reply id false => .subscribeAuth id ∉ s.attempts
  | .registration id true => .nonce id ∈ s.attempts → s.minterPorts ≠ []
  | _ => True

/-! ## What holds in between -/

/-- There is one attempt, timer or socket at most; a live socket is the one that `stop` closes;
    and a worker that rests waits for a host. -/
structure Inv (s : State) : Prop where
  few : s.attempts.length + s.timers.length ≤ 1
  alone : ∀ i, s.socket i ≠ .closed → s.attempts = [] ∧ s.timers = []
  newest : ∀ i, s.socket i ≠ .closed → i + 1 = s.sockets
  current : ∀ i, (s.socket i).live → s.ws = some i
  quiet : s.stopped → s.attempts = [] ∧ s.published.status = .disconnected ∧
    ∀ i, (s.socket i).live = false
  resting : s.stopped = false → s.attempts = [] → s.timers = [] →
    (∀ i, (s.socket i).live = false) → s.minterPorts = [] ∧ s.published.status = .disconnected

theorem live_ne_closed {r : ReadyState} (h : r.live) : r ≠ .closed := by
  rintro rfl
  cases h

/-- With all the sockets closed. -/
theorem inv_of_closed (hclosed : ∀ i, s.socket i = .closed)
    (hfew : s.attempts.length + s.timers.length ≤ 1)
    (hquiet : s.stopped → s.attempts = [] ∧ s.published.status = .disconnected)
    (hresting : s.stopped = false → s.attempts = [] → s.timers = [] →
      s.minterPorts = [] ∧ s.published.status = .disconnected) : Inv s where
  few := hfew
  alone i hi := absurd (hclosed i) hi
  newest i hi := absurd (hclosed i) hi
  current i hi := absurd (hclosed i) (live_ne_closed hi)
  quiet hstopped := ⟨(hquiet hstopped).1, (hquiet hstopped).2, fun i => by rw [hclosed i]; rfl⟩
  resting hrun hattempts htimers _ := hresting hrun hattempts htimers

theorem inv_of_running (hrun : s.stopped = false) (hclosed : ∀ i, s.socket i = .closed)
    (hfew : s.attempts.length + s.timers.length ≤ 1)
    (hresting : s.attempts = [] → s.timers = [] →
      s.minterPorts = [] ∧ s.published.status = .disconnected) : Inv s :=
  inv_of_closed hclosed hfew (fun h => by rw [hrun] at h; cases h) fun _ => hresting

theorem inv_start : Inv .start :=
  inv_of_closed (fun _ => rfl) (Nat.zero_le 1) (fun h => by cases h) (fun _ _ _ => ⟨rfl, rfl⟩)

/-- Beside an attempt there is nothing. -/
theorem Inv.attempt (h : Inv s) {a : Attempt} (ha : a ∈ s.attempts) :
    s.attempts = [a] ∧ s.timers = [] ∧ (∀ i, s.socket i = .closed) ∧ s.stopped = false := by
  have hfew := h.few
  have hne : s.attempts ≠ [] := List.ne_nil_of_mem ha
  have hpos := List.length_pos_iff.2 hne
  obtain ⟨b, hb⟩ := List.length_eq_one_iff.1 (by omega : s.attempts.length = 1)
  refine ⟨?_, List.length_eq_zero_iff.1 (by omega), fun i => ?_, ?_⟩
  · rw [hb] at ha ⊢
    rw [List.mem_singleton.1 ha]
  · by_contra hi
    exact hne (h.alone i hi).1
  · cases hstopped : s.stopped
    · rfl
    · exact absurd (h.quiet hstopped).1 hne

theorem liveSockets_eq_zero (h : ∀ i, (s.socket i).live = false) : liveSockets s = 0 :=
  List.countP_eq_zero.2 fun i _ => by rw [h i]; exact Bool.false_ne_true

/-- Only the newest socket may be live. -/
theorem Inv.liveSockets_le (h : Inv s) : liveSockets s ≤ 1 := by
  rw [liveSockets]
  cases hn : s.sockets with
  | zero => exact Nat.zero_le 1
  | succ n =>
    have hzero : (List.range n).countP (fun i => (s.socket i).live) = 0 :=
      List.countP_eq_zero.2 fun i hi hlive => by
        have hnewest := h.newest i (live_ne_closed hlive)
        have hlt := List.mem_range.1 hi
        omega
    rw [List.range_succ, List.countP_append, hzero, Nat.zero_add]
    exact List.countP_le_length

theorem Inv.live (h : Inv s) (hlive : liveSockets s ≠ 0) : s.attempts = [] ∧ s.timers = [] := by
  obtain ⟨i, -, hi⟩ := List.countP_pos_iff.1 (Nat.pos_of_ne_zero hlive)
  exact h.alone i (live_ne_closed hi)

theorem Inv.one (h : Inv s) : s.attempts.length + s.timers.length + liveSockets s ≤ 1 := by
  have hle := h.liveSockets_le
  by_cases hlive : liveSockets s = 0
  · rw [hlive]
    exact h.few
  · obtain ⟨hattempts, htimers⟩ := h.live hlive
    rw [hattempts, htimers]
    simpa using hle

/-- A socket with something newer is closed. -/
theorem Inv.stale (h : Inv s) {i : ℕ} (hi : i + 1 < s.sockets ∨ s.attempts ≠ []) :
    s.socket i = .closed := by
  by_contra hne
  rcases hi with hlt | hattempts
  · exact absurd (h.newest i hne) (Nat.ne_of_lt hlt)
  · exact hattempts (h.alone i hne).1

theorem Inv.restless (h : Inv s) (hrun : s.stopped = false) (hhost : s.minterPorts ≠ []) :
    s.attempts ≠ [] ∨ s.timers ≠ [] ∨ liveSockets s ≠ 0 := by
  by_contra hrest
  simp only [not_or, not_not] at hrest
  obtain ⟨hattempts, htimers, hlive⟩ := hrest
  refine hhost (h.resting hrun hattempts htimers fun i => ?_).1
  by_contra hi
  have hi : (s.socket i).live = true := Bool.of_not_eq_false hi
  have hmem : i ∈ List.range s.sockets := List.mem_range.2 (by
    have := h.newest i (live_ne_closed hi)
    omega)
  exact List.countP_eq_zero.1 hlive i hmem hi

/-! ## The steps keep it -/

theorem inv_doConnect (hidle : Idle s) (hrun : s.stopped = false) : Inv (doConnect s) := by
  obtain ⟨hattempts, htimers, hclosed⟩ := hidle
  have hnot : ¬ s.stopped = true := by rw [hrun]; exact Bool.false_ne_true
  rw [doConnect, if_neg hnot]
  split
  · refine inv_of_running hrun hclosed ?_ fun _ htimer => absurd htimer (by simp)
    rw [hattempts, htimers]
    exact Nat.le_refl 1
  · split
    · next hhost =>
      refine inv_of_running hrun hclosed ?_ fun _ _ => ⟨hhost, rfl⟩
      rw [setStatus, hattempts, htimers]
      exact Nat.zero_le 1
    · refine inv_of_running hrun hclosed ?_ fun hattempt => by cases hattempt
      rw [hattempts, htimers]
      exact Nat.le_refl 1

theorem inv_start_of_idle (hidle : Idle s) (hstatus : s.published.status = .disconnected) :
    Inv (start s) := by
  rw [start]
  dsimp only
  rw [if_pos hstatus]
  exact inv_doConnect hidle rfl

/-- Without a host a start changes nothing but the status. -/
theorem Inv.start_of_no_host (h : Inv s) (hstatus : s.published.status = .disconnected)
    (hkeypair : s.keypair) (hhost : s.minterPorts = []) : Inv (start s) := by
  have hstart : start s = setStatus .disconnected { s with stopped := false } := by
    rw [start]
    dsimp only
    rw [if_pos hstatus]
    exact doConnect_of_no_host rfl hkeypair hhost
  rw [hstart]
  exact {
    few := h.few
    alone := h.alone
    newest := h.newest
    current := h.current
    quiet := fun hstopped => by cases hstopped
    resting := fun _ _ _ _ => ⟨hhost, rfl⟩ }

theorem Inv.start (h : Inv s) (hcareful : Careful s .start) : Inv (start s) := by
  by_cases hstatus : s.published.status = .disconnected
  · rcases hcareful hstatus with hidle | ⟨hkeypair, hhost⟩
    · exact inv_start_of_idle hidle hstatus
    · exact h.start_of_no_host hstatus hkeypair hhost
  · have hrun : s.stopped = false := by
      by_contra hstopped
      exact hstatus (h.quiet (Bool.of_not_eq_false hstopped)).2.1
    have hstart : RelayWorker.start s = s := by
      rw [RelayWorker.start]
      dsimp only
      rw [if_neg hstatus, ← hrun]
    rw [hstart]
    exact h

/-- The socket of the worker is closed, if it has one. -/
theorem closeSocket_socket (h : Inv s) (i : ℕ) : ((closeSocket s).socket i).live = false ∧
    ((closeSocket s).socket i ≠ .closed → s.socket i ≠ .closed) := by
  rw [closeSocket]
  split
  · next hnone =>
    refine ⟨?_, id⟩
    by_contra hlive
    have hsome := h.current i (Bool.of_not_eq_false hlive)
    rw [hnone] at hsome
    cases hsome
  · next j hsome =>
    dsimp only
    by_cases hij : i = j
    · subst hij
      rw [Function.update_self]
      cases s.socket i <;> exact ⟨rfl, fun hne heq => by first | exact hne rfl | cases heq⟩
    · rw [Function.update_of_ne hij]
      refine ⟨?_, id⟩
      by_contra hlive
      have hcurrent := h.current i (Bool.of_not_eq_false hlive)
      rw [hsome] at hcurrent
      exact hij (Option.some.inj hcurrent).symm

theorem closeSocket_frame (s : State) : (closeSocket s).attempts = s.attempts ∧
    (closeSocket s).timers = s.timers ∧ (closeSocket s).sockets = s.sockets := by
  rw [closeSocket]
  split <;> exact ⟨rfl, rfl, rfl⟩

theorem Inv.stop (h : Inv s) (hattempts : s.attempts = []) : Inv (stop s) := by
  obtain ⟨hattempts', htimers', hsockets'⟩ := closeSocket_frame s
  exact {
    few := by
      rw [RelayWorker.stop]
      dsimp only
      rw [hattempts', htimers']
      exact h.few
    alone := fun i hi => by
      rw [RelayWorker.stop]
      dsimp only
      rw [hattempts', htimers']
      exact h.alone i ((closeSocket_socket h i).2 hi)
    newest := fun i hi => (h.newest i ((closeSocket_socket h i).2 hi)).trans hsockets'.symm
    current := fun i hi => by
      have hlive : ((closeSocket s).socket i).live = true := hi
      rw [(closeSocket_socket h i).1] at hlive
      cases hlive
    quiet := fun _ => ⟨hattempts'.trans hattempts, rfl, fun i => (closeSocket_socket h i).1⟩
    resting := fun hrun => by cases hrun }

theorem inv_fail (hidle : Idle s) (hrun : s.stopped = false) : Inv (fail s) := by
  obtain ⟨hattempts, htimers, hclosed⟩ := hidle
  have hnot : ¬ (setStatus .disconnected s).stopped = true := by
    rw [setStatus, hrun]
    exact Bool.false_ne_true
  rw [fail, if_neg hnot]
  refine inv_of_running hrun hclosed ?_ fun _ htimer => absurd htimer (by simp)
  rw [setStatus, hattempts, htimers]
  exact Nat.le_refl 1

/-- The only attempt ends. -/
theorem Inv.end_attempt (h : Inv s) {a : Attempt} (ha : a ∈ s.attempts) :
    Idle { s with attempts := s.attempts.erase a } := by
  obtain ⟨hattempts, htimers, hclosed, -⟩ := h.attempt ha
  refine ⟨?_, htimers, hclosed⟩
  dsimp only
  rw [hattempts, List.erase_cons_head]

/-- An attempt that goes on. -/
theorem inv_attempt (hidle : Idle s) (hrun : s.stopped = false) (a : Attempt) (seq : ℕ) :
    Inv { s with oauthSeq := seq, attempts := a :: s.attempts } := by
  obtain ⟨hattempts, htimers, hclosed⟩ := hidle
  refine inv_of_running hrun hclosed ?_ fun hattempt => by cases hattempt
  rw [hattempts, htimers]
  exact Nat.le_refl 1

theorem inv_openSocket (hidle : Idle s) (hrun : s.stopped = false) : Inv (openSocket s) := by
  obtain ⟨hattempts, htimers, hclosed⟩ := hidle
  have hnew (i : ℕ) (hi : (openSocket s).socket i ≠ .closed) : i = s.sockets := by
    by_contra hne
    exact hi ((Function.update_of_ne hne _ _).trans (hclosed i))
  exact {
    few := by
      rw [openSocket, hattempts, htimers]
      exact Nat.zero_le 1
    alone := fun _ _ => ⟨hattempts, htimers⟩
    newest := fun i hi => congrArg (· + 1) (hnew i hi)
    current := fun i hi => congrArg some (hnew i (live_ne_closed hi)).symm
    quiet := fun hstopped => by
      rw [openSocket, hrun] at hstopped
      cases hstopped
    resting := fun _ _ _ hlive => by
      have hopen := hlive s.sockets
      rw [openSocket] at hopen
      dsimp only at hopen
      rw [Function.update_self] at hopen
      cases hopen }

theorem Inv.settle (h : Inv s) {id : ℕ} {ok : Bool}
    (hcareful : ok = false → .subscribeAuth id ∉ s.attempts) : Inv (settle id ok s) := by
  rw [RelayWorker.settle]
  split
  · next hnonce =>
    have hrun := (h.attempt hnonce).2.2.2
    cases ok with
    | true => exact inv_attempt (h.end_attempt hnonce) hrun _ _
    | false => exact inv_fail (h.end_attempt hnonce) hrun
  · split
    · next hsubscribe =>
      cases ok with
      | true => exact inv_openSocket (h.end_attempt hsubscribe) (h.attempt hsubscribe).2.2.2
      | false => exact absurd hsubscribe (hcareful rfl)
    · exact h

theorem Inv.registration (h : Inv s) {id : ℕ} {ok : Bool}
    (hcareful : ok = true → .nonce id ∈ s.attempts → s.minterPorts ≠ []) :
    Inv (registration id ok s) := by
  rw [RelayWorker.registration]
  split
  · next hnonce =>
    have hrun := (h.attempt hnonce).2.2.2
    cases ok with
    | false => exact inv_fail (h.end_attempt hnonce) hrun
    | true =>
      dsimp only
      rw [if_neg (by decide), if_neg (hcareful rfl hnonce)]
      exact inv_attempt (h.end_attempt hnonce) hrun _ _
  · exact h

theorem Inv.onOpened (h : Inv s) {i : ℕ} (hi : s.socket i = .connecting) : Inv (onOpened i s) := by
  have hopened (j : ℕ) (hj : (RelayWorker.onOpened i s).socket j ≠ .closed) : s.socket j ≠ .closed := by
    by_cases hij : j = i
    · rw [hij, hi]
      decide
    · rw [RelayWorker.onOpened] at hj
      dsimp only at hj
      rwa [Function.update_of_ne hij] at hj
  have hlive : ((RelayWorker.onOpened i s).socket i).live = true := by
    rw [RelayWorker.onOpened]
    dsimp only
    rw [Function.update_self]
    rfl
  exact {
    few := h.few
    alone := fun j hj => h.alone j (hopened j hj)
    newest := fun j hj => h.newest j (hopened j hj)
    current := fun j hj => by
      have hnew := h.newest j (hopened j (live_ne_closed hj))
      have hnew' := h.newest i (by rw [hi]; decide)
      have hij : j = i := by omega
      rw [hij]
      exact h.current i (by rw [hi]; rfl)
    quiet := fun hstopped => by
      have hdead := (h.quiet hstopped).2.2 i
      rw [hi] at hdead
      cases hdead
    resting := fun _ _ _ hdead => by
      rw [hdead i] at hlive
      cases hlive }

theorem Inv.onClosed (h : Inv s) {i : ℕ} (hi : s.socket i ≠ .closed) : Inv (onClosed i s) := by
  obtain ⟨hattempts, htimers⟩ := h.alone i hi
  have hclosed (j : ℕ) : Function.update s.socket i .closed j = .closed := by
    by_cases hij : j = i
    · rw [hij, Function.update_self]
    · rw [Function.update_of_ne hij]
      by_contra hj
      have hnewest := h.newest i hi
      have hnewest' := h.newest j hj
      omega
  rw [RelayWorker.onClosed]
  dsimp only
  split
  · next hstopped =>
    exact inv_of_closed hclosed h.few (fun _ => ⟨hattempts, rfl⟩) fun hrun => by
      rw [hstopped] at hrun
      cases hrun
  · next hrun =>
    refine inv_of_running (Bool.of_not_eq_true hrun) hclosed ?_ fun _ htimer => absurd htimer (by simp)
    rw [hattempts, htimers]
    exact Nat.le_refl 1

theorem Inv.fire (h : Inv s) {i : ℕ} (hi : i < s.timers.length) :
    Inv (doConnect { s with timers := s.timers.eraseIdx i }) := by
  have hfew := h.few
  have hattempts : s.attempts = [] := List.length_eq_zero_iff.1 (by omega)
  have hclosed (j : ℕ) : s.socket j = .closed := by
    by_contra hj
    rw [(h.alone j hj).2] at hi
    exact absurd hi (Nat.not_lt_zero i)
  have htimers : s.timers.eraseIdx i = [] := List.length_eq_zero_iff.1 (by
    rw [List.length_eraseIdx_of_lt hi]
    omega)
  by_cases hstopped : s.stopped = true
  · have hstay : doConnect { s with timers := s.timers.eraseIdx i }
        = { s with timers := s.timers.eraseIdx i } := by
      rw [doConnect, if_pos hstopped]
    rw [hstay]
    refine inv_of_closed hclosed ?_ (fun _ => ⟨hattempts, (h.quiet hstopped).2.1⟩) fun hrun => ?_
    · rw [hattempts, htimers]
      exact Nat.zero_le 1
    · rw [hstopped] at hrun
      cases hrun
  · exact inv_doConnect ⟨hattempts, htimers, hclosed⟩ (Bool.of_not_eq_true hstopped)

/-- The tabs that can be asked change, and nothing else. -/
theorem Inv.ports (h : Inv s) {ports : List ℕ}
    (hports : s.minterPorts = [] → s.stopped = true ∨ s.published.status ≠ .disconnected ∨ ports = []) :
    Inv { s with minterPorts := ports } := {
  h with
  resting := fun hrun hattempts htimers hdead => by
    obtain ⟨hhost, hstatus⟩ := h.resting hrun hattempts htimers hdead
    rcases hports hhost with hstopped | hne | hnil
    · rw [hrun] at hstopped
      cases hstopped
    · exact absurd hstatus hne
    · exact ⟨hnil, hstatus⟩ }

theorem mem_settle_false {id : ℕ} {a : Attempt} (ha : a ∈ (settle id false s).attempts) :
    a ∈ s.attempts := by
  rw [settle] at ha
  split at ha
  · have ha := (congrArg (a ∈ ·) (fail_attempts _)).mp ha
    exact List.mem_of_mem_erase ha
  · split at ha
    · exact List.mem_of_mem_erase ha
    · exact ha

/-- The host is gone, and with it the calls to it. -/
theorem Inv.settle_foldl (ids : List ℕ) (h : Inv s) (hcareful : ∀ id, .subscribeAuth id ∉ s.attempts) :
    Inv (ids.foldl (fun s id => RelayWorker.settle id false s) s) := by
  induction ids generalizing s with
  | nil => exact h
  | cons id ids ih =>
    exact ih (h.settle fun _ => hcareful id) fun id' hmem => hcareful id' (mem_settle_false hmem)

theorem Inv.removePort (h : Inv s) {port : ℕ} (hcareful : Careful s (.bye port)) :
    Inv (removePort port s) := by
  have hports : Inv { s with minterPorts := s.minterPorts.filter (· ≠ port) } :=
    h.ports fun hnil => .inr (.inr (by rw [hnil, List.filter_nil]))
  rw [RelayWorker.removePort]
  dsimp only
  split
  · next hnil =>
    refine hports.settle_foldl _ (hcareful fun host hhost => ?_)
    by_contra hne
    exact List.filter_eq_nil_iff.1 hnil host hhost (decide_eq_true hne)
  · exact hports

theorem inv_step (h : Inv s) {e : Event} (hcareful : Careful s e) : Inv (step s e) := by
  cases e with
  | init =>
    rw [step]
    split
    · exact h
    · exact { h with }
  | imported ok =>
    rw [step]
    split
    · exact { h with }
    · exact h
  | minter port available =>
    cases available with
    | false => exact h.ports fun hnil => .inr (.inr (by rw [hnil, List.filter_nil]))
    | true =>
      rw [step]
      dsimp only
      split
      · next hstart =>
        obtain ⟨hrun, hstatus⟩ := hstart
        have hidle : Idle s := hcareful (by simpa using hrun) hstatus
        exact inv_start_of_idle hidle hstatus
      · next hnot =>
        refine h.ports fun _ => ?_
        by_cases hstopped : s.stopped = true
        · exact .inl hstopped
        · refine .inr (.inl fun hstatus => hnot ⟨?_, hstatus⟩)
          rw [Bool.of_not_eq_true hstopped]
          rfl
  | start => exact h.start hcareful
  | stop => exact h.stop hcareful
  | bye port => exact h.removePort hcareful
  | reply id ok =>
    refine h.settle fun hok => ?_
    subst hok
    exact hcareful
  | registration id ok =>
    refine h.registration fun hok => ?_
    subst hok
    exact hcareful
  | fire i =>
    rw [step]
    split
    · next hi => exact h.fire hi
    · exact h
  | opened i =>
    rw [step]
    split
    · next hi => exact h.onOpened hi
    · exact h
  | registered i subdomain proxyRef =>
    rw [step]
    split
    · exact { h with }
    · exact h
  | error i => exact h
  | closed i =>
    rw [step]
    split
    · exact h
    · next hi => exact h.onClosed hi

theorem Inv.sound (h : Inv s) {e : Event} (hcareful : Careful s e) : Sound s e := by
  have hnext := inv_step h hcareful
  refine ⟨hnext.one, fun i hi hnewer => ?_, fun hstopped _ =>
    liveSockets_eq_zero (hnext.quiet hstopped).2.2, fun hrun _ hhost => hnext.restless hrun hhost⟩
  have hclosed := h.stale hnewer
  cases e with
  | opened j =>
    cases hi
    rw [step, if_neg (by rw [hclosed]; decide)]
  | registered j subdomain proxyRef =>
    cases hi
    rw [step, if_neg (by rw [hclosed]; decide)]
  | error j => rfl
  | closed j =>
    cases hi
    rw [step, if_pos hclosed]
  | _ => cases hi

theorem reconnects_of_careful (es : List Event) (hcareful : Along step Careful .start es) :
    Along step Sound .start es :=
  along_of_inv (fun s _ (h : Inv s) he => ⟨h.sound he, inv_step h he⟩) inv_start hcareful

/-- A tab signs in, the relay connects, the socket closes, and the relay connects again. -/
theorem reconnects_of_careful_sample : Along step Sound .start
    [.init, .imported true, .minter 1 true, .reply 1 true, .registration 1 true, .reply 2 true,
      .opened 0, .registered 0 "a" "did:web:a", .closed 0, .fire 0, .reply 3 false, .fire 0,
      .reply 4 true, .registration 4 true, .reply 5 true, .opened 1, .stop, .closed 1] := by
  have hcalls : Attempt.subscribeAuth 3 ∉ [Attempt.nonceAuth 3] := by decide
  exact reconnects_of_careful _ ⟨trivial, trivial, fun _ _ => ⟨rfl, rfl, fun _ => rfl⟩, trivial,
    fun _ => by decide, trivial, trivial, trivial, trivial, trivial, hcalls, trivial, trivial,
    fun _ => by decide, trivial, trivial, rfl, trivial, trivial⟩

/-- A second tab signs in while the reconnect timer runs; the worker is stopped and started again
    before its socket is closed; it is stopped while it connects; the host refuses the second
    token. -/
theorem not_reconnects :
    (¬ Along step Sound .start
      [.init, .imported true, .minter 1 true, .reply 1 true, .registration 1 true, .reply 2 true,
        .closed 0, .minter 2 true]) ∧
    (¬ Along step Sound .start
      [.init, .imported true, .minter 1 true, .reply 1 true, .registration 1 true, .reply 2 true,
        .opened 0, .stop, .start, .reply 3 true, .registration 3 true, .reply 4 true, .opened 1,
        .closed 0]) ∧
    (¬ Along step Sound .start
      [.init, .imported true, .minter 1 true, .stop, .reply 1 true, .registration 1 true,
        .reply 2 true]) ∧
    ¬ Along step Sound .start
      [.init, .imported true, .minter 1 true, .reply 1 true, .registration 1 true,
        .reply 2 false] := by
  refine ⟨fun h => ?_, fun h => ?_, fun h => ?_, fun h => ?_⟩
  · exact absurd h.2.2.2.2.2.2.2.1.one (by decide)
  · exact absurd (h.2.2.2.2.2.2.2.2.2.2.2.2.2.1.stale 0 rfl (.inl (by decide))) (by decide)
  · exact absurd (h.2.2.2.2.2.2.1.silent rfl rfl) (by decide)
  · exact absurd (h.2.2.2.2.2.1.restless rfl rfl (by decide)) (by decide)

end ComputeContract.RelayWorker
