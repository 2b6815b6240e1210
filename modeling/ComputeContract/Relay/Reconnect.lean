import Mathlib.Data.List.Basic
import Mathlib.Tactic.Set
import ComputeContract.Lib.Along

/-!
# The reconnect loop

`runSubscriber` keeps one connection to the dispatcher: `connect` makes a subscriber, and
what ends it schedules the next `connect`. Both ends of a subscriber schedule: the promise
of `createSubscriber` that is rejected, and the `close` event of its WebSocket.

* `single_step`: an event that does not meet a subscriber still registering keeps the loop
  single.
* `single_loop`: so does every run of such events.
-/

namespace ComputeContract

namespace Subscriber

/-- What `createSubscriber` waits for before it makes the WebSocket. -/
inductive Await
  /-- `getServiceAuthToken(getRegistrationNonce)` -/
  | nonceToken
  /-- The response of the nonce request. -/
  | nonceResponse
  /-- Its text, when it is not ok. -/
  | nonceText
  /-- Its JSON, when it is ok. -/
  | nonceJson
  /-- `keypair.sign` -/
  | sign
  /-- `getServiceAuthToken(SUBSCRIBE_NSID)` -/
  | subscribeToken
  deriving DecidableEq

/-- How such a step comes back. -/
inductive Reply
  | ok
  /-- A response that is not ok. -/
  | notOk
  | throws
  deriving DecidableEq

/-- What `createSubscriber` does next: throw, make the WebSocket, or wait again. -/
inductive Next
  | throw
  | socket
  | await (next : Await)

def Await.next : Await → Reply → Next
  | _, .throws => .throw
  | .nonceToken, _ => .await .nonceResponse
  | .nonceResponse, .ok => .await .nonceJson
  | .nonceResponse, .notOk => .await .nonceText
  -- The text is put into the error.
  | .nonceText, _ => .throw
  | .nonceJson, _ => .await .sign
  | .sign, _ => .await .subscribeToken
  | .subscribeToken, _ => .socket

/-- The state of a WebSocket; it is `closed` when its `close` event has come. -/
inductive ReadyState
  | connecting
  | opened
  | closing
  | closed
  deriving DecidableEq

structure Socket where
  readyState : ReadyState
  /-- `resolved` of `createSubscriber`. -/
  resolved : Bool
  deriving DecidableEq

/-- Where a call of `connect` is. -/
inductive Phase
  | waiting (await : Await)
  /-- The promise of `createSubscriber` waits for the `registered` frame. -/
  | registering
  /-- The promise is resolved or rejected, and `connect` goes on in a microtask. -/
  | settled (resolved : Bool)
  | returned
  deriving DecidableEq

/-- A call of `connect`, with the WebSocket that it made. -/
structure Connection where
  phase : Phase
  socket : Option Socket
  deriving DecidableEq

inductive Status
  | connecting
  | connected
  | disconnected
  | error
  deriving DecidableEq

/-- `subdomain` and `proxyRef` of the `registered` frame. -/
structure Info where
  subdomain : String
  proxyRef : String
  deriving DecidableEq

structure ReconnectOptions where
  reconnectBase : ℕ
  reconnectMax : ℕ

/-- The state of `runSubscriber`; a connection is named by its place in `connections`. -/
structure Loop where
  stopped : Bool
  delay : ℕ
  /-- The connection that `handle` closes. -/
  handle : Option ℕ
  info : Option Info
  /-- The reconnect timers that are set, each with its delay. -/
  timers : List ℕ
  connections : List Connection
  /-- What was given to `onStatus`. -/
  statuses : List Status
  deriving DecidableEq

inductive Event
  /-- The `i`-th of the timers that are set fires. -/
  | timer (i : ℕ)
  | reply (id : ℕ) (reply : Reply)
  /-- The `open` event. -/
  | opened (id : ℕ)
  /-- The `registered` frame. -/
  | registered (id : ℕ) (info : Info)
  /-- The ten seconds for the registration are over. -/
  | timeout (id : ℕ)
  /-- The `error` event. -/
  | error (id : ℕ)
  /-- The `close` event. -/
  | close (id : ℕ)
  /-- `connect` goes on after its promise is settled. -/
  | continue (id : ℕ)
  | stop

def Phase.isSettled : Phase → Bool
  | .settled _ => true
  | _ => false

/-- The promise of `createSubscriber` is settled, unless it was before. -/
def Phase.settle (resolved : Bool) : Phase → Phase
  | .registering => .settled resolved
  | phase => phase

/-- `raw.close()` -/
def Connection.close (c : Connection) : Connection :=
  { c with socket := c.socket.map fun socket =>
      if socket.readyState = .closed then socket else { socket with readyState := .closing } }

namespace Loop

/-- A call of `connect` goes as far as its first `await`. -/
def connect (s : Loop) : Loop :=
  if s.stopped then s
  else { s with
    connections := s.connections ++ [⟨.waiting .nonceToken, none⟩]
    statuses := s.statuses ++ [.connecting] }

def schedule (opts : ReconnectOptions) (s : Loop) : Loop :=
  if s.stopped then s
  else { s with
    delay := min (s.delay * 2) opts.reconnectMax
    timers := s.timers ++ [s.delay]
    statuses := s.statuses ++ [.disconnected] }

def set (s : Loop) (id : ℕ) (c : Connection) : Loop :=
  { s with connections := s.connections.set id c }

/-- The state after `runSubscriber`. -/
def start (opts : ReconnectOptions) : Loop :=
  connect ⟨false, opts.reconnectBase, none, none, [], [], []⟩

/-- A microtask is queued, which goes before the next event. -/
def microtask (s : Loop) : Bool := s.connections.any fun c => c.phase.isSettled

def stop (s : Loop) : Loop :=
  let connections := match s.handle with
    | none => s.connections
    | some id => s.connections.modify id Connection.close
  { s with
    stopped := true, connections, handle := none, info := none
    statuses := s.statuses ++ [.disconnected] }

/-- The `message` event with a `registered` frame. -/
def onRegistered (opts : ReconnectOptions) (s : Loop) (id : ℕ) (c : Connection) (socket : Socket)
    (info : Info) : Loop :=
  { s.set id ⟨Phase.settle true c.phase, some { socket with resolved := true }⟩ with
    info := some info
    delay := opts.reconnectBase
    statuses := s.statuses ++ [.connected] }

/-- The `close` event. -/
def onClose (opts : ReconnectOptions) (s : Loop) (id : ℕ) (c : Connection) (socket : Socket) : Loop :=
  let s := schedule opts { s with handle := none, info := none }
  s.set id ⟨if socket.resolved then c.phase else Phase.settle false c.phase,
    some { socket with readyState := .closed }⟩

/-- `connect` goes on: it keeps the handle, or logs the error and schedules. -/
def onSettled (opts : ReconnectOptions) (s : Loop) (id : ℕ) (c : Connection) (resolved : Bool) :
    Loop :=
  let s := s.set id { c with phase := .returned }
  if resolved then { s with handle := some id }
  else if s.stopped then s
  else schedule opts { s with statuses := s.statuses ++ [.error] }

/-- An event of one connection; one that cannot come changes nothing. -/
def onConnection (opts : ReconnectOptions) (s : Loop) (id : ℕ) (c : Connection) : Event → Loop
  | .reply _ reply =>
    match c.phase with
    | .waiting await =>
      match await.next reply with
      | .throw => s.set id { c with phase := .settled false }
      | .socket => s.set id ⟨.registering, some ⟨.connecting, false⟩⟩
      | .await next => s.set id { c with phase := .waiting next }
    | _ => s
  | .opened _ =>
    match c.socket with
    | some socket =>
      if socket.readyState = .connecting then
        s.set id { c with socket := some { socket with readyState := .opened } }
      else s
    | none => s
  | .registered _ info =>
    match c.socket with
    | some socket => if socket.readyState = .opened then s.onRegistered opts id c socket info else s
    | none => s
  | .timeout _ => s.set id { c with phase := Phase.settle false c.phase }
  | .error _ =>
    match c.socket with
    | some socket =>
      if socket.readyState = .closed then s
      else s.set id ⟨Phase.settle false c.phase, some { socket with readyState := .closing }⟩
    | none => s
  | .close _ =>
    match c.socket with
    | some socket => if socket.readyState = .closed then s else s.onClose opts id c socket
    | none => s
  | .continue _ =>
    match c.phase with
    | .settled resolved => s.onSettled opts id c resolved
    | _ => s
  | _ => s

end Loop

/-- The connection that an event is about. -/
def Event.id : Event → Option ℕ
  | .reply id _ | .opened id | .registered id _ | .timeout id | .error id | .close id
  | .continue id => some id
  | _ => none

/-- The event may come while a microtask is queued: it is the microtask, or a call of `stop`
    from a callback. -/
def Event.isMicrotask : Event → Bool
  | .continue _ | .stop => true
  | _ => false

namespace Loop

/-- An event of the connection that it names, if there is one. -/
def onNamed (opts : ReconnectOptions) (s : Loop) (e : Event) : Loop :=
  match e.id.bind fun id => s.connections[id]?.map (id, ·) with
  | some (id, c) => s.onConnection opts id c e
  | none => s

def onEvent (opts : ReconnectOptions) (s : Loop) : Event → Loop
  | .stop => s.stop
  | .timer i =>
    if i < s.timers.length then connect { s with timers := s.timers.eraseIdx i } else s
  | e => s.onNamed opts e

def step (opts : ReconnectOptions) (s : Loop) (e : Event) : Loop :=
  if s.microtask && !e.isMicrotask then s else s.onEvent opts e

end Loop

/-! ## One at a time -/

/-- The call of `connect` is in progress, or its WebSocket is not closed yet. -/
def Connection.busy (c : Connection) : Bool :=
  c.phase ≠ .returned || c.socket.any fun socket => socket.readyState ≠ .closed

/-- Nothing of the connection is outstanding. -/
def Connection.atRest (c : Connection) : Bool :=
  c.phase = .returned && c.socket.all fun socket => socket.readyState ≠ .closing

theorem busy_eq_false {c : Connection} : c.busy = false ↔
    c.phase = .returned ∧ ∀ socket ∈ c.socket, socket.readyState = .closed := by
  obtain ⟨phase, _ | socket⟩ := c <;> simp [Connection.busy]

namespace Loop

/-- The connection attempts, live sockets and reconnect timers. -/
def active (s : Loop) : ℕ := s.connections.countP Connection.busy + s.timers.length

structure Single (s : Loop) : Prop where
  atMostOne : s.active ≤ 1
  exactlyOne : s.stopped = false → s.active = 1
  /-- Once stopped and at rest, no socket is open. -/
  closed : s.stopped = true → (∀ c ∈ s.connections, c.atRest) →
    ∀ c ∈ s.connections, ∀ socket ∈ c.socket, socket.readyState = .closed

/-- The loop is single after the event, which starts no `connect` once stopped. -/
def StaysSingle (opts : ReconnectOptions) (s : Loop) (e : Event) : Prop :=
  (s.step opts e).Single ∧
    (s.stopped = true → (s.step opts e).connections.length = s.connections.length)

def registering (s : Loop) (id : ℕ) : Bool :=
  s.connections[id]?.any fun c => c.phase = .registering

/-- The event leaves a subscriber alone that is still registering, unless the loop is
    stopped and the WebSocket ends, or it is not stopped and the frame comes in time; and
    `stop` does not come between the frame and the handle. -/
def Timely (s : Loop) : Event → Bool
  | .timeout id => !s.registering id
  | .error id | .close id => s.stopped || !s.registering id
  | .registered id _ => !s.stopped || !s.registering id
  | .stop => s.connections.all fun c => c.phase ≠ .settled true
  | _ => true

/-- The last connection of a single loop, at the place `n`. -/
inductive Shape (n : ℕ) : Bool → Option ℕ → List ℕ → Connection → Prop
  | waiting (stopped : Bool) (await : Await) : Shape n stopped none [] ⟨.waiting await, none⟩
  | failed (stopped : Bool) : Shape n stopped none [] ⟨.settled false, none⟩
  | registering (stopped : Bool) {readyState : ReadyState}
      (h : readyState = .connecting ∨ readyState = .opened) :
      Shape n stopped none [] ⟨.registering, some ⟨readyState, false⟩⟩
  | registered : Shape n false none [] ⟨.settled true, some ⟨.opened, true⟩⟩
  | live {readyState : ReadyState} (h : readyState = .opened ∨ readyState = .closing) :
      Shape n false (some n) [] ⟨.returned, some ⟨readyState, true⟩⟩
  | idle (stopped : Bool) (delay : ℕ) {c : Connection} (h : c.busy = false) :
      Shape n stopped none [delay] c
  | ending {c : Connection} (hphase : c.phase = .settled false ∨ c.phase = .returned)
      (hsocket : ∀ socket ∈ c.socket,
        socket.readyState = .closing ∨ socket.readyState = .closed) :
      Shape n true none [] c

/-- Every connection before the last one is over. -/
structure Inv (s : Loop) (before : List Connection) (c : Connection) : Prop where
  connections : s.connections = before ++ [c]
  past : ∀ c' ∈ before, c'.busy = false
  shape : Shape before.length s.stopped s.handle s.timers c

@[simp] theorem set_stopped (s : Loop) (id : ℕ) (c : Connection) :
    (s.set id c).stopped = s.stopped := rfl

theorem schedule_of_stopped {opts : ReconnectOptions} {s : Loop} (h : s.stopped = true) :
    s.schedule opts = s := if_pos h

theorem set_schedule (opts : ReconnectOptions) (s : Loop) (id : ℕ) (c : Connection) :
    (s.schedule opts).set id c = (s.set id c).schedule opts := by
  rw [schedule, schedule, set_stopped]
  split_ifs <;> rfl

theorem set_self {s : Loop} {id : ℕ} {c : Connection} (hc : s.connections[id]? = some c) :
    s.set id c = s := by
  obtain ⟨hid, rfl⟩ := List.getElem?_eq_some_iff.1 hc
  rw [Loop.set, List.set_getElem_self]

/-- A connection that is over hears of nothing. -/
theorem onConnection_of_over {opts : ReconnectOptions} {s : Loop} {id : ℕ} {c : Connection}
    (hc : s.connections[id]? = some c) (hover : c.busy = false) (e : Event) :
    s.onConnection opts id c e = s := by
  obtain ⟨phase, socket⟩ := c
  obtain ⟨hphase, hsocket⟩ := busy_eq_false.1 hover
  dsimp only at hphase hsocket
  subst hphase
  rcases socket with _ | socket
  · cases e <;> first | rfl | exact set_self hc
  · have hclosed : socket.readyState = .closed := hsocket socket rfl
    cases e with
    | opened | registered => simp [onConnection, hclosed]
    | error | close => simp [onConnection, hclosed]
    | timeout => exact set_self hc
    | _ => rfl

namespace Inv

variable {opts : ReconnectOptions} {s : Loop} {before : List Connection} {c : Connection}

theorem last (h : s.Inv before c) : s.connections[before.length]? = some c := by
  rw [h.connections, List.getElem?_concat_length]

theorem set_last (h : s.Inv before c) (c' : Connection) :
    (s.set before.length c').connections = before ++ [c'] := by
  rw [Loop.set, h.connections, List.set_append_right _ _ (Nat.le_refl _)]
  simp

/-- The last connection changes, and nothing else that the invariant is about. -/
theorem set (h : s.Inv before c) {c' : Connection}
    (hshape : Shape before.length s.stopped s.handle s.timers c') :
    (s.set before.length c').Inv before c' :=
  ⟨h.set_last c', h.past, hshape⟩

theorem microtask (h : s.Inv before c) : s.microtask = c.phase.isSettled := by
  have hbefore : before.any (fun c => c.phase.isSettled) = false := by
    refine List.any_eq_false.2 fun c' hc' => ?_
    rw [(busy_eq_false.1 (h.past c' hc')).1]
    decide
  rw [Loop.microtask, h.connections, List.any_append, hbefore, Bool.false_or, List.any_cons,
    List.any_nil, Bool.or_false]

theorem registering_last (h : s.Inv before c) :
    s.registering before.length = decide (c.phase = .registering) := by
  rw [registering, h.last, Option.any_some]

/-- The last connection is over before the loop is stopped: the next one is scheduled. -/
theorem scheduled {s : Loop} (hconnections : s.connections = before ++ [c])
    (hbefore : ∀ c' ∈ before, c'.busy = false) (hc : c.busy = false) (hstopped : s.stopped = false)
    (hhandle : s.handle = none) (htimers : s.timers = []) : (s.schedule opts).Inv before c := by
  rw [schedule, hstopped, if_neg Bool.false_ne_true]
  refine ⟨hconnections, hbefore, ?_⟩
  dsimp only
  rw [hhandle, htimers]
  exact .idle false _ hc

/-- The WebSocket of a registering subscriber closes, or that of a registered one. -/
theorem onClose (h : s.Inv before c) {socket : Socket} (htimers : s.timers = []) {phase : Phase}
    (hphase : (if socket.resolved then c.phase else Phase.settle false c.phase) = phase)
    (hend : phase = .returned ∨ s.stopped = true ∧ phase = .settled false) :
    ∃ c', (s.onClose opts before.length c socket).Inv before c' := by
  refine ⟨⟨phase, some { socket with readyState := .closed }⟩, ?_⟩
  rw [Loop.onClose, hphase, set_schedule]
  rcases Bool.eq_false_or_eq_true s.stopped with hs | hs
  · rw [schedule_of_stopped (by exact hs)]
    refine ⟨h.set_last _, h.past, ?_⟩
    change Shape _ s.stopped none s.timers _
    rw [hs, htimers]
    exact .ending (by simpa [hs, or_comm] using hend) (by simp)
  · refine scheduled (h.set_last _) h.past ?_ hs rfl htimers
    simpa [busy_eq_false, hs] using hend

theorem onSettled_false (h : s.Inv before c) (hhandle : s.handle = none) (htimers : s.timers = [])
    (hsocket : ∀ socket ∈ c.socket, socket.readyState = .closed ∨
      s.stopped = true ∧ socket.readyState = .closing) :
    ∃ c', (s.onSettled opts before.length c false).Inv before c' := by
  refine ⟨{ c with phase := .returned }, ?_⟩
  rw [onSettled, if_neg Bool.false_ne_true]
  rcases Bool.eq_false_or_eq_true s.stopped with hs | hs
  · rw [if_pos (by rw [set_stopped, hs])]
    refine h.set ?_
    rw [hs, hhandle, htimers]
    exact .ending (.inr rfl) (by simpa [hs, or_comm] using hsocket)
  · rw [if_neg (by rw [set_stopped, hs]; decide)]
    refine scheduled (h.set_last _) h.past ?_ hs hhandle htimers
    simpa [busy_eq_false, hs] using hsocket

theorem onConnection (h : s.Inv before c) {e : Event} (he : e.id = some before.length)
    (hmicro : c.phase.isSettled → e.isMicrotask) (ht : s.Timely e) :
    ∃ c', (s.onConnection opts before.length c e).Inv before c' := by
  have hshape := h.shape
  have hregistering := h.registering_last
  generalize hstopped : s.stopped = stopped at hshape
  generalize hhandle : s.handle = handle at hshape
  generalize htimers : s.timers = timers at hshape
  have hinv : ∀ c', Shape before.length stopped handle timers c' →
      (s.set before.length c').Inv before c' := fun c' hc' =>
    h.set (by rwa [hstopped, hhandle, htimers])
  -- One case for each shape of the last connection, and for each event that it hears of.
  cases hshape with
  | waiting _ await =>
    cases e with
    | reply id reply =>
      rw [Loop.onConnection]
      dsimp only
      rcases await.next reply with _ | _ | next
      · exact ⟨_, hinv _ (.failed stopped)⟩
      · exact ⟨_, hinv _ (.registering stopped (.inl rfl))⟩
      · exact ⟨_, hinv _ (.waiting stopped next)⟩
    | timeout => exact ⟨_, hinv _ (.waiting stopped await)⟩
    | _ => exact ⟨_, h⟩
  | failed =>
    cases e with
    | «continue» id => exact h.onSettled_false hhandle htimers (by simp)
    | timeout => exact ⟨_, hinv _ (.failed stopped)⟩
    | _ => exact ⟨_, h⟩
  | @registering _ readyState hopen =>
    cases e with
    | opened id =>
      rw [Loop.onConnection]
      dsimp only
      split_ifs
      · exact ⟨_, hinv _ (.registering stopped (.inr rfl))⟩
      · exact ⟨_, h⟩
    | registered id info =>
      obtain rfl : id = before.length := by simpa [Event.id] using he
      rw [Loop.onConnection]
      dsimp only
      split_ifs with hopened
      · -- The frame comes in time.
        have hs : s.stopped = false := by simpa [Timely, hregistering] using ht
        obtain rfl : stopped = false := hstopped.symm.trans hs
        subst hopened
        refine ⟨⟨.settled true, some ⟨.opened, true⟩⟩, h.set_last _, h.past, ?_⟩
        change Shape _ s.stopped s.handle s.timers _
        rw [hs, hhandle, htimers]
        exact .registered
      · exact ⟨_, h⟩
    | timeout id =>
      obtain rfl : id = before.length := by simpa [Event.id] using he
      simp [Timely, hregistering] at ht
    | error id =>
      obtain rfl : id = before.length := by simpa [Event.id] using he
      have hs : s.stopped = true := by simpa [Timely, hregistering] using ht
      obtain rfl : stopped = true := hstopped.symm.trans hs
      rw [Loop.onConnection]
      dsimp only
      rw [if_neg (by rcases hopen with rfl | rfl <;> decide)]
      exact ⟨_, hinv _ (.ending (.inl rfl) (by simp))⟩
    | close id =>
      obtain rfl : id = before.length := by simpa [Event.id] using he
      have hs : s.stopped = true := by simpa [Timely, hregistering] using ht
      rw [Loop.onConnection]
      dsimp only
      rw [if_neg (by rcases hopen with rfl | rfl <;> decide)]
      exact h.onClose htimers rfl (.inr ⟨hs, rfl⟩)
    | _ => exact ⟨_, h⟩
  | registered =>
    cases e with
    | «continue» id =>
      refine ⟨⟨.returned, some ⟨.opened, true⟩⟩, h.set_last _, h.past, ?_⟩
      change Shape _ s.stopped (some _) s.timers _
      rw [hstopped, htimers]
      exact .live (.inl rfl)
    | stop => exact ⟨_, h⟩
    | _ => exact absurd (hmicro rfl) Bool.false_ne_true
  | @live readyState hopen =>
    cases e with
    | opened id =>
      rw [Loop.onConnection]
      dsimp only
      rw [if_neg (by rcases hopen with rfl | rfl <;> decide)]
      exact ⟨_, h⟩
    | registered id info =>
      rw [Loop.onConnection]
      dsimp only
      split_ifs with hopened
      · refine ⟨⟨.returned, some ⟨readyState, true⟩⟩, h.set_last _, h.past, ?_⟩
        change Shape _ s.stopped s.handle s.timers _
        rw [hstopped, hhandle, htimers]
        exact .live hopen
      · exact ⟨_, h⟩
    | timeout => exact ⟨_, hinv _ (.live hopen)⟩
    | error id =>
      rw [Loop.onConnection]
      dsimp only
      rw [if_neg (by rcases hopen with rfl | rfl <;> decide)]
      exact ⟨_, hinv _ (.live (.inr rfl))⟩
    | close id =>
      rw [Loop.onConnection]
      dsimp only
      rw [if_neg (by rcases hopen with rfl | rfl <;> decide)]
      exact h.onClose htimers rfl (.inl rfl)
    | _ => exact ⟨_, h⟩
  | idle _ delay hover => exact ⟨c, by rwa [onConnection_of_over h.last hover]⟩
  | ending hphase hsocket =>
    have hsettle : Phase.settle false c.phase = c.phase := by
      rcases hphase with hphase | hphase <;> rw [hphase] <;> rfl
    obtain ⟨phase, socket⟩ := c
    dsimp only at hphase hsocket hsettle
    cases e with
    | «continue» id =>
      rcases hphase with rfl | rfl
      · refine h.onSettled_false hhandle htimers fun socket hs => ?_
        exact (hsocket socket hs).symm.imp_right fun hclosing => ⟨hstopped, hclosing⟩
      · exact ⟨_, h⟩
    | timeout id =>
      rw [Loop.onConnection, hsettle]
      exact ⟨_, by rwa [set_self h.last]⟩
    | reply =>
      rcases hphase with rfl | rfl <;> exact ⟨_, h⟩
    | opened id =>
      rcases socket with _ | socket
      · exact ⟨_, h⟩
      · rw [Loop.onConnection]
        dsimp only
        rw [if_neg fun hc => by simpa [hc] using hsocket socket rfl]
        exact ⟨_, h⟩
    | registered id info =>
      rcases socket with _ | socket
      · exact ⟨_, h⟩
      · rw [Loop.onConnection]
        dsimp only
        rw [if_neg fun hc => by simpa [hc] using hsocket socket rfl]
        exact ⟨_, h⟩
    | error id =>
      rcases socket with _ | socket
      · exact ⟨_, h⟩
      · rw [Loop.onConnection]
        dsimp only
        rw [hsettle]
        split_ifs
        · exact ⟨_, h⟩
        · exact ⟨_, hinv _ (.ending hphase (by simp))⟩
    | close id =>
      rcases socket with _ | socket
      · exact ⟨_, h⟩
      · rw [Loop.onConnection]
        dsimp only
        split_ifs
        · exact ⟨_, h⟩
        · have hkeep : (if socket.resolved then phase else Phase.settle false phase) = phase := by
            rw [hsettle, ite_self]
          refine h.onClose htimers hkeep ?_
          exact hphase.symm.imp_right fun hphase => ⟨hstopped, hphase⟩
    | _ => exact ⟨_, h⟩

/-- `stop` closes the WebSocket of the handle. -/
theorem stop (h : s.Inv before c) (ht : s.Timely .stop) : ∃ c', s.stop.Inv before c' := by
  have hshape := h.shape
  have hlast : c.phase ≠ .settled true := by
    have hc : c ∈ s.connections := by simp [h.connections]
    simpa using List.all_eq_true.1 ht c hc
  generalize hstopped : s.stopped = stopped at hshape
  generalize hhandle : s.handle = handle at hshape
  generalize htimers : s.timers = timers at hshape
  -- All shapes but that of a live connection have no handle.
  have hkeep : s.handle = none → Shape before.length true none s.timers c →
      s.stop.Inv before c := fun hhandle hc => by
    refine ⟨?_, h.past, hc⟩
    rw [← h.connections, Loop.stop, hhandle]
  rw [htimers] at hkeep
  cases hshape with
  | waiting _ await => exact ⟨_, hkeep hhandle (.waiting true await)⟩
  | failed => exact ⟨_, hkeep hhandle (.failed true)⟩
  | registering _ hopen => exact ⟨_, hkeep hhandle (.registering true hopen)⟩
  | registered => exact absurd rfl hlast
  | @live readyState hopen =>
    refine ⟨⟨.returned, some ⟨.closing, true⟩⟩, ?_, h.past, ?_⟩
    · have hclose : Connection.close ⟨.returned, some ⟨readyState, true⟩⟩ =
          ⟨.returned, some ⟨.closing, true⟩⟩ := by
        rcases hopen with rfl | rfl <;> rfl
      rw [Loop.stop, hhandle, h.connections]
      dsimp only
      rw [List.modify_eq_take_cons_drop (by simp)]
      simp [hclose]
    · change Shape _ true none s.timers _
      rw [htimers]
      exact .ending (.inr rfl) (by simp)
  | idle _ delay hover => exact ⟨_, hkeep hhandle (.idle true delay hover)⟩
  | ending hphase hsocket => exact ⟨_, hkeep hhandle (.ending hphase hsocket)⟩

/-- A timer starts the next connection, unless the loop is stopped. -/
theorem timer (h : s.Inv before c) {i : ℕ} (hi : i < s.timers.length) :
    ∃ before' c', (connect { s with timers := s.timers.eraseIdx i }).Inv before' c' := by
  have hshape := h.shape
  generalize hstopped : s.stopped = stopped at hshape
  generalize hhandle : s.handle = handle at hshape
  generalize htimers : s.timers = timers at hshape hi
  cases hshape with
  | idle _ delay hover =>
    have herase : [delay].eraseIdx i = [] := by
      rw [List.length_singleton, Nat.lt_one_iff] at hi
      rw [hi]
      rfl
    rw [herase, connect]
    dsimp only
    split_ifs with hs
    · refine ⟨before, c, h.connections, h.past, ?_⟩
      dsimp only
      rw [hs]
      obtain ⟨hphase, hsocket⟩ := busy_eq_false.1 hover
      exact .ending (.inr hphase) fun socket hc => .inr (hsocket socket hc)
    · refine ⟨before ++ [c], ⟨.waiting .nonceToken, none⟩, ?_, ?_, ?_⟩
      · rw [h.connections]
      · intro c' hc'
        rcases List.mem_append.1 hc' with hc' | hc'
        · exact h.past c' hc'
        · rwa [List.mem_singleton.1 hc']
      · exact .waiting stopped _
  | _ => exact absurd hi (Nat.not_lt_zero i)

/-- An event of an earlier connection changes nothing, one of the last one keeps the
    shape. -/
theorem onNamed (h : s.Inv before c) {e : Event} (hmicro : c.phase.isSettled → e.isMicrotask)
    (ht : s.Timely e) : ∃ c', (s.onNamed opts e).Inv before c' := by
  rw [Loop.onNamed]
  rcases he : e.id with _ | id
  · exact ⟨c, h⟩
  · rw [Option.bind_some]
    rcases Nat.lt_trichotomy id before.length with hid | rfl | hid
    · have hc : (before ++ [c])[id]? = before[id]? := List.getElem?_append_left hid
      rw [← h.connections, List.getElem?_eq_getElem hid] at hc
      rw [hc]
      dsimp only [Option.map_some]
      rw [onConnection_of_over hc (h.past _ (List.getElem_mem hid))]
      exact ⟨c, h⟩
    · rw [h.last]
      exact h.onConnection he hmicro ht
    · rw [List.getElem?_eq_none (by simp [h.connections]; omega)]
      exact ⟨c, h⟩

theorem step (h : s.Inv before c) {e : Event} (ht : s.Timely e) :
    ∃ before' c', (s.step opts e).Inv before' c' := by
  rw [Loop.step, h.microtask]
  split_ifs with hmicro
  · exact ⟨before, c, h⟩
  · have hmicro : c.phase.isSettled → e.isMicrotask := by simpa using hmicro
    cases e with
    | stop => exact ⟨before, h.stop ht⟩
    | timer i =>
      rw [onEvent]
      split_ifs with hi
      · exact h.timer hi
      · exact ⟨before, c, h⟩
    | _ => exact ⟨before, h.onNamed hmicro ht⟩

theorem single (h : s.Inv before c) : s.Single := by
  have hbefore : before.countP Connection.busy = 0 :=
    List.countP_eq_zero.2 fun c' hc' => by simp [h.past c' hc']
  have hactive : s.active = (if c.busy then 1 else 0) + s.timers.length := by
    rw [active, h.connections, List.countP_append, hbefore, Nat.zero_add, List.countP_singleton]
  have hclosed : (c.atRest → ∀ socket ∈ c.socket, socket.readyState = .closed) →
      (∀ c' ∈ s.connections, c'.atRest) →
        ∀ c' ∈ s.connections, ∀ socket ∈ c'.socket, socket.readyState = .closed := by
    intro hc hrest c' hc'
    rw [h.connections] at hc'
    rcases List.mem_append.1 hc' with hc' | hc'
    · exact (busy_eq_false.1 (h.past c' hc')).2
    · obtain rfl := List.mem_singleton.1 hc'
      exact hc (hrest c' (by simp [h.connections]))
  have hshape := h.shape
  generalize hstopped : s.stopped = stopped at hshape
  generalize hhandle : s.handle = handle at hshape
  generalize htimers : s.timers = timers at hshape hactive
  have hsingle : (if c.busy then 1 else 0) + timers.length = 1 →
      (stopped = true → c.atRest → ∀ socket ∈ c.socket, socket.readyState = .closed) →
      s.Single := fun hone hc =>
    ⟨by omega, fun _ => by omega, fun hs => hclosed (hc (hstopped.symm.trans hs))⟩
  cases hshape with
  | waiting | failed | registering _ _ | registered =>
    exact hsingle rfl fun _ hrest => by simp [Connection.atRest] at hrest
  | live hopen =>
    exact hsingle (by rcases hopen with rfl | rfl <;> rfl) fun hs => absurd hs Bool.false_ne_true
  | idle _ delay hover =>
    refine hsingle (by rw [hover]; rfl) fun _ _ => (busy_eq_false.1 hover).2
  | ending hphase hsocket =>
    refine ⟨?_, fun hs => absurd (hstopped.symm.trans hs) (by decide), fun _ => hclosed fun hrest => ?_⟩
    · rw [hactive]
      split_ifs <;> simp
    · intro socket hs
      refine (hsocket socket hs).resolve_left fun hclosing => ?_
      simp only [Connection.atRest, Bool.and_eq_true, Option.all_eq_true] at hrest
      simpa [hclosing] using hrest.2 socket hs

end Inv

@[simp] theorem schedule_connections (opts : ReconnectOptions) (s : Loop) :
    (s.schedule opts).connections = s.connections := by
  rw [schedule]
  split_ifs <;> rfl

@[simp] theorem length_set (s : Loop) (id : ℕ) (c : Connection) :
    (s.set id c).connections.length = s.connections.length := List.length_set

theorem length_onConnection (opts : ReconnectOptions) (s : Loop) (id : ℕ) (c : Connection)
    (e : Event) : (s.onConnection opts id c e).connections.length = s.connections.length := by
  cases e with
  | timer | stop => rfl
  | reply =>
    rw [onConnection]
    split
    · split <;> exact length_set ..
    · rfl
  | opened | registered =>
    rw [onConnection]
    split
    · split_ifs
      · exact length_set ..
      · rfl
    · rfl
  | timeout => exact length_set ..
  | error =>
    rw [onConnection]
    split
    · split_ifs
      · rfl
      · exact length_set ..
    · rfl
  | close =>
    rw [onConnection]
    split
    · split_ifs
      · rfl
      · rw [onClose, length_set, schedule_connections]
    · rfl
  | «continue» =>
    rw [onConnection]
    split
    · rw [onSettled]
      split_ifs <;> simp
    · rfl

/-- Only a timer adds a connection, and only before the loop is stopped. -/
theorem length_step (opts : ReconnectOptions) {s : Loop} (hs : s.stopped = true) (e : Event) :
    (s.step opts e).connections.length = s.connections.length := by
  rw [step]
  split_ifs
  · rfl
  · cases e with
    | stop =>
      rw [onEvent, stop]
      rcases s.handle with _ | id
      · rfl
      · exact List.length_modify ..
    | timer i =>
      rw [onEvent]
      split_ifs
      · rw [connect, if_pos (by exact hs)]
      · rfl
    | _ =>
      rw [onEvent, onNamed]
      split
      · exact length_onConnection ..
      · rfl
      all_goals simp

theorem inv_start (opts : ReconnectOptions) : (start opts).Inv [] ⟨.waiting .nonceToken, none⟩ :=
  ⟨rfl, by simp, .waiting false _⟩

/-- Along every run of timely events, there is one attempt, live socket or timer until the
    loop is stopped, and afterwards no new attempt and no socket left open. -/
theorem single_loop (opts : ReconnectOptions) (events : List Event)
    (h : Along (step opts) (fun s e => s.Timely e) (start opts) events) :
    (start opts).Single ∧ Along (step opts) (StaysSingle opts) (start opts) events := by
  have hstep : ∀ s e, (∃ before c, Inv s before c) → s.Timely e →
      s.StaysSingle opts e ∧ ∃ before c, (s.step opts e).Inv before c := by
    rintro s e ⟨before, c, hinv⟩ ht
    obtain ⟨before', c', hinv'⟩ : ∃ before' c', (s.step opts e).Inv before' c' := hinv.step ht
    exact ⟨⟨hinv'.single, fun hs => length_step opts hs e⟩, before', c', hinv'⟩
  exact ⟨(inv_start opts).single, along_of_inv hstep ⟨_, _, inv_start opts⟩ h⟩

def sampleOptions : ReconnectOptions := ⟨1000, 30000⟩

/-- The steps of `createSubscriber` up to its WebSocket. -/
def sampleRequest (id : ℕ) : List Event := List.replicate 5 (.reply id .ok)

/-- A subscriber that registers and ends, a nonce request that fails, and a `stop`. -/
def sampleRun : List Event :=
  sampleRequest 0 ++ [.opened 0, .registered 0 ⟨"sub", "did:web:sub"⟩, .continue 0, .error 0,
    .close 0, .timer 0, .reply 1 .throws, .continue 1, .timer 0, .stop]

theorem single_loop_sampleRun : (start sampleOptions).Single ∧
    Along (step sampleOptions) (StaysSingle sampleOptions) (start sampleOptions) sampleRun :=
  single_loop sampleOptions sampleRun (by decide)

/-- The WebSocket of a first attempt fails: its `error` event schedules the next attempt,
    and its `close` event another one. -/
theorem not_single_loop : ¬ ∀ (opts : ReconnectOptions) (events : List Event),
    (start opts).Single ∧ Along (step opts) (StaysSingle opts) (start opts) events := by
  intro h
  obtain ⟨_, _, _, _, _, _, _, _, ⟨hclose, _⟩, _⟩ :=
    h sampleOptions (sampleRequest 0 ++ [.error 0, .continue 0, .close 0])
  exact absurd hclose.atMostOne (by decide)

end Loop

end Subscriber

end ComputeContract
