import ComputeContract.Lib.AssocList
import ComputeContract.Util.Json

/-!
# The state of the relay

The class `RelayState`: the socket of each subdomain, the requests that wait for a
response, those that wait for a subscriber to come back, and the open subscriptions. A
request is named by its id, its promise by the same; a timer by the number that
`setTimeout` gives, in the table of those armed.

The state also has the sockets whose `readyState` has left `OPEN`, and it records what
the relay did: the calls that settle promises, and what is sent to subscribers and to
callers.
-/

namespace ComputeContract

open AssocList

/-- A web socket. -/
abbrev SocketId := ℕ

structure RelayResult where
  status : Json
  body : Json
  contentType : Option String

/-- A call that settles a promise. -/
inductive Settlement
  | resolve (result : RelayResult)
  | reject (message : String)

structure PendingRequest where
  subdomain : String
  timer : ℕ
  frame : String
  deriving DecidableEq

structure QueuedRelay where
  requestId : String
  frame : String

structure ReconnectQueue where
  entries : List QueuedRelay
  graceTimer : ℕ

structure ActiveSubscription where
  callerWs : SocketId
  subdomain : String
  nsid : String

/-- What the relay sends to a subscriber. -/
inductive RelayFrame
  | registered (subdomain proxyRef : String)
  /-- A request, as it was framed. -/
  | request (frame : String)
  | subscribe (subscriptionId nsid : String) (params : List (String × String))
  | subscriptionCancel (subscriptionId reason : String)

/-- What a timer does when it fires. -/
inductive TimerTask
  | relayTimeout (requestId : String)
  | reconnectGrace (subdomain : String)

/-- What the caller of a subscription gets. -/
inductive CallerEvent
  | send (message : Json)
  | close (code : ℤ) (reason : Option String)

structure RelayOptions where
  relayTimeoutMs : ℕ
  reconnectGraceMs : ℕ

structure RelayState where
  subscribers : List (String × SocketId)
  pendingRequests : List (String × PendingRequest)
  reconnectQueues : List (String × ReconnectQueue)
  activeSubscriptions : List (String × ActiveSubscription)
  /-- The armed timers. -/
  timers : List (ℕ × TimerTask)
  nextTimer : ℕ
  /-- The sockets whose `readyState` is not `OPEN` any more. -/
  notOpen : List SocketId
  /-- The calls that settled a promise. -/
  settled : List (String × Settlement)
  /-- What was sent to subscribers. -/
  sent : List (SocketId × RelayFrame)
  /-- What the callers of subscriptions got. -/
  callerEvents : List (String × CallerEvent)

namespace RelayState

def new : RelayState := ⟨[], [], [], [], [], 1, [], [], [], []⟩

def isOpen (s : RelayState) (ws : SocketId) : Bool := ws ∉ s.notOpen

/-- `close` on a socket: it is not open any more, its close event comes later. -/
def closeSocket (s : RelayState) (ws : SocketId) : RelayState := { s with notOpen := ws :: s.notOpen }

/-! ## Timers and promises -/

def setTimeout (s : RelayState) (task : TimerTask) : ℕ × RelayState :=
  (s.nextTimer, { s with timers := (s.nextTimer, task) :: s.timers, nextTimer := s.nextTimer + 1 })

/-- `clearTimeout`, on each of the timers. -/
def clearTimeouts (s : RelayState) (timers : List ℕ) : RelayState :=
  { s with timers := s.timers.filter fun t => t.1 ∉ timers }

def settle (s : RelayState) (requestId : String) (settlement : Settlement) : RelayState :=
  { s with settled := s.settled ++ [(requestId, settlement)] }

/-! ## Reconnecting -/

def drainToReconnectQueue (s : RelayState) (subdomain : String) : RelayState :=
  let existing := s.reconnectQueues.lookup subdomain
  let s := s.clearTimeouts (existing.map ReconnectQueue.graceTimer).toList
  let drained := s.pendingRequests.filter fun p => p.2.subdomain = subdomain
  let s := s.clearTimeouts (drained.map fun p => p.2.timer)
  let s := { s with pendingRequests := s.pendingRequests.filter fun p => p.2.subdomain ≠ subdomain }
  let entries := (existing.map ReconnectQueue.entries).getD [] ++
    drained.map fun p => ⟨p.1, p.2.frame⟩
  let (graceTimer, s) := s.setTimeout (.reconnectGrace subdomain)
  { s with reconnectQueues := set subdomain ⟨entries, graceTimer⟩ s.reconnectQueues }

/-- A request goes out on a socket, with its timeout armed; the second component tells
    whether the `send` returned. -/
def sendRequest (s : RelayState) (subdomain : String) (ws : SocketId) (sendThrows : String → Bool)
    (request : QueuedRelay) : RelayState × Bool :=
  let (timer, s) := s.setTimeout (.relayTimeout request.requestId)
  let s := { s with
    pendingRequests := set request.requestId ⟨subdomain, timer, request.frame⟩ s.pendingRequests }
  if sendThrows request.requestId then (s, false)
  else ({ s with sent := s.sent ++ [(ws, .request request.frame)] }, true)

/-- The loop over the entries of a queue, up to a `send` that throws. -/
def flushEntries (subdomain : String) (ws : SocketId) (sendThrows : String → Bool) (s : RelayState) :
    List QueuedRelay → RelayState × Bool
  | [] => (s, true)
  | entry :: entries =>
    let out := s.sendRequest subdomain ws sendThrows entry
    if out.2 then flushEntries subdomain ws sendThrows out.1 entries else out

def flushReconnectQueue (s : RelayState) (subdomain : String) (ws : SocketId)
    (sendThrows : String → Bool) : RelayState × Bool :=
  match s.reconnectQueues.lookup subdomain with
  | none => (s, true)
  | some queue =>
    let s := s.clearTimeouts [queue.graceTimer]
    let s := { s with reconnectQueues := erase subdomain s.reconnectQueues }
    flushEntries subdomain ws sendThrows s queue.entries

/-- The subscriptions of the subdomain are dropped; callers that are open are told. -/
def rejectSubscriberSubscriptions (s : RelayState) (subdomain : String) : RelayState :=
  let dropped := s.activeSubscriptions.filter fun sub => sub.2.subdomain = subdomain
  let told := dropped.filter fun sub => s.isOpen sub.2.callerWs
  { s with
    activeSubscriptions := s.activeSubscriptions.filter fun sub => sub.2.subdomain ≠ subdomain
    notOpen := told.map (fun sub => sub.2.callerWs) ++ s.notOpen
    callerEvents := s.callerEvents ++
      told.map fun sub => (sub.1, .close 4001 (some "subscriber disconnected")) }

/-! ## Requests -/

def dispatchRequest (s : RelayState) (subdomain requestId frame : String)
    (sendThrows : String → Bool) : RelayState :=
  match (s.subscribers.lookup subdomain).filter s.isOpen with
  | none =>
    match s.reconnectQueues.lookup subdomain with
    | none => s.settle requestId (.reject ("no active subscriber for subdomain " ++ subdomain ++
        " (did:key with colons replaced by hyphens)"))
    | some queue =>
      { s with
        reconnectQueues := set subdomain
          { queue with entries := queue.entries ++ [⟨requestId, frame⟩] } s.reconnectQueues }
  | some ws =>
    let out := s.sendRequest subdomain ws sendThrows ⟨requestId, frame⟩
    -- What the executor of a promise throws rejects the promise.
    if out.2 then out.1 else out.1.settle requestId (.reject "readyState not OPEN")

def handleResponse (s : RelayState) (requestId : String) (result : RelayResult) : RelayState :=
  match s.pendingRequests.lookup requestId with
  | none => s
  | some pending =>
    let s := s.clearTimeouts [pending.timer]
    let s := { s with pendingRequests := erase requestId s.pendingRequests }
    s.settle requestId (.resolve result)

def handleSubscriptionEvent (s : RelayState) (subId : String) (message : Json) : RelayState :=
  match s.activeSubscriptions.lookup subId with
  | none => s
  | some sub =>
    if s.isOpen sub.callerWs then
      { s with callerEvents := s.callerEvents ++ [(subId, .send message)] }
    else s

def handleSubscriptionClose (s : RelayState) (subId : String) (code : ℤ) (reason : Option String) :
    RelayState :=
  match s.activeSubscriptions.lookup subId with
  | none => s
  | some sub =>
    let s' := { s with activeSubscriptions := erase subId s.activeSubscriptions }
    if s.isOpen sub.callerWs then
      closeSocket { s' with callerEvents := s'.callerEvents ++ [(subId, .close code reason)] }
        sub.callerWs
    else s'

/-- A timer fires. -/
def fire (opts : RelayOptions) (s : RelayState) (timer : ℕ) : RelayState :=
  match s.timers.lookup timer with
  | none => s
  | some task =>
    let s := s.clearTimeouts [timer]
    match task with
    | .relayTimeout requestId =>
      let s := { s with pendingRequests := erase requestId s.pendingRequests }
      s.settle requestId (.reject s!"relay timeout after {opts.relayTimeoutMs}ms")
    | .reconnectGrace subdomain =>
      -- The closure holds the array of the queue, as long as its timer is armed.
      let entries := ((s.reconnectQueues.lookup subdomain).map ReconnectQueue.entries).getD []
      let s := { s with reconnectQueues := erase subdomain s.reconnectQueues }
      { s with
        settled := s.settled ++ entries.map fun e =>
          (e.requestId, .reject ("subscriber for " ++ subdomain ++ " did not reconnect in time")) }

end RelayState

end ComputeContract
