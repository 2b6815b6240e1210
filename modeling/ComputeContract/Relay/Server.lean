import ComputeContract.Relay.Nonce
import ComputeContract.Relay.Relay

/-!
# The relay server

The handlers of the relay over its state, one event at a time. A subscriber opens a
socket with its did and a registration, which is verified across an `await`: in between,
and at any time, the events of other sockets come in. The server also records which
sockets were registered, which have closed, and which requests were dispatched.

A run is a list of events. `Event.Possible` says what the platform promises of them: ids
are fresh, a socket is verified once.
-/

namespace ComputeContract

open AssocList

/-- The subdomain of a did; dids are ASCII. -/
def didToSubdomain (did : String) : String :=
  String.ofList (did.toList.map fun c => if c = ':' then '-' else c.toLower)

/-- A frame of a subscriber; `other` is any that is not handled. -/
inductive SubscriberFrame
  | response (requestId : Option String) (result : RelayResult)
  | subscriptionOpen
  | subscriptionEvent (subscriptionId : Option String) (message : Json)
  | subscriptionClose (subscriptionId : Option String) (code : Option ℤ) (reason : Option String)
  | other

structure Server where
  opts : RelayOptions
  hostname : String
  relay : RelayState
  /-- The did that each subscriber socket was opened with. -/
  clients : List (SocketId × String)
  /-- The sockets whose registration is being verified. -/
  verifying : List SocketId
  /-- The registrations that succeeded, in order. -/
  registrations : List (String × SocketId)
  /-- The sockets that had a close or an error event. -/
  gone : List SocketId
  /-- The requests that were dispatched. -/
  dispatched : List String

inductive Event
  /-- A subscriber socket opens, with its query; the registration may not be JSON. -/
  | opened (ws : SocketId) (clientDid : String) (wellFormed : Bool)
  /-- The registration was verified. `sendThrows` tells which sends throw. -/
  | verified (ws : SocketId) (result : VerifyResult) (sendThrows : String → Bool)
  | message (ws : SocketId) (frame : SubscriberFrame)
  | close (ws : SocketId)
  | error (ws : SocketId)
  /-- The `readyState` of a socket leaves `OPEN`. -/
  | closing (ws : SocketId)
  | dispatch (subdomain requestId frame : String) (sendThrows : String → Bool)
  | timer (timer : ℕ)
  | callerOpen (caller : SocketId) (subdomain subscriptionId nsid : String)
      (params : List (String × String))
  | callerClose (subscriptionId : String)
  | callerError (subscriptionId : String)

namespace Server

def new (opts : RelayOptions) (hostname : String) : Server :=
  ⟨opts, hostname, .new, [], [], [], [], []⟩

/-- `close` on a socket of the server. -/
def closeSocket (s : Server) (ws : SocketId) : Server := { s with relay := s.relay.closeSocket ws }

def subdomainOf (s : Server) (ws : SocketId) : Option String := (s.clients.lookup ws).map didToSubdomain

/-- `onOpen`, up to the verification. -/
def onOpen (s : Server) (ws : SocketId) (clientDid : String) (wellFormed : Bool) : Server :=
  let s := { s with clients := (ws, clientDid) :: s.clients }
  if "did:key:".toList.isPrefixOf clientDid.toList ∧ wellFormed then
    { s with verifying := ws :: s.verifying }
  else s.closeSocket ws

/-- A verified socket becomes the one of its subdomain, and gets what was queued. -/
def register (s : Server) (subdomain : String) (ws : SocketId) (sendThrows : String → Bool) :
    Server :=
  let relay := { s.relay with subscribers := set subdomain ws s.relay.subscribers }
  let out := relay.flushReconnectQueue subdomain ws sendThrows
  let proxyRef := "did:web:" ++ subdomain ++ "." ++ s.hostname
  let relay := if out.2 then
      { out.1 with sent := out.1.sent ++ [(ws, .registered subdomain proxyRef)] }
    else out.1
  { s with relay := relay, registrations := s.registrations ++ [(subdomain, ws)] }

/-- `onOpen`, after the verification. -/
def onVerified (s : Server) (ws : SocketId) (result : VerifyResult) (sendThrows : String → Bool) :
    Server :=
  let s' := { s with verifying := s.verifying.filter (· ≠ ws) }
  match s.clients.lookup ws, result with
  | some clientDid, .ok key =>
    if key ≠ clientDid then s'.closeSocket ws
    else s'.register (didToSubdomain clientDid) ws sendThrows
  | _, .rejected _ => s'.closeSocket ws
  | _, _ => s'

/-- The verification registers the socket. -/
def Succeeds (s : Server) (ws : SocketId) (result : VerifyResult) : Prop :=
  ∃ clientDid, s.clients.lookup ws = some clientDid ∧ result = .ok clientDid

/-- What comes of a verification. -/
theorem onVerified_cases (s : Server) (ws : SocketId) (result : VerifyResult)
    (sendThrows : String → Bool) :
    let s' := { s with verifying := s.verifying.filter (· ≠ ws) }
    (∃ clientDid, s.clients.lookup ws = some clientDid ∧ result = .ok clientDid ∧
      s.onVerified ws result sendThrows = s'.register (didToSubdomain clientDid) ws sendThrows) ∨
    (¬ s.Succeeds ws result ∧ (s.onVerified ws result sendThrows = s' ∨
      s.onVerified ws result sendThrows = s'.closeSocket ws)) := by
  cases hws : s.clients.lookup ws with
  | none =>
    have hfail : ¬ s.Succeeds ws result := fun ⟨clientDid, h, _⟩ => by
      rw [hws] at h
      cases h
    refine .inr ⟨hfail, ?_⟩
    unfold onVerified
    rw [hws]
    cases result with
    | rejected => exact .inr rfl
    | ok => exact .inl rfl
    | thrown => exact .inl rfl
  | some clientDid =>
    unfold onVerified
    rw [hws]
    cases result with
    | ok key =>
      by_cases hkey : key = clientDid
      · exact .inl ⟨clientDid, rfl, by rw [hkey], if_neg (not_not.2 hkey)⟩
      · refine .inr ⟨fun ⟨did, h, hres⟩ => hkey ?_, .inr (if_pos hkey)⟩
        cases hres
        exact Option.some.inj (h.symm.trans hws)
    | rejected => exact .inr ⟨fun ⟨_, _, h⟩ => (by cases h), .inr rfl⟩
    | thrown => exact .inr ⟨fun ⟨_, _, h⟩ => (by cases h), .inl rfl⟩

def onMessage (s : Server) : SubscriberFrame → Server
  | .response requestId result =>
    match truthy requestId with
    | none => s
    | some requestId => { s with relay := s.relay.handleResponse requestId result }
  | .subscriptionEvent subId message =>
    match truthy subId with
    | none => s
    | some subId => { s with relay := s.relay.handleSubscriptionEvent subId message }
  | .subscriptionClose subId code reason =>
    match truthy subId with
    | none => s
    | some subId => { s with relay := s.relay.handleSubscriptionClose subId (code.getD 1000) reason }
  | .subscriptionOpen | .other => s

/-- `onClose`, and `onError` alike. -/
def onClose (s : Server) (ws : SocketId) : Server :=
  match s.subdomainOf ws with
  | none => s
  | some subdomain =>
    let relay := { s.relay with subscribers := erase subdomain s.relay.subscribers }
    let relay := relay.drainToReconnectQueue subdomain
    { s with
      relay := relay.rejectSubscriberSubscriptions subdomain
      gone := ws :: s.gone }

def onCallerOpen (s : Server) (caller : SocketId) (subdomain subscriptionId nsid : String)
    (params : List (String × String)) : Server :=
  match (s.relay.subscribers.lookup subdomain).filter s.relay.isOpen with
  | none => s.closeSocket caller
  | some subWs =>
    { s with relay := { s.relay with
        activeSubscriptions :=
          set subscriptionId ⟨caller, subdomain, nsid⟩ s.relay.activeSubscriptions
        sent := s.relay.sent ++ [(subWs, .subscribe subscriptionId nsid params)] } }

def onCallerClose (s : Server) (subscriptionId : String) : Server :=
  match s.relay.activeSubscriptions.lookup subscriptionId with
  | none => s
  | some sub =>
    let relay := { s.relay with
      activeSubscriptions := erase subscriptionId s.relay.activeSubscriptions }
    match (relay.subscribers.lookup sub.subdomain).filter s.relay.isOpen with
    | none => { s with relay := relay }
    | some subWs =>
      { s with relay := { relay with
          sent := relay.sent ++ [(subWs, .subscriptionCancel subscriptionId "caller disconnected")] } }

def onCallerError (s : Server) (subscriptionId : String) : Server :=
  { s with relay := { s.relay with
      activeSubscriptions := erase subscriptionId s.relay.activeSubscriptions } }

def step (s : Server) : Event → Server
  | .opened ws clientDid wellFormed => s.onOpen ws clientDid wellFormed
  | .verified ws result sendThrows => s.onVerified ws result sendThrows
  | .message _ frame => s.onMessage frame
  | .close ws => (s.closeSocket ws).onClose ws
  | .error ws => s.onClose ws
  | .closing ws => s.closeSocket ws
  | .dispatch subdomain requestId frame sendThrows =>
    { s with
      relay := s.relay.dispatchRequest subdomain requestId frame sendThrows
      dispatched := s.dispatched ++ [requestId] }
  | .timer timer => { s with relay := s.relay.fire s.opts timer }
  | .callerOpen caller subdomain subscriptionId nsid params =>
    s.onCallerOpen caller subdomain subscriptionId nsid params
  | .callerClose subscriptionId => s.onCallerClose subscriptionId
  | .callerError subscriptionId => s.onCallerError subscriptionId

/-- What the platform promises of an event: a socket is opened once and verified once
    after that, and the ids are fresh. -/
def Possible (s : Server) : Event → Prop
  | .opened ws _ _ => ws ∉ keys s.clients
  | .verified ws _ _ => ws ∈ s.verifying
  | .dispatch _ requestId _ _ => requestId ∉ s.dispatched
  | _ => True

/-- The states that a server reaches, by events that are possible and `ok`. -/
inductive Reachable (ok : Server → Event → Prop) : Server → Prop
  | new (opts : RelayOptions) (hostname : String) : Reachable ok (new opts hostname)
  | step {s : Server} (e : Event) : Reachable ok s → s.Possible e → ok s e → Reachable ok (s.step e)

/-- An invariant of the steps holds in every state reached. -/
theorem Reachable.induction {ok : Server → Event → Prop} {P : Server → Prop}
    (hnew : ∀ opts hostname, P (Server.new opts hostname))
    (hstep : ∀ s e, P s → s.Possible e → ok s e → P (s.step e)) {s : Server}
    (h : Reachable ok s) : P s := by
  induction h with
  | new opts hostname => exact hnew opts hostname
  | step e _ hp hok ih => exact hstep _ e ih hp hok

/-- A run under a condition is a run. -/
theorem Reachable.imp {ok : Server → Event → Prop} {s : Server} (h : Reachable ok s) :
    Reachable (fun _ _ => True) s := by
  induction h with
  | new opts hostname => exact .new opts hostname
  | step e _ hp _ ih => exact ih.step e hp trivial

end Server

end ComputeContract
