import ComputeContract.Lib.Along
import ComputeContract.Market.Resolve

/-!
# The bidder's contracts

`submitAccept` provisions a VM and tracks it in `activeContracts` under its receipt,
`submitEvent` destroys it. Requests wait for other services and run in between: a request is
pending at an `await`, and each answer takes it to the next.

* `answerAccept`, `answerEvent`: what a request does with an answer;
* `Tracking`: what should hold of the machines in every state.
-/

namespace ComputeContract.Bidder

open AssocList Market

/-! ## Data -/

structure Ref where
  uri : String
  cid : String
  deriving DecidableEq

/-- A stable key identifying one record version. -/
def refKey (ref : Ref) : String := ref.uri ++ "#" ++ ref.cid

inductive ProviderId
  | undefined
  | number (n : ℕ)
  | text (s : String)
  deriving DecidableEq

/-- `providerId !== undefined && providerId !== 0` -/
def ProviderId.tracked (id : ProviderId) : Bool := id ≠ .undefined && id ≠ .number 0

structure ActiveContract where
  providerId : ProviderId
  acceptAuthor : String
  deriving DecidableEq

/-- The issuer of a verified token, and the service its `aud` matched. -/
structure Auth where
  issuerDid : String
  serviceId : Option String
  deriving DecidableEq

/-- The fields of an event that are read; a ref that is none throws. -/
structure MarketEvent where
  type : Option String
  receipt : Option Ref
  payload : Option Ref
  deriving DecidableEq

def EVENT_NSID : String := "com.publicdomainrelay.temp.market.event"

def COMPUTE_EVENTS_VM_DELETE_NSID : String :=
  "com.publicdomainrelay.temp.compute.events.vm.delete"

def COMPUTE_EVENT_SERVICE_ID : String := "pdr_temp_compute_event"

/-- A request at an `await`. -/
inductive Pending
  /-- `verifyMarketServiceAuth` -/
  | authorizeAccept (accept : Ref)
  | resolveAccept (accept : Ref) (issuerDid : String)
  /-- `verifyAuthored`, of the accept with this `_uri` -/
  | verifyAccept (accept : Ref) (issuerDid uri : String)
  /-- `resolveContractGraph` and `verifyAcceptPayload` -/
  | settle (accept : Ref) (issuerDid requesterDid : String)
  | provision (accept : Ref) (issuerDid requesterDid : String)
  | createReceipt (accept : Ref) (issuerDid requesterDid : String) (providerId : ProviderId)
  /-- `verifyMarketServiceAuth` -/
  | authorizeEvent (event : Ref)
  | resolveEvent (ref : Ref) (auth : Auth)
  /-- `verifyAuthored` -/
  | verifyEvent (ref : Ref) (auth : Auth) (event : MarketEvent)
  | resolveReceipt (receipt payload : Ref) (issuerDid : String)
  | resolvePayload (receipt payload : Ref) (issuerDid : String)
  | destroy (receipt : Ref) (issuerDid : String) (contract : ActiveContract)
  deriving DecidableEq

/-- What is awaited comes. -/
inductive Answer
  | auth (result : Except String Auth)
  /-- The `_uri` of the accept. -/
  | accept (result : Except String String)
  | signed (ok : Bool)
  | settled (result : Except String Unit)
  | provisioned (result : Except String ProviderId)
  /-- The receipt that was created. -/
  | receipt (result : Except String Ref)
  | event (result : Except String MarketEvent)
  /-- The `accept.uri` of a receipt. -/
  | receiptRecord (result : Except String String)
  | payload (result : Except String Unit)
  | destroyed (result : Except String Unit)

/-- How a request ends. -/
inductive Reply
  | error (error message : String) (status : ℕ)
  | ok
  | accepted (id : String) (receipt : Ref)
  | thrown (message : String)
  deriving DecidableEq

/-- What happens outside. -/
inductive Effect
  | provisioned (id : ProviderId) (accept : Ref)
  | receipt (receipt accept : Ref)
  /-- A reply, to the issuer of its token. -/
  | replied (issuerDid : Option String) (reply : Reply)
  | destroyed (id : ProviderId) (receipt : Ref) (issuerDid : String)
  deriving DecidableEq

/-- What an answer leads to: the request waits again, or has ended with the last effect. -/
structure Result where
  activeContracts : List (String × ActiveContract)
  effects : List Effect
  next : Option Pending

/-! ## Requests -/

section
variable (activeContracts : List (String × ActiveContract))

def waits (next : Pending) : Result := ⟨activeContracts, [], some next⟩

def replies (issuerDid : Option String) (reply : Reply) : Result :=
  ⟨activeContracts, [.replied issuerDid reply], none⟩

def throws (issuerDid : Option String) (message : String) : Result :=
  replies activeContracts issuerDid (.thrown message)

/-- Once the token has verified: its issuer has to author the record. -/
def authorize (uri : String) (result : Except String Auth) (next : Auth → Pending) : Result :=
  match result with
  | .error err => replies activeContracts none
      (.error "Unauthorized" ("invalid service-auth token: " ++ err) 401)
  | .ok auth =>
    if auth.issuerDid ≠ atUriAuthority uri then
      replies activeContracts (some auth.issuerDid) (.error "Forbidden"
        "service-auth token issuer must author the referenced record" 403)
    else waits activeContracts (next auth)

def notSigned (issuerDid : String) : Result :=
  replies activeContracts (some issuerDid)
    (.error "InvalidRequest" "record is missing a valid badge.blue signature" 400)

/-- The last segment of the receipt's `uri`. -/
def receiptId (receipt : Ref) : String :=
  (((receipt.uri.toList.splitOn '/').map String.ofList).getLast?).getD ""

/-- The last part of `onAccept`: the receipt is there. -/
def track (accept : Ref) (issuerDid requesterDid : String) (providerId : ProviderId)
    (receipt : Ref) : Result :=
  let tracked :=
    if providerId.tracked then set (refKey receipt) ⟨providerId, requesterDid⟩ activeContracts
    else activeContracts
  ⟨tracked, [.receipt receipt accept,
    .replied (some issuerDid) (.accepted (receiptId receipt) receipt)], none⟩

/-- `submitAccept`; `none` for an answer to something else. -/
def answerAccept : Pending → Answer → Option Result
  | .authorizeAccept accept, .auth result =>
    authorize activeContracts accept.uri result fun auth => .resolveAccept accept auth.issuerDid
  | .resolveAccept _ issuerDid, .accept (.error err) => throws activeContracts (some issuerDid) err
  | .resolveAccept accept issuerDid, .accept (.ok uri) =>
    waits activeContracts (.verifyAccept accept issuerDid uri)
  | .verifyAccept accept issuerDid uri, .signed ok =>
    if ok then waits activeContracts (.settle accept issuerDid (parseAtUri uri).repo)
    else notSigned activeContracts issuerDid
  | .settle _ issuerDid _, .settled (.error err) => throws activeContracts (some issuerDid) err
  | .settle accept issuerDid requesterDid, .settled (.ok ()) =>
    waits activeContracts (.provision accept issuerDid requesterDid)
  | .provision _ issuerDid _, .provisioned (.error err) =>
    throws activeContracts (some issuerDid) err
  | .provision accept issuerDid requesterDid, .provisioned (.ok providerId) =>
    some ⟨activeContracts, [.provisioned providerId accept],
      some (.createReceipt accept issuerDid requesterDid providerId)⟩
  | .createReceipt _ issuerDid _ _, .receipt (.error err) =>
    throws activeContracts (some issuerDid) err
  | .createReceipt accept issuerDid requesterDid providerId, .receipt (.ok receipt) =>
    track activeContracts accept issuerDid requesterDid providerId receipt
  | _, _ => none

/-- The service that the token names or else the only one, and the payload's type. -/
def isVmDelete (auth : Auth) (payload : Ref) : Bool :=
  auth.serviceId.getD COMPUTE_EVENT_SERVICE_ID = COMPUTE_EVENT_SERVICE_ID &&
    (parseAtUri payload.uri).collection = some COMPUTE_EVENTS_VM_DELETE_NSID

/-- The event is dispatched, and `assertRunningCompute`. -/
def dispatch (auth : Auth) (event : MarketEvent) : Result :=
  match event.payload with
  | none => throws activeContracts (some auth.issuerDid) "TypeError"
  | some payload =>
    if isVmDelete auth payload then
      match event.receipt with
      | none => throws activeContracts (some auth.issuerDid) "TypeError"
      | some receipt =>
        match activeContracts.lookup (refKey receipt) with
        | none => replies activeContracts (some auth.issuerDid)
            (.error "InvalidRequest" "unknown receipt" 400)
        | some _ => waits activeContracts (.resolveReceipt receipt payload auth.issuerDid)
    else replies activeContracts (some auth.issuerDid) .ok

/-- The author of the accept that the receipt names has to be the issuer. -/
def checkAuthor (receipt payload : Ref) (issuerDid acceptUri : String) : Result :=
  if issuerDid ≠ (parseAtUri acceptUri).repo then
    replies activeContracts (some issuerDid)
      (.error "Forbidden" "only the market.accept issuer may delete" 403)
  else waits activeContracts (.resolvePayload receipt payload issuerDid)

/-- `deleteRunningCompute`, up to the destruction. -/
def deleteRunningCompute (receipt : Ref) (issuerDid : String) : Result :=
  match activeContracts.lookup (refKey receipt) with
  | none => throws activeContracts (some issuerDid) "TypeError"
  | some contract => waits activeContracts (.destroy receipt issuerDid contract)

/-- `submitEvent`; `none` for an answer to something else. -/
def answerEvent : Pending → Answer → Option Result
  | .authorizeEvent event, .auth result =>
    authorize activeContracts event.uri result fun auth => .resolveEvent event auth
  | .resolveEvent _ auth, .event (.error err) => throws activeContracts (some auth.issuerDid) err
  | .resolveEvent ref auth, .event (.ok event) =>
    if (event.type.filter (· ≠ "")).getD EVENT_NSID = EVENT_NSID then
      waits activeContracts (.verifyEvent ref auth event)
    else replies activeContracts (some auth.issuerDid)
      (.error "InvalidRequest" ("expected " ++ EVENT_NSID) 400)
  | .verifyEvent _ auth event, .signed ok =>
    if ok then dispatch activeContracts auth event else notSigned activeContracts auth.issuerDid
  | .resolveReceipt _ _ issuerDid, .receiptRecord (.error err) =>
    throws activeContracts (some issuerDid) err
  | .resolveReceipt receipt payload issuerDid, .receiptRecord (.ok acceptUri) =>
    checkAuthor activeContracts receipt payload issuerDid acceptUri
  | .resolvePayload _ _ issuerDid, .payload (.error err) =>
    throws activeContracts (some issuerDid) err
  | .resolvePayload receipt _ issuerDid, .payload (.ok ()) =>
    deleteRunningCompute activeContracts receipt issuerDid
  | .destroy _ issuerDid _, .destroyed (.error err) => throws activeContracts (some issuerDid) err
  | .destroy receipt issuerDid contract, .destroyed (.ok ()) =>
    some ⟨erase (refKey receipt) activeContracts,
      [.destroyed contract.providerId receipt issuerDid, .replied (some issuerDid) .ok], none⟩
  | _, _ => none

/-- A request takes an answer. -/
def answer (p : Pending) (a : Answer) : Option Result :=
  (answerAccept activeContracts p a).or (answerEvent activeContracts p a)

end

/-! ## Runs -/

structure State where
  activeContracts : List (String × ActiveContract)
  pending : List Pending
  log : List Effect
  deriving DecidableEq

inductive Event
  /-- A body with these fields. -/
  | submitAccept (acceptUri acceptCid : String)
  /-- A body with these fields, and whether `record` has its parts. -/
  | submitEvent (uri cid : String) (record : Bool)
  /-- The answer to a request that is pending. -/
  | answer (i : ℕ) (a : Answer)

/-- The request that is pending at `i` takes an answer. -/
def resume (s : State) (i : ℕ) (a : Answer) : State :=
  match s.pending[i]? with
  | none => s
  | some p =>
    match answer s.activeContracts p a with
    | none => s
    | some r => ⟨r.activeContracts, r.next.toList ++ s.pending.eraseIdx i, s.log ++ r.effects⟩

/-- A request comes in, unless its body has not all its parts. -/
def receive (s : State) (complete : Bool) (p : Pending) (missing : String) : State :=
  if complete then { s with pending := p :: s.pending }
  else { s with log := s.log ++ [.replied none (.error "InvalidRequest" missing 400)] }

/-- A request comes in, or one goes on. -/
def step (s : State) : Event → State
  | .submitAccept acceptUri acceptCid =>
    receive s (acceptUri ≠ "" && acceptCid ≠ "") (.authorizeAccept ⟨acceptUri, acceptCid⟩)
      "missing acceptUri or acceptCid"
  | .submitEvent uri cid record =>
    receive s (uri ≠ "" && cid ≠ "" && record) (.authorizeEvent ⟨uri, cid⟩)
      "missing uri, cid, or record"
  | .answer i a => resume s i a

def start : State := ⟨[], [], []⟩

/-! ## Tracking -/

def Destroyed (log : List Effect) (id : ProviderId) : Prop :=
  ∃ receipt issuerDid, .destroyed id receipt issuerDid ∈ log

/-- A machine that was provisioned for the accept and is not destroyed. -/
def Live (log : List Effect) (id : ProviderId) (accept : Ref) : Prop :=
  .provisioned id accept ∈ log ∧ ¬ Destroyed log id

/-- The machine is tracked under the receipt that was handed to the author of its accept. -/
def TrackedFor (s : State) (id : ProviderId) (accept : Ref) : Prop :=
  ∃ receipt author, .receipt receipt accept ∈ s.log ∧
    .replied (some (atUriAuthority accept.uri)) (.accepted (receiptId receipt) receipt) ∈ s.log ∧
    s.activeContracts.lookup (refKey receipt) = some ⟨id, author⟩

/-- The event that destroys the machine. -/
def destroys (id : ProviderId) : Effect → Bool
  | .destroyed id' _ _ => id' = id
  | _ => false

/-- What should hold of the machines in every state. -/
structure Tracking (s : State) : Prop where
  /-- Once its receipt is not awaited, a machine is tracked or destroyed. -/
  kept : ∀ id accept, .provisioned id accept ∈ s.log →
    (∀ accept issuerDid requesterDid, .createReceipt accept issuerDid requesterDid id ∉ s.pending) →
      Destroyed s.log id ∨ TrackedFor s id accept
  /-- An accept has one live machine at most. -/
  single : ∀ accept id id', Live s.log id accept → Live s.log id' accept → id = id'
  once : ∀ id, s.log.countP (destroys id) ≤ 1
  /-- Only the author of the accept that the receipt names destroys its machine. -/
  author : ∀ id receipt issuerDid, .destroyed id receipt issuerDid ∈ s.log →
    ∃ created accept, .receipt created accept ∈ s.log ∧ refKey created = refKey receipt ∧
      .provisioned id accept ∈ s.log ∧ issuerDid = (parseAtUri accept.uri).repo

/-- The receipt that a request to delete names. -/
def Pending.eventReceipt : Pending → Option Ref
  | .verifyEvent _ _ event => event.receipt
  | .resolveReceipt receipt _ _ | .resolvePayload receipt _ _ | .destroy receipt _ _ => some receipt
  | _ => none

/-- An event for a receipt that is not tracked, or no longer, changes nothing. -/
def Ignored (s : State) (e : Event) : Prop :=
  ∀ i a p receipt, e = .answer i a → s.pending[i]? = some p → p.eventReceipt = some receipt →
    s.activeContracts.lookup (refKey receipt) = none →
      (step s e).activeContracts = s.activeContracts ∧
        ∀ effect ∈ (step s e).log, effect ∈ s.log ∨ ∃ issuerDid r, effect = .replied issuerDid r

/-- What the provider and the repository promise: new machines have new ids, new receipts new
    refs, and a receipt is read as it was created. -/
structure Kept (s : State) (e : Event) : Prop where
  ids : ∀ i id, e = .answer i (.provisioned (.ok id)) → id.tracked →
    ∀ accept, .provisioned id accept ∉ s.log
  refs : ∀ i receipt, e = .answer i (.receipt (.ok receipt)) →
    ∀ created accept, .receipt created accept ∈ s.log → refKey created ≠ refKey receipt
  records : ∀ i receipt payload issuerDid acceptUri,
    e = .answer i (.receiptRecord (.ok acceptUri)) →
    s.pending[i]? = some (.resolveReceipt receipt payload issuerDid) →
    ∀ created accept, .receipt created accept ∈ s.log → refKey created = refKey receipt →
      acceptUri = accept.uri

end ComputeContract.Bidder
