import ComputeContract.Lib.Along
import ComputeContract.Market.Bidder

/-!
# The ephemeral bidder's contracts

`onAccept` starts to provision a VM in the background, a job, creates a receipt and tracks the
contract with its job. `onVmDelete` waits for the job, destroys the VM, tears the provider down,
if it can be, and forgets the contract. Requests and jobs run in between one another: each is at
an `await`, and each answer takes it to the next.

* `answer`, `answerJob`: what a request and a job do with an answer;
* `Lifecycle`: what should hold in every state.
-/

namespace ComputeContract.Ephemeral

open AssocList Market
open Bidder (Ref refKey Auth MarketEvent isVmDelete EVENT_NSID)

/-! ## Data -/

inductive ProviderId
  | number (n : ℕ)
  | text (s : String)
  deriving DecidableEq

/-- Whether a compute provider is wired, and whether it has a `teardown`. -/
structure Config where
  computeProvider : Bool
  teardown : Bool

/-- Where the provisioning in the background is. -/
inductive JobStatus
  /-- The records that the accept references are resolved. -/
  | resolving
  | provisioning
  /-- `undefined` for one that was skipped or failed. -/
  | settled (providerId : Option ProviderId)
  deriving DecidableEq

structure Job where
  accept : Ref
  issuerDid : String
  status : JobStatus
  deriving DecidableEq

structure ActiveContract where
  /-- `providerIdPromise`: that of a job, or one that is `undefined` at once. -/
  job : Option ℕ
  acceptAuthor : String
  deriving DecidableEq

/-- A request at an `await`. -/
inductive Pending
  /-- `verifyMarketServiceAuth` -/
  | authorizeAccept (accept : Ref)
  | resolveAccept (accept : Ref) (issuerDid : String)
  /-- `verifyAuthored`, of an accept that has an `rfp` or not -/
  | verifyAccept (accept : Ref) (issuerDid : String) (rfp : Bool)
  | createReceipt (accept : Ref) (issuerDid : String) (job : Option ℕ)
  /-- `verifyMarketServiceAuth` -/
  | authorizeEvent (event : Ref)
  | resolveEvent (ref : Ref) (auth : Auth)
  /-- `verifyAuthored` -/
  | verifyEvent (ref : Ref) (auth : Auth) (event : MarketEvent)
  /-- `contract.providerIdPromise` -/
  | awaitProvider (receipt : Ref) (issuerDid : String) (job : Option ℕ)
  | destroy (receipt : Ref) (issuerDid : String) (providerId : ProviderId)
  deriving DecidableEq

/-- What is awaited comes. -/
inductive Answer
  | auth (result : Except String Auth)
  /-- Whether the accept has an `rfp`. -/
  | accept (result : Except String Bool)
  | signed (ok : Bool)
  /-- The receipt that was created. -/
  | receipt (result : Except String Ref)
  | event (result : Except String MarketEvent)
  /-- The promise is settled. -/
  | settled
  | destroyed (result : Except String Unit)

/-- What a job awaits comes. -/
inductive JobAnswer
  /-- Whether there is a VM in the records. -/
  | resolved (result : Except String Bool)
  | provisioned (result : Except String ProviderId)

inductive Reply
  | error (error message : String) (status : ℕ)
  | ok
  | accepted (id : String) (receipt : Ref)
  | thrown (message : String)
  deriving DecidableEq

/-- What happens outside, or to a contract. -/
inductive Effect
  | provisioned (job : ℕ) (id : ProviderId) (accept : Ref)
  | receipt (receipt accept : Ref) (job : Option ℕ)
  | replied (issuerDid : Option String) (reply : Reply)
  /-- For a `vm.delete` of the issuer. -/
  | destroyed (id : ProviderId) (receipt : Ref) (issuerDid : String)
  /-- For a contract, while these other ones are active. -/
  | teardown (key : String) (others : List String)
  deriving DecidableEq

/-- What an answer leads to: the request waits again, or has ended. -/
structure Result where
  activeContracts : List (String × ActiveContract)
  jobs : List Job
  effects : List Effect
  next : Option Pending

structure State where
  activeContracts : List (String × ActiveContract)
  jobs : List Job
  pending : List Pending
  log : List Effect
  deriving DecidableEq

/-! ## Requests -/

section
variable (cfg : Config) (s : State)

def waits (next : Pending) : Result := ⟨s.activeContracts, s.jobs, [], some next⟩

def replies (issuerDid : Option String) (reply : Reply) : Result :=
  ⟨s.activeContracts, s.jobs, [.replied issuerDid reply], none⟩

def throws (issuerDid : Option String) (message : String) : Result :=
  replies s issuerDid (.thrown message)

/-- Once the token has verified: its issuer has to author the record. -/
def authorize (uri : String) (result : Except String Auth) (next : Auth → Pending) : Result :=
  match result with
  | .error err =>
    replies s none (.error "Unauthorized" ("invalid service-auth token: " ++ err) 401)
  | .ok auth =>
    if auth.issuerDid = atUriAuthority uri then waits s (next auth)
    else replies s (some auth.issuerDid) (.error "Forbidden"
      "service-auth token issuer must author the referenced record" 403)

def notSigned (issuerDid : String) : Result :=
  replies s (some issuerDid)
    (.error "InvalidRequest" "record is missing a valid badge.blue signature" 400)

/-- `onAccept`, up to the receipt: the job starts. -/
def onAccept (accept : Ref) (issuerDid : String) (rfp : Bool) : Result :=
  if cfg.computeProvider && rfp then
    ⟨s.activeContracts, s.jobs ++ [⟨accept, issuerDid, .resolving⟩], [],
      some (.createReceipt accept issuerDid (some s.jobs.length))⟩
  else waits s (.createReceipt accept issuerDid none)

/-- The rest of `onAccept`: the receipt is there. -/
def track (accept : Ref) (issuerDid : String) (job : Option ℕ) (receipt : Ref) : Result :=
  ⟨set (refKey receipt) ⟨job, issuerDid⟩ s.activeContracts, s.jobs, [.receipt receipt accept job,
    .replied (some issuerDid) (.accepted (Bidder.receiptId receipt) receipt)], none⟩

/-- The contract is forgotten. -/
def forget (receipt : Ref) (issuerDid : String) (effects : List Effect) : Result :=
  ⟨erase (refKey receipt) s.activeContracts, s.jobs,
    effects ++ [.replied (some issuerDid) .ok], none⟩

/-- The end of `onVmDelete`, with a provider: it is torn down, if it can be. -/
def finishDelete (receipt : Ref) (issuerDid : String) (effects : List Effect) : Result :=
  let key := refKey receipt
  forget s receipt issuerDid (effects ++
    if cfg.teardown then [.teardown key ((keys s.activeContracts).filter (· ≠ key))] else [])

/-- `onVmDelete`, up to the provider. -/
def onVmDelete (event : MarketEvent) (issuerDid : String) : Result :=
  match event.receipt with
  | none => replies s (some issuerDid)
      (.error "InvalidRequest" "missing receipt in event" 400)
  | some receipt =>
    match s.activeContracts.lookup (refKey receipt) with
    | none => replies s (some issuerDid) (.error "InvalidRequest" "unknown receipt" 400)
    | some contract =>
      if contract.acceptAuthor = issuerDid then
        if cfg.computeProvider then waits s (.awaitProvider receipt issuerDid contract.job)
        else forget s receipt issuerDid []
      else replies s (some issuerDid) (.error "Forbidden" "not the accept author" 403)

/-- The event is dispatched by the service of the token and the type of the payload. -/
def dispatch (auth : Auth) (event : MarketEvent) : Result :=
  match event.payload with
  | none => throws s (some auth.issuerDid) "TypeError"
  | some payload =>
    if isVmDelete auth payload then onVmDelete cfg s event auth.issuerDid
    else replies s (some auth.issuerDid) .ok

/-- What the promise is settled with, if it is. -/
def promise (job : Option ℕ) : Option (Option ProviderId) :=
  match job with
  | none => some none
  | some j =>
    match s.jobs[j]? with
    | some ⟨_, _, .settled providerId⟩ => some providerId
    | _ => none

/-- A request takes an answer; `none` for an answer to something else. -/
def answer : Pending → Answer → Option Result
  | .authorizeAccept accept, .auth result =>
    authorize s accept.uri result fun auth => .resolveAccept accept auth.issuerDid
  | .resolveAccept _ issuerDid, .accept (.error err) => throws s (some issuerDid) err
  | .resolveAccept accept issuerDid, .accept (.ok rfp) =>
    waits s (.verifyAccept accept issuerDid rfp)
  | .verifyAccept accept issuerDid rfp, .signed ok =>
    if ok then onAccept cfg s accept issuerDid rfp else notSigned s issuerDid
  | .createReceipt _ issuerDid _, .receipt (.error err) => throws s (some issuerDid) err
  | .createReceipt accept issuerDid job, .receipt (.ok receipt) =>
    track s accept issuerDid job receipt
  | .authorizeEvent event, .auth result =>
    authorize s event.uri result fun auth => .resolveEvent event auth
  | .resolveEvent _ auth, .event (.error err) => throws s (some auth.issuerDid) err
  | .resolveEvent ref auth, .event (.ok event) =>
    if (event.type.filter (· ≠ "")).getD EVENT_NSID = EVENT_NSID then
      waits s (.verifyEvent ref auth event)
    else replies s (some auth.issuerDid) (.error "InvalidRequest" ("expected " ++ EVENT_NSID) 400)
  | .verifyEvent _ auth event, .signed ok =>
    if ok then dispatch cfg s auth event else notSigned s auth.issuerDid
  | .awaitProvider receipt issuerDid job, .settled =>
    (promise s job).map fun
      | none => finishDelete cfg s receipt issuerDid []
      | some providerId => waits s (.destroy receipt issuerDid providerId)
  | .destroy receipt issuerDid providerId, .destroyed (.ok ()) =>
    finishDelete cfg s receipt issuerDid [.destroyed providerId receipt issuerDid]
  -- A provider that fails to destroy is only logged.
  | .destroy receipt issuerDid _, .destroyed (.error _) => finishDelete cfg s receipt issuerDid []
  | _, _ => none

/-- A job takes an answer; one that throws is settled with `undefined`. -/
def answerJob (j : ℕ) (job : Job) : JobAnswer → Option (Job × List Effect)
  | .resolved (.ok true) =>
    if job.status = .resolving then some ({ job with status := .provisioning }, []) else none
  | .resolved _ =>
    if job.status = .resolving then some ({ job with status := .settled none }, []) else none
  | .provisioned (.ok id) =>
    if job.status = .provisioning then
      some ({ job with status := .settled (some id) }, [.provisioned j id job.accept])
    else none
  | .provisioned (.error _) =>
    if job.status = .provisioning then some ({ job with status := .settled none }, []) else none

/-! ## Runs -/

inductive Event
  /-- A body with these fields. -/
  | submitAccept (acceptUri acceptCid : String)
  /-- A body with these fields, and whether `record` has its parts. -/
  | submitEvent (uri cid : String) (record : Bool)
  /-- The answer to a request that is pending. -/
  | answer (i : ℕ) (a : Answer)
  /-- The answer to a job. -/
  | answerJob (j : ℕ) (a : JobAnswer)

/-- The request that is pending at `i` takes an answer. -/
def resume (i : ℕ) (a : Answer) : State :=
  match s.pending[i]? with
  | none => s
  | some p =>
    match answer cfg s p a with
    | none => s
    | some r =>
      ⟨r.activeContracts, r.jobs, r.next.toList ++ s.pending.eraseIdx i, s.log ++ r.effects⟩

/-- The job `j` takes an answer. -/
def resumeJob (j : ℕ) (a : JobAnswer) : State :=
  match s.jobs[j]? with
  | none => s
  | some job =>
    match answerJob j job a with
    | none => s
    | some (job, effects) => { s with jobs := s.jobs.set j job, log := s.log ++ effects }

/-- A request comes in, unless its body has not all its parts. -/
def receive (complete : Bool) (p : Pending) (missing : String) : State :=
  if complete then { s with pending := p :: s.pending }
  else { s with log := s.log ++ [.replied none (.error "InvalidRequest" missing 400)] }

/-- A request comes in, or a request or a job goes on. -/
def step : Event → State
  | .submitAccept acceptUri acceptCid =>
    receive s (acceptUri ≠ "" && acceptCid ≠ "") (.authorizeAccept ⟨acceptUri, acceptCid⟩)
      "missing acceptUri or acceptCid"
  | .submitEvent uri cid record =>
    receive s (uri ≠ "" && cid ≠ "" && record) (.authorizeEvent ⟨uri, cid⟩)
      "missing uri, cid, or record"
  | .answer i a => resume cfg s i a
  | .answerJob j a => resumeJob s j a

end

def start : State := ⟨[], [], [], []⟩

/-! ## Contracts and their VMs -/

def Destroyed (log : List Effect) (id : ProviderId) : Prop :=
  ∃ receipt issuerDid, .destroyed id receipt issuerDid ∈ log

/-- The accept that a VM was provisioned for. -/
def Effect.provisionedFor : Effect → Option Ref
  | .provisioned _ _ accept => some accept
  | _ => none

/-- The VM that was destroyed. -/
def Effect.destroyedId : Effect → Option ProviderId
  | .destroyed id _ _ => some id
  | _ => none

/-- What should hold in every state. -/
structure Lifecycle (s : State) : Prop where
  /-- At most one VM is provisioned for an accept. -/
  one : (s.log.filterMap Effect.provisionedFor).Nodup
  /-- A VM is destroyed at most once. -/
  once : (s.log.filterMap Effect.destroyedId).Nodup
  /-- It is the VM of the contract, and its accept's author has asked for it. -/
  author : ∀ id receipt issuerDid, .destroyed id receipt issuerDid ∈ s.log →
    ∃ j created accept, .receipt created accept (some j) ∈ s.log ∧
      refKey created = refKey receipt ∧ .provisioned j id accept ∈ s.log ∧
      issuerDid = atUriAuthority accept.uri
  /-- A contract that is forgotten has no VM, now or later. -/
  forgotten : ∀ receipt accept j, .receipt receipt accept (some j) ∈ s.log →
    s.activeContracts.lookup (refKey receipt) = none →
    ∃ job providerId, s.jobs[j]? = some job ∧ job.status = .settled providerId ∧
      ∀ id, providerId = some id → Destroyed s.log id
  /-- The provider is torn down for the last contract only. -/
  others : ∀ key others, .teardown key others ∈ s.log → others = []

/-- What the provider and the repository promise: new VMs have new ids, and new receipts new
    refs. -/
structure Kept (s : State) (e : Event) : Prop where
  ids : ∀ j id, e = .answerJob j (.provisioned (.ok id)) →
    ∀ j' accept, .provisioned j' id accept ∉ s.log
  refs : ∀ i receipt, e = .answer i (.receipt (.ok receipt)) →
    ∀ created accept job, .receipt created accept job ∈ s.log → refKey created ≠ refKey receipt

end ComputeContract.Ephemeral
