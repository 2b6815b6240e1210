import ComputeContract.Lib.Task
import ComputeContract.Market.Resolve

/-!
# The requester

`runComputeContract`: a VM is offered, the cheapest bid accepted, the receipt checked, the VM
used and deleted. It is a task whose state is the log of its effects; what the network, the
repository and the programs answer may depend on all of the log.

* `offer`, `submitAccept`: what comes before the receipt is there;
* `finish`: what comes after it, with the teardown at its end.
-/

namespace ComputeContract.Requester

open AssocList Attest Market

/-! ## Effects -/

structure Ref where
  uri : String
  cid : String

/-- Where `callBidder` sends to. -/
structure Target where
  targetUrl : String
  audDid : String

structure Response where
  status : ℕ
  ok : Bool
  /-- `json()`; `none` throws. -/
  json : Option Value

structure CollectedBid where
  did : String
  uri : String
  cid : String
  record : RecordMap

structure DidService where
  id : String
  serviceEndpoint : Option String

/-- A record of another repository, as it is listed. -/
structure ListedRecord where
  uri : String
  value : RecordMap

/-- What is done, with how it ended. -/
inductive Effect
  | relayReady (result : Except String String)
  | sshKeygen (result : Except String String)
  | vouches (result : Except String (List ListedRecord))
  | registries (result : Except String (List String))
  | offerings (bidderDid : String) (result : Except String (List ListedRecord))
  | attested (record : RecordMap) (result : Except String RecordMap)
  | applied (collection rkey : String) (record : RecordMap) (result : Except String Unit)
  | read (collection rkey : String) (result : Except String (Option String))
  | resolved (endpoint : Option Value) (result : Except String (Option Target))
  | serviceAuth (aud lxm : String) (result : Except String Unit)
  | posted (target : Target) (nsid : String) (body : RecordMap) (result : Except String Response)
  | verified (receiptUri : Option Value) (result : Except String Bool)
  | ssh (result : Except String ℕ)
  | callback (name : String) (result : Except String Unit)

abbrev Log := List Effect

abbrev Run (α : Type) := Task Log String α

/-- What the requester finds around it. -/
structure World where
  did : String
  primitives : Primitives
  keyResolver : String → Except String KeyData
  now : Log → String
  nextTid : Log → String
  /-- The subdomain. -/
  relayReady : Log → Outcome String String
  /-- The public key. -/
  sshKeygen : Log → Outcome String String
  /-- `buildDefaultUserData`, of the name, the subdomain and the public key. -/
  userData : String → String → String → String
  sign : Log → Outcome String RecordMap
  applyWrites : Log → Outcome String Unit
  /-- The `cid` of the record, when it is there. -/
  getRecord : Log → Outcome String (Option String)
  vouches : Log → Outcome String (List ListedRecord)
  registries : Log → Outcome String (List String)
  /-- None without a document or an endpoint. -/
  offerings : Log → Outcome String (List ListedRecord)
  /-- The services of a document. -/
  didDocument : Log → Outcome String (Option (List DidService))
  /-- `new URL(url).host` -/
  urlHost : String → Except String String
  signServiceAuth : Log → Outcome String Unit
  fetch : Log → Outcome String Response
  /-- The bids for the RFP at the end of the window. -/
  pendingBids : Log → List CollectedBid
  /-- `Number(a ?? Infinity) < Number(b ?? Infinity)` -/
  numberLt : Option Value → Option Value → Except String Bool
  /-- The servers that the receipt is resolved at. -/
  servers : Log → Outcome String Market.World
  /-- Whether the deadline of the poll is not reached. -/
  beforeDeadline : Log → Bool
  /-- The exit code. -/
  ssh : Log → Outcome String ℕ
  callback : Log → Outcome String Unit

structure Options where
  vmName : Option String
  skipSsh : Option Bool
  noDelete : Option Bool
  extraBidderDids : Option (List String)
  denyBidderDids : Option (List String)
  onSshStart : Bool
  onSshEnd : Bool

def COMPUTE_VM_NSID : String := "com.publicdomainrelay.temp.compute.vm"

def COMPUTE_EVENTS_VM_DELETE_NSID : String :=
  "com.publicdomainrelay.temp.compute.events.vm.delete"

def RFP_NSID : String := "com.publicdomainrelay.temp.market.rfp"

def ACCEPT_NSID : String := "com.publicdomainrelay.temp.market.accept"

def EVENT_NSID : String := "com.publicdomainrelay.temp.market.event"

def SUBMIT_RFP_NSID : String := "com.publicdomainrelay.temp.market.submitRfp"

def SUBMIT_ACCEPT_NSID : String := "com.publicdomainrelay.temp.market.submitAccept"

def SUBMIT_EVENT_NSID : String := "com.publicdomainrelay.temp.market.submitEvent"

/-- The log with an effect and its answer; without one the run stops there. -/
def act {α : Type} (effect : Except String α → Effect) (answer : Log → Outcome String α) : Run α :=
  fun log =>
    match answer log with
    | .ok a => (.ok a, log ++ [effect (.ok a)])
    | .error e => (.error e, log ++ [effect (.error e)])
    | .running => (.running, log)

/-- What is found without an effect. -/
def look {α : Type} (f : Log → α) : Run α := fun log => (.ok (f log), log)

/-! ## Records -/

def strongRef (uri cid : Option Value) : Value :=
  .object [("$type", .text STRONG_REF_NSID), ("uri", uri.getD .undefined),
    ("cid", cid.getD .undefined)]

def Ref.strongRef (r : Ref) : Value := Requester.strongRef (some (.text r.uri)) (some (.text r.cid))

section
variable (w : World)

/-- `at://${did}/${collection}/${rkey}` -/
def recordUri (collection rkey : String) : String := s!"at://{w.did}/{collection}/{rkey}"

/-- The part of both that writes. -/
def writeRecord (collection rkey : String) (record : RecordMap) : Run Ref := do
  act (.applied collection rkey record) w.applyWrites
  let cid ← act (.read collection rkey) w.getRecord
  return ⟨recordUri w collection rkey, cid.getD ""⟩

def createRepoRecord (collection : String) (record : RecordMap) : Run Ref := do
  let rkey ← look w.nextTid
  writeRecord w collection rkey record

/-- `{ ...record, signatures: [entry] }` -/
def withSignature (record entry : RecordMap) : RecordMap :=
  set "signatures" (.array [.object entry]) record

def createSignedRepoRecord (collection : String) (record : RecordMap) : Run Ref := do
  let rkey ← look w.nextTid
  let entry ← act (.attested record) fun log => (w.sign log).andThen toStorableEntry
  writeRecord w collection rkey (withSignature record entry)

/-! ## Bidders -/

/-- `url.replace(/\/+$/, "")` -/
def stripSlashes (url : String) : String :=
  String.ofList (url.toList.reverse.dropWhile (· = '/')).reverse

/-- The target behind a service or a URL. -/
def targetAt (url : String) : Except String Target := do
  let host ← w.urlHost url
  return ⟨stripSlashes url ++ "/xrpc", "did:web:" ++ host⟩

/-- The target of the service with the fragment. -/
def targetOfService (svcId : String) (svcDoc : Option (List DidService)) :
    Except String (Option Target) :=
  match (svcDoc.getD []).find? fun s => s.id = "#" ++ svcId with
  | some ⟨_, some svcEndpoint⟩ =>
    if svcEndpoint = "" then .ok none else return some (← targetAt w svcEndpoint)
  | _ => .ok none

/-- `ref.split("#")[0]` and `ref.split("#")[1]` -/
def splitFragment (ref : String) : String × Option String :=
  let parts := (ref.toList.splitOn '#').map String.ofList
  (parts[0]?.getD "", parts[1]?)

def startsWith (s start : String) : Bool := start.toList.isPrefixOf s.toList

def resolveBidderEndpoint (endpointUrl : Option Value) : Run (Option Target) :=
  act (.resolved endpointUrl) fun log =>
    match endpointUrl with
    | some (.text url) =>
      if startsWith url "http://" || startsWith url "https://" then
        (Outcome.ok ()).andThen fun _ => some <$> targetAt w url
      else if startsWith url "did:" then
        (w.didDocument log).andThen
          (targetOfService w ((splitFragment url).2.getD "pdr_temp_market"))
      else .ok none
    | _ => .error "TypeError"

/-- The body of the reply. A reply that is no JSON is read a second time, which throws. -/
def callBidder (target : Target) (nsid lxm : String) (body : RecordMap) : Run Value := do
  act (.serviceAuth target.audDid lxm) w.signServiceAuth
  let res ← act (.posted target nsid body) w.fetch
  Task.ofExcept (match res.json with
    | some resBody => .ok resBody
    | none => .error "TypeError")

/-! ## Discovery -/

def DEFAULT_BIDDER_DIDS : List String := ["did:plc:5svqtrhheairglgiiyvutzik"]

/-- The subject of a vouch, unless it is denounced. -/
def vouchedDid (r : ListedRecord) : Option String :=
  if isText "denounce" (r.value.lookup "kind") then none
  else
    let rkey := (((r.uri.toList.splitOn '/').map String.ofList).getLast?).getD ""
    if startsWith rkey "did:" then some rkey else none

def discoverBidders (opts : Options) : Run (List String) := do
  let vouched ← Task.tryCatch (do
    let records ← act .vouches w.vouches
    return records.filterMap vouchedDid) fun _ => pure []
  let registry ← Task.tryCatch (act .registries w.registries) fun _ => pure []
  let dids := (DEFAULT_BIDDER_DIDS ++ vouched ++ registry ++ opts.extraBidderDids.getD []).eraseDups
  return dids.filter (· ∉ opts.denyBidderDids.getD [])

/-- `appliesTo` is an array with the VM's type in it. -/
def appliesToVm (appliesTo : Option Value) : Bool :=
  match appliesTo with
  | some (.array types) => types.any fun type => isText COMPUTE_VM_NSID (some type)
  | _ => false

def submitRfp (rfp : Ref) (offering : ListedRecord) : Run Unit :=
  let endpointUrl := field (some offering.value) "endpointUrl"
  if truthy endpointUrl && appliesToVm (field (some offering.value) "appliesTo") then do
    match ← resolveBidderEndpoint w endpointUrl with
    | none => pure ()
    | some target => do
      let _ ← callBidder w target SUBMIT_RFP_NSID SUBMIT_RFP_NSID
        [("rfpUri", .text rfp.uri), ("rfpCid", .text rfp.cid)]
      pure ()
  else pure ()

/-- A bidder that cannot be asked is passed over. -/
def submitRfpTo (rfp : Ref) (bidderDid : String) : Run Unit :=
  Task.tryCatch (do
    let offerings ← act (.offerings bidderDid) w.offerings
    offerings.forM (submitRfp w rfp)) fun _ => pure ()

/-! ## The winner -/

/-- `record.payload?.cost`; `null` is `undefined` here, since both are replaced. -/
def costOf (n : CollectedBid) : Option Value :=
  match field (some n.record) "payload" with
  | some (.object payload) =>
    match field (some payload) "cost" with
    | some .null => none
    | cost => cost
  | _ => none

def cheaper (best b : CollectedBid) : Except String CollectedBid := do
  if ← w.numberLt (costOf b) (costOf best) then return b else return best

def pickWinner (first : CollectedBid) (bids : List CollectedBid) : Except String CollectedBid :=
  bids.foldlM (cheaper w) first

/-! ## The accept and its answer -/

/-- What the accept is answered with. -/
structure Receipt where
  uri : Option Value
  cid : Option Value
  submitEvent : Option Value

/-- No answer. -/
def Receipt.missing : Receipt := ⟨none, none, none⟩

/-- The answer has all its parts. -/
def Receipt.complete (r : Receipt) : Bool := truthy r.uri && truthy r.cid && truthy r.submitEvent

def receiptOf (body : Value) : Except String Receipt := do
  let uri ← get (some body) "uri"
  let cid ← get (some body) "cid"
  let submitEvent ← get (some body) "submitEvent"
  return ⟨uri, cid, submitEvent⟩

def submitAccept (accept : Ref) (winner : CollectedBid) : Run Receipt :=
  let submitAcceptTarget := field (some winner.record) "submitAccept"
  if truthy submitAcceptTarget then do
    match ← resolveBidderEndpoint w submitAcceptTarget with
    | none => pure .missing
    | some target => do
      let body ← callBidder w target SUBMIT_ACCEPT_NSID SUBMIT_ACCEPT_NSID
        [("acceptUri", .text accept.uri), ("acceptCid", .text accept.cid)]
      Task.ofExcept (receiptOf body)
  else pure .missing

/-! ## The receipt -/

def receiptVerifies (accept : Ref) (receipt : Receipt) (servers : Market.World) :
    Except String Bool := do
  let (proof, s) ← Resolver.resolve servers none ⟨receipt.uri, receipt.cid⟩ ⟨[], 0⟩
  let (subject, _) ← Resolver.resolve servers none ⟨some (.text accept.uri), some (.text accept.cid)⟩ s
  let receiptBare := stripResolved proof
  let repositoryDid := match receipt.uri with
    | some (.text uri) => atUriAuthority uri
    | _ => ""
  let sigOk := verifyRecordSignatures w.primitives w.keyResolver none receiptBare repositoryDid
  let bindOk := verifyRemoteProof w.primitives (stripResolved subject) w.did receiptBare
  return sigOk && bindOk

/-- A receipt that cannot be checked is not verified. -/
def checkReceipt (accept : Ref) (receipt : Receipt) : Run Bool :=
  if truthy receipt.uri && truthy receipt.cid then
    Task.tryCatch
      (act (.verified receipt.uri) fun log => (w.servers log).andThen (receiptVerifies w accept receipt))
      fun _ => pure false
  else pure false

/-! ## The VM -/

/-- The loop, for as long as there is fuel. -/
def pollSshReady : ℕ → Run Bool
  | 0 => Task.forever
  | fuel + 1 => do
    if ← look w.beforeDeadline then do
      let code ← act .ssh w.ssh
      if code = 0 then return true else pollSshReady fuel
    else return false

def runSshSession : Run ℕ := act .ssh w.ssh

/-- `opts.name?.()` -/
def callCallback (given : Bool) (name : String) : Run Unit :=
  if given then act (.callback name) w.callback else pure ()

/-- The session, unless it is skipped or the receipt is not verified. -/
def useVm (opts : Options) (fuel : ℕ) (receiptOk : Bool) : Run Unit :=
  if opts.skipSsh.getD false || !receiptOk then pure ()
  else do
    if ← pollSshReady w fuel then do
      callCallback w opts.onSshStart "onSshStart"
      let _ ← runSshSession w
      callCallback w opts.onSshEnd "onSshEnd"
    else pure ()

def vmDeleteRecord (now : String) : RecordMap :=
  [("$type", .text COMPUTE_EVENTS_VM_DELETE_NSID), ("reason", .text "session_ended"),
    ("createdAt", .text now)]

def eventRecord (receipt : Receipt) (del : Ref) (now : String) : RecordMap :=
  [("$type", .text EVENT_NSID), ("receipt", strongRef receipt.uri receipt.cid),
    ("payload", del.strongRef), ("createdAt", .text now)]

def submitEventBody (event : Ref) (record : RecordMap) : RecordMap :=
  [("uri", .text event.uri), ("cid", .text event.cid), ("record", .object record)]

def submitEvent (receipt : Receipt) (event : Ref) (record : RecordMap) : Run Unit := do
  match ← resolveBidderEndpoint w receipt.submitEvent with
  | none => pure ()
  | some target => do
    let _ ← callBidder w target SUBMIT_EVENT_NSID SUBMIT_EVENT_NSID (submitEventBody event record)
    pure ()

/-- The body of the `try`. -/
def deleteVm (receipt : Receipt) : Run Unit := do
  let nowIso ← look w.now
  let del ← createSignedRepoRecord w COMPUTE_EVENTS_VM_DELETE_NSID (vmDeleteRecord nowIso)
  let event ← createSignedRepoRecord w EVENT_NSID (eventRecord receipt del nowIso)
  submitEvent w receipt event (eventRecord receipt del nowIso)

/-- Tear down the VM, unless it is to stay or was never there. -/
def teardown (opts : Options) (receipt : Receipt) : Run Unit :=
  if opts.noDelete.getD false || !receipt.complete then pure ()
  else Task.tryCatch (deleteVm w receipt) fun _ => pure ()

/-! ## The contract -/

/-- What `runComputeContract` returns. -/
inductive Result
  | noBids
  | complete (vm rfp accept : Ref) (winner : CollectedBid) (receipt : Receipt) (receiptOk : Bool)
      (bids : ℕ)

def vmRecord (vmName userData now : String) : RecordMap :=
  [("$type", .text COMPUTE_VM_NSID),
    ("role", .text (if trim vmName = "" then "compute" else trim vmName)),
    ("user_data", .text userData), ("createdAt", .text now)]

def rfpRecord (did : String) (vm : Ref) (now : String) : RecordMap :=
  [("$type", .text RFP_NSID), ("domain", .text "compute"), ("payload", vm.strongRef),
    ("submitBid", .text (did ++ "#pdr_temp_market")), ("createdAt", .text now)]

def acceptRecord (did : String) (rfp : Ref) (winner : CollectedBid) (now : String) : RecordMap :=
  [("$type", .text ACCEPT_NSID), ("rfp", rfp.strongRef),
    ("bid", Ref.strongRef ⟨winner.uri, winner.cid⟩),
    ("submitEvent", .text (did ++ "#pdr_temp_compute_event")), ("createdAt", .text now)]

/-- The cloud-init of a VM without `ssh`. -/
def testUserData : String :=
  "#cloud-config\npackages:\n  - curl\nruncmd:\n  - echo \"test VM (no sshd) ready\" | tee /tmp/ready\n"

/-- The `user_data` of the VM. -/
def cloudInit (opts : Options) (vmName subdomain : String) : Run String :=
  if opts.skipSsh.getD false then pure testUserData
  else do
    let publicKey ← act .sshKeygen w.sshKeygen
    return w.userData vmName subdomain publicKey

/-- The VM and the RFP, which is sent to the bidders that are found. -/
def offer (opts : Options) : Run (Ref × Ref) := do
  let vmName := opts.vmName.getD "compute"
  let subdomain ← act .relayReady w.relayReady
  let userData ← cloudInit w opts vmName subdomain
  let vm ← createRepoRecord w COMPUTE_VM_NSID (vmRecord vmName userData (← look w.now))
  let rfp ← createSignedRepoRecord w RFP_NSID (rfpRecord w.did vm (← look w.now))
  let dids ← discoverBidders w opts
  dids.forM (submitRfpTo w rfp)
  return (vm, rfp)

/-- What comes after the accept is answered. -/
def finish (opts : Options) (fuel : ℕ) (vm rfp accept : Ref) (winner : CollectedBid) (bids : ℕ)
    (receipt : Receipt) : Run Result := do
  let receiptOk ← checkReceipt w accept receipt
  useVm w opts fuel receiptOk
  teardown w opts receipt
  return .complete vm rfp accept winner receipt receiptOk bids

def runComputeContract (opts : Options) (fuel : ℕ) : Run Result := do
  let (vm, rfp) ← offer w opts
  match ← look w.pendingBids with
  | [] => return .noBids
  | first :: bids => do
    let winner ← Task.ofExcept (pickWinner w first (first :: bids))
    let accept ← createSignedRepoRecord w ACCEPT_NSID (acceptRecord w.did rfp winner (← look w.now))
    let receipt ← submitAccept w accept winner
    finish w opts fuel vm rfp accept winner (bids.length + 1) receipt

end

end ComputeContract.Requester
