import ComputeContract.Market.Contract
import ComputeContract.Market.Requester

/-!
# The auction of the spindle

`marketRFPSubmitWorkflow`, from the RFP to the RBAC grant. Bids come in through `submitBid` or
are seen on the firehose, their payloads and configs are fetched, the cheapest one is verified,
settled, accepted, and the grant is made out of its config. What a bid says of itself, its `uri`,
its `cid` and its record, comes from the bidder, and so does every answer to a ref of its record.

* `collected`: what is certain of every bid that is collected;
* `auction_integrity_iff`: an accept is of what was signed exactly when the bidder was honest.
-/

namespace ComputeContract.Auction

open AssocList Attest Market
open Requester (Ref ACCEPT_NSID stripSlashes)

def BID_NSID : String := "com.publicdomainrelay.temp.market.bid"

def BIDS_FREE_NSID : String := "com.publicdomainrelay.temp.market.bids.free"

def BIDS_X402_NSID : String := "com.publicdomainrelay.temp.market.bids.x402"

def ACCEPTS_X402_NSID : String := "com.publicdomainrelay.temp.market.accepts.x402"

/-! ## The world -/

/-- `o?.name`, of what JSON gives. -/
def prop (o : Option Value) (name : String) : Option Value :=
  match o with
  | some (.object fields) => field (some fields) name
  | _ => none

structure CollectedBid where
  did : String
  uri : String
  cid : Value
  record : RecordMap
  payload : Option Value
  config : Option Value

/-- A fetch for a bid: of which one of those collected, and for which of its refs. -/
structure Turn where
  bid : ℕ
  name : String

/-- What `getRecord` is asked for; a part that the URI lacks is `"undefined"`. -/
structure GetRecord where
  pds : String
  repo : String
  collection : String
  rkey : String

structure FetchResponse where
  status : ℕ
  ok : Bool
  text : String
  /-- `json()` -/
  json : Except String Value

/-- What the spindle finds around it. -/
structure World where
  agentDid : String
  spindleHostname : String
  serviceName : String
  primitives : Primitives
  keyResolver : String → Except String KeyData
  /-- The keys that DID documents publish. -/
  keysForDid : String → List String
  /-- What a repository stores for a JSON value: `{ $bytes }` are bytes, `{ $link }` is a link. -/
  jsonToLex : Value → Except String Value
  /-- `${v}`, of what is no text. -/
  template : Option Value → Except String String
  /-- `Number(a ?? Infinity) < Number(b ?? Infinity)` -/
  numberLt : Option Value → Option Value → Except String Bool
  resolvePDS : Turn → String → Except String String
  fetch : Turn → GetRecord → Except String FetchResponse
  assertSafeEgressUrl : String → Except String Unit
  now : String
  /-- Signs the record of a collection and writes it. -/
  createSignedRecord : String → RecordMap → Except String Ref
  payment : String → Except String FetchResponse

/-- `${v}` -/
def World.text (w : World) : Option Value → Except String String
  | some (.text s) => .ok s
  | v => w.template v

/-! ## Bids that are submitted -/

/-- `pendingBids`; a key that is no text is never asked for. -/
abbrev PendingBids := List (String × List CollectedBid)

/-- `pendingBids.get(rfpUri) ?? []` -/
def pendingFor (rfpUri : String) (pending : PendingBids) : List CollectedBid :=
  (pending.lookup rfpUri).getD []

structure SubmitBidRequest where
  /-- The issuer of the service-auth token. -/
  auth : Except String String
  /-- `readJson` -/
  body : Option Value

/-- How a request fails: with an answer, or with a handler that throws. -/
inductive Refusal
  | xrpcError (error message : String) (status : ℕ)
  | thrown (e : String)

section
variable (w : World)

/-- `onBid` -/
def onBid (uri : String) (cid : Value) (record : RecordMap) (pending : PendingBids) :
    Except Refusal PendingBids := do
  let rfpUri ← (do get (← get (some (.object record)) "rfp") "uri").mapError .thrown
  match rfpUri with
  | some (.text rfpUri) =>
    let queue := pendingFor rfpUri pending
    return set rfpUri (queue ++ [⟨atUriAuthority uri, uri, cid, record, none, none⟩]) pending
  | _ => return pending

/-- The record, if its author has signed it with a key of its DID document. -/
def verifyAuthored (record : Option Value) (recordUri : String) : Except Refusal RecordMap :=
  let refusal := .xrpcError "InvalidRequest" "record is missing a valid badge.blue signature" 400
  match record with
  | some (.object record) =>
    if verifyRecordSignatures w.primitives w.keyResolver (some w.keysForDid) record
      (atUriAuthority recordUri) then .ok record
    else .error refusal
  | _ => .error refusal

/-- `createSubmitBidHandler`, with keys bound to DID documents. -/
def submitBid (req : SubmitBidRequest) (pending : PendingBids) : Except Refusal PendingBids := do
  require (truthy req.body) (.xrpcError "InvalidRequest" "invalid JSON" 400)
  let uri := prop req.body "uri"
  let cid := prop req.body "cid"
  let record := prop req.body "record"
  require (truthy uri && truthy cid && truthy record)
    (.xrpcError "InvalidRequest" "missing uri, cid, or record" 400)
  let issuerDid ← req.auth.mapError fun e =>
    .xrpcError "Unauthorized" s!"invalid service-auth token: {e}" 401
  match uri, cid with
  | some (.text uri), some cid => do
    require (issuerDid = atUriAuthority uri) (.xrpcError "Forbidden"
      "service-auth token issuer must author the referenced record" 403)
    let record ← verifyAuthored w record uri
    onBid uri cid record pending
  | _, _ => .error (.thrown "TypeError")

/-- What the queue is after a request. -/
def afterSubmit (pending : PendingBids) (req : SubmitBidRequest) : PendingBids :=
  match submitBid w req pending with
  | .ok pending => pending
  | .error _ => pending

/-! ## The bid window -/

/-- What `collectBidsForRfp` holds. -/
structure Collector where
  bids : List CollectedBid
  seen : List String

variable (rfpUri : String) (allowedDids : List String)

/-- A bid of the queue, unless its bidder is not allowed or it was seen. -/
def addDirect (s : Collector) (b : CollectedBid) : Collector :=
  if b.did ∉ allowedDids then s
  else if b.uri ∈ s.seen then s
  else ⟨s.bids ++ [b], s.seen ++ [b.uri]⟩

/-- `commit.cid ?? ""` -/
def orEmpty (v : Option Value) : Value := (orString v (some "")).getD .undefined

/-- A bid that was not seen before, if its bidder is allowed. -/
def receiveBid (did : Option Value) (bidUri : String) (cid : Value) (record : Option Value)
    (s : Collector) : Collector :=
  let seen := s.seen ++ [bidUri]
  match did, record with
  | some (.text did), some (.object record) =>
    if did ≠ "" ∧ did ∈ allowedDids then
      ⟨s.bids ++ [⟨did, bidUri, cid, record, none, none⟩], seen⟩
    else ⟨s.bids, seen⟩
  | _, _ => ⟨s.bids, seen⟩

/-- `ws.onmessage`, of data that parses; one that throws leaves the bids as they are. -/
def onMessage (msg : Value) (s : Collector) : Except String Collector := do
  let did ← get (some msg) "did"
  let commit ← get (some msg) "commit"
  let record := prop commit "record"
  if isText BID_NSID (prop commit "collection") && isText "create" (prop commit "operation") &&
      rfpUri ≠ "" && isText rfpUri (prop (prop record "rfp") "uri") then do
    let repo ← w.text did
    let rkey ← w.text (prop commit "rkey")
    let bidUri := s!"at://{repo}/{BID_NSID}/{rkey}"
    if bidUri ∈ s.seen then return s
    else return receiveBid allowedDids did bidUri (orEmpty (prop commit "cid")) record s
  else return s

/-- What happens during the window. -/
inductive Event
  | submitBid (req : SubmitBidRequest)
  /-- A message, if its data parses. -/
  | message (msg : Option Value)

def windowStep (s : PendingBids × Collector) : Event → PendingBids × Collector
  | .submitBid req => (afterSubmit w s.1 req, s.2)
  | .message none => s
  | .message (some msg) =>
    match onMessage w rfpUri allowedDids msg s.2 with
    | .ok c => (s.1, c)
    | .error _ => s

/-- The bids of the queue, then those of the window, then those that came to the queue
    meanwhile; without the firehose, those of the queue. -/
def collectBidsForRfp (connected : Bool) (window : List Event) (pending : PendingBids) :
    List CollectedBid :=
  let pre := (pendingFor rfpUri pending).foldl (addDirect allowedDids) ⟨[], []⟩
  if connected then
    let (pending, s) := window.foldl (windowStep w rfpUri allowedDids) (erase rfpUri pending, pre)
    ((pendingFor rfpUri pending).foldl (addDirect allowedDids) s).bids
  else pre.bids

/-! ## Payloads and configs -/

/-- `data.value`, unless the answer is not ok. -/
def resolveAtRef (turn : Turn) (uri : String) : Except String (Option Value) := do
  let parts := ((removeFirst "at://".toList uri.toList).splitOn '/').map String.ofList
  let did := parts[0]?.getD ""
  let pds ← w.resolvePDS turn did
  let res ← w.fetch turn ⟨pds, did, parts[1]?.getD "undefined", parts[2]?.getD "undefined"⟩
  if res.ok then get (some (← res.json)) "value" else return none

/-- What a ref of a record is resolved to; a failure is nothing. -/
def resolveRef (turn : Turn) (record : RecordMap) : Option Value :=
  let uri := prop (prop (some (.object record)) turn.name) "uri"
  if truthy uri then
    match uri with
    | some (.text uri) =>
      match resolveAtRef w turn uri with
      | .ok v => v
      | .error _ => none
    | _ => none
  else none

def resolveBid (n : ℕ) (bid : CollectedBid) : CollectedBid :=
  { bid with
    payload := resolveRef w ⟨n, "payload"⟩ bid.record
    config := resolveRef w ⟨n, "config"⟩ bid.record }

def resolveBidPayloads (bids : List CollectedBid) : List CollectedBid :=
  bids.zipIdx.map fun e => resolveBid w e.2 e.1

/-! ## The winner -/

/-- A free bid costs nothing; `null` is `undefined` here, since both are replaced. -/
def costOf (b : CollectedBid) : Option Value :=
  if isText BIDS_FREE_NSID (prop b.payload "$type") then some (.int 0)
  else
    match prop b.payload "cost" with
    | some .null => none
    | cost => cost

def cheaper (best b : CollectedBid) : Except String CollectedBid := do
  if ← w.numberLt (costOf b) (costOf best) then return b else return best

/-- The first of the cheapest bids. -/
def scoreLowestCost : List CollectedBid → Except String (Option CollectedBid)
  | [] => .ok none
  | first :: bids => some <$> (first :: bids).foldlM (cheaper w) first

/-! ## Settlement, accept and grant -/

def bidRef (winner : CollectedBid) : Value :=
  Requester.strongRef (some (.text winner.uri)) (some winner.cid)

/-- The receipt that the endpoint of the bid answers with. -/
def settleX402Payment (winner : CollectedBid) (url : String) : Except String Value := do
  w.assertSafeEgressUrl url
  let acceptsX402 ← w.createSignedRecord ACCEPTS_X402_NSID
    [("$type", .text ACCEPTS_X402_NSID), ("bid", bidRef winner),
      ("payload", (prop (some (.object winner.record)) "payload").getD .undefined),
      ("createdAt", .text w.now)]
  let res ← w.payment s!"{stripSlashes url}/{acceptsX402.uri}/{acceptsX402.cid}"
  require res.ok s!"x402 payment failed {res.status}: {res.text}"
  let body ← res.json
  let uri ← get (some body) "uri"
  let cid ← get (some body) "cid"
  require (truthy uri && truthy cid)
    s!"x402 payment endpoint returned no receipts.x402 strongRef: {res.text}"
  return Requester.strongRef uri cid

/-- Settle the payment terms of the bid; a free bid has none. -/
def settle (winner : CollectedBid) : Except String (Option Value) := do
  let type := prop winner.payload "$type"
  if isText BIDS_X402_NSID type then do
    let x402Url ← w.text (orString (prop winner.payload "url") (some ""))
    require (x402Url ≠ "")
      s!"winning bid {winner.uri} has no x402 payment url; cannot settle"
    return some (← settleX402Payment w winner x402Url)
  else if isText BIDS_FREE_NSID type then return none
  else do
    let type ← w.text type
    .error s!"winning bid {winner.uri} has unknown payload type {type}; cannot settle"

def acceptRecord (rfp : Ref) (winner : CollectedBid) (receipt : Option Value) : RecordMap :=
  [("$type", .text ACCEPT_NSID), ("rfp", rfp.strongRef), ("bid", bidRef winner)] ++
    (receipt.map fun r => ("payload", r)).toList ++ [("createdAt", .text w.now)] ++
    if w.spindleHostname = "" then []
    else [("submitEvent", .text s!"did:web:{w.spindleHostname}#pdr_temp_compute_event")]

/-- The part of the RBAC record that is templated from the config. -/
structure RoleDefinition where
  aud : String
  iss : String
  sub : String

def roleDefinition (config : Option Value) : Except String RoleDefinition := do
  let iss ← w.text (prop config "issuer_uri")
  let actx ← w.text (prop config "actx")
  let agentDidPlcKey := (((w.agentDid.toList.splitOn ':').map String.ofList)[2]?).getD "undefined"
  return ⟨s!"api://ATProto?actx={w.agentDid}", iss,
    s!"actx:{actx}:plc:{agentDidPlcKey}:role:{w.serviceName}"⟩

/-- An accept that was created, with what it was created for. -/
structure Accepted where
  winner : CollectedBid
  accept : RecordMap
  acceptRef : Ref
  grant : Except String RoleDefinition

/-- `marketRFPSubmitWorkflow`, from the bids to the grant. -/
def acceptWinner (rfp : Ref) (bids : List CollectedBid) : Except String Accepted := do
  require (!bids.isEmpty) s!"No bids received for RFP {rfp.uri}"
  match ← scoreLowestCost w (resolveBidPayloads w bids) with
  | none => .error "No scoreable bid found"
  | some winner => do
    require (verifyRecordSignatures w.primitives w.keyResolver none winner.record winner.did)
      s!"winning bid {winner.uri} has no valid network.attested signature; refusing to accept"
    require (truthy winner.config)
      s!"Winning bid {winner.uri} has no resolved config; cannot build RBAC grant"
    let receipt ← settle w winner
    let accept := acceptRecord w rfp winner receipt
    let acceptRef ← w.createSignedRecord ACCEPT_NSID accept
    return ⟨winner, accept, acceptRef, roleDefinition w winner.config⟩

/-- What bidders do: before the window and while it is open. -/
structure Submissions where
  early : List SubmitBidRequest
  connected : Bool
  window : List Event

def collected (rfp : Ref) (s : Submissions) : List CollectedBid :=
  collectBidsForRfp w rfp.uri allowedDids s.connected s.window (s.early.foldl (afterSubmit w) [])

/-- The auction of an RFP, whatever is submitted. -/
def marketRFPSubmitWorkflow (rfp : Ref) (s : Submissions) : Except String Accepted :=
  acceptWinner w rfp (collected w allowedDids rfp s)

end

/-! ## What is collected -/

/-- An at-URI into the repository of a DID. -/
def InRepository (uri did : String) : Prop :=
  atUriAuthority uri = did ∨ ∃ path : String, uri = s!"at://{did}/{path}"

/-- A bid for an RFP, in the repository of its bidder. -/
structure BidFor (rfpUri : String) (b : CollectedBid) : Prop where
  rfp : prop (prop (some (.object b.record)) "rfp") "uri" = some (.text rfpUri)
  repository : InRepository b.uri b.did

/-- The queue of each RFP holds bids for it. -/
def QueuesFor (pending : PendingBids) : Prop :=
  ∀ rfpUri, ∀ b ∈ pendingFor rfpUri pending, BidFor rfpUri b

/-- Bids for an RFP of bidders that are allowed. -/
def BidsFor (rfpUri : String) (allowedDids : List String) (bids : List CollectedBid) : Prop :=
  ∀ b ∈ bids, BidFor rfpUri b ∧ b.did ∈ allowedDids

section
variable {w : World} {rfpUri : String} {allowedDids : List String} {pending pending' : PendingBids}

theorem prop_of_get {o v : Option Value} {name : String} (h : Market.get o name = .ok v) :
    prop o name = v := by
  unfold Market.get at h
  split at h
  · cases h
  · cases h
  · cases h
  · exact Except.ok.inj h
  · next value hobject =>
    obtain rfl := Except.ok.inj h
    unfold prop
    split
    · next fields heq => exact absurd (Option.some.inj heq) (hobject fields)
    · rfl

/-- A bid comes to the queue of the RFP that its record names. -/
theorem queuesFor_onBid {uri : String} {cid : Value} {record : RecordMap} (hp : QueuesFor pending)
    (h : onBid uri cid record pending = .ok pending') : QueuesFor pending' := by
  obtain ⟨v, hv, h⟩ := bind_eq_ok.1 h
  obtain ⟨o, ho, hv⟩ := bind_eq_ok.1 (mapError_eq_ok.1 hv)
  have hrfp : prop (prop (some (.object record)) "rfp") "uri" = v := by
    rw [prop_of_get ho, prop_of_get hv]
  split at h
  · next named =>
    obtain rfl := Except.ok.inj h
    intro rfpUri b hb
    rw [pendingFor, lookup_set] at hb
    split_ifs at hb with heq
    · subst heq
      rcases List.mem_append.1 hb with hb | hb
      · exact hp _ b hb
      · obtain rfl := List.mem_singleton.1 hb
        exact ⟨hrfp, .inl rfl⟩
    · exact hp rfpUri b hb
  · obtain rfl := Except.ok.inj h
    exact hp

theorem verifyAuthored_eq_ok {v : Option Value} {recordUri : String} {record : RecordMap}
    (h : verifyAuthored w v recordUri = .ok record) : v = some (.object record) ∧
      verifyRecordSignatures w.primitives w.keyResolver (some w.keysForDid) record
        (atUriAuthority recordUri) := by
  unfold verifyAuthored at h
  split at h
  · split_ifs at h with hsigned
    obtain rfl := Except.ok.inj h
    exact ⟨rfl, hsigned⟩
  · cases h

/-- What was checked of a bid that is queued. -/
theorem submitBid_eq_ok {req : SubmitBidRequest} (h : submitBid w req pending = .ok pending') :
    ∃ uri cid record, prop req.body "uri" = some (.text uri) ∧ prop req.body "cid" = some cid ∧
      prop req.body "record" = some (.object record) ∧ req.auth = .ok (atUriAuthority uri) ∧
      verifyRecordSignatures w.primitives w.keyResolver (some w.keysForDid) record
        (atUriAuthority uri) ∧
      onBid uri cid record pending = .ok pending' := by
  obtain ⟨⟨⟩, -, h⟩ := bind_eq_ok.1 h
  obtain ⟨⟨⟩, -, h⟩ := bind_eq_ok.1 h
  obtain ⟨issuerDid, hauth, h⟩ := bind_eq_ok.1 h
  split at h
  · next uri cid huri hcid =>
    obtain ⟨⟨⟩, hissuer, h⟩ := bind_eq_ok.1 h
    obtain ⟨record, hrecord, h⟩ := bind_eq_ok.1 h
    obtain ⟨hrecord, hsigned⟩ := verifyAuthored_eq_ok hrecord
    have hauth := (mapError_eq_ok.1 hauth).trans
      (congrArg Except.ok (of_decide_eq_true (require_eq_ok.1 hissuer)))
    exact ⟨uri, cid, record, huri, hcid, hrecord, hauth, hsigned, h⟩
  · cases h

theorem queuesFor_afterSubmit (hp : QueuesFor pending) (req : SubmitBidRequest) :
    QueuesFor (afterSubmit w pending req) := by
  unfold afterSubmit
  split
  · next pending' h =>
    obtain ⟨_, _, _, -, -, -, -, -, h⟩ := submitBid_eq_ok h
    exact queuesFor_onBid hp h
  · exact hp

theorem queuesFor_erase (hp : QueuesFor pending) : QueuesFor (erase rfpUri pending) := by
  intro rfpUri' b hb
  rw [pendingFor, lookup_erase] at hb
  split_ifs at hb
  · cases hb
  · exact hp rfpUri' b hb

theorem bidsFor_concat {bids : List CollectedBid} {b : CollectedBid}
    (hs : BidsFor rfpUri allowedDids bids) (hb : BidFor rfpUri b) (hdid : b.did ∈ allowedDids) :
    BidsFor rfpUri allowedDids (bids ++ [b]) :=
  List.forall_mem_append.2 ⟨hs, List.forall_mem_singleton.2 ⟨hb, hdid⟩⟩

theorem bidsFor_addDirect {s : Collector} {b : CollectedBid}
    (hs : BidsFor rfpUri allowedDids s.bids) (hb : BidFor rfpUri b) :
    BidsFor rfpUri allowedDids (addDirect allowedDids s b).bids := by
  unfold addDirect
  by_cases hdid : b.did ∈ allowedDids
  · rw [if_neg (not_not.2 hdid)]
    split_ifs
    · exact hs
    · exact bidsFor_concat hs hb hdid
  · rwa [if_pos hdid]

theorem bidsFor_drain {queue : List CollectedBid} {s : Collector}
    (hs : BidsFor rfpUri allowedDids s.bids) (hqueue : ∀ b ∈ queue, BidFor rfpUri b) :
    BidsFor rfpUri allowedDids (queue.foldl (addDirect allowedDids) s).bids := by
  induction queue generalizing s with
  | nil => exact hs
  | cons b queue ih =>
    obtain ⟨hb, hqueue⟩ := List.forall_mem_cons.1 hqueue
    exact ih (bidsFor_addDirect hs hb) hqueue

theorem bidsFor_receiveBid {did record : Option Value} {repo rkey : String} {cid : Value}
    {s : Collector} (hs : BidsFor rfpUri allowedDids s.bids) (hrepo : w.text did = .ok repo)
    (hrfp : prop (prop record "rfp") "uri" = some (.text rfpUri)) :
    BidsFor rfpUri allowedDids
      (receiveBid allowedDids did s!"at://{repo}/{BID_NSID}/{rkey}" cid record s).bids := by
  unfold receiveBid
  split
  · split_ifs with hdid
    · refine bidsFor_concat hs ⟨hrfp, .inr ⟨s!"{BID_NSID}/{rkey}", ?_⟩⟩ hdid.2
      obtain rfl := Except.ok.inj hrepo
      simp only [String.append_assoc]
      rfl
    · exact hs
  · exact hs

theorem bidsFor_onMessage {msg : Value} {s s' : Collector}
    (hs : BidsFor rfpUri allowedDids s.bids)
    (h : onMessage w rfpUri allowedDids msg s = .ok s') : BidsFor rfpUri allowedDids s'.bids := by
  obtain ⟨did, -, h⟩ := bind_eq_ok.1 h
  obtain ⟨commit, -, h⟩ := bind_eq_ok.1 h
  dsimp only at h
  split at h
  · next hcond =>
    obtain ⟨repo, hrepo, h⟩ := bind_eq_ok.1 h
    obtain ⟨rkey, -, h⟩ := bind_eq_ok.1 h
    split at h
    · obtain rfl := Except.ok.inj h
      exact hs
    · obtain rfl := Except.ok.inj h
      exact bidsFor_receiveBid hs hrepo (eq_of_isText (Bool.and_eq_true_iff.1 hcond).2)
  · obtain rfl := Except.ok.inj h
    exact hs

/-- A step of the window keeps the queues and the bids for what they are for. -/
theorem bidsFor_windowStep {s : PendingBids × Collector} (e : Event) (hp : QueuesFor s.1)
    (hs : BidsFor rfpUri allowedDids s.2.bids) :
    QueuesFor (windowStep w rfpUri allowedDids s e).1 ∧
      BidsFor rfpUri allowedDids (windowStep w rfpUri allowedDids s e).2.bids := by
  rcases e with req | _ | msg
  · exact ⟨queuesFor_afterSubmit hp req, hs⟩
  · exact ⟨hp, hs⟩
  · unfold windowStep
    dsimp only
    split
    · next s' h => exact ⟨hp, bidsFor_onMessage hs h⟩
    · exact ⟨hp, hs⟩

/-- And so does the whole window. -/
theorem bidsFor_window (window : List Event) {s : PendingBids × Collector} (hp : QueuesFor s.1)
    (hs : BidsFor rfpUri allowedDids s.2.bids) :
    QueuesFor (window.foldl (windowStep w rfpUri allowedDids) s).1 ∧
      BidsFor rfpUri allowedDids (window.foldl (windowStep w rfpUri allowedDids) s).2.bids := by
  induction window generalizing s with
  | nil => exact ⟨hp, hs⟩
  | cons e window ih =>
    obtain ⟨hp, hs⟩ := bidsFor_windowStep (w := w) e hp hs
    exact ih hp hs

theorem queuesFor_early (early : List SubmitBidRequest) (hp : QueuesFor pending) :
    QueuesFor (early.foldl (afterSubmit w) pending) := by
  induction early generalizing pending with
  | nil => exact hp
  | cons req early ih => exact ih (queuesFor_afterSubmit hp req)

/-- Every bid that is collected is for the RFP, in the repository of a bidder that is allowed. -/
theorem bidsFor_collected (rfp : Ref) (s : Submissions) :
    BidsFor rfp.uri allowedDids (collected w allowedDids rfp s) := by
  have hearly : QueuesFor (s.early.foldl (afterSubmit w) []) :=
    queuesFor_early s.early fun _ _ hb => nomatch hb
  have hpre : BidsFor rfp.uri allowedDids ((pendingFor rfp.uri
      (s.early.foldl (afterSubmit w) [])).foldl (addDirect allowedDids) ⟨[], []⟩).bids :=
    bidsFor_drain (List.forall_mem_nil _) (hearly rfp.uri)
  unfold collected collectBidsForRfp
  dsimp only
  split
  · obtain ⟨hp, hs⟩ := bidsFor_window (w := w) (s := (_, _)) s.window (queuesFor_erase hearly) hpre
    exact bidsFor_drain hs (hp rfp.uri)
  · exact hpre

/-! ## Integrity -/

/-- A JSON value is stored under the CID that a ref has. -/
def HasCid (w : World) (v : Value) (ref : Option Value) : Prop :=
  ∃ lex cid, w.jsonToLex v = .ok lex ∧ createDagCborCid w.primitives.encode lex = .ok cid ∧
    ref = some (.text cid.toString)

/-- The `cid` of a ref of a record. -/
def refCid (record : RecordMap) (name : String) : Option Value :=
  prop (prop (some (.object record)) name) "cid"

/-- What an accept should be. -/
structure Integrity (w : World) (allowedDids : List String) (rfp : Ref) (a : Accepted) : Prop where
  /-- It names the bid of the winner, which was settled. -/
  accept : ∃ receipt, settle w a.winner = .ok receipt ∧ a.accept = acceptRecord w rfp a.winner receipt
  signed : verifyRecordSignatures w.primitives w.keyResolver none a.winner.record a.winner.did
  cid : HasCid w (.object a.winner.record) (some a.winner.cid)
  rfpUri : prop (prop (some (.object a.winner.record)) "rfp") "uri" = some (.text rfp.uri)
  rfpCid : refCid a.winner.record "rfp" = some (.text rfp.cid)
  repository : InRepository a.winner.uri a.winner.did
  allowed : a.winner.did ∈ allowedDids
  /-- What was scored and settled is the payload that the bid names. -/
  payload : ∃ v, a.winner.payload = some v ∧ HasCid w v (refCid a.winner.record "payload")
  /-- The grant is made out of the config that the bid names. -/
  config : ∃ v, a.winner.config = some v ∧ HasCid w v (refCid a.winner.record "config") ∧
    a.grant = roleDefinition w (some v)

/-- A bid is submitted with its CID and for this version of the RFP, and the servers answer for
    its refs with what they name. -/
structure HonestBid (w : World) (rfp : Ref) (n : ℕ) (bid : CollectedBid) : Prop where
  cid : HasCid w (.object bid.record) (some bid.cid)
  rfp : refCid bid.record "rfp" = some (.text rfp.cid)
  answers : ∀ name ∈ ["payload", "config"], ∀ v, resolveRef w ⟨n, name⟩ bid.record = some v →
    HasCid w v (refCid bid.record name)

/-- So is the bid that scores lowest. -/
def Honest (w : World) (allowedDids : List String) (rfp : Ref) (s : Submissions) : Prop :=
  let bids := collected w allowedDids rfp s
  ∀ n bid, (bid, n) ∈ bids.zipIdx →
    scoreLowestCost w (resolveBidPayloads w bids) = .ok (some (resolveBid w n bid)) →
    HonestBid w rfp n bid

theorem mem_of_foldlM_cheaper {bids all : List CollectedBid} {best b : CollectedBid}
    (hbest : best ∈ all) (hbids : ∀ b ∈ bids, b ∈ all)
    (h : bids.foldlM (cheaper w) best = .ok b) : b ∈ all := by
  induction bids generalizing best with
  | nil =>
    obtain rfl := Except.ok.inj h
    exact hbest
  | cons b' bids ih =>
    rw [List.foldlM_cons] at h
    obtain ⟨next, hnext, h⟩ := bind_eq_ok.1 h
    obtain ⟨hb', hbids⟩ := List.forall_mem_cons.1 hbids
    refine ih ?_ hbids h
    obtain ⟨lt, -, hnext⟩ := bind_eq_ok.1 hnext
    split_ifs at hnext
    · exact Except.ok.inj hnext ▸ hb'
    · exact Except.ok.inj hnext ▸ hbest

theorem mem_of_scoreLowestCost {bids : List CollectedBid} {b : CollectedBid}
    (h : scoreLowestCost w bids = .ok (some b)) : b ∈ bids := by
  cases bids with
  | nil => cases h
  | cons first bids =>
    obtain ⟨b', hb', h⟩ := bind_eq_ok.1 h
    obtain rfl := Option.some.inj (Except.ok.inj h)
    exact mem_of_foldlM_cheaper List.mem_cons_self (fun _ hb => hb) hb'

/-- A payload that is settled was resolved. -/
theorem payload_of_settle {b : CollectedBid} {receipt : Option Value}
    (h : settle w b = .ok receipt) : ∃ v, b.payload = some v := by
  rcases hpayload : b.payload with _ | v
  · unfold settle at h
    rw [hpayload] at h
    obtain ⟨_, -, h⟩ := bind_eq_ok.1 h
    cases h
  · exact ⟨v, rfl⟩

/-- What was checked of a bid that is accepted. -/
theorem acceptWinner_eq_ok {rfp : Ref} {bids : List CollectedBid} {a : Accepted}
    (h : acceptWinner w rfp bids = .ok a) :
    scoreLowestCost w (resolveBidPayloads w bids) = .ok (some a.winner) ∧
      verifyRecordSignatures w.primitives w.keyResolver none a.winner.record a.winner.did ∧
      truthy a.winner.config ∧ a.grant = roleDefinition w a.winner.config ∧
      ∃ receipt, settle w a.winner = .ok receipt ∧
        a.accept = acceptRecord w rfp a.winner receipt := by
  obtain ⟨⟨⟩, -, h⟩ := bind_eq_ok.1 h
  obtain ⟨scored, hscored, h⟩ := bind_eq_ok.1 h
  rcases scored with _ | winner
  · cases h
  obtain ⟨⟨⟩, hsigned, h⟩ := bind_eq_ok.1 h
  obtain ⟨⟨⟩, hconfig, h⟩ := bind_eq_ok.1 h
  obtain ⟨receipt, hsettle, h⟩ := bind_eq_ok.1 h
  obtain ⟨acceptRef, -, h⟩ := bind_eq_ok.1 h
  obtain rfl := Except.ok.inj h
  exact ⟨hscored, require_eq_ok.1 hsigned, require_eq_ok.1 hconfig, rfl, receipt, hsettle, rfl⟩

theorem mem_resolveBidPayloads {bids : List CollectedBid} {b : CollectedBid}
    (h : b ∈ resolveBidPayloads w bids) : ∃ n bid, (bid, n) ∈ bids.zipIdx ∧ b = resolveBid w n bid := by
  obtain ⟨⟨bid, n⟩, hmem, rfl⟩ := List.mem_map.1 h
  exact ⟨n, bid, hmem, rfl⟩

/-- An accept has integrity exactly when the bid that scores lowest is honest. -/
theorem auction_integrity_iff {rfp : Ref} {s : Submissions} {a : Accepted}
    (h : marketRFPSubmitWorkflow w allowedDids rfp s = .ok a) :
    Integrity w allowedDids rfp a ↔ Honest w allowedDids rfp s := by
  obtain ⟨hscored, hsigned, hconfig, hgrant, haccept⟩ := acceptWinner_eq_ok h
  obtain ⟨n, bid, hmem, hwinner⟩ := mem_resolveBidPayloads (mem_of_scoreLowestCost hscored)
  have hbid : bid ∈ collected w allowedDids rfp s := (List.mem_zipIdx hmem).2.2 ▸ List.getElem_mem _
  obtain ⟨hfor, hallowed⟩ := bidsFor_collected rfp s bid hbid
  constructor
  · -- The bid that scores lowest is the winner, with what it was resolved to.
    intro hi n' bid' hmem' hscored'
    have heq : a.winner = resolveBid w n' bid' :=
      Option.some.inj (Except.ok.inj (hscored.symm.trans hscored'))
    have hpayload := hi.payload
    have hconfig := hi.config
    have hcid := hi.cid
    have hrfp := hi.rfpCid
    rw [heq] at hpayload hconfig hcid hrfp
    refine ⟨hcid, hrfp, fun name hname v hv => ?_⟩
    rcases List.mem_cons.1 hname with rfl | hname
    · obtain ⟨v', hv', hcid'⟩ := hpayload
      obtain rfl := Option.some.inj (hv.symm.trans hv')
      exact hcid'
    · obtain rfl := List.mem_singleton.1 hname
      obtain ⟨v', hv', hcid', -⟩ := hconfig
      obtain rfl := Option.some.inj (hv.symm.trans hv')
      exact hcid'
  · intro hhonest
    rw [hwinner] at hscored
    obtain ⟨hcid, hrfp, hanswers⟩ := hhonest n bid hmem hscored
    obtain ⟨receipt, hsettle, haccept⟩ := haccept
    obtain ⟨payload, hpayload⟩ := payload_of_settle hsettle
    obtain ⟨config, hconfig⟩ : ∃ v, a.winner.config = some v := by
      rcases hnone : a.winner.config with _ | v
      · rw [hnone] at hconfig
        cases hconfig
      · exact ⟨v, rfl⟩
    rw [hconfig] at hgrant
    refine ⟨⟨receipt, hsettle, haccept⟩, hsigned, ?_, ?_, ?_, ?_, ?_, ⟨payload, hpayload, ?_⟩,
      ⟨config, hconfig, ?_, hgrant⟩⟩
    all_goals rw [hwinner]
    · exact hcid
    · exact hfor.rfp
    · exact hrfp
    · exact hfor.repository
    · exact hallowed
    · exact hanswers "payload" (by simp) payload (by rw [← hpayload, hwinner]; rfl)
    · exact hanswers "config" (by simp) config (by rw [← hconfig, hwinner]; rfl)

end

/-! ## A free bid on the firehose -/

/-- The signature in base64. -/
def sampleStored : RecordMap :=
  [("$type", .text DEFAULT_SIGNATURE_TYPE),
    ("key", .text ("did:key:" ++ bidderKey.multibase)),
    ("signature", .text (bytesToBase64 bidderKey.sig))]

def sampleRefTo (uri cid : String) : Value := .object [("uri", .text uri), ("cid", .text cid)]

/-- The record of a bid of Mallory. -/
def sampleBid (rfpCid payloadCid configCid : String) : RecordMap :=
  [("$type", .text BID_NSID), ("rfp", sampleRefTo sampleRfpUri rfpCid),
    ("payload", sampleRefTo "at://did:plc:mallory/com.publicdomainrelay.temp.market.bids.free/1"
      payloadCid),
    ("config", sampleRefTo "at://did:plc:mallory/com.publicdomainrelay.temp.compute.config/1"
      configCid),
    ("signatures", .array [.object sampleStored])]

def sampleFree : RecordMap := [("$type", .text BIDS_FREE_NSID)]

def sampleConfig : RecordMap :=
  [("$type", .text "com.publicdomainrelay.temp.compute.config"),
    ("issuer_uri", .text "https://mallory.example"), ("actx", .text "did:plc:mallory")]

def sampleWorld : World where
  agentDid := "did:plc:alice"
  spindleHostname := "spindle.example"
  serviceName := "policy-engine-00000001"
  primitives := samplePrimitives
  keyResolver := parseDidKey samplePrimitives
  keysForDid _ := []
  jsonToLex v := .ok v
  template _ := .ok "undefined"
  numberLt _ _ := .ok false
  resolvePDS _ _ := .ok "https://pds.example"
  fetch turn _ := .ok ⟨200, true, "", .ok (.object
    [("value", .object (if turn.name = "payload" then sampleFree else sampleConfig))])⟩
  assertSafeEgressUrl _ := .ok ()
  now := "2025-01-01T00:00:00.000Z"
  createSignedRecord collection _ := .ok
    ⟨s!"at://did:plc:alice/{collection}/1",
      "bafyreigzpkut4vzuke3hl7uyzphjufl4pyys25jveg7cvbifmmafp2iihq"⟩
  payment _ := .error "TypeError"

/-- The creation of a record, as the firehose tells of it. -/
def sampleMessage (cid : String) (record : RecordMap) : Value :=
  .object [("did", .text "did:plc:mallory"), ("commit", .object
    [("operation", .text "create"), ("collection", .text BID_NSID), ("rkey", .text "1"),
      ("cid", .text cid), ("record", .object record)])]

def sampleSubmissions (cid : String) (record : RecordMap) : Submissions :=
  ⟨[], true, [.message (some (sampleMessage cid record))]⟩

/-- The fields of the bid are plain. -/
theorem plainFields_sampleBid {rfpCid payloadCid configCid : String}
    (hrfp : Cbor.plainText rfpCid) (hpayload : Cbor.plainText payloadCid)
    (hconfig : Cbor.plainText configCid) {rest : RecordMap} (hrest : Cbor.plainFields rest) :
    Cbor.plainFields ((sampleBid rfpCid payloadCid configCid).take 4 ++ rest) := by
  have href : ∀ {uri cid : String}, Cbor.plainText uri → Cbor.plainText cid →
      Cbor.plain (sampleRefTo uri cid) := fun huri hcid =>
    Cbor.plain_object.2 ⟨(by decide : 2 < 2 ^ 31), (by decide : ["uri", "cid"].Nodup), rfl,
      Cbor.plainFields_cons (by decide +kernel) huri
        (Cbor.plainFields_cons (by decide +kernel) hcid rfl)⟩
  exact Cbor.plainFields_cons (by decide +kernel) (by decide +kernel)
    (Cbor.plainFields_cons (by decide +kernel) (href (by decide +kernel) hrfp)
      (Cbor.plainFields_cons (by decide +kernel) (href (by decide +kernel) hpayload)
        (Cbor.plainFields_cons (by decide +kernel) (href (by decide +kernel) hconfig) hrest)))

theorem sampleBid_signed {rfpCid payloadCid configCid : String} (hrfp : Cbor.plainText rfpCid)
    (hpayload : Cbor.plainText payloadCid) (hconfig : Cbor.plainText configCid) :
    verifyRecordSignatures samplePrimitives (parseDidKey samplePrimitives) none
      (sampleBid rfpCid payloadCid configCid) "did:plc:mallory" := by
  have hpre : preimage (sampleBid rfpCid payloadCid configCid) sampleStored "did:plc:mallory" none =
      .ok ((sampleBid rfpCid payloadCid configCid).take 4 ++ [("$sig", .object
        [("$type", .text DEFAULT_SIGNATURE_TYPE),
          ("key", .text ("did:key:" ++ bidderKey.multibase)),
          ("repository", .text "did:plc:mallory")])]) := rfl
  have hsignature : marketNormalizeSignature (sampleStored.lookup "signature") =
      .ok (some bidderKey.sig) :=
    bind_eq_ok.2 ⟨_, base64ToBytes_bytesToBase64 _, rfl⟩
  refine signed_of_entry (sampleKey_mem _) rfl rfl rfl hsignature rfl hpre
    (Cbor.plain_object.2 ⟨?_, ?_, rfl, ?_⟩)
  · exact (by decide : 5 < 2 ^ 31)
  · exact (by decide : ["$type", "rfp", "payload", "config", "$sig"].Nodup)
  · exact plainFields_sampleBid hrfp hpayload hconfig (by decide +kernel)

/-- The bid, as it is collected. -/
def sampleCollected (cid : String) (record : RecordMap) : CollectedBid :=
  ⟨"did:plc:mallory", s!"at://did:plc:mallory/{BID_NSID}/1", .text cid, record, none, none⟩

theorem collected_sample (rfp : Ref) (huri : rfp.uri = sampleRfpUri)
    (cid rfpCid payloadCid configCid : String) :
    collected sampleWorld ["did:plc:mallory"] rfp
        (sampleSubmissions cid (sampleBid rfpCid payloadCid configCid)) =
      [sampleCollected cid (sampleBid rfpCid payloadCid configCid)] := by
  obtain ⟨uri, rfpCid'⟩ := rfp
  obtain rfl : uri = sampleRfpUri := huri
  rfl

/-- The bid is accepted, whatever CIDs it comes with. -/
theorem sampleBid_accepted (cid : String) (rfp : Ref) (huri : rfp.uri = sampleRfpUri)
    {rfpCid payloadCid configCid : String} (hrfp : Cbor.plainText rfpCid)
    (hpayload : Cbor.plainText payloadCid) (hconfig : Cbor.plainText configCid) :
    ∃ a, marketRFPSubmitWorkflow sampleWorld ["did:plc:mallory"] rfp
        (sampleSubmissions cid (sampleBid rfpCid payloadCid configCid)) = .ok a ∧
      a.winner =
        resolveBid sampleWorld 0 (sampleCollected cid (sampleBid rfpCid payloadCid configCid)) := by
  let winner :=
    resolveBid sampleWorld 0 (sampleCollected cid (sampleBid rfpCid payloadCid configCid))
  have hscored : scoreLowestCost sampleWorld (resolveBidPayloads sampleWorld
      [sampleCollected cid (sampleBid rfpCid payloadCid configCid)]) = .ok (some winner) := rfl
  have hsigned := sampleBid_signed hrfp hpayload hconfig
  refine ⟨⟨winner, acceptRecord sampleWorld rfp winner none,
    ⟨s!"at://did:plc:alice/{ACCEPT_NSID}/1", "bafyreigzpkut4vzuke3hl7uyzphjufl4pyys25jveg7cvbifmmafp2iihq"⟩,
    roleDefinition sampleWorld winner.config⟩, ?_, rfl⟩
  rw [marketRFPSubmitWorkflow, collected_sample rfp huri]
  exact bind_eq_ok.2 ⟨(), rfl, bind_eq_ok.2 ⟨_, hscored, bind_eq_ok.2 ⟨(), require_eq_ok.2 hsigned,
    bind_eq_ok.2 ⟨(), rfl, bind_eq_ok.2 ⟨none, rfl, bind_eq_ok.2 ⟨_, rfl, rfl⟩⟩⟩⟩⟩⟩

/-- The answers are what Mallory has signed, and so is what is accepted. -/
theorem auction_integrity_sample : ∃ (rfp : Ref) (s : Submissions) (a : Accepted),
    marketRFPSubmitWorkflow sampleWorld ["did:plc:mallory"] rfp s = .ok a ∧
      Integrity sampleWorld ["did:plc:mallory"] rfp a := by
  obtain ⟨freeCid, hfreeContent, hfreeCid, hfree⟩ :=
    sampleCid_eq (by decide +kernel : Cbor.plain (.object sampleFree))
  obtain ⟨configCid, hconfigContent, hconfigCid, hconfig⟩ :=
    sampleCid_eq (by decide +kernel : Cbor.plain (.object sampleConfig))
  have hrfp : Cbor.plainText "bafyreibnmoc2dvo7rqpxateyui4yjo3psdplmymp7hos4zrhhcn72ebl3a" := by
    decide +kernel
  let record := sampleBid "bafyreibnmoc2dvo7rqpxateyui4yjo3psdplmymp7hos4zrhhcn72ebl3a"
    (sampleCid sampleFree) (sampleCid sampleConfig)
  have hplain : Cbor.plain (.object record) :=
    Cbor.plain_object.2 ⟨(by decide : 5 < 2 ^ 31),
      (by decide : ["$type", "rfp", "payload", "config", "signatures"].Nodup), rfl,
      plainFields_sampleBid hrfp hfree hconfig (by decide +kernel)⟩
  obtain ⟨bidCid, hbidContent, hbidCid, -⟩ := sampleCid_eq hplain
  let rfp : Ref :=
    ⟨sampleRfpUri, "bafyreibnmoc2dvo7rqpxateyui4yjo3psdplmymp7hos4zrhhcn72ebl3a"⟩
  obtain ⟨a, ha, hwinner⟩ := sampleBid_accepted (sampleCid record) rfp rfl hrfp hfree hconfig
  refine ⟨rfp, _, a, ha, (auction_integrity_iff ha).2 ?_⟩
  intro n bid hmem hscored
  rw [collected_sample rfp rfl] at hmem
  obtain ⟨rfl, rfl⟩ := Prod.mk.inj (List.mem_singleton.1 hmem)
  refine ⟨⟨_, bidCid, rfl, hbidContent, congrArg (fun c => some (Value.text c)) hbidCid⟩, rfl, ?_⟩
  intro name hname v hv
  rcases List.mem_cons.1 hname with rfl | hname
  · obtain rfl := Option.some.inj hv
    exact ⟨_, freeCid, rfl, hfreeContent, congrArg (fun c => some (Value.text c)) hfreeCid⟩
  · obtain rfl := List.mem_singleton.1 hname
    obtain rfl := Option.some.inj hv
    exact ⟨_, configCid, rfl, hconfigContent, congrArg (fun c => some (Value.text c)) hconfigCid⟩

/-- Mallory bids for another version of the RFP. -/
theorem auction_of_another : ¬ ∀ (w : World) (allowedDids : List String) (rfp : Ref)
    (s : Submissions) (a : Accepted), w.primitives.Lawful →
    marketRFPSubmitWorkflow w allowedDids rfp s = .ok a → Integrity w allowedDids rfp a := by
  intro hall
  have hplain : Cbor.plainText "bafyreigzpkut4vzuke3hl7uyzphjufl4pyys25jveg7cvbifmmafp2iihq" := by
    decide +kernel
  obtain ⟨a, ha, hwinner⟩ := sampleBid_accepted
    "bafyreifhu2mkxot7xtcpuqtxd2cumxavbbeg325dqybbskwbovbqmyzdl4"
    ⟨sampleRfpUri, "bafyreibnmoc2dvo7rqpxateyui4yjo3psdplmymp7hos4zrhhcn72ebl3a"⟩ rfl
    hplain hplain hplain
  have hrfp := (hall _ _ _ _ _ samplePrimitives_lawful ha).rfpCid
  rw [hwinner] at hrfp
  exact absurd (Value.text.inj (Option.some.inj hrfp)) (by decide)

end ComputeContract.Auction
