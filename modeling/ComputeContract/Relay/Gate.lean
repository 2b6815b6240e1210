import Mathlib.Data.List.Induction
import ComputeContract.Lib.Split
import ComputeContract.Rbac.Oidc

/-!
# The app of the relay worker

The requests that the dispatcher relays to the browser, and the messages of the tabs that come
in between. The terminal password of a machine, and the leave to write its ssh key, are for
the bearer of a token of that machine (`verifyTtydOidc`), which is verified in three steps: a
look at the token when the request comes in (`gate`), the discovery document of its issuer,
and the verdict of `jose`. The machines and the issuers may change meanwhile.

* `answers_unlocked`: what a token had to be for what was answered and written.
* `contacts_trusted`: only configured issuers are asked.
* `unlocked_same`: one token is for one machine, as long as the names of the machines are plain.
-/

namespace ComputeContract.RelayApp

open AssocList

/-! ## The gate -/

structure TtydRequest where
  vmName : String
  serviceName : String
  didPlc : String
  didPlcKey : String
  password : String

/-- `authHeader.replace(/^Bearer\s+/i, '')` -/
def bearerToken (authHeader : String) : List Char :=
  let cs := authHeader.toList
  match cs.drop 6 with
  | c :: rest =>
    if (cs.take 6).map Char.toLower = "bearer".toList ∧ isSpace c then rest.dropWhile isSpace
    else cs
  | [] => cs

/-- What a token says of itself before it is verified. -/
structure Claim where
  token : String
  iss : String
  rawAud : Json

def firstAud : Option Json → Option Json
  | some (.array auds) => auds.head?
  | aud => aud

def issuer (unverified : JWTPayload) : String :=
  match unverified.lookup "iss" with
  | some (.string iss) => iss
  | _ => ""

variable (H : Host)

/-- `verifyTtydOidc`, up to its first `await`; errors are their texts. -/
def gate (trustedIssuerUrls : List String) (authHeader : Option String) : Except String Claim :=
  let token := bearerToken (authHeader.getD "")
  if (token.splitOn '.').length ≠ 3 then .error "Error: missing or malformed OIDC token"
  else match H.decodeJwt (String.ofList token) with
    | .error text => .error text
    | .ok unverified =>
      match firstAud (unverified.lookup "aud") with
      | none => .error "Error: OIDC token missing aud/iss"
      | some rawAud =>
        if !Json.truthy (some rawAud) ∨ issuer unverified = "" then
          .error "Error: OIDC token missing aud/iss"
        else if issuer unverified ∉ trustedIssuerUrls then
          .error ("Error: untrusted OIDC issuer: " ++ issuer unverified)
        else .ok ⟨String.ofList token, issuer unverified, rawAud⟩

/-- The `jwks_uri` of a discovery document. -/
def keySetUrl (response : Option FetchResponse) : Except String String :=
  match response with
  | none => .error "TypeError: fetch failed"
  | some response =>
    match response.body with
    | none => .error "SyntaxError"
    | some oidcCfg =>
      match oidcCfg.member "jwks_uri" with
      | .error _ => .error "TypeError"
      | .ok jwksUri =>
        match H.parseUrl jwksUri with
        | none => .error "TypeError: Invalid URL"
        | some url => .ok url

def actxFromAudience (aud : Option Json) : Except String (Option String) :=
  match firstAud aud with
  | some (.string rawAud) =>
    match rawAud.toList.idxOf? '?' with
    | none => .ok none
    | some i => .ok ((UrlEncoded.searchParams (String.ofList (rawAud.toList.drop (i + 1)))).lookup
        "actx")
  | rawAud => if Json.truthy rawAud then .error "TypeError" else .ok none

/-- The subject of a token for the machine ends so, for one of its two roles. -/
def TtydRequest.subEnd (r : TtydRequest) (role : String) : List Char :=
  ":plc:".toList ++ r.didPlcKey.toList ++ ":role:".toList ++ role.toList

def TtydRequest.roles (r : TtydRequest) : List String :=
  ["get-ttyd-password-" ++ r.vmName, r.vmName]

def TtydRequest.isFor (r : TtydRequest) (actx sub : String) : Bool :=
  r.didPlc = actx && "actx:".toList.isPrefixOf sub.toList &&
    r.roles.any fun role => (r.subEnd role).isSuffixOf sub.toList

/-- `payload.sub ?? ''`, on which `startsWith` is called when a machine of the owner is met. -/
def subject (requests : List TtydRequest) (actx : String) (payload : JWTPayload) :
    Except String String :=
  match payload.lookup "sub" with
  | none | some .null => .ok ""
  | some (.string sub) => .ok sub
  | some _ => if requests.any fun r => r.didPlc = actx then .error "TypeError" else .ok ""

/-- `verifyTtydOidc`, from the verified claims on. -/
def pendingRequest (ttydRequests : List (String × TtydRequest)) (payload : JWTPayload) :
    Except String TtydRequest :=
  let requests := ttydRequests.map Prod.snd
  match actxFromAudience (payload.lookup "aud") with
  | .error text => .error text
  | .ok none | .ok (some "") => .error "Error: OIDC aud missing actx"
  | .ok (some actx) =>
    match subject requests actx payload with
    | .error text => .error text
    | .ok sub =>
      match requests.find? fun r => r.isFor actx sub with
      | none => .error "Error: no pending VM request matches token actx/sub"
      | some r => .ok r

/-! ## The app -/

/-- A request for `/xrpc/*`, under the method it is routed by. -/
structure XrpcRequest where
  method : String
  nsid : String
  /-- `query('collection')` -/
  collection : Option String
  authorization : Option String
  /-- `json()`; `none` throws. -/
  body : Option Json

inductive Reply
  /-- `cors` -/
  | preflight
  | error (status : ℕ) (code : String) (message : Option String)
  /-- What nothing caught. -/
  | crash
  /-- There is no page. -/
  | notImplemented (nsid : String)
  | credentials (r : TtydRequest)
  | ok
  | created (out : Json)
  /-- What the server of the page answers. -/
  | passed (response : Json)

def TTYD_CREDS_NSID : String := "com.fedproxy.ttydCredentials"
def SSH_KEY_NSID : String := "com.fedproxy.sshPublicKey"
def TTYD_USERNAME : String := "agent"

/-- The status and the JSON of a reply of the app itself. -/
def Reply.json : Reply → Option (ℕ × Json)
  | .preflight | .crash | .passed _ => none
  | .error status code message => some (status, .object (("error", .string code) ::
      message.toList.map fun message => ("message", .string message)))
  | .notImplemented nsid => some (501, .object [("error", .string "MethodNotImplemented"),
      ("nsid", .string nsid)])
  | .credentials r => some (200, .object [
      ("uri", .string ("at://" ++ r.didPlc ++ "/" ++ TTYD_CREDS_NSID ++ "/" ++ r.vmName)),
      ("value", .object [("$type", .string TTYD_CREDS_NSID), ("username", .string TTYD_USERNAME),
        ("password", .string r.password)])])
  | .ok => some (200, .object [("ok", .bool true)])
  | .created out => some (200, out)

/-- What leaves the worker, for the request of a number. -/
inductive Output
  | reply (i : ℕ) (reply : Reply)
  /-- A host that the verification of a token asks. -/
  | contact (i : ℕ) (url : String)
  /-- The record that a tab is to write, for the machine. -/
  | createRecord (i : ℕ) (r : TtydRequest) (record : Json)
  /-- The request, for the server of the page. -/
  | pdsFetch (i : ℕ) (q : XrpcRequest)
  | bid (i : ℕ) (rfpUri : Json) (did : String) (uri cid record : Json)
  | event (i : ℕ) (callerDid : String) (uri : Json)

/-- What is given to the bearer of a token, for the request of a number. -/
def Output.unlocks : Output → Option (ℕ × TtydRequest)
  | .reply i (.credentials r) => some (i, r)
  | .createRecord i r _ => some (i, r)
  | _ => none

/-- Where the answer to a request waits. -/
inductive Flight
  /-- For the discovery document. -/
  | discover (q : XrpcRequest) (claim : Claim)
  /-- For `jose.jwtVerify` with the key set of the URL. -/
  | verify (q : XrpcRequest) (claim : Claim) (url : String)
  /-- For `verifyServiceAuth`. -/
  | serviceAuth (q : XrpcRequest)
  /-- For the tab that writes a record. -/
  | write (r : TtydRequest)
  | forward (q : XrpcRequest)

structure Worker where
  subdomain : Option String
  trustedIssuerUrls : List String
  ttydRequests : List (String × TtydRequest)
  sshReadyServices : List String
  /-- How many requests came in. -/
  requests : ℕ
  flights : List (ℕ × Flight)
  outputs : List Output

namespace Worker

def start : Worker := ⟨none, [], [], [], 0, [], []⟩

def emit (o : Output) (s : Worker) : Worker := { s with outputs := s.outputs ++ [o] }

def answer (i : ℕ) (reply : Reply) (s : Worker) : Worker := s.emit (.reply i reply)

def wait (i : ℕ) (flight : Flight) (s : Worker) : Worker :=
  { s with flights := (i, flight) :: s.flights }

def unauthorized (i : ℕ) (text : String) (s : Worker) : Worker :=
  s.answer i (.error 401 "Unauthorized" (some text))

def invalid (i : ℕ) (message : String) (s : Worker) : Worker :=
  s.answer i (.error 400 "InvalidRequest" (some message))

/-- The `TypeError` of a property of `null`, which the handlers do not catch. -/
def crash (i : ℕ) (s : Worker) : Worker := s.answer i .crash

def forward (i : ℕ) (q : XrpcRequest) (s : Worker) : Worker :=
  (s.emit (.pdsFetch i q)).wait i (.forward q)

def submitBid (i : ℕ) (q : XrpcRequest) (callerDid : String) (s : Worker) : Worker :=
  match q.body with
  | none => s.invalid i "invalid JSON body"
  | some input =>
    match input.member "uri", input.member "cid", input.member "record" with
    | .ok (some uri), .ok (some cid), .ok (some bid) =>
      if Json.truthy (some uri) ∧ Json.truthy (some cid) ∧ Json.truthy (some bid) then
        match bid.member "rfp" with
        | .error _ => s.crash i
        | .ok rfp =>
          -- `?.uri`
          match rfp.bind fun rfp => (rfp.member "uri").toOption.join with
          | none => s.invalid i "bid.rfp.uri missing"
          | some rfpUri =>
            if Json.truthy (some rfpUri) then
              (s.emit (.bid i rfpUri callerDid uri cid bid)).answer i .ok
            else s.invalid i "bid.rfp.uri missing"
      else s.invalid i "uri, cid, and record are required"
    | .error _, _, _ => s.crash i
    | _, _, _ => s.invalid i "uri, cid, and record are required"

def submitEvent (i : ℕ) (q : XrpcRequest) (callerDid : String) (s : Worker) : Worker :=
  match q.body with
  | none => s.invalid i "invalid JSON body"
  | some input =>
    match input.member "uri", input.member "cid", input.member "record" with
    | .ok (some uri), .ok (some cid), .ok (some record) =>
      if Json.truthy (some uri) ∧ Json.truthy (some cid) ∧ Json.truthy (some record) then
        (s.emit (.event i callerDid uri)).answer i .ok
      else s.invalid i "uri, cid, and record are required"
    | .error _, _, _ => s.crash i
    | _, _, _ => s.invalid i "uri, cid, and record are required"

def getRecord (i : ℕ) (q : XrpcRequest) (ttydReq : Option TtydRequest) (s : Worker) : Worker :=
  match ttydReq with
  | some r =>
    if q.collection.all fun collection => collection = "" ∨ collection = TTYD_CREDS_NSID then
      s.answer i (.credentials r)
    else s.forward i q
  | none => s.forward i q

def createRecord (i : ℕ) (q : XrpcRequest) (ttydReq : Option TtydRequest) (s : Worker) : Worker :=
  match ttydReq with
  | none => s.answer i (.error 401 "Unauthorized" none)
  | some r =>
    match q.body with
    | none => s.invalid i "invalid JSON body"
    | some input =>
      match input.member "collection", input.member "record" with
      | .ok (some (.string collection)), .ok (some record) =>
        if collection = SSH_KEY_NSID ∧ Json.truthy (some record) then
          (s.emit (.createRecord i r record)).wait i (.write r)
        else s.invalid i ("only " ++ SSH_KEY_NSID ++ " supported")
      | .error _, _ => s.crash i
      | _, _ => s.invalid i ("only " ++ SSH_KEY_NSID ++ " supported")

def GET_RECORD : String := "com.atproto.repo.getRecord"
def CREATE_RECORD : String := "com.atproto.repo.createRecord"
def SUBMIT_BID : String := "com.publicdomainrelay.temp.market.submitBid"
def SUBMIT_EVENT : String := "com.publicdomainrelay.temp.market.submitEvent"

/-- The reads that anyone may make. -/
def READS : List String :=
  [GET_RECORD, "com.atproto.repo.listRecords", "com.atproto.server.describeServer"]

def OIDC_CREATE_NSIDS : List String := [CREATE_RECORD]

def MARKET_NSIDS : List String := [SUBMIT_BID, SUBMIT_EVENT]

/-- The handlers behind the middleware, with what it has set. -/
def handle (i : ℕ) (q : XrpcRequest) (ttydReq : Option TtydRequest) (callerDid : String)
    (s : Worker) : Worker :=
  if q.method = "POST" ∧ q.nsid = SUBMIT_BID then s.submitBid i q callerDid
  else if q.method = "POST" ∧ q.nsid = SUBMIT_EVENT then s.submitEvent i q callerDid
  else if q.method = "GET" ∧ q.nsid = GET_RECORD then s.getRecord i q ttydReq
  else if q.method = "POST" ∧ q.nsid = CREATE_RECORD then s.createRecord i q ttydReq
  else s.forward i q

/-- `verifyTtydOidc` for the request of a number. -/
def verifyTtydOidc (i : ℕ) (q : XrpcRequest) (s : Worker) : Worker :=
  match gate H s.trustedIssuerUrls q.authorization with
  | .error text => s.unauthorized i text
  | .ok claim => (s.emit (.contact i (Host.discoveryUrl claim.iss))).wait i (.discover q claim)

/-- The middleware, for the request of a number. -/
def middleware (i : ℕ) (q : XrpcRequest) (s : Worker) : Worker :=
  if q.method = "OPTIONS" then s.answer i .preflight
  else if !s.subdomain.any (· ≠ "") then s.unauthorized i "not yet registered"
  else if q.nsid ∈ READS then
    if q.nsid = GET_RECORD ∧ q.collection = some TTYD_CREDS_NSID then s.verifyTtydOidc H i q
    else s.handle i q none ""
  else if q.nsid ∈ OIDC_CREATE_NSIDS then s.verifyTtydOidc H i q
  else if q.nsid ∈ MARKET_NSIDS then s.wait i (.serviceAuth q)
  else s.handle i q none ""

def markSshReady (serviceName : String) (s : Worker) : Worker :=
  if serviceName ∈ s.sshReadyServices then s
  else { s with sshReadyServices := s.sshReadyServices ++ [serviceName] }

/-! ### The steps -/

/-- What comes to the worker; the last five are for a request that waits. -/
inductive Event
  | registered (subdomain : String)
  | closed
  | registerTtyd (r : TtydRequest)
  | trust (trustedIssuerUrls : Option (List String))
  | request (q : XrpcRequest)
  | discovered (i : ℕ) (response : Option FetchResponse)
  /-- `jose` fetches the key set. -/
  | fetchKeys (i : ℕ)
  | verified (i : ℕ) (verdict : Except String JWTPayload)
  | authenticated (i : ℕ) (verdict : Except String String)
  /-- `oauthResult`, or the failure of the call. -/
  | oauthResult (i : ℕ) (result : Except String Json)

/-- The request goes on. -/
def leave (i : ℕ) (s : Worker) : Worker := { s with flights := erase i s.flights }

def discovered (i : ℕ) (response : Option FetchResponse) (s : Worker) : Worker :=
  match s.flights.lookup i with
  | some (.discover q claim) =>
    match keySetUrl H response with
    | .error text => (s.leave i).unauthorized i text
    | .ok url => (s.leave i).wait i (.verify q claim url)
  | _ => s

def fetchKeys (i : ℕ) (s : Worker) : Worker :=
  match s.flights.lookup i with
  | some (.verify _ _ url) => s.emit (.contact i url)
  | _ => s

def verified (i : ℕ) (verdict : Except String JWTPayload) (s : Worker) : Worker :=
  match s.flights.lookup i with
  | some (.verify q _ _) =>
    match verdict >>= pendingRequest s.ttydRequests with
    | .error text => (s.leave i).unauthorized i text
    | .ok r => (s.leave i).handle i q (some r) ""
  | _ => s

def authenticated (i : ℕ) (verdict : Except String String) (s : Worker) : Worker :=
  match s.flights.lookup i with
  | some (.serviceAuth q) =>
    match verdict with
    | .error text => (s.leave i).unauthorized i text
    | .ok issuerDid => (s.leave i).handle i q none issuerDid
  | _ => s

def oauthResult (i : ℕ) (result : Except String Json) (s : Worker) : Worker :=
  match s.flights.lookup i with
  | some (.write r) =>
    match result with
    | .ok out => ((s.leave i).markSshReady r.serviceName).answer i (.created out)
    | .error text => (s.leave i).answer i (.error 500 "HandlerError" (some text))
  | some (.forward q) =>
    match result with
    | .ok response => (s.leave i).answer i (.passed response)
    | .error _ =>
      if q.method = "GET" ∧ q.nsid = GET_RECORD then
        (s.leave i).answer i (.error 503 "RecordNotFound" (some "PDS not available"))
      else (s.leave i).answer i (.notImplemented q.nsid)
  | _ => s

def step (s : Worker) : Event → Worker
  | .registered subdomain => { s with subdomain := some subdomain }
  | .closed => { s with subdomain := none }
  | .registerTtyd r => { s with ttydRequests := set r.vmName r s.ttydRequests }
  | .trust urls => { s with trustedIssuerUrls := urls.getD [] }
  | .request q => middleware H s.requests q { s with requests := s.requests + 1 }
  | .discovered i response => s.discovered H i response
  | .fetchKeys i => s.fetchKeys i
  | .verified i verdict => s.verified i verdict
  | .authenticated i verdict => s.authenticated i verdict
  | .oauthResult i result => s.oauthResult i result

def run (es : List Event) : Worker := es.foldl (step H) start

def Event.request? : Event → Option XrpcRequest
  | .request q => some q
  | _ => none

/-- The requests that came in; the number of each is its index. -/
def arrivals (es : List Event) : List XrpcRequest := es.filterMap Event.request?

/-! ## What the token was -/

/-- The request of the number came in with the token, while its own issuer was configured. -/
def Admitted (es : List Event) (i : ℕ) (q : XrpcRequest) (claim : Claim) : Prop :=
  ∃ es₁ es₂, es = es₁ ++ .request q :: es₂ ∧ (arrivals es₁).length = i ∧
    claim.token = String.ofList (bearerToken (q.authorization.getD "")) ∧
    (H.decodeJwt claim.token).map issuer = .ok claim.iss ∧
    claim.iss ∈ (run H es₁).trustedIssuerUrls

/-- The discovery document that came for the request names the URL. -/
def Named (es : List Event) (i : ℕ) (url : String) : Prop :=
  ∃ response, .discovered i response ∈ es ∧ keySetUrl H response = .ok url

/-- The claims are for the machine: its owner is the context, and the subject ends in a role. -/
structure Admits (payload : JWTPayload) (r : TtydRequest) : Prop where
  actx : actxFromAudience (payload.lookup "aud") = .ok (some r.didPlc)
  sub : ∃ sub, payload.lookup "sub" = some (.string sub) ∧ "actx:".toList <+: sub.toList ∧
    ∃ role ∈ r.roles, r.subEnd role <:+ sub.toList

/-- The token of the request was admitted, and `jose` verified it, with claims for a machine
    that was registered then. -/
def Unlocked (es : List Event) (i : ℕ) (q : XrpcRequest) (r : TtydRequest) : Prop :=
  ∃ es₁ es₂ claim url payload, es = es₁ ++ .verified i (.ok payload) :: es₂ ∧
    Admitted H es₁ i q claim ∧ (run H es₁).flights.lookup i = some (.verify q claim url) ∧
    (run H es₁).ttydRequests.lookup r.vmName = some r ∧ Admits payload r

/-- The service-auth token of the request was found to be of the issuer. -/
def Authenticated (es : List Event) (i : ℕ) (q : XrpcRequest) (issuerDid : String) : Prop :=
  ∃ es₁ es₂, es = es₁ ++ .authenticated i (.ok issuerDid) :: es₂ ∧
    (run H es₁).flights.lookup i = some (.serviceAuth q)

/-- The record that a request is to write. -/
def Writes (q : XrpcRequest) (record : Json) : Prop :=
  ∃ input, q.body = some input ∧ input.member "collection" = .ok (some (.string SSH_KEY_NSID)) ∧
    input.member "record" = .ok (some record)

def FlightSound (es : List Event) (i : ℕ) : Flight → Prop
  | .discover q claim => Admitted H es i q claim ∧ q.nsid ∉ MARKET_NSIDS
  | .verify q claim url => Admitted H es i q claim ∧ q.nsid ∉ MARKET_NSIDS ∧ Named H es i url
  | .write r => ∃ q, q.nsid = CREATE_RECORD ∧ Unlocked H es i q r
  | .serviceAuth _ | .forward _ => True

def OutputSound (es : List Event) : Output → Prop
  | .reply i (.credentials r) => ∃ q, q.nsid = GET_RECORD ∧ Unlocked H es i q r
  | .createRecord i r record => ∃ q, q.nsid = CREATE_RECORD ∧ Writes q record ∧ Unlocked H es i q r
  | .contact i url => ∃ q claim, Admitted H es i q claim ∧
      (url = Host.discoveryUrl claim.iss ∨ Named H es i url)
  | .bid i _ did _ _ _ => ∃ q, q.nsid = SUBMIT_BID ∧ Authenticated H es i q did
  | .event i did _ => ∃ q, q.nsid = SUBMIT_EVENT ∧ Authenticated H es i q did
  | _ => True

/-- The tab answered that the record is written. -/
def ServiceSound (es : List Event) (serviceName : String) : Prop :=
  ∃ i q r out, r.serviceName = serviceName ∧ q.nsid = CREATE_RECORD ∧ Unlocked H es i q r ∧
    .oauthResult i (.ok out) ∈ es

/-- What holds after each event. -/
structure Sound (es : List Event) (s : Worker) : Prop where
  flights : ∀ f ∈ s.flights, FlightSound H es f.1 f.2
  outputs : ∀ o ∈ s.outputs, OutputSound H es o
  services : ∀ serviceName ∈ s.sshReadyServices, ServiceSound H es serviceName
  registered : ∀ e ∈ s.ttydRequests, e.1 = e.2.vmName ∧ .registerTtyd e.2 ∈ es
  nodup : (keys s.ttydRequests).Nodup
  requests : s.requests = (arrivals es).length

variable {H} {es : List Event} {s : Worker} {i : ℕ} {q : XrpcRequest} {r : TtydRequest}

/-! ### Later events -/

theorem run_concat (es : List Event) (e : Event) : run H (es ++ [e]) = step H (run H es) e := by
  rw [run, List.foldl_append, List.foldl_cons, List.foldl_nil, run]

theorem Admitted.later {claim : Claim} (h : Admitted H es i q claim) (e : Event) :
    Admitted H (es ++ [e]) i q claim := by
  obtain ⟨es₁, es₂, rfl, hrest⟩ := h
  exact ⟨es₁, es₂ ++ [e], by rw [List.append_assoc, List.cons_append], hrest⟩

theorem Named.later {url : String} (h : Named H es i url) (e : Event) :
    Named H (es ++ [e]) i url := by
  obtain ⟨response, hmem, hurl⟩ := h
  exact ⟨response, List.mem_append_left _ hmem, hurl⟩

theorem Unlocked.later (h : Unlocked H es i q r) (e : Event) : Unlocked H (es ++ [e]) i q r := by
  obtain ⟨es₁, es₂, claim, url, payload, rfl, hrest⟩ := h
  exact ⟨es₁, es₂ ++ [e], claim, url, payload, by rw [List.append_assoc, List.cons_append], hrest⟩

theorem Authenticated.later {did : String} (h : Authenticated H es i q did) (e : Event) :
    Authenticated H (es ++ [e]) i q did := by
  obtain ⟨es₁, es₂, rfl, hrest⟩ := h
  exact ⟨es₁, es₂ ++ [e], by rw [List.append_assoc, List.cons_append], hrest⟩

theorem FlightSound.later {flight : Flight} (h : FlightSound H es i flight) (e : Event) :
    FlightSound H (es ++ [e]) i flight := by
  cases flight with
  | discover q claim => exact ⟨h.1.later e, h.2⟩
  | verify q claim url => exact ⟨h.1.later e, h.2.1, h.2.2.later e⟩
  | write r =>
    obtain ⟨q, hnsid, hunlocked⟩ := h
    exact ⟨q, hnsid, hunlocked.later e⟩
  | serviceAuth q => trivial
  | forward q => trivial

theorem OutputSound.later {o : Output} (h : OutputSound H es o) (e : Event) :
    OutputSound H (es ++ [e]) o := by
  cases o with
  | reply i reply =>
    cases reply with
    | credentials r =>
      obtain ⟨q, hnsid, hunlocked⟩ := h
      exact ⟨q, hnsid, hunlocked.later e⟩
    | _ => trivial
  | contact i url =>
    obtain ⟨q, claim, hadmitted, hurl⟩ := h
    exact ⟨q, claim, hadmitted.later e, hurl.imp_right fun h => h.later e⟩
  | createRecord i r record =>
    obtain ⟨q, hnsid, hwrites, hunlocked⟩ := h
    exact ⟨q, hnsid, hwrites, hunlocked.later e⟩
  | pdsFetch i q => trivial
  | bid i rfpUri did uri cid record =>
    obtain ⟨q, hnsid, hauth⟩ := h
    exact ⟨q, hnsid, hauth.later e⟩
  | event i did uri =>
    obtain ⟨q, hnsid, hauth⟩ := h
    exact ⟨q, hnsid, hauth.later e⟩

/-! ### The gate -/

theorem gate_eq_ok {trusted : List String} {authHeader : Option String} {claim : Claim}
    (h : gate H trusted authHeader = .ok claim) :
    claim.token = String.ofList (bearerToken (authHeader.getD "")) ∧
      (H.decodeJwt claim.token).map issuer = .ok claim.iss ∧ claim.iss ∈ trusted := by
  rw [gate] at h
  split at h
  · cases h
  · split at h
    · cases h
    · rename_i unverified hdecode
      split at h
      · cases h
      · split_ifs at h with _ htrusted
        cases h
        exact ⟨rfl, by rw [hdecode]; rfl, htrusted⟩

theorem subject_eq_ok {requests : List TtydRequest} {actx sub : String} {payload : JWTPayload}
    (h : subject requests actx payload = .ok sub) (hstart : "actx:".toList <+: sub.toList) :
    payload.lookup "sub" = some (.string sub) := by
  have hempty : ¬"actx:".toList <+: "".toList := by decide
  rw [subject] at h
  split at h
  · cases h
    exact absurd hstart hempty
  · cases h
    exact absurd hstart hempty
  · rename_i sub' hsub
    cases h
    exact hsub
  · split_ifs at h
    cases h
    exact absurd hstart hempty

theorem pendingRequest_eq_ok {ttydRequests : List (String × TtydRequest)} {payload : JWTPayload}
    (h : pendingRequest ttydRequests payload = .ok r) :
    (∃ name, (name, r) ∈ ttydRequests) ∧ Admits payload r := by
  rw [pendingRequest] at h
  split at h
  · cases h
  · cases h
  · cases h
  · rename_i actx hactx
    split at h
    · cases h
    · rename_i sub hsub
      split at h
      · cases h
      · rename_i r' hfind
        cases h
        obtain ⟨e, he, rfl⟩ := List.mem_map.1 (List.mem_of_find?_eq_some hfind)
        have hfor := List.find?_some hfind
        simp only [TtydRequest.isFor, Bool.and_eq_true, decide_eq_true_eq, List.any_eq_true,
          List.isPrefixOf_iff_prefix, List.isSuffixOf_iff_suffix] at hfor
        obtain ⟨⟨rfl, hstart⟩, hrole⟩ := hfor
        exact ⟨⟨e.1, he⟩, hactx, sub, subject_eq_ok hsub hstart, hstart, hrole⟩

namespace Sound

/-- An event changes nothing of what was said before; a request counts. -/
theorem later (h : Sound H es s) (e : Event) :
    Sound H (es ++ [e]) { s with requests := s.requests + e.request?.toList.length } where
  flights f hf := (h.flights f hf).later e
  outputs o ho := (h.outputs o ho).later e
  services serviceName hmem := by
    obtain ⟨i, q, r, out, hservice, hnsid, hunlocked, hout⟩ := h.services serviceName hmem
    exact ⟨i, q, r, out, hservice, hnsid, hunlocked.later e, List.mem_append_left _ hout⟩
  registered f hf := (h.registered f hf).imp_right fun hmem => List.mem_append_left _ hmem
  nodup := h.nodup
  requests := by
    have harrivals : arrivals (es ++ [e]) = arrivals es ++ e.request?.toList := by
      rw [arrivals, List.filterMap_append]
      cases e <;> rfl
    rw [harrivals, List.length_append, h.requests]

/-! ### The parts of a step -/

theorem emit (h : Sound H es s) {o : Output} (ho : OutputSound H es o) : Sound H es (s.emit o) :=
  { h with
    outputs := by
      intro o' ho'
      rcases List.mem_append.1 ho' with ho' | ho'
      · exact h.outputs o' ho'
      · cases List.mem_singleton.1 ho'
        exact ho }

theorem wait (h : Sound H es s) (flight : Flight) (hflight : FlightSound H es i flight) :
    Sound H es (s.wait i flight) :=
  { h with
    flights := List.forall_mem_cons.2 ⟨hflight, h.flights⟩ }

theorem leave (h : Sound H es s) : Sound H es (s.leave i) :=
  { h with
    flights := fun f hf => h.flights f (mem_of_mem_erase hf) }

theorem markSshReady (h : Sound H es s) {serviceName : String}
    (hservice : ServiceSound H es serviceName) : Sound H es (s.markSshReady serviceName) := by
  rw [Worker.markSshReady]
  split_ifs
  · exact h
  · refine { h with services := fun name hname => ?_ }
    rcases List.mem_append.1 hname with hname | hname
    · exact h.services name hname
    · cases List.mem_singleton.1 hname
      exact hservice

theorem forward (h : Sound H es s) : Sound H es (s.forward i q) :=
  (h.emit (o := .pdsFetch i q) trivial).wait (.forward q) trivial

theorem getRecord {ttydReq : Option TtydRequest} (h : Sound H es s)
    (hunlocked : ∀ r ∈ ttydReq, q.nsid = GET_RECORD ∧ Unlocked H es i q r) :
    Sound H es (s.getRecord i q ttydReq) := by
  cases ttydReq with
  | none => exact h.forward
  | some r =>
    rw [Worker.getRecord]
    split_ifs
    · exact h.emit (o := .reply i (.credentials r)) ⟨q, hunlocked r rfl⟩
    · exact h.forward

theorem createRecord {ttydReq : Option TtydRequest} (h : Sound H es s)
    (hunlocked : ∀ r ∈ ttydReq, q.nsid = CREATE_RECORD ∧ Unlocked H es i q r) :
    Sound H es (s.createRecord i q ttydReq) := by
  cases ttydReq with
  | none => exact h.emit trivial
  | some r =>
    obtain ⟨hnsid, hunlocked⟩ := hunlocked r rfl
    rw [Worker.createRecord]
    split
    · exact h.emit trivial
    · rename_i input hinput
      split
      · rename_i collection record hcollection hrecord
        split_ifs with hkey
        · rw [hkey.1] at hcollection
          have hwrites : Writes q record := ⟨input, hinput, hcollection, hrecord⟩
          exact (h.emit (o := .createRecord i r record) ⟨q, hnsid, hwrites, hunlocked⟩).wait
            (.write r) ⟨q, hnsid, hunlocked⟩
        · exact h.emit trivial
      · exact h.emit trivial
      · exact h.emit trivial

theorem submitBid {callerDid : String} (h : Sound H es s)
    (hauth : q.nsid = SUBMIT_BID ∧ Authenticated H es i q callerDid) :
    Sound H es (s.submitBid i q callerDid) := by
  rw [Worker.submitBid]
  split
  · exact h.emit trivial
  · split
    · split_ifs
      · split
        · exact h.emit trivial
        · split
          · exact h.emit trivial
          · split_ifs
            · exact (h.emit (o := .bid ..) ⟨q, hauth⟩).emit trivial
            · exact h.emit trivial
      · exact h.emit trivial
    · exact h.emit trivial
    · exact h.emit trivial

theorem submitEvent {callerDid : String} (h : Sound H es s)
    (hauth : q.nsid = SUBMIT_EVENT ∧ Authenticated H es i q callerDid) :
    Sound H es (s.submitEvent i q callerDid) := by
  rw [Worker.submitEvent]
  split
  · exact h.emit trivial
  · split
    · split_ifs
      · exact (h.emit (o := .event ..) ⟨q, hauth⟩).emit trivial
      · exact h.emit trivial
    · exact h.emit trivial
    · exact h.emit trivial

theorem handle {ttydReq : Option TtydRequest} {callerDid : String} (h : Sound H es s)
    (hunlocked : ∀ r ∈ ttydReq, Unlocked H es i q r)
    (hauth : q.nsid ∈ MARKET_NSIDS → Authenticated H es i q callerDid) :
    Sound H es (s.handle i q ttydReq callerDid) := by
  rw [Worker.handle]
  split_ifs with hbid hevent hget hcreate
  · exact h.submitBid ⟨hbid.2, hauth (by rw [hbid.2]; exact List.mem_cons_self)⟩
  · exact h.submitEvent
      ⟨hevent.2, hauth (by rw [hevent.2]; exact List.mem_cons_of_mem _ List.mem_cons_self)⟩
  · exact h.getRecord fun r hr => ⟨hget.2, hunlocked r hr⟩
  · exact h.createRecord fun r hr => ⟨hcreate.2, hunlocked r hr⟩
  · exact h.forward

/-! ### The steps -/

theorem verifyTtydOidc (h : Sound H (es ++ [.request q]) s) (hi : (arrivals es).length = i)
    (htrusted : s.trustedIssuerUrls = (run H es).trustedIssuerUrls) (hnsid : q.nsid ∉ MARKET_NSIDS) :
    Sound H (es ++ [.request q]) (s.verifyTtydOidc H i q) := by
  rw [Worker.verifyTtydOidc]
  split
  · exact h.emit trivial
  · rename_i claim hgate
    have hpresented := gate_eq_ok hgate
    rw [htrusted] at hpresented
    have hadmitted : Admitted H (es ++ [.request q]) i q claim := ⟨es, [], rfl, hi, hpresented⟩
    exact (h.emit (o := .contact i _) ⟨q, claim, hadmitted, .inl rfl⟩).wait
      (.discover q claim) ⟨hadmitted, hnsid⟩

theorem middleware (h : Sound H (es ++ [.request q]) s) (hi : (arrivals es).length = i)
    (htrusted : s.trustedIssuerUrls = (run H es).trustedIssuerUrls) :
    Sound H (es ++ [.request q]) (s.middleware H i q) := by
  have hother : q.nsid ∉ MARKET_NSIDS →
      Sound H (es ++ [.request q]) (s.handle i q none "") := fun hnsid =>
    h.handle (fun _ hr => by cases hr) fun hmarket => absurd hmarket hnsid
  have hpublic : ∀ nsid ∈ READS, nsid ∉ MARKET_NSIDS := by decide
  have hgated : ∀ nsid ∈ OIDC_CREATE_NSIDS, nsid ∉ MARKET_NSIDS := by decide
  rw [Worker.middleware]
  split_ifs with _ _ hreads hcreds hcreate hmarket
  · exact h.emit trivial
  · exact h.emit trivial
  · refine h.verifyTtydOidc hi htrusted ?_
    rw [hcreds.1]
    decide
  · exact hother (hpublic _ hreads)
  · exact h.verifyTtydOidc hi htrusted (hgated _ hcreate)
  · exact h.wait (.serviceAuth q) trivial
  · exact hother hmarket

/-- The events for a request that waits. -/
theorem discovered (h : Sound H es s) (response : Option FetchResponse)
    (hmem : .discovered i response ∈ es) : Sound H es (s.discovered H i response) := by
  rw [Worker.discovered]
  split
  · rename_i q claim hflight
    obtain ⟨hadmitted, hnsid⟩ := h.flights _ (mem_of_lookup hflight)
    split
    · exact h.leave.emit trivial
    · rename_i url hurl
      exact h.leave.wait (.verify q claim url)
        ⟨hadmitted, hnsid, response, hmem, hurl⟩
  · exact h

theorem fetchKeys (h : Sound H es s) : Sound H es (s.fetchKeys i) := by
  rw [Worker.fetchKeys]
  split
  · rename_i q claim url hflight
    obtain ⟨hadmitted, _, hnamed⟩ := h.flights _ (mem_of_lookup hflight)
    exact h.emit (o := .contact i url) ⟨q, claim, hadmitted, .inr hnamed⟩
  · exact h

theorem verified {verdict : Except String JWTPayload} (h : Sound H es (run H es)) :
    Sound H (es ++ [.verified i verdict]) ((run H es).verified i verdict) := by
  have hlater := h.later (.verified i verdict)
  rw [Worker.verified]
  split
  · rename_i q claim url hflight
    obtain ⟨hadmitted, hnsid, _⟩ := h.flights _ (mem_of_lookup hflight)
    split
    · exact hlater.leave.emit trivial
    · rename_i r hr
      refine hlater.leave.handle (fun r' hr' => ?_) fun hmarket => absurd hmarket hnsid
      cases hr'
      cases verdict with
      | error text => cases hr
      | ok payload =>
        obtain ⟨⟨name, hname⟩, hadmits⟩ := pendingRequest_eq_ok hr
        have hkey : name = r.vmName := (h.registered _ hname).1
        rw [hkey] at hname
        exact ⟨es, [], claim, url, payload, rfl, hadmitted, hflight,
          (mem_iff_lookup h.nodup).1 hname, hadmits⟩
  · exact hlater

theorem authenticated {verdict : Except String String} (h : Sound H es (run H es)) :
    Sound H (es ++ [.authenticated i verdict]) ((run H es).authenticated i verdict) := by
  have hlater := h.later (.authenticated i verdict)
  rw [Worker.authenticated]
  split
  · rename_i q hflight
    split
    · exact hlater.leave.emit trivial
    · exact hlater.leave.handle (fun _ hr => by cases hr) fun _ => ⟨es, [], rfl, hflight⟩
  · exact hlater

theorem oauthResult {result : Except String Json} (h : Sound H es s)
    (hmem : .oauthResult i result ∈ es) : Sound H es (s.oauthResult i result) := by
  rw [Worker.oauthResult]
  split
  · rename_i r hflight
    obtain ⟨q, hnsid, hunlocked⟩ := h.flights _ (mem_of_lookup hflight)
    split
    · rename_i out
      have hservice : ServiceSound H es r.serviceName := ⟨i, q, r, out, rfl, hnsid, hunlocked, hmem⟩
      exact (h.leave.markSshReady hservice).emit trivial
    · exact h.leave.emit trivial
  · split
    · exact h.leave.emit trivial
    · split_ifs
      · exact h.leave.emit trivial
      · exact h.leave.emit trivial
  · exact h

theorem step (h : Sound H es (run H es)) (e : Event) :
    Sound H (es ++ [e]) ((run H es).step H e) := by
  have hlater := h.later e
  have hlast : e ∈ es ++ [e] := List.mem_append_right _ (List.mem_singleton_self e)
  cases e with
  | registered subdomain => exact { hlater with }
  | closed => exact { hlater with }
  | registerTtyd r =>
    refine { hlater with registered := fun f hf => ?_, nodup := nodup_keys_set h.nodup }
    rcases mem_set hf with rfl | hf
    · exact ⟨rfl, hlast⟩
    · exact hlater.registered f hf
  | trust urls => exact { hlater with }
  | request q => exact hlater.middleware h.requests.symm rfl
  | discovered i response => exact hlater.discovered response hlast
  | fetchKeys i => exact hlater.fetchKeys
  | verified i verdict => exact h.verified
  | authenticated i verdict => exact h.authenticated
  | oauthResult i result => exact hlater.oauthResult hlast

end Sound

theorem sound_run (es : List Event) : Sound H es (run H es) := by
  induction es using List.reverseRecOn with
  | nil =>
    have hnone : ∀ {α : Type} {P : α → Prop}, ∀ a ∈ ([] : List α), P a := fun a ha => by cases ha
    exact ⟨hnone, hnone, hnone, hnone, List.nodup_nil, rfl⟩
  | append_singleton es e ih =>
    rw [run_concat]
    exact ih.step e

/-- A terminal password and the leave to write an ssh key are given for a token whose issuer was
    configured when the request came, that `jose` verified, and that is for the machine; a
    service is ready once its key is written. -/
theorem answers_unlocked (H : Host) (es : List Event) :
    (∀ i r, .reply i (.credentials r) ∈ (run H es).outputs →
      ∃ q, q.nsid = GET_RECORD ∧ Unlocked H es i q r) ∧
    (∀ i r record, .createRecord i r record ∈ (run H es).outputs →
      ∃ q, q.nsid = CREATE_RECORD ∧ Writes q record ∧ Unlocked H es i q r) ∧
    ∀ serviceName ∈ (run H es).sshReadyServices, ServiceSound H es serviceName :=
  ⟨fun _ _ h => (sound_run es).outputs _ h, fun _ _ _ h => (sound_run es).outputs _ h,
    (sound_run es).services⟩

/-- A name that ends no other role. -/
def Plain (vmName : String) : Prop :=
  ':' ∉ vmName.toList ∧ ¬"get-ttyd-password-".toList <+: vmName.toList

instance (vmName : String) : Decidable (Plain vmName) := inferInstanceAs (Decidable (_ ∧ _))

/-- `jose` gives the claims that are in the token it verifies. -/
def Genuine (H : Host) (es : List Event) : Prop :=
  ∀ es₁ es₂ i payload, es = es₁ ++ .verified i (.ok payload) :: es₂ →
    ∀ q claim url, (run H es₁).flights.lookup i = some (.verify q claim url) →
      H.decodeJwt claim.token = .ok payload

theorem unlocked_of_mem {o : Output} (ho : o ∈ (run H es).outputs) (h : o.unlocks = some (i, r)) :
    ∃ q, Unlocked H es i q r := by
  have hsound := (sound_run es).outputs o ho
  cases o with
  | reply j reply =>
    cases reply with
    | credentials r' =>
      cases h
      obtain ⟨q, -, hunlocked⟩ := hsound
      exact ⟨q, hunlocked⟩
    | _ => cases h
  | createRecord j r' record =>
    cases h
    obtain ⟨q, -, -, hunlocked⟩ := hsound
    exact ⟨q, hunlocked⟩
  | _ => cases h

/-- The number of a request is its index. -/
theorem Admitted.arrivals {claim : Claim} (h : Admitted H es i q claim) (es' : List Event) :
    (arrivals (es ++ es'))[i]? = some q := by
  obtain ⟨es₁, es₂, rfl, rfl, -⟩ := h
  rw [List.append_assoc, List.cons_append, Worker.arrivals, List.filterMap_append,
    List.filterMap_cons_some (f := Event.request?) (b := q) rfl, ← Worker.arrivals,
    List.getElem?_append_right (Nat.le_refl _), Nat.sub_self, List.getElem?_cons_zero]

/-- The claims that unlocked a machine are in the token of the request. -/
theorem Unlocked.admits {q' : XrpcRequest} (h : Unlocked H es i q' r) (hgenuine : Genuine H es)
    (hq : (arrivals es)[i]? = some q) :
    ∃ payload, H.decodeJwt (String.ofList (bearerToken (q.authorization.getD ""))) = .ok payload ∧
      Admits payload r ∧ .registerTtyd r ∈ es := by
  obtain ⟨es₁, es₂, claim, url, payload, rfl, hadmitted, hflight, hlookup, hadmits⟩ := h
  have hq' := hadmitted.arrivals (.verified i (.ok payload) :: es₂)
  rw [hq] at hq'
  cases hq'
  have hregistered := ((sound_run es₁).registered _ (mem_of_lookup hlookup)).2
  obtain ⟨_, _, -, -, htoken, -⟩ := hadmitted
  refine ⟨payload, ?_, hadmits, List.mem_append_left _ hregistered⟩
  rw [← htoken]
  exact hgenuine es₁ es₂ i payload rfl q claim url hflight

theorem role_of_plain {role : String} (hplain : Plain r.vmName) (hrole : role ∈ r.roles) :
    ':' ∉ role.toList := by
  rcases List.mem_cons.1 hrole with rfl | hrole
  · rw [String.toList_append, List.mem_append, not_or]
    exact ⟨by decide, hplain.1⟩
  · rw [List.mem_singleton.1 hrole]
    exact hplain.1

theorem subEnd_suffix (role : String) : ':' :: role.toList <:+ r.subEnd role := by
  have hcolon : ∀ xs ys zs : List Char, ':' :: zs <:+ xs ++ (ys ++ [':']) ++ zs := fun xs ys zs =>
    ⟨xs ++ ys, by simp only [List.append_assoc, List.singleton_append]⟩
  exact hcolon (":plc:".toList ++ r.didPlcKey.toList) ":role".toList role.toList

/-- A role of two machines with plain names names both. -/
theorem vmName_eq_of_role {r' : TtydRequest} {role : String} (hplain : Plain r.vmName)
    (hplain' : Plain r'.vmName) (hrole : role ∈ r.roles) (hrole' : role ∈ r'.roles) :
    r.vmName = r'.vmName := by
  rcases List.mem_cons.1 hrole with rfl | hrole
  · rcases List.mem_cons.1 hrole' with heq | hrole'
    · exact String.append_right_inj _ |>.1 heq
    · refine absurd ?_ hplain'.2
      rw [← List.mem_singleton.1 hrole', String.toList_append]
      exact List.prefix_append _ _
  · rw [List.mem_singleton.1 hrole] at hrole'
    rcases List.mem_cons.1 hrole' with heq | hrole'
    · refine absurd ?_ hplain.2
      rw [heq, String.toList_append]
      exact List.prefix_append _ _
    · exact List.mem_singleton.1 hrole'

/-- What one token unlocks, however often it is sent, is one machine of one owner. -/
theorem unlocked_same (hgenuine : Genuine H es)
    (hplain : ∀ r, .registerTtyd r ∈ es → Plain r.vmName) {o o' : Output} {i i' : ℕ}
    {r r' : TtydRequest} {q q' : XrpcRequest} (ho : o ∈ (run H es).outputs)
    (ho' : o' ∈ (run H es).outputs) (h : o.unlocks = some (i, r)) (h' : o'.unlocks = some (i', r'))
    (hq : (arrivals es)[i]? = some q) (hq' : (arrivals es)[i']? = some q')
    (htoken : bearerToken (q.authorization.getD "") = bearerToken (q'.authorization.getD "")) :
    r.vmName = r'.vmName ∧ r.didPlc = r'.didPlc := by
  obtain ⟨_, hunlocked⟩ := unlocked_of_mem ho h
  obtain ⟨_, hunlocked'⟩ := unlocked_of_mem ho' h'
  obtain ⟨payload, hpayload, hadmits, hmem⟩ := hunlocked.admits hgenuine hq
  obtain ⟨payload', hpayload', hadmits', hmem'⟩ := hunlocked'.admits hgenuine hq'
  rw [← htoken, hpayload] at hpayload'
  cases hpayload'
  have hplain' := hplain r' hmem'
  replace hplain := hplain r hmem
  obtain ⟨sub, hsub, -, role, hrole, hend⟩ := hadmits.sub
  obtain ⟨sub', hsub', -, role', hrole', hend'⟩ := hadmits'.sub
  rw [hsub] at hsub'
  cases hsub'
  -- Both roles are what follows the last colon of the subject.
  have heq : role.toList = role'.toList :=
    eq_of_suffix_of_not_mem (role_of_plain hplain hrole) (role_of_plain hplain' hrole')
      ((subEnd_suffix role).trans hend) ((subEnd_suffix role').trans hend')
  rw [← String.toList_inj.1 heq] at hrole'
  have howner := hadmits.actx.symm.trans hadmits'.actx
  exact ⟨vmName_eq_of_role hplain hplain' hrole hrole', Option.some.inj (Except.ok.inj howner)⟩

def samplePayload : JWTPayload :=
  [("iss", .string "https://wid.test"), ("aud", .string "api://pds?actx=did:plc:alice"),
    ("sub", .string "actx:team:plc:alice:role:get-ttyd-password-web")]

def sampleHost : Host where
  network _ _ := none
  decodeJwt token := if token = "a.b.c" then .ok samplePayload else .error "JWTInvalid"
  verifyOwn _ _ _ _ := .error "JWTInvalid"
  jwksFetches _ _ _ := 1
  verifyRemote _ _ _ _ _ := .ok samplePayload
  parseUrl url := match url with
    | some (.string url) => some url
    | _ => none
  text _ := ""
  listRecordsUrl _ _ := none
  rbacRecords _ := .ok []

def sampleMachine (name : String) : TtydRequest :=
  ⟨name, name ++ "--alice", "did:plc:alice", "alice", "secret of " ++ name⟩

def sampleDiscovery : FetchResponse :=
  ⟨true, 200, some (.object [("jwks_uri", .string "https://wid.test/jwks")])⟩

def sampleRead : XrpcRequest :=
  ⟨"GET", GET_RECORD, some TTYD_CREDS_NSID, some "Bearer a.b.c", none⟩

def sampleWrite : XrpcRequest :=
  ⟨"POST", CREATE_RECORD, none, some "Bearer a.b.c",
    some (.object [("collection", .string SSH_KEY_NSID), ("record", .object [])])⟩

/-- A machine reads its password and writes its ssh key; another one is registered first. -/
def sampleEvents : List Event :=
  [.registered "relay", .trust (some ["https://wid.test"]), .registerTtyd (sampleMachine "db"),
    .registerTtyd (sampleMachine "web"), .request sampleRead, .request sampleWrite,
    .discovered 1 (some sampleDiscovery), .discovered 0 (some sampleDiscovery), .fetchKeys 0,
    .verified 0 (.ok samplePayload), .verified 1 (.ok samplePayload)]

theorem sampleEvents_outputs : (run sampleHost sampleEvents).outputs =
    [.contact 0 "https://wid.test/.well-known/openid-configuration",
      .contact 1 "https://wid.test/.well-known/openid-configuration",
      .contact 0 "https://wid.test/jwks", .reply 0 (.credentials (sampleMachine "web")),
      .createRecord 1 (sampleMachine "web") (.object [])] := rfl

theorem sampleEvents_genuine : Genuine sampleHost sampleEvents := by
  intro es₁ es₂ i payload heq q claim url hflight
  have hmem : .verified i (.ok payload) ∈ sampleEvents := by
    rw [heq]
    exact List.mem_append_right _ List.mem_cons_self
  obtain rfl : payload = samplePayload := by
    simp only [sampleEvents, List.mem_cons, List.not_mem_nil, or_false, reduceCtorEq, false_or,
      Event.verified.injEq, Except.ok.injEq] at hmem
    exact hmem.elim And.right And.right
  -- The host decodes one token, and the one that is verified was decoded.
  obtain ⟨⟨_, _, -, -, -, hdecode, -⟩, -⟩ :=
    (sound_run es₁).flights _ (mem_of_lookup hflight)
  by_cases htoken : claim.token = "a.b.c"
  · rw [htoken]
    rfl
  · rw [show sampleHost.decodeJwt claim.token = .error "JWTInvalid" from if_neg htoken] at hdecode
    cases hdecode

theorem unlocked_same_sampleEvents : (sampleMachine "web").vmName = (sampleMachine "web").vmName ∧
    (sampleMachine "web").didPlc = (sampleMachine "web").didPlc := by
  have hplain : ∀ r, .registerTtyd r ∈ sampleEvents → Plain r.vmName := by
    intro r hr
    simp only [sampleEvents, List.mem_cons, List.not_mem_nil, or_false, reduceCtorEq, false_or,
      Event.registerTtyd.injEq] at hr
    rcases hr with rfl | rfl
    · decide
    · decide
  have hread : .reply 0 (.credentials (sampleMachine "web")) ∈
      (run sampleHost sampleEvents).outputs := by
    rw [sampleEvents_outputs]
    exact List.mem_of_getElem? (i := 3) rfl
  have hwrite : .createRecord 1 (sampleMachine "web") (.object []) ∈
      (run sampleHost sampleEvents).outputs := by
    rw [sampleEvents_outputs]
    exact List.mem_of_getElem? (i := 4) rfl
  have harrivals : arrivals sampleEvents = [sampleRead, sampleWrite] := rfl
  refine unlocked_same sampleEvents_genuine hplain hread hwrite rfl rfl
    (by rw [harrivals]; rfl) (by rw [harrivals]; rfl) ?_
  rfl

end Worker

end ComputeContract.RelayApp
