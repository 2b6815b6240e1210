import ComputeContract.Rbac.Oidc
import ComputeContract.Rbac.Policy

/-!
# Authorization

`raiseIfUnauthorized`: a token is verified under the issuers of the configuration, its
context is resolved to a server, the records there are joined, the token is verified again
under those issuers that the record lists, and the policies are checked.

* `verify_before_fetch`: nothing that a token names is fetched before it has verified, and
  a failure to load the record is a denial.
* `admitted_issuers`: the issuers that are admitted.
-/

namespace ComputeContract

open AssocList

def didPlc : String := "did:plc:"

def didWeb : String := "did:web:"

/-- `s.startsWith(prefix)` -/
def startsWith (s start : String) : Bool := start.toList.isPrefixOf s.toList

/-- Where the document of a did is, and what is thrown when it is not there. -/
def didDocUrl (did : String) : Except Thrown (String × String) :=
  if startsWith did didPlc then
    .ok ("https://plc.directory/" ++ did, "plc.directory lookup failed for " ++ did ++ ": ")
  else if startsWith did didWeb then
    let host := String.ofList ((did.toList.drop 8).map fun c => if c = ':' then '/' else c)
    .ok ("https://" ++ host ++ "/.well-known/did.json", "did:web lookup failed for " ++ did ++ ": ")
  else .error (.error ("unsupported DID method: " ++ did))

def Json.isString (v : Option Json) (s : String) : Bool :=
  match v with
  | some (.string t) => t = s
  | _ => false

/-- `find` on the services, and the endpoint of what it finds. -/
def findPds : List Json → Except Thrown (Option Json)
  | [] => .ok none
  | service :: services => do
    let type ← service.member "type"
    let id ← service.member "id"
    if Json.isString type "AtprotoPersonalDataServer" || Json.isString id "#atproto_pds" then
      service.member "serviceEndpoint"
    else findPds services

/-- `didDoc.service?.find(..)?.serviceEndpoint` -/
def pdsOf (didDoc : Json) : Except Thrown (Option Json) := do
  match ← didDoc.member "service" with
  | none | some .null => .ok none
  | some (.array services) => findPds services
  | some _ => .error .typeError

def collectIssuers (rbac : RBACRecord) : List String :=
  ((objectEntries rbac.roles).filterMap fun e => e.2.definition.iss.filter (· ≠ "")).eraseDups

/-- The context of a token as a did. -/
def qualifyActx (actx : String) : String :=
  if startsWith actx didPlc || startsWith actx didWeb then actx
  else if '.' ∈ actx.toList then didWeb ++ actx
  else didPlc ++ actx

/-- `String(err)` -/
def Thrown.text : Thrown → String
  | .unauthorized message => "UnauthorizedException: " ++ message
  | .error message => "Error: " ++ message
  | .typeError => "TypeError"

namespace Host

variable (H : Host)

def resolvePDS (did : String) : Task Log Thrown Json := do
  let (url, failed) ← Task.ofExcept (didDocUrl did)
  let response ← H.fetch url
  let didDoc ← Task.ofExcept
    (if response.ok then json response else .error (.error (failed ++ toString response.status)))
  match ← Task.ofExcept (pdsOf didDoc) with
  | some pds =>
    if Json.truthy pds then pure pds
    else Task.throw (.error ("no PDS in DID document for " ++ did))
  | none => Task.throw (.error ("no PDS in DID document for " ++ did))

/-- The parameters of a page. -/
def listRecordsParams (did : String) (cursor : Option Json) : List (String × Json) :=
  [("repo", .string did), ("collection", .string "com.fedproxy.rbac"), ("limit", .string "100")] ++
    (cursor.map fun c => ("cursor", c)).toList

/-- The loop over the pages, for as many as there is fuel. -/
def rbacPages (pds : Json) (did service scope : String) :
    ℕ → Option Json → Join RBACRecord → Task Log Thrown RBACRecord
  | 0, _, _ => Task.forever
  | fuel + 1, cursor, join => do
    let url ← Task.ofExcept (match H.listRecordsUrl pds (listRecordsParams did cursor) with
      | some url => .ok url
      | none => .error .typeError)
    let response ← H.fetch url
    let out ← Task.ofExcept (if response.ok then json response else .error (.error
      ("listRecords failed pds=" ++ H.text pds ++ " did=" ++ did ++ ": " ++ toString response.status)))
    let records ← Task.ofExcept (H.rbacRecords out)
    let join := records.foldl (joinRecord service scope RBACRecord.protects RBACRecord.add) join
    let next ← Task.ofExcept (out.member "cursor")
    if Json.truthy next then rbacPages pds did service scope fuel next join
    else Task.ofExcept (finishJoin "com.fedproxy.rbac" did service scope join)

def getRBACRecord (fuel : ℕ) (pds : Json) (did service scope : String) :
    Task Log Thrown RBACRecord :=
  H.rbacPages pds did service scope fuel none ⟨.empty, false, 0⟩

/-- The body of the `try`: the record of a context. -/
def lookupRecord (fuel : ℕ) (actx service scope : String) : Task Log Thrown RBACRecord := do
  let pds ← H.resolvePDS actx
  H.getRBACRecord fuel pds actx service scope

/-- The second verification, when the record lists issuers. -/
def verifyAgain (cfg : OidcConfig) (token : String) (issuers : List String) : Task Log Thrown Unit :=
  if issuers = [] then pure ()
  else do
    let _ ← H.validate cfg token fun _ _ => issuers.filter (· ∈ cfg.trustedIssuerUrls)
    pure ()

/-- `sub`, where it is a string. -/
def subOf (oidcToken : OIDCToken) : Option String :=
  match oidcToken.sub with
  | some (.string sub) => some sub
  | _ => none

def raiseIfUnauthorized (cfg : OidcConfig) (fuel : ℕ) (service scope token path method : String) :
    Task Log Thrown OIDCToken := do
  let oidcToken ← H.validate cfg token fun _ _ => cfg.trustedIssuerUrls
  let actx := qualifyActx oidcToken.actx
  let rbac ← Task.tryCatch (H.lookupRecord fuel actx service scope) fun err =>
    Task.throw (.unauthorized
      ("unable to authorize: rbac lookup failed for actx=" ++ actx ++ ": " ++ err.text))
  H.verifyAgain cfg token (collectIssuers rbac)
  Task.ofExcept (checkRBACPolicy rbac (subOf oidcToken) path method)
  pure oidcToken

/-! ## What is fetched -/

variable {H}
variable {cfg : OidcConfig}

theorem fetch_appends (url : String) : (H.fetch url).Appends := fun _ => ⟨_, rfl⟩

theorem fetchJwks_appends (uri : String) (n : ℕ) : (H.fetchJwks uri n).Appends := by
  induction n with
  | zero => exact .pure ()
  | succ n ih =>
    intro log
    obtain ⟨t, ht⟩ := ih (log ++ [.fetch uri (H.network log uri)])
    exact ⟨_, ht.trans (List.append_assoc log _ t)⟩

theorem jwtVerify_appends (verdict : Log → Except String JWTPayload) :
    (jwtVerify verdict).Appends := by
  intro log
  refine ⟨[], ?_⟩
  unfold jwtVerify
  split <;> exact (List.append_nil log).symm

theorem verifyWithKeys_appends (token audience issuer : String) :
    (H.verifyWithKeys cfg token audience issuer).Appends := by
  unfold verifyWithKeys
  split_ifs
  · exact jwtVerify_appends _
  · refine (fetch_appends _).bind fun response => (Task.Appends.ofExcept _).bind fun doc =>
      (Task.Appends.ofExcept _).bind fun jwksUri => ?_
    split
    · exact .throw _
    · rename_i uri _
      intro log
      exact ((fetchJwks_appends uri (H.jwksFetches log uri token)).bind fun _ =>
        jwtVerify_appends _) log

theorem verifyUnderAny_appends (token audience : String) (issuers : List String) (lastErr : String) :
    (H.verifyUnderAny cfg token audience issuers lastErr).Appends := by
  induction issuers generalizing lastErr with
  | nil => exact .throw _
  | cons issuer issuers ih =>
    refine Task.Appends.tryCatch ?_ fun e => ih e.message
    exact (verifyWithKeys_appends token audience issuer).bind fun payload =>
      Task.Appends.bind (fun _ => ⟨_, rfl⟩) fun _ => .pure payload

theorem validate_appends (token : String) (getIssuers : String → String → List String) :
    (H.validate cfg token getIssuers).Appends :=
  (Task.Appends.ofExcept _).bind fun _ => (verifyUnderAny_appends _ _ _ _).bind fun _ => .pure _

theorem resolvePDS_appends (did : String) : (H.resolvePDS did).Appends := by
  refine (Task.Appends.ofExcept _).bind fun _ => (fetch_appends _).bind fun response =>
    (Task.Appends.ofExcept _).bind fun didDoc => (Task.Appends.ofExcept _).bind fun pds => ?_
  split
  · split_ifs
    · exact .pure _
    · exact .throw _
  · exact .throw _

theorem rbacPages_appends (pds : Json) (did service scope : String) (fuel : ℕ)
    (cursor : Option Json) (join : Join RBACRecord) :
    (H.rbacPages pds did service scope fuel cursor join).Appends := by
  induction fuel generalizing cursor join with
  | zero => exact .forever
  | succ fuel ih =>
    refine (Task.Appends.ofExcept _).bind fun url => (fetch_appends _).bind fun response =>
      (Task.Appends.ofExcept _).bind fun out => (Task.Appends.ofExcept _).bind fun records =>
      (Task.Appends.ofExcept _).bind fun next => ?_
    split_ifs
    · exact ih _ _
    · exact .ofExcept _

theorem lookupRecord_appends (fuel : ℕ) (actx service scope : String) :
    (H.lookupRecord fuel actx service scope).Appends :=
  (resolvePDS_appends actx).bind fun pds => rbacPages_appends pds actx service scope fuel none _

theorem verifyAgain_appends (token : String) (issuers : List String) :
    (H.verifyAgain cfg token issuers).Appends := by
  unfold verifyAgain
  split_ifs
  · exact .pure ()
  · exact (validate_appends token _).bind fun _ => .pure ()

/-- A trace that is good stays so, after a token has verified. -/
theorem fetchesTrusted_of_appends {α : Type} {x : Task Log Thrown α} {issuer : String}
    (hx : x.Appends) {log : Log} (h : H.FetchesTrusted cfg log) (hverified : .verified issuer ∈ log) :
    H.FetchesTrusted cfg (x log).2 := by
  obtain ⟨effects, heffects⟩ := hx log
  rw [heffects]
  exact fetchesTrusted_append h hverified effects

theorem raiseIfUnauthorized_trusted (fuel : ℕ) (service scope token path method : String) :
    (H.raiseIfUnauthorized cfg fuel service scope token path method).Triple
      (H.FetchesTrusted cfg) fun _ log => H.FetchesTrusted cfg log := by
  unfold raiseIfUnauthorized
  refine validate_trusted.bind (fun oidcToken => ?_) (fun _ _ h => h.1) fun _ h => h.1
  rintro log ⟨hlog, hverified⟩
  obtain ⟨issuer, hissuer⟩ := hverified oidcToken rfl
  refine fetchesTrusted_of_appends ?_ hlog hissuer
  refine (Task.Appends.tryCatch (lookupRecord_appends _ _ _ _) fun e => .throw _).bind fun rbac =>
    (verifyAgain_appends _ _).bind fun _ => (Task.Appends.ofExcept _).bind fun _ => .pure _

/-- What a returned token went through. -/
theorem raiseIfUnauthorized_eq_ok {fuel : ℕ} {service scope token path method : String}
    {oidcToken : OIDCToken} {log log' : Log}
    (h : H.raiseIfUnauthorized cfg fuel service scope token path method log = (.ok oidcToken, log')) :
    ∃ log₁ rbac log₂,
      H.validate cfg token (fun _ _ => cfg.trustedIssuerUrls) log = (.ok oidcToken, log₁) ∧
      H.lookupRecord fuel (qualifyActx oidcToken.actx) service scope log₁ = (.ok rbac, log₂) ∧
      H.verifyAgain cfg token (collectIssuers rbac) log₂ = (.ok (), log') ∧
      checkRBACPolicy rbac (subOf oidcToken) path method = .ok () := by
  obtain ⟨oidcToken', log₁, hvalidate, h⟩ := Task.bind_eq_ok h
  obtain ⟨rbac, log₂, hlookup, h⟩ := Task.bind_eq_ok h
  obtain ⟨_, log₃, hagain, h⟩ := Task.bind_eq_ok h
  obtain ⟨_, log₄, hcheck, h⟩ := Task.bind_eq_ok h
  cases h
  obtain ⟨hok, rfl⟩ := Task.ofExcept_eq_ok hcheck
  refine ⟨log₁, rbac, log₂, hvalidate, ?_, hagain, hok⟩
  unfold Task.tryCatch at hlookup
  revert hlookup
  rcases H.lookupRecord fuel (qualifyActx oidcToken.actx) service scope log₁ with ⟨o, t⟩
  cases o with
  | ok rbac' => exact fun h => h
  | error e => exact fun h => by cases h
  | running => exact fun h => h

/-- What it takes for a token to be returned. -/
theorem raiseIfUnauthorized_ok {fuel : ℕ} {service scope token path method : String}
    {oidcToken : OIDCToken} {rbac : RBACRecord} {log log₁ log₂ log' : Log}
    (hvalidate : H.validate cfg token (fun _ _ => cfg.trustedIssuerUrls) log = (.ok oidcToken, log₁))
    (hlookup : H.lookupRecord fuel (qualifyActx oidcToken.actx) service scope log₁ = (.ok rbac, log₂))
    (hagain : H.verifyAgain cfg token (collectIssuers rbac) log₂ = (.ok (), log'))
    (hcheck : checkRBACPolicy rbac (subOf oidcToken) path method = .ok ()) :
    H.raiseIfUnauthorized cfg fuel service scope token path method log = (.ok oidcToken, log') := by
  refine (Task.bind_of_ok hvalidate).trans ((Task.bind_of_ok (t := log₂) (a := rbac) ?_).trans ?_)
  · rw [Task.tryCatch, hlookup]
  · refine (Task.bind_of_ok hagain).trans ?_
    rw [hcheck]
    rfl

/-- `jose.jwtVerify` gives the claims of the token, and checks `iss` against its option. -/
structure ChecksIssuer (H : Host) : Prop where
  own : ∀ log token issuer audience payload, H.verifyOwn log token issuer audience = .ok payload →
    H.decodeJwt token = .ok payload ∧ payload.lookup "iss" = some (.string issuer)
  remote : ∀ log uri token issuer audience payload,
    H.verifyRemote log uri token issuer audience = .ok payload →
    H.decodeJwt token = .ok payload ∧ payload.lookup "iss" = some (.string issuer)

/-- The token names the issuer. -/
def Names (H : Host) (token : String) (payload : JWTPayload) (issuer : String) : Prop :=
  H.decodeJwt token = .ok payload ∧ payload.lookup "iss" = some (.string issuer)

theorem jwtVerify_eq_ok {verdict : Log → Except String JWTPayload} {log log' : Log}
    {payload : JWTPayload} (h : jwtVerify verdict log = (.ok payload, log')) :
    verdict log = .ok payload := by
  unfold jwtVerify at h
  split at h
  · cases h
    assumption
  · cases h

theorem names_of_verifyWithKeys (hH : H.ChecksIssuer) {token audience issuer : String}
    {payload : JWTPayload} {log log' : Log}
    (h : H.verifyWithKeys cfg token audience issuer log = (.ok payload, log')) :
    H.Names token payload issuer := by
  unfold verifyWithKeys at h
  split_ifs at h with hown
  · exact hH.own _ _ _ _ _ (jwtVerify_eq_ok h)
  · obtain ⟨response, _, _, h⟩ := Task.bind_eq_ok h
    obtain ⟨doc, _, _, h⟩ := Task.bind_eq_ok h
    obtain ⟨jwksUri, _, _, h⟩ := Task.bind_eq_ok h
    cases huri : H.parseUrl jwksUri <;> rw [huri] at h
    · cases h
    · obtain ⟨n, _, _, h⟩ := Task.bind_eq_ok h
      obtain ⟨_, _, _, h⟩ := Task.bind_eq_ok h
      exact hH.remote _ _ _ _ _ _ (jwtVerify_eq_ok h)

theorem names_of_verifyUnderAny (hH : H.ChecksIssuer) {token audience : String}
    {issuers : List String} {lastErr : String} {payload : JWTPayload} {log log' : Log}
    (h : H.verifyUnderAny cfg token audience issuers lastErr log = (.ok payload, log')) :
    ∃ issuer ∈ issuers, H.Names token payload issuer := by
  induction issuers generalizing lastErr log with
  | nil => cases h
  | cons issuer issuers ih =>
    rw [verifyUnderAny, Task.tryCatch] at h
    cases hunder : H.verifyUnder cfg token audience issuer log with
    | mk o t =>
      rw [hunder] at h
      cases o with
      | ok payload' =>
        cases h
        obtain ⟨payload', t', hkeys, h⟩ := Task.bind_eq_ok hunder
        obtain ⟨_, _, _, h⟩ := Task.bind_eq_ok h
        cases h
        exact ⟨issuer, List.mem_cons_self, names_of_verifyWithKeys hH hkeys⟩
      | error e =>
        obtain ⟨issuer', hissuer', hnames⟩ := ih h
        exact ⟨issuer', List.mem_cons_of_mem _ hissuer', hnames⟩
      | running => cases h

/-- A token that is validated names one of the issuers it was tried with. -/
theorem names_of_validate (hH : H.ChecksIssuer) {token : String}
    {getIssuers : String → String → List String} {oidcToken : OIDCToken} {log log' : Log}
    (h : H.validate cfg token getIssuers log = (.ok oidcToken, log')) :
    ∃ api actx, ∃ issuer ∈ cfg.issuers (getIssuers api actx),
      H.Names token oidcToken.claims issuer := by
  obtain ⟨⟨actx, api⟩, _, _, h⟩ := Task.bind_eq_ok h
  obtain ⟨payload, _, hverify, h⟩ := Task.bind_eq_ok h
  cases h
  exact ⟨api, actx, names_of_verifyUnderAny hH hverify⟩

/-- The issuer is the service's own, or configured and among those that the record lists. -/
def Listed (cfg : OidcConfig) (rbac : RBACRecord) (issuer : String) : Prop :=
  issuer = cfg.issuerUrl ∨ issuer ∈ collectIssuers rbac ∧ issuer ∈ cfg.trustedIssuerUrls

/-- The role gives the subject a policy that permits the request. -/
def Grants (rbac : RBACRecord) (sub : Option String) (path method : String) (role : RBACRole) :
    Prop :=
  some role.definition.sub = sub ∧ ∃ capability, methodCapability method = some capability ∧
    ∃ name ∈ role.definition.policies, verdict rbac.policies path capability name = .permits

def sampleClaims : JWTPayload :=
  [("iss", .string "https://own.test"), ("aud", .string "api://DigitalOcean?actx=abc"),
    ("sub", .string "actx:abc")]

def sampleToken : OIDCToken :=
  ⟨"abc", "DigitalOcean", "api://DigitalOcean?actx=abc", some (.string "actx:abc"), sampleClaims,
    "a.b.c"⟩

def sampleConfig : OidcConfig := ⟨"https://own.test", ["https://other.test"]⟩

/-- A record with one role, of the issuer. -/
def sampleRecord (iss : String) : RBACRecord where
  protects := [("wid", ⟨"https://wid.test", some "droplets.wid"⟩)]
  policies := [("wid", ⟨[("/v1/oidc/issue", ⟨["create"], []⟩)], List.nodup_singleton _⟩)]
  roles := [("wid", ⟨⟨some iss, "actx:abc", ["wid"]⟩⟩)]
  policies_nodup := List.nodup_singleton _
  roles_nodup := List.nodup_singleton _

/-- A host where the service has signed a token, and its context has the record. -/
def sampleHost (record : RBACRecord) : Host where
  network _ url :=
    if url = "https://plc.directory/did:plc:abc" then
      some ⟨true, 200, some (.object [("service", .array [.object [("id", .string "#atproto_pds"),
        ("serviceEndpoint", .string "https://pds.test")]])])⟩
    else some ⟨true, 200, some (.object [])⟩
  decodeJwt token := if token = "a.b.c" then .ok sampleClaims else .error "Invalid JWT"
  verifyOwn _ token issuer _ :=
    if token = "a.b.c" ∧ issuer = "https://own.test" then .ok sampleClaims
    else .error "signature verification failed"
  jwksFetches _ _ _ := 1
  verifyRemote _ _ _ _ _ := .error "signature verification failed"
  parseUrl _ := none
  listRecordsUrl _ _ := some "https://pds.test/xrpc/com.atproto.repo.listRecords"
  text _ := "https://pds.test"
  rbacRecords _ := .ok [record]

theorem checksIssuer_sampleHost (record : RBACRecord) : (sampleHost record).ChecksIssuer where
  own log token issuer audience payload h := by
    unfold sampleHost at h ⊢
    dsimp only at h ⊢
    split_ifs at h with htoken
    cases h
    rw [if_pos htoken.1, htoken.2]
    exact ⟨rfl, rfl⟩
  remote _ _ _ _ _ _ h := by cases h

/-- The record as it is joined. -/
def sampleJoined (iss : String) : RBACRecord := RBACRecord.empty.add (sampleRecord iss)

theorem lookupRecord_sampleHost (iss : String) (log : Log) :
    ∃ log', (sampleHost (sampleRecord iss)).lookupRecord 1 "did:plc:abc" "https://wid.test"
      "droplets.wid" log = (.ok (sampleJoined iss), log') :=
  ⟨_, rfl⟩

theorem collectIssuers_sampleJoined : collectIssuers (sampleJoined "https://other.test") =
    ["https://other.test"] := by
  rw [collectIssuers]
  have hentries : objectEntries (sampleJoined "https://other.test").roles =
      [("wid", ⟨⟨some "https://other.test", "actx:abc", ["wid"]⟩⟩)] := objectEntries_singleton _
  rw [hentries]
  decide +kernel

theorem check_sampleJoined (iss : String) :
    checkRBACPolicy (sampleJoined iss) (some "actx:abc") "/v1/oidc/issue" "POST" = .ok () := by
  have hmatching : matchingPolicies (sampleJoined iss) (some "actx:abc") = ["wid"] := by
    have hentries : objectEntries (sampleJoined iss).roles =
      [("wid", ⟨⟨some iss, "actx:abc", ["wid"]⟩⟩)] := objectEntries_singleton _
    rw [matchingPolicies, hentries]
    rfl
  refine checkRBACPolicy_eq_ok.2 ⟨"create", by decide +kernel, [], "wid", [], hmatching, rfl, ?_⟩
  intro n hn
  cases hn

/-- The token is returned, though the role that grants is of another issuer. -/
theorem raiseIfUnauthorized_sampleHost :
    ∃ log', (sampleHost (sampleRecord "https://other.test")).raiseIfUnauthorized sampleConfig 1
      "https://wid.test" "droplets.wid" "a.b.c" "/v1/oidc/issue" "POST" [] = (.ok sampleToken, log') := by
  have hvalidate : (sampleHost (sampleRecord "https://other.test")).validate sampleConfig "a.b.c"
      (fun _ _ => sampleConfig.trustedIssuerUrls) [] =
        (.ok sampleToken, [.verified "https://own.test"]) := rfl
  obtain ⟨log₂, hlookup⟩ := lookupRecord_sampleHost "https://other.test" [.verified "https://own.test"]
  have hagain : ∃ log', (sampleHost (sampleRecord "https://other.test")).verifyAgain sampleConfig
      "a.b.c" (collectIssuers (sampleJoined "https://other.test")) log₂ = (.ok (), log') := by
    rw [collectIssuers_sampleJoined]
    exact ⟨_, rfl⟩
  obtain ⟨log', hagain⟩ := hagain
  exact ⟨log', raiseIfUnauthorized_ok hvalidate hlookup hagain (check_sampleJoined _)⟩

end Host

end ComputeContract
