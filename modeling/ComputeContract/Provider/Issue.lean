import Mathlib.Data.List.Induction
import ComputeContract.Lib.Split
import ComputeContract.Provider.Agreement
import ComputeContract.Rbac.Authorize

/-!
# Issued tokens

The tokens that the issuer of workload identities signs: one for each machine that is
provisioned, one for a machine that proves itself (`prove`), and one for a caller whom a record
admits (`issue`). The caller chooses the claims: the subject has to be of the context of its
own token, but the audience, and with it the context that the new token speaks for, is free.

* `lineage_run`: every token goes back to a machine, over callers that records admit.
* `subject_confined`: what a context has to see to for its subjects to stay its own.
-/

namespace ComputeContract.Issuer

open AssocList

/-! ## Claims -/

structure Settings extends OidcConfig where
  defaultTtlSeconds : ℚ

def subMatchesActx (sub actx : String) : Bool :=
  sub ≠ "" && (sub = "actx:" ++ actx || startsWith sub ("actx:" ++ actx ++ ":"))

/-- When the token expires: JSON has numbers that the signer does not take. -/
def expiration (s : Settings) (now : ℤ) (ttl : Option Json) : Except Thrown ℚ :=
  match ttl with
  | some (.number ttl) => .ok (now + ttl)
  | some (.infinite _) => .error .typeError
  | _ => .ok (now + s.defaultTtlSeconds)

def audience (actx api : String) (aud : Option Json) : String :=
  match aud with
  | some (.string aud) => aud
  | _ => "api://" ++ api ++ "?actx=" ++ actx

/-- `OIDCToken.create`: the claims that are signed. -/
def create (s : Settings) (now : ℤ) (actx : String) (claims : List (String × Json)) :
    Except Thrown JWTPayload :=
  match claims.lookup "sub" with
  | some (.string sub) =>
    if subMatchesActx sub actx then
      match expiration s now (claims.lookup "ttl") with
      | .error err => .error err
      | .ok exp =>
        let payload := erase "ttl" claims
        let payload := set "iss" (.string s.issuerUrl) payload
        let aud := audience actx "DigitalOcean" (claims.lookup "aud")
        let payload := set "aud" (.string aud) payload
        .ok (set "exp" (.number exp) (set "iat" (.number now) payload))
    else .error (.error ("'actx:" ++ actx ++ "' not found in sub '" ++ sub ++ "'"))
  | sub =>
    if Json.truthy sub then .error .typeError
    else .error (.error ("'actx:" ++ actx ++ "' not found in sub"))

/-! ## The routes -/

inductive Reply
  | token (payload : JWTPayload)
  | refused (status : ℕ) (id message : String)
  /-- `{ valid: false }` -/
  | invalid

def extractBearer (authHeader : Option String) : Except Thrown String :=
  match authHeader.filter (· ≠ "") with
  | none => .error (.unauthorized "Missing Authorization header")
  | some header =>
    let token := ((Provider.splitAt ' ' header).getLast?).getD ""
    if token = "" ∨ token = "0" then .error (.unauthorized "Missing bearer token") else .ok token

/-- `body["sub"] ?? actx`, on which `startsWith` is called. -/
def requestedSub (body : Option Json) (actx : String) : Except Thrown String := do
  match body with
  | none => .error (.error "invalid JSON")
  | some body =>
    match ← body.member "sub" with
    | none | some .null => .ok actx
    | some (.string sub) => .ok sub
    | sub => if Json.truthy sub then .error .typeError else .ok ""

/-- `{ ...body }`; a body that is no object has no subject, and does not come this far. -/
def fields : Option Json → List (String × Json)
  | some (.object fields) => fields
  | _ => []

/-- The claims of a new token. -/
def issuedClaims (body : Option Json) (sub : String) : List (String × Json) :=
  set "sub" (.string sub) (fields body)

/-- `POST /v1/oidc/issue`, behind the middleware. -/
def issueToken (s : Settings) (now : ℤ) (actx : String) (body : Option Json) : Reply :=
  match requestedSub body actx with
  | .error err => .refused 500 "server_error" err.text
  | .ok sub =>
    if subMatchesActx sub actx then
      match create s now actx (issuedClaims body sub) with
      | .error err => .refused 500 "server_error" err.text
      | .ok payload => .token payload
    else .refused 401 "unauthorized" ("sub must be scoped to actx:" ++ actx)

/-- A request to one of the routes, with what is around when it is handled, and the text of the
    token if one is signed. -/
structure Request where
  host : Host
  authorization : Option String
  body : Option Json
  now : ℤ
  signature : String

def ISSUE_PATH : String := "/v1/oidc/issue"

def SCOPE : String := "droplets.wid"

/-- The middleware and the route; `service` is `getIssuerUrl()`. -/
def issue (s : Settings) (fuel : ℕ) (service : String) (r : Request) : Task Log Thrown Reply :=
  Task.tryCatch (do
    let token ← Task.ofExcept (extractBearer r.authorization)
    let authToken ← r.host.raiseIfUnauthorized s.toOidcConfig fuel service SCOPE token ISSUE_PATH
      "POST"
    pure (issueToken s r.now authToken.actx r.body))
  fun err => pure (.refused 401 "unauthorized" err.text)

/-- What `validate` and the route make of a token that is valid, with the nonces left;
    `proof` is what the key of the machine says about the signature. -/
def proveToken (s : Settings) (now : ℤ) (nonces : List (String × String))
    (getDroplet : String → Option Provider.LocalDroplet) (proof : Except Thrown Bool)
    (oidcToken : OIDCToken) : Except Thrown Reply × List (String × String) :=
  match oidcToken.claims.lookup "nonce" with
  | some (.string nonce) =>
    if nonce = "" then (.error (.error "provisioning token missing nonce claim"), nonces)
    else match nonces.lookup nonce with
      | none => (.error (.error ("Nonce " ++ nonce ++ " not found")), nonces)
      | some dropletId =>
        let nonces := erase nonce nonces
        match getDroplet dropletId with
        | none => (.error (.error ("droplet " ++ dropletId ++ " not found")), nonces)
        | some droplet =>
          if droplet.v4 = [] then
            (.error (.error ("no public IPv4 for droplet " ++ dropletId)), nonces)
          else match proof with
            | .error err => (.error err, nonces)
            | .ok false => (.ok .invalid, nonces)
            | .ok true =>
              ((create s now oidcToken.actx
                [("sub", .string (Provider.subject oidcToken.actx droplet.tags)),
                  ("droplet_id", .string droplet.id)]).map .token, nonces)
  | nonce =>
    if Json.truthy nonce then (.error (.error "Nonce not found"), nonces)
    else (.error (.error "provisioning token missing nonce claim"), nonces)

/-- `POST /v1/oidc/prove`, up to the token, which is validated twice. -/
def proveValidate (s : Settings) (r : Request) : Task Log Thrown OIDCToken := do
  let _ ← Task.ofExcept (match r.body with
    | none => .error (.error "invalid JSON")
    | some .null => .error .typeError
    | some _ => .ok ())
  let token ← Task.ofExcept (extractBearer r.authorization)
  let _ ← r.host.validate s.toOidcConfig token fun _ _ => []
  r.host.validate s.toOidcConfig token fun _ _ => []

/-! ## Runs -/

inductive Event
  /-- `ProvisioningData.create` -/
  | provision (actx nonce : String) (ttl : ℚ) (now : ℤ) (signature : String)
  | associateWithDroplet (nonce dropletId : String)
  | issue (r : Request) (fuel : ℕ) (service : String)
  | prove (r : Request) (getDroplet : String → Option Provider.LocalDroplet)
      (proof : Except Thrown Bool)

structure State where
  /-- The tokens that carry the signature of the issuer. -/
  signed : List (String × JWTPayload)
  nonces : List (String × String)

def start : State := ⟨[], []⟩

def State.sign (st : State) (signature : String) : Option JWTPayload → State
  | none => st
  | some payload => { st with signed := (signature, payload) :: st.signed }

def provisioningClaims (actx nonce : String) (ttl : ℚ) : List (String × Json) :=
  [("nonce", .string nonce),
    ("sub", .string ("actx:" ++ actx ++ ":role:provisioning:nonce:" ++ nonce)), ("ttl", .number ttl)]

def Reply.payload? : Reply → Option JWTPayload
  | .token payload => some payload
  | _ => none

/-- The claims that a request to issue has signed. -/
def issued (s : Settings) (r : Request) (fuel : ℕ) (service : String) : Option JWTPayload :=
  match (issue s fuel service r []).1 with
  | .ok reply => reply.payload?
  | _ => none

variable (s : Settings)

def step (st : State) : Event → State
  | .provision actx nonce ttl now signature =>
    st.sign signature (create s now actx (provisioningClaims actx nonce ttl)).toOption
  | .associateWithDroplet nonce dropletId =>
    if dropletId = "" then st else { st with nonces := set nonce dropletId st.nonces }
  | .issue r fuel service => st.sign r.signature (issued s r fuel service)
  | .prove r getDroplet proof =>
    match (proveValidate s r []).1 with
    | .ok oidcToken =>
      let (reply, nonces) := proveToken s r.now st.nonces getDroplet proof oidcToken
      { st with nonces := nonces }.sign r.signature (reply.toOption.bind Reply.payload?)
    | _ => st

def run (es : List Event) : State := es.foldl (step s) start

/-- Tokens under the key of the issuer are those it signed, for the audience they name. -/
def Signs (H : Host) (signed : List (String × JWTPayload)) : Prop :=
  ∀ log token issuer audience payload, H.verifyOwn log token issuer audience = .ok payload →
    (token, payload) ∈ signed ∧ (payload.lookup "aud" = some (.string audience) ∨
      ∃ auds, payload.lookup "aud" = some (.array auds) ∧ .string audience ∈ auds)

def Event.host : Event → Option Host
  | .issue r _ _ | .prove r _ _ => some r.host
  | _ => none

/-- What is assumed of the requests. -/
def Kept (st : State) (e : Event) : Prop := ∀ H ∈ e.host, Signs H st.signed

/-! ## Where tokens come from -/

/-- The token speaks for the context. -/
def InContext (payload : JWTPayload) (actx : String) : Prop :=
  ∃ api, '?' ∉ api.toList ∧
    payload.lookup "aud" = some (.string ("api://" ++ api ++ "?actx=" ++ actx))

/-- The record of the context, as the request finds it, lets the bearer of the token issue. -/
def Admits (H : Host) (fuel : ℕ) (service actx : String) (caller : JWTPayload) : Prop :=
  ∃ log rbac log', H.lookupRecord fuel (qualifyActx actx) service SCOPE log = (.ok rbac, log') ∧
    ∃ sub, caller.lookup "sub" = some (.string sub) ∧
      ∃ role ∈ rbac.roles, Host.Grants rbac (some sub) ISSUE_PATH "POST" role.2

/-- The request has the token signed, for the context. -/
def Asks (r : Request) (actx : String) (payload : JWTPayload) : Prop :=
  ∃ sub, create s r.now actx (issuedClaims r.body sub) = .ok payload

/-- A token of another issuer that the configuration trusts. -/
def Foreign (H : Host) (payload : JWTPayload) : Prop :=
  ∃ log uri token issuer audience, issuer ∈ s.trustedIssuerUrls ∧
    H.verifyRemote log uri token issuer audience = .ok payload

/-- What a token goes back to. -/
inductive Lineage (es : List Event) : JWTPayload → Prop
  /-- It was made for a machine. -/
  | provisioned {actx nonce : String} {ttl : ℚ} {now : ℤ} {signature : String} {payload : JWTPayload}
      (h : .provision actx nonce ttl now signature ∈ es)
      (hcreate : create s now actx (provisioningClaims actx nonce ttl) = .ok payload) :
      Lineage es payload
  /-- A machine proved itself with a token of the context and a nonce of its own. -/
  | proved {r : Request} {getDroplet : String → Option Provider.LocalDroplet} {actx nonce id : String}
      {droplet : Provider.LocalDroplet} {caller payload : JWTPayload}
      (h : .prove r getDroplet (.ok true) ∈ es) (hcaller : Lineage es caller)
      (hctx : InContext caller actx) (hnonce : caller.lookup "nonce" = some (.string nonce))
      (hassociated : .associateWithDroplet nonce id ∈ es) (hdroplet : getDroplet id = some droplet)
      (hcreate : create s r.now actx [("sub", .string (Provider.subject actx droplet.tags)),
        ("droplet_id", .string droplet.id)] = .ok payload) : Lineage es payload
  /-- A caller asked for it whom the record of the context admits. -/
  | issued {r : Request} {fuel : ℕ} {service actx : String} {caller payload : JWTPayload}
      (h : .issue r fuel service ∈ es) (hcaller : Lineage es caller) (hctx : InContext caller actx)
      (hadmits : Admits r.host fuel service actx caller) (hasks : Asks s r actx payload) :
      Lineage es payload
  /-- So did the bearer of a token of another issuer. -/
  | issuedForeign {r : Request} {fuel : ℕ} {service actx : String} {caller payload : JWTPayload}
      (h : .issue r fuel service ∈ es) (hcaller : Foreign s r.host caller)
      (hadmits : Admits r.host fuel service actx caller) (hasks : Asks s r actx payload) :
      Lineage es payload

variable {s} {st : State} {es : List Event}

/-! ### Claims that are signed -/

theorem create_eq_ok {now : ℤ} {actx : String} {claims : List (String × Json)} {payload : JWTPayload}
    (h : create s now actx claims = .ok payload) :
    (∃ sub, payload.lookup "sub" = some (.string sub) ∧ claims.lookup "sub" = some (.string sub) ∧
      subMatchesActx sub actx) ∧
    payload.lookup "aud" = some (.string (audience actx "DigitalOcean" (claims.lookup "aud"))) ∧
    payload.lookup "nonce" = claims.lookup "nonce" := by
  rw [create] at h
  split at h
  · rename_i sub hsub
    split_ifs at h with hmatches
    split at h
    · cases h
    · cases h
      simp only [lookup_set, lookup_erase, hsub]
      exact ⟨⟨sub, rfl, rfl, hmatches⟩, rfl, rfl⟩
  · split_ifs at h

/-! ### Tokens that are valid -/

section
variable {H : Host} {token : String} {log log' : Log}

theorem verifyUnderAny_eq_ok {audience lastErr : String} {issuers : List String}
    {payload : JWTPayload} {cfg : OidcConfig}
    (h : H.verifyUnderAny cfg token audience issuers lastErr log = (.ok payload, log')) :
    ∃ issuer ∈ issuers, ∃ log₁ log₂,
      H.verifyWithKeys cfg token audience issuer log₁ = (.ok payload, log₂) := by
  induction issuers generalizing lastErr log with
  | nil => cases h
  | cons issuer issuers ih =>
    rw [Host.verifyUnderAny, Task.tryCatch] at h
    split at h
    · obtain ⟨issuer', hissuer', hkeys⟩ := ih h
      exact ⟨issuer', List.mem_cons_of_mem _ hissuer', hkeys⟩
    · obtain ⟨payload', log₂, hkeys, h⟩ := Task.bind_eq_ok h
      obtain ⟨_, _, _, h⟩ := Task.bind_eq_ok h
      cases h
      exact ⟨issuer, List.mem_cons_self, log, log₂, hkeys⟩

theorem parseAudience_api {aud actx api : String} (h : parseAudience aud = .ok (actx, api)) :
    '?' ∉ api.toList := by
  rw [parseAudience] at h
  generalize (if "api://".toList.isPrefixOf aud.toList = true then aud.toList.drop 6 else []) = rest
    at h
  split_ifs at h
  split at h
  · cases h
  · rename_i i hindex
    split at h
    · cases h
    · cases h
    · cases h
      rw [String.toList_ofList]
      exact not_mem_take_idxOf? hindex

theorem peek_api {actx api : String} (h : H.peek token = .ok (actx, api)) : '?' ∉ api.toList := by
  rw [Host.peek] at h
  split_ifs at h
  split at h
  · cases h
  · rename_i unverified _
    cases haud : audienceText unverified with
    | error e =>
      rw [haud] at h
      cases h
    | ok aud =>
      rw [haud] at h
      exact parseAudience_api h

theorem remote_of_discovery {issuer audience : String} {payload : JWTPayload}
    (h : H.verifyByDiscovery token issuer audience log = (.ok payload, log')) :
    ∃ log uri, H.verifyRemote log uri token issuer audience = .ok payload := by
  obtain ⟨response, _, _, h⟩ := Task.bind_eq_ok h
  obtain ⟨doc, _, _, h⟩ := Task.bind_eq_ok h
  obtain ⟨jwksUri, _, _, h⟩ := Task.bind_eq_ok h
  cases huri : H.parseUrl jwksUri with
  | none =>
    rw [huri] at h
    cases h
  | some uri =>
    rw [huri] at h
    obtain ⟨n, _, _, h⟩ := Task.bind_eq_ok h
    obtain ⟨_, log, _, h⟩ := Task.bind_eq_ok h
    exact ⟨log, uri, Host.jwtVerify_eq_ok h⟩

/-- A token that is valid carries the signature of the issuer, or of another that was asked for. -/
theorem validate_eq_ok {getIssuers : String → String → List String} {oidcToken : OIDCToken}
    (h : H.validate s.toOidcConfig token getIssuers log = (.ok oidcToken, log')) :
    oidcToken.sub = oidcToken.claims.lookup "sub" ∧
    ((∃ log api, '?' ∉ api.toList ∧ H.verifyOwn log token s.issuerUrl
        ("api://" ++ api ++ "?actx=" ++ oidcToken.actx) = .ok oidcToken.claims) ∨
      (∃ api actx, getIssuers api actx ≠ []) ∧ Foreign s H oidcToken.claims) := by
  obtain ⟨⟨actx, api⟩, _, hpeek, h⟩ := Task.bind_eq_ok h
  obtain ⟨payload, _, hverify, h⟩ := Task.bind_eq_ok h
  cases h
  refine ⟨rfl, ?_⟩
  have hpeek := (Task.ofExcept_eq_ok hpeek).1
  obtain ⟨issuer, hissuer, log₁, log₂, hkeys⟩ := verifyUnderAny_eq_ok hverify
  rw [Host.verifyWithKeys] at hkeys
  split_ifs at hkeys with hown
  · rw [hown] at hkeys
    exact .inl ⟨log₁, api, peek_api hpeek, Host.jwtVerify_eq_ok hkeys⟩
  · obtain ⟨hasked, htrusted⟩ := (Host.mem_issuers.1 hissuer).resolve_left hown
    obtain ⟨log₃, uri, hremote⟩ := remote_of_discovery hkeys
    exact .inr ⟨⟨api, actx, List.ne_nil_of_mem hasked⟩,
      log₃, uri, token, issuer, _, htrusted, hremote⟩

end

/-! ### The steps -/

theorem Lineage.mono {es' : List Event} {payload : JWTPayload} (h : Lineage s es payload)
    (hsub : es ⊆ es') : Lineage s es' payload := by
  induction h with
  | provisioned h hcreate => exact .provisioned (hsub h) hcreate
  | proved h _ hctx hnonce hassociated hdroplet hcreate ih =>
    exact .proved (hsub h) ih hctx hnonce (hsub hassociated) hdroplet hcreate
  | issued h _ hctx hadmits hasks ih => exact .issued (hsub h) ih hctx hadmits hasks
  | issuedForeign h hcaller hadmits hasks => exact .issuedForeign (hsub h) hcaller hadmits hasks

theorem issueToken_eq_token {now : ℤ} {actx : String} {body : Option Json} {payload : JWTPayload}
    (h : (issueToken s now actx body).payload? = some payload) :
    ∃ sub, create s now actx (issuedClaims body sub) = .ok payload := by
  rw [issueToken] at h
  split at h
  · cases h
  · rename_i sub _
    split_ifs at h
    · split at h
      · cases h
      · rename_i payload' hcreate
        cases h
        exact ⟨sub, hcreate⟩
    · cases h

/-- What is signed for a request to issue. -/
theorem issued_eq_some {r : Request} {fuel : ℕ} {service : String} {payload : JWTPayload}
    (h : issued s r fuel service = some payload) : ∃ token authToken log,
      r.host.raiseIfUnauthorized s.toOidcConfig fuel service SCOPE token ISSUE_PATH "POST" [] =
        (.ok authToken, log) ∧ Asks s r authToken.actx payload := by
  rw [issued, issue, Task.tryCatch] at h
  split at h
  · rename_i reply hreply
    split at hreply
    · cases hreply
      cases h
    · obtain ⟨token, log, htoken, hrest⟩ := Task.bind_eq_ok (Prod.ext hreply rfl)
      obtain ⟨authToken, log', hraise, hrest⟩ := Task.bind_eq_ok hrest
      cases hrest
      obtain ⟨-, rfl⟩ := Task.ofExcept_eq_ok htoken
      exact ⟨token, authToken, _, hraise, issueToken_eq_token h⟩
  · cases h

/-- A role that grants is of a subject that the token has. -/
theorem admits_of_raise {H : Host} {fuel : ℕ} {service token : String} {authToken : OIDCToken}
    {log log' : Log} (h : H.raiseIfUnauthorized s.toOidcConfig fuel service SCOPE token ISSUE_PATH
      "POST" log = (.ok authToken, log')) :
    (∃ log log₁, H.validate s.toOidcConfig token (fun _ _ => s.trustedIssuerUrls) log =
      (.ok authToken, log₁)) ∧ Admits H fuel service authToken.actx authToken.claims := by
  obtain ⟨log₁, rbac, log₂, hvalidate, hlookup, _, hcheck⟩ := Host.raiseIfUnauthorized_eq_ok h
  obtain ⟨capability, hcapability, role, hrole, hsub, name, hname, hpermits⟩ :=
    exists_role_of_ok hcheck
  refine ⟨⟨log, log₁, hvalidate⟩, log₁, rbac, log₂, hlookup, ?_⟩
  have hclaim := (validate_eq_ok hvalidate).1
  rw [Host.subOf, hclaim] at hsub
  split at hsub
  · rename_i sub hlookup
    exact ⟨sub, hlookup, role, hrole, hsub, capability, hcapability, name, hname, hpermits⟩
  · cases hsub

/-- What holds after each event. -/
structure Inv (s : Settings) (es : List Event) (st : State) : Prop where
  signed : ∀ e ∈ st.signed, Lineage s es e.2 ∧ ∃ aud, e.2.lookup "aud" = some (.string aud)
  nonces : ∀ e ∈ st.nonces, .associateWithDroplet e.1 e.2 ∈ es

theorem Inv.later (h : Inv s es st) (e : Event) : Inv s (es ++ [e]) st where
  signed f hf := (h.signed f hf).imp_left fun h => h.mono (List.subset_append_left _ _)
  nonces f hf := List.mem_append_left _ (h.nonces f hf)

theorem Inv.sign (h : Inv s es st) {signature : String} {payload : Option JWTPayload}
    (hpayload : ∀ p ∈ payload, Lineage s es p ∧ ∃ aud, p.lookup "aud" = some (.string aud)) :
    Inv s es (st.sign signature payload) := by
  cases payload with
  | none => exact h
  | some p => exact { h with signed := List.forall_mem_cons.2 ⟨hpayload p rfl, h.signed⟩ }

/-- A token under the key of the issuer has a lineage, and speaks for its context. -/
theorem Inv.own (h : Inv s es st) {H : Host} (hsigns : Signs H st.signed) {log : Log}
    {token api actx : String} {payload : JWTPayload} (hapi : '?' ∉ api.toList)
    (hown : H.verifyOwn log token s.issuerUrl ("api://" ++ api ++ "?actx=" ++ actx) = .ok payload) :
    Lineage s es payload ∧ InContext payload actx := by
  obtain ⟨hmem, haud⟩ := hsigns _ _ _ _ _ hown
  obtain ⟨hlineage, aud, haud'⟩ := h.signed _ hmem
  refine ⟨hlineage, api, hapi, haud.resolve_right ?_⟩
  rintro ⟨auds, hauds, -⟩
  rw [haud'] at hauds
  cases hauds

theorem Inv.issue (h : Inv s es st) {r : Request} {fuel : ℕ} {service : String}
    (hmem : .issue r fuel service ∈ es) (hsigns : Signs r.host st.signed) :
    Inv s es (st.sign r.signature (issued s r fuel service)) := by
  refine h.sign fun payload hpayload => ?_
  obtain ⟨token, authToken, log, hraise, hasks⟩ := issued_eq_some hpayload
  obtain ⟨⟨_, _, hvalidate⟩, hadmits⟩ := admits_of_raise hraise
  have haud : ∃ aud, payload.lookup "aud" = some (.string aud) := by
    obtain ⟨sub, hcreate⟩ := hasks
    exact ⟨_, (create_eq_ok hcreate).2.1⟩
  refine ⟨?_, haud⟩
  rcases (validate_eq_ok hvalidate).2 with ⟨_, api, hapi, hown⟩ | ⟨-, hforeign⟩
  · obtain ⟨hlineage, hctx⟩ := h.own hsigns hapi hown
    exact .issued hmem hlineage hctx hadmits hasks
  · exact .issuedForeign hmem hforeign hadmits hasks

theorem proveValidate_eq_ok {r : Request} {oidcToken : OIDCToken} {log log' : Log}
    (h : proveValidate s r log = (.ok oidcToken, log')) : ∃ token log log',
      r.host.validate s.toOidcConfig token (fun _ _ => []) log = (.ok oidcToken, log') := by
  obtain ⟨_, _, _, h⟩ := Task.bind_eq_ok h
  obtain ⟨token, _, _, h⟩ := Task.bind_eq_ok h
  obtain ⟨_, log, _, h⟩ := Task.bind_eq_ok h
  exact ⟨token, log, log', h⟩

section
variable {now : ℤ} {nonces : List (String × String)} {proof : Except Thrown Bool}
  {getDroplet : String → Option Provider.LocalDroplet} {oidcToken : OIDCToken}

theorem proveToken_nonces : (proveToken s now nonces getDroplet proof oidcToken).2 ⊆ nonces := by
  have herase : ∀ nonce : String, erase nonce nonces ⊆ nonces := fun _ _ h => mem_of_mem_erase h
  rw [proveToken]
  split
  · split_ifs
    · exact List.Subset.refl _
    · split
      · exact List.Subset.refl _
      · dsimp only
        split
        · exact herase _
        · split_ifs
          · exact herase _
          · split <;> exact herase _
  · split_ifs <;> exact List.Subset.refl _

/-- What is signed for a machine that proves itself. -/
theorem proveToken_eq_token {payload : JWTPayload}
    (h : (proveToken s now nonces getDroplet proof oidcToken).1.toOption.bind Reply.payload? =
      some payload) : ∃ nonce id droplet,
      oidcToken.claims.lookup "nonce" = some (.string nonce) ∧ nonces.lookup nonce = some id ∧
      getDroplet id = some droplet ∧ proof = .ok true ∧
      create s now oidcToken.actx [("sub", .string (Provider.subject oidcToken.actx droplet.tags)),
        ("droplet_id", .string droplet.id)] = .ok payload := by
  rw [proveToken] at h
  split at h
  · rename_i nonce hnonce
    split_ifs at h
    · cases h
    · split at h
      · cases h
      · rename_i id hid
        dsimp only at h
        split at h
        · cases h
        · rename_i droplet hdroplet
          split_ifs at h
          · cases h
          · split at h
            · cases h
            · cases h
            · refine ⟨nonce, id, droplet, hnonce, hid, hdroplet, rfl, ?_⟩
              revert h
              cases create s now oidcToken.actx
                [("sub", .string (Provider.subject oidcToken.actx droplet.tags)),
                  ("droplet_id", .string droplet.id)] with
              | error e => exact fun h => by cases h
              | ok payload' =>
                intro h
                cases h
                rfl
  · split_ifs at h <;> cases h

end

theorem Inv.prove (h : Inv s es st) {r : Request}
    {getDroplet : String → Option Provider.LocalDroplet} {proof : Except Thrown Bool}
    {oidcToken : OIDCToken} {log log' : Log} (hmem : .prove r getDroplet proof ∈ es)
    (hsigns : Signs r.host st.signed) (hvalid : proveValidate s r log = (.ok oidcToken, log')) :
    let result := proveToken s r.now st.nonces getDroplet proof oidcToken
    Inv s es (State.sign { st with nonces := result.2 } r.signature
      (result.1.toOption.bind Reply.payload?)) := by
  intro result
  have hnonces : Inv s es { st with nonces := result.2 } :=
    { h with nonces := fun f hf => h.nonces f (proveToken_nonces hf) }
  refine hnonces.sign fun payload hpayload => ?_
  obtain ⟨nonce, id, droplet, hnonce, hid, hdroplet, rfl, hcreate⟩ := proveToken_eq_token hpayload
  obtain ⟨token, _, _, hvalidate⟩ := proveValidate_eq_ok hvalid
  refine ⟨?_, _, (create_eq_ok hcreate).2.1⟩
  rcases (validate_eq_ok hvalidate).2 with ⟨_, api, hapi, hown⟩ | ⟨⟨_, _, hasked⟩, -⟩
  · obtain ⟨hlineage, hctx⟩ := h.own hsigns hapi hown
    exact .proved hmem hlineage hctx hnonce (h.nonces _ (mem_of_lookup hid)) hdroplet hcreate
  · exact absurd rfl hasked

theorem Inv.step (h : Inv s es st) {e : Event} (hkept : Kept st e) :
    Inv s (es ++ [e]) (step s st e) := by
  have hlater := h.later e
  have hlast : e ∈ es ++ [e] := List.mem_append_right _ (List.mem_singleton_self e)
  cases e with
  | provision actx nonce ttl now signature =>
    refine hlater.sign fun payload hpayload => ?_
    cases hcreate : create s now actx (provisioningClaims actx nonce ttl) with
    | error err =>
      rw [hcreate] at hpayload
      cases hpayload
    | ok payload' =>
      rw [hcreate] at hpayload
      cases hpayload
      exact ⟨.provisioned hlast hcreate, _, (create_eq_ok hcreate).2.1⟩
  | associateWithDroplet nonce id =>
    rw [Issuer.step]
    split_ifs
    · exact hlater
    · refine { hlater with nonces := fun f hf => ?_ }
      rcases mem_set hf with rfl | hf
      · exact hlast
      · exact hlater.nonces f hf
  | issue r fuel service => exact hlater.issue hlast (hkept r.host rfl)
  | prove r getDroplet proof =>
    rw [Issuer.step]
    split
    · rename_i oidcToken hvalid
      exact hlater.prove hlast (hkept r.host rfl) (Prod.ext hvalid rfl)
    · exact hlater

theorem inv_run (hkept : Along (step s) Kept start es) : Inv s es (run s es) := by
  induction es using List.reverseRecOn with
  | nil => exact ⟨fun _ h => absurd h List.not_mem_nil, fun _ h => absurd h List.not_mem_nil⟩
  | append_singleton es e ih =>
    obtain ⟨hes, he, -⟩ := along_append.1 hkept
    rw [run, List.foldl_append]
    exact (ih hes).step he

/-- The token has a subject of the context. -/
def SubjectOf (payload : JWTPayload) (actx : String) : Prop :=
  ∃ sub, payload.lookup "sub" = some (.string sub) ∧ subMatchesActx sub actx

/-- The context is the other one, or one below it. -/
def Under (base actx : String) : Prop := base.toList ++ [':'] <+: actx.toList ++ [':']

theorem prefix_of_subMatchesActx {sub actx : String} (h : subMatchesActx sub actx) :
    "actx:".toList ++ (actx.toList ++ [':']) <+: sub.toList ++ [':'] := by
  have hcolon : ":".toList = [':'] := rfl
  rw [subMatchesActx, Bool.and_eq_true, Bool.or_eq_true, decide_eq_true_eq, startsWith,
    List.isPrefixOf_iff_prefix] at h
  rcases h.2 with h | h
  · have hsub : sub.toList ++ [':'] = "actx:".toList ++ (actx.toList ++ [':']) := by
      rw [of_decide_eq_true h, String.toList_append, List.append_assoc]
    exact hsub ▸ List.prefix_rfl
  · rw [String.toList_append, String.toList_append, hcolon, List.append_assoc] at h
    exact h.trans (List.prefix_append _ _)

/-- A subject of a context that is one segment, and of another context. -/
theorem under_of_subjectOf {payload : JWTPayload} {base actx : String} (hbase : ':' ∉ base.toList)
    (h : SubjectOf payload base) (h' : SubjectOf payload actx) : Under base actx := by
  obtain ⟨sub, hsub, hmatches⟩ := h
  obtain ⟨sub', hsub', hmatches'⟩ := h'
  rw [hsub] at hsub'
  cases hsub'
  have hpre := List.prefix_or_prefix_of_prefix (prefix_of_subMatchesActx hmatches)
    (prefix_of_subMatchesActx hmatches')
  rw [List.prefix_append_right_inj, List.prefix_append_right_inj] at hpre
  rcases hpre with hpre | hpre
  · exact hpre
  · rcases List.prefix_concat_iff.1 hpre with heq | hpre
    · exact show base.toList ++ [':'] <+: actx.toList ++ [':'] from heq ▸ List.prefix_rfl
    · exact absurd (hpre.subset (List.mem_append_right _ (List.mem_singleton_self ':'))) hbase

/-- What has to be seen to for the subjects of a context to stay its own. -/
structure Guarded (s : Settings) (base : String) (es : List Event) : Prop where
  /-- No machine is provisioned in the context. -/
  provision : ∀ actx nonce ttl now signature, .provision actx nonce ttl now signature ∈ es →
    ¬Under base actx
  /-- Its record admits its own subjects. -/
  records : ∀ r fuel service, .issue r fuel service ∈ es → ∀ actx caller, Under base actx →
    Admits r.host fuel service actx caller → SubjectOf caller base
  /-- No trusted issuer signs one of them. -/
  foreign : ∀ r fuel service, .issue r fuel service ∈ es → ∀ payload, Foreign s r.host payload →
    ¬SubjectOf payload base
  /-- Callers ask for no nonce. -/
  nonces : ∀ r fuel service, .issue r fuel service ∈ es → (fields r.body).lookup "nonce" = none

/-- No token has a subject of the context, and one with a nonce does not speak for it. -/
structure Apart (base : String) (payload : JWTPayload) : Prop where
  subject : ¬SubjectOf payload base
  nonce : ∀ nonce actx, payload.lookup "nonce" = some (.string nonce) → InContext payload actx →
    ¬Under base actx

/-- A provisioning token speaks for the context it is made for. -/
theorem inContext_provisioning {now : ℤ} {actx actx' nonce : String} {ttl : ℚ}
    {payload : JWTPayload} (h : create s now actx (provisioningClaims actx nonce ttl) = .ok payload)
    (hctx : InContext payload actx') : actx' = actx := by
  obtain ⟨api, hapi, haud⟩ := hctx
  have haud' : payload.lookup "aud" = some (.string (Provider.audienceOf actx)) :=
    (create_eq_ok h).2.1
  rw [haud, Option.some.injEq, Json.string.injEq] at haud'
  have hlist := congrArg String.toList haud'
  rw [Provider.toList_audienceOf, String.toList_append, String.toList_append, String.toList_append,
    List.append_assoc, List.append_assoc] at hlist
  have hrest : api.toList ++ '?' :: ("actx=".toList ++ actx'.toList) =
      "DigitalOcean".toList ++ '?' :: ("actx=".toList ++ actx.toList) := List.append_cancel_left hlist
  have hlength := congrArg (List.idxOf? '?') hrest
  rw [Provider.idxOf?_append_cons hapi, Provider.idxOf?_append_cons (by decide)] at hlength
  have htail := (List.append_inj hrest (Option.some.inj hlength)).2
  exact String.toList_injective (List.append_cancel_left (List.cons.inj htail).2)

theorem subjectOf_create {now : ℤ} {actx : String} {claims : List (String × Json)}
    {payload : JWTPayload} (h : create s now actx claims = .ok payload) : SubjectOf payload actx := by
  obtain ⟨⟨sub, hsub, _, hmatches⟩, _⟩ := create_eq_ok h
  exact ⟨sub, hsub, hmatches⟩

theorem Lineage.apart {base : String} {payload : JWTPayload} (hbase : ':' ∉ base.toList)
    (hguarded : Guarded s base es) (h : Lineage s es payload) : Apart base payload := by
  have hunder : ∀ {now actx claims payload}, create s now actx claims = .ok payload →
      ¬Under base actx → ¬SubjectOf payload base := fun hcreate hnot hsubject =>
    hnot (under_of_subjectOf hbase hsubject (subjectOf_create hcreate))
  -- Callers ask for no nonce, so what they are issued has none.
  have hasks : ∀ {r actx payload}, (∃ fuel service, .issue r fuel service ∈ es) →
      Asks s r actx payload → ¬Under base actx → Apart base payload := by
    rintro r actx payload ⟨fuel, service, hmem⟩ ⟨sub, hcreate⟩ hnot
    refine ⟨hunder hcreate hnot, fun nonce _ hnonce => ?_⟩
    rw [(create_eq_ok hcreate).2.2, issuedClaims, lookup_set, if_neg (by decide),
      hguarded.nonces _ _ _ hmem] at hnonce
    cases hnonce
  induction h with
  | provisioned h hcreate =>
    have hnot := hguarded.provision _ _ _ _ _ h
    refine ⟨hunder hcreate hnot, fun _ actx _ hctx => ?_⟩
    rw [inContext_provisioning hcreate hctx]
    exact hnot
  | proved h _ hctx hnonce hassociated hdroplet hcreate ih =>
    refine ⟨hunder hcreate (ih.nonce _ _ hnonce hctx), fun nonce _ hnonce => ?_⟩
    rw [(create_eq_ok hcreate).2.2] at hnonce
    cases hnonce
  | issued h _ hctx hadmits hask ih =>
    exact hasks ⟨_, _, h⟩ hask fun hactx => ih.subject (hguarded.records _ _ _ h _ _ hactx hadmits)
  | issuedForeign h hforeign hadmits hask =>
    exact hasks ⟨_, _, h⟩ hask fun hactx =>
      hguarded.foreign _ _ _ h _ hforeign (hguarded.records _ _ _ h _ _ hactx hadmits)

def sampleSettings : Settings := ⟨⟨"https://own.test", []⟩, 86400⟩

/-- A host where the service has signed these tokens, and the network is down. -/
def sampleHost (signed : List (String × JWTPayload)) : Host where
  network _ _ := none
  decodeJwt token := match signed.lookup token with
    | some payload => .ok payload
    | none => .error "Invalid JWT"
  verifyOwn _ token _ expected := match signed.lookup token with
    | none => .error "signature verification failed"
    | some payload => match payload.lookup "aud" with
      | some (.string aud) => if aud = expected then .ok payload else .error "unexpected aud"
      | _ => .error "unexpected aud"
  jwksFetches _ _ _ := 1
  verifyRemote _ _ _ _ _ := .error "signature verification failed"
  parseUrl _ := none
  listRecordsUrl _ _ := none
  text _ := ""
  rbacRecords _ := .ok []

theorem signs_sampleHost (signed : List (String × JWTPayload)) :
    Signs (sampleHost signed) signed := by
  intro log token issuer audience payload h
  simp only [sampleHost] at h
  split at h
  · cases h
  · rename_i payload' hlookup
    split at h
    · rename_i aud haud
      split_ifs at h with heq
      cases h
      rw [← heq]
      exact ⟨mem_of_lookup hlookup, .inl haud⟩
    · cases h

theorem not_foreign_sampleHost (signed : List (String × JWTPayload)) (payload : JWTPayload) :
    ¬Foreign sampleSettings (sampleHost signed) payload := by
  rintro ⟨log, uri, token, issuer, audience, hissuer, -⟩
  exact absurd hissuer List.not_mem_nil

/-- Without a network no record is found. -/
theorem not_admits_sampleHost (signed : List (String × JWTPayload)) (fuel : ℕ)
    (service actx : String) (caller : JWTPayload) :
    ¬Admits (sampleHost signed) fuel service actx caller := by
  rintro ⟨log, rbac, log', hlookup, -⟩
  obtain ⟨pds, _, hpds, -⟩ := Task.bind_eq_ok hlookup
  obtain ⟨url, _, _, hpds⟩ := Task.bind_eq_ok hpds
  obtain ⟨response, _, hfetch, -⟩ := Task.bind_eq_ok hpds
  cases hfetch

/-- A machine is provisioned. -/
def sampleStart : List Event :=
  [.provision "abc" "00ff" 900 0 "p.q.r", .associateWithDroplet "00ff" "vm"]

/-- It proves itself. -/
def sampleProve : Event :=
  .prove ⟨sampleHost (run sampleSettings sampleStart).signed, some "Bearer p.q.r", some (.object []),
    1, "s.t.u"⟩ (fun id => some ⟨id, ["10.0.0.1"], ["oidc-sub:role:web"], none⟩) (.ok true)

/-- It asks for a token of another context. -/
def sampleIssue : Event :=
  .issue ⟨sampleHost (run sampleSettings (sampleStart ++ [sampleProve])).signed,
    some "Bearer s.t.u", some (.object [("sub", .string "actx:xyz")]), 2, "v.w.x"⟩ 1
    "https://own.test"

def sampleEvents : List Event := sampleStart ++ [sampleProve, sampleIssue]

/-- The claims of the machine. -/
def sampleClaims : JWTPayload :=
  [("sub", .string "actx:abc:role:web"), ("droplet_id", .string "vm"),
    ("iss", .string "https://own.test"), ("aud", .string "api://DigitalOcean?actx=abc"),
    ("iat", .number (1 : ℤ)), ("exp", .number ((1 : ℤ) + 86400))]

theorem mem_sampleEvents : ("s.t.u", sampleClaims) ∈ (run sampleSettings sampleEvents).signed :=
  List.mem_of_getElem? (i := 0) rfl

theorem kept_sampleEvents : Along (step sampleSettings) Kept start sampleEvents := by
  have hnone : ∀ (st : State) (e : Event), e.host = none → Kept st e := fun st e he H hH => by
    rw [he] at hH
    cases hH
  have hown : ∀ (st : State) (e : Event), e.host = some (sampleHost st.signed) → Kept st e :=
    fun st e he H hH => by
      rw [he] at hH
      cases hH
      exact signs_sampleHost _
  exact ⟨hnone _ _ rfl, hnone _ _ rfl, hown _ _ rfl, hown _ _ rfl, trivial⟩

end ComputeContract.Issuer
