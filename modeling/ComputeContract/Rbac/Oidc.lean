import ComputeContract.Lib.Task
import ComputeContract.Rbac.Record
import ComputeContract.Util.UrlEncoded

/-!
# Tokens

`OIDCToken.validate`, as a task that logs what it fetches and where a token verified. The
token is verified under the issuer of the service and under the configured ones that the
caller asks for; the keys of the latter are found by discovery.

* `validate_trusted`: until a token has verified, only configured issuers are asked.
-/

namespace ComputeContract

open AssocList

/-! ## The host -/

/-- What `fetch` comes back with. -/
structure FetchResponse where
  ok : Bool
  status : ℕ
  /-- `json()`; `none` throws. -/
  body : Option Json

/-- What is logged. -/
inductive Effect
  /-- A fetch, with `none` for one that failed. -/
  | fetch (url : String) (response : Option FetchResponse)
  /-- The token verified under the issuer. -/
  | verified (issuer : String)

abbrev Log := List Effect

/-- The claims of a token. -/
abbrev JWTPayload := List (String × Json)

/-- What the helpers find around them: the network and `jose`, whose answers may depend on
    all that happened before, and the platform's URLs. -/
structure Host where
  network : Log → String → Option FetchResponse
  /-- `jose.decodeJwt` -/
  decodeJwt : String → Except String JWTPayload
  /-- `jose.jwtVerify` with the key of the service, for a token, an issuer and an audience. -/
  verifyOwn : Log → String → String → String → Except String JWTPayload
  /-- The number of times that a remote key set is fetched for a token. -/
  jwksFetches : Log → String → String → ℕ
  /-- `jose.jwtVerify` with the remote key set of a URL, once that was fetched. -/
  verifyRemote : Log → String → String → String → String → Except String JWTPayload
  /-- `new URL` -/
  parseUrl : Option Json → Option String
  /-- The URL of `listRecords` at a server, with its parameters. -/
  listRecordsUrl : Json → List (String × Json) → Option String
  /-- A value in a template. -/
  text : Json → String
  /-- The records of a page, by their declared types. -/
  rbacRecords : Json → Except Thrown (List RBACRecord)

structure OidcConfig where
  issuerUrl : String
  trustedIssuerUrls : List String

/-- `v.name`, for names that no prototype has. -/
def Json.member (v : Json) (name : String) : Except Thrown (Option Json) :=
  match v with
  | .null => .error .typeError
  | .object fields => .ok (fields.lookup name)
  | _ => .ok none

/-- Whether a value, or `undefined`, is true in a condition. -/
def Json.truthy : Option Json → Bool
  | none | some .null => false
  | some (.bool b) => b
  | some (.number n) => n ≠ 0
  | some (.string s) => s ≠ ""
  | some (.infinite _) | some (.array _) | some (.object _) => true

def Thrown.message : Thrown → String
  | .unauthorized message | .error message => message
  | .typeError => "TypeError"

namespace Host

variable (H : Host)

def fetch (url : String) : Task Log Thrown FetchResponse := fun log =>
  let response := H.network log url
  (match response with
    | some response => .ok response
    | none => .error (.error "fetch failed"), log ++ [.fetch url response])

def json (response : FetchResponse) : Except Thrown Json :=
  match response.body with
  | some body => .ok body
  | none => .error (.error "invalid json")

/-! ## Validation -/

def emit (effect : Effect) : Task Log Thrown Unit := fun log => (.ok (), log ++ [effect])

/-- `jose` fetches a key set some number of times; what comes of it is for it to handle. -/
def fetchJwks (uri : String) : ℕ → Task Log Thrown Unit
  | 0 => pure ()
  | n + 1 => fun log => fetchJwks uri n (log ++ [.fetch uri (H.network log uri)])

/-- `jose.jwtVerify`, with its verdict on what was logged. -/
def jwtVerify (verdict : Log → Except String JWTPayload) : Task Log Thrown JWTPayload := fun log =>
  match verdict log with
  | .ok payload => (.ok payload, log)
  | .error message => (.error (.error message), log)

def discoveryUrl (issuer : String) : String := issuer ++ "/.well-known/openid-configuration"

/-- The key set of an issuer is that of its discovery document. -/
def verifyByDiscovery (token issuer audience : String) : Task Log Thrown JWTPayload := do
  let response ← H.fetch (discoveryUrl issuer)
  let openidConfig ← Task.ofExcept (json response)
  let jwksUri ← Task.ofExcept (openidConfig.member "jwks_uri")
  match H.parseUrl jwksUri with
  | none => Task.throw .typeError
  | some uri =>
    let n ← fun log => (.ok (H.jwksFetches log uri token), log)
    H.fetchJwks uri n
    jwtVerify fun log => H.verifyRemote log uri token issuer audience

/-- The key of the service, or the key set of the issuer. -/
def verifyWithKeys (cfg : OidcConfig) (token audience issuer : String) :
    Task Log Thrown JWTPayload :=
  if issuer = cfg.issuerUrl then jwtVerify fun log => H.verifyOwn log token issuer audience
  else H.verifyByDiscovery token issuer audience

/-- The body of the `try` in the loop over the issuers. -/
def verifyUnder (cfg : OidcConfig) (token audience issuer : String) :
    Task Log Thrown JWTPayload := do
  let payload ← H.verifyWithKeys cfg token audience issuer
  emit (.verified issuer)
  pure payload

/-- The loop over the issuers, with the message of the last error. -/
def verifyUnderAny (cfg : OidcConfig) (token audience : String) :
    List String → String → Task Log Thrown JWTPayload
  | [], lastErr => Task.throw (.unauthorized ("OIDC token failed validation: " ++ lastErr))
  | issuer :: issuers, _ => Task.tryCatch (H.verifyUnder cfg token audience issuer)
      fun e => verifyUnderAny cfg token audience issuers e.message

end Host

structure OIDCToken where
  actx : String
  api : String
  aud : String
  sub : Option Json
  claims : JWTPayload
  asString : String

/-- The context and the api of an audience. -/
def parseAudience (aud : String) : Except Thrown (String × String) :=
  let rest := if "api://".toList.isPrefixOf aud.toList then aud.toList.drop 6 else []
  if rest = [] then .error (.unauthorized ("aud does not start with api://: " ++ aud))
  else match rest.idxOf? '?' with
    | none => .error (.unauthorized ("aud missing ?actx=: " ++ aud))
    | some i =>
      match (UrlEncoded.searchParams (String.ofList (rest.drop (i + 1)))).lookup "actx" with
      | none | some "" => .error (.unauthorized ("aud missing actx param: " ++ aud))
      | some actx => .ok (actx, String.ofList (rest.take i))

/-- `rawAud ?? ""`; only a string can be parsed. -/
def audienceText (unverified : JWTPayload) : Except Thrown String :=
  let rawAud := match unverified.lookup "aud" with
    | some (.array auds) => auds.head?
    | aud => aud
  match rawAud with
  | none | some .null => .ok ""
  | some (.string aud) => .ok aud
  | _ => .error .typeError

/-- What a token says of its audience before it is verified. -/
def Host.peek (H : Host) (token : String) : Except Thrown (String × String) :=
  if token = "" ∨ token = "0" then
    .error (.unauthorized "Unable to authenticate you, no token")
  else if (token.toList.splitOn '.').length ≠ 3 then .error (.unauthorized "Invalid token")
  else match H.decodeJwt token with
    | .error message => .error (.error message)
    | .ok unverified => do parseAudience (← audienceText unverified)

/-- The issuers that a token is tried with. -/
def OidcConfig.issuers (cfg : OidcConfig) (asked : List String) : List String :=
  (cfg.issuerUrl :: asked.filter (· ∈ cfg.trustedIssuerUrls)).eraseDups

def Host.validate (H : Host) (cfg : OidcConfig) (token : String)
    (getIssuers : String → String → List String) : Task Log Thrown OIDCToken := do
  let (actx, api) ← Task.ofExcept (H.peek token)
  let expectedAud := "api://" ++ api ++ "?actx=" ++ actx
  let payload ← H.verifyUnderAny cfg token expectedAud (cfg.issuers (getIssuers api actx)) "no issuers"
  pure ⟨actx, api, expectedAud, payload.lookup "sub", payload, token⟩

/-! ## What is fetched -/

/-- A discovery document of the issuer, which the log has, names the URL as its key set. -/
def Host.NamesKeySet (H : Host) (log : Log) (issuer url : String) : Prop :=
  ∃ response doc jwksUri, .fetch (Host.discoveryUrl issuer) (some response) ∈ log ∧
    response.body = some doc ∧ doc.member "jwks_uri" = .ok jwksUri ∧ H.parseUrl jwksUri = some url

/-- The URL is the discovery document or the key set of a configured issuer. -/
def Host.Trusted (H : Host) (cfg : OidcConfig) (log : Log) (url : String) : Prop :=
  ∃ issuer ∈ cfg.trustedIssuerUrls,
    url = Host.discoveryUrl issuer ∨ H.NamesKeySet log issuer url

/-- No token has verified yet. -/
def Unverified (log : Log) : Prop := ∀ issuer, .verified issuer ∉ log

/-- What was fetched before a token verified was at a configured issuer. -/
def Host.FetchesTrusted (H : Host) (cfg : OidcConfig) (log : Log) : Prop :=
  ∀ before url response after, log = before ++ .fetch url response :: after →
    Unverified before → H.Trusted cfg before url

variable {H : Host} {cfg : OidcConfig} {log : Log}

theorem fetchesTrusted_concat {effect : Effect} (h : H.FetchesTrusted cfg log)
    (heffect : ∀ url response, effect = .fetch url response → Unverified log →
      H.Trusted cfg log url) : H.FetchesTrusted cfg (log ++ [effect]) := by
  intro before url response after heq hun
  rcases List.eq_nil_or_concat after with rfl | ⟨after, last, rfl⟩
  · obtain ⟨rfl, hlast⟩ := List.append_inj' heq rfl
    cases hlast
    exact heffect url response rfl hun
  · rw [List.concat_eq_append, ← List.cons_append, ← List.append_assoc] at heq
    exact h before url response after (List.append_inj' heq rfl).1 hun

/-- Once a token has verified, anything may be fetched. -/
theorem fetchesTrusted_append {issuer : String} (h : H.FetchesTrusted cfg log)
    (hverified : .verified issuer ∈ log) (effects : Log) :
    H.FetchesTrusted cfg (log ++ effects) := by
  induction effects generalizing log with
  | nil => rwa [List.append_nil]
  | cons effect effects ih =>
    rw [List.append_cons]
    refine ih (fetchesTrusted_concat h fun _ _ _ hun => ?_) (List.mem_append_left _ hverified)
    exact absurd hverified (hun issuer)

theorem Host.NamesKeySet.mono {issuer url : String} {effects : Log}
    (h : H.NamesKeySet log issuer url) : H.NamesKeySet (log ++ effects) issuer url := by
  obtain ⟨response, doc, jwksUri, hmem, hrest⟩ := h
  exact ⟨response, doc, jwksUri, List.mem_append_left _ hmem, hrest⟩

namespace Host

theorem fetch_trusted {url : String} {P : Log → Prop} (hurl : ∀ log, P log → H.Trusted cfg log url) :
    (H.fetch url).Triple (fun log => H.FetchesTrusted cfg log ∧ P log)
      fun o log => H.FetchesTrusted cfg log ∧
        ∀ response, o = .ok response → .fetch url (some response) ∈ log := by
  rintro log ⟨hlog, hP⟩
  refine ⟨fetchesTrusted_concat hlog fun _ _ heq _ => ?_, fun response hok => ?_⟩
  · cases heq
    exact hurl log hP
  · unfold fetch at hok ⊢
    dsimp only at hok ⊢
    split at hok
    · rename_i response' hresponse
      cases hok
      rw [hresponse]
      exact List.mem_append_right _ (List.mem_singleton_self _)
    · cases hok

theorem fetchJwks_trusted {issuer uri : String} (htrusted : issuer ∈ cfg.trustedIssuerUrls) (n : ℕ) :
    (H.fetchJwks uri n).Triple
      (fun log => H.FetchesTrusted cfg log ∧ H.NamesKeySet log issuer uri)
      fun _ log => H.FetchesTrusted cfg log := by
  induction n with
  | zero => exact .pure fun _ h => h.1
  | succ n ih =>
    rintro log ⟨hlog, hnames⟩
    refine ih _ ⟨fetchesTrusted_concat hlog fun _ _ heq _ => ?_, hnames.mono⟩
    cases heq
    exact ⟨issuer, htrusted, .inr hnames⟩

theorem jwtVerify_keeps {P : Log → Prop} (verdict : Log → Except String JWTPayload) :
    (jwtVerify verdict).Triple P fun _ log => P log := by
  intro log hlog
  unfold jwtVerify
  split <;> exact hlog

theorem verifyByDiscovery_trusted {token issuer audience : String}
    (htrusted : issuer ∈ cfg.trustedIssuerUrls) :
    (H.verifyByDiscovery token issuer audience).Triple (H.FetchesTrusted cfg)
      fun _ log => H.FetchesTrusted cfg log := by
  unfold verifyByDiscovery
  have hfetch : (H.fetch (discoveryUrl issuer)).Triple (fun log => H.FetchesTrusted cfg log ∧ True)
      fun o log => H.FetchesTrusted cfg log ∧
        ∀ response, o = .ok response → .fetch (discoveryUrl issuer) (some response) ∈ log :=
    fetch_trusted fun _ _ => ⟨issuer, htrusted, .inl rfl⟩
  refine Task.Triple.bind (hfetch.conseq (fun _ h => ⟨h, trivial⟩) fun _ _ h => h)
    (fun response => ?_) (fun _ _ h => h.1) fun _ h => h.1
  refine .bind_ofExcept (fun doc hdoc => .bind_ofExcept (fun jwksUri hjwks => ?_)
    fun _ _ h => h.1) fun _ _ h => h.1
  split
  · exact .throw fun _ h => h.1
  · rename_i uri huri
    -- The document was fetched from the issuer, so the key set is the issuer's.
    have hbody : response.body = some doc := by
      unfold json at hdoc
      split at hdoc
      · cases hdoc
        assumption
      · cases hdoc
    have hnames : ∀ log, .fetch (discoveryUrl issuer) (some response) ∈ log →
        H.NamesKeySet log issuer uri := fun log hmem =>
      ⟨response, doc, jwksUri, hmem, hbody, hjwks, huri⟩
    intro log h
    have hkeys : (H.fetchJwks uri (H.jwksFetches log uri token)).Triple
        (fun log => H.FetchesTrusted cfg log ∧ H.NamesKeySet log issuer uri)
        fun _ log => H.FetchesTrusted cfg log :=
      fetchJwks_trusted htrusted _
    exact (hkeys.bind (fun _ => jwtVerify_keeps _) (fun _ _ h => h) fun _ h => h) log
      ⟨h.1, hnames log (h.2 response rfl)⟩

/-- An issuer that is tried is the service's own or configured. -/
theorem verifyUnder_trusted {token audience issuer : String}
    (hissuer : issuer = cfg.issuerUrl ∨ issuer ∈ cfg.trustedIssuerUrls) :
    (H.verifyUnder cfg token audience issuer).Triple (H.FetchesTrusted cfg) fun o log =>
      H.FetchesTrusted cfg log ∧ ∀ payload, o = .ok payload → .verified issuer ∈ log := by
  unfold verifyUnder
  refine Task.Triple.bind (R := fun _ log => H.FetchesTrusted cfg log) ?_ (fun payload => ?_)
    (fun _ _ h => ⟨h, fun _ h => by cases h⟩) fun _ h => ⟨h, fun _ h => by cases h⟩
  · unfold verifyWithKeys
    split_ifs with hown
    · exact jwtVerify_keeps _
    · exact verifyByDiscovery_trusted (hissuer.resolve_left hown)
  · intro log h
    refine ⟨fetchesTrusted_concat h fun _ _ heq _ => (by cases heq), fun _ _ => ?_⟩
    exact List.mem_append_right _ (List.mem_singleton_self _)

theorem verifyUnderAny_trusted {token audience : String} {issuers : List String} {lastErr : String}
    (hissuers : ∀ issuer ∈ issuers, issuer = cfg.issuerUrl ∨ issuer ∈ cfg.trustedIssuerUrls) :
    (H.verifyUnderAny cfg token audience issuers lastErr).Triple (H.FetchesTrusted cfg) fun o log =>
      H.FetchesTrusted cfg log ∧
        ∀ payload, o = .ok payload → ∃ issuer, .verified issuer ∈ log := by
  induction issuers generalizing lastErr with
  | nil => exact .throw fun _ h => ⟨h, fun _ h => by cases h⟩
  | cons issuer issuers ih =>
    rw [List.forall_mem_cons] at hissuers
    refine Task.Triple.tryCatch (R := fun _ => H.FetchesTrusted cfg) ?_ fun e => ih hissuers.2
    refine (verifyUnder_trusted hissuers.1).conseq (fun _ h => h) fun o log h => ?_
    cases o with
    | ok payload => exact ⟨h.1, fun _ _ => ⟨issuer, h.2 payload rfl⟩⟩
    | error e => exact h.1
    | running => exact ⟨h.1, fun _ h => by cases h⟩

theorem mem_issuers {asked : List String} {issuer : String} :
    issuer ∈ cfg.issuers asked ↔
      issuer = cfg.issuerUrl ∨ issuer ∈ asked ∧ issuer ∈ cfg.trustedIssuerUrls := by
  simp [OidcConfig.issuers]

/-- Until a token has verified, only configured issuers are asked. -/
theorem validate_trusted {token : String} {getIssuers : String → String → List String} :
    (H.validate cfg token getIssuers).Triple (H.FetchesTrusted cfg) fun o log =>
      H.FetchesTrusted cfg log ∧ ∀ oidc, o = .ok oidc → ∃ issuer, .verified issuer ∈ log := by
  unfold validate
  refine .bind_ofExcept (fun peeked _ => ?_) fun _ _ h => ⟨h, fun _ h => by cases h⟩
  refine Task.Triple.bind (verifyUnderAny_trusted fun issuer h => ?_) (fun payload => ?_)
    (fun _ _ h => ⟨h.1, fun _ h => by cases h⟩) fun _ h => ⟨h.1, fun _ h => by cases h⟩
  · exact (mem_issuers.1 h).imp_right And.right
  · exact .pure fun _ h => ⟨h.1, fun _ _ => h.2 payload rfl⟩

end Host

end ComputeContract
