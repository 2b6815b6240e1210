import Mathlib.Data.Finset.Max
import ComputeContract.Lib.Except
import ComputeContract.Util.Base64
import ComputeContract.Util.JsonNumber

/-!
# Service authentication

A caller's PDS mints a token for a service: `signServiceAuth` signs a header and a payload, each
JSON in base64url. The receiver checks the signature, the method and the expiry of the token
(`verifyJwt`), and whether it answers for the audience (`verifyMarketServiceAuth`). There are two
copies of the check, `auth.ts` and `auth.browser.ts`; they share `verifyJwt`, which the first one
takes from a package.

* `verifyJwt_eq_ok`: what is checked of a token;
* `verifyJwt_signedToken`: a token that is minted is read back;
* `serviceAuth_iff`: when the two copies are the same check.
-/

namespace ComputeContract.Market.ServiceAuth

open AssocList

/-! ## Identifiers -/

def isMethodChar (c : Char) : Bool := 'a' ≤ c ∧ c ≤ 'z'

def isLastChar (c : Char) : Bool :=
  'a' ≤ c ∧ c ≤ 'z' ∨ 'A' ≤ c ∧ c ≤ 'Z' ∨ '0' ≤ c ∧ c ≤ '9' ∨ c = '.' ∨ c = '_' ∨ c = '-'

def isIdChar (c : Char) : Bool := isLastChar c || c = ':' || c = '%'

/-- `/^did:[a-z]+:[a-zA-Z0-9._:%-]*[a-zA-Z0-9._-]$/` -/
def isDidString (s : String) : Bool :=
  "did:".toList.isPrefixOf s.toList &&
    let rest := s.toList.drop 4
    let id := (rest.dropWhile isMethodChar).drop 1
    rest.takeWhile isMethodChar ≠ [] && (rest.dropWhile isMethodChar).head? = some ':' &&
      id.all isIdChar && id.getLast?.any isLastChar

/-- What is before the first `#`. -/
def authority (s : String) : String := String.ofList (s.toList.takeWhile (· ≠ '#'))

def isDidStringOrService (value : String) : Bool :=
  match value.toList.dropWhile (· ≠ '#') with
  | [] => isDidString value
  | _ :: fragment => fragment ≠ [] && '#' ∉ fragment && isDidString (authority value)

/-! ## Tokens -/

inductive Thrown
  | auth (message code : String)
  | error (message : String)
  /-- Of `atob` or `JSON.parse`. -/
  | platform

structure Platform where
  /-- `crypto.verifySignature`, of a `did:key`, the data, the signature and the `jwtAlg`. -/
  verifySignature : String → Bytes → Bytes → String → Except String Bool
  /-- The text of a number. -/
  numberText : ℚ → List Char

def b64urlToBytes (b64 : List Char) : Except Thrown Bytes :=
  match atob (padBase64 (Base64.fromUrl b64)) with
  | some bytes => .ok bytes
  | none => .error .platform

def b64urlToJson (b64 : List Char) : Except Thrown Json := do
  let bytes ← b64urlToBytes b64
  match Json.parse (textDecode bytes) with
  | some v => .ok v
  | none => .error .platform

/-- The fields of what is read; only an object has those that are asked for. -/
def fieldsOf : Json → List (String × Json)
  | .object o => o
  | _ => []

def badJwt : Thrown := .auth "poorly formatted jwt" "BadJwt"

/-- `header.alg`, of a header that may be read. -/
def headerAlg (header : List (String × Json)) : Except Thrown String :=
  match header.lookup "alg", header.lookup "typ" with
  | some (.string alg), some (.string typ) =>
    if typ ∈ ["at+jwt", "refresh+jwt", "dpop+jwt"] then
      .error (.auth s!"Invalid jwt type \"{typ}\"" "BadJwtType")
    else .ok alg
  | some (.string alg), _ => .ok alg
  | _, _ => .error badJwt

/-- Whether `now` is after a number. -/
def after (now : ℚ) : Json → Option Bool
  | .number n => some (n < now)
  | .infinite negative => some negative
  | _ => none

/-- The issuer of a payload, after the checks of it. -/
def payloadIss (now : ℚ) (ownDid lxm : Option String) (payload : List (String × Json)) :
    Except Thrown String :=
  match payload.lookup "iss", payload.lookup "aud", (payload.lookup "exp").bind (after now) with
  | some (.string iss), some (.string aud), some expired =>
    if expired then .error (.auth "jwt expired" "JwtExpired")
    else if ownDid.any (aud ≠ ·) then
      .error (.auth "jwt audience does not match service did" "BadJwtAudience")
    else
      match lxm.filter fun lxm => !isString lxm (payload.lookup "lxm") with
      | some lxm => .error (.auth
          (if (payload.lookup "lxm").isSome then
            s!"bad jwt lexicon method (\"lxm\"). must match: {lxm}"
          else s!"missing jwt lexicon method (\"lxm\"). must match: {lxm}") "BadJwtLexiconMethod")
      | none =>
        if iss ≠ "" ∧ isDidStringOrService iss then .ok iss
        else .error (.auth "jwt iss is not a valid did" "BadJwtIss")
  | _, _, _ => .error badJwt
where
  /-- `v === s` -/
  isString (s : String) : Option Json → Bool
    | some (.string t) => t = s
    | _ => false

variable (P : Platform)

/-- Whether a signature verifies; what is thrown counts as no. -/
def verifies (msgBytes sigBytes : Bytes) (alg key : String) : Bool :=
  match P.verifySignature key msgBytes sigBytes alg with
  | .ok valid => valid
  | .error _ => false

/-- The keys of the issuer in turn: `getSigningKey n iss forceRefresh` is the answer of the
    `n`-th call. -/
def verifyKeys (getSigningKey : ℕ → String → Bool → Except String String) (iss : String)
    (verify : String → Bool) : Except Thrown Bool := do
  let signingKey ← (getSigningKey 0 iss false).mapError .error
  if verify signingKey then return true
  else
    let freshKey ← (getSigningKey 1 iss true).mapError .error
    return freshKey ≠ signingKey && verify freshKey

/-- The payload of a token that is valid at `now`, in seconds. -/
def verifyJwt (now : ℚ) (jwtStr : List Char) (ownDid lxm : Option String)
    (getSigningKey : ℕ → String → Bool → Except String String) :
    Except Thrown (List (String × Json)) :=
  match jwtStr.splitOn '.' with
  | [part₀, part₁, part₂] => do
    let header ← b64urlToJson part₀
    let alg ← headerAlg (fieldsOf header)
    let payload ← b64urlToJson part₁
    let iss ← payloadIss now ownDid lxm (fieldsOf payload)
    let msgBytes := textEncode (String.ofList (part₀ ++ '.' :: part₁))
    let sigBytes ← b64urlToBytes part₂
    let valid ← verifyKeys getSigningKey iss (verifies P msgBytes sigBytes alg)
    if valid then return fieldsOf payload
    else .error (.auth "jwt signature does not match jwt issuer" "BadJwtSignature")
  | _ => .error badJwt

/-! ## Requests -/

def isLineEnd (c : Char) : Bool := c ∈ ['\n', '\r', '\u2028', '\u2029']

/-- The token of an `Authorization: Bearer` header: `/^Bearer (.+)$/`. -/
def extractBearer (header : Option String) : Except Thrown (List Char) :=
  let cs := (trim (header.getD "")).toList
  let token := cs.drop "Bearer ".length
  if "Bearer ".toList.isPrefixOf cs ∧ token ≠ [] ∧ !token.any isLineEnd then .ok token
  else .error (.error "missing or malformed Authorization Bearer header")

def serviceDidForHost (hostname : String) : String := "did:web:" ++ hostname

structure ServiceAuthResult where
  issuerDid : String
  audience : String
  serviceId : Option String
  deriving DecidableEq

/-- A DID by itself, and with each of the services. -/
def accept (serviceIds : List String) (acceptable : List (String × Option String)) (did : String) :
    List (String × Option String) :=
  serviceIds.foldl (fun acceptable id => set (did ++ "#" ++ id) (some id) acceptable)
    (set did none acceptable)

/-- The audience of a payload, if it is acceptable, and its issuer. -/
def checkAudience (acceptable : List (String × Option String)) (payload : List (String × Json)) :
    Except Thrown ServiceAuthResult :=
  let expected := " or ".intercalate (keys acceptable)
  match payload.lookup "aud" with
  | some (.string aud) =>
    match acceptable.lookup aud with
    | none => .error (.error s!"unexpected audience {aud}; expected {expected}")
    | some serviceId =>
      match payload.lookup "iss" with
      | some (.string iss) =>
        if iss ≠ "" ∧ "did:".toList.isPrefixOf iss.toList then .ok ⟨authority iss, aud, serviceId⟩
        else .error (.error "service auth token missing DID issuer")
      | _ => .error (.error "service auth token missing DID issuer")
  | _ => .error (.error s!"unexpected audience (none); expected {expected}")

/-- The check of a request, for acceptable audiences. The resolver does not learn whether a key is
    to be fetched again. -/
def verifyFor (now : ℚ) (authHeader : Option String) (lxm : String)
    (acceptable : List (String × Option String))
    (resolveAtprotoKey : ℕ → String → Except String String) : Except Thrown ServiceAuthResult := do
  let token ← extractBearer authHeader
  let payload ← verifyJwt P now token none (some lxm) fun n did _ => resolveAtprotoKey n did
  checkAudience acceptable payload

/-- `verifyMarketServiceAuth` of `auth.ts` -/
def verifyMarketServiceAuth (now : ℚ) (authHeader : Option String) (hostname lxm : String)
    (serviceIds extraAudienceDids : List String)
    (resolveAtprotoKey : ℕ → String → Except String String) : Except Thrown ServiceAuthResult :=
  verifyFor P now authHeader lxm
    ((serviceDidForHost hostname :: extraAudienceDids).foldl (accept serviceIds) [])
    resolveAtprotoKey

/-- `verifyMarketServiceAuth` of `auth.browser.ts` -/
def verifyMarketServiceAuthBrowser (now : ℚ) (authHeader : Option String) (hostname lxm : String)
    (serviceIds : List String) (resolveAtprotoKey : ℕ → String → Except String String) :
    Except Thrown ServiceAuthResult :=
  verifyFor P now authHeader lxm (accept serviceIds [] (serviceDidForHost hostname))
    resolveAtprotoKey

/-! ## Minting -/

/-- The signing key of a repository. -/
structure Signer where
  did : String
  sign : Bytes → Bytes

def b64url (bytes : Bytes) : List Char := Base64.toUrl (btoa bytes)

def b64urlJson (value : Json) : List Char :=
  b64url (textEncode (String.ofList (value.write P.numberText)))

/-- The signed text of a header and a payload. -/
def signedToken (signer : Signer) (header payload : Json) : List Char :=
  let signingInput := b64urlJson P header ++ '.' :: b64urlJson P payload
  signingInput ++ '.' :: b64url (signer.sign (textEncode (String.ofList signingInput)))

structure ServiceAuthOptions where
  aud : String
  lxm : Option String
  expiresInSec : Option ℚ

/-- The payload, of the second `now`, with the random bytes `jti`. -/
def servicePayload (signer : Signer) (now : ℤ) (jti : Bytes) (opts : ServiceAuthOptions) :
    List (String × Json) :=
  [("iss", .string signer.did), ("aud", .string opts.aud), ("iat", Json.toDouble now),
    ("exp", Json.toDouble (now + opts.expiresInSec.getD 60)),
    ("jti", .string (String.ofList (b64url jti)))] ++
    match opts.lxm with
    | some lxm => if lxm = "" then [] else [("lxm", .string lxm)]
    | none => []

def serviceHeader : List (String × Json) := [("typ", .string "JWT"), ("alg", .string "ES256K")]

/-- Mint a service-auth JWT. -/
def signServiceAuth (signer : Signer) (now : ℤ) (jti : Bytes) (opts : ServiceAuthOptions) :
    List Char :=
  signedToken P signer (.object serviceHeader) (.object (servicePayload signer now jti opts))

/-! ## What is checked -/

section
variable {P} {now : ℚ} {ownDid lxm : Option String} {payload acceptable : List (String × Json)}
  {iss : String} {getSigningKey : ℕ → String → Bool → Except String String}

theorem payloadIss_eq_ok (h : payloadIss now ownDid lxm payload = .ok iss) :
    payload.lookup "iss" = some (.string iss) ∧
      ∀ method, lxm = some method → payload.lookup "lxm" = some (.string method) := by
  unfold payloadIss at h
  split at h
  · next iss' aud expired hiss haud hexp =>
    split at h
    · cases h
    · split at h
      · cases h
      · split at h
        · cases h
        · next hlxm =>
          split at h
          · refine ⟨by rw [hiss, Except.ok.inj h], ?_⟩
            rintro method rfl
            have hstring : payloadIss.isString method (payload.lookup "lxm") = true := by
              simpa using Option.filter_eq_none_iff.1 hlxm method rfl
            unfold payloadIss.isString at hstring
            split at hstring
            · next heq => rw [heq, of_decide_eq_true hstring]
            · cases hstring
          · cases h
  · cases h

theorem verifyKeys_eq_true {verify : String → Bool}
    (h : verifyKeys getSigningKey iss verify = .ok true) :
    ∃ n force key, getSigningKey n iss force = .ok key ∧ verify key := by
  obtain ⟨key, hkey, h⟩ := bind_eq_ok.1 h
  split_ifs at h with hvalid
  · exact ⟨0, false, key, mapError_eq_ok.1 hkey, hvalid⟩
  · obtain ⟨key', hkey', h⟩ := bind_eq_ok.1 h
    have hvalid' := Except.ok.inj h
    rw [Bool.and_eq_true] at hvalid'
    exact ⟨1, true, key', mapError_eq_ok.1 hkey', hvalid'.2⟩

/-- A key that was given for the issuer of a token has verified its signature. -/
structure Verified (P : Platform) (jwtStr : List Char) (iss key : String) : Prop where
  exists_parts : ∃ part₀ part₁ part₂ header alg payload sigBytes,
    jwtStr.splitOn '.' = [part₀, part₁, part₂] ∧ b64urlToJson part₀ = .ok header ∧
      headerAlg (fieldsOf header) = .ok alg ∧ b64urlToJson part₁ = .ok payload ∧
      (fieldsOf payload).lookup "iss" = some (.string iss) ∧ b64urlToBytes part₂ = .ok sigBytes ∧
      P.verifySignature key (textEncode (String.ofList (part₀ ++ '.' :: part₁))) sigBytes alg =
        .ok true

theorem verifyJwt_eq_ok {jwtStr : List Char}
    (h : verifyJwt P now jwtStr ownDid lxm getSigningKey = .ok payload) :
    ∃ part₀ part₁ part₂ value iss n force key, jwtStr.splitOn '.' = [part₀, part₁, part₂] ∧
      b64urlToJson part₁ = .ok value ∧ payload = fieldsOf value ∧
      payloadIss now ownDid lxm payload = .ok iss ∧ getSigningKey n iss force = .ok key ∧
      Verified P jwtStr iss key := by
  unfold verifyJwt at h
  split at h
  · next part₀ part₁ part₂ hparts =>
    obtain ⟨header, hheader, h⟩ := bind_eq_ok.1 h
    obtain ⟨alg, halg, h⟩ := bind_eq_ok.1 h
    obtain ⟨value, hvalue, h⟩ := bind_eq_ok.1 h
    obtain ⟨iss, hiss, h⟩ := bind_eq_ok.1 h
    obtain ⟨sigBytes, hsig, h⟩ := bind_eq_ok.1 h
    obtain ⟨valid, hvalid, h⟩ := bind_eq_ok.1 h
    split_ifs at h with htrue
    obtain rfl := Except.ok.inj h
    rw [htrue] at hvalid
    obtain ⟨n, force, key, hkey, hverify⟩ := verifyKeys_eq_true hvalid
    refine ⟨part₀, part₁, part₂, value, iss, n, force, key, hparts, hvalue, rfl, hiss, hkey,
      part₀, part₁, part₂, header, alg, value, sigBytes, hparts, hheader, halg, hvalue,
      (payloadIss_eq_ok hiss).1, hsig, ?_⟩
    unfold verifies at hverify
    split at hverify
    · next hok => rw [hok, hverify]
    · cases hverify
  · cases h

theorem checkAudience_eq_ok {acceptable : List (String × Option String)} {r : ServiceAuthResult}
    (h : checkAudience acceptable payload = .ok r) :
    ∃ iss, payload.lookup "aud" = some (.string r.audience) ∧
      acceptable.lookup r.audience = some r.serviceId ∧
      payload.lookup "iss" = some (.string iss) ∧ r.issuerDid = authority iss := by
  unfold checkAudience at h
  split at h
  · next aud haud =>
    split at h
    · cases h
    · next serviceId hid =>
      split at h
      · next iss hiss =>
        split_ifs at h
        obtain rfl := Except.ok.inj h
        exact ⟨iss, haud, hid, hiss, rfl⟩
      · cases h
  · cases h

end

/-! ## Audiences -/

/-- What a DID adds. -/
def audiences (serviceIds : List String) (did : String) : List (String × Option String) :=
  (did, none) :: serviceIds.map fun id => (did ++ "#" ++ id, some id)

theorem accept_eq (serviceIds : List String) (acceptable : List (String × Option String))
    (did : String) : accept serviceIds acceptable did =
      setAll (audiences serviceIds did) acceptable := by
  rw [accept, audiences, setAll, List.foldl_cons, List.foldl_map]

theorem lookup_accept (serviceIds : List String) (acceptable : List (String × Option String))
    (did aud : String) : (accept serviceIds acceptable did).lookup aud =
      ((audiences serviceIds did).reverse.lookup aud).or (acceptable.lookup aud) := by
  rw [accept_eq, lookup_setAll]

/-- A DID that is accepted again changes nothing. -/
theorem lookup_foldl_accept {serviceIds dids : List String} {did : String}
    (h : ∀ d ∈ dids, d = did) (acceptable : List (String × Option String)) (aud : String) :
    (dids.foldl (accept serviceIds) (accept serviceIds acceptable did)).lookup aud =
      (accept serviceIds acceptable did).lookup aud := by
  induction dids generalizing acceptable with
  | nil => rfl
  | cons d dids ih =>
    obtain rfl := h d List.mem_cons_self
    rw [List.foldl_cons, ih fun d' hd' => h d' (List.mem_cons_of_mem _ hd'), lookup_accept,
      lookup_accept, ← Option.or_assoc, Option.or_self]

/-- The audiences that are accepted. -/
theorem mem_keys_foldl_accept {serviceIds dids : List String}
    {acceptable : List (String × Option String)} {aud : String} :
    aud ∈ keys (dids.foldl (accept serviceIds) acceptable) ↔
      aud ∈ keys acceptable ∨ ∃ d ∈ dids, aud ∈ keys (audiences serviceIds d) := by
  induction dids generalizing acceptable with
  | nil => simp
  | cons d dids ih =>
    have hstep : aud ∈ keys (accept serviceIds acceptable d) ↔
        aud ∈ keys (audiences serviceIds d) ∨ aud ∈ keys acceptable := by
      have hreverse : aud ∈ keys (audiences serviceIds d).reverse ↔
          aud ∈ keys (audiences serviceIds d) := by
        simp [keys]
      rw [← hreverse, ← lookup_isSome_iff, ← lookup_isSome_iff, ← lookup_isSome_iff, lookup_accept,
        Option.isSome_or, Bool.or_eq_true]
    rw [List.foldl_cons, ih, hstep]
    simp only [List.mem_cons, exists_eq_or_imp]
    tauto

theorem mem_keys_audiences {serviceIds : List String} {did aud : String} :
    aud ∈ keys (audiences serviceIds did) ↔ aud = did ∨ ∃ id ∈ serviceIds, aud = did ++ "#" ++ id := by
  simp [audiences, keys, eq_comm]

/-- Another DID is not accepted with all of the services. -/
theorem eq_of_audiences_subset {serviceIds : List String} {did did' : String}
    (h : ∀ aud ∈ keys (audiences serviceIds did'), aud ∈ keys (audiences serviceIds did)) :
    did' = did := by
  by_contra hne
  obtain ⟨id₀, hid₀, rfl⟩ : ∃ id ∈ serviceIds, did' = did ++ "#" ++ id :=
    (mem_keys_audiences.1 (h _ List.mem_cons_self)).resolve_left hne
  -- Every service is the end of a longer one.
  have hlonger : ∀ id ∈ serviceIds, id₀ ++ "#" ++ id ∈ serviceIds := by
    intro id hid
    have haud := h (did ++ "#" ++ id₀ ++ "#" ++ id) (mem_keys_audiences.2 (.inr ⟨id, hid, rfl⟩))
    rcases mem_keys_audiences.1 haud with heq | ⟨id', hid', heq⟩
    · have := congrArg String.length heq
      simp only [String.length_append] at this
      have hlength : "#".length = 1 := rfl
      omega
    · simp only [String.append_assoc, String.append_right_inj] at heq
      rwa [String.append_assoc, heq]
  obtain ⟨id, hid, hmax⟩ := serviceIds.toFinset.exists_max_image String.length
    ⟨id₀, List.mem_toFinset.2 hid₀⟩
  have hle := hmax _ (List.mem_toFinset.2 (hlonger id (List.mem_toFinset.1 hid)))
  have hlength : "#".length = 1 := rfl
  rw [String.length_append, String.length_append] at hle
  omega

/-! ## Tokens that are minted -/

section
variable {P} {signer : Signer} {key : String}

/-- A `did:key`, in base58. -/
def isDidKey (s : String) : Bool :=
  "did:key:z".toList.isPrefixOf s.toList && (s.toList.drop 9).all fun c => c.isAlphanum

/-- A key under which the signatures of a signer verify, whose DID may be an issuer. -/
structure Mints (P : Platform) (signer : Signer) (key : String) : Prop where
  verifies : ∀ message, P.verifySignature key message (signer.sign message) "ES256K" = .ok true
  iss : isDidStringOrService signer.did
  did : "did:".toList.isPrefixOf signer.did.toList

/-- A key under which the signatures of a signer verify, as those of its `did:key` do. -/
structure Publishes (P : Platform) (signer : Signer) (key : String) : Prop where
  verifies : ∀ message, P.verifySignature key message (signer.sign message) "ES256K" = .ok true
  did : isDidKey signer.did

theorem b64urlToBytes_b64url (bytes : Bytes) : b64urlToBytes (b64url bytes) = .ok bytes := by
  rw [b64urlToBytes, b64url, Base64.atob_fromUrl_toUrl]

/-- The characters of base64url. -/
theorem isAlphanum_of_mem_b64url {bytes : Bytes} {c : Char} (h : c ∈ b64url bytes) :
    c.isAlphanum ∨ c = '-' ∨ c = '_' := by
  rw [b64url, Base64.toUrl_btoa] at h
  obtain ⟨c', hc', rfl⟩ := List.mem_map.1 h
  obtain ⟨n, hn, rfl⟩ := List.mem_map.1 hc'
  have hall : ∀ n < 64, (if Base64.char n = '+' then '-' else if Base64.char n = '/' then '_'
      else Base64.char n).isAlphanum ∨ (if Base64.char n = '+' then '-' else
        if Base64.char n = '/' then '_' else Base64.char n) = '-' ∨
      (if Base64.char n = '+' then '-' else if Base64.char n = '/' then '_'
        else Base64.char n) = '_' := by
    decide +kernel
  exact hall n (Base64.toSextets_lt bytes n hn)

theorem b64urlToJson_b64urlJson (hnumbers : Json.ReadsBack P.numberText)
    {fields : List (String × Json)} (hne : fields ≠ []) (h : ∀ e ∈ fields, Json.Scalar e.2)
    (hn : (keys fields).Nodup) (hnames : ∀ name ∈ keys fields, arrayIndex name = none) :
    b64urlToJson (b64urlJson P (.object fields)) = .ok (.object (Json.stringifiedFields fields)) := by
  have hhead : (String.ofList (Json.write P.numberText (.object fields))).toList.head? ≠
      some '\uFEFF' := by
    rw [String.toList_ofList, Json.write]
    exact fun heq => absurd (Option.some.inj heq) (by decide)
  have hdecode := textDecode_textEncode hhead
  simp only [b64urlToJson, b64urlJson, b64urlToBytes_b64url, ok_bind, hdecode,
    Json.parse_write hnumbers hne h hn hnames]

theorem isLastChar_of_isAlphanum {c : Char} (h : c.isAlphanum) : isLastChar c := by
  rw [isLastChar, decide_eq_true_eq]
  rcases ranges_of_isAlphanum h with (h | h) | h
  · exact .inr (.inl h)
  · exact .inl h
  · exact .inr (.inr (.inl h))

theorem toList_of_isDidKey {did : String} (h : isDidKey did) :
    ∃ cs, did.toList = "did:key:z".toList ++ cs ∧ ∀ c ∈ cs, c.isAlphanum := by
  rw [isDidKey, Bool.and_eq_true, List.isPrefixOf_iff_prefix, List.all_eq_true] at h
  obtain ⟨⟨cs, hcs⟩, hall⟩ := h
  refine ⟨cs, hcs.symm, ?_⟩
  rwa [← hcs, List.drop_left' (show "did:key:z".toList.length = 9 from rfl)] at hall

/-- A `did:key` has no fragment. -/
theorem authority_of_isDidKey {did : String} (h : isDidKey did) :
    did.toList.dropWhile (· ≠ '#') = [] ∧ authority did = did := by
  obtain ⟨cs, hcs, hall⟩ := toList_of_isDidKey h
  have hno : ∀ c ∈ did.toList, decide (c ≠ '#') = true := by
    intro c hc
    rw [hcs, List.mem_append] at hc
    refine decide_eq_true fun heq => ?_
    subst heq
    rcases hc with hc | hc
    · exact absurd hc (by decide)
    · exact absurd (hall _ hc) (by decide)
  have hdrop : (did.toList ++ []).dropWhile (· ≠ '#') = [] := List.dropWhile_append_of_pos hno
  have htake : (did.toList ++ []).takeWhile (· ≠ '#') = did.toList ++ [] :=
    List.takeWhile_append_of_pos hno
  rw [List.append_nil] at hdrop htake
  exact ⟨hdrop, by rw [authority, htake, String.ofList_toList]⟩

theorem isDidStringOrService_of_isDidKey {did : String} (h : isDidKey did) :
    isDidStringOrService did := by
  obtain ⟨cs, hcs, hall⟩ := toList_of_isDidKey h
  rw [isDidStringOrService, (authority_of_isDidKey h).1]
  change isDidString did
  have hchars : "did:key:z".toList = ['d', 'i', 'd', ':', 'k', 'e', 'y', ':', 'z'] := rfl
  have hlasts : ∀ c ∈ 'z' :: cs, isLastChar c := by
    intro c hc
    rcases List.mem_cons.1 hc with rfl | hc
    · decide
    · exact isLastChar_of_isAlphanum (hall c hc)
  have hid : ('z' :: cs).all isIdChar = true := by
    refine List.all_eq_true.2 fun c hc => ?_
    rw [isIdChar, hlasts c hc]
    rfl
  have hlast : ('z' :: cs).getLast?.any isLastChar = true := by
    cases hc : ('z' :: cs).getLast? with
    | none => exact absurd (List.getLast?_eq_none_iff.1 hc) (List.cons_ne_nil _ _)
    | some c => exact hlasts c (List.mem_of_getLast? hc)
  rw [isDidString, hcs, hchars]
  simp [isMethodChar, hid, hlast]

theorem Publishes.mints (h : Publishes P signer key) : Mints P signer key where
  verifies := h.verifies
  iss := isDidStringOrService_of_isDidKey h.did
  did := by
    obtain ⟨cs, hcs, -⟩ := toList_of_isDidKey h.did
    rw [hcs, List.isPrefixOf_iff_prefix]
    exact ⟨'k' :: 'e' :: 'y' :: ':' :: 'z' :: cs, rfl⟩

theorem Mints.did_ne_empty (h : Mints P signer key) : signer.did ≠ "" := by
  intro heq
  have hdid := h.did
  rw [heq] at hdid
  exact absurd hdid (by decide)

/-- The fields of a payload that is minted for an audience and a method. -/
structure Minted (signer : Signer) (aud lxm : String) (exp : ℚ) (fields : List (String × Json)) :
    Prop where
  scalar : ∀ e ∈ fields, Json.Scalar e.2
  nodup : (keys fields).Nodup
  names : ∀ name ∈ keys fields, arrayIndex name = none
  iss : fields.lookup "iss" = some (.string signer.did)
  aud : fields.lookup "aud" = some (.string aud)
  exp : fields.lookup "exp" = some (.number exp)
  lxm : fields.lookup "lxm" = some (.string lxm)

section
variable {aud lxm : String} {exp now : ℚ} {fields : List (String × Json)}

theorem Minted.lookup_stringifiedFields (h : Minted signer aud lxm exp fields) :
    (Json.stringifiedFields fields).lookup "iss" = some (.string signer.did) ∧
      (Json.stringifiedFields fields).lookup "aud" = some (.string aud) ∧
      (Json.stringifiedFields fields).lookup "exp" = some (.number exp) ∧
      (Json.stringifiedFields fields).lookup "lxm" = some (.string lxm) := by
  simp only [Json.lookup_stringifiedFields, h.iss, h.aud, h.exp, h.lxm, Option.map_some,
    Json.stringified, and_self]

/-- A dot separates the parts of a token. -/
theorem splitOn_token (bytes bytes' bytes'' : Bytes) :
    (b64url bytes ++ '.' :: b64url bytes' ++ '.' :: b64url bytes'').splitOn '.' =
      [b64url bytes, b64url bytes', b64url bytes''] := by
  have hno : ∀ bytes, '.' ∉ b64url bytes := fun bytes h => by
    rcases isAlphanum_of_mem_b64url h with h | h | h <;> exact absurd h (by decide)
  rw [List.append_assoc, List.cons_append, List.splitOn_append_cons_self_of_not_mem (hno bytes),
    List.splitOn_append_cons_self_of_not_mem (hno bytes'), List.splitOn_eq_singleton (hno bytes'')]

/-- A token that is minted is read back. -/
theorem verifyJwt_signedToken (hnumbers : Json.ReadsBack P.numberText)
    (hkey : Mints P signer key) (h : Minted signer aud lxm exp fields) (hnow : now ≤ exp)
    {getSigningKey : ℕ → String → Bool → Except String String}
    (hget : getSigningKey 0 signer.did false = .ok key) :
    verifyJwt P now (signedToken P signer (.object serviceHeader) (.object fields)) none (some lxm)
      getSigningKey = .ok (Json.stringifiedFields fields) := by
  have hheader := @b64urlToJson_b64urlJson P hnumbers serviceHeader (by decide)
    (by simp [serviceHeader, Json.Scalar]) (by decide) fun name hname => by
      have hdigits : ∀ name ∈ keys serviceHeader, name.toList.any fun c => !c.isDigit := by decide
      exact Json.arrayIndex_eq_none (hdigits name hname)
  have hne : fields ≠ [] := by
    rintro rfl
    cases h.iss
  have hpayload := b64urlToJson_b64urlJson hnumbers hne h.scalar h.nodup h.names
  obtain ⟨hiss, haud, hexp, hlxm⟩ := h.lookup_stringifiedFields
  have hvalid := hkey.verifies (textEncode (String.ofList (b64urlJson P (.object serviceHeader) ++
    '.' :: b64urlJson P (.object fields))))
  have hverify : verifyKeys getSigningKey signer.did (verifies P (textEncode (String.ofList
      (b64urlJson P (.object serviceHeader) ++ '.' :: b64urlJson P (.object fields))))
      (signer.sign (textEncode (String.ofList
        (b64urlJson P (.object serviceHeader) ++ '.' :: b64urlJson P (.object fields))))) "ES256K") =
        .ok true := by
    simp only [verifyKeys, hget, Except.mapError, ok_bind, verifies, hvalid, if_true]
    rfl
  have hpayloadIss : payloadIss now none (some lxm) (Json.stringifiedFields fields) =
      .ok signer.did := by
    have hexpired : after now (.number exp) = some false :=
      congrArg some (decide_eq_false (not_lt.2 hnow))
    have hfilter : (some lxm).filter (fun lxm' => !decide (lxm = lxm')) = none := by simp
    simp [payloadIss, hiss, haud, hexp, hlxm, hexpired, payloadIss.isString, hkey.did_ne_empty,
      hfilter, hkey.iss]
  have hsplit : (signedToken P signer (.object serviceHeader) (.object fields)).splitOn '.' =
      [b64urlJson P (.object serviceHeader), b64urlJson P (.object fields),
        b64url (signer.sign (textEncode (String.ofList (b64urlJson P (.object serviceHeader) ++
          '.' :: b64urlJson P (.object fields)))))] := splitOn_token _ _ _
  have halg : headerAlg (Json.stringifiedFields serviceHeader) = .ok "ES256K" := by
    simp [headerAlg, serviceHeader, Json.stringifiedFields, Json.stringified, lookup_cons]
  simp only [verifyJwt, hsplit, hheader, hpayload, fieldsOf, ok_bind, halg, hpayloadIss,
    b64urlToBytes_b64url, hverify, if_true]
  rfl

theorem plain_of_mem_signedToken {header payload : Json} {c : Char}
    (h : c ∈ signedToken P signer header payload) : isSpace c = false ∧ isLineEnd c = false := by
  have hchar : c.isAlphanum ∨ c = '-' ∨ c = '_' ∨ c = '.' := by
    simp only [signedToken, b64urlJson, List.mem_append, List.mem_cons] at h
    rcases h with (h | rfl | h) | rfl | h
    · exact (isAlphanum_of_mem_b64url h).imp_right (Or.imp_right .inl)
    · exact .inr (.inr (.inr rfl))
    · exact (isAlphanum_of_mem_b64url h).imp_right (Or.imp_right .inl)
    · exact .inr (.inr (.inr rfl))
    · exact (isAlphanum_of_mem_b64url h).imp_right (Or.imp_right .inl)
  rcases hchar with h | rfl | rfl | rfl
  · have hbounds := toNat_of_isAlphanum h
    have hends : ∀ d : Char, d.toNat < 48 ∨ 122 < d.toNat → c ≠ d := by
      rintro d hd rfl
      omega
    refine ⟨isSpace_eq_false hbounds, ?_⟩
    simp only [isLineEnd, decide_eq_false_iff_not, List.mem_cons, List.not_mem_nil, or_false,
      not_or]
    exact ⟨hends _ (by decide), hends _ (by decide), hends _ (by decide), hends _ (by decide)⟩
  · decide
  · decide
  · decide

/-- The token of a request. -/
theorem extractBearer_signedToken {header payload : Json} :
    extractBearer (some ("Bearer " ++ String.ofList (signedToken P signer header payload))) =
      .ok (signedToken P signer header payload) := by
  have hne : signedToken P signer header payload ≠ [] := by
    rw [signedToken]
    simp
  have hlist : ("Bearer " ++ String.ofList (signedToken P signer header payload)).toList =
      "Bearer ".toList ++ signedToken P signer header payload := by
    simp only [String.toList_append, String.toList_ofList]
  have htrim : trim ("Bearer " ++ String.ofList (signedToken P signer header payload)) =
      "Bearer " ++ String.ofList (signedToken P signer header payload) := by
    refine trim_eq ?_ ?_
    · rw [hlist]
      intro c hc
      obtain rfl : 'B' = c := Option.some.inj hc
      decide
    · rw [hlist]
      intro c hc
      rw [List.getLast?_append_of_ne_nil _ hne] at hc
      exact (plain_of_mem_signedToken (List.mem_of_getLast? hc)).1
  rw [extractBearer, Option.getD_some, htrim, hlist,
    List.drop_left' (show "Bearer ".toList.length = "Bearer ".length from rfl)]
  have hline : (signedToken P signer header payload).any isLineEnd = false := by
    refine List.any_eq_false.2 fun c hc => ?_
    rw [(plain_of_mem_signedToken hc).2]
    exact Bool.false_ne_true
  refine if_pos ⟨List.isPrefixOf_iff_prefix.2 (List.prefix_append _ _), hne, ?_⟩
  rw [hline]
  rfl

/-! ## Payloads -/

section
variable {minted : ℤ} {jti : Bytes} {opts : ServiceAuthOptions}

theorem keys_servicePayload : ∃ method, keys (servicePayload signer minted jti opts) =
    ["iss", "aud", "iat", "exp", "jti"] ++ method ∧ (method = [] ∨ method = ["lxm"]) := by
  rcases opts with ⟨aud, _ | lxm, expires⟩
  · exact ⟨[], rfl, .inl rfl⟩
  · by_cases h : lxm = ""
    · exact ⟨[], by rw [servicePayload]; simp [keys, h], .inl rfl⟩
    · exact ⟨["lxm"], by rw [servicePayload]; simp [keys, h], .inr rfl⟩

theorem nodup_servicePayload : (keys (servicePayload signer minted jti opts)).Nodup := by
  obtain ⟨method, hkeys, rfl | rfl⟩ := @keys_servicePayload signer minted jti opts <;>
    rw [hkeys] <;> decide

theorem names_servicePayload :
    ∀ name ∈ keys (servicePayload signer minted jti opts), arrayIndex name = none := by
  have hdigits : ∀ name ∈ ["iss", "aud", "iat", "exp", "jti"] ++ ["lxm"],
      name.toList.any fun c => !c.isDigit := by
    decide
  obtain ⟨method, hkeys, hmethod⟩ := @keys_servicePayload signer minted jti opts
  rw [hkeys]
  refine fun name hname => Json.arrayIndex_eq_none (hdigits name ?_)
  rcases hmethod with rfl | rfl
  · exact List.mem_append_left _ hname
  · exact hname

theorem scalar_servicePayload :
    ∀ e ∈ servicePayload signer minted jti opts, Json.Scalar e.2 := by
  have hfirst : ∀ e ∈ [("iss", Json.string signer.did), ("aud", .string opts.aud),
      ("iat", Json.toDouble minted), ("exp", Json.toDouble (minted + opts.expiresInSec.getD 60)),
      ("jti", .string (String.ofList (b64url jti)))], Json.Scalar e.2 := by
    simp only [List.mem_cons, List.not_mem_nil, or_false]
    rintro e (rfl | rfl | rfl | rfl | rfl)
    exacts [trivial, trivial, Json.scalar_toDouble _, Json.scalar_toDouble _, trivial]
  intro e he
  rcases List.mem_append.1 he with he | he
  · exact hfirst e he
  · split at he
    · split_ifs at he
      · cases he
      · obtain rfl := List.mem_singleton.1 he
        trivial
    · cases he

/-- The payload that is minted with a method. -/
theorem minted_servicePayload (hlxm : opts.lxm = some lxm) (hne : lxm ≠ "")
    (hexp : Json.toDouble (minted + opts.expiresInSec.getD 60) = .number exp) :
    Minted signer opts.aud lxm exp (servicePayload signer minted jti opts) where
  scalar := scalar_servicePayload
  nodup := nodup_servicePayload
  names := names_servicePayload
  iss := rfl
  aud := rfl
  exp := by rw [← hexp]; rfl
  lxm := by
    rw [servicePayload, hlxm]
    simp [hne, lookup_cons]

/-- The empty method is left out. -/
theorem lookup_lxm_servicePayload (hlxm : opts.lxm = some "") :
    (servicePayload signer minted jti opts).lookup "lxm" = none := by
  rw [servicePayload, hlxm]
  rfl

end

end

/-! ## The two checks -/

section
variable {now exp : ℚ} {lxm hostname : String} {serviceIds extras : List String}
  {acceptable acceptable' : List (String × Option String)} {r : ServiceAuthResult}
  {resolve : ℕ → String → Except String String} {authHeader : Option String}

/-- Only the lookups of the audiences decide. -/
theorem toOption_verifyFor (h : ∀ aud, acceptable.lookup aud = acceptable'.lookup aud) :
    (verifyFor P now authHeader lxm acceptable resolve).toOption =
      (verifyFor P now authHeader lxm acceptable' resolve).toOption := by
  have haudience : ∀ payload, (checkAudience acceptable payload).toOption =
      (checkAudience acceptable' payload).toOption := by
    intro payload
    unfold checkAudience
    split
    · rw [h]
      split <;> rfl
    · rfl
  unfold verifyFor
  cases extractBearer authHeader with
  | error _ => rfl
  | ok token =>
    rw [ok_bind, ok_bind]
    cases verifyJwt P now token none (some lxm) fun n did _ => resolve n did with
    | error _ => rfl
    | ok payload => exact haudience payload

/-- The issuer of a request is one whose key verified its signature. -/
theorem verifyFor_eq_ok (h : verifyFor P now authHeader lxm acceptable resolve = .ok r) :
    ∃ jwtStr iss n key, extractBearer authHeader = .ok jwtStr ∧ r.issuerDid = authority iss ∧
      resolve n iss = .ok key ∧ Verified P jwtStr iss key := by
  obtain ⟨jwtStr, hbearer, h⟩ := bind_eq_ok.1 h
  obtain ⟨payload, hpayload, h⟩ := bind_eq_ok.1 h
  obtain ⟨iss, -, -, hiss, hissuer⟩ := checkAudience_eq_ok h
  obtain ⟨_, _, _, _, iss', n, _, key, -, -, -, hiss', hkey, hverified⟩ := verifyJwt_eq_ok hpayload
  obtain rfl : iss = iss' := by
    have := hiss.symm.trans (payloadIss_eq_ok hiss').1
    exact Json.string.inj (Option.some.inj this)
  exact ⟨jwtStr, iss, n, key, hbearer, hissuer, hkey, hverified⟩

variable {minted : ℤ} {jti : Bytes} {opts : ServiceAuthOptions}

/-- A token for an audience that is acceptable. -/
theorem verifyFor_signServiceAuth (hnumbers : Json.ReadsBack P.numberText)
    (hkey : Mints P signer key) (hlxm : opts.lxm = some lxm) (hne : lxm ≠ "")
    (hexp : Json.toDouble (minted + opts.expiresInSec.getD 60) = .number exp) (hnow : now ≤ exp)
    (hresolve : resolve 0 signer.did = .ok key) {serviceId : Option String}
    (haud : acceptable.lookup opts.aud = some serviceId) :
    verifyFor P now (some ("Bearer " ++ String.ofList (signServiceAuth P signer minted jti opts))) lxm
      acceptable resolve = .ok ⟨authority signer.did, opts.aud, serviceId⟩ := by
  have hminted := @minted_servicePayload signer lxm exp minted jti opts hlxm hne hexp
  have hjwt := @verifyJwt_signedToken P signer key opts.aud lxm exp now _ hnumbers hkey hminted hnow
    (fun n did _ => resolve n did) hresolve
  obtain ⟨hissuer, haudience, -, -⟩ := hminted.lookup_stringifiedFields
  have hdid : signer.did ≠ "" ∧ "did:".toList.isPrefixOf signer.did.toList :=
    ⟨hkey.did_ne_empty, hkey.did⟩
  rw [verifyFor, signServiceAuth, extractBearer_signedToken, ok_bind, hjwt, ok_bind]
  simp only [checkAudience, haudience, haud, hissuer, if_pos hdid]

/-- A token without a method is not accepted for one. -/
theorem verifyFor_empty (hnumbers : Json.ReadsBack P.numberText) (hlxm : opts.lxm = some "") :
    verifyFor P now (some ("Bearer " ++ String.ofList (signServiceAuth P signer minted jti opts))) ""
      acceptable resolve ≠ .ok r := by
  intro h
  obtain ⟨jwtStr, hbearer, h⟩ := bind_eq_ok.1 h
  obtain ⟨payload, hpayload, -⟩ := bind_eq_ok.1 h
  rw [signServiceAuth, extractBearer_signedToken] at hbearer
  obtain rfl := Except.ok.inj hbearer
  obtain ⟨_, part₁, _, value, iss, _, _, _, hparts, hvalue, rfl, hiss, -, -⟩ :=
    verifyJwt_eq_ok hpayload
  have hsplit : [b64urlJson P (.object serviceHeader),
      b64urlJson P (.object (servicePayload signer minted jti opts)), _] = [_, part₁, _] :=
    (splitOn_token _ _ _).symm.trans hparts
  obtain rfl := (List.cons.inj (List.cons.inj hsplit).2).1
  rw [b64urlToJson_b64urlJson hnumbers (by simp [servicePayload]) scalar_servicePayload
    nodup_servicePayload names_servicePayload] at hvalue
  obtain rfl := Except.ok.inj hvalue
  have hmethod := (payloadIss_eq_ok hiss).2 "" rfl
  rw [fieldsOf, Json.lookup_stringifiedFields, lookup_lxm_servicePayload hlxm] at hmethod
  cases hmethod

/-- The audiences of an endpoint. -/
theorem mem_keys_acceptable {aud : String} :
    aud ∈ keys ((serviceDidForHost hostname :: extras).foldl (accept serviceIds) []) ↔
      ∃ d ∈ serviceDidForHost hostname :: extras, aud = d ∨ ∃ id ∈ serviceIds, aud = d ++ "#" ++ id := by
  rw [mem_keys_foldl_accept]
  simp only [mem_keys_audiences]
  exact or_iff_right (List.not_mem_nil)

end

end

/-- What the two checks are for: the same answer, an issuer whose key verified the signature, and
    every token of an issuer for the method and an audience of the endpoint. -/
structure ServiceAuthLaw (P : Platform) (hostname lxm : String) (serviceIds extras : List String) :
    Prop where
  same : ∀ now authHeader resolve,
    (verifyMarketServiceAuthBrowser P now authHeader hostname lxm serviceIds resolve).toOption =
      (verifyMarketServiceAuth P now authHeader hostname lxm serviceIds extras resolve).toOption
  sound : ∀ now authHeader resolve r,
    verifyMarketServiceAuth P now authHeader hostname lxm serviceIds extras resolve = .ok r ∨
      verifyMarketServiceAuthBrowser P now authHeader hostname lxm serviceIds resolve = .ok r →
    ∃ jwtStr iss n key, extractBearer authHeader = .ok jwtStr ∧ r.issuerDid = authority iss ∧
      resolve n iss = .ok key ∧ Verified P jwtStr iss key
  accepts : ∀ signer key, Publishes P signer key → ∀ (opts : ServiceAuthOptions) d,
    d ∈ serviceDidForHost hostname :: extras →
    (opts.aud = d ∨ ∃ id ∈ serviceIds, opts.aud = d ++ "#" ++ id) → opts.lxm = some lxm →
    ∀ (minted : ℤ) jti exp now,
      Json.toDouble (minted + opts.expiresInSec.getD 60) = .number exp → now ≤ exp →
    ∀ resolve : ℕ → String → Except String String, resolve 0 signer.did = .ok key →
      let token := signServiceAuth P signer minted jti opts
      let authHeader := some ("Bearer " ++ String.ofList token)
      ∃ serviceId,
        verifyMarketServiceAuth P now authHeader hostname lxm serviceIds extras resolve =
            .ok ⟨signer.did, opts.aud, serviceId⟩ ∧
          verifyMarketServiceAuthBrowser P now authHeader hostname lxm serviceIds resolve =
            .ok ⟨signer.did, opts.aud, serviceId⟩

section
variable {P : Platform} {signer : Signer} {key hostname lxm : String}
  {serviceIds extras : List String}

/-- The end of a token that is minted at `0` and expires at once. -/
theorem toDouble_expiry : Json.toDouble ((0 : ℤ) + (some (0 : ℚ)).getD 60) = .number 0 := by
  rw [Option.getD_some, Int.cast_zero, add_zero]
  rfl

/-- The empty method is never minted. -/
theorem ServiceAuthLaw.lxm_ne_empty (h : ServiceAuthLaw P hostname lxm serviceIds extras)
    (hnumbers : Json.ReadsBack P.numberText) (hsigner : Publishes P signer key) : lxm ≠ "" := by
  rintro rfl
  obtain ⟨_, hok, -⟩ := h.accepts signer key hsigner ⟨serviceDidForHost hostname, some "", some 0⟩
    _ List.mem_cons_self (.inl rfl) rfl 0 [] 0 0 toDouble_expiry le_rfl (fun _ _ => .ok key) rfl
  exact verifyFor_empty hnumbers rfl hok

/-- The copy for the browser knows of no further DID. -/
theorem ServiceAuthLaw.eq_of_mem (h : ServiceAuthLaw P hostname lxm serviceIds extras)
    (hsigner : Publishes P signer key) {d : String} (hd : d ∈ extras) :
    d = serviceDidForHost hostname := by
  refine @eq_of_audiences_subset serviceIds _ _ fun aud haud => ?_
  obtain ⟨_, -, hok⟩ := h.accepts signer key hsigner ⟨aud, some lxm, some 0⟩ d
    (List.mem_cons_of_mem _ hd) (mem_keys_audiences.1 haud) rfl 0 [] 0 0 toDouble_expiry le_rfl
    (fun _ _ => .ok key) rfl
  obtain ⟨_, -, hok⟩ := bind_eq_ok.1 hok
  obtain ⟨_, -, hok⟩ := bind_eq_ok.1 hok
  obtain ⟨_, -, hlookup, -⟩ := checkAudience_eq_ok hok
  have hmem : aud ∈ keys ([serviceDidForHost hostname].foldl (accept serviceIds) []) :=
    lookup_isSome_iff.1 (Option.isSome_of_eq_some hlookup)
  rw [mem_keys_foldl_accept] at hmem
  simpa [keys] using hmem

end

/-! ## A relay -/

def sampleKey : String := "did:key:zQ3shokFTS3brHcDQrnPPKVAo1Q6sXH2D2Q1QSMsbvP8vr3Jx"

/-- A signature scheme with one key, whose signatures are the messages. -/
def samplePlatform : Platform where
  verifySignature key message signature alg :=
    if alg = "ES256K" then .ok (key = sampleKey ∧ signature = message)
    else .error "Expected key alg ES256K"
  numberText := Json.exactText

def sampleSigner : Signer := ⟨sampleKey, id⟩

theorem publishes_sample : Publishes samplePlatform sampleSigner sampleKey where
  verifies message := by
    rw [samplePlatform, sampleSigner]
    simp
  did := by decide

end ComputeContract.Market.ServiceAuth
