import ComputeContract.Attest.Verify

/-!
# Records of the market

AT-URIs, strongRefs, resolved records and the check of a record's signatures. A record comes
from a server that may send anything: its properties are read as JavaScript reads them, and a
property of `undefined` or `null` throws.

* `verifyRecordSignatures`: some inline entry verifies for the repository;
* `Resolver.resolve`: a record by its ref, with the `uri` and `cid` of the response.
-/

namespace ComputeContract.Market

open AssocList Attest

/-! ## Properties -/

/-- `o.name` -/
def get (o : Option Value) (name : String) : Except String (Option Value) :=
  match o with
  | none | some .undefined | some .null => .error "TypeError"
  | some (.object fields) => .ok (field (some fields) name)
  | some _ => .ok none

/-- Whether a value counts as true; `NaN` is none that a server can send. -/
def truthy : Option Value → Bool
  | none | some .undefined | some .null | some (.bool false) | some (.int 0) => false
  | some (.text s) => s ≠ ""
  | _ => true

/-- `a === b`; two objects are not the same. -/
def strictEq : Option Value → Option Value → Bool
  | none, none => true
  | some .null, some .null => true
  | some (.bool a), some (.bool b) => a = b
  | some (.int a), some (.int b) => a = b
  | some (.float (some a)), some (.float (some b)) => a = b
  | some (.text a), some (.text b) => a = b
  | _, _ => false

/-! ## AT-URIs -/

structure AtUriParts where
  repo : String
  collection : Option String
  rkey : Option String

/-- `text.slice(n)`, by code units: half of a character is left as U+FFFD. -/
def sliceUnits : ℕ → List Char → List Char
  | 0, cs => cs
  | _, [] => []
  | n + 1, c :: cs =>
    if c.toNat < 0x10000 then sliceUnits n cs
    else if n = 0 then '\uFFFD' :: cs
    else sliceUnits (n - 1) cs

/-- Split an at:// URI into its repo (authority), collection, and rkey. -/
def parseAtUri (uri : String) : AtUriParts :=
  let parts := ((sliceUnits "at://".length uri.toList).splitOn '/').map String.ofList
  ⟨parts[0]?.getD "", parts[1]?, parts[2]?⟩

/-- Without the first occurrence of a text. -/
def removeFirst (text : List Char) : List Char → List Char
  | [] => []
  | c :: cs =>
    if text.isPrefixOf (c :: cs) then (c :: cs).drop text.length else c :: removeFirst text cs

/-- The authority (repo DID/handle) portion of an at:// URI, without fragment. -/
def atUriAuthority (uri : String) : String :=
  String.ofList ((removeFirst "at://".toList uri.toList).takeWhile (· ≠ '/'))

/-- A reference to a single record. -/
structure RecordRef where
  uri : Option Value
  cid : Option Value

/-- `{ uri: o.uri, cid: o.cid }` -/
def refOf (o : Option Value) : Except String RecordRef := do
  let uri ← get o "uri"
  let cid ← get o "cid"
  return ⟨uri, cid⟩

/-- True when two refs point at the same record version (same uri and cid). -/
def refsEqual (a b : Option Value) : Except String Bool := do
  let a ← refOf a
  let b ← refOf b
  return strictEq a.uri b.uri && strictEq a.cid b.cid

/-- Drop the `_uri`/`_cid` resolution annotations, recovering the bare record value. -/
def stripResolved (resolved : RecordMap) : RecordMap := erase "_cid" (erase "_uri" resolved)

/-! ## Signatures of a record -/

def isInlineEntry : Value → Bool
  | .object o =>
    (match o.lookup "key" with | some (.text _) => true | _ => false) &&
    (match field (some o) "signature" with | none | some .null => false | _ => true) &&
    (field (some o) "uri").isNone
  | _ => false

/-- The inline entries in a record's `signatures` array. -/
def inlineEntries (record : RecordMap) : List RecordMap :=
  (signaturesOf record).filterMap fun
    | .object o => if isInlineEntry (.object o) then some o else none
    | _ => none

/-- `entry.issuer ?? repositoryDid`; no document is found of what is not a string. -/
def issuerOf (entry : RecordMap) (repositoryDid : String) : Option String :=
  match orString (field (some entry) "issuer") (some repositoryDid) with
  | some (.text did) => some did
  | _ => none

theorem eq_of_isText {t : String} {v : Option Value} (h : isText t v) : v = some (.text t) := by
  unfold isText at h
  split at h
  · rw [of_decide_eq_true h]
  · cases h

/-- Whether the key of an entry is published by its issuer. -/
def keyPublished (keysForDid : String → List String) (entry : RecordMap) (repositoryDid : String) :
    Bool :=
  match issuerOf entry repositoryDid with
  | some did => (keysForDid did).any fun key => isText key (entry.lookup "key")
  | none => false

/-- Verify a record carries at least one valid inline network.attested signature by its
    author. Never throws. -/
def verifyRecordSignatures (P : Primitives) (keyResolver : String → Except String KeyData)
    (keysForDid : Option (String → List String)) (record : RecordMap) (repositoryDid : String) :
    Bool :=
  (inlineEntries record).any fun entry =>
    verifyInlineAttestation P keyResolver record entry repositoryDid &&
      match keysForDid with
      | some keysForDid => keyPublished keysForDid entry repositoryDid
      | none => true

/-! ## Resolving -/

structure GetRecord where
  pds : String
  repo : String
  collection : Option String
  rkey : Option String
  cid : Option Value

/-- What a PDS answers. -/
structure GetRecordResponse where
  value : RecordMap
  uri : String
  cid : Option String

/-- The servers: DID documents, by what `getPdsEndpoint` finds in them, and records. An answer
    may depend on the number of records asked for before. -/
structure World where
  didDocument : ℕ → String → Except String (Option (Option String))
  getRecord : ℕ → GetRecord → Except String GetRecordResponse

/-- The state of a resolver. -/
structure ResolverState where
  pdsCache : List (String × String)
  asked : ℕ

namespace Resolver

variable (w : World) (expectVersion : Option String)

def pdsForDid (did : String) (s : ResolverState) : Except String (String × ResolverState) :=
  match (s.pdsCache.lookup did).filter (· ≠ "") with
  | some cached => .ok (cached, s)
  | none => do
    match ← w.didDocument s.asked did with
    | none => .error s!"could not resolve did {did}"
    | some doc =>
      match doc.filter (· ≠ "") with
      | none => .error s!"no pds for {did}"
      | some pds => .ok (pds, ⟨set did pds s.pdsCache, s.asked⟩)

/-- The answer of the PDS of the repo that the ref names. -/
def fetch (ref : RecordRef) (s : ResolverState) :
    Except String (GetRecordResponse × ResolverState) :=
  match ref.uri with
  | some (.text uri) => do
    let parts := parseAtUri uri
    let (pds, s) ← pdsForDid w parts.repo s
    let res ← w.getRecord s.asked ⟨pds, parts.repo, parts.collection, parts.rkey, ref.cid⟩
    return (res, ⟨s.pdsCache, s.asked + 1⟩)
  | _ => .error "TypeError"

/-- The guard against records of another schema version. -/
def checkVersion (value : RecordMap) (uri : String) : Except String Unit :=
  match expectVersion with
  | none => .ok ()
  | some expected =>
    match orString (field (some value) "version") (some "0.0.0") with
    | some (.text version) =>
      if version = expected then .ok ()
      else .error s!"unexpected record version {version} for {uri}; expected {expected}"
    | _ => .error s!"unexpected record version for {uri}; expected {expected}"

/-- `{ ...value, _uri: res.data.uri, _cid: res.data.cid ?? ref.cid }` -/
def annotate (ref : RecordRef) (res : GetRecordResponse) : RecordMap :=
  set "_cid" (((res.cid.map Value.text).or ref.cid).getD .undefined)
    (set "_uri" (.text res.uri) res.value)

/-- `createRecordResolver(idResolver, opts).resolve(ref)` -/
def resolve (ref : RecordRef) (s : ResolverState) : Except String (RecordMap × ResolverState) := do
  let (res, s) ← fetch w ref s
  checkVersion expectVersion res.value (match ref.uri with | some (.text uri) => uri | _ => "")
  return (annotate ref res, s)

/-- The annotations are those of the response, the rest is its value. -/
theorem stripResolved_annotate (ref : RecordRef) (res : GetRecordResponse) :
    stripResolved (annotate ref res) = stripResolved res.value := by
  unfold stripResolved annotate
  rw [erase_set_of_ne (by decide), erase_set_self, erase_set_self]

theorem lookup_uri_annotate (ref : RecordRef) (res : GetRecordResponse) :
    (annotate ref res).lookup "_uri" = some (.text res.uri) := by
  rw [annotate, lookup_set, if_neg (by decide), lookup_set, if_pos rfl]

theorem lookup_cid_annotate (ref : RecordRef) (res : GetRecordResponse) :
    (annotate ref res).lookup "_cid" =
      some (((res.cid.map Value.text).or ref.cid).getD .undefined) := by
  rw [annotate, lookup_set, if_pos rfl]

/-! ## Servers that answer in order -/

/-- The answers come one after the other, whatever is asked for. -/
def serve (answer : ℕ → GetRecordResponse) : World where
  didDocument _ _ := .ok (some (some "https://pds.example"))
  getRecord n _ := .ok (answer n)

theorem fetch_serve (answer : ℕ → GetRecordResponse) {ref : RecordRef} {uri : String}
    (huri : ref.uri = some (.text uri)) (s : ResolverState) :
    ∃ s', s'.asked = s.asked + 1 ∧ fetch (serve answer) ref s = .ok (answer s.asked, s') := by
  have hpds : ∃ pds s', s'.asked = s.asked ∧
      pdsForDid (serve answer) (parseAtUri uri).repo s = .ok (pds, s') := by
    unfold pdsForDid
    split
    · exact ⟨_, _, rfl, rfl⟩
    · exact ⟨"https://pds.example", ⟨set _ "https://pds.example" s.pdsCache, s.asked⟩, rfl, rfl⟩
  obtain ⟨pds, s₁, hasked, hpds⟩ := hpds
  refine ⟨⟨s₁.pdsCache, s.asked + 1⟩, rfl, ?_⟩
  unfold fetch
  rw [huri, ← hasked]
  exact bind_eq_ok.2 ⟨_, hpds, rfl⟩

theorem resolve_serve (answer : ℕ → GetRecordResponse) {ref : RecordRef} {uri : String}
    (huri : ref.uri = some (.text uri)) (s : ResolverState) :
    ∃ s', s'.asked = s.asked + 1 ∧
      resolve (serve answer) none ref s = .ok (annotate ref (answer s.asked), s') := by
  obtain ⟨s', hasked, hfetch⟩ := fetch_serve answer huri s
  exact ⟨s', hasked, bind_eq_ok.2 ⟨_, hfetch, rfl⟩⟩

end Resolver

/-! ## A signed record -/

/-- An inline entry of a key of the table. -/
def sampleEntry (k : SampleKey) : RecordMap :=
  [("$type", .text DEFAULT_SIGNATURE_TYPE), ("key", .text ("did:key:" ++ k.multibase)),
    ("signature", .bytes k.sig)]

theorem parseDidKey_sample {k : SampleKey} (hk : k ∈ sampleKeys) :
    parseDidKey samplePrimitives ("did:key:" ++ k.multibase) = .ok ⟨.k256, k.pub⟩ := by
  refine parseDidKey_formatDidKey samplePrimitives_lawful ?_
  simp only [sampleKeys, List.mem_cons, List.not_mem_nil, or_false] at hk
  rcases hk with rfl | rfl | rfl | rfl <;> rfl

/-- A record with an entry of a key of the table is signed, in whatever form its signature is. -/
theorem signed_of_entry {k : SampleKey} (hk : k ∈ sampleKeys) {record prepared entry : RecordMap}
    {repositoryDid : String} (hsignatures : signaturesOf record = [.object entry])
    (hinline : isInlineEntry (.object entry))
    (hkey : entry.lookup "key" = some (.text ("did:key:" ++ k.multibase)))
    (hsignature : marketNormalizeSignature (entry.lookup "signature") = .ok (some k.sig))
    (hdeclared : entry.lookup "cid" = none)
    (hpre : preimage record entry repositoryDid none = .ok prepared)
    (hplain : Cbor.plain (.object prepared)) :
    verifyRecordSignatures samplePrimitives (parseDidKey samplePrimitives) none record
      repositoryDid := by
  obtain ⟨bytes, hbytes, -⟩ := Cbor.decode_encode hplain
  have hencode : samplePrimitives.encode (.object prepared) = .ok bytes :=
    (if_pos hplain).trans hbytes
  have hcid : createAttestationCid samplePrimitives.encode record entry repositoryDid none
      = .ok (cidForBytes bytes) :=
    bind_eq_ok.2 ⟨prepared, hpre, bind_eq_ok.2 ⟨bytes, hencode, rfl⟩⟩
  have hverify : verifyBytes samplePrimitives (cidForBytes bytes).bytes k.sig ⟨.k256, k.pub⟩ := by
    refine decide_eq_true (congrArg Except.ok (List.any_eq_true.2 ⟨k, hk, ?_⟩))
    simp
  have hverifies : verifyInlineAttestation samplePrimitives (parseDidKey samplePrimitives) record
      entry repositoryDid := by
    have htry : tryVerifyInline samplePrimitives (parseDidKey samplePrimitives) record
        entry repositoryDid = .ok true := by
      refine bind_eq_ok.2 ⟨some k.sig, hsignature, ?_⟩
      rw [hkey]
      refine bind_eq_ok.2 ⟨_, hcid, ?_⟩
      rw [declaredMismatch, hdeclared]
      exact bind_eq_ok.2 ⟨_, parseDidKey_sample hk, congrArg Except.ok hverify⟩
    rw [verifyInlineAttestation, htry]
  have hentries : inlineEntries record = [entry] := by
    rw [inlineEntries, hsignatures]
    exact List.filterMap_cons_some (if_pos hinline)
  rw [verifyRecordSignatures, hentries, List.any_cons, hverifies]
  rfl

/-- So is a record with such an entry. -/
theorem sample_signed {k : SampleKey} (hk : k ∈ sampleKeys) {record prepared : RecordMap}
    {repositoryDid : String} (hsignatures : signaturesOf record = [.object (sampleEntry k)])
    (hpre : preimage record (sampleEntry k) repositoryDid none = .ok prepared)
    (hplain : Cbor.plain (.object prepared)) :
    verifyRecordSignatures samplePrimitives (parseDidKey samplePrimitives) none record
      repositoryDid :=
  signed_of_entry hk hsignatures rfl rfl rfl rfl hpre hplain

end ComputeContract.Market
