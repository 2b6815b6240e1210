import ComputeContract.Attest.Binding
import ComputeContract.Attest.WebCrypto
import ComputeContract.Cbor.OfJson
import ComputeContract.Cbor.Tree
import ComputeContract.Util.Base32

/-!
# Inline attestations of the port

`createInlineAttestation` signs the CID of a record, of the metadata and of the repository, and
appends the signature to the record. `verifyRecord` computes the CID of the record with the
signatures on it, and of the entry in the place of the metadata.

* `createInlineAttestation_eq_ok`: what is appended;
* `verifyEntry_eq_nil`: an entry that verifies is over the record that it stands in;
* `never_roundTrips`: no record that is made verifies.
-/

namespace ComputeContract.Attest.Port

open AssocList Cbor

/-- An object, by its fields. -/
abbrev JsonObject := List (String × Json)

/-! ## Inputs -/

inductive AnyInput
  | string (json : String)
  | serialize (value : Json)

section
variable (P : Platform)

def parseString (raw : String) : Except Thrown JsonObject :=
  match Json.parse raw with
  | some (.object o) => .ok o
  | some _ => .error ⟨false, "Value is not a JSON object"⟩
  | none => .error ⟨false, "Failed to parse input: " ++ P.syntaxError raw⟩

/-- The object of an input; one that is none is still none when it is read from its text. -/
def AnyInput.unwrap : AnyInput → Except Thrown JsonObject
  | .string json => parseString P json
  | .serialize (.object o) => .ok o
  | .serialize _ => .error ⟨false, "Value is not a JSON object"⟩

/-! ## CIDs -/

def encodeToCid (value : Value) : Except Thrown Cid := do
  let encoded ← (P.encode value).mapError fun err =>
    dagCborError ("DAG-CBOR encode failed: " ++ err)
  return cidForBytes encoded

/-- The CID of a record, metadata and a repository. -/
def createAttestationCid (record metadata : JsonObject) (repository : String) :
    Except Thrown String := do
  let recordCid ← encodeToCid P (.object (Json.toFields record))
  let attestationCid ← encodeToCid P
    (.array [.link recordCid, .object (Json.toFields metadata), .text repository])
  return attestationCid.toString

structure CidResult where
  cid : String
  /-- What is signed. -/
  bytes : Bytes

def computeAttestationCid (record metadata : JsonObject) (repository : String) :
    Except Thrown CidResult := do
  let result ← createAttestationCid P record metadata repository
  return ⟨result, textEncode result⟩

/-! ## Signing -/

def buildSigMetadata (type key cid signatureB64 : String) : JsonObject :=
  [("$type", .string type), ("key", .string key), ("sig", .string signatureB64),
    ("cid", .string cid)]

/-- `$type`, when it is a string that is not empty. -/
def typeField (metadata : JsonObject) : Option String :=
  match metadata.lookup "$type" with
  | some (.string type) => if type = "" then none else some type
  | _ => none

/-- `(o.signatures ?? []).push(entry)` -/
def pushSignature (o : JsonObject) (entry : Json) : Except Thrown JsonObject :=
  match o.lookup "signatures" with
  | none | some .null => .ok (set "signatures" (.array [entry]) o)
  | some (.array signatures) => .ok (set "signatures" (.array (signatures ++ [entry])) o)
  | some _ => .error ⟨false, "signatures.push is not a function"⟩

/-- The body of `createInlineAttestation`. -/
def tryCreateInlineAttestation (recordInput metadataInput : AnyInput) (repository : String)
    (privateKeyData : KeyData) : Except Thrown JsonObject := do
  let record ← recordInput.unwrap P
  let metadata ← metadataInput.unwrap P
  match typeField metadata with
  | none => .error (metadataMissingFieldError
      "Attestation metadata must contain a non-empty '$type' field")
  | some type =>
    let result ← computeAttestationCid P record metadata repository
    let keyDid ← didForKey privateKeyData
    let rawSig ← signBytes P result.bytes privateKeyData
    let sigEntry := buildSigMetadata type keyDid result.cid (base64urlEncode rawSig)
    pushSignature (Json.stringifiedFields record) (.object sigEntry)

def createInlineAttestation (recordInput metadataInput : AnyInput) (repository : String)
    (privateKeyData : KeyData) : Except Thrown JsonObject :=
  (tryCreateInlineAttestation P recordInput metadataInput repository privateKeyData).mapError
    fun err => if err.attestation then err
      else ⟨true, "createInlineAttestation failed: " ++ err.message⟩

/-! ## Verifying -/

/-- Whether a value counts as true. -/
def truthy : Option Json → Bool
  | none | some .null | some (.bool false) => false
  | some (.number n) => n ≠ 0
  | some (.string s) => s ≠ ""
  | _ => true

structure Resolvers where
  /-- `keyResolver.resolveKey`, of whatever stands under `key`. -/
  resolveKey : Json → Except String KeyData
  /-- `recordResolver.resolve` -/
  resolve : String → Except String Json

variable (R : Resolvers)

/-- The errors of one inline entry, whose `sig` is this string. -/
def verifyInlineSignature (record sigEntry : JsonObject) (sigB64 repository : String) (idx : ℕ) :
    List String :=
  match sigEntry.lookup "key", sigEntry.lookup "cid" with
  | some keyDid, some sigCid =>
    let sigType := match sigEntry.lookup "$type" with
      | none | some .null => .string "unknown"
      | some type => type
    if !truthy (some keyDid) then [s!"Signature[{idx}]: missing 'key' field"]
    else if !truthy (some sigCid) then [s!"Signature[{idx}]: missing 'cid' field"]
    else
      match computeAttestationCid P record
        [("$type", sigType), ("key", keyDid), ("sig", .string sigB64), ("cid", sigCid)]
        repository with
      | .error err => [s!"Signature[{idx}]: CID computation failed: " ++ err.message]
      | .ok cidResult =>
        if isString cidResult.cid sigCid then
          match R.resolveKey keyDid with
          | .error err => [s!"Signature[{idx}]: key resolution failed for \"" ++
              P.text (some keyDid) ++ "\": " ++ err]
          | .ok keyData =>
            match base64urlDecode sigB64 with
            | none => [s!"Signature[{idx}]: failed to base64url-decode 'sig'"]
            | some rawSig =>
              if rawSig.length ≠ 64 then
                [s!"Signature[{idx}]: expected 64-byte signature, got {rawSig.length}"]
              else
                match normalizeSignature rawSig keyData.keyType with
                | .error err => [s!"Signature[{idx}]: unexpected error: " ++ err.message]
                | .ok normalisedSig =>
                  match verifySignature P cidResult.bytes normalisedSig keyData with
                  | .error err => [s!"Signature[{idx}]: verification threw: " ++ err.message]
                  | .ok true => []
                  | .ok false => [s!"Signature[{idx}]: invalid signature"]
        else [s!"Signature[{idx}]: CID mismatch — expected \"" ++ P.text (some sigCid) ++
          "\", recomputed \"" ++ cidResult.cid ++ "\""]
  | none, _ => [s!"Signature[{idx}]: missing 'key' field"]
  | _, none => [s!"Signature[{idx}]: missing 'cid' field"]
where
  /-- `v === s` -/
  isString (s : String) : Json → Bool
    | .string t => t = s
    | _ => false

/-- `a === b`, of what was read from JSON. -/
def identical : Option Json → Json → Bool
  | some (.string a), .string b => a = b
  | some (.number a), .number b => a = b
  | some (.infinite a), .infinite b => a = b
  | some (.bool a), .bool b => a = b
  | _, _ => false

/-- The fields of an object; an array has none of the names that are asked for. -/
def fieldsOf : Json → Option JsonObject
  | .object o => some o
  | .array _ => some []
  | _ => none

/-- `typeof v` -/
def typeName : Json → String
  | .null | .array _ | .object _ => "object"
  | .bool _ => "boolean"
  | .number _ | .infinite _ => "number"
  | .string _ => "string"

/-- The errors of one remote entry, whose `proof` has these fields. -/
def verifyRemoteSignature (proof : JsonObject) (idx : ℕ) : List String :=
  match proof.lookup "uri" with
  | some (.string proofUri) =>
    match R.resolve proofUri with
    | .error err => [s!"Signature[{idx}]: failed to resolve proof at \"{proofUri}\": " ++ err]
    | .ok proofRecord =>
      match fieldsOf proofRecord with
      | none => [s!"Signature[{idx}]: proof record at \"{proofUri}\" is not a JSON object"]
      | some proofRecord =>
        match proof.lookup "cid" with
        | none => []
        | some expectedCid =>
          if truthy (some expectedCid) && !identical (proofRecord.lookup "cid") expectedCid then
            [s!"Signature[{idx}]: proof record CID mismatch — expected \"" ++
              P.text (some expectedCid) ++ "\", got \"" ++
              P.text (proofRecord.lookup "cid") ++ "\""]
          else []
  | _ => [s!"Signature[{idx}]: 'proof' must be an object with a 'uri' field"]

/-- The errors of one entry. -/
def verifyEntry (record : JsonObject) (repository : String) (sig : Json) (idx : ℕ) : List String :=
  match fieldsOf sig with
  | none => [s!"Signature[{idx}]: expected an object, got {typeName sig}"]
  | some sigEntry =>
    let inlineSig := match sigEntry.lookup "sig" with
      | some (.string sig) => if sig = "" then none else some sig
      | _ => none
    match inlineSig, (sigEntry.lookup "proof").bind fieldsOf with
    | some _, some _ => [s!"Signature[{idx}]: has both 'sig' and 'proof' — ambiguous"]
    | none, none =>
      [s!"Signature[{idx}]: must contain either 'sig' (inline) or 'proof' (remote)"]
    | some sig, none => verifyInlineSignature P R record sigEntry sig repository idx
    | none, some proof => verifyRemoteSignature P R proof idx

/-- The errors of the entries of a record. -/
def signatureErrors (record : JsonObject) (repository : String) : List String :=
  match record.lookup "signatures" with
  | some (.array signatures) =>
    signatures.zipIdx.flatMap fun e => verifyEntry P R record repository e.1 e.2
  | _ => []

def verifyRecord (verifyInput : AnyInput) (repository : String) : Except Thrown Unit := do
  let record ← verifyInput.unwrap P
  let errors := signatureErrors P R record repository
  if errors.isEmpty then return ()
  else .error (invalidSignatureError
    (s!"Record has {errors.length} invalid attestation(s):\n" ++ "\n".intercalate errors))

end

/-! ## What is appended -/

variable {P : Platform} {R : Resolvers} {recordInput metadataInput : AnyInput} {repository : String}
  {key : KeyData} {record metadata signed : JsonObject}

theorem createInlineAttestation_eq_ok
    (h : createInlineAttestation P recordInput metadataInput repository key = .ok signed) :
    ∃ record metadata type keyDid cid sig, recordInput.unwrap P = .ok record ∧
      metadataInput.unwrap P = .ok metadata ∧ typeField metadata = some type ∧
      createAttestationCid P record metadata repository = .ok cid ∧
      pushSignature (Json.stringifiedFields record)
        (.object (buildSigMetadata type keyDid cid sig)) = .ok signed := by
  obtain ⟨record, hrecord, h⟩ := bind_eq_ok.1 (mapError_eq_ok.1 h)
  obtain ⟨metadata, hmetadata, h⟩ := bind_eq_ok.1 h
  cases htype : typeField metadata with
  | none =>
    rw [htype] at h
    cases h
  | some type =>
    rw [htype] at h
    obtain ⟨result, hresult, h⟩ := bind_eq_ok.1 h
    obtain ⟨cid, hcid, heq⟩ := bind_eq_ok.1 hresult
    obtain rfl := Except.ok.inj heq
    obtain ⟨keyDid, -, h⟩ := bind_eq_ok.1 h
    obtain ⟨rawSig, -, h⟩ := bind_eq_ok.1 h
    exact ⟨record, metadata, type, keyDid, cid, _, hrecord, hmetadata, htype, hcid, h⟩

/-- How many signatures there are. -/
def count : Option Json → ℕ
  | some (.array signatures) => signatures.length
  | _ => 0

theorem length_stringifiedItems (items : List Json) :
    (Json.stringifiedItems items).length = items.length := by
  induction items with
  | nil => rfl
  | cons v vs ih => rw [Json.stringifiedItems, List.length_cons, ih, List.length_cons]

theorem count_stringified (v : Option Json) : count (v.map Json.stringified) = count v := by
  cases v with
  | none => rfl
  | some v =>
    cases v with
    | array items => exact length_stringifiedItems items
    | _ => rfl

/-- One signature more, at the end. -/
theorem pushSignature_eq_ok {o : JsonObject} {entry : Json}
    (h : pushSignature o entry = .ok signed) :
    ∃ signatures, signed = set "signatures" (.array (signatures ++ [entry])) o ∧
      signatures.length = count (o.lookup "signatures") := by
  unfold pushSignature at h
  split at h
  · next hnone => exact ⟨[], (Except.ok.inj h).symm, by rw [hnone]; rfl⟩
  · next hnull => exact ⟨[], (Except.ok.inj h).symm, by rw [hnull]; rfl⟩
  · next signatures hsome => exact ⟨signatures, (Except.ok.inj h).symm, by rw [hsome]; rfl⟩
  · cases h

/-! ## What is bound -/

/-- The blocks that are hashed for a CID. -/
def hashedBlocks (P : Platform) (record metadata : JsonObject) (repository : String) : List Bytes :=
  match P.encode (.object (Json.toFields record)) with
  | .error _ => []
  | .ok block =>
    match P.encode (.array [.link (cidForBytes block), .object (Json.toFields metadata),
      .text repository]) with
    | .error _ => [block]
    | .ok block' => [block, block']

theorem createAttestationCid_eq_ok {cid : String}
    (h : createAttestationCid P record metadata repository = .ok cid) :
    ∃ block block', P.encode (.object (Json.toFields record)) = .ok block ∧
      P.encode (.array [.link (cidForBytes block), .object (Json.toFields metadata),
        .text repository]) = .ok block' ∧
      cid = (cidForBytes block').toString ∧
      hashedBlocks P record metadata repository = [block, block'] := by
  obtain ⟨recordCid, hrecord, h⟩ := bind_eq_ok.1 h
  obtain ⟨attestationCid, hattestation, h⟩ := bind_eq_ok.1 h
  obtain ⟨block, hblock, hcid⟩ := bind_eq_ok.1 hrecord
  obtain ⟨block', hblock', hcid'⟩ := bind_eq_ok.1 hattestation
  obtain rfl := Except.ok.inj hcid
  obtain rfl := Except.ok.inj hcid'
  have hencode := mapError_eq_ok.1 hblock
  have hencode' := mapError_eq_ok.1 hblock'
  refine ⟨block, block', hencode, hencode', (Except.ok.inj h).symm, ?_⟩
  simp only [hashedBlocks, hencode, hencode']

/-- Without a collision, a CID binds the record, the metadata and the repository. -/
theorem bound_of_cid_eq (hencode : EncodesInjectively P.encode) {record' metadata' : JsonObject}
    {repository' cid : String} (h : createAttestationCid P record metadata repository = .ok cid)
    (h' : createAttestationCid P record' metadata' repository' = .ok cid)
    (hfree : NoCollision 32 (hashedBlocks P record metadata repository ++
      hashedBlocks P record' metadata' repository')) :
    canon (.object (Json.toFields record)) = canon (.object (Json.toFields record')) ∧
      canon (.object (Json.toFields metadata)) = canon (.object (Json.toFields metadata')) ∧
      repository = repository' := by
  obtain ⟨block, outer, hblock, houter, rfl, hhashed⟩ := createAttestationCid_eq_ok h
  obtain ⟨block', outer', hblock', houter', hcid, hhashed'⟩ := createAttestationCid_eq_ok h'
  rw [hhashed, hhashed'] at hfree
  have hdigest : sha256 outer = sha256 outer' := toString_cidFromDigest_inj.1 hcid
  obtain rfl := (hfree.sha256_inj (by simp) (by simp)).1 hdigest
  have hcanon := hencode _ _ _ houter houter'
  simp only [canon, canonItems, Value.array.injEq, List.cons.injEq, Value.link.injEq,
    Value.text.injEq, and_true] at hcanon
  obtain ⟨hlink, hmetadata, hrepository⟩ := hcanon
  have hdigest' : sha256 block = sha256 block' := cidForBytes_inj hlink
  obtain rfl := (hfree.sha256_inj (by simp) (by simp)).1 hdigest'
  exact ⟨hencode _ _ _ hblock hblock', hmetadata, hrepository⟩

/-- How many items an array has. -/
def items : Option Value → ℕ
  | some (.array xs) => xs.length
  | _ => 0

theorem items_canon (v : Option Value) : items (v.map canon) = items v := by
  cases v with
  | none => rfl
  | some v =>
    cases v with
    | array xs =>
      rw [Option.map_some, canon, items, items, canonItems_eq, List.length_map]
    | _ => rfl

theorem items_toValue (v : Option Json) : items (v.map Json.toValue) = count v := by
  cases v with
  | none => rfl
  | some v =>
    cases v with
    | array xs => exact Json.length_toValues xs
    | number n =>
      rw [Option.map_some, Json.toValue]
      split_ifs <;> rfl
    | _ => rfl

/-- Objects that are encoded alike have as many signatures. -/
theorem count_eq_of_canon_eq {o o' : JsonObject} (hn : (keys o).Nodup) (hn' : (keys o').Nodup)
    (h : canon (.object (Json.toFields o)) = canon (.object (Json.toFields o'))) :
    count (o.lookup "signatures") = count (o'.lookup "signatures") := by
  have hlookup := lookup_of_canon_eq (by rwa [Json.keys_toFields]) (by rwa [Json.keys_toFields]) h
    "signatures"
  rw [Json.lookup_toFields, Json.lookup_toFields] at hlookup
  rw [← items_toValue, ← items_toValue, ← items_canon, hlookup, items_canon]

/-! ## What verifies -/

theorem createAttestationCid_of_inline {type keyDid cid sig : String} {idx : ℕ}
    (h : verifyInlineSignature P R record (buildSigMetadata type keyDid cid sig) sig repository
      idx = []) :
    createAttestationCid P record (buildSigMetadata type keyDid cid sig) repository = .ok cid := by
  have hkey : (buildSigMetadata type keyDid cid sig).lookup "key" = some (.string keyDid) := rfl
  have hcid : (buildSigMetadata type keyDid cid sig).lookup "cid" = some (.string cid) := rfl
  have htype : (buildSigMetadata type keyDid cid sig).lookup "$type" = some (.string type) := rfl
  simp only [verifyInlineSignature, hkey, hcid, htype] at h
  split_ifs at h with hmissing hmissing'
  split at h
  · cases h
  · next cidResult hresult =>
    obtain ⟨cid', hcid', heq⟩ := bind_eq_ok.1 hresult
    obtain rfl := Except.ok.inj heq
    split_ifs at h with hsame
    obtain rfl := of_decide_eq_true hsame
    exact hcid'

/-- An entry without errors is over the record that it stands in. -/
theorem verifyEntry_eq_nil {type keyDid cid sig : String} {idx : ℕ}
    (h : verifyEntry P R record repository (.object (buildSigMetadata type keyDid cid sig)) idx =
      []) :
    createAttestationCid P record (buildSigMetadata type keyDid cid sig) repository = .ok cid := by
  have hsig : (buildSigMetadata type keyDid cid sig).lookup "sig" = some (.string sig) := rfl
  have hproof : (buildSigMetadata type keyDid cid sig).lookup "proof" = none := rfl
  simp only [verifyEntry, fieldsOf, hsig, hproof, Option.bind_none] at h
  split_ifs at h with hempty
  exact createAttestationCid_of_inline h

theorem verifyRecord_eq_ok {signatures : List Json}
    (hsignatures : record.lookup "signatures" = some (.array signatures))
    (h : verifyRecord P R (.serialize (.object record)) repository = .ok ()) :
    ∀ sig ∈ signatures, ∃ idx, verifyEntry P R record repository sig idx = [] := by
  intro sig hsig
  obtain ⟨idx, hidx⟩ := List.mem_iff_getElem?.1 hsig
  have herrors : signatureErrors P R record repository = [] := by
    by_contra hne
    rw [← List.isEmpty_iff, Bool.not_eq_true] at hne
    simp only [verifyRecord, AnyInput.unwrap, bind, Except.bind, hne] at h
    cases h
  rw [signatureErrors, hsignatures, List.flatMap_eq_nil_iff] at herrors
  exact ⟨idx, herrors (sig, idx) (List.mem_zipIdx_iff_getElem?.2 hidx)⟩

/-- A record that is signed by itself is not the one that was signed: with its signatures, and
    whatever else is changed, it does not verify. -/
theorem verifyRecord_ne_ok (hencode : EncodesInjectively P.encode)
    (hrecord : recordInput.unwrap P = .ok record)
    (hmetadata : metadataInput.unwrap P = .ok metadata) (hnodup : (keys record).Nodup)
    (hsigned : createInlineAttestation P recordInput metadataInput repository key = .ok signed)
    {changed : JsonObject} (hnodup' : (keys changed).Nodup) {repository' : String}
    (hsignatures : changed.lookup "signatures" = signed.lookup "signatures")
    (hfree : ∀ signatures entry, signed.lookup "signatures" = some (.array signatures) →
      .object entry ∈ signatures → NoCollision 32 (hashedBlocks P record metadata repository ++
        hashedBlocks P changed entry repository')) :
    verifyRecord P R (.serialize (.object changed)) repository' ≠ .ok () := by
  intro hverify
  obtain ⟨record₁, metadata₁, type, keyDid, cid, sig, hrecord₁, hmetadata₁, -, hcid, hpush⟩ :=
    createInlineAttestation_eq_ok hsigned
  obtain rfl := Except.ok.inj (hrecord.symm.trans hrecord₁)
  obtain rfl := Except.ok.inj (hmetadata.symm.trans hmetadata₁)
  obtain ⟨signatures, rfl, hlength⟩ := pushSignature_eq_ok hpush
  have hlookup : (set "signatures" (.array (signatures ++ [.object
      (buildSigMetadata type keyDid cid sig)])) (Json.stringifiedFields record)).lookup "signatures" =
        some (.array (signatures ++ [.object (buildSigMetadata type keyDid cid sig)])) := by
    rw [lookup_set, if_pos rfl]
  have hlast : .object (buildSigMetadata type keyDid cid sig) ∈
      signatures ++ [.object (buildSigMetadata type keyDid cid sig)] :=
    List.mem_append_right _ List.mem_cons_self
  obtain ⟨idx, hentry⟩ := verifyRecord_eq_ok (hsignatures.trans hlookup) hverify _ hlast
  obtain ⟨hcanon, -, -⟩ := bound_of_cid_eq hencode hcid (verifyEntry_eq_nil hentry)
    (hfree _ _ hlookup hlast)
  have hcount := count_eq_of_canon_eq hnodup hnodup' hcanon
  rw [hsignatures.trans hlookup, ← count_stringified, ← Json.lookup_stringifiedFields, ← hlength, count,
    List.length_append, List.length_singleton] at hcount
  omega

/-- The signatures of the platform, and the keys that the resolver knows. -/
structure Genuine (P : Platform) (R : Resolvers) (key : KeyData) : Prop where
  injective : EncodesInjectively P.encode
  verifies : ∀ jwk message sig, P.sign jwk message = .ok sig →
    P.verify { jwk with d := none } sig message = .ok true
  unforgeable : ∀ jwk message sig, P.verify jwk sig message = .ok true →
    ∃ d, P.sign { jwk with d := d } message = .ok sig
  resolves : ∀ did, didForKey key = .ok did → ∃ keyData, R.resolveKey (.string did) = .ok keyData ∧
    keyData.keyType = .p256Public ∧ keyData.publicKey = key.publicKey

/-- What is promised of a record that is signed. -/
structure RoundTrips (P : Platform) (R : Resolvers) (recordInput metadataInput : AnyInput)
    (repository : String) (key : KeyData) : Prop where
  accepts : ∀ signed,
    createInlineAttestation P recordInput metadataInput repository key = .ok signed →
      verifyRecord P R (.serialize (.object signed)) repository = .ok ()
  rejects : ∀ signed changed repository',
    createInlineAttestation P recordInput metadataInput repository key = .ok signed →
    changed.lookup "signatures" = signed.lookup "signatures" →
    (repository' ≠ repository ∨ ∃ name, changed.lookup name ≠ signed.lookup name) →
      verifyRecord P R (.serialize (.object changed)) repository' ≠ .ok ()

/-- A record that is made verifies nowhere. -/
theorem never_roundTrips (hencode : EncodesInjectively P.encode)
    (hrecord : recordInput.unwrap P = .ok record)
    (hmetadata : metadataInput.unwrap P = .ok metadata) (hnodup : (keys record).Nodup)
    (hsigned : createInlineAttestation P recordInput metadataInput repository key = .ok signed)
    (hfree : ∀ signatures entry, signed.lookup "signatures" = some (.array signatures) →
      .object entry ∈ signatures → NoCollision 32 (hashedBlocks P record metadata repository ++
        hashedBlocks P signed entry repository)) :
    ¬ RoundTrips P R recordInput metadataInput repository key := by
  intro h
  have hnodup' : (keys signed).Nodup := by
    obtain ⟨_, _, _, _, _, _, hrecord', -, -, -, hpush⟩ :=
      createInlineAttestation_eq_ok hsigned
    obtain rfl := Except.ok.inj (hrecord.symm.trans hrecord')
    obtain ⟨signatures, rfl, -⟩ := pushSignature_eq_ok hpush
    exact nodup_keys_set (by rwa [Json.keys_stringifiedFields])
  exact verifyRecord_ne_ok hencode hrecord hmetadata hnodup hsigned hnodup' rfl hfree
    (h.accepts signed hsigned)

/-! ## A signature that is taken for DER -/

/-- A public key on P-256. -/
def samplePublicKey : Bytes :=
  0x04 :: bigEndian
    0x31504ad5b6fc59b4ce2616e249abf698384743bb9231ed2a2a470d6f015838e2ffe6468b4331039b9aa8e314fe02814d7081589d6c8f309d2da7aec22de9fcd6
    64

def samplePrivateKey : KeyData :=
  ⟨.p256Private, some samplePublicKey,
    some (bigEndian 0x9dc9776f05e3cd7860a30acf3c71f90d1f105d276880fbff73bf8139d05354df 32)⟩

/-- The signature of the key over the CID of the record below, as WebCrypto has it: `r || s`. -/
def sampleSignature : Bytes :=
  bigEndian
    0x309e817be78e8fa81745491a5d5fa5448e783dd1d18b15cea6f63ae6e801f0e4020105020107043a718774c572bd8a25adbeb1bfcd5c0256ae11cecf9f9c3f92
    64

def sampleCid : String := "bafyreidb3nv4wagxtkcrt5tnafdvgpmfcayawcohsycd4ssmmbkdszi5tm"

/-- The platform, which knows one key and one message. -/
def samplePlatform : Platform where
  encode := sampleEncode
  importKey jwk := if jwk.x = base64urlEncode ((samplePublicKey.drop 1).take 32) then .ok ()
    else .error "Invalid keyData"
  sign _ message := if message = textEncode sampleCid then .ok sampleSignature
    else .error "unknown message"
  verify _ signature message := .ok (signature = sampleSignature ∧ message = textEncode sampleCid)
  text _ := ""
  syntaxError _ := ""

def sampleResolvers : Resolvers where
  resolveKey _ := .ok ⟨.p256Public, some samplePublicKey, none⟩
  resolve _ := .error "not found"

def sampleRecord : JsonObject := [("text", .string "hello")]

def sampleMetadata : JsonObject := [("$type", .string "app.attest")]

/-- What is read from the signature. -/
def sampleRaw : Bytes := bigEndian 5 32 ++ bigEndian 7 32

def sampleSigned : JsonObject :=
  [("text", .string "hello"), ("signatures", .array [.object (buildSigMetadata "app.attest"
    "did:key:zDnaeTkU2wg1PzNEiVop1Z93g2UUUEUyzgdCjkViihb2s3ro3" sampleCid
    (base64urlEncode sampleRaw))])]

theorem createInlineAttestation_sample :
    createInlineAttestation samplePlatform (.serialize (.object sampleRecord))
      (.serialize (.object sampleMetadata)) "did:plc:alice" samplePrivateKey = .ok sampleSigned := by
  have hcid : createAttestationCid samplePlatform sampleRecord sampleMetadata "did:plc:alice" =
      .ok sampleCid := by decide +kernel
  have hkey : didForKey samplePrivateKey =
      .ok "did:key:zDnaeTkU2wg1PzNEiVop1Z93g2UUUEUyzgdCjkViihb2s3ro3" := by decide +kernel
  have hsign : signBytes samplePlatform (textEncode sampleCid) samplePrivateKey =
      .ok sampleRaw := by decide +kernel
  simp only [createInlineAttestation, tryCreateInlineAttestation, AnyInput.unwrap,
    computeAttestationCid, bind, Except.bind, pure, Except.pure, hcid, hkey, hsign]
  rfl

theorem genuine_sample : Genuine samplePlatform sampleResolvers samplePrivateKey where
  injective := sampleEncode_injective
  verifies := by
    intro jwk message sig h
    simp only [samplePlatform] at h
    split_ifs at h with hmessage
    obtain rfl := Except.ok.inj h
    exact congrArg Except.ok (decide_eq_true ⟨rfl, hmessage⟩)
  unforgeable := by
    intro jwk message sig h
    obtain ⟨rfl, rfl⟩ := of_decide_eq_true (Except.ok.inj h)
    exact ⟨none, by simp only [samplePlatform, if_pos]⟩
  resolves _ _ := ⟨_, rfl, rfl, rfl⟩

theorem noCollision_sample {signatures : List Json} {entry : JsonObject}
    (hsignatures : sampleSigned.lookup "signatures" = some (.array signatures))
    (hentry : .object entry ∈ signatures) :
    NoCollision 32 (hashedBlocks samplePlatform sampleRecord sampleMetadata "did:plc:alice" ++
      hashedBlocks samplePlatform sampleSigned entry "did:plc:alice") := by
  obtain rfl := Json.array.inj (Option.some.inj hsignatures)
  obtain rfl := Json.object.inj (List.mem_singleton.1 hentry)
  decide +kernel

theorem never_roundTrips_sample :
    ¬ RoundTrips samplePlatform sampleResolvers (.serialize (.object sampleRecord))
      (.serialize (.object sampleMetadata)) "did:plc:alice" samplePrivateKey :=
  never_roundTrips sampleEncode_injective rfl rfl (by decide) createInlineAttestation_sample
    fun _ _ => noCollision_sample

/-- A record of one field, signed and read back. -/
theorem not_roundTrips_all :
    ¬ ∀ (P : Platform) (R : Resolvers) (recordInput metadataInput : AnyInput) (repository : String)
      (key : KeyData) (record metadata : JsonObject), Genuine P R key →
        recordInput.unwrap P = .ok record → metadataInput.unwrap P = .ok metadata →
        (∀ signed signatures entry,
          createInlineAttestation P recordInput metadataInput repository key = .ok signed →
          signed.lookup "signatures" = some (.array signatures) → .object entry ∈ signatures →
            NoCollision 32 (hashedBlocks P record metadata repository ++
              hashedBlocks P signed entry repository)) →
          RoundTrips P R recordInput metadataInput repository key := by
  intro h
  have hround := h samplePlatform sampleResolvers (.serialize (.object sampleRecord))
    (.serialize (.object sampleMetadata)) "did:plc:alice" samplePrivateKey _ _ genuine_sample
    rfl rfl
  have haccepts := (hround ?_).accepts sampleSigned createInlineAttestation_sample
  · exact verifyRecord_ne_ok sampleEncode_injective rfl rfl (by decide)
      createInlineAttestation_sample (by decide) rfl (fun _ _ => noCollision_sample) haccepts
  · intro signed signatures entry hsigned
    obtain rfl := Except.ok.inj (createInlineAttestation_sample.symm.trans hsigned)
    exact noCollision_sample

end ComputeContract.Attest.Port
