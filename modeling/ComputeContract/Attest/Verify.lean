import ComputeContract.Attest.Sign

/-!
# Verifying attestations

The two verifiers: `verify`, over every entry of a record, and `verifyInlineAttestation` of the
market library, of one inline entry and always over the whole record. The market stores a
signature as `{ $bytes }`, in base64, and both read this form too.

* `preimage_set_signatures`: what is signed does not depend on `signatures`;
* `verifies_sign`: an entry verifies for the record it was made for.
-/

namespace ComputeContract.Attest

open AssocList

/-! ## Bytes -/

def base64ToBytes (b64 : String) : Except String Bytes :=
  match atob (padBase64 b64.toList) with
  | some bytes => .ok bytes
  | none => .error "Failed to decode base64"

def bytesToBase64 (bytes : Bytes) : String := String.ofList (btoa bytes)

theorem base64ToBytes_bytesToBase64 (bytes : Bytes) :
    base64ToBytes (bytesToBase64 bytes) = .ok bytes := by
  rw [base64ToBytes, bytesToBase64, String.toList_ofList, padBase64_btoa, atob_btoa]

/-- `{ $bytes }` -/
def bytesField (o : RecordMap) : Option String :=
  match o.lookup "$bytes" with
  | some (.text b64) => some b64
  | _ => none

/-! ## Verifying every entry -/

structure VerifyEntryResult where
  index : ℕ
  type : String
  ok : Bool
  reason : Option String

structure VerifyOptions where
  record : RecordMap
  repository : String
  keyResolver : String → Except String KeyData
  /-- By URI; the record, when it is an object. -/
  recordResolver : Option (String → Except String (Option RecordMap))
  fields : Option (List String)
  role : Option String

section
variable (P : Primitives)

def defaultKeyResolver (did : String) : Except String KeyData :=
  if "did:key:".toList.isPrefixOf did.toList then parseDidKey P did
  else .error s!"Default keyResolver only handles did:key (got: {did})"

/-- The bytes of the signature of an inline entry. -/
def entrySignature (entry : RecordMap) : Except String Bytes :=
  match entry.lookup "signature" with
  | some (.bytes sig) => .ok sig
  | some (.object sig) =>
    match bytesField sig with
    | some b64 => base64ToBytes b64
    | none => .error "Inline attestation signature is not bytes or \x7b$bytes\x7d"
  | some .null | some (.array _) | some (.link _) =>
    .error "Inline attestation signature is not bytes or \x7b$bytes\x7d"
  | _ => .error "Inline attestation missing `signature`"

/-- `entry.cid !== computed.toString()` -/
def cidMismatch (entry : RecordMap) (computed : Cid) : Bool :=
  match entry.lookup "cid" with
  | some (.text cid) => cid ≠ computed.toString
  | _ => true

def verifyInline (opts : VerifyOptions) (entry : RecordMap) : Except String Unit := do
  let key ← match entry.lookup "key" with
    | some (.text key) => if key = "" then .error "Inline attestation missing `key`" else .ok key
    | _ => .error "Inline attestation missing `key`"
  let sigBytes ← entrySignature entry
  let pubKey ← opts.keyResolver key
  let computed ← createAttestationCid P.encode opts.record entry opts.repository opts.fields
  if cidMismatch entry computed then .error "Inline attestation CID mismatch"
  else if verifyBytes P computed.bytes sigBytes pubKey then .ok ()
  else .error "Signature verification failed"

/-- A remote attestation; `false` when its role is not the one asked for. -/
def verifyRemote (opts : VerifyOptions) (entry : RecordMap) : Except String Bool := do
  let resolve ← match opts.recordResolver with
    | some resolve => .ok resolve
    | none => .error "Remote attestation requires input.recordResolver"
  let uri ← match entry.lookup "uri" with
    | some (.text uri) =>
      if uri = "" then .error "Remote attestation entry missing `uri`" else .ok uri
    | _ => .error "Remote attestation entry missing `uri`"
  let proof ← match ← resolve uri with
    | some proof => .ok proof
    | none => .error "Resolved proof was not an object"
  let roleOk := match opts.role, proof.lookup "role" with
    | none, _ => true
    | some role, some (.text role') => role' = role
    | _, _ => false
  if roleOk then do
    let computed ← createAttestationCid P.encode opts.record proof opts.repository opts.fields
    if cidMismatch proof computed then .error "Remote attestation CID mismatch" else .ok true
  else .ok false

/-- The turn of an entry; `none` when it adds no result. -/
def verifyEntry (opts : VerifyOptions) (index : ℕ) (raw : Value) : Option VerifyEntryResult :=
  match raw with
  | .object entry =>
    match typeOf entry with
    | none => some ⟨index, "", false, some "Entry is not an object with a $type"⟩
    | some type =>
      if type = STRONG_REF_NSID then
        match verifyRemote P opts entry with
        | .ok true => some ⟨index, type, true, none⟩
        | .ok false => none
        | .error reason => some ⟨index, type, false, some reason⟩
      else
        match verifyInline P opts entry with
        | .ok () => some ⟨index, type, true, none⟩
        | .error reason => some ⟨index, type, false, some reason⟩
  | _ => some ⟨index, "", false, some "Entry is not an object with a $type"⟩

/-- Verify every entry in a record's `signatures` array. -/
def verify (opts : VerifyOptions) : List VerifyEntryResult :=
  (signaturesOf opts.record).zipIdx.filterMap fun e => verifyEntry P opts e.2 e.1

/-! ## The market library -/

/-- The bytes of a signature: raw, `{ $bytes }` or base64. -/
def marketNormalizeSignature : Option Value → Except String (Option Bytes)
  | some (.bytes sig) => .ok (some sig)
  | some (.object sig) =>
    match bytesField sig with
    | some b64 => return some (← base64ToBytes b64)
    | none => .ok none
  | some (.text b64) => return some (← base64ToBytes b64)
  | _ => .ok none

/-- `typeof entry.cid === "string" && entry.cid !== cid.toString()` -/
def declaredMismatch (entry : RecordMap) (cid : Cid) : Bool :=
  match entry.lookup "cid" with
  | some (.text declared) => declared ≠ cid.toString
  | _ => false

/-- The body of `verifyInlineAttestation`. -/
def tryVerifyInline (keyResolver : String → Except String KeyData) (record entry : RecordMap)
    (repositoryDid : String) : Except String Bool := do
  match ← marketNormalizeSignature (entry.lookup "signature"), entry.lookup "key" with
  | some sig, some (.text key) => do
    let cid ← createAttestationCid P.encode record entry repositoryDid none
    if declaredMismatch entry cid then return false
    else do
      let keyData ← keyResolver key
      return verifyBytes P cid.bytes sig keyData
  | _, _ => return false

/-- Verify one inline attestation. Never throws. -/
def verifyInlineAttestation (keyResolver : String → Except String KeyData)
    (record entry : RecordMap) (repositoryDid : String) : Bool :=
  match tryVerifyInline P keyResolver record entry repositoryDid with
  | .ok ok => ok
  | .error _ => false

/-- Verify a remote attestation proof: its `cid` is that of the subject in its repository, with
    the rest of the proof as metadata. Never throws. -/
def verifyRemoteProof (subjectRecord : RecordMap) (subjectRepositoryDid : String)
    (proofRecord : RecordMap) : Bool :=
  match proofRecord.lookup "cid" with
  | some (.text declared) =>
    let metadata := erase "signatures" (erase "signature" (erase "cid" proofRecord))
    match createAttestationCid P.encode subjectRecord metadata subjectRepositoryDid none with
    | .ok cid => cid.toString = declared
    | .error _ => false
  | _ => false

theorem verifyRemoteProof_of_cid {P : Primitives} {subject metadata proof : RecordMap}
    {did declared : String} {cid : Cid} (hdeclared : proof.lookup "cid" = some (.text declared))
    (hmetadata : erase "signatures" (erase "signature" (erase "cid" proof)) = metadata)
    (hcid : createAttestationCid P.encode subject metadata did none = .ok cid)
    (h : declared = cid.toString) : verifyRemoteProof P subject did proof := by
  simp only [verifyRemoteProof, hdeclared, hmetadata, hcid]
  exact decide_eq_true h.symm

/-- Normalize an inline attestation entry for storage. -/
def toStorableEntry (entry : RecordMap) : Except String RecordMap := do
  match ← marketNormalizeSignature (entry.lookup "signature") with
  | some sig => return set "signature" (.object [("$bytes", .text (bytesToBase64 sig))]) entry
  | none => return set "signature" ((entry.lookup "signature").getD .undefined) entry

/-- The body that `createSignedRecord` writes. -/
def createSignedRecord (a : Attestation) (record : RecordMap) (repositoryDid : String) :
    Except String RecordMap := do
  let existing := signaturesOf record
  match ← a.sign P record repositoryDid none none none with
  | .object entry => do
    let entry ← toStorableEntry entry
    return set "signatures" (.array (existing ++ [.object entry])) record
  | _ => .error "not an entry"

end

/-! ## What is signed -/

section
variable {record metadata entry : RecordMap} {repository : String}
  {fields : Option (List String)}

/-- What is signed does not depend on `signatures`. -/
theorem preimage_set_signatures (v : Value) (record metadata : RecordMap) (repository : String)
    (fields : Option (List String)) :
    preimage (set "signatures" v record) metadata repository fields =
      preimage record metadata repository fields := by
  have htype : typeOf (set "signatures" v record) = typeOf record := by
    rw [typeOf, lookup_set, if_neg (by decide)]
    rfl
  have hpick : pickField (set "signatures" v record) = pickField record := by
    funext prepared f
    unfold pickField
    split_ifs with hf
    · rfl
    · rw [property, lookup_set, if_neg hf]
      rfl
  unfold preimage prepareRecord
  rw [htype, hpick, erase_set_self]

/-- What is signed depends on the metadata as it is prepared. -/
theorem preimage_congr {metadata' : RecordMap} (htype : typeOf metadata' = typeOf metadata)
    (hprep : prepareMetadata metadata' repository = prepareMetadata metadata repository) :
    preimage record metadata' repository fields = preimage record metadata repository fields := by
  unfold preimage
  rw [htype, hprep]

theorem createAttestationCid_congr {encode : Value → Except String Bytes} {record' metadata' :
    RecordMap} (h : preimage record' metadata' repository fields =
      preimage record metadata repository fields) :
    createAttestationCid encode record' metadata' repository fields =
      createAttestationCid encode record metadata repository fields := by
  unfold createAttestationCid
  rw [h]

theorem createAttestationCid_set_signatures (encode : Value → Except String Bytes) (v : Value)
    (record metadata : RecordMap) (repository : String) (fields : Option (List String)) :
    createAttestationCid encode (set "signatures" v record) metadata repository fields =
      createAttestationCid encode record metadata repository fields :=
  createAttestationCid_congr (preimage_set_signatures v record metadata repository fields)

end

/-! ## Entries that verify -/

/-- An entry that both verifiers accept for a record, wherever it stands; the market library
    when the whole record is bound. -/
structure Verifies (P : Primitives) (keyResolver : String → Except String KeyData)
    (record : RecordMap) (repository : String) (fields : Option (List String)) (raw : Value) :
    Prop where
  verify : ∀ recordResolver role index, ∃ type,
    verifyEntry P ⟨record, repository, defaultKeyResolver P, recordResolver, fields, role⟩ index
      raw = some ⟨index, type, true, none⟩
  market : fields = none → ∃ entry, raw = .object entry ∧
    verifyInlineAttestation P keyResolver record entry repository = true

section
variable {P : Primitives} {keyResolver : String → Except String KeyData}
  {record metadata entry : RecordMap} {repository : String} {fields : Option (List String)}

theorem verifies_set_signatures (v : Value) {raw : Value} :
    Verifies P keyResolver (set "signatures" v record) repository fields raw ↔
      Verifies P keyResolver record repository fields raw := by
  have hcid : ∀ metadata fields,
      createAttestationCid P.encode (set "signatures" v record) metadata repository fields =
        createAttestationCid P.encode record metadata repository fields := fun metadata fields =>
    createAttestationCid_set_signatures P.encode v record metadata repository fields
  have hentry : ∀ recordResolver role index,
      verifyEntry P ⟨set "signatures" v record, repository, defaultKeyResolver P, recordResolver,
        fields, role⟩ index raw =
      verifyEntry P ⟨record, repository, defaultKeyResolver P, recordResolver, fields, role⟩ index
        raw := by
    intro recordResolver role index
    simp only [verifyEntry, verifyRemote, verifyInline, hcid]
  have hmarket : ∀ entry, verifyInlineAttestation P keyResolver (set "signatures" v record) entry
      repository = verifyInlineAttestation P keyResolver record entry repository := by
    intro entry
    simp only [verifyInlineAttestation, tryVerifyInline, hcid]
  constructor
  · rintro ⟨hverify, hm⟩
    exact ⟨by simpa only [hentry] using hverify, by simpa only [hmarket] using hm⟩
  · rintro ⟨hverify, hm⟩
    exact ⟨by simpa only [hentry] using hverify, by simpa only [hmarket] using hm⟩

/-- The fields of an entry over the signed CID, with its signature in one of the forms that are
    read. -/
structure IsEntry (P : Primitives) (a : Attestation) (metadata : RecordMap) (repository : String)
    (cid : Cid) (sig : Bytes) (entry : RecordMap) : Prop where
  type : typeOf entry = typeOf metadata
  not_ref : typeOf metadata ≠ some STRONG_REF_NSID
  key : entry.lookup "key" = some (.text a.publicKey)
  cid : entry.lookup "cid" = some (.text cid.toString)
  signature : entrySignature entry = .ok sig
  market : marketNormalizeSignature (entry.lookup "signature") = .ok (some sig)
  prepared : prepareMetadata entry repository = prepareMetadata metadata repository

/-- An entry verifies for the record it was made for. -/
theorem verifies_of_isEntry (hP : P.Lawful)
    (hresolve : ∀ did key, parseDidKey P did = .ok key → keyResolver did = .ok key)
    {a : Attestation} (ha : derivePublicDidKey P a.privateKey = .ok a.publicKey) {cid : Cid}
    {sig : Bytes}
    (hcid : createAttestationCid P.encode record metadata repository fields = .ok cid)
    (hsig : signBytes P cid.bytes a.privateKey = .ok sig)
    (h : IsEntry P a metadata repository cid sig entry) :
    Verifies P keyResolver record repository fields (.object entry) := by
  obtain ⟨pub, hpub, hverify⟩ := verifyBytes_signBytes hP hsig ha
  have hcid' : createAttestationCid P.encode record entry repository fields = .ok cid := by
    rw [createAttestationCid_congr (preimage_congr h.type h.prepared), hcid]
  have hmatch : cidMismatch entry cid = false := by
    simp [cidMismatch, h.cid]
  -- The key of the signer is a `did:key`.
  have hkey : "did:key:".toList.isPrefixOf a.publicKey.toList := by
    by_contra hno
    rw [parseDidKey, if_neg hno] at hpub
    cases hpub
  have hkeyne : a.publicKey ≠ "" := fun heq => by
    rw [heq] at hkey
    cases hkey
  obtain ⟨type, htype⟩ : ∃ type, typeOf metadata = some type := by
    obtain ⟨prepared, hprep, -⟩ := bind_eq_ok.1 hcid
    obtain ⟨-, -, hmeta, -⟩ := preimage_eq_ok hprep
    exact Option.isSome_iff_exists.1 hmeta
  refine ⟨fun recordResolver role index => ⟨type, ?_⟩, fun hnone => ⟨entry, rfl, ?_⟩⟩
  · have hinline : verifyInline P ⟨record, repository, defaultKeyResolver P, recordResolver, fields,
        role⟩ entry = .ok () := by
      simp only [verifyInline, h.key, if_neg hkeyne, ok_bind, h.signature, defaultKeyResolver,
        if_pos hkey, hpub, hcid', hmatch, hverify, Bool.false_eq_true, if_false, if_true]
    have hne : type ≠ STRONG_REF_NSID := fun heq => h.not_ref (htype.trans (congrArg some heq))
    simp only [verifyEntry, h.type, htype, if_neg hne, hinline]
  · subst hnone
    have hdeclared : declaredMismatch entry cid = false := by
      simp [declaredMismatch, h.cid]
    simp only [verifyInlineAttestation, tryVerifyInline, h.market, h.key, ok_bind, hcid',
      hdeclared, hresolve _ _ hpub, Bool.false_eq_true, if_false, hverify]
    rfl

end

end ComputeContract.Attest
