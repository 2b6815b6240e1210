import ComputeContract.Attest.Inline
import ComputeContract.Attest.Remote

/-!
# Remote attestations of the port

`createRemoteAttestation` makes a proof record with the CID of a record, of the metadata and of the
repository of the proof; `appendRemoteAttestation` computes that CID again from a proof record, and
appends a reference to it. `verifyRecord` compares the CIDs of the reference and of the proof, and
reads nothing else of the record.

* `append_created_iff`: when a proof that was made is accepted;
* `verifies_appendAll`: records that were extended verify, and so does any record with their
  signatures.
-/

namespace ComputeContract.Attest.Port

open AssocList Cbor

/-! ## Proof records -/

/-- `for (const [k, v] of Object.entries(fields)) if (k !== skipped) init[k] = v`; the runtime is
    Deno, whose objects have no `__proto__` accessor. -/
def assigned (fields : JsonObject) (skipped : String) (init : JsonObject) : JsonObject :=
  setAll ((objectEntries fields).filter fun e => e.1 ≠ skipped) init

/-- The reference to a proof. -/
def proofRef (type uri cid : String) : Json :=
  .object [("$type", .string type),
    ("proof", .object [("$type", .string "at://"), ("uri", .string uri), ("cid", .string cid)])]

def proofRecord (metadata : JsonObject) (type cid : String) : JsonObject :=
  assigned metadata "$type" [("$type", .string type), ("cid", .string cid)]

section
variable (P : Platform)

/-- The body of `createRemoteAttestation`; the repository of the record is not read. -/
def tryCreateRemoteAttestation (recordInput metadataInput : AnyInput)
    (attestationRepository : String) : Except Thrown (JsonObject × JsonObject) := do
  let record ← recordInput.unwrap P
  let metadata ← metadataInput.unwrap P
  match typeField metadata with
  | none => .error (metadataMissingFieldError
      "Attestation metadata must contain a non-empty '$type' field")
  | some type =>
    let result ← computeAttestationCid P record metadata attestationRepository
    let attestedRecord ← pushSignature (Json.stringifiedFields record)
      (proofRef type ("at://" ++ attestationRepository) result.cid)
    return (attestedRecord, proofRecord metadata type result.cid)

def createRemoteAttestation (recordInput metadataInput : AnyInput)
    (attestationRepository : String) : Except Thrown (JsonObject × JsonObject) :=
  (tryCreateRemoteAttestation P recordInput metadataInput attestationRepository).mapError
    fun err => if err.attestation then err
      else ⟨true, "createRemoteAttestation failed: " ++ err.message⟩

def invalidProofError (message : String) : Thrown := ⟨true, "Invalid proof: " ++ message⟩

def cidMismatchError (message : String) : Thrown := ⟨true, message⟩

/-- `cid`, when it is a string that is not empty. -/
def cidField (metadata : JsonObject) : Option String :=
  match metadata.lookup "cid" with
  | some (.string cid) => if cid = "" then none else some cid
  | _ => none

def metaForCid (metadata : JsonObject) (type : String) : JsonObject :=
  assigned metadata "cid" [("$type", .string type)]

/-- The body of `appendRemoteAttestation`. -/
def tryAppendRemoteAttestation (recordInput metadataInput : AnyInput)
    (repository attestationUri : String) : Except Thrown JsonObject := do
  let record ← recordInput.unwrap P
  let metadata ← metadataInput.unwrap P
  match cidField metadata, typeField metadata with
  | none, _ => .error (invalidProofError
      "Remote attestation metadata must contain a 'cid' field referencing the proof")
  | _, none => .error (metadataMissingFieldError
      "Remote attestation metadata must contain a '$type' field")
  | some proofCid, some type =>
    let result ← computeAttestationCid P record (metaForCid metadata type) repository
    if result.cid ≠ proofCid then
      .error (cidMismatchError
        s!"Recomputed CID \"{result.cid}\" does not match proof CID \"{proofCid}\"")
    else pushSignature (Json.stringifiedFields record) (proofRef type attestationUri proofCid)

def appendRemoteAttestation (recordInput metadataInput : AnyInput)
    (repository attestationUri : String) : Except Thrown JsonObject :=
  (tryAppendRemoteAttestation P recordInput metadataInput repository attestationUri).mapError
    fun err => if err.attestation then err
      else ⟨true, "appendRemoteAttestation failed: " ++ err.message⟩

end

/-! ## What is assigned -/

theorem lookup_assigned {fields : JsonObject} (h : (keys fields).Nodup) (skipped : String)
    (init : JsonObject) (name : String) : (assigned fields skipped init).lookup name =
      if name = skipped then init.lookup name else (fields.lookup name).or (init.lookup name) := by
  have hperm : (keys (objectEntries fields)).Perm (keys fields) :=
    (objectEntries_perm fields).map Prod.fst
  have hnodup : (keys (objectEntries fields)).Nodup := hperm.nodup_iff.2 h
  have hfilter : (keys ((objectEntries fields).filter fun e => e.1 ≠ skipped)).Nodup :=
    hnodup.sublist (List.filter_sublist.map Prod.fst)
  have hlookup : (objectEntries fields).lookup name = fields.lookup name := by
    refine Option.ext fun v => ?_
    rw [← mem_iff_lookup hnodup, ← mem_iff_lookup h, (objectEntries_perm fields).mem_iff]
  rw [assigned, lookup_setAll, lookup_reverse hfilter, lookup_filter (fun k => k ≠ skipped),
    hlookup]
  by_cases hname : name = skipped
  · rw [if_pos hname, if_neg (by simp [hname]), Option.none_or]
  · rw [if_neg hname, if_pos (by simp [hname])]

theorem nodup_assigned {fields init : JsonObject} (skipped : String)
    (hinit : (keys init).Nodup) : (keys (assigned fields skipped init)).Nodup :=
  nodup_keys_setAll _ hinit

/-! ## What is computed again -/

variable {P : Platform} {R : Resolvers} {recordInput metadataInput : AnyInput}
  {record metadata metadata' attested proof updated : JsonObject}
  {repository attestationRepository uri type cid : String}

theorem typeField_eq_some (h : typeField metadata = some type) :
    metadata.lookup "$type" = some (.string type) ∧ type ≠ "" := by
  rw [typeField] at h
  split at h
  · rename_i type' hlookup
    split_ifs at h with hempty
    cases h
    exact ⟨hlookup, hempty⟩
  · cases h

theorem typeField_of_lookup (h : metadata.lookup "$type" = some (.string type)) (hne : type ≠ "") :
    typeField metadata = some type := by
  rw [typeField, h]
  exact if_neg hne

theorem cidField_eq_some :
    cidField metadata = some cid ↔ metadata.lookup "cid" = some (.string cid) ∧ cid ≠ "" := by
  rw [cidField]
  constructor
  · intro h
    split at h
    · rename_i cid' hlookup
      split_ifs at h with hempty
      cases h
      exact ⟨hlookup, hempty⟩
    · cases h
  · rintro ⟨hlookup, hne⟩
    rw [hlookup]
    exact if_neg hne

theorem ne_empty_of_cid (h : createAttestationCid P record metadata repository = .ok cid) :
    cid ≠ "" := by
  obtain ⟨_, block, -, -, rfl, -⟩ := createAttestationCid_eq_ok h
  intro hempty
  have hlist := congrArg String.toList hempty
  rw [Cid.toString, String.toList_ofList] at hlist
  cases hlist

/-- The CID depends on the fields of the metadata, and on nothing else of it. -/
theorem createAttestationCid_congr (halike : EncodesAlike P.encode) (hn : (keys metadata).Nodup)
    (hn' : (keys metadata').Nodup) (h : ∀ name, metadata.lookup name = metadata'.lookup name) :
    createAttestationCid P record metadata repository =
      createAttestationCid P record metadata' repository := by
  have hcanon : canon (.object (Json.toFields metadata)) =
      canon (.object (Json.toFields metadata')) := by
    refine canon_eq_of_lookup (by rwa [Json.keys_toFields]) (by rwa [Json.keys_toFields]) ?_
    intro name
    rw [Json.lookup_toFields, Json.lookup_toFields, h]
  have hencode : ∀ recordCid, encodeToCid P
      (.array [.link recordCid, .object (Json.toFields metadata), .text repository]) = encodeToCid P
        (.array [.link recordCid, .object (Json.toFields metadata'), .text repository]) := by
    intro recordCid
    have hentry : canon (.array [.link recordCid, .object (Json.toFields metadata),
        .text repository]) = canon (.array [.link recordCid, .object (Json.toFields metadata'),
          .text repository]) := by
      simp only [canon, canonItems] at hcanon ⊢
      rw [hcanon]
    rw [encodeToCid, encodeToCid, halike _ _ hentry]
  simp only [createAttestationCid, hencode]

theorem lookup_proofRecord (hnodup : (keys metadata).Nodup) (name : String) :
    (proofRecord metadata type cid).lookup name =
      if name = "$type" then some (.string type)
      else (metadata.lookup name).or (if name = "cid" then some (.string cid) else none) := by
  rw [proofRecord, lookup_assigned hnodup]
  by_cases htype : name = "$type"
  · subst htype
    rfl
  · rw [if_neg htype, if_neg htype, lookup_cons, lookup_cons, if_neg htype]
    rfl

/-- What is computed again from a proof is the CID of the metadata without its `cid`. -/
theorem recomputed (halike : EncodesAlike P.encode) (hnodup : (keys metadata).Nodup)
    (htype : metadata.lookup "$type" = some (.string type)) :
    createAttestationCid P record (metaForCid (proofRecord metadata type cid) type) repository =
      createAttestationCid P record (erase "cid" metadata) repository := by
  have hproof : (keys (proofRecord metadata type cid)).Nodup :=
    nodup_assigned _ (by simp [keys])
  refine createAttestationCid_congr halike (nodup_assigned _ (by simp [keys]))
    (nodup_keys_erase hnodup) fun name => ?_
  rw [metaForCid, lookup_assigned hproof, lookup_proofRecord hnodup, lookup_erase, lookup_cons]
  by_cases hname : name = "cid"
  · have hty : name ≠ "$type" := by
      rw [hname]
      decide
    rw [if_pos hname, if_pos hname, if_neg hty]
    rfl
  · rw [if_neg hname, if_neg hname]
    by_cases hty : name = "$type"
    · rw [if_pos hty, hty, htype]
      rfl
    · rw [if_neg hty, if_neg hname, if_neg hty, Option.or_none]
      exact Option.or_none

/-! ## What is accepted -/

theorem createRemoteAttestation_eq_ok (h : createRemoteAttestation P recordInput metadataInput
      attestationRepository = .ok (attested, proof)) :
    ∃ record metadata type cid, recordInput.unwrap P = .ok record ∧
      metadataInput.unwrap P = .ok metadata ∧ typeField metadata = some type ∧
      createAttestationCid P record metadata attestationRepository = .ok cid ∧
      pushSignature (Json.stringifiedFields record)
        (proofRef type ("at://" ++ attestationRepository) cid) = .ok attested ∧
      proof = proofRecord metadata type cid := by
  obtain ⟨record, hrecord, h⟩ := bind_eq_ok.1 (mapError_eq_ok.1 h)
  obtain ⟨metadata, hmetadata, h⟩ := bind_eq_ok.1 h
  cases htype : typeField metadata with
  | none =>
    rw [htype] at h
    cases h
  | some type =>
    rw [htype] at h
    obtain ⟨result, hresult, h⟩ := bind_eq_ok.1 h
    obtain ⟨cid, hcid, heq⟩ := bind_eq_ok.1 hresult
    obtain rfl := Except.ok.inj heq
    obtain ⟨attested, hpush, h⟩ := bind_eq_ok.1 h
    cases h
    exact ⟨record, metadata, type, cid, hrecord, hmetadata, htype, hcid, hpush, rfl⟩

theorem appendRemoteAttestation_eq_ok : appendRemoteAttestation P recordInput metadataInput
      repository uri = .ok updated ↔
    ∃ record metadata type cid, recordInput.unwrap P = .ok record ∧
      metadataInput.unwrap P = .ok metadata ∧ typeField metadata = some type ∧
      cidField metadata = some cid ∧
      createAttestationCid P record (metaForCid metadata type) repository = .ok cid ∧
      pushSignature (Json.stringifiedFields record) (proofRef type uri cid) = .ok updated := by
  rw [appendRemoteAttestation, mapError_eq_ok, tryAppendRemoteAttestation]
  constructor
  · intro h
    obtain ⟨record, hrecord, h⟩ := bind_eq_ok.1 h
    obtain ⟨metadata, hmetadata, h⟩ := bind_eq_ok.1 h
    cases hcid : cidField metadata with
    | none =>
      rw [hcid] at h
      cases h
    | some cid =>
      cases htype : typeField metadata with
      | none =>
        rw [hcid, htype] at h
        cases h
      | some type =>
        rw [hcid, htype] at h
        obtain ⟨result, hresult, h⟩ := bind_eq_ok.1 h
        obtain ⟨cid', hcid', heq⟩ := bind_eq_ok.1 hresult
        obtain rfl := Except.ok.inj heq
        split_ifs at h with hne
        obtain rfl := not_not.1 hne
        exact ⟨record, metadata, type, _, hrecord, hmetadata, htype, hcid, hcid', h⟩
  · rintro ⟨record, metadata, type, cid, hrecord, hmetadata, htype, hcid, hcid', hpush⟩
    refine bind_eq_ok.2 ⟨record, hrecord, bind_eq_ok.2 ⟨metadata, hmetadata, ?_⟩⟩
    rw [hcid, htype]
    have hresult : computeAttestationCid P record (metaForCid metadata type) repository =
        .ok ⟨cid, textEncode cid⟩ := bind_eq_ok.2 ⟨cid, hcid', rfl⟩
    refine bind_eq_ok.2 ⟨_, hresult, ?_⟩
    rw [if_neg (not_not.2 rfl)]
    exact hpush

/-- Whether a signature can be appended does not depend on it. -/
theorem pushSignature_ok {entry : Json} (h : pushSignature record entry = .ok updated)
    (entry' : Json) : ∃ updated', pushSignature record entry' = .ok updated' := by
  rw [pushSignature] at h ⊢
  split
  · exact ⟨_, rfl⟩
  · exact ⟨_, rfl⟩
  · exact ⟨_, rfl⟩
  · rename_i hnone hnull harray hlookup
    split at h
    · rename_i heq
      exact absurd (hlookup.symm.trans heq) (by simp)
    · rename_i heq
      exact absurd (Option.some.inj (hlookup.symm.trans heq)) hnull
    · rename_i signatures heq
      exact absurd (Option.some.inj (hlookup.symm.trans heq)) (harray signatures)
    · cases h

/-- The proof that is made is accepted for its repository just if the metadata has no `cid`, which
    would take the place of the one computed, or the CID of the rest of it. -/
theorem append_created_iff (halike : EncodesAlike P.encode)
    (hrecord : recordInput.unwrap P = .ok record)
    (hmetadata : metadataInput.unwrap P = .ok metadata) (hnodup : (keys metadata).Nodup)
    (hcreated : createRemoteAttestation P recordInput metadataInput attestationRepository =
      .ok (attested, proof)) (uri : String) :
    (∃ updated, appendRemoteAttestation P recordInput (.serialize (.object proof))
      attestationRepository uri = .ok updated) ↔
      metadata.lookup "cid" = none ∨ ∃ cid, metadata.lookup "cid" = some (.string cid) ∧
        createAttestationCid P record (erase "cid" metadata) attestationRepository = .ok cid := by
  obtain ⟨record', metadata', type, cid, hrecord', hmetadata', htype, hcid, hpush, rfl⟩ :=
    createRemoteAttestation_eq_ok hcreated
  obtain rfl := Except.ok.inj (hrecord.symm.trans hrecord')
  obtain rfl := Except.ok.inj (hmetadata.symm.trans hmetadata')
  obtain ⟨hlookup, hne⟩ := typeField_eq_some htype
  have hproofType : typeField (proofRecord metadata type cid) = some type :=
    typeField_of_lookup (by rw [lookup_proofRecord hnodup, if_pos rfl]) hne
  have hproofCid : (proofRecord metadata type cid).lookup "cid" =
      (metadata.lookup "cid").or (some (.string cid)) := by
    rw [lookup_proofRecord hnodup, if_neg (by decide), if_pos rfl]
  have hcompute : createAttestationCid P record
      (metaForCid (proofRecord metadata type cid) type) attestationRepository =
        createAttestationCid P record (erase "cid" metadata) attestationRepository :=
    recomputed halike hnodup hlookup
  have haccepted : (∃ updated, appendRemoteAttestation P recordInput
      (.serialize (.object (proofRecord metadata type cid))) attestationRepository uri =
        .ok updated) ↔ ∃ cid', cidField (proofRecord metadata type cid) = some cid' ∧
      createAttestationCid P record (erase "cid" metadata) attestationRepository = .ok cid' := by
    rw [← hcompute]
    constructor
    · rintro ⟨updated, h⟩
      obtain ⟨record', meta', type', cid', hrecord', hmeta', htype', hcid', hresult, -⟩ :=
        appendRemoteAttestation_eq_ok.1 h
      obtain rfl := Except.ok.inj (hrecord.symm.trans hrecord')
      cases hmeta'
      obtain rfl := Option.some.inj (hproofType.symm.trans htype')
      exact ⟨cid', hcid', hresult⟩
    · rintro ⟨cid', hcid', hresult⟩
      obtain ⟨updated, hupdated⟩ := pushSignature_ok hpush (proofRef type uri cid')
      exact ⟨updated, appendRemoteAttestation_eq_ok.2
        ⟨record, _, type, cid', hrecord, rfl, hproofType, hcid', hresult, hupdated⟩⟩
  rw [haccepted]
  cases hown : metadata.lookup "cid" with
  | none =>
    -- Nothing is left out, and the CID that is computed is the one in the proof.
    have hrest : erase "cid" metadata = metadata := erase_of_not_mem (lookup_eq_none_iff.1 hown)
    rw [hrest]
    refine iff_of_true ⟨cid, cidField_eq_some.2 ⟨?_, ne_empty_of_cid hcid⟩, hcid⟩ (.inl rfl)
    rw [hproofCid, hown, Option.none_or]
  | some value =>
    rw [hown, Option.some_or] at hproofCid
    constructor
    · rintro ⟨cid', hcid', hresult⟩
      exact .inr ⟨cid', hproofCid.symm.trans (cidField_eq_some.1 hcid').1, hresult⟩
    · rintro (hnone | ⟨cid', hvalue, hresult⟩)
      · cases hnone
      · exact ⟨cid', cidField_eq_some.2 ⟨hproofCid.trans hvalue, ne_empty_of_cid hresult⟩, hresult⟩

def proofPlatform : Platform := { samplePlatform with encode := dataEncode }

def proofUri : String := "at://did:plc:alice/app.attest/1"

/-- The proof of the record that is signed inline elsewhere. -/
def sampleProof : JsonObject := proofRecord sampleMetadata "app.attest" sampleCid

def sampleReferred (uri : String) : JsonObject :=
  [("text", .string "hello"), ("signatures", .array [proofRef "app.attest" uri sampleCid])]

theorem createAttestationCid_proofSample :
    createAttestationCid proofPlatform sampleRecord sampleMetadata "did:plc:alice" =
      .ok sampleCid := by decide +kernel

theorem createRemoteAttestation_sample :
    createRemoteAttestation proofPlatform (.serialize (.object sampleRecord))
      (.serialize (.object sampleMetadata)) "did:plc:alice" =
        .ok (sampleReferred "at://did:plc:alice", sampleProof) := by
  simp only [createRemoteAttestation, tryCreateRemoteAttestation, AnyInput.unwrap,
    computeAttestationCid, bind, Except.bind, pure, Except.pure, createAttestationCid_proofSample]
  rfl

theorem append_created_iff_sample : (∃ updated, appendRemoteAttestation proofPlatform
      (.serialize (.object sampleRecord)) (.serialize (.object sampleProof)) "did:plc:alice"
      proofUri = .ok updated) ↔
    sampleMetadata.lookup "cid" = none ∨ ∃ cid, sampleMetadata.lookup "cid" = some (.string cid) ∧
      createAttestationCid proofPlatform sampleRecord (erase "cid" sampleMetadata)
        "did:plc:alice" = .ok cid :=
  append_created_iff dataEncode_alike rfl rfl (by decide) createRemoteAttestation_sample proofUri

/-! ## What verifies -/

/-- A call of `appendRemoteAttestation`, of the record that there is. -/
structure Extension where
  metadataInput : AnyInput
  repository : String
  uri : String

def appendAll (P : Platform) (record : JsonObject) (extensions : List Extension) :
    Except Thrown JsonObject :=
  extensions.foldlM (fun record e =>
    appendRemoteAttestation P (.serialize (.object record)) e.metadataInput e.repository e.uri)
      record

/-- The proof is found where the call says, with the CID that was accepted. -/
def Extension.Stored (P : Platform) (R : Resolvers) (e : Extension) : Prop :=
  ∀ metadata, e.metadataInput.unwrap P = .ok metadata → ∃ proof, R.resolve e.uri =
    .ok (.object proof) ∧ proof.lookup "cid" = metadata.lookup "cid"

/-- A reference to a proof that is found. -/
def Refers (R : Resolvers) (sig : Json) : Prop :=
  ∃ type uri cid proof, sig = proofRef type uri cid ∧ R.resolve uri = .ok (.object proof) ∧
    proof.lookup "cid" = some (.string cid)

/-- The signatures of a record are references. -/
def AllRefer (R : Resolvers) (record : JsonObject) : Prop :=
  ∀ signatures, record.lookup "signatures" = some (.array signatures) →
    ∀ sig ∈ signatures, Refers R sig

theorem verifyEntry_of_refers {sig : Json} (h : Refers R sig) (idx : ℕ) :
    verifyEntry P R record repository sig idx = [] := by
  obtain ⟨type, uri, cid, proof, rfl, hresolve, hcid⟩ := h
  have hproof : verifyRemoteSignature P R
      [("$type", .string "at://"), ("uri", .string uri), ("cid", .string cid)] idx = [] := by
    have huri : ([("$type", .string "at://"), ("uri", .string uri), ("cid", .string cid)] :
        JsonObject).lookup "uri" = some (.string uri) := rfl
    have hexpected : ([("$type", .string "at://"), ("uri", .string uri), ("cid", .string cid)] :
        JsonObject).lookup "cid" = some (.string cid) := rfl
    simp only [verifyRemoteSignature, huri, hexpected, hresolve, fieldsOf, hcid, identical]
    simp
  exact hproof

theorem verifyRecord_of_allRefer (h : AllRefer R record) (repository : String) :
    verifyRecord P R (.serialize (.object record)) repository = .ok () := by
  have herrors : signatureErrors P R record repository = [] := by
    rw [signatureErrors]
    split
    · rename_i signatures hsignatures
      refine List.flatMap_eq_nil_iff.2 fun e he => verifyEntry_of_refers ?_ e.2
      exact h signatures hsignatures e.1 (List.fst_mem_of_mem_zipIdx he)
    · rfl
  simp only [verifyRecord, AnyInput.unwrap, bind, Except.bind, herrors, List.isEmpty_nil, if_true]
  rfl

theorem stringified_of_refers {sig : Json} (h : Refers R sig) : sig.stringified = sig := by
  obtain ⟨type, uri, cid, _, rfl, -, -⟩ := h
  rfl

theorem stringifiedItems_of_refers {signatures : List Json} (h : ∀ sig ∈ signatures, Refers R sig) :
    Json.stringifiedItems signatures = signatures := by
  induction signatures with
  | nil => rfl
  | cons sig signatures ih =>
    rw [List.forall_mem_cons] at h
    rw [Json.stringifiedItems, stringified_of_refers h.1, ih h.2]

/-- One call more: a reference at the end. -/
theorem AllRefer.append (h : AllRefer R record) {e : Extension} (hstored : e.Stored P R)
    (happend : appendRemoteAttestation P (.serialize (.object record)) e.metadataInput e.repository
      e.uri = .ok updated) : AllRefer R updated ∧
      count (updated.lookup "signatures") = count (record.lookup "signatures") + 1 := by
  obtain ⟨record', metadata, type, cid, hrecord, hmetadata, -, hcid, -, hpush⟩ :=
    appendRemoteAttestation_eq_ok.1 happend
  cases hrecord
  obtain ⟨proof, hresolve, hproof⟩ := hstored metadata hmetadata
  rw [(cidField_eq_some.1 hcid).1] at hproof
  have hnew : Refers R (proofRef type e.uri cid) := ⟨type, e.uri, cid, proof, rfl, hresolve, hproof⟩
  rw [pushSignature, Json.lookup_stringifiedFields] at hpush
  have hone : ∀ {updated : JsonObject}, Except.ok (set "signatures"
      (.array [proofRef type e.uri cid]) (Json.stringifiedFields record)) =
        (Except.ok updated : Except Thrown JsonObject) →
      AllRefer R updated ∧ count (updated.lookup "signatures") = 1 := by
    intro updated hupdated
    obtain rfl := Except.ok.inj hupdated
    rw [AllRefer, lookup_set, if_pos rfl]
    refine ⟨fun signatures heq sig hsig => ?_, rfl⟩
    cases heq
    obtain rfl := List.mem_singleton.1 hsig
    exact hnew
  cases hsignatures : record.lookup "signatures" with
  | none =>
    rw [hsignatures] at hpush
    exact hone hpush
  | some value =>
    rw [hsignatures] at hpush
    cases value with
    | null => exact hone hpush
    | infinite negative => exact hone hpush
    | array signatures =>
      have hold := h signatures hsignatures
      rw [Option.map_some, Json.stringified, stringifiedItems_of_refers hold] at hpush
      obtain rfl := Except.ok.inj hpush
      rw [AllRefer, lookup_set, if_pos rfl, count, count, List.length_append]
      refine ⟨fun signatures' heq sig hsig => ?_, rfl⟩
      cases heq
      exact (List.mem_append.1 hsig).elim (hold sig) fun hsig => List.mem_singleton.1 hsig ▸ hnew
    | _ => cases hpush

/-- A run of calls: a reference for each of them. -/
theorem AllRefer.appendAll {extensions : List Extension} (h : AllRefer R record)
    (hstored : ∀ e ∈ extensions, e.Stored P R)
    (happend : appendAll P record extensions = .ok updated) :
    AllRefer R updated ∧ count (updated.lookup "signatures") =
      count (record.lookup "signatures") + extensions.length := by
  induction extensions generalizing record with
  | nil =>
    cases happend
    exact ⟨h, rfl⟩
  | cons e extensions ih =>
    rw [List.forall_mem_cons] at hstored
    obtain ⟨next, hnext, hrest⟩ := bind_eq_ok.1 happend
    obtain ⟨hrefer, hcount⟩ := h.append hstored.1 hnext
    obtain ⟨hdone, hcount'⟩ := ih hrefer hstored.2 hrest
    refine ⟨hdone, ?_⟩
    rw [hcount', hcount, List.length_cons]
    omega

/-- A record without signatures, extended by proofs that are found, has one for each call and
    verifies; so does any record with the same signatures, in any repository. -/
theorem verifies_appendAll {extensions : List Extension}
    (hnone : count (record.lookup "signatures") = 0) (hstored : ∀ e ∈ extensions, e.Stored P R)
    (happend : appendAll P record extensions = .ok updated) :
    count (updated.lookup "signatures") = extensions.length ∧
      ∀ changed : JsonObject, changed.lookup "signatures" = updated.lookup "signatures" →
        ∀ repository, verifyRecord P R (.serialize (.object changed)) repository = .ok () := by
  have hstart : AllRefer R record := by
    intro signatures hsignatures sig hsig
    rw [hsignatures, count, List.length_eq_zero_iff] at hnone
    rw [hnone] at hsig
    cases hsig
  obtain ⟨hrefer, hcount⟩ := hstart.appendAll hstored happend
  refine ⟨by omega, fun changed hchanged repository => verifyRecord_of_allRefer ?_ repository⟩
  rw [AllRefer, hchanged]
  exact hrefer

def proofResolvers : Resolvers where
  resolveKey _ := .error "unknown key"
  resolve uri := if uri = proofUri then .ok (.object sampleProof) else .error "not found"

def sampleExtension : Extension :=
  ⟨.serialize (.object sampleProof), "did:plc:alice", proofUri⟩

theorem appendAll_sample : appendAll proofPlatform sampleRecord [sampleExtension] =
    .ok (sampleReferred proofUri) := by
  have hnodup : (keys sampleMetadata).Nodup := by decide
  have hcid : createAttestationCid proofPlatform sampleRecord (metaForCid sampleProof "app.attest")
      "did:plc:alice" = .ok sampleCid :=
    (recomputed dataEncode_alike hnodup rfl).trans createAttestationCid_proofSample
  have htype : typeField sampleProof = some "app.attest" :=
    typeField_of_lookup (lookup_proofRecord hnodup "$type") (by decide)
  have hfield : cidField sampleProof = some sampleCid :=
    cidField_eq_some.2 ⟨lookup_proofRecord hnodup "cid", by decide⟩
  exact bind_eq_ok.2 ⟨_, appendRemoteAttestation_eq_ok.2
    ⟨_, _, _, _, rfl, rfl, htype, hfield, hcid, rfl⟩, rfl⟩

theorem verifies_appendAll_sample :
    count ((sampleReferred proofUri).lookup "signatures") = 1 ∧
      ∀ changed : JsonObject,
        changed.lookup "signatures" = (sampleReferred proofUri).lookup "signatures" →
        ∀ repository, verifyRecord proofPlatform proofResolvers (.serialize (.object changed))
          repository = .ok () := by
  have hnone : count (sampleRecord.lookup "signatures") = 0 := rfl
  have hstored : ∀ e ∈ [sampleExtension], e.Stored proofPlatform proofResolvers := by
    intro e he metadata hmetadata
    obtain rfl := List.mem_singleton.1 he
    cases hmetadata
    have hresolve : proofResolvers.resolve proofUri = .ok (.object sampleProof) := by
      simp only [proofResolvers, if_pos]
    exact ⟨sampleProof, hresolve, rfl⟩
  exact verifies_appendAll hnone hstored appendAll_sample

end ComputeContract.Attest.Port
