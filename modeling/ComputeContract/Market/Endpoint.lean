import ComputeContract.Market.Teardown

/-!
# The verification endpoint

`network.attested.verify` fetches a record and says which of its signature entries are verified:
the inline ones, as `verifyRecordSignatures` does, and the refs to proof records, which must bind
to the record. What is an inline entry is decided anew, and a proof record's own signature is not
looked at.

* `createVerifyHandler`, and `verifiedEntries` for the loop over the entries;
* `Agrees`: what is said about the entries of a record;
* `endpoint_agrees_iff`: the records of which it holds.
-/

namespace ComputeContract.Market.Endpoint

open AssocList Attest

/-! ## The endpoint -/

/-- What a request asks for: the record itself, or the proof of an entry. -/
abbrev Turn := Option ℕ

structure World where
  primitives : Primitives
  /-- `defaultKeyResolver` -/
  keyResolver : String → Except String KeyData
  keysForDid : Option (String → List String)
  /-- By what `getPdsEndpoint` finds in the document. One that is cached is found again. -/
  didDocument : Turn → String → Except String (Option (Option String))
  getRecord : Turn → GetRecord → Except String GetRecordResponse

inductive VerifyResponse
  | xrpcError (error message : String) (status : ℕ)
  | json (uri cid : String) (valid : Bool) (signatures : List Value)

def isStrongRefEntry (v : Value) : Option (String × String) :=
  match v with
  | .object o =>
    match o.lookup "uri", o.lookup "cid", o.lookup "key" with
    | some (.text _), some (.text _), some (.text _) => none
    | some (.text uri), some (.text cid), _ => some (uri, cid)
    | _, _, _ => none
  | _ => none

/-- `typeof v === "string"` -/
def isString : Option Value → Bool
  | some (.text _) => true
  | _ => false

/-- `o.signature != null` -/
def hasSignature (o : RecordMap) : Bool :=
  match field (some o) "signature" with
  | none | some .null => false
  | _ => true

/-- An inline entry, for the endpoint. -/
def isInlineEntry (o : RecordMap) : Bool :=
  isString (o.lookup "key") && isString (o.lookup "cid") && hasSignature o

variable (w : World)

def pdsForDid (turn : Turn) (did : String) : Except String String := do
  match ← w.didDocument turn did with
  | none => .error s!"could not resolve did {did}"
  | some doc =>
    match doc.filter (· ≠ "") with
    | none => .error s!"no pds for {did}"
    | some pds => return pds

def fetchRecord (turn : Turn) (uri : String) (cid : Option String) :
    Except String (RecordMap × String) := do
  let parts := parseAtUri uri
  let pds ← pdsForDid w turn parts.repo
  let res ← w.getRecord turn
    ⟨pds, parts.repo, parts.collection, parts.rkey, (cid.filter (· ≠ "")).map .text⟩
  return (res.value, (res.cid.or cid).getD "")

section
variable (record : RecordMap) (repositoryDid : String)

/-- An entry is made with its key, one that its issuer publishes if keys are bound. -/
def inlineOk (entry : RecordMap) : Bool :=
  verifyInlineAttestation w.primitives w.keyResolver record entry repositoryDid &&
    match w.keysForDid with
    | some keysForDid => keyPublished keysForDid entry repositoryDid
    | none => true

/-- The proof that an entry refers to binds to the record. -/
def remoteOk (index : ℕ) (uri cid : String) : Bool :=
  match fetchRecord w (some index) uri (some cid) with
  | .ok proof => verifyRemoteProof w.primitives record repositoryDid proof.1
  | .error _ => false

/-- The turn of an entry; one whose check throws is passed over. -/
def entryOk (e : Value × ℕ) : Bool :=
  match e.1 with
  | .object o =>
    if isInlineEntry o then inlineOk w record repositoryDid o
    else
      match isStrongRefEntry e.1 with
      | some (uri, cid) => remoteOk w record repositoryDid e.2 uri cid
      | none => false
  | _ => false

/-- The entries that are verified, with their indices. -/
def verifiedEntries : List (Value × ℕ) :=
  (signaturesOf record).zipIdx.filter (entryOk w record repositoryDid)

end

/-- `createVerifyHandler`, of the parameters of a request. -/
def createVerifyHandler (uri cidParam : Option String) : VerifyResponse :=
  match uri.filter (· ≠ "") with
  | none => .xrpcError "InvalidRequest" "missing uri" 400
  | some uri =>
    match fetchRecord w none uri cidParam with
    | .error err => .xrpcError "RecordNotFound" s!"could not resolve {uri}: {err}" 400
    | .ok (record, recordCid) =>
      let verified := verifiedEntries w record (atUriAuthority uri)
      .json uri recordCid (!verified.isEmpty) (verified.map Prod.fst)

/-! ## What is said about it -/

section
variable (record : RecordMap) (repositoryDid : String)

/-- The record reduced to an entry is signed. -/
def signedBy (entry : Value) : Bool :=
  verifyRecordSignatures w.primitives w.keyResolver w.keysForDid
    (set "signatures" (.array [entry]) record) repositoryDid

/-- The record has an entry that is made with a published key, or proved by a record that is
    signed with one. -/
def Backed (keysForDid : String → List String) : Prop :=
  (∃ o, .object o ∈ signaturesOf record ∧
    verifyInlineAttestation w.primitives w.keyResolver record o repositoryDid ∧
    keyPublished keysForDid o repositoryDid) ∨
  ∃ e ∈ (signaturesOf record).zipIdx, ∃ uri cid proof, isStrongRefEntry e.1 = some (uri, cid) ∧
    fetchRecord w (some e.2) uri (some cid) = .ok proof ∧
    verifyRemoteProof w.primitives record repositoryDid proof.1 ∧
    verifyRecordSignatures w.primitives w.keyResolver (some keysForDid) proof.1
      (atUriAuthority uri)

/-- What is said about the entries that are verified, whichever of the two calls them inline. -/
structure Agrees : Prop where
  inline : ∀ o index, (.object o, index) ∈ (signaturesOf record).zipIdx →
    isInlineEntry o ∨ Market.isInlineEntry (.object o) →
    ((.object o, index) ∈ verifiedEntries w record repositoryDid ↔
      signedBy w record repositoryDid (.object o))
  bound : ∀ keysForDid, w.keysForDid = some keysForDid →
    verifiedEntries w record repositoryDid ≠ [] → Backed w record repositoryDid keysForDid

/-- An entry that verifies has a `cid` exactly when it has no `uri`; and beside a proof that binds,
    signed or not, there is a published key. -/
structure Plain : Prop where
  shape : ∀ o, .object o ∈ signaturesOf record → inlineOk w record repositoryDid o →
    (isString (o.lookup "cid") ↔ field (some o) "uri" = none)
  backed : ∀ keysForDid, w.keysForDid = some keysForDid →
    (∃ e ∈ (signaturesOf record).zipIdx, ∃ uri cid, isStrongRefEntry e.1 = some (uri, cid) ∧
      remoteOk w record repositoryDid e.2 uri cid) → Backed w record repositoryDid keysForDid

end

/-! ## Entries that verify -/

variable {w} {record : RecordMap} {repositoryDid : String} {o : RecordMap}

theorem verifyInlineAttestation_set_signatures (v : Value) (o : RecordMap) :
    verifyInlineAttestation w.primitives w.keyResolver (set "signatures" v record) o repositoryDid
      = verifyInlineAttestation w.primitives w.keyResolver record o repositoryDid := by
  have hcid : createAttestationCid w.primitives.encode (set "signatures" v record) o repositoryDid
      none = createAttestationCid w.primitives.encode record o repositoryDid none :=
    createAttestationCid_congr (preimage_set_signatures v record o repositoryDid none)
  rw [verifyInlineAttestation, verifyInlineAttestation, tryVerifyInline, tryVerifyInline, hcid]

/-- The market library reads a signature only where there is one. -/
theorem hasSignature_of_normalize {sig : Bytes}
    (h : marketNormalizeSignature (o.lookup "signature") = .ok (some sig)) : hasSignature o := by
  rw [hasSignature, field, Option.getD_some]
  cases hsig : o.lookup "signature" with
  | none =>
    rw [hsig] at h
    cases h
  | some v =>
    rw [hsig] at h
    cases v <;> first | rfl | cases h

/-- What verifies has a key and a signature. -/
theorem shape_of_inlineOk (h : inlineOk w record repositoryDid o) :
    isString (o.lookup "key") ∧ hasSignature o := by
  rw [inlineOk, Bool.and_eq_true, verifyInlineAttestation] at h
  obtain ⟨hverify, -⟩ := h
  split at hverify
  · next ok htry =>
    subst hverify
    obtain ⟨sig, hsig, htry⟩ := bind_eq_ok.1 htry
    split at htry
    · next sig key hkey =>
      exact ⟨by rw [hkey]; rfl, hasSignature_of_normalize hsig⟩
    · cases htry
  · cases hverify

/-- An entry that verifies is inline for the endpoint if it has a `cid`. -/
theorem isInlineEntry_iff (h : inlineOk w record repositoryDid o) :
    isInlineEntry o ↔ isString (o.lookup "cid") := by
  obtain ⟨hkey, hsignature⟩ := shape_of_inlineOk h
  rw [isInlineEntry, hkey, hsignature, Bool.true_and, Bool.and_true]

theorem marketInline_eq (o : RecordMap) : Market.isInlineEntry (.object o)
    = (isString (o.lookup "key") && hasSignature o && (field (some o) "uri").isNone) := rfl

/-- It is inline for the library if it has no `uri`. -/
theorem marketInline_iff (h : inlineOk w record repositoryDid o) :
    Market.isInlineEntry (.object o) ↔ field (some o) "uri" = none := by
  obtain ⟨hkey, hsignature⟩ := shape_of_inlineOk h
  rw [marketInline_eq, hkey, hsignature, Bool.true_and, Bool.true_and, Option.isNone_iff_eq_none]

/-- The library accepts an entry on its own when it is inline and verifies. -/
theorem signedBy_iff : signedBy w record repositoryDid (.object o) ↔
    Market.isInlineEntry (.object o) ∧ inlineOk w record repositoryDid o := by
  have hsignatures : signaturesOf (set "signatures" (.array [.object o]) record) = [.object o] := by
    rw [signaturesOf, lookup_set, if_pos rfl]
  rw [signedBy, verifyRecordSignatures]
  by_cases hinline : Market.isInlineEntry (.object o) = true
  · have hentries : inlineEntries (set "signatures" (.array [.object o]) record) = [o] := by
      rw [inlineEntries, hsignatures]
      exact List.filterMap_cons_some (if_pos hinline)
    rw [hentries, List.any_cons, List.any_nil, Bool.or_false, verifyInlineAttestation_set_signatures]
    exact (and_iff_right hinline).symm
  · have hentries : inlineEntries (set "signatures" (.array [.object o]) record) = [] := by
      rw [inlineEntries, hsignatures]
      exact List.filterMap_cons_none (if_neg hinline)
    rw [hentries, List.any_nil]
    exact ⟨fun hfalse => (by cases hfalse), fun hsigned => absurd hsigned.1 hinline⟩

theorem isStrongRefEntry_of_inline (h : Market.isInlineEntry (.object o)) :
    isStrongRefEntry (.object o) = none := by
  rw [marketInline_eq, Bool.and_eq_true, Option.isNone_iff_eq_none] at h
  obtain ⟨-, huri⟩ := h
  rw [field, Option.getD_some] at huri
  rw [isStrongRefEntry]
  cases hlookup : o.lookup "uri" with
  | none => rfl
  | some v =>
    rw [hlookup] at huri
    cases v <;> first | rfl | cases huri

/-- What is a ref to a proof has no key, and is no inline entry. -/
theorem not_inline_of_isStrongRefEntry {ref : String × String}
    (h : isStrongRefEntry (.object o) = some ref) : isInlineEntry o = false := by
  rw [isInlineEntry]
  cases hkey : o.lookup "key" with
  | none => rfl
  | some v =>
    cases v with
    | text key =>
      -- with a key the ref would need a text as `uri` and `cid`, and then is none
      rw [isStrongRefEntry, hkey] at h
      cases huri : o.lookup "uri" with
      | none =>
        rw [huri] at h
        cases h
      | some uri =>
        rw [huri] at h
        cases hcid : o.lookup "cid" with
        | none =>
          rw [hcid] at h
          cases uri <;> cases h
        | some cid =>
          rw [hcid] at h
          cases uri <;> first | cases h | (cases cid <;> cases h)
    | _ => rfl

/-- An entry that one of the two calls inline is verified when the endpoint does, and it
    verifies. -/
theorem entryOk_iff (h : isInlineEntry o ∨ Market.isInlineEntry (.object o)) (index : ℕ) :
    entryOk w record repositoryDid (.object o, index) ↔
      isInlineEntry o ∧ inlineOk w record repositoryDid o := by
  rw [entryOk]
  dsimp only
  by_cases hinline : isInlineEntry o = true
  · rw [if_pos hinline]
    exact (and_iff_right hinline).symm
  · rw [if_neg hinline, isStrongRefEntry_of_inline (h.resolve_left hinline)]
    exact ⟨fun hfalse => (by cases hfalse), fun hok => absurd hok.1 hinline⟩

/-- An entry that refers to a proof is verified when the proof binds. -/
theorem entryOk_of_isStrongRefEntry {v : Value} {uri cid : String}
    (h : isStrongRefEntry v = some (uri, cid)) (index : ℕ) :
    entryOk w record repositoryDid (v, index) = remoteOk w record repositoryDid index uri cid := by
  cases v with
  | object o =>
    rw [entryOk]
    dsimp only
    rw [not_inline_of_isStrongRefEntry h, if_neg Bool.false_ne_true, h]
  | _ => cases h

/-- What is verified is made with its key, or proved. -/
theorem entryOk_cases {v : Value} {index : ℕ} (h : entryOk w record repositoryDid (v, index)) :
    (∃ o, v = .object o ∧ inlineOk w record repositoryDid o) ∨
      ∃ uri cid, isStrongRefEntry v = some (uri, cid) ∧
        remoteOk w record repositoryDid index uri cid := by
  cases v with
  | object o =>
    rw [entryOk] at h
    dsimp only at h
    by_cases hinline : isInlineEntry o = true
    · rw [if_pos hinline] at h
      exact .inl ⟨o, rfl, h⟩
    · rw [if_neg hinline] at h
      cases href : isStrongRefEntry (.object o) with
      | none =>
        rw [href] at h
        cases h
      | some ref =>
        rw [href] at h
        exact .inr ⟨ref.1, ref.2, rfl, h⟩
  | _ => cases h

theorem mem_verifiedEntries {e : Value × ℕ} : e ∈ verifiedEntries w record repositoryDid ↔
    e ∈ (signaturesOf record).zipIdx ∧ entryOk w record repositoryDid e := List.mem_filter

/-- The answer is about the record at the URI, in the repository that the URI names. -/
theorem verifiedEntries_of_json {uri cidParam : Option String} {requested recordCid : String}
    {valid : Bool} {signatures : List Value}
    (h : createVerifyHandler w uri cidParam = .json requested recordCid valid signatures) :
    ∃ record, fetchRecord w none requested cidParam = .ok (record, recordCid) ∧
      (valid ↔ verifiedEntries w record (atUriAuthority requested) ≠ []) ∧
      signatures = (verifiedEntries w record (atUriAuthority requested)).map Prod.fst := by
  rw [createVerifyHandler] at h
  cases huri : uri.filter (· ≠ "") with
  | none =>
    rw [huri] at h
    cases h
  | some given =>
    rw [huri] at h
    cases hfetch : fetchRecord w none given cidParam with
    | error err =>
      simp only [hfetch] at h
      cases h
    | ok fetched =>
      simp only [hfetch] at h
      cases h
      refine ⟨fetched.1, hfetch, ?_, rfl⟩
      rw [Bool.not_eq_true', List.isEmpty_eq_false_iff]

theorem endpoint_agrees_iff (w : World) (record : RecordMap) (repositoryDid : String) :
    Agrees w record repositoryDid ↔ Plain w record repositoryDid := by
  constructor
  · intro h
    refine ⟨fun o ho hok => ?_, fun keysForDid hkeys hremote => ?_⟩
    · obtain ⟨index, hindex⟩ := List.mem_iff_getElem?.1 ho
      have hmem := List.mk_mem_zipIdx_iff_getElem?.2 hindex
      have hagree (hinline : isInlineEntry o ∨ Market.isInlineEntry (.object o)) :
          isInlineEntry o ↔ Market.isInlineEntry (.object o) := by
        have hiff := h.inline o index hmem hinline
        rw [mem_verifiedEntries, and_iff_right hmem, entryOk_iff hinline, signedBy_iff,
          and_iff_left hok, and_iff_left hok] at hiff
        exact hiff
      rw [← isInlineEntry_iff hok, ← marketInline_iff hok]
      exact ⟨fun hinline => (hagree (.inl hinline)).1 hinline,
        fun hinline => (hagree (.inr hinline)).2 hinline⟩
    · obtain ⟨⟨v, index⟩, he, uri, cid, href, hremote⟩ := hremote
      refine h.bound keysForDid hkeys (List.ne_nil_of_mem (mem_verifiedEntries.2 ⟨he, ?_⟩))
      rw [entryOk_of_isStrongRefEntry href]
      exact hremote
  · intro h
    refine ⟨fun o index hmem hinline => ?_, fun keysForDid hkeys hvalid => ?_⟩
    · have ho : .object o ∈ signaturesOf record := List.fst_mem_of_mem_zipIdx hmem
      rw [mem_verifiedEntries, and_iff_right hmem, entryOk_iff hinline, signedBy_iff]
      refine and_congr_left fun hok => ?_
      rw [isInlineEntry_iff hok, marketInline_iff hok]
      exact h.shape o ho hok
    · obtain ⟨⟨v, index⟩, hverified⟩ := List.exists_mem_of_ne_nil _ hvalid
      obtain ⟨he, hok⟩ := mem_verifiedEntries.1 hverified
      rcases entryOk_cases hok with ⟨o, rfl, hinline⟩ | ⟨uri, cid, href, hremote⟩
      · rw [inlineOk, hkeys, Bool.and_eq_true] at hinline
        exact .inl ⟨o, List.fst_mem_of_mem_zipIdx he, hinline⟩
      · exact h.backed keysForDid hkeys ⟨(v, index), he, uri, cid, href, hremote⟩

/-! ## Two records -/

/-- Every record is at Alice's server. -/
def sampleWorld (keysForDid : Option (String → List String)) (proof : RecordMap) : World where
  primitives := samplePrimitives
  keyResolver := parseDidKey samplePrimitives
  keysForDid := keysForDid
  didDocument _ _ := .ok (some (some "https://pds.example"))
  getRecord _ _ := .ok ⟨proof, "at://did:plc:alice/app.note/1", none⟩

def sampleRecord (entry : RecordMap) : RecordMap :=
  [("$type", .text "app.note"), ("signatures", .array [.object entry])]

/-- An entry that refers to a proof. -/
def sampleRefEntry : RecordMap :=
  [("uri", .text "at://did:plc:alice/app.proof/1"), ("cid", .text "1")]

def proofMetadata : RecordMap := [("$type", .text "app.proof")]

def sampleDeclared : String :=
  Requester.cidText (createAttestationCid sampleEncode (sampleRecord sampleRefEntry) proofMetadata
    "did:plc:alice" none)

/-- The proof has no signature. -/
def sampleProof : RecordMap := proofMetadata ++ [("cid", .text sampleDeclared)]

theorem not_published (entry : RecordMap) (did : String) :
    keyPublished (fun _ => []) entry did = false := by
  rw [keyPublished]
  cases issuerOf entry did <;> rfl

/-- An entry without a `cid` that the library accepts; and, where no key is published, a proof
    that nobody has signed. -/
theorem endpoint_not_agrees :
    ¬ Agrees (sampleWorld none []) (sampleRecord (sampleEntry aliceKey)) "did:plc:alice" ∧
      ¬ Agrees (sampleWorld (some fun _ => []) sampleProof) (sampleRecord sampleRefEntry)
        "did:plc:alice" := by
  constructor
  · intro h
    have hsigned : verifyRecordSignatures samplePrimitives (parseDidKey samplePrimitives) none
        (set "signatures" (.array [.object (sampleEntry aliceKey)])
          (sampleRecord (sampleEntry aliceKey))) "did:plc:alice" :=
      sample_signed (sampleKey_mem _) rfl rfl (by decide +kernel)
    have hverified := (h.inline (sampleEntry aliceKey) 0 (List.mem_singleton_self _) (.inr rfl)).2
      hsigned
    rw [mem_verifiedEntries, entryOk_iff (.inr rfl)] at hverified
    cases hverified.2.1
  · intro h
    obtain ⟨prepared, hpre, hplain⟩ : ∃ prepared, preimage (sampleRecord sampleRefEntry)
        proofMetadata "did:plc:alice" none = .ok prepared ∧ Cbor.plain (.object prepared) :=
      ⟨_, rfl, by decide +kernel⟩
    obtain ⟨bytes, hbytes, -⟩ := Cbor.decode_encode hplain
    have hencode : sampleEncode (.object prepared) = .ok bytes := (if_pos hplain).trans hbytes
    have hcid : createAttestationCid sampleEncode (sampleRecord sampleRefEntry) proofMetadata
        "did:plc:alice" none = .ok (cidForBytes bytes) :=
      bind_eq_ok.2 ⟨prepared, hpre, bind_eq_ok.2 ⟨bytes, hencode, rfl⟩⟩
    have hremote : verifyRemoteProof samplePrimitives (sampleRecord sampleRefEntry) "did:plc:alice"
        sampleProof :=
      verifyRemoteProof_of_cid rfl rfl hcid (congrArg Requester.cidText hcid)
    have hvalid : (.object sampleRefEntry, 0) ∈ verifiedEntries
        (sampleWorld (some fun _ => []) sampleProof) (sampleRecord sampleRefEntry)
        "did:plc:alice" :=
      mem_verifiedEntries.2 ⟨List.mem_singleton_self _, hremote⟩
    rcases h.bound _ rfl (List.ne_nil_of_mem hvalid) with ⟨o, -, -, hkey⟩ |
      ⟨e, -, uri, cid, proof, -, hfetch, -, hsigned⟩
    · cases hkey.symm.trans (not_published o _)
    · obtain ⟨o, -, hsigned⟩ := List.any_eq_true.1 hsigned
      cases (Bool.and_eq_true _ _ ▸ hsigned).2.symm.trans (not_published o _)

end ComputeContract.Market.Endpoint
