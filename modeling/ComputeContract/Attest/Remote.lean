import ComputeContract.Attest.Binding
import ComputeContract.Cbor.Canonical
import ComputeContract.Util.Base32

/-!
# Remote attestations

A remote attestation is a proof record, and a reference to it among the signatures of the record.
The CID in the proof is computed again from what the proof itself says.

* `verify`, of the port, leaves out `cid` and `signature`; `verifyRemoteProof`, of the market
  library, leaves out `signatures` too;
* `Attestation.sign` signs all of its metadata, and writes the issuer, the role and the status;
* `createRemoteProofRecord` adds `signatures` to what it has signed.
-/

namespace ComputeContract.Attest

open AssocList Cbor

/-! ## Canonical forms -/

/-- Values with the same canonical form have the same encoding. -/
def EncodesAlike (encode : Value → Except String Bytes) : Prop :=
  ∀ v v', canon v = canon v' → encode v = encode v'

/-- Objects with the same fields have the same canonical form. -/
theorem canon_eq_of_lookup {o o' : RecordMap} (hn : (keys o).Nodup) (hn' : (keys o').Nodup)
    (h : ∀ name, (o.lookup name).map canon = (o'.lookup name).map canon) :
    canon (.object o) = canon (.object o') := by
  have hkeys : (keys (canonFields o)).Nodup := by rwa [keys_canonFields]
  have hkeys' : (keys (canonFields o')).Nodup := by rwa [keys_canonFields]
  have hperm : (canonFields o).Perm (canonFields o') := by
    refine (List.perm_ext_iff_of_nodup hkeys.of_map hkeys'.of_map).2 fun e => ?_
    rw [mem_iff_lookup hkeys, mem_iff_lookup hkeys', lookup_canonFields, lookup_canonFields, h]
  rw [canon, canon, sortKeys_eq_of_perm hkeys hperm]

/-! ## The CID of other metadata -/

/-- The same metadata, but for what is not signed of it. -/
def SameMetadata (metadata metadata' : RecordMap) : Prop :=
  ∀ name, name ≠ "cid" → name ≠ "signature" → name ≠ "repository" →
    (metadata.lookup name).map canon = (metadata'.lookup name).map canon

section
variable {encode : Value → Except String Bytes} {record metadata metadata' prepared : RecordMap}
  {repository : String} {fields : Option (List String)} {cid cid' : Cid}

/-- Whether a field is copied does not depend on what has been copied. -/
theorem pickField_ok {prepared' init' : RecordMap} {f : String}
    (h : pickField record prepared f = .ok prepared') :
    ∃ prepared', pickField record init' f = .ok prepared' := by
  unfold pickField at h ⊢
  split_ifs with hf
  · exact ⟨_, rfl⟩
  · rw [if_neg hf] at h
    cases hv : property record f with
    | own v => exact ⟨_, rfl⟩
    | inherited =>
      rw [hv] at h
      cases h
    | absent => exact ⟨_, rfl⟩

theorem foldlM_pickField_ok {fields : List String} {init init' : RecordMap}
    (h : fields.foldlM (pickField record) init = .ok prepared) :
    ∃ prepared', fields.foldlM (pickField record) init' = .ok prepared' := by
  induction fields generalizing init init' with
  | nil => exact ⟨init', rfl⟩
  | cons f fields ih =>
    obtain ⟨next, hnext, h⟩ := bind_eq_ok.1 h
    obtain ⟨next', hnext'⟩ := pickField_ok hnext
    obtain ⟨prepared', hprep'⟩ := ih h
    exact ⟨prepared', bind_eq_ok.2 ⟨next', hnext', hprep'⟩⟩

theorem preimage_ok (h : preimage record metadata repository fields = .ok prepared)
    (htype : (typeOf metadata').isSome) :
    ∃ prepared', preimage record metadata' repository fields = .ok prepared' := by
  obtain ⟨t, ht, -, hprep⟩ := preimage_eq_ok h
  obtain ⟨m, hm⟩ := Option.isSome_iff_exists.1 htype
  simp only [preimage, ht, hm]
  cases fields with
  | none => exact ⟨_, rfl⟩
  | some fields => exact foldlM_pickField_ok hprep

/-- What is signed is the same for the same metadata, and for any metadata if the record takes
    their place. -/
theorem canon_prepared (hr : (keys record).Nodup) (hm : (keys metadata).Nodup)
    (hm' : (keys metadata').Nodup) {prepared' : RecordMap}
    (hprep : preimage record metadata repository fields = .ok prepared)
    (hprep' : preimage record metadata' repository fields = .ok prepared')
    (h : OverridesSig record fields ∨ SameMetadata metadata metadata') :
    canon (.object prepared) = canon (.object prepared') := by
  obtain ⟨t, ht, -, hrec⟩ := preimage_eq_ok hprep
  obtain ⟨t', ht', -, hrec'⟩ := preimage_eq_ok hprep'
  obtain rfl := Option.some.inj (ht.symm.trans ht')
  refine canon_eq_of_lookup (nodup_prepareRecord hr hrec) (nodup_prepareRecord hr hrec') ?_
  intro name
  by_cases hsig : OverridesSig record fields
  · obtain ⟨hmem, hkey⟩ := hsig
    cases fields with
    | none => exact absurd hmem List.not_mem_nil
    | some fields =>
      rw [lookup_foldlM_pickField fields hrec, lookup_foldlM_pickField fields hrec']
      by_cases hname : name = "$sig"
      · obtain ⟨v, hv⟩ := Option.isSome_iff_exists.1 (lookup_isSome_iff.2 hkey)
        have hcopied : name ∈ fields ∧ name ≠ "signatures" := hname ▸ ⟨hmem, by decide⟩
        rw [if_pos hcopied, if_pos hcopied, hname, hv, Option.some_or, Option.some_or]
      · simp only [lookup_cons, if_neg hname]
  · have hsame := h.resolve_left hsig
    rw [lookup_prepareRecord (lookup_of_typeOf ht) hsig hrec,
      lookup_prepareRecord (lookup_of_typeOf ht) hsig hrec']
    split_ifs with hname
    · -- The prepared metadata: the repository, and what is not left out.
      refine congrArg some (canon_eq_of_lookup (nodup_prepareMetadata hm _)
        (nodup_prepareMetadata hm' _) fun field => ?_)
      rw [lookup_prepareMetadata, lookup_prepareMetadata]
      split_ifs with hrepo hleft
      · rfl
      · rfl
      · exact hsame field (fun h => hleft (.inl h)) (fun h => hleft (.inr h)) hrepo
    · rfl

theorem cid_eq_of_toString_eq
    (h : createAttestationCid encode record metadata repository fields = .ok cid)
    (h' : createAttestationCid encode record metadata' repository fields = .ok cid')
    (hcid : cid.toString = cid'.toString) : cid = cid' := by
  obtain ⟨_, -, h⟩ := bind_eq_ok.1 h
  obtain ⟨_, -, h⟩ := bind_eq_ok.1 h
  obtain ⟨_, -, h'⟩ := bind_eq_ok.1 h'
  obtain ⟨_, -, h'⟩ := bind_eq_ok.1 h'
  obtain rfl := Except.ok.inj h
  obtain rfl := Except.ok.inj h'
  exact congrArg cidFromDigest (toString_cidFromDigest_inj.1 hcid)

/-- When other metadata has the same CID. -/
theorem cid_eq_iff (hencode : EncodesInjectively encode) (halike : EncodesAlike encode)
    (hr : (keys record).Nodup) (hm : (keys metadata).Nodup) (hm' : (keys metadata').Nodup)
    (hfree : HashedApart encode ⟨record, metadata, repository, fields, hr, hm⟩
      ⟨record, metadata', repository, fields, hr, hm'⟩)
    (hcid : createAttestationCid encode record metadata repository fields = .ok cid) :
    createAttestationCid encode record metadata' repository fields = .ok cid ↔
      (typeOf metadata').isSome ∧ (OverridesSig record fields ∨ SameMetadata metadata metadata') := by
  obtain ⟨prepared, hprep, hcid'⟩ := bind_eq_ok.1 hcid
  constructor
  · intro h
    obtain ⟨prepared', hprep', -⟩ := bind_eq_ok.1 h
    obtain ⟨-, -, htype, -⟩ := preimage_eq_ok hprep'
    refine ⟨htype, or_iff_not_imp_left.2 fun hsig => ?_⟩
    exact (agree_of_cid_eq hencode hfree hsig hsig hcid h).metadata
  · rintro ⟨htype, hsame⟩
    obtain ⟨prepared', hprep'⟩ := preimage_ok hprep htype
    refine bind_eq_ok.2 ⟨prepared', hprep', ?_⟩
    rw [createDagCborCid] at hcid' ⊢
    rwa [← halike _ _ (canon_prepared hr hm hm' hprep hprep' hsame)]

end

/-! ## What `verify` accepts -/

/-- A signature of a record refers to a proof. -/
structure Refers (record : RecordMap) (resolve : String → Except String (Option RecordMap))
    (index : ℕ) (proof : RecordMap) : Prop where
  exists_entry : ∃ entry uri, (signaturesOf record)[index]? = some (.object entry) ∧
    typeOf entry = some STRONG_REF_NSID ∧ entry.lookup "uri" = some (.text uri) ∧ uri ≠ "" ∧
      resolve uri = .ok (some proof)

/-- Whether `verify` accepts the signature at an index, of any role. -/
def Accepts (P : Primitives) (record : RecordMap) (repository : String)
    (resolve : String → Except String (Option RecordMap)) (fields : Option (List String))
    (index : ℕ) : Prop :=
  ∃ type, ⟨index, type, true, none⟩ ∈
    verify P ⟨record, repository, defaultKeyResolver P, some resolve, fields, none⟩

section
variable {P : Primitives} {record proof entry : RecordMap} {repository uri : String}
  {resolve : String → Except String (Option RecordMap)} {fields : Option (List String)} {index : ℕ}

theorem cidMismatch_eq_false {computed : Cid} :
    cidMismatch entry computed = false ↔ entry.lookup "cid" = some (.text computed.toString) := by
  rw [cidMismatch]
  split
  · next declared hdeclared =>
    rw [hdeclared, decide_eq_false_iff_not, not_not, Option.some.injEq, Value.text.injEq]
  · next hno => exact iff_of_false Bool.noConfusion (hno _)

/-- A proof is accepted if its CID is computed again from what it says. -/
theorem verifyRemote_eq_ok (huri : entry.lookup "uri" = some (.text uri)) (hne : uri ≠ "")
    (hresolve : resolve uri = .ok (some proof)) :
    verifyRemote P ⟨record, repository, defaultKeyResolver P, some resolve, fields, none⟩ entry =
        .ok true ↔
      ∃ cid, createAttestationCid P.encode record proof repository fields = .ok cid ∧
        proof.lookup "cid" = some (.text cid.toString) := by
  simp only [verifyRemote, huri, if_neg hne, ok_bind, hresolve, if_true]
  constructor
  · intro h
    obtain ⟨cid, hcid, h⟩ := bind_eq_ok.1 h
    split_ifs at h with hmismatch
    exact ⟨cid, hcid, cidMismatch_eq_false.1 (Bool.eq_false_iff.2 hmismatch)⟩
  · rintro ⟨cid, hcid, hdeclared⟩
    refine bind_eq_ok.2 ⟨cid, hcid, ?_⟩
    rw [cidMismatch_eq_false.2 hdeclared]
    rfl

theorem index_verifyEntry {opts : VerifyOptions} {i : ℕ} {raw : Value} {r : VerifyEntryResult}
    (h : verifyEntry P opts i raw = some r) : r.index = i := by
  unfold verifyEntry at h
  split at h
  · split at h
    · rw [← Option.some.inj h]
    · split_ifs at h <;> split at h <;> first | rw [← Option.some.inj h] | cases h
  · rw [← Option.some.inj h]

theorem mem_verify {opts : VerifyOptions} {r : VerifyEntryResult} :
    r ∈ verify P opts ↔ ∃ raw, (signaturesOf opts.record)[r.index]? = some raw ∧
      verifyEntry P opts r.index raw = some r := by
  rw [verify, List.mem_filterMap]
  constructor
  · rintro ⟨⟨raw, i⟩, hmem, hentry⟩
    obtain rfl := index_verifyEntry hentry
    exact ⟨raw, List.mem_zipIdx_iff_getElem?.1 hmem, hentry⟩
  · rintro ⟨raw, hmem, hentry⟩
    exact ⟨(raw, r.index), List.mem_zipIdx_iff_getElem?.2 hmem, hentry⟩

theorem accepts_iff (h : Refers record resolve index proof) :
    Accepts P record repository resolve fields index ↔
      ∃ cid, createAttestationCid P.encode record proof repository fields = .ok cid ∧
        proof.lookup "cid" = some (.text cid.toString) := by
  obtain ⟨entry, uri, hentry, htype, huri, hne, hresolve⟩ := h
  rw [← verifyRemote_eq_ok huri hne hresolve, Accepts]
  simp only [mem_verify, hentry, Option.some.injEq, exists_eq_left', verifyEntry, htype, if_true]
  split
  · next hok => simp [hok]
  · next hok => simp [hok]
  · next hok => simp [hok]

end

/-! ## Proofs that are written -/

/-- The metadata that a proof is made for. -/
def Attestation.remoteMetadata (a : Attestation) (extraMetadata : Option RecordMap) : RecordMap :=
  setAll (a.attributes extraMetadata) [("$type", .text a.proofType)]

/-- The record that `writeProof` writes. -/
def Attestation.proofRecord (a : Attestation) (contentCid : String) (metadata : RecordMap) :
    RecordMap :=
  [("$type", .text a.proofType), ("cid", .text contentCid)] ++
    ["issuer", "role", "status"].filterMap fun name =>
      (field (some metadata) name).map fun v => (name, v)

/-- The metadata that a proof keeps: the issuer, the role and the status; what is not signed is
    not missed. -/
def Attestation.Kept (a : Attestation) (extraMetadata : RecordMap) : Prop :=
  ∀ name v, extraMetadata.lookup name = some v →
    name ∈ ["issuer", "role", "cid", "signature", "repository"] ∨
      name = "status" ∧ v ≠ .undefined ∨ name = "issuedAt" ∧ v = .undefined ∨
      name = "$type" ∧ v = .text a.proofType

theorem keys_filterMap_map (entries : List (String × Option Value)) :
    (keys (entries.filterMap fun e => e.2.map fun v => (e.1, v))).Sublist (keys entries) := by
  induction entries with
  | nil => exact List.Sublist.slnil
  | cons e entries ih =>
    obtain ⟨key, v⟩ := e
    cases v with
    | none => exact ih.cons key
    | some v => exact ih.cons_cons key

/-- Looking up among the pairs that are there. -/
theorem lookup_filterMap_map {entries : List (String × Option Value)} (h : (keys entries).Nodup)
    (name : String) :
    (entries.filterMap fun e => e.2.map fun v => (e.1, v)).lookup name =
      (entries.lookup name).join := by
  induction entries with
  | nil => rfl
  | cons e entries ih =>
    obtain ⟨key, v⟩ := e
    obtain ⟨hkey, hnodup⟩ := List.nodup_cons.1 h
    rw [lookup_cons]
    cases v with
    | none =>
      rw [List.filterMap_cons_none rfl, ih hnodup]
      split_ifs with hname
      · rw [hname, lookup_eq_none_iff.2 hkey]
        rfl
      · rfl
    | some v =>
      change ((key, v) :: entries.filterMap _).lookup name = _
      rw [lookup_cons, ih hnodup]
      split_ifs <;> rfl

theorem lookup_filterMap_names (names : List String) (f : String → Option Value) (name : String) :
    (names.filterMap fun name => (f name).map fun v => (name, v)).lookup name =
      if name ∈ names then f name else none := by
  induction names with
  | nil => rfl
  | cons name' names ih =>
    cases hf : f name' with
    | none =>
      rw [List.filterMap_cons_none (by rw [hf]; rfl), ih]
      by_cases hname : name = name'
      · simp [hname, hf]
      · simp [hname]
    | some v =>
      rw [List.filterMap_cons_some (by rw [hf]; rfl), lookup_cons, ih]
      by_cases hname : name = name'
      · simp [hname, hf]
      · simp [hname]

section
variable {P : Primitives} {a : Attestation} {agent : Agent} {record extra : RecordMap}
  {repository contentCid : String} {fields : Option (List String)} {ref : Value}

theorem nodup_keys_attributes (hn : (keys extra).Nodup) :
    (keys (a.attributes (some extra))).Nodup := by
  rw [Attestation.attributes, keys_append]
  have hfirst := keys_filterMap_map [("issuer", orString (field (some extra) "issuer") a.issuer),
    ("issuedAt", field (some extra) "issuedAt"),
    ("role", orString (field (some extra) "role") a.role)]
  refine (hfirst.nodup (by simp only [keys_cons, keys_nil]; decide)).append ?_ ?_
  · rw [Option.getD_some, keys_filter fun name => decide (name ∉ ["issuer", "issuedAt", "role"])]
    exact hn.filter _
  · intro name hname hname'
    rw [Option.getD_some, keys_filter fun name => decide (name ∉ ["issuer", "issuedAt", "role"])]
      at hname'
    exact of_decide_eq_true (List.mem_filter.1 hname').2 (hfirst.subset hname)

/-- The metadata under each name. -/
theorem lookup_remoteMetadata (hn : (keys extra).Nodup) (name : String) :
    (a.remoteMetadata (some extra)).lookup name =
      if name = "issuer" then orString (field (some extra) "issuer") a.issuer
      else if name = "issuedAt" then field (some extra) "issuedAt"
      else if name = "role" then orString (field (some extra) "role") a.role
      else if name = "$type" then (extra.lookup "$type").or (some (.text a.proofType))
      else extra.lookup name := by
  rw [Attestation.remoteMetadata, lookup_setAll, lookup_reverse (nodup_keys_attributes hn),
    Attestation.attributes, List.lookup_append,
    lookup_filterMap_map (by simp only [keys_cons, keys_nil]; decide), Option.getD_some,
    lookup_filter fun name => decide (name ∉ ["issuer", "issuedAt", "role"])]
  simp only [lookup_cons, List.lookup_nil]
  split_ifs <;> simp_all

theorem lookup_proofRecord (metadata : RecordMap) (name : String) :
    (a.proofRecord contentCid metadata).lookup name =
      if name = "$type" then some (.text a.proofType)
      else if name = "cid" then some (.text contentCid)
      else if name ∈ ["issuer", "role", "status"] then field (some metadata) name
      else none := by
  rw [Attestation.proofRecord, List.lookup_append, lookup_filterMap_names]
  simp only [lookup_cons, List.lookup_nil]
  split_ifs <;> rfl


/-- With an agent, what is signed is written, and the reference is to what is written. -/
theorem sign_eq_ok {signatureType : Option String} {extraMetadata : Option RecordMap}
    (hagent : a.agent = some agent)
    (h : a.sign P record repository signatureType extraMetadata fields = .ok ref) :
    ∃ cid data uri proofCid, createAttestationCid P.encode record (a.remoteMetadata extraMetadata)
        repository fields = .ok cid ∧
      agent.createRecord a.proofType (a.proofRecord cid.toString (a.remoteMetadata extraMetadata)) =
        .ok data ∧
      field data "uri" = some (.text uri) ∧
      ref = .object [("$type", .text STRONG_REF_NSID), ("uri", .text uri),
        ("cid", .text proofCid)] := by
  simp only [Attestation.sign, hagent] at h
  obtain ⟨cid, hcid, h⟩ := bind_eq_ok.1 h
  rw [Attestation.writeProof] at h
  split_ifs at h with hdid
  · cases h
  · obtain ⟨data, hdata, h⟩ := bind_eq_ok.1 (show (agent.createRecord _ _ >>= _) = _ from h)
    split at h
    · next uri proofCid huri _ =>
      exact ⟨cid, data, uri, proofCid, hcid, hdata, huri, (Except.ok.inj h).symm⟩
    · cases h

theorem field_eq_lookup {o : RecordMap} {name : String} (h : o.lookup name ≠ some .undefined) :
    field (some o) name = o.lookup name := by
  unfold field
  split
  · next hundefined => exact absurd hundefined h
  · rfl

theorem field_eq_none {o : RecordMap} {name : String} :
    field (some o) name = none ↔ ∀ v, o.lookup name = some v → v = .undefined := by
  unfold field
  rw [Option.getD_some]
  split
  · next h => exact iff_of_true rfl fun v hv => Option.some.inj (hv.symm.trans h)
  · next hne =>
    constructor
    · intro h v hv
      rw [h] at hv
      cases hv
    · intro h
      by_contra hsome
      obtain ⟨v, hv⟩ := Option.ne_none_iff_exists'.1 hsome
      exact hne (h v hv ▸ hv)

theorem field_ne_undefined {o : Option RecordMap} {name : String} :
    field o name ≠ some .undefined := by
  unfold field
  split
  · exact fun h => by cases h
  · next hne => exact fun h => hne h

theorem orString_ne_undefined {v : Option Value} {s : Option String} (h : v ≠ some .undefined) :
    orString v s ≠ some .undefined := by
  unfold orString
  split
  · cases s <;> exact fun h => by cases h
  · cases s <;> exact fun h => by cases h
  · exact h

theorem canon_eq_text {v : Value} {s : String} : canon v = .text s ↔ v = .text s := by
  cases v <;> simp [canon]

/-- What a proof says under a name. -/
theorem lookup_proofRecord_iff (hn : (keys extra).Nodup) {name : String} (hcid : name ≠ "cid")
    (hsig : name ≠ "signature") (hrepo : name ≠ "repository") :
    ((a.remoteMetadata (some extra)).lookup name).map canon =
        ((a.proofRecord contentCid (a.remoteMetadata (some extra))).lookup name).map canon ↔
      ∀ v, extra.lookup name = some v → name = "issuer" ∨ name = "role" ∨
        name = "status" ∧ v ≠ .undefined ∨ name = "issuedAt" ∧ v = .undefined ∨
        name = "$type" ∧ v = .text a.proofType := by
  have hmetadata := @lookup_remoteMetadata a extra hn name
  have hproof := @lookup_proofRecord a contentCid (a.remoteMetadata (some extra)) name
  rw [if_neg hcid] at hproof
  by_cases hkept : name = "issuer" ∨ name = "role"
  · -- Copied from the metadata, where they are never undefined.
    have hne : (a.remoteMetadata (some extra)).lookup name ≠ some .undefined := by
      rw [hmetadata]
      rcases hkept with rfl | rfl <;> exact orString_ne_undefined field_ne_undefined
    have hlist : name ≠ "$type" ∧ name ∈ ["issuer", "role", "status"] := by
      rcases hkept with rfl | rfl <;> decide
    rw [hproof, if_neg hlist.1, if_pos hlist.2, field_eq_lookup hne]
    exact iff_of_true rfl fun v _ => hkept.elim .inl fun h => .inr (.inl h)
  · rw [not_or] at hkept
    rw [if_neg hkept.1, if_neg hkept.2] at hmetadata
    by_cases hissued : name = "issuedAt"
    · subst hissued
      have hnone : (a.proofRecord contentCid (a.remoteMetadata (some extra))).lookup "issuedAt" =
          none := hproof
      rw [hmetadata, if_pos rfl, hnone, Option.map_none, Option.map_eq_none_iff, field_eq_none]
      simp
    · rw [if_neg hissued] at hmetadata
      by_cases htype : name = "$type"
      · subst htype
        simp only [hmetadata, hproof, if_true]
        cases hv : extra.lookup "$type" with
        | none => simp
        | some v => simp [canon_eq_text, canon]
      · rw [if_neg htype] at hmetadata hproof
        by_cases hstatus : name = "status"
        · subst hstatus
          have hfield : field (some (a.remoteMetadata (some extra))) "status" =
              field (some extra) "status" := by
            simp only [field, Option.getD_some, hmetadata]
          rw [hmetadata, hproof, if_pos (by decide), hfield]
          by_cases hundefined : extra.lookup "status" = some .undefined
          · rw [field_eq_none.2 fun v hv => Option.some.inj (hv.symm.trans hundefined), hundefined]
            simp
          · rw [field_eq_lookup hundefined]
            refine iff_of_true rfl fun v hv => .inr (.inr (.inl ⟨rfl, fun h => hundefined ?_⟩))
            rw [hv, h]
        · have hlist : name ∉ ["issuer", "role", "status"] := by simp [hkept, hstatus]
          rw [hmetadata, hproof, if_neg hlist]
          simp only [hkept, hstatus, hissued, htype, false_and, or_self, imp_false]
          cases extra.lookup name with
          | none => simp
          | some v => simp

/-- A proof says the same as the metadata it is made for, if no more of it is signed than is
    kept. -/
theorem sameMetadata_iff (hn : (keys extra).Nodup) :
    SameMetadata (a.remoteMetadata (some extra))
        (a.proofRecord contentCid (a.remoteMetadata (some extra))) ↔ a.Kept extra := by
  simp only [Attestation.Kept, List.mem_cons, List.not_mem_nil, or_false]
  constructor
  · intro h name v hv
    by_cases hleft : name = "cid" ∨ name = "signature" ∨ name = "repository"
    · exact .inl (.inr (.inr hleft))
    · rw [not_or, not_or] at hleft
      have := (lookup_proofRecord_iff hn hleft.1 hleft.2.1 hleft.2.2).1
        (h name hleft.1 hleft.2.1 hleft.2.2) v hv
      tauto
  · intro h name hcid hsig hrepo
    refine (lookup_proofRecord_iff hn hcid hsig hrepo).2 fun v hv => ?_
    have := h name v hv
    tauto

theorem nodup_remoteMetadata (a : Attestation) (extraMetadata : Option RecordMap) :
    (keys (a.remoteMetadata extraMetadata)).Nodup :=
  nodup_keys_setAll _ (by simp [keys])

theorem nodup_proofRecord (a : Attestation) (contentCid : String) (metadata : RecordMap) :
    (keys (a.proofRecord contentCid metadata)).Nodup := by
  have hnames := keys_filterMap_map [("issuer", field (some metadata) "issuer"),
    ("role", field (some metadata) "role"), ("status", field (some metadata) "status")]
  have hsub : (keys (a.proofRecord contentCid metadata)).Sublist
      ["$type", "cid", "issuer", "role", "status"] := (hnames.cons_cons _).cons_cons _
  exact hsub.nodup (by decide)

/-- No extra metadata is none at all. -/
theorem remoteMetadata_getD (extraMetadata : Option RecordMap) :
    a.remoteMetadata extraMetadata = a.remoteMetadata (some (extraMetadata.getD [])) := by
  cases extraMetadata <;> rfl

/-- What the agent writes is what the resolver finds. -/
def Finds (agent : Agent) (resolve : String → Except String (Option RecordMap))
    (collection : String) (proof : RecordMap) : Prop :=
  ∀ data uri, agent.createRecord collection proof = .ok data →
    field data "uri" = some (.text uri) → uri ≠ "" ∧ resolve uri = .ok (some proof)

/-- The blocks that are hashed for two sets of metadata of a record do not collide. -/
def MetadataApart (P : Primitives) (record metadata metadata' : RecordMap) (repository : String)
    (fields : Option (List String)) : Prop :=
  ∀ bytes bytes',
    (preimage record metadata repository fields >>= fun r => P.encode (.object r)) = .ok bytes →
    (preimage record metadata' repository fields >>= fun r => P.encode (.object r)) = .ok bytes' →
      sha256 bytes = sha256 bytes' → bytes = bytes'

theorem typeOf_proofRecord {metadata : RecordMap} :
    (typeOf (a.proofRecord contentCid metadata)).isSome ↔ a.proofType ≠ "" := by
  rw [typeOf, lookup_proofRecord, if_pos rfl]
  by_cases h : a.proofType = "" <;> simp [h]

/-- When the proof that is written is accepted. -/
theorem accepts_signed_iff (hencode : EncodesInjectively P.encode) (halike : EncodesAlike P.encode)
    {signatureType : Option String} {extraMetadata : Option RecordMap}
    {resolve : String → Except String (Option RecordMap)} {entries : List Value} {index : ℕ}
    (hagent : a.agent = some agent) (hr : (keys record).Nodup)
    (hextra : (keys (extraMetadata.getD [])).Nodup)
    (hwritten : ∀ cid, createAttestationCid P.encode record (a.remoteMetadata extraMetadata)
        repository fields = .ok cid →
      Finds agent resolve a.proofType
          (a.proofRecord cid.toString (a.remoteMetadata extraMetadata)) ∧
        MetadataApart P record (a.remoteMetadata extraMetadata)
          (a.proofRecord cid.toString (a.remoteMetadata extraMetadata)) repository fields)
    (hsign : a.sign P record repository signatureType extraMetadata fields = .ok ref)
    (hentry : entries[index]? = some ref) :
    Accepts P (set "signatures" (.array entries) record) repository resolve fields index ↔
      a.proofType ≠ "" ∧ (OverridesSig record fields ∨ a.Kept (extraMetadata.getD [])) := by
  obtain ⟨cid, data, uri, proofCid, hcid, hdata, huri, rfl⟩ := sign_eq_ok hagent hsign
  obtain ⟨hfinds, hfree⟩ := hwritten cid hcid
  obtain ⟨hne, hresolve⟩ := hfinds data uri hdata huri
  have hrefers : Refers (set "signatures" (.array entries) record) resolve index
      (a.proofRecord cid.toString (a.remoteMetadata extraMetadata)) :=
    ⟨_, uri, by rwa [signaturesOf_set], rfl, rfl, hne, hresolve⟩
  have hiff := cid_eq_iff hencode halike hr (nodup_remoteMetadata a extraMetadata)
    (nodup_proofRecord a cid.toString _) hfree hcid
  have hdeclared : (a.proofRecord cid.toString (a.remoteMetadata extraMetadata)).lookup "cid" =
      some (.text cid.toString) := lookup_proofRecord _ _
  rw [accepts_iff hrefers, createAttestationCid_set_signatures, ← typeOf_proofRecord,
    ← sameMetadata_iff hextra, ← remoteMetadata_getD, ← hiff, hdeclared]
  constructor
  · rintro ⟨cid', hcid', heq⟩
    obtain rfl := cid_eq_of_toString_eq hcid hcid' (Value.text.inj (Option.some.inj heq))
    exact hcid'
  · intro h
    exact ⟨cid, h, rfl⟩

end

/-! ## The two verifiers -/

section
variable {P : Primitives} {record proof body : RecordMap} {did : String}

theorem prepareMetadata_erase (proof : RecordMap) (did : String) :
    prepareMetadata (erase "signatures" (erase "signature" (erase "cid" proof))) did =
      prepareMetadata (erase "signatures" proof) did := by
  simp only [prepareMetadata, erase, List.filter_filter]
  congr 1
  refine List.filter_congr fun e _ => ?_
  rw [Bool.eq_iff_iff]
  simp only [Bool.and_eq_true]
  tauto

/-- The market library computes the CID without the signatures of the proof. -/
theorem verifyRemoteProof_iff : verifyRemoteProof P record did proof = true ↔
    ∃ cid, createAttestationCid P.encode record (erase "signatures" proof) did none = .ok cid ∧
      proof.lookup "cid" = some (.text cid.toString) := by
  have htype : typeOf (erase "signatures" (erase "signature" (erase "cid" proof))) =
      typeOf (erase "signatures" proof) := by
    simp only [typeOf, lookup_erase]
    rfl
  have hcid : createAttestationCid P.encode record
      (erase "signatures" (erase "signature" (erase "cid" proof))) did none =
        createAttestationCid P.encode record (erase "signatures" proof) did none :=
    createAttestationCid_congr (preimage_congr htype (prepareMetadata_erase proof did))
  rw [verifyRemoteProof]
  split
  · next declared hdeclared =>
    simp only [hcid, hdeclared]
    split
    · next cid hok =>
      simp only [hok, decide_eq_true_eq, Except.ok.injEq, exists_eq_left', Option.some.injEq,
        Value.text.injEq]
      exact eq_comm
    · next hok => simp [hok]
  · next hno =>
    refine iff_of_false Bool.noConfusion ?_
    rintro ⟨cid, -, h⟩
    exact hno _ h

/-- Whether the two verifiers give one answer for a proof, whichever signature of the record refers
    to it. -/
def Agrees (P : Primitives) (record : RecordMap) (did : String) (proof : RecordMap) : Prop :=
  ∀ entries resolve index, Refers (set "signatures" (.array entries) record) resolve index proof →
    (Accepts P (set "signatures" (.array entries) record) did resolve none index ↔
      verifyRemoteProof P (set "signatures" (.array entries) record) did proof = true)

/-- The answers are those for the CIDs with the signatures of the proof, and without them. -/
theorem agrees_iff_declares : Agrees P record did proof ↔
    ((∃ cid, createAttestationCid P.encode record proof did none = .ok cid ∧
        proof.lookup "cid" = some (.text cid.toString)) ↔
      ∃ cid, createAttestationCid P.encode record (erase "signatures" proof) did none = .ok cid ∧
        proof.lookup "cid" = some (.text cid.toString)) := by
  constructor
  · intro h
    let entry : RecordMap := [("$type", .text STRONG_REF_NSID), ("uri", .text "at://proof")]
    have hrefers : Refers (set "signatures" (.array [.object entry]) record)
        (fun _ => .ok (some proof)) 0 proof :=
      ⟨entry, "at://proof", by rw [signaturesOf_set]; rfl, by decide, rfl, by decide, rfl⟩
    have hagree := h _ _ _ hrefers
    rwa [accepts_iff hrefers, verifyRemoteProof_iff, createAttestationCid_set_signatures,
      createAttestationCid_set_signatures] at hagree
  · intro h entries resolve index hrefers
    rwa [accepts_iff hrefers, verifyRemoteProof_iff, createAttestationCid_set_signatures,
      createAttestationCid_set_signatures]

theorem erase_comm (k k' : String) (m : RecordMap) :
    erase k (erase k' m) = erase k' (erase k m) := by
  rw [erase, erase, erase, erase, List.filter_filter, List.filter_filter]
  exact List.filter_congr fun e _ => Bool.and_comm _ _

/-- The proof without its CID has the same CID. -/
theorem preimage_erase_cid (record metadata : RecordMap) (did : String) :
    preimage record (erase "cid" metadata) did none = preimage record metadata did none := by
  refine preimage_congr ?_ ?_
  · rw [typeOf, lookup_erase]
    rfl
  · have hgone : "cid" ∉ keys (erase "cid" metadata) :=
      lookup_eq_none_iff.1 (by rw [lookup_erase, if_pos rfl])
    rw [prepareMetadata, erase_of_not_mem hgone]
    rfl

theorem preimage_erase_signatures_cid (record metadata : RecordMap) (did : String) :
    preimage record (erase "signatures" (erase "cid" metadata)) did none =
      preimage record (erase "signatures" metadata) did none := by
  rw [erase_comm, preimage_erase_cid]

theorem metadataApart_erase_cid : MetadataApart P record (erase "signatures" (erase "cid" proof))
      (erase "cid" proof) did none ↔
    MetadataApart P record (erase "signatures" proof) proof did none := by
  rw [MetadataApart, MetadataApart, preimage_erase_cid, preimage_erase_signatures_cid]

/-- With signatures in a proof, at most one of the verifiers accepts it. -/
theorem not_agree {cid : Cid} (hencode : EncodesInjectively P.encode)
    (hr : (keys record).Nodup) (hn : (keys proof).Nodup)
    (hfree : MetadataApart P record (erase "signatures" proof) proof did none)
    (hmem : "signatures" ∈ keys proof) (hdeclared : proof.lookup "cid" = some (.text cid.toString))
    (h : createAttestationCid P.encode record proof did none = .ok cid ∨
      createAttestationCid P.encode record (erase "signatures" proof) did none = .ok cid) :
    ¬ Agrees P record did proof := by
  -- The two CIDs are different, as one is of metadata with signatures.
  have hne : ∀ cid, createAttestationCid P.encode record (erase "signatures" proof) did none =
      .ok cid → createAttestationCid P.encode record proof did none ≠ .ok cid := by
    intro cid herased hcid
    have hapart : HashedApart P.encode
        ⟨record, erase "signatures" proof, did, none, hr, nodup_keys_erase hn⟩
        ⟨record, proof, did, none, hr, hn⟩ := hfree
    have hno : ¬ OverridesSig record none := fun h => absurd h.1 List.not_mem_nil
    have hagree := (agree_of_cid_eq hencode hapart hno hno herased hcid).metadata "signatures"
      (by decide) (by decide) (by decide)
    obtain ⟨v, hv⟩ := Option.isSome_iff_exists.1 (lookup_isSome_iff.2 hmem)
    rw [lookup_erase, if_pos rfl, hv] at hagree
    cases hagree
  rw [agrees_iff_declares, hdeclared]
  intro hiff
  rcases h with h | h
  · obtain ⟨cid', hcid', heq⟩ := hiff.1 ⟨cid, h, rfl⟩
    obtain rfl := cid_eq_of_toString_eq h hcid' (Value.text.inj (Option.some.inj heq))
    exact hne cid hcid' h
  · obtain ⟨cid', hcid', heq⟩ := hiff.2 ⟨cid, h, rfl⟩
    obtain rfl := cid_eq_of_toString_eq h hcid' (Value.text.inj (Option.some.inj heq))
    exact hne cid h hcid'

/-- The verifiers agree on every proof with this body if it has no signatures, or cannot be
    attested at all. -/
theorem agrees_body_iff (hencode : EncodesInjectively P.encode) (hr : (keys record).Nodup)
    (hn : (keys body).Nodup) (hbody : "cid" ∉ keys body)
    (hfree : MetadataApart P record (erase "signatures" body) body did none) :
    (∀ proof, (keys proof).Nodup → erase "cid" proof = body → Agrees P record did proof) ↔
      "signatures" ∉ keys body ∨
        ∀ cid, createAttestationCid P.encode record body did none ≠ .ok cid ∧
          createAttestationCid P.encode record (erase "signatures" body) did none ≠ .ok cid := by
  have hcid : ∀ proof, createAttestationCid P.encode record (erase "cid" proof) did none =
      createAttestationCid P.encode record proof did none := fun proof =>
    createAttestationCid_congr (preimage_erase_cid record proof did)
  have hcid' : ∀ proof,
      createAttestationCid P.encode record (erase "signatures" (erase "cid" proof)) did none =
        createAttestationCid P.encode record (erase "signatures" proof) did none := fun proof =>
    createAttestationCid_congr (preimage_erase_signatures_cid record proof did)
  constructor
  · -- The proof of one of the two CIDs is accepted by one of the verifiers.
    intro h
    by_contra hcond
    rw [not_or, not_not, not_forall] at hcond
    obtain ⟨hmem, cid, hok⟩ := hcond
    have herase : erase "cid" (set "cid" (.text cid.toString) body) = body := by
      rw [erase_set_self, erase_of_not_mem hbody]
    refine @not_agree P _ _ _ cid hencode hr (nodup_keys_set hn) ?_ ?_ ?_ ?_
      (h _ (nodup_keys_set hn) herase)
    · rwa [← metadataApart_erase_cid, herase]
    · rw [← lookup_isSome_iff, lookup_set, if_neg (by decide), lookup_isSome_iff]
      exact hmem
    · rw [lookup_set, if_pos rfl]
    · rw [← hcid, ← hcid', herase]
      by_contra hneither
      rw [not_or] at hneither
      exact hok hneither
  · rintro h proof - rfl
    rw [agrees_iff_declares]
    rcases h with hno | hnone
    · have hgone : "signatures" ∉ keys proof := by
        rwa [← lookup_eq_none_iff, lookup_erase, if_neg (by decide), lookup_eq_none_iff] at hno
      rw [erase_of_not_mem hgone]
    · simp only [hcid, hcid'] at hnone
      exact iff_of_false (fun ⟨cid, h, _⟩ => (hnone cid).1 h) fun ⟨cid, h, _⟩ => (hnone cid).2 h

end

/-! ## Proofs of the market library -/

/-- The record that `createRemoteProofRecord` writes. -/
def createRemoteProofRecord (P : Primitives) (a : Attestation) (metadata subjectRecord : RecordMap)
    (subjectRepositoryDid repositoryDid : String) : Except String RecordMap := do
  let bindCid ← createAttestationCid P.encode subjectRecord metadata subjectRepositoryDid none
  let value := set "cid" (.text bindCid.toString) metadata
  match ← a.sign P value repositoryDid none none none with
  | .object entry => do
    let entry ← toStorableEntry entry
    return set "signatures" (.array [.object entry]) value
  | _ => .error "not an entry"

section
variable {P : Primitives} {a : Attestation} {metadata subject proof : RecordMap}
  {did repositoryDid : String}

theorem createRemoteProofRecord_eq_ok
    (h : createRemoteProofRecord P a metadata subject did repositoryDid = .ok proof) :
    ∃ cid v, createAttestationCid P.encode subject metadata did none = .ok cid ∧
      proof = set "signatures" v (set "cid" (.text cid.toString) metadata) := by
  obtain ⟨cid, hcid, h⟩ := bind_eq_ok.1 h
  obtain ⟨entry, -, h⟩ := bind_eq_ok.1 h
  split at h
  · obtain ⟨entry, -, h⟩ := bind_eq_ok.1 h
    exact ⟨cid, _, hcid, (Except.ok.inj h).symm⟩
  · cases h

/-- The market library accepts the proofs that it makes, the port does not. -/
theorem not_agree_created (hencode : EncodesInjectively P.encode) (hr : (keys subject).Nodup)
    (hn : (keys metadata).Nodup) (hmetadata : "signatures" ∉ keys metadata)
    (hfree : MetadataApart P subject (erase "signatures" proof) proof did none)
    (h : createRemoteProofRecord P a metadata subject did repositoryDid = .ok proof) :
    ¬ Agrees P subject did proof := by
  obtain ⟨cid, v, hcid, rfl⟩ := createRemoteProofRecord_eq_ok h
  refine @not_agree P _ _ _ cid hencode hr (nodup_keys_set (nodup_keys_set hn)) hfree ?_ ?_
    (.inr ?_)
  · rw [← lookup_isSome_iff, lookup_set, if_pos rfl]
    rfl
  · rw [lookup_set, if_neg (by decide), lookup_set, if_pos rfl]
  · rw [erase_set_self, erase_set_of_ne (by decide), erase_of_not_mem hmetadata]
    rw [← hcid]
    refine createAttestationCid_congr ?_
    rw [← preimage_erase_cid, erase_set_self, preimage_erase_cid]

end

/-! ## Both -/

section
variable {P : Primitives} {a : Attestation} {agent : Agent} {record body : RecordMap}
  {repository : String} {fields : Option (List String)} {ref : Value}

/-- A proof that is written is accepted when it keeps the metadata that is signed; the two verifiers
    agree on the proofs that have no signatures, and not on those that the market library makes. -/
theorem remote_attestation_iff (hencode : EncodesInjectively P.encode)
    (halike : EncodesAlike P.encode) {signatureType : Option String}
    {extraMetadata : Option RecordMap} {resolve : String → Except String (Option RecordMap)}
    {entries : List Value} {index : ℕ} (hagent : a.agent = some agent) (hr : (keys record).Nodup)
    (hextra : (keys (extraMetadata.getD [])).Nodup)
    (hwritten : ∀ cid, createAttestationCid P.encode record (a.remoteMetadata extraMetadata)
        repository fields = .ok cid →
      Finds agent resolve a.proofType
          (a.proofRecord cid.toString (a.remoteMetadata extraMetadata)) ∧
        MetadataApart P record (a.remoteMetadata extraMetadata)
          (a.proofRecord cid.toString (a.remoteMetadata extraMetadata)) repository fields)
    (hsign : a.sign P record repository signatureType extraMetadata fields = .ok ref)
    (hentry : entries[index]? = some ref) (hn : (keys body).Nodup) (hbody : "cid" ∉ keys body)
    (hfree : MetadataApart P record (erase "signatures" body) body repository none) :
    (Accepts P (set "signatures" (.array entries) record) repository resolve fields index ↔
      a.proofType ≠ "" ∧ (OverridesSig record fields ∨ a.Kept (extraMetadata.getD []))) ∧
    ((∀ proof, (keys proof).Nodup → erase "cid" proof = body → Agrees P record repository proof) ↔
      "signatures" ∉ keys body ∨
        ∀ cid, createAttestationCid P.encode record body repository none ≠ .ok cid ∧
          createAttestationCid P.encode record (erase "signatures" body) repository none ≠
            .ok cid) ∧
    ∀ signer metadata repositoryDid proof, (keys metadata).Nodup → "signatures" ∉ keys metadata →
      createRemoteProofRecord P signer metadata record repository repositoryDid = .ok proof →
        erase "cid" proof = body → ¬ Agrees P record repository proof := by
  refine ⟨accepts_signed_iff hencode halike hagent hr hextra hwritten hsign hentry,
    agrees_body_iff hencode hr hn hbody hfree, ?_⟩
  rintro signer metadata repositoryDid proof hmetadata hno hcreated rfl
  exact not_agree_created hencode hr hmetadata hno (metadataApart_erase_cid.1 hfree) hcreated

end

/-! ## On the encoder of the repository -/

/-- The encoder, on the data model. -/
def dataEncode (value : Value) : Except String Bytes :=
  if dataModel value then encode value else .error "unsupported"

theorem dataEncode_injective : EncodesInjectively dataEncode := by
  intro v v' bytes h h'
  rw [dataEncode] at h h'
  split_ifs at h h' with hv hv'
  exact canon_eq_of_encode_eq hv hv' (h.trans h'.symm)

theorem dataEncode_alike : EncodesAlike dataEncode := by
  intro v v' h
  have hmodel : dataModel v ↔ dataModel v' := by rw [← dataModel_canon v, h, dataModel_canon]
  rw [dataEncode, dataEncode]
  by_cases hv : dataModel v
  · rw [if_pos hv, if_pos (hmodel.1 hv), encode, encode, encodeValue_eq v hv,
      encodeValue_eq v' (hmodel.1 hv), h]
  · rw [if_neg hv, if_neg fun hv' => hv (hmodel.2 hv')]

def remotePrimitives : Primitives := { samplePrimitives with encode := dataEncode }

def sampleAgent : Agent where
  did := "did:plc:alice"
  createRecord _ _ := .ok (some [("uri", .text "at://did:plc:alice/network.attested.proof/1"),
    ("cid", .text "bafyreib")])

def remoteSigner (agent : Option Agent) : Attestation :=
  ⟨⟨.k256, aliceKey.priv⟩, "did:key:" ++ aliceKey.multibase, DEFAULT_SIGNATURE_TYPE,
    DEFAULT_PROOF_TYPE, none, some "did:plc:alice", agent⟩

def remoteRecord : RecordMap := [("$type", .text "app.record"), ("text", .text "hello")]

/-- The time of an attestation is signed, and not written. -/
def issuedMetadata : RecordMap := [("issuedAt", .text "2026-01-01T00:00:00Z")]

def remoteCid (metadata : RecordMap) : String :=
  match createAttestationCid dataEncode remoteRecord metadata "did:plc:alice" none with
  | .ok cid => cid.toString
  | .error _ => ""

/-- What is written of it. -/
def issuedProof : RecordMap :=
  let metadata := (remoteSigner (some sampleAgent)).remoteMetadata (some issuedMetadata)
  (remoteSigner (some sampleAgent)).proofRecord (remoteCid metadata) metadata

def issuedRef : Value :=
  .object [("$type", .text STRONG_REF_NSID),
    ("uri", .text "at://did:plc:alice/network.attested.proof/1"), ("cid", .text "bafyreib")]

/-- The block that is hashed for metadata of the record. -/
def remoteBlock (metadata : RecordMap) : Option Bytes :=
  (preimage remoteRecord metadata "did:plc:alice" none >>= fun r =>
    dataEncode (.object r)).toOption

theorem metadataApart_of_ne {metadata metadata' : RecordMap}
    (h : (remoteBlock metadata).map sha256 ≠ (remoteBlock metadata').map sha256) :
    MetadataApart remotePrimitives remoteRecord metadata metadata' "did:plc:alice" none := by
  intro bytes bytes' hbytes hbytes' heq
  have hblock : remoteBlock metadata = some bytes := congrArg Except.toOption hbytes
  have hblock' : remoteBlock metadata' = some bytes' := congrArg Except.toOption hbytes'
  rw [hblock, hblock', Option.map_some, Option.map_some, heq] at h
  exact absurd rfl h

theorem eq_ok_of_isOk {α : Type} {x : Except String α} (h : x.isOk) : ∃ y, x = .ok y := by
  cases x with
  | error e => cases h
  | ok y => exact ⟨y, rfl⟩

theorem sign_sample : (remoteSigner (some sampleAgent)).sign remotePrimitives remoteRecord
    "did:plc:alice" none (some issuedMetadata) none = .ok issuedRef := by
  obtain ⟨cid, hcid⟩ := eq_ok_of_isOk (x := createAttestationCid dataEncode remoteRecord
    ((remoteSigner (some sampleAgent)).remoteMetadata (some issuedMetadata)) "did:plc:alice" none)
    (by decide +kernel)
  exact bind_eq_ok.2 ⟨cid, hcid, rfl⟩

theorem written_sample {cid : Cid} (hcid : createAttestationCid dataEncode remoteRecord
      ((remoteSigner (some sampleAgent)).remoteMetadata (some issuedMetadata)) "did:plc:alice" none =
        .ok cid) :
    (remoteSigner (some sampleAgent)).proofRecord cid.toString
      ((remoteSigner (some sampleAgent)).remoteMetadata (some issuedMetadata)) = issuedProof := by
  rw [issuedProof, remoteCid, hcid]

theorem apart_sample : MetadataApart remotePrimitives remoteRecord
    ((remoteSigner (some sampleAgent)).remoteMetadata (some issuedMetadata)) issuedProof
    "did:plc:alice" none := by
  refine metadataApart_of_ne ?_
  decide +kernel

theorem finds_sample : Finds sampleAgent (fun _ => .ok (some issuedProof)) DEFAULT_PROOF_TYPE
    issuedProof := by
  intro data uri hdata huri
  obtain rfl := Except.ok.inj hdata
  obtain rfl := Value.text.inj (Option.some.inj huri)
  exact ⟨by decide, rfl⟩

theorem written_apart_sample (cid : Cid)
    (hcid : createAttestationCid remotePrimitives.encode remoteRecord
      ((remoteSigner (some sampleAgent)).remoteMetadata (some issuedMetadata)) "did:plc:alice" none =
        .ok cid) :
    let metadata := (remoteSigner (some sampleAgent)).remoteMetadata (some issuedMetadata)
    let proof := (remoteSigner (some sampleAgent)).proofRecord cid.toString metadata
    Finds sampleAgent (fun _ => .ok (some issuedProof)) DEFAULT_PROOF_TYPE proof ∧
      MetadataApart remotePrimitives remoteRecord metadata proof "did:plc:alice" none := by
  intro metadata proof
  have hproof : proof = issuedProof := written_sample hcid
  rw [hproof]
  exact ⟨finds_sample, apart_sample⟩

theorem not_kept_sample : ¬ (remoteSigner (some sampleAgent)).Kept issuedMetadata := by
  intro h
  have := h "issuedAt" (.text "2026-01-01T00:00:00Z") rfl
  simp at this

/-- A proof of the market library. -/
def createdProof : RecordMap :=
  (createRemoteProofRecord remotePrimitives (remoteSigner none) [("$type", .text "app.receipt")]
    remoteRecord "did:plc:alice" "did:plc:bob").toOption.getD []

theorem created_sample : createRemoteProofRecord remotePrimitives (remoteSigner none)
    [("$type", .text "app.receipt")] remoteRecord "did:plc:alice" "did:plc:bob" =
      .ok createdProof := by
  obtain ⟨proof, hproof⟩ := eq_ok_of_isOk (x := createRemoteProofRecord remotePrimitives
    (remoteSigner none) [("$type", .text "app.receipt")] remoteRecord "did:plc:alice" "did:plc:bob")
    (by decide +kernel)
  rw [createdProof, hproof]
  rfl

theorem created_apart_sample : MetadataApart remotePrimitives remoteRecord
    (erase "signatures" (erase "cid" createdProof)) (erase "cid" createdProof) "did:plc:alice"
    none := by
  refine metadataApart_of_ne ?_
  decide +kernel

theorem remote_attestation_sample :
    ¬ Accepts remotePrimitives (set "signatures" (.array [issuedRef]) remoteRecord) "did:plc:alice"
        (fun _ => .ok (some issuedProof)) none 0 ∧
      ¬ Agrees remotePrimitives remoteRecord "did:plc:alice" createdProof := by
  obtain ⟨haccepts, -, hcreated⟩ := @remote_attestation_iff remotePrimitives
    (remoteSigner (some sampleAgent)) sampleAgent remoteRecord (erase "cid" createdProof)
    "did:plc:alice" none issuedRef dataEncode_injective dataEncode_alike none (some issuedMetadata)
    (fun _ => .ok (some issuedProof)) [issuedRef] 0 rfl (by decide) (by decide)
    written_apart_sample sign_sample rfl (by decide +kernel) (by decide +kernel) created_apart_sample
  refine ⟨fun h => ?_, hcreated _ _ _ _ (by decide) (by decide) created_sample rfl⟩
  exact not_kept_sample ((haccepts.1 h).2.resolve_left fun h => List.not_mem_nil h.1)

/-- The time of an attestation is lost. -/
theorem not_remote_attestation :
    ¬ ∀ (P : Primitives) (a : Attestation) (agent : Agent) (record extraMetadata : RecordMap)
      (repository : String) (resolve : String → Except String (Option RecordMap))
      (entries : List Value) (index : ℕ) (ref : Value),
      EncodesInjectively P.encode → EncodesAlike P.encode → a.agent = some agent →
      (keys record).Nodup → (keys extraMetadata).Nodup →
      (∀ cid, createAttestationCid P.encode record (a.remoteMetadata (some extraMetadata))
          repository none = .ok cid →
        Finds agent resolve a.proofType
            (a.proofRecord cid.toString (a.remoteMetadata (some extraMetadata))) ∧
          MetadataApart P record (a.remoteMetadata (some extraMetadata))
            (a.proofRecord cid.toString (a.remoteMetadata (some extraMetadata))) repository none) →
      a.sign P record repository none (some extraMetadata) none = .ok ref →
      entries[index]? = some ref →
        Accepts P (set "signatures" (.array entries) record) repository resolve none index ∧
          ∀ proof, (keys proof).Nodup → Agrees P record repository proof := by
  intro h
  obtain ⟨haccepts, -⟩ := h remotePrimitives (remoteSigner (some sampleAgent)) sampleAgent
    remoteRecord issuedMetadata "did:plc:alice" (fun _ => .ok (some issuedProof)) [issuedRef] 0
    issuedRef dataEncode_injective dataEncode_alike rfl (by decide) (by decide) written_apart_sample
    sign_sample rfl
  have hiff := @accepts_signed_iff remotePrimitives (remoteSigner (some sampleAgent)) sampleAgent
    remoteRecord "did:plc:alice" none issuedRef dataEncode_injective dataEncode_alike none
    (some issuedMetadata) (fun _ => .ok (some issuedProof)) [issuedRef] 0 rfl (by decide)
    (by decide) written_apart_sample sign_sample rfl
  exact not_kept_sample ((hiff.1 haccepts).2.resolve_left fun h => List.not_mem_nil h.1)

end ComputeContract.Attest
