import ComputeContract.Cbor.RoundTrip
import ComputeContract.Lib.Except
import ComputeContract.Rbac.Record

/-!
# Attestation CIDs

What an attestation signs: the CID of the record without its `signatures`, with the metadata
of the attestation and the repository under `$sig`. With a list of fields, the record is
reduced to them first, to its `$type` and to `$sig`.

The encoder is that of `@ipld/dag-cbor`, a parameter. The keys that it writes are sorted, so
two objects have the same bytes when they have the same canonical form.

* `lookup_prepareRecord`: what is signed under each name;
* `createAttestationCid_injective`: equal CIDs bind the same things.
-/

namespace ComputeContract

/-- An object, by its fields in insertion order. -/
abbrev RecordMap := List (String × Value)

namespace Attest

open AssocList Cbor

/-- `o.$type`, when it is a string that is not empty. -/
def typeOf (o : RecordMap) : Option String :=
  match o.lookup "$type" with
  | some (.text t) => if t = "" then none else some t
  | _ => none

/-- Without `cid` and `signature`, and with the repository. -/
def prepareMetadata (metadata : RecordMap) (repository : String) : RecordMap :=
  set "repository" (.text repository) (erase "signature" (erase "cid" metadata))

/-- The turn of a field of the list. A function of `Object.prototype` is copied too, and the
    encoder refuses it. -/
def pickField (record prepared : RecordMap) (f : String) : Except String RecordMap :=
  if f = "signatures" then .ok prepared
  else
    match property record f with
    | .own v => .ok (set f v prepared)
    | .inherited => .error "CBOR encode error: unsupported type: Function"
    | .absent => .ok prepared

/-- What is encoded for a record of type `t`. -/
def prepareRecord (record metadata : RecordMap) (t : String) :
    Option (List String) → Except String RecordMap
  | some fields =>
    fields.foldlM (pickField record) [("$type", .text t), ("$sig", .object metadata)]
  | none => .ok (set "$sig" (.object metadata) (erase "signatures" record))

section
variable (encode : Value → Except String Bytes)

def createDagCborCid (value : Value) : Except String Cid := do
  let bytes ← encode value
  return cidForBytes bytes

/-- The object whose CID is signed. -/
def preimage (record metadata : RecordMap) (repository : String)
    (fields : Option (List String)) : Except String RecordMap :=
  match typeOf record with
  | none => .error "record is missing $type"
  | some t =>
    match typeOf metadata with
    | none => .error "attestation metadata is missing $type"
    | some _ => prepareRecord record (prepareMetadata metadata repository) t fields

/-- Create an attestation CID binding a record, metadata, and repository. -/
def createAttestationCid (record metadata : RecordMap) (repository : String)
    (fields : Option (List String)) : Except String Cid := do
  let preparedRecord ← preimage record metadata repository fields
  createDagCborCid encode (.object preparedRecord)

end

/-! ## What is signed -/

theorem lookup_of_typeOf {o : RecordMap} {t : String} (h : typeOf o = some t) :
    o.lookup "$type" = some (.text t) := by
  unfold typeOf at h
  split at h
  · next t' ht =>
    split_ifs at h
    rw [ht, Option.some.inj h]
  · cases h

/-- The field that is bound under a name, if one is. -/
def bound (record : RecordMap) (fields : Option (List String)) (name : String) : Option Value :=
  if name = "signatures" ∨ name = "$sig" then none
  else
    match fields with
    | none => record.lookup name
    | some fields => if name = "$type" ∨ name ∈ fields then record.lookup name else none

/-- The list of fields has the `$sig` of the record take the place of the metadata. -/
def OverridesSig (record : RecordMap) (fields : Option (List String)) : Prop :=
  "$sig" ∈ fields.getD [] ∧ "$sig" ∈ keys record

instance (record : RecordMap) (fields : Option (List String)) :
    Decidable (OverridesSig record fields) :=
  inferInstanceAs (Decidable (_ ∧ _))

theorem pickField_eq {record prepared prepared' : RecordMap} {f : String}
    (h : pickField record prepared f = .ok prepared') :
    prepared' = prepared ∧ (f = "signatures" ∨ record.lookup f = none) ∨
      ∃ v, f ≠ "signatures" ∧ record.lookup f = some v ∧ prepared' = set f v prepared := by
  unfold pickField at h
  split_ifs at h with hf
  · exact .inl ⟨(Except.ok.inj h).symm, .inl hf⟩
  · unfold property at h
    rcases hv : record.lookup f with _ | v
    · simp only [hv] at h
      split_ifs at h
      exact .inl ⟨(Except.ok.inj h).symm, .inr rfl⟩
    · simp only [hv] at h
      exact .inr ⟨v, hf, rfl, (Except.ok.inj h).symm⟩

/-- The fields of the list are those of the record, the other ones are as before. -/
theorem lookup_foldlM_pickField {record : RecordMap} (fields : List String)
    {init prepared : RecordMap} (h : fields.foldlM (pickField record) init = .ok prepared)
    (name : String) :
    prepared.lookup name =
      if name ∈ fields ∧ name ≠ "signatures" then (record.lookup name).or (init.lookup name)
      else init.lookup name := by
  induction fields generalizing init with
  | nil =>
    obtain rfl := Except.ok.inj h
    simp
  | cons f fields ih =>
    rw [List.foldlM_cons, bind_eq_ok] at h
    obtain ⟨next, hnext, h⟩ := h
    rw [ih h]
    rcases pickField_eq hnext with ⟨rfl, hf⟩ | ⟨v, hf, hv, rfl⟩
    · by_cases hname : name = f
      · -- A field that is skipped: `signatures`, or one that the record lacks.
        subst hname
        rcases hf with hf | hf <;> simp [hf]
      · simp [hname]
    · rw [lookup_set]
      by_cases hname : name = f
      · subst hname
        simp [hf, hv]
      · simp [hname]

theorem nodup_foldlM_pickField {record : RecordMap} (fields : List String)
    {init prepared : RecordMap} (h : fields.foldlM (pickField record) init = .ok prepared)
    (hinit : (keys init).Nodup) : (keys prepared).Nodup := by
  induction fields generalizing init with
  | nil =>
    obtain rfl := Except.ok.inj h
    exact hinit
  | cons f fields ih =>
    rw [List.foldlM_cons, bind_eq_ok] at h
    obtain ⟨next, hnext, h⟩ := h
    rcases pickField_eq hnext with ⟨rfl, -⟩ | ⟨v, -, -, rfl⟩
    · exact ih h hinit
    · exact ih h (nodup_keys_set hinit)

theorem nodup_prepareMetadata {metadata : RecordMap} (h : (keys metadata).Nodup)
    (repository : String) : (keys (prepareMetadata metadata repository)).Nodup :=
  nodup_keys_set (nodup_keys_erase (nodup_keys_erase h))

theorem lookup_prepareMetadata (metadata : RecordMap) (repository name : String) :
    (prepareMetadata metadata repository).lookup name =
      if name = "repository" then some (.text repository)
      else if name = "cid" ∨ name = "signature" then none else metadata.lookup name := by
  rw [prepareMetadata, lookup_set, lookup_erase, lookup_erase]
  split_ifs <;> simp_all

section
variable {record metadata prepared : RecordMap} {t : String} {fields : Option (List String)}

theorem nodup_prepareRecord (hr : (keys record).Nodup)
    (h : prepareRecord record metadata t fields = .ok prepared) : (keys prepared).Nodup := by
  rcases fields with _ | fields
  · obtain rfl := Except.ok.inj h
    exact nodup_keys_set (nodup_keys_erase hr)
  · exact nodup_foldlM_pickField fields h (by simp [keys])

/-- What is signed under each name: the metadata under `$sig`, and the fields that are bound. -/
theorem lookup_prepareRecord (ht : record.lookup "$type" = some (.text t))
    (hsig : ¬ OverridesSig record fields)
    (h : prepareRecord record metadata t fields = .ok prepared) (name : String) :
    prepared.lookup name =
      if name = "$sig" then some (.object metadata) else bound record fields name := by
  rcases fields with _ | fields
  · obtain rfl := Except.ok.inj h
    rw [lookup_set, lookup_erase, bound]
    split_ifs <;> simp_all
  · rw [lookup_foldlM_pickField fields h, bound]
    have hnone : "$sig" ∈ fields → record.lookup "$sig" = none := fun hmem =>
      lookup_eq_none_iff.2 fun hkey => hsig ⟨hmem, hkey⟩
    by_cases hs : name = "$sig"
    · subst hs
      by_cases hmem : "$sig" ∈ fields
      · simp [hmem, hnone hmem, lookup_cons]
      · simp [hmem, lookup_cons]
    · by_cases htype : name = "$type"
      · subst htype
        by_cases hmem : "$type" ∈ fields <;> simp [hmem, ht, lookup_cons]
      · by_cases hmem : name ∈ fields <;> simp [hs, htype, hmem, lookup_cons]

theorem preimage_eq_ok {repository : String}
    (h : preimage record metadata repository fields = .ok prepared) :
    ∃ t, typeOf record = some t ∧ (typeOf metadata).isSome ∧
      prepareRecord record (prepareMetadata metadata repository) t fields = .ok prepared := by
  unfold preimage at h
  rcases ht : typeOf record with _ | t
  · simp only [ht] at h
    cases h
  · rcases hm : typeOf metadata with _ | m
    · simp only [ht, hm] at h
      cases h
    · simp only [ht, hm] at h
      exact ⟨t, rfl, rfl, h⟩

end

/-! ## Canonical forms -/

theorem canonFields_eq (fields : RecordMap) :
    canonFields fields = fields.map fun e => (e.1, canon e.2) := by
  induction fields with
  | nil => rfl
  | cons e fields ih => rw [canonFields, ih, List.map_cons]

theorem lookup_canonFields (fields : RecordMap) (name : String) :
    (canonFields fields).lookup name = (fields.lookup name).map canon := by
  induction fields with
  | nil => rfl
  | cons e fields ih =>
    rw [canonFields, lookup_cons, lookup_cons, ih]
    split_ifs <;> rfl

theorem keys_canonFields (fields : RecordMap) : keys (canonFields fields) = keys fields := by
  rw [canonFields_eq, keys, List.map_map]
  rfl

/-- Objects with the same canonical form have the same fields. -/
theorem lookup_of_canon_eq {o o' : RecordMap} (hn : (keys o).Nodup) (hn' : (keys o').Nodup)
    (h : canon (.object o) = canon (.object o')) (name : String) :
    (o.lookup name).map canon = (o'.lookup name).map canon := by
  rw [canon, canon, Value.object.injEq] at h
  rw [← lookup_canonFields, ← lookup_canonFields,
    ← lookup_sortKeys (by rwa [keys_canonFields]), h, lookup_sortKeys (by rwa [keys_canonFields])]

/-- The string of a CID of a block comes back. -/
theorem plainText_cidForBytes (bytes : Bytes) : plainText (cidForBytes bytes).toString := by
  have hlist : ((cidForBytes bytes).toString).toList =
      'b' :: base32EncodeLoop 0 0 (cidForBytes bytes).bytes := String.toList_ofList
  have hloop := length_base32EncodeLoop_le 0 0 (cidForBytes bytes).bytes
  have hlen : (cidForBytes bytes).bytes.length = 36 :=
    length_of_isValidCid (isValidCid_cidFromDigest _)
  have htext := length_textEncode_le (cidForBytes bytes).toString
  rw [hlist, List.length_cons] at htext
  refine decide_eq_true ⟨by omega, ?_⟩
  rw [hlist]
  simp

/-! ## Equal CIDs -/

/-- The arguments of `createAttestationCid`: objects, whose fields have different names. -/
structure Subject where
  record : RecordMap
  metadata : RecordMap
  repository : String
  fields : Option (List String)
  record_nodup : (keys record).Nodup
  metadata_nodup : (keys metadata).Nodup

namespace Subject

section
variable (encode : Value → Except String Bytes) (s : Subject)

def preimage : Except String RecordMap :=
  Attest.preimage s.record s.metadata s.repository s.fields

/-- The block that is hashed. -/
def block : Except String Bytes := do
  let preparedRecord ← s.preimage
  encode (.object preparedRecord)

def cid : Except String Cid := createAttestationCid encode s.record s.metadata s.repository s.fields

theorem cid_eq_ok {c : Cid} (h : s.cid encode = .ok c) :
    ∃ prepared bytes, s.preimage = .ok prepared ∧ encode (.object prepared) = .ok bytes ∧
      s.block encode = .ok bytes ∧ c = cidForBytes bytes := by
  unfold cid createAttestationCid createDagCborCid at h
  obtain ⟨prepared, hprep, h⟩ := bind_eq_ok.1 h
  obtain ⟨bytes, hbytes, h⟩ := bind_eq_ok.1 h
  refine ⟨prepared, bytes, hprep, hbytes, ?_, (Except.ok.inj h).symm⟩
  exact bind_eq_ok.2 ⟨prepared, hprep, hbytes⟩

end

/-- The same repository, metadata and bound fields; the order of fields does not count. -/
structure Agree (s s' : Subject) : Prop where
  repository : s.repository = s'.repository
  metadata : ∀ name, name ≠ "cid" → name ≠ "signature" → name ≠ "repository" →
    (s.metadata.lookup name).map canon = (s'.metadata.lookup name).map canon
  bound : ∀ name, (Attest.bound s.record s.fields name).map canon =
    (Attest.bound s'.record s'.fields name).map canon

/-- The same object is signed only for subjects that agree. -/
theorem agree_of_canon {s s' : Subject} {prepared prepared' : RecordMap}
    (hprep : s.preimage = .ok prepared) (hprep' : s'.preimage = .ok prepared')
    (hsig : ¬ OverridesSig s.record s.fields) (hsig' : ¬ OverridesSig s'.record s'.fields)
    (hcanon : canon (.object prepared) = canon (.object prepared')) : Agree s s' := by
  obtain ⟨t, ht, -, hrec⟩ := preimage_eq_ok hprep
  obtain ⟨t', ht', -, hrec'⟩ := preimage_eq_ok hprep'
  have hlookup := lookup_of_canon_eq (nodup_prepareRecord s.record_nodup hrec)
    (nodup_prepareRecord s'.record_nodup hrec') hcanon
  simp only [lookup_prepareRecord (lookup_of_typeOf ht) hsig hrec,
    lookup_prepareRecord (lookup_of_typeOf ht') hsig' hrec'] at hlookup
  -- What stands under `$sig` gives the metadata and the repository.
  have hmeta : ∀ name,
      ((prepareMetadata s.metadata s.repository).lookup name).map canon =
        ((prepareMetadata s'.metadata s'.repository).lookup name).map canon := by
    have h := hlookup "$sig"
    simp only [if_true, Option.map_some, Option.some.injEq] at h
    exact lookup_of_canon_eq (nodup_prepareMetadata s.metadata_nodup _)
      (nodup_prepareMetadata s'.metadata_nodup _) h
  simp only [lookup_prepareMetadata] at hmeta
  refine ⟨?_, fun name hcid hsigname hrepo => ?_, fun name => ?_⟩
  · have h := hmeta "repository"
    simp only [if_true, Option.map_some, canon, Option.some.injEq, Value.text.injEq] at h
    exact h
  · simpa [hcid, hsigname, hrepo] using hmeta name
  · by_cases hname : name = "$sig"
    · rw [hname]
      rfl
    · simpa [hname] using hlookup name

end Subject

end Attest

end ComputeContract
