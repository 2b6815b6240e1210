import ComputeContract.Attest.CoSign

/-!
# What an attestation binds

Two subjects with the same attestation CID agree on the repository, on the metadata and on the
fields that are bound. The `$sig` of a record is not bound: the metadata takes its place.

* `attestation_binding`: equal CIDs, and a signature that validates for another subject.
-/

namespace ComputeContract.Attest

open AssocList Cbor

/-- Objects with different fields are encoded differently. -/
def EncodesInjectively (encode : Value → Except String Bytes) : Prop :=
  ∀ v v' bytes, encode v = .ok bytes → encode v' = .ok bytes → canon v = canon v'

/-- The blocks that are hashed for two subjects do not collide. -/
def HashedApart (encode : Value → Except String Bytes) (s s' : Subject) : Prop :=
  ∀ bytes bytes', s.block encode = .ok bytes → s'.block encode = .ok bytes' →
    sha256 bytes = sha256 bytes' → bytes = bytes'

theorem cidForBytes_inj {bytes bytes' : Bytes} (h : cidForBytes bytes = cidForBytes bytes') :
    sha256 bytes = sha256 bytes' := by
  rw [cidForBytes, cidForBytes, cidFromDigest, cidFromDigest, Cid.mk.injEq,
    List.append_cancel_left_eq] at h
  exact Subtype.ext h

theorem agree_of_cid_eq {encode : Value → Except String Bytes} (hencode : EncodesInjectively encode)
    {s s' : Subject} (hfree : HashedApart encode s s') (hsig : ¬ OverridesSig s.record s.fields)
    (hsig' : ¬ OverridesSig s'.record s'.fields) {cid : Cid} (h : s.cid encode = .ok cid)
    (h' : s'.cid encode = .ok cid) : s.Agree s' := by
  obtain ⟨prepared, bytes, hprep, hbytes, hblock, rfl⟩ := s.cid_eq_ok encode h
  obtain ⟨prepared', bytes', hprep', hbytes', hblock', hcid⟩ := s'.cid_eq_ok encode h'
  obtain rfl := hfree bytes bytes' hblock hblock' (cidForBytes_inj hcid)
  exact Subject.agree_of_canon hprep hprep' hsig hsig' (hencode _ _ _ hbytes hbytes')

/-- What the market library has checked of an entry that it accepts. -/
theorem verifyInlineAttestation_eq_true {P : Primitives}
    {keyResolver : String → Except String KeyData} {record entry : RecordMap}
    {repositoryDid : String}
    (h : verifyInlineAttestation P keyResolver record entry repositoryDid = true) :
    ∃ sig key cid keyData, marketNormalizeSignature (entry.lookup "signature") = .ok (some sig) ∧
      entry.lookup "key" = some (.text key) ∧ keyResolver key = .ok keyData ∧
      createAttestationCid P.encode record entry repositoryDid none = .ok cid ∧
      verifyBytes P cid.bytes sig keyData = true := by
  unfold verifyInlineAttestation at h
  split at h
  · next ok hok =>
    subst h
    obtain ⟨sig, hsig, hok⟩ := bind_eq_ok.1 hok
    split at hok
    · next sig key hkey =>
      obtain ⟨cid, hcid, hok⟩ := bind_eq_ok.1 hok
      split_ifs at hok
      · cases hok
      · obtain ⟨keyData, hresolve, hok⟩ := bind_eq_ok.1 hok
        exact ⟨sig, key, cid, keyData, hsig, hkey, hresolve, hcid, Except.ok.inj hok⟩
    · cases hok
  · cases h

/-- Equal CIDs bind the repository, the metadata and the fields; a signature over one of them
    that holds for nothing else validates only subjects that agree. -/
theorem attestation_binding (P : Primitives) (hencode : EncodesInjectively P.encode)
    (s s' : Subject) (hfree : HashedApart P.encode s s')
    (hsig : ¬ OverridesSig s.record s.fields) (hsig' : ¬ OverridesSig s'.record s'.fields)
    (cid : Cid) (h : s.cid P.encode = .ok cid) :
    (s'.cid P.encode = .ok cid → s.Agree s') ∧
    ∀ keyResolver key keyData sig, s'.fields = none →
      s'.metadata.lookup "key" = some (.text key) → keyResolver key = .ok keyData →
      marketNormalizeSignature (s'.metadata.lookup "signature") = .ok (some sig) →
      (∀ message, verifyBytes P message sig keyData → message = cid.bytes) →
      verifyInlineAttestation P keyResolver s'.record s'.metadata s'.repository → s.Agree s' := by
  refine ⟨agree_of_cid_eq hencode hfree hsig hsig' h, ?_⟩
  intro keyResolver key keyData sig hfields hkey hresolve hnorm hone hverify
  obtain ⟨sig', key', cid', keyData', hnorm', hkey', hresolve', hcid, hbytes⟩ :=
    verifyInlineAttestation_eq_true hverify
  rw [hnorm] at hnorm'
  rw [hkey] at hkey'
  obtain rfl := Option.some.inj (Except.ok.inj hnorm')
  obtain rfl := Value.text.inj (Option.some.inj hkey')
  rw [hresolve] at hresolve'
  obtain rfl := Except.ok.inj hresolve'
  have heq : cid' = cid := congrArg Cid.mk (hone _ hbytes)
  refine agree_of_cid_eq hencode hfree hsig hsig' h ?_
  rw [Subject.cid, hfields, hcid, heq]

/-! ## On the encoder of the repository -/

theorem sampleEncode_injective : EncodesInjectively sampleEncode := by
  intro v v' bytes h h'
  unfold sampleEncode at h h'
  split_ifs at h h' with hv hv'
  obtain ⟨out, hout, hdec⟩ := decode_encode hv
  obtain ⟨out', hout', hdec'⟩ := decode_encode hv'
  rw [hout] at h
  rw [hout'] at h'
  obtain rfl := Except.ok.inj h
  obtain rfl := Except.ok.inj h'
  rw [hdec] at hdec'
  exact Except.ok.inj hdec'

theorem sampleEncode_ok {v : Value} (h : plain v) : ∃ bytes, sampleEncode v = .ok bytes := by
  obtain ⟨bytes, hbytes, -⟩ := decode_encode h
  exact ⟨bytes, (if_pos h).trans hbytes⟩

/-- A record with an attestation of a key in the repository of Alice, signed or not yet. -/
def sampleSubject (fields metadata : RecordMap) (hf : (keys fields).Nodup)
    (hm : (keys metadata).Nodup) : Subject :=
  ⟨fields, metadata, "did:plc:alice", none, hf, hm⟩

def unsignedSubject : Subject :=
  sampleSubject [("$type", .text "app.record"), ("text", .text "hello")]
    [("$type", .text DEFAULT_SIGNATURE_TYPE), ("key", .text "did:key:z")] (by decide) (by decide)

def signedSubject : Subject :=
  sampleSubject [("$type", .text "app.record"), ("text", .text "hello"),
      ("signatures", .array [.null])]
    [("$type", .text DEFAULT_SIGNATURE_TYPE), ("key", .text "did:key:z"), ("cid", .text "b"),
      ("signature", .bytes [1])] (by decide) (by decide)

theorem cid_of_preimage {encode : Value → Except String Bytes} {s : Subject} {prepared : RecordMap}
    {bytes : Bytes} (hpre : s.preimage = .ok prepared)
    (hbytes : encode (.object prepared) = .ok bytes) : s.cid encode = .ok (cidForBytes bytes) :=
  bind_eq_ok.2 ⟨prepared, hpre, bind_eq_ok.2 ⟨bytes, hbytes, rfl⟩⟩

theorem cid_eq_of_preimage_eq {encode : Value → Except String Bytes} {s s' : Subject}
    (h : s.preimage = s'.preimage) : s.cid encode = s'.cid encode := by
  change (s.preimage >>= _) = (s'.preimage >>= _)
  rw [h]

theorem hashedApart_of_preimage_eq {encode : Value → Except String Bytes} {s s' : Subject}
    (h : s.preimage = s'.preimage) : HashedApart encode s s' := by
  intro bytes bytes' hblock hblock' _
  change (s.preimage >>= _) = _ at hblock
  rw [h] at hblock
  exact Except.ok.inj (hblock.symm.trans hblock')

theorem attestation_binding_sample : ∃ cid, unsignedSubject.cid sampleEncode = .ok cid ∧
    signedSubject.cid sampleEncode = .ok cid ∧ unsignedSubject.Agree signedSubject := by
  have hpre : unsignedSubject.preimage = signedSubject.preimage := rfl
  have hplain : plain (.object [("$type", .text "app.record"), ("text", .text "hello"),
      ("$sig", .object [("$type", .text DEFAULT_SIGNATURE_TYPE), ("key", .text "did:key:z"),
        ("repository", .text "did:plc:alice")])]) := by
    decide +kernel
  obtain ⟨bytes, hbytes⟩ := sampleEncode_ok hplain
  have hcid : unsignedSubject.cid sampleEncode = .ok (cidForBytes bytes) :=
    cid_of_preimage rfl hbytes
  have hcid' := (cid_eq_of_preimage_eq hpre).symm.trans hcid
  exact ⟨_, hcid, hcid', (attestation_binding samplePrimitives sampleEncode_injective
    unsignedSubject signedSubject (hashedApart_of_preimage_eq hpre) (by decide) (by decide) _
    hcid).1 hcid'⟩

/-- The `$sig` of a record is not signed, though the record has it. -/
theorem sig_not_bound : ¬ ∀ (encode : Value → Except String Bytes) (s s' : Subject) (cid : Cid),
    EncodesInjectively encode → HashedApart encode s s' → s.fields = none → s'.fields = none →
    s.cid encode = .ok cid → s'.cid encode = .ok cid →
    ∀ name, name ≠ "signatures" →
      (s.record.lookup name).map canon = (s'.record.lookup name).map canon := by
  intro hall
  let s := sampleSubject [("$type", .text "app.record"), ("$sig", .null)]
    [("$type", .text DEFAULT_SIGNATURE_TYPE)] (by decide) (by decide)
  let s' := sampleSubject [("$type", .text "app.record")]
    [("$type", .text DEFAULT_SIGNATURE_TYPE)] (by decide) (by decide)
  have hpre : s.preimage = s'.preimage := rfl
  have hplain : plain (.object [("$type", .text "app.record"),
      ("$sig", .object [("$type", .text DEFAULT_SIGNATURE_TYPE),
        ("repository", .text "did:plc:alice")])]) := by
    decide +kernel
  obtain ⟨bytes, hbytes⟩ := sampleEncode_ok hplain
  have hcid : s.cid sampleEncode = .ok (cidForBytes bytes) := cid_of_preimage rfl hbytes
  have hcid' := (cid_eq_of_preimage_eq hpre).symm.trans hcid
  have h := hall sampleEncode s s' _ sampleEncode_injective (hashedApart_of_preimage_eq hpre) rfl
    rfl hcid hcid' "$sig" (by decide)
  cases h

end ComputeContract.Attest
