import ComputeContract.Attest.Cid
import ComputeContract.Util.Base64

/-!
# Signing attestations

Keys and their `did:key` strings, signatures of bytes, and the `Attestation` class: an inline
entry carries the type, the key of the signer, the CID that is signed, the signature and the
metadata; with an `agent` it is a reference to a proof record instead.

The curves, base58 and the DAG-CBOR encoder are third-party code: `Primitives`, whose
documented behaviour is `Primitives.Lawful`.

* `parseDidKey_formatDidKey`: a public key comes back from its `did:key`;
* `verifyBytes_signBytes`: what a key signs verifies under its public half.
-/

namespace ComputeContract.Attest

open AssocList

/-! ## Keys -/

inductive KeyType
  | k256
  | p256
  | p384
  | ed25519
  deriving DecidableEq

def KeyType.toString : KeyType → String
  | .k256 => "k256"
  | .p256 => "p256"
  | .p384 => "p384"
  | .ed25519 => "ed25519"

structure KeyData where
  type : KeyType
  bytes : Bytes

inductive KeyKind
  | pub
  | priv
  deriving DecidableEq

structure CodecEntry where
  type : KeyType
  kind : KeyKind
  code : Bytes

def CODECS : List CodecEntry :=
  [⟨.p256, .pub, [0x80, 0x24]⟩, ⟨.p256, .priv, [0x86, 0x26]⟩,
    ⟨.p384, .pub, [0x12, 0x00]⟩, ⟨.p384, .priv, [0x13, 0x01]⟩,
    ⟨.k256, .pub, [0xe7, 0x01]⟩, ⟨.k256, .priv, [0x81, 0x26]⟩,
    ⟨.ed25519, .pub, [0xed, 0x01]⟩, ⟨.ed25519, .priv, [0x80, 0x26]⟩]

def findCodec (bytes : Bytes) (kind : KeyKind) : Option CodecEntry :=
  CODECS.find? fun c => c.kind = kind ∧ c.code.isPrefixOf bytes

/-- The third-party code: the encoder of `@ipld/dag-cbor`, the signatures of `@noble/curves`
    in compact form (of a digest, but for `ed25519`) and `base58btc`. -/
structure Primitives where
  encode : Value → Except String Bytes
  /-- The signature of a message by a private key. -/
  sign : KeyType → Bytes → Bytes → Except String Bytes
  /-- Whether a signature of a message verifies under a public key. -/
  verify : KeyType → Bytes → Bytes → Bytes → Except String Bool
  getPublicKey : KeyType → Bytes → Except String Bytes
  base58Encode : Bytes → String
  base58Decode : String → Except String Bytes

def P256_ORDER : ℕ := 0xffffffff00000000ffffffffffffffffbce6faada7179e84f3b9cac2fc632551
def K256_ORDER : ℕ := 0xfffffffffffffffffffffffffffffffebaaedce6af48a03bbfd25e8cd0364141

def KeyType.order : KeyType → ℕ
  | .p256 => P256_ORDER
  | .p384 => P256_ORDER
  | _ => K256_ORDER

/-- The bytes from 32 on, as a big-endian number. -/
def decodeS (signature : Bytes) : ℕ :=
  (signature.drop 32).foldl (fun s b => s * 256 + b.toNat) 0

/-- Normalizes an ECDSA signature to low-S form. -/
def normalizeSignature (signature : Bytes) (type : KeyType) : Except String Bytes :=
  if signature.length ≠ 64 then
    .error s!"Unexpected ECDSA signature length {signature.length}; expected 64"
  else if type = .ed25519 then .ok signature
  else
    let n := type.order
    let s := decodeS signature
    if s ≤ n / 2 then .ok signature
    else .ok (signature.take 32 ++ bigEndian (((n : ℤ) - s) % 2 ^ 256).toNat 32)

section
variable (P : Primitives)

/-- Parse a `did:key:…` string into its raw key material. -/
def parseDidKey (didKey : String) : Except String KeyData :=
  if "did:key:".toList.isPrefixOf didKey.toList then do
    let decoded ← P.base58Decode (String.ofList (didKey.toList.drop "did:key:".length))
    match findCodec decoded .pub with
    | none => .error "Unknown public key codec for did:key"
    | some codec => .ok ⟨codec.type, decoded.drop codec.code.length⟩
  else .error s!"Not a did:key: {didKey}"

/-- Format raw key material as a `did:key:…` string. -/
def formatDidKey (key : KeyData) : Except String String :=
  match CODECS.find? fun c => c.type = key.type ∧ c.kind = .pub with
  | none => .error s!"Unsupported key type: {key.type.toString}"
  | some codec => .ok ("did:key:" ++ P.base58Encode (codec.code ++ key.bytes))

def parsePrivateMultibase (mb : String) : Except String KeyData := do
  let decoded ← P.base58Decode mb
  match findCodec decoded .priv with
  | none => .error "Unknown private key codec"
  | some codec => .ok ⟨codec.type, decoded.drop codec.code.length⟩

/-! ## Signatures of bytes -/

def signBytes (payload : Bytes) (privateKey : KeyData) : Except String Bytes :=
  match privateKey.type with
  | .ed25519 => P.sign .ed25519 payload privateKey.bytes
  | .p384 => .error "P-384 is not yet supported by the compat layer"
  | type => do
    let sig ← P.sign type (sha256 payload).1 privateKey.bytes
    normalizeSignature sig type

/-- Never throws. -/
def verifyBytes (payload signature : Bytes) (publicKey : KeyData) : Bool :=
  match publicKey.type with
  | .ed25519 => P.verify .ed25519 signature payload publicKey.bytes = .ok true
  | .p384 => false
  | type => P.verify type signature (sha256 payload).1 publicKey.bytes = .ok true

def derivePublicDidKey (privateKey : KeyData) : Except String String :=
  match privateKey.type with
  | .p384 => .error "Cannot derive P-384 public did:key; pass `publicKey` explicitly"
  | type => do
    let bytes ← P.getPublicKey type privateKey.bytes
    formatDidKey P ⟨type, bytes⟩

/-! ## Attestations -/

def DEFAULT_SIGNATURE_TYPE : String := "network.attested.signature"
def DEFAULT_PROOF_TYPE : String := "network.attested.proof"
def STRONG_REF_NSID : String := "com.atproto.repo.strongRef"

/-- Writes proof records: `createRecord collection record` gives the data of the response,
    when it is an object. -/
structure Agent where
  did : String
  createRecord : String → RecordMap → Except String (Option RecordMap)

structure AttestationOptions where
  privateKey : KeyData ⊕ String
  publicKey : Option String
  signatureType : Option String
  proofType : Option String
  role : Option String
  issuer : Option String
  agent : Option Agent

/-- An AT Protocol attestation signer. -/
structure Attestation where
  privateKey : KeyData
  /-- did:key -/
  publicKey : String
  signatureType : String
  proofType : String
  role : Option String
  issuer : Option String
  agent : Option Agent

/-- The constructor. -/
def Attestation.new (options : AttestationOptions) : Except String Attestation := do
  let privateKey ← match options.privateKey with
    | .inl key => .ok key
    | .inr mb => parsePrivateMultibase P mb
  let publicKey ← match options.publicKey with
    | some key => .ok key
    | none => derivePublicDidKey P privateKey
  let parsed ← parseDidKey P publicKey
  if parsed.type ≠ privateKey.type then
    .error s!"Public/private key type mismatch (pub={parsed.type.toString}, priv={privateKey.type.toString})"
  else
    .ok ⟨privateKey, publicKey, options.signatureType.getD DEFAULT_SIGNATURE_TYPE,
      options.proofType.getD DEFAULT_PROOF_TYPE, options.role, options.issuer, options.agent⟩

end

/-- `o.name`, on an object that may be undefined. -/
def field (o : Option RecordMap) (name : String) : Option Value :=
  match (o.getD []).lookup name with
  | some .undefined => none
  | v => v

/-- `v ?? s` -/
def orString (v : Option Value) (s : Option String) : Option Value :=
  match v with
  | none => s.map .text
  | some .null => s.map .text
  | some v => some v

namespace Attestation

/-- What the metadata adds: `issuer`, `issuedAt` and `role`, then the rest of it. -/
def attributes (a : Attestation) (extraMetadata : Option RecordMap) : RecordMap :=
  [("issuer", orString (field extraMetadata "issuer") a.issuer),
    ("issuedAt", field extraMetadata "issuedAt"),
    ("role", orString (field extraMetadata "role") a.role)].filterMap
      (fun e => e.2.map fun v => (e.1, v)) ++
    (extraMetadata.getD []).filter fun e => e.1 ∉ ["issuer", "issuedAt", "role"]

/-- Write a proof record and return a strongRef. -/
def writeProof (a : Attestation) (agent : Agent) (contentCid : String) (metadata : RecordMap) :
    Except String Value := do
  if agent.did = "" then .error "Attestation agent must expose a `did` to write proofs"
  let proofRecord : RecordMap := [("$type", .text a.proofType), ("cid", .text contentCid)] ++
    ["issuer", "role", "status"].filterMap fun name =>
      (field (some metadata) name).map fun v => (name, v)
  let data ← agent.createRecord a.proofType proofRecord
  match field data "uri", field data "cid" with
  | some (.text uri), some (.text cid) =>
    .ok (.object [("$type", .text STRONG_REF_NSID), ("uri", .text uri), ("cid", .text cid)])
  | _, _ => .error "PDS did not return \x7b uri, cid \x7d for proof write"

/-- The metadata that an inline entry is signed with. -/
def inlineMetadata (a : Attestation) (type : String) (extraMetadata : Option RecordMap) :
    RecordMap :=
  setAll (a.attributes extraMetadata) [("$type", .text type), ("key", .text a.publicKey)]

/-- An inline entry. -/
def inlineEntry (a : Attestation) (type : String) (extraMetadata : Option RecordMap) (cid : Cid)
    (signature : Bytes) : RecordMap :=
  setAll (a.attributes extraMetadata)
    [("$type", .text type), ("key", .text a.publicKey), ("cid", .text cid.toString),
      ("signature", .bytes signature)]

variable (P : Primitives)

/-- Sign a record. -/
def sign (a : Attestation) (record : RecordMap) (repository : String)
    (signatureType : Option String) (extraMetadata : Option RecordMap)
    (fields : Option (List String)) : Except String Value :=
  match a.agent with
  | some agent => do
    let metadata := setAll (a.attributes extraMetadata) [("$type", .text a.proofType)]
    let cid ← createAttestationCid P.encode record metadata repository fields
    a.writeProof agent cid.toString metadata
  | none => do
    let type := signatureType.getD a.signatureType
    let cid ← createAttestationCid P.encode record (a.inlineMetadata type extraMetadata)
      repository fields
    let signature ← signBytes P cid.bytes a.privateKey
    .ok (.object (a.inlineEntry type extraMetadata cid signature))

end Attestation

/-- The repository of an `at://` URI. -/
def strongRefRepo (uri : String) : Option String :=
  if "at://".toList.isPrefixOf uri.toList then
    some (String.ofList ((uri.toList.drop "at://".length).takeWhile (· ≠ '/')))
  else none

/-- `v === s` -/
def isText (s : String) : Option Value → Bool
  | some (.text t) => t = s
  | _ => false

/-- Whether an entry was issued by the signer. -/
def Attestation.isOwn (a : Attestation) : Value → Bool
  | .object entry =>
    if isText STRONG_REF_NSID (entry.lookup "$type") then
      match entry.lookup "uri", a.agent with
      | some (.text uri), some agent => agent.did ≠ "" ∧ strongRefRepo uri = some agent.did
      | _, _ => false
    else isText a.publicKey (entry.lookup "key")
  | _ => false

/-- `record.signatures`, when it is an array. -/
def signaturesOf (record : RecordMap) : List Value :=
  match record.lookup "signatures" with
  | some (.array entries) => entries
  | _ => []

/-- The entry takes the place of the first own one, or comes last. -/
def Attestation.place (a : Attestation) (prior : List Value) (entry : Value) : List Value :=
  match prior.findIdx? a.isOwn with
  | some replaceIdx => prior.set replaceIdx entry
  | none => prior ++ [entry]

/-- Sign and merge the entry into `record.signatures`. -/
def Attestation.signAndAppend (P : Primitives) (a : Attestation) (record : RecordMap)
    (repository : String) (signatureType : Option String) (metadata : Option RecordMap)
    (fields : Option (List String)) : Except String RecordMap := do
  let entry ← a.sign P record repository signatureType metadata fields
  return set "signatures" (.array (a.place (signaturesOf record) entry)) record

/-! ## Lawful primitives -/

/-- What the third-party code is documented to do: a signature verifies under the public half
    of its key, an ECDSA one has 64 bytes and a low S; `base58btc` decodes what it encodes. -/
structure Primitives.Lawful (P : Primitives) : Prop where
  verify_sign : ∀ {type message key sig pub}, P.sign type message key = .ok sig →
    P.getPublicKey type key = .ok pub → P.verify type sig message pub = .ok true
  sign_compact : ∀ {type message key sig}, type ≠ .ed25519 → P.sign type message key = .ok sig →
    sig.length = 64 ∧ decodeS sig ≤ type.order / 2
  base58Decode_encode : ∀ bytes, P.base58Decode (P.base58Encode bytes) = .ok bytes

section
variable {P : Primitives}

/-- The code of a type is found again, whatever follows it. -/
theorem findCodec_append {codec : CodecEntry} (h : codec ∈ CODECS) (hpub : codec.kind = .pub)
    (bytes : Bytes) : findCodec (codec.code ++ bytes) .pub = some codec := by
  simp only [CODECS, List.mem_cons, List.not_mem_nil, or_false] at h
  rcases h with rfl | rfl | rfl | rfl | rfl | rfl | rfl | rfl
  all_goals first | rfl | cases hpub

theorem formatDidKey_eq_ok {key : KeyData} {did : String} (h : formatDidKey P key = .ok did) :
    ∃ codec ∈ CODECS, codec.type = key.type ∧ codec.kind = .pub ∧
      did = "did:key:" ++ P.base58Encode (codec.code ++ key.bytes) := by
  unfold formatDidKey at h
  split at h
  · cases h
  · next codec hcodec =>
    have hprop := List.find?_some hcodec
    simp only [decide_eq_true_eq] at hprop
    exact ⟨codec, List.mem_of_find?_eq_some hcodec, hprop.1, hprop.2, (Except.ok.inj h).symm⟩

/-- A public key comes back from its `did:key`. -/
theorem parseDidKey_formatDidKey (hP : P.Lawful) {key : KeyData} {did : String}
    (h : formatDidKey P key = .ok did) : parseDidKey P did = .ok key := by
  obtain ⟨codec, hmem, htype, hpub, rfl⟩ := formatDidKey_eq_ok h
  have hcut : ("did:key:" ++ P.base58Encode (codec.code ++ key.bytes)).toList =
      "did:key:".toList ++ (P.base58Encode (codec.code ++ key.bytes)).toList := String.toList_append
  have hrest : String.ofList (("did:key:".toList ++
      (P.base58Encode (codec.code ++ key.bytes)).toList).drop "did:key:".length) =
        P.base58Encode (codec.code ++ key.bytes) := by
    have hlen : "did:key:".toList.length = "did:key:".length := rfl
    rw [List.drop_left' hlen, String.ofList_toList]
  have hpre : "did:key:".toList.isPrefixOf ("did:key:".toList ++
      (P.base58Encode (codec.code ++ key.bytes)).toList) :=
    List.isPrefixOf_iff_prefix.2 (List.prefix_append _ _)
  rw [parseDidKey, hcut, if_pos hpre, hrest, hP.base58Decode_encode, ok_bind,
    findCodec_append hmem hpub]
  simp only [List.drop_left, htype]

theorem normalizeSignature_of_low {sig : Bytes} {type : KeyType} (hlen : sig.length = 64)
    (hlow : decodeS sig ≤ type.order / 2) : normalizeSignature sig type = .ok sig := by
  unfold normalizeSignature
  simp only [if_neg (not_not_intro hlen), if_pos hlow, ite_self]

/-- What a key signs verifies under its public half, found in its `did:key`. -/
theorem verifyBytes_signBytes (hP : P.Lawful) {payload sig : Bytes} {key : KeyData} {did : String}
    (hsign : signBytes P payload key = .ok sig) (hdid : derivePublicDidKey P key = .ok did) :
    ∃ pub, parseDidKey P did = .ok pub ∧ verifyBytes P payload sig pub = true := by
  obtain ⟨type, priv⟩ := key
  -- The two ECDSA curves: the signature is low, so normalizing it changes nothing.
  have hecdsa : ∀ {type : KeyType}, type ≠ .ed25519 →
      (P.sign type (sha256 payload).1 priv >>= fun sig => normalizeSignature sig type) = .ok sig →
      P.sign type (sha256 payload).1 priv = .ok sig := by
    intro type hne h
    obtain ⟨sig', hsig', h⟩ := bind_eq_ok.1 h
    obtain ⟨hlen, hlow⟩ := hP.sign_compact hne hsig'
    rw [normalizeSignature_of_low hlen hlow] at h
    rw [hsig', h]
  cases type with
  | p384 => cases hsign
  | ed25519 =>
    obtain ⟨pub, hpub, hformat⟩ := bind_eq_ok.1 hdid
    refine ⟨_, parseDidKey_formatDidKey hP hformat, ?_⟩
    exact decide_eq_true (hP.verify_sign hsign hpub)
  | k256 =>
    obtain ⟨pub, hpub, hformat⟩ := bind_eq_ok.1 hdid
    refine ⟨_, parseDidKey_formatDidKey hP hformat, ?_⟩
    exact decide_eq_true (hP.verify_sign (hecdsa KeyType.noConfusion hsign) hpub)
  | p256 =>
    obtain ⟨pub, hpub, hformat⟩ := bind_eq_ok.1 hdid
    refine ⟨_, parseDidKey_formatDidKey hP hformat, ?_⟩
    exact decide_eq_true (hP.verify_sign (hecdsa KeyType.noConfusion hsign) hpub)

end

/-! ## A table of keys -/

/-- A private key, the public one, a signature and the public key in base58. -/
structure SampleKey where
  priv : Bytes
  pub : Bytes
  sig : Bytes
  multibase : String

def sampleKeys : List SampleKey :=
  [⟨bigEndian 1 32,
      bigEndian 0x0279be667ef9dcbbac55a06295ce870b07029bfcdb2dce28d959f2815b16f81798 33,
      bigEndian 0x4f6b97396ab6279116a6a9fbdc75d67b7c363ca254f8b8ae2613008409af4d7174a520bfda813b089e54f7470c059527a3f07f9d27a59fadf66b9d308f3bfff9 64,
      "zQ3shVc2UkAfJCdc1TR8E66J85h48P43r93q8jGPkPpjF9Ef9"⟩,
    ⟨bigEndian 2 32,
      bigEndian 0x02c6047f9441ed7d6d3045406e95c07cd85c778e4b8cef3ca7abac09b95c709ee5 33,
      bigEndian 0x53e8da51277c044ef5ab046ae9ba02b314d21325997003ca81e9c9f45661a6952b1ed89cdf2b2a26aa53c37ec464ca0c3c01d202708d0b9180f92a562a8bacd8 64,
      "zQ3shajmTb29MxR6htjD79Hdo6vneJLvyKCzZSRcawNWks9JC"⟩,
    ⟨bigEndian 3 32,
      bigEndian 0x02f9308a019258c31049344f85f89d5229b531c845836f99b08601f113bce036f9 33,
      bigEndian 0xa253c5430cd31c80d6e8d9a7a27384f6ce7d08fed9aea7aee6bc2c5a84ec0f5b44bd6c588cee676c378a83f1b4a1f709bf585403022e0048172035a2f3f7ba31 64,
      "zQ3sheBXCeZNNKcYTSbn3U6mTZD228vEFA753n76azCDQq16g"⟩,
    ⟨bigEndian 4 32,
      bigEndian 0x02e493dbf1c10d80f3581e4904930b1404cc6c13900ee0758474fa94abe8c4cd13 33,
      bigEndian 0xd1c1a157801761b8d8676804e4ce8399faad9855fd3afd41975bd1d69557ba7e7a7fbdc39168f7b088bc53123b9b443c99474d1c626e16c21a52ae2c45aa0bb3 64,
      "zQ3shco4Uk98TGkHPLvwMGMLRdzdorphodpTeQP6RXfWBdDiz"⟩]

def sampleKey (i : Fin 4) : SampleKey := sampleKeys.get i

def aliceKey : SampleKey := sampleKey 0

def bidderKey : SampleKey := sampleKey 2

def requesterKey : SampleKey := sampleKey 3

theorem sampleKey_mem (i : Fin 4) : sampleKey i ∈ sampleKeys := List.get_mem sampleKeys i

/-- The encoder, on values whose encoding comes back. -/
def sampleEncode (value : Value) : Except String Bytes :=
  if Cbor.plain value then Cbor.encode value else .error "unsupported"

/-- Bytes that are no key of the table get a code of their own. -/
def sampleBase58 (bytes : Bytes) : String :=
  match sampleKeys.find? fun k => 0xe7 :: 0x01 :: k.pub = bytes with
  | some k => k.multibase
  | none => String.ofList ('?' :: bytes.map fun b => Char.ofNat b.toNat)

def sampleUnbase58 (s : String) : Except String Bytes :=
  match sampleKeys.find? fun k => k.multibase = s with
  | some k => .ok (0xe7 :: 0x01 :: k.pub)
  | none => .ok ((s.toList.drop 1).map fun c => c.toNat.toUInt8)

/-- The primitives on the keys of the table. -/
def samplePrimitives : Primitives where
  encode := sampleEncode
  sign type _ key :=
    match sampleKeys.find? fun k => k.priv = key with
    | some k => if type = .k256 then .ok k.sig else .error "invalid key"
    | none => .error "invalid key"
  verify _ sig _ pub := .ok (sampleKeys.any fun k => k.sig = sig ∧ k.pub = pub)
  getPublicKey _ key :=
    match sampleKeys.find? fun k => k.priv = key with
    | some k => .ok k.pub
    | none => .error "invalid key"
  base58Encode := sampleBase58
  base58Decode := sampleUnbase58

theorem toUInt8_ofNat (b : UInt8) : (Char.ofNat b.toNat).toNat.toUInt8 = b := by
  have hb := b.toNat_lt
  have hvalid : Nat.isValidChar b.toNat := .inl (by omega)
  rw [Char.ofNat, dif_pos hvalid]
  exact Base64.toUInt8_eq (Nat.mod_eq_of_lt hb)

theorem sampleUnbase58_sampleBase58 (bytes : Bytes) :
    sampleUnbase58 (sampleBase58 bytes) = .ok bytes := by
  unfold sampleBase58
  split
  · next k hk =>
    have hmem := List.mem_of_find?_eq_some hk
    have hbytes : 0xe7 :: 0x01 :: k.pub = bytes := by simpa using List.find?_some hk
    rw [← hbytes]
    simp only [sampleKeys, List.mem_cons, List.not_mem_nil, or_false] at hmem
    rcases hmem with rfl | rfl | rfl | rfl <;> rfl
  · -- No multibase of the table starts like the other codes.
    have hnone : (sampleKeys.find? fun k =>
        k.multibase = String.ofList ('?' :: bytes.map fun b => Char.ofNat b.toNat)) = none := by
      refine List.find?_eq_none.2 fun k hk heq => ?_
      have hhead := congrArg (fun s => s.toList.head?) (of_decide_eq_true heq)
      simp only [String.toList_ofList, List.head?_cons] at hhead
      have hall : sampleKeys.all fun k => k.multibase.toList.head? ≠ some '?' := by
        decide +kernel
      exact of_decide_eq_true (List.all_eq_true.1 hall k hk) hhead
    rw [sampleUnbase58, hnone]
    simp only [String.toList_ofList, List.drop_one, List.tail_cons, List.map_map,
      Function.comp_def, toUInt8_ofNat, List.map_id']

theorem samplePrimitives_lawful : samplePrimitives.Lawful where
  verify_sign := by
    intro type message key sig pub hsign hpub
    simp only [samplePrimitives] at hsign hpub ⊢
    rcases hk : sampleKeys.find? fun k => k.priv = key with _ | k
    · simp only [hk] at hpub
      cases hpub
    · simp only [hk] at hsign hpub
      split_ifs at hsign
      obtain rfl := Except.ok.inj hsign
      obtain rfl := Except.ok.inj hpub
      refine congrArg _ (List.any_eq_true.2 ⟨k, List.mem_of_find?_eq_some hk, ?_⟩)
      simp
  sign_compact := by
    intro type message key sig _ hsign
    simp only [samplePrimitives] at hsign
    rcases hk : sampleKeys.find? fun k => k.priv = key with _ | k
    · simp only [hk] at hsign
      cases hsign
    · simp only [hk] at hsign
      split_ifs at hsign with htype
      obtain rfl := Except.ok.inj hsign
      have hall : sampleKeys.all fun k => k.sig.length = 64 ∧ decodeS k.sig ≤ K256_ORDER / 2 := by
        decide +kernel
      subst htype
      exact of_decide_eq_true (List.all_eq_true.1 hall k (List.mem_of_find?_eq_some hk))
  base58Decode_encode := sampleUnbase58_sampleBase58

end ComputeContract.Attest
