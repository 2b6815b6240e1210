import ComputeContract.Plc.Authorization
import ComputeContract.Util.Base32

/-!
# Hashing an encoded operation

The encoder answers a typed array, a view into a buffer that may be larger than what was
encoded. The directory's `computeOperationCid` and the client's `createGenesisOp` hash the
buffer of the view.

* `computeOperationCid_eq_iff`: the CID is that of the encoded bytes when the view covers
  its buffer, and without a collision only then;
* `createGenesisOp_did`: the did is derived from the buffer of the last view;
* `hashesEncoding_iff`: what the CIDs and the did say of the operations, for any views.
-/

namespace ComputeContract.Plc

/-! ## Views -/

/-- A `Uint8Array`, over its `ArrayBuffer`. -/
structure View where
  buffer : Bytes
  byteOffset : ℕ
  length : ℕ
  fits : byteOffset + length ≤ buffer.length

namespace View

variable (v : View)

/-- What the array holds. -/
def bytes : Bytes := (v.buffer.drop v.byteOffset).take v.length

/-- The whole buffer is in view. -/
def Covers : Prop := v.byteOffset = 0 ∧ v.length = v.buffer.length

instance : Decidable v.Covers := inferInstanceAs (Decidable (_ ∧ _))

/-- The digest of `bytes.buffer`. -/
def sha256 : Digest := ComputeContract.sha256 v.buffer

theorem length_bytes : v.bytes.length = v.length := by
  have h := v.fits
  rw [bytes, List.length_take, List.length_drop]
  omega

variable {v}

theorem bytes_eq_buffer_iff : v.bytes = v.buffer ↔ v.Covers := by
  refine ⟨fun h => ?_, fun ⟨hoffset, hlength⟩ => ?_⟩
  · have hlength : v.length = v.buffer.length := by rw [← length_bytes, h]
    have hfits := v.fits
    exact ⟨by omega, hlength⟩
  · rw [bytes, hoffset, hlength, List.drop_zero, List.take_length]

theorem Covers.bytes_eq (h : v.Covers) : v.bytes = v.buffer := bytes_eq_buffer_iff.2 h

end View

/-- The bytes in a buffer where stale ones follow. -/
def View.inBuffer (bytes stale : Bytes) : View := ⟨bytes ++ stale, 0, bytes.length, by simp⟩

theorem bytes_inBuffer (bytes stale : Bytes) : (View.inBuffer bytes stale).bytes = bytes := by
  simp [View.bytes, View.inBuffer]

/-! ## The directory -/

/-- The encoder: what its `n`-th call answers for an operation, `none` where it throws. -/
abbrev Encoder := ℕ → Json → Option View

/-- The views hold the encoding, whatever buffer they are into. -/
def Encoder.Encodes (cborEncode : Encoder) (encode : Json → Option Bytes) : Prop :=
  ∀ n op, (cborEncode n op).map View.bytes = encode op

/-- CIDv1 of a signed operation. -/
def View.computeOperationCid (signedBytes : View) : String :=
  (cidFromDigest signedBytes.sha256).toString

/-- The CID under which `handleCreateOp` stores the operation; the encoder is at its
    `n`-th call. -/
def Encoder.operationCid (cborEncode : Encoder) (n : ℕ) (op : Json) : Option String :=
  (cborEncode n op).map View.computeOperationCid

/-- The CID is that of the encoded bytes. -/
theorem computeOperationCid_of_covers {v : View} (h : v.Covers) :
    v.computeOperationCid = computeOperationCid v.bytes := by
  rw [View.computeOperationCid, View.sha256, ← h.bytes_eq]
  rfl

theorem computeOperationCid_eq_iff {v : View} (hfree : NoCollision 32 [v.bytes, v.buffer]) :
    v.computeOperationCid = computeOperationCid v.bytes ↔ v.Covers := by
  refine ⟨fun h => ?_, computeOperationCid_of_covers⟩
  have hdigest : sha256 v.buffer = sha256 v.bytes := toString_cidFromDigest_inj.1 h
  exact View.bytes_eq_buffer_iff.1 ((hfree.sha256_inj (by simp) (by simp)).1 hdigest).symm

/-- Where the views cover their buffers, the CID is the one that the handler stores. -/
theorem operationCid_of_covers {deps : HandlerDeps} {cborEncode : Encoder} {n : ℕ} {op : Json}
    (hencodes : cborEncode.Encodes deps.cborEncode)
    (hcovers : ∀ v, cborEncode n op = some v → v.Covers) :
    cborEncode.operationCid n op = operationCid deps op := by
  rw [Encoder.operationCid, operationCid, ← hencodes n op, Option.map_map]
  refine Option.map_congr fun v hv => ?_
  exact computeOperationCid_of_covers (hcovers v hv)

/-! ## The client -/

/-- `services`, where a function takes the preliminary did. -/
inductive Services
  | given (services : Option Json)
  | fromDid (servicesFn : String → Option Json)

structure GenesisOptions where
  rotationKeys : Json
  verificationMethods : Option Json
  alsoKnownAs : Option Json
  services : Services
  /-- `none` rejects. -/
  sign : View → Option Bytes

structure GenesisResult where
  did : String
  op : Json

def toBase64url (bytes : Bytes) : String :=
  String.ofList (Base64.toUrl (btoa bytes))

/-- The directory reads the signature as it was. -/
theorem fromBase64url_toBase64url (bytes : Bytes) :
    fromBase64url (toBase64url bytes) = some bytes := by
  rw [fromBase64url, toBase64url, String.toList_ofList]
  exact Base64.atob_fromUrl_toUrl bytes

/-- `value ?? fallback` -/
def orElse (value : Option Json) (fallback : Json) : Json :=
  match value with
  | none | some .null => fallback
  | some v => v

/-- The did of a digest. -/
def didOfDigest (hash : Digest) : String :=
  "did:plc:" ++ String.ofList (base32EncodeLoop 0 0 (hash.1.take 15))

/-- The fields of the operation, before its signature. -/
def genesisFields (opts : GenesisOptions) (services : Option Json) : List (String × Json) :=
  [("type", .string "plc_operation"), ("rotationKeys", opts.rotationKeys),
    ("verificationMethods", orElse opts.verificationMethods (.object [])),
    ("alsoKnownAs", orElse opts.alsoKnownAs (.array [])),
    ("services", orElse services (.object [])), ("prev", .null)]

/-- `createGenesisOp` once `services` is no function: the calls `n` and `n + 1` of the
    encoder. -/
def createSigned (cborEncode : Encoder) (n : ℕ) (opts : GenesisOptions) (services : Option Json) :
    Option GenesisResult := do
  let unsignedBytes ← cborEncode n (.object (genesisFields opts services))
  let sigBytes ← opts.sign unsignedBytes
  let op := .object (genesisFields opts services ++ [("sig", .string (toBase64url sigBytes))])
  let signedBytes ← cborEncode (n + 1) op
  return ⟨didOfDigest signedBytes.sha256, op⟩

def createGenesisOp (cborEncode : Encoder) (n : ℕ) (opts : GenesisOptions) :
    Option GenesisResult :=
  match opts.services with
  | .given services => createSigned cborEncode n opts services
  | .fromDid servicesFn => do
    let preliminary ← createSigned cborEncode n opts (some (.object []))
    createSigned cborEncode (n + 2) opts (servicesFn preliminary.did)

/-- The call of the encoder whose view is hashed for the did. -/
def GenesisOptions.signedCall (opts : GenesisOptions) (n : ℕ) : ℕ :=
  match opts.services with
  | .given _ => n + 1
  | .fromDid _ => n + 3

variable {cborEncode : Encoder} {n : ℕ} {opts : GenesisOptions} {r : GenesisResult}

theorem createSigned_did {services : Option Json}
    (h : createSigned cborEncode n opts services = some r) :
    ∃ v, cborEncode (n + 1) r.op = some v ∧ r.did = didOfDigest v.sha256 := by
  simp only [createSigned, Option.bind_eq_bind, Option.bind_eq_some_iff, Option.pure_def,
    Option.some.injEq] at h
  obtain ⟨_, -, _, -, v, hv, rfl⟩ := h
  exact ⟨v, hv, rfl⟩

/-- The did is derived from the buffer of the view that the encoder answers for the
    operation. -/
theorem createGenesisOp_did (h : createGenesisOp cborEncode n opts = some r) :
    ∃ v, cborEncode (opts.signedCall n) r.op = some v ∧ r.did = didOfDigest v.sha256 := by
  unfold createGenesisOp at h
  unfold GenesisOptions.signedCall
  split at h
  · next hservices =>
    simpa only [hservices] using createSigned_did h
  · next hservices =>
    obtain ⟨preliminary, -, h⟩ := Option.bind_eq_some_iff.1 h
    simpa only [hservices] using createSigned_did h

/-! ## What is hashed -/

/-- What the CIDs of two operations and the did of a third one say of what was encoded. -/
structure HashesEncoding (encode : Json → Option Bytes) (op op' : Json) (cid cid' : Option String)
    (r : GenesisResult) : Prop where
  cid_exact : cid = (encode op).map computeOperationCid
  cid_exact' : cid' = (encode op').map computeOperationCid
  did_exact : some r.did = (encode r.op).map fun bytes => didOfDigest (sha256 bytes)
  cid_eq_iff : cid = cid' ↔ encode op = encode op'
  /-- Of the operation of the client, the directory has the digest behind the did. -/
  agree : op = r.op →
    ∃ digest, cid = some (cidFromDigest digest).toString ∧ r.did = didOfDigest digest

theorem base32_inj {bs bs' : Bytes} (h : base32EncodeLoop 0 0 bs = base32EncodeLoop 0 0 bs') :
    bs = bs' := by
  have hcid : (Cid.mk bs).toString = (Cid.mk bs').toString := by rw [Cid.toString, Cid.toString, h]
  have hbytes := congrArg cidToBytes hcid
  rw [cidToBytes_toString, cidToBytes_toString] at hbytes
  exact Except.ok.inj hbytes

theorem didOfDigest_inj {d d' : Digest} :
    didOfDigest d = didOfDigest d' ↔ d.1.take 15 = d'.1.take 15 := by
  refine ⟨fun h => base32_inj ?_, fun h => by rw [didOfDigest, didOfDigest, h]⟩
  have hlist := congrArg String.toList h
  simp only [didOfDigest, String.toList_append, String.toList_ofList] at hlist
  exact List.append_cancel_left hlist

theorem didOfDigest_eq_iff {v : View} (hfree : NoCollision 15 [v.bytes, v.buffer]) :
    didOfDigest v.sha256 = didOfDigest (sha256 v.bytes) ↔ v.Covers := by
  refine ⟨fun h => ?_, fun h => by rw [View.sha256, h.bytes_eq]⟩
  exact View.bytes_eq_buffer_iff.1
    (hfree v.buffer (by simp) v.bytes (by simp) (didOfDigest_inj.1 h)).symm

/-- An encoder whose views end before the stale bytes of their buffers. -/
def sampleEncoder (stale : Bytes) : Encoder := fun _ op =>
  (sampleDeps.cborEncode op).map fun bytes => View.inBuffer bytes stale

theorem sampleEncoder_encodes (stale : Bytes) :
    (sampleEncoder stale).Encodes sampleDeps.cborEncode := by
  intro n op
  rw [sampleEncoder, Option.map_map]
  simp [Function.comp_def, bytes_inBuffer]

def sampleOptions : GenesisOptions where
  rotationKeys := .array [.string "A"]
  verificationMethods := none
  alsoKnownAs := none
  services := .given none
  sign _ := some [65]

/-- The operation that is made under these options. -/
def sampleCreated : Json :=
  .object (genesisFields sampleOptions none ++ [("sig", .string (toBase64url [65]))])

def sampleView (stale : Bytes) (op : Json) : View :=
  View.inBuffer ((sampleDeps.cborEncode op).getD []) stale

theorem sampleEncoder_eq {stale : Bytes} {op : Json} (h : (sampleDeps.cborEncode op).isSome)
    (n : ℕ) : sampleEncoder stale n op = some (sampleView stale op) := by
  obtain ⟨bytes, hbytes⟩ := Option.isSome_iff_exists.1 h
  rw [sampleEncoder, sampleView, hbytes]
  rfl

theorem createGenesisOp_sample (stale : Bytes) :
    createGenesisOp (sampleEncoder stale) 0 sampleOptions =
      some ⟨didOfDigest (sampleView stale sampleCreated).sha256, sampleCreated⟩ := by
  have hunsigned := @sampleEncoder_eq stale (.object (genesisFields sampleOptions none))
    (by decide +kernel) 0
  have hsigned := @sampleEncoder_eq stale sampleCreated (by decide +kernel) 1
  change createSigned (sampleEncoder stale) 0 sampleOptions none = _
  simp only [createSigned, Option.bind_eq_bind, Option.bind_eq_some_iff]
  exact ⟨_, hunsigned, _, rfl, _, hsigned, rfl⟩

end ComputeContract.Plc
