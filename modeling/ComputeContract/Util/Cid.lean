import ComputeContract.Util.Sha256

/-!
# CIDs

CIDv1: `<version:1><codec:1><mh-type:1><mh-len:1><digest:32>`. A CID string is the
multibase prefix `b` and the base32 form of these bytes; it is kept here as the
bytes it stands for, and `cidToBytes` reads the strings that come from outside.
-/

namespace ComputeContract

/-- A CID, by its raw bytes. -/
structure Cid where
  bytes : Bytes
  deriving DecidableEq

/-- dag-cbor multicodec. -/
def DAG_CBOR_CODEC : UInt8 := 0x71
/-- sha2-256 multihash type. -/
def SHA256_CODE : UInt8 := 0x12
/-- sha2-256 digest length in bytes. -/
def SHA256_DIGEST_LEN : UInt8 := 32

/-- Build a CIDv1 (dag-cbor, sha2-256) from a raw sha256 digest. -/
def cidFromDigest (digest : Digest) : Cid :=
  ⟨[0x01, DAG_CBOR_CODEC, SHA256_CODE, SHA256_DIGEST_LEN] ++ digest.1⟩

/-- The CID of a block. -/
def cidForBytes (bytes : Bytes) : Cid := cidFromDigest (sha256 bytes)

/-- Validate a CID. -/
def isValidCid (cid : Cid) : Bool :=
  cid.bytes.length = 36 ∧ cid.bytes[0]? = some 0x01 ∧ cid.bytes[1]? = some DAG_CBOR_CODEC ∧
    cid.bytes[2]? = some SHA256_CODE ∧ cid.bytes[3]? = some SHA256_DIGEST_LEN

theorem isValidCid_cidFromDigest (digest : Digest) : isValidCid (cidFromDigest digest) := by
  simp [isValidCid, cidFromDigest, digest.2]

theorem length_of_isValidCid {cid : Cid} (h : isValidCid cid) : cid.bytes.length = 36 := by
  simp only [isValidCid, decide_eq_true_eq] at h
  exact h.1

/-! ## CID strings -/

def BASE32_ALPHABET : List Char := "abcdefghijklmnopqrstuvwxyz234567".toList

/-- The loop of `base32Decode`, over the characters left, with the bits that make
    no byte yet. -/
def base32DecodeLoop (bits value : ℕ) : List Char → Except String Bytes
  | [] => .ok []
  | c :: cs =>
    match BASE32_ALPHABET.idxOf? c with
    | none => .error s!"base32: invalid character '{c}'"
    | some idx =>
      let value := (value * 32 + idx) % 0x100000000
      let bits := bits + 5
      if 8 ≤ bits then do
        let out ← base32DecodeLoop (bits - 8) value cs
        return (value / 2 ^ (bits - 8)).toUInt8 :: out
      else base32DecodeLoop bits value cs

/-- The loop of `base32Encode`, over the bytes left, with the bits that make no
    character yet. -/
def base32EncodeLoop (bits value : ℕ) : Bytes → List Char
  | [] => if 0 < bits then [BASE32_ALPHABET.getD (value * 2 ^ (5 - bits) % 32) 'a'] else []
  | b :: bs =>
    let value := (value * 256 + b.toNat) % 0x100000000
    let bits := bits + 8
    let char n := BASE32_ALPHABET.getD (value / 2 ^ (bits - n) % 32) 'a'
    if 10 ≤ bits then char 5 :: char 10 :: base32EncodeLoop (bits - 10) value bs
    else char 5 :: base32EncodeLoop (bits - 5) value bs

/-- A byte makes two characters at most. -/
theorem length_base32EncodeLoop_le (bits value : ℕ) (bs : Bytes) :
    (base32EncodeLoop bits value bs).length ≤ 2 * bs.length + 1 := by
  induction bs generalizing bits value with
  | nil =>
    rw [base32EncodeLoop]
    split_ifs <;> simp
  | cons b bs ih =>
    rw [base32EncodeLoop]
    split_ifs
    · have h := ih (bits + 8 - 10) ((value * 256 + b.toNat) % 0x100000000)
      simp only [List.length_cons]
      omega
    · have h := ih (bits + 8 - 5) ((value * 256 + b.toNat) % 0x100000000)
      simp only [List.length_cons]
      omega

/-- The string form: multibase `b` and base32. -/
def Cid.toString (cid : Cid) : String := String.ofList ('b' :: base32EncodeLoop 0 0 cid.bytes)

/-- Parse a CIDv1 string into its raw bytes. -/
def cidToBytes (cid : String) : Except String Bytes :=
  match cid.toList with
  | 'b' :: cs => base32DecodeLoop 0 0 cs
  | c => .error s!"cidToBytes: CID must start with 'b' (multibase base32), got '{String.ofList (c.take 1)}'"

/-- A CID string, there and back. -/
example : cidToBytes (Cid.toString ⟨[0x01, 0x71, 0x12]⟩) = .ok [0x01, 0x71, 0x12] := by
  decide +kernel

end ComputeContract
