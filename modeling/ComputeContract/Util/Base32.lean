import ComputeContract.Util.Cid
import ComputeContract.Util.FiveBits

/-!
# Base32, there and back

The base32 of CIDs is that of `FiveBits`, with an alphabet.

* `decodeLoop_encodeLoop`: the decoder makes the bytes the encoder is given;
* `cidToBytes_toString`: a CID is read from its string form.
-/

namespace ComputeContract

def base32Char (d : Fin 32) : Char := BASE32_ALPHABET.getD d 'a'

theorem idxOf_base32Char : ∀ d, BASE32_ALPHABET.idxOf? (base32Char d) = some d.val := by
  decide +kernel

theorem base32EncodeLoop_eq (bits value : ℕ) (bs : Bytes) :
    base32EncodeLoop bits value bs = (b32digits bits value bs).map base32Char := by
  induction bs generalizing bits value with
  | nil =>
    rw [base32EncodeLoop, b32digits]
    split_ifs <;> rfl
  | cons b bs ih =>
    rw [base32EncodeLoop, b32digits]
    dsimp only
    rw [ih, ih]
    split_ifs <;> rfl

theorem base32DecodeLoop_map (bits value : ℕ) (ds : List (Fin 32)) :
    base32DecodeLoop bits value (ds.map base32Char) = .ok (b32bytes bits value ds) := by
  induction ds generalizing bits value with
  | nil => rfl
  | cons d ds ih =>
    rw [List.map_cons, base32DecodeLoop, idxOf_base32Char, b32bytes]
    dsimp only
    rw [ih, ih]
    split_ifs <;> rfl

theorem decodeLoop_encodeLoop (bs : Bytes) :
    base32DecodeLoop 0 0 (base32EncodeLoop 0 0 bs) = .ok bs := by
  rw [base32EncodeLoop_eq, base32DecodeLoop_map]
  exact congrArg Except.ok (b32bytes_b32digits bs 0 0 0 (by decide))

/-- A CID is read from its string form. -/
theorem cidToBytes_toString (cid : Cid) : cidToBytes cid.toString = .ok cid.bytes := by
  rw [cidToBytes, Cid.toString, String.toList_ofList]
  exact decodeLoop_encodeLoop cid.bytes

theorem toString_cidFromDigest_inj {d d' : Digest} :
    (cidFromDigest d).toString = (cidFromDigest d').toString ↔ d = d' := by
  refine ⟨fun h => ?_, fun h => by rw [h]⟩
  have hbytes := congrArg cidToBytes h
  rw [cidToBytes_toString, cidToBytes_toString] at hbytes
  exact Subtype.ext (List.append_cancel_left (Except.ok.inj hbytes))

/-- Two of the byte strings whose digests begin with the same `n` bytes are equal. -/
def NoCollision (n : ℕ) (hashed : List Bytes) : Prop :=
  ∀ a ∈ hashed, ∀ b ∈ hashed, (sha256 a).1.take n = (sha256 b).1.take n → a = b

instance (n : ℕ) (hashed : List Bytes) : Decidable (NoCollision n hashed) :=
  inferInstanceAs (Decidable (∀ a ∈ hashed, ∀ b ∈ hashed, _))

theorem NoCollision.mono {n : ℕ} {hashed hashed' : List Bytes} (h : NoCollision n hashed')
    (hsub : hashed ⊆ hashed') : NoCollision n hashed :=
  fun a ha b hb => h a (hsub ha) b (hsub hb)

theorem NoCollision.sha256_inj {hashed : List Bytes} (h : NoCollision 32 hashed) {a b : Bytes}
    (ha : a ∈ hashed) (hb : b ∈ hashed) : sha256 a = sha256 b ↔ a = b :=
  ⟨fun heq => h a ha b hb (by rw [heq]), fun heq => by rw [heq]⟩

end ComputeContract
