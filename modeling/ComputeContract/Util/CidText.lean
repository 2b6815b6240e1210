import ComputeContract.Lib.Except
import ComputeContract.Util.Base32

/-!
# The copies of the CID codec

The conversion between the string form of a CID and its bytes is written out several times: in the
helpers (`base32Encode`, `cidToBytes`), in the CBOR codec (`cidLink`), in the repository and in its
CAR files (`cidToRawBytes`, `cidFromRawBytes`). Here they are as they compute, with accumulators of
32 bits that are never masked.

* `encodeLoop_eq`, `decodeLoop_eq`: the loops are those of `Base32`, whatever the accumulators hold;
* `codecs_agree`: base32 comes back, and the copies agree.
-/

namespace ComputeContract.CidText

/-! ## The loops -/

section
variable (alphabet : List Char)

/-- The character of the lowest five bits. -/
def charAt (value : BitVec 32) : Char := alphabet.getD (value &&& 0x1f).toNat 'a'

/-- The characters that are added while there are five bits, and how many bits are left. -/
def addChars (value : BitVec 32) (bits : ℕ) : List Char × ℕ :=
  if 5 ≤ bits then
    let rest := addChars value (bits - 5)
    (charAt alphabet (value >>> (bits - 5)) :: rest.1, rest.2)
  else ([], bits)

/-- The loop over the bytes, and the character for the bits that are left. -/
def encodeLoop (value : BitVec 32) (bits : ℕ) : Bytes → List Char
  | [] => if 0 < bits then [charAt alphabet (value <<< (5 - bits))] else []
  | b :: bs =>
    let value := value <<< 8 ||| b.toBitVec.setWidth 32
    let added := addChars alphabet value (bits + 8)
    added.1 ++ encodeLoop value added.2 bs

/-- The loop over the characters; `invalid` is the text of the error for one that is not in the
    alphabet. -/
def decodeLoop (invalid : Char → String) (value : BitVec 32) (bits : ℕ) :
    List Char → Except String Bytes
  | [] => .ok []
  | c :: cs =>
    match alphabet.idxOf? c with
    | none => .error (invalid c)
    | some idx =>
      let value := value <<< 5 ||| BitVec.ofNat 32 idx
      let bits := bits + 5
      if 8 ≤ bits then do
        let out ← decodeLoop invalid value (bits - 8) cs
        return (value >>> (bits - 8) &&& 0xff).toNat.toUInt8 :: out
      else decodeLoop invalid value bits cs

end

/-! ## The copies -/

def base32Encode (b : Bytes) : String := String.ofList (encodeLoop BASE32_ALPHABET 0 0 b)

def base32Decode (s : String) : Except String Bytes :=
  decodeLoop BASE32_ALPHABET (fun c => s!"base32: invalid character '{c}'") 0 0 s.toList

/-- `cid.startsWith("b")` and `cid.slice(1)`, or an error. -/
def afterMultibase (cid : String) (invalid : String) : Except String String :=
  match cid.toList with
  | 'b' :: cs => .ok (String.ofList cs)
  | _ => .error invalid

/-- Build a CIDv1 (dag-cbor, sha2-256) from a raw sha256 digest. -/
def cidFromDigest (digest : Bytes) : Except String String :=
  if digest.length ≠ SHA256_DIGEST_LEN.toNat then
    .error s!"cidFromDigest: digest must be 32 bytes, got {digest.length}"
  else
    let cidBytes := [0x01, DAG_CBOR_CODEC, SHA256_CODE, SHA256_DIGEST_LEN] ++ digest
    .ok ("b" ++ base32Encode cidBytes)

/-- Parse a CIDv1 string into its raw bytes. -/
def cidToBytes (cid : String) : Except String Bytes := do
  let first := String.ofList (cid.toList.take 1)
  let s ← afterMultibase cid
    s!"cidToBytes: CID must start with 'b' (multibase base32), got '{first}'"
  base32Decode s

/-- The alphabet of `cidLink`. -/
def ALPH : List Char := "abcdefghijklmnopqrstuvwxyz234567".toList

/-- The link to a CID, by its string form or by its bytes. -/
def cidLink : String ⊕ Bytes → String
  | .inl cid => cid
  | .inr bytes => "b" ++ String.ofList (encodeLoop ALPH 0 0 bytes)

/-- The alphabet of the repository. -/
def B32 : List Char := "abcdefghijklmnopqrstuvwxyz234567".toList

/-- The conversion of the repository, for the CAR slice of a commit. -/
def Repo.cidToRawBytes (cid : String) : Except String Bytes := do
  let s ← afterMultibase cid "CID must start with 'b'"
  decodeLoop B32 (fun c => s!"Invalid base32 character: {c}") 0 0 s.toList

/-- The conversions of the CAR files. -/
def Car.cidToRawBytes (cid : String) : Except String Bytes := do
  let s ← afterMultibase cid "CID must start with 'b'"
  base32Decode s

def Car.cidFromRawBytes (bytes : Bytes) : String := "b" ++ base32Encode bytes

/-! ## The accumulators -/

section
variable {value : BitVec 32}

theorem toNat_shiftLeft_or {n : ℕ} (hn : n ≤ 32) {x : BitVec 32} (hx : x.toNat < 2 ^ n) :
    (value <<< n ||| x).toNat = (value.toNat * 2 ^ n + x.toNat) % 2 ^ 32 := by
  have hpow : 2 ^ 32 = 2 ^ (32 - n) * 2 ^ n := by rw [← Nat.pow_add, Nat.sub_add_cancel hn]
  have hshift : value.toNat * 2 ^ n % 2 ^ 32 = value.toNat % 2 ^ (32 - n) * 2 ^ n := by
    rw [hpow, Nat.mul_mod_mul_right]
  have hlt : value.toNat % 2 ^ (32 - n) * 2 ^ n + x.toNat < 2 ^ 32 := by
    have hmod : value.toNat % 2 ^ (32 - n) + 1 ≤ 2 ^ (32 - n) := Nat.mod_lt _ (Nat.two_pow_pos _)
    have hmul := Nat.mul_le_mul_right (2 ^ n) hmod
    rw [Nat.add_mul, Nat.one_mul, ← hpow] at hmul
    omega
  rw [BitVec.toNat_or, BitVec.toNat_shiftLeft, Nat.shiftLeft_eq, ← Nat.mod_add_mod, hshift,
    Nat.mod_eq_of_lt hlt, ← Nat.shiftLeft_eq, Nat.shiftLeft_add_eq_or_of_lt hx]

theorem toNat_and_ones {n : ℕ} (hn : n ≤ 32) :
    (value &&& BitVec.ofNat 32 (2 ^ n - 1)).toNat = value.toNat % 2 ^ n := by
  have hlt : 2 ^ n - 1 < 2 ^ 32 := by
    have hle := Nat.pow_le_pow_right Nat.two_pos hn
    have hpos := Nat.two_pow_pos n
    omega
  rw [BitVec.toNat_and, BitVec.toNat_ofNat, Nat.mod_eq_of_lt hlt, Nat.and_two_pow_sub_one_eq_mod]

theorem charAt_eq : charAt BASE32_ALPHABET value = BASE32_ALPHABET.getD (value.toNat % 32) 'a' :=
  congrArg (BASE32_ALPHABET.getD · 'a') (toNat_and_ones (by decide : 5 ≤ 32))

/-- The character after a shift to the right. -/
theorem charAt_ushiftRight (n : ℕ) : charAt BASE32_ALPHABET (value >>> n) =
    BASE32_ALPHABET.getD (value.toNat / 2 ^ n % 32) 'a' := by
  rw [charAt_eq, BitVec.toNat_ushiftRight, Nat.shiftRight_eq_div_pow]

/-- The character after a shift to the left, which drops bits that are not looked at. -/
theorem charAt_shiftLeft (n : ℕ) : charAt BASE32_ALPHABET (value <<< n) =
    BASE32_ALPHABET.getD (value.toNat * 2 ^ n % 32) 'a' := by
  rw [charAt_eq, BitVec.toNat_shiftLeft, Nat.shiftLeft_eq, Nat.mod_mod_of_dvd]
  decide

/-- A byte more in the accumulator. -/
theorem toNat_addByte (b : UInt8) : (value <<< 8 ||| b.toBitVec.setWidth 32).toNat =
    (value.toNat * 256 + b.toNat) % 0x100000000 := by
  have hb := b.toNat_lt
  have hbyte : (b.toBitVec.setWidth 32).toNat = b.toNat := by
    rw [BitVec.toNat_setWidth, UInt8.toNat_toBitVec, Nat.mod_eq_of_lt (by omega)]
  rw [toNat_shiftLeft_or (by decide) (hbyte ▸ hb), hbyte]
  rfl

/-- Five bits more in the accumulator. -/
theorem toNat_addDigit {idx : ℕ} (hidx : idx < 32) :
    (value <<< 5 ||| BitVec.ofNat 32 idx).toNat = (value.toNat * 32 + idx) % 0x100000000 := by
  have hdigit : (BitVec.ofNat 32 idx).toNat = idx := by
    rw [BitVec.toNat_ofNat, Nat.mod_eq_of_lt (by omega)]
  rw [toNat_shiftLeft_or (by decide) (hdigit.symm ▸ hidx), hdigit]
  rfl

/-- The byte that is cut out of the accumulator. -/
theorem toUInt8_cut (n : ℕ) : (value >>> n &&& 0xff).toNat.toUInt8 =
    (value.toNat / 2 ^ n).toUInt8 := by
  have hcut : (value >>> n &&& 0xff).toNat = value.toNat / 2 ^ n % 256 := by
    rw [← Nat.shiftRight_eq_div_pow, ← BitVec.toNat_ushiftRight]
    exact toNat_and_ones (by decide : 8 ≤ 32)
  rw [hcut]
  exact UInt8.toNat_inj.1 (by rw [UInt8.toNat_ofNat', UInt8.toNat_ofNat', Nat.mod_mod])

end

/-! ## The loops are those of base32 -/

theorem addChars_of_lt {alphabet : List Char} {value : BitVec 32} {bits : ℕ} (h : bits < 5) :
    addChars alphabet value bits = ([], bits) := by
  rw [addChars, if_neg (Nat.not_le.2 h)]

theorem encodeLoop_eq (bs : Bytes) {bits : ℕ} (hbits : bits < 5) (value : BitVec 32) :
    encodeLoop BASE32_ALPHABET value bits bs = base32EncodeLoop bits value.toNat bs := by
  induction bs generalizing bits value with
  | nil => rw [encodeLoop, base32EncodeLoop, charAt_shiftLeft]
  | cons b bs ih =>
    rw [encodeLoop, base32EncodeLoop, addChars, if_pos (by omega)]
    dsimp only
    rw [← toNat_addByte]
    -- There are five bits at least, and fifteen at most.
    split_ifs with hten
    · rw [addChars, if_pos (by omega), addChars_of_lt (by omega), charAt_ushiftRight,
        charAt_ushiftRight]
      dsimp only
      rw [ih (by omega)]
      rfl
    · rw [addChars_of_lt (by omega), charAt_ushiftRight]
      dsimp only
      rw [ih (by omega)]
      rfl

theorem lt_of_idxOf? {c : Char} {idx : ℕ} (h : BASE32_ALPHABET.idxOf? c = some idx) : idx < 32 :=
  (List.idxOf?_eq_some_iff.1 h).1

/-- The texts of the errors are all that differs. -/
theorem decodeLoop_eq_ok_iff {invalid : Char → String} (cs : List Char) (value : BitVec 32)
    (bits : ℕ) {out : Bytes} : decodeLoop BASE32_ALPHABET invalid value bits cs = .ok out ↔
      base32DecodeLoop bits value.toNat cs = .ok out := by
  induction cs generalizing value bits out with
  | nil => exact Iff.rfl
  | cons c cs ih =>
    rw [decodeLoop, base32DecodeLoop]
    cases hidx : BASE32_ALPHABET.idxOf? c with
    | none => exact iff_of_false (fun h => by cases h) (fun h => by cases h)
    | some idx =>
      dsimp only
      rw [← toNat_addDigit (lt_of_idxOf? hidx)]
      split_ifs
      · simp only [bind_eq_ok, ih, toUInt8_cut]
      · exact ih _ _

/-! ## Base32 and the strings of CIDs -/

theorem base32Decode_base32Encode (b : Bytes) : base32Decode (base32Encode b) = .ok b := by
  rw [base32Decode, base32Encode, String.toList_ofList, encodeLoop_eq b (by decide)]
  exact (decodeLoop_eq_ok_iff _ 0 0).2 (decodeLoop_encodeLoop b)

/-- The strings are those of `Cid`. -/
theorem cidFromRawBytes_eq (bytes : Bytes) : Car.cidFromRawBytes bytes = (Cid.mk bytes).toString := by
  rw [Car.cidFromRawBytes, base32Encode, encodeLoop_eq bytes (by decide), Cid.toString,
    ← String.toList_inj, String.toList_append, String.toList_ofList, String.toList_ofList,
    String.toList_ofList]
  rfl

theorem afterMultibase_ofList (cs : List Char) (invalid : String) :
    afterMultibase (String.ofList ('b' :: cs)) invalid = .ok (String.ofList cs) := by
  rw [afterMultibase, String.toList_ofList]
  rfl

/-- A string that is made of bytes is read as them, whatever the texts of the errors. -/
theorem read_cidFromRawBytes (bytes : Bytes) (noMultibase : String) (invalid : Char → String) :
    (do
      let s ← afterMultibase (Car.cidFromRawBytes bytes) noMultibase
      decodeLoop BASE32_ALPHABET invalid 0 0 s.toList) = .ok bytes := by
  rw [cidFromRawBytes_eq, Cid.toString, afterMultibase_ofList, ok_bind, String.toList_ofList]
  exact (decodeLoop_eq_ok_iff _ 0 0).2 (decodeLoop_encodeLoop bytes)

/-- The strings that one of the copies makes. -/
inductive Produced : String → Prop
  | digest {digest : Bytes} {cid : String} (h : cidFromDigest digest = .ok cid) : Produced cid
  | link (bytes : Bytes) : Produced (cidLink (.inr bytes))
  | car (bytes : Bytes) : Produced (Car.cidFromRawBytes bytes)

theorem Produced.exists_bytes {cid : String} (h : Produced cid) :
    ∃ bytes, cid = Car.cidFromRawBytes bytes := by
  cases h with
  | @digest digest _ h =>
    rw [cidFromDigest] at h
    split_ifs at h
    exact ⟨_, (Except.ok.inj h).symm⟩
  | link bytes => exact ⟨bytes, rfl⟩
  | car bytes => exact ⟨bytes, rfl⟩

/-- Each copy has the string for the bytes, and the bytes for the string. -/
structure Agree (cid : String) (bytes : Bytes) : Prop where
  helper : cidToBytes cid = .ok bytes
  repo : Repo.cidToRawBytes cid = .ok bytes
  car : Car.cidToRawBytes cid = .ok bytes
  digest : ∀ digest : Bytes, digest.length = 32 →
    bytes = [0x01, DAG_CBOR_CODEC, SHA256_CODE, SHA256_DIGEST_LEN] ++ digest →
      cidFromDigest digest = .ok cid
  link : cidLink (.inr bytes) = cid ∧ cidLink (.inl cid) = cid
  carText : Car.cidFromRawBytes bytes = cid

theorem agree_cidFromRawBytes (bytes : Bytes) : Agree (Car.cidFromRawBytes bytes) bytes where
  helper := read_cidFromRawBytes bytes _ _
  repo := read_cidFromRawBytes bytes _ _
  car := read_cidFromRawBytes bytes _ _
  digest := by
    rintro digest hlength rfl
    exact if_neg (not_not.2 hlength)
  link := ⟨rfl, rfl⟩
  carText := rfl

/-- Every byte string comes back from base32, and every copy of the conversion agrees with the
    others on the CIDs that they make. -/
theorem codecs_agree : (∀ b, base32Decode (base32Encode b) = .ok b) ∧
    ∀ cid, Produced cid → ∃ bytes, Agree cid bytes := by
  refine ⟨base32Decode_base32Encode, fun cid h => ?_⟩
  obtain ⟨bytes, rfl⟩ := h.exists_bytes
  exact ⟨bytes, agree_cidFromRawBytes bytes⟩

end ComputeContract.CidText
