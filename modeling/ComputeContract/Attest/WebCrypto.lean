import ComputeContract.Attest.Sign

/-!
# Keys and signatures of the port

`attestation.ts` signs with the keys of WebCrypto. It takes the signatures of WebCrypto for
DER, and turns them into 64 bytes `r || s` and back.

* `didForKey`: the `did:key` of a public key;
* `derSignatureToRaw`, `rawSignatureToDer`: the two forms;
* `signBytes`, `verifySignature`: signatures of bytes.
-/

namespace ComputeContract.Attest.Port

/-! ## Errors -/

/-- What is thrown, by its message. -/
structure Thrown where
  /-- `instanceof AttestationError` -/
  attestation : Bool
  message : String
  deriving DecidableEq

def dagCborError (message : String) : Thrown := ⟨true, "DAG-CBOR error: " ++ message⟩

def invalidSignatureError (message : String) : Thrown := ⟨true, "Invalid signature: " ++ message⟩

def keyResolutionError (did : String) : Thrown := ⟨true, "Failed to resolve key for DID: " ++ did⟩

def unsupportedKeyTypeError (keyType : String) : Thrown :=
  ⟨true, "Unsupported key type: " ++ keyType⟩

def metadataMissingFieldError (name : String) : Thrown :=
  ⟨true, "Attestation metadata missing required field: " ++ name⟩

/-! ## Keys -/

inductive KeyType
  | p256Private
  | p256Public
  | k256Private
  | k256Public
  deriving DecidableEq

def KeyType.text : KeyType → String
  | .p256Private => "P256Private"
  | .p256Public => "P256Public"
  | .k256Private => "K256Private"
  | .k256Public => "K256Public"

structure KeyData where
  keyType : KeyType
  publicKey : Option Bytes
  privateKey : Option Bytes

/-- A key of WebCrypto, on the curve P-256; the numbers are in base64url. -/
structure JsonWebKey where
  x : String
  y : String
  d : Option String

/-- The platform, and the encoder of `@ipld/dag-cbor`. -/
structure Platform where
  encode : Value → Except String Bytes
  importKey : JsonWebKey → Except String Unit
  /-- `crypto.subtle.sign`, of the key and the message. -/
  sign : JsonWebKey → Bytes → Except String Bytes
  /-- `crypto.subtle.verify`, of the key, the signature and the message. -/
  verify : JsonWebKey → Bytes → Bytes → Except String Bool
  /-- A value in a template. -/
  text : Option Json → String
  /-- The message of the `SyntaxError` of `JSON.parse`. -/
  syntaxError : String → String

def base64urlEncode (bytes : Bytes) : String := String.ofList (Base64.toUrl (btoa bytes))

/-- `none` where `atob` throws. -/
def base64urlDecode (str : String) : Option Bytes := atob (padBase64 (Base64.fromUrl str.toList))

theorem base64urlDecode_base64urlEncode (bytes : Bytes) :
    base64urlDecode (base64urlEncode bytes) = some bytes := by
  rw [base64urlDecode, base64urlEncode, String.toList_ofList, Base64.atob_fromUrl_toUrl]

def BASE58_ALPHABET : List Char :=
  "123456789ABCDEFGHJKLMNPQRSTUVWXYZabcdefghijkmnopqrstuvwxyz".toList

/-- The loop that takes the digits of `value` off, for as many as there is fuel. -/
def base58Digits : ℕ → ℕ → List Char → List Char
  | 0, _, result => result
  | fuel + 1, value, result =>
    if 0 < value then
      base58Digits fuel (value / 58) (BASE58_ALPHABET.getD (value % 58) '1' :: result)
    else result

/-- A byte has less than two digits. -/
def base58btcEncode (bytes : Bytes) : String :=
  let value := bytes.foldl (fun value b => value * 256 + b.toNat) 0
  String.ofList (List.replicate (bytes.takeWhile (· = 0)).length '1' ++
    base58Digits (2 * bytes.length) value [])

def multicodecPrefix : KeyType → Bytes
  | .p256Private | .p256Public => [0x80, 0x24]
  | .k256Private | .k256Public => [0x81, 0xce, 0x03]

/-- The coordinates of an uncompressed key. -/
def coordinates (pub : Bytes) : Option (Bytes × Bytes) :=
  if pub.length = 65 ∧ pub[0]? = some 0x04 then some ((pub.drop 1).take 32, pub.drop 33)
  else if pub.length = 64 then some (pub.take 32, pub.drop 32)
  else none

def compressPublicKey (bytes : Bytes) : Except Thrown Bytes :=
  if bytes.length = 33 ∧ (bytes[0]? = some 0x02 ∨ bytes[0]? = some 0x03) then .ok bytes
  else
    match coordinates bytes with
    | some (x, y) => .ok ((if y.getD 31 0 % 2 = 0 then 0x02 else 0x03) :: x)
    | none => .error (unsupportedKeyTypeError
        s!"Unrecognised public key length: {bytes.length} bytes")

/-- `bytes.length`, of a key that may be missing. -/
def presentKey : Option Bytes → Except Thrown Bytes
  | some bytes => .ok bytes
  | none => .error ⟨false, "Cannot read properties of undefined (reading 'length')"⟩

def didForKey (keyData : KeyData) : Except Thrown String := do
  let compressed ← compressPublicKey (← presentKey keyData.publicKey)
  return "did:key:z" ++ base58btcEncode (multicodecPrefix keyData.keyType ++ compressed)

/-! ## DER -/

/-- `(len << 8) | der[pos]`, where a byte that is not there counts nothing. -/
def shiftIn (len : ℤ) (b : Option UInt8) : ℤ :=
  let shifted := len * 256 % 2 ^ 32
  (if shifted < 2 ^ 31 then shifted else shifted - 2 ^ 32) + (b.map UInt8.toNat).getD 0

/-- The length that the next `count` bytes spell. -/
def longLength (der : Bytes) (pos count : ℕ) : ℤ :=
  (List.range count).foldl (fun len i => shiftIn len der[pos + i]?) 0

/-- A length and the place behind it; `b` is the byte before `pos`. -/
def readLength (der : Bytes) (pos : ℕ) (b : UInt8) : ℤ × ℕ :=
  if 0x80 ≤ b.toNat then (longLength der pos (b.toNat - 0x80), pos + (b.toNat - 0x80))
  else (b.toNat, pos)

/-- An integer of 32 bytes, and the place behind it, which is `none` when it is no number. -/
def readInteger (der : Bytes) : Option ℕ → Except Thrown (Bytes × Option ℕ)
  | none => .error (invalidSignatureError "DER signature: expected INTEGER tag (0x02)")
  | some pos =>
    if der[pos]? ≠ some 0x02 then
      .error (invalidSignatureError "DER signature: expected INTEGER tag (0x02)")
    else
      match der[pos + 1]? with
      | none => .ok (List.replicate 32 0, none)
      | some b =>
        let (len, pos) := readLength der (pos + 2) b
        let stripped := 32 < len ∧ der[pos]? = some 0
        let dataOff := if stripped then pos + 1 else pos
        let copyLen := min (if stripped then len - 1 else len) 32
        if copyLen < 0 then .error ⟨false, "offset is out of bounds"⟩
        else
          let data := (der.drop dataOff).take copyLen.toNat
          let before := List.replicate (32 - copyLen.toNat) 0
          let behind := List.replicate (copyLen.toNat - data.length) 0
          .ok (before ++ data ++ behind, some (pos + len.toNat))

/-- The place behind the header of the sequence. -/
def readSequence (der : Bytes) : Except Thrown ℕ :=
  if der[0]? ≠ some 0x30 then
    .error (invalidSignatureError "Expected SEQUENCE tag (0x30) at start of DER signature")
  else
    match der[1]? with
    | none => .ok 2
    | some b =>
      if b.toNat + 2 = der.length then .ok 2
      else
        let (actualLen, pos) := readLength der 2 b
        if (der.length : ℤ) < pos + actualLen then
          .error (invalidSignatureError "DER signature: SEQUENCE length exceeds buffer")
        else .ok pos

def derSignatureToRaw (derBytes : Bytes) : Except Thrown Bytes := do
  let pos ← readSequence derBytes
  let (r, pos) ← readInteger derBytes (some pos)
  let (s, _) ← readInteger derBytes pos
  return r ++ s

/-- An integer in DER, positive and without leading zeros. -/
def encodeInteger (bytes : Bytes) : Bytes :=
  let stripped := bytes.dropWhile (· = 0)
  let payload := if stripped.isEmpty ∨ 0x80 ≤ (stripped.getD 0 0).toNat then 0x00 :: stripped
    else stripped
  0x02 :: payload.length.toUInt8 :: payload

def rawSignatureToDer (raw : Bytes) : Bytes :=
  let encoded := encodeInteger (raw.take 32) ++ encodeInteger ((raw.drop 32).take 32)
  0x30 :: encoded.length.toUInt8 :: encoded

/-! ## Signing -/

/-- Normalizes a signature to low-S form. -/
def normalizeSignature (signature : Bytes) (keyType : KeyType) : Except Thrown Bytes :=
  if signature.length ≠ 64 then
    .error (invalidSignatureError
      s!"ECDSA signature must be 64 bytes (r||s), got {signature.length} bytes")
  else
    let n := match keyType with
      | .p256Private | .p256Public => P256_ORDER
      | _ => K256_ORDER
    let s := decodeS signature
    if s ≤ n / 2 then .ok signature
    else .ok (signature.take 32 ++ bigEndian (((n : ℤ) - s) % 2 ^ 256).toNat 32)

section
variable (P : Platform)

def getPrivateCryptoKey (keyData : KeyData) : Except Thrown JsonWebKey := do
  if keyData.keyType ≠ .p256Private then
    .error (unsupportedKeyTypeError
      (s!"WebCrypto does not support {keyData.keyType.text} keys directly. " ++
        "Use an external library such as @noble/curves for K-256 signing."))
  else
    let pub ← presentKey keyData.publicKey
    match coordinates pub with
    | none => .error (unsupportedKeyTypeError
        s!"Unrecognised P-256 public key length: {pub.length} bytes")
    | some (x, y) =>
      let jwk := ⟨base64urlEncode x, base64urlEncode y, keyData.privateKey.map base64urlEncode⟩
      match P.importKey jwk with
      | .ok () => .ok jwk
      | .error err => .error (unsupportedKeyTypeError
          ("Failed to import P-256 private key: " ++ err))

def getPublicCryptoKey (keyData : KeyData) : Except Thrown JsonWebKey := do
  if keyData.keyType ≠ .p256Public ∧ keyData.keyType ≠ .p256Private then
    .error (unsupportedKeyTypeError
      s!"WebCrypto does not support {keyData.keyType.text} keys directly.")
  else
    let pub ← presentKey keyData.publicKey
    match coordinates pub with
    | none => .error (unsupportedKeyTypeError
        s!"Unrecognised P-256 public key length: {pub.length} bytes")
    | some (x, y) =>
      let jwk := ⟨base64urlEncode x, base64urlEncode y, none⟩
      match P.importKey jwk with
      | .ok () => .ok jwk
      | .error err => .error (keyResolutionError ("Failed to import P-256 public key: " ++ err))

def KeyType.isK256 : KeyType → Bool
  | .k256Private | .k256Public => true
  | _ => false

def signBytes (payload : Bytes) (keyData : KeyData) : Except Thrown Bytes := do
  if keyData.keyType.isK256 then
    .error (unsupportedKeyTypeError
      ("K-256 (secp256k1) signing is not supported by WebCrypto. " ++
        "Use `createSignature` with an external K-256 library such as @noble/curves, " ++
        "or convert to P-256."))
  else
    let privateKey ← getPrivateCryptoKey P keyData
    let derSig ← (P.sign privateKey payload).mapError (Thrown.mk false)
    let raw ← derSignatureToRaw derSig
    normalizeSignature raw keyData.keyType

def verifySignature (payload rawSignature : Bytes) (keyData : KeyData) : Except Thrown Bool := do
  if keyData.keyType.isK256 then
    .error (unsupportedKeyTypeError
      ("K-256 (secp256k1) verification is not supported by WebCrypto. " ++
        "Use an external library such as @noble/curves."))
  else
    let publicKey ← getPublicCryptoKey P keyData
    (P.verify publicKey (rawSignatureToDer rawSignature) payload).mapError (Thrown.mk false)

end

end ComputeContract.Attest.Port
