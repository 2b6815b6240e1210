import Mathlib.Data.List.Sort
import Mathlib.Data.Rat.Defs
import ComputeContract.Lib.AssocList
import ComputeContract.Util.Cid
import ComputeContract.Util.Text

/-!
# DAG-CBOR

The encoder and the decoder of blocks. The encoder sorts the keys of a map
(length first, then by code units), writes CID links under tag 42, and refuses
floats. The decoder reads a header of four bytes with 32-bit bitwise operators,
so that a length or an integer of `2 ^ 31` or more comes back negative.
-/

namespace ComputeContract

/-- A JavaScript value, as the encoder takes it and the decoder gives it back. The
    fields of an object are in insertion order; `link cid` is `{ $link: cid }` with
    a well-formed CID string. -/
inductive Value
  | null
  | undefined
  | bool (b : Bool)
  /-- An integer. -/
  | int (i : ℤ)
  /-- Any other number; `none` when it is not finite. -/
  | float (x : Option ℚ)
  | text (s : String)
  | bytes (bs : Bytes)
  | array (xs : List Value)
  | object (fields : List (String × Value))
  | link (cid : Cid)

namespace Cbor

def MAJOR_UINT : ℕ := 0
def MAJOR_NEG : ℕ := 1
def MAJOR_BYTES : ℕ := 2
def MAJOR_TEXT : ℕ := 3
def MAJOR_ARRAY : ℕ := 4
def MAJOR_MAP : ℕ := 5
def MAJOR_TAG : ℕ := 6
def MAJOR_SIMPLE : ℕ := 7

def AI_1BYTE : ℕ := 24
def AI_2BYTE : ℕ := 25
def AI_4BYTE : ℕ := 26
def AI_8BYTE : ℕ := 27

def SIMPLE_FALSE : ℕ := 20
def SIMPLE_TRUE : ℕ := 21
def SIMPLE_NULL : ℕ := 22

def TAG_CID : ℕ := 42

/-- `Number.MAX_SAFE_INTEGER`. -/
def MAX_SAFE_INTEGER : ℕ := 2 ^ 53 - 1

/-! ## Encoder -/

def writeHeader (major value : ℕ) : Bytes :=
  if value < 24 then [(major * 32 + value).toUInt8]
  else if value < 0x100 then (major * 32 + AI_1BYTE).toUInt8 :: bigEndian value 1
  else if value < 0x10000 then (major * 32 + AI_2BYTE).toUInt8 :: bigEndian value 2
  else if value < 0x100000000 then (major * 32 + AI_4BYTE).toUInt8 :: bigEndian value 4
  else (major * 32 + AI_8BYTE).toUInt8 :: bigEndian value 8

/-- The order of the keys: not after, by the length in bytes and then as strings. -/
def keyLe (a b : String) : Bool :=
  let aLen := (textEncode a).length
  let bLen := (textEncode b).length
  if aLen ≠ bLen then aLen < bLen else ¬ utf16 b < utf16 a

def sortKeys {α : Type} (fields : List (String × α)) : List (String × α) :=
  fields.insertionSort fun a b => keyLe a.1 b.1

def encodeText (s : String) : Bytes :=
  let encoded := textEncode s
  writeHeader MAJOR_TEXT encoded.length ++ encoded

/-- A CID link: tag 42, wrapping the raw bytes behind a zero byte. -/
def encodeLink (cidBytes : Bytes) : Bytes :=
  writeHeader MAJOR_TAG TAG_CID ++ writeHeader MAJOR_BYTES (cidBytes.length + 1) ++
    0x00 :: cidBytes

/-- The string field `$link` of an object, if it has one. -/
def linkField (fields : List (String × Value)) : Option String :=
  match fields.lookup "$link" with
  | some (.text cid) => some cid
  | _ => none

/-- The entries of a map, in order, each with its key before it. -/
def joinFields : List (String × Except String Bytes) → Except String Bytes
  | [] => .ok []
  | (key, val) :: fs => do
    let out ← val
    let outs ← joinFields fs
    return encodeText key ++ out ++ outs

mutual

def encodeValue : Value → Except String Bytes
  | .null => .ok (writeHeader MAJOR_SIMPLE SIMPLE_NULL)
  | .bool true => .ok (writeHeader MAJOR_SIMPLE SIMPLE_TRUE)
  | .bool false => .ok (writeHeader MAJOR_SIMPLE SIMPLE_FALSE)
  | .int i =>
    if i.natAbs ≤ MAX_SAFE_INTEGER then
      if 0 ≤ i then .ok (writeHeader MAJOR_UINT i.toNat)
      else .ok (writeHeader MAJOR_NEG (-1 - i).toNat)
    else .error "DAG-CBOR: floats not allowed"
  | .float _ => .error "DAG-CBOR: floats not allowed"
  | .text s => .ok (encodeText s)
  | .bytes bs => .ok (writeHeader MAJOR_BYTES bs.length ++ bs)
  | .array xs => do
    let out ← encodeItems xs
    return writeHeader MAJOR_ARRAY xs.length ++ out
  | .link cid => .ok (encodeLink cid.bytes)
  | .object fields =>
    let vals := encodeFields fields
    match linkField fields with
    | some cid => do
      let cidBytes ← cidToBytes cid
      return encodeLink cidBytes
    | none => do
      let out ← joinFields (sortKeys vals)
      return writeHeader MAJOR_MAP fields.length ++ out
  | .undefined => .error "DAG-CBOR: unsupported type undefined"

def encodeItems : List Value → Except String Bytes
  | [] => .ok []
  | x :: xs => do
    let out ← encodeValue x
    let outs ← encodeItems xs
    return out ++ outs

/-- Each field with the encoding of its value. -/
def encodeFields : List (String × Value) → List (String × Except String Bytes)
  | [] => []
  | (key, val) :: fs => (key, encodeValue val) :: encodeFields fs

end

/-! ## Decoder -/

/-- A reader of the buffer: what it gives, and the bytes left. -/
abbrev Decoder := StateT Bytes (Except String)

def readByte : Decoder UInt8 := fun
  | [] => .error "DAG-CBOR: unexpected end of input"
  | b :: rest => .ok (b, rest)

/-- A big-endian number of `k` bytes. -/
def readUInt : ℕ → Decoder ℕ
  | 0 => pure 0
  | k + 1 => do
    let hi ← readUInt k
    let b ← readByte
    return hi * 256 + b.toNat

/-- What the 32-bit bitwise operators make of a number. -/
def toInt32 (n : ℕ) : ℤ :=
  if n % 2 ^ 32 < 2 ^ 31 then (n % 2 ^ 32 : ℕ) else (n % 2 ^ 32 : ℕ) - 2 ^ 32

/-- The value of a header, from its additional info. -/
def readValue (ai : ℕ) : Decoder ℤ := do
  if ai < 24 then return ai
  else if ai = AI_1BYTE then return ← readUInt 1
  else if ai = AI_2BYTE then return ← readUInt 2
  else if ai = AI_4BYTE then return toInt32 (← readUInt 4)
  else if ai = AI_8BYTE then
    let hi := toInt32 (← readUInt 4)
    let lo := toInt32 (← readUInt 4)
    let value := hi * 0x100000000 + lo
    if MAX_SAFE_INTEGER < value.natAbs then
      throw "DAG-CBOR: 8-byte integer out of safe range"
    return value
  else throw s!"DAG-CBOR: unsupported additional info {ai}"

/-- The major type and the value of the next header. -/
def readHeader : Decoder (ℕ × ℤ) := do
  let b ← readByte
  let value ← readValue (b.toNat % 32)
  return (b.toNat / 32, value)

/-- A `Uint8Array` of the next `n` bytes. -/
def readBytes (n : ℤ) : Decoder Bytes := fun rest =>
  if n < 0 then .error "Invalid typed array length"
  else if n.toNat ≤ rest.length then .ok (rest.take n.toNat, rest.drop n.toNat)
  else .error "DAG-CBOR: unexpected end of input"

/-- The loop over the items of an array. -/
def readItems (item : Decoder Value) : ℕ → Decoder (List Value)
  | 0 => pure []
  | n + 1 => do
    let x ← item
    let xs ← readItems item n
    return x :: xs

/-- The loop over the entries of a map, into the object `obj`. Assigning `__proto__`
    makes no field. -/
def readFields (item : Decoder Value) : ℕ → List (String × Value) →
    Decoder (List (String × Value))
  | 0, obj => pure obj
  | n + 1, obj => do
    match ← item with
    | .text key =>
      let val ← item
      readFields item n (if key = "__proto__" then obj else AssocList.set key val obj)
    | _ => throw "DAG-CBOR: map keys must be strings"

/-- The payload of tag 42, without its zero byte. -/
def cidLink (bs : Bytes) : Value :=
  match bs with
  | 0x00 :: cid => .link ⟨cid⟩
  | _ => .link ⟨bs⟩

/-- What follows a header, by its major type; `item` reads what is nested in it. -/
def decodeBody (item : Decoder Value) (major : ℕ) (value : ℤ) : Decoder Value :=
  match major with
  | 0 => return .int value
  | 1 => return .int (-1 - value)
  | 2 => return .bytes (← readBytes value)
  | 3 => return .text (textDecode (← readBytes value))
  | 4 => return .array (← readItems item value.toNat)
  | 5 => return .object (← readFields item value.toNat [])
  | 6 => do
    if value = TAG_CID then
      let (major, len) ← readHeader
      if major = MAJOR_BYTES then return cidLink (← readBytes len)
      else throw "DAG-CBOR: tag 42 must wrap a byte string"
    else throw s!"DAG-CBOR: unsupported tag {value}"
  | _ => do
    if value = SIMPLE_FALSE then return .bool false
    else if value = SIMPLE_TRUE then return .bool true
    else if value = SIMPLE_NULL then return .null
    else throw s!"DAG-CBOR: unsupported simple value {value}"

/-- One value; `fuel` bounds the nesting. -/
def decodeValue : ℕ → Decoder Value
  | 0 => throw "Maximum call stack size exceeded"
  | fuel + 1 => do
    let (major, value) ← readHeader
    decodeBody (decodeValue fuel) major value

/-! ## Public API -/

/-- Encode a value to deterministic DAG-CBOR bytes. -/
def encode (val : Value) : Except String Bytes := encodeValue val

/-- Decode DAG-CBOR bytes to a value; bytes after it are ignored. Every value
    takes a byte, so that the length of the buffer bounds the nesting. -/
def decode (buf : Bytes) : Except String Value := do
  let (val, _) ← decodeValue (buf.length + 1) buf
  return val

end Cbor

end ComputeContract
