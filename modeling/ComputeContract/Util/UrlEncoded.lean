import ComputeContract.Util.Text

/-!
# Query strings

`URLSearchParams`: the parser and the serializer of `application/x-www-form-urlencoded`.

* `parse_serialize`: any list of pairs is read back as it was, repeated names included.
-/

namespace ComputeContract

/-- The platform's UTF-8 decoder, which keeps a byte order mark. -/
def utf8Decode (bs : Bytes) : String :=
  match String.fromUTF8? ⟨bs.toArray⟩ with
  | some s => s
  | none => String.ofList (TextDecoder.lossy TextDecoder.ready bs)

theorem utf8Decode_textEncode (s : String) : utf8Decode (textEncode s) = s := by
  have hs : String.fromUTF8? ⟨(textEncode s).toArray⟩ = some s := by
    have hv : (⟨(textEncode s).toArray⟩ : ByteArray) = s.toByteArray := rfl
    rw [hv, String.fromUTF8?, dif_pos s.isValidUTF8]
    rfl
  rw [utf8Decode, hs]

/-- What holds of the bytes, checked one by one. -/
theorem forall_byte {P : UInt8 → Prop} [DecidablePred P]
    (h : (List.range 256).all fun n => decide (P n.toUInt8)) (b : UInt8) : P b := by
  rw [List.all_eq_true] at h
  have hb := h b.toNat (List.mem_range.2 b.toNat_lt)
  rw [show b.toNat.toUInt8 = b from UInt8.ofNat_toNat] at hb
  exact of_decide_eq_true hb

/-- A string of ASCII characters, from its bytes. -/
def ascii (bs : Bytes) : String := String.ofList (bs.map fun b => Char.ofNat b.toNat)

theorem textEncode_append (s t : String) : textEncode (s ++ t) = textEncode s ++ textEncode t := by
  simp [textEncode, String.toUTF8]

theorem textEncode_ascii {bs : Bytes} (h : ∀ b ∈ bs, b < 128) : textEncode (ascii bs) = bs := by
  induction bs with
  | nil => rfl
  | cons b bs ih =>
    have hchar : ∀ b : UInt8, b < 128 → textEncode (String.singleton (Char.ofNat b.toNat)) = [b] :=
      forall_byte (by decide +kernel)
    rw [List.forall_mem_cons] at h
    have hsplit : ascii (b :: bs) = String.singleton (Char.ofNat b.toNat) ++ ascii bs := by
      rw [ascii, ascii, String.singleton_eq_ofList, ← String.ofList_append, List.map_cons,
        List.singleton_append]
    rw [hsplit, textEncode_append, hchar b h.1, ih h.2, List.singleton_append]

namespace UrlEncoded

/-! ## Percent encoding -/

/-- The value of a hexadecimal digit. -/
def hexValue (b : UInt8) : Option UInt8 :=
  if 48 ≤ b ∧ b ≤ 57 then some (b - 48)
  else if 65 ≤ b ∧ b ≤ 70 then some (b - 55)
  else if 97 ≤ b ∧ b ≤ 102 then some (b - 87)
  else none

def hexDigit (n : UInt8) : UInt8 := if n < 10 then n + 48 else n + 55

/-- The byte that a `%` with these two bytes behind it stands for. -/
def percentByte (b₁ b₂ : UInt8) : Option UInt8 :=
  match hexValue b₁, hexValue b₂ with
  | some n₁, some n₂ => some (n₁ * 16 + n₂)
  | _, _ => none

def percentDecode : Bytes → Bytes
  | [] => []
  | [b] => [b]
  | [b₁, b₂] => [b₁, b₂]
  | b :: b₁ :: b₂ :: rest =>
    if b = 37 then
      match percentByte b₁ b₂ with
      | some n => n :: percentDecode rest
      | none => b :: percentDecode (b₁ :: b₂ :: rest)
    else b :: percentDecode (b₁ :: b₂ :: rest)

/-- The bytes that stand for themselves: letters, digits, `*`, `-`, `.` and `_`. -/
def isPlain (b : UInt8) : Bool :=
  (48 ≤ b && b ≤ 57) || (65 ≤ b && b ≤ 90) || (97 ≤ b && b ≤ 122) || b = 42 || b = 45 || b = 46 ||
    b = 95

/-- A byte in a name or a value. -/
def encodeByte (b : UInt8) : Bytes :=
  if b = 32 then [43]
  else if isPlain b then [b]
  else [37, hexDigit (b / 16), hexDigit (b % 16)]

def encode (s : String) : Bytes := (textEncode s).flatMap encodeByte

/-- A name or a value; `+` is a space. -/
def decode (bs : Bytes) : String :=
  utf8Decode (percentDecode (bs.map fun b => if b = 43 then 32 else b))

/-! ## Pairs -/

/-- The name and the value of a sequence, around the first `=`. -/
def parsePair (bs : Bytes) : String × String :=
  (decode (bs.takeWhile (· ≠ 61)), decode ((bs.dropWhile (· ≠ 61)).drop 1))

/-- The pairs of a query, without its `?`. -/
def parse (s : String) : List (String × String) :=
  (((textEncode s).splitOn 38).filter (· ≠ [])).map parsePair

/-- The pairs of `new URLSearchParams(s)`, which drops a leading `?`. -/
def searchParams (s : String) : List (String × String) :=
  match s.toList with
  | '?' :: rest => parse (String.ofList rest)
  | _ => parse s

def encodePair (p : String × String) : Bytes := encode p.1 ++ 61 :: encode p.2

def serialize (pairs : List (String × String)) : String :=
  ascii ([38].intercalate (pairs.map encodePair))

/-! ## The round trip -/

theorem encodeByte_bounds : ∀ b : UInt8, ∀ b' ∈ encodeByte b, b' < 128 ∧ b' ≠ 38 ∧ b' ≠ 61 := by
  have hall : ∀ b : UInt8,
      (encodeByte b).all fun b' => decide (b' < 128 ∧ b' ≠ 38 ∧ b' ≠ 61) :=
    forall_byte (by decide +kernel)
  intro b b' hb'
  exact of_decide_eq_true (List.all_eq_true.1 (hall b) b' hb')

theorem percentByte_hexDigit : ∀ b : UInt8,
    percentByte (hexDigit (b / 16)) (hexDigit (b % 16)) = some b :=
  forall_byte (by decide +kernel)

theorem percentDecode_cons {b : UInt8} (h : b ≠ 37) (rest : Bytes) :
    percentDecode (b :: rest) = b :: percentDecode rest := by
  match rest with
  | [] => rfl
  | [_] => rfl
  | b₁ :: b₂ :: rest => rw [percentDecode, if_neg h]

/-- One encoded byte is read back. -/
theorem percentDecode_encodeByte (b : UInt8) (rest : Bytes) :
    percentDecode ((encodeByte b).map (fun b => if b = 43 then 32 else b) ++ rest) =
      b :: percentDecode rest := by
  by_cases hspace : b = 32
  · subst hspace
    exact percentDecode_cons (by decide) rest
  · rw [encodeByte, if_neg hspace]
    split_ifs with hplain
    · have hne : ∀ b : UInt8, isPlain b = true → b ≠ 43 ∧ b ≠ 37 :=
        forall_byte (by decide +kernel)
      obtain ⟨hplus, hpercent⟩ := hne b hplain
      rw [List.map_singleton, if_neg hplus, List.singleton_append, percentDecode_cons hpercent]
    · have hne : ∀ b : UInt8, hexDigit (b / 16) ≠ 43 ∧ hexDigit (b % 16) ≠ 43 :=
        forall_byte (by decide +kernel)
      obtain ⟨h₁, h₂⟩ := hne b
      simp only [List.map_cons, List.map_nil, if_neg h₁, if_neg h₂, List.cons_append,
        List.nil_append]
      rw [if_neg (by decide), percentDecode, if_pos rfl, percentByte_hexDigit]

theorem decode_encode (s : String) : decode (encode s) = s := by
  have hbytes : ∀ bs : Bytes, percentDecode ((bs.flatMap encodeByte).map
      fun b => if b = 43 then 32 else b) = bs := fun bs => by
    induction bs with
    | nil => rfl
    | cons b bs ih => rw [List.flatMap_cons, List.map_append, percentDecode_encodeByte, ih]
  rw [decode, encode, hbytes, utf8Decode_textEncode]

theorem encode_bounds (s : String) : ∀ b ∈ encode s, b < 128 ∧ b ≠ 38 ∧ b ≠ 61 := by
  intro b hb
  obtain ⟨b', _, hb'⟩ := List.mem_flatMap.1 hb
  exact encodeByte_bounds b' b hb'

theorem parsePair_encodePair (p : String × String) : parsePair (encodePair p) = p := by
  have hne : ∀ b ∈ encode p.1, decide (b ≠ 61) = true := fun b hb =>
    decide_eq_true (encode_bounds _ b hb).2.2
  rw [parsePair, encodePair, List.takeWhile_append_of_pos hne, List.dropWhile_append_of_pos hne,
    List.takeWhile_cons_of_neg (by simp), List.dropWhile_cons_of_neg (by simp), List.append_nil,
    List.drop_one, List.tail_cons, decode_encode, decode_encode]

theorem encodePair_bounds (p : String × String) : ∀ b ∈ encodePair p, b < 128 ∧ b ≠ 38 := by
  intro b hb
  rcases List.mem_append.1 hb with hb | hb
  · exact ⟨(encode_bounds _ b hb).1, (encode_bounds _ b hb).2.1⟩
  · rcases List.mem_cons.1 hb with rfl | hb
    · decide
    · exact ⟨(encode_bounds _ b hb).1, (encode_bounds _ b hb).2.1⟩

theorem serialize_bounds (pairs : List (String × String)) :
    ∀ b ∈ [38].intercalate (pairs.map encodePair), b < 128 := by
  induction pairs with
  | nil => simp
  | cons p pairs ih =>
    intro b hb
    cases pairs with
    | nil =>
      rw [List.map_singleton, List.intercalate_singleton] at hb
      exact (encodePair_bounds p b hb).1
    | cons p' pairs =>
      rw [List.map_cons, List.map_cons, List.intercalate_cons_cons] at hb
      rcases List.mem_append.1 hb with hb | hb
      · rcases List.mem_append.1 hb with hb | hb
        · exact (encodePair_bounds p b hb).1
        · rw [List.mem_singleton.1 hb]
          decide
      · exact ih b hb

/-- The pairs are read back. -/
theorem parse_serialize (pairs : List (String × String)) : parse (serialize pairs) = pairs := by
  cases pairs with
  | nil => decide +kernel
  | cons p pairs =>
    have hsplit : ([38].intercalate ((p :: pairs).map encodePair)).splitOn 38 =
        (p :: pairs).map encodePair := by
      refine List.splitOn_intercalate 38 ?_ (by simp)
      intro bs hbs hmem
      obtain ⟨p', _, rfl⟩ := List.mem_map.1 hbs
      exact (encodePair_bounds p' 38 hmem).2 rfl
    have hfilter : ((p :: pairs).map encodePair).filter (· ≠ []) = (p :: pairs).map encodePair := by
      refine List.filter_eq_self.2 fun bs hbs => ?_
      obtain ⟨p', _, rfl⟩ := List.mem_map.1 hbs
      simp [encodePair]
    rw [parse, serialize, textEncode_ascii (serialize_bounds _), hsplit, hfilter, List.map_map]
    exact List.map_id'' parsePair_encodePair _

end UrlEncoded

end ComputeContract
