import ComputeContract.Attest.WebCrypto
import ComputeContract.Cbor.RoundTrip
import ComputeContract.Lib.Digits

/-!
# Signatures in DER

A signature is two numbers, in 64 bytes or as a sequence of two integers. The encoder writes what the
decoder reads back. The decoder looks for the tags where the lengths point, and takes at most 32
bytes from there: of an integer that is longer, goes past the end or is negative it makes another
number.

* `derSignatureToRaw_rawSignatureToDer`: 64 bytes, there and back;
* `isOk_derSignatureToRaw_iff`: what the decoder accepts;
* `faithful_iff`: when what it accepts encodes what it returns.
-/

namespace ComputeContract.Attest.Port

/-! ## Encodings -/

/-- The number that the bytes spell, the most significant first. -/
def natOf (bs : Bytes) : ℕ := Digits.value 0 (bs.map UInt8.toFin)

/-- The octets that spell a length, in the short form or in a long one. -/
inductive LengthOctets : ℕ → Bytes → Prop
  | short {n : ℕ} (h : n < 0x80) : LengthOctets n [n.toUInt8]
  | long {octets : Bytes} (hne : octets ≠ []) (h : octets.length < 0x7f) :
    LengthOctets (natOf octets) ((0x80 + octets.length).toUInt8 :: octets)

/-- A tag, the length of the contents, and the contents. -/
def Element (tag : UInt8) (contents out : Bytes) : Prop :=
  ∃ octets, LengthOctets contents.length octets ∧ out = tag :: (octets ++ contents)

/-- The contents of an integer that is not negative. -/
structure IsNatural (contents : Bytes) : Prop where
  ne_nil : contents ≠ []
  head : ∀ b ∈ contents.head?, b.toNat < 0x80

/-- `SEQUENCE { INTEGER r, INTEGER s }`, of two integers with these contents. -/
def IsSignature (rs ss der : Bytes) : Prop :=
  ∃ first second, Element 0x02 rs first ∧ Element 0x02 ss second ∧ Element 0x30 (first ++ second) der

def Encodes (der : Bytes) (r s : ℕ) : Prop :=
  ∃ rs ss, IsNatural rs ∧ IsNatural ss ∧ IsSignature rs ss der ∧ natOf rs = r ∧ natOf ss = s

/-- If the input is accepted, it encodes what is returned. -/
def Faithful (der : Bytes) : Prop :=
  ∀ raw, derSignatureToRaw der = .ok raw →
    raw.length = 64 ∧ Encodes der (natOf (raw.take 32)) (natOf (raw.drop 32))

/-! ## What the decoder looks at -/

section
variable (der : Bytes)

/-- The length whose octets begin at `pos`, and the place behind them. -/
def lengthAt (pos : ℕ) : ℤ × ℕ :=
  match der[pos]? with
  | none => (0, pos + 1)
  | some b => readLength der (pos + 1) b

/-- Where the first integer is looked for. A first octet that is the number of bytes behind it is
    taken for a length of its own. -/
def firstAt : ℕ := if der[1]?.map (·.toNat + 2) = some der.length then 2 else (lengthAt der 1).2

/-- Where the second integer is looked for. -/
def secondAt : ℕ := (lengthAt der (firstAt der + 1)).2 + (lengthAt der (firstAt der + 1)).1.toNat

/-- The tags are where the lengths point, and the sequence is not too long. -/
structure Tagged : Prop where
  sequence : der[0]? = some 0x30
  fits : der[1]?.map (·.toNat + 2) = some der.length ∨
    (lengthAt der 1).2 + (lengthAt der 1).1 ≤ der.length
  first : der[firstAt der]? = some 0x02
  firstLength : 0 ≤ (lengthAt der (firstAt der + 1)).1
  second : der[secondAt der]? = some 0x02
  secondLength : 0 ≤ (lengthAt der (secondAt der + 1)).1

end

/-- The contents of an integer that is not negative, of which all bytes that count are taken. -/
structure Fits (contents : Bytes) : Prop extends IsNatural contents where
  short : contents.length ≤ 32 ∨ contents.length = 33 ∧ contents.head? = some 0 ∨
    ∀ b ∈ contents, b = 0

/-- A sequence of two such integers. -/
def WellFormed (der : Bytes) : Prop := ∃ rs ss, Fits rs ∧ Fits ss ∧ IsSignature rs ss der

/-! ## Numbers -/

theorem natOf_append (bs bs' : Bytes) :
    natOf (bs ++ bs') = natOf bs * 256 ^ bs'.length + natOf bs' := by
  rw [natOf, List.map_append, Digits.value_append, Digits.value_eq, List.length_map]
  rfl

theorem natOf_singleton (b : UInt8) : natOf [b] = b.toNat := by
  change 0 * 256 + b.toNat = b.toNat
  rw [Nat.zero_mul, Nat.zero_add]

theorem natOf_cons (b : UInt8) (bs : Bytes) :
    natOf (b :: bs) = b.toNat * 256 ^ bs.length + natOf bs := by
  rw [← natOf_singleton]
  exact natOf_append [b] bs

theorem natOf_injective {bs bs' : Bytes} (hlen : bs.length = bs'.length)
    (h : natOf bs = natOf bs') : bs = bs' := by
  have hmap := Digits.value_injective (by rw [List.length_map, List.length_map, hlen]) h
  exact List.map_injective_iff.2 (fun _ _ => UInt8.toFin_inj.1) hmap

theorem natOf_replicate (n : ℕ) : natOf (List.replicate n 0) = 0 := by
  induction n with
  | zero => rfl
  | succ n ih =>
    rw [List.replicate_succ, natOf_cons, ih]
    exact (Nat.add_zero _).trans (Nat.zero_mul _)

theorem natOf_eq_zero_iff {bs : Bytes} : natOf bs = 0 ↔ ∀ b ∈ bs, b = 0 := by
  rw [← List.eq_replicate_length]
  constructor
  · intro h
    exact natOf_injective List.length_replicate.symm (h.trans (natOf_replicate _).symm)
  · intro h
    rw [h, natOf_replicate]

/-! ## Lengths -/

section
variable {der octets contents rest : Bytes} {pos n : ℕ}

theorem shiftIn_toInt32 (v : ℕ) (b : UInt8) :
    shiftIn (Cbor.toInt32 v) (some b) = Cbor.toInt32 (v * 256 + b.toNat) := by
  have hb := b.toNat_lt
  rw [shiftIn, Cbor.toInt32, Cbor.toInt32]
  simp only [Option.map_some, Option.getD_some]
  split_ifs <;> omega

theorem longLength_eq (hdrop : der.drop pos = octets ++ rest) :
    longLength der pos octets.length = Cbor.toInt32 (natOf octets) := by
  have htake : ∀ k ≤ octets.length, longLength der pos k = Cbor.toInt32 (natOf (octets.take k)) := by
    intro k hk
    induction k with
    | zero => rfl
    | succ k ih =>
      have hget : der[pos + k]? = some octets[k] := by
        rw [← List.getElem?_drop, hdrop, List.getElem?_append_left hk, List.getElem?_eq_getElem hk]
      have hlong : longLength der pos (k + 1) = shiftIn (longLength der pos k) der[pos + k]? := by
        rw [longLength, List.range_succ, List.foldl_append]
        rfl
      rw [hlong, ih (Nat.le_of_succ_le hk), hget, shiftIn_toInt32, List.take_succ_eq_append_getElem hk,
        natOf_append, natOf_singleton]
      rfl
  rw [htake _ le_rfl, List.take_length]

/-- The length that the octets spell is read, in 32 bits. -/
theorem lengthAt_eq (hoctets : LengthOctets n octets) (hdrop : der.drop pos = octets ++ rest) :
    lengthAt der pos = (Cbor.toInt32 n, pos + octets.length) := by
  have hget (i : ℕ) (hi : i < octets.length) : der[pos + i]? = octets[i]? := by
    rw [← List.getElem?_drop, hdrop, List.getElem?_append_left hi]
  cases hoctets with
  | short h =>
    have hb : n.toUInt8.toNat = n := UInt8.toNat_ofNat_of_lt' (Nat.lt_trans h (by decide))
    rw [lengthAt, ← Nat.add_zero pos, hget 0 Nat.one_pos]
    dsimp only [List.getElem?_cons_zero]
    rw [readLength, hb, if_neg (Nat.not_le.2 h), Cbor.toInt32_of_lt (by omega)]
    rfl
  | @long octets hne h =>
    have hb : (0x80 + octets.length).toUInt8.toNat = 0x80 + octets.length :=
      UInt8.toNat_ofNat_of_lt' (show 0x80 + octets.length < 0x100 by omega)
    have hbehind : der.drop (pos + 1) = octets ++ rest := by
      rw [← List.drop_drop, hdrop]
      rfl
    rw [lengthAt, ← Nat.add_zero pos, hget 0 (Nat.succ_pos _)]
    dsimp only [List.getElem?_cons_zero]
    rw [readLength, hb, if_pos (Nat.le_add_right _ _), Nat.add_sub_cancel_left, Nat.add_zero,
      longLength_eq hbehind, List.length_cons]
    congr 1
    omega

/-! ## What is accepted -/

/-- The 32 bytes that are made of an integer of this length at `pos`. -/
def bytesAt (der : Bytes) (pos : ℕ) (len : ℤ) : Bytes :=
  let stripped := 32 < len ∧ der[pos]? = some 0
  let copyLen := (min (if stripped then len - 1 else len) 32).toNat
  let data := (der.drop (if stripped then pos + 1 else pos)).take copyLen
  List.replicate (32 - copyLen) 0 ++ data ++ List.replicate (copyLen - data.length) 0

theorem length_bytesAt (pos : ℕ) (len : ℤ) : (bytesAt der pos len).length = 32 := by
  rw [bytesAt]
  generalize hcopy : (min (if 32 < len ∧ der[pos]? = some 0 then len - 1 else len) 32).toNat = copyLen
  have hle : copyLen ≤ 32 := by
    rw [← hcopy]
    omega
  simp only [List.length_append, List.length_replicate, List.length_take]
  omega

/-- What is read behind a tag. -/
theorem readInteger_eq (htag : der[pos]? = some 0x02) :
    readInteger der (some pos) =
      if (lengthAt der (pos + 1)).1 < 0 then .error ⟨false, "offset is out of bounds"⟩
      else .ok (bytesAt der (lengthAt der (pos + 1)).2 (lengthAt der (pos + 1)).1,
        der[pos + 1]?.map fun _ =>
          (lengthAt der (pos + 1)).2 + (lengthAt der (pos + 1)).1.toNat) := by
  rw [readInteger, if_neg (not_not.2 htag)]
  cases hnext : der[pos + 1]? with
  | none =>
    have hlen : lengthAt der (pos + 1) = (0, pos + 2) := by rw [lengthAt, hnext]
    rw [hlen]
    rfl
  | some b =>
    rcases hread : readLength der (pos + 2) b with ⟨len, next⟩
    have hlen : lengthAt der (pos + 1) = (len, next) := by
      rw [lengthAt, hnext]
      exact hread
    have hneg : min (if 32 < len ∧ der[next]? = some 0 then len - 1 else len) 32 < 0 ↔ len < 0 := by
      split_ifs <;> omega
    dsimp only
    rw [hread, hlen]
    dsimp only
    rw [if_congr hneg rfl rfl]
    rfl

theorem readSequence_eq (hsequence : der[0]? = some 0x30)
    (hfits : der[1]?.map (·.toNat + 2) = some der.length ∨
      (lengthAt der 1).2 + (lengthAt der 1).1 ≤ der.length) :
    readSequence der = .ok (firstAt der) := by
  rw [readSequence, if_neg (not_not.2 hsequence), firstAt]
  by_cases hmap : der[1]?.map (·.toNat + 2) = some der.length
  · obtain ⟨b, hb, hshort⟩ := Option.map_eq_some_iff.1 hmap
    rw [if_pos hmap, hb]
    exact if_pos hshort
  · have hle := hfits.resolve_left hmap
    rw [if_neg hmap]
    cases hnext : der[1]? with
    | none => rw [lengthAt, hnext]
    | some b =>
      rw [hnext] at hmap
      rcases hread : readLength der 2 b with ⟨len, next⟩
      have hlen : lengthAt der 1 = (len, next) := by
        rw [lengthAt, hnext]
        exact hread
      rw [hlen] at hle ⊢
      dsimp only at hle ⊢
      rw [if_neg fun hshort => hmap (congrArg some hshort), hread]
      exact if_neg (not_lt.2 hle)

/-- The input is accepted when the tags are there. -/
theorem Tagged.derSignatureToRaw (h : Tagged der) : derSignatureToRaw der =
    .ok (bytesAt der (lengthAt der (firstAt der + 1)).2 (lengthAt der (firstAt der + 1)).1 ++
      bytesAt der (lengthAt der (secondAt der + 1)).2 (lengthAt der (secondAt der + 1)).1) := by
  have hfirst : der[firstAt der + 1]?.map (fun _ => (lengthAt der (firstAt der + 1)).2 +
      (lengthAt der (firstAt der + 1)).1.toNat) = some (secondAt der) := by
    cases hnext : der[firstAt der + 1]? with
    | some b => rfl
    | none =>
      -- Nothing is behind the end of the buffer.
      have hsecond := h.second
      rw [secondAt, lengthAt, hnext] at hsecond
      have hlen := List.getElem?_eq_none_iff.1 hnext
      obtain ⟨hlt, -⟩ := List.getElem?_eq_some_iff.1 hsecond
      dsimp only at hlt
      omega
  rw [Port.derSignatureToRaw, readSequence_eq h.sequence h.fits, ok_bind, readInteger_eq h.first,
    if_neg (not_lt.2 h.firstLength), ok_bind, hfirst]
  dsimp only
  rw [readInteger_eq h.second, if_neg (not_lt.2 h.secondLength)]
  rfl

theorem readInteger_eq_ok {place next : Option ℕ} {bs : Bytes}
    (h : readInteger der place = .ok (bs, next)) : ∃ pos, place = some pos ∧
      der[pos]? = some 0x02 ∧ 0 ≤ (lengthAt der (pos + 1)).1 ∧
        ∀ pos' ∈ next, pos' = (lengthAt der (pos + 1)).2 + (lengthAt der (pos + 1)).1.toNat := by
  cases place with
  | none => cases h
  | some pos =>
    by_cases htag : der[pos]? = some 0x02
    · rw [readInteger_eq htag] at h
      split_ifs at h with hneg
      obtain ⟨-, rfl⟩ := Prod.mk.inj (Except.ok.inj h)
      refine ⟨pos, rfl, htag, not_lt.1 hneg, fun pos' hpos' => ?_⟩
      obtain ⟨b, -, heq⟩ := Option.map_eq_some_iff.1 hpos'
      exact heq.symm
    · rw [readInteger, if_pos htag] at h
      cases h

theorem readSequence_eq_ok {first : ℕ} (h : readSequence der = .ok first)
    (htag : der[first]? = some 0x02) :
    der[0]? = some 0x30 ∧ (der[1]?.map (·.toNat + 2) = some der.length ∨
      (lengthAt der 1).2 + (lengthAt der 1).1 ≤ der.length) := by
  rw [readSequence] at h
  split_ifs at h with hsequence
  refine ⟨not_not.1 hsequence, ?_⟩
  cases hnext : der[1]? with
  | none =>
    rw [hnext] at h
    obtain rfl := Except.ok.inj h
    have hlen := List.getElem?_eq_none_iff.1 hnext
    obtain ⟨hlt, -⟩ := List.getElem?_eq_some_iff.1 htag
    omega
  | some b =>
    rcases hread : readLength der 2 b with ⟨len, next⟩
    have hlen : lengthAt der 1 = (len, next) := by
      rw [lengthAt, hnext]
      exact hread
    rw [hnext] at h
    dsimp only at h
    rw [hread] at h
    split_ifs at h with hshort hlong
    · exact .inl (congrArg some hshort)
    · rw [hlen]
      exact .inr (not_lt.1 hlong)

theorem tagged_of_eq_ok {raw : Bytes} (h : derSignatureToRaw der = .ok raw) : Tagged der := by
  obtain ⟨first, hfirst, h⟩ := bind_eq_ok.1 h
  obtain ⟨⟨r, second⟩, hr, h⟩ := bind_eq_ok.1 h
  obtain ⟨⟨s, last⟩, hs, -⟩ := bind_eq_ok.1 h
  obtain ⟨_, hplace, htag, hlength, hnext⟩ := readInteger_eq_ok hr
  obtain rfl := Option.some.inj hplace
  obtain ⟨hsequence, hfits⟩ := readSequence_eq_ok hfirst htag
  obtain rfl := Except.ok.inj ((readSequence_eq hsequence hfits).symm.trans hfirst)
  obtain ⟨_, rfl, htag', hlength', -⟩ := readInteger_eq_ok hs
  obtain rfl := hnext _ rfl
  exact ⟨hsequence, hfits, htag, hlength, htag', hlength'⟩

end

/-! ## The contents of an integer -/

/-- The bytes that are taken of contents that are read as `n` bytes long. -/
def taken (contents : Bytes) (n : ℕ) : Bytes :=
  if 32 < n ∧ contents.head? = some 0 then (contents.drop 1).take (min (n - 1) 32)
  else contents.take (min n 32)

section
variable {der octets contents rest : Bytes} {pos n : ℕ}

theorem length_taken_le (hn : n ≤ contents.length) :
    (taken contents n).length = min (if 32 < n ∧ contents.head? = some 0 then n - 1 else n) 32 := by
  rw [taken]
  split_ifs
  · rw [List.length_take, List.length_drop]
    omega
  · rw [List.length_take]
    omega

/-- Zeros stand before what is taken. -/
theorem bytesAt_eq (hdrop : der.drop pos = contents ++ rest) (hn : n ≤ contents.length) :
    bytesAt der pos n = List.replicate (32 - (taken contents n).length) 0 ++ taken contents n := by
  have hhead : (32 < (n : ℤ) ∧ der[pos]? = some 0) ↔ 32 < n ∧ contents.head? = some 0 := by
    rw [Nat.ofNat_lt_cast]
    refine and_congr_right fun hlong => ?_
    have hget : der[pos]? = contents[0]? := by
      rw [← Nat.add_zero pos, ← List.getElem?_drop, hdrop, List.getElem?_append_left (by omega)]
    rw [hget, List.head?_eq_getElem?]
  have hcopy : (min (if 32 < n ∧ contents.head? = some 0 then (n : ℤ) - 1 else n) 32).toNat =
      (taken contents n).length := by
    rw [length_taken_le hn]
    split_ifs <;> omega
  have hdata : (der.drop (if 32 < n ∧ contents.head? = some 0 then pos + 1 else pos)).take
      (taken contents n).length = taken contents n := by
    have hdropOne : 32 < n → der.drop (pos + 1) = contents.drop 1 ++ rest := fun hlong => by
      rw [← List.drop_drop, hdrop, List.drop_append_of_le_length (by omega)]
    rw [taken]
    split_ifs with hstripped
    · rw [hdropOne hstripped.1, List.take_append_of_le_length (List.length_take_le' _ _),
        List.take_eq_take_iff, List.length_take]
      omega
    · rw [hdrop, List.take_append_of_le_length (List.length_take_le' _ _), List.take_eq_take_iff,
        List.length_take]
      omega
  rw [bytesAt]
  simp only [hhead, hcopy, hdata, Nat.sub_self, List.replicate_zero, List.append_nil]

theorem natOf_bytesAt (hdrop : der.drop pos = contents ++ rest) (hn : n ≤ contents.length) :
    natOf (bytesAt der pos n) = natOf (taken contents n) := by
  rw [bytesAt_eq hdrop hn, natOf_append, natOf_replicate, Nat.zero_mul, Nat.zero_add]

/-- What is cut off counts, unless all is zero. -/
theorem natOf_append_eq_left {bs bs' : Bytes} (hne : bs' ≠ []) (h : natOf (bs ++ bs') = natOf bs) :
    natOf (bs ++ bs') = 0 := by
  rw [natOf_append] at h
  have hpow : 256 ≤ 256 ^ bs'.length :=
    Nat.le_self_pow (fun hzero => hne (List.eq_nil_of_length_eq_zero hzero)) 256
  have hmul := Nat.mul_le_mul_left (natOf bs) hpow
  rw [natOf_append]
  omega

theorem natOf_tail (h : contents.head? = some 0) : natOf (contents.drop 1) = natOf contents := by
  cases contents with
  | nil => rfl
  | cons b bs =>
    obtain rfl := Option.some.inj h
    rw [natOf_cons]
    exact ((Nat.zero_mul _).symm ▸ Nat.zero_add _).symm

/-- Of more bytes than fit, the right number is made only if there is nothing to lose. -/
theorem fits_of_natOf (hnatural : IsNatural contents)
    (h : natOf (taken contents n) = natOf contents) : Fits contents := by
  by_cases h32 : contents.length ≤ 32
  · exact ⟨hnatural, .inl h32⟩
  by_cases h33 : contents.length = 33 ∧ contents.head? = some 0
  · exact ⟨hnatural, .inr (.inl h33)⟩
  refine ⟨hnatural, .inr (.inr (natOf_eq_zero_iff.1 ?_))⟩
  rw [taken] at h
  split_ifs at h with hstripped
  · have hcut : (contents.drop 1).drop (min (n - 1) 32) ≠ [] := by
      rw [ne_eq, List.drop_eq_nil_iff, List.length_drop]
      have hne : contents.length ≠ 33 := fun heq => h33 ⟨heq, hstripped.2⟩
      omega
    rw [← natOf_tail hstripped.2] at h ⊢
    have hzero := natOf_append_eq_left hcut (by rw [List.take_append_drop, h])
    rwa [List.take_append_drop] at hzero
  · have hcut : contents.drop (min n 32) ≠ [] := by
      rw [ne_eq, List.drop_eq_nil_iff]
      omega
    have hzero := natOf_append_eq_left hcut (by rw [List.take_append_drop, h])
    rwa [List.take_append_drop] at hzero

theorem Fits.natOf_taken (h : Fits contents) (hread : n = contents.length ∨ 33 < contents.length) :
    natOf (taken contents n) = natOf contents := by
  rcases h.short with hshort | ⟨hlength, hzero⟩ | hzero
  · obtain rfl := hread.resolve_right (by omega)
    rw [taken, if_neg (by omega), List.take_of_length_le (by omega)]
  · obtain rfl := hread.resolve_right (by omega)
    rw [taken, if_pos ⟨by omega, hzero⟩, List.take_of_length_le, natOf_tail hzero]
    rw [List.length_drop]
    omega
  · have htaken : ∀ b ∈ taken contents n, b = 0 := by
      intro b hb
      rw [taken] at hb
      split_ifs at hb
      · exact hzero b (List.mem_of_mem_drop (List.mem_of_mem_take hb))
      · exact hzero b (List.mem_of_mem_take hb)
    rw [natOf_eq_zero_iff.2 htaken, natOf_eq_zero_iff.2 hzero]

end

/-! ## Signatures -/

section
variable {der rs ss : Bytes}

/-- Where the integers of a signature are. -/
structure Layout (rs ss der : Bytes) (first second : ℕ) : Prop where
  sequence : der[0]? = some 0x30
  fits : (lengthAt der 1).2 + (lengthAt der 1).1 ≤ der.length
  /-- The first integer is looked for elsewhere only where there is none. -/
  looked : der[firstAt der]? = some 0x02 → firstAt der = first
  firstTag : der[first]? = some 0x02
  firstLength : (lengthAt der (first + 1)).1 = Cbor.toInt32 rs.length
  firstDrop : ∃ rest, der.drop (lengthAt der (first + 1)).2 = rs ++ rest
  secondPlace : second = (lengthAt der (first + 1)).2 + rs.length
  secondTag : der[second]? = some 0x02
  secondLength : (lengthAt der (second + 1)).1 = Cbor.toInt32 ss.length
  secondDrop : ∃ rest, der.drop (lengthAt der (second + 1)).2 = ss ++ rest

theorem toInt32_le (n : ℕ) : Cbor.toInt32 n ≤ n := by
  rw [Cbor.toInt32]
  split_ifs <;> omega

/-- An element that begins at `pos`. -/
theorem element_at {contents out rest : Bytes} {tag : UInt8} {pos : ℕ}
    (h : Element tag contents out) (hdrop : der.drop pos = out ++ rest) :
    der[pos]? = some tag ∧ (lengthAt der (pos + 1)).1 = Cbor.toInt32 contents.length ∧
      der.drop (lengthAt der (pos + 1)).2 = contents ++ rest ∧
        (lengthAt der (pos + 1)).2 + contents.length = pos + out.length := by
  obtain ⟨octets, hoctets, rfl⟩ := h
  have hbehind : der.drop (pos + 1) = octets ++ (contents ++ rest) := by
    rw [← List.drop_drop, hdrop, List.cons_append, List.drop_succ_cons, List.drop_zero,
      List.append_assoc]
  rw [lengthAt_eq hoctets hbehind]
  refine ⟨?_, rfl, ?_, ?_⟩
  · rw [← Nat.add_zero pos, ← List.getElem?_drop, hdrop]
    rfl
  · rw [← List.drop_drop, hbehind, List.drop_left]
  · dsimp only
    rw [List.length_cons, List.length_append]
    omega

/-- A length in the long form is not taken for a short one where the tag is next. -/
theorem looked_of_octets {octets body : Bytes} (hoctets : LengthOctets body.length octets)
    (hder : der = 0x30 :: (octets ++ body)) (htag : der[firstAt der]? = some 0x02) :
    firstAt der = 1 + octets.length := by
  have hdrop : der.drop 1 = octets ++ body := by rw [hder, List.drop_succ_cons, List.drop_zero]
  have hlen : der.length = 1 + octets.length + body.length := by
    rw [hder, List.length_cons, List.length_append]
    omega
  by_cases hmap : der[1]?.map (·.toNat + 2) = some der.length
  · rw [firstAt, if_pos hmap] at htag ⊢
    generalize hn : body.length = n at hoctets hlen
    cases hoctets with
    | short h => rfl
    | @long octets hne h =>
      -- The octets would spell 128, and begin with the tag.
      have hb : (0x80 + octets.length).toUInt8.toNat = 0x80 + octets.length :=
        UInt8.toNat_ofNat_of_lt' (show 0x80 + octets.length < 0x100 by omega)
      have hget : der[1]? = some (0x80 + octets.length).toUInt8 := by
        rw [hder]
        rfl
      rw [hget, Option.map_some, hb, Option.some.injEq] at hmap
      rw [List.length_cons] at hlen
      have hspelt : natOf octets = 0x80 := by omega
      obtain ⟨o, os, rfl⟩ := List.exists_cons_of_ne_nil hne
      rw [hder] at htag
      obtain rfl : o = 0x02 := Option.some.inj htag
      rw [natOf_cons] at hspelt
      cases os with
      | nil => cases hspelt
      | cons o os =>
        have hpow := Nat.pos_of_ne_zero (pow_ne_zero os.length (show 256 ≠ 0 by decide))
        rw [List.length_cons, pow_succ, show (0x02 : UInt8).toNat = 2 from rfl] at hspelt
        omega
  · rw [firstAt, if_neg hmap, lengthAt_eq hoctets hdrop]

theorem IsSignature.layout (h : IsSignature rs ss der) :
    ∃ first second, Layout rs ss der first second := by
  obtain ⟨first, second, hfirst, hsecond, hder⟩ := h
  obtain ⟨hsequence, hlen, hbody, hend⟩ :=
    @element_at der (first ++ second) der [] 0x30 0 hder (List.append_nil der).symm
  obtain ⟨octets, hoctets, heq⟩ := hder
  have hdrop : der.drop 1 = octets ++ (first ++ second) := by
    rw [heq, List.drop_succ_cons, List.drop_zero]
  have hplace : (lengthAt der 1).2 = 1 + octets.length := by rw [lengthAt_eq hoctets hdrop]
  rw [Nat.zero_add] at hlen hbody hend
  rw [List.append_nil, hplace] at hbody
  obtain ⟨htag, hlength, hcontents, hnext⟩ := element_at hfirst hbody
  obtain ⟨htag', hlength', hcontents', hnext'⟩ := @element_at der ss second [] 0x02
    (1 + octets.length + first.length) hsecond
      (by rw [← List.drop_drop, hbody, List.drop_left, List.append_nil])
  refine ⟨1 + octets.length, 1 + octets.length + first.length, hsequence, ?_,
    looked_of_octets hoctets heq, htag, hlength, ⟨_, hcontents⟩, hnext.symm, htag', hlength',
    ⟨_, hcontents'⟩⟩
  have hle := toInt32_le (first ++ second).length
  rw [hlen]
  omega

/-- The length that is read, where it is no error. -/
theorem exists_length {contents : Bytes} (h : 0 ≤ Cbor.toInt32 contents.length) :
    ∃ n : ℕ, Cbor.toInt32 contents.length = n ∧ n ≤ contents.length ∧
      (n = contents.length ∨ 33 < contents.length ∧ n < contents.length) := by
  have hle := toInt32_le contents.length
  by_cases hlt : contents.length < 2 ^ 31
  · exact ⟨_, Cbor.toInt32_of_lt hlt, le_rfl, .inl rfl⟩
  · refine ⟨(Cbor.toInt32 contents.length).toNat, (Int.toNat_of_nonneg h).symm, by omega, ?_⟩
    refine .inr ⟨by omega, ?_⟩
    have hlt' : Cbor.toInt32 contents.length < 2 ^ 31 := by
      rw [Cbor.toInt32]
      split_ifs <;> omega
    omega

variable {first second : ℕ}

/-- The second integer is looked for behind the first one. -/
theorem Layout.secondAt_eq (h : Layout rs ss der first second) (htagged : Tagged der)
    (hrs : Fits rs) : secondAt der = second := by
  have hfirst := h.looked htagged.first
  have hlength := htagged.firstLength
  have htag := htagged.second
  rw [hfirst, h.firstLength] at hlength
  rw [secondAt, hfirst, h.firstLength] at htag ⊢
  obtain ⟨n, hn, -, rfl | ⟨h33, hlt⟩⟩ := exists_length hlength
  · rw [hn, Int.toNat_natCast, h.secondPlace]
  · -- So many bytes are all zero, and none of them is the tag.
    have hzero : ∀ b ∈ rs, b = 0 :=
      (hrs.short.resolve_left (by omega)).resolve_left fun h => by omega
    obtain ⟨rest, hdrop⟩ := h.firstDrop
    rw [hn, Int.toNat_natCast, ← List.getElem?_drop, hdrop, List.getElem?_append_left hlt] at htag
    cases hzero _ (List.mem_of_getElem? htag)

/-- The numbers that are made of contents are right only if they fit. -/
theorem natOf_bytesAt_eq_iff {contents rest : Bytes} {pos : ℕ} (hnatural : IsNatural contents)
    (hlength : (lengthAt der pos).1 = Cbor.toInt32 contents.length)
    (hnonneg : 0 ≤ (lengthAt der pos).1)
    (hdrop : der.drop (lengthAt der pos).2 = contents ++ rest) :
    natOf (bytesAt der (lengthAt der pos).2 (lengthAt der pos).1) = natOf contents ↔
      Fits contents := by
  rw [hlength] at hnonneg ⊢
  obtain ⟨n, hn, hle, hread⟩ := exists_length hnonneg
  rw [hn, natOf_bytesAt hdrop hle]
  exact ⟨fits_of_natOf hnatural, fun h => h.natOf_taken (hread.imp_right And.left)⟩

/-- What is accepted encodes what is returned if the input is a sequence of two integers that are
    not negative and of which all bytes are taken, and only then. -/
theorem faithful_iff (der : Bytes) : Faithful der ↔ (Tagged der → WellFormed der) := by
  constructor
  · intro h htagged
    obtain ⟨-, rs, ss, hrs, hss, hder, hr, hs⟩ := h _ htagged.derSignatureToRaw
    obtain ⟨first, second, hlayout⟩ := hder.layout
    have hfirst := hlayout.looked htagged.first
    obtain ⟨_, hdrop⟩ := hlayout.firstDrop
    obtain ⟨_, hdrop'⟩ := hlayout.secondDrop
    rw [List.take_left' (length_bytesAt _ _), hfirst] at hr
    rw [List.drop_left' (length_bytesAt _ _)] at hs
    have hfits : Fits rs := (natOf_bytesAt_eq_iff hrs hlayout.firstLength
      (hfirst ▸ htagged.firstLength) hdrop).1 hr.symm
    have hsecond := hlayout.secondAt_eq htagged hfits
    rw [hsecond] at hs
    exact ⟨rs, ss, hfits, (natOf_bytesAt_eq_iff hss hlayout.secondLength
      (hsecond ▸ htagged.secondLength) hdrop').1 hs.symm, hder⟩
  · intro h raw hraw
    have htagged := tagged_of_eq_ok hraw
    obtain ⟨rs, ss, hrs, hss, hder⟩ := h htagged
    obtain ⟨first, second, hlayout⟩ := hder.layout
    have hfirst := hlayout.looked htagged.first
    have hsecond := hlayout.secondAt_eq htagged hrs
    obtain ⟨_, hdrop⟩ := hlayout.firstDrop
    obtain ⟨_, hdrop'⟩ := hlayout.secondDrop
    obtain rfl := Except.ok.inj (htagged.derSignatureToRaw.symm.trans hraw)
    rw [List.take_left' (length_bytesAt _ _), List.drop_left' (length_bytesAt _ _), hfirst, hsecond,
      List.length_append, length_bytesAt, length_bytesAt]
    refine ⟨rfl, rs, ss, hrs.toIsNatural, hss.toIsNatural, hder, Eq.symm ?_, Eq.symm ?_⟩
    · exact (natOf_bytesAt_eq_iff hrs.toIsNatural hlayout.firstLength
        (hfirst ▸ htagged.firstLength) hdrop).2 hrs
    · exact (natOf_bytesAt_eq_iff hss.toIsNatural hlayout.secondLength
        (hsecond ▸ htagged.secondLength) hdrop').2 hss

end

/-! ## There and back -/

/-- The contents of an integer that is written. -/
def integerContents (bytes : Bytes) : Bytes :=
  let stripped := bytes.dropWhile (· = 0)
  if stripped.isEmpty ∨ 0x80 ≤ (stripped.getD 0 0).toNat then 0x00 :: stripped else stripped

theorem natOf_dropWhile (bytes : Bytes) : natOf (bytes.dropWhile (· = 0)) = natOf bytes := by
  induction bytes with
  | nil => rfl
  | cons b bytes ih =>
    by_cases hb : b = 0
    · rw [List.dropWhile_cons_of_pos (by simpa using hb), ih, hb]
      exact @natOf_tail (0 :: bytes) rfl
    · rw [List.dropWhile_cons_of_neg (by simpa using hb)]

theorem integerContents_spec {bytes : Bytes} (h : bytes.length ≤ 32) :
    Fits (integerContents bytes) ∧ natOf (integerContents bytes) = natOf bytes ∧
      (integerContents bytes).length ≤ 33 := by
  have hlength := (List.dropWhile_suffix (· = (0 : UInt8)) (l := bytes)).length_le.trans h
  have hnat := natOf_dropWhile bytes
  rw [integerContents]
  generalize bytes.dropWhile (· = 0) = stripped at hlength hnat
  split_ifs with hzero
  · refine ⟨⟨⟨List.cons_ne_nil _ _, fun b hb => ?_⟩, ?_⟩, ?_, Nat.succ_le_succ hlength⟩
    · obtain rfl := Option.some.inj hb
      decide
    · rw [List.length_cons]
      by_cases h32 : stripped.length = 32
      · exact .inr (.inl ⟨by omega, rfl⟩)
      · exact .inl (by omega)
    · rw [← hnat]
      exact (natOf_tail rfl).symm
  · obtain ⟨hempty, hhead⟩ := not_or.1 hzero
    refine ⟨⟨⟨fun hnil => hempty (List.isEmpty_iff.2 hnil), fun b hb => ?_⟩, .inl hlength⟩, hnat,
      hlength.trans (Nat.le_succ _)⟩
    rw [List.getD_eq_getElem?_getD, ← List.head?_eq_getElem?, Option.mem_def.1 hb] at hhead
    exact not_le.1 hhead

theorem element_short {tag : UInt8} {contents : Bytes} (h : contents.length < 0x80) :
    Element tag contents (tag :: contents.length.toUInt8 :: contents) :=
  ⟨_, .short h, rfl⟩

theorem Layout.tagged {der rs ss : Bytes} {first second : ℕ} (h : Layout rs ss der first second)
    (hfirst : firstAt der = first) (hrs : rs.length < 2 ^ 31) (hss : ss.length < 2 ^ 31) :
    Tagged der := by
  have hsecond : secondAt der = second := by
    rw [secondAt, hfirst, h.firstLength, Cbor.toInt32_of_lt hrs, Int.toNat_natCast, h.secondPlace]
  refine ⟨h.sequence, .inr h.fits, hfirst ▸ h.firstTag, ?_, hsecond ▸ h.secondTag, ?_⟩
  · rw [hfirst, h.firstLength, Cbor.toInt32_of_lt hrs]
    exact Int.natCast_nonneg _
  · rw [hsecond, h.secondLength, Cbor.toInt32_of_lt hss]
    exact Int.natCast_nonneg _

/-- Every raw signature comes back. -/
theorem derSignatureToRaw_rawSignatureToDer {raw : Bytes} (h : raw.length = 64) :
    derSignatureToRaw (rawSignatureToDer raw) = .ok raw := by
  have hdrop : (raw.drop 32).take 32 = raw.drop 32 :=
    List.take_of_length_le (by rw [List.length_drop]; omega)
  have htakeLength : (raw.take 32).length = 32 := by
    rw [List.length_take]
    omega
  have hdropLength : (raw.drop 32).length = 32 := by
    rw [List.length_drop]
    omega
  obtain ⟨hrs, hr, hrlen⟩ := integerContents_spec htakeLength.le
  obtain ⟨hss, hs, hslen⟩ := integerContents_spec hdropLength.le
  have hder : rawSignatureToDer raw = 0x30 :: (encodeInteger (raw.take 32) ++
      encodeInteger (raw.drop 32)).length.toUInt8 ::
        (encodeInteger (raw.take 32) ++ encodeInteger (raw.drop 32)) := by
    rw [rawSignatureToDer, hdrop]
  have hbody : (encodeInteger (raw.take 32) ++ encodeInteger (raw.drop 32)).length < 0x80 := by
    change (0x02 :: _ :: integerContents _ ++ 0x02 :: _ :: integerContents _).length < 0x80
    rw [List.length_append, List.length_cons, List.length_cons, List.length_cons, List.length_cons]
    omega
  have hsignature : IsSignature (integerContents (raw.take 32)) (integerContents (raw.drop 32))
      (rawSignatureToDer raw) :=
    ⟨encodeInteger (raw.take 32), encodeInteger (raw.drop 32), element_short (by omega),
      element_short (by omega), hder ▸ element_short hbody⟩
  obtain ⟨first, second, hlayout⟩ := hsignature.layout
  have hat : firstAt (rawSignatureToDer raw) = 2 := by
    have hb : (encodeInteger (raw.take 32) ++ encodeInteger (raw.drop 32)).length.toUInt8.toNat =
        (encodeInteger (raw.take 32) ++ encodeInteger (raw.drop 32)).length :=
      UInt8.toNat_ofNat_of_lt' (Nat.lt_trans hbody (by decide))
    rw [firstAt, hder, if_pos]
    rw [List.getElem?_cons_succ, List.getElem?_cons_zero, Option.map_some, hb]
    rfl
  have hfirst : firstAt (rawSignatureToDer raw) = first := hlayout.looked (by rw [hat, hder]; rfl)
  have htagged := hlayout.tagged hfirst (by omega) (by omega)
  have hsecond := hlayout.secondAt_eq htagged hrs
  obtain ⟨_, hfirstDrop⟩ := hlayout.firstDrop
  obtain ⟨_, hsecondDrop⟩ := hlayout.secondDrop
  have htake := (natOf_bytesAt_eq_iff hrs.toIsNatural hlayout.firstLength
    (hfirst ▸ htagged.firstLength) hfirstDrop).2 hrs
  have hrest := (natOf_bytesAt_eq_iff hss.toIsNatural hlayout.secondLength
    (hsecond ▸ htagged.secondLength) hsecondDrop).2 hss
  rw [htagged.derSignatureToRaw, hfirst, hsecond,
    natOf_injective ((length_bytesAt _ _).trans htakeLength.symm) (htake.trans hr),
    natOf_injective ((length_bytesAt _ _).trans hdropLength.symm) (hrest.trans hs),
    List.take_append_drop]

/-! ## The conversions -/

/-- Every raw signature comes back, and an input is read faithfully exactly if it is a sequence of
    two integers that fit where it is accepted. -/
theorem conversions_iff (der : Bytes) : (∀ raw : Bytes, raw.length = 64 →
      derSignatureToRaw (rawSignatureToDer raw) = .ok raw) ∧
    (Faithful der ↔ (Tagged der → WellFormed der)) :=
  ⟨fun _ => derSignatureToRaw_rawSignatureToDer, faithful_iff der⟩

/-- A byte too much in the first integer: it is cut off. -/
def sampleLong : Bytes :=
  0x30 :: 0x26 :: 0x02 :: 0x21 :: (List.replicate 33 0x01 ++ [0x02, 0x01, 0x01])

theorem not_faithful_sampleLong : ¬ Faithful sampleLong := by
  intro h
  have hplaces : firstAt sampleLong = 2 ∧ lengthAt sampleLong 3 = (33, 4) ∧
      secondAt sampleLong = 37 ∧ lengthAt sampleLong 38 = (1, 39) := by decide
  have htagged : Tagged sampleLong :=
    ⟨rfl, .inl rfl, by rw [hplaces.1]; rfl, by rw [hplaces.1, hplaces.2.1]; decide,
      by rw [hplaces.2.2.1]; rfl, by rw [hplaces.2.2.1, hplaces.2.2.2]; decide⟩
  obtain ⟨rs, ss, hrs, -, hder⟩ := (faithful_iff sampleLong).1 h htagged
  obtain ⟨first, second, hlayout⟩ := hder.layout
  obtain rfl : 2 = first := hplaces.1.symm.trans (hlayout.looked htagged.first)
  obtain ⟨rest, hdrop⟩ := hlayout.firstDrop
  rw [hplaces.2.1] at hdrop
  have hlength := hlayout.firstLength
  rw [hplaces.2.1] at hlength
  have hshort : rs.length ≤ 36 := by
    have hle := congrArg List.length hdrop
    rw [List.length_append, List.length_drop] at hle
    have hsample : sampleLong.length = 40 := rfl
    omega
  rw [Cbor.toInt32_of_lt (by omega)] at hlength
  have hhead : rs.head? = some 0x01 := by
    have hget : (sampleLong.drop 4)[0]? = some 0x01 := rfl
    rwa [hdrop, List.getElem?_append_left (by omega), ← List.head?_eq_getElem?] at hget
  rcases hrs.short with hle | ⟨-, hzero⟩ | hzero
  · omega
  · rw [hhead] at hzero
    cases hzero
  · cases hzero _ (List.mem_of_mem_head? hhead)

theorem not_conversions : ¬ ((∀ raw : Bytes, raw.length = 64 →
    derSignatureToRaw (rawSignatureToDer raw) = .ok raw) ∧ ∀ der, Faithful der) :=
  fun h => not_faithful_sampleLong (h.2 sampleLong)

end ComputeContract.Attest.Port
