import Mathlib.Data.String.Basic
import ComputeContract.Util.Sha256

/-!
# Text

JavaScript strings and the platform's text codecs. A string is a sequence of
UTF-16 code units, which is how strings compare; `TextEncoder` and `TextDecoder`
go to UTF-8 and back, the latter dropping a leading byte order mark and putting
U+FFFD for what is not UTF-8.
-/

namespace ComputeContract

/-- The UTF-16 code units of a character. -/
def utf16Char (c : Char) : List ℕ :=
  if c.toNat < 0x10000 then [c.toNat]
  else [0xd800 + (c.toNat - 0x10000) / 0x400, 0xdc00 + (c.toNat - 0x10000) % 0x400]

/-- The UTF-16 code units of a string. -/
def utf16 (s : String) : List ℕ := s.toList.flatMap utf16Char

theorem utf16Char_ne_nil (c : Char) : utf16Char c ≠ [] := by
  unfold utf16Char
  split_ifs <;> simp

/-- No character is a surrogate. -/
theorem not_surrogate (c : Char) : c.toNat < 0xd800 ∨ 0xdfff < c.toNat ∧ c.toNat < 0x110000 := by
  rcases c.valid with h | h
  · exact .inl h
  · exact .inr h

/-- The code units of a character end where it ends. -/
theorem utf16Char_append {c d : Char} {us vs : List ℕ}
    (h : utf16Char c ++ us = utf16Char d ++ vs) : c = d ∧ us = vs := by
  have hc := not_surrogate c
  have hd := not_surrogate d
  unfold utf16Char at h
  split_ifs at h with h₁ h₂ h₂ <;> simp only [List.cons_append, List.nil_append, List.cons.injEq] at h
  · exact ⟨Char.toNat_inj.1 h.1, h.2⟩
  · omega
  · omega
  · exact ⟨Char.toNat_inj.1 (by omega), h.2.2⟩

/-- A string is given by its code units. -/
theorem utf16_injective : Function.Injective utf16 := by
  suffices h : ∀ cs ds : List Char, cs.flatMap utf16Char = ds.flatMap utf16Char → cs = ds from
    fun s t hst => String.toList_injective (h _ _ hst)
  intro cs
  induction cs with
  | nil =>
    intro ds h
    cases ds with
    | nil => rfl
    | cons d ds =>
      rw [List.flatMap_nil, List.flatMap_cons] at h
      exact absurd (List.append_eq_nil_iff.1 h.symm).1 (utf16Char_ne_nil d)
  | cons c cs ih =>
    intro ds h
    cases ds with
    | nil =>
      rw [List.flatMap_nil, List.flatMap_cons] at h
      exact absurd (List.append_eq_nil_iff.1 h).1 (utf16Char_ne_nil c)
    | cons d ds =>
      rw [List.flatMap_cons, List.flatMap_cons] at h
      obtain ⟨rfl, h'⟩ := utf16Char_append h
      rw [ih ds h']

/-- `TextEncoder.encode`. -/
def textEncode (s : String) : Bytes := s.toUTF8.data.toList

/-- No character takes more than four bytes. -/
theorem length_textEncode_le (s : String) : (textEncode s).length ≤ 4 * s.toList.length := by
  have hlist : ∀ cs : List Char, (textEncode (String.ofList cs)).length ≤ 4 * cs.length := by
    intro cs
    induction cs with
    | nil => exact le_rfl
    | cons c cs ih =>
      have hc := Char.utf8Size_le_four c
      have hsplit : String.ofList (c :: cs) = String.singleton c ++ String.ofList cs := by
        rw [String.singleton_eq_ofList, ← String.ofList_append, List.singleton_append]
      change (String.ofList cs).utf8ByteSize ≤ _ at ih
      change (String.ofList (c :: cs)).utf8ByteSize ≤ _
      rw [hsplit, String.utf8ByteSize_append, String.utf8ByteSize_singleton, List.length_cons]
      omega
  have h := hlist s.toList
  rwa [String.ofList_toList] at h

namespace TextDecoder

/-- The state of the UTF-8 decoder: the bytes still needed, the code point so
    far, and the bounds of the next byte. -/
structure State where
  needed : ℕ
  codePoint : ℕ
  lower : ℕ
  upper : ℕ

def ready : State := ⟨0, 0, 0x80, 0xbf⟩

/-- A byte at the start of a character. -/
def start (b : ℕ) : List Char × State :=
  if b < 0x80 then ([Char.ofNat b], ready)
  else if 0xc2 ≤ b ∧ b ≤ 0xdf then ([], ⟨1, b % 0x20, 0x80, 0xbf⟩)
  else if 0xe0 ≤ b ∧ b ≤ 0xef then
    ([], ⟨2, b % 0x10, if b = 0xe0 then 0xa0 else 0x80, if b = 0xed then 0x9f else 0xbf⟩)
  else if 0xf0 ≤ b ∧ b ≤ 0xf4 then
    ([], ⟨3, b % 0x08, if b = 0xf0 then 0x90 else 0x80, if b = 0xf4 then 0x8f else 0xbf⟩)
  else (['\uFFFD'], ready)

/-- One byte: a byte out of bounds ends the character, and starts the next one. -/
def step (s : State) (b : ℕ) : List Char × State :=
  if s.needed = 0 then start b
  else if b < s.lower ∨ s.upper < b then
    let r := start b
    ('\uFFFD' :: r.1, r.2)
  else if s.needed = 1 then ([Char.ofNat (s.codePoint * 0x40 + b % 0x40)], ready)
  else ([], ⟨s.needed - 1, s.codePoint * 0x40 + b % 0x40, 0x80, 0xbf⟩)

/-- Decode with replacement characters. -/
def lossy (s : State) : Bytes → List Char
  | [] => if s.needed = 0 then [] else ['\uFFFD']
  | b :: bs => (step s b.toNat).1 ++ lossy (step s b.toNat).2 bs

end TextDecoder

/-- `TextDecoder.decode`. -/
def textDecode (bs : Bytes) : String :=
  let cs := match String.fromUTF8? ⟨bs.toArray⟩ with
    | some s => s.toList
    | none => TextDecoder.lossy TextDecoder.ready bs
  String.ofList (if cs.head? = some '\uFEFF' then cs.tail else cs)

/-- Decoding is the inverse of encoding, up to a leading byte order mark. -/
theorem textDecode_textEncode {s : String} (h : s.toList.head? ≠ some '\uFEFF') :
    textDecode (textEncode s) = s := by
  have hs : String.fromUTF8? ⟨(textEncode s).toArray⟩ = some s := by
    have hv : (⟨(textEncode s).toArray⟩ : ByteArray) = s.toByteArray := rfl
    rw [hv, String.fromUTF8?, dif_pos s.isValidUTF8]
    rfl
  simp [textDecode, hs, h]

/-! ## Blanks -/

def isSpace (c : Char) : Bool :=
  c.toNat ∈ [0x9, 0xa, 0xb, 0xc, 0xd, 0x20, 0xa0, 0x1680, 0x2028, 0x2029, 0x202f, 0x205f, 0x3000,
    0xfeff] || (0x2000 ≤ c.toNat && c.toNat ≤ 0x200a)

/-- `s.trim()` -/
def trim (s : String) : String :=
  String.ofList (((s.toList.dropWhile isSpace).reverse.dropWhile isSpace).reverse)

/-- The letters, the great ones first, and the digits. -/
theorem ranges_of_isAlphanum {c : Char} (h : c.isAlphanum) :
    (65 ≤ c.toNat ∧ c.toNat ≤ 90 ∨ 97 ≤ c.toNat ∧ c.toNat ≤ 122) ∨
      48 ≤ c.toNat ∧ c.toNat ≤ 57 := by
  have hupper : c.isUpper → 65 ≤ c.toNat ∧ c.toNat ≤ 90 := of_decide_eq_true
  have hlower : c.isLower → 97 ≤ c.toNat ∧ c.toNat ≤ 122 := fun hlower =>
    (Bool.and_eq_true_iff.1 hlower).imp of_decide_eq_true of_decide_eq_true
  have hdigit : c.isDigit → 48 ≤ c.toNat ∧ c.toNat ≤ 57 := fun hdigit =>
    (Bool.and_eq_true_iff.1 hdigit).imp of_decide_eq_true of_decide_eq_true
  refine (Bool.or_eq_true_iff.1 h).imp (fun hletter => ?_) hdigit
  exact (Bool.or_eq_true_iff.1 hletter).imp hupper hlower

theorem toNat_of_isAlphanum {c : Char} (h : c.isAlphanum) : 48 ≤ c.toNat ∧ c.toNat ≤ 122 := by
  rcases ranges_of_isAlphanum h with (h | h) | h <;> omega

theorem isSpace_eq_false {c : Char} (h : 48 ≤ c.toNat ∧ c.toNat ≤ 122) : isSpace c = false := by
  rw [isSpace, Bool.or_eq_false_iff]
  constructor
  · refine decide_eq_false ?_
    simp only [List.mem_cons, List.not_mem_nil, or_false, not_or]
    omega
  · simp only [Bool.and_eq_false_iff, decide_eq_false_iff_not]
    omega

theorem dropWhile_of_head {p : Char → Bool} {cs : List Char} (h : ∀ c ∈ cs.head?, p c = false) :
    cs.dropWhile p = cs := by
  cases cs with
  | nil => rfl
  | cons c cs => exact List.dropWhile_cons_of_neg (by rw [h c rfl]; decide)

/-- Without blanks at its ends a string stays as it is. -/
theorem trim_eq {s : String} (hhead : ∀ c ∈ s.toList.head?, isSpace c = false)
    (hlast : ∀ c ∈ s.toList.getLast?, isSpace c = false) : trim s = s := by
  rw [trim, dropWhile_of_head hhead, dropWhile_of_head (by rwa [List.head?_reverse]),
    List.reverse_reverse, String.ofList_toList]

end ComputeContract
