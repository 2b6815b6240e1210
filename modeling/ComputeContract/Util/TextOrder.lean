import ComputeContract.Lib.LexCode
import ComputeContract.Util.Text

/-!
# Two orders of text

JavaScript compares strings by their UTF-16 code units, a format may compare them by their UTF-8
bytes. The bytes are in the order of the code points. So are the code units but for the
characters above U+FFFF, whose first unit is a surrogate and comes before U+E000 to U+FFFF.

* `utf16_lt_iff`, `textEncode_lt_iff`: both orders, as orders of characters;
* `astray`: the strings that the two orders put the other way round.
-/

namespace ComputeContract

/-- Where the code units of a character come in their order. -/
def utf16Rank (c : Char) : ℕ :=
  if 0xe000 ≤ c.toNat ∧ c.toNat < 0x10000 then c.toNat + 0x110000 else c.toNat

theorem toNat_lt (c : Char) : c.toNat < 0x110000 := by
  rcases not_surrogate c with h | h <;> omega

theorem ordered_utf16Char : LexCode.Ordered utf16Char utf16Rank where
  ne_nil := utf16Char_ne_nil
  injective := by
    intro c d h
    have hc := toNat_lt c
    have hd := toNat_lt d
    unfold utf16Rank at h
    refine Char.toNat_inj.1 ?_
    split_ifs at h <;> omega
  lt := by
    intro c d h us vs
    have hc := not_surrogate c
    have hd := not_surrogate d
    unfold utf16Rank at h
    unfold utf16Char
    split_ifs at h ⊢ <;> simp only [List.cons_append, List.nil_append, List.cons_lt_cons_iff] <;>
      omega

/-- Strings compare as the ranks of their characters. -/
theorem utf16_lt_iff (s t : String) :
    utf16 s < utf16 t ↔ s.toList.map utf16Rank < t.toList.map utf16Rank :=
  ordered_utf16Char.flatMap_lt_flatMap_iff _ _

theorem textEncode_eq (s : String) : textEncode s = s.toList.flatMap String.utf8EncodeChar := by
  have h : s.toList.utf8Encode = s.toByteArray := String.utf8Encode_toList
  rw [textEncode, String.toUTF8, ← h, List.utf8Encode]
  simp

theorem ordered_utf8EncodeChar : LexCode.Ordered String.utf8EncodeChar Char.toNat where
  ne_nil := fun _ => String.utf8EncodeChar_ne_nil
  injective := fun _ _ => Char.toNat_inj.1
  lt := by
    intro c d h us vs
    have hc := toNat_lt c
    have hd := toNat_lt d
    have hval : ∀ c : Char, c.val.toNat = c.toNat := fun _ => rfl
    -- The digits are no more than a byte holds.
    have h₁ : ∀ n, (n % 0x40 + 0x80) % 2 ^ 8 = n % 0x40 + 0x80 := by omega
    have h₂ : ∀ n, (n % 0x20 + 0xc0) % 2 ^ 8 = n % 0x20 + 0xc0 := by omega
    have h₃ : ∀ n, (n % 0x10 + 0xe0) % 2 ^ 8 = n % 0x10 + 0xe0 := by omega
    have h₄ : ∀ n, (n % 0x08 + 0xf0) % 2 ^ 8 = n % 0x08 + 0xf0 := by omega
    have hdiv : ∀ n < 0x110000, n / 64 / 64 = n / 4096 ∧ n / 4096 / 64 = n / 262144 ∧
        n / 262144 / 8 = 0 := by omega
    have hc' := hdiv c.toNat hc
    have hd' := hdiv d.toNat hd
    unfold String.utf8EncodeChar
    simp only [hval]
    split_ifs <;> simp only [List.cons_append, List.nil_append, List.cons_lt_cons_iff,
      UInt8.lt_iff_toNat_lt, ← UInt8.toNat_inj, UInt8.toNat_ofNat', h₁, h₂, h₃, h₄] <;>
      omega

/-- Bytes compare as the code points. -/
theorem textEncode_lt_iff (s t : String) :
    textEncode s < textEncode t ↔ s.toList.map Char.toNat < t.toList.map Char.toNat := by
  rw [textEncode_eq, textEncode_eq]
  exact ordered_utf8EncodeChar.flatMap_lt_flatMap_iff _ _

theorem textEncode_injective : Function.Injective textEncode := by
  intro s t h
  exact String.toByteArray_inj.1 (ByteArray.ext (Array.toList_inj.1 h))

/-- Where two texts first differ, the first has a character above U+FFFF and the second one of
    U+E000 to U+FFFF. -/
def astrayFrom : List Char → List Char → Bool
  | c :: cs, d :: ds =>
    if c = d then astrayFrom cs ds else 0x10000 ≤ c.toNat ∧ 0xe000 ≤ d.toNat ∧ d.toNat < 0x10000
  | _, _ => false

theorem astrayFrom_iff (cs ds : List Char) : astrayFrom cs ds ↔
    cs.map utf16Rank < ds.map utf16Rank ∧ ds.map Char.toNat < cs.map Char.toNat := by
  induction cs generalizing ds with
  | nil => exact iff_of_false (by simp [astrayFrom]) fun h => List.not_lt_nil _ h.2
  | cons c cs ih =>
    cases ds with
    | nil => exact iff_of_false (by simp [astrayFrom]) fun h => List.not_lt_nil _ h.1
    | cons d ds =>
      rw [astrayFrom, List.map_cons, List.map_cons, List.map_cons, List.map_cons]
      by_cases h : c = d
      · subst h
        rw [if_pos rfl, ih, List.cons_lt_cons_self, List.cons_lt_cons_self]
      · have hrank : utf16Rank c ≠ utf16Rank d := ordered_utf16Char.injective.ne h
        have hcode : d.toNat ≠ c.toNat := fun heq => h (Char.toNat_inj.1 heq.symm)
        have hc := toNat_lt c
        rw [if_neg h, decide_eq_true_eq, List.cons_lt_cons_iff, List.cons_lt_cons_iff]
        simp only [hrank, hcode, false_and, or_false]
        unfold utf16Rank
        split_ifs <;> omega

/-- One of two strings comes first by code units and last by bytes. -/
def astray (s t : String) : Bool := astrayFrom s.toList t.toList || astrayFrom t.toList s.toList

theorem astrayFrom_toList_iff (s t : String) :
    astrayFrom s.toList t.toList ↔ utf16 s < utf16 t ∧ textEncode t < textEncode s := by
  rw [astrayFrom_iff, utf16_lt_iff, textEncode_lt_iff]

theorem astray_comm (s t : String) : astray s t = astray t s := Bool.or_comm _ _

/-- Two strings are in one order unless they are astray. -/
theorem textEncode_lt_iff_of_utf16_lt {s t : String} (h : utf16 s < utf16 t) :
    textEncode s < textEncode t ↔ ¬ astray s t := by
  rw [astray, Bool.or_eq_true, astrayFrom_toList_iff, astrayFrom_toList_iff]
  constructor
  · rintro hlt (⟨-, hgt⟩ | ⟨hgt, -⟩)
    · exact List.lt_asymm hlt hgt
    · exact List.lt_asymm h hgt
  · intro hastray
    rw [textEncode_lt_iff]
    by_contra hle
    rcases eq_or_lt_of_le (not_lt.1 hle) with heq | hgt
    · have hsame : t.toList = s.toList :=
        List.map_injective_iff.2 (fun _ _ => Char.toNat_inj.1) heq
      rw [String.toList_injective hsame] at h
      exact List.lt_irrefl _ h
    · exact hastray (.inl ⟨h, (textEncode_lt_iff t s).2 hgt⟩)

end ComputeContract
