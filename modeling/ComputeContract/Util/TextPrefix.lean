import ComputeContract.Util.TextOrder

/-!
# Text cut short

What the decoder makes of the first bytes of an encoded text: the characters that are complete,
and one U+FFFD for what is left of the next one. So it is never much longer than the bytes that
were read.

* `lossy_char`, `lossy_take`: a character, and the start of one;
* `length_textDecode_take_le`: the length of what is decoded.
-/

namespace ComputeContract

namespace TextDecoder

/-! ## The bytes of a character -/

theorem start_two {b : ℕ} (h : 0xc2 ≤ b ∧ b ≤ 0xdf) :
    step ready b = ([], ⟨1, b % 0x20, 0x80, 0xbf⟩) := by
  change start b = _
  rw [start, if_neg (by omega), if_pos h]

theorem start_three {b : ℕ} (h : 0xe0 ≤ b ∧ b ≤ 0xef) : step ready b =
    ([], ⟨2, b % 0x10, if b = 0xe0 then 0xa0 else 0x80, if b = 0xed then 0x9f else 0xbf⟩) := by
  change start b = _
  rw [start, if_neg (by omega), if_neg (by omega), if_pos h]

theorem start_four {b : ℕ} (h : 0xf0 ≤ b ∧ b ≤ 0xf4) : step ready b =
    ([], ⟨3, b % 0x08, if b = 0xf0 then 0x90 else 0x80, if b = 0xf4 then 0x8f else 0xbf⟩) := by
  change start b = _
  rw [start, if_neg (by omega), if_neg (by omega), if_neg (by omega), if_pos h]

/-- The last byte of a character. -/
theorem step_last {p l u b : ℕ} (hl : l ≤ b) (hu : b ≤ u) :
    step ⟨1, p, l, u⟩ b = ([Char.ofNat (p * 0x40 + b % 0x40)], ready) := by
  have hin : ¬ (b < l ∨ u < b) := by omega
  rw [step, if_neg Nat.one_ne_zero, if_neg hin, if_pos rfl]

/-- A byte inside a character. -/
theorem step_more {k p l u b : ℕ} (hl : l ≤ b) (hu : b ≤ u) :
    step ⟨k + 2, p, l, u⟩ b = ([], ⟨k + 1, p * 0x40 + b % 0x40, 0x80, 0xbf⟩) := by
  have hin : ¬ (b < l ∨ u < b) := by omega
  rw [step, if_neg (by simp), if_neg hin, if_neg (by simp)]
  rfl

/-- From a state on, the bytes are the rest of a character. -/
inductive Spells (c : Char) : State → Bytes → Prop
  | last {s : State} {b : UInt8} : step s b.toNat = ([c], ready) → Spells c s [b]
  | more {s s' : State} {b : UInt8} {bs : Bytes} :
      step s b.toNat = ([], s') → s'.needed ≠ 0 → Spells c s' bs → Spells c s (b :: bs)

theorem toNat_ofNat_byte {n : ℕ} (hn : n < 256) : (UInt8.ofNat n).toNat = n :=
  UInt8.toNat_ofNat'.trans (Nat.mod_eq_of_lt hn)

theorem Spells.last_byte {c : Char} {s : State} {n : ℕ} (hn : n < 256)
    (h : step s n = ([c], ready)) : Spells c s [UInt8.ofNat n] :=
  .last (by rwa [toNat_ofNat_byte hn])

theorem Spells.more_byte {c : Char} {s s' : State} {n : ℕ} {bs : Bytes} (hn : n < 256)
    (h : step s n = ([], s')) (hs : s'.needed ≠ 0) (hbs : Spells c s' bs) :
    Spells c s (UInt8.ofNat n :: bs) :=
  .more (by rwa [toNat_ofNat_byte hn]) hs hbs

/-- The encoding of a character is read as it. -/
theorem spells_utf8EncodeChar (c : Char) : Spells c ready (String.utf8EncodeChar c) := by
  have hc := not_surrogate c
  have hval : c.val.toNat = c.toNat := rfl
  have hcode : ∀ n, n = c.toNat → ([Char.ofNat n], ready) = ([c], ready) := by
    rintro _ rfl
    rw [Char.ofNat_toNat]
  unfold String.utf8EncodeChar
  simp only [hval]
  split_ifs with h₁ h₂ h₃
  · refine .last_byte (by omega) ?_
    change start c.toNat = _
    rw [start, if_pos (by omega), Char.ofNat_toNat]
  · refine .more_byte (by omega) (start_two (by omega)) Nat.one_ne_zero ?_
    exact .last_byte (by omega) ((step_last (by omega) (by omega)).trans (hcode _ (by omega)))
  · refine .more_byte (by omega) (start_three (by omega)) (Nat.succ_ne_zero 1) ?_
    refine .more_byte (by omega) (step_more ?_ ?_) Nat.one_ne_zero ?_
    · split_ifs <;> omega
    · split_ifs <;> omega
    exact .last_byte (by omega) ((step_last (by omega) (by omega)).trans (hcode _ (by omega)))
  · refine .more_byte (by omega) (start_four (by omega)) (Nat.succ_ne_zero 2) ?_
    refine .more_byte (by omega) (step_more ?_ ?_) (Nat.succ_ne_zero 1) ?_
    · split_ifs <;> omega
    · split_ifs <;> omega
    refine .more_byte (by omega) (step_more (by omega) (by omega)) Nat.one_ne_zero ?_
    exact .last_byte (by omega) ((step_last (by omega) (by omega)).trans (hcode _ (by omega)))

/-! ## A text cut short -/

theorem Spells.lossy_append {c : Char} {s : State} {bs : Bytes} (h : Spells c s bs)
    (rest : Bytes) : lossy s (bs ++ rest) = c :: lossy ready rest := by
  induction h with
  | last hstep => rw [List.singleton_append, lossy, hstep, List.singleton_append]
  | more hstep _ _ ih => rw [List.cons_append, lossy, hstep, ih, List.nil_append]

/-- What is left of a character that is cut short is one U+FFFD. -/
theorem Spells.lossy_take {c : Char} {s : State} {bs : Bytes} (h : Spells c s bs) {m : ℕ}
    (hneeded : s.needed ≠ 0 ∨ 0 < m) (hm : m < bs.length) : lossy s (bs.take m) = ['\uFFFD'] := by
  induction h generalizing m with
  | last hstep =>
    obtain rfl : m = 0 := Nat.lt_one_iff.1 hm
    exact if_neg (hneeded.resolve_right (lt_irrefl 0))
  | more hstep hneeded' _ ih =>
    cases m with
    | zero => exact if_neg (hneeded.resolve_right (lt_irrefl 0))
    | succ m => rw [List.take_succ_cons, lossy, hstep, ih (.inl hneeded') (Nat.lt_of_succ_lt_succ hm),
        List.nil_append]

/-- The first `m` bytes of a text are read as two bytes more at most. -/
theorem length_lossy_take_le (cs : List Char) (m : ℕ) :
    ((lossy ready ((cs.flatMap String.utf8EncodeChar).take m)).flatMap
      String.utf8EncodeChar).length ≤ m + 2 := by
  induction cs generalizing m with
  | nil =>
    rw [List.flatMap_nil, List.take_nil]
    exact Nat.zero_le _
  | cons c cs ih =>
    have hspells := spells_utf8EncodeChar c
    rw [List.flatMap_cons]
    rcases Nat.lt_or_ge m (String.utf8EncodeChar c).length with hm | hm
    · rw [List.take_append_of_le_length hm.le]
      rcases Nat.eq_zero_or_pos m with rfl | hpos
      · exact Nat.zero_le _
      · rw [hspells.lossy_take (.inr hpos) hm]
        exact Nat.add_le_add_right hpos 2
    · rw [List.take_append, List.take_of_length_le hm, hspells.lossy_append, List.flatMap_cons,
        List.length_append]
      have htail := ih (m - (String.utf8EncodeChar c).length)
      omega

end TextDecoder

/-- The first `m` bytes of a text are decoded to two bytes more at most. -/
theorem length_textDecode_take_le (s : String) (m : ℕ) :
    (textEncode (textDecode ((textEncode s).take m))).length ≤ m + 2 := by
  have htail : ∀ cs : List Char, cs.tail.flatMap String.utf8EncodeChar <:+
      cs.flatMap String.utf8EncodeChar := by
    intro cs
    cases cs with
    | nil => exact List.suffix_rfl
    | cons c cs =>
      rw [List.flatMap_cons]
      exact List.suffix_append _ _
  have hcs : ∀ cs : List Char, (cs.flatMap String.utf8EncodeChar).length ≤ m + 2 →
      (textEncode (String.ofList (if cs.head? = some '\uFEFF' then cs.tail else cs))).length
        ≤ m + 2 := by
    intro cs hle
    rw [textEncode_eq, String.toList_ofList]
    split_ifs
    · exact (htail cs).length_le.trans hle
    · exact hle
  rw [textDecode]
  refine hcs _ ?_
  cases hvalid : String.fromUTF8? ⟨((textEncode s).take m).toArray⟩ with
  | some t =>
    have ht : textEncode t = (textEncode s).take m := by
      rw [String.fromUTF8?] at hvalid
      split_ifs at hvalid with hutf8
      obtain rfl := Option.some.inj hvalid
      rfl
    rw [← textEncode_eq, ht, List.length_take]
    omega
  | none =>
    rw [textEncode_eq]
    exact TextDecoder.length_lossy_take_le s.toList m

/-- The decoder drops a byte order mark. -/
theorem length_textDecode_of_bom {s : String} (h : s.toList.head? = some '\uFEFF') :
    (textEncode (textDecode (textEncode s))).length < (textEncode s).length := by
  have hs : String.fromUTF8? ⟨(textEncode s).toArray⟩ = some s := by
    have hv : (⟨(textEncode s).toArray⟩ : ByteArray) = s.toByteArray := rfl
    rw [hv, String.fromUTF8?, dif_pos s.isValidUTF8]
    rfl
  obtain ⟨cs, hcs⟩ := List.head?_eq_some_iff.1 h
  have hpos := List.length_pos_of_ne_nil (String.utf8EncodeChar_ne_nil (c := '\uFEFF'))
  rw [textDecode, hs]
  dsimp only
  rw [if_pos h, textEncode_eq, textEncode_eq, String.toList_ofList, hcs, List.tail_cons,
    List.flatMap_cons, List.length_append]
  omega

end ComputeContract
