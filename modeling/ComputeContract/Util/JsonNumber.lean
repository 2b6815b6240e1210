import Mathlib.Tactic.Linarith
import Mathlib.Tactic.FieldSimp
import Mathlib.Tactic.Positivity
import ComputeContract.Util.JsonText

/-!
# Numbers in JSON

A double is a whole number of units, where the unit is a power of two that depends on its size.

* `toDouble_of_toDouble`: what is rounded is a double;
* `exactText`: a text that is read as the double it is of.
-/

namespace ComputeContract.Json

/-! ## Doubles -/

/-- The exponent of the last digit of a double of this size. -/
def unitExponent (x : ℚ) : ℤ := max (Int.log 2 x - 52) (-1074)

/-- The whole number that is closest, the even one of two. -/
def roundEven (y : ℚ) : ℤ :=
  if y - ⌊y⌋ < 1 / 2 ∨ y - ⌊y⌋ = 1 / 2 ∧ ⌊y⌋ % 2 = 0 then ⌊y⌋ else ⌊y⌋ + 1

theorem toDouble_eq (q : ℚ) : toDouble q =
    if |q| = 0 then .number 0
    else
      let m : ℚ := roundEven (|q| / 2 ^ unitExponent |q|) * 2 ^ unitExponent |q|
      if 2 ^ 1024 ≤ m then .infinite (q < 0) else .number (if q < 0 then -m else m) := by
  rfl

theorem roundEven_intCast (z : ℤ) : roundEven z = z := by
  simp [roundEven]

theorem roundEven_bounds {y : ℚ} {n : ℤ} (h : 0 ≤ y) (hlt : y < n) :
    0 ≤ roundEven y ∧ roundEven y ≤ n := by
  have hfloor : 0 ≤ ⌊y⌋ := Int.floor_nonneg.2 h
  have hlt' : ⌊y⌋ < n := Int.floor_lt.2 hlt
  rw [roundEven]
  split_ifs <;> omega

theorem zpow_log_le {x : ℚ} (h : 0 < x) : (2 : ℚ) ^ Int.log 2 x ≤ x := by
  exact_mod_cast Int.zpow_log_le_self one_lt_two h

theorem lt_zpow_log (x : ℚ) : x < (2 : ℚ) ^ (Int.log 2 x + 1) := by
  exact_mod_cast Int.lt_zpow_succ_log_self one_lt_two x

/-- At most `2 ^ 53` units make a whole number of units of their own. -/
theorem exists_units {m e : ℤ} (hm : 0 < m) (hle : m ≤ 2 ^ 53) (he : -1074 ≤ e) :
    ∃ z : ℤ, (m : ℚ) * 2 ^ e = z * 2 ^ unitExponent ((m : ℚ) * 2 ^ e) := by
  have htwo : (0 : ℚ) < 2 ^ e := zpow_pos (by norm_num) e
  have hpos : (0 : ℚ) < m * 2 ^ e := mul_pos (by exact_mod_cast hm) htwo
  have hbound : (m : ℚ) * 2 ^ e ≤ 2 ^ (53 + e) := by
    rw [zpow_add₀ (by norm_num)]
    exact mul_le_mul_of_nonneg_right (by exact_mod_cast hle) htwo.le
  have hlog : Int.log 2 ((m : ℚ) * 2 ^ e) ≤ 53 + e :=
    (zpow_le_zpow_iff_right₀ (by norm_num : (1 : ℚ) < 2)).1 ((zpow_log_le hpos).trans hbound)
  rcases hlog.lt_or_eq with hlt | heq
  · -- The unit gets no larger.
    have hexp : unitExponent ((m : ℚ) * 2 ^ e) ≤ e := by
      rw [unitExponent]
      omega
    refine ⟨m * 2 ^ (e - unitExponent ((m : ℚ) * 2 ^ e)).toNat, ?_⟩
    rw [Int.cast_mul, Int.cast_pow, Int.cast_ofNat, mul_assoc, ← zpow_natCast,
      Int.toNat_of_nonneg (by omega), ← zpow_add₀ (by norm_num), sub_add_cancel]
  · -- The unit doubles, at a power of two.
    have hexp : unitExponent ((m : ℚ) * 2 ^ e) = e + 1 := by
      rw [unitExponent, heq]
      omega
    have hfull : (m : ℚ) * 2 ^ e = 2 ^ (53 + e) := by
      refine le_antisymm hbound ?_
      rw [← heq]
      exact zpow_log_le hpos
    refine ⟨2 ^ 52, ?_⟩
    rw [hexp, hfull, Int.cast_pow, Int.cast_ofNat, ← zpow_natCast, ← zpow_add₀ (by norm_num)]
    congr 1
    norm_num
    ring

/-- A double by its sign and its whole number of units. -/
theorem toDouble_eq_number {x q : ℚ} (h : toDouble x = .number q) : q = 0 ∨ ∃ m e : ℤ, 0 < m ∧
    m ≤ 2 ^ 53 ∧ -1074 ≤ e ∧ |q| = m * 2 ^ e ∧ (m : ℚ) * 2 ^ e < 2 ^ 1024 := by
  rw [toDouble_eq] at h
  by_cases hzero : |x| = 0
  · rw [if_pos hzero] at h
    exact .inl (Json.number.inj h).symm
  · have hx : 0 < |x| := lt_of_le_of_ne (abs_nonneg x) (Ne.symm hzero)
    have htwo : (0 : ℚ) < 2 ^ unitExponent |x| := zpow_pos (by norm_num) _
    have hlt : |x| / 2 ^ unitExponent |x| < ((2 ^ 53 : ℤ) : ℚ) := by
      rw [div_lt_iff₀ htwo]
      refine (lt_zpow_log _).trans_le ?_
      rw [Int.cast_pow, Int.cast_ofNat, ← zpow_natCast, ← zpow_add₀ (by norm_num)]
      refine zpow_le_zpow_right₀ (by norm_num) ?_
      rw [unitExponent]
      push_cast
      omega
    obtain ⟨hnonneg, hle⟩ := roundEven_bounds (div_nonneg hx.le htwo.le) hlt
    rw [if_neg hzero] at h
    by_cases hlarge : (2 : ℚ) ^ 1024 ≤
        roundEven (|x| / 2 ^ unitExponent |x|) * 2 ^ unitExponent |x|
    · simp only [if_pos hlarge] at h
      cases h
    · simp only [if_neg hlarge] at h
      have hq := Json.number.inj h
      have habs : |q| = roundEven (|x| / 2 ^ unitExponent |x|) * 2 ^ unitExponent |x| := by
        have hm : (0 : ℚ) ≤ roundEven (|x| / 2 ^ unitExponent |x|) * 2 ^ unitExponent |x| :=
          mul_nonneg (by exact_mod_cast hnonneg) htwo.le
        rw [← hq]
        split_ifs
        · rw [abs_neg, abs_of_nonneg hm]
        · rw [abs_of_nonneg hm]
      rcases hnonneg.eq_or_lt with heq | hpos
      · rw [← heq, Int.cast_zero, zero_mul, abs_eq_zero] at habs
        exact .inl habs
      · exact .inr ⟨_, _, hpos, hle, le_max_right _ _, habs, not_le.1 hlarge⟩

/-- What is rounded is a double. -/
theorem toDouble_of_toDouble {x q : ℚ} (h : toDouble x = .number q) : toDouble q = .number q := by
  rcases toDouble_eq_number h with rfl | ⟨m, e, hm, hle, he, habs, hlarge⟩
  · rfl
  · obtain ⟨z, hz⟩ := exists_units hm hle he
    rw [← habs] at hz hlarge
    have hpos : 0 < |q| := by
      rw [habs]
      exact mul_pos (by exact_mod_cast hm) (zpow_pos (by norm_num) _)
    have hunit : |q| / 2 ^ unitExponent |q| = z := by
      rw [div_eq_iff (zpow_pos (by norm_num) _).ne']
      exact hz
    have hround : (roundEven (z : ℚ) : ℚ) * 2 ^ unitExponent |q| = |q| := by
      rw [roundEven_intCast, ← hz]
    rw [toDouble_eq, if_neg hpos.ne', hunit]
    simp only [hround, if_neg (not_le.2 hlarge)]
    split_ifs with hneg
    · rw [abs_of_neg hneg, neg_neg]
    · rw [abs_of_nonneg (not_lt.1 hneg)]

theorem scalar_toDouble (x : ℚ) : Scalar (toDouble x) := by
  cases h : toDouble x with
  | number q => exact toDouble_of_toDouble h
  | array _ | object _ =>
    simp only [toDouble_eq] at h
    split_ifs at h
  | _ => trivial

/-- A double is a whole number of the smallest units. -/
theorem exists_whole {q : ℚ} (h : toDouble q = .number q) : ∃ n : ℕ, |q| * 10 ^ 1074 = n := by
  rcases toDouble_eq_number h with rfl | ⟨m, e, hm, -, he, habs, -⟩
  · exact ⟨0, by rw [abs_zero, zero_mul, Nat.cast_zero]⟩
  · refine ⟨m.toNat * 2 ^ (e + 1074).toNat * 5 ^ 1074, ?_⟩
    have hcast : ((m.toNat : ℕ) : ℚ) = m := by exact_mod_cast Int.toNat_of_nonneg hm.le
    have hten : ∀ k : ℕ, (10 : ℚ) ^ k = 2 ^ (k : ℤ) * 5 ^ k := fun k => by
      rw [zpow_natCast, ← mul_pow]
      norm_num
    have htwo : (2 : ℚ) ^ (e + 1074).toNat = 2 ^ e * 2 ^ (1074 : ℤ) := by
      rw [← zpow_natCast, Int.toNat_of_nonneg (by omega), ← zpow_add₀ (by norm_num)]
    rw [habs, hten 1074]
    simp only [Nat.cast_mul, Nat.cast_pow, Nat.cast_ofNat, hcast, htwo, mul_assoc]

/-! ## Decimal digits -/

/-- A number without a fraction, times a power of ten. -/
def decimalText (negative : Bool) (n : ℕ) (tail : List Char) : List Char :=
  (if negative then ['-'] else []) ++ (Nat.toDigits 10 n ++ tail)

/-- The digits of a double, without an exponent if it is whole. -/
def exactText (q : ℚ) : List Char :=
  if q.den = 1 then decimalText (q < 0) q.num.natAbs []
  else decimalText (q < 0) ⌊|q| * 10 ^ 1074⌋₊ ['e', '-', '1', '0', '7', '4']

theorem digitsValue_toDigits (n : ℕ) : digitsValue (Nat.toDigits 10 n) = n :=
  Nat.ofDigitChars_eq_foldl.symm.trans Nat.ofDigitChars_ten_toDigits

/-- Only the digits of `0` start with a zero. -/
theorem toDigits_of_zero {n : ℕ} (h : (Nat.toDigits 10 n).head? = some '0') : n = 0 := by
  induction n using Nat.strongRecOn with
  | ind n ih =>
    rcases lt_or_ge n 10 with hlt | hge
    · rw [Nat.toDigits_of_lt_base hlt] at h
      have hdigits : ∀ n < 10, n.digitChar = '0' → n = 0 := by decide
      exact hdigits n hlt (Option.some.inj h)
    · rw [Nat.toDigits_of_base_le (by decide) hge,
        List.head?_append_of_ne_nil _ Nat.toDigits_ne_nil] at h
      have := ih (n / 10) (Nat.div_lt_self (by omega) (by decide)) h
      omega

/-- Digits up to what is no digit. -/
theorem digits_append {ds tail : List Char} (hne : ds ≠ []) (hds : ∀ c ∈ ds, c.isDigit)
    (htail : ∀ c ∈ tail.head?, c.isDigit = false) : digits (ds ++ tail) = some (ds, tail) := by
  have htake : tail.takeWhile Char.isDigit = [] ∧ tail.dropWhile Char.isDigit = tail := by
    cases tail with
    | nil => exact ⟨rfl, rfl⟩
    | cons c tail =>
      have hc : ¬ c.isDigit := by
        rw [htail c rfl]
        decide
      exact ⟨List.takeWhile_cons_of_neg hc, List.dropWhile_cons_of_neg hc⟩
  simp only [digits, List.takeWhile_append_of_pos hds, List.dropWhile_append_of_pos hds, htake.1,
    htake.2, List.append_nil, if_neg hne]

theorem exponent_minus (cs : List Char) : exponent ('e' :: '-' :: cs) =
    (digits cs).map fun r => (-(digitsValue r.1 : ℤ), r.2) := by
  change ((digits cs).bind fun r => some (-(digitsValue r.1 : ℤ), r.2)) = _
  rw [Option.map_eq_bind]
  rfl

/-- What is read of digits and an exponent. -/
theorem parseNumber_decimalText {negative : Bool} {n : ℕ} {tail rest : List Char} {e : ℤ}
    (htail : exponent tail = some (e, rest))
    (hhead : ∀ c ∈ tail.head?, c.isDigit = false ∧ c ≠ '.') :
    parseNumber (decimalText negative n tail) =
      some (toDouble (if negative then -(n * 10 ^ e) else n * 10 ^ e), rest) := by
  have hds : ∀ c ∈ Nat.toDigits 10 n, c.isDigit := fun c hc =>
    Nat.isDigit_of_mem_toDigits (by decide) (by decide) hc
  have hdigits := digits_append Nat.toDigits_ne_nil hds fun c hc => (hhead c hc).1
  have hsigned : signed (decimalText negative n tail) =
      (negative, Nat.toDigits 10 n ++ tail) := by
    cases negative with
    | true => rfl
    | false =>
      obtain ⟨c, ds, hc⟩ := List.exists_cons_of_ne_nil (@Nat.toDigits_ne_nil n 10)
      have hdigit := hds c (by rw [hc]; exact List.mem_cons_self)
      rw [decimalText, hc]
      unfold signed
      split
      · next heq =>
        obtain rfl : c = '-' := (List.cons.inj heq).1
        exact absurd hdigit (by decide)
      · rfl
  have hfraction : fraction tail = some ([], tail) := by
    unfold fraction
    split
    · exact absurd rfl (hhead '.' rfl).2
    · rfl
  have hzero : ¬ ((Nat.toDigits 10 n).head? = some '0' ∧ (Nat.toDigits 10 n).length ≠ 1) := by
    rintro ⟨hhead', hlength⟩
    obtain rfl := toDigits_of_zero hhead'
    exact hlength rfl
  simp only [parseNumber, hsigned, hdigits, hfraction, htail, bind, Option.bind, if_neg hzero,
    List.append_nil, digitsValue_toDigits, List.length_nil, Nat.cast_zero, sub_zero]

/-- A double is read back from its digits. -/
theorem readsBack_exactText : ReadsBack exactText := by
  intro q rest h hrest
  have hsign : ∀ x : ℚ, x = |q| → (if decide (q < 0) = true then -x else x) = q := by
    rintro x rfl
    split_ifs with hneg
    · rw [abs_of_neg (of_decide_eq_true hneg), neg_neg]
    · rw [abs_of_nonneg (not_lt.1 fun hlt => hneg (decide_eq_true hlt))]
  rw [exactText]
  split_ifs with hden
  · have hexponent : exponent rest = some (0, rest) := by
      cases rest with
      | nil => rfl
      | cons c rest =>
        rcases hrest c rfl with rfl | rfl | rfl <;> rfl
    have hhead : ∀ c ∈ rest.head?, c.isDigit = false ∧ c ≠ '.' := by
      intro c hc
      rcases hrest c hc with rfl | rfl | rfl <;> decide
    have habs : (q.num.natAbs : ℚ) * 10 ^ (0 : ℤ) = |q| := by
      rw [zpow_zero, mul_one, Nat.cast_natAbs, Int.cast_abs, Rat.coe_int_num_of_den_eq_one hden]
    rw [decimalText, List.append_nil, List.append_assoc]
    refine (parseNumber_decimalText hexponent hhead).trans ?_
    rw [hsign _ habs, h]
  · have hexponent : exponent (['e', '-', '1', '0', '7', '4'] ++ rest) = some (-1074, rest) := by
      have hall : ∀ c ∈ ['1', '0', '7', '4'], c.isDigit := List.forall_iff_forall_mem.1 (by decide)
      have hdigits := digits_append (by decide) hall fun c hc => by
        rcases hrest c hc with rfl | rfl | rfl <;> rfl
      exact (exponent_minus _).trans (congrArg _ hdigits)
    obtain ⟨n, hn⟩ := exists_whole h
    have hfloor : ⌊|q| * 10 ^ 1074⌋₊ = n := by rw [hn, Nat.floor_natCast]
    have habs : (n : ℚ) * 10 ^ (-1074 : ℤ) = |q| := by
      rw [← hn, zpow_neg, mul_assoc]
      refine mul_right_eq_self₀.2 (.inl ?_)
      exact mul_inv_cancel₀ (pow_ne_zero 1074 (by norm_num))
    rw [hfloor, decimalText, List.append_assoc, List.append_assoc]
    refine (parseNumber_decimalText hexponent fun c hc => ?_).trans ?_
    · obtain rfl : 'e' = c := Option.some.inj hc
      decide
    · rw [hsign _ habs, h]

end ComputeContract.Json
