import ComputeContract.Util.Sha256

/-!
# Bytes by five bits

The loops of base32, without their alphabets. The encoder takes eight bits at a time and gives
five, the decoder takes five and gives eight; the bits between are kept in 32 bits. Between two
bytes, the bits that the encoder holds back are those that the decoder misses.

* `b32bytes_b32digits`: the decoder makes the bytes that the encoder is given, and before them the
  byte that is not complete yet.
-/

namespace ComputeContract

instance neZero_b32 : @NeZero ℕ Zero.ofOfNat0 32 := ⟨Nat.succ_ne_zero 31⟩

/-- The loop of `b32encode`, over the bytes left, with the bits that make no character yet. -/
def b32digits (bits value : ℕ) : Bytes → List (Fin 32)
  | [] => if 0 < bits then [Fin.ofNat 32 (value * 2 ^ (5 - bits))] else []
  | b :: bs =>
    let value := (value * 256 + b.toNat) % 0x100000000
    let bits := bits + 8
    let digit n := Fin.ofNat 32 (value / 2 ^ (bits - n))
    if 10 ≤ bits then digit 5 :: digit 10 :: b32digits (bits - 10) value bs
    else digit 5 :: b32digits (bits - 5) value bs

/-- The loop of `b32decode`, over the digits left, with the bits that make no byte yet. -/
def b32bytes (bits value : ℕ) : List (Fin 32) → Bytes
  | [] => []
  | d :: ds =>
    let value := (value * 32 + d) % 0x100000000
    let bits := bits + 5
    if 8 ≤ bits then (value / 2 ^ (bits - 8)).toUInt8 :: b32bytes (bits - 8) value ds
    else b32bytes bits value ds

/-- The bits the decoder has while the encoder holds back `bits`, of a byte that is not complete. -/
def missing (bits : ℕ) : ℕ := if bits = 0 then 0 else 8 - bits

/-- The byte that is not complete yet, from what the decoder has and the encoder holds back. -/
def pending (bits value value' : ℕ) : Bytes :=
  if bits = 0 then [] else [(value' * 2 ^ bits + value % 2 ^ bits).toUInt8]

theorem toUInt8_eq {n : ℕ} {b : UInt8} (h : n % 256 = b.toNat) : n.toUInt8 = b :=
  UInt8.toNat_inj.1 (UInt8.toNat_ofNat'.trans h)

theorem b32bytes_b32digits (bs : Bytes) (bits value value' : ℕ) (hbits : bits < 5) :
    b32bytes (missing bits) value' (b32digits bits value bs) = pending bits value value' ++ bs := by
  induction bs generalizing bits value value' with
  | nil =>
    obtain rfl | rfl | rfl | rfl | rfl : bits = 0 ∨ bits = 1 ∨ bits = 2 ∨ bits = 3 ∨ bits = 4 := by
      omega
    · rfl
    all_goals
      rw [b32digits, if_pos (by decide), missing, if_neg (by decide), b32bytes, if_pos (by decide),
        pending, if_neg (by decide), List.append_nil]
      refine congrArg (List.cons · []) (toUInt8_eq ?_)
      rw [UInt8.toNat_ofNat', Fin.val_ofNat]
      omega
  | cons b bs ih =>
    have hb := b.toNat_lt
    rw [b32digits]
    obtain rfl | rfl | rfl | rfl | rfl : bits = 0 ∨ bits = 1 ∨ bits = 2 ∨ bits = 3 ∨ bits = 4 := by
      omega
    · -- One digit, and the byte is not complete.
      rw [if_neg (by decide), missing, if_pos rfl, b32bytes, if_neg (by decide)]
      refine (ih 3 _ _ (by decide)).trans ?_
      refine congrArg (List.cons · bs) (toUInt8_eq ?_)
      rw [Fin.val_ofNat]
      omega
    · -- One digit, which completes the byte before.
      rw [if_neg (by decide), missing, if_neg (by decide), b32bytes, if_pos (by decide)]
      refine (congrArg (List.cons _) (ih 4 _ _ (by decide))).trans ?_
      refine congrArg₂ List.cons (toUInt8_eq ?_) (congrArg (List.cons · bs) (toUInt8_eq ?_))
      · rw [UInt8.toNat_ofNat', Fin.val_ofNat]
        omega
      · rw [Fin.val_ofNat]
        omega
    · -- Two digits, which complete the byte before and this one.
      rw [if_pos (by decide), missing, if_neg (by decide), b32bytes, if_pos (by decide), b32bytes,
        if_pos (by decide)]
      refine (congrArg (List.cons _) (congrArg (List.cons _) (ih 0 _ _ (by decide)))).trans ?_
      refine congrArg₂ List.cons (toUInt8_eq ?_) (congrArg (List.cons · bs) (toUInt8_eq ?_))
      · rw [UInt8.toNat_ofNat', Fin.val_ofNat]
        omega
      · rw [Fin.val_ofNat, Fin.val_ofNat]
        omega
    all_goals
      -- Two digits, the first of which completes the byte before.
      rw [if_pos (by decide), missing, if_neg (by decide), b32bytes, if_pos (by decide), b32bytes,
        if_neg (by decide)]
    · refine (congrArg (List.cons _) (ih 1 _ _ (by decide))).trans ?_
      refine congrArg₂ List.cons (toUInt8_eq ?_) (congrArg (List.cons · bs) (toUInt8_eq ?_))
      · rw [UInt8.toNat_ofNat', Fin.val_ofNat]
        omega
      · rw [Fin.val_ofNat, Fin.val_ofNat]
        omega
    · refine (congrArg (List.cons _) (ih 2 _ _ (by decide))).trans ?_
      refine congrArg₂ List.cons (toUInt8_eq ?_) (congrArg (List.cons · bs) (toUInt8_eq ?_))
      · rw [UInt8.toNat_ofNat', Fin.val_ofNat]
        omega
      · rw [Fin.val_ofNat, Fin.val_ofNat]
        omega

end ComputeContract
