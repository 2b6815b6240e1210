import Mathlib.Logic.Function.Basic

/-!
# Numbers in a text

Numbers are read back from a text in which something else than a digit follows them.

* `toDigits_append_inj`: the number and what follows it.
-/

namespace ComputeContract.Decimal

/-- The text is over, or goes on with something else than a digit. -/
def Ends (cs : List Char) : Prop := ∀ c ∈ cs.head?, c.isDigit = false

theorem toDigits_injective : Function.Injective (Nat.toDigits 10) :=
  Function.LeftInverse.injective fun _ => Nat.ofDigitChars_ten_toDigits

theorem isDigit_of_mem {n : Nat} {c : Char} (h : c ∈ Nat.toDigits 10 n) : c.isDigit = true :=
  Nat.isDigit_of_mem_toDigits (by decide) (by decide) h

/-- A number ends where its digits do. -/
theorem takeWhile_toDigits (n : Nat) {u : List Char} (hu : Ends u) :
    (Nat.toDigits 10 n ++ u).takeWhile Char.isDigit = Nat.toDigits 10 n := by
  rw [List.takeWhile_append_of_pos fun _ hc => isDigit_of_mem hc]
  cases u with
  | nil => exact List.append_nil _
  | cons c u => rw [List.takeWhile_cons_of_neg (by simp [hu c rfl]), List.append_nil]

theorem toDigits_append_inj {m n : Nat} {u v : List Char} (hu : Ends u) (hv : Ends v)
    (h : Nat.toDigits 10 m ++ u = Nat.toDigits 10 n ++ v) : m = n ∧ u = v := by
  obtain rfl := toDigits_injective
    ((takeWhile_toDigits m hu).symm.trans (h ▸ takeWhile_toDigits n hv))
  exact ⟨rfl, List.append_cancel_left h⟩

end ComputeContract.Decimal
