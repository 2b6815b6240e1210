import Mathlib.Algebra.Group.Nat.Defs
import Mathlib.Data.List.Basic
import Mathlib.Order.Fin.Basic

/-!
# Digits

Numbers as their digits in a base, the most significant first. Of two numbers with as many digits
the smaller one comes first in the order of lists.

* `value`: the number that digits spell after a number;
* `lt_of_value_lt`: the order of numbers is that of their digits.
-/

namespace ComputeContract.Digits

variable {b : ℕ}

/-- The number that the digits spell, after the digits of `n`. -/
def value (n : ℕ) (ds : List (Fin b)) : ℕ := ds.foldl (fun n d => n * b + d) n

@[simp] theorem value_nil (n : ℕ) : value n ([] : List (Fin b)) = n := rfl

@[simp] theorem value_cons (n : ℕ) (d : Fin b) (ds : List (Fin b)) :
    value n (d :: ds) = value (n * b + d) ds := rfl

theorem value_append (n : ℕ) (ds ds' : List (Fin b)) :
    value n (ds ++ ds') = value (value n ds) ds' := by
  induction ds generalizing n with
  | nil => rfl
  | cons d ds ih => rw [List.cons_append, value_cons, value_cons, ih]

/-- What stands before the digits is moved by as many places. -/
theorem value_eq (n : ℕ) (ds : List (Fin b)) : value n ds = n * b ^ ds.length + value 0 ds := by
  induction ds generalizing n with
  | nil => simp
  | cons d ds ih =>
    rw [value_cons, value_cons, ih, ih (0 * b + d), List.length_cons, Nat.pow_succ, Nat.zero_mul,
      Nat.zero_add, Nat.add_mul, Nat.mul_assoc, Nat.mul_comm b, Nat.add_assoc]

theorem value_lt (ds : List (Fin b)) : value 0 ds < b ^ ds.length := by
  induction ds with
  | nil => exact Nat.one_pos
  | cons d ds ih =>
    have hle : (d + 1) * b ^ ds.length ≤ b * b ^ ds.length := Nat.mul_le_mul_right _ d.isLt
    rw [value_cons, Nat.zero_mul, Nat.zero_add, value_eq, List.length_cons, Nat.pow_succ,
      Nat.mul_comm _ b]
    rw [Nat.add_mul, Nat.one_mul] at hle
    omega

/-- Two numbers with as many digits differ in one of them. -/
theorem value_injective {ds ds' : List (Fin b)} (hlen : ds.length = ds'.length)
    (h : value 0 ds = value 0 ds') : ds = ds' := by
  induction ds generalizing ds' with
  | nil => exact (List.eq_nil_of_length_eq_zero hlen.symm).symm
  | cons d ds ih =>
    cases ds' with
    | nil => cases hlen
    | cons d' ds' =>
      have hlength : ds.length = ds'.length := Nat.succ.inj hlen
      have hlt := value_lt ds
      have hlt' := value_lt ds'
      rw [value_cons, value_cons, Nat.zero_mul, Nat.zero_add, Nat.zero_add, value_eq, value_eq d',
        hlength] at h
      rw [hlength] at hlt
      -- The first digit is the quotient, the number of the others the remainder.
      have hdiv := congrArg (· / b ^ ds'.length) h
      have hmod := congrArg (· % b ^ ds'.length) h
      have hpos : 0 < b ^ ds'.length := Nat.zero_lt_of_lt hlt
      rw [Nat.mul_comm, Nat.mul_add_div hpos, Nat.mul_comm, Nat.mul_add_div hpos,
        Nat.div_eq_of_lt hlt, Nat.div_eq_of_lt hlt'] at hdiv
      rw [Nat.mul_comm, Nat.mul_add_mod, Nat.mul_comm, Nat.mul_add_mod, Nat.mod_eq_of_lt hlt,
        Nat.mod_eq_of_lt hlt'] at hmod
      rw [ih hlength hmod, Fin.ext (Nat.add_right_cancel hdiv)]

/-- Of two numbers with as many digits the smaller one comes first. -/
theorem lt_of_value_lt {ds ds' : List (Fin b)} (hlen : ds.length = ds'.length)
    (h : value 0 ds < value 0 ds') : ds < ds' := by
  induction ds generalizing ds' with
  | nil =>
    obtain rfl := List.eq_nil_of_length_eq_zero hlen.symm
    exact absurd h (Nat.lt_irrefl _)
  | cons d ds ih =>
    cases ds' with
    | nil => cases hlen
    | cons d' ds' =>
      have hlength : ds.length = ds'.length := Nat.succ.inj hlen
      have hlt := value_lt ds'
      rw [value_cons, value_cons, Nat.zero_mul, Nat.zero_add, Nat.zero_add, value_eq, value_eq d',
        hlength] at h
      rcases lt_trichotomy d d' with hd | rfl | hd
      · exact List.Lex.rel hd
      · exact List.Lex.cons (ih hlength (by omega))
      · -- a greater first digit outweighs the rest
        have hle : (d' + 1) * b ^ ds'.length ≤ d * b ^ ds'.length := Nat.mul_le_mul_right _ hd
        rw [Nat.add_mul, Nat.one_mul] at hle
        omega

end ComputeContract.Digits
