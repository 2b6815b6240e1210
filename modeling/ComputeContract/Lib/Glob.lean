import Mathlib.Data.List.Basic
import Mathlib.Logic.Nontrivial.Basic

/-!
# Patterns with stars

A pattern is a list in which `star` stands for any list, and every other element for itself.

* `glob_iff_fills`: matching by the parts between the stars;
* `glob_star_cons`: a star in front takes any number of elements;
* `glob_self_iff`: without a star, a pattern matches itself only;
* `star_first_of_glob`: a pattern that needs no star in front has one.
-/

namespace ComputeContract

variable {α : Type*}

/-- `s` comes from the pattern by putting a list for each star. -/
inductive Glob (star : α) : List α → List α → Prop
  | nil : Glob star [] []
  | cons {c : α} {p s : List α} : c ≠ star → Glob star p s → Glob star (c :: p) (c :: s)
  | star {p s : List α} (filling : List α) : Glob star p s → Glob star (star :: p) (filling ++ s)

/-- `s` is the parts one after the other, with a list between each two of them. -/
def Fills : List (List α) → List α → Prop
  | [], _ => False
  | [last], s => s = last
  | part :: parts, s => ∃ filling rest, s = part ++ (filling ++ rest) ∧ Fills parts rest

variable {star : α}

theorem fills_cons {part : List α} {parts : List (List α)} (h : parts ≠ []) {s : List α} :
    Fills (part :: parts) s ↔
      ∃ filling rest, s = part ++ (filling ++ rest) ∧ Fills parts rest := by
  cases parts with
  | nil => exact absurd rfl h
  | cons part' parts => rfl

/-- An element in front of the parts. -/
theorem fills_modifyHead {c : α} {parts : List (List α)} (h : parts ≠ []) {s : List α} :
    Fills (parts.modifyHead (c :: ·)) s ↔ ∃ s', s = c :: s' ∧ Fills parts s' := by
  obtain ⟨part, parts, rfl⟩ := List.exists_cons_of_ne_nil h
  rw [List.modifyHead_cons]
  cases parts with
  | nil =>
    constructor
    · rintro rfl
      exact ⟨part, rfl, rfl⟩
    · rintro ⟨s', rfl, rfl⟩
      rfl
  | cons part' parts =>
    constructor
    · rintro ⟨filling, rest, rfl, hrest⟩
      exact ⟨_, rfl, filling, rest, rfl, hrest⟩
    · rintro ⟨s', rfl, filling, rest, rfl, hrest⟩
      exact ⟨filling, rest, rfl, hrest⟩

theorem glob_nil_iff {s : List α} : Glob star [] s ↔ s = [] := by
  constructor
  · rintro ⟨⟩
    rfl
  · rintro rfl
    exact .nil

/-- A star in front takes any number of elements. -/
theorem glob_star_cons {p s : List α} : Glob star (star :: p) s ↔
    ∃ filling rest, s = filling ++ rest ∧ Glob star p rest := by
  constructor
  · intro h
    cases h with
    | cons hne _ => exact absurd rfl hne
    | star filling h => exact ⟨filling, _, rfl, h⟩
  · rintro ⟨filling, rest, rfl, h⟩
    exact .star filling h

theorem glob_cons {c : α} (hc : c ≠ star) {p s : List α} :
    Glob star (c :: p) s ↔ ∃ rest, s = c :: rest ∧ Glob star p rest := by
  constructor
  · intro h
    cases h with
    | cons _ h => exact ⟨_, rfl, h⟩
    | star => exact absurd rfl hc
  · rintro ⟨rest, rfl, h⟩
    exact .cons hc h

/-- Matching by the parts between the stars. -/
theorem glob_iff_fills [DecidableEq α] {p s : List α} : Glob star p s ↔ Fills (p.splitOn star) s := by
  induction p generalizing s with
  | nil => exact glob_nil_iff
  | cons c p ih =>
    rw [List.splitOn_cons_eq_if_modifyHead]
    split_ifs with hc
    · obtain rfl := beq_iff_eq.1 hc
      rw [fills_cons (List.splitOn_ne_nil _ _), glob_star_cons]
      simp only [ih, List.nil_append]
    · rw [fills_modifyHead (List.splitOn_ne_nil _ _), glob_cons fun heq => hc (beq_iff_eq.2 heq)]
      simp only [ih]

/-- Without a star, a pattern matches itself only. -/
theorem glob_self_iff {p : List α} (h : star ∉ p) {s : List α} : Glob star p s ↔ s = p := by
  induction p generalizing s with
  | nil => exact glob_nil_iff
  | cons c p ih =>
    rw [List.mem_cons, not_or] at h
    rw [glob_cons (Ne.symm h.1)]
    constructor
    · rintro ⟨rest, rfl, hrest⟩
      rw [(ih h.2).1 hrest]
    · rintro rfl
      exact ⟨p, rfl, (ih h.2).2 rfl⟩

/-- Every pattern matches something: nothing for each star. -/
theorem exists_glob [DecidableEq α] (p : List α) : ∃ s, Glob star p s := by
  induction p with
  | nil => exact ⟨[], .nil⟩
  | cons c p ih =>
    obtain ⟨s, hs⟩ := ih
    by_cases hc : c = star
    · subst hc
      exact ⟨s, .star [] hs⟩
    · exact ⟨c :: s, .cons hc hs⟩

/-- A pattern that matches whatever stands in front begins with a star. -/
theorem star_first_of_glob [DecidableEq α] [Nontrivial α] {p : List α}
    (h : ∀ s, (∃ filling rest, s = filling ++ rest ∧ Glob star p rest) → Glob star p s) :
    p.head? = some star := by
  obtain ⟨s, hs⟩ := @exists_glob _ star _ p
  cases p with
  | nil =>
    obtain ⟨x, -⟩ := exists_pair_ne α
    have hx := glob_nil_iff.1 (h [x] ⟨[x], [], rfl, .nil⟩)
    cases hx
  | cons c p =>
    by_contra hne
    have hc : c ≠ star := fun heq => hne (congrArg some heq)
    -- Another element in front is not matched.
    obtain ⟨x, hx⟩ := exists_ne c
    obtain ⟨rest, heq, -⟩ := (glob_cons hc).1 (h (x :: s) ⟨[x], s, rfl, hs⟩)
    exact hx (List.cons_eq_cons.1 heq).1

end ComputeContract
