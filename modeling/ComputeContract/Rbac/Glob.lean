import ComputeContract.Lib.Glob
import ComputeContract.Rbac.Policy

/-!
# The patterns of paths

`globMatch` looks for the first part of a pattern anywhere in the path, so that it reads a pattern
as if a star stood in front of it.

* `globMatch_iff`: what it matches;
* `globLaw_iff`: the patterns that it reads as they are.
-/

namespace ComputeContract

/-! ## The loop -/

/-- The first occurrence leaves the most. -/
theorem afterFirst_eq_some {part s rest : List Char} (h : afterFirst part s = some rest) :
    (∃ filling, s = filling ++ (part ++ rest)) ∧
      ∀ filling rest', s = filling ++ (part ++ rest') → rest' <:+ rest := by
  induction s with
  | nil =>
    rw [afterFirst] at h
    split_ifs at h with hpart
    obtain rfl := hpart
    obtain rfl := Option.some.inj h
    refine ⟨⟨[], rfl⟩, fun filling rest' heq => ?_⟩
    obtain ⟨-, hrest⟩ := List.append_eq_nil_iff.1 heq.symm
    exact List.suffix_nil.2 hrest
  | cons c s ih =>
    rw [afterFirst] at h
    split_ifs at h with hpart
    · obtain ⟨tail, htail⟩ := List.isPrefixOf_iff_prefix.1 hpart
      rw [← htail, List.drop_left] at h
      obtain rfl := Option.some.inj h
      refine ⟨⟨[], htail.symm⟩, fun filling rest' heq => ?_⟩
      -- Both are ends of the path, and this one is not the longer one.
      have hsuffix : rest' <:+ c :: s := ⟨filling ++ part, by rw [heq, List.append_assoc]⟩
      have hlength := congrArg List.length (htail.trans heq)
      rw [List.length_append, List.length_append, List.length_append] at hlength
      exact List.suffix_of_suffix_length_le hsuffix ⟨part, htail⟩ (by omega)
    · obtain ⟨⟨filling, hs⟩, hmost⟩ := ih h
      refine ⟨⟨c :: filling, by rw [hs, List.cons_append]⟩, fun filling rest' heq => ?_⟩
      cases filling with
      | nil => exact absurd (List.isPrefixOf_iff_prefix.2 ⟨rest', heq.symm⟩) hpart
      | cons c' filling => exact hmost filling rest' (List.cons_eq_cons.1 heq).2

theorem afterFirst_eq_none {part s : List Char} (h : afterFirst part s = none)
    (filling rest : List Char) : s ≠ filling ++ (part ++ rest) := by
  induction s generalizing filling with
  | nil =>
    rw [afterFirst] at h
    split_ifs at h with hpart
    intro heq
    exact hpart (List.append_eq_nil_iff.1 (List.append_eq_nil_iff.1 heq.symm).2).1
  | cons c s ih =>
    rw [afterFirst] at h
    split_ifs at h with hpart
    intro heq
    cases filling with
    | nil => exact hpart (List.isPrefixOf_iff_prefix.2 ⟨rest, heq.symm⟩)
    | cons c' filling => exact ih h filling (List.cons_eq_cons.1 heq).2

theorem globParts_cons {part : List Char} {parts : List (List Char)} (h : parts ≠ [])
    {s : List Char} : globParts (part :: parts) s =
      if part.isEmpty then globParts parts s
      else ((afterFirst part s).map (globParts parts)).getD false := by
  cases parts with
  | nil => exact absurd rfl h
  | cons part' parts =>
    rw [globParts]
    · cases afterFirst part s <;> rfl
    · exact List.cons_ne_nil _ _

/-- The loop matches the parts, with anything in front of them. -/
theorem globParts_iff {parts : List (List Char)} (hne : parts ≠ []) {s : List Char} :
    globParts parts s ↔ ∃ filling rest, s = filling ++ rest ∧ Fills parts rest := by
  induction parts generalizing s with
  | nil => exact absurd rfl hne
  | cons part parts ih =>
    cases parts with
    | nil =>
      have hend : globParts [part] s ↔ part <:+ s := by
        rw [globParts, Bool.or_eq_true, List.isSuffixOf_iff_suffix, List.isEmpty_iff]
        exact or_iff_right_of_imp fun h => h ▸ List.nil_suffix
      rw [hend]
      constructor
      · rintro ⟨filling, rfl⟩
        exact ⟨filling, part, rfl, rfl⟩
      · rintro ⟨filling, rest, rfl, rfl⟩
        exact ⟨filling, rfl⟩
    | cons part' parts =>
      have ih := @ih (List.cons_ne_nil _ _)
      rw [globParts_cons (List.cons_ne_nil _ _)]
      split_ifs with hempty
      · obtain rfl := List.isEmpty_iff.1 hempty
        rw [ih]
        constructor
        · rintro ⟨filling, rest, rfl, hrest⟩
          exact ⟨[], filling ++ rest, rfl, filling, rest, rfl, hrest⟩
        · rintro ⟨filling, _, rfl, filling', rest, rfl, hrest⟩
          exact ⟨filling ++ filling', rest, by simp, hrest⟩
      · cases hafter : afterFirst part s with
        | none =>
          refine iff_of_false (by simp) ?_
          rintro ⟨filling, _, heq, filling', rest, rfl, -⟩
          exact afterFirst_eq_none hafter filling (filling' ++ rest) heq
        | some rest =>
          obtain ⟨⟨filling, rfl⟩, hmost⟩ := afterFirst_eq_some hafter
          rw [Option.map_some, Option.getD_some, ih]
          constructor
          · rintro ⟨filling', rest', rfl, hrest⟩
            exact ⟨filling, _, rfl, filling', rest', rfl, hrest⟩
          · rintro ⟨filling', _, heq, filling'', rest', rfl, hrest⟩
            obtain ⟨more, hmore⟩ := hmost filling' _ heq
            exact ⟨more ++ filling'', rest', by rw [← hmore, List.append_assoc], hrest⟩

/-- What `globMatch` matches: a star stands in front of the pattern. -/
theorem globMatch_iff {pattern s : String} :
    globMatch pattern s ↔ Glob '*' ('*' :: pattern.toList) s.toList := by
  rw [glob_star_cons, globMatch]
  split_ifs with hstar
  · subst hstar
    refine iff_of_true rfl ⟨s.toList, [], (List.append_nil _).symm, ?_⟩
    exact .star [] .nil
  · rw [globParts_iff (List.splitOn_ne_nil _ _)]
    simp only [glob_iff_fills]

/-! ## The law -/

/-- The pattern matches what it says, and a path that is written out is granted only itself. -/
structure GlobLaw (pattern : String) : Prop where
  matches_iff : ∀ s, globMatch pattern s ↔ Glob '*' pattern.toList s.toList
  literal : '*' ∉ pattern.toList → ∀ schema path, path ≠ pattern →
    findMatchingSchema [(pattern, schema)] path ≠ .own schema

/-- The law holds of the patterns that begin with a star. -/
theorem globLaw_iff (pattern : String) : GlobLaw pattern ↔ pattern.toList.head? = some '*' := by
  constructor
  · intro h
    have : Nontrivial Char := ⟨'a', 'b', by decide⟩
    refine star_first_of_glob fun s hs => ?_
    have hmatch : globMatch pattern (String.ofList s) := by
      rw [globMatch_iff, glob_star_cons, String.toList_ofList]
      exact hs
    rw [h.matches_iff, String.toList_ofList] at hmatch
    exact hmatch
  · intro h
    obtain ⟨rest, hrest⟩ := List.head?_eq_some_iff.1 h
    refine ⟨fun s => ?_, fun hstar => ?_⟩
    · rw [globMatch_iff, hrest, glob_star_cons, glob_star_cons]
      constructor
      · rintro ⟨filling, _, heq, hglob⟩
        obtain ⟨filling', rest', rfl, hrest'⟩ := glob_star_cons.1 hglob
        exact ⟨filling ++ filling', rest', by rw [heq, List.append_assoc], hrest'⟩
      · rintro ⟨filling, rest', heq, hglob⟩
        exact ⟨[], s.toList, rfl, heq ▸ .star filling hglob⟩
    · rw [hrest] at hstar
      exact absurd List.mem_cons_self hstar

/-- A path that ends in another one is granted with it. -/
theorem not_globLaw : ¬ ∀ pattern, GlobLaw pattern := by
  intro h
  have hmatch := ((h "/v1/oidc/issue").matches_iff "/x/v1/oidc/issue").1 (by decide +kernel)
  rw [glob_self_iff (by decide)] at hmatch
  exact absurd hmatch (by decide)

end ComputeContract
