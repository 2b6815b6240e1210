import Mathlib.Order.Lattice

/-!
# Codes that keep an order

A code writes every symbol as a word. When the words of two symbols differ before either ends,
in the order of the symbols' ranks, texts compare as their words do: by the first symbols in
which they differ.

* `Ordered`: a code that keeps the order of the ranks;
* `Ordered.flatMap_lt_flatMap_iff`: the words of two texts compare as the ranks of their symbols;
* `append_lt_append_iff_of_ne`: words compare alike whatever follows, if what follows the shorter
  one is below the letters of the longer one.
-/

namespace ComputeContract.LexCode

variable {α ι κ : Type} [LT ι] [LinearOrder κ]

/-- The code `f` keeps the order of the ranks `r`: the words of two symbols compare as the ranks
    do, whatever follows them. -/
structure Ordered (f : α → List ι) (r : α → κ) : Prop where
  ne_nil : ∀ c, f c ≠ []
  injective : Function.Injective r
  lt : ∀ {c d}, r c < r d → ∀ us vs, f c ++ us < f d ++ vs

theorem append_lt_append_iff [@Std.Irrefl ι (· < ·)] {l us vs : List ι} :
    l ++ us < l ++ vs ↔ us < vs := by
  induction l with
  | nil => rfl
  | cons a l ih => rw [List.cons_append, List.cons_append, List.cons_lt_cons_self, ih]

variable [@Std.Asymm ι (· < ·)] {f : α → List ι} {r : α → κ}

/-- The words of two texts compare as the ranks of their symbols. -/
theorem Ordered.flatMap_lt_flatMap_iff (h : Ordered f r) (cs ds : List α) :
    cs.flatMap f < ds.flatMap f ↔ cs.map r < ds.map r := by
  induction cs generalizing ds with
  | nil =>
    cases ds with
    | nil => exact iff_of_false (List.not_lt_nil _) (List.not_lt_nil _)
    | cons d ds =>
      obtain ⟨u, us, hu⟩ := List.exists_cons_of_ne_nil (h.ne_nil d)
      rw [List.flatMap_cons, hu]
      exact iff_of_true (List.nil_lt_cons _ _) (List.nil_lt_cons _ _)
  | cons c cs ih =>
    cases ds with
    | nil => exact iff_of_false (List.not_lt_nil _) (List.not_lt_nil _)
    | cons d ds =>
      rw [List.flatMap_cons, List.flatMap_cons, List.map_cons, List.map_cons]
      -- Either the first symbols decide, or they are the same one.
      rcases lt_trichotomy (r c) (r d) with hlt | heq | hgt
      · exact iff_of_true (h.lt hlt _ _) (List.cons_lt_cons_iff.2 (.inl hlt))
      · obtain rfl := h.injective heq
        rw [append_lt_append_iff, List.cons_lt_cons_self, ih]
      · exact iff_of_false (List.lt_asymm (h.lt hgt _ _))
          (List.lt_asymm (List.cons_lt_cons_iff.2 (.inl hgt)))

/-- Two words compare as what begins with them, unless one of them begins with the other and
    what follows it is above a letter of the longer one. -/
theorem append_lt_append_iff_of_ne {a b u v : List κ} (hne : a ≠ b)
    (ha : a <+: b → ∀ x ∈ u.head?, ∀ y ∈ b, x < y)
    (hb : b <+: a → ∀ x ∈ v.head?, ∀ y ∈ a, x < y) : a ++ u < b ++ v ↔ a < b := by
  induction a generalizing b with
  | nil =>
    obtain ⟨y, b, rfl⟩ := List.exists_cons_of_ne_nil hne.symm
    refine iff_of_true ?_ (List.nil_lt_cons _ _)
    cases u with
    | nil => exact List.nil_lt_cons _ _
    | cons x u =>
      exact List.cons_lt_cons_iff.2 (.inl (ha (List.nil_prefix) x rfl y List.mem_cons_self))
  | cons x a ih =>
    cases b with
    | nil =>
      refine iff_of_false ?_ (List.not_lt_nil _)
      cases v with
      | nil => exact List.not_lt_nil _
      | cons y v =>
        have hyx : y < x := hb List.nil_prefix y rfl x List.mem_cons_self
        exact List.lt_asymm (List.cons_lt_cons_iff.2 (.inl hyx))
    | cons y b =>
      rw [List.cons_append, List.cons_append, List.cons_lt_cons_iff, List.cons_lt_cons_iff]
      refine or_congr_right (and_congr_right fun hxy => ?_)
      subst hxy
      exact ih (fun h => hne (congrArg _ h))
        (fun h z hz w hw => ha (List.prefix_cons_inj x |>.2 h) z hz w (List.mem_cons_of_mem _ hw))
        fun h z hz w hw => hb (List.prefix_cons_inj x |>.2 h) z hz w (List.mem_cons_of_mem _ hw)

end ComputeContract.LexCode
