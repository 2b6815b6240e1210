import Mathlib.Data.List.Basic
import Mathlib.Data.List.TakeWhile

/-!
# The pieces of a text

A text is split at a separator.

* `head_splitOn`: the first piece;
* `not_mem_of_mem_splitOn`: no piece has a separator;
* `count_intercalate`: joined pieces have one separator less than there are pieces;
* `not_mem_take_idxOf?`: what stands before the first separator;
* `takeWhile_append_of_head`, `dropWhile_append_of_head`, `eq_of_takeWhile`: the longest piece;
* `eq_of_suffix_of_not_mem`: what follows the last separator.
-/

namespace ComputeContract

variable {α : Type*} [DecidableEq α]

theorem head_splitOn (c : α) (cs : List α) :
    (cs.splitOn c)[0]? = some (cs.takeWhile (· ≠ c)) := by
  induction cs with
  | nil => rfl
  | cons d cs ih =>
    rw [List.splitOn_cons_eq_if_modifyHead]
    by_cases h : d = c
    · simp [h]
    · simp [h, ih]

theorem not_mem_of_mem_splitOn {c : α} {cs part : List α} (h : part ∈ cs.splitOn c) :
    c ∉ part := by
  induction cs generalizing part with
  | nil =>
    obtain rfl := List.mem_singleton.1 h
    exact List.not_mem_nil
  | cons d cs ih =>
    rw [List.splitOn_cons_eq_if_modifyHead] at h
    split_ifs at h with hd
    · rcases List.mem_cons.1 h with rfl | h
      · exact List.not_mem_nil
      · exact ih h
    · rcases hparts : cs.splitOn c with - | ⟨head, tail⟩
      · rw [hparts] at h
        cases h
      · rw [hparts] at h
        rcases List.mem_cons.1 h with rfl | h
        · rintro (_ | ⟨_, hmem⟩)
          · exact hd (beq_self_eq_true _)
          · exact ih (hparts ▸ List.mem_cons_self) hmem
        · exact ih (hparts ▸ List.mem_cons_of_mem _ h)

theorem count_intercalate {c : α} {parts : List (List α)} (h : ∀ part ∈ parts, c ∉ part) :
    ([c].intercalate parts).count c = parts.length - 1 := by
  induction parts with
  | nil => rfl
  | cons part parts ih =>
    rw [List.forall_mem_cons] at h
    have hpart : part.count c = 0 := List.count_eq_zero.2 h.1
    cases parts with
    | nil => rwa [List.intercalate_singleton]
    | cons part' parts =>
      rw [List.intercalate_cons_cons, List.count_append, List.count_append, hpart, ih h.2,
        List.count_singleton_self]
      simp only [List.length_cons]
      omega

omit [DecidableEq α] in
theorem intercalate_append_cons (sep xs ys : List α) (parts : List (List α)) :
    sep.intercalate ((xs ++ ys) :: parts) = xs ++ sep.intercalate (ys :: parts) := by
  cases parts with
  | nil => rw [List.intercalate_singleton, List.intercalate_singleton]
  | cons part parts => simp only [List.intercalate_cons_cons, List.append_assoc]

/-- What stands before the first separator. -/
theorem not_mem_take_idxOf? {a : α} {cs : List α} {i : ℕ}
    (h : cs.idxOf? a = some i) : a ∉ cs.take i := by
  induction cs generalizing i with
  | nil => cases h
  | cons c cs ih =>
    rw [List.idxOf?_cons] at h
    split at h
    · cases h
      exact List.not_mem_nil
    · rename_i hne
      obtain ⟨j, hj, rfl⟩ := Option.map_eq_some_iff.1 h
      rw [List.take_succ_cons, List.mem_cons, not_or]
      refine ⟨fun heq => hne ?_, ih hj⟩
      rw [heq]
      exact beq_self_eq_true c

omit [DecidableEq α] in
theorem takeWhile_append_of_head {p : α → Bool} {xs ys : List α} (hx : ∀ c ∈ xs, p c)
    (hy : ∀ c ∈ ys.head?, p c = false) : (xs ++ ys).takeWhile p = xs := by
  rw [List.takeWhile_append_of_pos hx]
  cases ys with
  | nil => exact List.append_nil xs
  | cons y ys => rw [List.takeWhile_cons, hy y rfl, if_neg Bool.false_ne_true, List.append_nil]

omit [DecidableEq α] in
theorem dropWhile_append_of_head {p : α → Bool} {xs ys : List α} (hx : ∀ c ∈ xs, p c)
    (hy : ∀ c ∈ ys.head?, p c = false) : (xs ++ ys).dropWhile p = ys := by
  rw [List.dropWhile_append_of_pos hx]
  cases ys with
  | nil => rfl
  | cons y ys => rw [List.dropWhile_cons, hy y rfl, if_neg Bool.false_ne_true]

omit [DecidableEq α] in
/-- A text is what is taken from it and what is left. -/
theorem eq_of_takeWhile {p : α → Bool} {cs xs ys : List α} (hx : cs.takeWhile p = xs)
    (hy : cs.dropWhile p = ys) :
    cs = xs ++ ys ∧ (∀ c ∈ xs, p c) ∧ ∀ c ∈ ys.head?, p c = false := by
  subst hx hy
  refine ⟨List.takeWhile_append_dropWhile.symm, fun c => List.mem_takeWhile_imp, fun c hc => ?_⟩
  have hhead := List.head?_dropWhile_not p cs
  rw [Option.mem_def.1 hc] at hhead
  simpa using hhead

omit [DecidableEq α] in
/-- What follows the last separator. -/
theorem eq_of_suffix_of_not_mem {c : α} {xs ys cs : List α} (hx : c ∉ xs) (hy : c ∉ ys)
    (h : c :: xs <:+ cs) (h' : c :: ys <:+ cs) : xs = ys := by
  have hshort : ∀ {xs ys : List α}, c ∉ ys → c :: xs <:+ c :: ys → xs = ys := by
    intro xs ys hy hle
    rcases List.suffix_cons_iff.1 hle with heq | hle
    · exact (List.cons.inj heq).2
    · exact absurd (hle.subset List.mem_cons_self) hy
  rcases List.suffix_or_suffix_of_suffix h h' with hle | hle
  · exact hshort hy hle
  · exact (hshort hx hle).symm

end ComputeContract
