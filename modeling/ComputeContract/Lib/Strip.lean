import Mathlib.Data.List.Basic
import Mathlib.Data.List.TakeWhile

/-!
# Stripped lists

The elements that satisfy `p` are dropped at both ends (`strip`), as blanks are around a text.

* `strip_append_left`, `strip_append_right`: what is dropped may as well not be there;
* `eq_strip`: the list is what is left, between two parts that are dropped;
* `mem_strip_iff`: an element that does not satisfy `p` stays.
-/

namespace ComputeContract

variable {α : Type*} {p : α → Bool} {cs ds : List α}

/-- Without the elements at the ends that satisfy `p`. -/
def strip (p : α → Bool) (cs : List α) : List α :=
  ((cs.dropWhile p).reverse.dropWhile p).reverse

theorem strip_append_left (h : ∀ c ∈ cs, p c) : strip p (cs ++ ds) = strip p ds := by
  rw [strip, List.dropWhile_append_of_pos h]
  rfl

theorem strip_append_right (h : ∀ c ∈ ds, p c) : strip p (cs ++ ds) = strip p cs := by
  have hrev : ∀ c ∈ ds.reverse, p c := fun c hc => h c (List.mem_reverse.1 hc)
  rw [strip, strip, List.dropWhile_append]
  split_ifs with hcs
  · rw [List.isEmpty_iff] at hcs
    rw [hcs, List.dropWhile_eq_nil_iff.2 h]
  · rw [List.reverse_append, List.dropWhile_append_of_pos hrev]

theorem eq_strip (p : α → Bool) (cs : List α) : ∃ front back, (∀ c ∈ front, p c) ∧
    (∀ c ∈ back, p c) ∧ cs = front ++ strip p cs ++ back := by
  refine ⟨cs.takeWhile p, ((cs.dropWhile p).reverse.takeWhile p).reverse,
    fun c hc => List.mem_takeWhile_imp hc,
    fun c hc => List.mem_takeWhile_imp (List.mem_reverse.1 hc), ?_⟩
  rw [strip, List.append_assoc, ← List.reverse_append, List.takeWhile_append_dropWhile,
    List.reverse_reverse, List.takeWhile_append_dropWhile]

@[simp] theorem strip_strip (p : α → Bool) (cs : List α) : strip p (strip p cs) = strip p cs := by
  obtain ⟨front, back, hfront, hback, hcs⟩ := eq_strip p cs
  have h : strip p (front ++ strip p cs ++ back) = strip p (strip p cs) := by
    rw [strip_append_right hback, strip_append_left hfront]
  rw [← h, ← hcs]

theorem mem_of_mem_strip {c : α} (h : c ∈ strip p cs) : c ∈ cs := by
  obtain ⟨front, back, -, -, hcs⟩ := eq_strip p cs
  rw [hcs]
  exact List.mem_append_left _ (List.mem_append_right _ h)

/-- What does not satisfy `p` stays. -/
theorem mem_strip_iff {c : α} (h : p c = false) : c ∈ strip p cs ↔ c ∈ cs := by
  refine ⟨mem_of_mem_strip, fun hc => ?_⟩
  obtain ⟨front, back, hfront, hback, hcs⟩ := eq_strip p cs
  rw [hcs] at hc
  rcases List.mem_append.1 hc with hc | hc
  · rcases List.mem_append.1 hc with hc | hc
    · exact absurd (hfront c hc) (by rw [h]; decide)
    · exact hc
  · exact absurd (hback c hc) (by rw [h]; decide)

end ComputeContract
