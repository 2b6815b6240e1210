import Mathlib.Data.List.Sort
import Mathlib.Data.List.TakeDrop

/-!
# Reading a list in pages

A sorted list is read in pages of `k`, each of what comes after the key of the last item
of the page before. Items that have the key of the last one are not read again, also when
they were not in the page.

* `filter_insertionSort`: what is left of a list, sorted.
* `readPages_eq_some`: the reading ends.
* `readPages_flatten_iff`: every item is read exactly when no key goes over the end of a
  page.
-/

namespace ComputeContract.Pages

/-! ## Sorting what is left -/

section Sorting

variable {α : Type*} {r : α → α → Prop} [DecidableRel r]

theorem filter_orderedInsert [IsTrans α r] (p : α → Bool) (a : α) {l : List α}
    (hl : l.Pairwise r) : (l.orderedInsert r a).filter p =
      if p a then (l.filter p).orderedInsert r a else l.filter p := by
  induction l with
  | nil => cases hp : p a <;> simp [hp]
  | cons b l ih =>
    obtain ⟨hb, hl⟩ := List.pairwise_cons.1 hl
    by_cases hab : r a b
    · -- What is kept of a list above `a` is above `a`.
      have hall : ∀ c ∈ (b :: l).filter p, r a c := by
        intro c hc
        rcases List.mem_cons.1 (List.mem_of_mem_filter hc) with rfl | hc
        · exact hab
        · exact IsTrans.trans a b c hab (hb c hc)
      have hins : ((b :: l).filter p).orderedInsert r a = a :: (b :: l).filter p := by
        cases hc : (b :: l).filter p with
        | nil => rfl
        | cons c cs => exact List.orderedInsert_cons_of_le r cs (hall c (by simp [hc]))
      rw [List.orderedInsert_cons_of_le r l hab, hins, List.filter_cons]
    · rw [List.orderedInsert_of_not_le r l hab, List.filter_cons, ih hl, List.filter_cons]
      cases hp : p a <;> cases hq : p b <;> simp [hab]

/-- A list may be cut before it is sorted. -/
theorem filter_insertionSort [IsTrans α r] [Std.Total r] (p : α → Bool) (l : List α) :
    (l.insertionSort r).filter p = (l.filter p).insertionSort r := by
  induction l with
  | nil => rfl
  | cons a l ih =>
    rw [List.insertionSort_cons, filter_orderedInsert p a (List.pairwise_insertionSort r l), ih,
      List.filter_cons]
    cases hp : p a <;> simp

end Sorting
/-! ## Reading -/

variable {α T : Type*} [LinearOrder T] (key : α → T)

/-- What comes after the key of `a`. -/
def later (a : α) (rest : List α) : List α := rest.filter fun b => key a < key b

/-- Read the list in pages of `k`, up to one that is empty or shorter than `size`; `none`
    when the fuel runs out. -/
def readPages (k size : ℕ) : ℕ → List α → Option (List (List α))
  | 0, _ => none
  | fuel + 1, rest =>
    match (rest.take k).getLast? with
    | none => some []
    | some a =>
      if (rest.take k).length < size then some [rest.take k]
      else (readPages k size fuel (later key a rest)).map (rest.take k :: ·)

/-- No key goes over the end of a page of `k`. -/
def NoTie (k : ℕ) (l : List α) : Prop :=
  ∀ i a b, k ∣ i + 1 → l[i]? = some a → l[i + 1]? = some b → key a < key b

variable {key} {k size : ℕ} {l : List α}

theorem getLast?_take_eq_none (hk : 0 < k) : (l.take k).getLast? = none ↔ l = [] := by
  rw [List.getLast?_eq_none_iff, List.take_eq_nil_iff]
  exact ⟨fun h => h.resolve_left hk.ne', .inr⟩

/-- The reading ends: the last item of a page is not read again. -/
theorem readPages_isSome {fuel : ℕ} (h : l.length < fuel) :
    (readPages key k size fuel l).isSome := by
  induction fuel generalizing l with
  | zero => omega
  | succ fuel ih =>
    rw [readPages]
    split
    · rfl
    · rename_i a ha
      split_ifs
      · rfl
      · rw [Option.isSome_map]
        refine ih ?_
        have hmem : a ∈ l := List.mem_of_mem_take (List.mem_of_getLast? ha)
        have hlt : (later key a l).length < l.length :=
          List.length_filter_lt_length_iff_exists.2 ⟨a, hmem, by simp⟩
        omega

/-! ## What is read -/

/-- Behind a page, the items after its last one are in the rest of the list. -/
theorem later_eq_later_drop (hl : l.Pairwise fun a b => key a ≤ key b) {a : α}
    (ha : (l.take k).getLast? = some a) : later key a l = later key a (l.drop k) := by
  have hpage : later key a (l.take k) = [] := by
    rw [later, List.filter_eq_nil_iff]
    intro b hb
    obtain ⟨page, hpage⟩ := List.getLast?_eq_some_iff.1 ha
    have hsorted := hl.sublist (List.take_sublist k l)
    rw [hpage, List.pairwise_append] at hsorted
    rw [hpage, List.mem_append, List.mem_singleton] at hb
    rcases hb with hb | rfl
    · simpa using hsorted.2.2 b hb a (List.mem_singleton_self a)
    · simp
  conv_lhs => rw [← List.take_append_drop k l, later, List.filter_append]
  rw [later] at hpage
  rw [hpage, List.nil_append, later]

/-- Nothing is read twice, and the order is kept. -/
theorem flatten_sublist (hl : l.Pairwise fun a b => key a ≤ key b) {fuel : ℕ}
    {pages : List (List α)} (hp : readPages key k size fuel l = some pages) :
    pages.flatten.Sublist l := by
  induction fuel generalizing l pages with
  | zero => cases hp
  | succ fuel ih =>
    rw [readPages] at hp
    split at hp
    · cases hp
      exact List.nil_sublist l
    · rename_i a ha
      split_ifs at hp
      · cases hp
        simpa using List.take_sublist k l
      · obtain ⟨rest, hrest, rfl⟩ := Option.map_eq_some_iff.1 hp
        have hsub : rest.flatten.Sublist (later key a l) :=
          ih (hl.sublist List.filter_sublist) hrest
        rw [later_eq_later_drop hl ha] at hsub
        rw [List.flatten_cons]
        conv_rhs => rw [← List.take_append_drop k l]
        exact (List.Sublist.refl _).append (hsub.trans List.filter_sublist)

theorem noTie_of_length_le (h : l.length ≤ k) : NoTie key k l := by
  intro i a b hi _ hb
  have hle := Nat.le_of_dvd i.succ_pos hi
  obtain ⟨hlt, _⟩ := List.getElem?_eq_some_iff.1 hb
  omega

/-- The end of the first page, and those of the others. -/
theorem noTie_iff_drop (hk : 0 < k) {a : α} (ha : l[k - 1]? = some a) :
    NoTie key k l ↔ (∀ b, l[k]? = some b → key a < key b) ∧ NoTie key k (l.drop k) := by
  constructor
  · intro h
    have hend : k - 1 + 1 = k := Nat.sub_add_cancel hk
    refine ⟨fun b hb => h (k - 1) a b (hend ▸ Nat.dvd_refl _) ha ?_, fun i c d hi hc hd => ?_⟩
    · rwa [hend]
    · rw [List.getElem?_drop] at hc hd
      refine h (k + i) c d ?_ hc hd
      rw [Nat.add_assoc]
      exact Nat.dvd_add (Nat.dvd_refl k) hi
  · rintro ⟨hfirst, hrest⟩ i c d hi hc hd
    rcases Nat.lt_or_ge i k with hik | hik
    · have hle := Nat.le_of_dvd i.succ_pos hi
      obtain rfl : i = k - 1 := by omega
      cases ha.symm.trans hc
      rw [Nat.sub_add_cancel hk] at hd
      exact hfirst d hd
    · refine hrest (i - k) c d ?_ ?_ ?_
      · rw [show i - k + 1 = i + 1 - k by omega]
        exact Nat.dvd_sub hi (Nat.dvd_refl k)
      · rw [List.getElem?_drop, Nat.add_sub_cancel' hik]
        exact hc
      · rw [List.getElem?_drop, show k + (i - k + 1) = i + 1 by omega]
        exact hd

/-- Every item is read exactly when no key goes over the end of a page. -/
theorem readPages_flatten_iff (hk : 0 < k) (hl : l.Pairwise fun a b => key a ≤ key b) {fuel : ℕ}
    {pages : List (List α)} (hp : readPages key k k fuel l = some pages) :
    pages.flatten = l ↔ NoTie key k l := by
  induction fuel generalizing l pages with
  | zero => cases hp
  | succ fuel ih =>
    rw [readPages] at hp
    split at hp
    · rename_i hnil
      cases hp
      rw [getLast?_take_eq_none hk] at hnil
      subst hnil
      exact iff_of_true rfl (noTie_of_length_le (Nat.zero_le k))
    · rename_i a ha
      split_ifs at hp with hshort
      · cases hp
        rw [List.length_take] at hshort
        have hle : l.length ≤ k := by omega
        rw [List.take_of_length_le hle]
        exact iff_of_true (by simp) (noTie_of_length_le hle)
      · obtain ⟨rest, hrest, rfl⟩ := Option.map_eq_some_iff.1 hp
        rw [List.length_take] at hshort
        have hlen : (l.take k).length = k := by
          rw [List.length_take]
          omega
        have hlast : l[k - 1]? = some a := by
          rw [List.getLast?_eq_getElem?, hlen, List.getElem?_take_of_lt (by omega)] at ha
          exact ha
        have hflat : (l.take k :: rest).flatten = l ↔ rest.flatten = l.drop k := by
          conv_lhs => rw [List.flatten_cons]; rhs; rw [← List.take_append_drop k l]
          exact List.append_right_inj _
        have hlater := later_eq_later_drop hl ha
        have hsub : rest.flatten.Sublist (later key a (l.drop k)) := by
          rw [← hlater]
          exact flatten_sublist (hl.sublist List.filter_sublist) hrest
        rw [hflat, noTie_iff_drop hk hlast]
        by_cases hfirst : ∀ b, l[k]? = some b → key a < key b
        · -- Nothing behind the page has the key of its last item.
          have hdrop : later key a (l.drop k) = l.drop k := by
            rw [later, List.filter_eq_self]
            intro b hb
            cases hd : l.drop k with
            | nil => simp [hd] at hb
            | cons c cs =>
              have hc : key a < key c := hfirst c (by
                rw [← List.head?_drop, hd]
                rfl)
              have hsorted := hl.sublist (List.drop_sublist k l)
              rw [hd] at hsorted hb
              rcases List.mem_cons.1 hb with rfl | hb
              · simpa using hc
              · simpa using hc.trans_le (List.rel_of_pairwise_cons hsorted hb)
          rw [hlater, hdrop] at hrest
          rw [ih (hl.sublist (List.drop_sublist k l)) hrest]
          exact (and_iff_right hfirst).symm
        · -- One that has it is not read.
          refine iff_of_false (fun heq => hfirst fun b hb => ?_) fun h => hfirst h.1
          rw [heq] at hsub
          have hself := hsub.eq_of_length_le (List.length_filter_le _ _)
          rw [later, eq_comm, List.filter_eq_self] at hself
          have hmem : b ∈ l.drop k := by
            rw [← List.head?_drop] at hb
            exact List.mem_of_head? hb
          simpa using hself b hmem

/-- More fuel reads the same pages. -/
theorem readPages_mono {fuel fuel' : ℕ} (h : fuel ≤ fuel') {pages : List (List α)}
    (hp : readPages key k size fuel l = some pages) : readPages key k size fuel' l = some pages := by
  induction fuel generalizing fuel' l pages with
  | zero => cases hp
  | succ fuel ih =>
    obtain ⟨fuel', rfl⟩ : ∃ n, fuel' = n + 1 := ⟨fuel' - 1, by omega⟩
    rw [readPages] at hp ⊢
    split at hp
    · exact hp
    · split_ifs at hp ⊢
      · exact hp
      · obtain ⟨rest, hrest, rfl⟩ := Option.map_eq_some_iff.1 hp
        rw [ih (by omega) hrest]
        rfl

end ComputeContract.Pages
