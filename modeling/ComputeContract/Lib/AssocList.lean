import Mathlib.Data.List.Sort
import Mathlib.Data.List.Nodup
import Mathlib.Order.Basic

/-!
# Association lists

Finite maps as lists of pairs, read by `List.lookup`, in the two forms programs
keep them in:

* *insertion ordered*, as a JavaScript `Map`: `set` replaces the value of a key
  in place and appends a new key, `erase` drops it;
* *sorted* by key (`Sorted`), as the contents of a search tree: `insertKey` puts a
  pair in its place, and `filter`s on the keys cut the list.

The two are compared by what they look up: a list without repeated keys is, once
sorted, the sorted list with the same lookups (`sort_eq`).
-/

namespace ComputeContract.AssocList

variable {K V : Type*}

/-- The keys, in the order of the list. -/
def keys (m : List (K × V)) : List K := m.map Prod.fst

@[simp] theorem keys_nil : keys ([] : List (K × V)) = [] := rfl

@[simp] theorem keys_cons (e : K × V) (m : List (K × V)) : keys (e :: m) = e.1 :: keys m := rfl

@[simp] theorem keys_append (m m' : List (K × V)) : keys (m ++ m') = keys m ++ keys m' :=
  List.map_append

theorem keys_filter (p : K → Bool) (m : List (K × V)) :
    keys (m.filter fun e => p e.1) = (keys m).filter p :=
  List.filter_map.symm

theorem mem_keys {m : List (K × V)} {k : K} : k ∈ keys m ↔ ∃ v, (k, v) ∈ m := by
  simp [keys]

theorem mem_keys_of_mem {m : List (K × V)} {e : K × V} (h : e ∈ m) : e.1 ∈ keys m :=
  List.mem_map_of_mem h

/-! ## Insertion order -/

variable [DecidableEq K]

theorem lookup_cons (k : K) (e : K × V) (m : List (K × V)) :
    (e :: m).lookup k = if k = e.1 then some e.2 else m.lookup k := by
  obtain ⟨k₀, v₀⟩ := e
  by_cases h : k = k₀ <;> simp [List.lookup_cons, h, beq_eq_false_iff_ne.2]

/-- Set the value of `k`: in place if `k` is there, at the end otherwise. -/
def set (k : K) (v : V) : List (K × V) → List (K × V)
  | [] => [(k, v)]
  | (k', v') :: m => if k' = k then (k, v) :: m else (k', v') :: set k v m

/-- Drop the key `k`. -/
def erase (k : K) (m : List (K × V)) : List (K × V) := m.filter fun e => e.1 ≠ k

/-- The lookups after a `set`: the new value at `k`, the old ones elsewhere. -/
theorem lookup_set (k : K) (v : V) (m : List (K × V)) (k' : K) :
    (set k v m).lookup k' = if k' = k then some v else m.lookup k' := by
  induction m with
  | nil => simp [set, lookup_cons]
  | cons e m ih =>
    obtain ⟨k₀, v₀⟩ := e
    by_cases h₀ : k₀ = k
    · by_cases h : k' = k <;> simp [set, lookup_cons, h₀, h]
    · by_cases h : k' = k₀
      · simp [set, lookup_cons, h₀, h]
      · simp [set, lookup_cons, h₀, h, ih]

/-- Filtering on the keys keeps the lookups of the keys it keeps. -/
theorem lookup_filter (p : K → Bool) (m : List (K × V)) (k : K) :
    (m.filter fun e => p e.1).lookup k = if p k then m.lookup k else none := by
  induction m with
  | nil => simp
  | cons e m ih =>
    obtain ⟨k₀, v₀⟩ := e
    by_cases h : k = k₀
    · subst h
      by_cases hp : p k <;> simp [lookup_cons, hp, ih]
    · by_cases hp : p k₀ <;> simp [lookup_cons, hp, h, ih]

/-- The lookups after an `erase`: nothing at `k`, the old values elsewhere. -/
theorem lookup_erase (k : K) (m : List (K × V)) (k' : K) :
    (erase k m).lookup k' = if k' = k then none else m.lookup k' := by
  have h := lookup_filter (fun x => decide (x ≠ k)) m k'
  by_cases hk : k' = k <;> simpa [erase, hk] using h

theorem erase_of_not_mem {k : K} {m : List (K × V)} (h : k ∉ keys m) : erase k m = m :=
  List.filter_eq_self.2 fun e he => by
    simpa using fun heq : e.1 = k => h (heq ▸ mem_keys_of_mem he)

theorem lookup_isSome_iff {m : List (K × V)} {k : K} : (m.lookup k).isSome ↔ k ∈ keys m := by
  rw [List.lookup_isSome_iff]
  constructor
  · rintro ⟨⟨k₀, v₀⟩, he, h⟩
    exact mem_keys.2 ⟨v₀, by simpa [beq_iff_eq.1 h] using he⟩
  · intro h
    obtain ⟨v, hv⟩ := mem_keys.1 h
    exact ⟨(k, v), hv, by simp⟩

theorem lookup_eq_none_iff {m : List (K × V)} {k : K} : m.lookup k = none ↔ k ∉ keys m := by
  rw [← lookup_isSome_iff]
  cases m.lookup k <;> simp

theorem mem_set {k : K} {v : V} {m : List (K × V)} {e : K × V} (h : e ∈ set k v m) :
    e = (k, v) ∨ e ∈ m := by
  induction m with
  | nil => exact .inl (List.mem_singleton.1 h)
  | cons e₀ m ih =>
    obtain ⟨k₀, v₀⟩ := e₀
    rw [set] at h
    split_ifs at h with hk
    · rcases List.mem_cons.1 h with rfl | h
      · exact .inl rfl
      · exact .inr (List.mem_cons_of_mem _ h)
    · rcases List.mem_cons.1 h with rfl | h
      · exact .inr List.mem_cons_self
      · exact (ih h).imp_right (List.mem_cons_of_mem _)

theorem mem_of_mem_erase {k : K} {m : List (K × V)} {e : K × V} (h : e ∈ erase k m) : e ∈ m :=
  (List.mem_filter.1 h).1

theorem keys_set_of_mem {k : K} (v : V) {m : List (K × V)} (h : k ∈ keys m) :
    keys (set k v m) = keys m := by
  induction m with
  | nil => simp at h
  | cons e m ih =>
    obtain ⟨k₀, v₀⟩ := e
    by_cases h₀ : k₀ = k
    · simp [set, h₀]
    · have hm : k ∈ keys m := by simpa [Ne.symm h₀] using h
      simp [set, h₀, ih hm]

theorem set_of_not_mem {k : K} (v : V) {m : List (K × V)} (h : k ∉ keys m) :
    set k v m = m ++ [(k, v)] := by
  induction m with
  | nil => rfl
  | cons e m ih =>
    obtain ⟨k₀, v₀⟩ := e
    simp only [keys_cons, List.mem_cons, not_or] at h
    simp [set, Ne.symm h.1, ih h.2]

/-- Setting the pairs of a list without repeated keys, one after the other. -/
theorem foldl_set_nil {m : List (K × V)} (h : (keys m).Nodup) :
    m.foldl (fun all e => set e.1 e.2 all) [] = m := by
  have hfold : ∀ m₀ : List (K × V), (keys (m₀ ++ m)).Nodup →
      m.foldl (fun all e => set e.1 e.2 all) m₀ = m₀ ++ m := by
    induction m with
    | nil => simp
    | cons e m ih =>
      intro m₀ hn
      have hnew : e.1 ∉ keys m₀ := fun hmem => by
        rw [keys_append, List.nodup_append] at hn
        exact hn.2.2 _ hmem _ List.mem_cons_self rfl
      rw [List.foldl_cons, set_of_not_mem e.2 hnew]
      exact (ih (List.nodup_cons.1 h).2 _ (by simpa using hn)).trans (by simp)
  exact hfold [] h

/-- Set the pairs of `entries`, one after the other. -/
def setAll (entries m : List (K × V)) : List (K × V) := entries.foldl (fun m e => set e.1 e.2 m) m

theorem setAll_append (entries entries' m : List (K × V)) :
    setAll (entries ++ entries') m = setAll entries' (setAll entries m) :=
  List.foldl_append

/-- The lookups after a `setAll`: the last pair of the key wins. -/
theorem lookup_setAll (entries m : List (K × V)) (k : K) :
    (setAll entries m).lookup k = (entries.reverse.lookup k).or (m.lookup k) := by
  induction entries generalizing m with
  | nil => rfl
  | cons e entries ih =>
    have hstep : setAll (e :: entries) m = setAll entries (set e.1 e.2 m) := rfl
    rw [hstep, ih, lookup_set, List.reverse_cons, List.lookup_append, Option.or_assoc]
    congr 1
    rw [lookup_cons]
    split_ifs <;> rfl

/-- Without repeated keys, the order does not matter. -/
theorem lookup_reverse {m : List (K × V)} (h : (keys m).Nodup) (k : K) :
    m.reverse.lookup k = m.lookup k := by
  have hset := lookup_setAll m [] k
  rw [setAll, foldl_set_nil h] at hset
  rw [hset]
  exact Option.or_none.symm

theorem mem_of_lookup {m : List (K × V)} {k : K} {v : V} (h : m.lookup k = some v) :
    (k, v) ∈ m := by
  induction m with
  | nil => cases h
  | cons e m ih =>
    rw [lookup_cons] at h
    split_ifs at h with hk
    · obtain rfl := Option.some.inj h
      exact hk ▸ List.mem_cons_self
    · exact List.mem_cons_of_mem _ (ih h)

theorem keys_set_of_not_mem {k : K} (v : V) {m : List (K × V)} (h : k ∉ keys m) :
    keys (set k v m) = keys m ++ [k] := by
  rw [set_of_not_mem v h, keys_append]
  rfl

/-- A `set` repeats no key. -/
theorem nodup_keys_set {k : K} {v : V} {m : List (K × V)} (h : (keys m).Nodup) :
    (keys (set k v m)).Nodup := by
  by_cases hk : k ∈ keys m
  · rwa [keys_set_of_mem v hk]
  · rw [keys_set_of_not_mem v hk]
    exact List.nodup_append.2 ⟨h, List.nodup_singleton k,
      fun a ha b hb hab => hk (List.mem_singleton.1 hb ▸ hab ▸ ha)⟩

theorem mem_keys_setAll {entries m : List (K × V)} {k : K} :
    k ∈ keys (setAll entries m) ↔ k ∈ keys entries ∨ k ∈ keys m := by
  rw [← lookup_isSome_iff, lookup_setAll, Option.isSome_or, Bool.or_eq_true, lookup_isSome_iff,
    lookup_isSome_iff, keys, List.map_reverse, List.mem_reverse]
  rfl

theorem nodup_keys_setAll (entries : List (K × V)) {m : List (K × V)} (h : (keys m).Nodup) :
    (keys (setAll entries m)).Nodup := by
  induction entries generalizing m with
  | nil => exact h
  | cons e entries ih => exact ih (nodup_keys_set h)

/-- An `erase` repeats no key. -/
theorem nodup_keys_erase {k : K} {m : List (K × V)} (h : (keys m).Nodup) :
    (keys (erase k m)).Nodup :=
  h.sublist (List.filter_sublist.map _)

/-- An `erase` takes back a `set` of its key. -/
theorem erase_set_self (k : K) (v : V) (m : List (K × V)) : erase k (set k v m) = erase k m := by
  induction m with
  | nil => simp [set, erase]
  | cons e m ih =>
    obtain ⟨k₀, v₀⟩ := e
    by_cases h : k₀ = k
    · simp [set, erase, h]
    · simpa [set, erase, h] using ih

/-- An `erase` of another key may come before a `set`. -/
theorem erase_set_of_ne {k k' : K} (h : k' ≠ k) (v : V) (m : List (K × V)) :
    erase k (set k' v m) = set k' v (erase k m) := by
  induction m with
  | nil => simp [set, erase, h]
  | cons e m ih =>
    obtain ⟨k₀, v₀⟩ := e
    by_cases h₀ : k₀ = k'
    · simp [set, erase, h₀, h]
    · by_cases hk : k₀ = k
      · simpa [set, erase, h₀, hk, Ne.symm h] using ih
      · simpa [set, erase, h₀, hk] using ih

theorem erase_setAll {k : K} {entries : List (K × V)} (h : k ∉ keys entries)
    (m : List (K × V)) : erase k (setAll entries m) = setAll entries (erase k m) := by
  induction entries generalizing m with
  | nil => rfl
  | cons e entries ih =>
    rw [keys_cons, List.mem_cons, not_or] at h
    have hstep : ∀ m, setAll (e :: entries) m = setAll entries (set e.1 e.2 m) := fun _ => rfl
    rw [hstep, hstep, ih h.2, erase_set_of_ne (Ne.symm h.1)]

theorem lookup_setAll_of_not_mem {k : K} {entries : List (K × V)} (h : k ∉ keys entries)
    (m : List (K × V)) : (setAll entries m).lookup k = m.lookup k := by
  have hnone : entries.reverse.lookup k = none :=
    lookup_eq_none_iff.2 fun hk => h (by simpa [keys] using hk)
  rw [lookup_setAll, hnone, Option.none_or]

/-- Without repeated keys, the pairs are the lookups. -/
theorem mem_iff_lookup {m : List (K × V)} (h : (keys m).Nodup) {k : K} {v : V} :
    (k, v) ∈ m ↔ m.lookup k = some v := by
  induction m with
  | nil => simp
  | cons e m ih =>
    obtain ⟨k₀, v₀⟩ := e
    rw [keys_cons, List.nodup_cons] at h
    rw [lookup_cons, List.mem_cons, ih h.2]
    by_cases hk : k = k₀
    · subst hk
      have : m.lookup k = none := lookup_eq_none_iff.2 h.1
      simp [this, eq_comm]
    · simp [hk]

/-- Where one key is never given two values, a `setAll` is read as its entries. -/
theorem lookup_setAll_eq_some {entries : List (K × V)}
    (h : ∀ e ∈ entries, ∀ e' ∈ entries, e.1 = e'.1 → e = e') {k : K} {v : V} :
    (setAll entries []).lookup k = some v ↔ (k, v) ∈ entries := by
  have hlookup : (setAll entries []).lookup k = entries.reverse.lookup k :=
    (lookup_setAll entries [] k).trans Option.or_none
  rw [hlookup]
  refine ⟨fun hv => List.mem_reverse.1 (mem_of_lookup hv), fun hmem => ?_⟩
  have hkey : k ∈ keys entries.reverse := mem_keys_of_mem (List.mem_reverse.2 hmem)
  obtain ⟨v', hv'⟩ := Option.isSome_iff_exists.1 (lookup_isSome_iff.2 hkey)
  have heq := h (k, v) hmem (k, v') (List.mem_reverse.1 (mem_of_lookup hv')) rfl
  rw [hv', (Prod.mk.inj heq).2]

/-- The pair of a key, and the others. -/
theorem perm_cons_erase {m : List (K × V)} {k : K} {v : V} (h : (keys m).Nodup)
    (hl : m.lookup k = some v) : m.Perm ((k, v) :: erase k m) := by
  induction m with
  | nil => cases hl
  | cons e m ih =>
    obtain ⟨k₀, v₀⟩ := e
    rw [keys_cons, List.nodup_cons] at h
    rw [lookup_cons] at hl
    by_cases hk : k = k₀
    · subst hk
      rw [if_pos rfl, Option.some.injEq] at hl
      have herase : erase k ((k, v₀) :: m) = m := by
        rw [erase, List.filter_cons_of_neg (by simp)]
        exact erase_of_not_mem h.1
      obtain rfl : v₀ = v := hl
      rw [herase]
    · rw [if_neg hk] at hl
      have herase : erase k ((k₀, v₀) :: m) = (k₀, v₀) :: erase k m := by
        rw [erase, List.filter_cons_of_pos (by simpa using Ne.symm hk)]
        rfl
      rw [herase]
      exact ((ih h.2 hl).cons _).trans (.swap _ _ _)

/-- A `set` puts the pair in the place of any other with its key. -/
theorem perm_set (k : K) (v : V) {m : List (K × V)} (h : (keys m).Nodup) :
    (set k v m).Perm ((k, v) :: erase k m) := by
  have hl : (set k v m).lookup k = some v := by rw [lookup_set, if_pos rfl]
  have herase : erase k (set k v m) = erase k m := by
    clear hl h
    induction m with
    | nil => simp [set, erase]
    | cons e m ih =>
      obtain ⟨k₀, v₀⟩ := e
      by_cases hk : k₀ = k
      · simp [set, erase, hk]
      · simpa [set, erase, hk] using ih
  rw [← herase]
  exact perm_cons_erase (nodup_keys_set h) hl

omit [DecidableEq K] in
/-- Dropping some of the keys of a list without repeated keys leaves the other pairs. -/
theorem filter_not_mem_keys [DecidableEq K] {m c r : List (K × V)} (h : (keys m).Nodup)
    (hp : m.Perm (c ++ r)) : (m.filter fun e => e.1 ∉ keys c).Perm r := by
  have hn : (keys (c ++ r)).Nodup := (hp.map Prod.fst).nodup_iff.1 h
  rw [keys_append, List.nodup_append] at hn
  have hc : c.filter (fun e => e.1 ∉ keys c) = [] :=
    List.filter_eq_nil_iff.2 fun e he => by simpa using mem_keys_of_mem he
  have hr : r.filter (fun e => e.1 ∉ keys c) = r :=
    List.filter_eq_self.2 fun e he => by
      simpa using fun hmem => hn.2.2 _ hmem _ (mem_keys_of_mem he) rfl
  have hfilter := hp.filter fun e => e.1 ∉ keys c
  rwa [List.filter_append, hc, hr] at hfilter

/-! ## Sorted lists -/

variable [LinearOrder K]

omit [DecidableEq K] in
/-- Strictly increasing in the keys. -/
def Sorted (m : List (K × V)) : Prop := (keys m).Pairwise (· < ·)

omit [DecidableEq K] in
theorem Sorted.nodup {m : List (K × V)} (h : Sorted m) : (keys m).Nodup :=
  h.imp fun hab => ne_of_lt hab

omit [DecidableEq K] in
theorem Sorted.filter {m : List (K × V)} (h : Sorted m) (p : K × V → Bool) :
    Sorted (m.filter p) :=
  h.sublist (List.filter_sublist.map _)

omit [DecidableEq K] in
theorem sorted_append {m m' : List (K × V)} :
    Sorted (m ++ m') ↔ Sorted m ∧ Sorted m' ∧ ∀ a ∈ keys m, ∀ b ∈ keys m', a < b := by
  simp [Sorted, List.pairwise_append]

omit [DecidableEq K] in
theorem sorted_cons {e : K × V} {m : List (K × V)} :
    Sorted (e :: m) ↔ (∀ b ∈ keys m, e.1 < b) ∧ Sorted m := by
  simp [Sorted]

omit [DecidableEq K] in
/-- Put the pair `(k, v)` in its place, instead of any pair with the key `k`. -/
def insertKey (k : K) (v : V) (m : List (K × V)) : List (K × V) :=
  (m.filter fun e => e.1 < k) ++ (k, v) :: m.filter fun e => k < e.1

omit [DecidableEq K] in
theorem keys_insertKey (k : K) (v : V) (m : List (K × V)) :
    keys (insertKey k v m) = (keys m).filter (· < k) ++ k :: (keys m).filter (k < ·) := by
  simp [insertKey, keys, List.filter_map, Function.comp_def]

omit [DecidableEq K] in
theorem sorted_insertKey {k : K} {v : V} {m : List (K × V)} (h : Sorted m) :
    Sorted (insertKey k v m) := by
  refine sorted_append.2 ⟨h.filter _, sorted_cons.2 ⟨fun b hb => ?_, h.filter _⟩, ?_⟩
  · obtain ⟨v', hb⟩ := mem_keys.1 hb
    simpa using (List.mem_filter.1 hb).2
  · intro a ha b hb
    obtain ⟨v₁, ha⟩ := mem_keys.1 ha
    have hak : a < k := by simpa using (List.mem_filter.1 ha).2
    rcases List.mem_cons.1 hb with rfl | hb
    · exact hak
    · obtain ⟨v₂, hb⟩ := mem_keys.1 hb
      exact hak.trans (by simpa using (List.mem_filter.1 hb).2)

omit [DecidableEq K] in
theorem mem_keys_insertKey {k k' : K} {v : V} {m : List (K × V)} :
    k' ∈ keys (insertKey k v m) ↔ k' = k ∨ k' ∈ keys m := by
  rw [keys_insertKey, List.mem_append, List.mem_cons, List.mem_filter, List.mem_filter]
  rcases lt_trichotomy k' k with h | h | h
  · simp [h, h.ne, h.not_gt]
  · simp [h]
  · simp [h, h.ne', h.not_gt]

omit [DecidableEq K] in
theorem mem_insertKey {k : K} {v : V} {m : List (K × V)} {e : K × V} :
    e ∈ insertKey k v m ↔ e = (k, v) ∨ e ∈ m ∧ e.1 ≠ k := by
  rw [insertKey, List.mem_append, List.mem_cons, List.mem_filter, List.mem_filter,
    decide_eq_true_eq, decide_eq_true_eq, ne_iff_lt_or_gt, and_or_left]
  exact or_left_comm

omit [DecidableEq K] in
theorem length_insertKey_le (k : K) (v : V) (m : List (K × V)) :
    (insertKey k v m).length ≤ m.length + 1 := by
  have hlt : m.countP (fun e => k < e.1) ≤ m.countP fun e => !decide (e.1 < k) :=
    List.countP_mono_left fun e _ h => by simpa using (of_decide_eq_true h).le
  have hsum := List.length_eq_countP_add_countP (fun e => decide (e.1 < k)) (l := m)
  rw [insertKey, List.length_append, List.length_cons, ← List.countP_eq_length_filter,
    ← List.countP_eq_length_filter]
  simp only [decide_eq_true_eq, ← decide_not] at hsum hlt
  omega

omit [DecidableEq K] in
/-- Inserting a new key adds the pair. -/
theorem insertKey_perm {k : K} {v : V} {m : List (K × V)} (h : k ∉ keys m) :
    (insertKey k v m).Perm ((k, v) :: m) := by
  have hgt : m.filter (fun e => k < e.1) = m.filter fun e => !decide (e.1 < k) :=
    List.filter_congr fun e he => by
      have hne : e.1 ≠ k := fun heq => h (heq ▸ mem_keys_of_mem he)
      rw [← decide_not, decide_eq_decide, not_lt, le_iff_lt_or_eq, or_iff_left hne.symm]
  rw [insertKey, hgt]
  exact List.perm_middle.trans ((List.filter_append_perm _ m).cons _)

/-- The lookups after an `insertKey`: the new value at `k`, the old ones elsewhere. -/
theorem lookup_insertKey (k : K) (v : V) (m : List (K × V)) (k' : K) :
    (insertKey k v m).lookup k' = if k' = k then some v else m.lookup k' := by
  have h₁ := lookup_filter (fun x => decide (x < k)) m k'
  have h₂ := lookup_filter (fun x => decide (k < x)) m k'
  rw [insertKey, List.lookup_append, h₁, lookup_cons, h₂]
  rcases lt_trichotomy k' k with h | h | h
  · cases m.lookup k' <;> simp [h, h.ne, h.not_gt]
  · simp [h]
  · simp [h, h.ne', h.not_gt]

omit [DecidableEq K] in
theorem filter_of_below {k : K} {m : List (K × V)} (h : ∀ e ∈ m, e.1 < k) :
    m.filter (fun e => e.1 < k) = m ∧ m.filter (fun e => k < e.1) = [] :=
  ⟨List.filter_eq_self.2 (by simpa using h),
    List.filter_eq_nil_iff.2 fun e he => by simpa using (h e he).le⟩

omit [DecidableEq K] in
theorem filter_of_above {k : K} {m : List (K × V)} (h : ∀ e ∈ m, k < e.1) :
    m.filter (fun e => e.1 < k) = [] ∧ m.filter (fun e => k < e.1) = m :=
  ⟨List.filter_eq_nil_iff.2 fun e he => by simpa using (h e he).le,
    List.filter_eq_self.2 (by simpa using h)⟩

omit [DecidableEq K] in
/-- Inserting into a list cut at `k` changes only the part in the middle. -/
theorem insertKey_append {k : K} {v : V} {m₁ m m₂ : List (K × V)}
    (h₁ : ∀ e ∈ m₁, e.1 < k) (h₂ : ∀ e ∈ m₂, k < e.1) :
    insertKey k v (m₁ ++ m ++ m₂) = m₁ ++ insertKey k v m ++ m₂ := by
  obtain ⟨a₁, b₁⟩ := filter_of_below h₁
  obtain ⟨a₂, b₂⟩ := filter_of_above h₂
  simp [insertKey, List.filter_append, a₁, b₁, a₂, b₂]

omit [DecidableEq K] in
/-- Inserting at a cut. -/
theorem insertKey_of_cut {k : K} {v : V} {m₁ m₂ : List (K × V)}
    (h₁ : ∀ e ∈ m₁, e.1 < k) (h₂ : ∀ e ∈ m₂, k < e.1) :
    insertKey k v (m₁ ++ m₂) = m₁ ++ (k, v) :: m₂ := by
  simpa [insertKey] using insertKey_append (m := []) (v := v) h₁ h₂

omit [DecidableEq K] in
/-- Inserting in the place of the pair with the same key. -/
theorem insertKey_of_mem {k : K} {v v₀ : V} {m₁ m₂ : List (K × V)}
    (h₁ : ∀ e ∈ m₁, e.1 < k) (h₂ : ∀ e ∈ m₂, k < e.1) :
    insertKey k v (m₁ ++ (k, v₀) :: m₂) = m₁ ++ (k, v) :: m₂ := by
  simpa [insertKey] using insertKey_append (m := [(k, v₀)]) (v := v) h₁ h₂

/-- Erasing from a list cut at `k` changes only the part in the middle. -/
theorem erase_append {k : K} {m₁ m m₂ : List (K × V)}
    (h₁ : ∀ e ∈ m₁, e.1 < k) (h₂ : ∀ e ∈ m₂, k < e.1) :
    erase k (m₁ ++ m ++ m₂) = m₁ ++ erase k m ++ m₂ := by
  have a₁ : m₁.filter (fun e => e.1 ≠ k) = m₁ :=
    List.filter_eq_self.2 fun e he => by simpa using (h₁ e he).ne
  have a₂ : m₂.filter (fun e => e.1 ≠ k) = m₂ :=
    List.filter_eq_self.2 fun e he => by simpa using (h₂ e he).ne'
  simp only [erase, List.filter_append, a₁, a₂]

/-- A list sorted by key. -/
def sort (m : List (K × V)) : List (K × V) := m.insertionSort fun a b => a.1 ≤ b.1

omit [DecidableEq K] in
theorem sort_perm (m : List (K × V)) : (sort m).Perm m := List.perm_insertionSort _ _

omit [DecidableEq K] in
theorem pairwise_keys_sort (m : List (K × V)) : (keys (sort m)).Pairwise (· ≤ ·) :=
  List.pairwise_map.2 (List.pairwise_insertionSort (fun a b : K × V => a.1 ≤ b.1) m)

omit [DecidableEq K] in
/-- Two sorted lists with the same pairs are the same list. -/
theorem Sorted.eq_of_perm {m m' : List (K × V)} (h : Sorted m) (h' : Sorted m')
    (hp : m.Perm m') : m = m' := by
  refine hp.eq_of_pairwise (fun a b _ _ (hab : a.1 < b.1) (hba : b.1 < a.1) => ?_) ?_ ?_
  · exact absurd hba hab.not_gt
  · exact List.pairwise_map.1 h
  · exact List.pairwise_map.1 h'

/-- Two sorted lists with the same lookups are the same list. -/
theorem Sorted.eq_of_lookup {m m' : List (K × V)} (h : Sorted m) (h' : Sorted m')
    (hl : ∀ k, m.lookup k = m'.lookup k) : m = m' := by
  refine h.eq_of_perm h' ((List.perm_ext_iff_of_nodup h.nodup.of_map h'.nodup.of_map).2
    fun ⟨k, v⟩ => ?_)
  rw [mem_iff_lookup h.nodup, mem_iff_lookup h'.nodup, hl]

/-- A list without repeated keys is, once sorted, the sorted list with the same
    lookups. -/
theorem sort_eq {m m' : List (K × V)} (h : (keys m).Nodup) (h' : Sorted m')
    (hl : ∀ k, m.lookup k = m'.lookup k) : sort m = m' := by
  have hp : (sort m).Perm m := sort_perm m
  have hn : (keys (sort m)).Nodup := (hp.map Prod.fst).nodup_iff.2 h
  have hs : Sorted (sort m) :=
    (pairwise_keys_sort m).imp₂ (fun _ _ hle hne => lt_of_le_of_ne hle hne) hn
  refine hs.eq_of_lookup h' fun k => ?_
  rw [← hl]
  ext v
  rw [← mem_iff_lookup hn, ← mem_iff_lookup h, hp.mem_iff]

end ComputeContract.AssocList
