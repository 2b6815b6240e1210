import Mathlib.Data.Fintype.EquivFin
import Mathlib.Data.Set.Finite.Basic
import ComputeContract.Lib.AssocList

/-!
# Walking a map that changes

A map is read in pages, each from a cursor on: the key at which the page before it ended, which
is read with the next page. Between two pages the map may change, so that there is one map for each
page (`m i`).

* `walk_ends`: the cursors rise, so that the walk ends where there are finitely many of them;
* `walked_of_eq`: what is walked is in order, and has every key that is there throughout.
-/

namespace ComputeContract.Walk

open AssocList

variable {K V ε : Type*}

/-- The pages from the `i`-th one on, up to the one without a cursor or one that throws; `none` when
    the fuel runs out. -/
def walk (read : ℕ → Option K → Except ε (List V × Option K)) :
    ℕ → ℕ → Option K → Option (Except ε (List (List V)))
  | 0, _, _ => none
  | fuel + 1, i, cursor =>
    match read i cursor with
    | .error e => some (.error e)
    | .ok (page, none) => some (.ok [page])
    | .ok (page, some next) => (walk read fuel (i + 1) (some next)).map (Except.map (page :: ·))

variable {read : ℕ → Option K → Except ε (List V × Option K)}

/-! ## The walk ends -/

/-- What is thrown is thrown by a page. -/
theorem walk_error {fuel i : ℕ} {cursor : Option K} {e : ε}
    (h : walk read fuel i cursor = some (.error e)) : ∃ j cursor', read j cursor' = .error e := by
  induction fuel generalizing i cursor with
  | zero => cases h
  | succ fuel ih =>
    rw [walk] at h
    split at h
    · obtain rfl := Except.error.inj (Option.some.inj h)
      exact ⟨i, cursor, by assumption⟩
    · cases h
    · obtain ⟨result, hrest, hmap⟩ := Option.map_eq_some_iff.1 h
      cases result with
      | error e' =>
        obtain rfl := Except.error.inj hmap
        exact ih hrest
      | ok pages => cases hmap

variable [LinearOrder K]

/-- A page ends at a key of `keys`, behind the cursor. -/
def Rises (valid : Set K) (read : ℕ → Option K → Except ε (List V × Option K)) : Prop :=
  ∀ i cursor page next, read i cursor = .ok (page, some next) →
    next ∈ valid ∧ ∀ key ∈ cursor, key < next

/-- The walk ends from every cursor, by induction on the keys behind it. -/
theorem walk_ends {valid : Set K} (hfinite : valid.Finite) (hrises : Rises valid read) (i : ℕ)
    (cursor : Option K) : ∃ fuel, (walk read fuel i cursor).isSome := by
  have hbehind : ∀ cursor : Option K, {key ∈ valid | ∀ c ∈ cursor, c < key}.Finite :=
    fun cursor => hfinite.subset (Set.sep_subset _ _)
  induction hn : (hbehind cursor).toFinset.card using Nat.strong_induction_on
    generalizing i cursor with | h n ih => ?_
  cases hread : read i cursor with
  | error e => exact ⟨1, by rw [walk, hread]; rfl⟩
  | ok result =>
    obtain ⟨page, _ | next⟩ := result
    · exact ⟨1, by rw [walk, hread]; rfl⟩
    · obtain ⟨hvalid, hlt⟩ := hrises i cursor page next hread
      have hfewer : (hbehind (some next)).toFinset.card < n := by
        rw [← hn]
        refine Finset.card_lt_card (Finset.ssubset_iff_of_subset ?_ |>.2 ⟨next, ?_, ?_⟩)
        · intro key hkey
          simp only [Set.Finite.mem_toFinset, Set.mem_ofPred_eq, Option.mem_def,
            Option.some.injEq, forall_eq'] at hkey ⊢
          exact ⟨hkey.1, fun c hc => (hlt c hc).trans hkey.2⟩
        · simpa using ⟨hvalid, hlt⟩
        · simp
      obtain ⟨fuel, hfuel⟩ := ih _ hfewer (i + 1) (some next) rfl
      exact ⟨fuel + 1, by rw [walk, hread]; simpa using hfuel⟩

/-! ## What is walked -/

/-- A page of a map: the entries from the cursor on, before the next one. -/
structure IsPage (m : K → Option V) (cursor : Option K) (page : List (K × V)) (next : Option K) :
    Prop where
  sorted : Sorted page
  mem_iff : ∀ key value, (key, value) ∈ page ↔
    m key = some value ∧ (∀ c ∈ cursor, c ≤ key) ∧ ∀ c ∈ next, key < c

/-- The entries that are walked from a cursor on: in order, each of the map of its page, and every
    key among them that is there throughout. -/
structure Walked (m : ℕ → K → Option V) (i : ℕ) (cursor : Option K) (pages : List (List V))
    (entries : List (K × V)) : Prop where
  values : pages.flatten = entries.map Prod.snd
  sorted : Sorted entries
  mem : ∀ e ∈ entries, (∀ c ∈ cursor, c ≤ e.1) ∧ ∃ j < pages.length, m (i + j) e.1 = some e.2
  complete : ∀ key, (∀ c ∈ cursor, c ≤ key) → (∀ j < pages.length, (m (i + j) key).isSome) →
    key ∈ keys entries

/-- What is walked, when the cursors rise and every page is one of its map. -/
theorem walked_of_eq {valid : Set K} (hrises : Rises valid read) {m : ℕ → K → Option V}
    (hpage : ∀ i cursor page next, read i cursor = .ok (page, next) →
      ∃ entries, page = entries.map Prod.snd ∧ IsPage (m i) cursor entries next)
    {fuel i : ℕ} {cursor : Option K} {pages : List (List V)}
    (h : walk read fuel i cursor = some (.ok pages)) : ∃ entries, Walked m i cursor pages entries := by
  induction fuel generalizing i cursor pages with
  | zero => cases h
  | succ fuel ih =>
    rw [walk] at h
    split at h
    · cases h
    · rename_i page hread
      obtain rfl := Except.ok.inj (Option.some.inj h)
      obtain ⟨entries, rfl, hentries⟩ := hpage i cursor _ _ hread
      refine ⟨entries, by simp, hentries.sorted, fun e he => ?_, fun key hcursor hall => ?_⟩
      · obtain ⟨hm, hc, -⟩ := (hentries.mem_iff e.1 e.2).1 he
        exact ⟨hc, 0, by simp, hm⟩
      · obtain ⟨value, hm⟩ := Option.isSome_iff_exists.1 (hall 0 (by simp))
        exact mem_keys_of_mem ((hentries.mem_iff key value).2 ⟨hm, hcursor, by simp⟩)
    · rename_i page next hread
      obtain ⟨result, hrest, hmap⟩ := Option.map_eq_some_iff.1 h
      cases result with
      | error e => cases hmap
      | ok rest =>
        obtain rfl := Except.ok.inj hmap
        obtain ⟨entries, rfl, hentries⟩ := hpage i cursor _ _ hread
        obtain ⟨-, hlt⟩ := hrises i cursor _ next hread
        obtain ⟨entries', hvalues, hsorted, hmem, hcomplete⟩ := ih hrest
        -- The page ends before the next one, where the rest begins.
        have hbefore : ∀ a ∈ keys entries, a < next := by
          intro a ha
          obtain ⟨value, ha⟩ := mem_keys.1 ha
          exact ((hentries.mem_iff a value).1 ha).2.2 next rfl
        have hfrom : ∀ b ∈ keys entries', next ≤ b := by
          intro b hb
          obtain ⟨value, hb⟩ := mem_keys.1 hb
          exact (hmem _ hb).1 next rfl
        refine ⟨entries ++ entries', ?_, sorted_append.2 ⟨hentries.sorted, hsorted,
          fun a ha b hb => (hbefore a ha).trans_le (hfrom b hb)⟩, fun e he => ?_,
          fun key hcursor hall => ?_⟩
        · rw [List.flatten_cons, hvalues, List.map_append]
        · rcases List.mem_append.1 he with he | he
          · obtain ⟨hm, hc, -⟩ := (hentries.mem_iff e.1 e.2).1 he
            exact ⟨hc, 0, by simp, hm⟩
          · obtain ⟨hnext, j, hj, hm⟩ := hmem e he
            refine ⟨fun c hc => ((hlt c hc).le).trans (hnext next rfl), j + 1, ?_, ?_⟩
            · rw [List.length_cons]
              omega
            · rw [← hm, Nat.add_right_comm, Nat.add_assoc]
        · rw [keys_append, List.mem_append]
          by_cases hkey : key < next
          · obtain ⟨value, hm⟩ := Option.isSome_iff_exists.1 (hall 0 (by simp))
            refine .inl (mem_keys_of_mem ((hentries.mem_iff key value).2 ⟨hm, hcursor, ?_⟩))
            rintro c ⟨⟩
            exact hkey
          · refine .inr (hcomplete key ?_ fun j hj => ?_)
            · rintro c ⟨⟩
              exact not_lt.1 hkey
            · rw [Nat.add_right_comm, Nat.add_assoc]
              refine hall (j + 1) ?_
              rw [List.length_cons]
              omega

end ComputeContract.Walk
