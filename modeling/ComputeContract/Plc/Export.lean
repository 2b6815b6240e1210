import ComputeContract.Lib.Except
import ComputeContract.Lib.Pages
import ComputeContract.Plc.Directory

/-!
# The export of the directory

All entries of the logs in the order of their times, read by `exportPages` in pages: the
next page is what was created after the last entry of the page before, and the last page is
one that is shorter than the pages that were asked for. The directory gives 1000 entries at
most, whatever it is asked for.

* `exportPages_complete_iff`: when every entry is read once.
-/

namespace ComputeContract.Plc

open Pages

/-- An entry with the time it was created, in milliseconds: its ISO texts are in the order
    of the times. -/
structure StampedEntry extends LogEntry where
  createdAt : ℤ

/-- The logs of the dids, as `MemoryPlcStore` has them. -/
abbrev StampedStore := List (String × List StampedEntry)

/-! ## The directory -/

def allEntries (store : StampedStore) : List StampedEntry := store.flatMap Prod.snd

def byCreatedAt (a b : StampedEntry) : Prop := a.createdAt ≤ b.createdAt

instance : DecidableRel byCreatedAt := fun a b => inferInstanceAs (Decidable (a.createdAt ≤ b.createdAt))

instance : IsTrans StampedEntry byCreatedAt := ⟨fun _ _ _ => Int.le_trans⟩

instance : Std.Total byCreatedAt := ⟨fun a b => Int.le_total a.createdAt b.createdAt⟩

/-- Was created after the time, if there is one. -/
def isAfter (after : Option ℤ) (entry : StampedEntry) : Bool := after.all (· < entry.createdAt)

def exportLogs (store : StampedStore) (after : Option ℤ) (count : Option ℕ) : List StampedEntry :=
  let all := ((allEntries store).filter (isAfter after)).insertionSort byCreatedAt
  match count with
  | some count => all.take count
  | none => all

/-- The parameter `after`: `none` when it is not there, `some none` when it is no date. -/
def readAfter : Option (Option ℤ) → Except String (Option ℤ)
  | none => .ok none
  | some none => .error "Invalid Query Parameter: after"
  | some (some after) => .ok (some after)

/-- The parameter `count`: `none` when it is not there, `some none` when it is no number. -/
def readCount : Option (Option ℤ) → Except String (Option ℕ)
  | none => .ok none
  | some none => .error "Invalid Query Parameter: count"
  | some (some count) =>
    if count < 0 then .error "Invalid Query Parameter: count" else .ok (some (min count.toNat 1000))

def handleExport (store : StampedStore) (after count : Option (Option ℤ)) :
    Except String (List StampedEntry) := do
  let after ← readAfter after
  let count ← readCount count
  return exportLogs store after count

/-! ## The client -/

/-- `parseInt` of the text of a number: up to `10 ^ 21` the text has all its digits, from
    there on an exponent, before which there is one digit. -/
structure CountText where
  parse : ℕ → ℕ
  parse_of_lt : ∀ n, n < 10 ^ 21 → parse n = n
  parse_of_le : ∀ n, 10 ^ 21 ≤ n → parse n < 10

variable (text : CountText) (store : StampedStore)

/-- One page: `export({ after, count })`. -/
def exportPage (after : Option ℤ) (count : ℕ) : Except String (List StampedEntry) :=
  handleExport store (after.map some) (some (some (text.parse count)))

/-- The loop of `exportPages`; `none` when the fuel runs out. -/
def exportPages (pageSize : ℕ) : ℕ → Option ℤ → Option (Except String (List (List StampedEntry)))
  | 0, _ => none
  | fuel + 1, after =>
    match exportPage text store after pageSize with
    | .error e => some (.error e)
    | .ok page =>
      match page.getLast? with
      | none => some (.ok [])
      | some last =>
        if page.length < pageSize then some (.ok [page])
        else (exportPages pageSize fuel (some last.createdAt)).map fun rest => rest.map (page :: ·)

/-! ## What is exported -/

/-- The pages are every entry once, in the order of their times. -/
structure Complete (pages : List (List StampedEntry)) : Prop where
  perm : pages.flatten.Perm (allEntries store)
  sorted : pages.flatten.Pairwise byCreatedAt

/-- The entries, in the order of their times. -/
def sortedEntries : List StampedEntry := (allEntries store).insertionSort byCreatedAt

/-- No two entries at the end of a page and behind it have the same time; a page that is
    asked for and is longer than those of the directory takes them all. -/
def Exportable (pageSize : ℕ) : Prop :=
  if pageSize ≤ 1000 then NoTie StampedEntry.createdAt pageSize (sortedEntries store)
  else (allEntries store).length ≤ min (text.parse pageSize) 1000

variable {text store} {pageSize : ℕ}

/-- The entries that are left after the time. -/
def entriesAfter (store : StampedStore) (after : Option ℤ) : List StampedEntry :=
  (sortedEntries store).filter (isAfter after)

theorem exportPage_eq (after : Option ℤ) (count : ℕ) : exportPage text store after count =
    .ok ((entriesAfter store after).take (min (text.parse count) 1000)) := by
  have hafter : readAfter (after.map some) = .ok after := by cases after <;> rfl
  have hcount : readCount (some (some (text.parse count))) =
      .ok (some (min (text.parse count) 1000)) := by
    rw [readCount, if_neg (by omega), Int.toNat_natCast]
  rw [exportPage, handleExport, hafter, hcount, entriesAfter, sortedEntries, filter_insertionSort]
  rfl

/-- What is left after the last entry of a page. -/
theorem entriesAfter_last (after : Option ℤ) {last : StampedEntry}
    (h : last ∈ entriesAfter store after) : entriesAfter store (some last.createdAt) =
      later StampedEntry.createdAt last (entriesAfter store after) := by
  have hlast : isAfter after last := (List.mem_filter.1 h).2
  rw [entriesAfter, entriesAfter, later, List.filter_filter]
  refine List.filter_congr fun entry _ => ?_
  rw [Bool.eq_iff_iff, Bool.and_eq_true, decide_eq_true_eq]
  cases after with
  | none => simp [isAfter]
  | some t =>
    simp only [isAfter, Option.all_some, decide_eq_true_eq] at hlast ⊢
    omega

/-- The loop reads the sorted entries in pages. -/
theorem exportPages_eq (after : Option ℤ) (fuel : ℕ) : exportPages text store pageSize fuel after =
    (readPages StampedEntry.createdAt (min (text.parse pageSize) 1000) pageSize fuel
      (entriesAfter store after)).map .ok := by
  induction fuel generalizing after with
  | zero => rfl
  | succ fuel ih =>
    rw [exportPages, exportPage_eq, readPages]
    dsimp only
    cases hlast : ((entriesAfter store after).take (min (text.parse pageSize) 1000)).getLast? with
    | none => rfl
    | some last =>
      have hmem := List.mem_of_mem_take (List.mem_of_getLast? hlast)
      dsimp only
      split_ifs
      · rfl
      · rw [ih, entriesAfter_last after hmem, Option.map_map, Option.map_map]
        rfl

theorem entriesAfter_none : entriesAfter store none = sortedEntries store :=
  List.filter_eq_self.2 fun _ _ => rfl

theorem perm_sortedEntries : (sortedEntries store).Perm (allEntries store) :=
  List.perm_insertionSort ..

theorem pairwise_sortedEntries : (sortedEntries store).Pairwise byCreatedAt :=
  List.pairwise_insertionSort ..

/-- Pages without a repetition are complete when they are all the sorted entries. -/
theorem complete_iff {pages : List (List StampedEntry)}
    (h : pages.flatten.Sublist (sortedEntries store)) :
    Complete store pages ↔ pages.flatten = sortedEntries store := by
  constructor
  · intro hcomplete
    exact h.eq_of_length_le (hcomplete.perm.trans perm_sortedEntries.symm).length_eq.ge
  · intro heq
    exact ⟨heq ▸ perm_sortedEntries, heq ▸ pairwise_sortedEntries⟩

/-- A first page that is shorter than what was asked for is the only one. -/
theorem readPages_of_lt {k : ℕ} (hk : k < pageSize) {l : List StampedEntry} {fuel : ℕ}
    {pages : List (List StampedEntry)}
    (h : readPages StampedEntry.createdAt k pageSize fuel l = some pages) :
    pages.flatten = l.take k := by
  cases fuel with
  | zero => cases h
  | succ fuel =>
    have hlen : (l.take k).length < pageSize := (List.length_take_le k l).trans_lt hk
    rw [readPages] at h
    split at h
    · rename_i hnil
      cases h
      rw [List.getLast?_eq_none_iff.1 hnil]
      rfl
    · rw [if_pos hlen] at h
      cases h
      simp

/-- The reading of the export ends, and gives every entry once exactly when it is
    `Exportable`. -/
theorem exportPages_complete_iff (text : CountText) (store : StampedStore) (pageSize : ℕ)
    (hsize : 1 ≤ pageSize) : ∃ pages,
      (∀ fuel, (allEntries store).length < fuel →
        exportPages text store pageSize fuel none = some (.ok pages)) ∧
      (Complete store pages ↔ Exportable text store pageSize) := by
  have hlength := (@perm_sortedEntries store).length_eq
  set k := min (text.parse pageSize) 1000 with hk
  obtain ⟨pages, hpages⟩ := Option.isSome_iff_exists.1
    (@readPages_isSome _ _ _ StampedEntry.createdAt k pageSize (sortedEntries store) _
      (Nat.lt_succ_self _))
  refine ⟨pages, fun fuel hfuel => ?_, ?_⟩
  · rw [exportPages_eq, entriesAfter_none, readPages_mono (by omega) hpages]
    rfl
  · rw [complete_iff (flatten_sublist pairwise_sortedEntries hpages), Exportable]
    split_ifs with hle
    · have hparse : k = pageSize := by
        rw [hk, text.parse_of_lt pageSize (by omega)]
        exact Nat.min_eq_left hle
      rw [hparse] at hpages
      exact readPages_flatten_iff hsize pairwise_sortedEntries hpages
    · rw [readPages_of_lt (by omega) hpages, List.take_eq_self_iff, hlength]

/-! ## Two entries of one time -/

def sampleText : CountText where
  parse n := if n < 10 ^ 21 then n else 1
  parse_of_lt _ h := if_pos h
  parse_of_le n h := by
    rw [if_neg (by omega)]
    omega

/-- An operation of the did, created at the time. -/
def sampleStamped (did : String) (createdAt : ℤ) : StampedEntry :=
  ⟨⟨did, .object [], "bafy", false⟩, createdAt⟩

/-- Two dids, each created at a time. -/
def sampleLogs (a b : ℤ) : StampedStore :=
  [("did:plc:a", [sampleStamped "did:plc:a" a]), ("did:plc:b", [sampleStamped "did:plc:b" b])]

/-- The same entries, read one by one and at once. -/
theorem exportPages_complete_sample : 1 ≤ 1 ∧ ∃ pages,
    (∀ fuel, (allEntries (sampleLogs 2 1)).length < fuel →
      exportPages sampleText (sampleLogs 2 1) 1 fuel none = some (.ok pages)) ∧
    (Complete (sampleLogs 2 1) pages ↔ Exportable sampleText (sampleLogs 2 1) 1) :=
  ⟨le_rfl, exportPages_complete_iff sampleText (sampleLogs 2 1) 1 le_rfl⟩

/-- In pages of one, the second of two entries of one time is not read. -/
theorem exportPages_not_complete : ¬ ∀ (text : CountText) (store : StampedStore) (pageSize : ℕ),
    1 ≤ pageSize → ∃ pages, (∀ fuel, (allEntries store).length < fuel →
      exportPages text store pageSize fuel none = some (.ok pages)) ∧ Complete store pages := by
  intro h
  obtain ⟨pages, hpages, hcomplete⟩ := h sampleText (sampleLogs 1 1) 1 le_rfl
  have hread : exportPages sampleText (sampleLogs 1 1) 1 3 none =
      some (.ok [[sampleStamped "did:plc:a" 1]]) := rfl
  have hpages := hpages 3 (by decide)
  rw [hread] at hpages
  cases hpages
  exact absurd hcomplete.perm.length_eq (by decide)

end ComputeContract.Plc
