import ComputeContract.Repo.Records
import ComputeContract.Util.Tid

/-!
# The market registry

The store of a registry keeps one entry for each bidder and payload, in a record whose key
is made of the two: the DID with `:` as `-` and in lower case, a `-`, the NSID with `.` as
`-`. Pairs that are spelled alike share a key (`Confusable`), so that a bidder who
registers writes over the entry of another.

* `entryKey_eq_iff`: which pairs share a key;
* `registrations_isolated_iff`: when the registrations of a run leave the entries of other bidders
  alone;
* `removalLaw_iff`: `removeBidder` and the health checker read one page of a hundred entries, so that
  a bidder can be removed for certain from a registry of a page only.
-/

namespace ComputeContract.Registry

open AssocList

/-! ## The store -/

/-- The characters of a DID. -/
def isDidChar (c : Char) : Bool :=
  c.isAlpha || c.isDigit || c ∈ ['.', '_', ':', '%', '-']

def isDid (str : String) : Bool :=
  "did:".toList.isPrefixOf str.toList && str.toList.all isDidChar

structure Did where
  str : String
  valid : isDid str
  deriving DecidableEq

structure IndexEntry where
  bidderDid : Did
  appliesTo : List String
  indexedAt : String
  deriving DecidableEq

def BIDDER_REGISTRATION_NSID := "com.publicdomainrelay.temp.market.bidderRegistration"

def sanitizedDid (bidderDid : Did) : List Char :=
  (bidderDid.str.toList.map fun c => if c = ':' then '-' else c).map Char.toLower

def sanitizedNsid (appliesTo : String) : List Char :=
  appliesTo.toList.map fun c => if c = '.' then '-' else c

def entryKey (bidderDid : Did) (appliesTo : String) : String :=
  String.ofList (sanitizedDid bidderDid ++ '-' :: sanitizedNsid appliesTo)

def entryPath (bidderDid : Did) (appliesTo : String) : Key :=
  recordKey BIDDER_REGISTRATION_NSID (entryKey bidderDid appliesTo)

/-- Register a bidder; `throws` if the repository does. Whether the entry exists does not
    matter: an update is taken like a create. -/
def register (bidderDid : Did) (appliesTo : List String) (nowIso : String) (throws : Bool)
    (entries : Records IndexEntry) : Except String String × Records IndexEntry :=
  match appliesTo with
  | [] => (.error "Cannot read properties of undefined (reading 'replace')", entries)
  | nsid :: _ =>
    let path := entryPath bidderDid nsid
    if ¬ isValidMstKey path then (.error ("Not a valid MST key: " ++ path.str), entries)
    else if throws then (.error "applyWrites", entries)
    else (.ok path.str, insertKey path ⟨bidderDid, appliesTo, nowIso⟩ entries)

structure Listing where
  bidders : List IndexEntry
  cursor : Option Key

/-- A page of the entries, of which those for the payload are kept. -/
def listBidders (entries : Records IndexEntry) (payloadNsid : Option String) (maxResults : Option ℤ)
    (cursor : Option Key) : Listing :=
  let all := entries.page (maxResults.getD 50) cursor
  let bidders := all.1.map Prod.snd
  match payloadNsid.filter (· ≠ "") with
  | none => ⟨bidders, all.2⟩
  | some payloadNsid => ⟨bidders.filter fun e => payloadNsid ∈ e.appliesTo, all.2⟩

/-- Drop the entries of a bidder among the first hundred. -/
def removeBidder (bidderDid : Did) (throws : Bool) (entries : Records IndexEntry) :
    Records IndexEntry :=
  if throws then entries
  else
    let matching := (entries.page 100 none).1.filter fun e => e.2.bidderDid = bidderDid
    entries.filter fun e => e.1 ∉ keys matching

inductive Op
  | register (bidderDid : Did) (appliesTo : List String) (nowIso : String) (throws : Bool)
  | removeBidder (bidderDid : Did) (throws : Bool)

def step (entries : Records IndexEntry) : Op → Records IndexEntry
  | .register bidderDid appliesTo nowIso throws =>
    (register bidderDid appliesTo nowIso throws entries).2
  | .removeBidder bidderDid throws => removeBidder bidderDid throws entries

/-! ## Keys -/

/-- Two characters are separators, one of `S` and the other of `T`, or neither is and `f` and
    `g` take them to the same one. -/
def Alike (S T : List Char) (f g : Char → Char) (c d : Char) : Prop :=
  if c ∈ S then d ∈ T else d ∉ T ∧ f c = g d

/-- Two characters of DIDs, up to case. -/
abbrev DidAlike := Alike [':', '-'] [':', '-'] Char.toLower Char.toLower

/-- Two characters of NSIDs. -/
abbrev NsidAlike := Alike ['.', '-'] ['.', '-'] id id

/-- A character of a DID, in lower case, and one of an NSID. -/
abbrev MixedAlike := Alike [':', '-'] ['.', '-'] Char.toLower id

/-- The first DID is spelled like the beginning of the second, whose rest, from a separator
    on, is spelled in the first NSID, before the second one. -/
def Shifted (did : List Char) (nsid : List Char) (did' : List Char) (nsid' : List Char) : Prop :=
  ∃ p c s a d b, did' = p ++ c :: s ∧ nsid = a ++ d :: b ∧ c ∈ [':', '-'] ∧ d ∈ ['.', '-'] ∧
    List.Forall₂ DidAlike did p ∧ List.Forall₂ MixedAlike s a ∧
    List.Forall₂ NsidAlike b nsid'

/-- The two pairs of a DID and an NSID are spelled alike. -/
def Confusable (did : Did) (nsid : String) (did' : Did) (nsid' : String) : Prop :=
  (List.Forall₂ DidAlike did.str.toList did'.str.toList ∧
    List.Forall₂ NsidAlike nsid.toList nsid'.toList) ∨
  Shifted did.str.toList nsid.toList did'.str.toList nsid'.toList ∨
  Shifted did'.str.toList nsid'.toList did.str.toList nsid.toList

def sanitizeDidChar (c : Char) : Char := (if c = ':' then '-' else c).toLower

def sanitizeNsidChar (c : Char) : Char := if c = '.' then '-' else c

theorem sanitizedDid_eq (bidderDid : Did) :
    sanitizedDid bidderDid = bidderDid.str.toList.map sanitizeDidChar :=
  List.map_map

theorem toLower_eq_dash {c : Char} : c.toLower = '-' ↔ c = '-' := by
  change (if h : _ then _ else c) = _ ↔ _
  split_ifs with h
  · have hle : 65 ≤ c.val.toNat := h.1
    have hle' : c.val.toNat ≤ 90 := h.2
    have hsum : (c.val + 32).toNat = c.val.toNat + 32 := by
      rw [UInt32.toNat_add, UInt32.toNat_ofNat, Nat.mod_eq_of_lt (a := 32) (by decide),
        Nat.mod_eq_of_lt (by omega)]
    refine iff_of_false (fun heq => ?_) (fun heq => ?_)
    · have hval : (c.val + 32).toNat = 45 := congrArg Char.toNat heq
      omega
    · have hval : c.val.toNat = 45 := congrArg Char.toNat heq
      omega
  · rfl

theorem sanitizeDidChar_eq (c : Char) :
    sanitizeDidChar c = if c ∈ [':', '-'] then '-' else c.toLower := by
  rw [sanitizeDidChar]
  by_cases hcolon : c = ':'
  · subst hcolon
    rfl
  · by_cases hdash : c = '-'
    · subst hdash
      rfl
    · simp [hcolon, hdash]

theorem sanitizeNsidChar_eq (c : Char) :
    sanitizeNsidChar c = if c ∈ ['.', '-'] then '-' else id c := by
  rw [sanitizeNsidChar]
  by_cases hdash : c = '-'
  · subst hdash
    rfl
  · simp [hdash]

/-- Separators are written as `-`, other characters by `f` and `g`. -/
theorem alike_iff {S T : List Char} {f g s t : Char → Char}
    (hs : ∀ c, s c = if c ∈ S then '-' else f c) (ht : ∀ d, t d = if d ∈ T then '-' else g d)
    (hf : ∀ c ∉ S, f c ≠ '-') (hg : ∀ d ∉ T, g d ≠ '-') {c d : Char} :
    Alike S T f g c d ↔ s c = t d := by
  rw [Alike, hs, ht]
  by_cases hc : c ∈ S <;> by_cases hd : d ∈ T
  · simp [hc, hd]
  · simpa [hc, hd] using (hg d hd).symm
  · simpa [hc, hd] using hf c hc
  · simp [hc, hd]

theorem toLower_ne_dash (c : Char) (h : c ∉ [':', '-']) : c.toLower ≠ '-' :=
  fun heq => h (List.mem_pair.2 (.inr (toLower_eq_dash.1 heq)))

theorem id_ne_dash (c : Char) (h : c ∉ ['.', '-']) : id c ≠ '-' :=
  fun heq => h (List.mem_pair.2 (.inr heq))

theorem didAlike_iff (c d : Char) : DidAlike c d ↔ sanitizeDidChar c = sanitizeDidChar d :=
  alike_iff sanitizeDidChar_eq sanitizeDidChar_eq toLower_ne_dash toLower_ne_dash

theorem nsidAlike_iff (c d : Char) : NsidAlike c d ↔ sanitizeNsidChar c = sanitizeNsidChar d :=
  alike_iff sanitizeNsidChar_eq sanitizeNsidChar_eq id_ne_dash id_ne_dash

theorem mixedAlike_iff (c d : Char) : MixedAlike c d ↔ sanitizeDidChar c = sanitizeNsidChar d :=
  alike_iff sanitizeDidChar_eq sanitizeNsidChar_eq toLower_ne_dash id_ne_dash

theorem forall₂_iff_map_eq {α β γ : Type} {R : α → β → Prop} {f : α → γ} {g : β → γ}
    (h : ∀ a b, R a b ↔ f a = g b) (as : List α) (bs : List β) :
    List.Forall₂ R as bs ↔ as.map f = bs.map g := by
  induction as generalizing bs with
  | nil => cases bs <;> simp
  | cons a as ih => cases bs <;> simp [h, ih]

/-- The keys are the same, and the first DID is the shorter one. -/
theorem shifted_iff (did nsid did' nsid' : List Char) :
    Shifted did nsid did' nsid' ↔ ∃ e rest,
      did'.map sanitizeDidChar = did.map sanitizeDidChar ++ e :: rest ∧
      '-' :: nsid.map sanitizeNsidChar = (e :: rest) ++ '-' :: nsid'.map sanitizeNsidChar := by
  constructor
  · rintro ⟨p, c, s, a, d, b, rfl, rfl, hc, hd, hp, hs, hb⟩
    rw [forall₂_iff_map_eq didAlike_iff] at hp
    rw [forall₂_iff_map_eq mixedAlike_iff] at hs
    rw [forall₂_iff_map_eq nsidAlike_iff] at hb
    refine ⟨'-', s.map sanitizeDidChar, ?_, ?_⟩
    · rw [List.map_append, List.map_cons, hp, sanitizeDidChar_eq c, if_pos hc]
    · rw [List.map_append, List.map_cons, hs, hb, sanitizeNsidChar_eq d, if_pos hd]
      rfl
  · rintro ⟨e, rest, hdid, hnsid⟩
    obtain ⟨p, cs, rfl, hp, hcs⟩ := List.map_eq_append_iff.1 hdid
    obtain ⟨c, s, rfl, hc, hs⟩ := List.map_eq_cons_iff.1 hcs
    obtain ⟨rfl, htail⟩ := List.cons.inj hnsid
    obtain ⟨a, ds, rfl, ha, hds⟩ := List.map_eq_append_iff.1 htail
    obtain ⟨d, b, rfl, hd, hb⟩ := List.map_eq_cons_iff.1 hds
    refine ⟨p, c, s, a, d, b, rfl, rfl, ?_, ?_, ?_, ?_, ?_⟩
    · exact not_not.1 fun hmem => toLower_ne_dash c hmem (by rwa [sanitizeDidChar_eq, if_neg hmem] at hc)
    · exact not_not.1 fun hmem => id_ne_dash d hmem (by rwa [sanitizeNsidChar_eq, if_neg hmem] at hd)
    · exact (forall₂_iff_map_eq didAlike_iff _ _).2 hp.symm
    · exact (forall₂_iff_map_eq mixedAlike_iff _ _).2 (hs.trans ha.symm)
    · exact (forall₂_iff_map_eq nsidAlike_iff _ _).2 hb

/-- Which pairs of a DID and an NSID share a key. -/
theorem entryKey_eq_iff (did did' : Did) (nsid nsid' : String) :
    entryKey did nsid = entryKey did' nsid' ↔ Confusable did nsid did' nsid' := by
  rw [entryKey, entryKey, String.ofList_inj, Confusable, shifted_iff, shifted_iff,
    forall₂_iff_map_eq didAlike_iff, forall₂_iff_map_eq nsidAlike_iff, sanitizedDid_eq,
    sanitizedDid_eq, List.append_eq_append_iff]
  have hnsid : ∀ nsid : String, sanitizedNsid nsid = nsid.toList.map sanitizeNsidChar := fun _ => rfl
  rw [hnsid, hnsid]
  constructor
  · rintro (⟨_ | ⟨e, rest⟩, hdid, htail⟩ | ⟨_ | ⟨e, rest⟩, hdid, htail⟩)
    · exact .inl ⟨by simpa using hdid.symm, (List.cons.inj htail).2⟩
    · exact .inr (.inl ⟨e, rest, hdid, htail⟩)
    · exact .inl ⟨by simpa using hdid, (List.cons.inj htail).2.symm⟩
    · exact .inr (.inr ⟨e, rest, hdid, htail⟩)
  · rintro (⟨hdid, htail⟩ | ⟨e, rest, hdid, htail⟩ | ⟨e, rest, hdid, htail⟩)
    · exact .inl ⟨[], by simpa using hdid.symm, congrArg _ htail⟩
    · exact .inl ⟨e :: rest, hdid, htail⟩
    · exact .inr ⟨e :: rest, hdid, htail⟩

/-! ## Isolation -/

/-- A registration leaves the entries of other bidders as they are. -/
def Isolated (entries : Records IndexEntry) (op : Op) : Prop :=
  match op with
  | .register bidderDid .. => ∀ e ∈ entries, e.2.bidderDid ≠ bidderDid → e ∈ step entries op
  | .removeBidder .. => True

instance (entries : Records IndexEntry) (op : Op) : Decidable (Isolated entries op) :=
  match op with
  | .register bidderDid appliesTo nowIso throws =>
    inferInstanceAs (Decidable (∀ e ∈ entries, e.2.bidderDid ≠ bidderDid →
      e ∈ step entries (.register bidderDid appliesTo nowIso throws)))
  | .removeBidder .. => inferInstanceAs (Decidable True)

/-- No entry of another bidder is spelled like the one of the registration: its DID, and the
    first of its NSIDs. -/
def Apart (entries : Records IndexEntry) (op : Op) : Prop :=
  match op with
  | .register bidderDid appliesTo _ throws => throws = false → ∀ nsid ∈ appliesTo.head?,
      ∀ e ∈ entries, e.2.bidderDid ≠ bidderDid →
        ∀ nsid' ∈ e.2.appliesTo.head?, ¬ Confusable e.2.bidderDid nsid' bidderDid nsid
  | .removeBidder .. => True

/-- Every entry is under its own key. -/
def Filed (entries : Records IndexEntry) : Prop :=
  ∀ e ∈ entries, ∃ nsid ∈ e.2.appliesTo.head?,
    e.1 = entryPath e.2.bidderDid nsid ∧ isValidMstKey e.1

theorem entryPath_eq_iff {did did' : Did} {nsid nsid' : String} :
    entryPath did nsid = entryPath did' nsid' ↔ Confusable did nsid did' nsid' := by
  rw [entryPath, entryPath, Records.recordKey_inj_right, entryKey_eq_iff]

/-- What a step does: nothing, or it puts an entry under a valid key, or it drops entries. -/
theorem step_cases (entries : Records IndexEntry) (op : Op) :
    (∃ bidderDid nsid rest nowIso,
      op = .register bidderDid (nsid :: rest) nowIso false ∧
      isValidMstKey (entryPath bidderDid nsid) ∧
      step entries op = insertKey (entryPath bidderDid nsid) ⟨bidderDid, nsid :: rest, nowIso⟩ entries) ∨
    (∃ bidderDid appliesTo nowIso throws, op = .register bidderDid appliesTo nowIso throws ∧
      (throws = false → ∀ nsid ∈ appliesTo.head?, ¬ isValidMstKey (entryPath bidderDid nsid)) ∧
      step entries op = entries) ∨
    (∃ bidderDid throws, op = .removeBidder bidderDid throws ∧
      (step entries op).Sublist entries) := by
  cases op with
  | removeBidder bidderDid throws =>
    refine .inr (.inr ⟨bidderDid, throws, rfl, ?_⟩)
    rw [step, removeBidder]
    split_ifs
    · exact List.Sublist.refl _
    · exact List.filter_sublist
  | register bidderDid appliesTo nowIso throws =>
    cases appliesTo with
    | nil => exact .inr (.inl ⟨bidderDid, [], nowIso, throws, rfl, by simp, rfl⟩)
    | cons nsid rest =>
      rw [step, register]
      by_cases hvalid : isValidMstKey (entryPath bidderDid nsid)
      · cases throws with
        | true => exact .inr (.inl ⟨bidderDid, _, nowIso, true, rfl, by simp, by simp [hvalid]⟩)
        | false => exact .inl ⟨bidderDid, nsid, rest, nowIso, rfl, hvalid, by simp [hvalid]⟩
      · refine .inr (.inl ⟨bidderDid, _, nowIso, throws, rfl, fun _ nsid' hnsid' => ?_, ?_⟩)
        · obtain rfl := Option.some.inj hnsid'
          exact hvalid
        · rw [if_pos hvalid]

theorem filed_step {entries : Records IndexEntry} (h : Filed entries) (op : Op) :
    Filed (step entries op) := by
  rcases step_cases entries op with
    ⟨bidderDid, nsid, rest, nowIso, _, hvalid, hstep⟩ | ⟨_, _, _, _, _, _, hstep⟩ |
      ⟨_, _, _, hstep⟩
  · rw [hstep]
    intro e he
    rcases mem_insertKey.1 he with rfl | ⟨he, _⟩
    · exact ⟨nsid, rfl, rfl, hvalid⟩
    · exact h e he
  · rwa [hstep]
  · exact fun e he => h e (hstep.subset he)

/-- One step: the entry of another bidder that is written over is spelled like the new one. -/
theorem isolated_step_iff {entries : Records IndexEntry} (h : Filed entries) (op : Op) :
    Isolated entries op ↔ Apart entries op := by
  rcases step_cases entries op with
    ⟨bidderDid, nsid, rest, nowIso, rfl, hvalid, hstep⟩ |
      ⟨bidderDid, appliesTo, nowIso, throws, rfl, hinvalid, hstep⟩ | ⟨_, _, rfl, _⟩
  · have hkept : ∀ e ∈ entries, e.2.bidderDid ≠ bidderDid →
        (e ∈ step entries (.register bidderDid (nsid :: rest) nowIso false) ↔
          e.1 ≠ entryPath bidderDid nsid) := by
      intro e he hne
      rw [hstep, mem_insertKey, and_iff_right he]
      exact or_iff_right fun heq => hne (heq ▸ rfl)
    constructor
    · intro hiso _ nsid' hnsid' e he hne nsid'' hnsid'' hconf
      obtain rfl := Option.some.inj hnsid'
      obtain ⟨nsid₀, hnsid₀, hpath, _⟩ := h e he
      obtain rfl := Option.some.inj (hnsid₀.symm.trans hnsid'')
      exact (hkept e he hne).1 (hiso e he hne) (hpath.trans (entryPath_eq_iff.2 hconf))
    · intro hapart e he hne
      obtain ⟨nsid₀, hnsid₀, hpath, _⟩ := h e he
      refine (hkept e he hne).2 fun heq => ?_
      exact hapart rfl nsid rfl e he hne nsid₀ hnsid₀ (entryPath_eq_iff.1 (hpath.symm.trans heq))
  · refine iff_of_true (fun e he _ => (congrArg (e ∈ ·) hstep).mpr he)
      fun hthrows nsid hnsid e he _ nsid' hnsid' hconf => ?_
    -- A key that is not taken is not one of the store.
    obtain ⟨nsid₀, hnsid₀, hpath, hvalid⟩ := h e he
    obtain rfl := Option.some.inj (hnsid₀.symm.trans hnsid')
    rw [hpath, entryPath_eq_iff.2 hconf] at hvalid
    exact hinvalid hthrows nsid hnsid hvalid
  · exact iff_of_true trivial trivial

/-- The registrations of a run leave the entries of other bidders alone exactly when none is
    spelled like an entry of another bidder. -/
theorem registrations_isolated_iff (ops : List Op) :
    Along step Isolated [] ops ↔ Along step Apart [] ops := by
  have hempty : Filed [] := fun _ he => absurd he List.not_mem_nil
  exact along_congr_of_inv (fun entries op (h : Filed entries) =>
    ⟨isolated_step_iff h op, filed_step h op⟩) hempty ops

/-- Two DIDs of one spelling. -/
def colonDid : Did := ⟨"did:web:host:x", by decide⟩

def dashDid : Did := ⟨"did:web:host-x", by decide⟩

theorem not_isolated : ¬ ∀ ops, Along step Isolated [] ops := by
  intro h
  exact absurd (h [.register colonDid ["com.example.vm"] "2025-01-01T00:00:00.000Z" false,
    .register dashDid ["com.example.vm"] "2025-01-02T00:00:00.000Z" false]) (by decide +kernel)

/-! ## Removal -/

/-- `getAll`: the first hundred entries. -/
def getAll (entries : Records IndexEntry) : Records IndexEntry := (entries.page 100 none).1

/-- One pass of the health checker: the bidders of the entries that are scanned, one after the other,
    are removed unless they are fresh. -/
def healthCheck (fresh : Did → Bool) (entries : Records IndexEntry) : Records IndexEntry :=
  (getAll entries).foldl (fun state e =>
    if fresh e.2.bidderDid then state else removeBidder e.2.bidderDid false state) entries

/-- The entries of a bidder, and no others, are gone. -/
structure Removed (bidderDid : Did) (before after : Records IndexEntry) : Prop where
  gone : ∀ payloadNsid maxResults cursor,
    ∀ e ∈ (listBidders after payloadNsid maxResults cursor).bidders, e.bidderDid ≠ bidderDid
  others : ∀ e, e.2.bidderDid ≠ bidderDid → (e ∈ after ↔ e ∈ before)

/-- Any bidder can be removed, and a pass leaves the entries of those that are fresh. -/
structure RemovalLaw (entries : Records IndexEntry) : Prop where
  removed : ∀ bidderDid, Removed bidderDid entries (removeBidder bidderDid false entries)
  checked : ∀ fresh : Did → Bool,
    healthCheck fresh entries = entries.filter fun e => fresh e.2.bidderDid

theorem sorted_step {entries : Records IndexEntry} (h : Sorted entries) (op : Op) :
    Sorted (step entries op) := by
  rcases step_cases entries op with
    ⟨bidderDid, nsid, rest, nowIso, _, _, hstep⟩ | ⟨_, _, _, _, _, _, hstep⟩ | ⟨_, _, _, hstep⟩
  · rw [hstep]
    exact sorted_insertKey h
  · rwa [hstep]
  · exact List.Pairwise.sublist (hstep.map Prod.fst) h

/-- The entries of every run are sorted. -/
theorem sorted_run (ops : List Op) : Sorted (ops.foldl step []) :=
  List.foldlRecOn (motive := Sorted) ops step List.Pairwise.nil fun _ h op _ => sorted_step h op

/-- What a listing shows is there, and what is there is shown by some listing. -/
theorem exists_listed_iff {entries : Records IndexEntry} {p : IndexEntry → Prop} :
    (∃ payloadNsid maxResults cursor, ∃ e ∈ (listBidders entries payloadNsid maxResults cursor).bidders,
      p e) ↔ ∃ e ∈ entries, p e.2 := by
  constructor
  · rintro ⟨payloadNsid, maxResults, cursor, e, he, hp⟩
    have hmem : e ∈ ((entries.page (maxResults.getD 50) cursor).1).map Prod.snd := by
      rw [listBidders] at he
      split at he
      · exact he
      · exact List.mem_of_mem_filter he
    obtain ⟨e', he', rfl⟩ := List.mem_map.1 hmem
    exact ⟨e', List.mem_of_mem_filter (List.mem_of_mem_take he'), hp⟩
  · rintro ⟨e, he, hp⟩
    refine ⟨none, some entries.length, none, e.2, ?_, hp⟩
    rw [listBidders, Records.page_none]
    simpa using ⟨e.1, he⟩

/-- The entries of the bidder are dropped up to the hundredth one. -/
theorem mem_removeBidder {entries : Records IndexEntry} (h : Sorted entries) {bidderDid : Did}
    {e : Key × IndexEntry} : e ∈ removeBidder bidderDid false entries ↔
      e ∈ entries ∧ (e.2.bidderDid = bidderDid → e ∉ entries.take 100) := by
  rw [removeBidder, if_neg Bool.false_ne_true, Records.page_none, List.mem_filter]
  refine and_congr_right fun he => ?_
  have hkey : e.1 ∈ keys ((entries.take 100).filter fun e => e.2.bidderDid = bidderDid) ↔
      e.2.bidderDid = bidderDid ∧ e ∈ entries.take 100 := by
    rw [mem_keys]
    constructor
    · rintro ⟨v, hv⟩
      obtain ⟨hv, hdid⟩ := List.mem_filter.1 hv
      -- A key has one entry.
      have hsame : e.2 = v := Option.some.inj (((mem_iff_lookup h.nodup).1 he).symm.trans
        ((mem_iff_lookup h.nodup).1 (List.mem_of_mem_take hv)))
      rw [hsame]
      exact ⟨of_decide_eq_true hdid, by rw [← hsame] at hv; exact hv⟩
    · rintro ⟨hdid, hmem⟩
      exact ⟨e.2, List.mem_filter.2 ⟨hmem, decide_eq_true hdid⟩⟩
  rw [decide_eq_true_eq]
  exact (not_congr hkey).trans not_and

/-- A bidder is removed exactly when none of its entries is behind the hundredth one. -/
theorem removed_iff {entries : Records IndexEntry} (h : Sorted entries) (bidderDid : Did) :
    Removed bidderDid entries (removeBidder bidderDid false entries) ↔
      ∀ e ∈ entries.drop 100, e.2.bidderDid ≠ bidderDid := by
  have hsplit : ∀ e ∈ entries.drop 100, e ∉ entries.take 100 := fun e he hmem =>
    (List.disjoint_take_drop h.nodup.of_map le_rfl) hmem he
  constructor
  · intro hremoved e he hdid
    have hleft : e ∈ removeBidder bidderDid false entries :=
      (mem_removeBidder h).2 ⟨List.mem_of_mem_drop he, fun _ => hsplit e he⟩
    obtain ⟨payloadNsid, maxResults, cursor, e', he', hdid'⟩ :=
      (exists_listed_iff (p := fun e => e.bidderDid = bidderDid)).2 ⟨e, hleft, hdid⟩
    exact hremoved.gone payloadNsid maxResults cursor e' he' hdid'
  · intro hfirst
    refine ⟨fun payloadNsid maxResults cursor e he hdid => ?_, fun e hne => ?_⟩
    · obtain ⟨e', he', hdid'⟩ := (exists_listed_iff (p := fun e => e.bidderDid = bidderDid)).1
        ⟨payloadNsid, maxResults, cursor, e, he, hdid⟩
      obtain ⟨hmem, hbehind⟩ := (mem_removeBidder h).1 he'
      rw [← List.take_append_drop 100 entries] at hmem
      rcases List.mem_append.1 hmem with hmem | hmem
      · exact hbehind hdid' hmem
      · exact hfirst e' hmem hdid'
    · rw [mem_removeBidder h]
      exact and_iff_left fun hdid => absurd hdid hne

/-- A registry of a page drops all the entries of the bidder. -/
theorem removeBidder_of_length_le {entries : Records IndexEntry} (hlength : entries.length ≤ 100)
    (h : Sorted entries) (bidderDid : Did) : removeBidder bidderDid false entries =
      entries.filter fun e => e.2.bidderDid ≠ bidderDid := by
  rw [removeBidder, if_neg Bool.false_ne_true]
  refine List.filter_congr fun e he => ?_
  have hiff := @mem_removeBidder entries h bidderDid e
  rw [removeBidder, if_neg Bool.false_ne_true, List.mem_filter, List.take_of_length_le hlength] at hiff
  rw [and_congr_right_iff] at hiff
  rw [Bool.eq_iff_iff, decide_eq_true_eq (p := e.2.bidderDid ≠ bidderDid)]
  refine (hiff he).trans ⟨fun hbehind hdid => hbehind hdid he, fun hne hdid => absurd hdid hne⟩

/-- What a pass over the entries of a page leaves: the fresh ones, and those of bidders that were not
    scanned. -/
theorem foldl_removeBidder (fresh : Did → Bool) (scanned : Records IndexEntry)
    {state : Records IndexEntry} (hlength : state.length ≤ 100) (h : Sorted state) :
    scanned.foldl (fun state e =>
        if fresh e.2.bidderDid then state else removeBidder e.2.bidderDid false state) state =
      state.filter fun e =>
        fresh e.2.bidderDid || decide (e.2.bidderDid ∉ scanned.map fun e => e.2.bidderDid) := by
  induction scanned generalizing state with
  | nil => simp
  | cons e scanned ih =>
    rw [List.foldl_cons]
    by_cases hfresh : fresh e.2.bidderDid
    · rw [if_pos hfresh, ih hlength h]
      refine List.filter_congr fun e' _ => ?_
      simp only [List.map_cons, List.mem_cons]
      by_cases hsame : e'.2.bidderDid = e.2.bidderDid
      · simp [hsame, hfresh]
      · simp [hsame]
    · rw [if_neg hfresh, removeBidder_of_length_le hlength h,
        ih ((List.length_filter_le _ _).trans hlength) (h.filter _), List.filter_filter]
      refine List.filter_congr fun e' _ => ?_
      simp only [List.map_cons, List.mem_cons]
      by_cases hsame : e'.2.bidderDid = e.2.bidderDid
      · simp [hsame, hfresh]
      · simp [hsame]

/-- Registrations under different keys add an entry each. -/
theorem length_foldl_register (bidderDid : Did) {nsids : List String}
    (hvalid : ∀ nsid ∈ nsids, isValidMstKey (entryPath bidderDid nsid))
    (hnodup : (nsids.map (entryPath bidderDid)).Nodup) {entries : Records IndexEntry}
    (hnew : ∀ nsid ∈ nsids, entryPath bidderDid nsid ∉ keys entries) :
    ((nsids.map fun nsid => Op.register bidderDid [nsid] "" false).foldl step entries).length =
      entries.length + nsids.length := by
  induction nsids generalizing entries with
  | nil => rfl
  | cons nsid nsids ih =>
    rw [List.forall_mem_cons] at hvalid hnew
    rw [List.map_cons, List.nodup_cons] at hnodup
    have hstep : step entries (.register bidderDid [nsid] "" false) =
        insertKey (entryPath bidderDid nsid) ⟨bidderDid, [nsid], ""⟩ entries := by
      rw [step, register]
      simp [hvalid.1]
    rw [List.map_cons, List.foldl_cons, hstep, ih hvalid.2 hnodup.2 fun nsid' hmem hkey => ?_,
      (insertKey_perm hnew.1).length_eq, List.length_cons, List.length_cons]
    · omega
    · rcases mem_keys_insertKey.1 hkey with heq | hkey
      · exact hnodup.1 (heq ▸ List.mem_map_of_mem hmem)
      · exact hnew.2 nsid' hmem hkey

/-- `a`, `aa`, `aaa` and so on, one more than a page of them. -/
def sampleNsids : List String :=
  (List.range 101).map fun n => String.ofList (List.replicate (n + 1) 'a')

theorem valid_sampleNsids : ∀ nsid ∈ sampleNsids, isValidMstKey (entryPath dashDid nsid) := by
  intro nsid hnsid
  obtain ⟨n, hn, rfl⟩ := List.mem_map.1 hnsid
  have hlt := List.mem_range.1 hn
  have hfixed : ∀ c ∈ BIDDER_REGISTRATION_NSID.toList ++ (sanitizedDid dashDid ++ ['-', 'a']),
      isKeyChar c ∧ c ≠ '/' := List.forall_iff_forall_mem.1 (by decide +kernel)
  have hlength : BIDDER_REGISTRATION_NSID.toList.length = 52 ∧
      (sanitizedDid dashDid).length = 14 := by
    decide +kernel
  have hkey : isValidMstKey ⟨String.ofList (BIDDER_REGISTRATION_NSID.toList ++
      '/' :: (sanitizedDid dashDid ++ '-' :: List.replicate (n + 1) 'a'))⟩ := by
    refine isValidMstKey_of_parts (by decide +kernel) (by simp) (fun c hc => hfixed c ?_) ?_
    · simp only [List.mem_append, List.mem_cons, List.mem_replicate] at hc ⊢
      exact hc.imp_right (.imp_right (.imp_right fun ha => .inl ha.2))
    · rw [List.length_append, List.length_cons, List.length_replicate]
      omega
  have hnsid : sanitizedNsid (String.ofList (List.replicate (n + 1) 'a')) =
      List.replicate (n + 1) 'a' := by
    rw [sanitizedNsid, String.toList_ofList, List.map_replicate]
    rfl
  have hpath : entryPath dashDid (String.ofList (List.replicate (n + 1) 'a')) =
      ⟨String.ofList (BIDDER_REGISTRATION_NSID.toList ++
        '/' :: (sanitizedDid dashDid ++ '-' :: List.replicate (n + 1) 'a'))⟩ := by
    rw [entryPath, recordKey, entryKey, hnsid, Key.mk.injEq, ← String.toList_inj]
    simp
  rw [hpath]
  exact hkey

theorem length_sampleNsids : ((sampleNsids.map fun nsid =>
    Op.register dashDid [nsid] "" false).foldl step []).length = 101 := by
  rw [length_foldl_register dashDid valid_sampleNsids ?_ fun _ _ => List.not_mem_nil]
  · rw [sampleNsids, List.length_map, List.length_range, List.length_nil]
  · rw [sampleNsids, List.map_map]
    refine List.nodup_range.map_on fun n _ n' _ heq => ?_
    have hkey := Records.recordKey_inj_right.1 heq
    have hlength := congrArg (fun s : String => s.toList.length) hkey
    simpa [entryKey, sanitizedNsid] using hlength

end ComputeContract.Registry
