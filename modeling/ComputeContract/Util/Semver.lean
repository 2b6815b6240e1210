import ComputeContract.Lib.Decimal
import ComputeContract.Util.TextOrder

/-!
# Semantic versions

A version is three numbers, identifiers of a pre-release and identifiers of a build. Versions
are compared by their numbers, a pre-release comes before its release, and pre-releases compare
by their identifiers. Of two versions the code units of their texts can say the opposite: `10` is
written before `9`, and a release is the beginning of its pre-releases.

* `Version.lt`: the order of versions;
* `Astray`: where the texts of two versions first differ, they are the other way round;
* `lt_iff_astray`: a version is above one whose text comes later exactly if it is astray of it.
-/

namespace ComputeContract.Semver

/-! ## Versions -/

/-- The characters `[0-9A-Za-z-]`. -/
def isIdentChar (c : Char) : Bool := c.isAlphanum || c = '-'

/-- An identifier with a character that is not a digit. -/
structure Alnum where
  chars : List Char
  valid : chars.all isIdentChar
  hasNonDigit : chars.any fun c => !c.isDigit
  deriving DecidableEq

/-- An identifier of a pre-release. -/
inductive Ident
  | num (n : ℕ)
  | alnum (a : Alnum)
  deriving DecidableEq

/-- An identifier of a build. -/
structure BuildIdent where
  chars : List Char
  ne_nil : chars ≠ []
  valid : chars.all isIdentChar
  deriving DecidableEq

structure Version where
  major : ℕ
  minor : ℕ
  patch : ℕ
  prerelease : List Ident
  build : List BuildIdent
  deriving DecidableEq

/-- Numbers are below other identifiers, which are in the order of their characters. -/
def Ident.lt : Ident → Ident → Prop
  | .num m, .num n => m < n
  | .num _, .alnum _ => True
  | .alnum _, .num _ => False
  | .alnum a, .alnum b => a.chars < b.chars

/-- Pre-releases are below the release, and among them in the order of their identifiers. -/
def prereleaseLt (p q : List Ident) : Prop :=
  p ≠ [] ∧ (q = [] ∨ List.Lex Ident.lt p q)

/-- The version `s` has a lower precedence than `t`. -/
def Version.lt (s t : Version) : Prop :=
  s.major < t.major ∨ s.major = t.major ∧
    (s.minor < t.minor ∨ s.minor = t.minor ∧
      (s.patch < t.patch ∨ s.patch = t.patch ∧ prereleaseLt s.prerelease t.prerelease))

/-! ## Their texts -/

def Ident.text : Ident → List Char
  | .num n => Nat.toDigits 10 n
  | .alnum a => a.chars

/-- An identifier, and the dot before the next one. -/
def identWord (i : Ident) (is : List Ident) : List Char := i.text ++ if is = [] then [] else ['.']

def identsText : List Ident → List Char
  | [] => []
  | i :: is => identWord i is ++ identsText is

def prereleaseText (p : List Ident) : List Char := if p = [] then [] else '-' :: identsText p

def buildText (build : List BuildIdent) : List Char :=
  if build = [] then [] else '+' :: ['.'].intercalate (build.map BuildIdent.chars)

def Version.text (s : Version) : List Char :=
  Nat.toDigits 10 s.major ++ '.' :: (Nat.toDigits 10 s.minor ++ '.' ::
    (Nat.toDigits 10 s.patch ++ (prereleaseText s.prerelease ++ buildText s.build)))

def Version.render (s : Version) : String := String.ofList s.text

/-! ## Astray versions -/

/-- One text comes before another by code units. -/
def Before (cs ds : List Char) : Prop := utf16 (String.ofList cs) < utf16 (String.ofList ds)

/-- The greater number is written first. -/
def NumAstray (m n : ℕ) : Prop := n < m ∧ Before (Nat.toDigits 10 m) (Nat.toDigits 10 n)

/-- Where the identifiers first differ, the greater one is written first. -/
def IdentsAstray : List Ident → List Ident → Prop
  | i :: is, j :: js =>
    if i = j then IdentsAstray is js else j.lt i ∧ Before (identWord i is) (identWord j js)
  | _, _ => False

/-- Where the versions first differ, `t` is greater and is written first. -/
def Astray (t s : Version) : Prop :=
  if t.major ≠ s.major then NumAstray t.major s.major
  else if t.minor ≠ s.minor then NumAstray t.minor s.minor
  else if t.patch ≠ s.patch then NumAstray t.patch s.patch
  else if t.prerelease = [] then s.prerelease ≠ []
  else IdentsAstray t.prerelease s.prerelease

/-! ## Characters -/

/-- The places of characters in the order of code units. -/
def ranks (cs : List Char) : List ℕ := cs.map utf16Rank

theorem before_iff (cs ds : List Char) : Before cs ds ↔ ranks cs < ranks ds := by
  rw [Before, utf16_lt_iff, String.toList_ofList, String.toList_ofList, ranks, ranks]

@[simp] theorem ranks_append (cs ds : List Char) : ranks (cs ++ ds) = ranks cs ++ ranks ds :=
  List.map_append

theorem ranks_injective : Function.Injective ranks :=
  List.map_injective_iff.2 ordered_utf16Char.injective

theorem isDigit_iff (c : Char) : c.isDigit ↔ 48 ≤ c.toNat ∧ c.toNat ≤ 57 := by
  rw [Char.isDigit, Bool.and_eq_true, decide_eq_true_eq, decide_eq_true_eq]
  rfl

theorem utf16Rank_of_isDigit {c : Char} (h : c.isDigit) :
    48 ≤ utf16Rank c ∧ utf16Rank c ≤ 57 := by
  have hc := (isDigit_iff c).1 h
  rw [utf16Rank, if_neg (by omega)]
  exact hc

theorem utf16Rank_of_isIdentChar {c : Char} (h : isIdentChar c) : 45 ≤ utf16Rank c ∧ c ≠ '.' := by
  have hc : 45 ≤ c.toNat ∧ c.toNat ≠ 46 := by
    rw [isIdentChar, Bool.or_eq_true, decide_eq_true_eq] at h
    rcases h with h | rfl
    · have hbounds := toNat_of_isAlphanum h
      omega
    · exact ⟨Nat.le_refl _, by decide⟩
  refine ⟨?_, fun heq => hc.2 (congrArg Char.toNat heq)⟩
  rw [utf16Rank]
  split_ifs <;> omega

/-- The text is over, or a separator follows. -/
def Ends (cs : List Char) : Prop := ∀ c ∈ cs.head?, c ∈ ['.', '-', '+']

/-- The text is over, or a build follows. -/
def EndsOrBuild (cs : List Char) : Prop := ∀ c ∈ cs.head?, c = '+'

theorem endsOrBuild_buildText (build : List BuildIdent) : EndsOrBuild (buildText build) := by
  intro c hc
  rw [buildText] at hc
  split_ifs at hc with h
  · cases hc
  · exact (Option.some.inj hc).symm

theorem ends_prereleaseText (p : List Ident) (build : List BuildIdent) :
    Ends (prereleaseText p ++ buildText build) := by
  intro c hc
  rw [prereleaseText] at hc
  split_ifs at hc with h
  · rw [endsOrBuild_buildText build c hc]
    decide
  · rw [← Option.some.inj hc]
    decide

theorem head_ranks {cs : List Char} {x : ℕ} (h : x ∈ (ranks cs).head?) :
    ∃ c ∈ cs.head?, utf16Rank c = x := by
  rw [ranks, List.head?_map] at h
  exact Option.map_eq_some_iff.1 h

/-! ## Numbers -/

theorem digit_of_mem {n : ℕ} {x : ℕ} (h : x ∈ ranks (Nat.toDigits 10 n)) : 48 ≤ x := by
  obtain ⟨c, hc, rfl⟩ := List.mem_map.1 h
  exact (utf16Rank_of_isDigit (Decimal.isDigit_of_mem hc)).1

theorem Ends.lt_digit {u : List Char} (h : Ends u) {x : ℕ} (hx : x ∈ (ranks u).head?) {n y : ℕ}
    (hy : y ∈ ranks (Nat.toDigits 10 n)) : x < y := by
  obtain ⟨c, hc, rfl⟩ := head_ranks hx
  have hsep : ∀ c ∈ ['.', '-', '+'], utf16Rank c < 48 :=
    List.forall_iff_forall_mem.1 (by decide)
  exact (hsep c (h c hc)).trans_le (digit_of_mem hy)

/-- Different numbers decide, whatever separator follows them. -/
theorem before_of_num_ne {m n : ℕ} (hne : m ≠ n) {u v : List Char} (hu : Ends u) (hv : Ends v) :
    Before (Nat.toDigits 10 m ++ u) (Nat.toDigits 10 n ++ v) ↔
      Before (Nat.toDigits 10 m) (Nat.toDigits 10 n) := by
  rw [before_iff, before_iff, ranks_append, ranks_append]
  exact LexCode.append_lt_append_iff_of_ne
    (fun h => hne (Decimal.toDigits_injective (ranks_injective h)))
    (fun _ x hx y hy => hu.lt_digit hx hy) fun _ x hx y hy => hv.lt_digit hx hy

theorem before_append {l u v : List Char} : Before (l ++ u) (l ++ v) ↔ Before u v := by
  rw [before_iff, before_iff, ranks_append, ranks_append, LexCode.append_lt_append_iff]

theorem before_cons {c : Char} {u v : List Char} : Before (c :: u) (c :: v) ↔ Before u v :=
  before_append (l := [c])

theorem before_trichotomy (cs ds : List Char) : Before cs ds ∨ cs = ds ∨ Before ds cs := by
  rw [before_iff, before_iff]
  exact (lt_trichotomy (ranks cs) (ranks ds)).imp_right (Or.imp_left fun h => ranks_injective h)

/-- If the text of `n` is not before that of `m`, the greater one is written first just if `n`
    is the smaller one. -/
theorem lt_iff_numAstray {m n : ℕ} (hne : m ≠ n) {u v : List Char} (hu : Ends u) (hv : Ends v)
    (h : ¬ Before (Nat.toDigits 10 n ++ v) (Nat.toDigits 10 m ++ u)) :
    n < m ↔ NumAstray m n := by
  rw [before_of_num_ne hne.symm hv hu] at h
  have hbefore := (before_trichotomy (Nat.toDigits 10 m) (Nat.toDigits 10 n)).resolve_right
    (not_or.2 ⟨fun heq => hne (Decimal.toDigits_injective heq), h⟩)
  exact (and_iff_left hbefore).symm

/-! ## Identifiers -/

theorem isIdentChar_of_isDigit {c : Char} (h : c.isDigit) : isIdentChar c := by
  rw [isIdentChar, Char.isAlphanum, h, Bool.or_true, Bool.true_or]

theorem isIdentChar_of_mem_text {i : Ident} {c : Char} (h : c ∈ i.text) : isIdentChar c := by
  cases i with
  | num n => exact isIdentChar_of_isDigit (Decimal.isDigit_of_mem h)
  | alnum a => exact List.all_eq_true.1 a.valid c h

theorem text_injective : Function.Injective Ident.text := by
  -- a number has digits only
  have hne : ∀ n (a : Alnum), Nat.toDigits 10 n ≠ a.chars := by
    intro n a h
    obtain ⟨c, hc, hdigit⟩ := List.any_eq_true.1 a.hasNonDigit
    rw [Decimal.isDigit_of_mem (h ▸ hc)] at hdigit
    cases hdigit
  intro i j h
  cases i with
  | num m =>
    cases j with
    | num n => rw [Decimal.toDigits_injective h]
    | alnum b => exact absurd h (hne m b)
  | alnum a =>
    cases j with
    | num n => exact absurd h.symm (hne n a)
    | alnum b =>
      obtain ⟨chars, _, _⟩ := a
      obtain ⟨chars', _, _⟩ := b
      obtain rfl : chars = chars' := h
      rfl

/-- What comes before the dot of a word is the identifier. -/
theorem takeWhile_identWord (i : Ident) (is : List Ident) (u : List Char) :
    (i.text ++ '.' :: u).takeWhile (· ≠ '.') = i.text ∧
      (identWord i is).takeWhile (· ≠ '.') = i.text := by
  have hall : ∀ c ∈ i.text, decide (c ≠ '.') = true := fun c hc =>
    decide_eq_true (utf16Rank_of_isIdentChar (isIdentChar_of_mem_text hc)).2
  have hdot : ∀ u, ('.' :: u).takeWhile (· ≠ '.') = [] := fun u => rfl
  refine ⟨by rw [List.takeWhile_append_of_pos hall, hdot, List.append_nil], ?_⟩
  rw [identWord, List.takeWhile_append_of_pos hall]
  split_ifs
  · exact List.append_nil _
  · rw [hdot, List.append_nil]

theorem rank_of_mem_identWord {i : Ident} {is : List Ident} {x : ℕ}
    (h : x ∈ ranks (identWord i is)) : 45 ≤ x := by
  obtain ⟨c, hc, rfl⟩ := List.mem_map.1 h
  rw [identWord, List.mem_append] at hc
  rcases hc with hc | hc
  · exact (utf16Rank_of_isIdentChar (isIdentChar_of_mem_text hc)).1
  · split_ifs at hc
    · cases hc
    · rw [List.mem_singleton.1 hc]
      decide

/-- Where a word is the beginning of the word of another identifier, it is the last one, so that
    what follows is below all characters of identifiers. -/
theorem lt_of_identWord_prefix {i j : Ident} (hne : i ≠ j) {is js : List Ident} {u : List Char}
    (hu : EndsOrBuild u) (hpre : ranks (identWord i is) <+: ranks (identWord j js)) {x y : ℕ}
    (hx : x ∈ (ranks (identsText is ++ u)).head?) (hy : y ∈ ranks (identWord j js)) : x < y := by
  obtain ⟨v, hv⟩ := (List.prefix_map_iff_of_injective ordered_utf16Char.injective).1 hpre
  cases is with
  | nil =>
    obtain ⟨c, hc, rfl⟩ := head_ranks hx
    rw [hu c hc]
    have hplus : utf16Rank '+' < 45 := by decide
    exact hplus.trans_le (rank_of_mem_identWord hy)
  | cons i' is =>
    have hword : identWord i (i' :: is) ++ v = i.text ++ '.' :: v := by
      rw [identWord, if_neg (List.cons_ne_nil _ _), List.append_assoc, List.singleton_append]
    have htext := (takeWhile_identWord i [] v).1
    rw [← hword, hv, (takeWhile_identWord j js []).2] at htext
    exact absurd (text_injective htext.symm) hne

theorem identWord_ne {i j : Ident} (hne : i ≠ j) (is js : List Ident) :
    identWord i is ≠ identWord j js := fun h =>
  hne (text_injective (by rw [← (takeWhile_identWord i is []).2, h, (takeWhile_identWord j js []).2]))

/-- Different identifiers decide. -/
theorem before_of_ident_ne {i j : Ident} (hne : i ≠ j) {is js : List Ident} {u v : List Char}
    (hu : EndsOrBuild u) (hv : EndsOrBuild v) :
    Before (identWord i is ++ (identsText is ++ u)) (identWord j js ++ (identsText js ++ v)) ↔
      Before (identWord i is) (identWord j js) := by
  rw [before_iff, before_iff, ranks_append, ranks_append (identWord j js)]
  exact LexCode.append_lt_append_iff_of_ne
    (fun h => identWord_ne hne is js (ranks_injective h))
    (fun h x hx y hy => lt_of_identWord_prefix hne hu h hx hy)
    fun h x hx y hy => lt_of_identWord_prefix hne.symm hv h hx hy

theorem Ident.lt_irrefl (i : Ident) : ¬ i.lt i := by
  cases i with
  | num n => exact Nat.lt_irrefl n
  | alnum a => exact List.lt_irrefl a.chars

theorem lex_cons_self {i : Ident} {is js : List Ident} :
    List.Lex Ident.lt (i :: js) (i :: is) ↔ List.Lex Ident.lt js is := by
  rw [List.cons_lex_cons_iff, or_iff_right i.lt_irrefl, and_iff_right rfl]

/-- Behind an identifier another one comes after the end. -/
theorem before_of_endsOrBuild {v : List Char} (hv : EndsOrBuild v) (cs : List Char) :
    Before v ('.' :: cs) := by
  rw [before_iff]
  cases v with
  | nil => exact List.nil_lt_cons _ _
  | cons c v =>
    obtain rfl : c = '+' := hv c rfl
    have hdot : utf16Rank '+' < utf16Rank '.' := by decide
    exact List.cons_lt_cons_iff.2 (.inl hdot)

/-- If the text of `js` is not before that of `is`, then `js` is below `is` just if `is` is
    astray of it. -/
theorem lex_iff_identsAstray {is js : List Ident} {u v : List Char} (hu : EndsOrBuild u)
    (hv : EndsOrBuild v) (hjs : js ≠ [] ∨ is = [])
    (h : ¬ Before (identsText js ++ v) (identsText is ++ u)) :
    List.Lex Ident.lt js is ↔ IdentsAstray is js := by
  induction is generalizing js with
  | nil => exact iff_of_false List.not_lex_nil id
  | cons i is ih =>
    obtain ⟨j, js, rfl⟩ := List.exists_cons_of_ne_nil (hjs.resolve_right (List.cons_ne_nil _ _))
    rw [identsText, identsText, List.append_assoc, List.append_assoc] at h
    rw [IdentsAstray]
    split_ifs with hij
    · subst hij
      rw [lex_cons_self]
      rw [identWord, identWord, List.append_assoc, List.append_assoc, before_append] at h
      by_cases his : is = []
      · subst his
        exact iff_of_false List.not_lex_nil id
      · rw [if_neg his] at h
        by_cases hjs : js = []
        · subst hjs
          exact absurd (before_of_endsOrBuild hv _) h
        · rw [if_neg hjs, before_append] at h
          exact ih (.inl hjs) h
    · have hbefore : Before (identWord i is) (identWord j js) := by
        rw [before_of_ident_ne (Ne.symm hij) hv hu] at h
        exact (before_trichotomy _ _).resolve_right
          (not_or.2 ⟨identWord_ne hij is js, h⟩)
      rw [List.cons_lex_cons_iff, or_iff_left fun heq => hij heq.1.symm]
      exact (and_iff_left hbefore).symm

/-! ## Versions -/

theorem before_prerelease {u : List Char} (hu : EndsOrBuild u) (i : Ident) (is : List Ident)
    (v : List Char) : Before u (prereleaseText (i :: is) ++ v) := by
  rw [before_iff]
  cases u with
  | nil => exact List.nil_lt_cons _ _
  | cons c u =>
    obtain rfl : c = '+' := hu c rfl
    have hdash : utf16Rank '+' < utf16Rank '-' := by decide
    exact List.cons_lt_cons_iff.2 (.inl hdash)

theorem prereleaseLt_iff {p q : List Ident} {u v : List Char} (hu : EndsOrBuild u)
    (hv : EndsOrBuild v) (h : ¬ Before (prereleaseText q ++ v) (prereleaseText p ++ u)) :
    prereleaseLt q p ↔ if p = [] then q ≠ [] else IdentsAstray p q := by
  rw [prereleaseLt]
  split_ifs with hp
  · exact and_iff_left (.inl hp)
  · obtain ⟨i, is, rfl⟩ := List.exists_cons_of_ne_nil hp
    cases q with
    | nil => exact absurd (before_prerelease hv i is u) h
    | cons j js =>
      rw [prereleaseText, prereleaseText, if_neg hp, if_neg (List.cons_ne_nil _ _),
        List.cons_append, List.cons_append, before_cons] at h
      rw [and_iff_right (List.cons_ne_nil _ _), or_iff_right hp]
      exact lex_iff_identsAstray hu hv (.inl (List.cons_ne_nil _ _)) h

theorem ends_dot (cs : List Char) : Ends ('.' :: cs) := by
  intro c hc
  rw [← Option.some.inj hc]
  decide

/-- A version whose text is not the later one is above the other exactly if it is astray of it. -/
theorem lt_iff_astray {s t : Version} (h : ¬ utf16 s.render < utf16 t.render) :
    s.lt t ↔ Astray t s := by
  have hbefore : ¬ Before s.text t.text := h
  rw [Version.text, Version.text] at hbefore
  rw [Version.lt, Astray]
  by_cases hmajor : t.major = s.major
  · rw [hmajor, before_append, before_cons] at hbefore
    rw [if_neg (not_not.2 hmajor), or_iff_right (hmajor ▸ Nat.lt_irrefl _),
      and_iff_right hmajor.symm]
    by_cases hminor : t.minor = s.minor
    · rw [hminor, before_append, before_cons] at hbefore
      rw [if_neg (not_not.2 hminor), or_iff_right (hminor ▸ Nat.lt_irrefl _),
        and_iff_right hminor.symm]
      by_cases hpatch : t.patch = s.patch
      · rw [hpatch, before_append] at hbefore
        rw [if_neg (not_not.2 hpatch), or_iff_right (hpatch ▸ Nat.lt_irrefl _),
          and_iff_right hpatch.symm]
        exact prereleaseLt_iff (endsOrBuild_buildText _) (endsOrBuild_buildText _) hbefore
      · rw [if_pos hpatch, or_iff_left fun heq => hpatch heq.1.symm]
        exact lt_iff_numAstray hpatch (ends_prereleaseText _ _) (ends_prereleaseText _ _) hbefore
    · rw [if_pos hminor, or_iff_left fun heq => hminor heq.1.symm]
      exact lt_iff_numAstray hminor (ends_dot _) (ends_dot _) hbefore
  · rw [if_pos hmajor, or_iff_left fun heq => hmajor heq.1.symm]
    exact lt_iff_numAstray hmajor (ends_dot _) (ends_dot _) hbefore

/-! ## Reading a text -/

theorem Ends.decimal {u : List Char} (hu : Ends u) : Decimal.Ends u := by
  have hsep : ∀ c ∈ ['.', '-', '+'], c.isDigit = false :=
    List.forall_iff_forall_mem.1 (by decide)
  exact fun c hc => hsep c (hu c hc)

/-- The text of a version tells its numbers. -/
theorem numbers_of_render_eq {s t : Version} (h : s.render = t.render) :
    s.major = t.major ∧ s.minor = t.minor ∧ s.patch = t.patch := by
  have htext : s.text = t.text := String.ofList_injective h
  obtain ⟨hmajor, htext⟩ :=
    Decimal.toDigits_append_inj (ends_dot _).decimal (ends_dot _).decimal htext
  obtain ⟨hminor, htext⟩ := Decimal.toDigits_append_inj (ends_dot _).decimal (ends_dot _).decimal
    (List.cons_inj_right _ |>.1 htext)
  obtain ⟨hpatch, _⟩ := Decimal.toDigits_append_inj (ends_prereleaseText _ _).decimal
    (ends_prereleaseText _ _).decimal (List.cons_inj_right _ |>.1 htext)
  exact ⟨hmajor, hminor, hpatch⟩

end ComputeContract.Semver
