import Mathlib.Data.List.Infix
import Mathlib.Data.List.TakeWhile
import ComputeContract.Util.UrlEncoded

/-!
# Paths of URLs

The pathname of an `http` URL, of the text behind its host, by the WHATWG parser: what is behind
`?` or `#` is cut off, `\` is a separator too, the segments `.` and `..` are resolved, also where
the dot is written as `%2e`, and the characters that may not stand in a path are written as the
bytes of their UTF-8.

* `pathname_eq_self`: a path with plain segments is its own pathname;
* `plain_of_mem_pathname`: the segments of a pathname are plain.
-/

namespace ComputeContract.Url

/-- The path percent-encode set. -/
def inPathSet (c : Char) : Bool :=
  c.toNat < 32 || 126 < c.toNat || c ∈ [' ', '"', '#', '<', '>', '?', '^', '\x60', '\x7b', '\x7d']

def percentByte (b : UInt8) : List Char :=
  '%' :: [b / 16, b % 16].map fun n => Char.ofNat (UrlEncoded.hexDigit n).toNat

/-- A character of a segment. -/
def encodeChar (c : Char) : List Char :=
  if inPathSet c then (textEncode (String.singleton c)).flatMap percentByte else [c]

/-- The number of dots, in either spelling, that a segment is made of. -/
def dots : List Char → Option ℕ
  | [] => some 0
  | '.' :: cs => (dots cs).map (· + 1)
  | '%' :: '2' :: 'e' :: cs => (dots cs).map (· + 1)
  | '%' :: '2' :: 'E' :: cs => (dots cs).map (· + 1)
  | _ => none

/-- A path with one more segment, the last one if nothing is behind it. -/
def addSegment (path : List (List Char)) (last : Bool) (segment : List Char) : List (List Char) :=
  let empty := if last then [[]] else []
  if dots segment = some 2 then path.dropLast ++ empty
  else if dots segment = some 1 then path ++ empty
  else path ++ [segment]

def addSegments (path : List (List Char)) : List (List Char) → List (List Char)
  | [] => path
  | [segment] => addSegment path true segment
  | segment :: next :: segments => addSegments (addSegment path false segment) (next :: segments)

/-- What is left of the text: blanks at its end are dropped, and line breaks and tabs everywhere. -/
def pathText (s : List Char) : List Char :=
  (((s.reverse.dropWhile (·.toNat ≤ 32)).reverse).filter (· ∉ ['\t', '\n', '\r'])).takeWhile
    (· ∉ ['?', '#'])

def segments (s : List Char) : List (List Char) :=
  (((pathText s).drop 1).splitOnP (· ∈ ['/', '\\'])).map (·.flatMap encodeChar)

/-- `url.pathname` -/
def pathname (s : List Char) : List Char := (addSegments [] (segments s)).flatMap ('/' :: ·)

/-! ## Plain segments -/

/-- A character that stands for itself in a segment. -/
def isPlain (c : Char) : Bool := !inPathSet c && c ≠ '/' && c ≠ '\\'

/-- A segment that stays as it is. -/
structure Plain (segment : List Char) : Prop where
  dots : dots segment ≠ some 1 ∧ dots segment ≠ some 2
  chars : ∀ c ∈ segment, isPlain c

instance (segment : List Char) : Decidable (Plain segment) :=
  decidable_of_iff ((dots segment ≠ some 1 ∧ dots segment ≠ some 2) ∧ segment.all isPlain)
    ⟨fun h => ⟨h.1, List.all_eq_true.1 h.2⟩, fun h => ⟨h.dots, List.all_eq_true.2 h.chars⟩⟩

/-- A segment of dots starts with one. -/
theorem plain_of_head {c : Char} {segment : List Char} (hdot : c ≠ '.') (hpercent : c ≠ '%')
    (h : ∀ c' ∈ c :: segment, isPlain c') : Plain (c :: segment) := by
  have hdots : dots (c :: segment) = none := by
    unfold dots
    split
    · next heq => cases heq
    · next heq => exact absurd (List.cons.inj heq).1 hdot
    · next heq => exact absurd (List.cons.inj heq).1 hpercent
    · next heq => exact absurd (List.cons.inj heq).1 hpercent
    · rfl
  refine ⟨?_, h⟩
  rw [hdots]
  decide

/-- A segment with a character that no spelling of a dot has. -/
theorem dots_eq_none {c : Char} {segment : List Char} (h : c ∈ segment)
    (hc : c ∉ ['.', '%', '2', 'e', 'E']) : dots segment = none := by
  fun_induction dots segment with
  | case1 => cases h
  | case2 cs ih => simp_all
  | case3 cs ih => simp_all
  | case4 cs ih => simp_all
  | case5 => rfl

theorem plain_of_mem {c : Char} {segment : List Char} (h : c ∈ segment)
    (hc : c ∉ ['.', '%', '2', 'e', 'E']) (hchars : ∀ c ∈ segment, isPlain c) : Plain segment := by
  refine ⟨?_, hchars⟩
  rw [dots_eq_none h hc]
  decide

theorem not_inPathSet_of_isPlain {c : Char} (h : isPlain c) : inPathSet c = false := by
  simp only [isPlain, Bool.and_eq_true, Bool.not_eq_true'] at h
  exact h.1.1

theorem flatMap_encodeChar {segment : List Char} (h : ∀ c ∈ segment, inPathSet c = false) :
    segment.flatMap encodeChar = segment := by
  induction segment with
  | nil => rfl
  | cons c segment ih =>
    rw [List.forall_mem_cons] at h
    rw [List.flatMap_cons, ih h.2, encodeChar, h.1]
    rfl

/-- What a character is written as is plain. -/
theorem isPlain_of_mem_encodeChar {c c' : Char} (hc : c ≠ '/' ∧ c ≠ '\\') (h : c' ∈ encodeChar c) :
    isPlain c' := by
  have hbytes : ∀ b : UInt8, (percentByte b).all isPlain := forall_byte (by decide +kernel)
  rw [encodeChar] at h
  split_ifs at h with hset
  · obtain ⟨b, -, hb⟩ := List.mem_flatMap.1 h
    exact List.all_eq_true.1 (hbytes b) c' hb
  · obtain rfl := List.mem_singleton.1 h
    simp [isPlain, hset, hc]

/-! ## Segments that are added -/

theorem addSegment_ne_nil (path : List (List Char)) (segment : List Char) :
    addSegment path true segment ≠ [] := by
  simp only [addSegment, if_true]
  split_ifs <;> exact List.append_ne_nil_of_right_ne_nil _ (List.cons_ne_nil _ _)

theorem addSegments_ne_nil {path new : List (List Char)} (h : new ≠ []) :
    addSegments path new ≠ [] := by
  induction new generalizing path with
  | nil => exact absurd rfl h
  | cons segment new ih =>
    cases new with
    | nil => exact addSegment_ne_nil path segment
    | cons next new => exact ih (List.cons_ne_nil _ _)

theorem plain_addSegment {path : List (List Char)} {last : Bool} {segment : List Char}
    (hpath : ∀ t ∈ path, Plain t) (h : ∀ c ∈ segment, isPlain c) :
    ∀ t ∈ addSegment path last segment, Plain t := by
  have hnil : Plain [] := by decide
  have hempty : ∀ t ∈ (if last then [[]] else [] : List (List Char)), Plain t := by
    cases last <;> simp [hnil]
  intro t ht
  by_cases h₂ : dots segment = some 2
  · simp only [addSegment, if_pos h₂] at ht
    exact (List.mem_append.1 ht).elim (fun ht => hpath t (List.mem_of_mem_dropLast ht)) (hempty t)
  · by_cases h₁ : dots segment = some 1
    · simp only [addSegment, if_neg h₂, if_pos h₁] at ht
      exact (List.mem_append.1 ht).elim (hpath t) (hempty t)
    · simp only [addSegment, if_neg h₂, if_neg h₁] at ht
      rcases List.mem_append.1 ht with ht | ht
      · exact hpath t ht
      · obtain rfl := List.mem_singleton.1 ht
        exact ⟨⟨h₁, h₂⟩, h⟩

theorem plain_addSegments {path new : List (List Char)} (hpath : ∀ t ∈ path, Plain t)
    (h : ∀ t ∈ new, ∀ c ∈ t, isPlain c) : ∀ t ∈ addSegments path new, Plain t := by
  induction new generalizing path with
  | nil => exact hpath
  | cons segment new ih =>
    rw [List.forall_mem_cons] at h
    cases new with
    | nil => exact plain_addSegment hpath h.1
    | cons next new => exact ih (plain_addSegment hpath h.1) h.2

theorem addSegments_of_plain {path new : List (List Char)} (h : ∀ t ∈ new, Plain t) :
    addSegments path new = path ++ new := by
  induction new generalizing path with
  | nil => exact (List.append_nil path).symm
  | cons segment new ih =>
    rw [List.forall_mem_cons] at h
    have hadd : ∀ last, addSegment path last segment = path ++ [segment] := fun last => by
      rw [addSegment, if_neg h.1.dots.2, if_neg h.1.dots.1]
    cases new with
    | nil => exact hadd true
    | cons next new =>
      rw [addSegments, hadd, ih h.2, List.append_assoc, List.singleton_append]

/-! ## Pathnames -/

theorem flatMap_slash {path : List (List Char)} (h : path ≠ []) :
    path.flatMap ('/' :: ·) = '/' :: ['/'].intercalate path := by
  induction path with
  | nil => exact absurd rfl h
  | cons segment path ih =>
    cases path with
    | nil => simp
    | cons next path =>
      rw [List.flatMap_cons, ih (List.cons_ne_nil _ _), List.intercalate_cons_cons]
      simp

/-- Separators are in no piece. -/
theorem of_mem_splitOnP {p : Char → Bool} {cs piece : List Char} (h : piece ∈ cs.splitOnP p) :
    ∀ c ∈ piece, p c = false ∧ c ∈ cs := by
  induction cs generalizing piece with
  | nil =>
    obtain rfl := List.mem_singleton.1 h
    exact fun c hc => absurd hc List.not_mem_nil
  | cons c cs ih =>
    have hrest : ∀ piece ∈ cs.splitOnP p, ∀ c' ∈ piece, p c' = false ∧ c' ∈ c :: cs :=
      fun piece hpiece c' hc' => (ih hpiece c' hc').imp_right (List.mem_cons_of_mem _)
    obtain ⟨first, rest, hsplit⟩ := List.exists_cons_of_ne_nil (List.splitOnP_ne_nil p cs)
    rw [List.splitOnP_cons_eq_if_modifyHead] at h
    rw [hsplit] at h hrest
    rw [List.forall_mem_cons] at hrest
    split_ifs at h with hc
    · rcases List.mem_cons.1 h with rfl | h
      · exact fun c hc => absurd hc List.not_mem_nil
      · exact (List.mem_cons.1 h).elim (fun heq => heq ▸ hrest.1) (hrest.2 piece)
    · rcases List.mem_cons.1 h with rfl | h
      · exact List.forall_mem_cons.2 ⟨⟨Bool.eq_false_iff.2 hc, List.mem_cons_self⟩, hrest.1⟩
      · exact hrest.2 piece h

/-- The segments of a pathname are plain. -/
theorem plain_of_mem_pathname {s segment : List Char}
    (h : segment ∈ (pathname s).splitOn '/') : Plain segment := by
  have hnew : ∀ t ∈ segments s, ∀ c ∈ t, isPlain c := by
    intro t ht c hc
    obtain ⟨piece, hpiece, rfl⟩ := List.mem_map.1 ht
    obtain ⟨c', hc', hc⟩ := List.mem_flatMap.1 hc
    have hsep := (of_mem_splitOnP hpiece c' hc').1
    exact isPlain_of_mem_encodeChar (by simpa using hsep) hc
  have hplain := plain_addSegments (List.forall_mem_nil Plain) hnew
  have hne : addSegments [] (segments s) ≠ [] := addSegments_ne_nil (by simp [segments])
  rw [pathname, flatMap_slash hne, ← List.nil_append ('/' :: _), List.splitOn_append_cons_self,
    List.splitOn_intercalate _ (fun t ht hmem => ?_) hne] at h
  · rcases List.mem_cons.1 h with rfl | h
    · decide
    · exact hplain segment h
  · exact absurd ((hplain t ht).chars _ hmem) (by decide)

/-- What holds of the characters of the segments. -/
theorem of_mem_splitOn {cs : List Char} {q : Char → Prop}
    (h : ∀ segment ∈ cs.splitOn '/', ∀ c ∈ segment, q c) : ∀ c ∈ cs, c = '/' ∨ q c := by
  induction cs with
  | nil => exact List.forall_mem_nil _
  | cons c cs ih =>
    obtain ⟨first, rest, hsplit⟩ := List.exists_cons_of_ne_nil (List.splitOn_ne_nil '/' cs)
    rw [List.splitOn_cons_eq_if_modifyHead] at h
    rw [hsplit] at h ih
    refine List.forall_mem_cons.2 ?_
    split_ifs at h with hc
    · exact ⟨.inl (eq_of_beq hc), ih (List.forall_mem_cons.1 h).2⟩
    · obtain ⟨hfirst, hrest⟩ := List.forall_mem_cons.1 h
      obtain ⟨hc, hfirst⟩ := List.forall_mem_cons.1 hfirst
      exact ⟨.inr hc, ih (List.forall_mem_cons.2 ⟨hfirst, hrest⟩)⟩

theorem splitOnP_congr {p q : Char → Bool} {cs : List Char} (h : ∀ c ∈ cs, p c = q c) :
    cs.splitOnP p = cs.splitOnP q := by
  induction cs with
  | nil => rfl
  | cons c cs ih =>
    rw [List.forall_mem_cons] at h
    rw [List.splitOnP_cons_eq_if_modifyHead, List.splitOnP_cons_eq_if_modifyHead, h.1, ih h.2]

/-- A path with plain segments is its own pathname. -/
theorem pathname_eq_self {cs : List Char} (h : ∀ segment ∈ cs.splitOn '/', Plain segment) :
    pathname ('/' :: cs) = '/' :: cs := by
  have hplain : ∀ c, isPlain c → 32 < c.toNat ∧ c ∉ ['\t', '\n', '\r'] ∧ c ∉ ['?', '#'] ∧
      c ≠ '\\' := by
    intro c hc
    have hset := not_inPathSet_of_isPlain hc
    simp only [isPlain, Bool.and_eq_true, decide_eq_true_eq] at hc
    have hne : ∀ d, inPathSet d → c ≠ d := by
      rintro d hd rfl
      rw [hset] at hd
      cases hd
    have hspace := hne ' ' (by decide)
    simp only [inPathSet, Bool.or_eq_false_iff, decide_eq_false_iff_not] at hset
    have hnat : c.toNat ≠ 32 := fun heq => hspace (by rw [← Char.ofNat_toNat c, heq])
    refine ⟨by omega, ?_, ?_, hc.2⟩
    · simp [hne '\t' (by decide), hne '\n' (by decide), hne '\r' (by decide)]
    · simp [hne '?' (by decide), hne '#' (by decide)]
  have hchars : ∀ c ∈ '/' :: cs, 32 < c.toNat ∧ c ∉ ['\t', '\n', '\r'] ∧ c ∉ ['?', '#'] ∧
      c ≠ '\\' := by
    refine List.forall_mem_cons.2 ⟨by decide, fun c hc => ?_⟩
    rcases of_mem_splitOn (fun segment hs => (h segment hs).chars) c hc with rfl | hc
    · decide
    · exact hplain c hc
  have htext : pathText ('/' :: cs) = '/' :: cs := by
    have hdrop : ('/' :: cs).reverse.dropWhile (·.toNat ≤ 32) = ('/' :: cs).reverse := by
      refine dropWhile_of_head fun c hc => ?_
      have hmem := List.mem_reverse.1 (List.mem_of_mem_head? hc)
      exact decide_eq_false (not_le.2 (hchars c hmem).1)
    rw [pathText, hdrop, List.reverse_reverse,
      List.filter_eq_self.2 fun c hc => decide_eq_true (hchars c hc).2.1]
    exact List.takeWhile_eq_self_iff.2 fun c hc => decide_eq_true (hchars c hc).2.2.1
  have hsegments : segments ('/' :: cs) = cs.splitOn '/' := by
    have hsplit : cs.splitOnP (· ∈ ['/', '\\']) = cs.splitOn '/' := by
      rw [List.splitOn_eq_splitOnP]
      refine splitOnP_congr fun c hc => ?_
      simp [(hchars c (List.mem_cons_of_mem _ hc)).2.2.2, beq_eq_decide]
    rw [segments, htext, List.drop_one, List.tail_cons, hsplit]
    refine (List.map_congr_left fun segment hs => ?_).trans (List.map_id _)
    exact flatMap_encodeChar fun c hc => not_inPathSet_of_isPlain ((h segment hs).chars c hc)
  rw [pathname, hsegments, addSegments_of_plain h, List.nil_append,
    flatMap_slash (List.splitOn_ne_nil _ _), List.intercalate_splitOn]

end ComputeContract.Url
