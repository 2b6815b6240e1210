import Mathlib.Algebra.Order.Field.Rat
import Mathlib.Data.Int.Log
import Mathlib.Data.Rat.Floor
import ComputeContract.Lib.AssocList

/-!
# JSON

A JSON value, and `JSON.parse`. Of `JSON.stringify` only what is read back from its text is
modelled: an infinite number is written as `null`.

* `length_lt_of_parse`: the text of a string is longer than the string.
-/

namespace ComputeContract

open AssocList

/-- A JSON value; the fields of an object are in the order in which it lists them. -/
inductive Json
  | null
  | bool (b : Bool)
  | number (n : ℚ)
  /-- A literal beyond the largest number. -/
  | infinite (negative : Bool)
  | string (s : String)
  | array (items : List Json)
  | object (fields : List (String × Json))

/-! ## Objects -/

/-- The array index that a name is. -/
def arrayIndex (name : String) : Option ℕ :=
  name.toNat?.filter fun n => toString n = name ∧ n < 2 ^ 32 - 1

/-- `Object.entries` of an object with these entries: array indices come first. -/
def objectEntries {V : Type} (o : List (String × V)) : List (String × V) :=
  (o.filter fun e => (arrayIndex e.1).isSome).mergeSort
      (fun e e' => (arrayIndex e.1).getD 0 ≤ (arrayIndex e'.1).getD 0) ++
    o.filter fun e => !(arrayIndex e.1).isSome

theorem objectEntries_perm {V : Type} (o : List (String × V)) : (objectEntries o).Perm o :=
  ((List.mergeSort_perm _ _).append_right _).trans (List.filter_append_perm _ _)

theorem objectEntries_singleton {V : Type} (e : String × V) : objectEntries [e] = [e] :=
  List.perm_singleton.1 (objectEntries_perm [e])

namespace Json

/-! ## Writing -/

mutual

/-- What is read from the text of `JSON.stringify`. -/
def stringified : Json → Json
  | .infinite _ => .null
  | .array items => .array (stringifiedItems items)
  | .object fields => .object (stringifiedFields fields)
  | v => v

def stringifiedItems : List Json → List Json
  | [] => []
  | v :: vs => v.stringified :: stringifiedItems vs

def stringifiedFields : List (String × Json) → List (String × Json)
  | [] => []
  | (name, v) :: fields => (name, v.stringified) :: stringifiedFields fields

end

mutual

/-- What was written once is written as it is. -/
theorem stringified_stringified : ∀ v : Json, v.stringified.stringified = v.stringified
  | .null | .bool _ | .number _ | .infinite _ | .string _ => rfl
  | .array items => congrArg Json.array (stringifiedItems_idem items)
  | .object fields => congrArg Json.object (stringifiedFields_idem fields)

theorem stringifiedItems_idem :
    ∀ vs : List Json, stringifiedItems (stringifiedItems vs) = stringifiedItems vs
  | [] => rfl
  | v :: vs => congrArg₂ _ (stringified_stringified v) (stringifiedItems_idem vs)

theorem stringifiedFields_idem : ∀ fields : List (String × Json),
    stringifiedFields (stringifiedFields fields) = stringifiedFields fields
  | [] => rfl
  | (name, v) :: fields =>
    congrArg₂ _ (congrArg (Prod.mk name) (stringified_stringified v)) (stringifiedFields_idem fields)

end

theorem keys_stringifiedFields (fields : List (String × Json)) :
    keys (stringifiedFields fields) = keys fields := by
  induction fields with
  | nil => rfl
  | cons e fields ih =>
    rw [stringifiedFields]
    exact congrArg (e.1 :: ·) ih

theorem lookup_stringifiedFields (fields : List (String × Json)) (name : String) :
    (stringifiedFields fields).lookup name = (fields.lookup name).map stringified := by
  induction fields with
  | nil => rfl
  | cons e fields ih =>
    rw [stringifiedFields, lookup_cons, lookup_cons, ih]
    split_ifs <;> rfl

theorem stringified_eq_string {v : Json} {s : String} (h : v.stringified = .string s) :
    v = .string s := by
  cases v with
  | string t => exact h
  | _ => cases h

/-! ## Numbers -/

/-- The double that is closest to a number, the even one of two. -/
def toDouble (q : ℚ) : Json :=
  let x := |q|
  if x = 0 then .number 0
  else
    let unit : ℚ := 2 ^ max (Int.log 2 x - 52) (-1074)
    let m := ⌊x / unit⌋
    let rest := x / unit - m
    let m := if rest < 1 / 2 ∨ rest = 1 / 2 ∧ m % 2 = 0 then m else m + 1
    if 2 ^ 1024 ≤ m * unit then .infinite (q < 0)
    else .number (if q < 0 then -(m * unit) else m * unit)

def digitsValue (ds : List Char) : ℕ := ds.foldl (fun n c => 10 * n + (c.toNat - 48)) 0

/-- The sign `-` in front, if there is one. -/
def signed : List Char → Bool × List Char
  | '-' :: cs => (true, cs)
  | cs => (false, cs)

/-- The digits in front, at least one. -/
def digits (cs : List Char) : Option (List Char × List Char) :=
  let ds := cs.takeWhile Char.isDigit
  if ds = [] then none else some (ds, cs.dropWhile Char.isDigit)

def fraction : List Char → Option (List Char × List Char)
  | '.' :: cs => digits cs
  | cs => some ([], cs)

def exponent : List Char → Option (ℤ × List Char)
  | c :: cs =>
    if c = 'e' ∨ c = 'E' then do
      let (negative, cs) := match cs with
        | '+' :: cs => (false, cs)
        | cs => signed cs
      let (ds, cs) ← digits cs
      some (if negative then -digitsValue ds else digitsValue ds, cs)
    else some (0, c :: cs)
  | [] => some (0, [])

def parseNumber (cs : List Char) : Option (Json × List Char) := do
  let (negative, cs) := signed cs
  let (whole, cs) ← digits cs
  let (part, cs) ← fraction cs
  let (e, cs) ← exponent cs
  if whole.head? = some '0' ∧ whole.length ≠ 1 then none
  else
    let n : ℚ := digitsValue (whole ++ part) * 10 ^ (e - part.length)
    some (toDouble (if negative then -n else n), cs)

/-! ## Strings -/

def hexDigit (c : Char) : Option ℕ :=
  if c.isDigit then some (c.toNat - 48)
  else if 'a' ≤ c ∧ c ≤ 'f' then some (c.toNat - 87)
  else if 'A' ≤ c ∧ c ≤ 'F' then some (c.toNat - 55)
  else none

/-- The four digits behind `u`. -/
def hexCode (a b c d : Char) : Option ℕ := do
  let ds ← [a, b, c, d].mapM hexDigit
  some (ds.foldl (fun n digit => 16 * n + digit) 0)

/-- The character behind a backslash. -/
def escape : Char → Option ℕ
  | '"' => some 34
  | '\\' => some 92
  | '/' => some 47
  | 'b' => some 8
  | 'f' => some 12
  | 'n' => some 10
  | 'r' => some 13
  | 't' => some 9
  | _ => none

/-- The codes of a string up to its closing quote, and what is behind it. -/
def parseString : List Char → Option (List ℕ × List Char)
  | [] => none
  | '"' :: cs => some ([], cs)
  | '\\' :: 'u' :: a :: b :: c :: d :: cs => do
    let code ← hexCode a b c d
    let (codes, cs) ← parseString cs
    some (code :: codes, cs)
  | '\\' :: c :: cs => do
    let code ← escape c
    let (codes, cs) ← parseString cs
    some (code :: codes, cs)
  | c :: cs =>
    if c.toNat < 32 ∨ c = '\\' then none
    else do
      let (codes, cs) ← parseString cs
      some (c.toNat :: codes, cs)

/-- The characters of codes, of which two escaped ones may be a surrogate pair; a lone
    surrogate is replaced, as when the string is sent. -/
def fromCodes : List ℕ → List Char
  | hi :: lo :: codes =>
    if 0xd800 ≤ hi ∧ hi < 0xdc00 ∧ 0xdc00 ≤ lo ∧ lo < 0xe000 then
      Char.ofNat (0x10000 + (hi - 0xd800) * 0x400 + (lo - 0xdc00)) :: fromCodes codes
    else (if 0xd800 ≤ hi ∧ hi < 0xe000 then '\ufffd' else Char.ofNat hi) :: fromCodes (lo :: codes)
  | [code] => [if 0xd800 ≤ code ∧ code < 0xe000 then '\ufffd' else Char.ofNat code]
  | [] => []

/-! ## Values -/

def skipSpace (cs : List Char) : List Char := cs.dropWhile fun c => c ∈ [' ', '\t', '\n', '\r']

mutual

/-- The value in front; the number bounds the depth and the lengths of what it reads. -/
def parseValue : ℕ → List Char → Option (Json × List Char)
  | 0, _ => none
  | n + 1, cs =>
    match skipSpace cs with
    | 'n' :: 'u' :: 'l' :: 'l' :: cs => some (.null, cs)
    | 't' :: 'r' :: 'u' :: 'e' :: cs => some (.bool true, cs)
    | 'f' :: 'a' :: 'l' :: 's' :: 'e' :: cs => some (.bool false, cs)
    | '"' :: cs => do
      let (codes, cs) ← parseString cs
      some (.string (String.ofList (fromCodes codes)), cs)
    | '[' :: cs =>
      match skipSpace cs with
      | ']' :: cs => some (.array [], cs)
      | cs => do
        let (items, cs) ← parseItems n cs
        some (.array items, cs)
    | '{' :: cs =>
      match skipSpace cs with
      | '}' :: cs => some (.object [], cs)
      | cs => do
        let (fields, cs) ← parseFields n cs
        some (.object (objectEntries (setAll fields [])), cs)
    | cs => parseNumber cs

def parseItems : ℕ → List Char → Option (List Json × List Char)
  | 0, _ => none
  | n + 1, cs => do
    let (item, cs) ← parseValue n cs
    match skipSpace cs with
    | ',' :: cs => do
      let (items, cs) ← parseItems n cs
      some (item :: items, cs)
    | ']' :: cs => some ([item], cs)
    | _ => none

def parseFields : ℕ → List Char → Option (List (String × Json) × List Char)
  | 0, _ => none
  | n + 1, cs => do
    let (codes, cs) ← match skipSpace cs with
      | '"' :: cs => parseString cs
      | _ => none
    let (value, cs) ← match skipSpace cs with
      | ':' :: cs => parseValue n cs
      | _ => none
    let field := (String.ofList (fromCodes codes), value)
    match skipSpace cs with
    | ',' :: cs => do
      let (fields, cs) ← parseFields n cs
      some (field :: fields, cs)
    | '}' :: cs => some ([field], cs)
    | _ => none

end

/-- `JSON.parse`; `none` throws. Every character read allows two more calls. -/
def parse (s : String) : Option Json := do
  let (v, cs) ← parseValue (2 * s.length + 1) s.toList
  if skipSpace cs = [] then some v else none

theorem length_parseString : ∀ {cs : List Char} {codes : List ℕ} {rest : List Char},
    parseString cs = some (codes, rest) → codes.length + rest.length + 1 ≤ cs.length := by
  intro cs
  fun_induction parseString cs with
  | case1 => intro codes rest h; cases h
  | case2 cs => intro codes rest h; cases h; simp
  | case3 a b c d cs ih =>
    intro codes rest h
    obtain ⟨code, _, h⟩ := Option.bind_eq_some_iff.1 h
    obtain ⟨⟨codes', rest'⟩, hparse, h⟩ := Option.bind_eq_some_iff.1 h
    cases h
    have := ih hparse
    simp only [List.length_cons]
    omega
  | case4 c cs _ ih =>
    intro codes rest h
    obtain ⟨code, _, h⟩ := Option.bind_eq_some_iff.1 h
    obtain ⟨⟨codes', rest'⟩, hparse, h⟩ := Option.bind_eq_some_iff.1 h
    cases h
    have := ih hparse
    simp only [List.length_cons]
    omega
  | case5 => intro codes rest h; cases h
  | case6 c cs _ _ _ _ ih =>
    intro codes rest h
    obtain ⟨⟨codes', rest'⟩, hparse, h⟩ := Option.bind_eq_some_iff.1 h
    cases h
    have := ih hparse
    simp only [List.length_cons]
    omega

theorem length_fromCodes (codes : List ℕ) : (fromCodes codes).length ≤ codes.length := by
  fun_induction fromCodes codes with
  | case1 hi lo codes _ ih => simp only [List.length_cons]; omega
  | case2 hi lo codes _ ih => simp only [List.length_cons] at ih ⊢; omega
  | case3 code => simp
  | case4 => simp

theorem length_skipSpace (cs : List Char) : (skipSpace cs).length ≤ cs.length :=
  (List.dropWhile_sublist _).length_le

theorem toDouble_ne_string (q : ℚ) (s : String) : toDouble q ≠ .string s := by
  unfold toDouble
  dsimp only
  split_ifs <;> simp

theorem parseNumber_ne_string {cs rest : List Char} {s : String} :
    parseNumber cs ≠ some (.string s, rest) := by
  intro h
  unfold parseNumber at h
  obtain ⟨⟨whole, cs₁⟩, _, h⟩ := Option.bind_eq_some_iff.1 h
  obtain ⟨⟨part, cs₂⟩, _, h⟩ := Option.bind_eq_some_iff.1 h
  obtain ⟨⟨e, cs₃⟩, _, h⟩ := Option.bind_eq_some_iff.1 h
  dsimp only at h
  split_ifs at h
  all_goals exact toDouble_ne_string _ s (Prod.mk.inj (Option.some.inj h)).1

theorem length_parseValue {n : ℕ} {cs rest : List Char} {s : String}
    (h : parseValue n cs = some (.string s, rest)) : s.length + 2 ≤ cs.length := by
  have := length_skipSpace cs
  cases n with
  | zero => cases h
  | succ n =>
    unfold parseValue at h
    split at h
    · cases h
    · cases h
    · cases h
    · rename_i hcs
      obtain ⟨⟨codes, rest'⟩, hparse, h⟩ := Option.bind_eq_some_iff.1 h
      cases h
      have hlength := length_parseString hparse
      have hcodes := length_fromCodes codes
      rw [hcs, List.length_cons] at this
      simp only [String.length_ofList]
      omega
    · split at h
      · cases h
      · obtain ⟨_, _, h⟩ := Option.bind_eq_some_iff.1 h
        cases h
    · split at h
      · cases h
      · obtain ⟨_, _, h⟩ := Option.bind_eq_some_iff.1 h
        cases h
    · exact absurd h parseNumber_ne_string

/-- The text of a string is longer than the string, so no string is its own text. -/
theorem length_lt_of_parse {text s : String} (h : parse text = some (.string s)) :
    s.length < text.length := by
  obtain ⟨⟨v, cs⟩, hparse, h⟩ := Option.bind_eq_some_iff.1 h
  dsimp only at h
  split_ifs at h
  cases h
  have := length_parseValue hparse
  rw [String.length_toList] at this
  omega

end Json

end ComputeContract
