import ComputeContract.Util.Json
import ComputeContract.Util.Text

/-!
# The text of a JSON value

`JSON.stringify`, without blanks. The text of a number is a parameter: `ReadsBack` says that
`JSON.parse` reads it as the number again.

* `parseString_quote`: a string comes back from between its quotes;
* `parse_write`: an object of strings and numbers comes back.
-/

namespace ComputeContract.Json

open AssocList

/-! ## Strings -/

def hexChar (n : ℕ) : Char := if n < 10 then Char.ofNat (48 + n) else Char.ofNat (87 + n)

/-- A character in a string. -/
def quoteChar (c : Char) : List Char :=
  if c = '"' then ['\\', '"']
  else if c = '\\' then ['\\', '\\']
  else if c = '\x08' then ['\\', 'b']
  else if c = '\t' then ['\\', 't']
  else if c = '\n' then ['\\', 'n']
  else if c = '\x0c' then ['\\', 'f']
  else if c = '\r' then ['\\', 'r']
  else if c.toNat < 32 then ['\\', 'u', '0', '0', hexChar (c.toNat / 16), hexChar (c.toNat % 16)]
  else [c]

def quote (s : String) : List Char := '"' :: s.toList.flatMap quoteChar ++ ['"']

theorem hexDigit_hexChar {n : ℕ} (h : n < 16) : hexDigit (hexChar n) = some n := by
  have hall : ∀ n < 16, hexDigit (hexChar n) = some n := by decide +kernel
  exact hall n h

/-- A character comes back. -/
theorem parseString_quoteChar (c : Char) (rest : List Char) :
    parseString (quoteChar c ++ rest) =
      (parseString rest).map fun r => (c.toNat :: r.1, r.2) := by
  have hbind : ∀ (code : ℕ) (x : Option (List ℕ × List Char)),
      (x.bind fun r => some (code :: r.1, r.2)) = x.map fun r => (code :: r.1, r.2) := by
    rintro code (_ | r) <;> rfl
  unfold quoteChar
  split_ifs with h₁ h₂ h₃ h₄ h₅ h₆ h₇ h₈
  · subst h₁
    exact hbind 34 _
  · subst h₂
    exact hbind 92 _
  · subst h₃
    exact hbind 8 _
  · subst h₄
    exact hbind 9 _
  · subst h₅
    exact hbind 10 _
  · subst h₆
    exact hbind 12 _
  · subst h₇
    exact hbind 13 _
  · have hcode : hexCode '0' '0' (hexChar (c.toNat / 16)) (hexChar (c.toNat % 16)) =
        some c.toNat := by
      have hzero : hexDigit '0' = some 0 := rfl
      have hvalue : 16 * (c.toNat / 16) + c.toNat % 16 = c.toNat := Nat.div_add_mod _ _
      simp only [hexCode, List.mapM_cons, List.mapM_nil, hzero,
        hexDigit_hexChar (show c.toNat / 16 < 16 by omega),
        hexDigit_hexChar (show c.toNat % 16 < 16 by omega)]
      exact congrArg some (by simp [hvalue])
    simp only [List.cons_append, List.nil_append]
    rw [parseString, hcode]
    exact hbind _ _
  · -- A character that stands for itself.
    simp only [List.cons_append, List.nil_append]
    rw [parseString.eq_def]
    split
    · next heq => cases heq
    · next heq => exact absurd (List.cons.inj heq).1 h₁
    · next heq => exact absurd (List.cons.inj heq).1 h₂
    · next heq => exact absurd (List.cons.inj heq).1 h₂
    · next heq =>
      obtain ⟨rfl, rfl⟩ := List.cons.inj heq
      rw [if_neg (by simp [h₂, h₈])]
      exact hbind _ _

/-- A string comes back from between its quotes. -/
theorem parseString_quote (cs rest : List Char) :
    parseString (cs.flatMap quoteChar ++ '"' :: rest) = some (cs.map Char.toNat, rest) := by
  induction cs with
  | nil => rfl
  | cons c cs ih => rw [List.flatMap_cons, List.append_assoc, parseString_quoteChar, ih]; rfl

theorem fromCodes_toNat (cs : List Char) : fromCodes (cs.map Char.toNat) = cs := by
  have hone : ∀ c : Char, (if 0xd800 ≤ c.toNat ∧ c.toNat < 0xe000 then '\ufffd'
      else Char.ofNat c.toNat) = c := by
    intro c
    rw [if_neg, Char.ofNat_toNat]
    have := not_surrogate c
    omega
  induction cs with
  | nil => rfl
  | cons c cs ih =>
    cases cs with
    | nil => exact congrArg (· :: []) (hone c)
    | cons c' cs =>
      have hno : ¬ (0xd800 ≤ c.toNat ∧ c.toNat < 0xdc00 ∧ 0xdc00 ≤ c'.toNat ∧ c'.toNat < 0xe000) := by
        have := not_surrogate c
        omega
      rw [List.map_cons, List.map_cons, fromCodes, if_neg hno, hone, ← List.map_cons, ih]

/-! ## Values -/

section
variable (numberText : ℚ → List Char)

mutual

/-- `JSON.stringify` -/
def write : Json → List Char
  | .null | .infinite _ => ['n', 'u', 'l', 'l']
  | .bool true => ['t', 'r', 'u', 'e']
  | .bool false => ['f', 'a', 'l', 's', 'e']
  | .number q => numberText q
  | .string s => quote s
  | .array items => '[' :: writeItems items ++ [']']
  | .object fields => '{' :: writeFields fields ++ ['}']

def writeItems : List Json → List Char
  | [] => []
  | [v] => write v
  | v :: vs => write v ++ ',' :: writeItems vs

def writeFields : List (String × Json) → List Char
  | [] => []
  | [(name, v)] => quote name ++ ':' :: write v
  | (name, v) :: fields => quote name ++ ':' :: write v ++ ',' :: writeFields fields

end

/-- What may stand behind a value. -/
def Ends (rest : List Char) : Prop := ∀ c ∈ rest.head?, c = ',' ∨ c = ']' ∨ c = '}'

/-- The texts of numbers are read as the numbers. -/
def ReadsBack : Prop :=
  ∀ q rest, toDouble q = .number q → Ends rest →
    parseNumber (numberText q ++ rest) = some (.number q, rest)

end

/-- A value that is neither an array nor an object. -/
def Scalar : Json → Prop
  | .number q => toDouble q = .number q
  | .array _ | .object _ => False
  | _ => True

section
variable {numberText : ℚ → List Char} {n : ℕ} {v : Json} {cs rest : List Char}

theorem skipSpace_cons {c : Char} (h : c ∉ [' ', '\t', '\n', '\r']) (cs : List Char) :
    skipSpace (c :: cs) = c :: cs :=
  List.dropWhile_cons_of_neg (by simpa using h)

/-- A number starts with a digit, or with its sign. -/
theorem head_of_parseNumber {r : Json × List Char} (h : parseNumber cs = some r) :
    ∃ c cs', cs = c :: cs' ∧ (c = '-' ∨ c.isDigit) := by
  cases cs with
  | nil => cases h
  | cons c cs =>
    refine ⟨c, cs, rfl, or_iff_not_imp_left.2 fun hminus => ?_⟩
    by_contra hdigit
    have hsigned : signed (c :: cs) = (false, c :: cs) := by
      unfold signed
      split
      · next heq => exact absurd (List.cons.inj heq).1 hminus
      · rfl
    have hdigits : digits (c :: cs) = none := by
      rw [digits, List.takeWhile_cons_of_neg hdigit]
      rfl
    simp only [parseNumber, hsigned, hdigits] at h
    cases h

theorem parseValue_of_parseNumber {r : Json × List Char} (h : parseNumber cs = some r) :
    parseValue (n + 1) cs = some r := by
  obtain ⟨c, cs, rfl, hc⟩ := head_of_parseNumber h
  have hne : ∀ d, d.isDigit = false → d ≠ '-' → c ≠ d := by
    rintro d hd hminus rfl
    rcases hc with hc | hc
    · exact hminus hc
    · rw [hd] at hc
      cases hc
  rw [parseValue, skipSpace_cons]
  · split
    all_goals first
      | exact h
      | (next heq => exact absurd (List.cons.inj heq).1 (hne _ (by decide) (by decide)))
  · simp only [List.mem_cons, List.not_mem_nil, or_false, not_or]
    exact ⟨hne _ (by decide) (by decide), hne _ (by decide) (by decide),
      hne _ (by decide) (by decide), hne _ (by decide) (by decide)⟩

theorem parseValue_quote (s : String) :
    parseValue (n + 1) (quote s ++ rest) = some (.string s, rest) := by
  rw [parseValue, quote, List.append_assoc, List.cons_append, skipSpace_cons (by decide)]
  change (parseString (s.toList.flatMap quoteChar ++ '"' :: rest)).bind
    (fun r => some (Json.string (String.ofList (fromCodes r.1)), r.2)) = _
  rw [parseString_quote]
  change some (Json.string (String.ofList (fromCodes (s.toList.map Char.toNat))), rest) = _
  rw [fromCodes_toNat, String.ofList_toList]

/-- A value that is not nested comes back. -/
theorem parseValue_write (hnumbers : ReadsBack numberText) (h : Scalar v) (hrest : Ends rest) :
    parseValue (n + 1) (write numberText v ++ rest) = some (v.stringified, rest) := by
  cases v with
  | null => rfl
  | infinite _ => rfl
  | bool b => cases b <;> rfl
  | number q => exact parseValue_of_parseNumber (hnumbers q rest h hrest)
  | string s => exact parseValue_quote s
  | array items => cases h
  | object fields => cases h

/-- A field with others behind it. -/
theorem parseFields_comma {name : String} {cs' : List Char} {fields : List (String × Json)}
    (h : parseValue n cs = some (v, ',' :: cs')) (hfields : parseFields n cs' = some (fields, rest)) :
    parseFields (n + 1) (quote name ++ ':' :: cs) = some ((name, v) :: fields, rest) := by
  rw [parseFields, quote, List.append_assoc, List.cons_append, skipSpace_cons (by decide)]
  simp only [List.singleton_append, parseString_quote, skipSpace_cons (show ':' ∉ _ by decide),
    skipSpace_cons (show ',' ∉ _ by decide), h, hfields, bind, Option.bind, fromCodes_toNat,
    String.ofList_toList]

/-- The last field. -/
theorem parseFields_brace {name : String} (h : parseValue n cs = some (v, '}' :: rest)) :
    parseFields (n + 1) (quote name ++ ':' :: cs) = some ([(name, v)], rest) := by
  rw [parseFields, quote, List.append_assoc, List.cons_append, skipSpace_cons (by decide)]
  simp only [List.singleton_append, parseString_quote, skipSpace_cons (show ':' ∉ _ by decide),
    skipSpace_cons (show '}' ∉ _ by decide), h, bind, Option.bind, fromCodes_toNat,
    String.ofList_toList]

/-- The fields of an object come back. -/
theorem parseFields_write (hnumbers : ReadsBack numberText) {fields : List (String × Json)}
    (hne : fields ≠ []) (h : ∀ e ∈ fields, Scalar e.2) (hn : fields.length < n) :
    parseFields n (writeFields numberText fields ++ '}' :: rest) =
      some (stringifiedFields fields, rest) := by
  induction fields generalizing n with
  | nil => exact absurd rfl hne
  | cons e fields ih =>
    obtain ⟨name, v⟩ := e
    obtain ⟨n, rfl⟩ : ∃ m, n = m + 2 := ⟨n - 2, by rw [List.length_cons] at hn; omega⟩
    have hv : Scalar v := h _ List.mem_cons_self
    cases fields with
    | nil =>
      have hvalue := @parseValue_write numberText n v ('}' :: rest) hnumbers hv (by simp [Ends])
      rw [writeFields, List.append_assoc, List.cons_append]
      exact parseFields_brace hvalue
    | cons e fields =>
      have hvalue := @parseValue_write numberText n v
        (',' :: (writeFields numberText (e :: fields) ++ '}' :: rest)) hnumbers hv (by simp [Ends])
      have hrest := ih (List.cons_ne_nil _ _) (fun e' he' => h e' (List.mem_cons_of_mem _ he'))
        (show _ < n + 1 by simp only [List.length_cons] at hn ⊢; omega)
      simp only [writeFields, List.append_assoc, List.cons_append]
      exact parseFields_comma hvalue hrest

theorem length_le_writeFields (fields : List (String × Json)) :
    fields.length ≤ (writeFields numberText fields).length := by
  induction fields with
  | nil => exact Nat.zero_le _
  | cons e fields ih =>
    obtain ⟨name, v⟩ := e
    cases fields with
    | nil =>
      simp only [writeFields, List.length_append, List.length_cons, List.length_nil]
      omega
    | cons e fields =>
      simp only [writeFields, List.length_append, List.length_cons] at ih ⊢
      omega

/-- A name is no array index if one of its characters is no digit. -/
theorem arrayIndex_eq_none {name : String} (h : name.toList.any fun c => !c.isDigit) :
    arrayIndex name = none := by
  rw [arrayIndex, Option.filter_eq_none_iff]
  intro n _ hn
  obtain ⟨c, hc, hdigit⟩ := List.any_eq_true.1 h
  have hname : n.repr = name := (of_decide_eq_true hn).1
  rw [← hname, Nat.toList_repr] at hc
  rw [Nat.isDigit_of_mem_toDigits (by decide) (by decide) hc] at hdigit
  exact absurd hdigit (by decide)

theorem objectEntries_of_names {V : Type} {o : List (String × V)}
    (h : ∀ name ∈ keys o, arrayIndex name = none) : objectEntries o = o := by
  have hno : (o.filter fun e => (arrayIndex e.1).isSome) = [] :=
    List.filter_eq_nil_iff.2 fun e he => by rw [h _ (mem_keys_of_mem he)]; decide
  have hall : (o.filter fun e => !(arrayIndex e.1).isSome) = o :=
    List.filter_eq_self.2 fun e he => by rw [h _ (mem_keys_of_mem he)]; rfl
  rw [objectEntries, hno, hall, List.mergeSort_nil, List.nil_append]

/-- An object comes back, in its order if no name is an array index. -/
theorem parse_write (hnumbers : ReadsBack numberText) {fields : List (String × Json)}
    (hne : fields ≠ []) (h : ∀ e ∈ fields, Scalar e.2) (hn : (keys fields).Nodup)
    (hnames : ∀ name ∈ keys fields, arrayIndex name = none) :
    parse (String.ofList (write numberText (.object fields))) =
      some (.object (stringifiedFields fields)) := by
  obtain ⟨tail, htail⟩ : ∃ tail, writeFields numberText fields = '"' :: tail := by
    obtain ⟨⟨name, v⟩, fields, rfl⟩ := List.exists_cons_of_ne_nil hne
    cases fields <;> exact ⟨_, rfl⟩
  have hlength := @length_le_writeFields numberText fields
  have hfields := @parseFields_write numberText
    (2 * (writeFields numberText fields).length + 4) [] hnumbers fields hne h (by omega)
  have hvalue : parseValue (2 * (writeFields numberText fields).length + 5)
      (write numberText (.object fields)) = some (.object (stringifiedFields fields), []) := by
    have hentries : objectEntries (setAll (stringifiedFields fields) []) =
        stringifiedFields fields := by
      rw [setAll, foldl_set_nil (by rwa [keys_stringifiedFields])]
      exact objectEntries_of_names (by rwa [keys_stringifiedFields])
    rw [write, parseValue, List.cons_append, skipSpace_cons (by decide)]
    simp only [htail, List.cons_append, skipSpace_cons (show '"' ∉ _ by decide)] at hfields ⊢
    split
    · next heq => exact absurd (List.cons.inj heq).1 (by decide)
    · rw [hfields]
      exact congrArg (fun o => some (Json.object o, ([] : List Char))) hentries
  have hfuel : 2 * (String.ofList (write numberText (.object fields))).length + 1 =
      2 * (writeFields numberText fields).length + 5 := by
    rw [← String.length_toList, String.toList_ofList, write]
    simp only [List.length_append, List.length_cons, List.length_nil]
    omega
  rw [parse, hfuel, String.toList_ofList, hvalue]
  rfl

end

end ComputeContract.Json
