import ComputeContract.Lib.Except
import ComputeContract.Lib.Split
import ComputeContract.Lib.Strip
import ComputeContract.Rbac.Record
import ComputeContract.Util.Json
import ComputeContract.Util.Text

/-!
# Unit files

How the `systemctl` of the containers reads a unit. A line is cut at the first `#` or `;`, wherever
it is; the values of a key are joined by line feeds, and the unit is made of what was read.

* `Reads`: every key has the values that are assigned to it, where a line is a comment only if it
  begins with a `#` or a `;`, and the unit is made of these;
* `cutEntry_entryOf`: what the cut leaves of a line;
* `reads_iff`: when the parser reads so, if no header of a section is cut.

A text is the list of its characters.
-/

namespace ComputeContract.UnitFile

open AssocList

/-! ## Lines -/

/-- The characters that start a comment. -/
def isSign (c : Char) : Bool := c = '#' || c = ';'

/-- There is no sign. -/
def Plain (cs : List Char) : Prop := ∀ c ∈ cs, isSign c = false

instance : DecidablePred Plain := fun cs =>
  decidable_of_iff (cs.all fun c => !isSign c) (by simp [Plain])

/-- The line up to the first sign. -/
def cut (line : List Char) : List Char := line.takeWhile fun c => !isSign c

/-- What a line says. -/
inductive Entry
  | skip
  | header (name : String)
  | assign (key : String) (val : List Char)
  deriving DecidableEq

/-- What `.` does not match. -/
def lineTerminators : List Char := ['\n', '\r', '\u2028', '\u2029']

/-- `line.match(/^\[(.+)\]$/)` -/
def matchSection : List Char → Option (List Char)
  | '[' :: rest =>
    let name := rest.dropLast
    if rest.getLast? = some ']' ∧ name ≠ [] ∧ name.all (· ∉ lineTerminators) then some name
    else none
  | _ => none

/-- The two sides of the first `=`. -/
def matchAssignment (line : List Char) : Option (List Char × List Char) :=
  if '=' ∈ line then
    some (strip isSpace (line.takeWhile (· ≠ '=')), strip isSpace ((line.dropWhile (· ≠ '=')).drop 1))
  else none

def assignEntry (sides : Option (List Char × List Char)) : Entry :=
  match sides with
  | some (key, val) => .assign (String.ofList key) val
  | none => .skip

/-- What a line without a comment says. -/
def entryOf (line : List Char) : Entry :=
  match matchSection (strip isSpace line) with
  | some name => .header (String.ofList name)
  | none => assignEntry (matchAssignment (strip isSpace line))

/-! ## The parser -/

abbrev IniFile := List (String × List (String × List Char))

/-- `String(Object.prototype[name])` -/
def functionText (name : String) : List Char :=
  ("function " ++ (if name = "constructor" then "Object" else name) ++
    "() \x7b [native code] \x7d").toList

/-- The functions that every object has, as they are when a file is parsed. A section with the name of
    one of them is that function: what is read from it, as a text, and what cannot be. -/
structure Realm where
  property : String → String → Option (List Char)
  /-- Reading or writing the property throws. -/
  refuses : String → String → Bool
  isSome_of_refuses : ∀ name key, refuses name key → (property name key).isSome

/-- The functions with nothing but their names, which cannot be written. -/
def Realm.names : Realm where
  property name key := if key = "name" then some name.toList else none
  refuses _ key := key = "name"
  isSome_of_refuses := fun _ key h => by rw [if_pos (of_decide_eq_true h)]; rfl

variable (realm : Realm)

/-- What the object of a section has before anything is written to it. -/
def inherited (name key : String) : Option (List Char) :=
  if name ∈ objectPrototype then realm.property name key
  else if key ∈ objectPrototype then some (functionText key)
  else none

/-- What was written. -/
def written (out : IniFile) (name key : String) : Option (List Char) :=
  (out.lookup name).bind fun keys => keys.lookup key

/-- `out[name]?.[key]` -/
def read (out : IniFile) (name key : String) : Option (List Char) :=
  (written out name key).or (inherited realm name key)

/-- `out[name] ??= {}` -/
def openSection (out : IniFile) (name : String) : IniFile :=
  if (out.lookup name).isSome then out else set name [] out

/-- `old !== undefined ? old + "\n" + val : val` -/
def append (old : Option (List Char)) (val : List Char) : List Char :=
  match old with
  | some old => old ++ '\n' :: val
  | none => val

/-- `out[name][key] = append(out[name][key], val)` -/
def write (out : IniFile) (name key : String) (val : List Char) : Except Thrown IniFile :=
  if name ∈ objectPrototype ∧ realm.refuses name key then .error .typeError
  else .ok (set name (set key (append (read realm out name key) val) ((out.lookup name).getD [])) out)

/-- The state of the loop: what was read, and the section. -/
structure State where
  out : IniFile
  sec : String

def parseLine (st : State) (line : List Char) : Except Thrown State :=
  match entryOf (cut line) with
  | .skip => .ok st
  | .header name => .ok ⟨openSection st.out name, name⟩
  | .assign key val =>
    if st.sec = "" then .ok st
    else do
      let out ← write realm st.out st.sec key val
      return { st with out }

def parseIni (text : List Char) : Except Thrown IniFile := do
  let st ← (text.splitOn '\n').foldlM (parseLine realm) ⟨[], ""⟩
  return st.out

/-! ## The unit -/

structure Unit where
  name : String
  type : List Char
  execStart : List Char
  execStartPre : List (List Char)
  workingDirectory : List Char
  environment : List (List Char)
  restart : List Char
  /-- A number. -/
  restartSec : Json
  remainAfterExit : Bool
  timeoutStopSec : Json
  conditionPathExists : List (List Char)

def unitDefaults (name : String) : Unit where
  name
  type := "simple".toList
  execStart := []
  execStartPre := []
  workingDirectory := []
  environment := []
  restart := "no".toList
  restartSec := .number 5
  remainAfterExit := false
  timeoutStopSec := .number 10
  conditionPathExists := []

/-- `parseInt(cs, 10)`; `none` is `NaN`. -/
def parseInt (cs : List Char) : Option Json :=
  let (negative, cs) := match cs.dropWhile isSpace with
    | '+' :: cs => (false, cs)
    | cs => Json.signed cs
  let ds := cs.takeWhile Char.isDigit
  let n : ℚ := Json.digitsValue ds
  if ds = [] then none else some (Json.toDouble (if negative then -n else n))

/-- `parseInt(cs, 10) || otherwise` -/
def seconds (cs : List Char) (otherwise : ℚ) : Json :=
  match parseInt cs with
  | none => .number otherwise
  | some (.number q) => .number (if q = 0 then otherwise else q)
  | some v => v

/-- `if (v) u.field = f(v)` -/
def whenSet {T : Type} (v : Option (List Char)) (f : List Char → T) (otherwise : T) : T :=
  match v with
  | none | some [] => otherwise
  | some cs => f cs

def parseUnitFile (text : List Char) (name : String) : Except Thrown Unit := do
  let ini ← parseIni realm text
  let svc (key : String) := read realm ini "Service" key
  let unt (key : String) := read realm ini "Unit" key
  let u := unitDefaults name
  return { u with
    type := whenSet (svc "Type") id u.type
    execStart := whenSet (svc "ExecStart") id u.execStart
    execStartPre := whenSet (svc "ExecStartPre") (·.splitOn '\n') u.execStartPre
    workingDirectory := whenSet (svc "WorkingDirectory") id u.workingDirectory
    environment := whenSet (svc "Environment") (·.splitOn '\n') u.environment
    restart := whenSet (svc "Restart") id u.restart
    restartSec := whenSet (svc "RestartSec") (seconds · 5) u.restartSec
    remainAfterExit := whenSet (svc "RemainAfterExit") (fun v => v = "yes".toList || v = "true".toList)
      u.remainAfterExit
    timeoutStopSec := whenSet (svc "TimeoutStopSec") (seconds · 10) u.timeoutStopSec
    conditionPathExists := whenSet (unt "ConditionPathExists") (·.splitOn '\n') u.conditionPathExists }

/-! ## What is assigned -/

/-- A value that is assigned to a key of a section. -/
structure Assignment where
  sec : String
  key : String
  val : List Char
  deriving DecidableEq

/-- The assignments of some lines, from a section on. -/
def assignments (sec : String) : List Entry → List Assignment
  | [] => []
  | .skip :: entries => assignments sec entries
  | .header name :: entries => assignments name entries
  | .assign key val :: entries =>
    if sec = "" then assignments sec entries else ⟨sec, key, val⟩ :: assignments sec entries

/-- The values of a key, in order. -/
def valuesOf (as : List Assignment) (sec key : String) : List (List Char) :=
  (as.filter fun a => a.sec = sec ∧ a.key = key).map Assignment.val

/-- What a line says, where it is a comment only if it begins with a sign. -/
def lineEntry (line : List Char) : Entry :=
  if (strip isSpace line).head?.any isSign then .skip else entryOf line

/-- What a text assigns. -/
def assigned (text : List Char) : List Assignment :=
  assignments "" ((text.splitOn '\n').map lineEntry)

/-- The values, joined by line feeds. -/
def joined (vals : List (List Char)) : Option (List Char) :=
  if vals = [] then none else some (['\n'].intercalate vals)

/-- The unit that is made of the values of the keys. -/
def unitOf (vals : String → String → List (List Char)) (name : String) : Unit :=
  let one (key : String) := ['\n'].intercalate (vals "Service" key)
  let many (sec key : String) := if vals sec key = [[]] then [] else vals sec key
  let ifSet {T : Type} (key : String) (v otherwise : T) := if one key = [] then otherwise else v
  { name
    type := ifSet "Type" (one "Type") "simple".toList
    execStart := one "ExecStart"
    execStartPre := many "Service" "ExecStartPre"
    workingDirectory := one "WorkingDirectory"
    environment := many "Service" "Environment"
    restart := ifSet "Restart" (one "Restart") "no".toList
    restartSec := ifSet "RestartSec" (seconds (one "RestartSec") 5) (.number 5)
    remainAfterExit := one "RemainAfterExit" = "yes".toList || one "RemainAfterExit" = "true".toList
    timeoutStopSec := ifSet "TimeoutStopSec" (seconds (one "TimeoutStopSec") 10) (.number 10)
    conditionPathExists := many "Unit" "ConditionPathExists" }

/-- Every key has the values that are assigned to it, and the unit is made of these. -/
structure Reads (text : List Char) (name : String) : Prop where
  ini : ∃ out, parseIni realm text = .ok out ∧
    ∀ sec key, written out sec key = joined (valuesOf (assigned text) sec key)
  unit : parseUnitFile realm text name = .ok (unitOf (valuesOf (assigned text)) name)

/-! ## The condition -/

/-- The line is not cut, if it is a header, before or after the cut. -/
def HeaderPlain (line : List Char) : Prop :=
  (matchSection (strip isSpace line)).isSome ∨ (matchSection (strip isSpace (cut line))).isSome →
    cut line = line

instance : DecidablePred HeaderPlain := fun line =>
  inferInstanceAs (Decidable (_ ∨ _ → cut line = line))

/-- The key and the value have no sign, and the object of the section does not have the key from
    the start. -/
structure Assignment.Intact (a : Assignment) : Prop where
  key : Plain a.key.toList
  val : Plain a.val
  fresh : inherited realm a.sec a.key = none

/-! ## What the cut leaves -/

section
variable {c : Char} {cs ds line : List Char}

theorem isSign_eq_false (h : isSpace c) : isSign c = false := by
  rw [isSign, Bool.or_eq_false_iff, decide_eq_false_iff_not, decide_eq_false_iff_not]
  constructor
  · rintro rfl
    cases h
  · rintro rfl
    cases h

theorem isSign_of_mem_cut (h : c ∈ cut line) : isSign c = false := by
  simpa using List.mem_takeWhile_imp h

theorem cut_eq_self (h : Plain line) : cut line = line :=
  List.takeWhile_eq_self_iff.2 fun c hc => by rw [h c hc]; rfl

theorem cut_append (h : Plain cs) : cut (cs ++ ds) = cs ++ cut ds :=
  List.takeWhile_append_of_pos fun c hc => by rw [h c hc]; rfl

theorem cut_cons_of_isSign (h : isSign c) : cut (c :: cs) = [] :=
  List.takeWhile_cons_of_neg (by rw [h]; decide)

theorem cut_cons (h : isSign c = false) : cut (c :: cs) = c :: cut cs :=
  List.takeWhile_cons_of_pos (by rw [h]; rfl)

/-- Behind a sign nothing counts. -/
theorem cut_append_of_isSign (h : ¬ Plain cs) : cut (cs ++ ds) = cut cs := by
  induction cs with
  | nil => exact absurd (fun _ hc => absurd hc List.not_mem_nil) h
  | cons c cs ih =>
    rw [List.cons_append]
    by_cases hc : isSign c
    · rw [cut_cons_of_isSign hc, cut_cons_of_isSign hc]
    · have hc : isSign c = false := by simpa using hc
      rw [cut_cons hc, cut_cons hc, ih fun hcs => h (List.forall_mem_cons.2 ⟨hc, hcs⟩)]

/-- The blanks around a line may be dropped before the cut. -/
theorem strip_cut_strip (cs : List Char) :
    strip isSpace (cut (strip isSpace cs)) = strip isSpace (cut cs) := by
  obtain ⟨front, back, hfront, hback, hcs⟩ := eq_strip isSpace cs
  have hblank (ds : List Char) (hds : ∀ c ∈ ds, isSpace c) : Plain ds :=
    fun c hc => isSign_eq_false (hds c hc)
  generalize strip isSpace cs = mid at hcs
  rw [hcs, List.append_assoc, cut_append (hblank front hfront), strip_append_left hfront]
  by_cases hmid : Plain mid
  · rw [cut_append hmid, cut_eq_self hmid, cut_eq_self (hblank back hback),
      strip_append_right hback]
  · rw [cut_append_of_isSign hmid]

/-! ## Assignments -/

theorem matchAssignment_append (h : '=' ∉ cs) :
    matchAssignment (cs ++ '=' :: ds) = some (strip isSpace cs, strip isSpace ds) := by
  have hne : ∀ c ∈ cs, decide (c ≠ '=') := fun c hc =>
    decide_eq_true fun heq => h (heq ▸ hc)
  rw [matchAssignment, if_pos (List.mem_append_right _ List.mem_cons_self),
    List.takeWhile_append_of_pos hne, List.dropWhile_append_of_pos hne,
    List.takeWhile_cons_of_neg (by decide), List.dropWhile_cons_of_neg (by decide), List.append_nil]
  rfl

theorem matchAssignment_strip (line : List Char) :
    matchAssignment (strip isSpace line) = matchAssignment line := by
  have hmem : '=' ∈ strip isSpace line ↔ '=' ∈ line := mem_strip_iff rfl
  obtain ⟨front, back, hfront, hback, hline⟩ := eq_strip isSpace line
  by_cases h : '=' ∈ strip isSpace line
  · obtain ⟨ks, vs, hsplit, hks⟩ := List.eq_append_cons_of_mem h
    have hfront' : '=' ∉ front ++ ks := fun heq => by
      rcases List.mem_append.1 heq with heq | heq
      · cases hfront _ heq
      · exact hks heq
    have hline' : line = (front ++ ks) ++ '=' :: (vs ++ back) := by
      rw [hline, hsplit]
      simp only [List.append_assoc, List.cons_append]
    rw [hsplit, matchAssignment_append hks, hline', matchAssignment_append hfront',
      strip_append_left hfront, strip_append_right hback]
  · rw [matchAssignment, if_neg h, matchAssignment, if_neg fun hline => h (hmem.2 hline)]

/-- What the cut leaves of what a line says. -/
def cutEntry : Entry → Entry
  | .assign key val =>
    if Plain key.toList then .assign key (strip isSpace (cut val)) else .skip
  | e => e

theorem plain_strip_iff : Plain (strip isSpace cs) ↔ Plain cs := by
  constructor
  · intro h c hc
    by_cases hspace : isSpace c
    · exact isSign_eq_false hspace
    · exact h c ((mem_strip_iff (by simpa using hspace)).2 hc)
  · exact fun h c hc => h c (mem_of_mem_strip hc)

theorem matchAssignment_cut (line : List Char) :
    assignEntry (matchAssignment (cut line)) = cutEntry (assignEntry (matchAssignment line)) := by
  by_cases h : '=' ∈ line
  · obtain ⟨ks, vs, rfl, hks⟩ := List.eq_append_cons_of_mem h
    rw [matchAssignment_append hks]
    change _ = if Plain (String.ofList (strip isSpace ks)).toList then _ else _
    rw [String.toList_ofList]
    by_cases hplain : Plain ks
    · have hcut : cut (ks ++ '=' :: vs) = ks ++ '=' :: cut vs := cut_append hplain
      rw [if_pos (plain_strip_iff.2 hplain), hcut, matchAssignment_append hks, strip_cut_strip]
      rfl
    · have heq : '=' ∉ cut ks := fun heq => hks ((List.takeWhile_sublist _).subset heq)
      rw [if_neg fun hstrip => hplain (plain_strip_iff.1 hstrip), cut_append_of_isSign hplain,
        matchAssignment, if_neg heq]
      rfl
  · have hcut : '=' ∉ cut line := fun heq => h ((List.takeWhile_sublist _).subset heq)
    rw [matchAssignment, if_neg hcut, matchAssignment, if_neg h]
    rfl

theorem entryOf_of_blank (h : strip isSpace line = []) : entryOf line = .skip := by
  rw [entryOf, h]
  rfl

/-- What is left of a line, if no header is cut. -/
theorem entryOf_cut (h : HeaderPlain line) : entryOf (cut line) = cutEntry (lineEntry line) := by
  rw [lineEntry]
  split_ifs with hsign
  · -- a comment: only blanks are before the sign
    refine entryOf_of_blank ?_
    rw [← strip_cut_strip]
    rcases hstrip : strip isSpace line with - | ⟨c, cs⟩
    · rfl
    · rw [hstrip] at hsign
      rw [cut_cons_of_isSign hsign]
      rfl
  · rcases hsec : matchSection (strip isSpace line) with - | name
    · rcases hcut : matchSection (strip isSpace (cut line)) with - | name
      · rw [entryOf, entryOf, hsec, hcut, matchAssignment_strip, matchAssignment_strip]
        exact matchAssignment_cut line
      · rw [h (.inr (by rw [hcut]; rfl)), hsec] at hcut
        cases hcut
    · rw [h (.inl (by rw [hsec]; rfl)), entryOf, hsec]
      rfl

end

section
variable {as : List Assignment} {a : Assignment} {entries : List Entry} {sec key : String}
  {val line text : List Char}

/-- What the cut leaves of an assignment. -/
def cutAssignment (a : Assignment) : Option Assignment :=
  if Plain a.key.toList then some { a with val := strip isSpace (cut a.val) } else none

theorem assignments_map_cutEntry (sec : String) (entries : List Entry) :
    assignments sec (entries.map cutEntry) = (assignments sec entries).filterMap cutAssignment := by
  induction entries generalizing sec with
  | nil => rfl
  | cons e entries ih =>
    cases e with
    | skip => exact ih sec
    | header name => exact ih name
    | assign key val =>
      rw [List.map_cons, cutEntry]
      by_cases hkey : Plain key.toList
      · rw [if_pos hkey, assignments, assignments, ih]
        split_ifs with hsec
        · rfl
        · rw [List.filterMap_cons_some (by rw [cutAssignment, if_pos hkey])]
      · rw [if_neg hkey, assignments, assignments, ih]
        split_ifs with hsec
        · rfl
        · rw [List.filterMap_cons_none (by rw [cutAssignment, if_neg hkey])]

theorem valuesOf_cons (a : Assignment) (as : List Assignment) (sec key : String) :
    valuesOf (a :: as) sec key =
      if a.sec = sec ∧ a.key = key then a.val :: valuesOf as sec key else valuesOf as sec key := by
  rw [valuesOf, List.filter_cons]
  split_ifs with h₁ h₂ h₂
  · rfl
  · exact absurd (of_decide_eq_true h₁) h₂
  · exact absurd (decide_eq_true h₂) h₁
  · rfl

/-- The values that the cut leaves. -/
theorem valuesOf_cutAssignment (as : List Assignment) (sec key : String) :
    valuesOf (as.filterMap cutAssignment) sec key =
      if Plain key.toList then (valuesOf as sec key).map fun val => strip isSpace (cut val)
      else [] := by
  induction as with
  | nil => exact (ite_self _).symm
  | cons a as ih =>
    rw [valuesOf_cons]
    by_cases hkey : Plain a.key.toList
    · rw [List.filterMap_cons_some (by rw [cutAssignment, if_pos hkey]), valuesOf_cons, ih]
      by_cases ha : a.sec = sec ∧ a.key = key
      · rw [if_pos ha, if_pos ha, if_pos (ha.2 ▸ hkey), if_pos (ha.2 ▸ hkey)]
        rfl
      · rw [if_neg ha, if_neg ha]
    · rw [List.filterMap_cons_none (by rw [cutAssignment, if_neg hkey]), ih]
      by_cases ha : a.sec = sec ∧ a.key = key
      · rw [if_neg (ha.2 ▸ hkey), if_neg (ha.2 ▸ hkey)]
      · rw [if_neg ha]

theorem mem_valuesOf : val ∈ valuesOf as sec key ↔ ⟨sec, key, val⟩ ∈ as := by
  constructor
  · intro h
    obtain ⟨a, ha, rfl⟩ := List.mem_map.1 h
    obtain ⟨hmem, heq⟩ := List.mem_filter.1 ha
    obtain ⟨rfl, rfl⟩ := of_decide_eq_true heq
    exact hmem
  · intro h
    exact List.mem_map.2 ⟨_, List.mem_filter.2 ⟨h, decide_eq_true ⟨rfl, rfl⟩⟩, rfl⟩

theorem mem_assignments (h : a ∈ assignments sec entries) : .assign a.key a.val ∈ entries := by
  induction entries generalizing sec with
  | nil => cases h
  | cons e entries ih =>
    cases e with
    | skip => exact List.mem_cons_of_mem _ (ih h)
    | header name => exact List.mem_cons_of_mem _ (ih h)
    | assign key val =>
      rw [assignments] at h
      split_ifs at h
      · exact List.mem_cons_of_mem _ (ih h)
      · rcases List.mem_cons.1 h with rfl | h
        · exact List.mem_cons_self
        · exact List.mem_cons_of_mem _ (ih h)

/-- A value is a part of its line, without blanks around it. -/
theorem val_of_lineEntry (h : lineEntry line = .assign key val) :
    strip isSpace val = val ∧ ∀ c ∈ val, c ∈ line := by
  rw [lineEntry] at h
  split_ifs at h
  rw [entryOf] at h
  rcases hsec : matchSection (strip isSpace line) with - | name <;> rw [hsec] at h
  · rw [matchAssignment_strip, matchAssignment] at h
    split_ifs at h
    · obtain ⟨-, rfl⟩ := Entry.assign.inj h
      refine ⟨strip_strip _ _, fun c hc => ?_⟩
      exact (List.dropWhile_sublist _).subset (List.mem_of_mem_drop (mem_of_mem_strip hc))
    · cases h
  · cases h

theorem val_of_assigned (h : a ∈ assigned text) :
    strip isSpace a.val = a.val ∧ '\n' ∉ a.val := by
  obtain ⟨line, hline, hentry⟩ := List.mem_map.1 (mem_assignments h)
  obtain ⟨hstrip, hmem⟩ := val_of_lineEntry hentry
  exact ⟨hstrip, fun hlf => not_mem_of_mem_splitOn hline (hmem _ hlf)⟩

end

/-! ## The run of the parser -/

section
variable {realm} {out out' : IniFile} {st st' : State} {lines : List (List Char)}
  {name key : String} {val text : List Char}

/-- The value of a key, after one more value. -/
def extended (inh cur : Option (List Char)) (val : List Char) : Option (List Char) :=
  some (append (cur.or inh) val)

theorem foldl_extended_some (inh : Option (List Char)) (old : List Char) (vals : List (List Char)) :
    vals.foldl (extended inh) (some old) = some (['\n'].intercalate (old :: vals)) := by
  induction vals generalizing old with
  | nil => rw [List.intercalate_singleton]; rfl
  | cons val vals ih =>
    have hstep : extended inh (some old) val = some (old ++ '\n' :: val) := rfl
    have hlf : ['\n'].intercalate (('\n' :: val) :: vals) = '\n' :: ['\n'].intercalate (val :: vals) :=
      intercalate_append_cons _ ['\n'] val vals
    rw [List.foldl_cons, hstep, ih, List.intercalate_cons_cons, intercalate_append_cons, hlf,
      List.append_assoc]
    rfl

theorem foldl_extended (inh : Option (List Char)) (vals : List (List Char)) (h : vals ≠ []) :
    vals.foldl (extended inh) none = some (['\n'].intercalate (inh.toList ++ vals)) := by
  rcases vals with - | ⟨val, vals⟩
  · exact absurd rfl h
  · cases inh with
    | none => exact foldl_extended_some none val vals
    | some old => exact (foldl_extended_some (some old) old (val :: vals))

theorem written_openSection (out : IniFile) (name sec key : String) :
    written (openSection out name) sec key = written out sec key := by
  rw [openSection]
  split_ifs with h
  · rfl
  · rw [written, written, lookup_set]
    split_ifs with hsec
    · rw [hsec, Option.not_isSome_iff_eq_none.1 h]
      rfl
    · rfl

theorem written_write (h : write realm out name key val = .ok out') (sec key' : String) :
    written out' sec key' = if name = sec ∧ key = key' then
      extended (inherited realm sec key') (written out sec key') val else written out sec key' := by
  rw [write] at h
  split_ifs at h
  obtain rfl := Except.ok.inj h
  rw [written, written, lookup_set]
  by_cases hsec : sec = name
  · obtain rfl := hsec
    rw [if_pos rfl, Option.bind_some, lookup_set]
    by_cases hkey : key' = key
    · obtain rfl := hkey
      rw [if_pos rfl, if_pos ⟨rfl, rfl⟩]
      rfl
    · rw [if_neg hkey, if_neg fun h => hkey h.2.symm]
      cases out.lookup sec <;> rfl
  · rw [if_neg hsec, if_neg fun hname => hsec hname.1.symm]

/-- What the parser keeps of the lines. -/
def kept (sec : String) (lines : List (List Char)) : List Assignment :=
  assignments sec (lines.map fun line => entryOf (cut line))

/-- After some lines a key has the values that were kept, behind what was there. -/
theorem written_foldlM (h : lines.foldlM (parseLine realm) st = .ok st') (sec key : String) :
    written st'.out sec key = (valuesOf (kept st.sec lines) sec key).foldl
      (extended (inherited realm sec key)) (written st.out sec key) := by
  induction lines generalizing st with
  | nil =>
    obtain rfl := Except.ok.inj h
    rfl
  | cons line lines ih =>
    rw [List.foldlM_cons] at h
    obtain ⟨st₁, hline, h⟩ := ComputeContract.bind_eq_ok.1 h
    rw [ih h, kept, kept, List.map_cons]
    rw [parseLine] at hline
    rcases hentry : entryOf (cut line) with - | name | ⟨key', val⟩ <;> rw [hentry] at hline
    · obtain rfl := Except.ok.inj hline
      rfl
    · obtain rfl := Except.ok.inj hline
      rw [written_openSection]
      rfl
    · rw [assignments]
      simp only at hline
      split_ifs at hline ⊢ with hsec
      · obtain rfl := Except.ok.inj hline
        rfl
      · obtain ⟨out, hwrite, hst⟩ := ComputeContract.bind_eq_ok.1 hline
        obtain rfl := Except.ok.inj hst
        rw [written_write hwrite, valuesOf_cons]
        split_ifs <;> rfl

/-- The parser gets to the end, if no assignment is refused. -/
theorem exists_foldlM (st : State) (lines : List (List Char))
    (h : ∀ a ∈ kept st.sec lines, ¬ (a.sec ∈ objectPrototype ∧ realm.refuses a.sec a.key)) :
    ∃ st', lines.foldlM (parseLine realm) st = .ok st' := by
  induction lines generalizing st with
  | nil => exact ⟨st, rfl⟩
  | cons line lines ih =>
    have hgo : ∀ st₁, parseLine realm st line = .ok st₁ →
        (∀ a ∈ kept st₁.sec lines, ¬ (a.sec ∈ objectPrototype ∧ realm.refuses a.sec a.key)) →
        ∃ st', (line :: lines).foldlM (parseLine realm) st = .ok st' := by
      intro st₁ hline hrest
      rw [List.foldlM_cons, hline]
      exact ih st₁ hrest
    rw [kept, List.map_cons] at h
    rcases hentry : entryOf (cut line) with - | name | ⟨key, val⟩ <;> rw [hentry] at h
    · exact hgo st (by rw [parseLine, hentry]) h
    · exact hgo ⟨openSection st.out name, name⟩ (by rw [parseLine, hentry]) h
    · rw [assignments] at h
      split_ifs at h with hsec
      · refine hgo st ?_ h
        rw [parseLine, hentry]
        exact if_pos hsec
      · rw [List.forall_mem_cons] at h
        obtain ⟨out, hwrite⟩ : ∃ out, write realm st.out st.sec key val = .ok out := ⟨_, if_neg h.1⟩
        refine hgo ⟨out, st.sec⟩ ?_ h.2
        rw [parseLine, hentry]
        simp only [if_neg hsec]
        rw [hwrite]
        rfl

end

/-! ## The unit of the values -/

section
variable {realm} {out : IniFile} {vals : List (List Char)} {sec key : String} {text : List Char}

theorem read_eq (hsec : sec ∉ objectPrototype) (hkey : key ∉ objectPrototype) :
    read realm out sec key = written out sec key := by
  rw [read, inherited, if_neg hsec, if_neg hkey, Option.or_none]

theorem whenSet_joined {T : Type} (vals : List (List Char)) (f : List Char → T) (otherwise : T) :
    whenSet (joined vals) f otherwise =
      if ['\n'].intercalate vals = [] then otherwise else f (['\n'].intercalate vals) := by
  rw [joined]
  split_ifs with hvals hnil hnil
  · rfl
  · exact absurd (by rw [hvals]; rfl) hnil
  · rw [hnil]
    rfl
  · rcases hcs : ['\n'].intercalate vals with - | ⟨c, cs⟩
    · exact absurd hcs hnil
    · rfl

/-- The values are the pieces of what they are joined to. -/
theorem splitOn_joined (h : ∀ val ∈ vals, '\n' ∉ val) :
    whenSet (joined vals) (·.splitOn '\n') [] = if vals = [[]] then [] else vals := by
  rw [whenSet_joined]
  rcases eq_or_ne vals [] with rfl | hne
  · rfl
  · have hsplit := List.splitOn_intercalate '\n' h hne
    by_cases hvals : vals = [[]]
    · rw [hvals]
      rfl
    · have hnil : ['\n'].intercalate vals ≠ [] := fun hnil => by
        rw [hnil] at hsplit
        exact hvals hsplit.symm
      rw [if_neg hnil, if_neg hvals, hsplit]

theorem whenSet_id (vals : List (List Char)) :
    whenSet (joined vals) id [] = ['\n'].intercalate vals := by
  rw [whenSet_joined]
  split_ifs with hnil
  · exact hnil.symm
  · rfl

/-- The unit is made of the values, if the file has these. -/
theorem parseUnitFile_eq {vals : String → String → List (List Char)}
    (hini : parseIni realm text = .ok out) (h : ∀ sec key, written out sec key = joined (vals sec key))
    (hlf : ∀ sec key, ∀ val ∈ vals sec key, '\n' ∉ val) (name : String) :
    parseUnitFile realm text name = .ok (unitOf vals name) := by
  have hread (sec key : String) (hsec : sec ∉ objectPrototype) (hkey : key ∉ objectPrototype) :
      read realm out sec key = joined (vals sec key) := (read_eq hsec hkey).trans (h sec key)
  have hsvc (key : String) (hkey : key ∉ objectPrototype) :
      read realm out "Service" key = joined (vals "Service" key) := hread _ key (by decide) hkey
  rw [parseUnitFile, hini]
  change Except.ok _ = _
  simp only [unitDefaults]
  rw [hsvc "Type" (by decide), hsvc "ExecStart" (by decide), hsvc "ExecStartPre" (by decide),
    hsvc "WorkingDirectory" (by decide), hsvc "Environment" (by decide), hsvc "Restart" (by decide),
    hsvc "RestartSec" (by decide), hsvc "RemainAfterExit" (by decide),
    hsvc "TimeoutStopSec" (by decide), hread "Unit" "ConditionPathExists" (by decide) (by decide),
    splitOn_joined (hlf _ _), splitOn_joined (hlf _ _), splitOn_joined (hlf _ _), whenSet_id,
    whenSet_id, whenSet_joined, whenSet_joined, whenSet_joined, whenSet_joined, whenSet_joined]
  rw [unitOf]
  congr 2
  split_ifs with hnil
  · beta_reduce
    rw [hnil]
    rfl
  · rfl

end

/-! ## When the parser reads right -/

section
variable {realm} {out : IniFile} {vals : List (List Char)} {name sec key : String} {a : Assignment}
  {text : List Char}

theorem not_refuses (h : inherited realm name key = none) :
    ¬ (name ∈ objectPrototype ∧ realm.refuses name key) := by
  rintro ⟨hname, hrefuses⟩
  have hsome := realm.isSome_of_refuses name key hrefuses
  rw [inherited, if_pos hname] at h
  rw [h] at hsome
  cases hsome

theorem kept_eq (h : ∀ line ∈ text.splitOn '\n', HeaderPlain line) :
    kept "" (text.splitOn '\n') = (assigned text).filterMap cutAssignment := by
  rw [kept, assigned, ← assignments_map_cutEntry, List.map_map]
  refine congrArg _ (List.map_congr_left fun line hline => ?_)
  exact entryOf_cut (h line hline)

/-- What a key has, of the values that are assigned to it. -/
theorem written_eq (h : ∀ line ∈ text.splitOn '\n', HeaderPlain line)
    (hout : parseIni realm text = .ok out) (sec key : String) :
    written out sec key = (if Plain key.toList then
      (valuesOf (assigned text) sec key).map fun val => strip isSpace (cut val) else []).foldl
        (extended (inherited realm sec key)) none := by
  obtain ⟨st, hst, heq⟩ := ComputeContract.bind_eq_ok.1 hout
  obtain rfl := Except.ok.inj heq
  rw [written_foldlM hst, kept_eq h, valuesOf_cutAssignment]
  rfl

theorem not_mem_valuesOf : ∀ val ∈ valuesOf (assigned text) sec key, '\n' ∉ val :=
  fun _ hval => (val_of_assigned (mem_valuesOf.1 hval)).2

/-- A value in front would be one too many. -/
theorem inherited_eq_none {inh : Option (List Char)} {vals' : List (List Char)} (hne : vals ≠ [])
    (hlen : vals'.length = vals.length) (hlf : ∀ val ∈ vals, '\n' ∉ val)
    (hlf' : ∀ val ∈ vals', '\n' ∉ val)
    (h : ['\n'].intercalate (inh.toList ++ vals') = ['\n'].intercalate vals) : inh = none := by
  cases inh with
  | none => rfl
  | some old =>
    have hpos := List.length_pos_iff.2 hne
    rcases vals' with - | ⟨val, vals'⟩
    · exact absurd (List.length_eq_zero_iff.1 hlen.symm) hne
    · have hcount := congrArg (List.count '\n') h
      rw [Option.toList_some, List.singleton_append, List.intercalate_cons_cons, List.count_append,
        List.count_append, List.count_singleton_self, count_intercalate hlf,
        count_intercalate hlf'] at hcount
      omega

/-- An assignment of a file that is read right. -/
theorem intact_of_reads (h : ∀ line ∈ text.splitOn '\n', HeaderPlain line)
    (hreads : Reads realm text name) (ha : a ∈ assigned text) : a.Intact realm := by
  obtain ⟨out, hout, hwritten⟩ := hreads.ini
  have hmem : a.val ∈ valuesOf (assigned text) a.sec a.key := mem_valuesOf.2 ha
  have hne : valuesOf (assigned text) a.sec a.key ≠ [] := List.ne_nil_of_mem hmem
  have heq := (written_eq h hout a.sec a.key).symm.trans (hwritten a.sec a.key)
  have hlf' : ∀ val ∈ (valuesOf (assigned text) a.sec a.key).map fun val => strip isSpace (cut val),
      '\n' ∉ val := by
    intro val hval hc
    obtain ⟨val₀, hval₀, rfl⟩ := List.mem_map.1 hval
    exact not_mem_valuesOf val₀ hval₀ ((List.takeWhile_sublist _).subset (mem_of_mem_strip hc))
  rw [joined, if_neg hne] at heq
  split_ifs at heq with hkey
  · rw [foldl_extended _ _ (by simpa using hne)] at heq
    have heq := Option.some.inj heq
    have hfresh := inherited_eq_none hne (List.length_map _) not_mem_valuesOf hlf' heq
    rw [hfresh, Option.toList_none, List.nil_append] at heq
    have hmap := congrArg (List.splitOn '\n') heq
    rw [List.splitOn_intercalate _ hlf' (by simpa using hne),
      List.splitOn_intercalate _ not_mem_valuesOf hne] at hmap
    have hval : strip isSpace (cut a.val) = a.val :=
      List.map_eq_map_iff.1 (hmap.trans (List.map_id _).symm) a.val hmem
    refine ⟨hkey, fun c hc => ?_, hfresh⟩
    rw [← hval] at hc
    exact isSign_of_mem_cut (mem_of_mem_strip hc)
  · cases heq

theorem reads_of_intact (h : ∀ line ∈ text.splitOn '\n', HeaderPlain line)
    (hintact : ∀ a ∈ assigned text, a.Intact realm) (name : String) : Reads realm text name := by
  have hcut : ∀ a ∈ assigned text, cutAssignment a = some a := by
    intro a ha
    rw [cutAssignment, if_pos (hintact a ha).key, cut_eq_self (hintact a ha).val,
      (val_of_assigned ha).1]
  have hkept : kept "" (text.splitOn '\n') = assigned text := by
    rw [kept_eq h, List.filterMap_congr hcut, List.filterMap_some]
  obtain ⟨st, hst⟩ := exists_foldlM ⟨[], ""⟩ (text.splitOn '\n')
    fun a ha => not_refuses (hintact a (hkept ▸ ha)).fresh
  have hini : parseIni realm text = .ok st.out := by
    rw [parseIni, hst]
    rfl
  have hwritten : ∀ sec key, written st.out sec key = joined (valuesOf (assigned text) sec key) := by
    intro sec key
    rw [written_foldlM hst, hkept, joined]
    split_ifs with hvals
    · rw [hvals]
      rfl
    · obtain ⟨val, hval⟩ := List.exists_mem_of_ne_nil _ hvals
      have hfresh : inherited realm sec key = none := (hintact _ (mem_valuesOf.1 hval)).fresh
      rw [hfresh]
      exact foldl_extended none _ hvals
  exact ⟨⟨st.out, hini, hwritten⟩, parseUnitFile_eq hini hwritten (fun _ _ => not_mem_valuesOf) name⟩

end

/-- If no header is cut, every key has its values exactly if no assignment has a sign or names what
    is there from the start. -/
theorem reads_iff (text : List Char) (name : String)
    (h : ∀ line ∈ text.splitOn '\n', HeaderPlain line) :
    Reads realm text name ↔ ∀ a ∈ assigned text, a.Intact realm :=
  ⟨fun hreads _ ha => intact_of_reads h hreads ha, fun hintact => reads_of_intact h hintact name⟩

theorem reads_iff_one_command :
    Reads .names "[Service]\nExecStart=/usr/sbin/sshd -D".toList "ssh.service" := by
  have hassigned : assigned "[Service]\nExecStart=/usr/sbin/sshd -D".toList =
      [⟨"Service", "ExecStart", "/usr/sbin/sshd -D".toList⟩] := by decide
  refine (reads_iff .names _ "ssh.service" (by decide)).2 fun a ha => ?_
  rw [hassigned, List.mem_singleton] at ha
  rw [ha]
  exact ⟨by decide, by decide, by decide⟩

/-- Of a list of commands only the first one is read. -/
theorem not_reads_two_commands :
    ¬ Reads .names "[Service]\nExecStart=pkill -x sshd; exec sshd -D".toList "ssh.service" := by
  intro h
  have hmem : ⟨"Service", "ExecStart", "pkill -x sshd; exec sshd -D".toList⟩ ∈
      assigned "[Service]\nExecStart=pkill -x sshd; exec sshd -D".toList := by decide
  have hsign := (intact_of_reads (by decide) h hmem).val ';' (by decide)
  cases hsign

end ComputeContract.UnitFile
