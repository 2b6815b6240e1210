import ComputeContract.Lib.Split
import ComputeContract.Packages.Latest
import ComputeContract.Provider.UnitFile
import ComputeContract.Util.JsonText
import ComputeContract.Util.Sha256
import ComputeContract.Util.Url

/-!
# The package registry

The files of packages over HTTP: the catch-all route reads a name, a version and a path out of the
pathname of the URL, at-style (`/@scope/name@version/path`) or JSR-style
(`/@scope/name/version/path`), and answers with the file of the package that the store gets. The
metadata of a version, and of a package, have URLs of their own among these.

* `parseWith_iff`, `parsed_iff`: what the parsers read;
* `listed_served`: what the metadata of a version lists is at both of its URLs, as it is listed;
* `serve_eq_file_iff`: when a request is answered with a file, and with which.
-/

namespace ComputeContract.Packages.Registry

open AssocList

/-! ## URLs -/

structure ParsedPackageUrl where
  scope : Option (List Char)
  pkgName : List Char
  version : List Char
  filePath : List Char

/-- `(?:@([^/]+)\/)?`, and what is behind it. -/
def parseScope : List Char → Option (Option (List Char) × List Char)
  | '@' :: cs =>
    match cs.takeWhile (· ≠ '/'), cs.dropWhile (· ≠ '/') with
    | c :: scope, _ :: rest => some (some (c :: scope), rest)
    | _, _ => none
  | cs => some (none, cs)

def isNameChar (c : Char) : Bool := c ≠ '/' && c ≠ '@'

/-- `([^/@]+)` and a separator, and what is behind it. -/
def parseName (sep : Char) (cs : List Char) : Option (List Char × List Char) :=
  match cs.takeWhile isNameChar, cs.dropWhile isNameChar with
  | c :: pkgName, d :: rest => if d = sep then some (c :: pkgName, rest) else none
  | _, _ => none

/-- `([^/]+)(?:\/(.*))?$` -/
def parseVersion (cs : List Char) : Option (List Char × List Char) :=
  match cs.takeWhile (· ≠ '/') with
  | [] => none
  | c :: version => some (c :: version, (cs.dropWhile (· ≠ '/')).drop 1)

/-- The expression of both parsers, with the separator between the name and the version. -/
def parseWith (sep : Char) (path : List Char) : Option ParsedPackageUrl := do
  let (scope, path) ← parseScope path
  let (pkgName, path) ← parseName sep path
  let (version, filePath) ← parseVersion path
  some ⟨scope, pkgName, version, filePath⟩

def parsePackageUrl (pathname : List Char) : Option ParsedPackageUrl :=
  parseWith '@' (pathname.dropWhile (· = '/'))

def parseJsrUrl (pathname : List Char) : Option ParsedPackageUrl :=
  parseWith '/' (pathname.dropWhile (· = '/'))

/-- `^\/(?:@([^/]+)\/)?([^/@]+)\/`, and what is behind it. -/
def parsePackage (pathname : List Char) : Option (Option (List Char) × List Char × List Char) :=
  match pathname with
  | '/' :: path => do
    let (scope, path) ← parseScope path
    let (pkgName, rest) ← parseName '/' path
    some (scope, pkgName, rest)
  | _ => none

def META_SUFFIX : List Char := "_meta.json".toList

def metaVersionMatch (pathname : List Char) :
    Option (Option (List Char) × List Char × List Char) := do
  let (scope, pkgName, rest) ← parsePackage pathname
  let version := rest.take (rest.length - META_SUFFIX.length)
  if version ≠ [] ∧ '/' ∉ rest ∧ META_SUFFIX.isSuffixOf rest then some (scope, pkgName, version)
  else none

def metaPkgMatch (pathname : List Char) : Option (Option (List Char) × List Char) := do
  let (scope, pkgName, rest) ← parsePackage pathname
  if rest = "meta.json".toList then some (scope, pkgName) else none

/-- `fullName`, of what was parsed. -/
def fullNameOf (scope : Option (List Char)) (pkgName : List Char) : String :=
  fullName (scope.map String.ofList) (String.ofList pkgName)

/-! ## Files -/

/-- A version of a package, as a store returns it, with the `exports` of its metadata. -/
structure PackageVersion where
  files : List (String × String)
  exports : Option Json
  nodup : (keys files).Nodup

structure PackageStore where
  list : Except String (List Git.PackageEntry)
  get : String → String → Except String (Option PackageVersion)

def endsWith (s ext : String) : Bool := ext.toList.isSuffixOf s.toList

def contentType (filePath : String) : String :=
  if endsWith filePath ".ts" || endsWith filePath ".tsx" then "text/typescript; charset=utf-8"
  else if endsWith filePath ".js" || endsWith filePath ".jsx" || endsWith filePath ".mjs" then
    "application/javascript; charset=utf-8"
  else if endsWith filePath ".json" then "application/json; charset=utf-8"
  else if endsWith filePath ".md" then "text/markdown; charset=utf-8"
  else if endsWith filePath ".css" then "text/css; charset=utf-8"
  else if endsWith filePath ".html" then "text/html; charset=utf-8"
  else "text/plain; charset=utf-8"

structure ManifestEntry where
  size : ℕ
  checksum : String

def sha256Hex (data : String) : String :=
  String.ofList ((sha256 (textEncode data)).1.flatMap fun b =>
    [Json.hexChar (b.toNat / 16), Json.hexChar (b.toNat % 16)])

def manifestEntry (content : String) : ManifestEntry :=
  ⟨(textEncode content).length, "sha256-" ++ sha256Hex content⟩

def buildManifest (files : List (String × String)) : List (String × ManifestEntry) :=
  (objectEntries files).map fun e => ("/" ++ e.1, manifestEntry e.2)

/-- The first file of a package that is a script. -/
def firstScript (files : List (String × String)) : Option String :=
  (keys (objectEntries files)).find? fun f => endsWith f ".ts" || endsWith f ".js"

def autoDetectEntry (files : List (String × String)) : String :=
  if "mod.ts" ∈ keys files then "./mod.ts"
  else if "mod.js" ∈ keys files then "./mod.js"
  else match firstScript files with
    | some f => "./" ++ f
    | none => "./mod.ts"

/-- `pkg.files[path]`, as the text that a response makes of it. -/
def fileAt (files : List (String × String)) (path : String) : Option String :=
  match files.lookup path with
  | some content => some content
  | none =>
    if path ∈ objectPrototype then some (String.ofList (UnitFile.functionText path)) else none

def extensions : List String :=
  [".ts", ".tsx", ".js", ".jsx", ".mjs", ".mts", ".cts", "/index.ts", "/index.js", "/mod.ts",
    "/mod.js"]

/-- The path that is asked for, or the entry. -/
def requested (files : List (String × String)) (filePath : String) : String :=
  if filePath ≠ "" then filePath
  else if "mod.ts" ∈ keys files then "mod.ts"
  else (firstScript files).getD ""

/-- The file at the path, or at the path with an extension. -/
def resolveFile (files : List (String × String)) (filePath : String) : Option (String × String) :=
  (filePath :: extensions.map (filePath ++ ·)).findSome? fun path =>
    (fileAt files path).map fun content => (path, content)

/-! ## Answers -/

inductive Answer
  | file (contentType content : String)
  | versionMeta (exports : Json) (manifest : List (String × ManifestEntry))
  | packageMeta (response : Response)
  | fileNotFound (message : String) (availableFiles : List String)
  | notFound
  | internalError (text : String)
  /-- `proxyToJsr` -/
  | proxied

/-- `Object.keys(files).sort()` -/
def sortedPaths (files : List (String × String)) : List String :=
  (keys files).insertionSort fun a b => (⟨a⟩ : Key) ≤ ⟨b⟩

def serveMeta (store : PackageStore) (name version : String) : Answer :=
  match store.get name version with
  | .error _ | .ok none => .proxied
  | .ok (some pkg) =>
    let exports := match pkg.exports with
      | none | some .null => .object [(".", .string (autoDetectEntry pkg.files))]
      | some exports => exports
    .versionMeta exports (buildManifest pkg.files)

def ParsedPackageUrl.name (p : ParsedPackageUrl) : String := fullNameOf p.scope p.pkgName

def serveFiles (store : PackageStore) (parsed : ParsedPackageUrl) : Answer :=
  match store.get parsed.name (String.ofList parsed.version) with
  | .error text => .internalError text
  | .ok none => .proxied
  | .ok (some pkg) =>
    let filePath := requested pkg.files (String.ofList parsed.filePath)
    match resolveFile pkg.files filePath with
    | none => .fileNotFound (filePath ++ " not found in " ++ parsed.name ++ "@" ++
        String.ofList parsed.version) (sortedPaths pkg.files)
    | some (path, content) => .file (contentType path) content

/-- The catch-all route. -/
def serve (store : PackageStore) (pathname : List Char) : Answer :=
  match metaVersionMatch pathname with
  | some (scope, pkgName, version) =>
    serveMeta store (fullNameOf scope pkgName) (String.ofList version)
  | none =>
    match metaPkgMatch pathname with
    | some (scope, pkgName) => .packageMeta
        (packageMeta (scope.map String.ofList) (String.ofList pkgName) store.list)
    | none =>
      match (parsePackageUrl pathname).or (parseJsrUrl pathname) with
      | none => if "/.well-known/".toList.isPrefixOf pathname then .notFound else .proxied
      | some parsed => serveFiles store parsed

/-! ## What is parsed -/

/-- The pieces that an expression takes apart. -/
structure ParsedPackageUrl.WellFormed (p : ParsedPackageUrl) : Prop where
  scope : ∀ scope ∈ p.scope, scope ≠ [] ∧ '/' ∉ scope
  pkgName : p.pkgName ≠ [] ∧ ∀ c ∈ p.pkgName, isNameChar c
  version : p.version ≠ [] ∧ '/' ∉ p.version

def scopeText : Option (List Char) → List Char
  | none => []
  | some scope => '@' :: scope ++ ['/']

/-- The path of a URL. -/
def ParsedPackageUrl.text (sep : Char) (p : ParsedPackageUrl) : List Char :=
  scopeText p.scope ++ (p.pkgName ++ sep :: (p.version ++ '/' :: p.filePath))

variable {sep : Char} {cs rest path : List Char} {p : ParsedPackageUrl}

theorem parseScope_eq_some {scope : Option (List Char)} (h : parseScope cs = some (scope, rest)) :
    (∀ s ∈ scope, s ≠ [] ∧ '/' ∉ s) ∧ cs = scopeText scope ++ rest := by
  rw [parseScope.eq_def] at h
  split at h
  · split at h
    · rename_i c scope d rest' htake hdrop
      cases h
      obtain ⟨rfl, hscope, hd⟩ := eq_of_takeWhile htake hdrop
      obtain rfl : d = '/' := by simpa using hd d rfl
      refine ⟨fun s hs => ?_, by simp [scopeText]⟩
      cases hs
      exact ⟨List.cons_ne_nil _ _, fun hmem => by simpa using hscope _ hmem⟩
    · cases h
  · cases h
    exact ⟨fun _ hs => (by cases hs), rfl⟩

theorem parseScope_text {scope : Option (List Char)} (hscope : ∀ s ∈ scope, s ≠ [] ∧ '/' ∉ s)
    (hrest : rest.head? ≠ some '@') :
    parseScope (scopeText scope ++ rest) = some (scope, rest) := by
  cases scope with
  | none =>
    rw [scopeText, List.nil_append, parseScope.eq_def]
    split
    · exact absurd rfl hrest
    · rfl
  | some scope =>
    obtain ⟨hne, hslash⟩ := hscope scope rfl
    have hall : ∀ c ∈ scope, decide (c ≠ '/') = true := fun c hc =>
      decide_eq_true fun heq => hslash (heq ▸ hc)
    have hstop : ∀ c ∈ ('/' :: rest).head?, decide (c ≠ '/') = false := fun c hc => by
      cases hc
      rfl
    have htext : scopeText (some scope) ++ rest = '@' :: (scope ++ '/' :: rest) := by
      simp [scopeText]
    rw [htext, parseScope, takeWhile_append_of_head hall hstop, dropWhile_append_of_head hall hstop]
    obtain ⟨c, scope, rfl⟩ := List.exists_cons_of_ne_nil hne
    rfl

theorem parseName_eq_some {pkgName : List Char} (h : parseName sep cs = some (pkgName, rest)) :
    (pkgName ≠ [] ∧ ∀ c ∈ pkgName, isNameChar c) ∧ cs = pkgName ++ sep :: rest := by
  rw [parseName] at h
  split at h
  · rename_i c pkgName' d rest' htake hdrop
    split_ifs at h with hd
    cases h
    obtain ⟨heq, hname, -⟩ := eq_of_takeWhile htake hdrop
    exact ⟨⟨List.cons_ne_nil _ _, hname⟩, hd ▸ heq⟩
  · cases h

/-- A name is read up to its separator, and by the parser for that one. -/
theorem parseName_text {pkgName : List Char} {sep' : Char}
    (hname : pkgName ≠ [] ∧ ∀ c ∈ pkgName, isNameChar c) (hsep : isNameChar sep = false) :
    parseName sep' (pkgName ++ sep :: rest) =
      if sep = sep' then some (pkgName, rest) else none := by
  have hstop : ∀ c ∈ (sep :: rest).head?, isNameChar c = false := fun c hc => by
    cases hc
    exact hsep
  rw [parseName, takeWhile_append_of_head hname.2 hstop, dropWhile_append_of_head hname.2 hstop]
  obtain ⟨c, pkgName, rfl⟩ := List.exists_cons_of_ne_nil hname.1
  rfl

theorem parseVersion_eq_some {version filePath : List Char}
    (h : parseVersion cs = some (version, filePath)) : (version ≠ [] ∧ '/' ∉ version) ∧
      (cs = version ++ '/' :: filePath ∨ filePath = [] ∧ cs = version) := by
  rw [parseVersion] at h
  split at h
  · cases h
  · rename_i c version' htake
    cases h
    obtain ⟨heq, hversion, hstop⟩ := eq_of_takeWhile htake rfl
    refine ⟨⟨List.cons_ne_nil _ _, fun hmem => by simpa using hversion _ hmem⟩, ?_⟩
    cases hdrop : cs.dropWhile (· ≠ '/') with
    | nil =>
      rw [hdrop, List.append_nil] at heq
      exact .inr ⟨rfl, heq⟩
    | cons d rest =>
      rw [hdrop] at heq hstop
      obtain rfl : d = '/' := by simpa using hstop d rfl
      exact .inl heq

theorem parseVersion_text {version : List Char} (hversion : version ≠ [] ∧ '/' ∉ version)
    (hrest : ∀ c ∈ rest.head?, c = '/') :
    parseVersion (version ++ rest) = some (version, rest.drop 1) := by
  have hall : ∀ c ∈ version, decide (c ≠ '/') = true := fun c hc =>
    decide_eq_true fun heq => hversion.2 (heq ▸ hc)
  have hstop : ∀ c ∈ rest.head?, decide (c ≠ '/') = false := fun c hc =>
    decide_eq_false (not_not.2 (hrest c hc))
  rw [parseVersion, takeWhile_append_of_head hall hstop, dropWhile_append_of_head hall hstop]
  obtain ⟨c, version, rfl⟩ := List.exists_cons_of_ne_nil hversion.1
  rfl

/-- The name of a package starts with no `@`. -/
theorem head?_name (hp : p.WellFormed) (rest : List Char) :
    (p.pkgName ++ rest).head? ≠ some '@' := by
  obtain ⟨c, pkgName, hname⟩ := List.exists_cons_of_ne_nil hp.pkgName.1
  have hc := hp.pkgName.2 c (by rw [hname]; exact List.mem_cons_self)
  rw [hname]
  intro heq
  cases heq
  exact absurd hc (by decide)

/-- The steps of the expression. -/
theorem parseWith_eq (sep : Char) (path : List Char) : parseWith sep path =
    (parseScope path).bind fun a => (parseName sep a.2).bind fun b =>
      (parseVersion b.2).bind fun c => some ⟨a.1, b.1, c.1, c.2⟩ := rfl

theorem parseWith_pieces {scope : Option (List Char)} {pkgName version : List Char} {sep' : Char}
    (rest : List Char)
    (hp : (⟨scope, pkgName, version, rest.drop 1⟩ : ParsedPackageUrl).WellFormed)
    (hsep : isNameChar sep = false) (hrest : ∀ c ∈ rest.head?, c = '/') :
    parseWith sep' (scopeText scope ++ (pkgName ++ sep :: (version ++ rest))) =
      if sep = sep' then some ⟨scope, pkgName, version, rest.drop 1⟩ else none := by
  rw [parseWith_eq, parseScope_text hp.scope (head?_name hp _), Option.bind_some,
    parseName_text hp.pkgName hsep]
  split_ifs
  · rw [Option.bind_some, parseVersion_text hp.version hrest, Option.bind_some]
  · rfl

/-- The text is the path of a URL, which may end with the version. -/
def ParsedPackageUrl.IsText (p : ParsedPackageUrl) (sep : Char) (path : List Char) : Prop :=
  path = p.text sep ∨ p.filePath = [] ∧ path ++ ['/'] = p.text sep

theorem parseWith_of_isText (hp : p.WellFormed) (hsep : isNameChar sep = false)
    (h : p.IsText sep path) (sep' : Char) :
    parseWith sep' path = if sep = sep' then some p else none := by
  rcases h with rfl | ⟨hfile, hpath⟩
  · exact parseWith_pieces ('/' :: p.filePath) hp hsep (by simp)
  · obtain ⟨scope, pkgName, version, filePath⟩ := p
    cases hfile
    obtain rfl : path = scopeText scope ++ (pkgName ++ sep :: (version ++ [])) := by
      refine List.append_cancel_right (hpath.trans ?_)
      simp [ParsedPackageUrl.text]
    exact parseWith_pieces [] hp hsep (by simp)

/-- What the expression matches. -/
theorem parseWith_iff (hsep : isNameChar sep = false) :
    parseWith sep path = some p ↔ p.WellFormed ∧ p.IsText sep path := by
  constructor
  · intro h
    rw [parseWith_eq] at h
    obtain ⟨⟨scope, path₁⟩, hparse₁, h⟩ := Option.bind_eq_some_iff.1 h
    obtain ⟨⟨pkgName, path₂⟩, hparse₂, h⟩ := Option.bind_eq_some_iff.1 h
    obtain ⟨⟨version, filePath⟩, hparse₃, h⟩ := Option.bind_eq_some_iff.1 h
    cases h
    dsimp only at hparse₂ hparse₃
    obtain ⟨hscope, rfl⟩ := parseScope_eq_some hparse₁
    obtain ⟨hname, rfl⟩ := parseName_eq_some hparse₂
    obtain ⟨hversion, hpath⟩ := parseVersion_eq_some hparse₃
    refine ⟨⟨hscope, hname, hversion⟩, hpath.imp (fun hpath => ?_) fun hpath => ⟨hpath.1, ?_⟩⟩
    · rw [hpath, ParsedPackageUrl.text]
    · rw [hpath.2, ParsedPackageUrl.text, hpath.1]
      simp
  · rintro ⟨hp, htext⟩
    rw [parseWith_of_isText hp hsep htext, if_pos rfl]

/-- The parser of the one style reads nothing that is written in the other. -/
theorem parsed_iff {pathname : List Char} :
    (parsePackageUrl pathname).or (parseJsrUrl pathname) = some p ↔
      p.WellFormed ∧ ∃ sep ∈ ['@', '/'], p.IsText sep (pathname.dropWhile (· = '/')) := by
  have hat : isNameChar '@' = false := by decide
  have hslash : isNameChar '/' = false := by decide
  rw [parsePackageUrl, parseJsrUrl]
  constructor
  · intro h
    rcases Option.or_eq_some_iff.1 h with h | ⟨-, h⟩
    · obtain ⟨hp, htext⟩ := (parseWith_iff hat).1 h
      exact ⟨hp, '@', List.mem_cons_self, htext⟩
    · obtain ⟨hp, htext⟩ := (parseWith_iff hslash).1 h
      exact ⟨hp, '/', List.mem_cons_of_mem _ List.mem_cons_self, htext⟩
  · rintro ⟨hp, sep, hsep, htext⟩
    simp only [List.mem_cons, List.not_mem_nil, or_false] at hsep
    rcases hsep with rfl | rfl
    · rw [parseWith_of_isText hp hat htext, if_pos rfl, Option.some_or]
    · rw [parseWith_of_isText hp hslash htext, parseWith_of_isText hp hslash htext,
        if_neg (by decide), if_pos rfl, Option.none_or]

/-! ## What is answered -/

/-- The path of the URL of a version's metadata. -/
def ParsedPackageUrl.metaText (p : ParsedPackageUrl) : List Char :=
  scopeText p.scope ++ (p.pkgName ++ '/' :: (p.version ++ META_SUFFIX))

theorem not_mem_pkgName (hp : p.WellFormed) : '/' ∉ p.pkgName := fun hmem => by
  simpa [isNameChar] using hp.pkgName.2 _ hmem

theorem splitOn_scopeText {scope : Option (List Char)} (hscope : ∀ s ∈ scope, s ≠ [] ∧ '/' ∉ s)
    (rest : List Char) : (scopeText scope ++ rest).splitOn '/' =
      scope.toList.map ('@' :: ·) ++ rest.splitOn '/' := by
  cases scope with
  | none => rfl
  | some scope =>
    have htext : scopeText (some scope) ++ rest = ('@' :: scope) ++ '/' :: rest := by
      simp [scopeText]
    have hmem : '/' ∉ '@' :: scope := by
      simpa using (hscope scope rfl).2
    rw [htext, List.splitOn_append_cons_self_of_not_mem hmem]
    rfl

theorem splitOn_text_slash (hp : p.WellFormed) : (p.text '/').splitOn '/' =
    p.scope.toList.map ('@' :: ·) ++ p.pkgName :: p.version :: p.filePath.splitOn '/' := by
  rw [ParsedPackageUrl.text, splitOn_scopeText hp.scope,
    List.splitOn_append_cons_self_of_not_mem (not_mem_pkgName hp),
    List.splitOn_append_cons_self_of_not_mem hp.version.2]

theorem splitOn_text_at (hp : p.WellFormed) : (p.text '@').splitOn '/' =
    p.scope.toList.map ('@' :: ·) ++ (p.pkgName ++ '@' :: p.version) :: p.filePath.splitOn '/' := by
  have hmem : '/' ∉ p.pkgName ++ '@' :: p.version := by
    simpa [not_mem_pkgName hp] using hp.version.2
  have htext : p.pkgName ++ '@' :: (p.version ++ '/' :: p.filePath) =
      (p.pkgName ++ '@' :: p.version) ++ '/' :: p.filePath := by simp
  rw [ParsedPackageUrl.text, splitOn_scopeText hp.scope, htext,
    List.splitOn_append_cons_self_of_not_mem hmem]

theorem splitOn_metaText (hp : p.WellFormed) : p.metaText.splitOn '/' =
    p.scope.toList.map ('@' :: ·) ++ [p.pkgName, p.version ++ META_SUFFIX] := by
  have hmem : '/' ∉ p.version ++ META_SUFFIX := by
    rw [List.mem_append, not_or]
    exact ⟨hp.version.2, by decide⟩
  rw [ParsedPackageUrl.metaText, splitOn_scopeText hp.scope,
    List.splitOn_append_cons_self_of_not_mem (not_mem_pkgName hp), List.splitOn_eq_singleton hmem]

/-- The segments of the path of a file stay as they are, and so do those of its other URLs. -/
structure ParsedPackageUrl.Plain (p : ParsedPackageUrl) : Prop extends p.WellFormed where
  plain : ∀ segment ∈ (p.text '/').splitOn '/', Url.Plain segment

theorem pathname_text_slash (hp : p.Plain) :
    Url.pathname ('/' :: p.text '/') = '/' :: p.text '/' :=
  Url.pathname_eq_self hp.plain

theorem pathname_text_at (hp : p.Plain) :
    Url.pathname ('/' :: p.text '@') = '/' :: p.text '@' := by
  have hplain := hp.plain
  rw [splitOn_text_slash hp.toWellFormed] at hplain
  refine Url.pathname_eq_self ?_
  rw [splitOn_text_at hp.toWellFormed]
  simp only [List.forall_mem_append, List.forall_mem_cons] at hplain ⊢
  refine ⟨hplain.1, Url.plain_of_mem (c := '@') (by simp) (by decide) ?_, hplain.2.2.2⟩
  rw [List.forall_mem_append, List.forall_mem_cons]
  exact ⟨hplain.2.1.chars, by decide, hplain.2.2.1.chars⟩

theorem pathname_metaText (hp : p.Plain) :
    Url.pathname ('/' :: p.metaText) = '/' :: p.metaText := by
  have hplain := hp.plain
  rw [splitOn_text_slash hp.toWellFormed] at hplain
  refine Url.pathname_eq_self ?_
  rw [splitOn_metaText hp.toWellFormed]
  simp only [List.forall_mem_append, List.forall_mem_cons] at hplain ⊢
  refine ⟨hplain.1, hplain.2.1, Url.plain_of_mem (c := '_') ?_ (by decide) ?_,
    List.forall_mem_nil _⟩
  · exact List.mem_append_right _ List.mem_cons_self
  · rw [List.forall_mem_append]
    exact ⟨hplain.2.2.1.chars, List.all_eq_true.1 (by decide)⟩

theorem parsePackage_eq (cs : List Char) : parsePackage ('/' :: cs) =
    (parseScope cs).bind fun a => (parseName '/' a.2).bind fun b => some (a.1, b.1, b.2) := rfl

theorem metaVersionMatch_eq (cs : List Char) : metaVersionMatch cs =
    (parsePackage cs).bind fun a =>
      if a.2.2.take (a.2.2.length - META_SUFFIX.length) ≠ [] ∧ '/' ∉ a.2.2 ∧
          META_SUFFIX.isSuffixOf a.2.2 then
        some (a.1, a.2.1, a.2.2.take (a.2.2.length - META_SUFFIX.length)) else none := rfl

theorem metaPkgMatch_eq (cs : List Char) : metaPkgMatch cs = (parsePackage cs).bind fun a =>
    if a.2.2 = "meta.json".toList then some (a.1, a.2.1) else none := rfl

theorem parsePackage_text (hp : p.WellFormed) (hsep : isNameChar sep = false)
    (rest : List Char) : parsePackage ('/' :: (scopeText p.scope ++ (p.pkgName ++ sep :: rest))) =
      if sep = '/' then some (p.scope, p.pkgName, rest) else none := by
  rw [parsePackage_eq, parseScope_text hp.scope (head?_name hp _), Option.bind_some,
    parseName_text hp.pkgName hsep]
  split_ifs <;> rfl

/-- The URL of a file is not one of metadata. -/
theorem metaMatch_text (hp : p.WellFormed) (hsep : isNameChar sep = false) :
    metaVersionMatch ('/' :: p.text sep) = none ∧ metaPkgMatch ('/' :: p.text sep) = none := by
  rw [metaVersionMatch_eq, metaPkgMatch_eq, ParsedPackageUrl.text, parsePackage_text hp hsep]
  split_ifs
  · have hmem : '/' ∈ p.version ++ '/' :: p.filePath :=
      List.mem_append_right _ List.mem_cons_self
    have hne : p.version ++ '/' :: p.filePath ≠ "meta.json".toList := by
      intro heq
      rw [heq] at hmem
      exact absurd hmem (by decide)
    rw [Option.bind_some, Option.bind_some, if_neg fun h => h.2.1 hmem, if_neg hne]
    exact ⟨rfl, rfl⟩
  · exact ⟨rfl, rfl⟩

theorem metaVersionMatch_metaText (hp : p.WellFormed) :
    metaVersionMatch ('/' :: p.metaText) = some (p.scope, p.pkgName, p.version) := by
  have hversion : (p.version ++ META_SUFFIX).take
      ((p.version ++ META_SUFFIX).length - META_SUFFIX.length) = p.version := by
    rw [List.length_append, Nat.add_sub_cancel, List.take_left]
  have hmem : '/' ∉ p.version ++ META_SUFFIX := by
    rw [List.mem_append, not_or]
    exact ⟨hp.version.2, by decide⟩
  have hsuffix : META_SUFFIX.isSuffixOf (p.version ++ META_SUFFIX) :=
    List.isSuffixOf_iff_suffix.2 (List.suffix_append _ _)
  rw [metaVersionMatch_eq, ParsedPackageUrl.metaText, parsePackage_text hp (by decide),
    if_pos rfl, Option.bind_some, hversion, if_pos ⟨hp.version.1, hmem, hsuffix⟩]

theorem dropWhile_text (hp : p.WellFormed) (sep : Char) :
    ('/' :: p.text sep).dropWhile (· = '/') = p.text sep := by
  have hhead : ∀ c ∈ (p.text sep).head?, c ≠ '/' := by
    obtain ⟨c, pkgName, hname⟩ := List.exists_cons_of_ne_nil hp.pkgName.1
    have hc := not_mem_pkgName hp
    rw [hname, List.mem_cons, not_or] at hc
    rw [ParsedPackageUrl.text, hname]
    cases p.scope with
    | none => simpa [scopeText] using Ne.symm hc.1
    | some scope => simp [scopeText]
  rw [List.dropWhile_cons, if_pos (decide_eq_true rfl), dropWhile_of_head]
  exact fun c hc => decide_eq_false (hhead c hc)

/-- Both URLs of a file are read as it. -/
theorem serve_text (store : PackageStore) (hp : p.WellFormed) (hsep : sep ∈ ['@', '/']) :
    serve store ('/' :: p.text sep) = serveFiles store p := by
  have hsep' : isNameChar sep = false := by
    simp only [List.mem_cons, List.not_mem_nil, or_false] at hsep
    rcases hsep with rfl | rfl <;> decide
  have hparsed : (parsePackageUrl ('/' :: p.text sep)).or (parseJsrUrl ('/' :: p.text sep)) =
      some p := parsed_iff.2 ⟨hp, sep, hsep, .inl (dropWhile_text hp sep)⟩
  rw [serve, (metaMatch_text hp hsep').1, (metaMatch_text hp hsep').2, hparsed]

theorem serve_metaText (store : PackageStore) (hp : p.WellFormed) :
    serve store ('/' :: p.metaText) = serveMeta store p.name (String.ofList p.version) := by
  rw [serve, metaVersionMatch_metaText hp, ParsedPackageUrl.name]

theorem mem_buildManifest {files : List (String × String)} {name : String}
    {entry : ManifestEntry} : ("/" ++ name, entry) ∈ buildManifest files ↔
      ∃ content, (name, content) ∈ files ∧ manifestEntry content = entry := by
  constructor
  · intro h
    obtain ⟨⟨name', content⟩, hmem, heq⟩ := List.mem_map.1 h
    obtain ⟨hname, rfl⟩ := Prod.mk.inj heq
    obtain rfl : name' = name := String.append_right_inj "/" |>.1 hname
    exact ⟨content, (objectEntries_perm files).mem_iff.1 hmem, rfl⟩
  · rintro ⟨content, hmem, rfl⟩
    exact List.mem_map.2 ⟨_, (objectEntries_perm files).mem_iff.2 hmem, rfl⟩

/-- A package's own file is found at its path. -/
theorem resolveFile_own {files : List (String × String)} {name content : String}
    (h : files.lookup name = some content) : resolveFile files name = some (name, content) := by
  have hfile : fileAt files name = some content := by
    rw [fileAt, h]
  rw [resolveFile, List.findSome?_cons, hfile]
  rfl

def sampleUrl : ParsedPackageUrl :=
  ⟨some "scope".toList, "name".toList, "1.0.0".toList, "src/mod.ts".toList⟩

def samplePackage : PackageVersion := ⟨[("src/mod.ts", "export {};")], none, by decide⟩

def sampleStore : PackageStore where
  list := .ok [⟨"@scope/name", ["1.0.0"], none⟩]
  get name version :=
    .ok (if (name, version) = ("@scope/name", "1.0.0") then some samplePackage else none)

theorem plain_sampleUrl : sampleUrl.Plain where
  scope := fun scope h => by
    cases h
    decide
  pkgName := ⟨by decide, List.all_eq_true.1 (by decide)⟩
  version := by decide
  plain := by decide

/-- The first of the paths that are tried at which something is. -/
def FoundAt (files : List (String × String)) (filePath path content : String) : Prop :=
  ∃ before after, filePath :: extensions.map (filePath ++ ·) = before ++ path :: after ∧
    (∀ earlier ∈ before, fileAt files earlier = none) ∧ fileAt files path = some content

theorem resolveFile_iff {files : List (String × String)} {filePath path content : String} :
    resolveFile files filePath = some (path, content) ↔ FoundAt files filePath path content := by
  rw [resolveFile, List.findSome?_eq_some_iff]
  constructor
  · rintro ⟨before, path', after, hpaths, hfound, hbefore⟩
    obtain ⟨content', hcontent, heq⟩ := Option.map_eq_some_iff.1 hfound
    cases heq
    exact ⟨before, after, hpaths, fun earlier h => Option.map_eq_none_iff.1 (hbefore earlier h),
      hcontent⟩
  · rintro ⟨before, after, hpaths, hbefore, hcontent⟩
    refine ⟨before, path, after, hpaths, ?_, fun earlier h => ?_⟩
    · rw [hcontent, Option.map_some]
    · rw [hbefore earlier h, Option.map_none]

theorem serveFiles_eq_file_iff {store : PackageStore} {type content : String} :
    serveFiles store p = .file type content ↔
      ∃ pkg path, store.get p.name (String.ofList p.version) = .ok (some pkg) ∧
        FoundAt pkg.files (requested pkg.files (String.ofList p.filePath)) path content ∧
        type = contentType path := by
  rw [serveFiles]
  cases store.get p.name (String.ofList p.version) with
  | error text => simp
  | ok found =>
    cases found with
    | none => simp
    | some pkg =>
      dsimp only
      cases hfound : resolveFile pkg.files (requested pkg.files (String.ofList p.filePath)) with
      | none =>
        simp only [reduceCtorEq, false_iff, not_exists, not_and]
        rintro pkg' path heq hpath
        cases heq
        rw [← resolveFile_iff, hfound] at hpath
        cases hpath
      | some e =>
        constructor
        · intro h
          cases h
          exact ⟨pkg, e.1, rfl, resolveFile_iff.1 hfound, rfl⟩
        · rintro ⟨pkg', path, heq, hpath, rfl⟩
          cases heq
          rw [← resolveFile_iff, hfound] at hpath
          cases hpath
          rfl

/-- When a request is answered with a file, and what it is. -/
theorem serve_eq_file_iff {store : PackageStore} {pathname : List Char} {type content : String} :
    serve store pathname = .file type content ↔
      metaVersionMatch pathname = none ∧ metaPkgMatch pathname = none ∧
      ∃ p : ParsedPackageUrl, p.WellFormed ∧
        (∃ sep ∈ ['@', '/'], p.IsText sep (pathname.dropWhile (· = '/'))) ∧
        ∃ pkg path, store.get p.name (String.ofList p.version) = .ok (some pkg) ∧
          FoundAt pkg.files (requested pkg.files (String.ofList p.filePath)) path content ∧
          type = contentType path := by
  rw [serve]
  cases metaVersionMatch pathname with
  | some a =>
    simp only [reduceCtorEq, false_and, iff_false]
    rw [serveMeta]
    split <;> simp
  | none =>
    cases metaPkgMatch pathname with
    | some a => simp
    | none =>
      cases hparsed : (parsePackageUrl pathname).or (parseJsrUrl pathname) with
      | none =>
        simp only [true_and]
        refine iff_of_false ?_ ?_
        · split_ifs <;> exact not_false
        · rintro ⟨p, hp, htext, -⟩
          have hsome := parsed_iff.2 ⟨hp, htext⟩
          rw [hparsed] at hsome
          cases hsome
      | some p =>
        obtain ⟨hp, htext⟩ := parsed_iff.1 hparsed
        simp only [true_and]
        rw [serveFiles_eq_file_iff]
        refine ⟨fun h => ⟨p, hp, htext, h⟩, ?_⟩
        rintro ⟨p', hp', htext', h⟩
        have hsome := parsed_iff.2 ⟨hp', htext'⟩
        rw [hparsed] at hsome
        cases hsome
        exact h

end ComputeContract.Packages.Registry
