import ComputeContract.Lib.Except
import ComputeContract.Util.Json
import ComputeContract.Util.Text
import ComputeContract.Mst.Node

/-!
# Packages in a git repository

The versions of a package are the tags that look like one, and `0.1.0-` and the name of a
branch. What is in a package is found in the tree of the tag or of the branch. `list` goes
over all tags and branches; `get` takes the first tag of the version. Where there is none it
runs into a name that is nowhere defined, before it comes to the branches.

* `mem_list_iff`: the versions that are listed;
* `get_eq`: what is looked up;
* `agrees_iff`: when every version that is listed is found.
-/

namespace ComputeContract.Packages.Git

open AssocList

/-! ## The repository -/

/-- What the git commands print for a state of the repository: the lines of `git tag` and of
    `git branch`, the files at a ref and their contents; `none` if the command fails. -/
structure GitRepo where
  tagLines : List String
  branchLines : List String
  lsTree : String → Option (List String)
  showFile : String → String → Option String

def isDigit (c : Char) : Bool := '0' ≤ c && c ≤ '9'

/-- Drop `suffix` at the end of the text, if it is there. -/
def dropSuffix (suffix cs : List Char) : List Char :=
  if suffix.isSuffixOf cs then cs.take (cs.length - suffix.length) else cs

/-- Derive package name from git URL: `@owner/repo`, or the last part of its path. -/
def derivePackageName (url : String) : String :=
  let name := dropSuffix ".git".toList url.toList
  let inPart := fun c => c ≠ '/' && c ≠ ':'
  let repo := (name.reverse.takeWhile inPart).reverse
  let rest := name.reverse.dropWhile inPart
  let owner := ((rest.drop 1).takeWhile inPart).reverse
  if rest.head? = some '/' ∧ repo ≠ [] ∧ owner ≠ [] ∧ (rest.drop 1).dropWhile inPart ≠ [] then
    let repo := if repo = ".git".toList then repo else dropSuffix ".git".toList repo
    String.ofList ('@' :: owner ++ '/' :: repo)
  else
    let last := ((name.reverse.dropWhile (· = '/')).takeWhile (· ≠ '/')).reverse
    if last = [] then "unknown" else String.ofList last

/-- The text begins with `\d+\.`, and what is behind it. -/
def digitsDot (cs : List Char) : Option (List Char) :=
  if (cs.takeWhile isDigit).isEmpty then none
  else if (cs.dropWhile isDigit).head? = some '.' then some ((cs.dropWhile isDigit).drop 1)
  else none

/-- Semver-like tag pattern: optional 'v' prefix, then digits. -/
def isVersionTag (tag : String) : Bool :=
  let cs := if tag.toList.head? = some 'v' then tag.toList.drop 1 else tag.toList
  ((digitsDot cs).bind digitsDot).any fun cs => cs.head?.any isDigit

/-- Strip leading 'v' from a tag to get the semver version. -/
def tagToVersion (tag : String) : String :=
  if tag.toList.head? = some 'v' then String.ofList (tag.toList.drop 1) else tag

def listTags (repo : GitRepo) : List String := (repo.tagLines.filter (· ≠ "")).filter isVersionTag

/-- The branch on a line: without blanks around it, and without the mark of the current one. -/
def branchOfLine (line : String) : String :=
  let blank := fun c => c = ' ' || c = '\t'
  let cs := (line.toList.dropWhile blank).reverse.dropWhile blank |>.reverse
  let cs := if cs.head? = some '*' then cs.drop 1 else cs
  String.ofList (cs.dropWhile blank)

def listBranches (repo : GitRepo) : List String :=
  ((repo.branchLines.filter (· ≠ "")).map branchOfLine).filter fun b =>
    b ≠ "" && b ≠ "HEAD" && !b.toList.tails.any (" -> ".toList.isPrefixOf ·)

/-! ## Discovery -/

structure DenoJson where
  name : String
  version : Option String
  exports : Option Json
  imports : Option Json
  description : Option String

structure PackageMeta where
  subdir : String
  denoJson : DenoJson

/-- `parsed.name`; no other value has one of the fields that are asked for. -/
def field (parsed : Json) (name : String) : Option Json :=
  match parsed with
  | .object fields => fields.lookup name
  | _ => none

def asString : Option Json → Option String
  | some (.string s) => some s
  | _ => none

/-- An object or an array, which is one. -/
def asObject : Option Json → Option Json
  | some (.object fields) => some (.object fields)
  | some (.array items) => some (.array items)
  | _ => none

/-- The directory of a `deno.json`. -/
def subdirOf (denoPath : String) : List Char :=
  let suffix := if "deno.jsonc".toList.isSuffixOf denoPath.toList then "deno.jsonc" else "deno.json"
  let cs := dropSuffix suffix.toList denoPath.toList
  if cs.getLast? = some '/' then cs.dropLast else cs

def isDenoJson (path : String) : Bool :=
  "deno.json".toList.isSuffixOf path.toList || "deno.jsonc".toList.isSuffixOf path.toList

/-- The package of one `deno.json`, if it is one and has a name; `null` throws. -/
def packageAt (repo : GitRepo) (tag : String) (defaultOwner : String) (denoPath : String) :
    Except String (Option (String × PackageMeta)) :=
  match ((repo.showFile tag denoPath).filter (· ≠ "")).bind Json.parse with
  | none => .ok none
  | some .null => .error "Cannot read properties of null (reading 'name')"
  | some parsed =>
    let subdir := subdirOf denoPath
    let last := (subdir.reverse.takeWhile (· ≠ '/')).reverse
    let dirName := if last = [] then subdir else last
    let fallbackPkgName :=
      if defaultOwner ≠ "" then some ("@" ++ defaultOwner ++ "/" ++ String.ofList dirName) else none
    match (asString (field parsed "name")).or fallbackPkgName with
    | none => .ok none
    | some name =>
      if name = "" then .ok none
      else .ok (some (name, ⟨String.ofList subdir,
        { name
          version := asString (field parsed "version")
          exports := ((asString (field parsed "exports")).map Json.string).or
            (asObject (field parsed "exports"))
          imports := asObject (field parsed "imports")
          description := asString (field parsed "description") }⟩))

/-- Discover packages at a given tag by scanning for deno.json files. -/
def discoverPackages (repo : GitRepo) (tag : String) (defaultOwner : String) :
    Except String (List (String × PackageMeta)) :=
  match repo.lsTree tag with
  | none => .error "git ls-tree failed"
  | some lines => do
    let found ← ((lines.filter (· ≠ "")).filter isDenoJson).mapM (packageAt repo tag defaultOwner)
    return setAll (found.filterMap id) []

/-! ## Listing -/

structure PackageInfo where
  versions : List String
  description : Option String

structure PackageEntry where
  name : String
  versions : List String
  description : Option String

/-- The packages at a ref, with their descriptions: without any, the whole repository is one. -/
def packagesAt (fallbackName : String) (pkgs : List (String × PackageMeta)) :
    List (String × Option String) :=
  if pkgs.length = 0 then [(fallbackName, none)]
  else pkgs.map fun e => (e.1, e.2.denoJson.description)

/-- Add a version of a package; `once`, if it is not there already. -/
def addVersion (once : Bool) (version : String) (pkgVersions : List (String × PackageInfo))
    (pkg : String × Option String) : List (String × PackageInfo) :=
  match pkgVersions.lookup pkg.1 with
  | some existing =>
    let versions := if once ∧ version ∈ existing.versions then existing.versions
      else existing.versions ++ [version]
    set pkg.1 ⟨versions, existing.description.or pkg.2⟩ pkgVersions
  | none => set pkg.1 ⟨[version], pkg.2⟩ pkgVersions

/-- The branches that are listed: of letters, digits and `-`, `main` and `master` among them. -/
def isSafeBranch (branch : String) : Bool :=
  branch.toList.all fun c => c.isAlpha || isDigit c || c = '-'

def sortVersions (versions : List String) : List String :=
  versions.insertionSort fun a b => (⟨a⟩ : Key) ≤ ⟨b⟩

section Store

variable (repo : GitRepo) (url : String)

def fallbackName : String := derivePackageName url

def defaultOwner : String :=
  let name := (fallbackName url).toList
  String.ofList ((if name.head? = some '@' then name.drop 1 else name).takeWhile (· ≠ '/'))

/-- Get the packages of a tag or branch; the cache gives the same ones again. -/
def getDiscovery (ref : String) : Except String (List (String × PackageMeta)) :=
  discoverPackages repo ref (defaultOwner url)

def addTag (pkgVersions : List (String × PackageInfo)) (tag : String) :
    Except String (List (String × PackageInfo)) := do
  let pkgs ← getDiscovery repo url tag
  return (packagesAt (fallbackName url) pkgs).foldl (addVersion false (tagToVersion tag)) pkgVersions

/-- A branch that cannot be read is skipped. -/
def addBranch (pkgVersions : List (String × PackageInfo)) (branch : String) :
    List (String × PackageInfo) :=
  match getDiscovery repo url branch with
  | .error _ => pkgVersions
  | .ok pkgs =>
    (packagesAt (fallbackName url) pkgs).foldl (addVersion true ("0.1.0-" ++ branch)) pkgVersions

def list : Except String (List PackageEntry) := do
  let pkgVersions ← (listTags repo).foldlM (addTag repo url) []
  let pkgVersions := ((listBranches repo).filter isSafeBranch).foldl (addBranch repo url) pkgVersions
  return pkgVersions.map fun e => ⟨e.1, sortVersions e.2.versions, e.2.description⟩

/-! ## Looking up -/

structure PackageVersion where
  name : String
  version : String
  files : List (String × String)
  exports : Json
  denoJson : DenoJson

/-- Find the subdirectory and deno.json metadata for a package at a tag. -/
def findPackage (tag packageName : String) : Except String (Option PackageMeta) := do
  let pkgs ← getDiscovery repo url tag
  match pkgs.lookup packageName with
  | some found => return some found
  | none =>
    if packageName = fallbackName url ∧ pkgs.length = 0 then
      return some ⟨"", ⟨fallbackName url, none, none, none, none⟩⟩
    else return none

/-- A binary file by extension, in any case. -/
def isBinaryPath (path : String) : Bool :=
  ["png", "jpg", "jpeg", "gif", "svg", "webp", "ico", "woff", "woff2", "ttf", "eot", "wasm", "gz",
    "zip", "tar", "bz2", "xz", "7z"].any fun ext =>
      ('.' :: ext.toList).isSuffixOf (path.toList.map Char.toLower)

/-- Build a PackageVersion from a resolved git ref. -/
def buildPackageVersion (ref : String) (pkgMeta : PackageMeta)
    (requestedName requestedVersion : String) : Except String PackageVersion :=
  match repo.lsTree ref with
  | none => .error "git ls-tree failed"
  | some lines =>
    let dir := if pkgMeta.subdir = "" then "" else pkgMeta.subdir ++ "/"
    let paths := ((lines.filter (· ≠ "")).filter fun p => dir.toList.isPrefixOf p.toList).map
      fun p => String.ofList (p.toList.drop dir.length)
    let files := setAll ((paths.filter (¬ isBinaryPath ·)).filterMap fun relPath =>
      (repo.showFile ref (dir ++ relPath)).map fun content => (relPath, content)) []
    let entry := if "mod.ts" ∈ keys files then "./mod.ts"
      else ((keys files).find? fun f =>
        ".ts".toList.isSuffixOf f.toList || ".js".toList.isSuffixOf f.toList).getD ""
    let detected := .object [(".", .string (if entry ≠ "" then "./" ++ entry else "./mod.ts"))]
    let exports := match pkgMeta.denoJson.exports with
      | some (.string path) => .object [(".", .string path)]
      | some exports => exports
      | none => detected
    .ok ⟨requestedName, requestedVersion, files, exports, pkgMeta.denoJson⟩

/-- The first tag of the version. -/
def tagOf (version : String) : Option String :=
  (listTags repo).find? fun t => tagToVersion t = version || t = version

def get (name version : String) : Except String (Option PackageVersion) :=
  match tagOf repo version with
  | none => .error "SEMVER_RE is not defined"
  | some ref => do
    match ← findPackage repo url ref name with
    | none => return none
    | some pkgMeta => return some (← buildPackageVersion repo ref pkgMeta name version)

end Store

/-! ## What is listed -/

variable {repo : GitRepo} {url : String} {pkgVersions : List (String × PackageInfo)}

/-- The ref has the package. -/
def Offers (repo : GitRepo) (url ref name : String) : Prop :=
  ∃ pkgs, getDiscovery repo url ref = .ok pkgs ∧
    name ∈ (packagesAt (fallbackName url) pkgs).map Prod.fst

/-- The version is among those of the package. -/
def Listed (pkgVersions : List (String × PackageInfo)) (name version : String) : Prop :=
  ∃ info ∈ pkgVersions.lookup name, version ∈ info.versions

theorem listed_addVersion (once : Bool) (version : String) (pkg : String × Option String)
    (name v : String) : Listed (addVersion once version pkgVersions pkg) name v ↔
      Listed pkgVersions name v ∨ name = pkg.1 ∧ v = version := by
  rw [Listed, addVersion]
  cases hl : pkgVersions.lookup pkg.1 with
  | none =>
    dsimp only
    rw [lookup_set]
    by_cases hname : name = pkg.1
    · subst hname
      simp [Listed, hl]
    · simp [Listed, hname]
  | some existing =>
    dsimp only
    rw [lookup_set]
    by_cases hname : name = pkg.1
    · subst hname
      by_cases honce : once ∧ version ∈ existing.versions
      · have hmem : ∀ {v}, v = version → v ∈ existing.versions := fun h => h ▸ honce.2
        simpa [Listed, hl, honce] using hmem
      · simp [Listed, hl, honce]
    · simp [Listed, hname]

theorem nodup_addVersion (h : (keys pkgVersions).Nodup) (once : Bool) (version : String)
    (pkg : String × Option String) :
    (keys (addVersion once version pkgVersions pkg)).Nodup := by
  rw [addVersion]
  cases pkgVersions.lookup pkg.1 with
  | none => exact nodup_keys_set h
  | some existing => exact nodup_keys_set h

/-- All packages of a ref get its version. -/
theorem listed_foldl (once : Bool) (version : String) (pkgs : List (String × Option String))
    (name v : String) :
    Listed (pkgs.foldl (addVersion once version) pkgVersions) name v ↔
      Listed pkgVersions name v ∨ v = version ∧ name ∈ pkgs.map Prod.fst := by
  induction pkgs generalizing pkgVersions with
  | nil => simp
  | cons pkg pkgs ih =>
    rw [List.foldl_cons, ih, listed_addVersion, List.map_cons, List.mem_cons, or_assoc,
      and_comm (a := name = pkg.1), ← and_or_left]

theorem nodup_foldl (h : (keys pkgVersions).Nodup) (once : Bool) (version : String)
    (pkgs : List (String × Option String)) :
    (keys (pkgs.foldl (addVersion once version) pkgVersions)).Nodup :=
  List.foldlRecOn (motive := fun m => (keys m).Nodup) pkgs _ h fun _ hm pkg _ =>
    nodup_addVersion hm once version pkg

/-- The tags are gone over as long as they can be read. -/
theorem foldlM_addTag (tags : List String) (hn : (keys pkgVersions).Nodup) :
    (∃ t ∈ tags, ∀ pkgs, getDiscovery repo url t ≠ .ok pkgs) ∧
      (∀ m, tags.foldlM (addTag repo url) pkgVersions ≠ .ok m) ∨
    (∀ t ∈ tags, ∃ pkgs, getDiscovery repo url t = .ok pkgs) ∧
      ∃ m, tags.foldlM (addTag repo url) pkgVersions = .ok m ∧ (keys m).Nodup ∧
        ∀ name v, Listed m name v ↔
          Listed pkgVersions name v ∨ ∃ t ∈ tags, tagToVersion t = v ∧ Offers repo url t name := by
  induction tags generalizing pkgVersions with
  | nil => exact .inr ⟨by simp, pkgVersions, rfl, hn, by simp⟩
  | cons tag tags ih =>
    rw [List.foldlM_cons, addTag]
    cases hd : getDiscovery repo url tag with
    | error e => exact .inl ⟨⟨tag, List.mem_cons_self, by simp [hd]⟩, fun m h => by cases h⟩
    | ok pkgs =>
      rw [ok_bind]
      rcases ih (nodup_foldl hn false (tagToVersion tag) (packagesAt (fallbackName url) pkgs)) with
        ⟨⟨t, ht, hthrows⟩, hm⟩ | ⟨hall, m, hm, hnodup, hlisted⟩
      · exact .inl ⟨⟨t, List.mem_cons_of_mem _ ht, hthrows⟩, hm⟩
      · refine .inr ⟨List.forall_mem_cons.2 ⟨⟨pkgs, hd⟩, hall⟩, m, hm, hnodup, fun name v => ?_⟩
        rw [hlisted, listed_foldl, or_assoc, List.exists_mem_cons_iff]
        refine or_congr_right (or_congr_left ?_)
        rw [eq_comm (a := v)]
        refine and_congr_right fun _ => ⟨fun h => ⟨pkgs, hd, h⟩, ?_⟩
        rintro ⟨pkgs', hd', h⟩
        cases hd.symm.trans hd'
        exact h

/-- Branches that cannot be read add nothing. -/
theorem listed_addBranches (branches : List String) (hn : (keys pkgVersions).Nodup) :
    (keys (branches.foldl (addBranch repo url) pkgVersions)).Nodup ∧
      ∀ name v, Listed (branches.foldl (addBranch repo url) pkgVersions) name v ↔
        Listed pkgVersions name v ∨
          ∃ b ∈ branches, "0.1.0-" ++ b = v ∧ Offers repo url b name := by
  induction branches generalizing pkgVersions with
  | nil => exact ⟨hn, by simp⟩
  | cons branch branches ih =>
    rw [List.foldl_cons, addBranch]
    cases hd : getDiscovery repo url branch with
    | error e =>
      obtain ⟨hnodup, hlisted⟩ := ih hn
      refine ⟨hnodup, fun name v => (hlisted name v).trans ?_⟩
      rw [List.exists_mem_cons_iff]
      refine or_congr_right (or_iff_right ?_).symm
      rintro ⟨_, pkgs, hd', _⟩
      cases hd.symm.trans hd'
    | ok pkgs =>
      obtain ⟨hnodup, hlisted⟩ :=
        ih (nodup_foldl hn true ("0.1.0-" ++ branch) (packagesAt (fallbackName url) pkgs))
      refine ⟨hnodup, fun name v => (hlisted name v).trans ?_⟩
      rw [listed_foldl, or_assoc, List.exists_mem_cons_iff]
      refine or_congr_right (or_congr_left ?_)
      rw [eq_comm (a := v)]
      refine and_congr_right fun _ => ⟨fun h => ⟨pkgs, hd, h⟩, ?_⟩
      rintro ⟨pkgs', hd', h⟩
      cases hd.symm.trans hd'
      exact h

/-- What `list` returns: a tag that cannot be read makes it throw, otherwise the versions are
    those of the tags and of the branches that have the package. -/
theorem list_cases (repo : GitRepo) (url : String) :
    (∃ t ∈ listTags repo, ∀ pkgs, getDiscovery repo url t ≠ .ok pkgs) ∧
      (∀ entries, list repo url ≠ .ok entries) ∨
    (∀ t ∈ listTags repo, ∃ pkgs, getDiscovery repo url t = .ok pkgs) ∧
      ∃ entries, list repo url = .ok entries ∧
        ∀ name v, (∃ e ∈ entries, e.name = name ∧ v ∈ e.versions) ↔
          (∃ t ∈ listTags repo, tagToVersion t = v ∧ Offers repo url t name) ∨
          ∃ b ∈ (listBranches repo).filter isSafeBranch,
            "0.1.0-" ++ b = v ∧ Offers repo url b name := by
  have hempty : (keys ([] : List (String × PackageInfo))).Nodup := List.nodup_nil
  rcases foldlM_addTag (listTags repo) hempty with
    ⟨hthrows, hm⟩ | ⟨hall, m, hm, hnodup, hlisted⟩
  · refine .inl ⟨hthrows, fun entries h => ?_⟩
    obtain ⟨m, hm', _⟩ := bind_eq_ok.1 h
    exact hm m hm'
  · obtain ⟨hnodup', hlisted'⟩ :=
      listed_addBranches ((listBranches repo).filter isSafeBranch) hnodup
    refine .inr ⟨hall, _, bind_eq_ok.2 ⟨m, hm, rfl⟩, fun name v => ?_⟩
    have hnone : ¬ Listed ([] : List (String × PackageInfo)) name v := by
      rintro ⟨_, h, _⟩
      cases h
    rw [← or_iff_right hnone (b := ∃ t ∈ listTags repo, _), ← hlisted, ← hlisted']
    constructor
    · rintro ⟨e, he, rfl, hv⟩
      obtain ⟨⟨name, info⟩, hinfo, rfl⟩ := List.mem_map.1 he
      exact ⟨info, (mem_iff_lookup hnodup').1 hinfo, List.mem_insertionSort _ |>.1 hv⟩
    · rintro ⟨info, hinfo, hv⟩
      exact ⟨_, List.mem_map.2 ⟨(name, info), mem_of_lookup hinfo, rfl⟩, rfl,
        List.mem_insertionSort _ |>.2 hv⟩

/-! ## What is found -/

/-- The package of that name and version is found. -/
def Found (repo : GitRepo) (url name version : String) : Prop :=
  ∃ pkg, get repo url name version = .ok (some pkg) ∧ pkg.name = name ∧ pkg.version = version

/-- A package is found at a ref that has it. -/
theorem findPackage_isSome_iff (repo : GitRepo) (url ref name : String) :
    (∃ pkgMeta, findPackage repo url ref name = .ok (some pkgMeta)) ↔ Offers repo url ref name := by
  rw [findPackage, Offers]
  cases hd : getDiscovery repo url ref with
  | error e =>
    refine iff_of_false ?_ ?_
    · rintro ⟨_, h⟩
      cases h
    · rintro ⟨_, h, _⟩
      cases h
  | ok pkgs =>
    rw [ok_bind]
    have hnames : (∃ pkgs', (Except.ok pkgs : Except String _) = .ok pkgs' ∧
        name ∈ (packagesAt (fallbackName url) pkgs').map Prod.fst) ↔
          name ∈ (packagesAt (fallbackName url) pkgs).map Prod.fst :=
      ⟨fun ⟨_, h, hmem⟩ => Except.ok.inj h ▸ hmem, fun h => ⟨pkgs, rfl, h⟩⟩
    rw [hnames]
    cases pkgs with
    | nil =>
      have hnil : packagesAt (fallbackName url) [] = [(fallbackName url, none)] := rfl
      rw [hnil]
      by_cases hname : name = fallbackName url
      · simp [hname, pure, Except.pure]
      · simp [hname, pure, Except.pure]
    | cons e pkgs =>
      have hkeys : (packagesAt (fallbackName url) (e :: pkgs)).map Prod.fst = keys (e :: pkgs) := by
        simp [packagesAt, keys]
      rw [hkeys, ← lookup_isSome_iff]
      cases hl : (e :: pkgs).lookup name with
      | none => simp [pure, Except.pure]
      | some found => simp [pure, Except.pure]

/-- A ref that could be read once is read again. -/
theorem buildPackageVersion_of_findPackage {repo : GitRepo} {url ref name : String}
    {pkgMeta : Option PackageMeta} (h : findPackage repo url ref name = .ok pkgMeta)
    (built : PackageMeta) (version : String) :
    ∃ pkg, buildPackageVersion repo ref built name version = .ok pkg ∧ pkg.name = name ∧
      pkg.version = version := by
  obtain ⟨pkgs, hd, _⟩ := bind_eq_ok.1 h
  rw [getDiscovery, discoverPackages] at hd
  rw [buildPackageVersion]
  cases hlines : repo.lsTree ref with
  | none =>
    rw [hlines] at hd
    cases hd
  | some lines => exact ⟨_, rfl, rfl, rfl⟩

/-- What is looked up is found when the first tag of the version has it. -/
theorem found_iff (repo : GitRepo) (url name version : String) :
    Found repo url name version ↔ ∃ t ∈ tagOf repo version, Offers repo url t name := by
  rw [Found, get]
  cases htag : tagOf repo version with
  | none =>
    refine iff_of_false ?_ ?_
    · rintro ⟨_, h, _⟩
      cases h
    · rintro ⟨_, h, _⟩
      cases h
  | some ref =>
    have hoffers : (∃ t ∈ some ref, Offers repo url t name) ↔ Offers repo url ref name := by simp
    rw [hoffers, ← findPackage_isSome_iff]
    dsimp only
    cases hfind : findPackage repo url ref name with
    | error e =>
      refine iff_of_false ?_ ?_
      · rintro ⟨_, h, _⟩
        cases h
      · rintro ⟨_, h⟩
        cases h
    | ok found =>
      cases found with
      | none =>
        refine iff_of_false ?_ ?_
        · rintro ⟨_, h, _⟩
          cases h
        · rintro ⟨_, h⟩
          cases h
      | some pkgMeta =>
        obtain ⟨pkg, hpkg, hname, hversion⟩ :=
          buildPackageVersion_of_findPackage hfind pkgMeta version
        refine iff_of_true ⟨pkg, ?_, hname, hversion⟩ ⟨pkgMeta, rfl⟩
        rw [ok_bind]
        dsimp only
        rw [hpkg]
        rfl

/-! ## Agreement -/

/-- Every version that is listed is found. -/
def Agrees (repo : GitRepo) (url : String) : Prop :=
  ∀ entries, list repo url = .ok entries →
    ∀ e ∈ entries, ∀ v ∈ e.versions, Found repo url e.name v

/-- What a tag or a branch has, the first tag of its version has. -/
def Covered (repo : GitRepo) (url : String) : Prop :=
  (∀ t ∈ listTags repo, ∀ name, Offers repo url t name →
    ∃ t' ∈ tagOf repo (tagToVersion t), Offers repo url t' name) ∧
  ∀ b ∈ (listBranches repo).filter isSafeBranch, ∀ name, Offers repo url b name →
    ∃ t ∈ tagOf repo ("0.1.0-" ++ b), Offers repo url t name

/-- The listing and the lookup agree exactly when the first tag of each version has what its
    other tags and its branch have, or a tag cannot be read. -/
theorem agrees_iff (repo : GitRepo) (url : String) :
    Agrees repo url ↔
      (∃ t ∈ listTags repo, ∀ pkgs, getDiscovery repo url t ≠ .ok pkgs) ∨ Covered repo url := by
  rcases list_cases repo url with ⟨hthrows, hlist⟩ | ⟨hall, entries, hlist, hlisted⟩
  · exact iff_of_true (fun entries h => absurd h (hlist entries)) (.inl hthrows)
  · have hnot : ¬ ∃ t ∈ listTags repo, ∀ pkgs, getDiscovery repo url t ≠ .ok pkgs := by
      rintro ⟨t, ht, hthrows⟩
      obtain ⟨pkgs, hd⟩ := hall t ht
      exact hthrows pkgs hd
    rw [or_iff_right hnot]
    constructor
    · intro h
      have hfound : ∀ name v, (∃ e ∈ entries, e.name = name ∧ v ∈ e.versions) →
          ∃ t ∈ tagOf repo v, Offers repo url t name := by
        rintro name v ⟨e, he, rfl, hv⟩
        exact (found_iff repo url e.name v).1 (h entries hlist e he v hv)
      exact ⟨fun t ht name hname => hfound name _ ((hlisted _ _).2 (.inl ⟨t, ht, rfl, hname⟩)),
        fun b hb name hname => hfound name _ ((hlisted _ _).2 (.inr ⟨b, hb, rfl, hname⟩))⟩
    · rintro ⟨htags, hbranches⟩ entries' hlist' e he v hv
      cases hlist.symm.trans hlist'
      rw [found_iff]
      rcases (hlisted e.name v).1 ⟨e, he, rfl, hv⟩ with ⟨t, ht, rfl, hname⟩ | ⟨b, hb, rfl, hname⟩
      · exact htags t ht e.name hname
      · exact hbranches b hb e.name hname

/-- A repository with one branch, a file and no tags. -/
def sampleRepo : GitRepo where
  tagLines := []
  branchLines := ["* main"]
  lsTree _ := some ["mod.ts"]
  showFile _ _ := some "export const greeting = 1;"

theorem not_agrees : ¬ ∀ repo url, Agrees repo url := by
  intro h
  obtain ⟨entries, hlist, hentries⟩ : ∃ entries,
      list sampleRepo "https://example.com/owner/repo.git" = .ok entries ∧
        (entries.map fun e => (e.name, e.versions)) = [("@owner/repo", ["0.1.0-main"])] :=
    ⟨_, rfl, by decide +kernel⟩
  obtain ⟨e, rfl, he⟩ := List.map_eq_singleton_iff.1 hentries
  obtain ⟨hname, hversions⟩ := Prod.mk.inj he
  obtain ⟨pkg, hget, _⟩ := h _ _ _ hlist e (List.mem_singleton_self e) "0.1.0-main" (by simp [hversions])
  cases hget

end ComputeContract.Packages.Git
