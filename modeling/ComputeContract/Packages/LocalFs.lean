import ComputeContract.Packages.Git
import ComputeContract.Util.Path

/-!
# Packages in a directory

The store lists the packages that it discovers under its directory: `name/version` and
`@scope/name/version`, of versions that look like one. It gets a package from whatever directory is
at the join of its own, the name and the version, which need not be one of these.

* `listed_iff`: what is discovered;
* `mem_walk_iff`, `inside_walk`, `reads_walk`: what the walk over a directory reads;
* `confined_iff`: when the package that is got is one that is listed, with its files.
-/

namespace ComputeContract.Packages.LocalFs

open AssocList

/-! ## The file system -/

/-- What is in a directory: files, whose content may not be readable, directories, and links and
    others. -/
inductive Tree
  | file (content : Option String)
  | dir (entries : List (String × Tree))
  | other

def Tree.isDirectory : Tree → Bool
  | .dir _ => true
  | _ => false

/-- `join(...args)` -/
def join (args : List String) : String := String.ofList (Path.joinAll (args.map String.toList))

/-- The entries of a directory have different names. -/
inductive Tree.Valid : Tree → Prop
  | file (content : Option String) : Valid (.file content)
  | dir {entries : List (String × Tree)} (nodup : (keys entries).Nodup)
      (plain : ∀ e ∈ entries, Path.Plain e.1.toList) (valid : ∀ e ∈ entries, Valid e.2) :
      Valid (.dir entries)
  | other : Valid .other

/-- A file system, as it is seen by paths. Links are followed: they may lead anywhere. -/
structure FileSystem where
  stat : String → Option Tree
  valid : ∀ path tree, stat path = some tree → tree.Valid
  entry : ∀ path entries name tree, stat path = some (.dir entries) → (name, tree) ∈ entries →
    tree ≠ .other → stat (join [path, name]) = some tree

/-! ## The store -/

variable (fs : FileSystem) (baseDir : String)

/-- A directory that does not exist is empty. -/
def readDir (path : String) : List (String × Tree) :=
  match fs.stat path with
  | some (.dir entries) => entries
  | _ => []

/-- `/^\d+\.\d+\.\d+/` -/
def isSemver (name : String) : Bool :=
  ((Git.digitsDot name.toList).bind Git.digitsDot).any fun cs => cs.head?.any Git.isDigit

def versionsIn (entries : List (String × Tree)) : List String :=
  (entries.filter fun v => v.2.isDirectory && isSemver v.1).map Prod.fst

def isScope (name : String) : Bool := "@".toList.isPrefixOf name.toList

/-- The packages of an entry of the base directory, a scope or a package. -/
def packagesOf (entry : String × Tree) : List (String × List String) :=
  if !entry.2.isDirectory then []
  else if isScope entry.1 then
    let scopeDir := join [baseDir, entry.1]
    ((readDir fs scopeDir).filter fun se => se.2.isDirectory).map fun se =>
      (entry.1 ++ "/" ++ se.1, versionsIn (readDir fs (join [scopeDir, se.1])))
  else [(entry.1, versionsIn (readDir fs (join [baseDir, entry.1])))]

/-- Discover packages by scanning the base directory. -/
def discoverPackages : List (String × List String) :=
  setAll (((readDir fs baseDir).flatMap (packagesOf fs baseDir)).filter fun e => e.2 ≠ []) []

def list : List Git.PackageEntry :=
  (discoverPackages fs baseDir).map fun e => ⟨e.1, Git.sortVersions e.2, none⟩

def pkgDir (name version : String) : String := join [baseDir, name, version]

/-- What is read on a walk. -/
inductive Access
  | readDir (path : String)
  | readTextFile (path rel : String) (content : Option String)

def Access.path : Access → String
  | .readDir path => path
  | .readTextFile path _ _ => path

/-- The relative path of an entry. -/
def relOf (pre name : String) : String := if pre ≠ "" then pre ++ "/" ++ name else name

mutual

/-- Walk what is at a path; what is at the path of an entry is the entry (`reads_walk`). -/
def walk (current pre : String) : Tree → List Access
  | .file content => [.readTextFile current pre content]
  | .dir entries => .readDir current :: walkEntries current pre entries
  | .other => []

def walkEntries (current pre : String) : List (String × Tree) → List Access
  | [] => []
  | (name, tree) :: entries =>
    walk (join [current, name]) (relOf pre name) tree ++ walkEntries current pre entries

end

/-- `if (content !== null) files[rel] = content`, which does nothing for `__proto__`. -/
def assignment : Access → Option (String × String)
  | .readTextFile _ rel (some content) => if rel = "__proto__" then none else some (rel, content)
  | _ => none

structure PackageVersion where
  name : String
  version : String
  files : List (String × String)

/-- What `get` reads. -/
def reads (name version : String) : List Access :=
  match fs.stat (pkgDir baseDir name version) with
  | some (.dir entries) => walk (pkgDir baseDir name version) "" (.dir entries)
  | _ => []

def get (name version : String) : Option PackageVersion :=
  match fs.stat (pkgDir baseDir name version) with
  | some (.dir _) =>
    some ⟨name, version, setAll ((reads fs baseDir name version).filterMap assignment) []⟩
  | _ => none

/-! ## What it is for -/

/-- A regular file is in a tree, under some names. -/
inductive Holds : Tree → List String → Option String → Prop
  | file (content : Option String) : Holds (.file content) [] content
  | dir {entries : List (String × Tree)} {name : String} {tree : Tree} {names : List String}
      {content : Option String} (hmem : (name, tree) ∈ entries)
      (h : Holds tree names content) : Holds (.dir entries) (name :: names) content

def relPath (names : List String) : String :=
  String.ofList (['/'].intercalate (names.map String.toList))

/-- The store lists the version of the package. -/
def Listed (name version : String) : Prop :=
  ∃ e ∈ list fs baseDir, e.name = name ∧ version ∈ e.versions

def Inside (dir path : String) : Prop := path = dir ∨ (dir ++ "/").toList <+: path.toList

/-- The files are exactly the regular files of the directory, by their relative paths. -/
structure Exact (entries : List (String × Tree)) (files : List (String × String)) : Prop where
  complete : ∀ names content, Holds (.dir entries) names content →
    ∃ text, content = some text ∧ files.lookup (relPath names) = some text
  sound : ∀ rel text, files.lookup rel = some text →
    ∃ names, rel = relPath names ∧ Holds (.dir entries) names (some text)

/-- A package that is got is listed and has exactly the files of its directory, and nothing outside
    of the directories of listed versions is read. -/
structure Confined (name version : String) : Prop where
  listed : ∀ pkg, get fs baseDir name version = some pkg → Listed fs baseDir name version
  files : ∀ pkg, get fs baseDir name version = some pkg →
    ∃ entries, fs.stat (pkgDir baseDir name version) = some (.dir entries) ∧ Exact entries pkg.files
  reads : ∀ access ∈ reads fs baseDir name version, ∃ name' version',
    Listed fs baseDir name' version' ∧ Inside (pkgDir baseDir name' version') access.path

/-- A directory has the version. -/
def HasVersion (entries : List (String × Tree)) (version : String) : Prop :=
  (∃ vs, (version, Tree.dir vs) ∈ entries) ∧ isSemver version

/-- The directories of the package and the version are where those of packages and versions are:
    in the base directory, or in a scope of it. -/
def Housed (name version : String) : Prop :=
  (∃ vs, (name, Tree.dir vs) ∈ readDir fs baseDir ∧ !isScope name ∧ HasVersion vs version) ∨
  ∃ scope base ss vs, name = scope ++ "/" ++ base ∧ (scope, Tree.dir ss) ∈ readDir fs baseDir ∧
    isScope scope ∧ (base, Tree.dir vs) ∈ ss ∧ HasVersion vs version

/-- All regular files can be read, and none is named like the prototype of the record. -/
def Whole (entries : List (String × Tree)) : Prop :=
  ∀ names content, Holds (.dir entries) names content → content ≠ none ∧ names ≠ ["__proto__"]

/-! ## Paths -/

section
variable {fs baseDir}

theorem toList_join (args : List String) :
    (join args).toList = Path.joinAll (args.map String.toList) := String.toList_ofList

theorem join_concat (args : List String) {name : String} (h : Path.Plain name.toList) :
    join (args ++ [name]) = join [join args, name] := by
  refine String.toList_injective ?_
  rw [toList_join, toList_join, List.map_append, List.map_singleton, Path.joinAll_concat _ h,
    List.map_cons, List.map_singleton, toList_join]

/-- A scope and the name of a package in it are joined one by one. -/
theorem join_scope (base : String) {scope name : String} (hscope : Path.Plain scope.toList)
    (hname : Path.Plain name.toList) (rest : String) :
    join [base, scope ++ "/" ++ name, rest] = join [base, scope, name, rest] := by
  refine String.toList_injective ?_
  have hslash : (scope ++ "/" ++ name).toList = scope.toList ++ '/' :: name.toList := by
    simp
  rw [toList_join, toList_join]
  simp only [List.map_cons, List.map_nil, hslash, Path.joinAll]
  by_cases hbase : base.toList = [] <;> by_cases hrest : rest.toList = [] <;>
    simp [hbase, hrest, hscope.ne_nil, hname.ne_nil]

/-- A path that ends in a name. -/
def EndsInName (path : String) : Prop :=
  ∃ args name, Path.Plain (String.toList name) ∧ path = join (args ++ [name])

theorem EndsInName.join_eq {path : String} (h : EndsInName path) {name : String}
    (hname : Path.Plain name.toList) : join [path, name] = path ++ "/" ++ name := by
  obtain ⟨args, last, hlast, rfl⟩ := h
  refine String.toList_injective ?_
  have heq := Path.joinAll_eq_append (args.map String.toList) hlast hname
  rw [toList_join, List.map_cons, List.map_singleton, toList_join, List.map_append,
    List.map_singleton, heq, String.toList_append, String.toList_append, toList_join,
    List.map_append, List.map_singleton, List.append_assoc]
  rfl

theorem EndsInName.join {path name : String} (h : Path.Plain name.toList) :
    EndsInName (join [path, name]) := ⟨[path], name, h, rfl⟩

/-! ## Directories -/

theorem valid_of_mem_readDir {path : String} {e : String × Tree} (h : e ∈ readDir fs path) :
    Path.Plain e.1.toList ∧ e.2.Valid := by
  rw [readDir] at h
  split at h
  · next entries hstat =>
    cases fs.valid _ _ hstat with
    | dir nodup plain valid => exact ⟨plain e h, valid e h⟩
  · cases h

theorem stat_of_mem_readDir {path name : String} {entries : List (String × Tree)}
    (h : (name, Tree.dir entries) ∈ readDir fs path) :
    fs.stat (LocalFs.join [path, name]) = some (.dir entries) := by
  rw [readDir] at h
  split at h
  · next hstat => exact fs.entry _ _ _ _ hstat h nofun
  · cases h

theorem readDir_of_mem {path name : String} {entries : List (String × Tree)}
    (h : (name, Tree.dir entries) ∈ readDir fs path) :
    readDir fs (LocalFs.join [path, name]) = entries := by
  rw [readDir, stat_of_mem_readDir h]

/-- A directory has one entry of a name. -/
theorem eq_of_mem_entries {entries : List (String × Tree)} (h : (Tree.dir entries).Valid)
    {name : String} {tree tree' : Tree} (hmem : (name, tree) ∈ entries)
    (hmem' : (name, tree') ∈ entries) : tree = tree' := by
  cases h with
  | dir nodup =>
    exact Option.some.inj (((mem_iff_lookup nodup).1 hmem).symm.trans ((mem_iff_lookup nodup).1 hmem'))

theorem eq_of_mem_readDir {path name : String} {tree tree' : Tree}
    (h : (name, tree) ∈ readDir fs path) (h' : (name, tree') ∈ readDir fs path) : tree = tree' := by
  rw [readDir] at h h'
  split at h
  · next hstat => exact eq_of_mem_entries (fs.valid _ _ hstat) h (by rwa [hstat] at h')
  · cases h

/-! ## What is listed -/

theorem mem_versionsIn {entries : List (String × Tree)} {version : String} :
    version ∈ versionsIn entries ↔ HasVersion entries version := by
  rw [versionsIn, List.mem_map]
  constructor
  · rintro ⟨⟨_, tree⟩, hmem, rfl⟩
    obtain ⟨hmem, hversion⟩ := List.mem_filter.1 hmem
    rw [Bool.and_eq_true] at hversion
    cases tree with
    | dir vs => exact ⟨⟨vs, hmem⟩, hversion.2⟩
    | file _ => cases hversion.1
    | other => cases hversion.1
  · rintro ⟨⟨vs, hmem⟩, hversion⟩
    exact ⟨_, List.mem_filter.2 ⟨hmem, by rw [Bool.and_eq_true]; exact ⟨rfl, hversion⟩⟩, rfl⟩

/-- The directory of a package, in the base directory or in a scope. -/
def PackageDir (fs : FileSystem) (baseDir name : String) (vs : List (String × Tree)) : Prop :=
  ((name, Tree.dir vs) ∈ readDir fs baseDir ∧ !isScope name) ∨
  ∃ scope base ss, name = scope ++ "/" ++ base ∧ (scope, Tree.dir ss) ∈ readDir fs baseDir ∧
    isScope scope ∧ (base, Tree.dir vs) ∈ ss

theorem housed_iff {name version : String} : Housed fs baseDir name version ↔
    ∃ vs, PackageDir fs baseDir name vs ∧ HasVersion vs version := by
  constructor
  · rintro (⟨vs, hmem, hscope, hversion⟩ | ⟨scope, base, ss, vs, hname, hmem, hscope, hvs, hversion⟩)
    · exact ⟨vs, .inl ⟨hmem, hscope⟩, hversion⟩
    · exact ⟨vs, .inr ⟨scope, base, ss, hname, hmem, hscope, hvs⟩, hversion⟩
  · rintro ⟨vs, ⟨hmem, hscope⟩ | ⟨scope, base, ss, hname, hmem, hscope, hvs⟩, hversion⟩
    · exact .inl ⟨vs, hmem, hscope, hversion⟩
    · exact .inr ⟨scope, base, ss, vs, hname, hmem, hscope, hvs, hversion⟩

theorem packagesOf_dir (name : String) (entries : List (String × Tree)) :
    packagesOf fs baseDir (name, .dir entries) =
      if isScope name then
        ((readDir fs (LocalFs.join [baseDir, name])).filter fun se => se.2.isDirectory).map fun se =>
          (name ++ "/" ++ se.1,
            versionsIn (readDir fs (LocalFs.join [LocalFs.join [baseDir, name], se.1])))
      else [(name, versionsIn (readDir fs (LocalFs.join [baseDir, name])))] := rfl

theorem mem_packagesOf {name : String} {versions : List String} :
    (name, versions) ∈ (readDir fs baseDir).flatMap (packagesOf fs baseDir) ↔
      ∃ vs, PackageDir fs baseDir name vs ∧ versions = versionsIn vs := by
  rw [List.mem_flatMap]
  constructor
  · rintro ⟨⟨entry, tree⟩, hentry, h⟩
    cases tree with
    | file _ => cases h
    | other => cases h
    | dir entries =>
      rw [packagesOf_dir] at h
      split_ifs at h with hscope
      · obtain ⟨⟨base, sub⟩, hmem, heq⟩ := List.mem_map.1 h
        obtain ⟨hmem, hdir⟩ := List.mem_filter.1 hmem
        cases sub with
        | file _ => cases hdir
        | other => cases hdir
        | dir vs =>
          obtain ⟨rfl, rfl⟩ := Prod.mk.inj heq
          rw [readDir_of_mem hmem]
          rw [readDir_of_mem hentry] at hmem
          exact ⟨vs, .inr ⟨entry, base, entries, rfl, hentry, hscope, hmem⟩, rfl⟩
      · obtain ⟨rfl, rfl⟩ := Prod.mk.inj (List.mem_singleton.1 h)
        rw [readDir_of_mem hentry]
        exact ⟨entries, .inl ⟨hentry, by simpa using hscope⟩, rfl⟩
  · rintro ⟨vs, ⟨hmem, hscope⟩ | ⟨scope, base, ss, rfl, hmem, hscope, hvs⟩, rfl⟩
    · refine ⟨_, hmem, ?_⟩
      rw [packagesOf_dir, if_neg (by simpa using hscope), readDir_of_mem hmem]
      exact List.mem_singleton_self _
    · refine ⟨_, hmem, ?_⟩
      have hss : (base, Tree.dir vs) ∈ readDir fs (LocalFs.join [baseDir, scope]) := by
        rwa [readDir_of_mem hmem]
      rw [packagesOf_dir, if_pos hscope]
      exact List.mem_map.2 ⟨_, List.mem_filter.2 ⟨hss, rfl⟩, by rw [readDir_of_mem hss]⟩

/-- The names of two packages in scopes are the same when scope and name are. -/
theorem scoped_inj {scope base scope' base' : String} (hscope : Path.Plain scope.toList)
    (hscope' : Path.Plain scope'.toList)
    (h : scope ++ "/" ++ base = scope' ++ "/" ++ base') : scope = scope' ∧ base = base' := by
  have hlist : scope.toList ++ '/' :: base.toList = scope'.toList ++ '/' :: base'.toList := by
    simpa using congrArg String.toList h
  have hsplit : ∀ {s : String} (b : String), Path.Plain s.toList →
      (s.toList ++ '/' :: b.toList).takeWhile (· ≠ '/') = s.toList := by
    intro s b hs
    have hall : ∀ c ∈ s.toList, decide (c ≠ '/') = true := fun c hc =>
      decide_eq_true fun heq => hs.slash (heq ▸ hc)
    rw [List.takeWhile_append_of_pos hall]
    simp
  have heq : scope.toList = scope'.toList := by
    rw [← hsplit base hscope, hlist, hsplit base' hscope']
  refine ⟨String.toList_injective heq, ?_⟩
  rw [heq] at hlist
  exact String.toList_injective (List.cons.inj (List.append_cancel_left hlist)).2

/-- A package has one directory. -/
theorem PackageDir.unique {name : String} {vs vs' : List (String × Tree)}
    (h : PackageDir fs baseDir name vs) (h' : PackageDir fs baseDir name vs') : vs = vs' := by
  -- Only the names of packages in scopes have a slash.
  have hslash : ∀ {name scope base : String} {tree : Tree}, (name, tree) ∈ readDir fs baseDir →
      name ≠ scope ++ "/" ++ base := by
    rintro _ scope base tree hmem rfl
    refine (valid_of_mem_readDir hmem).1.slash ?_
    simp
  rcases h with ⟨hmem, -⟩ | ⟨scope, base, ss, rfl, hmem, -, hvs⟩
  · rcases h' with ⟨hmem', -⟩ | ⟨_, _, _, heq, -⟩
    · exact Tree.dir.inj (eq_of_mem_readDir hmem hmem')
    · exact absurd heq (hslash hmem)
  · rcases h' with ⟨hmem', -⟩ | ⟨scope', base', ss', heq, hmem', -, hvs'⟩
    · exact absurd rfl (hslash hmem')
    · obtain ⟨rfl, rfl⟩ := scoped_inj (valid_of_mem_readDir hmem).1 (valid_of_mem_readDir hmem').1 heq
      obtain rfl := Tree.dir.inj (eq_of_mem_readDir hmem hmem')
      exact Tree.dir.inj (eq_of_mem_entries (valid_of_mem_readDir hmem).2 hvs hvs')

/-- What is set under keys that come once, or with one value, is found. -/
theorem lookup_setAll_iff {V : Type} {entries : List (String × V)}
    (h : ∀ k v v', (k, v) ∈ entries → (k, v') ∈ entries → v = v') {k : String} {v : V} :
    (setAll entries []).lookup k = some v ↔ (k, v) ∈ entries := by
  rw [lookup_setAll, List.lookup_nil, Option.or_none]
  constructor
  · exact fun hlookup => List.mem_reverse.1 (mem_of_lookup hlookup)
  · intro hmem
    have hkey : k ∈ keys entries.reverse := mem_keys.2 ⟨v, List.mem_reverse.2 hmem⟩
    obtain ⟨v', hv'⟩ := Option.isSome_iff_exists.1 (lookup_isSome_iff.2 hkey)
    rw [hv', h k v' v (List.mem_reverse.1 (mem_of_lookup hv')) hmem]

/-- The versions that are listed are those in the directories of packages. -/
theorem listed_iff {name version : String} :
    Listed fs baseDir name version ↔ Housed fs baseDir name version := by
  have hfound : ∀ name versions, (discoverPackages fs baseDir).lookup name = some versions ↔
      versions ≠ [] ∧ ∃ vs, PackageDir fs baseDir name vs ∧ versions = versionsIn vs := by
    intro name versions
    rw [discoverPackages, lookup_setAll_iff, List.mem_filter, mem_packagesOf, and_comm,
      decide_eq_true_eq]
    intro k v v' hv hv'
    obtain ⟨vs, hvs, rfl⟩ := mem_packagesOf.1 (List.mem_filter.1 hv).1
    obtain ⟨vs', hvs', rfl⟩ := mem_packagesOf.1 (List.mem_filter.1 hv').1
    rw [hvs.unique hvs']
  have hnodup : (keys (discoverPackages fs baseDir)).Nodup := nodup_keys_setAll _ List.nodup_nil
  rw [housed_iff]
  constructor
  · rintro ⟨e, he, rfl, hversion⟩
    obtain ⟨⟨name, versions⟩, hmem, rfl⟩ := List.mem_map.1 he
    obtain ⟨-, vs, hvs, rfl⟩ := (hfound _ _).1 ((mem_iff_lookup hnodup).1 hmem)
    exact ⟨vs, hvs, mem_versionsIn.1 ((List.mem_insertionSort _).1 hversion)⟩
  · rintro ⟨vs, hvs, hversion⟩
    have hmem := mem_versionsIn.2 hversion
    have hlookup := (hfound name (versionsIn vs)).2 ⟨List.ne_nil_of_mem hmem, vs, hvs, rfl⟩
    exact ⟨_, List.mem_map_of_mem ((mem_iff_lookup hnodup).2 hlookup), rfl,
      (List.mem_insertionSort _).2 hmem⟩

/-- The directory of a listed version. -/
theorem stat_of_housed {name version : String} (h : Housed fs baseDir name version) :
    Path.Plain version.toList ∧ ∃ vs, fs.stat (pkgDir baseDir name version) = some (.dir vs) := by
  rcases h with ⟨vs, hmem, -, ⟨entries, hversion⟩, -⟩ |
    ⟨scope, base, ss, vs, rfl, hmem, -, hvs, ⟨entries, hversion⟩, -⟩
  · have hname := (valid_of_mem_readDir hmem).1
    rw [← readDir_of_mem hmem] at hversion
    have hplain := (valid_of_mem_readDir hversion).1
    refine ⟨hplain, entries, ?_⟩
    rw [pkgDir, ← stat_of_mem_readDir hversion]
    exact congrArg fs.stat (join_concat [baseDir, name] hplain)
  · have hscope := (valid_of_mem_readDir hmem).1
    rw [← readDir_of_mem hmem] at hvs
    have hbase := (valid_of_mem_readDir hvs).1
    rw [← readDir_of_mem hvs] at hversion
    have hplain := (valid_of_mem_readDir hversion).1
    refine ⟨hplain, entries, ?_⟩
    have hdir : LocalFs.join [baseDir, scope, base] = LocalFs.join [LocalFs.join [baseDir, scope], base] :=
      join_concat [baseDir, scope] hbase
    rw [pkgDir, join_scope baseDir hscope hbase, ← stat_of_mem_readDir hversion, ← hdir]
    exact congrArg fs.stat (join_concat [baseDir, scope, base] hplain)

/-! ## What is read -/

theorem holds_cons_iff {name : String} {tree : Tree} {entries : List (String × Tree)}
    {names : List String} {content : Option String} :
    Holds (.dir ((name, tree) :: entries)) names content ↔
      (∃ rest, names = name :: rest ∧ Holds tree rest content) ∨ Holds (.dir entries) names content := by
  constructor
  · rintro (_ | ⟨hmem, h⟩)
    rcases List.mem_cons.1 hmem with heq | hmem
    · obtain ⟨rfl, rfl⟩ := Prod.mk.inj heq
      exact .inl ⟨_, rfl, h⟩
    · exact .inr (.dir hmem h)
  · rintro (⟨rest, rfl, h⟩ | (_ | ⟨hmem, h⟩))
    · exact .dir List.mem_cons_self h
    · exact .dir (List.mem_cons_of_mem _ hmem) h

mutual

/-- The files that are read on a walk are the regular files, by the paths that the walk builds. -/
theorem mem_walk_iff (current pre rel : String) (content : Option String) : ∀ tree : Tree,
    (∃ path, .readTextFile path rel content ∈ walk current pre tree) ↔
      ∃ names, Holds tree names content ∧ rel = names.foldl relOf pre
  | .file content' => by
    rw [walk]
    constructor
    · rintro ⟨path, h⟩
      obtain ⟨-, rfl, rfl⟩ := Access.readTextFile.inj (List.mem_singleton.1 h)
      exact ⟨[], .file _, rfl⟩
    · rintro ⟨_, ⟨⟩, rfl⟩
      exact ⟨current, List.mem_singleton_self _⟩
  | .dir entries => by
    rw [walk, ← mem_walkEntries_iff current pre rel content entries]
    simp
  | .other => by
    rw [walk]
    refine iff_of_false (by simp) ?_
    rintro ⟨_, ⟨⟩, _⟩

theorem mem_walkEntries_iff (current pre rel : String) (content : Option String) :
    ∀ entries : List (String × Tree),
      (∃ path, .readTextFile path rel content ∈ walkEntries current pre entries) ↔
        ∃ names, Holds (.dir entries) names content ∧ rel = names.foldl relOf pre
  | [] => by
    rw [walkEntries]
    refine iff_of_false (by simp) ?_
    rintro ⟨_, h, _⟩
    cases h with
    | dir hmem _ => cases hmem
  | (name, tree) :: entries => by
    have htree := mem_walk_iff (LocalFs.join [current, name]) (relOf pre name) rel content tree
    have hentries := mem_walkEntries_iff current pre rel content entries
    simp only [walkEntries, List.mem_append, exists_or, htree, hentries, holds_cons_iff, or_and_right]
    refine or_congr_left ⟨?_, ?_⟩
    · rintro ⟨names, h, hrel⟩
      exact ⟨name :: names, ⟨names, rfl, h⟩, hrel⟩
    · rintro ⟨_, ⟨names, rfl, h⟩, hrel⟩
      exact ⟨names, h, hrel⟩

end

theorem Inside.trans {dir path path' : String} (h : Inside dir path) (h' : Inside path path') :
    Inside dir path' := by
  rcases h with rfl | h
  · exact h'
  · rcases h' with rfl | h'
    · exact .inr h
    · have hpath : path.toList <+: (path ++ "/").toList := by
        rw [String.toList_append]
        exact List.prefix_append _ _
      exact .inr (h.trans (hpath.trans h'))

mutual

/-- A walk reads nothing outside of where it starts. -/
theorem inside_walk {current : String} (pre : String) (hcurrent : EndsInName current) :
    ∀ tree : Tree, tree.Valid → ∀ access ∈ walk current pre tree, Inside current access.path
  | .file content, _ => by
    rw [walk]
    rintro _ (_ | ⟨_, h⟩)
    · exact .inl rfl
    · cases h
  | .dir entries, hvalid => by
    rw [walk]
    cases hvalid with
    | dir _ plain valid =>
      intro access haccess
      rcases List.mem_cons.1 haccess with rfl | haccess
      · exact .inl rfl
      · exact inside_walkEntries pre hcurrent entries plain valid access haccess
  | .other, _ => by
    rw [walk]
    intro access h
    cases h

theorem inside_walkEntries {current : String} (pre : String) (hcurrent : EndsInName current) :
    ∀ entries : List (String × Tree), (∀ e ∈ entries, Path.Plain e.1.toList) →
      (∀ e ∈ entries, e.2.Valid) → ∀ access ∈ walkEntries current pre entries,
        Inside current access.path
  | [], _, _ => by
    rw [walkEntries]
    intro access h
    cases h
  | (name, tree) :: entries, hplain, hvalid => by
    have hname := hplain (name, tree) List.mem_cons_self
    have hfirst := inside_walk (relOf pre name) (@EndsInName.join current name hname) tree
      (hvalid (name, tree) List.mem_cons_self)
    have hrest := inside_walkEntries pre hcurrent entries
      (fun e he => hplain e (List.mem_cons_of_mem _ he))
      fun e he => hvalid e (List.mem_cons_of_mem _ he)
    rw [walkEntries]
    intro access haccess
    rcases List.mem_append.1 haccess with haccess | haccess
    · refine Inside.trans (.inr ⟨name.toList, ?_⟩) (hfirst access haccess)
      rw [← String.toList_append, hcurrent.join_eq hname]
    · exact hrest access haccess

end

/-- What is at the path is what is read there. -/
def Access.Reads (fs : FileSystem) : Access → Prop
  | .readDir path => ∃ entries, fs.stat path = some (.dir entries)
  | .readTextFile path _ content => fs.stat path = some (.file content)

mutual

/-- A walk over a tree reads, by their paths, the parts of the tree. -/
theorem reads_walk {current : String} (pre : String) :
    ∀ tree : Tree, fs.stat current = some tree → ∀ access ∈ walk current pre tree, access.Reads fs
  | .file content, hstat => by
    rw [walk]
    intro access h
    rw [List.mem_singleton.1 h]
    exact hstat
  | .dir entries, hstat => by
    rw [walk]
    intro access h
    rcases List.mem_cons.1 h with rfl | h
    · exact ⟨entries, hstat⟩
    · exact reads_walkEntries pre entries (fun name tree hmem => fs.entry _ _ name tree hstat hmem)
        access h
  | .other, _ => by
    rw [walk]
    intro access h
    cases h

theorem reads_walkEntries {current : String} (pre : String) :
    ∀ entries : List (String × Tree), (∀ name tree, (name, tree) ∈ entries → tree ≠ .other →
      fs.stat (LocalFs.join [current, name]) = some tree) →
      ∀ access ∈ walkEntries current pre entries, access.Reads fs
  | [], _ => by
    rw [walkEntries]
    intro access h
    cases h
  | (name, tree) :: entries, hstat => by
    have hfirst : ∀ access ∈ walk (LocalFs.join [current, name]) (relOf pre name) tree,
        access.Reads fs := by
      by_cases hother : tree = .other
      · subst hother
        rw [walk]
        intro access h
        cases h
      · exact reads_walk (relOf pre name) tree (hstat name tree List.mem_cons_self hother)
    have hrest := reads_walkEntries pre entries fun name tree hmem =>
      hstat name tree (List.mem_cons_of_mem _ hmem)
    rw [walkEntries]
    intro access h
    exact (List.mem_append.1 h).elim (hfirst access) (hrest access)

end

/-! ## The files -/

theorem Holds.plain {tree : Tree} {names : List String} {content : Option String}
    (h : Holds tree names content) (hvalid : tree.Valid) : ∀ n ∈ names, Path.Plain n.toList := by
  induction h with
  | file _ => exact fun n hn => absurd hn List.not_mem_nil
  | dir hmem _ ih =>
    cases hvalid with
    | dir _ plain valid => exact List.forall_mem_cons.2 ⟨plain _ hmem, ih (valid _ hmem)⟩

/-- Under some names there is one file. -/
theorem Holds.unique {tree : Tree} {names : List String} {content content' : Option String}
    (h : Holds tree names content) (hvalid : tree.Valid) (h' : Holds tree names content') :
    content = content' := by
  induction h with
  | file _ =>
    cases h'
    rfl
  | dir hmem _ ih =>
    cases h' with
    | dir hmem' h' =>
      obtain rfl := eq_of_mem_entries hvalid hmem hmem'
      cases hvalid with
      | dir _ _ valid => exact ih (valid _ hmem) h'

/-- The relative path that a walk builds from a directory on. -/
theorem foldl_relOf {pre : String} (hpre : pre ≠ "") (names : List String) :
    names.foldl relOf pre = relPath (pre :: names) := by
  induction names generalizing pre with
  | nil => simp [relPath]
  | cons name names ih =>
    have hrel : relOf pre name = pre ++ "/" ++ name := if_pos hpre
    have hne : pre ++ "/" ++ name ≠ "" := by
      intro heq
      simpa using congrArg String.toList heq
    rw [List.foldl_cons, hrel, ih hne, relPath, relPath]
    cases names <;> simp

theorem ne_empty_of_plain {name : String} (h : Path.Plain name.toList) : name ≠ "" := by
  rintro rfl
  exact h.ne_nil rfl

theorem foldl_relOf_empty {name : String} {names : List String} (h : Path.Plain name.toList) :
    (name :: names).foldl relOf "" = relPath (name :: names) := by
  have hrel : relOf "" name = name := if_neg (not_not.2 rfl)
  rw [List.foldl_cons, hrel, foldl_relOf (ne_empty_of_plain h)]

theorem relPath_injective {names names' : List String} (hne : names ≠ []) (hne' : names' ≠ [])
    (h : ∀ n ∈ names, Path.Plain n.toList) (h' : ∀ n ∈ names', Path.Plain n.toList)
    (heq : relPath names = relPath names') : names = names' := by
  have hsplit : ∀ {names : List String}, names ≠ [] → (∀ n ∈ names, Path.Plain n.toList) →
      (relPath names).toList.splitOn '/' = names.map String.toList := by
    intro names hne h
    rw [relPath, String.toList_ofList]
    refine List.splitOn_intercalate _ ?_ (by simpa using hne)
    intro l hl
    obtain ⟨n, hn, rfl⟩ := List.mem_map.1 hl
    exact (h n hn).slash
  refine List.map_injective_iff.2 (fun _ _ h => String.toList_injective h) ?_
  rw [← hsplit hne h, heq, hsplit hne' h']

section
variable {entries : List (String × Tree)} (hvalid : (Tree.dir entries).Valid)

include hvalid in
theorem Holds.exists_cons {names : List String} {content : Option String}
    (h : Holds (.dir entries) names content) :
    names ≠ [] ∧ names.foldl relOf "" = relPath names := by
  have hplain := h.plain hvalid
  cases h with
  | dir hmem _ => exact ⟨List.cons_ne_nil _ _, foldl_relOf_empty (hplain _ List.mem_cons_self)⟩

include hvalid in
/-- What is assigned: the regular files that can be read, but for `__proto__`. -/
theorem mem_assignments {dir rel text : String} :
    (rel, text) ∈ (walk dir "" (.dir entries)).filterMap assignment ↔
      rel ≠ "__proto__" ∧ ∃ names, Holds (.dir entries) names (some text) ∧ rel = relPath names := by
  have hwalk := mem_walk_iff dir "" rel (some text) (.dir entries)
  have hrel : (∃ names, Holds (.dir entries) names (some text) ∧ rel = names.foldl relOf "") ↔
      ∃ names, Holds (.dir entries) names (some text) ∧ rel = relPath names :=
    exists_congr fun names => and_congr_right fun h => by rw [(h.exists_cons hvalid).2]
  rw [← hrel, ← hwalk, List.mem_filterMap]
  constructor
  · rintro ⟨access, hmem, h⟩
    unfold assignment at h
    split at h
    · next path rel' content =>
      split_ifs at h with hproto
      obtain ⟨rfl, rfl⟩ := Prod.mk.inj (Option.some.inj h)
      exact ⟨hproto, path, hmem⟩
    · cases h
  · rintro ⟨hproto, path, hmem⟩
    exact ⟨_, hmem, if_neg hproto⟩

include hvalid in
theorem lookup_files_iff {dir rel text : String} :
    (setAll ((walk dir "" (.dir entries)).filterMap assignment) []).lookup rel = some text ↔
      rel ≠ "__proto__" ∧ ∃ names, Holds (.dir entries) names (some text) ∧ rel = relPath names := by
  rw [lookup_setAll_iff, mem_assignments hvalid]
  intro k v v' hv hv'
  obtain ⟨-, names, h, rfl⟩ := (mem_assignments hvalid).1 hv
  obtain ⟨-, names', h', heq⟩ := (mem_assignments hvalid).1 hv'
  obtain rfl := relPath_injective (h.exists_cons hvalid).1 (h'.exists_cons hvalid).1 (h.plain hvalid)
    (h'.plain hvalid) heq
  exact Option.some.inj (h.unique hvalid h')

include hvalid in
/-- The files are exactly the regular files if these can be read and none is `__proto__`. -/
theorem exact_iff (dir : String) :
    Exact entries (setAll ((walk dir "" (.dir entries)).filterMap assignment) []) ↔ Whole entries := by
  have hproto : relPath ["__proto__"] = "__proto__" := rfl
  constructor
  · rintro ⟨hcomplete, -⟩ names content h
    obtain ⟨text, rfl, hlookup⟩ := hcomplete names content h
    refine ⟨nofun, ?_⟩
    rintro rfl
    exact ((lookup_files_iff hvalid).1 hlookup).1 hproto
  · intro hwhole
    refine ⟨fun names content h => ?_, fun rel text hlookup => ?_⟩
    · obtain ⟨hcontent, hnames⟩ := hwhole names content h
      obtain ⟨text, rfl⟩ := Option.ne_none_iff_exists'.1 hcontent
      refine ⟨text, rfl, (lookup_files_iff hvalid).2 ⟨fun heq => hnames ?_, names, h, rfl⟩⟩
      refine relPath_injective (h.exists_cons hvalid).1 (List.cons_ne_nil _ _) (h.plain hvalid) ?_
        (heq.trans hproto.symm)
      intro n hn
      rw [List.mem_singleton.1 hn]
      exact ⟨by decide, by decide, by decide, by decide⟩
    · obtain ⟨-, names, h, rfl⟩ := (lookup_files_iff hvalid).1 hlookup
      exact ⟨names, rfl, h⟩

end

/-- An empty directory for packages, in the root directory. -/
def emptyStore : FileSystem where
  stat path :=
    if path = "/" then some (.dir [("packages", .dir [])])
    else if path = "/packages" then some (.dir []) else none
  valid path tree h := by
    split_ifs at h
    · obtain rfl := Option.some.inj h
      refine .dir (List.nodup_singleton _) ?_ ?_
      · intro e he
        rw [List.mem_singleton.1 he]
        exact ⟨by decide, by decide, by decide, by decide⟩
      · intro e he
        rw [List.mem_singleton.1 he]
        exact .dir List.nodup_nil nofun nofun
    · obtain rfl := Option.some.inj h
      exact .dir List.nodup_nil nofun nofun
  entry path entries name tree h hmem _ := by
    split_ifs at h with hroot
    · obtain rfl := Tree.dir.inj (Option.some.inj h)
      obtain ⟨rfl, rfl⟩ := Prod.mk.inj (List.mem_singleton.1 hmem)
      subst hroot
      have hjoin : join ["/", "packages"] = "/packages" := by decide
      rw [hjoin]
      rfl
    · obtain rfl := Tree.dir.inj (Option.some.inj h)
      cases hmem

end

end ComputeContract.Packages.LocalFs
