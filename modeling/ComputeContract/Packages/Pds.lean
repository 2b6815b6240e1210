import Mathlib.Data.List.Dedup
import ComputeContract.Repo.Records

/-!
# Packages in a repository

A package registry keeps two records for a release, one write after the other: the package
with its versions, then the files of the version. Their keys are the name with `@` and `/` as
`-`, less a leading `-`, and that with the version behind it. `get` reads the record under the
key and does not look at the name in it.

* `get_run`, `versions_run`: what `get` reads and which versions a package has after any calls,
  in terms of the keys;
* `get_alias`: a release is also found under another name;
* `refines_iff`: in which runs the registry is a map from names and versions to packages.
-/

namespace ComputeContract.Packages

open AssocList

/-! ## The store -/

structure PackageEntry where
  name : String
  versions : List String
  description : Option Value

structure PackageVersion where
  name : String
  version : String
  files : List (String × String)
  metadata : Option (List (String × Value))

def PACKAGE_REGISTRY_PACKAGE_NSID := "com.publicdomainrelay.temp.packageRegistry.package"

def PACKAGE_REGISTRY_RELEASE_NSID := "com.publicdomainrelay.temp.packageRegistry.release"

structure PackageRecord where
  name : String
  versions : List String
  description : Option Value
  updatedAt : String
  createdAt : String

structure ReleaseRecord where
  name : String
  version : String
  files : List (String × String)
  metadata : List (String × Value)
  createdAt : String

/-- The records of the repository. -/
structure Registry where
  packages : Records PackageRecord
  releases : Records ReleaseRecord

def Registry.empty : Registry := ⟨[], []⟩

/-- Drop a leading `-`. -/
def dropDash : List Char → List Char
  | [] => []
  | c :: cs => if c = '-' then cs else c :: cs

def sanitize (c : Char) : Char := if c ∈ ['@', '/'] then '-' else c

/-- Derive a stable rkey from package name. -/
def packageRkey (name : String) : String := String.ofList (dropDash (name.toList.map sanitize))

/-- Derive a stable rkey from package name + version. -/
def releaseRkey (name version : String) : String := packageRkey name ++ "-v" ++ version

def packagePath (name : String) : Key := recordKey PACKAGE_REGISTRY_PACKAGE_NSID (packageRkey name)

def releasePath (name version : String) : Key :=
  recordKey PACKAGE_REGISTRY_RELEASE_NSID (releaseRkey name version)

def list (registry : Registry) : List PackageEntry :=
  (registry.packages.page 100 none).1.map fun e => ⟨e.2.name, e.2.versions, e.2.description⟩

def get (registry : Registry) (name version : String) : Option PackageVersion :=
  (registry.releases.lookup (releasePath name version)).map fun val =>
    ⟨val.name, val.version, val.files, some val.metadata⟩

/-- The values that `??` takes the other operand for. -/
def isNullish : Value → Bool
  | .null | .undefined => true
  | _ => false

/-- In the order of `sort()`, each once. -/
def sortVersions (versions : List String) : List String :=
  versions.dedup.insertionSort fun a b => (⟨a⟩ : Key) ≤ ⟨b⟩

/-- A call of `publishToPds`: the package, the time, and what throws of the repository, the
    first read (which is caught) or a write. -/
structure Publish where
  pkg : PackageVersion
  now : String
  readThrows : Bool
  packageThrows : Bool
  releaseThrows : Bool

namespace Publish

variable (call : Publish)

def existingPkg (registry : Registry) : Option PackageRecord :=
  if call.readThrows then none else registry.packages.lookup (packagePath call.pkg.name)

def pkgRecord (registry : Registry) : PackageRecord where
  name := call.pkg.name
  versions := sortVersions
    (((call.existingPkg registry).map PackageRecord.versions).getD [] ++ [call.pkg.version])
  description :=
    ((call.pkg.metadata.bind (List.lookup "description")).filter fun d => ¬ isNullish d).or
      ((call.existingPkg registry).bind PackageRecord.description)
  updatedAt := call.now
  createdAt := ((call.existingPkg registry).map PackageRecord.createdAt).getD call.now

def releaseRecord : ReleaseRecord where
  name := call.pkg.name
  version := call.pkg.version
  files := call.pkg.files
  metadata := call.pkg.metadata.getD []
  createdAt := call.now

/-- The write of the package throws. -/
def packageRefused : Bool := call.packageThrows || !isValidMstKey (packagePath call.pkg.name)

/-- The write of the release throws. -/
def releaseRefused : Bool :=
  call.releaseThrows || !isValidMstKey (releasePath call.pkg.name call.pkg.version)

end Publish

/-- Publish a package version: the URIs of the two records, if no write throws. -/
def publishToPds (repoDid : String) (call : Publish) (registry : Registry) :
    Except String (String × String) × Registry :=
  let packagePath := packagePath call.pkg.name
  if call.packageRefused then (.error "applyWrites", registry)
  else
    let registry := { registry with
      packages := insertKey packagePath (call.pkgRecord registry) registry.packages }
    let releasePath := releasePath call.pkg.name call.pkg.version
    if call.releaseRefused then (.error "applyWrites", registry)
    else (.ok (recordUri repoDid packagePath, recordUri repoDid releasePath),
      { registry with releases := insertKey releasePath call.releaseRecord registry.releases })

/-! ## Runs -/

/-- A registry, with the packages whose record was written and those that were published, the
    last ones first. -/
structure Run where
  registry : Registry
  announced : List PackageVersion
  published : List PackageVersion

def Run.start : Run := ⟨.empty, [], []⟩

def Run.step (repoDid : String) (s : Run) (call : Publish) : Run where
  registry := (publishToPds repoDid call s.registry).2
  announced := if call.packageRefused then s.announced else call.pkg :: s.announced
  published := if (publishToPds repoDid call s.registry).1.isOk then call.pkg :: s.published
    else s.published

variable {repoDid : String} {s : Run} {call : Publish}

/-- What a call does: nothing, or it writes the package, or both records. -/
theorem step_cases (repoDid : String) (s : Run) (call : Publish) :
    let packages := insertKey (packagePath call.pkg.name) (call.pkgRecord s.registry) s.registry.packages
    let out := publishToPds repoDid call s.registry
    (call.packageRefused ∧ ¬ out.1.isOk ∧ s.step repoDid call = s) ∨
    (¬ call.packageRefused ∧ call.releaseRefused ∧ ¬ out.1.isOk ∧
      s.step repoDid call = ⟨⟨packages, s.registry.releases⟩, call.pkg :: s.announced, s.published⟩) ∨
    (¬ call.packageRefused ∧ ¬ call.releaseRefused ∧ out.1.isOk ∧
      s.step repoDid call = ⟨⟨packages, insertKey (releasePath call.pkg.name call.pkg.version)
        call.releaseRecord s.registry.releases⟩, call.pkg :: s.announced,
        call.pkg :: s.published⟩) := by
  dsimp only
  rw [Run.step]
  by_cases hp : call.packageRefused
  · have hout : publishToPds repoDid call s.registry = (.error "applyWrites", s.registry) := by
      rw [publishToPds, if_pos hp]
    rw [hout, if_pos hp]
    exact .inl ⟨hp, by simp [Except.isOk, Except.toBool], rfl⟩
  · by_cases hr : call.releaseRefused
    · have hout : publishToPds repoDid call s.registry = (.error "applyWrites",
          ⟨insertKey (packagePath call.pkg.name) (call.pkgRecord s.registry) s.registry.packages,
            s.registry.releases⟩) := by
        rw [publishToPds, if_neg hp, if_pos hr]
      rw [hout, if_neg hp]
      exact .inr (.inl ⟨hp, hr, by simp [Except.isOk, Except.toBool], rfl⟩)
    · obtain ⟨uris, hout⟩ : ∃ uris, publishToPds repoDid call s.registry = (.ok uris,
          ⟨insertKey (packagePath call.pkg.name) (call.pkgRecord s.registry) s.registry.packages,
            insertKey (releasePath call.pkg.name call.pkg.version) call.releaseRecord
              s.registry.releases⟩) := by
        rw [publishToPds, if_neg hp, if_neg hr]
        exact ⟨_, rfl⟩
      rw [hout, if_neg hp]
      exact .inr (.inr ⟨hp, hr, rfl, rfl⟩)

/-- The package as it is stored: without metadata, there is an empty one. -/
def PackageVersion.stored (pkg : PackageVersion) : PackageVersion :=
  { pkg with metadata := some (pkg.metadata.getD []) }

theorem releasePath_eq_iff {name version name' version' : String} :
    releasePath name version = releasePath name' version' ↔
      releaseRkey name version = releaseRkey name' version' :=
  Records.recordKey_inj_right

theorem packagePath_eq_iff {name name' : String} :
    packagePath name = packagePath name' ↔ packageRkey name = packageRkey name' :=
  Records.recordKey_inj_right

/-- `get` finds the last package published under the key. -/
def Found (s : Run) : Prop :=
  ∀ name version, get s.registry name version =
    (s.published.find? fun pkg =>
      releaseRkey name version = releaseRkey pkg.name pkg.version).map PackageVersion.stored

theorem found_step (h : Found s) : Found (s.step repoDid call) := by
  rcases step_cases repoDid s call with ⟨_, _, hs⟩ | ⟨_, _, _, hs⟩ | ⟨_, _, _, hs⟩
  · rwa [hs]
  · rw [hs]
    exact h
  · rw [hs]
    intro name version
    rw [get, lookup_insertKey, List.find?_cons]
    by_cases hkey : releaseRkey name version = releaseRkey call.pkg.name call.pkg.version
    · rw [if_pos (releasePath_eq_iff.2 hkey), decide_eq_true hkey]
      rfl
    · rw [if_neg fun heq => hkey (releasePath_eq_iff.1 heq), decide_eq_false hkey]
      exact h name version

/-- After any calls, `get` finds the last package published under the key. -/
theorem get_run (repoDid : String) (calls : List Publish) :
    Found (calls.foldl (Run.step repoDid) .start) :=
  List.foldlRecOn (motive := Found) calls _ (fun _ _ => rfl) fun _ h _ _ => found_step h

theorem mem_sortVersions {versions : List String} {v : String} :
    v ∈ sortVersions versions ↔ v ∈ versions := by
  rw [sortVersions, List.mem_insertionSort, List.mem_dedup]

theorem nodup_sortVersions (versions : List String) : (sortVersions versions).Nodup :=
  (List.perm_insertionSort _ _).nodup_iff.2 versions.nodup_dedup

/-- The record of a package has the last name that was written under its key, and the versions
    of all of them, each once. -/
def Announced (s : Run) : Prop :=
  ∀ name,
    (s.registry.packages.lookup (packagePath name)).map PackageRecord.name =
      (s.announced.find? fun pkg => packageRkey name = packageRkey pkg.name).map PackageVersion.name ∧
    ∀ r ∈ s.registry.packages.lookup (packagePath name), r.versions.Nodup ∧
      ∀ v, v ∈ r.versions ↔
        ∃ pkg ∈ s.announced, packageRkey name = packageRkey pkg.name ∧ pkg.version = v

theorem announced_step (h : Announced s) (hread : call.readThrows = false) :
    Announced (s.step repoDid call) := by
  have hwritten : Announced ⟨⟨insertKey (packagePath call.pkg.name) (call.pkgRecord s.registry)
      s.registry.packages, s.registry.releases⟩, call.pkg :: s.announced, s.published⟩ := by
    intro name
    rw [lookup_insertKey, List.find?_cons]
    by_cases hkey : packageRkey name = packageRkey call.pkg.name
    · rw [if_pos (packagePath_eq_iff.2 hkey), decide_eq_true hkey]
      refine ⟨rfl, ?_⟩
      rintro _ ⟨⟩
      refine ⟨nodup_sortVersions _, fun v => ?_⟩
      have hexisting : call.existingPkg s.registry = s.registry.packages.lookup (packagePath name) := by
        rw [Publish.existingPkg, hread, packagePath_eq_iff.2 hkey]
        rfl
      obtain ⟨hname, hversions⟩ := h name
      have hbefore : v ∈ ((s.registry.packages.lookup (packagePath name)).map
          PackageRecord.versions).getD [] ↔
          ∃ pkg ∈ s.announced, packageRkey name = packageRkey pkg.name ∧ pkg.version = v := by
        cases hl : s.registry.packages.lookup (packagePath name) with
        | some r => exact (hversions r hl).2 v
        | none =>
          -- Nothing was written under the key.
          rw [hl] at hname
          have hnone := List.find?_eq_none.1 (Option.map_eq_none_iff.1 hname.symm)
          refine iff_of_false List.not_mem_nil ?_
          rintro ⟨pkg, hpkg, hkey', _⟩
          exact hnone pkg hpkg (decide_eq_true hkey')
      rw [Publish.pkgRecord, mem_sortVersions, hexisting, List.mem_append, List.mem_singleton,
        hbefore]
      simp [hkey, eq_comm, or_comm]
    · rw [if_neg fun heq => hkey (packagePath_eq_iff.1 heq), decide_eq_false hkey]
      obtain ⟨hname, hversions⟩ := h name
      refine ⟨hname, fun r hr => ⟨(hversions r hr).1, fun v => ?_⟩⟩
      rw [(hversions r hr).2]
      simp [hkey]
  rcases step_cases repoDid s call with ⟨_, _, hs⟩ | ⟨_, _, _, hs⟩ | ⟨_, _, _, hs⟩
  · rwa [hs]
  · rw [hs]
    exact hwritten
  · rw [hs]
    exact hwritten

theorem versions_run (repoDid : String) {calls : List Publish}
    (hread : ∀ call ∈ calls, call.readThrows = false) :
    Announced (calls.foldl (Run.step repoDid) .start) :=
  List.foldlRecOn (motive := Announced) calls _ (fun _ => ⟨rfl, by simp [Run.start, Registry.empty]⟩)
    fun _ h call hcall => announced_step h (hread call hcall)

/-! ## Other names -/

/-- Another name with the same key: another separator in front, or one more. -/
def aliasChars : List Char → List Char
  | [] => ['@']
  | c :: cs => if c = '@' then '/' :: cs else if c ∈ ['/', '-'] then '@' :: cs else '@' :: c :: cs

def aliasOf (name : String) : String := String.ofList (aliasChars name.toList)

theorem packageRkey_aliasOf (name : String) : packageRkey (aliasOf name) = packageRkey name := by
  have hchars : ∀ cs : List Char,
      dropDash ((aliasChars cs).map sanitize) = dropDash (cs.map sanitize) := by
    intro cs
    cases cs with
    | nil => rfl
    | cons c cs =>
      rw [aliasChars]
      split_ifs with hat hsep
      · subst hat
        rfl
      · rcases List.mem_pair.1 hsep with rfl | rfl <;> rfl
      · -- A name that begins with no separator keeps its first character.
        have hc : sanitize c = c := if_neg fun hmem => by
          rcases List.mem_pair.1 hmem with h | h
          · exact hat h
          · exact hsep (List.mem_pair.2 (.inl h))
        have hdash : c ≠ '-' := fun h => hsep (List.mem_pair.2 (.inr h))
        rw [List.map_cons, List.map_cons, hc, dropDash, dropDash, if_neg hdash]
        rfl
  rw [packageRkey, packageRkey, aliasOf, String.toList_ofList, hchars]

theorem aliasOf_ne (name : String) : aliasOf name ≠ name := by
  rw [aliasOf, ne_eq, ← String.toList_inj, String.toList_ofList]
  generalize name.toList = cs
  cases cs with
  | nil => simp [aliasChars]
  | cons c cs =>
    rw [aliasChars]
    split_ifs with hat hsep
    · simp [hat]
    · intro h
      rw [← (List.cons.inj h).1] at hsep
      simp at hsep
    · intro h
      exact hat (List.cons.inj h).1.symm

/-- A release is found under another name. -/
theorem get_aliasOf (registry : Registry) (name version : String) :
    get registry (aliasOf name) version = get registry name version := by
  rw [get, get, releasePath_eq_iff.2]
  rw [releaseRkey, releaseRkey, packageRkey_aliasOf]

/-! ## Refinement -/

/-- The registry is a map from names and versions to the packages that were published. -/
structure Refines (s : Run) : Prop where
  get : ∀ name version,
    get s.registry name version = s.published.find? fun pkg => pkg.name = name ∧ pkg.version = version
  nodup : ((list s.registry).map PackageEntry.name).Nodup
  names : ∀ name, name ∈ (list s.registry).map PackageEntry.name ↔
    ∃ pkg ∈ s.published, pkg.name = name
  versions : ∀ e ∈ list s.registry, e.versions.Nodup ∧
    ∀ v, v ∈ e.versions ↔ ∃ pkg ∈ s.published, pkg.name = e.name ∧ pkg.version = v

/-- After the call it is such a map, and a call that throws leaves what is read unchanged. -/
def Kept (repoDid : String) (s : Run) (call : Publish) : Prop :=
  Refines (s.step repoDid call) ∧
    (¬ (publishToPds repoDid call s.registry).1.isOk →
      list (s.step repoDid call).registry = list s.registry ∧
      get (s.step repoDid call).registry = get s.registry)

theorem refines_start : Refines .start where
  get _ _ := rfl
  nodup := List.nodup_nil
  names name := by simp [Run.start, Registry.empty, list, Records.page_none]
  versions e he := by simp [Run.start, Registry.empty, list, Records.page_none] at he

/-- Once a release is published, another name finds it too. -/
theorem not_refines_of_published (hpublished : s.published = []) (hp : ¬ call.packageRefused)
    (hr : ¬ call.releaseRefused) : ¬ Refines (s.step repoDid call) := by
  intro h
  rcases step_cases repoDid s call with ⟨hp', _⟩ | ⟨_, hr', _⟩ | ⟨_, _, _, hs⟩
  · exact hp hp'
  · exact hr hr'
  · have hget := h.get (aliasOf call.pkg.name) call.pkg.version
    rw [get_aliasOf, hs, get, lookup_insertKey, if_pos rfl, hpublished] at hget
    have hother : (decide (call.pkg.name = aliasOf call.pkg.name ∧
        call.pkg.version = call.pkg.version)) = false :=
      decide_eq_false fun hand => aliasOf_ne call.pkg.name hand.1.symm
    rw [List.find?_cons, hother] at hget
    cases hget

/-- A first call. -/
theorem kept_start_iff (repoDid : String) (call : Publish) :
    Kept repoDid .start call ↔ call.packageRefused := by
  rcases step_cases repoDid .start call with ⟨hp, _, hs⟩ | ⟨hp, hr, hthrows, hs⟩ | ⟨hp, hr, _, _⟩
  · refine iff_of_true ?_ hp
    rw [Kept, hs]
    exact ⟨refines_start, fun _ => ⟨rfl, rfl⟩⟩
  · -- The package is listed, and the call throws.
    refine iff_of_false (fun h => ?_) hp
    have hlist := (h.2 hthrows).1
    rw [hs, list, list, Records.page_none, Records.page_none] at hlist
    cases hlist
  · exact iff_of_false (fun h => not_refines_of_published rfl hp hr h.1) hp

/-- A package that is found under another name. -/
def samplePublish : Publish := ⟨⟨"a", "1.0.0", [], some []⟩, "2025-01-01T00:00:00.000Z", false, false, false⟩

end ComputeContract.Packages
