import ComputeContract.Packages.Git
import ComputeContract.Util.Semver

/-!
# The latest version of a package

The git store lists the versions of a package sorted as strings, the latest one last. The registry
drops the versions of branches and answers a request for the package's `meta.json` with the last
one that is left. The last one is not the greatest version if its text is not a version, or if
another one is `Astray` of it.

* `greatest_iff`: when the last one of some versions is the greatest;
* `latestLaw_iff`: when the store and the registry report the greatest version of each package.
-/

namespace ComputeContract.Packages

open AssocList Semver

/-! ## The registry -/

structure MetaJson where
  scope : Option String
  name : String
  latest : String
  versions : List (String × Json)

inductive Response
  | notFound
  | proxied
  | json (body : MetaJson)

def fullName (scope : Option String) (name : String) : String :=
  match scope with
  | some scope => if scope = "" then name else "@" ++ scope ++ "/" ++ name
  | none => name

/-- Not a pseudo-version of a branch. -/
def isJsrVersion (version : String) : Bool := !"0.1.0-".toList.isPrefixOf version.toList

/-- Package metadata from what the store lists; the rest is proxied, also if the store throws. -/
def packageMeta (scope : Option String) (pkgName : String)
    (listed : Except String (List Git.PackageEntry)) : Response :=
  match listed with
  | .error _ => .proxied
  | .ok packages =>
    match packages.find? fun p => p.name = fullName scope pkgName with
    | none => .proxied
    | some entry =>
      let jsrVersions := entry.versions.filter isJsrVersion
      match jsrVersions.getLast? with
      | none => .proxied
      | some latest =>
        .json ⟨scope, pkgName, latest, setAll (jsrVersions.map fun v => (v, .object [])) []⟩

/-- `GET /@scope/name/meta.json` or `GET /name/meta.json`. What the catch-all route takes of them
    is answered alike. -/
def metaJson (scope : Option String) (pkgName : String)
    (listed : Except String (List Git.PackageEntry)) : Response :=
  if scope = none ∧ pkgName = "xrpc" then .notFound else packageMeta scope pkgName listed

/-! ## The greatest version -/

/-- Of the versions among the texts none is above `v`, which is one, if there are any. -/
def Greatest (W : Set String) (v : String) : Prop :=
  (∃ t : Version, t.render ∈ W) →
    ∃ s : Version, v = s.render ∧ ∀ t : Version, t.render ∈ W → ¬ s.lt t

/-- The text that comes last by code units is a version, if any is, and none is astray of it. -/
def InOrder (W : Set String) : Prop :=
  ∀ v ∈ W, (∀ w ∈ W, (⟨w⟩ : Key) ≤ ⟨v⟩) → (∃ t : Version, t.render ∈ W) →
    ∃ s : Version, v = s.render ∧ ∀ t : Version, t.render ∈ W → ¬ Astray t s

/-- What the git store and the registry report as the latest version of a package is the greatest
    of the versions they list. -/
def LatestLaw (repo : Git.GitRepo) (url : String) : Prop :=
  (∀ packages, Git.list repo url = .ok packages → ∀ e ∈ packages, ∀ v ∈ e.versions.getLast?,
    Greatest {w | w ∈ e.versions} v) ∧
  ∀ scope pkgName body, scope ≠ some "" →
    metaJson scope pkgName (Git.list repo url) = .json body →
    Greatest {w | w ∈ keys body.versions} body.latest

theorem greatest_of_last_iff {W : Set String} {v : String} (hv : v ∈ W)
    (hmax : ∀ w ∈ W, (⟨w⟩ : Key) ≤ ⟨v⟩) : Greatest W v ↔ InOrder W := by
  have hlt : ∀ {s t : Version}, v = s.render → t.render ∈ W → (s.lt t ↔ Astray t s) := by
    rintro s t rfl ht
    exact lt_iff_astray (not_lt.2 (hmax _ ht))
  constructor
  · intro h v' hv' hmax' hsome
    obtain ⟨s, hs, hs'⟩ := h hsome
    have hvv : v' = v := congrArg Key.str (le_antisymm (hmax v' hv') (hmax' v hv))
    exact ⟨s, hvv.trans hs, fun t ht => mt (hlt hs ht).2 (hs' t ht)⟩
  · intro h hsome
    obtain ⟨s, hs, hs'⟩ := h v hv hmax hsome
    exact ⟨s, hs, fun t ht => mt (hlt hs ht).1 (hs' t ht)⟩

/-- The last one of sorted texts is the greatest version just if they are in order. -/
theorem greatest_iff {vs : List String} (hvs : vs.Pairwise fun a b => (⟨a⟩ : Key) ≤ ⟨b⟩) :
    (∀ v ∈ vs.getLast?, Greatest {w | w ∈ vs} v) ↔ InOrder {w | w ∈ vs} := by
  rcases List.eq_nil_or_concat' vs with rfl | ⟨init, v, rfl⟩
  · exact iff_of_true (fun v h => by cases h) fun v h => absurd h List.not_mem_nil
  · have hmax : ∀ w ∈ init ++ [v], (⟨w⟩ : Key) ≤ ⟨v⟩ := by
      intro w hw
      rcases List.mem_append.1 hw with hw | hw
      · exact (List.pairwise_append.1 hvs).2.2 w hw v (List.mem_singleton_self v)
      · rw [List.mem_singleton.1 hw]
    rw [List.getLast?_concat]
    refine Iff.trans ⟨fun h => h v rfl, ?_⟩
      (greatest_of_last_iff (List.mem_append_right _ (List.mem_singleton_self v)) hmax)
    rintro h _ ⟨⟩
    exact h

/-! ## The git store -/

/-- The versions of a package in a repository: those of its tags and of its branches. -/
def versionsOf (repo : Git.GitRepo) (url name : String) : Set String :=
  {v | (∃ t ∈ Git.listTags repo, Git.tagToVersion t = v ∧ Git.Offers repo url t name) ∨
    ∃ b ∈ (Git.listBranches repo).filter Git.isSafeBranch,
      "0.1.0-" ++ b = v ∧ Git.Offers repo url b name}

/-- Each package is listed once, its versions sorted. -/
theorem sorted_list {repo : Git.GitRepo} {url : String} {packages : List Git.PackageEntry}
    (h : Git.list repo url = .ok packages) : (packages.map Git.PackageEntry.name).Nodup ∧
      ∀ e ∈ packages, e.versions.Pairwise fun a b => (⟨a⟩ : Key) ≤ ⟨b⟩ := by
  obtain ⟨m, hm, hpackages⟩ := bind_eq_ok.1 h
  obtain rfl := Except.ok.inj hpackages
  have hempty : (keys ([] : List (String × Git.PackageInfo))).Nodup := List.nodup_nil
  constructor
  · rcases @Git.foldlM_addTag repo url _ (Git.listTags repo) hempty with
      ⟨_, hthrows⟩ | ⟨_, m', hm', hnodup, _⟩
    · exact absurd hm (hthrows m)
    · obtain rfl := Except.ok.inj (hm.symm.trans hm')
      rw [List.map_map]
      exact (Git.listed_addBranches _ hnodup).1
  · intro e he
    obtain ⟨info, _, rfl⟩ := List.mem_map.1 he
    have : Std.Total fun a b : String => (⟨a⟩ : Key) ≤ ⟨b⟩ := ⟨fun _ _ => le_total _ _⟩
    have : IsTrans String fun a b => (⟨a⟩ : Key) ≤ ⟨b⟩ := ⟨fun _ _ _ => le_trans⟩
    exact List.pairwise_insertionSort _ _

theorem eq_of_name_eq {packages : List Git.PackageEntry}
    (h : (packages.map Git.PackageEntry.name).Nodup) {e e' : Git.PackageEntry} (he : e ∈ packages)
    (he' : e' ∈ packages) (hname : e.name = e'.name) : e = e' :=
  List.inj_on_of_nodup_map h he he' hname

theorem mem_keys_versions (vs : List String) (w : String) :
    w ∈ keys (setAll (vs.map fun v => (v, Json.object [])) []) ↔ w ∈ vs := by
  rw [mem_keys_setAll, keys, List.map_map]
  simp [keys]

/-- An answer is about a package that is listed, and not about `xrpc`. -/
theorem exists_of_metaJson {packages : List Git.PackageEntry} {scope : Option String}
    {pkgName : String} {body : MetaJson} (hscope : scope ≠ some "")
    (h : metaJson scope pkgName (.ok packages) = .json body) :
    (∃ e ∈ packages, e.name = fullName scope pkgName) ∧ ¬ (scope = none ∧ pkgName = "xrpc") ∧
      fullName scope pkgName ≠ "xrpc" := by
  rw [metaJson] at h
  split_ifs at h with hxrpc
  refine ⟨?_, hxrpc, ?_⟩
  · rw [packageMeta] at h
    dsimp only at h
    cases hf : packages.find? fun p => p.name = fullName scope pkgName with
    | none =>
      rw [hf] at h
      cases h
    | some e =>
      have hname := List.find?_some hf
      exact ⟨e, List.mem_of_find?_eq_some hf, of_decide_eq_true hname⟩
  · cases scope with
    | none => exact fun heq => hxrpc ⟨rfl, heq⟩
    | some scope =>
      rw [fullName, if_neg fun heq => hscope (congrArg some heq)]
      intro heq
      have hhead := congrArg (fun s : String => s.toList.head?) heq
      simp at hhead

/-- The registry reports the greatest version of a package just if its versions are in order
    without those of branches. -/
theorem greatest_metaJson_iff {packages : List Git.PackageEntry}
    (hnodup : (packages.map Git.PackageEntry.name).Nodup) {e : Git.PackageEntry}
    (he : e ∈ packages) (hsorted : e.versions.Pairwise fun a b => (⟨a⟩ : Key) ≤ ⟨b⟩)
    {scope : Option String} {pkgName : String} (hname : e.name = fullName scope pkgName)
    (hxrpc : ¬ (scope = none ∧ pkgName = "xrpc")) :
    (∀ body, metaJson scope pkgName (.ok packages) = .json body →
        Greatest {w | w ∈ keys body.versions} body.latest) ↔
      InOrder {w | w ∈ e.versions.filter isJsrVersion} := by
  have hfind : (packages.find? fun p => p.name = fullName scope pkgName) = some e := by
    cases hf : packages.find? fun p => p.name = fullName scope pkgName with
    | none => exact absurd (decide_eq_true hname) (List.find?_eq_none.1 hf e he)
    | some e' =>
      have hname' := List.find?_some hf
      have heq : e.name = e'.name := hname.trans (of_decide_eq_true hname').symm
      rw [eq_of_name_eq hnodup he (List.mem_of_find?_eq_some hf) heq]
  have hset : {w | w ∈ keys (setAll ((e.versions.filter isJsrVersion).map
      fun v => (v, Json.object [])) [])} = {w | w ∈ e.versions.filter isJsrVersion} := by
    ext w
    exact mem_keys_versions _ w
  rw [← greatest_iff (hsorted.filter _), metaJson, if_neg hxrpc, packageMeta]
  dsimp only
  rw [hfind]
  dsimp only
  cases (e.versions.filter isJsrVersion).getLast? with
  | none => exact iff_of_true (fun body h => by cases h) fun v h => by cases h
  | some latest =>
    constructor
    · rintro h _ ⟨⟩
      exact hset ▸ h _ rfl
    · rintro h _ ⟨⟩
      exact hset.symm ▸ h latest rfl

/-- The store and the registry report the greatest versions exactly if the versions of each
    package are in order, with and without those of branches, or a tag cannot be read. The registry
    does not answer for a package `xrpc`. -/
theorem latestLaw_iff (repo : Git.GitRepo) (url : String) : LatestLaw repo url ↔
    (∃ t ∈ Git.listTags repo, ∀ pkgs, Git.getDiscovery repo url t ≠ .ok pkgs) ∨
    ∀ name, InOrder (versionsOf repo url name) ∧
      (name ≠ "xrpc" → InOrder {v ∈ versionsOf repo url name | isJsrVersion v}) := by
  rcases Git.list_cases repo url with ⟨hthrows, hlist⟩ | ⟨hall, packages, hlist, hlisted⟩
  · refine iff_of_true ⟨fun packages h => absurd h (hlist packages), ?_⟩ (.inl hthrows)
    intro scope pkgName body _ hbody
    rw [metaJson] at hbody
    split_ifs at hbody
    cases hl : Git.list repo url with
    | error e =>
      rw [hl] at hbody
      cases hbody
    | ok packages => exact absurd hl (hlist packages)
  · have hnot : ¬ ∃ t ∈ Git.listTags repo, ∀ pkgs, Git.getDiscovery repo url t ≠ .ok pkgs := by
      rintro ⟨t, ht, hthrows⟩
      obtain ⟨pkgs, hd⟩ := hall t ht
      exact hthrows pkgs hd
    obtain ⟨hnodup, hsorted⟩ := sorted_list hlist
    have hversions : ∀ e ∈ packages, versionsOf repo url e.name = {w | w ∈ e.versions} := by
      intro e he
      ext v
      refine (hlisted e.name v).symm.trans ⟨?_, fun hv => ⟨e, he, rfl, hv⟩⟩
      rintro ⟨e', he', hname, hv⟩
      exact eq_of_name_eq hnodup he' he hname ▸ hv
    have hjsr : ∀ e ∈ packages, {v ∈ versionsOf repo url e.name | isJsrVersion v} =
        {w | w ∈ e.versions.filter isJsrVersion} := by
      intro e he
      ext v
      rw [hversions e he]
      exact List.mem_filter.symm
    rw [or_iff_right hnot]
    constructor
    · rintro ⟨hstore, hregistry⟩ name
      by_cases hname : ∃ e ∈ packages, e.name = name
      · obtain ⟨e, he, rfl⟩ := hname
        rw [hjsr e he, hversions e he]
        refine ⟨(greatest_iff (hsorted e he)).1 (hstore packages hlist e he), fun hxrpc => ?_⟩
        have hfull : e.name = fullName none e.name := rfl
        refine (greatest_metaJson_iff hnodup he (hsorted e he) hfull
          fun h => hxrpc h.2).1 fun body hbody => ?_
        exact hregistry none e.name body nofun (hlist ▸ hbody)
      · have hempty : ∀ v, v ∉ versionsOf repo url name := by
          intro v hv
          obtain ⟨e, he, hname', _⟩ := (hlisted name v).2 hv
          exact hname ⟨e, he, hname'⟩
        exact ⟨fun v hv => absurd hv (hempty v), fun _ v hv => absurd hv.1 (hempty v)⟩
    · intro h
      constructor
      · intro packages' hlist' e he
        obtain rfl := Except.ok.inj (hlist.symm.trans hlist')
        exact (greatest_iff (hsorted e he)).2 (hversions e he ▸ (h e.name).1)
      · intro scope pkgName body hscope hbody
        rw [hlist] at hbody
        obtain ⟨⟨e, he, hname⟩, hxrpc, hne⟩ := exists_of_metaJson hscope hbody
        refine (greatest_metaJson_iff hnodup he (hsorted e he) hname hxrpc).2 ?_ body hbody
        exact hjsr e he ▸ (h e.name).2 (hname ▸ hne)

/-- A repository with the two versions as tags. -/
def nineAndTen : Git.GitRepo where
  tagLines := ["v1.9.0", "v1.10.0"]
  branchLines := []
  lsTree := fun _ => some []
  showFile := fun _ _ => none

/-- Of `1.9.0` and `1.10.0` the first is taken for the latest. -/
theorem not_latestLaw : ¬ LatestLaw nineAndTen "https://github.com/acme/widget.git" := by
  rintro ⟨hstore, -⟩
  have hlist : Git.list nineAndTen "https://github.com/acme/widget.git" =
      .ok [⟨"@acme/widget", ["1.10.0", "1.9.0"], none⟩] := rfl
  obtain ⟨s, hs, hmax⟩ := hstore _ hlist _ (List.mem_singleton_self _) "1.9.0" rfl
    ⟨⟨1, 9, 0, [], []⟩, List.mem_cons_of_mem _ (List.mem_singleton.2 rfl)⟩
  have hnine : (⟨1, 9, 0, [], []⟩ : Version).render = s.render := hs
  obtain ⟨hmajor, hminor, -⟩ := numbers_of_render_eq hnine
  refine hmax ⟨1, 10, 0, [], []⟩ List.mem_cons_self (.inr ⟨hmajor.symm, .inl ?_⟩)
  rw [← hminor]
  decide

end ComputeContract.Packages
