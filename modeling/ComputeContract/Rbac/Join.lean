import ComputeContract.Rbac.Policy

/-!
# Decisions over joined records

The records that protect a service are joined by the names of their policies and roles, where the
last one that is written wins. A request is then decided over the joined record, which may let a
role of one record use a policy of another.

* `Joinable`: records that agree on the names they share, and whose roles name their own policies;
* `permits_iff`: over those, the decision is that of some single record;
* `permits_similar`: so it does not depend on the order of the records, of the pages they come in,
  of their policies or of their roles.
-/

namespace ComputeContract

open AssocList

/-- The joined record lets the request through. -/
def Permits (did service scope : String) (pages : List (List RBACRecord)) (sub : Option String)
    (path method : String) : Prop :=
  ∃ joined, joinRBACRecords did service scope pages = .ok joined ∧
    checkRBACPolicy joined sub path method = .ok ()

/-- The records of a listing that protect a service and scope. -/
def protecting (service scope : String) (pages : List (List RBACRecord)) : List RBACRecord :=
  pages.flatten.filter fun record => protectsThis service scope record.protects

/-- Every role of the record names policies of the record. -/
def RBACRecord.Covered (record : RBACRecord) : Prop :=
  ∀ role ∈ record.roles, ∀ name ∈ role.2.definition.policies, name ∈ keys record.policies

/-- Records that can be joined: no name is given two meanings, and no role reaches for the policy
    of another record. -/
structure Joinable (records : List RBACRecord) : Prop where
  policies : ∀ e ∈ records.flatMap RBACRecord.policies, ∀ e' ∈ records.flatMap RBACRecord.policies,
    e.1 = e'.1 → e = e'
  roles : ∀ e ∈ records.flatMap RBACRecord.roles, ∀ e' ∈ records.flatMap RBACRecord.roles,
    e.1 = e'.1 → e = e'
  covered : ∀ record ∈ records, record.Covered

/-! ## One record -/

section
variable {policies : List (String × RBACPolicy)} {path capability name : String}

/-- A name throws only where it, or the path, is inherited from the prototype. -/
theorem verdict_ne_throws (hname : name ∈ keys policies) (hpath : path ∉ objectPrototype) :
    verdict policies path capability name ≠ .throws := by
  obtain ⟨policy, hpolicy⟩ := Option.isSome_iff_exists.1 (lookup_isSome_iff.2 hname)
  have hproperty : property policy.schemas path ≠ .inherited := by
    rw [property, if_neg hpath]
    split <;> exact fun h => by cases h
  have hschema : findMatchingSchema policy.schemas path ≠ .inherited := by
    rw [findMatchingSchema]
    split
    · exact fun h => by cases h
    · next hinherited => exact absurd hinherited hproperty
    · split <;> exact fun h => by cases h
  rw [verdict, property, hpolicy]
  dsimp only
  split
  · exact fun h => by cases h
  · next hinherited => exact absurd hinherited hschema
  · split_ifs <;> exact fun h => by cases h

/-- What a name says depends on its policy alone. -/
theorem verdict_congr {policies' : List (String × RBACPolicy)}
    (h : policies.lookup name = policies'.lookup name) :
    verdict policies path capability name = verdict policies' path capability name := by
  rw [verdict, verdict, property, property, h]

end

variable {record : RBACRecord} {sub : Option String} {path method : String}

/-- A request is permitted by a role of the subject and a policy that the role names. -/
def Grants (record : RBACRecord) (sub : Option String) (path capability : String) : Prop :=
  ∃ role ∈ record.roles, some role.2.definition.sub = sub ∧
    ∃ name ∈ role.2.definition.policies, verdict record.policies path capability name = .permits

/-- Where its roles name its own policies, a record decides in whatever order they stand. -/
theorem RBACRecord.Covered.checkRBACPolicy_eq_ok (h : record.Covered)
    (hpath : path ∉ objectPrototype) : checkRBACPolicy record sub path method = .ok () ↔
      ∃ capability, methodCapability method = some capability ∧ Grants record sub path capability := by
  refine ⟨exists_role_of_ok, ?_⟩
  rintro ⟨capability, hcapability, role, hrole, hsub, name, hname, hpermits⟩
  have hmem : ∀ {n}, n ∈ matchingPolicies record sub → n ∈ keys record.policies := by
    intro n hn
    obtain ⟨role', hrole', hn⟩ := List.mem_flatMap.1 hn
    split_ifs at hn
    · exact h role' ((objectEntries_perm _).mem_iff.1 hrole') n hn
    · cases hn
  have hmatching : name ∈ matchingPolicies record sub := by
    refine List.mem_flatMap.2 ⟨role, (objectEntries_perm _).mem_iff.2 hrole, ?_⟩
    rwa [if_pos hsub]
  obtain ⟨before, after, heq⟩ := List.append_of_mem hmatching
  refine ComputeContract.checkRBACPolicy_eq_ok.2
    ⟨capability, hcapability, before, name, after, heq, hpermits, fun n hn => ?_⟩
  refine verdict_ne_throws (hmem ?_) hpath
  rw [heq]
  exact List.mem_append_left _ hn

/-! ## The joined record -/

theorem RBACRecord.foldl_add (joined : RBACRecord) (records : List RBACRecord) :
    (records.foldl add joined).policies =
        setAll (records.flatMap RBACRecord.policies) joined.policies ∧
      (records.foldl add joined).roles = setAll (records.flatMap RBACRecord.roles) joined.roles := by
  induction records generalizing joined with
  | nil => exact ⟨rfl, rfl⟩
  | cons record records ih =>
    obtain ⟨hpolicies, hroles⟩ := ih (add joined record)
    rw [List.foldl_cons, List.flatMap_cons, List.flatMap_cons, setAll_append, setAll_append]
    exact ⟨hpolicies, hroles⟩

/-- What a listing is joined to. -/
theorem joinRBACRecords_eq_ok {did service scope : String} {pages : List (List RBACRecord)}
    {joined : RBACRecord} : joinRBACRecords did service scope pages = .ok joined ↔
      protecting service scope pages ≠ [] ∧
        (protecting service scope pages).foldl RBACRecord.add .empty = joined := by
  rw [joinRBACRecords, ← List.foldl_flatten, finishJoin_foldl]
  dsimp only
  rw [protecting]
  split_ifs with hnil
  · exact iff_of_false (fun h => by cases h) fun h => h.1 hnil
  · rw [Except.ok.injEq, and_iff_right hnil]

variable {records : List RBACRecord}

namespace Joinable

variable (h : Joinable records)
include h

theorem lookup_policies {name : String} {policy : RBACPolicy} :
    (records.foldl RBACRecord.add .empty).policies.lookup name = some policy ↔
      ∃ record ∈ records, (name, policy) ∈ record.policies := by
  rw [(RBACRecord.foldl_add .empty records).1]
  exact (lookup_setAll_eq_some h.policies).trans List.mem_flatMap

theorem mem_roles {role : String × RBACRole} :
    role ∈ (records.foldl RBACRecord.add .empty).roles ↔ ∃ record ∈ records, role ∈ record.roles := by
  have hnodup := (records.foldl RBACRecord.add .empty).roles_nodup
  rw [mem_iff_lookup hnodup, (RBACRecord.foldl_add .empty records).2]
  exact (lookup_setAll_eq_some h.roles).trans List.mem_flatMap

/-- A policy of a record is the joined one of its name. -/
theorem lookup_eq (hrecord : record ∈ records) {name : String} (hname : name ∈ keys record.policies) :
    (records.foldl RBACRecord.add .empty).policies.lookup name = record.policies.lookup name := by
  obtain ⟨policy, hpolicy⟩ := Option.isSome_iff_exists.1 (lookup_isSome_iff.2 hname)
  rw [hpolicy]
  exact h.lookup_policies.2 ⟨record, hrecord, mem_of_lookup hpolicy⟩

theorem covered_joined : (records.foldl RBACRecord.add .empty).Covered := by
  intro role hrole name hname
  obtain ⟨record, hrecord, hrole⟩ := h.mem_roles.1 hrole
  have hkey := h.covered record hrecord role hrole name hname
  rw [← lookup_isSome_iff, h.lookup_eq hrecord hkey, lookup_isSome_iff]
  exact hkey

theorem grants_iff {capability : String} :
    Grants (records.foldl RBACRecord.add .empty) sub path capability ↔
      ∃ record ∈ records, Grants record sub path capability := by
  have hverdict : ∀ record ∈ records, ∀ role ∈ record.roles, ∀ name ∈ role.2.definition.policies,
      verdict (records.foldl RBACRecord.add .empty).policies path capability name =
        verdict record.policies path capability name := fun record hrecord role hrole name hname =>
    verdict_congr (h.lookup_eq hrecord (h.covered record hrecord role hrole name hname))
  constructor
  · rintro ⟨role, hrole, hsub, name, hname, hpermits⟩
    obtain ⟨record, hrecord, hrole⟩ := h.mem_roles.1 hrole
    exact ⟨record, hrecord, role, hrole, hsub, name, hname,
      hverdict record hrecord role hrole name hname ▸ hpermits⟩
  · rintro ⟨record, hrecord, role, hrole, hsub, name, hname, hpermits⟩
    exact ⟨role, h.mem_roles.2 ⟨record, hrecord, hrole⟩, hsub, name, hname,
      (hverdict record hrecord role hrole name hname).trans hpermits⟩

end Joinable

/-- A request passes over joinable records exactly when one of them grants it. -/
theorem Joinable.permits_eq {did service scope : String} {pages : List (List RBACRecord)}
    (hjoin : Joinable (protecting service scope pages)) (hpath : path ∉ objectPrototype) :
    Permits did service scope pages sub path method ↔
      ∃ record ∈ protecting service scope pages, ∃ capability,
        methodCapability method = some capability ∧ Grants record sub path capability := by
  have hjoined := @RBACRecord.Covered.checkRBACPolicy_eq_ok _ sub path method
    hjoin.covered_joined hpath
  constructor
  · rintro ⟨joined, hjoins, hcheck⟩
    obtain ⟨-, rfl⟩ := joinRBACRecords_eq_ok.1 hjoins
    obtain ⟨capability, hcapability, hgrants⟩ := hjoined.1 hcheck
    obtain ⟨record, hrecord, hgrants⟩ := hjoin.grants_iff.1 hgrants
    exact ⟨record, hrecord, capability, hcapability, hgrants⟩
  · rintro ⟨record, hrecord, capability, hcapability, hgrants⟩
    exact ⟨_, joinRBACRecords_eq_ok.2 ⟨List.ne_nil_of_mem hrecord, rfl⟩, hjoined.2
      ⟨capability, hcapability, hjoin.grants_iff.2 ⟨record, hrecord, hgrants⟩⟩⟩

/-- Joining loses no grant, and adds none. -/
theorem permits_iff {did service scope : String} {pages : List (List RBACRecord)}
    (hjoin : Joinable (protecting service scope pages)) (hpath : path ∉ objectPrototype) :
    Permits did service scope pages sub path method ↔
      ∃ record ∈ protecting service scope pages, checkRBACPolicy record sub path method = .ok () := by
  refine (hjoin.permits_eq hpath).trans (exists_congr fun record => and_congr_right fun hrecord => ?_)
  exact ((hjoin.covered record hrecord).checkRBACPolicy_eq_ok hpath).symm

/-- A record that lets a subject read everything. -/
def sampleReader (name : String) : RBACRecord where
  protects := [("svc", ⟨"https://cloud.test", some "*"⟩)]
  policies := [(name, ⟨[("*", ⟨["read"], []⟩)], List.nodup_singleton _⟩)]
  roles := [(name, ⟨none, name, [name]⟩)]
  policies_nodup := List.nodup_singleton _
  roles_nodup := List.nodup_singleton _

def sampleReaders : List (List RBACRecord) := [[sampleReader "web"], [sampleReader "db"]]

theorem sampleReaders_joinable :
    Joinable (protecting "https://cloud.test" "droplets" sampleReaders) := by
  have hprotecting : protecting "https://cloud.test" "droplets" sampleReaders =
      [sampleReader "web", sampleReader "db"] := rfl
  rw [hprotecting]
  constructor
  · simp [sampleReader]
  · simp [sampleReader]
  · simp [RBACRecord.Covered, sampleReader]

theorem permits_iff_sampleReaders :
    Permits "did:plc:a" "https://cloud.test" "droplets" sampleReaders (some "db") "/v2" "GET" ↔
      ∃ record ∈ protecting "https://cloud.test" "droplets" sampleReaders,
        checkRBACPolicy record (some "db") "/v2" "GET" = .ok () :=
  permits_iff sampleReaders_joinable (by decide)

/-! ## The order of what is listed -/

/-- The same record, with its policies and roles in any order; the order of what it protects counts,
    as only the first entry of the service is looked at. -/
structure Similar (record record' : RBACRecord) : Prop where
  protects : record.protects = record'.protects
  policies : record.policies.Perm record'.policies
  roles : record.roles.Perm record'.roles

theorem Similar.symm {record record' : RBACRecord} (h : Similar record record') :
    Similar record' record := ⟨h.protects.symm, h.policies.symm, h.roles.symm⟩

/-- Each record of one listing is in the other one, whatever their orders and pages are. -/
structure SimilarListing (pages pages' : List (List RBACRecord)) : Prop where
  left : ∀ record ∈ pages.flatten, ∃ record' ∈ pages'.flatten, Similar record record'
  right : ∀ record' ∈ pages'.flatten, ∃ record ∈ pages.flatten, Similar record record'

theorem Similar.covered {record record' : RBACRecord} (h : Similar record record')
    (hcovered : record.Covered) : record'.Covered := by
  intro role hrole name hname
  have hkey := hcovered role (h.roles.mem_iff.2 hrole) name hname
  exact (h.policies.map Prod.fst).mem_iff.1 hkey

theorem Similar.grants {record record' : RBACRecord} {capability : String}
    (h : Similar record record') (hgrants : Grants record sub path capability) :
    Grants record' sub path capability := by
  obtain ⟨role, hrole, hsub, name, hname, hpermits⟩ := hgrants
  refine ⟨role, h.roles.mem_iff.1 hrole, hsub, name, hname, hpermits ▸ verdict_congr ?_⟩
  refine Option.ext fun policy => ?_
  rw [← mem_iff_lookup record.policies_nodup, ← mem_iff_lookup record'.policies_nodup,
    h.policies.mem_iff]

variable {service scope : String} {pages pages' : List (List RBACRecord)}

theorem SimilarListing.symm (h : SimilarListing pages pages') : SimilarListing pages' pages := by
  constructor
  · intro record hrecord
    obtain ⟨record', hmem, hsimilar⟩ := h.right record hrecord
    exact ⟨record', hmem, hsimilar.symm⟩
  · intro record hrecord
    obtain ⟨record', hmem, hsimilar⟩ := h.left record hrecord
    exact ⟨record', hmem, hsimilar.symm⟩

/-- A record that protects is similar to one that does. -/
theorem SimilarListing.exists_protecting (h : SimilarListing pages pages') {record : RBACRecord}
    (hrecord : record ∈ protecting service scope pages) :
    ∃ record' ∈ protecting service scope pages', Similar record record' := by
  obtain ⟨hmem, hprotects⟩ := List.mem_filter.1 hrecord
  obtain ⟨record', hmem', hsimilar⟩ := h.left record hmem
  exact ⟨record', List.mem_filter.2 ⟨hmem', hsimilar.protects ▸ hprotects⟩, hsimilar⟩

theorem Joinable.similar (hjoin : Joinable (protecting service scope pages))
    (h : SimilarListing pages pages') : Joinable (protecting service scope pages') := by
  have hback := fun {record : RBACRecord} (hrecord : record ∈ protecting service scope pages') =>
    h.symm.exists_protecting hrecord
  have hpolicies : (protecting service scope pages').flatMap RBACRecord.policies ⊆
      (protecting service scope pages).flatMap RBACRecord.policies := by
    intro e he
    obtain ⟨record', hrecord', he⟩ := List.mem_flatMap.1 he
    obtain ⟨record, hrecord, hsimilar⟩ := hback hrecord'
    exact List.mem_flatMap.2 ⟨record, hrecord, hsimilar.policies.mem_iff.1 he⟩
  have hroles : (protecting service scope pages').flatMap RBACRecord.roles ⊆
      (protecting service scope pages).flatMap RBACRecord.roles := by
    intro e he
    obtain ⟨record', hrecord', he⟩ := List.mem_flatMap.1 he
    obtain ⟨record, hrecord, hsimilar⟩ := hback hrecord'
    exact List.mem_flatMap.2 ⟨record, hrecord, hsimilar.roles.mem_iff.1 he⟩
  refine ⟨fun e he e' he' => hjoin.policies e (hpolicies he) e' (hpolicies he'),
    fun e he e' he' => hjoin.roles e (hroles he) e' (hroles he'), fun record' hrecord' => ?_⟩
  obtain ⟨record, hrecord, hsimilar⟩ := hback hrecord'
  exact hsimilar.symm.covered (hjoin.covered record hrecord)

/-- What one listing permits is permitted by the other. -/
theorem Permits.similar {did : String} (hjoin : Joinable (protecting service scope pages))
    (h : SimilarListing pages pages') (hpath : path ∉ objectPrototype)
    (hpermits : Permits did service scope pages sub path method) :
    Permits did service scope pages' sub path method := by
  obtain ⟨record, hrecord, capability, hcapability, hgrants⟩ := (hjoin.permits_eq hpath).1 hpermits
  obtain ⟨record', hrecord', hsimilar⟩ := h.exists_protecting hrecord
  exact ((hjoin.similar h).permits_eq hpath).2
    ⟨record', hrecord', capability, hcapability, hsimilar.grants hgrants⟩

end ComputeContract
