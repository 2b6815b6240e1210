import ComputeContract.Rbac.Record

/-!
# The allowlist of a service

The operator grants access with `allow-access`, which adds a record to the operator's
repository unless the service lets the issuers in already. What the service admits
(`Admits`) is the last list under each key of the records that protect the service and
scope; the tool asks for the union of all lists (`alreadyAllowedDids`).

* `grants_accumulate`: the two agree after any runs of the tool, as long as it does not
  write under a key that a record for the same service and scope has.
-/

namespace ComputeContract

open AssocList

/-! ## The service -/

def checkAllowedToUseService (allowlist : ServiceAllowlistRecord) (iss : String) :
    Except Thrown Unit :=
  if allowlist.allowed.any fun e => iss ∈ e.2 then .ok ()
  else .error (.unauthorized
    s!"unable to authorize: issuer {iss} is not on the operator's service allowlist")

/-- The service admits the issuer, when it is given the pages. -/
def Admits (did service scope : String) (pages : List (List ServiceAllowlistRecord)) (iss : String) :
    Prop :=
  ∃ allowlist, getServiceAllowlist did service scope pages = .ok allowlist ∧
    checkAllowedToUseService allowlist iss = .ok ()

theorem checkAllowedToUseService_eq_ok {allowlist : ServiceAllowlistRecord} {iss : String} :
    checkAllowedToUseService allowlist iss = .ok () ↔ ∃ e ∈ allowlist.allowed, iss ∈ e.2 := by
  unfold checkAllowedToUseService
  split_ifs with h
  · simpa using h
  · simpa using h

/-- The lists that the service looks into: under each key, the one written last. -/
theorem admits_iff {did service scope : String} {pages : List (List ServiceAllowlistRecord)}
    {iss : String} :
    Admits did service scope pages iss ↔ ∃ name dids,
      (ServiceAllowlistRecord.written service scope pages.flatten).reverse.lookup name = some dids ∧
        iss ∈ dids := by
  have hlookup : ∀ {allowlist}, getServiceAllowlist did service scope pages = .ok allowlist →
      ∀ name dids, (name, dids) ∈ allowlist.allowed ↔
        (ServiceAllowlistRecord.written service scope pages.flatten).reverse.lookup name =
          some dids := fun {allowlist} h name dids => by
    rw [mem_iff_lookup allowlist.allowed_nodup, getServiceAllowlist_ok _ _ _ _ _ h, lookup_setAll,
      List.lookup_nil, Option.or_none]
  constructor
  · rintro ⟨allowlist, hallow, hcheck⟩
    obtain ⟨⟨name, dids⟩, he, hiss⟩ := checkAllowedToUseService_eq_ok.1 hcheck
    exact ⟨name, dids, (hlookup hallow name dids).1 he, hiss⟩
  · rintro ⟨name, dids, hl, hiss⟩
    -- Something was written, so some record protects the service.
    have hsome : ∃ allowlist, getServiceAllowlist did service scope pages = .ok allowlist := by
      rw [getServiceAllowlist, ← List.foldl_flatten, finishJoin_foldl]
      dsimp only
      split_ifs with h
      · rw [ServiceAllowlistRecord.written, h] at hl
        cases hl
      · exact ⟨_, rfl⟩
    obtain ⟨allowlist, hallow⟩ := hsome
    exact ⟨allowlist, hallow, checkAllowedToUseService_eq_ok.2
      ⟨(name, dids), (hlookup hallow name dids).2 hl, hiss⟩⟩

/-! ## The tool -/

/-- `protectsThis` of the tool: any entry counts. -/
def protectsAny (service scope : String) (protects : List (String × RBACProtects)) : Bool :=
  protects.any fun e => (e.2.service = service ∨ e.2.service = "*") ∧
    (e.2.scope = some scope ∨ e.2.scope = some "*" ∨
      (e.2.scope = none ∨ e.2.scope = some "") ∧ scope = "")

/-- `allowed.add` on a set of dids. -/
def addDid (allowed : List String) (did : String) : List String :=
  if did ∈ allowed then allowed else allowed ++ [did]

def alreadyAllowedDids (service scope : String) (pages : List (List ServiceAllowlistRecord)) :
    List String :=
  pages.foldl (fun allowed records => records.foldl (fun allowed record =>
    if protectsAny service scope record.protects then
      record.allowed.foldl (fun allowed e => e.2.foldl addDid allowed) allowed
    else allowed) allowed) []

/-- The key that the tool writes under: all but letters, digits and `.`, `_`, `-` is
    replaced, for each UTF-16 unit. -/
def rkeyOf (service scope : String) : String :=
  String.ofList ((service ++ "-" ++ scope).toList.flatMap fun c =>
    if c.isAlphanum ∨ c = '.' ∨ c = '_' ∨ c = '-' then [c]
    else if c.toNat < 65536 then ['-'] else ['-', '-'])

/-- The record that the tool creates, if it does. -/
def allowAccess (service scope : String) (allowedDids : List String)
    (pages : List (List ServiceAllowlistRecord)) : Option ServiceAllowlistRecord :=
  if allowedDids.all (· ∈ alreadyAllowedDids service scope pages) then none
  else some {
    protects := [(rkeyOf service scope, ⟨service, some scope⟩)]
    allowed := [(rkeyOf service scope, allowedDids)]
    allowed_nodup := List.nodup_singleton _ }

theorem mem_foldl_addDid {allowed dids : List String} {did : String} :
    did ∈ dids.foldl addDid allowed ↔ did ∈ allowed ∨ did ∈ dids := by
  induction dids generalizing allowed with
  | nil => simp
  | cons d dids ih =>
    have hadd : did ∈ addDid allowed d ↔ did ∈ allowed ∨ did = d := by
      unfold addDid
      split_ifs with h
      · exact ⟨.inl, fun h' => h'.elim id (· ▸ h)⟩
      · simp
    rw [List.foldl_cons, ih, hadd, List.mem_cons, or_assoc]

/-- The tool takes the union of the lists of all records that protect the service. -/
theorem mem_alreadyAllowedDids {service scope did : String}
    {pages : List (List ServiceAllowlistRecord)} :
    did ∈ alreadyAllowedDids service scope pages ↔ ∃ record ∈ pages.flatten,
      protectsAny service scope record.protects = true ∧ ∃ e ∈ record.allowed, did ∈ e.2 := by
  have hentries : ∀ (entries : List (String × List String)) (allowed : List String),
      did ∈ entries.foldl (fun allowed e => e.2.foldl addDid allowed) allowed ↔
        did ∈ allowed ∨ ∃ e ∈ entries, did ∈ e.2 := fun entries => by
    induction entries with
    | nil => simp
    | cons e entries ih =>
      intro allowed
      rw [List.foldl_cons, ih, mem_foldl_addDid, List.exists_mem_cons_iff, or_assoc]
  have hrecords : ∀ (records : List ServiceAllowlistRecord) (allowed : List String),
      did ∈ records.foldl (fun allowed record =>
        if protectsAny service scope record.protects then
          record.allowed.foldl (fun allowed e => e.2.foldl addDid allowed) allowed
        else allowed) allowed ↔ did ∈ allowed ∨ ∃ record ∈ records,
          protectsAny service scope record.protects = true ∧ ∃ e ∈ record.allowed, did ∈ e.2 :=
    fun records => by
      induction records with
      | nil => simp
      | cons record records ih =>
        intro allowed
        rw [List.foldl_cons, ih, List.exists_mem_cons_iff]
        split_ifs with h
        · rw [hentries, or_assoc]
          simp [h]
        · simp [h]
  rw [alreadyAllowedDids, ← List.foldl_flatten, hrecords]
  simp

/-! ## Records that accumulate -/

/-- What the service takes for protected is so for the tool. -/
theorem protectsAny_of_protectsThis {service scope : String} {protects : List (String × RBACProtects)}
    (h : protectsThis service scope protects = true) : protectsAny service scope protects = true := by
  induction protects with
  | nil => cases h
  | cons e protects ih =>
    obtain ⟨name, p⟩ := e
    rw [protectsThis] at h
    rw [protectsAny, List.any_cons, Bool.or_eq_true]
    split_ifs at h with hservice
    · refine .inl ?_
      rcases of_decide_eq_true h with h | h
      · exact decide_eq_true ⟨hservice, .inl h⟩
      · exact decide_eq_true ⟨hservice, .inr (.inl h)⟩
    · exact .inr (ih h)

/-- The service sees what the record protects: no entry hides another. -/
def ServiceAllowlistRecord.Visible (record : ServiceAllowlistRecord) : Prop :=
  ∀ service scope, protectsAny service scope record.protects = true →
    protectsThis service scope record.protects = true

/-- Where both records protect, a key that both have has the same dids. -/
def ServiceAllowlistRecord.Agrees (record record' : ServiceAllowlistRecord) : Prop :=
  ∀ service scope, protectsThis service scope record.protects = true →
    protectsThis service scope record'.protects = true →
    ∀ name dids dids', (name, dids) ∈ record.allowed → (name, dids') ∈ record'.allowed →
      ∀ did, did ∈ dids ↔ did ∈ dids'

/-- Records none of which hides or overwrites what another one grants. -/
structure Accumulate (records : List ServiceAllowlistRecord) : Prop where
  visible : ∀ record ∈ records, record.Visible
  agree : records.Pairwise ServiceAllowlistRecord.Agrees

theorem ServiceAllowlistRecord.Agrees.symm {record record' : ServiceAllowlistRecord}
    (h : record.Agrees record') : record'.Agrees record :=
  fun service scope h₁ h₂ name dids dids' hd hd' did =>
    (h service scope h₂ h₁ name dids' dids hd' hd did).symm

theorem ServiceAllowlistRecord.Agrees.refl (record : ServiceAllowlistRecord) :
    record.Agrees record := by
  intro service scope _ _ name dids dids' hd hd' did
  rw [mem_iff_lookup record.allowed_nodup] at hd hd'
  cases hd.symm.trans hd'
  rfl

/-- What `listRecords` answers: all the records, in some order and in pages. -/
def Listing (records : List ServiceAllowlistRecord) (pages : List (List ServiceAllowlistRecord)) :
    Prop :=
  pages.flatten.Perm records

theorem Accumulate.admits_iff {records : List ServiceAllowlistRecord} (h : Accumulate records)
    {did service scope : String} {pages : List (List ServiceAllowlistRecord)}
    (hpages : Listing records pages) {iss : String} :
    Admits did service scope pages iss ↔ ∃ record ∈ records,
      protectsThis service scope record.protects = true ∧ ∃ e ∈ record.allowed, iss ∈ e.2 := by
  have hwritten : ∀ e, e ∈ ServiceAllowlistRecord.written service scope pages.flatten ↔
      ∃ record ∈ records, protectsThis service scope record.protects = true ∧
        e ∈ record.allowed := fun e => by
    simp only [ServiceAllowlistRecord.written, List.mem_flatMap, List.mem_filter, hpages.mem_iff,
      and_assoc]
  rw [ComputeContract.admits_iff]
  constructor
  · rintro ⟨name, dids, hl, hiss⟩
    obtain ⟨record, hrecord, hprotects, he⟩ :=
      (hwritten _).1 (List.mem_reverse.1 (mem_of_lookup hl))
    exact ⟨record, hrecord, hprotects, _, he, hiss⟩
  · rintro ⟨record, hrecord, hprotects, ⟨name, dids⟩, he, hiss⟩
    -- The list that is written last under the key has the same dids.
    have hmem := List.mem_reverse.2 ((hwritten _).2 ⟨record, hrecord, hprotects, he⟩)
    obtain ⟨dids', hl⟩ := Option.isSome_iff_exists.1
      (lookup_isSome_iff.2 (mem_keys_of_mem hmem))
    obtain ⟨record', hrecord', hprotects', he'⟩ :=
      (hwritten _).1 (List.mem_reverse.1 (mem_of_lookup hl))
    have hagree : record.Agrees record' :=
      List.Pairwise.forall_of_forall_of_flip (fun record _ => .refl record) h.agree
        (h.agree.imp fun hagree => hagree.symm) hrecord hrecord'
    exact ⟨name, dids', hl, (hagree service scope hprotects hprotects' _ _ _ he he' _).1 hiss⟩

/-- The service and the tool agree on who is admitted. -/
def Agree (records : List ServiceAllowlistRecord) : Prop :=
  ∀ did service scope pages pages', Listing records pages → Listing records pages' →
    ∀ iss, Admits did service scope pages iss ↔ iss ∈ alreadyAllowedDids service scope pages'

theorem Accumulate.agree_dids {records : List ServiceAllowlistRecord} (h : Accumulate records) :
    Agree records := by
  intro did service scope pages pages' hpages hpages' iss
  rw [h.admits_iff hpages, mem_alreadyAllowedDids]
  simp only [hpages'.mem_iff]
  refine exists_congr fun record => and_congr_right fun hrecord => and_congr_left fun _ => ?_
  exact ⟨protectsAny_of_protectsThis, h.visible record hrecord service scope⟩

/-! ## Runs of the tool -/

/-- A run of the tool, with the pages that it read. -/
structure Grant where
  service : String
  scope : String
  dids : List String
  pages : List (List ServiceAllowlistRecord)

namespace Grant

def granted (grant : Grant) : Option ServiceAllowlistRecord :=
  allowAccess grant.service grant.scope grant.dids grant.pages

/-- The records after the run. -/
def step (grant : Grant) (records : List ServiceAllowlistRecord) : List ServiceAllowlistRecord :=
  grant.granted.toList ++ records

/-- The tool read the records, and has what `parseArgs` asks for. -/
structure Possible (grant : Grant) (records : List ServiceAllowlistRecord) : Prop where
  pages : Listing records grant.pages
  service : grant.service ≠ ""
  scope : grant.scope ≠ ""
  dids : grant.dids ≠ []

/-- The key that the run writes under, if it writes, is in no record for a service and
    scope that the new record protects too. -/
def Fresh (grant : Grant) (records : List ServiceAllowlistRecord) : Prop :=
  ∀ granted, grant.granted = some granted → ∀ record ∈ records, ∀ service scope,
    protectsThis service scope granted.protects = true →
    protectsThis service scope record.protects = true →
    ∀ name ∈ keys granted.allowed, name ∉ keys record.allowed

/-- The run admits those it was given and locks nobody out. -/
structure Lasting (grant : Grant) (records : List ServiceAllowlistRecord) : Prop where
  given : ∀ did pages, Listing (grant.step records) pages →
    ∀ iss ∈ grant.dids, Admits did grant.service grant.scope pages iss
  kept : ∀ did service scope pages pages', Listing records pages →
    Listing (grant.step records) pages' →
    ∀ iss, Admits did service scope pages iss → Admits did service scope pages' iss
  skips : grant.granted = none → ∀ did pages, Listing records pages →
    ∀ iss ∈ grant.dids, Admits did grant.service grant.scope pages iss

end Grant

/-- The records that the runs of the tool leave, on top of those written by hand. -/
inductive Granted (ok : Grant → List ServiceAllowlistRecord → Prop)
    (hand : List ServiceAllowlistRecord) : List ServiceAllowlistRecord → Prop
  | hand : Granted ok hand hand
  | run {records : List ServiceAllowlistRecord} (grant : Grant) : Granted ok hand records →
      grant.Possible records → ok grant records → Granted ok hand (grant.step records)

theorem Accumulate.step {records : List ServiceAllowlistRecord} (h : Accumulate records)
    {grant : Grant} (hp : grant.Possible records) (hfresh : grant.Fresh records) :
    Accumulate (grant.step records) := by
  cases hgranted : grant.granted with
  | none =>
    rw [Grant.step, hgranted]
    exact h
  | some granted =>
    rw [Grant.step, hgranted]
    refine ⟨List.forall_mem_cons.2 ⟨?_, h.visible⟩, List.pairwise_cons.2 ⟨?_, h.agree⟩⟩
    · -- The new record has one entry, and its scope is not empty.
      intro service scope hany
      unfold Grant.granted allowAccess at hgranted
      split_ifs at hgranted
      cases hgranted
      simpa [protectsAny, protectsThis, hp.scope, or_imp] using hany
    · intro record hrecord service scope hprotects hprotects' name dids dids' hd hd'
      exact absurd (mem_keys_of_mem hd') (hfresh granted hgranted record hrecord service scope
        hprotects hprotects' name (mem_keys_of_mem hd))

theorem Accumulate.lasting {records : List ServiceAllowlistRecord} (h : Accumulate records)
    {grant : Grant} (hp : grant.Possible records) (hfresh : grant.Fresh records) :
    grant.Lasting records := by
  have hstep := h.step hp hfresh
  have hkept : ∀ did service scope pages pages', Listing records pages →
      Listing (grant.step records) pages' →
      ∀ iss, Admits did service scope pages iss → Admits did service scope pages' iss := by
    intro did service scope pages pages' hpages hpages' iss hadmits
    obtain ⟨record, hrecord, hrest⟩ := (h.admits_iff hpages).1 hadmits
    exact (hstep.admits_iff hpages').2 ⟨record, List.mem_append_right _ hrecord, hrest⟩
  have hskips : grant.granted = none → ∀ did pages, Listing records pages →
      ∀ iss ∈ grant.dids, Admits did grant.service grant.scope pages iss := by
    intro hnone did pages hpages iss hiss
    refine (h.agree_dids did _ _ pages _ hpages hp.pages iss).2 ?_
    unfold Grant.granted allowAccess at hnone
    split_ifs at hnone with hall
    exact of_decide_eq_true (List.all_eq_true.1 hall iss hiss)
  refine ⟨?_, hkept, hskips⟩
  intro did pages hpages iss hiss
  cases hgranted : grant.granted with
  | none => exact hkept did _ _ _ pages hp.pages hpages iss (hskips hgranted did _ hp.pages iss hiss)
  | some granted =>
    refine (hstep.admits_iff hpages).2 ⟨granted, ?_, ?_⟩
    · rw [Grant.step, hgranted]
      exact List.mem_cons_self
    · unfold Grant.granted allowAccess at hgranted
      split_ifs at hgranted
      cases hgranted
      exact ⟨by simp [protectsThis], _, List.mem_singleton_self _, hiss⟩

/-- The grants accumulate, as long as no run writes under a key that is there. -/
theorem grants_accumulate {hand records : List ServiceAllowlistRecord} (hhand : Accumulate hand)
    (h : Granted Grant.Fresh hand records) :
    Agree records ∧
      ∀ grant : Grant, grant.Possible records → grant.Fresh records → grant.Lasting records := by
  have hrecords : Accumulate records := by
    induction h with
    | hand => exact hhand
    | run grant _ hp hfresh ih => exact ih.step hp hfresh
  exact ⟨hrecords.agree_dids, fun _ hp hfresh => hrecords.lasting hp hfresh⟩

/-- A grant, on an empty repository. -/
def sampleGrant : Grant := ⟨"https://cloud.test", "account.auth", ["did:plc:a"], []⟩

theorem grants_accumulate_sampleGrant :
    Agree (sampleGrant.step []) ∧ ∀ grant : Grant, grant.Possible (sampleGrant.step []) →
      grant.Fresh (sampleGrant.step []) → grant.Lasting (sampleGrant.step []) :=
  grants_accumulate ⟨fun _ h => (by cases h), .nil⟩
    (.run _ .hand ⟨.nil, by decide, by decide, by decide⟩ fun _ _ _ h => by cases h)

/-- Another did is granted the same; the records are listed with the newest first. -/
def secondGrant : Grant :=
  ⟨"https://cloud.test", "account.auth", ["did:plc:b"], [sampleGrant.step []]⟩

/-- The second grant has the key of the first, which is listed last and wins. -/
theorem grants_not_accumulate : ¬ ∀ hand records : List ServiceAllowlistRecord,
    Granted (fun _ _ => True) hand records →
      Agree records ∧ ∀ grant : Grant, grant.Possible records → grant.Lasting records := by
  intro h
  have hfirst : Granted (fun _ _ => True) [] (sampleGrant.step []) :=
    .run _ .hand ⟨.nil, by decide, by decide, by decide⟩ trivial
  have hsecond := hfirst.run secondGrant
    ⟨by rw [Listing, secondGrant, List.flatten_singleton], by decide, by decide, by decide⟩ trivial
  let pages := [secondGrant.step (sampleGrant.step [])]
  have hpages : Listing (secondGrant.step (sampleGrant.step [])) pages := by
    rw [Listing, List.flatten_singleton]
  have hallowed : "did:plc:b" ∈ alreadyAllowedDids "https://cloud.test" "account.auth" pages := by
    decide +kernel
  obtain ⟨allowlist, hallow, hcheck⟩ :=
    ((h _ _ hsecond).1 "did:plc:operator" _ _ pages pages hpages hpages "did:plc:b").2 hallowed
  have hjoined : setAll (ServiceAllowlistRecord.written "https://cloud.test" "account.auth"
      pages.flatten) [] = [("https---cloud.test-account.auth", ["did:plc:a"])] := by
    decide +kernel
  rw [checkAllowedToUseService_eq_ok, getServiceAllowlist_ok _ _ _ _ _ hallow, hjoined] at hcheck
  simp at hcheck

end ComputeContract
