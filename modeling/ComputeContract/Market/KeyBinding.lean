import ComputeContract.Lib.Along
import ComputeContract.Market.Resolve
import ComputeContract.Util.Json

/-!
# Keys and DID documents

A signature counts when its key is published by the DID document of its issuer. The documents
are fetched once for each handler: what a fetch gave is cached, and no keys when it failed.

* `verifyBound_eq`: a verification as `verifyRecordSignatures`, under the cached keys and those
  that a fetch gives now;
* `cached_of_run`: a cached list is what a fetch of the run gave;
* `bound_of_kept`: when a verification follows the documents, in every run.
-/

namespace ComputeContract.Market

open AssocList Attest

/-! ## The resolver -/

/-- The key of a verification method; `vm.publicKeyMultibase` throws on `null`. -/
def multibaseKey : Json → Option (Option String)
  | .null => none
  | .object vm =>
    match vm.lookup "publicKeyMultibase" with
    | some (.string key) => some (some ("did:key:" ++ key))
    | _ => some none
  | _ => some none

/-- The keys that a document lists; `none` where reading it throws. -/
def documentKeys : Json → Option (List String)
  | .null => none
  | .object doc =>
    match doc.lookup "verificationMethod" with
    | none | some .null => some []
    | some (.array vms) => (vms.mapM multibaseKey).map (List.filterMap id)
    | some _ => none
  | _ => some []

/-- The cache of `createDidKeyResolver`. -/
structure DidKeyResolver where
  cache : List (String × List String)
  /-- The DIDs whose fetch failed, which the code does not keep. -/
  failed : List String

def createDidKeyResolver : DidKeyResolver := ⟨[], []⟩

/-- The keys of a DID; `fetchDoc` is `none` where it rejects. -/
def DidKeyResolver.keysForDid (r : DidKeyResolver) (fetchDoc : String → Option Json)
    (did : String) : List String × DidKeyResolver :=
  match r.cache.lookup did with
  | some cached => (cached, r)
  | none =>
    match (fetchDoc did).bind documentKeys with
    | some keys => (keys, { r with cache := set did keys r.cache })
    | none => ([], ⟨set did [] r.cache, did :: r.failed⟩)

/-! ## Verifications -/

/-- A record to verify, and the documents at that time. -/
structure Verification where
  record : RecordMap
  recordUri : String
  fetchDoc : String → Option Json

/-- The keys that a document publishes, when its fetch succeeds. -/
def Verification.published (v : Verification) (did : String) : Option (List String) :=
  (v.fetchDoc did).bind documentKeys

structure MarketServerDeps where
  bindKeys : Bool
  verifySignatures : Option Bool

structure XrpcError where
  error : String
  message : String
  status : ℕ

def keysForDidFrom (deps : MarketServerDeps) : Option DidKeyResolver :=
  if deps.bindKeys then some createDidKeyResolver else none

section
variable (P : Primitives) (keyResolver : String → Except String KeyData)

/-- The loop over the inline entries, up to one that counts. -/
def verifyEntries (v : Verification) : List RecordMap → DidKeyResolver → Bool × DidKeyResolver
  | [], r => (false, r)
  | entry :: entries, r =>
    let repositoryDid := atUriAuthority v.recordUri
    if verifyInlineAttestation P keyResolver v.record entry repositoryDid then
      match issuerOf entry repositoryDid with
      | some did =>
        let (allowed, r) := r.keysForDid v.fetchDoc did
        if allowed.any fun key => isText key (entry.lookup "key") then (true, r)
        else verifyEntries v entries r
      | none => verifyEntries v entries r
    else verifyEntries v entries r

/-- `verifyRecordSignatures`, where keys are bound. -/
def verifyBound (v : Verification) (r : DidKeyResolver) : Bool × DidKeyResolver :=
  verifyEntries P keyResolver v (inlineEntries v.record) r

variable (deps : MarketServerDeps)

/-- The refusal of a record, and the resolver as it is left. -/
def verifyAuthored (v : Verification) (keysForDid : Option DidKeyResolver) :
    Option XrpcError × Option DidKeyResolver :=
  if deps.verifySignatures = some false then (none, keysForDid)
  else
    let refusal := ⟨"InvalidRequest", "record is missing a valid badge.blue signature", 400⟩
    match keysForDid with
    | none =>
      let ok := verifyRecordSignatures P keyResolver none v.record (atUriAuthority v.recordUri)
      (if ok then none else some refusal, none)
    | some r =>
      let (ok, r) := verifyBound P keyResolver v r
      (if ok then none else some refusal, some r)

/-- The resolver after a verification. -/
def verifyStep (keysForDid : Option DidKeyResolver) (v : Verification) : Option DidKeyResolver :=
  (verifyAuthored P keyResolver deps v keysForDid).2

/-! ## What is said about it -/

/-- An entry that is made with its key. -/
def Signed (v : Verification) (entry : RecordMap) : Prop :=
  entry ∈ inlineEntries v.record ∧
    verifyInlineAttestation P keyResolver v.record entry (atUriAuthority v.recordUri) = true

/-- The issuer of an entry publishes this key, which is that of the entry. -/
def PublishedKey (v : Verification) (entry : RecordMap) (did key : String) : Prop :=
  issuerOf entry (atUriAuthority v.recordUri) = some did ∧
    entry.lookup "key" = some (.text key) ∧ ∃ keys, v.published did = some keys ∧ key ∈ keys

/-- The resolver as if no fetch had failed yet. -/
def DidKeyResolver.forget (r : DidKeyResolver) : DidKeyResolver :=
  ⟨r.cache.filter fun e => e.1 ∉ r.failed, []⟩

/-- The verification follows the documents as they are, whatever fetches failed before. -/
structure Bound (keysForDid : Option DidKeyResolver) (v : Verification) : Prop where
  accepts : ∀ entry did key, Signed P keyResolver v entry → PublishedKey v entry did key →
    (verifyAuthored P keyResolver deps v keysForDid).1 = none
  unchanged : (verifyAuthored P keyResolver deps v (keysForDid.map DidKeyResolver.forget)).1 =
    (verifyAuthored P keyResolver deps v keysForDid).1

/-- No list is cached for the issuer of a signed entry without the key of the entry, where its
    document publishes it. -/
def Kept (keysForDid : Option DidKeyResolver) (v : Verification) : Prop :=
  ∀ r ∈ keysForDid, ∀ entry did key, Signed P keyResolver v entry → PublishedKey v entry did key →
    ∀ cached, r.cache.lookup did = some cached → key ∈ cached

end

/-! ## Answers -/

/-- What the resolver answers at a verification: a list that is cached, or what a fetch gives. -/
def DidKeyResolver.answers (r : DidKeyResolver) (v : Verification) (did : String) : List String :=
  (r.cache.lookup did).getD ((v.published did).getD [])

variable {P : Primitives} {keyResolver : String → Except String KeyData} {deps : MarketServerDeps}
  {r : DidKeyResolver} {v : Verification}

/-- What a lookup answers, and what it leaves in the cache. -/
theorem keysForDid_spec (r : DidKeyResolver) (v : Verification) (did : String) :
    (r.keysForDid v.fetchDoc did).1 = r.answers v did ∧
      ∀ did', (r.keysForDid v.fetchDoc did).2.cache.lookup did' =
        (r.cache.lookup did').or (if did' = did then some (r.answers v did) else none) := by
  unfold DidKeyResolver.keysForDid DidKeyResolver.answers
  cases hcached : r.cache.lookup did with
  | some cached =>
    refine ⟨rfl, fun did' => ?_⟩
    split_ifs with hdid
    · rw [hdid, hcached]
      rfl
    · rw [Option.or_none]
  | none =>
    have hpublished : v.published did = (v.fetchDoc did).bind documentKeys := rfl
    rw [← hpublished]
    cases v.published did with
    | some keys =>
      refine ⟨rfl, fun did' => ?_⟩
      rw [lookup_set]
      split_ifs with hdid
      · rw [hdid, hcached]
        rfl
      · rw [Option.or_none]
    | none =>
      refine ⟨rfl, fun did' => ?_⟩
      rw [lookup_set]
      split_ifs with hdid
      · rw [hdid, hcached]
        rfl
      · rw [Option.or_none]

/-- A lookup does not change what is answered at the same verification. -/
theorem answers_keysForDid (r : DidKeyResolver) (v : Verification) (did : String) :
    (r.keysForDid v.fetchDoc did).2.answers v = r.answers v := by
  funext did'
  rw [DidKeyResolver.answers, (keysForDid_spec r v did).2 did']
  split_ifs with hdid
  · rw [hdid, DidKeyResolver.answers]
    cases r.cache.lookup did <;> rfl
  · rw [Option.or_none]
    rfl

theorem verifyEntries_eq (v : Verification) (entries : List RecordMap) (r : DidKeyResolver) :
    (verifyEntries P keyResolver v entries r).1 = entries.any fun entry =>
      verifyInlineAttestation P keyResolver v.record entry (atUriAuthority v.recordUri) &&
        keyPublished (r.answers v) entry (atUriAuthority v.recordUri) := by
  induction entries generalizing r with
  | nil => rfl
  | cons entry entries ih =>
    rw [verifyEntries, List.any_cons]
    dsimp only
    cases verifyInlineAttestation P keyResolver v.record entry (atUriAuthority v.recordUri) with
    | false => rw [if_neg Bool.false_ne_true, ih, Bool.false_and, Bool.false_or]
    | true =>
      rw [if_pos rfl, Bool.true_and, keyPublished]
      cases issuerOf entry (atUriAuthority v.recordUri) with
      | none => exact (ih r).trans (Bool.false_or _).symm
      | some did =>
        dsimp only
        rw [(keysForDid_spec r v did).1]
        split_ifs with hany
        · rw [hany, Bool.true_or]
        · rw [ih, answers_keysForDid, Bool.not_eq_true _ |>.mp hany, Bool.false_or]

/-- A verification is one under the keys that the resolver answers. -/
theorem verifyBound_eq (v : Verification) (r : DidKeyResolver) :
    (verifyBound P keyResolver v r).1 = verifyRecordSignatures P keyResolver (some (r.answers v))
      v.record (atUriAuthority v.recordUri) :=
  verifyEntries_eq v _ r

/-- A record is accepted for an entry. -/
theorem verifyAuthored_eq_none (s : Option DidKeyResolver) :
    (verifyAuthored P keyResolver deps v s).1 = none ↔ deps.verifySignatures = some false ∨
      verifyRecordSignatures P keyResolver (s.map fun r => r.answers v) v.record
        (atUriAuthority v.recordUri) = true := by
  unfold verifyAuthored
  split_ifs with hoff
  · exact iff_of_true rfl (.inl hoff)
  · rw [or_iff_right hoff]
    cases s with
    | none =>
      dsimp only [Option.map_none]
      split_ifs with hok
      · exact iff_of_true rfl hok
      · exact iff_of_false nofun hok
    | some r =>
      dsimp only [Option.map_some]
      rw [verifyBound_eq]
      split_ifs with hok
      · exact iff_of_true rfl hok
      · exact iff_of_false nofun hok

/-! ## Runs -/

/-- What was fetched in vain is cached as no keys. -/
def FailedEmpty (r : DidKeyResolver) : Prop := ∀ did ∈ r.failed, r.cache.lookup did = some []

theorem FailedEmpty.keysForDid (h : FailedEmpty r) (fetchDoc : String → Option Json)
    (did : String) : FailedEmpty (r.keysForDid fetchDoc did).2 := by
  intro did' hdid'
  unfold DidKeyResolver.keysForDid at hdid' ⊢
  cases hcached : r.cache.lookup did with
  | some cached =>
    rw [hcached] at hdid'
    exact h did' hdid'
  | none =>
    rw [hcached] at hdid'
    cases hfetch : (fetchDoc did).bind documentKeys with
    | some keys =>
      rw [hfetch] at hdid'
      have hne : did' ≠ did := fun heq => by
        have hfound := h did' hdid'
        rw [heq, hcached] at hfound
        cases hfound
      exact (lookup_set _ _ _ _).trans ((if_neg hne).trans (h did' hdid'))
    | none =>
      rw [hfetch] at hdid'
      dsimp only at hdid' ⊢
      rw [lookup_set]
      split_ifs with heq
      · rfl
      · exact h did' ((List.mem_cons.1 hdid').resolve_left heq)

/-- What lookups keep, verifications keep. -/
theorem verifyEntries_inv {Inv : DidKeyResolver → Prop} (v : Verification)
    (h : ∀ r did, Inv r → Inv (r.keysForDid v.fetchDoc did).2) (entries : List RecordMap)
    (hr : Inv r) : Inv (verifyEntries P keyResolver v entries r).2 := by
  induction entries generalizing r with
  | nil => exact hr
  | cons entry entries ih =>
    rw [verifyEntries]
    dsimp only
    split_ifs
    · cases issuerOf entry (atUriAuthority v.recordUri) with
      | none => exact ih hr
      | some did =>
        dsimp only
        split_ifs
        · exact h r did hr
        · exact ih (h r did hr)
    · exact ih hr

theorem verifyStep_inv {Inv : DidKeyResolver → Prop} (v : Verification)
    (h : ∀ r did, Inv r → Inv (r.keysForDid v.fetchDoc did).2) {s : Option DidKeyResolver}
    (hs : ∀ r ∈ s, Inv r) : ∀ r ∈ verifyStep P keyResolver deps s v, Inv r := by
  unfold verifyStep verifyAuthored
  split_ifs
  · exact hs
  · cases s with
    | none => nofun
    | some r =>
      rintro _ ⟨rfl⟩
      exact verifyEntries_inv v h _ (hs r rfl)

/-- Every cached list is what a fetch of one of the verifications gave. -/
def CachedFrom (vs : List Verification) (r : DidKeyResolver) : Prop :=
  ∀ did cached, r.cache.lookup did = some cached → ∃ v ∈ vs, cached = (v.published did).getD []

theorem CachedFrom.keysForDid {vs : List Verification} (h : CachedFrom vs r) (hv : v ∈ vs)
    (did : String) : CachedFrom vs (r.keysForDid v.fetchDoc did).2 := by
  intro did' cached hcached
  rw [(keysForDid_spec r v did).2 did'] at hcached
  cases hlookup : r.cache.lookup did' with
  | some cached' =>
    rw [hlookup, Option.some_or] at hcached
    exact h did' cached (hlookup.trans hcached)
  | none =>
    rw [hlookup, Option.none_or] at hcached
    split_ifs at hcached with hdid
    refine ⟨v, hv, ?_⟩
    rw [← Option.some.inj hcached, ← hdid, DidKeyResolver.answers, hlookup]
    rfl

theorem cachedFrom_nil {vs : List Verification} : ∀ r ∈ keysForDidFrom deps, CachedFrom vs r := by
  intro r hr did cached hcached
  unfold keysForDidFrom at hr
  split_ifs at hr
  · rw [← Option.some.inj hr] at hcached
    cases hcached
  · cases hr

/-- After a run, a cached list is what a fetch of the run gave, or no keys where it failed. -/
theorem cached_of_run (vs : List Verification) :
    ∀ r ∈ vs.foldl (verifyStep P keyResolver deps) (keysForDidFrom deps), CachedFrom vs r := by
  have hrun : ∀ (ws : List Verification) (s : Option DidKeyResolver), ws ⊆ vs →
      (∀ r ∈ s, CachedFrom vs r) →
        ∀ r ∈ ws.foldl (verifyStep P keyResolver deps) s, CachedFrom vs r := by
    intro ws
    induction ws with
    | nil => exact fun s _ hs => hs
    | cons w ws ih =>
      intro s hsub hs
      obtain ⟨hw, hws⟩ := List.cons_subset.1 hsub
      exact ih _ hws (verifyStep_inv w (fun r did hr => hr.keysForDid hw did) hs)
  exact hrun vs _ (List.Subset.refl vs) cachedFrom_nil

/-- A key that is published is answered, where the lists are kept. -/
theorem keyPublished_of_published {entry : RecordMap} {did key : String}
    (h : PublishedKey v entry did key) (hkept : ∀ cached, r.cache.lookup did = some cached →
      key ∈ cached) : keyPublished (r.answers v) entry (atUriAuthority v.recordUri) = true := by
  obtain ⟨hissuer, hkey, keys, hpublished, hmem⟩ := h
  rw [keyPublished, hissuer]
  refine List.any_eq_true.2 ⟨key, ?_, by rw [hkey]; exact decide_eq_true rfl⟩
  rw [DidKeyResolver.answers, hpublished]
  cases hcached : r.cache.lookup did with
  | some cached => exact hkept cached hcached
  | none => exact hmem

/-- A failed fetch that is forgotten answers for a signed entry as before. -/
theorem keyPublished_forget (hinv : FailedEmpty r) (h : Kept P keyResolver (some r) v)
    {entry : RecordMap} (hsigned : Signed P keyResolver v entry) :
    keyPublished (r.forget.answers v) entry (atUriAuthority v.recordUri) =
      keyPublished (r.answers v) entry (atUriAuthority v.recordUri) := by
  have hlookup : ∀ did, r.forget.cache.lookup did =
      if did ∈ r.failed then none else r.cache.lookup did := by
    intro did
    refine (lookup_filter (fun did => decide (did ∉ r.failed)) r.cache did).trans ?_
    by_cases hfailed : did ∈ r.failed <;> simp [hfailed]
  unfold keyPublished
  cases hissuer : issuerOf entry (atUriAuthority v.recordUri) with
  | none => rfl
  | some did =>
    dsimp only
    by_cases hfailed : did ∈ r.failed
    · -- No key is cached, and the document publishes none that would count.
      have hcached := hinv did hfailed
      rw [DidKeyResolver.answers, DidKeyResolver.answers, hlookup, if_pos hfailed, hcached]
      refine Bool.eq_false_iff.2 fun hany => ?_
      obtain ⟨key, hmem, htext⟩ := List.any_eq_true.1 hany
      obtain ⟨keys, hpublished⟩ : ∃ keys, v.published did = some keys := by
        refine Option.ne_none_iff_exists'.1 fun hnone => ?_
        rw [hnone] at hmem
        cases hmem
      rw [hpublished] at hmem
      have hnil := h r rfl entry did key hsigned
        ⟨hissuer, eq_of_isText htext, keys, hpublished, hmem⟩ [] hcached
      cases hnil
    · rw [DidKeyResolver.answers, DidKeyResolver.answers, hlookup, if_neg hfailed]

/-- A verification whose issuers' lists are kept follows the documents. -/
theorem bound_of_kept {s : Option DidKeyResolver} (hinv : ∀ r ∈ s, FailedEmpty r)
    (h : Kept P keyResolver s v) : Bound P keyResolver deps s v := by
  constructor
  · intro entry did key hsigned hpublished
    refine verifyAuthored_eq_none s |>.2 (.inr (List.any_eq_true.2 ⟨entry, hsigned.1, ?_⟩))
    rw [hsigned.2, Bool.true_and]
    cases s with
    | none => rfl
    | some r =>
      exact keyPublished_of_published hpublished (h r rfl entry did key hsigned hpublished)
  · cases s with
    | none => rfl
    | some r =>
      have heq : (verifyBound P keyResolver v r.forget).1 = (verifyBound P keyResolver v r).1 := by
        rw [verifyBound_eq, verifyBound_eq, Bool.eq_iff_iff, verifyRecordSignatures,
          verifyRecordSignatures, List.any_eq_true, List.any_eq_true]
        refine exists_congr fun entry => and_congr_right fun hmem => ?_
        rw [Bool.and_eq_true, Bool.and_eq_true]
        exact and_congr_right fun hverify =>
          Bool.eq_iff_iff.1 (keyPublished_forget (hinv r rfl) h ⟨hmem, hverify⟩)
      unfold verifyAuthored
      split_ifs
      · rfl
      · dsimp only [Option.map_some]
        rw [heq]

/-- In every run in which no verification finds a list without a key that is published now, every
    verification follows the documents. -/
theorem bound_of_kept_run (deps : MarketServerDeps) (vs : List Verification)
    (h : Along (verifyStep P keyResolver deps) (Kept P keyResolver) (keysForDidFrom deps) vs) :
    Along (verifyStep P keyResolver deps) (Bound P keyResolver deps) (keysForDidFrom deps) vs := by
  refine @along_of_inv _ _ _ _ _ (fun s => ∀ r ∈ s, FailedEmpty r) (fun s v hinv hkept => ?_) _ ?_
    _ h
  · exact ⟨bound_of_kept hinv hkept,
      verifyStep_inv v (fun r did hr => hr.keysForDid v.fetchDoc did) hinv⟩
  · intro r hr
    unfold keysForDidFrom at hr
    split_ifs at hr
    · rw [← Option.some.inj hr]
      exact fun did hdid => absurd hdid List.not_mem_nil
    · cases hr

/-- Where the documents stay as they are, the lists are kept. -/
theorem kept_of_steady {published : String → Option (List String)} (vs : List Verification)
    (h : ∀ v ∈ vs, v.published = published) :
    Along (verifyStep P keyResolver deps) (Kept P keyResolver) (keysForDidFrom deps) vs := by
  refine @along_of_inv _ _ _ _ (fun _ v => v ∈ vs) (fun s => ∀ r ∈ s, CachedFrom vs r)
    (fun s v hinv hv => ⟨?_, ?_⟩) _ cachedFrom_nil _ (along_of_forall (fun _ hv => hv) _)
  · intro r hr entry did key _ hpublished cached hcached
    obtain ⟨w, hw, rfl⟩ := hinv r hr did cached hcached
    obtain ⟨-, -, keys, hkeys, hmem⟩ := hpublished
    rw [h w hw, ← h v hv, hkeys]
    exact hmem
  · exact verifyStep_inv v (fun r did hr => hr.keysForDid hv did) hinv

/-! ## A failed fetch -/

def sampleDocument (k : SampleKey) : Json :=
  .object [("verificationMethod", .array [.object [("publicKeyMultibase", .string k.multibase)]])]

/-- A record of the author of a key. -/
def sampleAuthored : RecordMap :=
  [("$type", .text "com.publicdomainrelay.temp.market.rfp"), ("note", .text "a"),
    ("signatures", .array [.object (sampleEntry aliceKey)])]

def sampleVerification (fetchDoc : String → Option Json) : Verification :=
  ⟨sampleAuthored, "at://did:plc:alice/com.publicdomainrelay.temp.market.rfp/1", fetchDoc⟩

theorem sampleAuthored_spec :
    inlineEntries sampleAuthored = [sampleEntry aliceKey] ∧
      atUriAuthority "at://did:plc:alice/com.publicdomainrelay.temp.market.rfp/1" =
        "did:plc:alice" ∧
      verifyInlineAttestation samplePrimitives (parseDidKey samplePrimitives) sampleAuthored
        (sampleEntry aliceKey) "did:plc:alice" = true := by
  have hsigned : verifyRecordSignatures samplePrimitives (parseDidKey samplePrimitives) none
      sampleAuthored "did:plc:alice" :=
    sample_signed (sampleKey_mem _) rfl rfl (by decide +kernel)
  have hentries : inlineEntries sampleAuthored = [sampleEntry aliceKey] := rfl
  rw [verifyRecordSignatures, hentries, List.any_cons, List.any_nil, Bool.or_false,
    Bool.and_true] at hsigned
  exact ⟨hentries, by decide +kernel, hsigned⟩

theorem sampleVerification_signed (fetchDoc : String → Option Json) :
    Signed samplePrimitives (parseDidKey samplePrimitives) (sampleVerification fetchDoc)
      (sampleEntry aliceKey) := by
  obtain ⟨hentries, hrepo, hverify⟩ := sampleAuthored_spec
  rw [Signed, sampleVerification, hentries, hrepo]
  exact ⟨List.mem_singleton_self _, hverify⟩

theorem verifyStep_some (h : deps.verifySignatures ≠ some false) (r : DidKeyResolver)
    (v : Verification) :
    verifyStep P keyResolver deps (some r) v = some (verifyBound P keyResolver v r).2 := by
  rw [verifyStep, verifyAuthored, if_neg h]

/-- What the first verification leaves in the cache. -/
theorem verifyStep_sample (fetchDoc : String → Option Json) :
    verifyStep samplePrimitives (parseDidKey samplePrimitives) ⟨true, none⟩
      (keysForDidFrom ⟨true, none⟩) (sampleVerification fetchDoc) =
        some (createDidKeyResolver.keysForDid fetchDoc "did:plc:alice").2 := by
  rw [keysForDidFrom, if_pos rfl, @verifyStep_some _ _ ⟨true, none⟩ nofun]
  obtain ⟨hentries, hrepo, hverify⟩ := sampleAuthored_spec
  have hissuer : issuerOf (sampleEntry aliceKey) "did:plc:alice" = some "did:plc:alice" := by
    decide +kernel
  rw [verifyBound, sampleVerification, hentries, verifyEntries]
  dsimp only
  rw [hrepo, hverify, hissuer, if_pos rfl]
  dsimp only
  split_ifs <;> rfl

/-- Where no keys are cached, a record is refused. -/
theorem not_bound_of_cached {r : DidKeyResolver} (h : r.cache.lookup "did:plc:alice" = some []) :
    ¬ Bound samplePrimitives (parseDidKey samplePrimitives) ⟨true, none⟩ (some r)
      (sampleVerification fun _ => some (sampleDocument aliceKey)) := by
  intro hbound
  obtain ⟨hentries, hrepo, -⟩ := sampleAuthored_spec
  have hissuer : issuerOf (sampleEntry aliceKey) "did:plc:alice" = some "did:plc:alice" := by
    decide +kernel
  have haccepted := hbound.accepts (sampleEntry aliceKey) "did:plc:alice"
    ("did:key:" ++ aliceKey.multibase) (sampleVerification_signed _)
    ⟨(congrArg (issuerOf _) hrepo).trans hissuer, rfl, _, rfl, List.mem_singleton_self _⟩
  have hverified := (verifyAuthored_eq_none _).1 haccepted |>.resolve_left nofun
  obtain ⟨entry, hentry, hcounts⟩ := List.any_eq_true.1 hverified
  rw [sampleVerification, hentries, List.mem_singleton] at hentry
  rw [hentry, sampleVerification, hrepo, Bool.and_eq_true] at hcounts
  have hpublished : keyPublished (r.answers (sampleVerification fun _ =>
      some (sampleDocument aliceKey))) (sampleEntry aliceKey) "did:plc:alice" = true := hcounts.2
  rw [keyPublished, hissuer] at hpublished
  dsimp only at hpublished
  rw [DidKeyResolver.answers, h] at hpublished
  cases hpublished

/-- A document that lists no key yet, or is not found, is not looked at again. -/
theorem not_bound_run :
    ¬ Along (verifyStep samplePrimitives (parseDidKey samplePrimitives) ⟨true, none⟩)
        (Bound samplePrimitives (parseDidKey samplePrimitives) ⟨true, none⟩)
        (keysForDidFrom ⟨true, none⟩)
        [sampleVerification fun _ => some (.object []),
          sampleVerification fun _ => some (sampleDocument aliceKey)] ∧
      ¬ Along (verifyStep samplePrimitives (parseDidKey samplePrimitives) ⟨true, none⟩)
        (Bound samplePrimitives (parseDidKey samplePrimitives) ⟨true, none⟩)
        (keysForDidFrom ⟨true, none⟩)
        [sampleVerification fun _ => none,
          sampleVerification fun _ => some (sampleDocument aliceKey)] := by
  constructor
  · rintro ⟨-, hbound, -⟩
    rw [verifyStep_sample] at hbound
    exact not_bound_of_cached rfl hbound
  · rintro ⟨-, hbound, -⟩
    rw [verifyStep_sample] at hbound
    exact not_bound_of_cached rfl hbound

/-- The document is found each time. -/
theorem bound_of_kept_run_sample :
    Along (verifyStep samplePrimitives (parseDidKey samplePrimitives) ⟨true, none⟩)
      (Bound samplePrimitives (parseDidKey samplePrimitives) ⟨true, none⟩)
      (keysForDidFrom ⟨true, none⟩)
      (List.replicate 2 (sampleVerification fun _ => some (sampleDocument aliceKey))) :=
  bound_of_kept_run ⟨true, none⟩ _ (kept_of_steady _ fun _ hv =>
    congrArg Verification.published (List.mem_replicate.1 hv).2)

end ComputeContract.Market
