import ComputeContract.Market.Registry

/-!
# Discovering bidders

A requester asks every registry for the bidders of a payload and puts their DIDs together.
It asks once, for no page in particular: the registry takes the first page of its entries
and then drops those for other payloads.

* `mem_discoverBiddersFromRegistries`: whose DIDs come back;
* `discovery_complete_iff`: when they are those of all the bidders registered for the payload.
-/

namespace ComputeContract.Registry

open AssocList

structure RegistryBidder where
  bidderDid : String
  appliesTo : List String

structure DiscoverFromRegistriesOptions where
  payloadNsid : String
  registryEndpoints : Option (List String)

def DEFAULT_REGISTRY_ENDPOINTS : List String :=
  ["did:web:market-registry-0001--johnandersen777-bsky-social.fedproxy.com#pdr_temp_market"]

/-- The endpoints that are asked; `env` are those of the environment. -/
def effectiveEndpoints (opts : DiscoverFromRegistriesOptions) (env : List String) : List String :=
  let endpoints := opts.registryEndpoints.getD env
  if endpoints.length > 0 then endpoints else DEFAULT_REGISTRY_ENDPOINTS

/-- The query of either caller: its parameters are the payload alone. -/
def queryBidders (registry : Records IndexEntry) (payloadNsid : String) : List RegistryBidder :=
  (listBidders registry (some payloadNsid) none none).bidders.map fun b =>
    ⟨b.bidderDid.str, b.appliesTo⟩

/-- Add the bidders of one answer to the set. -/
def addBidders (dids : List String) (bidders : List RegistryBidder) : List String :=
  bidders.foldl (fun dids b => if b.bidderDid ≠ "" then List.insert b.bidderDid dids else dids) dids

/-- Ask one registry; one that does not answer is skipped. -/
def addRegistry (payloadNsid : String) (registries : String → Option (Records IndexEntry))
    (dids : List String) (endpoint : String) : List String :=
  match registries endpoint with
  | none => dids
  | some registry => addBidders dids (queryBidders registry payloadNsid)

/-- The set of the bidders of all registries, which answer in the order of the endpoints. -/
def discoverBiddersFromRegistries (opts : DiscoverFromRegistriesOptions) (env : List String)
    (registries : String → Option (Records IndexEntry)) : List String :=
  (effectiveEndpoints opts env).foldl (addRegistry opts.payloadNsid registries) []

/-! ## What is returned -/

/-- The entry is for the payload, or the query is for none. -/
def Wanted (payloadNsid : String) (e : IndexEntry) : Prop :=
  payloadNsid = "" ∨ payloadNsid ∈ e.appliesTo

instance (payloadNsid : String) (e : IndexEntry) : Decidable (Wanted payloadNsid e) :=
  inferInstanceAs (Decidable (_ ∨ _))

/-- What the query of a caller is answered with: entries of the first page. -/
theorem bidders_listBidders (registry : Records IndexEntry) (payloadNsid : String) :
    (listBidders registry (some payloadNsid) none none).bidders =
      ((registry.take 50).map Prod.snd).filter fun e => Wanted payloadNsid e := by
  rw [listBidders, Records.page_none]
  by_cases hnsid : payloadNsid = ""
  · subst hnsid
    exact (List.filter_eq_self.2 fun e _ => by simp [Wanted]).symm
  · have hsome : (some payloadNsid).filter (· ≠ "") = some payloadNsid := by simp [hnsid]
    rw [hsome]
    exact List.filter_congr fun e _ => by simp [Wanted, hnsid]

theorem mem_queryBidders {registry : Records IndexEntry} {payloadNsid did : String} :
    did ∈ (queryBidders registry payloadNsid).map RegistryBidder.bidderDid ↔
      ∃ e ∈ registry.take 50, Wanted payloadNsid e.2 ∧ e.2.bidderDid.str = did := by
  rw [queryBidders, bidders_listBidders, List.map_map, List.mem_map]
  constructor
  · rintro ⟨b, hb, rfl⟩
    obtain ⟨hb, hwanted⟩ := List.mem_filter.1 hb
    obtain ⟨e, he, rfl⟩ := List.mem_map.1 hb
    exact ⟨e, he, of_decide_eq_true hwanted, rfl⟩
  · rintro ⟨e, he, hwanted, rfl⟩
    exact ⟨e.2, List.mem_filter.2 ⟨List.mem_map_of_mem he, decide_eq_true hwanted⟩, rfl⟩

theorem str_ne_empty (did : Did) : did.str ≠ "" := by
  intro h
  have hvalid := did.valid
  rw [h] at hvalid
  cases hvalid

theorem ne_empty_of_mem_queryBidders {registry : Records IndexEntry} {payloadNsid : String} :
    ∀ b ∈ queryBidders registry payloadNsid, b.bidderDid ≠ "" := by
  intro b hb
  obtain ⟨e, _, rfl⟩ := List.mem_map.1 hb
  exact str_ne_empty e.bidderDid

/-- The bidders of an answer are added, none twice. -/
theorem mem_addBidders {bidders : List RegistryBidder} {dids : List String} (hn : dids.Nodup)
    (hne : ∀ b ∈ bidders, b.bidderDid ≠ "") :
    (addBidders dids bidders).Nodup ∧
      ∀ did, did ∈ addBidders dids bidders ↔
        did ∈ dids ∨ did ∈ bidders.map RegistryBidder.bidderDid := by
  induction bidders generalizing dids with
  | nil => exact ⟨hn, by simp [addBidders]⟩
  | cons b bidders ih =>
    rw [List.forall_mem_cons] at hne
    obtain ⟨hnodup, hmem⟩ := ih ((hn.insert : (List.insert b.bidderDid dids).Nodup)) hne.2
    rw [addBidders, List.foldl_cons, if_pos hne.1]
    refine ⟨hnodup, fun did => (hmem did).trans ?_⟩
    rw [List.mem_insert_iff, List.map_cons, List.mem_cons, or_assoc]
    exact or_left_comm

/-- A bidder is found at one of the endpoints, on a first page. -/
def FoundAt (payloadNsid : String) (registries : String → Option (Records IndexEntry))
    (endpoints : List String) (did : String) : Prop :=
  ∃ endpoint ∈ endpoints, ∃ registry ∈ registries endpoint,
    ∃ e ∈ registry.take 50, Wanted payloadNsid e.2 ∧ e.2.bidderDid.str = did

theorem mem_addRegistry {payloadNsid : String} {registries : String → Option (Records IndexEntry)}
    {dids : List String} (hn : dids.Nodup) (endpoint : String) :
    (addRegistry payloadNsid registries dids endpoint).Nodup ∧
      ∀ did, did ∈ addRegistry payloadNsid registries dids endpoint ↔
        did ∈ dids ∨ FoundAt payloadNsid registries [endpoint] did := by
  rw [addRegistry]
  cases hregistry : registries endpoint with
  | none => exact ⟨hn, fun did => by simp [FoundAt, hregistry]⟩
  | some registry =>
    obtain ⟨hnodup, hmem⟩ := mem_addBidders hn
      (@ne_empty_of_mem_queryBidders registry payloadNsid)
    refine ⟨hnodup, fun did => (hmem did).trans (or_congr_right ?_)⟩
    rw [mem_queryBidders]
    simp [FoundAt, hregistry]

/-- Whose DIDs come back: those of the first pages, each once. -/
theorem mem_discoverBiddersFromRegistries (opts : DiscoverFromRegistriesOptions) (env : List String)
    (registries : String → Option (Records IndexEntry)) :
    (discoverBiddersFromRegistries opts env registries).Nodup ∧
      ∀ did, did ∈ discoverBiddersFromRegistries opts env registries ↔
        FoundAt opts.payloadNsid registries (effectiveEndpoints opts env) did := by
  have hfold : ∀ (endpoints dids : List String), dids.Nodup →
      (endpoints.foldl (addRegistry opts.payloadNsid registries) dids).Nodup ∧
        ∀ did, did ∈ endpoints.foldl (addRegistry opts.payloadNsid registries) dids ↔
          did ∈ dids ∨ FoundAt opts.payloadNsid registries endpoints did := by
    intro endpoints
    induction endpoints with
    | nil => exact fun dids hn => ⟨hn, fun did => by simp [FoundAt]⟩
    | cons endpoint endpoints ih =>
      intro dids hn
      obtain ⟨hnAdded, hmemAdded⟩ := mem_addRegistry hn endpoint
      obtain ⟨hnodup, hmem⟩ := ih _ hnAdded
      refine ⟨hnodup, fun did => (hmem did).trans ?_⟩
      rw [hmemAdded, or_assoc]
      simp [FoundAt]
  obtain ⟨hnodup, hmem⟩ := hfold (effectiveEndpoints opts env) [] List.nodup_nil
  exact ⟨hnodup, fun did => (hmem did).trans (or_iff_right List.not_mem_nil)⟩

/-! ## Completeness -/

/-- Every bidder that a registry holds for the payload is returned, once. -/
structure Complete (opts : DiscoverFromRegistriesOptions) (env : List String)
    (registries : String → Option (Records IndexEntry)) : Prop where
  nodup : (discoverBiddersFromRegistries opts env registries).Nodup
  mem : ∀ endpoint ∈ effectiveEndpoints opts env, ∀ registry ∈ registries endpoint,
    ∀ e ∈ registry, opts.payloadNsid ∈ e.2.appliesTo →
      e.2.bidderDid.str ∈ discoverBiddersFromRegistries opts env registries

/-- A bidder with an entry for the payload behind the first fifty of a registry has one among
    the first fifty of some registry. -/
def InFirstPage (opts : DiscoverFromRegistriesOptions) (env : List String)
    (registries : String → Option (Records IndexEntry)) : Prop :=
  ∀ endpoint ∈ effectiveEndpoints opts env, ∀ registry ∈ registries endpoint,
    ∀ e ∈ registry.drop 50, opts.payloadNsid ∈ e.2.appliesTo →
      ∃ endpoint' ∈ effectiveEndpoints opts env, ∃ registry' ∈ registries endpoint',
        ∃ e' ∈ registry'.take 50, Wanted opts.payloadNsid e'.2 ∧ e'.2.bidderDid = e.2.bidderDid

theorem Did.ext_iff {did did' : Did} : did.str = did'.str ↔ did = did' := by
  obtain ⟨str, _⟩ := did
  obtain ⟨str', _⟩ := did'
  rw [Did.mk.injEq]

/-- The discovery is complete exactly when nobody's entries for the payload are all behind the
    first pages. -/
theorem discovery_complete_iff (opts : DiscoverFromRegistriesOptions) (env : List String)
    (registries : String → Option (Records IndexEntry)) :
    Complete opts env registries ↔ InFirstPage opts env registries := by
  obtain ⟨hnodup, hmem⟩ := mem_discoverBiddersFromRegistries opts env registries
  constructor
  · intro h endpoint hendpoint registry hregistry e he happlies
    obtain ⟨endpoint', hendpoint', registry', hregistry', e', he', hwanted, hdid⟩ :=
      (hmem _).1 (h.mem endpoint hendpoint registry hregistry e (List.mem_of_mem_drop he) happlies)
    exact ⟨endpoint', hendpoint', registry', hregistry', e', he', hwanted, Did.ext_iff.1 hdid⟩
  · refine fun h => ⟨hnodup, fun endpoint hendpoint registry hregistry e he happlies => ?_⟩
    rw [hmem]
    rw [← List.take_append_drop 50 registry] at he
    rcases List.mem_append.1 he with he | he
    · exact ⟨endpoint, hendpoint, registry, hregistry, e, he, .inr happlies, rfl⟩
    · obtain ⟨endpoint', hendpoint', registry', hregistry', e', he', hwanted, hdid⟩ :=
        h endpoint hendpoint registry hregistry e he happlies
      exact ⟨endpoint', hendpoint', registry', hregistry', e', he', hwanted, Did.ext_iff.2 hdid⟩

/-! ## A bidder behind the first page -/

/-- An entry, under its key. -/
def filed (e : IndexEntry) : Key × IndexEntry := (entryPath e.bidderDid (e.appliesTo.headD ""), e)

/-- Fifty entries of one bidder, each for a payload of its own. -/
def flood : List IndexEntry :=
  (List.range 50).map fun n =>
    ⟨dashDid, [String.ofList (List.replicate (n + 1) 'a')], "2025-01-01T00:00:00.000Z"⟩

/-- The entry of a bidder whose key comes after theirs. -/
def late : IndexEntry := ⟨⟨"did:web:late", by decide⟩, ["vm"], "2025-01-02T00:00:00.000Z"⟩

theorem not_complete : ¬ ∀ opts env registries, Complete opts env registries := by
  intro h
  have hmem := (h ⟨"vm", some ["registry"]⟩ [] fun _ => some ((flood ++ [late]).map filed)).mem
    "registry" (by decide) _ rfl (filed late)
    (List.mem_map_of_mem (List.mem_append_right _ (List.mem_singleton_self late))) (by decide)
  have hlist : discoverBiddersFromRegistries ⟨"vm", some ["registry"]⟩ []
      (fun _ => some ((flood ++ [late]).map filed)) = [] := by
    decide +kernel
  rw [hlist] at hmem
  cases hmem

end ComputeContract.Registry
