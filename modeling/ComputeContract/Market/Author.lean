import ComputeContract.Lib.Split
import ComputeContract.Market.Resolve
import ComputeContract.Market.ServiceAuth

/-!
# The author of a record

A submission names a record by its AT-URI. The server lets it in if the issuer of its token is the
authority of the URI (`atUriAuthority`), and fetches the record from the PDS of the repository that
the URI names (`parseAtUri`). The first drops the first `at://`, wherever it is, the other one the
first five code units. They differ on URIs that do not begin with `at://`, of which none names
two identifiers that resolve.

* `repo_eq_atUriAuthority`: the two parsers agree on identifiers that resolve;
* `asked_of_author`: a record that is resolved was asked for in the repository of the issuer.
-/

namespace ComputeContract.Market.Author

open AssocList ServiceAuth

/-! ## The check -/

structure MarketServerDeps where
  hostname : String
  audienceDids : List String
  /-- `idResolver.did.resolveAtprotoKey`; each call may give another answer. -/
  resolveAtprotoKey : ℕ → String → Except String String

structure XrpcError where
  error : String
  message : String
  status : ℕ

/-- Verify the service-auth token and require its issuer to author `recordUri`; `text` is the text
    of what is thrown. -/
def authorize (P : ServiceAuth.Platform) (text : ServiceAuth.Thrown → String) (now : ℚ)
    (authHeader : Option String) (deps : MarketServerDeps) (lxm : String)
    (serviceIds : List String) (recordUri : String) :
    Except XrpcError (String × Option String) := do
  let auth ← (verifyMarketServiceAuth P now authHeader deps.hostname lxm serviceIds
    deps.audienceDids deps.resolveAtprotoKey).mapError fun err =>
      ⟨"Unauthorized", s!"invalid service-auth token: {text err}", 401⟩
  if auth.issuerDid ≠ atUriAuthority recordUri then
    .error ⟨"Forbidden", "service-auth token issuer must author the referenced record", 403⟩
  else return (auth.issuerDid, auth.serviceId)

/-- A `did:plc` or `did:web` identifier. -/
def IsPlcOrWeb (did : String) : Prop :=
  "did:plc:".toList <+: did.toList ∨ "did:web:".toList <+: did.toList

/-- No other identifiers resolve. -/
structure PlcOrWebOnly (deps : MarketServerDeps) (w : World) : Prop where
  key : ∀ n did key, deps.resolveAtprotoKey n did = .ok key → IsPlcOrWeb did
  document : ∀ n did doc, w.didDocument n did = .ok (some doc) → IsPlcOrWeb did

/-! ## The two parsers -/

theorem repo_eq (uri : String) : (parseAtUri uri).repo =
    String.ofList ((sliceUnits "at://".length uri.toList).takeWhile (· ≠ '/')) := by
  rw [parseAtUri]
  dsimp only
  rw [List.getElem?_map, head_splitOn]
  rfl

/-- What is left begins with a character: `at://` stood before it, or it was there before. -/
theorem removeFirst_eq_cons {cs ds : List Char} {d : Char}
    (h : removeFirst "at://".toList cs = d :: ds) :
    cs = "at://".toList ++ d :: ds ∨
      ∃ cs', cs = d :: cs' ∧ removeFirst "at://".toList cs' = ds := by
  cases cs with
  | nil => cases h
  | cons c cs =>
    rw [removeFirst] at h
    split_ifs at h with hpre
    · obtain ⟨rest, hrest⟩ := List.isPrefixOf_iff_prefix.1 hpre
      rw [← hrest, List.drop_left] at h
      exact .inl (by rw [← hrest, h])
    · obtain ⟨rfl, rfl⟩ := List.cons.inj h
      exact .inr ⟨cs, rfl, rfl⟩

/-- An identifier is spelled out with two letters that are none of its first ones. -/
theorem IsPlcOrWeb.exists_eq {cs : List Char}
    (h : IsPlcOrWeb (String.ofList (cs.takeWhile (· ≠ '/')))) :
    ∃ a b rest, cs = 'd' :: 'i' :: 'd' :: ':' :: a :: b :: rest ∧ a.toNat < 0x10000 ∧ b ≠ 'd' := by
  have htext : (String.ofList (cs.takeWhile (· ≠ '/'))).toList = cs.takeWhile (· ≠ '/') :=
    String.toList_ofList
  rw [IsPlcOrWeb, htext] at h
  have hpre : cs.takeWhile (· ≠ '/') <+: cs := List.takeWhile_prefix _
  rcases h with h | h
  · obtain ⟨rest, hrest⟩ := h.trans hpre
    exact ⟨'p', 'l', 'c' :: ':' :: rest, hrest.symm, by decide, by decide⟩
  · obtain ⟨rest, hrest⟩ := h.trans hpre
    exact ⟨'w', 'e', 'b' :: ':' :: rest, hrest.symm, by decide, by decide⟩

/-- A text that does not begin with `at://`, but like an identifier when the first `at://` is
    dropped, does not begin like one when five code units are dropped. -/
theorem removeFirst_eq_sliceUnits {cs : List Char}
    (hauthority : IsPlcOrWeb (String.ofList ((removeFirst "at://".toList cs).takeWhile (· ≠ '/'))))
    (hrepo : IsPlcOrWeb (String.ofList ((sliceUnits "at://".length cs).takeWhile (· ≠ '/')))) :
    removeFirst "at://".toList cs = sliceUnits "at://".length cs := by
  obtain ⟨a, b, rest, heq, ha, hb⟩ := hauthority.exists_eq
  obtain ⟨_, _, tail, hslice, -, -⟩ := hrepo.exists_eq
  have hhead : (sliceUnits "at://".length cs).head? = some 'd' := by rw [hslice]; rfl
  -- The first `at://` stands before one of the first six characters, or after them.
  rcases removeFirst_eq_cons heq with rfl | ⟨cs₁, rfl, h₁⟩
  · exact heq
  rcases removeFirst_eq_cons h₁ with rfl | ⟨cs₂, rfl, h₂⟩
  · exact absurd (Option.some.inj hhead : '/' = 'd') (by decide)
  rcases removeFirst_eq_cons h₂ with rfl | ⟨cs₃, rfl, h₃⟩
  · exact absurd (Option.some.inj hhead : '/' = 'd') (by decide)
  rcases removeFirst_eq_cons h₃ with rfl | ⟨cs₄, rfl, h₄⟩
  · exact absurd (Option.some.inj hhead : ':' = 'd') (by decide)
  rcases removeFirst_eq_cons h₄ with rfl | ⟨cs₅, rfl, h₅⟩
  · exact absurd (Option.some.inj hhead : 't' = 'd') (by decide)
  have hfive : sliceUnits "at://".length ('d' :: 'i' :: 'd' :: ':' :: a :: cs₅) = cs₅ := by
    change sliceUnits 5 _ = _
    simp [sliceUnits, ha]
  rw [hfive] at hhead
  rcases removeFirst_eq_cons h₅ with rfl | ⟨cs₆, rfl, -⟩
  · exact absurd (Option.some.inj hhead : 'a' = 'd') (by decide)
  · exact absurd (Option.some.inj hhead) hb

/-- The repository that is asked is the authority, where both can be resolved. -/
theorem repo_eq_atUriAuthority {uri : String} (hauthority : IsPlcOrWeb (atUriAuthority uri))
    (hrepo : IsPlcOrWeb (parseAtUri uri).repo) : (parseAtUri uri).repo = atUriAuthority uri := by
  rw [repo_eq] at hrepo ⊢
  rw [atUriAuthority] at hauthority ⊢
  rw [removeFirst_eq_sliceUnits hauthority hrepo]

/-! ## Runs -/

/-- The states that a resolver comes to; a request may fail after its PDS is found. -/
inductive Reached (w : World) : ResolverState → Prop
  | start : Reached w ⟨[], 0⟩
  | found {s s' : ResolverState} {did pds : String} (h : Reached w s)
      (hfound : Resolver.pdsForDid w did s = .ok (pds, s')) : Reached w s'
  | asked {s : ResolverState} (h : Reached w s) : Reached w ⟨s.pdsCache, s.asked + 1⟩

section
variable {P : ServiceAuth.Platform} {text : ServiceAuth.Thrown → String} {now : ℚ}
  {authHeader : Option String} {deps : MarketServerDeps} {lxm recordUri did pds : String}
  {serviceIds : List String} {auth : String × Option String} {w : World} {s s' : ResolverState}

/-- A PDS is found for identifiers that resolve. -/
theorem isPlcOrWeb_of_pdsForDid (honly : PlcOrWebOnly deps w)
    (hcache : ∀ did ∈ keys s.pdsCache, IsPlcOrWeb did)
    (h : Resolver.pdsForDid w did s = .ok (pds, s')) :
    IsPlcOrWeb did ∧ ∀ did ∈ keys s'.pdsCache, IsPlcOrWeb did := by
  rw [Resolver.pdsForDid] at h
  cases hcached : (s.pdsCache.lookup did).filter (· ≠ "") with
  | some cached =>
    rw [hcached] at h
    obtain ⟨rfl, rfl⟩ := Prod.mk.inj (Except.ok.inj h)
    obtain ⟨hlookup, -⟩ := Option.filter_eq_some_iff.1 hcached
    exact ⟨hcache did (lookup_isSome_iff.1 (Option.isSome_of_eq_some hlookup)), hcache⟩
  | none =>
    rw [hcached] at h
    obtain ⟨doc, hdoc, h⟩ := bind_eq_ok.1 h
    cases doc with
    | none => cases h
    | some doc =>
      have hdid := honly.document _ _ _ hdoc
      dsimp only at h
      cases hpds : doc.filter (· ≠ "") with
      | none =>
        rw [hpds] at h
        cases h
      | some pds' =>
        rw [hpds] at h
        obtain ⟨rfl, rfl⟩ := Prod.mk.inj (Except.ok.inj h)
        refine ⟨hdid, fun did' hdid' => ?_⟩
        by_cases heq : did' = did
        · exact heq ▸ hdid
        · rw [← lookup_isSome_iff, lookup_set, if_neg heq, lookup_isSome_iff] at hdid'
          exact hcache did' hdid'

/-- Only identifiers that resolve are in the cache. -/
theorem Reached.isPlcOrWeb (honly : PlcOrWebOnly deps w) (h : Reached w s) :
    ∀ did ∈ keys s.pdsCache, IsPlcOrWeb did := by
  induction h with
  | start => exact fun did h => absurd h List.not_mem_nil
  | found _ hfound ih => exact (isPlcOrWeb_of_pdsForDid honly ih hfound).2
  | asked _ ih => exact ih

theorem IsPlcOrWeb.authority (h : IsPlcOrWeb did) : IsPlcOrWeb (authority did) := by
  have hpre : ∀ {p : List Char}, p <+: did.toList → (∀ c ∈ p, decide (c ≠ '#') = true) →
      p <+: (ServiceAuth.authority did).toList := by
    rintro p ⟨rest, hrest⟩ hp
    rw [ServiceAuth.authority, String.toList_ofList, ← hrest, List.takeWhile_append_of_pos hp]
    exact List.prefix_append _ _
  rcases h with h | h
  · exact .inl (hpre h (List.forall_iff_forall_mem.1 (by decide)))
  · exact .inr (hpre h (List.forall_iff_forall_mem.1 (by decide)))

/-- The issuer of a request that is let in is the authority, and resolves. -/
theorem authorize_eq_ok (honly : PlcOrWebOnly deps w)
    (h : authorize P text now authHeader deps lxm serviceIds recordUri = .ok auth) :
    auth.1 = atUriAuthority recordUri ∧ IsPlcOrWeb auth.1 := by
  obtain ⟨result, hresult, h⟩ := bind_eq_ok.1 h
  split_ifs at h with hissuer
  obtain rfl := Except.ok.inj h
  obtain ⟨_, iss, n, key, -, hiss, hkey, -⟩ := verifyFor_eq_ok (mapError_eq_ok.1 hresult)
  refine ⟨not_not.1 hissuer, ?_⟩
  rw [hiss]
  exact (honly.key n iss key hkey).authority

/-- The record that is resolved for a request is asked for in the repository of its issuer. -/
theorem asked_of_author (honly : PlcOrWebOnly deps w)
    (hauth : authorize P text now authHeader deps lxm serviceIds recordUri = .ok auth)
    (hs : Reached w s) {expectVersion : Option String} {ref : RecordRef}
    (huri : ref.uri = some (.text recordUri)) {resolved : RecordMap × ResolverState}
    (hresolve : Resolver.resolve w expectVersion ref s = .ok resolved) :
    (parseAtUri recordUri).repo = auth.1 ∧
      ∃ pds s' res, Resolver.pdsForDid w auth.1 s = .ok (pds, s') ∧
        w.getRecord s'.asked ⟨pds, auth.1, (parseAtUri recordUri).collection,
          (parseAtUri recordUri).rkey, ref.cid⟩ = .ok res := by
  obtain ⟨hissuer, hresolves⟩ := authorize_eq_ok honly hauth
  obtain ⟨_, hfetch, -⟩ := bind_eq_ok.1 hresolve
  rw [Resolver.fetch, huri] at hfetch
  obtain ⟨⟨pds, s'⟩, hpds, hfetch⟩ := bind_eq_ok.1 hfetch
  obtain ⟨res, hres, -⟩ := bind_eq_ok.1 hfetch
  have hrepo := (isPlcOrWeb_of_pdsForDid honly (hs.isPlcOrWeb honly) hpds).1
  have heq : (parseAtUri recordUri).repo = auth.1 :=
    (repo_eq_atUriAuthority (hissuer ▸ hresolves) hrepo).trans hissuer.symm
  exact ⟨heq, pds, s', res, heq ▸ hpds, heq ▸ hres⟩

end

/-! ## A bidder -/

def aliceSigner : Signer := ⟨"did:plc:alice", id⟩

/-- A relay that knows the key of one bidder. -/
def aliceDeps : MarketServerDeps where
  hostname := "relay.example"
  audienceDids := []
  resolveAtprotoKey _ did := if did = "did:plc:alice" then .ok sampleKey else .error "unknown"

def aliceWorld : World where
  didDocument _ did := .ok (if did = "did:plc:alice" then some (some "https://pds.example") else none)
  getRecord _ req := .ok ⟨[], "at://" ++ req.repo ++ "/com.example.bid/1", none⟩

def aliceUri : String := "at://did:plc:alice/com.example.bid/1"

theorem plcOrWebOnly_alice : PlcOrWebOnly aliceDeps aliceWorld where
  key n did key h := by
    rw [aliceDeps] at h
    dsimp only at h
    split_ifs at h with hdid
    subst hdid
    exact .inl (by decide)
  document n did doc h := by
    rw [aliceWorld] at h
    dsimp only at h
    split_ifs at h with hdid
    · subst hdid
      exact .inl (by decide)
    · cases h

/-- A token of the bidder lets its record in. -/
theorem authorize_alice (text : ServiceAuth.Thrown → String) :
    authorize samplePlatform text 0 (some ("Bearer " ++ String.ofList (signServiceAuth samplePlatform
      aliceSigner 0 [] ⟨"did:web:relay.example", some "com.example.submitBid", some 0⟩)))
      aliceDeps "com.example.submitBid" [] aliceUri = .ok ("did:plc:alice", none) := by
  have hmints : Mints samplePlatform aliceSigner sampleKey :=
    ⟨fun message => by simp [samplePlatform, aliceSigner], by decide, by decide⟩
  have hverify : verifyMarketServiceAuth samplePlatform 0
      (some ("Bearer " ++ String.ofList (signServiceAuth samplePlatform aliceSigner 0 []
        ⟨"did:web:relay.example", some "com.example.submitBid", some 0⟩)))
      aliceDeps.hostname "com.example.submitBid" [] [] aliceDeps.resolveAtprotoKey =
        .ok ⟨authority aliceSigner.did, "did:web:relay.example", none⟩ := by
    have hresolve : aliceDeps.resolveAtprotoKey 0 aliceSigner.did = .ok sampleKey := by
      rw [aliceDeps, aliceSigner]
      rfl
    have haud : ([serviceDidForHost aliceDeps.hostname].foldl (accept []) []).lookup
        "did:web:relay.example" = some none := by decide
    exact @verifyFor_signServiceAuth samplePlatform aliceSigner sampleKey 0 0 "com.example.submitBid"
      _ aliceDeps.resolveAtprotoKey 0 [] ⟨"did:web:relay.example", some "com.example.submitBid", some 0⟩
      Json.readsBack_exactText hmints rfl (by decide) toDouble_expiry le_rfl hresolve none haud
  have hissuer : authority aliceSigner.did = "did:plc:alice" := by decide
  have hauthority : atUriAuthority aliceUri = "did:plc:alice" := by decide
  refine bind_eq_ok.2 ⟨_, mapError_eq_ok.2 hverify, ?_⟩
  dsimp only
  rw [hissuer, hauthority]
  rfl

theorem asked_of_author_alice : (parseAtUri aliceUri).repo = "did:plc:alice" ∧
    ∃ pds s' res, Resolver.pdsForDid aliceWorld "did:plc:alice" ⟨[], 0⟩ = .ok (pds, s') ∧
      aliceWorld.getRecord s'.asked ⟨pds, "did:plc:alice", (parseAtUri aliceUri).collection,
        (parseAtUri aliceUri).rkey, none⟩ = .ok res :=
  @asked_of_author samplePlatform (fun _ => "") 0 _ aliceDeps "com.example.submitBid" aliceUri []
    ("did:plc:alice", none) aliceWorld ⟨[], 0⟩ plcOrWebOnly_alice (authorize_alice fun _ => "") .start
    none ⟨some (.text aliceUri), none⟩ rfl _ rfl

end ComputeContract.Market.Author
