import ComputeContract.Market.Resolve

/-!
# The contract graph

`resolveContractGraph` fetches the records that an accept references and checks that the bid
names the same RFP and that the bid and the RFP are signed. What it returns is annotated with
the `uri` and the `cid` of the responses, and signatures are checked against the authority of
that `uri`: a server may answer with another record.

* `resolveContractGraph_eq_ok`: the answers that a graph is made of, and what was checked;
* `graph_integrity_iff`: the graph is the one that the accept names exactly when the bid and the
  RFP were answered with what was asked for.
-/

namespace ComputeContract.Market

open AssocList Attest

structure ContractGraph where
  bid : RecordMap
  rfp : RecordMap
  rfpPayload : RecordMap
  bidPayload : RecordMap
  bidConfig : Option RecordMap

structure GraphOptions where
  verifySignatures : Option Bool
  keysForDid : Option (String → List String)

/-- `atUriAuthority(record._uri)` -/
def resolvedAuthority (record : RecordMap) : String :=
  match record.lookup "_uri" with
  | some (.text uri) => atUriAuthority uri
  | _ => ""

section
variable (P : Primitives) (keyResolver : String → Except String KeyData) (w : World)
  (expectVersion : Option String) (opts : GraphOptions)

/-- `resolve.resolve({ uri: o.name.uri, cid: o.name.cid })` -/
def resolveProperty (o : Option Value) (name : String) (s : ResolverState) :
    Except String (RecordMap × ResolverState) := do
  let ref ← refOf (← get o name)
  Resolver.resolve w expectVersion ref s

/-- The checks of the signatures of the bid and the RFP. -/
def verifyGraph (bid rfp : RecordMap) : Except String Unit :=
  let signed record := verifyRecordSignatures P keyResolver opts.keysForDid (stripResolved record)
    (resolvedAuthority record)
  if opts.verifySignatures = some false then .ok ()
  else if ¬ signed bid then .error "Bid is missing a valid badge.blue signature"
  else if ¬ signed rfp then .error "RFP is missing a valid badge.blue signature"
  else .ok ()

/-- Resolve every record an accept references and verify their consistency. -/
def resolveContractGraph (accept : RecordMap) (s : ResolverState) :
    Except String (ContractGraph × ResolverState) := do
  let (bid, s) ← resolveProperty w expectVersion (some (.object accept)) "bid" s
  let same ← refsEqual (← get (some (.object bid)) "rfp") (← get (some (.object accept)) "rfp")
  if ¬ same then .error "Accept.rfp does not match Bid.rfp"
  let (rfp, s) ← resolveProperty w expectVersion (some (.object accept)) "rfp" s
  verifyGraph P keyResolver opts bid rfp
  let (rfpPayload, s) ← resolveProperty w expectVersion (some (.object rfp)) "payload" s
  let (bidPayload, s) ← resolveProperty w expectVersion (some (.object bid)) "payload" s
  if truthy (field (some bid) "config") then do
    let (bidConfig, s) ← resolveProperty w expectVersion (some (.object bid)) "config" s
    return (⟨bid, rfp, rfpPayload, bidPayload, some bidConfig⟩, s)
  else return (⟨bid, rfp, rfpPayload, bidPayload, none⟩, s)

end

/-! ## Integrity -/

/-- A resolved record is the one that a ref names: by its `uri`, its `cid` and its content. -/
structure Named (P : Primitives) (ref : RecordRef) (record : RecordMap) : Prop where
  uri : record.lookup "_uri" = ref.uri
  cid : record.lookup "_cid" = ref.cid
  content : ∃ cid, createDagCborCid P.encode (.object (stripResolved record)) = .ok cid ∧
    ref.cid = some (.text cid.toString)

/-- The record named by a property of the accept, signed in the repository of its ref. -/
def Referenced (P : Primitives) (keyResolver : String → Except String KeyData)
    (keysForDid : Option (String → List String)) (accept : RecordMap) (name : String)
    (record : RecordMap) : Prop :=
  ∃ o ref uri, get (some (.object accept)) name = .ok o ∧ refOf o = .ok ref ∧
    ref.uri = some (.text uri) ∧ Named P ref record ∧
    verifyRecordSignatures P keyResolver keysForDid (stripResolved record) (atUriAuthority uri)

/-- What the graph of an accept should be. -/
structure Integrity (P : Primitives) (keyResolver : String → Except String KeyData)
    (keysForDid : Option (String → List String)) (accept : RecordMap) (graph : ContractGraph) :
    Prop where
  bid : Referenced P keyResolver keysForDid accept "bid" graph.bid
  rfp : Referenced P keyResolver keysForDid accept "rfp" graph.rfp
  same : ∃ o o', get (some (.object graph.bid)) "rfp" = .ok o ∧
    get (some (.object accept)) "rfp" = .ok o' ∧ refsEqual o o' = .ok true

/-- A response is to a ref what it asks for. -/
structure Answers (P : Primitives) (ref : RecordRef) (res : GetRecordResponse) : Prop where
  uri : some (.text res.uri) = ref.uri
  cid : res.cid = none ∨ res.cid.map Value.text = ref.cid
  content : ∃ cid, createDagCborCid P.encode (.object (stripResolved res.value)) = .ok cid ∧
    ref.cid = some (.text cid.toString)

/-- The servers answer what is asked for by a property of the accept. -/
def AnswersFor (P : Primitives) (w : World) (accept : RecordMap) (name : String)
    (s : ResolverState) : Prop :=
  ∀ o ref res s', get (some (.object accept)) name = .ok o → refOf o = .ok ref →
    Resolver.fetch w ref s = .ok (res, s') → Answers P ref res

/-- So they do for the bid, and then for the RFP. -/
def Honest (P : Primitives) (w : World) (expectVersion : Option String) (accept : RecordMap)
    (s : ResolverState) : Prop :=
  AnswersFor P w accept "bid" s ∧
    ∀ bid s', resolveProperty w expectVersion (some (.object accept)) "bid" s = .ok (bid, s') →
      AnswersFor P w accept "rfp" s'

section
variable {P : Primitives} {keyResolver : String → Except String KeyData} {w : World}
  {expectVersion : Option String} {opts : GraphOptions} {accept : RecordMap}
  {s s' : ResolverState} {graph : ContractGraph}

/-- The annotated record is the one that is named exactly when the response answers the ref. -/
theorem named_annotate_iff {ref : RecordRef} {res : GetRecordResponse} :
    Named P ref (Resolver.annotate ref res) ↔ Answers P ref res := by
  constructor
  · rintro ⟨huri, hcid, cid, hcontent, href⟩
    rw [Resolver.lookup_uri_annotate] at huri
    rw [Resolver.lookup_cid_annotate] at hcid
    rw [Resolver.stripResolved_annotate] at hcontent
    refine ⟨huri, ?_, cid, hcontent, href⟩
    rcases hres : res.cid with _ | c
    · exact .inl rfl
    · rw [hres] at hcid
      exact .inr hcid
  · rintro ⟨huri, hcid, cid, hcontent, href⟩
    refine ⟨by rw [Resolver.lookup_uri_annotate, huri], ?_, cid, by rw [Resolver.stripResolved_annotate, hcontent],
      href⟩
    rw [Resolver.lookup_cid_annotate, href]
    rcases hcid with hcid | hcid
    · rw [hcid]
      rfl
    · rw [hcid, href]
      rfl

theorem resolveProperty_eq_ok {o : Option Value} {name : String} {record : RecordMap}
    (h : resolveProperty w expectVersion o name s = .ok (record, s')) :
    ∃ v ref res uri, get o name = .ok v ∧ refOf v = .ok ref ∧ ref.uri = some (.text uri) ∧
      Resolver.fetch w ref s = .ok (res, s') ∧ record = Resolver.annotate ref res := by
  obtain ⟨v, hv, h⟩ := bind_eq_ok.1 h
  obtain ⟨ref, href, h⟩ := bind_eq_ok.1 h
  obtain ⟨⟨res, s₁⟩, hfetch, h⟩ := bind_eq_ok.1 h
  obtain ⟨-, -, h⟩ := bind_eq_ok.1 h
  obtain ⟨rfl, rfl⟩ := Prod.mk.inj (Except.ok.inj h)
  obtain ⟨uri, huri⟩ : ∃ uri, ref.uri = some (.text uri) := by
    unfold Resolver.fetch at hfetch
    split at hfetch
    · next uri huri => exact ⟨uri, huri⟩
    · cases hfetch
  exact ⟨v, ref, res, uri, hv, href, huri, hfetch, rfl⟩

/-- What was checked of a graph that is returned. -/
theorem resolveContractGraph_eq_ok
    (h : resolveContractGraph P keyResolver w expectVersion opts accept s = .ok (graph, s')) :
    ∃ s₁ s₂, resolveProperty w expectVersion (some (.object accept)) "bid" s = .ok (graph.bid, s₁) ∧
      resolveProperty w expectVersion (some (.object accept)) "rfp" s₁ = .ok (graph.rfp, s₂) ∧
      verifyGraph P keyResolver opts graph.bid graph.rfp = .ok () ∧
      ∃ o o', get (some (.object graph.bid)) "rfp" = .ok o ∧
        get (some (.object accept)) "rfp" = .ok o' ∧ refsEqual o o' = .ok true := by
  obtain ⟨⟨bid, s₁⟩, hbid, h⟩ := bind_eq_ok.1 h
  obtain ⟨o, ho, h⟩ := bind_eq_ok.1 h
  obtain ⟨o', ho', h⟩ := bind_eq_ok.1 h
  obtain ⟨same, hsame, h⟩ := bind_eq_ok.1 h
  cases same with
  | false => cases h
  | true =>
    obtain ⟨⟨rfp, s₂⟩, hrfp, h⟩ := bind_eq_ok.1 h
    obtain ⟨⟨⟩, hverify, h⟩ := bind_eq_ok.1 h
    obtain ⟨⟨rfpPayload, s₃⟩, -, h⟩ := bind_eq_ok.1 h
    obtain ⟨⟨bidPayload, s₄⟩, -, h⟩ := bind_eq_ok.1 h
    suffices hgraph : graph.bid = bid ∧ graph.rfp = rfp by
      obtain ⟨rfl, rfl⟩ := hgraph
      exact ⟨s₁, s₂, hbid, hrfp, hverify, o, o', ho, ho', hsame⟩
    split_ifs at h
    · obtain ⟨⟨bidConfig, s₅⟩, -, h⟩ := bind_eq_ok.1 h
      obtain ⟨rfl, -⟩ := Prod.mk.inj (Except.ok.inj h)
      exact ⟨rfl, rfl⟩
    · obtain ⟨rfl, -⟩ := Prod.mk.inj (Except.ok.inj h)
      exact ⟨rfl, rfl⟩

/-- A record that is signed for the authority of its response is the one that is named, and
    signed in the repository of the ref, exactly when the server answers what is asked for. -/
theorem referenced_iff {name : String} {record : RecordMap}
    (h : resolveProperty w expectVersion (some (.object accept)) name s = .ok (record, s'))
    (hsigned : verifyRecordSignatures P keyResolver opts.keysForDid (stripResolved record)
      (resolvedAuthority record)) :
    Referenced P keyResolver opts.keysForDid accept name record ↔ AnswersFor P w accept name s := by
  obtain ⟨o, ref, res, uri, ho, href, huri, hfetch, rfl⟩ := resolveProperty_eq_ok h
  constructor
  · rintro ⟨o₁, ref₁, uri₁, ho₁, href₁, -, hnamed, -⟩ o₂ ref₂ res₂ s₂ ho₂ href₂ hfetch₂
    -- The ref is that of the accept, and so is the request.
    obtain rfl := Except.ok.inj (ho.symm.trans ho₁)
    obtain rfl := Except.ok.inj (ho.symm.trans ho₂)
    obtain rfl := Except.ok.inj (href.symm.trans href₁)
    obtain rfl := Except.ok.inj (href.symm.trans href₂)
    obtain ⟨rfl, -⟩ := Prod.mk.inj (Except.ok.inj (hfetch.symm.trans hfetch₂))
    exact named_annotate_iff.1 hnamed
  · intro hanswers
    have hres := hanswers o ref res s' ho href hfetch
    refine ⟨o, ref, uri, ho, href, huri, named_annotate_iff.2 hres, ?_⟩
    have hauthority : resolvedAuthority (Resolver.annotate ref res) = atUriAuthority uri := by
      rw [resolvedAuthority, Resolver.lookup_uri_annotate, hres.uri, huri]
    rwa [hauthority] at hsigned

/-- The graph that is returned is the one that the accept names exactly when the servers answer
    what is asked for. -/
theorem graph_integrity_iff (hverify : opts.verifySignatures ≠ some false)
    (h : resolveContractGraph P keyResolver w expectVersion opts accept s = .ok (graph, s')) :
    Integrity P keyResolver opts.keysForDid accept graph ↔ Honest P w expectVersion accept s := by
  obtain ⟨s₁, s₂, hbid, hrfp, hgraph, hsame⟩ := resolveContractGraph_eq_ok h
  unfold verifyGraph at hgraph
  simp only [if_neg hverify] at hgraph
  split_ifs at hgraph with hbidSigned hrfpSigned
  have hbidIff := referenced_iff hbid hbidSigned
  have hrfpIff := referenced_iff hrfp hrfpSigned
  constructor
  · rintro ⟨hb, hr, -⟩
    refine ⟨hbidIff.1 hb, fun bid s₁' hbid' => ?_⟩
    obtain ⟨-, rfl⟩ := Prod.mk.inj (Except.ok.inj (hbid.symm.trans hbid'))
    exact hrfpIff.1 hr
  · rintro ⟨hb, hr⟩
    exact ⟨hbidIff.2 hb, hrfpIff.2 (hr _ _ hbid), hsame⟩

end

/-! ## A bid and its RFP -/

/-- The record of an RFP in the repository of Alice. -/
def sampleRfp : RecordMap :=
  [("$type", .text "com.publicdomainrelay.temp.market.rfp"),
    ("payload", .object [("uri", .text "at://did:plc:alice/com.publicdomainrelay.temp.compute.vm/1"),
      ("cid", .text "bafyreibnmoc2dvo7rqpxateyui4yjo3psdplmymp7hos4zrhhcn72ebl3a")]),
    ("signatures", .array [.object (sampleEntry requesterKey)])]

def sampleRfpUri : String := "at://did:plc:alice/com.publicdomainrelay.temp.market.rfp/1"

/-- The record of a bid for it in the repository of Mallory. -/
def sampleBid (rfpCid : String) : RecordMap :=
  [("$type", .text "com.publicdomainrelay.temp.market.bid"),
    ("rfp", .object [("uri", .text sampleRfpUri), ("cid", .text rfpCid)]),
    ("payload", .object
      [("uri", .text "at://did:plc:mallory/com.publicdomainrelay.temp.market.bids.free/1"),
        ("cid", .text "bafyreigzpkut4vzuke3hl7uyzphjufl4pyys25jveg7cvbifmmafp2iihq")]),
    ("signatures", .array [.object (sampleEntry bidderKey)])]

def sampleBidUri : String := "at://did:plc:mallory/com.publicdomainrelay.temp.market.bid/1"

def sampleAnswer (rfpCid : String) : ℕ → GetRecordResponse
  | 0 => ⟨sampleBid rfpCid, sampleBidUri, none⟩
  | 1 => ⟨sampleRfp, sampleRfpUri, none⟩
  | _ => ⟨[], "at://did:plc:alice/app.other/1", none⟩

/-- The records are served one after the other, whatever is asked for. -/
def sampleWorld (rfpCid : String) : World where
  didDocument _ _ := .ok (some (some "https://pds.example"))
  getRecord n _ := .ok (sampleAnswer rfpCid n)

def sampleAccept (bidUri bidCid rfpCid : String) : RecordMap :=
  [("bid", .object [("uri", .text bidUri), ("cid", .text bidCid)]),
    ("rfp", .object [("uri", .text sampleRfpUri), ("cid", .text rfpCid)])]

theorem sampleRfp_signed (ref : RecordRef) :
    verifyRecordSignatures samplePrimitives (parseDidKey samplePrimitives) none
      (stripResolved (Resolver.annotate ref ⟨sampleRfp, sampleRfpUri, none⟩))
      (resolvedAuthority (Resolver.annotate ref ⟨sampleRfp, sampleRfpUri, none⟩)) := by
  rw [Resolver.stripResolved_annotate, resolvedAuthority, Resolver.lookup_uri_annotate]
  exact sample_signed (sampleKey_mem _) rfl rfl (by decide +kernel)

/-- The fields of the bid are plain, and so is what is signed of it. -/
theorem plainFields_sampleBid {rfpCid : String} (hcid : Cbor.plainText rfpCid) {rest : RecordMap}
    (hrest : Cbor.plainFields rest) : Cbor.plainFields ((sampleBid rfpCid).take 3 ++ rest) := by
  have hrfp : Cbor.plain (.object [("uri", .text sampleRfpUri), ("cid", .text rfpCid)]) :=
    Cbor.plain_object.2 ⟨(by decide : 2 < 2 ^ 31), (by decide : ["uri", "cid"].Nodup), rfl,
      Cbor.plainFields_cons (by decide +kernel) (by decide +kernel)
        (Cbor.plainFields_cons (by decide +kernel) hcid rfl)⟩
  exact Cbor.plainFields_cons (by decide +kernel) (by decide +kernel)
    (Cbor.plainFields_cons (by decide +kernel) hrfp
      (Cbor.plainFields_cons (by decide +kernel) (by decide +kernel) hrest))

theorem sampleBid_signed {rfpCid : String} (hcid : Cbor.plainText rfpCid) (ref : RecordRef) :
    verifyRecordSignatures samplePrimitives (parseDidKey samplePrimitives) none
      (stripResolved (Resolver.annotate ref ⟨sampleBid rfpCid, sampleBidUri, none⟩))
      (resolvedAuthority (Resolver.annotate ref ⟨sampleBid rfpCid, sampleBidUri, none⟩)) := by
  have hpre : preimage (stripResolved (sampleBid rfpCid)) (sampleEntry bidderKey)
      (atUriAuthority sampleBidUri) none = .ok ((sampleBid rfpCid).take 3 ++ [("$sig", .object
        [("$type", .text DEFAULT_SIGNATURE_TYPE),
          ("key", .text ("did:key:" ++ bidderKey.multibase)),
          ("repository", .text (atUriAuthority sampleBidUri))])]) := rfl
  rw [Resolver.stripResolved_annotate, resolvedAuthority, Resolver.lookup_uri_annotate]
  refine sample_signed (sampleKey_mem _) rfl hpre (Cbor.plain_object.2 ⟨?_, ?_, rfl, ?_⟩)
  · exact (by decide : 4 < 2 ^ 31)
  · exact (by decide : ["$type", "rfp", "payload", "$sig"].Nodup)
  · exact plainFields_sampleBid hcid (by decide +kernel)

theorem fetch_sample (rfpCid : String) {ref : RecordRef} {uri : String}
    (huri : ref.uri = some (.text uri)) (s : ResolverState) :
    ∃ s', s'.asked = s.asked + 1 ∧
      Resolver.fetch (sampleWorld rfpCid) ref s = .ok (sampleAnswer rfpCid s.asked, s') :=
  Resolver.fetch_serve (sampleAnswer rfpCid) huri s

theorem resolve_sample (rfpCid : String) {ref : RecordRef} {uri : String}
    (huri : ref.uri = some (.text uri)) (s : ResolverState) :
    ∃ s', s'.asked = s.asked + 1 ∧ Resolver.resolve (sampleWorld rfpCid) none ref s =
      .ok (Resolver.annotate ref (sampleAnswer rfpCid s.asked), s') :=
  Resolver.resolve_serve (sampleAnswer rfpCid) huri s

/-- A graph is returned for the accept of the sample, wherever it says the bid is. -/
theorem sampleGraph_ok (bidUri bidCid : String) {rfpCid : String} (hcid : Cbor.plainText rfpCid) :
    ∃ graph s', graph.bid = Resolver.annotate ⟨some (.text bidUri), some (.text bidCid)⟩
        (sampleAnswer rfpCid 0) ∧
      resolveContractGraph samplePrimitives (parseDidKey samplePrimitives) (sampleWorld rfpCid)
        none ⟨none, none⟩ (sampleAccept bidUri bidCid rfpCid) ⟨[], 0⟩ = .ok (graph, s') := by
  -- The ref of each record that is resolved, in order.
  let bidRef : RecordRef := ⟨some (.text bidUri), some (.text bidCid)⟩
  let rfpRef : RecordRef := ⟨some (.text sampleRfpUri), some (.text rfpCid)⟩
  let vmRef : RecordRef :=
    ⟨some (.text "at://did:plc:alice/com.publicdomainrelay.temp.compute.vm/1"),
      some (.text "bafyreibnmoc2dvo7rqpxateyui4yjo3psdplmymp7hos4zrhhcn72ebl3a")⟩
  let freeRef : RecordRef :=
    ⟨some (.text "at://did:plc:mallory/com.publicdomainrelay.temp.market.bids.free/1"),
      some (.text "bafyreigzpkut4vzuke3hl7uyzphjufl4pyys25jveg7cvbifmmafp2iihq")⟩
  obtain ⟨s₁, h₁, hbid⟩ := resolve_sample rfpCid (rfl : bidRef.uri = _) ⟨[], 0⟩
  obtain ⟨s₂, -, hrfp⟩ := resolve_sample rfpCid (rfl : rfpRef.uri = _) s₁
  obtain ⟨s₃, -, hvm⟩ := resolve_sample rfpCid (rfl : vmRef.uri = _) s₂
  obtain ⟨s₄, -, hfree⟩ := resolve_sample rfpCid (rfl : freeRef.uri = _) s₃
  simp only [Nat.zero_add] at h₁
  rw [h₁] at hrfp
  have hsame : (refOf (some (.object [("uri", .text sampleRfpUri), ("cid", .text rfpCid)])) >>=
      fun a => refOf (some (.object [("uri", .text sampleRfpUri), ("cid", .text rfpCid)])) >>=
      fun b => pure (strictEq a.uri b.uri && strictEq a.cid b.cid)) = Except.ok true := by
    have hcid : decide (rfpCid = rfpCid) = true := decide_eq_true rfl
    change Except.ok (decide (sampleRfpUri = sampleRfpUri) && decide (rfpCid = rfpCid)) = _
    rw [hcid]
    rfl
  have hverify : verifyGraph samplePrimitives (parseDidKey samplePrimitives) ⟨none, none⟩
      (Resolver.annotate bidRef (sampleAnswer rfpCid 0))
      (Resolver.annotate rfpRef (sampleAnswer rfpCid 1)) = .ok () := by
    have hb := sampleBid_signed hcid bidRef
    have hr := sampleRfp_signed rfpRef
    unfold verifyGraph
    simp only [sampleAnswer, hb, hr]
    rfl
  refine ⟨⟨Resolver.annotate bidRef (sampleAnswer rfpCid 0),
    Resolver.annotate rfpRef (sampleAnswer rfpCid 1),
    Resolver.annotate vmRef (sampleAnswer rfpCid s₂.asked),
    Resolver.annotate freeRef (sampleAnswer rfpCid s₃.asked), none⟩, s₄, rfl, ?_⟩
  refine bind_eq_ok.2 ⟨(_, s₁), bind_eq_ok.2 ⟨_, rfl, hbid⟩, ?_⟩
  refine bind_eq_ok.2 ⟨_, rfl, bind_eq_ok.2 ⟨_, rfl, bind_eq_ok.2 ⟨true, hsame, ?_⟩⟩⟩
  refine bind_eq_ok.2 ⟨(_, s₂), bind_eq_ok.2 ⟨_, rfl, hrfp⟩, bind_eq_ok.2 ⟨(), hverify, ?_⟩⟩
  exact bind_eq_ok.2 ⟨(_, s₃), bind_eq_ok.2 ⟨_, rfl, hvm⟩,
    bind_eq_ok.2 ⟨(_, s₄), bind_eq_ok.2 ⟨_, rfl, hfree⟩, rfl⟩⟩

/-- The CID string of a record. -/
def sampleCid (record : RecordMap) : String :=
  match createDagCborCid sampleEncode (.object record) with
  | .ok cid => cid.toString
  | .error _ => ""

theorem sampleCid_eq {record : RecordMap} (h : Cbor.plain (.object record)) :
    ∃ cid, createDagCborCid sampleEncode (.object record) = .ok cid ∧
      sampleCid record = cid.toString ∧ Cbor.plainText (sampleCid record) := by
  obtain ⟨bytes, hbytes, -⟩ := Cbor.decode_encode h
  have hencode : sampleEncode (.object record) = .ok bytes := (if_pos h).trans hbytes
  have hcid : createDagCborCid sampleEncode (.object record) = .ok (cidForBytes bytes) :=
    bind_eq_ok.2 ⟨bytes, hencode, rfl⟩
  have hsample : sampleCid record = (cidForBytes bytes).toString := by
    rw [sampleCid, hcid]
  exact ⟨_, hcid, hsample, hsample ▸ plainText_cidForBytes bytes⟩

/-- The servers of the sample answer what is asked for. -/
theorem graph_integrity_sample : ∃ accept graph s',
    resolveContractGraph samplePrimitives (parseDidKey samplePrimitives)
      (sampleWorld (sampleCid sampleRfp)) none ⟨none, none⟩ accept ⟨[], 0⟩ = .ok (graph, s') ∧
    Integrity samplePrimitives (parseDidKey samplePrimitives) none accept graph := by
  have hrfpPlain : Cbor.plain (.object sampleRfp) := by decide +kernel
  obtain ⟨rfpCid, hrfpContent, hrfpCid, hplain⟩ := sampleCid_eq hrfpPlain
  have hbidPlain : Cbor.plain (.object (sampleBid (sampleCid sampleRfp))) :=
    Cbor.plain_object.2 ⟨(by decide : 4 < 2 ^ 31),
      (by decide : ["$type", "rfp", "payload", "signatures"].Nodup), rfl,
      plainFields_sampleBid hplain (by decide +kernel)⟩
  obtain ⟨bidCid, hbidContent, hbidCid, -⟩ := sampleCid_eq hbidPlain
  obtain ⟨graph, s', -, hgraph⟩ :=
    sampleGraph_ok sampleBidUri (sampleCid (sampleBid (sampleCid sampleRfp))) hplain
  obtain ⟨s₁, h₁, hfetch₁⟩ := fetch_sample (sampleCid sampleRfp)
    (rfl : (RecordRef.mk (some (.text sampleBidUri))
      (some (.text (sampleCid (sampleBid (sampleCid sampleRfp)))))).uri = _) ⟨[], 0⟩
  have hbid : AnswersFor samplePrimitives (sampleWorld (sampleCid sampleRfp))
      (sampleAccept sampleBidUri (sampleCid (sampleBid (sampleCid sampleRfp)))
        (sampleCid sampleRfp)) "bid" ⟨[], 0⟩ := by
    intro o ref res s₂ ho href hfetch
    obtain rfl := Except.ok.inj ho
    obtain rfl := Except.ok.inj href
    obtain ⟨rfl, -⟩ := Prod.mk.inj (Except.ok.inj (hfetch₁.symm.trans hfetch))
    exact ⟨rfl, .inl rfl, bidCid, hbidContent, congrArg (fun c => some (Value.text c)) hbidCid⟩
  refine ⟨_, graph, s', hgraph, (graph_integrity_iff (by decide) hgraph).2 ⟨hbid, ?_⟩⟩
  intro bid s₂ hresolve o ref res s₃ ho href hfetch
  -- The bid was asked for before.
  have hasked : s₂.asked = 1 := by
    obtain ⟨o', ref', res', -, ho', href', -, hfetch', -⟩ := resolveProperty_eq_ok hresolve
    obtain rfl := Except.ok.inj ho'
    obtain rfl := Except.ok.inj href'
    obtain ⟨-, rfl⟩ := Prod.mk.inj (Except.ok.inj (hfetch₁.symm.trans hfetch'))
    exact h₁
  obtain rfl := Except.ok.inj ho
  obtain rfl := Except.ok.inj href
  obtain ⟨s₄, -, hfetch₂⟩ := fetch_sample (sampleCid sampleRfp)
    (rfl : (RecordRef.mk (some (.text sampleRfpUri)) (some (.text (sampleCid sampleRfp)))).uri = _) s₂
  obtain ⟨rfl, -⟩ := Prod.mk.inj (Except.ok.inj (hfetch₂.symm.trans hfetch))
  rw [hasked]
  exact ⟨rfl, .inl rfl, rfpCid, hrfpContent, congrArg (fun c => some (Value.text c)) hrfpCid⟩

/-- The server of Bob answers with a bid of Mallory, in whose repository it is signed. -/
theorem graph_of_another : ¬ ∀ (P : Primitives) (keyResolver : String → Except String KeyData)
    (w : World) (expectVersion : Option String) (accept : RecordMap) (s s' : ResolverState)
    (graph : ContractGraph), P.Lawful →
    resolveContractGraph P keyResolver w expectVersion ⟨none, none⟩ accept s = .ok (graph, s') →
    Integrity P keyResolver none accept graph := by
  intro hall
  obtain ⟨graph, s', hbid, hgraph⟩ :=
    sampleGraph_ok "at://did:plc:bob/com.publicdomainrelay.temp.market.bid/1"
      "bafyreifhu2mkxot7xtcpuqtxd2cumxavbbeg325dqybbskwbovbqmyzdl4"
      (by decide +kernel :
        Cbor.plainText "bafyreifpuax47h4teyii6kkchm6gwthp3qxobdo46gqcjkbejhfc4lfwze")
  obtain ⟨o, ref, uri, ho, href, -, hnamed, -⟩ :=
    (hall _ _ _ _ _ _ _ _ samplePrimitives_lawful hgraph).bid
  obtain rfl := Except.ok.inj ho
  obtain rfl := Except.ok.inj href
  have huri := hnamed.uri
  rw [hbid, Resolver.lookup_uri_annotate] at huri
  have hsame : sampleBidUri = "at://did:plc:bob/com.publicdomainrelay.temp.market.bid/1" :=
    Value.text.inj (Option.some.inj huri)
  exact absurd hsame (by decide)

end ComputeContract.Market
