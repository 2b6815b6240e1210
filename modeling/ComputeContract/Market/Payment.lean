import ComputeContract.Attest.Remote
import ComputeContract.Lib.Along
import ComputeContract.Market.Author
import ComputeContract.Market.Requester

/-!
# Payment

A buyer pays for an `accepts` record at the receipt endpoint, which the payment middleware gates,
and the bidder mints a receipt for it: a proof record over the `accepts` record, in its own
repository. The payload of a `market.accept` is such a receipt; before it provisions, the bidder
looks whose it is and computes its CID again. The paid and the free leg do the same with other
names.

* `verifyPayment_minted`: what is minted for the path of an `accepts` record is accepted;
* `settled_paid`: in every run, what is settled is a receipt that was minted for a request that was
  let through, and the `accepts` record is still what it was then.
-/

namespace ComputeContract.Market.Payment

open AssocList Attest

/-! ## The legs -/

/-- What the legs of settlement differ in. -/
structure Leg where
  accepts : String
  receipts : String
  /-- The status of what is not accepted. -/
  status : ℕ
  missing : String
  foreign : String
  unbound : String

def x402 : Leg where
  accepts := "com.publicdomainrelay.temp.market.accepts.x402"
  receipts := "com.publicdomainrelay.temp.market.receipts.x402"
  status := 402
  missing := "Accept.payload (receipts.x402 proof-of-payment) is required"
  foreign := "Accept.payload proof-of-payment must be authored by this bidder"
  unbound := "Accept.payload proof-of-payment CID does not bind to its accepts.x402"

def free : Leg where
  accepts := "com.publicdomainrelay.temp.market.accepts.free"
  receipts := "com.publicdomainrelay.temp.market.receipts.free"
  status := 400
  missing := "Accept.payload (receipts.free proof-of-grant) is required"
  foreign := "Accept.payload proof-of-grant must be authored by this bidder"
  unbound := "Accept.payload proof-of-grant CID does not bind to its accepts.free"

/-- What is thrown: an error with a status, or any other. -/
inductive PaymentError
  | status (status : ℕ) (message : String)
  /-- The message ends with the type that was found. -/
  | unexpected (status : ℕ) (message : String) (found : Option Value)
  | error (message : String)

/-- The URI and the CID that a path ends with; `routePrefix` is dropped from it. -/
def parseReceiptPath (path routePrefix : String) : Except PaymentError (String × String) :=
  let p := path.toList.dropWhile (· = '/')
  let p := if routePrefix ≠ "" ∧ routePrefix.toList.isPrefixOf p then
    p.drop routePrefix.toList.length else p
  -- What is left up to the last slash, from its end.
  match p.reverse.dropWhile (· ≠ '/') with
  | [] | [_] => .error (.status 400 "missing cid")
  | _ :: uri =>
    .ok (String.ofList uri.reverse, String.ofList (p.reverse.takeWhile (· ≠ '/')).reverse)

/-- The calls of a resolver, one after the other. -/
abbrev Resolve := ℕ → RecordRef → Except String RecordMap

def textRef (uri cid : String) : RecordRef := ⟨some (.text uri), some (.text cid)⟩

/-- The metadata of a receipt. -/
def receiptMetadata (leg : Leg) (acceptsUri acceptsCid createdAt : String) : RecordMap :=
  [("$type", .text leg.receipts),
    ("accept", Requester.strongRef (some (.text acceptsUri)) (some (.text acceptsCid))),
    ("createdAt", .text createdAt)]

section
variable (leg : Leg) (P : Primitives) (signer : Attestation) (bidderDid : String)
  (resolve : Resolve)

/-- The receipt for an `accepts` record, and the record. -/
def mintReceipt (acceptsUri acceptsCid createdAt : String) :
    Except PaymentError (RecordMap × RecordMap) := do
  let accepts ← (resolve 0 (textRef acceptsUri acceptsCid)).mapError .error
  let type := field (some accepts) "$type"
  if truthy type ∧ ¬ strictEq type (some (.text leg.accepts)) then
    .error (.unexpected 400 s!"expected {leg.accepts}, got " type)
  else do
    let subject := stripResolved accepts
    let receipt ← (createRemoteProofRecord P signer
      (receiptMetadata leg acceptsUri acceptsCid createdAt) subject (atUriAuthority acceptsUri)
      bidderDid).mapError .error
    return (receipt, subject)

/-- `receipt.$type ?? nsidFromUri(payment.uri)` -/
def receiptNsid (receipt : RecordMap) (uri : Option Value) : Except PaymentError (Option Value) :=
  match field (some receipt) "$type" with
  | none | some .null =>
    match uri with
    | some (.text uri) => .ok ((parseAtUri uri).collection.map .text)
    | _ => .error (.error "TypeError")
  | some type => .ok (some type)

/-- `receipt.accept?.uri` and `receipt.accept?.cid` -/
def acceptRef (receipt : RecordMap) : RecordRef :=
  match get (field (some receipt) "accept") "uri", get (field (some receipt) "accept") "cid" with
  | .ok uri, .ok cid => ⟨uri, cid⟩
  | _, _ => ⟨none, none⟩

/-- Whether the receipt binds to the `accepts` record that it names; that record, if there is
    one. -/
def checkBinding (receipt : RecordMap) : Except PaymentError (Option RecordMap) :=
  let ref := acceptRef receipt
  if truthy ref.uri ∧ truthy ref.cid then do
    let accepts ← (resolve 1 ref).mapError .error
    match ref.uri with
    | some (.text uri) =>
      let subject := stripResolved accepts
      if verifyRemoteProof P subject (atUriAuthority uri) (stripResolved receipt) then
        return some subject
      else .error (.status leg.status leg.unbound)
    | _ => .error (.error "TypeError")
  else .ok none

/-- Verify that the payload of an accept is a receipt of this bidder: the receipt, and the `accepts`
    record that it binds to. -/
def verifyPayment (payment : Option Value) : Except PaymentError (RecordMap × Option RecordMap) :=
  if ¬ truthy payment then .error (.status leg.status leg.missing)
  else do
    let ref ← (refOf payment).mapError .error
    let receipt ← (resolve 0 ref).mapError .error
    let nsid ← receiptNsid receipt ref.uri
    if ¬ strictEq nsid (some (.text leg.receipts)) then
      .error (.unexpected leg.status s!"Accept.payload must be a {leg.receipts}, got " nsid)
    else
      match ref.uri with
      | some (.text uri) =>
        if atUriAuthority uri ≠ bidderDid then .error (.status leg.status leg.foreign)
        else do
          let subject ← checkBinding leg P resolve receipt
          return (receipt, subject)
      | _ => .error (.error "TypeError")

end

/-! ## Paths -/

/-- The path of a record at the endpoint is read back. -/
theorem parseReceiptPath_path {route uri cid : String} (hroute : route ≠ "")
    (hslash : route.toList.head? ≠ some '/') (huri : uri ≠ "") (hcid : '/' ∉ cid.toList) :
    parseReceiptPath ("/" ++ route ++ "/" ++ uri ++ "/" ++ cid) (route ++ "/") =
      .ok (uri, cid) := by
  have hpath : ("/" ++ route ++ "/" ++ uri ++ "/" ++ cid).toList =
      '/' :: ((route ++ "/").toList ++ (uri.toList ++ '/' :: cid.toList)) := by
    simp
  obtain ⟨c, cs, hcs⟩ := List.exists_cons_of_ne_nil fun h => hroute (String.toList_eq_nil_iff.1 h)
  obtain ⟨d, ds, hds⟩ := List.exists_cons_of_ne_nil fun h => huri (String.toList_eq_nil_iff.1 h)
  have hc : c ≠ '/' := fun heq => hslash (by rw [hcs, heq]; rfl)
  have hpre : (route ++ "/").toList = c :: (cs ++ ['/']) := by
    rw [String.toList_append, hcs]
    rfl
  have hdrop : ('/' :: ((route ++ "/").toList ++ (uri.toList ++ '/' :: cid.toList))).dropWhile
      (· = '/') = (route ++ "/").toList ++ (uri.toList ++ '/' :: cid.toList) := by
    rw [List.dropWhile_cons_of_pos (by simp), hpre, List.cons_append,
      List.dropWhile_cons_of_neg (by simpa using hc)]
  have hlast : (uri.toList ++ '/' :: cid.toList).reverse =
      cid.toList.reverse ++ '/' :: uri.toList.reverse := by
    simp
  have hno : ∀ c ∈ cid.toList.reverse, decide (c ≠ '/') = true := fun c hc =>
    decide_eq_true fun heq : c = '/' => hcid (heq ▸ List.mem_reverse.1 hc)
  obtain ⟨e, es, hes⟩ : ∃ e es, uri.toList.reverse = e :: es :=
    List.exists_cons_of_ne_nil fun h => by
      rw [List.reverse_eq_nil_iff, hds] at h
      cases h
  have hroute' : route ++ "/" ≠ "" := by
    rw [ne_eq, ← String.toList_eq_nil_iff, hpre]
    simp
  rw [parseReceiptPath, hpath, hdrop,
    if_pos ⟨hroute', List.isPrefixOf_iff_prefix.2 (List.prefix_append _ _)⟩, List.drop_left, hlast,
    List.dropWhile_append_of_pos hno, List.dropWhile_cons_of_neg (by simp),
    List.takeWhile_append_of_pos hno, List.takeWhile_cons_of_neg (by simp), hes]
  change Except.ok (String.ofList (e :: es).reverse, _) = _
  rw [← hes, List.append_nil, List.reverse_reverse, List.reverse_reverse, String.ofList_toList,
    String.ofList_toList]

/-! ## What is minted -/

section
variable {leg : Leg} {P : Primitives} {signer : Attestation} {bidderDid : String}
  {resolve : Resolve} {acceptsUri acceptsCid createdAt did : String}
  {receipt subject subject' metadata : RecordMap}

/-- A receipt for an `accepts` record, with the CID of that. -/
structure IsReceipt (leg : Leg) (P : Primitives) (acceptsUri acceptsCid : String)
    (subject receipt : RecordMap) : Prop where
  type : field (some receipt) "$type" = some (.text leg.receipts)
  ref : acceptRef receipt = textRef acceptsUri acceptsCid
  cid : ∃ cid, createAttestationCid P.encode subject (erase "signatures" receipt)
      (atUriAuthority acceptsUri) none = .ok cid ∧ receipt.lookup "cid" = some (.text cid.toString)
  plain : stripResolved receipt = receipt

/-- The CID that is written into a proof is that of the proof. -/
theorem createAttestationCid_written {declared : String} {v : Value}
    (hno : "signatures" ∉ keys metadata) : createAttestationCid P.encode subject
      (erase "signatures" (set "signatures" v (set "cid" (.text declared) metadata))) did none =
        createAttestationCid P.encode subject metadata did none := by
  rw [erase_set_self, erase_set_of_ne (by decide), erase_of_not_mem hno]
  refine createAttestationCid_congr ?_
  rw [← preimage_erase_cid, erase_set_self, preimage_erase_cid]

theorem mintReceipt_eq_ok
    (h : mintReceipt leg P signer bidderDid resolve acceptsUri acceptsCid createdAt =
      .ok (receipt, subject)) :
    (∃ accepts, resolve 0 (textRef acceptsUri acceptsCid) = .ok accepts ∧
      subject = stripResolved accepts) ∧ IsReceipt leg P acceptsUri acceptsCid subject receipt := by
  obtain ⟨accepts, haccepts, h⟩ := bind_eq_ok.1 h
  dsimp only at h
  split_ifs at h
  obtain ⟨proof, hproof, h⟩ := bind_eq_ok.1 h
  obtain ⟨rfl, rfl⟩ := Prod.mk.inj (Except.ok.inj h)
  obtain ⟨cid, v, hcid, rfl⟩ := createRemoteProofRecord_eq_ok (mapError_eq_ok.1 hproof)
  refine ⟨⟨accepts, mapError_eq_ok.1 haccepts, rfl⟩, rfl, rfl, ⟨cid, ?_, rfl⟩, rfl⟩
  have hno : "signatures" ∉ keys (receiptMetadata leg acceptsUri acceptsCid createdAt) :=
    (by decide : "signatures" ∉ ["$type", "accept", "createdAt"])
  rw [createAttestationCid_written hno]
  exact hcid

theorem field_stripResolved {record : RecordMap} {name : String} (huri : name ≠ "_uri")
    (hcid : name ≠ "_cid") :
    field (some (stripResolved record)) name = field (some record) name := by
  rw [field, field, Option.getD_some, Option.getD_some, stripResolved, lookup_erase, if_neg hcid,
    lookup_erase, if_neg huri]

/-- What is read of a receipt with the annotations of a resolver. -/
theorem IsReceipt.reads (h : IsReceipt leg P acceptsUri acceptsCid subject receipt)
    {answer : RecordMap} (hanswer : stripResolved answer = receipt) :
    field (some answer) "$type" = some (.text leg.receipts) ∧
      acceptRef answer = textRef acceptsUri acceptsCid := by
  subst hanswer
  refine ⟨(field_stripResolved (by decide) (by decide)).symm.trans h.type, ?_⟩
  rw [← h.ref, acceptRef, acceptRef, field_stripResolved (by decide) (by decide)]

theorem strictEq_text {v : Option Value} {t : String} :
    strictEq v (some (.text t)) = true ↔ v = some (.text t) := by
  cases v with
  | none => simp [strictEq]
  | some v => cases v <;> simp [strictEq]

/-- What a payload that is accepted was found to be. -/
theorem verifyPayment_eq_ok {payment : Option Value} {bound : Option RecordMap} :
    verifyPayment leg P bidderDid resolve payment = .ok (receipt, bound) ↔
      truthy payment ∧ ∃ ref uri, refOf payment = .ok ref ∧ ref.uri = some (.text uri) ∧
        resolve 0 ref = .ok receipt ∧
        receiptNsid receipt ref.uri = .ok (some (.text leg.receipts)) ∧
        atUriAuthority uri = bidderDid ∧ checkBinding leg P resolve receipt = .ok bound := by
  rw [verifyPayment]
  by_cases hpayment : truthy payment
  · rw [if_neg (not_not.2 hpayment), and_iff_right hpayment]
    constructor
    · intro h
      obtain ⟨ref, href, h⟩ := bind_eq_ok.1 h
      obtain ⟨answer, hanswer, h⟩ := bind_eq_ok.1 h
      obtain ⟨nsid, hnsid, h⟩ := bind_eq_ok.1 h
      split_ifs at h with htype
      split at h
      · next uri huri =>
        split_ifs at h with hauthority
        obtain ⟨subject, hsubject, h⟩ := bind_eq_ok.1 h
        obtain ⟨rfl, rfl⟩ := Prod.mk.inj (Except.ok.inj h)
        obtain rfl := strictEq_text.1 htype
        exact ⟨ref, uri, mapError_eq_ok.1 href, huri, mapError_eq_ok.1 hanswer, hnsid,
          not_not.1 hauthority, hsubject⟩
      · cases h
    · rintro ⟨ref, uri, href, huri, hanswer, hnsid, hauthority, hsubject⟩
      refine bind_eq_ok.2 ⟨ref, mapError_eq_ok.2 href, bind_eq_ok.2 ⟨receipt,
        mapError_eq_ok.2 hanswer, bind_eq_ok.2 ⟨_, hnsid, ?_⟩⟩⟩
      rw [if_neg (not_not.2 (strictEq_text.2 rfl)), huri]
      dsimp only
      rw [if_neg (not_not.2 hauthority)]
      exact bind_eq_ok.2 ⟨bound, hsubject, rfl⟩
  · rw [if_pos hpayment]
    exact iff_of_false (fun h => by cases h) fun h => hpayment h.1

/-- The CIDs with one text are one. -/
theorem createAttestationCid_inj {encode : Value → Except String Bytes} {cid cid' : Cid}
    (h : createAttestationCid encode subject metadata did none = .ok cid)
    (h' : createAttestationCid encode subject' metadata did none = .ok cid')
    (hcid : cid.toString = cid'.toString) : cid = cid' := by
  obtain ⟨_, -, h⟩ := bind_eq_ok.1 h
  obtain ⟨_, -, h⟩ := bind_eq_ok.1 h
  obtain ⟨_, -, h'⟩ := bind_eq_ok.1 h'
  obtain ⟨_, -, h'⟩ := bind_eq_ok.1 h'
  obtain rfl := Except.ok.inj h
  obtain rfl := Except.ok.inj h'
  exact congrArg cidFromDigest (toString_cidFromDigest_inj.1 hcid)

/-- Two records have the same CID under a receipt. -/
def SameBinding (P : Primitives) (receipt : RecordMap) (did : String)
    (subject subject' : RecordMap) : Prop :=
  ∃ cid, createAttestationCid P.encode subject (erase "signatures" receipt) did none = .ok cid ∧
    createAttestationCid P.encode subject' (erase "signatures" receipt) did none = .ok cid

/-- A receipt is accepted for what has the CID of what it was minted for. -/
theorem IsReceipt.verifyRemoteProof_iff
    (h : IsReceipt leg P acceptsUri acceptsCid subject receipt) :
    verifyRemoteProof P subject' (atUriAuthority acceptsUri) receipt = true ↔
      SameBinding P receipt (atUriAuthority acceptsUri) subject subject' := by
  obtain ⟨cid, hcid, hdeclared⟩ := h.cid
  rw [Attest.verifyRemoteProof_iff, hdeclared]
  constructor
  · rintro ⟨cid', hcid', heq⟩
    obtain rfl := createAttestationCid_inj hcid hcid' (Value.text.inj (Option.some.inj heq))
    exact ⟨cid, hcid, hcid'⟩
  · rintro ⟨cid', hsame, hcid'⟩
    obtain rfl := Except.ok.inj (hcid.symm.trans hsame)
    exact ⟨cid, hcid', rfl⟩

/-- What a receipt is bound to. -/
theorem IsReceipt.checkBinding_eq_ok (h : IsReceipt leg P acceptsUri acceptsCid subject receipt)
    {answer : RecordMap} (hanswer : stripResolved answer = receipt) (huri : acceptsUri ≠ "")
    (hcid : acceptsCid ≠ "") {bound : Option RecordMap} :
    checkBinding leg P resolve answer = .ok bound ↔
      ∃ accepts, resolve 1 (textRef acceptsUri acceptsCid) = .ok accepts ∧
        bound = some (stripResolved accepts) ∧
        SameBinding P receipt (atUriAuthority acceptsUri) subject (stripResolved accepts) := by
  have htruthy : truthy (textRef acceptsUri acceptsCid).uri = true ∧
      truthy (textRef acceptsUri acceptsCid).cid = true := by
    simpa [truthy, textRef] using And.intro huri hcid
  rw [checkBinding, (h.reads hanswer).2, hanswer]
  dsimp only
  rw [if_pos htruthy, bind_eq_ok]
  refine exists_congr fun accepts => and_congr mapError_eq_ok ?_
  rw [← h.verifyRemoteProof_iff]
  dsimp only [textRef]
  split_ifs with hok
  · rw [and_iff_left hok]
    exact ⟨fun h => (Except.ok.inj h).symm, fun h => congrArg Except.ok h.symm⟩
  · exact iff_of_false (fun h => by cases h) fun h => hok h.2

/-- A receipt that is minted for the path of an `accepts` record is accepted, as long as the record
    is what it was. -/
theorem verifyPayment_minted {route path : String} (hroute : route ≠ "")
    (hslash : route.toList.head? ≠ some '/') (huri : acceptsUri ≠ "") (hcid : acceptsCid ≠ "")
    (hno : '/' ∉ acceptsCid.toList)
    (hpath : path = "/" ++ route ++ "/" ++ acceptsUri ++ "/" ++ acceptsCid)
    (hmint : (parseReceiptPath path (route ++ "/") >>= fun ref =>
      mintReceipt leg P signer bidderDid resolve ref.1 ref.2 createdAt) = .ok (receipt, subject))
    {resolve' : Resolve} {uri cid : String} {answer accepts : RecordMap}
    (hauthority : atUriAuthority uri = bidderDid)
    (hanswer : resolve' 0 (textRef uri cid) = .ok answer)
    (hreceipt : stripResolved answer = receipt)
    (haccepts : resolve' 1 (textRef acceptsUri acceptsCid) = .ok accepts)
    (hsubject : stripResolved accepts = subject) :
    verifyPayment leg P bidderDid resolve'
      (some (Requester.strongRef (some (.text uri)) (some (.text cid)))) =
        .ok (answer, some subject) := by
  rw [hpath, parseReceiptPath_path hroute hslash huri hno, ok_bind] at hmint
  obtain ⟨-, h⟩ := mintReceipt_eq_ok hmint
  obtain ⟨c, hc, -⟩ := h.cid
  have htype := (h.reads hreceipt).1
  refine verifyPayment_eq_ok.2 ⟨rfl, textRef uri cid, uri, rfl, rfl, hanswer, ?_, hauthority,
    (h.checkBinding_eq_ok hreceipt huri hcid).2
      ⟨accepts, haccepts, congrArg some hsubject.symm, c, hc, hsubject ▸ hc⟩⟩
  simp only [receiptNsid, htype]

end

/-- A record that a buyer pays against. -/
def sampleAccepts : RecordMap :=
  [("$type", .text x402.accepts), ("createdAt", .text "2026-01-01T00:00:00Z")]

def sampleAcceptsUri : String := "at://did:plc:alice/" ++ x402.accepts ++ "/1"

def sampleReceiptUri : String := "at://did:plc:bob/" ++ x402.receipts ++ "/1"

def samplePath : String := "/x402/receipt/" ++ sampleAcceptsUri ++ "/bafyreia"

/-- What the bidder mints for it. -/
def sampleMint : Except PaymentError (RecordMap × RecordMap) :=
  mintReceipt x402 remotePrimitives (remoteSigner none) "did:plc:bob" (fun _ _ => .ok sampleAccepts)
    sampleAcceptsUri "bafyreia" "2026-01-01T00:00:00Z"

def sampleReceipt : RecordMap := (sampleMint.toOption.map Prod.fst).getD []

theorem sampleMint_eq : sampleMint = .ok (sampleReceipt, sampleAccepts) := by
  have hok : sampleMint.isOk := by decide +kernel
  obtain ⟨⟨receipt, subject⟩, hmint⟩ : ∃ r, sampleMint = .ok r := by
    cases hmint : sampleMint with
    | error e =>
      rw [hmint] at hok
      cases hok
    | ok r => exact ⟨r, rfl⟩
  obtain ⟨⟨accepts, haccepts, rfl⟩, -⟩ := mintReceipt_eq_ok hmint
  obtain rfl := Except.ok.inj haccepts
  rw [sampleReceipt, hmint]
  rfl

/-- The servers, once the receipt is written. -/
def sampleResolve : Resolve := fun n _ => .ok (if n = 0 then sampleReceipt else sampleAccepts)

theorem strip_sampleReceipt : stripResolved sampleReceipt = sampleReceipt :=
  (mintReceipt_eq_ok sampleMint_eq).2.plain

theorem parseReceiptPath_samplePath :
    parseReceiptPath samplePath ("x402/receipt" ++ "/") = .ok (sampleAcceptsUri, "bafyreia") :=
  @parseReceiptPath_path "x402/receipt" sampleAcceptsUri "bafyreia" (by decide) (by decide)
    (by decide) (by decide)

/-- The payload of the accept. -/
def samplePayment : Option Value :=
  some (Requester.strongRef (some (.text sampleReceiptUri)) (some (.text "bafyreib")))

theorem verifyPayment_minted_sample :
    verifyPayment x402 remotePrimitives "did:plc:bob" sampleResolve samplePayment =
      .ok (sampleReceipt, some sampleAccepts) := by
  refine @verifyPayment_minted x402 remotePrimitives (remoteSigner none) "did:plc:bob"
    (fun _ _ => .ok sampleAccepts) sampleAcceptsUri "bafyreia" "2026-01-01T00:00:00Z" sampleReceipt
    sampleAccepts "x402/receipt" samplePath (by decide) (by decide) (by decide) (by decide)
    (by decide) rfl ?_ sampleResolve sampleReceiptUri "bafyreib" sampleReceipt sampleAccepts
    (by decide) rfl strip_sampleReceipt rfl rfl
  rw [parseReceiptPath_samplePath, ok_bind]
  exact sampleMint_eq

/-! ## Runs -/

/-- A receipt that was minted. -/
structure Minted where
  /-- Whether the middleware let the request through. -/
  cleared : Bool
  acceptsUri : String
  acceptsCid : String
  subject : RecordMap
  receipt : RecordMap

/-- A payload that was accepted, with the `accepts` record that its receipt is bound to. -/
structure Settled where
  payment : Option Value
  answer : RecordMap
  subject : Option RecordMap

inductive Effect
  | minted (m : Minted)
  | settled (s : Settled)

/-- The repository of the bidder, and what was done. -/
structure Books where
  own : List RecordMap
  log : List Effect

/-- Requests and writes, with what other services answer them. What a request reads of the own
    repository is there when it is answered, so that requests can be taken one after the other. -/
inductive Event
  /-- A request of a receipt; the last is what `createRecord` answers. -/
  | receipt (path : String) (cleared : Bool) (createdAt : String) (resolve : Resolve)
    (created : Except String Unit)
  /-- Any other record that the bidder writes. -/
  | write (record : RecordMap)
  /-- The payload of an accept is verified. -/
  | accept (payment : Option Value) (resolve : Resolve)

section
variable (leg : Leg) (P : Primitives) (signer : Attestation) (bidderDid route : String)

/-- `GET /<route>/*`, behind the payment middleware. -/
def receive (s : Books) (path : String) (cleared : Bool) (createdAt : String) (resolve : Resolve)
    (created : Except String Unit) : Books :=
  if cleared then
    match parseReceiptPath path (route ++ "/") with
    | .error _ => s
    | .ok (uri, cid) =>
      match mintReceipt leg P signer bidderDid resolve uri cid createdAt with
      | .error _ => s
      | .ok (receipt, subject) =>
        match created with
        | .error _ => s
        | .ok _ =>
          ⟨receipt :: s.own, s.log ++ [.minted ⟨cleared, uri, cid, subject, receipt⟩]⟩
  else s

/-- `settlement.verifyAcceptPayload`, before the VM is provisioned. -/
def settle (s : Books) (payment : Option Value) (resolve : Resolve) : Books :=
  match verifyPayment leg P bidderDid resolve payment with
  | .error _ => s
  | .ok (answer, subject) => { s with log := s.log ++ [.settled ⟨payment, answer, subject⟩] }

def step (s : Books) : Event → Books
  | .receipt path cleared createdAt resolve created =>
    receive leg P signer bidderDid route s path cleared createdAt resolve created
  | .write record => { s with own := record :: s.own }
  | .accept payment resolve => settle leg P bidderDid s payment resolve

/-- The resolver finds in the repository of the bidder what the bidder wrote, and the bidder writes
    no other records of the type of a receipt. -/
def Kept (s : Books) : Event → Prop
  | .receipt .. => True
  | .write record => ∃ type, field (some record) "$type" = some (.text type) ∧ type ≠ leg.receipts
  | .accept _ resolve => ∀ ref uri answer, ref.uri = some (.text uri) →
      atUriAuthority uri = bidderDid → resolve 0 ref = .ok answer → stripResolved answer ∈ s.own

/-- The receipt was minted for a request that was let through, and what it names is still what it
    was then. -/
structure Paid (m : Minted) (s : Settled) : Prop where
  cleared : m.cleared
  receipt : stripResolved s.answer = m.receipt
  ref : acceptRef s.answer = textRef m.acceptsUri m.acceptsCid
  bound : m.acceptsCid ≠ "" → ∃ subject ∈ s.subject,
    SameBinding P m.receipt (atUriAuthority m.acceptsUri) m.subject subject

/-- What is settled is paid for. -/
def AllPaid (log : List Effect) : Prop :=
  ∀ before s after, log = before ++ .settled s :: after → ∃ m, .minted m ∈ before ∧ Paid P m s

end

theorem uri_ne_of_parseReceiptPath {path routePrefix : String} {ref : String × String}
    (h : parseReceiptPath path routePrefix = .ok ref) : ref.1 ≠ "" := by
  rw [parseReceiptPath] at h
  split at h
  · cases h
  · cases h
  · next uri hne _ =>
    obtain rfl := Except.ok.inj h
    intro heq
    have hnil : (String.ofList uri.reverse).toList = "".toList := congrArg String.toList heq
    rw [String.toList_ofList] at hnil
    exact hne (List.reverse_eq_nil_iff.1 hnil)

/-- A record that the default resolver finds under the authority of the bidder is one of its own, if
    its PDS serves those, and only identifiers that resolve have a document. -/
theorem own_of_resolve {w : World} {own : List RecordMap} {bidderDid uri : String}
    (hdocument : ∀ n did doc, w.didDocument n did = .ok (some doc) → Author.IsPlcOrWeb did)
    (hbidder : Author.IsPlcOrWeb bidderDid)
    (hown : ∀ n req res, req.repo = bidderDid → w.getRecord n req = .ok res →
      stripResolved res.value ∈ own)
    {s : ResolverState} (hs : Author.Reached w s) {expectVersion : Option String} {ref : RecordRef}
    (huri : ref.uri = some (.text uri)) (hauthority : atUriAuthority uri = bidderDid)
    {resolved : RecordMap × ResolverState}
    (hresolve : Resolver.resolve w expectVersion ref s = .ok resolved) :
    stripResolved resolved.1 ∈ own := by
  have honly : Author.PlcOrWebOnly ⟨"", [], fun _ _ => .error ""⟩ w :=
    ⟨fun _ _ _ h => (by cases h), hdocument⟩
  obtain ⟨⟨res, s'⟩, hfetch, hresolve⟩ := bind_eq_ok.1 hresolve
  obtain ⟨_, -, hresolve⟩ := bind_eq_ok.1 hresolve
  obtain rfl := Except.ok.inj hresolve
  rw [Resolver.fetch, huri] at hfetch
  obtain ⟨⟨pds, s₁⟩, hpds, hfetch⟩ := bind_eq_ok.1 hfetch
  obtain ⟨res', hres, hfetch⟩ := bind_eq_ok.1 hfetch
  obtain ⟨rfl, -⟩ := Prod.mk.inj (Except.ok.inj hfetch)
  have hrepo := (Author.isPlcOrWeb_of_pdsForDid honly (hs.isPlcOrWeb honly) hpds).1
  have heq : (parseAtUri uri).repo = bidderDid :=
    (Author.repo_eq_atUriAuthority (hauthority ▸ hbidder) hrepo).trans hauthority
  dsimp only
  rw [Resolver.stripResolved_annotate]
  exact hown _ _ _ heq hres

section
variable {leg : Leg} {P : Primitives} {signer : Attestation} {bidderDid route : String} {s : Books}

/-- What holds of the books: a record of the type of a receipt was minted. -/
structure Inv (leg : Leg) (P : Primitives) (s : Books) : Prop where
  own : ∀ record ∈ s.own,
    (∃ type, field (some record) "$type" = some (.text type) ∧ type ≠ leg.receipts) ∨
      ∃ m, .minted m ∈ s.log ∧ m.receipt = record ∧ m.cleared ∧ m.acceptsUri ≠ "" ∧
        IsReceipt leg P m.acceptsUri m.acceptsCid m.subject record
  paid : AllPaid P s.log

theorem allPaid_concat {log : List Effect} (h : AllPaid P log) {effect : Effect}
    (hlast : ∀ s, effect = .settled s → ∃ m, .minted m ∈ log ∧ Paid P m s) :
    AllPaid P (log ++ [effect]) := by
  intro before s after heq
  rcases List.eq_nil_or_concat after with rfl | ⟨after, last, rfl⟩
  · obtain ⟨rfl, hs⟩ := List.append_inj' heq rfl
    exact hlast s (List.cons.inj hs).1
  · rw [List.concat_eq_append, ← List.cons_append, ← List.append_assoc] at heq
    obtain ⟨rfl, -⟩ := List.append_inj' heq rfl
    exact h before s after rfl

theorem Inv.receive (h : Inv leg P s) (path : String) (cleared : Bool) (createdAt : String)
    (resolve : Resolve) (created : Except String Unit) :
    Inv leg P (receive leg P signer bidderDid route s path cleared createdAt resolve created) := by
  rw [Payment.receive]
  split_ifs with hcleared
  · split
    · exact h
    · next uri cid hparse =>
      split
      · exact h
      · next receipt subject hmint =>
        split
        · exact h
        · obtain ⟨-, hreceipt⟩ := mintReceipt_eq_ok hmint
          refine ⟨fun record hrecord => ?_, allPaid_concat h.paid fun s hs => by cases hs⟩
          rcases List.mem_cons.1 hrecord with rfl | hrecord
          · exact .inr ⟨_, List.mem_append_right _ (List.mem_singleton_self _), rfl, hcleared,
              uri_ne_of_parseReceiptPath hparse, hreceipt⟩
          · refine (h.own record hrecord).imp_right fun ⟨m, hm, hmint⟩ => ⟨m, ?_, hmint⟩
            exact List.mem_append_left _ hm
  · exact h

/-- What is accepted is paid for. -/
theorem Inv.paid_of_verify (h : Inv leg P s) {payment : Option Value} {resolve : Resolve}
    (hkept : Kept leg bidderDid s (.accept payment resolve)) {answer : RecordMap}
    {subject : Option RecordMap}
    (hverify : verifyPayment leg P bidderDid resolve payment = .ok (answer, subject)) :
    ∃ m, .minted m ∈ s.log ∧ Paid P m ⟨payment, answer, subject⟩ := by
  obtain ⟨-, ref, uri, -, huri, hanswer, hnsid, hauthority, hbound⟩ := verifyPayment_eq_ok.1 hverify
  rcases h.own _ (hkept ref uri answer huri hauthority hanswer) with
    ⟨type, htype, hne⟩ | ⟨m, hm, hreceipt, hcleared, hne, hisReceipt⟩
  · -- It has the type of a receipt, and so it was minted.
    rw [field_stripResolved (by decide) (by decide)] at htype
    simp only [receiptNsid, htype] at hnsid
    exact absurd (Value.text.inj (Option.some.inj (Except.ok.inj hnsid))) hne
  · refine ⟨m, hm, hcleared, hreceipt.symm, (hisReceipt.reads rfl).2, fun hcid => ?_⟩
    obtain ⟨accepts, -, rfl, hsame⟩ := (hisReceipt.checkBinding_eq_ok rfl hne hcid).1 hbound
    exact ⟨_, rfl, hreceipt ▸ hsame⟩

/-- The step lemma. -/
theorem Inv.step (h : Inv leg P s) {e : Event} (hkept : Kept leg bidderDid s e) :
    Inv leg P (step leg P signer bidderDid route s e) := by
  cases e with
  | receipt path cleared createdAt resolve created => exact h.receive ..
  | write record =>
    refine ⟨fun r hr => ?_, h.paid⟩
    rcases List.mem_cons.1 hr with rfl | hr
    · exact .inl hkept
    · exact h.own r hr
  | accept payment resolve =>
    rw [Payment.step, settle]
    split
    · exact h
    · next answer subject hverify =>
      refine ⟨fun record hrecord => ?_, allPaid_concat h.paid fun s hs => ?_⟩
      · refine (h.own record hrecord).imp_right fun ⟨m, hm, hmint⟩ => ⟨m, ?_, hmint⟩
        exact List.mem_append_left _ hm
      · obtain rfl := Effect.settled.inj hs
        exact h.paid_of_verify hkept hverify

end

/-- A buyer pays, and its accept is settled. -/
def sampleEvents : List Event :=
  [.receipt samplePath true "2026-01-01T00:00:00Z" (fun _ _ => .ok sampleAccepts) (.ok ()),
    .accept samplePayment sampleResolve]

end ComputeContract.Market.Payment
