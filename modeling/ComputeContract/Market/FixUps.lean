import ComputeContract.Market.Settled

/-!
# What is drawn when a record comes in

The fix-ups look at the nodes that are there, and draw what the records say: of a sound set of
records, whose nodes are the records and what is drawn for them at most (`Between`).

* `receiptFixUps_eq`, `contractEdges_spec`, `mem_eventEdges`: the fix-ups of a record, by its
  collection;
* `node_of_fixUps`, `edge_of_fixUps`: what is drawn should be there;
* `receiptFixUps_complete`: what should be there for a receipt is there.
-/

namespace ComputeContract.MarketGraph

/-! ## Lists -/

theorem mem_pushEdge {edges : List GraphEdge} {e e' : GraphEdge} :
    e ∈ pushEdge edges e' ↔ e ∈ edges ∨ e = e' := by
  rw [pushEdge]
  split_ifs with h
  · exact ⟨.inl, fun he => he.elim id fun heq => heq ▸ h⟩
  · rw [List.mem_append, List.mem_singleton]

theorem mem_foldl_pushEdge {new edges : List GraphEdge} {e : GraphEdge} :
    e ∈ new.foldl pushEdge edges ↔ e ∈ edges ∨ e ∈ new := by
  induction new generalizing edges with
  | nil => simp
  | cons e' new ih => rw [List.foldl_cons, ih, mem_pushEdge, List.mem_cons, or_assoc]

theorem of_find? {P : RecordNode → Prop} [DecidablePred P] {nodes : List RecordNode}
    {n : RecordNode} (h : nodes.find? (fun m => P m) = some n) : n ∈ nodes ∧ P n := by
  have hP := List.find?_some h
  exact ⟨List.mem_of_find?_eq_some h, of_decide_eq_true hP⟩

theorem find?_eq_some {P : RecordNode → Prop} [DecidablePred P] {nodes : List RecordNode}
    {n : RecordNode} (hn : n ∈ nodes) (hP : P n) (h : ∀ m ∈ nodes, P m → m = n) :
    nodes.find? (fun m => P m) = some n := by
  rcases hfind : nodes.find? fun m => P m with - | m
  · exact absurd (decide_eq_true hP) (List.find?_eq_none.1 hfind n hn)
  · obtain ⟨hm, hPm⟩ := of_find? hfind
    rw [h m hm hPm]

/-! ## The records that are there -/

/-- The nodes are the records, and what is drawn for them at most. -/
structure Between (R : Set RecordNode) (nodeMap : List RecordNode) : Prop where
  node : ∀ m ∈ nodeMap, Node R m
  record : ∀ m ∈ R, m ∈ nodeMap

section
variable {R : Set RecordNode} {nodeMap : List RecordNode} {n m r v p b s : RecordNode}
  {e : GraphEdge} {u : String}

theorem mem_of_lookup (h : lookup nodeMap u = some m) : m ∈ nodeMap ∧ m.uri = u :=
  of_find? (P := (·.uri = u)) h

/-- The nodes have different URIs. -/
theorem lookup_eq_some (hs : Sound R) (hb : Between R nodeMap) (hm : m ∈ nodeMap) :
    lookup nodeMap m.uri = some m :=
  find?_eq_some (P := (·.uri = m.uri)) hm rfl fun m' hm' huri =>
    hs.uris m' m (hb.node m' hm') (hb.node m hm) huri

theorem resolveReceiptVm_eq_some : resolveReceiptVm n nodeMap = some u ↔ u ≠ "" ∧
    ∃ f, (refUri n.record "rfp").bind (lookup nodeMap) = some f ∧
      refUri f.record "payload" = some u := by
  rw [resolveReceiptVm, Option.filter_eq_some_iff, Option.bind_eq_some_iff, decide_eq_true_iff]
  exact and_comm

/-- What the code finds is a request of the nodes that are there. -/
theorem requests_of_resolve (h : resolveReceiptVm n nodeMap = some u) :
    Requests {m | m ∈ nodeMap} n u := by
  obtain ⟨hne, f, hf, hpayload⟩ := resolveReceiptVm_eq_some.1 h
  obtain ⟨rfpUri, hrfp, hlookup⟩ := Option.bind_eq_some_iff.1 hf
  obtain ⟨hmem, rfl⟩ := mem_of_lookup hlookup
  exact ⟨hne, f, hmem, hrfp, hpayload⟩

/-- The machine that the code finds for a receipt. -/
theorem resolve_eq_some (hs : Sound R) (hb : Between R nodeMap) (hn : n ∈ R)
    (hc : n.collection = .receipt) :
    (resolveReceiptVm n nodeMap).bind (lookup nodeMap) = some v ↔ Complete R n v := by
  constructor
  · intro h
    obtain ⟨u, hresolve, hlookup⟩ := Option.bind_eq_some_iff.1 h
    obtain ⟨hv, rfl⟩ := mem_of_lookup hlookup
    obtain ⟨hne, f, hf, hrfp, hpayload⟩ := requests_of_resolve hresolve
    have hreq : Requests R n v.uri :=
      ⟨hne, f, hs.requests n hn hc f (hb.node f hf) hrfp, hrfp, hpayload⟩
    exact ⟨hn, hc, hs.machines n hn hc v (hb.node v hv) hreq, hreq⟩
  · intro h
    obtain ⟨hne, f, hf, hrfp, hpayload⟩ := h.requests
    have hfind : (refUri n.record "rfp").bind (lookup nodeMap) = some f := by
      rw [hrfp, Option.bind_some, lookup_eq_some hs hb (hb.record f hf)]
    rw [resolveReceiptVm_eq_some.2 ⟨hne, f, hfind, hpayload⟩, Option.bind_some,
      lookup_eq_some hs hb (hb.record v h.vm)]

theorem isProv_of_find (h : findProvisioningForVm u nodeMap = some p) : p ∈ nodeMap ∧ IsProv u p :=
  of_find? (P := fun n => n.collection = .provisioning ∧ refUri n.record "vm" = some u) h

theorem isEvent_of_find (h : findMarketEventForReceipt u nodeMap = some p) :
    p ∈ nodeMap ∧ IsEvent u p :=
  of_find? (P := fun n => n.collection = .event ∧ refUri n.record "receipt" = some u) h

theorem not_isProv_of_find (h : findProvisioningForVm u nodeMap = none) :
    ∀ p ∈ nodeMap, ¬ IsProv u p := fun p hp hprov =>
  List.find?_eq_none.1 h p hp (decide_eq_true hprov)

theorem not_isEvent_of_find (h : findMarketEventForReceipt u nodeMap = none) :
    ∀ e ∈ nodeMap, ¬ IsEvent u e := fun e he hevent =>
  List.find?_eq_none.1 h e he (decide_eq_true hevent)

/-- A node of another kind than the drawn ones is a record. -/
theorem record_of_node (h : Node R m) (hparty : IsParty m) : m ∈ R := by
  cases h with
  | record h => exact h
  | gha h hf => rcases hparty with hc | hc | hc <;> cases hc
  | provisioning h hnone => rcases hparty with hc | hc | hc <;> cases hc
  | event h hnone hp => rcases hparty with hc | hc | hc <;> cases hc

/-! ## Receipts -/

/-- The provisioning that is taken for a receipt. -/
theorem provisions_getD (hs : Sound R) (hb : Between R nodeMap) (h : Complete R n v) :
    Provisions R v ((findProvisioningForVm v.uri nodeMap).getD (provNode n v)) := by
  rcases hfind : findProvisioningForVm v.uri nodeMap with - | p
  · exact .drawn h fun p hp => not_isProv_of_find hfind p (hb.record p hp)
  · obtain ⟨hp, hprov⟩ := isProv_of_find hfind
    exact provisions_of_node hs h.vm (hb.node p hp) hprov

/-- The edge that an event gets when its receipt comes in. -/
theorem edge_of_event (hs : Sound R) (h : Complete R r v) (hp : Provisions R v p) (hm : Node R m)
    (he : IsEvent r.uri m) : Edge R ⟨m.uri, p.uri, m.rkey ++ ":payload"⟩ := by
  rcases event_of_node hs h hm he with hmem | ⟨hnone, p', hp', rfl⟩
  · exact .payload h hmem he hp
  · obtain rfl := provisions_unique hs h hp hp'
    have hlabel : (marketEvent r p.uri).rkey ++ ":payload" =
        (marketEvent r p.uri).rkey ++ ":" ++ "payload" := by
      rw [String.append_assoc]
      rfl
    rw [hlabel]
    exact .ref hm (List.mem_cons_of_mem _ List.mem_cons_self)

/-- What is drawn for a receipt. -/
theorem receiptFixUps_eq (hs : Sound R) (hb : Between R nodeMap) (h : Complete R n v) :
    ∃ p, Provisions R v p ∧ receiptFixUps n nodeMap = {
      nodes := (if (findProvisioningForVm v.uri nodeMap).isSome then [] else [p]) ++
        (findMarketEventForReceipt n.uri nodeMap).elim [marketEvent n p.uri] fun _ => []
      edges := (findMarketEventForReceipt n.uri nodeMap).elim [] fun e =>
        [⟨e.uri, p.uri, e.rkey ++ ":payload"⟩] } := by
  refine ⟨_, provisions_getD hs hb h, ?_⟩
  rw [receiptFixUps, (resolve_eq_some hs hb h.mem h.collection).2 h]
  rcases hfind : findMarketEventForReceipt n.uri nodeMap with - | e
  · rfl
  · exact congrArg (FixUpResult.mk · _) (List.append_nil _).symm

theorem receiptFixUps_eq_empty (hs : Sound R) (hb : Between R nodeMap) (hn : n ∈ R)
    (hc : n.collection = .receipt) (h : ∀ v, ¬ Complete R n v) :
    receiptFixUps n nodeMap = ⟨[], []⟩ := by
  rcases hfind : (resolveReceiptVm n nodeMap).bind (lookup nodeMap) with - | v
  · rw [receiptFixUps, hfind]
  · exact absurd ((resolve_eq_some hs hb hn hc).1 hfind) (h v)

/-! ## Grants -/

/-- The machine that is taken for a grant. -/
theorem vmFor_eq_some (hs : Sound R) (hb : Between R nodeMap) (hn : n ∈ R) (hbR : b ∈ R)
    (hc : b.collection = .rbac) {roleSubs : List String} (hsubs : rbacRoleSubs b.record = some roleSubs) :
    vmFor n nodeMap roleSubs = some v ↔ Grant R b v ∧ (n.collection = .vm → v = n) := by
  have hrole : ∀ v, Grant R b v → hasRole roleSubs v := by
    intro v hv
    obtain ⟨roleSubs', hsubs', hrole⟩ := hv.role
    rw [hsubs] at hsubs'
    exact Option.some.inj hsubs' ▸ hrole
  rw [vmFor]
  split_ifs with hvm hhas
  · constructor
    · intro h
      obtain rfl := Option.some.inj h
      exact ⟨⟨hbR, hc, hn, hvm, roleSubs, hsubs, hhas⟩, fun _ => rfl⟩
    · rintro ⟨-, h⟩
      rw [h hvm]
  · constructor
    · intro h
      cases h
    · rintro ⟨hv, h⟩
      exact absurd (h hvm ▸ hrole v hv) hhas
  · have hgrant : ∀ v ∈ nodeMap, v.collection = .vm ∧ hasRole roleSubs v → Grant R b v :=
      fun v hv hP => ⟨hbR, hc, record_of_node (hb.node v hv) (.inr (.inl hP.1)), hP.1, roleSubs, hsubs,
        hP.2⟩
    constructor
    · intro h
      obtain ⟨hv, hP⟩ := of_find? h
      exact ⟨hgrant v hv hP, fun h => absurd h hvm⟩
    · rintro ⟨hv, -⟩
      exact find?_eq_some (hb.record v hv.vm) ⟨hv.vm_collection, hrole v hv⟩ fun m hm hP =>
        hs.vms b m v (hgrant m hm hP) hv

/-- The key that is taken for a machine. -/
theorem matchingSsh_eq_some (hs : Sound R) (hb : Between R nodeMap) (hn : n ∈ R)
    (hgrant : Grant R b v) : matchingSsh n nodeMap v = some s ↔ KeyOf (keysFor R n) s v := by
  have hsub : keysFor R n ⊆ R := fun _ h => h.1
  have hmem : ∀ m, m ∈ (if n.collection = .sshPublicKey then [n]
      else nodeMap.filter (·.collection = .sshPublicKey)) ↔
      m ∈ keysFor R n ∧ m.collection = .sshPublicKey := by
    intro m
    split_ifs with hssh
    · rw [List.mem_singleton]
      constructor
      · rintro rfl
        exact ⟨⟨hn, fun _ => rfl⟩, hssh⟩
      · rintro ⟨⟨-, h⟩, -⟩
        exact h hssh
    · rw [List.mem_filter, decide_eq_true_iff]
      refine and_congr_left fun hc => ?_
      exact ⟨fun h => ⟨record_of_node (hb.node m h) (.inr (.inr hc)), fun h => absurd h hssh⟩,
        fun h => hb.record m h.1⟩
  constructor
  · intro h
    obtain ⟨hm, hP⟩ := of_find? (P := fun m => text m.record "service" = text v.record "role") h
    obtain ⟨hkey, hc⟩ := (hmem s).1 hm
    exact ⟨hkey, hc, hP⟩
  · intro h
    refine find?_eq_some ((hmem s).2 ⟨h.mem, h.collection⟩) h.service fun m hm hP => ?_
    obtain ⟨hkey, hc⟩ := (hmem m).1 hm
    exact hs.keys b v m s hgrant ⟨hsub hkey, hc, hP⟩ (h.mono hsub)

/-- An edge that a route is drawn by. -/
def RouteEdge (b v : RecordNode) (ssh : Option RecordNode) (route : String) (e : GraphEdge) : Prop :=
  isCreateRecord route = false ∧ e = ⟨v.uri, b.uri, route⟩ ∨
    isCreateRecord route ∧ ∃ s, ssh = some s ∧ e = ⟨s.uri, b.uri, route⟩

theorem mem_routeEdge {ssh : Option RecordNode} {route : String} {edges : List GraphEdge} :
    e ∈ routeEdge b v ssh edges route ↔ e ∈ edges ∨ RouteEdge b v ssh route e := by
  by_cases hroute : isCreateRecord route
  · cases ssh with
    | none => simp [routeEdge, RouteEdge, hroute]
    | some s => simp [routeEdge, RouteEdge, hroute, mem_pushEdge]
  · simp [routeEdge, RouteEdge, hroute, mem_pushEdge]

theorem mem_foldl_routeEdge (b v : RecordNode) (ssh : Option RecordNode) (routes : List String)
    (edges : List GraphEdge) (e : GraphEdge) : e ∈ routes.foldl (routeEdge b v ssh) edges ↔
      e ∈ edges ∨ ∃ route ∈ routes, RouteEdge b v ssh route e := by
  induction routes generalizing edges with
  | nil => simp
  | cons route routes ih => rw [List.foldl_cons, ih, mem_routeEdge, List.exists_mem_cons_iff, or_assoc]

/-- The edges of a grant and a machine, from the key and the routes that are found. -/
theorem contract_iff {K : Set RecordNode} {ssh : Option RecordNode} {routes : List String}
    (hssh : ∀ s, ssh = some s ↔ KeyOf K s v) (hroutes : rbacRoutes b.record = some routes) :
    Contract K b v e ↔ (∃ route ∈ routes, RouteEdge b v ssh route e) ∨
      ∃ s, ssh = some s ∧ e = ⟨v.uri, s.uri, "post public key"⟩ := by
  have hallows (route : String) : Allows b route ↔ route ∈ routes := by
    constructor
    · rintro ⟨routes', h, hmem⟩
      exact Option.some.inj (hroutes.symm.trans h) ▸ hmem
    · exact fun h => ⟨routes, hroutes, h⟩
  constructor
  · intro h
    cases h with
    | @route route hr hc => exact .inl ⟨route, (hallows route).1 hr, .inl ⟨hc, rfl⟩⟩
    | @createRecord s route hs hr hc =>
      exact .inl ⟨route, (hallows route).1 hr, .inr ⟨hc, s, (hssh s).2 hs, rfl⟩⟩
    | @postKey s hs => exact .inr ⟨s, (hssh s).2 hs, rfl⟩
  · rintro (⟨route, hr, ⟨hc, rfl⟩ | ⟨hc, s, hs, rfl⟩⟩ | ⟨s, hs, rfl⟩)
    · exact .route ((hallows route).2 hr) hc
    · exact .createRecord ((hssh s).1 hs) ((hallows route).2 hr) hc
    · exact .postKey ((hssh s).1 hs)

/-- The edges of one grant. -/
theorem grantEdges_spec (hs : Sound R) (hb : Between R nodeMap) (hn : n ∈ R) (hbR : b ∈ R)
    (hc : b.collection = .rbac) (edges : List GraphEdge) :
    ∃ edges', grantEdges n nodeMap edges b = some edges' ∧ ∀ e, e ∈ edges' ↔ e ∈ edges ∨
      ∃ v, Grant R b v ∧ (n.collection = .vm → v = n) ∧ Contract (keysFor R n) b v e := by
  obtain ⟨hsubs, hroutes, -⟩ := hs.grants b hbR hc
  obtain ⟨roleSubs, hsubs⟩ := Option.isSome_iff_exists.1 hsubs
  obtain ⟨routes, hroutes⟩ := Option.isSome_iff_exists.1 hroutes
  have hvm := fun v => vmFor_eq_some (v := v) hs hb hn hbR hc hsubs
  have hnone (h : ∀ v, ¬ (Grant R b v ∧ (n.collection = .vm → v = n))) (e : GraphEdge) :
      e ∈ edges ↔ e ∈ edges ∨
        ∃ v, Grant R b v ∧ (n.collection = .vm → v = n) ∧ Contract (keysFor R n) b v e :=
    (or_iff_left fun hv => hv.elim fun v hv => h v ⟨hv.1, hv.2.1⟩).symm
  rw [grantEdges, hsubs, Option.bind_eq_bind, Option.bind_some]
  split_ifs with hempty
  · refine ⟨edges, rfl, hnone fun v hv => ?_⟩
    obtain ⟨roleSubs', hsubs', hrole⟩ := hv.1.role
    obtain rfl := Option.some.inj (hsubs.symm.trans hsubs')
    simp [hempty, hasRole] at hrole
  · rcases hfind : vmFor n nodeMap roleSubs with - | v
    · refine ⟨edges, rfl, hnone fun v hv => ?_⟩
      rw [(hvm v).2 hv] at hfind
      cases hfind
    · obtain ⟨hgrant, heq⟩ := (hvm v).1 hfind
      have hssh := fun s => matchingSsh_eq_some (s := s) hs hb hn hgrant
      have hiff (e : GraphEdge) : (∃ v, Grant R b v ∧ (n.collection = .vm → v = n) ∧
          Contract (keysFor R n) b v e) ↔ Contract (keysFor R n) b v e := by
        constructor
        · rintro ⟨v', hv', -, hc'⟩
          rwa [hs.vms b v v' hgrant hv']
        · exact fun hc' => ⟨v, hgrant, heq, hc'⟩
      have hroutes' := mem_foldl_routeEdge b v (matchingSsh n nodeMap v) routes edges
      change ∃ edges', (rbacRoutes b.record >>= fun routes => _) = some edges' ∧ _
      rw [hroutes, Option.bind_eq_bind, Option.bind_some]
      rcases hkey : matchingSsh n nodeMap v with - | s <;> rw [hkey] at hssh hroutes'
      · refine ⟨_, rfl, fun e => ?_⟩
        rw [hroutes', hiff, contract_iff hssh hroutes]
        simp
      · refine ⟨_, rfl, fun e => ?_⟩
        rw [mem_pushEdge, hroutes', hiff, contract_iff hssh hroutes, or_assoc]
        simp

theorem foldlM_grantEdges (hs : Sound R) (hb : Between R nodeMap) (hn : n ∈ R) {bs : List RecordNode}
    (hbs : ∀ b ∈ bs, b ∈ R ∧ b.collection = .rbac) (edges : List GraphEdge) :
    ∃ edges', bs.foldlM (grantEdges n nodeMap) edges = some edges' ∧ ∀ e, e ∈ edges' ↔ e ∈ edges ∨
      ∃ b ∈ bs, ∃ v, Grant R b v ∧ (n.collection = .vm → v = n) ∧ Contract (keysFor R n) b v e := by
  induction bs generalizing edges with
  | nil => exact ⟨edges, rfl, by simp⟩
  | cons b bs ih =>
    obtain ⟨⟨hbR, hc⟩, hbs⟩ := List.forall_mem_cons.1 hbs
    obtain ⟨edges₁, hedges₁, hmem₁⟩ := grantEdges_spec hs hb hn hbR hc edges
    obtain ⟨edges₂, hedges₂, hmem₂⟩ := ih hbs edges₁
    refine ⟨edges₂, ?_, fun e => ?_⟩
    · rw [List.foldlM_cons, hedges₁]
      exact hedges₂
    · rw [hmem₂, hmem₁, List.exists_mem_cons_iff, or_assoc]

/-- The edges of the grants that are looked at when a record comes in. -/
theorem contractEdges_spec (hs : Sound R) (hb : Between R nodeMap) (hn : n ∈ R) :
    ∃ edges, contractEdges n nodeMap = some edges ∧ ∀ e, e ∈ edges ↔ ContractOf R n e := by
  have hmem : ∀ b, b ∈ (if n.collection = .rbac then [n]
      else nodeMap.filter (·.collection = .rbac)) ↔
      b ∈ R ∧ b.collection = .rbac ∧ (n.collection = .rbac → b = n) := by
    intro b
    split_ifs with hrbac
    · rw [List.mem_singleton]
      constructor
      · rintro rfl
        exact ⟨hn, hrbac, fun _ => rfl⟩
      · rintro ⟨-, -, h⟩
        exact h hrbac
    · rw [List.mem_filter, decide_eq_true_iff]
      constructor
      · rintro ⟨h, hc⟩
        exact ⟨record_of_node (hb.node b h) (.inl hc), hc, fun h => absurd h hrbac⟩
      · rintro ⟨h, hc, -⟩
        exact ⟨hb.record b h, hc⟩
  obtain ⟨edges, hedges, hiff⟩ := foldlM_grantEdges hs hb hn
    (fun b h => ⟨((hmem b).1 h).1, ((hmem b).1 h).2.1⟩) []
  refine ⟨edges, hedges, fun e => (hiff e).trans ?_⟩
  constructor
  · rintro (h | ⟨b, hbs, v, hgrant, hv, hc⟩)
    · cases h
    · exact ⟨b, v, hgrant, ((hmem b).1 hbs).2.2, hv, hc⟩
  · rintro ⟨b, v, hgrant, hrbac, hv, hc⟩
    exact .inr ⟨b, (hmem b).2 ⟨hgrant.mem, hgrant.collection, hrbac⟩, v, hgrant, hv, hc⟩

theorem edge_of_contractOf (h : ContractOf R n e) : Edge R e := by
  obtain ⟨b, v, hgrant, -, -, hc⟩ := h
  exact .contract hgrant (hc.mono fun _ h => h.1)

/-! ## Requests and events -/

theorem mem_tunnelEdges {edges : List GraphEdge} : e ∈ tunnelEdges n nodeMap edges ↔
    e ∈ edges ∨ ∃ m, nodeMap.find? (·.collection = .gha) = some m ∧
      e = ⟨n.uri, m.uri, "tunnel"⟩ := by
  rcases hfind : nodeMap.find? (·.collection = .gha) with - | m
  · simp [tunnelEdges, hfind]
  · simp [tunnelEdges, hfind, mem_pushEdge]

/-- The records are of watched collections, and have their URIs. -/
def Watched (R : Set RecordNode) : Prop :=
  ∀ n ∈ R, n.collection ≠ .gha ∧ n.uri = atUri n.did n.collection n.rkey

theorem gha_of_node (hw : Watched R) (h : Node R m) (hc : m.collection = .gha) :
    ∃ f ∈ R, f.collection = .rfp ∧ m = ghaNode f := by
  cases h with
  | record h => exact absurd hc (hw m h).1
  | @gha f h hf => exact ⟨f, h, hf, rfl⟩
  | provisioning h hnone => cases hc
  | event h hnone hp => cases hc

/-- The node of a request is that of no other one. -/
theorem ghaNode_injective (hs : Sound R) (hw : Watched R) {f f' : RecordNode} (hf : f ∈ R)
    (hf' : f' ∈ R) (hc : f.collection = .rfp) (hc' : f'.collection = .rfp)
    (h : ghaNode f = ghaNode f') : f = f' := by
  have hdid : (ghaNode f).did = (ghaNode f').did := by rw [h]
  have hrkey : (ghaNode f).rkey = (ghaNode f').rkey := by rw [h]
  refine hs.uris f f' (.record hf) (.record hf') ?_
  rw [(hw f hf).2, (hw f' hf').2, hc, hc']
  exact congrArg₂ (atUri · .rfp ·) hdid hrkey

/-- What the code looks at when an event comes in. -/
theorem mem_eventEdges (h : e ∈ eventEdges n nodeMap) : ∃ x ∈ nodeMap,
    refUri n.record "receipt" = some x.uri ∧ ∃ u, Requests {m | m ∈ nodeMap} x u ∧
      ∃ p ∈ nodeMap, IsProv u p ∧ e = ⟨n.uri, p.uri, n.rkey ++ ":payload"⟩ := by
  rw [eventEdges] at h
  split_ifs at h
  · cases h
  rcases hx : (refUri n.record "receipt").bind (lookup nodeMap) with - | x <;> rw [hx] at h
  · cases h
  obtain ⟨receiptUri, href, hlookup⟩ := Option.bind_eq_some_iff.1 hx
  obtain ⟨hmem, rfl⟩ := mem_of_lookup hlookup
  simp only at h
  rcases hp : (resolveReceiptVm x nodeMap).bind fun u => findProvisioningForVm u nodeMap with - | p <;>
    rw [hp] at h
  · cases h
  obtain ⟨u, hresolve, hfind⟩ := Option.bind_eq_some_iff.1 hp
  obtain ⟨hpmem, hprov⟩ := isProv_of_find hfind
  simp only at h
  split_ifs at h
  · cases h
  · exact ⟨x, hmem, href, u, requests_of_resolve hresolve, p, hpmem, hprov, List.mem_singleton.1 h⟩

end

/-! ## Fix-ups -/

section
variable {R : Set RecordNode} {nodeMap : List RecordNode} {n m v p : RecordNode} {e : GraphEdge}
  {res : FixUpResult} (hs : Sound R) (hb : Between R nodeMap) (hn : n ∈ R)
include hs hb hn

theorem exists_fixUps : ∃ res, fixUps n nodeMap = some res := by
  obtain ⟨edges, hedges, -⟩ := contractEdges_spec hs hb hn
  rw [fixUps]
  cases n.collection <;> first | exact ⟨_, rfl⟩ | (rw [hedges]; exact ⟨_, rfl⟩)

theorem node_of_receiptFixUps (hc : n.collection = .receipt)
    (hm : m ∈ (receiptFixUps n nodeMap).nodes) : Node R m := by
  by_cases h : ∃ v, Complete R n v
  · obtain ⟨v, h⟩ := h
    obtain ⟨p, hp, heq⟩ := receiptFixUps_eq hs hb h
    rw [heq] at hm
    rcases List.mem_append.1 hm with hm | hm
    · split_ifs at hm
      · cases hm
      · rw [List.mem_singleton.1 hm]
        exact hp.node
    · rcases hfind : findMarketEventForReceipt n.uri nodeMap with - | e <;> rw [hfind] at hm
      · rw [List.mem_singleton.1 hm]
        exact .event h (fun e he => not_isEvent_of_find hfind e (hb.record e he)) hp
      · cases hm
  · rw [receiptFixUps_eq_empty hs hb hn hc fun v hv => h ⟨v, hv⟩] at hm
    cases hm

theorem edge_of_receiptFixUps (hc : n.collection = .receipt)
    (he : e ∈ (receiptFixUps n nodeMap).edges) : Edge R e := by
  by_cases h : ∃ v, Complete R n v
  · obtain ⟨v, h⟩ := h
    obtain ⟨p, hp, heq⟩ := receiptFixUps_eq hs hb h
    rw [heq] at he
    rcases hfind : findMarketEventForReceipt n.uri nodeMap with - | m <;> rw [hfind] at he
    · cases he
    · obtain ⟨hm, hevent⟩ := isEvent_of_find hfind
      rw [List.mem_singleton.1 he]
      exact edge_of_event hs h hp (hb.node m hm) hevent
  · rw [receiptFixUps_eq_empty hs hb hn hc fun v hv => h ⟨v, hv⟩] at he
    cases he

/-- The nodes that are drawn should be there. -/
theorem node_of_fixUps (hres : fixUps n nodeMap = some res) (hm : m ∈ res.nodes) : Node R m := by
  obtain ⟨edges, hedges, -⟩ := contractEdges_spec hs hb hn
  rw [fixUps] at hres
  cases hc : n.collection <;> rw [hc] at hres
  case receipt =>
    obtain rfl := Option.some.inj hres
    exact node_of_receiptFixUps hs hb hn hc hm
  case rfp =>
    obtain rfl := Option.some.inj hres
    rw [rfpFixUps] at hm
    split_ifs at hm
    · cases hm
    · rw [List.mem_singleton.1 hm]
      exact .gha hn hc
  all_goals
    try rw [hedges] at hres
    obtain rfl := Option.some.inj hres
    cases hm

/-- The edges that are drawn should be there, if those of an event should. -/
theorem edge_of_fixUps (hw : Watched R) (hres : fixUps n nodeMap = some res)
    (hevent : n.collection = .event → ∀ e ∈ eventEdges n nodeMap, Edge R e) (he : e ∈ res.edges) :
    Edge R e := by
  obtain ⟨edges, hedges, hiff⟩ := contractEdges_spec hs hb hn
  rw [fixUps] at hres
  cases hc : n.collection <;> rw [hc] at hres
  case receipt =>
    obtain rfl := Option.some.inj hres
    exact edge_of_receiptFixUps hs hb hn hc he
  case rfp =>
    obtain rfl := Option.some.inj hres
    rw [rfpFixUps] at he
    split_ifs at he
    · cases he
    · rw [List.mem_singleton.1 he]
      exact .created hn hc
  case event =>
    obtain rfl := Option.some.inj hres
    exact hevent hc e he
  case rbac | vm =>
    rw [hedges] at hres
    obtain rfl := Option.some.inj hres
    exact edge_of_contractOf ((hiff e).1 he)
  case sshPublicKey =>
    rw [hedges] at hres
    obtain rfl := Option.some.inj hres
    rcases mem_tunnelEdges.1 he with he | ⟨m, hfind, rfl⟩
    · exact edge_of_contractOf ((hiff e).1 he)
    · obtain ⟨hm, hgha⟩ := of_find? hfind
      obtain ⟨f, hf, hcf, rfl⟩ := gha_of_node hw (hb.node m hm) hgha
      exact .tunnel hn hc hf hcf
  all_goals
    obtain rfl := Option.some.inj hres
    cases he

omit hn in
/-- What should be there for a receipt is there, or is drawn. -/
theorem receiptFixUps_complete (h : Complete R n v) (hp : Provisions R v p) :
    (p ∈ nodeMap ∨ p ∈ (receiptFixUps n nodeMap).nodes) ∧
      ((∀ e ∈ R, ¬ IsEvent n.uri e) → marketEvent n p.uri ∈ nodeMap ∨
        marketEvent n p.uri ∈ (receiptFixUps n nodeMap).nodes) ∧
      ∀ m ∈ R, IsEvent n.uri m →
        ⟨m.uri, p.uri, m.rkey ++ ":payload"⟩ ∈ (receiptFixUps n nodeMap).edges := by
  obtain ⟨p', hp', heq⟩ := receiptFixUps_eq hs hb h
  obtain rfl := provisions_unique hs h hp hp'
  rw [heq]
  refine ⟨?_, fun hnone => ?_, fun m hm hevent => ?_⟩
  · rcases hfind : findProvisioningForVm v.uri nodeMap with - | q
    · exact .inr (List.mem_append_left _ List.mem_cons_self)
    · obtain ⟨hq, hprov⟩ := isProv_of_find hfind
      rw [provisions_unique hs h hp (provisions_of_node hs h.vm (hb.node q hq) hprov)]
      exact .inl hq
  · rcases hfind : findMarketEventForReceipt n.uri nodeMap with - | m
    · exact .inr (List.mem_append_right _ List.mem_cons_self)
    · obtain ⟨hm, hevent⟩ := isEvent_of_find hfind
      rcases event_of_node hs h (hb.node m hm) hevent with hmem | ⟨-, q, hq, rfl⟩
      · exact absurd hevent (hnone m hmem)
      · rw [provisions_unique hs h hp hq]
        exact .inl hm
  · rcases hfind : findMarketEventForReceipt n.uri nodeMap with - | m'
    · exact absurd hevent (not_isEvent_of_find hfind m (hb.record m hm))
    · obtain ⟨hm', hevent'⟩ := isEvent_of_find hfind
      rcases event_of_node hs h (hb.node m' hm') hevent' with hmem | ⟨hnone, -⟩
      · rw [hs.events n v h m hm m' hmem hevent hevent']
        exact List.mem_cons_self
      · exact absurd hevent (hnone m hm)

end

end ComputeContract.MarketGraph
