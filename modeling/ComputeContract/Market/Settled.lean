import Mathlib.Data.Set.Insert
import ComputeContract.Lib.Along
import ComputeContract.Market.Graph

/-!
# The graph of a set of records

What a set of records says, in whatever order they come in: which nodes there should be and which
edges (`Node`, `Edge`). What follows from a record is drawn when it comes in, so the graph is this
one if no record that is there waits for a later one, and no choice is left between records that
could take the same place (`Admissible`).

* `provisions_unique`, `event_of_node`: a receipt has one provisioning, and one event;
* `node_insert_of_node`, `edge_insert_of_edge`: what was said stays, when a record comes in;
* `node_insert`, `edge_insert`: what a new record adds.
-/

namespace ComputeContract.MarketGraph

/-! ## What the records say -/

/-- It is the provisioning of a machine. -/
def IsProv (vmUri : String) (n : RecordNode) : Prop :=
  n.collection = .provisioning ∧ refUri n.record "vm" = some vmUri

/-- It is an event of a receipt. -/
def IsEvent (receiptUri : String) (n : RecordNode) : Prop :=
  n.collection = .event ∧ refUri n.record "receipt" = some receiptUri

section
variable (R : Set RecordNode)

/-- The request that a record is about asks for a machine. -/
def Requests (n : RecordNode) (vmUri : String) : Prop :=
  vmUri ≠ "" ∧ ∃ f ∈ R, refUri n.record "rfp" = some f.uri ∧ refUri f.record "payload" = some vmUri

/-- A receipt whose request and machine are there. -/
structure Complete (r v : RecordNode) : Prop where
  mem : r ∈ R
  collection : r.collection = .receipt
  vm : v ∈ R
  requests : Requests R r v.uri

/-- The provisioning of a machine: the one that was written, or that of a receipt. -/
inductive Provisions (v : RecordNode) : RecordNode → Prop
  | written {p} (h : p ∈ R) (hp : IsProv v.uri p) : Provisions v p
  | drawn {r} (h : Complete R r v) (hnone : ∀ p ∈ R, ¬ IsProv v.uri p) :
    Provisions v (provNode r v)

inductive Node : RecordNode → Prop
  | record {n} (h : n ∈ R) : Node n
  | gha {f} (h : f ∈ R) (hf : f.collection = .rfp) : Node (ghaNode f)
  | provisioning {r v} (h : Complete R r v) (hnone : ∀ p ∈ R, ¬ IsProv v.uri p) :
    Node (provNode r v)
  | event {r v p} (h : Complete R r v) (hnone : ∀ e ∈ R, ¬ IsEvent r.uri e)
    (hp : Provisions R v p) : Node (marketEvent r p.uri)

/-- A grant is for the role of a machine. -/
structure Grant (b v : RecordNode) : Prop where
  mem : b ∈ R
  collection : b.collection = .rbac
  vm : v ∈ R
  vm_collection : v.collection = .vm
  role : ∃ roleSubs, rbacRoleSubs b.record = some roleSubs ∧ hasRole roleSubs v

/-- A key was written by a machine of this role. -/
structure KeyOf (s v : RecordNode) : Prop where
  mem : s ∈ R
  collection : s.collection = .sshPublicKey
  service : text s.record "service" = text v.record "role"

/-- A grant allows a route. -/
def Allows (b : RecordNode) (route : String) : Prop :=
  ∃ routes, rbacRoutes b.record = some routes ∧ route ∈ routes

/-- The edges between a grant, a machine that it is for, and the keys of the machine. -/
inductive Contract (b v : RecordNode) : GraphEdge → Prop
  | route {route} (hr : Allows b route) (hc : isCreateRecord route = false) :
    Contract b v ⟨v.uri, b.uri, route⟩
  | createRecord {s route} (hs : KeyOf R s v) (hr : Allows b route) (hc : isCreateRecord route) :
    Contract b v ⟨s.uri, b.uri, route⟩
  | postKey {s} (hs : KeyOf R s v) : Contract b v ⟨v.uri, s.uri, "post public key"⟩

/-- The keys that are looked at when `n` comes in. -/
def keysFor (n : RecordNode) : Set RecordNode :=
  {s | s ∈ R ∧ (n.collection = .sshPublicKey → s = n)}

/-- An edge of a grant and a machine that are looked at when `n` comes in. -/
def ContractOf (n : RecordNode) (e : GraphEdge) : Prop :=
  ∃ b v, Grant R b v ∧ (n.collection = .rbac → b = n) ∧ (n.collection = .vm → v = n) ∧
    Contract (keysFor R n) b v e

/-- The records whose arrival is looked at for the edges of grants. -/
def IsParty (n : RecordNode) : Prop :=
  n.collection = .rbac ∨ n.collection = .vm ∨ n.collection = .sshPublicKey

inductive Edge : GraphEdge → Prop
  | ref {n e} (h : Node R n) (he : e ∈ extractEdges n) : Edge e
  | created {f} (h : f ∈ R) (hf : f.collection = .rfp) : Edge ⟨(ghaNode f).uri, f.uri, "created"⟩
  | payload {r v e p} (h : Complete R r v) (he : e ∈ R) (hr : IsEvent r.uri e)
    (hp : Provisions R v p) : Edge ⟨e.uri, p.uri, e.rkey ++ ":payload"⟩
  | contract {b v e} (h : Grant R b v) (he : Contract R b v e) : Edge e
  | tunnel {s f} (hs : s ∈ R) (hcs : s.collection = .sshPublicKey) (hf : f ∈ R)
    (hcf : f.collection = .rfp) : Edge ⟨s.uri, (ghaNode f).uri, "tunnel"⟩

/-! ## Conditions -/

/-- Nothing has to be chosen between two records, and none is taken for another. -/
structure Sound : Prop where
  uris : ∀ n m, Node R n → Node R m → n.uri = m.uri → n = m
  /-- What a receipt names as its request, and that as the machine, is a record if it is a node. -/
  requests : ∀ r ∈ R, r.collection = .receipt → ∀ f, Node R f → refUri r.record "rfp" = some f.uri →
    f ∈ R
  machines : ∀ r ∈ R, r.collection = .receipt → ∀ v, Node R v → Requests R r v.uri → v ∈ R
  provs : ∀ r v, Complete R r v → ∀ p ∈ R, ∀ p' ∈ R, IsProv v.uri p → IsProv v.uri p' → p = p'
  events : ∀ r v, Complete R r v → ∀ e ∈ R, ∀ e' ∈ R, IsEvent r.uri e → IsEvent r.uri e' → e = e'
  /-- The provisioning is drawn for one receipt. -/
  receipts : ∀ r r' v, Complete R r v → Complete R r' v → (∀ p ∈ R, ¬ IsProv v.uri p) → r = r'
  vms : ∀ b v v', Grant R b v → Grant R b v' → v = v'
  keys : ∀ b v s s', Grant R b v → KeyOf R s v → KeyOf R s' v → s = s'
  rfps : ∀ s ∈ R, s.collection = .sshPublicKey → ∀ f ∈ R, ∀ f' ∈ R, f.collection = .rfp →
    f'.collection = .rfp → f = f'
  /-- No role and no policy of a grant is `null`, and it can be drawn. -/
  grants : ∀ b ∈ R, b.collection = .rbac →
    (rbacRoleSubs b.record).isSome ∧ (rbacRoutes b.record).isSome ∧ hasDedupKey b

/-- No record that is there waits for `n`. -/
structure InTurn (n : RecordNode) : Prop where
  rfp : n ∉ R → ∀ r ∈ R, r.collection = .receipt → refUri r.record "rfp" ≠ some n.uri
  vm : n ∉ R → ∀ r ∈ R, r.collection = .receipt → ¬ Requests R r n.uri
  provisioning : n ∉ R → ∀ r v, Complete R r v → ¬ IsProv v.uri n
  /-- An event comes before its receipt, the first time at least. -/
  event : n.collection = .event → ∀ x, Node R x ∨ x = n → refUri n.record "receipt" = some x.uri →
    ∀ vmUri, Requests {m | Node R m ∨ m = n} x vmUri → ∀ p, Node R p → IsProv vmUri p →
    n ∈ R ∧ ∃ v, v.uri = vmUri ∧ Complete R x v
  ssh : n ∉ R → n.collection = .rfp → ∀ s ∈ R, s.collection ≠ .sshPublicKey

/-- A record may come in when those of `R` are there. -/
structure Admissible (n : RecordNode) : Prop where
  sound : Sound (insert n R)
  inTurn : InTurn R n

end

/-! ## One record more -/

section
variable {R R' : Set RecordNode} {n m r v p b s : RecordNode} {e : GraphEdge} {u : String}

theorem Requests.mono (hR : R ⊆ R') (h : Requests R n u) : Requests R' n u :=
  ⟨h.1, h.2.imp fun _ hf => ⟨hR hf.1, hf.2⟩⟩

theorem Complete.mono (hR : R ⊆ R') (h : Complete R r v) : Complete R' r v :=
  ⟨hR h.mem, h.collection, hR h.vm, h.requests.mono hR⟩

theorem Grant.mono (hR : R ⊆ R') (h : Grant R b v) : Grant R' b v :=
  ⟨hR h.mem, h.collection, hR h.vm, h.vm_collection, h.role⟩

theorem KeyOf.mono (hR : R ⊆ R') (h : KeyOf R s v) : KeyOf R' s v :=
  ⟨hR h.mem, h.collection, h.service⟩

theorem Contract.mono (hR : R ⊆ R') (h : Contract R b v e) : Contract R' b v e := by
  cases h with
  | route hr hc => exact .route hr hc
  | createRecord hs hr hc => exact .createRecord (hs.mono hR) hr hc
  | postKey hs => exact .postKey (hs.mono hR)

theorem isProv_provNode (r v : RecordNode) : IsProv v.uri (provNode r v) := ⟨rfl, rfl⟩

theorem isEvent_marketEvent (r : RecordNode) (u : String) : IsEvent r.uri (marketEvent r u) :=
  ⟨rfl, rfl⟩

theorem Provisions.node (h : Provisions R v p) : Node R p := by
  cases h with
  | written h hp => exact .record h
  | drawn h hnone => exact .provisioning h hnone

theorem Provisions.isProv (h : Provisions R v p) : IsProv v.uri p := by
  cases h with
  | written h hp => exact hp
  | drawn h hnone => exact isProv_provNode _ v

theorem exists_provisions (h : Complete R r v) : ∃ p, Provisions R v p := by
  by_cases hp : ∃ p ∈ R, IsProv v.uri p
  · obtain ⟨p, hp, hprov⟩ := hp
    exact ⟨p, .written hp hprov⟩
  · exact ⟨provNode r v, .drawn h fun p hmem hprov => hp ⟨p, hmem, hprov⟩⟩

/-- A node that provisions a machine is its provisioning. -/
theorem provisions_of_node (hs : Sound R) (hv : v ∈ R) (h : Node R p) (hp : IsProv v.uri p) :
    Provisions R v p := by
  cases h with
  | record h => exact .written h hp
  | gha h hf => cases hp.1
  | @provisioning r' v' h hnone =>
    obtain rfl : v' = v := hs.uris v' v (.record h.vm) (.record hv) (Option.some.inj hp.2)
    exact .drawn h hnone
  | event h hnone hp' => cases hp.1

theorem provisions_unique (hs : Sound R) (h : Complete R r v) {p p' : RecordNode}
    (hp : Provisions R v p) (hp' : Provisions R v p') : p = p' := by
  cases hp with
  | written hp hprov =>
    cases hp' with
    | written hp' hprov' => exact hs.provs r v h p hp p' hp' hprov hprov'
    | drawn h' hnone => exact absurd hprov (hnone p hp)
  | @drawn r₁ h₁ hnone =>
    cases hp' with
    | written hp' hprov' => exact absurd hprov' (hnone p' hp')
    | @drawn r₂ h₂ _ => rw [hs.receipts r₁ r₂ v h₁ h₂ hnone]

/-- A receipt is about one machine. -/
theorem complete_unique (hs : Sound R) {v v' : RecordNode} (h : Complete R r v)
    (h' : Complete R r v') : v = v' := by
  obtain ⟨-, f, hf, hrfp, hpayload⟩ := h.requests
  obtain ⟨-, f', hf', hrfp', hpayload'⟩ := h'.requests
  obtain rfl : f = f' :=
    hs.uris f f' (.record hf) (.record hf') (Option.some.inj (hrfp.symm.trans hrfp'))
  exact hs.uris v v' (.record h.vm) (.record h'.vm) (Option.some.inj (hpayload.symm.trans hpayload'))

/-- A node that is an event of a receipt was written, or is drawn for it. -/
theorem event_of_node (hs : Sound R) (h : Complete R r v) (hm : Node R m) (he : IsEvent r.uri m) :
    m ∈ R ∨ (∀ e ∈ R, ¬ IsEvent r.uri e) ∧ ∃ p, Provisions R v p ∧ m = marketEvent r p.uri := by
  cases hm with
  | record hm => exact .inl hm
  | gha hf hc => cases he.1
  | provisioning h' hnone => cases he.1
  | @event r' v' p h' hnone hp =>
    obtain rfl : r' = r := hs.uris r' r (.record h'.mem) (.record h.mem) (Option.some.inj he.2)
    obtain rfl := complete_unique hs h h'
    exact .inr ⟨hnone, p, hp, rfl⟩

end

/-! ## What a new record adds -/

section
variable {R : Set RecordNode} {n m r v p b s : RecordNode} {e : GraphEdge} {u : String}
  (hn : n ∉ R) (hturn : InTurn R n)
include hn hturn

theorem complete_of_insert (h : Complete (insert n R) r v) (hr : r ∈ R) : Complete R r v := by
  obtain ⟨hne, f, hf, hrfp, hpayload⟩ := h.requests
  have hfR : f ∈ R := by
    rcases hf with rfl | hf
    · exact absurd hrfp (hturn.rfp hn r hr h.collection)
    · exact hf
  have hreq : Requests R r v.uri := ⟨hne, f, hfR, hrfp, hpayload⟩
  rcases h.vm with rfl | hv
  · exact absurd hreq (hturn.vm hn r hr h.collection)
  · exact ⟨hr, h.collection, hv, hreq⟩

theorem not_isProv_insert (h : Complete R r v) (hnone : ∀ p ∈ R, ¬ IsProv v.uri p) :
    ∀ p ∈ insert n R, ¬ IsProv v.uri p := by
  rintro p (rfl | hp)
  · exact hturn.provisioning hn r v h
  · exact hnone p hp

theorem not_isEvent (h : Complete R r v) : ¬ IsEvent r.uri n := by
  rintro ⟨hc, href⟩
  obtain ⟨p, hp⟩ := exists_provisions h
  have hreq : Requests {m | Node R m ∨ m = n} r v.uri := h.requests.mono fun m hm => .inl (.record hm)
  exact hn (hturn.event hc r (.inl (.record h.mem)) href v.uri hreq p hp.node hp.isProv).1

theorem provisions_insert (h : Provisions R v p) : Provisions (insert n R) v p := by
  cases h with
  | written h hp => exact .written (.inr h) hp
  | drawn h hnone =>
    exact .drawn (h.mono (Set.subset_insert n R)) (not_isProv_insert hn hturn h hnone)

theorem provisions_of_insert (hs : Sound (insert n R)) (hc : Complete R r v)
    (h : Provisions (insert n R) v p) : Provisions R v p := by
  cases h with
  | written h hp =>
    rcases h with rfl | h
    · exact absurd hp (hturn.provisioning hn r v hc)
    · exact .written h hp
  | @drawn r' h hnone =>
    have hr' : r' ∈ R := by
      rw [hs.receipts r' r v h (hc.mono (Set.subset_insert n R)) hnone]
      exact hc.mem
    exact .drawn (complete_of_insert hn hturn h hr') fun p hp => hnone p (.inr hp)

/-- What was said of the nodes stays. -/
theorem node_insert_of_node (h : Node R m) : Node (insert n R) m := by
  cases h with
  | record h => exact .record (.inr h)
  | gha h hf => exact .gha (.inr h) hf
  | provisioning h hnone =>
    exact .provisioning (h.mono (Set.subset_insert n R)) (not_isProv_insert hn hturn h hnone)
  | @event r v p h hnone hp =>
    refine .event (h.mono (Set.subset_insert n R)) ?_ (provisions_insert hn hturn hp)
    rintro e (rfl | he)
    · exact not_isEvent hn hturn h
    · exact hnone e he

/-- The nodes that come with a new record. -/
theorem node_insert (hs : Sound (insert n R)) (h : Node (insert n R) m) :
    Node R m ∨ m = n ∨ n.collection = .rfp ∧ m = ghaNode n ∨
      ∃ v, Complete (insert n R) n v ∧
        ((∀ p ∈ insert n R, ¬ IsProv v.uri p) ∧ m = provNode n v ∨
          (∀ e ∈ insert n R, ¬ IsEvent n.uri e) ∧
            ∃ p, Provisions (insert n R) v p ∧ m = marketEvent n p.uri) := by
  cases h with
  | record h =>
    rcases h with rfl | h
    · exact .inr (.inl rfl)
    · exact .inl (.record h)
  | gha h hf =>
    rcases h with rfl | h
    · exact .inr (.inr (.inl ⟨hf, rfl⟩))
    · exact .inl (.gha h hf)
  | @provisioning r v h hnone =>
    rcases h.mem with rfl | hr
    · exact .inr (.inr (.inr ⟨v, h, .inl ⟨hnone, rfl⟩⟩))
    · exact .inl (.provisioning (complete_of_insert hn hturn h hr) fun p hp => hnone p (.inr hp))
  | @event r v p h hnone hp =>
    rcases h.mem with rfl | hr
    · exact .inr (.inr (.inr ⟨v, h, .inr ⟨hnone, p, hp, rfl⟩⟩))
    · have hc := complete_of_insert hn hturn h hr
      exact .inl (.event hc (fun e he => hnone e (.inr he)) (provisions_of_insert hn hturn hs hc hp))

/-- What was said of the edges stays. -/
theorem edge_insert_of_edge (h : Edge R e) : Edge (insert n R) e := by
  cases h with
  | ref h he => exact .ref (node_insert_of_node hn hturn h) he
  | created h hf => exact .created (.inr h) hf
  | payload h he hr hp =>
    exact .payload (h.mono (Set.subset_insert n R)) (.inr he) hr (provisions_insert hn hturn hp)
  | contract h he => exact .contract (h.mono (Set.subset_insert n R)) (he.mono (Set.subset_insert n R))
  | tunnel hs hcs hf hcf => exact .tunnel (.inr hs) hcs (.inr hf) hcf

omit hn hturn in
theorem keysFor_of_ne (hne : n.collection ≠ .sshPublicKey) : R ⊆ keysFor R n :=
  fun _ hm => ⟨hm, fun hc => absurd hc hne⟩

omit hn hturn in
theorem contract_insert (h : Grant (insert n R) b v) (he : Contract (insert n R) b v e) :
    Edge R e ∨ IsParty n ∧ ContractOf (insert n R) n e := by
  by_cases hb : b = n
  · have hc : n.collection = .rbac := hb ▸ h.collection
    refine .inr ⟨.inl hc, b, v, h, fun _ => hb, fun hvm => ?_, he.mono (keysFor_of_ne ?_)⟩
    · cases hc.symm.trans hvm
    · rw [hc]
      decide
  by_cases hv : v = n
  · have hc : n.collection = .vm := hv ▸ h.vm_collection
    refine .inr ⟨.inr (.inl hc), b, v, h, fun hrbac => ?_, fun _ => hv, he.mono (keysFor_of_ne ?_)⟩
    · cases hc.symm.trans hrbac
    · rw [hc]
      decide
  have hold : Grant R b v :=
    ⟨h.mem.resolve_left hb, h.collection, h.vm.resolve_left hv, h.vm_collection, h.role⟩
  have hkey : ∀ s, KeyOf (insert n R) s v → KeyOf R s v ∨ n.collection = .sshPublicKey ∧ s = n := by
    intro s hs
    rcases hs.mem with rfl | hmem
    · exact .inr ⟨hs.collection, rfl⟩
    · exact .inl ⟨hmem, hs.collection, hs.service⟩
  have hnew (hssh : n.collection = .sshPublicKey) (hc : Contract (keysFor (insert n R) n) b v e) :
      IsParty n ∧ ContractOf (insert n R) n e := by
    refine ⟨.inr (.inr hssh), b, v, h, fun hrbac => ?_, fun hvm => ?_, hc⟩
    · cases hssh.symm.trans hrbac
    · cases hssh.symm.trans hvm
  cases he with
  | route hr hc => exact .inl (.contract hold (.route hr hc))
  | createRecord hs hr hc =>
    rcases hkey _ hs with hs' | ⟨hssh, rfl⟩
    · exact .inl (.contract hold (.createRecord hs' hr hc))
    · exact .inr (hnew hssh (.createRecord ⟨⟨hs.mem, fun _ => rfl⟩, hs.collection, hs.service⟩ hr hc))
  | postKey hs =>
    rcases hkey _ hs with hs' | ⟨hssh, rfl⟩
    · exact .inl (.contract hold (.postKey hs'))
    · exact .inr (hnew hssh (.postKey ⟨⟨hs.mem, fun _ => rfl⟩, hs.collection, hs.service⟩))

/-- The edges that come with a new record. -/
theorem edge_insert (hs : Sound (insert n R)) (h : Edge (insert n R) e) :
    Edge R e ∨ (∃ m, Node (insert n R) m ∧ e ∈ extractEdges m) ∨
      n.collection = .rfp ∧ e = ⟨(ghaNode n).uri, n.uri, "created"⟩ ∨
      (∃ v e' p, Complete (insert n R) n v ∧ e' ∈ R ∧ IsEvent n.uri e' ∧
        Provisions (insert n R) v p ∧ e = ⟨e'.uri, p.uri, e'.rkey ++ ":payload"⟩) ∨
      IsParty n ∧ ContractOf (insert n R) n e ∨
      n.collection = .sshPublicKey ∧
        ∃ f ∈ R, f.collection = .rfp ∧ e = ⟨n.uri, (ghaNode f).uri, "tunnel"⟩ := by
  cases h with
  | ref h he => exact .inr (.inl ⟨_, h, he⟩)
  | created h hf =>
    rcases h with rfl | h
    · exact .inr (.inr (.inl ⟨hf, rfl⟩))
    · exact .inl (.created h hf)
  | @payload r v e' p h he hr hp =>
    rcases h.mem with rfl | hmem
    · rcases he with rfl | he
      · cases h.collection.symm.trans hr.1
      · exact .inr (.inr (.inr (.inl ⟨v, e', p, h, he, hr, hp, rfl⟩)))
    · have hc := complete_of_insert hn hturn h hmem
      rcases he with rfl | he
      · exact absurd hr (not_isEvent hn hturn hc)
      · exact .inl (.payload hc he hr (provisions_of_insert hn hturn hs hc hp))
  | @contract b v e h he =>
    rcases contract_insert h he with hold | hnew
    · exact .inl hold
    · exact .inr (.inr (.inr (.inr (.inl hnew))))
  | tunnel hs hcs hf hcf =>
    rcases hf with rfl | hf
    · rcases hs with rfl | hs
      · cases hcs.symm.trans hcf
      · exact absurd hcs (hturn.ssh hn hcf _ hs)
    · rcases hs with rfl | hs
      · exact .inr (.inr (.inr (.inr (.inr ⟨hcs, _, hf, hcf, rfl⟩))))
      · exact .inl (.tunnel hs hcs hf hcf)

end

end ComputeContract.MarketGraph
