import ComputeContract.Market.FixUps

/-!
# Runs of the market graph

The graph that the viewer builds is the one that the records say, as long as every record is
admissible where it comes in.

* `mem_fixUps_of_node`, `mem_fixUps_of_edge`: what comes with a new record is drawn;
* `inv_processRecord`: one record;
* `settled_run`: the graph after a run;
* `same_graph`: two runs of the same frames.
-/

namespace ComputeContract.MarketGraph

/-! ## The graph -/

section
variable {R : Set RecordNode} {g : Graph} {n m : RecordNode} {e : GraphEdge}

/-- The references of the nodes are there. -/
def Linked (g : Graph) : Prop := ∀ m ∈ g.nodes, ∀ e ∈ extractEdges m, e ∈ g.edges

theorem lookup_isSome : (lookup g.nodes n.uri).isSome ↔ ∃ m ∈ g.nodes, m.uri = n.uri := by
  rw [lookup, List.find?_isSome]
  simp

theorem ingest_spec (hl : Linked g) (hu : ∀ m ∈ g.nodes, m.uri = n.uri → m = n) :
    (∀ m, m ∈ (ingest g n).nodes ↔ m ∈ g.nodes ∨ m = n) ∧
      (∀ e, e ∈ (ingest g n).edges ↔ e ∈ g.edges ∨ e ∈ extractEdges n) ∧ Linked (ingest g n) := by
  rw [ingest]
  split_ifs with h
  · obtain ⟨m, hm, huri⟩ := lookup_isSome.1 h
    obtain rfl := hu m hm huri
    exact ⟨fun m' => ⟨.inl, fun h => h.elim id fun h => h ▸ hm⟩,
      fun e => ⟨.inl, fun h => h.elim id fun h => hl m hm e h⟩, hl⟩
  · refine ⟨fun m => by simp, fun e => by simp, fun m hm e he => ?_⟩
    rcases List.mem_append.1 hm with hm | hm
    · exact List.mem_append_left _ (hl m hm e he)
    · obtain rfl := List.mem_singleton.1 hm
      exact List.mem_append_right _ he

theorem hasDedupKey_of_node (hs : Sound R) (h : Node R m) : hasDedupKey m := by
  by_cases hc : m.collection = .rbac
  · exact (hs.grants m (record_of_node h (.inl hc)) hc).2.2
  · simp [hasDedupKey, hc]

/-- All nodes that should be there are inserted. -/
theorem ingestAll_spec (hs : Sound R) {new : List RecordNode} (hl : Linked g)
    (hg : ∀ m ∈ g.nodes, Node R m) (hnew : ∀ m ∈ new, Node R m) :
    ∃ g', ingestAll g new = (g', true) ∧ (∀ m, m ∈ g'.nodes ↔ m ∈ g.nodes ∨ m ∈ new) ∧
      ∀ e, e ∈ g'.edges ↔ e ∈ g.edges ∨ ∃ m ∈ new, e ∈ extractEdges m := by
  induction new generalizing g with
  | nil => exact ⟨g, rfl, by simp, by simp⟩
  | cons n new ih =>
    obtain ⟨hn, hnew⟩ := List.forall_mem_cons.1 hnew
    obtain ⟨hnodes, hedges, hl'⟩ := ingest_spec (n := n) hl fun m hm huri =>
      hs.uris m n (hg m hm) hn huri
    have hg' : ∀ m ∈ (ingest g n).nodes, Node R m := fun m hm =>
      ((hnodes m).1 hm).elim (hg m) fun heq => heq ▸ hn
    obtain ⟨g', hrun, hnodes', hedges'⟩ := ih hl' hg' hnew
    refine ⟨g', ?_, fun m => ?_, fun e => ?_⟩
    · rw [ingestAll]
      split_ifs with hsome hemits
      · rwa [ingest, if_pos hsome] at hrun
      · exact hrun
      · exact absurd (List.all_eq_true.2 fun m hm => hasDedupKey_of_node hs (hg' m hm)) hemits
    · rw [hnodes', hnodes, List.mem_cons, or_assoc]
    · rw [hedges', hedges, List.exists_mem_cons_iff, or_assoc]

end

/-! ## One record -/

section
variable {R : Set RecordNode} {g : Graph} {nodeMap : List RecordNode} {n m : RecordNode}
  {e : GraphEdge} {res : FixUpResult}

section
variable (hmem : ∀ m, m ∈ nodeMap ↔ Node R m ∨ m = n) (hn : n ∉ R) (hs : Sound (insert n R))
  (hturn : InTurn R n) (hb : Between (insert n R) nodeMap) (hres : fixUps n nodeMap = some res)
include hmem hn hs hturn hb hres

/-- The nodes that come with a new record are drawn. -/
theorem mem_fixUps_of_node (h : Node (insert n R) m) : m ∈ nodeMap ∨ m ∈ res.nodes := by
  rcases node_insert hn hturn hs h with h | rfl | ⟨hc, rfl⟩ | ⟨v, hv, h⟩
  · exact .inl ((hmem m).2 (.inl h))
  · exact .inl ((hmem m).2 (.inr rfl))
  · rw [fixUps, hc] at hres
    obtain rfl := Option.some.inj hres
    rw [rfpFixUps]
    split_ifs with hsome
    · obtain ⟨m, hm⟩ := Option.isSome_iff_exists.1 hsome
      obtain ⟨hm, huri⟩ := mem_of_lookup hm
      exact .inl (hs.uris m (ghaNode n) (hb.node m hm) h huri ▸ hm)
    · exact .inr List.mem_cons_self
  · rw [fixUps, hv.collection] at hres
    obtain rfl := Option.some.inj hres
    rcases h with ⟨hnone, rfl⟩ | ⟨hnone, p, hp, rfl⟩
    · exact (receiptFixUps_complete hs hb hv (.drawn hv hnone)).1
    · exact (receiptFixUps_complete hs hb hv hp).2.1 hnone

/-- The edges that come with a new record are drawn. -/
theorem mem_fixUps_of_edge (hw : Watched (insert n R)) (h : Edge (insert n R) e) :
    Edge R e ∨ (∃ m, Node (insert n R) m ∧ e ∈ extractEdges m) ∨ e ∈ res.edges := by
  obtain ⟨edges, hedges, hiff⟩ := contractEdges_spec hs hb (Set.mem_insert n R)
  have hwR : Watched R := fun m hm => hw m (.inr hm)
  rcases edge_insert hn hturn hs h with
    h | h | ⟨hc, rfl⟩ | ⟨v, m, p, hv, hm, hevent, hp, rfl⟩ | ⟨hparty, hc⟩ | ⟨hc, f, hf, hcf, rfl⟩
  · exact .inl h
  · exact .inr (.inl h)
  · rw [fixUps, hc] at hres
    obtain rfl := Option.some.inj hres
    rw [rfpFixUps]
    split_ifs with hsome
    · -- the node of another request would have its URI
      obtain ⟨m, hm⟩ := Option.isSome_iff_exists.1 hsome
      obtain ⟨hm, huri⟩ := mem_of_lookup hm
      obtain rfl := hs.uris m (ghaNode n) (hb.node m hm) (.gha (.inl rfl) hc) huri
      rcases (hmem _).1 hm with hold | heq
      · obtain ⟨f, hf, hcf, heq⟩ := gha_of_node hwR hold rfl
        exact absurd (ghaNode_injective hs hw (.inl rfl) (.inr hf) hc hcf heq ▸ hf) hn
      · cases hc.symm.trans (congrArg RecordNode.collection heq.symm)
    · exact .inr (.inr List.mem_cons_self)
  · rw [fixUps, hv.collection] at hres
    obtain rfl := Option.some.inj hres
    exact .inr (.inr ((receiptFixUps_complete hs hb hv hp).2.2 m (.inr hm) hevent))
  · have he : e ∈ edges := (hiff e).2 hc
    refine .inr (.inr ?_)
    rcases hparty with hc | hc | hc <;> rw [fixUps, hc, hedges] at hres <;>
      obtain rfl := Option.some.inj hres
    · exact he
    · exact he
    · exact mem_tunnelEdges.2 (.inl he)
  · rw [fixUps, hc, hedges] at hres
    obtain rfl := Option.some.inj hres
    refine .inr (.inr (mem_tunnelEdges.2 (.inr ⟨ghaNode f, ?_, rfl⟩)))
    refine find?_eq_some ((hmem _).2 (.inl (.gha hf hcf))) rfl fun m hm hgha => ?_
    obtain ⟨f', hf', hcf', rfl⟩ := gha_of_node hw (hb.node m hm) hgha
    rw [hs.rfps n (.inl rfl) hc f' hf' f (.inr hf) hcf' hcf]

end

/-- The graph is that of the records. -/
structure Inv (R : Set RecordNode) (g : Graph) : Prop where
  nodes : ∀ m, m ∈ g.nodes ↔ Node R m
  edges : ∀ e, e ∈ g.edges ↔ Edge R e

/-- An event that comes in again gets the edge that it has. -/
theorem edge_of_eventEdges (hmem : ∀ m, m ∈ nodeMap ↔ Node R m ∨ m = n) (hs : Sound (insert n R))
    (hturn : InTurn R n) (hc : n.collection = .event) (he : e ∈ eventEdges n nodeMap) :
    Edge (insert n R) e := by
  obtain ⟨x, hx, href, u, hreq, p, hp, hprov, rfl⟩ := mem_eventEdges he
  have hset : {m | m ∈ nodeMap} = {m | Node R m ∨ m = n} := Set.ext hmem
  have hpR : Node R p := by
    rcases (hmem p).1 hp with hp | rfl
    · exact hp
    · cases hc.symm.trans hprov.1
  obtain ⟨hn, v, rfl, hv⟩ := hturn.event hc x ((hmem x).1 hx) href u (hset ▸ hreq) p hpR hprov
  rw [Set.insert_eq_of_mem hn] at hs ⊢
  exact .payload hv hn ⟨hc, href⟩ (provisions_of_node hs hv.vm hpR hprov)

/-- The graph of the records, when one more comes in. -/
theorem inv_processRecord (hinv : Inv R g) (hw : Watched (insert n R)) (h : Admissible R n) :
    Inv (insert n R) (processRecord g n) := by
  obtain ⟨hs, hturn⟩ := h
  have hnode : ∀ m, Node R m → Node (insert n R) m := by
    intro m hm
    by_cases hn : n ∈ R
    · rwa [Set.insert_eq_of_mem hn]
    · exact node_insert_of_node hn hturn hm
  have hedge : ∀ e, Edge R e → Edge (insert n R) e := by
    intro e he
    by_cases hn : n ∈ R
    · rwa [Set.insert_eq_of_mem hn]
    · exact edge_insert_of_edge hn hturn he
  have hn' : Node (insert n R) n := .record (Set.mem_insert n R)
  have hl : Linked g := fun m hm e he => (hinv.edges e).2 (.ref ((hinv.nodes m).1 hm) he)
  obtain ⟨hnodes₁, hedges₁, hl₁⟩ := ingest_spec (n := n) hl fun m hm huri =>
    hs.uris m n (hnode m ((hinv.nodes m).1 hm)) hn' huri
  have hmem : ∀ m, m ∈ (ingest g n).nodes ↔ Node R m ∨ m = n := fun m => by
    rw [hnodes₁, hinv.nodes]
  have hb : Between (insert n R) (ingest g n).nodes :=
    ⟨fun m hm => ((hmem m).1 hm).elim (hnode m) fun heq => heq ▸ hn',
      fun m hm => (hmem m).2 (hm.elim .inr fun hm => .inl (.record hm))⟩
  obtain ⟨res, hres⟩ := exists_fixUps hs hb (Set.mem_insert n R)
  have hnew : ∀ m ∈ res.nodes, Node (insert n R) m := fun m hm =>
    node_of_fixUps hs hb (Set.mem_insert n R) hres hm
  have hnewEdges : ∀ e ∈ res.edges, Edge (insert n R) e := fun e he =>
    edge_of_fixUps hs hb (Set.mem_insert n R) hw hres
      (fun hc e he => edge_of_eventEdges hmem hs hturn hc he) he
  obtain ⟨g', hg', hnodes₂, hedges₂⟩ := ingestAll_spec hs hl₁ hb.node hnew
  have heq : processRecord g n = { g' with edges := res.edges.foldl pushEdge g'.edges } := by
    rw [processRecord, hres]
    simp only [hg']
  have hnodes : ∀ m, m ∈ g'.nodes ↔ Node (insert n R) m := by
    intro m
    rw [hnodes₂]
    refine ⟨fun h => h.elim (hb.node m) (hnew m), fun h => ?_⟩
    by_cases hn : n ∈ R
    · rw [Set.insert_eq_of_mem hn] at h
      exact .inl ((hmem m).2 (.inl h))
    · exact mem_fixUps_of_node hmem hn hs hturn hb hres h
  rw [heq]
  refine ⟨hnodes, fun e => ?_⟩
  rw [mem_foldl_pushEdge, hedges₂, hedges₁, hinv.edges]
  constructor
  · rintro (((h | h) | ⟨m, hm, he⟩) | h)
    · exact hedge e h
    · exact .ref hn' h
    · exact .ref (hnew m hm) he
    · exact hnewEdges e h
  · intro h
    by_cases hn : n ∈ R
    · rw [Set.insert_eq_of_mem hn] at h
      exact .inl (.inl (.inl h))
    · rcases mem_fixUps_of_edge hmem hn hs hturn hb hres hw h with h | ⟨m, hm, he⟩ | h
      · exact .inl (.inl (.inl h))
      · rcases (hnodes₂ m).1 ((hnodes m).2 hm) with hm | hm
        · exact .inl (.inl (by rw [← hinv.edges, ← hedges₁]; exact hl₁ m hm e he))
        · exact .inl (.inr ⟨m, hm, he⟩)
      · exact .inr h

end

/-! ## Runs -/

/-- The records that are reported. -/
def records (arrivals : List (ℤ × Json)) : List RecordNode :=
  arrivals.filterMap fun arrival => (parseJetstreamFrame arrival.1 arrival.2).join

/-- The frame has a time of its own. -/
def Dated (frame : Json) : Prop := ∃ us, member frame "time_us" = some (.number us)

/-- Every record is admissible where it comes in, and has a time of its own. -/
structure Careful (arrivals : List (ℤ × Json)) : Prop where
  dated : ∀ arrival ∈ arrivals, ∀ n, parseJetstreamFrame arrival.1 arrival.2 = some (some n) →
    Dated arrival.2
  admissible : Along (fun R n => insert n R) Admissible ∅ (records arrivals)

/-- The receipt has one event and its machine one provisioning, and these are linked. -/
def HasOne (g : Graph) (r v : RecordNode) : Prop :=
  ∃ e p, (∀ m, m ∈ g.nodes ∧ IsEvent r.uri m ↔ m = e) ∧ (∀ m, m ∈ g.nodes ∧ IsProv v.uri m ↔ m = p) ∧
    ⟨e.uri, p.uri, e.rkey ++ ":payload"⟩ ∈ g.edges

section
variable {R : Set RecordNode} {g : Graph} {n m r v : RecordNode} {arrivals arrivals' : List (ℤ × Json)}

theorem mem_records : n ∈ records arrivals ↔
    ∃ now frame, (now, frame) ∈ arrivals ∧ parseJetstreamFrame now frame = some (some n) := by
  rw [records, List.mem_filterMap]
  constructor
  · rintro ⟨⟨now, frame⟩, hmem, hparse⟩
    exact ⟨now, frame, hmem, Option.join_eq_some_iff.1 hparse⟩
  · rintro ⟨now, frame, hmem, hparse⟩
    exact ⟨(now, frame), hmem, Option.join_eq_some_iff.2 hparse⟩

theorem foldl_processFrame (g : Graph) (arrivals : List (ℤ × Json)) :
    arrivals.foldl (fun g arrival => processFrame g arrival.1 arrival.2) g =
      (records arrivals).foldl processRecord g := by
  induction arrivals generalizing g with
  | nil => rfl
  | cons arrival arrivals ih =>
    rw [List.foldl_cons, ih, processFrame, records, records, List.filterMap_cons]
    rcases parseJetstreamFrame arrival.1 arrival.2 with - | - | n <;> rfl

theorem run_eq (arrivals : List (ℤ × Json)) :
    run arrivals = (records arrivals).foldl processRecord ⟨[], []⟩ := foldl_processFrame _ arrivals

/-- A record has its URI, and is of a collection that is watched. -/
theorem watched_of_parse {now : ℤ} {frame : Json}
    (h : parseJetstreamFrame now frame = some (some n)) :
    n.collection ≠ .gha ∧ n.uri = atUri n.did n.collection n.rkey := by
  rw [parseJetstreamFrame] at h
  rcases hcommit : member frame "commit" with - | commit <;> rw [hcommit] at h
  · cases h
  simp only at h
  split_ifs at h
  · cases h
  rcases hfind : WATCHED_NSIDS.find? fun c => text commit "collection" = some c.nsid with - | c <;>
    rw [hfind] at h
  · cases h
  obtain ⟨createdAt, -, heq⟩ := Option.map_eq_some_iff.1 h
  obtain rfl := Option.some.inj heq
  refine ⟨fun hc => ?_, rfl⟩
  obtain rfl : c = .gha := hc
  exact absurd (List.mem_of_find?_eq_some hfind) (by decide)

theorem parse_of_dated {frame : Json} (h : Dated frame) (now now' : ℤ) :
    parseJetstreamFrame now frame = parseJetstreamFrame now' frame := by
  obtain ⟨us, h⟩ := h
  simp only [parseJetstreamFrame, h]

theorem not_node_empty : ¬ Node ∅ n := by
  intro h
  cases h with
  | record h => exact h
  | gha h hf => exact h
  | provisioning h hnone => exact h.mem
  | event h hnone hp => exact h.mem

theorem sound_empty : Sound ∅ where
  uris _ _ hn := absurd hn not_node_empty
  requests r hr := absurd hr (Set.notMem_empty r)
  machines r hr := absurd hr (Set.notMem_empty r)
  provs r _ h := absurd h.mem (Set.notMem_empty r)
  events r _ h := absurd h.mem (Set.notMem_empty r)
  receipts r _ _ h := absurd h.mem (Set.notMem_empty r)
  vms b _ _ h := absurd h.mem (Set.notMem_empty b)
  keys b _ _ _ h := absurd h.mem (Set.notMem_empty b)
  rfps s hs := absurd hs (Set.notMem_empty s)
  grants b hb := absurd hb (Set.notMem_empty b)

theorem inv_empty : Inv ∅ ⟨[], []⟩ := by
  refine ⟨fun m => ⟨fun h => absurd h List.not_mem_nil, fun h => absurd h not_node_empty⟩, fun e => ?_⟩
  refine ⟨fun h => absurd h List.not_mem_nil, fun h => ?_⟩
  cases h with
  | ref h he => exact absurd h not_node_empty
  | created h hf => exact absurd h (Set.notMem_empty _)
  | payload h he hr hp => exact absurd h.mem (Set.notMem_empty _)
  | contract h he => exact absurd h.mem (Set.notMem_empty _)
  | tunnel hs hcs hf hcf => exact absurd hs (Set.notMem_empty _)

theorem inv_foldl {ns : List RecordNode} (hs : Sound R) (hinv : Inv R g)
    (hw : Watched (R ∪ {n | n ∈ ns})) (h : Along (fun R n => insert n R) Admissible R ns) :
    Sound (R ∪ {n | n ∈ ns}) ∧ Inv (R ∪ {n | n ∈ ns}) (ns.foldl processRecord g) := by
  induction ns generalizing R g with
  | nil =>
    have hset : R ∪ {n | n ∈ ([] : List RecordNode)} = R := by simp
    rw [hset]
    exact ⟨hs, hinv⟩
  | cons n ns ih =>
    obtain ⟨hadm, h⟩ := h
    have hset : R ∪ {m | m ∈ n :: ns} = insert n R ∪ {m | m ∈ ns} := by
      ext m
      simp [or_left_comm, or_assoc]
    rw [hset] at hw ⊢
    exact ih hadm.sound (inv_processRecord hinv (fun m hm => hw m (.inl hm)) hadm) hw h

/-- After a careful run the graph is that of the records. -/
theorem settled_run (h : Careful arrivals) : Sound {n | n ∈ records arrivals} ∧
    Inv {n | n ∈ records arrivals} (run arrivals) := by
  have hw : Watched (∅ ∪ {n | n ∈ records arrivals}) := by
    intro n hn
    rw [Set.empty_union] at hn
    obtain ⟨now, frame, -, hparse⟩ := mem_records.1 hn
    exact watched_of_parse hparse
  have hrun := inv_foldl sound_empty inv_empty hw h.admissible
  rwa [Set.empty_union, ← run_eq] at hrun

theorem hasOne_of_complete (hs : Sound R) (hinv : Inv R g) (h : Complete R r v) : HasOne g r v := by
  obtain ⟨p, hp⟩ := exists_provisions h
  have hprov : ∀ m, m ∈ g.nodes ∧ IsProv v.uri m ↔ m = p := by
    intro m
    rw [hinv.nodes]
    constructor
    · rintro ⟨hm, hprov⟩
      exact provisions_unique hs h (provisions_of_node hs h.vm hm hprov) hp
    · rintro rfl
      exact ⟨hp.node, hp.isProv⟩
  have hevent : ∃ e, ∀ m, Node R m ∧ IsEvent r.uri m ↔ m = e := by
    by_cases hreal : ∃ e ∈ R, IsEvent r.uri e
    · obtain ⟨e, he, hr⟩ := hreal
      refine ⟨e, fun m => ⟨?_, fun heq => heq ▸ ⟨.record he, hr⟩⟩⟩
      rintro ⟨hm, hrm⟩
      rcases event_of_node hs h hm hrm with hm | ⟨hnone, -⟩
      · exact hs.events r v h m hm e he hrm hr
      · exact absurd hr (hnone e he)
    · have hnone : ∀ e ∈ R, ¬ IsEvent r.uri e := fun e he hr => hreal ⟨e, he, hr⟩
      refine ⟨marketEvent r p.uri, fun m => ⟨?_, ?_⟩⟩
      · rintro ⟨hm, hrm⟩
        rcases event_of_node hs h hm hrm with hm | ⟨-, q, hq, rfl⟩
        · exact absurd hrm (hnone m hm)
        · rw [provisions_unique hs h hq hp]
      · rintro rfl
        exact ⟨.event h hnone hp, isEvent_marketEvent r p.uri⟩
  obtain ⟨e, he⟩ := hevent
  obtain ⟨hnode, hr⟩ := (he e).2 rfl
  exact ⟨e, p, fun m => by rw [hinv.nodes, he], hprov,
    (hinv.edges _).2 (edge_of_event hs h hp hnode hr)⟩

end

/-- Two careful runs of the same frames draw the same graph, in which every receipt whose request and
    machine are there has one event and one provisioning. -/
theorem same_graph {arrivals arrivals' : List (ℤ × Json)} (h : Careful arrivals)
    (h' : Careful arrivals')
    (hframes : ∀ frame, (∃ now, (now, frame) ∈ arrivals) ↔ ∃ now, (now, frame) ∈ arrivals') :
    (∀ n, n ∈ (run arrivals).nodes ↔ n ∈ (run arrivals').nodes) ∧
      (∀ e, e ∈ (run arrivals).edges ↔ e ∈ (run arrivals').edges) ∧
      ∀ r v, Complete {n | n ∈ records arrivals} r v → HasOne (run arrivals) r v := by
  have hsub : ∀ {arrivals arrivals' : List (ℤ × Json)}, Careful arrivals →
      (∀ frame, (∃ now, (now, frame) ∈ arrivals) → ∃ now, (now, frame) ∈ arrivals') →
      ∀ n ∈ records arrivals, n ∈ records arrivals' := by
    intro arrivals arrivals' h hframes n hn
    obtain ⟨now, frame, hmem, hparse⟩ := mem_records.1 hn
    obtain ⟨now', hmem'⟩ := hframes frame ⟨now, hmem⟩
    have hdated : Dated frame := h.dated _ hmem n hparse
    exact mem_records.2 ⟨now', frame, hmem', (parse_of_dated hdated now' now).trans hparse⟩
  have hset : {n | n ∈ records arrivals} = {n | n ∈ records arrivals'} := by
    ext n
    exact ⟨hsub h (fun frame => (hframes frame).1) n, hsub h' (fun frame => (hframes frame).2) n⟩
  obtain ⟨hs, hinv⟩ := settled_run h
  obtain ⟨-, hinv'⟩ := settled_run h'
  rw [← hset] at hinv'
  exact ⟨fun n => (hinv.nodes n).trans (hinv'.nodes n).symm,
    fun e => (hinv.edges e).trans (hinv'.edges e).symm, fun r v hc => hasOne_of_complete hs hinv hc⟩

/-! ## One contract -/

/-- The frame that reports a record. -/
def report (n : RecordNode) : Json :=
  .object [("did", .string n.did), ("time_us", .number 0), ("commit", .object [
    ("operation", .string "create"), ("collection", .string n.collection.nsid),
    ("rkey", .string n.rkey), ("cid", .string n.cid), ("record", n.record)])]

theorem parse_report (now : ℤ) (n : RecordNode) (hc : n.collection ≠ .gha) (hr : n.record ≠ .null) :
    parseJetstreamFrame now (report n) = (dateOf 0).map fun createdAt =>
      some { n with uri := atUri n.did n.collection n.rkey, createdAt } := by
  obtain ⟨uri, cid, did, collection, rkey, record, createdAt⟩ := n
  cases collection <;> cases record <;> first | rfl | exact absurd rfl hc | exact absurd rfl hr

def written (did : String) (collection : Collection) (rkey : String) (fields : List (String × Json)) :
    RecordNode where
  uri := atUri did collection rkey
  cid := "bafy"
  did
  collection
  rkey
  record := .object fields
  createdAt := 0

/-- The machine, the request for it and the receipt. -/
def machine : RecordNode := written "did:web:a" .vm "v" [("role", .string "ci")]

def request : RecordNode :=
  written "did:web:a" .rfp "f" [("payload", strongRef machine.cid machine.uri)]

def receiptOf : RecordNode :=
  written "did:web:b" .receipt "r" [("rfp", strongRef request.cid request.uri)]

theorem parse_written {n : RecordNode} (hn : n ∈ [machine, request, receiptOf]) (now : ℤ) :
    parseJetstreamFrame now (report n) = some (some n) := by
  have hdate : dateOf 0 = some 0 := by decide +kernel
  simp only [List.mem_cons, List.not_mem_nil, or_false] at hn
  rcases hn with rfl | rfl | rfl
  all_goals
    rw [parse_report now _ (by decide) (fun h => by cases h), hdate]
    rfl

/-- The nodes of the contract. -/
def contractNodes : List RecordNode :=
  [machine, request, receiptOf, ghaNode request, provNode receiptOf machine,
    marketEvent receiptOf (provNode receiptOf machine).uri]

theorem eq_of_uri {n m : RecordNode} (hn : n ∈ contractNodes) (hm : m ∈ contractNodes)
    (h : n.uri = m.uri) : n = m :=
  List.inj_on_of_nodup_map (by decide : (contractNodes.map RecordNode.uri).Nodup) hn hm h

section
variable {R : Set RecordNode} {n m v : RecordNode} (hR : ∀ n ∈ R, n ∈ [machine, request, receiptOf])
include hR

theorem mem_contractNodes (hn : n ∈ R) : n ∈ contractNodes := List.mem_append_left _ (hR n hn)

theorem eq_of_collection (hn : n ∈ R) (hm : m ∈ [machine, request, receiptOf])
    (h : n.collection = m.collection) : n = m := by
  have hn := hR n hn
  simp only [List.mem_cons, List.not_mem_nil, or_false] at hn hm
  rcases hn with rfl | rfl | rfl <;> rcases hm with rfl | rfl | rfl <;> first | rfl | cases h

theorem requests_eq (hv : v ∈ contractNodes) (h : Requests R receiptOf v.uri) :
    request ∈ R ∧ v = machine := by
  obtain ⟨-, f, hf, hrfp, hpayload⟩ := h
  obtain rfl : request = f :=
    eq_of_uri (by simp [contractNodes]) (mem_contractNodes hR hf) (Option.some.inj hrfp)
  exact ⟨hf, eq_of_uri hv (by simp [contractNodes]) (Option.some.inj hpayload).symm⟩

theorem complete_eq (h : Complete R n v) : n = receiptOf ∧ v = machine := by
  obtain rfl := eq_of_collection hR h.mem (m := receiptOf) (by simp) h.collection
  exact ⟨rfl, (requests_eq hR (mem_contractNodes hR h.vm) h.requests).2⟩

theorem node_mem (h : Node R m) : m ∈ contractNodes := by
  cases h with
  | record h => exact mem_contractNodes hR h
  | gha h hf =>
    rw [eq_of_collection hR h (m := request) (by simp) hf]
    simp [contractNodes]
  | provisioning h hnone =>
    obtain ⟨rfl, rfl⟩ := complete_eq hR h
    simp [contractNodes]
  | event h hnone hp =>
    obtain ⟨rfl, rfl⟩ := complete_eq hR h
    cases hp with
    | written h hp =>
      have hmem := hR _ h
      simp only [List.mem_cons, List.not_mem_nil, or_false] at hmem
      rcases hmem with rfl | rfl | rfl <;> cases hp.1
    | drawn h' hnone =>
      rw [(complete_eq hR h').1]
      simp [contractNodes]

omit hR in
theorem record_of_cid (h : Node R m) (hcid : m.cid ≠ "synthetic") : m ∈ R := by
  cases h with
  | record h => exact h
  | gha h hf => exact absurd rfl hcid
  | provisioning h hnone => exact absurd rfl hcid
  | event h hnone hp => exact absurd rfl hcid

theorem sound_contract : Sound R := by
  have hone : ∀ n ∈ R, ∀ m ∈ R, n.collection = m.collection → n = m := fun n hn m hm h =>
    eq_of_collection hR hn (hR m hm) h
  refine ⟨fun n m hn hm h => eq_of_uri (node_mem hR hn) (node_mem hR hm) h, ?_, ?_, ?_, ?_, ?_, ?_, ?_,
    ?_, ?_⟩
  · intro r hr hc f hf hrfp
    obtain rfl := eq_of_collection hR hr (m := receiptOf) (by simp) hc
    obtain rfl : request = f :=
      eq_of_uri (by simp [contractNodes]) (node_mem hR hf) (Option.some.inj hrfp)
    exact record_of_cid hf (by decide)
  · intro r hr hc v hv hreq
    obtain rfl := eq_of_collection hR hr (m := receiptOf) (by simp) hc
    obtain ⟨-, rfl⟩ := requests_eq hR (node_mem hR hv) hreq
    exact record_of_cid hv (by decide)
  · exact fun r v _ p hp p' hp' h h' => hone p hp p' hp' (h.1.trans h'.1.symm)
  · exact fun r v _ e he e' he' h h' => hone e he e' he' (h.1.trans h'.1.symm)
  · exact fun r r' v h h' _ => hone r h.mem r' h'.mem (h.collection.trans h'.collection.symm)
  · exact fun b v v' h h' => hone v h.vm v' h'.vm (h.vm_collection.trans h'.vm_collection.symm)
  · exact fun b v s s' _ h h' => hone s h.mem s' h'.mem (h.collection.trans h'.collection.symm)
  · exact fun s _ _ f hf f' hf' h h' => hone f hf f' hf' (h.trans h'.symm)
  · intro b hb hc
    have hmem := hR b hb
    simp only [List.mem_cons, List.not_mem_nil, or_false] at hmem
    rcases hmem with rfl | rfl | rfl <;> cases hc

/-- The receipt comes last, or what comes in was there. -/
theorem inTurn_contract (hn : n ∈ [machine, request, receiptOf]) (h : n ∈ R ∨ receiptOf ∉ R) :
    InTurn R n := by
  have hreceipt : n ∉ R → ∀ r ∈ R, r.collection ≠ .receipt := fun hnew r hr hc =>
    h.elim hnew fun h => h (eq_of_collection hR hr (m := receiptOf) (by simp) hc ▸ hr)
  have hssh : ∀ s ∈ R, s.collection ≠ .sshPublicKey := by
    intro s hs hc
    have hmem := hR s hs
    simp only [List.mem_cons, List.not_mem_nil, or_false] at hmem
    rcases hmem with rfl | rfl | rfl <;> cases hc
  refine ⟨fun hnew r hr hc => absurd hc (hreceipt hnew r hr),
    fun hnew r hr hc => absurd hc (hreceipt hnew r hr),
    fun hnew r v hr => absurd hr.collection (hreceipt hnew r hr.mem), fun hc => ?_,
    fun _ _ s hs => hssh s hs⟩
  simp only [List.mem_cons, List.not_mem_nil, or_false] at hn
  rcases hn with rfl | rfl | rfl <;> cases hc

theorem admissible_contract (hn : n ∈ [machine, request, receiptOf]) (h : n ∈ R ∨ receiptOf ∉ R) :
    Admissible R n := by
  refine ⟨sound_contract fun m hm => ?_, inTurn_contract hR hn h⟩
  rcases hm with rfl | hm
  · exact hn
  · exact hR m hm

end

/-- The records come in with the frames that report them. -/
theorem records_report {ns : List RecordNode} (hns : ∀ n ∈ ns, n ∈ [machine, request, receiptOf]) :
    records (ns.map fun n => (0, report n)) = ns := by
  rw [records, List.filterMap_map]
  have hparse : ∀ n ∈ ns, ((fun arrival : ℤ × Json =>
      (parseJetstreamFrame arrival.1 arrival.2).join) ∘ fun n => (0, report n)) n = some n := by
    intro n hn
    exact Option.join_eq_some_iff.2 (parse_written (hns n hn) 0)
  rw [List.filterMap_congr hparse, List.filterMap_some]

theorem careful_report {ns : List RecordNode} (hns : ∀ n ∈ ns, n ∈ [machine, request, receiptOf])
    (h : Along (fun R n => insert n R) Admissible ∅ ns) :
    Careful (ns.map fun n => (0, report n)) := by
  refine ⟨fun arrival ha n _ => ?_, ?_⟩
  · obtain ⟨m, -, rfl⟩ := List.mem_map.1 ha
    exact ⟨0, rfl⟩
  · rwa [records_report hns]

theorem same_graph_contract :
    let inOrder := [request, machine, receiptOf].map fun n => ((0 : ℤ), report n)
    let again := [machine, request, receiptOf, request].map fun n => ((0 : ℤ), report n)
    (∀ n, n ∈ (run inOrder).nodes ↔ n ∈ (run again).nodes) ∧
      (∀ e, e ∈ (run inOrder).edges ↔ e ∈ (run again).edges) ∧
      HasOne (run inOrder) receiptOf machine := by
  have hns : ∀ n ∈ [request, machine, receiptOf], n ∈ [machine, request, receiptOf] := by simp
  have hns' : ∀ n ∈ [machine, request, receiptOf, request], n ∈ [machine, request, receiptOf] := by
    simp
  have hbefore {R : Set RecordNode} (hR : ∀ n ∈ R, n = machine ∨ n = request) {n : RecordNode}
      (hn : n ∈ [machine, request, receiptOf]) : Admissible R n := by
    refine admissible_contract (fun m hm => ?_) hn (.inr fun h => ?_)
    · rcases hR m hm with rfl | rfl <;> simp
    · rcases hR receiptOf h with h | h <;> cases congrArg RecordNode.collection h
  have hagain : Admissible (insert receiptOf (insert request (insert machine ∅))) request :=
    admissible_contract (by simp) (by simp) (.inl (by simp))
  have hcomplete : Complete {n | n ∈ records ([request, machine, receiptOf].map fun n => (0, report n))}
      receiptOf machine := by
    rw [records_report hns]
    exact ⟨by simp, rfl, by simp, by decide, request, by simp, rfl, rfl⟩
  have h := same_graph
    (careful_report hns ⟨hbefore (by simp) (by simp), hbefore (by simp) (by simp),
      hbefore (by simp) (by simp), trivial⟩)
    (careful_report hns' ⟨hbefore (by simp) (by simp), hbefore (by simp) (by simp),
      hbefore (by simp) (by simp), hagain, trivial⟩) (fun frame => exists_congr fun now => by simp; tauto)
  exact ⟨h.1, h.2.1, h.2.2 receiptOf machine hcomplete⟩

/-- When the receipt comes first, the graph is another one, and there is no event. -/
theorem not_same_graph :
    let inOrder := [request, machine, receiptOf].map fun n => ((0 : ℤ), report n)
    let early := [receiptOf, request, machine].map fun n => ((0 : ℤ), report n)
    (¬ ∀ n, n ∈ (run inOrder).nodes ↔ n ∈ (run early).nodes) ∧
      ¬ HasOne (run early) receiptOf machine := by
  intro inOrder early
  have hevent : (run inOrder).nodes.any (·.collection = .event) := by decide +kernel
  have hnone : (run early).nodes.all (·.collection ≠ .event) := by decide +kernel
  rw [List.all_eq_true] at hnone
  refine ⟨fun h => ?_, ?_⟩
  · obtain ⟨n, hn, hc⟩ := List.any_eq_true.1 hevent
    exact of_decide_eq_true (hnone n ((h n).1 hn)) (of_decide_eq_true hc)
  · rintro ⟨e, p, he, -, -⟩
    obtain ⟨hmem, hc, -⟩ := (he e).2 rfl
    exact of_decide_eq_true (hnone e hmem) hc

end ComputeContract.MarketGraph
