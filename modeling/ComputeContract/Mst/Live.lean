import ComputeContract.Mst.Run

/-!
# An instance in memory

An instance that starts empty and stays in memory keeps the layers of its tree in
order (`strict`), whatever is set and deleted. Its tree is then a function of the map
it holds and of the layer of its root (`shape_eq_of_strict`), and the abstract state
of a run is this pair (`Op.step`).

The layer of the root is that of the highest key, except that an emptied tree keeps
its layer: keys that come later are put under it, so that the root depends on the
keys deleted before.
-/

namespace ComputeContract

open MstNode AssocList

namespace MstNode

mutual

/-- The nodes of the tree, from the root down. -/
def nodes : MstNode → List MstNode
  | mk layer pointer entries => mk layer pointer entries :: entryNodes entries

def entryNodes : List NodeEntry → List MstNode
  | [] => []
  | .leaf _ _ :: es => entryNodes es
  | .tree node :: es => node.nodes ++ entryNodes es

end

theorem mem_entryNodes {es : List NodeEntry} {node : MstNode} :
    node ∈ entryNodes es ↔ ∃ child, .tree child ∈ es ∧ node ∈ child.nodes := by
  induction es with
  | nil => simp [entryNodes]
  | cons e es ih => cases e <;> simp [entryNodes, ih, or_and_right, exists_or]

end MstNode

/-! ## Layers that follow the keys -/

theorem WF.mono {D D' : Discipline} (hleaf : ∀ layer key, D.leafOk layer key → D'.leafOk layer key)
    (hchild : ∀ layer child, D.childOk layer child → D'.childOk layer child) {node : MstNode}
    (h : WF D node) : WF D' node := by
  induction node using MstNode.ind with | h layer pointer es ih => ?_
  have hok := h.entriesOk
  refine EntriesOk.wf ⟨fun k v hm => ?_, fun n hm => ?_, hok.alternating⟩ h.pointer_eq
  · exact (hok.leaf k v hm).imp_right (And.imp_right (hleaf layer k))
  · obtain ⟨hl, hne, hwf⟩ := hok.child n hm
    exact ⟨hchild _ _ hl, hne, ih n hm hwf⟩

theorem WF.loose {D : Discipline} {node : MstNode} (h : WF D node) : WF loose node :=
  h.mono (fun _ _ _ => trivial) fun _ _ _ => trivial

theorem WF.of_mem_nodes {D : Discipline} {root node : MstNode} (h : WF D root)
    (hn : node ∈ root.nodes) : WF D node := by
  induction root using MstNode.ind with | h layer pointer es ih => ?_
  rw [nodes, List.mem_cons, mem_entryNodes] at hn
  rcases hn with rfl | ⟨child, hc, hn⟩
  · exact h
  · exact ih child hc (h.entriesOk.child child hc).2.2 hn

theorem Known.of_mem_nodes {root node : MstNode} (h : Known root) (hn : node ∈ root.nodes) :
    Known node := by
  induction root using MstNode.ind with | h layer pointer es ih => ?_
  rw [nodes, List.mem_cons, mem_entryNodes] at hn
  rcases hn with rfl | ⟨child, hc, hn⟩
  · exact h
  · exact ih child hc (h.sub hc) hn

theorem mem_entryLeaves {es : List NodeEntry} {e : Key × Cid} : e ∈ entryLeaves es ↔
    .leaf e.1 e.2 ∈ es ∨ ∃ child, .tree child ∈ es ∧ e ∈ child.walkLeaves := by
  induction es with
  | nil => simp [entryLeaves]
  | cons x es ih =>
    obtain ⟨k, v⟩ := e
    cases x with
    | leaf k' v' => simp [entryLeaves, ih, or_assoc]
    | tree n => simp [entryLeaves, ih, or_and_right, exists_or, or_left_comm]

/-- No key lies above its node. -/
theorem leadingZerosOnHash_le {node : MstNode} (h : WF strict node) :
    ∀ e ∈ node.walkLeaves, leadingZerosOnHash e.1 ≤ node.layer := by
  induction node using MstNode.ind with | h layer pointer es ih => ?_
  intro e he
  have hok : EntriesOk strict layer es := h.entriesOk
  rcases mem_entryLeaves.1 he with he | ⟨child, hc, he⟩
  · exact (hok.leaf _ _ he).2.2.le
  · have hl : child.layer + 1 = layer := (hok.child child hc).1
    have hle := ih child hc (hok.child child hc).2.2 e he
    rw [layer_mk]
    omega

/-- The keys of the layer of a node are its own. -/
theorem mem_ownLeaves_of_layer {node : MstNode} (h : WF strict node) {e : Key × Cid}
    (he : e ∈ node.walkLeaves) (hl : leadingZerosOnHash e.1 = node.layer) :
    e ∈ ownLeaves node.entries := by
  rw [walkLeaves_eq] at he
  rcases mem_entryLeaves.1 he with he | ⟨child, hc, he⟩
  · exact List.mem_filterMap.2 ⟨_, he, rfl⟩
  · have hlc : child.layer + 1 = node.layer := (h.entriesOk.child child hc).1
    have hle := leadingZerosOnHash_le (h.entriesOk.child child hc).2.2 e he
    omega

theorem layer_of_mem_ownLeaves {node : MstNode} (h : WF strict node) {e : Key × Cid}
    (he : e ∈ ownLeaves node.entries) :
    e ∈ node.walkLeaves ∧ leadingZerosOnHash e.1 = node.layer := by
  obtain ⟨x, hx, he⟩ := List.mem_filterMap.1 he
  cases x with
  | tree n => cases he
  | leaf k v =>
    obtain rfl := Option.some.inj he
    exact ⟨by rw [walkLeaves_eq]; exact mem_entryLeaves.2 (.inl hx), (h.entriesOk.leaf k v hx).2.2⟩

theorem le_topLayer {m : List (Key × Cid)} {key : Key} (h : key ∈ keys m) :
    leadingZerosOnHash key ≤ topLayer m := by
  rw [topLayer]
  generalize keys m = ks at h ⊢
  induction ks with
  | nil => cases h
  | cons k ks ih =>
    rw [List.map_cons, List.foldr_cons]
    rcases List.mem_cons.1 h with rfl | h
    · exact le_max_left _ _
    · exact (ih h).trans (le_max_right _ _)

theorem topLayer_le {m : List (Key × Cid)} {layer : ℕ}
    (h : ∀ key ∈ keys m, leadingZerosOnHash key ≤ layer) : topLayer m ≤ layer := by
  rw [topLayer]
  generalize keys m = ks at h ⊢
  induction ks with
  | nil => exact Nat.zero_le _
  | cons k ks ih =>
    rw [List.forall_mem_cons] at h
    exact max_le h.1 (ih h.2)

theorem exists_topLayer {m : List (Key × Cid)} (h : m ≠ []) :
    ∃ key ∈ keys m, leadingZerosOnHash key = topLayer m := by
  have hks : ∀ ks : List Key, ks ≠ [] →
      ∃ key ∈ ks, leadingZerosOnHash key = (ks.map leadingZerosOnHash).foldr max 0 := by
    intro ks
    induction ks with
    | nil => exact fun h => absurd rfl h
    | cons k ks ih =>
      intro _
      rw [List.map_cons, List.foldr_cons]
      rcases le_total ((ks.map leadingZerosOnHash).foldr max 0) (leadingZerosOnHash k) with hle | hle
      · exact ⟨k, List.mem_cons_self, (max_eq_left hle).symm⟩
      · rcases ks.eq_nil_or_concat with rfl | ⟨_, _, hks⟩
        · exact ⟨k, List.mem_cons_self, by simp⟩
        · obtain ⟨key, hk, hz⟩ := ih (by simp [hks])
          exact ⟨key, List.mem_cons_of_mem _ hk, hz.trans (max_eq_right hle).symm⟩
  exact hks (keys m) (by simpa [keys] using h)

/-- A root with a leaf of its own is at the layer of the highest key. -/
theorem layer_eq_topLayer {node : MstNode} (h : WF strict node)
    (hown : ownLeaves node.entries ≠ []) : node.layer = topLayer node.walkLeaves := by
  obtain ⟨e, he⟩ := List.exists_mem_of_ne_nil _ hown
  obtain ⟨hmem, hl⟩ := layer_of_mem_ownLeaves h he
  refine le_antisymm (hl ▸ le_topLayer (mem_keys_of_mem hmem)) (topLayer_le fun key hk => ?_)
  obtain ⟨v, hv⟩ := mem_keys.1 hk
  exact leadingZerosOnHash_le h _ hv

/-- Where the layers follow the keys, the neighbours of a leaf can always be joined. -/
theorem canDelete_of_strict {node : MstNode} (h : WF strict node) (key : Key) :
    node.canDelete key := by
  induction node using MstNode.ind with | h layer pointer es ih => ?_
  cases hv : leafValue ((MstNode.mk layer pointer es).atIndex
      ((MstNode.mk layer pointer es).findGtOrEqualLeafIndex key)) key with
  | some v =>
    obtain ⟨L, R, hf⟩ := found_of_leafValue hv
    have hok := h.entriesOk
    rw [hf.entries, entriesOk_leaf] at hok
    rw [canDelete, subtreesAround_found hf]
    split
    · rename_i l r hl hr
      obtain ⟨hll, _, hlw⟩ := hok.1.child l (List.mem_of_getLast? hl)
      obtain ⟨hrl, _, hrw⟩ := hok.2.2.child r (List.mem_of_head? hr)
      have hlayer : l.layer = r.layer := Nat.add_right_cancel (hll.trans hrl.symm)
      exact seamsAgree_of_strict hlw hrw hlayer
    · rfl
  | none =>
    rw [canDelete, subtreesAround]
    dsimp only
    rw [hv, if_neg (by simp)]
    split
    · rename_i child hb
      have hc := mem_of_before hb
      exact ih child hc (h.entriesOk.child child hc).2.2
    · rfl

theorem EntriesOk.tail {D : Discipline} {layer : ℕ} {e : NodeEntry} {es : List NodeEntry}
    (h : EntriesOk D layer (e :: es)) : EntriesOk D layer es :=
  EntriesOk.right (L := [e]) h

/-- The leaves of a subtree lie below the layer of the node. -/
theorem leadingZerosOnHash_lt {layer : ℕ} {es : List NodeEntry} (h : EntriesOk strict layer es)
    (child : MstNode) (hc : .tree child ∈ es) :
    ∀ e ∈ child.walkLeaves, leadingZerosOnHash e.1 < layer := fun e he => by
  have hl : child.layer + 1 = layer := (h.child child hc).1
  have hle := leadingZerosOnHash_le (h.child child hc).2.2 e he
  omega

/-- The leaves of a subtree end where the next leaf of the node is. -/
theorem takeWhile_walkLeaves {layer : ℕ} {child : MstNode} {es : List NodeEntry}
    (h : EntriesOk strict layer (.tree child :: es)) :
    (child.walkLeaves ++ entryLeaves es).takeWhile (fun e => leadingZerosOnHash e.1 < layer) =
      child.walkLeaves := by
  have hchild : ∀ e ∈ child.walkLeaves, decide (leadingZerosOnHash e.1 < layer) = true := by
    simpa using leadingZerosOnHash_lt h child List.mem_cons_self
  rw [List.takeWhile_append_of_pos hchild]
  rcases es with _ | ⟨⟨k, v⟩ | n, es⟩
  · simp [entryLeaves]
  · have hk : leadingZerosOnHash k = layer := (h.leaf k v (by simp)).2.2
    simp [entryLeaves, hk]
  · exact absurd rfl ((alternating_cons.1 h.alternating).1 rfl (.tree n) rfl)

theorem shapeEntries_eq_of_strict {layer : ℕ} {es es' : List NodeEntry}
    (h : EntriesOk strict layer es) (h' : EntriesOk strict layer es')
    (hleaves : entryLeaves es = entryLeaves es')
    (hsub : ∀ child, .tree child ∈ es → ∀ child', WF strict child → WF strict child' →
      child.layer = child'.layer → child.walkLeaves = child'.walkLeaves →
      child.shape = child'.shape) :
    shapeEntries es = shapeEntries es' := by
  induction es generalizing es' with
  | nil =>
    rcases es' with _ | ⟨⟨k, v⟩ | n, es'⟩
    · rfl
    · simp [entryLeaves] at hleaves
    · have hn := h'.child n List.mem_cons_self
      simp [entryLeaves, hn.2.2.walkLeaves_ne_nil hn.2.1] at hleaves
  | cons e es ih =>
    cases e with
    | leaf k v =>
      have hk : leadingZerosOnHash k = layer := (h.leaf k v List.mem_cons_self).2.2
      rcases es' with _ | ⟨⟨k', v'⟩ | n, es'⟩
      · simp [entryLeaves] at hleaves
      · simp only [entryLeaves, List.cons.injEq, Prod.mk.injEq] at hleaves
        obtain ⟨⟨rfl, rfl⟩, hleaves⟩ := hleaves
        rw [shapeEntries, shapeEntries,
          ih h.tail h'.tail hleaves fun c hc => hsub c (List.mem_cons_of_mem _ hc)]
      · -- The first leaf of a subtree lies below the layer.
        have hn := h'.child n List.mem_cons_self
        have hlt := leadingZerosOnHash_lt h' n List.mem_cons_self (k, v)
        rcases hnl : n.walkLeaves with _ | ⟨e, m⟩
        · exact absurd hnl (hn.2.2.walkLeaves_ne_nil hn.2.1)
        · simp only [entryLeaves, hnl, List.cons_append, List.cons.injEq] at hleaves
          have := hlt (by simp [hnl, hleaves.1])
          simp only at this
          omega
    | tree c =>
      have hc := h.child c List.mem_cons_self
      rcases es' with _ | ⟨⟨k', v'⟩ | n, es'⟩
      · simp [entryLeaves, hc.2.2.walkLeaves_ne_nil hc.2.1] at hleaves
      · have hk : leadingZerosOnHash k' = layer := (h'.leaf k' v' List.mem_cons_self).2.2
        have hlt := leadingZerosOnHash_lt h c List.mem_cons_self (k', v')
        rcases hcl : c.walkLeaves with _ | ⟨e, m⟩
        · exact absurd hcl (hc.2.2.walkLeaves_ne_nil hc.2.1)
        · simp only [entryLeaves, hcl, List.cons_append, List.cons.injEq] at hleaves
          have := hlt (by simp [hcl, hleaves.1])
          simp only at this
          omega
      · have hn := h'.child n List.mem_cons_self
        rw [entryLeaves, entryLeaves] at hleaves
        have hcn : c.walkLeaves = n.walkLeaves := by
          rw [← takeWhile_walkLeaves h, hleaves, takeWhile_walkLeaves h']
        have hlayer : c.layer = n.layer := Nat.add_right_cancel (hc.1.trans hn.1.symm)
        rw [hcn] at hleaves
        rw [shapeEntries, shapeEntries, hsub c List.mem_cons_self n hc.2.2 hn.2.2 hlayer hcn,
          ih h.tail h'.tail (List.append_cancel_left hleaves) fun c hc => hsub c (List.mem_cons_of_mem _ hc)]

/-- The tree is a function of its leaves and of its layer. -/
theorem shape_eq_of_strict {node node' : MstNode} (h : WF strict node) (h' : WF strict node')
    (hlayer : node.layer = node'.layer) (hleaves : node.walkLeaves = node'.walkLeaves) :
    node.shape = node'.shape := by
  induction node using MstNode.ind generalizing node' with | h layer pointer es ih => ?_
  obtain ⟨layer', pointer', es'⟩ := node'
  obtain rfl : layer = layer' := hlayer
  exact congrArg (mk 0 none) (shapeEntries_eq_of_strict h.entriesOk h'.entriesOk hleaves
    fun c hc c' => @ih c hc c')

/-! ## Runs in memory -/

/-- An operation on a tree in memory: the abstract state follows. -/
theorem Holds.step {mst : Mst} {tree : MstNode} {m : List (Key × Cid)} (h : Holds strict none mst tree m)
    (store : BlockStore) (op : Op) :
    ∃ tree', Step strict none mst tree (Instance.outcome ⟨store, mst⟩ op) tree' (op.applyTo m) ∧
      tree'.layer = op.layerAfter m tree.layer := by
  cases op with
  | set key value => exact h.set key value
  | delete key =>
    by_cases hmem : key.1 ∈ keys m
    · obtain ⟨tree', hstep, hempty, hown⟩ := h.delete_of_mem hmem (canDelete_of_strict h.wf _)
      refine ⟨tree', hstep, ?_⟩
      rw [Op.layerAfter]
      split_ifs with hc
      · rw [layer_eq_topLayer hstep.holds.wf (hown hc.2), hstep.holds.leaves]
      · exact hempty (not_not.1 fun hne => hc ⟨hmem, hne⟩)
    · refine ⟨tree, ?_, by rw [Op.layerAfter, if_neg fun hc => hmem hc.1]⟩
      rw [Op.applyTo, erase_of_not_mem hmem]
      exact h.delete_of_not_mem hmem

/-- A fresh instance. -/
theorem init_none (store : BlockStore) :
    ∃ s tree, Instance.init store none = .ok s ∧ s.store = store ∧ Holds strict none s.mst tree [] ∧
      tree.layer = 0 := by
  have hwf : WF strict (mk 0 (some (mk 0 none []).cid) []) := EntriesOk.wf .nil (.inr rfl)
  refine ⟨⟨store, ⟨none, some _, []⟩⟩, _, ?_, rfl,
    ⟨rfl, hwf, .mk (by simp), rfl, .nil, .nil, by simp, fun h => absurd rfl h, fun _ => .inl rfl⟩, rfl⟩
  rw [Instance.init, Mst.init, Mst.createMst, create_nil]
  rfl

/-- A run in memory from any instance: the abstract state follows. -/
theorem Holds.run {s : Instance} {tree : MstNode} {m : List (Key × Cid)}
    (h : Holds strict none s.mst tree m) (ops : List Op) :
    ∃ tree', Holds strict none (s.run ops).mst tree' (ops.foldl Op.step (m, tree.layer)).1 ∧
      tree'.layer = (ops.foldl Op.step (m, tree.layer)).2 := by
  induction ops generalizing s tree m with
  | nil => exact ⟨tree, h, rfl⟩
  | cons op ops ih =>
    obtain ⟨tree₁, hstep, hlayer⟩ := h.step s.store op
    obtain ⟨tree₂, h₂, hlayer₂⟩ := ih (s := s.apply op) hstep.holds
    refine ⟨tree₂, ?_, ?_⟩
    · rw [hlayer] at h₂
      exact h₂
    · rw [hlayer] at hlayer₂
      exact hlayer₂

/-- The structure of a tree in memory. -/
structure LiveTree (s : Instance) (tree : MstNode) : Prop where
  /-- The leaves read in order have strictly increasing keys. -/
  sorted : (keys tree.walkLeaves).Pairwise (· < ·)
  /-- A leaf lies at the layer of its key. -/
  leaf : ∀ node ∈ tree.nodes, ∀ key value, .leaf key value ∈ node.entries →
    node.layer = leadingZerosOnHash key
  /-- A subtree lies one layer below its parent, and is not empty. -/
  child : ∀ node ∈ tree.nodes, ∀ child, .tree child ∈ node.entries →
    child.layer + 1 = node.layer ∧ child.entries ≠ []
  /-- No two subtrees are next to each other. -/
  alternating : ∀ node ∈ tree.nodes, Alternating node.entries
  /-- Every node can be serialized. -/
  serialize : ∀ node ∈ tree.nodes, ∃ data, serializeNodeData node.entries = .ok data
  /-- The neighbours of every leaf can be joined. -/
  merge : ∀ node ∈ tree.nodes, ∀ L left key value right R,
    node.entries = L ++ .tree left :: .leaf key value :: .tree right :: R →
      ∃ merged, left.appendMerge right = .ok merged
  /-- The tree and the cache agree on every key. -/
  get : ∀ key, tree.get key = s.mst.all.lookup key
  /-- No operation throws, and the delete of a leaf does not fail inside either. -/
  outcome : ∀ op, ∃ root, (s.outcome op).result = .ok root
  delete : ∀ key ∈ keys tree.walkLeaves, ∃ tree', tree.delete key = .ok tree'

theorem Holds.liveTree {s : Instance} {tree : MstNode} {m : List (Key × Cid)}
    (h : Holds strict none s.mst tree m) : LiveTree s tree where
  sorted := h.leaves ▸ h.sorted
  leaf node hn key value hl := ((h.wf.of_mem_nodes hn).entriesOk.leaf key value hl).2.2.symm
  child node hn child hc :=
    ((h.wf.of_mem_nodes hn).entriesOk.child child hc).imp_right And.left
  alternating node hn := (h.wf.of_mem_nodes hn).entriesOk.alternating
  serialize node hn := by
    have hok := (h.wf.of_mem_nodes hn).entriesOk
    have hk := h.known.of_mem_nodes hn
    have hlinked : Linked node.entries := ⟨hok.alternating,
      fun k v hl => ⟨(hok.leaf k v hl).1, (hok.leaf k v hl).2.1⟩, fun n hc => by
        obtain ⟨cid, hcid⟩ := (hk.sub hc).pointer
        have hp := (hok.child n hc).2.2.pointer_eq.resolve_left (by simp [hcid])
        exact ⟨n.cid, hp, isValidCid_cidFromDigest _⟩⟩
    obtain ⟨data, hdata, _⟩ := serializeNodeData_ok hlinked
    exact ⟨data, hdata⟩
  merge node hn L left key value right R hes := by
    have hok := (h.wf.of_mem_nodes hn).entriesOk
    obtain ⟨hl, _, hlw⟩ := hok.child left (by simp [hes])
    obtain ⟨hr, _, hrw⟩ := hok.child right (by simp [hes])
    have hlayer : left.layer = right.layer := Nat.add_right_cancel (hl.trans hr.symm)
    obtain ⟨merged, hm, _⟩ := hlw.appendMerge hrw (seamsAgree_of_strict hlw hrw hlayer)
    exact ⟨merged, hm⟩
  get key := (h.get key).2
  outcome op := by
    obtain ⟨tree', hstep, _⟩ := h.step s.store op
    exact ⟨_, hstep.result⟩
  delete key hk := by
    obtain ⟨tree', hd, _⟩ := h.wf.delete (h.leaves ▸ h.sorted) hk (canDelete_of_strict h.wf key)
    exact ⟨tree', hd⟩

/-- The structural invariant: whatever is set and deleted, the tree in memory is in
    order and agrees with the cache, and nothing throws. -/
theorem live_invariant (store : BlockStore) (ops : List Op) :
    ∃ s tree, Instance.live store ops = .ok s ∧ s.mst.tree = some tree ∧ LiveTree s tree := by
  obtain ⟨s, tree, hinit, _, h, _⟩ := init_none store
  obtain ⟨tree', h', _⟩ := h.run ops
  exact ⟨s.run ops, tree', by rw [Instance.live, hinit]; rfl, h'.tree_eq, h'.liveTree⟩

end ComputeContract
