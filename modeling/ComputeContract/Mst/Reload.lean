import ComputeContract.Mst.History

/-!
# Reloading a tree

The blocks of a tree in the store give the tree back, except for its layers: a node
comes back at the layer of its first leaf, and at layer 0 without one (`reload`).

* `loadTree_ok`: the tree that is loaded. CIDs that determine their blocks make every
  path shorter than the store, so that the loading ends;
* `Stored.step`: an operation leaves the blocks of its tree in the store;
* `reload_eq`: when the layers come back too.
-/

namespace ComputeContract

open MstNode AssocList

namespace MstNode

mutual

/-- The tree as it comes back from its blocks. -/
def reload : MstNode → MstNode
  | mk layer pointer entries =>
    mk (resolvedLayer entries) (some (mk layer pointer entries).cid) (reloadEntries entries)

def reloadEntries : List NodeEntry → List NodeEntry
  | [] => []
  | .leaf key value :: es => .leaf key value :: reloadEntries es
  | .tree node :: es => .tree node.reload :: reloadEntries es

end

mutual

/-- The number of nodes on the longest path down. -/
def height : MstNode → ℕ
  | mk _ _ entries => entriesHeight entries + 1

def entriesHeight : List NodeEntry → ℕ
  | [] => 0
  | .leaf _ _ :: es => entriesHeight es
  | .tree node :: es => max node.height (entriesHeight es)

end

theorem reloadEntries_eq_map (es : List NodeEntry) :
    reloadEntries es = es.map (NodeEntry.mapTree reload) := by
  induction es with
  | nil => rfl
  | cons e es ih => cases e <;> simp [reloadEntries, NodeEntry.mapTree, ih]

theorem resolvedLayer_map (f : MstNode → MstNode) (es : List NodeEntry) :
    resolvedLayer (es.map (NodeEntry.mapTree f)) = resolvedLayer es := by
  induction es with
  | nil => rfl
  | cons e es ih => cases e <;> simp [resolvedLayer, NodeEntry.mapTree, ih]

theorem resolvedLayer_linkEntries (es : List NodeEntry) :
    resolvedLayer (linkEntries es) = resolvedLayer es := by
  rw [linkEntries_eq_map, resolvedLayer_map]

theorem pointer_reload (node : MstNode) : node.reload.pointer = some node.cid := by
  obtain ⟨_, _, _⟩ := node
  rfl

theorem shape_reload (node : MstNode) : node.reload.shape = node.shape := by
  induction node using MstNode.ind with | h layer pointer es ih => ?_
  rw [reload, shape, shape, reloadEntries_eq_map, shapeEntries_map ih]

mutual

theorem height_shape : ∀ node : MstNode, node.shape.height = node.height
  | mk _ _ entries => by rw [shape, height, height, entriesHeight_shapeEntries entries]

theorem entriesHeight_shapeEntries : ∀ es : List NodeEntry,
    entriesHeight (shapeEntries es) = entriesHeight es
  | [] => rfl
  | .leaf _ _ :: es => by
    rw [shapeEntries, entriesHeight, entriesHeight, entriesHeight_shapeEntries es]
  | .tree node :: es => by
    rw [shapeEntries, entriesHeight, entriesHeight, entriesHeight_shapeEntries es, height_shape node]

end

theorem height_lt_of_mem {child n : MstNode} (h : .tree child ∈ n.entries) :
    child.height < n.height := by
  obtain ⟨layer, pointer, entries⟩ := n
  rw [entries_mk] at h
  have hle : child.height ≤ entriesHeight entries := by
    induction entries with
    | nil => cases h
    | cons e es ih =>
      rcases List.mem_cons.1 h with rfl | hes
      · exact le_max_left _ _
      · cases e with
        | leaf => exact ih hes
        | tree => exact (ih hes).trans (le_max_right _ _)
  rw [height]
  omega

/-- A longest path goes through one of the subtrees, or ends. -/
theorem exists_height (es : List NodeEntry) :
    entriesHeight es = 0 ∨ ∃ child, .tree child ∈ es ∧ child.height = entriesHeight es := by
  induction es with
  | nil => exact .inl rfl
  | cons e es ih =>
    have hes : entriesHeight es = 0 ∨
        ∃ child, .tree child ∈ e :: es ∧ child.height = entriesHeight es :=
      ih.imp_right fun ⟨child, hc, h⟩ => ⟨child, List.mem_cons_of_mem _ hc, h⟩
    cases e with
    | leaf => exact hes
    | tree node =>
      rw [entriesHeight]
      rcases le_total (entriesHeight es) node.height with hle | hle
      · exact .inr ⟨node, List.mem_cons_self, (max_eq_left hle).symm⟩
      · rwa [max_eq_right hle]

theorem mem_entryBlocks {es : List NodeEntry} {b : Cid × Bytes} :
    b ∈ entryBlocks es ↔ ∃ child, .tree child ∈ es ∧ b ∈ child.blocks := by
  induction es with
  | nil => simp [entryBlocks]
  | cons e es ih => cases e <;> simp [entryBlocks, ih]

theorem blocks_subset_of_mem {child n : MstNode} (h : .tree child ∈ n.entries)
    {b : Cid × Bytes} (hb : b ∈ child.blocks) : b ∈ n.blocks := by
  obtain ⟨layer, pointer, es⟩ := n
  rw [blocks]
  exact List.mem_cons_of_mem _ (mem_entryBlocks.2 ⟨child, h, hb⟩)

end MstNode

/-- No node has so many leaves that their number reads back as a negative length. -/
def Sized (tree : MstNode) : Prop := ∀ node ∈ tree.nodes, (ownLeaves node.entries).length < 2 ^ 31

/-- The blocks of the tree are in the store. -/
def Stored (store : BlockStore) (tree : MstNode) : Prop :=
  ∀ b ∈ tree.blocks, store.get b.1 = some b.2

variable {D D' : Discipline} {empty : Option Cid}

theorem length_ownLeaves_le (es : List NodeEntry) :
    (ownLeaves es).length ≤ (entryLeaves es).length := by
  induction es with
  | nil => exact le_rfl
  | cons e es ih =>
    cases e with
    | leaf => exact Nat.succ_le_succ ih
    | tree node =>
      rw [entryLeaves, List.length_append]
      exact ih.trans (Nat.le_add_left _ _)

theorem length_walkLeaves_le {root node : MstNode} (hn : node ∈ root.nodes) :
    node.walkLeaves.length ≤ root.walkLeaves.length := by
  induction root using MstNode.ind with | h layer pointer es ih => ?_
  rw [nodes, List.mem_cons, mem_entryNodes] at hn
  rcases hn with rfl | ⟨child, hc, hn⟩
  · exact le_rfl
  · obtain ⟨L, R, rfl⟩ := List.append_of_mem hc
    refine (ih child hc hn).trans ?_
    rw [walkLeaves, entryLeaves_append, entryLeaves, List.length_append, List.length_append]
    omega

/-- A tree with few leaves. -/
theorem sized_of_length {tree : MstNode} (h : tree.walkLeaves.length < 2 ^ 31) : Sized tree := by
  intro node hn
  have hle := length_ownLeaves_le node.entries
  rw [← walkLeaves_eq] at hle
  exact (hle.trans (length_walkLeaves_le hn)).trans_lt h

theorem Sized.of_mem {child node : MstNode} (h : Sized node) (hc : .tree child ∈ node.entries) :
    Sized child := fun n hn => h n <| by
  obtain ⟨layer, pointer, es⟩ := node
  rw [nodes]
  exact List.mem_cons_of_mem _ (mem_entryNodes.2 ⟨child, hc, hn⟩)

theorem self_mem_nodes (node : MstNode) : node ∈ node.nodes := by
  obtain ⟨layer, pointer, es⟩ := node
  rw [nodes]
  exact List.mem_cons_self

theorem CollisionFree.mono {bs bs' : List (Cid × Bytes)} (h : CollisionFree bs')
    (hsub : ∀ b ∈ bs, b ∈ bs') : CollisionFree bs :=
  fun b hb b' hb' => h b (hsub b hb) b' (hsub b' hb')

/-! ## What a CID says -/

/-- The links of a node can be read off its block. -/
theorem linkEntries_eq_of_block {node node' : MstNode} (h : WF D node) (h' : WF D' node')
    (hsize : (ownLeaves node.entries).length < 2 ^ 31)
    (hsize' : (ownLeaves node'.entries).length < 2 ^ 31) (hb : node.block = node'.block) :
    linkEntries node.entries = linkEntries node'.entries := by
  -- Reading a block with subtrees that are not loaded.
  have hread : ∀ {D : Discipline} {node : MstNode}, WF D node →
      (ownLeaves node.entries).length < 2 ^ 31 →
      ∃ data, decodeNodeData node.block = .ok data ∧
        deserializeNodeData (fun cid => .ok (mk 0 (some cid) [])) data =
          .ok (mk (resolvedLayer node.entries) (some node.cid) (linkEntries node.entries)) := by
    intro D node h hsize
    obtain ⟨data, hdata, hbytes, _, hsmall, _⟩ := h.entriesOk.blockOf_eq
    obtain ⟨layer, pointer, es⟩ := node
    rw [entries_mk] at *
    refine ⟨data, decodeNodeData_encodeNodeData (hsmall hsize) hbytes, ?_⟩
    have hload : ∀ node cid, .tree node ∈ linkEntries es → node.pointer = some cid →
        (Except.ok (mk 0 (some cid) []) : Except String MstNode) = .ok (id node) := by
      intro node cid hn hcid
      rw [linkEntries_eq_map] at hn
      obtain ⟨n, _, rfl⟩ := tree_mem_map.1 hn
      rw [← hcid, pointer_mk]
      rfl
    rw [deserializeNodeData_of_serializeNodeData hdata hbytes hload, map_mapTree_id,
      resolvedLayer_linkEntries, cid, block]
  obtain ⟨data, hdec, hdes⟩ := hread h hsize
  obtain ⟨data', hdec', hdes'⟩ := hread h' hsize'
  rw [hb, hdec', Except.ok.injEq] at hdec
  subst hdec
  rw [hdes', Except.ok.injEq] at hdes
  injection hdes with _ _ hlink
  exact hlink.symm

theorem shapeEntries_eq_of_linkEntries {es es' : List NodeEntry}
    (hlink : linkEntries es = linkEntries es')
    (hsub : ∀ child, .tree child ∈ es → ∀ child', .tree child' ∈ es' →
      child.cid = child'.cid → child.shape = child'.shape) :
    shapeEntries es = shapeEntries es' := by
  induction es generalizing es' with
  | nil =>
    rcases es' with _ | ⟨_ | _, _⟩
    · rfl
    · cases hlink
    · cases hlink
  | cons e es ih =>
    have hrest : ∀ {e' : NodeEntry} {es'' : List NodeEntry}, es' = e' :: es'' →
        linkEntries es = linkEntries es'' → shapeEntries es = shapeEntries es'' :=
      fun he hlink => ih hlink fun child hc child' hc' =>
        hsub child (List.mem_cons_of_mem _ hc) child' (he ▸ List.mem_cons_of_mem _ hc')
    rcases e with ⟨k, v⟩ | n <;> rcases es' with _ | ⟨⟨k', v'⟩ | n', es'⟩
    · cases hlink
    · simp only [linkEntries, List.cons.injEq] at hlink
      rw [shapeEntries, shapeEntries, hlink.1, hrest rfl hlink.2]
    · cases hlink
    · cases hlink
    · cases hlink
    · simp only [linkEntries, List.cons.injEq, NodeEntry.tree.injEq, mk.injEq, Option.some.injEq,
        true_and, and_true] at hlink
      rw [shapeEntries, shapeEntries, hsub n List.mem_cons_self n' List.mem_cons_self hlink.1,
        hrest rfl hlink.2]

/-- Without collisions, the CID determines the tree up to its layers. -/
theorem shape_eq_of_cid {node node' : MstNode} (h : WF D node) (h' : WF D' node')
    (hsize : Sized node) (hsize' : Sized node')
    (hfree : CollisionFree (node.blocks ++ node'.blocks)) (hcid : node.cid = node'.cid) :
    node.shape = node'.shape := by
  induction node using MstNode.ind generalizing node' with | h layer pointer es ih => ?_
  have hblock : (mk layer pointer es).block = node'.block :=
    hfree _ (List.mem_append_left _ (root_mem_blocks _)) _
      (List.mem_append_right _ (root_mem_blocks node')) hcid
  have hlink := linkEntries_eq_of_block h h' (hsize _ (self_mem_nodes _))
    (hsize' _ (self_mem_nodes _)) hblock
  have hsub : ∀ child, .tree child ∈ es → ∀ child', .tree child' ∈ node'.entries →
      child.cid = child'.cid → child.shape = child'.shape := fun child hc child' hc' =>
    ih child hc (h.entriesOk.child child hc).2.2 (h'.entriesOk.child child' hc').2.2
      (hsize.of_mem hc) (hsize'.of_mem hc') (hfree.mono fun b hb => by
        rcases List.mem_append.1 hb with hb | hb
        · exact List.mem_append_left _ (blocks_subset_of_mem (n := mk layer pointer es) hc hb)
        · exact List.mem_append_right _ (blocks_subset_of_mem hc' hb))
  obtain ⟨layer', pointer', es'⟩ := node'
  exact congrArg (mk 0 none) (shapeEntries_eq_of_linkEntries hlink hsub)

/-! ## Loading -/

theorem mem_blocks {node : MstNode} {b : Cid × Bytes} :
    b ∈ node.blocks ↔ ∃ n ∈ node.nodes, b = (n.cid, n.block) := by
  induction node using MstNode.ind with | h layer pointer es ih => ?_
  rw [blocks, nodes, List.mem_cons, mem_entryBlocks]
  constructor
  · rintro (rfl | ⟨child, hc, hb⟩)
    · exact ⟨_, List.mem_cons_self, rfl⟩
    · obtain ⟨n, hn, rfl⟩ := (ih child hc).1 hb
      exact ⟨n, List.mem_cons_of_mem _ (mem_entryNodes.2 ⟨child, hc, hn⟩), rfl⟩
  · rintro ⟨n, hn, rfl⟩
    rcases List.mem_cons.1 hn with rfl | hn
    · exact .inl rfl
    · obtain ⟨child, hc, hn⟩ := mem_entryNodes.1 hn
      exact .inr ⟨child, hc, (ih child hc).2 ⟨n, hn, rfl⟩⟩

theorem nodes_trans {root node : MstNode} (hn : node ∈ root.nodes) :
    (∀ n ∈ node.nodes, n ∈ root.nodes) ∧ node.height ≤ root.height := by
  induction root using MstNode.ind with | h layer pointer es ih => ?_
  rw [nodes, List.mem_cons, mem_entryNodes] at hn
  rcases hn with rfl | ⟨child, hc, hn⟩
  · exact ⟨fun n hn => hn, le_rfl⟩
  · obtain ⟨hsub, hle⟩ := ih child hc hn
    refine ⟨fun n hn => ?_, hle.trans (height_lt_of_mem (n := mk layer pointer es) hc).le⟩
    rw [nodes]
    exact List.mem_cons_of_mem _ (mem_entryNodes.2 ⟨child, hc, hsub n hn⟩)

/-- The CID of a node does not come again below it. -/
theorem cid_ne_of_mem {node child : MstNode} (h : WF D node) (hsize : Sized node)
    (hfree : CollisionFree node.blocks) (hc : .tree child ∈ node.entries) {b : Cid × Bytes}
    (hb : b ∈ child.blocks) : b.1 ≠ node.cid := by
  intro hcid
  obtain ⟨n, hn, rfl⟩ := mem_blocks.1 hb
  have hwf := ((h.entriesOk.child child hc).2.2).of_mem_nodes hn
  obtain ⟨hsub, hle⟩ := nodes_trans hn
  have hshape : n.shape = node.shape :=
    shape_eq_of_cid hwf h (fun x hx => hsize.of_mem hc x (hsub x hx)) hsize
      (hfree.mono fun b hb => (List.mem_append.1 hb).elim (fun hb => by
        obtain ⟨x, hx, rfl⟩ := mem_blocks.1 hb
        exact blocks_subset_of_mem hc (mem_blocks.2 ⟨x, hsub x hx, rfl⟩)) id) hcid
  have hheight : n.height = node.height := by rw [← height_shape, hshape, height_shape]
  have hlt := height_lt_of_mem hc
  omega

/-- The CIDs on a longest path are different. -/
theorem exists_path {node : MstNode} (h : WF D node) (hsize : Sized node)
    (hfree : CollisionFree node.blocks) :
    ∃ path : List Cid, path.Nodup ∧ path.length = node.height ∧
      ∀ cid ∈ path, ∃ b ∈ node.blocks, b.1 = cid := by
  induction node using MstNode.ind with | h layer pointer es ih => ?_
  rcases exists_height es with h₀ | ⟨child, hc, hheight⟩
  · exact ⟨[(mk layer pointer es).cid], List.nodup_singleton _, by rw [height, h₀]; rfl, by
      simpa using ⟨_, root_mem_blocks (mk layer pointer es)⟩⟩
  · have hblocks := fun b => blocks_subset_of_mem (n := mk layer pointer es) (b := b) hc
    obtain ⟨path, hnodup, hlen, hpath⟩ := ih child hc (h.entriesOk.child child hc).2.2
      (hsize.of_mem hc) (hfree.mono hblocks)
    refine ⟨(mk layer pointer es).cid :: path, List.nodup_cons.2 ⟨fun hmem => ?_, hnodup⟩, ?_,
      List.forall_mem_cons.2 ⟨⟨_, root_mem_blocks _, rfl⟩, fun cid hcid => ?_⟩⟩
    · obtain ⟨b, hb, hcid⟩ := hpath _ hmem
      exact cid_ne_of_mem h hsize hfree hc hb hcid
    · rw [List.length_cons, hlen, hheight, height]
    · obtain ⟨b, hb, rfl⟩ := hpath cid hcid
      exact ⟨b, hblocks b hb, rfl⟩

/-- The store is long enough for every path. -/
theorem height_le_length {store : BlockStore} {node : MstNode} (h : WF D node) (hsize : Sized node)
    (hfree : CollisionFree node.blocks) (hs : Stored store node) :
    node.height ≤ store.length := by
  obtain ⟨path, hnodup, hlen, hpath⟩ := exists_path h hsize hfree
  have hcids : (keys store).length = store.length := List.length_map _
  rw [← hlen, ← hcids]
  refine (List.subperm_of_subset hnodup fun cid hcid => ?_).length_le
  obtain ⟨b, hb, rfl⟩ := hpath cid hcid
  exact lookup_isSome_iff.1 (by rw [show store.lookup b.1 = some b.2 from hs b hb]; rfl)

/-- A tree in the store is loaded. -/
theorem loadTree_ok {store : BlockStore} {node : MstNode} (h : WF D node) (hsize : Sized node)
    (hs : Stored store node) {fuel : ℕ} (hfuel : node.height ≤ fuel) :
    loadTree store fuel node.cid = .ok node.reload := by
  induction node using MstNode.ind generalizing fuel with | h layer pointer es ih => ?_
  obtain ⟨fuel, rfl⟩ : ∃ n, fuel = n + 1 := Nat.exists_eq_add_one.2 (by rw [height] at hfuel; omega)
  obtain ⟨data, hdata, hbytes, _, hsmall, _⟩ := h.entriesOk.blockOf_eq
  have hload : ∀ node cid, .tree node ∈ es.map (NodeEntry.mapTree reload) →
      node.pointer = some cid → loadTree store fuel cid = .ok (id node) := by
    intro node cid hn hcid
    obtain ⟨child, hc, rfl⟩ := tree_mem_map.1 hn
    have hlt := height_lt_of_mem (n := mk layer pointer es) hc
    have hchild := ih child hc (h.entriesOk.child child hc).2.2 (hsize.of_mem hc)
      (fun b hb => hs b (blocks_subset_of_mem (n := mk layer pointer es) hc hb))
      (show child.height ≤ fuel by omega)
    rw [pointer_reload, Option.some.injEq] at hcid
    rw [← hcid, hchild]
    rfl
  rw [entries_mk] at hdata hbytes hsmall
  rw [← serializeNodeData_eq_linkEntries fun n _ => ⟨shape_reload n, pointer_reload n⟩] at hdata
  rw [loadTree, hs _ (root_mem_blocks _)]
  dsimp only
  rw [block, decodeNodeData_encodeNodeData (hsmall (hsize _ (self_mem_nodes _))) hbytes, ok_bind,
    deserializeNodeData_of_serializeNodeData hdata hbytes hload, map_mapTree_id,
    resolvedLayer_map, reload, reloadEntries_eq_map, cid, block]

/-! ## Reopening an instance -/

theorem wf_reload {node : MstNode} (h : WF D node) : WF loose node.reload := by
  induction node using MstNode.ind with | h layer pointer es ih => ?_
  have hok := h.entriesOk
  have hcid := cid_eq_of_shape (shape_reload (mk layer pointer es))
  rw [reload, reloadEntries_eq_map] at hcid ⊢
  refine EntriesOk.wf (hok.mapTree (fun _ _ => trivial) fun n hn => ⟨trivial, ?_, ?_⟩)
    (.inr (congrArg some hcid.symm))
  · rw [← List.length_pos_iff, length_entries_eq_of_shape (shape_reload n), List.length_pos_iff]
    exact (hok.child n hn).2.1
  · exact ih n hn (hok.child n hn).2.2

theorem known_reload (node : MstNode) : Known node.reload := by
  induction node using MstNode.ind with | h layer pointer es ih => ?_
  rw [reload, reloadEntries_eq_map]
  refine .mk fun n hn => ?_
  obtain ⟨child, hc, rfl⟩ := tree_mem_map.1 hn
  exact ih child hc

/-- An instance that holds a map, with the blocks of its tree in the store. -/
structure Held (D : Discipline) (empty : Option Cid) (s : Instance) (tree : MstNode)
    (m : List (Key × Cid)) : Prop extends Holds D empty s.mst tree m where
  stored : m ≠ [] → Stored s.store tree

/-- A root in the store is opened. -/
theorem init_some {store : BlockStore} {tree : MstNode} (h : WF D tree) (hsize : Sized tree)
    (hfree : CollisionFree tree.blocks) (hs : Stored store tree) (hsorted : Sorted tree.walkLeaves) :
    (Mst.createMst (some tree.cid)).init store =
      .ok ⟨some tree.cid, some tree.reload, tree.walkLeaves⟩ := by
  have hload := loadTree_ok h hsize hs ((height_le_length h hsize hfree hs).trans (Nat.le_succ _))
  rw [Mst.init, Mst.createMst]
  dsimp only
  rw [hload, ok_bind, walkLeaves_eq_of_shape (shape_reload tree), foldl_set_nil hsorted.nodup]
  rfl

/-- The instance that is opened holds the map of its tree. -/
theorem holds_reload {tree : MstNode} (h : WF D tree) (hsorted : Sorted tree.walkLeaves)
    {root : Option Cid} (hroot : tree.walkLeaves ≠ [] → root = some tree.cid)
    (hnil : tree.walkLeaves = [] → root = none ∨ root = empty) :
    Holds loose empty ⟨root, some tree.reload, tree.walkLeaves⟩ tree.reload tree.walkLeaves where
  tree_eq := rfl
  wf := wf_reload h
  known := known_reload tree
  leaves := walkLeaves_eq_of_shape (shape_reload tree)
  sorted := hsorted
  nodup := hsorted.nodup
  lookup _ := rfl
  root hm := by rw [cid_eq_of_shape (shape_reload tree), hroot hm]
  root_nil := hnil

/-- Reopening: the map is the same, the tree is rebuilt from its blocks. -/
theorem Held.init {s : Instance} {tree : MstNode} {m : List (Key × Cid)}
    (h : Held D none s tree m) (hsize : Sized tree) (hfree : CollisionFree tree.blocks) :
    Instance.init s.store s.mst.root = .ok ⟨s.store, s.mst.root, some tree.reload, m⟩ ∧
      Held loose none ⟨s.store, s.mst.root, some tree.reload, m⟩ tree.reload m := by
  have hleaves := h.leaves
  have hsorted := h.sorted
  have hholds := holds_reload h.wf (hleaves ▸ hsorted) (fun hm => h.root (hleaves ▸ hm))
    fun hm => h.root_nil (hleaves ▸ hm)
  rw [hleaves] at hholds
  refine ⟨?_, hholds, fun hm b hb =>
    h.stored hm b (blocks_eq_of_shape (shape_reload tree) ▸ hb)⟩
  by_cases hm : m = []
  · subst hm
    have hes : tree.entries = [] := h.wf.walkLeaves_eq_nil_iff.1 hleaves
    obtain ⟨layer, pointer, es⟩ := tree
    obtain rfl : es = [] := hes
    rw [(h.root_nil rfl).elim id id, Instance.init, Mst.init, Mst.createMst]
    dsimp only
    rw [create_nil]
    rfl
  · rw [h.root hm, Instance.init, init_some h.wf hsize hfree (h.stored hm) (hleaves ▸ hsorted),
      hleaves]
    rfl

/-- An operation puts the blocks of its tree that are not there. -/
theorem Held.apply {s : Instance} {tree tree' : MstNode} {m m' : List (Key × Cid)} {op : Op}
    (h : Held D empty s tree m) (hstep : Step D empty s.mst tree (s.outcome op) tree' m')
    (hempty : ∀ b ∈ tree'.blocks, empty ≠ some b.1)
    (hfree : CollisionFree (tree.blocks ++ tree'.blocks)) : Held D empty (s.apply op) tree' m' := by
  refine ⟨hstep.holds, fun hm' b hb => ?_⟩
  rw [Instance.apply, BlockStore.get, BlockStore.putAll, List.lookup_append]
  rcases hstep.puts with hputs | ⟨hputs, hmst, rfl⟩
  · cases hl : (s.outcome op).puts.reverse.lookup b.1 with
    | some bytes =>
      have hmem := List.mem_reverse.1 (mem_of_lookup hl)
      rw [hputs] at hmem
      exact congrArg some (hfree _ (List.mem_append_right _ (List.mem_filter.1 hmem).1) b
        (List.mem_append_right _ hb) rfl)
    | none =>
      -- What is not put is the root before the operation, which is there.
      have hroot : b.1 ∈ s.mst.root.toList := not_not.1 fun hnot => by
        have hput : b ∈ (s.outcome op).puts := by
          rw [hputs]
          exact List.mem_filter.2 ⟨hb, by simpa using hnot⟩
        exact lookup_eq_none_iff.1 hl (mem_keys_of_mem (List.mem_reverse.2 hput))
      rw [Option.mem_toList] at hroot
      by_cases hm : m = []
      · rcases h.root_nil hm with hnone | he
        · cases hnone.symm.trans hroot
        · exact absurd (he.symm.trans hroot) (hempty b hb)
      · have hcid : tree.cid = b.1 := Option.some.inj ((h.root hm).symm.trans hroot)
        have hbytes := hfree _ (List.mem_append_left _ (root_mem_blocks tree)) b
          (List.mem_append_right _ hb) hcid
        rw [← hcid, ← hbytes]
        exact h.stored hm _ (root_mem_blocks tree)
  · rw [hputs]
    refine h.stored (fun hm => hm' ?_) b hb
    rw [← hstep.holds.leaves, h.leaves, hm]

end ComputeContract
