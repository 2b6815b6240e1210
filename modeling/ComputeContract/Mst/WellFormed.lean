import ComputeContract.Mst.Block

/-!
# Well-formed trees

A tree is well formed when no node has two subtrees next to each other, no subtree is
empty, the keys and values are valid, and every known pointer is the CID of its node.
The layers obey a `Discipline`:

* `strict`: a leaf lies at the layer of its key and a subtree one layer below its
  parent. This holds of a tree that stays in memory;
* `loose`: anything goes. This is what is left after a reload, which guesses the
  layers.

`WF.serialize` and `WF.collectBlocks` say that a well-formed tree is serialized, to
blocks that depend neither on its layers nor on the pointers known.
-/

namespace ComputeContract

namespace MstNode

/-- Induction on the subtrees. -/
theorem ind {P : MstNode → Prop}
    (h : ∀ layer pointer entries, (∀ child, .tree child ∈ entries → P child) →
      P (mk layer pointer entries)) : ∀ node, P node
  | mk layer pointer entries => h layer pointer entries fun child _ => ind h child
termination_by node => sizeOf node
decreasing_by exact sizeOf_lt_of_mem (n := mk layer pointer entries) ‹_›

/-! ## Blocks -/

/-- The block of a node with these entries. -/
def blockOf (entries : List NodeEntry) : Bytes :=
  (serializeNodeData entries >>= encodeNodeData).toOption.getD []

mutual

/-- The block of the node, with the CIDs of its subtrees computed anew. -/
def block : MstNode → Bytes
  | mk _ _ entries => blockOf (linkEntries entries)

/-- The entries with nothing of a subtree but its CID. -/
def linkEntries : List NodeEntry → List NodeEntry
  | [] => []
  | .leaf key value :: es => .leaf key value :: linkEntries es
  | .tree node :: es => .tree (mk 0 (some (cidForBytes node.block)) []) :: linkEntries es

end

/-- The CID of the node. -/
def cid (node : MstNode) : Cid := cidForBytes node.block

mutual

/-- The blocks of the tree with their CIDs, from the root down. -/
def blocks : MstNode → List (Cid × Bytes)
  | mk layer pointer entries =>
    ((mk layer pointer entries).cid, (mk layer pointer entries).block) :: entryBlocks entries

def entryBlocks : List NodeEntry → List (Cid × Bytes)
  | [] => []
  | .leaf _ _ :: es => entryBlocks es
  | .tree node :: es => node.blocks ++ entryBlocks es

end

mutual

/-- The tree without its layers and pointers. -/
def shape : MstNode → MstNode
  | mk _ _ entries => mk 0 none (shapeEntries entries)

def shapeEntries : List NodeEntry → List NodeEntry
  | [] => []
  | .leaf key value :: es => .leaf key value :: shapeEntries es
  | .tree node :: es => .tree node.shape :: shapeEntries es

end

theorem linkEntries_eq_map (es : List NodeEntry) :
    linkEntries es = es.map (NodeEntry.mapTree fun node => mk 0 (some node.cid) []) := by
  induction es with
  | nil => rfl
  | cons e es ih => cases e <;> simp [linkEntries, NodeEntry.mapTree, cid, ih]

theorem shapeEntries_eq_map (es : List NodeEntry) :
    shapeEntries es = es.map (NodeEntry.mapTree shape) := by
  induction es with
  | nil => rfl
  | cons e es ih => cases e <;> simp [shapeEntries, NodeEntry.mapTree, ih]

mutual

theorem block_shape : ∀ node : MstNode, node.shape.block = node.block
  | mk _ _ entries => by rw [shape, block, block, linkEntries_shapeEntries entries]

theorem linkEntries_shapeEntries : ∀ es : List NodeEntry,
    linkEntries (shapeEntries es) = linkEntries es
  | [] => rfl
  | .leaf _ _ :: es => by rw [shapeEntries, linkEntries, linkEntries, linkEntries_shapeEntries es]
  | .tree node :: es => by
    rw [shapeEntries, linkEntries, linkEntries, linkEntries_shapeEntries es, block_shape node]

end

mutual

theorem walkLeaves_shape : ∀ node : MstNode, node.shape.walkLeaves = node.walkLeaves
  | mk _ _ entries => by rw [shape, walkLeaves, walkLeaves, entryLeaves_shapeEntries entries]

theorem entryLeaves_shapeEntries : ∀ es : List NodeEntry,
    entryLeaves (shapeEntries es) = entryLeaves es
  | [] => rfl
  | .leaf _ _ :: es => by rw [shapeEntries, entryLeaves, entryLeaves, entryLeaves_shapeEntries es]
  | .tree node :: es => by
    rw [shapeEntries, entryLeaves, entryLeaves, entryLeaves_shapeEntries es, walkLeaves_shape node]

end

mutual

theorem blocks_shape : ∀ node : MstNode, node.shape.blocks = node.blocks
  | mk layer pointer entries => by
    have hb := block_shape (mk layer pointer entries)
    rw [shape] at hb ⊢
    rw [blocks, blocks, entryBlocks_shapeEntries entries, cid, cid, hb]

theorem entryBlocks_shapeEntries : ∀ es : List NodeEntry,
    entryBlocks (shapeEntries es) = entryBlocks es
  | [] => rfl
  | .leaf _ _ :: es => by rw [shapeEntries, entryBlocks, entryBlocks, entryBlocks_shapeEntries es]
  | .tree node :: es => by
    rw [shapeEntries, entryBlocks, entryBlocks, entryBlocks_shapeEntries es, blocks_shape node]

end

section SameShape

variable {node node' : MstNode} (h : node.shape = node'.shape)
include h

theorem block_eq_of_shape : node.block = node'.block := by
  rw [← block_shape, h, block_shape]

theorem cid_eq_of_shape : node.cid = node'.cid := congrArg cidForBytes (block_eq_of_shape h)

theorem walkLeaves_eq_of_shape : node.walkLeaves = node'.walkLeaves := by
  rw [← walkLeaves_shape, h, walkLeaves_shape]

theorem blocks_eq_of_shape : node.blocks = node'.blocks := by
  rw [← blocks_shape, h, blocks_shape]

theorem length_entries_eq_of_shape : node.entries.length = node'.entries.length := by
  obtain ⟨_, _, es⟩ := node
  obtain ⟨_, _, es'⟩ := node'
  simp only [shape, mk.injEq, true_and] at h
  rw [entries_mk, entries_mk, ← List.length_map, ← shapeEntries_eq_map, h, shapeEntries_eq_map,
    List.length_map]

end SameShape

end MstNode

open MstNode

@[simp] theorem MstNode.entryLeaves_append (es es' : List NodeEntry) :
    entryLeaves (es ++ es') = entryLeaves es ++ entryLeaves es' := by
  induction es with
  | nil => rfl
  | cons e es ih => cases e <;> simp [entryLeaves, ih]

theorem MstNode.walkLeaves_eq (node : MstNode) : node.walkLeaves = entryLeaves node.entries := by
  obtain ⟨_, _, _⟩ := node
  rfl

/-! ## Well-formedness -/

/-- What the layers of a tree have to obey. -/
structure Discipline where
  /-- A key may lie at a layer. -/
  leafOk : ℕ → Key → Prop
  /-- A node of a layer may have a subtree of another. -/
  childOk : ℕ → ℕ → Prop
  leafOk_zeros : ∀ key, leafOk (leadingZerosOnHash key) key
  childOk_pred : ∀ layer, childOk (layer + 1) layer
  childOk_max : ∀ {layer child zeros}, childOk layer child → zeros < layer →
    childOk layer (max child zeros)

/-- A leaf at the layer of its key, a subtree one layer below. -/
def strict : Discipline where
  leafOk layer key := leadingZerosOnHash key = layer
  childOk layer child := child + 1 = layer
  leafOk_zeros _ := rfl
  childOk_pred _ := rfl
  childOk_max h h' := by omega

/-- Any layers. -/
def loose : Discipline where
  leafOk _ _ := True
  childOk _ _ := True
  leafOk_zeros _ := trivial
  childOk_pred _ := trivial
  childOk_max _ _ := trivial

/-- A well-formed tree. -/
inductive WF (D : Discipline) : MstNode → Prop
  | mk {layer : ℕ} {pointer : Option Cid} {entries : List NodeEntry}
    (leaf : ∀ key value, .leaf key value ∈ entries →
      isValidMstKey key ∧ isValidCid value ∧ D.leafOk layer key)
    (child : ∀ node, .tree node ∈ entries → D.childOk layer node.layer ∧ node.entries ≠ [])
    (sub : ∀ node, .tree node ∈ entries → WF D node)
    (alternating : Alternating entries)
    (known : pointer = none ∨ pointer = some (cidForBytes (blockOf (linkEntries entries)))) :
    WF D (.mk layer pointer entries)

/-- Entries of a well-formed node. -/
structure EntriesOk (D : Discipline) (layer : ℕ) (entries : List NodeEntry) : Prop where
  leaf : ∀ key value, .leaf key value ∈ entries →
    isValidMstKey key ∧ isValidCid value ∧ D.leafOk layer key
  child : ∀ node, .tree node ∈ entries →
    D.childOk layer node.layer ∧ node.entries ≠ [] ∧ WF D node
  alternating : Alternating entries

variable {D : Discipline}

theorem WF.entriesOk {node : MstNode} (h : WF D node) : EntriesOk D node.layer node.entries := by
  obtain ⟨leaf, child, sub, alternating, _⟩ := h
  exact ⟨leaf, fun n hn => ⟨(child n hn).1, (child n hn).2, sub n hn⟩, alternating⟩

theorem WF.pointer_eq {node : MstNode} (h : WF D node) :
    node.pointer = none ∨ node.pointer = some node.cid := by
  obtain ⟨_, _, _, _, hp⟩ := h
  exact hp

theorem EntriesOk.wf {layer : ℕ} {pointer : Option Cid} {entries : List NodeEntry}
    (h : EntriesOk D layer entries)
    (hp : pointer = none ∨ pointer = some (MstNode.mk layer pointer entries).cid) :
    WF D (.mk layer pointer entries) :=
  .mk h.leaf (fun n hn => ⟨(h.child n hn).1, (h.child n hn).2.1⟩) (fun n hn => (h.child n hn).2.2)
    h.alternating hp

/-- A new node of entries that are in order. -/
theorem EntriesOk.newTree {node : MstNode} {entries : List NodeEntry}
    (h : EntriesOk D node.layer entries) : WF D (node.newTree entries) :=
  h.wf (.inl rfl)

/-! ## Entries -/

/-- The entries do not end in a subtree. -/
def EndsInLeaf (es : List NodeEntry) : Prop := ∀ e ∈ es.getLast?, ¬ e.isTree

/-- The entries do not start with a subtree. -/
def StartsWithLeaf (es : List NodeEntry) : Prop := ∀ e ∈ es.head?, ¬ e.isTree

theorem EntriesOk.nil {layer : ℕ} : EntriesOk D layer [] :=
  ⟨by simp, by simp, .nil⟩

theorem endsInLeaf_concat {L : List NodeEntry} {key : Key} {value : Cid} :
    EndsInLeaf (L ++ [.leaf key value]) := by
  simp [EndsInLeaf, NodeEntry.isTree]

theorem startsWithLeaf_cons {R : List NodeEntry} {key : Key} {value : Cid} :
    StartsWithLeaf (.leaf key value :: R) := by
  simp [StartsWithLeaf, NodeEntry.isTree]

theorem EntriesOk.append {layer : ℕ} {L R : List NodeEntry} (hL : EntriesOk D layer L)
    (hR : EntriesOk D layer R) (h : EndsInLeaf L ∨ StartsWithLeaf R) :
    EntriesOk D layer (L ++ R) := by
  refine ⟨fun k v hm => ?_, fun n hm => ?_, List.isChain_append.2 ⟨hL.alternating, hR.alternating,
    fun x hx y hy hxy => ?_⟩⟩
  · exact (List.mem_append.1 hm).elim (hL.leaf k v) (hR.leaf k v)
  · exact (List.mem_append.1 hm).elim (hL.child n) (hR.child n)
  · exact h.elim (fun h => h x hx hxy.1) fun h => h y hy hxy.2

theorem EntriesOk.left {layer : ℕ} {L R : List NodeEntry} (h : EntriesOk D layer (L ++ R)) :
    EntriesOk D layer L :=
  ⟨fun k v hm => h.leaf k v (List.mem_append_left _ hm),
    fun n hm => h.child n (List.mem_append_left _ hm), h.alternating.left_of_append⟩

theorem EntriesOk.right {layer : ℕ} {L R : List NodeEntry} (h : EntriesOk D layer (L ++ R)) :
    EntriesOk D layer R :=
  ⟨fun k v hm => h.leaf k v (List.mem_append_right _ hm),
    fun n hm => h.child n (List.mem_append_right _ hm), h.alternating.right_of_append⟩

theorem entriesOk_singleton_leaf {layer : ℕ} {key : Key} {value : Cid} :
    EntriesOk D layer [.leaf key value] ↔
      isValidMstKey key ∧ isValidCid value ∧ D.leafOk layer key :=
  ⟨fun h => h.leaf key value List.mem_cons_self, fun h => ⟨by simpa using h, by simp, .singleton _⟩⟩

theorem entriesOk_singleton_tree {layer : ℕ} {node : MstNode} :
    EntriesOk D layer [.tree node] ↔ D.childOk layer node.layer ∧ node.entries ≠ [] ∧ WF D node :=
  ⟨fun h => h.child node List.mem_cons_self, fun h => ⟨by simp, by simpa using h, .singleton _⟩⟩

/-- A leaf splits the entries in two independent parts. -/
theorem entriesOk_leaf {layer : ℕ} {L R : List NodeEntry} {key : Key} {value : Cid} :
    EntriesOk D layer (L ++ .leaf key value :: R) ↔
      EntriesOk D layer L ∧ (isValidMstKey key ∧ isValidCid value ∧ D.leafOk layer key) ∧
        EntriesOk D layer R := by
  refine ⟨fun h => ⟨h.left, h.leaf key value (by simp), EntriesOk.right (L := [_]) h.right⟩, ?_⟩
  rintro ⟨hL, hk, hR⟩
  exact hL.append ((entriesOk_singleton_leaf.2 hk).append hR (.inl (endsInLeaf_concat (L := []))))
    (.inr startsWithLeaf_cons)

/-- A subtree stands between leaves. -/
theorem entriesOk_tree {layer : ℕ} {L R : List NodeEntry} {node : MstNode} :
    EntriesOk D layer (L ++ .tree node :: R) ↔
      (EntriesOk D layer L ∧ EndsInLeaf L) ∧
        (D.childOk layer node.layer ∧ node.entries ≠ [] ∧ WF D node) ∧
        EntriesOk D layer R ∧ StartsWithLeaf R := by
  constructor
  · intro h
    have hr : EntriesOk D layer (.tree node :: R) := h.right
    obtain ⟨_, _, hmeet⟩ := List.isChain_append.1 h.alternating
    exact ⟨⟨h.left, fun e he het => hmeet e he (.tree node) rfl ⟨het, rfl⟩⟩,
      h.child node (by simp), EntriesOk.right (L := [_]) hr, (alternating_cons.1 hr.alternating).1 rfl⟩
  · rintro ⟨⟨hL, hend⟩, hn, hR, hstart⟩
    exact hL.append ((entriesOk_singleton_tree.2 hn).append hR (.inr hstart)) (.inl hend)

theorem isTree_mapTree (f : MstNode → MstNode) (e : NodeEntry) : (e.mapTree f).isTree = e.isTree := by
  cases e <;> rfl

theorem alternating_map (f : MstNode → MstNode) {es : List NodeEntry} :
    Alternating (es.map (NodeEntry.mapTree f)) ↔ Alternating es := by
  simp only [Alternating, List.isChain_map, isTree_mapTree]

theorem map_mapTree_id (es : List NodeEntry) : es.map (NodeEntry.mapTree id) = es :=
  (List.map_congr_left fun e _ => by cases e <;> rfl).trans (List.map_id es)

theorem leaf_mem_map {f : MstNode → MstNode} {es : List NodeEntry} {key : Key} {value : Cid} :
    .leaf key value ∈ es.map (NodeEntry.mapTree f) ↔ .leaf key value ∈ es := by
  rw [List.mem_map]
  refine ⟨?_, fun h => ⟨_, h, rfl⟩⟩
  rintro ⟨e, he, h⟩
  cases e with
  | leaf => exact h ▸ he
  | tree => cases h

theorem tree_mem_map {f : MstNode → MstNode} {es : List NodeEntry} {node : MstNode} :
    .tree node ∈ es.map (NodeEntry.mapTree f) ↔ ∃ n, .tree n ∈ es ∧ f n = node := by
  rw [List.mem_map]
  constructor
  · rintro ⟨e, he, h⟩
    cases e with
    | leaf => cases h
    | tree n => exact ⟨n, he, by injection h⟩
  · rintro ⟨n, hn, rfl⟩
    exact ⟨_, hn, rfl⟩

/-- Entries stay in order when each subtree is replaced by another in order. -/
theorem EntriesOk.mapTree {D' : Discipline} {f : MstNode → MstNode} {layer layer' : ℕ}
    {es : List NodeEntry} (h : EntriesOk D layer es)
    (hleaf : ∀ key, D.leafOk layer key → D'.leafOk layer' key)
    (hchild : ∀ node, .tree node ∈ es →
      D'.childOk layer' (f node).layer ∧ (f node).entries ≠ [] ∧ WF D' (f node)) :
    EntriesOk D' layer' (es.map (NodeEntry.mapTree f)) := by
  refine ⟨fun k v hm => ?_, fun n hm => ?_, (alternating_map f).2 h.alternating⟩
  · obtain ⟨hk, hv, hl⟩ := h.leaf k v (leaf_mem_map.1 hm)
    exact ⟨hk, hv, hleaf k hl⟩
  · obtain ⟨n, hn, rfl⟩ := tree_mem_map.1 hm
    exact hchild n hn

theorem shapeEntries_map {f : MstNode → MstNode} {es : List NodeEntry}
    (h : ∀ node, .tree node ∈ es → (f node).shape = node.shape) :
    shapeEntries (es.map (NodeEntry.mapTree f)) = shapeEntries es := by
  rw [shapeEntries_eq_map, shapeEntries_eq_map, List.map_map]
  refine List.map_congr_left fun e he => ?_
  cases e with
  | leaf => rfl
  | tree node => simp [NodeEntry.mapTree, h node he]

/-- A well-formed node with entries has leaves. -/
theorem WF.walkLeaves_ne_nil {node : MstNode} (h : WF D node) (hne : node.entries ≠ []) :
    node.walkLeaves ≠ [] := by
  induction node using MstNode.ind with | h layer pointer es ih => ?_
  rcases es with _ | ⟨_ | n, es⟩
  · exact absurd rfl hne
  · simp [walkLeaves, entryLeaves]
  · have hn := h.entriesOk.child n List.mem_cons_self
    have := ih n List.mem_cons_self hn.2.2 hn.2.1
    simp [walkLeaves, entryLeaves, this]

theorem WF.walkLeaves_eq_nil_iff {node : MstNode} (h : WF D node) :
    node.walkLeaves = [] ↔ node.entries = [] := by
  refine ⟨fun hl => not_not.1 fun hne => h.walkLeaves_ne_nil hne hl, fun he => ?_⟩
  rw [walkLeaves_eq, he]
  rfl

/-! ## Serialization -/

/-- Entries in order can be serialized once their subtrees are known. -/
theorem EntriesOk.linked {layer : ℕ} {es : List NodeEntry} (h : EntriesOk D layer es) :
    Linked (linkEntries es) := by
  rw [linkEntries_eq_map]
  refine ⟨(alternating_map _).2 h.alternating, fun k v hm => ?_, fun n hm => ?_⟩
  · obtain ⟨hk, hv, _⟩ := h.leaf k v (leaf_mem_map.1 hm)
    exact ⟨hk, hv⟩
  · obtain ⟨n, _, rfl⟩ := tree_mem_map.1 hm
    exact ⟨n.cid, rfl, isValidCid_cidFromDigest _⟩

theorem ownLeaves_map (f : MstNode → MstNode) (es : List NodeEntry) :
    ownLeaves (es.map (NodeEntry.mapTree f)) = ownLeaves es := by
  rw [ownLeaves, ownLeaves, List.filterMap_map]
  refine List.filterMap_congr fun e _ => ?_
  cases e <;> rfl

theorem ownLeaves_eq_of_shape {node node' : MstNode} (h : node.shape = node'.shape) :
    ownLeaves node.entries = ownLeaves node'.entries := by
  obtain ⟨_, _, es⟩ := node
  obtain ⟨_, _, es'⟩ := node'
  simp only [shape, mk.injEq, true_and] at h
  rw [entries_mk, entries_mk, ← ownLeaves_map shape, ← shapeEntries_eq_map, h, shapeEntries_eq_map,
    ownLeaves_map]

/-- Entries whose subtrees are known are serialized as their links. -/
theorem serializeNodeData_eq_linkEntries {f : MstNode → MstNode} {es : List NodeEntry}
    (hf : ∀ node, .tree node ∈ es → (f node).shape = node.shape ∧
      (f node).pointer = some node.cid) :
    serializeNodeData (es.map (NodeEntry.mapTree f)) = serializeNodeData (linkEntries es) := by
  have hlink : linkEntries (es.map (NodeEntry.mapTree f)) = linkEntries es := by
    rw [← linkEntries_shapeEntries, shapeEntries_map fun n hn => (hf n hn).1,
      linkEntries_shapeEntries]
  rw [← hlink, linkEntries_eq_map]
  refine (serializeNodeData_map fun n hn => ?_).symm
  obtain ⟨m, hm, rfl⟩ := tree_mem_map.1 hn
  rw [(hf m hm).2, cid_eq_of_shape (hf m hm).1, pointer_mk]

/-- The block of a well-formed node is the encoding of its data. -/
theorem EntriesOk.blockOf_eq {layer : ℕ} {es : List NodeEntry} (h : EntriesOk D layer es) :
    ∃ data, serializeNodeData (linkEntries es) = .ok data ∧
      encodeNodeData data = .ok (blockOf (linkEntries es)) ∧
      data.e.length = (ownLeaves es).length ∧ ((ownLeaves es).length < 2 ^ 31 → data.Small) ∧
      ∃ rest, blockOf (linkEntries es) = Cbor.writeHeader Cbor.MAJOR_MAP 2 ++ Cbor.encodeText "e" ++
        Cbor.writeHeader Cbor.MAJOR_ARRAY (ownLeaves es).length ++ rest := by
  have hown : ownLeaves (linkEntries es) = ownLeaves es := by
    rw [linkEntries_eq_map, ownLeaves_map]
  obtain ⟨data, hdata, hlen, hsmall, hentries⟩ := serializeNodeData_ok h.linked
  rw [hown] at hlen hsmall
  have hp : ∀ entry ∈ data.e, 0 ≤ entry.p ∧ entry.p.natAbs ≤ Cbor.MAX_SAFE_INTEGER :=
    fun entry he => by
      obtain ⟨h₀, h₁, _⟩ := hentries entry he
      have : Cbor.MAX_SAFE_INTEGER = 9007199254740991 := rfl
      exact ⟨h₀, by omega⟩
  obtain ⟨rest, hb⟩ := encodeNodeData_ok hp
  have hblock : blockOf (linkEntries es) = Cbor.writeHeader Cbor.MAJOR_MAP 2 ++
      Cbor.encodeText "e" ++ Cbor.writeHeader Cbor.MAJOR_ARRAY data.e.length ++ rest := by
    rw [blockOf, hdata, ok_bind, hb]
    rfl
  exact ⟨data, hdata, hblock ▸ hb, hlen, hsmall, rest, hlen ▸ hblock⟩

/-- What is kept of a node when its pointers become known. -/
def Resolved (D : Discipline) (node node' : MstNode) : Prop :=
  WF D node' ∧ node'.shape = node.shape ∧ node'.layer = node.layer ∧ node'.pointer = some node.cid

/-- A node is resolved when its subtrees are. -/
theorem EntriesOk.resolved {f : MstNode → MstNode} {layer : ℕ} {es : List NodeEntry}
    (h : EntriesOk D layer es) (pointer : Option Cid)
    (hf : ∀ node, .tree node ∈ es → Resolved D node (f node)) :
    Resolved D (.mk layer pointer es)
      (.mk layer (some (MstNode.mk layer pointer es).cid) (es.map (NodeEntry.mapTree f))) := by
  have hshape : (MstNode.mk layer (some (MstNode.mk layer pointer es).cid)
      (es.map (NodeEntry.mapTree f))).shape = (MstNode.mk layer pointer es).shape := by
    rw [shape, shape, shapeEntries_map fun n hn => (hf n hn).2.1]
  refine ⟨EntriesOk.wf (h.mapTree (fun _ => id) fun n hn => ?_) (.inr ?_), hshape, rfl, rfl⟩
  · obtain ⟨hwf, hs, hl, _⟩ := hf n hn
    obtain ⟨hc, hne, _⟩ := h.child n hn
    refine ⟨hl ▸ hc, fun he => hne ?_, hwf⟩
    rw [← List.length_eq_zero_iff, ← length_entries_eq_of_shape hs, he, List.length_nil]
  · exact congrArg some (cid_eq_of_shape hshape).symm

theorem resolveEntries_ok {f : MstNode → MstNode} {es : List NodeEntry}
    (hf : ∀ node, .tree node ∈ es →
      (if node.pointer.isSome then .ok node else node.serialize.map fun r => r.2.2) =
        .ok (f node)) :
    resolveEntries es = .ok (es.map (NodeEntry.mapTree f)) := by
  induction es with
  | nil => rfl
  | cons e es ih =>
    have ih := ih fun n hn => hf n (List.mem_cons_of_mem _ hn)
    cases e with
    | leaf => simp [resolveEntries, ih, NodeEntry.mapTree, bind, Except.bind, pure, Except.pure]
    | tree node =>
      have hnode := hf node List.mem_cons_self
      rw [resolveEntries, hnode, ok_bind, ih]
      rfl

/-- A well-formed node is serialized to its block. -/
theorem WF.serialize {node : MstNode} (h : WF D node) :
    ∃ node', node.serialize = .ok (node.cid, node.block, node') ∧ Resolved D node node' := by
  induction node using MstNode.ind with | h layer pointer es ih => ?_
  have hok : EntriesOk D layer es := h.entriesOk
  -- The subtrees that are known stay, the others are serialized.
  have hsub : ∀ node, .tree node ∈ es → ∃ node',
      (if node.pointer.isSome then .ok node else node.serialize.map fun r => r.2.2) = .ok node' ∧
        Resolved D node node' := by
    intro node hn
    have hwf := (hok.child node hn).2.2
    obtain ⟨node', hs, hr⟩ := ih node hn hwf
    rcases hwf.pointer_eq with hp | hp
    · exact ⟨node', by rw [hp, hs]; rfl, hr⟩
    · exact ⟨node, by rw [hp]; rfl, hwf, rfl, rfl, hp⟩
  choose! f hf hres using hsub
  have hresolved := hok.resolved pointer hres
  obtain ⟨data, hdata, hb, _⟩ := hok.blockOf_eq
  have hserial : serializeNodeData (es.map (NodeEntry.mapTree f)) = .ok data := by
    rw [serializeNodeData_eq_linkEntries fun n hn => ⟨(hres n hn).2.1, (hres n hn).2.2.2⟩, hdata]
  refine ⟨_, ?_, hresolved⟩
  rw [MstNode.serialize, resolveEntries_ok hf, ok_bind, hserial, ok_bind, hb]
  rfl

theorem collectEntries_ok {f : MstNode → MstNode} {existing : List Cid} {es : List NodeEntry}
    (hf : ∀ node, .tree node ∈ es → node.collectBlocks existing =
      .ok (f node, node.blocks.filter fun b => b.1 ∉ existing)) :
    collectEntries existing es = .ok (es.map (NodeEntry.mapTree f),
      (entryBlocks es).filter fun b => b.1 ∉ existing) := by
  induction es with
  | nil => rfl
  | cons e es ih =>
    have ih := ih fun n hn => hf n (List.mem_cons_of_mem _ hn)
    cases e with
    | leaf =>
      rw [collectEntries, ih]
      rfl
    | tree node =>
      rw [collectEntries, hf node List.mem_cons_self, ok_bind, ih, entryBlocks, List.filter_append]
      rfl

/-- Every pointer of the tree is known. -/
inductive Known : MstNode → Prop
  | mk {layer : ℕ} {cid : Cid} {entries : List NodeEntry}
    (sub : ∀ node, .tree node ∈ entries → Known node) : Known (.mk layer (some cid) entries)

/-- The blocks of a well-formed tree are collected, except those that exist. -/
theorem WF.collectBlocks {node : MstNode} (h : WF D node) (existing : List Cid) :
    ∃ node', node.collectBlocks existing =
      .ok (node', node.blocks.filter fun b => b.1 ∉ existing) ∧ Resolved D node node' ∧
        Known node' := by
  induction node using MstNode.ind with | h layer pointer es ih => ?_
  have hok : EntriesOk D layer es := h.entriesOk
  have hsub : ∀ node, .tree node ∈ es → _ := fun node hn => ih node hn (hok.child node hn).2.2
  choose! f hf hres hknown using hsub
  obtain ⟨_, hs, _⟩ := h.serialize
  refine ⟨_, ?_, hok.resolved pointer hres, .mk fun n hn => ?_⟩
  · rw [MstNode.collectBlocks, hs, ok_bind, collectEntries_ok hf, blocks, List.filter_cons]
    by_cases hc : (MstNode.mk layer pointer es).cid ∈ existing <;> simp [hc, bind, Except.bind, pure,
      Except.pure]
  · obtain ⟨m, hm, rfl⟩ := tree_mem_map.1 hn
    exact hknown m hm

theorem Known.pointer {node : MstNode} (h : Known node) : ∃ cid, node.pointer = some cid := by
  obtain ⟨_⟩ := h
  exact ⟨_, rfl⟩

theorem Known.sub {node child : MstNode} (h : Known node) (hc : .tree child ∈ node.entries) :
    Known child := by
  obtain ⟨hsub⟩ := h
  exact hsub child hc

/-- A tree with its pointers known stays as it is. -/
theorem WF.serialize_known {node : MstNode} (h : WF D node) (hk : Known node) :
    node.serialize = .ok (node.cid, node.block, node) := by
  obtain ⟨node', hs, _⟩ := h.serialize
  have hp : node.pointer = some node.cid := by
    obtain ⟨cid, hcid⟩ := hk.pointer
    exact h.pointer_eq.resolve_left (by simp [hcid])
  obtain ⟨layer, pointer, es⟩ := node
  have hes : resolveEntries es = .ok es := by
    have hid : resolveEntries es = .ok (es.map (NodeEntry.mapTree id)) :=
      resolveEntries_ok fun n hn => by
        obtain ⟨cid, hcid⟩ := (hk.sub hn).pointer
        rw [hcid]
        rfl
    rw [hid, map_mapTree_id]
  suffices node' = .mk layer pointer es by rw [hs, this]
  rw [pointer_mk] at hp
  rw [MstNode.serialize, hes] at hs
  simp only [bind_eq_ok] at hs
  obtain ⟨_, ⟨⟩, _, _, _, _, hs⟩ := hs
  simp only [pure, Except.pure, Except.ok.injEq, Prod.mk.injEq] at hs
  rw [← hs.2.2, hs.1, ← hp]

/-- A new node of entries in order. -/
theorem EntriesOk.create {layer : ℕ} {es : List NodeEntry} (h : EntriesOk D layer es) :
    ∃ node, MstNode.create es layer = .ok node ∧ Resolved D (.mk layer none es) node := by
  have hwf : WF D (.mk layer none es) := h.wf (.inl rfl)
  obtain ⟨node, hs, hr⟩ := hwf.serialize
  exact ⟨node, by rw [MstNode.create, hs]; rfl, hr⟩

/-- A new node without entries. -/
theorem create_nil (layer : ℕ) :
    MstNode.create [] layer = .ok (.mk layer (some (MstNode.mk layer none []).cid) []) := by
  have hnil : EntriesOk loose layer [] := .nil
  obtain ⟨node, hc, hwf, hshape, hlayer, hp⟩ := hnil.create
  have hes : node.entries = [] := by
    rw [← List.length_eq_zero_iff, length_entries_eq_of_shape hshape]
    rfl
  obtain ⟨_, _, _⟩ := node
  rw [entries_mk] at hes
  rw [layer_mk, layer_mk] at hlayer
  rw [pointer_mk] at hp
  rw [hc, hes, hlayer, hp]

end ComputeContract
