import ComputeContract.Mst.Search

/-!
# Adding and updating

`add` and `update` on a well-formed tree give a well-formed tree whose leaves are the
old ones with the pair inserted. A tree that is cut around a key gives its leaves
below the key and its leaves above it (`WF.splitAround`); a key of a higher layer
puts both sides under as many parents as there are layers in between.
-/

namespace ComputeContract

open MstNode AssocList

variable {D : Discipline} {node child : MstNode} {key : Key} {value : Cid} {L R : List NodeEntry}

/-- One side of a cut: nothing, or a tree at the layer with the leaves `m`. -/
def SideOk (D : Discipline) (layer : ℕ) (m : List (Key × Cid)) : Option MstNode → Prop
  | none => m = []
  | some node => WF D node ∧ node.layer = layer ∧ node.entries ≠ [] ∧ node.walkLeaves = m

/-- The entry of a subtree, if there is one. -/
def sideEntries (side : Option MstNode) : List NodeEntry := (side.map NodeEntry.tree).toList

@[simp] theorem sideEntries_none : sideEntries none = [] := rfl

@[simp] theorem sideEntries_some (n : MstNode) : sideEntries (some n) = [.tree n] := rfl

theorem EntriesOk.orNull (node : MstNode) {es : List NodeEntry} (h : EntriesOk D node.layer es) :
    SideOk D node.layer (entryLeaves es) (node.newTree es).orNull := by
  rw [MstNode.orNull]
  split_ifs with hes
  · exact ⟨h.newTree, rfl, List.length_pos_iff.1 hes, rfl⟩
  · rw [MstNode.newTree, entries_mk, List.length_pos_iff, not_not] at hes
    subst hes
    rfl

theorem SideOk.entryLeaves {layer : ℕ} {m : List (Key × Cid)} {side : Option MstNode}
    (h : SideOk D layer m side) : entryLeaves (sideEntries side) = m := by
  cases side with
  | none => exact h.symm
  | some n => simpa [MstNode.entryLeaves] using h.2.2.2

/-- A side fits between leaves, under a parent that allows its layer. -/
theorem SideOk.entriesOk {layer parent : ℕ} {m : List (Key × Cid)} {side : Option MstNode}
    (h : SideOk D layer m side) (hD : D.childOk parent layer) :
    EntriesOk D parent (sideEntries side) := by
  cases side with
  | none => exact .nil
  | some n => exact entriesOk_singleton_tree.2 ⟨h.2.1 ▸ hD, h.2.2.1, h.1⟩

/-! ## splitAround -/

theorem splitAround_gap (h : Gap node key L R) :
    node.splitAround key = ((node.newTree L).orNull, (node.newTree R).orNull) := by
  rw [splitAround]
  simp only [h.take, h.drop]
  split
  · rename_i n hn
    rw [h.take] at hn
    exact absurd rfl (h.endsInLeaf _ hn)
  · rfl

theorem splitAround_inside (h : Inside node key L child R) :
    node.splitAround key =
      ((node.newTree (L ++ sideEntries (child.splitAround key).1)).orNull,
        (node.newTree (sideEntries (child.splitAround key).2 ++ R)).orNull) := by
  have hremove : (node.newTree (L ++ [.tree child])).removeEntry
      ((L ++ [NodeEntry.tree child]).length - 1) = node.newTree L := by
    simp [removeEntry, newTree]
  rw [splitAround]
  simp only [h.take, h.drop, hremove]
  split
  · rename_i n hn
    rw [h.take] at hn
    obtain rfl : child = n := by simpa using hn
    cases (child.splitAround key).1 <;> cases (child.splitAround key).2 <;>
      simp [append, prepend, newTree]
  · rename_i hn
    rw [h.take] at hn
    exact absurd (List.getLast?_concat ..) (hn child)

/-- The leaves after the cut, without the key itself. -/
theorem above_of_not_mem (habove : ∀ e ∈ entryLeaves R, key ≤ e.1)
    (hk : key ∉ keys (entryLeaves R)) : ∀ e ∈ entryLeaves R, key < e.1 := fun e he =>
  lt_of_le_of_ne (habove e he) fun h => hk (h ▸ mem_keys_of_mem he)

/-- A well-formed tree is cut into its leaves below the key and those above it. -/
theorem WF.splitAround (h : WF D node) (hs : Sorted node.walkLeaves)
    (hk : key ∉ keys node.walkLeaves) :
    SideOk D node.layer (node.walkLeaves.filter fun e => e.1 < key) (node.splitAround key).1 ∧
      SideOk D node.layer (node.walkLeaves.filter fun e => key < e.1) (node.splitAround key).2 := by
  induction node using MstNode.ind with | h layer pointer es ih => ?_
  have hok := h.entriesOk
  rcases cut h hs key with ⟨L, R, hg⟩ | ⟨L, c, R, hg⟩
  · rw [hg.walkLeaves, keys_append, List.mem_append, not_or] at hk
    have habove := above_of_not_mem hg.above hk.2
    rw [splitAround_gap hg, hg.walkLeaves, List.filter_append, List.filter_append,
      (filter_of_below hg.below).1, (filter_of_below hg.below).2, (filter_of_above habove).1,
      (filter_of_above habove).2, List.append_nil, List.nil_append]
    rw [hg.entries] at hok
    exact ⟨hok.left.orNull _, hok.right.orNull _⟩
  · have hmem : .tree c ∈ (MstNode.mk layer pointer es).entries := by simp [hg.entries]
    have hc := hg.wf_child h
    simp only [hg.walkLeaves, keys_append, List.mem_append, not_or] at hk
    have habove := above_of_not_mem hg.above hk.2
    obtain ⟨h₁, h₂⟩ := ih c hmem hc.2.2 (hg.sorted_child hs) hk.1.2
    rw [hg.entries, entriesOk_tree] at hok
    obtain ⟨⟨hL, hend⟩, _, hR, hstart⟩ := hok
    have hleft := EntriesOk.orNull (.mk layer pointer es) (hL.append (h₁.entriesOk hc.1) (.inl hend))
    have hright :=
      EntriesOk.orNull (.mk layer pointer es) ((h₂.entriesOk hc.1).append hR (.inr hstart))
    rw [entryLeaves_append, h₁.entryLeaves] at hleft
    rw [entryLeaves_append, h₂.entryLeaves] at hright
    rw [splitAround_inside hg, hg.walkLeaves]
    simp only [List.filter_append, (filter_of_below hg.below).1, (filter_of_below hg.below).2,
      (filter_of_above habove).1, (filter_of_above habove).2, List.append_nil, List.nil_append]
    exact ⟨hleft, hright⟩

/-! ## createParents -/

theorem Resolved.side {node node' : MstNode} {layer : ℕ} {m : List (Key × Cid)}
    (hr : Resolved D node node') (hl : node.layer = layer) (hne : node.entries ≠ [])
    (hm : node.walkLeaves = m) : SideOk D layer m (some node') := by
  obtain ⟨hwf, hshape, hlayer, _⟩ := hr
  refine ⟨hwf, hlayer.trans hl, fun he => hne ?_, (walkLeaves_eq_of_shape hshape).trans hm⟩
  rw [← List.length_eq_zero_iff, ← length_entries_eq_of_shape hshape, he, List.length_nil]

/-- A side under `count` parents lies `count` layers higher. -/
theorem SideOk.createParents {layer : ℕ} {m : List (Key × Cid)} {node : MstNode}
    (h : SideOk D layer m (some node)) (count : ℕ) :
    ∃ node', createParents count node = .ok node' ∧ SideOk D (layer + count) m (some node') := by
  induction count generalizing layer node with
  | zero => exact ⟨node, rfl, h⟩
  | succ count ih =>
    obtain ⟨hwf, rfl, hne, hm⟩ := h
    have hok : EntriesOk D (node.layer + 1) [.tree node] :=
      entriesOk_singleton_tree.2 ⟨D.childOk_pred _, hne, hwf⟩
    obtain ⟨parent, hp, hr⟩ := hok.create
    have hleaves : (MstNode.mk (node.layer + 1) none [.tree node]).walkLeaves = m := by
      simpa [walkLeaves, MstNode.entryLeaves] using hm
    obtain ⟨node', hn, hside⟩ := ih (hr.side rfl (by simp) hleaves)
    refine ⟨node', ?_, by rwa [layer_mk, Nat.add_assoc, Nat.add_comm 1] at hside⟩
    rw [MstNode.createParents, createParent, hp]
    exact hn

theorem SideOk.mapM_createParents {layer : ℕ} {m : List (Key × Cid)} {side : Option MstNode}
    (h : SideOk D layer m side) (count : ℕ) :
    ∃ side', side.mapM (MstNode.createParents count) = .ok side' ∧
      SideOk D (layer + count) m side' := by
  cases side with
  | none => exact ⟨none, rfl, h⟩
  | some node =>
    obtain ⟨node', hn, hside⟩ := SideOk.createParents h count
    refine ⟨some node', ?_, hside⟩
    rw [Option.mapM_some, hn]
    rfl

/-! ## add -/

/-- What `add` has to give: the pair is inserted, and the layer is that of the key if
    this is higher. -/
def Added (D : Discipline) (node : MstNode) (key : Key) (value : Cid)
    (result : Except String MstNode) : Prop :=
  ∃ node', result = .ok node' ∧ WF D node' ∧
    node'.layer = max node.layer (leadingZerosOnHash key) ∧
    node'.walkLeaves = insertKey key value node.walkLeaves

theorem ensureValidMstKey_of_valid (h : isValidMstKey key) : ensureValidMstKey key = .ok () :=
  ensureValidMstKey_eq_ok.2 h

theorem gap_of_entries_nil (h : node.entries = []) : Gap node key [] [] :=
  ⟨h, by simp [findGtOrEqualLeafIndex, h], by simp [EndsInLeaf], by simp [StartsWithLeaf],
    by simp [entryLeaves], by simp [entryLeaves]⟩

/-- A key of a lower layer goes into a new subtree between the leaves around it … -/
theorem add_of_lt_gap {z : ℕ} (hk : isValidMstKey key) (hz : z < node.layer) (hg : Gap node key L R)
    (hc : node.createChild = .ok child) :
    node.add key value z = (do
      let newSub ← child.add key value z
      return node.newTree (L ++ .tree newSub :: R)) := by
  rw [MstNode.add, ensureValidMstKey_of_valid hk, ok_bind, if_neg hz.ne, dif_pos hz]
  split
  · exact absurd ‹_› (hg.before _)
  · split
    · rename_i hc'
      rw [hc] at hc'
      cases hc'
    · rename_i hc'
      rw [hc] at hc'
      cases hc'
      simp only [spliceIn, hg.take, hg.drop]

/-- … or into the subtree there. -/
theorem add_of_lt_inside {z : ℕ} (hk : isValidMstKey key) (hz : z < node.layer)
    (hg : Inside node key L child R) :
    node.add key value z = (do
      let newSub ← child.add key value z
      return node.newTree (L ++ .tree newSub :: R)) := by
  rw [MstNode.add, ensureValidMstKey_of_valid hk, ok_bind, if_neg hz.ne, dif_pos hz]
  split
  · rename_i hb
    rw [hg.before] at hb
    cases hb
    simp only [updateEntry, hg.index_pred, hg.take_pred, hg.drop]
  · rename_i hb
    exact absurd hg.before (hb _)

/-- A subtree of a lower layer, grown by the key, between the leaves around it. -/
theorem added_child (hg : node.walkLeaves = entryLeaves L ++ child.walkLeaves ++
      entryLeaves R) (hL : EntriesOk D node.layer L) (hend : EndsInLeaf L)
    (hR : EntriesOk D node.layer R) (hstart : StartsWithLeaf R)
    (hbelow : ∀ e ∈ entryLeaves L, e.1 < key) (habove : ∀ e ∈ entryLeaves R, key < e.1)
    (hc : D.childOk node.layer child.layer) (hz : leadingZerosOnHash key < node.layer)
    {result : Except String MstNode} (ha : Added D child key value result) :
    Added D node key value (do
      let newSub ← result
      return node.newTree (L ++ .tree newSub :: R)) := by
  obtain ⟨newSub, rfl, hwf, hlayer, hleaves⟩ := ha
  have hne : newSub.entries ≠ [] := by
    rw [Ne, ← hwf.walkLeaves_eq_nil_iff, hleaves]
    simp [insertKey]
  refine ⟨_, rfl, (entriesOk_tree.2 ⟨⟨hL, hend⟩, ⟨?_, hne, hwf⟩, hR, hstart⟩).newTree, ?_, ?_⟩
  · rw [hlayer]
    exact D.childOk_max hc hz
  · rw [newTree, layer_mk, max_eq_left hz.le]
  · rw [hg, insertKey_append hbelow habove]
    simp [newTree, walkLeaves, entryLeaves, hleaves]

section Add

variable (hk : isValidMstKey key) (hv : isValidCid value)
include hk hv

/-- A leaf between leaves. -/
theorem added_spliceIn (h : WF D node) (hg : Gap node key L R)
    (habove : ∀ e ∈ entryLeaves R, key < e.1) (hz : leadingZerosOnHash key = node.layer) :
    Added D node key value
      (.ok (node.spliceIn (.leaf key value) (node.findGtOrEqualLeafIndex key))) := by
  have hok := h.entriesOk
  rw [hg.entries] at hok
  have hleaf : D.leafOk node.layer key := hz ▸ D.leafOk_zeros key
  refine ⟨_, rfl, ?_, by simp [spliceIn, newTree, hz], ?_⟩
  · rw [spliceIn, hg.take, hg.drop]
    exact (entriesOk_leaf.2 ⟨hok.left, ⟨hk, hv, hleaf⟩, hok.right⟩).newTree
  · rw [spliceIn, hg.take, hg.drop, hg.walkLeaves, insertKey_of_cut hg.below habove]
    simp [newTree, walkLeaves, entryLeaves]

/-- A leaf between the two sides of the subtree around it. -/
theorem added_replaceWithSplit (h : WF D node) (hs : Sorted node.walkLeaves)
    (hg : Inside node key L child R) (hnot : key ∉ keys node.walkLeaves)
    (hz : leadingZerosOnHash key = node.layer) :
    Added D node key value (.ok (node.replaceWithSplit (node.findGtOrEqualLeafIndex key - 1)
      (child.splitAround key).1 (.leaf key value) (child.splitAround key).2)) := by
  have hok := h.entriesOk
  rw [hg.entries, entriesOk_tree] at hok
  obtain ⟨⟨hL, hend⟩, hchild, hR, hstart⟩ := hok
  simp only [hg.walkLeaves, keys_append, List.mem_append, not_or] at hnot
  have habove := above_of_not_mem hg.above hnot.2
  obtain ⟨h₁, h₂⟩ := hchild.2.2.splitAround (hg.sorted_child hs) hnot.1.2
  have hleaf : D.leafOk node.layer key := hz ▸ D.leafOk_zeros key
  have hentries : (L ++ sideEntries (child.splitAround key).1 ++
      .leaf key value :: sideEntries (child.splitAround key).2 ++ R) =
      (L ++ sideEntries (child.splitAround key).1) ++
        .leaf key value :: (sideEntries (child.splitAround key).2 ++ R) := by
    simp
  refine ⟨_, rfl, ?_, by simp [replaceWithSplit, newTree, hz], ?_⟩
  · rw [replaceWithSplit, hg.index_pred, hg.take_pred, hg.drop, ← sideEntries, ← sideEntries, hentries]
    exact (entriesOk_leaf.2 ⟨hL.append (h₁.entriesOk hchild.1) (.inl hend), ⟨hk, hv, hleaf⟩,
      (h₂.entriesOk hchild.1).append hR (.inr hstart)⟩).newTree
  · rw [replaceWithSplit, hg.index_pred, hg.take_pred, hg.drop, ← sideEntries, ← sideEntries,
      hg.walkLeaves, insertKey_append hg.below habove]
    simp [newTree, walkLeaves, entryLeaves, h₁.entryLeaves, h₂.entryLeaves, insertKey]

/-- A key that belongs to the layer of the node. -/
theorem added_of_layer_eq (h : WF D node) (hs : Sorted node.walkLeaves)
    (hnot : key ∉ keys node.walkLeaves) (hz : leadingZerosOnHash key = node.layer) :
    Added D node key value (node.add key value (leadingZerosOnHash key)) := by
  rw [MstNode.add, ensureValidMstKey_of_valid hk, ok_bind, if_pos hz]
  have hnone := lookup_eq_none_iff.2 hnot
  rcases cut h hs key with ⟨L, R, hg⟩ | ⟨L, c, R, hg⟩
  · rw [hg.leafValue hs, hnone, if_neg (by simp)]
    rw [hg.walkLeaves, keys_append, List.mem_append, not_or] at hnot
    have hadd := added_spliceIn hk hv h hg (above_of_not_mem hg.above hnot.2) hz
    split
    · exact absurd ‹_› (hg.before _)
    · exact hadd
  · rw [hg.lookup, Option.or_eq_none_iff] at hnone
    rw [hg.leafValue hs, hnone.2, if_neg (by simp), hg.before]
    exact added_replaceWithSplit hk hv h hs hg hnot hz

omit hv in
/-- A key of a lower layer, where there is no subtree yet. -/
theorem added_of_gap (h : WF D node) (hg : Gap node key L R)
    (hnot : key ∉ keys (entryLeaves R)) (hz : leadingZerosOnHash key < node.layer)
    (hempty : ∀ child, WF D child → child.entries = [] → child.layer = node.layer - 1 →
      Added D child key value (child.add key value (leadingZerosOnHash key))) :
    Added D node key value (node.add key value (leadingZerosOnHash key)) := by
  have hnil : EntriesOk D (node.layer - 1) [] := .nil
  obtain ⟨child, hc, hwf, hshape, hlayer, _⟩ := hnil.create
  have hce : child.entries = [] := by
    rw [← List.length_eq_zero_iff, length_entries_eq_of_shape hshape]
    rfl
  have hok := h.entriesOk
  rw [hg.entries] at hok
  have hchild : D.childOk node.layer child.layer := by
    have := D.childOk_pred (node.layer - 1)
    rwa [Nat.sub_add_cancel (by omega), ← layer_mk (node.layer - 1) none [], ← hlayer] at this
  have hleaves : node.walkLeaves = entryLeaves L ++ child.walkLeaves ++ entryLeaves R := by
    rw [hg.walkLeaves, hwf.walkLeaves_eq_nil_iff.2 hce, List.append_nil]
  rw [add_of_lt_gap hk hz hg hc]
  exact added_child hleaves hok.left hg.endsInLeaf hok.right hg.startsWithLeaf hg.below
    (above_of_not_mem hg.above hnot) hchild hz (hempty child hwf hce hlayer)

/-- A key added to an empty node, through as many new subtrees as there are layers. -/
theorem added_empty (h : WF D node) (he : node.entries = [])
    (hz : leadingZerosOnHash key ≤ node.layer) :
    Added D node key value (node.add key value (leadingZerosOnHash key)) := by
  induction hl : node.layer - leadingZerosOnHash key generalizing node with
  | zero =>
    have hnil : node.walkLeaves = [] := h.walkLeaves_eq_nil_iff.2 he
    exact added_of_layer_eq hk hv h (by simp [hnil, Sorted]) (by simp [hnil]) (by omega)
  | succ n ih =>
    refine added_of_gap hk h (gap_of_entries_nil he) (by simp [entryLeaves]) (by omega) ?_
    exact fun child hwf hce hlayer => ih hwf hce (by omega) (by omega)

/-- A key of a higher layer: both sides of the cut come under a new root. -/
theorem added_of_gt (h : WF D node) (hs : Sorted node.walkLeaves)
    (hnot : key ∉ keys node.walkLeaves) (hz : node.layer < leadingZerosOnHash key) :
    Added D node key value (node.add key value (leadingZerosOnHash key)) := by
  obtain ⟨h₁, h₂⟩ := h.splitAround hs hnot
  have hlayer : node.layer + (leadingZerosOnHash key - node.layer - 1) + 1 =
      leadingZerosOnHash key := by omega
  have hchild := D.childOk_pred (node.layer + (leadingZerosOnHash key - node.layer - 1))
  rw [hlayer] at hchild
  obtain ⟨left, hleft, hl⟩ := h₁.mapM_createParents (leadingZerosOnHash key - node.layer - 1)
  obtain ⟨right, hright, hr⟩ := h₂.mapM_createParents (leadingZerosOnHash key - node.layer - 1)
  have hok : EntriesOk D (leadingZerosOnHash key)
      (sideEntries left ++ .leaf key value :: sideEntries right) :=
    entriesOk_leaf.2 ⟨hl.entriesOk hchild, ⟨hk, hv, D.leafOk_zeros key⟩, hr.entriesOk hchild⟩
  obtain ⟨root, hroot, hwf, hshape, hlr, _⟩ := hok.create
  refine ⟨root, ?_, hwf, by rw [hlr, layer_mk, max_eq_right hz.le], ?_⟩
  · rw [MstNode.add, ensureValidMstKey_of_valid hk, ok_bind, if_neg hz.ne', dif_neg (by omega)]
    simp only [hleft, hright, ok_bind]
    exact hroot
  · rw [walkLeaves_eq_of_shape hshape]
    simp [walkLeaves, entryLeaves, hl.entryLeaves, hr.entryLeaves, insertKey]

/-- `add` inserts a key that is not there. -/
theorem WF.add (h : WF D node) (hs : Sorted node.walkLeaves) (hnot : key ∉ keys node.walkLeaves) :
    Added D node key value (node.add key value (leadingZerosOnHash key)) := by
  induction node using MstNode.ind with | h layer pointer es ih => ?_
  rcases lt_trichotomy (leadingZerosOnHash key) layer with hz | hz | hz
  · rcases cut h hs key with ⟨L, R, hg⟩ | ⟨L, c, R, hg⟩
    · rw [hg.walkLeaves, keys_append, List.mem_append, not_or] at hnot
      refine added_of_gap hk h hg hnot.2 hz fun child hwf hce hlayer => ?_
      rw [layer_mk] at hlayer
      exact added_empty hk hv hwf hce (by omega)
    · have hmem : .tree c ∈ (MstNode.mk layer pointer es).entries := by simp [hg.entries]
      have hok := h.entriesOk
      rw [hg.entries, entriesOk_tree] at hok
      obtain ⟨⟨hL, hend⟩, hc, hR, hstart⟩ := hok
      simp only [hg.walkLeaves, keys_append, List.mem_append, not_or] at hnot
      rw [add_of_lt_inside hk hz hg]
      exact added_child hg.walkLeaves hL hend hR hstart hg.below
        (above_of_not_mem hg.above hnot.2) hc.1 hz (ih c hmem hc.2.2 (hg.sorted_child hs) hnot.1.2)
  · exact added_of_layer_eq hk hv h hs hnot hz
  · exact added_of_gt hk hv h hs hnot hz

end Add

/-! ## update -/

/-- `update` replaces the value of a key that is there. -/
theorem WF.update (h : WF D node) (hs : Sorted node.walkLeaves) (hv : isValidCid value)
    (hmem : key ∈ keys node.walkLeaves) :
    ∃ node', node.update key value = .ok node' ∧ WF D node' ∧ node'.layer = node.layer ∧
      node'.walkLeaves = insertKey key value node.walkLeaves := by
  induction node using MstNode.ind with | h layer pointer es ih => ?_
  have hok := h.entriesOk
  have hk := ensureValidMstKey_of_valid (h.valid_of_mem hmem)
  rcases search h hs hmem with ⟨L, v, R, hf⟩ | ⟨L, c, R, hg, hnone, hmem⟩
  · rw [hf.entries, entriesOk_leaf] at hok
    obtain ⟨hbelow, habove⟩ := hf.sorted hs
    refine ⟨(MstNode.mk layer pointer es).newTree (L ++ .leaf key value :: R), ?_,
      (entriesOk_leaf.2 ⟨hok.1, ⟨hok.2.1.1, hv, hok.2.1.2.2⟩, hok.2.2⟩).newTree, rfl, ?_⟩
    · rw [MstNode.update, hk, ok_bind]
      dsimp only
      rw [hf.leafValue, if_pos (by simp), updateEntry, hf.take, hf.drop]
      rfl
    · rw [hf.walkLeaves, insertKey_of_mem hbelow habove]
      simp [newTree, walkLeaves, entryLeaves]
  · have hchild : .tree c ∈ (MstNode.mk layer pointer es).entries := by simp [hg.entries]
    rw [hg.entries, entriesOk_tree] at hok
    obtain ⟨⟨hL, hend⟩, hc, hR, hstart⟩ := hok
    obtain ⟨c', hup, hwf, hlayer, hleaves⟩ := ih c hchild hc.2.2 (hg.sorted_child hs) hmem
    have hne : c'.entries ≠ [] := by
      rw [Ne, ← hwf.walkLeaves_eq_nil_iff, hleaves]
      simp [insertKey]
    refine ⟨(MstNode.mk layer pointer es).newTree (L ++ .tree c' :: R), ?_,
      (entriesOk_tree.2 ⟨⟨hL, hend⟩, ⟨hlayer ▸ hc.1, hne, hwf⟩, hR, hstart⟩).newTree, rfl, ?_⟩
    · rw [MstNode.update, hk, ok_bind]
      dsimp only
      rw [hnone, if_neg (by simp)]
      split
      · rename_i hb
        rw [hg.before] at hb
        cases hb
        rw [hup, ok_bind, updateEntry, hg.take_pred, hg.index_pred, hg.drop]
        rfl
      · rename_i hb
        exact absurd hg.before (hb _)
    · rw [hg.walkLeaves, insertKey_append hg.below (hg.above_of_mem hs hmem)]
      simp [newTree, walkLeaves, entryLeaves, hleaves]

end ComputeContract
