import ComputeContract.Mst.Insert

/-!
# Deleting

The leaf that goes leaves two neighbours behind, which are joined when both are
subtrees. `appendMerge` refuses two nodes of different layers, all along the seam
between them (`seamsAgree`); when it does not, `deleteRecurse` erases the key and
keeps the layer (`WF.deleteRecurse`). In a tree that obeys `strict`, neighbours
always agree (`seamsAgree_of_strict`).
-/

namespace ComputeContract

open MstNode AssocList

namespace MstNode

/-- The layers of two neighbours agree, and so do those below along the seam. -/
def seamsAgree (node toMerge : MstNode) : Bool :=
  node.layer == toMerge.layer &&
    match h : node.entries.getLast?, toMerge.entries.head? with
    | some (.tree lastInLeft), some (.tree firstInRight) =>
      have : sizeOf lastInLeft < sizeOf node := sizeOf_lt_of_mem (List.mem_of_getLast? h)
      lastInLeft.seamsAgree firstInRight
    | _, _ => true
termination_by sizeOf node

/-- The subtrees on both sides of the leaf with the key, where both are subtrees. -/
def subtreesAround (node : MstNode) (key : Key) : Option (MstNode × MstNode) :=
  let index := node.findGtOrEqualLeafIndex key
  if (leafValue (node.atIndex index) key).isSome then
    match node.before index, node.atIndex (index + 1) with
    | some (.tree prev), some (.tree next) => some (prev, next)
    | _, _ => none
  else
    match h : node.before index with
    | some (.tree prev) =>
      have := sizeOf_lt_of_mem (mem_of_before h)
      prev.subtreesAround key
    | _ => none
termination_by sizeOf node

/-- The subtrees around the key can be joined. -/
def canDelete (node : MstNode) (key : Key) : Bool :=
  (node.subtreesAround key).all fun p => p.1.seamsAgree p.2

end MstNode

variable {D : Discipline} {node toMerge left right : MstNode} {key : Key} {L R : List NodeEntry}

/-! ## appendMerge -/

/-- Two nodes meet in two subtrees, or a leaf stands between them. -/
theorem meet_cases (node toMerge : MstNode) :
    (∃ L l r R, node.entries = L ++ [.tree l] ∧ toMerge.entries = .tree r :: R) ∨
      EndsInLeaf node.entries ∨ StartsWithLeaf toMerge.entries := by
  rcases hL : node.entries.eq_nil_or_concat with he | ⟨L, e, he⟩
  · exact .inr (.inl (by simp [EndsInLeaf, he]))
  · rw [List.concat_eq_append] at he
    rcases e with ⟨k, v⟩ | l
    · exact .inr (.inl (by rw [he]; exact endsInLeaf_concat))
    · rcases hR : toMerge.entries with _ | ⟨⟨k, v⟩ | r, R⟩
      · exact .inr (.inr (by simp [StartsWithLeaf]))
      · exact .inr (.inr startsWithLeaf_cons)
      · exact .inl ⟨L, l, r, R, he, rfl⟩

theorem seamsAgree_tree (h₁ : node.entries = L ++ [.tree left])
    (h₂ : toMerge.entries = .tree right :: R) :
    node.seamsAgree toMerge ↔ node.layer = toMerge.layer ∧ left.seamsAgree right := by
  have hl : node.entries.getLast? = some (.tree left) := by rw [h₁, List.getLast?_concat]
  have hr : toMerge.entries.head? = some (.tree right) := by rw [h₂, List.head?_cons]
  rw [seamsAgree, Bool.and_eq_true, beq_iff_eq]
  refine and_congr_right fun _ => ?_
  split
  · rename_i hl' hr'
    rw [hl] at hl'
    rw [hr] at hr'
    cases hl'
    cases hr'
    rfl
  · rename_i hne
    exact absurd hr (hne left right hl)

theorem appendMerge_tree (h₁ : node.entries = L ++ [.tree left])
    (h₂ : toMerge.entries = .tree right :: R) (h : node.layer = toMerge.layer) :
    node.appendMerge toMerge = (do
      let merged ← left.appendMerge right
      return node.newTree (L ++ .tree merged :: R)) := by
  have hl : node.entries.getLast? = some (.tree left) := by rw [h₁, List.getLast?_concat]
  have hr : toMerge.entries.head? = some (.tree right) := by rw [h₂, List.head?_cons]
  rw [appendMerge, if_neg (by simpa using h)]
  split
  · rename_i hl' hr'
    rw [hl] at hl'
    rw [hr] at hr'
    cases hl'
    cases hr'
    simp only [h₁, h₂, List.dropLast_concat, List.tail_cons]
  · rename_i hne
    exact absurd hr (hne left right hl)

theorem appendMerge_leaf (hleaf : EndsInLeaf node.entries ∨ StartsWithLeaf toMerge.entries)
    (h : node.layer = toMerge.layer) :
    node.appendMerge toMerge = .ok (node.newTree (node.entries ++ toMerge.entries)) := by
  rw [appendMerge, if_neg (by simpa using h)]
  split
  · rename_i hl hr
    exact hleaf.elim (fun h => absurd rfl (h _ hl)) fun h => absurd rfl (h _ hr)
  · rfl

theorem layer_eq_of_seamsAgree (h : node.seamsAgree toMerge) : node.layer = toMerge.layer := by
  rw [seamsAgree, Bool.and_eq_true, beq_iff_eq] at h
  exact h.1

/-- Two well-formed neighbours that agree are joined. -/
theorem WF.appendMerge (h : WF D node) (h' : WF D toMerge) (hseam : node.seamsAgree toMerge) :
    ∃ merged, node.appendMerge toMerge = .ok merged ∧ WF D merged ∧ merged.layer = node.layer ∧
      merged.walkLeaves = node.walkLeaves ++ toMerge.walkLeaves := by
  induction node using MstNode.ind generalizing toMerge with | h layer pointer es ih => ?_
  have hlayer := layer_eq_of_seamsAgree hseam
  have hok := h.entriesOk
  have hok' := h'.entriesOk
  rw [← hlayer] at hok'
  rcases meet_cases (.mk layer pointer es) toMerge with ⟨L, l, r, R, h₁, h₂⟩ | hleaf
  · rw [seamsAgree_tree h₁ h₂] at hseam
    rw [h₁, entriesOk_tree] at hok
    rw [h₂, ← List.nil_append (_ :: _), entriesOk_tree] at hok'
    obtain ⟨⟨hL, hend⟩, hl, _⟩ := hok
    obtain ⟨_, hr, hR, hstart⟩ := hok'
    have hmem : .tree l ∈ (MstNode.mk layer pointer es).entries := by simp [h₁]
    obtain ⟨merged, hm, hwf, hml, hleaves⟩ := ih l hmem hl.2.2 hr.2.2 hseam.2
    have hne : merged.entries ≠ [] := by
      have := hl.2.2.walkLeaves_ne_nil hl.2.1
      rw [Ne, ← hwf.walkLeaves_eq_nil_iff, hleaves]
      simp [this]
    refine ⟨_, by rw [appendMerge_tree h₁ h₂ hlayer, hm]; rfl,
      (entriesOk_tree.2 ⟨⟨hL, hend⟩, ⟨hml ▸ hl.1, hne, hwf⟩, hR, hstart⟩).newTree, rfl, ?_⟩
    rw [walkLeaves_eq (.mk layer pointer es), walkLeaves_eq toMerge, h₁, h₂]
    simp [newTree, walkLeaves, entryLeaves, hleaves]
  · refine ⟨_, appendMerge_leaf hleaf hlayer, (hok.append hok' hleaf).newTree, rfl, ?_⟩
    rw [walkLeaves_eq (.mk layer pointer es), walkLeaves_eq toMerge, newTree, walkLeaves,
      entryLeaves_append]

/-- Layers that follow the keys agree everywhere once they agree at the top. -/
theorem seamsAgree_of_strict (h : WF strict node) (h' : WF strict toMerge)
    (hlayer : node.layer = toMerge.layer) : node.seamsAgree toMerge := by
  induction node using MstNode.ind generalizing toMerge with | h layer pointer es ih => ?_
  rcases meet_cases (.mk layer pointer es) toMerge with ⟨L, l, r, R, h₁, h₂⟩ | hleaf
  · have hok := h.entriesOk
    have hok' := h'.entriesOk
    rw [h₁, entriesOk_tree] at hok
    rw [h₂, ← List.nil_append (_ :: _), entriesOk_tree] at hok'
    have hl : l.layer + 1 = layer := hok.2.1.1
    have hr : r.layer + 1 = toMerge.layer := hok'.2.1.1
    rw [layer_mk] at hlayer
    have hmem : .tree l ∈ (MstNode.mk layer pointer es).entries := by simp [h₁]
    exact (seamsAgree_tree h₁ h₂).2
      ⟨hlayer, ih l hmem hok.2.1.2.2 hok'.2.1.2.2 (by omega)⟩
  · rw [seamsAgree, Bool.and_eq_true, beq_iff_eq]
    refine ⟨hlayer, ?_⟩
    split
    · rename_i hl hr
      exact hleaf.elim (fun h => absurd rfl (h _ hl)) fun h => absurd rfl (h _ hr)
    · rfl

/-! ## deleteRecurse -/

theorem subtreesAround_found {value : Cid} (hf : Found node key L value R) :
    node.subtreesAround key = match L.getLast?, R.head? with
      | some (.tree prev), some (.tree next) => some (prev, next)
      | _, _ => none := by
  rw [subtreesAround]
  dsimp only
  rw [hf.leafValue, if_pos (by simp), hf.before, hf.atIndex_succ]

theorem subtreesAround_inside {child : MstNode} (hg : Inside node key L child R)
    (hnone : leafValue (node.atIndex (node.findGtOrEqualLeafIndex key)) key = none) :
    node.subtreesAround key = child.subtreesAround key := by
  rw [subtreesAround]
  dsimp only
  rw [hnone, if_neg (by simp)]
  split
  · rename_i hb
    rw [hg.before] at hb
    cases hb
    rfl
  · rename_i hb
    exact absurd hg.before (hb _)

/-- Where the subtrees around a leaf are joined. -/
theorem deleteRecurse_tree {value : Cid} (hf : Found node key (L ++ [.tree left]) value
    (.tree right :: R)) :
    node.deleteRecurse key = (do
      let merged ← left.appendMerge right
      return node.newTree (L ++ .tree merged :: R)) := by
  have htake : node.entries.take (node.findGtOrEqualLeafIndex key - 1) = L := by
    rw [hf.index, hf.entries]
    simp
  have hdrop : node.entries.drop (node.findGtOrEqualLeafIndex key + 2) = R := by
    rw [show node.findGtOrEqualLeafIndex key + 2 = node.findGtOrEqualLeafIndex key + 1 + 1 by rfl,
      ← List.drop_drop, hf.drop]
    rfl
  rw [deleteRecurse]
  dsimp only
  rw [hf.leafValue, if_pos (by simp), hf.before, hf.atIndex_succ, List.getLast?_concat, htake, hdrop]
  rfl

/-- Where a leaf is left on one side. -/
theorem deleteRecurse_leaf {value : Cid} (hf : Found node key L value R)
    (hleaf : EndsInLeaf L ∨ StartsWithLeaf R) :
    node.deleteRecurse key = .ok (node.newTree (L ++ R)) := by
  rw [deleteRecurse]
  dsimp only
  rw [hf.leafValue, if_pos (by simp), hf.before, hf.atIndex_succ, removeEntry, hf.take, hf.drop]
  split
  · rename_i hl hr
    exact hleaf.elim (fun h => absurd rfl (h _ hl)) fun h => absurd rfl (h _ hr)
  · rfl

theorem deleteRecurse_inside {child : MstNode} (hg : Inside node key L child R)
    (hnone : leafValue (node.atIndex (node.findGtOrEqualLeafIndex key)) key = none) :
    node.deleteRecurse key = (do
      let sub ← child.deleteRecurse key
      return node.newTree (L ++ (if sub.entries.length = 0 then [] else [.tree sub]) ++ R)) := by
  have hremove : node.removeEntry (node.findGtOrEqualLeafIndex key - 1) = node.newTree (L ++ R) := by
    rw [removeEntry, hg.take_pred, hg.index_pred, hg.drop]
  have hupdate (sub : MstNode) : node.updateEntry (node.findGtOrEqualLeafIndex key - 1) (.tree sub) =
      node.newTree (L ++ .tree sub :: R) := by
    rw [updateEntry, hg.take_pred, hg.index_pred, hg.drop]
  rw [deleteRecurse]
  dsimp only
  rw [hnone, if_neg (by simp)]
  split
  · rename_i hb
    rw [hg.before] at hb
    cases hb
    rw [hremove]
    simp only [hupdate]
    congr 1
    funext sub
    split_ifs <;> simp
  · rename_i hb
    exact absurd hg.before (hb _)

/-- A key that is there, and whose neighbours can be joined, is erased. -/
theorem WF.deleteRecurse (h : WF D node) (hs : Sorted node.walkLeaves)
    (hmem : key ∈ keys node.walkLeaves) (hcan : node.canDelete key) :
    ∃ node', node.deleteRecurse key = .ok node' ∧ WF D node' ∧ node'.layer = node.layer ∧
      node'.walkLeaves = erase key node.walkLeaves := by
  induction node using MstNode.ind with | h layer pointer es ih => ?_
  have hok := h.entriesOk
  rcases search h hs hmem with ⟨L, v, R, hf⟩ | ⟨L, c, R, hg, hnone, hmem⟩
  · obtain ⟨hbelow, habove⟩ := hf.sorted hs
    have herase : erase key (MstNode.mk layer pointer es).walkLeaves =
        entryLeaves L ++ entryLeaves R := by
      rw [hf.walkLeaves, ← List.singleton_append, ← List.append_assoc, erase_append hbelow habove]
      simp [erase]
    rw [hf.entries, entriesOk_leaf] at hok
    rw [canDelete, subtreesAround_found hf] at hcan
    rcases meet_cases (.mk 0 none L) (.mk 0 none R) with ⟨L, l, r, R, h₁, h₂⟩ | hleaf
    · simp only [entries_mk] at h₁ h₂
      subst h₁ h₂
      simp only [List.getLast?_concat, List.head?_cons, Option.all_some] at hcan
      rw [entriesOk_tree, ← List.nil_append (_ :: _), entriesOk_tree] at hok
      obtain ⟨⟨⟨hL, hend⟩, hl, _⟩, _, _, hr, hR, hstart⟩ := hok
      obtain ⟨merged, hm, hwf, hml, hleaves⟩ := hl.2.2.appendMerge hr.2.2 hcan
      have hne : merged.entries ≠ [] := by
        have := hl.2.2.walkLeaves_ne_nil hl.2.1
        rw [Ne, ← hwf.walkLeaves_eq_nil_iff, hleaves]
        simp [this]
      refine ⟨_, by rw [deleteRecurse_tree hf, hm]; rfl,
        (entriesOk_tree.2 ⟨⟨hL, hend⟩, ⟨hml ▸ hl.1, hne, hwf⟩, hR, hstart⟩).newTree, rfl, ?_⟩
      rw [herase]
      simp [newTree, walkLeaves, entryLeaves, hleaves]
    · refine ⟨_, deleteRecurse_leaf hf hleaf, (hok.1.append hok.2.2 hleaf).newTree, rfl, ?_⟩
      rw [herase]
      simp [newTree, walkLeaves]
  · have hchild : .tree c ∈ (MstNode.mk layer pointer es).entries := by simp [hg.entries]
    rw [hg.entries, entriesOk_tree] at hok
    obtain ⟨⟨hL, hend⟩, hc, hR, hstart⟩ := hok
    rw [canDelete, subtreesAround_inside hg hnone] at hcan
    obtain ⟨sub, hsub, hwf, hlayer, hleaves⟩ := ih c hchild hc.2.2 (hg.sorted_child hs) hmem hcan
    have herase : erase key (MstNode.mk layer pointer es).walkLeaves =
        entryLeaves L ++ sub.walkLeaves ++ entryLeaves R := by
      rw [hg.walkLeaves, erase_append hg.below (hg.above_of_mem hs hmem), hleaves]
    refine ⟨(MstNode.mk layer pointer es).newTree
      (L ++ (if sub.entries.length = 0 then [] else [.tree sub]) ++ R),
      by rw [deleteRecurse_inside hg hnone, hsub]; rfl, EntriesOk.newTree ?_, rfl, ?_⟩
    · split_ifs with hempty
      · rw [List.append_nil]
        exact hL.append hR (.inl hend)
      · rw [List.append_assoc]
        exact entriesOk_tree.2 ⟨⟨hL, hend⟩, ⟨hlayer ▸ hc.1, fun he => hempty (by rw [he]; rfl), hwf⟩,
          hR, hstart⟩
    · rw [herase]
      split_ifs with hempty
      · have : sub.walkLeaves = [] :=
          hwf.walkLeaves_eq_nil_iff.2 (List.length_eq_zero_iff.1 hempty)
        simp [newTree, walkLeaves, this]
      · simp [newTree, walkLeaves, entryLeaves]

/-! ## trimTop and delete -/

/-- Trimming the top keeps the leaves, and comes down to a node with a leaf of its own,
    if the tree has leaves. -/
theorem WF.trimTop (h : WF D node) :
    WF D node.trimTop ∧ node.trimTop.walkLeaves = node.walkLeaves ∧
      (node.entries = [] → node.trimTop = node) ∧
      (node.entries ≠ [] → ownLeaves node.trimTop.entries ≠ []) := by
  induction node using MstNode.ind with | h layer pointer es ih => ?_
  have hself (hown : es ≠ [] → ownLeaves es ≠ []) (htrim : (MstNode.mk layer pointer es).trimTop =
      .mk layer pointer es) : WF D (MstNode.mk layer pointer es).trimTop ∧
        (MstNode.mk layer pointer es).trimTop.walkLeaves = (MstNode.mk layer pointer es).walkLeaves ∧
        (es = [] → (MstNode.mk layer pointer es).trimTop = .mk layer pointer es) ∧
        (es ≠ [] → ownLeaves (MstNode.mk layer pointer es).trimTop.entries ≠ []) := by
    rw [htrim]
    exact ⟨h, rfl, fun _ => rfl, hown⟩
  match es with
  | [] => exact hself (by simp) rfl
  | .leaf k v :: es => exact hself (by simp [ownLeaves]) (by simp [MstNode.trimTop])
  | [.tree n] =>
    obtain ⟨_, hne, hn⟩ := h.entriesOk.child n List.mem_cons_self
    obtain ⟨hwf, hleaves, _, hown⟩ := ih n List.mem_cons_self hn
    rw [MstNode.trimTop]
    exact ⟨hwf, by simp [hleaves, walkLeaves, entryLeaves], by simp, fun _ => hown hne⟩
  | .tree n :: .leaf k v :: es => exact hself (by simp [ownLeaves]) (by simp [MstNode.trimTop])
  | .tree n :: .tree n' :: es =>
    exact absurd rfl ((alternating_cons.1 h.entriesOk.alternating).1 rfl (.tree n') rfl)

/-- `delete` erases a key whose neighbours can be joined. -/
theorem WF.delete (h : WF D node) (hs : Sorted node.walkLeaves)
    (hmem : key ∈ keys node.walkLeaves) (hcan : node.canDelete key) :
    ∃ node', node.delete key = .ok node' ∧ WF D node' ∧
      node'.walkLeaves = erase key node.walkLeaves ∧
      (node'.entries = [] → node'.layer = node.layer) ∧
      (node'.entries ≠ [] → ownLeaves node'.entries ≠ []) := by
  obtain ⟨altered, ha, hwf, hlayer, hleaves⟩ := h.deleteRecurse hs hmem hcan
  obtain ⟨hwf', hleaves', hempty, hown⟩ := hwf.trimTop
  have hiff : altered.trimTop.entries = [] ↔ altered.entries = [] := by
    rw [← hwf'.walkLeaves_eq_nil_iff, hleaves', hwf.walkLeaves_eq_nil_iff]
  refine ⟨altered.trimTop, by rw [MstNode.delete, ha]; rfl, hwf', hleaves'.trans hleaves, ?_, ?_⟩
  · intro he
    rw [hempty (hiff.1 he), hlayer]
  · exact fun hne => hown (hiff.not.1 hne)

end ComputeContract
