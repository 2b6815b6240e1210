import ComputeContract.Mst.Live

/-!
# Dependence on the history

Two instances in memory with the same map have the same root when their roots are at
the same layer (`Holds.root_eq_iff`). A tree that is only inserted into is at the
layer of its highest key, whatever the order; one that was emptied on the way may be
higher, and its root then says so.

* `history_independent_iff`: when the root is a function of the map alone.
-/

namespace ComputeContract

open MstNode AssocList

/-- No two blocks have the same CID. -/
def CollisionFree (bs : List (Cid × Bytes)) : Prop :=
  ∀ b ∈ bs, ∀ b' ∈ bs, b.1 = b'.1 → b.2 = b'.2

instance (bs : List (Cid × Bytes)) : Decidable (CollisionFree bs) :=
  inferInstanceAs (Decidable (∀ b ∈ bs, ∀ b' ∈ bs, b.1 = b'.1 → b.2 = b'.2))

/-- The blocks of the tree in memory. -/
def Mst.blocks (mst : Mst) : List (Cid × Bytes) := (mst.tree.map MstNode.blocks).getD []

def Instance.blocks (s : Instance) : List (Cid × Bytes) := s.mst.blocks

/-- The blocks of the tree of a fresh instance after operations. -/
def Instance.liveBlocks (store : BlockStore) (ops : List Op) : List (Cid × Bytes) :=
  match live store ops with
  | .ok s => s.blocks
  | .error _ => []

/-- The map after operations. -/
def mapAfter (ops : List Op) : List (Key × Cid) := (ops.foldl Op.step ([], 0)).1

/-- The layer of the root after operations in memory. -/
def layerAfter (ops : List Op) : ℕ := (ops.foldl Op.step ([], 0)).2

/-- A fresh instance after operations holds their map. -/
theorem live_holds (store : BlockStore) (ops : List Op) :
    ∃ s tree, Instance.live store ops = .ok s ∧ Holds strict none s.mst tree (mapAfter ops) ∧
      tree.layer = layerAfter ops := by
  obtain ⟨s, tree, hinit, _, h, hlayer⟩ := init_none store
  obtain ⟨tree', h', hlayer'⟩ := h.run ops
  rw [hlayer] at h' hlayer'
  exact ⟨s.run ops, tree', by rw [Instance.live, hinit]; rfl, h', hlayer'⟩

/-! ## Insertions only -/

/-- Insert entries, one after the other. -/
def insertOps (entries : List (MstKey × ValidCid)) : List Op := entries.map fun e => .set e.1 e.2

theorem topLayer_insertKey (key : Key) (value : Cid) (m : List (Key × Cid)) :
    topLayer (insertKey key value m) = max (topLayer m) (leadingZerosOnHash key) := by
  refine le_antisymm (topLayer_le fun k hk => ?_) (max_le (topLayer_le fun k hk => ?_) ?_)
  · rcases mem_keys_insertKey.1 hk with rfl | hk
    · exact le_max_right _ _
    · exact (le_topLayer hk).trans (le_max_left _ _)
  · exact le_topLayer (mem_keys_insertKey.2 (.inr hk))
  · exact le_topLayer (mem_keys_insertKey.2 (.inl rfl))

/-- A tree that is only inserted into stays at the layer of its highest key. -/
theorem layerAfter_insertOps (entries : List (MstKey × ValidCid)) {m : List (Key × Cid)} :
    ((insertOps entries).foldl Op.step (m, topLayer m)).2 =
      topLayer ((insertOps entries).foldl Op.step (m, topLayer m)).1 := by
  induction entries generalizing m with
  | nil => rfl
  | cons e entries ih =>
    have hstep : Op.step (m, topLayer m) (.set e.1 e.2) =
        (insertKey e.1.1 e.2.1 m, topLayer (insertKey e.1.1 e.2.1 m)) := by
      rw [Op.step, Op.applyTo, Op.layerAfter, topLayer_insertKey]
      split_ifs with hk
      · rw [max_eq_left (le_topLayer hk)]
      · rfl
    rw [insertOps, List.map_cons, List.foldl_cons, hstep]
    exact ih

/-- Inserting new keys in any order gives their entries. -/
theorem mapAfter_insertOps {entries : List (MstKey × ValidCid)} {m : List (Key × Cid)} (layer : ℕ)
    (h : (keys (entries.map (fun e => (e.1.1, e.2.1)) ++ m)).Nodup) :
    ((insertOps entries).foldl Op.step (m, layer)).1.Perm
      (entries.map (fun e => (e.1.1, e.2.1)) ++ m) := by
  induction entries generalizing m layer with
  | nil => rfl
  | cons e entries ih =>
    have hnew : e.1.1 ∉ keys m := by
      rw [List.map_cons, List.cons_append, keys_cons, List.nodup_cons, keys_append,
        List.mem_append, not_or] at h
      exact h.1.2
    have hperm := insertKey_perm (v := e.2.1) hnew
    have hmid : (entries.map (fun e => (e.1.1, e.2.1)) ++ insertKey e.1.1 e.2.1 m).Perm
        ((e :: entries).map (fun e => (e.1.1, e.2.1)) ++ m) :=
      (hperm.append_left _).trans List.perm_middle
    exact (ih _ ((hmid.map Prod.fst).nodup_iff.2 h)).trans hmid

/-! ## Roots -/

/-- The header of an array tells whether it has items. -/
theorem eq_zero_of_writeHeader {n : ℕ} {rest rest' : Bytes}
    (h : Cbor.writeHeader Cbor.MAJOR_ARRAY n ++ rest =
      Cbor.writeHeader Cbor.MAJOR_ARRAY 0 ++ rest') : n = 0 := by
  have hhead := congrArg List.head? h
  rw [show Cbor.writeHeader Cbor.MAJOR_ARRAY 0 = [128] from rfl, List.cons_append,
    List.head?_cons, Cbor.writeHeader] at hhead
  split at hhead
  · have hbyte : (4 * 32 + n) % 256 = 128 :=
      congrArg UInt8.toNat (Option.some.inj hhead)
    omega
  · have hbyte : ∀ ai ∈ [Cbor.AI_1BYTE, Cbor.AI_2BYTE, Cbor.AI_4BYTE, Cbor.AI_8BYTE],
        (Cbor.MAJOR_ARRAY * 32 + ai).toUInt8 ≠ 128 := by decide
    split_ifs at hhead <;> exact absurd (Option.some.inj hhead) (hbyte _ (by decide))

/-- Nodes with the same block both have leaves of their own, or none. -/
theorem ownLeaves_eq_nil_of_block_eq {node node' : MstNode} {D : Discipline} (h : WF D node)
    (h' : WF D node') (hb : node.block = node'.block) (hnil : ownLeaves node'.entries = []) :
    ownLeaves node.entries = [] := by
  obtain ⟨_, _, es⟩ := node
  obtain ⟨_, _, es'⟩ := node'
  obtain ⟨_, _, _, _, _, rest, hblock⟩ := h.entriesOk.blockOf_eq
  obtain ⟨_, _, _, _, _, rest', hblock'⟩ := h'.entriesOk.blockOf_eq
  rw [block, block] at hb
  simp only [entries_mk] at hblock hblock' hnil ⊢
  rw [hblock, hblock', hnil] at hb
  simp only [List.append_assoc, List.append_cancel_left_eq] at hb
  exact List.length_eq_zero_iff.1 (eq_zero_of_writeHeader hb)

theorem root_mem_blocks (node : MstNode) : (node.cid, node.block) ∈ node.blocks := by
  obtain ⟨layer, pointer, es⟩ := node
  rw [blocks]
  exact List.mem_cons_self

/-- Two instances that hold the same map, one of them at the layer of its highest key:
    the roots are equal when the other is there too. -/
theorem Holds.root_eq {mst mst' : Mst} {tree tree' : MstNode} {m : List (Key × Cid)}
    (h : Holds strict none mst tree m) (h' : Holds strict none mst' tree' m)
    (hl : m = [] ∨ tree.layer = tree'.layer) : mst.root = mst'.root := by
  by_cases hm : m = []
  · rw [(h.root_nil hm).elim id id, (h'.root_nil hm).elim id id]
  · rw [h.root hm, h'.root hm]
    exact congrArg some (cid_eq_of_shape (shape_eq_of_strict h.wf h'.wf (hl.resolve_left hm)
      (h.leaves.trans h'.leaves.symm)))

/-- Without a collision, the root tells whether a tree is higher than its highest key. -/
theorem Holds.layer_of_root_eq {mst mst' : Mst} {tree tree' : MstNode} {m : List (Key × Cid)}
    (h : Holds strict none mst tree m) (h' : Holds strict none mst' tree' m) (htop : tree'.layer = topLayer m)
    (hfree : CollisionFree (tree.blocks ++ tree'.blocks)) (hroot : mst.root = mst'.root) :
    m = [] ∨ tree.layer = topLayer m := by
  by_cases hm : m = []
  · exact .inl hm
  · rw [h.root hm, h'.root hm] at hroot
    have hblock : tree.block = tree'.block :=
      hfree _ (List.mem_append_left _ (root_mem_blocks tree)) _
        (List.mem_append_right _ (root_mem_blocks tree')) (Option.some.inj hroot)
    -- The root with the highest key has a leaf of its own, and so has the other.
    obtain ⟨key, hk, hz⟩ := exists_topLayer hm
    obtain ⟨v, hv⟩ := mem_keys.1 hk
    have hown' := mem_ownLeaves_of_layer h'.wf (h'.leaves.symm ▸ hv) (hz.trans htop.symm)
    have hown : ownLeaves tree.entries ≠ [] := fun he =>
      List.ne_nil_of_mem hown' (ownLeaves_eq_nil_of_block_eq h'.wf h.wf hblock.symm he)
    exact .inr (by rw [layer_eq_topLayer h.wf hown, h.leaves])

/-- When the root is a function of the map: a fresh instance into which only the entries
    of the map are inserted, in any order, has the same root exactly when the map is
    empty or the tree is no higher than its highest key. -/
theorem history_independent_iff (store store' : BlockStore) (ops : List Op)
    (entries : List (MstKey × ValidCid))
    (hentries : (entries.map fun e => (e.1.1, e.2.1)).Perm (mapAfter ops))
    (hfree : CollisionFree
      (Instance.liveBlocks store ops ++ Instance.liveBlocks store' (insertOps entries))) :
    ∃ s s', Instance.live store ops = .ok s ∧
      Instance.live store' (insertOps entries) = .ok s' ∧
      (s.mst.root = s'.mst.root ↔
        mapAfter ops = [] ∨ layerAfter ops = topLayer (mapAfter ops)) := by
  obtain ⟨s, tree, hlive, h, hlayer⟩ := live_holds store ops
  obtain ⟨s', tree', hlive', h', hlayer'⟩ := live_holds store' (insertOps entries)
  have hmap : mapAfter (insertOps entries) = mapAfter ops := by
    have hnodup : (keys (entries.map fun e => (e.1.1, e.2.1))).Nodup :=
      (hentries.map Prod.fst).nodup_iff.2 h.sorted.nodup
    have hperm := mapAfter_insertOps 0 (m := []) (by rwa [List.append_nil])
    rw [List.append_nil] at hperm
    exact h'.sorted.eq_of_perm h.sorted (hperm.trans hentries)
  have htop : layerAfter (insertOps entries) = topLayer (mapAfter (insertOps entries)) :=
    layerAfter_insertOps entries (m := [])
  rw [hmap] at h' htop
  refine ⟨s, s', hlive, hlive', ?_⟩
  rw [← hlayer]
  have hblocks : CollisionFree (tree.blocks ++ tree'.blocks) := by
    simpa [Instance.liveBlocks, hlive, hlive', Instance.blocks, Mst.blocks, h.tree_eq,
      h'.tree_eq] using hfree
  refine ⟨h.layer_of_root_eq h' (hlayer'.trans htop) hblocks, fun hl => h.root_eq h' ?_⟩
  exact hl.imp_right fun hl => hl.trans (hlayer'.trans htop).symm

/-- A key of layer 1. -/
def upperKey : MstKey := ⟨⟨"a/3"⟩, by decide⟩

/-- A key of layer 0. -/
def lowerKey : MstKey := ⟨⟨"a/0"⟩, by decide⟩

def sampleCid : ValidCid := ⟨⟨0x01 :: 0x71 :: 0x12 :: 0x20 :: List.replicate 32 0⟩, by decide⟩

theorem history_independent_iff_lowerKey :
    ∃ s s', Instance.live [] [.set lowerKey sampleCid] = .ok s ∧
      Instance.live [] (insertOps [(lowerKey, sampleCid)]) = .ok s' ∧
      (s.mst.root = s'.mst.root ↔ mapAfter [.set lowerKey sampleCid] = [] ∨
        layerAfter [.set lowerKey sampleCid] = topLayer (mapAfter [.set lowerKey sampleCid])) :=
  history_independent_iff [] [] [.set lowerKey sampleCid] [(lowerKey, sampleCid)]
    (by decide +kernel) (by decide +kernel)

/-- A tree that was emptied stays at the layer of the key that was there. -/
theorem history_dependent : ¬ ∀ (store store' : BlockStore) (ops : List Op)
    (entries : List (MstKey × ValidCid)),
    (entries.map fun e => (e.1.1, e.2.1)).Perm (mapAfter ops) →
      ∃ s s', Instance.live store ops = .ok s ∧
        Instance.live store' (insertOps entries) = .ok s' ∧ s.mst.root = s'.mst.root := by
  intro h
  obtain ⟨s, s', hs, hs', hroot⟩ := h [] []
    [.set upperKey sampleCid, .delete upperKey, .set lowerKey sampleCid] [(lowerKey, sampleCid)]
    (by decide +kernel)
  have hne : (Instance.live [] [.set upperKey sampleCid, .delete upperKey,
      .set lowerKey sampleCid]).toOption.map (·.mst.root) ≠
    (Instance.live [] (insertOps [(lowerKey, sampleCid)])).toOption.map (·.mst.root) := by
    decide +kernel
  rw [hs, hs'] at hne
  exact hne (congrArg some hroot)

end ComputeContract
