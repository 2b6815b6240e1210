import ComputeContract.Mst.Delete

/-!
# Runs of an instance

An instance of `Mst` over its store takes one `set` or `delete` after the other. As
long as the tree is well formed and the cache holds its leaves (`Holds`), an
operation on a valid key does to them what it does to a sorted map, and leaves the
blocks of its tree in the store.

* `Holds.set` and `Holds.delete` are the steps, in either discipline of layers;
* a `delete` in a `loose` tree needs neighbours that can be joined (`canDelete`).
-/

namespace ComputeContract

open MstNode AssocList

/-- A key the tree accepts. -/
abbrev MstKey := {key : Key // isValidMstKey key}

abbrev ValidCid := {cid : Cid // isValidCid cid}

/-- An operation on an instance. -/
inductive Op
  | set (key : MstKey) (value : ValidCid)
  | delete (key : MstKey)

/-- An instance with its store. -/
structure Instance where
  store : BlockStore
  mst : Mst

namespace Instance

/-- `createMst(store, root)` and `init`. -/
def init (store : BlockStore) (root : Option Cid) : Except String Instance := do
  return ⟨store, ← (Mst.createMst root).init store⟩

/-- What an operation gives. -/
def outcome (s : Instance) : Op → Mst.Outcome (Option Cid)
  | .set key value => s.mst.set key value
  | .delete key => s.mst.delete key

/-- The instance after an operation, with its blocks in the store. -/
def apply (s : Instance) (op : Op) : Instance :=
  ⟨s.store.putAll (s.outcome op).puts, (s.outcome op).mst⟩

/-- The instance after operations, one after the other. -/
def run (s : Instance) (ops : List Op) : Instance := ops.foldl apply s

/-- A fresh instance after operations. -/
def live (store : BlockStore) (ops : List Op) : Except String Instance := do
  return (← init store none).run ops

end Instance

/-- An operation on a sorted map. -/
def Op.applyTo (m : List (Key × Cid)) : Op → List (Key × Cid)
  | .set key value => insertKey key value m
  | .delete key => erase key m

/-- The highest layer of a key, or 0. -/
def topLayer (m : List (Key × Cid)) : ℕ := ((keys m).map leadingZerosOnHash).foldr max 0

/-- The layer of the root after an operation: a new key lifts it to its own layer, and a
    delete brings it down to the keys left. Where none are left, it stays. -/
def Op.layerAfter (m : List (Key × Cid)) (layer : ℕ) : Op → ℕ
  | .set key _ => if key.1 ∈ keys m then layer else max layer (leadingZerosOnHash key)
  | .delete key =>
    if key.1 ∈ keys m ∧ erase key.1 m ≠ [] then topLayer (erase key.1 m) else layer

/-- The abstract state of a run in memory: the map and the layer of the root. -/
def Op.step (s : List (Key × Cid) × ℕ) (op : Op) : List (Key × Cid) × ℕ :=
  (op.applyTo s.1, op.layerAfter s.1 s.2)

variable {D : Discipline} {empty : Option Cid}

/-- The tree and the cache of an instance hold the map `m`. The root of an empty map is
    none, or the `empty` root that the instance was opened at. -/
structure Holds (D : Discipline) (empty : Option Cid) (mst : Mst) (tree : MstNode)
    (m : List (Key × Cid)) : Prop where
  tree_eq : mst.tree = some tree
  wf : WF D tree
  known : Known tree
  leaves : tree.walkLeaves = m
  sorted : Sorted m
  nodup : (keys mst.all).Nodup
  lookup : ∀ key, mst.all.lookup key = m.lookup key
  root : m ≠ [] → mst.root = some tree.cid
  root_nil : m = [] → mst.root = none ∨ mst.root = empty

theorem Holds.entries {mst : Mst} {tree : MstNode} {m : List (Key × Cid)}
    (h : Holds D empty mst tree m) :
    mst.entries = m :=
  sort_eq h.nodup h.sorted h.lookup

/-- The cache and the tree agree on every key. -/
theorem Holds.get {mst : Mst} {tree : MstNode} {m : List (Key × Cid)}
    (h : Holds D empty mst tree m) (key : Key) : mst.get key = m.lookup key ∧ tree.get key = mst.all.lookup key := by
  have htree : tree.get key = m.lookup key := by
    rw [h.wf.get (h.leaves ▸ h.sorted), h.leaves]
  refine ⟨?_, htree.trans (h.lookup key).symm⟩
  rw [Mst.get, h.lookup key, h.tree_eq]
  cases hm : m.lookup key with
  | some v => rfl
  | none => exact htree.trans hm

/-- Persisting a well-formed tree. -/
theorem WF.persist {tree : MstNode} (h : WF D tree) (mst : Mst) (emptyRoot : Cid → Option Cid) :
    ∃ tree', mst.persist tree emptyRoot =
        ⟨.ok (if tree.walkLeaves = [] then emptyRoot tree.cid else some tree.cid),
          { mst with
            root := if tree.walkLeaves = [] then emptyRoot tree.cid else some tree.cid
            tree := some tree' },
          tree.blocks.filter fun b => b.1 ∉ mst.root.toList⟩ ∧
      Resolved D tree tree' ∧ Known tree' := by
  obtain ⟨tree', hc, hr, hk⟩ := h.collectBlocks mst.root.toList
  have hwf : WF D tree' := hr.1
  have hshape := hr.2.1
  have hempty : tree'.entries.length = 0 ↔ tree.walkLeaves = [] := by
    rw [List.length_eq_zero_iff, ← hwf.walkLeaves_eq_nil_iff, walkLeaves_eq_of_shape hshape]
  refine ⟨tree', ?_, hr, hk⟩
  rw [Mst.persist, hc]
  dsimp only
  rw [hwf.serialize_known hk, cid_eq_of_shape hshape]
  simp only [hempty]

/-- An operation that leaves a tree with the map `m'`: it returns, and it puts the
    blocks of the tree or changes nothing. -/
structure Step (D : Discipline) (empty : Option Cid) (mst : Mst) (tree : MstNode)
    (out : Mst.Outcome (Option Cid)) (tree' : MstNode) (m' : List (Key × Cid)) : Prop where
  result : out.result = .ok out.mst.root
  holds : Holds D empty out.mst tree' m'
  puts : (out.puts = tree'.blocks.filter fun b => b.1 ∉ mst.root.toList) ∨
    out.puts = [] ∧ out.mst = mst ∧ tree' = tree

variable {mst : Mst} {tree : MstNode} {m : List (Key × Cid)}

/-- A changed tree is persisted with the cache changed in the same way. -/
theorem WF.persist_step (mst : Mst) (tree : MstNode) {changed : MstNode} (hwf : WF D changed)
    (hsorted : Sorted changed.walkLeaves) (all : List (Key × Cid)) (hnodup : (keys all).Nodup)
    (hlookup : ∀ key, all.lookup key = changed.walkLeaves.lookup key)
    (emptyRoot : Cid → Option Cid) (hroot : changed.walkLeaves = [] → emptyRoot changed.cid = none) :
    ∃ tree', Step D empty mst tree ({ mst with all := all }.persist changed emptyRoot) tree'
      changed.walkLeaves ∧ tree'.layer = changed.layer ∧ tree'.shape = changed.shape := by
  obtain ⟨tree', hp, ⟨hwf', hshape, hlayer, _⟩, hk⟩ := hwf.persist { mst with all := all } emptyRoot
  have hleaves := walkLeaves_eq_of_shape hshape
  refine ⟨tree', ⟨by rw [hp], ?_, .inl ?_⟩, hlayer, hshape⟩
  · rw [hp]
    refine ⟨rfl, hwf', hk, hleaves, hsorted, hnodup, hlookup, fun hne => ?_, fun hnil => ?_⟩
    · rw [if_neg hne, cid_eq_of_shape hshape]
    · rw [if_pos hnil]
      exact .inl (hroot hnil)
  · rw [hp, blocks_eq_of_shape hshape]

theorem Holds.isSome_lookup (h : Holds D empty mst tree m) (key : Key) :
    (mst.all.lookup key).isSome ↔ key ∈ keys m := by
  rw [h.lookup key, lookup_isSome_iff]

/-- `set` inserts into the map. -/
theorem Holds.set (h : Holds D empty mst tree m) (key : MstKey) (value : ValidCid) :
    ∃ tree', Step D empty mst tree (mst.set key value) tree' (insertKey key.1 value.1 m) ∧
      tree'.layer = if key.1 ∈ keys m then tree.layer
        else max tree.layer (leadingZerosOnHash key) := by
  have hs : Sorted tree.walkLeaves := h.leaves ▸ h.sorted
  -- The tree holds the pair, whether it was updated or added.
  have hchanged : ∃ changed, (if (mst.all.lookup key.1).isSome then tree.update key value
      else tree.add key value (leadingZerosOnHash key)) = .ok changed ∧ WF D changed ∧
        changed.walkLeaves = insertKey key.1 value.1 m ∧
        changed.layer = if key.1 ∈ keys m then tree.layer
          else max tree.layer (leadingZerosOnHash key) := by
    by_cases hmem : key.1 ∈ keys m
    · obtain ⟨changed, hup, hwf, hlayer, hleaves⟩ :=
        h.wf.update hs value.2 (h.leaves.symm ▸ hmem : key.1 ∈ keys tree.walkLeaves)
      rw [h.leaves] at hleaves
      exact ⟨changed, by rw [if_pos ((h.isSome_lookup _).2 hmem), hup], hwf, hleaves,
        by rw [if_pos hmem, hlayer]⟩
    · obtain ⟨changed, hadd, hwf, hlayer, hleaves⟩ :=
        h.wf.add key.2 value.2 hs (h.leaves.symm ▸ hmem)
      rw [h.leaves] at hleaves
      exact ⟨changed, by rw [if_neg ((h.isSome_lookup _).not.2 hmem), hadd], hwf, hleaves,
        by rw [if_neg hmem, hlayer]⟩
  obtain ⟨changed, hc, hwf, hleaves, hlayer⟩ := hchanged
  obtain ⟨tree', hstep, hlayer', _⟩ := hwf.persist_step mst tree
    (hleaves ▸ sorted_insertKey h.sorted) (AssocList.set key.1 value.1 mst.all)
    (nodup_keys_set h.nodup) (fun k => by rw [hleaves, lookup_set, lookup_insertKey, h.lookup k])
    some (fun hnil => by simp [hleaves, insertKey] at hnil)
  rw [hleaves] at hstep
  refine ⟨tree', ?_, hlayer'.trans hlayer⟩
  rw [Mst.set, h.tree_eq]
  dsimp only
  rw [hc]
  exact hstep

/-- A `delete` of a key that is not there changes nothing. -/
theorem Holds.delete_of_not_mem (h : Holds D empty mst tree m) {key : Key} (hmem : key ∉ keys m) :
    Step D empty mst tree (mst.delete key) tree m := by
  have hnone : (mst.all.lookup key).isNone := by
    rw [h.lookup key, lookup_eq_none_iff.2 hmem]
    rfl
  have hd : mst.delete key = ⟨.ok mst.root, mst, []⟩ := by
    rw [Mst.delete, h.tree_eq]
    dsimp only
    rw [if_pos hnone]
  rw [hd]
  exact ⟨rfl, h, .inr ⟨rfl, rfl, rfl⟩⟩

/-- `delete` erases from the map, where the neighbours can be joined. -/
theorem Holds.delete_of_mem (h : Holds D empty mst tree m) {key : Key} (hmem : key ∈ keys m)
    (hcan : tree.canDelete key) :
    ∃ tree', Step D empty mst tree (mst.delete key) tree' (erase key m) ∧
      (erase key m = [] → tree'.layer = tree.layer) ∧
      (erase key m ≠ [] → ownLeaves tree'.entries ≠ []) := by
  have hs : Sorted tree.walkLeaves := h.leaves ▸ h.sorted
  obtain ⟨changed, hc, hwf, hleaves, hempty, hown⟩ := h.wf.delete hs (h.leaves.symm ▸ hmem) hcan
  rw [h.leaves] at hleaves
  obtain ⟨tree', hstep, hlayer, hshape⟩ := hwf.persist_step mst tree
    (hleaves ▸ h.sorted.filter _) (erase key mst.all) (nodup_keys_erase h.nodup)
    (fun k => by rw [hleaves, lookup_erase, lookup_erase, h.lookup k]) (fun _ => none)
    (fun _ => rfl)
  rw [hleaves] at hstep
  have hsome : ¬ (mst.all.lookup key).isNone := by
    simpa using (h.isSome_lookup key).2 hmem
  refine ⟨tree', ?_, fun he => ?_, fun hne => ?_⟩
  · rw [Mst.delete, h.tree_eq]
    dsimp only
    rw [if_neg hsome, hc]
    exact hstep
  · rw [hlayer, hempty (hwf.walkLeaves_eq_nil_iff.1 (hleaves.trans he))]
  · rw [ownLeaves_eq_of_shape hshape]
    exact hown fun he => hne (hleaves ▸ hwf.walkLeaves_eq_nil_iff.2 he)

end ComputeContract
