import ComputeContract.Mst.Operations

/-!
# The class `Mst`

The tree over a block store: the root CID, the tree in memory and a flat cache of
the entries. `set` and `delete` change the tree and the cache, put the blocks of the
new tree and move the root; `init` loads the tree back from its root.

The operations only write to the store, so that they give the blocks they put
(`puts`) and the instance after them, also when they throw.
-/

namespace ComputeContract

/-- A block store, as the blocks put to it, the last one first. -/
abbrev BlockStore := List (Cid × Bytes)

def BlockStore.get (store : BlockStore) (cid : Cid) : Option Bytes := store.lookup cid

/-- Put blocks, one after the other. -/
def BlockStore.putAll (store : BlockStore) (puts : List (Cid × Bytes)) : BlockStore :=
  puts.reverse ++ store

/-! ## Tree loading from storage -/

/-- `str.slice(0, n)`. -/
def sliceTo (str : List Char) (n : ℤ) : List Char :=
  if 0 ≤ n then str.take n.toNat else str.take (str.length - n.natAbs)

/-- The loop over the entries, each with the subtree after it. -/
def deserializeEntries (load : Cid → Except String MstNode) (lastKey : List Char) :
    List TreeNodeEntry → Except String (List NodeEntry)
  | [] => .ok []
  | entry :: es => do
    let str := sliceTo lastKey entry.p ++ (toAscii entry.k).toList
    let key : Key := ⟨String.ofList str⟩
    ensureValidMstKey key
    let child ← entry.t.mapM load
    let rest ← deserializeEntries load str es
    return .leaf key entry.v :: (child.map NodeEntry.tree).toList ++ rest

/-- The layer of the first leaf, or 0. -/
def resolvedLayer : List NodeEntry → ℕ
  | [] => 0
  | .leaf key _ :: _ => leadingZerosOnHash key
  | .tree _ :: es => resolvedLayer es

def deserializeNodeData (load : Cid → Except String MstNode) (data : TreeNodeData) :
    Except String MstNode := do
  let child ← data.l.mapM load
  let leaves ← deserializeEntries load [] data.e
  let entries := (child.map NodeEntry.tree).toList ++ leaves
  let bytes ← encodeNodeData data
  return .mk (resolvedLayer entries) (some (cidForBytes bytes)) entries

/-- The tree under a CID; `fuel` bounds its depth. -/
def loadTree (store : BlockStore) : ℕ → Cid → Except String MstNode
  | 0, _ => .error "Maximum call stack size exceeded"
  | fuel + 1, cid =>
    match store.get cid with
    | none => .error s!"MST node not found: {cid.toString}"
    | some bytes => do
      let data ← decodeNodeData bytes
      deserializeNodeData (loadTree store fuel) data

namespace MstNode

mutual

/-- The leaves, in order. -/
def walkLeaves : MstNode → List (Key × Cid)
  | mk _ _ entries => entryLeaves entries

def entryLeaves : List NodeEntry → List (Key × Cid)
  | [] => []
  | .leaf key value :: es => (key, value) :: entryLeaves es
  | .tree node :: es => node.walkLeaves ++ entryLeaves es

end

end MstNode

/-! ## The public API -/

/-- An instance of the class. -/
structure Mst where
  root : Option Cid
  /-- The tree in memory, `none` before `init`. -/
  tree : Option MstNode
  /-- Flat cache for fast lookups. -/
  all : List (Key × Cid)

namespace Mst

/-- What an operation gives: its result or what it throws, the instance after it,
    and the blocks it puts. -/
structure Outcome (α : Type) where
  result : Except String α
  mst : Mst
  puts : List (Cid × Bytes)

def createMst (root : Option Cid) : Mst := ⟨root, none, []⟩

/-- Load the tree from the block store. No CID lies twice on a path from the root of
    a tree, so that the blocks bound the depth. -/
def init (store : BlockStore) (mst : Mst) : Except String Mst :=
  match mst.root with
  | none => do return { mst with tree := some (← MstNode.create [] 0) }
  | some root => do
    let tree ← loadTree store (store.length + 1) root
    let all := tree.walkLeaves.foldl (fun all leaf => AssocList.set leaf.1 leaf.2 all) mst.all
    return { mst with tree := some tree, all := all }

def get (mst : Mst) (key : Key) : Option Cid :=
  match mst.all.lookup key with
  | some cached => some cached
  | none => mst.tree.bind fun tree => tree.get key

/-- Persist the blocks of the tree; the root is its CID, or what `emptyRoot` says of
    a tree without entries. -/
def persist (mst : Mst) (tree : MstNode) (emptyRoot : Cid → Option Cid) : Outcome (Option Cid) :=
  match tree.collectBlocks mst.root.toList with
  | .error e => ⟨.error e, { mst with tree := some tree }, []⟩
  | .ok (tree, puts) =>
    match tree.serialize with
    | .error e => ⟨.error e, { mst with tree := some tree }, puts⟩
    | .ok (cid, _, tree) =>
      let root := if tree.entries.length = 0 then emptyRoot cid else some cid
      ⟨.ok root, { mst with root := root, tree := some tree }, puts⟩

def set (mst : Mst) (key : Key) (value : Cid) : Outcome (Option Cid) :=
  match (match mst.tree with
    | none => MstNode.create [] 0
    | some tree => .ok tree) with
  | .error e => ⟨.error e, mst, []⟩
  | .ok tree =>
    -- Use flat cache to determine if key exists.
    let present := (mst.all.lookup key).isSome
    match (if present then tree.update key value
      else tree.add key value (leadingZerosOnHash key)) with
    | .error e => ⟨.error e, { mst with tree := some tree }, []⟩
    | .ok tree => { mst with all := AssocList.set key value mst.all }.persist tree some

def delete (mst : Mst) (key : Key) : Outcome (Option Cid) :=
  match mst.tree with
  | none => ⟨.ok none, mst, []⟩
  | some tree =>
    if (mst.all.lookup key).isNone then ⟨.ok mst.root, mst, []⟩
    else
      let all := AssocList.erase key mst.all
      match tree.delete key with
      -- If tree delete fails, just remove from cache and continue.
      | .error _ => ⟨.ok mst.root, { mst with all := all }, []⟩
      | .ok tree => { mst with all := all }.persist tree fun _ => none

/-- The entries of the cache, sorted by key. -/
def entries (mst : Mst) : List (Key × Cid) := AssocList.sort mst.all

end Mst

end ComputeContract
