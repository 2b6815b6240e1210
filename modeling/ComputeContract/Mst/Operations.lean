import ComputeContract.Mst.Node

/-!
# The operations of a node

`get`, `add`, `update` and `delete` follow the leaves from the root: at each node,
the first leaf whose key is not below the one sought, or the subtree just before it.

* `splitAround` cuts a tree in two around a key, for a leaf at a higher layer;
* `appendMerge` joins two neighbours again, after the leaf between them is gone; it
  refuses nodes of different layers;
* `trimTop` drops a root that only points to a subtree.
-/

namespace ComputeContract.MstNode

theorem sizeOf_lt_of_mem {child n : MstNode} (h : .tree child ∈ n.entries) :
    sizeOf child < sizeOf n := by
  obtain ⟨layer, pointer, entries⟩ := n
  rw [entries_mk] at h
  have hlt := List.sizeOf_lt_of_mem h
  simp only [NodeEntry.tree.sizeOf_spec, mk.sizeOf_spec] at hlt ⊢
  omega

mutual

/-- What `add` may descend: the layers of the tree, added up. -/
def weight : MstNode → ℕ
  | mk layer _ entries => layer + entriesWeight entries + 1

def entriesWeight : List NodeEntry → ℕ
  | [] => 0
  | .leaf _ _ :: es => entriesWeight es
  | .tree node :: es => node.weight + entriesWeight es

end

theorem weight_lt_of_mem {child node : MstNode} (h : .tree child ∈ node.entries) :
    child.weight < node.weight := by
  obtain ⟨layer, pointer, entries⟩ := node
  rw [entries_mk] at h
  have hle : child.weight ≤ entriesWeight entries := by
    induction entries with
    | nil => cases h
    | cons e es ih =>
      rcases List.mem_cons.1 h with rfl | hes
      · exact Nat.le_add_right _ _
      · cases e with
        | leaf => exact ih hes
        | tree => exact (ih hes).trans (Nat.le_add_left _ _)
  rw [weight]
  omega

theorem mem_of_before {node : MstNode} {index : ℕ} {entry : NodeEntry}
    (h : node.before index = some entry) : entry ∈ node.entries := by
  unfold before at h
  split_ifs at h
  exact List.mem_of_getElem? h

/-- The value of the leaf found, if it has the key sought. -/
def leafValue (found : Option NodeEntry) (key : Key) : Option Cid :=
  match found with
  | some (.leaf k value) => if k = key then some value else none
  | _ => none

/-- A node, if it has entries. -/
def orNull (node : MstNode) : Option MstNode :=
  if 0 < node.entries.length then some node else none

/-- Recursively split the tree around a key. -/
def splitAround (node : MstNode) (key : Key) : Option MstNode × Option MstNode :=
  let index := node.findGtOrEqualLeafIndex key
  let leftData := node.entries.take index
  let left := node.newTree leftData
  let right := node.newTree (node.entries.drop index)
  -- If the far right of the left side is a subtree, split it too.
  match h : leftData.getLast? with
  | some (.tree lastInLeft) =>
    have : sizeOf lastInLeft < sizeOf node :=
      sizeOf_lt_of_mem (List.mem_of_mem_take (List.mem_of_getLast? h))
    let left := left.removeEntry (leftData.length - 1)
    let split := lastInLeft.splitAround key
    let left := match split.1 with
      | some tree => left.append (.tree tree)
      | none => left
    let right := match split.2 with
      | some tree => right.prepend (.tree tree)
      | none => right
    (left.orNull, right.orNull)
  | _ => (left.orNull, right.orNull)
termination_by sizeOf node

/-- Join the node with the one after it. -/
def appendMerge (node toMerge : MstNode) : Except String MstNode :=
  if node.layer ≠ toMerge.layer then
    .error "Trying to merge two nodes from different layers"
  else
    match h : node.entries.getLast?, toMerge.entries.head? with
    | some (.tree lastInLeft), some (.tree firstInRight) =>
      have : sizeOf lastInLeft < sizeOf node := sizeOf_lt_of_mem (List.mem_of_getLast? h)
      do
        let merged ← lastInLeft.appendMerge firstInRight
        return node.newTree (node.entries.dropLast ++ .tree merged :: toMerge.entries.tail)
    | _, _ => .ok (node.newTree (node.entries ++ toMerge.entries))
termination_by sizeOf node

/-- If the root only points to a single subtree, promote that subtree. -/
def trimTop : MstNode → MstNode
  | mk _ _ [.tree node] => node.trimTop
  | node => node

/-- Put a leaf in the place of the subtree at `index`, between its two sides. -/
def replaceWithSplit (node : MstNode) (index : ℕ) (left : Option MstNode) (leaf : NodeEntry)
    (right : Option MstNode) : MstNode :=
  node.newTree (node.entries.take index ++ (left.map NodeEntry.tree).toList ++
    leaf :: (right.map NodeEntry.tree).toList ++ node.entries.drop (index + 1))

/-- The loop that puts a node under `count` new parents. -/
def createParents : ℕ → MstNode → Except String MstNode
  | 0, node => .ok node
  | count + 1, node => do (← node.createParent).createParents count

/-- A new node has the layer and the entries it is made of, up to their pointers. -/
theorem create_eq_ok {es : List NodeEntry} {layer : ℕ} {node : MstNode}
    (h : create es layer = .ok node) :
    node.layer = layer ∧ resolveEntries es = .ok node.entries := by
  simp only [create, serialize, bind_eq_ok] at h
  obtain ⟨_, ⟨es', hes, _, _, _, _, h⟩, h'⟩ := h
  cases h
  cases h'
  exact ⟨rfl, hes⟩

theorem createChild_eq_ok {node child : MstNode} (h : node.createChild = .ok child) :
    child.layer = node.layer - 1 ∧ child.entries = [] := by
  obtain ⟨hl, hes⟩ := create_eq_ok h
  exact ⟨hl, (Except.ok.inj hes).symm⟩

/-- Add a key that is not there, whose layer is `keyZeros`. -/
def add (node : MstNode) (key : Key) (value : Cid) (keyZeros : ℕ) : Except String MstNode := do
  ensureValidMstKey key
  let newLeaf := NodeEntry.leaf key value
  let index := node.findGtOrEqualLeafIndex key
  if keyZeros = node.layer then
    -- Belongs in this layer.
    if (leafValue (node.atIndex index) key).isSome then
      .error s!"There is already a value at key: {key.str}"
    else
      match node.before index with
      | some (.tree prevNode) =>
        let splitSubTree := prevNode.splitAround key
        return node.replaceWithSplit (index - 1) splitSubTree.1 newLeaf splitSubTree.2
      | _ => return node.spliceIn newLeaf index
  else if _ : keyZeros < node.layer then
    -- Belongs on a lower layer.
    match h : node.before index with
    | some (.tree prevNode) =>
      have := weight_lt_of_mem (mem_of_before h)
      let newSub ← prevNode.add key value keyZeros
      return node.updateEntry (index - 1) (.tree newSub)
    | _ =>
      match _ : node.createChild with
      | .error e => .error e
      | .ok child =>
        let newSub ← child.add key value keyZeros
        return node.spliceIn (.tree newSub) index
  else
    -- Belongs on a higher layer: new root.
    let split := node.splitAround key
    let extraLayers := keyZeros - node.layer
    let left ← split.1.mapM (createParents (extraLayers - 1))
    let right ← split.2.mapM (createParents (extraLayers - 1))
    create ((left.map NodeEntry.tree).toList ++ newLeaf :: (right.map NodeEntry.tree).toList)
      keyZeros
termination_by node.weight
decreasing_by
  · exact this
  · obtain ⟨hl, he⟩ := createChild_eq_ok ‹_›
    obtain ⟨_, _, _⟩ := node
    obtain ⟨_, _, _⟩ := child
    simp only [layer_mk, entries_mk] at *
    subst hl he
    simp only [weight, entriesWeight]
    omega

def get (node : MstNode) (key : Key) : Option Cid :=
  let index := node.findGtOrEqualLeafIndex key
  match leafValue (node.atIndex index) key with
  | some value => some value
  | none =>
    match h : node.before index with
    | some (.tree prev) =>
      have := sizeOf_lt_of_mem (mem_of_before h)
      prev.get key
    | _ => none
termination_by sizeOf node

def update (node : MstNode) (key : Key) (value : Cid) : Except String MstNode := do
  ensureValidMstKey key
  let index := node.findGtOrEqualLeafIndex key
  if (leafValue (node.atIndex index) key).isSome then
    return node.updateEntry index (.leaf key value)
  else
    match h : node.before index with
    | some (.tree prev) =>
      have := sizeOf_lt_of_mem (mem_of_before h)
      let updated ← prev.update key value
      return node.updateEntry (index - 1) (.tree updated)
    | _ => .error s!"Could not find a record with key: {key.str}"
termination_by sizeOf node

def deleteRecurse (node : MstNode) (key : Key) : Except String MstNode := do
  let index := node.findGtOrEqualLeafIndex key
  if (leafValue (node.atIndex index) key).isSome then
    match node.before index, node.atIndex (index + 1) with
    | some (.tree prev), some (.tree next) =>
      let merged ← prev.appendMerge next
      return node.newTree (node.entries.take (index - 1) ++ .tree merged ::
        node.entries.drop (index + 2))
    | _, _ => return node.removeEntry index
  else
    match h : node.before index with
    | some (.tree prev) =>
      have := sizeOf_lt_of_mem (mem_of_before h)
      let sub ← prev.deleteRecurse key
      if sub.entries.length = 0 then return node.removeEntry (index - 1)
      else return node.updateEntry (index - 1) (.tree sub)
    | _ => .error s!"Could not find a record with key: {key.str}"
termination_by sizeOf node

def delete (node : MstNode) (key : Key) : Except String MstNode := do
  let altered ← node.deleteRecurse key
  return altered.trimTop

end ComputeContract.MstNode
