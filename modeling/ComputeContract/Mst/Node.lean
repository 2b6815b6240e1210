import Mathlib.Data.List.Lex
import ComputeContract.Cbor.DagCbor
import ComputeContract.Lib.Except

/-!
# Nodes of the Merkle search tree

A node holds leaves and subtrees, sorted by key; a key lies at the layer given by
the leading zeros of its hash, and the root is at the highest layer. The block of a
node is the DAG-CBOR of its `TreeNodeData`, where each key is cut down by the prefix
it shares with the key before it and each subtree is given by its CID.

The operations are those of the class `MstNode`. An operation gives a new node
whose `pointer` (its CID) is not known yet; `serialize` computes the missing
pointers, from below.
-/

namespace ComputeContract

/-- A key, ordered as a JavaScript string. -/
structure Key where
  str : String
  deriving DecidableEq

instance : LinearOrder Key :=
  LinearOrder.lift' (fun key => utf16 key.str) fun a b h => by
    obtain ⟨a⟩ := a
    obtain ⟨b⟩ := b
    exact congrArg Key.mk (utf16_injective h)

/-! ## Layers and keys -/

/-- The leading 2-bit zero groups of a hash. -/
def leadingZeros : Bytes → ℕ
  | [] => 0
  | byte :: bs =>
    (if byte < 64 then 1 else 0) + (if byte < 16 then 1 else 0) + (if byte < 4 then 1 else 0) +
      if byte = 0 then 1 + leadingZeros bs else 0

/-- Count leading 2-bit zero groups in the SHA-256 hash of a key. -/
def leadingZerosOnHash (key : Key) : ℕ := leadingZeros (sha256 (textEncode key.str)).1

def toAscii (bytes : Bytes) : String := String.ofList (bytes.map fun b => Char.ofNat b.toNat)

def fromAscii (str : List Char) : Bytes := str.map fun c => c.toNat.toUInt8

def countPrefixLen : List Char → List Char → ℕ
  | a :: as, b :: bs => if a ≠ b then 0 else countPrefixLen as bs + 1
  | _, _ => 0

/-- The characters `[a-zA-Z0-9_~\-:./]`. -/
def isKeyChar (c : Char) : Bool :=
  c.isAlpha || c.isDigit || c ∈ ['_', '~', '-', ':', '.', '/']

def isValidMstKey (key : Key) : Bool :=
  let parts := key.str.toList.splitOn '/'
  0 < key.str.length ∧ (utf16 key.str).length ≤ 1024 ∧ parts.length = 2 ∧
    (∀ part ∈ parts, part ≠ []) ∧ key.str.toList.all isKeyChar

def ensureValidMstKey (key : Key) : Except String Unit :=
  if isValidMstKey key then .ok () else .error s!"Not a valid MST key: {key.str}"

/-! ## Nodes -/

mutual

/-- An entry of a node: a `LeafNode` or an `MstNode`. -/
inductive NodeEntry
  | leaf (key : Key) (value : Cid)
  | tree (node : MstNode)

/-- A node: its layer, its CID when it is known, and its entries. -/
inductive MstNode
  | mk (layer : ℕ) (pointer : Option Cid) (entries : List NodeEntry)

end

namespace MstNode

def layer : MstNode → ℕ
  | mk layer _ _ => layer

def pointer : MstNode → Option Cid
  | mk _ pointer _ => pointer

def entries : MstNode → List NodeEntry
  | mk _ _ entries => entries

@[simp] theorem layer_mk (l : ℕ) (p : Option Cid) (es : List NodeEntry) : (mk l p es).layer = l :=
  rfl

@[simp] theorem pointer_mk (l : ℕ) (p : Option Cid) (es : List NodeEntry) :
    (mk l p es).pointer = p := rfl

@[simp] theorem entries_mk (l : ℕ) (p : Option Cid) (es : List NodeEntry) :
    (mk l p es).entries = es := rfl

end MstNode

def NodeEntry.isTree : NodeEntry → Bool
  | leaf _ _ => false
  | tree _ => true

/-! ## Node serialization -/

structure TreeNodeEntry where
  /-- Prefix bytes shared with the previous key. -/
  p : ℤ
  /-- Key suffix. -/
  k : Bytes
  /-- Record value. -/
  v : Cid
  /-- Right subtree. -/
  t : Option Cid

structure TreeNodeData where
  /-- Left subtree. -/
  l : Option Cid
  e : List TreeNodeEntry

/-- The pointer of a subtree; the placeholder of an unknown one is not a CID. -/
def linkTo (node : MstNode) : Except String Cid :=
  match node.pointer with
  | some cid => .ok cid
  | none => .error "cidToBytes: CID must start with 'b' (multibase base32), got ''"

/-- The loop over the leaves, each with the subtree after it. -/
def serializeLeaves (lastKey : List Char) : List NodeEntry → Except String (List TreeNodeEntry)
  | [] => .ok []
  | .leaf key value :: .tree next :: es => do
    ensureValidMstKey key
    let subtree ← linkTo next
    let prefixLen := countPrefixLen lastKey key.str.toList
    let rest ← serializeLeaves key.str.toList es
    return ⟨prefixLen, fromAscii (key.str.toList.drop prefixLen), value, some subtree⟩ :: rest
  | .leaf key value :: es => do
    ensureValidMstKey key
    let prefixLen := countPrefixLen lastKey key.str.toList
    let rest ← serializeLeaves key.str.toList es
    return ⟨prefixLen, fromAscii (key.str.toList.drop prefixLen), value, none⟩ :: rest
  | .tree _ :: _ => .error "Not a valid node: two subtrees next to each other"

/-- Serialize entries to a `TreeNodeData` ready for CBOR encoding. -/
def serializeNodeData : List NodeEntry → Except String TreeNodeData
  | .tree node :: es => do
    let l ← linkTo node
    return ⟨some l, ← serializeLeaves [] es⟩
  | es => do return ⟨none, ← serializeLeaves [] es⟩

def linkValue (cid : Option Cid) : Value := (cid.map Value.link).getD .null

def entryValue (entry : TreeNodeEntry) : Value :=
  .object [("p", .int entry.p), ("k", .bytes entry.k), ("v", .link entry.v),
    ("t", linkValue entry.t)]

def nodeValue (data : TreeNodeData) : Value :=
  .object [("l", linkValue data.l), ("e", .array (data.e.map entryValue))]

def encodeNodeData (data : TreeNodeData) : Except String Bytes := Cbor.encode (nodeValue data)

def Value.isNull : Value → Bool
  | .null => true
  | _ => false

/-- The property of an object. -/
def Value.get? (obj : Value) (key : String) : Option Value :=
  match obj with
  | .object fields => fields.lookup key
  | _ => none

/-- A CID link, or nothing for `null` and for a missing property. -/
def readLink : Option Value → Except String (Option Cid)
  | some (.link cid) => .ok (some cid)
  | none | some .null => .ok none
  | _ => .error "not a CID link"

def decodeEntry (raw : Value) : Except String TreeNodeEntry := do
  let t ← readLink (raw.get? "t")
  match raw.get? "p", raw.get? "k", raw.get? "v" with
  | some (.int p), some (.bytes k), some (.link v) => return ⟨p, k, v, t⟩
  | _, _, _ => throw "not a tree entry"

def decodeNodeData (bytes : Bytes) : Except String TreeNodeData := do
  let obj ← Cbor.decode bytes
  if obj.isNull then throw "Cannot read properties of null (reading 'l')"
  let l ← readLink (obj.get? "l")
  match obj.get? "e" with
  | some (.array eArr) => return ⟨l, ← eArr.mapM decodeEntry⟩
  | none | some .null => return ⟨l, []⟩
  | _ => throw "e is not iterable"

namespace MstNode

mutual

/-- The CID and the block of the node, and the node with its pointers known. -/
def serialize : MstNode → Except String (Cid × Bytes × MstNode)
  | mk layer _ entries => do
    let entries ← resolveEntries entries
    let data ← serializeNodeData entries
    let bytes ← encodeNodeData data
    let cid := cidForBytes bytes
    return (cid, bytes, mk layer (some cid) entries)

/-- Resolve the entries whose pointer is not known. -/
def resolveEntries : List NodeEntry → Except String (List NodeEntry)
  | [] => .ok []
  | .leaf key value :: es => do return .leaf key value :: (← resolveEntries es)
  | .tree node :: es => do
    let node ← (if node.pointer.isSome then .ok node else node.serialize.map fun r => r.2.2)
    return .tree node :: (← resolveEntries es)

end

mutual

/-- The blocks of this node and its descendants that are not in `existing`, in the
    order they are set, and the node with its pointers known. The pointers that
    `serialize` resolves below are resolved again on the way down. -/
def collectBlocks (existing : List Cid) :
    MstNode → Except String (MstNode × List (Cid × Bytes))
  | mk layer pointer entries => do
    let (cid, bytes, _) ← (mk layer pointer entries).serialize
    let (entries, blocks) ← collectEntries existing entries
    return (mk layer (some cid) entries,
      (if cid ∈ existing then [] else [(cid, bytes)]) ++ blocks)

def collectEntries (existing : List Cid) :
    List NodeEntry → Except String (List NodeEntry × List (Cid × Bytes))
  | [] => .ok ([], [])
  | .leaf key value :: es => do
    let (es, blocks) ← collectEntries existing es
    return (.leaf key value :: es, blocks)
  | .tree node :: es => do
    let (node, blocks₁) ← node.collectBlocks existing
    let (es, blocks₂) ← collectEntries existing es
    return (.tree node :: es, blocks₁ ++ blocks₂)

end

/-! ## Simple operations -/

/-- A node with its pointer computed. -/
def create (entries : List NodeEntry) (layer : ℕ) : Except String MstNode := do
  let (_, _, node) ← (mk layer none entries).serialize
  return node

/-- The same layer, with other entries and a stale pointer. -/
def newTree (node : MstNode) (entries : List NodeEntry) : MstNode := mk node.layer none entries

def atIndex (node : MstNode) (index : ℕ) : Option NodeEntry := node.entries[index]?

/-- The entry before `index`. -/
def before (node : MstNode) (index : ℕ) : Option NodeEntry :=
  if index = 0 then none else node.entries[index - 1]?

def spliceIn (node : MstNode) (entry : NodeEntry) (index : ℕ) : MstNode :=
  node.newTree (node.entries.take index ++ entry :: node.entries.drop index)

def removeEntry (node : MstNode) (index : ℕ) : MstNode :=
  node.newTree (node.entries.take index ++ node.entries.drop (index + 1))

def updateEntry (node : MstNode) (index : ℕ) (entry : NodeEntry) : MstNode :=
  node.newTree (node.entries.take index ++ entry :: node.entries.drop (index + 1))

def append (node : MstNode) (entry : NodeEntry) : MstNode :=
  node.newTree (node.entries ++ [entry])

def prepend (node : MstNode) (entry : NodeEntry) : MstNode :=
  node.newTree (entry :: node.entries)

/-- A leaf whose key is not below `key`. -/
def isGtOrEqualLeaf (key : Key) : NodeEntry → Bool
  | .leaf k _ => key ≤ k
  | .tree _ => false

/-- The index of the first leaf whose key is not below `key`. -/
def findGtOrEqualLeafIndex (node : MstNode) (key : Key) : ℕ :=
  node.entries.findIdx (isGtOrEqualLeaf key)

def createChild (node : MstNode) : Except String MstNode := create [] (node.layer - 1)

def createParent (node : MstNode) : Except String MstNode := create [.tree node] (node.layer + 1)

end MstNode

end ComputeContract
