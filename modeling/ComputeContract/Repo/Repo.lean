import ComputeContract.Cbor.RoundTrip
import ComputeContract.Repo.Commit

/-!
# Repositories

A repository is its head in the storage: the commit it points to, the tree of that
commit and the records of the tree. Reading opens the tree at the head; `applyWrites`
opens it, takes the writes one after the other, stores a signed commit and moves the
head.

`applyWrites` is cut where other calls may come in between: opening the tree
(`openMst`), each write (`applyWrite`), the root to commit (`commitRoot`), the commit
(`sealCommit`), moving the head.
-/

namespace ComputeContract

/-- Blocks, and the head of each repository. -/
structure Storage where
  blocks : BlockStore
  heads : List (String × Head)

def Storage.getHead (storage : Storage) (did : String) : Option Head := storage.heads.lookup did

/-- Canonical XRPC error names. -/
inductive XrpcErrorName
  | InvalidRequest
  | AuthenticationRequired
  | RecordNotFound
  | RepoNotFound
  | InvalidSwap
  deriving DecidableEq

/-- What is thrown: an `XrpcError`, or any other error. -/
inductive RepoError
  | xrpc (error : XrpcErrorName) (message : String)
  | error (message : String)

/-! ## Reading -/

/-- The path of a record. -/
def recordKey (collection rkey : String) : Key := ⟨collection ++ "/" ++ rkey⟩

def recordUri (did : String) (key : Key) : String := "at://" ++ did ++ "/" ++ key.str

/-- The tree at the root of a commit, if the commit has one. -/
def headMst (store : BlockStore) (head : Head) : Except String (Option Mst) := do
  match ← getMstRoot store head.commit with
  | none => return none
  | some rootCid =>
    if rootCid = noCid then return none
    else return some (← (Mst.createMst rootCid).init store)

structure RepoDescription where
  collections : List Key
  head : Option Tid

/-- The collection of a path. -/
def collectionOf (key : Key) : Option Key :=
  if '/' ∈ key.str.toList then some ⟨String.ofList (key.str.toList.takeWhile (· ≠ '/'))⟩ else none

def describe (storage : Storage) (did : String) : Except String RepoDescription :=
  match storage.getHead did with
  | none => .ok ⟨[], none⟩
  | some head => do
    match ← headMst storage.blocks head with
    | none => return ⟨[], some head.rev⟩
    | some mst =>
      let collections := (mst.entries.filterMap fun e => collectionOf e.1).dedup
      return ⟨collections.insertionSort (· ≤ ·), some head.rev⟩

/-- A record, as it is read. -/
structure RepoRecord where
  uri : String
  cid : Cid
  value : Value

/-- The record of a leaf, if its block is there. -/
def readRecord (store : BlockStore) (did : String) (key : Key) (valueCid : Cid) :
    Except String (Option RepoRecord) :=
  match store.get valueCid with
  | none => .ok none
  | some recordBytes => do return some ⟨recordUri did key, valueCid, ← Cbor.decode recordBytes⟩

def getRecord (storage : Storage) (did collection rkey : String) :
    Except String (Option RepoRecord) :=
  match storage.getHead did with
  | none => .ok none
  | some head => do
    match ← headMst storage.blocks head with
    | none => return none
    | some mst =>
      match mst.get (recordKey collection rkey) with
      | none => return none
      | some valueCid => readRecord storage.blocks did (recordKey collection rkey) valueCid

/-- The loop of `listRecords`, with the results so far: those of the collection, from
    the cursor on, up to the limit; a leaf without its block is left out. -/
def listLoop (store : BlockStore) (did collection : String) (limit : ℤ) (cursor : Key) :
    List RepoRecord → List (Key × Cid) → Except String (List RepoRecord × Option Key)
  | results, [] => .ok (results, none)
  | results, (key, valueCid) :: es =>
    if ¬ (collection ++ "/").toList.isPrefixOf key.str.toList then
      listLoop store did collection limit cursor results es
    else if cursor.str ≠ "" ∧ key < cursor then
      listLoop store did collection limit cursor results es
    else if limit ≤ results.length then .ok (results, some key)
    else do
      let record ← readRecord store did key valueCid
      listLoop store did collection limit cursor (results ++ record.toList) es

def listRecords (storage : Storage) (did collection : String) (limit : Option ℤ)
    (cursor : Option Key) : Except String (List RepoRecord × Option Key) :=
  match storage.getHead did with
  | none => .ok ([], none)
  | some head => do
    match ← headMst storage.blocks head with
    | none => return ([], none)
    | some mst =>
      listLoop storage.blocks did collection (limit.getD 50) (cursor.getD ⟨""⟩) [] mst.entries

/-! ## Writing -/

inductive WriteAction
  | create
  | update
  | delete
  deriving DecidableEq

def WriteAction.toString : WriteAction → String
  | create => "create"
  | update => "update"
  | delete => "delete"

/-- A write; a `record` that is missing is `undefined`. -/
structure WriteOp where
  action : WriteAction
  collection : String
  rkey : String
  record : Value

def WriteOp.key (write : WriteOp) : Key := recordKey write.collection write.rkey

/-- An operation as the commit event tells it. -/
structure CommitOp where
  action : WriteAction
  path : Key
  cid : Option Cid
  deriving DecidableEq

/-- The values that are false as a condition. -/
def isFalsy : Value → Bool
  | .null | .undefined | .bool false | .int 0 => true
  | .text s => s = ""
  | _ => false

/-- What a write gives, or all of them: the result, the tree after it, and the blocks
    it puts, also when it throws. -/
structure WriteOutcome (α : Type) where
  result : Except RepoError α
  mst : Mst
  puts : List (Cid × Bytes)

def applyWrite (mst : Mst) (write : WriteOp) : WriteOutcome CommitOp :=
  let key := write.key
  match write.action with
  | .delete =>
    match mst.get key with
    | none => ⟨.error (.xrpc .RecordNotFound ("record not found: " ++ key.str)), mst, []⟩
    | some _ =>
      let out := mst.delete key
      ⟨(out.result.mapError .error).map fun _ => ⟨.delete, key, none⟩, out.mst, out.puts⟩
  | action =>
    if isFalsy write.record then
      ⟨.error (.xrpc .InvalidRequest ("record is required for " ++ action.toString)), mst, []⟩
    else
      match Cbor.encode write.record with
      | .error e => ⟨.error (.error e), mst, []⟩
      | .ok recordBytes =>
        let recordCid := cidForBytes recordBytes
        let existing := mst.get key
        let out := mst.set key recordCid
        ⟨(out.result.mapError .error).map fun _ =>
            ⟨if existing.isSome then .update else .create, key, some recordCid⟩,
          out.mst, (recordCid, recordBytes) :: out.puts⟩

/-- The loop over the writes, up to one that throws. -/
def applyAll (mst : Mst) : List WriteOp → WriteOutcome (List CommitOp)
  | [] => ⟨.ok [], mst, []⟩
  | write :: writes =>
    let out := applyWrite mst write
    match out.result with
    | .error e => ⟨.error e, out.mst, out.puts⟩
    | .ok op =>
      let rest := applyAll out.mst writes
      ⟨rest.result.map (op :: ·), rest.mst, out.puts ++ rest.puts⟩

/-- The root at the head, if there is one. -/
def headRoot (store : BlockStore) : Option Head → Except String (Option Cid)
  | none => .ok none
  | some head => getMstRoot store head.commit

/-- The root at the head, and its tree. -/
def openMst (store : BlockStore) (head : Option Head) : Except String (Option Cid × Mst) := do
  let prevRoot ← headRoot store head
  return (prevRoot, ← (Mst.createMst prevRoot).init store)

/-- An empty node, so that the commit of an empty tree has a root. -/
def emptyBlock : Bytes :=
  Cbor.writeHeader Cbor.MAJOR_MAP 1 ++ Cbor.encodeText "e" ++ Cbor.writeHeader Cbor.MAJOR_ARRAY 0

/-- It is the encoding of `{ e: [] }`. -/
example : Cbor.encode (.object [("e", .array [])]) = .ok emptyBlock := by decide +kernel

def emptyRoot : Cid := cidForBytes emptyBlock

/-- The root to commit, and the blocks it puts. -/
def commitRoot : Option Cid → Cid × List (Cid × Bytes)
  | some root => (root, [])
  | none => (emptyRoot, [(emptyRoot, emptyBlock)])

/-- The CIDs of the nodes under a root, added to those met before; `fuel` bounds the
    depth. -/
def collectCids (store : BlockStore) : ℕ → List Cid → Cid → Except String (List Cid)
  | 0, _, _ => .error "Maximum call stack size exceeded"
  | fuel + 1, met, cid =>
    if cid ∈ met then .ok met
    else
      match store.get cid with
      | none => .ok (met ++ [cid])
      | some bytes => do
        let data ← decodeNodeData bytes
        (data.l.toList ++ data.e.filterMap TreeNodeEntry.t).foldlM (collectCids store fuel)
          (met ++ [cid])

/-- The nodes of the new tree that are not in the old one. A node that is met on its own
    path is not entered again, so that the blocks bound the depth. -/
def diff (store : BlockStore) (oldRoot newRoot : Option Cid) : Except String (List Cid) := do
  let oldCids ← oldRoot.toList.foldlM (collectCids store (store.length + 2)) []
  let newCids ← newRoot.toList.foldlM (collectCids store (store.length + 2)) []
  return newCids.filter (· ∉ oldCids)

/-- An unsigned varint, with the 32-bit shift of the loop. -/
def varintEncode (n : ℕ) : Bytes :=
  if n > 0x7f then (n % 0x80 + 0x80).toUInt8 :: varintEncode (n % 0x100000000 / 0x80)
  else [n.toUInt8]
termination_by n
decreasing_by omega

/-- A minimal CARv1 with just the named blocks. -/
def buildCarSlice (store : BlockStore) (cids : List Cid) : Except String Bytes := do
  let header ← Cbor.encode (.object [("roots", .array []), ("version", .int 1)])
  let parts := cids.flatMap fun cid =>
    match store.get cid with
    | none => []
    | some block => varintEncode (cid.bytes.length + block.length) ++ cid.bytes ++ block
  return varintEncode header.length ++ header ++ parts

/-- A repository: its DID, a plain text, and the signer, whose signatures are short. -/
structure Repo where
  did : String
  sign : Bytes → Except String Bytes
  did_plain : Cbor.plainText did
  length_sign : ∀ {bytes sig}, sign bytes = .ok sig → sig.length < 2 ^ 31

/-- The CAR slice of a commit, and the block of the signed commit. -/
def sealCommit (repo : Repo) (store : BlockStore) (prevRoot : Option Cid) (commit : CommitData) :
    Except String (Bytes × Bytes) := do
  let changedCids ← diff store prevRoot (some commit.data)
  let carBlocks ← buildCarSlice store changedCids
  let sig ← repo.sign (← Cbor.encode (.object (commitToObj commit)))
  return (carBlocks, ← encodeCommit commit sig)

/-- Produced by the repository when the writes succeed. -/
structure CommitEvent where
  repo : String
  commit : Cid
  rev : Tid
  /-- The rev before, if there was one. -/
  since : Option Tid
  /-- The new blocks of this commit. -/
  blocks : Bytes
  ops : List CommitOp

/-- Apply a batch of writes; `rev` is what `nextTid()` gives. -/
def applyWrites (repo : Repo) (rev : Tid) (did : String) (writes : List WriteOp)
    (storage : Storage) : Except RepoError CommitEvent × Storage :=
  if did ≠ repo.did then
    (.error (.xrpc .InvalidRequest ("DID mismatch: expected " ++ repo.did)), storage)
  else
    let head := storage.getHead did
    match openMst storage.blocks head with
    | .error e => (.error (.error e), storage)
    | .ok (prevRoot, mst) =>
      let out := applyAll mst writes
      let blocks := storage.blocks.putAll out.puts
      match out.result with
      | .error e => (.error e, { storage with blocks })
      | .ok ops =>
        let root := commitRoot out.mst.root
        let blocks := blocks.putAll root.2
        match sealCommit repo blocks prevRoot ⟨did, 3, root.1, rev, head.map Head.commit⟩ with
        | .error e => (.error (.error e), { storage with blocks })
        | .ok (carBlocks, commitBytes) =>
          let commitCid := cidForBytes commitBytes
          (.ok ⟨did, commitCid, rev, head.map Head.rev, carBlocks, ops⟩,
            { blocks := blocks.putAll [(commitCid, commitBytes)]
              heads := AssocList.set did ⟨commitCid, rev⟩ storage.heads })

end ComputeContract
