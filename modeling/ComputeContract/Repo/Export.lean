import Mathlib.Logic.Relation
import ComputeContract.Repo.Car
import ComputeContract.Repo.Chain

/-!
# The export of a repository

A repository is exported from a commit as the blocks that are collected from it. Of a block the
links of a tree node are followed; those of a commit have other names, so that a commit is
exported alone.

* `Reachable`: the blocks of the repository at a commit;
* `importCar_exportCar`: the commit is all that comes back;
* `carRoundTrips_iff`: the round trip holds only where there is no commit to export.
-/

namespace ComputeContract

/-! ## What a repository is -/

section
variable (store : BlockStore)

/-- The subtrees of the node at a CID. -/
def IsChild (cid child : Cid) : Prop :=
  ∃ bytes data, store.get cid = some bytes ∧ decodeNodeData bytes = .ok data ∧
    child ∈ data.l.toList ++ data.e.filterMap TreeNodeEntry.t

/-- The records of the node at a CID. -/
def IsValue (cid value : Cid) : Prop :=
  ∃ bytes data, store.get cid = some bytes ∧ decodeNodeData bytes = .ok data ∧
    value ∈ data.e.map TreeNodeEntry.v

/-- A commit, the nodes of its tree and their records. -/
inductive Reachable (commit : Cid) : Cid → Prop
  | commit : Reachable commit commit
  | node {root cid : Cid} (hroot : getMstRoot store commit = .ok (some root))
      (hnode : Relation.ReflTransGen (IsChild store) root cid) : Reachable commit cid
  | value {root cid value : Cid} (hroot : getMstRoot store commit = .ok (some root))
      (hnode : Relation.ReflTransGen (IsChild store) root cid) (hvalue : IsValue store cid value) :
      Reachable commit value

/-- A file is read, with these roots and blocks. -/
def Imports (car : Bytes) (file : List Cid × List (Cid × Bytes)) : Prop :=
  ∃ n, ∀ fuel, n ≤ fuel → importCar fuel car = some (.ok file)

/-- The tree at a head, opened. -/
def openedEntries (head : Head) : Except String (Option (List (Key × Cid))) :=
  (headMst store head).map fun mst => mst.map Mst.entries

/-- The export from `part`, which holds some of the blocks of the repository in `store`: all of
    them come back, or it throws. -/
structure CarRoundTrips (part : BlockStore) (head : Head) : Prop where
  whole : (∀ cid, Reachable store head.commit cid → (part.get cid).isSome) →
    ∃ car blocks, exportCar part head.commit = .ok car ∧ Imports car ([head.commit], blocks) ∧
      (AssocList.keys blocks).Nodup ∧
      (∀ cid, cid ∈ AssocList.keys blocks ↔ Reachable store head.commit cid) ∧
      (∀ block ∈ blocks, store.get block.1 = some block.2) ∧
      openedEntries blocks head = openedEntries store head
  missing : (∃ cid, Reachable store head.commit cid ∧ part.get cid = none) →
    ∃ e, exportCar part head.commit = .error e

end

/-! ## The export of a commit -/

variable {store part : BlockStore} {cid : Cid} {commit : CommitData} {sig bytes : Bytes}
  {head : Head} {m : List (Key × Cid)}

namespace CommitBlock

variable (h : CommitBlock commit sig bytes)
include h

theorem no_links : ∃ fields, Cbor.decode bytes = .ok (.object fields) ∧ fields.lookup "l" = none ∧
    fields.lookup "e" = none := by
  obtain ⟨hdecode, hnodup⟩ := h.decode
  refine ⟨_, hdecode, ?_, ?_⟩ <;>
  · rw [Cbor.lookup_sortKeys hnodup]
    obtain ⟨did, version, data, rev, prev⟩ := commit
    cases prev <;> rfl

theorem getMstRoot (hget : store.get cid = some bytes) :
    getMstRoot store cid = .ok (some commit.data) := by
  obtain ⟨decoded, hdecode, hdata, -⟩ := h.decodeCommit
  rw [ComputeContract.getMstRoot, hget]
  dsimp only
  rw [hdecode, ← hdata]
  rfl

/-- A commit has no link of the names that are followed. -/
theorem childLinks : childLinks bytes = [] := by
  obtain ⟨fields, hdecode, hl, he⟩ := h.no_links
  rw [ComputeContract.childLinks, hdecode]
  dsimp only
  rw [Value.get?, Value.get?, hl, he]
  rfl

/-- As a tree node, it would be empty. -/
theorem decodeNodeData : decodeNodeData bytes = .ok ⟨none, []⟩ := by
  obtain ⟨fields, hdecode, hl, he⟩ := h.no_links
  rw [ComputeContract.decodeNodeData, hdecode, ok_bind, Value.get?, Value.get?, hl, he]
  rfl

theorem exportCar (hget : part.get cid = some bytes) :
    exportCar part cid = carOf [cid] [(cid, bytes)] := by
  have hcollect : collectAllBlocks part (part.length + 2) [] cid = (.ok [(cid, bytes)], [cid]) := by
    rw [collectAllBlocks, if_neg List.not_mem_nil, hget]
    dsimp only
    rw [h.childLinks]
    rfl
  rw [ComputeContract.exportCar, hcollect]
  rfl

end CommitBlock

theorem length_writeHeader_le (major value : ℕ) : (Cbor.writeHeader major value).length ≤ 9 := by
  rw [Cbor.writeHeader]
  split_ifs <;> simp [length_bigEndian]

theorem encode_carHeader_singleton (root : Cid) : ∃ header,
    Cbor.encode (carHeader [root]) = .ok header ∧ header.length =
      (Cbor.writeHeader Cbor.MAJOR_BYTES root.bytes.length).length + root.bytes.length + 17 := by
  let roots := Cbor.writeHeader Cbor.MAJOR_BYTES root.bytes.length ++ root.bytes ++ []
  have hheader : Cbor.encode (carHeader [root]) = .ok (Cbor.writeHeader Cbor.MAJOR_MAP 2 ++
      (Cbor.encodeText "roots" ++ (Cbor.writeHeader Cbor.MAJOR_ARRAY 1 ++ roots) ++
        (Cbor.encodeText "version" ++ Cbor.writeHeader Cbor.MAJOR_UINT 1 ++ []))) := rfl
  refine ⟨_, hheader, ?_⟩
  have hmap : (Cbor.writeHeader Cbor.MAJOR_MAP 2).length = 1 := rfl
  have hroots : (Cbor.encodeText "roots").length = 6 := rfl
  have harray : (Cbor.writeHeader Cbor.MAJOR_ARRAY 1).length = 1 := rfl
  have hversion : (Cbor.encodeText "version").length = 8 := rfl
  have huint : (Cbor.writeHeader Cbor.MAJOR_UINT 1).length = 1 := rfl
  simp only [roots, List.length_append, List.length_nil]
  omega

theorem exportCar_of_none (hnone : part.get cid = none) :
    exportCar part cid = .error s!"CAR: block not found: {cid.toString}" := by
  have hcollect : collectAllBlocks part (part.length + 2) [] cid =
      (.error s!"CAR: block not found: {cid.toString}", [cid]) := by
    rw [collectAllBlocks, if_neg List.not_mem_nil, hnone]
    rfl
  rw [exportCar, hcollect]
  rfl

theorem Imports.unique {car : Bytes} {file file' : List Cid × List (Cid × Bytes)}
    (h : Imports car file) (h' : Imports car file') : file = file' := by
  obtain ⟨n, h⟩ := h
  obtain ⟨n', h'⟩ := h'
  exact Except.ok.inj (Option.some.inj
    ((h (max n n') (le_max_left ..)).symm.trans (h' _ (le_max_right ..))))

/-- The commit is all that comes back. -/
theorem importCar_exportCar (h : CommitBlock commit sig bytes) (hshort : ShortBlock (cid, bytes))
    (hget : part.get cid = some bytes) :
    ∃ car, exportCar part cid = .ok car ∧ Imports car ([cid], [(cid, bytes)]) := by
  obtain ⟨header, hheader, hlen⟩ := encode_carHeader_singleton cid
  have hbytes := length_writeHeader_le Cbor.MAJOR_BYTES cid.bytes.length
  have hcid := hshort.cid
  have hcar : carOf [cid] [(cid, bytes)] = .ok (varintEncode header.length ++ header ++
      [(cid, bytes)].flatMap carBlock) := by
    rw [carOf, hheader]
    rfl
  refine ⟨_, (h.exportCar hget).trans hcar, 2, fun fuel hfuel => ?_⟩
  refine importCar_carOf (by rw [List.length_singleton]; decide) (List.forall_mem_singleton.2 hcid) hheader ?_
    (List.forall_mem_singleton.2 hshort) hcar hfuel
  dsimp only at hcid
  have hlength : CIDV1_LEN = 36 := rfl
  omega

/-! ## The root of the tree -/

/-- The root of a tree that is stored is not the commit. -/
theorem OpenAt.root_ne {root : Option Cid} {mst : Mst} {tree : MstNode} {empty : Option Cid}
    (h : OpenAt store (some head) root mst tree empty m)
    (hblock : CommitBlock commit sig bytes)
    (hget : store.get head.commit = some bytes) : root ≠ some head.commit := by
  rintro rfl
  have hload : loadTree store (store.length + 1) head.commit = .ok (MstNode.mk 0 none []).reload := by
    rw [loadTree, hget]
    dsimp only
    rw [hblock.decodeNodeData, ok_bind]
    rfl
  have hinit : (Mst.createMst (some head.commit)).init store =
      .ok ⟨some head.commit, some (MstNode.mk 0 none []).reload, []⟩ := by
    rw [Mst.init, Mst.createMst]
    dsimp only
    rw [hload]
    rfl
  obtain rfl : _ = mst := Except.ok.inj (hinit.symm.trans h.init_eq)
  obtain rfl : _ = tree := Option.some.inj h.held.tree_eq
  obtain rfl : [] = m := h.held.leaves
  -- Only the empty node opens to an empty tree, and its entries are there.
  rcases h.held.root_nil rfl with hnone | hempty
  · cases hnone
  · obtain ⟨hroot, hstored⟩ := h.emptyStored _ hempty.symm
    rw [← hroot, hget] at hstored
    obtain rfl : bytes = emptyBlock := Option.some.inj hstored
    obtain ⟨fields, hdecode, -, he⟩ := hblock.no_links
    have hfields : Cbor.decode emptyBlock = .ok (.object [("e", .array [])]) := rfl
    rw [hfields] at hdecode
    cases hdecode
    cases he

/-! ## The round trip -/

/-- What is exported from a commit that is there is not the repository. -/
theorem not_carRoundTrips_of_get (hstored : HeadStored store (some head) m)
    (hblock : CommitBlock commit sig bytes) (hshort : ShortBlock (head.commit, bytes))
    (hget : store.get head.commit = some bytes) (hpart : part.get head.commit = some bytes) :
    ¬ CarRoundTrips store part head := by
  intro h
  obtain ⟨root, mst, tree, empty, hopen⟩ := hstored
  obtain ⟨car, hexport, himport⟩ := importCar_exportCar hblock hshort hpart
  by_cases hall : ∀ cid, Reachable store head.commit cid → (part.get cid).isSome
  · obtain ⟨car', blocks, hexport', himport', -, hkeys, -, -⟩ := h.whole hall
    obtain rfl : car = car' := Except.ok.inj (hexport.symm.trans hexport')
    obtain rfl : [(head.commit, bytes)] = blocks := (Prod.mk.inj (himport.unique himport')).2
    -- The root of the tree is reachable, and did not come back.
    have hroot := hblock.getMstRoot hget
    have hmem : commit.data ∈ AssocList.keys [(head.commit, bytes)] :=
      (hkeys _).2 (.node hroot .refl)
    have hdata : root = some commit.data := Except.ok.inj (hopen.root_eq.symm.trans hroot)
    exact hopen.root_ne hblock hget (hdata.trans (congrArg some (List.mem_singleton.1 hmem)))
  · obtain ⟨cid, hall⟩ := not_forall.1 hall
    obtain ⟨hcid, hnone⟩ := Classical.not_imp.1 hall
    obtain ⟨e, herror⟩ := h.missing ⟨cid, hcid, Option.not_isSome_iff_eq_none.1 hnone⟩
    rw [hexport] at herror
    cases herror

/-- The export of a commit comes back whole only where the commit is not there, and nothing can. -/
theorem carRoundTrips_iff (hstored : HeadStored store (some head) m)
    (hblock : CommitBlock commit sig bytes) (hshort : ShortBlock (head.commit, bytes))
    (hget : store.get head.commit = some bytes)
    (hpart : ∀ cid bytes, part.get cid = some bytes → store.get cid = some bytes) :
    CarRoundTrips store part head ↔ part.get head.commit = none := by
  constructor
  · intro h
    by_contra hne
    obtain ⟨bytes', hget'⟩ := Option.ne_none_iff_exists'.1 hne
    obtain rfl : bytes = bytes' := Option.some.inj (hget.symm.trans (hpart _ _ hget'))
    exact not_carRoundTrips_of_get hstored hblock hshort hget hget' h
  · intro hnone
    refine ⟨fun hall => ?_, fun _ => ⟨_, exportCar_of_none hnone⟩⟩
    have hcommit := hall head.commit .commit
    rw [hnone] at hcommit
    cases hcommit

/-! ## A repository with one record -/

def sampleStorage : Storage :=
  (Process.start.step 7
    (.call sampleRepo "did:plc:abc" [⟨.create, "a", "0", .text "one"⟩] 1700000000000000)).storage

theorem sample_stored : ∃ head m commit sig bytes,
    sampleStorage.getHead "did:plc:abc" = some head ∧
      HeadStored sampleStorage.blocks (some head) m ∧ CommitBlock commit sig bytes ∧
      ShortBlock (head.commit, bytes) ∧ sampleStorage.blocks.get head.commit = some bytes := by
  let writes : List WriteOp := [⟨.create, "a", "0", .text "one"⟩]
  let call := Process.start.callOf 7 sampleRepo "did:plc:abc" writes 1700000000000000
  have hinv : (Process.start.step 7 (.call sampleRepo "did:plc:abc" writes 1700000000000000)).Inv 7 :=
    inv_step (inv_start 7) ⟨by decide, by decide +kernel⟩
  have hstorage : sampleStorage = call.apply ⟨[], []⟩ := storage_step ..
  have hcommitted := hinv.linked "did:plc:abc"
  cases hmade : (Process.start.step 7
      (.call sampleRepo "did:plc:abc" writes 1700000000000000)).madeOn "did:plc:abc" with
  | nil =>
    have hone : ((Process.start.step 7
      (.call sampleRepo "did:plc:abc" writes 1700000000000000)).madeOn "did:plc:abc").length = 1 := by
      decide +kernel
    rw [hmade] at hone
    cases hone
  | cons made rest =>
    rw [hmade] at hcommitted
    obtain ⟨hhead, commit, sig, bytes, -, hget, hvalid, hblock, -⟩ := hcommitted
    have hatomic : Atomic ⟨[], []⟩ call ∧ AllStored (call.apply ⟨[], []⟩) :=
      call_atomic allStored_empty (by decide +kernel) (by decide +kernel)
    obtain ⟨m, hstored⟩ := hatomic.2 "did:plc:abc"
    rw [← hstorage] at hstored
    have hhead : sampleStorage.getHead "did:plc:abc" = _ := hhead
    rw [hhead] at hstored
    have hshort : ∀ block ∈ sampleStorage.blocks, CIDV1_LEN + block.2.length < 2 ^ 31 := by
      decide +kernel
    exact ⟨_, m, commit, sig, bytes, hhead, hstored, hblock,
      ⟨length_of_isValidCid hvalid, hshort (_, bytes) (AssocList.mem_of_lookup hget)⟩, hget⟩

theorem carRoundTrips_iff_sample : ∃ head, sampleStorage.getHead "did:plc:abc" = some head ∧
    (CarRoundTrips sampleStorage.blocks sampleStorage.blocks head ↔
      sampleStorage.blocks.get head.commit = none) := by
  obtain ⟨head, m, commit, sig, bytes, hhead, hstored, hblock, hshort, hget⟩ := sample_stored
  exact ⟨head, hhead, carRoundTrips_iff hstored hblock hshort hget fun _ _ h => h⟩

/-- The repository is there in full, and its export does not come back. -/
theorem not_carRoundTrips : ∃ head m, HeadStored sampleStorage.blocks (some head) m ∧
    ¬ CarRoundTrips sampleStorage.blocks sampleStorage.blocks head := by
  obtain ⟨head, m, commit, sig, bytes, -, hstored, hblock, hshort, hget⟩ := sample_stored
  exact ⟨head, m, hstored, not_carRoundTrips_of_get hstored hblock hshort hget hget⟩

end ComputeContract
