import ComputeContract.Mst.Reopen
import ComputeContract.Repo.Store

/-!
# Batches

A batch is a fold: of its writes over the records, and of its operations over the
entries of the tree.

* `recordAt_foldl`: what is read after stored writes.
* `foldl_of_tells`: what the operations of a batch tell of its writes.
* `applyAll_ok`: a batch that succeeds takes every write into the tree.
-/

namespace ComputeContract

open MstNode AssocList

/-! ## Paths -/

/-- A valid path has one slash, so that it tells the collection from the record key. -/
theorem recordKey_inj {collection rkey collection' rkey' : String}
    (hvalid : isValidMstKey (recordKey collection rkey))
    (h : recordKey collection' rkey' = recordKey collection rkey) :
    collection' = collection ∧ rkey' = rkey := by
  have hlist : ∀ c r : String, (recordKey c r).str.toList = c.toList ++ '/' :: r.toList := by
    intro c r
    rw [recordKey]
    simp
  -- Each side of the slash is one part.
  have hone : ∀ {cs : List Char}, '/' ∈ cs → 1 < (cs.splitOn '/').length := by
    intro cs hc
    obtain ⟨as, bs, rfl⟩ := List.append_of_mem hc
    have ha := List.length_pos_iff.2 (List.splitOn_ne_nil '/' as)
    have hb := List.length_pos_iff.2 (List.splitOn_ne_nil '/' bs)
    rw [List.splitOn_append_cons_self, List.length_append]
    omega
  have hparts : ((recordKey collection rkey).str.toList.splitOn '/').length = 2 := by
    simp only [isValidMstKey, decide_eq_true_eq] at hvalid
    exact hvalid.2.2.1
  have hc := List.length_pos_iff.2 (List.splitOn_ne_nil '/' collection.toList)
  have hr := List.length_pos_iff.2 (List.splitOn_ne_nil '/' rkey.toList)
  rw [hlist, List.splitOn_append_cons_self, List.length_append] at hparts
  have hnc : '/' ∉ collection.toList := fun hmem => by
    have := hone hmem
    omega
  have hnr : '/' ∉ rkey.toList := fun hmem => by
    have := hone hmem
    omega
  have heq := congrArg (fun key => key.str.toList) h
  simp only [hlist] at heq
  obtain ⟨h₁, _, h₂⟩ := (List.append_cons_inj_of_notMem hnc hnr).1 heq.symm
  exact ⟨String.toList_injective h₁.symm, String.toList_injective h₂.symm⟩

/-! ## What a batch means -/

/-- The block of the record that a write stores. -/
def WriteOp.block (write : WriteOp) : Option (Cid × Bytes) :=
  match write.action with
  | .delete => none
  | _ => (Cbor.encode write.record).toOption.map fun bytes => (cidForBytes bytes, bytes)

/-- A write on the entries of the tree. -/
def WriteOp.applyTo (m : List (Key × Cid)) (write : WriteOp) : List (Key × Cid) :=
  match write.block with
  | some block => insertKey write.key block.1 m
  | none => erase write.key m

/-- The record that a write leaves at its path. -/
def WriteOp.stored (did : String) (write : WriteOp) : Option RepoRecord :=
  write.block.map fun block => ⟨recordUri did write.key, block.1, Cbor.canon write.record⟩

/-- A write on the records. -/
def WriteOp.applyToRecords (did : String)
    (records : String → String → Except String (Option RepoRecord)) (write : WriteOp) :
    String → String → Except String (Option RepoRecord) := fun collection rkey =>
  if collection = write.collection ∧ rkey = write.rkey then .ok (write.stored did)
  else records collection rkey

/-- An operation on the entries, from its path to its CID or `null`. -/
def CommitOp.applyTo (m : List (Key × Cid)) (op : CommitOp) : List (Key × Cid) :=
  match op.cid with
  | some cid => insertKey op.path cid m
  | none => erase op.path m

/-- The operation tells what the write did. -/
structure CommitOp.Tells (op : CommitOp) (write : WriteOp) : Prop where
  path : op.path = write.key
  cid : op.cid = write.block.map Prod.fst

theorem CommitOp.Tells.applyTo {op : CommitOp} {write : WriteOp} (h : op.Tells write)
    (m : List (Key × Cid)) : op.applyTo m = write.applyTo m := by
  rw [CommitOp.applyTo, WriteOp.applyTo, h.path, h.cid]
  cases write.block <;> rfl

/-- Replaying the operations is folding the writes. -/
theorem foldl_of_tells {ops : List CommitOp} {writes : List WriteOp}
    (h : List.Forall₂ CommitOp.Tells ops writes) (m : List (Key × Cid)) :
    ops.foldl CommitOp.applyTo m = writes.foldl WriteOp.applyTo m := by
  induction h generalizing m with
  | nil => rfl
  | cons hop _ ih => rw [List.foldl_cons, List.foldl_cons, hop.applyTo, ih]

/-- The write is in the store, at a valid path, and its record comes back. -/
structure WriteOp.Stored (store : BlockStore) (write : WriteOp) : Prop where
  valid : isValidMstKey write.key
  block : ∀ b ∈ write.block, store.get b.1 = some b.2
  plain : ∀ b ∈ write.block, Cbor.plain write.record

theorem WriteOp.decode_block {write : WriteOp} {b : Cid × Bytes} (hb : b ∈ write.block)
    (hplain : Cbor.plain write.record) : Cbor.decode b.2 = .ok (Cbor.canon write.record) := by
  obtain ⟨out, hout, hdec⟩ := Cbor.decode_encode hplain
  rw [WriteOp.block] at hb
  split at hb
  · cases hb
  · rw [hout] at hb
    cases hb
    exact hdec

/-- Reading after a stored write. -/
theorem WriteOp.Stored.recordAt {store : BlockStore} {write : WriteOp} (h : write.Stored store)
    (did : String) (m : List (Key × Cid)) :
    recordAt store did (write.applyTo m) = write.applyToRecords did (recordAt store did m) := by
  funext collection rkey
  rw [WriteOp.applyToRecords]
  by_cases hpath : collection = write.collection ∧ rkey = write.rkey
  · obtain ⟨rfl, rfl⟩ := hpath
    rw [if_pos ⟨rfl, rfl⟩, ComputeContract.recordAt, WriteOp.stored, WriteOp.applyTo, WriteOp.key]
    cases hb : write.block with
    | none => simp only [lookup_erase, if_pos, Option.map_none]
    | some b =>
      simp only [lookup_insertKey, if_pos, Option.map_some]
      rw [readRecord, h.block b hb]
      dsimp only
      rw [write.decode_block hb (h.plain b hb)]
      rfl
  · have hne : recordKey collection rkey ≠ write.key := fun heq =>
      hpath (recordKey_inj h.valid heq)
    rw [if_neg hpath, ComputeContract.recordAt, ComputeContract.recordAt, WriteOp.applyTo]
    cases write.block with
    | none => simp only [lookup_erase, if_neg hne]
    | some b => simp only [lookup_insertKey, if_neg hne]

/-- Reading after stored writes. -/
theorem recordAt_foldl {store : BlockStore} {writes : List WriteOp}
    (h : ∀ write ∈ writes, write.Stored store) (did : String) (m : List (Key × Cid)) :
    recordAt store did (writes.foldl WriteOp.applyTo m) =
      writes.foldl (WriteOp.applyToRecords did) (recordAt store did m) := by
  induction writes generalizing m with
  | nil => rfl
  | cons write writes ih =>
    rw [List.forall_mem_cons] at h
    rw [List.foldl_cons, List.foldl_cons, ih h.2, h.1.recordAt]

/-- The entries after writes are those before, or of the blocks of the writes. -/
theorem mem_foldl_applyTo {writes : List WriteOp} {m : List (Key × Cid)} {e : Key × Cid}
    (he : e ∈ writes.foldl WriteOp.applyTo m) :
    e ∈ m ∨ ∃ write ∈ writes, ∃ b ∈ write.block, b.1 = e.2 := by
  induction writes generalizing m with
  | nil => exact .inl he
  | cons write writes ih =>
    rcases ih he with he | ⟨w, hw, hb⟩
    · rw [WriteOp.applyTo] at he
      cases hb : write.block with
      | none =>
        rw [hb] at he
        exact .inl (List.mem_filter.1 he).1
      | some b =>
        rw [hb] at he
        rcases List.mem_append.1 he with he | he
        · exact .inl (List.mem_filter.1 he).1
        · rcases List.mem_cons.1 he with rfl | he
          · exact .inr ⟨write, List.mem_cons_self, b, hb, rfl⟩
          · exact .inl (List.mem_filter.1 he).1
    · exact .inr ⟨w, List.mem_cons_of_mem _ hw, hb⟩

theorem length_foldl_applyTo (writes : List WriteOp) (m : List (Key × Cid)) :
    (writes.foldl WriteOp.applyTo m).length ≤ m.length + writes.length := by
  induction writes generalizing m with
  | nil => exact le_rfl
  | cons write writes ih =>
    have hstep : (write.applyTo m).length ≤ m.length + 1 := by
      rw [WriteOp.applyTo]
      cases write.block with
      | none => exact (List.length_filter_le _ _).trans (Nat.le_succ _)
      | some b => exact length_insertKey_le _ _ _
    have hrest := ih (write.applyTo m)
    rw [List.foldl_cons, List.length_cons]
    omega

/-! ## In memory -/

/-- A delete of what is there joins its neighbours; a record that is encoded comes back
    from its encoding. -/
def writeOk (mst : Mst) (write : WriteOp) : Bool :=
  match write.action with
  | .delete => (mst.get write.key).isNone || mst.tree.all fun tree => tree.canDelete write.key
  | _ => (Cbor.encode write.record).toOption.isNone || Cbor.plain write.record

/-- Every write of a batch is `writeOk` where it is taken. -/
def batchOk (mst : Mst) : List WriteOp → Bool
  | [] => true
  | write :: writes => writeOk mst write &&
    match (applyWrite mst write).result with
    | .ok _ => batchOk (applyWrite mst write).mst writes
    | .error _ => true

/-- The blocks of the trees along a batch. -/
def batchBlocks (mst : Mst) : List WriteOp → List (Cid × Bytes)
  | [] => mst.blocks
  | write :: writes => mst.blocks ++ batchBlocks (applyWrite mst write).mst writes

variable {store : BlockStore} {mst : Mst} {tree : MstNode} {empty : Option Cid}
  {m : List (Key × Cid)}

theorem blocks_subset_batchBlocks (mst : Mst) (writes : List WriteOp) :
    ∀ b ∈ mst.blocks, b ∈ batchBlocks mst writes := fun b hb => by
  cases writes with
  | nil => exact hb
  | cons write writes => exact List.mem_append_left _ hb

theorem BlockStore.putAll_append (store : BlockStore) (puts puts' : List (Cid × Bytes)) :
    store.putAll (puts ++ puts') = (store.putAll puts).putAll puts' := by
  rw [BlockStore.putAll, BlockStore.putAll, BlockStore.putAll, List.reverse_append,
    List.append_assoc]

/-- Both ways of setting a key check it first. -/
theorem valid_of_set {key : Key} {value : Cid} {root : Option Cid}
    (h : (mst.set key value).result = .ok root) : isValidMstKey key := by
  rw [Mst.set] at h
  split at h
  · cases h
  · rename_i tree _
    by_contra hkey
    have hensure : ensureValidMstKey key = .error s!"Not a valid MST key: {key.str}" := by
      rw [ensureValidMstKey, if_neg hkey]
    have herror : (if (mst.all.lookup key).isSome then tree.update key value
        else tree.add key value (leadingZerosOnHash key)) =
        .error s!"Not a valid MST key: {key.str}" := by
      split_ifs
      · rw [update, hensure]
        rfl
      · rw [add, hensure]
        rfl
    dsimp only at h
    rw [herror] at h
    cases h

/-- A block of a tree is not the empty node. -/
theorem ne_empty_of_mem_blocks {D : Discipline} (h : WF D tree) (hempty : EmptyStored store empty)
    {bs : List (Cid × Bytes)} (hfree : CollisionFree (store ++ bs)) {b : Cid × Bytes}
    (hb : b ∈ tree.blocks) (hbs : b ∈ bs) : empty ≠ some b.1 := by
  intro he
  obtain ⟨hroot, hget⟩ := hempty _ he
  have hbytes : emptyBlock = b.2 :=
    hfree _ (List.mem_append_left _ (mem_of_lookup hget)) b (List.mem_append_right _ hbs) hroot.symm
  obtain ⟨n, hn, rfl⟩ := mem_blocks.1 hb
  obtain ⟨_, _, _, _, _, rest, hblock⟩ := (h.of_mem_nodes hn).entriesOk.blockOf_eq
  obtain ⟨_, _, _⟩ := n
  -- It is a map of one entry, and not of two.
  have hhead := congrArg List.head? hbytes
  rw [entries_mk] at hblock
  dsimp only at hhead
  rw [block, hblock, emptyBlock, show Cbor.writeHeader Cbor.MAJOR_MAP 2 = [162] from rfl,
    show Cbor.writeHeader Cbor.MAJOR_MAP 1 = [161] from rfl] at hhead
  simp at hhead

/-- What a write does that succeeds. -/
structure Written (store : BlockStore) (mst : Mst) (empty : Option Cid) (m : List (Key × Cid))
    (write : WriteOp) (op : CommitOp) : Prop where
  tells : op.Tells write
  valid : isValidMstKey write.key
  puts : ∀ b ∈ write.block, b ∈ (applyWrite mst write).puts
  held : ∃ tree, Held loose empty
    ⟨store.putAll (applyWrite mst write).puts, (applyWrite mst write).mst⟩ tree (write.applyTo m)

/-- What a create or an update runs that succeeds. -/
theorem applyWrite_of_set {write : WriteOp} (haction : write.action ≠ .delete) {op : CommitOp}
    (hres : (applyWrite mst write).result = .ok op) :
    ∃ recordBytes, Cbor.encode write.record = .ok recordBytes ∧
      write.block = some (cidForBytes recordBytes, recordBytes) ∧
      applyWrite mst write =
        let out := mst.set write.key (cidForBytes recordBytes)
        ⟨(out.result.mapError .error).map fun _ =>
            ⟨if (mst.get write.key).isSome then .update else .create, write.key,
              some (cidForBytes recordBytes)⟩,
          out.mst, (cidForBytes recordBytes, recordBytes) :: out.puts⟩ := by
  have happly : ∃ recordBytes, Cbor.encode write.record = .ok recordBytes ∧
      applyWrite mst write =
        let out := mst.set write.key (cidForBytes recordBytes)
        ⟨(out.result.mapError .error).map fun _ =>
            ⟨if (mst.get write.key).isSome then .update else .create, write.key,
              some (cidForBytes recordBytes)⟩,
          out.mst, (cidForBytes recordBytes, recordBytes) :: out.puts⟩ := by
    rw [applyWrite] at hres ⊢
    cases ha : write.action with
    | delete => exact absurd ha haction
    | _ =>
      rw [ha] at hres
      dsimp only at hres ⊢
      split at hres
      · cases hres
      · cases he : Cbor.encode write.record with
        | error e =>
          rw [he] at hres
          cases hres
        | ok recordBytes => exact ⟨recordBytes, rfl, by rw [if_neg ‹_›]⟩
  obtain ⟨recordBytes, henc, happly⟩ := happly
  refine ⟨recordBytes, henc, ?_, happly⟩
  rw [WriteOp.block]
  split
  · exact absurd ‹_› haction
  · rw [henc]
    rfl

/-- A create or an update that succeeds. -/
theorem written_of_set (h : Held loose empty ⟨store, mst⟩ tree m) {write : WriteOp}
    (haction : write.action ≠ .delete) {op : CommitOp} (hres : (applyWrite mst write).result = .ok op)
    (hempty : EmptyStored store empty)
    (hfree : CollisionFree (store.putAll (applyWrite mst write).puts ++
      (mst.blocks ++ (applyWrite mst write).mst.blocks))) :
    Written store mst empty m write op := by
  obtain ⟨recordBytes, henc, hblock, happly⟩ := applyWrite_of_set haction hres
  rw [happly] at hres hfree
  dsimp only at hres hfree
  cases hset : (mst.set write.key (cidForBytes recordBytes)).result with
  | error e =>
    rw [hset] at hres
    cases hres
  | ok root =>
    rw [hset] at hres
    cases hres
    have hvalid := valid_of_set hset
    obtain ⟨tree', hstep, _⟩ :=
      h.set ⟨write.key, hvalid⟩ ⟨cidForBytes recordBytes, isValidCid_cidFromDigest _⟩
    refine ⟨⟨rfl, by rw [hblock]; rfl⟩, hvalid, by simp [hblock, happly], tree', ?_⟩
    have hsplit := store.putAll_append [(cidForBytes recordBytes, recordBytes)]
      (mst.set write.key (cidForBytes recordBytes)).puts
    rw [List.singleton_append] at hsplit
    have hblocks : (mst.set write.key (cidForBytes recordBytes)).mst.blocks = tree'.blocks :=
      hstep.holds.blocks_eq (s := ⟨store, _⟩)
    have hblocks₀ : mst.blocks = tree.blocks := h.blocks_eq (s := ⟨store, mst⟩)
    rw [hblocks, hblocks₀] at hfree
    have hmono : Held loose empty
        ⟨store.putAll [(cidForBytes recordBytes, recordBytes)], mst⟩ tree m := by
      refine h.mono (.putAll (hfree.mono fun b hb => ?_))
      rw [hsplit]
      exact List.mem_append_left _ (List.mem_append_right _ hb)
    have hnew : ∀ b ∈ tree'.blocks, empty ≠ some b.1 := by
      intro b hb
      refine ne_empty_of_mem_blocks hstep.holds.wf hempty (hfree.mono fun b hb => ?_) hb hb
      rcases List.mem_append.1 hb with hb | hb
      · exact List.mem_append_left _ (List.mem_append_right _ hb)
      · exact List.mem_append_right _ (List.mem_append_right _ hb)
    have hheld : Held loose empty
        (Instance.apply ⟨store.putAll [(cidForBytes recordBytes, recordBytes)], mst⟩
          (.set ⟨write.key, hvalid⟩ ⟨_, isValidCid_cidFromDigest _⟩)) tree' _ :=
      hmono.apply hstep hnew (hfree.mono fun b hb => List.mem_append_right _ hb)
    rw [happly, WriteOp.applyTo, hblock, hsplit]
    exact hheld

/-- A delete that succeeds, and joins its neighbours. -/
theorem written_of_delete (h : Held loose empty ⟨store, mst⟩ tree m) {write : WriteOp}
    (haction : write.action = .delete) {op : CommitOp} (hres : (applyWrite mst write).result = .ok op)
    (hok : writeOk mst write) (hempty : EmptyStored store empty)
    (hfree : CollisionFree (store.putAll (applyWrite mst write).puts ++
      (mst.blocks ++ (applyWrite mst write).mst.blocks))) :
    Written store mst empty m write op := by
  have hblock : write.block = none := by rw [WriteOp.block, haction]
  have htree : mst.tree = some tree := h.tree_eq
  rw [applyWrite, haction] at hres hfree
  dsimp only at hres hfree
  cases hget : mst.get write.key with
  | none =>
    rw [hget] at hres
    cases hres
  | some cid =>
    rw [hget] at hres hfree
    dsimp only at hres hfree
    have hcan : tree.canDelete write.key := by
      simpa [writeOk, haction, htree, hget] using hok
    have hmem : write.key ∈ keys m := by
      rw [(h.get write.key).1] at hget
      exact mem_keys_of_mem (mem_of_lookup hget)
    have hvalid : isValidMstKey write.key := h.wf.valid_of_mem (h.leaves.symm ▸ hmem)
    obtain ⟨tree', hstep, _⟩ := h.delete_of_mem hmem hcan
    rw [hstep.result] at hres
    cases hres
    have hblocks : (mst.delete write.key).mst.blocks = tree'.blocks :=
      hstep.holds.blocks_eq (s := ⟨store, _⟩)
    have hblocks₀ : mst.blocks = tree.blocks := h.blocks_eq (s := ⟨store, mst⟩)
    rw [hblocks, hblocks₀] at hfree
    refine ⟨⟨rfl, by rw [hblock]; rfl⟩, hvalid, by simp [hblock], tree', ?_⟩
    have hnew : ∀ b ∈ tree'.blocks, empty ≠ some b.1 := by
      intro b hb
      refine ne_empty_of_mem_blocks hstep.holds.wf hempty (hfree.mono fun b hb => ?_) hb hb
      rcases List.mem_append.1 hb with hb | hb
      · exact List.mem_append_left _ (List.mem_append_right _ hb)
      · exact List.mem_append_right _ (List.mem_append_right _ hb)
    have hheld : Held loose empty (Instance.apply ⟨store, mst⟩ (.delete ⟨write.key, hvalid⟩)) tree' _ :=
      h.apply hstep hnew (hfree.mono fun b hb => List.mem_append_right _ hb)
    rw [applyWrite, haction, hget, WriteOp.applyTo, hblock]
    exact hheld

/-- A write that succeeds, where it is `writeOk`. -/
theorem written_of_ok (h : Held loose empty ⟨store, mst⟩ tree m) {write : WriteOp} {op : CommitOp}
    (hres : (applyWrite mst write).result = .ok op) (hok : writeOk mst write)
    (hempty : EmptyStored store empty)
    (hfree : CollisionFree (store.putAll (applyWrite mst write).puts ++
      (mst.blocks ++ (applyWrite mst write).mst.blocks))) : Written store mst empty m write op := by
  by_cases haction : write.action = .delete
  · exact written_of_delete h haction hres hok hempty hfree
  · exact written_of_set h haction hres hempty hfree

/-- The block of a record is only there when its encoding comes back. -/
theorem plain_of_writeOk {write : WriteOp} (hok : writeOk mst write) {b : Cid × Bytes}
    (hb : b ∈ write.block) : Cbor.plain write.record := by
  rw [WriteOp.block] at hb
  rw [writeOk] at hok
  cases ha : write.action with
  | delete =>
    rw [ha] at hb
    cases hb
  | _ =>
    rw [ha] at hb hok
    dsimp only at hb hok
    cases hencode : (Cbor.encode write.record).toOption with
    | none =>
      rw [hencode] at hb
      cases hb
    | some bytes => simpa [hencode] using hok

/-- A batch that succeeds is a fold over the entries, and its records are stored. -/
theorem applyAll_ok (h : Held loose empty ⟨store, mst⟩ tree m) {writes : List WriteOp}
    {ops : List CommitOp} (hres : (applyAll mst writes).result = .ok ops) (hok : batchOk mst writes)
    (hempty : EmptyStored store empty)
    (hfree : CollisionFree (store.putAll (applyAll mst writes).puts ++ batchBlocks mst writes)) :
    List.Forall₂ CommitOp.Tells ops writes ∧
      (∀ write ∈ writes, write.Stored (store.putAll (applyAll mst writes).puts)) ∧
      ∃ tree', Held loose empty
        ⟨store.putAll (applyAll mst writes).puts, (applyAll mst writes).mst⟩ tree'
        (writes.foldl WriteOp.applyTo m) := by
  induction writes generalizing store mst tree m ops with
  | nil =>
    cases hres
    exact ⟨.nil, by simp, tree, h⟩
  | cons write writes ih =>
    rw [batchOk, Bool.and_eq_true] at hok
    obtain ⟨hwrite, hrest⟩ := hok
    rw [applyAll] at hres hfree ⊢
    dsimp only at hres hfree ⊢
    cases hop : (applyWrite mst write).result with
    | error e =>
      rw [hop] at hres
      cases hres
    | ok op =>
      rw [hop] at hres hfree hrest
      dsimp only at hres hfree hrest ⊢
      cases hall : (applyAll (applyWrite mst write).mst writes).result with
      | error e =>
        rw [hall] at hres
        cases hres
      | ok rest =>
        rw [hall] at hres
        cases hres
        rw [BlockStore.putAll_append] at hfree ⊢
        have hgrows : (store.putAll (applyWrite mst write).puts).Sub
            ((store.putAll (applyWrite mst write).puts).putAll
              (applyAll (applyWrite mst write).mst writes).puts) :=
          .putAll (hfree.mono fun b hb => List.mem_append_left _ hb)
        have hfirst : CollisionFree (store.putAll (applyWrite mst write).puts ++
            (mst.blocks ++ (applyWrite mst write).mst.blocks)) := by
          refine hfree.mono fun b hb => ?_
          rcases List.mem_append.1 hb with hb | hb
          · exact List.mem_append_left _ (List.mem_append_right _ hb)
          · refine List.mem_append_right _ ?_
            rw [batchBlocks]
            exact (List.mem_append.1 hb).elim (List.mem_append_left _) fun hb =>
              List.mem_append_right _ (blocks_subset_batchBlocks _ writes b hb)
        have hwritten := written_of_ok h hop hwrite hempty hfirst
        obtain ⟨tree₁, hheld⟩ := hwritten.held
        have hsub : store.Sub (store.putAll (applyWrite mst write).puts) :=
          .putAll (hfirst.mono fun b hb => List.mem_append_left _ hb)
        obtain ⟨htells, hstored, tree', hheld'⟩ := ih hheld hall hrest (hempty.mono hsub)
          (hfree.mono fun b hb => (List.mem_append.1 hb).elim (List.mem_append_left _) fun hb =>
            List.mem_append_right _ (List.mem_append_right _ hb))
        refine ⟨.cons hwritten.tells htells, List.forall_mem_cons.2 ⟨?_, hstored⟩, tree', hheld'⟩
        refine ⟨hwritten.valid, fun b hb => hgrows.get ?_, fun b hb => plain_of_writeOk hwrite hb⟩
        exact get_putAll (hfirst.mono fun b hb => List.mem_append_left _ hb) (hwritten.puts b hb)

end ComputeContract
