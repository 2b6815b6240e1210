import ComputeContract.Lib.Along
import ComputeContract.Repo.Batch

/-!
# Atomic batches

A call of `applyWrites` reads the head, takes its batch in memory, stores a signed commit
and moves the head; what throws on the way leaves blocks behind that nobody reads.

* `headStored_commit`: what is committed is stored at the new head.
* `calls_atomic`: every call of a run is atomic, as long as no delete meets two subtrees
  that it cannot join and every record comes back from its encoding. What does neither is
  reported as a success all the same.
-/

namespace ComputeContract

open MstNode AssocList

variable {store : BlockStore} {mst : Mst} {tree : MstNode} {empty : Option Cid}
  {m : List (Key × Cid)}

/-! ## The root that is committed -/

theorem decodeNodeData_emptyBlock : decodeNodeData emptyBlock = .ok ⟨none, []⟩ := by
  rfl

/-- The empty node opens to an empty tree. -/
theorem init_emptyRoot (h : store.get emptyRoot = some emptyBlock) :
    ∃ tree, (Mst.createMst (some emptyRoot)).init store = .ok ⟨some emptyRoot, some tree, []⟩ ∧
      Held loose (some emptyRoot) ⟨store, ⟨some emptyRoot, some tree, []⟩⟩ tree [] := by
  have hwf : WF loose (mk 0 none []) := EntriesOk.wf .nil (.inl rfl)
  have hload : loadTree store (store.length + 1) emptyRoot = .ok (mk 0 none []).reload := by
    rw [loadTree, h]
    dsimp only
    rw [decodeNodeData_emptyBlock, ok_bind]
    rfl
  refine ⟨(mk 0 none []).reload, ?_, ?_, fun h => absurd rfl h⟩
  · rw [Mst.init, Mst.createMst]
    dsimp only
    rw [hload]
    rfl
  · exact holds_reload hwf List.Pairwise.nil (fun h => absurd rfl h) fun _ => .inr rfl

/-- The root of an empty map is the empty node, stored. -/
theorem commitRoot_of_nil (h : Held loose empty ⟨store, mst⟩ tree []) (hempty : EmptyStored store empty)
    (hfree : CollisionFree (store.putAll (commitRoot mst.root).2)) :
    (commitRoot mst.root).1 = emptyRoot ∧
      (store.putAll (commitRoot mst.root).2).get emptyRoot = some emptyBlock := by
  have hnone : ∀ root, root = none → CollisionFree (store.putAll (commitRoot root).2) →
      (commitRoot root).1 = emptyRoot ∧
        (store.putAll (commitRoot root).2).get emptyRoot = some emptyBlock := by
    rintro _ rfl hfree
    exact ⟨rfl, get_putAll hfree (List.mem_singleton_self _)⟩
  rcases h.root_nil rfl with hroot | hroot
  · exact hnone _ hroot hfree
  · cases hcid : empty with
    | none => exact hnone _ (hroot.trans hcid) hfree
    | some cid =>
      obtain ⟨rfl, hget⟩ := hempty cid hcid
      have hroot : mst.root = some emptyRoot := hroot.trans hcid
      rw [hroot] at hfree ⊢
      exact ⟨rfl, hget⟩

/-- What is committed opens to the same map. -/
theorem open_commitRoot (h : Held loose empty ⟨store, mst⟩ tree m) (hempty : EmptyStored store empty)
    (hlength : m.length < 2 ^ 31)
    (hfree : CollisionFree (store.putAll (commitRoot mst.root).2 ++ mst.blocks)) :
    isValidCid (commitRoot mst.root).1 ∧ ∃ mst' tree' empty',
      (Mst.createMst (some (commitRoot mst.root).1)).init (store.putAll (commitRoot mst.root).2) =
        .ok mst' ∧
      Held loose empty' ⟨store.putAll (commitRoot mst.root).2, mst'⟩ tree' m ∧
      EmptyStored (store.putAll (commitRoot mst.root).2) empty' := by
  by_cases hm : m = []
  · subst hm
    obtain ⟨hroot, hget⟩ :=
      commitRoot_of_nil h hempty (hfree.mono fun b hb => List.mem_append_left _ hb)
    obtain ⟨tree', hinit, hheld⟩ := init_emptyRoot hget
    rw [hroot]
    refine ⟨isValidCid_cidFromDigest _, _, tree', some emptyRoot, hinit, hheld, ?_⟩
    rintro root hsome
    cases hsome
    exact ⟨rfl, hget⟩
  · have hroot : mst.root = some tree.cid := h.root hm
    have hblocks : mst.blocks = tree.blocks := h.blocks_eq (s := ⟨store, mst⟩)
    rw [hblocks] at hfree
    rw [hroot] at hfree ⊢
    have hsize : Sized tree := sized_of_length (by rw [h.leaves]; exact hlength)
    have hsorted : Sorted tree.walkLeaves := h.leaves.symm ▸ h.sorted
    have hstored : Stored store tree := h.stored hm
    refine ⟨isValidCid_cidFromDigest _, _, tree.reload, none, init_some h.wf hsize
      (hfree.mono fun b hb => List.mem_append_right _ hb) hstored hsorted, ⟨?_, fun _ b hb => ?_⟩,
      fun root hnone => by cases hnone⟩
    · have hholds : Holds loose none ⟨some tree.cid, some tree.reload, tree.walkLeaves⟩ tree.reload
          tree.walkLeaves :=
        holds_reload h.wf hsorted (fun _ => rfl) fun hnil => absurd (h.leaves.symm.trans hnil) hm
      rw [h.leaves] at hholds ⊢
      exact hholds
    · exact hstored b (blocks_eq_of_shape (shape_reload tree) ▸ hb)

/-! ## A call -/

/-- What comes of a call: it throws and only puts blocks, or it commits its batch. -/
theorem applyWrites_cases (repo : Repo) (rev : Tid) (did : String) (writes : List WriteOp)
    (storage : Storage) :
    let out := applyWrites repo rev did writes storage
    (∃ e puts, out = (.error e, { storage with blocks := storage.blocks.putAll puts })) ∨
    ∃ prevRoot mst ops carBlocks sig commitBytes,
      did = repo.did ∧ openMst storage.blocks (storage.getHead did) = .ok (prevRoot, mst) ∧
      (applyAll mst writes).result = .ok ops ∧ sig.length < 2 ^ 31 ∧
      encodeCommit ⟨did, 3, (commitRoot (applyAll mst writes).mst.root).1, rev,
        (storage.getHead did).map Head.commit⟩ sig = .ok commitBytes ∧
      (diff ((storage.blocks.putAll (applyAll mst writes).puts).putAll
          (commitRoot (applyAll mst writes).mst.root).2) prevRoot
          (some (commitRoot (applyAll mst writes).mst.root).1) >>=
        buildCarSlice ((storage.blocks.putAll (applyAll mst writes).puts).putAll
          (commitRoot (applyAll mst writes).mst.root).2)) = .ok carBlocks ∧
      out = (.ok ⟨did, cidForBytes commitBytes, rev, (storage.getHead did).map Head.rev, carBlocks,
          ops⟩,
        { blocks := ((storage.blocks.putAll (applyAll mst writes).puts).putAll
            (commitRoot (applyAll mst writes).mst.root).2).putAll
              [(cidForBytes commitBytes, commitBytes)]
          heads := AssocList.set did ⟨cidForBytes commitBytes, rev⟩ storage.heads }) := by
  dsimp only
  have hputs : ∀ e : RepoError, (Except.error e, storage) = ((Except.error e : Except RepoError CommitEvent),
      ({ storage with blocks := storage.blocks.putAll [] } : Storage)) := fun e => rfl
  unfold applyWrites
  split_ifs with hdid
  · exact .inl ⟨_, [], hputs _⟩
  · dsimp only
    cases hopen : openMst storage.blocks (storage.getHead did) with
    | error e => exact .inl ⟨_, [], hputs _⟩
    | ok opened =>
      obtain ⟨prevRoot, mst⟩ := opened
      dsimp only
      cases hall : (applyAll mst writes).result with
      | error e => exact .inl ⟨e, _, rfl⟩
      | ok ops =>
        dsimp only
        cases hseal : sealCommit repo ((storage.blocks.putAll (applyAll mst writes).puts).putAll
            (commitRoot (applyAll mst writes).mst.root).2) prevRoot
            ⟨did, 3, (commitRoot (applyAll mst writes).mst.root).1, rev,
              (storage.getHead did).map Head.commit⟩ with
        | error e =>
          refine .inl ⟨.error e, (applyAll mst writes).puts ++
            (commitRoot (applyAll mst writes).mst.root).2, ?_⟩
          rw [BlockStore.putAll_append]
        | ok sealed =>
          obtain ⟨carBlocks, commitBytes⟩ := sealed
          simp only [sealCommit, bind_eq_ok] at hseal
          obtain ⟨_, hdiff, _, hslice, unsigned, _, sig, hsig, bytes, hencode, hsealed⟩ := hseal
          cases hsealed
          exact .inr ⟨prevRoot, mst, ops, carBlocks, sig, commitBytes, not_not.1 hdid, rfl, hall,
            repo.length_sign hsig, hencode, bind_eq_ok.2 ⟨_, hdiff, hslice⟩, rfl⟩

variable {head : Option Head} {root : Option Cid} {storage : Storage} {did : String}

theorem OpenAt.openMst (h : OpenAt store head root mst tree empty m) :
    openMst store head = .ok (root, mst) := by
  rw [ComputeContract.openMst, h.root_eq, ok_bind, h.init_eq]
  rfl

/-- The entries after stored writes are stored. -/
theorem records_foldl {store' : BlockStore} {writes : List WriteOp}
    (hrecords : ∀ e ∈ m, ∃ bytes, store.get e.2 = some bytes) (hsub : store.Sub store')
    (hstored : ∀ write ∈ writes, write.Stored store') :
    ∀ e ∈ writes.foldl WriteOp.applyTo m, ∃ bytes, store'.get e.2 = some bytes := by
  intro e he
  rcases mem_foldl_applyTo he with he | ⟨write, hwrite, b, hb, hcid⟩
  · exact (hrecords e he).imp fun _ hget => hsub.get hget
  · exact ⟨b.2, hcid ▸ (hstored write hwrite).block b hb⟩

/-- A signed commit is read back from the store. -/
theorem CommitBlock.headRoot {commit : CommitData} {sig commitBytes : Bytes}
    (h : CommitBlock commit sig commitBytes)
    (hget : store.get (cidForBytes commitBytes) = some commitBytes) (rev : Tid) :
    headRoot store (some ⟨cidForBytes commitBytes, rev⟩) = .ok (some commit.data) := by
  obtain ⟨decoded, hdecode, hroot, _⟩ := h.decodeCommit
  rw [ComputeContract.headRoot, getMstRoot, hget]
  dsimp only
  rw [hdecode, ok_bind, hroot]
  rfl

theorem ne_noCid_of_isValidCid {cid : Cid} (h : isValidCid cid) : some cid ≠ some noCid := by
  intro heq
  have hlength := length_of_isValidCid h
  rw [Option.some.inj heq] at hlength
  cases hlength

/-- The tree after a batch that succeeds is among those along it. -/
theorem blocks_applyAll_subset {writes : List WriteOp} {ops : List CommitOp}
    (hresult : (applyAll mst writes).result = .ok ops) :
    ∀ b ∈ (applyAll mst writes).mst.blocks, b ∈ batchBlocks mst writes := by
  induction writes generalizing mst ops with
  | nil => exact fun b hb => hb
  | cons write writes ih =>
    intro b hb
    rw [applyAll] at hresult hb
    dsimp only at hresult hb
    cases hop : (applyWrite mst write).result with
    | error e =>
      rw [hop] at hresult
      cases hresult
    | ok op =>
      rw [hop] at hresult hb
      cases hrest : (applyAll (applyWrite mst write).mst writes).result with
      | error e =>
        rw [hrest] at hresult
        cases hresult
      | ok rest => exact List.mem_append_right _ (ih hrest b hb)

/-- A map that is held is stored at the head of the commit of its root. -/
theorem headStored_seal (h : Held loose empty ⟨store, mst⟩ tree m) (hempty : EmptyStored store empty)
    (hlength : m.length < 2 ^ 31) (hrecords : ∀ e ∈ m, ∃ bytes, store.get e.2 = some bytes)
    {rev : Tid} {prev : Option Cid} {sig commitBytes : Bytes} (hdid : Cbor.plainText did)
    (hsig : sig.length < 2 ^ 31) (hprev : ∀ cid ∈ prev, isValidCid cid)
    (hencode : encodeCommit ⟨did, 3, (commitRoot mst.root).1, rev, prev⟩ sig = .ok commitBytes)
    {store' : BlockStore} (hstore : store' = (store.putAll (commitRoot mst.root).2).putAll
      [(cidForBytes commitBytes, commitBytes)])
    (hfree : CollisionFree (store' ++ mst.blocks)) :
    store.Sub store' ∧ HeadStored store' (some ⟨cidForBytes commitBytes, rev⟩) m := by
  subst hstore
  have hfree₂ := hfree.mono fun b hb => List.mem_append_left _ hb
  have hfree₁ : CollisionFree (store.putAll (commitRoot mst.root).2 ++ mst.blocks) :=
    hfree.mono fun b hb => (List.mem_append.1 hb).elim
      (fun hb => List.mem_append_left _ (List.mem_append_right _ hb)) (List.mem_append_right _)
  -- The blocks of the root and of the commit, put one after the other.
  have hsub₁ : store.Sub (store.putAll (commitRoot mst.root).2) :=
    .putAll (hfree₁.mono fun b hb => List.mem_append_left _ hb)
  have hsub₂ := BlockStore.Sub.putAll hfree₂
  obtain ⟨hroot, mst', tree', empty', hinit, hheld', hempty'⟩ :=
    open_commitRoot h hempty hlength hfree₁
  have hblock := CommitBlock.mk hencode hdid rfl hroot hprev hsig
  refine ⟨hsub₁.trans hsub₂, some (commitRoot mst.root).1, mst', tree', empty', ?_⟩
  refine ⟨hblock.headRoot (get_putAll hfree₂ (List.mem_singleton_self _)) rev, fun _ => rfl, ?_,
    ne_noCid_of_isValidCid hroot, init_mono hsub₂ hinit, hheld'.mono hsub₂, hempty'.mono hsub₂, ?_⟩
  · rintro _ ⟨⟩
    exact isValidCid_cidFromDigest _
  · exact fun e he => (hrecords e he).imp fun _ hget => (hsub₁.trans hsub₂).get hget

/-- What is committed is stored at the new head. -/
theorem headStored_commit (h : OpenAt store head root mst tree empty m) {writes : List WriteOp}
    {ops : List CommitOp} {rev : Tid} {sig commitBytes : Bytes} {store' : BlockStore}
    (hdid : Cbor.plainText did) (hsig : sig.length < 2 ^ 31)
    (hresult : (applyAll mst writes).result = .ok ops) (hok : batchOk mst writes)
    (hlength : m.length + writes.length < 2 ^ 31)
    (hencode : encodeCommit ⟨did, 3, (commitRoot (applyAll mst writes).mst.root).1, rev,
      head.map Head.commit⟩ sig = .ok commitBytes)
    (hstore : store' = ((store.putAll (applyAll mst writes).puts).putAll
      (commitRoot (applyAll mst writes).mst.root).2).putAll [(cidForBytes commitBytes, commitBytes)])
    (hfree : CollisionFree (store' ++ batchBlocks mst writes)) :
    store.Sub store' ∧ List.Forall₂ CommitOp.Tells ops writes ∧
      (∀ write ∈ writes, write.Stored store') ∧
      HeadStored store' (some ⟨cidForBytes commitBytes, rev⟩) (writes.foldl WriteOp.applyTo m) := by
  have hfree₁ : CollisionFree (store.putAll (applyAll mst writes).puts ++ batchBlocks mst writes) := by
    subst hstore
    exact hfree.mono fun b hb => (List.mem_append.1 hb).elim
      (fun hb => List.mem_append_left _ (List.mem_append_right _ (List.mem_append_right _ hb)))
      (List.mem_append_right _)
  have hsub : store.Sub (store.putAll (applyAll mst writes).puts) :=
    .putAll (hfree₁.mono fun b hb => List.mem_append_left _ hb)
  obtain ⟨htells, hstored, tree', hheld⟩ := applyAll_ok h.held hresult hok h.emptyStored hfree₁
  have hprev : ∀ cid ∈ head.map Head.commit, isValidCid cid := fun cid hcid => by
    obtain ⟨head, rfl, rfl⟩ := Option.map_eq_some_iff.1 hcid
    exact h.head_valid head rfl
  obtain ⟨hsub', hseal⟩ := headStored_seal hheld (h.emptyStored.mono hsub)
    ((length_foldl_applyTo writes m).trans_lt hlength) (records_foldl h.records hsub hstored) hdid
    hsig hprev hencode hstore (hfree.mono fun b hb => (List.mem_append.1 hb).elim
      (List.mem_append_left _) fun hb => List.mem_append_right _ (blocks_applyAll_subset hresult b hb))
  exact ⟨hsub.trans hsub', htells, fun write hwrite => ⟨(hstored write hwrite).valid,
    fun b hb => hsub'.get ((hstored write hwrite).block b hb), (hstored write hwrite).plain⟩, hseal⟩

/-! ## Calls -/

/-- A call of `applyWrites` on one of the repositories. -/
structure Call where
  repo : Repo
  /-- What `nextTid()` gives. -/
  rev : Tid
  did : String
  writes : List WriteOp

namespace Call

def result (call : Call) (storage : Storage) : Except RepoError CommitEvent :=
  (applyWrites call.repo call.rev call.did call.writes storage).1

/-- The storage after the call. -/
def apply (storage : Storage) (call : Call) : Storage :=
  (applyWrites call.repo call.rev call.did call.writes storage).2

end Call

/-- The map from paths to CIDs at the head. -/
def pathMap (storage : Storage) (did : String) : Except String (List (Key × Cid)) :=
  match storage.getHead did with
  | none => .ok []
  | some head => do
    match ← headMst storage.blocks head with
    | none => return []
    | some mst => return mst.entries

/-- The repository is read as before. -/
structure Unchanged (storage storage' : Storage) (did : String) : Prop where
  head : storage'.getHead did = storage.getHead did
  describe : describe storage' did = describe storage did
  records : ∀ collection rkey,
    getRecord storage' did collection rkey = getRecord storage did collection rkey
  lists : ∀ collection limit cursor,
    listRecords storage' did collection limit cursor = listRecords storage did collection limit cursor

/-- The repository is the one before with the batch applied, which its operations tell. -/
structure Applied (storage storage' : Storage) (did : String) (writes : List WriteOp)
    (ops : List CommitOp) : Prop where
  records : ∀ collection rkey, getRecord storage' did collection rkey =
    writes.foldl (WriteOp.applyToRecords did) (getRecord storage did) collection rkey
  replay : ∃ m, pathMap storage did = .ok m ∧
    pathMap storage' did = .ok (ops.foldl CommitOp.applyTo m)

/-- A call that throws changes nothing, one that succeeds applies its batch. -/
def Atomic (storage : Storage) (call : Call) : Prop :=
  match call.result storage with
  | .error _ => ∀ did, Unchanged storage (call.apply storage) did
  | .ok event => Applied storage (call.apply storage) call.did call.writes event.ops ∧
      ∀ did, did ≠ call.did → Unchanged storage (call.apply storage) did

/-- Each write that is taken is `writeOk` there, and the tree does not grow too long. -/
def callOk (storage : Storage) (call : Call) : Bool :=
  match openMst storage.blocks (storage.getHead call.did) with
  | .ok (_, mst) => batchOk mst call.writes && mst.entries.length + call.writes.length < 2 ^ 31
  | .error _ => true

/-- The blocks that are hashed in a call. -/
def callBlocks (storage : Storage) (call : Call) : List (Cid × Bytes) :=
  (call.apply storage).blocks ++
    match openMst storage.blocks (storage.getHead call.did) with
    | .ok (_, mst) => batchBlocks mst call.writes
    | .error _ => []

/-- Every repository is stored. -/
def AllStored (storage : Storage) : Prop :=
  ∀ did, ∃ m, HeadStored storage.blocks (storage.getHead did) m

theorem HeadStored.pathMap (h : HeadStored storage.blocks (storage.getHead did) m) :
    pathMap storage did = .ok m := by
  obtain ⟨root, mst, tree, empty, h⟩ := h
  unfold ComputeContract.pathMap
  cases hhead : storage.getHead did with
  | none =>
    rw [hhead] at h
    obtain ⟨_, _, _, _, hempty⟩ := headStored_none storage.blocks
    rw [HeadStored.unique ⟨root, mst, tree, empty, h⟩ ⟨_, _, _, _, hempty⟩]
  | some head =>
    rw [hhead] at h
    dsimp only
    rw [h.headMst, ok_bind, ← h.held.entries]
    rfl

theorem unchanged (hstored : AllStored storage) {storage' : Storage}
    (hsub : storage.blocks.Sub storage'.blocks) (hhead : storage'.getHead did = storage.getHead did) :
    Unchanged storage storage' did := by
  obtain ⟨m, h⟩ := hstored did
  obtain ⟨hdescribe, hrecords, hlists⟩ := h.reads hsub hhead
  exact ⟨hhead, hdescribe, hrecords, hlists⟩

theorem recordAt_mono {store' : BlockStore} (hsub : store.Sub store')
    (hrecords : ∀ e ∈ m, ∃ bytes, store.get e.2 = some bytes) (did : String) :
    recordAt store' did m = recordAt store did m := by
  funext collection rkey
  rw [recordAt, recordAt]
  cases hlookup : m.lookup (recordKey collection rkey) with
  | none => rfl
  | some cid => exact readRecord_mono hsub did _ (hrecords _ (mem_of_lookup hlookup))

/-- Moving the head to the map of the batch applies the batch. -/
theorem applied (h : OpenAt storage.blocks (storage.getHead did) root mst tree empty m)
    {storage' : Storage} {writes : List WriteOp} {ops : List CommitOp}
    (hsub : storage.blocks.Sub storage'.blocks)
    (hwrites : ∀ write ∈ writes, write.Stored storage'.blocks)
    (htells : List.Forall₂ CommitOp.Tells ops writes)
    (h' : HeadStored storage'.blocks (storage'.getHead did) (writes.foldl WriteOp.applyTo m)) :
    Applied storage storage' did writes ops where
  records collection rkey := by
    obtain ⟨_, _, _, _, hopen'⟩ := h'
    rw [hopen'.getRecord, recordAt_foldl hwrites, recordAt_mono hsub h.records, h.getRecord]
  replay := by
    have hmap : HeadStored storage.blocks (storage.getHead did) m := ⟨root, mst, tree, empty, h⟩
    refine ⟨m, hmap.pathMap, ?_⟩
    rw [h'.pathMap, foldl_of_tells htells]

/-- One call of a run. -/
theorem call_atomic {call : Call} (hstored : AllStored storage) (hok : callOk storage call)
    (hfree : CollisionFree (callBlocks storage call)) :
    Atomic storage call ∧ AllStored (call.apply storage) := by
  obtain ⟨repo, rev, did, writes⟩ := call
  rcases applyWrites_cases repo rev did writes storage with
    ⟨e, puts, hout⟩ | ⟨prevRoot, mst, ops, carBlocks, sig, commitBytes, hdid, hopen, hresult, hsig,
      hencode, -, hout⟩
  · have hresult : Call.result ⟨repo, rev, did, writes⟩ storage = .error e := congrArg Prod.fst hout
    have happly : Call.apply storage ⟨repo, rev, did, writes⟩ =
        { storage with blocks := storage.blocks.putAll puts } := congrArg Prod.snd hout
    have hsub : storage.blocks.Sub (storage.blocks.putAll puts) := by
      refine .putAll (hfree.mono fun b hb => List.mem_append_left _ ?_)
      rw [happly]
      exact hb
    rw [Atomic, hresult, happly]
    refine ⟨fun did => unchanged hstored hsub rfl, fun did => ?_⟩
    exact (hstored did).imp fun m h => h.mono hsub
  · have hresult' : Call.result ⟨repo, rev, did, writes⟩ storage =
        .ok ⟨did, cidForBytes commitBytes, rev, (storage.getHead did).map Head.rev, carBlocks, ops⟩ :=
      congrArg Prod.fst hout
    have happly := congrArg Prod.snd hout
    change Call.apply storage ⟨repo, rev, did, writes⟩ = _ at happly
    dsimp only at happly
    obtain ⟨m, hhead⟩ := hstored did
    obtain ⟨root, mst', tree, empty, h⟩ := id hhead
    obtain ⟨rfl, rfl⟩ : root = prevRoot ∧ mst' = mst :=
      Prod.mk.inj (Except.ok.inj (h.openMst.symm.trans hopen))
    rw [callOk, hopen] at hok
    rw [callBlocks, hopen, happly] at hfree
    dsimp only at hok hfree
    rw [h.held.entries, Bool.and_eq_true, decide_eq_true_eq] at hok
    obtain ⟨hsub, htells, hwrites, hcommitted⟩ := headStored_commit h (hdid ▸ repo.did_plain) hsig
      hresult hok.1 hok.2 hencode rfl hfree
    have hgetHead : (Call.apply storage ⟨repo, rev, did, writes⟩).getHead did =
        some ⟨cidForBytes commitBytes, rev⟩ := by
      rw [happly, Storage.getHead, lookup_set, if_pos rfl]
    have hothers : ∀ did', did' ≠ did →
        (Call.apply storage ⟨repo, rev, did, writes⟩).getHead did' = storage.getHead did' := by
      intro did' hne
      rw [happly, Storage.getHead, lookup_set, if_neg hne]
      rfl
    have hblocks := congrArg Storage.blocks happly
    dsimp only at hblocks
    rw [← hgetHead] at hcommitted
    rw [← hblocks] at hsub hwrites hcommitted
    refine ⟨?_, fun did' => ?_⟩
    · rw [Atomic, hresult']
      exact ⟨applied h hsub hwrites htells hcommitted,
        fun did' hne => unchanged hstored hsub (hothers did' hne)⟩
    · by_cases hne : did' = did
      · subst hne
        exact ⟨_, hcommitted⟩
      · obtain ⟨m', h'⟩ := hstored did'
        rw [hothers did' hne]
        exact ⟨m', h'.mono hsub⟩

theorem allStored_empty : AllStored ⟨[], []⟩ := fun _ => ⟨[], headStored_none []⟩

/-- Every call of a run is atomic, as long as every delete can join its neighbours, every
    record comes back from its encoding and the trees do not grow too long. -/
theorem calls_atomic (calls : List Call)
    (hok : Along Call.apply (fun storage call => callOk storage call) ⟨[], []⟩ calls)
    (hfree : Along Call.apply (fun storage call => CollisionFree (callBlocks storage call))
      ⟨[], []⟩ calls) : Along Call.apply Atomic ⟨[], []⟩ calls :=
  along_of_inv (fun _ _ hstored h => call_atomic hstored h.1 h.2) allStored_empty
    (along_and.2 ⟨hok, hfree⟩)

/-! ## A record that comes back as another one -/

def sampleRepo : Repo where
  did := "did:plc:abc"
  sign _ := .ok []
  did_plain := by decide +kernel
  length_sign := by
    intro bytes sig h
    cases h
    decide

/-- A call of the sample repository on the path `a/0`. -/
def sampleCall (writes : List (WriteAction × Value)) : Call :=
  ⟨sampleRepo, sampleTid, "did:plc:abc",
    writes.map fun write => ⟨write.1, "a", "0", write.2⟩⟩

theorem calls_atomic_sampleCall : Along Call.apply Atomic ⟨[], []⟩
    [sampleCall [(.create, .text "record"), (.delete, .null)]] :=
  calls_atomic [sampleCall [(.create, .text "record"), (.delete, .null)]]
    (by decide +kernel) (by decide +kernel)

/-- What an atomic call creates is read back. -/
theorem getRecord_of_create {call : Call} {collection rkey : String} {record : Value}
    (hatomic : Atomic storage call) (hok : (call.result storage).isOk)
    (hwrites : call.writes = [⟨.create, collection, rkey, record⟩]) :
    getRecord (call.apply storage) call.did collection rkey =
      .ok (WriteOp.stored call.did ⟨.create, collection, rkey, record⟩) := by
  cases hresult : call.result storage with
  | error e =>
    rw [hresult] at hok
    cases hok
  | ok event =>
    rw [Atomic, hresult] at hatomic
    obtain ⟨⟨hrecords, _⟩, _⟩ := hatomic
    rw [hrecords, hwrites]
    simp [WriteOp.applyToRecords]

/-- A record with an integer that the decoder reads as negative. -/
def sampleRecord : Value := .object [("n", .int 0x80000000)]

def sampleCreate : Call := sampleCall [(.create, sampleRecord)]

/-- The integer of the sample record. -/
def readInt : Except String (Option RepoRecord) → Option ℤ
  | .ok (some ⟨_, _, .object [(_, .int i)]⟩) => some i
  | _ => none

/-- The call succeeds, and another record is read back. -/
theorem calls_not_atomic : ¬ ∀ calls : List Call,
    Along Call.apply (fun storage call => CollisionFree (callBlocks storage call)) ⟨[], []⟩ calls →
      Along Call.apply Atomic ⟨[], []⟩ calls := by
  intro h
  have hatomic : Along Call.apply Atomic ⟨[], []⟩ [sampleCreate] := h _ (by decide +kernel)
  have hread := congrArg readInt (getRecord_of_create hatomic.1 (by decide +kernel) rfl)
  have hstored : readInt (.ok (WriteOp.stored "did:plc:abc" ⟨.create, "a", "0", sampleRecord⟩)) =
      some 0x80000000 := by
    decide +kernel
  have hafter : readInt (getRecord (sampleCreate.apply ⟨[], []⟩) "did:plc:abc" "a" "0") =
      some (-0x80000000) := by
    decide +kernel
  exact absurd (hafter.symm.trans (hread.trans hstored)) (by decide)

end ComputeContract
