import ComputeContract.Mst.Reload
import ComputeContract.Repo.Repo

/-!
# A storage that grows

Blocks are only ever put, under the CID of their bytes: without collisions a block that
is there stays what it is, and whatever was read before is read again
(`BlockStore.Sub`). A repository whose head is stored (`HeadStored`) is read in terms of
the map of its tree alone, wherever the storage grows.
-/

namespace ComputeContract

open MstNode AssocList

/-- Every block of `store` is in `store'`. -/
structure BlockStore.Sub (store store' : BlockStore) : Prop where
  get : ∀ {cid bytes}, store.get cid = some bytes → store'.get cid = some bytes
  length : store.length ≤ store'.length

namespace BlockStore.Sub

variable {store store' store'' : BlockStore}

theorem refl (store : BlockStore) : store.Sub store := ⟨id, le_rfl⟩

theorem trans (h : store.Sub store') (h' : store'.Sub store'') : store.Sub store'' :=
  ⟨fun hb => h'.get (h.get hb), h.length.trans h'.length⟩

/-- Blocks are put without a collision. -/
theorem putAll {puts : List (Cid × Bytes)} (hfree : CollisionFree (store.putAll puts)) :
    store.Sub (store.putAll puts) := by
  refine ⟨fun {cid bytes} hb => ?_, by simp [BlockStore.putAll]⟩
  rw [BlockStore.get, BlockStore.putAll, List.lookup_append]
  cases hl : puts.reverse.lookup cid with
  | none => exact hb
  | some bytes' =>
    have hmem : (cid, bytes') ∈ store.putAll puts := List.mem_append_left _ (mem_of_lookup hl)
    have hmem' : (cid, bytes) ∈ store.putAll puts := List.mem_append_right _ (mem_of_lookup hb)
    exact congrArg some (hfree _ hmem _ hmem' rfl)

end BlockStore.Sub

/-- A block that was just put. -/
theorem get_putAll {store : BlockStore} {puts : List (Cid × Bytes)} {b : Cid × Bytes}
    (hfree : CollisionFree (store.putAll puts)) (hb : b ∈ puts) :
    (store.putAll puts).get b.1 = some b.2 := by
  have hmem : b ∈ store.putAll puts := List.mem_append_left _ (List.mem_reverse.2 hb)
  obtain ⟨bytes, hl⟩ := Option.isSome_iff_exists.1 (lookup_isSome_iff.2 (mem_keys_of_mem hmem))
  rw [BlockStore.get, hl]
  exact congrArg some (hfree _ (mem_of_lookup hl) b hmem rfl)

variable {store store' : BlockStore}

/-! ## Loading again -/

theorem mapM_mono {load load' : Cid → Except String MstNode}
    (h : ∀ cid node, load cid = .ok node → load' cid = .ok node) {link : Option Cid}
    {child : Option MstNode} (hl : link.mapM load = .ok child) : link.mapM load' = .ok child := by
  cases link with
  | none => exact hl
  | some cid =>
    rw [Option.mapM_some] at hl ⊢
    cases hc : load cid with
    | error e =>
      rw [hc] at hl
      cases hl
    | ok node =>
      rw [hc] at hl
      rw [h cid node hc]
      exact hl

theorem deserializeEntries_mono {load load' : Cid → Except String MstNode}
    (h : ∀ cid node, load cid = .ok node → load' cid = .ok node) {lastKey : List Char}
    {data : List TreeNodeEntry} {es : List NodeEntry}
    (hes : deserializeEntries load lastKey data = .ok es) :
    deserializeEntries load' lastKey data = .ok es := by
  induction data generalizing lastKey es with
  | nil => exact hes
  | cons entry data ih =>
    simp only [deserializeEntries, bind_eq_ok] at hes ⊢
    obtain ⟨u, hkey, child, hchild, rest, hrest, hes⟩ := hes
    exact ⟨u, hkey, child, mapM_mono h hchild, rest, ih hrest, hes⟩

/-- A tree that was loaded is loaded again from a larger store. -/
theorem loadTree_mono (hsub : store.Sub store') {fuel fuel' : ℕ} (hfuel : fuel ≤ fuel') {cid : Cid}
    {node : MstNode} (h : loadTree store fuel cid = .ok node) :
    loadTree store' fuel' cid = .ok node := by
  induction fuel generalizing fuel' cid node with
  | zero => cases h
  | succ fuel ih =>
    obtain ⟨fuel', rfl⟩ : ∃ n, fuel' = n + 1 := Nat.exists_eq_add_one.2 (by omega)
    have hload : ∀ cid node, loadTree store fuel cid = .ok node →
        loadTree store' fuel' cid = .ok node := fun cid node => ih (by omega)
    rw [loadTree] at h ⊢
    cases hb : store.get cid with
    | none =>
      rw [hb] at h
      cases h
    | some bytes =>
      rw [hb] at h
      rw [hsub.get hb]
      simp only [deserializeNodeData, bind_eq_ok] at h ⊢
      obtain ⟨data, hdata, child, hchild, leaves, hleaves, h⟩ := h
      exact ⟨data, hdata, child, mapM_mono hload hchild, leaves,
        deserializeEntries_mono hload hleaves, h⟩

theorem init_mono (hsub : store.Sub store') {root : Option Cid} {mst : Mst}
    (h : (Mst.createMst root).init store = .ok mst) :
    (Mst.createMst root).init store' = .ok mst := by
  cases root with
  | none => exact h
  | some root =>
    simp only [Mst.init, Mst.createMst, bind_eq_ok] at h ⊢
    obtain ⟨tree, htree, h⟩ := h
    exact ⟨tree, loadTree_mono hsub (Nat.succ_le_succ hsub.length) htree, h⟩

/-! ## What is stored at a head -/

/-- The root of an empty tree is the empty node, which is there. -/
def EmptyStored (store : BlockStore) (empty : Option Cid) : Prop :=
  ∀ root, empty = some root → root = emptyRoot ∧ store.get emptyRoot = some emptyBlock

/-- The head leads to a root, which opens to an instance that holds the map `m`; the
    blocks of its tree and of its records are there. -/
structure OpenAt (store : BlockStore) (head : Option Head) (root : Option Cid) (mst : Mst)
    (tree : MstNode) (empty : Option Cid) (m : List (Key × Cid)) : Prop where
  root_eq : headRoot store head = .ok root
  isSome : head.isSome → root.isSome
  head_valid : ∀ h ∈ head, isValidCid h.commit
  ne_noCid : root ≠ some noCid
  init_eq : (Mst.createMst root).init store = .ok mst
  held : Held loose empty ⟨store, mst⟩ tree m
  emptyStored : EmptyStored store empty
  records : ∀ e ∈ m, ∃ bytes, store.get e.2 = some bytes

/-- The repository at the head is stored, with the map `m`. -/
def HeadStored (store : BlockStore) (head : Option Head) (m : List (Key × Cid)) : Prop :=
  ∃ root mst tree empty, OpenAt store head root mst tree empty m

variable {head : Option Head} {root : Option Cid} {mst : Mst} {tree : MstNode}
  {empty : Option Cid} {m m' : List (Key × Cid)}

theorem Held.mono {D : Discipline} (h : Held D empty ⟨store, mst⟩ tree m)
    (hsub : store.Sub store') : Held D empty ⟨store', mst⟩ tree m :=
  ⟨h.toHolds, fun hm b hb => hsub.get (h.stored hm b hb)⟩

theorem EmptyStored.mono (h : EmptyStored store empty) (hsub : store.Sub store') :
    EmptyStored store' empty :=
  fun root hroot => (h root hroot).imp_right hsub.get

theorem OpenAt.mono (h : OpenAt store head root mst tree empty m) (hsub : store.Sub store') :
    OpenAt store' head root mst tree empty m where
  root_eq := by
    have hroot := h.root_eq
    cases head with
    | none => exact hroot
    | some head =>
      rw [headRoot, getMstRoot] at hroot ⊢
      cases hb : store.get head.commit with
      | none =>
        rw [hb] at hroot
        cases hroot
        exact absurd (h.isSome rfl) (by simp)
      | some bytes =>
        rw [hb] at hroot
        rw [hsub.get hb]
        exact hroot
  isSome := h.isSome
  head_valid := h.head_valid
  ne_noCid := h.ne_noCid
  init_eq := init_mono hsub h.init_eq
  held := h.held.mono hsub
  emptyStored := h.emptyStored.mono hsub
  records e he := (h.records e he).imp fun _ hb => hsub.get hb

theorem HeadStored.mono (h : HeadStored store head m) (hsub : store.Sub store') :
    HeadStored store' head m := by
  obtain ⟨root, mst, tree, empty, h⟩ := h
  exact ⟨root, mst, tree, empty, h.mono hsub⟩

/-- The head determines the map. -/
theorem HeadStored.unique (h : HeadStored store head m) (h' : HeadStored store head m') :
    m = m' := by
  obtain ⟨root, mst, tree, empty, h⟩ := h
  obtain ⟨root', mst', tree', empty', h'⟩ := h'
  obtain rfl : root = root' := Except.ok.inj (h.root_eq.symm.trans h'.root_eq)
  obtain rfl : mst = mst' := Except.ok.inj (h.init_eq.symm.trans h'.init_eq)
  rw [← h.held.entries, h'.held.entries]

/-- A repository without a head. -/
theorem headStored_none (store : BlockStore) : HeadStored store none [] := by
  obtain ⟨s, tree, hinit, _, h, _⟩ := init_none store
  rw [Instance.init, bind_eq_ok] at hinit
  obtain ⟨mst, hmst, hs⟩ := hinit
  cases hs
  have hheld : Held loose none ⟨store, mst⟩ tree [] :=
    ⟨{ h with wf := h.wf.loose }, fun h => absurd rfl h⟩
  exact ⟨none, mst, tree, none, rfl, by simp, by simp, by simp, hmst, hheld, by simp [EmptyStored],
    by simp⟩

/-! ## Reading a stored repository -/

theorem OpenAt.headMst {head : Head} (h : OpenAt store (some head) root mst tree empty m) :
    headMst store head = .ok (some mst) := by
  have hroot := h.root_eq
  rw [headRoot] at hroot
  obtain ⟨rootCid, rfl⟩ := Option.isSome_iff_exists.1 (h.isSome rfl)
  rw [ComputeContract.headMst, hroot, ok_bind]
  dsimp only
  rw [if_neg fun he => h.ne_noCid (congrArg some he), h.init_eq]
  rfl

theorem readRecord_mono (hsub : store.Sub store') (did : String) (key : Key) {cid : Cid}
    (hb : ∃ bytes, store.get cid = some bytes) :
    readRecord store' did key cid = readRecord store did key cid := by
  obtain ⟨bytes, hb⟩ := hb
  rw [readRecord, readRecord, hb, hsub.get hb]

theorem listLoop_mono (hsub : store.Sub store') (did collection : String) (limit : ℤ) (cursor : Key)
    {es : List (Key × Cid)} (hes : ∀ e ∈ es, ∃ bytes, store.get e.2 = some bytes)
    (results : List RepoRecord) :
    listLoop store' did collection limit cursor results es =
      listLoop store did collection limit cursor results es := by
  induction es generalizing results with
  | nil => rfl
  | cons e es ih =>
    rw [List.forall_mem_cons] at hes
    simp only [listLoop, ih hes.2, readRecord_mono hsub did e.1 hes.1]

/-- The record at a path, in terms of the map. -/
def recordAt (store : BlockStore) (did : String) (m : List (Key × Cid)) (collection rkey : String) :
    Except String (Option RepoRecord) :=
  match m.lookup (recordKey collection rkey) with
  | none => .ok none
  | some cid => readRecord store did (recordKey collection rkey) cid

theorem OpenAt.getRecord {storage : Storage} {did : String}
    (h : OpenAt storage.blocks (storage.getHead did) root mst tree empty m) :
    getRecord storage did = recordAt storage.blocks did m := by
  funext collection rkey
  rw [ComputeContract.getRecord, recordAt]
  cases hhead : storage.getHead did with
  | none =>
    have hroot := h.root_eq
    have hinit := h.init_eq
    rw [hhead] at hroot
    cases hroot
    -- Nothing is stored where there is no head.
    have hm : m = [] := by
      rw [← h.held.entries]
      rw [Mst.init, Mst.createMst, create_nil] at hinit
      cases hinit
      rfl
    rw [hm]
    rfl
  | some head =>
    rw [hhead] at h
    dsimp only
    rw [h.headMst, ok_bind]
    dsimp only
    rw [(h.held.get _).1]
    rfl

/-- Reading a stored repository from a larger storage. -/
theorem HeadStored.reads {storage storage' : Storage} {did : String}
    (h : HeadStored storage.blocks (storage.getHead did) m)
    (hsub : storage.blocks.Sub storage'.blocks) (hhead : storage'.getHead did = storage.getHead did) :
    describe storage' did = describe storage did ∧
      (∀ collection rkey, getRecord storage' did collection rkey =
        getRecord storage did collection rkey) ∧
      ∀ collection limit cursor, listRecords storage' did collection limit cursor =
        listRecords storage did collection limit cursor := by
  obtain ⟨root, mst, tree, empty, h⟩ := h
  have h' := h.mono hsub
  rw [← hhead] at h'
  refine ⟨?_, fun collection rkey => ?_, fun collection limit cursor => ?_⟩
  · rw [describe, describe, hhead]
    cases hc : storage.getHead did with
    | none => rfl
    | some head =>
      rw [hhead, hc] at h'
      rw [hc] at h
      dsimp only
      rw [h.headMst, h'.headMst]
  · rw [h.getRecord, h'.getRecord, recordAt, recordAt]
    cases hl : m.lookup (recordKey collection rkey) with
    | none => rfl
    | some cid => exact readRecord_mono hsub did _ (h.records _ (mem_of_lookup hl))
  · rw [listRecords, listRecords, hhead]
    cases hc : storage.getHead did with
    | none => rfl
    | some head =>
      rw [hhead, hc] at h'
      rw [hc] at h
      dsimp only
      rw [h.headMst, h'.headMst, ok_bind, ok_bind]
      exact listLoop_mono hsub did collection _ _ (h.held.entries.symm ▸ h.records) []

end ComputeContract
