import ComputeContract.Lib.Search
import ComputeContract.Repo.Addressed
import ComputeContract.Repo.Export

/-!
# The slice of an event

An event carries a CAR file: the nodes of the tree that it commits, without those of the tree
before. The two walks that tell them are depth-first searches over the links of nodes.

* `mem_diff`: what the walks tell;
* `slice_exact`: what a consumer reads from the file of an event, in every run;
* `Acyclic`: no block is under itself, as a CID is a hash of what is under it. So the commit, whose
  block names the tree and the commit before, is never in its own slice.
-/

namespace ComputeContract

open Relation

/-! ## The links of a block -/

/-- The CIDs that a block names: as a commit, and as a node. -/
def blockLinks (bytes : Bytes) : List Cid :=
  (match decodeCommit bytes with
    | .ok commit => commit.data :: commit.prev.toList
    | .error _ => []) ++
  match decodeNodeData bytes with
  | .ok data => data.l.toList ++ data.e.filterMap TreeNodeEntry.t ++ data.e.map TreeNodeEntry.v
  | .error _ => []

section
variable (store : BlockStore)

/-- The block at `cid` names `child`. -/
def IsLink (cid child : Cid) : Prop := ∃ bytes, store.get cid = some bytes ∧ child ∈ blockLinks bytes

/-- No block is under itself. -/
def Acyclic : Prop := ∀ cid, ¬ TransGen (IsLink store) cid cid

/-- A node of the tree at `root`. -/
def IsNode (root cid : Cid) : Prop := ReflTransGen (IsChild store) root cid

end

variable {store store' : BlockStore}

theorem isLink_of_isChild {cid child : Cid} (h : IsChild store cid child) :
    IsLink store cid child := by
  obtain ⟨bytes, data, hget, hdata, hchild⟩ := h
  refine ⟨bytes, hget, List.mem_append_right _ ?_⟩
  rw [hdata]
  exact List.mem_append_left _ hchild

theorem links_of_isNode {root cid : Cid} (h : IsNode store root cid) :
    ReflTransGen (IsLink store) root cid := by
  induction h with
  | refl => exact .refl
  | tail _ hstep ih => exact ih.tail (isLink_of_isChild hstep)

/-- Where every block names only what is ranked lower, there is no cycle. -/
theorem acyclic_of_rank (rank : Cid → ℕ)
    (h : ∀ b ∈ store, ∀ child ∈ blockLinks b.2, rank child < rank b.1) : Acyclic store := by
  intro cid hcycle
  have hlower : ∀ {a c}, TransGen (IsLink store) a c → rank c < rank a := by
    intro a c hpath
    have hlink : ∀ {a c}, IsLink store a c → rank c < rank a := by
      rintro a c ⟨bytes, hget, hmem⟩
      exact h (a, bytes) (AssocList.mem_of_lookup hget) c hmem
    induction hpath with
    | single hstep => exact hlink hstep
    | tail _ hstep ih => exact (hlink hstep).trans ih
  exact lt_irrefl _ (hlower hcycle)

/-! ## The two walks -/

/-- The children of the node at a CID, none where its block is missing. -/
def nodeChildren (store : BlockStore) (cid : Cid) : Except String (List Cid) :=
  match store.get cid with
  | none => .ok []
  | some bytes => do
    let data ← decodeNodeData bytes
    return data.l.toList ++ data.e.filterMap TreeNodeEntry.t

/-- The walk is a depth-first search. -/
theorem collectCids_eq (store : BlockStore) (fuel : ℕ) : collectCids store fuel =
    Search.search "Maximum call stack size exceeded" (nodeChildren store) fuel := by
  induction fuel with
  | zero => rfl
  | succ fuel ih =>
    funext met cid
    rw [collectCids, Search.search, ih, nodeChildren]
    split_ifs
    · rfl
    · cases store.get cid with
      | none => rfl
      | some bytes =>
        dsimp only
        cases decodeNodeData bytes <;> rfl

theorem isNext_nodeChildren : Search.IsNext (nodeChildren store) = IsChild store := by
  ext cid child
  constructor
  · rintro ⟨children, hchildren, hmem⟩
    rw [nodeChildren] at hchildren
    cases hget : store.get cid with
    | none =>
      rw [hget] at hchildren
      cases hchildren
      cases hmem
    | some bytes =>
      rw [hget] at hchildren
      obtain ⟨data, hdata, hchildren⟩ := bind_eq_ok.1 hchildren
      cases hchildren
      exact ⟨bytes, data, hget, hdata, hmem⟩
  · rintro ⟨bytes, data, hget, hdata, hmem⟩
    refine ⟨_, ?_, hmem⟩
    rw [nodeChildren, hget]
    dsimp only
    rw [hdata]
    rfl

/-- The nodes of the new tree that are not in the old one, each once. -/
theorem mem_diff {oldRoot newRoot : Option Cid} {changed : List Cid}
    (h : diff store oldRoot newRoot = .ok changed) : changed.Nodup ∧ ∀ cid, cid ∈ changed ↔
      (∃ root ∈ newRoot, IsNode store root cid) ∧ ¬ ∃ root ∈ oldRoot, IsNode store root cid := by
  rw [diff, collectCids_eq] at h
  obtain ⟨oldCids, hold, h⟩ := bind_eq_ok.1 h
  obtain ⟨newCids, hnew, h⟩ := bind_eq_ok.1 h
  cases h
  have hmem : ∀ {root : Option Cid} {met : List Cid}, root.toList.foldlM (Search.search
      "Maximum call stack size exceeded" (nodeChildren store) (store.length + 2)) [] = .ok met →
      ∀ cid, cid ∈ met ↔ ∃ r ∈ root, IsNode store r cid := by
    intro root met hmet cid
    rw [Search.mem_search hmet cid, isNext_nodeChildren]
    simp only [Option.mem_toList]
    rfl
  refine ⟨(Search.nodup_search hnew).filter _, fun cid => ?_⟩
  rw [List.mem_filter, decide_eq_true_eq, hmem hold, hmem hnew]

/-! ## The file -/

/-- The blocks of some CIDs that are in the store. -/
def blocksOf (store : BlockStore) (cids : List Cid) : List (Cid × Bytes) :=
  cids.filterMap fun cid => (store.get cid).map (cid, ·)

theorem mem_blocksOf {cids : List Cid} {b : Cid × Bytes} :
    b ∈ blocksOf store cids ↔ b.1 ∈ cids ∧ store.get b.1 = some b.2 := by
  obtain ⟨cid, bytes⟩ := b
  simp only [blocksOf, List.mem_filterMap, Option.map_eq_some_iff, Prod.mk.injEq]
  constructor
  · rintro ⟨_, hmem, _, hget, rfl, rfl⟩
    exact ⟨hmem, hget⟩
  · rintro ⟨hmem, hget⟩
    exact ⟨cid, hmem, bytes, hget, rfl, rfl⟩

theorem keys_blocksOf (store : BlockStore) (cids : List Cid) :
    AssocList.keys (blocksOf store cids) = cids.filter fun cid => (store.get cid).isSome := by
  induction cids with
  | nil => rfl
  | cons cid cids ih =>
    rw [blocksOf, List.filterMap_cons, List.filter_cons]
    cases store.get cid with
    | none => exact ih
    | some bytes => exact congrArg (cid :: ·) ih

/-- The slice is a CAR file without roots. -/
theorem buildCarSlice_eq (store : BlockStore) (cids : List Cid) :
    buildCarSlice store cids = carOf [] (blocksOf store cids) := by
  rw [buildCarSlice, carOf]
  refine congrArg (Cbor.encode (carHeader []) >>= ·) (funext fun header =>
    congrArg (fun parts => Except.ok (varintEncode header.length ++ header ++ parts)) ?_)
  induction cids with
  | nil => rfl
  | cons cid cids ih =>
    rw [List.flatMap_cons, ih, blocksOf, blocksOf, List.filterMap_cons]
    cases store.get cid with
    | none => rfl
    | some bytes =>
      dsimp only [Option.map_some]
      rw [List.flatMap_cons, carBlock, List.length_append, List.append_assoc (varintEncode _)]

/-- Short blocks come back from a slice. -/
theorem imports_slice {cids : List Cid} {car : Bytes} (h : buildCarSlice store cids = .ok car)
    (hshort : ∀ block ∈ blocksOf store cids, ShortBlock block) :
    Imports car ([], blocksOf store cids) := by
  rw [buildCarSlice_eq] at h
  obtain ⟨header, hheader, hlen⟩ : ∃ header, Cbor.encode (carHeader []) = .ok header ∧
      header.length < 2 ^ 31 := ⟨_, rfl, by decide⟩
  refine ⟨(blocksOf store cids).length + 1, fun fuel hfuel => ?_⟩
  exact importCar_carOf (by decide) (List.forall_mem_nil _) hheader hlen hshort h hfuel

/-! ## The slice of a call -/

/-- What is read from the file of an event: the nodes of the tree that it commits without those of
    the tree before, with their blocks, each once, and not the commit. -/
def Sliced (before after : Storage) (did : String) (event : CommitEvent) : Prop :=
  ∃ prevRoot root blocks, headRoot before.blocks (before.getHead did) = .ok prevRoot ∧
    getMstRoot after.blocks event.commit = .ok (some root) ∧ Imports event.blocks ([], blocks) ∧
    (AssocList.keys blocks).Nodup ∧ event.commit ∉ AssocList.keys blocks ∧
    ∀ cid bytes, (cid, bytes) ∈ blocks ↔ after.blocks.get cid = some bytes ∧
      IsNode after.blocks root cid ∧ ¬ ∃ old ∈ prevRoot, IsNode after.blocks old cid

section
variable {call : Call} {storage : Storage} {event : CommitEvent} {prevRoot : Option Cid}
  {commit : CommitData} {sig bytes : Bytes}

namespace Sealed

variable (h : Sealed call storage event prevRoot commit sig bytes store)
include h

theorem get_commit : (call.apply storage).blocks.get event.commit = some bytes := by
  rw [h.blocks_eq]
  exact List.lookup_cons_self

theorem get_of_ne {cid : Cid} (hne : cid ≠ event.commit) :
    (call.apply storage).blocks.get cid = store.get cid := by
  rw [h.blocks_eq, BlockStore.get]
  exact (AssocList.lookup_cons ..).trans (if_neg hne)

/-- The block of the commit adds no child: as a node, it would be empty. -/
theorem isChild_eq (hsub : store.Sub (call.apply storage).blocks) :
    IsChild (call.apply storage).blocks = IsChild store := by
  ext cid child
  constructor
  · rintro ⟨block, data, hget, hdata, hmem⟩
    by_cases hcid : cid = event.commit
    · subst hcid
      obtain rfl := Option.some.inj (h.get_commit.symm.trans hget)
      obtain rfl := Except.ok.inj (h.block.decodeNodeData.symm.trans hdata)
      cases hmem
    · exact ⟨block, data, h.get_of_ne hcid ▸ hget, hdata, hmem⟩
  · rintro ⟨block, data, hget, hdata, hmem⟩
    exact ⟨block, data, hsub.get hget, hdata, hmem⟩

/-- The commit names its tree, so it is no node of it. -/
theorem not_isNode (hacyclic : Acyclic (call.apply storage).blocks) :
    ¬ IsNode (call.apply storage).blocks commit.data event.commit := by
  intro hnode
  obtain ⟨decoded, hdecoded, hdata, -⟩ := h.block.decodeCommit
  have hlink : IsLink (call.apply storage).blocks event.commit commit.data := by
    refine ⟨bytes, h.get_commit, List.mem_append_left _ ?_⟩
    rw [hdecoded, ← hdata]
    exact List.mem_cons_self
  exact hacyclic _ (.head' hlink (links_of_isNode hnode))

end Sealed

end

/-- In every run, the file of an event is read as the nodes that its commit adds. -/
theorem slice_exact (calls : List Call) (call : Call) {event : CommitEvent}
    (hresult : call.result (calls.foldl Call.apply ⟨[], []⟩) = .ok event)
    (hfree : CollisionFree (call.apply (calls.foldl Call.apply ⟨[], []⟩)).blocks)
    (hacyclic : Acyclic (call.apply (calls.foldl Call.apply ⟨[], []⟩)).blocks)
    (hshort : ∀ b ∈ (call.apply (calls.foldl Call.apply ⟨[], []⟩)).blocks,
      CIDV1_LEN + b.2.length < 2 ^ 31) :
    Sliced (calls.foldl Call.apply ⟨[], []⟩) (call.apply (calls.foldl Call.apply ⟨[], []⟩)) call.did
      event := by
  generalize hstorage : calls.foldl Call.apply ⟨[], []⟩ = storage at *
  have hlinked : storage.Linked := by
    rw [← hstorage] at hfree ⊢
    exact linked_run linked_nil calls (hfree.mono fun b hb => subset_call call _ hb)
  have haddressed := (hlinked.call call hfree).addressed
  obtain ⟨prevRoot, commit, sig, bytes, store, h⟩ := hlinked.sealed hresult
  have hsub : store.Sub (call.apply storage).blocks := by
    rw [h.blocks_eq] at hfree ⊢
    exact .putAll hfree
  have hnodes : IsNode (call.apply storage).blocks = IsNode store := by
    funext root cid
    rw [IsNode, IsNode, h.isChild_eq hsub]
  obtain ⟨changed, hdiff, hslice⟩ := bind_eq_ok.1 h.slice
  obtain ⟨hnodup, hchanged⟩ := mem_diff hdiff
  have hcommit := h.not_isNode hacyclic
  rw [hnodes] at hcommit
  have hchanged' : ∀ cid, cid ∈ changed ↔ IsNode store commit.data cid ∧
      ¬ ∃ root ∈ prevRoot, IsNode store root cid := by
    intro cid
    rw [hchanged]
    simp
  refine ⟨prevRoot, commit.data, blocksOf store changed, h.opened, h.block.getMstRoot h.get_commit,
    imports_slice hslice fun block hblock => ?_, ?_, fun hmem => ?_, fun cid block => ?_⟩
  · have hmem : block ∈ (call.apply storage).blocks :=
      AssocList.mem_of_lookup (hsub.get (mem_blocksOf.1 hblock).2)
    exact ⟨length_of_isValidCid (haddressed.isValidCid hmem), hshort block hmem⟩
  · rw [keys_blocksOf]
    exact hnodup.filter _
  · rw [keys_blocksOf] at hmem
    exact hcommit ((hchanged' _).1 (List.mem_of_mem_filter hmem)).1
  · rw [mem_blocksOf, hchanged', hnodes]
    constructor
    · rintro ⟨⟨hnode, hold⟩, hget⟩
      exact ⟨hsub.get hget, hnode, hold⟩
    · rintro ⟨hget, hnode, hold⟩
      refine ⟨⟨hnode, hold⟩, ?_⟩
      -- The block of the commit is the only one that was put after the walks.
      rwa [h.get_of_ne] at hget
      rintro rfl
      exact hcommit hnode

/-- The number of blocks of a store from a CID on. -/
def rankIn (store : BlockStore) (cid : Cid) : ℕ :=
  if cid ∈ AssocList.keys store then store.length - (AssocList.keys store).idxOf cid else 0

/-- A record was created. -/
def sampleCreated : Storage := [sampleCall [(.create, .text "one")]].foldl Call.apply ⟨[], []⟩

/-- It is updated. -/
def sampleUpdate : Call := sampleCall [(.update, .text "two")]

theorem slice_exact_sampleUpdate : ∃ event, sampleUpdate.result sampleCreated = .ok event ∧
    Sliced sampleCreated (sampleUpdate.apply sampleCreated) "did:plc:abc" event := by
  have hok : (sampleUpdate.result sampleCreated).isOk := by decide +kernel
  cases hresult : sampleUpdate.result sampleCreated with
  | error e =>
    rw [hresult] at hok
    cases hok
  | ok event =>
    have hacyclic : Acyclic (sampleUpdate.apply sampleCreated).blocks :=
      acyclic_of_rank (rankIn (sampleUpdate.apply sampleCreated).blocks) (by decide +kernel)
    exact ⟨event, rfl, slice_exact [sampleCall [(.create, .text "one")]] sampleUpdate hresult
      (by decide +kernel) hacyclic (by decide +kernel)⟩

end ComputeContract
