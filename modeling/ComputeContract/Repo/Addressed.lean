import ComputeContract.Repo.Chain

/-!
# Content addressing

Every block is put under the CID of its own bytes: the record by `applyWrite`, the nodes by the
tree, the empty node and the commit by `applyWrites`. So it is in every storage that calls lead to,
also after calls that threw.

* `addressed_call`: what a call puts is addressed by its content;
* `Storage.Linked`: with that, the head of every repository is the end of a chain of commits;
* `linked_run`: both hold after every run.
-/

namespace ComputeContract

/-- Each block is under the CID of its bytes. -/
def Addressed (blocks : List (Cid × Bytes)) : Prop := ∀ b ∈ blocks, b.1 = cidForBytes b.2

namespace Addressed

variable {blocks blocks' : List (Cid × Bytes)}

theorem nil : Addressed [] := fun _ hb => absurd hb List.not_mem_nil

theorem append (h : Addressed blocks) (h' : Addressed blocks') : Addressed (blocks ++ blocks') :=
  fun b hb => (List.mem_append.1 hb).elim (h b) (h' b)

theorem cons (bytes : Bytes) (h : Addressed blocks) :
    Addressed ((cidForBytes bytes, bytes) :: blocks) :=
  List.forall_mem_cons.2 ⟨rfl, h⟩

theorem putAll (h : Addressed blocks) (h' : Addressed blocks') :
    Addressed (BlockStore.putAll blocks blocks') :=
  .append (fun b hb => h' b (List.mem_reverse.1 hb)) h

theorem isValidCid (h : Addressed blocks) {b : Cid × Bytes} (hb : b ∈ blocks) : isValidCid b.1 := by
  rw [h b hb]
  exact isValidCid_cidFromDigest _

end Addressed

/-! ## What the tree puts -/

theorem serialize_addressed {node : MstNode} {r : Cid × Bytes × MstNode}
    (h : node.serialize = .ok r) : r.1 = cidForBytes r.2.1 := by
  obtain ⟨layer, pointer, entries⟩ := node
  rw [MstNode.serialize] at h
  obtain ⟨_, -, h⟩ := bind_eq_ok.1 h
  obtain ⟨_, -, h⟩ := bind_eq_ok.1 h
  obtain ⟨bytes, -, h⟩ := bind_eq_ok.1 h
  cases h
  rfl

theorem addressed_collectEntries {existing : List Cid} {es : List NodeEntry}
    (hsub : ∀ node, .tree node ∈ es → ∀ r, node.collectBlocks existing = .ok r → Addressed r.2)
    {r : List NodeEntry × List (Cid × Bytes)} (h : MstNode.collectEntries existing es = .ok r) :
    Addressed r.2 := by
  induction es generalizing r with
  | nil =>
    rw [MstNode.collectEntries] at h
    cases h
    exact .nil
  | cons e es ih =>
    have hrestOk : ∀ r, MstNode.collectEntries existing es = .ok r → Addressed r.2 :=
      fun r => ih fun node hnode => hsub node (List.mem_cons_of_mem _ hnode)
    cases e with
    | leaf key value =>
      rw [MstNode.collectEntries] at h
      obtain ⟨rest, hrest, h⟩ := bind_eq_ok.1 h
      cases h
      exact hrestOk rest hrest
    | tree node =>
      rw [MstNode.collectEntries] at h
      obtain ⟨first, hfirst, h⟩ := bind_eq_ok.1 h
      obtain ⟨rest, hrest, h⟩ := bind_eq_ok.1 h
      cases h
      exact .append (hsub node List.mem_cons_self _ hfirst) (hrestOk _ hrest)

theorem addressed_collectBlocks {existing : List Cid} {node : MstNode}
    {r : MstNode × List (Cid × Bytes)} (h : node.collectBlocks existing = .ok r) :
    Addressed r.2 := by
  induction node using MstNode.ind generalizing r with | h layer pointer es ih => ?_
  rw [MstNode.collectBlocks] at h
  obtain ⟨⟨cid, bytes, resolved⟩, hserialize, h⟩ := bind_eq_ok.1 h
  obtain ⟨rest, hrest, h⟩ := bind_eq_ok.1 h
  obtain rfl : cid = cidForBytes bytes := serialize_addressed hserialize
  cases h
  refine .append ?_ (addressed_collectEntries (fun node hnode r => ih node hnode) hrest)
  split_ifs
  · exact .nil
  · exact .cons bytes .nil

theorem addressed_persist (mst : Mst) (tree : MstNode) (emptyRoot : Cid → Option Cid) :
    Addressed (mst.persist tree emptyRoot).puts := by
  rw [Mst.persist]
  cases hcollect : tree.collectBlocks mst.root.toList with
  | error e => exact .nil
  | ok collected =>
    have hputs := addressed_collectBlocks hcollect
    dsimp only
    cases collected.1.serialize with
    | error e => exact hputs
    | ok serialized => exact hputs

theorem addressed_set (mst : Mst) (key : Key) (value : Cid) :
    Addressed (mst.set key value).puts := by
  rw [Mst.set]
  split
  · exact .nil
  · dsimp only
    split
    · exact .nil
    · exact addressed_persist _ _ _

theorem addressed_delete (mst : Mst) (key : Key) : Addressed (mst.delete key).puts := by
  rw [Mst.delete]
  split
  · exact .nil
  · split_ifs
    · exact .nil
    · dsimp only
      split
      · exact .nil
      · exact addressed_persist _ _ _

/-! ## What a call puts -/

theorem addressed_applyWrite (mst : Mst) (write : WriteOp) :
    Addressed (applyWrite mst write).puts := by
  rw [applyWrite]
  dsimp only
  split
  · split
    · exact .nil
    · exact addressed_delete mst write.key
  · split
    · exact .nil
    · split
      · exact .nil
      · exact .cons _ (addressed_set mst write.key _)

theorem addressed_applyAll (mst : Mst) (writes : List WriteOp) :
    Addressed (applyAll mst writes).puts := by
  induction writes generalizing mst with
  | nil => exact .nil
  | cons write writes ih =>
    rw [applyAll]
    dsimp only
    split
    · exact addressed_applyWrite mst write
    · exact .append (addressed_applyWrite mst write) (ih _)

theorem addressed_commitRoot (root : Option Cid) : Addressed (commitRoot root).2 := by
  cases root with
  | none => exact .cons emptyBlock .nil
  | some root => exact .nil

/-- A call only puts blocks, also one that throws, and each under the CID of its bytes. -/
theorem addressed_call (call : Call) (storage : Storage) : ∃ puts, Addressed puts ∧
    (call.apply storage).blocks = storage.blocks.putAll puts := by
  rw [Call.apply, applyWrites]
  split_ifs
  · exact ⟨[], .nil, rfl⟩
  · dsimp only
    split
    · exact ⟨[], .nil, rfl⟩
    · next prevRoot mst _ =>
      have hall := addressed_applyAll mst call.writes
      split
      · exact ⟨_, hall, rfl⟩
      · have hroot := hall.append (addressed_commitRoot (applyAll mst call.writes).mst.root)
        split
        · exact ⟨_, hroot, (BlockStore.putAll_append _ _ _).symm⟩
        · next carBlocks commitBytes _ =>
          refine ⟨_, hroot.append (.cons commitBytes .nil), ?_⟩
          rw [BlockStore.putAll_append, BlockStore.putAll_append]

/-! ## Over a run -/

/-- What is there stays. -/
theorem subset_call (call : Call) (storage : Storage) :
    storage.blocks ⊆ (call.apply storage).blocks := by
  obtain ⟨puts, -, hblocks⟩ := addressed_call call storage
  rw [hblocks]
  exact List.subset_append_right _ _

theorem subset_run (calls : List Call) (storage : Storage) :
    storage.blocks ⊆ (calls.foldl Call.apply storage).blocks := by
  induction calls generalizing storage with
  | nil => exact List.Subset.refl _
  | cons call calls ih => exact List.Subset.trans (subset_call call storage) (ih _)

/-- The blocks are addressed by their content, and every head is the end of a chain. -/
structure Storage.Linked (storage : Storage) : Prop where
  addressed : Addressed storage.blocks
  chain : ∀ did, ∃ mades, Committed storage.blocks (storage.getHead did) mades

theorem linked_nil : Storage.Linked ⟨[], []⟩ := ⟨.nil, fun _ => ⟨[], rfl⟩⟩

/-- What a call that succeeds did: its commit, and the slice of it. -/
structure Sealed (call : Call) (storage : Storage) (event : CommitEvent) (prevRoot : Option Cid)
    (commit : CommitData) (sig bytes : Bytes) (store : BlockStore) : Prop where
  opened : headRoot storage.blocks (storage.getHead call.did) = .ok prevRoot
  block : CommitBlock commit sig bytes
  prev : commit.prev = (storage.getHead call.did).map Head.commit
  commit_eq : event.commit = cidForBytes bytes
  since_eq : event.since = (storage.getHead call.did).map Head.rev
  sub : storage.blocks ⊆ store
  slice : (diff store prevRoot (some commit.data) >>= buildCarSlice store) = .ok event.blocks
  blocks_eq : (call.apply storage).blocks = store.putAll [(event.commit, bytes)]
  heads_eq : (call.apply storage).heads =
    AssocList.set call.did ⟨event.commit, event.rev⟩ storage.heads

/-- A call that succeeds seals a commit. -/
theorem Storage.Linked.sealed {storage : Storage} (h : storage.Linked) {call : Call}
    {event : CommitEvent} (hresult : call.result storage = .ok event) :
    ∃ prevRoot commit sig bytes store,
      Sealed call storage event prevRoot commit sig bytes store := by
  rcases applyWrites_cases call.repo call.rev call.did call.writes storage with
    ⟨e, puts, hout⟩ | ⟨prevRoot, mst, ops, carBlocks, sig, bytes, hdid, hopen, -, hsig, hencode,
      hslice, hout⟩
  · cases hresult.symm.trans (congrArg Prod.fst hout)
  · obtain rfl := Except.ok.inj (hresult.symm.trans (congrArg Prod.fst hout))
    have happly : call.apply storage = _ := congrArg Prod.snd hout
    obtain ⟨mades, hchain⟩ := h.chain call.did
    have hroot : headRoot storage.blocks (storage.getHead call.did) = .ok prevRoot := by
      rw [openMst] at hopen
      obtain ⟨root, hroot, hopen⟩ := bind_eq_ok.1 hopen
      obtain ⟨opened, -, hopen⟩ := bind_eq_ok.1 hopen
      cases hopen
      exact hroot
    refine ⟨prevRoot, _, sig, bytes, _, hroot, .mk hencode (hdid ▸ call.repo.did_plain) rfl
      ((hchain.rootValid hopen).applyAll call.writes).commitRoot hchain.prev_valid hsig, rfl, rfl,
      rfl, ?_, hslice, ?_, ?_⟩
    · exact List.Subset.trans (List.subset_append_right _ _) (List.subset_append_right _ _)
    · rw [happly]
    · rw [happly]

theorem Storage.Linked.call {storage : Storage} (h : storage.Linked) (call : Call)
    (hfree : CollisionFree (call.apply storage).blocks) : (call.apply storage).Linked := by
  obtain ⟨puts, hputs, hblocks⟩ := addressed_call call storage
  refine ⟨hblocks ▸ h.addressed.putAll hputs, fun did => ?_⟩
  have hsub : storage.blocks.Sub (call.apply storage).blocks := by
    rw [hblocks] at hfree ⊢
    exact .putAll hfree
  obtain ⟨mades, hchain⟩ := h.chain did
  cases hresult : call.result storage with
  | error e =>
    have hheads : (call.apply storage).getHead did = storage.getHead did := by
      rcases applyWrites_cases call.repo call.rev call.did call.writes storage with
        ⟨e, puts, hout⟩ | ⟨_, _, _, _, _, _, _, _, _, _, _, _, hout⟩
      · rw [Call.apply, congrArg Prod.snd hout]
        rfl
      · cases hresult.symm.trans (congrArg Prod.fst hout)
    rw [hheads]
    exact ⟨mades, hchain.mono hsub⟩
  | ok event =>
    obtain ⟨prevRoot, commit, sig, bytes, store, hsealed⟩ := h.sealed hresult
    rw [Storage.getHead, hsealed.heads_eq, AssocList.lookup_set]
    split_ifs with hdid
    · subst hdid
      have hget : (call.apply storage).blocks.get event.commit = some bytes := by
        rw [hsealed.blocks_eq]
        exact List.lookup_cons_self
      refine ⟨⟨event, Cbor.encode (.object (commitToObj commit))⟩ :: mades, rfl, commit, sig, bytes,
        _, hget, ?_, hsealed.block, hsealed.prev, hsealed.since_eq, rfl, hchain.mono hsub⟩
      rw [hsealed.commit_eq]
      exact isValidCid_cidFromDigest _
    · exact ⟨mades, hchain.mono hsub⟩

/-- In every state that a run leads to, blocks are addressed by their content and heads are linked;
    no two blocks have one CID. -/
theorem linked_run {storage : Storage} (h : storage.Linked) (calls : List Call)
    (hfree : CollisionFree (calls.foldl Call.apply storage).blocks) :
    (calls.foldl Call.apply storage).Linked := by
  induction calls generalizing storage with
  | nil => exact h
  | cons call calls ih =>
    refine ih (h.call call (hfree.mono fun b hb => ?_)) hfree
    exact subset_run calls _ hb

end ComputeContract
