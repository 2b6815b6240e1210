import ComputeContract.Mst.Reload

/-!
# Reopening

An instance is reopened at its root, in the middle of a run.

* `reopen_equivalent_iff`: an instance that stayed in memory, and the one reopened at
  its root, go on in the same way exactly when every node above layer 0 has a leaf of
  its own. The reload puts any other node at layer 0, where the next operations take it
  for a leaf node;
* `durable_map`: through any number of reopenings the instance holds the map of its
  operations, as long as no delete meets two subtrees that it cannot join. Such a
  delete throws inside and is swallowed: the key is gone from the cache and comes
  back from the blocks.
-/

namespace ComputeContract

open MstNode AssocList

/-! ## In the memory and from the blocks -/

/-- The blocks of the trees along a run. -/
def Instance.blocksAlong (s : Instance) : List Op → List (Cid × Bytes)
  | [] => s.blocks
  | op :: ops => s.blocks ++ (s.apply op).blocksAlong ops

/-- The blocks of the trees of a fresh instance along its operations. -/
def Instance.liveBlocksAlong (store : BlockStore) (ops : List Op) : List (Cid × Bytes) :=
  match init store none with
  | .ok s => s.blocksAlong ops
  | .error _ => []

theorem Instance.blocks_subset_blocksAlong (s : Instance) (ops : List Op) :
    ∀ b ∈ s.blocks, b ∈ s.blocksAlong ops := fun b hb => by
  cases ops with
  | nil => exact hb
  | cons op ops => exact List.mem_append_left _ hb

theorem Instance.blocks_run_subset (s : Instance) (ops : List Op) :
    ∀ b ∈ (s.run ops).blocks, b ∈ s.blocksAlong ops := fun b hb => by
  induction ops generalizing s with
  | nil => exact hb
  | cons op ops ih => exact List.mem_append_right _ (ih (s.apply op) hb)

theorem Holds.blocks_eq {D : Discipline} {empty : Option Cid} {s : Instance} {tree : MstNode}
    {m : List (Key × Cid)} (h : Holds D empty s.mst tree m) : s.blocks = tree.blocks := by
  rw [Instance.blocks, Mst.blocks, h.tree_eq]
  rfl

/-- A run in memory leaves the blocks of its tree in the store. -/
theorem Held.run {s : Instance} {tree : MstNode} {m : List (Key × Cid)} (h : Held strict none s tree m)
    (ops : List Op) (hfree : CollisionFree (s.blocksAlong ops)) :
    ∃ tree', Held strict none (s.run ops) tree' (ops.foldl Op.step (m, tree.layer)).1 := by
  induction ops generalizing s tree m with
  | nil => exact ⟨tree, h⟩
  | cons op ops ih =>
    obtain ⟨tree₁, hstep, hlayer⟩ := h.step s.store op
    have h₁ : Holds strict none (s.apply op).mst tree₁ _ := hstep.holds
    have hfree₁ : CollisionFree (tree.blocks ++ tree₁.blocks) := hfree.mono fun b hb => by
      rw [← h.blocks_eq, ← h₁.blocks_eq] at hb
      exact (List.mem_append.1 hb).elim (fun hb => List.mem_append_left _ hb) fun hb =>
        List.mem_append_right _ ((s.apply op).blocks_subset_blocksAlong ops b hb)
    have hrest := ih (h.apply hstep (by simp) hfree₁) (hfree.mono fun b hb => List.mem_append_right _ hb)
    rwa [hlayer] at hrest

/-- The layers of the nodes, from the root down. -/
def MstNode.layers (tree : MstNode) : List ℕ := tree.nodes.map layer

/-- The reload finds the layer of every node. -/
def Rebuilt (tree : MstNode) : Prop :=
  ∀ node ∈ tree.nodes, ownLeaves node.entries ≠ [] ∨ node.layer = 0

/-- The reopened instance `s'` goes on as the instance `s`, from the same layers. -/
structure ReopenEquiv (s s' : Instance) : Prop where
  entries : s'.mst.entries = s.mst.entries
  layers : s'.mst.tree.map MstNode.layers = s.mst.tree.map MstNode.layers
  further : ∀ ops, (s'.run ops).mst.root = (s.run ops).mst.root ∧
    (s'.run ops).mst.entries = (s.run ops).mst.entries

/-- Leaves of the node itself tell its layer. -/
theorem resolvedLayer_eq {layer : ℕ} {es : List NodeEntry} (h : EntriesOk strict layer es) :
    resolvedLayer es = if ownLeaves es = [] then 0 else layer := by
  induction es with
  | nil => rfl
  | cons e es ih =>
    cases e with
    | leaf key value =>
      rw [resolvedLayer, if_neg (by simp [ownLeaves])]
      exact (h.leaf key value List.mem_cons_self).2.2
    | tree node => exact ih h.tail

theorem resolvedLayer_eq_layer_iff {node : MstNode} (h : WF strict node) :
    resolvedLayer node.entries = node.layer ↔ ownLeaves node.entries ≠ [] ∨ node.layer = 0 := by
  rw [resolvedLayer_eq h.entriesOk]
  split_ifs with hown
  · simp [hown, eq_comm]
  · simp [hown]

theorem nodes_reload (node : MstNode) : node.reload.nodes = node.nodes.map reload := by
  induction node using MstNode.ind with | h layer pointer es ih => ?_
  have hes : ∀ es : List NodeEntry,
      (∀ child, .tree child ∈ es → child.reload.nodes = child.nodes.map reload) →
      entryNodes (reloadEntries es) = (entryNodes es).map reload := by
    intro es hsub
    induction es with
    | nil => rfl
    | cons e es ih =>
      have ih := ih fun child hc => hsub child (List.mem_cons_of_mem _ hc)
      cases e with
      | leaf => exact ih
      | tree node =>
        rw [reloadEntries, entryNodes, entryNodes, hsub node List.mem_cons_self, ih, List.map_append]
  rw [nodes, List.map_cons, reload, nodes, hes es ih]

/-- The layers that come back. -/
theorem layers_reload_iff {tree : MstNode} (h : WF strict tree) :
    tree.reload.layers = tree.layers ↔ Rebuilt tree := by
  rw [layers, layers, nodes_reload, List.map_map, List.map_inj_left]
  refine forall₂_congr fun node hn => ?_
  rw [← resolvedLayer_eq_layer_iff (h.of_mem_nodes hn)]
  obtain ⟨_, _, _⟩ := node
  rfl

/-- A tree whose layers come back comes back. -/
theorem reload_eq {tree : MstNode} (h : WF strict tree) (hk : Known tree) (hr : Rebuilt tree) :
    tree.reload = tree := by
  induction tree using MstNode.ind with | h layer pointer es ih => ?_
  obtain ⟨cid, hcid⟩ := hk.pointer
  have hp := h.pointer_eq.resolve_left (by simp [hcid])
  have hl := (resolvedLayer_eq_layer_iff h).2 (hr _ (self_mem_nodes _))
  have hsub : es.map (NodeEntry.mapTree reload) = es.map (NodeEntry.mapTree id) := by
    refine List.map_congr_left fun e he => ?_
    cases e with
    | leaf => rfl
    | tree child =>
      have hc := ih child he (h.entriesOk.child child he).2.2 (hk.sub he) fun n hn =>
        hr n (by rw [nodes]; exact List.mem_cons_of_mem _ (mem_entryNodes.2 ⟨child, he, hn⟩))
      exact congrArg NodeEntry.tree hc
  rw [entries_mk, layer_mk] at hl
  rw [pointer_mk] at hp
  rw [reload, reloadEntries_eq_map, hsub, map_mapTree_id, hl, ← hp]

/-- Two instances with the same tree and map go on in the same way. -/
theorem Holds.further {s s' : Instance} {tree : MstNode} {m : List (Key × Cid)}
    (h : Holds strict none s.mst tree m) (h' : Holds strict none s'.mst tree m) (ops : List Op) :
    (s'.run ops).mst.root = (s.run ops).mst.root ∧
      (s'.run ops).mst.entries = (s.run ops).mst.entries := by
  obtain ⟨tree₁, h₁, hl₁⟩ := h.run ops
  obtain ⟨tree₂, h₂, hl₂⟩ := h'.run ops
  exact ⟨h₂.root_eq h₁ (.inr (hl₂.trans hl₁.symm)), h₂.entries.trans h₁.entries.symm⟩

/-- When an instance in memory is the one reopened at its root: every node above layer 0
    has a leaf of its own. -/
theorem reopen_equivalent_iff (store : BlockStore) (ops : List Op)
    (hsize : (mapAfter ops).length < 2 ^ 31)
    (hfree : CollisionFree (Instance.liveBlocksAlong store ops)) :
    ∃ s tree s', Instance.live store ops = .ok s ∧ s.mst.tree = some tree ∧
      Instance.init s.store s.mst.root = .ok s' ∧ (ReopenEquiv s s' ↔ Rebuilt tree) := by
  obtain ⟨s₀, tree₀, hinit, _, h₀, hlayer⟩ := init_none store
  have hheld : Held strict none s₀ tree₀ [] := ⟨h₀, fun h => absurd rfl h⟩
  rw [Instance.liveBlocksAlong, hinit] at hfree
  obtain ⟨tree, h⟩ := hheld.run ops hfree
  rw [hlayer] at h
  have hfree' : CollisionFree tree.blocks := hfree.mono fun b hb => by
    rw [← h.blocks_eq] at hb
    exact s₀.blocks_run_subset ops b hb
  obtain ⟨hreopen, hheld'⟩ := h.init (sized_of_length (h.leaves ▸ hsize)) hfree'
  refine ⟨s₀.run ops, tree, _, by rw [Instance.live, hinit]; rfl, h.tree_eq, hreopen,
    fun he => ?_, fun hr => ?_⟩
  · have hl := he.layers
    rw [h.tree_eq] at hl
    exact (layers_reload_iff h.wf).1 (Option.some.inj hl)
  · have heq := reload_eq h.wf h.known hr
    have hlive' : Holds strict none ⟨(s₀.run ops).mst.root, some tree.reload, _⟩ tree _ :=
      { h.toHolds with
        tree_eq := congrArg some heq
        nodup := h.sorted.nodup
        lookup := fun _ => rfl }
    refine ⟨hheld'.entries.trans h.entries.symm, ?_, fun more => h.further hlive' more⟩
    rw [h.tree_eq]
    exact congrArg (some ∘ layers) heq

theorem reopen_equivalent_iff_lowerKey :
    ∃ s tree s', Instance.live [] [.set lowerKey sampleCid] = .ok s ∧ s.mst.tree = some tree ∧
      Instance.init s.store s.mst.root = .ok s' ∧ (ReopenEquiv s s' ↔ Rebuilt tree) :=
  reopen_equivalent_iff [] [.set lowerKey sampleCid] (by decide +kernel) (by decide +kernel)

/-- The tree of an emptied instance stays at its layer, that of the reopened one starts
    over: the next key is put at another layer. -/
theorem reopen_not_equivalent : ¬ ∀ (store : BlockStore) (ops : List Op),
    ∃ s s', Instance.live store ops = .ok s ∧ Instance.init s.store s.mst.root = .ok s' ∧
      s'.mst.entries = s.mst.entries ∧ ∀ more,
        (s'.run more).mst.root = (s.run more).mst.root ∧
          (s'.run more).mst.entries = (s.run more).mst.entries := by
  intro h
  obtain ⟨s, s', hs, hs', _, hmore⟩ := h [] [.set upperKey sampleCid, .delete upperKey]
  have hne : (do
      let s ← Instance.live [] [.set upperKey sampleCid, .delete upperKey]
      let s' ← Instance.init s.store s.mst.root
      return decide ((s'.run [.set lowerKey sampleCid]).mst.root =
        (s.run [.set lowerKey sampleCid]).mst.root)) = Except.ok false := by
    decide +kernel
  rw [hs, ok_bind, hs', ok_bind] at hne
  exact of_decide_eq_false (Except.ok.inj hne) (hmore _).1

/-! ## Sessions -/

/-- An operation, or a reopening at the current root. -/
inductive SessionOp
  | op (op : Op)
  | reopen

def SessionOp.applyTo (m : List (Key × Cid)) : SessionOp → List (Key × Cid)
  | .op o => o.applyTo m
  | .reopen => m

/-- The abstract map after a session. -/
def sessionMap (ops : List SessionOp) : List (Key × Cid) := ops.foldl SessionOp.applyTo []

namespace Instance

def step (s : Instance) : SessionOp → Except String Instance
  | .op o => .ok (s.apply o)
  | .reopen => init s.store s.mst.root

def session (s : Instance) : List SessionOp → Except String Instance
  | [] => .ok s
  | op :: ops => do (← s.step op).session ops

/-- The blocks of the trees along a session. -/
def sessionBlocks (s : Instance) : List SessionOp → List (Cid × Bytes)
  | [] => s.blocks
  | op :: ops => s.blocks ++
    match s.step op with
    | .ok s' => s'.sessionBlocks ops
    | .error _ => []

/-- A delete joins its neighbours, a reopening reads lengths that are not negative. -/
def stepOk (s : Instance) : SessionOp → Bool
  | .op (.set _ _) => true
  | .op (.delete key) => s.mst.tree.all fun tree => tree.canDelete key
  | .reopen => s.mst.entries.length < 2 ^ 31

/-- Every step of a session is `stepOk` where it is taken. -/
def sessionOk (s : Instance) : List SessionOp → Bool
  | [] => true
  | op :: ops => s.stepOk op &&
    match s.step op with
    | .ok s' => s'.sessionOk ops
    | .error _ => true

/-- A session of a fresh instance. -/
def freshSession (store : BlockStore) (ops : List SessionOp) : Except String Instance := do
  (← init store none).session ops

def freshSessionOk (store : BlockStore) (ops : List SessionOp) : Bool :=
  match init store none with
  | .ok s => s.sessionOk ops
  | .error _ => true

def freshSessionBlocks (store : BlockStore) (ops : List SessionOp) : List (Cid × Bytes) :=
  match init store none with
  | .ok s => s.sessionBlocks ops
  | .error _ => []

end Instance

variable {s : Instance} {tree : MstNode} {m : List (Key × Cid)}

/-- An operation of a session, wherever the layers are. -/
theorem Holds.loose_step (h : Holds loose none s.mst tree m) (op : Op) (hok : s.stepOk (.op op)) :
    ∃ tree', Step loose none s.mst tree (s.outcome op) tree' (op.applyTo m) := by
  cases op with
  | set key value =>
    obtain ⟨tree', hstep, _⟩ := h.set key value
    exact ⟨tree', hstep⟩
  | delete key =>
    by_cases hmem : key.1 ∈ keys m
    · have hcan : tree.canDelete key := by simpa [Instance.stepOk, h.tree_eq] using hok
      obtain ⟨tree', hstep, _⟩ := h.delete_of_mem hmem hcan
      exact ⟨tree', hstep⟩
    · refine ⟨tree, ?_⟩
      rw [Op.applyTo, erase_of_not_mem hmem]
      exact h.delete_of_not_mem hmem

theorem Instance.blocks_subset_sessionBlocks (s : Instance) (ops : List SessionOp) :
    ∀ b ∈ s.blocks, b ∈ s.sessionBlocks ops := fun b hb => by
  cases ops with
  | nil => exact hb
  | cons op ops => exact List.mem_append_left _ hb

theorem Instance.sessionBlocks_subset {s s' : Instance} {op : SessionOp} (h : s.step op = .ok s')
    (ops : List SessionOp) : ∀ b ∈ s'.sessionBlocks ops, b ∈ s.sessionBlocks (op :: ops) :=
  fun b hb => List.mem_append_right _ (by rw [h]; exact hb)

/-- A step of a session leads on. -/
theorem Held.session_step (h : Held loose none s tree m) {op : SessionOp} {ops : List SessionOp}
    (hok : s.stepOk op) (hfree : CollisionFree (s.sessionBlocks (op :: ops))) :
    ∃ s' tree', s.step op = .ok s' ∧ Held loose none s' tree' (op.applyTo m) := by
  cases op with
  | op o =>
    obtain ⟨tree', hstep⟩ := h.loose_step o hok
    have hholds : Holds loose none (s.apply o).mst tree' _ := hstep.holds
    refine ⟨s.apply o, tree', rfl, h.apply hstep (by simp) (hfree.mono fun b hb => ?_)⟩
    rw [← h.blocks_eq, ← hholds.blocks_eq] at hb
    exact (List.mem_append.1 hb).elim (s.blocks_subset_sessionBlocks _ b) fun hb =>
      s.sessionBlocks_subset rfl ops b ((s.apply o).blocks_subset_sessionBlocks ops b hb)
  | reopen =>
    have hsize : tree.walkLeaves.length < 2 ^ 31 := by
      simpa [Instance.stepOk, h.entries, h.leaves] using hok
    obtain ⟨hreopen, hheld⟩ := h.init (sized_of_length hsize)
      (hfree.mono fun b hb => s.blocks_subset_sessionBlocks _ b (h.blocks_eq ▸ hb))
    exact ⟨_, _, hreopen, hheld⟩

/-- A session leads on, step by step. -/
theorem Held.session (h : Held loose none s tree m) (ops : List SessionOp) (hok : s.sessionOk ops)
    (hfree : CollisionFree (s.sessionBlocks ops)) :
    ∃ s' tree', s.session ops = .ok s' ∧ Held loose none s' tree' (ops.foldl SessionOp.applyTo m) := by
  induction ops generalizing s tree m with
  | nil => exact ⟨s, tree, rfl, h⟩
  | cons op ops ih =>
    rw [Instance.sessionOk, Bool.and_eq_true] at hok
    obtain ⟨s₁, tree₁, hstep, h₁⟩ := h.session_step hok.1 hfree
    rw [hstep] at hok
    obtain ⟨s', tree', hsession, h'⟩ :=
      ih h₁ hok.2 (hfree.mono (Instance.sessionBlocks_subset hstep ops))
    exact ⟨s', tree', by rw [Instance.session, hstep, ok_bind, hsession], h'⟩

/-- The instance holds the map of its operations, through any number of reopenings, as
    long as every delete can join its neighbours. -/
theorem durable_map (store : BlockStore) (ops : List SessionOp)
    (hok : Instance.freshSessionOk store ops)
    (hfree : CollisionFree (Instance.freshSessionBlocks store ops)) :
    ∃ s, Instance.freshSession store ops = .ok s ∧ s.mst.entries = sessionMap ops ∧
      ∀ key, s.mst.get key = (sessionMap ops).lookup key := by
  obtain ⟨s₀, tree₀, hinit, _, h₀, _⟩ := init_none store
  have hheld : Held loose none s₀ tree₀ [] :=
    ⟨{ h₀ with wf := h₀.wf.loose }, fun h => absurd rfl h⟩
  rw [Instance.freshSessionOk, hinit] at hok
  rw [Instance.freshSessionBlocks, hinit] at hfree
  obtain ⟨s, tree, hs, h⟩ := hheld.session ops hok hfree
  exact ⟨s, by rw [Instance.freshSession, hinit, ok_bind, hs], h.entries, fun key => (h.get key).1⟩

theorem durable_map_lowerKey : ∃ s, Instance.freshSession []
      [.op (.set lowerKey sampleCid), .reopen, .op (.delete lowerKey)] = .ok s ∧
    s.mst.entries = sessionMap [.op (.set lowerKey sampleCid), .reopen, .op (.delete lowerKey)] ∧
    ∀ key, s.mst.get key = (sessionMap [.op (.set lowerKey sampleCid), .reopen,
      .op (.delete lowerKey)]).lookup key :=
  durable_map [] [.op (.set lowerKey sampleCid), .reopen, .op (.delete lowerKey)]
    (by decide +kernel) (by decide +kernel)

/-- A key of layer 2. -/
def topKey : MstKey := ⟨⟨"a/18"⟩, by decide⟩

/-- The reload puts the node above the left key at layer 0, and the one that holds the
    right key at layer 1: the delete between them is lost. -/
theorem not_durable_map : ¬ ∀ (store : BlockStore) (ops : List SessionOp),
    ∃ s, Instance.freshSession store ops = .ok s ∧ s.mst.entries = sessionMap ops ∧
      ∀ key, s.mst.get key = (sessionMap ops).lookup key := by
  intro h
  obtain ⟨s, hs, _, hget⟩ := h [] [.op (.set lowerKey sampleCid), .op (.set topKey sampleCid),
    .op (.set upperKey sampleCid), .reopen, .op (.delete topKey), .reopen]
  have hback : (Instance.freshSession [] [.op (.set lowerKey sampleCid), .op (.set topKey sampleCid),
      .op (.set upperKey sampleCid), .reopen, .op (.delete topKey), .reopen]).toOption.bind
        (·.mst.get topKey) = some sampleCid.1 := by
    decide +kernel
  rw [hs] at hback
  have hnone := (hget topKey).symm.trans hback
  revert hnone
  decide +kernel

end ComputeContract
