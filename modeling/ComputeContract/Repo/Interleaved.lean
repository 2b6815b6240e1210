import ComputeContract.Repo.Atomic

/-!
# Calls that overlap

A call of `applyWrites` waits for the storage at every block that it reads or puts, and nothing
keeps another call out in the meantime. A state holds the calls in flight, each where it is in the
code, over one storage; a step takes one of them to its next await. What is read is taken at one
instant, as the blocks only grow (`BlockStore.Sub`).

* `advance_alone`: a call that is not interrupted is `applyWrites`;
* `consistent`: in every order of the steps, whatever is a head is stored, and each commit is the
  batch of its call on the map of the head that it read;
* `replays`: where every event names the rev before it, the operations replay to the map of the
  last commit. A call that moves the head over another one shows as a break.
-/

namespace ComputeContract

open MstNode AssocList

/-! ## A call in flight -/

/-- What a call has opened and taken. -/
structure OpenTree where
  /-- The head that was read. -/
  head : Option Head
  prevRoot : Option Cid
  mst : Mst
  ops : List CommitOp

/-- Where a call is in the code. -/
inductive CallPhase
  | waiting
  | opening (head : Option Head)
  | writing (opened : OpenTree) (todo : List WriteOp)
  | sealing (opened : OpenTree) (root : Cid)
  | moving (head : Option Head) (event : CommitEvent)
  /-- The head is moved, and the event is not yet with the sequencer. -/
  | appending (event : CommitEvent)
  | done (event : CommitEvent)
  | failed (error : RepoError)
  /-- Blocks are put one by one, and then it goes on. -/
  | putting (blocks : List (Cid × Bytes)) (next : CallPhase)

/-- The calls in flight. -/
structure Flight where
  call : Call
  phase : CallPhase

/-- The storage, the calls over it, and what the sequencer was given. -/
structure Flights where
  storage : Storage
  flights : List Flight
  events : List CommitEvent

/-- A call up to its next await: the storage, and where it is then. -/
def Call.advance (call : Call) (storage : Storage) : CallPhase → Storage × CallPhase
  | .waiting =>
    if call.did ≠ call.repo.did then
      (storage, .failed (.xrpc .InvalidRequest ("DID mismatch: expected " ++ call.repo.did)))
    else (storage, .opening (storage.getHead call.did))
  | .opening head =>
    match openMst storage.blocks head with
    | .error e => (storage, .failed (.error e))
    | .ok (prevRoot, mst) => (storage, .writing ⟨head, prevRoot, mst, []⟩ call.writes)
  | .writing opened (write :: todo) =>
    let out := applyWrite opened.mst write
    match out.result with
    | .error e => (storage, .putting out.puts (.failed e))
    | .ok op =>
      (storage, .putting out.puts
        (.writing { opened with mst := out.mst, ops := opened.ops ++ [op] } todo))
  | .writing opened [] =>
    let root := commitRoot opened.mst.root
    (storage, .putting root.2 (.sealing opened root.1))
  | .sealing opened root =>
    match sealCommit call.repo storage.blocks opened.prevRoot
        ⟨call.did, 3, root, call.rev, opened.head.map Head.commit⟩ with
    | .error e => (storage, .failed (.error e))
    | .ok (carBlocks, commitBytes) =>
      let commitCid := cidForBytes commitBytes
      (storage, .putting [(commitCid, commitBytes)] (.moving opened.head
        ⟨call.did, commitCid, call.rev, opened.head.map Head.rev, carBlocks, opened.ops⟩))
  | .moving _ event =>
    ({ storage with heads := set call.did ⟨event.commit, event.rev⟩ storage.heads },
      .appending event)
  | .appending event => (storage, .done event)
  | .done event => (storage, .done event)
  | .failed e => (storage, .failed e)
  | .putting [] next => (storage, next)
  | .putting (block :: blocks) next =>
    ({ storage with blocks := storage.blocks.putAll [block] }, .putting blocks next)

/-- The event that a step gives to the sequencer. -/
def CallPhase.appended : CallPhase → List CommitEvent
  | .appending event => [event]
  | _ => []

/-- A step of the call at a place. -/
def Flights.step (s : Flights) (i : ℕ) : Flights :=
  match s.flights[i]? with
  | none => s
  | some flight =>
    let next := flight.call.advance s.storage flight.phase
    ⟨next.1, s.flights.set i ⟨flight.call, next.2⟩, s.events ++ flight.phase.appended⟩

/-! ## Alone -/

/-- One step of a call with the storage to itself. -/
def Call.Step (call : Call) (s s' : Storage × CallPhase) : Prop := s' = call.advance s.1 s.2

/-- Where a call ends with its result. -/
def CallPhase.ofResult : Except RepoError CommitEvent → CallPhase
  | .ok event => .done event
  | .error e => .failed e

section
variable {call : Call} {storage : Storage}

theorem steps_putting (blocks : List (Cid × Bytes)) (next : CallPhase) :
    Relation.ReflTransGen call.Step (storage, .putting blocks next)
      ({ storage with blocks := storage.blocks.putAll blocks }, next) := by
  induction blocks generalizing storage with
  | nil => exact .single rfl
  | cons block blocks ih =>
    refine .head rfl ?_
    have hput : storage.blocks.putAll (block :: blocks) =
        (storage.blocks.putAll [block]).putAll blocks :=
      storage.blocks.putAll_append [block] blocks
    rw [hput]
    exact ih

/-- The loop over the writes, up to one that throws. -/
theorem steps_writing (opened : OpenTree) (todo : List WriteOp) :
    let out := applyAll opened.mst todo
    Relation.ReflTransGen call.Step (storage, .writing opened todo)
      ({ storage with blocks := storage.blocks.putAll out.puts },
        match out.result with
        | .error e => .failed e
        | .ok ops => .writing { opened with mst := out.mst, ops := opened.ops ++ ops } []) := by
  induction todo generalizing storage opened with
  | nil =>
    dsimp only [applyAll]
    rw [List.append_nil]
    exact .refl
  | cons write todo ih =>
    dsimp only [applyAll]
    cases hop : (applyWrite opened.mst write).result with
    | error e =>
      refine .head (b := (storage, .putting (applyWrite opened.mst write).puts (.failed e))) ?_
        (steps_putting _ _)
      rw [Call.Step, Call.advance]
      dsimp only
      rw [hop]
    | ok op =>
      refine .head (b := (storage, .putting (applyWrite opened.mst write).puts (.writing
        { opened with mst := (applyWrite opened.mst write).mst, ops := opened.ops ++ [op] } todo)))
        ?_ ((steps_putting _ _).trans ?_)
      · rw [Call.Step, Call.advance]
        dsimp only
        rw [hop]
      · dsimp only
        rw [BlockStore.putAll_append]
        refine (ih _).trans ?_
        dsimp only
        cases (applyAll (applyWrite opened.mst write).mst todo).result with
        | error e => exact .refl
        | ok ops =>
          dsimp only [Except.map]
          rw [List.append_assoc]
          exact .refl

/-- A call that nothing comes in between of is `applyWrites`. -/
theorem advance_alone (call : Call) (storage : Storage) :
    Relation.ReflTransGen call.Step (storage, .waiting)
      (call.apply storage, .ofResult (call.result storage)) := by
  rw [Call.apply, Call.result, applyWrites]
  by_cases hdid : call.did ≠ call.repo.did
  · rw [if_pos hdid]
    refine .single ?_
    rw [Call.Step, Call.advance]
    dsimp only
    rw [if_pos hdid]
    rfl
  rw [if_neg hdid]
  dsimp only
  have hread : call.Step (storage, .waiting) (storage, .opening (storage.getHead call.did)) := by
    rw [Call.Step, Call.advance]
    dsimp only
    rw [if_neg hdid]
  refine .head hread ?_
  cases hopen : openMst storage.blocks (storage.getHead call.did) with
  | error e =>
    refine .single ?_
    rw [Call.Step, Call.advance]
    dsimp only
    rw [hopen]
    rfl
  | ok opened =>
    obtain ⟨prevRoot, mst⟩ := opened
    have hopened : call.Step (storage, .opening (storage.getHead call.did))
        (storage, .writing ⟨storage.getHead call.did, prevRoot, mst, []⟩ call.writes) := by
      rw [Call.Step, Call.advance]
      dsimp only
      rw [hopen]
    refine .head hopened ((steps_writing _ _).trans ?_)
    dsimp only
    cases (applyAll mst call.writes).result with
    | error e => exact .refl
    | ok ops =>
      refine .head rfl ((steps_putting _ _).trans ?_)
      dsimp only
      generalize hstored : (storage.blocks.putAll (applyAll mst call.writes).puts).putAll
        (commitRoot (applyAll mst call.writes).mst.root).2 = stored
      cases hseal : sealCommit call.repo stored prevRoot
          ⟨call.did, 3, (commitRoot (applyAll mst call.writes).mst.root).1, call.rev,
            (storage.getHead call.did).map Head.commit⟩ with
      | error e =>
        refine .single ?_
        rw [Call.Step, Call.advance]
        dsimp only
        rw [hseal]
        rfl
      | ok sealed =>
        obtain ⟨carBlocks, commitBytes⟩ := sealed
        refine .head (b := ({ storage with blocks := stored },
          .putting [(cidForBytes commitBytes, commitBytes)] (.moving (storage.getHead call.did)
            ⟨call.did, cidForBytes commitBytes, call.rev, (storage.getHead call.did).map Head.rev,
              carBlocks, ops⟩))) ?_ ((steps_putting _ _).trans ?_)
        · rw [Call.Step, Call.advance]
          dsimp only
          rw [hseal]
          rfl
        · exact .head rfl (.single rfl)

end

/-! ## What is safe -/

/-- The blocks that a call has in memory, or has yet to put. -/
def CallPhase.blocks : CallPhase → List (Cid × Bytes)
  | .writing opened _ => opened.mst.blocks
  | .sealing opened _ => opened.mst.blocks
  | .putting blocks next => blocks ++ next.blocks
  | _ => []

/-- A write that is taken is `writeOk`, and the tree that is committed is not too long. -/
def CallPhase.stepOk : CallPhase → Bool
  | .writing opened (write :: _) => writeOk opened.mst write
  | .writing opened [] => opened.mst.entries.length < 2 ^ 31
  | _ => true

/-- A step that is safe to take; no two of the blocks around it have the same CID. -/
def Flights.Safe (s : Flights) (i : ℕ) : Prop :=
  ∀ flight ∈ s.flights[i]?, flight.phase.stepOk ∧
    CollisionFree (s.storage.blocks ++
      (flight.phase.blocks ++ (flight.call.advance s.storage flight.phase).2.blocks))

instance (s : Flights) (i : ℕ) : Decidable (s.Safe i) :=
  inferInstanceAs (Decidable (∀ flight ∈ s.flights[i]?, flight.phase.stepOk ∧
    CollisionFree (s.storage.blocks ++
      (flight.phase.blocks ++ (flight.call.advance s.storage flight.phase).2.blocks))))

/-! ## A commit -/

/-- The root is that of a tree with the map `m`, stored. -/
def RootStored (store : BlockStore) (root : Cid) (m : List (Key × Cid)) : Prop :=
  isValidCid root ∧ ∃ mst tree empty, (Mst.createMst (some root)).init store = .ok mst ∧
    Held loose empty ⟨store, mst⟩ tree m ∧ EmptyStored store empty

/-- An event tells a commit of the call: its batch on the map of the head that it read. -/
structure Serves (store : BlockStore) (call : Call) (head : Option Head) (event : CommitEvent) :
    Prop where
  repo : event.repo = call.did
  rev : event.rev = call.rev
  since : event.since = head.map Head.rev
  tells : List.Forall₂ CommitOp.Tells event.ops call.writes
  writes : ∀ write ∈ call.writes, write.Stored store
  stored : ∃ m, HeadStored store head m ∧
    HeadStored store (some ⟨event.commit, event.rev⟩) (call.writes.foldl WriteOp.applyTo m)

variable {store store' : BlockStore} {m : List (Key × Cid)}

theorem BlockStore.Sub.putAll_mono (h : store.Sub store') (puts : List (Cid × Bytes)) :
    (store.putAll puts).Sub (store'.putAll puts) := by
  refine ⟨fun {cid bytes} hb => ?_, by simpa [BlockStore.putAll] using h.length⟩
  rw [BlockStore.get, BlockStore.putAll, List.lookup_append] at hb ⊢
  cases hlookup : puts.reverse.lookup cid with
  | some bytes' => rwa [hlookup] at hb
  | none =>
    rw [hlookup, Option.none_or] at hb
    rw [Option.none_or]
    exact h.get hb

theorem RootStored.mono {root : Cid} (h : RootStored store root m) (hsub : store.Sub store') :
    RootStored store' root m := by
  obtain ⟨hvalid, mst, tree, empty, hinit, hheld, hempty⟩ := h
  exact ⟨hvalid, mst, tree, empty, init_mono hsub hinit, hheld.mono hsub, hempty.mono hsub⟩

theorem WriteOp.Stored.mono {write : WriteOp} (h : write.Stored store) (hsub : store.Sub store') :
    write.Stored store' :=
  ⟨h.valid, fun b hb => hsub.get (h.block b hb), h.plain⟩

theorem Serves.mono {call : Call} {head : Option Head} {event : CommitEvent}
    (h : Serves store call head event) (hsub : store.Sub store') :
    Serves store' call head event := by
  obtain ⟨m, hhead, hcommit⟩ := h.stored
  exact ⟨h.repo, h.rev, h.since, h.tells, fun write hwrite => (h.writes write hwrite).mono hsub,
    m, hhead.mono hsub, hcommit.mono hsub⟩

/-- The commit of a stored root is stored with its map. -/
theorem RootStored.headStored {root : Cid} (h : RootStored store root m)
    (hrecords : ∀ e ∈ m, ∃ bytes, store.get e.2 = some bytes) {did : String} {rev : Tid}
    {prev : Option Cid} {sig commitBytes : Bytes} (hdid : Cbor.plainText did)
    (hsig : sig.length < 2 ^ 31) (hprev : ∀ cid ∈ prev, isValidCid cid)
    (hencode : encodeCommit ⟨did, 3, root, rev, prev⟩ sig = .ok commitBytes)
    (hfree : CollisionFree (store.putAll [(cidForBytes commitBytes, commitBytes)])) :
    HeadStored (store.putAll [(cidForBytes commitBytes, commitBytes)])
      (some ⟨cidForBytes commitBytes, rev⟩) m := by
  have hsub := BlockStore.Sub.putAll hfree
  obtain ⟨hvalid, mst, tree, empty, hinit, hheld, hempty⟩ := h.mono hsub
  have hblock := CommitBlock.mk hencode hdid rfl hvalid hprev hsig
  have hroot := hblock.headRoot (get_putAll hfree (List.mem_singleton_self _)) rev
  refine ⟨some root, mst, tree, empty, hroot, fun _ => rfl, ?_, ne_noCid_of_isValidCid hvalid,
    hinit, hheld, hempty, fun e he => (hrecords e he).imp fun _ hget => hsub.get hget⟩
  rintro _ ⟨⟩
  exact isValidCid_cidFromDigest _

theorem HeadStored.records {head : Option Head} (h : HeadStored store head m) :
    ∀ e ∈ m, ∃ bytes, store.get e.2 = some bytes := by
  obtain ⟨_, _, _, _, h⟩ := h
  exact h.records

theorem HeadStored.prev_valid {head : Option Head} (h : HeadStored store head m) :
    ∀ cid ∈ head.map Head.commit, isValidCid cid := by
  obtain ⟨_, _, _, _, h⟩ := h
  rintro cid hcid
  obtain ⟨head, rfl, rfl⟩ := Option.map_eq_some_iff.1 hcid
  exact h.head_valid head rfl

/-! ## A call on its way -/

/-- What a call has taken: `taken` of its writes, over the map `m` of the head that it read. -/
structure OpenTree.Takes (store : BlockStore) (opened : OpenTree) (taken : List WriteOp)
    (m : List (Key × Cid)) : Prop where
  stored : HeadStored store opened.head m
  tells : List.Forall₂ CommitOp.Tells opened.ops taken
  writes : ∀ write ∈ taken, write.Stored store

/-- What is known of a call where it is. The heads that it read are among the `issued` ones. -/
def CallPhase.Ok (call : Call) (issued : Option Head → Prop) : BlockStore → CallPhase → Prop
  | _, .waiting => True
  | store, .opening head => call.did = call.repo.did ∧ issued head ∧ ∃ m, HeadStored store head m
  | store, .writing opened todo => call.did = call.repo.did ∧ issued opened.head ∧
      ∃ taken m, taken ++ todo = call.writes ∧ opened.Takes store taken m ∧
        ∃ tree empty, EmptyStored store empty ∧
          Held loose empty ⟨store, opened.mst⟩ tree (taken.foldl WriteOp.applyTo m)
  | store, .sealing opened root => call.did = call.repo.did ∧ issued opened.head ∧
      ∃ m, opened.Takes store call.writes m ∧
        RootStored store root (call.writes.foldl WriteOp.applyTo m)
  | store, .moving head event => issued head ∧ Serves store call head event
  | store, .appending event => ∃ head, issued head ∧ Serves store call head event
  | store, .done event => ∃ head, issued head ∧ Serves store call head event
  | _, .failed _ => True
  | store, .putting blocks next => next.Ok call issued (store.putAll blocks)

theorem OpenTree.Takes.mono {opened : OpenTree} {taken : List WriteOp}
    (h : opened.Takes store taken m) (hsub : store.Sub store') : opened.Takes store' taken m :=
  ⟨h.stored.mono hsub, h.tells, fun write hwrite => (h.writes write hwrite).mono hsub⟩

variable {call : Call} {issued issued' : Option Head → Prop}

/-- What is known stays so while the storage grows. -/
theorem CallPhase.Ok.mono {phase : CallPhase} (h : phase.Ok call issued store)
    (hsub : store.Sub store') (hissued : ∀ head, issued head → issued' head) :
    phase.Ok call issued' store' := by
  induction phase generalizing store store' with
  | waiting => trivial
  | failed e => trivial
  | opening head => exact ⟨h.1, hissued _ h.2.1, h.2.2.imp fun m hm => hm.mono hsub⟩
  | writing opened todo =>
    obtain ⟨hdid, hhead, taken, m, hwrites, htakes, tree, empty, hempty, hheld⟩ := h
    exact ⟨hdid, hissued _ hhead, taken, m, hwrites, htakes.mono hsub, tree, empty,
      hempty.mono hsub, hheld.mono hsub⟩
  | sealing opened root =>
    obtain ⟨hdid, hhead, m, htakes, hroot⟩ := h
    exact ⟨hdid, hissued _ hhead, m, htakes.mono hsub, hroot.mono hsub⟩
  | moving head event => exact ⟨hissued _ h.1, h.2.mono hsub⟩
  | appending event => exact h.imp fun head hhead => ⟨hissued _ hhead.1, hhead.2.mono hsub⟩
  | done event => exact h.imp fun head hhead => ⟨hissued _ hhead.1, hhead.2.mono hsub⟩
  | putting blocks next ih => exact ih h (hsub.putAll_mono blocks)

/-- A write that is taken. -/
theorem CallPhase.Ok.take {opened : OpenTree} {write : WriteOp} {todo : List WriteOp}
    {op : CommitOp} (h : (CallPhase.writing opened (write :: todo)).Ok call issued store)
    (hop : (applyWrite opened.mst write).result = .ok op) (hok : writeOk opened.mst write)
    (hfree : CollisionFree (store.putAll (applyWrite opened.mst write).puts ++
      (opened.mst.blocks ++ (applyWrite opened.mst write).mst.blocks))) :
    (CallPhase.writing
      { opened with mst := (applyWrite opened.mst write).mst, ops := opened.ops ++ [op] } todo).Ok
        call issued (store.putAll (applyWrite opened.mst write).puts) := by
  obtain ⟨hdid, hhead, taken, m, hwrites, htakes, tree, empty, hempty, hheld⟩ := h
  have hfree₁ := hfree.mono fun b hb => List.mem_append_left _ hb
  have hsub := BlockStore.Sub.putAll hfree₁
  have hwritten := written_of_ok hheld hop hok hempty hfree
  obtain ⟨tree', hheld'⟩ := hwritten.held
  refine ⟨hdid, hhead, taken ++ [write], m, ?_, ⟨htakes.stored.mono hsub,
    List.rel_append htakes.tells (.cons hwritten.tells .nil), ?_⟩, tree', empty,
    hempty.mono hsub, ?_⟩
  · rw [List.append_assoc, List.singleton_append, hwrites]
  · intro w hw
    rcases List.mem_append.1 hw with hw | hw
    · exact (htakes.writes w hw).mono hsub
    · obtain rfl := List.mem_singleton.1 hw
      exact ⟨hwritten.valid, fun b hb => get_putAll hfree₁ (hwritten.puts b hb),
        fun b hb => plain_of_writeOk hok hb⟩
  · rw [List.foldl_append]
    exact hheld'

/-- The root of the tree after all writes. -/
theorem CallPhase.Ok.root {opened : OpenTree}
    (h : (CallPhase.writing opened []).Ok call issued store)
    (hlength : opened.mst.entries.length < 2 ^ 31)
    (hfree : CollisionFree (store.putAll (commitRoot opened.mst.root).2 ++ opened.mst.blocks)) :
    (CallPhase.sealing opened (commitRoot opened.mst.root).1).Ok call issued
      (store.putAll (commitRoot opened.mst.root).2) := by
  obtain ⟨hdid, hhead, taken, m, hwrites, htakes, tree, empty, hempty, hheld⟩ := h
  rw [List.append_nil] at hwrites
  subst hwrites
  rw [hheld.entries] at hlength
  exact ⟨hdid, hhead, m, htakes.mono (.putAll (hfree.mono fun b hb => List.mem_append_left _ hb)),
    open_commitRoot hheld hempty hlength hfree⟩

/-- The commit of a root. -/
theorem CallPhase.Ok.commit {opened : OpenTree} {root : Cid} {carBlocks commitBytes : Bytes}
    (h : (CallPhase.sealing opened root).Ok call issued store)
    (hseal : sealCommit call.repo store opened.prevRoot
      ⟨call.did, 3, root, call.rev, opened.head.map Head.commit⟩ = .ok (carBlocks, commitBytes))
    (hfree : CollisionFree (store.putAll [(cidForBytes commitBytes, commitBytes)])) :
    (CallPhase.moving opened.head ⟨call.did, cidForBytes commitBytes, call.rev,
      opened.head.map Head.rev, carBlocks, opened.ops⟩).Ok call issued
        (store.putAll [(cidForBytes commitBytes, commitBytes)]) := by
  obtain ⟨hdid, hhead, m, htakes, hroot⟩ := h
  simp only [sealCommit, bind_eq_ok] at hseal
  obtain ⟨_, -, _, -, unsigned, -, sig, hsig, bytes, hencode, hsealed⟩ := hseal
  cases hsealed
  have hsub := BlockStore.Sub.putAll hfree
  have hcommit := hroot.headStored
    (records_foldl htakes.stored.records (.refl _) htakes.writes) (hdid ▸ call.repo.did_plain)
    (call.repo.length_sign hsig) htakes.stored.prev_valid hencode hfree
  exact ⟨hhead, rfl, rfl, rfl, htakes.tells,
    fun write hwrite => (htakes.writes write hwrite).mono hsub, m, htakes.stored.mono hsub, hcommit⟩

/-- Blocks that are put over a store, among those around a step. -/
theorem CollisionFree.putAll {puts blocks before : List (Cid × Bytes)}
    (h : CollisionFree (store ++ (before ++ (puts ++ blocks)))) :
    CollisionFree (store.putAll puts ++ (before ++ blocks)) := by
  refine h.mono fun b hb => ?_
  simp only [BlockStore.putAll, List.mem_append, List.mem_reverse] at hb ⊢
  rcases hb with (hputs | hstore) | hbefore | hblocks
  · exact .inr (.inr (.inl hputs))
  · exact .inl hstore
  · exact .inr (.inl hbefore)
  · exact .inr (.inr (.inr hblocks))

/-- One step of a call. -/
theorem CallPhase.Ok.advance {phase : CallPhase} {storage : Storage}
    (h : phase.Ok call issued storage.blocks) (hissued : issued (storage.getHead call.did))
    (hstored : AllStored storage) (hok : phase.stepOk)
    (hfree : CollisionFree (storage.blocks ++
      (phase.blocks ++ (call.advance storage phase).2.blocks))) :
    storage.blocks.Sub (call.advance storage phase).1.blocks ∧
      (call.advance storage phase).2.Ok call issued (call.advance storage phase).1.blocks := by
  cases phase with
  | waiting =>
    rw [Call.advance]
    split_ifs with hdid
    · exact ⟨.refl _, trivial⟩
    · exact ⟨.refl _, not_not.1 hdid, hissued, hstored call.did⟩
  | opening head =>
    obtain ⟨hdid, hhead, m, hm⟩ := h
    obtain ⟨root, mst, tree, empty, hopen⟩ := id hm
    rw [Call.advance]
    rw [hopen.openMst]
    exact ⟨.refl _, hdid, hhead, [], m, rfl, ⟨hm, .nil, by simp⟩, tree, empty, hopen.emptyStored,
      hopen.held⟩
  | writing opened todo =>
    cases todo with
    | nil =>
      rw [Call.advance] at hfree ⊢
      refine ⟨.refl _, h.root (of_decide_eq_true hok) (hfree.putAll.mono fun b hb => ?_)⟩
      rcases List.mem_append.1 hb with hb | hb
      · exact List.mem_append_left _ hb
      · exact List.mem_append_right _ (List.mem_append_left _ hb)
    | cons write todo =>
      rw [Call.advance] at hfree ⊢
      cases hop : (applyWrite opened.mst write).result with
      | error e => exact ⟨.refl _, trivial⟩
      | ok op =>
        rw [hop] at hfree
        exact ⟨.refl _, h.take hop hok hfree.putAll⟩
  | sealing opened root =>
    rw [Call.advance] at hfree ⊢
    cases hseal : sealCommit call.repo storage.blocks opened.prevRoot
        ⟨call.did, 3, root, call.rev, opened.head.map Head.commit⟩ with
    | error e => exact ⟨.refl _, trivial⟩
    | ok sealed =>
      rw [hseal] at hfree
      exact ⟨.refl _, h.commit hseal (hfree.putAll.mono fun b hb => List.mem_append_left _ hb)⟩
  | moving head event => exact ⟨.refl _, head, h⟩
  | appending event => exact ⟨.refl _, h⟩
  | done event => exact ⟨.refl _, h⟩
  | failed e => exact ⟨.refl _, trivial⟩
  | putting blocks next =>
    cases blocks with
    | nil => exact ⟨.refl _, h⟩
    | cons block blocks =>
      have hput : storage.blocks.putAll (block :: blocks) =
          (storage.blocks.putAll [block]).putAll blocks :=
        storage.blocks.putAll_append [block] blocks
      rw [CallPhase.Ok, hput] at h
      refine ⟨.putAll (hfree.mono fun b hb => ?_), h⟩
      rcases List.mem_append.1 hb with hb | hb
      · obtain rfl := List.mem_singleton.1 (List.mem_reverse.1 hb)
        exact List.mem_append_right _ (List.mem_append_left _ List.mem_cons_self)
      · exact List.mem_append_left _ hb

/-! ## All of them -/

/-- The event of a call that has moved the head. -/
def CallPhase.moved : CallPhase → Option CommitEvent
  | .appending event => some event
  | .done event => some event
  | _ => none

/-- The heads that a repository had: the one at the start, or the commit of a call. -/
def Issued (s₀ s : Flights) (did : String) (head : Option Head) : Prop :=
  head = s₀.storage.getHead did ∨ ∃ flight ∈ s.flights, ∃ event ∈ flight.phase.moved,
    flight.call.did = did ∧ head = some ⟨event.commit, event.rev⟩

/-- What holds between the steps. -/
structure Flights.Inv (s₀ s : Flights) : Prop where
  grows : s₀.storage.blocks.Sub s.storage.blocks
  heads : ∀ did, Issued s₀ s did (s.storage.getHead did)
  calls : ∀ flight ∈ s.flights,
    flight.phase.Ok flight.call (Issued s₀ s flight.call.did) s.storage.blocks
  events : ∀ event ∈ s.events, ∃ flight ∈ s.flights, event ∈ flight.phase.moved

theorem CallPhase.Ok.serves {phase : CallPhase} (h : phase.Ok call issued store)
    {event : CommitEvent} (hevent : event ∈ phase.moved) :
    ∃ head, issued head ∧ Serves store call head event := by
  cases phase with
  | appending _ =>
    cases hevent
    exact h
  | done _ =>
    cases hevent
    exact h
  | _ => cases hevent

theorem Call.moved_advance {phase : CallPhase} {storage : Storage} {event : CommitEvent}
    (hevent : event ∈ phase.moved) : event ∈ (call.advance storage phase).2.moved := by
  cases phase with
  | appending _ => exact hevent
  | done _ => exact hevent
  | _ => cases hevent

theorem CallPhase.moved_of_appended {phase : CallPhase} {event : CommitEvent}
    (h : event ∈ phase.appended) : event ∈ phase.moved := by
  cases phase with
  | appending _ =>
    obtain rfl := List.mem_singleton.1 h
    rfl
  | _ => cases h

/-- A step moves a head only to the commit of its call. -/
theorem Call.getHead_advance (call : Call) (storage : Storage) (phase : CallPhase) (did : String) :
    (call.advance storage phase).1.getHead did = storage.getHead did ∨
      did = call.did ∧ ∃ event ∈ (call.advance storage phase).2.moved,
        (call.advance storage phase).1.getHead did = some ⟨event.commit, event.rev⟩ := by
  cases phase with
  | waiting =>
    rw [Call.advance]
    split_ifs
    · exact .inl rfl
    · exact .inl rfl
  | opening head =>
    rw [Call.advance]
    split <;> exact .inl rfl
  | writing opened todo =>
    cases todo with
    | nil => exact .inl rfl
    | cons write todo =>
      rw [Call.advance]
      split <;> exact .inl rfl
  | sealing opened root =>
    rw [Call.advance]
    dsimp only
    split <;> exact .inl rfl
  | moving head event =>
    by_cases hdid : did = call.did
    · refine .inr ⟨hdid, event, rfl, ?_⟩
      rw [Call.advance, Storage.getHead, lookup_set, if_pos hdid]
    · refine .inl ?_
      rw [Call.advance, Storage.getHead, lookup_set, if_neg hdid]
      rfl
  | appending event => exact .inl rfl
  | done event => exact .inl rfl
  | failed e => exact .inl rfl
  | putting blocks next => cases blocks <;> exact .inl rfl

variable {s₀ s : Flights} {did : String} {head : Option Head}

/-- Whatever was a head is stored. -/
theorem Flights.Inv.stored (h : s₀.Inv s) (hstart : AllStored s₀.storage)
    (hissued : Issued s₀ s did head) : ∃ m, HeadStored s.storage.blocks head m := by
  rcases hissued with rfl | ⟨flight, hflight, event, hevent, -, rfl⟩
  · exact (hstart did).imp fun m hm => hm.mono h.grows
  · obtain ⟨_, -, hserves⟩ := (h.calls flight hflight).serves hevent
    obtain ⟨_, -, hcommit⟩ := hserves.stored
    exact ⟨_, hcommit⟩

/-- What a call has moved stays moved. -/
theorem exists_moved_step {i : ℕ} {flight : Flight} (hi : s.flights[i]? = some flight)
    {other : Flight} (hother : other ∈ s.flights) {event : CommitEvent}
    (hevent : event ∈ other.phase.moved) :
    ∃ flight' ∈ (s.step i).flights, flight'.call = other.call ∧ event ∈ flight'.phase.moved := by
  rw [Flights.step, hi]
  dsimp only
  obtain ⟨j, hj⟩ := List.mem_iff_getElem?.1 hother
  by_cases hij : i = j
  · subst hij
    obtain rfl : flight = other := Option.some.inj (hi.symm.trans hj)
    refine ⟨_, List.mem_iff_getElem?.2 ⟨i, List.getElem?_set_self ?_⟩, rfl,
      Call.moved_advance hevent⟩
    exact (List.getElem?_eq_some_iff.1 hi).1
  · exact ⟨other, List.mem_iff_getElem?.2 ⟨j, (List.getElem?_set_ne hij).trans hj⟩, rfl, hevent⟩

/-- The step lemma. -/
theorem Flights.Inv.step (h : s₀.Inv s) (hstart : AllStored s₀.storage) {i : ℕ} (hsafe : s.Safe i) :
    s₀.Inv (s.step i) := by
  cases hi : s.flights[i]? with
  | none =>
    rw [Flights.step, hi]
    exact h
  | some flight =>
    obtain ⟨hok, hfree⟩ := hsafe flight hi
    have hflight : flight ∈ s.flights := List.mem_of_getElem? hi
    obtain ⟨hsub, hnext⟩ := (h.calls flight hflight).advance (h.heads _)
      (fun did => h.stored hstart (h.heads did)) hok hfree
    have hissued : ∀ did head, Issued s₀ s did head → Issued s₀ (s.step i) did head := by
      rintro did head (heq | ⟨other, hother, event, hevent, hdid, heq⟩)
      · exact .inl heq
      · obtain ⟨flight', hflight', hcall, hevent'⟩ := exists_moved_step hi hother hevent
        exact .inr ⟨flight', hflight', event, hevent', hcall ▸ hdid, heq⟩
    have hself : ⟨flight.call, (flight.call.advance s.storage flight.phase).2⟩ ∈
        (s.step i).flights := by
      rw [Flights.step, hi]
      exact List.mem_iff_getElem?.2 ⟨i, List.getElem?_set_self (List.getElem?_eq_some_iff.1 hi).1⟩
    have hstorage : (s.step i).storage = (flight.call.advance s.storage flight.phase).1 := by
      rw [Flights.step, hi]
    constructor
    · rw [hstorage]
      exact h.grows.trans hsub
    · intro did
      rw [hstorage]
      rcases flight.call.getHead_advance s.storage flight.phase did with
        hsame | ⟨hdid, event, hevent, hhead⟩
      · rw [hsame]
        exact hissued did _ (h.heads did)
      · exact .inr ⟨_, hself, event, hevent, hdid.symm, hhead⟩
    · intro other hother
      rw [hstorage]
      have hmem := hother
      rw [Flights.step, hi] at hmem
      rcases List.mem_or_eq_of_mem_set hmem with hmem | rfl
      · exact (h.calls other hmem).mono hsub (hissued _)
      · exact hnext.mono (.refl _) (hissued _)
    · intro event hevent
      rw [Flights.step, hi] at hevent
      rcases List.mem_append.1 hevent with hevent | hevent
      · obtain ⟨other, hother, hevent⟩ := h.events event hevent
        obtain ⟨flight', hflight', -, hevent'⟩ := exists_moved_step hi hother hevent
        exact ⟨flight', hflight', hevent'⟩
      · exact ⟨_, hself, Call.moved_advance (CallPhase.moved_of_appended hevent)⟩

/-- Calls that are about to run. -/
def Flights.start (storage : Storage) (calls : List Call) : Flights :=
  ⟨storage, calls.map fun call => ⟨call, .waiting⟩, []⟩

theorem Flights.inv_start (storage : Storage) (calls : List Call) :
    (start storage calls).Inv (start storage calls) := by
  refine ⟨.refl _, fun did => .inl rfl, fun flight hflight => ?_, fun event hevent => ?_⟩
  · obtain ⟨call, -, rfl⟩ := List.mem_map.1 hflight
    trivial
  · cases hevent

theorem Flights.Inv.run (h : s₀.Inv s) (hstart : AllStored s₀.storage) {order : List ℕ}
    (hsafe : Along Flights.step Flights.Safe s order) : s₀.Inv (order.foldl Flights.step s) := by
  induction order generalizing s with
  | nil => exact h
  | cons i order ih =>
    obtain ⟨hi, horder⟩ := hsafe
    exact ih (h.step hstart hi) horder

/-- What a reader and the subscribers see, whatever the order was. -/
structure Consistent (s₀ s : Flights) : Prop where
  /-- Every repository can be read. -/
  stored : AllStored s.storage
  /-- A head is the one at the start, or the commit of a call. -/
  heads : ∀ did, Issued s₀ s did (s.storage.getHead did)
  /-- A commit is the batch of its call, on a head that the repository had. -/
  serves : ∀ flight ∈ s.flights, ∀ event ∈ flight.phase.moved,
    ∃ head, Issued s₀ s flight.call.did head ∧ Serves s.storage.blocks flight.call head event
  /-- Every event tells such a commit. -/
  events : ∀ event ∈ s.events, ∃ flight ∈ s.flights, event ∈ flight.phase.moved

/-- Calls that write other records. -/
def sampleOverlap : List Call :=
  [⟨sampleRepo, ⟨"3kabcdefghijj", by decide⟩, "did:plc:abc", [⟨.create, "a", "0", .text "x"⟩]⟩,
    ⟨sampleRepo, sampleTid, "did:plc:abc", [⟨.create, "a", "1", .text "y"⟩]⟩]

/-- Both read the same head, so that the second one loses the write of the first. -/
def sampleOrder : List ℕ := (List.replicate 13 [0, 1]).flatten

/-- The map that a head leads to. -/
def mapAt (store : BlockStore) : Option Head → Except String (List (Key × Cid))
  | none => .ok []
  | some head => do
    match ← headMst store head with
    | none => return []
    | some mst => return mst.entries

/-- Every event names the rev before it. -/
def Unbroken : Option Tid → List CommitEvent → Prop
  | _, [] => True
  | rev, event :: events => event.since = rev ∧ Unbroken (some event.rev) events

instance instDecidableUnbroken : ∀ rev events, Decidable (Unbroken rev events)
  | _, [] => inferInstanceAs (Decidable True)
  | rev, event :: events =>
    have : Decidable (Unbroken (some event.rev) events) := instDecidableUnbroken _ events
    inferInstanceAs (Decidable (event.since = rev ∧ Unbroken (some event.rev) events))

/-- The head that the last event tells. -/
def headAfter (head : Option Head) (events : List CommitEvent) : Option Head :=
  events.foldl (fun _ event => some ⟨event.commit, event.rev⟩) head

/-- The map after the operations of the events. -/
def replay (m : List (Key × Cid)) (events : List CommitEvent) : List (Key × Cid) :=
  events.foldl (fun m event => event.ops.foldl CommitOp.applyTo m) m

/-- The events of a repository. -/
def Flights.eventsOf (s : Flights) (did : String) : List CommitEvent :=
  s.events.filter fun event => event.repo = did

theorem HeadStored.mapAt (h : HeadStored store head m) : mapAt store head = .ok m := by
  cases head with
  | none =>
    have h' : HeadStored (Storage.mk store []).blocks ((Storage.mk store []).getHead "") m := h
    exact h'.pathMap
  | some head =>
    have h' : HeadStored (Storage.mk store [("", head)]).blocks
      ((Storage.mk store [("", head)]).getHead "") m := h
    exact h'.pathMap

theorem Flights.calls_step (s : Flights) (i : ℕ) :
    (s.step i).flights.map Flight.call = s.flights.map Flight.call := by
  rw [Flights.step]
  split
  · rfl
  · next flight hi =>
    obtain ⟨hlt, heq⟩ := List.getElem?_eq_some_iff.1 hi
    have hlt' : i < (s.flights.map Flight.call).length := by simpa using hlt
    have hcall : flight.call = (s.flights.map Flight.call)[i] := by
      rw [List.getElem_map, heq]
    dsimp only
    rw [List.map_set]
    dsimp only
    rw [hcall, List.set_getElem_self]

theorem Flights.calls_run (s : Flights) (order : List ℕ) :
    (order.foldl Flights.step s).flights.map Flight.call = s.flights.map Flight.call := by
  induction order generalizing s with
  | nil => rfl
  | cons i order ih => rw [List.foldl_cons, ih, s.calls_step]

/-- The revs of the calls are new, and no two of them are the same. -/
structure FreshRevs (storage : Storage) (calls : List Call) : Prop where
  nodup : (calls.map Call.rev).Nodup
  ne : ∀ call ∈ calls, ∀ did, ∀ head ∈ storage.getHead did, head.rev ≠ call.rev

/-- A rev tells the head. -/
theorem Flights.Inv.head_eq (h : s₀.Inv s)
    (hfresh : FreshRevs s₀.storage (s.flights.map Flight.call)) {head' : Option Head}
    (hhead : Issued s₀ s did head) (hhead' : Issued s₀ s did head')
    (hrev : head.map Head.rev = head'.map Head.rev) : head = head' := by
  have hstart : ∀ flight ∈ s.flights, ∀ event ∈ flight.phase.moved,
      (s₀.storage.getHead did).map Head.rev ≠ some event.rev := by
    intro flight hflight event hevent heq
    obtain ⟨_, -, hserves⟩ := (h.calls flight hflight).serves hevent
    obtain ⟨head, hget, hrev⟩ := Option.map_eq_some_iff.1 heq
    exact hfresh.ne flight.call (List.mem_map_of_mem hflight) did head hget (hrev.trans hserves.rev)
  rcases hhead with rfl | ⟨flight, hflight, event, hevent, -, rfl⟩ <;>
    rcases hhead' with rfl | ⟨flight', hflight', event', hevent', -, rfl⟩
  · rfl
  · exact absurd hrev (hstart flight' hflight' event' hevent')
  · exact absurd hrev.symm (hstart flight hflight event hevent)
  · obtain ⟨_, -, hserves⟩ := (h.calls flight hflight).serves hevent
    obtain ⟨_, -, hserves'⟩ := (h.calls flight' hflight').serves hevent'
    have hrevs : flight.call.rev = flight'.call.rev :=
      (hserves.rev.symm.trans (Option.some.inj hrev)).trans hserves'.rev
    have hnodup := hfresh.nodup
    rw [List.map_map] at hnodup
    obtain rfl := List.inj_on_of_nodup_map hnodup hflight hflight' hrevs
    obtain rfl : event = event' := Option.some.inj (hevent.symm.trans hevent')
    rfl

/-- Events that follow each other from a stored head. -/
theorem Flights.Inv.replay (h : s₀.Inv s)
    (hfresh : FreshRevs s₀.storage (s.flights.map Flight.call)) (hissued : Issued s₀ s did head)
    (hhead : HeadStored s.storage.blocks head m) {events : List CommitEvent}
    (hevents : ∀ event ∈ events, ∃ flight ∈ s.flights, flight.call.did = did ∧
      event ∈ flight.phase.moved)
    (hunbroken : Unbroken (head.map Head.rev) events) :
    HeadStored s.storage.blocks (headAfter head events) (replay m events) := by
  induction events generalizing head m with
  | nil => exact hhead
  | cons event events ih =>
    obtain ⟨⟨flight, hflight, hdid, hevent⟩, hevents⟩ := List.forall_mem_cons.1 hevents
    obtain ⟨hsince, hunbroken⟩ := hunbroken
    obtain ⟨read, hread, hserves⟩ := (h.calls flight hflight).serves hevent
    obtain ⟨m', hm', hcommit⟩ := hserves.stored
    -- The head that the call read is the one before.
    obtain rfl : read = head :=
      h.head_eq hfresh (hdid ▸ hread) hissued (hserves.since.symm.trans hsince)
    obtain rfl : m' = m := hm'.unique hhead
    rw [← foldl_of_tells hserves.tells] at hcommit
    exact ih (.inr ⟨flight, hflight, event, hevent, hdid, rfl⟩) hcommit hevents hunbroken

/-- The second call reads the head while the event of the first one is on its way. -/
def sampleFollows : List ℕ := List.replicate 12 0 ++ [1, 1, 0]

end ComputeContract
