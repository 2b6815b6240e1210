import ComputeContract.Cbor.Canonical
import ComputeContract.Lib.Along
import ComputeContract.Repo.Atomic
import ComputeContract.Util.TidClock

/-!
# The chain of commits

The calls of a process, one after the other, with the clock that their revs are taken from. A
commit names the one before; from the head the chain leads through the commits that the calls
made.

* `ChainFrom`: what the chain is, in the store;
* `Committed`: the invariant, with the commits as they were written;
* `chained_of_safe`: the chain of every repository, as long as the times are safe integers.
-/

namespace ComputeContract

open AssocList

/-! ## The process -/

/-- The bytes that a call gives to the signer. -/
def Call.bytesToSign (call : Call) (storage : Storage) : Except String Bytes := do
  let (_, mst) ← openMst storage.blocks (storage.getHead call.did)
  let root := commitRoot (applyAll mst call.writes).mst.root
  Cbor.encode (.object (commitToObj ⟨call.did, 3, root.1, call.rev,
    (storage.getHead call.did).map Head.commit⟩))

/-- A commit that was made, and what was signed for it. -/
structure Made where
  event : CommitEvent
  signed : Except String Bytes

/-- A process, with the commits that it made, the newest first. -/
structure Process where
  storage : Storage
  lastMicros : ℕ
  made : List Made

def Process.start : Process := ⟨⟨[], []⟩, 0, []⟩

/-- What comes next, with what the clock reads. -/
inductive Turn
  /-- A call, which takes a TID if it succeeds. -/
  | call (repo : Repo) (did : String) (writes : List WriteOp) (reading : ℕ)
  /-- A TID for something else, also for a call that throws after it. -/
  | tid (reading : ℕ)

def Turn.reading : Turn → ℕ
  | call _ _ _ reading => reading
  | tid reading => reading

section
variable (clock : UInt8)

/-- The time that a turn takes. -/
def Process.micros (p : Process) (turn : Turn) : ℕ := nextMicros p.lastMicros turn.reading

/-- The call of a turn. -/
def Process.callOf (p : Process) (repo : Repo) (did : String) (writes : List WriteOp)
    (reading : ℕ) : Call :=
  ⟨repo, packTid (nextMicros p.lastMicros reading) clock, did, writes⟩

def Process.step (p : Process) (turn : Turn) : Process :=
  match turn with
  | .tid _ => { p with lastMicros := p.micros turn }
  | .call repo did writes reading =>
    let call := p.callOf clock repo did writes reading
    let storage := call.apply p.storage
    match call.result p.storage with
    | .error _ => { p with storage }
    | .ok event => ⟨storage, p.micros turn, ⟨event, call.bytesToSign p.storage⟩ :: p.made⟩

end

/-! ## The chain -/

/-- From a commit on, `prev` leads through the commits that were made, to none. -/
def ChainFrom (store : BlockStore) : Option Cid → List Made → Prop
  | cid, [] => cid = none
  | cid, made :: rest => cid = some made.event.commit ∧
      made.event.since = rest.head?.map (fun before => before.event.rev) ∧
      ∃ bytes fields decoded, store.get made.event.commit = some bytes ∧
        Cbor.decode bytes = .ok (.object fields) ∧
        Cbor.encode (.object (erase "sig" fields)) = made.signed ∧
        decodeCommit bytes = .ok decoded ∧ ChainFrom store decoded.prev rest

/-- The commits of a repository. -/
def Process.madeOn (p : Process) (did : String) : List Made :=
  p.made.filter fun made => made.event.repo = did

/-- The chain from the head of a repository, and its revs. -/
structure Process.Chained (p : Process) (did : String) : Prop where
  chain : ChainFrom p.storage.blocks ((p.storage.getHead did).map Head.commit) (p.madeOn did)
  revs : (p.madeOn did).Pairwise fun made before => before.event.rev.1 < made.event.rev.1

/-! ## A commit without its signature -/

/-- The order of the fields does not matter to the encoder. -/
theorem encode_of_perm {fields fields' : List (String × Value)} (h : fields.Perm fields')
    (hnodup : (keys fields).Nodup) (hlink : "$link" ∉ keys fields) :
    Cbor.encode (.object fields) = Cbor.encode (.object fields') := by
  have hlink' : "$link" ∉ keys fields' := fun hmem => hlink ((h.map Prod.fst).mem_iff.2 hmem)
  have hkeys : keys (fields.map fun e => (e.1, Cbor.encodeValue e.2)) = keys fields := by
    rw [keys, keys, List.map_map]
    rfl
  have hsort : Cbor.sortKeys (Cbor.encodeFields fields) = Cbor.sortKeys (Cbor.encodeFields fields') := by
    rw [Cbor.encodeFields_eq, Cbor.encodeFields_eq]
    exact Cbor.sortKeys_eq_of_perm (hkeys.symm ▸ hnodup) (h.map _)
  rw [Cbor.encode, Cbor.encode, Cbor.encodeValue, Cbor.encodeValue,
    Cbor.linkField_of_not_mem hlink, Cbor.linkField_of_not_mem hlink']
  dsimp only
  rw [hsort, h.length_eq]

variable {commit : CommitData} {sig bytes : Bytes}

/-- Without the signature, a commit is what was signed. -/
theorem CommitBlock.encode_erase (h : CommitBlock commit sig bytes) :
    Cbor.encode (.object (erase "sig" (Cbor.sortKeys (storedFields commit sig)))) =
      Cbor.encode (.object (commitToObj commit)) := by
  obtain ⟨-, hnodup⟩ := h.decode
  have hsub : (commitToObj commit).Sublist (storedFields commit sig) :=
    List.sublist_append_left _ _
  have herase : erase "sig" (storedFields commit sig) = commitToObj commit := by
    obtain ⟨did, version, data, rev, prev⟩ := commit
    cases prev <;> rfl
  have hlink : "$link" ∉ keys (commitToObj commit) := by
    obtain ⟨did, version, data, rev, prev⟩ := commit
    cases prev with
    | none => exact (by decide : "$link" ∉ ["did", "version", "data", "rev"])
    | some cid => exact (by decide : "$link" ∉ ["did", "version", "data", "rev", "prev"])
  have hperm := (Cbor.perm_sortKeys (storedFields commit sig)).filter fun e => decide (e.1 ≠ "sig")
  refine (encode_of_perm ?_ (hnodup.sublist (hsub.map _)) hlink).symm
  rw [← herase]
  exact hperm.symm

/-! ## The root -/

/-- The root of an instance is a CID. -/
def RootValid (mst : Mst) : Prop := ∀ root ∈ mst.root, isValidCid root

theorem isValidCid_serialize {tree : MstNode} {r : Cid × Bytes × MstNode}
    (h : tree.serialize = .ok r) : isValidCid r.1 := by
  obtain ⟨layer, pointer, entries⟩ := tree
  rw [MstNode.serialize] at h
  obtain ⟨_, -, h⟩ := bind_eq_ok.1 h
  obtain ⟨_, -, h⟩ := bind_eq_ok.1 h
  obtain ⟨bytes, -, h⟩ := bind_eq_ok.1 h
  cases h
  exact isValidCid_cidFromDigest _

variable {mst : Mst}

theorem RootValid.persist (h : RootValid mst) (tree : MstNode) {emptyRoot : Cid → Option Cid}
    (hempty : ∀ cid, isValidCid cid → ∀ root ∈ emptyRoot cid, isValidCid root) :
    RootValid (mst.persist tree emptyRoot).mst := by
  rw [Mst.persist]
  cases hcollect : tree.collectBlocks mst.root.toList with
  | error e => exact h
  | ok collected =>
    dsimp only
    cases hserialize : collected.1.serialize with
    | error e => exact h
    | ok serialized =>
      intro root hroot
      have hvalid := isValidCid_serialize hserialize
      dsimp only at hroot
      split at hroot
      · exact hempty _ hvalid root hroot
      · obtain rfl := Option.some.inj hroot
        exact hvalid

theorem RootValid.set (h : RootValid mst) (key : Key) (value : Cid) :
    RootValid (mst.set key value).mst := by
  rw [Mst.set]
  split
  · exact h
  · dsimp only
    split
    · exact h
    · have hall : RootValid { mst with all := AssocList.set key value mst.all } := h
      exact hall.persist _ fun cid hcid root hroot => Option.some.inj hroot ▸ hcid

theorem RootValid.delete (h : RootValid mst) (key : Key) : RootValid (mst.delete key).mst := by
  rw [Mst.delete]
  split
  · exact h
  · split
    · exact h
    · dsimp only
      split
      · exact h
      · have hall : RootValid { mst with all := AssocList.erase key mst.all } := h
        exact hall.persist _ fun cid hcid root hroot => absurd hroot.symm (Option.some_ne_none root)

theorem RootValid.applyWrite (h : RootValid mst) (write : WriteOp) :
    RootValid (applyWrite mst write).mst := by
  rw [ComputeContract.applyWrite]
  dsimp only
  split
  · split
    · exact h
    · exact h.delete _
  · split
    · exact h
    · split
      · exact h
      · exact h.set _ _

theorem RootValid.applyAll (h : RootValid mst) (writes : List WriteOp) :
    RootValid (applyAll mst writes).mst := by
  induction writes generalizing mst with
  | nil => exact h
  | cons write writes ih =>
    rw [ComputeContract.applyAll]
    dsimp only
    split
    · exact h.applyWrite write
    · exact ih (h.applyWrite write)

theorem RootValid.commitRoot (h : RootValid mst) : isValidCid (commitRoot mst.root).1 := by
  cases hroot : mst.root with
  | none => exact isValidCid_cidFromDigest _
  | some root => exact h root hroot

/-! ## The invariant -/

/-- The commits of a chain, as they were written. -/
def Committed (store : BlockStore) : Option Head → List Made → Prop
  | head, [] => head = none
  | head, made :: rest => head = some ⟨made.event.commit, made.event.rev⟩ ∧
      ∃ commit sig bytes before, store.get made.event.commit = some bytes ∧
        isValidCid made.event.commit ∧ CommitBlock commit sig bytes ∧
        commit.prev = before.map Head.commit ∧ made.event.since = before.map Head.rev ∧
        made.signed = Cbor.encode (.object (commitToObj commit)) ∧ Committed store before rest

variable {store store' : BlockStore} {head : Option Head} {mades : List Made}

theorem Committed.mono (hsub : store.Sub store') (h : Committed store head mades) :
    Committed store' head mades := by
  induction mades generalizing head with
  | nil => exact h
  | cons made rest ih =>
    obtain ⟨hhead, commit, sig, bytes, before, hget, hvalid, hblock, hprev, hsince, hsigned,
      hrest⟩ := h
    exact ⟨hhead, commit, sig, bytes, before, hsub.get hget, hvalid, hblock, hprev, hsince, hsigned,
      ih hrest⟩

/-- The newest commit is the head. -/
theorem Committed.head_eq (h : Committed store head mades) :
    head = mades.head?.map fun made => ⟨made.event.commit, made.event.rev⟩ := by
  cases mades with
  | nil => exact h
  | cons made rest => exact h.1

theorem Committed.chainFrom (h : Committed store head mades) :
    ChainFrom store (head.map Head.commit) mades := by
  induction mades generalizing head with
  | nil =>
    obtain rfl : head = none := h
    rfl
  | cons made rest ih =>
    obtain ⟨rfl, commit, sig, bytes, before, hget, -, hblock, hprev, hsince, hsigned, hrest⟩ := h
    obtain ⟨decoded, hdecoded, -, hdecodedPrev⟩ := hblock.decodeCommit
    refine ⟨rfl, ?_, bytes, _, decoded, hget, hblock.decode.1, ?_, hdecoded, ?_⟩
    · rw [hsince, hrest.head_eq, Option.map_map]
      rfl
    · rw [hblock.encode_erase, hsigned]
    · rw [hdecodedPrev, hprev]
      exact ih hrest

theorem root_of_init {root : Option Cid} {mst : Mst}
    (h : (Mst.createMst root).init store = .ok mst) : mst.root = root := by
  rw [Mst.init, Mst.createMst] at h
  cases root with
  | none =>
    obtain ⟨tree, -, h⟩ := bind_eq_ok.1 h
    cases h
    rfl
  | some cid =>
    obtain ⟨tree, -, h⟩ := bind_eq_ok.1 h
    cases h
    rfl

/-- The tree at the head opens with a root that is a CID. -/
theorem Committed.rootValid (h : Committed store head mades) {root : Option Cid} {mst : Mst}
    (hopen : openMst store head = .ok (root, mst)) : RootValid mst := by
  rw [openMst] at hopen
  obtain ⟨prevRoot, hroot, hopen⟩ := bind_eq_ok.1 hopen
  obtain ⟨opened, hinit, hopen⟩ := bind_eq_ok.1 hopen
  cases hopen
  have hmst : mst.root = root := root_of_init hinit
  rw [RootValid, hmst]
  cases mades with
  | nil =>
    obtain rfl : head = none := h
    cases hroot
    exact fun root hroot => absurd hroot.symm (Option.some_ne_none root)
  | cons made rest =>
    obtain ⟨rfl, commit, sig, bytes, before, hget, -, hblock, -⟩ := h
    obtain ⟨decoded, hdecoded, hdata, -⟩ := hblock.decodeCommit
    rw [headRoot, getMstRoot, hget] at hroot
    dsimp only at hroot
    rw [hdecoded] at hroot
    cases hroot
    rintro _ ⟨⟩
    rw [hdata]
    exact hblock.data

/-- What holds of a process whose times are safe integers. -/
structure Process.Inv (clock : UInt8) (p : Process) : Prop where
  linked : ∀ did, Committed p.storage.blocks (p.storage.getHead did) (p.madeOn did)
  times : p.lastMicros < 2 ^ 53
  /-- Every rev was taken at a time before. -/
  taken : ∀ made ∈ p.made, ∃ micros, micros ≤ p.lastMicros ∧ made.event.rev = packTid micros clock
  revs : p.made.Pairwise fun made before => before.event.rev.1 < made.event.rev.1

theorem Process.Inv.chained {clock : UInt8} {p : Process} (h : p.Inv clock) (did : String) :
    p.Chained did :=
  ⟨(h.linked did).chainFrom, h.revs.sublist List.filter_sublist⟩

theorem Committed.prev_valid (h : Committed store head mades) :
    ∀ cid ∈ head.map Head.commit, isValidCid cid := by
  intro cid hcid
  cases mades with
  | nil =>
    obtain rfl : head = none := h
    cases hcid
  | cons made rest =>
    obtain ⟨rfl, _, _, _, _, _, hvalid, -⟩ := h
    obtain rfl := Option.some.inj hcid
    exact hvalid

/-! ## A turn -/

section
variable {did : String} {made : Made}

theorem filter_cons_of_repo (h : made.event.repo = did) (mades : List Made) :
    (made :: mades).filter (fun made => decide (made.event.repo = did)) =
      made :: mades.filter fun made => decide (made.event.repo = did) :=
  List.filter_cons_of_pos (decide_eq_true h)

theorem filter_cons_of_ne (h : made.event.repo ≠ did) (mades : List Made) :
    (made :: mades).filter (fun made => decide (made.event.repo = did)) =
      mades.filter fun made => decide (made.event.repo = did) :=
  List.filter_cons_of_neg fun heq => h (of_decide_eq_true heq)

end

variable {clock : UInt8} {p : Process}

theorem packTid_lt_of_lt {micros micros' : ℕ} (h : micros < micros') (h' : micros' < 2 ^ 53) :
    (packTid micros clock).1 < (packTid micros' clock).1 :=
  packTid_lt (by omega) (by omega)

/-- A time that is taken is later than those before. -/
theorem Process.Inv.advance (h : p.Inv clock) {turn : Turn} (hsafe : p.micros turn < 2 ^ 53) :
    Process.Inv clock { p with lastMicros := p.micros turn } := by
  have hlt := lt_nextMicros hsafe
  refine ⟨h.linked, hsafe, fun made hmade => ?_, h.revs⟩
  obtain ⟨micros, hle, hrev⟩ := h.taken made hmade
  exact ⟨micros, hle.trans hlt.le, hrev⟩

/-- A call that throws only puts blocks. -/
theorem Process.Inv.put (h : p.Inv clock) {puts : List (Cid × Bytes)}
    (hfree : CollisionFree (p.storage.blocks.putAll puts)) :
    Process.Inv clock
      { p with storage := { p.storage with blocks := p.storage.blocks.putAll puts } } :=
  ⟨fun did => (h.linked did).mono (.putAll hfree), h.times, h.taken, h.revs⟩

/-- A call that succeeds. -/
theorem Process.Inv.add (h : p.Inv clock) {repo : Repo} {did : String} {writes : List WriteOp}
    {reading : ℕ} {event : CommitEvent}
    (hresult : (p.callOf clock repo did writes reading).result p.storage = .ok event)
    (hfree : CollisionFree ((p.callOf clock repo did writes reading).apply p.storage).blocks)
    (hsafe : p.micros (.call repo did writes reading) < 2 ^ 53) :
    Process.Inv clock ⟨(p.callOf clock repo did writes reading).apply p.storage,
      p.micros (.call repo did writes reading),
      ⟨event, (p.callOf clock repo did writes reading).bytesToSign p.storage⟩ :: p.made⟩ := by
  generalize hcall : p.callOf clock repo did writes reading = call at *
  have hrev : call.rev = packTid (p.micros (.call repo did writes reading)) clock := by
    rw [← hcall]
    rfl
  rcases applyWrites_cases call.repo call.rev call.did call.writes p.storage with
    ⟨e, puts, hout⟩ | ⟨prevRoot, mst, ops, carBlocks, sig, commitBytes, hdid, hopen, -, hsig,
      hencode, -, hout⟩
  · cases hresult.symm.trans (congrArg Prod.fst hout)
  · obtain rfl := Except.ok.inj (hresult.symm.trans (congrArg Prod.fst hout))
    have happly : call.apply p.storage = _ := congrArg Prod.snd hout
    rw [happly] at hfree ⊢
    rw [← BlockStore.putAll_append, ← BlockStore.putAll_append] at hfree ⊢
    dsimp only at hfree ⊢
    have hsub := BlockStore.Sub.putAll hfree
    have hlinked := h.linked call.did
    have hblock := CommitBlock.mk hencode (hdid ▸ call.repo.did_plain) rfl
      ((hlinked.rootValid hopen).applyAll call.writes).commitRoot hlinked.prev_valid hsig
    have hget := get_putAll hfree
      (List.mem_append_right _ (List.mem_append_right _ (List.mem_singleton_self _)))
    have hsigned : call.bytesToSign p.storage = Cbor.encode (.object (commitToObj ⟨call.did, 3,
        (commitRoot (applyAll mst call.writes).mst.root).1, call.rev,
        (p.storage.getHead call.did).map Head.commit⟩)) := by
      rw [Call.bytesToSign, hopen]
      rfl
    refine ⟨fun did' => ?_, hsafe, fun made hmade => ?_, List.pairwise_cons.2 ⟨fun before hbefore => ?_,
      h.revs⟩⟩
    · change Committed _ (List.lookup did' (AssocList.set _ _ _)) (List.filter _ (_ :: p.made))
      rw [lookup_set]
      by_cases hne : did' = call.did
      · subst hne
        rw [if_pos rfl, filter_cons_of_repo]
        · exact ⟨rfl, _, sig, commitBytes, _, hget, isValidCid_cidFromDigest _, hblock, rfl, rfl,
            hsigned, hlinked.mono hsub⟩
        · rfl
      · rw [if_neg hne, filter_cons_of_ne]
        · exact (h.linked did').mono hsub
        · exact Ne.symm hne
    · rcases List.mem_cons.1 hmade with rfl | hmade
      · exact ⟨_, le_rfl, hrev⟩
      · obtain ⟨micros, hle, htaken⟩ := h.taken made hmade
        exact ⟨micros, hle.trans (lt_nextMicros hsafe).le, htaken⟩
    · obtain ⟨micros, hle, htaken⟩ := h.taken before hbefore
      rw [htaken]
      exact hrev ▸ packTid_lt_of_lt (hle.trans_lt (lt_nextMicros hsafe)) hsafe

theorem storage_step (clock : UInt8) (p : Process) (repo : Repo) (did : String)
    (writes : List WriteOp) (reading : ℕ) :
    (p.step clock (.call repo did writes reading)).storage =
      (p.callOf clock repo did writes reading).apply p.storage := by
  rw [Process.step]
  cases (p.callOf clock repo did writes reading).result p.storage <;> rfl

/-- A turn takes a time that is a safe integer, and no two blocks have one CID after it. -/
structure Safe (clock : UInt8) (p : Process) (turn : Turn) : Prop where
  time : p.micros turn < 2 ^ 53
  free : CollisionFree (p.step clock turn).storage.blocks

theorem inv_step {turn : Turn} (h : p.Inv clock) (hsafe : Safe clock p turn) :
    (p.step clock turn).Inv clock := by
  obtain ⟨htime, hfree⟩ := hsafe
  cases turn with
  | tid reading => exact h.advance htime
  | call repo did writes reading =>
    rw [storage_step] at hfree
    rw [Process.step]
    cases hresult : (p.callOf clock repo did writes reading).result p.storage with
    | ok event => exact h.add hresult hfree htime
    | error e =>
      dsimp only
      rcases applyWrites_cases repo (p.callOf clock repo did writes reading).rev did writes p.storage
        with ⟨e', puts, hout⟩ | ⟨_, _, _, _, _, _, _, _, _, _, _, _, hout⟩
      · have happly : (p.callOf clock repo did writes reading).apply p.storage = _ :=
          congrArg Prod.snd hout
        rw [happly] at hfree ⊢
        exact h.put hfree
      · cases hresult.symm.trans (congrArg Prod.fst hout)

theorem inv_start (clock : UInt8) : Process.start.Inv clock :=
  ⟨fun _ => rfl, Nat.two_pow_pos 53, fun _ h => (nomatch h), List.Pairwise.nil⟩

/-- The state that a run ends in. -/
theorem inv_run {turns : List Turn} (h : p.Inv clock)
    (hsafe : Along (Process.step clock) (Safe clock) p turns) :
    (turns.foldl (Process.step clock) p).Inv clock := by
  induction turns generalizing p with
  | nil => exact h
  | cons turn turns ih => exact ih (inv_step h hsafe.1) hsafe.2

/-- A record is created and then updated, at these readings of the clock. -/
def sampleTurns (reading reading' : ℕ) : List Turn :=
  [.call sampleRepo "did:plc:abc" [⟨.create, "a", "0", .text "one"⟩] reading,
    .call sampleRepo "did:plc:abc" [⟨.update, "a", "0", .text "two"⟩] reading']

def sampleRun (reading reading' : ℕ) : Process :=
  (sampleTurns reading reading').foldl (Process.step 7) .start

end ComputeContract
