import ComputeContract.Cbor.Canonical
import ComputeContract.Cbor.OfJson
import ComputeContract.Repo.Atomic

/-!
# The reply to a created record

`createRecord` answers with the URI of the record and the CID of the commit. `getRecord` answers
with the URI and the CID of the record's block. A record comes as JSON, which has no byte strings,
and a commit carries its signature as one: their blocks differ.

* `block_ne_commit`: the block of a JSON record is no commit;
* `getRecord_created`: what is read of a record that was created;
* `createRecord_never_agrees`: it never has the CID of the reply.
-/

namespace ComputeContract

open AssocList MstNode

/-! ## The routes -/

structure CreateBody where
  collection : String
  rkey : Option String
  record : Json

/-- `POST /xrpc/com.atproto.repo.createRecord`: the URI and the CID of the reply. The key and the
    revision are two calls of `nextTid()`. -/
def createRecord (repo : Repo) (did : String) (generated rev : Tid) (body : CreateBody)
    (storage : Storage) : Except RepoError (String × Cid) × Storage :=
  if body.collection = "" ∨ isFalsy body.record.toValue then
    (.error (.xrpc .InvalidRequest "collection and record are required"), storage)
  else
    let rkey := body.rkey.getD generated.1
    let out := applyWrites repo rev did [⟨.create, body.collection, rkey, body.record.toValue⟩]
      storage
    (out.1.map fun evt => ("at://" ++ did ++ "/" ++ body.collection ++ "/" ++ rkey, evt.commit),
      out.2)

/-- `GET /xrpc/com.atproto.repo.getRecord` -/
def getRecordRoute (storage : Storage) (did collection rkey : String) :
    Except RepoError RepoRecord :=
  if collection = "" ∨ rkey = "" then
    .error (.xrpc .InvalidRequest "collection and rkey are required")
  else
    match getRecord storage did collection rkey with
    | .error e => .error (.error e)
    | .ok none =>
      .error (.xrpc .RecordNotFound ("record not found: " ++ collection ++ "/" ++ rkey))
    | .ok (some record) => .ok record

/-- What is read under the key has the URI and the CID of the reply. -/
def Agrees (storage : Storage) (did collection rkey : String) (reply : String × Cid) : Prop :=
  ∃ record, getRecordRoute storage did collection rkey = .ok record ∧ record.uri = reply.1 ∧
    record.cid = reply.2

/-! ## Blocks -/

namespace Cbor

theorem joinFields_cons {key : String} {val : Except String Bytes}
    {fs : List (String × Except String Bytes)} {out : Bytes}
    (h : joinFields ((key, val) :: fs) = .ok out) : ∃ o os, val = .ok o ∧
      joinFields fs = .ok os ∧ out = encodeText key ++ (o ++ os) := by
  rw [joinFields] at h
  obtain ⟨o, ho, h⟩ := ComputeContract.bind_eq_ok.1 h
  obtain ⟨os, hos, h⟩ := ComputeContract.bind_eq_ok.1 h
  refine ⟨o, os, ho, hos, ?_⟩
  rw [← Except.ok.inj h, List.append_assoc]

/-- The encoding of a JSON value: a text, a map of JSON values, or something else that is no byte
    string. -/
theorem encodeValue_toValue {v : Json} {out : Bytes} (h : encodeValue v.toValue = .ok out) :
    (∃ s, out = encodeText s) ∨
    (∃ es os, out = writeHeader MAJOR_MAP es.length ++ os ∧ joinFields es = .ok os ∧
      ∀ e ∈ es, ∃ w : Json, e.2 = encodeValue w.toValue) ∨
    ∃ major value rest, major < 8 ∧ major ∉ [MAJOR_BYTES, MAJOR_TEXT, MAJOR_MAP] ∧
      out = writeHeader major value ++ rest := by
  have hhead : ∀ major value rest, major < 8 → major ∉ [MAJOR_BYTES, MAJOR_TEXT, MAJOR_MAP] →
      .ok out = (.ok (writeHeader major value ++ rest) : Except String Bytes) →
      ∃ major value rest, major < 8 ∧ major ∉ [MAJOR_BYTES, MAJOR_TEXT, MAJOR_MAP] ∧
        out = writeHeader major value ++ rest :=
    fun major value rest hm hne heq => ⟨major, value, rest, hm, hne, Except.ok.inj heq⟩
  cases v with
  | null => exact .inr (.inr (hhead MAJOR_SIMPLE _ [] (by decide) (by decide) (by
      rw [← h, List.append_nil]; rfl)))
  | bool b =>
    refine .inr (.inr ?_)
    cases b with
    | true => exact hhead MAJOR_SIMPLE SIMPLE_TRUE [] (by decide) (by decide) (by
        rw [← h, List.append_nil]; rfl)
    | false => exact hhead MAJOR_SIMPLE SIMPLE_FALSE [] (by decide) (by decide) (by
        rw [← h, List.append_nil]; rfl)
  | number n =>
    refine .inr (.inr ?_)
    rw [Json.toValue] at h
    split_ifs at h
    · rw [encodeValue] at h
      split_ifs at h
      · exact hhead MAJOR_UINT _ [] (by decide) (by decide) (by rw [← h, List.append_nil])
      · exact hhead MAJOR_NEG _ [] (by decide) (by decide) (by rw [← h, List.append_nil])
    · cases h
  | infinite negative => cases h
  | string s => exact .inl ⟨s, (Except.ok.inj h).symm⟩
  | array items =>
    rw [Json.toValue, encodeValue] at h
    obtain ⟨out', -, h⟩ := ComputeContract.bind_eq_ok.1 h
    exact .inr (.inr (hhead MAJOR_ARRAY _ out' (by decide) (by decide) h.symm))
  | object fields =>
    rw [Json.toValue, encodeValue] at h
    cases hlink : linkField (Json.toFields fields) with
    | some cid =>
      rw [hlink] at h
      obtain ⟨cidBytes, -, h⟩ := ComputeContract.bind_eq_ok.1 h
      refine .inr (.inr (hhead MAJOR_TAG TAG_CID
        (writeHeader MAJOR_BYTES (cidBytes.length + 1) ++ 0x00 :: cidBytes) (by decide) (by decide) ?_))
      rw [← List.append_assoc]
      exact h.symm
    | none =>
      rw [hlink] at h
      obtain ⟨os, hos, h⟩ := ComputeContract.bind_eq_ok.1 h
      refine .inr (.inl ⟨_, os, ?_, hos, fun e he => ?_⟩)
      · rw [length_sortKeys, encodeFields_eq, List.length_map]
        exact (Except.ok.inj h).symm
      · have he := (perm_sortKeys _).mem_iff.1 he
        rw [encodeFields_eq] at he
        obtain ⟨e', he', rfl⟩ := List.mem_map.1 he
        obtain ⟨w, hw⟩ := Json.exists_toValue_of_mem e' he'
        exact ⟨w, congrArg encodeValue hw⟩

/-- Fields in the order of their keys are sorted. -/
theorem sortKeys_eq {α : Type} {fields fields' : List (String × α)} (hn : (keys fields).Nodup)
    (hn' : (keys fields').Nodup) (hmem : ∀ e, e ∈ fields ↔ e ∈ fields')
    (hsorted : (keys fields').Pairwise fun key key' => keyLe key key') :
    sortKeys fields = fields' := by
  have hperm := (List.perm_ext_iff_of_nodup hn.of_map hn'.of_map).2 hmem
  rw [sortKeys_eq_of_perm hn hperm]
  exact List.Pairwise.insertionSort_eq (List.pairwise_map.1 hsorted)

/-- The fields of a commit in the order of their keys. -/
theorem sortKeys_commit (commit : CommitData) (sig : Bytes) : ∃ rest,
    sortKeys (encodeFields (commitToObj commit ++ [("sig", .bytes sig)])) =
      ("did", encodeValue (.text commit.did)) :: ("rev", encodeValue (.text commit.rev.1)) ::
        ("sig", encodeValue (.bytes sig)) :: rest := by
  have hnodup : ["did", "version", "data", "rev", "prev", "sig"].Nodup ∧
      ["did", "version", "data", "rev", "sig"].Nodup ∧
      ["did", "rev", "sig", "data", "prev", "version"].Nodup ∧
      ["did", "rev", "sig", "data", "version"].Nodup := by
    decide
  have hsorted : ["did", "rev", "sig", "data", "prev", "version"].Pairwise
      fun key key' => keyLe key key' := by
    decide +kernel
  have hsorted' : ["did", "rev", "sig", "data", "version"].Pairwise
      fun key key' => keyLe key key' := by
    decide +kernel
  obtain ⟨did, version, data, rev, prev⟩ := commit
  cases prev with
  | none =>
    refine ⟨[("data", encodeValue (.link data)), ("version", encodeValue (.int version))],
      sortKeys_eq hnodup.2.1 hnodup.2.2.2 (fun e => ?_) hsorted'⟩
    simp only [commitToObj, Option.map_none, Option.toList_none, List.append_nil, List.cons_append,
      List.nil_append, encodeFields, List.mem_cons, List.not_mem_nil, or_false]
    exact Iff.of_eq (by ac_rfl)
  | some cid =>
    refine ⟨[("data", encodeValue (.link data)), ("prev", encodeValue (.link cid)),
      ("version", encodeValue (.int version))],
      sortKeys_eq hnodup.1 hnodup.2.2.1 (fun e => ?_) hsorted⟩
    simp only [commitToObj, Option.map_some, Option.toList_some, List.cons_append,
      List.nil_append, encodeFields, List.mem_cons, List.not_mem_nil, or_false]
    exact Iff.of_eq (by ac_rfl)

/-- The block of a commit, up to its signature. -/
theorem encodeCommit_eq {commit : CommitData} {sig out : Bytes}
    (h : encodeCommit commit sig = .ok out) : ∃ n < 2 ^ 32, ∃ tail,
      out = writeHeader MAJOR_MAP n ++ (encodeText "did" ++ (encodeText commit.did ++
        (encodeText "rev" ++ (encodeText commit.rev.1 ++ (encodeText "sig" ++
          (writeHeader MAJOR_BYTES sig.length ++ tail)))))) := by
  obtain ⟨rest, hsort⟩ := sortKeys_commit commit sig
  have hlink : linkField (commitToObj commit ++ [("sig", Value.bytes sig)]) = none := by
    refine linkField_of_not_mem ?_
    obtain ⟨did, version, data, rev, _ | cid⟩ := commit <;> simp [commitToObj]
  have hlength : (commitToObj commit ++ [("sig", Value.bytes sig)]).length < 2 ^ 32 := by
    obtain ⟨did, version, data, rev, _ | cid⟩ := commit <;> simp [commitToObj]
  rw [encodeCommit, encode, encodeValue, hlink, hsort] at h
  obtain ⟨os, hos, h⟩ := ComputeContract.bind_eq_ok.1 h
  obtain ⟨o₁, os₁, ho₁, hos₁, rfl⟩ := joinFields_cons hos
  obtain ⟨o₂, os₂, ho₂, hos₂, rfl⟩ := joinFields_cons hos₁
  obtain ⟨o₃, os₃, ho₃, -, rfl⟩ := joinFields_cons hos₂
  obtain rfl := Except.ok.inj ho₁
  obtain rfl := Except.ok.inj ho₂
  obtain rfl := Except.ok.inj ho₃
  refine ⟨_, hlength, sig ++ os₃, ?_⟩
  rw [← Except.ok.inj h, List.append_assoc _ sig]

/-- A field of a JSON map whose key is known. -/
theorem field_of_text {es : List (String × Except String Bytes)} {os rest : Bytes} {key : String}
    (hos : joinFields es = .ok os) (hes : ∀ e ∈ es, ∃ w : Json, e.2 = encodeValue w.toValue)
    (hkey : (textEncode key).length < 2 ^ 32) (h : os = encodeText key ++ rest) :
    ∃ es' o os', ∃ w : Json, encodeValue w.toValue = .ok o ∧ joinFields es' = .ok os' ∧
      (∀ e ∈ es', ∃ w : Json, e.2 = encodeValue w.toValue) ∧ o ++ os' = rest := by
  cases es with
  | nil =>
    obtain rfl := Except.ok.inj hos
    have hpos := length_writeHeader_pos MAJOR_TEXT (textEncode key).length
    have hlength := congrArg List.length h
    rw [encodeText, List.length_append, List.length_append, List.length_nil] at hlength
    omega
  | cons e es =>
    obtain ⟨key', val⟩ := e
    obtain ⟨o, os', ho, hos', rfl⟩ := joinFields_cons hos
    rw [List.forall_mem_cons] at hes
    obtain ⟨w, hw⟩ := hes.1
    exact ⟨es, o, os', w, hw.symm.trans ho, hos', hes.2, (encodeText_append_inj_of_lt hkey h).2⟩

/-- A JSON value that is written as a text is one. -/
theorem value_of_text {w : Json} {o os rest : Bytes} {s : String}
    (ho : encodeValue w.toValue = .ok o) (hs : (textEncode s).length < 2 ^ 32)
    (h : o ++ os = encodeText s ++ rest) : os = rest := by
  have hhead : encodeText s ++ rest =
      writeHeader MAJOR_TEXT (textEncode s).length ++ (textEncode s ++ rest) := by
    rw [encodeText, List.append_assoc]
  rcases encodeValue_toValue ho with ⟨s', rfl⟩ | ⟨es, os', rfl, -, -⟩ | ⟨major, value, tail, hm, hne, rfl⟩
  · exact (encodeText_append_inj_of_lt hs h).2
  · rw [hhead, List.append_assoc] at h
    exact absurd (writeHeader_append_inj_of_lt (by decide) (by decide) hs h).1 (by decide)
  · rw [hhead, List.append_assoc] at h
    obtain rfl := (writeHeader_append_inj_of_lt hm (by decide) hs h).1
    exact absurd (by decide) hne

/-- A JSON value is no byte string. -/
theorem value_ne_bytes {w : Json} {o os rest : Bytes} {n : ℕ} (ho : encodeValue w.toValue = .ok o)
    (hn : n < 2 ^ 32) : o ++ os ≠ writeHeader MAJOR_BYTES n ++ rest := by
  intro h
  rcases encodeValue_toValue ho with ⟨s, rfl⟩ | ⟨es, os', rfl, -, -⟩ | ⟨major, value, tail, hm, hne, rfl⟩
  · rw [encodeText, List.append_assoc] at h
    exact absurd (writeHeader_append_inj_of_lt (by decide) (by decide) hn h).1 (by decide)
  · rw [List.append_assoc] at h
    exact absurd (writeHeader_append_inj_of_lt (by decide) (by decide) hn h).1 (by decide)
  · rw [List.append_assoc] at h
    obtain rfl := (writeHeader_append_inj_of_lt hm (by decide) hn h).1
    exact hne (by decide)

/-- The block of a JSON record is no commit. -/
theorem block_ne_commit {record : Json} {commit : CommitData} {sig block bytes : Bytes}
    (hrecord : encode record.toValue = .ok block) (hcommit : encodeCommit commit sig = .ok bytes)
    (hdid : (textEncode commit.did).length < 2 ^ 32) (hsig : sig.length < 2 ^ 32) :
    block ≠ bytes := by
  rintro rfl
  obtain ⟨n, hn, tail, hbytes⟩ := encodeCommit_eq hcommit
  -- What stands before the signature is a map with two texts, and the signature is a byte string.
  have hrev : (textEncode commit.rev.1).length < 2 ^ 32 := by
    have := of_decide_eq_true (plainText_tid commit.rev)
    omega
  rcases encodeValue_toValue hrecord with ⟨s, heq⟩ | ⟨es, os, heq, hos, hes⟩ |
    ⟨major, value, rest, hm, hne, heq⟩
  · rw [heq, encodeText] at hbytes
    exact absurd (writeHeader_append_inj_of_lt (by decide) (by decide) hn hbytes).1 (by decide)
  · rw [heq] at hbytes
    obtain ⟨-, -, hfields⟩ := writeHeader_append_inj_of_lt (by decide) (by decide) hn hbytes
    have hdid' : (textEncode "did").length < 2 ^ 32 ∧ (textEncode "rev").length < 2 ^ 32 ∧
        (textEncode "sig").length < 2 ^ 32 := by
      decide +kernel
    obtain ⟨_, o₁, os₁, w₁, ho₁, hos₁, hes, hfields⟩ := field_of_text hos hes hdid'.1 hfields
    obtain hfields := value_of_text ho₁ hdid hfields
    obtain ⟨_, o₂, os₂, w₂, ho₂, hos₂, hes, hfields⟩ := field_of_text hos₁ hes hdid'.2.1 hfields
    obtain hfields := value_of_text ho₂ hrev hfields
    obtain ⟨_, o₃, os₃, w₃, ho₃, -, -, hfields⟩ := field_of_text hos₂ hes hdid'.2.2 hfields
    exact value_ne_bytes ho₃ hsig hfields
  · rw [heq] at hbytes
    obtain rfl := (writeHeader_append_inj_of_lt hm (by decide) hn hbytes).1
    exact hne (by decide)

end Cbor

/-! ## What is read -/

section
variable {repo : Repo} {did : String} {rev : Tid} {write : WriteOp} {storage : Storage}
  {m : List (Key × Cid)}

/-- What one write does. -/
theorem applyAll_singleton {mst : Mst} {ops : List CommitOp}
    (hops : (applyAll mst [write]).result = .ok ops) :
    (∃ op, (applyWrite mst write).result = .ok op) ∧
      (applyAll mst [write]).mst = (applyWrite mst write).mst ∧
      (applyAll mst [write]).puts = (applyWrite mst write).puts := by
  rw [applyAll] at hops ⊢
  dsimp only at hops ⊢
  cases hop : (applyWrite mst write).result with
  | error e =>
    rw [hop] at hops
    cases hops
  | ok op => exact ⟨⟨op, rfl⟩, rfl, List.append_nil _⟩

/-- What comes of a write that succeeds: the record is in the map at the new head, and its block
    and that of the commit are stored. -/
theorem of_create (haction : write.action = .create)
    (hstored : HeadStored storage.blocks (storage.getHead did) m) (hlength : m.length + 1 < 2 ^ 31)
    {call : Call} (hcall : call = ⟨repo, rev, did, [write]⟩)
    (hfree : CollisionFree (callBlocks storage call)) {evt : CommitEvent}
    (hresult : call.result storage = .ok evt) :
    ∃ block commit sig bytes, Cbor.encode write.record = .ok block ∧
      encodeCommit commit sig = .ok bytes ∧ commit.did = did ∧ Cbor.plainText did ∧
      sig.length < 2 ^ 31 ∧ evt.commit = cidForBytes bytes ∧
      (cidForBytes block, block) ∈ (call.apply storage).blocks ∧
      (cidForBytes bytes, bytes) ∈ (call.apply storage).blocks ∧
      HeadStored (call.apply storage).blocks ((call.apply storage).getHead did)
        (insertKey write.key (cidForBytes block) m) := by
  subst hcall
  obtain ⟨root, mst, tree, empty, h⟩ := hstored
  rcases applyWrites_cases repo rev did [write] storage with
    ⟨e, puts, hout⟩ | ⟨prevRoot, mst', ops, carBlocks, sig, bytes, hdid, hopen, hops, hsig,
      hencode, -, hout⟩
  · exact absurd ((congrArg Prod.fst hout).symm.trans hresult) (by simp)
  obtain ⟨rfl, rfl⟩ : root = prevRoot ∧ mst = mst' :=
    Prod.mk.inj (Except.ok.inj (h.openMst.symm.trans hopen))
  have hresult' := congrArg Prod.fst hout
  have happly := congrArg Prod.snd hout
  change Call.apply storage ⟨repo, rev, did, [write]⟩ = _ at happly
  change Call.result ⟨repo, rev, did, [write]⟩ storage = _ at hresult'
  dsimp only at happly hresult'
  rw [callBlocks, hopen] at hfree
  dsimp only at hfree
  have hafter := blocks_applyAll_subset hops
  obtain ⟨⟨op, hop⟩, hmst, hputs⟩ := applyAll_singleton hops
  rw [hmst] at hafter hencode happly
  rw [hputs] at happly
  have hblocks := congrArg Storage.blocks happly
  dsimp only at hblocks
  have hfree₁ : CollisionFree (storage.blocks.putAll (applyWrite mst write).puts ++
      (mst.blocks ++ (applyWrite mst write).mst.blocks)) := by
    refine hfree.mono fun b hb => ?_
    rw [hblocks, BlockStore.putAll, BlockStore.putAll]
    rcases List.mem_append.1 hb with hb | hb
    · exact List.mem_append_left _ (List.mem_append_right _ (List.mem_append_right _ hb))
    · exact List.mem_append_right _ ((List.mem_append.1 hb).elim
        (blocks_subset_batchBlocks mst [write] b) (hafter b))
  -- The record is held, and its block is put.
  have hnot : write.action ≠ .delete := haction ▸ by decide
  obtain ⟨block, hblock, hwblock, -⟩ := applyWrite_of_set hnot hop
  have hwritten := written_of_set h.held hnot hop h.emptyStored hfree₁
  obtain ⟨tree', hheld⟩ := hwritten.held
  have happlyTo : write.applyTo m = insertKey write.key (cidForBytes block) m := by
    rw [WriteOp.applyTo, hwblock]
  rw [happlyTo] at hheld
  have hput := hwritten.puts _ (Option.mem_def.2 hwblock)
  have hfree₀ := hfree₁.mono fun b hb => List.mem_append_left _ hb
  have hsub := BlockStore.Sub.putAll hfree₀
  have hprev : ∀ cid ∈ (storage.getHead did).map Head.commit, isValidCid cid := fun cid hcid => by
    obtain ⟨head, hhead, rfl⟩ := Option.map_eq_some_iff.1 hcid
    exact h.head_valid head hhead
  have hrecords : ∀ e ∈ insertKey write.key (cidForBytes block) m,
      ∃ bytes, (storage.blocks.putAll (applyWrite mst write).puts).get e.2 = some bytes := by
    intro e he
    rcases mem_insertKey.1 he with rfl | ⟨he, -⟩
    · exact ⟨block, get_putAll hfree₀ hput⟩
    · exact (h.records e he).imp fun _ hget => hsub.get hget
  have hplain : Cbor.plainText did := hdid ▸ repo.did_plain
  obtain ⟨-, hseal⟩ := headStored_seal hheld (h.emptyStored.mono hsub)
    ((length_insertKey_le _ _ _).trans_lt hlength) hrecords hplain hsig hprev hencode hblocks
    (hfree.mono fun b hb => (List.mem_append.1 hb).elim (List.mem_append_left _)
      fun hb => List.mem_append_right _ (hafter b hb))
  refine ⟨block, _, sig, bytes, hblock, hencode, rfl, hplain, hsig, ?_, ?_, ?_, ?_⟩
  · exact congrArg CommitEvent.commit (Except.ok.inj (hresult.symm.trans hresult'))
  · rw [hblocks, BlockStore.putAll, BlockStore.putAll, BlockStore.putAll]
    exact List.mem_append_right _ (List.mem_append_right _
      (List.mem_append_left _ (List.mem_reverse.2 hput)))
  · rw [hblocks, BlockStore.putAll]
    exact List.mem_append_left _ (List.mem_singleton_self _)
  · rw [happly] at hseal ⊢
    rw [Storage.getHead, lookup_set, if_pos rfl]
    exact hseal

variable {body : CreateBody} {generated : Tid} {reply : String × Cid} {storage' : Storage}

/-- What is read of a record that was created has the CID of its block, which is not that of the
    commit. -/
theorem getRecord_created (hstored : HeadStored storage.blocks (storage.getHead did) m)
    (hlength : m.length + 1 < 2 ^ 31)
    (hfree : CollisionFree (callBlocks storage ⟨repo, rev, did,
      [⟨.create, body.collection, body.rkey.getD generated.1, body.record.toValue⟩]⟩))
    (hcreate : createRecord repo did generated rev body storage = (.ok reply, storage'))
    {record : RepoRecord}
    (hget : getRecordRoute storage' did body.collection (body.rkey.getD generated.1) = .ok record) :
    record.uri = reply.1 ∧ record.cid ≠ reply.2 := by
  rw [createRecord] at hcreate
  split_ifs at hcreate
  · cases hcreate
  dsimp only at hcreate
  obtain ⟨hreply, rfl⟩ := Prod.mk.inj hcreate
  obtain ⟨evt, hevt, rfl⟩ := map_eq_ok.1 hreply
  have hresult : Call.result ⟨repo, rev, did,
      [⟨.create, body.collection, body.rkey.getD generated.1, body.record.toValue⟩]⟩ storage =
        .ok evt := hevt
  obtain ⟨block, commit, sig, bytes, hblock, hcommit, hdid, hplain, hsig, hcid, hmem, hmem', h⟩ :=
    of_create rfl hstored hlength rfl hfree hresult
  have hread : getRecord (Call.apply storage ⟨repo, rev, did, [⟨.create, body.collection,
      body.rkey.getD generated.1, body.record.toValue⟩]⟩) did body.collection (body.rkey.getD generated.1) = .ok (some record) := by
    rw [getRecordRoute] at hget
    split_ifs at hget
    split at hget
    · cases hget
    · cases hget
    · rw [← Except.ok.inj hget]
      assumption
  obtain ⟨_, _, _, _, hopen⟩ := h
  have hat := congrFun (congrFun hopen.getRecord body.collection) (body.rkey.getD generated.1)
  rw [recordAt, WriteOp.key, lookup_insertKey, if_pos rfl] at hat
  dsimp only at hat
  obtain ⟨value, hrecord⟩ : ∃ value, record =
      ⟨recordUri did (recordKey body.collection (body.rkey.getD generated.1)), cidForBytes block,
        value⟩ := by
    have hrec := hat.symm.trans hread
    rw [readRecord] at hrec
    split at hrec
    · cases hrec
    · obtain ⟨value, -, hvalue⟩ := ComputeContract.bind_eq_ok.1 hrec
      exact ⟨value, (Option.some.inj (Except.ok.inj hvalue)).symm⟩
  subst hrecord
  refine ⟨?_, fun heq => ?_⟩
  · simp [recordUri, recordKey, String.append_assoc]
  -- Two blocks with the CID of the reply: one of them is no commit.
  · have hsame := hfree _ (List.mem_append_left _ hmem) _ (List.mem_append_left _ hmem')
      (heq.trans hcid)
    have hshort := (of_decide_eq_true hplain).1
    refine Cbor.block_ne_commit hblock hcommit ?_ (by omega) hsame
    rw [hdid]
    omega

/-- A create of the sample repository on the path `a/0`. -/
def sampleBody : CreateBody := ⟨"a", some "0", .string "record"⟩

theorem createRecord_sampleBody : ∃ reply storage', createRecord sampleRepo "did:plc:abc" sampleTid
    sampleTid sampleBody ⟨[], []⟩ = (.ok reply, storage') := by
  have hok : (createRecord sampleRepo "did:plc:abc" sampleTid sampleTid sampleBody ⟨[], []⟩).1.isOk := by
    decide +kernel
  cases hout : createRecord sampleRepo "did:plc:abc" sampleTid sampleTid sampleBody ⟨[], []⟩ with
  | mk result storage' =>
    rw [hout] at hok
    cases result with
    | error e => cases hok
    | ok reply => exact ⟨reply, storage', rfl⟩

/-- What is read of a record that was created never has the CID of the reply. -/
theorem createRecord_never_agrees (repo : Repo) (did : String) (generated rev : Tid) (body : CreateBody)
    (storage storage' : Storage) (m : List (Key × Cid)) (reply : String × Cid)
    (hstored : HeadStored storage.blocks (storage.getHead did) m) (hlength : m.length + 1 < 2 ^ 31)
    (hfree : CollisionFree (callBlocks storage ⟨repo, rev, did,
      [⟨.create, body.collection, body.rkey.getD generated.1, body.record.toValue⟩]⟩))
    (hcreate : createRecord repo did generated rev body storage = (.ok reply, storage')) :
    ¬ Agrees storage' did body.collection (body.rkey.getD generated.1) reply := by
  rintro ⟨record, hget, -, hcid⟩
  exact (getRecord_created hstored hlength hfree hcreate hget).2 hcid

theorem createRecord_never_agrees_sampleBody : ∃ reply storage', createRecord sampleRepo "did:plc:abc" sampleTid
    sampleTid sampleBody ⟨[], []⟩ = (.ok reply, storage') ∧
      ¬ Agrees storage' "did:plc:abc" "a" "0" reply := by
  obtain ⟨reply, storage', hcreate⟩ := createRecord_sampleBody
  exact ⟨reply, storage', hcreate, createRecord_never_agrees sampleRepo "did:plc:abc" sampleTid sampleTid sampleBody
    ⟨[], []⟩ storage' [] reply (headStored_none []) (by decide) (by decide +kernel) hcreate⟩

/-- Not every record that was created is read with the CID of the reply. -/
theorem not_createRecord_agrees : ¬ ∀ (repo : Repo) (did : String) (generated rev : Tid)
    (body : CreateBody) (storage storage' : Storage) (reply : String × Cid), AllStored storage →
      createRecord repo did generated rev body storage = (.ok reply, storage') →
        Agrees storage' did body.collection (body.rkey.getD generated.1) reply := by
  intro h
  obtain ⟨reply, storage', hcreate⟩ := createRecord_sampleBody
  obtain ⟨record, hget, -, hcid⟩ := h _ _ _ _ _ _ _ _ allStored_empty hcreate
  exact (getRecord_created (headStored_none []) (by decide) (by decide +kernel) hcreate hget).2 hcid

end

end ComputeContract
