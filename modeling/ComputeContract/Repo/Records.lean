import ComputeContract.Repo.Atomic

/-!
# The records of a collection

What the programs that keep their data in a repository see of it: the records of a
collection (`Records`), in the order of their paths, which `getRecord` looks up,
`listRecords` reads a page of, and a write puts or drops one of. A stored repository holds
them (`Holds`), as the canonical form of their encoding:

* `Holds.getRecord`, `Holds.listRecords`: what is read are the records;
* `Holds.put`, `Holds.delete`, `Holds.throw`: a write that succeeds is one on the records,
  one that throws changes none.
-/

namespace ComputeContract

open AssocList

/-- The records of a collection, by their paths and in the order of these. -/
abbrev Records (V : Type) := List (Key × V)

namespace Records

variable {V : Type}

/-- The page from the cursor on, and the cursor of the next one. -/
def page (m : Records V) (limit : ℤ) (cursor : Option Key) : Records V × Option Key :=
  let rest := m.filter fun e => ¬ ((cursor.getD ⟨""⟩).str ≠ "" ∧ e.1 < cursor.getD ⟨""⟩)
  (rest.take limit.toNat, (rest.drop limit.toNat).head?.map Prod.fst)

/-- Without a cursor, the first records. -/
theorem page_none (m : Records V) (limit : ℤ) :
    m.page limit none = (m.take limit.toNat, (m.drop limit.toNat).head?.map Prod.fst) := by
  have hall : m.filter (fun e => ¬ ((⟨""⟩ : Key).str ≠ "" ∧ e.1 < ⟨""⟩)) = m :=
    List.filter_eq_self.2 fun e _ => by simp
  rw [page, Option.getD_none, hall]

end Records

/-! ## In a repository -/

/-- The path of a record of the collection. -/
def inCollection (collection : String) (key : Key) : Bool :=
  (collection ++ "/").toList.isPrefixOf key.str.toList

theorem inCollection_iff {collection : String} {key : Key} :
    inCollection collection key ↔ ∃ rkey, key = recordKey collection rkey := by
  rw [inCollection, List.isPrefixOf_iff_prefix]
  constructor
  · rintro ⟨rest, hrest⟩
    refine ⟨String.ofList rest, ?_⟩
    obtain ⟨str⟩ := key
    rw [recordKey, Key.mk.injEq, ← String.toList_inj, ← hrest]
    simp
  · rintro ⟨rkey, rfl⟩
    exact ⟨rkey.toList, by simp [recordKey]⟩

/-- What is read of a record: its value. -/
def readValue (record : Except String (Option RepoRecord)) : Except String (Option Value) :=
  record.map (Option.map RepoRecord.value)

namespace Records

variable {V : Type} (encode : V → Value)

/-- The records of the collection are read from the repository, in canonical form. -/
structure HeldBy (storage : Storage) (did collection : String) (m : Records V) : Prop where
  sorted : Sorted m
  mem : ∀ e ∈ m, inCollection collection e.1
  reads : ∀ rkey, readValue (getRecord storage did collection rkey) =
    .ok ((m.lookup (recordKey collection rkey)).map fun v => Cbor.canon (encode v))

/-! ## Listing -/

/-- A page of a tree: after the results so far, the leaves of the collection from the cursor
    on, whose records are there. -/
theorem listLoop_eq {store : BlockStore} {did collection : String} {limit : ℤ} {cursor : Key}
    (f : Key × Cid → RepoRecord) {es : List (Key × Cid)}
    (hes : ∀ e ∈ es, inCollection collection e.1 →
      readRecord store did e.1 e.2 = .ok (some (f e))) (results : List RepoRecord) :
    let rest := es.filter fun e =>
      inCollection collection e.1 && decide (¬ (cursor.str ≠ "" ∧ e.1 < cursor))
    listLoop store did collection limit cursor results es =
      .ok (results ++ (rest.take (limit - results.length).toNat).map f,
        (rest.drop (limit - results.length).toNat).head?.map Prod.fst) := by
  dsimp only
  induction es generalizing results with
  | nil => simp [listLoop]
  | cons e es ih =>
    obtain ⟨key, cid⟩ := e
    rw [List.forall_mem_cons] at hes
    rw [listLoop, List.filter_cons]
    by_cases hin : inCollection collection key
    · have hin' : (collection ++ "/").toList.isPrefixOf key.str.toList := hin
      rw [if_neg (not_not.2 hin')]
      by_cases hcur : cursor.str ≠ "" ∧ key < cursor
      · rw [if_pos hcur, ih hes.2, if_neg (by simp [hcur])]
      · have htake : (inCollection collection key &&
            decide (¬ (cursor.str ≠ "" ∧ key < cursor))) = true := by
          rw [hin, Bool.true_and, decide_eq_true hcur]
        rw [if_neg hcur, if_pos htake]
        by_cases hfull : limit ≤ results.length
        · have hzero : (limit - results.length).toNat = 0 := by omega
          rw [if_pos hfull, hzero]
          simp
        · obtain ⟨n, hn⟩ : ∃ n, (limit - results.length).toNat = n + 1 :=
            ⟨(limit - results.length).toNat - 1, by omega⟩
          have hn' : (limit - (results ++ [f (key, cid)]).length).toNat = n := by
            rw [List.length_append, List.length_singleton]
            omega
          rw [if_neg hfull, hes.1 hin, ok_bind, Option.toList_some, ih hes.2, hn', hn]
          simp
    · have hin' : ¬ (collection ++ "/").toList.isPrefixOf key.str.toList := hin
      rw [if_pos hin', ih hes.2, if_neg (by simp [hin])]

variable {encode} {storage storage' : Storage} {did collection : String} {m : Records V}

/-- The record of a leaf, as it is listed. -/
def listed (encode : V → Value) (did : String) (m : Records V) (e : Key × Cid) : RepoRecord :=
  ⟨recordUri did e.1, e.2, ((m.lookup e.1).map fun v => Cbor.canon (encode v)).getD .undefined⟩

/-- The leaves of the collection are the records, and they are read. -/
theorem HeldBy.leaves (h : HeldBy encode storage did collection m) {pm : List (Key × Cid)}
    (hstored : HeadStored storage.blocks (storage.getHead did) pm) :
    Sorted pm ∧ keys (pm.filter fun e => inCollection collection e.1) = keys m ∧
      ∀ e ∈ pm, inCollection collection e.1 →
        readRecord storage.blocks did e.1 e.2 = .ok (some (listed encode did m e)) := by
  obtain ⟨root, mst, tree, empty, hopen⟩ := hstored
  have hsorted := hopen.held.sorted
  have hread : ∀ rkey, readValue (recordAt storage.blocks did pm collection rkey) =
      .ok ((m.lookup (recordKey collection rkey)).map fun v => Cbor.canon (encode v)) := by
    intro rkey
    rw [← hopen.getRecord]
    exact h.reads rkey
  have hleaf : ∀ e ∈ pm, inCollection collection e.1 →
      readRecord storage.blocks did e.1 e.2 = .ok (some (listed encode did m e)) ∧
        (m.lookup e.1).isSome := by
    intro e he hin
    obtain ⟨rkey, hkey⟩ := inCollection_iff.1 hin
    obtain ⟨bytes, hbytes⟩ := hopen.records e he
    have hr := hread rkey
    rw [recordAt, ← hkey, (mem_iff_lookup hsorted.nodup).1 he] at hr
    dsimp only at hr
    rw [readRecord, hbytes] at hr ⊢
    dsimp only at hr ⊢
    cases hdec : Cbor.decode bytes with
    | error err =>
      rw [hdec] at hr
      cases hr
    | ok value =>
      rw [hdec, ok_bind] at hr
      rw [ok_bind]
      have hvalue : some value = (m.lookup e.1).map fun v => Cbor.canon (encode v) :=
        Except.ok.inj hr
      rw [listed, ← hvalue]
      refine ⟨rfl, ?_⟩
      cases hm : m.lookup e.1 with
      | none =>
        rw [hm] at hvalue
        cases hvalue
      | some v => rfl
  refine ⟨hsorted, ?_, fun e he hin => (hleaf e he hin).1⟩
  refine List.Pairwise.eq_of_mem_iff (hsorted.filter _) h.sorted fun key => ?_
  rw [mem_keys]
  constructor
  · rintro ⟨cid, hmem⟩
    obtain ⟨hmem, hin⟩ := List.mem_filter.1 hmem
    exact lookup_isSome_iff.1 (hleaf _ hmem hin).2
  · intro hkey
    obtain ⟨v, hv⟩ := mem_keys.1 hkey
    have hin := h.mem _ hv
    obtain ⟨rkey, hrkey⟩ := inCollection_iff.1 hin
    dsimp only at hrkey
    have hr := hread rkey
    rw [← hrkey, (mem_iff_lookup h.sorted.nodup).1 hv, recordAt, ← hrkey] at hr
    cases hl : pm.lookup key with
    | none =>
      rw [hl] at hr
      cases hr
    | some cid => exact ⟨cid, List.mem_filter.2 ⟨mem_of_lookup hl, hin⟩⟩

/-- A page is listed, each record under its URI. -/
theorem HeldBy.listRecords (h : HeldBy encode storage did collection m)
    {pm : List (Key × Cid)} (hstored : HeadStored storage.blocks (storage.getHead did) pm)
    (limit : ℤ) (cursor : Option Key) :
    (listRecords storage did collection (some limit) cursor).map
        (fun page => (page.1.map fun record => (record.uri, record.value), page.2)) =
      .ok ((m.page limit cursor).1.map fun e => (recordUri did e.1, Cbor.canon (encode e.2)),
        (m.page limit cursor).2) := by
  obtain ⟨hsorted, hkeys, hleaves⟩ := h.leaves hstored
  rw [ComputeContract.listRecords]
  cases hhead : storage.getHead did with
  | none =>
    -- Nothing is read where there is no head.
    have hm : m = [] := by
      cases m with
      | nil => rfl
      | cons e m =>
        obtain ⟨rkey, hrkey⟩ := inCollection_iff.1 (h.mem e List.mem_cons_self)
        have hr := h.reads rkey
        rw [getRecord, hhead, ← hrkey, lookup_cons, if_pos rfl] at hr
        cases hr
    subst hm
    simp [page, Except.map]
  | some head =>
    rw [hhead] at hstored
    obtain ⟨root, mst, tree, empty, hopen⟩ := hstored
    have hloop := @listLoop_eq _ _ _ limit (cursor.getD ⟨""⟩) _ _ hleaves []
    dsimp only at hloop ⊢
    rw [hopen.headMst, ok_bind]
    dsimp only
    rw [hopen.held.entries, Option.getD_some, hloop]
    rw [List.length_nil, show limit - ((0 : ℕ) : ℤ) = limit by omega, List.nil_append]
    -- Both sides are functions of the keys.
    let q : Key → Bool := fun key =>
      decide (¬ ((cursor.getD ⟨""⟩).str ≠ "" ∧ key < cursor.getD ⟨""⟩))
    let g : Key → String × Value := fun key =>
      (recordUri did key, ((m.lookup key).map fun v => Cbor.canon (encode v)).getD .undefined)
    have hpm : pm.filter (fun e => inCollection collection e.1 && q e.1) =
        (pm.filter fun e => inCollection collection e.1).filter fun e => q e.1 := by
      rw [List.filter_filter]
      exact List.filter_congr fun e _ => Bool.and_comm _ _
    have hrest : keys (pm.filter fun e => inCollection collection e.1 && q e.1) =
        keys (m.filter fun e => q e.1) := by
      rw [hpm, keys_filter, hkeys, keys_filter]
    have hvalues : ((m.filter fun e => q e.1).take limit.toNat).map
        (fun e => (recordUri did e.1, Cbor.canon (encode e.2))) =
        ((keys (m.filter fun e => q e.1)).take limit.toNat).map g := by
      rw [keys, ← List.map_take, List.map_map]
      refine List.map_congr_left fun e he => ?_
      have hmem := (List.mem_filter.1 (List.mem_of_mem_take he)).1
      simp [g, (mem_iff_lookup h.sorted.nodup).1 hmem]
    have hlisted : (((pm.filter fun e => inCollection collection e.1 && q e.1).take
        limit.toNat).map (listed encode did m)).map (fun record => (record.uri, record.value)) =
        ((keys (m.filter fun e => q e.1)).take limit.toNat).map g := by
      rw [← hrest, keys, ← List.map_take, List.map_map, List.map_map]
      rfl
    have hnext : ((pm.filter fun e => inCollection collection e.1 && q e.1).drop
        limit.toNat).head?.map Prod.fst =
        ((m.filter fun e => q e.1).drop limit.toNat).head?.map Prod.fst := by
      rw [← List.head?_map, ← List.head?_map, List.map_drop, List.map_drop]
      exact congrArg (fun ks => (List.drop limit.toNat ks).head?) hrest
    exact congrArg Except.ok (Prod.ext (hlisted.trans hvalues.symm) hnext)

/-! ## Writing -/

/-- A write on the records of the collection: it puts a record or drops it. -/
def applyTo (collection : String) (m : Records V) : String × Option V → Records V
  | (rkey, some v) => insertKey (recordKey collection rkey) v m
  | (rkey, none) => erase (recordKey collection rkey) m

/-- It is the write of the repository. -/
structure Writes (encode : V → Value) (collection : String) (write : WriteOp)
    (w : String × Option V) : Prop where
  collection_eq : write.collection = collection
  rkey_eq : write.rkey = w.1
  delete : w.2 = none → write.action = .delete
  put : ∀ v, w.2 = some v → write.action ≠ .delete ∧ write.record = encode v

theorem recordKey_inj_right {rkey rkey' : String} :
    recordKey collection rkey = recordKey collection rkey' ↔ rkey = rkey' := by
  constructor
  · intro h
    have h' := congrArg (fun key => key.str.toList) h
    rw [← String.toList_inj]
    simpa [recordKey] using h'
  · exact congrArg _

/-- The records of a batch that is taken are encoded. -/
theorem block_isSome {mst : Mst} {writes : List WriteOp} {ops : List CommitOp}
    (h : (applyAll mst writes).result = .ok ops) :
    ∀ write ∈ writes, write.action ≠ .delete → write.block.isSome := by
  induction writes generalizing mst ops with
  | nil => simp
  | cons write writes ih =>
    rw [applyAll] at h
    dsimp only at h
    cases hop : (applyWrite mst write).result with
    | error e =>
      rw [hop] at h
      cases h
    | ok op =>
      rw [hop] at h
      cases hrest : (applyAll (applyWrite mst write).mst writes).result with
      | error e =>
        rw [hrest] at h
        cases h
      | ok rest =>
        refine List.forall_mem_cons.2 ⟨fun haction => ?_, ih hrest⟩
        obtain ⟨action, collection, rkey, record⟩ := write
        cases henc : Cbor.encode record with
        | ok bytes =>
          cases action
          · simp [WriteOp.block, henc, Except.toOption]
          · simp [WriteOp.block, henc, Except.toOption]
          · exact absurd rfl haction
        | error e =>
          cases action
          · rw [applyWrite] at hop
            dsimp only at hop
            rw [henc] at hop
            split_ifs at hop
          · rw [applyWrite] at hop
            dsimp only at hop
            rw [henc] at hop
            split_ifs at hop
          · exact absurd rfl haction

/-- A write as the repository takes it, on the records that are looked up. -/
theorem Writes.lookup {write : WriteOp} {w : String × Option V}
    (h : Writes encode collection write w) (hblock : write.action ≠ .delete → write.block.isSome)
    {records : String → String → Except String (Option RepoRecord)}
    (hrecords : ∀ rkey, readValue (records collection rkey) =
      .ok ((m.lookup (recordKey collection rkey)).map fun v => Cbor.canon (encode v)))
    (rkey : String) : readValue (write.applyToRecords did records collection rkey) =
      .ok (((applyTo collection m w).lookup (recordKey collection rkey)).map
        fun v => Cbor.canon (encode v)) := by
  obtain ⟨wkey, value⟩ := w
  have hkey : write.rkey = wkey := h.rkey_eq
  rw [WriteOp.applyToRecords, h.collection_eq, hkey]
  by_cases hr : rkey = wkey
  · subst hr
    rw [if_pos ⟨rfl, rfl⟩]
    cases value with
    | none =>
      have hnone : write.stored did = none := by
        rw [WriteOp.stored, WriteOp.block, h.delete rfl]
        rfl
      rw [hnone, applyTo, lookup_erase, if_pos rfl]
      rfl
    | some v =>
      obtain ⟨haction, hrecord⟩ := h.put v rfl
      obtain ⟨block, hb⟩ := Option.isSome_iff_exists.1 (hblock haction)
      rw [WriteOp.stored, hb, applyTo, lookup_insertKey, if_pos rfl, hrecord]
      rfl
  · have hne : recordKey collection rkey ≠ recordKey collection wkey :=
      fun heq => hr (recordKey_inj_right.1 heq)
    rw [if_neg fun hand => hr hand.2, hrecords]
    cases value with
    | none => rw [applyTo, lookup_erase, if_neg hne]
    | some v => rw [applyTo, lookup_insertKey, if_neg hne]

theorem sorted_applyTo {w : String × Option V} (h : Sorted m) :
    Sorted (applyTo collection m w) := by
  obtain ⟨rkey, _ | v⟩ := w
  · exact h.filter _
  · exact sorted_insertKey h

theorem inCollection_applyTo {w : String × Option V}
    (h : ∀ e ∈ m, inCollection collection e.1) :
    ∀ e ∈ applyTo collection m w, inCollection collection e.1 := by
  obtain ⟨rkey, _ | v⟩ := w
  · exact fun e he => h e (mem_of_mem_erase he)
  · intro e he
    rcases mem_keys_insertKey.1 (mem_keys_of_mem he) with heq | hmem
    · exact inCollection_iff.2 ⟨rkey, heq⟩
    · obtain ⟨v', hv'⟩ := mem_keys.1 hmem
      exact (h (e.1, v') hv' :)

/-- A batch on the collection that succeeds is one on its records. -/
theorem HeldBy.write (h : HeldBy encode storage did collection m) {call : Call}
    (hatomic : Atomic storage call) {event : CommitEvent}
    (hresult : call.result storage = .ok event) (hdid : call.did = did)
    {ws : List (String × Option V)}
    (hwrites : List.Forall₂ (Writes encode collection) call.writes ws) :
    HeldBy encode (call.apply storage) did collection (ws.foldl (applyTo collection) m) := by
  subst hdid
  rw [Atomic, hresult] at hatomic
  have hblocks : ∀ write ∈ call.writes, write.action ≠ .delete → write.block.isSome := by
    rcases applyWrites_cases call.repo call.rev call.did call.writes storage with
      ⟨e, puts, hout⟩ | ⟨prevRoot, mst, ops, carBlocks, sig, commitBytes, _, _, hall, _⟩
    · exact absurd ((congrArg Prod.fst hout).symm.trans hresult) (by simp)
    · exact block_isSome hall
  have hread := hatomic.1.records collection
  have hfold : ∀ {writes : List WriteOp} {ws : List (String × Option V)},
      List.Forall₂ (Writes encode collection) writes ws →
      (∀ write ∈ writes, write.action ≠ .delete → write.block.isSome) →
      ∀ (m : Records V) (records : String → String → Except String (Option RepoRecord)),
        (∀ rkey, readValue (records collection rkey) =
          .ok ((m.lookup (recordKey collection rkey)).map fun v => Cbor.canon (encode v))) →
        ∀ rkey, readValue (writes.foldl (WriteOp.applyToRecords call.did) records collection rkey) =
          .ok (((ws.foldl (applyTo collection) m).lookup (recordKey collection rkey)).map
            fun v => Cbor.canon (encode v)) := by
    intro writes ws hws
    induction hws with
    | nil => exact fun _ m records hrecords => hrecords
    | cons hw hws ih =>
      intro hb m records hrecords
      rw [List.forall_mem_cons] at hb
      exact ih hb.2 _ _ (hw.lookup hb.1 hrecords)
  have hkept : Sorted (ws.foldl (applyTo collection) m) ∧
      ∀ e ∈ ws.foldl (applyTo collection) m, inCollection collection e.1 :=
    List.foldlRecOn (motive := fun m => Sorted m ∧ ∀ e ∈ m, inCollection collection e.1) ws _
      ⟨h.sorted, h.mem⟩ fun m hm w _ => ⟨sorted_applyTo hm.1, inCollection_applyTo hm.2⟩
  refine ⟨hkept.1, hkept.2, fun rkey => ?_⟩
  rw [hread]
  exact hfold hwrites hblocks m _ h.reads rkey

/-- A call that throws changes no record. -/
theorem HeldBy.throw (h : HeldBy encode storage did collection m) {call : Call}
    (hatomic : Atomic storage call) {e : RepoError} (hresult : call.result storage = .error e) :
    HeldBy encode (call.apply storage) did collection m := by
  rw [Atomic, hresult] at hatomic
  refine ⟨h.sorted, h.mem, fun rkey => ?_⟩
  rw [(hatomic did).records]
  exact h.reads rkey

/-- A batch on other collections changes no record. -/
theorem HeldBy.frame (h : HeldBy encode storage did collection m) {call : Call}
    (hatomic : Atomic storage call)
    (hwrites : ∀ write ∈ call.writes, write.collection ≠ collection) :
    HeldBy encode (call.apply storage) did collection m := by
  cases hresult : call.result storage with
  | error e => exact h.throw hatomic hresult
  | ok event =>
    rw [Atomic, hresult] at hatomic
    refine ⟨h.sorted, h.mem, fun rkey => ?_⟩
    by_cases hdid : did = call.did
    · subst hdid
      rw [hatomic.1.records]
      refine List.foldlRecOn (motive := fun records : String → String → Except String (Option RepoRecord) =>
        readValue (records collection rkey) =
          .ok ((m.lookup (recordKey collection rkey)).map fun v => Cbor.canon (encode v)))
        call.writes _ (h.reads rkey) fun records hrecords write hwrite => ?_
      rw [WriteOp.applyToRecords, if_neg fun hand => hwrites write hwrite hand.1.symm]
      exact hrecords
    · rw [(hatomic.2 did hdid).records]
      exact h.reads rkey

end Records

end ComputeContract
