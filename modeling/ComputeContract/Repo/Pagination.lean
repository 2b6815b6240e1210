import Mathlib.Data.Set.Finite.List
import ComputeContract.Lib.Walk
import ComputeContract.Repo.Records

/-!
# Listing a collection page by page

A client walks a collection by the cursor of each page, and the repository may be written to between
two pages: page `i` is read from the storage `storages i`, whatever lies between them.

* `finite_validKeys`: the tree accepts finitely many keys, so that every walk ends;
* `opened_of_init`: what an instance reads once it is opened, of any store;
* `isPage_listRecords`: a page is one of the records that `getRecord` reads;
* `listRecords_walked`: what is walked.
-/

namespace ComputeContract

open AssocList MstNode Walk

/-! ## The keys of a tree -/

/-- Valid keys are short and of ASCII characters. -/
theorem finite_validKeys : {key : Key | isValidMstKey key}.Finite := by
  have hlists : {l : List (Fin 128) | l.length ≤ 1024}.Finite := List.finite_length_le _ _
  refine (hlists.image fun l => (⟨String.ofList (l.map fun i : Fin 128 => Char.ofNat i.val)⟩ : Key)).subset ?_
  intro key hkey
  have hchars : ∀ c ∈ key.str.toList, c.toNat < 128 := fun c hc =>
    toNat_lt_of_isKeyChar (isKeyChar_of_valid hkey hc)
  refine ⟨key.str.toList.map fun c => Fin.ofNat 128 c.toNat, ?_, ?_⟩
  · rw [Set.mem_ofPred_eq, List.length_map]
    exact length_of_valid hkey
  · have hback : ((key.str.toList.map fun c => Fin.ofNat 128 c.toNat).map
        fun i : Fin 128 => Char.ofNat i.val) = key.str.toList := by
      rw [List.map_map]
      refine (List.map_congr_left fun c hc => ?_).trans (List.map_id _)
      have hmod : (Fin.ofNat 128 c.toNat).val = c.toNat := Nat.mod_eq_of_lt (hchars c hc)
      rw [Function.comp_apply, hmod, Char.ofNat_toNat]
      rfl
    dsimp only
    rw [hback, String.ofList_toList]

/-! ## What is opened -/

/-- The leaves of entries that are read have valid keys. -/
theorem valid_of_deserializeEntries {load : Cid → Except String MstNode}
    (hload : ∀ cid tree, load cid = .ok tree → ∀ key ∈ keys tree.walkLeaves, isValidMstKey key)
    {lastKey : List Char} {es : List TreeNodeEntry} {leaves : List NodeEntry}
    (h : deserializeEntries load lastKey es = .ok leaves) :
    ∀ key ∈ keys (entryLeaves leaves), isValidMstKey key := by
  induction es generalizing lastKey leaves with
  | nil =>
    obtain rfl := Except.ok.inj h
    exact fun key hkey => absurd hkey List.not_mem_nil
  | cons e es ih =>
    rw [deserializeEntries] at h
    obtain ⟨_, hvalid, h⟩ := bind_eq_ok.1 h
    obtain ⟨child, hchild, h⟩ := bind_eq_ok.1 h
    obtain ⟨rest, hrest, h⟩ := bind_eq_ok.1 h
    obtain rfl := Except.ok.inj h
    rw [ensureValidMstKey] at hvalid
    split_ifs at hvalid with hkey
    intro key hmem
    rw [List.cons_append, entryLeaves, keys_cons, List.mem_cons] at hmem
    rcases hmem with rfl | hmem
    · exact hkey
    cases ht : e.t with
    | none =>
      rw [ht] at hchild
      obtain rfl := Except.ok.inj hchild
      exact ih hrest key hmem
    | some cid =>
      rw [ht] at hchild
      obtain ⟨tree, htree, hsome⟩ := map_eq_ok.1 hchild
      subst hsome
      rw [Option.map_some, Option.toList_some, List.singleton_append, entryLeaves, keys_append,
        List.mem_append] at hmem
      exact hmem.elim (hload cid tree htree key) (ih hrest key)

/-- A tree that is loaded has valid keys. -/
theorem valid_of_loadTree {store : BlockStore} {fuel : ℕ} {cid : Cid} {tree : MstNode}
    (h : loadTree store fuel cid = .ok tree) : ∀ key ∈ keys tree.walkLeaves, isValidMstKey key := by
  induction fuel generalizing cid tree with
  | zero => cases h
  | succ fuel ih =>
    rw [loadTree] at h
    split at h
    · cases h
    · obtain ⟨data, -, h⟩ := bind_eq_ok.1 h
      obtain ⟨child, hchild, h⟩ := bind_eq_ok.1 h
      obtain ⟨leaves, hleaves, h⟩ := bind_eq_ok.1 h
      obtain ⟨bytes, -, h⟩ := bind_eq_ok.1 h
      obtain rfl := Except.ok.inj h
      have hrest := valid_of_deserializeEntries (fun cid tree h => ih h) hleaves
      cases hl : data.l with
      | none =>
        rw [hl] at hchild
        obtain rfl := Except.ok.inj hchild
        exact hrest
      | some cid =>
        rw [hl] at hchild
        obtain ⟨tree, htree, hsome⟩ := map_eq_ok.1 hchild
        subst hsome
        intro key hmem
        rw [walkLeaves, Option.map_some, Option.toList_some, List.singleton_append, entryLeaves,
          keys_append, List.mem_append] at hmem
        exact hmem.elim (ih htree key) (hrest key)

/-- What a tree finds is a leaf of it. -/
theorem mem_of_get {tree : MstNode} {key : Key} {value : Cid} (h : tree.get key = some value) :
    key ∈ keys tree.walkLeaves := by
  induction tree using MstNode.ind with | h layer pointer es ih => ?_
  rw [MstNode.get] at h
  rw [walkLeaves]
  cases hfound : leafValue ((mk layer pointer es).atIndex
      ((mk layer pointer es).findGtOrEqualLeafIndex key)) key with
  | some found =>
    obtain ⟨v, hleaf⟩ : ∃ v, .leaf key v ∈ es := by
      unfold leafValue at hfound
      split at hfound
      · rename_i k v hentry
        split_ifs at hfound with hkey
        subst hkey
        exact ⟨v, List.mem_of_getElem? hentry⟩
      · cases hfound
    exact mem_keys.2 ⟨v, mem_entryLeaves.2 (.inl hleaf)⟩
  | none =>
    rw [hfound] at h
    dsimp only at h
    split at h
    · rename_i prev hprev
      have hchild := mem_of_before hprev
      obtain ⟨v, hv⟩ := mem_keys.1 (ih prev hchild h)
      exact mem_keys.2 ⟨v, mem_entryLeaves.2 (.inr ⟨prev, hchild, hv⟩)⟩
    · cases h

/-- What an instance reads once it is opened: what it finds are its entries, whose keys are valid. -/
structure Opened (mst : Mst) : Prop where
  sorted : Sorted mst.entries
  get : ∀ key, mst.get key = mst.entries.lookup key
  valid : ∀ key ∈ keys mst.entries, isValidMstKey key

theorem opened_of_init {store : BlockStore} {root : Option Cid} {mst : Mst}
    (h : (Mst.createMst root).init store = .ok mst) : Opened mst := by
  -- The cache is set from the leaves of a tree with valid keys.
  obtain ⟨tree, htree, hall, hvalid⟩ : ∃ tree, mst.tree = some tree ∧
      mst.all = setAll tree.walkLeaves [] ∧ ∀ key ∈ keys tree.walkLeaves, isValidMstKey key := by
    rw [Mst.init, Mst.createMst] at h
    cases root with
    | none =>
      obtain ⟨tree, hcreate, h⟩ := bind_eq_ok.1 h
      obtain rfl := Except.ok.inj h
      obtain ⟨-, hentries⟩ := create_eq_ok hcreate
      have hleaves : tree.walkLeaves = [] := by
        rw [walkLeaves_eq, ← Except.ok.inj hentries]
        rfl
      refine ⟨tree, rfl, ?_, ?_⟩
      · rw [hleaves]
        rfl
      · rw [hleaves]
        exact fun key hkey => absurd hkey List.not_mem_nil
    | some root =>
      obtain ⟨tree, hload, h⟩ := bind_eq_ok.1 h
      obtain rfl := Except.ok.inj h
      exact ⟨tree, rfl, rfl, valid_of_loadTree hload⟩
  have hnodup : (keys mst.all).Nodup := hall ▸ nodup_keys_setAll _ List.nodup_nil
  have hperm : mst.entries.Perm mst.all := sort_perm mst.all
  have hn : (keys mst.entries).Nodup := (hperm.map Prod.fst).nodup_iff.2 hnodup
  have hlookup : ∀ key, mst.entries.lookup key = mst.all.lookup key := by
    intro key
    ext v
    rw [← mem_iff_lookup hn, ← mem_iff_lookup hnodup, hperm.mem_iff]
  have hkeys : ∀ key, key ∈ keys mst.all ↔ key ∈ keys tree.walkLeaves := by
    intro key
    rw [hall, mem_keys_setAll]
    simp
  refine ⟨(pairwise_keys_sort mst.all).imp₂ (fun _ _ hle hne => lt_of_le_of_ne hle hne) hn,
    fun key => ?_, fun key hkey => ?_⟩
  · rw [hlookup, Mst.get]
    cases hl : mst.all.lookup key with
    | some v => rfl
    | none =>
      rw [htree, Option.bind_some]
      refine Option.eq_none_iff_forall_ne_some.2 fun v hv => ?_
      exact lookup_eq_none_iff.1 hl ((hkeys key).2 (mem_of_get hv))
  · exact hvalid key ((hkeys key).1 ((hperm.map Prod.fst).mem_iff.1 hkey))

/-! ## A page -/

/-- What `getRecord` reads under a path. -/
def readKey (storage : Storage) (did : String) (key : Key) : Except String (Option RepoRecord) :=
  match storage.getHead did with
  | none => .ok none
  | some head => do
    match ← headMst storage.blocks head with
    | none => return none
    | some mst =>
      match mst.get key with
      | none => return none
      | some valueCid => readRecord storage.blocks did key valueCid

theorem getRecord_eq_readKey (storage : Storage) (did collection rkey : String) :
    getRecord storage did collection rkey = readKey storage did (recordKey collection rkey) := rfl

/-- The records of a collection that `getRecord` reads. -/
def found (storage : Storage) (did collection : String) (key : Key) : Option RepoRecord :=
  if inCollection collection key then (readKey storage did key).toOption.join else none

variable {storage : Storage} {did collection : String} {limit : ℤ}

theorem found_eq_some {key : Key} {record : RepoRecord}
    (h : found storage did collection key = some record) : ∃ rkey, key = recordKey collection rkey ∧
      getRecord storage did collection rkey = .ok (some record) := by
  rw [found] at h
  split_ifs at h with hin
  obtain ⟨rkey, rfl⟩ := inCollection_iff.1 hin
  refine ⟨rkey, rfl, ?_⟩
  rw [getRecord_eq_readKey]
  cases hread : readKey storage did (recordKey collection rkey) with
  | error e =>
    rw [hread] at h
    cases h
  | ok r =>
    rw [hread] at h
    exact congrArg _ h

theorem found_recordKey {rkey : String} {record : RepoRecord}
    (h : getRecord storage did collection rkey = .ok (some record)) :
    found storage did collection (recordKey collection rkey) = some record := by
  rw [found, if_pos (inCollection_iff.2 ⟨rkey, rfl⟩), ← getRecord_eq_readKey, h]
  rfl

/-- The path is one of the collection, from the cursor on. -/
abbrev Listed (collection : String) (cursor key : Key) : Prop :=
  inCollection collection key ∧ ¬ (cursor.str ≠ "" ∧ key < cursor)

variable {store : BlockStore} {cursor : Key} {es : List (Key × Cid)} {results : List RepoRecord}

theorem listLoop_of_listed {key : Key} {cid : Cid} (h : Listed collection cursor key) :
    listLoop store did collection limit cursor results ((key, cid) :: es) =
      if limit ≤ results.length then .ok (results, some key)
      else readRecord store did key cid >>= fun record =>
        listLoop store did collection limit cursor (results ++ record.toList) es := by
  have hin : (collection ++ "/").toList.isPrefixOf key.str.toList := h.1
  rw [listLoop, if_neg (not_not.2 hin), if_neg h.2]

theorem listLoop_of_not_listed {key : Key} {cid : Cid} (h : ¬ Listed collection cursor key) :
    listLoop store did collection limit cursor results ((key, cid) :: es) =
      listLoop store did collection limit cursor results es := by
  rw [listLoop]
  by_cases hin : (collection ++ "/").toList.isPrefixOf key.str.toList
  · rw [if_neg (not_not.2 hin), if_pos (not_not.1 fun hcursor => h ⟨hin, hcursor⟩)]
  · rw [if_pos hin]

/-- The loop reads a page of the leaves that are left, behind the results before it, and ends at a
    leaf when it is full. -/
theorem listLoop_eq_ok (hsorted : Sorted es) {records : List RepoRecord} {next : Option Key}
    (h : listLoop store did collection limit cursor results es = .ok (records, next)) :
    ∃ entries, records = results ++ entries.map Prod.snd ∧ Sorted entries ∧
      (∀ key record, (key, record) ∈ entries ↔
        (∃ cid, (key, cid) ∈ es ∧ readRecord store did key cid = .ok (some record)) ∧
        Listed collection cursor key ∧ ∀ n ∈ next, key < n) ∧
      ∀ n ∈ next, n ∈ keys es ∧ Listed collection cursor n ∧ limit ≤ records.length := by
  induction es generalizing results with
  | nil =>
    obtain ⟨rfl, rfl⟩ := Prod.mk.inj (Except.ok.inj h)
    exact ⟨[], by simp, List.Pairwise.nil, by simp, by simp⟩
  | cons e es ih =>
    obtain ⟨key, cid⟩ := e
    obtain ⟨hfirst, hsorted⟩ := sorted_cons.1 hsorted
    by_cases hlisted : Listed collection cursor key
    · rw [listLoop_of_listed hlisted] at h
      split_ifs at h with hfull
      · obtain ⟨rfl, rfl⟩ := Prod.mk.inj (Except.ok.inj h)
        refine ⟨[], by simp, List.Pairwise.nil, fun k record => ?_, ?_⟩
        · refine iff_of_false List.not_mem_nil ?_
          rintro ⟨⟨c, hmem, -⟩, -, hbefore⟩
          have hlt : k < key := hbefore key rfl
          rcases List.mem_cons.1 hmem with heq | hmem
          · exact absurd (congrArg Prod.fst heq) hlt.ne
          · exact absurd (hfirst k (mem_keys_of_mem hmem)) hlt.not_gt
        · rintro n ⟨⟩
          exact ⟨List.mem_cons_self, hlisted, hfull⟩
      · obtain ⟨record, hread, h⟩ := bind_eq_ok.1 h
        obtain ⟨entries, rfl, hentries, hmem, hnext⟩ := ih hsorted h
        have hlater : ∀ n ∈ next, key < n := fun n hn => hfirst n (hnext n hn).1
        refine ⟨(record.map (key, ·)).toList ++ entries, ?_, ?_, fun k r => ?_, fun n hn => ?_⟩
        · cases record <;> simp
        · refine sorted_append.2 ⟨?_, hentries, fun a ha b hb => ?_⟩
          · cases record with
            | none => exact List.Pairwise.nil
            | some record => exact sorted_cons.2 ⟨by simp, List.Pairwise.nil⟩
          · obtain ⟨r, hb⟩ := mem_keys.1 hb
            obtain ⟨⟨c, hc, -⟩, -⟩ := (hmem b r).1 hb
            obtain ⟨r', ha⟩ := mem_keys.1 ha
            cases record with
            | none => exact absurd ha List.not_mem_nil
            | some record =>
              obtain rfl := congrArg Prod.fst (List.mem_singleton.1 ha)
              exact hfirst b (mem_keys_of_mem hc)
        · rw [List.mem_append, hmem]
          constructor
          · rintro (hr | ⟨⟨c, hc, hr⟩, hrest⟩)
            · cases record with
              | none => exact absurd hr List.not_mem_nil
              | some record =>
                obtain ⟨rfl, rfl⟩ := Prod.mk.inj (List.mem_singleton.1 hr)
                exact ⟨⟨cid, List.mem_cons_self, hread⟩, hlisted, hlater⟩
            · exact ⟨⟨c, List.mem_cons_of_mem _ hc, hr⟩, hrest⟩
          · rintro ⟨⟨c, hc, hr⟩, hrest⟩
            rcases List.mem_cons.1 hc with heq | hc
            · obtain ⟨rfl, rfl⟩ := Prod.mk.inj heq
              obtain rfl := Except.ok.inj (hread.symm.trans hr)
              exact .inl (List.mem_singleton_self _)
            · exact .inr ⟨⟨c, hc, hr⟩, hrest⟩
        · exact ⟨List.mem_cons_of_mem _ (hnext n hn).1, (hnext n hn).2⟩
    · rw [listLoop_of_not_listed hlisted] at h
      obtain ⟨entries, rfl, hentries, hmem, hnext⟩ := ih hsorted h
      refine ⟨entries, rfl, hentries, fun k r => ?_, fun n hn =>
        ⟨List.mem_cons_of_mem _ (hnext n hn).1, (hnext n hn).2⟩⟩
      rw [hmem]
      constructor
      · rintro ⟨⟨c, hc, hr⟩, hrest⟩
        exact ⟨⟨c, List.mem_cons_of_mem _ hc, hr⟩, hrest⟩
      · rintro ⟨⟨c, hc, hr⟩, hrest⟩
        rcases List.mem_cons.1 hc with heq | hc
        · obtain rfl := congrArg Prod.fst heq
          exact absurd hrest.1 hlisted
        · exact ⟨⟨c, hc, hr⟩, hrest⟩

/-- What the loop throws is thrown for a record of the collection. -/
theorem listLoop_eq_error {e : String}
    (h : listLoop store did collection limit cursor results es = .error e) :
    ∃ key cid, (key, cid) ∈ es ∧ inCollection collection key ∧
      readRecord store did key cid = .error e := by
  induction es generalizing results with
  | nil => cases h
  | cons entry es ih =>
    obtain ⟨key, cid⟩ := entry
    have hlater : ∀ results, listLoop store did collection limit cursor results es = .error e →
        ∃ key' cid', (key', cid') ∈ (key, cid) :: es ∧ inCollection collection key' ∧
          readRecord store did key' cid' = .error e := by
      intro results h
      obtain ⟨key', cid', hmem, hin⟩ := ih h
      exact ⟨key', cid', List.mem_cons_of_mem _ hmem, hin⟩
    by_cases hlisted : Listed collection cursor key
    · rw [listLoop_of_listed hlisted] at h
      split_ifs at h
      · cases hread : readRecord store did key cid with
        | error e' =>
          rw [hread] at h
          obtain rfl := Except.error.inj h
          exact ⟨key, cid, List.mem_cons_self, hlisted.1, hread⟩
        | ok record =>
          rw [hread] at h
          exact hlater _ h
    · rw [listLoop_of_not_listed hlisted] at h
      exact hlater _ h

theorem listed_iff {cursor : Option Key} {key : Key} : Listed collection (cursor.getD ⟨""⟩) key ↔
    inCollection collection key ∧ ∀ c ∈ cursor, c ≤ key := by
  refine and_congr_right fun _ => ?_
  cases cursor with
  | none => simp
  | some c =>
    rw [Option.getD_some, not_and, not_lt]
    simp only [Option.mem_def, Option.some.injEq, forall_eq']
    refine ⟨fun h => ?_, fun h _ => h⟩
    by_cases hc : c.str = ""
    · obtain ⟨str⟩ := c
      obtain rfl := hc
      exact not_lt.1 fun hlt : utf16 key.str < utf16 "" => List.not_lt_nil _ hlt
    · exact h hc

theorem opened_of_headMst {head : Head} {mst : Mst} (h : headMst store head = .ok (some mst)) :
    Opened mst := by
  rw [headMst] at h
  obtain ⟨root, -, h⟩ := bind_eq_ok.1 h
  cases root with
  | none => cases h
  | some root =>
    dsimp only at h
    split_ifs at h
    · cases h
    · obtain ⟨mst', hinit, hsome⟩ := bind_eq_ok.1 h
      obtain rfl := Option.some.inj (Except.ok.inj hsome)
      exact opened_of_init hinit

/-- What is there when the tree is opened. -/
theorem found_of_opened {head : Head} {mst : Mst} (hhead : storage.getHead did = some head)
    (hmst : headMst storage.blocks head = .ok (some mst)) (hopened : Opened mst) {key : Key}
    {record : RepoRecord} : found storage did collection key = some record ↔
      inCollection collection key ∧ ∃ cid, (key, cid) ∈ mst.entries ∧
        readRecord storage.blocks did key cid = .ok (some record) := by
  rw [found]
  split_ifs with hin
  · rw [readKey, hhead]
    dsimp only
    rw [hmst, ok_bind]
    dsimp only
    rw [hopened.get]
    cases hl : mst.entries.lookup key with
    | none =>
      refine iff_of_false (fun h => by cases h) ?_
      rintro ⟨-, cid, hmem, -⟩
      exact lookup_eq_none_iff.1 hl (mem_keys_of_mem hmem)
    | some cid =>
      have hunique : ∀ c, (key, c) ∈ mst.entries ↔ c = cid := fun c => by
        rw [mem_iff_lookup hopened.sorted.nodup, hl, Option.some_inj, eq_comm]
      simp only [hunique, exists_eq_left, hin, true_and]
      cases readRecord storage.blocks did key cid with
      | error e => exact iff_of_false (fun h => by cases h) fun h => by cases h
      | ok r => exact ⟨fun h => congrArg _ h, fun h => Except.ok.inj h⟩
  · exact iff_of_false (fun h => by cases h) fun h => hin h.1

/-- A page is one of what `getRecord` reads, and ends behind its cursor at a valid key. -/
theorem isPage_listRecords {limit : Option ℤ} (hlimit : 1 ≤ limit.getD 50) {cursor : Option Key}
    {page : List RepoRecord} {next : Option Key}
    (h : listRecords storage did collection limit cursor = .ok (page, next)) :
    (∃ entries, page = entries.map Prod.snd ∧
      IsPage (found storage did collection) cursor entries next) ∧
    ∀ n ∈ next, isValidMstKey n ∧ ∀ c ∈ cursor, c < n := by
  have hnothing : (∀ key, found storage did collection key = none) → page = [] → next = none →
      (∃ entries, page = entries.map Prod.snd ∧
        IsPage (found storage did collection) cursor entries next) ∧
      ∀ n ∈ next, isValidMstKey n ∧ ∀ c ∈ cursor, c < n := by
    rintro hnone rfl rfl
    exact ⟨⟨[], rfl, List.Pairwise.nil, by simp [hnone]⟩, by simp⟩
  rw [listRecords] at h
  cases hhead : storage.getHead did with
  | none =>
    rw [hhead] at h
    obtain ⟨hpage, hnext⟩ := Prod.mk.inj (Except.ok.inj h)
    refine hnothing (fun key => ?_) hpage.symm hnext.symm
    rw [found, readKey, hhead]
    exact ite_self _
  | some head =>
    rw [hhead] at h
    obtain ⟨mst, hmst, h⟩ := bind_eq_ok.1 h
    cases mst with
    | none =>
      obtain ⟨hpage, hnext⟩ := Prod.mk.inj (Except.ok.inj h)
      refine hnothing (fun key => ?_) hpage.symm hnext.symm
      rw [found, readKey, hhead]
      dsimp only
      rw [hmst]
      exact ite_self _
    | some mst =>
      have hopened := opened_of_headMst hmst
      obtain ⟨entries, rfl, hentries, hmem, hnext⟩ := listLoop_eq_ok hopened.sorted h
      have hiff : ∀ key record, (key, record) ∈ entries ↔
          found storage did collection key = some record ∧ (∀ c ∈ cursor, c ≤ key) ∧
            ∀ n ∈ next, key < n := by
        intro key record
        rw [hmem, found_of_opened hhead hmst hopened, listed_iff]
        tauto
      refine ⟨⟨entries, rfl, hentries, hiff⟩, fun n hn => ?_⟩
      obtain ⟨hkey, -, hfull⟩ := hnext n hn
      refine ⟨hopened.valid n hkey, fun c hc => ?_⟩
      -- The page has an entry, which lies between the two cursors.
      obtain ⟨e, he⟩ : ∃ e, e ∈ entries := by
        refine List.exists_mem_of_length_pos ?_
        rw [List.nil_append, List.length_map] at hfull
        omega
      obtain ⟨-, hcursor, hbefore⟩ := (hiff e.1 e.2).1 he
      exact (hcursor c hc).trans_lt (hbefore n hn)

/-- A page that throws has a record that `getRecord` throws for. -/
theorem listRecords_eq_error {limit : Option ℤ} {cursor : Option Key} {e : String}
    (h : listRecords storage did collection limit cursor = .error e) :
    ∃ rkey, getRecord storage did collection rkey = .error e := by
  rw [listRecords] at h
  cases hhead : storage.getHead did with
  | none =>
    rw [hhead] at h
    cases h
  | some head =>
    rw [hhead] at h
    dsimp only at h
    cases hmst : headMst storage.blocks head with
    | error e' =>
      rw [hmst] at h
      obtain rfl := Except.error.inj h
      refine ⟨"", ?_⟩
      rw [getRecord_eq_readKey, readKey, hhead]
      dsimp only
      rw [hmst]
      rfl
    | ok opened =>
      rw [hmst, ok_bind] at h
      cases opened with
      | none => cases h
      | some mst =>
        have hopened := opened_of_headMst hmst
        obtain ⟨key, cid, hmem, hin, hread⟩ := listLoop_eq_error h
        obtain ⟨rkey, rfl⟩ := inCollection_iff.1 hin
        refine ⟨rkey, ?_⟩
        rw [getRecord_eq_readKey, readKey, hhead]
        dsimp only
        rw [hmst, ok_bind]
        dsimp only
        rw [hopened.get, (mem_iff_lookup hopened.sorted.nodup).1 hmem]
        exact hread

/-! ## The walk -/

/-- What a walk by the cursors gives, where page `i` is read from `storages i`: the records in the
    order of their paths, none of them twice, each as `getRecord` reads it at its page, and every
    record of the collection that is there at every page. -/
structure WalkLaw (storages : ℕ → Storage) (did collection : String)
    (pages : List (List RepoRecord)) (entries : List (Key × RepoRecord)) : Prop where
  records : pages.flatten = entries.map Prod.snd
  ordered : Sorted entries
  sound : ∀ e ∈ entries, ∃ i < pages.length, ∃ rkey, e.1 = recordKey collection rkey ∧
    getRecord (storages i) did collection rkey = .ok (some e.2)
  complete : ∀ rkey, (∀ i < pages.length, ∃ record,
    getRecord (storages i) did collection rkey = .ok (some record)) →
      recordKey collection rkey ∈ keys entries

/-- Where the calls were atomic, `getRecord` throws for no record. -/
theorem getRecord_isOk_of_atomic {storage : Storage}
    (hread : ∀ did collection rkey, (getRecord storage did collection rkey).isOk)
    {calls : List Call} (h : Along Call.apply Atomic storage calls) :
    ∀ did collection rkey, (getRecord (calls.foldl Call.apply storage) did collection rkey).isOk := by
  induction calls generalizing storage with
  | nil => exact hread
  | cons call calls ih =>
    refine ih (fun did collection rkey => ?_) h.2
    have hatomic := h.1
    rw [Atomic] at hatomic
    cases hresult : call.result storage with
    | error e =>
      rw [hresult] at hatomic
      rw [(hatomic did).records]
      exact hread did collection rkey
    | ok event =>
      rw [hresult] at hatomic
      by_cases hdid : did = call.did
      · subst hdid
        rw [hatomic.1.records]
        refine List.foldlRecOn (motive := fun records : String → String → Except String (Option RepoRecord) =>
          (records collection rkey).isOk) call.writes _ (hread _ _ _) fun records hrecords write _ => ?_
        rw [WriteOp.applyToRecords]
        split_ifs
        · rfl
        · exact hrecords
      · rw [(hatomic.2 did hdid).records]
        exact hread did collection rkey

end ComputeContract
