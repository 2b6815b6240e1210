import Mathlib.Data.List.Chain
import ComputeContract.Cbor.RoundTrip
import ComputeContract.Mst.Mst

/-!
# The block of a node

The entries of a node become a `TreeNodeData` and then a block, and come back from
it: the keys by their prefixes, the subtrees by their CIDs.

* `serializeNodeData_ok`: leaves with valid keys and known subtrees, no two subtrees
  next to each other, are serialized;
* `decodeNodeData_encodeNodeData`: a block gives its data back, up to `2 ^ 31`
  leaves;
* `deserializeEntries_of_serializeLeaves`: the data gives the entries back, with
  each subtree loaded from its CID.
-/

namespace ComputeContract

open Cbor

/-! ## Keys -/

theorem toNat_lt_of_isKeyChar {c : Char} (h : isKeyChar c) : c.toNat < 128 := by
  -- A character between two others is not above the upper one.
  have hle : ∀ {lo hi : Char}, hi.toNat < 128 → (decide (lo.val ≤ c.val) && decide (c.val ≤ hi.val)) →
      c.toNat < 128 := fun hhi hc =>
    Nat.lt_of_le_of_lt (UInt32.le_iff_toNat_le.1 (of_decide_eq_true (Bool.and_eq_true_iff.1 hc).2)) hhi
  simp only [isKeyChar, Bool.or_eq_true, decide_eq_true_eq] at h
  rcases h with (h | h) | h
  · rcases Bool.or_eq_true_iff.1 h with h | h
    · exact Nat.lt_of_le_of_lt (UInt32.le_iff_toNat_le.1 (of_decide_eq_true h).2) (by decide)
    · exact @hle 'a' 'z' (by decide) h
  · exact @hle '0' '9' (by decide) h
  · simp only [List.mem_cons, List.not_mem_nil, or_false] at h
    rcases h with rfl | rfl | rfl | rfl | rfl | rfl <;> decide

theorem isKeyChar_of_valid {key : Key} (h : isValidMstKey key) {c : Char}
    (hc : c ∈ key.str.toList) : isKeyChar c := by
  simp only [isValidMstKey, decide_eq_true_eq] at h
  exact List.all_eq_true.1 h.2.2.2.2 c hc

/-- ASCII characters come back from their bytes. -/
theorem toAscii_fromAscii {str : List Char} (h : ∀ c ∈ str, isKeyChar c) :
    (toAscii (fromAscii str)).toList = str := by
  rw [toAscii, fromAscii, String.toList_ofList, List.map_map]
  refine (List.map_congr_left fun c hc => ?_).trans (List.map_id str)
  have hlt := toNat_lt_of_isKeyChar (h c hc)
  have hb : c.toNat.toUInt8.toNat = c.toNat := Nat.mod_eq_of_lt (by omega)
  change Char.ofNat c.toNat.toUInt8.toNat = c
  rw [hb, Char.ofNat_toNat]

theorem countPrefixLen_le (a b : List Char) : countPrefixLen a b ≤ b.length := by
  fun_induction countPrefixLen a b with
  | case1 => simp
  | case2 a as b bs _ ih => simpa using ih
  | case3 => simp

/-- The prefix is shared. -/
theorem take_countPrefixLen (a b : List Char) :
    a.take (countPrefixLen a b) = b.take (countPrefixLen a b) := by
  fun_induction countPrefixLen a b with
  | case1 => simp
  | case2 a as b bs hab ih => simpa [not_not.1 hab] using ih
  | case3 => simp

/-- A key comes back from the prefix it shares with the key before it. -/
theorem sliceTo_append {key : Key} (h : isValidMstKey key) (lastKey : List Char) :
    sliceTo lastKey (countPrefixLen lastKey key.str.toList) ++
      (toAscii (fromAscii (key.str.toList.drop (countPrefixLen lastKey key.str.toList)))).toList =
    key.str.toList := by
  rw [toAscii_fromAscii fun c hc => isKeyChar_of_valid h (List.mem_of_mem_drop hc), sliceTo,
    if_pos (Int.natCast_nonneg _), Int.toNat_natCast, take_countPrefixLen, List.take_append_drop]

theorem length_le_length_utf16 (cs : List Char) : cs.length ≤ (cs.flatMap utf16Char).length := by
  induction cs with
  | nil => simp
  | cons c cs ih =>
    have hc := List.length_pos_iff.2 (utf16Char_ne_nil c)
    rw [List.flatMap_cons, List.length_cons, List.length_append]
    omega

theorem length_of_valid {key : Key} (h : isValidMstKey key) : key.str.toList.length ≤ 1024 := by
  simp only [isValidMstKey, decide_eq_true_eq] at h
  exact (length_le_length_utf16 _).trans h.2.1

/-- Two parts of key characters make a key. -/
theorem isValidMstKey_of_parts {collection rkey : List Char} (hc : collection ≠ []) (hr : rkey ≠ [])
    (hchars : ∀ c ∈ collection ++ rkey, isKeyChar c ∧ c ≠ '/')
    (hlength : collection.length + rkey.length < 1024) :
    isValidMstKey ⟨String.ofList (collection ++ '/' :: rkey)⟩ := by
  have hkey : ∀ c ∈ collection ++ '/' :: rkey, isKeyChar c := by
    intro c hmem
    rw [List.mem_append, List.mem_cons] at hmem
    rcases hmem with hmem | rfl | hmem
    · exact (hchars c (List.mem_append_left _ hmem)).1
    · decide
    · exact (hchars c (List.mem_append_right _ hmem)).1
  have hunits : ∀ cs : List Char, (∀ c ∈ cs, isKeyChar c) →
      (cs.flatMap utf16Char).length = cs.length := by
    intro cs hcs
    rw [List.length_flatMap, List.map_congr_left (g := fun _ => 1) fun c hc => ?_]
    · simp
    · have hlt := toNat_lt_of_isKeyChar (hcs c hc)
      rw [utf16Char, if_pos (by omega)]
      rfl
  have hsplit : (collection ++ '/' :: rkey).splitOn '/' = [collection, rkey] := by
    have hjoin : (['/'].intercalate [collection, rkey]).splitOn '/' = [collection, rkey] := by
      refine List.splitOn_intercalate '/' (fun l hl hmem => ?_) (List.cons_ne_nil _ _)
      simp only [List.mem_cons, List.not_mem_nil, or_false] at hl
      rcases hl with rfl | rfl
      · exact (hchars '/' (List.mem_append_left _ hmem)).2 rfl
      · exact (hchars '/' (List.mem_append_right _ hmem)).2 rfl
    simpa using hjoin
  have hlist : (collection ++ '/' :: rkey).length = collection.length + rkey.length + 1 := by
    rw [List.length_append, List.length_cons]
    omega
  refine decide_eq_true ⟨?_, ?_, ?_, ?_, ?_⟩
  · rw [← String.length_toList, String.toList_ofList]
    omega
  · rw [utf16, String.toList_ofList, hunits _ hkey]
    omega
  · rw [String.toList_ofList, hsplit]
    rfl
  · rw [String.toList_ofList, hsplit]
    simp [hc, hr]
  · rw [String.toList_ofList]
    exact List.all_eq_true.2 hkey

/-! ## Data and bytes -/

/-- An entry whose encoding comes back. -/
def TreeNodeEntry.Small (entry : TreeNodeEntry) : Prop :=
  0 ≤ entry.p ∧ entry.p < 2 ^ 31 ∧ entry.k.length < 2 ^ 31 ∧ isValidCid entry.v ∧
    ∀ cid, entry.t = some cid → isValidCid cid

/-- Data whose encoding comes back. -/
def TreeNodeData.Small (data : TreeNodeData) : Prop :=
  (∀ cid, data.l = some cid → isValidCid cid) ∧ data.e.length < 2 ^ 31 ∧
    ∀ entry ∈ data.e, entry.Small

theorem plain_link {cid : Cid} (h : isValidCid cid) : plain (.link cid) := by
  have hlen := length_of_isValidCid h
  simp only [plain, decide_eq_true_eq]
  omega

theorem plain_linkValue {cid : Option Cid} (h : ∀ c, cid = some c → isValidCid c) :
    plain (linkValue cid) := by
  cases cid with
  | none => rfl
  | some c => exact plain_link (h c rfl)

theorem plain_entryValue {entry : TreeNodeEntry} (h : entry.Small) : plain (entryValue entry) := by
  obtain ⟨hp, hp', hk, hv, ht⟩ := h
  have h₁ : plain (.int entry.p) := plain_int_of_lt hp hp'
  have h₂ : plain (.bytes entry.k) := by simpa [plain] using hk
  refine plain_object.2 ⟨by simp, by simp, by simp [linkField, List.lookup_cons], ?_⟩
  exact plainFields_cons (by decide +kernel) h₁ (plainFields_cons (by decide +kernel) h₂
    (plainFields_cons (by decide +kernel) (plain_link hv)
      (plainFields_cons (by decide +kernel) (plain_linkValue ht) rfl)))

theorem plain_nodeValue {data : TreeNodeData} (h : data.Small) : plain (nodeValue data) := by
  obtain ⟨hl, hlen, he⟩ := h
  have h₁ : plain (.array (data.e.map entryValue)) := by
    refine plain_array.2 ⟨by simpa using hlen, fun x hx => ?_⟩
    obtain ⟨entry, hentry, rfl⟩ := List.mem_map.1 hx
    exact plain_entryValue (he entry hentry)
  refine plain_object.2 ⟨by simp, by simp, by simp [linkField, List.lookup_cons], ?_⟩
  exact plainFields_cons (by decide +kernel) (plain_linkValue hl)
    (plainFields_cons (by decide +kernel) h₁ rfl)

theorem canon_linkValue (cid : Option Cid) : canon (linkValue cid) = linkValue cid := by
  cases cid <;> rfl

@[simp] theorem readLink_linkValue (cid : Option Cid) : readLink (some (linkValue cid)) = .ok cid := by
  cases cid <;> rfl

theorem decodeEntry_entryValue (entry : TreeNodeEntry) :
    decodeEntry (canon (entryValue entry)) = .ok entry := by
  have hn : (AssocList.keys [("p", Value.int entry.p), ("k", .bytes entry.k), ("v", .link entry.v),
    ("t", linkValue entry.t)]).Nodup := by simp
  simp only [entryValue, canon, canonFields, canon_linkValue, decodeEntry, Value.get?,
    lookup_sortKeys hn]
  simp [List.lookup_cons, bind, Except.bind, pure, Except.pure]

theorem mapM_decodeEntry (es : List TreeNodeEntry) :
    (canonItems (es.map entryValue)).mapM decodeEntry = .ok es := by
  induction es with
  | nil => rfl
  | cons e es ih =>
    rw [List.map_cons, canonItems, List.mapM_cons, decodeEntry_entryValue, ok_bind, ih]
    rfl

/-- A block gives its data back. -/
theorem decodeNodeData_encodeNodeData {data : TreeNodeData} (h : data.Small) {bytes : Bytes}
    (hb : encodeNodeData data = .ok bytes) : decodeNodeData bytes = .ok data := by
  obtain ⟨out, hout, hdec⟩ := decode_encode (plain_nodeValue h)
  obtain rfl : out = bytes := Except.ok.inj (hout.symm.trans hb)
  have hn : (AssocList.keys [("l", linkValue data.l),
    ("e", Value.array (canonItems (data.e.map entryValue)))]).Nodup := by simp
  rw [decodeNodeData, hdec, ok_bind]
  simp only [nodeValue, canon, canonFields, canon_linkValue, Value.isNull, Value.get?,
    lookup_sortKeys hn]
  simp [List.lookup_cons, mapM_decodeEntry, bind, Except.bind, pure, Except.pure]

/-! ## The bytes of a block -/

theorem encodeItems_ok {xs : List Value} (h : ∀ x ∈ xs, ∃ out, encodeValue x = .ok out) :
    ∃ out, encodeItems xs = .ok out := by
  induction xs with
  | nil => exact ⟨[], rfl⟩
  | cons x xs ih =>
    rw [List.forall_mem_cons] at h
    obtain ⟨out₁, h₁⟩ := h.1
    obtain ⟨out₂, h₂⟩ := ih h.2
    exact ⟨out₁ ++ out₂, by rw [encodeItems, h₁, h₂]; rfl⟩

/-- `null` or a link, in bytes. -/
def linkBytes : Option Cid → Bytes
  | none => writeHeader MAJOR_SIMPLE SIMPLE_NULL
  | some cid => encodeLink cid.bytes

theorem encodeValue_linkValue (cid : Option Cid) :
    encodeValue (linkValue cid) = .ok (linkBytes cid) := by
  cases cid <;> rfl

theorem sortKeys_entry {α : Type} (p k v t : α) :
    sortKeys [("p", p), ("k", k), ("v", v), ("t", t)] =
      [("k", k), ("p", p), ("t", t), ("v", v)] := by
  have h₁ : keyLe "p" "k" = false := by decide +kernel
  have h₂ : keyLe "v" "t" = false := by decide +kernel
  have h₃ : keyLe "k" "t" = true := by decide +kernel
  have h₄ : keyLe "p" "t" = true := by decide +kernel
  simp [sortKeys, List.insertionSort, List.orderedInsert, h₁, h₂, h₃, h₄]

theorem sortKeys_node {α : Type} (l e : α) :
    sortKeys [("l", l), ("e", e)] = [("e", e), ("l", l)] := by
  have h : keyLe "l" "e" = false := by decide +kernel
  simp [sortKeys, List.insertionSort, List.orderedInsert, h]

theorem encodeValue_entryValue {entry : TreeNodeEntry} (h₀ : 0 ≤ entry.p)
    (h : entry.p.natAbs ≤ MAX_SAFE_INTEGER) :
    ∃ out, encodeValue (entryValue entry) = .ok out := by
  have hint : encodeValue (.int entry.p) = .ok (writeHeader MAJOR_UINT entry.p.toNat) := by
    rw [encodeValue, if_pos h, if_pos h₀]
  have hlink : linkField [("p", .int entry.p), ("k", .bytes entry.k), ("v", .link entry.v),
    ("t", linkValue entry.t)] = none := by simp [linkField, List.lookup_cons]
  rw [entryValue, encodeValue]
  simp only [hlink, encodeFields, hint, encodeValue_linkValue, sortKeys_entry]
  exact ⟨_, rfl⟩

/-- Data with prefixes that are lengths is encoded. The block starts with the key `e`
    and the number of leaves. -/
theorem encodeNodeData_ok {data : TreeNodeData}
    (h : ∀ entry ∈ data.e, 0 ≤ entry.p ∧ entry.p.natAbs ≤ MAX_SAFE_INTEGER) :
    ∃ rest, encodeNodeData data = .ok (writeHeader MAJOR_MAP 2 ++ encodeText "e" ++
      writeHeader MAJOR_ARRAY data.e.length ++ rest) := by
  have hitems : ∀ x ∈ data.e.map entryValue, ∃ out, encodeValue x = .ok out := fun x hx => by
    obtain ⟨entry, hentry, rfl⟩ := List.mem_map.1 hx
    exact encodeValue_entryValue (h entry hentry).1 (h entry hentry).2
  obtain ⟨out, hout⟩ := encodeItems_ok hitems
  have harray : encodeValue (.array (data.e.map entryValue)) =
      .ok (writeHeader MAJOR_ARRAY data.e.length ++ out) := by
    rw [encodeValue, hout, List.length_map]
    rfl
  have hlink : linkField [("l", linkValue data.l), ("e", .array (data.e.map entryValue))] = none := by
    simp [linkField, List.lookup_cons]
  refine ⟨out ++ encodeText "l" ++ linkBytes data.l, ?_⟩
  rw [encodeNodeData, encode, nodeValue, encodeValue]
  simp only [hlink, encodeFields, harray, encodeValue_linkValue, sortKeys_node, joinFields, ok_bind]
  simp [bind, Except.bind, pure, Except.pure]

/-! ## Entries and data -/

/-- No two subtrees are next to each other. -/
def Alternating (es : List NodeEntry) : Prop :=
  es.IsChain fun a b => ¬ (a.isTree ∧ b.isTree)

theorem alternating_cons {e : NodeEntry} {es : List NodeEntry} : Alternating (e :: es) ↔
    (e.isTree → ∀ b ∈ es.head?, ¬ b.isTree) ∧ Alternating es := by
  rw [Alternating, List.isChain_cons, Alternating]
  refine and_congr_left fun _ => ⟨fun h he b hb hb' => h b hb ⟨he, hb'⟩,
    fun h b hb hab => h hab.1 b hb hab.2⟩

/-- The leaves of the node itself. -/
def ownLeaves (es : List NodeEntry) : List (Key × Cid) :=
  es.filterMap fun
    | .leaf key value => some (key, value)
    | .tree _ => none

/-- Replace the subtrees. -/
def NodeEntry.mapTree (f : MstNode → MstNode) : NodeEntry → NodeEntry
  | .leaf key value => .leaf key value
  | .tree node => .tree (f node)

theorem linkTo_eq_ok {node : MstNode} {cid : Cid} : linkTo node = .ok cid ↔
    node.pointer = some cid := by
  cases h : node.pointer <;> simp [linkTo, h]

theorem ensureValidMstKey_eq_ok {key : Key} : ensureValidMstKey key = .ok () ↔
    isValidMstKey key := by
  cases h : isValidMstKey key <;> simp [ensureValidMstKey, h]

/-- Entries that can be serialized and read back: no two subtrees next to each other,
    valid keys and values, known subtrees. -/
structure Linked (es : List NodeEntry) : Prop where
  alternating : Alternating es
  leaf : ∀ key value, .leaf key value ∈ es → isValidMstKey key ∧ isValidCid value
  tree : ∀ node, .tree node ∈ es → ∃ cid, node.pointer = some cid ∧ isValidCid cid

theorem Linked.tail {e : NodeEntry} {es : List NodeEntry} (h : Linked (e :: es)) : Linked es :=
  ⟨(alternating_cons.1 h.alternating).2, fun k v hm => h.leaf k v (List.mem_cons_of_mem _ hm),
    fun n hm => h.tree n (List.mem_cons_of_mem _ hm)⟩

theorem serializeLeaves_ok (lastKey : List Char) {es : List NodeEntry} (h : Linked es)
    (hhead : ∀ e ∈ es.head?, ¬ e.isTree) :
    ∃ data, serializeLeaves lastKey es = .ok data := by
  fun_induction serializeLeaves lastKey es with
  | case1 => exact ⟨[], rfl⟩
  | case2 lastKey key value next es ih =>
    have hkey := ensureValidMstKey_eq_ok.2 (h.leaf key value (by simp)).1
    obtain ⟨cid, hcid, _⟩ := h.tree next (by simp)
    obtain ⟨data, hdata⟩ := ih h.tail.tail ((alternating_cons.1 h.tail.alternating).1 rfl)
    exact ⟨_, by rw [hkey, linkTo_eq_ok.2 hcid, hdata]; rfl⟩
  | case3 lastKey key value es hes ih =>
    have hkey := ensureValidMstKey_eq_ok.2 (h.leaf key value (by simp)).1
    obtain ⟨data, hdata⟩ := ih h.tail fun e he => by
      cases e with
      | leaf => simp [NodeEntry.isTree]
      | tree node =>
        obtain ⟨es', rfl⟩ := List.head?_eq_some_iff.1 he
        exact absurd rfl (hes node es')
    exact ⟨_, by rw [hkey, hdata]; rfl⟩
  | case4 => simp [NodeEntry.isTree] at hhead

theorem length_serializeLeaves {lastKey : List Char} {es : List NodeEntry}
    {data : List TreeNodeEntry} (h : serializeLeaves lastKey es = .ok data) :
    data.length = (ownLeaves es).length := by
  fun_induction serializeLeaves lastKey es generalizing data with
  | case1 => cases h; rfl
  | case2 lastKey key value next es ih =>
    simp only [bind_eq_ok] at h
    obtain ⟨_, _, _, _, rest, hrest, h⟩ := h
    cases h
    simp [ownLeaves, ih hrest]
  | case3 lastKey key value es hes ih =>
    simp only [bind_eq_ok] at h
    obtain ⟨_, _, rest, hrest, h⟩ := h
    cases h
    simp [ownLeaves, ih hrest]
  | case4 => cases h

theorem small_entry (lastKey : List Char) {key : Key} {value : Cid} {t : Option Cid}
    (hkey : isValidMstKey key) (hvalue : isValidCid value)
    (ht : ∀ cid, t = some cid → isValidCid cid) :
    TreeNodeEntry.Small ⟨countPrefixLen lastKey key.str.toList,
      fromAscii (key.str.toList.drop (countPrefixLen lastKey key.str.toList)), value, t⟩ := by
  have hlen := length_of_valid hkey
  have hp := countPrefixLen_le lastKey key.str.toList
  refine ⟨Int.natCast_nonneg _, by dsimp only; omega, ?_, hvalue, ht⟩
  rw [fromAscii, List.length_map, List.length_drop]
  omega

/-- The serialized leaves can be read back. -/
theorem small_serializeLeaves {lastKey : List Char} {es : List NodeEntry}
    {data : List TreeNodeEntry} (h : serializeLeaves lastKey es = .ok data) (hes : Linked es) :
    ∀ entry ∈ data, entry.Small := by
  fun_induction serializeLeaves lastKey es generalizing data with
  | case1 => cases h; simp
  | case2 lastKey key value next es ih =>
    simp only [bind_eq_ok] at h
    obtain ⟨_, _, cid, hcid, rest, hrest, h⟩ := h
    cases h
    obtain ⟨hkey, hvalue⟩ := hes.leaf key value (by simp)
    obtain ⟨cid', hcid', hvalid⟩ := hes.tree next (by simp)
    obtain rfl : cid' = cid := Option.some.inj (hcid'.symm.trans (linkTo_eq_ok.1 hcid))
    exact List.forall_mem_cons.2 ⟨small_entry lastKey hkey hvalue (by rintro _ ⟨⟩; exact hvalid),
      ih hrest hes.tail.tail⟩
  | case3 lastKey key value es _ ih =>
    simp only [bind_eq_ok] at h
    obtain ⟨_, _, rest, hrest, h⟩ := h
    cases h
    obtain ⟨hkey, hvalue⟩ := hes.leaf key value (by simp)
    exact List.forall_mem_cons.2 ⟨small_entry lastKey hkey hvalue (by simp), ih hrest hes.tail⟩
  | case4 => cases h

/-- The leaves come back from their entries, with each subtree loaded from its CID. -/
theorem deserializeEntries_of_serializeLeaves {load : Cid → Except String MstNode}
    {f : MstNode → MstNode} {lastKey : List Char} {es : List NodeEntry}
    {data : List TreeNodeEntry} (h : serializeLeaves lastKey es = .ok data)
    (hload : ∀ node cid, .tree node ∈ es → node.pointer = some cid → load cid = .ok (f node)) :
    deserializeEntries load lastKey data = .ok (es.map (NodeEntry.mapTree f)) := by
  fun_induction serializeLeaves lastKey es generalizing data with
  | case1 => cases h; rfl
  | case2 lastKey key value next es ih =>
    simp only [bind_eq_ok] at h
    obtain ⟨_, hkey, cid, hcid, rest, hrest, h⟩ := h
    cases h
    have hk := ensureValidMstKey_eq_ok.1 hkey
    have hnext := hload next cid (by simp) (linkTo_eq_ok.1 hcid)
    have hes := ih hrest fun n c hn => hload n c (by simp [hn])
    have hmap : (some cid).mapM load = .ok (some (f next)) := by
      rw [Option.mapM_some, hnext]
      rfl
    simp only [deserializeEntries, sliceTo_append hk, String.ofList_toList, hmap, hes]
    rw [hkey]
    rfl
  | case3 lastKey key value es _ ih =>
    simp only [bind_eq_ok] at h
    obtain ⟨_, hkey, rest, hrest, h⟩ := h
    cases h
    have hk := ensureValidMstKey_eq_ok.1 hkey
    have hes := ih hrest fun n c hn => hload n c (by simp [hn])
    simp only [deserializeEntries, sliceTo_append hk, String.ofList_toList, hes, Option.mapM_none]
    rw [hkey]
    rfl
  | case4 => cases h

/-- The entries of a node are serialized; with fewer than `2 ^ 31` leaves the data can be
    read back. -/
theorem serializeNodeData_ok {es : List NodeEntry} (h : Linked es) :
    ∃ data, serializeNodeData es = .ok data ∧ data.e.length = (ownLeaves es).length ∧
      ((ownLeaves es).length < 2 ^ 31 → data.Small) ∧ ∀ entry ∈ data.e, entry.Small := by
  -- The data of the leaves after a left subtree, or without one.
  have hdata : ∀ (l : Option Cid) (es : List NodeEntry), Linked es → (∀ e ∈ es.head?, ¬ e.isTree) →
      (∀ cid, l = some cid → isValidCid cid) →
      ∃ e, serializeLeaves [] es = .ok e ∧ e.length = (ownLeaves es).length ∧
        ((ownLeaves es).length < 2 ^ 31 → TreeNodeData.Small ⟨l, e⟩) ∧ ∀ entry ∈ e, entry.Small := by
    intro l es h hhead hl
    obtain ⟨e, he⟩ := serializeLeaves_ok [] h hhead
    have hlen := length_serializeLeaves he
    have hsmall := small_serializeLeaves he h
    exact ⟨e, he, hlen, fun hlt => ⟨hl, hlen ▸ hlt, hsmall⟩, hsmall⟩
  rcases es with _ | ⟨_ | node, es⟩
  · obtain ⟨e, he, h⟩ := hdata none _ h (by simp) (by simp)
    exact ⟨⟨none, e⟩, by rw [serializeNodeData, he]; rfl; simp, h⟩
  · obtain ⟨e, he, h⟩ := hdata none _ h (by simp [NodeEntry.isTree]) (by simp)
    exact ⟨⟨none, e⟩, by rw [serializeNodeData, he]; rfl; simp, h⟩
  · obtain ⟨cid, hcid, hvalid⟩ := h.tree node List.mem_cons_self
    obtain ⟨e, he, h⟩ := hdata (some cid) es h.tail ((alternating_cons.1 h.alternating).1 rfl)
      (by rintro _ ⟨⟩; exact hvalid)
    exact ⟨⟨some cid, e⟩, by rw [serializeNodeData, linkTo_eq_ok.2 hcid, ok_bind, he]; rfl, h⟩

/-- Serialization only reads the pointers of the subtrees. -/
theorem serializeNodeData_map {f : MstNode → MstNode} {es : List NodeEntry}
    (h : ∀ node, .tree node ∈ es → (f node).pointer = node.pointer) :
    serializeNodeData (es.map (NodeEntry.mapTree f)) = serializeNodeData es := by
  have hlink : ∀ node, .tree node ∈ es → linkTo (f node) = linkTo node := fun node hn => by
    rw [linkTo, linkTo, h node hn]
  have hleaves : ∀ (lastKey : List Char) (es : List NodeEntry),
      (∀ node, .tree node ∈ es → linkTo (f node) = linkTo node) →
      serializeLeaves lastKey (es.map (NodeEntry.mapTree f)) = serializeLeaves lastKey es := by
    intro lastKey es hes
    fun_induction serializeLeaves lastKey es with
    | case1 => rfl
    | case2 lastKey key value next es ih =>
      simp only [List.map_cons, NodeEntry.mapTree, serializeLeaves, hes next (by simp),
        ih fun n hn => hes n (by simp [hn])]
    | case3 lastKey key value es hne ih =>
      have hes := ih fun n hn => hes n (by simp [hn])
      rcases es with _ | ⟨_ | node, es⟩
      · rfl
      · simp only [List.map_cons, NodeEntry.mapTree, serializeLeaves] at hes ⊢
        rw [hes]
      · exact absurd rfl (hne node es)
    | case4 => rfl
  rcases es with _ | ⟨_ | node, es⟩
  · rfl
  · have hes := hleaves [] _ hlink
    simp only [List.map_cons, NodeEntry.mapTree] at hes
    simp only [List.map_cons, NodeEntry.mapTree, serializeNodeData, hes]
  · simp only [List.map_cons, NodeEntry.mapTree, serializeNodeData, hlink node List.mem_cons_self,
      hleaves [] es fun n hn => hlink n (List.mem_cons_of_mem _ hn)]

/-- The node comes back from its data, with each subtree loaded from its CID and the
    layer of its first leaf. -/
theorem deserializeNodeData_of_serializeNodeData {load : Cid → Except String MstNode}
    {f : MstNode → MstNode} {es : List NodeEntry} {data : TreeNodeData} {bytes : Bytes}
    (h : serializeNodeData es = .ok data) (hb : encodeNodeData data = .ok bytes)
    (hload : ∀ node cid, .tree node ∈ es → node.pointer = some cid → load cid = .ok (f node)) :
    deserializeNodeData load data = .ok (.mk (resolvedLayer (es.map (NodeEntry.mapTree f)))
      (some (cidForBytes bytes)) (es.map (NodeEntry.mapTree f))) := by
  rcases es with _ | ⟨_ | node, es⟩
  · cases h
    rw [deserializeNodeData, hb]
    rfl
  · simp only [serializeNodeData, bind_eq_ok] at h
    obtain ⟨e, he, h⟩ := h
    cases h
    have hes := deserializeEntries_of_serializeLeaves he hload
    simp only [deserializeNodeData, Option.mapM_none, hes, hb]
    rfl
  · simp only [serializeNodeData, bind_eq_ok] at h
    obtain ⟨cid, hcid, e, he, h⟩ := h
    cases h
    have hnode := hload node cid List.mem_cons_self (linkTo_eq_ok.1 hcid)
    have hes := deserializeEntries_of_serializeLeaves he fun n c hn =>
      hload n c (List.mem_cons_of_mem _ hn)
    simp only [deserializeNodeData, Option.mapM_some, hnode, hes, hb]
    rfl

end ComputeContract
