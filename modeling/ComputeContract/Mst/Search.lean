import ComputeContract.Mst.WellFormed

/-!
# Finding a key

The first leaf whose key is not below the one sought cuts the entries of a node. The
leaves before the cut are below the key and those after it are not (`Gap`), except
that a subtree just before the cut can hold leaves on both sides (`Inside`). Every
operation follows this case distinction (`cut`); for `get` it gives the lookup.
-/

namespace ComputeContract

open MstNode AssocList

variable {D : Discipline} {node child : MstNode} {key : Key} {L R : List NodeEntry}

/-- The cut lies between leaves. -/
structure Gap (node : MstNode) (key : Key) (L R : List NodeEntry) : Prop where
  entries : node.entries = L ++ R
  index : node.findGtOrEqualLeafIndex key = L.length
  endsInLeaf : EndsInLeaf L
  startsWithLeaf : StartsWithLeaf R
  below : ∀ e ∈ entryLeaves L, e.1 < key
  above : ∀ e ∈ entryLeaves R, key ≤ e.1

/-- The cut lies just after a subtree. -/
structure Inside (node : MstNode) (key : Key) (L : List NodeEntry) (child : MstNode)
    (R : List NodeEntry) : Prop where
  entries : node.entries = L ++ .tree child :: R
  index : node.findGtOrEqualLeafIndex key = L.length + 1
  endsInLeaf : EndsInLeaf L
  startsWithLeaf : StartsWithLeaf R
  below : ∀ e ∈ entryLeaves L, e.1 < key
  above : ∀ e ∈ entryLeaves R, key ≤ e.1

theorem findIdx_cut {α : Type} (p : α → Bool) (es : List α) :
    ∃ L R, es = L ++ R ∧ es.findIdx p = L.length ∧ (∀ e ∈ L, ¬ p e) ∧ ∀ e ∈ R.head?, p e := by
  induction es with
  | nil => exact ⟨[], [], rfl, rfl, by simp, by simp⟩
  | cons e es ih =>
    by_cases h : p e
    · exact ⟨[], e :: es, rfl, by simp [List.findIdx_cons, h], by simp, by simpa using h⟩
    · obtain ⟨L, R, rfl, hi, hL, hR⟩ := ih
      exact ⟨e :: L, R, rfl, by simp [List.findIdx_cons, h, hi], by simpa [h] using hL, hR⟩

theorem below_of_endsInLeaf (hs : Sorted (entryLeaves L)) (hend : EndsInLeaf L)
    (hL : ∀ e ∈ L, ¬ isGtOrEqualLeaf key e) : ∀ e ∈ entryLeaves L, e.1 < key := by
  rcases L.eq_nil_or_concat with rfl | ⟨L, e, rfl⟩
  · simp [entryLeaves]
  · rw [List.concat_eq_append] at hs hend hL ⊢
    cases e with
    | tree n => exact absurd rfl (hend _ (List.getLast?_concat ..))
    | leaf k v =>
      have hk : k < key := by simpa [isGtOrEqualLeaf] using hL (.leaf k v) (by simp)
      rw [entryLeaves_append] at hs ⊢
      intro e he
      rcases List.mem_append.1 he with he | he
      · exact ((sorted_append.1 hs).2.2 e.1 (mem_keys_of_mem he) k (by simp [entryLeaves])).trans hk
      · obtain rfl : e = (k, v) := by simpa [entryLeaves] using he
        exact hk

theorem above_of_head (hs : Sorted (entryLeaves R)) (hR : ∀ e ∈ R.head?, isGtOrEqualLeaf key e) :
    StartsWithLeaf R ∧ ∀ e ∈ entryLeaves R, key ≤ e.1 := by
  rcases R with _ | ⟨_ | n, R⟩
  · exact ⟨by simp [StartsWithLeaf], by simp [entryLeaves]⟩
  · rename_i k v
    have hk : key ≤ k := by simpa [isGtOrEqualLeaf] using hR
    rw [entryLeaves, sorted_cons] at hs
    refine ⟨startsWithLeaf_cons, fun e he => ?_⟩
    rcases List.mem_cons.1 he with rfl | he
    · exact hk
    · exact hk.trans (hs.1 e.1 (mem_keys_of_mem he)).le
  · simp [isGtOrEqualLeaf] at hR

/-- Where the search of a node ends. -/
theorem cut (h : WF D node) (hs : Sorted node.walkLeaves) (key : Key) :
    (∃ L R, Gap node key L R) ∨ ∃ L child R, Inside node key L child R := by
  obtain ⟨L, R, hes, hi, hL, hR⟩ := findIdx_cut (isGtOrEqualLeaf key) node.entries
  have hok := h.entriesOk
  rw [walkLeaves_eq, hes, entryLeaves_append, sorted_append] at hs
  rw [hes] at hok
  obtain ⟨hstart, habove⟩ := above_of_head hs.2.1 hR
  rcases L.eq_nil_or_concat with rfl | ⟨L, e, rfl⟩
  · exact .inl ⟨[], R, hes, hi, by simp [EndsInLeaf], hstart, by simp [entryLeaves], habove⟩
  · rw [List.concat_eq_append] at *
    cases e with
    | leaf k v =>
      exact .inl ⟨_, R, hes, hi, endsInLeaf_concat, hstart,
        below_of_endsInLeaf hs.1 endsInLeaf_concat hL, habove⟩
    | tree c =>
      rw [List.append_assoc, List.singleton_append] at hes hok
      have hend := (entriesOk_tree.1 hok).1.2
      rw [entryLeaves_append, sorted_append] at hs
      rw [List.length_append] at hi
      refine .inr ⟨L, c, R, hes, hi, hend, hstart, ?_, habove⟩
      exact below_of_endsInLeaf hs.1.1 hend fun e he => hL e (List.mem_append_left _ he)

/-! ## What an operation reads -/

namespace Gap

variable (h : Gap node key L R)
include h

theorem walkLeaves : node.walkLeaves = entryLeaves L ++ entryLeaves R := by
  rw [walkLeaves_eq, h.entries, entryLeaves_append]

theorem atIndex : node.atIndex (node.findGtOrEqualLeafIndex key) = R.head? := by
  rw [MstNode.atIndex, h.index, h.entries, List.getElem?_append_right le_rfl, Nat.sub_self,
    List.head?_eq_getElem?]

theorem atIndex_succ : node.atIndex (node.findGtOrEqualLeafIndex key + 1) = R.tail.head? := by
  rw [MstNode.atIndex, h.index, h.entries, List.getElem?_append_right (by omega),
    List.head?_eq_getElem?, List.getElem?_tail]
  congr 1
  omega

theorem before (n : MstNode) :
    node.before (node.findGtOrEqualLeafIndex key) ≠ some (.tree n) := by
  intro hb
  refine h.endsInLeaf (.tree n) ?_ rfl
  rw [MstNode.before, h.index, h.entries] at hb
  split_ifs at hb with h0
  rw [List.getElem?_append_left (by omega)] at hb
  rw [List.getLast?_eq_getElem?]
  exact hb

theorem take : node.entries.take (node.findGtOrEqualLeafIndex key) = L := by
  rw [h.index, h.entries, List.take_left]

theorem drop : node.entries.drop (node.findGtOrEqualLeafIndex key) = R := by
  rw [h.index, h.entries, List.drop_left]

end Gap

namespace Inside

variable (h : Inside node key L child R)
include h

theorem walkLeaves :
    node.walkLeaves = entryLeaves L ++ child.walkLeaves ++ entryLeaves R := by
  rw [walkLeaves_eq, h.entries, entryLeaves_append, entryLeaves, List.append_assoc]

theorem atIndex : node.atIndex (node.findGtOrEqualLeafIndex key) = R.head? := by
  rw [MstNode.atIndex, h.index, h.entries, List.getElem?_append_right (by omega),
    List.head?_eq_getElem?, Nat.add_sub_cancel_left, List.getElem?_cons_succ]

theorem atIndex_succ : node.atIndex (node.findGtOrEqualLeafIndex key + 1) = R.tail.head? := by
  rw [MstNode.atIndex, h.index, h.entries, List.getElem?_append_right (by omega),
    List.head?_eq_getElem?, show L.length + 1 + 1 - L.length = 2 by omega, List.getElem?_cons_succ,
    List.getElem?_tail]

theorem before : node.before (node.findGtOrEqualLeafIndex key) = some (.tree child) := by
  rw [MstNode.before, h.index, if_neg (by omega), h.entries, Nat.add_sub_cancel,
    List.getElem?_append_right le_rfl, Nat.sub_self]
  rfl

theorem take : node.entries.take (node.findGtOrEqualLeafIndex key) = L ++ [.tree child] := by
  rw [h.index, h.entries, ← List.singleton_append, ← List.append_assoc]
  exact List.take_left' (by simp)

theorem take_pred : node.entries.take (node.findGtOrEqualLeafIndex key - 1) = L := by
  rw [h.index, h.entries, Nat.add_sub_cancel, List.take_left]

theorem index_pred :
    node.findGtOrEqualLeafIndex key - 1 + 1 = node.findGtOrEqualLeafIndex key := by
  rw [h.index]
  rfl

theorem drop : node.entries.drop (node.findGtOrEqualLeafIndex key) = R := by
  rw [h.index, h.entries, ← List.singleton_append, ← List.append_assoc]
  exact List.drop_left' (by simp)

theorem wf_child (hn : WF D node) : D.childOk node.layer child.layer ∧ child.entries ≠ [] ∧
    WF D child := by
  have hok := hn.entriesOk
  rw [h.entries] at hok
  exact (entriesOk_tree.1 hok).2.1

end Inside

/-- The leaf sought is the one after the cut. -/
structure Found (node : MstNode) (key : Key) (L : List NodeEntry) (value : Cid)
    (R : List NodeEntry) : Prop where
  entries : node.entries = L ++ .leaf key value :: R
  index : node.findGtOrEqualLeafIndex key = L.length

namespace Found

variable {value : Cid} (h : Found node key L value R)
include h

theorem walkLeaves : node.walkLeaves = entryLeaves L ++ (key, value) :: entryLeaves R := by
  rw [walkLeaves_eq, h.entries, entryLeaves_append, entryLeaves]

theorem sorted (hs : Sorted node.walkLeaves) :
    (∀ e ∈ entryLeaves L, e.1 < key) ∧ ∀ e ∈ entryLeaves R, key < e.1 := by
  rw [h.walkLeaves, sorted_append, sorted_cons] at hs
  exact ⟨fun e he => hs.2.2 e.1 (mem_keys_of_mem he) key (by simp),
    fun e he => hs.2.1.1 e.1 (mem_keys_of_mem he)⟩

theorem atIndex : node.atIndex (node.findGtOrEqualLeafIndex key) = some (.leaf key value) := by
  rw [MstNode.atIndex, h.index, h.entries, List.getElem?_append_right le_rfl, Nat.sub_self]
  rfl

theorem leafValue :
    leafValue (node.atIndex (node.findGtOrEqualLeafIndex key)) key = some value := by
  rw [h.atIndex, MstNode.leafValue, if_pos rfl]

theorem atIndex_succ : node.atIndex (node.findGtOrEqualLeafIndex key + 1) = R.head? := by
  rw [MstNode.atIndex, h.index, h.entries, List.getElem?_append_right (by omega),
    List.head?_eq_getElem?, Nat.add_sub_cancel_left, List.getElem?_cons_succ]

theorem before : node.before (node.findGtOrEqualLeafIndex key) = L.getLast? := by
  rw [MstNode.before, h.index, h.entries]
  split_ifs with h0
  · rw [List.length_eq_zero_iff.1 h0]
    rfl
  · rw [List.getElem?_append_left (by omega), List.getLast?_eq_getElem?]

theorem take : node.entries.take (node.findGtOrEqualLeafIndex key) = L := by
  rw [h.index, h.entries, List.take_left]

theorem drop : node.entries.drop (node.findGtOrEqualLeafIndex key + 1) = R := by
  rw [h.index, h.entries, ← List.singleton_append, ← List.append_assoc]
  exact List.drop_left' (by simp)

end Found

/-! ## Lookups -/

/-- The leaf just after the cut is the leaf sought, if it is there. -/
theorem leafValue_head (hs : Sorted (entryLeaves R)) (hstart : StartsWithLeaf R)
    (habove : ∀ e ∈ entryLeaves R, key ≤ e.1) :
    leafValue R.head? key = (entryLeaves R).lookup key := by
  rcases R with _ | ⟨⟨k, v⟩ | n, R⟩
  · rfl
  · rw [List.head?_cons, leafValue, entryLeaves, lookup_cons]
    by_cases hk : k = key
    · simp [hk]
    · have hlt : key < k := lt_of_le_of_ne (habove (k, v) (by simp [entryLeaves])) (Ne.symm hk)
      rw [entryLeaves, sorted_cons] at hs
      have hnot : key ∉ keys (entryLeaves R) := fun hm => absurd (hs.1 key hm) hlt.not_gt
      simp [hk, Ne.symm hk, lookup_eq_none_iff.2 hnot]
  · exact absurd rfl (hstart (.tree n) rfl)

theorem lookup_of_below {m : List (Key × Cid)} (h : ∀ e ∈ m, e.1 < key) : m.lookup key = none :=
  lookup_eq_none_iff.2 fun hm => by
    obtain ⟨v, hv⟩ := mem_keys.1 hm
    exact lt_irrefl key (h _ hv)

theorem Gap.leafValue (h : Gap node key L R) (hs : Sorted node.walkLeaves) :
    leafValue (node.atIndex (node.findGtOrEqualLeafIndex key)) key = node.walkLeaves.lookup key := by
  have hs' := hs
  rw [h.walkLeaves, sorted_append] at hs'
  rw [h.atIndex, h.walkLeaves, leafValue_head hs'.2.1 h.startsWithLeaf h.above, List.lookup_append,
    lookup_of_below h.below, Option.none_or]

theorem Inside.leafValue (h : Inside node key L child R) (hs : Sorted node.walkLeaves) :
    leafValue (node.atIndex (node.findGtOrEqualLeafIndex key)) key =
      (entryLeaves R).lookup key := by
  rw [h.walkLeaves, sorted_append] at hs
  rw [h.atIndex, leafValue_head hs.2.1 h.startsWithLeaf h.above]

theorem Inside.sorted_child (h : Inside node key L child R) (hs : Sorted node.walkLeaves) :
    Sorted child.walkLeaves := by
  rw [h.walkLeaves, sorted_append, sorted_append] at hs
  exact hs.1.2.1

/-- A key that is not among the leaves after the cut is sought in the subtree. -/
theorem Inside.lookup (h : Inside node key L child R) :
    node.walkLeaves.lookup key =
      (child.walkLeaves.lookup key).or ((entryLeaves R).lookup key) := by
  rw [h.walkLeaves, List.lookup_append, List.lookup_append, lookup_of_below h.below, Option.none_or]

/-- The leaves of the subtree lie below those after the cut. -/
theorem Inside.lookup_child (h : Inside node key L child R) (hs : Sorted node.walkLeaves)
    (hk : key ∈ keys (entryLeaves R)) : child.walkLeaves.lookup key = none := by
  rw [h.walkLeaves, sorted_append] at hs
  refine lookup_eq_none_iff.2 fun hm => lt_irrefl key (hs.2.2 key ?_ key hk)
  rw [keys_append]
  exact List.mem_append_right _ hm

theorem Inside.above_of_mem (h : Inside node key L child R) (hs : Sorted node.walkLeaves)
    (hmem : key ∈ keys child.walkLeaves) : ∀ e ∈ entryLeaves R, key < e.1 := by
  rw [h.walkLeaves, sorted_append] at hs
  refine fun e he => hs.2.2 key ?_ e.1 (mem_keys_of_mem he)
  rw [keys_append]
  exact List.mem_append_right _ hmem

theorem leafValue_eq_some {found : Option NodeEntry} {value : Cid} :
    MstNode.leafValue found key = some value ↔ found = some (.leaf key value) := by
  rcases found with _ | ⟨k, v⟩ | n
  · simp [MstNode.leafValue]
  · by_cases hk : k = key <;> simp [MstNode.leafValue, hk]
  · simp [MstNode.leafValue]

theorem found_of_leafValue {value : Cid}
    (h : MstNode.leafValue (node.atIndex (node.findGtOrEqualLeafIndex key)) key = some value) :
    ∃ L R, Found node key L value R := by
  rw [leafValue_eq_some, MstNode.atIndex, List.getElem?_eq_some_iff] at h
  obtain ⟨hlt, h⟩ := h
  refine ⟨node.entries.take (node.findGtOrEqualLeafIndex key),
    node.entries.drop (node.findGtOrEqualLeafIndex key + 1), ?_, ?_⟩
  · rw [← h, ← List.drop_eq_getElem_cons hlt, List.take_append_drop]
  · rw [List.length_take, min_eq_left hlt.le]

/-- A key that is there is the leaf after the cut, or in the subtree before it. -/
theorem search (h : WF D node) (hs : Sorted node.walkLeaves) (hmem : key ∈ keys node.walkLeaves) :
    (∃ L v R, Found node key L v R) ∨ ∃ L child R, Inside node key L child R ∧
      MstNode.leafValue (node.atIndex (node.findGtOrEqualLeafIndex key)) key = none ∧
      key ∈ keys child.walkLeaves := by
  cases hv : MstNode.leafValue (node.atIndex (node.findGtOrEqualLeafIndex key)) key with
  | some v =>
    obtain ⟨L, R, hf⟩ := found_of_leafValue hv
    exact .inl ⟨L, v, R, hf⟩
  | none =>
    rw [← lookup_isSome_iff] at hmem
    rcases cut h hs key with ⟨L, R, hg⟩ | ⟨L, c, R, hg⟩
    · rw [← hg.leafValue hs, hv] at hmem
      cases hmem
    · rw [hg.lookup, ← hg.leafValue hs, hv, Option.or_none] at hmem
      exact .inr ⟨L, c, R, hg, rfl, lookup_isSome_iff.1 hmem⟩

/-- The keys of the leaves are valid, and so are their values. -/
theorem WF.valid (h : WF D node) : ∀ e ∈ node.walkLeaves, isValidMstKey e.1 ∧ isValidCid e.2 := by
  induction node using MstNode.ind with | h layer pointer es ih => ?_
  have hok := h.entriesOk
  have hes : ∀ es' : List NodeEntry, (∀ e ∈ es', e ∈ es) →
      ∀ e ∈ entryLeaves es', isValidMstKey e.1 ∧ isValidCid e.2 := by
    intro es'
    induction es' with
    | nil => simp [entryLeaves]
    | cons e es' ih' =>
      intro hsub
      rw [List.forall_mem_cons] at hsub
      cases e with
      | leaf k v =>
        obtain ⟨hk, hv, _⟩ := hok.leaf k v hsub.1
        exact List.forall_mem_cons.2 ⟨⟨hk, hv⟩, ih' hsub.2⟩
      | tree n =>
        exact List.forall_mem_append.2 ⟨ih n hsub.1 (hok.child n hsub.1).2.2, ih' hsub.2⟩
  exact hes es fun _ => id

theorem WF.valid_of_mem (h : WF D node) (hmem : key ∈ keys node.walkLeaves) : isValidMstKey key := by
  obtain ⟨v, hv⟩ := mem_keys.1 hmem
  exact (h.valid _ hv).1

/-- `get` looks the key up among the leaves. -/
theorem WF.get (h : WF D node) (hs : Sorted node.walkLeaves) (key : Key) :
    node.get key = node.walkLeaves.lookup key := by
  induction node using MstNode.ind with | h layer pointer es ih => ?_
  rcases cut h hs key with ⟨L, R, hg⟩ | ⟨L, c, R, hg⟩
  · rw [MstNode.get, hg.leafValue hs]
    cases hv : (MstNode.mk layer pointer es).walkLeaves.lookup key with
    | some v => rfl
    | none =>
      simp only
      split
      · exact absurd ‹_› (hg.before _)
      · rfl
  · rw [MstNode.get, hg.leafValue hs, hg.lookup]
    have hmem : .tree c ∈ (MstNode.mk layer pointer es).entries := by simp [hg.entries]
    have hc := ih c hmem (hg.wf_child h).2.2 (hg.sorted_child hs)
    cases hv : (entryLeaves R).lookup key with
    | some v =>
      have hk : key ∈ keys (entryLeaves R) := lookup_isSome_iff.1 (by simp [hv])
      simp [hg.lookup_child hs hk]
    | none =>
      simp only
      split
      · rename_i n hb
        rw [hg.before] at hb
        cases hb
        rw [hc, Option.or_none]
      · rename_i hb
        exact absurd hg.before (hb c)

end ComputeContract
