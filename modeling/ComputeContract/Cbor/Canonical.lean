import ComputeContract.Cbor.Tree

/-!
# Canonical encodings

The format allows one encoding of a value: every head in the fewest bytes that hold its number,
the keys of every map ascending, by their length in UTF-8 and then by their bytes. The encoder
writes every head so, and the same bytes whatever the order the fields of a map were put in. It
sorts keys of one length by their UTF-16 code units though, which is another order once
characters above U+FFFF meet characters of U+E000 to U+FFFF.

* `Writes`: the bytes that the format allows for a value, by the order it wants of the keys;
* `writes_iff`: bytes are allowed if they are those of a tree with its keys in that order;
* `Reordered`: the values with the same contents;
* `canonicalEncoding_iff`: which values have a canonical encoding.
-/

namespace ComputeContract.Cbor

open AssocList

/-! ## Heads -/

/-- The heads of the format, by their major type and number. -/
inductive Head (major n : ℕ) : Bytes → Prop
  | inline : n < 24 → Head major n [(major * 32 + n).toUInt8]
  | wide (k : ℕ) : k < 4 → n < 256 ^ 2 ^ k →
      Head major n ((major * 32 + (24 + k)).toUInt8 :: bigEndian n (2 ^ k))

/-- A head with no shorter one for its number. -/
def Minimal (major n : ℕ) (head : Bytes) : Prop :=
  Head major n head ∧ ∀ head', Head major n head' → head.length ≤ head'.length

variable {major n : ℕ}

theorem head_writeHeader (hn : n < 2 ^ 64) : Head major n (writeHeader major n) := by
  rw [writeHeader]
  split_ifs with h₁ h₂ h₃ h₄
  · exact .inline h₁
  · exact .wide 0 (by decide) (by omega)
  · exact .wide 1 (by decide) (by omega)
  · exact .wide 2 (by decide) (by omega)
  · exact .wide 3 (by decide) (by omega)

/-- The encoder's head is shorter than every other one. -/
theorem eq_writeHeader {head : Bytes} (h : Head major n head) :
    head = writeHeader major n ∨ (writeHeader major n).length < head.length := by
  cases h with
  | inline hn => exact .inl (by rw [writeHeader, if_pos hn])
  | wide k hk hn =>
    rw [writeHeader, List.length_cons, length_bigEndian]
    obtain rfl | rfl | rfl | rfl : k = 0 ∨ k = 1 ∨ k = 2 ∨ k = 3 := by omega
    all_goals
      split_ifs <;> simp only [List.length_cons, List.length_nil, length_bigEndian] <;>
        first | exact .inl rfl | exact .inr (by decide) | omega

theorem minimal_iff {head : Bytes} :
    Minimal major n head ↔ n < 2 ^ 64 ∧ head = writeHeader major n := by
  have hlt : ∀ {head}, Head major n head → n < 2 ^ 64 := by
    intro head h
    cases h with
    | inline hn => omega
    | wide k hk hn =>
      obtain rfl | rfl | rfl | rfl : k = 0 ∨ k = 1 ∨ k = 2 ∨ k = 3 := by omega
      all_goals omega
  constructor
  · rintro ⟨h, hleast⟩
    have hn := hlt h
    refine ⟨hn, (eq_writeHeader h).resolve_right ?_⟩
    exact (hleast _ (head_writeHeader hn)).not_gt
  · rintro ⟨hn, rfl⟩
    refine ⟨head_writeHeader hn, fun head' h => ?_⟩
    rcases eq_writeHeader h with rfl | hlt
    · exact le_rfl
    · exact hlt.le

/-! ## The order of the keys -/

/-- The order of the format: by the length in bytes and then by the bytes. -/
def Before (a b : String) : Prop :=
  (textEncode a).length < (textEncode b).length ∨
    (textEncode a).length = (textEncode b).length ∧ textEncode a < textEncode b

instance : DecidableRel Before := fun _ _ => inferInstanceAs (Decidable (_ ∨ _))

theorem keyLe_iff {a b : String} : keyLe a b ↔ (textEncode a).length < (textEncode b).length ∨
    (textEncode a).length = (textEncode b).length ∧ utf16 a ≤ utf16 b := by
  rw [keyLe]
  split_ifs with h
  · rw [decide_eq_true_eq]
    exact ⟨.inl, fun hle => hle.resolve_right fun heq => h heq.1⟩
  · rw [decide_eq_true_eq, not_lt]
    rw [not_not] at h
    exact ⟨fun hle => .inr ⟨h, hle⟩, fun hle => (hle.resolve_left (by omega)).2⟩

theorem keyLe_antisymm {a b : String} (h : keyLe a b) (h' : keyLe b a) : a = b := by
  rw [keyLe_iff] at h h'
  rcases h with h | ⟨h, hle⟩ <;> rcases h' with h' | ⟨h', hle'⟩
  · omega
  · omega
  · omega
  · exact utf16_injective (le_antisymm hle hle')

instance : Std.Total fun a b : String => (keyLe a b : Prop) where
  total a b := by
    rw [keyLe_iff, keyLe_iff]
    rcases lt_trichotomy (textEncode a).length (textEncode b).length with h | h | h
    · exact .inl (.inl h)
    · rcases le_total (utf16 a) (utf16 b) with hle | hle
      · exact .inl (.inr ⟨h, hle⟩)
      · exact .inr (.inr ⟨h.symm, hle⟩)
    · exact .inr (.inl h)

instance : IsTrans String fun a b => keyLe a b where
  trans a b c h h' := by
    rw [keyLe_iff] at h h' ⊢
    rcases h with h | ⟨h, hle⟩ <;> rcases h' with h' | ⟨h', hle'⟩
    · exact .inl (h.trans h')
    · exact .inl (h' ▸ h)
    · exact .inl (h ▸ h')
    · exact .inr ⟨h.trans h', hle.trans hle'⟩

section
variable {α : Type} {fields fields' : List (String × α)}

/-- The keys are sorted. -/
theorem pairwise_keyLe_sortKeys (fields : List (String × α)) :
    (sortKeys fields).Pairwise fun a b => keyLe a.1 b.1 := by
  have : Std.Total fun a b : String × α => (keyLe a.1 b.1 : Prop) :=
    ⟨fun a b => Std.Total.total (r := fun a b : String => (keyLe a b : Prop)) a.1 b.1⟩
  have : IsTrans (String × α) fun a b => keyLe a.1 b.1 :=
    ⟨fun a b c => IsTrans.trans (r := fun a b : String => (keyLe a b : Prop)) a.1 b.1 c.1⟩
  exact List.pairwise_insertionSort _ _

/-- The same fields in another order are sorted to the same. -/
theorem sortKeys_eq_of_perm (hn : (keys fields).Nodup) (h : fields.Perm fields') :
    sortKeys fields = sortKeys fields' := by
  have hperm : (sortKeys fields).Perm (sortKeys fields') :=
    (perm_sortKeys _).trans (h.trans (perm_sortKeys _).symm)
  refine hperm.eq_of_pairwise (fun e e' he he' hle hle' => ?_) (pairwise_keyLe_sortKeys _)
    (pairwise_keyLe_sortKeys _)
  have he := (perm_sortKeys fields).mem_iff.1 he
  have he' := h.mem_iff.2 ((perm_sortKeys fields').mem_iff.1 he')
  exact List.inj_on_of_nodup_map hn he he' (keyLe_antisymm hle hle')

/-- Two keys of one length are in one order by code units and by bytes. -/
def keysAgree (keys : List String) : Bool :=
  ∀ a ∈ keys, ∀ b ∈ keys, (textEncode a).length = (textEncode b).length → ¬ astray a b

/-- The sorted keys are in the order of the format, if the two orders agree on them. -/
theorem pairwise_before_iff (hn : (keys fields).Nodup) :
    (keys (sortKeys fields)).Pairwise Before ↔ keysAgree (keys fields) := by
  have hperm : (keys (sortKeys fields)).Perm (keys fields) := (perm_sortKeys fields).map Prod.fst
  have hle : (keys (sortKeys fields)).Pairwise fun a b => keyLe a b :=
    List.pairwise_map.2 (pairwise_keyLe_sortKeys fields)
  have hlt : (keys (sortKeys fields)).Pairwise fun a b => keyLe a b ∧ a ≠ b :=
    hle.and (hperm.nodup_iff.2 hn)
  have hbefore : ∀ {a b}, keyLe a b ∧ a ≠ b → (Before a b ↔
      ((textEncode a).length = (textEncode b).length → ¬ astray a b)) := by
    rintro a b ⟨hle, hne⟩
    rw [keyLe_iff] at hle
    rcases hle with hlt | ⟨heq, hle⟩
    · exact iff_of_true (.inl hlt) fun heq => absurd heq hlt.ne
    · have hlt : utf16 a < utf16 b := lt_of_le_of_ne hle (utf16_injective.ne hne)
      rw [Before, textEncode_lt_iff_of_utf16_lt hlt]
      exact ⟨fun h _ => (h.resolve_left heq.not_lt).2, fun h => .inr ⟨heq, h heq⟩⟩
  have hself : ∀ a, ¬ astray a a := fun a h => by simp [astray, astrayFrom_toList_iff] at h
  rw [keysAgree, decide_eq_true_eq]
  constructor
  · intro h a ha b hb
    have hall := (h.and hlt).imp fun h => (hbefore h.2).1 h.1
    refine List.Pairwise.forall_of_forall_of_flip (fun a _ _ => hself a) hall
      (hall.imp fun h heq => ?_) (hperm.mem_iff.2 ha) (hperm.mem_iff.2 hb)
    rw [astray_comm]
    exact h heq.symm
  · intro h
    refine (hlt.imp_of_mem fun ha hb hlt => (hbefore hlt).2 ?_)
    exact h _ (hperm.mem_iff.1 ha) _ (hperm.mem_iff.1 hb)

end

/-! ## The encodings of the format -/

/-- Bytes that are a string in the format. -/
inductive WritesText : String → Bytes → Prop
  | mk {s : String} {head : Bytes} :
      Minimal 3 (textEncode s).length head → WritesText s (head ++ textEncode s)

section
variable (r : String → String → Prop)

mutual

/-- Bytes that are a value in the format: its heads are in the fewest bytes, and its maps are
    written with their keys in the order `r`. -/
inductive Writes : Value → Bytes → Prop
  | null {head : Bytes} : Minimal 7 22 head → Writes .null head
  | true {head : Bytes} : Minimal 7 21 head → Writes (.bool true) head
  | false {head : Bytes} : Minimal 7 20 head → Writes (.bool false) head
  | uint {n : ℕ} {head : Bytes} : Minimal 0 n head → Writes (.int n) head
  | nint {n : ℕ} {head : Bytes} : Minimal 1 n head → Writes (.int (-1 - n)) head
  | bytes {bs head : Bytes} : Minimal 2 bs.length head → Writes (.bytes bs) (head ++ bs)
  | text {s : String} {out : Bytes} : WritesText s out → Writes (.text s) out
  | array {xs : List Value} {head out : Bytes} :
      Minimal 4 xs.length head → WritesItems xs out → Writes (.array xs) (head ++ out)
  | object {fields : List (String × Value)} {head out : Bytes} :
      Minimal 5 fields.length head → (keys fields).Pairwise r → WritesFields fields out →
      Writes (.object fields) (head ++ out)
  /-- Tag 42, on the bytes of the CID behind a zero byte. -/
  | link {cid : Cid} {tag head : Bytes} :
      Minimal 6 42 tag → Minimal 2 (cid.bytes.length + 1) head →
      Writes (.link cid) (tag ++ (head ++ 0x00 :: cid.bytes))

inductive WritesItems : List Value → Bytes → Prop
  | nil : WritesItems [] []
  | cons {x : Value} {xs : List Value} {out outs : Bytes} :
      Writes x out → WritesItems xs outs → WritesItems (x :: xs) (out ++ outs)

inductive WritesFields : List (String × Value) → Bytes → Prop
  | nil : WritesFields [] []
  | cons {key : String} {val : Value} {fields : List (String × Value)} {k out outs : Bytes} :
      WritesText key k → Writes val out → WritesFields fields outs →
      WritesFields ((key, val) :: fields) (k ++ out ++ outs)

end

end
section
variable {r : String → String → Prop} {P : Value → Prop}

theorem writesText_iff {s : String} {out : Bytes} :
    WritesText s out ↔ (textEncode s).length < 2 ^ 64 ∧ out = encodeText s := by
  constructor
  · intro h
    cases h with
    | mk hhead =>
      obtain ⟨hlength, rfl⟩ := minimal_iff.1 hhead
      exact ⟨hlength, rfl⟩
  · rintro ⟨hlength, rfl⟩
    exact .mk (minimal_iff.2 ⟨hlength, rfl⟩)

theorem writesItems_iff {xs : List Value} {out : Bytes}
    (h : ∀ x ∈ xs, ∀ out, Writes r x out ↔ P x ∧ out = bytesOf x) :
    WritesItems r xs out ↔ (∀ x ∈ xs, P x) ∧ out = itemsOf xs := by
  induction xs generalizing out with
  | nil =>
    constructor
    · rintro ⟨⟩
      exact ⟨nofun, rfl⟩
    · rintro ⟨-, rfl⟩
      exact .nil
  | cons x xs ih =>
    obtain ⟨hx, hxs⟩ := List.forall_mem_cons.1 h
    rw [List.forall_mem_cons, itemsOf_cons]
    constructor
    · intro h
      cases h with
      | cons hout houts =>
        obtain ⟨hP, rfl⟩ := (hx _).1 hout
        obtain ⟨hPs, rfl⟩ := (ih hxs).1 houts
        exact ⟨⟨hP, hPs⟩, rfl⟩
    · rintro ⟨⟨hP, hPs⟩, rfl⟩
      exact .cons ((hx _).2 ⟨hP, rfl⟩) ((ih hxs).2 ⟨hPs, rfl⟩)

theorem writesFields_iff {fields : List (String × Value)} {out : Bytes}
    (h : ∀ e ∈ fields, ∀ out, Writes r e.2 out ↔ P e.2 ∧ out = bytesOf e.2) :
    WritesFields r fields out ↔ (∀ key ∈ keys fields, (textEncode key).length < 2 ^ 64) ∧
      (∀ e ∈ fields, P e.2) ∧ out = fieldsOf fields := by
  induction fields generalizing out with
  | nil =>
    constructor
    · rintro ⟨⟩
      exact ⟨nofun, nofun, rfl⟩
    · rintro ⟨-, -, rfl⟩
      exact .nil
  | cons e fields ih =>
    obtain ⟨key, val⟩ := e
    obtain ⟨hval, hfields⟩ := List.forall_mem_cons.1 h
    rw [List.forall_mem_cons, fieldsOf_cons, keys_cons, List.forall_mem_cons]
    constructor
    · intro h
      cases h with
      | cons hkey hout houts =>
        obtain ⟨hlength, rfl⟩ := writesText_iff.1 hkey
        obtain ⟨hP, rfl⟩ := (hval _).1 hout
        obtain ⟨hkeys, hPs, rfl⟩ := (ih hfields).1 houts
        exact ⟨⟨hlength, hkeys⟩, ⟨hP, hPs⟩, rfl⟩
    · rintro ⟨⟨hkey, hkeys⟩, ⟨hP, hPs⟩, rfl⟩
      exact .cons (writesText_iff.2 ⟨hkey, rfl⟩) ((hval _).2 ⟨hP, rfl⟩)
        ((ih hfields).2 ⟨hkeys, hPs, rfl⟩)

variable [DecidableRel r]

/-- A value with heads of eight bytes at most, and its keys in order. -/
def writesNode (r : String → String → Prop) [DecidableRel r] : Value → Bool
  | .object fields => smallNode (.object fields) && decide ((keys fields).Pairwise r)
  | v => smallNode v

theorem writesNode_object {fields : List (String × Value)} :
    writesNode r (.object fields) ↔ smallNode (.object fields) ∧ (keys fields).Pairwise r := by
  rw [writesNode, Bool.and_eq_true, decide_eq_true_eq]

/-- A value has one encoding in the format, that of its tree, if its keys are in order. -/
theorem writes_iff (v : Value) :
    ∀ out, Writes r v out ↔ all (writesNode r) v ∧ out = bytesOf v := by
  induction v using induct with
  | undefined => exact fun out => iff_of_false nofun nofun
  | float => exact fun out => iff_of_false nofun nofun
  | null =>
    refine fun out => ⟨fun h => ?_, ?_⟩
    · cases h with
      | null hhead => exact ⟨rfl, (minimal_iff.1 hhead).2⟩
    · rintro ⟨-, rfl⟩
      exact .null (minimal_iff.2 ⟨by decide, rfl⟩)
  | bool b =>
    refine fun out => ⟨fun h => ?_, ?_⟩
    · cases h with
      | true hhead => exact ⟨rfl, (minimal_iff.1 hhead).2⟩
      | false hhead => exact ⟨rfl, (minimal_iff.1 hhead).2⟩
    · rintro ⟨-, rfl⟩
      cases b
      · exact .false (minimal_iff.2 ⟨by decide, rfl⟩)
      · exact .true (minimal_iff.2 ⟨by decide, rfl⟩)
  | int i =>
    refine fun out => ⟨fun h => ?_, ?_⟩
    · have hhead : Minimal (majorOf (.int i)) (argOf (.int i)) out := by
        cases h with
        | @uint n hhead =>
          rwa [(majorOf_natCast n).1, (majorOf_natCast n).2]
        | @nint n hhead =>
          rwa [(majorOf_neg n).1, (majorOf_neg n).2]
      obtain ⟨harg, rfl⟩ := minimal_iff.1 hhead
      exact ⟨decide_eq_true harg, (List.append_nil _).symm⟩
    · rintro ⟨h, rfl⟩
      have hminimal : Minimal (majorOf (.int i)) (argOf (.int i)) (bytesOf (.int i)) :=
        minimal_iff.2 ⟨of_decide_eq_true h, List.append_nil _⟩
      have hsmall : small (.int i) := h
      have hkind := kind_majorOf hsmall
      generalize majorOf (.int i) = major at hkind hminimal
      cases hkind with
      | uint n => exact .uint (by rwa [(majorOf_natCast n).2] at hminimal)
      | nint n => exact .nint (by rwa [(majorOf_neg n).2] at hminimal)
  | text s =>
    refine fun out => ⟨fun h => ?_, ?_⟩
    · cases h with
      | text hout =>
        obtain ⟨hlength, rfl⟩ := writesText_iff.1 hout
        exact ⟨decide_eq_true hlength, rfl⟩
    · rintro ⟨h, rfl⟩
      exact .text (writesText_iff.2 ⟨of_decide_eq_true h, rfl⟩)
  | bytes bs =>
    refine fun out => ⟨fun h => ?_, ?_⟩
    · cases h with
      | bytes hhead =>
        obtain ⟨hlength, rfl⟩ := minimal_iff.1 hhead
        exact ⟨decide_eq_true hlength, rfl⟩
    · rintro ⟨h, rfl⟩
      exact .bytes (minimal_iff.2 ⟨of_decide_eq_true h, rfl⟩)
  | link cid =>
    refine fun out => ⟨fun h => ?_, ?_⟩
    · cases h with
      | link htag hhead =>
        obtain ⟨-, rfl⟩ := minimal_iff.1 htag
        obtain ⟨hlength, rfl⟩ := minimal_iff.1 hhead
        exact ⟨decide_eq_true hlength, rfl⟩
    · rintro ⟨h, rfl⟩
      exact .link (minimal_iff.2 ⟨by decide, rfl⟩) (minimal_iff.2 ⟨of_decide_eq_true h, rfl⟩)
  | array xs ih =>
    refine fun out => ⟨fun h => ?_, ?_⟩
    · cases h with
      | array hhead hout =>
        obtain ⟨hlength, rfl⟩ := minimal_iff.1 hhead
        obtain ⟨hxs, rfl⟩ := (writesItems_iff ih).1 hout
        exact ⟨all_array.2 ⟨decide_eq_true hlength, hxs⟩, rfl⟩
    · rintro ⟨h, rfl⟩
      obtain ⟨hnode, hxs⟩ := all_array.1 h
      exact .array (minimal_iff.2 ⟨of_decide_eq_true hnode, rfl⟩)
        ((writesItems_iff ih).2 ⟨hxs, rfl⟩)
  | object fields ih =>
    have hiff := @writesFields_iff r (fun w => all (writesNode r) w) fields
    refine fun out => ⟨fun h => ?_, ?_⟩
    · cases h with
      | object hhead hr hout =>
        obtain ⟨hlength, rfl⟩ := minimal_iff.1 hhead
        obtain ⟨hkeys, hfields, rfl⟩ := (hiff ih).1 hout
        refine ⟨all_object.2 ⟨writesNode_object.2 ⟨?_, hr⟩, hfields⟩, rfl⟩
        exact smallNode_object.2 ⟨hlength, hkeys⟩
    · rintro ⟨h, rfl⟩
      obtain ⟨hnode, hfields⟩ := all_object.1 h
      obtain ⟨hsmall, hr⟩ := writesNode_object.1 hnode
      obtain ⟨hlength, hkeys⟩ := smallNode_object.1 hsmall
      exact .object (minimal_iff.2 ⟨hlength, rfl⟩) hr
        ((hiff ih).2 ⟨hkeys, hfields, rfl⟩)

end

/-! ## Contents -/

/-- The second value has the contents of the first one: the fields of its maps may have been put
    in another order. -/
inductive Reordered : Value → Value → Prop
  | refl (v : Value) : Reordered v v
  | trans {v w u : Value} : Reordered v w → Reordered w u → Reordered v u
  | perm {fields fields' : List (String × Value)} :
      fields.Perm fields' → Reordered (.object fields) (.object fields')
  | item (xs ys : List Value) {x y : Value} :
      Reordered x y → Reordered (.array (xs ++ x :: ys)) (.array (xs ++ y :: ys))
  | field (fs gs : List (String × Value)) (key : String) {val val' : Value} :
      Reordered val val' →
      Reordered (.object (fs ++ (key, val) :: gs)) (.object (fs ++ (key, val') :: gs))

theorem Reordered.items {xs : List Value} (h : ∀ x ∈ xs, Reordered x (canon x)) (ys : List Value) :
    Reordered (.array (ys ++ xs)) (.array (ys ++ canonItems xs)) := by
  induction xs generalizing ys with
  | nil => exact .refl _
  | cons x xs ih =>
    obtain ⟨hx, hxs⟩ := List.forall_mem_cons.1 h
    have htail := ih hxs (ys ++ [canon x])
    rw [List.append_assoc, List.append_assoc] at htail
    exact .trans (.item ys xs hx) htail

theorem Reordered.fields {fields : List (String × Value)}
    (h : ∀ e ∈ fields, Reordered e.2 (canon e.2)) (gs : List (String × Value)) :
    Reordered (.object (gs ++ fields)) (.object (gs ++ canonFields fields)) := by
  induction fields generalizing gs with
  | nil => exact .refl _
  | cons e fields ih =>
    obtain ⟨he, hfields⟩ := List.forall_mem_cons.1 h
    have htail := ih hfields (gs ++ [(e.1, canon e.2)])
    rw [List.append_assoc, List.append_assoc] at htail
    exact .trans (.field gs fields e.1 he) htail

/-- The canonical form has the contents of the value. -/
theorem reordered_canon (v : Value) : Reordered v (canon v) := by
  induction v using induct with
  | array xs ih =>
    rw [canon]
    exact Reordered.items ih []
  | object fields ih =>
    rw [canon]
    exact .trans (Reordered.fields ih []) (.perm (perm_sortKeys _).symm)
  | _ => exact .refl _

/-- Values with the same contents have the same canonical form. -/
theorem Reordered.canon_eq {v w : Value} (h : Reordered v w) (hv : dataModel v) :
    dataModel w ∧ canon v = canon w := by
  induction h with
  | refl v => exact ⟨hv, rfl⟩
  | trans _ _ ih ih' =>
    obtain ⟨hw, hvw⟩ := ih hv
    obtain ⟨hu, hwu⟩ := ih' hw
    exact ⟨hu, hvw.trans hwu⟩
  | @perm fields fields' h =>
    obtain ⟨hnode, hfields⟩ := all_object.1 hv
    obtain ⟨hlength, hn, hkeys⟩ := dataNode_object.1 hnode
    have hperm : (keys fields).Perm (keys fields') := h.map Prod.fst
    refine ⟨all_object.2 ⟨dataNode_object.2 ⟨h.length_eq ▸ hlength, hperm.nodup_iff.1 hn,
      fun key hkey => hkeys key (hperm.mem_iff.2 hkey)⟩, fun e he => hfields e (h.mem_iff.2 he)⟩, ?_⟩
    rw [canon, canon, canonFields_eq, canonFields_eq]
    refine congrArg _ (sortKeys_eq_of_perm ?_ (h.map _))
    rw [← canonFields_eq, keys_canonFields]
    exact hn
  | item xs ys _ ih =>
    obtain ⟨hnode, hitems⟩ := all_array.1 hv
    obtain ⟨hxs, hx, hys⟩ := by simpa only [List.forall_mem_append, List.forall_mem_cons] using hitems
    obtain ⟨hy, heq⟩ := ih hx
    refine ⟨all_array.2 ⟨?_, ?_⟩, ?_⟩
    · rwa [dataNode, List.length_append, List.length_cons] at hnode ⊢
    · simp only [List.forall_mem_append, List.forall_mem_cons]
      exact ⟨hxs, hy, hys⟩
    · rw [canon, canon, canonItems_eq, canonItems_eq, List.map_append, List.map_append,
        List.map_cons, List.map_cons, heq]
  | field fs gs key _ ih =>
    obtain ⟨hnode, hfields⟩ := all_object.1 hv
    obtain ⟨hfs, hval, hgs⟩ := by simpa only [List.forall_mem_append, List.forall_mem_cons] using hfields
    obtain ⟨hval', heq⟩ := ih hval
    refine ⟨all_object.2 ⟨?_, ?_⟩, ?_⟩
    · simpa only [dataNode_object, keys_append, keys_cons, List.length_append, List.length_cons]
        using hnode
    · simp only [List.forall_mem_append, List.forall_mem_cons]
      exact ⟨hfs, hval', hgs⟩
    · rw [canon, canon, canonFields_eq, canonFields_eq, List.map_append, List.map_append,
        List.map_cons, List.map_cons, heq]

/-! ## Canonical encodings -/

/-- Canonical DAG-CBOR: the keys of every map are ascending in the order of the format. -/
def Canonical (out : Bytes) (v : Value) : Prop := Writes Before v out

/-- The encoding of a value is canonical, and that of its contents: the order that the fields of
    its maps were put in does not matter. -/
def CanonicalEncoding (v : Value) : Prop :=
  ∃ out w, encode v = .ok out ∧ Reordered v w ∧ Canonical out w ∧
    ∀ v', Reordered v v' → encode v' = .ok out

/-- The two orders agree on the keys of a map, by itself. -/
def agreeNode : Value → Bool
  | .object fields => keysAgree (keys fields)
  | _ => true

/-- The tree that is written is canonical if the orders agree on the keys of its maps. -/
theorem all_writesNode_canon {v : Value} (h : dataModel v) :
    all (writesNode Before) (canon v) ↔ all agreeNode v := by
  have hnode : ∀ v, (dataNode (canon v) && writesNode Before (canon v)) ↔
      (dataNode v && agreeNode v) := by
    intro v
    rw [Bool.and_eq_true, Bool.and_eq_true, dataNode_canon]
    refine and_congr_right fun hdata => ?_
    have hsmall := smallNode_of_dataNode ((dataNode_canon v).2 hdata)
    cases v with
    | object fields =>
      obtain ⟨-, hn, -⟩ := dataNode_object.1 hdata
      rw [canon] at hsmall ⊢
      have hkeys := keys_canonFields fields
      rw [writesNode_object, and_iff_right hsmall, agreeNode, ← hkeys]
      exact pairwise_before_iff (hkeys ▸ hn)
    | array xs =>
      rw [canon] at hsmall ⊢
      exact iff_of_true hsmall rfl
    | _ => exact iff_of_true hsmall rfl
  have hall := @all_canon (fun v => dataNode v && writesNode Before v)
    (fun v => dataNode v && agreeNode v) hnode v
  rw [all_and, all_and] at hall
  have hdata : all dataNode v := h
  have hcanon : all dataNode (canon v) := (dataModel_canon v).2 h
  rwa [and_iff_right hcanon, and_iff_right hdata] at hall

/-- Every head is in the fewest bytes that hold its number. -/
theorem encode_writes (v : Value) (h : dataModel v) :
    ∃ out w, encode v = .ok out ∧ Reordered v w ∧ Writes (fun _ _ => True) w out := by
  refine ⟨_, canon v, encodeValue_eq v h, reordered_canon v, (writes_iff _ _).2 ⟨?_, rfl⟩⟩
  refine all_imp (fun w hw => ?_) _ (small_of_dataModel ((dataModel_canon v).2 h))
  cases w with
  | object fields => exact writesNode_object.2 ⟨hw, List.pairwise_of_forall fun _ _ => trivial⟩
  | _ => exact hw

/-- Values with the same contents have the same encoding. -/
theorem encode_reordered {v w : Value} (hv : dataModel v) (h : Reordered v w) :
    encode w = encode v := by
  obtain ⟨hw, hcanon⟩ := h.canon_eq hv
  rw [encode, encode, encodeValue_eq v hv, encodeValue_eq w hw, hcanon]

theorem agree_of_canonicalEncoding {v : Value} (hv : dataModel v) (h : CanonicalEncoding v) :
    all agreeNode v := by
  obtain ⟨out, w, hencode, hreordered, hcanonical, -⟩ := h
  obtain ⟨hw, hcanon⟩ := hreordered.canon_eq hv
  obtain ⟨hwrites, rfl⟩ := (writes_iff w out).1 hcanonical
  rw [encode, encodeValue_eq v hv, Except.ok.injEq] at hencode
  -- Bytes are those of one tree, so that the tree that was written is the canonical one.
  have hsmall := small_of_dataModel ((dataModel_canon v).2 hv)
  obtain ⟨heq, -⟩ := bytesOf_append_inj (canon v) hsmall w (small_of_dataModel hw) [] []
    (by rw [hencode])
  exact (all_writesNode_canon hv).1 (heq ▸ hwrites)

/-- The encoding of a value is canonical if no map has two keys of one length that the orders put
    the other way round, and only then. -/
theorem canonicalEncoding_iff (v : Value) (hv : dataModel v) :
    CanonicalEncoding v ↔ all agreeNode v := by
  refine ⟨agree_of_canonicalEncoding hv, fun h => ?_⟩
  have hencode : encode v = .ok (bytesOf (canon v)) := encodeValue_eq v hv
  exact ⟨_, canon v, hencode, reordered_canon v,
    (writes_iff _ _).2 ⟨(all_writesNode_canon hv).2 h, rfl⟩,
    fun v' hv' => (encode_reordered hv hv').trans hencode⟩

def plainKeys : Value :=
  .object [("b", .int 300), ("aa", .link ⟨[0x01, 0x71, 0x12]⟩), ("a", .array [.text "é"])]

theorem canonicalEncoding_plainKeys : CanonicalEncoding plainKeys :=
  (canonicalEncoding_iff plainKeys (by decide +kernel)).2 (by decide +kernel)

/-- A map with a key of one character above U+FFFF, and a key of U+E000 and a letter. -/
def astrayKeys : Value :=
  .object [(String.ofList [Char.ofNat 0xe000, 'a'], .null),
    (String.ofList [Char.ofNat 0x10000], .null)]

theorem not_canonicalEncoding : ¬ ∀ v, dataModel v → CanonicalEncoding v := by
  intro h
  have hagree := agree_of_canonicalEncoding (by decide +kernel) (h astrayKeys (by decide +kernel))
  exact absurd hagree (by decide +kernel)

end ComputeContract.Cbor
