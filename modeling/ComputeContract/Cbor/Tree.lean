import ComputeContract.Util.TextOrder
import ComputeContract.Cbor.RoundTrip

/-!
# Encodings as trees

The encoder writes a value of the data model item by item, each behind its head, the fields of a
map in the order of its sorted keys. What is written is the value in its canonical form, whose
maps are in that order already.

* `dataModel`: the values that can be encoded, by a check of every value nested in them (`all`);
* `bytesOf`: the items of a value behind their heads, its maps in the order they are in;
* `encodeValue_eq`: the encoder writes the canonical form;
* `bytesOf_append_inj`: bytes are those of one value only.
-/

namespace ComputeContract.Cbor

open AssocList

/-! ## Nested values -/

section
variable {P : Value → Prop} (null : P .null) (undefined : P .undefined) (bool : ∀ b, P (.bool b))
  (int : ∀ i, P (.int i)) (float : ∀ x, P (.float x)) (text : ∀ s, P (.text s))
  (bytes : ∀ bs, P (.bytes bs)) (array : ∀ xs, (∀ x ∈ xs, P x) → P (.array xs))
  (object : ∀ fields, (∀ e ∈ fields, P e.2) → P (.object fields)) (link : ∀ cid, P (.link cid))

include null undefined bool int float text bytes array object link

set_option linter.unusedSectionVars false

mutual

/-- What holds of a value if it does of its items, and of its fields, holds of all values. -/
@[elab_as_elim]
theorem induct : ∀ v, P v
  | .null => null
  | .undefined => undefined
  | .bool b => bool b
  | .int i => int i
  | .float x => float x
  | .text s => text s
  | .bytes bs => bytes bs
  | .array xs => array xs (inductItems xs)
  | .object fields => object fields (inductFields fields)
  | .link cid => link cid

theorem inductItems : ∀ xs : List Value, ∀ x ∈ xs, P x
  | [] => fun _ h => absurd h List.not_mem_nil
  | x :: xs => List.forall_mem_cons.2 ⟨induct x, inductItems xs⟩

theorem inductFields : ∀ fields : List (String × Value), ∀ e ∈ fields, P e.2
  | [] => fun _ h => absurd h List.not_mem_nil
  | (_, val) :: fields => List.forall_mem_cons.2 ⟨induct val, inductFields fields⟩

end

end

mutual

/-- A check holds of a value and of all that is nested in it. -/
def all (p : Value → Bool) : Value → Bool
  | .array xs => p (.array xs) && allItems p xs
  | .object fields => p (.object fields) && allFields p fields
  | v => p v

def allItems (p : Value → Bool) : List Value → Bool
  | [] => true
  | x :: xs => all p x && allItems p xs

def allFields (p : Value → Bool) : List (String × Value) → Bool
  | [] => true
  | (_, val) :: fs => all p val && allFields p fs

end

section
variable {p : Value → Bool} {xs : List Value} {fields : List (String × Value)}

theorem allItems_iff : allItems p xs ↔ ∀ x ∈ xs, all p x := by
  induction xs with
  | nil => simp [allItems]
  | cons x xs ih => simp [allItems, ih]

theorem allFields_iff : allFields p fields ↔ ∀ e ∈ fields, all p e.2 := by
  induction fields with
  | nil => simp [allFields]
  | cons e fields ih => simp [allFields, ih]

theorem all_array : all p (.array xs) ↔ p (.array xs) ∧ ∀ x ∈ xs, all p x := by
  rw [all, Bool.and_eq_true, allItems_iff]

theorem all_object : all p (.object fields) ↔ p (.object fields) ∧ ∀ e ∈ fields, all p e.2 := by
  rw [all, Bool.and_eq_true, allFields_iff]

theorem of_all {v : Value} (h : all p v) : p v := by
  cases v with
  | array xs => exact (all_array.1 h).1
  | object fields => exact (all_object.1 h).1
  | _ => exact h

/-! ## Canonical forms -/

theorem canonItems_eq (xs : List Value) : canonItems xs = xs.map canon := by
  induction xs with
  | nil => rfl
  | cons x xs ih => rw [canonItems, ih, List.map_cons]

theorem canonFields_eq (fields : List (String × Value)) :
    canonFields fields = fields.map fun e => (e.1, canon e.2) := by
  induction fields with
  | nil => rfl
  | cons e fields ih => rw [canonFields, ih, List.map_cons]

theorem keys_canonFields (fields : List (String × Value)) :
    keys (canonFields fields) = keys fields := by
  rw [canonFields_eq, keys, List.map_map]
  rfl

/-- The canonical form of a map has its keys. -/
theorem keys_sortKeys_canonFields (fields : List (String × Value)) :
    (keys (sortKeys (canonFields fields))).Perm (keys fields) := by
  rw [← keys_canonFields fields]
  exact (perm_sortKeys _).map Prod.fst

theorem mem_sortKeys_canonFields {e : String × Value} :
    e ∈ sortKeys (canonFields fields) ↔ ∃ e' ∈ fields, (e'.1, canon e'.2) = e := by
  rw [(perm_sortKeys _).mem_iff, canonFields_eq, List.mem_map]

end

/-- A check holds of a canonical form if another one does of the value, when this is so value by
    value. -/
theorem all_canon {p q : Value → Bool} (h : ∀ v, p (canon v) ↔ q v) (v : Value) :
    all p (canon v) ↔ all q v := by
  induction v using induct with
  | array xs ih =>
    have hnode := h (.array xs)
    rw [canon] at hnode ⊢
    rw [all_array, all_array, hnode, canonItems_eq, List.forall_mem_map]
    exact and_congr_right fun _ => forall₂_congr ih
  | object fields ih =>
    have hnode := h (.object fields)
    rw [canon] at hnode ⊢
    rw [all_object, all_object, hnode]
    refine and_congr_right fun _ => ⟨fun h e he => ?_, fun h e he => ?_⟩
    · exact (ih e he).1 (h _ (mem_sortKeys_canonFields.2 ⟨e, he, rfl⟩))
    · obtain ⟨e', he', rfl⟩ := mem_sortKeys_canonFields.1 he
      exact (ih e' he').2 (h e' he')
  | _ => exact h _

theorem all_and {p q : Value → Bool} (v : Value) :
    all (fun v => p v && q v) v ↔ all p v ∧ all q v := by
  induction v using induct with
  | array xs ih =>
    rw [all_array, all_array, all_array, forall₂_congr ih, Bool.and_eq_true,
      and_and_and_comm, ← forall₂_and]
  | object fields ih =>
    rw [all_object, all_object, all_object, forall₂_congr ih, Bool.and_eq_true,
      and_and_and_comm, ← forall₂_and]
  | _ => exact Bool.and_eq_true _ _ ▸ Iff.rfl

/-! ## The data model -/

/-- A value of the data model, by itself. Its lengths are those of JavaScript values. -/
def dataNode : Value → Bool
  | .null | .bool _ => true
  | .int i => i.natAbs ≤ MAX_SAFE_INTEGER
  | .text s => (textEncode s).length ≤ MAX_SAFE_INTEGER
  | .bytes bs => bs.length ≤ MAX_SAFE_INTEGER
  | .array xs => xs.length ≤ MAX_SAFE_INTEGER
  | .object fields => fields.length ≤ MAX_SAFE_INTEGER ∧ (keys fields).Nodup ∧
      ∀ key ∈ keys fields, key ≠ "$link" ∧ key ≠ "__proto__" ∧
        (textEncode key).length ≤ MAX_SAFE_INTEGER
  | .link cid => cid.bytes.length < MAX_SAFE_INTEGER ∧ cid.bytes.head? = some 1
  | .undefined | .float _ => false

/-- The values that have an encoding. -/
def dataModel (v : Value) : Bool := all dataNode v

theorem dataNode_object {fields : List (String × Value)} : dataNode (.object fields) ↔
    fields.length ≤ MAX_SAFE_INTEGER ∧ (keys fields).Nodup ∧
      ∀ key ∈ keys fields, key ≠ "$link" ∧ key ≠ "__proto__" ∧
        (textEncode key).length ≤ MAX_SAFE_INTEGER := by
  rw [dataNode, decide_eq_true_eq]

theorem dataNode_canon (v : Value) : dataNode (canon v) ↔ dataNode v := by
  cases v with
  | array xs => rw [canon, dataNode, dataNode, canonItems_eq, List.length_map]
  | object fields =>
    have hkeys := keys_sortKeys_canonFields fields
    rw [canon, dataNode_object, dataNode_object, hkeys.nodup_iff, length_sortKeys, canonFields_eq,
      List.length_map]
    simp only [← canonFields_eq, hkeys.mem_iff]
  | _ => exact Iff.rfl

theorem dataModel_canon (v : Value) : dataModel (canon v) ↔ dataModel v :=
  all_canon dataNode_canon v

/-! ## Bytes -/

/-- The major type of the head of a value. -/
def majorOf : Value → ℕ
  | .int i => if 0 ≤ i then MAJOR_UINT else MAJOR_NEG
  | .bytes _ => MAJOR_BYTES
  | .text _ => MAJOR_TEXT
  | .array _ => MAJOR_ARRAY
  | .object _ => MAJOR_MAP
  | .link _ => MAJOR_TAG
  | .null | .bool _ | .undefined | .float _ => MAJOR_SIMPLE

/-- The number in the head of a value. -/
def argOf : Value → ℕ
  | .int i => if 0 ≤ i then i.toNat else (-1 - i).toNat
  | .bytes bs => bs.length
  | .text s => (textEncode s).length
  | .array xs => xs.length
  | .object fields => fields.length
  | .link _ => TAG_CID
  | .bool true => SIMPLE_TRUE
  | .bool false => SIMPLE_FALSE
  | .null | .undefined | .float _ => SIMPLE_NULL

mutual

/-- What follows the head of a value. -/
def bodyOf : Value → Bytes
  | .bytes bs => bs
  | .text s => textEncode s
  | .array xs => itemsOf xs
  | .object fields => fieldsOf fields
  | .link cid => writeHeader MAJOR_BYTES (cid.bytes.length + 1) ++ 0x00 :: cid.bytes
  | .int _ | .null | .bool _ | .undefined | .float _ => []

def itemsOf : List Value → Bytes
  | [] => []
  | x :: xs => writeHeader (majorOf x) (argOf x) ++ bodyOf x ++ itemsOf xs

def fieldsOf : List (String × Value) → Bytes
  | [] => []
  | (key, val) :: fs =>
    encodeText key ++ (writeHeader (majorOf val) (argOf val) ++ bodyOf val) ++ fieldsOf fs

end

/-- A value behind its head, the fields of its maps in the order they are in. -/
def bytesOf (v : Value) : Bytes := writeHeader (majorOf v) (argOf v) ++ bodyOf v

theorem itemsOf_cons (x : Value) (xs : List Value) :
    itemsOf (x :: xs) = bytesOf x ++ itemsOf xs := by
  rw [itemsOf]
  rfl

theorem fieldsOf_cons (key : String) (val : Value) (fs : List (String × Value)) :
    fieldsOf ((key, val) :: fs) = encodeText key ++ bytesOf val ++ fieldsOf fs := by
  rw [fieldsOf]
  rfl

theorem encodeFields_eq (fields : List (String × Value)) :
    encodeFields fields = fields.map fun e => (e.1, encodeValue e.2) := by
  induction fields with
  | nil => rfl
  | cons e fields ih => rw [encodeFields, ih, List.map_cons]

theorem joinFields_ok (fields : List (String × Value)) :
    joinFields (fields.map fun e => (e.1, .ok (bytesOf e.2))) = .ok (fieldsOf fields) := by
  induction fields with
  | nil => rfl
  | cons e fields ih =>
    rw [List.map_cons, joinFields, ih, fieldsOf_cons]
    rfl

theorem encodeItems_ok {xs : List Value} (h : ∀ x ∈ xs, encodeValue x = .ok (bytesOf (canon x))) :
    encodeItems xs = .ok (itemsOf (canonItems xs)) := by
  induction xs with
  | nil => rfl
  | cons x xs ih =>
    obtain ⟨hx, hxs⟩ := List.forall_mem_cons.1 h
    rw [encodeItems, hx, ih hxs, canonItems, itemsOf_cons]
    rfl

theorem linkField_of_not_mem {fields : List (String × Value)} (h : "$link" ∉ keys fields) :
    linkField fields = none := by
  rw [linkField, lookup_eq_none_iff.2 h]

/-- The encoder writes the canonical form. -/
theorem encodeValue_eq (v : Value) (h : dataModel v) : encodeValue v = .ok (bytesOf (canon v)) := by
  induction v using induct with
  | undefined => cases h
  | float => cases h
  | null => rfl
  | bool b => cases b <;> rfl
  | int i =>
    have hsafe : i.natAbs ≤ MAX_SAFE_INTEGER := of_decide_eq_true h
    rw [encodeValue, if_pos hsafe, canon, bytesOf, bodyOf, List.append_nil, majorOf, argOf]
    · split_ifs <;> rfl
    · nofun
    · nofun
  | text s => rfl
  | bytes bs => rfl
  | link cid => rfl
  | array xs ih =>
    obtain ⟨-, hxs⟩ := all_array.1 h
    rw [encodeValue, encodeItems_ok fun x hx => ih x hx (hxs x hx)]
    have hlength : (canonItems xs).length = xs.length := by rw [canonItems_eq, List.length_map]
    rw [canon, bytesOf, majorOf, argOf, bodyOf, hlength]
    rfl
  | object fields ih =>
    obtain ⟨hnode, hfields⟩ := all_object.1 h
    obtain ⟨-, -, hkeys⟩ := dataNode_object.1 hnode
    have hlink : linkField fields = none :=
      linkField_of_not_mem fun hmem => (hkeys _ hmem).1 rfl
    have hvals : encodeFields fields =
        (canonFields fields).map fun e => (e.1, .ok (bytesOf e.2)) := by
      rw [encodeFields_eq, canonFields_eq, List.map_map]
      exact List.map_congr_left fun e he => by rw [ih e he (hfields e he), Function.comp_apply]
    have hlength : (sortKeys (canonFields fields)).length = fields.length := by
      rw [length_sortKeys, canonFields_eq, List.length_map]
    rw [encodeValue]
    have hout : joinFields (sortKeys (encodeFields fields)) =
        .ok (fieldsOf (sortKeys (canonFields fields))) := by
      rw [hvals, sortKeys_map fun v => Except.ok (bytesOf v), joinFields_ok]
    rw [hlink, hout, canon, bytesOf, majorOf, argOf, bodyOf, hlength]
    rfl

/-! ## Reading bytes in one way -/

/-- The number of a head, without the operators of 32 bits. -/
def headValue (ai : ℕ) : Decoder ℕ :=
  if ai < 24 then pure ai
  else if ai = AI_1BYTE then readUInt 1
  else if ai = AI_2BYTE then readUInt 2
  else if ai = AI_4BYTE then readUInt 4
  else readUInt 8

/-- The next head. -/
def headOf : Decoder (ℕ × ℕ) := do
  let b ← readByte
  let value ← headValue (b.toNat % 32)
  return (b.toNat / 32, value)

theorem headOf_cons {major ai value : ℕ} (hm : major < 8) (ha : ai < 32) {bs rest : Bytes}
    (h : headValue ai bs = .ok (value, rest)) :
    headOf ((major * 32 + ai).toUInt8 :: bs) = .ok ((major, value), rest) := by
  obtain ⟨hq, hr⟩ := toNat_headerByte hm ha
  rw [headOf, bind_of_ok (readByte_cons _ _), hq, hr, bind_of_ok h]
  rfl

theorem headOf_writeHeader {major value : ℕ} (hm : major < 8) (hv : value < 2 ^ 64)
    (rest : Bytes) : headOf (writeHeader major value ++ rest) = .ok ((major, value), rest) := by
  rw [writeHeader]
  split_ifs with h₁ h₂ h₃ h₄
  · exact headOf_cons hm (by omega) (by rw [headValue, if_pos h₁]; rfl)
  · have hmod : value % 256 ^ 1 = value := Nat.mod_eq_of_lt (by omega)
    exact headOf_cons hm (by decide) ((readUInt_bigEndian value 1 rest).trans (by rw [hmod]))
  · have hmod : value % 256 ^ 2 = value := Nat.mod_eq_of_lt (by omega)
    exact headOf_cons hm (by decide) ((readUInt_bigEndian value 2 rest).trans (by rw [hmod]))
  · have hmod : value % 256 ^ 4 = value := Nat.mod_eq_of_lt (by omega)
    exact headOf_cons hm (by decide) ((readUInt_bigEndian value 4 rest).trans (by rw [hmod]))
  · have hmod : value % 256 ^ 8 = value := Nat.mod_eq_of_lt (by omega)
    exact headOf_cons hm (by decide) ((readUInt_bigEndian value 8 rest).trans (by rw [hmod]))

/-- A head is read in one way. -/
theorem writeHeader_append_inj {major major' value value' : ℕ} (hm : major < 8) (hm' : major' < 8)
    (hv : value < 2 ^ 64) (hv' : value' < 2 ^ 64) {rest rest' : Bytes}
    (h : writeHeader major value ++ rest = writeHeader major' value' ++ rest') :
    major = major' ∧ value = value' ∧ rest = rest' := by
  have hread := headOf_writeHeader hm hv rest
  rw [h, headOf_writeHeader hm' hv' rest', Except.ok.injEq, Prod.mk.injEq, Prod.mk.injEq] at hread
  exact ⟨hread.1.1.symm, hread.1.2.symm, hread.2.symm⟩

/-- The first byte of a head tells whether eight others follow. -/
theorem writeHeader_cons (major value : ℕ) : ∃ ai < 32, ∃ tail,
    writeHeader major value = (major * 32 + ai).toUInt8 :: tail ∧ (ai = 27 ↔ 2 ^ 32 ≤ value) := by
  rw [writeHeader]
  split_ifs with h₁ h₂ h₃ h₄
  · exact ⟨value, by omega, _, rfl, by omega⟩
  · exact ⟨24, by decide, _, rfl, by omega⟩
  · exact ⟨25, by decide, _, rfl, by omega⟩
  · exact ⟨26, by decide, _, rfl, by omega⟩
  · exact ⟨27, by decide, _, rfl, by omega⟩

/-- A head with a number below `2 ^ 32` is only read as itself, whatever is written as another. -/
theorem writeHeader_append_inj_of_lt {major major' value value' : ℕ} (hm : major < 8)
    (hm' : major' < 8) (hv' : value' < 2 ^ 32) {rest rest' : Bytes}
    (h : writeHeader major value ++ rest = writeHeader major' value' ++ rest') :
    major = major' ∧ value = value' ∧ rest = rest' := by
  have hv : value < 2 ^ 32 := by
    obtain ⟨ai, hai, tail, heq, hlarge⟩ := writeHeader_cons major value
    obtain ⟨ai', hai', tail', heq', hlarge'⟩ := writeHeader_cons major' value'
    rw [heq, heq', List.cons_append, List.cons_append] at h
    have hfirst := congrArg (fun b => b.toNat % 32) (List.cons.inj h).1
    rw [(toNat_headerByte hm hai).2, (toNat_headerByte hm' hai').2] at hfirst
    omega
  exact writeHeader_append_inj hm hm' (by omega) (by omega) h

theorem majorOf_lt (v : Value) : majorOf v < 8 := by
  cases v with
  | int i =>
    rw [majorOf]
    split_ifs <;> decide
  | _ =>
    rw [majorOf]
    decide

/-- A value whose heads have numbers of eight bytes at most, by itself. -/
def smallNode : Value → Bool
  | .undefined | .float _ => false
  | .object fields => fields.length < 2 ^ 64 ∧ ∀ key ∈ keys fields, (textEncode key).length < 2 ^ 64
  | .link cid => cid.bytes.length + 1 < 2 ^ 64
  | .null | .bool _ => true
  | .int i => argOf (.int i) < 2 ^ 64
  | .text s => (textEncode s).length < 2 ^ 64
  | .bytes bs => bs.length < 2 ^ 64
  | .array xs => xs.length < 2 ^ 64

def small (v : Value) : Bool := all smallNode v

theorem smallNode_object {fields : List (String × Value)} : smallNode (.object fields) ↔
    fields.length < 2 ^ 64 ∧ ∀ key ∈ keys fields, (textEncode key).length < 2 ^ 64 := by
  rw [smallNode, decide_eq_true_eq]

theorem all_imp {p q : Value → Bool} (h : ∀ v, p v → q v) (v : Value) (hv : all p v) : all q v := by
  induction v using induct with
  | array xs ih =>
    obtain ⟨hnode, hxs⟩ := all_array.1 hv
    exact all_array.2 ⟨h _ hnode, fun x hx => ih x hx (hxs x hx)⟩
  | object fields ih =>
    obtain ⟨hnode, hfields⟩ := all_object.1 hv
    exact all_object.2 ⟨h _ hnode, fun e he => ih e he (hfields e he)⟩
  | _ => exact h _ hv

theorem smallNode_of_dataNode {v : Value} (h : dataNode v) : smallNode v := by
  have hmax : MAX_SAFE_INTEGER = 9007199254740991 := rfl
  cases v with
  | undefined => cases h
  | float => cases h
  | null => rfl
  | bool b => rfl
  | int i =>
    have hsafe : i.natAbs ≤ MAX_SAFE_INTEGER := of_decide_eq_true h
    refine decide_eq_true ?_
    rw [argOf]
    split_ifs <;> omega
  | text s => exact decide_eq_true ((of_decide_eq_true h).trans_lt (by omega))
  | bytes bs => exact decide_eq_true ((of_decide_eq_true h).trans_lt (by omega))
  | array xs => exact decide_eq_true ((of_decide_eq_true h).trans_lt (by omega))
  | object fields =>
    obtain ⟨hlength, -, hkeys⟩ := dataNode_object.1 h
    exact smallNode_object.2 ⟨hlength.trans_lt (by omega),
      fun key hkey => (hkeys key hkey).2.2.trans_lt (by omega)⟩
  | link cid =>
    have hlength : cid.bytes.length < MAX_SAFE_INTEGER := (of_decide_eq_true h).1
    exact decide_eq_true (by omega)

theorem small_of_dataModel {v : Value} (h : dataModel v) : small v :=
  all_imp (fun _ => smallNode_of_dataNode) v h

theorem argOf_lt {v : Value} (h : small v) : argOf v < 2 ^ 64 := by
  have hnode := of_all h
  cases v with
  | int i => exact of_decide_eq_true hnode
  | text s => exact of_decide_eq_true hnode
  | bytes bs => exact of_decide_eq_true hnode
  | array xs => exact of_decide_eq_true hnode
  | object fields => exact (smallNode_object.1 hnode).1
  | bool b => cases b <;> decide
  | _ =>
    rw [argOf]
    decide

theorem encodeText_append_inj {s s' : String} (hs : (textEncode s).length < 2 ^ 64)
    (hs' : (textEncode s').length < 2 ^ 64) {rest rest' : Bytes}
    (h : encodeText s ++ rest = encodeText s' ++ rest') : s = s' ∧ rest = rest' := by
  rw [encodeText, encodeText, List.append_assoc, List.append_assoc] at h
  obtain ⟨-, hlength, h⟩ :=
    writeHeader_append_inj (by decide) (by decide) hs hs' h
  obtain ⟨hbytes, hrest⟩ := List.append_inj h hlength
  exact ⟨textEncode_injective hbytes, hrest⟩

theorem encodeText_append_inj_of_lt {s s' : String} (hs' : (textEncode s').length < 2 ^ 32)
    {rest rest' : Bytes} (h : encodeText s ++ rest = encodeText s' ++ rest') :
    s = s' ∧ rest = rest' := by
  rw [encodeText, encodeText, List.append_assoc, List.append_assoc] at h
  obtain ⟨-, hlength, h⟩ := writeHeader_append_inj_of_lt (by decide) (by decide) hs' h
  obtain ⟨hbytes, hrest⟩ := List.append_inj h hlength
  exact ⟨textEncode_injective hbytes, hrest⟩

/-- Items one after the other are read in one way, if each of them is. -/
theorem itemsOf_append_inj {xs ys : List Value} {rest rest' : Bytes}
    (ih : ∀ x ∈ xs, ∀ y, small y → ∀ rest rest', bytesOf x ++ rest = bytesOf y ++ rest' →
      x = y ∧ rest = rest')
    (hys : ∀ y ∈ ys, small y) (hlength : xs.length = ys.length)
    (h : itemsOf xs ++ rest = itemsOf ys ++ rest') : xs = ys ∧ rest = rest' := by
  induction xs generalizing ys with
  | nil =>
    obtain rfl := List.eq_nil_of_length_eq_zero hlength.symm
    exact ⟨rfl, h⟩
  | cons x xs ihxs =>
    cases ys with
    | nil => cases hlength
    | cons y ys =>
      obtain ⟨hx, hxs⟩ := List.forall_mem_cons.1 ih
      obtain ⟨hy, hys⟩ := List.forall_mem_cons.1 hys
      rw [itemsOf_cons, itemsOf_cons, List.append_assoc, List.append_assoc] at h
      obtain ⟨hxy, h⟩ := hx y hy _ _ h
      obtain ⟨hxys, h⟩ := ihxs hxs hys (Nat.succ_injective hlength) h
      exact ⟨by rw [hxy, hxys], h⟩

theorem fieldsOf_append_inj {fs gs : List (String × Value)} {rest rest' : Bytes}
    (ih : ∀ e ∈ fs, ∀ w, small w → ∀ rest rest', bytesOf e.2 ++ rest = bytesOf w ++ rest' →
      e.2 = w ∧ rest = rest')
    (hgs : ∀ e ∈ gs, small e.2) (hlength : fs.length = gs.length)
    (hfkeys : ∀ key ∈ keys fs, (textEncode key).length < 2 ^ 64)
    (hgkeys : ∀ key ∈ keys gs, (textEncode key).length < 2 ^ 64)
    (h : fieldsOf fs ++ rest = fieldsOf gs ++ rest') : fs = gs ∧ rest = rest' := by
  induction fs generalizing gs with
  | nil =>
    obtain rfl := List.eq_nil_of_length_eq_zero hlength.symm
    exact ⟨rfl, h⟩
  | cons e fs ihfs =>
    cases gs with
    | nil => cases hlength
    | cons e' gs =>
      obtain ⟨key, val⟩ := e
      obtain ⟨key', val'⟩ := e'
      obtain ⟨hval, hfs⟩ := List.forall_mem_cons.1 ih
      obtain ⟨hval', hgs⟩ := List.forall_mem_cons.1 hgs
      obtain ⟨hkey, hfkeys⟩ := List.forall_mem_cons.1 hfkeys
      obtain ⟨hkey', hgkeys⟩ := List.forall_mem_cons.1 hgkeys
      rw [fieldsOf_cons, fieldsOf_cons, List.append_assoc, List.append_assoc, List.append_assoc,
        List.append_assoc] at h
      obtain ⟨hkeys, h⟩ := encodeText_append_inj hkey hkey' h
      obtain ⟨hvals, h⟩ := hval val' hval' _ _ h
      obtain ⟨hrest, h⟩ := ihfs hfs hgs (Nat.succ_injective hlength) hfkeys hgkeys h
      exact ⟨congrArg₂ List.cons (Prod.ext hkeys hvals) hrest, h⟩

/-- The values that have bytes, by the major type of their heads. -/
inductive Kind : Value → ℕ → Prop
  | null : Kind .null 7
  | true : Kind (.bool true) 7
  | false : Kind (.bool false) 7
  | uint (n : ℕ) : Kind (.int n) 0
  | nint (n : ℕ) : Kind (.int (-1 - n)) 1
  | bytes (bs : Bytes) : Kind (.bytes bs) 2
  | text (s : String) : Kind (.text s) 3
  | array (xs : List Value) : Kind (.array xs) 4
  | object (fields : List (String × Value)) : Kind (.object fields) 5
  | link (cid : Cid) : Kind (.link cid) 6

theorem majorOf_natCast (n : ℕ) : majorOf (.int n) = 0 ∧ argOf (.int n) = n := by
  rw [majorOf, argOf, if_pos (Int.natCast_nonneg n), if_pos (Int.natCast_nonneg n)]
  exact ⟨rfl, Int.toNat_natCast n⟩

theorem majorOf_neg (n : ℕ) : majorOf (.int (-1 - n)) = 1 ∧ argOf (.int (-1 - n)) = n := by
  have hneg : ¬ (0 : ℤ) ≤ -1 - n := by omega
  rw [majorOf, argOf, if_neg hneg, if_neg hneg]
  exact ⟨rfl, by omega⟩

theorem kind_majorOf {v : Value} (h : small v) : Kind v (majorOf v) := by
  cases v with
  | undefined => cases h
  | float => cases h
  | null => exact .null
  | bool b =>
    cases b
    · exact .false
    · exact .true
  | int i =>
    rcases Int.le_total 0 i with hi | hi
    · obtain ⟨n, rfl⟩ := Int.eq_ofNat_of_zero_le hi
      rw [(majorOf_natCast n).1]
      exact .uint n
    · by_cases hzero : i = 0
      · subst hzero
        exact .uint 0
      · obtain ⟨n, rfl⟩ : ∃ n : ℕ, i = -1 - n := ⟨(-1 - i).toNat, by omega⟩
        rw [(majorOf_neg n).1]
        exact .nint n
  | bytes bs => exact .bytes bs
  | text s => exact .text s
  | array xs => exact .array xs
  | object fields => exact .object fields
  | link cid => exact .link cid

/-- Two values with the same bytes have the same head. -/
theorem heads_eq {v w : Value} (hv : small v) (hw : small w) {rest rest' : Bytes}
    (h : bytesOf v ++ rest = bytesOf w ++ rest') :
    Kind w (majorOf v) ∧ argOf v = argOf w ∧ bodyOf v ++ rest = bodyOf w ++ rest' := by
  rw [bytesOf, bytesOf, List.append_assoc, List.append_assoc] at h
  obtain ⟨hmajor, harg, hbody⟩ :=
    writeHeader_append_inj (majorOf_lt v) (majorOf_lt w) (argOf_lt hv) (argOf_lt hw) h
  exact ⟨hmajor ▸ kind_majorOf hw, harg, hbody⟩

/-- Bytes are those of one value only, and it is known where they end. -/
theorem bytesOf_append_inj (v : Value) (hv : small v) : ∀ w, small w →
    ∀ rest rest', bytesOf v ++ rest = bytesOf w ++ rest' → v = w ∧ rest = rest' := by
  induction v using induct with
  | undefined => cases hv
  | float => cases hv
  | null =>
    intro w hw rest rest' h
    obtain ⟨hkind, harg, hbody⟩ := heads_eq hv hw h
    change Kind w 7 at hkind
    cases hkind with
    | null => exact ⟨rfl, hbody⟩
    | true | false => exact absurd harg (by decide)
  | bool b =>
    intro w hw rest rest' h
    obtain ⟨hkind, harg, hbody⟩ := heads_eq hv hw h
    change Kind w 7 at hkind
    cases hkind with
    | null => cases b <;> exact absurd harg (by decide)
    | true =>
      cases b
      · exact absurd harg (by decide)
      · exact ⟨rfl, hbody⟩
    | false =>
      cases b
      · exact ⟨rfl, hbody⟩
      · exact absurd harg (by decide)
  | int i =>
    intro w hw rest rest' h
    obtain ⟨hkind, harg, hbody⟩ := heads_eq hv hw h
    have hi := kind_majorOf hv
    generalize majorOf (.int i) = major at hi hkind
    cases hi with
    | uint n =>
      cases hkind with
      | uint n' =>
        rw [(majorOf_natCast n).2, (majorOf_natCast n').2] at harg
        exact ⟨by rw [harg], hbody⟩
    | nint n =>
      cases hkind with
      | nint n' =>
        rw [(majorOf_neg n).2, (majorOf_neg n').2] at harg
        exact ⟨by rw [harg], hbody⟩
  | bytes bs =>
    intro w hw rest rest' h
    obtain ⟨hkind, harg, hbody⟩ := heads_eq hv hw h
    cases hkind with
    | bytes bs' =>
      obtain ⟨rfl, hrest⟩ := List.append_inj hbody harg
      exact ⟨rfl, hrest⟩
  | text s =>
    intro w hw rest rest' h
    obtain ⟨hkind, harg, hbody⟩ := heads_eq hv hw h
    cases hkind with
    | text s' =>
      obtain ⟨hbytes, hrest⟩ := List.append_inj hbody harg
      exact ⟨congrArg Value.text (textEncode_injective hbytes), hrest⟩
  | link cid =>
    intro w hw rest rest' h
    obtain ⟨hkind, harg, hbody⟩ := heads_eq hv hw h
    cases hkind with
    | link cid' =>
      rw [bodyOf, bodyOf, List.append_assoc, List.append_assoc] at hbody
      obtain ⟨-, hsame, hbody⟩ :=
        writeHeader_append_inj (by decide) (by decide) (of_decide_eq_true hv)
          (of_decide_eq_true hw) hbody
      obtain ⟨hbytes, hrest⟩ := List.append_inj hbody (by simpa using hsame)
      obtain ⟨cid⟩ := cid
      obtain ⟨cid'⟩ := cid'
      obtain rfl := (List.cons.inj hbytes).2
      exact ⟨rfl, hrest⟩
  | array xs ih =>
    intro w hw rest rest' h
    obtain ⟨hkind, harg, hbody⟩ := heads_eq hv hw h
    cases hkind with
    | array ys =>
      obtain ⟨rfl, hrest⟩ := itemsOf_append_inj (fun x hx => ih x hx ((all_array.1 hv).2 x hx))
        (all_array.1 hw).2 harg hbody
      exact ⟨rfl, hrest⟩
  | object fields ih =>
    intro w hw rest rest' h
    obtain ⟨hkind, harg, hbody⟩ := heads_eq hv hw h
    cases hkind with
    | object gs =>
      obtain ⟨hnode, hfields⟩ := all_object.1 hv
      obtain ⟨hnode', hgs⟩ := all_object.1 hw
      obtain ⟨rfl, hrest⟩ := fieldsOf_append_inj (fun e he => ih e he (hfields e he)) hgs harg
        (smallNode_object.1 hnode).2 (smallNode_object.1 hnode').2 hbody
      exact ⟨rfl, hrest⟩

/-- Two values with the same encoding have the same canonical form. -/
theorem canon_eq_of_encode_eq {v w : Value} (hv : dataModel v) (hw : dataModel w)
    (h : encode v = encode w) : canon v = canon w := by
  rw [encode, encode, encodeValue_eq v hv, encodeValue_eq w hw, Except.ok.injEq] at h
  exact (bytesOf_append_inj (canon v) (small_of_dataModel ((dataModel_canon v).2 hv)) (canon w)
    (small_of_dataModel ((dataModel_canon w).2 hw)) [] [] (by rw [h])).1

end ComputeContract.Cbor
