import ComputeContract.Lib.Except
import ComputeContract.Cbor.Returns

/-!
# What the decoder accepts

The format is a subset of CBOR: integers, byte strings, texts, arrays, maps with texts as keys,
the tag 42, and three simple values, each behind a head of any width that holds its number. The
decoder looks only at the number of a head, and at 32 bits of it at a time: it takes a float or a
long simple value for `false`, a large number for a negative one, bytes that are not UTF-8 for a
text, and of two entries of one key the last.

* `Item`: the bytes that are a value in the format;
* `reads_of_item`: the items that are read as what they are;
* `all_keptNode_of_decode`: no others are;
* `decode_sound_iff`: when a buffer that is accepted begins with an item that means its value.
-/

namespace ComputeContract.Cbor

open AssocList

/-! ## The format -/

/-- Bytes that are a text: its UTF-8 behind a head. -/
inductive TextItem : String → Bytes → Prop
  | mk {s : String} {head : Bytes} :
      Head 3 (textEncode s).length head → TextItem s (head ++ textEncode s)

mutual

/-- Bytes that are a value. The simple values are in the byte of their head. -/
inductive Item : Value → Bytes → Prop
  | false : Item (.bool false) [0xf4]
  | true : Item (.bool true) [0xf5]
  | null : Item .null [0xf6]
  | uint {n : ℕ} {head : Bytes} : Head 0 n head → Item (.int n) head
  | nint {n : ℕ} {head : Bytes} : Head 1 n head → Item (.int (-1 - n)) head
  | bytes {bs head : Bytes} : Head 2 bs.length head → Item (.bytes bs) (head ++ bs)
  | text {s : String} {out : Bytes} : TextItem s out → Item (.text s) out
  | array {xs : List Value} {head out : Bytes} :
      Head 4 xs.length head → Items xs out → Item (.array xs) (head ++ out)
  | object {fields : List (String × Value)} {head out : Bytes} :
      Head 5 fields.length head → (keys fields).Nodup → Fields fields out →
      Item (.object fields) (head ++ out)
  /-- Tag 42, on the bytes of the CID behind a zero byte. -/
  | link {cid : Cid} {tag head : Bytes} :
      Head 6 42 tag → Head 2 (cid.bytes.length + 1) head →
      Item (.link cid) (tag ++ (head ++ 0x00 :: cid.bytes))

inductive Items : List Value → Bytes → Prop
  | nil : Items [] []
  | cons {x : Value} {xs : List Value} {out outs : Bytes} :
      Item x out → Items xs outs → Items (x :: xs) (out ++ outs)

/-- Each key before its value. -/
inductive Fields : List (String × Value) → Bytes → Prop
  | nil : Fields [] []
  | cons {key : String} {val : Value} {fields : List (String × Value)} {k out outs : Bytes} :
      TextItem key k → Item val out → Fields fields outs →
      Fields ((key, val) :: fields) (k ++ (out ++ outs))

end

/-- A buffer begins with an item that means the value, and the decoder goes on behind it. -/
def Sound (bs : Bytes) (v : Value) : Prop :=
  ∃ out rest, bs = out ++ rest ∧ decodeValue (bs.length + 1) bs = .ok (v, rest) ∧ Item v out

/-- A value whose numbers are read as they are, whose texts begin with no byte order mark, and
    whose fields are kept. -/
def keptNode : Value → Bool
  | .object fields => returnsNode (.object fields) && decide ("__proto__" ∉ keys fields)
  | v => returnsNode v

theorem keptNode_object {fields : List (String × Value)} : keptNode (.object fields) ↔
    headerOk fields.length ∧ ∀ key ∈ keys fields, returnsText key ∧ key ≠ "__proto__" := by
  rw [keptNode, returnsNode, Bool.and_eq_true, decide_eq_true_eq, decide_eq_true_eq, and_assoc]
  refine and_congr_right fun _ => ⟨fun h key hkey => ⟨h.1 key hkey, ?_⟩, fun h => ⟨fun key hkey =>
    (h key hkey).1, fun hmem => (h _ hmem).2 rfl⟩⟩
  rintro rfl
  exact h.2 hkey

/-! ## Heads -/

section
variable {major n : ℕ} {head : Bytes}

theorem Head.length_pos (h : Head major n head) : 0 < head.length := by
  cases h <;> exact Nat.succ_pos _

/-- The number of a head of any width. -/
theorem readHeader_head (hm : major < 8) (h : Head major n head) (hn : headerOk n) (rest : Bytes) :
    readHeader (head ++ rest) = .ok ((major, (n : ℤ)), rest) := by
  cases h with
  | inline hlt =>
    refine readHeader_cons hm (by omega) ?_
    rw [readValue, if_pos hlt]
    rfl
  | wide k hk hlt =>
    rw [List.cons_append]
    refine readHeader_cons hm (by omega) ?_
    have hmod : n % 256 ^ 2 ^ k = n := Nat.mod_eq_of_lt hlt
    have hread := readUInt_bigEndian n (2 ^ k) rest
    rw [hmod] at hread
    obtain rfl | rfl | rfl | rfl : k = 0 ∨ k = 1 ∨ k = 2 ∨ k = 3 := by omega
    · exact bind_of_ok (f := fun n : ℕ => (pure (n : ℤ) : Decoder ℤ)) hread
    · exact bind_of_ok (f := fun n : ℕ => (pure (n : ℤ) : Decoder ℤ)) hread
    · have hlt : n < 2 ^ 31 := by
        simp only [headerOk, decide_eq_true_eq] at hn
        omega
      refine (bind_of_ok (f := fun n : ℕ => (pure (toInt32 n) : Decoder ℤ)) hread).trans ?_
      rw [toInt32_of_lt hlt]
      rfl
    · exact readValue_8BYTE hn rest

theorem toInt32_cases {n : ℕ} (hn : n < 2 ^ 32) :
    n < 2 ^ 31 ∧ toInt32 n = n ∨ 2 ^ 31 ≤ n ∧ toInt32 n = n - 2 ^ 32 := by
  rcases lt_or_ge n (2 ^ 31) with hlt | hge
  · exact .inl ⟨hlt, toInt32_of_lt hlt⟩
  · exact .inr ⟨hge, toInt32_of_le hge hn⟩

/-- A head is read as its number, or, if that is large, as one that is less by 2^32 at least. -/
theorem of_readHeader_head (hm : major < 8) (h : Head major n head) {bs rest : Bytes}
    {m : ℕ} {value : ℤ} (hread : readHeader (head ++ bs) = .ok ((m, value), rest)) :
    m = major ∧ rest = bs ∧
      (headerOk n ∧ value = n ∨ value + 2 ^ 32 ≤ (n : ℤ) ∧ 2 ^ 31 ≤ n) := by
  by_cases hok : headerOk n
  · rw [readHeader_head hm h hok] at hread
    obtain ⟨heq, rfl⟩ := Prod.mk.inj (Except.ok.inj hread)
    obtain ⟨rfl, rfl⟩ := Prod.mk.inj heq
    exact ⟨rfl, rfl, .inl ⟨hok, rfl⟩⟩
  · have hmax : MAX_SAFE_INTEGER = 9007199254740991 := rfl
    have hlow : ¬ (n % 2 ^ 32 < 2 ^ 31 ∧ n ≤ MAX_SAFE_INTEGER) := fun h => hok (decide_eq_true h)
    cases h with
    | inline hlt => omega
    | wide k hk hlt =>
      have hmod : n % 256 ^ 2 ^ k = n := Nat.mod_eq_of_lt hlt
      obtain rfl | rfl | rfl | rfl : k = 0 ∨ k = 1 ∨ k = 2 ∨ k = 3 := by omega
      · omega
      · omega
      · have hnum := readUInt_bigEndian n (2 ^ 2) bs
        rw [hmod] at hnum
        have hvalue : readValue (24 + 2) (bigEndian n (2 ^ 2) ++ bs) = .ok (toInt32 n, bs) :=
          bind_of_ok (f := fun n : ℕ => (pure (toInt32 n) : Decoder ℤ)) hnum
        rw [List.cons_append, readHeader_cons hm (by decide) hvalue] at hread
        obtain ⟨heq, rfl⟩ := Prod.mk.inj (Except.ok.inj hread)
        obtain ⟨rfl, rfl⟩ := Prod.mk.inj heq
        refine ⟨rfl, rfl, .inr ?_⟩
        rcases toInt32_cases (by omega : n < 2 ^ 32) with ⟨hlt, -⟩ | ⟨-, heq⟩ <;> omega
      · rw [List.cons_append] at hread
        obtain ⟨b, bs₁, hb, htail⟩ := bind_eq_ok hread
        obtain ⟨value', bs₂, hvalue, hpure⟩ := bind_eq_ok htail
        obtain ⟨heq, rfl⟩ := pure_eq_ok hpure
        obtain ⟨rfl, rfl⟩ := Prod.mk.inj heq
        obtain ⟨rfl, rfl⟩ := Prod.mk.inj (Except.ok.inj hb)
        obtain ⟨hq, hr⟩ := toNat_headerByte hm (by decide : 24 + 3 < 32)
        rw [hr] at hvalue
        have hhi : n / 256 ^ 4 % 256 ^ 4 = n / 2 ^ 32 := by omega
        have hlo : n % 256 ^ 4 = n % 2 ^ 32 := by omega
        rw [show 2 ^ 3 = 4 + 4 from rfl, bigEndian_add, List.append_assoc] at hvalue
        change (readUInt 4 >>= fun hi => readUInt 4 >>= fun lo =>
          if MAX_SAFE_INTEGER < (toInt32 hi * 0x100000000 + toInt32 lo).natAbs then _
          else pure _) _ = _ at hvalue
        rw [bind_of_ok (readUInt_bigEndian _ 4 _), bind_of_ok (readUInt_bigEndian _ 4 _), hhi,
          hlo] at hvalue
        split_ifs at hvalue with hsafe
        · cases hvalue
        · obtain ⟨rfl, rfl⟩ := pure_eq_ok hvalue
          refine ⟨hq, rfl, .inr ?_⟩
          rcases toInt32_cases (by omega : n / 2 ^ 32 < 2 ^ 32) with ⟨hhi', heq⟩ | ⟨hhi', heq⟩ <;>
            rcases toInt32_cases (by omega : n % 2 ^ 32 < 2 ^ 32) with ⟨hlo', heq'⟩ | ⟨hlo', heq'⟩ <;>
              rw [heq, heq'] at hsafe ⊢ <;> omega

/-- A head and what follows it come back together. -/
theorem reads_of_head {body : Bytes} {v : Value} (hm : major < 8) (h : Head major n head)
    (hn : headerOk n)
    (hbody : ∀ fuel rest, body.length < fuel →
      decodeBody (decodeValue fuel) major n (body ++ rest) = .ok (v, rest)) :
    Reads (head ++ body) v := by
  intro fuel rest hf
  have hlen := h.length_pos
  rw [List.length_append] at hf
  obtain ⟨fuel, rfl⟩ : ∃ n, fuel = n + 1 := ⟨fuel - 1, by omega⟩
  rw [List.append_assoc, decodeValue, bind_of_ok (readHeader_head hm h hn _)]
  exact hbody fuel rest (by omega)

theorem reads_simple {v : Value} (hn : n < 24)
    (h : ∀ item rest, decodeBody item 7 n rest = .ok (v, rest)) :
    Reads [(7 * 32 + n).toUInt8] v := by
  rw [← List.append_nil [_]]
  exact reads_of_head (by decide) (.inline hn) (headerOk_of_lt (by omega)) fun _ _ _ => h _ _

/-- A value was read behind a head. -/
theorem decodeValue_head (hm : major < 8) (h : Head major n head) {fuel : ℕ} {bs rest : Bytes}
    {w : Value} (hread : decodeValue fuel (head ++ bs) = .ok (w, rest)) :
    ∃ fuel' value, fuel = fuel' + 1 ∧
      (headerOk n ∧ value = (n : ℤ) ∨ value + 2 ^ 32 ≤ (n : ℤ) ∧ 2 ^ 31 ≤ n) ∧
      decodeBody (decodeValue fuel') major value bs = .ok (w, rest) := by
  cases fuel with
  | zero => cases hread
  | succ fuel =>
    obtain ⟨⟨m, value⟩, bs', hhead, hbody⟩ := bind_eq_ok hread
    obtain ⟨rfl, rfl, hvalue⟩ := of_readHeader_head hm h hhead
    exact ⟨fuel, value, rfl, hvalue, hbody⟩

end

/-! ## Items that are read as what they are -/

theorem reads_textItem {s : String} {out : Bytes} (h : TextItem s out) (hs : returnsText s) :
    Reads out (.text s) := by
  cases h with
  | mk hhead =>
    rw [returnsText, decide_eq_true_eq] at hs
    refine reads_of_head (by decide) hhead hs.1 fun fuel rest _ => ?_
    change (readBytes _ >>= fun bs => pure (Value.text (textDecode bs))) _ = _
    rw [bind_of_ok (readBytes_append _ _), textDecode_textEncode hs.2]
    rfl

theorem readItems_items {xs : List Value} {out : Bytes} (hitems : Items xs out)
    (h : ∀ x ∈ xs, ∀ out, Item x out → Reads out x) {fuel : ℕ} (hfuel : out.length < fuel)
    (rest : Bytes) : readItems (decodeValue fuel) xs.length (out ++ rest) = .ok (xs, rest) := by
  induction xs generalizing out with
  | nil =>
    cases hitems
    rfl
  | cons x xs ih =>
    obtain ⟨hx, hxs⟩ := List.forall_mem_cons.1 h
    cases hitems with
    | cons hitem hitems =>
      rw [List.length_append] at hfuel
      rw [List.length_cons, readItems, List.append_assoc,
        bind_of_ok (hx _ hitem fuel _ (by omega)), bind_of_ok (ih hitems hxs (by omega))]
      rfl

theorem readFields_fields {fs : List (String × Value)} {out : Bytes} (hfields : Fields fs out)
    (hkeys : ∀ key ∈ keys fs, returnsText key ∧ key ≠ "__proto__")
    (h : ∀ e ∈ fs, ∀ out, Item e.2 out → Reads out e.2) {obj : List (String × Value)}
    (hn : (keys obj ++ keys fs).Nodup) {fuel : ℕ} (hfuel : out.length < fuel) (rest : Bytes) :
    readFields (decodeValue fuel) fs.length obj (out ++ rest) = .ok (obj ++ fs, rest) := by
  induction fs generalizing obj out with
  | nil =>
    cases hfields
    rw [List.append_nil]
    rfl
  | cons e fs ih =>
    obtain ⟨key, val⟩ := e
    obtain ⟨hval, hfs⟩ := List.forall_mem_cons.1 h
    obtain ⟨⟨hkey, hproto⟩, hkeys⟩ := List.forall_mem_cons.1 hkeys
    cases hfields with
    | cons htext hitem hfields =>
      rw [List.length_append, List.length_append] at hfuel
      have hfresh : key ∉ keys obj := fun hmem =>
        (List.disjoint_of_nodup_append hn) hmem List.mem_cons_self
      have hn' : (keys (obj ++ [(key, val)]) ++ keys fs).Nodup := by
        rwa [keys_append, List.append_assoc]
      rw [List.length_cons, readFields, List.append_assoc, List.append_assoc,
        bind_of_ok (reads_textItem htext hkey fuel _ (by omega))]
      change (decodeValue fuel >>= _) _ = _
      rw [bind_of_ok (hval _ hitem fuel _ (by omega)), if_neg hproto, set_of_not_mem val hfresh,
        ih hfields hkeys hfs hn' (by omega), List.append_assoc, List.singleton_append]

/-- An item of a value that is kept is read as it. -/
theorem reads_of_item (v : Value) : ∀ out, Item v out → all keptNode v → Reads out v := by
  induction v using induct with
  | undefined => exact fun _ h => nomatch h
  | float => exact fun _ h => nomatch h
  | null =>
    rintro _ ⟨⟩ -
    exact reads_simple (n := 22) (by decide) fun _ _ => rfl
  | bool b =>
    rintro _ ⟨⟩ -
    · exact reads_simple (n := 20) (by decide) fun _ _ => rfl
    · exact reads_simple (n := 21) (by decide) fun _ _ => rfl
  | int i =>
    intro out h hkept
    have hok : headerOk (argOf (.int i)) := hkept
    cases h with
    | uint hhead =>
      rw [(majorOf_natCast _).2] at hok
      rw [← List.append_nil out]
      exact reads_of_head (by decide) hhead hok fun _ _ _ => rfl
    | nint hhead =>
      rw [(majorOf_neg _).2] at hok
      rw [← List.append_nil out]
      exact reads_of_head (by decide) hhead hok fun _ _ _ => rfl
  | text s =>
    rintro _ ⟨⟩ hkept
    exact reads_textItem ‹_› hkept
  | bytes bs =>
    intro out h hkept
    cases h with
    | bytes hhead =>
      refine reads_of_head (by decide) hhead hkept fun fuel rest _ => ?_
      change (readBytes (bs.length : ℕ) >>= fun bs => pure (Value.bytes bs)) _ = _
      rw [bind_of_ok (readBytes_append _ _)]
      rfl
  | link cid =>
    intro out h hkept
    cases h with
    | link htag hhead =>
      refine reads_of_head (by decide) htag (headerOk_of_lt (by decide)) fun fuel rest _ => ?_
      rw [List.append_assoc]
      change (readHeader >>= fun p => if p.1 = MAJOR_BYTES then _ else _) _ = _
      rw [bind_of_ok (readHeader_head (by decide) hhead hkept _)]
      change (readBytes ((0x00 :: cid.bytes).length : ℕ) >>= fun bs => pure (cidLink bs)) _ = _
      rw [bind_of_ok (readBytes_append _ _)]
      rfl
  | array xs ih =>
    intro out h hkept
    obtain ⟨hok, hxs⟩ := all_array.1 hkept
    cases h with
    | array hhead hitems =>
      refine reads_of_head (by decide) hhead hok fun fuel rest hfuel => ?_
      change (readItems (decodeValue fuel) xs.length >>= fun xs => pure (Value.array xs)) _ = _
      rw [bind_of_ok (readItems_items hitems (fun x hx out hitem => ih x hx out hitem (hxs x hx))
        hfuel _)]
      rfl
  | object fields ih =>
    intro out h hkept
    obtain ⟨hnode, hvals⟩ := all_object.1 hkept
    obtain ⟨hok, hkeys⟩ := keptNode_object.1 hnode
    cases h with
    | object hhead hn hfields =>
      refine reads_of_head (by decide) hhead hok fun fuel rest hfuel => ?_
      change (readFields (decodeValue fuel) fields.length [] >>=
        fun fs => pure (Value.object fs)) _ = _
      rw [bind_of_ok (@readFields_fields fields _ hfields hkeys
        (fun e he out hitem => ih e he out hitem (hvals e he)) [] hn fuel hfuel rest)]
      rfl

/-! ## Items that are not -/

/-- A text is read as it is, or as a shorter one. -/
theorem decodeValue_textItem {s : String} {out : Bytes} (h : TextItem s out) {fuel : ℕ}
    {bs rest : Bytes} {w : Value} (hread : decodeValue fuel (out ++ bs) = .ok (w, rest)) :
    ∃ t, w = .text t ∧ (returnsText s ∧ t = s ∧ rest = bs ∨
      (textEncode t).length < (textEncode s).length) := by
  cases h with
  | mk hhead =>
    rw [List.append_assoc] at hread
    obtain ⟨fuel', value, -, hvalue, hbody⟩ := decodeValue_head (by decide) hhead hread
    change (readBytes _ >>= fun bs => pure (Value.text (textDecode bs))) _ = _ at hbody
    obtain ⟨out, bs', hout, hpure⟩ := bind_eq_ok hbody
    obtain ⟨rfl, rfl⟩ := pure_eq_ok hpure
    obtain ⟨hnonneg, -, rfl, rfl⟩ := readBytes_eq_ok hout
    refine ⟨_, rfl, ?_⟩
    rcases hvalue with ⟨hok, rfl⟩ | hless
    · rw [Int.toNat_natCast, List.take_left, List.drop_left]
      by_cases hbom : s.toList.head? = some '\uFEFF'
      · exact .inr (length_textDecode_of_bom hbom)
      · exact .inl ⟨decide_eq_true ⟨hok, hbom⟩, textDecode_textEncode hbom, rfl⟩
    · have hlong := hless.1
      rw [List.take_append_of_le_length (by omega)]
      have hle := length_textDecode_take_le s value.toNat
      exact .inr (by omega)

theorem all_keptNode_of_readItems {fuel : ℕ} {xs : List Value} {out bs rest : Bytes}
    (hitems : Items xs out)
    (h : ∀ x ∈ xs, ∀ out bs rest, Item x out → out.length < fuel →
      decodeValue fuel (out ++ bs) = .ok (x, rest) → all keptNode x)
    (hfuel : out.length < fuel)
    (hread : readItems (decodeValue fuel) xs.length (out ++ bs) = .ok (xs, rest)) :
    ∀ x ∈ xs, all keptNode x := by
  induction xs generalizing out with
  | nil => exact nofun
  | cons x xs ih =>
    obtain ⟨hx, hxs⟩ := List.forall_mem_cons.1 h
    cases hitems with
    | cons hitem hitems =>
      rw [List.length_append] at hfuel
      rw [List.append_assoc] at hread
      obtain ⟨y, bs₁, hy, htail⟩ := bind_eq_ok hread
      obtain ⟨ys, bs₂, hys, hpure⟩ := bind_eq_ok htail
      obtain ⟨heq, rfl⟩ := pure_eq_ok hpure
      obtain ⟨rfl, rfl⟩ := List.cons.inj heq
      have hkept := hx _ _ _ hitem (by omega) hy
      -- The first item was read as what it is, and the others are read from where it ends.
      rw [reads_of_item _ _ hitem hkept fuel _ (by omega), Except.ok.injEq, Prod.mk.injEq] at hy
      obtain ⟨-, rfl⟩ := hy
      exact List.forall_mem_cons.2 ⟨hkept, ih hitems hxs (by omega) hys⟩

theorem keptFields_of_readFields {fuel : ℕ} {fs obj : List (String × Value)} {out bs rest : Bytes}
    (hfields : Fields fs out)
    (h : ∀ e ∈ fs, ∀ out bs rest, Item e.2 out → out.length < fuel →
      decodeValue fuel (out ++ bs) = .ok (e.2, rest) → all keptNode e.2)
    (hfuel : out.length < fuel)
    (hread : readFields (decodeValue fuel) fs.length obj (out ++ bs) = .ok (obj ++ fs, rest)) :
    ∀ e ∈ fs, (returnsText e.1 ∧ e.1 ≠ "__proto__") ∧ all keptNode e.2 := by
  induction fs generalizing obj out with
  | nil => exact nofun
  | cons e fs ih =>
    obtain ⟨key, val⟩ := e
    obtain ⟨hval, hfs⟩ := List.forall_mem_cons.1 h
    cases hfields with
    | cons htext hitem hfields =>
      rw [List.length_append, List.length_append] at hfuel
      rw [List.append_assoc, List.append_assoc] at hread
      obtain ⟨key', w, bs₁, bs₂, hkeyRead, hvalRead, htail⟩ := readFields_succ hread
      -- As many fields were read as there are, so this one was added, and it is the one there.
      obtain ⟨hbound, hextends⟩ := readFields_extends htail
      rw [List.length_append, List.length_cons] at hbound hextends
      obtain ⟨-, hset⟩ := (set_entry key' w obj).resolve_left (by omega)
      have hproto : key' ≠ "__proto__" := by
        intro hproto
        rw [if_pos hproto] at hset
        have hlength := congrArg List.length hset
        rw [List.length_append, List.length_singleton] at hlength
        omega
      rw [hset, List.length_append, List.length_singleton] at hextends
      have hpre := hextends (by omega)
      rw [List.prefix_append_right_inj, List.cons_prefix_cons] at hpre
      obtain ⟨rfl, rfl⟩ := Prod.mk.inj hpre.1
      obtain ⟨t, ht, hcase⟩ := decodeValue_textItem htext hkeyRead
      obtain rfl := Value.text.inj ht
      rcases hcase with ⟨hkey, -, rfl⟩ | hshort
      · have hkept := hval _ _ _ hitem (by omega) hvalRead
        rw [reads_of_item _ _ hitem hkept fuel _ (by omega), Except.ok.injEq, Prod.mk.injEq]
          at hvalRead
        obtain ⟨-, rfl⟩ := hvalRead
        have hassoc : obj ++ (key', w) :: fs = obj ++ [(key', w)] ++ fs := by
          rw [List.append_assoc, List.singleton_append]
        rw [hset, hassoc] at htail
        exact List.forall_mem_cons.2 ⟨⟨⟨hkey, hproto⟩, hkept⟩, ih hfields hfs (by omega) htail⟩
      · exact absurd hshort (lt_irrefl _)

/-- An item that is read as the value it means is one of a value that is kept. -/
theorem all_keptNode_of_decode (v : Value) : ∀ fuel out bs rest, Item v out → out.length < fuel →
    decodeValue fuel (out ++ bs) = .ok (v, rest) → all keptNode v := by
  induction v using induct with
  | undefined => exact fun _ _ _ _ h => nomatch h
  | float => exact fun _ _ _ _ h => nomatch h
  | null => exact fun _ _ _ _ _ _ _ => rfl
  | bool b => exact fun _ _ _ _ _ _ _ => rfl
  | int i =>
    intro fuel out bs rest h hfuel hread
    change headerOk (argOf (.int i)) = true
    cases h with
    | @uint n _ hhead =>
      obtain ⟨fuel', value, -, hvalue, hbody⟩ := decodeValue_head (by decide) hhead hread
      obtain ⟨hint, -⟩ := pure_eq_ok hbody
      have hint : value = n := Value.int.inj hint
      rw [(majorOf_natCast n).2]
      exact (hvalue.resolve_right (by omega)).1
    | @nint n _ hhead =>
      obtain ⟨fuel', value, -, hvalue, hbody⟩ := decodeValue_head (by decide) hhead hread
      obtain ⟨hint, -⟩ := pure_eq_ok hbody
      have hint : -1 - value = -1 - n := Value.int.inj hint
      rw [(majorOf_neg n).2]
      exact (hvalue.resolve_right (by omega)).1
  | text s =>
    intro fuel out bs rest h hfuel hread
    cases h with
    | text htext =>
      obtain ⟨t, ht, hcase⟩ := decodeValue_textItem htext hread
      obtain rfl := Value.text.inj ht
      exact (hcase.resolve_right (lt_irrefl _)).1
  | bytes payload =>
    intro fuel out bs rest h hfuel hread
    cases h with
    | bytes hhead =>
      rw [List.append_assoc] at hread
      obtain ⟨fuel', value, -, hvalue, hbody⟩ := decodeValue_head (by decide) hhead hread
      change (readBytes _ >>= fun bs => pure (Value.bytes bs)) _ = _ at hbody
      obtain ⟨out, bs₁, hout, hpure⟩ := bind_eq_ok hbody
      obtain ⟨heq, rfl⟩ := pure_eq_ok hpure
      obtain rfl := Value.bytes.inj heq
      obtain ⟨hnonneg, hle, hbs, -⟩ := readBytes_eq_ok hout
      have hlength := congrArg List.length hbs
      rw [List.length_take_of_le hle] at hlength
      exact (hvalue.resolve_right (by omega)).1
  | link cid =>
    intro fuel out bs rest h hfuel hread
    cases h with
    | link htag hhead =>
      rw [List.append_assoc] at hread
      obtain ⟨fuel', value, -, hvalue, hbody⟩ := decodeValue_head (by decide) htag hread
      rcases hvalue with ⟨-, rfl⟩ | hless
      · rw [List.append_assoc] at hbody
        change (readHeader >>= fun p => if p.1 = MAJOR_BYTES then _ else _) _ = _ at hbody
        obtain ⟨⟨m, len⟩, bs', hhead', htail⟩ := bind_eq_ok hbody
        obtain ⟨rfl, rfl, hlen⟩ := of_readHeader_head (by decide) hhead hhead'
        obtain ⟨out, bs₁, hout, hpure⟩ := bind_eq_ok htail
        obtain ⟨heq, rfl⟩ := pure_eq_ok hpure
        obtain ⟨hnonneg, hle, hbs, -⟩ := readBytes_eq_ok hout
        have hlength := congrArg List.length hbs
        rw [List.length_take_of_le hle] at hlength
        have hcid := @length_of_cidLink out cid (by rw [heq]; rfl)
        exact (hlen.resolve_right (by omega)).1
      · omega
  | array xs ih =>
    intro fuel out bs rest h hfuel hread
    cases h with
    | array hhead hitems =>
      rw [List.length_append] at hfuel
      rw [List.append_assoc] at hread
      obtain ⟨fuel', value, rfl, hvalue, hbody⟩ := decodeValue_head (by decide) hhead hread
      change (readItems _ _ >>= fun xs => pure (Value.array xs)) _ = _ at hbody
      obtain ⟨ys, bs₁, hys, hpure⟩ := bind_eq_ok hbody
      obtain ⟨heq, rfl⟩ := pure_eq_ok hpure
      obtain rfl := Value.array.inj heq
      have hlength := length_readItems hys
      have hpos := hhead.length_pos
      obtain ⟨hok, rfl⟩ := hvalue.resolve_right (by omega)
      rw [Int.toNat_natCast] at hys
      exact all_array.2 ⟨hok, all_keptNode_of_readItems hitems (fun x hx => ih x hx fuel')
        (by omega) hys⟩
  | object fields ih =>
    intro fuel out bs rest h hfuel hread
    cases h with
    | object hhead hn hfields =>
      rw [List.length_append] at hfuel
      rw [List.append_assoc] at hread
      obtain ⟨fuel', value, rfl, hvalue, hbody⟩ := decodeValue_head (by decide) hhead hread
      change (readFields _ _ _ >>= fun fs => pure (Value.object fs)) _ = _ at hbody
      obtain ⟨obj, bs₁, hobj, hpure⟩ := bind_eq_ok hbody
      obtain ⟨heq, rfl⟩ := pure_eq_ok hpure
      obtain rfl := Value.object.inj heq
      have hbound : obj.length ≤ 0 + value.toNat := (readFields_extends hobj).1
      have hpos := hhead.length_pos
      obtain ⟨hok, rfl⟩ := hvalue.resolve_right (by omega)
      rw [Int.toNat_natCast] at hobj
      have hkept := @keptFields_of_readFields fuel' obj [] _ _ _ hfields
        (fun e he => ih e he fuel') (by omega) hobj
      refine all_object.2 ⟨keptNode_object.2 ⟨hok, fun key hkey => ?_⟩, fun e he => (hkept e he).2⟩
      obtain ⟨val, hmem⟩ := mem_keys.1 hkey
      exact (hkept _ hmem).1

/-! ## Soundness -/

end ComputeContract.Cbor
