import ComputeContract.Util.Base32
import ComputeContract.Util.TextPrefix
import ComputeContract.Cbor.Canonical

/-!
# Which values come back

The decoder reads numbers of four bytes with the operators of 32 bits, the lower halves of those
of eight bytes too, and decodes text with a decoder that drops a byte order mark. So not every
value of the data model comes back: a number whose lower half is 2^31 or more is read as
2^32 less, and with it an integer, a length or a count.

* `headerValue`: what the decoder makes of the number in a head;
* `reads_bytesOf`: the values that come back, whatever follows them;
* `all_returnsNode_of_decode`: no others do;
* `roundTrips_iff`: which values come back from their encodings.
-/

namespace ComputeContract.Cbor

open AssocList

/-! ## Heads -/

/-- What the decoder makes of the number in a head. -/
def headerValue (n : ℕ) : ℤ := if headerOk n then n else n - 2 ^ 32

theorem headerValue_of_ok {n : ℕ} (h : headerOk n) : headerValue n = n := if_pos h

theorem headerOk_of_headerValue {n : ℕ} (h : headerValue n = n) : headerOk n := by
  by_contra hn
  rw [headerValue, if_neg hn] at h
  omega

/-- A length or a count that is read as it is, or as one less, has a head that comes back. -/
theorem headerOk_of_toNat {n : ℕ} (h : n ≤ (headerValue n).toNat + 1) : headerOk n := by
  by_contra hn
  have hpos : 2 ^ 31 ≤ n := by
    by_contra hlt
    exact hn (headerOk_of_lt (not_le.1 hlt))
  rw [headerValue, if_neg hn] at h
  omega

theorem toInt32_of_le {n : ℕ} (h : 2 ^ 31 ≤ n) (hn : n < 2 ^ 32) : toInt32 n = n - 2 ^ 32 := by
  have hmod : n % 2 ^ 32 = n := Nat.mod_eq_of_lt hn
  rw [toInt32, hmod, if_neg (by omega)]

/-- Eight bytes whose lower half is read as negative. -/
theorem readValue_8BYTE_of_le {n : ℕ} (h : 2 ^ 31 ≤ n % 2 ^ 32) (hn : n ≤ MAX_SAFE_INTEGER)
    (hwide : 2 ^ 32 ≤ n) (rest : Bytes) :
    readValue AI_8BYTE (bigEndian n 8 ++ rest) = .ok ((n : ℤ) - 2 ^ 32, rest) := by
  have hmax : MAX_SAFE_INTEGER = 9007199254740991 := rfl
  have hhi : n / 256 ^ 4 % 256 ^ 4 = n / 2 ^ 32 := by omega
  have hlo : n % 256 ^ 4 = n % 2 ^ 32 := by omega
  have hsum : ((n / 2 ^ 32 : ℕ) : ℤ) * 0x100000000 + (((n % 2 ^ 32 : ℕ) : ℤ) - 2 ^ 32) =
      n - 2 ^ 32 := by omega
  have hsafe : ¬ MAX_SAFE_INTEGER < ((n : ℤ) - 2 ^ 32).natAbs := by omega
  rw [bigEndian_add n 4 4, List.append_assoc]
  change (readUInt 4 >>= fun hi => readUInt 4 >>= fun lo =>
    if MAX_SAFE_INTEGER < (toInt32 hi * 0x100000000 + toInt32 lo).natAbs then _ else pure _) _ = _
  rw [bind_of_ok (readUInt_bigEndian _ 4 _), bind_of_ok (readUInt_bigEndian _ 4 _), hhi, hlo,
    toInt32_of_lt (by omega), toInt32_of_le h (by omega), hsum, if_neg hsafe]
  rfl

theorem readHeader_writeHeader_of_le {major n : ℕ} (hm : major < 8) (hn : n ≤ MAX_SAFE_INTEGER)
    (rest : Bytes) :
    readHeader (writeHeader major n ++ rest) = .ok ((major, headerValue n), rest) := by
  by_cases hok : headerOk n
  · rw [readHeader_writeHeader hm hok, headerValue_of_ok hok]
  · have hlow : 2 ^ 31 ≤ n % 2 ^ 32 := by
      by_contra hlow
      exact hok (decide_eq_true ⟨not_le.1 hlow, hn⟩)
    rw [writeHeader, if_neg (by omega), if_neg (by omega), if_neg (by omega), headerValue,
      if_neg hok]
    split_ifs with h
    · refine readHeader_cons hm (by decide) ?_
      have hmod : n % 256 ^ 4 = n := Nat.mod_eq_of_lt h
      change (readUInt 4 >>= fun n => pure (toInt32 n)) (bigEndian n 4 ++ rest) = _
      rw [bind_of_ok (readUInt_bigEndian n 4 rest), hmod, toInt32_of_le (by omega) h]
      rfl
    · exact readHeader_cons hm (by decide) (readValue_8BYTE_of_le hlow hn (not_lt.1 h) rest)

/-- What the decoder reads behind a head. -/
theorem decodeValue_header {major n : ℕ} (hm : major < 8) (hn : n ≤ MAX_SAFE_INTEGER)
    (fuel : ℕ) (rest : Bytes) : decodeValue (fuel + 1) (writeHeader major n ++ rest) =
      decodeBody (decodeValue fuel) major (headerValue n) rest := by
  rw [decodeValue, bind_of_ok (readHeader_writeHeader_of_le hm hn _)]

/-! ## Values that come back -/

/-- A text that comes back. -/
def returnsText (s : String) : Bool :=
  headerOk (textEncode s).length ∧ s.toList.head? ≠ some '\uFEFF'

/-- A value that comes back if those that are nested in it do. -/
def returnsNode : Value → Bool
  | .int i => headerOk (argOf (.int i))
  | .text s => returnsText s
  | .bytes bs => headerOk bs.length
  | .array xs => headerOk xs.length
  | .object fields => headerOk fields.length ∧ ∀ key ∈ keys fields, returnsText key
  | .link cid => headerOk (cid.bytes.length + 1)
  | .null | .bool _ | .undefined | .float _ => true

theorem reads_encodeText {s : String} (h : returnsText s) : Reads (encodeText s) (.text s) := by
  rw [returnsText, decide_eq_true_eq] at h
  refine reads_of_body (by decide) h.1 fun fuel rest _ => ?_
  change (readBytes _ >>= fun bs => pure (Value.text (textDecode bs))) _ = _
  rw [bind_of_ok (readBytes_append _ _), textDecode_textEncode h.2]
  rfl

theorem readItems_itemsOf {xs : List Value} (h : ∀ x ∈ xs, Reads (bytesOf x) x) {fuel : ℕ}
    (hfuel : (itemsOf xs).length < fuel) (rest : Bytes) :
    readItems (decodeValue fuel) xs.length (itemsOf xs ++ rest) = .ok (xs, rest) := by
  induction xs with
  | nil => rfl
  | cons x xs ih =>
    obtain ⟨hx, hxs⟩ := List.forall_mem_cons.1 h
    rw [itemsOf_cons, List.length_append] at hfuel
    rw [List.length_cons, readItems, itemsOf_cons, List.append_assoc,
      bind_of_ok (hx fuel _ (by omega)), bind_of_ok (ih hxs (by omega))]
    rfl

theorem readFields_fieldsOf {fs : List (String × Value)}
    (h : ∀ e ∈ fs, returnsText e.1 ∧ e.1 ≠ "__proto__" ∧ Reads (bytesOf e.2) e.2)
    {obj : List (String × Value)} (hn : (keys obj ++ keys fs).Nodup) {fuel : ℕ}
    (hfuel : (fieldsOf fs).length < fuel) (rest : Bytes) :
    readFields (decodeValue fuel) fs.length obj (fieldsOf fs ++ rest) = .ok (obj ++ fs, rest) := by
  induction fs generalizing obj with
  | nil =>
    rw [List.append_nil]
    rfl
  | cons e fs ih =>
    obtain ⟨key, val⟩ := e
    obtain ⟨⟨hkey, hproto, hval⟩, hfs⟩ := List.forall_mem_cons.1 h
    dsimp only at hkey hproto hval
    rw [fieldsOf_cons, List.length_append, List.length_append] at hfuel
    have hfresh : key ∉ keys obj := fun hmem =>
      (List.disjoint_of_nodup_append hn) hmem List.mem_cons_self
    have hn' : (keys (obj ++ [(key, val)]) ++ keys fs).Nodup := by
      rwa [keys_append, List.append_assoc]
    rw [List.length_cons, readFields, fieldsOf_cons, List.append_assoc, List.append_assoc,
      bind_of_ok (reads_encodeText hkey fuel _ (by omega))]
    change (decodeValue fuel >>= _) _ = _
    rw [bind_of_ok (hval fuel _ (by omega)), if_neg hproto, set_of_not_mem val hfresh,
      ih hfs hn' (by omega), List.append_assoc, List.singleton_append]

/-- A value that returns is read from its bytes, whatever follows them. -/
theorem reads_bytesOf (v : Value) (hv : dataModel v) (h : all returnsNode v) :
    Reads (bytesOf v) v := by
  induction v using induct with
  | undefined => cases hv
  | float => cases hv
  | null => exact reads_of_body (majorOf_lt _) (by decide) fun _ _ _ => rfl
  | bool b => cases b <;> exact reads_of_body (majorOf_lt _) (by decide) fun _ _ _ => rfl
  | int i =>
    have hok : headerOk (argOf (.int i)) := h
    have hkind := kind_majorOf (small_of_dataModel hv)
    refine reads_of_body (majorOf_lt _) hok fun fuel rest _ => ?_
    generalize majorOf (.int i) = major at hkind
    cases hkind with
    | uint n =>
      rw [(majorOf_natCast n).2]
      rfl
    | nint n =>
      rw [(majorOf_neg n).2]
      rfl
  | text s => exact reads_encodeText h
  | bytes bs =>
    refine reads_of_body (majorOf_lt _) h fun fuel rest _ => ?_
    change (readBytes (bs.length : ℕ) >>= fun bs => pure (Value.bytes bs)) _ = _
    rw [bodyOf, bind_of_ok (readBytes_append _ _)]
    rfl
  | link cid =>
    refine reads_of_body (majorOf_lt _) (headerOk_of_lt (n := TAG_CID) (by decide))
      fun fuel rest _ => ?_
    rw [bodyOf, List.append_assoc]
    change (readHeader >>= fun p => if p.1 = MAJOR_BYTES then _ else _) _ = _
    rw [bind_of_ok (readHeader_writeHeader (by decide) h _)]
    change (readBytes ((0x00 :: cid.bytes).length : ℕ) >>= fun bs => pure (cidLink bs)) _ = _
    rw [bind_of_ok (readBytes_append _ _)]
    rfl
  | array xs ih =>
    obtain ⟨-, hdata⟩ := all_array.1 hv
    obtain ⟨hok, hxs⟩ := all_array.1 h
    refine reads_of_body (majorOf_lt _) hok fun fuel rest hfuel => ?_
    change (readItems (decodeValue fuel) xs.length >>= fun xs => pure (Value.array xs)) _ = _
    rw [bodyOf, bind_of_ok (readItems_itemsOf (fun x hx => ih x hx (hdata x hx) (hxs x hx)) hfuel _)]
    rfl
  | object fields ih =>
    obtain ⟨hnode, hdata⟩ := all_object.1 hv
    obtain ⟨hreturns, hfields⟩ := all_object.1 h
    obtain ⟨-, hn, hkeys⟩ := dataNode_object.1 hnode
    rw [returnsNode, decide_eq_true_eq] at hreturns
    refine reads_of_body (majorOf_lt _) hreturns.1 fun fuel rest hfuel => ?_
    change (readFields (decodeValue fuel) fields.length [] >>=
      fun fs => pure (Value.object fs)) _ = _
    have hread := @readFields_fieldsOf fields (fun e he => ⟨hreturns.2 _ (mem_keys_of_mem he),
      (hkeys _ (mem_keys_of_mem he)).2.1, ih e he (hdata e he) (hfields e he)⟩) [] hn fuel hfuel rest
    rw [bodyOf, bind_of_ok hread]
    rfl

/-! ## What was read -/

theorem bind_eq_ok {α β : Type} {m : Decoder α} {f : α → Decoder β} {bs rest : Bytes} {b : β}
    (h : (m >>= f) bs = .ok (b, rest)) :
    ∃ a bs', m bs = .ok (a, bs') ∧ f a bs' = .ok (b, rest) := by
  cases hm : m bs with
  | error e =>
    rw [show (m >>= f) bs = (m bs).bind fun p => f p.1 p.2 from rfl, hm] at h
    cases h
  | ok p =>
    refine ⟨p.1, p.2, rfl, ?_⟩
    rwa [bind_of_ok hm] at h

theorem pure_eq_ok {α : Type} {a b : α} {bs rest : Bytes}
    (h : (pure a : Decoder α) bs = .ok (b, rest)) : a = b ∧ bs = rest := by
  cases h
  exact ⟨rfl, rfl⟩

theorem readBytes_eq_ok {n : ℤ} {bs out rest : Bytes} (h : readBytes n bs = .ok (out, rest)) :
    0 ≤ n ∧ n.toNat ≤ bs.length ∧ out = bs.take n.toNat ∧ rest = bs.drop n.toNat := by
  rw [readBytes] at h
  split_ifs at h with hneg hlen
  cases h
  exact ⟨not_lt.1 hneg, hlen, rfl, rfl⟩

/-- A value was read behind its head. -/
theorem decodeValue_eq_ok {major n fuel : ℕ} (hm : major < 8) (hn : n ≤ MAX_SAFE_INTEGER)
    {bs rest : Bytes} {w : Value}
    (h : decodeValue fuel (writeHeader major n ++ bs) = .ok (w, rest)) :
    ∃ fuel', fuel = fuel' + 1 ∧
      decodeBody (decodeValue fuel') major (headerValue n) bs = .ok (w, rest) := by
  cases fuel with
  | zero => cases h
  | succ fuel => exact ⟨fuel, rfl, by rwa [decodeValue_header hm hn] at h⟩

theorem length_readItems {item : Decoder Value} {n : ℕ} {bs rest : Bytes} {xs : List Value}
    (h : readItems item n bs = .ok (xs, rest)) : xs.length = n := by
  induction n generalizing bs xs with
  | zero =>
    obtain ⟨rfl, -⟩ := pure_eq_ok h
    rfl
  | succ n ih =>
    obtain ⟨x, bs', -, h⟩ := bind_eq_ok h
    obtain ⟨xs', bs'', hxs, h⟩ := bind_eq_ok h
    obtain ⟨rfl, rfl⟩ := pure_eq_ok h
    rw [List.length_cons, ih hxs]

/-- The next entry of a map. -/
theorem readFields_succ {item : Decoder Value} {n : ℕ} {obj obj' : List (String × Value)}
    {bs rest : Bytes} (h : readFields item (n + 1) obj bs = .ok (obj', rest)) :
    ∃ key val bs₁ bs₂, item bs = .ok (.text key, bs₁) ∧ item bs₁ = .ok (val, bs₂) ∧
      readFields item n (if key = "__proto__" then obj else set key val obj) bs₂ =
        .ok (obj', rest) := by
  rw [readFields] at h
  obtain ⟨k, bs₁, hk, h⟩ := bind_eq_ok h
  cases k with
  | text key =>
    obtain ⟨val, bs₂, hval, h⟩ := bind_eq_ok h
    exact ⟨key, val, bs₁, bs₂, hk, hval, h⟩
  | _ => cases h

/-- An entry is added, or there is none for its key to be added. -/
theorem set_entry (key : String) (val : Value) (obj : List (String × Value)) :
    (if key = "__proto__" then obj else set key val obj).length = obj.length ∨
      key ∉ keys obj ∧
        (if key = "__proto__" then obj else set key val obj) = obj ++ [(key, val)] := by
  split_ifs with hproto
  · exact .inl rfl
  · by_cases hmem : key ∈ keys obj
    · have hlength := congrArg List.length (keys_set_of_mem val hmem)
      rw [keys, keys, List.length_map, List.length_map] at hlength
      exact .inl hlength
    · exact .inr ⟨hmem, set_of_not_mem val hmem⟩

/-- As many fields as were read come after those there were, or there are fewer. -/
theorem readFields_extends {item : Decoder Value} {n : ℕ} {obj obj' : List (String × Value)}
    {bs rest : Bytes} (h : readFields item n obj bs = .ok (obj', rest)) :
    obj'.length ≤ obj.length + n ∧ (obj'.length = obj.length + n → obj <+: obj') := by
  induction n generalizing obj bs with
  | zero =>
    obtain ⟨rfl, -⟩ := pure_eq_ok h
    exact ⟨le_rfl, fun _ => List.prefix_rfl⟩
  | succ n ih =>
    obtain ⟨key, val, bs₁, bs₂, -, -, h⟩ := readFields_succ h
    obtain ⟨hle, hextends⟩ := ih h
    rcases set_entry key val obj with hlength | ⟨-, hset⟩
    · rw [hlength] at hle
      exact ⟨by omega, fun heq => absurd heq (by omega)⟩
    · rw [hset, List.length_append, List.length_singleton] at hle hextends
      exact ⟨by omega, fun heq => (List.prefix_append _ _).trans (hextends (by omega))⟩

/-- A text is read as it is, or as a shorter one. -/
theorem decodeValue_encodeText {s : String} (hs : (textEncode s).length ≤ MAX_SAFE_INTEGER)
    {fuel : ℕ} {bs rest : Bytes} {w : Value}
    (h : decodeValue fuel (encodeText s ++ bs) = .ok (w, rest)) :
    ∃ t, w = .text t ∧ (returnsText s ∧ t = s ∧ rest = bs ∨
      (textEncode t).length < (textEncode s).length) := by
  rw [encodeText, List.append_assoc] at h
  obtain ⟨fuel', -, hbody⟩ := decodeValue_eq_ok (by decide) hs h
  change (readBytes _ >>= fun bs => pure (Value.text (textDecode bs))) _ = _ at hbody
  obtain ⟨out, bs', hout, hpure⟩ := bind_eq_ok hbody
  obtain ⟨rfl, rfl⟩ := pure_eq_ok hpure
  obtain ⟨hnonneg, -, rfl, rfl⟩ := readBytes_eq_ok hout
  refine ⟨_, rfl, ?_⟩
  by_cases hok : headerOk (textEncode s).length
  · rw [headerValue_of_ok hok, Int.toNat_natCast, List.take_left, List.drop_left]
    by_cases hbom : s.toList.head? = some '\uFEFF'
    · exact .inr (length_textDecode_of_bom hbom)
    · exact .inl ⟨decide_eq_true ⟨hok, hbom⟩, textDecode_textEncode hbom, rfl⟩
  · -- The length is read as less by 2^32: the text is cut short.
    rw [headerValue, if_neg hok] at hnonneg ⊢
    rw [List.take_append_of_le_length (by omega)]
    have hle := length_textDecode_take_le s ((textEncode s).length - 2 ^ 32 : ℤ).toNat
    exact .inr (by omega)

/-- Items that were read as they are come back each. -/
theorem all_returnsNode_of_readItems {fuel : ℕ} {xs ys : List Value} {bs rest : Bytes}
    (hreads : ∀ x ∈ xs, all returnsNode x → Reads (bytesOf x) x)
    (hreturns : ∀ x ∈ xs, ∀ bs rest w, (bytesOf x).length < fuel →
      decodeValue fuel (bytesOf x ++ bs) = .ok (w, rest) → canon w = x → all returnsNode x)
    (hfuel : (itemsOf xs).length < fuel)
    (h : readItems (decodeValue fuel) xs.length (itemsOf xs ++ bs) = .ok (ys, rest))
    (hys : canonItems ys = xs) : ∀ x ∈ xs, all returnsNode x := by
  induction xs generalizing ys with
  | nil => exact nofun
  | cons x xs ih =>
    obtain ⟨hx, hxs⟩ := List.forall_mem_cons.1 hreads
    obtain ⟨hx', hxs'⟩ := List.forall_mem_cons.1 hreturns
    rw [itemsOf_cons, List.length_append] at hfuel
    rw [itemsOf_cons, List.append_assoc] at h
    obtain ⟨y, bs₁, hy, hrest⟩ := bind_eq_ok h
    obtain ⟨ys', bs₂, hys', hpure⟩ := bind_eq_ok hrest
    obtain ⟨rfl, rfl⟩ := pure_eq_ok hpure
    obtain ⟨hcanon, htail⟩ := List.cons.inj hys
    have hreturn := hx' _ _ _ (by omega) hy hcanon
    -- The first item came back, and the others are read from where it ends.
    rw [hx hreturn fuel _ (by omega), Except.ok.injEq, Prod.mk.injEq] at hy
    obtain ⟨-, rfl⟩ := hy
    exact List.forall_mem_cons.2 ⟨hreturn, ih hxs hxs' (by omega) hys' htail⟩

/-- Two fields of one key are one field. -/
theorem eq_of_mem_of_nodup {fields : List (String × Value)} (hn : (keys fields).Nodup)
    {key : String} {val val' : Value} (h : (key, val) ∈ fields) (h' : (key, val') ∈ fields) :
    val = val' := by
  rw [mem_iff_lookup hn] at h h'
  exact Option.some.inj (h.symm.trans h')

/-- Fields that were read as they are, after those of `obj`, come back each. Their keys are in
    order, so that a key that is read as a shorter one is one of a field before. -/
theorem all_returnsNode_of_readFields {fuel : ℕ} {fs obj obj' : List (String × Value)}
    {bs rest : Bytes}
    (hreads : ∀ e ∈ fs, all returnsNode e.2 → Reads (bytesOf e.2) e.2)
    (hreturns : ∀ e ∈ fs, ∀ bs rest w, (bytesOf e.2).length < fuel →
      decodeValue fuel (bytesOf e.2 ++ bs) = .ok (w, rest) → canon w = e.2 → all returnsNode e.2)
    (hfuel : (fieldsOf fs).length < fuel)
    (hkeys : ∀ key ∈ keys fs, (textEncode key).length ≤ MAX_SAFE_INTEGER)
    (hsorted : (keys fs).Pairwise fun a b => (textEncode a).length ≤ (textEncode b).length)
    (hn : (keys (obj ++ fs)).Nodup)
    (h : readFields (decodeValue fuel) fs.length obj (fieldsOf fs ++ bs) = .ok (obj', rest))
    (hperm : (canonFields obj').Perm (obj ++ fs)) :
    ∀ e ∈ fs, returnsText e.1 ∧ all returnsNode e.2 := by
  induction fs generalizing obj with
  | nil => exact nofun
  | cons e fs ih =>
    obtain ⟨key, val⟩ := e
    obtain ⟨hval, hfs⟩ := List.forall_mem_cons.1 hreads
    obtain ⟨hval', hfs'⟩ := List.forall_mem_cons.1 hreturns
    obtain ⟨hkey, hkeys'⟩ := List.forall_mem_cons.1 hkeys
    obtain ⟨hle, hsorted'⟩ := List.pairwise_cons.1 hsorted
    dsimp only at hval hval' hkey hle
    rw [fieldsOf_cons, List.length_append, List.length_append] at hfuel
    rw [fieldsOf_cons, List.append_assoc, List.append_assoc] at h
    obtain ⟨key', w, bs₁, bs₂, hkeyRead, hvalRead, htail⟩ := readFields_succ h
    -- As many fields were read as there are, so this one was added.
    have hlength : obj'.length = obj.length + (fs.length + 1) := by
      have hlength := hperm.length_eq
      rwa [canonFields_eq, List.length_map, List.length_append, List.length_cons] at hlength
    obtain ⟨hbound, hextends⟩ := readFields_extends htail
    obtain ⟨hfresh, hset⟩ := (set_entry key' w obj).resolve_left (by omega)
    rw [hset] at hbound hextends htail
    rw [List.length_append, List.length_singleton] at hextends
    have hmem : (key', w) ∈ obj' :=
      (hextends (by omega)).subset (List.mem_append_right _ List.mem_cons_self)
    have hcanon : (key', canon w) ∈ obj ++ (key, val) :: fs := by
      rw [← hperm.mem_iff, canonFields_eq]
      exact List.mem_map_of_mem (f := fun e : String × Value => (e.1, canon e.2)) hmem
    obtain ⟨t, ht, hcase⟩ := decodeValue_encodeText hkey hkeyRead
    obtain rfl := Value.text.inj ht
    rcases hcase with ⟨hreturnsKey, rfl, rfl⟩ | hshort
    · have hw := eq_of_mem_of_nodup hn hcanon (List.mem_append_right _ List.mem_cons_self)
      have hreturn := hval' _ _ _ (by omega) hvalRead hw
      rw [hval hreturn fuel _ (by omega), Except.ok.injEq, Prod.mk.injEq] at hvalRead
      obtain ⟨rfl, rfl⟩ := hvalRead
      have hassoc : obj ++ [(key', val)] ++ fs = obj ++ (key', val) :: fs := by
        rw [List.append_assoc, List.singleton_append]
      exact List.forall_mem_cons.2 ⟨⟨hreturnsKey, hreturn⟩,
        ih hfs hfs' (by omega) hkeys' hsorted' (hassoc ▸ hn) htail (hassoc ▸ hperm)⟩
    · -- The key it was read as is that of no field before, and shorter than the others.
      have hkey' := mem_keys_of_mem hcanon
      rw [keys_append, List.mem_append, keys_cons, List.mem_cons] at hkey'
      rcases hkey' with hkey' | rfl | hkey'
      · exact absurd hkey' hfresh
      · exact absurd hshort (lt_irrefl _)
      · exact absurd (hle _ hkey') (not_le.2 hshort)

theorem length_of_cidLink {bs : Bytes} {cid : Cid} (h : canon (cidLink bs) = .link cid) :
    bs.length = cid.bytes.length ∨ bs.length = cid.bytes.length + 1 := by
  unfold cidLink at h
  split at h
  · obtain rfl := Value.link.inj h
    exact .inr rfl
  · obtain rfl := Value.link.inj h
    exact .inl rfl

/-- A value in canonical form that is read from its bytes comes back. -/
theorem all_returnsNode_of_decode (v : Value) (hv : dataModel v) (hcanon : canon v = v) :
    ∀ fuel bs rest w, (bytesOf v).length < fuel →
      decodeValue fuel (bytesOf v ++ bs) = .ok (w, rest) → canon w = v → all returnsNode v := by
  induction v using induct with
  | undefined => cases hv
  | float => cases hv
  | null => exact fun _ _ _ _ _ _ _ => rfl
  | bool b => exact fun _ _ _ _ _ _ _ => rfl
  | int i =>
    intro fuel bs rest w hfuel h hw
    have hsmall := small_of_dataModel hv
    have hsafe : argOf (.int i) ≤ MAX_SAFE_INTEGER := by
      have hle : i.natAbs ≤ MAX_SAFE_INTEGER := of_decide_eq_true hv
      rw [argOf]
      split_ifs <;> omega
    rw [bytesOf, List.append_assoc] at h
    obtain ⟨fuel', -, hbody⟩ := decodeValue_eq_ok (majorOf_lt _) hsafe h
    refine headerOk_of_headerValue ?_
    have hkind := kind_majorOf hsmall
    generalize majorOf (.int i) = major at hkind hbody
    cases hkind with
    | uint n =>
      obtain ⟨rfl, -⟩ := pure_eq_ok hbody
      have hint : headerValue (argOf (.int n)) = n := Value.int.inj hw
      rw [hint, (majorOf_natCast n).2]
    | nint n =>
      obtain ⟨rfl, -⟩ := pure_eq_ok hbody
      have hint : -1 - headerValue (argOf (.int (-1 - n))) = -1 - n := Value.int.inj hw
      rw [(majorOf_neg n).2] at hint ⊢
      omega
  | text s =>
    intro fuel bs rest w hfuel h hw
    obtain ⟨t, rfl, ⟨hreturns, -, -⟩ | hshort⟩ := decodeValue_encodeText (of_decide_eq_true hv) h
    · exact hreturns
    · obtain rfl : t = s := Value.text.inj hw
      exact absurd hshort (lt_irrefl _)
  | bytes bs' =>
    intro fuel bs rest w hfuel h hw
    rw [bytesOf, List.append_assoc] at h
    obtain ⟨fuel', -, hbody⟩ := decodeValue_eq_ok (majorOf_lt _) (of_decide_eq_true hv) h
    change (readBytes _ >>= fun bs => pure (Value.bytes bs)) _ = _ at hbody
    obtain ⟨out, bs₁, hout, hpure⟩ := bind_eq_ok hbody
    obtain ⟨rfl, rfl⟩ := pure_eq_ok hpure
    obtain ⟨hnonneg, hle, hbs, -⟩ := readBytes_eq_ok hout
    obtain rfl : out = bs' := Value.bytes.inj hw
    have hlength := congrArg List.length hbs
    rw [List.length_take_of_le hle] at hlength
    exact headerOk_of_toNat (hlength.le.trans (Nat.le_succ _))
  | link cid =>
    intro fuel bs rest w hfuel h hw
    have hlink : cid.bytes.length + 1 ≤ MAX_SAFE_INTEGER := (of_decide_eq_true hv).1
    rw [bytesOf, List.append_assoc] at h
    obtain ⟨fuel', -, hbody⟩ := @decodeValue_eq_ok 6 TAG_CID _ (by decide) (by decide) _ _ _ h
    rw [bodyOf, List.append_assoc] at hbody
    change (readHeader >>= fun p => if p.1 = MAJOR_BYTES then _ else _) _ = _ at hbody
    rw [bind_of_ok (readHeader_writeHeader_of_le (by decide) hlink _), if_pos rfl] at hbody
    obtain ⟨out, bs₁, hout, hpure⟩ := bind_eq_ok hbody
    obtain ⟨rfl, rfl⟩ := pure_eq_ok hpure
    obtain ⟨-, hle, hbs, -⟩ := readBytes_eq_ok hout
    have hlength := congrArg List.length hbs
    rw [List.length_take_of_le hle] at hlength
    have hcid := length_of_cidLink hw
    exact headerOk_of_toNat (by omega)
  | array xs ih =>
    intro fuel bs rest w hfuel h hw
    obtain ⟨hnode, hdata⟩ := all_array.1 hv
    rw [bytesOf, List.append_assoc] at h
    rw [bytesOf, List.length_append] at hfuel
    obtain ⟨fuel', rfl, hbody⟩ := decodeValue_eq_ok (majorOf_lt _) (of_decide_eq_true hnode) h
    change (readItems _ _ >>= fun xs => pure (Value.array xs)) _ = _ at hbody
    obtain ⟨ys, bs₁, hys, hpure⟩ := bind_eq_ok hbody
    obtain ⟨rfl, rfl⟩ := pure_eq_ok hpure
    rw [canon] at hw hcanon
    have hcanonItems : canonItems ys = xs := Value.array.inj hw
    have hcanonXs : ∀ x ∈ xs, canon x = id x :=
      List.map_inj_left.1 (by rw [List.map_id, ← canonItems_eq, Value.array.inj hcanon])
    have hlength : (headerValue xs.length).toNat = xs.length := by
      rw [← length_readItems hys, ← hcanonItems, canonItems_eq, List.length_map]
    have hok := headerOk_of_toNat (n := xs.length) (by omega)
    have hpos := length_writeHeader_pos (majorOf (.array xs)) (argOf (.array xs))
    rw [hlength] at hys
    refine all_array.2 ⟨hok, all_returnsNode_of_readItems (fun x hx => reads_bytesOf x (hdata x hx))
      (fun x hx => ih x hx (hdata x hx) (hcanonXs x hx) fuel') ?_ hys hcanonItems⟩
    rw [bodyOf] at hfuel
    omega
  | object fields ih =>
    intro fuel bs rest w hfuel h hw
    obtain ⟨hnode, hdata⟩ := all_object.1 hv
    obtain ⟨hcount, hn, hkeys⟩ := dataNode_object.1 hnode
    rw [bytesOf, List.append_assoc] at h
    rw [bytesOf, List.length_append] at hfuel
    obtain ⟨fuel', rfl, hbody⟩ := decodeValue_eq_ok (majorOf_lt _) hcount h
    change (readFields _ _ _ >>= fun fs => pure (Value.object fs)) _ = _ at hbody
    obtain ⟨obj, bs₁, hobj, hpure⟩ := bind_eq_ok hbody
    obtain ⟨rfl, rfl⟩ := pure_eq_ok hpure
    rw [canon] at hw hcanon
    have hcanonFields : sortKeys (canonFields obj) = fields := Value.object.inj hw
    have hperm : (canonFields obj).Perm fields := hcanonFields ▸ (perm_sortKeys _).symm
    have hsorted : (keys fields).Pairwise fun a b =>
        (textEncode a).length ≤ (textEncode b).length := by
      rw [← hcanonFields]
      refine List.pairwise_map.2 ((pairwise_keyLe_sortKeys _).imp fun {a b} hle => ?_)
      rw [keyLe_iff] at hle
      omega
    have hcanonVals : ∀ e ∈ fields, canon e.2 = e.2 := by
      intro e he
      have hmem : (e.1, canon e.2) ∈ sortKeys (canonFields fields) :=
        mem_sortKeys_canonFields.2 ⟨e, he, rfl⟩
      rw [Value.object.inj hcanon] at hmem
      exact eq_of_mem_of_nodup hn hmem he
    have hlength : obj.length = fields.length := by
      rw [← hperm.length_eq, canonFields_eq, List.length_map]
    have hbound : obj.length ≤ 0 + (headerValue fields.length).toNat := (readFields_extends hobj).1
    have hok : headerOk fields.length := headerOk_of_toNat (by omega)
    rw [headerValue_of_ok hok, Int.toNat_natCast] at hobj
    have hpos := length_writeHeader_pos (majorOf (.object fields)) (argOf (.object fields))
    rw [bodyOf] at hobj hfuel
    have hreturns := @all_returnsNode_of_readFields fuel' fields [] obj _ _
      (fun e he => reads_bytesOf e.2 (hdata e he))
      (fun e he => ih e he (hdata e he) (hcanonVals e he) fuel') (by omega)
      (fun key hkey => (hkeys key hkey).2.2) hsorted hn hobj hperm
    refine all_object.2 ⟨decide_eq_true ⟨hok, fun key hkey => ?_⟩, fun e he => (hreturns e he).2⟩
    obtain ⟨val, hmem⟩ := mem_keys.1 hkey
    exact (hreturns _ hmem).1

/-! ## The round trip -/

mutual

/-- The value as it is written in JavaScript, a link as an object with its CID string. -/
def explicit : Value → Value
  | .link cid => .object [("$link", .text cid.toString)]
  | .array xs => .array (explicitItems xs)
  | .object fields => .object (explicitFields fields)
  | v => v

def explicitItems : List Value → List Value
  | [] => []
  | x :: xs => explicit x :: explicitItems xs

def explicitFields : List (String × Value) → List (String × Value)
  | [] => []
  | (key, val) :: fs => (key, explicit val) :: explicitFields fs

end

theorem explicitItems_eq (xs : List Value) : explicitItems xs = xs.map explicit := by
  induction xs with
  | nil => rfl
  | cons x xs ih => rw [explicitItems, ih, List.map_cons]

theorem explicitFields_eq (fields : List (String × Value)) :
    explicitFields fields = fields.map fun e => (e.1, explicit e.2) := by
  induction fields with
  | nil => rfl
  | cons e fields ih => rw [explicitFields, ih, List.map_cons]

theorem encodeItems_explicitItems {xs : List Value}
    (h : ∀ x ∈ xs, encodeValue (explicit x) = encodeValue x) :
    encodeItems (explicitItems xs) = encodeItems xs := by
  induction xs with
  | nil => rfl
  | cons x xs ih =>
    obtain ⟨hx, hxs⟩ := List.forall_mem_cons.1 h
    rw [explicitItems, encodeItems, encodeItems, hx, ih hxs]

/-- An object with the CID string of a link is encoded as the link. -/
theorem encodeValue_explicit (v : Value) (h : dataModel v) :
    encodeValue (explicit v) = encodeValue v := by
  induction v using induct with
  | link cid =>
    rw [explicit, encodeValue]
    change (cidToBytes cid.toString >>= fun cidBytes => pure (encodeLink cidBytes)) = _
    rw [cidToBytes_toString]
    rfl
  | array xs ih =>
    obtain ⟨-, hxs⟩ := all_array.1 h
    rw [explicit, encodeValue, encodeValue,
      encodeItems_explicitItems fun x hx => ih x hx (hxs x hx), explicitItems_eq, List.length_map]
  | object fields ih =>
    obtain ⟨hnode, hfields⟩ := all_object.1 h
    obtain ⟨-, -, hkeys⟩ := dataNode_object.1 hnode
    have hlink : "$link" ∉ keys fields := fun hmem => (hkeys _ hmem).1 rfl
    have hkeysEq : keys (explicitFields fields) = keys fields := by
      rw [explicitFields_eq, keys, List.map_map]
      rfl
    have hvals : encodeFields (explicitFields fields) = encodeFields fields := by
      rw [encodeFields_eq, encodeFields_eq, explicitFields_eq, List.map_map]
      exact List.map_congr_left fun e he => by rw [Function.comp_apply, ih e he (hfields e he)]
    rw [explicit, encodeValue, encodeValue, hvals, linkField_of_not_mem hlink,
      linkField_of_not_mem (hkeysEq ▸ hlink), explicitFields_eq, List.length_map]
  | _ => rfl

theorem Reordered.symm {v w : Value} (h : Reordered v w) : Reordered w v := by
  induction h with
  | refl v => exact .refl v
  | trans _ _ ih ih' => exact .trans ih' ih
  | perm h => exact .perm h.symm
  | item xs ys _ ih => exact .item xs ys ih
  | field fs gs key _ ih => exact .field fs gs key ih

theorem reordered_iff {v w : Value} (hv : dataModel v) : Reordered v w ↔ canon v = canon w := by
  refine ⟨fun h => (h.canon_eq hv).2, fun h => ?_⟩
  have hw := reordered_canon w
  rw [← h] at hw
  exact (reordered_canon v).trans hw.symm

/-- Different contents have different encodings. -/
theorem reordered_of_encode_eq {v w : Value} (hv : dataModel v) (hw : dataModel w)
    (h : encode v = encode w) : Reordered v w :=
  (reordered_iff hv).2 (canon_eq_of_encode_eq hv hw h)

theorem returnsNode_canon (v : Value) : returnsNode (canon v) ↔ returnsNode v := by
  cases v with
  | array xs => rw [canon, returnsNode, returnsNode, canonItems_eq, List.length_map]
  | object fields =>
    have hkeys := keys_sortKeys_canonFields fields
    rw [canon, returnsNode, returnsNode, length_sortKeys, canonFields_eq, List.length_map]
    simp only [decide_eq_true_eq, ← canonFields_eq, hkeys.mem_iff]
  | _ => exact Iff.rfl

/-- A value is read from its encoding with its contents, and no bytes are left. -/
def RoundTrips (v : Value) : Prop :=
  ∃ out w, encode (explicit v) = .ok out ∧ decodeValue (out.length + 1) out = .ok (w, []) ∧
    Reordered v w

theorem all_returnsNode_of_roundTrips {v : Value} (hv : dataModel v) (h : RoundTrips v) :
    all returnsNode v := by
  obtain ⟨out, w, hencode, hdecode, hreordered⟩ := h
  have hcanon := (hreordered.canon_eq hv).2
  rw [encode, encodeValue_explicit v hv, encodeValue_eq v hv, Except.ok.injEq] at hencode
  rw [← hencode, ← List.append_nil (bytesOf (canon v))] at hdecode
  have hidem : canon (canon v) = canon v := ((reordered_canon v).canon_eq hv).2.symm
  exact (all_canon returnsNode_canon v).1 (all_returnsNode_of_decode (canon v)
    ((dataModel_canon v).2 hv) hidem _ _ _ w (by simp) hdecode hcanon.symm)

/-- A value comes back if the numbers of its heads are read as they are, and no string in it
    starts with a byte order mark, and only then. The encoding is injective anyway. -/
theorem roundTrips_iff (v : Value) (hv : dataModel v) :
    (RoundTrips v ↔ all returnsNode v) ∧
      ∀ w, dataModel w → encode v = encode w → Reordered v w := by
  refine ⟨⟨all_returnsNode_of_roundTrips hv, fun h => ?_⟩,
    fun w hw heq => reordered_of_encode_eq hv hw heq⟩
  have hreads := reads_bytesOf (canon v) ((dataModel_canon v).2 hv)
    ((all_canon returnsNode_canon v).2 h)
  have hdecode := hreads ((bytesOf (canon v)).length + 1) [] (Nat.lt_succ_self _)
  rw [List.append_nil] at hdecode
  exact ⟨_, canon v, (encodeValue_explicit v hv).trans (encodeValue_eq v hv), hdecode,
    reordered_canon v⟩

theorem roundTrips_plainKeys : RoundTrips plainKeys :=
  (roundTrips_iff plainKeys (by decide +kernel)).1.2 (by decide +kernel)

/-- An integer of 32 bits. -/
theorem not_roundTrips : ¬ ∀ v, dataModel v → RoundTrips v := by
  intro h
  have hreturns := all_returnsNode_of_roundTrips (v := .int 3000000000) rfl (h _ rfl)
  exact absurd hreturns (by decide +kernel)

end ComputeContract.Cbor
