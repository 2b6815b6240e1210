import ComputeContract.Cbor.DagCbor

/-!
# The DAG-CBOR round trip

What the decoder makes of an encoded value. The encoder sorts the keys of every
object, so the value comes back in its canonical form, `canon`; and it comes back
when it is `plain`: lengths within 31 bits, integers with no half that is read as negative,
no string that starts with a byte order mark, no field named `__proto__`.

* `readHeader_writeHeader`: a header comes back;
* `decode_encode`: a plain value comes back, in canonical form;
* `lookup_sortKeys`: sorting the keys changes no field.
-/

namespace ComputeContract.Cbor

/-! ## Readers -/

theorem bind_of_ok {α β : Type} {m : Decoder α} {f : α → Decoder β} {bs rest : Bytes} {a : α}
    (h : m bs = .ok (a, rest)) : (m >>= f) bs = f a rest := by
  simp [bind, StateT.bind, h, Except.bind]

theorem readByte_cons (b : UInt8) (rest : Bytes) : readByte (b :: rest) = .ok (b, rest) := rfl

/-- Big-endian bytes come back as a number. -/
theorem readUInt_bigEndian (n k : ℕ) (rest : Bytes) :
    readUInt k (bigEndian n k ++ rest) = .ok (n % 256 ^ k, rest) := by
  induction k generalizing n rest with
  | zero =>
    rw [pow_zero, Nat.mod_one]
    rfl
  | succ k ih =>
    have hb : n.toUInt8.toNat = n % 256 := UInt8.toNat_ofNat'
    have hn : n / 256 % 256 ^ k * 256 + n % 256 = n % 256 ^ (k + 1) := by
      rw [Nat.pow_succ', Nat.mod_mul]
      omega
    rw [readUInt, bigEndian, List.append_assoc, bind_of_ok (ih (n / 256) _), List.singleton_append,
      bind_of_ok (readByte_cons _ _), hb, hn]
    rfl

theorem toInt32_of_lt {n : ℕ} (h : n < 2 ^ 31) : toInt32 n = n := by
  have hn : n % 2 ^ 32 = n := Nat.mod_eq_of_lt (by omega)
  rw [toInt32, hn, if_pos h]

/-- The first byte of a header. -/
theorem toNat_headerByte {major ai : ℕ} (hm : major < 8) (ha : ai < 32) :
    (major * 32 + ai).toUInt8.toNat / 32 = major ∧ (major * 32 + ai).toUInt8.toNat % 32 = ai := by
  have hb : (major * 32 + ai).toUInt8.toNat = major * 32 + ai := by
    rw [show (major * 32 + ai).toUInt8.toNat = (major * 32 + ai) % 256 from UInt8.toNat_ofNat']
    omega
  rw [hb]
  omega

/-- A header whose additional info is `ai`. -/
theorem readHeader_cons {major ai : ℕ} (hm : major < 8) (ha : ai < 32) {value : ℤ}
    {bs rest : Bytes} (h : readValue ai bs = .ok (value, rest)) :
    readHeader ((major * 32 + ai).toUInt8 :: bs) = .ok ((major, value), rest) := by
  obtain ⟨hq, hr⟩ := toNat_headerByte hm ha
  rw [readHeader, bind_of_ok (readByte_cons _ _), hq, hr, bind_of_ok h]
  rfl

/-- A number whose header comes back: its lower half is not read as negative. -/
def headerOk (n : ℕ) : Bool :=
  n % 2 ^ 32 < 2 ^ 31 ∧ n ≤ MAX_SAFE_INTEGER

theorem headerOk_of_lt {n : ℕ} (h : n < 2 ^ 31) : headerOk n := by
  have hmax : MAX_SAFE_INTEGER = 9007199254740991 := rfl
  simp only [headerOk, decide_eq_true_eq]
  omega

theorem bigEndian_add (n j k : ℕ) :
    bigEndian n (j + k) = bigEndian (n / 256 ^ k) j ++ bigEndian n k := by
  induction k generalizing n with
  | zero => simp [bigEndian]
  | succ k ih =>
    rw [← Nat.add_assoc, bigEndian, bigEndian, ih, Nat.div_div_eq_div_mul, ← Nat.pow_succ',
      List.append_assoc]

/-- Both halves of eight bytes come back. -/
theorem readValue_8BYTE {value : ℕ} (hv : headerOk value) (rest : Bytes) :
    readValue AI_8BYTE (bigEndian value 8 ++ rest) = .ok ((value : ℤ), rest) := by
  have hmax : MAX_SAFE_INTEGER = 9007199254740991 := rfl
  simp only [headerOk, decide_eq_true_eq] at hv
  have hhi : value / 256 ^ 4 % 256 ^ 4 = value / 2 ^ 32 := by omega
  have hlo : value % 256 ^ 4 = value % 2 ^ 32 := by omega
  have hsum : ((value / 2 ^ 32 : ℕ) : ℤ) * 0x100000000 + ((value % 2 ^ 32 : ℕ) : ℤ) = value := by
    omega
  have hsafe : ¬ MAX_SAFE_INTEGER < (value : ℤ).natAbs := by omega
  rw [bigEndian_add value 4 4, List.append_assoc]
  change (readUInt 4 >>= fun hi => readUInt 4 >>= fun lo =>
    if MAX_SAFE_INTEGER < (toInt32 hi * 0x100000000 + toInt32 lo).natAbs then _ else pure _) _ = _
  rw [bind_of_ok (readUInt_bigEndian _ 4 _), bind_of_ok (readUInt_bigEndian _ 4 _), hhi, hlo,
    toInt32_of_lt (by omega), toInt32_of_lt hv.1, hsum, if_neg hsafe]
  rfl

/-- A header comes back. -/
theorem readHeader_writeHeader {major value : ℕ} (hm : major < 8) (hv : headerOk value)
    (rest : Bytes) :
    readHeader (writeHeader major value ++ rest) = .ok ((major, (value : ℤ)), rest) := by
  -- One case for each width of the header.
  rw [writeHeader]
  split_ifs with h₁ h₂ h₃ h₄
  · refine readHeader_cons hm (by omega) ?_
    rw [readValue, if_pos h₁]
    rfl
  · refine readHeader_cons hm (by decide) ?_
    have hmod : value % 256 ^ 1 = value := Nat.mod_eq_of_lt (by omega)
    change (readUInt 1 >>= fun n => pure (n : ℤ)) (bigEndian value 1 ++ rest) = _
    rw [bind_of_ok (readUInt_bigEndian value 1 rest), hmod]
    rfl
  · refine readHeader_cons hm (by decide) ?_
    have hmod : value % 256 ^ 2 = value := Nat.mod_eq_of_lt (by omega)
    change (readUInt 2 >>= fun n => pure (n : ℤ)) (bigEndian value 2 ++ rest) = _
    rw [bind_of_ok (readUInt_bigEndian value 2 rest), hmod]
    rfl
  · refine readHeader_cons hm (by decide) ?_
    have hmod : value % 256 ^ 4 = value := Nat.mod_eq_of_lt (by omega)
    change (readUInt 4 >>= fun n => pure (toInt32 n)) (bigEndian value 4 ++ rest) = _
    have hlt : value < 2 ^ 31 := by
      simp only [headerOk, decide_eq_true_eq] at hv
      omega
    rw [bind_of_ok (readUInt_bigEndian value 4 rest), hmod, toInt32_of_lt hlt]
    rfl
  · exact readHeader_cons hm (by decide) (readValue_8BYTE hv rest)

/-- The next bytes come back. -/
theorem readBytes_append (bs rest : Bytes) : readBytes bs.length (bs ++ rest) = .ok (bs, rest) := by
  have h : ¬ ((bs.length : ℤ) < 0) := by omega
  simp [readBytes, h]

theorem length_writeHeader_pos (major value : ℕ) : 0 < (writeHeader major value).length := by
  unfold writeHeader
  split_ifs <;> simp

/-! ## The order of the keys -/

variable {α β : Type}

theorem perm_sortKeys (fs : List (String × α)) : (sortKeys fs).Perm fs :=
  List.perm_insertionSort _ _

@[simp] theorem length_sortKeys (fs : List (String × α)) : (sortKeys fs).length = fs.length :=
  (perm_sortKeys fs).length_eq

theorem nodup_keys_sortKeys {fs : List (String × α)} (h : (AssocList.keys fs).Nodup) :
    (AssocList.keys (sortKeys fs)).Nodup :=
  ((perm_sortKeys fs).map Prod.fst).nodup_iff.2 h

/-- Sorting the keys changes no field. -/
theorem lookup_sortKeys {fs : List (String × α)} (h : (AssocList.keys fs).Nodup) (key : String) :
    (sortKeys fs).lookup key = fs.lookup key := by
  ext v
  rw [← AssocList.mem_iff_lookup (nodup_keys_sortKeys h), ← AssocList.mem_iff_lookup h,
    (perm_sortKeys fs).mem_iff]

/-- The order of the fields does not depend on their values. -/
theorem sortKeys_map (f : α → β) (fs : List (String × α)) :
    sortKeys (fs.map fun p => (p.1, f p.2)) = (sortKeys fs).map fun p => (p.1, f p.2) :=
  (List.map_insertionSort (r := fun a b : String × α => keyLe a.1 b.1)
    (s := fun a b : String × β => keyLe a.1 b.1) (fun p => (p.1, f p.2)) fs
    fun _ _ _ _ => Iff.rfl).symm

/-! ## Values that come back -/

/-- A string whose encoding comes back. -/
def plainText (s : String) : Bool :=
  (textEncode s).length < 2 ^ 31 ∧ s.toList.head? ≠ some '\uFEFF'

mutual

/-- A value whose encoding comes back. -/
def plain : Value → Bool
  | .null => true
  | .bool _ => true
  | .int i => i.natAbs ≤ MAX_SAFE_INTEGER ∧ headerOk (if 0 ≤ i then i else -1 - i).toNat
  | .text s => plainText s
  | .bytes bs => bs.length < 2 ^ 31
  | .array xs => xs.length < 2 ^ 31 ∧ plainItems xs
  | .object fields => fields.length < 2 ^ 31 ∧ (AssocList.keys fields).Nodup ∧
      linkField fields = none ∧ plainFields fields
  | .link cid => cid.bytes.length + 1 < 2 ^ 31
  | .undefined => false
  | .float _ => false

def plainItems : List Value → Bool
  | [] => true
  | x :: xs => plain x && plainItems xs

def plainFields : List (String × Value) → Bool
  | [] => true
  | (key, val) :: fs =>
    plainText key && (key ≠ "__proto__" : Bool) && plain val && plainFields fs

end

mutual

/-- The value with the keys of every object sorted. -/
def canon : Value → Value
  | .array xs => .array (canonItems xs)
  | .object fields => .object (sortKeys (canonFields fields))
  | v => v

def canonItems : List Value → List Value
  | [] => []
  | x :: xs => canon x :: canonItems xs

def canonFields : List (String × Value) → List (String × Value)
  | [] => []
  | (key, val) :: fs => (key, canon val) :: canonFields fs

end

/-- The bytes `out` come back as the value `v`, whatever follows them. -/
def Reads (out : Bytes) (v : Value) : Prop :=
  ∀ fuel rest, out.length < fuel → decodeValue fuel (out ++ rest) = .ok (v, rest)

/-- A header and what follows it come back together. -/
theorem reads_of_body {major value : ℕ} {body : Bytes} {v : Value} (hm : major < 8)
    (hv : headerOk value)
    (h : ∀ fuel rest, body.length < fuel →
      decodeBody (decodeValue fuel) major value (body ++ rest) = .ok (v, rest)) :
    Reads (writeHeader major value ++ body) v := by
  intro fuel rest hf
  have hlen := length_writeHeader_pos major value
  rw [List.length_append] at hf
  obtain ⟨fuel, rfl⟩ : ∃ n, fuel = n + 1 := ⟨fuel - 1, by omega⟩
  rw [List.append_assoc, decodeValue, bind_of_ok (readHeader_writeHeader hm hv _)]
  exact h fuel rest (by omega)

/-- A header with nothing after it comes back. -/
theorem reads_of_header {major value : ℕ} {v : Value} (hm : major < 8) (hv : headerOk value)
    (h : ∀ item rest, decodeBody item major value rest = .ok (v, rest)) :
    Reads (writeHeader major value) v := by
  rw [← List.append_nil (writeHeader major value)]
  exact reads_of_body hm hv fun _ _ _ => h _ _

theorem reads_text {s : String} (h : plainText s) : Reads (encodeText s) (.text s) := by
  simp only [plainText, decide_eq_true_eq] at h
  refine reads_of_body (by decide) (headerOk_of_lt h.1) fun fuel rest _ => ?_
  change (readBytes _ >>= fun bs => pure (Value.text (textDecode bs))) _ = _
  rw [bind_of_ok (readBytes_append _ _), textDecode_textEncode h.2]
  rfl

theorem reads_bytes {bs : Bytes} (h : bs.length < 2 ^ 31) :
    Reads (writeHeader MAJOR_BYTES bs.length ++ bs) (.bytes bs) := by
  refine reads_of_body (by decide) (headerOk_of_lt h) fun fuel rest _ => ?_
  change (readBytes _ >>= fun bs => pure (Value.bytes bs)) _ = _
  rw [bind_of_ok (readBytes_append _ _)]
  rfl

theorem reads_link {cid : Cid} (h : cid.bytes.length + 1 < 2 ^ 31) :
    Reads (encodeLink cid.bytes) (.link cid) := by
  rw [encodeLink, List.append_assoc]
  refine reads_of_body (by decide) (by decide) fun fuel rest _ => ?_
  rw [List.append_assoc]
  change (readHeader >>= fun p => if p.1 = MAJOR_BYTES then _ else _) _ = _
  rw [bind_of_ok (readHeader_writeHeader (by decide) (headerOk_of_lt h) _)]
  change (readBytes ((0x00 :: cid.bytes).length : ℕ) >>= fun bs => pure (cidLink bs)) _ = _
  rw [bind_of_ok (readBytes_append _ _)]
  rfl

theorem reads_int {i : ℤ} (hsafe : i.natAbs ≤ MAX_SAFE_INTEGER)
    (h : headerOk (if 0 ≤ i then i else -1 - i).toNat) :
    ∃ out, encodeValue (.int i) = .ok out ∧ Reads out (.int i) := by
  by_cases hi : 0 ≤ i
  · rw [if_pos hi] at h
    refine ⟨_, by rw [encodeValue, if_pos hsafe, if_pos hi], ?_⟩
    refine reads_of_header (by decide) h fun item rest => ?_
    rw [Int.toNat_of_nonneg hi]
    rfl
  · rw [if_neg hi] at h
    refine ⟨_, by rw [encodeValue, if_pos hsafe, if_neg hi], ?_⟩
    refine reads_of_header (by decide) h fun item rest => ?_
    rw [Int.toNat_of_nonneg (by omega)]
    change Except.ok (Value.int (-1 - (-1 - i)), rest) = _
    rw [show -1 - (-1 - i) = i by omega]

/-- The fields of a map, with the bytes of each value, are read into an object that
    has none of their keys. -/
theorem readFields_joinFields {ts : List (String × Value × Bytes)}
    (hr : ∀ t ∈ ts, plainText t.1 ∧ t.1 ≠ "__proto__" ∧ Reads t.2.2 t.2.1)
    (hn : (AssocList.keys ts).Nodup) :
    ∃ out, joinFields (ts.map fun t => (t.1, .ok t.2.2)) = .ok out ∧
      ∀ fuel obj rest, out.length < fuel → (∀ t ∈ ts, t.1 ∉ AssocList.keys obj) →
        readFields (decodeValue fuel) ts.length obj (out ++ rest) =
          .ok (obj ++ ts.map fun t => (t.1, t.2.1), rest) := by
  induction ts with
  | nil => exact ⟨[], rfl, fun fuel obj rest _ _ => by
      rw [List.map_nil, List.append_nil]
      rfl⟩
  | cons t ts ih =>
    obtain ⟨key, val, bs⟩ := t
    rw [AssocList.keys_cons, List.nodup_cons] at hn
    obtain ⟨out, hout, hread⟩ := ih (fun t ht => hr t (List.mem_cons_of_mem _ ht)) hn.2
    obtain ⟨hkey, hproto, hval⟩ := hr _ List.mem_cons_self
    dsimp only at hkey hproto hval
    refine ⟨encodeText key ++ bs ++ out, ?_, fun fuel obj rest hf hobj => ?_⟩
    · rw [List.map_cons, joinFields, hout]
      rfl
    · simp only [List.length_append] at hf
      have hfresh : key ∉ AssocList.keys obj := hobj _ List.mem_cons_self
      have hset : AssocList.set key val obj = obj ++ [(key, val)] :=
        AssocList.set_of_not_mem val hfresh
      rw [List.length_cons, readFields, List.append_assoc, List.append_assoc,
        bind_of_ok (reads_text hkey fuel _ (by omega))]
      change (decodeValue fuel >>= _) _ = _
      rw [bind_of_ok (hval fuel _ (by omega)), if_neg hproto, hset, hread fuel _ rest (by omega)]
      · simp
      · intro t ht hmem
        rw [AssocList.keys_append, List.mem_append] at hmem
        rcases hmem with hmem | hmem
        · exact hobj t (List.mem_cons_of_mem _ ht) hmem
        · have hkey : t.1 = key := List.mem_singleton.1 hmem
          have hmem := AssocList.mem_keys_of_mem ht
          rw [hkey] at hmem
          exact hn.1 hmem

theorem plain_int_of_lt {i : ℤ} (h : 0 ≤ i) (hi : i < 2 ^ 31) : plain (.int i) := by
  have hmax : MAX_SAFE_INTEGER = 9007199254740991 := rfl
  simp only [plain, decide_eq_true_eq, if_pos h]
  exact ⟨by omega, headerOk_of_lt (by omega)⟩

theorem plain_object {fields : List (String × Value)} : plain (.object fields) ↔
    fields.length < 2 ^ 31 ∧ (AssocList.keys fields).Nodup ∧ linkField fields = none ∧
      plainFields fields := by
  simp only [plain, decide_eq_true_eq]

theorem plain_array {xs : List Value} :
    plain (.array xs) ↔ xs.length < 2 ^ 31 ∧ ∀ x ∈ xs, plain x := by
  have hitems : plainItems xs ↔ ∀ x ∈ xs, plain x := by
    induction xs with
    | nil => simp [plainItems]
    | cons x xs ih => simp [plainItems, ih]
  simp only [plain, decide_eq_true_eq, hitems]

theorem plainFields_cons {key : String} {val : Value} {fs : List (String × Value)}
    (hkey : plainText key ∧ key ≠ "__proto__") (hval : plain val) (hfs : plainFields fs) :
    plainFields ((key, val) :: fs) := by
  simp [plainFields, hkey, hval, hfs]

/-! ## The round trip -/

mutual

/-- A plain value is encoded, and its encoding comes back in canonical form. -/
theorem reads_encodeValue : ∀ {v : Value}, plain v →
    ∃ out, encodeValue v = .ok out ∧ Reads out (canon v)
  | .null, _ => ⟨_, rfl, reads_of_header (by decide) (by decide) fun _ _ => rfl⟩
  | .bool true, _ => ⟨_, rfl, reads_of_header (by decide) (by decide) fun _ _ => rfl⟩
  | .bool false, _ => ⟨_, rfl, reads_of_header (by decide) (by decide) fun _ _ => rfl⟩
  | .int i, h => by
    simp only [plain, decide_eq_true_eq] at h
    exact reads_int h.1 h.2
  | .text s, h => ⟨_, rfl, reads_text h⟩
  | .bytes bs, h => ⟨_, rfl, reads_bytes (by simpa [plain] using h)⟩
  | .link cid, h => ⟨_, rfl, reads_link (by simpa [plain] using h)⟩
  | .array xs, h => by
    simp only [plain, decide_eq_true_eq] at h
    obtain ⟨out, hout, hread⟩ := reads_encodeItems h.2
    refine ⟨_, by rw [encodeValue, hout]; rfl,
      reads_of_body (by decide) (headerOk_of_lt h.1) fun fuel rest hf => ?_⟩
    change (readItems (decodeValue fuel) xs.length >>= fun xs => pure (Value.array xs)) _ = _
    rw [bind_of_ok (hread fuel rest hf)]
    rfl
  | .object fields, h => by
    simp only [plain, decide_eq_true_eq] at h
    obtain ⟨hlen, hn, hlink, hplain⟩ := h
    obtain ⟨ts, henc, hcanon, hkeys, hr⟩ := reads_encodeFields hplain
    have hperm := perm_sortKeys ts
    have hkeysSorted : (AssocList.keys (sortKeys ts)).Nodup := nodup_keys_sortKeys (hkeys ▸ hn)
    obtain ⟨out, hout, hread⟩ :=
      readFields_joinFields (fun t ht => hr t (hperm.mem_iff.1 ht)) hkeysSorted
    have hts : (sortKeys ts).length = fields.length := by
      rw [length_sortKeys, ← List.length_map (f := Prod.fst), ← List.length_map (f := Prod.fst)]
      exact congrArg _ hkeys.symm
    refine ⟨writeHeader MAJOR_MAP fields.length ++ out, ?_,
      reads_of_body (by decide) (headerOk_of_lt hlen) fun fuel rest hf => ?_⟩
    · rw [encodeValue]
      simp only [hlink, henc, sortKeys_map (fun t : Value × Bytes => Except.ok t.2) ts, hout]
      rfl
    · change (readFields (decodeValue fuel) fields.length [] >>=
        fun fs => pure (Value.object fs)) _ = _
      rw [← hts, bind_of_ok (hread fuel [] rest hf (by simp)), canon, hcanon,
        sortKeys_map (fun t : Value × Bytes => t.1) ts]
      rfl

theorem reads_encodeItems : ∀ {xs : List Value}, plainItems xs →
    ∃ out, encodeItems xs = .ok out ∧ ∀ fuel rest, out.length < fuel →
      readItems (decodeValue fuel) xs.length (out ++ rest) = .ok (canonItems xs, rest)
  | [], _ => ⟨[], rfl, fun _ _ _ => rfl⟩
  | x :: xs, h => by
    simp only [plainItems, Bool.and_eq_true] at h
    obtain ⟨out₁, hout₁, hread₁⟩ := reads_encodeValue h.1
    obtain ⟨out₂, hout₂, hread₂⟩ := reads_encodeItems h.2
    refine ⟨out₁ ++ out₂, by rw [encodeItems, hout₁, hout₂]; rfl, fun fuel rest hf => ?_⟩
    rw [List.length_append] at hf
    rw [List.length_cons, readItems, List.append_assoc, bind_of_ok (hread₁ fuel _ (by omega)),
      bind_of_ok (hread₂ fuel rest (by omega))]
    rfl

/-- The fields of an object, each with its canonical value and its bytes. -/
theorem reads_encodeFields : ∀ {fs : List (String × Value)}, plainFields fs →
    ∃ ts : List (String × Value × Bytes),
      encodeFields fs = ts.map (fun t => (t.1, .ok t.2.2)) ∧
      canonFields fs = ts.map (fun t => (t.1, t.2.1)) ∧
      AssocList.keys fs = AssocList.keys ts ∧
      ∀ t ∈ ts, plainText t.1 ∧ t.1 ≠ "__proto__" ∧ Reads t.2.2 t.2.1
  | [], _ => ⟨[], rfl, rfl, rfl, by simp⟩
  | (key, val) :: fs, h => by
    simp only [plainFields, Bool.and_eq_true, decide_eq_true_eq] at h
    obtain ⟨⟨⟨hkey, hproto⟩, hval⟩, hfs⟩ := h
    obtain ⟨out, hout, hread⟩ := reads_encodeValue hval
    obtain ⟨ts, henc, hcanon, hkeys, hr⟩ := reads_encodeFields hfs
    refine ⟨(key, canon val, out) :: ts, by rw [encodeFields, hout, henc]; rfl,
      by rw [canonFields, hcanon]; rfl, by simp [hkeys], ?_⟩
    intro t ht
    rcases List.mem_cons.1 ht with rfl | ht
    · exact ⟨hkey, hproto, hread⟩
    · exact hr t ht

end

/-- A plain value comes back, in canonical form. -/
theorem decode_encode {v : Value} (h : plain v) :
    ∃ out, encode v = .ok out ∧ decode out = .ok (canon v) := by
  obtain ⟨out, hout, hread⟩ := reads_encodeValue h
  refine ⟨out, hout, ?_⟩
  have hdec := hread (out.length + 1) [] (by omega)
  rw [List.append_nil] at hdec
  rw [decode, hdec]
  rfl

end ComputeContract.Cbor
