import ComputeContract.Repo.Repo

/-!
# CAR files

A CAR file holds a header with the roots, and then blocks, each with its CID in front of it; the
header and every block come after their length, an unsigned varint. The decoder goes through the
buffer by an offset, and its lengths are read with 32-bit bitwise operators.

* `importCar`: the roots and the blocks of a file;
* `exportCar`: the blocks that are collected from a root;
* `importCar_carOf`: a file with short blocks is read as it was written.
-/

namespace ComputeContract

open Cbor (toInt32)

/-! ## Reading -/

/-- `buf[i]`, as the bitwise operators take it. -/
def byteAt (buf : Bytes) (i : ℤ) : ℕ :=
  if i < 0 then 0 else ((buf[i.toNat]?).map UInt8.toNat).getD 0

/-- The loop of `readVarint`, with the value so far and the number of bytes read; `n` more bytes
    may follow. -/
def readVarintLoop (buf : Bytes) (offset : ℤ) : ℕ → ℕ → ℕ → ℕ → Except String (ℤ × ℕ)
  | 0, _, _, _ => .error "CAR: varint too long"
  | n + 1, shift, value, bytesRead =>
    if offset + bytesRead < buf.length then
      let b := byteAt buf (offset + bytesRead)
      let value := value ||| ((b % 0x80) <<< (shift % 32)) % 2 ^ 32
      if b < 0x80 then .ok (toInt32 value, bytesRead + 1)
      else readVarintLoop buf offset n (shift + 7) value (bytesRead + 1)
    else .ok (toInt32 value, bytesRead)

/-- The value of a varint and the bytes it takes. -/
def readVarint (buf : Bytes) (offset : ℤ) : Except String (ℤ × ℕ) :=
  readVarintLoop buf offset 10 0 0 0

/-- `buf.slice(start, stop)` -/
def slice (buf : Bytes) (start stop : ℤ) : Bytes :=
  let index (i : ℤ) : ℕ := (if i < 0 then i + buf.length else min i buf.length).toNat
  (buf.drop (index start)).take (index stop - index start)

/-- The raw bytes of a CID: 4 of its header and 32 of its digest. -/
def CIDV1_LEN : ℕ := 36

/-- The loop over the blocks, from an offset on; `none` when the fuel runs out. -/
def importBlocks (carBytes : Bytes) : ℕ → ℤ → Option (Except String (List (Cid × Bytes)))
  | 0, _ => none
  | fuel + 1, offset =>
    if offset < carBytes.length then
      match readVarint carBytes offset with
      | .error e => some (.error e)
      | .ok (blockLen, blkVarintLen) =>
        let offset := offset + blkVarintLen
        if blockLen = 0 then importBlocks carBytes fuel offset
        else
          let blockData := slice carBytes offset (offset + blockLen)
          if blockData.length < CIDV1_LEN then
            some (.error s!"CAR: block too short for CID: {blockData.length} bytes")
          else
            (importBlocks carBytes fuel (offset + blockLen)).map fun blocks => blocks.map
              ((⟨blockData.take CIDV1_LEN⟩, blockData.drop CIDV1_LEN) :: ·)
    else some (.ok [])

/-- A root in a header, a byte string. -/
def rootOf : Value → Except String Cid
  | .bytes bs => .ok ⟨bs⟩
  | _ => .error "not a root"

/-- The roots of a header. -/
def headerRoots (header : Value) : Except String (List Cid) := do
  if header.isNull then throw "Cannot read properties of null (reading 'roots')"
  match header.get? "roots" with
  | none | some .null => return []
  | some (.array roots) => roots.mapM rootOf
  | _ => throw "(intermediate value).map is not a function"

/-- The roots and the blocks of a CAR file. -/
def importCar (fuel : ℕ) (carBytes : Bytes) : Option (Except String (List Cid × List (Cid × Bytes))) :=
  match readVarint carBytes 0 with
  | .error e => some (.error e)
  | .ok (headerLen, hdrVarintLen) =>
    match Cbor.decode (slice carBytes hdrVarintLen (hdrVarintLen + headerLen)) >>= headerRoots with
    | .error e => some (.error e)
    | .ok roots => (importBlocks carBytes fuel (hdrVarintLen + headerLen)).map fun blocks =>
        blocks.map fun blocks => (roots, blocks)

/-! ## Writing -/

/-- The links of the entries of a node to their records, up to an entry that cannot be read. -/
def entryLinks : List Value → List Cid
  | [] => []
  | .null :: _ => []
  | entry :: es => (linkOf (entry.get? "v")).toList ++ entryLinks es

/-- The links that are followed from a block. -/
def childLinks (bytes : Bytes) : List Cid :=
  match Cbor.decode bytes with
  | .error _ => []
  | .ok obj => (linkOf (obj.get? "l")).toList ++
    match obj.get? "e" with
    | some (.array entries) => entryLinks entries
    | _ => []

section
variable (collect : List Cid → Cid → Except String (List (Cid × Bytes)) × List Cid)

/-- The links of a block are followed one after the other; one that throws ends it, and is
    caught. -/
def collectLinks : List Cid → List Cid → List (Cid × Bytes) × List Cid
  | seen, [] => ([], seen)
  | seen, cid :: cids =>
    match collect seen cid with
    | (.error _, seen) => ([], seen)
    | (.ok blocks, seen) =>
      let (rest, seen) := collectLinks seen cids
      (blocks ++ rest, seen)

end

/-- The blocks that are collected from a root, and what was seen; `fuel` bounds the depth. -/
def collectAllBlocks (store : BlockStore) : ℕ → List Cid → Cid →
    Except String (List (Cid × Bytes)) × List Cid
  | 0, seen, _ => (.error "Maximum call stack size exceeded", seen)
  | fuel + 1, seen, rootCid =>
    if rootCid ∈ seen then (.ok [], seen)
    else
      match store.get rootCid with
      | none => (.error s!"CAR: block not found: {rootCid.toString}", seen ++ [rootCid])
      | some bytes =>
        let (blocks, seen) :=
          collectLinks (collectAllBlocks store fuel) (seen ++ [rootCid]) (childLinks bytes)
        (.ok ((rootCid, bytes) :: blocks), seen)

/-- A block behind its length, with its CID in front of it. -/
def carBlock (block : Cid × Bytes) : Bytes :=
  varintEncode (block.1.bytes ++ block.2).length ++ (block.1.bytes ++ block.2)

def carHeader (roots : List Cid) : Value :=
  .object [("roots", .array (roots.map fun root => .bytes root.bytes)), ("version", .int 1)]

/-- A CAR file with these roots and blocks. -/
def carOf (roots : List Cid) (blocks : List (Cid × Bytes)) : Except String Bytes := do
  let header ← Cbor.encode (carHeader roots)
  return varintEncode header.length ++ header ++ blocks.flatMap carBlock

/-- Export the full repo as a CAR file. No path is longer than there are blocks. -/
def exportCar (store : BlockStore) (rootCid : Cid) : Except String Bytes := do
  let blocks ← (collectAllBlocks store (store.length + 2) [] rootCid).1
  carOf [rootCid] blocks

/-! ## Varints -/

variable {buf : Bytes}

theorem byteAt_of_drop {n : ℕ} {b : UInt8} {rest : Bytes} (h : buf.drop n = b :: rest) :
    byteAt buf n = b.toNat := by
  have hget : buf[n]? = some b := by rw [← List.head?_drop, h, List.head?_cons]
  rw [byteAt, if_neg (by omega), Int.toNat_natCast, hget, Option.map_some, Option.getD_some]

theorem lt_length_of_drop {n : ℕ} {b : UInt8} {rest : Bytes} (h : buf.drop n = b :: rest) :
    n < buf.length := by
  by_contra hn
  rw [List.drop_of_length_le (by omega)] at h
  cases h

/-- The bits of a byte are put before those of the value so far. -/
theorem or_shift {value b shift : ℕ} (hvalue : value < 2 ^ shift)
    (hb : value + b * 2 ^ shift < 2 ^ 32) (hshift : shift < 32) :
    value ||| (b <<< (shift % 32)) % 2 ^ 32 = value + b * 2 ^ shift := by
  have hor : value ||| b * 2 ^ shift = value + b * 2 ^ shift := by
    rw [Nat.or_comm, Nat.mul_comm b, ← Nat.two_pow_add_eq_or_of_lt hvalue, Nat.add_comm]
  rw [Nat.mod_eq_of_lt hshift, Nat.shiftLeft_eq,
    Nat.mod_eq_of_lt (by omega : b * 2 ^ shift < 2 ^ 32), hor]

/-- The rest `m` of a number is read from its varint, with `k` bytes read before. -/
theorem readVarintLoop_varintEncode {rest : Bytes} {offset : ℕ} (m : ℕ) :
    ∀ {k value : ℕ}, buf.drop (offset + k) = varintEncode m ++ rest → value < 2 ^ (7 * k) →
      value + m * 2 ^ (7 * k) < 2 ^ 32 → 7 * k < 32 →
      readVarintLoop buf offset (10 - k) (7 * k) value k =
        .ok (toInt32 (value + m * 2 ^ (7 * k)), k + (varintEncode m).length) := by
  induction m using Nat.strongRecOn with
  | ind m ih =>
    intro k value hdrop hvalue hlt hk
    obtain ⟨n, hn⟩ : ∃ n, 10 - k = n + 1 := ⟨9 - k, by omega⟩
    rw [hn]
    by_cases hm : m > 0x7f
    · have hmod : m % 0x100000000 / 0x80 = m / 0x80 := by
        have hle : m ≤ m * 2 ^ (7 * k) := Nat.le_mul_of_pos_right m (Nat.two_pow_pos _)
        rw [Nat.mod_eq_of_lt (by omega)]
      have hencode : varintEncode m = (m % 0x80 + 0x80).toUInt8 :: varintEncode (m / 0x80) := by
        rw [varintEncode, if_pos hm, hmod]
      have hb : ((m % 0x80 + 0x80).toUInt8).toNat = m % 0x80 + 0x80 := by
        simp only [Nat.toUInt8, UInt8.toNat_ofNat']
        omega
      rw [hencode, List.cons_append] at hdrop
      have hsplit : m * 2 ^ (7 * k) = m % 0x80 * 2 ^ (7 * k) + m / 0x80 * 2 ^ (7 * (k + 1)) := by
        rw [Nat.mul_succ, Nat.pow_add]
        calc m * 2 ^ (7 * k) = (m % 0x80 + 0x80 * (m / 0x80)) * 2 ^ (7 * k) := by
              rw [Nat.mod_add_div]
          _ = m % 0x80 * 2 ^ (7 * k) + m / 0x80 * (2 ^ (7 * k) * 2 ^ 7) := by
              rw [Nat.add_mul, Nat.mul_comm 0x80 (m / 0x80), Nat.mul_assoc, Nat.mul_comm 0x80]
              rfl
      have hnext : value + m % 0x80 * 2 ^ (7 * k) < 2 ^ (7 * (k + 1)) := by
        have hle : m % 0x80 * 2 ^ (7 * k) ≤ 0x7f * 2 ^ (7 * k) :=
          Nat.mul_le_mul_right _ (by omega)
        rw [Nat.mul_succ, Nat.pow_add]
        omega
      -- another byte is read only where it counts
      have hk' : 7 * (k + 1) < 32 := by
        have hle : 2 ^ (7 * (k + 1)) ≤ m / 0x80 * 2 ^ (7 * (k + 1)) :=
          Nat.le_mul_of_pos_left _ (by omega)
        exact (Nat.pow_lt_pow_iff_right (by decide : 1 < 2)).1 (by omega)
      have hrest : buf.drop (offset + (k + 1)) = varintEncode (m / 0x80) ++ rest := by
        rw [← Nat.add_assoc, ← List.drop_drop, hdrop]
        rfl
      have hread := ih (m / 0x80) (by omega) hrest hnext (by omega) hk'
      rw [readVarintLoop, ← Int.natCast_add, byteAt_of_drop hdrop, if_pos (by
        exact_mod_cast lt_length_of_drop hdrop), hb]
      dsimp only
      rw [show (m % 0x80 + 0x80) % 0x80 = m % 0x80 by omega, or_shift hvalue (by omega) hk,
        if_neg (by omega), show n = 10 - (k + 1) by omega, ← Nat.mul_succ, hread, hsplit, hencode,
        List.length_cons, Nat.add_assoc, Nat.add_right_comm k, Nat.add_assoc k]
    · have hencode : varintEncode m = [m.toUInt8] := by rw [varintEncode, if_neg hm]
      have hb : m.toUInt8.toNat = m := by
        simp only [Nat.toUInt8, UInt8.toNat_ofNat']
        omega
      rw [hencode, List.singleton_append] at hdrop
      rw [readVarintLoop, ← Int.natCast_add, byteAt_of_drop hdrop, if_pos (by
        exact_mod_cast lt_length_of_drop hdrop), hb]
      dsimp only
      rw [Nat.mod_eq_of_lt (by omega : m < 0x80), or_shift hvalue hlt hk, if_pos (by omega), hencode]
      rfl

theorem readVarint_of_lt {offset n : ℕ} {rest : Bytes} (hn : n < 2 ^ 32)
    (h : buf.drop offset = varintEncode n ++ rest) :
    readVarint buf offset = .ok (toInt32 n, (varintEncode n).length) := by
  have hread := @readVarintLoop_varintEncode buf rest offset n 0 0 h (by decide) (by omega)
    (by decide)
  rw [readVarint]
  simpa using hread

/-- A number is read from its varint as 32 bits of it. -/
theorem readVarint_toInt32 {offset n : ℕ} {rest : Bytes}
    (h : buf.drop offset = varintEncode n ++ rest) :
    readVarint buf offset = .ok (toInt32 n, (varintEncode n).length) := by
  rcases lt_or_ge n (2 ^ 32) with hlt | hge
  · exact readVarint_of_lt hlt h
  · have hencode : varintEncode n = (n % 0x80 + 0x80).toUInt8 ::
        varintEncode (n % 2 ^ 32 / 0x80) := by
      rw [varintEncode, if_pos (by omega)]
      rfl
    have hb : ((n % 0x80 + 0x80).toUInt8).toNat = n % 0x80 + 0x80 := by
      simp only [Nat.toUInt8, UInt8.toNat_ofNat']
      omega
    rw [hencode, List.cons_append] at h
    have hdrop : buf.drop (offset + 1) = varintEncode (n % 2 ^ 32 / 0x80) ++ rest := by
      rw [← List.drop_drop, h]
      rfl
    have hsum : n % 0x80 + n % 2 ^ 32 / 0x80 * 2 ^ (7 * 1) = n % 2 ^ 32 := by omega
    have hread := @readVarintLoop_varintEncode buf rest offset (n % 2 ^ 32 / 0x80) 1 (n % 0x80)
      hdrop (by omega) (by omega) (by decide)
    have hbyte : byteAt buf (offset + (0 : ℕ)) = n % 0x80 + 0x80 := by
      rw [Int.natCast_zero, Int.add_zero, byteAt_of_drop h, hb]
    have hoffset := lt_length_of_drop h
    rw [readVarint, readVarintLoop, if_pos (by omega), hbyte]
    dsimp only
    rw [show (n % 0x80 + 0x80) % 0x80 = n % 0x80 by omega, or_shift (by decide) (by omega) (by decide),
      if_neg (by omega), Nat.pow_zero, Nat.mul_one, Nat.zero_add (n % 0x80)]
    refine hread.trans ?_
    rw [hsum, hencode, List.length_cons, Nat.add_comm 1, toInt32, Nat.mod_mod, ← toInt32]

/-- A length is read from its varint. -/
theorem readVarint_varintEncode {offset n : ℕ} {rest : Bytes} (hn : n < 2 ^ 31)
    (h : buf.drop offset = varintEncode n ++ rest) :
    readVarint buf offset = .ok ((n : ℤ), (varintEncode n).length) := by
  rw [readVarint_of_lt (by omega) h, Cbor.toInt32_of_lt hn]

theorem length_varintEncode_pos (n : ℕ) : 0 < (varintEncode n).length := by
  rw [varintEncode]
  split <;> simp

/-! ## The header -/

theorem canonItems_bytes (roots : List Cid) :
    Cbor.canonItems (roots.map fun root => .bytes root.bytes) =
      roots.map fun root => .bytes root.bytes := by
  induction roots with
  | nil => rfl
  | cons root roots ih =>
    rw [List.map_cons, Cbor.canonItems, ih]
    rfl

theorem canon_carHeader (roots : List Cid) : Cbor.canon (carHeader roots) = carHeader roots := by
  have hitems : Cbor.canon (.array (roots.map fun root => .bytes root.bytes)) =
      .array (roots.map fun root => .bytes root.bytes) := by
    rw [Cbor.canon, canonItems_bytes]
  rw [carHeader, Cbor.canon, Cbor.canonFields, hitems]
  rfl

/-- The roots come back from the header. -/
theorem headerRoots_carHeader (roots : List Cid) : headerRoots (carHeader roots) = .ok roots := by
  have hroots : (roots.map fun root => Value.bytes root.bytes).mapM rootOf = .ok roots := by
    induction roots with
    | nil => rfl
    | cons root roots ih =>
      rw [List.map_cons, List.mapM_cons, ih]
      rfl
  exact hroots

theorem plain_carHeader {roots : List Cid} (hlen : roots.length < 2 ^ 31)
    (hroots : ∀ root ∈ roots, root.bytes.length = CIDV1_LEN) : Cbor.plain (carHeader roots) := by
  refine Cbor.plain_object.2 ⟨(by decide : 2 < 2 ^ 31), (by decide : ["roots", "version"].Nodup), rfl,
    Cbor.plainFields_cons (by decide +kernel) (Cbor.plain_array.2 ⟨?_, ?_⟩)
      (Cbor.plainFields_cons (by decide +kernel) (by decide +kernel) rfl)⟩
  · rwa [List.length_map]
  · rintro _ hx
    obtain ⟨root, hroot, rfl⟩ := List.mem_map.1 hx
    rw [Cbor.plain, hroots root hroot]
    decide

/-! ## The round trip -/

/-- What stands at an offset is cut out. -/
theorem slice_of_drop {offset : ℕ} {part rest : Bytes} (h : buf.drop offset = part ++ rest)
    (hoffset : offset ≤ buf.length) : slice buf offset (offset + part.length) = part := by
  have hlen := congrArg List.length h
  rw [List.length_drop, List.length_append] at hlen
  rw [slice]
  dsimp only
  rw [if_neg (by omega), if_neg (by omega), min_eq_left (by omega), min_eq_left (by omega)]
  have hto : ((offset : ℤ) + part.length).toNat - (offset : ℤ).toNat = part.length := by omega
  rw [hto, Int.toNat_natCast, h, List.take_left']
  rfl

/-- A block whose length is not read as negative. -/
structure ShortBlock (block : Cid × Bytes) : Prop where
  cid : block.1.bytes.length = CIDV1_LEN
  length : CIDV1_LEN + block.2.length < 2 ^ 31

/-- A short block is read, and then those after it. -/
theorem importBlocks_carBlock {block : Cid × Bytes} {rest : Bytes} {offset fuel : ℕ}
    (hblock : ShortBlock block) (hoffset : offset ≤ buf.length)
    (h : buf.drop offset = carBlock block ++ rest) :
    importBlocks buf (fuel + 1) offset = (importBlocks buf fuel ↑(offset + (carBlock block).length)).map
      fun blocks => blocks.map (block :: ·) := by
  have htake : (block.1.bytes ++ block.2).take CIDV1_LEN = block.1.bytes := by
    rw [← hblock.cid, List.take_left']
    rfl
  have hdata : (block.1.bytes ++ block.2).drop CIDV1_LEN = block.2 := by
    rw [← hblock.cid, List.drop_left']
    rfl
  have hlen : (block.1.bytes ++ block.2).length = CIDV1_LEN + block.2.length := by
    rw [List.length_append, hblock.cid]
  have hshort := hblock.length
  have hcid : CIDV1_LEN = 36 := rfl
  have hcar : carBlock block = varintEncode (block.1.bytes ++ block.2).length ++
      (block.1.bytes ++ block.2) := rfl
  generalize block.1.bytes ++ block.2 = part at *
  rw [hcar, List.append_assoc] at h
  have hbuf := congrArg List.length h
  rw [List.length_drop, List.length_append, List.length_append] at hbuf
  have hpos := length_varintEncode_pos part.length
  have hnext : buf.drop (offset + (varintEncode part.length).length) = part ++ rest := by
    rw [← List.drop_drop, h, List.drop_left']
    rfl
  rw [importBlocks, if_pos (by omega), readVarint_varintEncode (by omega) h]
  dsimp only
  rw [if_neg (by omega), ← Int.natCast_add, slice_of_drop hnext (by omega), if_neg (by omega),
    ← Int.natCast_add, htake, hdata, hcar, List.length_append, Nat.add_assoc]

/-- Short blocks are read one after the other. -/
theorem importBlocks_flatMap {blocks : List (Cid × Bytes)} :
    ∀ {offset fuel : ℕ}, buf.drop offset = blocks.flatMap carBlock → offset ≤ buf.length →
      (∀ block ∈ blocks, ShortBlock block) → blocks.length < fuel →
      importBlocks buf fuel offset = some (.ok blocks) := by
  induction blocks with
  | nil =>
    intro offset fuel hdrop hoffset _ hfuel
    obtain ⟨fuel, rfl⟩ : ∃ n, fuel = n + 1 := ⟨fuel - 1, by omega⟩
    have hlen := List.drop_eq_nil_iff.1 hdrop
    rw [importBlocks, if_neg (by omega)]
  | cons block blocks ih =>
    intro offset fuel hdrop hoffset hblocks hfuel
    obtain ⟨hblock, hrest⟩ := List.forall_mem_cons.1 hblocks
    rw [List.length_cons] at hfuel
    obtain ⟨fuel, rfl⟩ : ∃ n, fuel = n + 1 := ⟨fuel - 1, by omega⟩
    have hdrop' : buf.drop (offset + (carBlock block).length) = blocks.flatMap carBlock := by
      rw [← List.drop_drop, hdrop, List.flatMap_cons, List.drop_left']
      rfl
    have hlen := congrArg List.length hdrop
    rw [List.length_drop, List.flatMap_cons, List.length_append] at hlen
    rw [importBlocks_carBlock hblock hoffset (hdrop.trans List.flatMap_cons),
      ih hdrop' (by omega) hrest (by omega)]
    rfl

/-- A file with short blocks is read as it was written. -/
theorem importCar_carOf {roots : List Cid} {blocks : List (Cid × Bytes)} {header car : Bytes}
    (hlen : roots.length < 2 ^ 31) (hroots : ∀ root ∈ roots, root.bytes.length = CIDV1_LEN)
    (hheader : Cbor.encode (carHeader roots) = .ok header) (hshort : header.length < 2 ^ 31)
    (hblocks : ∀ block ∈ blocks, ShortBlock block) (h : carOf roots blocks = .ok car) {fuel : ℕ}
    (hfuel : blocks.length < fuel) : importCar fuel car = some (.ok (roots, blocks)) := by
  rw [carOf, hheader] at h
  obtain rfl : varintEncode header.length ++ header ++ blocks.flatMap carBlock = car :=
    Except.ok.inj h
  obtain ⟨out, hout, hdecode⟩ := Cbor.decode_encode (plain_carHeader hlen hroots)
  obtain rfl : header = out := Except.ok.inj (hheader.symm.trans hout)
  rw [canon_carHeader] at hdecode
  rw [List.append_assoc]
  generalize hrest : blocks.flatMap carBlock = rest
  generalize hcar : varintEncode header.length ++ (header ++ rest) = car
  have hdrop₀ : car.drop 0 = varintEncode header.length ++ (header ++ rest) := hcar.symm
  have hdrop₁ : car.drop (varintEncode header.length).length = header ++ rest := by
    rw [← hcar, List.drop_left']
    rfl
  have hdrop₂ : car.drop ((varintEncode header.length).length + header.length) = rest := by
    rw [← List.drop_drop, hdrop₁, List.drop_left']
    rfl
  have hcarlen := congrArg List.length hcar
  rw [List.length_append, List.length_append] at hcarlen
  have hvarint : readVarint car 0 = .ok ((header.length : ℤ), (varintEncode header.length).length) :=
    @readVarint_varintEncode car 0 _ _ hshort hdrop₀
  rw [importCar, hvarint]
  dsimp only
  rw [slice_of_drop hdrop₁ (by omega), hdecode, ok_bind, headerRoots_carHeader]
  dsimp only
  rw [← Int.natCast_add, importBlocks_flatMap (hdrop₂.trans hrest.symm) (by omega) hblocks hfuel]
  rfl

end ComputeContract
