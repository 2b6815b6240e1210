import ComputeContract.Cbor.Prefix
import ComputeContract.Repo.Export
import ComputeContract.Repo.Rewind

/-!
# CAR files that are cut off

A file that is cut off in its header, in a length or in a CID is read up to the block before, or
the reader throws. Where the cut is in the data of a block, nothing compares the length of the
block with what is there, and the block comes back with a part of its data under its CID.

* `Detects`: the reader throws, or gives the first blocks of the file;
* `detects_take_iff`: at which cuts of a file with short blocks it does;
* `detects_iff`: of which exports every cut is detected.
-/

namespace ComputeContract

open Cbor (toInt32)

/-- The reader throws, or gives the first of the blocks. -/
def Detects (part : Bytes) (blocks : List (Cid × Bytes)) : Prop :=
  ∃ n result, (∀ fuel, n ≤ fuel → importCar fuel part = some result) ∧
    ∀ roots read, result = .ok (roots, read) → read <+: blocks

/-- The bytes of a header with one root, with its length. -/
def HEADER_LEN : ℕ := 56

/-- The cut at `n` is in the data of a block. -/
def CutsData (blocks : List (Cid × Bytes)) (n : ℕ) : Prop :=
  ∃ pre block post, blocks = pre ++ block :: post ∧
    HEADER_LEN + (pre.flatMap carBlock).length +
      (varintEncode (block.1.bytes ++ block.2).length).length + CIDV1_LEN ≤ n ∧
    n < HEADER_LEN + (pre.flatMap carBlock).length + (carBlock block).length

variable {buf : Bytes} {blocks : List (Cid × Bytes)}

/-! ## Varints that are cut off -/

/-- From the end of the file on nothing is cut out. -/
theorem slice_of_le {offset : ℕ} (h : buf.length ≤ offset) (stop : ℤ) :
    slice buf offset stop = [] := by
  have hneg : ¬ (offset : ℤ) < 0 := by omega
  have hmin : min (offset : ℤ) buf.length = buf.length := min_eq_right (by omega)
  rw [slice]
  dsimp only
  rw [if_neg hneg, hmin, Int.toNat_natCast, List.drop_length, List.take_nil]

/-- All bytes of a varint but the last have their high bit set. -/
theorem high_of_take_varintEncode (n : ℕ) :
    ∀ r < (varintEncode n).length, ∀ b ∈ (varintEncode n).take r, 0x80 ≤ b.toNat := by
  induction n using varintEncode.induct with
  | case1 n hn ih =>
    intro r hr b hb
    rw [varintEncode, if_pos hn] at hr hb
    cases r with
    | zero => cases hb
    | succ r =>
      rw [List.length_cons] at hr
      rcases List.mem_cons.1 (List.take_succ_cons ▸ hb) with rfl | hb
      · simp only [Nat.toUInt8, UInt8.toNat_ofNat']
        omega
      · exact ih r (by omega) b hb
  | case2 n hn =>
    intro r hr b hb
    rw [varintEncode, if_neg hn, List.length_singleton] at hr
    obtain rfl : r = 0 := by omega
    cases hb

theorem readVarintLoop_of_high {offset : ℕ} (n : ℕ) {shift value k : ℕ}
    (hoffset : offset + k ≤ buf.length) (h : ∀ b ∈ buf.drop (offset + k), 0x80 ≤ b.toNat) :
    (∃ e, readVarintLoop buf offset n shift value k = .error e) ∨
      ∃ v, readVarintLoop buf offset n shift value k = .ok (v, buf.length - offset) := by
  induction n generalizing shift value k with
  | zero => exact .inl ⟨_, rfl⟩
  | succ n ih =>
    rw [readVarintLoop]
    dsimp only
    rcases hoffset.lt_or_eq with hlt | heq
    · have hdrop := List.drop_eq_getElem_cons hlt
      rw [hdrop] at h
      obtain ⟨hhigh, hrest⟩ := List.forall_mem_cons.1 h
      rw [if_pos (by omega), ← Int.natCast_add, byteAt_of_drop hdrop, if_neg (by omega)]
      exact ih (by omega) hrest
    · rw [if_neg (by omega)]
      exact .inr ⟨_, congrArg (fun k => Except.ok (toInt32 value, k)) (by omega)⟩

/-- Behind a length that is cut off there is nothing. -/
theorem importBlocks_of_high {offset : ℕ} (fuel : ℕ) (hoffset : offset ≤ buf.length)
    (h : ∀ b ∈ buf.drop offset, 0x80 ≤ b.toNat) :
    (∃ e, importBlocks buf (fuel + 2) offset = some (.error e)) ∨
      importBlocks buf (fuel + 2) offset = some (.ok []) := by
  rcases hoffset.lt_or_eq with hlt | heq
  · rcases @readVarintLoop_of_high buf offset 10 0 0 0 hoffset h with ⟨e, he⟩ | ⟨v, hv⟩
    · refine .inl ⟨e, ?_⟩
      rw [importBlocks, if_pos (by omega), readVarint, he]
    · have hend : offset + (buf.length - offset) = buf.length := by omega
      by_cases hzero : v = 0
      · subst hzero
        refine .inr ?_
        rw [importBlocks_of_zero hlt hv, hend, importBlocks, if_neg (by omega)]
      · refine .inl (importBlocks_of_short _ hlt hv hzero ?_)
        rw [slice_of_le hend.ge]
        decide
  · refine .inr ?_
    rw [importBlocks, if_neg (by omega)]

/-! ## Blocks that are cut off -/

section
variable {block : Cid × Bytes} {offset r : ℕ}

theorem length_content (hcid : block.1.bytes.length = CIDV1_LEN) :
    (block.1.bytes ++ block.2).length = CIDV1_LEN + block.2.length := by
  rw [List.length_append, hcid]

/-- What is there of a block, behind its length. -/
theorem drop_of_cut (h : buf.drop offset = (carBlock block).take r)
    (hr : (varintEncode (block.1.bytes ++ block.2).length).length ≤ r) :
    buf.drop offset = varintEncode (block.1.bytes ++ block.2).length ++
      (block.1.bytes ++ block.2).take (r - (varintEncode (block.1.bytes ++ block.2).length).length) := by
  rw [h, carBlock, List.take_append, List.take_of_length_le hr]

/-- A length is read as it is if it is short, and the slice behind it is what is there. -/
theorem slice_of_cut (hoffset : offset ≤ buf.length) (h : buf.drop offset = (carBlock block).take r)
    (hr : (varintEncode (block.1.bytes ++ block.2).length).length ≤ r)
    (hle : r ≤ (carBlock block).length) :
    offset + (varintEncode (block.1.bytes ++ block.2).length).length ≤ buf.length ∧
    slice buf ↑(offset + (varintEncode (block.1.bytes ++ block.2).length).length)
      (↑(offset + (varintEncode (block.1.bytes ++ block.2).length).length) +
        ((block.1.bytes ++ block.2).length : ℤ)) =
      (block.1.bytes ++ block.2).take (r - (varintEncode (block.1.bytes ++ block.2).length).length) := by
  have hdrop := drop_of_cut h hr
  have hlen := congrArg List.length hdrop
  rw [List.length_drop, List.length_append] at hlen
  rw [carBlock, List.length_append] at hle
  refine ⟨by omega, ?_⟩
  rw [slice_natCast, ← List.drop_drop, hdrop, List.drop_left, List.take_take]
  congr 1
  omega

/-- A block that is cut off before its data is not read. -/
theorem importBlocks_of_cut (fuel : ℕ) (hblock : ShortBlock block) (hoffset : offset ≤ buf.length)
    (h : buf.drop offset = (carBlock block).take r) (hr : r < (carBlock block).length)
    (hcut : r < (varintEncode (block.1.bytes ++ block.2).length).length + CIDV1_LEN) :
    (∃ e, importBlocks buf (fuel + 2) offset = some (.error e)) ∨
      importBlocks buf (fuel + 2) offset = some (.ok []) := by
  rcases lt_or_ge r (varintEncode (block.1.bytes ++ block.2).length).length with hlt | hge
  · refine importBlocks_of_high fuel hoffset ?_
    rw [h, carBlock, List.take_append_of_le_length hlt.le]
    exact high_of_take_varintEncode _ r hlt
  · obtain ⟨hend, hslice⟩ := slice_of_cut hoffset h hge hr.le
    have hcontent := length_content hblock.cid
    have hshort := hblock.length
    have hread := readVarint_varintEncode (by omega) (drop_of_cut h hge)
    have hpos := length_varintEncode_pos (block.1.bytes ++ block.2).length
    have hcid : CIDV1_LEN = 36 := rfl
    have hlt : offset < buf.length := by omega
    refine .inl (importBlocks_of_short _ hlt hread (by omega) ?_)
    rw [hslice, List.length_take]
    omega

/-- A block that is cut off in its data is read with the data that is there. -/
theorem importBlocks_of_cut_data (fuel : ℕ) (hblock : ShortBlock block) (hoffset : offset ≤ buf.length)
    (h : buf.drop offset = (carBlock block).take r) (hr : r < (carBlock block).length)
    (hcut : (varintEncode (block.1.bytes ++ block.2).length).length + CIDV1_LEN ≤ r) :
    importBlocks buf (fuel + 2) offset = some (.ok [(block.1, block.2.take
      (r - (varintEncode (block.1.bytes ++ block.2).length).length - CIDV1_LEN))]) := by
  obtain ⟨hend, hslice⟩ := slice_of_cut hoffset h (by omega) hr.le
  have hcontent := length_content hblock.cid
  have hshort := hblock.length
  have hdrop := drop_of_cut h (by omega)
  have hread := readVarint_varintEncode (by omega) hdrop
  have hpos := length_varintEncode_pos (block.1.bytes ++ block.2).length
  have hlen := congrArg List.length hdrop
  rw [List.length_drop, List.length_append, List.length_take] at hlen
  rw [carBlock, List.length_append] at hr
  have hcid : CIDV1_LEN = 36 := rfl
  generalize hc : r - (varintEncode (block.1.bytes ++ block.2).length).length = c at *
  have hsplit : (block.1.bytes ++ block.2).take c = block.1.bytes ++ block.2.take (c - CIDV1_LEN) := by
    rw [List.take_append, List.take_of_length_le (by rw [hblock.cid]; omega), hblock.cid]
  rw [importBlocks, if_pos (by omega), hread]
  dsimp only
  rw [if_neg (by omega), ← Int.natCast_add, hslice, hsplit, ← hblock.cid, List.take_left,
    List.drop_left, if_neg (by rw [List.length_append]; omega), importBlocks, if_neg (by omega)]
  rfl

end

/-- The short blocks before a cut are read. -/
theorem importBlocks_append {pre : List (Cid × Bytes)} {tail : Bytes} (fuel : ℕ) :
    ∀ {offset : ℕ}, (∀ block ∈ pre, ShortBlock block) → offset ≤ buf.length →
      buf.drop offset = pre.flatMap carBlock ++ tail →
      importBlocks buf (fuel + pre.length) offset =
        (importBlocks buf fuel ↑(offset + (pre.flatMap carBlock).length)).map
          fun blocks => blocks.map (pre ++ ·) := by
  induction pre with
  | nil =>
    intro offset _ _ _
    have hid : (fun blocks : Except String (List (Cid × Bytes)) => blocks.map ([] ++ ·)) = id := by
      funext blocks
      cases blocks <;> rfl
    rw [hid, Option.map_id]
    rfl
  | cons block pre ih =>
    intro offset hblocks hoffset hdrop
    obtain ⟨hblock, hpre⟩ := List.forall_mem_cons.1 hblocks
    rw [List.flatMap_cons, List.append_assoc] at hdrop
    have hlen := congrArg List.length hdrop
    rw [List.length_drop, List.length_append] at hlen
    have hrest : buf.drop (offset + (carBlock block).length) = pre.flatMap carBlock ++ tail := by
      rw [← List.drop_drop, hdrop, List.drop_left]
    rw [List.length_cons, ← Nat.add_assoc, importBlocks_carBlock hblock hoffset hdrop,
      ih hpre (by omega) hrest, Option.map_map, List.flatMap_cons, List.length_append, Nat.add_assoc]
    congr 1
    funext blocks
    cases blocks <;> rfl

/-- A cut is in one of the parts. -/
theorem exists_of_lt_flatMap {α β : Type} (f : α → List β) (xs : List α) {n : ℕ}
    (hn : n < (xs.flatMap f).length) : ∃ pre x post r, xs = pre ++ x :: post ∧
      r < (f x).length ∧ n = (pre.flatMap f).length + r ∧
      (xs.flatMap f).take n = pre.flatMap f ++ (f x).take r := by
  induction xs generalizing n with
  | nil => exact absurd hn (Nat.not_lt_zero n)
  | cons x xs ih =>
    rw [List.flatMap_cons] at hn ⊢
    rw [List.length_append] at hn
    rcases lt_or_ge n (f x).length with hlt | hge
    · exact ⟨[], x, xs, n, rfl, hlt, (Nat.zero_add n).symm, List.take_append_of_le_length hlt.le⟩
    · obtain ⟨pre, y, post, r, rfl, hr, hn', htake⟩ := ih (n := n - (f x).length) (by omega)
      refine ⟨x :: pre, y, post, r, rfl, hr, ?_, ?_⟩
      · rw [List.flatMap_cons, List.length_append]
        omega
      · rw [List.take_append, List.take_of_length_le hge, htake, List.flatMap_cons,
          List.append_assoc]

/-! ## The header -/

/-- The header of a file with one root. -/
structure Header (root : Cid) (header : Bytes) : Prop where
  encode : Cbor.encode (carHeader [root]) = .ok header
  reads : Cbor.Reads header (carHeader [root])
  length : header.length = 55

theorem exists_header {root : Cid} (hroot : isValidCid root) : ∃ header, Header root header := by
  have hcid := length_of_isValidCid hroot
  obtain ⟨header, hheader, hlen⟩ := encode_carHeader_singleton root
  have hplain : Cbor.plain (carHeader [root]) :=
    plain_carHeader (by rw [List.length_singleton]; decide) (List.forall_mem_singleton.2 hcid)
  obtain ⟨out, hout, hreads⟩ := Cbor.reads_encodeValue hplain
  obtain rfl : header = out := Except.ok.inj (hheader.symm.trans hout)
  rw [canon_carHeader] at hreads
  refine ⟨header, hheader, hreads, ?_⟩
  rw [hlen, hcid]
  rfl

namespace Header

variable {root : Cid} {header : Bytes} (h : Header root header) (tail : Bytes)
include h

/-- The file, from its header on. -/
theorem carOf_eq : carOf [root] blocks =
    .ok (varintEncode header.length ++ (header ++ blocks.flatMap carBlock)) := by
  rw [carOf, h.encode, ok_bind, List.append_assoc]
  rfl

theorem length_varintEncode : (varintEncode header.length).length = 1 := by
  rw [h.length, varintEncode, if_neg (by decide), List.length_singleton]

theorem readVarint_take {n : ℕ} (hn : 0 < n) :
    readVarint ((varintEncode header.length ++ (header ++ tail)).take n) 0 =
      .ok (55, 1) := by
  have hlen := h.length
  have hone := h.length_varintEncode
  have htake : ((varintEncode header.length ++ (header ++ tail)).take n).drop 0 =
      varintEncode header.length ++ (header ++ tail).take (n - 1) := by
    rw [List.drop_zero, List.take_append, List.take_of_length_le (by omega), hone]
  have hread := readVarint_varintEncode (by omega) htake
  rw [hone] at hread
  refine hread.trans ?_
  rw [hlen]
  rfl

theorem slice_take {n : ℕ} (hn : 0 < n) :
    slice ((varintEncode header.length ++ (header ++ tail)).take n) (1 : ℕ)
      ((1 : ℕ) + 55) = header.take (n - 1) := by
  have hlen := h.length
  have hone := h.length_varintEncode
  have hslice := @slice_natCast ((varintEncode header.length ++ (header ++ tail)).take n) 1 55
  have hdrop : ((varintEncode header.length ++ (header ++ tail)).take n).drop 1 =
      (header ++ tail).take (n - 1) := by
    rw [List.take_append, List.take_of_length_le (by omega), hone, List.drop_append, hone]
    rw [List.drop_of_length_le (by omega)]
    rfl
  refine hslice.trans ?_
  rw [hdrop, List.take_take, Nat.min_comm, ← List.take_take, ← hlen, List.take_left]

/-- A file that is cut off in its header is not read. -/
theorem importCar_of_lt {n : ℕ} (hn : n < HEADER_LEN) : ∃ e, ∀ fuel,
    importCar fuel ((varintEncode header.length ++ (header ++ tail)).take n) = some (.error e) := by
  refine importCar_error ?_
  rintro ⟨n', k, roots, hread, hroots⟩
  rcases Nat.eq_zero_or_pos n with rfl | hpos
  · rw [List.take_zero, slice_nil] at hroots
    exact header_ne_nil hroots rfl
  · rw [h.readVarint_take tail hpos] at hread
    obtain ⟨rfl, rfl⟩ := Prod.mk.inj (Except.ok.inj hread)
    have hlen := h.length
    have hcut : HEADER_LEN = 56 := rfl
    obtain ⟨e, he⟩ := Cbor.decode_take h.reads (k := n - 1) (by omega)
    rw [h.slice_take tail hpos, he] at hroots
    cases hroots

theorem roots {n : ℕ} (hn : HEADER_LEN ≤ n) :
    Cbor.decode (slice ((varintEncode header.length ++ (header ++ tail)).take n)
      (1 : ℕ) ((1 : ℕ) + 55)) >>= headerRoots = .ok [root] := by
  have hlen := h.length
  have hcut : HEADER_LEN = 56 := rfl
  have hdecode : Cbor.decode header = .ok (carHeader [root]) := by
    have hread := h.reads (header.length + 1) [] (Nat.lt_succ_self _)
    rw [List.append_nil] at hread
    rw [Cbor.decode, hread]
    rfl
  rw [h.slice_take tail (by omega), List.take_of_length_le (by omega), hdecode, ok_bind,
    headerRoots_carHeader]

/-- Behind the header the blocks are read. -/
theorem importCar_of_le {n : ℕ} (hn : HEADER_LEN ≤ n) (fuel : ℕ) :
    importCar fuel ((varintEncode header.length ++ (header ++ tail)).take n) =
      (importBlocks ((varintEncode header.length ++ (header ++ tail)).take n) fuel HEADER_LEN).map
        fun blocks => blocks.map fun blocks => ([root], blocks) :=
  importCar_of_header (h.readVarint_take tail (Nat.lt_of_lt_of_le (by decide) hn)) (h.roots tail hn)
    fuel

theorem drop_take {n : ℕ} (hn : HEADER_LEN ≤ n) :
    ((varintEncode header.length ++ (header ++ tail)).take n).drop HEADER_LEN =
      tail.take (n - HEADER_LEN) := by
  have hlen := h.length
  have hone := h.length_varintEncode
  have hcut : (varintEncode header.length ++ header).length = HEADER_LEN := by
    rw [List.length_append, hone, hlen]
    rfl
  rw [← List.append_assoc, List.take_append, List.take_of_length_le (by omega), ← hcut,
    List.drop_left]

/-- The blocks before the cut are read, and then what is there of the next one. -/
theorem importCar_of_cut {pre post : List (Cid × Bytes)} {block : Cid × Bytes} {n r : ℕ}
    (hblocks : blocks = pre ++ block :: post) (hpre : ∀ block ∈ pre, ShortBlock block)
    (hn : n = HEADER_LEN + (pre.flatMap carBlock).length + r) (hr : r ≤ (carBlock block).length)
    (hbuf : (varintEncode header.length ++ (header ++ blocks.flatMap carBlock)).take n = buf) :
    HEADER_LEN + (pre.flatMap carBlock).length ≤ buf.length ∧
    buf.drop (HEADER_LEN + (pre.flatMap carBlock).length) = (carBlock block).take r ∧
    ∀ fuel, importCar (fuel + pre.length) buf =
      (importBlocks buf fuel ↑(HEADER_LEN + (pre.flatMap carBlock).length)).map
        fun read => read.map fun read => ([root], pre ++ read) := by
  have hlen := h.length
  have hone := h.length_varintEncode
  have hhead : HEADER_LEN = 56 := rfl
  have hdrop := h.drop_take (blocks.flatMap carBlock) (n := n) (by omega)
  have htake : (blocks.flatMap carBlock).take (n - HEADER_LEN) =
      pre.flatMap carBlock ++ (carBlock block).take r := by
    rw [hblocks, List.flatMap_append, List.flatMap_cons, List.take_append,
      List.take_of_length_le (by omega), List.take_append_of_le_length (by omega),
      show n - HEADER_LEN - (pre.flatMap carBlock).length = r by omega]
  rw [hbuf, htake] at hdrop
  have hbuflen : buf.length = n := by
    rw [← hbuf, List.length_take, List.length_append, List.length_append, hone, hlen, hblocks,
      List.flatMap_append, List.flatMap_cons, List.length_append, List.length_append]
    omega
  refine ⟨by omega, by rw [← List.drop_drop, hdrop, List.drop_left], fun fuel => ?_⟩
  rw [← hbuf, h.importCar_of_le _ (by omega), hbuf, importBlocks_append fuel hpre (by omega) hdrop,
    Option.map_map]
  congr 1
  funext read
  cases read <;> rfl

end Header

/-! ## The cuts that are detected -/

theorem detects_iff_of_importCar {fuel : ℕ}
    {result : Except String (List Cid × List (Cid × Bytes))} (h : importCar fuel buf = some result) :
    Detects buf blocks ↔ ∀ roots read, result = .ok (roots, read) → read <+: blocks := by
  constructor
  · rintro ⟨n, result', hresult, hdetects⟩
    have hboth := (hresult _ (le_max_left n fuel)).symm.trans (importCar_mono (le_max_right n fuel) h)
    rwa [Option.some.inj hboth] at hdetects
  · exact fun hdetects => ⟨fuel, result, fun fuel' hle => importCar_mono hle h, hdetects⟩

/-- Of a file with short blocks the cuts that are not in the data of a block are detected, and no
    others. -/
theorem detects_take_iff {root : Cid} {car : Bytes} (hroot : isValidCid root)
    (hblocks : ∀ block ∈ blocks, ShortBlock block) (hcar : carOf [root] blocks = .ok car) {n : ℕ}
    (hn : n < car.length) : Detects (car.take n) blocks ↔ ¬ CutsData blocks n := by
  obtain ⟨header, h⟩ := exists_header hroot
  rw [h.carOf_eq] at hcar
  obtain rfl := Except.ok.inj hcar
  constructor
  · rintro hdetects ⟨pre, block, post, hsplit, hle, hlt⟩
    have hmem : block ∈ blocks := by
      rw [hsplit]
      exact List.mem_append_right _ List.mem_cons_self
    have hpre : ∀ block ∈ pre, ShortBlock block := fun block hblock => hblocks block (by
      rw [hsplit]
      exact List.mem_append_left _ hblock)
    obtain ⟨r, hr⟩ : ∃ r, n = HEADER_LEN + (pre.flatMap carBlock).length + r :=
      ⟨n - (HEADER_LEN + (pre.flatMap carBlock).length), by omega⟩
    obtain ⟨hoffset, hdrop, himport⟩ := h.importCar_of_cut hsplit hpre hr (by omega) rfl
    have hread := importBlocks_of_cut_data 0 (hblocks block hmem) hoffset hdrop (by omega) (by omega)
    have hall := himport 2
    rw [hread] at hall
    have hprefix := (detects_iff_of_importCar hall).1 hdetects _ _ rfl
    -- The block before the cut would have to come back whole.
    rw [hsplit, List.prefix_append_right_inj, List.cons_prefix_cons] at hprefix
    have hdata := congrArg (List.length ∘ Prod.snd) hprefix.1
    have hcontent := length_content (hblocks block hmem).cid
    have hcid : CIDV1_LEN = 36 := rfl
    simp only [Function.comp_apply, List.length_take] at hdata
    rw [carBlock, List.length_append] at hlt
    omega
  · intro hcut
    rcases lt_or_ge n HEADER_LEN with hlt | hge
    · obtain ⟨e, he⟩ := h.importCar_of_lt (blocks.flatMap carBlock) hlt
      exact (detects_iff_of_importCar (he 0)).2 nofun
    · have hlen := h.length
      have hone := h.length_varintEncode
      have hhead : HEADER_LEN = 56 := rfl
      rw [List.length_append, List.length_append] at hn
      obtain ⟨pre, block, post, r, hsplit, hr, hn', -⟩ :=
        exists_of_lt_flatMap carBlock blocks (n := n - HEADER_LEN) (by omega)
      have hmem : block ∈ blocks := by
        rw [hsplit]
        exact List.mem_append_right _ List.mem_cons_self
      have hpre : ∀ block ∈ pre, ShortBlock block := fun block hblock => hblocks block (by
        rw [hsplit]
        exact List.mem_append_left _ hblock)
      obtain ⟨hoffset, hdrop, himport⟩ := h.importCar_of_cut (n := n) hsplit hpre (by omega) hr.le rfl
      have hbefore : r < (varintEncode (block.1.bytes ++ block.2).length).length + CIDV1_LEN := by
        by_contra hge
        exact hcut ⟨pre, block, post, hsplit, by omega, by omega⟩
      have hall := himport 2
      rcases importBlocks_of_cut 0 (hblocks block hmem) hoffset hdrop hr hbefore with ⟨e, he⟩ | hnil
      · rw [he] at hall
        exact (detects_iff_of_importCar hall).2 nofun
      · rw [hnil] at hall
        refine (detects_iff_of_importCar hall).2 fun roots read hread => ?_
        obtain ⟨-, rfl⟩ := Prod.mk.inj (Except.ok.inj hread)
        rw [hsplit, List.append_nil]
        exact List.prefix_append _ _

/-! ## Exports of which every cut is detected -/

theorem length_slice_of_neg {offset : ℕ} {stop : ℤ} (hstop : stop < 0) (hoffset : offset ≤ buf.length) :
    (slice buf offset stop).length = (stop + buf.length).toNat - offset := by
  have hneg : ¬ (offset : ℤ) < 0 := by omega
  rw [slice]
  dsimp only
  rw [if_neg hneg, if_pos hstop, List.length_take, List.length_drop]
  omega

theorem toInt32_of_ge {n : ℕ} (h : toInt32 n < 0) :
    2 ^ 31 ≤ n % 2 ^ 32 ∧ toInt32 n = (n % 2 ^ 32 : ℕ) - 2 ^ 32 := by
  rw [toInt32] at h ⊢
  split_ifs at h ⊢ with hlt
  · omega
  · exact ⟨not_lt.1 hlt, rfl⟩

/-- A length that is read as negative takes five bytes. -/
theorem length_varintEncode_of_neg {n : ℕ} (h : toInt32 n < 0) : (varintEncode n).length = 5 := by
  have hn := (toInt32_of_ge h).1
  rw [varintEncode, if_pos (by omega), varintEncode, if_pos (by omega), varintEncode,
    if_pos (by omega), varintEncode, if_pos (by omega), varintEncode, if_neg (by omega)]
  rfl

section
variable {root : Cid} {header data : Bytes} {rest : List (Cid × Bytes)}

/-- What the first block comes to be read as, at a cut behind its length. -/
theorem Header.readVarint_first (h : Header root header) {n : ℕ}
    (hn : HEADER_LEN + (varintEncode (root.bytes ++ data).length).length ≤ n)
    (hbuf : (varintEncode header.length ++
      (header ++ ((root, data) :: rest).flatMap carBlock)).take n = buf) :
    readVarint buf HEADER_LEN = .ok (toInt32 (root.bytes ++ data).length,
      (varintEncode (root.bytes ++ data).length).length) ∧
    buf.drop (HEADER_LEN + (varintEncode (root.bytes ++ data).length).length) =
      (root.bytes ++ data ++ rest.flatMap carBlock).take
        (n - HEADER_LEN - (varintEncode (root.bytes ++ data).length).length) := by
  have hdrop := h.drop_take (((root, data) :: rest).flatMap carBlock) (n := n) (by omega)
  rw [hbuf, List.flatMap_cons, carBlock, List.append_assoc, List.take_append] at hdrop
  dsimp only at hdrop
  rw [List.take_of_length_le (by omega)] at hdrop
  refine ⟨readVarint_toInt32 hdrop, ?_⟩
  rw [← List.drop_drop, hdrop, List.drop_left]

/-- The file up to the data of its first block: the block comes back without it. -/
theorem not_detects_of_le (h : Header root header) (hroot : isValidCid root) (hdata : data ≠ [])
    (hlen : 36 ≤ toInt32 (root.bytes ++ data).length) :
    ¬ Detects ((varintEncode header.length ++ (header ++ ((root, data) :: rest).flatMap carBlock)).take
      (HEADER_LEN + (varintEncode (root.bytes ++ data).length).length + CIDV1_LEN))
      ((root, data) :: rest) := by
  have hcid := length_of_isValidCid hroot
  have hcidlen : CIDV1_LEN = 36 := rfl
  generalize hbuf : (varintEncode header.length ++
    (header ++ ((root, data) :: rest).flatMap carBlock)).take
      (HEADER_LEN + (varintEncode (root.bytes ++ data).length).length + CIDV1_LEN) = buf
  obtain ⟨hread, hdrop⟩ := h.readVarint_first (by omega) hbuf
  have himport := h.importCar_of_le (((root, data) :: rest).flatMap carBlock)
    (n := HEADER_LEN + (varintEncode (root.bytes ++ data).length).length + CIDV1_LEN) (by omega) 2
  rw [hbuf] at himport
  have htake : (root.bytes ++ data ++ rest.flatMap carBlock).take (HEADER_LEN +
      (varintEncode (root.bytes ++ data).length).length + CIDV1_LEN - HEADER_LEN -
      (varintEncode (root.bytes ++ data).length).length) = root.bytes := by
    rw [List.append_assoc, List.take_append_of_le_length (by omega),
      List.take_of_length_le (by omega)]
  rw [htake] at hdrop
  have hbuflen := congrArg List.length hdrop
  rw [List.length_drop] at hbuflen
  generalize (varintEncode (root.bytes ++ data).length).length = k at *
  generalize toInt32 (root.bytes ++ data).length = v at *
  lift v to ℕ using by omega
  have hblocks : importBlocks buf 2 HEADER_LEN = some (.ok [(root, [])]) := by
    rw [importBlocks, if_pos (by omega), hread]
    dsimp only
    rw [if_neg (by omega), ← Int.natCast_add, slice_natCast, hdrop,
      List.take_of_length_le (by omega), if_neg (by omega), importBlocks, if_neg (by omega),
      List.take_of_length_le (by omega), List.drop_of_length_le (by omega)]
    rfl
  rw [hblocks] at himport
  rw [detects_iff_of_importCar himport]
  intro hdetects
  exact hdata (congrArg Prod.snd (List.cons_prefix_cons.1 (hdetects _ _ rfl)).1).symm

/-- The file up to the last byte of a first block whose length is negative: the reader goes back
    to the start, and does not come to an end. -/
theorem not_detects_of_lt (h : Header root header) (hroot : isValidCid root)
    (hlen : toInt32 (root.bytes ++ data).length < -61) :
    ¬ Detects ((varintEncode header.length ++ (header ++ ((root, data) :: rest).flatMap carBlock)).take
      (HEADER_LEN + (carBlock (root, data)).length - 1)) ((root, data) :: rest) := by
  have hcid := length_of_isValidCid hroot
  have hfive := length_varintEncode_of_neg (by omega : toInt32 (root.bytes ++ data).length < 0)
  obtain ⟨hge, hvalue⟩ := toInt32_of_ge (by omega : toInt32 (root.bytes ++ data).length < 0)
  have hhead : HEADER_LEN = 56 := rfl
  have hcar : (carBlock (root, data)).length = 5 + (root.bytes ++ data).length := by
    rw [carBlock, List.length_append, hfive]
  have hcidlen : CIDV1_LEN = 36 := rfl
  generalize hn : HEADER_LEN + (carBlock (root, data)).length - 1 = n
  generalize hbuf : (varintEncode header.length ++
    (header ++ ((root, data) :: rest).flatMap carBlock)).take n = buf
  obtain ⟨hread, -⟩ := h.readVarint_first (by omega) hbuf
  have hbuflen : buf.length = n := by
    rw [← hbuf, List.length_take, List.length_append, List.length_append, List.flatMap_cons,
      List.length_append, h.length_varintEncode, h.length]
    omega
  have hfirst := h.readVarint_take (((root, data) :: rest).flatMap carBlock) (n := n) (by omega)
  have hslice := h.slice_take (((root, data) :: rest).flatMap carBlock) (n := n) (by omega)
  have hroots := h.roots (((root, data) :: rest).flatMap carBlock) (n := n) (by omega)
  rw [hbuf] at hfirst hslice hroots
  have hrewinds : Rewinds buf 0 := by
    refine .next (k := 1) (n := 55) (by omega) hfirst (.inr ?_) ?_
    · refine (congrArg List.length hslice).symm ▸ ?_
      rw [List.length_take, h.length]
      omega
    · refine .back (by omega) hread (by omega) ?_
      rw [hfive, length_slice_of_neg (by omega) (by omega)]
      omega
  rintro ⟨fuel, result, hresult, -⟩
  have hnone := hresult fuel le_rfl
  rw [importCar_of_rewinds ⟨55, 1, [root], hfirst, hroots⟩ hrewinds] at hnone
  cases hnone

/-- The CID begins with its version. -/
theorem exists_of_isValidCid (hroot : isValidCid root) : ∃ bs, root.bytes = 0x01 :: bs := by
  simp only [isValidCid, decide_eq_true_eq] at hroot
  obtain ⟨b, bs, hbytes⟩ := List.exists_cons_of_length_pos (by omega : 0 < root.bytes.length)
  have hfirst := hroot.2.1
  rw [hbytes] at hfirst
  obtain rfl : b = 0x01 := Option.some.inj hfirst
  exact ⟨bs, hbytes⟩

/-- Taken for a length, it is too short. -/
theorem importBlocks_of_one {offset : ℕ} {tail : Bytes} (fuel : ℕ)
    (h : buf.drop offset = 0x01 :: tail) :
    ∃ e, importBlocks buf (fuel + 1) offset = some (.error e) := by
  have hone : buf.drop offset = varintEncode 1 ++ tail := by
    rw [h, varintEncode, if_neg (by decide)]
    rfl
  have hread := readVarint_varintEncode (by decide) hone
  refine importBlocks_of_short _ (lt_length_of_drop h) hread (by decide) ?_
  rw [slice_natCast]
  exact (List.length_take_le ..).trans_lt (by decide)

/-- A first block whose length is read as too short, or as one that ends before it starts. -/
theorem importBlocks_first (h : Header root header) (hroot : isValidCid root)
    (hlen : -61 ≤ toInt32 (root.bytes ++ data).length) (hlt : toInt32 (root.bytes ++ data).length < 36)
    {n : ℕ} (hn : HEADER_LEN ≤ n) (hbuf : (varintEncode header.length ++
      (header ++ ((root, data) :: rest).flatMap carBlock)).take n = buf)
    (hle : HEADER_LEN ≤ buf.length) :
    (∃ e, importBlocks buf 2 HEADER_LEN = some (.error e)) ∨
      importBlocks buf 2 HEADER_LEN = some (.ok []) := by
  have hdrop := h.drop_take (((root, data) :: rest).flatMap carBlock) hn
  rw [hbuf, List.flatMap_cons, carBlock, List.append_assoc] at hdrop
  dsimp only at hdrop
  rcases lt_or_ge (n - HEADER_LEN) (varintEncode (root.bytes ++ data).length).length with hr | hr
  · refine importBlocks_of_high 0 hle ?_
    rw [hdrop, List.take_append_of_le_length hr.le]
    exact high_of_take_varintEncode _ _ hr
  · obtain ⟨hread, htail⟩ := h.readVarint_first (by omega) hbuf
    have hpos := length_varintEncode_pos (root.bytes ++ data).length
    have hlenbuf := congrArg List.length hdrop
    rw [List.length_drop, List.take_append, List.take_of_length_le hr, List.length_append] at hlenbuf
    have hoffset : HEADER_LEN < buf.length := by omega
    have hcidlen : CIDV1_LEN = 36 := rfl
    rcases lt_trichotomy (toInt32 (root.bytes ++ data).length) 0 with hneg | hzero | hpos'
    · refine .inl (importBlocks_of_short _ hoffset hread (by omega) ?_)
      have hnil : slice buf ↑(HEADER_LEN + (varintEncode (root.bytes ++ data).length).length)
          (↑(HEADER_LEN + (varintEncode (root.bytes ++ data).length).length) +
            toInt32 (root.bytes ++ data).length) = [] := by
        by_contra hne
        have hback := neg_of_slice hneg hne
        rw [length_varintEncode_of_neg hneg] at hback
        have hhead : HEADER_LEN = 56 := rfl
        omega
      rw [hnil]
      decide
    · -- The bytes of the CID are taken for the next length, which is 1.
      rw [hzero] at hread
      rw [importBlocks_of_zero hoffset hread]
      generalize HEADER_LEN + (varintEncode (root.bytes ++ data).length).length = offset at htail
      rcases lt_or_ge offset buf.length with hlt | hge
      · refine .inl ?_
        obtain ⟨bs, hbytes⟩ := exists_of_isValidCid hroot
        generalize n - HEADER_LEN - (varintEncode (root.bytes ++ data).length).length = c at htail
        rw [hbytes, List.cons_append, List.cons_append] at htail
        cases c with
        | zero =>
          rw [List.take_zero, List.drop_eq_nil_iff] at htail
          omega
        | succ c => exact importBlocks_of_one 0 (htail.trans (List.take_succ_cons ..))
      · refine .inr ?_
        rw [importBlocks, if_neg (by omega)]
    · lift toInt32 (root.bytes ++ data).length to ℕ using hpos'.le with v
      refine .inl (importBlocks_of_short _ hoffset hread (by omega) ?_)
      rw [slice_natCast]
      exact (List.length_take_le ..).trans_lt (by omega)

/-- Every cut is detected if the first block has no data, or is not read even where it is whole. -/
theorem detects_carOf_iff (hroot : isValidCid root) (hrest : data = [] → rest = []) {car : Bytes}
    (hcar : carOf [root] ((root, data) :: rest) = .ok car) :
    (∀ n < car.length, Detects (car.take n) ((root, data) :: rest)) ↔
      data = [] ∨ -61 ≤ toInt32 (root.bytes ++ data).length ∧
        toInt32 (root.bytes ++ data).length < 36 := by
  obtain ⟨header, h⟩ := exists_header hroot
  have hcid := length_of_isValidCid hroot
  have hcidlen : CIDV1_LEN = 36 := rfl
  have hhead : HEADER_LEN = 56 := rfl
  have hlen := h.length
  have hone := h.length_varintEncode
  have hcar' := hcar
  rw [h.carOf_eq] at hcar'
  obtain rfl := Except.ok.inj hcar'
  have hblock : (carBlock (root, data)).length =
      (varintEncode (root.bytes ++ data).length).length + (root.bytes ++ data).length :=
    List.length_append
  have hcontent : (root.bytes ++ data).length = 36 + data.length := by
    rw [List.length_append, hcid]
  have hcarlen : (varintEncode header.length ++
      (header ++ ((root, data) :: rest).flatMap carBlock)).length =
      HEADER_LEN + ((carBlock (root, data)).length + (rest.flatMap carBlock).length) := by
    rw [List.length_append, List.length_append, List.flatMap_cons, List.length_append]
    omega
  constructor
  · intro hall
    by_cases hdata : data = []
    · exact .inl hdata
    · have hpos := List.length_pos_iff.2 hdata
      refine .inr ⟨?_, ?_⟩
      · by_contra hneg
        exact not_detects_of_lt h hroot (not_le.1 hneg) (hall _ (by omega))
      · by_contra hge
        exact not_detects_of_le h hroot hdata (not_lt.1 hge) (hall _ (by omega))
  · rintro (rfl | ⟨hge, hlt⟩) n hn
    · obtain rfl := hrest rfl
      have hshort : ∀ block ∈ [(root, ([] : Bytes))], ShortBlock block := by
        refine List.forall_mem_singleton.2 ⟨hcid, ?_⟩
        exact (by decide : CIDV1_LEN + 0 < 2 ^ 31)
      refine (detects_take_iff hroot hshort hcar hn).2 ?_
      rintro ⟨pre, block, post, hsplit, hle, hlt⟩
      have hmem : block ∈ [(root, ([] : Bytes))] := by
        rw [hsplit]
        exact List.mem_append_right _ List.mem_cons_self
      obtain rfl := List.mem_singleton.1 hmem
      dsimp only at hle
      rw [List.length_nil] at hcontent
      omega
    · rcases lt_or_ge n HEADER_LEN with hcut | hcut
      · obtain ⟨e, he⟩ := h.importCar_of_lt (((root, data) :: rest).flatMap carBlock) hcut
        exact (detects_iff_of_importCar (he 0)).2 nofun
      · have himport := h.importCar_of_le (((root, data) :: rest).flatMap carBlock) hcut 2
        have hle : HEADER_LEN ≤ ((varintEncode header.length ++
            (header ++ ((root, data) :: rest).flatMap carBlock)).take n).length := by
          rw [List.length_take]
          omega
        rcases importBlocks_first h hroot hge hlt hcut rfl hle with ⟨e, he⟩ | hnil
        · rw [he] at himport
          exact (detects_iff_of_importCar himport).2 nofun
        · rw [hnil] at himport
          refine (detects_iff_of_importCar himport).2 fun roots read hread => ?_
          obtain ⟨-, rfl⟩ := Prod.mk.inj (Except.ok.inj hread)
          exact List.nil_prefix

end

/-- The first block of an export is its root, and nothing follows one that is empty. -/
theorem collectAllBlocks_root {store : BlockStore} {root : Cid} {data : Bytes} (fuel : ℕ)
    (hget : store.get root = some data) : ∃ rest,
      (collectAllBlocks store (fuel + 1) [] root).1 = .ok ((root, data) :: rest) ∧
      (data = [] → rest = []) := by
  rw [collectAllBlocks, if_neg List.not_mem_nil, hget]
  dsimp only
  refine ⟨_, rfl, ?_⟩
  rintro rfl
  rfl

/-- Of an export every cut is detected only if its root has no data, or has so much that its
    length, as 32 bits, is too short or ends before the block. Where all blocks are short, it is
    the cuts in their data that are not. -/
theorem exportCar_detects_iff {store : BlockStore} {root : Cid} {data car : Bytes}
    (hroot : isValidCid root) (hget : store.get root = some data)
    (hblocks : (collectAllBlocks store (store.length + 2) [] root).1 = .ok blocks)
    (hcar : exportCar store root = .ok car) :
    ((∀ n < car.length, Detects (car.take n) blocks) ↔
      data = [] ∨ -61 ≤ toInt32 (root.bytes ++ data).length ∧
        toInt32 (root.bytes ++ data).length < 36) ∧
    ((∀ block ∈ blocks, ShortBlock block) → ∀ n < car.length,
      (Detects (car.take n) blocks ↔ ¬ CutsData blocks n)) := by
  rw [exportCar, hblocks, ok_bind] at hcar
  obtain ⟨rest, hcollect, hrest⟩ := collectAllBlocks_root (store.length + 1) hget
  obtain rfl := Except.ok.inj (hblocks.symm.trans hcollect)
  exact ⟨detects_carOf_iff hroot hrest hcar,
    fun hshort n hn => detects_take_iff hroot hshort hcar hn⟩

/-! ## An export with one block -/

def sampleRoot : Cid := cidForBytes [0x01]

theorem sampleRoot_blocks : (collectAllBlocks [(sampleRoot, [0x01])] 3 [] sampleRoot).1 =
    .ok [(sampleRoot, [0x01])] := by
  have hget : BlockStore.get [(sampleRoot, [0x01])] sampleRoot = some [0x01] := List.lookup_cons_self
  rw [collectAllBlocks, if_neg List.not_mem_nil, hget]
  rfl

theorem sampleRoot_car : ∃ car, exportCar [(sampleRoot, [0x01])] sampleRoot = .ok car ∧
    carOf [sampleRoot] [(sampleRoot, [0x01])] = .ok car := by
  obtain ⟨header, h⟩ := exists_header (isValidCid_cidFromDigest (sha256 [0x01]))
  refine ⟨_, ?_, h.carOf_eq⟩
  have hblocks : (collectAllBlocks [(sampleRoot, [0x01])]
    (List.length [(sampleRoot, ([0x01] : Bytes))] + 2) [] sampleRoot).1 = _ := sampleRoot_blocks
  rw [exportCar, hblocks, ok_bind]
  exact h.carOf_eq

theorem exportCar_detects_iff_sample : ∃ car,
    exportCar [(sampleRoot, [0x01])] sampleRoot = .ok car ∧
    ((∀ n < car.length, Detects (car.take n) [(sampleRoot, [0x01])]) ↔
      ([0x01] : Bytes) = [] ∨ -61 ≤ toInt32 (sampleRoot.bytes ++ [0x01]).length ∧
        toInt32 (sampleRoot.bytes ++ [0x01]).length < 36) ∧
    ((∀ block ∈ [(sampleRoot, [0x01])], ShortBlock block) → ∀ n < car.length,
      (Detects (car.take n) [(sampleRoot, [0x01])] ↔ ¬ CutsData [(sampleRoot, [0x01])] n)) := by
  obtain ⟨car, hcar, -⟩ := sampleRoot_car
  exact ⟨car, hcar, exportCar_detects_iff (isValidCid_cidFromDigest _) List.lookup_cons_self
    sampleRoot_blocks hcar⟩

/-- Without its last byte, the file is read with an empty block under the CID of another one. -/
theorem not_exportCar_detects : ∃ car, exportCar [(sampleRoot, [0x01])] sampleRoot = .ok car ∧
    ¬ ∀ n < car.length, Detects (car.take n) [(sampleRoot, [0x01])] := by
  obtain ⟨car, hcar, hcarOf⟩ := sampleRoot_car
  have hroot : isValidCid sampleRoot := isValidCid_cidFromDigest _
  have hlen : (sampleRoot.bytes ++ [0x01]).length = 37 := by
    rw [List.length_append, length_of_isValidCid hroot]
    rfl
  refine ⟨car, hcar, fun hall => ?_⟩
  have hrest : ([0x01] : Bytes) = [] → ([] : List (Cid × Bytes)) = [] := fun _ => rfl
  have hcases := (detects_carOf_iff hroot hrest hcarOf).1 hall
  rw [hlen] at hcases
  exact absurd hcases (by decide)

end ComputeContract
