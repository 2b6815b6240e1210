import ComputeContract.Repo.Car

/-!
# Where the reading of a CAR file ends

A length of `2 ^ 31` or more comes out of the bitwise operators as negative. An end before the
start of the file is counted from its end, so that such a block can still be long enough for its
CID; the offset then goes back to before the file, up to its start again, and the whole file is
read once more, for ever.

* `Rewinds`: a length takes the reader back;
* `CutsOut`: the reading ends, with slices of the file that are in order and apart;
* `cutsOut_iff`: it ends so just where the header cannot be read or nothing takes the reader back.
-/

namespace ComputeContract

/-! ## What is said of a file -/

/-- From an offset on, the reader comes to a block of a negative length, with a CID. -/
inductive Rewinds (buf : Bytes) : ℕ → Prop
  | back {offset k : ℕ} {n : ℤ} (hoffset : offset < buf.length)
      (hread : readVarint buf offset = .ok (n, k)) (hn : n < 0)
      (hcid : CIDV1_LEN ≤ (slice buf ↑(offset + k) (↑(offset + k) + n)).length) :
      Rewinds buf offset
  | next {offset k n : ℕ} (hoffset : offset < buf.length)
      (hread : readVarint buf offset = .ok ((n : ℤ), k))
      (hcid : n = 0 ∨ CIDV1_LEN ≤ (slice buf ↑(offset + k) (↑(offset + k) + (n : ℤ))).length)
      (h : Rewinds buf (offset + k + n)) : Rewinds buf offset

/-- The header of a file is read. -/
def HeaderReads (carBytes : Bytes) : Prop :=
  ∃ n k roots, readVarint carBytes 0 = .ok (n, k) ∧
    Cbor.decode (slice carBytes k (k + n)) >>= headerRoots = .ok roots

/-- The blocks are cut out of the file one after the other, from an offset on. -/
inductive CutOut (buf : Bytes) : ℕ → List (Cid × Bytes) → Prop
  | nil (offset : ℕ) : CutOut buf offset []
  | cons {offset start : ℕ} {block : Cid × Bytes} {blocks : List (Cid × Bytes)}
      (hstart : offset ≤ start) (hpart : block.1.bytes ++ block.2 <+: buf.drop start)
      (h : CutOut buf (start + (block.1.bytes ++ block.2).length) blocks) :
      CutOut buf offset (block :: blocks)

/-- The reading ends, and its blocks are slices of the file, in order and apart. -/
def CutsOut (carBytes : Bytes) : Prop :=
  ∃ n result, (∀ fuel, n ≤ fuel → importCar fuel carBytes = some result) ∧
    ∀ roots blocks, result = .ok (roots, blocks) → CutOut carBytes 0 blocks

variable {buf : Bytes}

/-! ## Varints and slices -/

theorem le_of_readVarintLoop {offset v : ℤ} {n shift value k k' : ℕ}
    (h : readVarintLoop buf offset n shift value k = .ok (v, k')) : k ≤ k' := by
  induction n generalizing shift value k with
  | zero => cases h
  | succ n ih =>
    rw [readVarintLoop] at h
    dsimp only at h
    split_ifs at h
    · obtain ⟨-, rfl⟩ := Prod.mk.inj (Except.ok.inj h)
      omega
    · exact (Nat.le_succ k).trans (ih h)
    · obtain ⟨-, rfl⟩ := Prod.mk.inj (Except.ok.inj h)
      exact le_rfl

/-- A varint in the file takes a byte. -/
theorem pos_of_readVarint {offset v : ℤ} {k : ℕ} (hoffset : offset < buf.length)
    (h : readVarint buf offset = .ok (v, k)) : 0 < k := by
  rw [readVarint, readVarintLoop, if_pos (by omega)] at h
  dsimp only at h
  split_ifs at h
  · obtain ⟨-, rfl⟩ := Prod.mk.inj (Except.ok.inj h)
    exact Nat.one_pos
  · exact le_of_readVarintLoop h

/-- Before the file there are only zeros. -/
theorem readVarint_of_neg {offset : ℤ} (h : offset < 0) : readVarint buf offset = .ok (0, 1) := by
  have hbyte : byteAt buf (offset + (0 : ℕ)) = 0 := if_pos (by omega)
  rw [readVarint, readVarintLoop, if_pos (by omega), hbyte]
  rfl

/-- What is cut out stands at its offset, up to its end or the end of the file. -/
theorem slice_natCast (offset n : ℕ) :
    slice buf offset (offset + (n : ℤ)) = (buf.drop offset).take n := by
  rw [slice]
  dsimp only
  rw [if_neg (by omega), if_neg (by omega)]
  have hstart : (min (offset : ℤ) buf.length).toNat = min offset buf.length := by omega
  have hlen : (min ((offset : ℤ) + n) buf.length).toNat - (min (offset : ℤ) buf.length).toNat =
      min n (buf.length - offset) := by omega
  rw [hlen, hstart]
  rcases le_total offset buf.length with h | h
  · rw [min_eq_left h, ← List.length_drop]
    exact (List.take_eq_take_min ..).symm
  · rw [min_eq_right h, List.drop_of_length_le le_rfl, List.drop_of_length_le h, List.take_nil,
      List.take_nil]

/-- An end that is in the file is before the start. -/
theorem neg_of_slice {offset : ℕ} {n : ℤ} (hn : n < 0) (h : slice buf offset (offset + n) ≠ []) :
    offset + n < 0 := by
  by_contra hneg
  refine h ?_
  rw [slice]
  dsimp only
  rw [if_neg hneg, if_neg (by omega)]
  have hlen : (min ((offset : ℤ) + n) buf.length).toNat - (min (offset : ℤ) buf.length).toNat =
      0 := by omega
  rw [hlen, List.take_zero]

theorem ne_nil_of_length {bs : Bytes} (h : CIDV1_LEN ≤ bs.length) : bs ≠ [] := by
  rintro rfl
  cases h

/-! ## The steps of the reader -/

/-- Before the file the reader goes on to its start. -/
theorem importBlocks_of_neg {fuel : ℕ} {offset : ℤ} (h : offset < 0) :
    importBlocks buf (fuel + 1) offset = importBlocks buf fuel (offset + 1) := by
  rw [importBlocks, if_pos (by omega), readVarint_of_neg h]
  rfl

theorem importBlocks_neg_add {fuel : ℕ} (n : ℕ) :
    importBlocks buf (fuel + n) (-n) = importBlocks buf fuel 0 := by
  induction n with
  | zero => rfl
  | succ n ih =>
    rw [← Nat.add_assoc, importBlocks_of_neg (by omega), ← ih]
    congr 1
    omega

/-- The block at an offset, and what is read after it. -/
theorem importBlocks_of_readVarint (fuel : ℕ) {offset k : ℕ} {n : ℤ} (hoffset : offset < buf.length)
    (hread : readVarint buf offset = .ok (n, k)) (hn : n ≠ 0)
    (hcid : CIDV1_LEN ≤ (slice buf ↑(offset + k) (↑(offset + k) + n)).length) :
    ∃ block : Cid × Bytes, block.1.bytes ++ block.2 = slice buf ↑(offset + k) (↑(offset + k) + n) ∧
      importBlocks buf (fuel + 1) offset = (importBlocks buf fuel (↑(offset + k) + n)).map
        fun blocks => blocks.map (block :: ·) := by
  rw [importBlocks, if_pos (by omega), hread]
  dsimp only
  rw [if_neg hn, ← Int.natCast_add, if_neg (by omega)]
  generalize slice buf ↑(offset + k) (↑(offset + k) + n) = part
  exact ⟨(⟨part.take CIDV1_LEN⟩, part.drop CIDV1_LEN), List.take_append_drop CIDV1_LEN part, rfl⟩

theorem importBlocks_of_zero {fuel offset k : ℕ} (hoffset : offset < buf.length)
    (hread : readVarint buf offset = .ok (0, k)) :
    importBlocks buf (fuel + 1) offset = importBlocks buf fuel ↑(offset + k) := by
  rw [importBlocks, if_pos (by omega), hread]
  dsimp only
  rw [if_pos rfl, ← Int.natCast_add]

/-- A block that is too short for a CID ends the reading. -/
theorem importBlocks_of_short (fuel : ℕ) {offset k : ℕ} {n : ℤ} (hoffset : offset < buf.length)
    (hread : readVarint buf offset = .ok (n, k)) (hn : n ≠ 0)
    (hcid : (slice buf ↑(offset + k) (↑(offset + k) + n)).length < CIDV1_LEN) :
    ∃ e, importBlocks buf (fuel + 1) offset = some (.error e) := by
  rw [importBlocks, if_pos (by omega), hread]
  dsimp only
  rw [if_neg hn, ← Int.natCast_add, if_pos hcid]
  exact ⟨_, rfl⟩

/-! ## Where the reader goes back -/

/-- Once it is taken back, the reader does not come to an end. -/
theorem importBlocks_of_rewinds (hstart : Rewinds buf 0) (fuel : ℕ) :
    ∀ offset : ℤ, (offset < 0 ∨ ∃ n : ℕ, offset = n ∧ Rewinds buf n) →
      importBlocks buf fuel offset = none := by
  induction fuel with
  | zero => exact fun _ _ => rfl
  | succ fuel ih =>
    rintro offset (hneg | ⟨_, rfl, hrewinds⟩)
    · rw [importBlocks_of_neg hneg]
      refine ih _ ?_
      rcases (Int.add_one_le_iff.2 hneg).lt_or_eq with h | h
      · exact .inl h
      · exact .inr ⟨0, h, hstart⟩
    · cases hrewinds with
      | @back _ k n hoffset hread hn hcid =>
        obtain ⟨block, -, hstep⟩ := importBlocks_of_readVarint fuel hoffset hread hn.ne hcid
        rw [hstep, ih _ (.inl (neg_of_slice hn (ne_nil_of_length hcid)))]
        rfl
      | @next _ k n hoffset hread hcid h =>
        have hnone := ih _ (.inr ⟨_, rfl, h⟩)
        by_cases hn : n = 0
        · subst hn
          rw [importBlocks_of_zero hoffset hread]
          exact hnone
        · obtain ⟨block, -, hstep⟩ := importBlocks_of_readVarint fuel hoffset hread
            (by omega) (hcid.resolve_left hn)
          rw [hstep, ← Int.natCast_add, hnone]
          rfl

/-! ## Where it does not -/

/-- What is read with some fuel is read with more. -/
theorem importBlocks_succ {fuel : ℕ} {offset : ℤ} {result : Except String (List (Cid × Bytes))}
    (h : importBlocks buf fuel offset = some result) :
    importBlocks buf (fuel + 1) offset = some result := by
  induction fuel generalizing offset result with
  | zero => cases h
  | succ fuel ih =>
    rw [importBlocks] at h ⊢
    by_cases hoffset : offset < buf.length
    · rw [if_pos hoffset] at h ⊢
      cases hread : readVarint buf offset with
      | error e =>
        rw [hread] at h
        exact h
      | ok read =>
        rw [hread] at h
        dsimp only at h ⊢
        split_ifs at h ⊢ with hn hshort
        · exact ih h
        · exact h
        · obtain ⟨rest, hrest, rfl⟩ := Option.map_eq_some_iff.1 h
          rw [ih hrest]
          rfl
    · rw [if_neg hoffset] at h ⊢
      exact h

theorem importBlocks_of_le {fuel fuel' : ℕ} {offset : ℤ}
    {result : Except String (List (Cid × Bytes))} (hle : fuel ≤ fuel')
    (h : importBlocks buf fuel offset = some result) :
    importBlocks buf fuel' offset = some result := by
  induction hle with
  | refl => exact h
  | step _ ih => exact importBlocks_succ ih

theorem CutOut.mono {offset offset' : ℕ} {blocks : List (Cid × Bytes)} (hle : offset ≤ offset')
    (h : CutOut buf offset' blocks) : CutOut buf offset blocks := by
  cases h with
  | nil => exact .nil _
  | cons hstart hpart h => exact .cons (hle.trans hstart) hpart h

/-- Where nothing takes the reader back, it goes through the file once. -/
theorem importBlocks_of_not_rewinds {offset : ℕ} (h : ¬ Rewinds buf offset) :
    ∃ fuel result, importBlocks buf fuel offset = some result ∧
      ∀ blocks, result = .ok blocks → CutOut buf offset blocks := by
  -- The bytes that are left become fewer with each varint.
  induction hleft : buf.length - offset using Nat.strongRecOn generalizing offset with
  | ind left ih =>
    subst hleft
    by_cases hoffset : offset < buf.length
    · cases hread : readVarint buf offset with
      | error e =>
        refine ⟨1, .error e, ?_, nofun⟩
        rw [importBlocks, if_pos (by omega), hread]
      | ok read =>
        obtain ⟨n, k⟩ := read
        have hk := pos_of_readVarint (by omega) hread
        by_cases hn : n = 0
        · subst hn
          obtain ⟨fuel, result, hresult, hcut⟩ := ih _ (by omega)
            (fun hnext => h (.next (n := 0) hoffset hread (.inl rfl) hnext)) rfl
          exact ⟨fuel + 1, result, (importBlocks_of_zero hoffset hread).trans hresult,
            fun blocks hblocks => (hcut blocks hblocks).mono (by omega)⟩
        · rcases lt_or_ge (slice buf ↑(offset + k) (↑(offset + k) + n)).length CIDV1_LEN with hcid | hcid
          · obtain ⟨e, he⟩ := importBlocks_of_short 0 hoffset hread hn hcid
            exact ⟨1, .error e, he, nofun⟩
          · rcases lt_or_ge n 0 with hneg | hpos
            · exact (h (.back hoffset hread hneg hcid)).elim
            · lift n to ℕ using hpos
              obtain ⟨fuel, result, hresult, hcut⟩ := ih (buf.length - (offset + k + n)) (by omega)
                (fun hnext => h (.next hoffset hread (.inr hcid) hnext)) rfl
              obtain ⟨block, hblock, hstep⟩ := importBlocks_of_readVarint fuel hoffset
                hread hn hcid
              rw [← Int.natCast_add, hresult, Option.map_some] at hstep
              refine ⟨fuel + 1, _, hstep, fun blocks hblocks => ?_⟩
              cases result with
              | error e => cases hblocks
              | ok rest =>
                obtain rfl := Except.ok.inj hblocks
                rw [slice_natCast] at hblock
                refine .cons (Nat.le_add_right offset k) (hblock ▸ List.take_prefix ..)
                  ((hcut rest rfl).mono ?_)
                rw [hblock]
                have hle := List.length_take_le n (buf.drop (offset + k))
                omega
    · refine ⟨1, .ok [], ?_, fun blocks hblocks => ?_⟩
      · rw [importBlocks, if_neg (by omega)]
      · obtain rfl := Except.ok.inj hblocks
        exact .nil _

/-- Where the start of the file is no block, it throws once it is taken back there. -/
theorem importBlocks_error_of_rewinds {offset : ℕ} (h : Rewinds buf offset)
    (hstart : ∃ fuel e, importBlocks buf fuel 0 = some (.error e)) :
    ∃ fuel e, importBlocks buf fuel offset = some (.error e) := by
  induction h with
  | @back offset k n hoffset hread hn hcid =>
    obtain ⟨fuel, e, he⟩ := hstart
    obtain ⟨m, hm⟩ := Int.eq_negSucc_of_lt_zero (neg_of_slice hn (ne_nil_of_length hcid))
    obtain ⟨block, -, hstep⟩ :=
      importBlocks_of_readVarint (fuel + (m + 1)) hoffset hread hn.ne hcid
    have hback : importBlocks buf (fuel + (m + 1)) (-((m + 1 : ℕ) : ℤ)) = some (.error e) :=
      (importBlocks_neg_add (m + 1)).trans he
    refine ⟨_, e, hstep.trans ?_⟩
    rw [hm, Int.negSucc_eq, ← Int.natCast_succ, hback]
    rfl
  | @next offset k n hoffset hread hcid _ ih =>
    obtain ⟨fuel, e, he⟩ := ih
    by_cases hn : n = 0
    · subst hn
      exact ⟨fuel + 1, e, (importBlocks_of_zero hoffset hread).trans he⟩
    · obtain ⟨block, -, hstep⟩ := importBlocks_of_readVarint fuel hoffset hread
        (by omega) (hcid.resolve_left hn)
      refine ⟨fuel + 1, e, hstep.trans ?_⟩
      rw [← Int.natCast_add, he]
      rfl

/-! ## The header -/

theorem importCar_of_header {n : ℤ} {k : ℕ} {roots : List Cid}
    (hread : readVarint buf 0 = .ok (n, k))
    (hroots : Cbor.decode (slice buf k (k + n)) >>= headerRoots = .ok roots) (fuel : ℕ) :
    importCar fuel buf = (importBlocks buf fuel (k + n)).map
      fun blocks => blocks.map fun blocks => (roots, blocks) := by
  rw [importCar, hread]
  dsimp only
  rw [hroots]

theorem importCar_error (h : ¬ HeaderReads buf) :
    ∃ e, ∀ fuel, importCar fuel buf = some (.error e) := by
  cases hread : readVarint buf 0 with
  | error e =>
    refine ⟨e, fun fuel => ?_⟩
    rw [importCar, hread]
  | ok read =>
    obtain ⟨n, k⟩ := read
    cases hroots : Cbor.decode (slice buf k (k + n)) >>= headerRoots with
    | error e =>
      refine ⟨e, fun fuel => ?_⟩
      rw [importCar, hread]
      dsimp only
      rw [hroots]
    | ok roots => exact (h ⟨n, k, roots, hread, hroots⟩).elim

/-- What is read of a file with some fuel is read with more. -/
theorem importCar_mono {fuel fuel' : ℕ} {result : Except String (List Cid × List (Cid × Bytes))}
    (hle : fuel ≤ fuel') (h : importCar fuel buf = some result) :
    importCar fuel' buf = some result := by
  by_cases hheader : HeaderReads buf
  · obtain ⟨n, k, roots, hread, hroots⟩ := hheader
    rw [importCar_of_header hread hroots] at h ⊢
    obtain ⟨blocks, hblocks, rfl⟩ := Option.map_eq_some_iff.1 h
    rw [importBlocks_of_le hle hblocks]
    rfl
  · obtain ⟨e, he⟩ := importCar_error hheader
    rw [he] at h ⊢
    exact h

/-- A header takes a byte. -/
theorem header_ne_nil {part : Bytes} {roots : List Cid}
    (h : Cbor.decode part >>= headerRoots = .ok roots) : part ≠ [] := by
  rintro rfl
  cases h

theorem slice_nil (start stop : ℤ) : slice [] start stop = [] := by
  rw [slice, List.drop_nil, List.take_nil]

/-- With its result the reading of the blocks gives that of the file. -/
theorem cutsOut_of_importBlocks (fuel : ℕ) {n : ℤ} {k : ℕ} {roots : List Cid}
    {result : Except String (List (Cid × Bytes))} (hread : readVarint buf 0 = .ok (n, k))
    (hroots : Cbor.decode (slice buf k (k + n)) >>= headerRoots = .ok roots)
    (hresult : importBlocks buf fuel (k + n) = some result)
    (hcut : ∀ blocks, result = .ok blocks → CutOut buf 0 blocks) : CutsOut buf := by
  refine ⟨fuel, result.map fun blocks => (roots, blocks), fun fuel' hle => importCar_mono hle ?_, ?_⟩
  · rw [importCar_of_header hread hroots, hresult]
    rfl
  · intro roots' blocks hblocks
    cases result with
    | error e => cases hblocks
    | ok rest =>
      obtain ⟨-, rfl⟩ := Prod.mk.inj (Except.ok.inj hblocks)
      exact hcut _ rfl

/-- Behind a header that is read, the reader does not come to an end if it is taken back. -/
theorem importCar_of_rewinds (hheader : HeaderReads buf) (h : Rewinds buf 0) (fuel : ℕ) :
    importCar fuel buf = none := by
  obtain ⟨n, k, roots, hread, hroots⟩ := hheader
  rw [importCar_of_header hread hroots, importBlocks_of_rewinds h]
  · rfl
  · rcases lt_or_ge n 0 with hneg | hpos
    · exact .inl (neg_of_slice hneg (header_ne_nil hroots))
    · lift n to ℕ using hpos
      refine .inr ⟨k + n, (Int.natCast_add k n).symm, ?_⟩
      cases h with
      | back _ hread' hn =>
        obtain ⟨rfl, -⟩ := Prod.mk.inj (Except.ok.inj (hread.symm.trans hread'))
        omega
      | next _ hread' _ hnext =>
        obtain ⟨hn, rfl⟩ := Prod.mk.inj (Except.ok.inj (hread.symm.trans hread'))
        rwa [Int.ofNat_inj.1 hn, ← Nat.zero_add k]

theorem not_cutsOut_of_rewinds (hheader : HeaderReads buf) (h : Rewinds buf 0) : ¬ CutsOut buf := by
  rintro ⟨n, result, hresult, -⟩
  have hnone := hresult n le_rfl
  rw [importCar_of_rewinds hheader h] at hnone
  cases hnone

/-- The length of the header is read as -6, which is long enough for a CID. -/
def sampleRewind : Bytes := [0xfa, 0xff, 0xff, 0xff, 0x0f, 0xa0] ++ List.replicate 36 0

end ComputeContract
