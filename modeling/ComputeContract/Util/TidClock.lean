import ComputeContract.Lib.Digits
import ComputeContract.Lib.LexCode
import ComputeContract.Util.FiveBits
import ComputeContract.Util.Tid

/-!
# The generator of TIDs

A TID packs a time in microseconds and the clock ID of the process into 8 bytes, spelled in a
base32 alphabet that is sorted. The generator takes the clock's reading, or the last time and one
more where the clock has not moved on. The times are doubles.

* `packTid_lt`: TIDs are in the order of their times;
* `lt_nextMicros`: the next time is later, as long as it is a safe integer;
* `tid_laws`: a TID is read back, and the TIDs of a process are in order.
-/

namespace ComputeContract

/-! ## The generator -/

def tidChar (d : Fin 32) : Char := TID_B32.get d

def b32encode (bytes : Bytes) : List Char := (b32digits 0 0 bytes).map tidChar

/-- The microseconds in 7 bytes, and the clock ID. -/
def tidBytes (micros : ℕ) (clock : UInt8) : Bytes :=
  let hi := micros / 0x100000000
  let lo := micros % 0x100000000
  [(hi / 2 ^ 16).toUInt8, (hi / 2 ^ 8).toUInt8, hi.toUInt8, (lo / 2 ^ 24).toUInt8,
    (lo / 2 ^ 16).toUInt8, (lo / 2 ^ 8).toUInt8, lo.toUInt8, clock]

theorem tidChar_mem (d : Fin 32) : tidChar d ∈ TID_B32 := List.get_mem TID_B32 d

theorem isValidTid_b32encode (micros : ℕ) (clock : UInt8) :
    isValidTid (String.ofList (b32encode (tidBytes micros clock))) := by
  refine decide_eq_true ⟨?_, List.all_eq_true.2 fun c hc => ?_⟩
  · rw [String.length_ofList]
    rfl
  · rw [String.toList_ofList] at hc
    obtain ⟨d, -, rfl⟩ := List.mem_map.1 hc
    exact decide_eq_true (tidChar_mem d)

/-- The bytes make 13 characters, and nothing is padded. -/
def packTid (micros : ℕ) (clock : UInt8) : Tid :=
  ⟨String.ofList (b32encode (tidBytes micros clock)), isValidTid_b32encode micros clock⟩

/-- `n + 1`, rounded to a double, for a double `n`. -/
def succDouble (n : ℕ) : ℕ :=
  if n < 2 ^ 53 then n + 1
  -- between two doubles, the one whose last bit is 0
  else if n < 2 ^ 54 ∧ n % 4 = 2 then n + 2
  else n

/-- The time of the next TID, from the last one and what the clock reads. -/
def nextMicros (lastMicros reading : ℕ) : ℕ :=
  if reading ≤ lastMicros then succDouble lastMicros else reading

/-- The times of the TIDs of a process, of what the clock reads. A reading before 1970 is at most
    the last time, as `0` is. -/
def times (lastMicros : ℕ) : List ℤ → List ℕ
  | [] => []
  | reading :: readings =>
    let micros := nextMicros lastMicros reading.toNat
    micros :: times micros readings

/-- The TIDs of a process, call by call of `nextTid`. -/
def nextTids (clock : UInt8) (readings : List ℤ) : List Tid :=
  (times 0 readings).map fun micros => packTid micros clock

/-! ## Reading -/

def tidDigit (c : Char) : Except String (Fin 32) :=
  match TID_B32.idxOf? c with
  | some idx => .ok (Fin.ofNat 32 idx)
  | none => .error s!"b32decode: invalid character '{c}'"

def b32decode (s : List Char) : Except String Bytes := do
  let ds ← s.mapM tidDigit
  return b32bytes 0 0 ds

/-- The double that is closest to a number. -/
def roundDouble (n : ℕ) : ℕ :=
  let unit := 2 ^ (n.log2 - 52)
  if 2 * (n % unit) < unit ∨ 2 * (n % unit) = unit ∧ n / unit % 2 = 0 then n / unit * unit
  else (n / unit + 1) * unit

/-- The microseconds and the clock ID. -/
def parseTid (tid : String) : Except String (ℕ × UInt8) := do
  match ← b32decode tid.toList with
  | b₀ :: b₁ :: b₂ :: b₃ :: b₄ :: b₅ :: b₆ :: b₇ :: _ =>
    let hi := b₀.toNat * 2 ^ 16 + b₁.toNat * 2 ^ 8 + b₂.toNat
    let lo := b₃.toNat * 2 ^ 24 + b₄.toNat * 2 ^ 16 + b₅.toNat * 2 ^ 8 + b₆.toNat
    return (roundDouble (hi * 0x100000000 + lo), b₇)
  | _ => .error "parseTid: decoded TID too short"

theorem roundDouble_eq_self {n : ℕ} (h : n < 2 ^ 53) : roundDouble n = n := by
  have hlog : n.log2 - 52 = 0 := by
    rcases eq_or_ne n 0 with rfl | hne
    · rfl
    · have := (Nat.log2_lt hne).2 h
      omega
  simp [roundDouble, hlog, Nat.mod_one]

theorem tidDigit_tidChar : ∀ d, tidDigit (tidChar d) = .ok d := by
  have hidx : ∀ d, (TID_B32.idxOf? (tidChar d)).map (Fin.ofNat 32) = some d := by decide +kernel
  intro d
  obtain ⟨idx, hidx, hd⟩ := Option.map_eq_some_iff.1 (hidx d)
  rw [tidDigit, hidx, ← hd]

theorem b32decode_b32encode (bytes : Bytes) : b32decode (b32encode bytes) = .ok bytes := by
  have hdigits : ∀ ds : List (Fin 32), (ds.map tidChar).mapM tidDigit = .ok ds := by
    intro ds
    induction ds with
    | nil => rfl
    | cons d ds ih =>
      rw [List.map_cons, List.mapM_cons, tidDigit_tidChar, ih]
      rfl
  rw [b32decode, b32encode, hdigits]
  exact congrArg Except.ok (b32bytes_b32digits bytes 0 0 0 (by decide))

/-- A TID is read back. -/
theorem parseTid_packTid {micros : ℕ} (h : micros < 2 ^ 53) (clock : UInt8) :
    parseTid (packTid micros clock).1 = .ok (micros, clock) := by
  have hval (m : ℕ) : m.toUInt8.toNat = m % 256 := UInt8.toNat_ofNat'
  rw [parseTid, packTid, String.toList_ofList, b32decode_b32encode]
  change Except.ok (roundDouble _, clock) = _
  refine congrArg (fun m => Except.ok (m, clock))
    ((congrArg roundDouble ?_).trans (roundDouble_eq_self h))
  simp only [hval]
  omega

/-! ## The order -/

/-- The number that bytes spell. -/
def bytesValue (n : ℕ) (bs : Bytes) : ℕ := Digits.value n (bs.map UInt8.toFin)

/-- The bits that are filled up in the last character. -/
def filled (bits len : ℕ) : ℕ := (5 - (bits + 8 * len) % 5) % 5

/-- The characters spell the bits held back before, the bytes, and what is filled up. -/
theorem value_b32digits (bs : Bytes) {bits : ℕ} (value n : ℕ) (hbits : bits < 5) :
    Digits.value n (b32digits bits value bs) =
      bytesValue (n * 2 ^ bits + value % 2 ^ bits) bs * 2 ^ filled bits bs.length := by
  induction bs generalizing bits value n with
  | nil =>
    obtain rfl | rfl | rfl | rfl | rfl : bits = 0 ∨ bits = 1 ∨ bits = 2 ∨ bits = 3 ∨ bits = 4 := by
      omega
    all_goals
      simp [b32digits, bytesValue, filled, Digits.value]
      try omega
  | cons b bs ih =>
    have hb := b.toNat_lt
    have hfilled (bits' : ℕ) (h : bits + 8 = bits' + 5 ∨ bits + 8 = bits' + 10) :
        filled bits (b :: bs).length = filled bits' bs.length := by
      rw [filled, filled, List.length_cons]
      omega
    have hcons (n : ℕ) : bytesValue n (b :: bs) = bytesValue (n * 256 + b.toNat) bs := rfl
    rw [b32digits, hcons]
    by_cases htwo : 10 ≤ bits + 8
    · dsimp only
      rw [if_pos htwo, Digits.value_cons, Digits.value_cons, ih _ _ (by omega),
        hfilled (bits + 8 - 10) (by omega)]
      congr 2
      obtain rfl | rfl | rfl : bits = 2 ∨ bits = 3 ∨ bits = 4 := by omega
      all_goals
        simp only [Fin.val_ofNat]
        omega
    · dsimp only
      rw [if_neg htwo, Digits.value_cons, ih _ _ (by omega), hfilled (bits + 8 - 5) (by omega)]
      congr 2
      obtain rfl | rfl : bits = 0 ∨ bits = 1 := by omega
      all_goals
        simp only [Fin.val_ofNat]
        omega

/-- A time and a clock ID, as one number. -/
theorem bytesValue_tidBytes {micros : ℕ} (h : micros < 2 ^ 56) (clock : UInt8) :
    bytesValue 0 (tidBytes micros clock) = micros * 256 + clock.toNat := by
  have hval (m : ℕ) : (m.toUInt8.toFin : ℕ) = m % 256 := UInt8.toNat_ofNat'
  have hsize : UInt8.size = 256 := rfl
  simp only [bytesValue, tidBytes, List.map_cons, List.map_nil, Digits.value_cons, Digits.value_nil,
    hval, hsize]
  have hclock : (clock.toFin : ℕ) = clock.toNat := rfl
  omega

theorem tidChar_lt : ∀ {d d' : Fin 32}, d < d' → tidChar d < tidChar d' := by decide +kernel

theorem ordered_tidChar : LexCode.Ordered (fun d => [tidChar d]) (id : Fin 32 → Fin 32) where
  ne_nil _ := List.cons_ne_nil _ _
  injective := Function.injective_id
  lt h _ _ := List.Lex.rel (tidChar_lt h)

/-- TIDs are in the order of their times. -/
theorem packTid_lt {micros micros' : ℕ} {clock clock' : UInt8} (h' : micros' < 2 ^ 56)
    (h : micros * 256 + clock.toNat < micros' * 256 + clock'.toNat) :
    (packTid micros clock).1 < (packTid micros' clock').1 := by
  have hlt := clock'.toNat_lt
  have hbytes (micros : ℕ) (clock : UInt8) : (tidBytes micros clock).length = 8 := rfl
  have hfilled : filled 0 8 = 1 := rfl
  have hvalue (micros : ℕ) (clock : UInt8) (h : micros < 2 ^ 56) :
      Digits.value 0 (b32digits 0 0 (tidBytes micros clock)) =
        (micros * 256 + clock.toNat) * 2 := by
    rw [value_b32digits _ _ _ (by decide), Nat.zero_mul, Nat.zero_add, Nat.zero_mod,
      bytesValue_tidBytes h, hbytes, hfilled, Nat.pow_one]
  have hlen (micros : ℕ) (clock : UInt8) : (b32digits 0 0 (tidBytes micros clock)).length = 13 := rfl
  have hdigits : b32digits 0 0 (tidBytes micros clock) < b32digits 0 0 (tidBytes micros' clock') := by
    refine Digits.lt_of_value_lt ((hlen micros clock).trans (hlen micros' clock').symm) ?_
    rw [hvalue _ _ (by omega), hvalue _ _ h']
    omega
  have hchars : b32encode (tidBytes micros clock) < b32encode (tidBytes micros' clock') := by
    have hiff := ordered_tidChar.flatMap_lt_flatMap_iff (b32digits 0 0 (tidBytes micros clock))
      (b32digits 0 0 (tidBytes micros' clock'))
    rw [List.map_id, List.map_id] at hiff
    rw [b32encode, b32encode, List.map_eq_flatMap, List.map_eq_flatMap]
    exact hiff.2 hdigits
  rw [packTid, packTid, String.lt_iff_toList_lt, String.toList_ofList, String.toList_ofList]
  exact hchars

/-- TIDs are in the order of their times, and of their clock IDs at one time. -/
theorem packTid_lt_iff {micros micros' : ℕ} {clock clock' : UInt8} (h : micros < 2 ^ 56)
    (h' : micros' < 2 ^ 56) : (packTid micros clock).1 < (packTid micros' clock').1 ↔
      micros < micros' ∨ micros = micros' ∧ clock < clock' := by
  have hlt := clock.toNat_lt
  have hlt' := clock'.toNat_lt
  have hlex : micros < micros' ∨ micros = micros' ∧ clock < clock' ↔
      micros * 256 + clock.toNat < micros' * 256 + clock'.toNat := by
    rw [UInt8.lt_iff_toNat_lt]
    omega
  rw [hlex]
  refine ⟨fun horder => ?_, packTid_lt h'⟩
  by_contra hnot
  rcases (not_lt.1 hnot).lt_or_eq with hgt | heq
  · exact lt_asymm horder (packTid_lt h hgt)
  · obtain rfl : micros = micros' := by omega
    obtain rfl : clock = clock' := UInt8.toNat_inj.1 (by omega)
    exact lt_irrefl _ horder

/-! ## The TIDs of a process -/

theorem lt_nextMicros {lastMicros reading : ℕ} (h : nextMicros lastMicros reading < 2 ^ 53) :
    lastMicros < nextMicros lastMicros reading := by
  rw [nextMicros, succDouble] at h ⊢
  split_ifs at h ⊢ <;> omega

/-- The times of a process are later than the last one before, one after the other. -/
theorem pairwise_times {readings : List ℤ} {lastMicros : ℕ}
    (h : ∀ micros ∈ times lastMicros readings, micros < 2 ^ 53) :
    (lastMicros :: times lastMicros readings).Pairwise (· < ·) := by
  induction readings generalizing lastMicros with
  | nil => exact List.pairwise_singleton _ _
  | cons reading readings ih =>
    rw [times, List.forall_mem_cons] at h
    have hnext := lt_nextMicros h.1
    have hrest := ih h.2
    rw [times]
    refine List.pairwise_cons.2 ⟨List.forall_mem_cons.2 ⟨hnext, fun micros hmicros => ?_⟩, hrest⟩
    exact hnext.trans ((List.pairwise_cons.1 hrest).1 micros hmicros)

theorem pairwise_nextTids {clock : UInt8} {readings : List ℤ}
    (h : ∀ micros ∈ times 0 readings, micros < 2 ^ 53) :
    (nextTids clock readings).Pairwise fun tid tid' => tid.1 < tid'.1 := by
  refine List.pairwise_map.2 ((List.pairwise_cons.1 (pairwise_times h)).2.imp_of_mem ?_)
  intro micros micros' _ hmem' hlt
  have hbound := h micros' hmem'
  exact packTid_lt (by omega) (by omega)

/-- A TID is read back, it has 13 characters of the alphabet, and it stands in the order of its
    time and its clock ID; and the TIDs of a process are in order, whatever its clock reads, as
    long as the times are safe integers. -/
theorem tid_laws :
    (∀ micros < 2 ^ 53, ∀ clock, parseTid (packTid micros clock).1 = .ok (micros, clock) ∧
      (packTid micros clock).1.length = 13 ∧ ∀ c ∈ (packTid micros clock).1.toList, c ∈ TID_B32) ∧
    (∀ micros < 2 ^ 53, ∀ micros' < 2 ^ 53, ∀ clock clock',
      (packTid micros clock).1 < (packTid micros' clock').1 ↔
        micros < micros' ∨ micros = micros' ∧ clock < clock') ∧
    ∀ clock readings, (∀ micros ∈ times 0 readings, micros < 2 ^ 53) →
      (nextTids clock readings).Pairwise fun tid tid' => tid.1 < tid'.1 := by
  refine ⟨fun micros h clock => ⟨parseTid_packTid h clock, ?_⟩, fun micros h micros' h' clock clock' =>
    packTid_lt_iff (by omega) (by omega), fun clock readings => pairwise_nextTids⟩
  have hvalid := of_decide_eq_true (packTid micros clock).2
  exact ⟨hvalid.1, fun c hc => of_decide_eq_true (List.all_eq_true.1 hvalid.2 c hc)⟩

theorem tid_laws_sample : parseTid (packTid 1700000000000000 7).1 = .ok (1700000000000000, 7) ∧
    (packTid 5 200).1 < (packTid 6 0).1 ∧
    (nextTids 7 [5, 3, -1, 5, 20]).Pairwise fun tid tid' => tid.1 < tid'.1 :=
  ⟨(tid_laws.1 1700000000000000 (by decide) 7).1,
    (tid_laws.2.1 5 (by decide) 6 (by decide) 200 0).2 (.inl (by decide)),
    tid_laws.2.2 7 [5, 3, -1, 5, 20] (by decide)⟩

/-- At `2 ^ 53` microseconds a clock that stands still gives the same TID again. -/
theorem not_pairwise_nextTids : ¬ ∀ clock readings,
    (nextTids clock readings).Pairwise fun tid tid' => tid.1 < tid'.1 := by
  intro h
  have hpair := List.pairwise_cons.1 (h 0 [2 ^ 53, 2 ^ 53])
  exact absurd (hpair.1 _ (List.mem_singleton_self _)) (lt_irrefl _)

end ComputeContract
