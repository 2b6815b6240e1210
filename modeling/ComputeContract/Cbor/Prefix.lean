import ComputeContract.Lib.Except
import ComputeContract.Cbor.Returns

/-!
# Encodings that are cut off

The decoder goes through its buffer once and looks at no byte behind what it reads. So what it
reads in the beginning of a buffer it reads in the buffer too, and of an encoding it reads
nothing when the end is missing.

* `Continues`: what one reader reads, another reads in every longer buffer;
* `continues_decodeValue`: the decoder reads so, with any fuel that is more;
* `decode_take`: an encoding that is cut off is not read.
-/

namespace ComputeContract.Cbor

/-- What `d` reads in a buffer, `d'` reads in every longer one. -/
def Continues {α : Type} (d d' : Decoder α) : Prop :=
  ∀ ⦃bs a rest⦄ tail, d bs = .ok (a, rest) → d' (bs ++ tail) = .ok (a, rest ++ tail)

variable {α β : Type}

theorem continues_pure (a : α) : Continues (pure a) (pure a) := by
  intro bs b rest tail h
  obtain ⟨rfl, rfl⟩ := pure_eq_ok h
  rfl

theorem continues_throw (e : String) (d : Decoder α) : Continues (throw e) d := by
  intro bs a rest tail h
  cases h

theorem Continues.bind {d d' : Decoder α} {f f' : α → Decoder β} (h : Continues d d')
    (hf : ∀ a, Continues (f a) (f' a)) : Continues (d >>= f) (d' >>= f') := by
  intro bs b rest tail hbind
  obtain ⟨a, bs', ha, hb⟩ := bind_eq_ok hbind
  rw [bind_of_ok (h tail ha)]
  exact hf a tail hb

theorem continues_readByte : Continues readByte readByte := by
  intro bs b rest tail h
  cases bs with
  | nil => cases h
  | cons b' bs =>
    obtain ⟨rfl, rfl⟩ := Prod.mk.inj (Except.ok.inj h)
    rfl

theorem continues_readUInt (k : ℕ) : Continues (readUInt k) (readUInt k) := by
  induction k with
  | zero => exact continues_pure 0
  | succ k ih => exact ih.bind fun _ => continues_readByte.bind fun _ => continues_pure _

theorem continues_readValue (ai : ℕ) : Continues (readValue ai) (readValue ai) := by
  rw [readValue]
  split_ifs
  · exact continues_pure _
  · exact (continues_readUInt 1).bind fun _ => continues_pure _
  · exact (continues_readUInt 2).bind fun _ => continues_pure _
  · exact (continues_readUInt 4).bind fun _ => continues_pure _
  · refine (continues_readUInt 4).bind fun _ => (continues_readUInt 4).bind fun _ => ?_
    dsimp only
    split_ifs
    · exact continues_throw _ _
    · exact continues_pure _
  · exact continues_throw _ _

theorem continues_readHeader : Continues readHeader readHeader :=
  continues_readByte.bind fun _ => (continues_readValue _).bind fun _ => continues_pure _

theorem continues_readBytes (n : ℤ) : Continues (readBytes n) (readBytes n) := by
  intro bs out rest tail h
  obtain ⟨hn, hlen, rfl, rfl⟩ := readBytes_eq_ok h
  rw [readBytes, if_neg (not_lt.2 hn), if_pos (by rw [List.length_append]; omega),
    List.take_append_of_le_length hlen, List.drop_append_of_le_length hlen]

section
variable {item item' : Decoder Value} (h : Continues item item')
include h

theorem continues_readItems (n : ℕ) : Continues (readItems item n) (readItems item' n) := by
  induction n with
  | zero => exact continues_pure []
  | succ n ih => exact h.bind fun _ => ih.bind fun _ => continues_pure _

theorem continues_readFields (n : ℕ) (obj : List (String × Value)) :
    Continues (readFields item n obj) (readFields item' n obj) := by
  induction n generalizing obj with
  | zero => exact continues_pure obj
  | succ n ih =>
    refine h.bind fun key => ?_
    cases key with
    | text key => exact h.bind fun _ => ih _
    | _ => exact continues_throw _ _

theorem continues_decodeBody {major : ℕ} (hm : major < 8) (value : ℤ) :
    Continues (decodeBody item major value) (decodeBody item' major value) := by
  obtain rfl | rfl | rfl | rfl | rfl | rfl | rfl | rfl : major = 0 ∨ major = 1 ∨ major = 2 ∨
      major = 3 ∨ major = 4 ∨ major = 5 ∨ major = 6 ∨ major = 7 := by omega
  · exact continues_pure _
  · exact continues_pure _
  · exact (continues_readBytes value).bind fun _ => continues_pure _
  · exact (continues_readBytes value).bind fun _ => continues_pure _
  · exact (continues_readItems h _).bind fun _ => continues_pure _
  · exact (continues_readFields h _ _).bind fun _ => continues_pure _
  · rw [decodeBody, decodeBody]
    split_ifs
    · refine continues_readHeader.bind fun head => ?_
      dsimp only
      split_ifs
      · exact (continues_readBytes _).bind fun _ => continues_pure _
      · exact continues_throw _ _
    · exact continues_throw _ _
  · rw [decodeBody, decodeBody]
    · split_ifs
      · exact continues_pure _
      · exact continues_pure _
      · exact continues_pure _
      · exact continues_throw _ _
    all_goals omega

end

theorem continues_decodeValue {fuel fuel' : ℕ} (hle : fuel ≤ fuel') :
    Continues (decodeValue fuel) (decodeValue fuel') := by
  induction fuel generalizing fuel' with
  | zero => exact continues_throw _ _
  | succ fuel ih =>
    obtain ⟨fuel', rfl⟩ : ∃ n, fuel' = n + 1 := ⟨fuel' - 1, by omega⟩
    intro bs a rest tail h
    obtain ⟨⟨major, value⟩, bs', hhead, hbody⟩ := bind_eq_ok h
    have hm : major < 8 := by
      obtain ⟨b, bs₁, -, hvalue⟩ := bind_eq_ok hhead
      obtain ⟨value', bs₂, -, hpure⟩ := bind_eq_ok hvalue
      obtain ⟨heq, -⟩ := pure_eq_ok hpure
      obtain ⟨rfl, -⟩ := Prod.mk.inj heq
      have hb := b.toNat_lt
      omega
    rw [decodeValue, bind_of_ok (continues_readHeader tail hhead)]
    exact continues_decodeBody (ih (by omega)) hm value tail hbody

/-- An encoding that is cut off is not read. -/
theorem decode_take {out : Bytes} {v : Value} (h : Reads out v) {k : ℕ} (hk : k < out.length) :
    ∃ e, decode (out.take k) = .error e := by
  cases hdecode : decode (out.take k) with
  | error e => exact ⟨e, rfl⟩
  | ok w =>
    obtain ⟨⟨w', rest⟩, hread, hpure⟩ := ComputeContract.bind_eq_ok.1 hdecode
    have hle : (out.take k).length + 1 ≤ out.length + 1 := by rw [List.length_take]; omega
    have hall := continues_decodeValue hle (out.drop k) hread
    rw [List.take_append_drop] at hall
    have hwhole := h (out.length + 1) [] (Nat.lt_succ_self _)
    rw [List.append_nil] at hwhole
    have hrest := (Prod.mk.inj (Except.ok.inj (hall.symm.trans hwhole))).2
    have hlen := congrArg List.length hrest
    rw [List.length_append, List.length_drop, List.length_nil] at hlen
    omega

end ComputeContract.Cbor
