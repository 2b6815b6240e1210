import ComputeContract.Util.Sha256

/-!
# Base64

`atob`, the forgiving decoder of the platform, and `btoa`.

* `atob_btoa`, `atob_fromUrl_toUrl`: what is encoded comes back.
-/

namespace ComputeContract

namespace Base64

def alphabet : List Char :=
  "ABCDEFGHIJKLMNOPQRSTUVWXYZabcdefghijklmnopqrstuvwxyz0123456789+/".toList

/-- The bytes of sextets; the bits that make no byte are dropped. -/
def fromSextets : List ℕ → Bytes
  | a :: b :: c :: d :: rest =>
    (a * 4 + b / 16).toUInt8 :: (b % 16 * 16 + c / 4).toUInt8 :: (c % 4 * 64 + d).toUInt8 ::
      fromSextets rest
  | [a, b, c] => [(a * 4 + b / 16).toUInt8, (b % 16 * 16 + c / 4).toUInt8]
  | [a, b] => [(a * 4 + b / 16).toUInt8]
  | _ => []

/-- The sextets of bytes. -/
def toSextets : Bytes → List ℕ
  | a :: b :: c :: rest =>
    a.toNat / 4 :: (a.toNat % 4 * 16 + b.toNat / 16) :: (b.toNat % 16 * 4 + c.toNat / 64) ::
      c.toNat % 64 :: toSextets rest
  | [a, b] => [a.toNat / 4, a.toNat % 4 * 16 + b.toNat / 16, b.toNat % 16 * 4]
  | [a] => [a.toNat / 4, a.toNat % 4 * 16]
  | [] => []

def char (sextet : ℕ) : Char := alphabet.getD sextet 'A'

/-- The `=` that fill up the last group of characters. -/
def padding (length : ℕ) : List Char :=
  List.replicate (match length % 3 with | 0 => 0 | 1 => 2 | _ => 1) '='

/-- Without up to two `=` at the end. -/
def dropPadding (cs : List Char) : List Char :=
  match cs.reverse with
  | '=' :: '=' :: rest => rest.reverse
  | '=' :: rest => rest.reverse
  | _ => cs

end Base64

/-- `atob`; `none` throws. -/
def atob (cs : List Char) : Option Bytes :=
  let cs := cs.filter fun c => c ∉ [' ', '\t', '\n', '\x0c', '\r']
  let cs := if cs.length % 4 = 0 then Base64.dropPadding cs else cs
  if cs.length % 4 = 1 then none
  else (cs.mapM fun c => Base64.alphabet.idxOf? c).map Base64.fromSextets

/-- With the padding that was left out, up to a multiple of four. -/
def padBase64 (cs : List Char) : List Char :=
  cs ++ List.replicate ((4 - cs.length % 4) % 4) '='

/-- `btoa`, of the characters of bytes. -/
def btoa (bs : Bytes) : List Char :=
  (Base64.toSextets bs).map Base64.char ++ Base64.padding bs.length

/-- The three ways in which a string may end. -/
example : atob "Zm9v".toList = some [102, 111, 111] ∧ atob "Zm8=".toList = some [102, 111] ∧
    atob "Zg".toList = some [102] := by
  decide +kernel

/-! ## The round trip -/

namespace Base64

theorem toUInt8_eq {n : ℕ} {b : UInt8} (h : n % 256 = b.toNat) : n.toUInt8 = b :=
  UInt8.toNat_inj.1 (by rw [← h]; exact UInt8.toNat_ofNat')

theorem fromSextets_toSextets : ∀ bs : Bytes, fromSextets (toSextets bs) = bs
  | a :: b :: c :: rest => by
    have ha := a.toNat_lt
    have hb := b.toNat_lt
    have hc := c.toNat_lt
    rw [toSextets, fromSextets, fromSextets_toSextets rest,
      toUInt8_eq (by omega : _ % 256 = a.toNat), toUInt8_eq (by omega : _ % 256 = b.toNat),
      toUInt8_eq (by omega : _ % 256 = c.toNat)]
  | [a, b] => by
    have ha := a.toNat_lt
    have hb := b.toNat_lt
    rw [toSextets, fromSextets, toUInt8_eq (by omega : _ % 256 = a.toNat), toUInt8_eq (by omega : _ % 256 = b.toNat)]
  | [a] => by
    have ha := a.toNat_lt
    rw [toSextets, fromSextets, toUInt8_eq (by omega : _ % 256 = a.toNat)]
  | [] => rfl

theorem toSextets_lt : ∀ (bs : Bytes), ∀ n ∈ toSextets bs, n < 64
  | a :: b :: c :: rest => by
    have ha := a.toNat_lt
    have hb := b.toNat_lt
    have hc := c.toNat_lt
    intro n hn
    simp only [toSextets, List.mem_cons] at hn
    rcases hn with rfl | rfl | rfl | rfl | hn
    · omega
    · omega
    · omega
    · omega
    · exact toSextets_lt rest n hn
  | [a, b] => by
    have ha := a.toNat_lt
    have hb := b.toNat_lt
    intro n hn
    simp only [toSextets, List.mem_cons, List.not_mem_nil, or_false] at hn
    omega
  | [a] => by
    have ha := a.toNat_lt
    intro n hn
    simp only [toSextets, List.mem_cons, List.not_mem_nil, or_false] at hn
    omega
  | [] => by simp [toSextets]

theorem length_toSextets : ∀ bs : Bytes,
    (toSextets bs).length % 4 = (match bs.length % 3 with | 0 => 0 | 1 => 2 | _ => 3)
  | a :: b :: c :: rest => by
    have h := length_toSextets rest
    have hlen : (a :: b :: c :: rest).length % 3 = rest.length % 3 := Nat.add_mod_right _ 3
    rw [hlen, ← h, toSextets]
    exact Nat.add_mod_right _ 4
  | [_, _] => rfl
  | [_] => rfl
  | [] => rfl

/-- Every character of the alphabet stands for its place, and is neither `=` nor blank. -/
theorem idxOf?_char {n : ℕ} (h : n < 64) : alphabet.idxOf? (char n) = some n ∧ char n ≠ '=' ∧
    char n ∉ [' ', '\t', '\n', '\x0c', '\r'] := by
  have hall : (List.range 64).all fun n => decide (alphabet.idxOf? (char n) = some n ∧
      char n ≠ '=' ∧ char n ∉ [' ', '\t', '\n', '\x0c', '\r']) := by
    decide +kernel
  exact of_decide_eq_true (List.all_eq_true.1 hall n (List.mem_range.2 h))

theorem mapM_char {ns : List ℕ} (h : ∀ n ∈ ns, n < 64) :
    (ns.map char).mapM (fun c => alphabet.idxOf? c) = some ns := by
  induction ns with
  | nil => rfl
  | cons n ns ih =>
    rw [List.map_cons, List.mapM_cons, (idxOf?_char (h n List.mem_cons_self)).1,
      ih fun m hm => h m (List.mem_cons_of_mem _ hm)]
    rfl

/-- The padding goes, what is before it stays. -/
theorem dropPadding_append {cs : List Char} (h : '=' ∉ cs) {k : ℕ} (hk : k ≤ 2) :
    dropPadding (cs ++ List.replicate k '=') = cs := by
  have hrev : ∀ rest, cs.reverse ≠ '=' :: rest := fun rest hrest =>
    h (List.mem_reverse.1 (hrest ▸ List.mem_cons_self))
  have hdrop : dropPadding cs = cs := by
    unfold dropPadding
    split
    · next h₁ => exact absurd h₁ (hrev _)
    · next h₁ => exact absurd h₁ (hrev _)
    · rfl
  obtain rfl | rfl | rfl : k = 0 ∨ k = 1 ∨ k = 2 := by omega
  · simpa using hdrop
  · unfold dropPadding
    rw [List.reverse_append]
    rcases hc : cs.reverse with _ | ⟨c, rest⟩
    · simp [List.reverse_eq_nil_iff.1 hc]
    · have hne : c ≠ '=' := fun heq => hrev rest (heq ▸ hc)
      have hcs : cs = (c :: rest).reverse := by rw [← hc, List.reverse_reverse]
      simp only [List.replicate_one]
      split
      · next heq =>
        exact absurd (List.cons.inj (List.cons.inj heq).2).1 hne
      · next heq =>
        rw [← (List.cons.inj heq).2, hcs]
        rfl
      · next _ heq => exact absurd rfl (heq _)
  · unfold dropPadding
    rw [List.reverse_append]
    simp

end Base64

theorem length_btoa (bs : Bytes) : (btoa bs).length % 4 = 0 := by
  have hmod : bs.length % 3 = 0 ∨ bs.length % 3 = 1 ∨ bs.length % 3 = 2 := by omega
  have h := Base64.length_toSextets bs
  rw [btoa, List.length_append, List.length_map, Base64.padding, List.length_replicate]
  rcases hmod with hr | hr | hr <;> simp only [hr] at h ⊢ <;> omega

theorem padBase64_btoa (bs : Bytes) : padBase64 (btoa bs) = btoa bs := by
  rw [padBase64, length_btoa]
  exact List.append_nil _

/-- What is encoded comes back. -/
theorem atob_btoa (bs : Bytes) : atob (btoa bs) = some bs := by
  have hlt := Base64.toSextets_lt bs
  have hmod : bs.length % 3 = 0 ∨ bs.length % 3 = 1 ∨ bs.length % 3 = 2 := by omega
  have hchar : ∀ c ∈ (Base64.toSextets bs).map Base64.char,
      c ≠ '=' ∧ c ∉ [' ', '\t', '\n', '\x0c', '\r'] := by
    intro c hc
    obtain ⟨n, hn, rfl⟩ := List.mem_map.1 hc
    exact (Base64.idxOf?_char (hlt n hn)).2
  have hblank : (btoa bs).filter (fun c => c ∉ [' ', '\t', '\n', '\x0c', '\r']) = btoa bs := by
    refine List.filter_eq_self.2 fun c hc => ?_
    rw [btoa, List.mem_append] at hc
    rcases hc with hc | hc
    · simpa using (hchar c hc).2
    · rw [(List.mem_replicate.1 hc).2]
      decide
  have hdrop : Base64.dropPadding (btoa bs) = (Base64.toSextets bs).map Base64.char := by
    refine Base64.dropPadding_append (fun h => (hchar _ h).1 rfl) ?_
    rcases hmod with hr | hr | hr <;> simp only [hr] <;> omega
  have hgroup : ((Base64.toSextets bs).map Base64.char).length % 4 ≠ 1 := by
    have h := Base64.length_toSextets bs
    rw [List.length_map]
    rcases hmod with hr | hr | hr <;> simp only [hr] at h <;> omega
  unfold atob
  simp only [hblank, length_btoa, hdrop, if_true, if_neg hgroup, Base64.mapM_char hlt, Option.map_some,
    Base64.fromSextets_toSextets]

/-! ## In URLs -/

namespace Base64

/-- With `-` for `+` and `_` for `/`, and without the padding. -/
def toUrl (cs : List Char) : List Char :=
  let cs := cs.map fun c => if c = '+' then '-' else if c = '/' then '_' else c
  (cs.reverse.dropWhile (· = '=')).reverse

/-- With `+` for `-` and `/` for `_`. -/
def fromUrl (cs : List Char) : List Char :=
  cs.map fun c => if c = '-' then '+' else if c = '_' then '/' else c

theorem fromUrl_map {ns : List ℕ} (h : ∀ n ∈ ns, n < 64) :
    fromUrl ((ns.map char).map fun c => if c = '+' then '-' else if c = '/' then '_' else c) =
      ns.map char := by
  have hall : (List.range 64).all fun n => decide ((fun c => if c = '-' then '+' else if c = '_'
      then '/' else c) (if char n = '+' then '-' else if char n = '/' then '_' else char n) =
        char n) := by
    decide +kernel
  rw [fromUrl, List.map_map, List.map_map]
  refine List.map_congr_left fun n hn => ?_
  exact of_decide_eq_true (List.all_eq_true.1 hall n (List.mem_range.2 (h n hn)))

theorem char_url_ne {n : ℕ} (h : n < 64) :
    (if char n = '+' then '-' else if char n = '/' then '_' else char n) ≠ '=' := by
  split_ifs
  · decide
  · decide
  · exact (idxOf?_char h).2.1

theorem dropWhile_of_neg {p : Char → Bool} {cs : List Char} (h : ∀ c ∈ cs, p c = false) :
    cs.dropWhile p = cs := by
  cases cs with
  | nil => rfl
  | cons c cs => exact List.dropWhile_cons_of_neg (by rw [h c List.mem_cons_self]; decide)

/-- What is left of an encoding in a URL. -/
theorem toUrl_btoa (bs : Bytes) : toUrl (btoa bs) = ((toSextets bs).map char).map fun c =>
    if c = '+' then '-' else if c = '/' then '_' else c := by
  have hlt := toSextets_lt bs
  have hpad : ∀ c ∈ ((padding bs.length).map fun c =>
      if c = '+' then '-' else if c = '/' then '_' else c).reverse, decide (c = '=') = true := by
    intro c hc
    obtain ⟨c', hc', rfl⟩ := List.mem_map.1 (List.mem_reverse.1 hc)
    rw [padding] at hc'
    rw [(List.mem_replicate.1 hc').2]
    decide
  have hchars : ∀ c ∈ (((toSextets bs).map char).map fun c =>
      if c = '+' then '-' else if c = '/' then '_' else c).reverse, decide (c = '=') = false := by
    intro c hc
    obtain ⟨c', hc', rfl⟩ := List.mem_map.1 (List.mem_reverse.1 hc)
    obtain ⟨n, hn, rfl⟩ := List.mem_map.1 hc'
    exact decide_eq_false (char_url_ne (hlt n hn))
  rw [toUrl, btoa, List.map_append, List.reverse_append, List.dropWhile_append_of_pos hpad, dropWhile_of_neg hchars,
    List.reverse_reverse]

/-- What is encoded in a URL comes back. -/
theorem atob_fromUrl_toUrl (bs : Bytes) :
    atob (padBase64 (fromUrl (toUrl (btoa bs)))) = some bs := by
  have hmod : bs.length % 3 = 0 ∨ bs.length % 3 = 1 ∨ bs.length % 3 = 2 := by omega
  have hlen := length_toSextets bs
  have hbtoa : padBase64 ((toSextets bs).map char) = btoa bs := by
    rw [padBase64, btoa, padding, List.length_map]
    rcases hmod with hr | hr | hr <;> simp only [hr] at hlen ⊢ <;> rw [hlen]
  rw [toUrl_btoa, fromUrl_map (toSextets_lt bs), hbtoa, atob_btoa]

end Base64

end ComputeContract
