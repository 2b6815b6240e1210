import ComputeContract.Lib.Decimal
import Mathlib.Data.List.Basic

/-!
# Hosts of URLs

The host of a URL that has been parsed: a domain, an IPv4 address or an IPv6 address, however it
was written. Its text is the one of the URL standard: domains in lower case, the four bytes
of an IPv4 address in decimal, the pieces of an IPv6 address in hexadecimal, the first of its
longest runs of zeros compressed.

* `Ipv4.Local`, `Ipv6.Local`: the addresses that are not public;
* `isPrefixOf_iff`, `isPrefixOf_two_iff`: what the texts of IPv4 addresses begin with;
* `Ipv6.prefix_text`, `Ipv4.prefix_mapped`: what those of IPv6 addresses begin with.
-/

namespace ComputeContract.UrlHost

/-! ## Hosts -/

/-- A character of a domain: ASCII, in lower case, and allowed in hosts. -/
def isDomainChar (c : Char) : Bool :=
  0x20 < c.toNat && c.toNat < 0x7f && !c.isUpper &&
    c ∉ ['#', '/', ':', '<', '>', '?', '@', '[', '\\', ']', '^', '|', '%']

def isHexDigit (c : Char) : Bool := c.isDigit || ('a' ≤ c && c ≤ 'f')

/-- A label that the parser takes for a number. -/
def isNumber (label : List Char) : Bool :=
  (label ≠ [] && label.all Char.isDigit) ||
    ("0x".toList.isPrefixOf label && (label.drop 2).all isHexDigit)

/-- The last label, but for an empty one behind a dot, is a number: no domain ends so. -/
def endsInNumber (cs : List Char) : Bool :=
  match (cs.splitOn '.').reverse with
  | [] :: label :: _ => isNumber label
  | label :: _ => isNumber label
  | [] => false

structure Domain where
  chars : List Char
  ne_nil : chars ≠ []
  valid : chars.all isDomainChar
  notNumber : !endsInNumber chars

instance neZero_byte : @NeZero ℕ Zero.ofOfNat0 256 := ⟨Nat.succ_ne_zero 255⟩

structure Ipv4 where
  a : Fin 256
  b : Fin 256
  c : Fin 256
  d : Fin 256
  deriving DecidableEq

structure Ipv6 where
  pieces : List ℕ
  length_eq : pieces.length = 8
  lt : ∀ p ∈ pieces, p < 0x10000
  deriving DecidableEq

inductive Host
  | domain (d : Domain)
  | ipv4 (a : Ipv4)
  | ipv6 (a : Ipv6)
  /-- Of a URL with another scheme. -/
  | other (text : List Char)

/-! ## Their texts -/

def Ipv4.text (a : Ipv4) : List Char :=
  Nat.toDigits 10 a.a ++ '.' :: (Nat.toDigits 10 a.b ++ '.' ::
    (Nat.toDigits 10 a.c ++ '.' :: Nat.toDigits 10 a.d))

/-- A run of zeros: where it begins and how long it is. -/
structure Zeros where
  index : Option ℕ
  size : ℕ

def Zeros.max (longest found : Zeros) : Zeros := if longest.size < found.size then found else longest

/-- The first of the longest runs of zeros in the pieces from `i` on, after `longest` and the run
    `found` that has not ended. -/
def compressedFrom (longest found : Zeros) (i : ℕ) : List ℕ → Option ℕ
  | [] => (longest.max found).index
  | p :: ps =>
    if p = 0 then compressedFrom longest ⟨found.index.or (some i), found.size + 1⟩ (i + 1) ps
    else compressedFrom (longest.max found) ⟨none, 0⟩ (i + 1) ps

/-- Where the run of zeros begins that is compressed; one zero is not. -/
def compressed (pieces : List ℕ) : Option ℕ := compressedFrom ⟨none, 1⟩ ⟨none, 0⟩ 0 pieces

/-- The pieces from `i` on; the zeros of a compressed run are skipped. -/
def piecesText (compress : Option ℕ) (i : ℕ) (ignore0 : Bool) : List ℕ → List Char
  | [] => []
  | p :: ps =>
    if ignore0 ∧ p = 0 then piecesText compress (i + 1) true ps
    else if compress = some i then
      (if i = 0 then [':', ':'] else [':']) ++ piecesText compress (i + 1) true ps
    else Nat.toDigits 16 p ++ (if ps = [] then [] else [':']) ++
      piecesText compress (i + 1) false ps

def Ipv6.text (a : Ipv6) : List Char := piecesText (compressed a.pieces) 0 false a.pieces

def Host.text : Host → List Char
  | .domain d => d.chars
  | .ipv4 a => a.text
  | .ipv6 a => '[' :: (a.text ++ [']'])
  | .other text => text

/-! ## Addresses that are not public -/

/-- Loopback, unspecified, private and link-local addresses. -/
def Ipv4.Local (x : Ipv4) : Prop :=
  x.a = 127 ∨ x = ⟨0, 0, 0, 0⟩ ∨ x.a = 10 ∨ (x.a = 172 ∧ 16 ≤ x.b.val ∧ x.b.val ≤ 31) ∨
    (x.a = 192 ∧ x.b = 168) ∨ (x.a = 169 ∧ x.b = 254)

theorem lt_of_bytes (x y : Fin 256) : x.val * 256 + y < 0x10000 := by
  have hx := x.isLt
  have hy := y.isLt
  omega

/-- The IPv4-mapped IPv6 address. -/
def Ipv4.mapped (x : Ipv4) : Ipv6 where
  pieces := [0, 0, 0, 0, 0, 0xffff, x.a * 256 + x.b, x.c * 256 + x.d]
  length_eq := rfl
  lt := by
    have hab := lt_of_bytes x.a x.b
    have hcd := lt_of_bytes x.c x.d
    simp only [List.mem_cons, List.not_mem_nil, or_false]
    omega

def unspecified : Ipv6 := ⟨[0, 0, 0, 0, 0, 0, 0, 0], rfl, by decide⟩

def loopback : Ipv6 := ⟨[0, 0, 0, 0, 0, 0, 0, 1], rfl, by decide⟩

/-- `fe80::/10` -/
def Ipv6.LinkLocal (x : Ipv6) : Prop := ∃ p ∈ x.pieces.head?, 0xfe80 ≤ p ∧ p ≤ 0xfebf

/-- `fc00::/7` -/
def Ipv6.UniqueLocal (x : Ipv6) : Prop := ∃ p ∈ x.pieces.head?, 0xfc00 ≤ p ∧ p ≤ 0xfdff

def Ipv6.Local (x : Ipv6) : Prop :=
  x = loopback ∨ x = unspecified ∨ x.LinkLocal ∨ x.UniqueLocal ∨ ∃ y : Ipv4, y.Local ∧ x = y.mapped

/-! ## What the texts begin with -/

theorem ends_dot (cs : List Char) : Decimal.Ends ('.' :: cs) := by
  rintro c ⟨⟩
  rfl

/-- A number and a dot at the beginning are those of the number. -/
theorem isPrefixOf_iff {m n : ℕ} {u : List Char} :
    Nat.toDigits 10 m ++ ['.'] <+: Nat.toDigits 10 n ++ '.' :: u ↔ m = n := by
  constructor
  · rintro ⟨v, hv⟩
    rw [List.append_assoc, List.singleton_append] at hv
    exact (Decimal.toDigits_append_inj (ends_dot _) (ends_dot _) hv).1
  · rintro rfl
    exact ⟨u, by rw [List.append_assoc, List.singleton_append]⟩

/-- So are two numbers, each with a dot. -/
theorem isPrefixOf_two_iff {m n m' n' : ℕ} {u : List Char} :
    Nat.toDigits 10 m ++ '.' :: (Nat.toDigits 10 n ++ ['.']) <+:
      Nat.toDigits 10 m' ++ '.' :: (Nat.toDigits 10 n' ++ '.' :: u) ↔ m = m' ∧ n = n' := by
  constructor
  · rintro ⟨v, hv⟩
    rw [List.append_assoc, List.cons_append, List.append_assoc, List.singleton_append] at hv
    obtain ⟨hm, hrest⟩ := Decimal.toDigits_append_inj (ends_dot _) (ends_dot _) hv
    exact ⟨hm, (Decimal.toDigits_append_inj (ends_dot _) (ends_dot _) (List.cons.inj hrest).2).1⟩
  · rintro ⟨rfl, rfl⟩
    exact ⟨u, by simp⟩

theorem toDigits_two {p q : ℕ} (hq : 0 < q) (hp : p / 256 = q) :
    ∃ u, Nat.toDigits 16 p = Nat.toDigits 16 q ++ u := by
  subst hp
  refine ⟨[(p / 16 % 16).digitChar, (p % 16).digitChar], ?_⟩
  have hdiv : p / 16 / 16 = p / 256 := Nat.div_div_eq_div_mul p 16 16
  rw [Nat.toDigits_of_base_le (by decide) (by omega : 16 ≤ p),
    Nat.toDigits_of_base_le (by decide) (by omega : 16 ≤ p / 16), hdiv, List.append_assoc]
  rfl

theorem Zeros.index_max {longest found : Zeros} {i : ℕ} (hlongest : longest.index ≠ some i)
    (hfound : found.index ≠ some i) : (longest.max found).index ≠ some i := by
  rw [Zeros.max]
  split_ifs
  · exact hfound
  · exact hlongest

/-- A run that begins further on does not begin at the first piece. -/
theorem compressedFrom_ne_zero {longest found : Zeros} {i : ℕ} (hi : i ≠ 0)
    (hlongest : longest.index ≠ some 0) (hfound : found.index ≠ some 0) (ps : List ℕ) :
    compressedFrom longest found i ps ≠ some 0 := by
  induction ps generalizing longest found i with
  | nil => exact Zeros.index_max hlongest hfound
  | cons p ps ih =>
    rw [compressedFrom]
    split_ifs
    · refine ih (Nat.succ_ne_zero i) hlongest ?_
      cases hindex : found.index with
      | none => exact fun h => hi (Option.some.inj h)
      | some j => exact fun h => hfound (hindex.trans h)
    · exact ih (Nat.succ_ne_zero i) (Zeros.index_max hlongest hfound) (by simp)

/-- The text of an address begins with its first piece, unless that is zero. -/
theorem Ipv6.prefix_text {x : Ipv6} {p : ℕ} (hp : x.pieces.head? = some p) (hne : p ≠ 0) :
    Nat.toDigits 16 p <+: x.text := by
  obtain ⟨ps, hps⟩ := List.head?_eq_some_iff.1 hp
  have hcompress : compressed (p :: ps) ≠ some 0 := by
    rw [compressed, compressedFrom, if_neg hne]
    exact compressedFrom_ne_zero Nat.one_ne_zero (Zeros.index_max (by simp) (by simp)) (by simp)
      ps
  rw [Ipv6.text, hps, piecesText, if_neg (fun h => hne h.2), if_neg hcompress, List.append_assoc]
  exact List.prefix_append _ _

/-- A run that is as long as what is left is the first of the longest. -/
theorem compressedFrom_of_le {longest found : Zeros} {ps : List ℕ}
    (h : found.size + ps.length ≤ longest.size) (i : ℕ) :
    compressedFrom longest found i ps = longest.index := by
  have hmax : longest.max found = longest := if_neg (by omega)
  induction ps generalizing found i with
  | nil => exact congrArg Zeros.index hmax
  | cons p ps ih =>
    rw [List.length_cons] at h
    rw [compressedFrom, hmax]
    have hlonger : found.size + 1 + ps.length ≤ longest.size := by omega
    split_ifs
    · exact ih hlonger _ (if_neg (by dsimp only; omega))
    · exact ih (by dsimp only; omega) _ (if_neg (Nat.not_lt.2 (Nat.zero_le _)))

theorem Ipv4.prefix_mapped (x : Ipv4) : [':', ':', 'f'] <+: x.mapped.text := by
  -- The five zeros are more than any after them.
  have hcompress : compressed x.mapped.pieces = some 0 :=
    @compressedFrom_of_le ⟨some 0, 5⟩ ⟨none, 0⟩ [_, _] (by simp) 6
  rw [Ipv6.text, hcompress, mapped]
  exact ⟨_, rfl⟩

end ComputeContract.UrlHost
