import Mathlib.Algebra.Group.Int.Defs
import Mathlib.Algebra.Group.Nat.Defs
import Mathlib.Data.List.Basic

/-!
# SHA-256

The digest of the platform's `crypto.subtle.digest("SHA-256", …)` (FIPS 180-4).
Words are natural numbers below `2 ^ 32`, so that the kernel computes with them.
-/

namespace ComputeContract

/-- A `Uint8Array`. -/
abbrev Bytes := List UInt8

/-- `n` as `k` big-endian bytes. -/
def bigEndian (n : ℕ) : ℕ → Bytes
  | 0 => []
  | k + 1 => bigEndian (n / 256) k ++ [n.toUInt8]

@[simp] theorem length_bigEndian (n k : ℕ) : (bigEndian n k).length = k := by
  induction k generalizing n with
  | zero => rfl
  | succ k ih => simp [bigEndian, ih]

namespace Sha256

/-- Rotation of a word to the right. -/
def rotr (x n : ℕ) : ℕ := (x >>> n) ||| ((x <<< (32 - n)) &&& 0xffffffff)

/-- Addition of words. -/
def add (x y : ℕ) : ℕ := (x + y) % 0x100000000

def bigSigma0 (x : ℕ) : ℕ := rotr x 2 ^^^ rotr x 13 ^^^ rotr x 22
def bigSigma1 (x : ℕ) : ℕ := rotr x 6 ^^^ rotr x 11 ^^^ rotr x 25
def smallSigma0 (x : ℕ) : ℕ := rotr x 7 ^^^ rotr x 18 ^^^ (x >>> 3)
def smallSigma1 (x : ℕ) : ℕ := rotr x 17 ^^^ rotr x 19 ^^^ (x >>> 10)
def ch (x y z : ℕ) : ℕ := (x &&& y) ^^^ ((x ^^^ 0xffffffff) &&& z)
def maj (x y z : ℕ) : ℕ := (x &&& y) ^^^ (x &&& z) ^^^ (y &&& z)

/-- The round constants. -/
def constants : List ℕ := [
  0x428a2f98, 0x71374491, 0xb5c0fbcf, 0xe9b5dba5, 0x3956c25b, 0x59f111f1, 0x923f82a4, 0xab1c5ed5,
  0xd807aa98, 0x12835b01, 0x243185be, 0x550c7dc3, 0x72be5d74, 0x80deb1fe, 0x9bdc06a7, 0xc19bf174,
  0xe49b69c1, 0xefbe4786, 0x0fc19dc6, 0x240ca1cc, 0x2de92c6f, 0x4a7484aa, 0x5cb0a9dc, 0x76f988da,
  0x983e5152, 0xa831c66d, 0xb00327c8, 0xbf597fc7, 0xc6e00bf3, 0xd5a79147, 0x06ca6351, 0x14292967,
  0x27b70a85, 0x2e1b2138, 0x4d2c6dfc, 0x53380d13, 0x650a7354, 0x766a0abb, 0x81c2c92e, 0x92722c85,
  0xa2bfe8a1, 0xa81a664b, 0xc24b8b70, 0xc76c51a3, 0xd192e819, 0xd6990624, 0xf40e3585, 0x106aa070,
  0x19a4c116, 0x1e376c08, 0x2748774c, 0x34b0bcb5, 0x391c0cb3, 0x4ed8aa4a, 0x5b9cca4f, 0x682e6ff3,
  0x748f82ee, 0x78a5636f, 0x84c87814, 0x8cc70208, 0x90befffa, 0xa4506ceb, 0xbef9a3f7, 0xc67178f2]

/-- The working variables. -/
structure State where
  a : ℕ
  b : ℕ
  c : ℕ
  d : ℕ
  e : ℕ
  f : ℕ
  g : ℕ
  h : ℕ

def initial : State :=
  ⟨0x6a09e667, 0xbb67ae85, 0x3c6ef372, 0xa54ff53a, 0x510e527f, 0x9b05688c, 0x1f83d9ab, 0x5be0cd19⟩

/-- One round, with the round constant `k` and the schedule word `w`. -/
def round (s : State) (k w : ℕ) : State :=
  let t₁ := add (add (add s.h (bigSigma1 s.e)) (add (ch s.e s.f s.g) k)) w
  let t₂ := add (bigSigma0 s.a) (maj s.a s.b s.c)
  ⟨add t₁ t₂, s.a, s.b, s.c, add s.d t₁, s.e, s.f, s.g⟩

/-- The rounds, over the constants; the list holds the next sixteen words of the
    message schedule. -/
def rounds : List ℕ → List ℕ → State → State
  | k :: ks, [w0, w1, w2, w3, w4, w5, w6, w7, w8, w9, w10, w11, w12, w13, w14, w15], s =>
    let w16 := add (add (smallSigma1 w14) w9) (add (smallSigma0 w1) w0)
    rounds ks [w1, w2, w3, w4, w5, w6, w7, w8, w9, w10, w11, w12, w13, w14, w15, w16]
      (round s k w0)
  | _, _, s => s

/-- Big-endian words of a block. -/
def words : Bytes → List ℕ
  | a :: b :: c :: d :: bs =>
    (a.toNat * 0x1000000 + b.toNat * 0x10000 + c.toNat * 0x100 + d.toNat) :: words bs
  | _ => []

def compress (s : State) (block : Bytes) : State :=
  let r := rounds constants (words block) s
  ⟨add s.a r.a, add s.b r.b, add s.c r.c, add s.d r.d,
    add s.e r.e, add s.f r.f, add s.g r.g, add s.h r.h⟩

/-- Absorb the first `n` blocks of 64 bytes. -/
def absorb : ℕ → Bytes → State → State
  | 0, _, s => s
  | n + 1, bs, s => absorb n (bs.drop 64) (compress s (bs.take 64))

/-- The padding: a one bit, zeros, and the length in bits. -/
def pad (bs : Bytes) : Bytes :=
  bs ++ [0x80] ++ List.replicate ((119 - bs.length % 64) % 64) 0 ++ bigEndian (bs.length * 8) 8

end Sha256

/-- A digest: 32 bytes. -/
abbrev Digest := {bs : Bytes // bs.length = 32}

open Sha256 in
/-- The SHA-256 digest. -/
@[irreducible] def sha256 (bs : Bytes) : Digest :=
  let p := pad bs
  let s := absorb (p.length / 64) p initial
  ⟨bigEndian s.a 4 ++ bigEndian s.b 4 ++ bigEndian s.c 4 ++ bigEndian s.d 4 ++
    bigEndian s.e 4 ++ bigEndian s.f 4 ++ bigEndian s.g 4 ++ bigEndian s.h 4, by simp⟩

/-- The test vector of the standard. -/
example : (sha256 [0x61, 0x62, 0x63]).1 =
    [0xba, 0x78, 0x16, 0xbf, 0x8f, 0x01, 0xcf, 0xea, 0x41, 0x41, 0x40, 0xde, 0x5d, 0xae, 0x22, 0x23,
      0xb0, 0x03, 0x61, 0xa3, 0x96, 0x17, 0x7a, 0x9c, 0xb4, 0x10, 0xff, 0x61, 0xf2, 0x00, 0x15,
      0xad] := by
  decide +kernel

end ComputeContract
