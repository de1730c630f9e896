import Minibase.Lib.Digest

/-!
# The two hash functions of the standard

SHA-1 and SHA-256 as the standard writes them down: a schedule of words by recursion on their
number (`Fips.W1`, `Fips.W256`), a turn of the working variables for each of them, and the sum
with the hash value so far, over the blocks of the padded message (`Digest.run`). The constants
of SHA-256 are the fractional parts of roots of primes (`Fips.k256_cube_root`,
`Fips.iv256_square_root`).
-/

namespace Minibase.Fips

open Digest

/-! ### Words -/

def rotl (n x : UInt32) : UInt32 := (x <<< n) ||| (x >>> (32 - n))

def rotr (n x : UInt32) : UInt32 := (x >>> n) ||| (x <<< (32 - n))

def ch (x y z : UInt32) : UInt32 := (x &&& y) ^^^ (~~~x &&& z)

def parity (x y z : UInt32) : UInt32 := x ^^^ y ^^^ z

def maj (x y z : UInt32) : UInt32 := (x &&& y) ^^^ (x &&& z) ^^^ (y &&& z)

/-- The word number `t` of a block. -/
def word (M : List UInt8) (t : ℕ) : UInt32 := UInt32.ofNat (beVal (piece 4 M t))

/-- The bytes of a word. -/
def bytes (w : UInt32) : List UInt8 := beBytes 4 w.toNat

/-! ### SHA-1 -/

/-- The hash value, and the working variables. -/
structure Vars1 where
  a : UInt32
  b : UInt32
  c : UInt32
  d : UInt32
  e : UInt32
deriving DecidableEq

/-- The function of turn `t`. -/
def f1 (t : ℕ) : UInt32 → UInt32 → UInt32 → UInt32 :=
  if t < 20 then ch else if t < 40 then parity else if t < 60 then maj else parity

/-- The constant of turn `t`. -/
def k1 (t : ℕ) : UInt32 :=
  if t < 20 then 0x5a827999 else if t < 40 then 0x6ed9eba1 else if t < 60 then 0x8f1bbcdc
  else 0xca62c1d6

/-- The message schedule. -/
def W1 (M : List UInt8) (t : ℕ) : UInt32 :=
  if t < 16 then word M t
  else rotl 1 (W1 M (t - 3) ^^^ W1 M (t - 8) ^^^ W1 M (t - 14) ^^^ W1 M (t - 16))

lemma W1_of_lt (M : List UInt8) {t : ℕ} (h : t < 16) : W1 M t = word M t := by
  rw [W1, if_pos h]

lemma W1_of_le (M : List UInt8) {t : ℕ} (h : 16 ≤ t) :
    W1 M t = rotl 1 (W1 M (t - 3) ^^^ W1 M (t - 8) ^^^ W1 M (t - 14) ^^^ W1 M (t - 16)) := by
  rw [W1, if_neg (Nat.not_lt.mpr h)]

def turn1 (M : List UInt8) (v : Vars1) (t : ℕ) : Vars1 :=
  let T := rotl 5 v.a + f1 t v.b v.c v.d + v.e + k1 t + W1 M t
  ⟨T, v.a, rotl 30 v.b, v.c, v.d⟩

def compress1 (H : Vars1) (M : List UInt8) : Vars1 :=
  let v := (List.range 80).foldl (turn1 M) H
  ⟨v.a + H.a, v.b + H.b, v.c + H.c, v.d + H.d, v.e + H.e⟩

def iv1 : Vars1 := ⟨0x67452301, 0xefcdab89, 0x98badcfe, 0x10325476, 0xc3d2e1f0⟩

def out1 (H : Vars1) : List UInt8 := bytes H.a ++ bytes H.b ++ bytes H.c ++ bytes H.d ++ bytes H.e

/-- **SHA-1** of a message. -/
def sha1 (m : List UInt8) : List UInt8 := out1 (run compress1 iv1 (pad m))

/-! ### SHA-256 -/

/-- The hash value, and the working variables. -/
structure Vars256 where
  a : UInt32
  b : UInt32
  c : UInt32
  d : UInt32
  e : UInt32
  f : UInt32
  g : UInt32
  h : UInt32
deriving DecidableEq

variable (x : UInt32)

def Sigma0 : UInt32 := rotr 2 x ^^^ rotr 13 x ^^^ rotr 22 x

def Sigma1 : UInt32 := rotr 6 x ^^^ rotr 11 x ^^^ rotr 25 x

def sigma0 : UInt32 := rotr 7 x ^^^ rotr 18 x ^^^ (x >>> 3)

def sigma1 : UInt32 := rotr 17 x ^^^ rotr 19 x ^^^ (x >>> 10)

/-- The constants of the turns. -/
def k256 : List UInt32 := [
  0x428a2f98, 0x71374491, 0xb5c0fbcf, 0xe9b5dba5, 0x3956c25b, 0x59f111f1, 0x923f82a4, 0xab1c5ed5,
  0xd807aa98, 0x12835b01, 0x243185be, 0x550c7dc3, 0x72be5d74, 0x80deb1fe, 0x9bdc06a7, 0xc19bf174,
  0xe49b69c1, 0xefbe4786, 0x0fc19dc6, 0x240ca1cc, 0x2de92c6f, 0x4a7484aa, 0x5cb0a9dc, 0x76f988da,
  0x983e5152, 0xa831c66d, 0xb00327c8, 0xbf597fc7, 0xc6e00bf3, 0xd5a79147, 0x06ca6351, 0x14292967,
  0x27b70a85, 0x2e1b2138, 0x4d2c6dfc, 0x53380d13, 0x650a7354, 0x766a0abb, 0x81c2c92e, 0x92722c85,
  0xa2bfe8a1, 0xa81a664b, 0xc24b8b70, 0xc76c51a3, 0xd192e819, 0xd6990624, 0xf40e3585, 0x106aa070,
  0x19a4c116, 0x1e376c08, 0x2748774c, 0x34b0bcb5, 0x391c0cb3, 0x4ed8aa4a, 0x5b9cca4f, 0x682e6ff3,
  0x748f82ee, 0x78a5636f, 0x84c87814, 0x8cc70208, 0x90befffa, 0xa4506ceb, 0xbef9a3f7, 0xc67178f2]

/-- The initial hash value. -/
def iv256 : Vars256 :=
  ⟨0x6a09e667, 0xbb67ae85, 0x3c6ef372, 0xa54ff53a, 0x510e527f, 0x9b05688c, 0x1f83d9ab, 0x5be0cd19⟩

/-- The message schedule. -/
def W256 (M : List UInt8) (t : ℕ) : UInt32 :=
  if t < 16 then word M t
  else sigma1 (W256 M (t - 2)) + W256 M (t - 7) + sigma0 (W256 M (t - 15)) + W256 M (t - 16)

lemma W256_of_lt (M : List UInt8) {t : ℕ} (h : t < 16) : W256 M t = word M t := by
  rw [W256, if_pos h]

lemma W256_of_le (M : List UInt8) {t : ℕ} (h : 16 ≤ t) :
    W256 M t =
      sigma1 (W256 M (t - 2)) + W256 M (t - 7) + sigma0 (W256 M (t - 15)) + W256 M (t - 16) := by
  rw [W256, if_neg (Nat.not_lt.mpr h)]

def turn256 (M : List UInt8) (v : Vars256) (t : ℕ) : Vars256 :=
  let T1 := v.h + Sigma1 v.e + ch v.e v.f v.g + k256.getD t 0 + W256 M t
  let T2 := Sigma0 v.a + maj v.a v.b v.c
  ⟨T1 + T2, v.a, v.b, v.c, v.d + T1, v.e, v.f, v.g⟩

def compress256 (H : Vars256) (M : List UInt8) : Vars256 :=
  let v := (List.range 64).foldl (turn256 M) H
  ⟨v.a + H.a, v.b + H.b, v.c + H.c, v.d + H.d, v.e + H.e, v.f + H.f, v.g + H.g, v.h + H.h⟩

def out256 (H : Vars256) : List UInt8 :=
  bytes H.a ++ bytes H.b ++ bytes H.c ++ bytes H.d ++
    bytes H.e ++ bytes H.f ++ bytes H.g ++ bytes H.h

/-- **SHA-256** of a message. -/
def sha256 (m : List UInt8) : List UInt8 := out256 (run compress256 iv256 (pad m))

/-! ### The constants -/

/-- The first 64 primes. -/
def primes : List ℕ := [
  2, 3, 5, 7, 11, 13, 17, 19, 23, 29, 31, 37, 41, 43, 47, 53, 59, 61, 67, 71, 73, 79, 83, 89, 97,
  101, 103, 107, 109, 113, 127, 131, 137, 139, 149, 151, 157, 163, 167, 173, 179, 181, 191, 193,
  197, 199, 211, 223, 227, 229, 233, 239, 241, 251, 257, 263, 269, 271, 277, 281, 283, 293, 307,
  311]

/-- The first 32 bits behind the point of the `n`-th root of `p` are `k`. -/
def RootBits (n p : ℕ) (k : UInt32) : Prop :=
  ∃ q < 20, (q * 2 ^ 32 + k.toNat) ^ n ≤ p * 2 ^ (32 * n) ∧
    p * 2 ^ (32 * n) < (q * 2 ^ 32 + k.toNat + 1) ^ n

instance (n p : ℕ) (k : UInt32) : Decidable (RootBits n p k) :=
  inferInstanceAs (Decidable (∃ q < 20, _ ∧ _))

/-- The constants of the turns are those of the cube roots of the primes. -/
theorem k256_cube_root : List.Forall₂ (RootBits 3) primes k256 := by decide +kernel

/-- The initial hash value is that of the square roots of the first eight. -/
theorem iv256_square_root :
    List.Forall₂ (RootBits 2) (primes.take 8)
      [iv256.a, iv256.b, iv256.c, iv256.d, iv256.e, iv256.f, iv256.g, iv256.h] := by
  decide +kernel

end Minibase.Fips
