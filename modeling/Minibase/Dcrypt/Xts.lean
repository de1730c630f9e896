import Minibase.Lib.BitPoly
import Minibase.Crypto.KeyWrap
import Minibase.Lib.Records

/-!
# Sectors

`aesxts` of `deitool.c`: a sector is thirty-two blocks, and each is encrypted between two exclusive
ors with a tweak that depends on the number of the sector and the place of the block in it.
Decryption undoes encryption (`Dcrypt.aesxts_inverse`), and among the polynomials modulo
`x ^ 128 + x ^ 7 + x ^ 2 + x + 1` (`Dcrypt.Gf128`) each tweak is the one before times `α`
(`Dcrypt.elem_tweak`).
-/

namespace Minibase.Dcrypt

open List Function BitPoly AdjoinRoot

/-! ### What the source computes -/

/-- The bytes of a number, lowest first. -/
def leBytes : ℕ → UInt64 → List UInt8
  | 0, _ => []
  | n + 1, S => (S &&& 0xFF).toUInt8 :: leBytes n (S >>> 8)

def prepTweak (A : List UInt32) (S : UInt64) : List UInt8 := Aes.encrypt A (leBytes 16 S)

def nextTweak (T : List UInt8) : List UInt8 :=
  let out := shift 0 T
  if out.2 ≠ 0 then out.1.modify 0 (· ^^^ 0x87) else out.1

def blkXor (a b : List UInt8) : List UInt8 := zipWith (· ^^^ ·) a b

/-- The loop of `aesxts`, with `n` blocks to go. -/
def aesxtsLoop (op : List UInt8 → List UInt8) : ℕ → List UInt8 → List UInt8 → List UInt8
  | 0, _, _ => []
  | n + 1, rp, T =>
    blkXor (op (blkXor (rp.take 16) T)) T ++ aesxtsLoop op n (rp.drop 16) (nextTweak T)

/-- `K1` and `K2`, expanded. -/
structure Keys where
  K1 : List UInt32
  K2 : List UInt32

/-- The two `aes128_init` in `set_files`. -/
def Keys.init (key : Bytes 32) : Keys := ⟨Aes.init key.data, Aes.init (key.data.drop 16)⟩

variable (ctx : Keys) (rp : List UInt8) (S : UInt64)

def aesxts (op : List UInt32 → List UInt8 → List UInt8) : List UInt8 :=
  aesxtsLoop (op ctx.K1) 32 rp (prepTweak ctx.K2 S)

def aesxtsEncrypt : List UInt8 :=
  aesxts ctx rp S Aes.encrypt

def aesxtsDecrypt : List UInt8 :=
  aesxts ctx rp S Aes.decrypt

/-! ### Decryption undoes encryption -/

lemma length_nextTweak (T : List UInt8) : (nextTweak T).length = T.length := by
  simp only [nextTweak]
  split
  · rw [length_modify, length_shift]
  · exact length_shift 0 T

lemma length_nextTweaks {T : List UInt8} (hT : T.length = 16) (j : ℕ) :
    (nextTweak^[j] T).length = 16 := by
  induction j with
  | zero => exact hT
  | succ j ih => rw [iterate_succ_apply', length_nextTweak, ih]

@[simp] lemma length_prepTweak (A : List UInt32) (S : UInt64) : (prepTweak A S).length = 16 :=
  Aes.length_encrypt _ _

lemma length_blkXor {a b : List UInt8} (h : a.length = b.length) :
    (blkXor a b).length = b.length := by
  rw [blkXor, length_zipWith, h, Nat.min_self]

/-- The same block twice goes away. -/
theorem blkXor_cancel {a b : List UInt8} (h : a.length = b.length) : blkXor (blkXor a b) b = a :=
  zipWith_xor_cancel h

section

variable {op op' : List UInt8 → List UInt8}

lemma length_aesxtsLoop (hop : ∀ x, (op x).length = 16) (n : ℕ) {rp T : List UInt8}
    (hT : T.length = 16) : (aesxtsLoop op n rp T).length = 16 * n := by
  induction n generalizing rp T with
  | zero => rfl
  | succ n ih =>
    have hblk : (blkXor (op (blkXor (rp.take 16) T)) T).length = 16 :=
      (length_blkXor ((hop _).trans hT.symm)).trans hT
    rw [aesxtsLoop, length_append, hblk, ih ((length_nextTweak T).trans hT)]
    omega

/-- **A loop that decrypts undoes one that encrypts**, if their operations do so for a block. -/
theorem aesxtsLoop_inverse (hop : ∀ x, (op x).length = 16)
    (hinv : ∀ x, x.length = 16 → op' (op x) = x) (n : ℕ) {rp T : List UInt8}
    (hrp : rp.length = 16 * n) (hT : T.length = 16) :
    aesxtsLoop op' n (aesxtsLoop op n rp T) T = rp := by
  induction n generalizing rp T with
  | zero => exact (length_eq_zero_iff.mp hrp).symm
  | succ n ih =>
    have htake : (rp.take 16).length = T.length := by
      rw [length_take, hT]
      omega
    have hcipher : (op (blkXor (rp.take 16) T)).length = T.length := (hop _).trans hT.symm
    have hblk : (blkXor (op (blkXor (rp.take 16) T)) T).length = 16 :=
      (length_blkXor hcipher).trans hT
    have hdrop : (rp.drop 16).length = 16 * n := by
      rw [length_drop]
      omega
    have hx : (blkXor (rp.take 16) T).length = 16 := (length_blkXor htake).trans hT
    rw [aesxtsLoop, aesxtsLoop, take_left' hblk, drop_left' hblk,
      ih hdrop ((length_nextTweak T).trans hT), blkXor_cancel hcipher, hinv _ hx,
      blkXor_cancel htake, take_append_drop]

/-- The `j`-th block of what the loop makes. -/
theorem block_aesxtsLoop (hop : ∀ x, (op x).length = 16) {n j : ℕ} (hj : j < n) {rp T : List UInt8}
    (hT : T.length = 16) :
    ((aesxtsLoop op n rp T).drop (16 * j)).take 16 =
      blkXor (op (blkXor ((rp.drop (16 * j)).take 16) (nextTweak^[j] T))) (nextTweak^[j] T) := by
  induction n generalizing rp T j with
  | zero => exact absurd hj (Nat.not_lt_zero j)
  | succ n ih =>
    have hblk : (blkXor (op (blkXor (rp.take 16) T)) T).length = 16 :=
      (length_blkXor ((hop _).trans hT.symm)).trans hT
    rw [aesxtsLoop]
    cases j with
    | zero => exact take_left' hblk
    | succ j =>
      have h16 : 16 * (j + 1) = 16 + 16 * j := by omega
      rw [h16, ← drop_drop, drop_left' hblk,
        ih (Nat.lt_of_succ_lt_succ hj) ((length_nextTweak T).trans hT), drop_drop,
        iterate_succ_apply]

end

/-- The `j`-th block of a sector. -/
theorem block_aesxts {op : List UInt32 → List UInt8 → List UInt8}
    (hop : ∀ A x, (op A x).length = 16) (ctx : Keys) (rp : List UInt8) (S : UInt64) {j : ℕ}
    (hj : j < 32) :
    piece 16 (aesxts ctx rp S op) j =
      blkXor (op ctx.K1 (blkXor (piece 16 rp j) (nextTweak^[j] (prepTweak ctx.K2 S))))
        (nextTweak^[j] (prepTweak ctx.K2 S)) :=
  block_aesxtsLoop (hop ctx.K1) hj (length_prepTweak _ _)

lemma length_aesxtsEncrypt : (aesxtsEncrypt ctx rp S).length = 512 := by
  rw [aesxtsEncrypt, aesxts,
    length_aesxtsLoop (fun _ => Aes.length_encrypt _ _) 32 (length_prepTweak _ _)]

lemma length_aesxtsDecrypt : (aesxtsDecrypt ctx rp S).length = 512 := by
  rw [aesxtsDecrypt, aesxts,
    length_aesxtsLoop (fun _ => Aes.length_decrypt _ _) 32 (length_prepTweak _ _)]

/-- **A sector decrypted is what was encrypted.** -/
theorem aesxts_inverse {rp : List UInt8} (hrp : rp.length = 512) (S : UInt64) :
    aesxtsDecrypt ctx (aesxtsEncrypt ctx rp S) S = rp :=
  aesxtsLoop_inverse (fun _ => Aes.length_encrypt _ _) (fun _ hx => Aes.decrypt_encrypt _ hx) 32 hrp
    (length_prepTweak _ _)

/-! ### The tweaks -/

open Polynomial

/-- What is reduced by, `x ^ 128 + x ^ 7 + x ^ 2 + x + 1`. -/
noncomputable def modulus : (ZMod 2)[X] := X ^ 128 + (X ^ 7 + X ^ 2 + X + 1)

lemma modulus_eq : modulus = X ^ 128 + (X ^ 7 + X ^ 2 + X + 1) := by
  unfold modulus
  with_reducible rfl

/-- The polynomials modulo that one. -/
abbrev Gf128 := AdjoinRoot modulus

/-- The element `α`. -/
noncomputable def alpha : Gf128 := root modulus

/-- The element that sixteen bytes stand for. -/
noncomputable def elem (T : List UInt8) : Gf128 := mk modulus (ofBytes T)

lemma ofNat_0x87 : ofNat 0x87 = X ^ 7 + X ^ 2 + X + 1 := by
  have hbits : 0x87 = (2 ^ 7 ^^^ 2 ^ 2) ^^^ (2 ^ 1 ^^^ 2 ^ 0) := rfl
  rw [hbits, ofNat_xor, ofNat_xor, ofNat_xor]
  simp only [ofNat_two_pow]
  ring

/-- What is carried out may as well be added twice. -/
theorem reduced {a b c y r : (ZMod 2)[X]} (h : a + y * c = b) (hc : c = 1) :
    a + r = b + (y + r) := by
  rw [hc] at h
  linear_combination h - y * CharTwo.two_eq_zero (R := (ZMod 2)[X])

/-- **The next tweak is the last one times `α`.** -/
theorem elem_nextTweak {T : List UInt8} (hT : T.length = 16) :
    elem (nextTweak T) = elem T * alpha := by
  have hshift := ofBytes_shift T (show (0 : UInt8).toNat < 2 by decide)
  have hbit := carry_shift_lt T (show (0 : UInt8).toNat < 2 by decide)
  have hlen := length_shift 0 T
  have hroot : elem T * alpha = mk modulus (X * ofBytes T) := by
    rw [map_mul, mk_X, mul_comm]
    rfl
  rw [hT, show 8 * 16 = 128 from rfl] at hshift
  simp only [nextTweak]
  generalize shift 0 T = out at hshift hbit hlen ⊢
  obtain ⟨T', c⟩ := out
  have hzero : ofNat (0 : UInt8).toNat = 0 := rfl
  rw [hzero, add_zero] at hshift
  by_cases hc : c = 0
  · rw [if_neg (not_not.mpr hc), hroot, ← hshift, hc, hzero, mul_zero, add_zero]
    rfl
  · -- a bit is carried out, and reduced
    have hone : c.toNat = 1 := by
      have : c.toNat ≠ 0 := fun h => hc (UInt8.toNat_inj.mp h)
      have : c.toNat < 2 := hbit
      omega
    obtain _ | ⟨t, rest⟩ := T'
    · rw [hT] at hlen
      cases hlen
    have hX : ofNat 1 = 1 := (ofNat_two_pow 0).trans (pow_zero _)
    have hmod : ofBytes ((t ^^^ 0x87) :: rest) = X * ofBytes T + modulus := by
      have hx87 : ofNat (0x87 : UInt8).toNat = X ^ 7 + X ^ 2 + X + 1 := ofNat_0x87
      have hone' : ofNat c.toNat = 1 := (congrArg ofNat hone).trans hX
      have hred := reduced (r := X ^ 7 + X ^ 2 + X + 1) hshift hone'
      rw [← modulus_eq] at hred
      rw [ofBytes_xor_head, hx87]
      exact hred
    rw [if_pos hc, hroot]
    show mk modulus (ofBytes ((t ^^^ 0x87) :: rest)) = _
    rw [hmod, map_add, mk_self, add_zero]

/-- **The tweak of a block.** -/
theorem elem_tweak {T : List UInt8} (hT : T.length = 16) (j : ℕ) :
    elem (nextTweak^[j] T) = elem T * alpha ^ j := by
  induction j with
  | zero => rw [iterate_zero_apply, pow_zero, mul_one]
  | succ j ih =>
    rw [iterate_succ_apply', elem_nextTweak (length_nextTweaks hT j), ih, pow_succ, mul_assoc]

end Minibase.Dcrypt
