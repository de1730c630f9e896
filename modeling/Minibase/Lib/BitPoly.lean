import Mathlib

/-!
# Numbers as polynomials over two elements

The bits of a number (`BitPoly.ofNat`), or of a string of bytes with the first byte lowest
(`BitPoly.ofBytes`), are the coefficients of a polynomial over `ZMod 2`. Exclusive or is then
addition, and a shift is multiplication by `X` (`BitPoly.ofBytes_shift`).
-/

namespace Minibase.BitPoly

open Polynomial

/-- The polynomial whose coefficients are the bits of a number. -/
noncomputable def ofNat (n : ℕ) : (ZMod 2)[X] :=
  ∑ i ∈ Finset.range n, if n.testBit i then X ^ i else 0

lemma coeff_ofNat (n i : ℕ) : (ofNat n).coeff i = if n.testBit i then 1 else 0 := by
  have hterm : ∀ j, (if n.testBit j then (X : (ZMod 2)[X]) ^ j else 0).coeff i =
      if j = i then (if n.testBit i then 1 else 0) else 0 := by
    intro j
    by_cases hj : j = i
    · subst j
      cases n.testBit i <;> simp
    · cases n.testBit j <;> simp [hj, coeff_X_pow, Ne.symm hj]
  rw [ofNat, finsetSum_coeff, Finset.sum_congr rfl fun j _ => hterm j, Finset.sum_ite_eq']
  split
  · rfl
  · rename_i hi
    rw [Finset.mem_range, not_lt] at hi
    rw [Nat.testBit_lt_two_pow (hi.trans_lt i.lt_two_pow_self)]
    rfl

lemma ofNat_two_pow (k : ℕ) : ofNat (2 ^ k) = X ^ k := by
  ext i
  rw [coeff_ofNat, Nat.testBit_two_pow, coeff_X_pow]
  by_cases h : k = i
  · simp [h]
  · simp [h, Ne.symm h]

/-- Exclusive or is addition. -/
theorem ofNat_xor (m n : ℕ) : ofNat (m ^^^ n) = ofNat m + ofNat n := by
  ext i
  rw [coeff_add, coeff_ofNat, coeff_ofNat, coeff_ofNat, Nat.testBit_xor]
  cases m.testBit i <;> cases n.testBit i <;> decide

/-- A number written in two parts. -/
theorem ofNat_add_mul (k b : ℕ) {a : ℕ} (ha : a < 2 ^ k) :
    ofNat (2 ^ k * b + a) = X ^ k * ofNat b + ofNat a := by
  ext i
  rw [coeff_add, coeff_X_pow_mul', coeff_ofNat, coeff_ofNat, coeff_ofNat,
    Nat.testBit_two_pow_mul_add b ha]
  rcases lt_or_ge i k with h | h
  · have hk : ¬k ≤ i := not_le.mpr h
    simp [h, hk]
  · have hbit : a.testBit i = false :=
      Nat.testBit_lt_two_pow (ha.trans_le (Nat.pow_le_pow_right Nat.two_pos h))
    simp [h, not_lt.mpr h, hbit]

/-- The polynomial whose coefficients are the bits of some bytes. -/
noncomputable def ofBytes : List UInt8 → (ZMod 2)[X]
  | [] => 0
  | b :: l => ofNat b.toNat + X ^ 8 * ofBytes l

/-! ### Shifts -/

/-- Bytes moved up by one bit, with a bit to begin with, and the bit left over. -/
def shift : UInt8 → List UInt8 → List UInt8 × UInt8
  | c, [] => ([], c)
  | c, t :: l => (((t <<< 1) + c) :: (shift ((t >>> 7) &&& 1) l).1, (shift ((t >>> 7) &&& 1) l).2)

@[simp] lemma length_shift (c : UInt8) (l : List UInt8) : (shift c l).1.length = l.length := by
  induction l generalizing c with
  | nil => rfl
  | cons t l ih => rw [shift, List.length_cons, List.length_cons, ih]

lemma carry_lt (t : UInt8) : ((t >>> 7) &&& 1).toNat < 2 := by
  rw [UInt8.toNat_and]
  exact Nat.lt_succ_of_le Nat.and_le_right

/-- A byte is doubled. -/
theorem toNat_shift (t : UInt8) {c : UInt8} (hc : c.toNat < 2) :
    2 ^ 8 * ((t >>> 7) &&& 1).toNat + ((t <<< 1) + c).toNat = 2 ^ 1 * t.toNat + c.toNat := by
  have ht := t.toNat_lt
  have hup : (t <<< 1).toNat = 2 * t.toNat % 256 := by
    rw [UInt8.toNat_shiftLeft, Nat.shiftLeft_eq]
    show t.toNat * 2 ^ 1 % 256 = _
    omega
  have hdown : ((t >>> 7) &&& 1).toNat = t.toNat / 128 := by
    rw [UInt8.toNat_and, UInt8.toNat_shiftRight, Nat.shiftRight_eq_div_pow]
    show t.toNat / 2 ^ 7 &&& 1 = _
    rw [Nat.and_one_is_mod]
    omega
  rw [hdown, UInt8.toNat_add, hup]
  omega

/-- **A shift multiplies by `X`.** -/
theorem ofBytes_shift (l : List UInt8) {c : UInt8} (hc : c.toNat < 2) :
    ofBytes (shift c l).1 + X ^ (8 * l.length) * ofNat (shift c l).2.toNat =
      X * ofBytes l + ofNat c.toNat := by
  induction l generalizing c with
  | nil => simp [shift, ofBytes]
  | cons t l ih =>
    have hbyte : X ^ 8 * ofNat ((t >>> 7) &&& 1).toNat + ofNat ((t <<< 1) + c).toNat =
        X ^ 1 * ofNat t.toNat + ofNat c.toNat := by
      rw [← ofNat_add_mul 8 _ (UInt8.toNat_lt _), toNat_shift t hc, ofNat_add_mul 1 _ hc]
    rw [shift, ofBytes, ofBytes, List.length_cons]
    calc
      _ = ofNat ((t <<< 1) + c).toNat + X ^ 8 * (ofBytes (shift ((t >>> 7) &&& 1) l).1 +
          X ^ (8 * l.length) * ofNat (shift ((t >>> 7) &&& 1) l).2.toNat) := by ring
      _ = X * (X ^ 8 * ofBytes l) + (X ^ 8 * ofNat ((t >>> 7) &&& 1).toNat +
          ofNat ((t <<< 1) + c).toNat) := by rw [ih (carry_lt t)]; ring
      _ = X * (ofNat t.toNat + X ^ 8 * ofBytes l) + ofNat c.toNat := by rw [hbyte]; ring

/-- The carry out of a shift is a bit. -/
theorem carry_shift_lt (l : List UInt8) {c : UInt8} (hc : c.toNat < 2) :
    (shift c l).2.toNat < 2 := by
  induction l generalizing c with
  | nil => exact hc
  | cons t l ih => exact ih (carry_lt t)

/-- The lowest byte is changed. -/
theorem ofBytes_xor_head (t m : UInt8) (l : List UInt8) :
    ofBytes ((t ^^^ m) :: l) = ofBytes (t :: l) + ofNat m.toNat := by
  rw [ofBytes, ofBytes, UInt8.toNat_xor, ofNat_xor]
  ring

end Minibase.BitPoly
