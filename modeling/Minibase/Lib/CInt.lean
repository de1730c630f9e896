import Mathlib.Data.UInt

/-!
# Machine integers as integers

C's `int` arithmetic, with the wrap-around of two's complement written where it
happens: `i32` is what a 32-bit signed variable holds after an
assignment, `u16` what a 16-bit unsigned field does. Both are written
with literals, so that `omega` can see through them.
-/

namespace Minibase

variable (x : ℤ)

/-- The value of a signed 32-bit variable assigned `x`. -/
def i32 : ℤ := (x + 2147483648) % 4294967296 - 2147483648

/-- The value of a signed 16-bit variable assigned `x`. -/
def i16 : ℤ := (x + 32768) % 65536 - 32768

/-- The value of an unsigned 16-bit variable assigned `x`. -/
def u16 : ℕ := (x % 65536).toNat

/-- The value of an unsigned 32-bit variable assigned the natural number `x`. -/
def u32 (x : ℕ) : ℕ := x % 4294967296

/-- Unsigned 32-bit subtraction. -/
def sub32 (x y : ℕ) : ℕ := (x + 4294967296 - y % 4294967296) % 4294967296

variable (n : ℕ)

/-- Round up to a multiple of four. -/
def roundUp4 : ℕ := (n + 3) / 4 * 4

/-- `(x + 3) & ~3` in 32-bit arithmetic. -/
def align4 : ℤ := i32 (x + 3) - i32 (x + 3) % 4

lemma i32_of_range {x : ℤ} (h1 : -2147483648 ≤ x) (h2 : x < 2147483648) : i32 x = x := by
  unfold i32
  omega

lemma u32_of_lt {x : ℕ} (h : x < 4294967296) : u32 x = x := Nat.mod_eq_of_lt h

lemma sub32_of_le {x y : ℕ} (hx : x < 4294967296) (hy : y ≤ x) : sub32 x y = x - y := by
  unfold sub32
  omega

lemma u16_lt : u16 x < 65536 := by
  unfold u16
  omega

lemma u16_natCast : u16 n = n % 65536 := by
  unfold u16
  omega

/-- Sign-extending the low sixteen bits. -/
theorem i16_u16 : i16 (u16 x) = i16 x := by
  unfold i16 u16
  omega

lemma i16_eq_self_iff {x : ℤ} : i16 x = x ↔ -32768 ≤ x ∧ x < 32768 := by
  unfold i16
  omega

/-- Rounding a length up in 32-bit arithmetic is rounding it up and truncating. -/
theorem align4_natCast : align4 n = i32 (roundUp4 n) := by
  unfold align4 i32 roundUp4
  omega

lemma le_roundUp4 : n ≤ roundUp4 n := by
  unfold roundUp4
  omega

lemma roundUp4_add_four : roundUp4 (n + 4) = roundUp4 n + 4 := by
  unfold roundUp4
  omega

/-! ### Padding -/

/-- A block padded with zeros to a multiple of four bytes. -/
def pad4 (bs : List UInt8) : List UInt8 :=
  bs ++ List.replicate (roundUp4 bs.length - bs.length) 0

@[simp] lemma length_pad4 (bs : List UInt8) : (pad4 bs).length = roundUp4 bs.length := by
  have h := le_roundUp4 bs.length
  rw [pad4, List.length_append, List.length_replicate]
  omega

end Minibase
