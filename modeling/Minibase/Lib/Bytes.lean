import Mathlib.Data.UInt

/-!
# Byte strings of a fixed size

`Bytes n` is a list of bytes with a proof that there are `n` of them; `Bytes.ofList` cuts a
field out of a longer buffer. Read as a number, a byte string has its most significant byte
first (`beVal`), and comparing two of the same size from the left is comparing the numbers
(`beVal_cons_lt`).
-/

namespace Minibase

open List

/-- Exactly `n` bytes. -/
structure Bytes (n : ℕ) where
  /-- The bytes. -/
  data : List UInt8
  size : data.length = n
deriving DecidableEq

namespace Bytes

variable {n : ℕ}

/-- The first `n` bytes of a buffer; a buffer that ends early reads as zeros. -/
def ofList (n : ℕ) (l : List UInt8) : Bytes n := ⟨l.takeD n 0, takeD_length n l 0⟩

/-- All zeros, as `memzero` leaves it. -/
def zero (n : ℕ) : Bytes n := ⟨replicate n 0, length_replicate⟩

@[simp] lemma length_data (b : Bytes n) : b.data.length = n := b.size

@[ext] lemma ext {a b : Bytes n} (h : a.data = b.data) : a = b := by
  cases a
  cases b
  cases h
  rfl

/-- A field is read back from a buffer that starts with it. -/
@[simp] theorem ofList_append (b : Bytes n) (l : List UInt8) : ofList n (b.data ++ l) = b := by
  apply ext
  exact takeD_left' b.size

/-- A field that is all there is the front of the buffer. -/
theorem data_ofList {l : List UInt8} (h : n ≤ l.length) : (ofList n l).data = l.take n :=
  takeD_eq_take 0 h

/-- A field that is too short is padded with zeros. -/
theorem data_ofList_short {l : List UInt8} (h : l.length ≤ n) :
    (ofList n l).data = l ++ replicate (n - l.length) 0 := by
  show l.takeD n 0 = _
  induction n generalizing l with
  | zero =>
    obtain rfl : l = [] := length_eq_zero_iff.mp (Nat.le_zero.mp h)
    rfl
  | succ n ih =>
    obtain - | ⟨b, l⟩ := l
    · exact takeD_nil (n + 1) 0
    have hl : l.length ≤ n := Nat.le_of_succ_le_succ h
    rw [takeD_succ, tail_cons, ih hl, length_cons, Nat.succ_sub_succ]
    rfl

end Bytes

/-! ### Big-endian numbers -/

/-- The number a byte string spells, most significant byte first. -/
def beVal : List UInt8 → ℕ
  | [] => 0
  | b :: l => b.toNat * 256 ^ l.length + beVal l

lemma beVal_lt (l : List UInt8) : beVal l < 256 ^ l.length := by
  induction l with
  | nil => exact one_pos
  | cons b l ih =>
    have hb : (b.toNat + 1) * 256 ^ l.length ≤ 256 * 256 ^ l.length :=
      Nat.mul_le_mul_right _ b.toNat_lt
    rw [length_cons, Nat.pow_succ', beVal]
    rw [Nat.succ_mul] at hb
    omega

/-- **The first byte that differs decides.** -/
theorem beVal_cons_lt {a b : UInt8} {l m : List UInt8} (hlen : l.length = m.length)
    (h : a.toNat < b.toNat) : beVal (a :: l) < beVal (b :: m) := by
  have h1 : (a.toNat + 1) * 256 ^ m.length ≤ b.toNat * 256 ^ m.length :=
    Nat.mul_le_mul_right _ h
  have h2 := beVal_lt l
  rw [hlen] at h2
  rw [beVal, beVal, hlen]
  rw [Nat.succ_mul] at h1
  omega

end Minibase
