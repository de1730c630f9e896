import Mathlib.Algebra.Order.Group.Nat
import Mathlib.Algebra.BigOperators.Group.List.Basic
import Mathlib.Data.UInt

/-!
# Files of records

A file of records of one size, one after the other: cutting its bytes at a multiple of the size
is cutting the list of records (`Records.drop_bytes`). `pwrite` is a write at an offset, wherever
the file ends: at its end it appends (`pwrite_end`), and past the end the gap reads as zeros
(`pwrite_nil`). A write of a piece of one size changes that piece and no other (`piece_pwrite`).
-/

namespace Minibase

open List

/-! ### Writing at an offset -/

section Write

variable {β : Type} [Zero β]

/-- The file after a write of `bs` at an offset. -/
def pwrite (d : List β) (off : ℕ) (bs : List β) : List β :=
  d.take off ++ replicate (off - d.length) 0 ++ bs ++ d.drop (off + bs.length)

lemma pwrite_end (d bs : List β) : pwrite d d.length bs = d ++ bs := by
  simp [pwrite]

/-- **A write past the end** of an empty file leaves a hole before it. -/
theorem pwrite_nil (off : ℕ) (bs : List β) : pwrite [] off bs = replicate off 0 ++ bs := by
  simp [pwrite]

section Inside

variable {d bs : List β} {off i n : ℕ} (h : off + bs.length ≤ d.length)

include h

lemma pwrite_of_le : pwrite d off bs = d.take off ++ (bs ++ d.drop (off + bs.length)) := by
  have hfill : off - d.length = 0 := by omega
  rw [pwrite, hfill, replicate_zero, append_nil, append_assoc]

/-- A write inside a file keeps its length. -/
theorem length_pwrite_of_le : (pwrite d off bs).length = d.length := by
  rw [pwrite_of_le h, length_append, length_append, length_take, length_drop]
  omega

/-- **What was written** is there. -/
theorem pwrite_same : ((pwrite d off bs).drop off).take bs.length = bs := by
  have hlen : (d.take off).length = off := length_take_of_le (by omega)
  rw [pwrite_of_le h, drop_left' hlen, take_left]

/-- **What is before it** is as it was. -/
theorem pwrite_before (hi : i + n ≤ off) :
    ((pwrite d off bs).drop i).take n = (d.drop i).take n := by
  have hlen : (d.take off).length = off := length_take_of_le (by omega)
  have hle : n ≤ ((d.take off).drop i).length := by
    rw [length_drop]
    omega
  rw [pwrite_of_le h, drop_append_of_le_length (by omega), take_append_of_le_length hle,
    drop_take, take_take, min_eq_left (by omega)]

/-- **What is after it** is as it was. -/
theorem pwrite_after (hi : off + bs.length ≤ i) :
    ((pwrite d off bs).drop i).take n = (d.drop i).take n := by
  obtain ⟨j, rfl⟩ := Nat.exists_eq_add_of_le hi
  have hlen : (d.take off ++ bs).length = off + bs.length := by
    rw [length_append, length_take_of_le (by omega)]
  rw [pwrite_of_le h, ← append_assoc, ← drop_drop, drop_left' hlen, drop_drop]

end Inside

end Write

/-! ### Records -/

namespace Records

variable {α β : Type} {enc : α → List β} {n : ℕ}

lemma length_bytes (h : ∀ a, (enc a).length = n) (l : List α) :
    (l.flatMap enc).length = n * l.length := by
  induction l with
  | nil => rfl
  | cons a l ih => rw [flatMap_cons, length_append, h, ih, length_cons, Nat.mul_succ, add_comm]

/-- **Cutting the bytes is cutting the records.** -/
theorem drop_bytes (h : ∀ a, (enc a).length = n) (l : List α) (i : ℕ) :
    (l.flatMap enc).drop (n * i) = (l.drop i).flatMap enc := by
  induction i generalizing l with
  | zero => rfl
  | succ i ih =>
    obtain - | ⟨a, l⟩ := l
    · simp
    have hcut : n * (i + 1) = (enc a).length + n * i := by rw [h, Nat.mul_succ, add_comm]
    rw [flatMap_cons, hcut, drop_length_add_append, drop_succ_cons, ih]

end Records

/-! ### Pieces of one size -/

variable {α : Type}

def pread (l : List α) (len off : ℕ) : List α := (l.drop off).take len

/-- A piece of a file. -/
def piece (k : ℕ) (l : List α) (t : ℕ) : List α := pread l k (k * t)

lemma length_piece {k n t : ℕ} {l : List α} (hl : l.length = k * n) (ht : t < n) :
    (piece k l t).length = k := by
  have hle : k * t + k ≤ k * n := Nat.mul_succ k t ▸ Nat.mul_le_mul_left k ht
  rw [piece, pread, length_take, length_drop, hl]
  omega

/-- **Files that agree in every piece are the same.** -/
theorem eq_of_pieces {k n : ℕ} {l m : List α} (hl : l.length = k * n) (hm : m.length = k * n)
    (h : ∀ t < n, piece k l t = piece k m t) : l = m := by
  induction n generalizing l m with
  | zero => rw [length_eq_zero_iff.mp hl, length_eq_zero_iff.mp hm]
  | succ n ih =>
    rw [Nat.mul_succ] at hl hm
    have hfirst := h 0 n.succ_pos
    rw [piece, piece, pread, pread, mul_zero, drop_zero, drop_zero] at hfirst
    have hrest : l.drop k = m.drop k := by
      refine ih ?_ ?_ fun t ht => ?_
      · rw [length_drop]
        omega
      · rw [length_drop]
        omega
      · have hpiece := h (t + 1) (Nat.succ_lt_succ ht)
        rw [piece, piece, pread, pread, Nat.mul_succ, add_comm] at hpiece
        rw [piece, piece, pread, pread, drop_drop, drop_drop]
        exact hpiece
    rw [← take_append_drop k l, ← take_append_drop k m, hfirst, hrest]

/-- The pieces a file was put together from. -/
theorem piece_flatten {k t : ℕ} {L : List (List α)} (h : ∀ x ∈ L, x.length = k)
    (ht : t < L.length) : piece k L.flatten t = L[t] := by
  induction L generalizing t with
  | nil => exact absurd ht (Nat.not_lt_zero t)
  | cons x L ih =>
    have hx := h x mem_cons_self
    rw [flatten_cons]
    cases t with
    | zero =>
      show List.take k (x ++ L.flatten) = x
      exact take_left' hx
    | succ t =>
      have hstep : piece k (x ++ L.flatten) (t + 1) = piece k L.flatten t := by
        rw [piece, piece, pread, pread, Nat.mul_succ, Nat.add_comm, ← drop_drop, drop_left' hx]
      rw [hstep, ih (fun y hy => h y (mem_cons_of_mem x hy)) (Nat.lt_of_succ_lt_succ ht)]
      rfl

/-- A file put together from its pieces. -/
theorem flatten_map_piece (k n : ℕ) (l : List α) :
    ((range n).map (piece k l)).flatten = l.take (k * n) := by
  induction n with
  | zero => rw [mul_zero, take_zero, range_zero, map_nil, flatten_nil]
  | succ n ih =>
    rw [range_succ, map_append, flatten_append, ih, Nat.mul_succ, take_add,
      map_singleton, flatten_singleton]
    rfl

section Pwrite

variable {k n t : ℕ} {l data : List UInt8}

lemma pwrite_eq (hl : l.length = k * n) (ht : t < n) (hdata : data.length = k) :
    pwrite l (k * t) data = l.take (k * t) ++ data ++ l.drop (k * t + k) := by
  have hle : k * t + k ≤ k * n := Nat.mul_succ k t ▸ Nat.mul_le_mul_left k ht
  have hfill : k * t - l.length = 0 := by omega
  rw [pwrite, hfill, replicate_zero, append_nil, hdata]

lemma length_pwrite (hl : l.length = k * n) (ht : t < n) (hdata : data.length = k) :
    (pwrite l (k * t) data).length = k * n := by
  have hle : k * t + k ≤ k * n := Nat.mul_succ k t ▸ Nat.mul_le_mul_left k ht
  rw [pwrite_eq hl ht hdata, length_append, length_append, length_take, length_drop, hl, hdata]
  omega

/-- **A piece that is written changes, and no other does.** -/
theorem piece_pwrite (hl : l.length = k * n) (ht : t < n) (hdata : data.length = k) {u : ℕ}
    (hu : u < n) : piece k (pwrite l (k * t) data) u = if u = t then data else piece k l u := by
  have hle : k * t + k ≤ k * n := Nat.mul_succ k t ▸ Nat.mul_le_mul_left k ht
  have hule : k * u + k ≤ k * n := Nat.mul_succ k u ▸ Nat.mul_le_mul_left k hu
  have htake : (l.take (k * t)).length = k * t := by
    rw [length_take]
    omega
  rw [pwrite_eq hl ht hdata, piece, pread, append_assoc]
  rcases lt_trichotomy u t with hlt | rfl | hgt
  · -- before what is written
    have huk : k * u + k ≤ k * t := Nat.mul_succ k u ▸ Nat.mul_le_mul_left k hlt
    rw [if_neg (Nat.ne_of_lt hlt), drop_append_of_le_length (by omega),
      take_append_of_le_length (by rw [length_drop]; omega), drop_take,
      take_take, Nat.min_eq_left (by omega)]
    rfl
  · rw [if_pos rfl, drop_left' htake, take_left' hdata]
  · -- after it
    have htk : k * t + k ≤ k * u := Nat.mul_succ k t ▸ Nat.mul_le_mul_left k hgt
    obtain ⟨d, hd⟩ := Nat.exists_eq_add_of_le htk
    rw [if_neg (Nat.ne_of_gt hgt), ← append_assoc, hd,
      ← drop_drop, drop_left' (by rw [length_append, htake, hdata]), drop_drop,
      ← hd]
    rfl

end Pwrite

end Minibase
