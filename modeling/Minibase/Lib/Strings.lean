import Minibase.Lib.Memory
import Mathlib.Algebra.Order.Group.Int

/-!
# Strings in a memory

A C string is in a memory if its bytes are and a zero after them. `strncmp` compares two
of them, and it looks at no more than so many bytes: with as many as the second one has it says
whether the first one begins with it (`strncmp_eq_zero`), with more whether the two are
the same (`strncmp_eq_zero_of_lt`). There is one string at an address
(`Mem.Holds.string_eq`).
-/

namespace Minibase

open List Mem

def strncmp (a b : Mem) : (n pa pb : ℕ) → ℤ
  | 0, _, _ => 0
  | n + 1, pa, pb =>
    if a pa ≠ 0 ∧ 0 < n ∧ a pa = b pb then strncmp a b n (pa + 1) (pb + 1)
    else (a pa).toNat - (b pb).toNat

lemma Mem.holds_cons {m : Mem} {p : ℕ} {x : UInt8} {l : List UInt8} :
    m.Holds p (x :: l) ↔ m p = x ∧ m.Holds (p + 1) l := by
  rw [show x :: l = [x] ++ l from rfl, holds_append]
  refine and_congr_left fun _ => ⟨fun h => h 0 zero_lt_one, fun h i hi => ?_⟩
  obtain rfl := Nat.lt_one_iff.mp hi
  exact h

section Compare

variable {a b : Mem} {l : List UInt8} {pa pb n : ℕ}

/-- Strings that differ in a byte are not the same, wherever the comparison stops. -/
theorem strncmp_of_ne (h : a pa ≠ b pb) : strncmp a b (n + 1) pa pb ≠ 0 := by
  rw [strncmp, if_neg (fun h' => h h'.2.2)]
  exact fun h0 => h (UInt8.toNat_inj.mp (by omega))

/-- Which one comes first has no part in it. -/
theorem strncmp_eq_zero_comm : strncmp a b n pa pb = 0 ↔ strncmp b a n pb pa = 0 := by
  induction n generalizing pa pb with
  | zero => exact Iff.rfl
  | succ n ih =>
    by_cases hab : a pa = b pb
    · rw [strncmp, strncmp, hab]
      split_ifs with h1
      · exact ih
      · exact Iff.rfl
    · exact ⟨fun h => absurd h (strncmp_of_ne hab), fun h => absurd h (strncmp_of_ne (Ne.symm hab))⟩

/-- **Comparing as many bytes as the second string has** is asking for them. -/
theorem strncmp_eq_zero (hl : 0 ∉ l) (hb : b.Holds pb l) :
    strncmp a b l.length pa pb = 0 ↔ a.Holds pa l := by
  induction l generalizing pa pb with
  | nil => exact ⟨fun _ => holds_nil _ _, fun _ => rfl⟩
  | cons x l ih =>
    obtain ⟨hbx, hrest⟩ := holds_cons.mp hb
    have hne : x ≠ 0 := fun h0 => hl (h0 ▸ mem_cons_self)
    have hmore : strncmp a b l.length (pa + 1) (pb + 1) = 0 ↔ a.Holds (pa + 1) l :=
      ih (fun h0 => hl (mem_cons_of_mem x h0)) hrest
    rw [holds_cons, length_cons]
    by_cases hax : a pa = x
    · rw [strncmp, hbx]
      cases l with
      | nil =>
        rw [length_nil, if_neg (fun h => absurd h.2.1 (lt_irrefl 0)), hax, sub_self]
        exact ⟨fun _ => ⟨rfl, holds_nil _ _⟩, fun _ => rfl⟩
      | cons y l =>
        rw [if_pos ⟨hax ▸ hne, Nat.succ_pos _, hax⟩, hmore]
        exact ⟨fun h => ⟨hax, h⟩, fun h => h.2⟩
    · exact ⟨fun h => absurd h (strncmp_of_ne (hbx.symm ▸ hax)), fun h => absurd h.1 hax⟩

/-- **Comparing more bytes than the second string has** is asking for all of it. -/
theorem strncmp_eq_zero_of_lt (hl : 0 ∉ l) (hb : b.Holds pb (l ++ [0])) (hn : l.length < n) :
    strncmp a b n pa pb = 0 ↔ a.Holds pa (l ++ [0]) := by
  induction l generalizing pa pb n with
  | nil =>
    obtain ⟨n, rfl⟩ := Nat.exists_eq_succ_of_ne_zero (ne_of_gt hn)
    obtain ⟨hb0, -⟩ := holds_cons.mp (show b.Holds pb (0 :: []) from hb)
    rw [show ([] : List UInt8) ++ [0] = 0 :: [] from rfl, holds_cons]
    by_cases ha : a pa = 0
    · rw [strncmp, if_neg (fun h => h.1 ha), ha, hb0, sub_self]
      exact ⟨fun _ => ⟨rfl, holds_nil _ _⟩, fun _ => rfl⟩
    · exact ⟨fun h => absurd h (strncmp_of_ne (hb0.symm ▸ ha)), fun h => absurd h.1 ha⟩
  | cons x l ih =>
    obtain ⟨n, rfl⟩ := Nat.exists_eq_succ_of_ne_zero (ne_of_gt (Nat.zero_lt_of_lt hn))
    obtain ⟨hbx, hrest⟩ := holds_cons.mp (show b.Holds pb (x :: (l ++ [0])) from hb)
    have hne : x ≠ 0 := fun h0 => hl (h0 ▸ mem_cons_self)
    have hlen : l.length < n := Nat.lt_of_succ_lt_succ hn
    rw [cons_append, holds_cons]
    by_cases hax : a pa = x
    · rw [strncmp, hbx, if_pos ⟨hax ▸ hne, Nat.zero_lt_of_lt hlen, hax⟩,
        ih (fun h0 => hl (mem_cons_of_mem x h0)) hrest hlen]
      exact ⟨fun h => ⟨hax, h⟩, fun h => h.2⟩
    · exact ⟨fun h => absurd h (strncmp_of_ne (hbx.symm ▸ hax)), fun h => absurd h.1 hax⟩

end Compare

/-- **There is one string at an address.** -/
theorem Mem.Holds.string_eq {m : Mem} {p : ℕ} {s t : List UInt8} (hs : 0 ∉ s) (ht : 0 ∉ t)
    (h : m.Holds p (s ++ [0])) (h' : m.Holds p (t ++ [0])) : s = t := by
  induction s generalizing p t with
  | nil =>
    obtain - | ⟨y, t⟩ := t
    · rfl
    · have h0 := (holds_cons.mp (show m.Holds p (0 :: []) from h)).1
      have hy := (holds_cons.mp (show m.Holds p (y :: (t ++ [0])) from h')).1
      exact absurd (hy.symm.trans h0 ▸ mem_cons_self) ht
  | cons x s ih =>
    obtain ⟨hx, hs'⟩ := holds_cons.mp (show m.Holds p (x :: (s ++ [0])) from h)
    obtain - | ⟨y, t⟩ := t
    · have h0 := (holds_cons.mp (show m.Holds p (0 :: []) from h')).1
      exact absurd (hx.symm.trans h0 ▸ mem_cons_self) hs
    · obtain ⟨hy, ht'⟩ := holds_cons.mp (show m.Holds p (y :: (t ++ [0])) from h')
      rw [hx.symm.trans hy, ih (fun h0 => hs (mem_cons_of_mem x h0))
        (fun h0 => ht (mem_cons_of_mem y h0)) hs' ht']

end Minibase
