import Minibase.Lib.Bytes

/-!
# Comparing bytes

The two comparisons of `lib/string` that keys go through. `memcmp` returns the
difference at the first place where its arguments differ, so that its sign is that of the
two big-endian numbers (`memcmp_neg_iff`); `memxcmp` looks at every
byte and only tells whether there was a difference (`memxcmp_eq_zero_iff`).
-/

namespace Minibase

/-- `memcmp`: the difference of the first two bytes that differ. -/
def memcmp : List UInt8 → List UInt8 → ℤ
  | a :: l, b :: m => if a.toNat ≠ b.toNat then (a.toNat : ℤ) - b.toNat else memcmp l m
  | _, _ => 0

/-- `memxcmp`: all the differences, or-ed together in an `int`. -/
def memxcmp : List UInt8 → List UInt8 → UInt32
  | a :: l, b :: m => (a.toUInt32 - b.toUInt32) ||| memxcmp l m
  | _, _ => 0

lemma memcmp_eq_zero_iff {l m : List UInt8} (h : l.length = m.length) : memcmp l m = 0 ↔ l = m := by
  induction l generalizing m with
  | nil =>
    obtain rfl : m = [] := List.length_eq_zero_iff.mp h.symm
    exact ⟨fun _ => rfl, fun _ => rfl⟩
  | cons a l ih =>
    obtain - | ⟨b, m⟩ := m
    · simp at h
    have hlen : l.length = m.length := by simpa using h
    rw [memcmp]
    split_ifs with hab
    · refine ⟨fun h0 => absurd (by omega) hab, ?_⟩
      rintro ⟨⟩
      exact absurd rfl hab
    · obtain rfl : a = b := UInt8.toNat_inj.mp (not_not.mp hab)
      rw [ih hlen]
      simp

@[simp] lemma memcmp_self (l : List UInt8) : memcmp l l = 0 := (memcmp_eq_zero_iff rfl).mpr rfl

/-- **The sign of `memcmp`**: the first argument is the smaller number. -/
theorem memcmp_neg_iff {l m : List UInt8} (h : l.length = m.length) :
    memcmp l m < 0 ↔ beVal l < beVal m := by
  induction l generalizing m with
  | nil =>
    obtain rfl : m = [] := List.length_eq_zero_iff.mp h.symm
    simp [memcmp]
  | cons a l ih =>
    obtain - | ⟨b, m⟩ := m
    · simp at h
    have hlen : l.length = m.length := by simpa using h
    rw [memcmp]
    rcases Nat.lt_trichotomy a.toNat b.toNat with hab | hab | hab
    · rw [if_pos (ne_of_lt hab)]
      exact ⟨fun _ => beVal_cons_lt hlen hab, fun _ => by omega⟩
    · rw [if_neg (not_not.mpr hab), ih hlen, beVal, beVal, hab, hlen]
      exact (Nat.add_lt_add_iff_left).symm
    · rw [if_pos (ne_of_gt hab)]
      have := beVal_cons_lt hlen.symm hab
      constructor
      · intro h0
        omega
      · intro h0
        omega

lemma memxcmp_eq_zero_iff {l m : List UInt8} (h : l.length = m.length) :
    memxcmp l m = 0 ↔ l = m := by
  induction l generalizing m with
  | nil =>
    obtain rfl : m = [] := List.length_eq_zero_iff.mp h.symm
    exact ⟨fun _ => rfl, fun _ => rfl⟩
  | cons a l ih =>
    obtain - | ⟨b, m⟩ := m
    · simp at h
    have hlen : l.length = m.length := by simpa using h
    rw [memxcmp, UInt32.or_eq_zero_iff, ih hlen, sub_eq_zero, List.cons.injEq]
    refine and_congr_left fun _ => ⟨fun h0 => ?_, congrArg _⟩
    exact UInt8.toNat_inj.mp (by simpa using congrArg UInt32.toNat h0)

end Minibase
