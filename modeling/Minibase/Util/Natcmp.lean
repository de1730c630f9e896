import Minibase.Format.Digits

/-!
# Comparing names with numbers in them

`lib/string/natcmp.c`. Two strings are compared where they first differ: by the length of the
numbers that they go on with there, if these are not of the same length, and by the bytes otherwise.
**It is an order on three strings exactly if they are not tangled** (`Util.ordered_iff`): if one
goes on with a number, one with the beginning of that number and a letter, and one with another
number that is between these two by its length (`Util.Clash`), then each of them comes before the
next one, all the way round. -/

namespace Minibase.Util

open List

/-! ### The code -/

/-- A string: no byte of it is zero, and it is not too long for an `int`. -/
structure Str where
  bytes : List UInt8
  nonzero : 0 ∉ bytes
  short : bytes.length < 2147483648

def numrun : List UInt8 → ℕ
  | [] => 0
  | c :: q => if isDigit c then numrun q + 1 else 0

/-- The loop of `natcmp`. -/
def advance : List UInt8 → List UInt8 → List UInt8 × List UInt8
  | x :: pa, y :: pb => if x ≠ y then (x :: pa, y :: pb) else advance pa pb
  | pa, pb => (pa, pb)

/-- What `natcmp` does after the loop. The end of a string is a zero byte. -/
def natcmpAt (pa pb : List UInt8) : ℤ :=
  let na := numrun pa
  let nb := numrun pb
  if na ≠ 0 ∧ nb ≠ 0 ∧ na ≠ nb then i32 (((na : ℤ) - nb) % 18446744073709551616)
  else (pa.headD 0).toNat - (pb.headD 0).toNat

def natcmp (a b : Str) : ℤ := natcmpAt (advance a.bytes b.bytes).1 (advance a.bytes b.bytes).2

/-! ### Three strings -/

/-- **An order on three strings**, as sorting needs it. -/
structure Ordered (a b c : Str) : Prop where
  opposite : (natcmp a b).sign = -(natcmp b a).sign
  zero : natcmp a b = 0 ↔ a = b
  trans : natcmp a b ≤ 0 → natcmp b c ≤ 0 → natcmp a c ≤ 0

/-- The number at the start of a string is shorter, or the first digit is smaller. -/
def Shorter (s t : List UInt8) : Prop :=
  numrun s < numrun t ∨ numrun s = numrun t ∧ s.headD 0 < t.headD 0

/-- **Numbers that clash**: the one in `m` is the beginning of the one in `l`, and there is a byte
above the digits after it; the one in `r` starts with another digit and is between the two. -/
structure Clash (l m r : List UInt8) : Prop where
  digit : isDigit (m.headD 0) = true
  digit' : isDigit (r.headD 0) = true
  differs : r.headD 0 ≠ m.headD 0
  begins : m.takeWhile isDigit <+: l
  above : 57 < (m.dropWhile isDigit).headD 0
  left : Shorter m r
  right : Shorter r l

/-- Strings with numbers that clash, after the same beginning. -/
def Tangled (l m r : List UInt8) : Prop :=
  ∃ u l' m' r', l = u ++ l' ∧ m = u ++ m' ∧ r = u ++ r' ∧ Clash l' m' r'

/-! ### Without the bounds of an integer -/

/-- What decides where two strings differ. -/
def difference (pa pb : List UInt8) : ℤ :=
  if numrun pa ≠ 0 ∧ numrun pb ≠ 0 ∧ numrun pa ≠ numrun pb then numrun pa - numrun pb
  else (pa.headD 0).toNat - (pb.headD 0).toNat

/-- The comparison, by recursion. -/
def natord : List UInt8 → List UInt8 → ℤ
  | x :: a, y :: b => if x = y then natord a b else difference (x :: a) (y :: b)
  | a, b => difference a b

section Lists

variable {a b c u : List UInt8} {x y : UInt8}

lemma numrun_le (a : List UInt8) : numrun a ≤ a.length := by
  induction a with
  | nil => exact le_rfl
  | cons x a ih =>
    rw [numrun, length_cons]
    split <;> omega

lemma length_takeWhile_isDigit (a : List UInt8) : (a.takeWhile isDigit).length = numrun a := by
  induction a with
  | nil => rfl
  | cons x a ih =>
    rw [takeWhile_cons, numrun]
    split
    · rw [length_cons, ih]
    · rfl

lemma numrun_ne_zero : numrun a ≠ 0 ↔ isDigit (a.headD 0) = true := by
  cases a with
  | nil => exact ⟨fun h => absurd rfl h, fun h => by cases h⟩
  | cons x a =>
    rw [numrun, headD_cons]
    split
    case isTrue h => exact ⟨fun _ => h, fun _ => Nat.succ_ne_zero _⟩
    case isFalse h => exact ⟨fun h0 => absurd rfl h0, fun h' => absurd h' h⟩

lemma natcmpAt_eq (ha : a.length < 2147483648) (hb : b.length < 2147483648) :
    natcmpAt a b = difference a b := by
  have hna := numrun_le a
  have hnb := numrun_le b
  rw [natcmpAt, difference]
  refine if_congr Iff.rfl ?_ rfl
  unfold i32
  omega

lemma natcmpAt_advance (ha : a.length < 2147483648) (hb : b.length < 2147483648) :
    natcmpAt (advance a b).1 (advance a b).2 = natord a b := by
  induction a generalizing b with
  | nil => exact natcmpAt_eq ha hb
  | cons x a ih =>
    cases b with
    | nil => exact natcmpAt_eq ha hb
    | cons y b =>
      rw [advance, natord]
      by_cases hxy : x = y
      · rw [if_neg (not_not.mpr hxy), if_pos hxy]
        exact ih (Nat.lt_of_succ_lt ha) (Nat.lt_of_succ_lt hb)
      · rw [if_pos hxy, if_neg hxy]
        exact natcmpAt_eq ha hb

lemma difference_swap (a b : List UInt8) : difference b a = -difference a b := by
  rw [difference, difference]
  split_ifs <;> omega

lemma natord_swap (a b : List UInt8) : natord b a = -natord a b := by
  induction a generalizing b with
  | nil => cases b <;> exact difference_swap _ _
  | cons x a ih =>
    cases b with
    | nil => exact difference_swap _ _
    | cons y b =>
      rw [natord, natord]
      by_cases hxy : x = y
      · rw [if_pos hxy, if_pos hxy.symm]
        exact ih b
      · rw [if_neg hxy, if_neg (Ne.symm hxy)]
        exact difference_swap _ _

@[simp] lemma natord_self (a : List UInt8) : natord a a = 0 := by
  have := natord_swap a a
  omega

lemma natord_append (u a b : List UInt8) : natord (u ++ a) (u ++ b) = natord a b := by
  induction u with
  | nil => rfl
  | cons x u ih => rw [cons_append, cons_append, natord, if_pos rfl, ih]

/-- Strings that differ at once. -/
theorem natord_of_ne (h : a.headD 0 ≠ b.headD 0) : natord a b = difference a b := by
  cases a with
  | nil => cases b <;> rfl
  | cons x a =>
    cases b with
    | nil => rfl
    | cons y b => exact if_neg h

/-- What decides, in words. -/
theorem difference_neg : difference a b < 0 ↔
    if isDigit (a.headD 0) = true ∧ isDigit (b.headD 0) = true then Shorter a b
    else a.headD 0 < b.headD 0 := by
  have hbyte : a.headD 0 < b.headD 0 ↔ (a.headD 0).toNat < (b.headD 0).toNat :=
    UInt8.lt_iff_toNat_lt
  by_cases hdigits : isDigit (a.headD 0) = true ∧ isDigit (b.headD 0) = true
  · have hna := numrun_ne_zero.mpr hdigits.1
    have hnb := numrun_ne_zero.mpr hdigits.2
    rw [if_pos hdigits, difference, Shorter, hbyte]
    split_ifs <;> omega
  · have hnone : ¬(numrun a ≠ 0 ∧ numrun b ≠ 0 ∧ numrun a ≠ numrun b) :=
      fun h' => hdigits ⟨numrun_ne_zero.mp h'.1, numrun_ne_zero.mp h'.2.1⟩
    rw [if_neg hdigits, difference, if_neg hnone, hbyte]
    omega

lemma difference_ne_zero (h : a.headD 0 ≠ b.headD 0) : difference a b ≠ 0 := by
  have hbyte : (a.headD 0).toNat ≠ (b.headD 0).toNat := fun h' => h (UInt8.toNat_inj.mp h')
  rw [difference]
  split_ifs <;> omega

lemma headD_ne_of_nonempty (hb : 0 ∉ b) (hne : b ≠ []) : ([] : List UInt8).headD 0 ≠ b.headD 0 := by
  cases b with
  | nil => exact absurd rfl hne
  | cons y b => exact fun h => hb (mem_cons.mpr (.inl h))

lemma eq_of_natord (ha : 0 ∉ a) (hb : 0 ∉ b) (h : natord a b = 0) : a = b := by
  induction a generalizing b with
  | nil =>
    by_contra hne
    have hhead := headD_ne_of_nonempty hb (Ne.symm hne)
    exact difference_ne_zero hhead ((natord_of_ne hhead).symm.trans h)
  | cons x a ih =>
    cases b with
    | nil =>
      have hhead := headD_ne_of_nonempty ha (cons_ne_nil x a)
      exact absurd ((natord_of_ne hhead.symm).symm.trans h) (difference_ne_zero hhead.symm)
    | cons y b =>
      rw [mem_cons, not_or] at ha hb
      rw [natord] at h
      split at h
      case isTrue hxy => rw [hxy, ih ha.2 hb.2 h]
      case isFalse hxy => exact absurd h (difference_ne_zero hxy)

/-! ### Numbers that clash -/

lemma isDigit_iff (x : UInt8) : isDigit x = true ↔ 48 ≤ x.toNat ∧ x.toNat ≤ 57 := by
  rw [isDigit, Bool.and_eq_true, decide_eq_true_iff, decide_eq_true_iff, UInt8.le_iff_toNat_le,
    UInt8.lt_iff_toNat_lt]
  exact and_congr_right fun _ => Nat.lt_succ_iff

/-- **A string comes before one with a shorter number** only if there is a byte above the digits
after that, and the number before is the beginning of the other one. -/
theorem above_of_natord (hlt : natord a b < 0) (hrun : numrun b < numrun a) :
    b.takeWhile isDigit <+: a ∧ 57 < (b.dropWhile isDigit).headD 0 := by
  induction a generalizing b with
  | nil => exact absurd hrun (Nat.not_lt_zero _)
  | cons x a ih =>
    have hx : isDigit x = true := numrun_ne_zero.mp (Nat.ne_of_gt (Nat.zero_lt_of_lt hrun))
    by_cases hhead : (x :: a).headD 0 = b.headD 0
    · -- the same digit: go on behind it
      obtain ⟨b, rfl⟩ : ∃ b', b = x :: b' := by
        cases b with
        | nil =>
          rw [show x = 0 from hhead] at hx
          cases hx
        | cons y b => exact ⟨b, by rw [show x = y from hhead]⟩
      rw [numrun, numrun, if_pos hx, if_pos hx] at hrun
      rw [natord, if_pos rfl] at hlt
      obtain ⟨hbegins, habove⟩ := ih hlt (Nat.lt_of_succ_lt_succ hrun)
      rw [takeWhile_cons, if_pos hx, dropWhile_cons, if_pos hx]
      exact ⟨(cons_prefix_cons).mpr ⟨rfl, hbegins⟩, habove⟩
    · rw [natord_of_ne hhead, difference_neg] at hlt
      have hnot : isDigit (b.headD 0) ≠ true := by
        intro hdigit
        rw [if_pos ⟨hx, hdigit⟩] at hlt
        rcases hlt with hlt | ⟨heq, -⟩
        · exact Nat.lt_asymm hlt hrun
        · exact Nat.ne_of_gt hrun heq
      rw [if_neg fun h => hnot h.2, UInt8.lt_iff_toNat_lt] at hlt
      have hb := numrun_ne_zero.not.mpr hnot
      rw [not_not, ← length_takeWhile_isDigit, length_eq_zero_iff] at hb
      have hdrop := takeWhile_append_dropWhile (p := isDigit) (l := b)
      rw [hb, nil_append] at hdrop
      rw [hb, hdrop, UInt8.lt_iff_toNat_lt]
      refine ⟨ nil_prefix, ?_⟩
      have hlow := ((isDigit_iff x).mp hx).1
      have hnot' : ¬(48 ≤ (b.headD 0).toNat ∧ (b.headD 0).toNat ≤ 57) :=
        fun h => hnot ((isDigit_iff _).mpr h)
      change 57 < (b.headD 0).toNat
      change x.toNat < (b.headD 0).toNat at hlt
      omega

/-- The other way round. -/
theorem natord_of_above (hbegins : b.takeWhile isDigit <+: a)
    (habove : 57 < (b.dropWhile isDigit).headD 0)
    (hrun : numrun b < numrun a) : natord a b < 0 := by
  obtain ⟨a, rfl⟩ := hbegins
  have hdigits : ∀ x ∈ b.takeWhile isDigit, isDigit x = true := fun x hx => mem_takeWhile_imp hx
  have hsplit := natord_append (b.takeWhile isDigit) a (b.dropWhile isDigit)
  rw [takeWhile_append_dropWhile] at hsplit
  rw [← length_takeWhile_isDigit, ← length_takeWhile_isDigit, takeWhile_append_of_pos hdigits,
    length_append] at hrun
  have hdigit : isDigit (a.headD 0) = true := by
    rw [← numrun_ne_zero, ← length_takeWhile_isDigit]
    omega
  have hhigh := ((isDigit_iff _).mp hdigit).2
  rw [UInt8.lt_iff_toNat_lt] at habove
  change 57 < _ at habove
  have hne : a.headD 0 ≠ (b.dropWhile isDigit).headD 0 := by
    intro heq
    rw [heq] at hhigh
    omega
  rw [hsplit, natord_of_ne hne, difference_neg, if_neg, UInt8.lt_iff_toNat_lt]
  · omega
  · intro h
    have := ((isDigit_iff _).mp h.2).2
    omega

/-- Three strings each of which comes before the next one. -/
def Round (a b c : List UInt8) : Prop := natord a b < 0 ∧ natord b c < 0 ∧ natord c a < 0

lemma Round.rotate (h : Round a b c) : Round b c a := ⟨h.2.1, h.2.2, h.1⟩

lemma Shorter.trans (h : Shorter a b) (h' : Shorter b c) : Shorter a c := by
  rcases h with h | ⟨h, h1⟩ <;> rcases h' with h' | ⟨h', h1'⟩
  · exact .inl (h.trans h')
  · exact .inl (h.trans_eq h')
  · exact .inl (h.trans_lt h')
  · exact .inr ⟨h.trans h', UInt8.lt_trans h1 h1'⟩

/-- If there is a beginning that two of three strings share and the third does not, they clash. -/
theorem Round.clash (h : Round a b c) (hab : a.headD 0 = b.headD 0) (hc : c.headD 0 ≠ a.headD 0) :
    Clash a b c := by
  obtain ⟨h1, h2, h3⟩ := h
  have hbc : b.headD 0 ≠ c.headD 0 := hab ▸ hc.symm
  rw [natord_of_ne hbc, difference_neg] at h2
  rw [natord_of_ne hc, difference_neg, hab] at h3
  -- a comparison of bytes does not go round
  have hdigits : isDigit (b.headD 0) = true ∧ isDigit (c.headD 0) = true := by
    by_contra hn
    rw [if_neg hn] at h2
    rw [if_neg fun h => hn h.symm] at h3
    exact UInt8.lt_asymm h2 h3
  rw [if_pos hdigits] at h2
  rw [if_pos hdigits.symm] at h3
  have hrun : numrun b < numrun a := by
    rcases h2.trans h3 with hlt | ⟨-, hhead⟩
    · exact hlt
    · rw [hab] at hhead
      exact absurd hhead (UInt8.lt_irrefl _)
  obtain ⟨hbegins, habove⟩ := above_of_natord h1 hrun
  exact ⟨hdigits.1, hdigits.2, hbc.symm, hbegins, habove, h2, h3⟩

/-- Strings that clash go round. -/
theorem Clash.round (h : Clash a b c) : Round a b c := by
  have hhead : a.headD 0 = b.headD 0 := by
    obtain ⟨x, b', rfl⟩ : ∃ x b', b = x :: b' := by
      cases b with
      | nil => cases h.digit
      | cons x b => exact ⟨x, b, rfl⟩
    have hx : isDigit x = true := h.digit
    obtain ⟨a', rfl⟩ := h.begins
    rw [takeWhile_cons, if_pos hx]
    rfl
  have hrun : numrun b < numrun a := by
    rcases h.left.trans h.right with hlt | ⟨-, hlt⟩
    · exact hlt
    · rw [hhead] at hlt
      exact absurd hlt (UInt8.lt_irrefl _)
  have hca : c.headD 0 ≠ a.headD 0 := hhead ▸ h.differs
  refine ⟨natord_of_above h.begins h.above hrun, ?_, ?_⟩
  · rw [natord_of_ne h.differs.symm, difference_neg, if_pos ⟨h.digit, h.digit'⟩]
    exact h.left
  · rw [natord_of_ne hca, difference_neg, hhead, if_pos ⟨h.digit', h.digit⟩]
    exact h.right

/-- Three strings that differ from each other at once do not go round. -/
theorem not_round (hab : a.headD 0 ≠ b.headD 0) (hbc : b.headD 0 ≠ c.headD 0)
    (hca : c.headD 0 ≠ a.headD 0) : ¬Round a b c := by
  rintro ⟨h1, h2, h3⟩
  rw [natord_of_ne hab, difference_neg] at h1
  rw [natord_of_ne hbc, difference_neg] at h2
  rw [natord_of_ne hca, difference_neg] at h3
  by_cases hdigits : isDigit (a.headD 0) = true ∧ isDigit (b.headD 0) = true ∧
    isDigit (c.headD 0) = true
  · obtain ⟨ha, hb, hc⟩ := hdigits
    rw [if_pos ⟨ha, hb⟩] at h1
    rw [if_pos ⟨hb, hc⟩] at h2
    rw [if_pos ⟨hc, ha⟩] at h3
    rcases (h1.trans h2).trans h3 with hlt | ⟨-, hlt⟩
    · exact lt_irrefl _ hlt
    · exact UInt8.lt_irrefl _ hlt
  · -- a byte that is no digit is on one side of all digits
    simp only [isDigit_iff, UInt8.lt_iff_toNat_lt] at hdigits h1 h2 h3
    split_ifs at h1 h2 h3 <;> omega

/-- Strings that are different and start with the same byte. -/
theorem exists_cons (hab : a.headD 0 = b.headD 0) (h : natord a b < 0) :
    ∃ x a' b', a = x :: a' ∧ b = x :: b' := by
  have hzero (c d : List UInt8) (hc : numrun c = 0 ∨ numrun d = 0) (hcd : c.headD 0 = d.headD 0) :
      difference c d = 0 := by
    rw [difference, if_neg (by omega), hcd, sub_self]
  cases a with
  | nil =>
    refine absurd h (not_lt.mpr (le_of_eq (Eq.symm ?_)))
    cases b <;> exact hzero _ _ (.inl rfl) hab
  | cons x a =>
    cases b with
    | nil => exact absurd h (not_lt.mpr (le_of_eq (hzero _ _ (.inr rfl) hab).symm))
    | cons y b =>
      obtain rfl : x = y := hab
      exact ⟨x, a, b, rfl, rfl⟩

lemma Tangled.cons (x : UInt8) {l m r : List UInt8} (h : Tangled l m r) :
    Tangled (x :: l) (x :: m) (x :: r) := by
  obtain ⟨u, l', m', r', rfl, rfl, rfl, hclash⟩ := h
  exact ⟨x :: u, l', m', r', rfl, rfl, rfl, hclash⟩

/-- **Strings go round exactly if they are tangled.** -/
theorem round_iff (a b c : List UInt8) :
    Round a b c ↔ Tangled a b c ∨ Tangled b c a ∨ Tangled c a b := by
  constructor
  · intro h
    have hat : ∀ {l m r : List UInt8}, Clash l m r → Tangled l m r :=
      fun h => ⟨[], _, _, _, rfl, rfl, rfl, h⟩
    induction a generalizing b c with
    | nil =>
      have hab : ([] : List UInt8).headD 0 ≠ b.headD 0 := by
        intro hab
        obtain ⟨x, a', b', ha, -⟩ := exists_cons hab h.1
        cases ha
      have hca : c.headD 0 ≠ ([] : List UInt8).headD 0 := by
        intro hca
        obtain ⟨x, c', a', -, ha⟩ := exists_cons hca h.2.2
        cases ha
      by_cases hbc : b.headD 0 = c.headD 0
      · exact .inr (.inl (hat (h.rotate.clash hbc hab)))
      · exact absurd h (not_round hab hbc hca)
    | cons x a ih =>
      by_cases hab : (x :: a).headD 0 = b.headD 0
      · by_cases hca : c.headD 0 = (x :: a).headD 0
        · -- all three start with the same byte
          obtain ⟨y, a', b', ha, rfl⟩ := exists_cons hab h.1
          obtain ⟨z, c', a'', rfl, ha'⟩ := exists_cons hca h.2.2
          obtain ⟨rfl, rfl⟩ := cons.inj ha
          obtain ⟨rfl, rfl⟩ := cons.inj ha'
          simp only [Round, natord, if_true] at h
          rcases ih b' c' h with h | h | h
          · exact .inl (h.cons x)
          · exact .inr (.inl (h.cons x))
          · exact .inr (.inr (h.cons x))
        · exact .inl (hat (h.clash hab hca))
      · by_cases hbc : b.headD 0 = c.headD 0
        · exact .inr (.inl (hat (h.rotate.clash hbc hab)))
        · by_cases hca : c.headD 0 = (x :: a).headD 0
          · exact .inr (.inr (hat (h.rotate.rotate.clash hca hbc)))
          · exact absurd h (not_round hab hbc hca)
  · have hround : ∀ {l m r : List UInt8}, Tangled l m r → Round l m r := by
      rintro l m r ⟨u, l', m', r', rfl, rfl, rfl, h⟩
      simpa only [Round, natord_append] using h.round
    rintro (h | h | h)
    · exact hround h
    · exact (hround h).rotate.rotate
    · exact (hround h).rotate

end Lists

/-! ### The result -/

section Result

variable {a b c : Str}

lemma Str.eq_of_bytes (h : a.bytes = b.bytes) : a = b := by
  cases a
  cases b
  cases h
  rfl

lemma natcmp_eq (a b : Str) : natcmp a b = natord a.bytes b.bytes :=
    natcmpAt_advance a.short b.short

lemma natcmp_swap (a b : Str) : natcmp b a = -natcmp a b := by
  rw [natcmp_eq, natcmp_eq, natord_swap]

lemma natcmp_eq_zero (a b : Str) : natcmp a b = 0 ↔ a = b := by
  rw [natcmp_eq]
  constructor
  · exact fun h => Str.eq_of_bytes (eq_of_natord a.nonzero b.nonzero h)
  · rintro rfl
    exact natord_self _

/-- **`natcmp` is an order on three strings exactly if they are not tangled.** -/
theorem ordered_iff (a b c : Str) : Ordered a b c ↔
    ¬(Tangled a.bytes b.bytes c.bytes ∨ Tangled b.bytes c.bytes a.bytes ∨
      Tangled c.bytes a.bytes b.bytes) := by
  have hswap := natcmp_swap c a
  rw [← round_iff, Round, ← natcmp_eq, ← natcmp_eq, ← natcmp_eq]
  constructor
  · rintro ⟨-, -, htrans⟩ ⟨h1, h2, h3⟩
    have := htrans h1.le h2.le
    omega
  · intro hround
    refine ⟨?_, natcmp_eq_zero a b, fun h1 h2 => ?_⟩
    · rw [natcmp_swap a b, Int.sign_neg, neg_neg]
    · by_contra h3
      refine hround ⟨lt_of_le_of_ne h1 fun h => ?_, lt_of_le_of_ne h2 fun h => ?_, by omega⟩
      · rw [(natcmp_eq_zero a b).mp h] at h3
        exact h3 h2
      · rw [← (natcmp_eq_zero b c).mp h] at h3
        exact h3 h1

/-- `12`, `1a` and `2` go round. -/
theorem not_ordered : ¬Ordered ⟨[49, 50], by decide, by decide⟩ ⟨[49, 97], by decide, by decide⟩
    ⟨[50], by decide, by decide⟩ := by
  intro h
  have h3 := h.trans (by decide) (by decide)
  exact absurd h3 (by decide)

end Result

end Minibase.Util
