import Mathlib.Algebra.Order.Ring.Nat
import Mathlib.Algebra.Order.BigOperators.Group.List
import Mathlib.Data.List.GetD
import Mathlib.Data.UInt

/-!
# The Gregorian calendar

Dates from the first of January of the year 1 on, by the rule that every fourth year is a leap year,
but not every hundredth, and then again every four-hundredth. Days are counted from the first one
(`Date.index`), month by month and year by year, and **a day has one date**
(`Date.index_inj`). How many days there are before a year is a sum, and a formula
(`daysBeforeYear_eq`).
-/

namespace Minibase

open List

variable (y : ℕ)

/-- A leap year. -/
def isLeap : Bool := y % 4 = 0 ∧ (y % 100 ≠ 0 ∨ y % 400 = 0)

/-- The months of a year, by their lengths. -/
def months : List ℕ := [31, if isLeap y then 29 else 28, 31, 30, 31, 30, 31, 31, 30, 31, 30, 31]

/-- The length of a month. -/
def monthLength (y m : ℕ) : ℕ := (months y).getD m 0

/-- The days of a year before a month. -/
def daysBeforeMonth (y m : ℕ) : ℕ := ((months y).take m).sum

/-- The days of a year. -/
def yearLength : ℕ := (months y).sum

/-- The days before a year, from the year 1 on. -/
def daysBeforeYear : ℕ := ((range (y - 1)).map fun i => yearLength (i + 1)).sum

/-- **A date**, with the months from 0 and the days from 1 on. -/
structure Date where
  year : ℕ
  month : ℕ
  day : ℕ
  year_pos : 1 ≤ year
  month_lt : month < 12
  day_pos : 1 ≤ day
  day_le : day ≤ monthLength year month

namespace Date

/-- The number of a day in its year, from 0 on. -/
def yday (d : Date) : ℕ := daysBeforeMonth d.year d.month + d.day - 1

/-- **The number of a day**, from 0 on. -/
def index (d : Date) : ℕ := daysBeforeYear d.year + d.yday

/-- The day of the week, with 0 for a Sunday. The first day of all is a Monday. -/
def weekday (d : Date) : ℕ := (d.index + 1) % 7

end Date

/-! ### Months -/

lemma yearLength_eq : yearLength y = if isLeap y then 366 else 365 := by
  rw [yearLength, months]
  split <;> rfl

lemma daysBeforeMonth_succ {m : ℕ} (h : m < 12) :
    daysBeforeMonth y (m + 1) = daysBeforeMonth y m + monthLength y m := by
  have hlen : m < (months y).length := h
  rw [daysBeforeMonth, daysBeforeMonth, monthLength, take_add_one, sum_append,
    getElem?_eq_getElem hlen, getD_eq_getElem _ 0 hlen]
  exact congrArg _ sum_singleton

lemma daysBeforeMonth_mono {m m' : ℕ} (h : m ≤ m') : daysBeforeMonth y m ≤ daysBeforeMonth y m' :=
  ((take_sublist_take_left h).sum_le_sum fun _ _ => Nat.zero_le _)

lemma daysBeforeMonth_le (y m : ℕ) : daysBeforeMonth y m ≤ yearLength y :=
  (take_sublist m _).sum_le_sum fun _ _ => Nat.zero_le _

/-! ### Years -/

lemma daysBeforeYear_succ {y : ℕ} (h : 1 ≤ y) :
    daysBeforeYear (y + 1) = daysBeforeYear y + yearLength y := by
  obtain ⟨k, rfl⟩ := Nat.exists_eq_add_of_le' h
  rw [daysBeforeYear, daysBeforeYear, Nat.add_sub_cancel, Nat.add_sub_cancel, range_succ,
    map_append, sum_append, map_singleton, sum_singleton]

lemma daysBeforeYear_mono {y y' : ℕ} (h : y ≤ y') : daysBeforeYear y ≤ daysBeforeYear y' := by
  have hsub : List.Sublist (List.range (y - 1)) (List.range (y' - 1)) :=
    range_sublist.mpr (Nat.sub_le_sub_right h 1)
  exact (hsub.map _).sum_le_sum fun _ _ => Nat.zero_le _

/-- **The days before a year**, by the rule. -/
theorem daysBeforeYear_eq (k : ℕ) : daysBeforeYear
    (k + 1) + k / 100 = 365 * k + k / 4 + k / 400 := by
  induction k with
  | zero => rfl
  | succ k ih =>
    rw [daysBeforeYear_succ (Nat.le_add_left 1 k), yearLength_eq]
    by_cases h : isLeap (k + 1) = true
    · rw [if_pos h]
      rw [isLeap, decide_eq_true_iff] at h
      omega
    · rw [if_neg h]
      rw [isLeap, decide_eq_true_iff] at h
      omega

/-! ### Dates -/

namespace Date

variable {d d' : Date}

lemma yday_lt (d : Date) : d.yday < yearLength d.year := by
  have hsucc := daysBeforeMonth_succ d.year d.month_lt
  have hle := daysBeforeMonth_le d.year (d.month + 1)
  have h1 := d.day_pos
  have h2 := d.day_le
  rw [yday]
  omega

lemma index_lt (d : Date) : d.index < daysBeforeYear (d.year + 1) := by
  rw [daysBeforeYear_succ d.year_pos, index]
  exact Nat.add_lt_add_left d.yday_lt _

lemma year_le_of_index (h : d.index ≤ d'.index) : d.year ≤ d'.year := by
  by_contra hlt
  have hmono := daysBeforeYear_mono (Nat.succ_le_of_lt (Nat.lt_of_not_le hlt))
  rw [Nat.succ_eq_add_one] at hmono
  have hlt' := d'.index_lt
  have hle : daysBeforeYear d.year ≤ d.index := Nat.le_add_right _ _
  omega

lemma month_le_of_yday (hy : d.year = d'.year) (h : d.yday ≤ d'.yday) : d.month ≤ d'.month := by
  by_contra hlt
  have hmono := daysBeforeMonth_mono d.year (Nat.succ_le_of_lt (Nat.lt_of_not_le hlt))
  rw [Nat.succ_eq_add_one] at hmono
  have hsucc := daysBeforeMonth_succ d'.year d'.month_lt
  have h1 := d.day_pos
  have h2 := d'.day_pos
  have h3 := d'.day_le
  rw [yday, yday] at h
  rw [← hy] at h h3 hsucc
  omega

/-- **A day has one date.** -/
theorem index_inj (h : d.index = d'.index) : d = d' := by
  have hy : d.year = d'.year := le_antisymm (year_le_of_index h.le) (year_le_of_index h.ge)
  have hyday : d.yday = d'.yday := by
    rw [index, index, hy] at h
    exact Nat.add_left_cancel h
  have hm : d.month = d'.month :=
    le_antisymm (month_le_of_yday hy hyday.le) (month_le_of_yday hy.symm hyday.ge)
  have hd : d.day = d'.day := by
    have h1 := d.day_pos
    have h2 := d'.day_pos
    rw [yday, yday, hy, hm] at hyday
    omega
  cases d
  cases d'
  cases hy
  cases hm
  cases hd
  rfl

end Date

end Minibase
