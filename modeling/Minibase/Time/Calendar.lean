import Mathlib.Tactic.IntervalCases
import Minibase.Lib.CInt
import Minibase.Lib.Gregorian

/-!
# Dates and timestamps

`lib/time/tv2tm.c` takes a timestamp apart, in days from the first of March 2000 on, so that a leap
day comes last; `lib/time/tm2tv.c` puts it together, by the number of leap years since 1970. Both
are compared with the calendar itself (`Date`, `Time.calendar_round_trip`). The number of days is
an `int`, and this holds up to that bound but for the day of the week, for which three days are
added to it.
-/

namespace Minibase.Time

open List Date

/-- The value of a signed 64-bit variable assigned `x`. -/
def i64 (x : ℤ) : ℤ := (x + 9223372036854775808) % 18446744073709551616 - 9223372036854775808

/-- `struct tm`. -/
structure Tm where
  sec : ℤ
  min : ℤ
  hour : ℤ
  mday : ℤ
  mon : ℤ
  year : ℤ
  wday : ℤ
  yday : ℤ
  isdst : ℤ

/-! ### From a timestamp to a date -/

/-- `LEAPOCH`: the first of March 2000. -/
def LEAPOCH : ℤ := 946684800 + 86400 * (31 + 29)

def DAYS_PER_400Y : ℤ := 365 * 400 + 97
def DAYS_PER_100Y : ℤ := 365 * 100 + 24
def DAYS_PER_4Y : ℤ := 365 * 4 + 1

variable (sec : ℤ)

/-- The first lines of `tv2tm`: days and seconds. -/
def splitDays : ℤ × ℤ :=
  let ts := i64 (sec - LEAPOCH)
  let days := i32 (ts.tdiv 86400)
  let secs := ts.tmod 86400
  if secs < 0 then (i32 (days - 1), secs + 86400) else (days, secs)

variable (days : ℤ)

/-- The day of the week in `tv2tm`. -/
def weekday : ℤ :=
  let wday := (i32 (3 + days)).tmod 7
  if wday < 0 then wday + 7 else wday

/-- The variables `qc`, `nc`, `nq`, `year` and `days` of `tv2tm`, when all years are taken off. -/
structure Years where
  qc : ℤ
  nc : ℤ
  nq : ℤ
  year : ℤ
  days : ℤ

/-- How `tv2tm` takes off years. -/
def takeYears : Years :=
  let qc := days.tdiv DAYS_PER_400Y
  let days := days.tmod DAYS_PER_400Y
  let qc' := if days < 0 then qc - 1 else qc
  let days := if days < 0 then days + DAYS_PER_400Y else days
  let nc := if days.tdiv DAYS_PER_100Y = 4 then days.tdiv DAYS_PER_100Y -
    1 else days.tdiv DAYS_PER_100Y
  let days := days - nc * DAYS_PER_100Y
  let nq := if days.tdiv DAYS_PER_4Y = 25 then days.tdiv DAYS_PER_4Y - 1 else days.tdiv DAYS_PER_4Y
  let days := days - nq * DAYS_PER_4Y
  let year := if days.tdiv 365 = 4 then days.tdiv 365 - 1 else days.tdiv 365
  ⟨qc', nc, nq, year, days - year * 365⟩

def Years.leap (y : Years) : ℤ := if y.year = 0 ∧ (y.nq ≠ 0 ∨ y.nc = 0) then 1 else 0

def Years.yday (y : Years) : ℤ :=
  let yday := y.days + 31 + 28 + y.leap
  if 365 + y.leap ≤ yday then yday - (365 + y.leap) else yday

/-- `year`, from 2000 on. -/
def Years.total (y : Years) : ℤ := y.year + 4 * y.nq + 100 * y.nc + 400 * y.qc

/-- `mdays` of `tv2tm`, from March on. -/
def marchDays : List ℤ := [31, 30, 31, 30, 31, 31, 30, 31, 30, 31, 31, 29]

/-- The loop of `tv2tm`, over what is left of `mdays`. -/
def takeMonths : List ℤ → ℤ → ℤ → ℤ × ℤ
  | [], mon, days => (mon, days)
  | m :: mdays, mon, days => if m ≤ days then takeMonths mdays (mon + 1) (days - m) else (mon, days)

def tv2tm : Tm :=
  let (days, secs) := splitDays sec
  let y := takeYears days
  let (mon, rest) := takeMonths marchDays 0 y.days
  { sec := secs.tmod 60
    min := (secs.tdiv 60).tmod 60
    hour := ((secs.tdiv 60).tdiv 60).tmod 24
    mday := rest + 1
    mon := if 12 ≤ mon + 2 then mon + 2 - 12 else mon + 2
    year := if 12 ≤ mon + 2 then y.total + 100 + 1 else y.total + 100
    wday := weekday days
    yday := y.yday
    isdst := 0 }

/-! ### From a date to a timestamp -/

/-- `mdays` of `tm2tv`. -/
def mdays : List ℤ := [31, 28, 31, 30, 31, 30, 31, 31, 30, 31, 30, 31]

/-- `tm2tv`. What is multiplied with the days of a year is an `int`, and what comes after it is
not. -/
def tm2tv (tm : Tm) : ℤ :=
  let year := i32 (tm.year + 1900)
  let ts := i32 (i32 (year - 1970) * 365)
  let year := if tm.mon < 2 then i32 (year - 1) else year
  let leapsTo1970 : ℤ := (1970 : ℤ).tdiv 4 - (1970 : ℤ).tdiv 100 + (1970 : ℤ).tdiv 400
  let leapsToYear := year.tdiv 4 - year.tdiv 100 + year.tdiv 400
  let ts := ts + (leapsToYear - leapsTo1970)
  let ts := (mdays.take tm.mon.toNat).foldl (· + ·) ts
  let ts := ts + (tm.mday - 1)
  let ts := ts * 24 + tm.hour
  let ts := ts * 60 + tm.min
  ts * 60 + tm.sec

/-! ### What is meant -/

/-- **A point in time**: a date, and the time of day. -/
structure Civil extends Date where
  hour : ℕ
  min : ℕ
  sec : ℕ
  hour_lt : hour < 24
  min_lt : min < 60
  sec_lt : sec < 60

/-- The timestamp of a point in time. The first day of 1970 has the number 719162. -/
def Civil.seconds (c : Civil) : ℤ :=
  ((c.index : ℤ) - 719162) * 86400 + (c.hour * 3600 + c.min * 60 + c.sec)

/-- The fields of a `struct tm` that say which time it is. -/
structure Tm.Is (tm : Tm) (c : Civil) : Prop where
  year : tm.year + 1900 = c.year
  mon : tm.mon = c.month
  mday : tm.mday = c.day
  hour : tm.hour = c.hour
  min : tm.min = c.min
  sec : tm.sec = c.sec

/-- **A timestamp that is turned into its date**, with the right day of the week and of the year,
and back into itself. -/
def RoundTrip : Prop :=
  (∃ c : Civil, c.seconds = sec ∧ (tv2tm sec).Is c ∧ (tv2tm sec).wday = c.weekday ∧
    (tv2tm sec).yday = c.yday) ∧ tm2tv (tv2tm sec) = sec

/-- The days since the first of March 2000, which `tv2tm` counts in an `int`. -/
def dayNumber : ℤ := (sec - LEAPOCH) / 86400

/-- A timestamp that is in the year 1 or later, and the number of its day fits. -/
def InRange : Prop := -719162 ≤ sec / 86400 ∧ dayNumber sec ≤ 2147483647

/-! ### Division -/

/-- Division that is corrected afterwards rounds down. -/
theorem tmod_corrected (x : ℤ) {k : ℤ} (hk : 0 < k) :
    (if x.tmod k < 0 then x.tdiv k - 1 else x.tdiv k) = x / k ∧
      (if x.tmod k < 0 then x.tmod k + k else x.tmod k) = x % k := by
  have hlow := Int.emod_nonneg x hk.ne'
  have hhigh := Int.emod_lt_of_pos x hk
  rw [Int.tmod_eq_emod, Int.tdiv_eq_ediv, Int.sign_eq_one_of_pos hk]
  by_cases hx : 0 ≤ x ∨ k ∣ x
  · rw [if_pos hx, if_pos hx, if_neg (by omega), if_neg (by omega)]
    omega
  · rw [if_neg hx, if_neg hx, if_pos (by omega), if_pos (by omega)]
    omega

lemma weekday_eq : weekday days = i32 (3 + days) % 7 := by
  rw [weekday]
  exact (tmod_corrected (i32 (3 + days)) (by decide)).2

/-- Days and seconds, where the number of days fits. -/
theorem splitDays_eq {sec : ℤ} (h : InRange sec) :
    splitDays sec = (dayNumber sec, sec % 86400) := by
  obtain ⟨hlow, hhigh⟩ := h
  rw [dayNumber, LEAPOCH] at hhigh
  have hepoch : (sec - LEAPOCH) % 86400 = sec % 86400 := by
    rw [LEAPOCH]
    omega
  have hts : i64 (sec - LEAPOCH) = sec - LEAPOCH := by
    rw [i64, LEAPOCH]
    omega
  obtain ⟨hdiv, hmod⟩ := tmod_corrected (sec - LEAPOCH) (k := 86400) (by decide)
  have hneg : (sec - LEAPOCH).tmod 86400 < 0 → sec - LEAPOCH < 0 := fun h =>
    by_contra fun hn => absurd (Int.tmod_nonneg 86400 (not_lt.mp hn)) (not_le.mpr h)
  have hfit : i32 ((sec - LEAPOCH).tdiv 86400) = (sec - LEAPOCH).tdiv 86400 := by
    rw [LEAPOCH] at hdiv hneg ⊢
    split_ifs at hdiv with hsign
    · have := hneg hsign
      exact i32_of_range (by omega) (by omega)
    · exact i32_of_range (by omega) (by omega)
  have hfit' : i32 ((sec - LEAPOCH) / 86400) = (sec - LEAPOCH) / 86400 := by
    rw [LEAPOCH]
    exact i32_of_range (by omega) (by omega)
  simp only [splitDays, hts, hfit]
  rw [← hepoch, dayNumber, ← hdiv, ← hmod]
  split
  case isTrue hneg =>
    rw [if_pos hneg] at hdiv
    rw [hdiv, hfit']
  case isFalse => rfl

/-! ### Years -/

/-- **Taking off years**: what is left over, and how much there can be of everything. -/
structure Taken (days : ℤ) (y : Years) : Prop where
  sum : days = 146097 * y.qc + 36524 * y.nc + 1461 * y.nq + 365 * y.year + y.days
  nc : 0 ≤ y.nc ∧ y.nc ≤ 3
  nq : 0 ≤ y.nq ∧ y.nq ≤ 24
  year : 0 ≤ y.year ∧ y.year ≤ 3
  days : 0 ≤ y.days ∧ y.days ≤ 365
  -- a leap day is the last one of four years, unless these are the last ones of a century
  last : y.days = 365 → y.year = 3 ∧ (y.nq = 24 → y.nc = 3)

lemma taken_takeYears : Taken days (takeYears days) := by
  obtain ⟨hqc, hdays⟩ := tmod_corrected days (k := 146097) (by decide)
  have hnonneg : ∀ {x k : ℤ}, 0 ≤ x → x.tdiv k = x / k := fun h => Int.tdiv_eq_ediv_of_nonneg h
  have h400 : DAYS_PER_400Y = 146097 := rfl
  have h100 : DAYS_PER_100Y = 36524 := rfl
  have h4 : DAYS_PER_4Y = 1461 := rfl
  simp only [takeYears, h400, h100, h4, hqc, hdays]
  have hd := Int.emod_nonneg days (b := 146097) (by decide)
  have hd' := Int.emod_lt_of_pos days (b := 146097) (by decide)
  have hsum := Int.mul_ediv_add_emod days 146097
  generalize days / 146097 = qc at hsum ⊢
  generalize days % 146097 = d at hd hd' hsum ⊢
  rw [hnonneg hd]
  obtain ⟨nc, hnc⟩ : ∃ nc, (if d / 36524 = 4 then d / 36524 - 1 else d / 36524) = nc := ⟨_, rfl⟩
  have hd1 : 0 ≤ d - nc * 36524 ∧ 0 ≤ nc ∧ nc ≤ 3 ∧ d - nc * 36524 ≤ 36524 ∧
      (d - nc * 36524 = 36524 → nc = 3) := by
    rw [← hnc]
    split_ifs <;> omega
  rw [hnc]
  generalize hd1' : d - nc * 36524 = d1 at hd1 ⊢
  rw [hnonneg hd1.1]
  obtain ⟨nq, hnq⟩ : ∃ nq, (if d1 / 1461 = 25 then d1 / 1461 - 1 else d1 / 1461) = nq := ⟨_, rfl⟩
  have hd2 : 0 ≤ d1 - nq * 1461 ∧ 0 ≤ nq ∧ nq ≤ 24 ∧ d1 - nq * 1461 ≤ 1460 ∧
      (d1 - nq * 1461 = 1460 → nq = 24 → d1 = 36524) := by
    rw [← hnq]
    split_ifs <;> omega
  rw [hnq]
  generalize hd2' : d1 - nq * 1461 = d2 at hd2 ⊢
  rw [hnonneg hd2.1]
  obtain ⟨yr, hyr⟩ : ∃ yr, (if d2 / 365 = 4 then d2 / 365 - 1 else d2 / 365) = yr := ⟨_, rfl⟩
  have hd3 : 0 ≤ d2 - yr * 365 ∧ 0 ≤ yr ∧ yr ≤ 3 ∧ d2 - yr * 365 ≤ 365 ∧
      (d2 - yr * 365 = 365 → d2 = 1460 ∧ yr = 3) := by
    rw [← hyr]
    split_ifs <;> omega
  rw [hyr]
  refine ⟨?_, ?_, ?_, ?_, ?_, ?_⟩
  all_goals dsimp only
  all_goals omega

/-! ### Months -/

lemma takeMonths_spec (ms : List ℤ) (mon : ℤ) {days : ℤ} (h : 0 ≤ days) :
    ∃ j, j ≤ ms.length ∧ takeMonths ms mon days = (mon + j, days - (ms.take j).sum) ∧
      (ms.take j).sum ≤ days ∧ (j < ms.length → days < (ms.take (j + 1)).sum) := by
  induction ms generalizing mon days with
  | nil => exact ⟨0, le_rfl, by simp [takeMonths], h, fun h0 => absurd h0 (lt_irrefl 0)⟩
  | cons m ms ih =>
    rw [takeMonths]
    split
    case isTrue hm =>
      obtain ⟨j, hj, heq, hle, hlt⟩ := ih (mon + 1) (sub_nonneg.mpr hm)
      refine ⟨j + 1, Nat.succ_le_succ hj, ?_, ?_, fun hj' => ?_⟩
      · rw [heq, take_succ_cons, sum_cons]
        refine Prod.ext ?_ ?_
        · push_cast
          omega
        · dsimp only
          omega
      · rw [take_succ_cons, sum_cons]
        omega
      · have := hlt (Nat.lt_of_succ_lt_succ hj')
        rw [take_succ_cons, sum_cons]
        omega
    case isFalse hm =>
      refine ⟨0, Nat.zero_le _, by simp, h, fun _ => ?_⟩
      rw [take_succ_cons, take_zero, sum_cons, sum_nil, add_zero]
      exact not_le.mp hm

/-- The months from March on, in their year. -/
theorem daysBeforeMonth_march (y : ℕ) {j : ℕ} (h : j < 10) :
    (daysBeforeMonth y (j + 2) : ℤ) = 59 + (if isLeap y then 1 else 0) + (marchDays.take j).sum ∧
      (monthLength y (j + 2) : ℤ) = (marchDays.take (j + 1)).sum - (marchDays.take j).sum := by
  rw [daysBeforeMonth, monthLength, months]
  cases isLeap y <;> interval_cases j <;> exact ⟨rfl, rfl⟩

/-- January and February come after them. -/
theorem daysBeforeMonth_january (y : ℕ) {j : ℕ} (h : j < 2) :
    (daysBeforeMonth y j : ℤ) = (marchDays.take (j + 10)).sum - 306 ∧
      (monthLength y j : ℤ) = (marchDays.take (j + 11)).sum - (marchDays.take (j + 10)).sum -
        (if isLeap y = true ∨ j = 0 then 0 else 1) := by
  rw [daysBeforeMonth, monthLength, months]
  cases isLeap y <;> interval_cases j <;> exact ⟨rfl, rfl⟩

/-! ### Dates -/

/-- The date that `tv2tm` finds for a number of days. -/
structure Finds (days : ℤ) (d : Date) : Prop where
  index : (d.index : ℤ) = days + 730179
  year : (if 12 ≤ (takeMonths marchDays 0 (takeYears days).days).1 + 2 then
    (takeYears days).total + 100 + 1
    else (takeYears days).total + 100) + 1900 = d.year
  month : (if 12 ≤ (takeMonths marchDays 0 (takeYears days).days).1 + 2 then
      (takeMonths marchDays 0 (takeYears days).days).1 + 2 - 12
    else (takeMonths marchDays 0 (takeYears days).days).1 + 2) = d.month
  day : (takeMonths marchDays 0 (takeYears days).days).2 + 1 = d.day
  yday : (takeYears days).yday = d.yday

/-- Where a year is among the leap years. -/
theorem Taken.isLeap {days : ℤ} {y : Years} (h : Taken days y) {Y : ℕ}
    (hY : (Y : ℤ) = 2000 + y.total) :
    (isLeap Y = true ↔ y.year = 0 ∧ (y.nq ≠ 0 ∨ y.nc = 0)) ∧
      (y.days = 365 → isLeap (Y + 1) = true) ∧
      (daysBeforeYear (Y + 1) : ℤ) = days + 730179 + 306 - y.days := by
  obtain ⟨hsum, hnc, hnq, hyear, hdays, hlast⟩ := h
  have hformula := daysBeforeYear_eq Y
  rw [Years.total] at hY
  rw [Minibase.isLeap, Minibase.isLeap, decide_eq_true_iff, decide_eq_true_iff]
  refine ⟨?_, ?_, ?_⟩
  · omega
  · omega
  · omega

/-- **The date is found**, from the year 1 on. -/
theorem exists_finds {days : ℤ} (h : -730179 ≤ days) : ∃ d, Finds days d := by
  have htaken := taken_takeYears days
  obtain ⟨Y, hY⟩ : ∃ Y : ℕ, (Y : ℤ) = 2000 + (takeYears days).total := by
    refine ⟨(2000 + (takeYears days).total).toNat, Int.toNat_of_nonneg ?_⟩
    obtain ⟨hsum, hnc, hnq, hyear, hdays, -⟩ := htaken
    rw [Years.total]
    omega
  obtain ⟨hleap, hleap', hbefore⟩ := htaken.isLeap hY
  obtain ⟨j, hj, hmonths, hle, hlt⟩ := takeMonths_spec marchDays 0 htaken.days.1
  have hj : j < 12 := by
    refine lt_of_le_of_ne hj ?_
    rintro rfl
    have h366 : (marchDays.take 12).sum = 366 := rfl
    have := htaken.days.2
    omega
  have hlt := hlt hj
  have hyday : (takeYears days).yday = if 306 ≤ (takeYears days).days then
    (takeYears days).days - 306
      else (takeYears days).days + 59 + (if isLeap Y = true then 1 else 0) := by
    have hl : (takeYears days).leap = if isLeap Y = true then 1 else 0 :=
      if_congr hleap.symm rfl rfl
    rw [Years.yday, hl]
    split_ifs <;> omega
  by_cases hmarch : j < 10
  · -- from March on
    obtain ⟨hdays, hlen⟩ := daysBeforeMonth_march Y hmarch
    have hend : ∀ j < 10, (marchDays.take (j + 1)).sum ≤ 306 := by decide
    have hend := hend j hmarch
    have hpos : 1 ≤ Y := by
      by_contra h0
      obtain rfl : Y = 0 := by omega
      have hzero : daysBeforeYear (0 + 1) = 0 := rfl
      rw [hzero] at hbefore
      omega
    obtain ⟨r, hr⟩ := Int.eq_ofNat_of_zero_le (sub_nonneg.mpr hle)
    have hyear := daysBeforeYear_succ hpos
    rw [yearLength_eq] at hyear
    refine ⟨⟨Y, j + 2, r + 1, hpos, by omega, Nat.le_add_left 1 r, by omega⟩, ?_, ?_, ?_, ?_, ?_⟩
    · rw [index, yday]
      dsimp only
      split_ifs at hyear hdays <;> omega
    · rw [hmonths, if_neg (by dsimp only; omega)]
      dsimp only
      omega
    · rw [hmonths, if_neg (by dsimp only; omega)]
      push_cast
      omega
    · rw [hmonths]
      dsimp only
      rw [hr]
      rfl
    · rw [hyday, if_neg (by omega), yday]
      dsimp only
      omega
  · -- January and February, of the next year
    obtain ⟨i, rfl⟩ := Nat.exists_eq_add_of_le' (Nat.le_of_not_lt hmarch)
    replace hlt : (takeYears days).days < (marchDays.take (i + 11)).sum := hlt
    obtain ⟨hdays, hlen⟩ := daysBeforeMonth_january (Y + 1) (show i < 2 by omega)
    have hstart : ∀ i < 2, 306 ≤ (marchDays.take (i + 10)).sum := by decide
    have hstart := hstart i (by omega)
    obtain ⟨r, hr⟩ := Int.eq_ofNat_of_zero_le (sub_nonneg.mpr hle)
    have hlast : ∀ i < 2, i ≠ 0 → (marchDays.take (i + 11)).sum = 366 := by decide
    have hlast := hlast i (by omega)
    have hfeb := htaken.days.2
    refine ⟨⟨Y + 1, i, r + 1, by omega, by omega, Nat.le_add_left 1 r, ?_⟩, ?_, ?_, ?_, ?_, ?_⟩
    · split_ifs at hlen with hlong
      · omega
      · -- the last day of a February that is not there in this year
        obtain ⟨hnot, h0⟩ := not_or.mp hlong
        have hno : (takeYears days).days ≠ 365 := fun h => hnot (hleap' h)
        have := hlast h0
        omega
    · rw [index, yday]
      dsimp only
      omega
    · rw [hmonths, if_pos (by dsimp only; omega)]
      dsimp only
      omega
    · rw [hmonths, if_pos (by dsimp only; omega)]
      push_cast
      omega
    · rw [hmonths]
      dsimp only
      rw [hr]
      rfl
    · rw [hyday, if_pos (by omega), yday]
      dsimp only
      omega

/-! ### The result -/

/-- **A timestamp is of one point in time.** -/
theorem Civil.seconds_inj {c c' : Civil} (h : c.seconds = c'.seconds) : c = c' := by
  have h1 := c.hour_lt
  have h2 := c.min_lt
  have h3 := c.sec_lt
  have h1' := c'.hour_lt
  have h2' := c'.min_lt
  have h3' := c'.sec_lt
  rw [Civil.seconds, Civil.seconds] at h
  have hdate : c.toDate = c'.toDate := index_inj (by omega)
  rw [hdate] at h
  have hhour : c.hour = c'.hour := by omega
  have hmin : c.min = c'.min := by omega
  have hsec : c.sec = c'.sec := by omega
  cases c
  cases c'
  cases hdate
  cases hhour
  cases hmin
  cases hsec
  rfl

/-- **What `tv2tm` makes of a timestamp.** -/
theorem exists_civil {sec : ℤ} (h : InRange sec) :
    ∃ c : Civil, c.seconds = sec ∧ (tv2tm sec).Is c ∧ (tv2tm sec).yday = c.yday ∧
      (tv2tm sec).wday = i32 (3 + dayNumber sec) % 7 ∧ (c.index : ℤ) = dayNumber sec + 730179 := by
  have hnum : -730179 ≤ dayNumber sec := by
    have := h.1
    rw [dayNumber, LEAPOCH]
    omega
  obtain ⟨d, hindex, hyear, hmonth, hday, hyday⟩ := exists_finds hnum
  have hsec := Int.emod_nonneg sec (b := 86400) (by decide)
  have hsec' := Int.emod_lt_of_pos sec (b := 86400) (by decide)
  have hseconds : (dayNumber sec + 730179 - 719162) * 86400 + sec % 86400 = sec := by
    rw [dayNumber, LEAPOCH]
    omega
  obtain ⟨s, hs⟩ := Int.eq_ofNat_of_zero_le hsec
  rw [hs] at hseconds hsec'
  refine ⟨⟨d, s / 60 / 60, s / 60 % 60, s % 60, by omega, by omega, by omega⟩, ?_, ?_, ?_, ?_,
    hindex⟩
  · rw [Civil.seconds]
    dsimp only
    omega
  · simp only [tv2tm, splitDays_eq h, hs]
    have hmin : (s : ℤ).tdiv 60 = ((s / 60 : ℕ) : ℤ) := rfl
    have hhour : (((s / 60 : ℕ) : ℤ).tdiv 60).tmod 24 = ((s / 60 / 60 % 24 : ℕ) : ℤ) := rfl
    refine ⟨hyear, hmonth, hday, ?_, ?_, rfl⟩
    · dsimp only
      rw [hmin, hhour, Nat.mod_eq_of_lt (by omega)]
    · dsimp only
      rw [hmin]
      rfl
  · simp only [tv2tm, splitDays_eq h]
    exact hyday
  · simp only [tv2tm, splitDays_eq h]
    exact weekday_eq _

lemma foldl_add (l : List ℤ) (a : ℤ) : l.foldl (· + ·) a = a + l.sum := by
  induction l generalizing a with
  | nil => exact (add_zero a).symm
  | cons x l ih => rw [foldl_cons, ih, sum_cons, add_assoc]

/-- The months before one in `mdays`, where February has 28 days. -/
theorem daysBeforeMonth_mdays (y : ℕ) {m : ℕ} (h : m < 12) :
    (daysBeforeMonth y m : ℤ) = (mdays.take m).sum + if 2 ≤ m ∧ isLeap y = true then 1 else 0 := by
  rw [daysBeforeMonth, months]
  cases isLeap y <;> interval_cases m <;> rfl

/-- The leap years that `tm2tv` counts: those before the year of the date, and this one from March
on. -/
theorem tdiv_leaps (k m : ℕ) :
    (if (m : ℤ) < 2 then (k : ℤ) else k + 1).tdiv 4 - (if (m : ℤ) < 2 then (k : ℤ) else k + 1).tdiv
      100 +
      (if (m : ℤ) < 2 then (k : ℤ) else k + 1).tdiv 400 =
        (k / 4 : ℕ) - (k / 100 : ℕ) + (k / 400 : ℕ) +
        if 2 ≤ m ∧ isLeap (k + 1) = true then 1 else 0 := by
  have hleap : isLeap (k + 1) = true ↔ (k + 1) % 4 = 0 ∧
    ((k + 1) % 100 ≠ 0 ∨ (k + 1) % 400 = 0) := by
    rw [isLeap, decide_eq_true_iff]
  have hnat (n : ℕ) : ((n : ℤ).tdiv 4 - (n : ℤ).tdiv 100 + (n : ℤ).tdiv 400) =
      (n / 4 : ℕ) - (n / 100 : ℕ) + (n / 400 : ℕ) := rfl
  by_cases hm : m < 2
  · rw [if_pos (by omega), if_neg (by omega), hnat, add_zero]
  · rw [if_neg (by omega)]
    refine (hnat (k + 1)).trans ?_
    by_cases hl : isLeap (k + 1) = true
    · rw [if_pos ⟨not_lt.mp hm, hl⟩]
      have := hleap.mp hl
      omega
    · rw [if_neg fun h => hl h.2]
      have := hleap.not.mp hl
      omega

/-- **What `tm2tv` makes of a date.** -/
theorem tm2tv_eq {c : Civil} {tm : Tm} (h : InRange c.seconds) (hc : tm.Is c) :
    tm2tv tm = c.seconds := by
  obtain ⟨hyear, hmon, hmday, hhour, hmin, hsec⟩ := hc
  obtain ⟨k, hk⟩ := Nat.exists_eq_add_of_le' c.year_pos
  have hbefore := daysBeforeYear_eq k
  have hmonth := daysBeforeMonth_mdays c.year c.month_lt
  have hday := c.day_pos
  have hindex : c.index = daysBeforeYear (k + 1) + daysBeforeMonth c.year c.month + c.day - 1 := by
    rw [index, yday, hk]
    omega
  have hbound : 365 * k + k / 4 + k / 400 ≤ 2148213826 + k / 100 := by
    have hrange := h.2
    have h1 := c.hour_lt
    have h2 := c.min_lt
    have h3 := c.sec_lt
    rw [dayNumber, LEAPOCH, Civil.seconds] at hrange
    omega
  have hyear' : i32 (tm.year + 1900) = k + 1 := by
    rw [hyear, hk]
    push_cast
    exact i32_of_range (by omega) (by omega)
  have hts : i32 (i32 ((k : ℤ) + 1 - 1970) * 365) = (k + 1 - 1970) * 365 := by
    rw [i32_of_range (x := (k : ℤ) + 1 - 1970) (by omega) (by omega)]
    exact i32_of_range (by omega) (by omega)
  have hprev : i32 ((k : ℤ) + 1 - 1) = k := by
    rw [add_sub_cancel_right]
    exact i32_of_range (by omega) (by omega)
  have htoNat : tm.mon.toNat = c.month := by
    rw [hmon]
    rfl
  have h1970 : (1970 : ℤ).tdiv 4 - (1970 : ℤ).tdiv 100 + (1970 : ℤ).tdiv 400 = 477 := rfl
  simp only [tm2tv, hyear', hts, hprev, foldl_add, htoNat, h1970]
  rw [hmon, tdiv_leaps k c.month, hmday, hhour, hmin, hsec, Civil.seconds]
  rw [hk] at hmonth hindex
  split_ifs at hmonth ⊢ <;> omega

/-- The day of the week is right if three more days can be added: what is left of the sum otherwise
is four days of the week away from it. -/
theorem weekday_iff {n : ℤ} (h : 0 ≤ n + 730179) (h' : n ≤ 2147483647) :
    i32 (3 + n) % 7 = (n + 730179 + 1) % 7 ↔ n + 3 ≤ 2147483647 := by
  by_cases hfit : n + 3 ≤ 2147483647
  · rw [i32_of_range (by omega) (by omega)]
    exact iff_of_true (by omega) hfit
  · have hover : i32 (3 + n) = n - 4294967293 := by
      unfold i32
      omega
    rw [hover]
    exact iff_of_false (by omega) hfit

/-- **When a timestamp is turned into its date and back.** -/
theorem roundTrip_iff {sec : ℤ} (h : InRange sec) : RoundTrip sec ↔
    dayNumber sec + 3 ≤ 2147483647 := by
  obtain ⟨c, hsec, his, hyday, hwday, hindex⟩ := exists_civil h
  have hweek : (c.weekday : ℤ) = (dayNumber sec + 730179 + 1) % 7 := by
    rw [Date.weekday, Int.natCast_mod, Nat.cast_add, hindex]
    rfl
  have hiff := weekday_iff (hindex ▸ Int.natCast_nonneg _) h.2
  rw [← hwday, ← hweek] at hiff
  rw [← hiff]
  constructor
  · rintro ⟨⟨c', hsec', -, hwday', -⟩, -⟩
    rwa [Civil.seconds_inj (hsec'.trans hsec.symm)] at hwday'
  · intro hright
    have hback : tm2tv (tv2tm sec) = c.seconds := tm2tv_eq (hsec.symm ▸ h) his
    exact ⟨⟨c, hsec, his, hright, hyday⟩, hback.trans hsec⟩

/-- **A date is turned into its timestamp and back.** -/
theorem restored {c : Civil} {tm : Tm} (h : InRange c.seconds) (htm : tm.Is c) :
    (tv2tm (tm2tv tm)).Is c := by
  obtain ⟨c', hseconds, his, -⟩ := exists_civil h
  rw [tm2tv_eq h htm, ← Civil.seconds_inj hseconds, hseconds]
  exact his

/-- **Timestamps and dates are turned into each other**, as long as the number of days fits; only
the day of the week is wrong if there are not three more days to add. -/
theorem calendar_round_trip (sec : ℤ) (c : Civil) (tm : Tm) :
    (InRange sec → (RoundTrip sec ↔ dayNumber sec + 3 ≤ 2147483647)) ∧
      (-719162 ≤ sec / 86400 → sec / 86400 ≤ 2147483647 → RoundTrip sec) ∧
      (InRange c.seconds → tm.Is c → (tv2tm (tm2tv tm)).Is c) := by
  refine ⟨fun h => roundTrip_iff h, fun h1 h2 => ?_, fun h htm => restored h htm⟩
  have hday : dayNumber sec = sec / 86400 - 11017 := by
    rw [dayNumber, LEAPOCH]
    omega
  exact (roundTrip_iff ⟨h1, by omega⟩).mpr (by omega)

/-- The start of 1970, the last day that is numbered, and the first one of all. -/
theorem calendar_round_trip_days :
    RoundTrip 0 ∧ ¬RoundTrip (946684800 + 86400 * 60 + 86400 * 2147483647) ∧
      (tv2tm (tm2tv ⟨0, 0, 0, 1, 0, -1899, 0, 0, 0⟩)).Is
        ⟨⟨1, 0, 1, by decide, by decide, by decide, by decide⟩, 0, 0,
          0, by decide, by decide, by decide⟩ := by
  obtain ⟨-, hnear, hfirst⟩ := calendar_round_trip 0
    ⟨⟨1, 0, 1, by decide, by decide, by decide, by decide⟩, 0, 0,
      0, by decide, by decide, by decide⟩
    ⟨0, 0, 0, 1, 0, -1899, 0, 0, 0⟩
  obtain ⟨hlast, -, -⟩ := calendar_round_trip (946684800 + 86400 * 60 + 86400 * 2147483647)
    ⟨⟨1, 0, 1, by decide, by decide, by decide, by decide⟩, 0, 0,
      0, by decide, by decide, by decide⟩
    ⟨0, 0, 0, 1, 0, -1899, 0, 0, 0⟩
  refine ⟨hnear (by decide) (by decide), fun h => ?_, ?_⟩
  · exact absurd ((hlast ⟨by decide, by decide⟩).mp h) (by decide)
  · exact hfirst ⟨by decide, by decide⟩ ⟨rfl, rfl, rfl, rfl, rfl, rfl⟩

/-- The last day that is numbered is a Thursday, and said to be a Sunday. -/
theorem wrong_weekday : ¬RoundTrip (946684800 + 86400 * 60 + 86400 * 2147483647) := by
  rw [roundTrip_iff ⟨by decide, by decide⟩]
  decide

end Minibase.Time
