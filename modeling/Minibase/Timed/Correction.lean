import Mathlib.Algebra.Order.Group.Abs
import Mathlib.Algebra.Order.Ring.Int
import Minibase.Timed.Sound

/-!
# Corrections of the clock

What `consider_synching` does about an interval `lo`, `hi` in which the clock is off. If zero is
not in it the clock is corrected, by the distance of the interval from zero and half the round
trip time of the server (`Timed.offset`); small corrections are left out, large ones are
steps, and the interval between polls goes with the size of the correction (`Timed.Lawful`).

This law has two exceptions (`Timed.lawful_iff`). The threshold from which the interval is
started over is written `1<<31`, which is the least `int`, so that it is started over with every
correction. And if the two ends of the interval are so far apart that their difference comes
round, then what is added to one of them may do so as well.
-/

namespace Minibase.Timed

open List Option Int64

/-! ### What is asked of a correction -/

/-- The four times of an exchange: request and answer, each where it is sent and where it comes
in. -/
structure Exchange where
  T1 : UInt64
  T2 : UInt64
  T3 : UInt64
  T4 : UInt64

/-- `lo` in `handle_packet`. -/
def Exchange.lo (x : Exchange) : Int64 := (x.T1 - x.T2).toInt64

/-- `hi` in `handle_packet`. -/
def Exchange.hi (x : Exchange) : Int64 := (x.T4 - x.T3).toInt64

/-- `rtt` in `add_poll_point`, where it ends up in 32 bits. -/
def Exchange.rtt (x : Exchange) : UInt32 :=
  if x.hi - x.lo < 0 then 0
  else if x.hi - x.lo > 0xFFFFFFFF then 0xFFFFFFFF
  else (x.hi - x.lo).toUInt64.toUInt32

/-- **An exchange has been stored**: its interval, and a round trip time of the server that is not
longer. -/
structure Stored (ctx : Top) (sv : Serv) (x : Exchange) : Prop where
  lo : ctx.lo = x.lo
  hi : ctx.hi = x.hi
  rtt : sv.rtt ≤ x.rtt

/-- `dt` of `consider_synching`, if it gets there. -/
def offset (ctx : Top) (sv : Serv) : Option Int64 :=
  let bound : Int64 := (sv.rtt / 2).toUInt64.toInt64
  if ctx.lo > 0 then some (-(ctx.lo + bound))
  else if ctx.hi < 0 then some (-(ctx.hi - bound))
  else none

/-- The distance of an interval from zero. -/
def distance (lo hi : ℤ) : ℤ := if 0 < lo then lo else if hi < 0 then -hi else 0

/-- The signed numbers that are computed on the way to a correction by `dt`, and from there on. -/
def valuesOf (dt : ℤ) : List ℤ :=
  [-dt, dt, |dt|] ++ if 2 ^ 22 ≤ |dt| ∧ |dt| < 2 ^ 31 then [dt * 1000000000] else []

/-- The signed numbers that `consider_synching` computes. -/
def values (lo hi half : ℤ) : List ℤ :=
  if 0 < lo then valuesOf (-(lo + half)) else if hi < 0 then valuesOf (-(hi - half)) else []

/-- The interval after a correction of this size. -/
def nextInterval (size : ℤ) (ival : UInt32) : UInt32 :=
  if 2 ^ 31 ≤ size then 1024
  else if 2 ^ 29 ≤ size then if ival = 0 then 1024 else if ival > 1024 then ival / 2 else ival
  else if ival = 0 then 1024 else if ival < 4096 then ival * 2 else ival

/-- One of the intervals there are. -/
def Polling (ival : UInt32) : Prop := ival = 1024 ∨ ival = 2048 ∨ ival = 4096

/-- The clock is told to step, by an offset that is in parts of `2 ^ 32` of a second, to within a
nanosecond. -/
def StepsBy (dt : ℤ) (tmx : Timex) : Prop :=
  ∃ sec nsec, tmx = .step sec nsec ∧
    |dt * 1000000000 - (sec.toInt * 1000000000 + nsec.toNat) * 2 ^ 32| < 2 ^ 32

/-- The clock is told to run faster or slower. -/
def Slews (tmx : Timex) : Prop := ∃ off const, tmx = .slew off const

/-- **A correction** of the clock. -/
structure Corrected (ctx : Top) (sv : Serv) (dt : ℤ) (ctx' : Top) : Prop where
  /-- It brings zero into the interval, and goes no further than it is meant to. -/
  overlap : ctx.lo.toInt ≤ ctx.hi.toInt → ctx.lo.toInt + dt ≤ 0 ∧ 0 ≤ ctx.hi.toInt + dt ∧
    distance ctx.lo.toInt ctx.hi.toInt ≤ |dt| ∧
      |dt| ≤ distance ctx.lo.toInt ctx.hi.toInt + (sv.rtt.toNat / 2 : ℕ)
  small : |dt| < 2 ^ 22 → ctx'.clock = ctx.clock
  slew : 2 ^ 22 ≤ |dt| → |dt| < 2 ^ 31 → ∃ tmx, Slews tmx ∧ ctx'.clock = tmx :: ctx.clock
  step : 2 ^ 31 ≤ |dt| → ∃ tmx, StepsBy dt tmx ∧ ctx'.clock = tmx :: ctx.clock
  interval : ctx'.interval = nextInterval |dt| ctx.interval

/-- **The law of corrections.** -/
structure Lawful (ctx : Top) (sv : Serv) (ctx' : Top) : Prop where
  /-- No signed number is out of range. -/
  exact : ∀ v ∈ values ctx.lo.toInt ctx.hi.toInt (sv.rtt.toNat / 2 : ℕ), -2 ^ 63 ≤ v ∧ v < 2 ^ 63
  inside : ctx.lo.toInt ≤ 0 → 0 ≤ ctx.hi.toInt → ctx'.clock = ctx.clock
  outside : 0 < ctx.lo.toInt ∨ ctx.hi.toInt < 0 →
    ∃ dt, offset ctx sv = some dt ∧ Corrected ctx sv dt.toInt ctx'
  interval : Polling ctx'.interval

/-- The size of a correction. -/
def size (ctx : Top) (sv : Serv) : ℤ :=
  distance ctx.lo.toInt ctx.hi.toInt + (sv.rtt.toNat / 2 : ℕ)

/-- **The exceptions left out**: the size of the correction is in range, and where it is large
enough to be made and too small for a step, the interval it makes is the least one anyway. -/
structure Regular (ctx : Top) (sv : Serv) : Prop where
  range : size ctx sv < 2 ^ 63
  least : 0 < distance ctx.lo.toInt ctx.hi.toInt → 2 ^ 22 ≤ size ctx sv → size ctx sv < 2 ^ 31 →
    ctx.interval = 0 ∨ 2 ^ 29 ≤ size ctx sv ∧ ctx.interval ≠ 4096

/-! ### Words and numbers -/

section Words

/-- A signed number within range is kept. -/
theorem bmod_of_range {v : ℤ} (h1 : -2 ^ 63 ≤ v) (h2 : v < 2 ^ 63) : v.bmod (2 ^ 64) = v :=
  Int.bmod_eq_of_le (by omega) (by omega)

/-- The seconds of a step. -/
theorem toInt_shift (dt : Int64) : (dt >>> 32).toInt = dt.toInt / 2 ^ 32 := by
  have hamount : ((32 : Int64).toBitVec.smod 64) = 32#64 := by decide
  rw [Int64.toInt, Int64.toBitVec_shiftRight, hamount, BitVec.sshiftRight_eq',
    BitVec.toInt_sshiftRight,
    Int.shiftRight_eq_div_pow]
  rfl

lemma toNat_mod (dt : Int64) : (dt.toUInt64.toNat : ℤ) % 2 ^ 32 = dt.toInt % 2 ^ 32 := by
  have hword : dt.toInt = (dt.toUInt64.toNat : ℤ).bmod (2 ^ 64) := BitVec.toInt_eq_toNat_bmod _
  rw [hword, Int.bmod_def]
  split_ifs <;> omega

/-- What is left of an offset below the seconds. -/
theorem toNat_low (dt : Int64) : ((dt.toUInt64 &&& 0xFFFFFFFF).toNat : ℤ) = dt.toInt % 2 ^ 32 := by
  rw [UInt64.toNat_and, show (0xFFFFFFFF : UInt64).toNat = 2 ^ 32 - 1 from rfl,
    Nat.and_two_pow_sub_one_eq_mod,
    ← toNat_mod]
  omega

lemma toInt_bound (rtt : UInt32) : (rtt / 2).toUInt64.toInt64.toInt = (rtt.toNat / 2 : ℕ) := by
  have hlt := rtt.toNat_lt
  have hnat : (rtt / 2).toUInt64.toNat = rtt.toNat / 2 := by
    rw [UInt32.toNat_toUInt64, UInt32.toNat_div]
    rfl
  have hword : (rtt / 2).toUInt64.toInt64.toInt = ((rtt / 2).toUInt64.toNat : ℤ).bmod (2 ^ 64) :=
    BitVec.toInt_eq_toNat_bmod _
  rw [hword, hnat, bmod_of_range (by omega) (by omega)]

/-- The absolute value, unless there is none. -/
theorem toInt_abs {dt : Int64} (h : -2 ^ 63 < dt.toInt) :
    (if dt < 0 then -dt else dt).toInt = |dt.toInt| := by
  have hlt := dt.toInt_lt
  have hzero : (0 : Int64).toInt = 0 := rfl
  split_ifs with hneg
  · rw [lt_iff_toInt_lt, hzero] at hneg
    rw [toInt_neg, bmod_of_range (by omega) (by omega), abs_of_neg hneg]
  · rw [lt_iff_toInt_lt, hzero] at hneg
    rw [abs_of_nonneg (by omega)]

/-- **A step is exact to the nanosecond.** -/
theorem stepsBy_requestClockStep (dt : Int64) : StepsBy dt.toInt (requestClockStep dt) := by
  have hlow := toNat_low dt
  have hprod : ((dt.toUInt64 &&& 0xFFFFFFFF) * 1000000000).toNat =
      (dt.toUInt64 &&& 0xFFFFFFFF).toNat * 1000000000 := by
    rw [UInt64.toNat_mul]
    exact Nat.mod_eq_of_lt (by show _ * 1000000000 < _; omega)
  refine ⟨_, _, rfl, ?_⟩
  rw [toInt_shift, UInt64.toNat_div, hprod, abs_lt]
  have h32 : (4294967296 : UInt64).toNat = 4294967296 := rfl
  rw [h32]
  omega

end Words

/-! ### What the code does -/

section

variable {ctx ctx' : Top} {sv : Serv}

lemma considerSynching_eq (h : current ctx = some sv) :
    considerSynching ctx =
      some ((offset ctx sv).elim (increaseInterval ctx) (considerOffset ctx)) := by
  rw [considerSynching, h, offset]
  simp only [bind_eq_bind, bind_some]
  split_ifs <;> rfl

lemma offset_eq_none (h1 : ctx.lo.toInt ≤ 0) (h2 : 0 ≤ ctx.hi.toInt) : offset ctx sv = none := by
  have hzero : (0 : Int64).toInt = 0 := rfl
  have hlo : ¬ctx.lo > 0 := by
    rw [gt_iff_lt, lt_iff_toInt_lt, hzero]
    omega
  have hhi : ¬ctx.hi < 0 := by
    rw [lt_iff_toInt_lt, hzero]
    omega
  rw [offset, if_neg hlo, if_neg hhi]

/-- **The offset** is as large as it should be, if that is in range, and has the sign that brings
the interval to zero. -/
theorem offset_spec (hsize : size ctx sv < 2 ^ 63) (hout : 0 < ctx.lo.toInt ∨ ctx.hi.toInt < 0) :
    ∃ dt, offset ctx sv = some dt ∧
      dt.toInt = if 0 < ctx.lo.toInt then -size ctx sv else size ctx sv := by
  have hzero : (0 : Int64).toInt = 0 := rfl
  have hover := toInt_bound sv.rtt
  have hlo := ctx.lo.le_toInt
  have hhi := ctx.hi.toInt_lt
  rw [size, distance] at hsize ⊢
  by_cases hpos : 0 < ctx.lo.toInt
  · rw [if_pos hpos] at hsize ⊢
    have hgt : ctx.lo > 0 := lt_iff_toInt_lt.mpr (hzero ▸ hpos)
    have hsum := bmod_of_range (v := ctx.lo.toInt + (sv.rtt.toNat / 2 : ℕ)) (by omega) hsize
    refine ⟨_, by rw [offset, if_pos hgt], ?_⟩
    rw [if_pos hpos, toInt_neg, toInt_add, hover, hsum,
      bmod_of_range (by omega) (by omega)]
  · have hneg : ctx.hi.toInt < 0 := hout.resolve_left hpos
    rw [if_neg hpos, if_pos hneg] at hsize ⊢
    have hgt : ¬ctx.lo > 0 := fun h => hpos (hzero ▸ lt_iff_toInt_lt.mp h)
    have hlt : ctx.hi < 0 := lt_iff_toInt_lt.mpr (hzero ▸ hneg)
    have hdiff := bmod_of_range (v := ctx.hi.toInt - (sv.rtt.toNat / 2 : ℕ)) (by omega) (by omega)
    refine ⟨_, by rw [offset, if_neg hgt, if_pos hlt], ?_⟩
    rw [if_neg hpos, toInt_neg, toInt_sub, hover, hdiff,
      bmod_of_range (by omega) (by omega)]
    omega

variable {dt : Int64}

/-- **What is done about an offset**: the interval is started over with every correction that is
made. -/
theorem considerOffset_spec (hdt : -2 ^ 63 < dt.toInt) :
    considerOffset ctx dt =
      if |dt.toInt| < 2 ^ 22 then increaseInterval ctx
      else { ctx with
        syncdt := dt, synctime := ctx.polltime, interval := 1024
        clock := (if 2 ^ 31 ≤ |dt.toInt| then requestClockStep dt else requestClockSlew dt 1024) ::
          ctx.clock } := by
  have habs := toInt_abs hdt
  rw [considerOffset]
  dsimp only
  generalize (if dt < 0 then -dt else dt) = ad at habs
  have hmin : (-2147483648 : Int64).toInt = -2147483648 := rfl
  have hsmall : (4194304 : Int64).toInt = 4194304 := rfl
  have hlarge : (2147483648 : Int64).toInt = 2147483648 := rfl
  have hnonneg := abs_nonneg dt.toInt
  by_cases hlt : |dt.toInt| < 2 ^ 22
  · rw [if_pos hlt, if_pos]
    rw [lt_iff_toInt_lt, habs, hsmall]
    omega
  · have hge : ¬ad < 4194304 := by
      rw [lt_iff_toInt_lt, habs, hsmall]
      omega
    -- the threshold is less than zero
    have halways : ad ≥ -2147483648 := by
      rw [ge_iff_le, le_iff_toInt_le, habs, hmin]
      omega
    have hstep : ad ≥ 2147483648 ↔ 2 ^ 31 ≤ |dt.toInt| := by
      rw [ge_iff_le, le_iff_toInt_le, habs, hlarge]
      exact Iff.rfl
    rw [if_neg hlt, if_neg hge, if_pos halways]
    simp only [hstep, resetInterval]

/-- The interval that is not started over. -/
theorem interval_increaseInterval {n : ℤ} (hn : n < 2 ^ 29) :
    (increaseInterval ctx).interval = nextInterval n ctx.interval := by
  have h31 : ¬2 ^ 31 ≤ n := by omega
  have h29 : ¬2 ^ 29 ≤ n := by omega
  rw [increaseInterval, nextInterval, if_neg h31, if_neg h29]
  split_ifs <;> rfl

lemma clock_increaseInterval (ctx : Top) : (increaseInterval ctx).clock = ctx.clock := by
  obtain ⟨n, hn⟩ := increaseInterval_eq ctx
  rw [hn]

/-- There is an interval after the first one, and it is one of those there are. -/
theorem increaseInterval_polling (hival : ctx.interval = 0 ∨ Polling ctx.interval) :
    Polling (increaseInterval ctx).interval := by
  rw [interval_increaseInterval (n := 0) (by decide)]
  generalize ctx.interval = ival at hival
  rcases hival with rfl | rfl | rfl | rfl
  · exact .inl rfl
  · exact .inr (.inl rfl)
  · exact .inr (.inr rfl)
  · exact .inr (.inr rfl)

/-- Where the interval that is started over is the right one. -/
theorem nextInterval_eq_iff {n : ℤ} {ival : UInt32} (hival : ival = 0 ∨ Polling ival)
    (hn : n < 2 ^ 31) : 1024 = nextInterval n ival ↔ ival = 0 ∨ 2 ^ 29 ≤ n ∧ ival ≠ 4096 := by
  have h31 : ¬2 ^ 31 ≤ n := by omega
  rw [nextInterval, if_neg h31]
  by_cases hslow : 2 ^ 29 ≤ n
  · simp only [hslow, if_true, true_and]
    rcases hival with rfl | rfl | rfl | rfl <;> decide
  · simp only [hslow, if_false, false_and, or_false]
    rcases hival with rfl | rfl | rfl | rfl <;> decide

lemma valuesOf_iff (dt : ℤ) : (∀ v ∈ valuesOf dt, -2 ^ 63 ≤ v ∧ v < 2 ^ 63) ↔ |dt| < 2 ^ 63 := by
  constructor
  · exact fun h => (h |dt| (by simp [valuesOf])).2
  · intro h v hv
    obtain ⟨h1, h2⟩ := abs_lt.mp h
    have hnonneg := abs_nonneg dt
    rcases mem_append.mp hv with hv | hv
    · simp only [mem_cons, not_mem_nil, or_false] at hv
      rcases hv with rfl | rfl | rfl <;> omega
    · split_ifs at hv with hslew
      · obtain rfl := mem_singleton.mp hv
        obtain ⟨h3, h4⟩ := abs_lt.mp hslew.2
        omega
      · cases hv

/-- **The numbers that are computed** are in range if the size of the correction is. -/
theorem values_iff {lo hi half : ℤ} (hhalf : 0 ≤ half) (hlt : half < 2 ^ 31) :
    (∀ v ∈ values lo hi half, -2 ^ 63 ≤ v ∧ v < 2 ^ 63) ↔ distance lo hi + half < 2 ^ 63 := by
  rw [values, distance]
  split_ifs with h1 h2
  · rw [valuesOf_iff, abs_neg, abs_of_pos (by omega)]
  · rw [valuesOf_iff, abs_neg, abs_of_neg (by omega)]
    constructor <;> intro h <;> omega
  · exact ⟨fun _ => by omega, fun _ v hv => absurd hv not_mem_nil⟩

/-! ### The law -/

variable {x : Exchange}

/-- The round trip time is not longer than the interval. -/
theorem Exchange.rtt_le (hle : x.lo.toInt ≤ x.hi.toInt) :
    (x.rtt.toNat : ℤ) ≤ x.hi.toInt - x.lo.toInt := by
  have hlo := x.lo.le_toInt
  have hlo' := x.lo.toInt_lt
  have hhi := x.hi.le_toInt
  have hhi' := x.hi.toInt_lt
  have hzero : (0 : Int64).toInt = 0 := rfl
  have hmax : (0xFFFFFFFF : Int64).toInt = 4294967295 := rfl
  have hdiff : (x.hi - x.lo).toInt = (x.hi.toInt - x.lo.toInt).bmod (2 ^ 64) := toInt_sub ..
  rw [Int.bmod_def] at hdiff
  rw [Exchange.rtt]
  split_ifs with hneg hbig
  · exact Int.sub_nonneg_of_le hle
  all_goals rw [lt_iff_toInt_lt, hzero] at hneg
  · -- the difference has not come round
    rw [gt_iff_lt, lt_iff_toInt_lt, hmax] at hbig
    show ((4294967295 : ℕ) : ℤ) ≤ _
    split_ifs at hdiff <;> omega
  · rw [gt_iff_lt, lt_iff_toInt_lt, hmax] at hbig
    have hlow := toNat_mod (x.hi - x.lo)
    rw [UInt64.toNat_toUInt32]
    split_ifs at hdiff <;> omega

/-- The overlap is not longer than the interval. -/
theorem Stored.over_le (h : Stored ctx sv x)
    (hle : ctx.lo.toInt ≤ ctx.hi.toInt) :
    ((sv.rtt.toNat / 2 : ℕ) : ℤ) ≤ ctx.hi.toInt - ctx.lo.toInt := by
  have hrtt : sv.rtt.toNat ≤ x.rtt.toNat := UInt32.le_iff_toNat_le.mp h.rtt
  rw [h.lo, h.hi] at hle ⊢
  have := Exchange.rtt_le hle
  omega

/-- How large the offset is, and which way it goes. -/
theorem distance_pos_iff {lo hi : ℤ} : 0 < distance lo hi ↔ 0 < lo ∨ hi < 0 := by
  rw [distance]
  split_ifs <;> omega

lemma abs_offset (hsize : size ctx sv < 2 ^ 63)
    (hout : 0 < ctx.lo.toInt ∨ ctx.hi.toInt < 0) (hdt : offset ctx sv = some dt) :
    |dt.toInt| = size ctx sv := by
  have hpos := distance_pos_iff.mpr hout
  have hnonneg : 0 < size ctx sv := by
    rw [size]
    omega
  obtain ⟨dt', hdt', heq⟩ := offset_spec hsize hout
  obtain rfl : dt = dt' := Option.mem_unique hdt hdt'
  rw [heq]
  split_ifs
  · rw [abs_neg, abs_of_pos hnonneg]
  · exact abs_of_pos hnonneg

/-- **Zero comes into the interval**, since the overlap is not longer than it. -/
theorem overlap_of_stored (hst : Stored ctx sv x)
    (hsize : size ctx sv < 2 ^ 63) (hout : 0 < ctx.lo.toInt ∨ ctx.hi.toInt < 0)
    (hdt : offset ctx sv = some dt) (hle : ctx.lo.toInt ≤ ctx.hi.toInt) :
    ctx.lo.toInt + dt.toInt ≤ 0 ∧ 0 ≤ ctx.hi.toInt + dt.toInt := by
  have hover := hst.over_le hle
  obtain ⟨dt', hdt', heq⟩ := offset_spec hsize hout
  obtain rfl : dt = dt' := Option.mem_unique hdt hdt'
  rw [heq, size, distance]
  split_ifs <;> omega

/-- **A correction is as it should be** just if the interval between polls is. -/
theorem corrected_iff (hst : Stored ctx sv x)
    (hsize : size ctx sv < 2 ^ 63) (hout : 0 < ctx.lo.toInt ∨ ctx.hi.toInt < 0)
    (hival : ctx.interval = 0 ∨ Polling ctx.interval) (hdt : offset ctx sv = some dt) :
    Corrected ctx sv dt.toInt (considerOffset ctx dt) ↔
      (2 ^ 22 ≤ size ctx sv → size ctx sv < 2 ^ 31 →
        ctx.interval = 0 ∨ 2 ^ 29 ≤ size ctx sv ∧ ctx.interval ≠ 4096) := by
  have habs := abs_offset hsize hout hdt
  have hmin : -2 ^ 63 < dt.toInt := (abs_lt.mp (habs.trans_lt hsize)).1
  have hoverlap := overlap_of_stored hst hsize hout hdt
  have hnear : distance ctx.lo.toInt ctx.hi.toInt ≤ |dt.toInt| ∧
      |dt.toInt| ≤ distance ctx.lo.toInt ctx.hi.toInt + (sv.rtt.toNat / 2 : ℕ) := by
    rw [habs, size]
    omega
  rw [considerOffset_spec hmin]
  by_cases hsmall : |dt.toInt| < 2 ^ 22
  · -- nothing is corrected
    rw [if_pos hsmall]
    refine ⟨fun _ hge => absurd hsmall (habs ▸ Int.not_lt.mpr hge), fun _ => ?_⟩
    refine ⟨fun hle => ⟨(hoverlap hle).1, (hoverlap hle).2, hnear⟩,
      fun _ => clock_increaseInterval ctx,
      fun hge => absurd hsmall (Int.not_lt.mpr hge), fun hge => ?_, interval_increaseInterval ?_⟩
    all_goals omega
  · rw [if_neg hsmall]
    refine ⟨fun hc hge hlt => ?_, fun hleast => ?_⟩
    · rw [← habs] at hge hlt ⊢
      exact (nextInterval_eq_iff hival hlt).mp hc.interval
    · refine ⟨fun hle => ⟨(hoverlap hle).1, (hoverlap hle).2, hnear⟩, fun hlt => absurd hlt hsmall,
        fun _ hlt => ?_, fun hge => ?_, ?_⟩
      · exact ⟨_, ⟨_, _, rfl⟩, congrArg (· :: ctx.clock) (if_neg (Int.not_le.mpr hlt))⟩
      · exact ⟨_, stepsBy_requestClockStep dt, congrArg (· :: ctx.clock) (if_pos hge)⟩
      · show (1024 : UInt32) = _
        by_cases hstep : 2 ^ 31 ≤ |dt.toInt|
        · rw [nextInterval, if_pos hstep]
        · rw [habs] at hsmall hstep ⊢
          exact (nextInterval_eq_iff hival (Int.not_le.mp hstep)).mpr
            (hleast (Int.not_lt.mp hsmall) (Int.not_le.mp hstep))

lemma polling_considerOffset (hdt : -2 ^ 63 < dt.toInt)
    (hival : ctx.interval = 0 ∨ Polling ctx.interval) : Polling
    (considerOffset ctx dt).interval := by
  rw [considerOffset_spec hdt]
  by_cases hsmall : |dt.toInt| < 2 ^ 22
  · rw [if_pos hsmall]
    exact increaseInterval_polling hival
  · rw [if_neg hsmall]
    exact .inl rfl

/-- **What `add_poll_point` stores**, before it considers synching. -/
theorem stored_notePoll {env : Env} {i : ℕ} {ref : UInt64} (x : Exchange)
    (hi : ctx.current = some i)
    (hcur : current ctx = some sv) :
    ∃ sv', current (notePoll env ctx i ref x.lo x.hi) = some sv' ∧
      Stored (notePoll env ctx i ref x.lo x.hi) sv' x := by
  obtain ⟨j, hj, hsv, hset⟩ := current_eq_some.mp hcur
  obtain rfl : i = j := Option.mem_unique hi hj
  refine ⟨if sv.rtt > x.rtt then { sv with rtt := x.rtt } else sv, ?_, rfl, rfl, ?_⟩
  · refine current_eq_some.mpr ⟨i, hi, ?_, ?_⟩
    · show (ctx.servs.modify i _)[i]? = _
      rw [getElem?_modify_eq, hsv]
      rfl
    · split_ifs <;> exact hset
  · split_ifs with hgt
    · exact UInt32.le_refl _
    · exact UInt32.not_lt.mp hgt

/-- **What `add_ping_point` stores** of the nearest server so far. -/
theorem stored_notePing {env : Env} {i : ℕ} {ref : UInt64} (x : Exchange)
    (hi : ctx.current = some i)
    (hcur : current ctx = some sv) (hrtt : ¬(x.hi - x.lo < 0 ∨ x.hi - x.lo > 0xFFFFFFFF))
    (hbest : ¬(ctx.bestidx.isSome ∧ ctx.bestrtt < x.rtt)) :
    ∃ sv', current (notePing env ctx i ref x.lo x.hi) = some sv' ∧
      Stored (notePing env ctx i ref x.lo x.hi) sv' x ∧
      (notePing env ctx i ref x.lo x.hi).bestidx = some i ∧
      (notePing env ctx i ref x.lo x.hi).interval = 0 := by
  obtain ⟨j, hj, hsv, hset⟩ := current_eq_some.mp hcur
  obtain rfl : i = j := Option.mem_unique hi hj
  have hword : x.rtt = (x.hi - x.lo).toUInt64.toUInt32 := by
    rw [Exchange.rtt, if_neg (fun h => hrtt (.inl h)), if_neg (fun h => hrtt (.inr h))]
  rw [hword] at hbest
  have hnote : notePing env ctx i ref x.lo x.hi = { ctx with
      servs := ctx.servs.modify i fun sv =>
        { sv with rtt := (x.hi - x.lo).toUInt64.toUInt32, hasRtt := true }
      ref := ref, lo := x.lo, hi := x.hi, interval := 0, pollexp := 0, bestidx := ctx.current
      bestrtt := (x.hi - x.lo).toUInt64.toUInt32, polltime := env.boot } := by
    rw [notePing]
    rw [if_neg hrtt, if_neg hbest]
  rw [hnote]
  refine ⟨{ sv with rtt := x.rtt, hasRtt := true }, ?_, ⟨rfl, rfl, UInt32.le_refl _⟩, hi, rfl⟩
  refine current_eq_some.mpr ⟨i, hi, ?_, hset⟩
  show (ctx.servs.modify i _)[i]? = _
  rw [getElem?_modify_eq, hsv, hword]
  rfl

/-- **The law of corrections** holds of every exchange that was stored, just if it is none of the
exceptions. -/
theorem lawful_iff {x : Exchange} (hcur : current ctx = some sv) (hst : Stored ctx sv x)
    (hival : ctx.interval = 0 ∨ Polling ctx.interval) :
    ∃ ctx', considerSynching ctx = some ctx' ∧ (Lawful ctx sv ctx' ↔ Regular ctx sv) := by
  have hrtt := sv.rtt.toNat_lt
  have hvalues : (∀ v ∈ values ctx.lo.toInt ctx.hi.toInt (sv.rtt.toNat / 2 : ℕ),
      -2 ^ 63 ≤ v ∧ v < 2 ^ 63) ↔ size ctx sv < 2 ^ 63 := values_iff (by omega) (by omega)
  refine ⟨_, considerSynching_eq hcur, ?_⟩
  by_cases hout : 0 < ctx.lo.toInt ∨ ctx.hi.toInt < 0
  · have hpos := distance_pos_iff.mpr hout
    constructor
    · intro h
      have hsize := hvalues.mp h.exact
      obtain ⟨dt, hdt, hc⟩ := h.outside hout
      rw [hdt] at hc
      exact ⟨hsize, fun _ => (corrected_iff hst hsize hout hival hdt).mp hc⟩
    · intro h
      obtain ⟨dt, hdt, -⟩ := offset_spec h.range hout
      have habs := abs_offset h.range hout hdt
      rw [hdt]
      refine ⟨hvalues.mpr h.range, fun h1 h2 => by omega, fun _ => ⟨dt, hdt, ?_⟩, ?_⟩
      · exact (corrected_iff hst h.range hout hival hdt).mpr (h.least hpos)
      · exact polling_considerOffset (abs_lt.mp (habs.trans_lt h.range)).1 hival
  · -- zero is in the interval
    have hzero : distance ctx.lo.toInt ctx.hi.toInt = 0 := by
      rw [distance, if_neg (by omega), if_neg (by omega)]
    have hsize : size ctx sv < 2 ^ 63 := by
      rw [size, hzero]
      omega
    rw [offset_eq_none (by omega) (by omega)]
    refine ⟨fun _ => ⟨hsize, fun h => by omega⟩, fun _ => ?_⟩
    exact ⟨hvalues.mpr hsize, fun _ _ => clock_increaseInterval ctx, fun h => absurd h hout,
      increaseInterval_polling hival⟩

end

/-- A server that is polled, with a round trip time of nothing. -/
def polledServer : Serv := { Serv.empty with set := true, ping := true, hasRtt := true }

/-- An answer from it, by which the clock is ahead by `n` parts of `2 ^ 32` of a second. -/
def answerAhead (n : UInt64) : Exchange := ⟨n, 0, 0, n⟩

/-- The state in which it is considered. -/
def considering (n : UInt64) : Top :=
  { Top.init with
    servs := [polledServer], current := some 0, interval := 1024
    lo := (answerAhead n).lo, hi := (answerAhead n).hi }

/-- A second is stepped. -/
theorem lawful_second : ∃ ctx', considerSynching (considering 0x100000000) = some ctx' ∧
    Lawful (considering 0x100000000) polledServer ctx' := by
  have hcur : current (considering 0x100000000) = some polledServer := rfl
  obtain ⟨ctx', hctx, hlaw⟩ := lawful_iff (x := answerAhead 0x100000000) hcur
    ⟨rfl, rfl, by decide⟩ (.inr (.inl rfl))
  exact ⟨ctx', hctx, hlaw.mpr ⟨by decide, fun _ _ hless => absurd hless (by decide)⟩⟩

/-- **The law does not hold of every exchange**: after a correction by two milliseconds the interval
should be longer. -/
theorem not_lawful : ¬∀ (ctx : Top) (sv : Serv) (x : Exchange), current ctx = some sv →
    Stored ctx sv x → ctx.interval = 0 ∨ Polling ctx.interval →
      ∃ ctx', considerSynching ctx = some ctx' ∧ Lawful ctx sv ctx' := by
  intro h
  obtain ⟨ctx', hctx, hlaw⟩ :=
    h (considering 0x800000) polledServer (answerAhead 0x800000) rfl ⟨rfl, rfl, by decide⟩
      (.inr (.inl rfl))
  have hlo : (considering 0x800000).lo.toInt = 0x800000 := rfl
  obtain ⟨dt, hdt, hc⟩ := hlaw.outside (.inl (by rw [hlo]; decide))
  have hdt' : dt = -0x800000 := by
    have : offset (considering 0x800000) polledServer = some (-0x800000) := by decide
    exact Option.mem_unique hdt this
  have hreset : ctx'.interval = 1024 := by
    have : (considerSynching (considering 0x800000)).map Top.interval = some 1024 := by decide
    rw [hctx] at this
    exact Option.some.inj this
  have hnext := hc.interval
  rw [hreset, hdt'] at hnext
  exact absurd hnext (by decide)

end Minibase.Timed
