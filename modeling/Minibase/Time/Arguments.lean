import Minibase.Format.Ip
import Minibase.Time.Calendar

/-!
# The date that a calendar is asked for

The arguments of `utils/calendar.c`: numbers and names of months in any order, or one date with
dashes. For the latter, `set_iso_date` looks up the length of the month at `month - 1`, in a table
that has a dummy in front; and if there is no day, the month is not looked at. When a date with
dashes is taken as it should be is said exactly (`Time.judged_iff`).
-/

namespace Minibase.Time

open Format

/-! ### The code -/

/-- `struct top`, as far as the arguments set it, with the flags of `opts`. -/
structure Top where
  year : ℤ
  month : ℤ
  day : ℤ
  optY : Bool
  setMon : Bool
  deriving DecidableEq

/-- The arguments of `fail`. -/
structure Failure where
  msg : String
  arg : Option (List UInt8)
  err : ℤ
  deriving DecidableEq

/-- How it can end before a calendar is shown. -/
inductive Stop
  | fail (f : Failure)
  /-- A read outside of a table: what comes next is not known. -/
  | outside
  deriving DecidableEq

/-- A call of `fail` without an error number. -/
def fail {α : Type} (msg : String) (arg : Option (List UInt8)) : Except Stop α :=
  .error (.fail ⟨msg, arg, 0⟩)

/-- `mthdays`. The month 0 is a dummy. -/
def mthdays : List ℤ := [0, 31, 28, 31, 30, 31, 30, 31, 31, 30, 31, 30, 31]

/-- `mthdays[i]`. -/
def mthdaysAt (i : ℤ) : Except Stop ℤ :=
  if i < 0 then .error .outside
  else match mthdays[i.toNat]? with
    | none => .error .outside
    | some n => .ok n

/-- `lcmonth`; `ucmonth` has the same letters with 32 taken off. -/
def lcmonth : List (List UInt8) :=
  [[106, 97, 110], [102, 101, 98], [109, 97, 114], [97, 112, 114], [109, 97, 121], [106, 117, 110],
    [106, 117, 108], [97, 117, 103], [115, 101, 112], [111, 99, 116], [110, 111, 118],
      [100, 101, 99]]

/-- The loop over `m` in `parse_month_name`, over what is left of the names. The name that matches
first decides. -/
def monthNameLoop (arg : List UInt8) : List (List UInt8) → ℤ → ℤ
  | [], _ => 0
  | name :: names, m =>
    if (List.range 3).all fun i => arg.getD i 0 = name.getD i 0 - 32 ∨
      arg.getD i 0 = name.getD i 0 then
      if arg.getD 3 0 ≠ 0 then 0 else m + 1
    else monthNameLoop arg names (m + 1)

def parseMonthName (arg : List UInt8) : ℤ := monthNameLoop arg lcmonth 0

variable (ctx : Top)

def invertDayMon : Top :=
  if ctx.setMon ∨ ctx.month = 0 ∨ ctx.day = 0 ∨ 12 < ctx.day then ctx
  else { ctx with day := ctx.month, month := ctx.day }

def setNumeric (arg : List UInt8) (val : ℤ) : Except Stop Top :=
  if ctx.year = 0 ∧ ctx.optY then .ok { ctx with year := val }
  else if 1000 < val then
    if ctx.year = 0 then .ok { invertDayMon ctx with year := val }
    else fail "invalid date component" arg
  else if val ≤ 31 ∧ 12 < val then
    if ctx.day = 0 then .ok { ctx with day := val } else fail "invalid date component" arg
  else if val ≤ 12 then
    if ctx.month = 0 then .ok { ctx with month := val }
    else if ctx.day = 0 then .ok { ctx with day := val }
    else fail "invalid date component" arg
  else fail "invalid date component" arg

def setMonth (arg : List UInt8) (val : ℤ) : Except Stop Top :=
  if ctx.month = 0 then .ok { ctx with month := val, setMon := true }
  else if ctx.day = 0 ∧ ctx.setMon = false then .ok { ctx with day := ctx.month, month := val }
  else fail "invalid date component" arg

/-- The last test of `set_iso_date`. The length that is looked up is that of the month before. -/
def checkDay (arg : List UInt8) : Except Stop Top :=
  if ctx.month ≤ 12 then
    match mthdaysAt (ctx.month - 1) with
    | .error e => .error e
    | .ok n => if ctx.day ≤ n then .ok ctx else fail "invalid date" arg
  else fail "invalid date" arg

def setIsoDate (arg : List UInt8) (year : ℤ) (p : List UInt8) : Except Stop Top :=
  if ctx.year ≠ 0 ∨ ctx.month ≠ 0 ∨ ctx.day ≠ 0 then fail "misplaced iso date" none
  else match parseint p with
    | none => fail "invalid date" arg
    -- without a day, the month is not checked
    | some (month, []) => .ok { ctx with year := year, month := month }
    | some (month, c :: p) =>
      if c ≠ 45 then fail "invalid date" arg
      else match parseint p with
        | some (day, []) => checkDay { ctx with year := year, month := month, day := day } arg
        | _ => fail "invalid date" arg

/-- What `set_arg` does where it is not a date in numbers. -/
def setName (arg : List UInt8) : Except Stop Top :=
  if parseMonthName arg ≠ 0 then setMonth ctx arg (parseMonthName arg) else fail "cannot parse" arg

def setArg (arg : List UInt8) : Except Stop Top :=
  match parseint arg with
  | some (val, []) => setNumeric ctx arg val
  | some (val, c :: p) => if c = 45 then setIsoDate ctx arg val p else setName ctx arg
  | none => setName ctx arg

/-- `query_local_time`, for what comes of the clock and the zone file. -/
def queryLocalTime (clock : Except Failure Tm) (ctx : Top) : Except Stop Top :=
  match clock with
  | .error f => .error (.fail f)
  | .ok tm =>
    let ctx := if ctx.day = 0 ∧ ctx.month = 0 ∧
      ctx.year = 0 then { ctx with day := tm.mday } else ctx
    let ctx := if ctx.month = 0 ∧ ctx.year = 0 then { ctx with month := i32 (tm.mon + 1) } else ctx
    .ok (if ctx.year = 0 then { ctx with year := i32 (tm.year + 1900) } else ctx)

def prepSuppliedDate (clock : Except Failure Tm) (ctx : Top) : Except Stop Top :=
  if ctx.day ≠ 0 ∧ ctx.month = 0 then fail "invalid date spec" none
  else
    let swapped := if ctx.day ≠ 0 ∧ ctx.month ≠ 0 ∧ ctx.year = 0 ∧ ctx.setMon = false then
      { ctx with month := ctx.day, day := ctx.month } else ctx
    if ctx.year ≠ 0 ∧ ctx.year ≤ 1582 then fail "Julian calendar is not supported" none
    else
      let flagged := if ctx.year ≠ 0 ∧ ctx.month = 0 then { swapped with optY := true } else swapped
      if ctx.month = 0 ∨ ctx.year = 0 then queryLocalTime clock flagged else .ok flagged

/-- The date that `main` shows, for the arguments after the options. -/
def supplied (clock : Except Failure Tm) (optY : Bool) (args : List (List UInt8)) :
    Except Stop Top :=
  match (args.take 3).foldlM setArg ⟨0, 0, 0, optY, false⟩ with
  | .error e => .error e
  | .ok ctx =>
    if 3 < args.length then fail "too many arguments" none else prepSuppliedDate clock ctx

/-! ### What is meant -/

/-- The text of a date, with or without a day. -/
def isoText (y m : List UInt8) : Option (List UInt8) → List UInt8
  | none => y ++ 45 :: m
  | some d => y ++ 45 :: (m ++ 45 :: d)

/-- **A date that there is.** -/
def Valid (y m : ℕ) (d : Option ℕ) : Prop :=
  1 ≤ m ∧ m ≤ 12 ∧ ∀ e ∈ d, 1 ≤ e ∧ e ≤ monthLength y (m - 1)

/-- **A date is taken as it should be**: as what it says if there is such a date, and else not at
all. -/
def Judged (clock : Except Failure Tm) (y m : List UInt8) (d : Option (List UInt8)) : Prop :=
  (Valid (decimal y) (decimal m) (d.map decimal) →
    ∃ ctx, supplied clock false [isoText y m d] = .ok ctx ∧ ctx.year = decimal y ∧
      ctx.month = decimal m ∧ ∀ e ∈ d, ctx.day = decimal e) ∧
  (¬Valid (decimal y) (decimal m) (d.map decimal) →
    ∃ f, supplied clock false [isoText y m d] = .error (.fail f))

/-- The year is refused when everything else has been taken: it is too early when it is an `int`, or
it is none at all and the clock cannot be read. -/
def Refused (clock : Except Failure Tm) (y : List UInt8) : Prop :=
  (i32 (decimal y) ≠ 0 ∧ i32 (decimal y) ≤ 1582) ∨ (i32 (decimal y) = 0 ∧ ∃ f, clock = .error f)

/-- **When it is**: a date that there is has a year that is an `int`, and its day is one of the
month before as well; in one that there is not, the month is one in the table and the day is too
large for the one before, or the month is too large, or it is the year that helps. -/
def Fits (clock : Except Failure Tm) (y m : List UInt8) (d : Option (List UInt8)) : Prop :=
  (Valid (decimal y) (decimal m) (d.map decimal) →
    decimal y < 2147483648 ∧ ∀ e ∈ d, (decimal e : ℤ) ≤ mthdays.getD (decimal m - 1) 0) ∧
  (¬Valid (decimal y) (decimal m) (d.map decimal) →
    (d = none → Refused clock y ∨ (i32 (decimal m) = 0 ∧ ∃ f, clock = .error f)) ∧
    ∀ e ∈ d, 1 ≤ i32 (decimal m) ∧
      (12 < i32 (decimal m) ∨ mthdays.getD (i32 (decimal m) - 1).toNat 0 < i32 (decimal e) ∨
        Refused clock y))

/-! ### The steps -/

lemma mthdaysAt_eq {i : ℤ} (h : 0 ≤ i) (h' : i < 13) : mthdaysAt i = .ok
    (mthdays.getD i.toNat 0) := by
  have hlen : i.toNat < mthdays.length := by
    show i.toNat < 13
    omega
  rw [mthdaysAt, if_neg (not_lt.mpr h), List.getElem?_eq_getElem hlen,
    List.getD_eq_getElem _ 0 hlen]

lemma ends_dash (p : List UInt8) : Format.Ends (45 :: p) := by
  intro c hc
  cases hc
  rfl

lemma ends_nil : Format.Ends [] := fun _ hc => by cases hc

section Texts

variable {clock : Except Failure Tm} {y m d : List UInt8}

lemma supplied_one (arg : List UInt8) {ctx : Top}
    (h : setArg ⟨0, 0, 0, false, false⟩ arg = .ok ctx) :
    supplied clock false [arg] = prepSuppliedDate clock ctx := by
  have hfold : ([arg].take 3).foldlM setArg ⟨0, 0, 0, false, false⟩ = .ok ctx := by
    show (setArg _ arg).bind _ = _
    rw [h]
    rfl
  rw [supplied, hfold]
  rfl

lemma supplied_one_error (arg : List UInt8) {e : Stop}
    (h : setArg ⟨0, 0, 0, false, false⟩ arg = .error e) : supplied clock false
    [arg] = .error e := by
  have hfold : ([arg].take 3).foldlM setArg ⟨0, 0, 0, false, false⟩ = .error e := by
    show (setArg _ arg).bind _ = _
    rw [h]
    rfl
  rw [supplied, hfold]

/-- Without a day. -/
theorem setArg_month (hy : Numeral y) (hm : Numeral m) :
    setArg ⟨0, 0, 0, false, false⟩ (isoText y m none) =
      .ok ⟨i32 (decimal y), i32 (decimal m), 0, false, false⟩ := by
  have hmonth := hm.parseint ends_nil
  rw [List.append_nil] at hmonth
  rw [setArg, isoText, hy.parseint (ends_dash m)]
  dsimp only
  rw [if_pos rfl, setIsoDate, if_neg (by simp), hmonth]

/-- With one. -/
theorem setArg_day (hy : Numeral y) (hm : Numeral m) (hd : Numeral d) :
    setArg ⟨0, 0, 0, false, false⟩ (isoText y m (some d)) =
      checkDay ⟨i32 (decimal y), i32 (decimal m), i32 (decimal d), false, false⟩
        (isoText y m (some d)) := by
  have hday := hd.parseint ends_nil
  rw [List.append_nil] at hday
  rw [setArg, isoText, hy.parseint (ends_dash _)]
  dsimp only
  rw [if_pos rfl, setIsoDate, if_neg (by simp), hm.parseint (ends_dash d)]
  dsimp only
  rw [if_neg (by simp), hday]

end Texts

variable {clock : Except Failure Tm}

/-- What comes of a date at last, if it has a day only if it has a month. -/
theorem prepSuppliedDate_error_iff {year month day : ℤ}
    (h : month = 0 → day = 0) :
    (∃ f, prepSuppliedDate clock ⟨year, month, day, false, false⟩ = .error (.fail f)) ↔
      (year ≠ 0 ∧ year ≤ 1582) ∨ ((month = 0 ∨ year = 0) ∧ ∃ f, clock = .error f) := by
  rw [prepSuppliedDate, if_neg fun hd => hd.1 (h hd.2)]
  by_cases hearly : year ≠ 0 ∧ year ≤ 1582
  · rw [if_pos hearly]
    exact iff_of_true ⟨_, rfl⟩ (.inl hearly)
  · dsimp only
    rw [if_neg hearly, or_iff_right hearly]
    by_cases hquery : month = 0 ∨ year = 0
    · rw [if_pos hquery, and_iff_right hquery]
      cases clock with
      | error f => exact iff_of_true ⟨f, rfl⟩ ⟨f, rfl⟩
      | ok tm => exact iff_of_false (fun ⟨_, hf⟩ => by cases hf) (fun ⟨_, hf⟩ => by cases hf)
    · rw [if_neg hquery]
      exact iff_of_false (fun ⟨_, hf⟩ => by cases hf) (fun hf => hquery hf.1)

/-- A date with a month and a year later than 1582 is left as it is. -/
theorem prepSuppliedDate_ok {year month day : ℤ} (hm : month ≠ 0)
    (hy : 1582 < year) :
    prepSuppliedDate clock ⟨year, month, day, false, false⟩ = .ok
      ⟨year, month, day, false, false⟩ := by
  have hy0 : year ≠ 0 := by omega
  simp only [prepSuppliedDate]
  rw [if_neg fun h => hm h.2, if_neg (by omega), if_neg (by omega), if_neg fun h => hm h.2,
    if_neg fun h => hy0 h.2.2.1]

/-- The year that is put down is an `int`. -/
theorem prepSuppliedDate_year {ctx ctx' : Top}
    (h : prepSuppliedDate clock ctx = .ok ctx') (hctx : ctx.year < 2147483648) :
    ctx'.year < 2147483648 := by
  have hnow : ∀ x, i32 x < 2147483648 := by
    intro x
    unfold i32
    omega
  rw [prepSuppliedDate] at h
  split at h
  case isTrue => cases h
  case isFalse =>
    dsimp only at h
    split at h
    case isTrue => cases h
    case isFalse =>
      -- what is swapped or flagged before is not the year
      have hyear : ∀ (b c : Prop) [Decidable b] [Decidable c] (ctx₁ ctx₂ : Top),
          ctx₁.year = ctx.year → ctx₂.year = ctx.year →
            (if b then { (if c then ctx₁ else ctx₂) with optY := true }
              else if c then ctx₁ else ctx₂ : Top).year = ctx.year := by
        intro b c _ _ ctx₁ ctx₂ h₁ h₂
        split_ifs <;> assumption
      generalize hflagged : (if ctx.year ≠ 0 ∧ ctx.month = 0 then _ else _ : Top) = flagged at h
      have hflagged' : flagged.year = ctx.year := hflagged ▸ hyear _ _ _ _ rfl rfl
      split at h
      case isTrue =>
        cases clock with
        | error f => cases h
        | ok tm =>
          cases h
          split_ifs <;> first | exact hnow _ | exact hflagged' ▸ hctx
      case isFalse =>
        cases h
        rw [hflagged']
        exact hctx

/-- The test of a day, by the place in the table. -/
theorem checkDay_cases (arg : List UInt8) :
    (ctx.month < 1 ∧ checkDay ctx arg = .error .outside) ∨
    (1 ≤ ctx.month ∧ (12 < ctx.month ∨ mthdays.getD (ctx.month - 1).toNat 0 < ctx.day) ∧
      checkDay ctx arg = fail "invalid date" arg) ∨
    (1 ≤ ctx.month ∧ ctx.month ≤ 12 ∧ ctx.day ≤ mthdays.getD (ctx.month - 1).toNat 0 ∧
      checkDay ctx arg = .ok ctx) := by
  rw [checkDay]
  by_cases hlow : ctx.month < 1
  · rw [if_pos (by omega), mthdaysAt, if_pos (by omega)]
    exact .inl ⟨hlow, rfl⟩
  · by_cases hhigh : ctx.month ≤ 12
    · rw [if_pos hhigh, mthdaysAt_eq (by omega) (by omega)]
      dsimp only
      split
      case isTrue hday => exact .inr (.inr ⟨by omega, hhigh, hday, rfl⟩)
      case isFalse hday => exact .inr (.inl ⟨by omega, .inr (by omega), rfl⟩)
    · rw [if_neg hhigh]
      exact .inr (.inl ⟨by omega, .inl (by omega), rfl⟩)

/-! ### Dates with dashes -/

section Main

variable {clock : Except Failure Tm} {y m : List UInt8}

lemma numeral_of_all {a : List UInt8} (h : a ≠ []) (h' : a.all isDigit = true) : Numeral a :=
  ⟨h, List.all_eq_true.mp h'⟩

lemma i32_lt (x : ℤ) : i32 x < 2147483648 := by
  unfold i32
  omega

variable (clock) in
/-- A date that there is, once `set_arg` has taken it: what matters is that the year fits. -/
theorem taken_iff {arg : List UInt8} {M : ℕ} {day : ℤ} {P : ℤ → Prop} (hday : P day) (hM : 1 ≤ M)
    (h1582 : 1582 < decimal y)
    (harg : setArg ⟨0, 0, 0, false, false⟩ arg = .ok ⟨i32 (decimal y), M, day, false, false⟩) :
    (∃ ctx, supplied clock false [arg] = .ok ctx ∧ ctx.year = decimal y ∧ ctx.month = M ∧
      P ctx.day) ↔
      decimal y < 2147483648 := by
  rw [supplied_one arg harg]
  constructor
  · rintro ⟨ctx, hctx, hyear, -, -⟩
    have hlt := prepSuppliedDate_year hctx (i32_lt _)
    omega
  · intro hfit
    rw [i32_decimal hfit, prepSuppliedDate_ok (by omega) (by omega)]
    exact ⟨_, rfl, rfl, rfl, hday⟩

/-- No month has more than 31 days. -/
theorem monthLength_le (y m : ℕ) : monthLength y m ≤ 31 := by
  rw [monthLength, months]
  rcases Nat.lt_or_ge m 12 with h | h
  · cases isLeap y <;> interval_cases m <;> decide
  · rw [List.getD_eq_default _ _ h]
    exact Nat.zero_le 31

/-- **Without a day**, it is only the year that can be refused. -/
theorem judged_month_iff (hy : Numeral y) (hm : Numeral m) (h1582 : 1582 < decimal y) :
    Judged clock y m none ↔ Fits clock y m none := by
  have harg := setArg_month hy hm
  refine and_congr (forall_congr' fun hvalid => ?_) (forall_congr' fun _ => ?_)
  · rw [i32_decimal (show decimal m < _ from lt_of_le_of_lt hvalid.2.1 (by decide))] at harg
    have htaken := taken_iff clock (P := fun x => ∀ e ∈ none, x = decimal e)
      (fun e he => by cases he) hvalid.1 h1582 harg
    rw [htaken]
    exact (and_iff_left fun e he => by cases he).symm
  · rw [supplied_one _ harg, prepSuppliedDate_error_iff fun _ => rfl, Refused, or_and_right,
      or_assoc]
    constructor
    · intro h
      refine ⟨fun _ => ?_, fun e he => by cases he⟩
      exact h.imp_right Or.symm
    · rintro ⟨h, -⟩
      exact (h rfl).imp_right Or.symm

/-- **With one**, the table decides first. -/
theorem judged_day_iff {d : List UInt8} (hy : Numeral y) (hm : Numeral m) (hd : Numeral d)
    (h1582 : 1582 < decimal y) : Judged clock y m (some d) ↔ Fits clock y m (some d) := by
  have harg := setArg_day hy hm hd
  refine and_congr (forall_congr' fun hvalid => ?_) (forall_congr' fun _ => ?_)
  · have h12 := hvalid.2.1
    have h1 := hvalid.1
    have hday := hvalid.2.2 (decimal d) rfl
    have hlen := monthLength_le (decimal y) (decimal m - 1)
    rw [i32_decimal (show decimal m < _ by omega),
      i32_decimal (show decimal d < _ by omega)] at harg
    have hindex : ((decimal m : ℤ) - 1).toNat = decimal m - 1 := by omega
    rcases checkDay_cases ⟨i32 (decimal y), decimal m, decimal d, false,
      false⟩ (isoText y m (some d))
      with ⟨hc, -⟩ | ⟨-, hc, heq⟩ | ⟨-, -, hc, heq⟩
    · exact absurd hc (by dsimp only; omega)
    · dsimp only at hc
      rw [hindex] at hc
      rw [heq] at harg
      rw [supplied_one_error _ harg]
      refine iff_of_false (fun ⟨_, h, _⟩ => by cases h) fun ⟨_, h⟩ => ?_
      have := h d rfl
      omega
    · dsimp only at hc
      rw [hindex] at hc
      rw [heq] at harg
      have htaken := taken_iff clock (P := fun x => ∀ e ∈ some d, x = decimal e)
        (fun e he => by cases he; rfl) h1 h1582 harg
      rw [htaken]
      exact (and_iff_left fun e he => by cases he; exact hc).symm
  · rcases checkDay_cases ⟨i32 (decimal y), i32 (decimal m), i32 (decimal d), false, false⟩
      (isoText y m (some d)) with ⟨hc, heq⟩ | ⟨hc, hc', heq⟩ | ⟨hc, hc', hc'', heq⟩
    · rw [supplied_one_error _ (harg.trans heq)]
      refine iff_of_false (fun ⟨_, h⟩ => by cases h) fun ⟨_, h⟩ => ?_
      have := (h d rfl).1
      dsimp only at hc
      omega
    · rw [supplied_one_error _ (harg.trans heq)]
      refine iff_of_true ⟨_, rfl⟩ ⟨(fun h => by cases h), fun e he => ?_⟩
      cases he
      exact ⟨hc, hc'.elim .inl fun h => .inr (.inl h)⟩
    · dsimp only at hc hc' hc''
      rw [supplied_one _ (harg.trans heq), prepSuppliedDate_error_iff fun h => by omega]
      have hmonth : i32 (decimal m) ≠ 0 := by omega
      rw [or_iff_right hmonth, ← Refused]
      constructor
      · intro h
        refine ⟨(fun h => by cases h), fun e he => ?_⟩
        cases he
        exact ⟨hc, .inr (.inr h)⟩
      · rintro ⟨-, h⟩
        rcases (h d rfl).2 with h | h | h
        · omega
        · omega
        · exact h

/-- **When a date with dashes is taken as it should be.** -/
theorem judged_iff {d : Option (List UInt8)} (hy : Numeral y) (hm : Numeral m)
    (hd : ∀ e ∈ d, Numeral e) (h1582 : 1582 < decimal y) : Judged clock y m d ↔
      Fits clock y m d := by
  cases d with
  | none => exact judged_month_iff hy hm h1582
  | some d => exact judged_day_iff hy hm (hd d rfl) h1582

end Main

/-- The leap day of 2024, as `2024-2-29`: February is compared with January. -/
theorem judged_leap_day : Judged (.ok (tv2tm 0)) [50, 48, 50, 52] [50] (some [50, 57]) := by
  have hy : Numeral [50, 48, 50, 52] := numeral_of_all (by decide) (by decide)
  have hm : Numeral [50] := numeral_of_all (by decide) (by decide)
  have hd : Numeral [50, 57] := numeral_of_all (by decide) (by decide)
  refine (judged_iff hy hm (fun e he => by cases he; exact hd) (by decide)).mpr
    ⟨fun _ => ⟨by decide, ?_⟩, ?_⟩
  · rintro e he
    cases he
    decide
  · refine fun hnot => absurd ⟨by decide, by decide, ?_⟩ hnot
    rintro e he
    cases he
    decide

/-- There is no day in January: `2024-1-15` is refused. -/
theorem not_judged :
    ¬∀ clock y m (d : Option (List UInt8)), Numeral y → Numeral m → (∀ e ∈ d, Numeral e) →
      1582 < decimal y → Judged clock y m d := by
  intro h
  have hy : Numeral [50, 48, 50, 52] := numeral_of_all (by decide) (by decide)
  have hm : Numeral [49] := numeral_of_all (by decide) (by decide)
  have hd : Numeral [49, 53] := numeral_of_all (by decide) (by decide)
  obtain ⟨htaken, -⟩ := h (.ok (tv2tm 0)) _ _ (some [49, 53]) hy hm
    (fun e he => by cases he; exact hd)
    (by decide)
  obtain ⟨ctx, hctx, -⟩ := htaken ⟨by decide, by decide, fun e he => by cases he; decide⟩
  have hfail : supplied (.ok (tv2tm 0)) false [isoText [50, 48, 50, 52] [49] (some [49, 53])] =
      fail "invalid date" (some (isoText [50, 48, 50, 52] [49] (some [49, 53]))) := by
    rfl
  rw [hfail] at hctx
  cases hctx

end Minibase.Time
