import Minibase.Dcrypt.Keyring

/-!
# The partitions of `passblk`

`setup_args` of `passblk.c`, with the tables of `struct top` that it fills. There is room for
`NUMKEYS` partitions, and behind them are `nkeys`, the name of the key file and what was read
of it: a partition more is written there (`Dcrypt.Passblk.Top.putPart`). `parse_part_labels`
looks whether there are more than `NUMKEYS` partitions before it goes on, not whether there
are that many, so the seventeenth is written (`Dcrypt.Passblk.Crowded`,
`Dcrypt.Passblk.setup_args_inside_iff`).

Which partitions there are can be read off the arguments (`Dcrypt.Passblk.parsePartLabels_stored`).
-/

namespace Minibase.Dcrypt

namespace Passblk

open List Option

/-! ### What the source computes -/

def NUMKEYS : ℕ := 16

def KEYSIZE : ℕ := 32

def HDRSIZE : ℕ := 16

def MAXFILE : ℕ := 528

def FILEBUF : ℕ := 544

/-- `struct part`, without what is only known once it is mapped. -/
structure Part where
  keyidx : ℤ := 0
  label : List UInt8 := []
  size : ℕ := 0
  rdev : ℕ := 0
deriving DecidableEq

/-- The end of `struct top`. The places of `parts` that have been written to are noted. -/
structure Top where
  nparts : ℕ := 0
  parts : List Part := replicate NUMKEYS {}
  nkeys : ℤ := 0
  keyfile : List UInt8 := []
  keysize : ℕ := 0
  keydata : List UInt8 := replicate FILEBUF 0
  touched : List ℕ := []
deriving DecidableEq

/-- The arguments from the second on, of which there are not more than an `int` can count. -/
structure Argv where
  keyfile : List UInt8
  labels : List (List UInt8)
  argc : labels.length + 2 < 2147483648

/-- What the system calls return: the bytes read from the key file, and size and number of the
device with a path. -/
structure Env where
  file : Option (List UInt8)
  stat : List UInt8 → Option (ℕ × ℕ)

namespace Top

variable (ctx : Top) (n : ℕ)

/-- What `parse_part_labels` stores in `parts[n]`. Behind the table that is the lower half of
`nkeys`, and `keyfile`. -/
def putPart (ki : ℤ) (label : List UInt8) : Top :=
  let ctx := { ctx with touched := ctx.touched ++ [n] }
  if n < NUMKEYS then
    { ctx with parts := ctx.parts.modify n fun pt => { pt with keyidx := i16 ki, label := label } }
  else
    { ctx with nkeys := i32 (ctx.nkeys - ctx.nkeys % 65536 + u16 ki), keyfile := label }

/-- `parts[n].keyidx`. -/
def keyidx : ℤ := if n < NUMKEYS then (ctx.parts.getD n {}).keyidx else i16 ctx.nkeys

/-- `parts[n].label`. -/
def label : List UInt8 := if n < NUMKEYS then (ctx.parts.getD n {}).label else ctx.keyfile

/-- What `stat_part_node` stores in `parts[n]`. Behind the table that is `keysize` and the first
bytes of `keydata`. -/
def putStat (size rdev : ℕ) : Top :=
  if n < NUMKEYS then
    { ctx with parts := ctx.parts.modify n fun pt => { pt with size := size, rdev := rdev } }
  else
    { ctx with
      keysize := u32 size
      keydata := le 4 (size / 4294967296) ++ le 8 rdev ++ ctx.keydata.drop 12 }

end Top

/-- `parse_part_labels`, with `ki` and `n`. If the program fails, the error is what it has left
behind. -/
def parsePartLabels : List (List UInt8) → ℤ → ℕ → Top → Except Top Top
  | [], _, n, ctx => .ok { ctx with nparts := n }
  | arg :: args, ki, n, ctx =>
    if arg = [45] then parsePartLabels args (i32 (ki + 1)) n ctx
    else do
      refuse (((splitIndex arg).any fun spec => spec.1 ≤ 0) = true) ctx
      let spec := ((splitIndex arg).map fun spec => (spec.1 - 1, spec.2)).getD (ki, arg)
      refuse ((NUMKEYS : ℤ) < spec.1) ctx
      refuse (NUMKEYS < n) ctx
      parsePartLabels args spec.1 (n + 1) (ctx.putPart n spec.1 spec.2)

/-- `load_key_data`. One read returns no more than there is room for. -/
def loadKeyData (env : Env) (name : List UInt8) (ctx : Top) : Except Top Top :=
  match env.file with
  | none => .error ctx
  | some f => do
    let got := f.take FILEBUF
    let ctx := { ctx with keydata := got ++ ctx.keydata.drop got.length }
    refuse (MAXFILE < got.length) ctx
    refuse (got.length < HDRSIZE) ctx
    refuse ((got.length - HDRSIZE) % KEYSIZE ≠ 0) ctx
    .ok { ctx with
      nkeys := ((got.length - HDRSIZE) / KEYSIZE : ℕ), keysize := got.length, keyfile := name }

/-- The path of `stat_part_node`, in a buffer of a hundred bytes. -/
def path (label : List UInt8) : List UInt8 := ("/dev/mapper/".toUTF8.toList ++ label).take 99

/-- The loop of `validate_parts`, with `stat_part_node`. -/
def validateFrom (env : Env) : (k i : ℕ) → Top → Except Top Top
  | 0, _, ctx => .ok ctx
  | k + 1, i, ctx => do
    refuse (ctx.nkeys ≤ ctx.keyidx i) ctx
    match env.stat (path (ctx.label i)) with
    | none => .error ctx
    | some (size, rdev) => validateFrom env k (i + 1) (ctx.putStat i size rdev)

def validateParts (env : Env) (ctx : Top) : Except Top Top := validateFrom env ctx.nparts 0 ctx

def setupArgs (env : Env) (argv : Argv) : Except Top Top := do
  refuse (argv.labels = []) {}
  let ctx ← parsePartLabels argv.labels 0 0 {}
  let ctx ← loadKeyData env argv.keyfile ctx
  validateParts env ctx

/-- What is left behind, whether it went well or not. -/
def final : Except Top Top → Top
  | .ok ctx => ctx
  | .error ctx => ctx

/-! ### What is asked of it -/

/-- Only `parts` has been written to. -/
def Top.Inside (ctx : Top) : Prop := ∀ n ∈ ctx.touched, n < NUMKEYS

/-- The index of each partition is that of a key, and the key stands in what was read of the
file. -/
def Top.Keyed (ctx : Top) : Prop :=
  ∀ i < ctx.nparts, 0 ≤ ctx.keyidx i ∧ ctx.keyidx i < ctx.nkeys ∧
    HDRSIZE + KEYSIZE * (ctx.keyidx i).toNat + KEYSIZE ≤ ctx.keysize

/-- The index of the key of a partition: its own number less one, or that of the one before. -/
def keyIndex (arg : List UInt8) (ki : ℤ) : ℤ :=
  ((splitIndex arg).map fun spec => spec.1 - 1).getD ki

/-- The label of a partition, after its number. -/
def labelOf (arg : List UInt8) : List UInt8 := ((splitIndex arg).map Prod.snd).getD arg

/-- The number is let through. -/
def passes (arg : List UInt8) (ki : ℤ) : Bool :=
  !((splitIndex arg).any fun spec => spec.1 ≤ 0) && keyIndex arg ki ≤ NUMKEYS

/-- For each partition of the command line, whether its number is let through. -/
def usable : List (List UInt8) → ℤ → List Bool
  | [], _ => []
  | arg :: args, ki =>
    if arg = [45] then usable args (i32 (ki + 1))
    else passes arg ki :: usable args (keyIndex arg ki)

/-- **There is a partition too many**, and nothing is wrong with it or those before it. -/
def Crowded (labels : List (List UInt8)) : Prop :=
  replicate (NUMKEYS + 1) true <+: usable labels 0

/-! ### Where it writes to -/

variable {env : Env} {ctx : Top} {args : List (List UInt8)} {ki : ℤ} {n : ℕ}

@[simp] lemma touched_putPart (label : List UInt8) :
    (ctx.putPart n ki label).touched = ctx.touched ++ [n] := by
  rw [Top.putPart]
  split_ifs <;> rfl

@[simp] lemma touched_putStat (size rdev : ℕ) :
    (ctx.putStat n size rdev).touched = ctx.touched := by
  rw [Top.putStat]
  split_ifs <;> rfl

variable {arg : List UInt8}

/-- One partition. -/
theorem parsePartLabels_cons (h : arg ≠ [45]) :
    parsePartLabels (arg :: args) ki n ctx =
      if passes arg ki = true ∧ n ≤ NUMKEYS then
        parsePartLabels args (keyIndex arg ki) (n + 1)
          (ctx.putPart n (keyIndex arg ki) (labelOf arg))
      else .error ctx := by
  have hspec : ((splitIndex arg).map fun spec => (spec.1 - 1, spec.2)).getD (ki, arg) =
      (keyIndex arg ki, labelOf arg) := by
    rw [keyIndex, labelOf]
    cases splitIndex arg <;> rfl
  rw [parsePartLabels, if_neg h, hspec, passes]
  cases (splitIndex arg).any fun spec => spec.1 ≤ 0 with
  | true => rfl
  | false =>
    by_cases hk : (NUMKEYS : ℤ) < keyIndex arg ki
    · rw [if_neg (by simp [hk])]
      simp [refuse, hk, bind, Except.bind]
    · by_cases hn : NUMKEYS < n
      · rw [if_neg (by omega)]
        simp [refuse, hk, hn, bind, Except.bind]
      · rw [if_pos ⟨by simpa using hk, by omega⟩]
        simp [refuse, hk, hn, bind, Except.bind]

/-- **The places written to**: one for each partition that is let through before the first one
that is not, and one too many. -/
theorem touched_parsePartLabels (hn : n ≤ NUMKEYS + 1) :
    (final (parsePartLabels args ki n ctx)).touched = ctx.touched ++
      List.range' n (min (NUMKEYS + 1 - n) ((usable args ki).takeWhile id).length) := by
  induction args generalizing ki n ctx with
  | nil => simp [parsePartLabels, final, usable]
  | cons arg args ih =>
    by_cases hdash : arg = [45]
    · rw [parsePartLabels, usable, if_pos hdash, if_pos hdash]
      exact ih hn
    · rw [parsePartLabels_cons hdash, usable, if_neg hdash, takeWhile_cons]
      split_ifs with hgo hpass hpass
      · generalize hl : ((usable args (keyIndex arg ki)).takeWhile id).length = l
        have hmin : min (NUMKEYS + 1 - n) (l + 1) = min (NUMKEYS + 1 - (n + 1)) l + 1 := by omega
        rw [ih (by omega), touched_putPart, append_assoc, length_cons, hl, hmin, range'_succ]
        rfl
      · exact absurd hgo.1 hpass
      · -- the table has one more than it has room for
        have hfull : NUMKEYS + 1 - n = 0 := by
          have hlt : NUMKEYS < n := Nat.lt_of_not_le fun hle => hgo ⟨hpass, hle⟩
          omega
        simp [final, hfull]
      · simp [final]

/-- The rest of `setup_args` writes to no place of `parts` that has not been written to. -/
theorem touched_loadKeyData (name : List UInt8) :
    (final (loadKeyData env name ctx)).touched = ctx.touched := by
  rw [loadKeyData]
  cases env.file with
  | none => rfl
  | some f =>
    simp only [refuse, bind, Except.bind]
    split_ifs <;> rfl

lemma touched_validateFrom (k i : ℕ) :
    (final (validateFrom env k i ctx)).touched = ctx.touched := by
  induction k generalizing i ctx with
  | zero => rfl
  | succ k ih =>
    rw [validateFrom]
    by_cases hkey : ctx.nkeys ≤ ctx.keyidx i
    · rw [refuse, if_pos hkey]
      rfl
    · rw [refuse, if_neg hkey]
      show (final (match env.stat (path (ctx.label i)) with
        | none => .error ctx
        | some (size, rdev) => validateFrom env k (i + 1) (ctx.putStat i size rdev))).touched = _
      split
      · rfl
      · rw [ih, touched_putStat]

/-- One step and the rest, if the rest writes to no more places. -/
theorem touched_bind {x : Except Top Top} {f : Top → Except Top Top}
    (hf : ∀ ctx, (final (f ctx)).touched = ctx.touched) :
    (final (x >>= f)).touched = (final x).touched := by
  cases x with
  | error ctx => rfl
  | ok ctx => exact hf ctx

lemma touched_setupArgs (argv : Argv) :
    (final (setupArgs env argv)).touched =
      List.range (min (NUMKEYS + 1) ((usable argv.labels 0).takeWhile id).length) := by
  rw [setupArgs]
  by_cases hnil : argv.labels = []
  · rw [refuse, if_pos hnil, hnil]
    rfl
  · rw [refuse, if_neg hnil]
    show (final (parsePartLabels argv.labels 0 0 {} >>= fun ctx =>
      loadKeyData env argv.keyfile ctx >>= validateParts env)).touched = _
    rw [touched_bind, touched_parsePartLabels (Nat.zero_le _), range_eq_range']
    · rfl
    · intro ctx
      rw [touched_bind, touched_loadKeyData]
      exact fun ctx => touched_validateFrom _ _

/-- A list starts with so many that are true if so many are taken from its front. -/
theorem replicate_prefix_iff (k : ℕ) (l : List Bool) :
    replicate k true <+: l ↔ k ≤ (l.takeWhile id).length := by
  induction l generalizing k with
  | nil => cases k <;> simp [replicate_succ]
  | cons b l ih =>
    cases k with
    | zero => simp
    | succ k =>
      rw [replicate_succ, cons_prefix_cons, ih]
      cases b <;> simp

/-- **It stays in its table** unless there is a partition too many. -/
theorem inside_iff (argv : Argv) : (final (setupArgs env argv)).Inside ↔ ¬Crowded argv.labels := by
  rw [Top.Inside, touched_setupArgs, Crowded, replicate_prefix_iff]
  simp only [mem_range]
  refine ⟨fun h hlong => ?_, fun h n hn => by omega⟩
  exact absurd (h NUMKEYS (by omega)) (lt_irrefl _)

/-! ### The keys -/

/-- The key index has been counted up from a small one, and there are `m` arguments left. -/
structure Counted (ki : ℤ) (m : ℕ) : Prop where
  left : m ≤ 2147483645
  count : ∃ k : ℕ, ki = i32 k ∧ k + m ≤ 2147483660

lemma Counted.dash {m : ℕ} (h : Counted ki (m + 1)) : Counted (i32 (ki + 1)) m := by
  have hm := h.left
  obtain ⟨k, hki, hk⟩ := h.count
  refine ⟨by omega, k + 1, ?_, by omega⟩
  have hone := i32_add_i32_mul k 1 1
  rw [mul_one, mul_one] at hone
  rw [hki, hone, Nat.cast_add, Nat.cast_one]

/-- A number of its own, which is let through. -/
theorem keyIndex_of_some {spec : ℤ × List UInt8} (hs : splitIndex arg = some spec)
    (h : passes arg ki = true) : 0 ≤ keyIndex arg ki ∧ keyIndex arg ki ≤ NUMKEYS := by
  rw [passes, Bool.and_eq_true, Bool.not_eq_true', decide_eq_true_eq, hs, any_some,
    decide_eq_false_iff_not] at h
  refine ⟨?_, h.2⟩
  have hk : keyIndex arg ki = spec.1 - 1 := by rw [keyIndex, hs]; rfl
  omega

lemma Counted.part {m : ℕ} (h : Counted ki (m + 1))
    (hpass : passes arg ki = true) : Counted (keyIndex arg ki) m := by
  have hm := h.left
  obtain ⟨k, hki, hk⟩ := h.count
  have hsize : (NUMKEYS : ℤ) = 16 := rfl
  cases hs : splitIndex arg with
  | none =>
    refine ⟨by omega, k, ?_, by omega⟩
    rw [keyIndex, hs]
    exact hki
  | some spec =>
    obtain ⟨h0, h1⟩ := keyIndex_of_some hs hpass
    refine ⟨by omega, (keyIndex arg ki).toNat, ?_, by omega⟩
    rw [i32_of_range (by omega) (by omega)]
    omega

/-- **What is stored is an index**: where the dashes have made it come round to a negative
number, there are too few of them for it to be negative as a `short`. -/
theorem Counted.stored {m : ℕ} (h : Counted ki (m + 1))
    (hpass : passes arg ki = true) : 0 ≤ i16 (keyIndex arg ki) := by
  have hsize : (NUMKEYS : ℤ) = 16 := rfl
  have hle : keyIndex arg ki ≤ NUMKEYS := by
    rw [passes, Bool.and_eq_true, decide_eq_true_eq] at hpass
    exact hpass.2
  cases hs : splitIndex arg with
  | some spec =>
    obtain ⟨h0, -⟩ := keyIndex_of_some hs hpass
    rw [i16]
    omega
  | none =>
    obtain ⟨k, hki, hsum⟩ := h.count
    have hsame : keyIndex arg ki = i32 k := by
      rw [keyIndex, hs]
      exact hki
    rw [hsame] at hle ⊢
    rw [i32] at hle ⊢
    rw [i16]
    omega

lemma mem_putPart {label : List UInt8} {pt : Part} (h : pt ∈ (ctx.putPart n ki label).parts) :
    pt ∈ ctx.parts ∨ pt.keyidx = i16 ki := by
  rw [Top.putPart] at h
  split_ifs at h
  · obtain ⟨j, hj⟩ := mem_iff_getElem?.mp h
    rw [getElem?_modify] at hj
    obtain ⟨old, hold, heq⟩ := map_eq_some_iff.mp hj
    split_ifs at heq
    · exact .inr (by rw [← heq])
    · exact .inl (heq ▸ mem_of_getElem? hold)
  · exact .inl h

/-- **What `parse_part_labels` leaves in the table.** -/
theorem parsePartLabels_spec {ctx' : Top} (hki : Counted ki args.length)
    (hctx : ∀ pt ∈ ctx.parts, 0 ≤ pt.keyidx)
    (h : parsePartLabels args ki n ctx = .ok ctx') : ∀ pt ∈ ctx'.parts, 0 ≤ pt.keyidx := by
  induction args generalizing ki n ctx with
  | nil =>
    cases h
    exact hctx
  | cons arg args ih =>
    by_cases hdash : arg = [45]
    · rw [parsePartLabels, if_pos hdash] at h
      exact ih hki.dash hctx h
    · rw [parsePartLabels_cons hdash] at h
      split_ifs at h with hgo
      refine ih (hki.part hgo.1) (fun pt hpt => ?_) h
      rcases mem_putPart hpt with hold | hnew
      · exact hctx pt hold
      · rw [hnew]
        exact hki.stored hgo.1

/-- What `load_key_data` leaves. -/
theorem loadKeyData_spec {name : List UInt8} {ctx' : Top}
    (h : loadKeyData env name ctx = .ok ctx') :
    ctx'.parts = ctx.parts ∧ 0 ≤ ctx'.nkeys ∧ ctx'.nkeys ≤ NUMKEYS ∧
      HDRSIZE + KEYSIZE * ctx'.nkeys.toNat = ctx'.keysize := by
  rw [loadKeyData] at h
  cases hf : env.file with
  | none =>
    rw [hf] at h
    cases h
  | some f =>
    rw [hf] at h
    obtain ⟨_, hmax, h⟩ := ok_of_bind h
    obtain ⟨_, hmin, h⟩ := ok_of_bind h
    obtain ⟨_, hmod, h⟩ := ok_of_bind h
    rw [refuse_eq_ok_iff] at hmax hmin hmod
    cases h
    refine ⟨rfl, ?_⟩
    simp only [NUMKEYS, KEYSIZE, HDRSIZE, MAXFILE] at hmax hmin hmod ⊢
    exact ⟨by omega, by omega, by omega⟩

lemma keyidx_putStat (size rdev j : ℕ) (hn : n < NUMKEYS) :
    (ctx.putStat n size rdev).keyidx j = ctx.keyidx j := by
  have hmod : (ctx.parts.modify n fun pt => { pt with size := size, rdev := rdev }).getD j {} =
      if n = j then { ctx.parts.getD j {} with
        size := if j < ctx.parts.length then size else 0,
        rdev := if j < ctx.parts.length then rdev else 0 } else ctx.parts.getD j {} := by
    rw [getD_eq_getElem?_getD, getElem?_modify, getD_eq_getElem?_getD]
    rcases lt_or_ge j ctx.parts.length with hj | hj
    · rw [getElem?_eq_getElem hj]
      split_ifs <;> simp
    · rw [getElem?_eq_none hj]
      split_ifs <;> simp
      all_goals omega
  rw [Top.putStat, if_pos hn, Top.keyidx, Top.keyidx]
  rw [hmod]
  split_ifs <;> rfl

/-- **What `validate_parts` has looked at** if it is content: no partition but those of the
table, for behind it there is `nkeys`, which is no index of a key. -/
theorem validateFrom_spec {k i : ℕ} {ctx' : Top} (h0 : 0 ≤ ctx.nkeys) (h1 : ctx.nkeys ≤ NUMKEYS)
    (h : validateFrom env k i ctx = .ok ctx') :
    ctx'.nkeys = ctx.nkeys ∧ ctx'.keysize = ctx.keysize ∧ ctx'.nparts = ctx.nparts ∧
      (∀ j, ctx'.keyidx j = ctx.keyidx j) ∧
      ∀ j, i ≤ j → j < i + k → j < NUMKEYS ∧ ctx.keyidx j < ctx.nkeys := by
  induction k generalizing i ctx with
  | zero =>
    cases h
    exact ⟨rfl, rfl, rfl, fun _ => rfl, fun j h2 h3 => by omega⟩
  | succ k ih =>
    rw [validateFrom] at h
    obtain ⟨_, hkey, h⟩ := ok_of_bind h
    rw [refuse_eq_ok_iff, not_le] at hkey
    have hin : i < NUMKEYS := by
      by_contra hout
      have hsize : (NUMKEYS : ℤ) = 16 := rfl
      rw [Top.keyidx, if_neg hout, i16_eq_self_iff.mpr ⟨by omega, by omega⟩] at hkey
      exact lt_irrefl _ hkey
    split at h
    · cases h
    · rename_i size rdev _
      have hput : ctx.putStat i size rdev = { ctx with
          parts := ctx.parts.modify i fun pt => { pt with size := size, rdev := rdev } } :=
        if_pos hin
      have hnkeys : (ctx.putStat i size rdev).nkeys = ctx.nkeys := by rw [hput]
      obtain ⟨e1, e2, e3, e4, e5⟩ := ih (by rwa [hnkeys]) (by rwa [hnkeys]) h
      refine ⟨e1.trans hnkeys, e2.trans (by rw [hput]), e3.trans (by rw [hput]), ?_, ?_⟩
      · exact fun j => (e4 j).trans (keyidx_putStat size rdev j hin)
      · intro j hij hj
        rcases Nat.eq_or_lt_of_le hij with rfl | hlt
        · exact ⟨hin, hkey⟩
        · obtain ⟨hj1, hj2⟩ := e5 j hlt (by omega)
          rw [keyidx_putStat size rdev j hin, hnkeys] at hj2
          exact ⟨hj1, hj2⟩

/-- **The keys are those of the file**, if `setup_args` is content. -/
theorem keyed_setupArgs {argv : Argv} {ctx : Top} (h : setupArgs env argv = .ok ctx) :
    ctx.Keyed := by
  obtain ⟨-, -, h⟩ := ok_of_bind h
  obtain ⟨ctx1, hparse, h⟩ := ok_of_bind h
  obtain ⟨ctx2, hload, hval⟩ := ok_of_bind h
  have hargc := argv.argc
  have hparts := @parsePartLabels_spec _ _ 0 _ _ ⟨by omega, 0, rfl, by omega⟩ (by decide) hparse
  obtain ⟨hsame, h0, h1, hsize⟩ := loadKeyData_spec hload
  obtain ⟨e1, e2, e3, e4, e5⟩ := validateFrom_spec h0 h1 hval
  intro i hi
  obtain ⟨hin, hlt⟩ := e5 i (Nat.zero_le i) (by omega)
  have hnonneg : 0 ≤ ctx2.keyidx i := by
    rw [Top.keyidx, if_pos hin, hsame, getD_eq_getElem?_getD]
    rcases Nat.lt_or_ge i ctx1.parts.length with hj | hj
    · rw [getElem?_eq_getElem hj]
      exact hparts _ (getElem_mem hj)
    · rw [getElem?_eq_none hj]
      exact le_rfl
  rw [e4, e1, e2]
  refine ⟨hnonneg, hlt, ?_⟩
  rw [← hsize]
  simp only [KEYSIZE, HDRSIZE]
  omega

/-! ### Without the tables -/

/-- **The tables with these partitions in them**: each in its place, except that the seventeenth
lies over `nkeys` and the name of the key file. -/
def stored (parts : List Dcrypt.Part) : Top where
  parts := (parts.take NUMKEYS).map (fun pt => { keyidx := pt.keyidx, label := pt.label }) ++
    replicate (NUMKEYS - parts.length) {}
  nkeys := (parts[NUMKEYS]?.map Dcrypt.Part.keyidx).getD 0
  keyfile := (parts[NUMKEYS]?.map Dcrypt.Part.label).getD []
  touched := range parts.length

/-- The same once they have been counted. -/
def filled (parts : List Dcrypt.Part) : Top := { stored parts with nparts := parts.length }

lemma found_cons (h : arg ≠ [45]) :
    Dcrypt.parsePartLabels (arg :: args) ki n =
      if passes arg ki = true ∧ n ≤ NUMKEYS then
        (Dcrypt.parsePartLabels args (keyIndex arg ki) (n + 1)).map
          (⟨keyIndex arg ki, labelOf arg⟩ :: ·)
      else .error .fail := by
  have hspec : ((splitIndex arg).map fun spec => (⟨spec.1 - 1, spec.2⟩ : Dcrypt.Part)).getD
      ⟨ki, arg⟩ = ⟨keyIndex arg ki, labelOf arg⟩ := by
    rw [keyIndex, labelOf]
    cases splitIndex arg <;> rfl
  rw [Dcrypt.parsePartLabels, if_neg h, hspec, passes]
  cases (splitIndex arg).any fun spec => spec.1 ≤ 0 with
  | true => rfl
  | false =>
    have hsize : (NUMKEYS : ℤ) = 16 := rfl
    by_cases hk : (16 : ℤ) < keyIndex arg ki
    · rw [decide_eq_false (by omega : ¬keyIndex arg ki ≤ NUMKEYS)]
      simp [refuse, hk, bind, Except.bind]
    · rw [decide_eq_true (by omega : keyIndex arg ki ≤ NUMKEYS)]
      by_cases hn : 16 < n
      · rw [if_neg (fun hgo => absurd hgo.2 (Nat.not_le.mpr hn))]
        simp [refuse, hk, hn, bind, Except.bind]
      · rw [if_pos ⟨rfl, Nat.not_lt.mp hn⟩]
        simp [refuse, hk, hn, bind, Except.bind, Except.map]

/-- One partition more. -/
theorem putPart_stored {parts : List Dcrypt.Part} (hlen : parts.length ≤ NUMKEYS) (h0 : 0 ≤ ki)
    (h1 : ki ≤ NUMKEYS) (label : List UInt8) :
    (stored parts).putPart parts.length ki label = stored (parts ++ [⟨ki, label⟩]) := by
  have hsize : (NUMKEYS : ℤ) = 16 := rfl
  have hmore : (parts ++ [(⟨ki, label⟩ : Dcrypt.Part)]).length = parts.length + 1 := by
    rw [length_append, length_singleton]
  have hnone : parts[NUMKEYS]? = none := getElem?_eq_none hlen
  have htake : parts.take NUMKEYS = parts := take_of_length_le hlen
  rw [Top.putPart, stored, stored, hmore, hnone, htake, ← range_succ]
  by_cases hin : parts.length < NUMKEYS
  · obtain ⟨m, hm⟩ : ∃ m, NUMKEYS - parts.length = m + 1 :=
      ⟨NUMKEYS - parts.length - 1, by omega⟩
    have hm' : NUMKEYS - (parts.length + 1) = m := by omega
    have hnone' : (parts ++ [(⟨ki, label⟩ : Dcrypt.Part)])[NUMKEYS]? = none :=
      getElem?_eq_none (by rw [hmore]; omega)
    have htake' : (parts ++ [(⟨ki, label⟩ : Dcrypt.Part)]).take NUMKEYS = parts ++ [⟨ki, label⟩] :=
      take_of_length_le (by rw [hmore]; omega)
    have hi16 : i16 ki = ki := i16_eq_self_iff.mpr ⟨by omega, by omega⟩
    have hmap : (parts.map fun pt => ({ keyidx := pt.keyidx, label := pt.label } : Part)).length =
        parts.length := length_map ..
    rw [if_pos hin, hnone', htake', hm, hm', modify_eq_take_drop, take_left' hmap, drop_left' hmap,
      hi16, map_append, append_assoc]
    rfl
  · have hfull : parts.length = NUMKEYS := by omega
    have hlast : (parts ++ [(⟨ki, label⟩ : Dcrypt.Part)])[NUMKEYS]? = some ⟨ki, label⟩ := by
      rw [← hfull, getElem?_concat_length]
    have htake' : (parts ++ [(⟨ki, label⟩ : Dcrypt.Part)]).take NUMKEYS = parts :=
      take_left' hfull
    have hnkeys : i32 (0 - 0 % 65536 + u16 ki) = ki := by
      rw [u16, i32]
      omega
    have hnone0 : NUMKEYS - parts.length = 0 := by omega
    have hnone1 : NUMKEYS - (parts.length + 1) = 0 := by omega
    rw [if_neg hin, hlast, htake', hnone0, hnone1]
    dsimp only [Option.map_none, Option.getD_none]
    rw [hnkeys]
    rfl

/-- A partition that is let through has the index of a key, where no index comes round. -/
theorem keyIndex_range {m : ℕ} (hpass : passes arg ki = true) (h0 : 0 ≤ ki)
    (h1 : ki + m + 1 < 2147483648) (h2 : m + 17 < 2147483648) :
    0 ≤ keyIndex arg ki ∧ keyIndex arg ki ≤ NUMKEYS ∧ keyIndex arg ki + m < 2147483648 := by
  have hsize : (NUMKEYS : ℤ) = 16 := rfl
  have hle : keyIndex arg ki ≤ NUMKEYS := by
    rw [passes, Bool.and_eq_true, decide_eq_true_eq] at hpass
    exact hpass.2
  cases hs : splitIndex arg with
  | none =>
    have hki : keyIndex arg ki = ki := by rw [keyIndex, hs]; rfl
    omega
  | some spec =>
    obtain ⟨h3, h4⟩ := keyIndex_of_some hs hpass
    omega

/-- The partitions found after these. -/
theorem parsePartLabels_stored_after {done : List Dcrypt.Part} (hdone : done.length ≤ NUMKEYS + 1)
    (h0 : 0 ≤ ki) (h1 : ki + args.length < 2147483648) (h2 : args.length + 16 < 2147483648) :
    match Dcrypt.parsePartLabels args ki done.length with
    | .ok parts => parsePartLabels args ki done.length (stored done) = .ok (filled (done ++ parts))
    | .error _ => ∃ ctx, parsePartLabels args ki done.length (stored done) = .error ctx := by
  induction args generalizing ki done with
  | nil =>
    show Except.ok (filled done) = .ok (filled (done ++ []))
    rw [append_nil]
  | cons arg args ih =>
    rw [length_cons, Nat.cast_add, Nat.cast_one] at h1
    rw [length_cons] at h2
    by_cases hdash : arg = [45]
    · rw [Dcrypt.parsePartLabels, parsePartLabels, if_pos hdash, if_pos hdash,
        i32_of_range (by omega) (by omega)]
      exact ih hdone (by omega) (by omega) (by omega)
    · rw [found_cons hdash, parsePartLabels_cons hdash]
      by_cases hgo : passes arg ki = true ∧ done.length ≤ NUMKEYS
      · obtain ⟨h3, h4, h5⟩ := keyIndex_range (m := args.length) hgo.1 h0 (by omega) (by omega)
        have hmore : (done ++ [(⟨keyIndex arg ki, labelOf arg⟩ : Dcrypt.Part)]).length =
            done.length + 1 := by
          rw [length_append, length_singleton]
        have hrest := @ih _ (done ++ [⟨keyIndex arg ki, labelOf arg⟩])
          (by rw [hmore]; have := hgo.2; omega) h3 h5 (by omega)
        rw [if_pos hgo, if_pos hgo, putPart_stored hgo.2 h3 h4]
        rw [hmore] at hrest
        cases hfound : Dcrypt.parsePartLabels args (keyIndex arg ki) (done.length + 1) with
        | ok parts =>
          rw [hfound] at hrest
          show _ = Except.ok (filled (done ++ ([_] ++ parts)))
          rw [← append_assoc]
          exact hrest
        | error e =>
          rw [hfound] at hrest
          exact hrest
      · rw [if_neg hgo, if_neg hgo]
        exact ⟨stored done, rfl⟩

/-- **What `parse_part_labels` makes of its arguments**: it fails where the plain reading of them
does, and otherwise the tables are those with the partitions found, whose number is `nparts`. -/
theorem parsePartLabels_stored (h : args.length + 16 < 2147483648) :
    match Dcrypt.parsePartLabels args 0 0 with
    | .ok parts => parsePartLabels args 0 0 {} = .ok (filled parts)
    | .error _ => ∃ ctx, parsePartLabels args 0 0 {} = .error ctx := by
  have hdone : ([] : List Dcrypt.Part).length ≤ NUMKEYS + 1 := Nat.zero_le _
  exact parsePartLabels_stored_after hdone le_rfl (by omega) h

/-- Seventeen partitions, the last of them with the second key. -/
theorem parsePartLabels_stored_full :
    (parsePartLabels (replicate 16 [97] ++ [[50, 58, 98]]) 0 0 {}).toOption.map
      (fun ctx => (ctx.nparts, ctx.nkeys, ctx.keyfile)) = some (17, 1, [98]) := by
  have hfound : Dcrypt.parsePartLabels (replicate 16 [97] ++ [[50, 58, 98]]) 0 0 =
      .ok (replicate 16 ⟨0, [97]⟩ ++ [⟨1, [98]⟩]) := by
    decide +kernel
  have hstored := @parsePartLabels_stored (replicate 16 [97] ++ [[50, 58, 98]]) (by norm_num)
  rw [hfound] at hstored
  rw [hstored]
  rfl

/-! ### Both -/

/-- **The tables of `passblk`**: for every command line and every key file, only the table of
partitions is written to and, if the arguments are accepted, each partition has the index of a
key that was read, if and only if there is not one partition too many that is let through. -/
theorem setup_args_inside_iff (env : Env) (argv : Argv) :
    ((final (setupArgs env argv)).Inside ∧ ∀ ctx, setupArgs env argv = .ok ctx → ctx.Keyed) ↔
      ¬Crowded argv.labels := by
  rw [inside_iff]
  exact ⟨And.left, fun h => ⟨h, fun _ => keyed_setupArgs⟩⟩

/-- **Seventeen partitions** are one too many. -/
theorem setup_args_not_inside :
    ¬∀ (env : Env) (argv : Argv),
      (final (setupArgs env argv)).Inside ∧ ∀ ctx, setupArgs env argv = .ok ctx → ctx.Keyed := by
  intro h
  have hin := (h ⟨none, fun _ => none⟩ ⟨"keyfile".toUTF8.toList, replicate 17 [97], by decide⟩).1
  have hmem : (16 : ℕ) ∈ (final (setupArgs ⟨none, fun _ => none⟩
    ⟨"keyfile".toUTF8.toList, replicate 17 [97], by decide⟩)).touched := by
    decide
  exact absurd (hin 16 hmem) (by decide)

end Passblk

end Minibase.Dcrypt
