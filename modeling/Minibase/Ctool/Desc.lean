import Minibase.Mpkg.Filedb

/-!
# Tool descriptions

`ctool_bin_parse.c` makes a record, `struct stmt`, of each line of a tool description: the
number of its keyword, and the arguments as offsets into the bytes that follow.
`Ctool.Use.Statement` is what a line says, and reading a record back from its offsets gives the
statement of its line (`Ctool.Use.parseToolDesc_spec`).
-/

namespace Minibase.Ctool.Use

open List Function

open Mpkg (Fail PAGE linesOf)

/-- A string: the bytes before the terminating zero. -/
abbrev Str := List UInt8

/-- The string that starts here. -/
def cstr (p : List UInt8) : Str := p.takeWhile (· ≠ 0)

/-- How a command ends early: in `fail`, in `fail_syntax` at a line of the description, or in a
crash. -/
inductive Halt
  | fail (f : Fail)
  | syn (line : ℤ) (msg : String)
  | crash
deriving DecidableEq

/-- The keywords, in the order of the table. -/
inductive Key
  | pref
  | config
  | interp
  | link
  | repo
  | script
deriving DecidableEq

/-- `keywords`, the words: `prefix`, `config`, `interp`, `link`, `repo`, `script`. -/
def keywords : List (Str × Key) :=
  [([0x70, 0x72, 0x65, 0x66, 0x69, 0x78], .pref), ([0x63, 0x6F, 0x6E, 0x66, 0x69, 0x67], .config),
    ([0x69, 0x6E, 0x74, 0x65, 0x72, 0x70], .interp), ([0x6C, 0x69, 0x6E, 0x6B], .link),
    ([0x72, 0x65, 0x70, 0x6F], .repo), ([0x73, 0x63, 0x72, 0x69, 0x70, 0x74], .script)]

/-- `struct stmt`. The arguments are offsets from its start, zero if there is none; `payload` is
what comes after the header. -/
structure Stmt where
  len : ℕ
  line : ℕ
  code : ℕ
  arg : Fin 3 → ℕ
  payload : List UInt8

/-- `st->line`, which is a `short`. -/
def Stmt.shortLine (st : Stmt) : ℤ := (BitVec.ofNat 16 st.line).toInt

/-- `sizeof(struct stmt)` -/
def HEADER : ℕ := 12

def isspace (c : UInt8) : Bool := c == 0x20 || c == 0x09

/-- The words of a line, as `skip_space` and `skip_word` go through it, in at most so many
rounds. -/
def wordsFrom : ℕ → List UInt8 → List Str
  | 0, _ => []
  | k + 1, p =>
    match p.dropWhile isspace with
    | [] => []
    | c :: p =>
      let word := (c :: p).takeWhile (!isspace ·)
      word :: wordsFrom k ((c :: p).drop word.length)

/-- The words of a line. -/
def wordsOf (p : List UInt8) : List Str := wordsFrom p.length p

/-! ### Records -/

scoped instance neZero_three : NeZero (2 + 1) := ⟨by decide⟩

namespace Stmt

/-- `st_arg_str` -/
def argStr (st : Stmt) (i : Fin 3) : Option Str :=
  if st.arg i = 0 ∨ PAGE < st.arg i then none else some (cstr (st.payload.drop (st.arg i - HEADER)))

/-- `set_st_arg` -/
def setArg (st : Stmt) (i : Fin 3) (off : ℕ) : Except Halt Stmt := do
  refuse (PAGE ≤ off) (.fail ⟨some "st offset fault", none, none⟩)
  return { st with arg := update st.arg i off }

/-- `copy_string`, with the bytes up to the next multiple of four. -/
def copyString (s : Str) : List UInt8 := s ++ 0 :: replicate (3 - s.length % 4) 0

/-- `copy_arg`. The end of an argument that does not fit a page is not found. -/
def copyArg (st : Stmt) (i : Fin 3) (arg : List UInt8) : Except Halt Stmt := do
  refuse (PAGE ≤ (cstr arg).length) .crash
  setArg { st with payload := st.payload ++ copyString (cstr arg) } i (HEADER + st.payload.length)

/-- `copy_args`. There are never more than three. -/
def copyArgs (st : Stmt) (args : List (List UInt8)) (min max : ℕ) : Except Halt Stmt := do
  refuse (args.length < min) (.syn st.line "argument required")
  refuse (max < args.length) (.syn st.line "extra arguments")
  match args with
  | [] => return st
  | [a] => st.copyArg 0 a
  | [a, b] => do
    let st ← st.copyArg 0 a
    st.copyArg 1 b
  | a :: b :: c :: _ => do
    let st ← st.copyArg 0 a
    let st ← st.copyArg 1 b
    st.copyArg 2 c

def cloneArg (st : Stmt) (dst src : Fin 3) : Except Halt Stmt := do
  refuse (st.arg src = 0) (.syn st.line "clone arg fault")
  return if st.arg dst ≠ 0 then st else { st with arg := update st.arg dst (st.arg src) }

/-- `key_config` and `key_link` -/
def keyPair (st : Stmt) (args : List (List UInt8)) : Except Halt Stmt := do
  let st ← st.copyArgs args 1 2
  st.cloneArg 1 0

def keyScript (st : Stmt) (args : List (List UInt8)) : Except Halt Stmt := do
  let st ← st.copyArgs args 1 3
  let st ← st.cloneArg 1 0
  st.cloneArg 2 0

/-- `key_prefix`: the argument is cut in two at a colon, in place. -/
def keyPref (st : Stmt) (args : List (List UInt8)) : Except Halt Stmt := do
  let st ← st.copyArgs args 1 1
  match st.argStr 0 with
  | none => return st
  | some arg =>
    let sep := (arg.takeWhile (· ≠ 0x3A)).length
    if arg.length ≤ sep then return st
    else
      setArg { st with payload := st.payload.set (st.arg 0 - HEADER + sep) 0 } 1
        (st.arg 0 + sep + 1)

/-- `key_repo` and `key_interp` -/
def keyOne (st : Stmt) (args : List (List UInt8)) : Except Halt Stmt := st.copyArgs args 1 1

end Stmt

/-- The functions of the table. -/
def Key.key : Key → Stmt → List (List UInt8) → Except Halt Stmt
  | .pref => Stmt.keyPref
  | .config => Stmt.keyPair
  | .interp => Stmt.keyOne
  | .link => Stmt.keyPair
  | .repo => Stmt.keyOne
  | .script => Stmt.keyScript

def parseKey (st : Stmt) (word : Str) (args : List (List UInt8)) : Except Halt Stmt :=
  match keywords.findIdx? fun kp => kp.1 = word with
  | none => .error (.syn st.line "unknown keyword")
  | some i =>
    match keywords[i]? with
    | none => .error (.syn st.line "unknown keyword")
    | some kp => kp.2.key { st with code := i } args

/-- The loop of `parse_line` over the arguments, `parse_arg`. -/
def parseArgs (line : ℕ) (args : List (List UInt8)) : Except Halt Unit := do
  refuse (3 < args.length) (.syn line "too many args")
  refuse (2 ^ 16 < (args.map fun a => a.length + 1).sum) (.syn line "line too long")

/-- `parse_line`: the record of a line, if there is one. The record is in fresh memory, which is all
zeroes. -/
def parseLine (line : ℕ) (p : List UInt8) : Except Halt (Option Stmt) :=
  if p.head? = some 0x23 ∨ p.all isspace then .ok none
  else do
    let word := p.takeWhile (!isspace ·)
    let args := wordsOf (p.drop word.length)
    parseArgs line args
    let st ← parseKey ⟨0, line, 0, fun _ => 0, []⟩ word args
    -- `set_stmt_size`
    refuse (PAGE < HEADER + st.payload.length) (.syn line "stmt memory fault")
    return some { st with len := HEADER + st.payload.length }

/-- The loop of `parse_tool_desc`, with the lines that are left and the number of the next one. -/
def parseLines : ℕ → List (List UInt8) → Except Halt (List Stmt)
  | _, [] => .ok []
  | line, p :: ps => do
    let st ← parseLine line p
    let sts ← parseLines (line + 1) ps
    return st.toList ++ sts

def parseToolDesc (text : List UInt8) : Except Halt (List Stmt) := parseLines 1 (linesOf text)

/-! ### What a line says -/

/-- A statement of a description. -/
inductive Statement
  | pref (path : Str) (common : Option Str)
  | config (dst src : Str)
  | interp (path : Str)
  | link (dst target : Str)
  | repo (path : Str)
  | script (dst src tool : Str)
deriving DecidableEq

/-- **The statement of a keyword with its arguments**, with those that are left out filled in. -/
def statementOf : Key → List Str → Option Statement
  | .pref, [p] => some (.pref (p.takeWhile (· ≠ 0x3A))
      (if 0x3A ∈ p then some ((p.dropWhile (· ≠ 0x3A)).drop 1) else none))
  | .config, [dst] => some (.config dst dst)
  | .config, [dst, src] => some (.config dst src)
  | .interp, [path] => some (.interp path)
  | .link, [dst] => some (.link dst dst)
  | .link, [dst, target] => some (.link dst target)
  | .repo, [path] => some (.repo path)
  | .script, [dst] => some (.script dst dst dst)
  | .script, [dst, src] => some (.script dst src dst)
  | .script, [dst, src, tool] => some (.script dst src tool)
  | _, _ => none

/-- The statement of a line, if it says anything. -/
def lineStatement (p : List UInt8) : Option Statement :=
  if p.head? = some 0x23 then none
  else
    match wordsOf p with
    | [] => none
    | word :: args =>
      match keywords.find? fun kp => kp.1 = word with
      | none => none
      | some kp => statementOf kp.2 (args.map cstr)

/-- **What a description says**, line by line. -/
def statementsOf (text : List UInt8) : List Statement := (linesOf text).filterMap lineStatement

/-- The keyword of a statement. -/
def Statement.key : Statement → Key
  | .pref _ _ => .pref
  | .config _ _ => .config
  | .interp _ => .interp
  | .link _ _ => .link
  | .repo _ => .repo
  | .script _ _ _ => .script

/-- What a record is read as. -/
def Stmt.Means (st : Stmt) : Statement → Prop
  | .pref p c => st.argStr 0 = some p ∧ st.argStr 1 = c
  | .config dst src => st.argStr 0 = some dst ∧ st.argStr 1 = some src
  | .interp path => st.argStr 0 = some path
  | .link dst target => st.argStr 0 = some dst ∧ st.argStr 1 = some target
  | .repo path => st.argStr 0 = some path
  | .script dst src tool =>
    st.argStr 0 = some dst ∧ st.argStr 1 = some src ∧ st.argStr 2 = some tool

/-- The strings of a statement. -/
def Statement.texts : Statement → List Str
  | .pref path common => path :: common.toList
  | .config dst src => [dst, src]
  | .interp path => [path]
  | .link dst target => [dst, target]
  | .repo path => [path]
  | .script dst src tool => [dst, src, tool]

/-- They all fit a page. -/
def Statement.Short (s : Statement) : Prop := ∀ t ∈ s.texts, t.length < PAGE

/-- **A record stands for a statement.** -/
structure Reads (st : Stmt) (s : Statement) : Prop where
  code : ∃ word, keywords[st.code]? = some (word, s.key)
  means : st.Means s
  short : s.Short

/-! ### Arguments in records -/

/-- An argument is where its offset says. -/
def ArgAt (st : Stmt) (i : Fin 3) (s : Str) : Prop :=
  ∃ pre post, st.payload = pre ++ s ++ 0 :: post ∧ st.arg i = HEADER + pre.length ∧
    st.arg i < PAGE ∧ 0 ∉ s ∧ s.length < PAGE

section

variable {st st' : Stmt} {i j : Fin 3} {s t : Str} {args : List (List UInt8)}

lemma noNul_cstr (p : List UInt8) : 0 ∉ cstr p := fun h => by
  have := mem_takeWhile_imp h
  simp at this

lemma cstr_append (hs : 0 ∉ s) (post : List UInt8) : cstr (s ++ 0 :: post) = s := by
  have hall : ∀ c ∈ s, decide (c ≠ 0) = true := by
    intro c hc
    refine decide_eq_true ?_
    rintro rfl
    exact hs hc
  rw [cstr, takeWhile_append_of_pos hall, takeWhile_cons]
  simp

lemma ArgAt.argStr (h : ArgAt st i s) : st.argStr i = some s := by
  obtain ⟨pre, post, hpay, harg, hlt, hnul, -⟩ := h
  have hne : ¬(st.arg i = 0 ∨ PAGE < st.arg i) := by
    rw [HEADER] at harg
    omega
  rw [Stmt.argStr, if_neg hne, harg, Nat.add_sub_cancel_left, hpay, append_assoc,
    drop_left, cstr_append hnul]

lemma ArgAt.length_lt (h : ArgAt st i s) : s.length < PAGE := by
  obtain ⟨_, _, -, -, -, -, hlen⟩ := h
  exact hlen

lemma argStr_of_zero (h : st.arg i = 0) : st.argStr i = none := if_pos (.inl h)

/-- What copying an argument leaves as it was. -/
structure Copied (st st' : Stmt) (i : Fin 3) : Prop where
  code : st'.code = st.code
  line : st'.line = st.line
  other : ∀ j, j ≠ i → st'.arg j = st.arg j
  kept : ∀ j s, j ≠ i → ArgAt st j s → ArgAt st' j s

lemma copyArg_spec {arg : List UInt8} (h : st.copyArg i arg = .ok st') :
    ArgAt st' i (cstr arg) ∧ Copied st st' i := by
  obtain ⟨_, hshort, h⟩ := ok_of_bind h
  obtain ⟨_, hoff, h⟩ := ok_of_bind h
  cases h
  have hshort := refuse_eq_ok_iff.mp hshort
  have hoff := refuse_eq_ok_iff.mp hoff
  refine ⟨⟨st.payload, List.replicate (3 - (cstr arg).length % 4) 0, ?_, ?_, ?_, noNul_cstr arg,
    Nat.lt_of_not_le hshort⟩, rfl, rfl, ?_, ?_⟩
  · show st.payload ++ Stmt.copyString (cstr arg) = _
    rw [Stmt.copyString, append_assoc]
  · exact update_self ..
  · show update st.arg i (HEADER + st.payload.length) i < PAGE
    rw [update_self]
    exact Nat.lt_of_not_le hoff
  · intro j hj
    exact update_of_ne hj ..
  · rintro j s hj ⟨pre, post, hpay, harg, hlt, hnul, hlen⟩
    refine ⟨pre, post ++ Stmt.copyString (cstr arg), ?_, ?_, ?_, hnul, hlen⟩
    · show st.payload ++ _ = _
      rw [hpay, append_assoc, append_assoc, append_assoc, cons_append]
    · show update st.arg i (HEADER + st.payload.length) j = _
      rw [update_of_ne hj, harg]
    · show update st.arg i (HEADER + st.payload.length) j < PAGE
      rwa [update_of_ne hj]

lemma cloneArg_spec (h : st.cloneArg j i = .ok st') (hij : i ≠ j) (hi : ArgAt st i s) :
    ArgAt st' i s ∧ (st.arg j = 0 → ArgAt st' j s) ∧ (st.arg j ≠ 0 → st' = st) ∧
      Copied st st' j := by
  obtain ⟨_, -, h⟩ := ok_of_bind h
  cases h
  by_cases hj : st.arg j = 0
  · obtain ⟨pre, post, hpay, harg, hlt, hnul, hlen⟩ := hi
    rw [if_neg (not_not_intro hj)]
    have hkept : ∀ k t, k ≠ j → ArgAt st k t →
        ArgAt { st with arg := update st.arg j (st.arg i) } k t := by
      rintro k t hk ⟨pre, post, hpay, harg, hrest⟩
      refine ⟨pre, post, hpay, ?_, ?_⟩
      · exact (update_of_ne hk ..).trans harg
      · show update st.arg j (st.arg i) k < PAGE ∧ _
        rwa [update_of_ne hk]
    refine ⟨hkept i s hij ⟨pre, post, hpay, harg, hlt, hnul, hlen⟩, fun _ => ?_,
      fun hne => absurd hj hne, rfl, rfl, fun k hk => update_of_ne hk .., hkept⟩
    refine ⟨pre, post, hpay, ?_, ?_, hnul, hlen⟩
    · exact (update_self ..).trans harg
    · show update st.arg j (st.arg i) j < PAGE
      rwa [update_self]
  · rw [if_pos hj]
    exact ⟨hi, fun h0 => absurd h0 hj, fun _ => rfl, rfl, rfl, fun _ _ => rfl, fun _ _ _ h => h⟩

/-- What copying one to three arguments comes to. -/
theorem copyArgs_spec {min max : ℕ} (hmin : 1 ≤ min) (hmax : max ≤ 3)
    (h : st.copyArgs args min max = .ok st') :
    min ≤ args.length ∧ args.length ≤ max ∧ st'.code = st.code ∧ st'.line = st.line ∧
      (∀ i (hi : i < 3), ∀ a, args[i]? = some a → ArgAt st' ⟨i, hi⟩ (cstr a)) ∧
      ∀ i (hi : i < 3), args.length ≤ i → st'.arg ⟨i, hi⟩ = st.arg ⟨i, hi⟩ := by
  obtain ⟨_, hle, h⟩ := ok_of_bind h
  obtain ⟨_, hge, h⟩ := ok_of_bind h
  have hle := Nat.le_of_not_lt (refuse_eq_ok_iff.mp hle)
  have hge := Nat.le_of_not_lt (refuse_eq_ok_iff.mp hge)
  refine ⟨hle, hge, ?_⟩
  have h01 : (0 : Fin 3) ≠ 1 := by decide
  have h02 : (0 : Fin 3) ≠ 2 := by decide
  have h12 : (1 : Fin 3) ≠ 2 := by decide
  match args, h with
  | [], _ => exact absurd (le_trans hmin hle) (by simp)
  | [a], h =>
    obtain ⟨ha, hcopy⟩ := copyArg_spec h
    refine ⟨hcopy.code, hcopy.line, fun i hi b hb => ?_, fun i hi hlen => ?_⟩
    · match i, hb with
      | 0, hb =>
        cases hb
        exact ha
      | i + 1, hb => cases hb
    · exact hcopy.other _ fun heq => by
        cases heq
        exact absurd hlen (by simp)
  | [a, b], h =>
    obtain ⟨st₁, h₁, h₂⟩ := ok_of_bind h
    obtain ⟨ha, hcopy₁⟩ := copyArg_spec h₁
    obtain ⟨hb, hcopy₂⟩ := copyArg_spec h₂
    refine ⟨hcopy₂.code.trans hcopy₁.code, hcopy₂.line.trans hcopy₁.line, fun i hi c hc => ?_,
      fun i hi hlen => ?_⟩
    · match i, hc with
      | 0, hc =>
        cases hc
        exact hcopy₂.kept 0 _ h01 ha
      | 1, hc =>
        cases hc
        exact hb
      | i + 2, hc => cases hc
    · obtain rfl : i = 2 := by
        simp only [length_cons, length_nil] at hlen
        omega
      exact (hcopy₂.other 2 h12.symm).trans (hcopy₁.other 2 h02.symm)
  | [a, b, c], h =>
    obtain ⟨st₁, h₁, h⟩ := ok_of_bind h
    obtain ⟨st₂, h₂, h₃⟩ := ok_of_bind h
    obtain ⟨ha, hcopy₁⟩ := copyArg_spec h₁
    obtain ⟨hb, hcopy₂⟩ := copyArg_spec h₂
    obtain ⟨hc, hcopy₃⟩ := copyArg_spec h₃
    refine ⟨hcopy₃.code.trans (hcopy₂.code.trans hcopy₁.code),
      hcopy₃.line.trans (hcopy₂.line.trans hcopy₁.line), fun i hi d hd => ?_, fun i hi hlen => ?_⟩
    · match i, hd with
      | 0, hd =>
        cases hd
        exact hcopy₃.kept 0 _ h02 (hcopy₂.kept 0 _ h01 ha)
      | 1, hd =>
        cases hd
        exact hcopy₃.kept 1 _ h12 hb
      | 2, hd =>
        cases hd
        exact hc
      | i + 3, hd => cases hd
    · simp only [length_cons, length_nil] at hlen
      omega
  | _ :: _ :: _ :: _ :: _, _ =>
    simp only [length_cons] at hge
    omega

/-! ### Keywords -/

/-- A record without arguments yet. -/
def Blank (st : Stmt) : Prop := ∀ i, st.arg i = 0

/-- What the function of a keyword makes of its arguments. -/
structure Filled (k : Key) (st : Stmt) (args : List (List UInt8)) (st' : Stmt) : Prop where
  code : st'.code = st.code
  stands : ∃ s, statementOf k (args.map cstr) = some s ∧ s.key = k ∧ st'.Means s ∧ s.Short

lemma keyOne_spec (h : st.keyOne args = .ok st') :
    ∃ a, args = [a] ∧ ArgAt st' 0 (cstr a) ∧ st'.code = st.code ∧ (Blank st → st'.arg 1 = 0) := by
  obtain ⟨hmin, hmax, hcode, -, hargs, hrest⟩ := copyArgs_spec (le_refl 1) (by omega) h
  obtain ⟨a, rfl⟩ := length_eq_one_iff.mp (le_antisymm hmax hmin)
  refine ⟨a, rfl, hargs 0 (by omega) a rfl, hcode, fun hblank => ?_⟩
  exact (hrest 1 (by omega) (le_refl 1)).trans (hblank 1)

lemma ArgAt.ne_zero (h : ArgAt st i s) : st.arg i ≠ 0 := by
  obtain ⟨pre, post, -, harg, -⟩ := h
  rw [HEADER] at harg
  omega

lemma keyPair_spec (hblank : Blank st) (h : st.keyPair args = .ok st') :
    st'.code = st.code ∧
      ((∃ a, args = [a] ∧ ArgAt st' 0 (cstr a) ∧ ArgAt st' 1 (cstr a)) ∨
        ∃ a b, args = [a, b] ∧ ArgAt st' 0 (cstr a) ∧ ArgAt st' 1 (cstr b)) := by
  obtain ⟨st₁, hcopy, hclone⟩ := ok_of_bind h
  obtain ⟨hmin, hmax, hcode, -, hargs, hrest⟩ := copyArgs_spec (le_refl 1) (by omega) hcopy
  have h01 : (0 : Fin 3) ≠ 1 := by decide
  match args, hmin, hmax with
  | [], hmin, _ => cases hmin
  | [a], _, _ =>
    obtain ⟨ha, hb, -, hkept⟩ := cloneArg_spec hclone h01 (hargs 0 (by omega) a rfl)
    refine ⟨hkept.code.trans hcode, .inl ⟨a, rfl, ha, hb ?_⟩⟩
    exact (hrest 1 (by omega) (le_refl 1)).trans (hblank 1)
  | [a, b], _, _ =>
    have hb := hargs 1 (by omega) b rfl
    obtain ⟨ha, -, hsame, hkept⟩ := cloneArg_spec hclone h01 (hargs 0 (by omega) a rfl)
    refine ⟨hkept.code.trans hcode, .inr ⟨a, b, rfl, ha, ?_⟩⟩
    rw [hsame hb.ne_zero]
    exact hb
  | _ :: _ :: _ :: _, _, hmax =>
    simp only [length_cons] at hmax
    omega

lemma keyScript_spec (hblank : Blank st) (h : st.keyScript args = .ok st') :
    st'.code = st.code ∧
      ∃ dst src tool, statementOf .script (args.map cstr) = some (.script dst src tool) ∧
        ArgAt st' 0 dst ∧ ArgAt st' 1 src ∧ ArgAt st' 2 tool := by
  obtain ⟨st₁, hcopy, h⟩ := ok_of_bind h
  obtain ⟨st₂, hclone₁, hclone₂⟩ := ok_of_bind h
  obtain ⟨hmin, hmax, hcode, -, hargs, hrest⟩ := copyArgs_spec (le_refl 1) (by omega) hcopy
  have h01 : (0 : Fin 3) ≠ 1 := by decide
  have h02 : (0 : Fin 3) ≠ 2 := by decide
  have h12 : (1 : Fin 3) ≠ 2 := by decide
  obtain ⟨a, rest, rfl⟩ : ∃ a rest, args = a :: rest :=
    exists_cons_of_length_pos (lt_of_lt_of_le zero_lt_one hmin)
  have ha₁ := hargs 0 (by omega) a rfl
  obtain ⟨ha₂, hnew₁, hsame₁, hkept₁⟩ := cloneArg_spec hclone₁ h01 ha₁
  obtain ⟨ha', hnew₂, hsame₂, hkept₂⟩ := cloneArg_spec hclone₂ h02 ha₂
  have htwo : st₂.arg 2 = st₁.arg 2 := hkept₁.other 2 h12.symm
  refine ⟨hkept₂.code.trans (hkept₁.code.trans hcode), ?_⟩
  rcases rest with - | ⟨b, - | ⟨c, - | ⟨d, rest⟩⟩⟩
  · have h1 := hnew₁ ((hrest 1 (by omega) (le_refl 1)).trans (hblank 1))
    have h2 := hnew₂ (htwo.trans ((hrest 2 (by omega) (Nat.le_succ 1)).trans (hblank 2)))
    exact ⟨_, _, _, rfl, ha', hkept₂.kept 1 _ h12 h1, h2⟩
  · have hb := hargs 1 (by omega) b rfl
    have h1 : ArgAt st₂ 1 (cstr b) := by rwa [hsame₁ hb.ne_zero]
    have h2 := hnew₂ (htwo.trans ((hrest 2 (by omega) (le_refl 2)).trans (hblank 2)))
    exact ⟨_, _, _, rfl, ha', hkept₂.kept 1 _ h12 h1, h2⟩
  · have hb := hargs 1 (by omega) b rfl
    have hc := hkept₁.kept 2 _ h12.symm (hargs 2 (by omega) c rfl)
    have h1 : ArgAt st₂ 1 (cstr b) := by rwa [hsame₁ hb.ne_zero]
    refine ⟨_, _, _, rfl, ha', hkept₂.kept 1 _ h12 h1, ?_⟩
    rwa [hsame₂ hc.ne_zero]
  · simp only [length_cons] at hmax
    omega

/-- The argument of `prefix`, cut in two in place. -/
theorem keyPref_spec (hblank : Blank st) (h : st.keyPref args = .ok st') :
    ∃ a, args = [a] ∧ (cstr a).length < PAGE ∧ st'.code = st.code ∧
      st'.argStr 0 = some ((cstr a).takeWhile (· ≠ 0x3A)) ∧
      st'.argStr 1 = if 0x3A ∈ cstr a then some
        (((cstr a).dropWhile (· ≠ 0x3A)).drop 1) else none := by
  obtain ⟨st₁, hcopy, hcut⟩ := ok_of_bind h
  obtain ⟨a, rfl, ha, hcode, hnone⟩ := keyOne_spec hcopy
  refine ⟨a, rfl, ha.length_lt, ?_⟩
  rw [ha.argStr] at hcut
  dsimp only at hcut
  have hsplit : (cstr a).takeWhile (· ≠ 0x3A) ++ (cstr a).dropWhile (· ≠ 0x3A) = cstr a :=
    takeWhile_append_dropWhile
  by_cases hcolon : 0x3A ∈ cstr a
  · have hlt : ¬(cstr a).length ≤ ((cstr a).takeWhile (· ≠ 0x3A)).length := by
      intro hle
      have hall := takeWhile_eq_self_iff.mp
        (( takeWhile_prefix (fun c => decide (c ≠ (0x3A : UInt8))) (l := cstr a)).eq_of_length_le
          hle)
      have := hall _ hcolon
      simp at this
    rw [if_neg hlt] at hcut
    obtain ⟨_, hoff, hcut⟩ := ok_of_bind hcut
    cases hcut
    have hoff := refuse_eq_ok_iff.mp hoff
    obtain ⟨pre, post, hpay, harg, hsmall, hnul, hlen⟩ := ha
    -- the two halves and the colon between them
    obtain ⟨rest, hrest⟩ : ∃ rest, (cstr a).dropWhile (· ≠ 0x3A) = 0x3A :: rest := by
      rcases hdrop : (cstr a).dropWhile (· ≠ 0x3A) with - | ⟨c, rest⟩
      · rw [hdrop, append_nil] at hsplit
        rw [hsplit] at hlt
        exact absurd (Nat.le_refl _) hlt
      · have hc := head_dropWhile_not (fun c => decide (c ≠ (0x3A : UInt8)))
          (by rw [hdrop]; exact cons_ne_nil _ _)
        simp only [hdrop, head_cons] at hc
        obtain rfl : c = 0x3A := by simpa using hc
        exact ⟨rest, hdrop⟩
    rw [hrest] at hsplit
    generalize (cstr a).takeWhile (· ≠ 0x3A) = p at *
    have hp : 0 ∉ p := fun h0 => hnul (hsplit ▸ mem_append_left _ h0)
    have hr : 0 ∉ rest := fun h0 => hnul (hsplit ▸ mem_append_right _ (mem_cons_of_mem _ h0))
    have hset : st₁.payload.set (st₁.arg 0 - HEADER + p.length) 0
        = pre ++ p ++ 0 :: (rest ++ 0 :: post) := by
      rw [hpay, harg, Nat.add_sub_cancel_left, ← hsplit]
      have hassoc : pre ++ (p ++ 0x3A :: rest) ++ 0 :: post
          = (pre ++ p) ++ 0x3A :: (rest ++ 0 :: post) := by simp
      rw [hassoc, ← length_append, set_append_right _ _ (Nat.le_refl _), Nat.sub_self]
      rfl
    have h01 : (0 : Fin 3) ≠ 1 := by decide
    let st₂ : Stmt := ⟨st₁.len, st₁.line, st₁.code,
      update st₁.arg 1 (st₁.arg 0 + p.length + 1),
      st₁.payload.set (st₁.arg 0 - HEADER + p.length) 0⟩
    have h0 : ArgAt st₂ 0 p := by
      refine ⟨pre, rest ++ 0 :: post, hset, ?_, ?_, hp, ?_⟩
      · show update st₁.arg 1 (st₁.arg 0 + p.length + 1) 0 = _
        rwa [update_of_ne h01]
      · show update st₁.arg 1 (st₁.arg 0 + p.length + 1) 0 < PAGE
        rwa [update_of_ne h01]
      · have := congrArg List.length hsplit
        rw [length_append] at this
        omega
    have h1 : ArgAt st₂ 1 rest := by
      refine ⟨pre ++ p ++ [0], post, ?_, ?_, ?_, hr, ?_⟩
      · show st₁.payload.set _ 0 = _
        rw [hset]
        simp
      · show update st₁.arg 1 (st₁.arg 0 + p.length + 1) 1 = _
        rw [update_self, harg, length_append, length_append, length_singleton]
        omega
      · show update st₁.arg 1 (st₁.arg 0 + p.length + 1) 1 < PAGE
        rw [update_self]
        exact Nat.lt_of_not_le hoff
      · have := congrArg List.length hsplit
        rw [length_append, length_cons] at this
        omega
    rw [if_pos hcolon, hrest]
    exact ⟨hcode, h0.argStr, h1.argStr⟩
  · have hall : (cstr a).takeWhile (· ≠ 0x3A) = cstr a := by
      rw [takeWhile_eq_self_iff]
      intro c hc
      refine decide_eq_true ?_
      rintro rfl
      exact hcolon hc
    rw [hall, if_pos (Nat.le_refl _)] at hcut
    cases hcut
    rw [hall, if_neg hcolon]
    exact ⟨hcode, ha.argStr, argStr_of_zero (hnone hblank)⟩

/-- The two halves of the argument of `prefix` are no longer than it. -/
theorem short_pref {p : Str} (hp : p.length < PAGE) :
    Statement.Short (.pref (p.takeWhile (· ≠ 0x3A))
      (if 0x3A ∈ p then some ((p.dropWhile (· ≠ 0x3A)).drop 1) else none)) := by
  have hleft : (p.takeWhile (· ≠ 0x3A)).length ≤ p.length :=
    ( takeWhile_prefix _).length_le
  have hright : (p.dropWhile (· ≠ 0x3A)).length ≤ p.length := length_dropWhile_le ..
  intro t ht
  rcases mem_cons.mp ht with rfl | ht
  · omega
  · split at ht
    · obtain rfl := mem_singleton.mp ht
      rw [length_drop]
      omega
    · cases ht

/-- **A keyword makes of its arguments what it says.** -/
theorem key_spec (k : Key) (hblank : Blank st) (h : k.key st args = .ok st') :
    Filled k st args st' := by
  have hone {a : Str} (ha : ArgAt st' 0 a) : ∀ t ∈ [a], t.length < PAGE :=
    forall_mem_singleton.mpr ha.length_lt
  have htwo {a b : Str} (ha : ArgAt st' 0 a) (hb : ArgAt st' 1 b) : ∀ t ∈ [a, b], t.length < PAGE :=
    forall_mem_cons.mpr ⟨ha.length_lt, forall_mem_singleton.mpr hb.length_lt⟩
  cases k with
  | pref =>
    obtain ⟨a, rfl, hlen, hcode, h0, h1⟩ := keyPref_spec hblank h
    exact ⟨hcode, _, rfl, rfl, ⟨h0, h1⟩, short_pref hlen⟩
  | config =>
    obtain ⟨hcode, ⟨a, rfl, h0, h1⟩ | ⟨a, b, rfl, h0, h1⟩⟩ := keyPair_spec hblank h
    · exact ⟨hcode, _, rfl, rfl, ⟨h0.argStr, h1.argStr⟩, htwo h0 h1⟩
    · exact ⟨hcode, _, rfl, rfl, ⟨h0.argStr, h1.argStr⟩, htwo h0 h1⟩
  | interp =>
    obtain ⟨a, rfl, h0, hcode, -⟩ := keyOne_spec h
    exact ⟨hcode, _, rfl, rfl, h0.argStr, hone h0⟩
  | link =>
    obtain ⟨hcode, ⟨a, rfl, h0, h1⟩ | ⟨a, b, rfl, h0, h1⟩⟩ := keyPair_spec hblank h
    · exact ⟨hcode, _, rfl, rfl, ⟨h0.argStr, h1.argStr⟩, htwo h0 h1⟩
    · exact ⟨hcode, _, rfl, rfl, ⟨h0.argStr, h1.argStr⟩, htwo h0 h1⟩
  | repo =>
    obtain ⟨a, rfl, h0, hcode, -⟩ := keyOne_spec h
    exact ⟨hcode, _, rfl, rfl, h0.argStr, hone h0⟩
  | script =>
    obtain ⟨hcode, dst, src, tool, hs, h0, h1, h2⟩ := keyScript_spec hblank h
    exact ⟨hcode, _, hs, rfl, ⟨h0.argStr, h1.argStr, h2.argStr⟩,
      forall_mem_cons.mpr ⟨h0.length_lt, fun t ht => by
        rcases mem_cons.mp ht with rfl | ht
        · exact h1.length_lt
        · exact mem_singleton.mp ht ▸ h2.length_lt⟩⟩

end

/-! ### The whole description -/

section

variable {line : ℕ} {p : List UInt8} {text : List UInt8}

/-- There are no more words than bytes. -/
theorem wordsFrom_eq {k : ℕ} (hk : p.length ≤ k) : wordsFrom k p = wordsOf p := by
  suffices h : ∀ k k' (p : List UInt8), p.length ≤ k → p.length ≤ k' →
      wordsFrom k p = wordsFrom k' p from h k p.length p hk (le_refl _)
  intro k
  induction k with
  | zero =>
    intro k' p hp _
    obtain rfl := length_eq_zero_iff.mp (Nat.le_zero.mp hp)
    cases k' <;> rfl
  | succ k ih =>
    intro k' p hp hp'
    rcases hdrop : p.dropWhile isspace with - | ⟨c, q⟩
    · cases k' with
      | zero => rw [wordsFrom, wordsFrom, hdrop]
      | succ k' => rw [wordsFrom, wordsFrom, hdrop]
    · have hlen : (c :: q).length ≤ p.length := hdrop ▸ length_dropWhile_le _ _
      have hc : isspace c = false := by
        have hhead := head_dropWhile_not isspace (by rw [hdrop]; exact cons_ne_nil _ _)
        simpa only [hdrop, head_cons] using hhead
      cases k' with
      | zero =>
        rw [length_cons] at hlen
        omega
      | succ k' =>
        rw [wordsFrom, wordsFrom, hdrop]
        have hword : ((c :: q).drop ((c :: q).takeWhile (!isspace ·)).length).length ≤
          q.length := by
          rw [takeWhile_cons, hc]
          simp
        rw [length_cons] at hlen
        dsimp only
        rw [ih k' _ (by omega) (by omega)]

/-- The first word of a line that starts with one, and the others. -/
theorem wordsOf_cons (hne : p.takeWhile (!isspace ·) ≠ []) :
    wordsOf p = p.takeWhile (!isspace ·) :: wordsOf (p.drop (p.takeWhile (!isspace ·)).length) := by
  rcases p with - | ⟨c, q⟩
  · exact absurd rfl hne
  have hc : isspace c = false := by
    by_contra hc
    rw [takeWhile_cons, Bool.eq_true_of_not_eq_false hc] at hne
    exact hne rfl
  have hdrop : (c :: q).dropWhile isspace = c :: q := by rw [dropWhile_cons, hc]; rfl
  rw [wordsOf, length_cons, wordsFrom, hdrop]
  dsimp only
  rw [wordsFrom_eq]
  rw [length_drop, length_cons]
  have : 0 < ((c :: q).takeWhile (!isspace ·)).length := length_pos_iff.mpr hne
  omega

lemma wordsOf_space (h : p.all isspace = true) : wordsOf p = [] := by
  have hdrop : p.dropWhile isspace = [] := dropWhile_eq_nil_iff.mpr (all_eq_true.mp h)
  rcases p with - | ⟨c, q⟩
  · rfl
  · rw [wordsOf, length_cons, wordsFrom, hdrop]

/-- **The record of a line stands for what the line says.** -/
theorem parseLine_spec {st : Option Stmt} (h : parseLine line p = .ok st) :
    (st = none ∧ lineStatement p = none) ∨
      ∃ r s, st = some r ∧ lineStatement p = some s ∧ Reads r s := by
  rw [parseLine] at h
  split at h
  · rename_i hskip
    cases h
    refine .inl ⟨rfl, ?_⟩
    rw [lineStatement]
    split
    · rfl
    · rename_i hhash
      rw [wordsOf_space (hskip.resolve_left hhash)]
  · rename_i hgo
    obtain ⟨_, -, h⟩ := ok_of_bind h
    obtain ⟨r, hkey, h⟩ := ok_of_bind h
    obtain ⟨_, -, h⟩ := ok_of_bind h
    cases h
    rw [parseKey] at hkey
    split at hkey
    · cases hkey
    · rename_i i hi
      split at hkey
      · cases hkey
      · rename_i kp hkp
        obtain ⟨hlt, hmatch, -⟩ := findIdx?_eq_some_iff_getElem.mp hi
        have hword : kp.1 = p.takeWhile (!isspace ·) := by
          rw [getElem?_eq_getElem hlt] at hkp
          cases hkp
          exact of_decide_eq_true hmatch
        have hne : p.takeWhile (!isspace ·) ≠ [] := by
          rw [← hword]
          have hall : ∀ kp ∈ keywords, kp.1 ≠ [] := by decide
          exact hall kp (mem_of_getElem? hkp)
        have hfilled := key_spec kp.2 (fun _ => rfl) hkey
        obtain ⟨s, hs, hsk, hmeans, hshort⟩ := hfilled.stands
        refine .inr ⟨_, s, rfl, ?_, ⟨⟨kp.1, ?_⟩, hmeans, hshort⟩⟩
        · have hfind : keywords.find? (fun kp => kp.1 = p.takeWhile (!isspace ·)) = some kp := by
            rw [find?_eq_bind_findIdx?_getElem?, hi]
            exact hkp
          rw [lineStatement, if_neg (not_or.mp hgo).1, wordsOf_cons hne]
          dsimp only
          rw [hfind]
          exact hs
        · show keywords[r.code]? = _
          rw [hfilled.code, hsk]
          exact hkp

lemma parseLines_spec {lines : List (List UInt8)} {sts : List Stmt}
    (h : parseLines line lines = .ok sts) :
    List.Forall₂ Reads sts (lines.filterMap lineStatement) := by
  induction lines generalizing line sts with
  | nil =>
    cases h
    exact .nil
  | cons p lines ih =>
    obtain ⟨st, hline, h⟩ := ok_of_bind h
    obtain ⟨rest, hrest, h⟩ := ok_of_bind h
    cases h
    have htail := ih hrest
    rcases parseLine_spec hline with ⟨rfl, hnone⟩ | ⟨r, s, rfl, hsome, hreads⟩
    · rw [filterMap_cons_none hnone]
      exact htail
    · rw [filterMap_cons_some hsome]
      exact .cons hreads htail

/-- **The records of a description stand for what it says**, line by line. -/
theorem parseToolDesc_spec {sts : List Stmt} (h : parseToolDesc text = .ok sts) :
    List.Forall₂ Reads sts (statementsOf text) := parseLines_spec h

end

end Minibase.Ctool.Use
