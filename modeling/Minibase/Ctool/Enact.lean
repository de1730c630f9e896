import Minibase.Ctool.Desc

/-!
# Enacting a tool description

`ctool_bin_write.c` does what a statement asks for in one of four modes
(`Ctool.Use.doLink`, `doConfig`, `doScript`, `doRepo`), and `cmd_use` goes through all
statements three times: to check, to list the names of the files, and to make them
(`Ctool.Use.cmdUse`). What `prefix`, `config` and `interp` say is kept in the context, which
the three passes share. The system is given by what it answers once some things have been made
(`Ctool.Use.Env`).

What comes out of `substitute_vars` is the text with its variables replaced
(`Ctool.Use.substituteVars_spec`).
-/

namespace Minibase.Ctool.Use

open List Option

open Mpkg (Fail PAGE)

/-! ### The system -/

/-- Something that is made. -/
inductive Made
  | link (path target : Str)
  | file (path : Str) (mode : ℕ) (content : List UInt8)
  | repo (path : Str)
deriving DecidableEq

/-- What `stat` and `open` find under a name. -/
inductive Found
  | dir
  | file (data : List UInt8)
  | other

/-- The flags that files are opened with for writing. -/
inductive Flags
  | trunc
  | excl
  | append

/-- The other system calls. -/
inductive Call
  | fstat (name : Str)
  | read (name : Str)
  | close (name : Str)
  | unlink (name : Str)
  | symlink (target link : Str)
  | open3 (name : Str) (flags : Flags) (mode : ℕ)
  | write (name : Str) (data : List UInt8)
  | mkdir (name : Str) (mode : ℕ)

/-- The system, and the directory with the configuration. The answers depend on what has been made
before. -/
structure Env where
  /-- `BASE_ETC` -/
  baseEtc : Str
  /-- The current directory, in a buffer of some size. -/
  getcwd : ℕ → Except Errno Str
  getcwd_lt : ∀ n s, getcwd n = .ok s → s.length < n
  find : List Made → Str → Except Errno Found
  call : List Made → Call → Except Errno ℕ

/-- A call that is given up on with `fail`. -/
def orFail {α : Type} (msg : Option String) (obj : Option Str) : Except Errno α → Except Halt α
  | .ok a => .ok a
  | .error e => .error (.fail ⟨msg, obj, some e⟩)

/-- The modes of a pass. -/
inductive Mode
  | dry
  | real
  | dele
  | list
deriving DecidableEq

/-- `struct subcontext`, as far as the statements go, and what has been made so far. `rd` and `wr`
are what is in the two buffers. -/
structure Cct where
  line : ℤ
  mode : Mode
  pref : Option Str
  common : Option Str
  config : Option Str
  interp : Option Str
  tooldir : Option Str
  tool : Option Str
  rd : List UInt8
  wr : List UInt8
  made : List Made

/-- The sizes of the two buffers, `rdsize` and `wrsize`. -/
def BUFSIZE : ℕ := 2 ^ 16

/-- From a string to its `strpend`: nothing if there is no string, or if it does not end within
4096 bytes. -/
def upToEnd : Option Str → Str
  | none => []
  | some s => if s.length < PAGE then s else []

/-! ### Single calls -/

/-- A file that is not there is as good as one removed. -/
def unlinkFile (env : Env) (cct : Cct) (name : Str) : Except Halt Cct :=
  match env.call cct.made (.unlink name) with
  | .ok _ => .ok cct
  | .error .ENOENT => .ok cct
  | .error .ENOTDIR => .ok cct
  | .error e => .error (.fail ⟨none, some name, some e⟩)

def checkIsdir (env : Env) (cct : Cct) (name : Str) : Except Halt Cct := do
  match ← orFail none (some name) (env.find cct.made name) with
  | .dir => return cct
  | _ => .error (.fail ⟨none, some name, some .ENOTDIR⟩)

def checkNexist (env : Env) (cct : Cct) (name : Str) : Except Halt Cct :=
  match env.find cct.made name with
  | .ok _ => .error (.fail ⟨none, some name, some .EEXIST⟩)
  | .error .ENOENT => .ok cct
  | .error e => .error (.fail ⟨none, some name, some e⟩)

def linkTool (env : Env) (cct : Cct) (link target : Str) : Except Halt Cct := do
  let _ ← orFail none (some link) (env.call cct.made (.symlink target link))
  return { cct with made := cct.made ++ [.link link target] }

/-- The name `rep`. -/
def REP : Str := [0x72, 0x65, 0x70]

def linkRepo (env : Env) (cct : Cct) (path : Str) : Except Halt Cct := do
  let cct ← checkIsdir env cct path
  let _ ← (match env.call cct.made (.unlink REP) with
    | .ok _ => .ok ()
    | .error .ENOENT => .ok ()
    | .error e => .error (.fail ⟨none, some REP, some e⟩) : Except Halt Unit)
  let _ ← orFail none (some REP) (env.call cct.made (.symlink path REP))
  return { cct with made := cct.made ++ [.repo path] }

/-! ### Templates -/

/-- What does not fit in the buffer is refused. -/
def appendRaw (cct : Cct) (p : List UInt8) : Except Halt Cct := do
  refuse (BUFSIZE - cct.wr.length < p.length) (.syn cct.line "output buf overflow")
  return { cct with wr := cct.wr ++ p }

def appendStr (cct : Cct) (s : Option Str) : Except Halt Cct := appendRaw cct (upToEnd s)

/-- The variables. -/
inductive Var
  | tool
  | tooldir
  | interp
  | config
deriving DecidableEq

/-- The table `variables`, with the names `TOOL`, `TOOLDIR`, `INTERP`, `CONFIG`. -/
def varTable : List (Str × Var) :=
  [([0x54, 0x4F, 0x4F, 0x4C], .tool), ([0x54, 0x4F, 0x4F, 0x4C, 0x44, 0x49, 0x52], .tooldir),
    ([0x49, 0x4E, 0x54, 0x45, 0x52, 0x50], .interp),
      ([0x43, 0x4F, 0x4E, 0x46, 0x49, 0x47], .config)]

/-- What is in the context for a variable. -/
def Cct.var (cct : Cct) : Var → Option Str
  | .tool => cct.tool
  | .tooldir => cct.tooldir
  | .interp => cct.interp
  | .config => cct.config

/-- `var_tool`, `var_tooldir`, `var_interp` and `var_config` -/
def Var.call (v : Var) (cct : Cct) : Except Halt Cct := appendStr cct (cct.var v)

/-- `append_var`, with the `$` and the name after it. -/
def appendVar (cct : Cct) (p : List UInt8) : Except Halt Cct :=
  if p.length ≤ 1 ∨ 16 < p.length then appendRaw cct p
  else
    match varTable.find? fun vr => vr.1 = p.drop 1 with
    | none => appendRaw cct p
    | some vr => vr.2.call cct

/-- A capital letter. -/
def isCapital (c : UInt8) : Bool := 0x41 ≤ c && c ≤ 0x5A

/-- The loop of `substitute_vars` over what is left of the template, in at most so many rounds. -/
def substFrom : ℕ → Cct → List UInt8 → Except Halt Cct
  | 0, cct, _ => .ok cct
  | k + 1, cct, p => do
    let q := p.dropWhile (· ≠ 0x24)
    let cct ← appendRaw cct (p.takeWhile (· ≠ 0x24))
    match q with
    | [] => return cct
    | c :: q =>
      -- `skip_varname`
      let name := q.takeWhile isCapital
      let cct ← appendVar cct (c :: name)
      substFrom k cct (q.drop name.length)

def substituteVars (cct : Cct) : Except Halt Cct :=
  substFrom (cct.rd.length + 1) { cct with wr := [] } cct.rd

def readTemplate (env : Env) (cct : Cct) (name : Str) : Except Halt Cct := do
  let found ← orFail none (some name) (env.find cct.made name)
  let _ ← orFail (some "stat") (some name) (env.call cct.made (.fstat name))
  match found with
  | .file data =>
    refuse (BUFSIZE < data.length) (.fail ⟨none, some name, some .E2BIG⟩)
    let _ ← orFail (some "read") (some name) (env.call cct.made (.read name))
    let _ ← orFail (some "close") none (env.call cct.made (.close name))
    return { cct with rd := data }
  | _ => .error (.fail ⟨some "not a regular file:", some name, none⟩)

def writeResults (env : Env) (cct : Cct) (name : Str) (mode : ℕ) : Except Halt Cct := do
  let _ ← orFail none (some name) (env.call cct.made (.open3 name .trunc mode))
  let ret ← orFail none (some name) (env.call cct.made (.write name cct.wr))
  refuse (ret ≠ cct.wr.length) (.fail ⟨none, some name, some .EINTR⟩)
  let _ ← orFail (some "close") none (env.call cct.made (.close name))
  return { cct with made := cct.made ++ [.file name mode cct.wr] }

def copyWithSubst (env : Env) (cct : Cct) (dst src : Str) (mode : ℕ) : Except Halt Cct := do
  let cct ← readTemplate env cct src
  let cct ← substituteVars cct
  writeResults env cct dst mode

/-! ### Paths -/

/-- The name `bin`. -/
def BIN : Str := [0x62, 0x69, 0x6E]

/-- The name `config`. -/
def CONFIG : Str := [0x63, 0x6F, 0x6E, 0x66, 0x69, 0x67]

/-- The name `script`. -/
def SCRIPT : Str := [0x73, 0x63, 0x72, 0x69, 0x70, 0x74]

def makeDstPath (dir : Option Str) (name : Option Str) : Str :=
  (match dir with
    | none => []
    | some dir => if dir.length < PAGE then dir ++ [0x2F] else []) ++ upToEnd name

/-- `make_src_path`, below `/tool` in `BASE_ETC`. -/
def makeSrcPath (env : Env) (dir : Str) (name : Option Str) : Str :=
  upToEnd (some (env.baseEtc ++ [0x2F, 0x74, 0x6F, 0x6F, 0x6C])) ++ 0x2F :: upToEnd (some dir) ++
    0x2F :: upToEnd name

def makeLinkTarget (cct : Cct) (name : Option Str) : Str :=
  (match cct.pref with
    | none => []
    | some pref => pref ++ [0x2F]) ++ cct.common.getD [] ++ upToEnd name

def addPath (cct : Cct) (path : Str) : Except Halt Cct := do
  refuse (BUFSIZE - cct.wr.length ≤ path.length + 1) (.fail ⟨some "file list overflow", none, none⟩)
  return { cct with wr := cct.wr ++ path ++ [0x0A] }

/-! ### Statements -/

def doLink (env : Env) (cct : Cct) (dst target : Option Str) : Except Halt Cct :=
  let dstpath := makeDstPath (some BIN) dst
  let tgtpath := makeLinkTarget cct target
  match cct.mode with
  | .dry => checkNexist env cct dstpath
  | .dele => unlinkFile env cct dstpath
  | .real => linkTool env cct dstpath tgtpath
  | .list => addPath cct dstpath

def doConfig (env : Env) (cct : Cct) (dst src : Option Str) : Except Halt Cct :=
  let dstpath := makeDstPath none dst
  let srcpath := makeSrcPath env CONFIG src
  match cct.mode with
  | .dry => checkNexist env cct dstpath
  | .dele => unlinkFile env cct dstpath
  | .real => copyWithSubst env cct dstpath srcpath 0o644
  | .list => addPath cct dstpath

def doScript (env : Env) (cct : Cct) (dst src tool : Option Str) : Except Halt Cct := do
  let dstpath := makeDstPath (some BIN) dst
  let srcpath := makeSrcPath env SCRIPT src
  let cct := { cct with tool := some (makeLinkTarget cct tool) }
  let cct ← (match cct.mode with
    | .dry => checkNexist env cct dstpath
    | .dele => unlinkFile env cct dstpath
    | .real => copyWithSubst env cct dstpath srcpath 0o755
    | .list => addPath cct dstpath : Except Halt Cct)
  return { cct with tool := none }

/-- `do_repo`. There is a path in every record of this kind. -/
def doRepo (env : Env) (cct : Cct) (path : Option Str) : Except Halt Cct :=
  match path with
  | none => .error .crash
  | some path =>
    match cct.mode with
    | .dry => checkIsdir env cct path
    | .dele => unlinkFile env cct REP
    | .real => linkRepo env cct path
    | .list => .ok cct

/-- `run_prefix`, `run_config`, `run_interp`, `run_link`, `run_repo` and `run_script` -/
def Key.run (env : Env) (cct : Cct) (st : Stmt) : Key → Except Halt Cct
  | .pref => .ok { cct with pref := st.argStr 0, common := st.argStr 1 }
  | .config => doConfig env { cct with config := st.argStr 0 } (st.argStr 0) (st.argStr 1)
  | .interp => .ok { cct with interp := st.argStr 0 }
  | .link => doLink env cct (st.argStr 0) (st.argStr 1)
  | .repo => doRepo env cct (st.argStr 0)
  | .script => doScript env cct (st.argStr 0) (st.argStr 1) (st.argStr 2)

/-- The loop of `run_statements`. Each record is as long as its `len` says, so that they come one
after another. -/
def runFrom (env : Env) : Cct → List Stmt → Except Halt Cct
  | cct, [] => .ok cct
  | cct, st :: sts =>
    match keywords[st.code]? with
    | none => .error (.fail ⟨some "statements code fault", none, none⟩)
    | some kw => do
      let cct ← kw.2.run env { cct with line := st.shortLine } st
      runFrom env cct sts

def runStatements (env : Env) (cct : Cct) (mode : Mode) (sts : List Stmt) : Except Halt Cct :=
  runFrom env { cct with mode := mode, wr := [], rd := [] } sts

/-! ### The command -/

/-- The name `.ctool`. -/
def STAMP : Str := [0x2E, 0x63, 0x74, 0x6F, 0x6F, 0x6C]

def checkStamp (env : Env) : Except Halt Bool :=
  match env.find [] STAMP with
  | .ok _ => .ok true
  | .error .ENOENT => .ok false
  | .error e => .error (.fail ⟨none, some STAMP, some e⟩)

def loadToolDesc (env : Env) (path : Str) : Except Halt (List UInt8) := do
  let found ← orFail none (some path) (env.find [] path)
  let _ ← orFail (some "stat") (some path) (env.call [] (.fstat path))
  match found with
  | .file data =>
    refuse (BUFSIZE ≤ data.length) (.fail ⟨none, some path, some .E2BIG⟩)
    let _ ← orFail (some "read") none (env.call [] (.read path))
    return data
  | .dir => .error (.fail ⟨some "read", none, some .EISDIR⟩)
  | .other => do
    let _ ← orFail (some "read") none (env.call [] (.read path))
    return []

def looksLikePath (name : Str) : Except Halt Bool := do
  -- the end of a long name is not found, which is an `EFAULT`
  refuse (PAGE ≤ name.length) (.fail ⟨none, none, none⟩)
  return decide (0x2F ∈ name)

/-- `prep_desc_name`: in `/tool/` below `BASE_ETC`, with `.desc` after it. -/
def prepDescName (env : Env) (name : Str) : Str :=
  env.baseEtc ++ [0x2F, 0x74, 0x6F, 0x6F, 0x6C, 0x2F] ++ name ++ [0x2E, 0x64, 0x65, 0x73, 0x63]

def prepTooldir (env : Env) : Except Halt Str := orFail (some "getcwd") none (env.getcwd 1024)

/-- `common_bin_init`: the context, which is all zeroes but for the directory, and the records. -/
def commonBinInit (env : Env) (name : Str) : Except Halt (Cct × List Stmt) := do
  let path := if ← looksLikePath name then name else prepDescName env name
  let text ← loadToolDesc env path
  let tooldir ← prepTooldir env
  let sts ← parseToolDesc text
  return (⟨0, .dry, none, none, none, none, some tooldir, none, [], [], []⟩, sts)

def openStampFile (env : Env) (flags : Flags) : Except Halt Unit := do
  let _ ← orFail none (some STAMP) (env.call [] (.open3 STAMP flags 0o644))

def writeStampFile (env : Env) (cct : Cct) : Except Halt Cct := do
  refuse (cct.wr = []) (.fail ⟨some "empty tool spec", none, none⟩)
  let _ ← orFail (some "write") none (env.call [] (.write STAMP cct.wr))
  return { cct with wr := [] }

def makeSubdir (env : Env) (name : Str) : Except Halt Unit :=
  match env.call [] (.mkdir name 0o755) with
  | .ok _ => .ok ()
  | .error .EEXIST => .ok ()
  | .error e => .error (.fail ⟨none, some name, some e⟩)

/-- `make_top_dirs`: `bin`, `lib`, `inc` and `pkg`. -/
def makeTopDirs (env : Env) : Except Halt Unit := do
  makeSubdir env BIN
  makeSubdir env [0x6C, 0x69, 0x62]
  makeSubdir env [0x69, 0x6E, 0x63]
  makeSubdir env [0x70, 0x6B, 0x67]

def cmdUse (env : Env) (name : Str) : Except Halt Cct := do
  let stamped ← checkStamp env
  let (cct, sts) ← commonBinInit env name
  let cct ← runStatements env cct .dry sts
  openStampFile env (if stamped then .append else .excl)
  let cct ← runStatements env cct .list sts
  let cct ← writeStampFile env cct
  if !stamped then makeTopDirs env
  runStatements env cct .real sts

/-! ### Substitution -/

/-- The variable of a name. -/
def varNamed (name : Str) : Option Var := (varTable.find? fun vr => vr.1 = name).map Prod.snd

/-- What is left to write of a template, after so many bytes that have been replaced already. -/
def expandFrom (value : Var → Str) : ℕ → List UInt8 → List UInt8
  | _, [] => []
  | k + 1, _ :: text => expandFrom value k text
  | 0, c :: text =>
    if c = 0x24 then
      match varNamed (text.takeWhile isCapital) with
      | some v => value v ++ expandFrom value (text.takeWhile isCapital).length text
      | none => c :: expandFrom value 0 text
    else c :: expandFrom value 0 text

/-- **A template with its variables replaced**: each `$` with the capitals after it, if they are the
name of a variable; all other bytes stay. -/
def expand (value : Var → Str) (text : List UInt8) : List UInt8 := expandFrom value 0 text

section

variable {value : Var → Str} {text name : List UInt8} {cct cct' : Cct}

lemma expandFrom_eq (k : ℕ) : expandFrom value k text = expand value (text.drop k) := by
  induction text generalizing k with
  | nil => cases k <;> rfl
  | cons c text ih =>
    cases k with
    | zero => rfl
    | succ k => exact ih k

lemma expand_append {l : List UInt8} (hl : ∀ c ∈ l, c ≠ 0x24) :
    expand value (l ++ text) = l ++ expand value text := by
  induction l with
  | nil => rfl
  | cons c l ih =>
    rw [cons_append, expand, expandFrom, if_neg (hl c mem_cons_self)]
    exact congrArg (c :: ·) (ih fun d hd => hl d (mem_cons_of_mem _ hd))

/-- What a `$` and the name after it come out as. -/
def varText (value : Var → Str) (name : Str) : List UInt8 :=
  match varNamed name with
  | some v => value v
  | none => 0x24 :: name

lemma isCapital_ne {c : UInt8} (hc : isCapital c = true) : c ≠ 0x24 := by
  rintro rfl
  exact absurd hc (by decide)

lemma expand_dollar : expand value (0x24 :: text) =
    varText value (text.takeWhile isCapital) ++
      expand value (text.drop (text.takeWhile isCapital).length) := by
  rw [expand, expandFrom, if_pos rfl, varText]
  split
  · rw [expandFrom_eq]
  · -- the name itself is copied byte by byte
    have hsplit := prefix_iff_eq_append.mp ( takeWhile_prefix (l := text) isCapital)
    have hname : ∀ c ∈ text.takeWhile isCapital, c ≠ 0x24 := fun c hc =>
      isCapital_ne (mem_takeWhile_imp hc)
    have hrest : expand value text = text.takeWhile isCapital ++
        expand value (text.drop (text.takeWhile isCapital).length) := by
      rw [← expand_append hname, hsplit]
    exact congrArg (0x24 :: ·) hrest

/-- The context with more in the output buffer. -/
def Cct.put (cct : Cct) (l : List UInt8) : Cct := { cct with wr := cct.wr ++ l }

@[simp] lemma put_var (l : List UInt8) (v : Var) : (cct.put l).var v = cct.var v := by
  cases v <;> rfl

lemma put_nil : cct.put [] = cct := congrArg (fun wr => { cct with wr := wr }) (append_nil _)

lemma put_put (l l' : List UInt8) : (cct.put l).put l' = cct.put (l ++ l') :=
  congrArg (fun wr => { cct with wr := wr }) (append_assoc ..)

lemma appendRaw_spec {p : List UInt8} (h : appendRaw cct p = .ok cct') : cct' = cct.put p := by
  obtain ⟨_, -, h⟩ := ok_of_bind h
  cases h
  rfl

/-- All names of variables are short. -/
theorem varNamed_length {v : Var} (h : varNamed name = some v) : 0 < name.length ∧
    name.length < 16 := by
  obtain ⟨vr, hvr, -⟩ := map_eq_some_iff.mp h
  have hall : ∀ vr ∈ varTable, 0 < vr.1.length ∧ vr.1.length < 16 := by decide
  have hname := find?_some hvr
  obtain rfl : vr.1 = name := of_decide_eq_true hname
  exact hall vr (mem_of_find?_eq_some hvr)

lemma appendVar_spec (h : appendVar cct (0x24 :: name) = .ok cct') :
    cct' = cct.put (varText (fun v => upToEnd (cct.var v)) name) := by
  rw [appendVar, length_cons] at h
  split at h
  · rename_i hlen
    have hnone : varNamed name = none := by
      rcases hv : varNamed name with - | v
      · rfl
      · have := varNamed_length hv
        omega
    rw [varText, hnone]
    exact appendRaw_spec h
  · rw [varText, varNamed]
    rw [drop_one, tail_cons] at h
    split at h
    · rename_i hfind
      rw [hfind]
      exact appendRaw_spec h
    · rename_i vr hfind
      rw [hfind]
      exact appendRaw_spec h

/-- What the loop writes is what is left to write. -/
theorem substFrom_spec {k : ℕ} {p : List UInt8} (hk : p.length < k)
    (h : substFrom k cct p = .ok cct') :
    cct' = cct.put (expand (fun v => upToEnd (cct.var v)) p) := by
  induction k generalizing cct p with
  | zero => omega
  | succ k ih =>
    obtain ⟨cct₁, hraw, h⟩ := ok_of_bind h
    obtain rfl := appendRaw_spec hraw
    have hlit : ∀ c ∈ p.takeWhile (· ≠ 0x24), c ≠ 0x24 := fun c hc =>
      of_decide_eq_true (mem_takeWhile_imp (p := fun c => decide (c ≠ 0x24)) hc)
    have hsplit : p.takeWhile (· ≠ 0x24) ++ p.dropWhile (· ≠ 0x24) = p :=
      takeWhile_append_dropWhile
    rw [← hsplit, expand_append hlit, ← put_put]
    rcases hq : p.dropWhile (· ≠ 0x24) with - | ⟨c, q⟩
    · rw [hq] at h ⊢
      cases h
      exact put_nil.symm
    · have hc : c = 0x24 := by
        have hhead := head_dropWhile_not (fun c => decide (c ≠ (0x24 : UInt8)))
          (by rw [hq]; exact cons_ne_nil _ _)
        simp only [hq, head_cons] at hhead
        simpa using hhead
      subst hc
      rw [hq] at h hsplit
      obtain ⟨cct₂, hvar, h⟩ := ok_of_bind h
      obtain rfl := appendVar_spec hvar
      have hlen : (q.drop (q.takeWhile isCapital).length).length < k := by
        have := congrArg length hsplit
        rw [length_append, length_cons] at this
        rw [length_drop]
        omega
      rw [ih hlen h, hq, expand_dollar, ← put_put]
      simp only [put_var]

/-- **`substitute_vars` writes the template with its variables replaced**, by what is in the context
for them. -/
theorem substituteVars_spec (h : substituteVars cct = .ok cct') :
    cct' = { cct with wr := expand (fun v => upToEnd (cct.var v)) cct.rd } :=
  substFrom_spec (Nat.lt_succ_self _) h

end

end Minibase.Ctool.Use
