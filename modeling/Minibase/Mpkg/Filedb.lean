import Minibase.Mpkg.Deploy
import Minibase.Mpkg.Policy

/-!
# The list of files

Before anything is unpacked, `mpkg_flist.c` writes the list of the files, one path on a line,
after a line with the prefix (`Mpkg.writeFiledb`). `mpkg_remove.c` takes out what the list names
(`Mpkg.cmdRemove`): it goes along the paths with a stack of open directories, and tries to remove
each directory it leaves. A directory that is not there is `AT_SKIP`, and so is everything below
it. The two commands are modelled after their arguments and the configuration have been read.
-/

namespace Minibase.Mpkg

/-- How a command ends early: in `fail`, in a crash, or in `failx`. -/
inductive Halt
  | stop (s : Stop)
  | failx (w : Warn)
deriving DecidableEq

def Halt.fail (msg : Option String) (obj : Option (List UInt8)) (err : Option Errno) : Halt :=
  .stop (.fail ⟨msg, obj, err⟩)

/-- A call that is given up on with `fail`, about a path. -/
def orFail {α : Type} (obj : List UInt8) : Except Errno α → Except Halt α
  | .ok a => .ok a
  | .error e => .error (.fail none (some obj) (some e))

/-- The text of an absolute path. -/
def pathText (p : List Name) : List UInt8 := p.flatMap fun n => 47 :: n

/-- `ctx->lstname`: `DATADIR`, the group if there is one, and the name of the package. The
group is checked to be made of letters and digits. -/
structure ListName where
  dir : List Name
  group : Option Name
  name : Name
  plain : ∀ n ∈ dir ++ group.toList, Fs.Plain n

namespace ListName

variable (lst : ListName)

/-- The directory the list is in. -/
def home : List Name := lst.dir ++ lst.group.toList

/-- The name of the list in it: that of the package with `.list` after it. -/
def base : Name := lst.name ++ [46, 108, 105, 115, 116]

/-- The whole path. -/
def text : List UInt8 := pathText (lst.home ++ [lst.base])

end ListName

/-- `setup_prefix`: the prefix, which is `/` if there was none, and its directory. -/
def setupPrefix (fs : Fs (List Name)) (pre : Option (List UInt8)) :
    Except Halt (List UInt8 × List Name) := do
  let path := pre.getD [47]
  let at_ ← orFail path (fs.openAbs path)
  return (path, at_)

/-! ### Writing the list -/

def checkFiledb (fs : Fs (List Name)) (lst : ListName) : Except Halt Unit :=
  match fs.walkTo [] lst.home with
  | .ok d =>
    match fs.stat d lst.base with
    | .ok _ => .error (.fail none (some lst.text) (some .EEXIST))
    | .error .ENOENT => .ok ()
    | .error e => .error (.fail none (some lst.text) (some e))
  | .error .ENOTDIR => .ok ()
  | .error .ENOENT => .ok ()
  | .error e => .error (.fail none (some lst.text) (some e))

def prepRepoDir (fs : Fs (List Name)) (lst : ListName) : Except Halt (Fs (List Name)) :=
  match lst.group with
  | none => .ok fs
  | some group => do
    let d ← orFail (pathText lst.home) (fs.walkTo [] lst.dir)
    match fs.mkdirat (some d) group with
    | .ok fs => .ok fs
    | .error .EEXIST => .ok fs
    | .error e => .error (.fail none (some (pathText lst.home)) (some e))

def writePart (str : List UInt8) (c : UInt8) : List UInt8 := str ++ [c]

/-- `write_line`. There is always a prefix, once `setup_prefix` is done. -/
def writeLine (pre : List UInt8) (path : List Name) (nd : Node) : List UInt8 :=
  writePart pre 47 ++ path.flatMap (writePart · 47) ++ writePart nd.name 10

def writePrefix (pre : List UInt8) : List UInt8 := if pre = [47] then [] else pre ++ [47, 10]

/-- The loop of `write_entries`, with `ctx->path` up to `ctx->depth`. -/
def writeEntries (pre : List UInt8) : List Name → List Node → Except Halt (List UInt8)
  | _, [] => .ok []
  | path, nd :: nds =>
    if nd.isDir then do
      refuse (path.length < nd.lvl ∨ MAXDEPTH < nd.lvl) (.fail (some "invalid pac index") none none)
      writeEntries pre (path.take nd.lvl ++ [nd.name]) nds
    else if ¬nd.need then writeEntries pre path nds
    else do
      let text ← writeEntries pre path nds
      return writeLine pre path nd ++ text

/-- `write_filedb`. The file is opened before anything is written to it. -/
def writeFiledb (fs : Fs (List Name)) (lst : ListName) (pre : List UInt8) (index : List Node) :
    Except Halt (Fs (List Name)) := do
  let entries := writeEntries pre [] index
  let fs ← prepRepoDir fs lst
  let d ← orFail lst.text (fs.walkTo [] lst.home)
  let fs ← orFail lst.text
    (fs.creat (some d) lst.base (writePrefix pre ++ entries.toOption.getD []) false)
  let _ ← entries
  return fs

/-! ### Deploying -/

/-- `open` of `/dev/null`. -/
def openNull (fs : Fs (List Name)) : Except Errno Unit := do
  let d ← fs.walkTo [] [[100, 101, 118]]
  match fs.stat d [110, 117, 108, 108] with
  | .error e => .error e
  | .ok (.file _ _) => .ok ()
  | .ok (.link t) =>
    match fs.follow d t with
    | .error e => .error e
    | .ok _ => .error .EISDIR
  | .ok (.dir _) => .error .EISDIR

def maybeOpenNull (fs : Fs (List Name)) (index : List Node) : Except Halt Unit := do
  refuse (index.any (fun nd => !nd.isDir && nd.need) = false)
    (.fail (some "no files to install") none none)
  if index.any fun nd => !nd.isDir && !nd.need && nd.size != 0 then
    orFail [47, 100, 101, 118, 47, 110, 117, 108, 108] (openNull fs)
  else .ok ()

/-- `cmd_deploy`, with the prefix and the rules of the configuration and the bytes of the
package. -/
def cmdDeploy (fs : Fs (List Name)) (pre : Option (List UInt8)) (rules : Rules) (lst : ListName)
    (pac : List UInt8) : Except Halt (Fs (List Name)) := do
  let (index, data) ← (loadPacfile pac).mapError fun f => .stop (.fail f)
  let (pre, at_) ← setupPrefix fs pre
  checkFiledb fs lst
  let index ← (checkIndex rules index).mapError .stop
  let (index, warns) := checkConflict fs at_ index
  refuse (warns ≠ []) (.fail (some "unable to continue") none none)
  let fs ← writeFiledb fs lst pre index
  maybeOpenNull fs index
  let u ← (unpackContent fs at_ index data).mapError .failx
  return u.fs

/-! ### Removing -/

/-- What removal goes on with: the file system, the open directories, where `none` is
`AT_SKIP`, and the warnings so far. -/
structure Removing where
  fs : Fs (List Name)
  walk : Walk (Option (List Name))
  warns : List Warn

/-- The loop of `backtrack_path`, on the two parts of a walk. The paths of its warnings are
relative to where it began. -/
def backtrackFrom (full : List Name) (lvl : ℕ) :
    Fs (List Name) → List Warn → Option (List Name) → List (Option (List Name) × Name) → Removing
  | fs, ws, at_, [] => ⟨fs, ⟨at_, []⟩, ws⟩
  | fs, ws, at_, (fd, name) :: st =>
    if lvl < st.length + 1 then
      match fd with
      | none => backtrackFrom full lvl fs ws none st
      | some d =>
        match fs.rmdirat d name with
        | .ok fs => backtrackFrom full lvl fs ws (some d) st
        | .error .ENOENT => backtrackFrom full lvl fs ws (some d) st
        | .error .ENOTEMPTY => backtrackFrom full lvl fs ws (some d) st
        | .error e => backtrackFrom full lvl fs (ws ++ [⟨none, full ++ [name], e⟩]) (some d) st
    else ⟨fs, ⟨at_, (fd, name) :: st⟩, ws⟩

def backtrackPath (s : Removing) (lvl : ℕ) : Removing :=
  backtrackFrom s.walk.path lvl s.fs s.warns s.walk.at_ s.walk.stack

/-- The loop of `skip_open_dirs`: how many names are the same. -/
def common : List Name → List Name → ℕ
  | m :: path, n :: dirs => if m = n then common path dirs + 1 else 0
  | _, _ => 0

/-- How `enter_new_dirs` opens the next directory. -/
def openNext (fs : Fs (List Name)) (at_ : Option (List Name)) (name : Name) :
    Except Halt (Option (List Name)) :=
  match at_ with
  | none => .ok none
  | some d =>
    match fs.openDir d name with
    | .ok d => .ok (some d)
    | .error .ENOENT => .ok none
    | .error e => .error (.fail (some "open") (some name) (some e))

def enterNewDirs : Removing → List Name → Except Halt Removing
  | s, [] => .ok s
  | s, name :: dirs => do
    refuse (MAXDEPTH ≤ s.walk.depth) (.fail (some "max depth exceeded") none none)
    let fd ← openNext s.fs s.walk.at_ name
    enterNewDirs { s with walk := s.walk.push name fd } dirs

def unlinkTail (s : Removing) (name : Name) : Removing :=
  match s.walk.at_ with
  | none => s
  | some d =>
    match s.fs.unlinkat d name with
    | .ok fs => { s with fs := fs }
    | .error .ENOENT => s
    | .error e => { s with warns := s.warns ++ [⟨none, s.walk.path ++ [name], e⟩] }

/-- One round of the loop of `unlink_files`: `skip_open_dirs`, `enter_new_dirs` and
`unlink_tail`, after the prefix is cut off. -/
def unlinkLine (prelen : ℕ) (s : Removing) (line : List UInt8) : Except Halt Removing := do
  refuse (line.length < prelen) (.fail (some "invalid prefix") none none)
  let (dirs, name) := pieces 47 (line.drop prelen)
  let lvl := common s.walk.path dirs
  let s ← enterNewDirs (backtrackPath s lvl) (dirs.drop lvl)
  return unlinkTail s name

/-- The lines of a text; the last one need not be terminated. -/
def linesOf (text : List UInt8) : List (List UInt8) :=
  (pieces 10 text).1 ++ if (pieces 10 text).2 = [] then [] else [(pieces 10 text).2]

/-- The loop of `unlink_files`. -/
def unlinkLines (prelen : ℕ) : Removing → List (List UInt8) → Except Halt Removing
  | s, [] => .ok s
  | s, line :: lines => do
    let s ← unlinkLine prelen s line
    unlinkLines prelen s lines

def unlinkFiles (fs : Fs (List Name)) (at_ : List Name) (prelen : ℕ) (text : List UInt8) :
    Except Halt Removing := do
  let s ← unlinkLines prelen ⟨fs, ⟨some at_, []⟩, []⟩ (linesOf text)
  refuse (s.warns ≠ []) (.fail (some "unable to continue") none none)
  return backtrackPath s 0

/-- `check_prefix`: the prefix, its length in front of each path, and where the paths
start. -/
def checkPrefix (text : List UInt8) : Option (List UInt8) × ℕ × ℕ :=
  let line := text.takeWhile (· ≠ 10)
  if line.getLast? = some 47 then (some line.dropLast, line.length, line.length + 1)
  else (none, 0, 0)

/-- `load_filedb`: the text of the list, which must not be longer than 32 bits can say. -/
def loadFiledb (fs : Fs (List Name)) (lst : ListName) : Except Halt (List UInt8) := do
  let d ← orFail lst.text (fs.walkTo [] lst.home)
  match fs.stat d lst.base with
  | .error e => .error (.fail none (some lst.text) (some e))
  | .ok (.file text _) => do
    refuse (0xFFFFFFFF < text.length) (.fail none (some lst.text) (some .E2BIG))
    return text
  | .ok (.link t) =>
    match fs.follow d t with
    | .error e => .error (.fail none (some lst.text) (some e))
    | .ok _ => .error (.fail (some "mmap") none (some .ENODEV))
  | .ok (.dir _) => .error (.fail (some "mmap") none (some .ENODEV))

/-- `unlink_filedb`: the list, and the directory of its group if that is empty then. -/
def unlinkFiledb (fs : Fs (List Name)) (lst : ListName) : Except Halt (Fs (List Name)) := do
  let d ← orFail lst.text (fs.walkTo [] lst.home)
  let fs ← orFail lst.text (fs.unlinkat d lst.base)
  match lst.group with
  | none => return fs
  | some group => do
    let d ← orFail (pathText lst.home) (fs.walkTo [] lst.dir)
    match fs.rmdirat d group with
    | .ok fs => return fs
    | .error .ENOTEMPTY => return fs
    | .error e => .error (.fail none (some (pathText lst.home)) (some e))

def cmdRemove (fs : Fs (List Name)) (lst : ListName) : Except Halt (Fs (List Name)) := do
  let text ← loadFiledb fs lst
  let (pre, prelen, hoff) := checkPrefix text
  let (_, at_) ← setupPrefix fs pre
  let s ← unlinkFiles fs at_ prelen (text.drop hoff)
  unlinkFiledb s.fs lst

end Minibase.Mpkg
