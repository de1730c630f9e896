import Minibase.Ctool.Library
import Minibase.Mpkg.Removed

/-!
# Adding and removing a library

`ctool add` is `ctool_lib.c` after the package has been found and its index loaded: it looks
for what is in the way (`Ctool.Deploy.checkConflict`), writes the list of the files
(`Ctool.Deploy.writeFiledb`, in `ctool_lib_flist.c`) and unpacks
(`Ctool.Deploy.unpackContent`). `ctool del` takes out what the list names
(`Ctool.Deploy.removePackage`, in `ctool_remove.c`). The working directory is the root of the
file system. The walks have a stack of open directories, `Mpkg.Walk`; unlike in `mpkg`
everything is wanted, the lines have no prefix, and directories at the top are never removed.
-/

namespace Minibase.Ctool.Deploy

open Mpkg (Fail Node Walk Warn Halt orFail failx orFailx PAGE common linesOf)

/-- `pkg`, where the lists are. -/
def PKG : Name := [0x70, 0x6B, 0x67]

/-- How much one call reads, writes or sends at most. -/
def MAX_RW_COUNT : ℕ := 0x7FFFF000

/-- `ctx->fdbpath`: `pkg/`, the name of the package, which is not a path, and `.list`. -/
structure ListName where
  name : Name
  noSlash : 0x2F ∉ name
  noNul : 0 ∉ name

namespace ListName

/-- The name of the list in its directory. -/
def base (lst : ListName) : Name := lst.name ++ [0x2E, 0x6C, 0x69, 0x73, 0x74]

/-- The whole path. -/
def text (lst : ListName) : List UInt8 := PKG ++ 0x2F :: lst.base

end ListName

/-! ### The check -/

def statLeaf (fs : Fs (List Name)) (w : Walk (List Name)) (nd : Node) : List Warn :=
  match fs.stat w.at_ nd.name with
  | .ok _ => [⟨none, w.path ++ [nd.name], .EEXIST⟩]
  | .error .ENOENT => []
  | .error e => [⟨none, w.path ++ [nd.name], e⟩]

/-- `enter_dir`: the walk after it, the node with its new bit, and the warnings. -/
def enterDir (fs : Fs (List Name)) (w : Walk (List Name)) (nd : Node) :
    Walk (List Name) × Node × List Warn :=
  if MAXDEPTH ≤ w.depth then (w, nd, [])
  else
    match fs.openDir w.at_ nd.name with
    -- nothing is pushed, and what follows is looked up from here
    | .error .ENOENT => (w, nd, [])
    | .error e => (w, nd, [⟨none, w.path ++ [nd.name], e⟩])
    | .ok fd => (w.push nd.name fd, { nd with exst := true }, [])

/-- One round of the loop of `check_conflict`. -/
def conflictNode (fs : Fs (List Name)) (w : Walk (List Name)) (nd : Node) :
    Walk (List Name) × Node × List Warn :=
  if nd.isDir then enterDir fs (w.rewind nd.lvl) nd
  else (w, nd, statLeaf fs w nd)

/-- The loop of `check_conflict`: the nodes with their new bits, and the warnings. -/
def conflictNodes (fs : Fs (List Name)) : Walk (List Name) → List Node → List Node × List Warn
  | _, [] => ([], [])
  | w, nd :: nds =>
    let (w', nd', ws) := conflictNode fs w nd
    let (nds', ws') := conflictNodes fs w' nds
    (nd' :: nds', ws ++ ws')

/-- `check_conflict`. Any warning sets `ctx->fail`, on which it gives up at the end. -/
def checkConflict (fs : Fs (List Name)) (index : List Node) : List Node × List Warn :=
  conflictNodes fs ⟨[], []⟩ index

/-! ### Unpacking -/

/-- What unpacking goes on with: the file system, the open directories, where `none` is a
descriptor of something else, and the content still to be read. -/
structure Unpacking where
  fs : Fs (List Name)
  walk : Walk (Option (List Name))
  data : List UInt8

def unpackDir (u : Unpacking) (nd : Node) : Except Warn Unpacking :=
  if MAXDEPTH ≤ u.walk.depth then failx u.walk none nd.name .ELOOP
  else do
    let fs ← if nd.exst then .ok u.fs else orFailx u.walk nd.name (u.fs.mkdirat u.walk.at_ nd.name)
    let fd ← orFailx u.walk nd.name (fs.openPath u.walk.at_ nd.name)
    return { u with fs := fs, walk := u.walk.push nd.name fd }

variable (databuf : Bool)

/-- `transfer_data`: the bytes that are left. With a buffer, as there is one for a package that
comes out of a pipe, it is `transfer_read` that goes on until it has them all, and never returns
if they do not come; without one it is `transfer_send`, in one call. -/
def transferData (u : Unpacking) (nd : Node) : Except Warn (List UInt8) := do
  refuse (u.data.length < nd.size ∨ databuf = false ∧ MAX_RW_COUNT < nd.size)
    ⟨some "sendfile", u.walk.path ++ [nd.name], .EINTR⟩
  return u.data.drop nd.size

def unpackLink (u : Unpacking) (nd : Node) : Except Warn Unpacking :=
  if PAGE < nd.size then failx u.walk none nd.name .E2BIG
  else if u.data.length < nd.size then failx u.walk none nd.name .EINTR
  else if 0 ∈ u.data.take nd.size then failx u.walk none nd.name .EINVAL
  else do
    let fs ← orFailx u.walk nd.name (u.fs.symlinkat (u.data.take nd.size) u.walk.at_ nd.name)
    return { u with fs := fs, data := u.data.drop nd.size }

def unpackFile (u : Unpacking) (nd : Node) : Except Warn Unpacking := do
  let fs ← orFailx u.walk nd.name (u.fs.creat u.walk.at_ nd.name (u.data.take nd.size) nd.isExec)
  let rest ← transferData databuf u nd
  return { u with fs := fs, data := rest }

/-- One round of the loop of `unpack_content`. -/
def unpackNode (u : Unpacking) (nd : Node) : Except Warn Unpacking :=
  if nd.isDir then
    if u.walk.depth < nd.lvl then .ok u
    else unpackDir { u with walk := u.walk.rewind nd.lvl } nd
  else if nd.isLink then unpackLink u nd
  else unpackFile databuf u nd

/-- The loop of `unpack_content`. -/
def unpackNodes (u : Unpacking) (nds : List Node) : Except Warn Unpacking :=
  nds.foldlM (unpackNode databuf) u

def unpackContent (fs : Fs (List Name)) (index : List Node)
    (data : List UInt8) : Except Warn Unpacking :=
  unpackNodes databuf ⟨fs, ⟨some [], []⟩, data⟩ index

/-! ### The list -/

/-- `file_list_size`, with the lengths of the directories one is in, as a 32-bit number. -/
def fileListSize : List ℕ → List Node → Except Halt ℕ
  | _, [] => .ok 0
  | lens, nd :: nds =>
    if nd.isDir then do
      refuse (lens.length < nd.lvl ∨ MAXDEPTH ≤ nd.lvl) (.fail (some "malformed index") none none)
      fileListSize (lens.take nd.lvl ++ [nd.name.length + 1]) nds
    else do
      let total ← fileListSize lens nds
      return (lens.sum + nd.name.length + 1 + total) % 2 ^ 32

def appendFile (path : List Name) (nd : Node) : List UInt8 :=
  path.flatMap (· ++ [0x2F]) ++ nd.name ++ [0x0A]

/-- `format_entries`, with `ctx->path` up to `ctx->depth`, if there is room for everything. -/
def formatEntries : List Name → List Node → Except Halt (List UInt8)
  | _, [] => .ok []
  | path, nd :: nds =>
    if nd.isDir then do
      refuse (path.length < nd.lvl ∨ MAXDEPTH ≤ nd.lvl) (.fail (some "malformed index") none none)
      formatEntries (path.take nd.lvl ++ [nd.name]) nds
    else do
      let text ← formatEntries path nds
      return appendFile path nd ++ text

/-- `write_filedb`. The text is cut where the area ends, which is found out before it is written.
A longer text than one call writes is one that was not written whole. -/
def writeFiledb (fs : Fs (List Name)) (lst : ListName) (index : List Node) :
    Except Halt (Fs (List Name)) := do
  let total ← fileListSize [] index
  let size := (total + 1) % 2 ^ 32
  let d ← orFail lst.text (fs.openDir [] PKG)
  let text := (formatEntries [] index).toOption.getD []
  let fs ← orFail lst.text (fs.creat (some d) lst.base text false)
  let _ ← formatEntries [] index
  refuse (size ≤ text.length) (.fail (some "file list area overflow") none none)
  refuse (MAX_RW_COUNT < text.length) (.fail (some "write") (some lst.text) (some .EINTR))
  return fs

/-! ### Removing -/

/-- What removal goes on with: the file system, the open directories, where `none` is
`AT_SKIP`, and the warnings so far. They do not end anything. -/
structure Removing where
  fs : Fs (List Name)
  walk : Walk (Option (List Name))
  warns : List Fail

/-- The loop of `backtrack_path`, on the two parts of a walk. -/
def backtrackFrom (lvl : ℕ) : Fs (List Name) → List Fail → Option (List Name) →
    List (Option (List Name) × Name) → Removing
  | fs, ws, at_, [] => ⟨fs, ⟨at_, []⟩, ws⟩
  | fs, ws, at_, (fd, name) :: st =>
    if lvl < st.length + 1 then
      match fd with
      | none => backtrackFrom lvl fs ws none st
      | some d =>
        -- a directory at the top stays
        if st = [] then backtrackFrom lvl fs ws (some d) st
        else
          match fs.rmdirat d name with
          | .ok fs => backtrackFrom lvl fs ws (some d) st
          | .error .ENOENT => backtrackFrom lvl fs ws (some d) st
          | .error .ENOTEMPTY => backtrackFrom lvl fs ws (some d) st
          | .error e => backtrackFrom lvl fs (ws ++ [⟨some "unlink", some name, some e⟩])
            (some d) st
    else ⟨fs, ⟨at_, (fd, name) :: st⟩, ws⟩

variable (s : Removing)

def backtrackPath (lvl : ℕ) : Removing :=
  backtrackFrom lvl s.fs s.warns s.walk.at_ s.walk.stack

/-- How `enter_new_dirs` opens the next directory. -/
def openNext (fs : Fs (List Name)) (at_ : Option (List Name)) (name : Name) :
    Except Halt (Option (List Name)) :=
  match at_ with
  | none => .ok none
  | some d =>
    match fs.openDir d name with
    | .ok d => .ok (some d)
    | .error .ENOENT => .ok none
    | .error e => .error (.fail (some "open") (some name) (some e))

def enterNewDirs : Removing → List Name → Except Halt Removing
  | s, [] => .ok s
  | s, name :: dirs => do
    refuse (MAXDEPTH ≤ s.walk.depth) (.fail (some "max depth exceeded") none none)
    let fd ← openNext s.fs s.walk.at_ name
    enterNewDirs { s with walk := s.walk.push name fd } dirs

def unlinkTail (name : Name) : Removing :=
  match s.walk.at_ with
  | none => s
  | some d =>
    match s.fs.unlinkat d name with
    | .ok fs => { s with fs := fs }
    | .error .ENOENT => s
    | .error e => { s with warns := s.warns ++ [⟨some "unlink", some name, some e⟩] }

/-- One round of the loop of `unlink_files`: `skip_open_dirs`, `enter_new_dirs` and
`unlink_tail`. -/
def unlinkLine (line : List UInt8) : Except Halt Removing := do
  let (dirs, name) := pieces 0x2F line
  let lvl := common s.walk.path dirs
  let s ← enterNewDirs (backtrackPath s lvl) (dirs.drop lvl)
  return unlinkTail s name

def unlinkFiles (fs : Fs (List Name)) (text : List UInt8) : Except Halt Removing := do
  let s ← (linesOf text).foldlM unlinkLine ⟨fs, ⟨some [], []⟩, []⟩
  return backtrackPath s 0

/-- `load_filedb`: the text of the list. -/
def loadFiledb (fs : Fs (List Name)) (lst : ListName) : Except Halt (List UInt8) := do
  let d ← orFail lst.text (fs.openDir [] PKG)
  match fs.stat d lst.base with
  | .error e => .error (.fail none (some lst.text) (some e))
  | .ok (.file text _) => do
    refuse (0xFFFFFFFF < text.length) (.fail none (some lst.text) (some .E2BIG))
    refuse (MAX_RW_COUNT < text.length) (.fail (some "incomplete read") none none)
    return text
  | .ok (.link t) =>
    match fs.follow d t with
    | .error e => .error (.fail none (some lst.text) (some e))
    | .ok _ => .error (.fail (some "read") none none)
  | .ok (.dir _) => .error (.fail (some "read") none none)

def unlinkFiledb (fs : Fs (List Name)) (lst : ListName) : Except Halt (Fs (List Name)) := do
  let d ← orFail lst.text (fs.openDir [] PKG)
  orFail lst.text (fs.unlinkat d lst.base)

def removePackage (fs : Fs (List Name)) (lst : ListName) : Except Halt (Fs (List Name)) := do
  let text ← loadFiledb fs lst
  let s ← unlinkFiles fs text
  unlinkFiledb s.fs lst

end Minibase.Ctool.Deploy
