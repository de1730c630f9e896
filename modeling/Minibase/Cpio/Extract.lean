import Minibase.Lib.Strings
import Minibase.Util.Writeall
import Minibase.Cpio.Create

/-!
# Archives that are taken apart

`cmd_extract` of `src/cpio/cpio_extract.c`. The archive is read through a window of two
pages (`Cpio.Hwin`), in which a header and its name have to be as a whole. What follows them
is taken out of the window as far as it is there, and from the descriptor after that: by one
read for a symlink, by calls of `sendfile` for a file (`Cpio.streamRest`).

`Cpio.Env` says for each call what the system returns, and the calls are counted; a read
moves as much as it returns.
-/

namespace Minibase.Cpio

/-- `hdrlen` -/
def HLEN : ℕ := 2 * PAGE

def ENOENT : ℤ := 2

def EEXIST : ℤ := 17

def ENOTDIR : ℤ := 20

/-- What `fail` is called with. -/
structure Failure where
  msg : Option String
  name : Option (List UInt8)
  ret : ℤ

/-- What there is under a name in the end. -/
inductive Made
  | dir (name : List UInt8)
  | file (name : List UInt8) (mode : ℕ) (body : List UInt8)
  | link (name target : List UInt8)
deriving DecidableEq

/-- The directory that is extracted to, and what each call returns if it is the `k`-th. -/
structure Env where
  dir : List UInt8
  read : Outcomes
  write : Outcomes
  sendfile : Outcomes
  unlinkat : ℕ → ℤ
  openat : ℕ → ℤ
  symlinkat : ℕ → ℤ
  mkdirat : ℕ → ℤ

/-- `struct hwin`: what is in the window, and where. -/
structure Hwin where
  head : List UInt8
  hptr : ℕ
  hptr_le : hptr ≤ head.length
  head_le : head.length ≤ HLEN

/-- What there is to the next byte of the window and after it. -/
def Hwin.tail (w : Hwin) : List UInt8 := w.head.drop w.hptr

/-- The fields of `struct top` that have a part in it, what is still to be read of the
archive, the number of calls so far, and what was made. -/
structure Ext where
  hwin : Hwin
  skip : ℕ
  skip_lt : skip < 4
  off : ℤ
  reclen : ℤ
  stream : List UInt8
  clock : ℕ
  made : List Made

variable (st : Ext)

/-- Where in the archive something is fatal: an `off_t`, said as a number without sign. -/
def Ext.pos : ℕ := (st.off % 2 ^ 64).toNat

section

variable {α : Type}

/-- `fail`, without a name. -/
def fail (msg : String) (ret : ℤ) : Except Failure α := .error ⟨some msg, none, ret⟩

def failx (env : Env) (name : List UInt8) (ret : ℤ) : Except Failure α :=
  .error ⟨none, some (env.dir ++ [slash] ++ name), ret⟩

/-- What `fatal` ends with. -/
def ofFatal (x : Except String α) : Except Failure α := x.mapError fun msg => ⟨some msg, none, 0⟩

end

/-! ### The window -/

def shiftBuffer : ℕ × Ext :=
  let w := st.hwin
  if w.hptr ≥ w.head.length then
    (0, { st with hwin := ⟨[], 0, Nat.zero_le _, Nat.zero_le _⟩ })
  else
    (w.head.length - w.hptr, { st with
      hwin := ⟨w.tail, 0, Nat.zero_le _, by
        rw [Hwin.tail, List.length_drop]
        exact (Nat.sub_le _ _).trans w.head_le⟩ })

def grabCached (size : ℕ) (st : Ext) : ℕ × Ext :=
  let w := st.hwin
  if w.hptr ≥ w.head.length then (0, st)
  else
    let left := min (w.head.length - w.hptr) size
    (left, { st with hwin := ⟨w.head, w.hptr + left, by have := w.hptr_le; omega, w.head_le⟩ })

/-- What is returned by a call that moves so much out of the archive: an error, or some of
what is there. It is nothing at the end only. -/
def moved (o : Outcomes) (st : Ext) (want : ℕ) : ℤ :=
  let ret := o.ret st.clock want
  if ret < 0 then ret else min (max 1 ret) st.stream.length

lemma moved_le {o : Outcomes} {st : Ext} {want : ℕ} (h : 0 < want) :
    (moved o st want).toNat ≤ want := by
  have hle := o.ret_le st.clock want
  rw [moved]
  split_ifs <;> omega

def fillBuffer (env : Env) (st : Ext) : Except Failure Ext :=
  let w := st.hwin
  if h : w.head.length ≥ HLEN then fail "out of buffer space" 0
  else
    let left := HLEN - w.head.length
    let ret := moved env.read st left
    if ret < 0 then fail "read" ret
    else .ok { st with
      hwin := ⟨w.head ++ st.stream.take ret.toNat, w.hptr, by
          rw [List.length_append]
          exact w.hptr_le.trans (Nat.le_add_right _ _), by
          have hle : ret.toNat ≤ left := moved_le (Nat.sub_pos_of_lt (Nat.not_le.mp h))
          have htake := List.length_take_le ret.toNat st.stream
          rw [List.length_append]
          omega⟩
      stream := st.stream.drop ret.toNat
      clock := st.clock + 1 }

/-- `read_head`: nothing at the end of the archive. -/
def readHead (env : Env) (st : Ext) : Except Failure (Option (List UInt8) × Ext) := do
  let (got, st) := shiftBuffer st
  let skip := st.skip
  let need := HDRSIZE + skip
  let st := { st with
    skip := 0, skip_lt := Nat.zero_lt_succ 3, off := st.off + st.reclen, reclen := 0 }
  let st ← (if got < need then fillBuffer env st else .ok st)
  let (got, st) := grabCached need st
  if got = 0 then .ok (none, st)
  else if got < need then fail "truncated header" 0
  else .ok (some ((st.hwin.head.drop skip).take HDRSIZE), { st with reclen := HDRSIZE })

/-- How much a name takes that is so long. -/
def nameRoom (namesize : ℕ) : ℕ := align4 (2 + namesize) - 2

def readName (env : Env) (namesize : ℕ) (st : Ext) : Except Failure Ext :=
  if namesize > PAGE then ofFatal (fatal st.pos "entry name too long")
  else do
    let aligned := nameRoom namesize
    let w := st.hwin
    let left := if w.hptr ≥ w.head.length then 0 else w.head.length - w.hptr
    let st ← (if left < aligned then fillBuffer env st else .ok st)
    let (got, st) := grabCached aligned st
    if got < aligned then ofFatal (fatal st.pos "truncated entry name")
    else .ok { st with reclen := st.reclen + aligned }

/-! ### Headers and names -/

def checkMagic (hdr : List UInt8) : Except Failure Unit :=
  if hdr.take 6 = magic then .ok ()
  else if hdr.take 6 = magicSum then .ok ()
  else ofFatal (fatal st.pos "invalid header magic")

/-- `parse_size`, for the number at `pos` in a header. -/
def parseSize (hdr : List UInt8) (pos : ℕ) : Except Failure ℕ :=
  match number hdr pos with
  | some r => .ok r
  | none => ofFatal (fatal st.pos "invalid size")

/-- Bytes that are in a memory by themselves. -/
def memOf (bs : List UInt8) : Mem := Mem.store (fun _ => 0) 0 bs

/-- `check_name`, for these bytes behind a header. -/
def checkName (name : List UInt8) : Except Failure ℤ :=
  let namesize := name.length
  if namesize > PAGE then ofFatal (fatal st.pos "entry name too long")
  else
    let p := (string name).length
    if p ≥ namesize then ofFatal (fatal st.pos "invalid entry name")
    else if p + 1 < namesize then ofFatal (fatal st.pos "null chars in name")
    else .ok (strncmp (memOf name) (memOf (trailer ++ [0])) namesize 0 0)

/-! ### What is made -/

def removeExisting (env : Env) (name : List UInt8) (st : Ext) : Except Failure Ext :=
  let ret := env.unlinkat st.clock
  if ret ≥ 0 then .ok { st with clock := st.clock + 1 }
  else if ret ≠ -ENOENT ∧ ret ≠ -ENOTDIR then failx env name ret
  else .ok { st with clock := st.clock + 1 }

/-- The `mode` that a file is opened with. -/
def fileMode (mode : ℕ) : ℕ := if mode &&& 0o111 ≠ 0 then 0o755 else 0o644

def openOutput (env : Env) (name : List UInt8) (st : Ext) : Except Failure Ext := do
  let st ← removeExisting env name st
  let ret := env.openat st.clock
  if ret < 0 then failx env name ret else .ok { st with clock := st.clock + 1 }

/-- `write_cached`, with what was written. -/
def writeCached (env : Env) (filesize : ℕ) (st : Ext) : Except Failure (List UInt8 × Ext) :=
  let block := if filesize < HLEN then filesize else HLEN
  let tail := st.hwin.tail
  let (got, st) := grabCached block st
  if got = 0 then .ok ([], st)
  else
    let ret := env.write.ret st.clock got
    if ret < 0 then fail "write" ret
    else if ret ≠ got then fail "incomplete write" 0
    else .ok (tail.take got, { st with clock := st.clock + 1 })

/-- The loop of `stream_rest`, in at most so many rounds, with what was written. -/
def streamFrom (env : Env) : ℕ → ℕ → Ext → Except Failure (List UInt8 × Ext)
  | 0, _, st => .ok ([], st)
  | k + 1, left, st =>
    if left = 0 then .ok ([], st)
    else
      let sfb := if left < 1 <<< 30 then left else 1 <<< 30
      let ret := moved env.sendfile st sfb
      if ret < 0 then fail "sendfile" ret
      else if ret = 0 then .ok ([], { st with clock := st.clock + 1 })
      else do
        let (bytes, st') ← streamFrom env k (left - ret.toNat)
          { st with stream := st.stream.drop ret.toNat, clock := st.clock + 1 }
        .ok (st.stream.take ret.toNat ++ bytes, st')

def streamRest (env : Env) (left : ℕ) (st : Ext) : Except Failure (List UInt8 × Ext) :=
  streamFrom env left left st

def extractFile (env : Env) (filesize : ℕ) (name : List UInt8) (mode : ℕ) (st : Ext) :
    Except Failure Ext := do
  let st ← openOutput env name st
  let (cached, st) ← writeCached env filesize st
  if cached.length ≥ filesize then
    .ok { st with made := st.made ++ [.file name (fileMode mode) cached] }
  else do
    let (streamed, st) ← streamRest env (filesize - cached.length) st
    .ok { st with made := st.made ++ [.file name (fileMode mode) (cached ++ streamed)] }

/-- `copy_cached`, with what was copied. -/
def copyCached (len : ℕ) (st : Ext) : List UInt8 × Ext :=
  let tail := st.hwin.tail
  let (got, st) := grabCached len st
  (tail.take got, st)

/-- `read_content`, with what was read. -/
def readContent (env : Env) (size : ℕ) (st : Ext) : Except Failure (List UInt8 × Ext) :=
  let ret := moved env.read st size
  if ret < 0 then fail "read" ret
  else if ret ≠ size then ofFatal (fatal st.pos "truncated symlink")
  else .ok (st.stream.take ret.toNat,
    { st with stream := st.stream.drop ret.toNat, clock := st.clock + 1 })

def extractLink (env : Env) (filesize : ℕ) (name : List UInt8) (st : Ext) : Except Failure Ext :=
  if filesize > PAGE then ofFatal (fatal st.pos "symlink too long")
  else do
    let (cached, st) := copyCached filesize st
    let (more, st) ← (if cached.length < filesize then readContent env (filesize - cached.length) st
      else .ok ([], st))
    let st ← removeExisting env name st
    let ret := env.symlinkat st.clock
    if ret < 0 then failx env name ret
    else .ok { st with
      clock := st.clock + 1, made := st.made ++ [.link name (string (cached ++ more))] }

def extractDir (env : Env) (name : List UInt8) (st : Ext) : Except Failure Ext :=
  let ret := env.mkdirat st.clock
  let st := { st with clock := st.clock + 1, made := st.made ++ [.dir name] }
  if ret ≥ 0 then .ok st else if ret = -EEXIST then .ok st else failx env name ret

/-! ### Entries -/

/-- The end of `extract_single_entry`: what the entry is. -/
def extractType (env : Env) (filesize mode : ℕ) (name : List UInt8) (st : Ext) :
    Except Failure Ext :=
  let type := mode &&& S_IFMT
  if type = S_IFREG then extractFile env filesize name mode st
  else if type = S_IFLNK then extractLink env filesize name st
  else if filesize ≠ 0 then ofFatal (fatal st.pos "non-zero size in non-regular file")
  else if type = S_IFDIR then extractDir env name st
  else .ok st

/-- `extract_single_entry`: whether there may be more. -/
def extractSingleEntry (env : Env) (hdr : List UInt8) (st : Ext) : Except Failure (Bool × Ext) := do
  checkMagic st hdr
  let filesize ← parseSize st hdr FILESIZE
  let namesize ← parseSize st hdr NAMESIZE
  let mode ← parseSize st hdr MODE
  let pos := st.hwin.hptr
  let st ← readName env namesize st
  let st := { st with
    skip := padding filesize, skip_lt := padding_lt filesize,
    reclen := st.reclen + i32 (align4 filesize) }
  let name := (st.hwin.head.drop pos).take namesize
  let cmp ← checkName st name
  if cmp = 0 then .ok (false, st)
  else do
    let path ← ofFatal (validateName st.pos (string name))
    let st ← extractType env filesize mode path st
    .ok (true, st)

/-- `extract_entries`, as far as it comes with so many headers: nothing if it is still going
on. -/
def extractEntries (env : Env) : ℕ → Ext → Option (Except Failure Ext)
  | 0, _ => none
  | k + 1, st =>
    match readHead env st with
    | .error e => some (.error e)
    | .ok (none, st) => some (.ok st)
    | .ok (some hdr, st) =>
      match extractSingleEntry env hdr st with
      | .error e => some (.error e)
      | .ok (false, st) => some (.ok st)
      | .ok (true, st) => extractEntries env k st

/-- Before anything was read of an archive. -/
def Ext.start (bytes : List UInt8) : Ext :=
  ⟨⟨[], 0, Nat.zero_le _, Nat.zero_le _⟩, 0, Nat.zero_lt_succ 3, 0, 0, bytes, 0, []⟩

/-- `cmd_extract`, once the archive and the directory are open. There are fewer headers than
bytes. -/
def cmdExtract (env : Env) (bytes : List UInt8) : Option (Except Failure Ext) :=
  extractEntries env (bytes.length + 1) (Ext.start bytes)

end Minibase.Cpio
