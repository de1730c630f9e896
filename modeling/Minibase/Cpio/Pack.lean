import Minibase.Lib.Memory
import Minibase.Cpio.Names

/-!
# The list of what to pack

`parse_input` of `src/cpio/cpio_pack.c` and what it calls. The list is in a buffer with a zero
after it. A line is cut out of it in place: its newline is overwritten (`Cpio.grabLine`), and
so is the blank after the first word of a line of two (`Cpio.takeNamePath`). The strings that
the entries are made from are whatever is there up to the next zero (`Cpio.string`).

What is modelled is which entries are asked for and with what names, in order (`Cpio.Event`).
-/

namespace Minibase.Cpio

def isSpace (c : UInt8) : Bool := c == 0x20 || c == 0x09

/-- The loop of `basename`, with its `p` and `q`. -/
def basenameFrom : List UInt8 → List UInt8 → List UInt8
  | [], q => q
  | c :: p, q => basenameFrom p (if c = slash then p else q)

def basename (path : List UInt8) : List UInt8 := basenameFrom path path

/-- `struct entry` as a line fills it in; the size comes from the file. -/
structure Entry where
  name : List UInt8
  nlen : ℕ
  path : List UInt8
  plen : ℕ
deriving DecidableEq

/-- What is done about a line. -/
inductive Event
  /-- An empty line. -/
  | blank
  /-- A line that starts with `#`. -/
  | comment
  /-- `put_pref`, with the new value of `pref`. -/
  | pref (text : List UInt8)
  /-- `put_immlink`. -/
  | link (en : Entry)
  /-- `common_put_file` for a line with `=`. -/
  | copy (en : Entry)
  /-- `common_put_file` for a line without a lead. -/
  | file (en : Entry)
deriving DecidableEq

/-- What `syntax` is called with, and the number of the line it reports. -/
structure Syntax where
  line : ℕ
  msg : String
deriving DecidableEq

/-- `struct list`, with the memory the buffer is in. -/
structure Lst where
  m : Mem
  lp : ℕ
  ls : ℕ
  le : ℕ
  line : ℕ

/-! ### Pointers -/

variable (m : Mem)

def skipNonspace (p e : ℕ) : ℕ := Mem.scan isSpace m p (e - p)

def skipSpace (p e : ℕ) : ℕ := Mem.scan (fun c => !isSpace c) m p (e - p)

def backSpace (p e : ℕ) : ℕ := Mem.scanBack isSpace m p (e - p)

def strecbrk (p e : ℕ) (k : UInt8) : ℕ := Mem.scan (· == k) m p (e - p)

/-- The string at `p`, in a buffer that a zero follows at `e`. -/
def stringAt (p e : ℕ) : List UInt8 := string (m.load p (e - p))

/-! ### Lines -/

section

variable (bend : ℕ) (l : Lst)

/-- `grab_line`: the next line, or none at the end of the buffer. -/
def grabLine : Except Syntax (Option Lst) :=
  let s := l.lp
  if s ≥ bend then .ok none
  else
    let q := strecbrk l.m s bend newline
    if q ≥ bend then .error ⟨l.line, "truncated file"⟩
    else if s + PAGE ≤ q then .error ⟨l.line, "line too long"⟩
    else
      let m := l.m.store q [0]
      let s := skipSpace m s q
      let q := backSpace m s q
      -- the cursor is derived from the end that was moved back
      .ok (some ⟨m, q + 1, s, q, l.line + 1⟩)

def takeWholeLine : Entry :=
  let path := stringAt l.m l.ls bend
  let bn := basename path
  ⟨bn, bn.length, path, l.le - l.ls⟩

def takeNamePath : Entry × Lst :=
  let p := l.ls + 1
  let e := l.le
  let q := skipNonspace l.m p e
  let m := l.m.store q [0]
  let name := stringAt m p bend
  let p := skipSpace m (q + 1) e
  let path := stringAt m p bend
  (⟨name, name.length, path, path.length⟩, { l with m := m })

def parsePath : Except Syntax Event :=
  let e := l.le
  let p := skipSpace l.m (l.ls + 1) e
  if p ≥ e then .error ⟨l.line, "empty path"⟩
  else if l.m p = slash then .error ⟨l.line, "leading slash"⟩
  else .ok (.pref (l.m.load p (e - p) ++ [slash]))

/-- The body of the loop of `parse_input`. -/
def parseLine : Except Syntax (Event × Lst) :=
  let lead := l.m l.ls
  if lead = 0 then .ok (.blank, l)
  else if lead = 0x23 then .ok (.comment, l)
  else if lead = 0x3E then (parsePath l).map fun ev => (ev, l)
  else if lead = 0x40 then
    let (en, l) := takeNamePath bend l
    .ok (.link en, l)
  else if lead = 0x3D then
    let (en, l) := takeNamePath bend l
    .ok (.copy en, l)
  else .ok (.file (takeWholeLine bend l), l)

/-- The loop of `parse_input`, in at most so many rounds: what was done about the lines, and
the error it ends with. -/
def parseFrom : ℕ → Lst → List Event × Option Syntax
  | 0, _ => ([], none)
  | n + 1, l =>
    match grabLine bend l with
    | .error e => ([], some e)
    | .ok none => ([], none)
    | .ok (some l) =>
      match parseLine bend l with
      | .error e => ([], some e)
      | .ok (ev, l) =>
        let r := parseFrom n l
        (ev :: r.1, r.2)

end

/-- `parse_input`, for a list of `len` bytes at `buf`. A line takes at least a byte. -/
def parseInput (buf len : ℕ) : List Event × Option Syntax :=
  parseFrom (buf + len) (len + 1) ⟨m, buf, buf, buf, 0⟩

/-! ### What the lines say -/

/-- A line without the blanks on either side. -/
def trim (d : List UInt8) : List UInt8 := (d.dropWhile isSpace).rdropWhile isSpace

/-- The two words of a line: up to the first blank, and from the next byte that is none. -/
def fields (t : List UInt8) : Entry :=
  let name := t.takeWhile (! isSpace ·)
  let path := (t.dropWhile (! isSpace ·)).dropWhile isSpace
  ⟨name, name.length, path, path.length⟩

/-- What is to be done about a line, after `n` others. -/
def meant (n : ℕ) (d : List UInt8) : Except Syntax Event :=
  if PAGE ≤ d.length then .error ⟨n, "line too long"⟩
  else
    match trim d with
    | [] => .ok .blank
    | lead :: t =>
      if lead = 0x23 then .ok .comment
      else if lead = 0x3E then
        match t.dropWhile isSpace with
        | [] => .error ⟨n + 1, "empty path"⟩
        | c :: p => if c = slash then .error ⟨n + 1, "leading slash"⟩ else .ok
          (.pref (c :: p ++ [slash]))
      else if lead = 0x40 then .ok (.link (fields t))
      else if lead = 0x3D then .ok (.copy (fields t))
      else .ok (.file ⟨basename (lead :: t), (basename (lead :: t)).length, lead :: t,
        (lead :: t).length⟩)

/-- What is to be done about the lines of a list, one after the other and up to the first
that is refused. -/
def meantAll : ℕ → List (List UInt8) → List Event × Option Syntax
  | _, [] => ([], none)
  | n, d :: ds =>
    match meant n d with
    | .error e => ([], some e)
    | .ok ev =>
      let r := meantAll (n + 1) ds
      (ev :: r.1, r.2)

end Minibase.Cpio
