import Minibase.Lib.Records
import Minibase.Crypto.Mem

/-!
# The file of saved keys

`wifi_pskmgm.c` keeps the pre-shared keys of known networks in one file of 66-byte
entries: the SSID padded with zeros to 32 bytes, the key, the length of the SSID and a
newline. Every command reads the whole file into memory, looks the SSID up there, and
writes back one of three ways: `append_entry` seeks to the end and writes one entry,
`save_config` truncates the file and writes the whole buffer, and a buffer that came out
empty has the file unlinked.

A file is `none` where there is none. The descriptor is the offset it stands at: after the initial
read it is the size of the file, and `Psk.saveConfig` writes there. `fail` ends the process, before
the first write of a command.
-/

namespace Minibase.Psk

def maxPskEntries : ℕ := 64

/-- `sizeof(struct saved)`: two arrays of 32 bytes, the length and the newline. -/
def sizeofSaved : ℕ := 66

/-- `cfgname`, below the configured `BASE_VAR`. -/
def cfgname : String := "/base/var/wifi-psk"

/-- An SSID as `shift_ssid_arg` takes it from the command line: a C string of at most 32
bytes. -/
structure Ssid where
  /-- The bytes before the terminating zero. -/
  name : List UInt8
  small : name.length ≤ 32
  noNul : 0 ∉ name

instance : DecidableEq Ssid := fun a b => decidable_of_iff (a.name = b.name)
  ⟨fun h => by cases a; cases b; cases h; rfl, congrArg Ssid.name⟩

/-- `ctx->ssid`: the SSID copied over 32 zeros. -/
def Ssid.ssid (s : Ssid) : Bytes 32 := Bytes.ofList 32 s.name

/-- `ctx->slen`. -/
def Ssid.slen (s : Ssid) : ℕ := s.name.length

/-- The part of `struct top` the database is concerned with. -/
structure Top where
  /-- `ssid` and `slen`. -/
  ap : Ssid
  psk : Bytes 32
  /-- The key was just asked for. -/
  unsaved : Bool

/-- The error numbers a damaged file is reported with. -/
inductive Errno
  | E2BIG
  | EINVAL
deriving DecidableEq

/-- The arguments of `fail`: a message, the object it is about, and an error number. -/
structure Fault where
  msg : Option String
  obj : Option String
  err : Option Errno
deriving DecidableEq

/-- The file at `cfgname`, if there is one. -/
abbrev File := Option (List UInt8)

/-- `struct config`: the descriptor as the offset it stands at, `none` for `-1`; the
buffer, `none` for a null pointer. -/
structure Config where
  fd : Option ℕ
  buf : Option (List UInt8)
  len : ℕ
deriving DecidableEq

/-! ### Reading -/

/-- `open_read_config`: the size is checked, then everything is read, which leaves the
descriptor at the end of the file. -/
def openReadConfig : File → Except Fault Config
  | none => .ok ⟨none, none, 0⟩
  | some d =>
    if maxPskEntries * sizeofSaved < d.length then .error ⟨none, some cfgname, some .E2BIG⟩
    else if d.length % sizeofSaved ≠ 0 then .error ⟨none, some cfgname, some .EINVAL⟩
    else .ok ⟨some d.length, some d, d.length⟩

variable (cfg : Config)

/-- `first`. A pointer into the buffer is its distance from the start. -/
def first : Option ℕ :=
  match cfg.buf with
  | none => none
  | some _ => if cfg.len < sizeofSaved then none else some 0

variable (sv : ℕ)

/-- `next`: there is one if two entries fit from here. -/
def next : Option ℕ :=
  if cfg.len < sv + sizeofSaved + sizeofSaved then none else some (sv + sizeofSaved)

/-- The `ssid` field of the entry at `sv`. -/
def ssidAt : List UInt8 := ((cfg.buf.getD []).drop sv).take 32

/-- The `psk` field of the entry at `sv`. -/
def pskAt : Bytes 32 := Bytes.ofList 32 ((cfg.buf.getD []).drop (sv + 32))

/-- The loop of `find_entry`, the fuel bounding its rounds. -/
def findFrom (c : Top) (cfg : Config) : ℕ → Option ℕ → Option ℕ
  | 0, _ => none
  | _ + 1, none => none
  | k + 1, some sv =>
    if memcmp c.ap.ssid.data (ssidAt cfg sv) = 0 then some sv else findFrom c cfg k (next cfg sv)

/-- `find_entry`. An entry has more than one byte, so there are fewer rounds than bytes. -/
def findEntry (c : Top) (cfg : Config) : Option ℕ :=
  if c.ap.slen = 0 then none else findFrom c cfg cfg.len (first cfg)

/-- `load_saved_psk`: the key that is copied to `ctx->psk`, if there is one. -/
def loadSavedPsk (c : Top) (f : File) : Except Fault (Option (Bytes 32)) := do
  let cfg ← openReadConfig f
  return (findEntry c cfg).map (pskAt cfg)

/-! ### Writing -/

variable (f : File)

/-- `save_config`. The file is truncated but the descriptor is not moved: the write goes to
where the read ended. -/
def saveConfig (cfg : Config) : File :=
  match cfg.fd with
  | none => f
  | some off => if cfg.len = 0 then none else some (pwrite [] off ((cfg.buf.getD []).take cfg.len))

/-- `remove_entry`: what follows the entry is moved over it. -/
def removeEntry : Config :=
  match cfg.buf with
  | none => cfg
  | some b =>
    if cfg.len < sv + sizeofSaved then cfg
    else
      let left := cfg.len - (sv + sizeofSaved)
      { cfg with
        buf := some (pwrite b sv ((b.drop (sv + sizeofSaved)).take left))
        len := cfg.len - sizeofSaved }

/-- `append_entry`: at the end of the open file, or as the first entry of a new one. -/
def appendEntry (cfg : Config) (sv : List UInt8) : File :=
  match cfg.fd with
  | some _ => f.map fun d => pwrite d cfg.len sv
  | none => some sv

/-- `struct saved`, as it lies in memory. -/
def saved (ap : Ssid) (psk : Bytes 32) : List UInt8 :=
  ap.ssid.data ++ psk.data ++ [UInt8.ofNat ap.slen, 10]

/-- The `memcpy` into the `psk` field of the entry at `sv`. -/
def setPsk (psk : Bytes 32) : Config :=
  { cfg with buf := cfg.buf.map fun b => pwrite b (sv + 32) psk.data }

def maybeStorePsk (c : Top) (f : File) : Except Fault File := do
  if ¬c.unsaved then
    return f
  let cfg ← openReadConfig f
  match findEntry c cfg with
  | some old => return saveConfig f (setPsk cfg old c.psk)
  | none => return appendEntry f cfg (saved c.ap c.psk)

def removePskEntry (c : Top) (f : File) : Except Fault File := do
  let cfg ← openReadConfig f
  match findEntry c cfg with
  | none => throw ⟨some "no saved PSK for this SSID", none, none⟩
  | some sv => return saveConfig f (removeEntry cfg sv)

/-! ### Runs -/

/-- The commands that change the file. Each is a process of its own, with its own context. -/
inductive Op
  | store (c : Top)
  | remove (c : Top)

/-- The file after a command; a failed one left it as it was. -/
def step : Op → File
  | .store c => (maybeStorePsk c f).toOption.getD f
  | .remove c => (removePskEntry c f).toOption.getD f

/-- The file after a sequence of commands. -/
def run (ops : List Op) : File := ops.foldl step f

end Minibase.Psk
