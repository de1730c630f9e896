import Minibase.Lib.Peek
import Minibase.Lib.Bytes
import Minibase.Lib.CInt
import Mathlib.Tactic.Ring

/-!
# The ELF file of a module

`src/kmod/common_elf.c`: where `.modinfo` is in a module, for 32-bit and 64-bit files of both byte
orders. Only the end of the table of sections is compared with the length of the file, in numbers
that wrap around. The index of the section with the names, the size of an entry, and the places
and lengths of the sections are not checked at all, and the latter are cut to 32 bits.
`Kmod.find_modinfo_iff` says which files can be trusted.
-/

namespace Minibase.Kmod

open Peek List

/-! ### The file -/

/-- `struct mbuf`: where the content of a file is, and its length. -/
structure MBuf where
  buf : ℕ
  len : ℕ
  buf_pos : 0 < buf
  len_lt : len < 2 ^ 32
  fits : buf + len ≤ 2 ^ 64

/-- The address of some place in the file. Pointers wrap around. -/
def MBuf.ptr (mb : MBuf) (d : ℕ) : ℕ := (mb.buf + d) % 2 ^ 64

/-- The addresses of a number in the file. -/
def MBuf.span (mb : MBuf) (d w : ℕ) : List ℕ := (range w).map fun i => mb.ptr (d + i)

/-- The addresses of the file. -/
def MBuf.Inside (mb : MBuf) (a : ℕ) : Prop := mb.buf ≤ a ∧ a < mb.buf + mb.len
deriving Decidable

/-- `struct kmod`. What `find_modinfo` has not got to is zero. -/
structure Elf where
  elf64 : Bool
  elfxe : Bool
  shoff : ℕ := 0
  shnum : ℕ := 0
  shentsize : ℕ := 0
  shstrndx : ℕ := 0
  stringsOff : ℤ := 0
  stringsLen : ℤ := 0
  modinfoOff : ℕ := 0
  modinfoLen : ℕ := 0

/-! ### Numbers -/

/-- The number that some bytes are, on a machine that is or is not `BIGENDIAN`. -/
def native (bigendian : Bool) (l : List UInt8) : ℕ := if bigendian then beVal l else beVal l.reverse

/-- The bytes of a number the other way round. -/
def swab : ℕ → ℕ → ℕ
  | 0, _ => 0
  | w + 1, n => n % 256 * 256 ^ w + swab w (n / 256)

def swabs : ℕ → ℕ := swab 2

def swabl : ℕ → ℕ := swab 4

def swabx : ℕ → ℕ := swab 8

variable (xe : Bool) (src : ℕ)

def swabU16 : ℕ := if xe then swabs src else src

def swabU32 : ℕ := if xe then swabl src else src

def extLong : ℕ := if xe then swabl src else src

def swabX64 : ℕ := if xe then swabx src else src

/-- An integer that is converted to 64 bits without a sign. -/
def u64 (x : ℤ) : ℕ := (x % 2 ^ 64).toNat

/-! ### Fields -/

/-- `sizeof(struct elfhdr)`. -/
def ELFHDR : ℕ := 16

/-- `sizeof(struct elf64hdr)` and `sizeof(struct elf32hdr)`. -/
def hdrSize (elf64 : Bool) : ℕ := if elf64 then 64 else 52

/-- The places of the fields of these structures. -/
def atShoff (elf64 : Bool) : ℕ := if elf64 then 40 else 32

@[inherit_doc atShoff] def atShentsize (elf64 : Bool) : ℕ := if elf64 then 58 else 46

@[inherit_doc atShoff] def atShnum (elf64 : Bool) : ℕ := if elf64 then 60 else 48

@[inherit_doc atShoff] def atShstrndx (elf64 : Bool) : ℕ := if elf64 then 62 else 50

/-- The places of the fields of `struct elf64shdr` and `struct elf32shdr`. The name is the
first. -/
def atType : ℕ := 4

@[inherit_doc atType] def atOffset (elf64 : Bool) : ℕ := if elf64 then 24 else 16

@[inherit_doc atType] def atSize (elf64 : Bool) : ℕ := if elf64 then 32 else 20

def SHT_STRTAB : ℕ := 3

/-- `"\x7F" "ELF"`. -/
def ELFTAG : List UInt8 := [0x7F, 0x45, 0x4C, 0x46]

/-- `".modinfo"`. -/
def modinfoName : List UInt8 := [0x2E, 0x6D, 0x6F, 0x64, 0x69, 0x6E, 0x66, 0x6F]

section Code

variable (bigendian : Bool) (mb : MBuf) (mod : Elf)

def loadU16 (d : ℕ) : Peek ℕ := do
  return swabU16 mod.elfxe (native bigendian (← gather (mb.span d 2)))

def loadU32 (d : ℕ) : Peek ℕ := do
  return swabU32 mod.elfxe (native bigendian (← gather (mb.span d 4)))

/-- A number of the size of an address. -/
def loadX64 (d : ℕ) : Peek ℕ :=
  if mod.elf64 then do
    return swabX64 mod.elfxe (native bigendian (← gather (mb.span d 8)))
  else do
    return extLong mod.elfxe (native bigendian (← gather (mb.span d 4)))

/-- `mem_off_cmp`, for a size that is not negative. -/
def memOffCmp (msz fsz : ℕ) : ℤ := if msz < fsz then -1 else if fsz < msz then 1 else 0

/-- The class, the order of bytes, and where the sections are. -/
def readElfHeader : Peek (Except String Elf) := do
  if mb.len < ELFHDR then return .error "not an ELF file:"
  else if (← gather (mb.span 0 4)) ≠ ELFTAG then return .error "not an ELF file:"
  else
    let cls ← byte (mb.ptr 4)
    if cls ≠ 1 ∧ cls ≠ 2 then return .error "unknown ELF class:"
    else
      let elf64 : Bool := cls = 2
      if memOffCmp mb.len (hdrSize elf64) < 0 then return .error "file truncated:"
      else if (← byte (mb.ptr 6)) ≠ 1 then return .error "invalid ELF version:"
      else
        let data ← byte (mb.ptr 5)
        if data ≠ 1 ∧ data ≠ 2 then return .error "unknown ELF endianess:"
        else
          let big : Bool := data = 2
          return .ok { elf64 := elf64, elfxe := if bigendian then !big else big }

/-- The loop of `lookup_string`: the first zero from `p` on, or where the names end. -/
def scanName : ℕ → ℕ → Peek ℕ
  | p, 0 => pure p
  | p, n + 1 => do
    if (← byte p) = 0 then return p
    else scanName (p + 1) n

/-- `lookup_string`: the address of a name, or `NULL`. -/
def lookupString (off : ℕ) : Peek ℕ :=
  let stringsOff := u64 mod.stringsOff
  let stringsLen := u64 mod.stringsLen
  if stringsOff = 0 then pure 0
  else if off > stringsLen then pure 0
  else do
    let s := mb.ptr (stringsOff + off)
    let e := mb.ptr (stringsOff + stringsLen)
    let p ← scanName s (e - s)
    return if p ≥ e then 0 else s

/-- `strcmp` with a string that is known. -/
def strcmp : ℕ → List UInt8 → Peek ℤ
  | a, [] => do return ((← byte a).toNat : ℤ)
  | a, b :: bs => do
    let c ← byte a
    if c ≠ 0 ∧ c = b then strcmp (a + 1) bs
    else return (c.toNat : ℤ) - b.toNat

/-- `locate_strings_section`. The product is an `int`. -/
def locateStringsSection : Peek (Except String Elf) :=
  if mod.shstrndx = 0 then pure (.error "no .strings in")
  else do
    let sh := mod.shoff + u64 (i32 (mod.shstrndx * mod.shentsize))
    let type ← loadU32 bigendian mb mod (sh + atType)
    let offset ← loadX64 bigendian mb mod (sh + atOffset mod.elf64)
    let size ← loadX64 bigendian mb mod (sh + atSize mod.elf64)
    return if type ≠ SHT_STRTAB then .error "invalid .strings section in"
      else .ok { mod with stringsOff := i32 offset, stringsLen := i32 size }

/-- The body of the loop of `locate_modinfo_section`, from where it has read the entry of a
section: the place and the length of `.modinfo`, if that is what it is. -/
def checkName (name type offset size : ℕ) : Peek (Option (ℕ × ℕ)) := do
  if type = 0 then return none
  else
    let namestr ← lookupString mb mod name
    if namestr = 0 then return none
    else if (← strcmp namestr modinfoName) ≠ 0 then return none
    else return some (u32 offset, u32 size)

/-- The body of the loop, for the section with some index. -/
def checkSection (i : ℕ) : Peek (Option (ℕ × ℕ)) := do
  let ptr := mod.shoff + i * mod.shentsize % 2 ^ 32
  let name ← loadU32 bigendian mb mod ptr
  let type ← loadU32 bigendian mb mod (ptr + atType)
  let offset ← loadX64 bigendian mb mod (ptr + atOffset mod.elf64)
  let size ← loadX64 bigendian mb mod (ptr + atSize mod.elf64)
  checkName mb mod name type offset size

/-- The loop, with so many sections left. -/
def locateModinfoFrom : ℕ → ℕ → Peek (Except String Elf)
  | _, 0 => pure (.error "no .modinfo in")
  | i, n + 1 => do
    match ← checkSection bigendian mb mod i with
    | some (off, len) => return .ok { mod with modinfoOff := off, modinfoLen := len }
    | none => locateModinfoFrom (i + 1) n

def locateModinfoSection : Peek (Except String Elf) :=
  locateModinfoFrom bigendian mb mod 0 mod.shnum

/-- `init_sections_table`. The product is an `int`, the sum is not. -/
def initSectionsTable : Peek (Except String Elf) := do
  let shoff ← loadX64 bigendian mb mod (atShoff mod.elf64)
  let shnum ← loadU16 bigendian mb mod (atShnum mod.elf64)
  let shentsize ← loadU16 bigendian mb mod (atShentsize mod.elf64)
  let shstrndx ← loadU16 bigendian mb mod (atShstrndx mod.elf64)
  return if shoff = 0 then .error "no sections in"
    else if (shoff + u64 (i32 (shnum * shentsize))) % 2 ^ 64 > mb.len then
      .error "corrupt sections header in"
    else .ok { mod with shoff := shoff, shnum := shnum, shentsize := shentsize,
                        shstrndx := shstrndx }

def findModinfo : Peek (Except String Elf) :=
  (readElfHeader bigendian mb).andThen fun mod =>
  (initSectionsTable bigendian mb mod).andThen fun mod =>
  (locateStringsSection bigendian mb mod).andThen fun mod =>
  locateModinfoSection bigendian mb mod

end Code

/-! ### What stands in the file -/

/-- A file as what it says it is. -/
structure File where
  mem : Mem
  mb : MBuf
  elf64 : Bool
  big : Bool

namespace File

variable (f : File)

/-- A number in the order of the file. -/
def number (d w : ℕ) : ℕ := native f.big ((f.mb.span d w).map f.mem)

/-- The size of a number that is an address or a length. -/
def word : ℕ := if f.elf64 then 8 else 4

def shoff : ℕ := f.number (atShoff f.elf64) f.word

def shnum : ℕ := f.number (atShnum f.elf64) 2

def shentsize : ℕ := f.number (atShentsize f.elf64) 2

def shstrndx : ℕ := f.number (atShstrndx f.elf64) 2

/-- It has got a header that is one of an ELF file. -/
structure IsElf : Prop where
  size : hdrSize f.elf64 ≤ f.mb.len
  tag : (f.mb.span 0 4).map f.mem = ELFTAG
  cls : f.mem (f.mb.ptr 4) = if f.elf64 then 2 else 1
  data : f.mem (f.mb.ptr 5) = if f.big then 2 else 1
  version : f.mem (f.mb.ptr 6) = 1

/-- It seems to have a table of sections within the file, and a section with their names. -/
structure HasTable : Prop where
  shoff : f.shoff ≠ 0
  fin : (f.shoff + u64 (i32 (f.shnum * f.shentsize))) % 2 ^ 64 ≤ f.mb.len
  shstrndx : f.shstrndx ≠ 0

variable (i : ℕ)

/-- Where the entry for some section is. -/
def place : ℕ := f.shoff + i * f.shentsize % 2 ^ 32

/-- Where that for the names is. -/
def strtab : ℕ := f.shoff + u64 (i32 (f.shstrndx * f.shentsize))

def name (d : ℕ) : ℕ := f.number d 4

def type (d : ℕ) : ℕ := f.number (d + atType) 4

def offset (d : ℕ) : ℕ := f.number (d + atOffset f.elf64) f.word

def size (d : ℕ) : ℕ := f.number (d + atSize f.elf64) f.word

/-- As much of an entry as is looked at. -/
def entrySize : ℕ := atSize f.elf64 + f.word

/-- The place and the length of the names, cut to an `int`. -/
def stringsOff : ℕ := u64 (i32 (f.offset f.strtab))

@[inherit_doc stringsOff] def stringsLen : ℕ := u64 (i32 (f.size f.strtab))

/-- The address of the name of a section, and where the names end. -/
def nameAt (d : ℕ) : ℕ := f.mb.ptr (f.stringsOff + f.name d)

@[inherit_doc nameAt] def namesEnd : ℕ := f.mb.ptr (f.stringsOff + f.stringsLen)

/-- There are names, and this one is not past their end. -/
def Sought (d : ℕ) : Prop := f.stringsOff ≠ 0 ∧ f.name d ≤ f.stringsLen

/-- The section is in use and has a name. -/
def Named (d : ℕ) : Prop := f.type d ≠ 0 ∧ f.Sought d

/-- The name, if there is any of it, begins in the file, and there it ends, or the names do. -/
def NameFits (d : ℕ) : Prop := f.nameAt d < f.namesEnd → f.mb.Inside (f.nameAt d) ∧
  (f.namesEnd ≤ f.mb.buf + f.mb.len ∨ ∃ p, f.nameAt d ≤ p ∧ p < f.mb.buf + f.mb.len ∧ f.mem p = 0)

/-- The section is `.modinfo`. -/
def IsModinfo : Prop := f.Named (f.place i) ∧
  f.nameAt (f.place i) + modinfoName.length < f.namesEnd ∧
  f.mem.Holds (f.nameAt (f.place i)) (modinfoName ++ [0])

/-- The sections up to the first that is `.modinfo`. -/
def Visited : Prop := i < f.shnum ∧ ∀ j < i, ¬f.IsModinfo j

/-- The entry of a section and its name are in the file. -/
def Fits : Prop :=
  f.place i % 2 ^ 64 + f.entrySize ≤ f.mb.len ∧ (f.Named (f.place i) → f.NameFits (f.place i))

/-- All that is looked at is in the file: as much of the entry for the names as is used, and if
it is one, the sections up to the first `.modinfo`. -/
structure EntriesFit : Prop where
  strtab : (f.strtab + atType) % 2 ^ 64 + (f.entrySize - atType) ≤ f.mb.len
  visited : f.type f.strtab = SHT_STRTAB → ∀ i, f.Visited i → f.Fits i

/-- **A file that can be trusted**: so is `.modinfo` itself, where 32 bits say it is. -/
structure Intact : Prop extends EntriesFit f where
  modinfo : f.type f.strtab = SHT_STRTAB → ∀ i, f.Visited i → f.IsModinfo i →
    u32 (f.offset (f.place i)) + u32 (f.size (f.place i)) ≤ f.mb.len

end File

/-- **Parsing is safe**: `find_modinfo` reads nothing but the file, and what it finds is in
it. -/
structure FindSafe (bigendian : Bool) (mb : MBuf) (m : Mem) : Prop where
  reads : (findModinfo bigendian mb).Stays mb.Inside m
  found : ∀ mod, (findModinfo bigendian mb).val m = .ok mod →
    mod.modinfoOff + mod.modinfoLen ≤ mb.len

/-! ### Numbers of both orders -/

lemma beVal_concat (l : List UInt8) (b : UInt8) : beVal (l ++ [b]) = 256 * beVal l + b.toNat := by
  induction l with
  | nil => simp [beVal]
  | cons c l ih =>
    rw [cons_append, beVal, beVal, ih, length_append, length_singleton, pow_succ]
    ring

/-- **The bytes of a number the other way round.** -/
theorem swab_beVal (l : List UInt8) : swab l.length (beVal l) = beVal l.reverse := by
  induction l using reverseRecOn with
  | nil => rfl
  | append_singleton l b ih =>
    have hb := b.toNat_lt
    have hmod : (256 * beVal l + b.toNat) % 256 = b.toNat := by omega
    have hdiv : (256 * beVal l + b.toNat) / 256 = beVal l := by omega
    rw [beVal_concat, length_append, length_singleton, swab, hmod, hdiv, ih,
      reverse_append, reverse_singleton, singleton_append, beVal,
      length_reverse]

/-- Whatever machine reads it, the number is the one in the file. -/
theorem swab_native (bigendian big : Bool) (l : List UInt8) {w : ℕ} (hw : l.length = w) :
    (if (if bigendian then !big else big) then swab w (native bigendian l)
      else native bigendian l) = native big l := by
  subst hw
  have hrev := swab_beVal l.reverse
  rw [length_reverse, reverse_reverse] at hrev
  cases bigendian <;> cases big
  · rfl
  · exact hrev
  · exact swab_beVal l
  · rfl

/-- `mod` knows what the file says it is. -/
structure Elf.Knows (mod : Elf) (bigendian : Bool) (f : File) : Prop where
  elf64 : mod.elf64 = f.elf64
  elfxe : mod.elfxe = if bigendian then !f.big else f.big

section Load

variable {bigendian : Bool} {mod : Elf} {f : File} (hk : mod.Knows bigendian f) (d : ℕ)

lemma MBuf.length_span (mb : MBuf) (d w : ℕ) : (mb.span d w).length = w := by
  rw [MBuf.span, length_map, length_range]

include hk

lemma loadU16_val : (loadU16 bigendian f.mb mod d).val f.mem = f.number d 2 := by
  rw [loadU16, val_bind, val_gather, val_pure, swabU16, swabs, hk.elfxe]
  exact swab_native bigendian f.big _ (by rw [length_map, MBuf.length_span])

lemma loadU32_val : (loadU32 bigendian f.mb mod d).val f.mem = f.number d 4 := by
  rw [loadU32, val_bind, val_gather, val_pure, swabU32, swabl, hk.elfxe]
  exact swab_native bigendian f.big _ (by rw [length_map, MBuf.length_span])

lemma loadX64_val : (loadX64 bigendian f.mb mod d).val f.mem = f.number d f.word := by
  rw [loadX64, hk.elf64, File.word]
  split
  · rw [val_bind, val_gather, val_pure, swabX64, swabx, hk.elfxe]
    exact swab_native bigendian f.big _ (by rw [length_map, MBuf.length_span])
  · rw [val_bind, val_gather, val_pure, extLong, swabl, hk.elfxe]
    exact swab_native bigendian f.big _ (by rw [length_map, MBuf.length_span])

end Load

end Minibase.Kmod
