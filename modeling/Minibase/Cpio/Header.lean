import Minibase.Lib.Records
import Minibase.Cpio.Names

/-!
# The header of an entry

`struct header` of `src/cpio/cpio.h` is 110 bytes of text: a magic and thirteen numbers of
eight hexadecimal digits. `cpio_common.c` starts one out of zero digits and fills three of
the numbers in; `cpio_extract.c` checks the magic and takes the same three numbers out. What
was filled in is taken out again (`Cpio.hdrFields_header`).
-/

namespace Minibase.Cpio

open List Option

/-- `sizeof(struct header)` -/
def HDRSIZE : ℕ := 110

/-- Where `mode`, `filesize` and `namesize` are in a header. -/
def MODE : ℕ := 14

def FILESIZE : ℕ := 54

def NAMESIZE : ℕ := 94

variable (x : ℕ)

def align4 : ℕ := (x + 3) / 4 * 4

/-- How much there is from `x` to the next multiple of four. -/
def padding : ℕ := align4 x - x

lemma padding_lt : padding x < 4 := by
  rw [padding, align4]
  omega

lemma add_padding : x + padding x = align4 x := by
  rw [padding, align4]
  omega

/-! ### Numbers -/

/-- The digits of `fmtbyte`. -/
def digits : List UInt8 := [0x30, 0x31, 0x32, 0x33, 0x34, 0x35, 0x36, 0x37, 0x38, 0x39,
  0x41, 0x42, 0x43, 0x44, 0x45, 0x46]

/-- `fmtbyte`, for the byte `b`. -/
def fmtbyte (b : ℕ) : List UInt8 :=
  [digits.getD ((b >>> 4) % 16) 0, digits.getD (b % 16) 0]

/-- `format_size`, for a number of 32 bits. -/
def formatSize (val : ℕ) : List UInt8 :=
  fmtbyte ((val >>> 24) % 256) ++ fmtbyte ((val >>> 16) % 256) ++ fmtbyte ((val >>> 8) % 256) ++
    fmtbyte (val % 256)

/-- The value of a digit in `parse_size`. -/
def digit (ci : UInt8) : Option ℕ :=
  if 0x30 ≤ ci ∧ ci ≤ 0x39 then some (ci.toNat - 0x30)
  else if 0x61 ≤ ci ∧ ci ≤ 0x66 then some (10 + (ci.toNat - 0x61))
  else if 0x41 ≤ ci ∧ ci ≤ 0x46 then some (10 + (ci.toNat - 0x41))
  else none

/-- The loop of `parse_size`; eight digits fit the `uint`. -/
def sizeFrom : List UInt8 → ℕ → Option ℕ
  | [], r => some r
  | ci :: str, r => (digit ci).bind fun di => sizeFrom str (r * 16 + di)

/-- The eight bytes of the number at `off` in a header. -/
def number (hdr : List UInt8) (off : ℕ) : Option ℕ := sizeFrom ((hdr.drop off).take 8) 0

/-- The two magics, without checksums and with. -/
def magic : List UInt8 := [0x30, 0x37, 0x30, 0x37, 0x30, 0x31]

def magicSum : List UInt8 := [0x30, 0x37, 0x30, 0x37, 0x30, 0x32]

/-- One of the two magics. -/
def HasMagic (hdr : List UInt8) : Prop := hdr.take 6 = magic ∨ hdr.take 6 = magicSum
deriving Decidable

/-- What is taken out of a header in any case: `namesize` and `filesize`; nothing if it is
refused. -/
def sizeFields (hdr : List UInt8) : Option (ℕ × ℕ) :=
  if HasMagic hdr then do
    let filesize ← number hdr FILESIZE
    let namesize ← number hdr NAMESIZE
    return (namesize, filesize)
  else none

/-- The same with `mode`. -/
def hdrFields (hdr : List UInt8) : Option (ℕ × ℕ × ℕ) := do
  let (namesize, filesize) ← sizeFields hdr
  let mode ← number hdr MODE
  return (namesize, filesize, mode)

/-! ### Headers that were written -/

/-- A header before any number is filled in. -/
def emptyHeader : List UInt8 := pwrite (replicate HDRSIZE 0x30) 0 magic

/-- `header_mode`, `header_size` and `header_nlen`, all three of them. -/
def header (mode size nlen : ℕ) : List UInt8 :=
  pwrite (pwrite (pwrite emptyHeader NAMESIZE (formatSize nlen)) MODE (formatSize mode)) FILESIZE
    (formatSize size)

lemma digit_digits {k : ℕ} (h : k < 16) : digit (digits.getD k 0) = some k := by
  have hall : ∀ k < 16, digit (digits.getD k 0) = some k := by decide
  exact hall k h

/-- Two digits more. -/
theorem sizeFrom_fmtbyte {b : ℕ} (hb : b < 256) (str : List UInt8) (r : ℕ) :
    sizeFrom (fmtbyte b ++ str) r = sizeFrom str (r * 256 + b) := by
  have hhi : (b >>> 4) % 16 = b / 16 := by
    rw [Nat.shiftRight_eq_div_pow, Nat.mod_eq_of_lt (by omega)]
  have hsum : (r * 16 + b / 16) * 16 + b % 16 = r * 256 + b := by omega
  rw [fmtbyte, hhi, cons_append, cons_append, nil_append, sizeFrom,
    digit_digits (by omega), bind_some, sizeFrom, digit_digits (by omega), bind_some,
    hsum]

/-- **A number that was formatted** is parsed again. -/
theorem sizeFrom_formatSize {val : ℕ} (h : val < 2 ^ 32) : sizeFrom (formatSize val) 0 =
    some val := by
  have hmod : ∀ x : ℕ, x % 256 < 256 := fun x => Nat.mod_lt x (by omega)
  rw [formatSize, append_assoc, append_assoc, sizeFrom_fmtbyte (hmod _),
    sizeFrom_fmtbyte (hmod _), sizeFrom_fmtbyte (hmod _), ← append_nil (fmtbyte (val % 256)),
    sizeFrom_fmtbyte (hmod _), sizeFrom]
  simp only [Nat.shiftRight_eq_div_pow]
  congr 1
  omega

@[simp] lemma length_formatSize (val : ℕ) : (formatSize val).length = 8 := rfl

lemma length_emptyHeader : emptyHeader.length = HDRSIZE := by decide

/-- The three numbers are inside the header, apart from each other. -/
theorem length_header (mode size nlen : ℕ) : (header mode size nlen).length = HDRSIZE := by
  have h0 := length_emptyHeader
  have h1 : (pwrite emptyHeader NAMESIZE (formatSize nlen)).length = HDRSIZE := by
    rw [length_pwrite_of_le (by rw [h0, length_formatSize]; decide), h0]
  have h2 : (pwrite (pwrite emptyHeader NAMESIZE (formatSize nlen)) MODE (formatSize mode)).length =
      HDRSIZE := by
    rw [length_pwrite_of_le (by rw [h1, length_formatSize]; decide), h1]
  rw [header, length_pwrite_of_le (by rw [h2, length_formatSize]; decide), h2]

section

variable {mode size nlen : ℕ} (hmode : mode < 2 ^ 32) (hsize : size < 2 ^ 32)
  (hnlen : nlen < 2 ^ 32)

include hmode hsize hnlen

/-- **What was filled in is there.** -/
theorem number_header :
    HasMagic (header mode size nlen) ∧ number (header mode size nlen) FILESIZE = some size ∧
      number (header mode size nlen) NAMESIZE = some nlen ∧
      number (header mode size nlen) MODE = some mode := by
  have h0 := length_emptyHeader
  obtain ⟨a, ha⟩ : ∃ a, pwrite emptyHeader NAMESIZE (formatSize nlen) = a := ⟨_, rfl⟩
  obtain ⟨b, hb⟩ : ∃ b, pwrite a MODE (formatSize mode) = b := ⟨_, rfl⟩
  have hin0 : NAMESIZE + (formatSize nlen).length ≤ emptyHeader.length := by
    rw [h0, length_formatSize]
    decide
  have hlena : a.length = HDRSIZE := by rw [← ha, length_pwrite_of_le hin0, h0]
  have hina : MODE + (formatSize mode).length ≤ a.length := by
    rw [hlena, length_formatSize]
    decide
  have hlenb : b.length = HDRSIZE := by rw [← hb, length_pwrite_of_le hina, hlena]
  have hinb : FILESIZE + (formatSize size).length ≤ b.length := by
    rw [hlenb, length_formatSize]
    decide
  have hhdr : header mode size nlen = pwrite b FILESIZE (formatSize size) := by
    rw [header, ha, hb]
  have hmagic : (header mode size nlen).take 6 = magic := by
    have h1 : ((header mode size nlen).drop 0).take 6 = (b.drop 0).take 6 := by
      rw [hhdr, pwrite_before hinb (by decide)]
    have h2 : (b.drop 0).take 6 = (a.drop 0).take 6 := by rw [← hb, pwrite_before hina (by decide)]
    have h3 : (a.drop 0).take 6 = (emptyHeader.drop 0).take 6 := by
      rw [← ha, pwrite_before hin0 (by decide)]
    rw [h2, h3] at h1
    exact h1.trans (by decide)
  have hfile : number (header mode size nlen) FILESIZE = some size := by
    have h1 := pwrite_same hinb
    rw [length_formatSize] at h1
    rw [number, hhdr, h1, sizeFrom_formatSize hsize]
  have hname : number (header mode size nlen) NAMESIZE = some nlen := by
    have h1 := pwrite_same hin0
    rw [length_formatSize, ha] at h1
    have h2 : (b.drop NAMESIZE).take 8 = (a.drop NAMESIZE).take 8 := by
      rw [← hb, pwrite_after hina (by rw [length_formatSize]; decide)]
    rw [number, hhdr, pwrite_after hinb (by rw [length_formatSize]; decide), h2, h1,
      sizeFrom_formatSize hnlen]
  have hmode' : number (header mode size nlen) MODE = some mode := by
    have h1 := pwrite_same hina
    rw [length_formatSize, hb] at h1
    rw [number, hhdr, pwrite_before hinb (by decide), h1, sizeFrom_formatSize hmode]
  exact ⟨.inl hmagic, hfile, hname, hmode'⟩

/-- **What was filled in is taken out.** -/
theorem sizeFields_header : sizeFields (header mode size nlen) = some (nlen, size) := by
  obtain ⟨hmagic, hfile, hname, -⟩ := number_header hmode hsize hnlen
  rw [sizeFields, if_pos hmagic, hfile, hname]
  rfl

lemma hdrFields_header : hdrFields (header mode size nlen) = some (nlen, size, mode) := by
  obtain ⟨-, -, -, hmode'⟩ := number_header hmode hsize hnlen
  rw [hdrFields, sizeFields_header hmode hsize hnlen, hmode']
  rfl

end

end Minibase.Cpio
