import Minibase.Crypto.Sha

/-!
# AES-128 and the wrapping of keys that uses it

`lib/crypto/aes128.c`, `aes128_wrap.c` and `aes128_unwrap.c`. The cipher works on four
big-endian words, the columns of the standard's square (`Aes.Block`). `aes128Wrap` encrypts
the first of `n + 1` blocks of eight bytes together with each of the others, six times over,
with the number of the step xor-ed into it; `aes128Unwrap` decrypts in the opposite order.
-/

namespace Minibase

namespace Aes

/-! ### Tables -/

/-- The substitution table, in sixteen rows as the source prints it. -/
def sbox : List (List UInt8) := [
  [0x63, 0x7c, 0x77, 0x7b, 0xf2, 0x6b, 0x6f, 0xc5, 0x30, 0x01, 0x67, 0x2b, 0xfe, 0xd7, 0xab, 0x76],
  [0xca, 0x82, 0xc9, 0x7d, 0xfa, 0x59, 0x47, 0xf0, 0xad, 0xd4, 0xa2, 0xaf, 0x9c, 0xa4, 0x72, 0xc0],
  [0xb7, 0xfd, 0x93, 0x26, 0x36, 0x3f, 0xf7, 0xcc, 0x34, 0xa5, 0xe5, 0xf1, 0x71, 0xd8, 0x31, 0x15],
  [0x04, 0xc7, 0x23, 0xc3, 0x18, 0x96, 0x05, 0x9a, 0x07, 0x12, 0x80, 0xe2, 0xeb, 0x27, 0xb2, 0x75],
  [0x09, 0x83, 0x2c, 0x1a, 0x1b, 0x6e, 0x5a, 0xa0, 0x52, 0x3b, 0xd6, 0xb3, 0x29, 0xe3, 0x2f, 0x84],
  [0x53, 0xd1, 0x00, 0xed, 0x20, 0xfc, 0xb1, 0x5b, 0x6a, 0xcb, 0xbe, 0x39, 0x4a, 0x4c, 0x58, 0xcf],
  [0xd0, 0xef, 0xaa, 0xfb, 0x43, 0x4d, 0x33, 0x85, 0x45, 0xf9, 0x02, 0x7f, 0x50, 0x3c, 0x9f, 0xa8],
  [0x51, 0xa3, 0x40, 0x8f, 0x92, 0x9d, 0x38, 0xf5, 0xbc, 0xb6, 0xda, 0x21, 0x10, 0xff, 0xf3, 0xd2],
  [0xcd, 0x0c, 0x13, 0xec, 0x5f, 0x97, 0x44, 0x17, 0xc4, 0xa7, 0x7e, 0x3d, 0x64, 0x5d, 0x19, 0x73],
  [0x60, 0x81, 0x4f, 0xdc, 0x22, 0x2a, 0x90, 0x88, 0x46, 0xee, 0xb8, 0x14, 0xde, 0x5e, 0x0b, 0xdb],
  [0xe0, 0x32, 0x3a, 0x0a, 0x49, 0x06, 0x24, 0x5c, 0xc2, 0xd3, 0xac, 0x62, 0x91, 0x95, 0xe4, 0x79],
  [0xe7, 0xc8, 0x37, 0x6d, 0x8d, 0xd5, 0x4e, 0xa9, 0x6c, 0x56, 0xf4, 0xea, 0x65, 0x7a, 0xae, 0x08],
  [0xba, 0x78, 0x25, 0x2e, 0x1c, 0xa6, 0xb4, 0xc6, 0xe8, 0xdd, 0x74, 0x1f, 0x4b, 0xbd, 0x8b, 0x8a],
  [0x70, 0x3e, 0xb5, 0x66, 0x48, 0x03, 0xf6, 0x0e, 0x61, 0x35, 0x57, 0xb9, 0x86, 0xc1, 0x1d, 0x9e],
  [0xe1, 0xf8, 0x98, 0x11, 0x69, 0xd9, 0x8e, 0x94, 0x9b, 0x1e, 0x87, 0xe9, 0xce, 0x55, 0x28, 0xdf],
  [0x8c, 0xa1, 0x89, 0x0d, 0xbf, 0xe6, 0x42, 0x68, 0x41, 0x99, 0x2d, 0x0f, 0xb0, 0x54, 0xbb, 0x16]]

/-- The inverse table. -/
def rbox : List (List UInt8) := [
  [0x52, 0x09, 0x6a, 0xd5, 0x30, 0x36, 0xa5, 0x38, 0xbf, 0x40, 0xa3, 0x9e, 0x81, 0xf3, 0xd7, 0xfb],
  [0x7c, 0xe3, 0x39, 0x82, 0x9b, 0x2f, 0xff, 0x87, 0x34, 0x8e, 0x43, 0x44, 0xc4, 0xde, 0xe9, 0xcb],
  [0x54, 0x7b, 0x94, 0x32, 0xa6, 0xc2, 0x23, 0x3d, 0xee, 0x4c, 0x95, 0x0b, 0x42, 0xfa, 0xc3, 0x4e],
  [0x08, 0x2e, 0xa1, 0x66, 0x28, 0xd9, 0x24, 0xb2, 0x76, 0x5b, 0xa2, 0x49, 0x6d, 0x8b, 0xd1, 0x25],
  [0x72, 0xf8, 0xf6, 0x64, 0x86, 0x68, 0x98, 0x16, 0xd4, 0xa4, 0x5c, 0xcc, 0x5d, 0x65, 0xb6, 0x92],
  [0x6c, 0x70, 0x48, 0x50, 0xfd, 0xed, 0xb9, 0xda, 0x5e, 0x15, 0x46, 0x57, 0xa7, 0x8d, 0x9d, 0x84],
  [0x90, 0xd8, 0xab, 0x00, 0x8c, 0xbc, 0xd3, 0x0a, 0xf7, 0xe4, 0x58, 0x05, 0xb8, 0xb3, 0x45, 0x06],
  [0xd0, 0x2c, 0x1e, 0x8f, 0xca, 0x3f, 0x0f, 0x02, 0xc1, 0xaf, 0xbd, 0x03, 0x01, 0x13, 0x8a, 0x6b],
  [0x3a, 0x91, 0x11, 0x41, 0x4f, 0x67, 0xdc, 0xea, 0x97, 0xf2, 0xcf, 0xce, 0xf0, 0xb4, 0xe6, 0x73],
  [0x96, 0xac, 0x74, 0x22, 0xe7, 0xad, 0x35, 0x85, 0xe2, 0xf9, 0x37, 0xe8, 0x1c, 0x75, 0xdf, 0x6e],
  [0x47, 0xf1, 0x1a, 0x71, 0x1d, 0x29, 0xc5, 0x89, 0x6f, 0xb7, 0x62, 0x0e, 0xaa, 0x18, 0xbe, 0x1b],
  [0xfc, 0x56, 0x3e, 0x4b, 0xc6, 0xd2, 0x79, 0x20, 0x9a, 0xdb, 0xc0, 0xfe, 0x78, 0xcd, 0x5a, 0xf4],
  [0x1f, 0xdd, 0xa8, 0x33, 0x88, 0x07, 0xc7, 0x31, 0xb1, 0x12, 0x10, 0x59, 0x27, 0x80, 0xec, 0x5f],
  [0x60, 0x51, 0x7f, 0xa9, 0x19, 0xb5, 0x4a, 0x0d, 0x2d, 0xe5, 0x7a, 0x9f, 0x93, 0xc9, 0x9c, 0xef],
  [0xa0, 0xe0, 0x3b, 0x4d, 0xae, 0x2a, 0xf5, 0xb0, 0xc8, 0xeb, 0xbb, 0x3c, 0x83, 0x53, 0x99, 0x61],
  [0x17, 0x2b, 0x04, 0x7e, 0xba, 0x77, 0xd6, 0x26, 0xe1, 0x69, 0x14, 0x63, 0x55, 0x21, 0x0c, 0x7d]]

def rcon : List UInt8 := [0x8d, 0x01, 0x02, 0x04, 0x08, 0x10, 0x20, 0x40, 0x80, 0x1b, 0x36]

/-- `box[x]`. -/
def look (box : List (List UInt8)) (x : UInt8) : UInt8 :=
  (box.getD (x.toNat / 16) []).getD (x.toNat % 16) 0

/-! ### Words -/

variable (w : UInt32)

/-- `B0(w)` to `B3(w)`: the bytes of a word, most significant first. -/
def b0 : UInt8 := (w >>> 24).toUInt8

@[inherit_doc b0]
def b1 : UInt8 := (w >>> 16).toUInt8

@[inherit_doc b0]
def b2 : UInt8 := (w >>> 8).toUInt8

@[inherit_doc b0]
def b3 : UInt8 := w.toUInt8

/-- `W(a,b,c,d)`: the word of four bytes. -/
def word (a b c d : UInt8) : UInt32 :=
  a.toUInt32 <<< 24 ||| b.toUInt32 <<< 16 ||| c.toUInt32 <<< 8 ||| d.toUInt32

def rotword (x : UInt32) : UInt32 := (x <<< 8) ||| ((x >>> 24) &&& 0xFF)

def subword (x : UInt32) (box : List (List UInt8)) : UInt32 :=
  word (look box (b0 x)) (look box (b1 x)) (look box (b2 x)) (look box (b3 x))

/-! ### Multiplication in the field of 256 elements -/

/-- `xtime`, in the `int` the source computes it in. -/
def xtime (x : ℕ) : ℕ := ((x <<< 1) ^^^ (((x >>> 7) &&& 1) * 0x1b)) &&& 0xFF

/-- The loop of `xmul`, with `n` turns left. -/
def xmulLoop : ℕ → ℕ → ℕ → ℕ → ℕ
  | 0, _, _, m => m
  | n + 1, x, y, m => xmulLoop n (xtime x) (y >>> 1) (if y &&& 1 = 1 then m ^^^ x else m)

/-- `xmul`: five turns, enough for the factors that occur. -/
def xmul (x y : UInt8) : UInt8 := UInt8.ofNat (xmulLoop 5 x.toNat y.toNat 0)

def colmul (s : UInt32) (a b c d : UInt8) : UInt8 :=
  xmul (b0 s) a ^^^ xmul (b1 s) b ^^^ xmul (b2 s) c ^^^ xmul (b3 s) d

/-! ### The state -/

/-- `S[4]`: four columns. -/
structure Block where
  S0 : UInt32
  S1 : UInt32
  S2 : UInt32
  S3 : UInt32
deriving DecidableEq

namespace Block

/-- The same thing done to every column. -/
def map (f : UInt32 → UInt32) (s : Block) : Block := ⟨f s.S0, f s.S1, f s.S2, f s.S3⟩

end Block

variable (s : Block)

def addRoundKey (W : List UInt32) (r : ℕ) : Block :=
  ⟨s.S0 ^^^ W.getD (r * 4) 0, s.S1 ^^^ W.getD (r * 4 + 1) 0, s.S2 ^^^ W.getD (r * 4 + 2) 0,
    s.S3 ^^^ W.getD (r * 4 + 3) 0⟩

/-- `rowshift`, given the four columns that are indexed. -/
def rowshift (a b c d : UInt32) : UInt32 := word (b0 a) (b1 b) (b2 c) (b3 d)

def invShiftRows : Block :=
  ⟨rowshift s.S0 s.S3 s.S2 s.S1, rowshift s.S1 s.S0 s.S3 s.S2, rowshift s.S2 s.S1 s.S0 s.S3,
    rowshift s.S3 s.S2 s.S1 s.S0⟩

def fwdShiftRows : Block :=
  ⟨rowshift s.S0 s.S1 s.S2 s.S3, rowshift s.S1 s.S2 s.S3 s.S0, rowshift s.S2 s.S3 s.S0 s.S1,
    rowshift s.S3 s.S0 s.S1 s.S2⟩

def invSubBytes : Block := s.map (subword · rbox)

def fwdSubBytes : Block := s.map (subword · sbox)

def invMixColumns : Block :=
  s.map fun Si => word (colmul Si 0x0E 0x0B 0x0D 0x09) (colmul Si 0x09 0x0E 0x0B 0x0D)
    (colmul Si 0x0D 0x09 0x0E 0x0B) (colmul Si 0x0B 0x0D 0x09 0x0E)

def fwdMixColumns : Block :=
  s.map fun Si => word (colmul Si 0x02 0x03 0x01 0x01) (colmul Si 0x01 0x02 0x03 0x01)
    (colmul Si 0x01 0x01 0x02 0x03) (colmul Si 0x03 0x01 0x01 0x02)

def loadBlock (l : List UInt8) : Block :=
  ⟨be32 l, be32 (l.drop 4), be32 (l.drop 8), be32 (l.drop 12)⟩

def saveBlock : List UInt8 :=
  beBytes32 s.S0 ++ beBytes32 s.S1 ++ beBytes32 s.S2 ++ beBytes32 s.S3

/-! ### Keys, decryption and encryption -/

/-- The loop of `aes128_init`, at the round key `i` with `n` to go; newest first, so that
`W[i - 1]` is at the head. -/
def expand : ℕ → ℕ → List UInt32 → List UInt32
  | 0, _, W => W
  | n + 1, i, W =>
    let temp := W.getD 0 0
    let temp := if i % 4 = 0 then
        subword (rotword temp) sbox ^^^ ((rcon.getD (i / 4) 0).toUInt32 <<< 24)
      else temp
    expand n (i + 1) ((W.getD 3 0 ^^^ temp) :: W)

/-- `aes128_init`: the round keys. -/
def init (key : List UInt8) : List UInt32 :=
  let k := loadBlock key
  (expand 40 4 [k.S3, k.S2, k.S1, k.S0]).reverse

/-- The rounds of `aes128_decrypt`, from round `r` down to the first. -/
def decryptRounds (W : List UInt32) : ℕ → Block → Block
  | 0, s => s
  | r + 1, s =>
    decryptRounds W r (invMixColumns (addRoundKey (invSubBytes (invShiftRows s)) W (r + 1)))

/-- `aes128_decrypt`. -/
def decrypt (W : List UInt32) (blk : List UInt8) : List UInt8 :=
  let s := decryptRounds W 9 (addRoundKey (loadBlock blk) W 10)
  saveBlock (addRoundKey (invSubBytes (invShiftRows s)) W 0)

/-- The rounds of `aes128_encrypt`, from the first to round `r`. -/
def encryptRounds (W : List UInt32) : ℕ → Block → Block
  | 0, s => s
  | r + 1, s =>
    addRoundKey (fwdMixColumns (fwdShiftRows (fwdSubBytes (encryptRounds W r s)))) W (r + 1)

/-- `aes128_encrypt`. -/
def encrypt (W : List UInt32) (blk : List UInt8) : List UInt8 :=
  let s := encryptRounds W 9 (addRoundKey (loadBlock blk) W 0)
  saveBlock (addRoundKey (fwdShiftRows (fwdSubBytes s)) W 10)

end Aes

/-! ### Wrapping and unwrapping keys -/

/-- `wrapmask`: the number of a step, in the second half of a block of eight bytes. -/
def wrapmask (n : ℕ) : List UInt8 := [0, 0, 0, 0] ++ beBytes32 (UInt32.ofNat n)

/-- The `n` blocks of eight bytes at the front of a buffer. -/
def blocks8 : ℕ → List UInt8 → List (List UInt8)
  | 0, _ => []
  | n + 1, l => l.take 8 :: blocks8 n (l.drop 8)

/-- One step of the loop of `aes128_unwrap`, on the block `i`. -/
def unwrapStep (W : List UInt32) (n j i : ℕ) (R : List (List UInt8)) : List (List UInt8) :=
  let R0 := List.zipWith (· ^^^ ·) (R.getD 0 []) (wrapmask (n * j + i))
  let B := Aes.decrypt W (R0 ++ R.getD i [])
  (R.set 0 (B.take 8)).set i (B.drop 8)

/-- The inner loop: `i` down to `1`. -/
def unwrapInner (W : List UInt32) (n j : ℕ) : ℕ → List (List UInt8) → List (List UInt8)
  | 0, R => R
  | i + 1, R => unwrapInner W n j i (unwrapStep W n j (i + 1) R)

/-- The outer loop: `j - 1` down to `0`. -/
def unwrapOuter (W : List UInt32) (n : ℕ) : ℕ → List (List UInt8) → List (List UInt8)
  | 0, R => R
  | j + 1, R => unwrapOuter W n j (unwrapInner W n j n R)

/-- `aes128_unwrap`, in place. -/
def aes128Unwrap (key buf : List UInt8) : List UInt8 :=
  let n := buf.length / 8 - 1
  (unwrapOuter (Aes.init key) n 6 (blocks8 (n + 1) buf)).flatten ++ buf.drop (8 * (n + 1))

/-- One step of the loop of `aes128_wrap`, on the block `i`. -/
def wrapStep (W : List UInt32) (n j i : ℕ) (R : List (List UInt8)) : List (List UInt8) :=
  let B := Aes.encrypt W (R.getD 0 [] ++ R.getD i [])
  let R0 := List.zipWith (· ^^^ ·) (B.take 8) (wrapmask (n * j + i))
  (R.set 0 R0).set i (B.drop 8)

/-- The inner loop: `1` up to `i`. -/
def wrapInner (W : List UInt32) (n j : ℕ) : ℕ → List (List UInt8) → List (List UInt8)
  | 0, R => R
  | i + 1, R => wrapStep W n j (i + 1) (wrapInner W n j i R)

/-- The outer loop: `0` up to `j - 1`. -/
def wrapOuter (W : List UInt32) (n : ℕ) : ℕ → List (List UInt8) → List (List UInt8)
  | 0, R => R
  | j + 1, R => wrapInner W n j n (wrapOuter W n j R)

/-- `aes128_wrap`, in place. -/
def aes128Wrap (key buf : List UInt8) : List UInt8 :=
  let n := buf.length / 8 - 1
  (wrapOuter (Aes.init key) n 6 (blocks8 (n + 1) buf)).flatten ++ buf.drop (8 * (n + 1))

end Minibase
