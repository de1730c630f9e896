import Minibase.Lib.Bytes

/-!
# SHA-1, SHA-256 and HMAC

`lib/crypto/sha1.c` and `sha1_hmac.c`. A hash in progress (`Sha1`) is the five words of the
digest so far and the eighty words of the block last loaded. `hmacSha1` drives the same
functions by hand: one block of key, then the message, whose total length counts that block.

Of SHA-256 (`lib/crypto/sha256.c`, `sha256_hash.c` and `sha256_hmac.c`) only the block function
is new. What is written twice there is written once here, for any function that takes a block
in (`Sha.last`, `Sha.hashRest`, `Sha.hmac`).
-/

namespace Minibase

/-! ### Words and bytes -/

/-- A 32-bit word out of four bytes, most significant first (`ntohl`). -/
def be32 (l : List UInt8) : UInt32 :=
  (l.getD 0 0).toUInt32 <<< 24 ||| (l.getD 1 0).toUInt32 <<< 16 |||
    (l.getD 2 0).toUInt32 <<< 8 ||| (l.getD 3 0).toUInt32

/-- The four bytes of a word, most significant first (`htonl`). -/
def beBytes32 (x : UInt32) : List UInt8 :=
  [(x >>> 24).toUInt8, (x >>> 16).toUInt8, (x >>> 8).toUInt8, x.toUInt8]

/-! ### The compression function -/

/-- `struct sha1`. -/
structure Sha1 where
  /-- `H`: the digest so far. -/
  H0 : UInt32
  H1 : UInt32
  H2 : UInt32
  H3 : UInt32
  H4 : UInt32
  /-- The schedule of the block that was loaded. -/
  W : List UInt32
deriving DecidableEq

namespace Sha1

def rol (x n : UInt32) : UInt32 := (x <<< n) ||| (x >>> (32 - n))

def fa (b c d : UInt32) : UInt32 := (b &&& c) ||| (~~~b &&& d)

def fb (b c d : UInt32) : UInt32 := b ^^^ c ^^^ d

def fc (b c d : UInt32) : UInt32 := (b &&& c) ||| (b &&& d) ||| (c &&& d)

/-- `sha1_init`. -/
def init : Sha1 := ⟨0x67452301, 0xEFCDAB89, 0x98BADCFE, 0x10325476, 0xC3D2E1F0, []⟩

/-- One turn of the loops of `sha1_hash`, with the choice function and the constant of
its loop. `H0` to `H4` hold the local `A` to `E`. -/
def round (f : UInt32 → UInt32 → UInt32 → UInt32) (k : UInt32) (sh : Sha1) (w : UInt32) : Sha1 :=
  { sh with
    H0 := rol sh.H0 5 + f sh.H1 sh.H2 sh.H3 + sh.H4 + w + k
    H1 := sh.H0
    H2 := rol sh.H1 30
    H3 := sh.H2
    H4 := sh.H3 }

variable (sh : Sha1)

/-- `sha1_hash`: eighty rounds over the schedule, added to the digest. -/
def hash : Sha1 :=
  let r := (sh.W.take 20).foldl (round fa 0x5A827999) sh
  let r := ((sh.W.drop 20).take 20).foldl (round fb 0x6ED9EBA1) r
  let r := ((sh.W.drop 40).take 20).foldl (round fc 0x8F1BBCDC) r
  let r := ((sh.W.drop 60).take 20).foldl (round fb 0xCA62C1D6) r
  { sh with
    H0 := sh.H0 + r.H0
    H1 := sh.H1 + r.H1
    H2 := sh.H2 + r.H2
    H3 := sh.H3 + r.H3
    H4 := sh.H4 + r.H4 }

/-- The first loop of `sha1_load`: `n` words of the block. -/
def loadWords : ℕ → List UInt8 → List UInt32
  | 0, _ => []
  | n + 1, blk => be32 blk :: loadWords n (blk.drop 4)

/-- The second loop of `sha1_load`: `n` more words, each out of four of the last
sixteen. The schedule is held newest first, so that `W[i - 3]` is at index `2`. -/
def extend : ℕ → List UInt32 → List UInt32
  | 0, W => W
  | n + 1, W =>
    extend n (rol (W.getD 2 0 ^^^ W.getD 7 0 ^^^ W.getD 13 0 ^^^ W.getD 15 0) 1 :: W)

variable (blk : List UInt8)

/-- `sha1_load`. -/
def load : Sha1 :=
  { sh with W := (extend 64 (loadWords 16 blk).reverse).reverse }

/-! ### Messages -/

/-- `sha1_put_size`: the length in bits, in the last eight bytes of the block. -/
def putSize (total : UInt64) : List UInt8 :=
  let bits := total <<< 3
  blk.take 56 ++ beBytes32 (bits >>> 32).toUInt32 ++ beBytes32 bits.toUInt32

variable (p : List UInt8) (tail : ℕ)

/-- The tail of a message with its marker, filled up with zeros. -/
def padTail : List UInt8 :=
  p.take tail ++ 0x80 :: List.replicate (63 - tail) 0

/-- `sha1_load_pad1`: the marker and the size both fit behind the tail. -/
def loadPad1 (total : UInt64) : Sha1 :=
  sh.load (putSize (padTail p tail) total)

/-- `sha1_load_pad2`: only the marker does. -/
def loadPad2 : Sha1 := sh.load (padTail p tail)

/-- `sha1_load_pad0`: the size gets a block of its own. -/
def loadPad0 (total : UInt64) : Sha1 := sh.load (putSize (List.replicate 64 0) total)

/-- `sha1_proc`. -/
def proc : Sha1 := (sh.load blk).hash

/-- `sha1_last`. -/
def last (len : ℕ) (total : UInt64) : Sha1 :=
  let tail := len % 64
  if tail > 55 then
    ((sh.loadPad2 p tail).hash.loadPad0 total).hash
  else
    (sh.loadPad1 p tail total).hash

/-- `sha1_fini`. -/
def fini : List UInt8 :=
  beBytes32 sh.H0 ++ beBytes32 sh.H1 ++ beBytes32 sh.H2 ++ beBytes32 sh.H3 ++ beBytes32 sh.H4

/-- The loop over whole blocks, and what is left after it; at most `n` of them. -/
def blocks : ℕ → Sha1 → List UInt8 → Sha1 × List UInt8
  | 0, sh, p => (sh, p)
  | n + 1, sh, p => if 64 ≤ p.length then blocks n (sh.proc (p.take 64)) (p.drop 64) else (sh, p)

/-- `hash_rest`: a message after `prev` bytes that were hashed already. -/
def hashRest (input : List UInt8) (prev : ℕ) : Sha1 :=
  let r := blocks (input.length / 64) sh input
  r.1.last r.2 r.2.length (UInt64.ofNat (input.length + prev))

@[simp] lemma length_fini (sh : Sha1) : sh.fini.length = 20 := rfl

end Sha1

def sha1 (input : List UInt8) : List UInt8 := (Sha1.init.hashRest input 0).fini

/-! ### HMAC -/

variable (key : List UInt8)

/-- The block of key that `hmac_sha1` starts a hash with: the key, zeros, and the byte
`val` over all of them (`hmac_xor`). -/
def hmacPad (klen : ℕ) (val : UInt8) : List UInt8 :=
  (key.take klen ++ List.replicate (64 - klen) 0).map (· ^^^ val)

def hmacSha1 (klen : ℤ) (input : List UInt8) : List UInt8 :=
  -- longer keys are cut where the standard hashes them first
  let klen := (min (max klen 0) 64).toNat
  let hash := ((Sha1.init.proc (hmacPad key klen 0x36)).hashRest input 64).fini
  ((Sha1.init.proc (hmacPad key klen 0x5C)).last hash hash.length
    (UInt64.ofNat (64 + hash.length))).fini

@[simp] lemma length_hmacSha1 (key : List UInt8) (klen : ℤ) (input : List UInt8) :
    (hmacSha1 key klen input).length = 20 := Sha1.length_fini _

/-! ### SHA-256 -/

/-! ### What the two hashes share -/

namespace Sha

variable {σ : Type}

/-- `sha1_last` and `sha256_last`, for the function that takes a block in. -/
def last (proc : σ → List UInt8 → σ) (sh : σ) (p : List UInt8) (len : ℕ) (total : UInt64) : σ :=
  let tail := len % 64
  if tail > 55 then
    proc (proc sh (Sha1.padTail p tail)) (Sha1.putSize (List.replicate 64 0) total)
  else
    proc sh (Sha1.putSize (Sha1.padTail p tail) total)

/-- The loop over whole blocks, and what is left after it; at most `n` of them. -/
def blocks (proc : σ → List UInt8 → σ) : ℕ → σ → List UInt8 → σ × List UInt8
  | 0, sh, p => (sh, p)
  | n + 1, sh, p =>
    if 64 ≤ p.length then blocks proc n (proc sh (p.take 64)) (p.drop 64) else (sh, p)

def hashRest (proc : σ → List UInt8 → σ) (sh : σ) (input : List UInt8) (prev : ℕ) : σ :=
  let r := blocks proc (input.length / 64) sh input
  last proc r.1 r.2 r.2.length (UInt64.ofNat (input.length + prev))

/-- `hmac_sha1` and `hmac_sha256`. -/
def hmac (proc : σ → List UInt8 → σ) (init : σ) (fini : σ → List UInt8) (key : List UInt8)
    (klen : ℤ) (input : List UInt8) : List UInt8 :=
  -- longer keys are cut where the standard hashes them first
  let klen := (min (max klen 0) 64).toNat
  let hash := fini (hashRest proc (proc init (hmacPad key klen 0x36)) input 64)
  fini (last proc (proc init (hmacPad key klen 0x5C)) hash hash.length
    (UInt64.ofNat (64 + hash.length)))

end Sha

namespace Sha1

lemma last_eq : Sha1.last = Sha.last proc := rfl

lemma blocks_eq (n : ℕ) (sh : Sha1) (p : List UInt8) : blocks n sh p = Sha.blocks proc n sh p := by
  induction n generalizing sh p with
  | zero => rfl
  | succ n ih =>
    rw [blocks, Sha.blocks]
    split_ifs
    · exact ih _ _
    · rfl

lemma hashRest_eq (sh : Sha1) (input : List UInt8) (prev : ℕ) :
    sh.hashRest input prev = Sha.hashRest proc sh input prev := by
  rw [hashRest, Sha.hashRest, blocks_eq, last_eq]

end Sha1

lemma hmacSha1_eq (klen : ℤ) (input : List UInt8) :
    hmacSha1 key klen input = Sha.hmac Sha1.proc Sha1.init Sha1.fini key klen input := by
  rw [hmacSha1, Sha.hmac, Sha1.hashRest_eq]
  rfl

/-! ### The block function -/

/-- `struct sha256`. -/
structure Sha256 where
  /-- `H`: the digest so far. -/
  H0 : UInt32
  H1 : UInt32
  H2 : UInt32
  H3 : UInt32
  H4 : UInt32
  H5 : UInt32
  H6 : UInt32
  H7 : UInt32
  /-- The schedule of the block that was loaded. -/
  W : List UInt32
deriving DecidableEq

namespace Sha256

def K : List UInt32 := [
  0x428a2f98, 0x71374491, 0xb5c0fbcf, 0xe9b5dba5,
  0x3956c25b, 0x59f111f1, 0x923f82a4, 0xab1c5ed5,
  0xd807aa98, 0x12835b01, 0x243185be, 0x550c7dc3,
  0x72be5d74, 0x80deb1fe, 0x9bdc06a7, 0xc19bf174,
  0xe49b69c1, 0xefbe4786, 0x0fc19dc6, 0x240ca1cc,
  0x2de92c6f, 0x4a7484aa, 0x5cb0a9dc, 0x76f988da,
  0x983e5152, 0xa831c66d, 0xb00327c8, 0xbf597fc7,
  0xc6e00bf3, 0xd5a79147, 0x06ca6351, 0x14292967,
  0x27b70a85, 0x2e1b2138, 0x4d2c6dfc, 0x53380d13,
  0x650a7354, 0x766a0abb, 0x81c2c92e, 0x92722c85,
  0xa2bfe8a1, 0xa81a664b, 0xc24b8b70, 0xc76c51a3,
  0xd192e819, 0xd6990624, 0xf40e3585, 0x106aa070,
  0x19a4c116, 0x1e376c08, 0x2748774c, 0x34b0bcb5,
  0x391c0cb3, 0x4ed8aa4a, 0x5b9cca4f, 0x682e6ff3,
  0x748f82ee, 0x78a5636f, 0x84c87814, 0x8cc70208,
  0x90befffa, 0xa4506ceb, 0xbef9a3f7, 0xc67178f2]

def rotr (x n : UInt32) : UInt32 := (x >>> n) ||| (x <<< (32 - n))

def shr (x n : UInt32) : UInt32 := x >>> n

/-- `sha256_init`. -/
def init : Sha256 :=
  ⟨0x6a09e667, 0xbb67ae85, 0x3c6ef372, 0xa54ff53a, 0x510e527f, 0x9b05688c, 0x1f83d9ab, 0x5be0cd19,
    []⟩

def ch (x y z : UInt32) : UInt32 := (x &&& y) ^^^ (~~~x &&& z)

def maj (x y z : UInt32) : UInt32 := (x &&& y) ^^^ (x &&& z) ^^^ (y &&& z)

variable (x : UInt32)

def bsig0 : UInt32 := rotr x 2 ^^^ rotr x 13 ^^^ rotr x 22

def bsig1 : UInt32 := rotr x 6 ^^^ rotr x 11 ^^^ rotr x 25

def ssig0 : UInt32 := rotr x 7 ^^^ rotr x 18 ^^^ shr x 3

def ssig1 : UInt32 := rotr x 17 ^^^ rotr x 19 ^^^ shr x 10

/-- One turn of the loop of `sha256_hash`, with `K[i]` and `W[i]`. `H0` to `H7` hold the
local `a` to `h`. -/
def round (sh : Sha256) (kw : UInt32 × UInt32) : Sha256 :=
  let t1 := sh.H7 + bsig1 sh.H4 + ch sh.H4 sh.H5 sh.H6 + kw.1 + kw.2
  let t2 := bsig0 sh.H0 + maj sh.H0 sh.H1 sh.H2
  { sh with
    H0 := t1 + t2
    H1 := sh.H0
    H2 := sh.H1
    H3 := sh.H2
    H4 := sh.H3 + t1
    H5 := sh.H4
    H6 := sh.H5
    H7 := sh.H6 }

/-- `sha256_hash`: sixty-four rounds over the schedule, added to the digest. -/
def hash (sh : Sha256) : Sha256 :=
  let r := (K.zip sh.W).foldl round sh
  { sh with
    H0 := sh.H0 + r.H0
    H1 := sh.H1 + r.H1
    H2 := sh.H2 + r.H2
    H3 := sh.H3 + r.H3
    H4 := sh.H4 + r.H4
    H5 := sh.H5 + r.H5
    H6 := sh.H6 + r.H6
    H7 := sh.H7 + r.H7 }

/-- `sha256_fini`. -/
def fini (sh : Sha256) : List UInt8 :=
  beBytes32 sh.H0 ++ beBytes32 sh.H1 ++ beBytes32 sh.H2 ++ beBytes32 sh.H3 ++
    beBytes32 sh.H4 ++ beBytes32 sh.H5 ++ beBytes32 sh.H6 ++ beBytes32 sh.H7

/-- The second loop of `sha256_load`, with the schedule newest first as for SHA-1. -/
def extend : ℕ → List UInt32 → List UInt32
  | 0, W => W
  | n + 1, W =>
    extend n ((ssig1 (W.getD 1 0) + W.getD 6 0 + ssig0 (W.getD 14 0) + W.getD 15 0) :: W)

/-- `sha256_load`. -/
def load (sh : Sha256) (blk : List UInt8) : Sha256 :=
  { sh with W := (extend 48 (Sha1.loadWords 16 blk).reverse).reverse }

/-- `sha256_proc`. -/
def proc (sh : Sha256) (blk : List UInt8) : Sha256 := (sh.load blk).hash

def hashRest (sh : Sha256) (input : List UInt8) (prev : ℕ) : Sha256 :=
  Sha.hashRest proc sh input prev

@[simp] lemma length_fini (sh : Sha256) : sh.fini.length = 32 := rfl

end Sha256

def sha256 (input : List UInt8) : List UInt8 := (Sha256.init.hashRest input 0).fini

def hmacSha256 (klen : ℤ) (input : List UInt8) : List UInt8 :=
  Sha.hmac Sha256.proc Sha256.init Sha256.fini key klen input

@[simp] lemma length_hmacSha256 (key : List UInt8) (klen : ℤ) (input : List UInt8) :
    (hmacSha256 key klen input).length = 32 := Sha256.length_fini _

end Minibase
