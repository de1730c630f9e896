import Minibase.Lib.Memory

/-!
# The formatters

The functions of `lib/format` are given a position `p` and the end `e` of a buffer, write a
text there, and return the position after it, so that calls are chained: `p = fmtX(p, e, ...)`.
What is written goes to a `Format.Out`, the memory together with a log of all addresses that
have been written to: a formatter that does not look at `e` writes past it, and the log shows
it. Integers are those of a 64-bit build, where `fmtint` and `fmtuint` are other names of
`fmti32` and `fmtu32`.
-/

namespace Minibase.Format

/-! ### Output -/

/-- The memory, and where it has been written to. -/
structure Out where
  mem : Mem
  log : List ℕ

namespace Out

/-- `*p = c`. -/
def poke (o : Out) (a : ℕ) (c : UInt8) : Out := ⟨o.mem.store a [c], a :: o.log⟩

/-- `memcpy`. -/
def copy (o : Out) (a : ℕ) (bs : List UInt8) : Out :=
  ⟨o.mem.store a bs, List.range' a bs.length ++ o.log⟩

end Out

/-! ### Strings -/

/-- `while(p < e && *p++) len++;` -/
def countNonzero (src : Mem) (p : ℕ) : ℕ → ℕ
  | 0 => 0
  | n + 1 => if src p = 0 then 0 else countNonzero src (p + 1) n + 1

/-- `strnlen`; the sum of an address and a length wraps around. -/
def strnlen (src : Mem) (str max : ℕ) : ℕ :=
  if str = 0 then 0 else countNonzero src str ((str + max) % 2 ^ 64 - str)

def fmtraw (p e : ℕ) (src : Mem) (data : ℕ) (len : Int32) (o : Out) : ℕ × Out :=
  let left : ℤ := e - p
  let len := if len.toInt > left then Int32.ofInt left else len
  if len ≤ 0 then (p, o)
  else (p + len.toInt.toNat, o.copy p (src.load data len.toInt.toNat))

def fmtstr (p e : ℕ) (src : Mem) (str : ℕ) (o : Out) : ℕ × Out :=
  if p ≥ e then (p, o)
  else fmtraw p e src str (Int32.ofNat (strnlen src str (e - p))) o

def fmtstrn (p e : ℕ) (src : Mem) (str : ℕ) (len : Int32) (o : Out) : ℕ × Out :=
  fmtraw p e src str (Int32.ofNat (strnlen src str len.toInt64.toUInt64.toNat)) o

def fmtchar (p e : ℕ) (c : UInt8) (o : Out) : ℕ × Out :=
  if p < e then (p + 1, o.poke p c) else (p, o)

/-! ### Numbers -/

/-- The number of digits, as the first loop of each of the functions below counts them. -/
def countDigits (base n : ℕ) : ℕ :=
  if h : 2 ≤ base ∧ base ≤ n then countDigits base (n / base) + 1 else 1
termination_by n
decreasing_by exact Nat.div_lt_self (by omega) (by omega)

def decDigit (n : ℕ) : UInt8 := UInt8.ofNat (48 + n)

/-- `digits[n]`, for `"0123456789ABCDEF"`. -/
def hexDigit (n : ℕ) : UInt8 := UInt8.ofNat (if n < 10 then 48 + n else 55 + n)

/-- The second loop of each of the functions below: `len` digits of `num` from right to left,
those before `e` only. The leftmost one is at `p`. -/
def putDigits (e base : ℕ) (digit : ℕ → UInt8) (p : ℕ) : (len num : ℕ) → Out → Out
  | 0, _, o => o
  | len + 1, num, o =>
    putDigits e base digit p len (num / base)
      (if p + len < e then o.poke (p + len) (digit (num % base)) else o)

def fmtint64 (buf e : ℕ) (minus : Bool) (num : UInt64) (o : Out) : ℕ × Out :=
  let len := countDigits 10 num.toNat
  let sign := if minus then 1 else 0
  let o := putDigits e 10 decDigit (buf + sign) len num.toNat o
  -- the sign is where the loop has stopped
  let o := if minus then o.poke buf 45 else o
  (if buf + sign + len > e then e else buf + sign + len, o)

def fmti64 (buf e : ℕ) (num : Int64) : Out → ℕ × Out :=
  fmtint64 buf e (num < 0) (if num < 0 then -num else num).toUInt64

def fmtu64 (buf e : ℕ) (num : UInt64) : Out → ℕ × Out := fmtint64 buf e false num

def fmtint (buf e : ℕ) (num : Int32) : Out → ℕ × Out :=
  fmtint64 buf e (num < 0) (if num < 0 then -num else num).toInt64.toUInt64

def fmtuint (buf e : ℕ) (num : UInt32) : Out → ℕ × Out := fmtint64 buf e false num.toUInt64

def fmtx64 (buf e : ℕ) (num : UInt64) (o : Out) : ℕ × Out :=
  let len := countDigits 16 num.toNat
  (if buf + len < e then buf + len else e, putDigits e 16 hexDigit buf len num.toNat o)

def fmthex (buf e : ℕ) (num : UInt32) (o : Out) : ℕ × Out :=
  let len := countDigits 16 num.toNat
  (buf + len, putDigits e 16 hexDigit buf len num.toNat o)

/-! ### Padding -/

/-- `for(z = q + shift - 1; z >= p + shift; z--) if(z < e) *z = *(z - shift);` for `n = q - p`. -/
def moveUp (p e shift : ℕ) : (n : ℕ) → Out → Out
  | 0, o => o
  | n + 1, o =>
    moveUp p e shift n (if p + shift + n < e then o.poke (p + shift + n) (o.mem (p + n)) else o)

/-- `for(; z >= p; z--) *z = c;` for `z = p + n - 1`. -/
def fill (p : ℕ) (c : UInt8) : (n : ℕ) → Out → Out
  | 0, o => o
  | n + 1, o => fill p c n (o.poke (p + n) c)

/-- What is done when there is something to pad. -/
def shiftIn (p e shift q : ℕ) (c : UInt8) (o : Out) : ℕ × Out :=
  (q + shift, fill p c (min q p + shift - p) (moveUp p e shift (q - p) o))

def fmtpad (p e : ℕ) (width : Int32) (q : ℕ) (o : Out) : ℕ × Out :=
  if q < p ∨ q > e then (q, o)
  else
    let shift := width - Int32.ofInt (q - p)
    if shift < 0 then (q, o) else shiftIn p e shift.toInt.toNat q 32 o

def fmtpad0 (p e : ℕ) (width : Int32) (q : ℕ) (o : Out) : ℕ × Out :=
  let shift := width - Int32.ofInt (q - p)
  if shift ≤ 0 then (q, o) else shiftIn p e shift.toInt.toNat q 48 o

/-- `while(q < t && q < e) *q++ = ' ';` in at most `n` steps. -/
def fillRight (e : ℕ) (t : ℤ) : (n q : ℕ) → Out → ℕ × Out
  | 0, q, o => (q, o)
  | n + 1, q, o => if q < t ∧ q < e then fillRight e t n (q + 1) (o.poke q 32) else (q, o)

def fmtpadr (p e : ℕ) (width : Int32) (q : ℕ) (o : Out) : ℕ × Out :=
  if q < p ∨ q > e then (q, o) else fillRight e (p + width.toInt) (e - q) q o

/-! ### Addresses -/

/-- `fmtint` of a byte, which is promoted to `int`. -/
def fmtoctet (p e : ℕ) (b : UInt8) : Out → ℕ × Out := fmtint p e (Int32.ofNat b.toNat)

def fmtip (p e : ℕ) (ip0 ip1 ip2 ip3 : UInt8) (o : Out) : ℕ × Out :=
  let (p, o) := fmtoctet p e ip0 o
  let (p, o) := fmtchar p e 46 o
  let (p, o) := fmtoctet p e ip1 o
  let (p, o) := fmtchar p e 46 o
  let (p, o) := fmtoctet p e ip2 o
  let (p, o) := fmtchar p e 46 o
  fmtoctet p e ip3 o

/-! ### Calls -/

/-- A call of a formatter. The position that padding starts from is what another call has
returned, for the same `p`. -/
inductive Call where
  | str (src : Mem) (s : ℕ)
  | strn (src : Mem) (s : ℕ) (len : Int32)
  | raw (src : Mem) (data : ℕ) (len : Int32)
  | char (c : UInt8)
  | int (num : Int32)
  | uint (num : UInt32)
  | i64 (num : Int64)
  | u64 (num : UInt64)
  | x64 (num : UInt64)
  | hex (num : UInt32)
  | pad (width : Int32) (h : 0 ≤ width) (q : Call)
  | pad0 (width : Int32) (h : 0 ≤ width) (q : Call)
  | padr (width : Int32) (q : Call)
  | ip (ip0 ip1 ip2 ip3 : UInt8)

/-- What a call does at the position `p`, and what it returns. -/
def Call.run (e p : ℕ) : Call → Out → ℕ × Out
  | .str src s, o => fmtstr p e src s o
  | .strn src s len, o => fmtstrn p e src s len o
  | .raw src data len, o => fmtraw p e src data len o
  | .char c, o => fmtchar p e c o
  | .int num, o => fmtint p e num o
  | .uint num, o => fmtuint p e num o
  | .i64 num, o => fmti64 p e num o
  | .u64 num, o => fmtu64 p e num o
  | .x64 num, o => fmtx64 p e num o
  | .hex num, o => fmthex p e num o
  | .pad width _ q, o => fmtpad p e width (q.run e p o).1 (q.run e p o).2
  | .pad0 width _ q, o => fmtpad0 p e width (q.run e p o).1 (q.run e p o).2
  | .padr width q, o => fmtpadr p e width (q.run e p o).1 (q.run e p o).2
  | .ip ip0 ip1 ip2 ip3, o => fmtip p e ip0 ip1 ip2 ip3 o

end Minibase.Format
