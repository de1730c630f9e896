import Minibase.Lib.Memory
import Minibase.Lib.CInt

/-!
# The LZMA decoder

`lib/lzma.c`, function by function, as programs over `struct private`. The source and
the destination are two memories, and the eight pointers of `struct lzma` are addresses in
them, zero for `NULL`. An adaptive model is named by the array it is in, its row and its
column (`Lzma.Bitmodel`), and the probabilities are a function of those names:
as in the C, a pointer past the end of an array is a pointer like any other.

Three fields are not in the source, and nothing reads them: `taken` and `total` count the bytes
read and put out since the decoder was created, and `log` records each decoding step, array index
test, byte read or written and look into the output. The loop of `lzma_inflate` gets as much fuel
as there is room in the output, and two more: every turn puts out a byte or sets `error`.
-/

namespace Minibase.Lzma

open Function

/-! ### Constants -/

/-- The number of states, `STATES`. -/
def STATES : ℕ := 12
def PSTATES : ℕ := 4
def DSTATES : ℕ := 4
def DISLOTS : ℕ := 64
def LCONTEXT : ℕ := 8
def ALIGN_BITS : ℕ := 4
def DIST_MODEL_START : ℕ := 4
def DIST_MODEL_END : ℕ := 14

def STATE_LIT_LIT : ℕ := 0
def STATE_SHORTREP_LIT_LIT : ℕ := 3
def STATE_SHORTREP_LIT : ℕ := 6
def STATE_LIT_MATCH : ℕ := 7
def STATE_LIT_LONGREP : ℕ := 8
def STATE_LIT_SHORTREP : ℕ := 9
def STATE_NONLIT_MATCH : ℕ := 10
def STATE_NONLIT_REP : ℕ := 11
/-- `STATE_INVALID`, not really a state -/
def STATE_INVALID : ℕ := 13
/-- `STATE_INITIAL`, not really a state -/
def STATE_INITIAL : ℕ := 14

def LZMA_STREAM_END : ℕ := 1
def LZMA_NEED_INPUT : ℕ := 2
def LZMA_NEED_OUTPUT : ℕ := 3
def LZMA_OUTPUT_OVER : ℕ := 4
def LZMA_INPUT_OVER : ℕ := 5
def LZMA_INVALID_REF : ℕ := 6
def LZMA_RANGE_CHECK : ℕ := 7

/-! ### Bit models -/

/-- The two `lenmodel`s. -/
inductive Lenmodel where
  | matchlen
  | replen
  deriving DecidableEq

/-- The arrays of bit models in `struct private`. -/
inductive Arr where
  | bit1 | bit2 | bit3 | bit4 | bit5 | shrt
  | literal | dislot | dispec | align
  | choice1 (lm : Lenmodel) | choice2 (lm : Lenmodel)
  | low (lm : Lenmodel) | mid (lm : Lenmodel) | high (lm : Lenmodel)
  deriving DecidableEq

/-- The first dimension of an array, one for those that have only one. -/
def Arr.rows : Arr → ℕ
  | .bit1 => STATES
  | .shrt => STATES
  | .literal => LCONTEXT
  | .dislot => DSTATES
  | .low _ => PSTATES
  | .mid _ => PSTATES
  | _ => 1

/-- The last dimension of an array. -/
def Arr.cols : Arr → ℕ
  | .bit1 => PSTATES
  | .bit2 => STATES
  | .bit3 => STATES
  | .bit4 => STATES
  | .bit5 => STATES
  | .shrt => PSTATES
  | .literal => 0x300
  | .dislot => DISLOTS
  | .dispec => 115
  | .align => 16
  | .choice1 _ => 1
  | .choice2 _ => 1
  | .low _ => 8
  | .mid _ => 8
  | .high _ => 256

/-- A `bitmodel*`. -/
structure Bitmodel where
  /-- The array. -/
  arr : Arr
  /-- The row. -/
  row : ℕ
  /-- The column. -/
  col : ℕ
  deriving DecidableEq

/-- The pointer `bma + i`. -/
def Bitmodel.at (bma : Bitmodel) (i : ℕ) : Bitmodel := { bma with col := bma.col + i }

variable (bm : Bitmodel)

/-- The bit model is inside its array. -/
def Bitmodel.Inside : Prop := bm.row < bm.arr.rows ∧ bm.col < bm.arr.cols
deriving Decidable

/-! ### The state -/

/-- Something the decoder did. -/
inductive Event where
  /-- A step of `dec_bit`: the bit model, and the range and the probability before and after. -/
  | bit (bm : Bitmodel) (range range' probability probability' : ℕ)
  /-- A step of `dec_direct`: the range before and after. -/
  | direct (range range' : ℕ)
  /-- An array index test. -/
  | check (i size : ℕ)
  /-- A byte read from the source, with the bounds of the buffer. -/
  | read (ptr buf fin : ℕ)
  /-- A byte written to the destination, with the bounds of the buffer. -/
  | write (ptr buf fin : ℕ)
  /-- A look at the byte `i + 1` back, with the size of the window, and of all the output. -/
  | look (i window total : ℕ)
  /-- A back-reference, to `n` bytes from `rep + 1` back on. -/
  | copy (rep n : ℕ)
  deriving DecidableEq

/-- `struct lzma`, the part the caller sees. -/
structure Lz where
  /-- `srcbuf` -/
  srcbuf : ℕ
  /-- `srcptr` -/
  srcptr : ℕ
  /-- `srchwm` -/
  srchwm : ℕ
  /-- `srcend` -/
  srcend : ℕ
  /-- `dstbuf` -/
  dstbuf : ℕ
  /-- `dstptr` -/
  dstptr : ℕ
  /-- `dsthwm` -/
  dsthwm : ℕ
  /-- `dstend` -/
  dstend : ℕ

/-- `struct private`, with the two memories and the ghost fields. A `rep` is stored as an
`int` and used as a `uint`: it is its 32 bits. -/
structure Private where
  /-- The public part. -/
  lz : Lz
  /-- `state` -/
  state : ℕ
  /-- `pos_state` -/
  posState : ℕ
  /-- `error` -/
  error : ℕ
  /-- `code` -/
  code : ℕ
  /-- `range` -/
  range : ℕ
  /-- `rep` -/
  rep : ℕ → ℕ
  /-- The probabilities of all bit models. -/
  bm : Bitmodel → ℕ
  /-- What the source pointers point into. -/
  src : Mem
  /-- What the destination pointers point into. -/
  dst : Mem
  /-- How many bytes were read. -/
  taken : ℕ
  /-- How many bytes were put out. -/
  total : ℕ
  /-- What was done, latest first. -/
  log : List Event

/-- A piece of the decoder. -/
abbrev Dec := StateM Private

/-- Read a field. -/
def fetch {α : Type} (f : Private → α) : Dec α := do
  return f (← get)

/-- Record what was done. -/
def note (e : Event) : Dec Unit := modify fun pz => { pz with log := e :: pz.log }

/-! ### Bytes in, bytes out -/

def error (err : ℕ) : Dec Unit := modify fun pz => { pz with error := err }

def byteError (err : ℕ) : Dec UInt8 := do
  error err
  return 0x00

def stateError (err : ℕ) : Dec ℕ := do
  error err
  return STATE_INVALID

/-- A byte is written unless the buffer is full. -/
def putByte (c : UInt8) : Dec Unit := do
  let pz ← get
  let ptr := pz.lz.dstptr
  let fin := pz.lz.dstend
  if ptr ≥ fin then error LZMA_OUTPUT_OVER
  else
    note (.write ptr pz.lz.dstbuf fin)
    modify fun pz =>
      { pz with
        posState := (pz.posState + 1) &&& 3
        dst := update pz.dst ptr c
        lz := { pz.lz with dstptr := ptr + 1 }
        total := pz.total + 1 }

/-- A byte is read unless there are no more. -/
def getByte : Dec UInt8 := do
  let pz ← get
  let ptr := pz.lz.srcptr
  let fin := pz.lz.srcend
  if ptr ≥ fin then byteError LZMA_INPUT_OVER
  else
    note (.read ptr pz.lz.srcbuf fin)
    modify fun pz => { pz with lz := { pz.lz with srcptr := ptr + 1 }, taken := pz.taken + 1 }
    return pz.src ptr

/-- A byte that was written, counted back from the last. -/
def peekBack (i : ℕ) : Dec UInt8 := do
  let pz ← get
  let buf := pz.lz.dstbuf
  let ptr := pz.lz.dstptr
  let «at» : ℤ := (ptr : ℤ) - i - 1
  note (.look i (ptr - buf) pz.total)
  if «at» < buf ∨ «at» ≥ ptr then
    if i ≠ 0 then error LZMA_INVALID_REF
    return 0x00
  else
    return pz.dst «at».toNat

/-! ### The range coder -/

/-- Eight more bits when the range has become small. -/
def normalize : Dec Unit := do
  let pz ← get
  if pz.range > 0x00FFFFFF then return
  else
    let c ← getByte
    modify fun pz =>
      { pz with
        range := u32 (pz.range <<< 8)
        code := u32 (pz.code <<< 8) ||| c.toNat }

/-- The first half of `dec_bit`: split the range, and adapt the model to the bit found. -/
def splitRange : Dec ℕ := do
  let pz ← get
  let probability := pz.bm bm
  let bound := u32 ((pz.range >>> 11) * probability)
  if pz.code < bound then
    set { pz with
      range := bound
      bm := update pz.bm bm (u32 (probability + sub32 2048 probability >>> 5)) }
    return 0
  else
    set { pz with
      range := sub32 pz.range bound
      code := pz.code - bound
      bm := update pz.bm bm (sub32 probability (probability >>> 5)) }
    return 1

/-- A bit, by its probability, which is adapted. -/
def decBit : Dec ℕ := do
  let range ← fetch (·.range)
  let probability ← fetch (·.bm bm)
  let bit ← splitRange bm
  normalize
  let range' ← fetch (·.range)
  let probability' ← fetch (·.bm bm)
  note (.bit bm range range' probability probability')
  return bit

/-- The first half of a turn of the loop of `dec_direct`. -/
def halveRange : Dec ℕ := do
  let pz ← get
  let range := pz.range >>> 1
  if pz.code ≥ range then
    set { pz with range := range, code := pz.code - range }
    return 1
  else
    set { pz with range := range }
    return 0

/-- One turn of the loop of `dec_direct`. -/
def directBit : Dec ℕ := do
  let range ← fetch (·.range)
  let bit ← halveRange
  normalize
  let range' ← fetch (·.range)
  note (.direct range range')
  return bit

/-- The loop of `dec_direct`, with `i` turns left. -/
def decDirectLoop : ℕ → ℕ → Dec ℕ
  | 0, ret => return ret
  | i + 1, ret => do
    let bit ← directBit
    decDirectLoop i (u32 (ret <<< 1) ||| bit)

def decDirect (limit : ℕ) : Dec ℕ := decDirectLoop limit 0

/-- `range_check`, true if the test failed -/
def rangeCheck (i size : ℕ) : Dec Bool := do
  note (.check i size)
  if i < size then return false
  else
    error LZMA_RANGE_CHECK
    return true

/-- The loop of `dec_tree`, with `i` turns left; `none` for the early return. -/
def decTreeLoop (bma : Bitmodel) (bms : ℕ) : ℕ → ℕ → Dec (Option ℕ)
  | 0, ret => return some ret
  | i + 1, ret => do
    if ← rangeCheck ret bms then return none
    let bit ← decBit (bma.at ret)
    decTreeLoop bma bms i (u32 (ret <<< 1) ||| bit)

/-- A number of `n` bits, the highest first. -/
def decTree (bma : Bitmodel) (bms n : ℕ) : Dec ℕ := do
  match ← decTreeLoop bma bms n 1 with
  | none => return 0
  | some ret => return sub32 ret (1 <<< n)

/-- The loop of `dec_rtree`, which reverses the low bits of `sym`. -/
def reverseBits : ℕ → ℕ → ℕ → ℕ
  | 0, _, ret => ret
  | i + 1, sym, ret => reverseBits i (sym >>> 1) (u32 (ret <<< 1) ||| (sym &&& 1))

/-- A number of `n` bits, the lowest first. -/
def decRtree (bma : Bitmodel) (bms n : ℕ) : Dec ℕ := do
  let sym ← decTree bma bms n
  return reverseBits n sym 0

/-- The inner loop of `dec_match`, with fuel for the eight turns it can make. -/
def decMatchTail (bma : Bitmodel) (bms : ℕ) : ℕ → ℕ → Dec (Option ℕ)
  | 0, ret => return some ret
  | fuel + 1, ret => do
    if ret < 0x100 then
      if ← rangeCheck ret bms then return none
      let bit ← decBit (bma.at ret)
      decMatchTail bma bms fuel (u32 (ret <<< 1) ||| bit)
    else return some ret

/-- The outer loop of `dec_match`, with `i` turns left. -/
def decMatchLoop (bma : Bitmodel) (bms mbyte : ℕ) : ℕ → ℕ → Dec (Option ℕ)
  | 0, ret => return some ret
  | i + 1, ret => do
    let matchbit := (mbyte >>> i) &&& 1
    let off := ret + (matchbit <<< 8) + 0x100
    if ← rangeCheck off bms then return none
    let bit ← decBit (bma.at off)
    let ret := u32 (ret <<< 1) ||| bit
    if matchbit = bit then decMatchLoop bma bms mbyte i ret
    else decMatchTail bma bms 8 ret

/-- A byte, compared with one that is expected. -/
def decMatch (bma : Bitmodel) (bms mbyte : ℕ) : Dec ℕ := do
  match ← decMatchLoop bma bms mbyte 8 1 with
  | none => return 0
  | some ret => return ret &&& 0xFF

/-- A length, in one of three ranges. -/
def decLength (lm : Lenmodel) (pstate : ℕ) : Dec ℕ := do
  if (← decBit ⟨.choice1 lm, 0, 0⟩) = 0 then
    decTree ⟨.low lm, pstate, 0⟩ 8 3
  else if (← decBit ⟨.choice2 lm, 0, 0⟩) = 0 then
    return (1 <<< 3) + (← decTree ⟨.mid lm, pstate, 0⟩ 8 3)
  else
    return (1 <<< 3) + (1 <<< 3) + (← decTree ⟨.high lm, 0, 0⟩ 256 8)

/-! ### Literals and matches -/

def isLit (state : ℕ) : Bool := decide (state ≤ STATE_SHORTREP_LIT)

/-- The byte of a literal, in the context of the byte before. -/
def literalByte (bma : Bitmodel) (bms state : ℕ) : Dec ℕ := do
  if isLit state then decTree bma bms 8
  else
    let rep ← fetch (·.rep 0)
    let mbyte ← peekBack rep
    decMatch bma bms mbyte.toNat

/-- A byte by itself, in the context of the one before. -/
def inflateLiteral (state : ℕ) : Dec ℕ := do
  let lstate := (← peekBack 0).toNat >>> 5
  if ← rangeCheck lstate LCONTEXT then return state
  let c ← literalByte ⟨.literal, lstate, 0⟩ 0x300 state
  putByte (UInt8.ofNat c)
  if state ≤ STATE_SHORTREP_LIT_LIT then return STATE_LIT_LIT
  else if state ≤ STATE_LIT_SHORTREP then return state - 3
  else return state - 6

/-- The loop of `repeat_from_dict`. -/
def repeatLoop (rep : ℕ) : ℕ → Dec Unit
  | 0 => return
  | n + 1 => do
    let c ← peekBack rep
    putByte c
    repeatLoop rep n

def repeatFromDict (state rep n : ℕ) : Dec ℕ := do
  note (.copy rep n)
  repeatLoop rep n
  return state

/-- Assign `rep`. -/
def setRep (f : (ℕ → ℕ) → ℕ → ℕ) : Dec Unit := modify fun pz => { pz with rep := f pz.rep }

/-- `inflate_match`, from the assignment of `rep[0]` on. -/
def matchFrom (state rep len : ℕ) : Dec ℕ := do
  setRep fun r => update r 0 rep
  let state := if isLit state then STATE_LIT_MATCH else STATE_NONLIT_MATCH
  repeatFromDict state rep len

/-- A new distance, and a length. -/
def inflateMatch (state pstate : ℕ) : Dec ℕ := do
  setRep fun r => update (update (update r 3 (r 2)) 2 (r 1)) 1 (r 0)
  let len := 2 + (← decLength .matchlen pstate)
  let dstate := if len - 2 < DSTATES - 1 then len - 2 else DSTATES - 1
  let dislot ← decTree ⟨.dislot, dstate, 0⟩ DISLOTS 6
  if dislot < DIST_MODEL_START then
    matchFrom state dislot len
  else
    let limit := (dislot >>> 1) - 1
    let rep := u32 ((2 + (dislot &&& 1)) <<< limit)
    if dislot < DIST_MODEL_END then
      let off := sub32 rep dislot
      let bms := sub32 115 off
      let bma : Bitmodel := ⟨.dispec, 0, off⟩
      if ← rangeCheck off 115 then stateError LZMA_RANGE_CHECK
      else
        let tree ← decRtree bma bms limit
        matchFrom state (u32 (rep + tree)) len
    else
      let dbits ← decDirect (limit - ALIGN_BITS)
      let rtree ← decRtree ⟨.align, 0, 0⟩ 16 ALIGN_BITS
      let rep := rep ||| u32 (dbits <<< ALIGN_BITS) ||| rtree
      if rep = 0xFFFFFFFF then
        if len ≠ 2 then stateError LZMA_RANGE_CHECK
        else stateError LZMA_STREAM_END
      else matchFrom state rep len

/-- One byte at the last distance. -/
def inflateShortrep (state : ℕ) : Dec ℕ := do
  let state := if isLit state then STATE_LIT_SHORTREP else STATE_NONLIT_REP
  let rep ← fetch (·.rep 0)
  repeatFromDict state rep 1

/-- How `inflate_longrep` moves its `rep` to the front. -/
def moveToFront (n : ℕ) (r : ℕ → ℕ) : ℕ → ℕ :=
  let rep := r n
  let r := if n > 2 then update r 3 (r 2) else r
  let r := if n > 1 then update r 2 (r 1) else r
  let r := if n > 0 then update r 1 (r 0) else r
  update r 0 rep

/-- One of the last four distances, and a length. -/
def inflateLongrep (state pstate n : ℕ) : Dec ℕ := do
  let rep ← fetch (·.rep n)
  setRep (moveToFront n)
  let len := 2 + (← decLength .replen pstate)
  let state := if isLit state then STATE_LIT_LONGREP else STATE_NONLIT_REP
  repeatFromDict state rep len

/-! ### The loop -/

/-- The body of the loop of `lzma_inflate`, from the first bit to the new state. -/
def decSymbol (s p : ℕ) : Dec ℕ := do
  if (← decBit ⟨.bit1, s, p⟩) = 0 then
    inflateLiteral s
  else if (← decBit ⟨.bit2, 0, s⟩) = 0 then
    inflateMatch s p
  else if (← decBit ⟨.bit3, 0, s⟩) = 0 then
    if (← decBit ⟨.shrt, s, p⟩) = 0 then
      inflateShortrep s
    else
      inflateLongrep s p 0
  else if (← decBit ⟨.bit4, 0, s⟩) = 0 then
    inflateLongrep s p 1
  else if (← decBit ⟨.bit5, 0, s⟩) = 0 then
    inflateLongrep s p 2
  else
    inflateLongrep s p 3

/-- The loop of `lzma_inflate`; `none` if the fuel runs out. -/
def inflateLoop : ℕ → Dec (Option ℕ)
  | 0 => return none
  | fuel + 1 => do
    let err ← fetch (·.error)
    if err ≠ 0 then return some err
    let p ← fetch (·.posState)
    let s ← fetch (·.state)
    if ← rangeCheck s 12 then inflateLoop fuel
    else if ← rangeCheck p 4 then inflateLoop fuel
    else
      let s ← decSymbol s p
      modify fun pz => { pz with state := s }
      let pz ← get
      if pz.lz.srcptr > pz.lz.srchwm then return some LZMA_NEED_INPUT
      else if pz.lz.dstptr > pz.lz.dsthwm then return some LZMA_NEED_OUTPUT
      else inflateLoop fuel

/-- The loop of `check_buffers` that reads the initial code. -/
def initCode : ℕ → ℕ → Dec ℕ
  | 0, code => return code
  | i + 1, code => do
    let c ← getByte
    initCode i (u32 (code <<< 8) ||| c.toNat)

/-- The pointers are looked at, and the first call reads the header. -/
def checkBuffers : Dec Unit := do
  let pz ← get
  if pz.lz.srcbuf = 0 ∨ pz.lz.srcptr = 0 ∨ pz.lz.srcend = 0 then error LZMA_INPUT_OVER
  else if pz.lz.dstbuf = 0 ∨ pz.lz.dstptr = 0 ∨ pz.lz.dstend = 0 then error LZMA_OUTPUT_OVER
  else if pz.state ≠ STATE_INITIAL then return
  else
    let code ← initCode 4 0
    modify fun pz => { pz with code := code, state := STATE_LIT_LIT, range := 0xFFFFFFFF }

def lzmaInflate : Dec (Option ℕ) := do
  checkBuffers
  let pz ← get
  inflateLoop (pz.lz.dstend - pz.lz.dstptr + 2)

/-- `init_private`, which leaves `code` and `range` as they are in the buffer. -/
def initPrivate (code range : UInt32) : Private where
  lz := ⟨0, 0, 0, 0, 0, 0, 0, 0⟩
  state := STATE_INITIAL
  posState := 0
  error := 0
  code := code.toNat
  range := range.toNat
  rep := fun _ => 0
  bm := fun _ => 1024
  src := fun _ => 0
  dst := fun _ => 0
  taken := 0
  total := 0
  log := []

/-! ### Calls -/

/-- What the caller passes to a call: pointers that are in order, and what they point to. -/
structure Buffers extends Lz where
  /-- The source. -/
  src : Mem
  /-- The destination. -/
  dst : Mem
  /-- The source pointer is in its buffer. -/
  src_in : srcbuf ≤ srcptr ∧ srcptr ≤ srcend
  /-- The destination pointer is in its buffer. -/
  dst_in : dstbuf ≤ dstptr ∧ dstptr ≤ dstend

/-- The state in which a call starts: the caller has set the pointers, and nothing else. -/
def enter (b : Buffers) (pz : Private) : Private :=
  { pz with lz := b.toLz, src := b.src, dst := b.dst, log := [] }

/-- The state after a call. -/
def after (b : Buffers) (pz : Private) : Private := (lzmaInflate (enter b pz)).2

/-- The states after each of a sequence of calls. -/
def history : Private → List Buffers → List Private
  | _, [] => []
  | pz, b :: bs => after b pz :: history (after b pz) bs

end Minibase.Lzma
