import Minibase.Lib.Tlv
import Minibase.Netlink.Attr

/-!
# Packing requests

A request to the kernel is put together by the functions of `lib/netlink/pack_*.c` and sent by
`nc_send`. Where something does not fit, the position in the buffer is set past its end, and each
of the functions leaves it there. `Netlink.Nc` is the buffer, with addresses counted from
`nc->brk`; nothing keeps the functions from writing past its end but themselves. `Netlink.ncPut_eq`
says what those that pack an attribute do: one block is appended, or the overflow is marked.
-/

namespace Minibase.Netlink

open List

/-- `struct ncbuf`, and the memory it is for. -/
structure Nc where
  mem : Mem
  ptr : ℕ
  /-- `nc->end - nc->brk`. -/
  size : ℕ

def ncBufSet (mem : Mem) (size : UInt32) : Nc := ⟨mem, 0, size.toNat⟩

variable (nc : Nc)

/-- `nc->ptr = end + 1`. -/
def Nc.over : Nc := { nc with ptr := nc.size + 1 }

/-! ### Headers -/

def NLM_F_REQUEST : UInt32 := 1

/-- `nc_header`; the length is not known yet. -/
def ncHeader (type flags seq : UInt32) : Nc :=
  if 16 > nc.size then nc.over
  else
    let m := nc.mem.put16 4 type.toNat
    let m := m.put16 6 (NLM_F_REQUEST ||| flags).toNat
    let m := m.store 8 (le 4 seq.toNat)
    let m := m.store 12 (le 4 0)
    { nc with mem := m, ptr := 16 }

/-- `nc_fixed`: make room for the whole of a longer header. -/
def ncFixed (size : ℕ) : Nc × Bool :=
  if size ≤ 16 then (nc.over, false)
  else if nc.ptr ≠ 16 then (nc.over, false)
  else if size > nc.size then (nc.over, false)
  else ({ nc with ptr := size, mem := nc.mem.store 16 (replicate (size - 16) 0) }, true)

def ncGencmd (cmd ver : UInt32) : Nc :=
  match ncFixed nc 20 with
  | (nc, false) => nc
  | (nc, true) =>
    { nc with mem := (nc.mem.store 16 [cmd.toUInt8]).store 17 [ver.toUInt8] }

/-! ### Attributes -/

/-- `nc_put_`: where the payload goes, if there is room for it. -/
def ncPut_ (key len : ℕ) : Nc × Option ℕ :=
  let full := u32 (4 + len)
  let need := u32 (full + 3) / 4 * 4
  let ret := nc.ptr
  let ptr := ret + need
  if ret > nc.size then (nc, none)
  else if ptr > nc.size then (nc.over, none)
  else if ptr < 16 then (nc, none)
  else
    let m := if need > full then nc.mem.store (ret + full / 4 * 4) (le 4 0) else nc.mem
    let m := m.put16 (ret + 2) key
    let m := m.put16 ret full
    ({ nc with mem := m, ptr := ptr }, some (ret + 4))

variable (key : ℕ)

def ncPut (data : List UInt8) : Nc :=
  match ncPut_ nc key data.length with
  | (nc, none) => nc
  | (nc, some dst) => { nc with mem := nc.mem.store dst data }

def ncPutInt (val : UInt32) : Nc :=
  match ncPut_ nc key 4 with
  | (nc, none) => nc
  | (nc, some dst) => { nc with mem := nc.mem.store dst (le 4 val.toNat) }

def ncPutByte (val : UInt8) : Nc :=
  match ncPut_ nc key 1 with
  | (nc, none) => nc
  | (nc, some dst) => { nc with mem := nc.mem.store dst [val] }

variable (s : List UInt8)

/-- `strnlen`, for a string given by the bytes before its terminator. -/
def strnlen (max : ℕ) : ℕ := ((s.take max).takeWhile (· ≠ 0)).length

/-- What `nc_put_str` copies: the string and its terminator, or the first 1025 bytes of a longer
one. -/
def strBytes (str : List UInt8) : List UInt8 := (str ++ [0]).take (strnlen str 1024 + 1)

def ncPutStr (str : List UInt8) : Nc :=
  match ncPut_ nc key (strnlen str 1024 + 1) with
  | (nc, none) => nc
  | (nc, some dst) => { nc with mem := nc.mem.store dst (strBytes str) }

def ncPutFlag : Nc := (ncPut_ nc key 0).1

def ncPutNest (type : ℕ) : Nc × Option ℕ :=
  let ret := nc.ptr
  let ptr := ret + 4
  if ret > nc.size then (nc, none)
  else if ptr > nc.size then (nc.over, none)
  else if ptr < 16 then (nc, none)
  else ({ nc with ptr := ptr, mem := nc.mem.put16 (ret + 2) type }, some ret)

/-- `nc_end_nest`; what is not in the buffer, `NULL` among it, is no nest. -/
def ncEndNest : Option ℕ → Nc
  | none => nc
  | some atp =>
    if atp > nc.ptr then nc
    else if atp + 4 > nc.ptr then nc
    else { nc with mem := nc.mem.put16 atp (nc.ptr - atp) }

/-! ### Sending -/

/-- Why a message is not sent: it did not fit, or has no header. -/
inductive SendError where
  | enobufs
  | einval
deriving DecidableEq

/-- `nc_send`, up to `sys_send`: what that is given, and the buffer with the length put in. -/
def ncSend : Except SendError (List UInt8) × Nc :=
  if nc.ptr > nc.size then (.error .enobufs, nc)
  else if 16 > nc.ptr then (.error .einval, nc)
  else
    let nc := { nc with mem := nc.mem.store 0 (le 4 nc.ptr) }
    (.ok (nc.mem.load 0 nc.ptr), nc)

/-! ### Calls -/

/-- A key, in the sixteen bits that there are for it. -/
abbrev AttrKey := Fin 65536

/-- A call that packs something, or calls with a nest around them. -/
inductive Call where
  | put (key : AttrKey) (data : List UInt8)
  | int (key : AttrKey) (val : UInt32)
  | byte (key : AttrKey) (val : UInt8)
  | str (key : AttrKey) (str : List UInt8)
  | flag (key : AttrKey)
  /-- `nc_put_nest`, some calls, and `nc_end_nest` for what was returned. -/
  | nest (key : AttrKey) (body : List Call)

mutual

/-- Make a call. -/
def call : Call → Nc → Nc
  | .put key data, nc => ncPut nc key data
  | .int key val, nc => ncPutInt nc key val
  | .byte key val, nc => ncPutByte nc key val
  | .str key s, nc => ncPutStr nc key s
  | .flag key, nc => ncPutFlag nc key
  | .nest key body, nc =>
    let r := ncPutNest nc key
    ncEndNest (calls body r.1) r.2

/-- Make calls, one after the other. -/
def calls : List Call → Nc → Nc
  | [], nc => nc
  | c :: cs, nc => calls cs (call c nc)

end

mutual

/-- The attribute a call is for. -/
def Call.attr : Call → Tlv
  | .put key data => .leaf key data
  | .int key val => .leaf key (le 4 val.toNat)
  | .byte key val => .leaf key [val]
  | .str key s => .leaf key (strBytes s)
  | .flag key => .leaf key []
  | .nest key body => .nest key (attrs body)

/-- The attributes calls are for. -/
def attrs : List Call → List Tlv
  | [] => []
  | c :: cs => c.attr :: attrs cs

end

/-- A single call, in no particular order with others: a nest may be left open, or closed at any
place. -/
inductive Op where
  | pack (c : Call)
  | open_ (key : AttrKey)
  | close (at_ : Option ℕ)

def Op.run : Op → Nc
  | .pack c => call c nc
  | .open_ key => (ncPutNest nc key).1
  | .close at_ => ncEndNest nc at_

/-- A request that is put together from its headers and calls. -/
def request (type flags seq cmd ver : UInt32) (cs : List Call) : Nc :=
  calls cs (ncGencmd (ncHeader nc type flags seq) cmd ver)

/-! ### Packing an attribute -/

lemma length_strBytes : (strBytes s).length = strnlen s 1024 + 1 := by
  have h1 := ( takeWhile_prefix (p := (· ≠ 0)) (l := s.take 1024)).length_le
  rw [length_take] at h1
  rw [strBytes, length_take, length_append, length_singleton, strnlen]
  omega

lemma ncPutInt_eq (val : UInt32) : ncPutInt nc key val = ncPut nc key (le 4 val.toNat) := by
  rw [ncPutInt, ncPut, length_le]

lemma ncPutByte_eq (val : UInt8) : ncPutByte nc key val = ncPut nc key [val] := by
  rw [ncPutByte, ncPut, length_singleton]

lemma ncPutStr_eq : ncPutStr nc key s = ncPut nc key (strBytes s) := by
  rw [ncPutStr, ncPut, length_strBytes]

lemma ncPutFlag_eq : ncPutFlag nc key = ncPut nc key [] := by
  rw [ncPutFlag, ncPut, length_nil]
  rcases ncPut_ nc key 0 with ⟨nc', _ | dst⟩
  · rfl
  · exact congrArg (fun m => Nc.mk m nc'.ptr nc'.size) (Mem.store_nil nc'.mem dst).symm

/-- The bytes of an attribute in the order they are written: padding, header and payload. -/
theorem store_attr (m : Mem) (a key : ℕ) (data : List UInt8) :
    (((if roundUp4 (4 + data.length) > 4 + data.length then
        m.store (a + (4 + data.length) / 4 * 4) (le 4 0) else m).put16 (a + 2) key).put16 a
        (4 + data.length)).store (a + 4) data =
      m.store a (le 2 (4 + data.length) ++ le 2 key ++ pad4 data) := by
  have hlen : (le 2 (4 + data.length) ++ le 2 key).length = 4 := by
    rw [length_append, length_le, length_le]
  have hbs : (le 2 (4 + data.length) ++ le 2 key ++ data).length = 4 + data.length := by
    rw [length_append, hlen]
  have hround := roundUp4_add_four data.length
  rw [add_comm data.length 4] at hround
  have happ : ∀ m' : Mem, (m'.store a (le 2 (4 + data.length) ++ le 2 key)).store (a + 4) data =
      m'.store a (le 2 (4 + data.length) ++ le 2 key ++ data) := by
    intro m'
    have h := Mem.store_append m' a (le 2 (4 + data.length) ++ le 2 key) data
    rwa [hlen] at h
  rw [Mem.put16_put16, happ, pad4, ← append_assoc]
  split
  · rename_i hgt
    have hk : (4 + data.length) / 4 * 4 ≤ 4 + data.length := by omega
    rw [Mem.store_over _ _ _ _ _ (by rw [hbs]; exact hk) (by rw [hbs, length_le]; omega), hbs]
    have hz : le 4 0 = replicate 4 (0 : UInt8) := by decide
    rw [hz, drop_replicate]
    congr 3
    rw [roundUp4] at hround hgt ⊢
    omega
  · rename_i hle
    have hle' := le_roundUp4 data.length
    have hzero : roundUp4 data.length - data.length = 0 := by omega
    rw [hzero, replicate_zero, append_nil]

/-- **What packing an attribute does**: nothing after an overflow, one more block if there is room
for it, and an overflow otherwise. -/
theorem ncPut_eq {nc : Nc} (h16 : 16 ≤ nc.ptr) (key : ℕ) {data : List UInt8}
    (hd : data.length ≤ 65531) :
    ncPut nc key data =
      if nc.ptr > nc.size then nc
      else if nc.ptr + (4 + roundUp4 data.length) > nc.size then nc.over
      else { nc with
        mem := nc.mem.store nc.ptr (le 2 (4 + data.length) ++ le 2 key ++ pad4 data)
        ptr := nc.ptr + (4 + roundUp4 data.length) } := by
  have hround := roundUp4_add_four data.length
  have hfull : u32 (4 + data.length) = 4 + data.length := u32_of_lt (by omega)
  have hneed : u32 (4 + data.length + 3) / 4 * 4 = roundUp4 (4 + data.length) := by
    rw [u32_of_lt (by omega), roundUp4]
  have hfour : roundUp4 (4 + data.length) = 4 + roundUp4 data.length := by
    rw [add_comm 4, hround, add_comm]
  by_cases h1 : nc.ptr > nc.size
  · rw [if_pos h1, ncPut, ncPut_, if_pos h1]
  · rw [if_neg h1]
    by_cases h2 : nc.ptr + (4 + roundUp4 data.length) > nc.size
    · rw [if_pos h2, ncPut, ncPut_]
      rw [if_neg h1, hfull, hneed, hfour, if_pos h2]
    · rw [if_neg h2, ncPut, ncPut_]
      dsimp only
      rw [if_neg h1, hfull, hneed, hfour, if_neg h2, if_neg (by omega)]
      dsimp only
      rw [← hfour, store_attr]

end Minibase.Netlink
