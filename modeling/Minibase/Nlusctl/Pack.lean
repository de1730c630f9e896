import Minibase.Lib.Memory
import Minibase.Lib.CInt

/-!
# Packing a control message

The sending half of `nlusctl`: a `struct ucbuf` is a buffer with a capacity, and the length of the
message so far is the first 16-bit field of its header, `msg->len`. A packing call that does not fit
sets that field to zero, and the zero is meant to stay. The buffer is an explicit `Mem` seen from
`uc->buf`: nothing stops the functions from writing past `uc->len`. A `struct ucattr*` is the offset
of the attribute in the buffer, with `none` for `NULL`.

Every wrapper of `uc_put` is reduced to `Nlusctl.ucPutData`, which does nothing on an overflowed
buffer, appends when the attribute fits, and sets the overflow mark otherwise
(`Nlusctl.ucPutData_cases`).
-/

namespace Minibase.Nlusctl

open List Mem

/-- `struct ucbuf`: the memory seen from `uc->buf`, and the capacity `uc->len`. -/
structure Ucbuf where
  /-- The memory, address `0` being `uc->buf`. -/
  mem : Mem
  /-- The capacity. -/
  len : ℤ

namespace Ucbuf

/-- `msg->len`, the length of the message so far; zero marks an overflow. -/
def msgLen (uc : Ucbuf) : ℕ := uc.mem.get16 0

/-- Assign `msg->len`. -/
def setMsgLen (uc : Ucbuf) (v : ℤ) : Ucbuf := { uc with mem := uc.mem.put16 0 (u16 v) }

@[simp] lemma len_setMsgLen (uc : Ucbuf) (v : ℤ) : (uc.setMsgLen v).len = uc.len := rfl

@[simp] lemma msgLen_setMsgLen (uc : Ucbuf) (v : ℤ) : (uc.setMsgLen v).msgLen = u16 v := by
  have h := u16_lt v
  rw [msgLen, setMsgLen, get16_put16, Nat.mod_eq_of_lt h]

lemma msgLen_lt (uc : Ucbuf) : uc.msgLen < 65536 := get16_lt _ _

end Ucbuf

/-! ### The packing functions -/

/-- `uc_put_hdr`: start a message, over whatever was there. -/
def ucPutHdr (uc : Ucbuf) (cmd : ℤ) : Ucbuf :=
  { uc with mem := (uc.mem.put16 2 (u16 cmd)).put16 0 4 }

/-- `uc_put`: append the header of an attribute of indicated length `len`, with
`alloc` bytes of room for its payload. -/
def ucPut (uc : Ucbuf) (key len alloc : ℤ) : Ucbuf × Option ℕ :=
  let cap := uc.len
  let full := i32 (4 + alloc)
  let ptr := uc.msgLen
  let new := i32 (ptr + full)
  if ptr = 0 then (uc, none)
  else if full > cap then (uc.setMsgLen 0, none)
  else if new ≤ 0 then (uc.setMsgLen 0, none)
  else if new > 0xFFFF then (uc.setMsgLen 0, none)
  else if new > cap then (uc.setMsgLen 0, none)
  else
    let uc := uc.setMsgLen new
    ({ uc with mem := (uc.mem.put16 (ptr + 2) (u16 key)).put16 ptr (u16 (len + 4)) }, some ptr)

/-- What every wrapper of `uc_put` does with the attribute it gets: nothing if
there is none, and else it writes to the payload. -/
def withPayload (r : Ucbuf × Option ℕ) (fill : Mem → ℕ → Mem) : Ucbuf :=
  match r with
  | (uc, none) => uc
  | (uc, some at_) => { uc with mem := fill uc.mem (at_ + 4) }

def ucPutFlag (uc : Ucbuf) (key : ℤ) : Ucbuf := (ucPut uc key 0 0).1

def ucPutInt (uc : Ucbuf) (key : ℤ) (v : BitVec 32) : Ucbuf :=
  withPayload (ucPut uc key 4 4) fun m dst => m.store dst (le 4 v.toNat)

def ucPutI64 (uc : Ucbuf) (key : ℤ) (v : BitVec 64) : Ucbuf :=
  withPayload (ucPut uc key 8 8) fun m dst => m.store dst (le 8 v.toNat)

/-- `uc_put_bin`: the payload is copied from `src`, and its padding zeroed
beforehand, a whole word at a time. -/
def ucPutBin (uc : Ucbuf) (key : ℤ) (src : List UInt8) : Ucbuf :=
  let len : ℤ := src.length
  let alloc := align4 len
  withPayload (ucPut uc key len alloc) fun m dst =>
    let m := if alloc > len then m.store (dst + (len - len % 4).toNat) [0, 0, 0, 0] else m
    m.store dst src

/-- `strnlen`, for a string given by the bytes at the pointer; the end of the
list stands for the terminator. -/
def strnlen (s : List UInt8) (max : ℕ) : ℕ := ((s.take max).takeWhile (· ≠ 0)).length

variable (str : List UInt8)

/-- The bytes `uc_put_str` takes from its argument: the string with its
terminator, or the first 1024 bytes of a longer one without. -/
def strPayload : List UInt8 :=
  let max := 1024
  let len := strnlen str max
  (str ++ [0]).take (if len < max then len + 1 else len)

def ucPutStr (uc : Ucbuf) (key : ℤ) (str : List UInt8) : Ucbuf :=
  ucPutBin uc key (strPayload str)

def ucPutStrn (uc : Ucbuf) (key : ℤ) (src : List UInt8) (max : ℕ) : Ucbuf :=
  let len := strnlen src max
  let lenz := i32 (len + 1)
  let alloc := align4 lenz
  withPayload (ucPut uc key lenz alloc) fun m dst =>
    let m := if alloc > len then m.store (dst + (len - len % 4)) [0, 0, 0, 0] else m
    let m := m.store dst (src.take len)
    m.store (dst + len) [0]

/-- `uc_put_tail`: the header of an attribute whose payload is sent from
elsewhere. -/
def ucPutTail (uc : Ucbuf) (key : ℤ) (paylen : ℕ) : Ucbuf := (ucPut uc key paylen 0).1

def ucPutNest (uc : Ucbuf) (key : ℤ) : Ucbuf × Option ℕ := ucPut uc key 0 0

/-- `uc_end_nest`: patch the length of the attribute that `uc_put_nest`
returned. -/
def ucEndNest (uc : Ucbuf) : Option ℕ → Ucbuf
  | none => uc
  | some atp =>
    let ptr := uc.msgLen
    if (atp : ℤ) ≥ uc.len then uc
    else if atp ≥ ptr then uc
    else { uc with mem := uc.mem.put16 atp (ptr - atp) }

def ucPutStrs (uc : Ucbuf) (key : ℤ) : Ucbuf × Option ℕ := ucPut uc key 0 0

/-- The bytes `uc_add_str` copies: the string with its terminator, or 1025 bytes
of a longer one. -/
def addStrBytes : List UInt8 := (str ++ [0]).take (strnlen str 1024 + 1)

def ucAddStr (uc : Ucbuf) (str : List UInt8) : Ucbuf :=
  let cap := uc.len
  let ptr := uc.msgLen
  let bytes := addStrBytes str
  let len := bytes.length
  if (ptr + len : ℤ) > cap then uc.setMsgLen 0
  else { uc with mem := uc.mem.store ptr bytes }.setMsgLen (ptr + len)

/-- `uc_end_strs`: patch the length of the attribute and pad the message. -/
def ucEndStrs (uc : Ucbuf) : Option ℕ → Ucbuf
  | none => uc
  | some ats =>
    let ptr := uc.msgLen
    let len : ℤ := (ptr : ℤ) - ats
    if len < 4 then uc
    else
      let uc := { uc with mem := uc.mem.put16 ats (u16 len) }
      let ptr := roundUp4 ptr
      if (ptr : ℤ) > uc.len then uc.setMsgLen 0
      else uc.setMsgLen ptr

/-- The error code of a message that did not fit. -/
def ENOBUFS : ℤ := 105

/-- `struct iovec`, with an offset into the buffer for its base. -/
structure Iov where
  /-- Where the bytes start. -/
  base : ℕ
  /-- How many there are. -/
  len : ℕ
  deriving DecidableEq, Repr

/-- `uc_iov_hdr`: what to transmit, all of the message but its length field. -/
def ucIovHdr (uc : Ucbuf) : Except ℤ Iov :=
  let cap := uc.len
  if cap < 4 then .error (-ENOBUFS)
  else
    let len := uc.msgLen
    if len < 4 then .error (-ENOBUFS)
    else .ok { base := 2, len := len - 2 }

/-- `uc_send`, over a parameter for the system call. -/
def ucSend (uc : Ucbuf) (sendmsg : List UInt8 → ℤ) : ℤ :=
  match ucIovHdr uc with
  | .error ret => ret
  | .ok iov => sendmsg (uc.mem.load iov.base iov.len)

/-! ### The capacity is a constant -/

@[simp] lemma len_ucPutHdr (uc : Ucbuf) (cmd : ℤ) : (ucPutHdr uc cmd).len = uc.len := rfl

@[simp] lemma len_ucPut (uc : Ucbuf) (key len alloc : ℤ) :
    (ucPut uc key len alloc).1.len = uc.len := by
  simp only [ucPut]
  split_ifs <;> rfl

@[simp] lemma len_withPayload (r : Ucbuf × Option ℕ) (fill : Mem → ℕ → Mem) :
    (withPayload r fill).len = r.1.len := by
  rcases r with ⟨uc, _ | at_⟩ <;> rfl

@[simp] lemma len_ucEndNest (uc : Ucbuf) (at_ : Option ℕ) : (ucEndNest uc at_).len = uc.len := by
  cases at_ with
  | none => rfl
  | some atp =>
    simp only [ucEndNest]
    split_ifs <;> rfl

/-! ### Reserving room and filling it -/

/-- The room an attribute with `n` bytes of payload space needs is there. -/
def Room (uc : Ucbuf) (n : ℕ) : Prop := uc.msgLen + n ≤ 0xFFFF ∧ (uc.msgLen + n : ℤ) ≤ uc.len
deriving Decidable

/-- The header of an attribute. -/
def header (key len : ℤ) : List UInt8 := le 2 (u16 (len + 4)) ++ le 2 (u16 key)

@[simp] lemma length_header (key len : ℤ) : (header key len).length = 4 := by simp [header]

/-- Let the message grow by `n` bytes, the first of which are `bs`. -/
def grow (uc : Ucbuf) (n : ℕ) (bs : List UInt8) : Ucbuf :=
  { uc with mem := (uc.mem.put16 0 (uc.msgLen + n)).store uc.msgLen bs }

@[simp] lemma len_grow (uc : Ucbuf) (n : ℕ) (bs : List UInt8) : (grow uc n bs).len = uc.len := rfl

/-- **`uc_put`, in one line each**: skip, append the header, or mark the
overflow. The room is computed without wrap-around, whatever the 32-bit sums
did. -/
theorem ucPut_cases (uc : Ucbuf) (key len : ℤ) {alloc : ℕ} (ha : alloc ≤ 2147483648) :
    ucPut uc key len (i32 alloc) =
      if uc.msgLen = 0 then (uc, none)
      else if Room uc (4 + alloc) then (grow uc (4 + alloc) (header key len), some uc.msgLen)
      else (uc.setMsgLen 0, none) := by
  have hlt := uc.msgLen_lt
  by_cases h0 : uc.msgLen = 0
  · simp [ucPut, h0]
  rw [if_neg h0]
  by_cases hr : Room uc (4 + alloc)
  · obtain ⟨h1, h2⟩ := hr
    have hfull : i32 (4 + i32 alloc) = 4 + alloc := by
      unfold i32
      omega
    have hnew : i32 (uc.msgLen + (4 + alloc)) = uc.msgLen + (4 + alloc) := by
      unfold i32
      omega
    have hu : u16 (uc.msgLen + (4 + alloc) : ℤ) = uc.msgLen + (4 + alloc) := by
      unfold u16
      omega
    simp only [ucPut, hfull, hnew]
    rw [if_neg h0, if_neg (by omega), if_neg (by omega), if_neg (by omega), if_neg (by omega),
      if_pos ⟨h1, h2⟩]
    simp only [Ucbuf.setMsgLen, grow, hu, header]
    rw [put16_put16]
  · rw [if_neg hr]
    have hr' : ¬(uc.msgLen + (4 + alloc) ≤ 0xFFFF ∧ (uc.msgLen + (4 + alloc) : ℤ) ≤ uc.len) := by
      simpa [Room] using hr
    simp only [ucPut]
    rw [if_neg h0]
    split_ifs with h1 h2 h3 h4 <;> try rfl
    exfalso
    unfold i32 at h1 h2 h3 h4
    omega

/-- **Reserve room and fill all of it**: what every wrapper of `uc_put` comes
to. The indicated length is `len`, the room is that of `data`. -/
def ucPutData (uc : Ucbuf) (key len : ℤ) (data : List UInt8) : Ucbuf :=
  withPayload (ucPut uc key len (i32 data.length)) fun m dst => m.store dst data

/-- **What a wrapper of `uc_put` does**: nothing on an overflowed message, one
append if there is room, and the overflow mark otherwise. -/
theorem ucPutData_cases (uc : Ucbuf) (key len : ℤ) {data : List UInt8}
    (hd : data.length ≤ 2147483648) :
    ucPutData uc key len data =
      if uc.msgLen = 0 then uc
      else if Room uc (4 + data.length) then grow uc (4 + data.length) (header key len ++ data)
      else uc.setMsgLen 0 := by
  rw [ucPutData, ucPut_cases uc key len hd]
  by_cases h0 : uc.msgLen = 0
  · simp [h0, withPayload]
  rw [if_neg h0, if_neg h0]
  by_cases hr : Room uc (4 + data.length)
  · rw [if_pos hr, if_pos hr]
    simp only [withPayload, grow]
    rw [← store_append, length_header]
  · rw [if_neg hr, if_neg hr]
    rfl

variable {uc : Ucbuf}

/-- Two ways of filling the payload agree if they do whenever there is room. -/
theorem withPayload_congr {key len len' : ℤ} {alloc : ℕ}
    {f g : Mem → ℕ → Mem} (ha : alloc ≤ 2147483648)
    (h : Room uc (4 + alloc) → len = len' ∧ ∀ m dst, f m dst = g m dst) :
    withPayload (ucPut uc key len (i32 alloc)) f = withPayload
    (ucPut uc key len' (i32 alloc)) g := by
  rw [ucPut_cases uc key len ha, ucPut_cases uc key len' ha]
  by_cases h0 : uc.msgLen = 0
  · simp [h0, withPayload]
  rw [if_neg h0, if_neg h0]
  by_cases hr : Room uc (4 + alloc)
  · obtain ⟨rfl, hfg⟩ := h hr
    rw [if_pos hr]
    simp only [withPayload, hfg]
  · rw [if_neg hr, if_neg hr]
    rfl

lemma ucPutFlag_eq (uc : Ucbuf) (key : ℤ) : ucPutFlag uc key = ucPutData uc key 0 [] := by
  simp only [ucPutFlag, ucPutData, withPayload, length_nil, store_nil]
  change (ucPut uc key 0 0).1 = match ucPut uc key 0 0 with
    | (uc, none) => uc
    | (uc, some _) => uc
  rcases ucPut uc key 0 0 with ⟨uc', _ | at_⟩ <;> rfl

lemma ucPutTail_eq (uc : Ucbuf) (key : ℤ) (paylen : ℕ) :
    ucPutTail uc key paylen = ucPutData uc key paylen [] := by
  simp only [ucPutTail, ucPutData, withPayload, length_nil, store_nil]
  change (ucPut uc key paylen 0).1 = match ucPut uc key paylen 0 with
    | (uc, none) => uc
    | (uc, some _) => uc
  rcases ucPut uc key paylen 0 with ⟨uc', _ | at_⟩ <;> rfl

lemma ucPutInt_eq (uc : Ucbuf) (key : ℤ) (v : BitVec 32) :
    ucPutInt uc key v = ucPutData uc key 4 (le 4 v.toNat) := by
  rw [ucPutInt, ucPutData, length_le]
  rfl

lemma ucPutI64_eq (uc : Ucbuf) (key : ℤ) (v : BitVec 64) :
    ucPutI64 uc key v = ucPutData uc key 8 (le 8 v.toNat) := by
  rw [ucPutI64, ucPutData, length_le]
  rfl

/-- Zeroing the word at the end of a block and then writing the block pads it. -/
theorem store_zero_word (m : Mem) (a k : ℕ) (bs : List UInt8) (h1 : k ≤ bs.length)
    (h2 : roundUp4 bs.length = k + 4) :
    (m.store (a + k) [0, 0, 0, 0]).store a bs = m.store a (pad4 bs) := by
  have hle := le_roundUp4 bs.length
  have hz : ([0, 0, 0, 0] : List UInt8) = replicate 4 0 := rfl
  rw [store_over m a k bs _ h1 (by simp only [length_cons, length_nil]; omega), pad4,
    hz, drop_replicate]
  congr 3
  omega

lemma ucPutBin_eq (uc : Ucbuf) (key : ℤ) {src : List UInt8} (hs : src.length < 2147483648) :
    ucPutBin uc key src = ucPutData uc key src.length (pad4 src) := by
  simp only [ucPutBin, ucPutData, align4_natCast, length_pad4]
  refine withPayload_congr (by unfold roundUp4; omega) fun hr => ⟨rfl, fun m dst => ?_⟩
  have hle := le_roundUp4 src.length
  have hroom : uc.msgLen + (4 + roundUp4 src.length) ≤ 0xFFFF := hr.1
  have hi : i32 (roundUp4 src.length) = roundUp4 src.length := i32_of_range (by omega) (by omega)
  rw [hi]
  split_ifs with hgt
  · -- some padding: the last word of the room is the one that is zeroed
    have hk : ((src.length : ℤ) - (src.length : ℤ) % 4).toNat = src.length - src.length % 4 := by
      omega
    rw [hk]
    refine store_zero_word m dst _ src (Nat.sub_le _ _) ?_
    unfold roundUp4 at hgt ⊢
    omega
  · have he : roundUp4 src.length = src.length := by omega
    simp [pad4, he]

/-- The bytes `uc_put_strn` takes from its argument, terminator included. -/
def strnPayload (src : List UInt8) (max : ℕ) : List UInt8 := src.take (strnlen src max) ++ [0]

lemma strnlen_le (s : List UInt8) (max : ℕ) : strnlen s max ≤ s.length ∧ strnlen s max ≤ max := by
  have h := ( takeWhile_prefix (p := (· ≠ 0)) (l := s.take max)).length_le
  rw [length_take] at h
  rw [strnlen]
  omega

lemma length_strnPayload (src : List UInt8) (max : ℕ) :
    (strnPayload src max).length = strnlen src max + 1 := by
  have h := strnlen_le src max
  rw [strnPayload, length_append, length_take, length_singleton]
  omega

lemma ucPutStrn_eq (uc : Ucbuf) (key : ℤ) (src : List UInt8) {max : ℕ} (hm : max < 2147483648) :
    ucPutStrn uc key src max =
      ucPutData uc key (strnPayload src max).length (pad4 (strnPayload src max)) := by
  have hl := strnlen_le src max
  have hp := length_strnPayload src max
  have ha : align4 (i32 (strnlen src max + 1)) = i32 (roundUp4 (strnlen src max + 1)) := by
    unfold align4 i32 roundUp4
    omega
  simp only [ucPutStrn, ucPutData, ha, length_pad4, hp]
  refine withPayload_congr (by unfold roundUp4; omega) fun hr => ?_
  have hle := le_roundUp4 (strnlen src max + 1)
  have hroom : uc.msgLen + (4 + roundUp4 (strnlen src max + 1)) ≤ 0xFFFF := hr.1
  have hi : i32 (roundUp4 (strnlen src max + 1)) = roundUp4 (strnlen src max + 1) :=
    i32_of_range (by omega) (by omega)
  refine ⟨by rw [i32_of_range (by omega) (by omega)]; push_cast; rfl, fun m dst => ?_⟩
  have htake : (src.take (strnlen src max)).length = strnlen src max := by
    rw [length_take]
    omega
  rw [hi, if_pos (by omega)]
  have happ := store_append (m.store (dst + (strnlen src max - strnlen src max % 4))
    [0, 0, 0, 0]) dst (src.take (strnlen src max)) [0]
  rw [htake] at happ
  rw [happ]
  refine store_zero_word m dst _ (strnPayload src max) (by rw [hp]; omega) ?_
  rw [hp]
  unfold roundUp4
  omega

lemma length_strPayload_lt : (strPayload str).length < 2147483648 := by
  have h := strnlen_le str 1024
  rw [strPayload, length_take]
  split <;> omega

/-! ### What packing leaves in the buffer -/

/-- **The message grew by `bs`, at `p`, and nothing else changed** but its length
field. -/
structure Packed (m m' : Mem) (p : ℕ) (bs : List UInt8) : Prop where
  /-- The length field is up to date. -/
  len : m'.get16 0 = p + bs.length
  /-- The block is there. -/
  holds : m'.Holds p bs
  /-- The rest is as it was. -/
  rest : ∀ i, 2 ≤ i → (i < p ∨ p + bs.length ≤ i) → m' i = m i

lemma Packed.trans {m m₁ m₂ : Mem} {p : ℕ} {bs cs : List UInt8} (hp : 2 ≤ p)
    (h₁ : Packed m m₁ p bs) (h₂ : Packed m₁ m₂ (p + bs.length) cs) :
    Packed m m₂ p (bs ++ cs) where
  len := by rw [h₂.len, length_append, add_assoc]
  holds := holds_append.mpr
    ⟨h₁.holds.congr fun i hi hi' => h₂.rest i (by omega) (by omega), h₂.holds⟩
  rest i hi hi' := by
    rw [length_append] at hi'
    rw [h₂.rest i hi (by omega), h₁.rest i hi (by omega)]

/-- A packed block whose first field is patched in place. -/
theorem Packed.patch {m m' : Mem} {p v w : ℕ} {bs : List UInt8} (hp : 2 ≤ p)
    (h : Packed m m' p (le 2 v ++ bs)) : Packed m (m'.put16 p w) p (le 2 w ++ bs) where
  len := by
    have hlen := h.len
    simp only [length_append, length_le] at hlen ⊢
    rw [← hlen]
    exact get16_congr (put16_of_not_mem (by omega)) (put16_of_not_mem (by omega))
  holds := by
    have htail := (holds_append.mp h.holds).2
    rw [length_le] at htail
    refine holds_append.mpr ⟨holds_store m' p (le 2 w), ?_⟩
    rw [length_le]
    exact htail.put16 (.inl (le_refl _))
  rest i hi hi' := by
    simp only [length_append, length_le] at hi'
    rw [put16_of_not_mem (by omega),
      h.rest i hi (by simp only [length_append, length_le]; omega)]

/-- The message has a header, and is inside the buffer. -/
def Ready (uc : Ucbuf) : Prop := 4 ≤ uc.msgLen ∧ (uc.msgLen : ℤ) ≤ uc.len

lemma Ready.room_zero (h : Ready uc) : Room uc 0 :=
  ⟨by have := uc.msgLen_lt; omega, by have := h.2; omega⟩

lemma Room.mono {n k : ℕ} (h : Room uc n) (hk : k ≤ n) : Room uc k :=
  ⟨by have := h.1; omega, by have := h.2; omega⟩

/-- Growing the message by a block, when there is room. -/
theorem packed_grow {bs : List UInt8} (hr : Ready uc) (hroom : Room uc bs.length) :
    Packed uc.mem (grow uc bs.length bs).mem uc.msgLen bs := by
  have h4 := hr.1
  have hle : uc.msgLen + bs.length ≤ 0xFFFF := hroom.1
  refine ⟨?_, holds_store _ _ _, fun i hi hi' => ?_⟩
  · have hget : (grow uc bs.length bs).mem.get16 0
        = (uc.mem.put16 0 (uc.msgLen + bs.length)).get16 0 :=
      get16_congr (store_of_not_mem (by omega)) (store_of_not_mem (by omega))
    rw [hget, get16_put16]
    omega
  · change ((uc.mem.put16 0 (uc.msgLen + bs.length)).store uc.msgLen bs) i = uc.mem i
    rw [store_of_not_mem hi', put16_of_not_mem (by omega)]

/-! ### An overflowed message is left alone -/

lemma ucPut_of_zero (h0 : uc.msgLen = 0) (key len alloc : ℤ) :
    ucPut uc key len alloc = (uc, none) := by
  simp [ucPut, h0]

lemma withPayload_of_zero (h0 : uc.msgLen = 0) (key len alloc : ℤ)
    (fill : Mem → ℕ → Mem) : withPayload (ucPut uc key len alloc) fill = uc := by
  rw [ucPut_of_zero h0]
  rfl

/-- Opening a nest packs a header with the length of an empty attribute. -/
theorem ucPutNest_eq (uc : Ucbuf) (key : ℤ) :
    ucPutNest uc key =
      (ucPutData uc key 0 [], if uc.msgLen = 0 ∨ ¬Room uc 4 then none else some uc.msgLen) := by
  have h : ucPutNest uc key = ucPut uc key 0 (i32 (0 : ℕ)) := rfl
  rw [h, ucPut_cases uc key 0 (by omega), ucPutData_cases uc key 0 (by simp)]
  by_cases h0 : uc.msgLen = 0
  · simp [h0]
  by_cases hr : Room uc 4
  · simp [h0, hr]
  · simp [h0, hr]

end Minibase.Nlusctl
