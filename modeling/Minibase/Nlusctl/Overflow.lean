import Minibase.Nlusctl.Pack

/-!
# The overflow mark

A packing call that does not fit leaves `msg->len = 0` behind, and the sender relies on that zero to
last until it asks once, in `uc_iov_hdr`. So the calls are taken here in any order and number, with
no nesting discipline: the pointer passed to `uc_end_nest` or `uc_end_strs` is any of those returned
so far (`Nlusctl.Op`, `Nlusctl.step`). The standard to compare with is the *image*
(`Nlusctl.imgStep`), a list of bytes that only ever grows, with holes for the padding that
`uc_end_strs` never writes. `Nlusctl.packing_sound`: if some call did not fit, the message is
refused from then on; if the message is accepted, it is the image; and the memory beyond the
capacity is never touched.

It holds under a condition on the calls, `Nlusctl.Clean`, because `uc_add_str` does not look for the
overflow mark, and overwrites it; and it does not compare the new length with the 16-bit field it is
stored in. Besides, the capacity has to hold a message header, which `uc_put_hdr` takes for granted,
and the length indicated for a payload that is sent from elsewhere has to leave the message below
65536 bytes.
-/

namespace Minibase.Nlusctl

open List Option Mem

/-! ### Packing calls in any order -/

/-- A call of `uc_put` or of one of its wrappers. -/
inductive Put where
  /-- `uc_put`, with the room that it reserves filled by the caller -/
  | put (key : ℤ) (len : Fin 2147483648) (data : List UInt8) (h : data.length < 2147483648) : Put
  /-- `uc_put_flag` -/
  | flag (key : ℤ) : Put
  /-- `uc_put_int` -/
  | int (key : ℤ) (v : BitVec 32) : Put
  /-- `uc_put_i64` -/
  | i64 (key : ℤ) (v : BitVec 64) : Put
  /-- `uc_put_bin` -/
  | bin (key : ℤ) (src : List UInt8) (h : src.length < 2147483648) : Put
  /-- `uc_put_str` -/
  | str (key : ℤ) (s : List UInt8) : Put
  /-- `uc_put_strn` -/
  | strn (key : ℤ) (src : List UInt8) (max : Fin 2147483648) : Put
  /-- `uc_put_tail` -/
  | tail (key : ℤ) (paylen : Fin 2147483648) : Put
  /-- `uc_put_nest` -/
  | nest (key : ℤ) : Put
  /-- `uc_put_strs` -/
  | strs (key : ℤ) : Put

/-- A packing call. The pointer that closing a nest or an array of strings takes is
one that an earlier call returned, counted from the latest one. -/
inductive Op where
  /-- `uc_put` or one of its wrappers -/
  | put (p : Put) : Op
  /-- `uc_end_nest` -/
  | endNest (i : ℕ) : Op
  /-- `uc_add_str` -/
  | addStr (s : List UInt8) : Op
  /-- `uc_end_strs` -/
  | endStrs (i : ℕ) : Op

/-- A buffer being packed, and the pointers the caller has got. -/
structure Packer where
  /-- The buffer. -/
  uc : Ucbuf
  /-- The pointers returned so far, latest first. -/
  ats : List (Option ℕ)

/-- The pointer the caller means. -/
def pick (ats : List (Option ℕ)) (i : ℕ) : Option ℕ := ats.getD i none

/-- Make a call of `uc_put` or of one of its wrappers. -/
def stepPut (s : Packer) : Put → Packer
  | .put key len data _ =>
    { s with uc := withPayload (ucPut s.uc key len.val data.length) fun m dst => m.store dst data }
  | .flag key => { s with uc := ucPutFlag s.uc key }
  | .int key v => { s with uc := ucPutInt s.uc key v }
  | .i64 key v => { s with uc := ucPutI64 s.uc key v }
  | .bin key src _ => { s with uc := ucPutBin s.uc key src }
  | .str key str => { s with uc := ucPutStr s.uc key str }
  | .strn key src max => { s with uc := ucPutStrn s.uc key src max }
  | .tail key paylen => { s with uc := ucPutTail s.uc key paylen }
  | .nest key =>
    let r := ucPutNest s.uc key
    { uc := r.1, ats := r.2 :: s.ats }
  | .strs key =>
    let r := ucPutStrs s.uc key
    { uc := r.1, ats := r.2 :: s.ats }

/-- Make a call. -/
def step (s : Packer) : Op → Packer
  | .put p => stepPut s p
  | .endNest i => { s with uc := ucEndNest s.uc (pick s.ats i) }
  | .addStr str => { s with uc := ucAddStr s.uc str }
  | .endStrs i => { s with uc := ucEndStrs s.uc (pick s.ats i) }

/-- Make a sequence of calls. -/
def run (s : Packer) (ops : List Op) : Packer := ops.foldl step s

/-- The packer that `uc_put_hdr` starts. -/
def start (uc : Ucbuf) (cmd : ℤ) : Packer := { uc := ucPutHdr uc cmd, ats := [] }

/-! ### The image: a packer without limits -/

namespace Put

/-- The key of the attribute. -/
def key : Put → ℤ
  | .put k _ _ _ | .flag k | .int k _ | .i64 k _ | .bin k _ _ | .str k _ | .strn k _ _
  | .tail k _ | .nest k | .strs k => k

/-- The length indicated for the payload. -/
def len : Put → ℕ
  | .put _ l _ _ => l
  | .flag _ => 0
  | .int _ _ => 4
  | .i64 _ _ => 8
  | .bin _ src _ => src.length
  | .str _ s => (strPayload s).length
  | .strn _ src max => (strnPayload src max).length
  | .tail _ paylen => paylen
  | .nest _ => 0
  | .strs _ => 0

/-- The bytes that go into the buffer behind the header. -/
def data : Put → List UInt8
  | .put _ _ d _ => d
  | .flag _ => []
  | .int _ v => le 4 v.toNat
  | .i64 _ v => le 8 v.toNat
  | .bin _ src _ => pad4 src
  | .str _ s => pad4 (strPayload s)
  | .strn _ src max => pad4 (strnPayload src max)
  | .tail _ _ => []
  | .nest _ => []
  | .strs _ => []

/-- Whether the caller keeps the pointer. -/
def opens : Put → Bool
  | .nest _ => true
  | .strs _ => true
  | _ => false

/-- All the bytes of the attribute that go into the buffer. -/
def bytes (p : Put) : List UInt8 := header p.key p.len ++ p.data

end Put

/-- The image of a message: its bytes, with holes for those nobody writes, and
where the pointers handed out point to. -/
structure Img where
  /-- The bytes. -/
  bytes : List (Option UInt8)
  /-- The pointers, latest first. -/
  ats : List (Option ℕ)

/-- Overwrite part of an image. -/
def patch (l : List (Option UInt8)) (a : ℕ) (bs : List UInt8) : List (Option UInt8) :=
  l.take a ++ bs.map some ++ l.drop (a + bs.length)

/-- What a call does to the image. -/
def imgStep (g : Img) : Op → Img
  | .put p =>
    { bytes := g.bytes ++ p.bytes.map some
      ats := if p.opens then some g.bytes.length :: g.ats else g.ats }
  | .endNest i =>
    match pick g.ats i with
    | none => g
    | some a => { g with bytes := patch g.bytes a (le 2 (g.bytes.length - a)) }
  | .addStr s => { g with bytes := g.bytes ++ (addStrBytes s).map some }
  | .endStrs i =>
    match pick g.ats i with
    | none => g
    | some a =>
      { g with bytes := patch g.bytes a (le 2 (g.bytes.length - a)) ++
          replicate (roundUp4 g.bytes.length - g.bytes.length) none }

/-- The image of a header. -/
def imgStart (cmd : ℤ) : Img :=
  { bytes := [none, none] ++ (le 2 (u16 cmd)).map some, ats := [] }

/-- The image of a message. -/
def image (cmd : ℤ) (ops : List Op) : Img := ops.foldl imgStep (imgStart cmd)

/-! ### What fits, and what the code can handle -/

/-- **The call fits**: the buffer has room for it, and the message stays below
65536 bytes – those of a payload that is sent from elsewhere included. -/
def Fits (s : Packer) : Op → Prop
  | .put p => Room s.uc (4 + p.data.length) ∧ s.uc.msgLen + (4 + p.len) ≤ 0xFFFF
  | .endNest _ => True
  | .addStr str => Room s.uc (addStrBytes str).length
  | .endStrs i => (pick s.ats i).isSome → Room s.uc (roundUp4 s.uc.msgLen - s.uc.msgLen)

/-- **The condition on a call**, in the state it is made in: a payload sent from
elsewhere does not take the message past 65535 bytes if its header fits, and
`uc_add_str` is called on a message that has not overflowed, and does not take it
past 65536 bytes if the string fits in the buffer. -/
def Clean (s : Packer) : Op → Prop
  | .put p => s.uc.msgLen = 0 ∨ ¬Room s.uc (4 + p.data.length) ∨ s.uc.msgLen + (4 + p.len) ≤ 0xFFFF
  | .addStr str => s.uc.msgLen ≠ 0 ∧
    (s.uc.msgLen + (addStrBytes str).length ≤ 0x10000 ∨
      (s.uc.msgLen + (addStrBytes str).length : ℤ) > s.uc.len)
  | _ => True

instance (s : Packer) : (op : Op) → Decidable (Fits s op)
  | .put _ => inferInstanceAs (Decidable (_ ∧ _))
  | .endNest _ => inferInstanceAs (Decidable True)
  | .addStr str => inferInstanceAs (Decidable (Room s.uc (addStrBytes str).length))
  | .endStrs _ => inferInstanceAs (Decidable (_ → _))

instance (s : Packer) : (op : Op) → Decidable (Clean s op)
  | .put _ => inferInstanceAs (Decidable (_ ∨ _))
  | .endNest _ => inferInstanceAs (Decidable True)
  | .addStr _ => inferInstanceAs (Decidable (_ ∧ _))
  | .endStrs _ => inferInstanceAs (Decidable True)

/-- The condition on every call of a sequence. -/
def CleanRun : Packer → List Op → Prop
  | _, [] => True
  | s, op :: ops => Clean s op ∧ CleanRun (step s op) ops

instance : (s : Packer) → (ops : List Op) → Decidable (CleanRun s ops)
  | _, [] => inferInstanceAs (Decidable True)
  | s, op :: ops =>
    have : Decidable (CleanRun (step s op) ops) := instDecidableCleanRun (step s op) ops
    inferInstanceAs (Decidable (Clean s op ∧ CleanRun (step s op) ops))

/-! ### Wrappers of `uc_put`, all at once -/

lemma Put.length_data_le (p : Put) : p.data.length ≤ 2147483648 := by
  have hpad : ∀ {p : List UInt8}, p.length ≤ 2147483648 → (pad4 p).length ≤ 2147483648 := by
    intro p hp
    rw [length_pad4]
    unfold roundUp4
    omega
  cases p with
  | put k l d hd => exact le_of_lt hd
  | bin k src hs => exact hpad (le_of_lt hs)
  | str k str => exact hpad (le_of_lt (length_strPayload_lt str))
  | strn k src max =>
    have h1 := strnlen_le src max
    have h2 := max.isLt
    exact hpad (by rw [length_strnPayload]; omega)
  | _ => simp [Put.data]

/-- **The wrappers of `uc_put` reserve room and fill it**, and two of them hand out
the pointer. -/
theorem stepPut_eq (s : Packer) (p : Put) :
    stepPut s p =
      { uc := ucPutData s.uc p.key p.len p.data
        ats := if p.opens then
            (if s.uc.msgLen = 0 ∨ ¬Room s.uc 4 then none else some s.uc.msgLen) :: s.ats
          else s.ats } := by
  cases p with
  | put k l d hd =>
    rw [stepPut, ucPutData, Put.data, i32_of_range (by omega) (by omega)]
    rfl
  | flag k =>
    rw [stepPut, ucPutFlag_eq]
    rfl
  | int k v =>
    rw [stepPut, ucPutInt_eq]
    rfl
  | i64 k v =>
    rw [stepPut, ucPutI64_eq]
    rfl
  | bin k src hs =>
    rw [stepPut, ucPutBin_eq _ _ hs]
    rfl
  | str k str =>
    rw [stepPut, ucPutStr, ucPutBin_eq _ _ (length_strPayload_lt str)]
    rfl
  | strn k src max =>
    rw [stepPut, ucPutStrn_eq _ _ src max.isLt]
    rfl
  | tail k paylen =>
    rw [stepPut, ucPutTail_eq]
    rfl
  | nest k =>
    rw [stepPut, ucPutNest_eq]
    rfl
  | strs k =>
    have hs : ucPutStrs s.uc k = ucPutNest s.uc k := rfl
    rw [stepPut, hs, ucPutNest_eq]
    rfl

/-! ### One call on an overflowed message -/

/-- The memory beyond the capacity is as it was. -/
def Inside (uc uc' : Ucbuf) : Prop := uc'.len = uc.len ∧ ∀ i : ℕ, uc.len ≤ i → uc'.mem i = uc.mem i

lemma Inside.refl (uc : Ucbuf) : Inside uc uc := ⟨rfl, fun _ _ => rfl⟩

variable {uc : Ucbuf}

lemma Inside.trans {uc₁ uc₂ : Ucbuf} (h₁ : Inside uc uc₁) (h₂ : Inside uc₁ uc₂) : Inside uc uc₂ :=
  ⟨h₂.1.trans h₁.1, fun i hi => (h₂.2 i (by rw [h₁.1]; exact hi)).trans (h₁.2 i hi)⟩

variable {s : Packer} {op : Op}

/-- **The mark stays**: a clean call does nothing to an overflowed message. -/
theorem step_of_zero (h0 : s.uc.msgLen = 0) (hc : Clean s op) : (step s op).uc = s.uc := by
  cases op with
  | put p =>
    rw [step, stepPut_eq]
    exact (ucPutData_cases _ _ _ p.length_data_le).trans (if_pos h0)
  | endNest i =>
    rw [step]
    cases pick s.ats i with
    | none => rfl
    | some a => simp [ucEndNest, h0]
  | addStr str => exact absurd h0 hc.1
  | endStrs i =>
    rw [step]
    cases pick s.ats i with
    | none => rfl
    | some a =>
      simp only [ucEndStrs, h0]
      rw [if_pos (by omega)]

/-! ### One call on a message that has not overflowed -/

/-- **The buffer holds the image**, and the pointers are those into it. -/
structure Agrees (s : Packer) (g : Img) : Prop where
  /-- The length field is the length of the image. -/
  len : s.uc.msgLen = g.bytes.length
  /-- The header is there. -/
  ge : 4 ≤ g.bytes.length
  /-- The message is inside the buffer. -/
  le : (g.bytes.length : ℤ) ≤ s.uc.len
  /-- The pointers are the same. -/
  ats : s.ats = g.ats
  /-- They point to attributes. -/
  inside : ∀ a, some a ∈ g.ats → 4 ≤ a ∧ a + 4 ≤ g.bytes.length
  /-- What the image says is in the buffer, past the length field. -/
  bytes : ∀ i b, 2 ≤ i → g.bytes[i]? = some (some b) → s.uc.mem i = b

variable {g : Img} {ats : List (Option ℕ)}

/-- The image grows by a block that was packed. -/
theorem Agrees.append (h : Agrees s g) {bs : List UInt8}
    (hp : Packed s.uc.mem uc.mem s.uc.msgLen bs) (hcap : uc.len = s.uc.len)
    (hroom : Room s.uc bs.length)
    (hats : ∀ a, some a ∈ ats → 4 ≤ a ∧ a + 4 ≤ (g.bytes ++ bs.map some).length) :
    Agrees { uc := uc, ats := ats } { bytes := g.bytes ++ bs.map some, ats := ats } := by
  have hlen := h.len
  have hge := h.ge
  refine ⟨?_, ?_, ?_, rfl, hats, fun i b hi hb => ?_⟩
  · rw [length_append, length_map, ← hlen]
    exact hp.len
  · rw [length_append]
    omega
  · have hr := hroom.2
    rw [length_append, length_map, hcap, ← hlen]
    push_cast
    exact hr
  · by_cases hlt : i < g.bytes.length
    · rw [getElem?_append_left hlt] at hb
      rw [hp.rest i hi (.inl (by omega))]
      exact h.bytes i b hi hb
    · rw [getElem?_append_right (by omega), getElem?_map, map_eq_some_iff] at hb
      obtain ⟨c, hc, hcb⟩ := hb
      cases hcb
      obtain ⟨hlt', rfl⟩ := List.getElem?_eq_some_iff.mp hc
      have hh := hp.holds (i - g.bytes.length) hlt'
      rw [hlen] at hh
      rw [← hh]
      congr 1
      omega

/-- Packing a block that there is room for stays inside the buffer. -/
theorem Packed.inside {uc' : Ucbuf} {bs : List UInt8} (h2 : 2 ≤ uc.len)
    (hp : Packed uc.mem uc'.mem uc.msgLen bs) (hcap : uc'.len = uc.len)
    (hroom : Room uc bs.length) : Inside uc uc' := by
  refine ⟨hcap, fun i hi => ?_⟩
  have hr := hroom.2
  exact hp.rest i (by omega) (by omega)

lemma Inside.setMsgLen {uc' : Ucbuf} (h : Inside uc uc') (h2 : 2 ≤ uc.len) (v : ℤ) :
    Inside uc (uc'.setMsgLen v) :=
  ⟨h.1, fun i hi => (put16_of_not_mem (by omega)).trans (h.2 i hi)⟩

/-- Patching the length of an attribute. -/
theorem Agrees.patch (h : Agrees s g) {a : ℕ} (ha : some a ∈ g.ats) (v : ℕ) :
    Agrees { s with uc := { s.uc with mem := s.uc.mem.put16 a v } }
      { g with bytes := patch g.bytes a (Minibase.le 2 v) } := by
  obtain ⟨h4, hin⟩ := h.inside a ha
  have hlen : (Nlusctl.patch g.bytes a (Minibase.le 2 v)).length = g.bytes.length := by
    simp only [Nlusctl.patch, length_append, length_take, length_map, length_le, length_drop]
    omega
  refine ⟨?_, by rw [hlen]; exact h.ge, by rw [hlen]; exact h.le, h.ats, ?_, fun i b hi hb => ?_⟩
  · rw [hlen, ← h.len]
    exact get16_congr (put16_of_not_mem (by omega)) (put16_of_not_mem (by omega))
  · intro a' ha'
    rw [hlen]
    exact h.inside a' ha'
  · have htake : (g.bytes.take a).length = a := by
      rw [length_take]
      omega
    rw [Nlusctl.patch, append_assoc] at hb
    rcases Nat.lt_or_ge i a with hia | hia
    · rw [getElem?_append_left (by omega), getElem?_take, if_pos hia] at hb
      change s.uc.mem.put16 a v i = b
      rw [put16_of_not_mem (.inl hia)]
      exact h.bytes i b hi hb
    · rw [getElem?_append_right (by omega), htake] at hb
      rcases Nat.lt_or_ge (i - a) 2 with hj | hj
      · rw [getElem?_append_left (by simpa using hj), getElem?_map, map_eq_some_iff] at hb
        obtain ⟨c, hc, hcb⟩ := hb
        cases hcb
        obtain ⟨hlt, rfl⟩ := List.getElem?_eq_some_iff.mp hc
        have hh := holds_store s.uc.mem a (Minibase.le 2 v) (i - a) hlt
        rw [← hh]
        change s.uc.mem.put16 a v i = s.uc.mem.put16 a v (a + (i - a))
        congr 1
        omega
      · rw [getElem?_append_right (by simpa using hj), length_map, length_le, getElem?_drop] at hb
        change s.uc.mem.put16 a v i = b
        rw [put16_of_not_mem (.inr (by omega))]
        refine h.bytes i b hi ?_
        rw [← hb]
        congr 1
        omega

/-- A pointer that the caller means is among those handed out. -/
theorem mem_of_pick {i a : ℕ} (h : pick ats i = some a) : some a ∈ ats := by
  rw [pick, getD_eq_getElem?_getD] at h
  cases hi : ats[i]? with
  | none =>
    rw [hi] at h
    exact absurd h (by simp)
  | some x =>
    rw [hi] at h
    obtain rfl : x = some a := h
    exact mem_of_getElem? hi

/-- **What a clean call does** to a message that has not overflowed. -/
structure Outcome (s : Packer) (g : Img) (op : Op) : Prop where
  /-- If it fits, the buffer follows the image. -/
  agrees : Fits s op → Agrees (step s op) (imgStep g op)
  /-- If it does not, the overflow is marked. -/
  marked : ¬Fits s op → (step s op).uc.msgLen = 0
  /-- Nothing beyond the capacity is written. -/
  inside : Inside s.uc (step s op).uc

/-- A message that has not overflowed is inside its buffer. -/
theorem Agrees.ready (h : Agrees s g) : Ready s.uc :=
  ⟨by rw [h.len]; exact h.ge, by rw [h.len]; exact h.le⟩

lemma Agrees.two_le (h : Agrees s g) : 2 ≤ s.uc.len := by
  have h1 := h.ge
  have h2 := h.le
  omega

lemma outcome_put (h : Agrees s g) (p : Put) (hc : Clean s (.put p)) :
    Outcome s g (.put p) := by
  have hready := h.ready
  have h0 : s.uc.msgLen ≠ 0 := by
    have := hready.1
    omega
  have hlen : p.bytes.length = 4 + p.data.length := by simp [Put.bytes]
  have hstep : (step s (.put p)).uc = _ :=
    (congrArg Packer.uc (stepPut_eq s p)).trans (ucPutData_cases s.uc p.key p.len p.length_data_le)
  rw [if_neg h0] at hstep
  by_cases hroom : Room s.uc (4 + p.data.length)
  · have hfit : s.uc.msgLen + (4 + p.len) ≤ 0xFFFF := (hc.resolve_left h0).resolve_left (· hroom)
    rw [← hlen] at hroom
    have hpack := packed_grow hready hroom
    refine ⟨fun _ => ?_, fun hn => absurd ⟨hlen ▸ hroom, hfit⟩ hn, ?_⟩
    · -- the pointers handed out: those there were, and perhaps the one of the new attribute
      have hats : (step s (.put p)).ats = (imgStep g (.put p)).ats := by
        have h4 : ¬(s.uc.msgLen = 0 ∨ ¬Room s.uc 4) := by
          rintro (hz | hr)
          · exact h0 hz
          · exact hr (hroom.mono (by omega))
        rw [step, stepPut_eq, imgStep, if_neg h4, h.len, h.ats]
      have hg : step s (.put p) = { uc := grow s.uc p.bytes.length p.bytes
                                    ats := (imgStep g (.put p)).ats } := by
        rw [← hats]
        rw [if_pos (hlen ▸ hroom), ← hlen] at hstep
        exact congrArg (Packer.mk · _) hstep
      rw [hg]
      refine h.append hpack rfl hroom fun a ha => ?_
      rw [length_append, length_map, hlen]
      have hold : ∀ a, some a ∈ g.ats → 4 ≤ a ∧ a + 4 ≤ g.bytes.length + (4 + p.data.length) :=
        fun a ha => ⟨(h.inside a ha).1, by have := (h.inside a ha).2; omega⟩
      have hge := h.ge
      rw [imgStep] at ha
      split at ha
      · rcases mem_cons.mp ha with he | he
        · cases he
          exact ⟨hge, by omega⟩
        · exact hold a he
      · exact hold a ha
    · rw [hstep, if_pos (hlen ▸ hroom), ← hlen]
      exact hpack.inside h.two_le rfl hroom
  · rw [if_neg hroom] at hstep
    refine ⟨fun hf => absurd hf.1 hroom, fun _ => ?_, ?_⟩
    · rw [hstep, Ucbuf.msgLen_setMsgLen]
      rfl
    · rw [hstep]
      exact (Inside.refl _).setMsgLen h.two_le 0

lemma outcome_endNest (h : Agrees s g) (i : ℕ) : Outcome s g (.endNest i) := by
  refine ⟨fun _ => ?_, fun hn => absurd trivial hn, ?_⟩
  · cases hp : pick s.ats i with
    | none =>
      rw [step, imgStep, ← h.ats, hp]
      exact h
    | some a =>
      have hpg : pick g.ats i = some a := h.ats ▸ hp
      have ha : some a ∈ g.ats := mem_of_pick hpg
      rw [step, imgStep, hp, hpg]
      obtain ⟨h4, hin⟩ := h.inside a ha
      have hle := h.le
      simp only [ucEndNest]
      rw [if_neg (by omega), if_neg (by rw [h.len]; omega), h.len]
      exact h.patch ha _
  · rw [step]
    cases hp : pick s.ats i with
    | none => exact Inside.refl _
    | some a =>
      simp only [ucEndNest]
      split_ifs with h1 h2
      · exact Inside.refl _
      · exact Inside.refl _
      · have hr := h.ready.2
        obtain ⟨h4, hin⟩ := h.inside a (h.ats ▸ mem_of_pick hp)
        rw [← h.len] at hin
        exact ⟨rfl, fun j hj => put16_of_not_mem (by omega)⟩

lemma outcome_addStr (h : Agrees s g) (str : List UInt8) (hc : Clean s (.addStr str)) :
    Outcome s g (.addStr str) := by
  have hready := h.ready
  have hin : Inside s.uc (ucAddStr s.uc str) := by
    simp only [ucAddStr]
    split_ifs with hgt
    · exact (Inside.refl _).setMsgLen h.two_le 0
    · have hstore : Inside s.uc { s.uc with mem := s.uc.mem.store s.uc.msgLen (addStrBytes str) } :=
        ⟨rfl, fun i hi => store_of_not_mem (by omega)⟩
      exact hstore.setMsgLen h.two_le _
  refine ⟨fun hf => ?_, fun hn => ?_, hin⟩
  · obtain ⟨h1, h2⟩ := hf
    have hu : u16 (s.uc.msgLen + (addStrBytes str).length : ℤ)
        = s.uc.msgLen + (addStrBytes str).length := by
      unfold u16
      omega
    have h4 := hready.1
    have hstep : (ucAddStr s.uc str) =
        { s.uc with mem := s.uc.mem.store s.uc.msgLen (addStrBytes str) }.setMsgLen
          (s.uc.msgLen + (addStrBytes str).length) := if_neg (by omega)
    have hpack : Packed s.uc.mem (ucAddStr s.uc str).mem s.uc.msgLen (addStrBytes str) := by
      rw [hstep]
      refine ⟨?_, ?_, fun i hi hi' => ?_⟩
      · exact (Ucbuf.msgLen_setMsgLen _ _).trans hu
      · exact (holds_store _ _ _).put16 (.inl (by omega))
      · exact (put16_of_not_mem (by omega)).trans (store_of_not_mem hi')
    rw [step, imgStep, h.ats]
    refine h.append hpack (by rw [hstep]; rfl) ⟨h1, h2⟩ fun a ha => ?_
    obtain ⟨ha1, ha2⟩ := h.inside a ha
    rw [length_append]
    exact ⟨ha1, by omega⟩
  · -- the string does not fit: either that is seen, or the length becomes 0x10000
    rw [step, ucAddStr]
    split_ifs with hgt
    · exact Ucbuf.msgLen_setMsgLen _ _
    · have hbig : ¬(s.uc.msgLen + (addStrBytes str).length ≤ 0xFFFF ∧
          (s.uc.msgLen + (addStrBytes str).length : ℤ) ≤ s.uc.len) := hn
      have hle := hc.2.resolve_right hgt
      refine (Ucbuf.msgLen_setMsgLen _ _).trans ?_
      unfold u16
      omega

lemma outcome_endStrs (h : Agrees s g) (i : ℕ) : Outcome s g (.endStrs i) := by
  cases hp : pick s.ats i with
  | none =>
    have hstep : step s (.endStrs i) = s := by rw [step, hp, ucEndStrs]
    refine ⟨fun _ => ?_, fun hn => absurd (fun hs => ?_) hn, ?_⟩
    · rw [hstep, imgStep, ← h.ats, hp]
      exact h
    · rw [hp] at hs
      exact absurd hs (by simp)
    · rw [hstep]
      exact Inside.refl _
  | some a =>
    have ha : some a ∈ g.ats := h.ats ▸ mem_of_pick hp
    obtain ⟨h4, hin⟩ := h.inside a ha
    have hlen := h.len
    have hlt := s.uc.msgLen_lt
    have hready := h.ready
    have hround := le_roundUp4 s.uc.msgLen
    have hround' : roundUp4 s.uc.msgLen < s.uc.msgLen + 4 := by
      unfold roundUp4
      omega
    have hu : u16 ((s.uc.msgLen : ℤ) - a) = g.bytes.length - a := by
      unfold u16
      omega
    have hpatch := h.patch ha (g.bytes.length - a)
    have hput : Inside s.uc { s.uc with mem := s.uc.mem.put16 a (g.bytes.length - a) } :=
      ⟨rfl, fun j hj => put16_of_not_mem (by have := hready.2; omega)⟩
    have hstep : (step s (.endStrs i)).uc =
        { s.uc with mem := s.uc.mem.put16 a (g.bytes.length - a) }.setMsgLen
          (if (roundUp4 s.uc.msgLen : ℤ) > s.uc.len then 0 else roundUp4 s.uc.msgLen) := by
      rw [step, hp]
      simp only [ucEndStrs]
      rw [if_neg (by omega), hu]
      split_ifs <;> rfl
    refine ⟨fun hf => ?_, fun hn => ?_, ?_⟩
    · obtain ⟨h1, h2⟩ := hf (by rw [hp]; rfl)
      have hle : (roundUp4 s.uc.msgLen : ℤ) ≤ s.uc.len := by omega
      rw [if_neg (by omega)] at hstep
      have hg : step s (.endStrs i) = { uc := (step s (.endStrs i)).uc, ats := g.ats } := by
        rw [← h.ats]
        rfl
      have hlenp := hpatch.len
      have hms : s.uc.msgLen = (patch g.bytes a (le 2 (g.bytes.length - a))).length := by
        rw [← hlenp]
        exact (get16_congr (put16_of_not_mem (by omega))
          (put16_of_not_mem (by omega))).symm
      rw [hg, hstep, imgStep, ← h.ats, hp]
      refine ⟨?_, ?_, ?_, rfl, fun a' ha' => ?_, fun j b hj hb => ?_⟩
      · rw [Ucbuf.msgLen_setMsgLen, length_append, length_replicate, ← hms, ← hlen]
        unfold u16
        omega
      · rw [length_append, ← hms]
        omega
      · rw [length_append, length_replicate, ← hms, ← hlen]
        exact (by omega : ((s.uc.msgLen + (roundUp4 s.uc.msgLen - s.uc.msgLen) : ℕ) : ℤ) ≤ s.uc.len)
      · obtain ⟨h5, h6⟩ := h.inside a' (h.ats ▸ ha')
        rw [length_append, ← hms, hlen]
        exact ⟨h5, by omega⟩
      · -- the padding is made of holes, so what is said is said by the patched image
        have hjlt : j < (patch g.bytes a (le 2 (g.bytes.length - a))).length := by
          by_contra hge
          rw [getElem?_append_right (by omega), getElem?_replicate] at hb
          split at hb
          · exact absurd (Option.some.inj hb) (by simp)
          · exact absurd hb (by simp)
        rw [getElem?_append_left hjlt] at hb
        exact (put16_of_not_mem (by omega)).trans (hpatch.bytes j b hj hb)
    · rw [hstep, Ucbuf.msgLen_setMsgLen]
      have hbig : ¬Room s.uc (roundUp4 s.uc.msgLen - s.uc.msgLen) := fun hr => hn fun _ => hr
      have hbig' : ¬(s.uc.msgLen + (roundUp4 s.uc.msgLen - s.uc.msgLen) ≤ 0xFFFF ∧
          (s.uc.msgLen + (roundUp4 s.uc.msgLen - s.uc.msgLen : ℕ) : ℤ) ≤ s.uc.len) := hbig
      split_ifs with hgt
      · rfl
      · unfold u16
        unfold roundUp4 at *
        omega
    · rw [hstep]
      exact hput.setMsgLen h.two_le _

/-- **One call**: the buffer follows the image, or the overflow is marked. -/
theorem outcome_step (h : Agrees s g) (hc : Clean s op) : Outcome s g op := by
  cases op with
  | put p => exact outcome_put h p hc
  | endNest i => exact outcome_endNest h i
  | addStr str => exact outcome_addStr h str hc
  | endStrs i => exact outcome_endStrs h i

/-! ### Any number of calls -/

lemma run_cons (s : Packer) (op : Op) (ops : List Op) : run s (op :: ops) = run (step s op) ops :=
  rfl

/-- The mark stays through any number of clean calls. -/
theorem run_of_zero {ops : List Op} (h0 : s.uc.msgLen = 0) (hc : CleanRun s ops) :
    (run s ops).uc = s.uc := by
  induction ops generalizing s with
  | nil => rfl
  | cons op ops ih =>
    have hstep := step_of_zero h0 hc.1
    rw [run_cons, ih (by rw [hstep]; exact h0) hc.2, hstep]

/-- **A clean run stays inside the buffer**, and ends with the image in it or with the
overflow marked. -/
theorem run_agrees {ops : List Op} (h : Agrees s g) (hc : CleanRun s ops) :
    Inside s.uc (run s ops).uc ∧
      (Agrees (run s ops) (ops.foldl imgStep g) ∨ (run s ops).uc.msgLen = 0) := by
  induction ops generalizing s g with
  | nil => exact ⟨Inside.refl _, .inl h⟩
  | cons op ops ih =>
    have hout := outcome_step h hc.1
    by_cases hf : Fits s op
    · obtain ⟨hin, hrun⟩ := ih (hout.agrees hf) hc.2
      exact ⟨hout.inside.trans hin, hrun⟩
    · have h0 := hout.marked hf
      have hrun := run_of_zero h0 hc.2
      rw [run_cons, hrun]
      exact ⟨hout.inside, .inr h0⟩

/-- **One call that does not fit marks the whole run.** -/
theorem run_marked {before after : List Op} (h : Agrees s g)
    (hc : CleanRun s (before ++ op :: after)) (hn : ¬Fits (run s before) op) :
    (run s (before ++ op :: after)).uc.msgLen = 0 := by
  induction before generalizing s g with
  | nil =>
    have h0 := (outcome_step h hc.1).marked hn
    rw [nil_append, run_cons, run_of_zero h0 hc.2]
    exact h0
  | cons op' before ih =>
    have hout := outcome_step h hc.1
    by_cases hf : Fits s op'
    · exact ih (hout.agrees hf) hc.2 hn
    · have h0 := hout.marked hf
      have hrun : (run (step s op') (before ++ op :: after)).uc = _ := run_of_zero h0 hc.2
      rw [cons_append, run_cons, hrun]
      exact h0

/-- The header is the image of a header. -/
theorem agrees_start (hcap : 4 ≤ uc.len) (cmd : ℤ) : Agrees (start uc cmd) (imgStart cmd) := by
  refine ⟨get16_put16 _ _ _, le_refl 4, hcap, rfl, fun a ha => absurd ha (by simp [imgStart]),
    fun i b hi hb => ?_⟩
  rw [imgStart, getElem?_append_right hi, getElem?_map, map_eq_some_iff] at hb
  obtain ⟨c, hc, hcb⟩ := hb
  cases hcb
  obtain ⟨hlt, rfl⟩ := List.getElem?_eq_some_iff.mp hc
  refine Eq.trans ?_ (holds_store uc.mem 2 (le 2 (u16 cmd)) (i - 2) hlt)
  change ((uc.mem.put16 2 (u16 cmd)).put16 0 4) i = (uc.mem.put16 2 (u16 cmd)) (2 + (i - 2))
  rw [put16_of_not_mem (.inr hi), Nat.add_sub_cancel' hi]

lemma inside_start (hcap : 4 ≤ uc.len) (cmd : ℤ) : Inside uc (start uc cmd).uc :=
  ⟨rfl, fun i hi => (put16_of_not_mem (by omega)).trans (put16_of_not_mem (by omega))⟩

lemma ucIovHdr_of_zero (h0 : uc.msgLen = 0) : ucIovHdr uc = .error (-ENOBUFS) := by
  simp [ucIovHdr, h0]

/-- **An overflow is sticky**: in every run of clean calls on a buffer that holds a
header, nothing beyond the capacity is written; once a call did not fit, the message
is refused after any further calls, by `uc_iov_hdr` and so by `uc_send`; and a message
that is accepted is its image, no byte lost or changed. -/
theorem packing_sound (uc : Ucbuf) (cmd : ℤ) (ops : List Op) (hcap : 4 ≤ uc.len)
    (hc : CleanRun (start uc cmd) ops) :
    Inside uc (run (start uc cmd) ops).uc ∧
      (∀ before op after, ops = before ++ op :: after → ¬Fits (run (start uc cmd) before) op →
        ucIovHdr (run (start uc cmd) ops).uc = .error (-ENOBUFS) ∧
          ∀ sendmsg, ucSend (run (start uc cmd) ops).uc sendmsg = -ENOBUFS) ∧
      ∀ iov, ucIovHdr (run (start uc cmd) ops).uc = .ok iov →
        iov.base = 2 ∧ 2 + iov.len = (image cmd ops).bytes.length ∧
          ∀ i b, 2 ≤ i → (image cmd ops).bytes[i]? = some (some b) →
            (run (start uc cmd) ops).uc.mem i = b := by
  have hstart := agrees_start hcap cmd
  obtain ⟨hin, hrun⟩ := run_agrees hstart hc
  refine ⟨(inside_start hcap cmd).trans hin, ?_, fun iov hiov => ?_⟩
  · rintro before op after rfl hn
    have herr := ucIovHdr_of_zero (run_marked hstart hc hn)
    refine ⟨herr, fun sendmsg => ?_⟩
    rw [ucSend, herr]
  · rcases hrun with hag | h0
    · have hlen : (run (start uc cmd) ops).uc.msgLen = (image cmd ops).bytes.length := hag.len
      have hge := hag.ready
      have hiov' : ucIovHdr (run (start uc cmd) ops).uc =
          .ok { base := 2, len := (run (start uc cmd) ops).uc.msgLen - 2 } := by
        rw [ucIovHdr, if_neg (by have := hge.1; have := hge.2; omega),
          if_neg (by have := hge.1; omega)]
      rw [hiov'] at hiov
      cases hiov
      refine ⟨rfl, ?_, hag.bytes⟩
      rw [← hlen]
      exact Nat.add_sub_cancel' (by have := hge.1; omega)
    · rw [ucIovHdr_of_zero h0] at hiov
      exact absurd hiov (by simp)

/-- A buffer of twelve bytes. -/
def twelve : Ucbuf := { mem := fun _ => 0, len := 12 }

theorem packing_sound_int :
    CleanRun (start twelve 1) [.put (.int 1 7), .put (.flag 2), .endNest 0] ∧
      ucIovHdr (run (start twelve 1) [.put (.int 1 7), .put (.flag 2), .endNest 0]).uc
        = .error (-ENOBUFS) :=
  have hc : CleanRun (start twelve 1) [.put (.int 1 7), .put (.flag 2), .endNest 0] := by decide
  ⟨hc, ((packing_sound twelve 1 _ (by decide) hc).2.1 [.put (.int 1 7)] (.put (.flag 2))
    [.endNest 0] rfl (by decide)).1⟩

/-- **A short string after one that did not fit** takes the mark for a length: it is
copied over the header, and what is left is sent. -/
theorem ucAddStr_clears_mark :
    ¬Fits (run (start twelve 1) [.put (.strs 1)]) (.addStr [1, 2, 3, 4, 5]) ∧
      ucIovHdr (run (start twelve 1) [.put (.strs 1), .addStr [1, 2, 3, 4, 5],
        .addStr [6, 7, 8]]).uc
        = .ok { base := 2, len := 2 } := by
  decide

end Minibase.Nlusctl
