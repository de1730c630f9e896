import Minibase.Lib.Tlv
import Minibase.Nlusctl.Attr
import Minibase.Nlusctl.Pack

/-!
# What is packed is what is read

A message is packed by a sequence of calls, transmitted without its length field, given that field
back by the receiver, and read by walking its attributes: the walk meets the attributes that were
packed and no others. The two halves meet in the bytes of a `Tlv`. A sequence of calls either leaves
the encoding of its attributes at the end of the message or marks the overflow
(`Nlusctl.sent_calls`; `Nlusctl.Packed` pins down every byte), and `Nlusctl.readsAll_of_holds` walks
that encoding, wherever it lies.

The command travels in a 16-bit field that `uc_repcode` reads as a signed number, so it comes back
as itself exactly when it is one. -/

namespace Minibase.Nlusctl

open Peek Tlv Mem

/-! ### Packing calls -/

/-- An attribute key, as the 16-bit field of the header holds it. -/
abbrev Key := Fin 65536

/-- A packing call, or a bracketed group of them. Lengths are C `int`s. -/
inductive Call where
  /-- `uc_put_flag` -/
  | flag (key : Key) : Call
  /-- `uc_put_int` -/
  | int (key : Key) (v : BitVec 32) : Call
  /-- `uc_put_i64` -/
  | i64 (key : Key) (v : BitVec 64) : Call
  /-- `uc_put_bin` -/
  | bin (key : Key) (src : List UInt8) (h : src.length < 2147483648) : Call
  /-- `uc_put_str` -/
  | str (key : Key) (str : List UInt8) : Call
  /-- `uc_put_strn` -/
  | strn (key : Key) (src : List UInt8) (max : Fin 2147483648) : Call
  /-- `uc_put_nest`, some calls, and the matching `uc_end_nest` -/
  | nest (key : Key) (body : List Call) : Call

mutual

/-- Make a call. -/
def call : Call → Ucbuf → Ucbuf
  | .flag key, uc => ucPutFlag uc key.val
  | .int key v, uc => ucPutInt uc key.val v
  | .i64 key v, uc => ucPutI64 uc key.val v
  | .bin key src _, uc => ucPutBin uc key.val src
  | .str key s, uc => ucPutStr uc key.val s
  | .strn key src max, uc => ucPutStrn uc key.val src max
  | .nest key body, uc =>
    let r := ucPutNest uc key.val
    ucEndNest (calls body r.1) r.2

/-- Make a sequence of calls. -/
def calls : List Call → Ucbuf → Ucbuf
  | [], uc => uc
  | c :: cs, uc => calls cs (call c uc)

end

mutual

/-- The attribute a call packs. -/
def Call.attr : Call → Tlv
  | .flag key => .leaf key []
  | .int key v => .leaf key (le 4 v.toNat)
  | .i64 key v => .leaf key (le 8 v.toNat)
  | .bin key src _ => .leaf key src
  | .str key s => .leaf key (strPayload s)
  | .strn key src max => .leaf key (strnPayload src max)
  | .nest key body => .nest key (attrs body)

/-- The attributes a sequence of calls packs. -/
def attrs : List Call → List Tlv
  | [] => []
  | c :: cs => c.attr :: attrs cs

end

/-! ### What packing leaves in the buffer -/

/-- **The outcome of packing `bs`**: it is in the buffer if there was room for it,
and else the overflow is marked. -/
structure Sent (uc uc' : Ucbuf) (bs : List UInt8) : Prop where
  /-- The capacity is a constant. -/
  cap : uc'.len = uc.len
  /-- With room, the block is there. -/
  packed : Room uc bs.length → Packed uc.mem uc'.mem uc.msgLen bs
  /-- Without room, the overflow mark is. -/
  excess : ¬Room uc bs.length → uc'.msgLen = 0

variable {uc : Ucbuf}

/-- After a successful packing the buffer is ready for more. -/
theorem Sent.ready {uc' : Ucbuf} {bs : List UInt8} (h : Sent uc uc' bs) (hr : Ready uc)
    (hroom : Room uc bs.length) : Ready uc' := by
  have hlen : uc'.msgLen = uc.msgLen + bs.length := (h.packed hroom).len
  refine ⟨?_, ?_⟩
  · rw [hlen]
    exact le_trans hr.1 (Nat.le_add_right _ _)
  · rw [hlen, h.cap]
    have := hroom.2
    push_cast
    exact this

/-- **Two packings in a row are one**, provided that the second does nothing on an
overflowed message. -/
theorem Sent.trans {uc₁ uc₂ : Ucbuf} {bs cs : List UInt8} (hr : Ready uc)
    (h₁ : Sent uc uc₁ bs) (h₂ : Ready uc₁ → Sent uc₁ uc₂ cs) (h₀ : uc₁.msgLen = 0 → uc₂ = uc₁) :
    Sent uc uc₂ (bs ++ cs) := by
  by_cases hb : Room uc bs.length
  · have hlen : uc₁.msgLen = uc.msgLen + bs.length := (h₁.packed hb).len
    have hs := h₂ (h₁.ready hr hb)
    have hiff : Room uc₁ cs.length ↔ Room uc (bs ++ cs).length := by
      simp only [Room, hlen, h₁.cap, List.length_append]
      omega
    refine ⟨hs.cap.trans h₁.cap, fun hroom => ?_, fun hroom => hs.excess (mt hiff.mp hroom)⟩
    have hp := hs.packed (hiff.mpr hroom)
    rw [hlen] at hp
    exact (h₁.packed hb).trans (by have := hr.1; omega) hp
  · have hz := h₁.excess hb
    rw [h₀ hz]
    refine ⟨h₁.cap, fun hroom => absurd (hroom.mono ?_) hb, fun _ => hz⟩
    rw [List.length_append]
    omega

/-- **A wrapper of `uc_put` packs its header and its data.** -/
theorem sent_ucPutData (hr : Ready uc) (key len : ℤ) {data : List UInt8}
    (hd : data.length ≤ 2147483648) :
    Sent uc (ucPutData uc key len data) (header key len ++ data) := by
  have h4 := hr.1
  have hlen : (header key len ++ data).length = 4 + data.length := by simp
  rw [ucPutData_cases uc key len hd, if_neg (by omega)]
  by_cases hroom : Room uc (4 + data.length)
  · rw [if_pos hroom]
    refine ⟨rfl, fun _ => ?_, fun hn => absurd hroom (by rwa [hlen] at hn)⟩
    rw [← hlen]
    exact packed_grow hr (by rwa [hlen])
  · rw [if_neg hroom]
    exact ⟨rfl, fun h => absurd (by rwa [hlen] at h) hroom, fun _ => by simp [u16]⟩

/-- The two low bytes do not see a multiple of 65536. -/
theorem le_two_mod (v : ℕ) : le 2 (v % 65536) = le 2 v := by
  simp only [le]
  refine congrArg₂ List.cons ?_ (congrArg₂ List.cons ?_ rfl) <;>
    refine UInt8.toNat_inj.mp ?_ <;> simp only [UInt8.toNat_ofNat'] <;> omega

/-- The header of an attribute, in the terms of its encoding. -/
theorem header_eq (key : Key) (n : ℕ) : header key.val n = le 2 (4 + n) ++ le 2 key.val := by
  have h1 : u16 ((n : ℤ) + 4) = (4 + n) % 65536 := by
    unfold u16
    omega
  rw [header, h1, u16_natCast, le_two_mod, le_two_mod]

/-- A call that packs plain bytes. -/
theorem sent_leaf (hr : Ready uc) (key : Key) {p : List UInt8}
    (hp : p.length ≤ 2147483648) :
    Sent uc (ucPutData uc key.val p.length (pad4 p)) (Tlv.leaf key p).encode := by
  have hle : (pad4 p).length ≤ 2147483648 := by
    rw [length_pad4]
    unfold roundUp4
    omega
  have h := sent_ucPutData hr key.val p.length hle
  rw [header_eq] at h
  simpa only [Tlv.encode, Tlv.payload_leaf, Tlv.key] using h

/-- The little-endian integers that are packed fill whole words. -/
theorem pad4_le {n : ℕ} (v : ℕ) (h : n % 4 = 0) : pad4 (le n v) = le n v := by
  have hn : roundUp4 n = n := by
    unfold roundUp4
    omega
  simp [pad4, hn]

mutual

/-- **Overflow is kept**: a call does nothing to an overflowed message. -/
theorem call_of_zero {uc : Ucbuf} (h0 : uc.msgLen = 0) : ∀ c : Call, call c uc = uc
  | .flag _ => by rw [call, ucPutFlag, ucPut_of_zero h0]
  | .int _ _ => by rw [call, ucPutInt, withPayload_of_zero h0]
  | .i64 _ _ => by rw [call, ucPutI64, withPayload_of_zero h0]
  | .bin _ _ _ => by rw [call, ucPutBin, withPayload_of_zero h0]
  | .str _ _ => by rw [call, ucPutStr, ucPutBin, withPayload_of_zero h0]
  | .strn _ _ _ => by rw [call, ucPutStrn, withPayload_of_zero h0]
  | .nest _ body => by
    rw [call, ucPutNest, ucPut_of_zero h0, calls_of_zero h0 body]
    rfl

theorem calls_of_zero {uc : Ucbuf} (h0 : uc.msgLen = 0) : ∀ cs : List Call, calls cs uc = uc
  | [] => by rw [calls]
  | c :: cs => by rw [calls, call_of_zero h0 c, calls_of_zero h0 cs]

end

/-- **Closing a nest patches its length**: what the calls in between packed makes
the payload. -/
theorem sent_nest {uc₂ : Ucbuf} (hr : Ready uc) (key : Key) {body : List Tlv}
    (h : Sent uc uc₂ (header key.val 0 ++ encodeAll body)) :
    Sent uc (ucEndNest uc₂ (if uc.msgLen = 0 ∨ ¬Room uc 4 then none else some uc.msgLen))
      (nest key body).encode := by
  have h4 := hr.1
  have henc : (nest key body).encode =
      le 2 (4 + (encodeAll body).length) ++ (le 2 key.val ++ encodeAll body) := by
    rw [encode, payload_nest, pad4_encodeAll, List.append_assoc]
    rfl
  have hlen : (nest key body).encode.length
      = (header key.val 0 ++ encodeAll body).length := by
    rw [henc]
    simp only [List.length_append, length_le, length_header]
    omega
  by_cases hroom : Room uc (header key.val 0 ++ encodeAll body).length
  · have hp := h.packed hroom
    have hn := hp.len
    have hcap := hroom.2
    rw [List.length_append, length_header] at hn hcap
    have hfour : Room uc 4 := hroom.mono (by rw [List.length_append, length_header]; omega)
    rw [if_neg (by rintro (h' | h'); exacts [by omega, h' hfour])]
    have hend : ucEndNest uc₂ (some uc.msgLen) =
        { uc₂ with mem := uc₂.mem.put16 uc.msgLen (4 + (encodeAll body).length) } := by
      have hm : uc₂.msgLen = uc.msgLen + (4 + (encodeAll body).length) := hn
      have hc : uc₂.len = uc.len := h.cap
      simp only [ucEndNest, hm, hc]
      rw [if_neg (by omega), if_neg (by omega), Nat.add_sub_cancel_left]
    rw [hend]
    refine ⟨h.cap, fun _ => ?_, fun hn' => absurd hroom (by rwa [hlen] at hn')⟩
    rw [henc]
    refine Packed.patch (v := u16 (0 + 4)) (by omega) ?_
    rw [header, u16_natCast, le_two_mod, List.append_assoc] at hp
    exact hp
  · have hz := h.excess hroom
    have hsame : ucEndNest uc₂ (if uc.msgLen = 0 ∨ ¬Room uc 4 then none else some uc.msgLen)
        = uc₂ := by
      split
      · rfl
      · simp [ucEndNest, hz]
    rw [hsame]
    exact ⟨h.cap, fun h' => absurd (by rwa [hlen] at h') hroom, fun _ => hz⟩

mutual

/-- **A call packs its attribute**, or marks the overflow. -/
theorem sent_call : ∀ (c : Call) {uc : Ucbuf}, Ready uc → Sent uc (call c uc) c.attr.encode
  | .flag key, uc, hr => by
    rw [call, ucPutFlag_eq, Call.attr]
    exact sent_leaf hr key (p := []) (by simp)
  | .int key v, uc, hr => by
    have h := sent_leaf hr key (p := le 4 v.toNat) (by simp)
    rw [pad4_le _ rfl, length_le] at h
    rw [call, ucPutInt_eq, Call.attr]
    exact h
  | .i64 key v, uc, hr => by
    have h := sent_leaf hr key (p := le 8 v.toNat) (by simp)
    rw [pad4_le _ rfl, length_le] at h
    rw [call, ucPutI64_eq, Call.attr]
    exact h
  | .bin key src hs, uc, hr => by
    rw [call, ucPutBin_eq uc _ hs, Call.attr]
    exact sent_leaf hr key (Nat.le_of_lt hs)
  | .str key s, uc, hr => by
    rw [call, ucPutStr, ucPutBin_eq uc _ (length_strPayload_lt s), Call.attr]
    exact sent_leaf hr key (Nat.le_of_lt (length_strPayload_lt s))
  | .strn key src max, uc, hr => by
    rw [call, ucPutStrn_eq uc _ src max.isLt, Call.attr]
    refine sent_leaf hr key ?_
    have h1 := strnlen_le src max
    have h2 := max.isLt
    rw [length_strnPayload]
    omega
  | .nest key body, uc, hr => by
    rw [call, Call.attr, ucPutNest_eq]
    refine sent_nest hr key (Sent.trans hr ?_ (fun hr₁ => sent_calls body hr₁)
      fun h0 => calls_of_zero h0 body)
    have hnil : ([] : List UInt8).length ≤ 2147483648 := Nat.zero_le _
    simpa using sent_ucPutData hr key.val 0 hnil

/-- **A sequence of calls packs its attributes**, or marks the overflow. -/
theorem sent_calls : ∀ (cs : List Call) {uc : Ucbuf}, Ready uc →
    Sent uc (calls cs uc) (encodeAll (attrs cs))
  | [], uc, hr => by
    rw [calls, attrs, encodeAll_nil]
    refine ⟨rfl, fun _ => ⟨rfl, holds_nil _ _, fun _ _ _ => rfl⟩,
      fun h => absurd hr.room_zero h⟩
  | c :: cs, uc, hr => by
    rw [calls, attrs, encodeAll_cons]
    exact Sent.trans hr (sent_call c hr) (fun hr₁ => sent_calls cs hr₁)
      fun h0 => calls_of_zero h0 cs

end

/-! ### What the walk meets -/

mutual

/-- **The attribute at `at_` is `t`**: it has its key, its length and its payload,
and if it is a nest, walking it meets the attributes inside. -/
def Reads (m : Mem) (at_ : ℕ) : Tlv → Prop
  | .leaf key p =>
    (ucIsKeyed at_ key).val m = true ∧ (ucPaylen at_).val m = p.length ∧
      m.load (ucPayload at_) p.length = p
  | .nest key body =>
    (ucIsKeyed at_ key).val m = true ∧ (ucPaylen at_).val m = (encodeAll body).length ∧
      m.load (ucPayload at_) (encodeAll body).length = encodeAll body ∧
      ReadsAll m at_ ((ucGet0 at_).val m) body

/-- **The iteration from `cur` on yields `ts`**, one attribute each, and stops
there. -/
def ReadsAll (m : Mem) (msg : ℕ) : Option ℕ → List Tlv → Prop
  | cur, [] => cur = none
  | cur, t :: ts => ∃ at_, cur = some at_ ∧ Reads m at_ t ∧ ReadsAll m msg
    ((ucGetN msg at_).val m) ts

end

mutual

/-- Every key in the tree fits its field. -/
def KeysFit : Tlv → Prop
  | .leaf key _ => key < 65536
  | .nest key body => key < 65536 ∧ KeysFitAll body

/-- Every key in a sequence of trees fits its field. -/
def KeysFitAll : List Tlv → Prop
  | [] => True
  | t :: ts => KeysFit t ∧ KeysFitAll ts

end

lemma KeysFit.key {t : Tlv} (h : KeysFit t) : t.key < 65536 := by
  cases t with
  | leaf k p => rwa [KeysFit] at h
  | nest k b =>
    rw [KeysFit] at h
    exact h.1

mutual

/-- **An encoded attribute is read as itself.** -/
theorem reads_of_holds {m : Mem} : ∀ (t : Tlv) {q : ℕ}, KeysFit t → t.encode.length < 65536 →
    m.Holds q t.encode → Reads m q t
  | .leaf key p, q, hk, hlt, h => by
    obtain ⟨h1, h2, h3⟩ := Tlv.fields_of_holds h (Tlv.payload_lt hlt) hk.key
    rw [Tlv.payload_leaf] at h1 h3
    rw [Reads]
    refine ⟨?_, ?_, holds_iff_load.mp h3⟩
    · simp [ucIsKeyed, h2, Tlv.key]
    · simp only [ucPaylen, val_bind, val_word, val_pure, h1]
      omega
  | .nest key body, q, hk, hlt, h => by
    obtain ⟨h1, h2, h3⟩ := Tlv.fields_of_holds h (Tlv.payload_lt hlt) hk.key
    rw [Tlv.length_encode] at hlt
    rw [Tlv.payload_nest] at h1 h3 hlt
    rw [KeysFit] at hk
    rw [Reads]
    refine ⟨?_, ?_, holds_iff_load.mp h3, ?_⟩
    · simp [ucIsKeyed, h2, Tlv.key]
    · simp only [ucPaylen, val_bind, val_word, val_pure, h1]
      omega
    · rw [ucGet0_val]
      refine readsAll_of_holds body hk.2 ?_ h3 (by rw [h1]; omega)
      have := le_roundUp4 (Tlv.encodeAll body).length
      omega

/-- **Encoded attributes are walked as themselves**: with `q` the position of the
walk, the rest of the message is exactly the rest of the encoding. -/
theorem readsAll_of_holds {m : Mem} : ∀ (ts : List Tlv) {msg q : ℕ}, KeysFitAll ts →
    (encodeAll ts).length < 65536 → m.Holds q (encodeAll ts) →
    q + (encodeAll ts).length = msg + m.get16 msg →
    ReadsAll m msg ((attrIn q (msg + m.get16 msg)).val m) ts
  | [], msg, q, _, _, _, hend => by
    rw [ReadsAll, attrIn_eq_none]
    simp only [encodeAll_nil, List.length_nil] at hend
    omega
  | t :: ts, msg, q, hk, hlt, h, hend => by
    rw [encodeAll_cons] at h hlt hend
    rw [List.length_append] at hlt hend
    rw [KeysFitAll] at hk
    obtain ⟨ht, hts⟩ := holds_append.mp h
    obtain ⟨h1, -, -⟩ := fields_of_holds ht (payload_lt (by omega)) hk.1.key
    have hlen := length_encode t
    have hle := le_roundUp4 t.payload.length
    rw [ReadsAll]
    refine ⟨q, attrIn_eq_some.mpr ⟨rfl, by omega, by omega⟩,
      reads_of_holds t hk.1 (by omega) ht, ?_⟩
    rw [ucGetN_val, if_neg (by omega), h1, add_comm 4, roundUp4_add_four, add_comm _ 4, ← hlen]
    exact readsAll_of_holds ts hk.2 (by omega) hts (by omega)

end

mutual

theorem keysFit_attr : ∀ c : Call, KeysFit c.attr
  | .flag key => by rw [Call.attr, KeysFit]; exact key.isLt
  | .int key _ => by rw [Call.attr, KeysFit]; exact key.isLt
  | .i64 key _ => by rw [Call.attr, KeysFit]; exact key.isLt
  | .bin key _ _ => by rw [Call.attr, KeysFit]; exact key.isLt
  | .str key _ => by rw [Call.attr, KeysFit]; exact key.isLt
  | .strn key _ _ => by rw [Call.attr, KeysFit]; exact key.isLt
  | .nest key body => by rw [Call.attr, KeysFit]; exact ⟨key.isLt, keysFit_attrs body⟩

theorem keysFit_attrs : ∀ cs : List Call, KeysFitAll (attrs cs)
  | [] => by rw [attrs, KeysFitAll]; trivial
  | c :: cs => by rw [attrs, KeysFitAll]; exact ⟨keysFit_attr c, keysFit_attrs cs⟩

end

/-! ### The round trip -/

/-- A message is started by `uc_put_hdr` and packed by a sequence of calls. -/
def pack (uc : Ucbuf) (cmd : ℤ) (cs : List Call) : Ucbuf := calls cs (ucPutHdr uc cmd)

/-- What the receiver has after `uc_recv`, in a buffer that held `rx` before. -/
def received (rx : Mem) (bytes : List UInt8) : Mem := rx.store 2 bytes

mutual

theorem len_call : ∀ (c : Call) (uc : Ucbuf), (call c uc).len = uc.len
  | .flag _, uc => by rw [call, ucPutFlag, len_ucPut]
  | .int _ _, uc => by rw [call, ucPutInt, len_withPayload, len_ucPut]
  | .i64 _ _, uc => by rw [call, ucPutI64, len_withPayload, len_ucPut]
  | .bin _ _ _, uc => by rw [call, ucPutBin, len_withPayload, len_ucPut]
  | .str _ _, uc => by rw [call, ucPutStr, ucPutBin, len_withPayload, len_ucPut]
  | .strn _ _ _, uc => by rw [call, ucPutStrn, len_withPayload, len_ucPut]
  | .nest _ body, uc => by rw [call, len_ucEndNest, len_calls body, ucPutNest, len_ucPut]

theorem len_calls : ∀ (cs : List Call) (uc : Ucbuf), (calls cs uc).len = uc.len
  | [], uc => by rw [calls]
  | c :: cs, uc => by rw [calls, len_calls cs, len_call c]

end

lemma ready_ucPutHdr (cmd : ℤ) (hcap : 4 ≤ uc.len) : Ready (ucPutHdr uc cmd) := by
  have h : (ucPutHdr uc cmd).msgLen = 4 := by
    rw [Ucbuf.msgLen, ucPutHdr, get16_put16]
  exact ⟨by omega, by rw [h]; exact_mod_cast hcap⟩

lemma msgLen_ucPutHdr (uc : Ucbuf) (cmd : ℤ) : (ucPutHdr uc cmd).msgLen = 4 := by
  rw [Ucbuf.msgLen, ucPutHdr, get16_put16]

lemma key_ucPutHdr (uc : Ucbuf) (cmd : ℤ) : (ucPutHdr uc cmd).mem.get16 2 = u16 cmd := by
  have h := u16_lt cmd
  have hget : ((uc.mem.put16 2 (u16 cmd)).put16 0 4).get16 2 = (uc.mem.put16 2 (u16 cmd)).get16 2 :=
    get16_congr (put16_of_not_mem (by omega)) (put16_of_not_mem (by omega))
  rw [ucPutHdr, hget, get16_put16, Nat.mod_eq_of_lt h]

/-- **A message that `uc_iov_hdr` accepts is complete**: its length is that of the
header and the encoding, and they are what it consists of. -/
theorem pack_of_ucIovHdr {cmd : ℤ} {cs : List Call} {iov : Iov}
    (h : ucIovHdr (pack uc cmd cs) = .ok iov) :
    iov.base = 2 ∧ iov.len = 2 + (encodeAll (attrs cs)).length ∧
      (encodeAll (attrs cs)).length ≤ 65531 ∧
      (pack uc cmd cs).mem.get16 2 = u16 cmd ∧
      (pack uc cmd cs).mem.Holds 4 (encodeAll (attrs cs)) := by
  have hm := msgLen_ucPutHdr uc cmd
  rw [ucIovHdr] at h
  simp only at h
  split_ifs at h with hc hl
  obtain rfl : iov = { base := 2, len := (pack uc cmd cs).msgLen - 2 } := (Except.ok.inj h).symm
  have hcap : 4 ≤ uc.len := by
    rw [pack, len_calls, len_ucPutHdr] at hc
    omega
  have hs := sent_calls cs (ready_ucPutHdr cmd hcap)
  have hroom : Room (ucPutHdr uc cmd) (encodeAll (attrs cs)).length := by
    by_contra hn
    have hz : (pack uc cmd cs).msgLen = 0 := hs.excess hn
    omega
  have hp := hs.packed hroom
  have hfit := hroom.1
  rw [hm] at hp hfit
  have hlen : (pack uc cmd cs).msgLen = 4 + (encodeAll (attrs cs)).length := hp.len
  refine ⟨rfl, ?_, by omega, ?_, hp.holds⟩
  · change (pack uc cmd cs).msgLen - 2 = _
    omega
  · rw [← key_ucPutHdr uc cmd]
    exact get16_congr (hp.rest 2 (by omega) (by omega)) (hp.rest 3 (by omega) (by omega))

/-- The receiver of what `uc_iov_hdr` says is to be transmitted gets a message, with the length
and the command of the sender, and walking it meets the attributes that were packed. -/
theorem message_received (uc : Ucbuf) (cmd : ℤ) (cs : List Call) (rx : Mem) {iov : Iov}
    (h : ucIovHdr (pack uc cmd cs) = .ok iov) :
    ∃ m, ucMsg (received rx ((pack uc cmd cs).mem.load iov.base iov.len)) iov.len = some m ∧
      m.get16 2 = u16 cmd ∧ m.get16 0 = 4 + (encodeAll (attrs cs)).length ∧
      ReadsAll m 0 ((ucGet0 0).val m) (attrs cs) := by
  obtain ⟨hbase, hlen, hle, hkey, hholds⟩ := pack_of_ucIovHdr h
  set n := (encodeAll (attrs cs)).length with hn
  set src := (pack uc cmd cs).mem with hsrc
  rw [hbase, hlen]
  have hfull : i32 (2 + ((2 + n : ℕ) : ℤ)) = ((4 + n : ℕ) : ℤ) := by
    rw [i32_of_range (by omega) (by omega)]
    omega
  have hu : u16 ((4 + n : ℕ) : ℤ) = 4 + n := by
    rw [u16_natCast, Nat.mod_eq_of_lt (by omega)]
  -- past the length field, the receiver has what the sender had
  have hsame : ∀ i, 2 ≤ i → i < 4 + n →
      (received rx (src.load 2 (2 + n))).put16 0 (4 + n) i = src i := by
    intro i h2 hi
    obtain ⟨k, rfl⟩ := Nat.exists_eq_add_of_le h2
    rw [put16_of_not_mem (by omega), received,
      store_of_lt (by rw [length_load]; omega), getElem_load]
  have hget : ((received rx (src.load 2 (2 + n))).put16 0 (4 + n)).get16 0 = 4 + n := by
    rw [get16_put16, Nat.mod_eq_of_lt (by omega)]
  refine ⟨(received rx (src.load 2 (2 + n))).put16 0 (4 + n), ?_, ?_, hget, ?_⟩
  · rw [ucMsg, hfull, if_neg (by omega), hu]
  · rw [← hkey]
    exact get16_congr (hsame 2 (by omega) (by omega)) (hsame 3 (by omega) (by omega))
  · rw [ucGet0_val, hget]
    have hend : 4 + (encodeAll (attrs cs)).length =
        0 + ((received rx (src.load 2 (2 + n))).put16 0 (4 + n)).get16 0 := by
      rw [hget]
      omega
    have hread := readsAll_of_holds (attrs cs) (keysFit_attrs cs) (by omega)
      (hholds.congr fun i h1 h2 => hsame i (by omega) (by omega)) hend
    rw [hget] at hread
    exact hread

/-- **What is packed is what is read.** Whatever the capacity, the command and the
calls, if `uc_iov_hdr` succeeds then the receiver of the transmitted bytes, in
whatever buffer, gets a message; walking it meets exactly the packed attributes, in
order, with their keys, lengths and payloads, and so on inside the nests; and the
command is read back as a signed 16-bit number, which is itself exactly when it fits. -/
theorem pack_roundtrip (uc : Ucbuf) (cmd : ℤ) (cs : List Call) (rx : Mem) {iov : Iov}
    (h : ucIovHdr (pack uc cmd cs) = .ok iov) :
    ∃ m, ucMsg (received rx ((pack uc cmd cs).mem.load iov.base iov.len)) iov.len = some m ∧
      ucRepcode.val m = i16 cmd ∧ (ucRepcode.val m = cmd ↔ -32768 ≤ cmd ∧ cmd < 32768) ∧
      ReadsAll m 0 ((ucGet0 0).val m) (attrs cs) := by
  obtain ⟨m, hm, hkey, -, hreads⟩ := message_received uc cmd cs rx h
  have hcode : ucRepcode.val m = i16 cmd := by
    simp only [ucRepcode, val_bind, val_word, val_pure, hkey]
    rw [i16_u16]
  exact ⟨m, hm, hcode, by rw [hcode, i16_eq_self_iff], hreads⟩

/-- A message of two attributes, one of them in a nest, in a buffer of 32 bytes. -/
theorem pack_roundtrip_nest :
    ∃ iov, ucIovHdr (pack ⟨fun _ => 0, 32⟩ 5 [.nest 7 [.str 1 [104, 105]]]) = .ok iov ∧
    ∃ m, ucMsg (received (fun _ => 255)
          ((pack ⟨fun _ => 0, 32⟩ 5 [.nest 7 [.str 1 [104, 105]]]).mem.load iov.base iov.len))
          iov.len = some m ∧
      ucRepcode.val m = i16 5 ∧ (ucRepcode.val m = 5 ↔ (-32768 : ℤ) ≤ 5 ∧ (5 : ℤ) < 32768) ∧
      ReadsAll m 0 ((ucGet0 0).val m) (attrs [.nest 7 [.str 1 [104, 105]]]) :=
  ⟨{ base := 2, len := 14 }, by decide, pack_roundtrip _ _ _ _ (by decide)⟩

/-- A command that is not a signed 16-bit number comes back as another one. -/
theorem ucRepcode_wraps :
    ∃ iov m, ucIovHdr (pack ⟨fun _ => 0, 32⟩ 40000 []) = .ok iov ∧
      ucMsg (received (fun _ => 0) ((pack ⟨fun _ => 0, 32⟩ 40000 []).mem.load iov.base iov.len))
        iov.len = some m ∧
      ucRepcode.val m ≠ 40000 :=
  ⟨{ base := 2, len := 2 }, _, by decide, rfl, by decide⟩

end Minibase.Nlusctl
