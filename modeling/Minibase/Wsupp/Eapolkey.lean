import Minibase.Lib.Bytes

/-!
# EAPOL-Key frames

`struct eapolkey` of `wsupp_eapol.h` and its bytes on the wire. Multi-byte fields are big-endian
there; in `Wsupp.Eapolkey` they are the numbers they stand for. What is written is read back
(`Wsupp.Eapolkey.ofBytes_bytes`), and what is read is what was there
(`Wsupp.Eapolkey.bytes_ofBytes`). The same structure also serves as the buffer `packet`: whatever
was there before stays in the payload, behind what was written.
-/

namespace Minibase.Wsupp

open List Bytes UInt8

/-! ### Sixteen bits on the wire -/

/-- `htons` into a buffer. -/
def be16 (x : UInt16) : List UInt8 := [ofNat (x.toNat / 256), ofNat x.toNat]

/-- `ntohs` out of a buffer. -/
def get16 (l : List UInt8) : UInt16 :=
  UInt16.ofNat ((l.getD 0 0).toNat * 256 + (l.getD 1 0).toNat)

@[simp] lemma length_be16 (x : UInt16) : (be16 x).length = 2 := rfl

@[simp] lemma get16_be16_append (x : UInt16) (l : List UInt8) : get16 (be16 x ++ l) = x := by
  apply UInt16.toNat_inj.mp
  have hx := x.toNat_lt
  have h : (ofNat (x.toNat / 256)).toNat * 256 + (ofNat x.toNat).toNat = x.toNat := by
    simp only [toNat_ofNat']
    omega
  show (UInt16.ofNat ((ofNat (x.toNat / 256)).toNat * 256 +
    (ofNat x.toNat).toNat)).toNat
    = x.toNat
  rw [h, UInt16.ofNat_toNat]

lemma be16_get16 {l : List UInt8} (h : 2 ≤ l.length) : be16 (get16 l) = l.take 2 := by
  obtain - | ⟨a, - | ⟨b, l⟩⟩ := l
  · simp at h
  · simp at h
  have ha := a.toNat_lt
  have hb := b.toNat_lt
  have hg : (get16 (a :: b :: l)).toNat = a.toNat * 256 + b.toNat := by
    show (a.toNat * 256 + b.toNat) % 65536 = _
    omega
  show [UInt8.ofNat _, UInt8.ofNat _] = [a, b]
  rw [hg]
  congr 1
  · apply UInt8.toNat_inj.mp
    rw [UInt8.toNat_ofNat']
    omega
  · congr 1
    apply UInt8.toNat_inj.mp
    rw [UInt8.toNat_ofNat']
    omega

/-! ### Frames -/

/-- `struct eapolkey`. -/
structure Eapolkey where
  version : UInt8
  pactype : UInt8
  paclen : UInt16
  type : UInt8
  keyinfo : UInt16
  keylen : UInt16
  replay : Bytes 8
  nonce : Bytes 32
  iv : Bytes 16
  rsc : Bytes 8
  reserved : Bytes 8
  mic : Bytes 16
  paylen : UInt16
  payload : List UInt8
deriving DecidableEq

namespace Eapolkey

/-- The bytes in front of the payload. -/
def header (ek : Eapolkey) : List UInt8 :=
  [ek.version, ek.pactype] ++ (be16 ek.paclen ++
    ([ek.type] ++ (be16 ek.keyinfo ++ (be16 ek.keylen ++
    (ek.replay.data ++ (ek.nonce.data ++ (ek.iv.data ++ (ek.rsc.data ++ (ek.reserved.data ++
    (ek.mic.data ++ be16 ek.paylen))))))))))

/-- The frame as it lies in memory. -/
def bytes (ek : Eapolkey) : List UInt8 := ek.header ++ ek.payload

/-- `(struct eapolkey*) packet`. -/
def ofBytes (l : List UInt8) : Eapolkey where
  version := l.getD 0 0
  pactype := l.getD 1 0
  paclen := get16 (l.drop 2)
  type := l.getD 4 0
  keyinfo := get16 (l.drop 5)
  keylen := get16 (l.drop 7)
  replay := ofList 8 (l.drop 9)
  nonce := ofList 32 (l.drop 17)
  iv := ofList 16 (l.drop 49)
  rsc := ofList 8 (l.drop 65)
  reserved := ofList 8 (l.drop 73)
  mic := ofList 16 (l.drop 81)
  paylen := get16 (l.drop 97)
  payload := l.drop 99

/-- `sizeof(struct eapolkey)`: the size of the header. -/
def eksize : ℕ := 99

variable (ek : Eapolkey)

@[simp] lemma length_header : ek.header.length = eksize := by
  simp [header, eksize]

@[simp] lemma length_bytes : ek.bytes.length = eksize + ek.payload.length := by
  rw [bytes, length_append, length_header]

/-- The front of a frame: the header and some of the payload. -/
theorem take_bytes (n : ℕ) : ek.bytes.take (eksize + n) = ek.header ++ ek.payload.take n := by
  rw [bytes, ← length_header ek]
  exact take_length_add_append n

/-! ### Reading back -/

/-- Skipping a field and more. -/
theorem drop_data_append {n k : ℕ} (b : Bytes n) (l : List UInt8) (h : n ≤ k) :
    (b.data ++ l).drop k = l.drop (k - n) := by
  obtain ⟨j, rfl⟩ := Nat.exists_eq_add_of_le h
  rw [← drop_drop, drop_left' b.size, Nat.add_sub_cancel_left]

/-- **A frame is read back** from the bytes it was written to, with whatever follows
them as its payload. -/
theorem ofBytes_header_append (l : List UInt8) :
    ofBytes (ek.header ++ l) = { ek with payload := l } := by
  simp only [ofBytes, header, append_assoc, be16, cons_append, nil_append,
    drop_succ_cons, getD_cons_succ, getD_cons_zero, drop_zero, drop_data_append,
    Nat.reduceLeDiff, Nat.reduceSub, ofList_append, le_refl]
  congr 1
  · exact get16_be16_append ek.paclen _
  · exact get16_be16_append ek.keyinfo _
  · exact get16_be16_append ek.keylen _
  · exact get16_be16_append ek.paylen _

@[simp] lemma ofBytes_bytes : ofBytes ek.bytes = ek :=
  ofBytes_header_append ek ek.payload

section Fields

variable {l : List UInt8} {k n : ℕ}

lemma getD_append_drop (h : k + 1 ≤ l.length) : [l.getD k 0] ++ l.drop (k + 1) = l.drop k := by
  rw [drop_eq_getElem_cons h]
  simp [Nat.lt_of_succ_le h]

lemma be16_append_drop (h : k + 2 ≤ l.length) :
    be16 (get16 (l.drop k)) ++ l.drop (k + 2) = l.drop k := by
  rw [be16_get16 (by rw [length_drop]; omega), ← drop_drop, take_append_drop]

lemma ofList_append_drop (h : k + n ≤ l.length) :
    (ofList n (l.drop k)).data ++ l.drop (k + n) = l.drop k := by
  rw [data_ofList (by rw [length_drop]; omega), ← drop_drop, take_append_drop]

end Fields

/-- **Nothing of a buffer is lost** when it is looked at as a frame. -/
theorem bytes_ofBytes {l : List UInt8} (h : eksize ≤ l.length) : (ofBytes l).bytes = l := by
  have hl : 99 ≤ l.length := h
  have h0 : [l.getD 0 0, l.getD 1 0] ++ l.drop 2 = l := by
    obtain - | ⟨a, - | ⟨b, l⟩⟩ := l
    · simp at hl
    · simp at hl
    · rfl
  simp only [bytes, header, ofBytes, append_assoc]
  -- the fields close up again from the last one to the first
  rw [be16_append_drop (k := 97) (by omega), ofList_append_drop (k := 81) (n := 16) (by omega),
    ofList_append_drop (k := 73) (n := 8) (by omega),
    ofList_append_drop (k := 65) (n := 8) (by omega),
    ofList_append_drop (k := 49) (n := 16) (by omega),
    ofList_append_drop (k := 17) (n := 32) (by omega),
    ofList_append_drop (k := 9) (n := 8) (by omega), be16_append_drop (k := 7) (by omega),
    be16_append_drop (k := 5) (by omega), getD_append_drop (k := 4) (by omega),
    be16_append_drop (k := 2) (by omega), h0]

end Eapolkey

end Minibase.Wsupp
