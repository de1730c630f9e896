import Minibase.Lib.Memory
import Minibase.Lib.CInt

/-!
# Trees of length-key-value attributes

An attribute is a 16-bit length, a 16-bit key and a payload, padded to a multiple of four bytes;
the length counts the header and the payload but not the padding, and the payload of a *nest* is
itself a sequence of attributes. `Tlv` is the tree, `Tlv.encodeAll` the bytes of a sequence of
trees, wherever they are put.
-/

namespace Minibase

/-- An attribute, or a nest of attributes. -/
inductive Tlv where
  /-- An attribute with a payload of plain bytes. -/
  | leaf (key : ℕ) (payload : List UInt8) : Tlv
  /-- An attribute whose payload is a sequence of attributes. -/
  | nest (key : ℕ) (body : List Tlv) : Tlv

namespace Tlv

/-- The key of an attribute. -/
def key : Tlv → ℕ
  | leaf k _ => k
  | nest k _ => k

mutual

/-- The payload of an attribute. -/
def payload : Tlv → List UInt8
  | leaf _ p => p
  | nest _ body => encodeAll body

/-- The bytes of a sequence of attributes. -/
def encodeAll : List Tlv → List UInt8
  | [] => []
  | t :: ts => le 2 (4 + (payload t).length) ++ le 2 t.key ++ pad4 (payload t) ++ encodeAll ts

end

/-- The bytes of one attribute. -/
def encode (t : Tlv) : List UInt8 := le 2 (4 + t.payload.length) ++ le 2 t.key ++ pad4 t.payload

@[simp] lemma encodeAll_nil : encodeAll [] = [] := by rw [encodeAll]

lemma encodeAll_cons (t : Tlv) (ts : List Tlv) : encodeAll
    (t :: ts) = t.encode ++ encodeAll ts := by
  rw [encodeAll, encode]

@[simp] lemma payload_leaf (k : ℕ) (p : List UInt8) : (leaf k p).payload = p := by rw [payload]

@[simp] lemma payload_nest (k : ℕ) (ts : List Tlv) : (nest k ts).payload = encodeAll ts := by
  rw [payload]

lemma length_encode (t : Tlv) : t.encode.length = 4 + roundUp4 t.payload.length := by
  simp only [encode, List.length_append, length_le, length_pad4]

lemma payload_lt {t : Tlv} {n : ℕ} (h : t.encode.length < n) : 4 + t.payload.length < n := by
  have hle := le_roundUp4 t.payload.length
  rw [length_encode] at h
  omega

/-- The fields of an attribute whose encoding is in memory. -/
theorem fields_of_holds {m : Mem} {q : ℕ} {t : Tlv} (h : m.Holds q t.encode)
    (hlt : 4 + t.payload.length < 65536) (hk : t.key < 65536) :
    m.get16 q = 4 + t.payload.length ∧ m.get16 (q + 2) = t.key ∧ m.Holds (q + 4) t.payload := by
  obtain ⟨h12, h3⟩ := Mem.holds_append.mp h
  obtain ⟨h1, h2⟩ := Mem.holds_append.mp h12
  rw [length_le] at h2
  rw [List.length_append, length_le, length_le] at h3
  refine ⟨?_, ?_, (Mem.holds_append.mp h3).1⟩
  · rw [h1.get16, Nat.mod_eq_of_lt hlt]
  · rw [h2.get16, Nat.mod_eq_of_lt hk]

/-- A sequence of attributes fills whole words, so that a nest needs no padding. -/
theorem four_dvd_length_encodeAll (ts : List Tlv) : 4 ∣ (encodeAll ts).length := by
  induction ts with
  | nil => simp
  | cons t ts ih =>
    rw [encodeAll_cons, List.length_append, length_encode]
    exact Nat.dvd_add (Nat.dvd_add (Nat.dvd_refl 4) (Nat.dvd_mul_left 4 _)) ih

/-- The payload of a nest is its own padding. -/
theorem pad4_encodeAll (ts : List Tlv) : pad4 (encodeAll ts) = encodeAll ts := by
  have h : roundUp4 (encodeAll ts).length = (encodeAll ts).length := by
    have := four_dvd_length_encodeAll ts
    unfold roundUp4
    omega
  simp [pad4, h]

mutual

/-- A property of an attribute and of everything inside it. -/
def Every (P : Tlv → Prop) : Tlv → Prop
  | leaf k p => P (leaf k p)
  | nest k body => P (nest k body) ∧ EveryOf P body

/-- The same, of a sequence of attributes. -/
def EveryOf (P : Tlv → Prop) : List Tlv → Prop
  | [] => True
  | t :: ts => Every P t ∧ EveryOf P ts

end

lemma Every.self {P : Tlv → Prop} {t : Tlv} (h : Every P t) : P t := by
  cases t with
  | leaf k p => rwa [Every] at h
  | nest k body =>
    rw [Every] at h
    exact h.1

end Tlv

end Minibase
