import Mathlib.Data.List.DropRight
import Mathlib.Data.UInt

/-!
# Byte memories

A memory is a function from addresses to bytes, and nothing is said about how much of it belongs
to anybody: *staying inside* is a property of a program and not of the model. `Mem.Holds` says
which block of bytes is at an address: it splits along concatenation (`Mem.holds_append`), a
store establishes it (`Mem.holds_store`) and it survives every store elsewhere
(`Mem.Holds.store`). Multi-byte integers are little-endian (`le`).

Text is taken apart by pointers that are moved forward up to a byte of some kind (`Mem.scan`)
or back over bytes of some kind (`Mem.scanBack`).
-/

namespace Minibase

open List

/-- A memory: one byte for each address. -/
abbrev Mem := ℕ → UInt8

/-! ### Little-endian integers -/

/-- The `n` low bytes of `v`, least significant first. -/
def le : ℕ → ℕ → List UInt8
  | 0, _ => []
  | n + 1, v => UInt8.ofNat v :: le n (v / 256)

@[simp] lemma length_le (n v : ℕ) : (le n v).length = n := by
  induction n generalizing v with
  | zero => rfl
  | succ n ih => simp [le, ih]

/-- Two bytes are the low sixteen bits. -/
theorem le_two_val (v : ℕ) :
    (UInt8.ofNat v).toNat + 256 * (UInt8.ofNat (v / 256)).toNat = v % 65536 := by
  simp only [UInt8.toNat_ofNat']
  omega

namespace Mem

/-- Write the bytes `bs` from address `a` on. -/
def store (m : Mem) (a : ℕ) (bs : List UInt8) : Mem :=
  fun i => if a ≤ i ∧ i < a + bs.length then bs.getD (i - a) 0 else m i

/-- The `n` bytes from address `a` on. -/
def load (m : Mem) (a n : ℕ) : List UInt8 := (range n).map fun i => m (a + i)

/-- The little-endian 16-bit number at address `a`. -/
def get16 (m : Mem) (a : ℕ) : ℕ := (m a).toNat + 256 * (m (a + 1)).toNat

/-- The little-endian 32-bit number at address `a`. -/
def get32 (m : Mem) (a : ℕ) : ℕ := m.get16 a + 65536 * m.get16 (a + 2)

/-- Write a 16-bit number at address `a`, dropping what does not fit. -/
def put16 (m : Mem) (a v : ℕ) : Mem := m.store a (le 2 v)

variable {m m' : Mem} {a b : ℕ} {bs cs : List UInt8}

@[simp] lemma length_load (m : Mem) (a n : ℕ) : (m.load a n).length = n := by simp [load]

@[simp] lemma load_zero (m : Mem) (a : ℕ) : m.load a 0 = [] := rfl

lemma load_add (m : Mem) (a n k : ℕ) : m.load a (n + k) = m.load a n ++ m.load (a + n) k := by
  simp only [load, range_add, map_append, map_map]
  congr 1
  refine map_congr_left fun i _ => ?_
  simp [add_assoc]

variable {i v : ℕ}

lemma getElem_load {n : ℕ} (h : i < (m.load a n).length) : (m.load a n)[i] = m (a + i) := by
  simp [load]

lemma get16_lt (m : Mem) (a : ℕ) : m.get16 a < 65536 := by
  have h1 := (m a).toNat_lt
  have h2 := (m (a + 1)).toNat_lt
  rw [get16]
  omega

/-- A store changes nothing outside the block it writes. -/
theorem store_of_not_mem (h : i < a ∨ a + bs.length ≤ i) : m.store a bs i = m i :=
  if_neg (by omega)

lemma store_of_lt (h : i < bs.length) : m.store a bs (a + i) = bs[i] := by
  rw [store, if_pos (by omega)]
  simp [h]

@[simp] lemma store_nil (m : Mem) (a : ℕ) : m.store a [] = m :=
  funext fun i => store_of_not_mem (by simp only [length_nil]; omega)

lemma put16_of_not_mem (h : i < a ∨ a + 2 ≤ i) : m.put16 a v i = m i :=
  store_of_not_mem (by simpa using h)

/-- Reading sixteen bits does not notice a change elsewhere. -/
theorem get16_congr (h0 : m a = m' a) (h1 : m (a + 1) = m' (a + 1)) : m.get16 a = m'.get16 a := by
  rw [get16, get16, h0, h1]

/-! ### Blocks a memory holds -/

/-- **The memory holds the block `bs` at `a`.** -/
def Holds (m : Mem) (a : ℕ) (bs : List UInt8) : Prop :=
  ∀ i (h : i < bs.length), m (a + i) = bs[i]

@[simp] lemma holds_nil (m : Mem) (a : ℕ) : m.Holds a [] := fun i h => absurd h (by simp)

/-- Holding a block is reading it back. -/
theorem holds_iff_load : m.Holds a bs ↔ m.load a bs.length = bs := by
  constructor
  · intro h
    exact ext_getElem (by simp) fun i h1 h2 => by rw [getElem_load, h i h2]
  · intro h i hi
    have hg : (m.load a bs.length)[i]? = bs[i]? := by rw [h]
    simpa [load, hi] using hg

lemma holds_append : m.Holds a (bs ++ cs) ↔ m.Holds a bs ∧ m.Holds (a + bs.length) cs := by
  rw [holds_iff_load, holds_iff_load, holds_iff_load, length_append, load_add]
  constructor
  · intro h
    exact append_inj h (by simp)
  · rintro ⟨h1, h2⟩
    rw [h1, h2]

/-- **A store establishes its block.** -/
theorem holds_store (m : Mem) (a : ℕ) (bs : List UInt8) : (m.store a bs).Holds a bs :=
  fun _ h => store_of_lt h

/-- A block depends on its own addresses only. -/
theorem Holds.congr (h : m.Holds a bs) (hm : ∀ i, a ≤ i → i < a + bs.length → m' i = m i) :
    m'.Holds a bs := fun i hi => by
  rw [hm (a + i) (by omega) (by omega)]
  exact h i hi

/-- **A block survives a store elsewhere.** -/
theorem Holds.store (h : m.Holds a bs) (hd : b + cs.length ≤ a ∨ a + bs.length ≤ b) :
    (m.store b cs).Holds a bs :=
  h.congr fun i h1 h2 => store_of_not_mem (by omega)

lemma Holds.put16 (h : m.Holds a bs) (hd : b + 2 ≤ a ∨ a + bs.length ≤ b) :
    (m.put16 b v).Holds a bs :=
  Holds.store h (by simpa using hd)

/-- A block written over the same addresses replaces the old one. -/
theorem store_store (m : Mem) (a : ℕ) (bs cs : List UInt8) (h : bs.length ≤ cs.length) :
    (m.store a bs).store a cs = m.store a cs := by
  funext i
  by_cases hi : a ≤ i ∧ i < a + cs.length
  · rw [Mem.store, if_pos hi, Mem.store, if_pos hi]
  · rw [store_of_not_mem (by omega), store_of_not_mem (by omega), store_of_not_mem (by omega)]

/-- Two adjacent stores are one. -/
theorem store_append (m : Mem) (a : ℕ) (bs cs : List UInt8) :
    (m.store a bs).store (a + bs.length) cs = m.store a (bs ++ cs) := by
  funext i
  rcases lt_or_ge i a with h | h
  · rw [store_of_not_mem (by omega), store_of_not_mem (by omega), store_of_not_mem (by omega)]
  · obtain ⟨k, rfl⟩ := Nat.exists_eq_add_of_le h
    rcases lt_or_ge k bs.length with hk | hk
    · rw [store_of_not_mem (by omega), store_of_lt hk,
        store_of_lt (by rw [length_append]; omega), getElem_append_left hk]
    · rcases lt_or_ge k (bs ++ cs).length with hl | hl
      · obtain ⟨j, rfl⟩ := Nat.exists_eq_add_of_le hk
        have hj : j < cs.length := by
          rw [length_append] at hl
          omega
        rw [store_of_lt hl, ← add_assoc, store_of_lt hj, getElem_append_right (by omega)]
        simp
      · rw [length_append] at hl
        rw [store_of_not_mem (by omega), store_of_not_mem (by omega),
          store_of_not_mem (by rw [length_append]; omega)]

/-- A block written over the front of another one: what is left is its tail. -/
theorem store_over (m : Mem) (a k : ℕ) (bs zs : List UInt8) (h1 : k ≤ bs.length)
    (h2 : bs.length ≤ k + zs.length) :
    (m.store (a + k) zs).store a bs = m.store a (bs ++ zs.drop (bs.length - k)) := by
  funext i
  have hlen : (bs ++ zs.drop (bs.length - k)).length = k + zs.length := by
    rw [length_append, length_drop]
    omega
  by_cases hb : i < a ∨ a + (k + zs.length) ≤ i
  · rw [store_of_not_mem (by omega), store_of_not_mem (by omega), store_of_not_mem (by omega)]
  obtain ⟨j, rfl⟩ : ∃ j, i = a + j := ⟨i - a, by omega⟩
  rw [store_of_lt (by omega : j < (bs ++ zs.drop (bs.length - k)).length)]
  by_cases hj : j < bs.length
  · rw [store_of_lt hj, getElem_append_left hj]
  · rw [store_of_not_mem (by omega), getElem_append_right (by omega), getElem_drop]
    have hz : j - k < zs.length := by omega
    have he : a + j = a + k + (j - k) := by omega
    rw [he, store_of_lt hz]
    congr 1
    omega

/-- Two adjacent 16-bit fields, the second one written first. -/
theorem put16_put16 (m : Mem) (a v w : ℕ) :
    (m.put16 (a + 2) w).put16 a v = m.store a (le 2 v ++ le 2 w) := by
  rw [← store_append, length_le, put16, put16]
  funext i
  by_cases h : a ≤ i ∧ i < a + 2
  · rw [store, length_le, if_pos h, store_of_not_mem (by omega), store, length_le, if_pos h]
  · rw [store_of_not_mem (by rw [length_le]; omega)]
    by_cases h' : a + 2 ≤ i ∧ i < a + 2 + 2
    · rw [store, length_le, if_pos h', store, length_le, if_pos h']
    · rw [store_of_not_mem (by rw [length_le]; omega), store_of_not_mem (by rw [length_le]; omega),
        store_of_not_mem (by rw [length_le]; omega)]

/-- A 16-bit number is read where its two bytes are held. -/
theorem Holds.get16 (h : m.Holds a (le 2 v)) : m.get16 a = v % 65536 := by
  have h0 : m a = UInt8.ofNat v := h 0 (by simp)
  have h1 : m (a + 1) = UInt8.ofNat (v / 256) := h 1 (by simp)
  rw [Mem.get16, h0, h1]
  exact le_two_val v

/-- A 32-bit number is read where its four bytes are held. -/
theorem Holds.get32 (h : m.Holds a (le 4 v)) : m.get32 a = v % 4294967296 := by
  have hle : le 4 v = le 2 v ++ le 2 (v / 256 / 256) := rfl
  rw [hle, holds_append, length_le] at h
  rw [Mem.get32, h.1.get16, h.2.get16]
  omega

@[simp] lemma get16_put16 (m : Mem) (a v : ℕ) : (m.put16 a v).get16 a = v % 65536 :=
  (holds_store m a (le 2 v)).get16

end Mem

/-! ### Looking for a byte -/

namespace Mem

/-- The first of the `n` addresses from `p` on whose byte is to stop at, or the one after
them. -/
def scan (stop : UInt8 → Bool) (m : Mem) : (p n : ℕ) → ℕ
  | p, 0 => p
  | p, n + 1 => if stop (m p) then p else scan stop m (p + 1) n

/-- The address after the last of the `n` bytes from `p` on that is not to be gone over, or
`p`. -/
def scanBack (go : UInt8 → Bool) (m : Mem) (p : ℕ) : ℕ → ℕ
  | 0 => p
  | n + 1 => if go (m (p + n)) then scanBack go m p n else p + n + 1

variable {m : Mem} {a n k : ℕ}

lemma load_succ (m : Mem) (a n : ℕ) : m.load a (n + 1) = m a :: m.load (a + 1) n := by
  rw [add_comm, load_add]
  rfl

lemma load_concat (m : Mem) (a n : ℕ) : m.load a (n + 1) = m.load a n ++ [m (a + n)] := by
  rw [load_add]
  rfl

/-- **Where a pointer stops.** -/
theorem scan_eq (stop : UInt8 → Bool) (m : Mem) (p n : ℕ) :
    scan stop m p n = p + ((m.load p n).takeWhile (! stop ·)).length := by
  induction n generalizing p with
  | zero => rfl
  | succ n ih =>
    rw [scan, load_succ, takeWhile_cons]
    cases hs : stop (m p) with
    | true => rfl
    | false =>
      rw [if_neg (by decide), ih]
      simp only [Bool.not_false, ↓reduceIte, length_cons]
      omega

/-- **Where a pointer stops on the way back.** -/
theorem scanBack_eq (go : UInt8 → Bool) (m : Mem) (p n : ℕ) :
    scanBack go m p n = p + ((m.load p n).rdropWhile go).length := by
  induction n with
  | zero => rfl
  | succ n ih =>
    rw [scanBack, load_concat, rdropWhile_concat]
    split_ifs
    · exact ih
    · rw [length_append, length_load]
      rfl

/-- What follows the first bytes of a block. -/
theorem drop_load (m : Mem) (a n k : ℕ) : (m.load a n).drop k = m.load (a + k) (n - k) := by
  rcases Nat.le_total k n with h | h
  · obtain ⟨j, rfl⟩ := Nat.exists_eq_add_of_le h
    have hlen : (m.load a k).length = k := length_load m a k
    rw [load_add, drop_left' hlen, Nat.add_sub_cancel_left]
  · rw [Nat.sub_eq_zero_of_le h, load_zero]
    exact drop_of_length_le (by rw [length_load]; exact h)

/-- The first bytes of a block. -/
theorem take_load (m : Mem) (a n k : ℕ) (h : k ≤ n) : (m.load a n).take k = m.load a k := by
  obtain ⟨j, rfl⟩ := Nat.exists_eq_add_of_le h
  have hlen : (m.load a k).length = k := length_load m a k
  rw [load_add, take_left' hlen]

/-- A block that is followed by another. -/
theorem load_eq_append {f g : List UInt8} (h : m.load a n = f ++ g) :
    m.load a f.length = f ∧ m.load (a + f.length) (n - f.length) = g := by
  have hn : n = f.length + g.length := by
    rw [← length_load m a n, h, length_append]
  constructor
  · rw [← take_load m a n f.length (by omega), h, take_left]
  · rw [← drop_load, h, drop_left]

/-- A byte that is written before a block does not show in it. -/
theorem load_store_before {q : ℕ} {bs : List UInt8} (h : q + bs.length ≤ a) :
    (m.store q bs).load a n = m.load a n :=
  map_congr_left fun _ _ => store_of_not_mem (by omega)

/-- One that is written into it shows there. -/
theorem load_store_byte {f g : List UInt8} {x y : UInt8} (h : m.load a n = f ++ x :: g) :
    (m.store (a + f.length) [y]).load a n = f ++ y :: g := by
  have hn : n = f.length + (1 + g.length) := by
    rw [← length_load m a n, h, length_append, length_cons, add_comm 1]
  have hf : (m.store (a + f.length) [y]).load a f.length = f := by
    refine Eq.trans (map_congr_left fun i hi => store_of_not_mem ?_) (load_eq_append h).1
    have := mem_range.mp hi
    omega
  have hg : (m.store (a + f.length) [y]).load (a + f.length + 1) g.length = g := by
    have h2 := (load_eq_append h).2
    have hlen : n - f.length = g.length + 1 := by omega
    rw [hlen, load_succ] at h2
    rw [load_store_before (by simp)]
    exact (cons.inj h2).2
  have hy : (m.store (a + f.length) [y]) (a + f.length) = y := by
    have hlt : 0 < [y].length := one_pos
    exact store_of_lt hlt
  rw [hn, load_add, hf, add_comm 1, load_succ, hy, hg]

end Mem

end Minibase
