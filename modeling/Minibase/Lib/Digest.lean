import Minibase.Lib.Bytes
import Minibase.Lib.Records

/-!
# Hashing block by block

A hash of this kind folds one block of 64 bytes after the other into a state. A message is padded
to whole blocks first (`Digest.pad`), and what the hash then does with it is a fold over its
blocks (`Digest.run`), so that it can be fed in pieces (`Digest.blocks_append`). Nothing here
depends on the function; `Hmac.hmac` takes the whole hash the same way.

Keys derived from passwords iterate a keyed function: block `i` of a derived key is the xor of
the first `c` values of a chain that starts with the salt and the number (`Pbkdf2.T`), and the
key is as many bytes of the blocks as are asked for (`Pbkdf2.derived`).
-/

namespace Minibase

open List

/-- The `k` low bytes of a number, most significant first. -/
def beBytes : ℕ → ℕ → List UInt8
  | 0, _ => []
  | k + 1, v => UInt8.ofNat (v / 256 ^ k) :: beBytes k v

@[simp] lemma length_beBytes (k v : ℕ) : (beBytes k v).length = k := by
  induction k with
  | zero => rfl
  | succ k ih => rw [beBytes, length_cons, ih]

/-- The high bytes of a number, and the low ones. -/
theorem beBytes_add (k j v : ℕ) : beBytes (k + j) v = beBytes k (v / 256 ^ j) ++ beBytes j v := by
  induction k with
  | zero => rw [zero_add, beBytes, nil_append]
  | succ k ih =>
    rw [Nat.succ_add, beBytes, beBytes, ih, Nat.div_div_eq_div_mul, ← Nat.pow_add, add_comm j k]
    rfl

/-- What is above the low bytes does not show in them. -/
theorem beBytes_mod {k j : ℕ} (h : k ≤ j) (v : ℕ) : beBytes k (v % 256 ^ j) = beBytes k v := by
  induction k with
  | zero => rfl
  | succ k ih =>
    obtain ⟨d, rfl⟩ := Nat.exists_eq_add_of_le h
    rw [beBytes, beBytes, ih (Nat.le_of_succ_le h)]
    congr 1
    apply UInt8.toNat_inj.mp
    rw [UInt8.toNat_ofNat', UInt8.toNat_ofNat', add_assoc, Nat.pow_add, Nat.pow_add,
      Nat.mod_mul_right_div_self, Nat.pow_one]
    exact Nat.mod_mul_right_mod _ _ _

namespace Digest

/-! ### Padding -/

/-- How many zeros go between the marker and the length of a message of `n` bytes. -/
def zeros (n : ℕ) : ℕ := (119 - n % 64) % 64

/-- What follows a message of `n` bytes. -/
def padding (n : ℕ) : List UInt8 := 0x80 :: (replicate (zeros n) 0 ++ beBytes 8 (8 * n))

/-- The padded message. -/
def pad (m : List UInt8) : List UInt8 := m ++ padding m.length

lemma length_padding (n : ℕ) : (padding n).length = 1 + zeros n + 8 := by
  rw [padding, length_cons, length_append, length_replicate, length_beBytes]
  omega

/-! ### Blocks -/

/-- The blocks of a message, without what is left after the last whole one. -/
def blocks (l : List UInt8) : List (List UInt8) := (range (l.length / 64)).map (piece 64 l)

variable {l : List UInt8} {σ : Type}

lemma length_of_mem_blocks {b : List UInt8} (h : b ∈ blocks l) : b.length = 64 := by
  obtain ⟨t, ht, rfl⟩ := mem_map.mp h
  have hlt := mem_range.mp ht
  rw [piece, pread, length_take, length_drop]
  omega

lemma blocks_of_lt (h : l.length < 64) : blocks l = [] := by
  rw [blocks, Nat.div_eq_of_lt h]
  rfl

/-- The first block, and the blocks of what follows it. -/
theorem blocks_of_le (h : 64 ≤ l.length) : blocks l = l.take 64 :: blocks (l.drop 64) := by
  have hn : l.length / 64 = (l.length - 64) / 64 + 1 := by omega
  rw [blocks, hn, range_succ_eq_map, map_cons, map_map, blocks, length_drop]
  congr 1
  refine map_congr_left fun t _ => ?_
  rw [Function.comp_apply, piece, piece, pread, pread, drop_drop, Nat.mul_succ, add_comm]

lemma blocks_of_eq (h : l.length = 64) : blocks l = [l] := by
  have hrest : (l.drop 64).length < 64 := by
    rw [length_drop]
    omega
  rw [blocks_of_le (le_of_eq h.symm), blocks_of_lt hrest, take_of_length_le (le_of_eq h)]

/-- **A message that starts with whole blocks** is those blocks and then the rest. -/
theorem blocks_append {m : List UInt8} (h : 64 ∣ l.length) :
    blocks (l ++ m) = blocks l ++ blocks m := by
  obtain ⟨n, hn⟩ := h
  induction n generalizing l with
  | zero =>
    obtain rfl : l = [] := length_eq_zero_iff.mp hn
    rfl
  | succ n ih =>
    have hl : 64 ≤ l.length := by omega
    have hlm : 64 ≤ (l ++ m).length := by
      rw [length_append]
      omega
    rw [blocks_of_le hl, blocks_of_le hlm, take_append_of_le_length hl,
      drop_append_of_le_length hl, cons_append, ih]
    rw [length_drop]
    omega

/-! ### The hash -/

/-- The state after a message, from the state `s`. -/
def run {σ : Type} (f : σ → List UInt8 → σ) (s : σ) (m : List UInt8) : σ := (blocks m).foldl f s

@[simp] lemma run_nil (f : σ → List UInt8 → σ) (s : σ) : run f s [] = s := rfl

variable {f : σ → List UInt8 → σ}

lemma run_append {s : σ} {m : List UInt8} (h : 64 ∣ l.length) :
    run f s (l ++ m) = run f (run f s l) m := by
  rw [run, blocks_append h, foldl_append]
  rfl

lemma run_block {s : σ} (h : l.length = 64) : run f s l = f s l := by
  rw [run, blocks_of_eq h]
  rfl

/-- Two hashes whose functions agree on blocks agree. -/
theorem map_run {τ : Type} {g : τ → List UInt8 → τ} (φ : σ → τ)
    (h : ∀ s b, b.length = 64 → φ (f s b) = g (φ s) b) (s : σ) (m : List UInt8) :
    φ (run f s m) = run g (φ s) m := by
  have hall : ∀ L : List (List UInt8), (∀ b ∈ L, b.length = 64) → ∀ s,
      φ (L.foldl f s) = L.foldl g (φ s) := by
    intro L
    induction L with
    | nil => exact fun _ _ => rfl
    | cons b L ih =>
      intro hL s
      rw [foldl_cons, foldl_cons, ih (fun c hc => hL c (mem_cons_of_mem b hc)),
        h s b (hL b mem_cons_self)]
  exact hall (blocks m) (fun b hb => length_of_mem_blocks hb) s

end Digest

/-! ### Keyed hashes -/

namespace Hmac

/-- A key of the size of a block: a longer one is hashed first, a shorter one is filled up
with zeros. -/
def blockKey (H : List UInt8 → List UInt8) (key : List UInt8) : List UInt8 :=
  let k := if key.length ≤ 64 then key else H key
  k ++ replicate (64 - k.length) 0

/-- The keyed hash made from a hash `H`, with its two masks. -/
def hmac (H : List UInt8 → List UInt8) (key m : List UInt8) : List UInt8 :=
  let k := blockKey H key
  H (k.map (· ^^^ 0x5C) ++ H (k.map (· ^^^ 0x36) ++ m))

lemma length_blockKey {H : List UInt8 → List UInt8} (h : ∀ m, (H m).length ≤ 64)
    (key : List UInt8) : (blockKey H key).length = 64 := by
  rw [blockKey]
  have := h key
  split_ifs with hk
  · rw [length_append, length_replicate]
    omega
  · rw [length_append, length_replicate]
    omega

end Hmac

/-! ### Keys derived from passwords -/

namespace Pbkdf2

/-- Byte by byte. -/
def xor (l m : List UInt8) : List UInt8 := zipWith (· ^^^ ·) l m

@[simp] lemma length_xor (l m : List UInt8) : (xor l m).length = min l.length m.length :=
  length_zipWith

/-- Zeros change nothing. -/
theorem xor_zeros (m : List UInt8) : xor (replicate m.length 0) m = m := by
  induction m with
  | nil => rfl
  | cons b m ih =>
    show (0 ^^^ b) :: xor (replicate m.length 0) m = b :: m
    rw [ih, UInt8.zero_xor]

section Derive

variable (prf : List UInt8 → List UInt8 → List UInt8) (h : ℕ) (P S : List UInt8)

/-- The chain of block `i`; its first value is number `0`. -/
def U (i : ℕ) : ℕ → List UInt8
  | 0 => prf P (S ++ beBytes 4 i)
  | j + 1 => prf P (U i j)

/-- Block `i`: the xor of the first `c` values of its chain, of `h` bytes each. -/
def T (i : ℕ) : ℕ → List UInt8
  | 0 => replicate h 0
  | c + 1 => xor (T i c) (U prf P S i c)

/-- The first `n` blocks, which count from one. -/
def stream (c n : ℕ) : List UInt8 := ((range n).map fun k => T prf h P S (k + 1) c).flatten

/-- The derived key of `len` bytes. -/
def derived (c len : ℕ) : List UInt8 := (stream prf h P S c ((len + h - 1) / h)).take len

variable {prf h P S}

lemma length_T (hprf : ∀ k m, (prf k m).length = h) (i c : ℕ) : (T prf h P S i c).length = h := by
  induction c with
  | zero => exact length_replicate
  | succ c ih =>
    have hU : (U prf P S i c).length = h := by
      cases c
      · exact hprf _ _
      · exact hprf _ _
    rw [T, length_xor, ih, hU, Nat.min_self]

lemma T_one (hprf : ∀ k m, (prf k m).length = h) (i : ℕ) :
    T prf h P S i 1 = prf P (S ++ beBytes 4 i) := by
  rw [T, T, U]
  have hlen := hprf P (S ++ beBytes 4 i)
  rw [← hlen, xor_zeros]

lemma stream_succ (c n : ℕ) :
    stream prf h P S c (n + 1) = stream prf h P S c n ++ T prf h P S (n + 1) c := by
  rw [stream, range_succ, map_append, flatten_append, stream]
  simp

lemma length_stream (hprf : ∀ k m, (prf k m).length = h) (c n : ℕ) :
    (stream prf h P S c n).length = h * n := by
  induction n with
  | zero => rfl
  | succ n ih => rw [stream_succ, length_append, ih, length_T hprf, Nat.mul_succ]

/-- Fewer blocks are the front of more. -/
theorem stream_take (hprf : ∀ k m, (prf k m).length = h) {c n k : ℕ} (hle : n ≤ k) :
    (stream prf h P S c k).take (h * n) = stream prf h P S c n := by
  induction k, hle using Nat.le_induction with
  | base => exact take_of_length_le (Nat.le_of_eq (length_stream hprf c n))
  | succ k hk ih =>
    have hlen : h * n ≤ (stream prf h P S c k).length := by
      rw [length_stream hprf]
      exact Nat.mul_le_mul_left h hk
    rw [stream_succ, take_append_of_le_length hlen, ih]

lemma le_mul_blocks (hpos : 0 < h) (len : ℕ) : len ≤ h * ((len + h - 1) / h) := by
  have h1 := Nat.div_add_mod (len + h - 1) h
  have h2 := Nat.mod_lt (len + h - 1) hpos
  omega

/-- **The derived key has the length asked for.** -/
theorem length_derived (hprf : ∀ k m, (prf k m).length = h) (hpos : 0 < h) (c len : ℕ) :
    (derived prf h P S c len).length = len := by
  rw [derived, length_take, length_stream hprf]
  exact min_eq_left (le_mul_blocks hpos len)

/-- The derived key is the front of any number of blocks that has it. -/
theorem derived_eq (hprf : ∀ k m, (prf k m).length = h) (hpos : 0 < h) {c len n : ℕ}
    (hn : len ≤ h * n) : derived prf h P S c len = (stream prf h P S c n).take len := by
  have hle : (len + h - 1) / h ≤ n := by
    have hlt : len + h - 1 < h * (n + 1) := by
      rw [Nat.mul_succ]
      omega
    exact Nat.lt_succ_iff.mp (Nat.div_lt_of_lt_mul hlt)
  rw [derived, ← stream_take hprf hle, take_take, min_eq_left (le_mul_blocks hpos len)]

/-- **A shorter key is the front of a longer one.** -/
theorem derived_take (hprf : ∀ k m, (prf k m).length = h) (hpos : 0 < h) {c len k : ℕ}
    (hle : len ≤ k) : (derived prf h P S c k).take len = derived prf h P S c len := by
  rw [derived_eq hprf hpos (le_trans hle (le_mul_blocks hpos k)), derived, take_take,
    min_eq_left hle]

end Derive

end Pbkdf2

end Minibase
