import Mathlib.Data.List.GetD
import Minibase.Crypto.Cipher

/-!
# Unwrapping undoes wrapping

Since decryption undoes encryption, one step of unwrapping undoes the same step of wrapping
(`unwrapStep_wrapStep`), and the loops of the two functions go through the steps in opposite
orders. The round trip is `wrap_round_trip`, in both directions.
-/

namespace Minibase

open List Aes

/-! ### Buffers -/

/-- A buffer that may be wrapped: whole blocks of eight bytes, at least two of them. Up to the
size given here the counters of both functions, `uint` in one and `int` in the other, are the
numbers they stand for. -/
structure WrapBuf where
  data : List UInt8
  whole : 8 ∣ data.length
  min : 16 ≤ data.length
  max : data.length ≤ 2 ^ 28

/-- What the loops work on: `n + 1` blocks of eight bytes each. -/
structure Blocks (n : ℕ) (R : List (List UInt8)) : Prop where
  length : R.length = n + 1
  eight : ∀ b ∈ R, b.length = 8

variable {l : List UInt8}

lemma blocks8_blocks (n : ℕ) (h : l.length = 8 * (n + 1)) : Blocks n (blocks8 (n + 1) l) := by
  have hlen : ∀ (k : ℕ) (l : List UInt8), (blocks8 k l).length = k := by
    intro k
    induction k with
    | zero => exact fun _ => rfl
    | succ k ih => exact fun l => by rw [blocks8, length_cons, ih]
  have height : ∀ (k : ℕ) (l : List UInt8), l.length = 8 * k → ∀ b ∈ blocks8 k l, b.length = 8 := by
    intro k
    induction k with
    | zero => exact fun _ _ b hb => absurd hb not_mem_nil
    | succ k ih =>
      intro l hl b hb
      rw [blocks8, mem_cons] at hb
      rcases hb with rfl | hb
      · rw [length_take]
        omega
      · exact ih (l.drop 8) (by rw [length_drop]; omega) b hb
  exact ⟨hlen _ l, height _ l h⟩

/-- The blocks of a buffer, put together again. -/
theorem flatten_blocks8 (k : ℕ) (h : l.length = 8 * k) : (blocks8 k l).flatten = l := by
  induction k generalizing l with
  | zero => exact (length_eq_zero_iff.mp h).symm
  | succ k ih =>
    rw [blocks8, flatten_cons, ih (by rw [length_drop]; omega), take_append_drop]

/-- The blocks of a buffer that was put together from blocks. -/
theorem blocks8_flatten {R : List (List UInt8)} (h : ∀ b ∈ R, b.length = 8) :
    blocks8 R.length R.flatten = R := by
  induction R with
  | nil => rfl
  | cons b R ih =>
    have hb := h b mem_cons_self
    have hR := ih fun c hc => h c (mem_cons_of_mem b hc)
    rw [length_cons, blocks8, flatten_cons, take_left' hb, drop_left' hb, hR]

variable {n : ℕ}

lemma length_flatten_blocks {R : List (List UInt8)} (h : Blocks n R) :
    R.flatten.length = 8 * (n + 1) := by
  rw [length_flatten, map_congr_left h.eight, map_const', sum_replicate_nat, h.length, mul_comm]

/-! ### Steps -/

lemma zipWith_xor_cancel {m : List UInt8} (h : l.length = m.length) :
    zipWith (· ^^^ ·) (zipWith (· ^^^ ·) l m) m = l := by
  refine ext_getElem (by simp [h]) fun i h1 h2 => ?_
  simp only [getElem_zipWith]
  rw [UInt8.xor_assoc, UInt8.xor_self, UInt8.xor_zero]

@[simp] lemma length_wrapmask (n : ℕ) : (wrapmask n).length = 8 := rfl

section Step

variable {W : List UInt32} {n j i : ℕ} {R : List (List UInt8)}

/-- The first block and another one, changed. -/
theorem Blocks.set_set (h : Blocks n R) {a b : List UInt8} (ha : a.length = 8) (hb : b.length = 8) :
    Blocks n ((R.set 0 a).set i b) := by
  refine ⟨by rw [length_set, length_set, h.length], fun c hc => ?_⟩
  rcases mem_or_eq_of_mem_set hc with hc | rfl
  · rcases mem_or_eq_of_mem_set hc with hc | rfl
    · exact h.eight c hc
    · exact ha
  · exact hb

lemma Blocks.getD (h : Blocks n R) (hi : i ≤ n) : (R.getD i []).length = 8 := by
  have hlt : i < R.length := by
    rw [h.length]
    omega
  rw [getD_eq_getElem R [] hlt]
  exact h.eight _ (getElem_mem hlt)

/-- Reading the two blocks back. -/
theorem Blocks.getD_set_set (h : Blocks n R) (hi : i + 1 ≤ n) (a b : List UInt8) :
    ((R.set 0 a).set (i + 1) b).getD 0 [] = a ∧ ((R.set 0 a).set (i + 1) b).getD (i + 1)
    [] = b := by
  have h0 : 0 < R.length := by
    rw [h.length]
    omega
  have h1 : i + 1 < R.length := by
    rw [h.length]
    omega
  constructor
  · rw [getD_eq_getElem _ _ (by simpa using h0), getElem_set_ne (by omega), getElem_set_self]
  · rw [getD_eq_getElem _ _ (by simpa using h1), getElem_set_self]

/-- Changing the two blocks twice, and to what they were in the end. -/
theorem set_set_restore (a b : List UInt8) (hi : i + 1 < R.length) :
    (((R.set 0 a).set (i + 1) b).set 0 (R.getD 0 [])).set (i + 1) (R.getD (i + 1) []) = R := by
  have h0 : 0 < R.length := by omega
  rw [set_comm _ _ (by omega : i + 1 ≠ 0), set_set, set_set,
    getD_eq_getElem _ _ h0, set_getElem_self, getD_eq_getElem _ _ hi,
    set_getElem_self]

lemma blocks_wrapStep (h : Blocks n R) : Blocks n (wrapStep W n j i R) := by
  have hlen := length_encrypt W (R.getD 0 [] ++ R.getD i [])
  refine h.set_set ?_ ?_
  · rw [length_zipWith, length_take, hlen, length_wrapmask]
    rfl
  · rw [length_drop, hlen]

lemma blocks_unwrapStep (h : Blocks n R) : Blocks n (unwrapStep W n j i R) := by
  refine h.set_set ?_ ?_
  · rw [length_take, length_decrypt]
    rfl
  · rw [length_drop, length_decrypt]

/-- **A step of wrapping is undone** by the same step of unwrapping. -/
theorem unwrapStep_wrapStep (h : Blocks n R) (hi : i + 1 ≤ n) :
    unwrapStep W n j (i + 1) (wrapStep W n j (i + 1) R) = R := by
  have h0 := h.getD (Nat.zero_le n)
  have h1 := h.getD hi
  have hlen := length_encrypt W (R.getD 0 [] ++ R.getD (i + 1) [])
  have hblk : (R.getD 0 [] ++ R.getD (i + 1) []).length = 16 := by
    rw [length_append, h0, h1]
  rw [wrapStep]
  generalize hB : encrypt W (R.getD 0 [] ++ R.getD (i + 1) []) = B at hlen ⊢
  obtain ⟨e0, e1⟩ := h.getD_set_set hi
    (List.zipWith (· ^^^ ·) (B.take 8) (wrapmask (n * j + (i + 1)))) (B.drop 8)
  rw [unwrapStep, e0, e1, zipWith_xor_cancel (by rw [length_take, hlen]; rfl),
    take_append_drop, ← hB, decrypt_encrypt W hblk, take_left' h0,
    drop_left' h0]
  exact set_set_restore _ _ (by rw [h.length]; omega)

/-- **A step of unwrapping is undone** by the same step of wrapping. -/
theorem wrapStep_unwrapStep (h : Blocks n R) (hi : i + 1 ≤ n) :
    wrapStep W n j (i + 1) (unwrapStep W n j (i + 1) R) = R := by
  have h0 := h.getD (Nat.zero_le n)
  have h1 := h.getD hi
  have hx : (List.zipWith (· ^^^ ·) (R.getD 0 []) (wrapmask (n * j + (i + 1)))).length = 8 := by
    rw [length_zipWith, h0, length_wrapmask]
    rfl
  rw [unwrapStep]
  generalize hX : List.zipWith (· ^^^ ·) (R.getD 0 []) (wrapmask (n * j + (i + 1))) = X at hx ⊢
  have hblk : (X ++ R.getD (i + 1) []).length = 16 := by
    rw [length_append, hx, h1]
  generalize hB : decrypt W (X ++ R.getD (i + 1) []) = B
  obtain ⟨e0, e1⟩ := h.getD_set_set hi (B.take 8) (B.drop 8)
  rw [wrapStep, e0, e1, take_append_drop, ← hB, encrypt_decrypt W hblk,
    take_left' hx, drop_left' hx, ← hX,
    zipWith_xor_cancel (by rw [h0, length_wrapmask])]
  exact set_set_restore _ _ (by rw [h.length]; omega)

end Step

/-! ### Loops -/

section Loop

variable {W : List UInt32} {n j : ℕ} {R : List (List UInt8)}

section

variable (h : Blocks n R)
include h

lemma blocks_wrapInner (i : ℕ) : Blocks n (wrapInner W n j i R) := by
  induction i with
  | zero => exact h
  | succ i ih => exact blocks_wrapStep ih

lemma blocks_unwrapInner (i : ℕ) : Blocks n (unwrapInner W n j i R) := by
  induction i generalizing R with
  | zero => exact h
  | succ i ih => exact ih (blocks_unwrapStep h)

lemma unwrapInner_wrapInner (i : ℕ) (hi : i ≤ n) :
    unwrapInner W n j i (wrapInner W n j i R) = R := by
  induction i with
  | zero => rfl
  | succ i ih =>
    rw [unwrapInner, wrapInner, unwrapStep_wrapStep (blocks_wrapInner h i) hi, ih (by omega)]

lemma wrapInner_unwrapInner (i : ℕ) (hi : i ≤ n) :
    wrapInner W n j i (unwrapInner W n j i R) = R := by
  induction i generalizing R with
  | zero => rfl
  | succ i ih =>
    rw [unwrapInner, wrapInner, ih (blocks_unwrapStep h) (by omega), wrapStep_unwrapStep h hi]

lemma blocks_wrapOuter (j : ℕ) : Blocks n (wrapOuter W n j R) := by
  induction j with
  | zero => exact h
  | succ j ih => exact blocks_wrapInner ih n

lemma blocks_unwrapOuter (j : ℕ) : Blocks n (unwrapOuter W n j R) := by
  induction j generalizing R with
  | zero => exact h
  | succ j ih => exact ih (blocks_unwrapInner h n)

lemma unwrapOuter_wrapOuter (j : ℕ) : unwrapOuter W n j (wrapOuter W n j R) = R := by
  induction j with
  | zero => rfl
  | succ j ih =>
    rw [unwrapOuter, wrapOuter, unwrapInner_wrapInner (blocks_wrapOuter h j) n (le_refl n), ih]

lemma wrapOuter_unwrapOuter (j : ℕ) : wrapOuter W n j (unwrapOuter W n j R) = R := by
  induction j generalizing R with
  | zero => rfl
  | succ j ih =>
    rw [unwrapOuter, wrapOuter, ih (blocks_unwrapInner h n), wrapInner_unwrapInner h n (le_refl n)]

end

end Loop

/-! ### Buffers, wrapped and unwrapped -/

/-- Two functions on blocks that undo each other do so on buffers. -/
theorem flatten_inverse {f g : List (List UInt8) → List (List UInt8)}
    (hl : l.length = 8 * (n + 1)) (hf : ∀ R, Blocks n R → Blocks n (f R))
    (hg : ∀ R, Blocks n R → g (f R) = R) :
    (f (blocks8 (n + 1) l)).flatten.length = 8 * (n + 1) ∧
      (g (blocks8 (n + 1) (f (blocks8 (n + 1) l)).flatten)).flatten = l := by
  have hR := blocks8_blocks n hl
  have hfR := hf _ hR
  refine ⟨length_flatten_blocks hfR, ?_⟩
  have hback := blocks8_flatten hfR.eight
  rw [hfR.length] at hback
  rw [hback, hg _ hR, flatten_blocks8 (n + 1) hl]

variable {key : List UInt8}

lemma aes128Wrap_eq (hl : l.length = 8 * (n + 1)) :
    aes128Wrap key l = (wrapOuter (init key) n 6 (blocks8 (n + 1) l)).flatten := by
  have hn : l.length / 8 - 1 = n := by omega
  rw [aes128Wrap, hn, drop_of_length_le (by omega), append_nil]

lemma aes128Unwrap_eq (hl : l.length = 8 * (n + 1)) :
    aes128Unwrap key l = (unwrapOuter (init key) n 6 (blocks8 (n + 1) l)).flatten := by
  have hn : l.length / 8 - 1 = n := by omega
  rw [aes128Unwrap, hn, drop_of_length_le (by omega), append_nil]

lemma length_aes128Wrap (hl : l.length = 8 * (n + 1)) :
    (aes128Wrap key l).length = 8 * (n + 1) := by
  rw [aes128Wrap_eq hl]
  exact length_flatten_blocks (blocks_wrapOuter (blocks8_blocks n hl) 6)

/-- **What was wrapped is unwrapped.** -/
theorem aes128Unwrap_aes128Wrap (hl : l.length = 8 * (n + 1)) :
    aes128Unwrap key (aes128Wrap key l) = l := by
  obtain ⟨h1, h2⟩ := flatten_inverse hl (fun R hR => blocks_wrapOuter (W := init key) hR 6)
    fun R hR => unwrapOuter_wrapOuter hR 6
  rw [aes128Wrap_eq hl, aes128Unwrap_eq h1, h2]

lemma aes128Wrap_aes128Unwrap (hl : l.length = 8 * (n + 1)) :
    aes128Wrap key (aes128Unwrap key l) = l := by
  obtain ⟨h1, h2⟩ := flatten_inverse hl (fun R hR => blocks_unwrapOuter (W := init key) hR 6)
    fun R hR => wrapOuter_unwrapOuter hR 6
  rw [aes128Unwrap_eq hl, aes128Wrap_eq h1, h2]

/-- **Wrapping and unwrapping undo each other**, for every key and every buffer, and the cipher
they use does so for every block. -/
theorem wrap_round_trip (key : Bytes 16) (buf : WrapBuf) :
    aes128Unwrap key.data (aes128Wrap key.data buf.data) = buf.data ∧
      aes128Wrap key.data (aes128Unwrap key.data buf.data) = buf.data ∧
      ∀ blk : Bytes 16,
        decrypt (init key.data) (encrypt (init key.data) blk.data) = blk.data := by
  obtain ⟨n, hn⟩ : ∃ n, buf.data.length = 8 * (n + 1) := by
    obtain ⟨k, hk⟩ := buf.whole
    have := buf.min
    exact ⟨k - 1, by omega⟩
  exact ⟨aes128Unwrap_aes128Wrap hn, aes128Wrap_aes128Unwrap hn,
    fun blk => decrypt_encrypt _ blk.size⟩

end Minibase
