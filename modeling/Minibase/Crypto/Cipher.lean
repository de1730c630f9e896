import Mathlib.Tactic.IntervalCases
import Minibase.Crypto.Aes128

/-!
# Decryption undoes encryption

Each of the four things a round of AES does has an inverse, which is what decryption does. The
tables are checked value by value. The matrix that mixes columns is linear in its first
argument (`Aes.xmul_xor`), so that there is only one byte to check at a time
(`Aes.mixed_inv`). The rounds are then undone one by one, whatever the round keys are:
`Aes.decrypt_encrypt` and `Aes.encrypt_decrypt`.
-/

namespace Minibase.Aes

/-! ### Bytes of words -/

lemma toNat_word (a b c d : UInt8) :
    (word a b c d).toNat = a.toNat * 16777216 + b.toNat * 65536 + c.toNat * 256 + d.toNat := by
  have ha := a.toNat_lt
  have hb := b.toNat_lt
  have hc := c.toNat_lt
  have hd := d.toNat_lt
  have h24 : (a.toUInt32 <<< 24).toNat = a.toNat <<< 24 := by
    rw [UInt32.toNat_shiftLeft, UInt8.toNat_toUInt32]
    exact Nat.mod_eq_of_lt (by rw [Nat.shiftLeft_eq]; show a.toNat * 2 ^ 24 < _; omega)
  have h16 : (b.toUInt32 <<< 16).toNat = b.toNat <<< 16 := by
    rw [UInt32.toNat_shiftLeft, UInt8.toNat_toUInt32]
    exact Nat.mod_eq_of_lt (by rw [Nat.shiftLeft_eq]; show b.toNat * 2 ^ 16 < _; omega)
  have h8 : (c.toUInt32 <<< 8).toNat = c.toNat <<< 8 := by
    rw [UInt32.toNat_shiftLeft, UInt8.toNat_toUInt32]
    exact Nat.mod_eq_of_lt (by rw [Nat.shiftLeft_eq]; show c.toNat * 2 ^ 8 < _; omega)
  -- the bytes do not overlap, so that or-ing them is adding them
  have e8 : c.toNat <<< 8 ||| d.toNat = c.toNat * 256 + d.toNat := by
    rw [← Nat.shiftLeft_add_eq_or_of_lt (by omega), Nat.shiftLeft_eq]
  have e16 : b.toNat <<< 16 ||| (c.toNat * 256 + d.toNat) =
      b.toNat * 65536 + (c.toNat * 256 + d.toNat) := by
    rw [← Nat.shiftLeft_add_eq_or_of_lt (by omega), Nat.shiftLeft_eq]
  have e24 : a.toNat <<< 24 ||| (b.toNat * 65536 + (c.toNat * 256 + d.toNat)) =
      a.toNat * 16777216 + (b.toNat * 65536 + (c.toNat * 256 + d.toNat)) := by
    rw [← Nat.shiftLeft_add_eq_or_of_lt (by omega), Nat.shiftLeft_eq]
  rw [word, UInt32.toNat_or, UInt32.toNat_or, UInt32.toNat_or, h24, h16, h8, UInt8.toNat_toUInt32,
    Nat.or_assoc, Nat.or_assoc, e8, e16, e24]
  omega

variable (w : UInt32) (s : Block) (x : UInt8)

lemma toNat_b0 : (b0 w).toNat = w.toNat / 16777216 := by
  have := w.toNat_lt
  rw [b0, UInt32.toNat_toUInt8, UInt32.toNat_shiftRight, Nat.shiftRight_eq_div_pow]
  show w.toNat / 16777216 % 256 = _
  omega

lemma toNat_b1 : (b1 w).toNat = w.toNat / 65536 % 256 := by
  rw [b1, UInt32.toNat_toUInt8, UInt32.toNat_shiftRight, Nat.shiftRight_eq_div_pow]
  rfl

lemma toNat_b2 : (b2 w).toNat = w.toNat / 256 % 256 := by
  rw [b2, UInt32.toNat_toUInt8, UInt32.toNat_shiftRight, Nat.shiftRight_eq_div_pow]
  rfl

lemma toNat_b3 : (b3 w).toNat = w.toNat % 256 := by
  rw [b3, UInt32.toNat_toUInt8]

section Bytes

variable (a b c d : UInt8)

@[simp] lemma b0_word : b0 (word a b c d) = a := by
  have := a.toNat_lt
  have := b.toNat_lt
  have := c.toNat_lt
  have := d.toNat_lt
  rw [← UInt8.toNat_inj, toNat_b0, toNat_word]
  omega

@[simp] lemma b1_word : b1 (word a b c d) = b := by
  have := b.toNat_lt
  have := c.toNat_lt
  have := d.toNat_lt
  rw [← UInt8.toNat_inj, toNat_b1, toNat_word]
  omega

@[simp] lemma b2_word : b2 (word a b c d) = c := by
  have := c.toNat_lt
  have := d.toNat_lt
  rw [← UInt8.toNat_inj, toNat_b2, toNat_word]
  omega

@[simp] lemma b3_word : b3 (word a b c d) = d := by
  have := d.toNat_lt
  rw [← UInt8.toNat_inj, toNat_b3, toNat_word]
  omega

end Bytes

@[simp] lemma word_bytes : word (b0 w) (b1 w) (b2 w) (b3 w) = w := by
  have := w.toNat_lt
  rw [← UInt32.toNat_inj, toNat_word, toNat_b0, toNat_b1, toNat_b2, toNat_b3]
  omega

/-! ### Blocks in memory -/

lemma be32_beBytes32 (l : List UInt8) : be32 (beBytes32 w ++ l) = w := word_bytes w

lemma beBytes32_be32 (a b c d : UInt8) (l : List UInt8) :
    beBytes32 (be32 (a :: b :: c :: d :: l)) = [a, b, c, d] := by
  show [b0 (word a b c d), b1 (word a b c d), b2 (word a b c d), b3 (word a b c d)] = _
  rw [b0_word, b1_word, b2_word, b3_word]

@[simp] lemma length_saveBlock : (saveBlock s).length = 16 := rfl

lemma drop_beBytes32 (l : List UInt8) : (beBytes32 w ++ l).drop 4 = l := rfl

lemma loadBlock_saveBlock : loadBlock (saveBlock s) = s := by
  have hsave : saveBlock s =
      beBytes32 s.S0 ++ (beBytes32 s.S1 ++ (beBytes32 s.S2 ++ (beBytes32 s.S3 ++ []))) := by
    simp only [saveBlock, List.append_assoc, List.append_nil]
  have h8 : ∀ l : List UInt8, l.drop 8 = (l.drop 4).drop 4 := fun l => by rw [List.drop_drop]
  have h12 : ∀ l : List UInt8, l.drop 12 = ((l.drop 4).drop 4).drop 4 := fun l => by
    rw [List.drop_drop, List.drop_drop]
  rw [loadBlock, hsave, h8, h12, drop_beBytes32, drop_beBytes32, drop_beBytes32, be32_beBytes32,
    be32_beBytes32, be32_beBytes32, be32_beBytes32]

/-- Sixteen bytes, one by one. -/
theorem exists_sixteen {l : List UInt8} (h : l.length = 16) :
    ∃ a b c d e f g i j k m n o p q r, l = [a, b, c, d, e, f, g, i, j, k, m, n, o, p, q, r] := by
  match l, h with
  | [a, b, c, d, e, f, g, i, j, k, m, n, o, p, q, r], _ =>
    exact ⟨a, b, c, d, e, f, g, i, j, k, m, n, o, p, q, r, rfl⟩

lemma saveBlock_loadBlock {l : List UInt8} (h : l.length = 16) : saveBlock (loadBlock l) = l := by
  obtain ⟨a, b, c, d, e, f, g, i, j, k, m, n, o, p, q, r, rfl⟩ := exists_sixteen h
  rw [saveBlock, loadBlock]
  simp only [List.drop_succ_cons, List.drop_zero]
  rw [beBytes32_be32, beBytes32_be32, beBytes32_be32, beBytes32_be32]
  rfl

/-! ### Tables -/

/-- A property of all bytes, to be checked one by one. -/
theorem forall_byte {P : UInt8 → Prop} (h : ∀ i : Fin 256, P (UInt8.ofNat i)) (x : UInt8) :
    P x := by
  have hx := h ⟨x.toNat, x.toNat_lt⟩
  rwa [UInt8.ofNat_toNat] at hx

lemma look_rbox_sbox : look rbox (look sbox x) = x :=
  forall_byte (P := fun x => look rbox (look sbox x) = x) (by decide +kernel) x

lemma look_sbox_rbox : look sbox (look rbox x) = x :=
  forall_byte (P := fun x => look sbox (look rbox x) = x) (by decide +kernel) x

lemma invSubBytes_fwdSubBytes : invSubBytes (fwdSubBytes s) = s := by
  simp only [invSubBytes, fwdSubBytes, Block.map, subword, b0_word, b1_word, b2_word, b3_word,
    look_rbox_sbox, word_bytes]

lemma fwdSubBytes_invSubBytes : fwdSubBytes (invSubBytes s) = s := by
  simp only [invSubBytes, fwdSubBytes, Block.map, subword, b0_word, b1_word, b2_word, b3_word,
    look_sbox_rbox, word_bytes]

/-! ### Rows and keys -/

lemma invShiftRows_fwdShiftRows : invShiftRows (fwdShiftRows s) = s := by
  simp only [invShiftRows, fwdShiftRows, rowshift, b0_word, b1_word, b2_word, b3_word, word_bytes]

lemma fwdShiftRows_invShiftRows : fwdShiftRows (invShiftRows s) = s := by
  simp only [invShiftRows, fwdShiftRows, rowshift, b0_word, b1_word, b2_word, b3_word, word_bytes]

lemma addRoundKey_addRoundKey (W : List UInt32) (r : ℕ) :
    addRoundKey (addRoundKey s W r) W r = s := by
  simp only [addRoundKey, UInt32.xor_assoc, UInt32.xor_self, UInt32.xor_zero]

/-! ### Columns -/

lemma xor_mul_bit {s t : ℕ} (hs : s < 2) (ht : t < 2) : (s ^^^ t) * 27 = s * 27 ^^^ t * 27 := by
  interval_cases s <;> interval_cases t <;> rfl

lemma xtime_xor (x y : ℕ) : xtime (x ^^^ y) = xtime x ^^^ xtime y := by
  have hbit : ∀ z : ℕ, z >>> 7 &&& 1 < 2 := by
    intro z
    rw [Nat.and_one_is_mod]
    omega
  simp only [xtime, Nat.shiftLeft_xor_distrib, Nat.shiftRight_xor_distrib,
    Nat.and_xor_distrib_right, xor_mul_bit (hbit x) (hbit y)]
  ac_rfl

lemma xmulLoop_xor (n x x' y m m' : ℕ) :
    xmulLoop n (x ^^^ x') y (m ^^^ m') = xmulLoop n x y m ^^^ xmulLoop n x' y m' := by
  induction n generalizing x x' y m m' with
  | zero => rfl
  | succ n ih =>
    rw [xmulLoop, xmulLoop, xmulLoop, xtime_xor]
    split
    · rw [← ih]
      congr 1
      ac_rfl
    · exact ih ..

/-- **Multiplication is linear** in its first argument. -/
theorem xmul_xor (x' y : UInt8) : xmul (x ^^^ x') y = xmul x y ^^^ xmul x' y := by
  have h := xmulLoop_xor 5 x.toNat x'.toNat y.toNat 0 0
  rw [Nat.xor_self] at h
  rw [xmul, xmul, xmul, UInt8.toNat_xor, h, UInt8.ofNat_xor]

/-- What a byte of a column contributes to another one: `x` is multiplied with the four numbers
of its own column of one matrix, and these with the numbers of a row of another. -/
def mixed (x a b c d p q r s : UInt8) : UInt8 :=
  xmul (xmul x a) p ^^^ xmul (xmul x b) q ^^^ xmul (xmul x c) r ^^^ xmul (xmul x d) s

/-- Mixing a column twice, byte by byte. -/
theorem colmul_word (s : UInt32) (p q r t a0 a1 a2 a3 b0' b1' b2' b3' c0 c1 c2 c3 d0 d1 d2 d3 :
    UInt8) :
    colmul (word (colmul s a0 a1 a2 a3) (colmul s b0' b1' b2' b3') (colmul s c0 c1 c2 c3)
        (colmul s d0 d1 d2 d3)) p q r t =
      mixed (b0 s) a0 b0' c0 d0 p q r t ^^^ mixed (b1 s) a1 b1' c1 d1 p q r t ^^^
        mixed (b2 s) a2 b2' c2 d2 p q r t ^^^ mixed (b3 s) a3 b3' c3 d3 p q r t := by
  simp only [colmul, mixed, b0_word, b1_word, b2_word, b3_word, xmul_xor]
  ac_rfl

/-- **The product of the two matrices is one**, and so is the product the other way round. -/
theorem mixed_inv : ∀ x : UInt8,
    mixed x 0x02 0x01 0x01 0x03 0x0E 0x0B 0x0D 0x09 = x ∧
    mixed x 0x03 0x02 0x01 0x01 0x0E 0x0B 0x0D 0x09 = 0 ∧
    mixed x 0x01 0x03 0x02 0x01 0x0E 0x0B 0x0D 0x09 = 0 ∧
    mixed x 0x01 0x01 0x03 0x02 0x0E 0x0B 0x0D 0x09 = 0 ∧
    mixed x 0x02 0x01 0x01 0x03 0x09 0x0E 0x0B 0x0D = 0 ∧
    mixed x 0x03 0x02 0x01 0x01 0x09 0x0E 0x0B 0x0D = x ∧
    mixed x 0x01 0x03 0x02 0x01 0x09 0x0E 0x0B 0x0D = 0 ∧
    mixed x 0x01 0x01 0x03 0x02 0x09 0x0E 0x0B 0x0D = 0 ∧
    mixed x 0x02 0x01 0x01 0x03 0x0D 0x09 0x0E 0x0B = 0 ∧
    mixed x 0x03 0x02 0x01 0x01 0x0D 0x09 0x0E 0x0B = 0 ∧
    mixed x 0x01 0x03 0x02 0x01 0x0D 0x09 0x0E 0x0B = x ∧
    mixed x 0x01 0x01 0x03 0x02 0x0D 0x09 0x0E 0x0B = 0 ∧
    mixed x 0x02 0x01 0x01 0x03 0x0B 0x0D 0x09 0x0E = 0 ∧
    mixed x 0x03 0x02 0x01 0x01 0x0B 0x0D 0x09 0x0E = 0 ∧
    mixed x 0x01 0x03 0x02 0x01 0x0B 0x0D 0x09 0x0E = 0 ∧
    mixed x 0x01 0x01 0x03 0x02 0x0B 0x0D 0x09 0x0E = x :=
  forall_byte (by decide +kernel)

/-- The product the other way round. -/
theorem mixed_fwd : ∀ x : UInt8,
    mixed x 0x0E 0x09 0x0D 0x0B 0x02 0x03 0x01 0x01 = x ∧
    mixed x 0x0B 0x0E 0x09 0x0D 0x02 0x03 0x01 0x01 = 0 ∧
    mixed x 0x0D 0x0B 0x0E 0x09 0x02 0x03 0x01 0x01 = 0 ∧
    mixed x 0x09 0x0D 0x0B 0x0E 0x02 0x03 0x01 0x01 = 0 ∧
    mixed x 0x0E 0x09 0x0D 0x0B 0x01 0x02 0x03 0x01 = 0 ∧
    mixed x 0x0B 0x0E 0x09 0x0D 0x01 0x02 0x03 0x01 = x ∧
    mixed x 0x0D 0x0B 0x0E 0x09 0x01 0x02 0x03 0x01 = 0 ∧
    mixed x 0x09 0x0D 0x0B 0x0E 0x01 0x02 0x03 0x01 = 0 ∧
    mixed x 0x0E 0x09 0x0D 0x0B 0x01 0x01 0x02 0x03 = 0 ∧
    mixed x 0x0B 0x0E 0x09 0x0D 0x01 0x01 0x02 0x03 = 0 ∧
    mixed x 0x0D 0x0B 0x0E 0x09 0x01 0x01 0x02 0x03 = x ∧
    mixed x 0x09 0x0D 0x0B 0x0E 0x01 0x01 0x02 0x03 = 0 ∧
    mixed x 0x0E 0x09 0x0D 0x0B 0x03 0x01 0x01 0x02 = 0 ∧
    mixed x 0x0B 0x0E 0x09 0x0D 0x03 0x01 0x01 0x02 = 0 ∧
    mixed x 0x0D 0x0B 0x0E 0x09 0x03 0x01 0x01 0x02 = 0 ∧
    mixed x 0x09 0x0D 0x0B 0x0E 0x03 0x01 0x01 0x02 = x :=
  forall_byte (by decide +kernel)

lemma invMixColumns_fwdMixColumns : invMixColumns (fwdMixColumns s) = s := by
  simp only [invMixColumns, fwdMixColumns, Block.map, colmul_word, mixed_inv, UInt8.xor_zero,
    UInt8.zero_xor, word_bytes]

lemma fwdMixColumns_invMixColumns : fwdMixColumns (invMixColumns s) = s := by
  simp only [invMixColumns, fwdMixColumns, Block.map, colmul_word, mixed_fwd, UInt8.xor_zero,
    UInt8.zero_xor, word_bytes]

/-! ### Rounds -/

variable (W : List UInt32)

/-- **The rounds are undone**, the last one first. -/
theorem decryptRounds_encryptRounds (r : ℕ) (s : Block) :
    decryptRounds W r (fwdShiftRows (fwdSubBytes (encryptRounds W r s))) =
      fwdShiftRows (fwdSubBytes s) := by
  induction r with
  | zero => rfl
  | succ r ih =>
    rw [decryptRounds, invShiftRows_fwdShiftRows, invSubBytes_fwdSubBytes, encryptRounds,
      addRoundKey_addRoundKey, invMixColumns_fwdMixColumns, ih]

lemma encryptRounds_decryptRounds (r : ℕ) (s : Block) :
    encryptRounds W r (invSubBytes (invShiftRows (decryptRounds W r s))) =
      invSubBytes (invShiftRows s) := by
  induction r generalizing s with
  | zero => rfl
  | succ r ih =>
    rw [decryptRounds, encryptRounds, ih, fwdSubBytes_invSubBytes, fwdShiftRows_invShiftRows,
      fwdMixColumns_invMixColumns, addRoundKey_addRoundKey]

@[simp] lemma length_encrypt (blk : List UInt8) : (encrypt W blk).length = 16 :=
  length_saveBlock _

@[simp] lemma length_decrypt (blk : List UInt8) : (decrypt W blk).length = 16 :=
  length_saveBlock _

/-- **Decryption undoes encryption.** -/
theorem decrypt_encrypt {blk : List UInt8} (h : blk.length = 16) :
    decrypt W (encrypt W blk) = blk := by
  rw [decrypt, encrypt, loadBlock_saveBlock, addRoundKey_addRoundKey, decryptRounds_encryptRounds,
    invShiftRows_fwdShiftRows, invSubBytes_fwdSubBytes, addRoundKey_addRoundKey,
    saveBlock_loadBlock h]

/-- **Encryption undoes decryption.** -/
theorem encrypt_decrypt {blk : List UInt8} (h : blk.length = 16) :
    encrypt W (decrypt W blk) = blk := by
  rw [encrypt, decrypt, loadBlock_saveBlock, addRoundKey_addRoundKey, encryptRounds_decryptRounds,
    fwdSubBytes_invSubBytes, fwdShiftRows_invShiftRows, addRoundKey_addRoundKey,
    saveBlock_loadBlock h]

end Minibase.Aes
