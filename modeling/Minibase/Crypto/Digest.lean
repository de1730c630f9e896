import Minibase.Crypto.Sha
import Minibase.Lib.Fips

/-!
# Messages hash to what the standard says

`sha1.c` and `sha256.c` pad the last block by hand, in two blocks when the length of the
message does not fit behind its tail and in one when it does. Either way what is taken in
is the tail and the standard's padding (`Sha.last_eq_run`, `Sha.hashRest_eq_run`). The block
functions are the standard's (`Sha1.W_load`, `Sha256.W_load`).
-/

namespace Minibase

open Digest List Option Fips Hmac Sha1

/-! ### Words and bytes -/

lemma be32_eq {l : List UInt8} (h : l.length = 4) : be32 l = UInt32.ofNat (beVal l) := by
  obtain ⟨a, b, c, d, rfl⟩ : ∃ a b c d, l = [a, b, c, d] := by
    rcases l with - | ⟨a, - | ⟨b, - | ⟨c, - | ⟨d, - | ⟨e, l⟩⟩⟩⟩⟩ <;>
      first
        | exact ⟨_, _, _, _, rfl⟩
        | simp at h
  have ha := a.toNat_lt
  have hb := b.toNat_lt
  have hc := c.toNat_lt
  have hd := d.toNat_lt
  have hval : beVal [a, b, c, d] =
      a.toNat * 2 ^ 24 + (b.toNat * 2 ^ 16 + (c.toNat * 2 ^ 8 + d.toNat)) := by
    simp [beVal]
  -- the bytes do not overlap, so or-ing them is adding them
  have hcd : c.toNat <<< 8 ||| d.toNat = c.toNat * 2 ^ 8 + d.toNat := by
    rw [← Nat.shiftLeft_add_eq_or_of_lt hd, Nat.shiftLeft_eq]
  have hbcd : b.toNat <<< 16 ||| (c.toNat * 2 ^ 8 + d.toNat) =
      b.toNat * 2 ^ 16 + (c.toNat * 2 ^ 8 + d.toNat) := by
    rw [← Nat.shiftLeft_add_eq_or_of_lt (by omega), Nat.shiftLeft_eq]
  have habcd : a.toNat <<< 24 ||| (b.toNat * 2 ^ 16 + (c.toNat * 2 ^ 8 + d.toNat)) =
      a.toNat * 2 ^ 24 + (b.toNat * 2 ^ 16 + (c.toNat * 2 ^ 8 + d.toNat)) := by
    rw [← Nat.shiftLeft_add_eq_or_of_lt (by omega), Nat.shiftLeft_eq]
  apply UInt32.toNat_inj.mp
  rw [hval, UInt32.toNat_ofNat_of_lt' (by show _ < 2 ^ 32; omega), ← habcd, ← hbcd, ← hcd]
  simp only [be32, getD_cons_zero, getD_cons_succ, UInt32.toNat_or,
    UInt32.toNat_shiftLeft, UInt8.toNat_toUInt32, Nat.or_assoc]
  have h24 : a.toNat <<< (UInt32.toNat 24 % 32) % 2 ^ 32 = a.toNat <<< 24 := by
    show a.toNat <<< 24 % 2 ^ 32 = _
    rw [Nat.shiftLeft_eq, Nat.mod_eq_of_lt (by omega)]
  have h16 : b.toNat <<< (UInt32.toNat 16 % 32) % 2 ^ 32 = b.toNat <<< 16 := by
    show b.toNat <<< 16 % 2 ^ 32 = _
    rw [Nat.shiftLeft_eq, Nat.mod_eq_of_lt (by omega)]
  have h8 : c.toNat <<< (UInt32.toNat 8 % 32) % 2 ^ 32 = c.toNat <<< 8 := by
    show c.toNat <<< 8 % 2 ^ 32 = _
    rw [Nat.shiftLeft_eq, Nat.mod_eq_of_lt (by omega)]
  rw [h24, h16, h8]

lemma beBytes32_eq (x : UInt32) : beBytes32 x = bytes x := by
  have hb : ∀ k : ℕ, UInt8.ofNat (x.toNat / 2 ^ k) = UInt8.ofNat (x.toNat >>> k) := fun k => by
    rw [Nat.shiftRight_eq_div_pow]
  rw [beBytes32, bytes]
  simp only [beBytes]
  refine congrArg₂ _ ?_ (congrArg₂ _ ?_ (congrArg₂ _ ?_ (congrArg₂ _ ?_ rfl)))
  all_goals
    apply UInt8.toNat_inj.mp
    simp [Nat.shiftRight_eq_div_pow]

/-- **The size field** is the number of bits, in eight bytes. -/
theorem size_eq {n : ℕ} (h : n < 2 ^ 61) :
    beBytes32 ((UInt64.ofNat n <<< 3) >>> 32).toUInt32 ++ beBytes32
    (UInt64.ofNat n <<< 3).toUInt32 = beBytes 8 (8 * n) := by
  have hbits : (UInt64.ofNat n <<< 3).toNat = 8 * n := by
    rw [UInt64.toNat_shiftLeft, UInt64.toNat_ofNat_of_lt' (by show _ < 2 ^ 64; omega)]
    show n <<< 3 % 2 ^ 64 = _
    rw [Nat.shiftLeft_eq, Nat.mod_eq_of_lt (by omega), mul_comm]
  have hhi : ((UInt64.ofNat n <<< 3) >>> 32).toUInt32.toNat = 8 * n / 2 ^ 32 := by
    rw [UInt64.toNat_toUInt32, UInt64.toNat_shiftRight, hbits]
    show (8 * n) >>> 32 % 2 ^ 32 = _
    rw [Nat.shiftRight_eq_div_pow, Nat.mod_eq_of_lt (by omega)]
  have hlo : (UInt64.ofNat n <<< 3).toUInt32.toNat = 8 * n % 2 ^ 32 := by
    rw [UInt64.toNat_toUInt32, hbits]
  rw [beBytes32_eq, beBytes32_eq, bytes, bytes, hhi, hlo]
  show beBytes 4 (8 * n / 256 ^ 4) ++ beBytes 4 (8 * n % 256 ^ 4) = _
  rw [beBytes_mod (le_refl 4), ← beBytes_add]

/-! ### Padding -/

namespace Sha1

variable {p : List UInt8}

/-- The one-block case: the tail, the marker, the zeros and the size. -/
theorem putSize_padTail {n : ℕ} (hp : p.length = n % 64) (h : ¬ n % 64 > 55) (hn : n < 2 ^ 61) :
    putSize (padTail p (n % 64)) (UInt64.ofNat n) = p ++ padding n := by
  have hz : zeros n = 55 - n % 64 := by
    rw [zeros]
    omega
  have htail : padTail p (n % 64) = (p ++ 0x80 :: replicate (zeros n) 0) ++ replicate 8 0 := by
    rw [padTail, take_of_length_le (le_of_eq hp), append_assoc, cons_append, ← replicate_add, hz]
    congr 3
    omega
  have hlen : (p ++ 0x80 :: replicate (zeros n) 0).length = 56 := by
    rw [length_append, length_cons, length_replicate, hp, hz]
    omega
  rw [putSize, htail, take_left' hlen, append_assoc, size_eq hn, padding, append_assoc, cons_append]

/-- The two-block case: the size is pushed out behind zeros only. -/
theorem padTail_append {n : ℕ} (hp : p.length = n % 64) (h : n % 64 > 55) (hn : n < 2 ^ 61) :
    padTail p (n % 64) ++ putSize (replicate 64 0) (UInt64.ofNat n) = p ++ padding n := by
  have hz : zeros n = (63 - n % 64) + 56 := by
    rw [zeros]
    omega
  rw [putSize, append_assoc, size_eq hn, padTail, take_of_length_le (le_of_eq hp),
    padding, hz, replicate_add, take_replicate, append_assoc, append_assoc,
    cons_append]
  rfl

lemma length_padTail {t : ℕ} (hp : p.length = t) (h : t < 64) : (padTail p t).length = 64 := by
  rw [padTail, take_of_length_le (le_of_eq hp), length_append, length_cons, length_replicate, hp]
  omega

end Sha1

namespace Sha

variable {σ : Type} {proc : σ → List UInt8 → σ}

variable (sh : σ)

/-- **The last block**, in either case: the tail and the standard's padding are taken in. -/
theorem last_eq_run {p : List UInt8} {n : ℕ} (hp : p.length = n % 64) (hn : n < 2 ^ 61) :
    last proc sh p p.length (UInt64.ofNat n) = run proc sh (p ++ padding n) := by
  have hlt : n % 64 < 64 := Nat.mod_lt n (Nat.succ_pos 63)
  have hlen : p.length % 64 = n % 64 := by rw [hp, Nat.mod_mod]
  rw [last, hlen]
  split_ifs with h
  · have h1 := length_padTail hp hlt
    have h2 : (putSize (replicate 64 0) (UInt64.ofNat n)).length = 64 := rfl
    rw [← padTail_append hp h hn, run_append (by rw [h1]), run_block h1, run_block h2]
  · have h1 : (p ++ padding n).length = 64 := by
      rw [length_append, length_padding, hp, zeros]
      omega
    rw [putSize_padTail hp h hn, run_block h1]

/-- The loop takes whole blocks in, as many as there are, and leaves the tail. -/
theorem blocks_eq_run (p : List UInt8) :
    blocks proc (p.length / 64) sh p =
      (run proc sh (p.take (64 * (p.length / 64))), p.drop (64 * (p.length / 64))) := by
  obtain ⟨n, hn⟩ : ∃ n, p.length / 64 = n := ⟨_, rfl⟩
  rw [hn]
  induction n generalizing sh p with
  | zero =>
    rw [blocks, mul_zero, take_zero, drop_zero, run_nil]
  | succ n ih =>
    have hle : 64 ≤ p.length := by omega
    have hfirst : (p.take 64).length = 64 := length_take_of_le hle
    have hrest : (p.drop 64).length / 64 = n := by
      rw [length_drop]
      omega
    rw [blocks, if_pos hle, ih _ _ hrest, drop_drop, Nat.mul_succ, add_comm (64 * n) 64,
      take_add, run_append (by rw [hfirst]), run_block hfirst]

/-- **A message is hashed as its padded blocks**: after `prev` bytes of whole blocks the
rest is taken in with the padding of all of it. -/
theorem hashRest_eq_run {prev : ℕ} (input : List UInt8) (h : 64 ∣ prev)
    (hn : input.length + prev < 2 ^ 61) :
    hashRest proc sh input prev = run proc sh (input ++ padding (input.length + prev)) := by
  have htake : 64 ∣ (input.take (64 * (input.length / 64))).length := by
    rw [length_take, min_eq_left (Nat.mul_div_le _ _)]
    exact Nat.dvd_mul_right 64 _
  have htail : (input.drop (64 * (input.length / 64))).length = (input.length + prev) % 64 := by
    rw [length_drop]
    omega
  rw [hashRest, blocks_eq_run, last_eq_run _ htail hn, ← run_append htake, ← append_assoc,
    take_append_drop]

end Sha

/-! ### The block functions -/

/-- Only four bytes are looked at. -/
theorem be32_take (l : List UInt8) : be32 (l.take 4) = be32 l := by
  simp [be32, getD_eq_getElem?_getD]

lemma loadWords_eq {M : List UInt8} {n k : ℕ} (h : 4 * (k + n) ≤ M.length) :
    loadWords n (M.drop (4 * k)) = (range' k n).map (word M) := by
  induction n generalizing k with
  | zero => rfl
  | succ n ih =>
    have hfirst : be32 (M.drop (4 * k)) = word M k := by
      have hlen : (piece 4 M k).length = 4 := by
        rw [piece, pread, length_take, length_drop]
        omega
      rw [word, ← be32_eq hlen, piece, pread, be32_take]
    have hrest : (M.drop (4 * k)).drop 4 = M.drop (4 * (k + 1)) := by
      rw [drop_drop, Nat.mul_succ]
    rw [loadWords, hfirst, hrest, ih (by omega)]
    rfl

/-- A schedule newest first: `j` back from the end. -/
theorem getD_reverse_map {W : ℕ → UInt32} {n j : ℕ} (h : j < n) :
    ((range n).map W).reverse.getD j 0 = W (n - 1 - j) := by
  have hlt : j < ((range n).map W).reverse.length := by simpa using h
  rw [getD_eq_getElem?_getD, getElem?_eq_getElem hlt, getD_some,
    getElem_reverse, getElem_map, getElem_range, length_map, length_range]

lemma reverse_map_succ (W : ℕ → UInt32) (n : ℕ) :
    ((range (n + 1)).map W).reverse = W n :: ((range n).map W).reverse := by
  rw [range_succ, map_append, reverse_append]
  rfl

namespace Sha1

/-- The working variables of the standard. -/
def vars (sh : Sha1) : Fips.Vars1 := ⟨sh.H0, sh.H1, sh.H2, sh.H3, sh.H4⟩

lemma extend_eq {M : List UInt8} {k : ℕ} (n : ℕ) (h : 16 ≤ k) :
    extend n ((List.range k).map (Fips.W1 M)).reverse =
      ((List.range (k + n)).map (Fips.W1 M)).reverse := by
  induction n generalizing k with
  | zero => rfl
  | succ n ih =>
    have hnext : rol (((List.range k).map (Fips.W1 M)).reverse.getD 2 0 ^^^
        ((List.range k).map (Fips.W1 M)).reverse.getD 7 0 ^^^
        ((List.range k).map (Fips.W1 M)).reverse.getD 13 0 ^^^
        ((List.range k).map (Fips.W1 M)).reverse.getD 15 0) 1 = Fips.W1 M k := by
      rw [getD_reverse_map (by omega), getD_reverse_map (by omega), getD_reverse_map (by omega),
        getD_reverse_map (by omega), Nat.sub_sub, Nat.sub_sub, Nat.sub_sub, Nat.sub_sub,
        Fips.W1_of_le M h]
      rfl
    rw [extend, hnext, ← reverse_map_succ, ih (Nat.le_succ_of_le h), Nat.succ_add_eq_add_succ]

/-- **The schedule of a block** is the standard's. -/
theorem W_load {M : List UInt8} (h : M.length = 64) (sh : Sha1) :
    (sh.load M).W = (range 80).map (Fips.W1 M) := by
  have hwords : loadWords 16 M = (range 16).map (Fips.W1 M) := by
    have h0 := loadWords_eq (show 4 * (0 + 16) ≤ M.length from le_of_eq h.symm)
    rw [mul_zero, drop_zero, ← range_eq_range'] at h0
    rw [h0]
    exact map_congr_left fun t ht => (Fips.W1_of_lt M (mem_range.mp ht)).symm
  show (extend 64 (loadWords 16 M).reverse).reverse = _
  rw [hwords, extend_eq 64 (le_refl 16), reverse_reverse]

/-- The two halves of the choice have no bit in common. -/
theorem fa_eq : fa = ch := by
  funext b c d
  apply UInt32.toBitVec_inj.mp
  ext i hi
  simp only [fa, ch, UInt32.toBitVec_or, UInt32.toBitVec_and, UInt32.toBitVec_not,
    UInt32.toBitVec_xor, BitVec.getElem_or, BitVec.getElem_and, BitVec.getElem_not,
    BitVec.getElem_xor]
  cases b.toBitVec[i] <;> simp

/-- A bit set in two of the three is set in one or in all three of the pairs. -/
theorem fc_eq : fc = maj := by
  funext b c d
  apply UInt32.toBitVec_inj.mp
  ext i hi
  simp only [fc, maj, UInt32.toBitVec_or, UInt32.toBitVec_and, UInt32.toBitVec_xor,
    BitVec.getElem_or, BitVec.getElem_and, BitVec.getElem_xor]
  cases b.toBitVec[i] <;> cases c.toBitVec[i] <;> cases d.toBitVec[i] <;> rfl

/-- One of the four loops: its function and its constant are those of all its turns. -/
theorem foldl_round {f : UInt32 → UInt32 → UInt32 → UInt32} {k : UInt32} {M : List UInt8}
    {lo n : ℕ} (hf : ∀ t, lo ≤ t → t < lo + n → f1 t = f ∧ k1 t = k) (sh : Sha1) :
    vars (((range' lo n).map (Fips.W1 M)).foldl (round f k) sh) =
      (range' lo n).foldl (turn1 M) (vars sh) := by
  induction n generalizing lo sh with
  | zero => rfl
  | succ n ih =>
    obtain ⟨hfun, hk⟩ := hf lo (le_refl lo) (by omega)
    have hturn : vars (round f k sh (Fips.W1 M lo)) = turn1 M (vars sh) lo := by
      rw [turn1, hfun, hk, round, vars]
      congr 1
      show rol sh.H0 5 + f sh.H1 sh.H2 sh.H3 + sh.H4 + Fips.W1 M lo + k =
        rol sh.H0 5 + f sh.H1 sh.H2 sh.H3 + sh.H4 + k + Fips.W1 M lo
      rw [add_right_comm]
    rw [range'_succ, map_cons, foldl_cons, foldl_cons,
      ih (fun t h1 h2 => hf t (by omega) (by omega)), hturn]

/-- The eighty rounds of `sha1_hash`. -/
def rounds (sh : Sha1) : Sha1 :=
  let r := (sh.W.take 20).foldl (round fa 0x5A827999) sh
  let r := ((sh.W.drop 20).take 20).foldl (round fb 0x6ED9EBA1) r
  let r := ((sh.W.drop 40).take 20).foldl (round fc 0x8F1BBCDC) r
  ((sh.W.drop 60).take 20).foldl (round fb 0xCA62C1D6) r

variable (sh : Sha1)

lemma vars_hash :
    vars sh.hash = ⟨sh.H0 + (rounds sh).H0, sh.H1 + (rounds sh).H1, sh.H2 + (rounds sh).H2,
      sh.H3 + (rounds sh).H3, sh.H4 + (rounds sh).H4⟩ := rfl

/-- **The block function** is the standard's. -/
theorem vars_proc (M : List UInt8) (h : M.length = 64) :
    vars (sh.proc M) = compress1 (vars sh) M := by
  have hW := W_load h sh
  have hparts : range 80 = range' 0 20 ++ range' 20 20 ++ range' 40 20 ++ range' 60 20 := by
    rw [range_eq_range']
    rfl
  have h1 : (sh.load M).W.take 20 = (range' 0 20).map (Fips.W1 M) := by
    rw [hW]
    rfl
  have h2 : ((sh.load M).W.drop 20).take 20 = (range' 20 20).map (Fips.W1 M) := by
    rw [hW]
    rfl
  have h3 : ((sh.load M).W.drop 40).take 20 = (range' 40 20).map (Fips.W1 M) := by
    rw [hW]
    rfl
  have h4 : ((sh.load M).W.drop 60).take 20 = (range' 60 20).map (Fips.W1 M) := by
    rw [hW]
    rfl
  have hf1 : ∀ t, 0 ≤ t → t < 0 + 20 → f1 t = fa ∧ k1 t = 0x5A827999 := by
    intro t _ ht
    rw [fa_eq, f1, k1, if_pos (by omega), if_pos (by omega)]
    exact ⟨rfl, rfl⟩
  have hf2 : ∀ t, 20 ≤ t → t < 20 + 20 → f1 t = fb ∧ k1 t = 0x6ED9EBA1 := by
    intro t h0 ht
    rw [f1, k1, if_neg (by omega), if_pos ht, if_neg (by omega), if_pos ht]
    exact ⟨rfl, rfl⟩
  have hf3 : ∀ t, 40 ≤ t → t < 40 + 20 → f1 t = fc ∧ k1 t = 0x8F1BBCDC := by
    intro t h0 ht
    rw [fc_eq, f1, k1, if_neg (by omega), if_neg (by omega), if_pos ht,
      if_neg (by omega), if_neg (by omega), if_pos ht]
    exact ⟨rfl, rfl⟩
  have hf4 : ∀ t, 60 ≤ t → t < 60 + 20 → f1 t = fb ∧ k1 t = 0xCA62C1D6 := by
    intro t h0 ht
    rw [f1, k1, if_neg (by omega), if_neg (by omega), if_neg (by omega),
      if_neg (by omega), if_neg (by omega), if_neg (by omega)]
    exact ⟨rfl, rfl⟩
  have hr : vars (rounds (sh.load M)) = (range 80).foldl (turn1 M) (vars sh) := by
    rw [rounds, h1, h2, h3, h4, foldl_round hf4, foldl_round hf3, foldl_round hf2, foldl_round hf1,
      hparts, foldl_append, foldl_append, foldl_append]
    rfl
  rw [proc, vars_hash, compress1, ← hr, add_comm _ (rounds (sh.load M)).H0,
    add_comm _ (rounds (sh.load M)).H1, add_comm _ (rounds (sh.load M)).H2,
    add_comm _ (rounds (sh.load M)).H3, add_comm _ (rounds (sh.load M)).H4]
  rfl

/-- The bytes of a digest. -/
theorem fini_eq : sh.fini = out1 (vars sh) := by
  simp only [fini, out1, vars, beBytes32_eq]

end Sha1

namespace Sha256

/-- The working variables of the standard. -/
def vars (sh : Sha256) : Fips.Vars256 :=
  ⟨sh.H0, sh.H1, sh.H2, sh.H3, sh.H4, sh.H5, sh.H6, sh.H7⟩

lemma extend_eq {M : List UInt8} {k : ℕ} (n : ℕ) (h : 16 ≤ k) :
    extend n ((List.range k).map (Fips.W256 M)).reverse =
      ((List.range (k + n)).map (Fips.W256 M)).reverse := by
  induction n generalizing k with
  | zero => rfl
  | succ n ih =>
    have hnext : ssig1 (((List.range k).map (Fips.W256 M)).reverse.getD 1 0) +
        ((List.range k).map (Fips.W256 M)).reverse.getD 6 0 +
        ssig0 (((List.range k).map (Fips.W256 M)).reverse.getD 14 0) +
        ((List.range k).map (Fips.W256 M)).reverse.getD 15 0 = Fips.W256 M k := by
      rw [getD_reverse_map (by omega), getD_reverse_map (by omega), getD_reverse_map (by omega),
        getD_reverse_map (by omega), Nat.sub_sub, Nat.sub_sub, Nat.sub_sub, Nat.sub_sub,
        Fips.W256_of_le M h]
      rfl
    rw [extend, hnext, ← reverse_map_succ, ih (Nat.le_succ_of_le h), Nat.succ_add_eq_add_succ]

/-- **The schedule of a block** is the standard's. -/
theorem W_load {M : List UInt8} (h : M.length = 64) (sh : Sha256) :
    (sh.load M).W = (range 64).map (Fips.W256 M) := by
  have hwords : loadWords 16 M = (range 16).map (Fips.W256 M) := by
    have h0 := loadWords_eq (show 4 * (0 + 16) ≤ M.length from le_of_eq h.symm)
    rw [mul_zero, drop_zero, ← range_eq_range'] at h0
    rw [h0]
    exact map_congr_left fun t ht => (Fips.W256_of_lt M (mem_range.mp ht)).symm
  show (extend 48 (loadWords 16 M).reverse).reverse = _
  rw [hwords, extend_eq 48 (le_refl 16), reverse_reverse]

lemma vars_round (M : List UInt8) (sh : Sha256) (t : ℕ) :
    vars (round sh (K.getD t 0, Fips.W256 M t)) = turn256 M (vars sh) t := rfl

variable (sh : Sha256)

lemma vars_hash :
    vars sh.hash =
      let r := (K.zip sh.W).foldl round sh
      ⟨sh.H0 + r.H0, sh.H1 + r.H1, sh.H2 + r.H2, sh.H3 + r.H3, sh.H4 + r.H4, sh.H5 + r.H5,
        sh.H6 + r.H6, sh.H7 + r.H7⟩ := rfl

/-- **The block function** is the standard's. -/
theorem vars_proc (M : List UInt8) (h : M.length = 64) :
    vars (sh.proc M) = compress256 (vars sh) M := by
  have hzip : K.zip ((range 64).map (Fips.W256 M)) =
      (range 64).map fun t => (K.getD t 0, Fips.W256 M t) := rfl
  have hr : vars ((K.zip (sh.load M).W).foldl round (sh.load M)) =
      (range 64).foldl (turn256 M) (vars sh) := by
    rw [W_load h sh, hzip, foldl_map]
    exact (foldl_hom vars fun s t => (vars_round M s t).symm).symm
  obtain ⟨r, hrdef⟩ : ∃ r, (K.zip (sh.load M).W).foldl round (sh.load M) = r := ⟨_, rfl⟩
  rw [hrdef] at hr
  rw [proc, vars_hash, hrdef, compress256, ← hr]
  simp only [add_comm _ r.H0, add_comm _ r.H1, add_comm _ r.H2, add_comm _ r.H3, add_comm _ r.H4,
    add_comm _ r.H5, add_comm _ r.H6, add_comm _ r.H7]
  rfl

/-- The bytes of a digest. -/
theorem fini_eq : sh.fini = out256 (vars sh) := by
  simp only [fini, out256, vars, beBytes32_eq]

end Sha256

/-! ### The digests -/

namespace Sha

variable {σ : Type}

/-- The blocks of the padded message, taken in one after the other. -/
def digest (proc : σ → List UInt8 → σ) (init : σ) (fini : σ → List UInt8) (m : List UInt8) :
    List UInt8 := fini (run proc init (pad m))

variable (key : List UInt8)

/-- The cut of a key that the code works with. -/
def cut : List UInt8 := key.take 64 ++ replicate (64 - key.length) 0

lemma length_cut : (cut key).length = 64 := by
  rw [cut, length_append, length_take, length_replicate]
  omega

lemma hmacPad_eq (val : UInt8) :
    hmacPad key (min (max (key.length : ℤ) 0) 64).toNat val = (cut key).map (· ^^^ val) := by
  have hk : (min (max (key.length : ℤ) 0) 64).toNat = min key.length 64 := by omega
  rw [hmacPad, hk, cut, Nat.min_comm, ← take_take, take_length]
  congr 3
  omega

/-- **The keyed hash as it is computed**: both hashes start with a block of key, and what
follows is padded with that block counted. -/
theorem hmac_eq {proc : σ → List UInt8 → σ} {init : σ} {fini : σ → List UInt8}
    (hfini : ∀ sh, (fini sh).length < 64) (key input : List UInt8)
    (hin : input.length + 64 < 2 ^ 61) :
    hmac proc init fini key key.length input =
      digest proc init fini ((cut key).map (· ^^^ 0x5C) ++
        digest proc init fini ((cut key).map (· ^^^ 0x36) ++ input)) := by
  have hblock : ∀ val : UInt8, ((cut key).map (· ^^^ val)).length = 64 := fun val => by
    rw [length_map, length_cut]
  -- a message behind a block of key
  have hbehind : ∀ (val : UInt8) (m : List UInt8),
      run proc init (pad ((cut key).map (· ^^^ val) ++ m)) =
        run proc (proc init ((cut key).map (· ^^^ val))) (m ++ padding (m.length + 64)) := by
    intro val m
    have hdvd : 64 ∣ ((cut key).map (· ^^^ val)).length := by rw [hblock]
    rw [pad, length_append, hblock, append_assoc, add_comm, run_append hdvd, run_block (hblock val)]
  have hinner : fini (hashRest proc (proc init ((cut key).map (· ^^^ 0x36))) input 64) =
      digest proc init fini ((cut key).map (· ^^^ 0x36) ++ input) := by
    rw [hashRest_eq_run _ input (Nat.dvd_refl 64) hin, digest, hbehind]
  obtain ⟨d, hd⟩ : ∃ d, digest proc init fini ((cut key).map (· ^^^ 0x36) ++ input) = d := ⟨_, rfl⟩
  have hdlen : d.length < 64 := hd ▸ hfini _
  rw [hmac]
  simp only [hmacPad_eq]
  rw [hinner, hd, last_eq_run _ (by omega) (by omega), digest, hbehind, add_comm]

lemma blockKey_take (H : List UInt8 → List UInt8) (key : List UInt8) :
    blockKey H (key.take 64) = cut key := by
  have hle : (key.take 64).length ≤ 64 := length_take_le 64 key
  rw [blockKey, if_pos hle, cut, length_take]
  congr 2
  omega

/-- Cutting a key does not matter if it is the key of a block that way as well. -/
theorem cut_eq {H : List UInt8 → List UInt8} (hH : ∀ m, (H m).length ≤ 64) {key : List UInt8}
    (h : key.length ≤ 64 ∨ key.take 64 = blockKey H key) : cut key = blockKey H key := by
  rcases h with h | h
  · rw [← blockKey_take H, take_of_length_le h]
  · have hlen : key.length ≥ 64 := by
      have h64 := length_blockKey hH key
      rw [← h, length_take] at h64
      omega
    rw [cut, Nat.sub_eq_zero_of_le hlen, replicate_zero, append_nil, h]

/-- **The keyed hash of a key that is cut**, and of one that may be. -/
theorem hmac_eq_hmac {proc : σ → List UInt8 → σ} {init : σ} {fini : σ → List UInt8}
    {H : List UInt8 → List UInt8} (hH : ∀ m, H m = digest proc init fini m)
    (hfini : ∀ sh, (fini sh).length < 64) (key input : List UInt8)
    (hin : input.length + 64 < 2 ^ 61) :
    hmac proc init fini key key.length input = Hmac.hmac H (key.take 64) input ∧
      (key.length ≤ 64 ∨ key.take 64 = blockKey H key →
        hmac proc init fini key key.length input = Hmac.hmac H key input) := by
  obtain rfl : H = digest proc init fini := funext hH
  constructor
  · rw [hmac_eq hfini key input hin, Hmac.hmac, blockKey_take]
  · intro h
    have hlen : ∀ m, (digest proc init fini m).length ≤ 64 := fun m => le_of_lt (hfini _)
    rw [hmac_eq hfini key input hin, Hmac.hmac, cut_eq hlen h]

end Sha

lemma fips_sha1_eq (m : List UInt8) : Fips.sha1 m = Sha.digest proc init fini m := by
  rw [Sha.digest, fini_eq, map_run vars vars_proc]
  rfl

lemma fips_sha256_eq (m : List UInt8) :
    Fips.sha256 m = Sha.digest Sha256.proc Sha256.init Sha256.fini m := by
  rw [Sha.digest, Sha256.fini_eq, map_run Sha256.vars Sha256.vars_proc]
  rfl

/-- A message of any length is the whole of what is hashed. -/
theorem hashRest_eq_pad {σ : Type} {proc : σ → List UInt8 → σ} (sh : σ) {m : List UInt8}
    (h : m.length < 2 ^ 61) : Sha.hashRest proc sh m 0 = run proc sh (pad m) :=
  Sha.hashRest_eq_run sh m (Nat.dvd_zero 64) h

/-- **Messages hash to what the standard says**: the blocks of the padded message are taken
in, and that is the standard's digest. -/
theorem sha_eq_fips (m : List UInt8) (h : m.length < 2 ^ 61) :
    (sha1 m = (run proc init (pad m)).fini ∧ sha1 m = Fips.sha1 m) ∧
      (sha256 m = (run Sha256.proc Sha256.init (pad m)).fini ∧ sha256 m = Fips.sha256 m) := by
  have h1 : sha1 m = (run proc init (pad m)).fini := by
    rw [sha1, hashRest_eq, hashRest_eq_pad _ h]
  have h256 : sha256 m = (run Sha256.proc Sha256.init (pad m)).fini := by
    rw [sha256, Sha256.hashRest, hashRest_eq_pad _ h]
  constructor
  · exact ⟨h1, by rw [fips_sha1_eq, h1, Sha.digest]⟩
  · exact ⟨h256, by rw [fips_sha256_eq, h256, Sha.digest]⟩

/-- The message `abc`, with its two digests. -/
theorem sha_eq_fips_abc :
    Fips.sha1 [0x61, 0x62, 0x63] = [
      0xA9, 0x99, 0x3E, 0x36, 0x47, 0x06, 0x81, 0x6A, 0xBA, 0x3E,
      0x25, 0x71, 0x78, 0x50, 0xC2, 0x6C, 0x9C, 0xD0, 0xD8, 0x9D] ∧
    Fips.sha256 [0x61, 0x62, 0x63] = [
      0xBA, 0x78, 0x16, 0xBF, 0x8F, 0x01, 0xCF, 0xEA, 0x41, 0x41, 0x40, 0xDE, 0x5D, 0xAE, 0x22,
        0x23,
      0xB0, 0x03, 0x61, 0xA3, 0x96, 0x17, 0x7A, 0x9C, 0xB4, 0x10, 0xFF, 0x61, 0xF2, 0x00, 0x15,
        0xAD] := by
  have h := sha_eq_fips [0x61, 0x62, 0x63] (by decide)
  rw [← h.1.2, ← h.2.2]
  decide +kernel

/-! ### Keys that are too long -/

/-- **The keyed hash is the standard's for a key that fits a block**: a longer key is cut
where the standard hashes it first. -/
theorem hmac_eq_rfc (key input : List UInt8) (hin : input.length + 64 < 2 ^ 61) :
    (hmacSha1 key key.length input = hmac Fips.sha1 (key.take 64) input ∧
      (key.length ≤ 64 ∨ key.take 64 = blockKey Fips.sha1 key →
        hmacSha1 key key.length input = hmac Fips.sha1 key input)) ∧
    (hmacSha256 key key.length input = hmac Fips.sha256 (key.take 64) input ∧
      (key.length ≤ 64 ∨ key.take 64 = blockKey Fips.sha256 key →
        hmacSha256 key key.length input = hmac Fips.sha256 key input)) := by
  rw [hmacSha1_eq, hmacSha256]
  exact ⟨Sha.hmac_eq_hmac fips_sha1_eq (fun sh => sh.length_fini ▸ (by decide)) key input hin,
    Sha.hmac_eq_hmac fips_sha256_eq (fun sh => sh.length_fini ▸ (by decide)) key input hin⟩

theorem hmac_eq_rfc_key :
    hmacSha1 [0x4B, 0x65, 0x79] 3 [0x61] = hmac Fips.sha1 [0x4B, 0x65, 0x79] [0x61] ∧
      hmacSha256 [0x4B, 0x65, 0x79] 3 [0x61] = hmac Fips.sha256 [0x4B, 0x65, 0x79] [0x61] := by
  have h := hmac_eq_rfc [0x4B, 0x65, 0x79] [0x61] (by decide)
  exact ⟨h.1.2 (.inl (by decide)), h.2.2 (.inl (by decide))⟩

/-- A key of one byte more than a block. -/
theorem hmac_long_key :
    ¬ ∀ key input : List UInt8, input.length + 64 < 2 ^ 61 →
      hmacSha1 key key.length input = hmac Fips.sha1 key input ∧
        hmacSha256 key key.length input = hmac Fips.sha256 key input := by
  intro h
  have h1 := (h (replicate 65 0) [] (by decide)).1
  rw [funext fips_sha1_eq] at h1
  revert h1
  decide +kernel

end Minibase
