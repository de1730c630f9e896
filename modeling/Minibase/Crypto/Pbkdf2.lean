import Minibase.Crypto.Sha
import Minibase.Lib.Memory
import Minibase.Lib.Digest

/-!
# The two derivations of keys from passwords

`lib/crypto/pbkdf2_sha1.c` and `pbkdf2_sha256.c`, the same file twice but for the keyed hash.
The blocks of the key are computed where they go in the caller's buffer, the last one in a
local array if only a part of it is asked for; each value of a chain replaces the one before
(`Pbkdf2.Fc`). What an array holds before is not known: the local arrays are parameters, and
the whole memory is compared in the end.
-/

namespace Minibase

open Pbkdf2 Mem

namespace Pbkdf2

section Code

variable (hmac : List UInt8 → ℤ → List UInt8 → List UInt8) (HS : ℕ)

/-- The first value of a chain, into the array `u`. -/
def F1 (u : Mem) (P S : List UInt8) (i : ℕ) : Mem :=
  let I := S ++ [UInt8.ofNat ((i >>> 24) &&& 0xFF), UInt8.ofNat ((i >>> 16) &&& 0xFF),
    UInt8.ofNat ((i >>> 8) &&& 0xFF), UInt8.ofNat (i &&& 0xFF)]
  u.store 0 (hmac P P.length I)

/-- The next value of a chain: the array is the input and the output of the keyed hash,
which writes its output after it has read its input. -/
def Fc (u : Mem) (P : List UInt8) : Mem := u.store 0 (hmac P P.length (u.load 0 HS))

/-- `xorbuf`: the first `n` bytes of `u` into those at `T`. -/
def xorbuf (m : Mem) (T : ℕ) (u : Mem) : ℕ → Mem
  | 0 => m
  | n + 1 =>
    let m := xorbuf m T u n
    m.store (T + n) [m (T + n) ^^^ u n]

/-- The loop of `F`, `n` turns of it. -/
def turns (T : ℕ) (P : List UInt8) : ℕ → Mem → Mem → Mem
  | 0, m, _ => m
  | n + 1, m, u =>
    let u := Fc hmac HS u P
    turns T P n (xorbuf m T u HS) u

/-- `F`: one block of the key, at `T`. -/
def F (stack m : Mem) (T : ℕ) (P S : List UInt8) (c i : ℕ) : Mem :=
  let u := F1 hmac stack P S i
  turns hmac HS T P (c - 1) (m.store T (u.load 0 HS)) u

/-- The loop over whole blocks, with the number of the block it stops at; at most `n`. -/
def blocks (stack : Mem) (psk len : ℕ) (P S : List UInt8) (c : ℕ) : ℕ → Mem → ℕ → Mem × ℕ
  | 0, m, i => (m, i)
  | n + 1, m, i =>
    if HS * i ≤ len then
      blocks stack psk len P S c n (F hmac HS stack m (psk + HS * (i - 1)) P S c i) (i + 1)
    else (m, i)

/-- The body of `pbkdf2_sha1` and `pbkdf2_sha256`. -/
def pbkdf2 (stack m : Mem) (psk len : ℕ) (P S : List UInt8) (c : ℕ) : Mem :=
  let r := blocks hmac HS stack psk len P S c (len / HS) m 1
  if HS * (r.2 - 1) < len then
    let T := F hmac HS stack stack 0 P S c r.2
    r.1.store (psk + HS * (r.2 - 1)) (T.load 0 (len - HS * (r.2 - 1)))
  else r.1

end Code

end Pbkdf2

/-- `pbkdf2_sha1`, into the buffer at `psk`. -/
def pbkdf2Sha1 (stack m : Mem) (psk len : ℕ) (P S : List UInt8) (c : ℕ) : Mem :=
  pbkdf2 hmacSha1 20 stack m psk len P S c

def pbkdf2Sha256 (stack m : Mem) (psk len : ℕ) (P S : List UInt8) (c : ℕ) : Mem :=
  pbkdf2 hmacSha256 32 stack m psk len P S c

namespace Pbkdf2

variable {hmac : List UInt8 → ℤ → List UInt8 → List UInt8} {HS : ℕ} {P S : List UInt8}

/-- The keyed hash with the whole of a key. -/
def prf (hmac : List UInt8 → ℤ → List UInt8 → List UInt8) (key m : List UInt8) : List UInt8 :=
  hmac key key.length m

/-- The number of a block, most significant byte first. -/
theorem int32_eq (i : ℕ) :
    [UInt8.ofNat ((i >>> 24) &&& 0xFF), UInt8.ofNat ((i >>> 16) &&& 0xFF),
      UInt8.ofNat ((i >>> 8) &&& 0xFF), UInt8.ofNat (i &&& 0xFF)] = beBytes 4 i := by
  have hb : ∀ v : ℕ, UInt8.ofNat (v &&& 0xFF) = UInt8.ofNat v := fun v => by
    apply UInt8.toNat_inj.mp
    have hand : v &&& 0xFF = v % 2 ^ 8 := Nat.and_two_pow_sub_one_eq_mod v 8
    rw [hand, UInt8.toNat_ofNat', UInt8.toNat_ofNat', Nat.mod_mod]
  rw [hb, hb, hb, hb, Nat.shiftRight_eq_div_pow, Nat.shiftRight_eq_div_pow,
    Nat.shiftRight_eq_div_pow]
  simp [beBytes]

/-- The front of what was stored. -/
theorem load_store_take (m : Mem) (a : ℕ) {bs : List UInt8} {n : ℕ} (h : n ≤ bs.length) :
    (m.store a bs).load a n = bs.take n := by
  refine List.ext_getElem (by simpa using h) fun i h1 h2 => ?_
  have hi : i < bs.length := by
    rw [length_load] at h1
    omega
  rw [getElem_load, store_of_lt hi, List.getElem_take]

lemma load_store (m : Mem) (a : ℕ) {bs : List UInt8} {n : ℕ} (h : bs.length = n) :
    (m.store a bs).load a n = bs := by
  rw [load_store_take m a (le_of_eq h.symm), List.take_of_length_le (le_of_eq h)]

section Blocks

variable (hlen : ∀ k m, (prf hmac k m).length = HS)

include hlen

/-- The first value of the chain. -/
theorem load_F1 (u : Mem) (i : ℕ) : (F1 hmac u P S i).load 0 HS = U (prf hmac) P S i 0 := by
  rw [F1, int32_eq, U]
  exact load_store u 0 (hlen P (S ++ beBytes 4 i))

/-- **The next value of the chain**, out of the one that is there. -/
theorem load_Fc {u : Mem} {i j : ℕ} (h : u.load 0 HS = U (prf hmac) P S i j) :
    (Fc hmac HS u P).load 0 HS = U (prf hmac) P S i (j + 1) := by
  rw [Fc, h, U]
  exact load_store u 0 (hlen P (U (prf hmac) P S i j))

omit hlen in
/-- The loop xors the two blocks. -/
theorem xorbuf_eq (m u : Mem) (T n : ℕ) :
    xorbuf m T u n = m.store T (xor (m.load T n) (u.load 0 n)) := by
  induction n with
  | zero => exact (store_nil m T).symm
  | succ n ih =>
    have hl : (xor (m.load T n) (u.load 0 n)).length = n := by
      rw [length_xor, length_load, length_load, Nat.min_self]
    have hbyte : xorbuf m T u n (T + n) = m (T + n) := by
      rw [ih, store_of_not_mem (by rw [hl]; omega)]
    have hsplit : xor (m.load T (n + 1)) (u.load 0 (n + 1)) =
        xor (m.load T n) (u.load 0 n) ++ [m (T + n) ^^^ u n] := by
      rw [load_add, load_add, xor, List.zipWith_append (by simp), zero_add]
      rfl
    rw [xorbuf, hbyte, ih, hsplit, ← store_append, hl]

/-- **The turns of the loop**: the block at `T` goes through the partial sums. -/
theorem turns_eq {T i : ℕ} (n : ℕ) {m u : Mem} {j : ℕ}
    (hu : u.load 0 HS = U (prf hmac) P S i j) :
    turns hmac HS T P n (m.store T (Pbkdf2.T (prf hmac) HS P S i (j + 1))) u =
      m.store T (Pbkdf2.T (prf hmac) HS P S i (j + 1 + n)) := by
  induction n generalizing u j with
  | zero => rfl
  | succ n ih =>
    have hnext := load_Fc hlen hu
    have hT := length_T (P := P) (S := S) hlen i (j + 1)
    have hT' := length_T (P := P) (S := S) hlen i (j + 2)
    have hx : xorbuf (m.store T (Pbkdf2.T (prf hmac) HS P S i (j + 1))) T (Fc hmac HS u P) HS =
        m.store T (Pbkdf2.T (prf hmac) HS P S i (j + 2)) := by
      rw [xorbuf_eq, load_store m T hT, hnext]
      exact store_store m T _ _ (le_of_eq (hT.trans hT'.symm))
    rw [turns, hx, ih hnext, add_right_comm]
    rfl

/-- **One block**, at `T` and nowhere else. -/
theorem F_eq (stack m : Mem) (T i : ℕ) {c : ℕ} (hc : 1 ≤ c) :
    F hmac HS stack m T P S c i = m.store T (Pbkdf2.T (prf hmac) HS P S i c) := by
  have hfirst := load_F1 (P := P) (S := S) hlen stack i
  have hone : U (prf hmac) P S i 0 = Pbkdf2.T (prf hmac) HS P S i (0 + 1) :=
    (T_one hlen i).symm
  have hcount : 0 + 1 + (c - 1) = c := by omega
  rw [F, hfirst, hone, turns_eq hlen (c - 1) hfirst, hcount]

/-- **The loop over whole blocks** leaves as many as fit, one after the other. -/
theorem blocks_eq (stack m : Mem) (psk len : ℕ) {c : ℕ} (hc : 1 ≤ c) {n k : ℕ}
    (hn : len / HS = k + n) :
    blocks hmac HS stack psk len P S c n (m.store psk (stream (prf hmac) HS P S c k)) (k + 1) =
      (m.store psk (stream (prf hmac) HS P S c (len / HS)), len / HS + 1) := by
  induction n generalizing k with
  | zero => rw [blocks, hn]; rfl
  | succ n ih =>
    have hle : HS * (k + 1) ≤ len := by
      have h1 : HS * (k + 1) ≤ HS * (len / HS) := Nat.mul_le_mul_left HS (by omega)
      exact Nat.le_trans h1 (Nat.mul_div_le len HS)
    rw [blocks, if_pos hle, Nat.add_sub_cancel, F_eq hlen _ _ _ _ hc]
    have hl := length_stream (P := P) (S := S) hlen c k
    rw [← hl, store_append, ← stream_succ, ih (by omega)]

/-- **The derived key**, in the caller's buffer and nowhere else. -/
theorem pbkdf2_eq (stack m : Mem) (psk len : ℕ) (hpos : 0 < HS) {c : ℕ} (hc : 1 ≤ c) :
    pbkdf2 hmac HS stack m psk len P S c = m.store psk (derived (prf hmac) HS P S c len) := by
  have hrun : blocks hmac HS stack psk len P S c (len / HS) m 1 =
      (m.store psk (stream (prf hmac) HS P S c (len / HS)), len / HS + 1) := by
    have h0 := blocks_eq (P := P) (S := S) hlen stack m psk len hc
      (n := len / HS) (k := 0) (zero_add _).symm
    rw [show stream (prf hmac) HS P S c 0 = [] from rfl, store_nil] at h0
    exact h0
  have hdiv := Nat.div_add_mod len HS
  have hmod := Nat.mod_lt len hpos
  have hl := length_stream (P := P) (S := S) hlen c (len / HS)
  rw [pbkdf2, hrun]
  simp only [Nat.add_sub_cancel]
  split_ifs with hpart
  · -- the last block is a part of one
    have hrest : len - HS * (len / HS) ≤ (T (prf hmac) HS P S (len / HS + 1) c).length := by
      rw [length_T hlen]
      omega
    have hwhole : len ≤ HS * (len / HS + 1) := by
      rw [Nat.mul_succ]
      omega
    have hhead : (stream (prf hmac) HS P S c (len / HS)).take len =
        stream (prf hmac) HS P S c (len / HS) := List.take_of_length_le (by omega)
    rw [F_eq hlen _ _ _ _ hc, load_store_take _ _ hrest, derived_eq hlen hpos hwhole, stream_succ,
      List.take_append, hhead, hl]
    rw [← hl, store_append]
  · have hwhole : len ≤ HS * (len / HS) := Nat.le_of_not_lt hpart
    rw [derived_eq hlen hpos hwhole, List.take_of_length_le (by omega)]

end Blocks

end Pbkdf2

/-- **Keys are derived the standard's way**: of the memory only the `len` bytes at `psk`
change, and they are the front of the blocks; asking for fewer gives the front of the same
key. -/
theorem pbkdf2_derives (stack m : Mem) (psk len : ℕ) (P S : List UInt8) (c : ℕ) (hc : 1 ≤ c) :
    (pbkdf2Sha1 stack m psk len P S c =
        m.store psk (derived (prf hmacSha1) 20 P S c len) ∧
      (derived (prf hmacSha1) 20 P S c len).length = len ∧
      ∀ k ≤ len, derived (prf hmacSha1) 20 P S c k =
        (derived (prf hmacSha1) 20 P S c len).take k) ∧
    (pbkdf2Sha256 stack m psk len P S c =
        m.store psk (derived (prf hmacSha256) 32 P S c len) ∧
      (derived (prf hmacSha256) 32 P S c len).length = len ∧
      ∀ k ≤ len, derived (prf hmacSha256) 32 P S c k =
        (derived (prf hmacSha256) 32 P S c len).take k) := by
  have h1 : ∀ k m, (prf hmacSha1 k m).length = 20 := fun k m => length_hmacSha1 k _ m
  have h256 : ∀ k m, (prf hmacSha256 k m).length = 32 := fun k m => length_hmacSha256 k _ m
  refine ⟨⟨pbkdf2_eq h1 stack m psk len (by decide) hc,
    length_derived h1 (by decide) c len, fun k hk => ?_⟩,
    pbkdf2_eq h256 stack m psk len (by decide) hc,
    length_derived h256 (by decide) c len, fun k hk => ?_⟩
  · exact (derived_take h1 (by decide) hk).symm
  · exact (derived_take h256 (by decide) hk).symm

/-- Three turns for each block, and the last of the blocks is used in part. -/
theorem pbkdf2_derives_blocks :
    pbkdf2Sha1 (fun _ => 0) (fun _ => 0) 100 45 [0x70] [0x73] 3 =
        store (fun _ => 0) 100 (derived (prf hmacSha1) 20 [0x70] [0x73] 3 45) ∧
      pbkdf2Sha256 (fun _ => 0) (fun _ => 0) 100 45 [0x70] [0x73] 3 =
        store (fun _ => 0) 100 (derived (prf hmacSha256) 32 [0x70]
          [0x73] 3 45) := by
  obtain ⟨⟨hsha1, -⟩, hsha256, -⟩ :=
    pbkdf2_derives (fun _ => 0) (fun _ => 0) 100 45 [0x70] [0x73] 3 (by decide)
  exact ⟨hsha1, hsha256⟩

end Minibase
