import Mathlib.Tactic.Ring
import Minibase.Lib.CInt
import Minibase.Format.Clip

/-!
# The digits of a number

What the formatters of numbers leave in memory, where there is room for it
(`Format.mem_fmtu64`, `Format.mem_fmtpad0`), and what a reader of digits makes of them
(`Format.foldl_digits`). On the command line, `parseint.c` puts the digits at the front of a
string together in an `int`, so that a larger number comes out modulo `2 ^ 32` (`parseint_eq`).
-/

namespace Minibase

open List Mem

/-! ### Numbers on the command line -/

/-- The test of the loop. -/
def isDigit (c : UInt8) : Bool := 48 ≤ c && c < 58

/-- The loop of `parseint`. -/
def parseintLoop : List UInt8 → ℤ → ℤ × List UInt8
  | [], n => (n, [])
  | c :: l, n => if isDigit c then parseintLoop l (i32 (n * 10 + (c.toNat - 48))) else (n, c :: l)

variable (buf : List UInt8)

/-- `parseint`: the number and the rest, or `NULL`. -/
def parseint : Option (ℤ × List UInt8) :=
  let out := parseintLoop buf 0
  if out.2.length = buf.length then none else some out

/-- **The number meant**, however large. -/
def decimal : ℕ :=
  (buf.takeWhile isDigit).foldl (fun n c => n * 10 + (c.toNat - 48)) 0

lemma i32_add_i32_mul (a b d : ℤ) : i32 (i32 a * b + d) = i32 (a * b + d) := by
  obtain ⟨q, hq⟩ : ∃ q, i32 a = a + 4294967296 * q :=
    ⟨-((a + 2147483648) / 4294967296), by simp only [i32]; omega⟩
  have hsum : (a + 4294967296 * q) * b + d + 2147483648 =
      a * b + d + 2147483648 + 4294967296 * (q * b) := by
    ring
  rw [hq, i32, i32, hsum, Int.add_mul_emod_self_left]

lemma parseintLoop_eq (l : List UInt8) (n : ℕ) :
    parseintLoop l (i32 n) =
      (i32 ((l.takeWhile isDigit).foldl (fun n c => n * 10 + (c.toNat - 48)) n : ℕ),
        l.dropWhile isDigit) := by
  induction l generalizing n with
  | nil => rfl
  | cons c l ih =>
    rw [parseintLoop, takeWhile_cons, dropWhile_cons]
    split
    case isTrue hc =>
      have h48 : 48 ≤ c.toNat := by
        have hle : (48 : UInt8) ≤ c := by
          simp only [isDigit, Bool.and_eq_true, decide_eq_true_eq] at hc
          exact hc.1
        exact UInt8.le_iff_toNat_le.mp hle
      have hcast : (n : ℤ) * 10 + (c.toNat - 48) = ((n * 10 + (c.toNat - 48) : ℕ) : ℤ) := by
        omega
      rw [i32_add_i32_mul, hcast, ih, foldl_cons]
    case isFalse => rfl

/-- **What `parseint` makes of a string.** -/
theorem parseint_eq :
    parseint buf = if buf.takeWhile isDigit = [] then none
      else some (i32 (decimal buf), buf.dropWhile isDigit) := by
  have hloop := parseintLoop_eq buf 0
  have h0 : i32 ((0 : ℕ) : ℤ) = 0 := rfl
  rw [h0] at hloop
  have hlen : (buf.takeWhile isDigit).length + (buf.dropWhile isDigit).length = buf.length := by
    rw [← length_append, takeWhile_append_dropWhile]
  rw [parseint, hloop]
  dsimp only
  by_cases hnil : buf.takeWhile isDigit = []
  · rw [hnil, length_nil] at hlen
    rw [if_pos (by omega), if_pos hnil]
  · have hpos := length_pos_iff.mpr hnil
    rw [if_neg (by omega), if_neg hnil]
    rfl

/-- A number that fits. -/
theorem i32_decimal {buf : List UInt8} (h : decimal buf < 2147483648) :
    i32 (decimal buf) = decimal buf :=
  i32_of_range (by omega) (by omega)

/-! ### The digits that are written -/

namespace Mem

/-- A byte is read where it was stored. -/
theorem store_one (m : Mem) (a : ℕ) (b : UInt8) : m.store a [b] a = b :=
  holds_store m a [b] 0 zero_lt_one

/-- Two adjacent blocks, the second one written first. -/
theorem store_store_before (m : Mem) (a : ℕ) (bs cs : List UInt8) :
    (m.store (a + bs.length) cs).store a bs = m.store a (bs ++ cs) := by
  funext i
  by_cases h1 : a ≤ i ∧ i < a + bs.length
  · obtain ⟨k, rfl⟩ := Nat.exists_eq_add_of_le h1.1
    have hk : k < bs.length := by omega
    rw [store_of_lt hk, store_of_lt (by rw [length_append]; omega), getElem_append_left hk]
  · rw [store_of_not_mem (by omega)]
    by_cases h2 : a + bs.length ≤ i ∧ i < a + bs.length + cs.length
    · obtain ⟨k, rfl⟩ := Nat.exists_eq_add_of_le h2.1
      have hk : k < cs.length := by omega
      rw [store_of_lt hk, add_assoc, store_of_lt (by rw [length_append]; omega),
        getElem_append_right (by omega)]
      congr 1
      omega
    · rw [store_of_not_mem (by omega), store_of_not_mem (by rw [length_append]; omega)]

end Mem

namespace Format

/-- The last `k` decimal digits of a number. -/
def digits : ℕ → ℕ → List UInt8
  | 0, _ => []
  | k + 1, n => digits k (n / 10) ++ [decDigit (n % 10)]

@[simp] lemma length_digits (k n : ℕ) : (digits k n).length = k := by
  induction k generalizing n with
  | zero => rfl
  | succ k ih => rw [digits, length_append, ih, length_singleton]

lemma digits_zero (k : ℕ) : digits k 0 = replicate k 48 := by
  induction k with
  | zero => rfl
  | succ k ih =>
    rw [digits, Nat.zero_div, ih, replicate_succ']
    rfl

/-- There are zeroes in front of a number. -/
theorem digits_add (s k : ℕ) {n : ℕ} (h : n < 10 ^ k) :
    digits (s + k) n = replicate s 48 ++ digits k n := by
  induction k generalizing n with
  | zero =>
    obtain rfl : n = 0 := Nat.lt_one_iff.mp h
    rw [add_zero, digits, append_nil, digits_zero]
  | succ k ih =>
    have hdiv : n / 10 < 10 ^ k := by
      rw [pow_succ] at h
      exact Nat.div_lt_of_lt_mul (by omega)
    rw [← add_assoc, digits, digits, ih hdiv, append_assoc]

lemma toNat_decDigit {n : ℕ} (h : n < 10) : (decDigit n).toNat = 48 + n := by
  rw [decDigit, UInt8.toNat_ofNat']
  omega

lemma isDigit_decDigit {n : ℕ} (h : n < 10) : isDigit (decDigit n) = true := by
  have hn := toNat_decDigit h
  simp only [isDigit, Bool.and_eq_true, decide_eq_true_eq, UInt8.le_iff_toNat_le,
    UInt8.lt_iff_toNat_lt, hn]
  exact ⟨by show 48 ≤ 48 + n; omega, by show 48 + n < 58; omega⟩

lemma isDigit_of_mem_digits {c : UInt8} {k n : ℕ} (h : c ∈ digits k n) : isDigit c = true := by
  induction k generalizing n with
  | zero => cases h
  | succ k ih =>
    rcases mem_append.mp h with h | h
    · exact ih h
    · rw [mem_singleton.mp h]
      exact isDigit_decDigit (Nat.mod_lt _ (by decide))

/-- **The digits of a number are read as it**, if there is room for it in the variable. -/
theorem foldl_digits {M : ℕ} (k : ℕ) {n : ℕ} (hk : n < 10 ^ k) (hM : n < M) :
    (digits k n).foldl (fun v c => (v * 10 + (c.toNat - 48)) % M) 0 = n := by
  induction k generalizing n with
  | zero => exact (Nat.lt_one_iff.mp hk).symm
  | succ k ih =>
    have hdiv : n / 10 < 10 ^ k := by
      rw [Nat.pow_succ] at hk
      exact Nat.div_lt_of_lt_mul (by omega)
    have hsmall : n / 10 < M := Nat.lt_of_le_of_lt (Nat.div_le_self n 10) hM
    rw [digits, foldl_append, ih hdiv hsmall, foldl_cons, foldl_nil,
      toNat_decDigit (Nat.mod_lt _ (by decide)), Nat.add_sub_cancel_left]
    rw [Nat.mul_comm, Nat.div_add_mod, Nat.mod_eq_of_lt hM]

/-! ### In memory -/

variable {p e : ℕ}

lemma mem_putDigits (len num : ℕ) (o : Out) (h : p + len ≤ e) :
    (putDigits e 10 decDigit p len num o).mem = o.mem.store p (digits len num) := by
  induction len generalizing num o with
  | zero => rw [putDigits, digits, store_nil]
  | succ len ih =>
    have hstep := store_store_before o.mem p (digits len (num / 10)) [decDigit (num % 10)]
    rw [length_digits] at hstep
    rw [putDigits, if_pos (by omega), ih (num / 10) _ (by omega), digits]
    exact hstep

/-- **A number**, where there is room for it. -/
theorem mem_fmtu64 (num : UInt64) (o : Out) (h : p + countDigits 10 num.toNat ≤ e) :
    (fmtu64 p e num o).1 = p + countDigits 10 num.toNat ∧
      (fmtu64 p e num o).2.mem = o.mem.store p (digits (countDigits 10 num.toNat) num.toNat) := by
  rw [fmtu64, fmtint64]
  simp only [Bool.false_eq_true, if_false, add_zero]
  exact ⟨if_neg (by omega), mem_putDigits _ _ _ h⟩

lemma mem_moveUp {shift : ℕ} (hs : 0 < shift) (n : ℕ) (o : Out) (h : p + shift + n ≤ e) (a : ℕ) :
    (moveUp p e shift n o).mem a =
      if p + shift ≤ a ∧ a < p + shift + n then o.mem (a - shift) else o.mem a := by
  induction n generalizing o with
  | zero => rw [moveUp, if_neg (by omega)]
  | succ n ih =>
    have hpoke : ∀ b, (o.poke (p + shift + n) (o.mem (p + n))).mem b =
        if b = p + shift + n then o.mem (p + n) else o.mem b := by
      intro b
      by_cases hb : b = p + shift + n
      · rw [if_pos hb, hb]
        exact store_one _ _ _
      · rw [if_neg hb]
        exact store_of_not_mem (by rw [length_singleton]; omega)
    rw [moveUp, if_pos (by omega), ih _ (by omega), hpoke, hpoke]
    by_cases ha : p + shift ≤ a ∧ a < p + shift + n
    · rw [if_pos ha, if_neg (by omega), if_pos (by omega)]
    · rw [if_neg ha]
      by_cases hlast : a = p + shift + n
      · rw [if_pos hlast, if_pos (by omega)]
        congr 1
        omega
      · rw [if_neg hlast, if_neg (by omega)]

lemma mem_fill (c : UInt8) (n : ℕ) (o : Out) :
    (fill p c n o).mem = o.mem.store p (replicate n c) := by
  induction n generalizing o with
  | zero => rw [fill, replicate_zero, store_nil]
  | succ n ih =>
    have hstep := store_store_before o.mem p (replicate n c) [c]
    rw [length_replicate] at hstep
    rw [fill, ih, replicate_succ']
    exact hstep

/-- **A text is moved up and the place filled.** -/
theorem mem_shiftIn {shift : ℕ} (hs : 0 < shift) (c : UInt8) (bs : List UInt8) (m : Mem)
    {o : Out} (hm : o.mem = m.store p bs) (h : p + shift + bs.length ≤ e) :
    (shiftIn p e shift (p + bs.length) c o).1 = p + (shift + bs.length) ∧
      (shiftIn p e shift (p + bs.length) c o).2.mem = m.store p (replicate shift c ++ bs) := by
  have hmin : min (p + bs.length) p + shift - p = shift := by omega
  have hlen : p + bs.length - p = bs.length := by omega
  rw [shiftIn, hmin, hlen]
  refine ⟨by show p + bs.length + shift = _; omega, ?_⟩
  show (fill p c shift _).mem = _
  rw [mem_fill, ← store_append, length_replicate]
  funext a
  by_cases h1 : p ≤ a ∧ a < p + shift
  · obtain ⟨k, rfl⟩ := Nat.exists_eq_add_of_le h1.1
    have hk : k < (replicate shift c).length := by rw [length_replicate]; omega
    rw [store_of_lt hk, store_of_not_mem (by omega), store_of_lt hk]
  · rw [store_of_not_mem (by rw [length_replicate]; omega), mem_moveUp hs _ _ h]
    by_cases h2 : p + shift ≤ a ∧ a < p + shift + bs.length
    · obtain ⟨k, rfl⟩ := Nat.exists_eq_add_of_le h2.1
      have hk : k < bs.length := by omega
      rw [if_pos h2, hm, store_of_lt hk, show p + shift + k - shift = p + k by omega,
        store_of_lt hk]
    · rw [if_neg h2, hm, store_of_not_mem (by omega), store_of_not_mem (by omega),
        store_of_not_mem (by rw [length_replicate]; omega)]

/-- **A number with zeroes in front of it**, to a width of ten. -/
theorem mem_fmtpad0 {num : UInt64} (hnum : num.toNat < 10000000000) (o : Out) (h : p + 10 ≤ e) :
    (fmtpad0 p e 10 (fmtu64 p e num o).1 (fmtu64 p e num o).2).1 = p + 10 ∧
      (fmtpad0 p e 10 (fmtu64 p e num o).1 (fmtu64 p e num o).2).2.mem =
        o.mem.store p (digits 10 num.toNat) := by
  set k := countDigits 10 num.toNat with hk
  have hle : k ≤ 10 := (countDigits_le_iff 10 (by decide) _ 10).mpr ⟨by decide, by norm_num; omega⟩
  have hpow : num.toNat < 10 ^ k := ((countDigits_le_iff 10 (by decide) _ k).mp le_rfl).2
  obtain ⟨hq, hmem⟩ := mem_fmtu64 num o (show p + countDigits 10 num.toNat ≤ e by omega)
  rw [← hk] at hq hmem
  have hshift : (10 - Int32.ofInt ((p + k : ℕ) - p)).toInt = 10 - k := by
    rw [toInt_shift (p := p) (q := p + k) (show (0 : Int32) ≤ 10 by decide) (by omega) (by omega)]
    show (10 : ℤ) - _ = _
    omega
  rw [hq, fmtpad0]
  generalize 10 - Int32.ofInt ((p + k : ℕ) - p) = shift at hshift ⊢
  rcases lt_or_ge k 10 with hlt | hge
  · have hpos : ¬shift ≤ 0 := by
      rw [Int32.le_iff_toInt_le, Int32.toInt_zero]
      omega
    have hnat : shift.toInt.toNat = 10 - k := by omega
    have hout := @mem_shiftIn p e (10 - k) (by omega) 48 (digits k num.toNat) o.mem
      (fmtu64 p e num o).2 hmem (by rw [length_digits]; omega)
    have hten : 10 - k + k = 10 := by omega
    have hdigits := digits_add (10 - k) k hpow
    rw [length_digits, hten] at hout
    rw [hten] at hdigits
    rw [if_neg hpos, hnat, hdigits]
    exact hout
  · have hten : k = 10 := by omega
    have hzero : shift ≤ 0 := by
      rw [Int32.le_iff_toInt_le, Int32.toInt_zero]
      omega
    rw [if_pos hzero, hmem, hten]
    exact ⟨rfl, rfl⟩

end Format

end Minibase
