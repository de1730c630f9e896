import Mathlib.Tactic.NormNum
import Minibase.Format.Fmt

/-!
# What the formatters write

A formatter should write nothing at or after the end of its buffer, and return a position that
is not behind it (`Format.Clipped`). Most of them do. The exceptions are

* `fmtint` and `fmti64`, which write a minus sign wherever they are,
* `fmthex`, which returns the end of the number even if that is cut off,
* `fmtpad` and `fmtpad0`, which cut off the text but not the padding.

A call is clipped exactly if it has `Format.Call.Fits` (`Format.Call.clipped_iff`); for a chain
of calls that is `Format.chain_clips_iff`.
-/

namespace Minibase.Format

open Int32

/-- **What is asked of a call** at the position `p`: the position it returns, and where memory
has been written to. -/
structure Clipped (e p : ℕ) (r : ℕ × Out) : Prop where
  le : p ≤ r.1
  le_end : r.1 ≤ e
  inside : ∀ a ∈ r.2.log, a < e

/-- **When it happens.** The cases are those in which a formatter does not look at the end. -/
def Call.Fits (e p : ℕ) : Call → Prop
  | .int num => 0 ≤ num ∨ p < e
  | .i64 num => 0 ≤ num ∨ p < e
  | .hex num => p < e ∧ num.toNat < 16 ^ (e - p)
  | .pad width _ q => q.Fits e p ∧ p + width.toInt ≤ e
  | .pad0 width _ q => q.Fits e p ∧ p + width.toInt ≤ e
  | .padr _ q => q.Fits e p
  | _ => True

variable {e p : ℕ} {o : Out}

/-! ### Strings -/

variable {i q : ℕ} {width : Int32} {a : ℕ}

lemma mem_log_copy {bs : List UInt8} :
    i ∈ (o.copy a bs).log ↔ (a ≤ i ∧ i < a + bs.length) ∨ i ∈ o.log := by
  simp [Out.copy, List.mem_range'_1]

lemma mem_log_poke {c : UInt8} : i ∈ (o.poke a c).log ↔ i = a ∨ i ∈ o.log := by
  simp [Out.poke]

/-- A byte that is written if it is before the end. -/
theorem mem_log_clip {c : UInt8} :
    i ∈ (if a < e then o.poke a c else o).log ↔ (i = a ∧ a < e) ∨ i ∈ o.log := by
  split
  · rename_i h
    rw [mem_log_poke]
    simp [h]
  · rename_i h
    simp [h]

/-- **A block** is cut off at the end, and it is shorter than an `int` can tell anyway. -/
theorem fmtraw_spec (hp : p ≤ e) (ho : ∀ a ∈ o.log, a < e) (src : Mem) (data : ℕ) (len : Int32) :
    Clipped e p (fmtraw p e src data len o) ∧ (fmtraw p e src data len o).1 < p + 2 ^ 31 := by
  rw [fmtraw]
  generalize hl : (if len.toInt > (e : ℤ) - p then ofInt (e - p) else len) = l
  have hle : l.toInt ≤ (e : ℤ) - p := by
    have hlt := len.toInt_lt
    rw [← hl]
    split
    · rw [toInt_ofInt_of_le (by omega) (by omega)]
    · omega
  have hlt := l.toInt_lt
  split
  · exact ⟨⟨le_refl p, hp, ho⟩, by simp⟩
  · rename_i hpos
    rw [le_iff_toInt_le, toInt_zero] at hpos
    refine ⟨⟨by simp, ?_, fun a ha => ?_⟩, ?_⟩
    · dsimp only
      omega
    · rcases mem_log_copy.mp ha with h | h
      · rw [Mem.length_load] at h
        omega
      · exact ho a h
    · dsimp only
      omega

lemma fmtstr_spec (hp : p ≤ e) (ho : ∀ a ∈ o.log, a < e) (src : Mem) (s : ℕ) :
    Clipped e p (fmtstr p e src s o) ∧ (fmtstr p e src s o).1 < p + 2 ^ 31 := by
  rw [fmtstr]
  split
  · exact ⟨⟨le_refl p, hp, ho⟩, by simp⟩
  · exact fmtraw_spec hp ho src s _

lemma fmtchar_spec (hp : p ≤ e) (ho : ∀ a ∈ o.log, a < e) (c : UInt8) :
    Clipped e p (fmtchar p e c o) ∧ (fmtchar p e c o).1 ≤ p + 1 := by
  rw [fmtchar]
  split
  · rename_i hlt
    refine ⟨⟨Nat.le_succ p, hlt, fun a ha => ?_⟩, le_refl _⟩
    rcases mem_log_poke.mp ha with rfl | h
    · exact hlt
    · exact ho a h
  · exact ⟨⟨le_refl p, hp, ho⟩, Nat.le_succ p⟩

/-! ### Numbers -/

lemma countDigits_pos (base n : ℕ) : 0 < countDigits base n := by
  rw [countDigits]
  split <;> omega

/-- **A number has at most `k` digits** if it is below that power of the base. -/
theorem countDigits_le_iff (base : ℕ) (hb : 2 ≤ base) (n k : ℕ) :
    countDigits base n ≤ k ↔ 0 < k ∧ n < base ^ k := by
  induction k generalizing n with
  | zero =>
    have := countDigits_pos base n
    constructor
    · intro h
      omega
    · rintro ⟨h, -⟩
      omega
  | succ k ih =>
    rw [countDigits]
    split
    · rename_i h
      have hpos := countDigits_pos base (n / base)
      rw [Nat.add_le_add_iff_right, ih, Nat.div_lt_iff_lt_mul (by omega), pow_succ]
      constructor
      · rintro ⟨-, hlt⟩
        exact ⟨Nat.succ_pos k, hlt⟩
      · rintro ⟨-, hlt⟩
        refine ⟨?_, hlt⟩
        -- a number that is not below the base has a second digit
        rcases Nat.eq_zero_or_pos k with rfl | hk
        · rw [Nat.pow_zero] at hlt
          omega
        · exact hk
    · rename_i h
      have hn : n < base := by omega
      have hpow : base ≤ base ^ (k + 1) := by
        calc base = base ^ 1 := (Nat.pow_one base).symm
          _ ≤ base ^ (k + 1) := Nat.pow_le_pow_right (by omega) (by omega)
      constructor
      · intro _
        exact ⟨Nat.succ_pos k, by omega⟩
      · intro _
        omega

/-- Where digits are written to. -/
theorem mem_log_putDigits {base : ℕ} {digit : ℕ → UInt8} (len num : ℕ) :
    a ∈ (putDigits e base digit p len num o).log ↔ (p ≤ a ∧ a < p + len ∧ a < e) ∨ a ∈ o.log := by
  induction len generalizing num o with
  | zero =>
    rw [putDigits]
    constructor
    · exact .inr
    · rintro (h | h)
      · omega
      · exact h
  | succ len ih =>
    rw [putDigits, ih, mem_log_clip]
    constructor
    · rintro (h | ⟨rfl, h⟩ | h)
      · exact .inl (by omega)
      · exact .inl (by omega)
      · exact .inr h
    · rintro (h | h)
      · by_cases ha : a = p + len
        · exact .inr (.inl ⟨ha, by omega⟩)
        · exact .inl (by omega)
      · exact .inr (.inr h)

lemma countDigits_uint64 (num : UInt64) : countDigits 10 num.toNat ≤ 20 := by
  rw [countDigits_le_iff _ (by decide)]
  have := num.toNat_lt
  exact ⟨by decide, by omega⟩

/-- **A decimal number** is cut off at the end, but its sign is not. -/
theorem fmtint64_spec (hp : p ≤ e) (ho : ∀ a ∈ o.log, a < e) (minus : Bool) (num : UInt64) :
    (Clipped e p (fmtint64 p e minus num o) ↔ minus = false ∨ p < e) ∧
      p ≤ (fmtint64 p e minus num o).1 ∧ (fmtint64 p e minus num o).1 ≤ p + 21 := by
  have hlen := countDigits_uint64 num
  have hret : p ≤ (fmtint64 p e minus num o).1 ∧ (fmtint64 p e minus num o).1 ≤ e ∧
      (fmtint64 p e minus num o).1 ≤ p + 21 := by
    have hsign : (if minus then 1 else 0) ≤ 1 := by cases minus <;> decide
    rw [fmtint64]
    generalize (if minus then 1 else 0) = sign at hsign ⊢
    split <;> omega
  refine ⟨?_, hret.1, hret.2.2⟩
  cases minus with
  | false =>
    refine ⟨fun _ => .inl rfl, fun _ => ⟨hret.1, hret.2.1, fun a ha => ?_⟩⟩
    rcases (mem_log_putDigits _ _).mp ha with h | h
    · exact h.2.2
    · exact ho a h
  | true =>
    have hmem : ∀ a, a ∈ (fmtint64 p e true num o).2.log ↔
        a = p ∨ (p + 1 ≤ a ∧ a < p + 1 + countDigits 10 num.toNat ∧ a < e) ∨ a ∈ o.log := by
      intro a
      rw [← mem_log_putDigits _ num.toNat]
      exact mem_log_poke
    constructor
    · intro h
      exact .inr (h.inside p ((hmem p).mpr (.inl rfl)))
    · rintro (h | h)
      · cases h
      · refine ⟨hret.1, hret.2.1, fun a ha => ?_⟩
        rcases (hmem a).mp ha with rfl | hd | hl
        · exact h
        · exact hd.2.2
        · exact ho a hl

lemma fmtx64_spec (hp : p ≤ e) (ho : ∀ a ∈ o.log, a < e) (num : UInt64) :
    Clipped e p (fmtx64 p e num o) ∧ (fmtx64 p e num o).1 ≤ p + 16 := by
  have hlen : countDigits 16 num.toNat ≤ 16 := by
    rw [countDigits_le_iff _ (by decide)]
    have := num.toNat_lt
    exact ⟨by decide, by omega⟩
  rw [fmtx64]
  refine ⟨⟨?_, ?_, fun a ha => ?_⟩, ?_⟩
  · dsimp only
    split <;> omega
  · dsimp only
    split <;> omega
  · rcases (mem_log_putDigits _ _).mp ha with h | h
    · exact h.2.2
    · exact ho a h
  · split <;> omega

/-- **A number of `fmthex`** is cut off, but what is returned is the end of the whole. -/
theorem fmthex_spec (hp : p ≤ e) (ho : ∀ a ∈ o.log, a < e) (num : UInt32) :
    (Clipped e p (fmthex p e num o) ↔ p < e ∧ num.toNat < 16 ^ (e - p)) ∧
      p ≤ (fmthex p e num o).1 ∧ (fmthex p e num o).1 ≤ p + 8 := by
  have hlen : countDigits 16 num.toNat ≤ 8 := by
    rw [countDigits_le_iff _ (by decide)]
    have := num.toNat_lt
    exact ⟨by decide, by omega⟩
  have hiff := countDigits_le_iff 16 (by decide) num.toNat (e - p)
  rw [fmthex]
  refine ⟨⟨fun h => ?_, fun h => ?_⟩, by omega, by omega⟩
  · have hle : p + countDigits 16 num.toNat ≤ e := h.le_end
    obtain ⟨h1, h2⟩ := hiff.mp (by omega)
    exact ⟨by omega, h2⟩
  · have hle := hiff.mpr ⟨by omega, h.2⟩
    refine ⟨Nat.le_add_right .., ?_, fun a ha => ?_⟩
    · dsimp only
      omega
    · rcases (mem_log_putDigits _ _).mp ha with h | h
      · exact h.2.2
      · exact ho a h

/-! ### Padding -/

/-- Where the text is moved to. -/
theorem mem_log_moveUp (shift n : ℕ) :
    a ∈ (moveUp p e shift n o).log ↔ (p + shift ≤ a ∧ a < p + shift + n ∧ a < e) ∨ a ∈ o.log := by
  induction n generalizing o with
  | zero =>
    rw [moveUp]
    constructor
    · exact .inr
    · rintro (h | h)
      · omega
      · exact h
  | succ n ih =>
    rw [moveUp, ih, mem_log_clip]
    constructor
    · rintro (h | ⟨rfl, h⟩ | h)
      · exact .inl (by omega)
      · exact .inl (by omega)
      · exact .inr h
    · rintro (h | h)
      · by_cases ha : a = p + shift + n
        · exact .inr (.inl ⟨ha, by omega⟩)
        · exact .inl (by omega)
      · exact .inr (.inr h)

/-- Where the padding is. -/
theorem mem_log_fill {c : UInt8} (n : ℕ) :
    a ∈ (fill p c n o).log ↔ (p ≤ a ∧ a < p + n) ∨ a ∈ o.log := by
  induction n generalizing o with
  | zero =>
    rw [fill]
    constructor
    · exact .inr
    · rintro (h | h)
      · omega
      · exact h
  | succ n ih =>
    rw [fill, ih, mem_log_poke]
    constructor
    · rintro (h | rfl | h)
      · exact .inl (by omega)
      · exact .inl (by omega)
      · exact .inr h
    · rintro (h | h)
      · by_cases ha : a = p + n
        · exact .inr (.inl ha)
        · exact .inl (by omega)
      · exact .inr (.inr h)

/-- **Padding a text** to a width: everything is inside if the text was and the width is, and
otherwise what is returned is not. -/
theorem shiftIn_spec {shift : ℕ} {width : ℤ} (c : UInt8) (hq : p ≤ q)
    (hs : (q : ℤ) + shift = p + width) (hw : width < 2 ^ 31) :
    (Clipped e p (shiftIn p e shift q c o) ↔ Clipped e p (q, o) ∧ (p : ℤ) + width ≤ e) ∧
      p ≤ (shiftIn p e shift q c o).1 ∧ (shiftIn p e shift q c o).1 < p + 2 ^ 31 := by
  have hret : (shiftIn p e shift q c o).1 = q + shift := rfl
  have hmem : ∀ a, a ∈ (shiftIn p e shift q c o).2.log ↔
      (p ≤ a ∧ a < p + shift) ∨ (p + shift ≤ a ∧ a < p + shift + (q - p) ∧ a < e) ∨ a ∈ o.log := by
    intro a
    have hn : min q p + shift - p = shift := by omega
    rw [← mem_log_moveUp, ← mem_log_fill (c := c), shiftIn, hn]
  refine ⟨⟨fun h => ?_, ?_⟩, by omega, by omega⟩
  · have hle := h.le_end
    refine ⟨⟨hq, ?_, fun a ha => h.inside a ((hmem a).mpr (.inr (.inr ha)))⟩, by omega⟩
    omega
  · rintro ⟨h, hle⟩
    refine ⟨by omega, by omega, fun a ha => ?_⟩
    rcases (hmem a).mp ha with ha | ha | ha
    · omega
    · exact ha.2.2
    · exact h.inside a ha

/-- The difference of a width and a length, neither of them too long for an `int`. -/
theorem toInt_shift (hw : 0 ≤ width) (hq : p ≤ q) (hlt : q < p + 2 ^ 31) :
    (width - ofInt (q - p)).toInt = width.toInt - (q - p) := by
  have h1 := width.toInt_lt
  rw [le_iff_toInt_le, toInt_zero] at hw
  rw [toInt_sub, toInt_ofInt_of_le (by omega) (by omega)]
  exact Int.bmod_eq_of_le (by omega) (by omega)

/-- **`fmtpad`** is right if the text was and there is room for the whole width. -/
theorem fmtpad_spec (hw : 0 ≤ width) (hq : p ≤ q) (hlt : q < p + 2 ^ 31) :
    (Clipped e p (fmtpad p e width q o) ↔
        Clipped e p (q, o) ∧ (p : ℤ) + width.toInt ≤ e) ∧
      p ≤ (fmtpad p e width q o).1 ∧ (fmtpad p e width q o).1 < p + 2 ^ 31 := by
  have hs := toInt_shift hw hq hlt
  have h1 := width.toInt_lt
  rw [fmtpad]
  split
  · rename_i h
    refine ⟨⟨fun hc => ?_, fun hc => hc.1⟩, hq, hlt⟩
    have := hc.le_end
    omega
  · rename_i h
    dsimp only
    generalize width - ofInt (q - p) = shift at hs ⊢
    split
    · rename_i hneg
      rw [lt_iff_toInt_lt, toInt_zero] at hneg
      refine ⟨⟨fun hc => ⟨hc, by omega⟩, fun hc => hc.1⟩, hq, hlt⟩
    · rename_i hneg
      rw [lt_iff_toInt_lt, toInt_zero] at hneg
      exact shiftIn_spec 32 hq (by omega) h1

/-- **`fmtpad0`** likewise, although it does not look at where the text ends. -/
theorem fmtpad0_spec (hw : 0 ≤ width) (hq : p ≤ q) (hlt : q < p + 2 ^ 31) :
    (Clipped e p (fmtpad0 p e width q o) ↔
        Clipped e p (q, o) ∧ (p : ℤ) + width.toInt ≤ e) ∧
      p ≤ (fmtpad0 p e width q o).1 ∧ (fmtpad0 p e width q o).1 < p + 2 ^ 31 := by
  have hs := toInt_shift hw hq hlt
  have h1 := width.toInt_lt
  rw [fmtpad0]
  generalize width - ofInt (q - p) = shift at hs ⊢
  split
  · rename_i hneg
    rw [le_iff_toInt_le, toInt_zero] at hneg
    refine ⟨⟨fun hc => ⟨hc, ?_⟩, fun hc => hc.1⟩, hq, hlt⟩
    have := hc.le_end
    omega
  · rename_i hneg
    rw [le_iff_toInt_le, toInt_zero] at hneg
    exact shiftIn_spec 48 hq (by omega) h1

/-- Padding to the right stops at the end and at the width, whichever is first. -/
theorem fillRight_spec {t : ℤ} (n q : ℕ) (hq : q ≤ e) :
    q ≤ (fillRight e t n q o).1 ∧ (fillRight e t n q o).1 ≤ e ∧
      ((fillRight e t n q o).1 : ℤ) ≤ max (q : ℤ) t ∧
      ((∀ a ∈ (fillRight e t n q o).2.log, a < e) ↔ ∀ a ∈ o.log, a < e) := by
  induction n generalizing q o with
  | zero =>
    rw [fillRight]
    exact ⟨le_refl q, hq, le_max_left .., Iff.rfl⟩
  | succ n ih =>
    rw [fillRight]
    split
    · rename_i h
      obtain ⟨h1, h2, h3, h4⟩ := ih (o := o.poke q 32) (q + 1) h.2
      refine ⟨by omega, h2, by omega, h4.trans ?_⟩
      constructor
      · intro hall a ha
        exact hall a (mem_log_poke.mpr (.inr ha))
      · intro hall a ha
        rcases mem_log_poke.mp ha with rfl | ha
        · exact h.2
        · exact hall a ha
    · exact ⟨le_refl q, hq, le_max_left .., Iff.rfl⟩

lemma fmtpadr_spec (hq : p ≤ q) (hlt : q < p + 2 ^ 31) :
    (Clipped e p (fmtpadr p e width q o) ↔ Clipped e p (q, o)) ∧
      p ≤ (fmtpadr p e width q o).1 ∧ (fmtpadr p e width q o).1 < p + 2 ^ 31 := by
  have h1 := width.toInt_lt
  rw [fmtpadr]
  split
  · exact ⟨Iff.rfl, hq, hlt⟩
  · rename_i h
    obtain ⟨h2, h3, h4, h5⟩ :=
      fillRight_spec (t := p + width.toInt) (o := o) (e - q) q (by omega : q ≤ e)
    refine ⟨⟨fun hc => ⟨hq, by dsimp only; omega, h5.mp hc.inside⟩, fun hc => ?_⟩, by omega,
      by omega⟩
    exact ⟨by omega, h3, h5.mpr hc.inside⟩

/-! ### Calls -/

lemma fmtoctet_spec (hp : p ≤ e) (ho : ∀ a ∈ o.log, a < e) (b : UInt8) :
    Clipped e p (fmtoctet p e b o) ∧ (fmtoctet p e b o).1 ≤ p + 21 := by
  have hb := b.toNat_lt
  have hpos : ¬ofNat b.toNat < 0 := by
    rw [lt_iff_toInt_lt, toInt_zero, toInt_ofNat_of_lt (by omega)]
    omega
  obtain ⟨h1, -, h2⟩ := fmtint64_spec hp ho (decide (ofNat b.toNat < 0))
    (if ofNat b.toNat < 0 then -ofNat b.toNat else ofNat b.toNat).toInt64.toUInt64
  exact ⟨h1.mpr (.inl (decide_eq_false hpos)), h2⟩

lemma fmtip_spec (hp : p ≤ e) (ho : ∀ a ∈ o.log, a < e) (ip0 ip1 ip2 ip3 : UInt8) :
    Clipped e p (fmtip p e ip0 ip1 ip2 ip3 o) ∧ (fmtip p e ip0 ip1 ip2 ip3 o).1 < p + 2 ^ 31 := by
  obtain ⟨c1, b1⟩ := fmtoctet_spec hp ho ip0
  obtain ⟨c2, b2⟩ := fmtchar_spec c1.le_end c1.inside 46
  obtain ⟨c3, b3⟩ := fmtoctet_spec c2.le_end c2.inside ip1
  obtain ⟨c4, b4⟩ := fmtchar_spec c3.le_end c3.inside 46
  obtain ⟨c5, b5⟩ := fmtoctet_spec c4.le_end c4.inside ip2
  obtain ⟨c6, b6⟩ := fmtchar_spec c5.le_end c5.inside 46
  obtain ⟨c7, b7⟩ := fmtoctet_spec c6.le_end c6.inside ip3
  have hle := c1.le.trans (c2.le.trans (c3.le.trans
    (c4.le.trans (c5.le.trans (c6.le.trans c7.le)))))
  rw [fmtip]
  refine ⟨⟨hle, c7.le_end, c7.inside⟩, lt_of_le_of_lt b7 ?_⟩
  omega

/-- **A call is clipped exactly if it fits.** Whether or not it does, it returns a position that
is not before `p`, and not too far from it for an `int`. -/
theorem Call.clipped_iff (c : Call) (hp : p ≤ e) (ho : ∀ a ∈ o.log, a < e) :
    (Clipped e p (c.run e p o) ↔ c.Fits e p) ∧
      p ≤ (c.run e p o).1 ∧ (c.run e p o).1 < p + 2 ^ 31 := by
  -- a formatter that is always clipped
  have always : ∀ {r : ℕ × Out}, Clipped e p r ∧ r.1 < p + 2 ^ 31 →
      (Clipped e p r ↔ True) ∧ p ≤ r.1 ∧ r.1 < p + 2 ^ 31 :=
    fun h => ⟨iff_true_intro h.1, h.1.le, h.2⟩
  -- decimal numbers
  have number : ∀ minus num, (Clipped e p (fmtint64 p e minus num o) ↔ minus = false ∨ p < e) ∧
      p ≤ (fmtint64 p e minus num o).1 ∧ (fmtint64 p e minus num o).1 < p + 2 ^ 31 := by
    intro minus num
    obtain ⟨h1, h2, h3⟩ := fmtint64_spec hp ho minus num
    exact ⟨h1, h2, by omega⟩
  have unsigned : ∀ num, (Clipped e p (fmtint64 p e false num o) ↔ True) ∧
      p ≤ (fmtint64 p e false num o).1 ∧ (fmtint64 p e false num o).1 < p + 2 ^ 31 := by
    intro num
    obtain ⟨h1, h2, h3⟩ := number false num
    exact ⟨h1.trans (iff_true_intro (.inl rfl)), h2, h3⟩
  induction c with
  | str src s => exact always (fmtstr_spec hp ho src s)
  | strn src s len => exact always (fmtraw_spec hp ho src s _)
  | raw src data len => exact always (fmtraw_spec hp ho src data len)
  | char ch =>
    obtain ⟨h1, h2⟩ := fmtchar_spec hp ho ch
    exact always ⟨h1, lt_of_le_of_lt h2 (by omega)⟩
  | int num =>
    obtain ⟨h1, h2⟩ := number (num < 0) (if num < 0 then -num else num).toInt64.toUInt64
    refine ⟨h1.trans ?_, h2⟩
    rw [Call.Fits, decide_eq_false_iff_not, Int32.not_lt]
  | uint num => exact unsigned _
  | i64 num =>
    obtain ⟨h1, h2⟩ := number (num < 0) (if num < 0 then -num else num).toUInt64
    refine ⟨h1.trans ?_, h2⟩
    rw [Call.Fits, decide_eq_false_iff_not, Int64.not_lt]
  | u64 num => exact unsigned _
  | x64 num =>
    obtain ⟨h1, h2⟩ := fmtx64_spec hp ho num
    exact always ⟨h1, lt_of_le_of_lt h2 (by omega)⟩
  | hex num =>
    obtain ⟨h1, h2, h3⟩ := fmthex_spec hp ho num
    exact ⟨h1, h2, lt_of_le_of_lt h3 (by omega)⟩
  | pad width hw q ih =>
    obtain ⟨h1, h2, h3⟩ := ih
    obtain ⟨h4, h5⟩ := fmtpad_spec hw h2 h3
    exact ⟨h4.trans (and_congr_left' h1), h5⟩
  | pad0 width hw q ih =>
    obtain ⟨h1, h2, h3⟩ := ih
    obtain ⟨h4, h5⟩ := fmtpad0_spec hw h2 h3
    exact ⟨h4.trans (and_congr_left' h1), h5⟩
  | padr width q ih =>
    obtain ⟨h1, h2, h3⟩ := ih
    obtain ⟨h4, h5⟩ := fmtpadr_spec h2 h3
    exact ⟨h4.trans h1, h5⟩
  | ip ip0 ip1 ip2 ip3 => exact always (fmtip_spec hp ho ip0 ip1 ip2 ip3)

/-! ### Chains -/

/-- Every call of a chain is clipped, each of them starting where the one before it ended. -/
def ChainClips (e : ℕ) : ℕ → Out → List Call → Prop
  | _, _, [] => True
  | p, o, c :: cs => Clipped e p (c.run e p o) ∧ ChainClips e (c.run e p o).1 (c.run e p o).2 cs

/-- Every call of a chain fits where it starts. -/
def ChainFits (e : ℕ) : ℕ → Out → List Call → Prop
  | _, _, [] => True
  | p, o, c :: cs => c.Fits e p ∧ ChainFits e (c.run e p o).1 (c.run e p o).2 cs

lemma chainClips_iff (cs : List Call) (hp : p ≤ e) (ho : ∀ a ∈ o.log, a < e) :
    ChainClips e p o cs ↔ ChainFits e p o cs := by
  induction cs generalizing p o with
  | nil => exact Iff.rfl
  | cons c cs ih =>
    rw [ChainClips, ChainFits, (c.clipped_iff hp ho).1]
    refine and_congr_right fun hc => ?_
    have hclip := (c.clipped_iff hp ho).1.mpr hc
    exact ih hclip.le_end hclip.inside

/-- **A chain of calls stays inside the buffer exactly if each of them fits** where it starts,
whatever the memory is. -/
theorem chain_clips_iff (m : Mem) (p e : ℕ) (hp : p ≤ e) (cs : List Call) :
    ChainClips e p ⟨m, []⟩ cs ↔ ChainFits e p ⟨m, []⟩ cs :=
  chainClips_iff cs hp fun _ ha => absurd ha List.not_mem_nil

/-- A negative number that is padded, and another one that is cut off. -/
theorem chain_clips_padded :
    ChainClips 4 0 ⟨fun _ => 0, []⟩ [.pad 3 (by decide) (.int (-7)), .int (-10)] := by
  refine (chain_clips_iff _ 0 4 (by decide) _).mpr ⟨⟨.inr (by decide), by decide⟩, .inr ?_, trivial⟩
  decide +kernel

/-- **Calls that are not clipped**: a negative number at the end of the buffer, a hexadecimal one
that does not fit, and padding that does not. -/
theorem not_clipped :
    ¬ChainClips 4 4 ⟨fun _ => 0, []⟩ [.int (-1)] ∧
      ¬ChainClips 4 4 ⟨fun _ => 0, []⟩ [.i64 (-1)] ∧
      ¬ChainClips 4 3 ⟨fun _ => 0, []⟩ [.hex 0x10] ∧
      ¬ChainClips 4 0 ⟨fun _ => 0, []⟩ [.pad 5 (by decide) (.char 97)] ∧
      ¬ChainClips 4 0 ⟨fun _ => 0, []⟩ [.pad0 5 (by decide) (.char 97)] := by
  have single : ∀ (p : ℕ) (c : Call), p ≤ 4 → ChainClips 4 p ⟨fun _ => 0, []⟩ [c] → c.Fits 4 p :=
    fun p c hp h => ((chainClips_iff [c] hp fun _ ha => absurd ha List.not_mem_nil).mp h).1
  refine ⟨fun h => ?_, fun h => ?_, fun h => ?_, fun h => ?_, fun h => ?_⟩
  · rcases single 4 _ (by decide) h with h | h
    · exact absurd h (by decide)
    · exact absurd h (by decide)
  · rcases single 4 _ (by decide) h with h | h
    · exact absurd h (by decide)
    · exact absurd h (by decide)
  · exact absurd (single 3 _ (by decide) h).2 (by decide)
  · exact absurd (single 0 _ (by decide) h).2 (by decide)
  · exact absurd (single 0 _ (by decide) h).2 (by decide)

end Minibase.Format
