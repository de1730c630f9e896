import Mathlib.Tactic.Ring
import Minibase.Lzma.Logic

/-!
# One symbol

The decoder from bits to symbols, function by function: each keeps the invariant, at a cost
that is known, and does the same in both runs (`Lzma.Keeps`). A tree of depth `n` needs `2^n`
models (`Lzma.keeps_decTree`), the matched literals three times 256, and the special distances
fill their array to the last (`Lzma.dispec_fits`). One turn of the loop puts out at least a byte
or sets `error` (`Lzma.Turn`); it reads at most 48 bytes and writes at most 273
(`Lzma.symbol_decSymbol`).
-/

namespace Minibase.Lzma

open Lzma.Keeps

variable {cap : ℕ}

/-! ### Trees -/

/-- Appending a bit. -/
theorem shl_or_bit {ret bit : ℕ} (hr : ret < 0x80000000) (hb : bit = 0 ∨ bit = 1) :
    u32 (ret <<< 1) ||| bit = 2 * ret + bit := by
  have hlt : bit < 2 ^ 1 := by omega
  have hsh : u32 (ret <<< 1) = ret <<< 1 := u32_of_lt (by rw [Nat.shiftLeft_eq]; omega)
  rw [hsh, ← Nat.shiftLeft_add_eq_or_of_lt hlt, Nat.shiftLeft_eq]
  omega

/-- The leaves below a node of a tree are among those below its parent. -/
theorem subtree {ret bit : ℕ} (hb : bit = 0 ∨ bit = 1) (i : ℕ) :
    ret * 2 ^ (i + 1) ≤ (2 * ret + bit) * 2 ^ i ∧
      (2 * ret + bit + 1) * 2 ^ i ≤ (ret + 1) * 2 ^ (i + 1) := by
  constructor
  · calc ret * 2 ^ (i + 1) = (2 * ret) * 2 ^ i := by rw [pow_succ]; ring
      _ ≤ (2 * ret + bit) * 2 ^ i := Nat.mul_le_mul_right _ (by omega)
  · calc (2 * ret + bit + 1) * 2 ^ i ≤ (2 * (ret + 1)) * 2 ^ i :=
          Nat.mul_le_mul_right _ (by omega)
      _ = (ret + 1) * 2 ^ (i + 1) := by rw [pow_succ]; ring

/-- A node with leaves below it is no farther than half of them. -/
theorem node_le (ret i : ℕ) : 2 * (ret + 1) ≤ (ret + 1) * 2 ^ (i + 1) := by
  calc 2 * (ret + 1) ≤ 2 * ((ret + 1) * 2 ^ i) :=
        Nat.mul_le_mul_left _ (Nat.le_mul_of_pos_right _ (Nat.two_pow_pos i))
    _ = (ret + 1) * 2 ^ (i + 1) := by rw [Nat.pow_succ]; ring

/-- The models that `bma` starts are there, `size` of them. -/
def Models (bma : Bitmodel) (size : ℕ) : Prop :=
  bma.row < bma.arr.rows ∧ bma.col + size ≤ bma.arr.cols

variable {bma : Bitmodel} {bms pstate : ℕ}

lemma Models.inside {size i : ℕ} (h : Models bma size) (hi : i < size) : (bma.at i).Inside :=
  ⟨h.1, Nat.lt_of_lt_of_le (Nat.add_lt_add_left hi _) h.2⟩

lemma keeps_decTreeLoop {size : ℕ} (hm : Models bma size) (hs : size ≤ bms)
    (hlt : size ≤ 0x10000) {i ret : ℕ} (hret : (ret + 1) * 2 ^ i ≤ 2 * size) :
    Keeps cap full full (i, 0) (decTreeLoop bma bms i ret) fun r =>
      ∃ v, r = some v ∧ ret * 2 ^ i ≤ v ∧ v < (ret + 1) * 2 ^ i := by
  induction i generalizing ret with
  | zero => exact pure ⟨ret, rfl, by omega, by omega⟩
  | succ i ih =>
    have hnode := node_le ret i
    have hidx : ret < size := by omega
    refine mono_cost (m := 0 + ((1, 0) + (i, 0))) ?_ (by simp [Prod.le_def]; omega)
    rw [decTreeLoop]
    refine (keeps_rangeCheck (lt_of_lt_of_le hidx hs)).bind ?_
    rintro _ rfl
    refine (keeps_decBit (hm.inside hidx)).bind fun bit hbit => ?_
    rw [shl_or_bit (by omega) hbit]
    obtain ⟨hsub', hsub⟩ := @subtree ret bit hbit i
    refine (ih (hsub.trans hret)).weaken ?_
    rintro r ⟨v, rfl, h1, h2⟩
    exact ⟨v, rfl, hsub'.trans h1, lt_of_lt_of_le h2 hsub⟩

/-- **A tree of depth `n` needs `2^n` models.** -/
theorem keeps_decTree {n : ℕ} (hm : Models bma (2 ^ n)) (hs : 2 ^ n ≤ bms) (hn : n ≤ 16) :
    Keeps cap full full (n, 0) (decTree bma bms n) (· < 2 ^ n) := by
  have hlt : 2 ^ n ≤ 2 ^ 16 := Nat.pow_le_pow_right (by omega) hn
  refine mono_cost (m := (n, 0) + 0) ?_ (by simp)
  refine (keeps_decTreeLoop hm hs hlt (by omega)).bind ?_
  rintro _ ⟨v, rfl, h1, h2⟩
  refine pure ?_
  rw [Nat.shiftLeft_eq, sub32_of_le (by omega) (by omega)]
  omega

lemma keeps_decRtree {n : ℕ} (hm : Models bma (2 ^ n)) (hs : 2 ^ n ≤ bms) (hn : n ≤ 16) :
    Keeps cap full full (n, 0) (decRtree bma bms n) fun _ => True := by
  refine mono_cost (m := (n, 0) + 0) ?_ (by simp)
  exact (keeps_decTree hm hs hn).bind fun _ _ => pure trivial

lemma keeps_decDirectLoop (i ret : ℕ) :
    Keeps cap full full (i, 0) (decDirectLoop i ret) fun _ => True := by
  induction i generalizing ret with
  | zero => exact pure trivial
  | succ i ih =>
    refine mono_cost (m := (1, 0) + (i, 0)) ?_ (by simp [Prod.le_def]; omega)
    exact keeps_directBit.bind fun bit _ => ih _

/-! ### Matched literals -/

/-- The inner loop ends with all eight bits: its fuel is enough. -/
theorem keeps_decMatchTail (hm : Models bma 0x300) (hs : 0x300 ≤ bms) {fuel ret : ℕ}
    (hret : ret < 0x200) (hfuel : 0x100 ≤ ret * 2 ^ fuel) :
    Keeps cap full full (fuel, 0) (decMatchTail bma bms fuel ret) fun r =>
      ∃ v, r = some v ∧ 0x100 ≤ v ∧ v < 0x200 := by
  induction fuel generalizing ret with
  | zero => exact pure ⟨ret, rfl, by omega, hret⟩
  | succ fuel ih =>
    rw [decMatchTail]
    refine ite (fun hlt => ?_) fun hge => ?_
    · refine mono_cost (m := 0 + ((1, 0) + (fuel, 0))) ?_ (by simp [Prod.le_def]; omega)
      refine (keeps_rangeCheck (by omega)).bind ?_
      rintro _ rfl
      refine (keeps_decBit (hm.inside (by omega))).bind fun bit hbit => ?_
      rw [shl_or_bit (by omega) hbit]
      exact ih (by omega) (hfuel.trans (subtree hbit fuel).1)
    · refine mono_cost (m := 0) ?_ (by simp)
      exact pure ⟨ret, rfl, by omega, hret⟩

lemma keeps_decMatchLoop (hm : Models bma 0x300) (hs : 0x300 ≤ bms) (mbyte : ℕ) {i ret : ℕ}
    (h0 : 0x100 ≤ ret * 2 ^ i) (h1 : (ret + 1) * 2 ^ i ≤ 0x200) :
    Keeps cap full full (i + 8, 0) (decMatchLoop bma bms mbyte i ret) fun r =>
      ∃ v, r = some v ∧ 0x100 ≤ v ∧ v < 0x200 := by
  induction i generalizing ret with
  | zero =>
    refine mono_cost (m := 0) ?_ (by simp)
    exact pure ⟨ret, rfl, by omega, by omega⟩
  | succ i ih =>
    have hnode := node_le ret i
    have hpos : 0 < ret := pos_of_ne_zero fun h => by
      rw [h] at h0
      omega
    have hbit : (mbyte >>> i) &&& 1 ≤ 1 := Nat.and_le_right
    rw [decMatchLoop]
    generalize (mbyte >>> i) &&& 1 = matchbit at hbit
    have hoff : ret + matchbit <<< 8 + 0x100 < 0x300 := by
      rw [Nat.shiftLeft_eq]
      omega
    refine mono_cost (m := 0 + ((1, 0) + (i + 8, 0))) ?_ (by simp [Prod.le_def]; omega)
    refine (keeps_rangeCheck (lt_of_lt_of_le hoff hs)).bind ?_
    rintro _ rfl
    refine (keeps_decBit (hm.inside hoff)).bind fun bit hbit' => ?_
    rw [shl_or_bit (by omega) hbit']
    obtain ⟨hsub, hsub'⟩ := @subtree ret bit hbit' i
    refine ite (fun _ => ih (h0.trans hsub) (hsub'.trans h1)) fun _ => ?_
    refine mono_cost (m := (8, 0)) ?_ (by simp [Prod.le_def])
    exact keeps_decMatchTail hm hs (by omega) (by omega)

lemma keeps_decMatch (hm : Models bma 0x300) (mbyte : ℕ) :
    Keeps cap full full (16, 0) (decMatch bma 0x300 mbyte) fun _ => True := by
  refine mono_cost (m := (8 + 8, 0) + 0) ?_ (by simp)
  refine (keeps_decMatchLoop hm (le_refl _) mbyte (by omega) (by omega)).bind ?_
  rintro _ ⟨v, rfl, -, -⟩
  exact pure trivial

/-! ### Lengths -/

lemma keeps_decLength (lm : Lenmodel) (hp : pstate < 4) :
    Keeps cap full full (10, 0) (decLength lm pstate) (· ≤ 271) := by
  refine mono_cost (m := (1, 0) + (9, 0)) ?_ (by decide)
  refine (keeps_decBit ⟨one_pos, one_pos⟩).bind fun _ _ => ite (fun _ => ?_) fun _ => ?_
  · refine (keeps_decTree ⟨hp, ?_⟩ ?_ ?_).mono (by decide) fun v hv => ?_
    · exact le_refl 8
    · exact le_refl 8
    · decide
    · omega
  · refine mono_cost (m := (1, 0) + (8, 0)) ?_ (by decide)
    refine (keeps_decBit ⟨one_pos, one_pos⟩).bind fun _ _ =>
      ite (fun _ => ?_) fun _ => ?_
    · refine mono_cost (m := (3, 0) + 0) ?_ (by decide)
      refine (keeps_decTree ⟨hp, le_refl 8⟩ (le_refl 8) (by decide)).bind fun v hv => pure ?_
      change 8 + v ≤ 271
      omega
    · refine mono_cost (m := (8, 0) + 0) ?_ (by decide)
      refine (keeps_decTree ⟨one_pos, le_refl 256⟩ (le_refl 256) (by decide)).bind
        fun v hv => pure ?_
      change 16 + v ≤ 271
      omega

/-! ### Turns of the loop -/

/-- **A turn of the loop**: it comes to a state again, with a byte put out, or sets
`error`. -/
def Turn (x : Dec ℕ) : Prop :=
  ∀ s, Inv full s → (x s).2.error ≠ 0 ∨ ((x s).1 < STATES ∧ s.lz.dstptr < (x s).2.lz.dstptr)

/-- The judgement for what decodes a symbol, or the rest of one. -/
def Symbol (cap : ℕ) (n : ℕ × ℕ) (x : Dec ℕ) : Prop :=
  Keeps cap full full n x (· < STATE_INITIAL) ∧ Turn x

section Rules

variable {m n : ℕ × ℕ} {α : Type}

/-- Whatever comes before the part that makes it a turn. -/
theorem Symbol.after {x : Dec α} {f : α → Dec ℕ} {V : α → Prop} (hx : Keeps cap full full m x V)
    (hf : ∀ a, V a → Symbol cap n (f a)) : Symbol cap (m + n) (x >>= f) := by
  refine ⟨hx.bind fun a ha => (hf a ha).1, fun s hs => ?_⟩
  obtain ⟨⟨hi, hv⟩, hstep, -⟩ := hx s hs
  rcases (hf _ hv).2 _ hi with he | ⟨hst, hlt⟩
  · exact .inl he
  · exact .inr ⟨hst, lt_of_le_of_lt hstep.dstptr.1 hlt⟩

lemma Symbol.ite {x y : Dec ℕ} {c : Prop} [Decidable c] (hx : c → Symbol cap n x)
    (hy : ¬c → Symbol cap n y) : Symbol cap n (if c then x else y) := by
  split_ifs with hc
  · exact hx hc
  · exact hy hc

lemma Symbol.mono {x : Dec ℕ} (hx : Symbol cap m x) (hmn : m ≤ n) : Symbol cap n x :=
  ⟨hx.1.mono_cost hmn, hx.2⟩

lemma symbol_stateError {err : ℕ} (h : err ≠ 0) : Symbol cap 0 (stateError err) := by
  refine ⟨?_, fun _ _ => .inl h⟩
  exact mono_cost ((keeps_error h).bind fun _ _ =>
    pure (by decide : STATE_INVALID < STATE_INITIAL)) (le_refl (0 + 0))

/-- **Putting a byte out makes it a turn**, whatever comes next, if a state does. -/
theorem symbol_putByte (c : UInt8) {x : Dec Unit} (hx : Keeps cap full full n x fun _ => True)
    {state : ℕ} (hst : state < STATES) :
    Symbol cap ((0, 1) + (n + 0)) (do putByte c; x; return state) := by
  refine ⟨(keeps_putByte c).bind fun _ _ => hx.bind fun _ _ =>
    pure (hst.trans (by decide)), fun s hs => ?_⟩
  obtain ⟨⟨hi, -⟩, -, -⟩ := @keeps_putByte cap full c s hs
  obtain ⟨-, hstep, -⟩ := hx _ hi
  by_cases hend : s.lz.dstptr ≥ s.lz.dstend
  · refine .inl (hstep.error ?_)
    rw [putByte_of_ge hend]
    exact (by decide : LZMA_OUTPUT_OVER ≠ 0)
  · refine .inr ⟨hst, lt_of_lt_of_le ?_ hstep.dstptr.1⟩
    rw [putByte_of_lt hend]
    exact Nat.lt_succ_self _

end Rules

/-! ### Literals and matches -/

lemma keeps_repeatLoop (rep n : ℕ) :
    Keeps cap full full (0, n) (repeatLoop rep n) fun _ => True := by
  induction n with
  | zero => exact pure trivial
  | succ n ih =>
    refine mono_cost (m := 0 + ((0, 1) + (0, n))) ?_ (by simp [Prod.le_def]; omega)
    exact (keeps_peekBack rep).bind fun c _ => (keeps_putByte c).bind fun _ _ => ih

lemma symbol_repeatFromDict {state : ℕ} (hst : state < STATES) (rep : ℕ) {n : ℕ} (hn : 0 < n)
    (hle : n ≤ 273) : Symbol cap (0, 273) (repeatFromDict state rep n) := by
  obtain ⟨k, rfl⟩ : ∃ k, n = k + 1 := ⟨n - 1, by omega⟩
  refine Symbol.mono (m := 0 + (0 + ((0, 1) + ((0, k) + 0)))) ?_ (by simp [Prod.le_def]; omega)
  refine Symbol.after (keeps_note (e := .copy rep (k + 1)) trivial) fun _ _ => ?_
  -- the first byte makes it a turn
  change Symbol cap (0 + ((0, 1) + ((0, k) + 0)))
    (do let c ← peekBack rep; putByte c; repeatLoop rep k; return state)
  exact Symbol.after (keeps_peekBack rep) fun c _ => symbol_putByte c (keeps_repeatLoop rep k) hst

lemma keeps_literalByte (hm : Models bma 0x300) (state : ℕ) :
    Keeps cap full full (16, 0) (literalByte bma 0x300 state) fun _ => True := by
  refine ite (fun _ => ?_) fun _ => ?_
  · refine (keeps_decTree ⟨hm.1, ?_⟩ ?_ ?_).mono (by decide) fun _ _ => trivial
    · exact (Nat.add_le_add_left (by decide) _).trans hm.2
    · decide
    · decide
  · refine mono_cost (m := 0 + (0 + (16, 0))) ?_ (by decide)
    refine (keeps_fetch (V := fun _ => True) (fun _ _ _ h => by rw [h.rep]) fun _ _ => trivial).bind
      fun rep _ => ?_
    exact (keeps_peekBack rep).bind fun mbyte _ => keeps_decMatch hm _

lemma symbol_inflateLiteral {state : ℕ} (hst : state < STATES) :
    Symbol cap (16, 1) (inflateLiteral state) := by
  refine Symbol.mono (m := 0 + (0 + ((16, 0) + ((0, 1) + (0 + 0))))) ?_ (by decide)
  refine Symbol.after (keeps_peekBack 0) fun c _ => ?_
  have hctx : c.toNat >>> 5 < LCONTEXT := by
    have hc := c.toNat_lt
    rw [Nat.shiftRight_eq_div_pow]
    exact (by omega : c.toNat / 2 ^ 5 < 8)
  refine Symbol.after (keeps_rangeCheck hctx) ?_
  rintro _ rfl
  refine Symbol.after (keeps_literalByte ⟨hctx, le_refl 0x300⟩ state) fun b _ => ?_
  have hlt : state < 12 := hst
  -- the next state is one, whichever it is
  have hnext : ∀ st < STATES, Symbol cap ((0, 1) + (0 + 0))
      (do putByte (UInt8.ofNat b); pure (); return st) :=
    fun st h => symbol_putByte _ (pure (a := ()) trivial) h
  by_cases h1 : state ≤ STATE_SHORTREP_LIT_LIT
  · simp only [if_pos h1]
    exact hnext _ (by decide)
  · simp only [if_neg h1]
    by_cases h2 : state ≤ STATE_LIT_SHORTREP
    · simp only [if_pos h2]
      exact hnext _ (lt_of_le_of_lt (Nat.sub_le _ _) hst)
    · simp only [if_neg h2]
      exact hnext _ (lt_of_le_of_lt (Nat.sub_le _ _) hst)

/-- **The special distances fit their array**: ten trees, one after the other, the first of
each starting where the last one ended. -/
theorem dispec_fits {dislot : ℕ} (h1 : DIST_MODEL_START ≤ dislot) (h2 : dislot < DIST_MODEL_END) :
    let limit := (dislot >>> 1) - 1
    let off := sub32 (u32 ((2 + (dislot &&& 1)) <<< limit)) dislot
    off < 115 ∧ off + 2 ^ limit ≤ 115 ∧ 2 ^ limit ≤ sub32 115 off ∧ limit ≤ 5 := by
  have hall : ∀ d < 14, 4 ≤ d →
      sub32 (u32 ((2 + (d &&& 1)) <<< ((d >>> 1) - 1))) d < 115 ∧
        sub32 (u32 ((2 + (d &&& 1)) <<< ((d >>> 1) - 1))) d + 2 ^ ((d >>> 1) - 1) ≤ 115 ∧
        2 ^ ((d >>> 1) - 1) ≤ sub32 115 (sub32 (u32 ((2 + (d &&& 1)) <<< ((d >>> 1) - 1))) d) ∧
        (d >>> 1) - 1 ≤ 5 := by
    decide
  exact hall dislot h2 h1

lemma symbol_matchFrom {state rep len : ℕ} (h1 : 0 < len) (h2 : len ≤ 273) :
    Symbol cap (0, 273) (matchFrom state rep len) := by
  refine Symbol.mono (m := 0 + (0, 273)) ?_ (by decide)
  refine Symbol.after (keeps_setRep _) fun _ _ => symbol_repeatFromDict ?_ rep h1 h2
  split_ifs
  · decide
  · decide

lemma symbol_inflateMatch (state : ℕ) (hp : pstate < 4) :
    Symbol cap (46, 273) (inflateMatch state pstate) := by
  refine Symbol.mono (m := 0 + ((10, 0) + ((6, 0) + (30, 273)))) ?_ (by decide)
  refine Symbol.after (keeps_setRep _) fun _ _ => ?_
  refine Symbol.after (keeps_decLength .matchlen hp) fun len hlen => ?_
  have hd : (if 2 + len - 2 < DSTATES - 1 then 2 + len - 2 else DSTATES - 1) < DSTATES := by
    split_ifs with h
    · exact lt_of_lt_of_le h (by decide)
    · decide
  refine Symbol.after (keeps_decTree ⟨hd, le_refl 64⟩ (le_refl 64) (by decide)) fun dislot hslot =>
    ?_
  refine Symbol.ite (fun _ => ?_) fun hstart => ?_
  · exact (symbol_matchFrom (by omega) (by omega)).mono (by decide)
  · refine Symbol.ite (fun hend => ?_) fun hend => ?_
    · -- a special distance
      obtain ⟨hoff, hfit, hbms, hlim⟩ := dispec_fits (Nat.le_of_not_lt hstart) hend
      refine Symbol.mono (m := (0 : ℕ × ℕ) + (((dislot >>> 1) - 1, 0) + (0, 273))) ?_
        (by simp [Prod.le_def]; omega)
      refine Symbol.after (keeps_rangeCheck hoff) ?_
      rintro _ rfl
      refine Symbol.after (keeps_decRtree ⟨one_pos, hfit⟩ hbms (by omega)) fun tree _ => ?_
      exact symbol_matchFrom (by omega) (by omega)
    · -- a long one: direct bits, and the low four by a tree
      have hlim : (dislot >>> 1) - 1 ≤ 30 := by
        rw [Nat.shiftRight_eq_div_pow]
        omega
      have hend' : 14 ≤ dislot := Nat.le_of_not_lt hend
      have hlim' : 4 ≤ (dislot >>> 1) - 1 := by
        rw [Nat.shiftRight_eq_div_pow]
        omega
      refine Symbol.mono (m := ((dislot >>> 1) - 1 - ALIGN_BITS, 0) + ((4, 0) + (0, 273))) ?_ ?_
      · refine Symbol.after (keeps_decDirectLoop _ _) fun dbits _ => ?_
        refine Symbol.after (keeps_decRtree ⟨one_pos, le_refl 16⟩ (le_refl 16) (by decide))
          fun rtree _ => ?_
        refine Symbol.ite (fun _ => Symbol.ite (fun _ => ?_) fun _ => ?_) fun _ => ?_
        · exact (symbol_stateError (by decide)).mono (by decide)
        · exact (symbol_stateError (by decide)).mono (by decide)
        · exact symbol_matchFrom (by omega) (by omega)
      · change ((dislot >>> 1) - 1 - 4, 0) + ((4, 0) + (0, 273)) ≤ (30, 273)
        simp [Prod.le_def]
        omega

lemma symbol_inflateShortrep (state : ℕ) : Symbol cap (0, 273) (inflateShortrep state) := by
  refine Symbol.mono (m := 0 + (0, 273)) ?_ (by decide)
  refine Symbol.after (V := fun _ => True)
    (keeps_fetch (fun _ _ _ h => by rw [h.rep]) fun _ _ => trivial) fun rep _ => ?_
  refine symbol_repeatFromDict ?_ rep (by decide) (by decide)
  split_ifs
  · decide
  · decide

lemma symbol_inflateLongrep (state : ℕ) (hp : pstate < 4) (n : ℕ) :
    Symbol cap (10, 273) (inflateLongrep state pstate n) := by
  refine Symbol.mono (m := 0 + (0 + ((10, 0) + (0, 273)))) ?_ (by decide)
  refine Symbol.after (V := fun _ => True)
    (keeps_fetch (fun _ _ _ h => by rw [h.rep]) fun _ _ => trivial) fun rep _ => ?_
  refine Symbol.after (keeps_setRep _) fun _ _ => ?_
  refine Symbol.after (keeps_decLength .replen hp) fun len hlen => ?_
  refine symbol_repeatFromDict ?_ rep (by omega) (by omega)
  split_ifs
  · decide
  · decide

/-- **One symbol reads at most 48 bytes and writes at most 273.** -/
theorem symbol_decSymbol {s p : ℕ} (hs : s < 12) (hp : p < 4) :
    Symbol cap (48, 273) (decSymbol s p) := by
  have hbit : ∀ a : Arr, a.rows = 1 → a.cols = STATES → (⟨a, 0, s⟩ : Bitmodel).Inside :=
    fun a hr hc => ⟨by rw [hr]; exact one_pos, by rw [hc]; exact hs⟩
  refine Symbol.mono (m := (1, 0) + (47, 273)) ?_ (by decide)
  refine Symbol.after (keeps_decBit ⟨hs, hp⟩) fun _ _ => Symbol.ite (fun _ => ?_) fun _ => ?_
  · exact (symbol_inflateLiteral hs).mono (by decide)
  refine Symbol.mono (m := (1, 0) + (46, 273)) ?_ (by decide)
  refine Symbol.after (keeps_decBit (hbit _ rfl rfl)) fun _ _ => Symbol.ite (fun _ => ?_) fun _ =>
    ?_
  · exact symbol_inflateMatch s hp
  refine Symbol.mono (m := (1, 0) + (12, 273)) ?_ (by decide)
  refine Symbol.after (keeps_decBit (hbit _ rfl rfl)) fun _ _ => Symbol.ite (fun _ => ?_) fun _ =>
    ?_
  · refine Symbol.mono (m := (1, 0) + (10, 273)) ?_ (by decide)
    refine Symbol.after (keeps_decBit ⟨hs, hp⟩) fun _ _ => Symbol.ite (fun _ => ?_) fun _ => ?_
    · exact (symbol_inflateShortrep s).mono (by decide)
    · exact symbol_inflateLongrep s hp 0
  refine Symbol.mono (m := (1, 0) + (11, 273)) ?_ (by decide)
  refine Symbol.after (keeps_decBit (hbit _ rfl rfl)) fun _ _ => Symbol.ite (fun _ => ?_) fun _ =>
    ?_
  · exact (symbol_inflateLongrep s hp 1).mono (by decide)
  refine Symbol.after (m := (1, 0)) (n := (10, 273)) (keeps_decBit (hbit _ rfl rfl)) fun _ _ =>
    Symbol.ite (fun _ => ?_) fun _ => ?_
  · exact symbol_inflateLongrep s hp 2
  · exact symbol_inflateLongrep s hp 3

end Minibase.Lzma
