import Minibase.Lib.CInt

/-!
# Writing all of it

`lib/util/writeall.c` calls `write` until everything has been written. What it returns is what the
last of the calls has returned: an error, or how much was left for it. That is all of the bytes only
if there was a single call (`writeall_eq_length_iff`).

How much each call takes is up to the system; `Outcomes` says how much it would take of
very much.
-/

namespace Minibase

open List

/-- What the calls return, one after another: an error, or how much they would move. -/
abbrev Outcomes := ℕ → ℤ

/-- The end of a descriptor that is written to: how many calls there have been, and what has been
written. -/
structure Sink where
  clock : ℕ
  written : List UInt8

def EPIPE : ℤ := 32

/-- The most that is moved at once. -/
def MAX_RW : ℤ := 0x7FFFF000

/-- What a call returns for a buffer of this size. Errors are between -1 and -4095. -/
def Outcomes.ret (o : Outcomes) (k len : ℕ) : ℤ := max (-4095) (min (o k) (min len MAX_RW))

def sysWrite (o : Outcomes) (buf : List UInt8) (s : Sink) : ℤ × Sink :=
  let ret := o.ret s.clock buf.length
  (ret, ⟨s.clock + 1, s.written ++ buf.take ret.toNat⟩)

/-- The loop of `writeall`, in at most so many rounds. -/
def writeallFrom (o : Outcomes) : ℕ → ℤ → List UInt8 → Sink → ℤ × Sink
  | 0, wr, _, s => (wr, s)
  | k + 1, wr, buf, s =>
    if buf.length ≤ 0 then (wr, s)
    else
      let (wr, s) := sysWrite o buf s
      let wr := if wr = 0 then -EPIPE else wr
      if wr < 0 then (wr, s) else writeallFrom o k wr (buf.drop wr.toNat) s

def writeall (o : Outcomes) (buf : List UInt8) (s : Sink) : ℤ × Sink :=
  writeallFrom o buf.length 0 buf s

variable {o : Outcomes} {k len : ℕ} {wr : ℤ} {buf : List UInt8} {s : Sink}

lemma Outcomes.ret_le (o : Outcomes) (k len : ℕ) : o.ret k len ≤ len := by
  rw [ret, MAX_RW]
  omega

lemma Outcomes.ret_range (o : Outcomes) (k len : ℕ) :
    -4095 ≤ o.ret k len ∧ o.ret k len < 2147483648 := by
  rw [ret, MAX_RW]
  omega

/-! ### One call -/

lemma writeallFrom_nil : writeallFrom o k wr [] s = (wr, s) := by cases k <;> rfl

/-- The state after a call. -/
theorem sysWrite_snd : (sysWrite o buf s).2 =
    ⟨s.clock + 1, s.written ++ buf.take (o.ret s.clock buf.length).toNat⟩ := rfl

/-- A call that does not get on ends the loop. -/
theorem writeallFrom_of_nonpos (hne : buf ≠ []) (h : o.ret s.clock buf.length ≤ 0) :
    writeallFrom o (k + 1) wr buf s =
      (if o.ret s.clock buf.length = 0 then -EPIPE else o.ret s.clock buf.length,
        (sysWrite o buf s).2) := by
  have hlen : ¬buf.length ≤ 0 := fun hz => hne (length_eq_zero_iff.mp (Nat.le_zero.mp hz))
  rw [writeallFrom, if_neg hlen]
  refine if_pos ?_
  show (if o.ret s.clock buf.length = 0 then -EPIPE else o.ret s.clock buf.length) < 0
  split
  · decide
  · omega

/-- After a call that has written something the loop goes on with the rest. -/
theorem writeallFrom_of_pos (hne : buf ≠ []) (h : 0 < o.ret s.clock buf.length) :
    writeallFrom o (k + 1) wr buf s = writeallFrom o k (o.ret s.clock buf.length)
      (buf.drop (o.ret s.clock buf.length).toNat) (sysWrite o buf s).2 := by
  have hlen : ¬buf.length ≤ 0 := fun hz => hne (length_eq_zero_iff.mp (Nat.le_zero.mp hz))
  have hret : (if o.ret s.clock buf.length = 0 then -EPIPE else o.ret s.clock buf.length)
      = o.ret s.clock buf.length := if_neg (by omega)
  rw [writeallFrom, if_neg hlen]
  dsimp only [sysWrite]
  rw [hret, if_neg (by omega)]

/-! ### All calls -/

/-- What the loop returns is in the range of an `int`. -/
theorem writeallFrom_range (hwr : -4095 ≤ wr ∧ wr < 2147483648) :
    -4095 ≤ (writeallFrom o k wr buf s).1 ∧ (writeallFrom o k wr buf s).1 < 2147483648 := by
  induction k generalizing wr buf s with
  | zero => exact hwr
  | succ k ih =>
    have hret := o.ret_range s.clock buf.length
    by_cases hne : buf = []
    · rw [hne, writeallFrom_nil]
      exact hwr
    · rcases Int.lt_or_le 0 (o.ret s.clock buf.length) with hpos | hneg
      · rw [writeallFrom_of_pos hne hpos]
        exact ih hret
      · rw [writeallFrom_of_nonpos hne hneg]
        dsimp only [EPIPE]
        split <;> omega

lemma writeall_range (o : Outcomes) (buf : List UInt8) (s : Sink) :
    -4095 ≤ (writeall o buf s).1 ∧ (writeall o buf s).1 < 2147483648 :=
  writeallFrom_range (by omega)

/-- **If the loop does not fail, everything has been written**, and the last call has returned no
more than there was. -/
theorem writeallFrom_spec (hk : buf.length ≤ k) (h : 0 ≤ (writeallFrom o k wr buf s).1) :
    (writeallFrom o k wr buf s).2.written = s.written ++ buf ∧
      (buf ≠ [] → 0 < (writeallFrom o k wr buf s).1 ∧
        (writeallFrom o k wr buf s).1 ≤ buf.length) := by
  induction k generalizing wr buf s with
  | zero =>
    obtain rfl : buf = [] := length_eq_zero_iff.mp (Nat.le_zero.mp hk)
    exact ⟨(append_nil _).symm, fun hne => absurd rfl hne⟩
  | succ k ih =>
    by_cases hne : buf = []
    · rw [hne, writeallFrom_nil]
      exact ⟨(append_nil _).symm, fun hne => absurd rfl hne⟩
    · rcases Int.lt_or_le 0 (o.ret s.clock buf.length) with hpos | hneg
      · rw [writeallFrom_of_pos hne hpos] at h ⊢
        have hle := o.ret_le s.clock buf.length
        obtain ⟨hwritten, hlast⟩ := ih (by rw [length_drop]; omega) h
        refine ⟨?_, fun _ => ?_⟩
        · rw [hwritten, sysWrite_snd, append_assoc, take_append_drop]
        · by_cases hdrop : buf.drop (o.ret s.clock buf.length).toNat = []
          · -- this was the last call
            rw [hdrop, writeallFrom_nil]
            exact ⟨hpos, hle⟩
          · obtain ⟨hpos', hle'⟩ := hlast hdrop
            rw [length_drop] at hle'
            exact ⟨hpos', by omega⟩
      · rw [writeallFrom_of_nonpos hne hneg] at h
        dsimp only [EPIPE] at h
        split at h <;> omega

/-- **`writeall` writes everything**, if it does not fail. -/
theorem writeall_written (h : 0 ≤ (writeall o buf s).1) :
    (writeall o buf s).2.written = s.written ++ buf := (writeallFrom_spec (le_refl _) h).1

/-- Calls that take whatever they are given. -/
theorem ret_of_works (ho : ∀ k, MAX_RW ≤ o k) (k len : ℕ) : o.ret k len = min (len : ℤ) MAX_RW := by
  have hk := ho k
  rw [MAX_RW] at hk
  rw [Outcomes.ret, MAX_RW]
  omega

/-- **`writeall` does not fail** if no call does. -/
theorem writeallFrom_nonneg (ho : ∀ k, 0 < o k) (hwr : 0 ≤ wr) :
    0 ≤ (writeallFrom o k wr buf s).1 := by
  induction k generalizing wr buf s with
  | zero => exact hwr
  | succ k ih =>
    by_cases hne : buf = []
    · rw [hne, writeallFrom_nil]
      exact hwr
    · have hlen : 0 < buf.length := length_pos_iff.mpr hne
      have hpos : 0 < o.ret s.clock buf.length := by
        have hk := ho s.clock
        rw [Outcomes.ret, MAX_RW]
        omega
      rw [writeallFrom_of_pos hne hpos]
      exact ih (Int.le_of_lt hpos)

/-- What is returned is positive and not more than there was. -/
theorem writeall_bounds (hne : buf ≠ []) (h : 0 ≤ (writeall o buf s).1) :
    0 < (writeall o buf s).1 ∧ (writeall o buf s).1 ≤ buf.length :=
  (writeallFrom_spec (le_refl _) h).2 hne

/-- **Everything is returned by a single call only.** -/
theorem writeall_eq_length_iff (hne : buf ≠ []) :
    (writeall o buf s).1 = buf.length ↔ o.ret s.clock buf.length = buf.length := by
  obtain ⟨n, hn⟩ : ∃ n, buf.length = n + 1 :=
    Nat.exists_eq_succ_of_ne_zero fun hz => hne (length_eq_zero_iff.mp hz)
  have hle := o.ret_le s.clock buf.length
  rcases Int.lt_or_le 0 (o.ret s.clock buf.length) with hpos | hneg
  · rw [writeall, hn, writeallFrom_of_pos hne hpos, ← hn]
    by_cases hdrop : buf.drop (o.ret s.clock buf.length).toNat = []
    · rw [hdrop, writeallFrom_nil]
    · -- the calls that follow have less to write
      have hlen := drop_eq_nil_iff.not.mp hdrop
      refine iff_of_false (fun h => ?_) (by omega)
      have hk : (buf.drop (o.ret s.clock buf.length).toNat).length ≤ n := by
        rw [length_drop]
        omega
      have hlast := ((writeallFrom_spec hk (by rw [h]; omega)).2 hdrop).2
      rw [h, length_drop] at hlast
      omega
  · rw [writeall, hn, writeallFrom_of_nonpos hne hneg, ← hn]
    dsimp only [EPIPE]
    split <;> omega

/-- A single call that takes all of it is the only one. -/
theorem writeall_single (hne : buf ≠ []) (h : o.ret s.clock buf.length = buf.length) :
    writeall o buf s = ((buf.length : ℤ), ⟨s.clock + 1, s.written ++ buf⟩) := by
  obtain ⟨n, hn⟩ : ∃ n, buf.length = n + 1 :=
    Nat.exists_eq_succ_of_ne_zero fun hz => hne (length_eq_zero_iff.mp hz)
  have hdrop : buf.drop (o.ret s.clock buf.length).toNat = [] := by
    rw [h, Int.toNat_natCast, drop_length]
  rw [writeall, hn, writeallFrom_of_pos hne (by omega), hdrop, writeallFrom_nil, sysWrite_snd, h,
    hn,
    Int.toNat_natCast, ← hn, take_length]

/-- Nothing is written of nothing. -/
theorem writeall_nil_eq (o : Outcomes) (s : Sink) : writeall o [] s = (0, s) := rfl

end Minibase
