import Minibase.Util.Qsort

/-!
# What the sort touches

`qsort.c` once more, with every access to the array checked: a read or an exchange outside of it has
no result, and neither has a loop or a recursion that does not end. A run that has one does what the
sort does without the checks (`Util.srecRun_eq`), and every run has one, also with a comparison that
is none: **the sort always ends, stays inside, and loses nothing**, and with a proper comparison it
sorts (`Util.qsortx_sorts`).
-/

namespace Minibase.Util

open List Option

variable {α : Type}

/-! ### The code, with checks -/

section Code

variable (lo hi : ℕ)

/-- `*a`, if it is in the array from `lo` to `hi`. -/
def load (A : ℕ → α) (a : ℕ) : Option α := if lo ≤ a ∧ a < hi then some (A a) else none

/-- `exch`. -/
def exchRun (A : ℕ → α) (a b : ℕ) : Option (ℕ → α) := do
  let t ← load lo hi A a
  let u ← load lo hi A b
  return fun i => if i = a then u else if i = b then t else A i

variable (cmp : α → α → ℤ)

/-- The first inner loop of `sort`. -/
def upwardRun (pv : ℕ) : ℕ → Part α → Option (Part α)
  | 0, _ => none
  | k + 1, s =>
    if s.lp < s.rp then do
      let c := cmp (← load lo hi s.A s.lp) (← load lo hi s.A pv)
      if c ≤ 0 then
        if c = 0 then
          let A ← exchRun lo hi s.A s.le s.lp
          upwardRun pv k { s with A := A, le := s.le + 1, lp := s.lp + 1 }
        else upwardRun pv k { s with lp := s.lp + 1 }
      else return s
    else return s

/-- The second inner loop of `sort`. -/
def downwardRun (pv : ℕ) : ℕ → Part α → Option (Part α)
  | 0, _ => none
  | k + 1, s =>
    if s.rp > s.lp then do
      let c := cmp (← load lo hi s.A s.rp) (← load lo hi s.A pv)
      if c ≥ 0 then
        if c = 0 then
          let A ← exchRun lo hi s.A s.re s.rp
          downwardRun pv k { s with A := A, re := s.re - 1, rp := s.rp - 1 }
        else downwardRun pv k { s with rp := s.rp - 1 }
      else return s
    else return s

/-- The loop of `sort` around these two. -/
def partitionedRun (pv : ℕ) : ℕ → Part α → Option (Part α)
  | 0, _ => none
  | k + 1, s => do
    let s ← upwardRun lo hi cmp pv (hi - lo) s
    let s ← downwardRun lo hi cmp pv (hi - lo) s
    if s.lp = s.rp then return s
    else
      let A ← exchRun lo hi s.A s.lp s.rp
      let lp := s.lp + 1
      partitionedRun pv k { s with A := A, lp := lp, rp := if s.rp > lp then s.rp - 1 else s.rp }

/-- The loop that puts equal elements back from below, with what it leaves in `lp`. -/
def backUpRun (le : ℕ) : ℕ → (ℕ → α) → ℕ → ℕ → Option ((ℕ → α) × ℕ)
  | 0, _, _, _ => none
  | k + 1, A, pv, lp =>
    if pv < le then do backUpRun le k (← exchRun lo hi A pv lp) (pv + 1) (lp - 1)
    else return (A, lp)

/-- The loop that puts equal elements back from above, with what it leaves in `rp`. -/
def backDownRun (re : ℕ) : ℕ → (ℕ → α) → ℕ → ℕ → Option ((ℕ → α) × ℕ)
  | 0, _, _, _ => none
  | k + 1, A, pv, rp =>
    if pv > re then do backDownRun re k (← exchRun lo hi A pv rp) (pv - 1) (rp + 1)
    else return (A, rp)

/-- `sort`, with what it calls for the two sides. -/
def sortRun (srec : (ℕ → α) → ℕ → ℕ → Option (ℕ → α)) (A : ℕ → α) (S E : ℕ) : Option (ℕ → α) := do
  let ll := S
  let rr := E - 1
  let A ← exchRun lo hi A rr (pickPivot S E)
  let pv := rr
  let s ← partitionedRun lo hi cmp pv (hi - lo)
    { A := A, le := ll, lp := ll, rp := rr - 1, re := rr - 1 }
  let lp := if cmp (← load lo hi s.A s.lp) (← load lo hi s.A pv) > 0 then s.lp - 1 else s.lp
  let rp := if cmp (← load lo hi s.A s.rp) (← load lo hi s.A pv) < 0 then s.rp + 1 else s.rp
  let (A, lp) ← backUpRun lo hi s.le (hi - lo) s.A ll lp
  let (A, rp) ← backDownRun lo hi s.re (hi - lo) A rr rp
  let A ← if lp > ll then srec A ll (lp + 1) else pure A
  if rp < rr then srec A rp (rr + 1) else return A

/-- `sort2`. -/
def sort2Run (A : ℕ → α) (S : ℕ) : Option (ℕ → α) := do
  if cmp (← load lo hi A S) (← load lo hi A (S + 1)) > 0 then exchRun lo hi A S (S + 1) else
    return A

/-- `sort3`. -/
def sort3Run (A : ℕ → α) (S : ℕ) : Option (ℕ → α) := do
  let A ← sort2Run lo hi cmp A S
  let A ← sort2Run lo hi cmp A (S + 1)
  sort2Run lo hi cmp A S

/-- `srec`. -/
def srecRun : ℕ → (ℕ → α) → ℕ → ℕ → Option (ℕ → α)
  | 0, _, _, _ => none
  | k + 1, A, S, E =>
    if E - S ≤ 1 then return A
    else if E - S = 2 then sort2Run lo hi cmp A S
    else if E - S = 3 then sort3Run lo hi cmp A S
    else sortRun lo hi cmp (srecRun k) A S E

end Code

/-- An array of pointers in memory, not at the address zero. -/
structure Ptrs (α : Type) where
  mem : ℕ → α
  base : ℕ
  n : ℕ
  base_pos : 0 < base

/-- What is in an array. -/
def contents (mem : ℕ → α) (base n : ℕ) : List α := (range' base n).map mem

/-- `qsortx`. The recursion is as deep as there are elements, at most. -/
def qsortx (ptrs : Ptrs α) (cmp : α → α → ℤ → ℤ) (opts : ℤ) : Option (ℕ → α) :=
  srecRun ptrs.base (ptrs.base + ptrs.n) (fun a b => cmp a b opts) (ptrs.n + 1) ptrs.mem ptrs.base
    (ptrs.base + ptrs.n)

/-! ### Runs -/

section Runs

variable {lo hi : ℕ} {cmp : α → α → ℤ} {x : α} {A : ℕ → α} {S pv le lp rp re k n a b : ℕ}

lemma load_eq (h : lo ≤ a ∧ a < hi) : load lo hi A a = some (A a) := if_pos h

lemma exchRun_eq (ha : lo ≤ a ∧ a < hi) (hb : lo ≤ b ∧ b < hi) :
    exchRun lo hi A a b = some (exch A a b) := by
  rw [exchRun, load_eq ha, load_eq hb]
  rfl

lemma upwardRun_eq (h : Parted cmp x S pv A le lp rp re) (hlo : lo ≤ S) (hhi : pv < hi)
    (hk : rp - lp ≤ k)
    (hn : rp - lp < n) :
    upwardRun lo hi cmp pv n ⟨A, le, lp, rp, re⟩ = some (upward cmp pv k ⟨A, le, lp, rp, re⟩) := by
  induction n generalizing A le lp k with
  | zero => omega
  | succ n ih =>
    have hb := h.bounds
    rw [upwardRun]
    by_cases hlt : lp < rp
    · obtain ⟨k, rfl⟩ : ∃ k', k = k' + 1 := ⟨k - 1, by omega⟩
      rw [if_pos hlt, upward]
      have hlp : load lo hi A lp = some (A lp) := load_eq (by omega)
      have hpv : load lo hi A pv = some (A pv) := load_eq (by omega)
      simp only [hlp, hpv, bind_eq_bind, bind_some, hlt, true_and, h.pivot]
      split_ifs with hle hc
      · rw [exchRun_eq (by omega) (by omega), bind_some]
        exact ih (h.putLow hlt hc) (by omega) (by omega)
      · exact ih (h.putLess hlt (lt_of_le_of_ne hle hc)) (by omega) (by omega)
      · rfl
    · have hstop : upward cmp pv k ⟨A, le, lp, rp, re⟩ = ⟨A, le, lp, rp, re⟩ := by
        cases k with
        | zero => rfl
        | succ k => exact if_neg fun h' => hlt h'.1
      rw [if_neg hlt, hstop]
      rfl

lemma downwardRun_eq (h : Parted cmp x S pv A le lp rp re) (hlo : lo ≤ S) (hhi : pv < hi)
    (hk : rp - lp ≤ k) (hn : rp - lp < n) :
    downwardRun lo hi cmp pv n ⟨A, le, lp, rp, re⟩ = some
    (downward cmp pv k ⟨A, le, lp, rp, re⟩) := by
  induction n generalizing A rp re k with
  | zero => omega
  | succ n ih =>
    have hb := h.bounds
    rw [downwardRun]
    by_cases hlt : lp < rp
    · obtain ⟨k, rfl⟩ : ∃ k', k = k' + 1 := ⟨k - 1, by omega⟩
      rw [if_pos hlt, downward]
      have hrp : load lo hi A rp = some (A rp) := load_eq (by omega)
      have hpv : load lo hi A pv = some (A pv) := load_eq (by omega)
      simp only [hrp, hpv, bind_eq_bind, bind_some, hlt, true_and, h.pivot, ge_iff_le]
      split_ifs with hle hc
      · rw [exchRun_eq (by omega) (by omega), bind_some]
        exact ih (h.putHigh hlt hc) (by omega) (by omega)
      · exact ih (h.putMore hlt (lt_of_le_of_ne hle (Ne.symm hc))) (by omega) (by omega)
      · rfl
    · have hstop : downward cmp pv k ⟨A, le, lp, rp, re⟩ = ⟨A, le, lp, rp, re⟩ := by
        cases k with
        | zero => rfl
        | succ k => exact if_neg fun h' => hlt h'.1
      rw [if_neg hlt, hstop]
      rfl

/-- **The partitioning ends**, and stays inside. -/
theorem partitionedRun_eq (h : Parted cmp x S pv A le lp rp re) (hlo : lo ≤ S) (hhi : pv < hi)
    (hk : rp - lp < k) (hn : rp - lp < n) :
    partitionedRun lo hi cmp pv n ⟨A, le, lp, rp, re⟩ = some
    (partitioned cmp pv k ⟨A, le, lp, rp, re⟩) := by
  induction n generalizing A le lp rp re k with
  | zero => omega
  | succ n ih =>
    obtain ⟨k, rfl⟩ : ∃ k', k = k' + 1 := ⟨k - 1, by omega⟩
    have hb := h.bounds
    obtain ⟨A₁, le₁, lp₁, heq₁, hp₁, hr₁, hlp₁, hend₁⟩ := upward_spec h le_rfl
    obtain ⟨A₂, rp₂, re₂, heq₂, hp₂, hr₂, hrp₂, hsame, hend₂⟩ := downward_spec hp₁ le_rfl
    have hb₂ := hp₂.bounds
    have hup := upwardRun_eq (n := hi - lo) h hlo hhi le_rfl (by omega)
    have hdown := downwardRun_eq (n := hi - lo) hp₁ hlo hhi le_rfl (by omega)
    rw [heq₁] at hup
    rw [heq₂] at hdown
    rw [partitionedRun, hup]
    simp only [partitioned, heq₁, heq₂, bind_eq_bind, bind_some, hdown, gt_iff_lt]
    split_ifs with hstop hlt
    · rfl
    all_goals
      have hcross := hp₂.cross (by omega) (hsame ▸ hend₁.resolve_left (by omega))
        (hend₂.resolve_left hstop)
      simp only [hlt, if_true, if_false] at hcross
      rw [exchRun_eq (by omega) (by omega), bind_some]
      exact ih hcross (by omega) (by omega)

lemma backUpRun_eq (h1 : 1 ≤ lo) (ha : lo ≤ a) (hb : b < hi) (hle : le ≤ hi)
    (hab : lo + le ≤ a + b + 1)
    (hn : le - a < n) :
    backUpRun lo hi le n A a b = some (backUp (le - a) A a b, b - (le - a)) := by
  induction n generalizing A a b with
  | zero => omega
  | succ n ih =>
    rw [backUpRun]
    split
    case isTrue hlt =>
      have hk : le - a = le - (a + 1) + 1 := by omega
      rw [exchRun_eq (by omega) (by omega), hk, backUp]
      refine (ih (by omega) (by omega) (by omega) (by omega)).trans
        (congrArg some (Prod.ext rfl ?_))
      omega
    case isFalse hge =>
      rw [show le - a = 0 by omega]
      rfl

lemma backDownRun_eq (ha : lo ≤ a) (hb : b < hi) (hre : lo ≤ re + 1) (hab : a + b ≤ hi + re)
    (hn : b - re < n) :
    backDownRun lo hi re n A b a = some (backDown (b - re) A b a, a + (b - re)) := by
  induction n generalizing A a b with
  | zero => omega
  | succ n ih =>
    rw [backDownRun]
    split
    case isTrue hlt =>
      have hk : b - re = b - 1 - re + 1 := by omega
      rw [exchRun_eq (by omega) (by omega), hk, backDown]
      refine (ih (by omega) (by omega) (by omega) (by omega)).trans
        (congrArg some (Prod.ext rfl ?_))
      omega
    case isFalse hge =>
      rw [show b - re = 0 by omega]
      rfl

/-- **Sorting, but for the two sides**, whatever the comparison is: an arrangement of the elements,
and the two sides, which are smaller. -/
theorem sort_cases (cmp : α → α → ℤ) (A : ℕ → α) {S E : ℕ} (h1 : 1 ≤ lo) (hS : lo ≤ S)
    (hE : S + 2 ≤ E)
    (hhi : E ≤ hi) :
    ∃ B l r, Rearr S E A B ∧ l ≤ E ∧ l - S < E - S ∧ S ≤ r ∧ E - r < E - S ∧
      (∀ srec, sort cmp srec A S E = if r < E - 1 then srec
        (if S + 1 < l then srec B S l else B) r E
        else if S + 1 < l then srec B S l else B) ∧
      ∀ srec, sortRun lo hi cmp srec A S E =
        (if S + 1 < l then srec B S l else some B).bind fun C =>
          if r < E - 1 then srec C r E else some C := by
  have hpick : S ≤ pickPivot S E ∧ pickPivot S E < E := by
    rw [pickPivot]
    omega
  have hpart : Parted cmp (A (pickPivot S E)) S (E - 1) (exch A (E - 1) (pickPivot S E)) S S (E - 2)
    (E - 2) := by
    refine ⟨by rw [exch_apply, if_pos rfl], by omega, ?_, ?_, ?_, ?_⟩
    all_goals
      intro i hi hi'
      omega
  obtain ⟨A₁, le, m, re, hA₁, hparted, hr₁⟩ := partitioned_spec (k := E - S) hpart (by omega)
  have hrun := @partitionedRun_eq _ lo hi cmp _ _ _ _ _ _ _ _ (E - S) (hi - lo) hpart hS (by omega)
    (by omega) (by omega)
  have hb := hparted.bounds
  have hr₀ : Rearr S E A (exch A (E - 1) (pickPivot S E)) := .exch (by omega) hpick
  obtain ⟨lp, hlp⟩ : ∃ lp, (if 0 < cmp (A₁ m) (A (pickPivot S E)) then m - 1 else m) = lp :=
    ⟨_, rfl⟩
  obtain ⟨rp, hrp⟩ : ∃ rp, (if cmp (A₁ m) (A (pickPivot S E)) < 0 then m + 1 else m) = rp :=
    ⟨_, rfl⟩
  have hlp' : m ≤ lp + 1 ∧ lp ≤ m := by
    rw [← hlp]
    split_ifs <;> omega
  have hrp' : m ≤ rp ∧ rp ≤ m + 1 := by
    rw [← hrp]
    split_ifs <;> omega
  have hr₂ : Rearr S E A₁ (backDown (E - 1 - re) (backUp (le - S) A₁ S lp) (E - 1) rp) := by
    have hup := backUp_rearr (A := A₁) (a := S) (n := le - S) (b := lp) (by omega)
    have hdown := backUp_rearr (A := backUp (le - S) A₁ S lp) (a := rp) (n := E - 1 - re)
      (b := E - 1) (by omega)
    rw [backDown_eq]
    exact (hup.mono le_rfl (by omega)).trans (hdown.mono (by omega) (by omega))
  refine ⟨backDown (E - 1 - re) (backUp (le - S) A₁ S lp) (E - 1) rp, lp - (le - S) + 1,
    rp + (E - 1 - re),
    hr₀.trans ((hr₁.mono le_rfl (by omega)).trans hr₂), by omega, by omega, by omega, by omega,
    fun srec => ?_, fun srec => ?_⟩
  · have hlast : E - 1 + 1 = E := by omega
    rw [sort]
    simp only [hA₁, hparted.pivot, hlp, hrp, hlast, Nat.add_lt_add_iff_right]
  · have hlast : E - 1 + 1 = E := by omega
    have hm : load lo hi A₁ m = some (A₁ m) := load_eq (by omega)
    have hpv : load lo hi A₁ (E - 1) = some (A (pickPivot S E)) := by
      rw [load_eq (by omega), hparted.pivot]
    have hup : backUpRun lo hi le (hi - lo) A₁ S lp =
        some (backUp (le - S) A₁ S lp, lp - (le - S)) :=
      backUpRun_eq h1 hS (by omega) (by omega) (by omega) (by omega)
    have hdown : backDownRun lo hi re (hi - lo) (backUp (le - S) A₁ S lp) (E - 1) rp =
        some (backDown (E - 1 - re) (backUp (le - S) A₁ S lp) (E - 1) rp, rp + (E - 1 - re)) :=
      backDownRun_eq (by omega) (by omega) (by omega) (by omega) (by omega)
    rw [hA₁] at hrun
    rw [sortRun, exchRun_eq (by omega) (by omega)]
    simp only [bind_eq_bind, bind_some, Nat.sub_sub, Nat.reduceAdd, hrun, hm, hpv, gt_iff_lt, hlp,
      hrp, hup]
    simp only [Nat.sub_sub] at hdown
    simp only [hdown, bind_some, hlast, Nat.add_lt_add_iff_right]
    split_ifs <;> rfl

lemma sort2Run_eq (hS : lo ≤ S) (hhi : S + 2 ≤ hi) :
    sort2Run lo hi cmp A S = some (sort2 cmp A S) ∧ Rearr S (S + 2) A (sort2 cmp A S) := by
  rw [sort2Run, load_eq (by omega), load_eq (by omega), sort2]
  simp only [bind_eq_bind, bind_some, gt_iff_lt]
  split_ifs
  · exact ⟨exchRun_eq (by omega) (by omega), .exch (by omega) (by omega)⟩
  · exact ⟨rfl, .refl _ _ _⟩

lemma sort3Run_eq (hS : lo ≤ S) (hhi : S + 3 ≤ hi) :
    sort3Run lo hi cmp A S = some (sort3 cmp A S) ∧ Rearr S (S + 3) A (sort3 cmp A S) := by
  have hsort2 (B : ℕ → α) {T : ℕ} (hT : lo ≤ T) (hThi : T + 2 ≤ hi) :
      sort2Run lo hi cmp B T = some (sort2 cmp B T) ∧ Rearr T (T + 2) B (sort2 cmp B T) :=
    sort2Run_eq hT hThi
  obtain ⟨h1, hr1⟩ := hsort2 A hS (by omega)
  obtain ⟨h2, hr2⟩ := hsort2 (sort2 cmp A S) (show lo ≤ S + 1 by omega) (by omega)
  obtain ⟨h3, hr3⟩ := hsort2 (sort2 cmp (sort2 cmp A S) (S + 1)) hS (by omega)
  rw [sort3Run, h1]
  simp only [bind_eq_bind, bind_some, h2]
  exact ⟨h3, (hr1.mono le_rfl (by omega)).trans
    ((hr2.mono (by omega) le_rfl).trans (hr3.mono le_rfl (by omega)))⟩

/-- **A run of the sort** has a result, and it is that of the sort. -/
theorem srecRun_eq (cmp : α → α → ℤ) (A : ℕ → α) {S E : ℕ} (h1 : 1 ≤ lo) (hS : lo ≤ S)
    (hhi : E ≤ hi)
    (hk : E - S ≤ k) :
    srecRun lo hi cmp (k + 1) A S E = some (srec cmp k A S E) ∧ Rearr S E A (srec cmp k A S E) := by
  induction k generalizing A S E with
  | zero =>
    rw [srecRun, if_pos (by omega)]
    exact ⟨rfl, .refl _ _ _⟩
  | succ k ih =>
    rw [srecRun, srec]
    split_ifs with h1' h2 h3
    · exact ⟨rfl, .refl _ _ _⟩
    · obtain rfl : E = S + 2 := by omega
      exact sort2Run_eq hS hhi
    · obtain rfl : E = S + 3 := by omega
      exact sort3Run_eq hS hhi
    · obtain ⟨B, l, r, hr, hl, hlS, hSr, hrE, hsort, hrun⟩ :=
        sort_cases cmp A h1 hS (show S + 2 ≤ E by omega) hhi
      obtain ⟨C, hC, hCrun, hrC⟩ : ∃ C, (if S + 1 < l then srec cmp k B S l else B) = C ∧
          (if S + 1 < l then srecRun lo hi cmp (k + 1) B S l else some B) = some C ∧
            Rearr S E B C := by
        refine ⟨_, rfl, ?_⟩
        split_ifs
        · obtain ⟨heq, hrl⟩ := ih B hS (show l ≤ hi by omega) (by omega)
          exact ⟨heq, hrl.mono le_rfl hl⟩
        · exact ⟨rfl, .refl _ _ _⟩
      rw [hsort, hrun, hCrun, hC, bind_some]
      split_ifs
      · obtain ⟨heq, hrr⟩ := ih C (show lo ≤ r by omega) hhi (by omega)
        exact ⟨heq, hr.trans (hrC.trans (hrr.mono hSr le_rfl))⟩
      · exact ⟨rfl, hr.trans hrC⟩

end Runs

/-- **`qsortx` ends, stays inside the array and leaves a permutation of it**, and it sorts if it is
given a comparison to sort with. -/
theorem qsortx_sorts (ptrs : Ptrs α) (cmp : α → α → ℤ → ℤ) (opts : ℤ) :
    ∃ mem, qsortx ptrs cmp opts = some mem ∧
      (∀ i, ¬(ptrs.base ≤ i ∧ i < ptrs.base + ptrs.n) → mem i = ptrs.mem i) ∧
      (contents mem ptrs.base ptrs.n).Perm (contents ptrs.mem ptrs.base ptrs.n) ∧
      (Total (fun a b => cmp a b opts) →
        (contents mem ptrs.base ptrs.n).Pairwise fun a b => cmp a b opts ≤ 0) := by
  have hlen : ptrs.base + ptrs.n - ptrs.base ≤ ptrs.n := by omega
  obtain ⟨hrun, hrearr⟩ := srecRun_eq (fun a b => cmp a b opts) ptrs.mem ptrs.base_pos le_rfl le_rfl
    hlen
  refine ⟨_, hrun, fun i hi => hrearr.eq_of_not hi, hrearr.perm, fun htotal => ?_⟩
  have hsorted := (srec_spec (A := ptrs.mem) htotal hlen ptrs.base_pos).2
  rw [contents, pairwise_map]
  refine List.Pairwise.imp_of_mem (fun {i j} hi hj hij => ?_) pairwise_lt_range'
  rw [mem_range'_1] at hi hj
  exact hsorted i j hi.1 hij hj.2

/-- Six numbers, two of which are the same by their tens. -/
def tens : Ptrs ℤ := ⟨fun i => [0, 71, 52, 23, 94, 57, 30].getD i 0, 1, 6, by decide⟩

/-- Numbers are compared by their tens. -/
theorem qsortx_sorts_tens :
    ∃ mem : ℕ → ℤ, qsortx tens (fun a b _ => a / 10 - b / 10) 0 = some mem ∧
      (contents mem 1 6).Perm [71, 52, 23, 94, 57, 30] ∧
      (contents mem 1 6).Pairwise fun a b => a / 10 - b / 10 ≤ 0 := by
  obtain ⟨mem, hrun, -, hperm, hsorted⟩ := qsortx_sorts tens (fun a b _ => a / 10 - b / 10) 0
  refine ⟨mem, hrun, hperm, hsorted ⟨fun a b => ?_, fun a b c hab hbc => ?_⟩⟩
  · rw [sub_pos, sub_neg]
  · omega

end Minibase.Util
