import Mathlib.Data.List.Range
import Mathlib.GroupTheory.Perm.Basic
import Mathlib.Tactic.Linarith
import Mathlib.Data.UInt

/-!
# Sorting pointers

`lib/util/qsort.c`, a quicksort with three-way partitioning on an array of pointers. Memory is a
function from addresses to what the pointers stored there point to, and the sort is about the part
of it between two addresses `S` and `E`. The only change the code ever makes is `exch`, so nothing
is lost and nothing outside is touched (`Util.Rearr`). The partitioning puts what equals the pivot
out of the way, below `le` and above `re` (`Util.Parted`), and back to the middle afterwards
(`Util.Split`): `Util.qsortp_perm` and `Util.qsortp_pairwise`.
-/

namespace Minibase.Util

open List Option

variable {α : Type}

/-! ### The code -/

def exch (A : ℕ → α) (a b : ℕ) : ℕ → α :=
  fun i => if i = a then A b else if i = b then A a else A i

def pickPivot (S E : ℕ) : ℕ := S + (E - S) / 2

/-- The variables of `sort` while it is partitioning. -/
structure Part (α : Type) where
  A : ℕ → α
  le : ℕ
  lp : ℕ
  rp : ℕ
  re : ℕ

variable (cmp : α → α → ℤ)

/-- The first inner loop of `sort`. It takes less rounds than there are addresses up to `rp`. -/
def upward (pv : ℕ) : ℕ → Part α → Part α
  | 0, s => s
  | k + 1, s =>
    let c := cmp (s.A s.lp) (s.A pv)
    if s.lp < s.rp ∧ c ≤ 0 then
      if c = 0 then upward pv k { s with A := exch s.A s.le s.lp, le := s.le + 1, lp := s.lp + 1 }
      else upward pv k { s with lp := s.lp + 1 }
    else s

/-- The second inner loop of `sort`. -/
def downward (pv : ℕ) : ℕ → Part α → Part α
  | 0, s => s
  | k + 1, s =>
    let c := cmp (s.A s.rp) (s.A pv)
    if s.lp < s.rp ∧ 0 ≤ c then
      if c = 0 then downward pv k { s with A := exch s.A s.re s.rp, re := s.re - 1, rp := s.rp - 1 }
      else downward pv k { s with rp := s.rp - 1 }
    else s

/-- The loop of `sort` around these two. -/
def partitioned (pv : ℕ) : ℕ → Part α → Part α
  | 0, s => s
  | k + 1, s =>
    let s := upward cmp pv (s.rp - s.lp) s
    let s := downward cmp pv (s.rp - s.lp) s
    if s.lp = s.rp then s
    else
      let lp := s.lp + 1
      partitioned pv k
        { s with A := exch s.A s.lp s.rp, lp := lp, rp := if lp < s.rp then s.rp - 1 else s.rp }

/-- The loop that puts equal elements back from below: how often, and from where. -/
def backUp : ℕ → (ℕ → α) → ℕ → ℕ → ℕ → α
  | 0, A, _, _ => A
  | k + 1, A, pv, lp => backUp k (exch A pv lp) (pv + 1) (lp - 1)

/-- The loop that puts equal elements back from above. -/
def backDown : ℕ → (ℕ → α) → ℕ → ℕ → ℕ → α
  | 0, A, _, _ => A
  | k + 1, A, pv, rp => backDown k (exch A pv rp) (pv - 1) (rp + 1)

/-- `sort`, with what it calls for the two sides. -/
def sort (srec : (ℕ → α) → ℕ → ℕ → ℕ → α) (A : ℕ → α) (S E : ℕ) : ℕ → α :=
  let ll := S
  let rr := E - 1
  let pv := rr
  let s := partitioned cmp pv (E - S)
    { A := exch A rr (pickPivot S E), le := S, lp := S, rp := E - 2, re := E - 2 }
  let lp := if 0 < cmp (s.A s.lp) (s.A pv) then s.lp - 1 else s.lp
  let rp := if cmp (s.A s.rp) (s.A pv) < 0 then s.rp + 1 else s.rp
  let A := backUp (s.le - ll) s.A ll lp
  let lp := lp - (s.le - ll)
  let A := backDown (rr - s.re) A rr rp
  let rp := rp + (rr - s.re)
  let A := if ll < lp then srec A ll (lp + 1) else A
  if rp < rr then srec A rp (rr + 1) else A

def sort2 (A : ℕ → α) (S : ℕ) : ℕ → α :=
  if 0 < cmp (A S) (A (S + 1)) then exch A S (S + 1) else A

def sort3 (A : ℕ → α) (S : ℕ) : ℕ → α :=
  sort2 cmp (sort2 cmp (sort2 cmp A S) (S + 1)) S

/-- `srec`. The recursion is never deeper than there are elements. -/
def srec : ℕ → (ℕ → α) → ℕ → ℕ → ℕ → α
  | 0, A, _, _ => A
  | k + 1, A, S, E =>
    if E - S ≤ 1 then A
    else if E - S = 2 then sort2 cmp A S
    else if E - S = 3 then sort3 cmp A S
    else sort cmp (srec k) A S E

/-- `qsortp`, on an array that is at some address. -/
def qsortp : List α → List α
  | [] => []
  | x :: l => (range' 1 (l.length + 1)).map
      (srec cmp (l.length + 1) (fun i => (x :: l).getD (i - 1) x) 1 (l.length + 2))

/-! ### Rearrangements -/

/-- The same elements between two addresses, and the same everywhere else. -/
def Rearr (S E : ℕ) (A B : ℕ → α) : Prop :=
  ∃ σ : Equiv.Perm ℕ, (∀ i, ¬(S ≤ i ∧ i < E) → σ i = i) ∧ B = A ∘ σ

namespace Rearr

variable {S E S' E' : ℕ} {A B C : ℕ → α}

lemma refl (S E : ℕ) (A : ℕ → α) : Rearr S E A A := ⟨1, fun _ _ => rfl, rfl⟩

lemma trans (h : Rearr S E A B) (h' : Rearr S E B C) : Rearr S E A C := by
  obtain ⟨σ, hσ, rfl⟩ := h
  obtain ⟨τ, hτ, rfl⟩ := h'
  refine ⟨σ * τ, fun i hi => ?_, rfl⟩
  rw [Equiv.Perm.mul_apply, hτ i hi, hσ i hi]

lemma mono (h : Rearr S E A B) (hS : S' ≤ S) (hE : E ≤ E') : Rearr S' E' A B := by
  obtain ⟨σ, hσ, rfl⟩ := h
  exact ⟨σ, fun i hi => hσ i (by omega), rfl⟩

lemma exch {a b : ℕ} (ha : S ≤ a ∧ a < E) (hb : S ≤ b ∧ b < E) : Rearr S E A (exch A a b) := by
  refine ⟨Equiv.swap a b, fun i hi => Equiv.swap_apply_of_ne_of_ne ?_ ?_, ?_⟩
  · rintro rfl
    exact hi ha
  · rintro rfl
    exact hi hb
  · funext i
    rw [Function.comp, Equiv.swap_apply_def, Util.exch]
    split_ifs <;> rfl

/-- Nothing changes outside. -/
theorem eq_of_not (h : Rearr S E A B) {i : ℕ} (hi : ¬(S ≤ i ∧ i < E)) : B i = A i := by
  obtain ⟨σ, hσ, rfl⟩ := h
  rw [Function.comp, hσ i hi]

/-- What is there was there before. -/
theorem exists_eq (h : Rearr S E A B) {i : ℕ} (hi : S ≤ i ∧ i < E) :
    ∃ j, (S ≤ j ∧ j < E) ∧ B i = A j := by
  obtain ⟨σ, hσ, rfl⟩ := h
  refine ⟨σ i, ?_, rfl⟩
  by_contra hn
  have hfix := σ.injective (hσ (σ i) hn)
  rw [hfix] at hn
  exact hn hi

lemma forall_of (h : Rearr S E A B) (P : α → Prop) (hA : ∀ i, S ≤ i → i < E → P (A i)) :
    ∀ i, S ≤ i → i < E → P (B i) := by
  intro i hS hE
  obtain ⟨j, hj, heq⟩ := h.exists_eq ⟨hS, hE⟩
  rw [heq]
  exact hA j hj.1 hj.2

/-- As lists, they are permutations of each other. -/
theorem perm {n : ℕ} (h : Rearr S (S + n) A B) :
    ((List.range' S n).map B).Perm ((List.range' S n).map A) := by
  obtain ⟨σ, hσ, rfl⟩ := h
  have hmem : ∀ i, S ≤ σ i ∧ σ i < S + n ↔ S ≤ i ∧ i < S + n := by
    intro i
    by_cases hi : S ≤ i ∧ i < S + n
    · refine ⟨fun _ => hi, fun _ => by_contra fun hn => hn ?_⟩
      rwa [σ.injective (hσ (σ i) hn)]
    · rw [hσ i hi]
  have hnodup := List.nodup_range' (s := S) (n := n)
  rw [← List.map_map]
  refine List.Perm.map A ((List.perm_ext_iff_of_nodup (hnodup.map σ.injective) hnodup).mpr fun i =>
    ?_)
  rw [List.mem_map, List.mem_range'_1]
  constructor
  · rintro ⟨j, hj, rfl⟩
    exact (hmem j).mpr (List.mem_range'_1.mp hj)
  · intro hi
    refine ⟨σ.symm i, List.mem_range'_1.mpr ((hmem _).mp ?_), σ.apply_symm_apply i⟩
    rwa [σ.apply_symm_apply]

end Rearr

/-! ### Partitioning -/

/-- The comparisons to sort with. -/
structure Total (cmp : α → α → ℤ) : Prop where
  swap : ∀ a b, 0 < cmp a b ↔ cmp b a < 0
  trans : ∀ a b c, cmp a b ≤ 0 → cmp b c ≤ 0 → cmp a c ≤ 0

/-- **Partitioned so far**: what equals the pivot `x` is outside, what is less or more than it is
below `lp` or above `rp`. -/
structure Parted (x : α) (S pv : ℕ) (A : ℕ → α) (le lp rp re : ℕ) : Prop where
  pivot : A pv = x
  bounds : S ≤ le ∧ le ≤ lp ∧ lp ≤ rp ∧ rp ≤ re ∧ re < pv
  low : ∀ i, S ≤ i → i < le → cmp (A i) x = 0
  less : ∀ i, le ≤ i → i < lp → cmp (A i) x < 0
  more : ∀ i, rp < i → i ≤ re → 0 < cmp (A i) x
  high : ∀ i, re < i → i < pv → cmp (A i) x = 0

section Partitioning

variable {cmp} {x : α} {S pv k : ℕ} {A : ℕ → α} {le lp rp re : ℕ}

lemma exch_apply (A : ℕ → α) (a b i : ℕ) :
    exch A a b i = if i = a then A b else if i = b then A a else A i := rfl

section

variable (h : Parted cmp x S pv A le lp rp re)
include h

lemma Parted.putLow (hlt : lp < rp) (hc : cmp (A lp) x = 0) :
    Parted cmp x S pv (exch A le lp) (le + 1) (lp + 1) rp re := by
  obtain ⟨hpivot, hb, hlow, hless, hmore, hhigh⟩ := h
  refine ⟨?_, by omega, ?_, ?_, ?_, ?_⟩
  all_goals grind [exch_apply]

lemma Parted.putLess (hlt : lp < rp) (hc : cmp (A lp) x < 0) :
    Parted cmp x S pv A le (lp + 1) rp re := by
  obtain ⟨hpivot, hb, hlow, hless, hmore, hhigh⟩ := h
  refine ⟨hpivot, by omega, hlow, ?_, hmore, hhigh⟩
  grind

lemma Parted.putHigh (hlt : lp < rp) (hc : cmp (A rp) x = 0) :
    Parted cmp x S pv (exch A re rp) le lp (rp - 1) (re - 1) := by
  obtain ⟨hpivot, hb, hlow, hless, hmore, hhigh⟩ := h
  refine ⟨?_, by omega, ?_, ?_, ?_, ?_⟩
  all_goals grind [exch_apply]

lemma Parted.putMore (hlt : lp < rp) (hc : 0 < cmp (A rp) x) :
    Parted cmp x S pv A le lp (rp - 1) re := by
  obtain ⟨hpivot, hb, hlow, hless, hmore, hhigh⟩ := h
  refine ⟨hpivot, by omega, hlow, hless, ?_, hhigh⟩
  grind

lemma Parted.cross (hlt : lp < rp) (hl : 0 < cmp (A lp) x) (hr : cmp (A rp) x < 0) :
    Parted cmp x S pv (exch A lp rp) le (lp + 1) (if lp + 1 < rp then rp - 1 else rp) re := by
  obtain ⟨hpivot, hb, hlow, hless, hmore, hhigh⟩ := h
  refine ⟨?_, ?_, ?_, ?_, ?_, ?_⟩
  · grind [exch_apply]
  · split_ifs <;> omega
  all_goals grind [exch_apply]

/-- The first inner loop stops at what has to go to the other side. -/
theorem upward_spec (hk : rp - lp ≤ k) :
    ∃ A' le' lp', upward cmp pv k ⟨A, le, lp, rp, re⟩ = ⟨A', le', lp', rp, re⟩ ∧
      Parted cmp x S pv A' le' lp' rp re ∧ Rearr S pv A A' ∧ lp ≤ lp' ∧
      (lp' = rp ∨ 0 < cmp (A' lp') x) := by
  induction k generalizing A le lp with
  | zero =>
    have hb := h.bounds
    exact ⟨A, le, lp, rfl, h, .refl S pv A, le_rfl, .inl (by omega)⟩
  | succ k ih =>
    have hb := h.bounds
    simp only [upward, h.pivot]
    split_ifs with hgo hc
    · obtain ⟨A', le', lp', heq, hp, hr, hle, hend⟩ := ih (h.putLow hgo.1 hc) (by omega)
      exact ⟨A', le', lp', heq, hp, (Rearr.exch (by omega) (by omega)).trans hr, by omega, hend⟩
    · obtain ⟨A', le', lp', heq, hp, hr, hle, hend⟩ :=
        ih (h.putLess hgo.1 (lt_of_le_of_ne hgo.2 hc)) (by omega)
      exact ⟨A', le', lp', heq, hp, hr, by omega, hend⟩
    · refine ⟨A, le, lp, rfl, h, .refl S pv A, le_rfl, ?_⟩
      by_cases hlt : lp < rp
      · exact .inr (not_le.mp fun hle => hgo ⟨hlt, hle⟩)
      · exact .inl (by omega)

/-- So does the second. -/
theorem downward_spec (hk : rp - lp ≤ k) :
    ∃ A' rp' re', downward cmp pv k ⟨A, le, lp, rp, re⟩ = ⟨A', le, lp, rp', re'⟩ ∧
      Parted cmp x S pv A' le lp rp' re' ∧ Rearr S pv A A' ∧ rp' ≤ rp ∧ A' lp = A lp ∧
      (lp = rp' ∨ cmp (A' rp') x < 0) := by
  induction k generalizing A rp re with
  | zero =>
    have hb := h.bounds
    exact ⟨A, rp, re, rfl, h, .refl S pv A, le_rfl, rfl, .inl (by omega)⟩
  | succ k ih =>
    have hb := h.bounds
    simp only [downward, h.pivot]
    split_ifs with hgo hc
    · obtain ⟨A', rp', re', heq, hp, hr, hle, hlp, hend⟩ := ih (h.putHigh hgo.1 hc) (by omega)
      refine ⟨A', rp', re', heq, hp, (Rearr.exch (by omega) (by omega)).trans
        hr, by omega, ?_, hend⟩
      rw [hlp, exch_apply, if_neg (by omega), if_neg (by omega)]
    · obtain ⟨A', rp', re', heq, hp, hr, hle, hlp, hend⟩ :=
        ih (h.putMore hgo.1 (lt_of_le_of_ne hgo.2 (Ne.symm hc))) (by omega)
      exact ⟨A', rp', re', heq, hp, hr, by omega, hlp, hend⟩
    · refine ⟨A, rp, re, rfl, h, .refl S pv A, le_rfl, rfl, ?_⟩
      by_cases hlt : lp < rp
      · exact .inr (not_le.mp fun hle => hgo ⟨hlt, hle⟩)
      · exact .inl (by omega)

/-- Both together, again and again, leave one element in the middle. -/
theorem partitioned_spec (hk : rp - lp < k) :
    ∃ A' le' m re', partitioned cmp pv k ⟨A, le, lp, rp, re⟩ = ⟨A', le', m, m, re'⟩ ∧
      Parted cmp x S pv A' le' m m re' ∧ Rearr S pv A A' := by
  induction k generalizing A le lp rp re with
  | zero => omega
  | succ k ih =>
    obtain ⟨A₁, le₁, lp₁, heq₁, hp₁, hr₁, hlp₁, hend₁⟩ := upward_spec h le_rfl
    obtain ⟨A₂, rp₂, re₂, heq₂, hp₂, hr₂, hrp₂, hsame, hend₂⟩ := downward_spec hp₁ le_rfl
    have hb := hp₂.bounds
    simp only [partitioned, heq₁, heq₂]
    split_ifs with hstop hlt
    · subst hstop
      exact ⟨A₂, le₁, lp₁, re₂, rfl, hp₂, hr₁.trans hr₂⟩
    all_goals
      have hcross := hp₂.cross (by omega) (hsame ▸ hend₁.resolve_left (by omega))
        (hend₂.resolve_left hstop)
      simp only [hlt, if_true, if_false] at hcross
      obtain ⟨A', le', m, re', heq, hp, hr⟩ := ih hcross (by omega)
      exact ⟨A', le', m, re', heq, hp,
        (hr₁.trans hr₂).trans ((Rearr.exch (by omega) (by omega)).trans hr)⟩

end

end Partitioning

/-! ### Back to the middle -/

section Back

variable {A : ℕ → α} {a b n : ℕ} {P Q : α → Prop}

lemma exch_comm (A : ℕ → α) (a b : ℕ) : exch A a b = exch A b a := by
  funext i
  rw [exch_apply, exch_apply]
  split_ifs with h h'
  · rw [← h, ← h']
  · rfl
  · rfl
  · rfl

lemma backDown_eq : backDown n A b a = backUp n A a b := by
  induction n generalizing A a b with
  | zero => rfl
  | succ n ih => rw [backDown, backUp, exch_comm, ih]

lemma backUp_succ : backUp (n + 1) A a b = exch (backUp n A a b) (a + n) (b - n) := by
  induction n generalizing A a b with
  | zero => rfl
  | succ n ih =>
    rw [backUp, ih, backUp]
    congr 1
    · omega
    · omega

/-- The loop turns what is between `a` and `b` around, except what is passed over twice. -/
theorem backUp_apply {i : ℕ} (hn : a + n ≤ b + 1) (ha : a ≤ i) (hb : i ≤ b) :
    backUp n A a b i = A (if i < a + n ↔ b < i + n then i else a + b - i) := by
  induction n generalizing i with
  | zero => rw [if_pos (by omega), backUp]
  | succ n ih =>
    rw [backUp_succ, exch_apply, ih (by omega) (by omega) (by omega),
      ih (by omega) (by omega) (by omega),
      ih (by omega) ha hb, ← apply_ite A, ← apply_ite A]
    congr 1
    split_ifs <;> omega

lemma backUp_rearr (hn : a + n ≤ b + 1) : Rearr a (b + 1) A (backUp n A a b) := by
  induction n with
  | zero => exact .refl a (b + 1) A
  | succ n ih =>
    rw [backUp_succ]
    exact (ih (by omega)).trans (.exch (by omega) (by omega))

/-- The elements below go to the end. -/
theorem backUp_spec (hn : a + n ≤ b + 1) (hP : ∀ i, a ≤ i → i < a + n → P (A i))
    (hQ : ∀ i, a + n ≤ i → i ≤ b → Q (A i)) :
    (∀ i, a ≤ i → i + n ≤ b → Q (backUp n A a b i)) ∧
      (∀ i, a ≤ i → b < i + n → i ≤ b → P (backUp n A a b i)) := by
  refine ⟨fun i hi hi' => ?_, fun i hi hi' hi'' => ?_⟩
  · rw [backUp_apply hn hi (by omega)]
    exact hQ _ (by split_ifs <;> omega) (by split_ifs <;> omega)
  · rw [backUp_apply hn hi hi'']
    exact hP _ (by split_ifs <;> omega) (by split_ifs <;> omega)

/-- The elements above go to the start. -/
theorem backDown_spec (hn : a + n ≤ b + 1) (hP : ∀ i, a ≤ i → b < i + n → i ≤ b → P (A i))
    (hQ : ∀ i, a ≤ i → i + n ≤ b → Q (A i)) :
    (∀ i, a ≤ i → i < a + n → P (backDown n A b a i)) ∧
      (∀ i, a + n ≤ i → i ≤ b → Q (backDown n A b a i)) := by
  rw [backDown_eq]
  refine ⟨fun i hi hi' => ?_, fun i hi hi' => ?_⟩
  · rw [backUp_apply hn hi (by omega)]
    exact hP _ (by split_ifs <;> omega) (by split_ifs <;> omega) (by split_ifs <;> omega)
  · rw [backUp_apply hn (by omega) hi']
    exact hQ _ (by split_ifs <;> omega) (by split_ifs <;> omega)

end Back

/-! ### Sorting -/

/-- Sorted between two addresses. -/
def Sorted (A : ℕ → α) (S E : ℕ) : Prop := ∀ i j, S ≤ i → i < j → j < E → cmp (A i) (A j) ≤ 0

/-- **Split at the pivot**: no more than it below `l`, equal to it up to `r`, no less from there
on. -/
structure Split (x : α) (S E : ℕ) (A : ℕ → α) (l r : ℕ) : Prop where
  bounds : S ≤ l ∧ l ≤ r ∧ r ≤ E
  below : ∀ i, S ≤ i → i < l → cmp (A i) x ≤ 0
  equal : ∀ i, l ≤ i → i < r → cmp (A i) x = 0
  above : ∀ i, r ≤ i → i < E → 0 ≤ cmp (A i) x

section Sorting

variable {cmp} {x : α} {S E : ℕ} {A : ℕ → α}

lemma Total.self (h : Total cmp) (a : α) : cmp a a = 0 := by
  have := h.swap a a
  omega

/-- Putting the equal elements back splits at the pivot. -/
theorem Parted.split {m le re lp rp : ℕ} (hcmp : Total cmp) (hS : 1 ≤ S)
    (h : Parted cmp x S (E - 1) A le m m re) (hlp : lp = if 0 < cmp (A m) x then m - 1 else m)
    (hrp : rp = if cmp (A m) x < 0 then m + 1 else m) :
    ∃ B, backDown (E - 1 - re) (backUp (le - S) A S lp) (E - 1) rp = B ∧ Rearr S E A B ∧
      Split cmp x S E B (lp - (le - S) + 1) (rp + (E - 1 - re)) := by
  obtain ⟨hpivot, hb, hlow, hless, hmore, hhigh⟩ := h
  -- the element in the middle is on one side, or on both if it equals the pivot
  have hmid : (lp + 1 = m ∧ rp = m ∧ 0 < cmp (A m) x) ∨ (lp = m ∧ rp = m + 1 ∧ cmp (A m) x < 0) ∨
      (lp = m ∧ rp = m ∧ cmp (A m) x = 0) := by
    rw [hlp, hrp]
    split_ifs <;> omega
  obtain ⟨A₁, hA₁⟩ : ∃ A₁, backUp (le - S) A S lp = A₁ := ⟨_, rfl⟩
  have hr₁ : Rearr S (lp + 1) A A₁ := hA₁ ▸ backUp_rearr (by omega)
  have hup : (∀ i, S ≤ i → i + (le - S) ≤ lp → cmp (A₁ i) x ≤ 0) ∧
      (∀ i, S ≤ i → lp < i + (le - S) → i ≤ lp → cmp (A₁ i) x = 0) := by
    subst hA₁
    refine backUp_spec (P := fun a => cmp a x = 0) (Q := fun a => cmp a x ≤ 0) (by omega)
      (fun i hi hi' => hlow i hi (by omega)) (fun i hi hi' => ?_)
    by_cases him : i = m
    · subst him
      omega
    · exact le_of_lt (hless i (by omega) (by omega))
  have hmid₁ : rp = m → 0 ≤ cmp (A₁ m) x := by
    intro hrm
    rcases hmid with ⟨hl, -, hc⟩ | ⟨-, hr, -⟩ | ⟨hl, -, hc⟩
    · rw [hr₁.eq_of_not (by omega)]
      exact le_of_lt hc
    · omega
    · by_cases hn : le - S = 0
      · rw [← hA₁, hn, backUp]
        exact le_of_eq hc.symm
      · exact le_of_eq (hup.2 m (by omega) (by omega) (by omega)).symm
  obtain ⟨B, hB⟩ : ∃ B, backDown (E - 1 - re) A₁ (E - 1) rp = B := ⟨_, rfl⟩
  have hr₂ : Rearr rp E A₁ B := by
    have hr := backUp_rearr (A := A₁) (a := rp) (n := E - 1 - re) (b := E - 1) (by omega)
    rw [backDown_eq] at hB
    rw [← hB]
    exact hr.mono le_rfl (by omega)
  have hdown : (∀ i, rp ≤ i → i < rp + (E - 1 - re) → cmp (B i) x = 0) ∧
      (∀ i, rp + (E - 1 - re) ≤ i → i ≤ E - 1 → 0 ≤ cmp (B i) x) := by
    subst hB
    refine backDown_spec (P := fun a => cmp a x = 0) (Q := fun a => 0 ≤ cmp a x) (by omega)
      (fun i hi hi' hi'' => ?_) (fun i hi hi' => ?_)
    · rw [hr₁.eq_of_not (by omega)]
      by_cases hpv : i = E - 1
      · rw [hpv, hpivot, hcmp.self]
      · exact hhigh i (by omega) (by omega)
    · by_cases him : i = m
      · subst him
        exact hmid₁ (by omega)
      · rw [hr₁.eq_of_not (by omega)]
        exact le_of_lt (hmore i (by omega) (by omega))
  refine ⟨B, by rw [hA₁, hB], (hr₁.mono le_rfl (by omega)).trans (hr₂.mono (by omega) le_rfl),
    by omega, fun i hi hi' => ?_, fun i hi hi' => ?_, fun i hi hi' => hdown.2 i hi (by omega)⟩
  · by_cases hir : i < rp
    · rw [hr₂.eq_of_not (by omega)]
      exact hup.1 i hi (by omega)
    · exact le_of_eq (hdown.1 i (by omega) (by omega))
  · by_cases hir : i < rp
    · rw [hr₂.eq_of_not (by omega)]
      exact hup.2 i (by omega) (by omega) (by omega)
    · exact hdown.1 i (by omega) hi'

/-- Sorting the two sides of the pivot sorts it all. -/
theorem Split.sorted {l r : ℕ} (hcmp : Total cmp) (h : Split cmp x S E A l r)
    (hl : Sorted cmp A S l)
    (hr : Sorted cmp A r E) : Sorted cmp A S E := by
  obtain ⟨hb, hbelow, hequal, habove⟩ := h
  have hle : ∀ i, S ≤ i → i < r → cmp (A i) x ≤ 0 := by
    intro i hi hi'
    by_cases hil : i < l
    · exact hbelow i hi hil
    · exact le_of_eq (hequal i (by omega) hi')
  have hge : ∀ i, l ≤ i → i < E → cmp x (A i) ≤ 0 := by
    intro i hi hi'
    have hswap := hcmp.swap x (A i)
    by_cases hir : i < r
    · have := hequal i hi hir
      omega
    · have := habove i (by omega) hi'
      omega
  intro i j hi hij hj
  by_cases hjl : j < l
  · exact hl i j hi hij hjl
  · by_cases hir : i < r
    · exact hcmp.trans _ _ _ (hle i hi hir) (hge j (by omega) hj)
    · exact hr i j (by omega) hij hj

/-- Moving elements on either side of the pivot keeps them there. -/
theorem Split.rearr {l r : ℕ} {B C : ℕ → α} (h : Split cmp x S E A l r) (hl : Rearr S l A B)
    (hr : Rearr r E B C) : Split cmp x S E C l r := by
  obtain ⟨hb, hbelow, hequal, habove⟩ := h
  refine ⟨hb, fun i hi hi' => ?_, fun i hi hi' => ?_,
    hr.forall_of (fun a => 0 ≤ cmp a x) fun i hi hi' => ?_⟩
  · rw [hr.eq_of_not (by omega)]
    exact hl.forall_of (fun a => cmp a x ≤ 0) hbelow i hi hi'
  · rw [hr.eq_of_not (by omega), hl.eq_of_not (by omega)]
    exact hequal i hi hi'
  · rw [hl.eq_of_not (by omega)]
    exact habove i hi hi'

lemma sort_spec {srec : (ℕ → α) → ℕ → ℕ → ℕ → α} (hcmp : Total cmp) (hS : 1 ≤ S) (hE : S + 2 ≤ E)
    (hrec : ∀ A S' E', 1 ≤ S' → E' - S' < E - S →
      Rearr S' E' A (srec A S' E') ∧ Sorted cmp (srec A S' E') S' E') :
    Rearr S E A (sort cmp srec A S E) ∧ Sorted cmp (sort cmp srec A S E) S E := by
  have hpick : S ≤ pickPivot S E ∧ pickPivot S E < E := by
    rw [pickPivot]
    omega
  have hpart : Parted cmp (A (pickPivot S E)) S (E - 1) (exch A (E - 1) (pickPivot S E)) S S (E - 2)
    (E - 2) := by
    refine ⟨by rw [exch_apply, if_pos rfl], by omega, ?_, ?_, ?_, ?_⟩
    all_goals
      intro i hi hi'
      omega
  obtain ⟨A₁, le, m, re, hA₁, hparted, hr₁⟩ := partitioned_spec (k := E - S) hpart (by omega)
  have hb := hparted.bounds
  rw [sort]
  simp only [hA₁, hparted.pivot]
  generalize hlp : (if 0 < cmp (A₁ m) (A (pickPivot S E)) then m - 1 else m) = lp
  generalize hrp : (if cmp (A₁ m) (A (pickPivot S E)) < 0 then m + 1 else m) = rp
  obtain ⟨B, hB, hr₂, hsplit⟩ := hparted.split hcmp hS hlp.symm hrp.symm
  have hlp' : lp ≤ m := by
    rw [← hlp]
    split_ifs <;> omega
  have hrp' : m ≤ rp := by
    rw [← hrp]
    split_ifs <;> omega
  rw [hB]
  obtain ⟨C, hC, hr₃, hsort₃⟩ : ∃ C, (if S < lp - (le - S) then srec B S
    (lp - (le - S) + 1) else B) = C ∧
      Rearr S (lp - (le - S) + 1) B C ∧ Sorted cmp C S (lp - (le - S) + 1) := by
    refine ⟨_, rfl, ?_⟩
    split_ifs with hgo
    · exact hrec B S _ hS (by omega)
    · exact ⟨.refl _ _ _, fun i j hi hij hj => by omega⟩
  obtain ⟨D, hD, hr₄, hsort₄⟩ : ∃ D,
      (if rp + (E - 1 - re) < E - 1 then srec C (rp + (E - 1 - re)) (E - 1 + 1) else C) = D ∧
      Rearr (rp + (E - 1 - re)) E C D ∧ Sorted cmp D (rp + (E - 1 - re)) E := by
    refine ⟨_, rfl, ?_⟩
    rw [Nat.sub_add_cancel (by omega)]
    split_ifs with hgo
    · exact hrec C _ E (by omega) (by omega)
    · exact ⟨.refl _ _ _, fun i j hi hij hj => by omega⟩
  rw [hC, hD]
  have hb' := hsplit.bounds
  have hr₀ : Rearr S E A (exch A (E - 1) (pickPivot S E)) := .exch (by omega) hpick
  refine ⟨hr₀.trans ((hr₁.mono le_rfl (by omega)).trans (hr₂.trans
    ((hr₃.mono le_rfl (by omega)).trans (hr₄.mono (by omega) le_rfl)))), ?_⟩
  refine (hsplit.rearr hr₃ hr₄).sorted hcmp (fun i j hi hij hj => ?_) hsort₄
  rw [hr₄.eq_of_not (by omega), hr₄.eq_of_not (by omega)]
  exact hsort₃ i j hi hij hj

lemma sort2_cases (hcmp : Total cmp) :
    (sort2 cmp A S = A ∧ cmp (A S) (A (S + 1)) ≤ 0) ∨
      (sort2 cmp A S = exch A S (S + 1) ∧ cmp (A (S + 1)) (A S) ≤ 0) := by
  rw [sort2]
  split_ifs with h
  · exact .inr ⟨rfl, le_of_lt ((hcmp.swap _ _).mp h)⟩
  · exact .inl ⟨rfl, not_lt.mp h⟩

/-- The larger one of two neighbours goes up. -/
theorem sort2_spec (hcmp : Total cmp) :
    ∃ B, sort2 cmp A S = B ∧ Rearr S (S + 2) A B ∧ cmp (B S) (B (S + 1)) ≤ 0 ∧
      cmp (A S) (B (S + 1)) ≤ 0 ∧ cmp (A (S + 1)) (B (S + 1)) ≤ 0 := by
  rcases sort2_cases (A := A) (S := S) hcmp with ⟨heq, hle⟩ | ⟨heq, hle⟩
  · exact ⟨A, heq, .refl _ _ _, hle, hle, le_of_eq (hcmp.self _)⟩
  · have h0 : exch A S (S + 1) S = A (S + 1) := by rw [exch_apply, if_pos rfl]
    have h1 : exch A S (S + 1) (S + 1) = A S := by rw [exch_apply, if_neg (by omega), if_pos rfl]
    refine ⟨_, heq, .exch (by omega) (by omega), ?_, ?_, ?_⟩
    · rwa [h0, h1]
    · rw [h1]
      exact le_of_eq (hcmp.self _)
    · rwa [h1]

lemma sort3_spec (hcmp : Total cmp) :
    Rearr S (S + 3) A (sort3 cmp A S) ∧ Sorted cmp (sort3 cmp A S) S (S + 3) := by
  obtain ⟨B, hB, hr₁, h₁, -, -⟩ := sort2_spec (A := A) (S := S) hcmp
  obtain ⟨C, hC, hr₂, h₂, hb, -⟩ := sort2_spec (A := B) (S := S + 1) hcmp
  obtain ⟨D, hD, hr₃, h₃, -, -⟩ := sort2_spec (A := C) (S := S) hcmp
  have hC0 : C S = B S := hr₂.eq_of_not (by omega)
  have hD2 : D (S + 2) = C (S + 2) := hr₃.eq_of_not (by omega)
  -- the second exchange puts the largest one of all to the top
  have htop : ∀ i, S ≤ i → i < S + 2 → cmp (C i) (C (S + 2)) ≤ 0 := by
    intro i hi hi'
    obtain rfl | rfl : i = S ∨ i = S + 1 := by omega
    · rw [hC0]
      exact hcmp.trans _ _ _ h₁ hb
    · exact h₂
  have htop' : ∀ i, S ≤ i → i < S + 2 → cmp (D i) (D (S + 2)) ≤ 0 := by
    rw [hD2]
    exact hr₃.forall_of (fun a => cmp a (C (S + 2)) ≤ 0) htop
  rw [sort3, hB, hC, hD]
  refine ⟨(hr₁.mono le_rfl (by omega)).trans ((hr₂.mono (by omega) (by omega)).trans
    (hr₃.mono le_rfl (by omega))), fun i j hi hij hj => ?_⟩
  by_cases hj2 : j = S + 2
  · subst hj2
    exact htop' i hi hij
  · obtain ⟨rfl, rfl⟩ : i = S ∧ j = i + 1 := by omega
    exact h₃

/-- **The recursion** sorts. -/
theorem srec_spec (hcmp : Total cmp) {k : ℕ} (hk : E - S ≤ k) (hS : 1 ≤ S) :
    Rearr S E A (srec cmp k A S E) ∧ Sorted cmp (srec cmp k A S E) S E := by
  induction k generalizing A S E with
  | zero => exact ⟨.refl S E A, fun i j hi hij hj => by omega⟩
  | succ k ih =>
    rw [srec]
    split_ifs with h1 h2 h3
    · exact ⟨.refl S E A, fun i j hi hij hj => by omega⟩
    · obtain rfl : E = S + 2 := by omega
      obtain ⟨B, hB, hr, hle, -, -⟩ := sort2_spec (A := A) (S := S) hcmp
      rw [hB]
      refine ⟨hr, fun i j hi hij hj => ?_⟩
      obtain ⟨rfl, rfl⟩ : i = S ∧ j = i + 1 := by omega
      exact hle
    · obtain rfl : E = S + 3 := by omega
      exact sort3_spec hcmp
    · exact sort_spec hcmp hS (by omega) fun A S' E' hS' hlt => ih (by omega) hS'

variable {l : List α}

lemma map_getD (x : α) (l : List α) :
    (List.range' 1 (l.length + 1)).map (fun i => (x :: l).getD (i - 1) x) = x :: l := by
  refine ext_getElem (by simp) fun i hi hi' => ?_
  rw [getElem_map, getElem_range', Nat.one_mul, Nat.add_sub_cancel_left, getD_eq_getElem?_getD,
    getElem?_eq_getElem hi', getD_some]

/-- **Nothing is lost.** -/
theorem qsortp_perm (hcmp : Total cmp) : (qsortp cmp l).Perm l := by
  rcases l with - | ⟨x, l⟩
  · exact .refl _
  · have hr : Rearr 1 (1 + (l.length + 1)) _ _ := (srec_spec (A := fun i => (x :: l).getD (i - 1) x)
      (k := l.length + 1) (E := 1 + (l.length + 1)) hcmp (by omega) le_rfl).1
    have hperm := hr.perm
    rw [map_getD, add_comm 1] at hperm
    exact hperm

/-- **The result is sorted.** -/
theorem qsortp_pairwise (hcmp : Total cmp) : (qsortp cmp l).Pairwise fun a b => cmp a b ≤ 0 := by
  rcases l with - | ⟨x, l⟩
  · exact .nil
  · rw [qsortp, pairwise_map]
    have hs := (srec_spec (A := fun i => (x :: l).getD (i - 1) x) (k := l.length + 1) (S := 1)
      (E := l.length + 2) hcmp (by omega) le_rfl).2
    refine List.Pairwise.imp_of_mem (fun {i j} hi hj hij => ?_) pairwise_lt_range'
    rw [mem_range'_1] at hi hj
    exact hs i j hi.1 hij (by omega)

end Sorting

end Minibase.Util
