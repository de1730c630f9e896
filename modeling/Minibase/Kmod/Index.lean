import Minibase.Util.Qsort
import Minibase.Kmod.Stdin

/-!
# The index of modules

`eqstrnncmp`, `index_modules`, `find_indexed_module` and `kernel_builtin` of
`src/kmod/depmod.c`. Names are compared with `_` taken for `-`. A module is found by its name
in what was sorted by names, and whatever there is of that name is found
(`Kmod.findIndexedModule_eq_none_iff`).
-/

namespace Minibase.Kmod

open List

/-- `struct mod`. The names of its dependencies are there if it was looked into. -/
structure Mod where
  path : List UInt8
  dlen : ℕ
  slen : ℕ
  deps : Option (List UInt8)
deriving DecidableEq

/-- The name of a module: what follows the directory, up to the first dot. -/
def Mod.stem (md : Mod) : List UInt8 := (md.path.drop (md.dlen + 1)).take md.slen

/-! ### Comparing names -/

/-- `eq`, for a byte. -/
def eq (c : UInt8) : ℕ := if c = 0x5F then 0x2D else c.toNat

def eqstrnncmp : List UInt8 → List UInt8 → ℤ
  | a :: as, b :: bs => if eq a ≠ eq b then (eq a : ℤ) - eq b else eqstrnncmp as bs
  | [], _ :: _ => -1
  | _ :: _, [] => 1
  | [], [] => 0

/-- **Names are the same** if they are with `_` taken for `-`. -/
theorem eqstrnncmp_eq_zero_iff {a b : List UInt8} : eqstrnncmp a b = 0 ↔ a.map eq = b.map eq := by
  induction a generalizing b with
  | nil => cases b <;> simp [eqstrnncmp]
  | cons x a ih =>
    obtain - | ⟨y, b⟩ := b
    · simp [eqstrnncmp]
    · rw [eqstrnncmp, map_cons, map_cons, cons.injEq]
      split_ifs with h
      · exact iff_of_false (by omega) fun h' => h h'.1
      · rw [ih]
        exact (and_iff_right (not_not.mp h)).symm

lemma eqstrnncmp_neg_iff {a b : List UInt8} : eqstrnncmp a b < 0 ↔ a.map eq < b.map eq := by
  induction a generalizing b with
  | nil => cases b <;> simp [eqstrnncmp]
  | cons x a ih =>
    obtain - | ⟨y, b⟩ := b
    · simp [eqstrnncmp]
    · rw [eqstrnncmp, map_cons, map_cons, cons_lt_cons_iff]
      split_ifs with h
      · constructor
        · exact fun h' => .inl (by omega)
        · rintro (h' | h')
          · omega
          · exact absurd h'.1 h
      · rw [ih, not_not.mp h]
        simp

lemma eqstrnncmp_swap {a b : List UInt8} : 0 < eqstrnncmp a b ↔ eqstrnncmp b a < 0 := by
  have hzero := eqstrnncmp_eq_zero_iff (a := a) (b := b)
  have hneg := eqstrnncmp_neg_iff (a := a) (b := b)
  rw [eqstrnncmp_neg_iff]
  constructor
  · intro h
    refine lt_of_le_of_ne (le_of_not_gt fun h' => ?_) fun h' => ?_
    · have := hneg.mpr h'
      omega
    · have := hzero.mpr h'.symm
      omega
  · intro h
    have h0 : eqstrnncmp a b ≠ 0 := fun h' => ne_of_gt h (hzero.mp h')
    have h1 : ¬ eqstrnncmp a b < 0 := fun h' => lt_asymm h (hneg.mp h')
    omega

def byName (a b : Mod) : ℤ := eqstrnncmp a.stem b.stem

lemma nonpos_iff {a b : List UInt8} : eqstrnncmp a b ≤ 0 ↔ a.map eq ≤ b.map eq := by
  rw [← not_lt, eqstrnncmp_swap, eqstrnncmp_neg_iff, not_lt]

lemma byName_total : Util.Total byName := by
  constructor
  · exact fun a b => eqstrnncmp_swap
  · intro a b c hab hbc
    exact nonpos_iff.mpr ((nonpos_iff.mp hab).trans (nonpos_iff.mp hbc))

/-! ### Finding modules -/

/-- What `index_modules` makes of the modules. -/
def indexed (mods : List Mod) : List Mod := Util.qsortp byName mods

/-- The loop of `find_indexed_module`, in at most so many rounds. -/
def findFrom (nidx : List Mod) (name : List UInt8) : (k l r : ℕ) → Option Mod
  | 0, _, _ => none
  | k + 1, l, r =>
    if l < r then
      let m := l + (r - l) / 2
      match nidx[m]? with
      | none => none
      | some md =>
        let rel := eqstrnncmp md.stem name
        if rel = 0 then some md
        else if rel > 0 then findFrom nidx name k l m
        else if l = m then none
        else findFrom nidx name k m r
    else none

def findIndexedModule (mods : List Mod) (name : List UInt8) : Option Mod :=
  findFrom (indexed mods) name (indexed mods).length 0 (indexed mods).length

section Find

variable {nidx : List Mod} {name : List UInt8} {md : Mod} {k l r : ℕ}

lemma findFrom_some (h : findFrom nidx name k l r = some md) : md ∈ nidx ∧
    eqstrnncmp md.stem name = 0 := by
  induction k generalizing l r with
  | zero => cases h
  | succ k ih =>
    rw [findFrom] at h
    by_cases hlt : l < r
    · rw [if_pos hlt] at h
      dsimp only at h
      split at h
      · cases h
      · rename_i md' hm
        split_ifs at h with h0
        · cases h
          exact ⟨mem_of_getElem? hm, h0⟩
        · exact ih h
        · exact ih h
    · rw [if_neg hlt] at h
      cases h

/-- **Nothing is overlooked** in what is sorted. -/
theorem findFrom_none (hsort : nidx.Pairwise fun a b => byName a b ≤ 0) (hr : r ≤ nidx.length)
    (hk : r - l ≤ k)
    (h : findFrom nidx name k l r = none) {i : ℕ} (hl : l ≤ i) (hi : i < r)
    (hx : nidx[i]? = some md) : eqstrnncmp md.stem name ≠ 0 := by
  induction k generalizing l r with
  | zero => omega
  | succ k ih =>
    rw [findFrom, if_pos (lt_of_le_of_lt hl hi)] at h
    dsimp only at h
    have hm : l + (r - l) / 2 < nidx.length := by omega
    rw [getElem?_eq_getElem hm] at h
    dsimp only at h
    have hin : i < nidx.length := lt_of_lt_of_le hi hr
    obtain rfl : nidx[i] = md := Option.some.inj ((getElem?_eq_getElem hin).symm.trans hx)
    have hord : ∀ {i j : ℕ} (hi : i < nidx.length) (hj : j < nidx.length), i < j →
        (nidx[i].stem).map eq ≤ (nidx[j].stem).map eq := by
      intro i j hi hj hij
      exact nonpos_iff.mp (pairwise_iff_getElem.mp hsort i j hi hj hij)
    intro hzero
    have hsame := eqstrnncmp_eq_zero_iff.mp hzero
    split_ifs at h with h0 h1 h2
    · -- what is behind the middle is larger still
      refine absurd hzero (ih (by omega) (by omega) h hl ?_)
      by_contra hge
      have hlt := eqstrnncmp_neg_iff.mp (eqstrnncmp_swap.mp h1)
      rcases Nat.eq_or_lt_of_le (Nat.not_lt.mp hge) with heq | hlt'
      · simp only [heq] at hlt
        exact absurd hsame (ne_of_gt hlt)
      · exact absurd hsame (ne_of_gt (lt_of_lt_of_le hlt (hord hm hin hlt')))
    · have hi' : i = l + (r - l) / 2 := by omega
      subst hi'
      exact h0 hzero
    · -- what is before it is smaller still
      refine absurd hzero (ih (by omega) (by omega) h ?_ hi)
      by_contra hlt
      have hless := eqstrnncmp_neg_iff.mp (Int.lt_iff_le_and_ne.mpr ⟨Int.not_lt.mp h1, h0⟩)
      exact absurd hsame (ne_of_lt (lt_of_le_of_lt (hord hin hm (Nat.not_le.mp hlt)) hless))

end Find

lemma findIndexedModule_some {mods : List Mod} {name : List UInt8} {md : Mod}
    (h : findIndexedModule mods name = some md) : md ∈ mods ∧ eqstrnncmp md.stem name = 0 := by
  obtain ⟨hin, hname⟩ := findFrom_some h
  exact ⟨(Util.qsortp_perm byName_total).mem_iff.mp hin, hname⟩

/-- **A module is found** if there is one of the name. -/
theorem findIndexedModule_eq_none_iff {mods : List Mod} {name : List UInt8} :
    findIndexedModule mods name = none ↔ ∀ md ∈ mods, eqstrnncmp md.stem name ≠ 0 := by
  constructor
  · intro h md hmd
    obtain ⟨i, hi, hx⟩ := getElem_of_mem ((Util.qsortp_perm byName_total).mem_iff.mpr hmd)
    exact findFrom_none (Util.qsortp_pairwise byName_total) le_rfl (Nat.sub_le _ _) h
      (Nat.zero_le i) hi
      ((getElem?_eq_getElem hi).trans (congrArg some hx))
  · intro h
    rcases hfind : findIndexedModule mods name with - | md
    · rfl
    · obtain ⟨hin, hname⟩ := findIndexedModule_some hfind
      exact absurd hname (h md hin)

/-! ### Modules that are built in -/

/-- The loop of `kernel_builtin`, with what was gone over since the last `/`. There has to be one
before a line ends, or there is nothing to compare, and that is where it breaks. -/
def builtinFrom (name : List UInt8) : (p : List UInt8) → (q : Option (List UInt8)) → Option Bool
  | [], _ => some false
  | c :: p, q =>
    let q := if c = 0x2F then some [] else q.map (· ++ [c])
    if c ≠ newline then builtinFrom name p q
    else
      match q with
      | none => none
      | some s => if eqstrnncmp name (s.takeWhile (· ≠ 0x2E)) ≠ 0 then builtinFrom name p
        (some s) else some true

/-- `kernel_builtin`, with `modules.builtin` if there is one. -/
def kernelBuiltin (builtin : Option (List UInt8)) (name : List UInt8) : Option Bool :=
  match builtin with
  | none => some false
  | some p => builtinFrom name p none

end Minibase.Kmod
