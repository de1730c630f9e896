import Mathlib.Data.List.DropRight
import Mathlib.Data.UInt

/-!
# Tables with free entries

A **table of descriptors** gives out the lowest number that is free (`Table.lowest`). A **table of
slots** is an array with a count of the slots up to the last one in use: here it is the list of
the slots that are counted. A slot is taken from among these if one is free, or the count goes up
(`grabSlot`), and when a slot is freed, the count goes down past the free slots at the end
(`freeSlot`).
-/

namespace Minibase

open List Option

/-! ### Descriptors -/

/-- A table of descriptors, which says of each what it is for. -/
abbrev Table (α : Type) := List (Option α)

namespace Table

variable {α : Type} (t : Table α)

/-- What a descriptor is for. -/
def get (n : ℕ) : Option α := t.getD n none

/-- The lowest number that is free. -/
def lowest : Table α → ℕ
  | [] => 0
  | none :: _ => 0
  | some _ :: t => lowest t + 1

/-- A descriptor is given out. -/
def alloc (a : α) : Table α → Table α
  | [] => [some a]
  | none :: t => some a :: t
  | some b :: t => some b :: alloc a t

/-- A descriptor is given back. -/
def close (n : ℕ) : Table α := t.set n none

lemma get_lowest : t.get (lowest t) = none := by
  induction t with
  | nil => rfl
  | cons x t ih =>
    rcases x with _ | b
    · rfl
    · exact ih

lemma get_alloc (a : α) (t : Table α) (n : ℕ) :
    (alloc a t).get n = if n = lowest t then some a else t.get n := by
  induction t generalizing n with
  | nil =>
    cases n with
    | zero => rfl
    | succ n => rfl
  | cons x t ih =>
    rcases x with _ | b
    · cases n with
      | zero => rfl
      | succ n => rfl
    · cases n with
      | zero => rfl
      | succ n =>
        have hsucc := ih n
        simp only [get, alloc, lowest, getD_cons_succ, Nat.add_right_cancel_iff] at hsucc ⊢
        exact hsucc

lemma get_close (m n : ℕ) : (t.close m).get n = if n = m then none else t.get n := by
  unfold get close
  rw [getD_eq_getElem?_getD, getD_eq_getElem?_getD, getElem?_set]
  by_cases hmn : m = n
  · subst hmn
    simp only [if_true]
    split_ifs <;> rfl
  · rw [if_neg hmn, if_neg (Ne.symm hmn)]

end Table

/-! ### Slots -/

section Slots

variable {α : Type} (used : α → Bool) (total : ℕ) (zero : α)

/-- A slot is taken. -/
def grabSlot (l : List α) : Option (ℕ × List α) :=
  match l.findIdx? fun x => !used x with
  | some i => some (i, l)
  | none => if l.length < total then some (l.length, l ++ [zero]) else none

/-- A slot is freed. -/
def freeSlot (l : List α) (i : ℕ) : List α := (l.set i zero).rdropWhile fun x => !used x

variable {used total zero} {l l' : List α} {i j : ℕ} {x : α}

/-- **The slot that is taken** is free, and all that is in use stays where it is. -/
theorem grabSlot_spec (h : grabSlot used total zero l = some (i, l')) (hzero : used zero = false) :
    (∃ y, l'[i]? = some y ∧ used y = false) ∧
      (∀ (j : ℕ) (x : α), l[j]? = some x → l'[j]? = some x) ∧
      ∀ (j : ℕ) (x : α), l'[j]? = some x → used x = true → l[j]? = some x := by
  unfold grabSlot at h
  split at h
  · rename_i k hk
    obtain ⟨rfl, rfl⟩ := Prod.mk.inj (Option.some.inj h)
    obtain ⟨hlt, hfree, -⟩ := findIdx?_eq_some_iff_getElem.mp hk
    exact ⟨⟨l[k], getElem?_eq_getElem hlt, by simpa using hfree⟩, fun j x (hj : l[j]? = some x) =>
      hj,
      fun j x (hj : l[j]? = some x) _ => hj⟩
  · obtain ⟨-, h⟩ := ite_none_right_eq_some.mp h
    obtain ⟨rfl, rfl⟩ := Prod.mk.inj (Option.some.inj h)
    refine ⟨⟨zero, by simp, hzero⟩, fun j x hj => ?_, fun j x hj hused => ?_⟩
    · rw [List.getElem?_append_left (List.getElem?_eq_some_iff.mp hj).1, hj]
    · rcases Nat.lt_or_ge j l.length with hlt | hge
      · rwa [getElem?_append_left hlt] at hj
      · rw [getElem?_append_right hge] at hj
        rw [mem_singleton.mp (mem_of_getElem? hj)] at hused
        exact nomatch hzero.symm.trans hused

/-- **When a slot is freed**, the others in use stay, and nothing else is there. -/
theorem freeSlot_spec (used : α → Bool) (zero : α) (l : List α) (i : ℕ) :
    (∀ (j : ℕ) (x : α), (freeSlot used zero l i)[j]? = some x → x = zero ∨ j ≠ i ∧ l[j]? = some x) ∧
      ∀ (j : ℕ) (x : α), l[j]? = some x → used x = true → j ≠ i →
        (freeSlot used zero l i)[j]? = some x := by
  unfold freeSlot
  obtain ⟨tail, htail⟩ := rdropWhile_prefix (fun x => !used x) (l := l.set i zero)
  constructor
  · intro j x hj
    have hset : (l.set i zero)[j]? = some x := by
      rw [← htail, List.getElem?_append_left (List.getElem?_eq_some_iff.mp hj).1, hj]
    rw [getElem?_set] at hset
    split_ifs at hset with hij hlt
    · exact .inl (Option.some.inj hset).symm
    · exact .inr ⟨Ne.symm hij, hset⟩
  · intro j x hj hused hne
    have hset : (l.set i zero)[j]? = some x := by
      rw [getElem?_set, if_neg (Ne.symm hne), hj]
    rcases Nat.lt_or_ge j ((l.set i zero).rdropWhile fun x => !used x).length with hlt | hge
    · rwa [← htail, getElem?_append_left hlt] at hset
    · -- what is cut off is free
      rw [← htail, getElem?_append_right hge] at hset
      have hmem := mem_of_getElem? hset
      have hcut : tail = (l.set i zero).rtakeWhile fun x => !used x := by
        have happ : ((l.set i zero).rdropWhile fun x => !used x) ++
            ((l.set i zero).rtakeWhile fun x => !used x) = l.set i zero :=
              rdropWhile_append_rtakeWhile
        exact append_cancel_left (htail.trans happ.symm)
      rw [hcut] at hmem
      have hfree := mem_rtakeWhile_imp hmem
      rw [hused] at hfree
      cases hfree

end Slots

end Minibase
