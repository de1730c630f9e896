import Mathlib.Data.List.TakeWhile
import Mathlib.Data.UInt

/-!
# Patterns with stars

A star in a pattern stands for any stretch of a name, and any other character for itself. There
may be several ways to match a name (`Stretches`), which is why matching needs to try.
It does not if no stretch has the character in it that the pattern has after the star
(`Settled`): each star then takes what is before the first one of these
(`glob_star_iff`).
-/

namespace Minibase

variable {α : Type*} {star : α}

/-- What each star stands for in a match, and what the pattern has after it. -/
inductive Stretches (star : α) : List α → List α → List (List α × List α) → Prop
  | nil : Stretches star [] [] []
  /-- A character that stands for itself. -/
  | same {c : α} {p n : List α} {ss : List (List α × List α)} (hc : c ≠ star)
      (h : Stretches star p n ss) : Stretches star (c :: p) (c :: n) ss
  /-- A star that stands for `s`. -/
  | star {p n : List α} {ss : List (List α × List α)} (s : List α)
      (h : Stretches star p n ss) : Stretches star (star :: p) (s ++ n) ((p, s) :: ss)

/-- **The pattern matches** all of the name. -/
def Glob (star : α) (p n : List α) : Prop := ∃ ss, Stretches star p n ss

/-- No star is given a stretch with the character in it that is next in the pattern, or the last
one if the pattern ends there. -/
def Settled (star last : α) (p n : List α) : Prop :=
  ∀ ss, Stretches star p n ss → ∀ x ∈ ss, x.1.headD last ∉ x.2

lemma glob_nil_iff {n : List α} : Glob star [] n ↔ n = [] := by
  constructor
  · rintro ⟨_, h⟩
    cases h
    rfl
  · rintro rfl
    exact ⟨[], .nil⟩

lemma glob_cons_iff {c : α} {p n : List α} (hc : c ≠ star) :
    Glob star (c :: p) n ↔ ∃ n', n = c :: n' ∧ Glob star p n' := by
  constructor
  · rintro ⟨_, h⟩
    cases h with
    | same _ h => exact ⟨_, rfl, _, h⟩
    | star => exact absurd rfl hc
  · rintro ⟨n', rfl, ss, h⟩
    exact ⟨ss, .same hc h⟩

/-- Two stars are as good as one, and only that matches nothing. -/
theorem glob_star_nil_iff {p : List α} (hp : ∀ c ∈ p.head?, c ≠ star) :
    Glob star (star :: p) [] ↔ p = [] := by
  constructor
  · rintro ⟨_, h⟩
    generalize hn : ([] : List α) = n at h
    cases h with
    | same hc => exact absurd rfl hc
    | star s h =>
      obtain ⟨rfl, rfl⟩ := List.append_eq_nil_iff.mp hn.symm
      obtain - | ⟨c, p⟩ := p
      · rfl
      · obtain ⟨_, hnil, -⟩ := (glob_cons_iff (hp c rfl)).mp ⟨_, h⟩
        cases hnil
  · rintro rfl
    exact ⟨_, .star [] .nil⟩

lemma Settled.tail {last c : α} {p n : List α} (hc : c ≠ star)
    (h : Settled star last (c :: p) (c :: n)) :
    Settled star last p n := fun _ hss => h _ (.same hc hss)

lemma Settled.rest {last : α} {p n : List α} (s : List α)
    (h : Settled star last (star :: p) (s ++ n)) : Settled star last p n :=
  fun _ hss x hx => h _ (.star s hss) x (List.mem_cons_of_mem _ hx)

variable [DecidableEq α]

/-- **A star takes what is before** the first character of the kind that is next. -/
theorem glob_star_iff {last : α} {p n : List α} (hp : ∀ c ∈ p.head?, c ≠ star)
    (h : Settled star last (star :: p) n) :
    Glob star (star :: p) n ↔ Glob star p (n.dropWhile (· ≠ p.headD last)) := by
  constructor
  · rintro ⟨ss, hss⟩
    have hset := h ss hss
    cases hss with
    | same hc => exact absurd rfl hc
    | @star _ n' ss s hrest =>
      have hs : p.headD last ∉ s := hset (p, s) List.mem_cons_self
      have hskip : (s ++ n').dropWhile (· ≠ p.headD last) = n'.dropWhile (· ≠ p.headD last) :=
        List.dropWhile_append_of_pos fun c hc => decide_eq_true (ne_of_mem_of_not_mem hc hs)
      rw [hskip]
      -- what is left starts with the next character, unless nothing is left
      obtain - | ⟨c, p⟩ := p
      · cases hrest
        exact ⟨[], .nil⟩
      · have hne : c ≠ star := hp c rfl
        obtain ⟨n'', rfl, hglob⟩ := (glob_cons_iff hne).mp ⟨_, hrest⟩
        rw [List.dropWhile_cons_of_neg (by simp)]
        exact ⟨_, hrest⟩
  · rintro ⟨ss, hss⟩
    rw [← List.takeWhile_append_dropWhile (p := (· ≠ p.headD last)) (l := n)]
    exact ⟨_, .star _ hss⟩

end Minibase
