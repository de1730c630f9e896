import Mathlib.Data.UInt

/-!
# Cutting texts at a byte

Paths are cut at slashes and files at newlines, always by the same loop: look for the next
one, take what is before it, go on after it. `pieces` is all that such a loop takes,
and what it is left with when there is no further one. A text that was put together from
pieces without the byte is taken apart into them again (`pieces_joined`).
-/

namespace Minibase

open List

/-- What comes before each `k`, and what comes after the last. -/
def pieces (k : UInt8) : List UInt8 → List (List UInt8) × List UInt8
  | [] => ([], [])
  | c :: p =>
    if c = k then ([] :: (pieces k p).1, (pieces k p).2)
    else
      match pieces k p with
      | ([], t) => ([], c :: t)
      | (d :: ds, t) => ((c :: d) :: ds, t)

/-- The text made of pieces with a `k` after each, and a rest. -/
def joined (k : UInt8) (ds : List (List UInt8)) (t : List UInt8) : List UInt8 :=
  ds.flatMap (· ++ [k]) ++ t

variable {k : UInt8} {t : List UInt8}

lemma pieces_last (h : k ∉ t) : pieces k t = ([], t) := by
  induction t with
  | nil => rfl
  | cons c t ih =>
    obtain ⟨hc, ht⟩ := ne_and_not_mem_of_not_mem_cons h
    rw [pieces, if_neg (Ne.symm hc), ih ht]

lemma pieces_part {d : List UInt8} (h : k ∉ d) (p : List UInt8) :
    pieces k (d ++ k :: p) = (d :: (pieces k p).1, (pieces k p).2) := by
  induction d with
  | nil => rw [nil_append, pieces, if_pos rfl]
  | cons c d ih =>
    obtain ⟨hc, hd⟩ := ne_and_not_mem_of_not_mem_cons h
    rw [cons_append, pieces, if_neg (Ne.symm hc), ih hd]

lemma pieces_eq_nil (h : pieces k t = ([], [])) : t = [] := by
  obtain - | ⟨c, t⟩ := t
  · rfl
  rw [pieces] at h
  split at h
  · cases h
  · split at h <;> cases h

/-- **Taking apart what was put together.** -/
theorem pieces_joined {ds : List (List UInt8)} (hds : ∀ d ∈ ds, k ∉ d) (ht : k ∉ t) :
    pieces k (joined k ds t) = (ds, t) := by
  induction ds with
  | nil => exact pieces_last ht
  | cons d ds ih =>
    have hjoin : joined k (d :: ds) t = d ++ k :: joined k ds t := by
      simp [joined]
    rw [hjoin, pieces_part (hds d mem_cons_self), ih fun d' hd' => hds d' (mem_cons_of_mem _ hd')]

/-- **Putting together what was taken apart.** -/
theorem joined_pieces (k : UInt8) (p : List UInt8) : joined k (pieces k p).1
    (pieces k p).2 = p := by
  induction p with
  | nil => rfl
  | cons c p ih =>
    rw [pieces]
    split_ifs with hc
    · rw [hc]
      simpa [joined] using ih
    · rcases h : pieces k p with ⟨- | ⟨d, ds⟩, t⟩
      · rw [h] at ih
        simpa [joined] using ih
      · rw [h] at ih
        simpa [joined] using ih

/-- The pieces do not have the byte. -/
theorem not_mem_pieces (k : UInt8) (p : List UInt8) :
    (∀ d ∈ (pieces k p).1, k ∉ d) ∧ k ∉ (pieces k p).2 := by
  induction p with
  | nil => exact ⟨fun _ h => absurd h not_mem_nil, not_mem_nil⟩
  | cons c p ih =>
    rw [pieces]
    split_ifs with hc
    · exact ⟨forall_mem_cons.mpr ⟨not_mem_nil, ih.1⟩, ih.2⟩
    · rcases h : pieces k p with ⟨- | ⟨d, ds⟩, t⟩
      · rw [h] at ih
        exact ⟨fun _ h => absurd h not_mem_nil, not_mem_cons_of_ne_of_not_mem (Ne.symm hc) ih.2⟩
      · rw [h] at ih
        obtain ⟨hd, hds⟩ := forall_mem_cons.mp ih.1
        exact ⟨forall_mem_cons.mpr ⟨not_mem_cons_of_ne_of_not_mem (Ne.symm hc) hd, hds⟩, ih.2⟩

/-- A text that ends in the byte has nothing after its last piece. -/
theorem pieces_of_getLast {p : List UInt8} (h : p.getLast? = some k) : (pieces k p).2 = [] := by
  have hjoin := joined_pieces k p
  have hmem := (not_mem_pieces k p).2
  rcases ht : (pieces k p).2 with - | ⟨c, t⟩
  · rfl
  · rw [ht] at hjoin hmem
    rw [← hjoin, joined, getLast?_append_of_ne_nil _ (cons_ne_nil c t)] at h
    exact absurd (mem_of_getLast? h) hmem

end Minibase
