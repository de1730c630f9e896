import Mathlib.Data.UInt

/-!
# Walks that remember where they were

A depth-first walk remembers what it has seen, and in a finite world it comes to an end
(`exists_walk`). `Walker` is one that can remember only so much. It does what it should exactly
if everything it meets again, and could go on from, is still among what it remembers
(`Walker.ends_iff`).
-/

namespace Minibase

open List Option Function

variable {α : Type*}

/-- **A walk** that has seen some things and is still to go to others, with all that it meets. A
thing that is not there has nothing next to it. -/
inductive Tour (next : α → Option (List α)) : List α → List α → List α → Prop
  | done (seen : List α) : Tour next seen [] []
  | again {seen ns ms : List α} {n : α} (h : n ∈ seen) (hrest : Tour next seen ns ms) :
      Tour next seen (n :: ns) (n :: ms)
  | first {seen ns ms : List α} {n : α} (h : n ∉ seen)
      (hrest : Tour next (seen ++ [n]) ((next n).getD [] ++ ns) ms) : Tour next seen (n :: ns)
        (n :: ms)

variable [DecidableEq α] {next : α → Option (List α)}

/-- **A walk comes to an end.** -/
theorem exists_walk {world : Finset α} (hworld : ∀ n ∈ world, ∀ m ∈ (next n).getD [], m ∈ world)
    {seen pending : List α} (hin : ∀ n ∈ pending, n ∈ world) : ∃ ms, Tour next seen pending ms := by
  -- either there is less that was not seen, or as much and less to go to
  induction hk : (world \ seen.toFinset).card using Nat.strong_induction_on generalizing seen
    pending with
  | _ k ih =>
    induction pending with
    | nil => exact ⟨[], .done seen⟩
    | cons n ns ihns =>
      obtain ⟨hn, hns⟩ := forall_mem_cons.mp hin
      by_cases hseen : n ∈ seen
      · obtain ⟨ms, hms⟩ := ihns hns
        exact ⟨_, .again hseen hms⟩
      · have hless : (world \ (seen ++ [n]).toFinset).card < k := by
          rw [← hk]
          refine Finset.card_lt_card ((Finset.ssubset_iff_of_subset ?_).mpr ⟨n, ?_, ?_⟩)
          · exact Finset.sdiff_subset_sdiff (Finset.Subset.refl _) (by simp)
          · simp [hn, hseen]
          · simp
        have hmore : ∀ m ∈ (next n).getD [] ++ ns, m ∈ world := by
          intro m hm
          exact (mem_append.mp hm).elim (hworld n hn m) (hns m)
        obtain ⟨ms, hms⟩ := ih _ hless hmore rfl
        exact ⟨_, .first hseen hms⟩

/-- What is gone on from, of all that is met. -/
def visits (next : α → Option (List α)) : (seen ms : List α) → List α
  | _, [] => []
  | seen, n :: ms =>
    if n ∈ seen then visits next seen ms
    else if (next n).isSome then n :: visits next (seen ++ [n]) ms
    else visits next (seen ++ [n]) ms

/-- **What is met again is remembered**, if there are so many slots and it could be gone on
from. -/
def Fits (next : α → Option (List α)) (slots : ℕ) : (seen ms : List α) → Prop
  | _, [] => True
  | seen, n :: ms =>
    if n ∈ seen then ((next n).isSome → n ∈ seen.take slots) ∧ Fits next slots seen ms
    else Fits next slots (seen ++ [n]) ms

lemma mem_visits_iff {seen ms : List α} {n : α} :
    n ∈ visits next seen ms ↔ n ∈ ms ∧ n ∉ seen ∧ (next n).isSome := by
  induction ms generalizing seen with
  | nil => exact iff_of_false not_mem_nil fun h => not_mem_nil h.1
  | cons m ms ih =>
    rw [visits]
    by_cases hseen : m ∈ seen
    · rw [if_pos hseen, ih, mem_cons]
      constructor
      · exact fun ⟨h, h'⟩ => ⟨.inr h, h'⟩
      · rintro ⟨rfl | h, h'⟩
        · exact absurd hseen h'.1
        · exact ⟨h, h'⟩
    · rw [if_neg hseen]
      by_cases hnm : n = m
      · subst hnm
        split_ifs with hnext
        · exact iff_of_true mem_cons_self ⟨mem_cons_self, hseen, hnext⟩
        · rw [ih]
          exact iff_of_false (fun h => hnext h.2.2) fun h => hnext h.2.2
      · have hstep : n ∈ visits next (seen ++ [m]) ms ↔ n ∈ m :: ms ∧ n ∉ seen ∧
          (next n).isSome := by
          rw [ih, mem_append, mem_singleton, mem_cons]
          simp [hnm]
        split_ifs
        · rw [mem_cons, hstep]
          exact or_iff_right hnm
        · exact hstep

lemma nodup_visits (seen ms : List α) : (visits next seen ms).Nodup := by
  induction ms generalizing seen with
  | nil => exact nodup_nil
  | cons m ms ih =>
    rw [visits]
    split_ifs with hseen hnext
    · exact ih seen
    · refine nodup_cons.mpr ⟨fun h => ?_, ih _⟩
      exact (mem_visits_iff.mp h).2.1 (mem_append_right _ (mem_singleton_self m))
    · exact ih _

/-- One that walks, with what it remembers and what it has gone on from. -/
structure Walker (α : Type*) where
  seen : List α
  pending : List α
  out : List α

namespace Walker

/-- There is a slot for it, or it goes without. -/
def note (slots : ℕ) (seen : List α) (n : α) : List α :=
    if seen.length < slots then seen ++ [n] else seen

/-- One step, which is none at the end. -/
def step (next : α → Option (List α)) (slots : ℕ) (w : Walker α) : Walker α :=
  match w.pending with
  | [] => w
  | n :: ns =>
    if n ∈ w.seen then { w with pending := ns }
    else
      match next n with
      | none => ⟨note slots w.seen n, ns, w.out⟩
      | some ms => ⟨note slots w.seen n, ms ++ ns, w.out ++ [n]⟩

variable {slots : ℕ}

omit [DecidableEq α] in
lemma take_concat (seen : List α) (n : α) : (seen ++ [n]).take slots = note slots
    (seen.take slots) n := by
  rw [note, length_take]
  split_ifs with h
  · rw [take_of_length_le, take_of_length_le]
    · omega
    · rw [length_append, length_singleton]
      omega
  · rw [take_append_of_le_length (by omega)]

omit [DecidableEq α] in
/-- Nothing is remembered when there is no slot left. -/
theorem note_of_mem {seen : List α} {n : α} (h : n ∈ seen) (h' : n ∉ seen.take slots) :
    note slots (seen.take slots) n = seen.take slots := by
  rw [note, if_neg]
  rw [length_take]
  intro hlt
  rw [take_of_length_le (by omega)] at h'
  exact h' h

lemma step_ended {w : Walker α} (h : w.pending = []) : w.step next slots = w := by
  rw [step, h]

lemma run_ended {w : Walker α} (h : w.pending = []) (k : ℕ) : (step next slots)^[k] w = w :=
  iterate_fixed (step_ended h) k

lemma out_prefix_step (w : Walker α) : w.out <+: (w.step next slots).out := by
  rw [step]
  split
  · exact prefix_refl _
  · split_ifs
    · exact prefix_refl _
    · split
      · exact prefix_refl _
      · exact prefix_append _ _

lemma out_prefix_run (w : Walker α) (k : ℕ) : w.out <+: ((step next slots)^[k] w).out := by
  induction k generalizing w with
  | zero => exact prefix_refl _
  | succ k ih => exact (out_prefix_step w).trans (ih _)

section Step

variable {seen ns out : List α} {n : α}

/-- What is met again, and is remembered or not there. -/
theorem step_again (hn : n ∈ seen) (h : n ∈ seen.take slots ∨ next n = none) :
    step next slots ⟨seen.take slots, n :: ns, out⟩ = ⟨seen.take slots, ns, out⟩ := by
  rw [step]
  dsimp only
  by_cases hkept : n ∈ seen.take slots
  · rw [if_pos hkept]
  · rw [if_neg hkept, h.resolve_left hkept, note_of_mem hn hkept]

lemma step_none (hn : n ∉ seen) (hnext : next n = none) :
    step next slots ⟨seen.take slots, n :: ns, out⟩ = ⟨(seen ++ [n]).take slots, ns, out⟩ := by
  rw [step]
  dsimp only
  rw [if_neg fun h => hn (mem_of_mem_take h), hnext, take_concat]

lemma step_some {ds : List α} (hn : n ∉ seen.take slots) (hnext : next n = some ds) :
    step next slots ⟨seen.take slots, n :: ns, out⟩ =
      ⟨(seen ++ [n]).take slots, ds ++ ns, out ++ [n]⟩ := by
  rw [step]
  dsimp only
  rw [if_neg hn, hnext, take_concat]

end Step

/-- **Where everything fits**, all of it is gone on from, once. -/
theorem run_of_fits {seen pending ms : List α} (h : Tour next seen pending ms)
    (hfits : Fits next slots seen ms) (out : List α) :
    ∃ k seen', (step next slots)^[k] ⟨seen.take slots, pending, out⟩ =
      ⟨seen', [], out ++ visits next seen ms⟩ := by
  induction h generalizing out with
  | done seen => exact ⟨0, seen.take slots, by rw [visits, append_nil]; rfl⟩
  | @again seen ns ms n hn _ ih =>
    rw [Fits, if_pos hn] at hfits
    have hkept : n ∈ seen.take slots ∨ next n = none := by
      by_cases hsome : (next n).isSome
      · exact .inl (hfits.1 hsome)
      · exact .inr (not_isSome_iff_eq_none.mp hsome)
    obtain ⟨k, seen', hk⟩ := ih hfits.2 out
    exact ⟨k + 1, seen', by rw [iterate_succ_apply, step_again hn hkept, hk, visits, if_pos hn]⟩
  | @first seen ns ms n hn _ ih =>
    rw [Fits, if_neg hn] at hfits
    rw [visits, if_neg hn]
    cases hnext : next n with
    | none =>
      obtain ⟨k, seen', hk⟩ := ih hfits out
      rw [hnext] at hk
      exact ⟨k + 1, seen', by rw [iterate_succ_apply, step_none hn hnext]; exact hk⟩
    | some ds =>
      have hkept : n ∉ seen.take slots := fun h => hn (mem_of_mem_take h)
      obtain ⟨k, seen', hk⟩ := ih hfits (out ++ [n])
      rw [hnext] at hk
      refine ⟨k + 1, seen', ?_⟩
      rw [iterate_succ_apply, step_some hkept hnext]
      exact hk.trans (by rw [append_assoc]; rfl)

/-- **Where something does not fit**, it is gone on from twice. -/
theorem run_of_not_fits {seen pending ms : List α} (h : Tour next seen pending ms)
    (hfits : ¬ Fits next slots seen ms) {out : List α}
    (hout : ∀ n ∈ seen, (next n).isSome → n ∈ out) :
    ∃ k, ¬ ((step next slots)^[k] ⟨seen.take slots, pending, out⟩).out.Nodup := by
  induction h generalizing out with
  | done => exact absurd trivial hfits
  | @again seen ns ms n hn _ ih =>
    rw [Fits, if_pos hn] at hfits
    by_cases hkept : n ∈ seen.take slots
    · obtain ⟨k, hk⟩ := ih (fun h => hfits ⟨fun _ => hkept, h⟩) hout
      exact ⟨k + 1, by rwa [iterate_succ_apply, step_again hn (.inl hkept)]⟩
    cases hnext : next n with
    | none =>
      obtain ⟨k, hk⟩ := ih (fun h => hfits ⟨fun h' => by simp [hnext] at h', h⟩) hout
      exact ⟨k + 1, by rwa [iterate_succ_apply, step_again hn (.inr hnext)]⟩
    | some ds =>
      -- it was gone on from before, and here it is again
      have hbefore : n ∈ out := hout n hn (by rw [hnext]; rfl)
      refine ⟨1, fun hnodup => ?_⟩
      rw [iterate_one, step_some hkept hnext] at hnodup
      exact (nodup_append.mp hnodup).2.2 n hbefore n (mem_singleton_self n) rfl
  | @first seen ns ms n hn _ ih =>
    rw [Fits, if_neg hn] at hfits
    cases hnext : next n with
    | none =>
      have hout' : ∀ m ∈ seen ++ [n], (next m).isSome → m ∈ out := by
        intro m hm hsome
        rcases mem_append.mp hm with hm | hm
        · exact hout m hm hsome
        · rw [mem_singleton.mp hm, hnext] at hsome
          cases hsome
      obtain ⟨k, hk⟩ := ih hfits hout'
      rw [hnext] at hk
      exact ⟨k + 1, by rw [iterate_succ_apply, step_none hn hnext]; exact hk⟩
    | some ds =>
      have hkept : n ∉ seen.take slots := fun h => hn (mem_of_mem_take h)
      have hout' : ∀ m ∈ seen ++ [n], (next m).isSome → m ∈ out ++ [n] := by
        intro m hm hsome
        rcases mem_append.mp hm with hm | hm
        · exact mem_append_left _ (hout m hm hsome)
        · exact mem_append_right _ hm
      obtain ⟨k, hk⟩ := ih hfits hout'
      rw [hnext] at hk
      exact ⟨k + 1, by rw [iterate_succ_apply, step_some hkept hnext]; exact hk⟩

/-- **A walker does what it should**, which is to end and to go on from nothing twice, exactly if
everything fits. -/
theorem ends_iff {pending ms : List α} (h : Tour next [] pending ms) :
    (∃ k, ((step next slots)^[k] ⟨[], pending, []⟩).pending = [] ∧
      ((step next slots)^[k] ⟨[], pending, []⟩).out.Nodup) ↔ Fits next slots [] ms := by
  constructor
  · rintro ⟨k, hend, hnodup⟩
    by_contra hfits
    obtain ⟨j, hj⟩ := run_of_not_fits h hfits fun n hn => absurd hn not_mem_nil
    rw [take_nil] at hj
    refine hj ?_
    -- what is twice in it stays twice, and after the end there is nothing new
    rcases Nat.le_total j k with hle | hle
    · obtain ⟨i, rfl⟩ := Nat.exists_eq_add_of_le' hle
      rw [iterate_add_apply] at hnodup
      exact hnodup.sublist (out_prefix_run _ i).sublist
    · obtain ⟨i, rfl⟩ := Nat.exists_eq_add_of_le' hle
      rwa [iterate_add_apply, run_ended hend]
  · intro hfits
    obtain ⟨k, seen', hk⟩ := run_of_fits h hfits []
    rw [take_nil] at hk
    refine ⟨k, by rw [hk], ?_⟩
    rw [hk]
    exact nodup_visits [] ms

/-- **What it has gone on from** when it ends, if everything fits. -/
theorem out_of_ended {pending ms : List α} {k : ℕ} (h : Tour next [] pending ms)
    (hfits : Fits next slots [] ms)
    (hend : ((step next slots)^[k] ⟨[], pending, []⟩).pending = []) :
    ((step next slots)^[k] ⟨[], pending, []⟩).out = visits next [] ms := by
  obtain ⟨j, seen', hj⟩ := run_of_fits h hfits []
  rw [take_nil] at hj
  -- both have ended
  have hsame : (step next slots)^[k] ⟨[], pending, []⟩ = (step next slots)^[j]
    ⟨[], pending, []⟩ := by
    rcases Nat.le_total j k with hle | hle
    · obtain ⟨i, rfl⟩ := Nat.exists_eq_add_of_le' hle
      rw [iterate_add_apply, hj, run_ended rfl]
    · obtain ⟨i, rfl⟩ := Nat.exists_eq_add_of_le' hle
      rw [iterate_add_apply, run_ended hend]
  rw [hsame, hj]
  rfl

end Walker

end Minibase
