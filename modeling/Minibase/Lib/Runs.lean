import Mathlib.Data.UInt

/-!
# Runs of a system

A system is a set of states to start in and a partial step function. `Reach` takes a condition on
the steps as well: the runs looked at are those in which every event meets the condition in the
state it finds, and an invariant only has to be kept by these (`Reach.invariant`). A loop within
a step has a rule of the same kind (`loop_invariant`).
-/

namespace Minibase

variable {σ ε : Type} {init : σ → Prop} {step : σ → ε → Option σ} {ok ok' : σ → ε → Prop}

/-- The states reached by runs all of whose steps meet a condition. -/
inductive Reach (init : σ → Prop) (step : σ → ε → Option σ) (ok : σ → ε → Prop) : σ → Prop
  | start {s : σ} : init s → Reach init step ok s
  | next {s s' : σ} {e : ε} : Reach init step ok s → ok s e → step s e = some s' →
      Reach init step ok s'

namespace Reach

/-- **What holds at the start and is kept by every step that meets the condition holds in
every state reached.** -/
theorem invariant {Inv : σ → Prop} (h0 : ∀ s, init s → Inv s)
    (hstep : ∀ s e s', Inv s → ok s e → step s e = some s' → Inv s') {s : σ}
    (h : Reach init step ok s) : Inv s := by
  induction h with
  | start hs => exact h0 _ hs
  | next _ hok hs ih => exact hstep _ _ _ ih hok hs

/-- A state reached under a condition is reached under a weaker one. -/
theorem mono (hok : ∀ s e, ok s e → ok' s e) {s : σ} (h : Reach init step ok s) :
    Reach init step ok' s := by
  induction h with
  | start hs => exact .start hs
  | next _ ho hs ih => exact .next ih (hok _ _ ho) hs

/-- A list of events that can happen one after the other, each meeting the condition, leads to
a state reached. -/
theorem foldlM [∀ s e, Decidable (ok s e)] {s s' : σ} {es : List ε} (h : Reach init step ok s)
    (hrun : es.foldlM (fun s e => if ok s e then step s e else none) s = some s') :
    Reach init step ok s' := by
  induction es generalizing s with
  | nil =>
    obtain rfl : s = s' := Option.some.inj hrun
    exact h
  | cons e es ih =>
    rw [List.foldlM_cons] at hrun
    obtain ⟨t, ht, hrest⟩ := Option.bind_eq_some_iff.mp hrun
    split at ht
    · exact ih (h.next ‹_› ht) hrest
    · cases ht

end Reach

/-- **A loop that counts up** keeps an invariant, which may speak of how far it has got. -/
theorem loop_invariant {body : σ → ℕ → σ} {P : ℕ → σ → Prop} {s : σ} {n : ℕ} (h0 : P 0 s)
    (hbody : ∀ i < n, ∀ s, P i s → P (i + 1) (body s i)) : P n ((List.range n).foldl body s) := by
  induction n with
  | zero => exact h0
  | succ n ih =>
    rw [List.range_succ, List.foldl_append]
    exact hbody n n.lt_succ_self _ (ih fun i hi => hbody i (Nat.lt_succ_of_lt hi))

end Minibase
