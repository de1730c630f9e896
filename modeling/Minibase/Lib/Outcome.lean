import Mathlib.Data.UInt

/-!
# Computations that give up

A command that fails ends its process, so that a model of it is in `Except`. A successful run is
taken apart with `ok_of_bind`, and a check that only refuses is `refuse`. `Ends` has a
postcondition for either end; `Agrees` compares a command that also gives up for other reasons
with what only looks at what it was given.

A loop may take one thing after another off what it was given, until there are no more or a turn
gives up. `Turns.Finishes` goes through that without the loop. A loop whose turns agree with it
(`Turns.Follows`) has gone through it whenever it finishes (`Turns.Follows.finishes`), and
finishes whenever nothing else fails (`Turns.Follows.loop_of_finishes`).
-/

namespace Minibase

open List

section

variable {ε α β : Type}

/-- Gives up if the condition holds. -/
def refuse (p : Prop) [Decidable p] (e : ε) : Except ε Unit := if p then .error e else .ok ()

@[simp] lemma refuse_eq_ok_iff {p : Prop} [Decidable p] {e : ε} {u : Unit} :
    refuse p e = .ok u ↔ ¬p := by
  rw [refuse]
  split
  · rename_i h
    exact ⟨(fun h' => nomatch h'), fun h' => absurd h h'⟩
  · rename_i h
    exact ⟨fun _ => h, fun _ => rfl⟩

variable {f : α → Except ε β}

/-- **A run that succeeded** succeeded in its first step and then in the rest. -/
theorem ok_of_bind {x : Except ε α} {b : β} (h : x >>= f = .ok b) :
    ∃ a, x = .ok a ∧ f a = .ok b := by
  cases x with
  | error e => cases h
  | ok a => exact ⟨a, rfl, h⟩

lemma bind_ok {x : Except ε α} {b : β} (h : ∃ a, x = .ok a ∧ f a = .ok b) : x >>= f = .ok b := by
  obtain ⟨a, rfl, hb⟩ := h
  exact hb

lemma pure_eq_ok_iff {a b : α} : (pure a : Except ε α) = .ok b ↔ a = b := by
  refine ⟨?_, ?_⟩
  · rintro ⟨⟩
    rfl
  · rintro rfl
    rfl

/-! ### Lists of computations -/

lemma mapM_eq_ok {g : α → β} {l : List α} (h : ∀ a ∈ l, f a = .ok (g a)) :
    l.mapM f = .ok (l.map g) := by
  induction l with
  | nil => rfl
  | cons a l ih =>
    rw [mapM_cons, h a mem_cons_self, ih fun b hb => h b (mem_cons_of_mem a hb)]
    rfl

/-- If one of them gives up, and none for another reason, so does the list. -/
theorem mapM_eq_error {e : ε} {l : List α}
    (honly : ∀ a ∈ l, ∀ e', f a = .error e' → e' = e) (hbad : ∃ a ∈ l, f a = .error e) :
    l.mapM f = .error e := by
  induction l with
  | nil =>
    obtain ⟨a, ha, -⟩ := hbad
    exact absurd ha not_mem_nil
  | cons a l ih =>
    rw [mapM_cons]
    cases hfa : f a with
    | error e' =>
      rw [honly a mem_cons_self e' hfa]
      rfl
    | ok b =>
      have hrest : l.mapM f = .error e := by
        refine ih (fun a' ha' => honly a' (mem_cons_of_mem a ha')) ?_
        obtain ⟨a', ha', herr⟩ := hbad
        rcases mem_cons.mp ha' with rfl | ha'
        · rw [hfa] at herr
          cases herr
        · exact ⟨a', ha', herr⟩
      rw [hrest]
      rfl

/-! ### Postconditions for both ends -/

/-- The computation ends well with a result of one kind, or gives up with an error of
another. -/
def Ends (x : Except ε α) (P : α → Prop) (Q : ε → Prop) : Prop :=
  match x with
  | .ok a => P a
  | .error e => Q e

namespace Ends

variable {x : Except ε α} {f : α → Except ε β} {P P' : α → Prop} {R : β → Prop} {Q Q' : ε → Prop}

lemma bind (hx : Ends x P Q) (hf : ∀ a, P a → Ends (f a) R Q) : Ends (x >>= f) R Q := by
  rcases x with e | a
  · exact hx
  · exact hf a hx

lemma mono (hx : Ends x P Q) (hP : ∀ a, P a → P' a) (hQ : ∀ e, Q e → Q' e) : Ends x P' Q' := by
  rcases x with e | a
  · exact hQ e hx
  · exact hP a hx

lemma ite {p : Prop} [Decidable p] {y : Except ε α} (hx : p → Ends x P Q)
    (hy : ¬p → Ends y P Q) : Ends (if p then x else y) P Q := by
  split
  · exact hx ‹_›
  · exact hy ‹_›

end Ends

/-! ### Giving up for other reasons -/

/-- What comes out is what `y` says, and as long as `p` holds nothing is given up that `y`
does not refuse. -/
def Agrees (p : Prop) (x : Except ε α) (y : Option β) (R : α → β → Prop) : Prop :=
  match x with
  | .ok a => ∃ b, y = some b ∧ R a b
  | .error _ => p → y = none

namespace Agrees

variable {γ δ : Type} {p : Prop} {x : Except ε α} {y : Option β} {R R' : α → β → Prop}
  {f : α → Except ε γ} {g : β → Option δ} {Q : γ → δ → Prop}

lemma ok {a : α} {b : β} (h : R a b) : Agrees p (.ok a : Except ε α) (some b) R := ⟨b, rfl, h⟩

lemma error (e : ε) : Agrees p (.error e : Except ε α) none R := fun _ => rfl

/-- Whatever gives up here does not do so under `p`. -/
theorem never (e : ε) (h : ¬ p) : Agrees p (.error e : Except ε α) y R := fun hp => absurd hp h

/-- **One after the other.** -/
theorem bind (hx : Agrees p x y R) (hf : ∀ a b, R a b → Agrees p (f a) (g b) Q) :
    Agrees p (x >>= f) (y >>= g) Q := by
  rcases x with e | a
  · intro hp
    rw [hx hp]
    rfl
  · obtain ⟨b, rfl, hab⟩ := hx
    exact hf a b hab

lemma mono (hx : Agrees p x y R) (h : ∀ a b, R a b → R' a b) : Agrees p x y R' := by
  rcases x with e | a
  · exact hx
  · obtain ⟨b, hb, hab⟩ := hx
    exact ⟨b, hb, h a b hab⟩

/-- What gives up under less does so under more. -/
theorem weaken {q : Prop} (hx : Agrees p x y R) (h : q → p) : Agrees q x y R := by
  rcases x with e | a
  · exact fun hq => hx (h hq)
  · exact hx

/-- The same test on both sides. -/
theorem ite {q r : Prop} [Decidable q] [Decidable r] {x' : Except ε α} {y' : Option β} (hqr : q ↔ r)
    (hx : q → Agrees p x y R) (hx' : ¬ q → Agrees p x' y' R) :
    Agrees p (if q then x else x') (if r then y else y') R := by
  by_cases hq : q
  · rw [if_pos hq, if_pos (hqr.mp hq)]
    exact hx hq
  · rw [if_neg hq, if_neg fun hr => hq (hqr.mpr hr)]
    exact hx' hq

end Agrees

end

/-! ### Loops that take something apart -/

namespace Turns

variable {ε σ α γ : Type}

/-- Turn after turn, until one says that it was the last; nothing after so many turns
without an end. -/
def loop (turn : σ → Except ε (Bool × σ)) : ℕ → σ → Option (Except ε σ)
  | 0, _ => none
  | k + 1, s =>
    match turn s with
    | .error e => some (.error e)
    | .ok (false, s) => some (.ok s)
    | .ok (true, s) => loop turn k s

/-- **It can be gone through to its end**, and this comes out of it. -/
inductive Finishes (next : α → Option (Option (α × List γ))) : α → List γ → Prop
  | stop {a : α} (h : next a = some none) : Finishes next a []
  | more {a a' : α} {out outs : List γ} (h : next a = some (some (a', out)))
      (hrest : Finishes next a' outs) : Finishes next a (out ++ outs)

section Finishes

variable {next : α → Option (Option (α × List γ))} {a a' : α} {out : List γ}

lemma not_finishes (h : next a = none) : ¬ ∃ outs, Finishes next a outs := by
  rintro ⟨outs, hstop | hmore⟩
  · rw [h] at hstop
    cases hstop
  · rw [h] at hmore
    cases hmore

/-- Going on after the first turn. -/
theorem finishes_iff_of_next (h : next a = some (some (a', out))) {outs : List γ} :
    Finishes next a outs ↔ ∃ rest, outs = out ++ rest ∧ Finishes next a' rest := by
  constructor
  · rintro (hstop | ⟨hmore, hrest⟩)
    · rw [h] at hstop
      cases hstop
    · obtain ⟨rfl, rfl⟩ := Prod.mk.inj (Option.some.inj (Option.mem_unique h hmore))
      exact ⟨_, rfl, hrest⟩
  · rintro ⟨rest, rfl, hrest⟩
    exact Finishes.more h hrest

end Finishes

/-- **What a turn has come to**, seen as what is left of it and what came out so far. -/
inductive Turned (view : σ → α) (out : σ → List γ) (s : σ) : Bool × σ → Option (α × List γ) → Prop
  | last {s' : σ} (h : out s' = out s) : Turned view out s (false, s') none
  | turn {s' : σ} {more : List γ} (h : out s' = out s ++ more) :
      Turned view out s (true, s') (some (view s', more))

/-- The turns of a loop agree with what is to be gone through, and each takes some of it. -/
structure Follows (p : Prop) (turn : σ → Except ε (Bool × σ))
    (next : α → Option (Option (α × List γ)))
    (view : σ → α) (out : σ → List γ) (size : α → ℕ) : Prop where
  agrees : ∀ s, Agrees p (turn s) (next (view s)) (Turned view out s)
  less : ∀ {a a' : α} {more : List γ}, next a = some (some (a', more)) → size a' < size a

namespace Follows

variable {p : Prop} {turn : σ → Except ε (Bool × σ)} {next : α → Option (Option (α × List γ))}
  {view : σ → α} {out : σ → List γ} {size : α → ℕ} {s s' : σ} {k : ℕ}

/-- **A loop that finishes** has gone through everything. -/
theorem finishes (hf : Follows p turn next view out size) (h : loop turn k s = some (.ok s')) :
    ∃ outs, Finishes next (view s) outs ∧ out s' = out s ++ outs := by
  induction k generalizing s with
  | zero => cases h
  | succ k ih =>
    have hturn := hf.agrees s
    rw [loop] at h
    rcases ht : turn s with e | ⟨more, s1⟩
    · rw [ht] at h
      cases h
    · rw [ht] at h hturn
      obtain ⟨b, hnext, hcame⟩ := hturn
      cases hcame with
      | last hout =>
        cases Option.some.inj h
        exact ⟨[], Finishes.stop hnext, by rw [hout, append_nil]⟩
      | turn hout =>
        obtain ⟨outs, hfin, hout'⟩ := ih h
        exact ⟨_, Finishes.more hnext hfin, by rw [hout', hout, append_assoc]⟩

/-- **It finishes where everything can be gone through.** -/
theorem loop_of_finishes (hf : Follows p turn next view out size) (hp : p) {a : α} {outs : List γ}
    (h : Finishes next a outs) (hk : size a < k) (hview : view s = a) :
    ∃ s', loop turn k s = some (.ok s') ∧ out s' = out s ++ outs := by
  induction h generalizing s k with
  | stop hnext =>
    obtain ⟨k, rfl⟩ := Nat.exists_eq_succ_of_ne_zero (ne_of_gt (Nat.zero_lt_of_lt hk))
    have hturn := hf.agrees s
    rw [hview, hnext] at hturn
    rw [loop]
    rcases ht : turn s with e | ⟨more, s1⟩
    · rw [ht] at hturn
      cases hturn hp
    · rw [ht] at hturn
      obtain ⟨b, hb, hcame⟩ := hturn
      cases hb
      cases hcame with
      | last hout => exact ⟨_, rfl, by rw [hout, append_nil]⟩
  | more hnext _ ih =>
    obtain ⟨k, rfl⟩ := Nat.exists_eq_succ_of_ne_zero (ne_of_gt (Nat.zero_lt_of_lt hk))
    have hless := hf.less hnext
    have hturn := hf.agrees s
    rw [hview, hnext] at hturn
    rw [loop]
    rcases ht : turn s with e | ⟨more, s1⟩
    · rw [ht] at hturn
      cases hturn hp
    · rw [ht] at hturn
      obtain ⟨b, hb, hcame⟩ := hturn
      cases hb
      cases hcame with
      | turn hout =>
        obtain ⟨s', hs', hout'⟩ := ih (k := k) (by omega) rfl
        exact ⟨s', hs', by rw [hout', hout, append_assoc]⟩

/-- There is an end to the turns. -/
theorem loop_isSome (hf : Follows p turn next view out size) (hk : size (view s) < k) :
    (loop turn k s).isSome := by
  induction k generalizing s with
  | zero => cases hk
  | succ k ih =>
    have hturn := hf.agrees s
    rw [loop]
    rcases ht : turn s with e | ⟨more, s1⟩
    · rfl
    · rw [ht] at hturn
      obtain ⟨b, hnext, hcame⟩ := hturn
      cases hcame with
      | last hout => rfl
      | turn hout =>
        have hless := hf.less hnext
        exact ih (by omega)

end Follows

end Turns

end Minibase
