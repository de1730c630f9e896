import Mathlib.Algebra.Order.Monoid.Prod
import Mathlib.Data.UInt

/-!
# Pre- and postconditions

Rules for programs over a state – a `StateM σ α` –, in three strengths. `Keeps` says that a
program leaves a view of the state alone, `Preserves` that it preserves an invariant. `Triple`
has a pre- and a postcondition, relative to a property `G` of the past of a state: the program
cannot make it true, and the postcondition is only promised if it is true at the end. With the
trivial `G` this is a Hoare triple.

`Twin` is for what a program leaves behind and what it does from two states that look alike, at
once: a relation `Step n` between the state before and after, where `n` is what was spent on the
way; a relation `Sim n` between two states that look alike with `n` still to spend; and a
property `Good` of the past. `Twin.Ok` is the judgement, and the rules follow the way programs
are put together. The cost can be in any ordered additive monoid.
-/

namespace Minibase

section

variable {σ α β γ : Type}

/-! ### Runs -/

/-- The run of a sequence of two programs. -/
theorem run_bind (x : StateM σ α) (f : α → StateM σ β) (s : σ) : (x >>= f) s = f (x s).1 (x s).2 :=
  rfl

lemma run_get (s : σ) : (get : StateM σ σ) s = (s, s) := rfl

lemma run_modify (f : σ → σ) (s : σ) : (modify f : StateM σ Unit) s = ((), f s) := rfl

lemma run_ite {c : Prop} [Decidable c] (x y : StateM σ α) (s : σ) :
    (if c then x else y) s = if c then x s else y s := by
  split_ifs <;> rfl

/-! ### Programs that leave something alone -/

/-- A program that leaves a view of the state as it is. -/
def Keeps (v : σ → γ) (x : StateM σ α) : Prop := ∀ s, v (x s).2 = v s

namespace Keeps

variable {v : σ → γ} {x : StateM σ α} {f : α → StateM σ β}

lemma pure (a : α) : Keeps v (pure a : StateM σ α) := fun _ => rfl

lemma bind (hx : Keeps v x) (hf : ∀ a, Keeps v (f a)) : Keeps v (x >>= f) :=
  fun s => (hf _ _).trans (hx s)

/-- Sequencing, when the first result is thrown away. -/
theorem seq {y : StateM σ β} (hx : Keeps v x) (hy : Keeps v y) : Keeps v (x >>= fun _ => y) :=
  hx.bind fun _ => hy

lemma get {f : σ → StateM σ β} (hf : ∀ s, Keeps v (f s)) : Keeps v (MonadState.get >>= f) :=
  fun s => hf s s

lemma ite {c : Prop} [Decidable c] {y : StateM σ α} (hx : Keeps v x) (hy : Keeps v y) :
    Keeps v (if c then x else y) := by
  split_ifs
  · exact hx
  · exact hy

/-- A branch on the state. -/
theorem test {c : σ → Prop} [DecidablePred c] {y : StateM σ α} (hx : Keeps v x) (hy : Keeps v y) :
    Keeps v (MonadState.get >>= fun s => if c s then x else y) :=
  get fun _ => ite hx hy

/-- What can be seen of a view is left alone as well. -/
theorem comp {δ : Type} (w : γ → δ) (hx : Keeps v x) : Keeps (fun s => w (v s)) x :=
  fun s => congrArg w (hx s)

end Keeps

/-! ### Invariants -/

/-- A program that preserves a property of the state. -/
def Preserves (I : σ → Prop) (x : StateM σ α) : Prop := ∀ s, I s → I (x s).2

namespace Preserves

variable {I : σ → Prop} {x : StateM σ α} {f : α → StateM σ β}

lemma pure (a : α) : Preserves I (pure a : StateM σ α) := fun _ h => h

lemma bind (hx : Preserves I x) (hf : ∀ a, Preserves I (f a)) : Preserves I (x >>= f) :=
  fun s h => hf _ _ (hx s h)

/-- Sequencing, when the first result is thrown away. -/
theorem seq {y : StateM σ β} (hx : Preserves I x) (hy : Preserves I y) :
    Preserves I (x >>= fun _ => y) :=
  hx.bind fun _ => hy

lemma get {f : σ → StateM σ β} (hf : ∀ s, Preserves I (f s)) : Preserves I (MonadState.get >>= f) :=
  fun s => hf s s

lemma modify {u : σ → σ} (h : ∀ s, I s → I (u s)) : Preserves I (modify u) := h

lemma ite {c : Prop} [Decidable c] {y : StateM σ α} (hx : Preserves I x) (hy : Preserves I y) :
    Preserves I (if c then x else y) := by
  split_ifs
  · exact hx
  · exact hy

/-- A branch on the state. -/
theorem test {c : σ → Prop} [DecidablePred c] {y : StateM σ α} (hx : Preserves I x)
    (hy : Preserves I y) : Preserves I (MonadState.get >>= fun s => if c s then x else y) :=
  get fun _ => ite hx hy

end Preserves

/-! ### Triples -/

/-- **The judgement**: `x` cannot make `G` true; and if it starts in a state with `P` and
ends in one with `G`, it ends in one with `Q`. -/
def Triple (G P : σ → Prop) (x : StateM σ α) (Q : α → σ → Prop) : Prop :=
  ∀ s, (G (x s).2 → G s) ∧ (P s → G (x s).2 → Q (x s).1 (x s).2)

namespace Triple

variable {G P P' : σ → Prop} {Q Q' : α → σ → Prop} {R : β → σ → Prop}
  {x y : StateM σ α} {f : α → StateM σ β}

lemma pure {a : α} (h : ∀ s, P s → Q a s) : Triple G P (pure a) Q :=
  fun s => ⟨id, fun hp _ => h s hp⟩

/-- **Sequencing.** The state in between is good because the last one is. -/
theorem bind (hx : Triple G P x Q) (hf : ∀ a, Triple G (Q a) (f a) R) : Triple G P (x >>= f) R := by
  intro s
  obtain ⟨hg, hq⟩ := hx s
  obtain ⟨hg', hr⟩ := hf (x s).1 (x s).2
  exact ⟨fun h => hg (hg' h), fun hp h => hr (hq hp (hg' h)) h⟩

/-- Sequencing, when the first result is thrown away. -/
theorem seq {T : σ → Prop} {y : StateM σ β} (hx : Triple G P x fun _ => T)
    (hy : Triple G T y R) : Triple G P (x >>= fun _ => y) R :=
  hx.bind fun _ => hy

/-- **Consequence.** -/
theorem imp (hx : Triple G P x Q) (hp : ∀ s, P' s → P s) (hq : ∀ a s, Q a s → Q' a s) :
    Triple G P' x Q' :=
  fun s => ⟨(hx s).1, fun h hg => hq _ _ ((hx s).2 (hp s h) hg)⟩

lemma pre (hx : Triple G P x Q) (hp : ∀ s, P' s → P s) : Triple G P' x Q :=
  hx.imp hp fun _ _ h => h

lemma post (hx : Triple G P x Q) (hq : ∀ a s, Q a s → Q' a s) : Triple G P x Q' :=
  hx.imp (fun _ h => h) hq

/-- An update of the state. -/
theorem modify {u : σ → σ} {Q : Unit → σ → Prop} (hg : ∀ s, G (u s) → G s)
    (h : ∀ s, P s → G (u s) → Q () (u s)) : Triple G P (modify u) Q :=
  fun s => ⟨hg s, h s⟩

/-- Looking at the state. -/
theorem get {f : σ → StateM σ β} (hf : ∀ t, Triple G (fun s => P s ∧ s = t) (f t) R) :
    Triple G P (MonadState.get >>= f) R :=
  fun s => ⟨((hf s) s).1, fun hp => ((hf s) s).2 ⟨hp, rfl⟩⟩

lemma ite {c : Prop} [Decidable c] (hx : c → Triple G P x Q) (hy : ¬c → Triple G P y Q) :
    Triple G P (if c then x else y) Q := by
  split_ifs with h
  · exact hx h
  · exact hy h

/-- **A branch on the state.** -/
theorem test {c : σ → Prop} [DecidablePred c] (hx : Triple G (fun s => P s ∧ c s) x Q)
    (hy : Triple G (fun s => P s ∧ ¬c s) y Q) :
    Triple G P (MonadState.get >>= fun s => if c s then x else y) Q := by
  refine get fun t => ite (fun h => hx.pre ?_) fun h => hy.pre ?_
  · rintro s ⟨hp, rfl⟩
    exact ⟨hp, h⟩
  · rintro s ⟨hp, rfl⟩
    exact ⟨hp, h⟩

/-- **What is true of a view** that is left alone stays true. -/
theorem of_keeps {v : σ → γ} {V : γ → Prop} (hx : Keeps v x)
    (hg : ∀ s t, v s = v t → G s → G t) : Triple G (fun s => V (v s)) x fun _ s => V (v s) :=
  fun s => ⟨hg _ _ (hx s), fun hp _ => (congrArg V (hx s)).mpr hp⟩

/-- The trivial past. -/
theorem of_forall (h : ∀ s, P s → Q (x s).1 (x s).2) : Triple (fun _ => True) P x Q :=
  fun s => ⟨fun _ => trivial, fun hp _ => h s hp⟩

lemma of_preserves (hx : Preserves P x) : Triple (fun _ => True) P x fun _ => P :=
  of_forall fun s hp => hx s hp

lemma forall_of (hx : Triple (fun _ => True) P x Q) {s : σ} (hp : P s) : Q (x s).1 (x s).2 :=
  (hx s).2 hp trivial

end Triple

end

/-! ### Two runs of one program -/

/-- **What to ask of a program**, in two runs side by side. -/
structure Twin (σ γ : Type) [AddCommMonoid γ] [PartialOrder γ] where
  /-- What a piece of program that costs so much may do. -/
  Step : γ → σ → σ → Prop
  /-- Two states that look alike, with so much still to spend. -/
  Sim : γ → σ → σ → Prop
  /-- A property of the past of a state. -/
  Good : σ → Prop
  refl : ∀ s, Step 0 s s
  trans : ∀ {m n s t u}, Step m s t → Step n t u → Step (m + n) s u
  mono : ∀ {m n s t}, m ≤ n → Step m s t → Step n s t
  sim_mono : ∀ {m n s t}, m ≤ n → Sim n s t → Sim m s t
  good : ∀ {n s t}, Step n s t → Good t → Good s

namespace Twin

variable {σ γ α β : Type} [AddCommMonoid γ] [PartialOrder γ] (L : Twin σ γ)

/-- **The judgement**: from a state with `P`, `x` ends in a state with `Q` and spends at
most `n`; and from a state that looks alike with `n` to spend, it returns the same value
and leaves a state that looks alike. -/
def Ok (P : σ → Prop) (n : γ) (x : StateM σ α) (Q : α → σ → Prop) : Prop :=
  ∀ s, P s → Q (x s).1 (x s).2 ∧ L.Step n s (x s).2 ∧
    ∀ m t, L.Sim (n + m) s t → L.Good (x s).2 → (x t).1 = (x s).1 ∧ L.Sim m (x s).2 (x t).2

variable {L} {P : σ → Prop} {Q : α → σ → Prop} {R : β → σ → Prop}

lemma Ok.pure {a : α} (h : ∀ s, P s → Q a s) : L.Ok P 0 (pure a) Q :=
  fun s hs => ⟨h s hs, L.refl s, fun m t hsim _ => ⟨rfl, by rw [zero_add] at hsim; exact hsim⟩⟩

variable {x : StateM σ α}

/-- **Sequencing**: the costs add up. -/
theorem Ok.bind {m n : γ} {f : α → StateM σ β}
    (hx : L.Ok P m x Q) (hf : ∀ a, L.Ok (Q a) n (f a) R) : L.Ok P (m + n) (x >>= f) R := by
  intro s hs
  obtain ⟨hq, hstep, hsim⟩ := hx s hs
  obtain ⟨hr, hstep', hsim'⟩ := hf _ _ hq
  refine ⟨hr, L.trans hstep hstep', fun k t ht hgood => ?_⟩
  rw [add_assoc] at ht
  -- the first half is good since the whole is
  obtain ⟨ha, ht'⟩ := hsim _ t ht (L.good hstep' hgood)
  obtain ⟨hb, ht''⟩ := hsim' _ _ ht' hgood
  rw [run_bind x f t, ha]
  exact ⟨hb, ht''⟩

lemma Ok.ite {n : γ} {y : StateM σ α} {c : Prop} [Decidable c]
    (hx : c → L.Ok P n x Q) (hy : ¬c → L.Ok P n y Q) : L.Ok P n (if c then x else y) Q := by
  split_ifs with hc
  · exact hx hc
  · exact hy hc

/-- A part of the precondition that says nothing of the state. -/
theorem Ok.of_and {n : γ} {p : Prop} (h : p → L.Ok P n x Q) : L.Ok (fun s => P s ∧ p) n x Q :=
  fun s hs => h hs.2 s hs.1

variable [IsOrderedAddMonoid γ]

/-- Less can be spent, and less said of the state. -/
theorem Ok.mono {m n : γ} {Q' : α → σ → Prop} (hx : L.Ok P m x Q) (hmn : m ≤ n)
    (hq : ∀ a s, Q a s → Q' a s) : L.Ok P n x Q' := by
  intro s hs
  obtain ⟨h, hstep, hsim⟩ := hx s hs
  exact ⟨hq _ _ h, L.mono hmn hstep, fun k t ht hgood =>
    hsim k t (L.sim_mono (add_le_add_left hmn k) ht) hgood⟩

end Twin

end Minibase
