import Minibase.Lib.Memory

/-!
# Programs that only look at a memory

A `Peek` computes a value from a memory and records which addresses it looked at; both are
compositional (`Peek.val_bind`, `Peek.mem_reads_bind`). Two memories that agree on the addresses
recorded give the same value, which is `Peek.Frugal`.
-/

namespace Minibase

/-- A read-only computation: its value, and the addresses it reads. -/
def Peek (α : Type) : Type := Mem → α × List ℕ

namespace Peek

variable {α β : Type}

/-- The value computed on a memory. -/
def val (x : Peek α) (m : Mem) : α := (x m).1

/-- The addresses read on a memory. -/
def reads (x : Peek α) (m : Mem) : List ℕ := (x m).2

instance : Monad Peek where
  pure a := fun _ => (a, [])
  bind x f := fun m => ((f (x m).1 m).1, (x m).2 ++ (f (x m).1 m).2)

variable (a : ℕ)

/-- Read one byte. -/
def byte : Peek UInt8 := fun m => (m a, [a])

/-- Read a byte from each of these addresses. -/
def gather (as : List ℕ) : Peek (List UInt8) := fun m => (as.map m, as)

/-- Read a 16-bit number. -/
def word : Peek ℕ := fun m => (m.get16 a, [a, a + 1])

variable {m : Mem} {x : Peek α} {f : α → Peek β}

-- these are true by `rfl`, but a simp set of `rfl` lemmas would rewrite the
-- condition of an `if` and leave its decision procedure behind
@[simp] lemma val_pure (a : α) (m : Mem) : val (pure a : Peek α) m = a := by
  simp only [val, pure]

@[simp] lemma val_bind : (x >>= f).val m = (f (x.val m)).val m := by
  simp only [val, bind]

@[simp] lemma val_byte (a : ℕ) (m : Mem) : (byte a).val m = m a := by
  simp only [val, byte]

@[simp] lemma val_gather (as : List ℕ) (m : Mem) : (gather as).val m = as.map m := by
  simp only [val, gather]

@[simp] lemma val_word (a : ℕ) (m : Mem) : (word a).val m = m.get16 a := by
  simp only [val, word]

@[simp] lemma val_ite (c : Prop) [Decidable c] (x y : Peek α) (m : Mem) :
    (if c then x else y).val m = if c then x.val m else y.val m := by
  split <;> rfl

@[simp] lemma reads_pure (a : α) (m : Mem) : reads (pure a : Peek α) m = [] := rfl

@[simp] lemma mem_reads_bind {a : ℕ} :
    a ∈ (x >>= f).reads m ↔ a ∈ x.reads m ∨ a ∈ (f (x.val m)).reads m :=
  List.mem_append

@[simp] lemma mem_reads_byte {a b : ℕ} : b ∈ (byte a).reads m ↔ b = a :=
  List.mem_singleton

@[simp] lemma mem_reads_word {a b : ℕ} : b ∈ (word a).reads m ↔ b = a ∨ b = a + 1 := by
  change b ∈ [a, a + 1] ↔ _
  simp

@[simp] lemma reads_ite (c : Prop) [Decidable c] (x y : Peek α) (m : Mem) :
    (if c then x else y).reads m = if c then x.reads m else y.reads m := by
  split <;> rfl

/-! ### Staying somewhere -/

/-- All addresses that are read are of some kind. -/
def Stays (P : ℕ → Prop) (x : Peek α) (m : Mem) : Prop := ∀ a ∈ x.reads m, P a

section Stays

variable {P : ℕ → Prop}

@[simp] lemma stays_pure (a : α) (m : Mem) : Stays P (pure a) m := fun _ h => nomatch h

@[simp] lemma stays_bind : Stays P (x >>= f) m ↔ Stays P x m ∧ Stays P (f (x.val m)) m := by
  simp only [Stays, mem_reads_bind, or_imp, forall_and]

@[simp] lemma stays_byte {a : ℕ} : Stays P (byte a) m ↔ P a := by
  simp only [Stays, mem_reads_byte, forall_eq]

@[simp] lemma stays_gather {as : List ℕ} : Stays P (gather as) m ↔ ∀ a ∈ as, P a := Iff.rfl

lemma Stays.mono {Q : ℕ → Prop} (h : Stays P x m) (hPQ : ∀ a, P a → Q a) : Stays Q x m :=
  fun a ha => hPQ a (h a ha)

end Stays

/-! ### Steps that may fail -/

section Fail

variable {ε : Type} {P : ℕ → Prop}

/-- The next step, unless this one fails. -/
def andThen (x : Peek (Except ε α)) (f : α → Peek (Except ε β)) : Peek (Except ε β) := do
  match ← x with
  | .error e => pure (.error e)
  | .ok a => f a

variable {x : Peek (Except ε α)} {f : α → Peek (Except ε β)}

/-- **Both steps have gone well.** -/
theorem val_andThen {b : β} :
    (x.andThen f).val m = .ok b ↔ ∃ a, x.val m = .ok a ∧ (f a).val m = .ok b := by
  rw [andThen, val_bind]
  rcases x.val m with e | a
  · exact ⟨(fun h => nomatch h), fun ⟨_, h, _⟩ => nomatch h⟩
  · exact ⟨fun h => ⟨a, rfl, h⟩, fun ⟨_, ha, h⟩ => by rwa [Except.ok.inj ha]⟩

/-- **The second step is only looked at if the first one goes well.** -/
theorem stays_andThen :
    Stays P (x.andThen f) m ↔ Stays P x m ∧ ∀ a, x.val m = .ok a → Stays P (f a) m := by
  rw [andThen, stays_bind]
  refine and_congr_right fun _ => ?_
  rcases x.val m with e | a
  · exact ⟨fun _ _ h => (nomatch h), fun _ => stays_pure _ _⟩
  · exact ⟨fun h b hb => by rwa [← Except.ok.inj hb], fun h => h a rfl⟩

end Fail

/-! ### The record is complete -/

/-- **Only the recorded addresses matter**: a memory that agrees there gives the same value, and
the same record. -/
def Frugal (x : Peek α) : Prop :=
  ∀ m m' : Mem, (∀ a ∈ x.reads m, m' a = m a) → x.val m' = x.val m ∧ x.reads m' = x.reads m

lemma frugal_pure (a : α) : Frugal (pure a : Peek α) := fun _ _ _ => ⟨rfl, rfl⟩

lemma frugal_byte : Frugal (byte a) := by
  intro m m' h
  refine ⟨?_, rfl⟩
  rw [val_byte, val_byte]
  exact h a (mem_reads_byte.mpr rfl)

lemma frugal_word : Frugal (word a) := by
  intro m m' h
  refine ⟨?_, rfl⟩
  rw [val_word, val_word]
  exact Mem.get16_congr (h a (mem_reads_word.mpr (.inl rfl)))
    (h (a + 1) (mem_reads_word.mpr (.inr rfl)))

lemma Frugal.bind (hx : Frugal x) (hf : ∀ v, Frugal (f v)) : Frugal (x >>= f) := by
  intro m m' h
  have h1 := hx m m' fun a ha => h a (mem_reads_bind.mpr (.inl ha))
  have h2 := hf (x.val m) m m' fun a ha => h a (mem_reads_bind.mpr (.inr ha))
  constructor
  · rw [val_bind, val_bind, h1.1]
    exact h2.1
  · change x.reads m' ++ (f (x.val m')).reads m' = x.reads m ++ (f (x.val m)).reads m
    rw [h1.1, h1.2, h2.2]

lemma Frugal.ite {c : Prop} [Decidable c] {y : Peek α} (hx : Frugal x) (hy : Frugal y) :
    Frugal (if c then x else y) := by
  split
  · exact hx
  · exact hy

end Peek

end Minibase
