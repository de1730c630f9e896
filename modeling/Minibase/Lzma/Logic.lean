import Mathlib.Algebra.Order.Group.Nat
import Minibase.Lib.Triple
import Minibase.Lzma.Decoder

/-!
# What the decoder may do

That the decoder stays inside its arrays and buffers, and that a run in pieces does what a run in
one go does, is answered function by function with one judgement (`Lzma.Keeps`), an instance of
`Twin.Ok`: the invariant is `Lzma.Inv`, what a piece of decoder may do is `Lzma.Step`, and a
decoder that sees part of the input looks like one that sees everything (`Lzma.Sim`). The cost is
bytes read and written.

This file has the primitives. Probabilities stay between 31 and 2017 under both updates, so both
parts of a range of at least `2^24` are at least `2^16`, and one byte brings either back
(`Lzma.dip_le_bound`).
-/

namespace Minibase.Lzma

open List Function

/-! ### The invariant -/

/-- A probability never leaves this interval, under either update. -/
def Prob (p : ℕ) : Prop := 31 ≤ p ∧ p ≤ 2017

/-- **What was done was in order**: the models and the reads and writes are inside their
arrays and buffers, index tests succeed, and a decoding step starts and ends with a range of
at least `2^24` and a probability that is never extreme. -/
def Event.Ok : Event → Prop
  | .bit bm range range' p p' => bm.Inside ∧ 0x1000000 ≤ range ∧ 0x1000000 ≤ range' ∧ Prob p ∧
    Prob p'
  | .direct range range' => 0x1000000 ≤ range ∧ 0x1000000 ≤ range'
  | .check i size => i < size
  | .read ptr buf fin => buf ≤ ptr ∧ ptr < fin
  | .write ptr buf fin => buf ≤ ptr ∧ ptr < fin
  | .look _ _ _ => True
  | .copy _ _ => True

/-- A look at a byte that was put out finds it in the window. -/
def Event.Kept : Event → Prop
  | .look i window total => i < total → i < window
  | _ => True

/-- **The invariant** of the decoder while it decodes, for a lower bound on the range: it
dips between an update and the normalization that follows. -/
structure Inv (lo : ℕ) (pz : Private) : Prop where
  prob : ∀ bm, Prob (pz.bm bm)
  lo_le : lo ≤ pz.range
  lt : pz.range < 0x100000000
  pos : pz.posState < 4
  src_in : pz.lz.srcbuf ≤ pz.lz.srcptr ∧ pz.lz.srcptr ≤ pz.lz.srcend
  dst_in : pz.lz.dstbuf ≤ pz.lz.dstptr ∧ pz.lz.dstptr ≤ pz.lz.dstend
  log : ∀ e ∈ pz.log, e.Ok

/-! ### Two runs -/

/-- **What a piece of the decoder may do**, when it reads at most `n.1` and writes at most
`n.2` bytes. -/
structure Step (n : ℕ × ℕ) (pz pz' : Private) : Prop where
  lz : pz'.lz = { pz.lz with srcptr := pz'.lz.srcptr, dstptr := pz'.lz.dstptr }
  src : pz'.src = pz.src
  srcptr : pz.lz.srcptr ≤ pz'.lz.srcptr ∧ pz'.lz.srcptr ≤ pz.lz.srcptr + n.1
  dstptr : pz.lz.dstptr ≤ pz'.lz.dstptr ∧ pz'.lz.dstptr ≤ pz.lz.dstptr + n.2
  taken : pz'.taken + pz.lz.srcptr = pz.taken + pz'.lz.srcptr
  total : pz'.total + pz.lz.dstptr = pz.total + pz'.lz.dstptr
  dst : ∀ i, i < pz.lz.dstptr → pz'.dst i = pz.dst i
  log : pz.log <:+ pz'.log
  error : pz.error ≠ 0 → pz'.error ≠ 0

/-- Two states of the same decoder, apart from its buffers. -/
structure Core (s t : Private) : Prop where
  state : s.state = t.state
  posState : s.posState = t.posState
  error : s.error = t.error
  code : s.code = t.code
  range : s.range = t.range
  rep : s.rep = t.rep
  bm : s.bm = t.bm
  taken : s.taken = t.taken
  total : s.total = t.total

/-- **Two states that look alike**: the same decoder, the input of the first a part of that of
the second, and the window of the first the end of all the output, which the second has. The
first has at least `n.1` bytes to read, unless the input of both ends there, and room to
write `n.2`. -/
structure Sim (cap : ℕ) (n : ℕ × ℕ) (s t : Private) : Prop extends Core s t where
  input : ∀ i, s.lz.srcptr + i < s.lz.srcend →
    t.lz.srcptr + i < t.lz.srcend ∧ s.src (s.lz.srcptr + i) = t.src (t.lz.srcptr + i)
  margin : s.lz.srcptr + n.1 ≤ s.lz.srcend ∨ s.lz.srcend + t.lz.srcptr = t.lz.srcend + s.lz.srcptr
  room : s.lz.dstptr + n.2 ≤ s.lz.dstend
  small : s.lz.dstptr ≤ s.lz.dstbuf + s.total
  window : ∀ i, s.lz.dstbuf + i < s.lz.dstptr →
    s.dst (s.lz.dstptr - 1 - i) = t.dst (t.lz.dstptr - 1 - i)
  whole : t.lz.dstptr = t.lz.dstbuf + t.total
  cap : t.lz.dstend = t.lz.dstbuf + cap

/-- **The two runs stay together**: no byte looked for was lost, and the output is not more
than `cap` bytes. -/
def Good (cap : ℕ) (pz : Private) : Prop := pz.total ≤ cap ∧ ∀ e ∈ pz.log, e.Kept

lemma Step.refl (pz : Private) : Step 0 pz pz :=
  ⟨rfl, rfl, ⟨le_refl _, le_refl _⟩, ⟨le_refl _, le_refl _⟩, rfl, rfl,
    fun _ _ => rfl, suffix_refl _, id⟩

lemma Step.trans {m n : ℕ × ℕ} {s t u : Private} (h : Step m s t) (h' : Step n t u) :
    Step (m + n) s u where
  lz := by rw [h'.lz, h.lz]
  src := h'.src.trans h.src
  srcptr := ⟨h.srcptr.1.trans h'.srcptr.1, by
    have h1 := h.srcptr.2
    have h2 := h'.srcptr.2
    rw [Prod.fst_add]
    omega⟩
  dstptr := ⟨h.dstptr.1.trans h'.dstptr.1, by
    have h1 := h.dstptr.2
    have h2 := h'.dstptr.2
    rw [Prod.snd_add]
    omega⟩
  taken := by
    have h1 := h.taken
    have h2 := h'.taken
    omega
  total := by
    have h1 := h.total
    have h2 := h'.total
    omega
  dst := fun i hi => (h'.dst i (lt_of_lt_of_le hi h.dstptr.1)).trans (h.dst i hi)
  log := h.log.trans h'.log
  error := fun he => h'.error (h.error he)

/-- The decoder in two runs, the second with `cap` bytes of room in all. -/
def twin (cap : ℕ) : Twin Private (ℕ × ℕ) where
  Step := Step
  Sim := Sim cap
  Good := Good cap
  refl := Step.refl
  trans := Step.trans
  mono hmn h := { h with
    srcptr := ⟨h.srcptr.1, h.srcptr.2.trans (Nat.add_le_add_left hmn.1 _)⟩
    dstptr := ⟨h.dstptr.1, h.dstptr.2.trans (Nat.add_le_add_left hmn.2 _)⟩ }
  sim_mono hmn h := { h with
    margin := h.margin.imp_left (Nat.add_le_add_left hmn.1 _).trans
    room := (Nat.add_le_add_left hmn.2 _).trans h.room }
  good h hg := ⟨by
    have h1 := h.total
    have h2 := h.dstptr.1
    have h3 := hg.1
    omega, fun e he => hg.2 e (h.log.subset he)⟩

/-! ### Rules -/

/-- The least range after a normalization. -/
def full : ℕ := 0x1000000

/-- The least range before one. -/
def dip : ℕ := 0x10000

/-- **The judgement**: `x` takes the invariant with one bound on the range to that with
another, at a cost of `n`, and returns a value with `V` – the same in both runs. -/
def Keeps (cap lo lo' : ℕ) (n : ℕ × ℕ) {α : Type} (x : Dec α) (V : α → Prop) : Prop :=
  (twin cap).Ok (Inv lo) n x fun a pz => Inv lo' pz ∧ V a

section Rules

variable {cap lo lo' lo₁ : ℕ} {m n : ℕ × ℕ} {α β : Type}

variable {V : α → Prop} {x : Dec α}

lemma Keeps.pure {a : α} (h : V a) : Keeps cap lo lo 0 (pure a) V :=
  Twin.Ok.pure fun _ hs => ⟨hs, h⟩

/-- Sequencing: the second program may use what is known of the value of the first. -/
theorem Keeps.bind {f : α → Dec β} {W : β → Prop} (hx : Keeps cap lo lo₁ m x V)
    (hf : ∀ a, V a → Keeps cap lo₁ lo' n (f a) W) : Keeps cap lo lo' (m + n) (x >>= f) W :=
  Twin.Ok.bind hx fun a => Twin.Ok.of_and (hf a)

lemma Keeps.ite {y : Dec α} {c : Prop} [Decidable c] (hx : c → Keeps cap lo lo' n x V)
    (hy : ¬c → Keeps cap lo lo' n y V) : Keeps cap lo lo' n (if c then x else y) V :=
  Twin.Ok.ite hx hy

lemma Keeps.mono {W : α → Prop} (hx : Keeps cap lo lo' m x V) (hmn : m ≤ n)
    (hvw : ∀ a, V a → W a) : Keeps cap lo lo' n x W :=
  Twin.Ok.mono hx hmn fun a _ h => ⟨h.1, hvw a h.2⟩

lemma Keeps.mono_cost (hx : Keeps cap lo lo' m x V) (hmn : m ≤ n) : Keeps cap lo lo' n x V :=
  hx.mono hmn fun _ h => h

lemma Keeps.weaken {W : α → Prop} (hx : Keeps cap lo lo' n x V) (hvw : ∀ a, V a → W a) :
    Keeps cap lo lo' n x W :=
  hx.mono (le_refl n) hvw

/-- Reading a field that both runs agree on. -/
theorem keeps_fetch {f : Private → α} (hsim : ∀ n s t, Sim cap n s t → f t = f s)
    (hv : ∀ s, Inv lo s → V (f s)) : Keeps cap lo lo 0 (fetch f) V :=
  fun s hs => ⟨⟨hs, hv s hs⟩, Step.refl s, fun m t ht _ =>
    ⟨hsim _ s t ht, by rw [zero_add] at ht; exact ht⟩⟩

lemma keeps_note {e : Event} (he : e.Ok) : Keeps cap lo lo 0 (note e) fun _ => True := by
  intro s hs
  refine ⟨⟨{ hs with log := ?_ }, trivial⟩, { Step.refl s with log := suffix_cons _ _ }, ?_⟩
  · rintro e' he'
    rcases mem_cons.mp he' with rfl | h
    · exact he
    · exact hs.log e' h
  · intro m t ht _
    rw [zero_add] at ht
    exact ⟨rfl, { ht with }⟩

lemma keeps_error {err : ℕ} (h : err ≠ 0) : Keeps cap lo lo 0 (error err) fun _ => True := by
  intro s hs
  refine ⟨⟨{ hs with }, trivial⟩, { Step.refl s with error := fun _ => h }, ?_⟩
  intro m t ht _
  rw [zero_add] at ht
  exact ⟨rfl, { ht with error := rfl }⟩

lemma keeps_setRep (f : (ℕ → ℕ) → ℕ → ℕ) : Keeps cap lo lo 0 (setRep f) fun _ => True := by
  intro s hs
  refine ⟨⟨{ hs with }, trivial⟩, { Step.refl s with }, ?_⟩
  intro m t ht _
  rw [zero_add] at ht
  exact ⟨rfl, { ht with rep := congrArg f ht.rep }⟩

end Rules

/-! ### Bytes in, bytes out -/

section Bytes

variable {cap lo : ℕ}

variable {pz : Private}

lemma getByte_of_ge (h : pz.lz.srcptr ≥ pz.lz.srcend) :
    getByte pz = (0, { pz with error := LZMA_INPUT_OVER }) := by
  simp only [getByte, run_bind]
  exact congrFun (if_pos h) pz

lemma getByte_of_lt (h : ¬pz.lz.srcptr ≥ pz.lz.srcend) :
    getByte pz = (pz.src pz.lz.srcptr, { pz with
        log := .read pz.lz.srcptr pz.lz.srcbuf pz.lz.srcend :: pz.log
        lz := { pz.lz with srcptr := pz.lz.srcptr + 1 }
        taken := pz.taken + 1 }) := by
  simp only [getByte, run_bind]
  exact congrFun (if_neg h) pz

lemma keeps_getByte : Keeps cap lo lo (1, 0) getByte fun _ => True := by
  intro s hs
  by_cases hend : s.lz.srcptr ≥ s.lz.srcend
  · rw [getByte_of_ge hend]
    refine ⟨⟨{ hs with }, trivial⟩, ?_, fun m t ht _ => ?_⟩
    · exact { Step.refl s with
        srcptr := ⟨le_refl _, Nat.le_add_right _ _⟩
        error := fun _ => (by decide : LZMA_INPUT_OVER ≠ 0) }
    · -- the input of the first run ends here, so that of the second does
      have hsrc := hs.src_in.2
      have hend' : t.lz.srcptr ≥ t.lz.srcend := by
        rcases ht.margin with h | h
        · rw [Prod.fst_add] at h
          omega
        · omega
      rw [getByte_of_ge hend']
      have hsim := (twin cap).sim_mono (m := m) (n := (1, 0) + m) (by simp) ht
      exact ⟨rfl, { hsim with error := rfl }⟩
  · rw [getByte_of_lt hend]
    have hsrc := hs.src_in
    refine ⟨⟨{ hs with src_in := ⟨?_, ?_⟩, log := ?_ }, trivial⟩, ?_, fun m t ht _ => ?_⟩
    · exact hsrc.1.trans (Nat.le_succ _)
    · exact Nat.lt_of_not_ge hend
    · rintro e he
      rcases mem_cons.mp he with rfl | h
      · exact ⟨hsrc.1, Nat.lt_of_not_ge hend⟩
      · exact hs.log e h
    · exact { Step.refl s with
        lz := rfl
        srcptr := ⟨Nat.le_succ _, le_refl _⟩
        taken := by
          change s.taken + 1 + s.lz.srcptr = s.taken + (s.lz.srcptr + 1)
          omega
        log := suffix_cons _ _ }
    · have h0 := ht.input 0 (by omega)
      rw [getByte_of_lt (by omega : ¬t.lz.srcptr ≥ t.lz.srcend)]
      refine ⟨h0.2.symm, { ht with
        taken := congrArg (· + 1) ht.taken, input := fun i hi => ?_, margin := ?_, room := ?_ }⟩
      · have h1 := ht.input (i + 1) (by change s.lz.srcptr + 1 + i < s.lz.srcend at hi; omega)
        have e1 : s.lz.srcptr + 1 + i = s.lz.srcptr + (i + 1) := by omega
        have e2 : t.lz.srcptr + 1 + i = t.lz.srcptr + (i + 1) := by omega
        change t.lz.srcptr + 1 + i < t.lz.srcend ∧
          s.src (s.lz.srcptr + 1 + i) = t.src (t.lz.srcptr + 1 + i)
        rw [e1, e2]
        exact h1
      · refine ht.margin.imp (fun h => ?_) fun h => ?_
        · rw [Prod.fst_add] at h
          change s.lz.srcptr + 1 + m.1 ≤ s.lz.srcend
          omega
        · change s.lz.srcend + (t.lz.srcptr + 1) = t.lz.srcend + (s.lz.srcptr + 1)
          omega
      · have h := ht.room
        rw [Prod.snd_add] at h
        change s.lz.dstptr + m.2 ≤ s.lz.dstend
        omega

lemma putByte_of_ge (h : pz.lz.dstptr ≥ pz.lz.dstend) (c : UInt8) :
    putByte c pz = ((), { pz with error := LZMA_OUTPUT_OVER }) := by
  simp only [putByte, run_bind]
  exact congrFun (if_pos h) pz

lemma putByte_of_lt (h : ¬pz.lz.dstptr ≥ pz.lz.dstend) (c : UInt8) : putByte c pz = ((), { pz with
        posState := (pz.posState + 1) &&& 3
        dst := update pz.dst pz.lz.dstptr c
        log := .write pz.lz.dstptr pz.lz.dstbuf pz.lz.dstend :: pz.log
        lz := { pz.lz with dstptr := pz.lz.dstptr + 1 }
        total := pz.total + 1 }) := by
  simp only [putByte, run_bind]
  exact congrFun (if_neg h) pz

lemma keeps_putByte (c : UInt8) : Keeps cap lo lo (0, 1) (putByte c) fun _ => True := by
  intro s hs
  by_cases hend : s.lz.dstptr ≥ s.lz.dstend
  · rw [putByte_of_ge hend]
    refine ⟨⟨{ hs with }, trivial⟩, ?_, fun m t ht _ => ?_⟩
    · exact { Step.refl s with
        dstptr := ⟨le_refl _, Nat.le_add_right _ _⟩
        error := fun _ => (by decide : LZMA_OUTPUT_OVER ≠ 0) }
    · have h := ht.room
      rw [Prod.snd_add] at h
      omega
  · rw [putByte_of_lt hend]
    have hdst := hs.dst_in
    refine ⟨⟨{ hs with pos := ?_, dst_in := ⟨?_, ?_⟩, log := ?_ }, trivial⟩, ?_,
      fun m t ht hg => ?_⟩
    · exact Nat.lt_succ_of_le Nat.and_le_right
    · exact hdst.1.trans (Nat.le_succ _)
    · exact Nat.lt_of_not_ge hend
    · rintro e he
      rcases mem_cons.mp he with rfl | h
      · exact ⟨hdst.1, Nat.lt_of_not_ge hend⟩
      · exact hs.log e h
    · exact { Step.refl s with
        lz := rfl
        dstptr := ⟨Nat.le_succ _, le_refl _⟩
        total := by
          change s.total + 1 + s.lz.dstptr = s.total + (s.lz.dstptr + 1)
          omega
        dst := fun i hi => update_of_ne (ne_of_lt hi) _ _
        log := suffix_cons _ _ }
    · -- the second run has room for as much as the first has put out
      have hcap : s.total + 1 ≤ cap := hg.1
      have hw := ht.whole
      have hc := ht.cap
      have htot := ht.total
      have hsm := ht.small
      rw [putByte_of_lt (by omega : ¬t.lz.dstptr ≥ t.lz.dstend)]
      refine ⟨rfl, { ht with
        posState := ?_, total := ?_, margin := ?_, room := ?_, small := ?_, window := ?_,
        whole := ?_ }⟩
      · exact congrArg (fun p => (p + 1) &&& 3) ht.posState
      · exact congrArg (· + 1) htot
      · refine ht.margin.imp (fun h => ?_) id
        rw [Prod.fst_add] at h
        change s.lz.srcptr + m.1 ≤ s.lz.srcend
        omega
      · have h := ht.room
        rw [Prod.snd_add] at h
        change s.lz.dstptr + 1 + m.2 ≤ s.lz.dstend
        omega
      · change s.lz.dstptr + 1 ≤ s.lz.dstbuf + (s.total + 1)
        omega
      · intro i hi
        change update s.dst s.lz.dstptr c (s.lz.dstptr + 1 - 1 - i)
          = update t.dst t.lz.dstptr c (t.lz.dstptr + 1 - 1 - i)
        change s.lz.dstbuf + i < s.lz.dstptr + 1 at hi
        rcases Nat.eq_zero_or_pos i with rfl | hpos
        · simp
        · have h := ht.window (i - 1) (by omega)
          have e1 : s.lz.dstptr + 1 - 1 - i = s.lz.dstptr - 1 - (i - 1) := by omega
          have e2 : t.lz.dstptr + 1 - 1 - i = t.lz.dstptr - 1 - (i - 1) := by omega
          rw [update_of_ne (by omega), update_of_ne (by omega), e1, e2]
          exact h
      · change t.lz.dstptr + 1 = t.lz.dstbuf + (t.total + 1)
        omega

/-- Looking back past the start of the buffer. It is an error, unless it is for the last byte. -/
theorem peekBack_of_le {i : ℕ} (h : pz.lz.dstptr ≤ pz.lz.dstbuf + i) : peekBack i pz = (0, { pz with
        log := .look i (pz.lz.dstptr - pz.lz.dstbuf) pz.total :: pz.log
        error := if i ≠ 0 then LZMA_INVALID_REF else pz.error }) := by
  simp only [peekBack, run_bind]
  refine (congrFun (if_pos (Or.inl ?_)) _).trans ?_
  · change (pz.lz.dstptr : ℤ) - i - 1 < pz.lz.dstbuf
    omega
  · by_cases h0 : i = 0
    · rw [if_neg (not_not_intro h0), if_neg (not_not_intro h0)]
      rfl
    · rw [if_pos h0, if_pos h0]
      rfl

lemma peekBack_of_lt {i : ℕ} (h : pz.lz.dstbuf + i < pz.lz.dstptr) :
    peekBack i pz = (pz.dst (pz.lz.dstptr - 1 - i),
      { pz with log := .look i (pz.lz.dstptr - pz.lz.dstbuf) pz.total :: pz.log }) := by
  have hto : ((pz.lz.dstptr : ℤ) - i - 1).toNat = pz.lz.dstptr - 1 - i := by omega
  simp only [peekBack, run_bind]
  refine (congrFun (if_neg ?_) _).trans ?_
  · change ¬((pz.lz.dstptr : ℤ) - i - 1 < pz.lz.dstbuf ∨ (pz.lz.dstptr : ℤ) - i - 1 ≥ pz.lz.dstptr)
    omega
  · rw [← hto]
    rfl

/-- **Looking back** finds the same byte in both runs, since it was not lost, or none. -/
theorem keeps_peekBack (i : ℕ) : Keeps cap lo lo 0 (peekBack i) fun _ => True := by
  intro s hs
  have hlog : ∀ e ∈ Event.look i (s.lz.dstptr - s.lz.dstbuf) s.total :: s.log, e.Ok := by
    rintro e he
    rcases mem_cons.mp he with rfl | h
    · trivial
    · exact hs.log e h
  rcases Nat.lt_or_ge (s.lz.dstbuf + i) s.lz.dstptr with hin | hout
  · rw [peekBack_of_lt hin]
    refine ⟨⟨{ hs with log := hlog }, trivial⟩, { Step.refl s with log := suffix_cons _ _ },
      fun m t ht _ => ?_⟩
    rw [zero_add] at ht
    have hw := ht.whole
    have htot := ht.total
    have hsm := ht.small
    rw [peekBack_of_lt (by omega : t.lz.dstbuf + i < t.lz.dstptr)]
    exact ⟨(ht.window i hin).symm, { ht with }⟩
  · rw [peekBack_of_le hout]
    refine ⟨⟨{ hs with log := hlog }, trivial⟩, { Step.refl s with
        log := suffix_cons _ _
        error := fun he => ?_ }, fun m t ht hg => ?_⟩
    · change (if i ≠ 0 then LZMA_INVALID_REF else s.error) ≠ 0
      split_ifs
      · decide
      · exact he
    · rw [zero_add] at ht
      have hkept : i < s.total → i < s.lz.dstptr - s.lz.dstbuf := hg.2 _ mem_cons_self
      have hw := ht.whole
      have htot := ht.total
      rw [peekBack_of_le (by omega : t.lz.dstptr ≤ t.lz.dstbuf + i)]
      exact ⟨rfl, { ht with error := by rw [ht.error] }⟩

end Bytes

/-! ### The range coder -/

section Coder

variable {cap lo : ℕ}

variable {p : ℕ}

/-- Neither update takes a probability out of its interval. -/
theorem prob_grow (h : Prob p) : Prob (u32 (p + sub32 2048 p >>> 5)) := by
  obtain ⟨h1, h2⟩ := h
  rw [sub32_of_le (by omega) (by omega), Nat.shiftRight_eq_div_pow, u32_of_lt (by omega)]
  exact ⟨by omega, by omega⟩

lemma prob_shrink (h : Prob p) : Prob (sub32 p (p >>> 5)) := by
  obtain ⟨h1, h2⟩ := h
  rw [Nat.shiftRight_eq_div_pow, sub32_of_le (by omega) (by omega)]
  exact ⟨by omega, by omega⟩

/-- **Both parts of a normalized range are at least `2^16`**, since no probability is
extreme. -/
theorem dip_le_bound {range : ℕ} (hr : full ≤ range) (hlt : range < 0x100000000) (hp : Prob p) :
    u32 ((range >>> 11) * p) = (range >>> 11) * p ∧ dip ≤ (range >>> 11) * p ∧
      (range >>> 11) * p + dip ≤ range := by
  obtain ⟨h1, h2⟩ := hp
  rw [Nat.shiftRight_eq_div_pow]
  have hq : 8192 ≤ range / 2 ^ 11 := by
    unfold full at hr
    omega
  have hle : range / 2 ^ 11 * 31 ≤ range / 2 ^ 11 * p := Nat.mul_le_mul_left _ h1
  have hge : range / 2 ^ 11 * p ≤ range / 2 ^ 11 * 2017 := Nat.mul_le_mul_left _ h2
  unfold dip
  exact ⟨u32_of_lt (by omega), by omega, by omega⟩

lemma inv_update {s : Private} (hs : Inv full s) (bm : Bitmodel) {range code : ℕ} (hp : Prob p)
    (hr : dip ≤ range) (hlt : range < 0x100000000) :
    Inv dip { s with range := range, code := code, bm := update s.bm bm p } := by
  refine { hs with prob := fun bm' => ?_, lo_le := hr, lt := hlt }
  change Prob (update s.bm bm p bm')
  rcases eq_or_ne bm' bm with rfl | hne
  · rw [update_self]
    exact hp
  · rw [update_of_ne hne]
    exact hs.prob bm'

lemma keeps_splitRange (bm : Bitmodel) :
    Keeps cap full dip 0 (splitRange bm) fun bit => bit = 0 ∨ bit = 1 := by
  intro s hs
  obtain ⟨hu, hdip, hsum⟩ := dip_le_bound hs.lo_le hs.lt (hs.prob bm)
  have hlt := hs.lt
  -- what the two branches do, for any state
  have hzero : ∀ pz : Private, pz.code < u32 ((pz.range >>> 11) * pz.bm bm) →
      splitRange bm pz = (0, { pz with
          range := u32 ((pz.range >>> 11) * pz.bm bm)
          code := pz.code
          bm := update pz.bm bm (u32 (pz.bm bm + sub32 2048 (pz.bm bm) >>> 5)) }) :=
    fun pz hpz => congrFun (if_pos hpz) pz
  have hone : ∀ pz : Private, ¬pz.code < u32 ((pz.range >>> 11) * pz.bm bm) →
      splitRange bm pz = (1, { pz with
          range := sub32 pz.range (u32 ((pz.range >>> 11) * pz.bm bm))
          code := pz.code - u32 ((pz.range >>> 11) * pz.bm bm)
          bm := update pz.bm bm (sub32 (pz.bm bm) (pz.bm bm >>> 5)) }) :=
    fun pz hpz => congrFun (if_neg hpz) pz
  by_cases hc : s.code < u32 ((s.range >>> 11) * s.bm bm)
  · rw [hzero s hc]
    refine ⟨⟨inv_update hs bm (prob_grow (hs.prob bm)) (by rw [hu]; exact hdip) ?_, .inl rfl⟩,
      { Step.refl s with }, fun m t ht _ => ?_⟩
    · rw [hu]
      omega
    · rw [zero_add] at ht
      rw [hzero t (by rw [← ht.code, ← ht.range, ← ht.bm]; exact hc)]
      exact ⟨rfl, { ht with
        range := by simp only [ht.range, ht.bm]
        bm := by simp only [ht.bm] }⟩
  · rw [hone s hc]
    refine ⟨⟨inv_update hs bm (prob_shrink (hs.prob bm)) ?_ ?_, .inr rfl⟩,
      { Step.refl s with }, fun m t ht _ => ?_⟩
    · rw [hu, sub32_of_le hlt (by omega)]
      omega
    · rw [hu, sub32_of_le hlt (by omega)]
      omega
    · rw [zero_add] at ht
      rw [hone t (by rw [← ht.code, ← ht.range, ← ht.bm]; exact hc)]
      exact ⟨rfl, { ht with
        range := by simp only [ht.range, ht.bm]
        code := by simp only [ht.range, ht.bm, ht.code]
        bm := by simp only [ht.bm] }⟩

lemma keeps_halveRange : Keeps cap full dip 0 halveRange fun bit => bit = 0 ∨ bit = 1 := by
  intro s hs
  have hlo := hs.lo_le
  have hlt := hs.lt
  have hhalf : dip ≤ s.range >>> 1 ∧ s.range >>> 1 < 0x100000000 := by
    rw [Nat.shiftRight_eq_div_pow]
    unfold full at hlo
    unfold dip
    exact ⟨by omega, by omega⟩
  have hone : ∀ pz : Private, pz.code ≥ pz.range >>> 1 →
      halveRange pz = (1, { pz with range := pz.range >>> 1, code := pz.code - pz.range >>> 1 }) :=
    fun pz hpz => congrFun (if_pos hpz) pz
  have hzero : ∀ pz : Private, ¬pz.code ≥ pz.range >>> 1 →
      halveRange pz = (0, { pz with range := pz.range >>> 1 }) :=
    fun pz hpz => congrFun (if_neg hpz) pz
  by_cases hc : s.code ≥ s.range >>> 1
  · rw [hone s hc]
    refine ⟨⟨{ hs with lo_le := hhalf.1, lt := hhalf.2 }, .inr rfl⟩, { Step.refl s with },
      fun m t ht _ => ?_⟩
    rw [zero_add] at ht
    rw [hone t (by rw [← ht.code, ← ht.range]; exact hc)]
    exact ⟨rfl, { ht with
      range := by simp only [ht.range]
      code := by simp only [ht.range, ht.code] }⟩
  · rw [hzero s hc]
    refine ⟨⟨{ hs with lo_le := hhalf.1, lt := hhalf.2 }, .inl rfl⟩, { Step.refl s with },
      fun m t ht _ => ?_⟩
    rw [zero_add] at ht
    rw [hzero t (by rw [← ht.code, ← ht.range]; exact hc)]
    exact ⟨rfl, { ht with range := by simp only [ht.range] }⟩

/-- **One byte of normalization is enough.** -/
theorem keeps_normalize : Keeps cap dip full (1, 0) normalize fun _ => True := by
  have hskip : ∀ pz : Private, pz.range > 0x00FFFFFF → normalize pz = ((), pz) :=
    fun pz hpz => congrFun (if_pos hpz) pz
  have hread : ∀ pz : Private, ¬pz.range > 0x00FFFFFF → normalize pz = ((), { (getByte pz).2 with
        range := u32 ((getByte pz).2.range <<< 8)
        code := u32 ((getByte pz).2.code <<< 8) ||| (getByte pz).1.toNat }) :=
    fun pz hpz => congrFun (if_neg hpz) pz
  intro s hs
  by_cases hr : s.range > 0x00FFFFFF
  · rw [hskip s hr]
    refine ⟨⟨{ hs with lo_le := hr }, trivial⟩,
      (twin cap).mono (by simp) (Step.refl s), fun m t ht _ => ?_⟩
    rw [hskip t (by rw [← ht.range]; exact hr)]
    exact ⟨rfl, (twin cap).sim_mono (by simp) ht⟩
  · rw [hread s hr]
    obtain ⟨⟨hinv, -⟩, hstep, hsim⟩ := @keeps_getByte cap dip s hs
    have hrange : (getByte s).2.range = s.range := by
      by_cases hend : s.lz.srcptr ≥ s.lz.srcend
      · rw [getByte_of_ge hend]
      · rw [getByte_of_lt hend]
    have hlo := hs.lo_le
    have hshift : u32 (s.range <<< 8) = s.range * 256 := by
      rw [Nat.shiftLeft_eq]
      exact u32_of_lt (by omega)
    refine ⟨⟨{ hinv with lo_le := ?_, lt := ?_ }, trivial⟩, { hstep with }, fun m t ht hg => ?_⟩
    · change full ≤ u32 ((getByte s).2.range <<< 8)
      rw [hrange, hshift]
      unfold dip at hlo
      unfold full
      omega
    · change u32 ((getByte s).2.range <<< 8) < 0x100000000
      rw [hrange, hshift]
      omega
    · rw [hread t (by rw [← ht.range]; exact hr)]
      obtain ⟨hval, hsim'⟩ := hsim m t ht ⟨hg.1, hg.2⟩
      exact ⟨rfl, { hsim' with
        range := by simp only [hsim'.range]
        code := by simp only [hsim'.code, hval] }⟩

/-- **One step of the range coder.** -/
theorem keeps_decBit {bm : Bitmodel} (hbm : bm.Inside) :
    Keeps cap full full (1, 0) (decBit bm) fun bit => bit = 0 ∨ bit = 1 := by
  have hrange : Keeps cap full full 0 (fetch (·.range)) (full ≤ ·) :=
    keeps_fetch (fun _ _ _ h => h.range.symm) fun _ h => h.lo_le
  have hprob : Keeps cap full full 0 (fetch (·.bm bm)) Prob :=
    keeps_fetch (fun _ _ _ h => by rw [h.bm]) fun _ h => h.prob bm
  refine Keeps.mono_cost (m := 0 + (0 + (0 + ((1, 0) + (0 + (0 + (0 + 0))))))) ?_ (by decide)
  refine hrange.bind fun range hr => hprob.bind fun p hp => ?_
  refine (keeps_splitRange bm).bind fun bit hbit => keeps_normalize.bind fun _ _ => ?_
  refine hrange.bind fun range' hr' => hprob.bind fun p' hp' => ?_
  exact (keeps_note (e := .bit ..) ⟨hbm, hr, hr', hp, hp'⟩).bind fun _ _ => Keeps.pure hbit

lemma keeps_directBit : Keeps cap full full (1, 0) directBit fun bit => bit = 0 ∨ bit = 1 := by
  have hrange : Keeps cap full full 0 (fetch (·.range)) (full ≤ ·) :=
    keeps_fetch (fun _ _ _ h => h.range.symm) fun _ h => h.lo_le
  refine Keeps.mono_cost (m := 0 + (0 + ((1, 0) + (0 + (0 + 0))))) ?_ (by decide)
  refine hrange.bind fun range hr => keeps_halveRange.bind fun bit hbit => ?_
  refine keeps_normalize.bind fun _ _ => hrange.bind fun range' hr' => ?_
  exact (keeps_note (e := .direct ..) ⟨hr, hr'⟩).bind fun _ _ => Keeps.pure hbit

/-- **An index test that succeeds.** -/
theorem keeps_rangeCheck {i size : ℕ} (h : i < size) :
    Keeps cap lo lo 0 (rangeCheck i size) (· = false) := by
  refine Keeps.mono_cost (m := 0 + 0) ?_ (by decide)
  refine (keeps_note (e := .check i size) h).bind fun _ _ => ?_
  rw [if_pos h]
  exact Keeps.pure rfl

end Coder

end Minibase.Lzma
