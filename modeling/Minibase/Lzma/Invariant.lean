import Minibase.Lzma.Symbol

/-!
# The invariant of the decoder, over whole runs

`lzma_inflate` may be called any number of times, on any input, with the caller free to
change every pointer and all the memory between two calls. `Lzma.Rest` is kept from call to call,
`Lzma.Inv` from turn to turn of the loop (`Lzma.loop_spec`). After every call, everything it did
was in order (`Lzma.inflate_safe`).
-/

namespace Minibase.Lzma

/-! ### One turn -/

/-- What a turn of the loop of `lzma_inflate` runs, in state `s` at position `p`. -/
def turnFrom (s p : ℕ) : Dec ℕ := do
  let _ ← rangeCheck s 12
  let _ ← rangeCheck p 4
  decSymbol s p

/-- A turn of the loop of `lzma_inflate`, up to the high-water tests. -/
def turn (pz : Private) : Private :=
  { (turnFrom pz.state pz.posState pz).2 with state := (turnFrom pz.state pz.posState pz).1 }

lemma fetch_run {α : Type} (f : Private → α) (pz : Private) : fetch f pz = (f pz, pz) := rfl

lemma rangeCheck_of_lt {i size : ℕ} (h : i < size) (pz : Private) :
    rangeCheck i size pz = (false, { pz with log := .check i size :: pz.log }) := by
  rw [rangeCheck, run_bind, if_pos h]
  rfl

variable {pz : Private}

lemma inflateLoop_of_error (he : pz.error ≠ 0) (fuel : ℕ) :
    inflateLoop (fuel + 1) pz = (some pz.error, pz) := by
  rw [inflateLoop, run_bind]
  exact congrFun (if_pos he) pz

/-- **The loop, a turn at a time**: while the indices are good, their tests do nothing. -/
theorem inflateLoop_succ (he : pz.error = 0) (hst : pz.state < 12) (hpos : pz.posState < 4)
    (fuel : ℕ) :
    inflateLoop (fuel + 1) pz =
      if (turn pz).lz.srcptr > (turn pz).lz.srchwm then (some LZMA_NEED_INPUT, turn pz)
      else if (turn pz).lz.dstptr > (turn pz).lz.dsthwm then (some LZMA_NEED_OUTPUT, turn pz)
      else inflateLoop fuel (turn pz) := by
  have hfrom : turnFrom pz.state pz.posState pz =
      decSymbol pz.state pz.posState
        { pz with log := .check pz.posState 4 :: .check pz.state 12 :: pz.log } := by
    rw [turnFrom, run_bind, rangeCheck_of_lt hst, run_bind, rangeCheck_of_lt hpos]
  rw [inflateLoop, run_bind]
  refine (congrFun (if_neg (not_not_intro he)) pz).trans ?_
  simp only [run_bind, fetch_run, rangeCheck_of_lt hst, rangeCheck_of_lt hpos, run_modify, run_get,
    if_neg Bool.false_ne_true, turn, hfrom]
  exact (run_ite _ _ _).trans (if_congr Iff.rfl rfl (run_ite _ _ _))

/-- **What one turn does.** -/
theorem turn_spec (cap : ℕ) (hinv : Inv full pz) (hst : pz.state < 12) :
    Inv full (turn pz) ∧ (turn pz).state < STATE_INITIAL ∧ Step (48, 273) pz (turn pz) ∧
      ((turn pz).error ≠ 0 ∨ ((turn pz).state < 12 ∧ pz.lz.dstptr < (turn pz).lz.dstptr)) ∧
      ∀ t, Sim cap (48, 273) pz t → Good cap (turn pz) → Sim cap 0 (turn pz) (turn t) := by
  have hsym : Symbol cap (0 + (0 + (48, 273))) (turnFrom pz.state pz.posState) :=
    Symbol.after (keeps_rangeCheck hst) fun _ _ =>
      Symbol.after (keeps_rangeCheck hinv.pos) fun _ _ => symbol_decSymbol hst hinv.pos
  have hturn := hsym.2 pz hinv
  obtain ⟨⟨hinv', hlt⟩, hstep, hsim⟩ := hsym.1 pz hinv
  unfold turn
  -- what was decoded does not matter from here on
  generalize hr : turnFrom pz.state pz.posState pz = r at hturn hinv' hlt hstep hsim ⊢
  refine ⟨{ hinv' with }, hlt, { hstep with }, hturn, fun t ht hg => ?_⟩
  replace hsim := hsim 0 t ht
  rw [← ht.state, ← ht.posState]
  generalize turnFrom pz.state pz.posState t = r' at hsim ⊢
  obtain ⟨hval, hsim'⟩ := hsim ⟨hg.1, hg.2⟩
  exact { hsim' with state := hval.symm }

/-! ### The loop -/

/-- The decoder is ready for a turn, or has failed. -/
structure Sound (pz : Private) : Prop where
  inv : Inv full pz
  begun : pz.state < STATE_INITIAL
  ok : pz.error ≠ 0 ∨ pz.state < 12

lemma Sound.turn (h : Sound pz) (he : pz.error = 0) : Sound (turn pz) := by
  obtain ⟨hinv, hlt, -, hturn, -⟩ := turn_spec 0 h.inv (h.ok.resolve_left (not_not_intro he))
  exact ⟨hinv, hlt, hturn.imp_right And.left⟩

/-- Enough fuel for the loop: room for every turn that is left, or one to see that there is none. -/
def Fuel (fuel : ℕ) (pz : Private) : Prop :=
  (pz.error ≠ 0 ∧ 1 ≤ fuel) ∨ pz.lz.dstend - pz.lz.dstptr + 2 ≤ fuel

/-- Each turn puts out a byte or sets `error`, so that fuel for the rest is left. -/
theorem Fuel.turn {fuel : ℕ} (h : Sound pz) (he : pz.error = 0) (hf : Fuel (fuel + 1) pz) :
    Fuel fuel (turn pz) := by
  have hst := h.ok.resolve_left (not_not_intro he)
  obtain ⟨hinv, -, hstep, hturn, -⟩ := turn_spec 0 h.inv hst
  have hend : (Lzma.turn pz).lz.dstend = pz.lz.dstend := by rw [hstep.lz]
  have hin := hinv.dst_in.2
  have hf' := hf.resolve_left fun h => h.1 he
  rcases hturn with herr | ⟨-, hlt⟩
  · exact .inl ⟨herr, by omega⟩
  · exact .inr (by omega)

/-- **The loop ends**, and keeps the invariant. -/
theorem loop_spec {fuel : ℕ} (h : Sound pz) (hfuel : Fuel fuel pz) :
    ∃ code, (inflateLoop fuel pz).1 = some code ∧ Sound (inflateLoop fuel pz).2 ∧
      ∃ n, Step n pz (inflateLoop fuel pz).2 := by
  induction fuel generalizing pz with
  | zero =>
    unfold Fuel at hfuel
    omega
  | succ fuel ih =>
    by_cases he : pz.error = 0
    · have hst := h.ok.resolve_left (not_not_intro he)
      obtain ⟨-, -, hstep, -, -⟩ := turn_spec 0 h.inv hst
      rw [inflateLoop_succ he hst h.inv.pos]
      split_ifs with h1 h2
      · exact ⟨_, rfl, h.turn he, _, hstep⟩
      · exact ⟨_, rfl, h.turn he, _, hstep⟩
      · obtain ⟨code, hcode, hs, n, hstep'⟩ := ih (h.turn he) (hfuel.turn h he)
        exact ⟨code, hcode, hs, _, hstep.trans hstep'⟩
    · rw [inflateLoop_of_error he]
      exact ⟨_, rfl, h, _, Step.refl _⟩

/-! ### Calls -/

/-- **What is kept from call to call.** Until the first call has read the initial code, the
range is whatever was in the buffer. -/
structure Rest (pz : Private) : Prop where
  prob : ∀ bm, Prob (pz.bm bm)
  pos : pz.posState < 4
  lt : pz.range < 0x100000000
  started : pz.state = STATE_INITIAL ∨
    (full ≤ pz.range ∧ pz.state < STATE_INITIAL ∧ (pz.error ≠ 0 ∨ pz.state < 12))

lemma Rest.enter (h : Rest pz) (b : Buffers) : Inv 0 (enter b pz) where
  prob := h.prob
  lo_le := Nat.zero_le _
  lt := h.lt
  pos := h.pos
  src_in := b.src_in
  dst_in := b.dst_in
  log := fun _ he => absurd he List.not_mem_nil

lemma Sound.rest (h : Sound pz) : Rest pz :=
  ⟨h.inv.prob, h.inv.pos, h.inv.lt, .inr ⟨h.inv.lo_le, h.begun, h.ok⟩⟩

lemma keeps_initCode {cap lo : ℕ} (i code : ℕ) :
    Keeps cap lo lo (i, 0) (initCode i code) fun _ => True := by
  induction i generalizing code with
  | zero => exact Keeps.pure trivial
  | succ i ih =>
    refine Keeps.mono_cost (m := (1, 0) + (i, 0)) ?_ (by simp [Prod.le_def]; omega)
    exact keeps_getByte.bind fun c _ => ih _

/-- The decoder after `check_buffers` has read the initial code. -/
def primed (pz : Private) : Private :=
  { (initCode 4 0 pz).2 with
    code := (initCode 4 0 pz).1
    state := STATE_LIT_LIT
    range := 0xFFFFFFFF }

/-- No pointer is `NULL`. -/
def NonNull (lz : Lz) : Prop :=
  (lz.srcbuf ≠ 0 ∧ lz.srcptr ≠ 0 ∧ lz.srcend ≠ 0) ∧ lz.dstbuf ≠ 0 ∧ lz.dstptr ≠ 0 ∧ lz.dstend ≠ 0

lemma checkBuffers_of_nonNull (h : NonNull pz.lz) :
    (checkBuffers pz).2 = if pz.state ≠ STATE_INITIAL then pz else primed pz := by
  obtain ⟨⟨h1, h2, h3⟩, h4, h5, h6⟩ := h
  have hsrc : ¬(pz.lz.srcbuf = 0 ∨ pz.lz.srcptr = 0 ∨ pz.lz.srcend = 0) := by
    rintro (h | h | h)
    · exact h1 h
    · exact h2 h
    · exact h3 h
  have hdst : ¬(pz.lz.dstbuf = 0 ∨ pz.lz.dstptr = 0 ∨ pz.lz.dstend = 0) := by
    rintro (h | h | h)
    · exact h4 h
    · exact h5 h
    · exact h6 h
  rw [checkBuffers, run_bind, run_get]
  simp only [if_neg hsrc, if_neg hdst]
  split_ifs
  · rfl
  · rw [run_bind, run_modify, primed]

lemma checkBuffers_of_null (h : ¬NonNull pz.lz) :
    ∃ err, (err = LZMA_INPUT_OVER ∨ err = LZMA_OUTPUT_OVER) ∧
      (checkBuffers pz).2 = { pz with error := err } := by
  by_cases hsrc : pz.lz.srcbuf = 0 ∨ pz.lz.srcptr = 0 ∨ pz.lz.srcend = 0
  · refine ⟨LZMA_INPUT_OVER, .inl rfl, ?_⟩
    rw [checkBuffers, run_bind, run_get]
    simp only [if_pos hsrc]
    rfl
  · have hdst : pz.lz.dstbuf = 0 ∨ pz.lz.dstptr = 0 ∨ pz.lz.dstend = 0 := by
      unfold NonNull at h
      tauto
    refine ⟨LZMA_OUTPUT_OVER, .inr rfl, ?_⟩
    rw [checkBuffers, run_bind, run_get]
    simp only [if_neg hsrc, if_pos hdst]
    rfl

/-- The initial code leaves the decoder ready to decode, unless the input was too short. -/
theorem sound_primed (h : Inv 0 pz) : Sound (primed pz) := by
  obtain ⟨⟨hinv, -⟩, -, -⟩ := @keeps_initCode 0 0 4 0 pz h
  unfold primed
  generalize initCode 4 0 pz = r at hinv ⊢
  refine ⟨{ hinv with lo_le := ?_, lt := ?_ }, ?_, .inr ?_⟩
  · exact (by decide : full ≤ 0xFFFFFFFF)
  · exact (by decide : 0xFFFFFFFF < 0x100000000)
  · exact (by decide : STATE_LIT_LIT < STATE_INITIAL)
  · exact (by decide : STATE_LIT_LIT < 12)

/-- What `check_buffers` makes of a decoder whose buffers are there. -/
def ready (pz : Private) : Private := if pz.state ≠ STATE_INITIAL then pz else primed pz

lemma sound_ready (h : Rest pz) (hinv : Inv 0 pz) : Sound (ready pz) := by
  by_cases hst : pz.state = STATE_INITIAL
  · rw [ready, if_neg (not_not_intro hst)]
    exact sound_primed hinv
  · rw [ready, if_pos hst]
    obtain ⟨hlo, hlt, hok⟩ := h.started.resolve_left hst
    exact ⟨{ hinv with lo_le := hlo }, hlt, hok⟩

/-- **A call on buffers that are there** is the loop, from where `check_buffers` leaves it. -/
theorem lzmaInflate_of_nonNull (h : NonNull pz.lz) :
    lzmaInflate pz = inflateLoop ((ready pz).lz.dstend - (ready pz).lz.dstptr + 2) (ready pz) := by
  rw [ready, ← checkBuffers_of_nonNull h]
  rfl

/-- **A call without buffers** does nothing but set `error`. -/
theorem lzmaInflate_of_null (h : ¬NonNull pz.lz) :
    ∃ err, (err = LZMA_INPUT_OVER ∨ err = LZMA_OUTPUT_OVER) ∧
      lzmaInflate pz = (some err, { pz with error := err }) := by
  obtain ⟨err, herr, hcheck⟩ := checkBuffers_of_null h
  have hne : ({ pz with error := err } : Private).error ≠ 0 := by
    rcases herr with rfl | rfl
    · exact (by decide : LZMA_INPUT_OVER ≠ 0)
    · exact (by decide : LZMA_OUTPUT_OVER ≠ 0)
  refine ⟨err, herr, ?_⟩
  rw [← inflateLoop_of_error hne, ← hcheck]
  rfl

/-- **A call keeps the invariant**, and returns. -/
theorem call_spec (h : Rest pz) (b : Buffers) :
    ∃ code, (lzmaInflate (enter b pz)).1 = some code ∧ Rest (after b pz) ∧ Inv 0 (after b pz) := by
  have hinv := h.enter b
  by_cases hnull : NonNull (enter b pz).lz
  · have hrest : Rest (enter b pz) := ⟨h.prob, h.pos, h.lt, h.started⟩
    have hsound := sound_ready hrest hinv
    obtain ⟨code, hcode, hs, -⟩ := loop_spec hsound (.inr (le_refl _))
    rw [after, lzmaInflate_of_nonNull hnull]
    exact ⟨code, hcode, hs.rest, { hs.inv with lo_le := Nat.zero_le _ }⟩
  · obtain ⟨err, herr, hrun⟩ := lzmaInflate_of_null hnull
    have herr : err ≠ 0 := by
      rcases herr with rfl | rfl
      · decide
      · decide
    rw [after, hrun]
    exact ⟨err, rfl, ⟨h.prob, h.pos, h.lt, h.started.imp_right fun hs => ⟨hs.1, hs.2.1, .inl herr⟩⟩,
      { hinv with }⟩

/-- **Everything a call did was in order**, and so is what it left. -/
structure Safe (pz : Private) : Prop where
  /-- Every decoding step, index test and access to a buffer. -/
  log : ∀ e ∈ pz.log, e.Ok
  /-- Every probability. -/
  prob : ∀ bm, 31 ≤ pz.bm bm ∧ pz.bm bm ≤ 2017
  /-- The source pointer. -/
  src_in : pz.lz.srcbuf ≤ pz.lz.srcptr ∧ pz.lz.srcptr ≤ pz.lz.srcend
  /-- The destination pointer. -/
  dst_in : pz.lz.dstbuf ≤ pz.lz.dstptr ∧ pz.lz.dstptr ≤ pz.lz.dstend

lemma rest_init (code range : UInt32) : Rest (initPrivate code range) :=
  ⟨fun _ => (by decide : 31 ≤ 1024 ∧ 1024 ≤ 2017), Nat.zero_lt_succ 3, range.toNat_lt, .inl rfl⟩

/-- The invariant, over any number of calls. -/
theorem history_safe (h : Rest pz) (calls : List Buffers) : ∀ pz' ∈ history pz calls, Safe pz' := by
  induction calls generalizing pz with
  | nil => exact fun pz' h' => absurd h' List.not_mem_nil
  | cons b calls ih =>
    obtain ⟨code, -, hrest, hinv⟩ := call_spec h b
    rintro pz' h'
    rcases List.mem_cons.mp h' with rfl | h'
    · exact ⟨hinv.log, hinv.prob, hinv.src_in, hinv.dst_in⟩
    · exact ih hrest pz' h'

/-- **The decoder is safe on every input**: over any number of calls on one stream, with any
input and any output size, every decoding step finds a range of at least `2^24` and leaves
one, every probability stays between 31 and 2017, every index is inside its array, every index
test succeeds, and the pointers stay inside their buffers. -/
theorem inflate_safe (code range : UInt32) (calls : List Buffers) :
    ∀ pz ∈ history (initPrivate code range) calls, Safe pz :=
  history_safe (rest_init code range) calls

/-- A stream of five bytes at address 16 and room for eight at address 64. -/
def sampleBuffers : Buffers where
  srcbuf := 16
  srcptr := 16
  srchwm := 21
  srcend := 21
  dstbuf := 64
  dstptr := 64
  dsthwm := 72
  dstend := 72
  src := fun _ => 0
  dst := fun _ => 0
  src_in := by decide
  dst_in := by decide

theorem inflate_safe_sample :
    history (initPrivate 0 0xFFFFFFFF) [sampleBuffers]
        = [after sampleBuffers (initPrivate 0 0xFFFFFFFF)] ∧
      Safe (after sampleBuffers (initPrivate 0 0xFFFFFFFF)) :=
  ⟨rfl, inflate_safe 0 0xFFFFFFFF [sampleBuffers] _ List.mem_cons_self⟩

end Minibase.Lzma
