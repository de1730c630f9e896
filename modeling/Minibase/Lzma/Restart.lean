import Minibase.Lzma.Invariant

/-!
# Decoding in pieces

A caller of `lzma_inflate` that supplies the input piece by piece and drains the output between
calls has to (`Lzma.Serves`) leave 64 bytes of input behind the high-water mark while there is
more to come, leave room for 300 bytes of output behind the other, and keep in front of `dstptr`
whatever the decoder still looks at. It then gets what a single call on the whole input would
have given (`Lzma.restart`). The single run is cut into turns of the loop (`Lzma.Leads`), and
each call of the run in pieces follows some of them (`Lzma.loop_sim`), also if `error` was set
in the very turn that went past the mark.
-/

namespace Minibase.Lzma

open List Mem

/-! ### Callers -/

/-- What a call returns. -/
def code (b : Buffers) (pz : Private) : Option ℕ := (lzmaInflate (enter b pz)).1

/-- What a call puts out. -/
def output (b : Buffers) (pz : Private) : List UInt8 :=
  (after b pz).dst.load b.dstptr ((after b pz).lz.dstptr - b.dstptr)

/-- How many bytes a call reads. -/
def consumed (b : Buffers) (pz : Private) : ℕ := (after b pz).lz.srcptr - b.srcptr

/-- What a sequence of calls puts out. -/
def outputs : Private → List Buffers → List UInt8
  | _, [] => []
  | pz, b :: bs => output b pz ++ outputs (after b pz) bs

/-- What the last of a sequence of calls returns. -/
def finalCode : Private → List Buffers → Option ℕ
  | _, [] => none
  | pz, [b] => code b pz
  | pz, b :: b' :: bs => finalCode (after b pz) (b' :: bs)

/-- **What a caller has to set up for a call**, when `rest` is the input not yet read and `out` the
output so far. -/
structure Supplies (rest out : List UInt8) (b : Buffers) : Prop where
  /-- The buffers are there. -/
  nonNull : NonNull b.toLz
  /-- The source has the next bytes of the input. -/
  input : b.src.load b.srcptr (b.srcend - b.srcptr) <+: rest
  /-- While input remains, there are 64 bytes behind the mark, and behind the pointer. -/
  margin : (b.srcptr + 64 ≤ b.srcend ∧ b.srchwm + 64 ≤ b.srcend) ∨
    b.src.load b.srcptr (b.srcend - b.srcptr) = rest
  /-- There is room for 300 bytes behind the mark, and behind the pointer. -/
  room : b.dstptr + 300 ≤ b.dstend ∧ b.dsthwm + 300 ≤ b.dstend
  /-- The window has the last bytes of the output. -/
  window : b.dst.load b.dstbuf (b.dstptr - b.dstbuf) <:+ out

/-- **What a caller has to do for a call.** -/
structure Serves (rest out : List UInt8) (pz : Private) (b : Buffers) : Prop
    extends Supplies rest out b where
  /-- Whatever the call looks at was kept. -/
  kept : ∀ e ∈ (after b pz).log, e.Kept

/-- What a caller has to do for each of a sequence of calls. -/
def ServesAll : List UInt8 → List UInt8 → Private → List Buffers → Prop
  | _, _, _, [] => True
  | rest, out, pz, b :: bs => Serves rest out pz b ∧
    ServesAll (rest.drop (consumed b pz)) (out ++ output b pz) (after b pz) bs

/-- **A single call on the whole input**, with no mark before the end of either buffer. -/
structure Whole (input : List UInt8) (w : Buffers) : Prop where
  nonNull : NonNull w.toLz
  srcptr : w.srcptr = w.srcbuf
  src : w.src.load w.srcbuf (w.srcend - w.srcbuf) = input
  srchwm : w.srcend ≤ w.srchwm
  dstptr : w.dstptr = w.dstbuf
  dsthwm : w.dstend ≤ w.dsthwm

/-! ### The single run, turn by turn -/

/-- The second is reached from the first by turns of the loop. -/
inductive Leads : Private → Private → Prop
  | refl (t : Private) : Leads t t
  | turn {t t' : Private} (he : t.error = 0) (h : Leads (turn t) t') : Leads t t'

lemma Leads.trans {t t' t'' : Private} (h : Leads t t') (h' : Leads t' t'') : Leads t t'' := by
  induction h with
  | refl t => exact h'
  | turn he _ ih => exact .turn he (ih h')

lemma Leads.sound {t t' : Private} (h : Leads t t') (ht : Sound t) :
    Sound t' ∧ ∃ n, Step n t t' := by
  induction h with
  | refl t => exact ⟨ht, _, Step.refl t⟩
  | turn he _ ih =>
    obtain ⟨hs, n, hstep⟩ := ih (ht.turn he)
    obtain ⟨-, -, hturn, -, -⟩ := turn_spec 0 ht.inv (ht.ok.resolve_left (not_not_intro he))
    exact ⟨hs, _, hturn.trans hstep⟩

/-- **With no marks to stop at**, the loop goes on until there is an error. -/
theorem Leads.loop {t t' : Private} (h : Leads t t') (he' : t'.error ≠ 0) (ht : Sound t)
    (hsrc : t.lz.srcend ≤ t.lz.srchwm) (hdst : t.lz.dstend ≤ t.lz.dsthwm) {fuel : ℕ}
    (hf : Fuel fuel t) : inflateLoop fuel t = (some t'.error, t') := by
  induction h generalizing fuel with
  | refl t =>
    obtain ⟨k, rfl⟩ : ∃ k, fuel = k + 1 := ⟨fuel - 1, by unfold Fuel at hf; omega⟩
    exact inflateLoop_of_error he' k
  | @turn t t' he _ ih =>
    obtain ⟨k, rfl⟩ : ∃ k, fuel = k + 1 := ⟨fuel - 1, by unfold Fuel at hf; omega⟩
    have hst := ht.ok.resolve_left (not_not_intro he)
    obtain ⟨hinv, -, hstep, -, -⟩ := turn_spec 0 ht.inv hst
    have hin := hinv.src_in.2
    have hin' := hinv.dst_in.2
    have hlz : (Lzma.turn t).lz.srcend = t.lz.srcend ∧ (Lzma.turn t).lz.srchwm = t.lz.srchwm ∧
        (Lzma.turn t).lz.dstend = t.lz.dstend ∧ (Lzma.turn t).lz.dsthwm = t.lz.dsthwm := by
      rw [hstep.lz]
      exact ⟨rfl, rfl, rfl, rfl⟩
    obtain ⟨h1, h2, h3, h4⟩ := hlz
    rw [inflateLoop_succ he hst ht.inv.pos, if_neg (by omega), if_neg (by omega)]
    exact ih he' (ht.turn he) (by omega) (by omega) (hf.turn ht he)

/-! ### One call of the run in pieces -/

/-- The input of both runs ends in the same place. -/
def SameEnd (s t : Private) : Prop :=
  s.lz.srcend + t.lz.srcptr = t.lz.srcend + s.lz.srcptr

/-- **A call follows the single run**, until a mark or an error. -/
theorem loop_sim {cap fuel c : ℕ} {s t : Private} (hs : Sound s) (ht : Sound t)
    (hsim : Sim cap (48, 273) s t) (hsrc : s.lz.srchwm + 48 ≤ s.lz.srcend ∨ SameEnd s t)
    (hdst : s.lz.dsthwm + 273 ≤ s.lz.dstend) (hf : Fuel fuel s)
    (hgood : Good cap (inflateLoop fuel s).2) (hc : (inflateLoop fuel s).1 = some c) :
    ∃ t', Leads t t' ∧ Sim cap 0 (inflateLoop fuel s).2 t' ∧
      (c = LZMA_NEED_INPUT ∨ c = LZMA_NEED_OUTPUT ∨ (c = t'.error ∧ c ≠ 0)) := by
  induction fuel generalizing s t with
  | zero =>
    unfold Fuel at hf
    omega
  | succ fuel ih =>
    by_cases he : s.error = 0
    · have hst := hs.ok.resolve_left (not_not_intro he)
      have he' : t.error = 0 := hsim.error ▸ he
      obtain ⟨hinv, -, hstep, -, hturn⟩ := turn_spec cap hs.inv hst
      obtain ⟨-, -, hstep', -, -⟩ := turn_spec cap ht.inv (ht.ok.resolve_left (not_not_intro he'))
      have hloop := inflateLoop_succ he hst hs.inv.pos fuel
      have hlz : (turn s).lz.srcend = s.lz.srcend ∧ (turn s).lz.srchwm = s.lz.srchwm ∧
          (turn s).lz.dstend = s.lz.dstend ∧ (turn s).lz.dsthwm = s.lz.dsthwm := by
        rw [hstep.lz]
        exact ⟨rfl, rfl, rfl, rfl⟩
      rw [hloop] at hgood hc ⊢
      split_ifs at hgood hc ⊢ with h1 h2
      · exact ⟨turn t, .turn he' (.refl _), hturn t hsim hgood, .inl (Option.some.inj hc).symm⟩
      · exact ⟨turn t, .turn he' (.refl _), hturn t hsim hgood,
          .inr (.inl (Option.some.inj hc).symm)⟩
      · -- neither mark was passed: the budget for the next turn is there again
        obtain ⟨-, -, -, n, hrest⟩ := loop_spec (hs.turn he) (hf.turn hs he)
        have hsim' := hturn t hsim ((twin cap).good hrest hgood)
        have hend : (turn t).lz.srcend = t.lz.srcend := by rw [hstep'.lz]
        have htk := hstep.taken
        have htk' := hstep'.taken
        have hcore := hsim.taken
        have hcore' := hsim'.taken
        have hsame : SameEnd s t → SameEnd (turn s) (turn t) := by
          unfold SameEnd
          omega
        obtain ⟨t', hlead, hres⟩ := ih (hs.turn he) (ht.turn he') { hsim' with
            margin := by
              rcases hsrc with h | h
              · exact .inl (by change (turn s).lz.srcptr + 48 ≤ _; omega)
              · exact .inr (hsame h)
            room := by
              change (turn s).lz.dstptr + 273 ≤ _
              omega }
          (by
            rcases hsrc with h | h
            · exact .inl (by omega)
            · exact .inr (hsame h))
          (by omega) (hf.turn hs he) hgood hc
        exact ⟨t', .turn he' hlead, hres⟩
    · rw [inflateLoop_of_error he] at hgood hc ⊢
      obtain rfl : s.error = c := Option.some.inj hc
      exact ⟨t, .refl t, (twin cap).sim_mono (by simp) hsim, .inr (.inr ⟨hsim.error, he⟩)⟩

/-! ### Between calls -/

/-- **The run in pieces is along the single run**: the first state is that of the decoder between
two calls, with `out` put out, and the second one that of the single run on `w`. -/
structure Along (w : Buffers) (out : List UInt8) (pz t : Private) : Prop where
  core : Core pz t
  rest : Rest pz
  inv : Inv 0 t
  lz : t.lz = { w.toLz with srcptr := w.srcbuf + t.taken, dstptr := w.dstbuf + t.total }
  src : t.src = w.src
  out : t.dst.load w.dstbuf t.total = out

section Along

variable {w b : Buffers} {input out : List UInt8} {pz t : Private}

lemma Along.rest_right (h : Along w out pz t) : Rest t := by
  obtain ⟨h1, h2, h3, h4⟩ := h.rest
  refine ⟨h.core.bm ▸ h1, h.core.posState ▸ h2, h.core.range ▸ h3, ?_⟩
  rw [← h.core.state, ← h.core.range, ← h.core.error]
  exact h4

lemma Along.total_eq (h : Along w out pz t) : pz.total = out.length := by
  rw [h.core.total, ← h.out, length_load]

lemma getElem?_load (m : Mem) {a n i : ℕ} (h : i < n) : (m.load a n)[i]? = some (m (a + i)) := by
  rw [getElem?_eq_getElem (by simpa using h), getElem_load]

/-- A call starts with two states that look alike. -/
theorem Along.sim (h : Along w out pz t) (hw : Whole input w)
    (hb : Serves (input.drop pz.taken) out pz b) :
    Sim (w.dstend - w.dstbuf) (52, 300) (enter b pz) t ∧
      (b.srchwm + 64 ≤ b.srcend ∨ SameEnd (enter b pz) t) := by
  have hsrc := b.src_in
  have hdst := b.dst_in
  have hwsrc := w.src_in
  have hwdst := w.dst_in
  have hin := h.inv.src_in
  have htk := h.core.taken
  have htot := h.core.total
  have h1 : t.lz.srcptr = w.srcbuf + t.taken := by rw [h.lz]
  have h2 : t.lz.srcend = w.srcend := by rw [h.lz]
  have h3 : t.lz.dstptr = w.dstbuf + t.total := by rw [h.lz]
  have h4 : t.lz.dstbuf = w.dstbuf := by rw [h.lz]
  have h5 : t.lz.dstend = w.dstend := by rw [h.lz]
  have hlen : input.length = w.srcend - w.srcbuf := by rw [← hw.src, length_load]
  have hpre := hb.input.length_le
  rw [length_load, length_drop] at hpre
  have hwin := hb.window.length_le
  rw [length_load, ← h.total_eq] at hwin
  -- all of the rest of the input is there
  have hsame : b.src.load b.srcptr (b.srcend - b.srcptr) = input.drop pz.taken →
      SameEnd (enter b pz) t := by
    intro heq
    have hl := congrArg length heq
    rw [length_load, length_drop] at hl
    change b.srcend + t.lz.srcptr = t.lz.srcend + b.srcptr
    omega
  refine ⟨⟨⟨h.core.state, h.core.posState, h.core.error, h.core.code, h.core.range, h.core.rep,
    h.core.bm, h.core.taken, h.core.total⟩, ?_, ?_, ?_, ?_, ?_, ?_, ?_⟩, ?_⟩
  · intro i hi
    change b.srcptr + i < b.srcend at hi
    change t.lz.srcptr + i < t.lz.srcend ∧ b.src (b.srcptr + i) = t.src (t.lz.srcptr + i)
    refine ⟨by omega, ?_⟩
    -- the byte is at the same place in the input
    have hget := prefix_iff_getElem?.mp hb.input i (by rw [length_load]; omega)
    rw [getElem?_drop, ← hw.src, getElem?_load _ (by omega), getElem_load] at hget
    rw [← Option.some.inj hget, h.src, h1, htk, add_assoc]
  · rcases hb.margin with hm | hm
    · exact .inl (by change b.srcptr + 52 ≤ b.srcend; omega)
    · exact .inr (hsame hm)
  · change b.dstptr + 300 ≤ b.dstend
    exact hb.room.1
  · change b.dstptr ≤ b.dstbuf + pz.total
    omega
  · intro i hi
    change b.dst (b.dstptr - 1 - i) = t.dst (t.lz.dstptr - 1 - i)
    change b.dstbuf + i < b.dstptr at hi
    have hget := (suffix_iff_getElem?.mp hb.window).2 (b.dstptr - 1 - i - b.dstbuf)
      (by rw [length_load]; omega)
    rw [getElem_load, length_load, ← h.total_eq, ← h.out,
      getElem?_load _ (by omega)] at hget
    have e1 : b.dstbuf + (b.dstptr - 1 - i - b.dstbuf) = b.dstptr - 1 - i := by omega
    have e2 : w.dstbuf + (b.dstptr - 1 - i - b.dstbuf + pz.total - (b.dstptr - b.dstbuf)) =
        t.lz.dstptr - 1 - i := by omega
    rw [e1, e2] at hget
    exact (Option.some.inj hget).symm
  · rw [h3, h4]
  · rw [h4, h5]
    omega
  · exact hb.margin.imp And.right hsame

/-- Once a call was made, `check_buffers` has nothing left to do. -/
theorem ready_of_sound {pz : Private} (h : Sound pz) : ready pz = pz :=
  if_pos (ne_of_lt h.begun)

/-- `check_buffers` makes a step, in which the first four bytes may be read. -/
theorem step_ready {pz : Private} (h : Inv 0 pz) : Step (4, 0) pz (ready pz) := by
  by_cases hst : pz.state = STATE_INITIAL
  · rw [ready, if_neg (not_not_intro hst)]
    obtain ⟨-, hstep, -⟩ := @keeps_initCode 0 0 4 0 pz h
    unfold primed
    generalize initCode 4 0 pz = r at hstep ⊢
    exact { hstep with }
  · rw [ready, if_pos hst]
    exact (twin 0).mono (by simp) (Step.refl pz)

variable {cap : ℕ}

lemma sim_primed {s t : Private} (hs : Inv 0 s) (h : Sim cap (52, 300) s t)
    (hgood : Good cap (primed s)) : Sim cap (48, 273) (primed s) (primed t) := by
  obtain ⟨-, -, hsim⟩ := @keeps_initCode cap 0 4 0 s hs
  have h' : Sim cap ((4, 0) + (48, 273)) s t := (twin cap).sim_mono (by decide) h
  replace hsim := hsim (48, 273) t h'
  unfold primed at hgood ⊢
  -- what the initial code is does not matter
  generalize initCode 4 0 s = r at hsim hgood ⊢
  generalize initCode 4 0 t = r' at hsim ⊢
  obtain ⟨hval, hsim'⟩ := hsim ⟨hgood.1, hgood.2⟩
  exact { hsim' with
    state := rfl
    code := hval.symm
    range := rfl }

/-- The loop of a call is a step, from where `check_buffers` leaves it. -/
theorem step_call (h : Rest pz) (hb : NonNull b.toLz) :
    Sound (after b pz) ∧ ∃ n, Step n (ready (enter b pz)) (after b pz) := by
  have hrest : Rest (enter b pz) := ⟨h.prob, h.pos, h.lt, h.started⟩
  have hafter : after b pz = _ := congrArg Prod.snd (@lzmaInflate_of_nonNull (enter b pz) hb)
  obtain ⟨-, -, hs, hstep⟩ := loop_spec (sound_ready hrest (h.enter b)) (.inr (le_refl _))
  rw [hafter]
  exact ⟨hs, hstep⟩

/-- A call puts out as many bytes as it moves its pointer. -/
theorem total_call (h : Rest pz) (hb : NonNull b.toLz) :
    (after b pz).total = pz.total + (output b pz).length := by
  obtain ⟨-, n, hstep⟩ := step_call h hb
  have hcall := (step_ready (h.enter b)).trans hstep
  have h1 := hcall.total
  have h2 := hcall.dstptr.1
  change (after b pz).total + b.dstptr = pz.total + (after b pz).lz.dstptr at h1
  change b.dstptr ≤ (after b pz).lz.dstptr at h2
  rw [output, length_load]
  omega

/-- `check_buffers` does the same in both runs. -/
theorem sim_ready {s t : Private} (hs : Inv 0 s) (h : Sim cap (52, 300) s t)
    (hgood : Good cap (ready s)) : Sim cap (48, 273) (ready s) (ready t) := by
  by_cases hst : s.state = STATE_INITIAL
  · have hst' : t.state = STATE_INITIAL := h.state ▸ hst
    rw [ready, if_neg (not_not_intro hst)] at hgood ⊢
    rw [ready, if_neg (not_not_intro hst')]
    exact sim_primed hs h hgood
  · have hst' : t.state ≠ STATE_INITIAL := h.state ▸ hst
    rw [ready, if_pos hst, ready, if_pos hst']
    exact (twin cap).sim_mono (by decide) h

lemma SameEnd.ready {n : ℕ × ℕ} {s t : Private} (hs : Inv 0 s) (ht : Inv 0 t)
    (h : Core s t) (h' : Sim cap n (ready s) (ready t)) (he : SameEnd s t) :
    SameEnd (ready s) (ready t) := by
  have hstep := step_ready hs
  have hstep' := step_ready ht
  have h1 : (Lzma.ready s).lz.srcend = s.lz.srcend := by rw [hstep.lz]
  have h2 : (Lzma.ready t).lz.srcend = t.lz.srcend := by rw [hstep'.lz]
  have h3 := hstep.taken
  have h4 := hstep'.taken
  have h5 := h.taken
  have h6 := h'.taken
  unfold SameEnd at he ⊢
  omega

/-- The output of both runs grows by the same bytes. -/
theorem load_append {m n : ℕ × ℕ} {s s' t' : Private} (hs : Inv 0 s)
    (hstep : Step m s s') (hstep' : Step n t t') (h : Sim cap 0 s t) (h' : Sim cap 0 s' t') :
    t'.dst.load t.lz.dstbuf t'.total =
      t.dst.load t.lz.dstbuf t.total ++ s'.dst.load s.lz.dstptr (s'.lz.dstptr - s.lz.dstptr) := by
  have hle := hstep.dstptr.1
  have htot := hstep.total
  have hin := hs.dst_in.1
  have hw := h.whole
  have hw' := h'.whole
  have hbuf : t'.lz.dstbuf = t.lz.dstbuf := by rw [hstep'.lz]
  have hbuf' : s'.lz.dstbuf = s.lz.dstbuf := by rw [hstep.lz]
  have h1 := h.total
  have h2 := h'.total
  have hsum : t'.total = t.total + (s'.lz.dstptr - s.lz.dstptr) := by omega
  rw [hsum, load_add]
  congr 1
  · refine map_congr_left fun i hi => hstep'.dst _ ?_
    have hi' := mem_range.mp hi
    omega
  · refine map_congr_left fun i hi => ?_
    have hi' := mem_range.mp hi
    have hwin := h'.window (s'.lz.dstptr - 1 - (s.lz.dstptr + i)) (by omega)
    have e1 : s'.lz.dstptr - 1 - (s'.lz.dstptr - 1 - (s.lz.dstptr + i)) =
      s.lz.dstptr + i := by omega
    have e2 : t'.lz.dstptr - 1 - (s'.lz.dstptr - 1 - (s.lz.dstptr + i)) =
        t.lz.dstbuf + t.total + i := by omega
    rw [e1, e2] at hwin
    exact hwin.symm

/-- **A call of the run in pieces goes some way along the single run**, and returns a mark or the
error of the single run. -/
theorem Along.call {c : ℕ} (h : Along w out pz t) (hw : Whole input w)
    (hb : Serves (input.drop pz.taken) out pz b)
    (hcap : (after b pz).total ≤ w.dstend - w.dstbuf) (hc : code b pz = some c) :
    ∃ t', Leads (ready t) t' ∧ Along w (out ++ output b pz) (after b pz) t' ∧
      (after b pz).taken = pz.taken + consumed b pz ∧
      (c = LZMA_NEED_INPUT ∨ c = LZMA_NEED_OUTPUT ∨ (c = t'.error ∧ c ≠ 0)) := by
  have hinv := h.rest.enter b
  have hrest : Rest (enter b pz) := ⟨h.rest.prob, h.rest.pos, h.rest.lt, h.rest.started⟩
  have hsound := sound_ready hrest hinv
  have hsound' := sound_ready h.rest_right h.inv
  obtain ⟨hsim, hmark⟩ := h.sim hw hb
  have hrun := @lzmaInflate_of_nonNull (enter b pz) hb.nonNull
  have hafter : after b pz = _ := congrArg Prod.snd hrun
  rw [code, hrun] at hc
  have hfuel : Fuel ((ready (enter b pz)).lz.dstend - (ready (enter b pz)).lz.dstptr + 2)
      (ready (enter b pz)) := .inr (le_refl _)
  obtain ⟨hsafter, n, hstep⟩ := step_call h.rest hb.nonNull
  have hgood : Good (w.dstend - w.dstbuf) (after b pz) := ⟨hcap, hb.kept⟩
  have hsim' := sim_ready hinv hsim ((twin _).good hstep hgood)
  have hready := step_ready hinv
  -- the marks are where the caller has set them
  have hsrc : (ready (enter b pz)).lz.srchwm + 48 ≤ (ready (enter b pz)).lz.srcend ∨
      SameEnd (ready (enter b pz)) (ready t) := by
    rcases hmark with hm | hm
    · rw [hready.lz]
      exact .inl (by change b.srchwm + 48 ≤ b.srcend; omega)
    · exact .inr (hm.ready hinv h.inv hsim.toCore hsim')
  have hdst : (ready (enter b pz)).lz.dsthwm + 273 ≤ (ready (enter b pz)).lz.dstend := by
    rw [hready.lz]
    change b.dsthwm + 273 ≤ b.dstend
    have := hb.room.2
    omega
  obtain ⟨t', hlead, hfin, hcode⟩ :=
    loop_sim hsound hsound' hsim' hsrc hdst hfuel (hafter ▸ hgood) hc
  rw [← hafter] at hfin
  obtain ⟨hst', k, hlstep⟩ := hlead.sound hsound'
  have hstepS := hready.trans hstep
  have hstepT := (step_ready h.inv).trans hlstep
  refine ⟨t', hlead, ⟨hfin.toCore, hsafter.rest, { hst'.inv with lo_le := Nat.zero_le _ }, ?_,
    hstepT.src.trans h.src, ?_⟩, ?_, hcode⟩
  · have h1 := hstepT.taken
    have h2 := hfin.whole
    have h3 : t'.lz.dstbuf = w.dstbuf := by rw [hstepT.lz, h.lz]
    have h4 : t.lz.srcptr = w.srcbuf + t.taken := by rw [h.lz]
    have h5 : t'.lz.srcptr = w.srcbuf + t'.taken := by omega
    rw [hstepT.lz, h.lz, h5, h2, h3]
  · have hload := load_append hinv hstepS hstepT ((twin _).sim_mono (by simp) hsim) hfin
    have h3 : t.lz.dstbuf = w.dstbuf := by rw [h.lz]
    rw [h3, h.out] at hload
    exact hload
  · have h1 := hstepS.taken
    have h2 := hstepS.srcptr.1
    change (after b pz).taken + b.srcptr = pz.taken + (after b pz).lz.srcptr at h1
    change b.srcptr ≤ (after b pz).lz.srcptr at h2
    rw [consumed]
    omega

end Along

/-! ### Any number of calls -/

/-- **The run in pieces ends as the single run does.** -/
theorem Along.calls {w : Buffers} {input : List UInt8} (hw : Whole input w) {calls : List Buffers}
    {out : List UInt8} {pz t : Private} {c : ℕ} (h : Along w out pz t)
    (hb : ServesAll (input.drop pz.taken) out pz calls)
    (hcap : (out ++ outputs pz calls).length ≤ w.dstend - w.dstbuf)
    (hc : finalCode pz calls = some c) (hfin : c ≠ LZMA_NEED_INPUT ∧ c ≠ LZMA_NEED_OUTPUT) :
    ∃ t', Leads (ready t) t' ∧ t'.error = c ∧ c ≠ 0 ∧
      t'.lz.dstptr = w.dstbuf + t'.total ∧
      t'.dst.load w.dstbuf t'.total = out ++ outputs pz calls := by
  induction calls generalizing out pz t with
  | nil => exact absurd hc (by simp [finalCode])
  | cons b calls ih =>
    obtain ⟨hserve, hrest⟩ := hb
    rw [outputs, ← append_assoc] at hcap
    -- the call returns something
    obtain ⟨c', hc', -, -⟩ := call_spec h.rest b
    have htotal : (after b pz).total ≤ w.dstend - w.dstbuf := by
      rw [total_call h.rest hserve.nonNull, h.total_eq, ← length_append]
      exact (length_append ▸ Nat.le_add_right _ _).trans hcap
    obtain ⟨t', hlead, halong, htaken, hcode⟩ := h.call hw hserve htotal hc'
    have hsound' := (hlead.sound (sound_ready h.rest_right h.inv)).1
    cases calls with
    | nil =>
      obtain rfl : c' = c := Option.mem_unique hc' hc
      obtain ⟨herr, hne⟩ := (hcode.resolve_left hfin.1).resolve_left hfin.2
      refine ⟨t', hlead, herr.symm, hne, ?_, ?_⟩
      · rw [halong.lz]
      · rw [halong.out, outputs, outputs, append_nil]
    | cons b' calls =>
      rw [drop_drop, ← htaken] at hrest
      obtain ⟨t'', hlead', hres⟩ := ih halong hrest hcap hc
      rw [ready_of_sound hsound', append_assoc] at *
      exact ⟨t'', hlead.trans hlead', hres⟩

/-! ### What was in the buffer does not matter -/

/-- The decoder with another `code` and `range`. -/
def withGarbage (code range : ℕ) (pz : Private) : Private :=
    { pz with code := code, range := range }

lemma getByte_withGarbage (code range : ℕ) (pz : Private) :
    getByte (withGarbage code range pz) =
      ((getByte pz).1, withGarbage code range (getByte pz).2) := by
  by_cases h : pz.lz.srcptr ≥ pz.lz.srcend
  · rw [getByte_of_ge h, @getByte_of_ge (withGarbage code range pz) h]
    rfl
  · rw [getByte_of_lt h, @getByte_of_lt (withGarbage code range pz) h]
    rfl

lemma initCode_withGarbage (code range i c : ℕ) (pz : Private) :
    initCode i c (withGarbage code range pz) =
      ((initCode i c pz).1, withGarbage code range (initCode i c pz).2) := by
  induction i generalizing c pz with
  | zero => rfl
  | succ i ih =>
    rw [initCode, run_bind, run_bind, getByte_withGarbage]
    exact ih _ _

/-- **The first call overwrites** what `init_private` has left as it was. -/
theorem ready_init (w : Buffers) (code range code' range' : UInt32) :
    ready (enter w (initPrivate code range)) = ready (enter w (initPrivate code' range')) := by
  have h : enter w (initPrivate code' range') =
      withGarbage code'.toNat range'.toNat (enter w (initPrivate code range)) := rfl
  have hst : ∀ c r, ready (enter w (initPrivate c r)) = primed (enter w (initPrivate c r)) :=
    fun c r => if_neg (not_not_intro rfl)
  rw [hst, hst, h, primed, primed, initCode_withGarbage]
  generalize initCode 4 0 (enter w (initPrivate code range)) = r
  rfl

/-- **Decoding in pieces is decoding in one go**: if the last of a sequence of calls, each served as
it should be, returns a code other than the two marks, then a single call on the whole input, with
room for the output, returns the same code and puts out the same bytes. -/
theorem restart (input : List UInt8) (calls : List Buffers) (w : Buffers) (c : ℕ)
    (code₀ range₀ code₁ range₁ : UInt32)
    (hb : ServesAll input [] (initPrivate code₀ range₀) calls)
    (hc : finalCode (initPrivate code₀ range₀) calls = some c)
    (hfin : c ≠ LZMA_NEED_INPUT ∧ c ≠ LZMA_NEED_OUTPUT)
    (hw : Whole input w)
    (hcap : (outputs (initPrivate code₀ range₀) calls).length ≤ w.dstend - w.dstbuf) :
    code w (initPrivate code₁ range₁) = some c ∧
      output w (initPrivate code₁ range₁) = outputs (initPrivate code₀ range₀) calls := by
  have hrest := rest_init code₀ range₀
  have hinv := hrest.enter w
  have halong : Along w [] (initPrivate code₀ range₀) (enter w (initPrivate code₀ range₀)) := by
    refine ⟨⟨rfl, rfl, rfl, rfl, rfl, rfl, rfl, rfl, rfl⟩, hrest, hinv, ?_, rfl, rfl⟩
    change w.toLz = { w.toLz with srcptr := w.srcbuf + 0, dstptr := w.dstbuf + 0 }
    rw [Nat.add_zero, Nat.add_zero, ← hw.srcptr, ← hw.dstptr]
  obtain ⟨t', hlead, herr, hne, hptr, hout⟩ := halong.calls hw hb hcap hc hfin
  -- the single call is the loop from there, which ends in the same state
  have hsound := sound_ready halong.rest_right hinv
  have hlz := (step_ready hinv).lz
  have hloop := hlead.loop (herr ▸ hne) hsound (by rw [hlz]; exact hw.srchwm)
    (by rw [hlz]; exact hw.dsthwm) (.inr (le_refl _))
  have hrun : lzmaInflate (enter w (initPrivate code₁ range₁)) = (some c, t') := by
    rw [@lzmaInflate_of_nonNull (enter w (initPrivate code₁ range₁)) hw.nonNull,
      ready_init w code₁ range₁ code₀ range₀, hloop, herr]
  refine ⟨congrArg Prod.fst hrun, ?_⟩
  have hafter : after w (initPrivate code₁ range₁) = t' := congrArg Prod.snd hrun
  rw [output, hafter, hw.dstptr, hptr, Nat.add_sub_cancel_left]
  exact hout

/-! ### A stream of literals -/

instance (lz : Lz) : Decidable (NonNull lz) := inferInstanceAs (Decidable (_ ∧ _))

instance (rest out : List UInt8) (b : Buffers) : Decidable (Supplies rest out b) :=
  decidable_of_iff
    (NonNull b.toLz ∧ b.src.load b.srcptr (b.srcend - b.srcptr) <+: rest ∧
      ((b.srcptr + 64 ≤ b.srcend ∧ b.srchwm + 64 ≤ b.srcend) ∨
        b.src.load b.srcptr (b.srcend - b.srcptr) = rest) ∧
      (b.dstptr + 300 ≤ b.dstend ∧ b.dsthwm + 300 ≤ b.dstend) ∧
      b.dst.load b.dstbuf (b.dstptr - b.dstbuf) <:+ out)
    ⟨fun ⟨h1, h2, h3, h4, h5⟩ => ⟨h1, h2, h3, h4, h5⟩,
      fun h => ⟨h.nonNull, h.input, h.margin, h.room, h.window⟩⟩

instance : (e : Event) → Decidable e.Kept
  | .look _ _ _ => inferInstanceAs (Decidable (_ → _))
  | .bit .. => inferInstanceAs (Decidable True)
  | .direct .. => inferInstanceAs (Decidable True)
  | .check .. => inferInstanceAs (Decidable True)
  | .read .. => inferInstanceAs (Decidable True)
  | .write .. => inferInstanceAs (Decidable True)
  | .copy .. => inferInstanceAs (Decidable True)

/-- A back-reference. -/
def Event.isCopy : Event → Bool
  | .copy _ _ => true
  | _ => false

/-- A stream of three literals. -/
def literals : List UInt8 := [0x40, 0x20, 0, 0, 0, 0]

/-- Buffers that hold all of the stream from `k` on, a window, and room for 400 bytes. -/
def buffers (k : Fin 7) (window : List UInt8) (hwm : ℕ) : Buffers where
  srcbuf := 1
  srcptr := 1 + k
  srchwm := 7
  srcend := 7
  dstbuf := 1
  dstptr := 1 + window.length
  dsthwm := hwm
  dstend := 1 + window.length + 400
  src := store (fun _ => 0) 1 literals
  dst := store (fun _ => 0) 1 window
  src_in := ⟨Nat.le_add_right _ _, by omega⟩
  dst_in := ⟨Nat.le_add_right _ _, by omega⟩

/-- Two calls, of which the first stops at the first byte and the second has it in the window. -/
theorem restart_literals :
    ServesAll literals [] (initPrivate 0 0) [buffers 0 [] 1, buffers 5 [128] 100] ∧
      code (buffers 0 [] 1000) (initPrivate 0 0) = some LZMA_INPUT_OVER ∧
      output (buffers 0 [] 1000) (initPrivate 0 0) =
        outputs (initPrivate 0 0) [buffers 0 [] 1, buffers 5 [128] 100] :=
  have hserve : ServesAll literals [] (initPrivate 0 0) [buffers 0 [] 1, buffers 5 [128] 100] :=
    ⟨⟨by decide +kernel, by decide +kernel⟩, ⟨by decide +kernel, by decide +kernel⟩, trivial⟩
  ⟨hserve, restart literals [buffers 0 [] 1, buffers 5 [128] 100]
    (buffers 0 [] 1000) LZMA_INPUT_OVER
    0 0 0 0 hserve (by decide +kernel) (by decide)
    ⟨by decide, rfl, by decide, by decide, rfl, by decide⟩ (by decide +kernel)⟩

/-- **The last byte is looked at even if nothing refers back to it**: it is the context of the next
literal. A caller that drains all of the output of a stream without back-references gets other
bytes. -/
theorem literals_need_context :
    (Supplies literals [] (buffers 0 [] 1) ∧
      Supplies (literals.drop (consumed (buffers 0 [] 1) (initPrivate 0 0)))
        (output (buffers 0 [] 1) (initPrivate 0 0)) (buffers 5 [] 100)) ∧
      ((∀ e ∈ (after (buffers 0 [] 1) (initPrivate 0 0)).log, e.isCopy = false) ∧
        (∀ e ∈ (after (buffers 5 [] 100) (after (buffers 0 [] 1) (initPrivate 0 0))).log,
          e.isCopy = false) ∧
        ∀ e ∈ (after (buffers 0 [] 1000) (initPrivate 0 0)).log, e.isCopy = false) ∧
      finalCode (initPrivate 0 0) [buffers 0 [] 1, buffers 5 [] 100] = some LZMA_INPUT_OVER ∧
      outputs (initPrivate 0 0) [buffers 0 [] 1, buffers 5 [] 100] ≠
        output (buffers 0 [] 1000) (initPrivate 0 0) := by
  decide +kernel

end Minibase.Lzma
