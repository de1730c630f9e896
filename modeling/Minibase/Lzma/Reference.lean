import Minibase.Lzma.Restart

/-!
# Where back-references lead

A reference past `dstbuf` is to end in `LZMA_INVALID_REF`. The function that looks back is also
used for the context of a literal, and it tells the two apart by the distance: a look at the very
last byte is never an error. So a match with distance register zero in an empty window copies a
byte that is not there (`Lzma.blank_reference`). This is the only way: otherwise what a run
copies is in the window if it gets to the end of the stream, and a reference that leads out of it
is reported (`Lzma.references`). In the log, a copied byte is a look directly followed by a
write.
-/

namespace Minibase.Lzma

open List Option Triple

/-! ### What is asked -/

/-- **A byte was copied**, from `i + 1` back, when there were `w` bytes in the window. -/
def Copied (log : List Event) (i w : ℕ) : Prop :=
  ∃ ptr buf fin total, [Event.write ptr buf fin, .look i w total] <:+: log

/-- **A copy was begun**, from `i + 1` back, when there were `w` bytes in the window. -/
def Refers (log : List Event) (i w : ℕ) : Prop :=
  ∃ n total, [Event.look i w total, .copy i n] <:+: log

/-- In a run, every byte copied was in the window. -/
def Inside (pz : Private) (calls : List Buffers) : Prop :=
  ∀ pz' ∈ history pz calls, ∀ i w, Copied pz'.log i w → i < w

/-- **The case that goes wrong**: in a run, a byte is copied with distance register zero when there
is none in the window. -/
def Blank (pz : Private) (calls : List Buffers) : Prop :=
  ∃ pz' ∈ history pz calls, Copied pz'.log 0 0

/-- The decoder has given up: on a reference, or because what it copies does not fit. -/
def Fatal (pz : Private) : Prop :=
  pz.error = LZMA_INVALID_REF ∨ (pz.error = LZMA_OUTPUT_OVER ∧ pz.lz.dstend ≤ pz.lz.dstptr)

/-- It has given up, and any further call says so. -/
def Reported (pz : Private) : Prop :=
  Fatal pz ∧ ∀ b : Buffers, NonNull b.toLz → code b pz = some pz.error

/-! ### What the log says -/

/-- An event that is not part of a copy. -/
def Event.Plain : Event → Prop
  | .write _ _ _ => False
  | .look _ _ _ => False
  | .copy _ _ => False
  | _ => True

variable {log : List Event} {e : Event} {i w : ℕ}

lemma infix_pair_cons {a b x : Event} :
    [a, b] <:+: x :: log ↔ (a = x ∧ log.head? = some b) ∨ [a, b] <:+: log := by
  rw [infix_cons_iff]
  refine or_congr_left ?_
  rw [cons_prefix_cons]
  refine and_congr_right fun _ => ?_
  obtain _ | ⟨y, log⟩ := log
  · simp
  · rw [cons_prefix_cons, head?_cons, some_inj, eq_comm]
    simp

lemma copied_cons_of (h : ∀ ptr buf fin, e ≠ .write ptr buf fin) :
    Copied (e :: log) i w ↔ Copied log i w := by
  constructor
  · rintro ⟨ptr, buf, fin, total, hin⟩
    rcases infix_pair_cons.mp hin with ⟨rfl, -⟩ | hin
    · exact absurd rfl (h ptr buf fin)
    · exact ⟨ptr, buf, fin, total, hin⟩
  · rintro ⟨ptr, buf, fin, total, hin⟩
    exact ⟨ptr, buf, fin, total, infix_pair_cons.mpr (.inr hin)⟩

lemma copied_write_cons {ptr buf fin : ℕ} : Copied (.write ptr buf fin :: log) i w ↔
    (∃ total, log.head? = some (.look i w total)) ∨ Copied log i w := by
  constructor
  · rintro ⟨ptr', buf', fin', total, hin⟩
    rcases infix_pair_cons.mp hin with ⟨-, h⟩ | hin
    · exact .inl ⟨total, h⟩
    · exact .inr ⟨ptr', buf', fin', total, hin⟩
  · rintro (⟨total, h⟩ | ⟨ptr', buf', fin', total, hin⟩)
    · exact ⟨ptr, buf, fin, total, infix_pair_cons.mpr (.inl ⟨rfl, h⟩)⟩
    · exact ⟨ptr', buf', fin', total, infix_pair_cons.mpr (.inr hin)⟩

lemma refers_cons_of (h : ∀ i w total, e ≠ .look i w total) :
    Refers (e :: log) i w ↔ Refers log i w := by
  constructor
  · rintro ⟨n, total, hin⟩
    rcases infix_pair_cons.mp hin with ⟨rfl, -⟩ | hin
    · exact absurd rfl (h i w total)
    · exact ⟨n, total, hin⟩
  · rintro ⟨n, total, hin⟩
    exact ⟨n, total, infix_pair_cons.mpr (.inr hin)⟩

lemma refers_look_cons {i' w' total : ℕ} (h : Refers (.look i' w' total :: log) i w) :
    (i = i' ∧ w = w' ∧ ∃ n, log.head? = some (.copy i n)) ∨ Refers log i w := by
  obtain ⟨n, total', hin⟩ := h
  rcases infix_pair_cons.mp hin with ⟨he, hh⟩ | hin
  · obtain ⟨rfl, rfl, -⟩ := Event.look.inj he
    exact .inl ⟨rfl, rfl, n, hh⟩
  · exact .inr ⟨n, total', hin⟩

/-- **What was copied was in the window**, and so was where a copy began, but for the case that
goes wrong, and unless `bad`. -/
structure Fine (log : List Event) (bad : Prop) : Prop where
  copied : ∀ i w, Copied log i w → i < w ∨ (i = 0 ∧ w = 0) ∨ bad
  refers : ∀ i w, Refers log i w → i < w ∨ Copied log 0 0 ∨ bad

lemma fine_nil (bad : Prop) : Fine [] bad :=
  ⟨fun _ _ ⟨_, _, _, _, h⟩ => absurd h.length_le (by simp),
    fun _ _ ⟨_, _, h⟩ => absurd h.length_le (by simp)⟩

variable {bad : Prop} {pz : Private}

lemma Fine.imp {bad' : Prop} (h : Fine log bad) (hb : bad → bad') : Fine log bad' :=
  ⟨fun i w hc => (h.copied i w hc).imp_right (Or.imp_right hb),
    fun i w hr => (h.refers i w hr).imp_right (Or.imp_right hb)⟩

lemma Fine.cons (h : Fine log bad) (h1 : ∀ ptr buf fin, e ≠ .write ptr buf fin)
    (h2 : ∀ i w total, e ≠ .look i w total) : Fine (e :: log) bad where
  copied i w hc := h.copied i w ((copied_cons_of h1).mp hc)
  refers i w hr := by
    rw [copied_cons_of h1]
    exact h.refers i w ((refers_cons_of h2).mp hr)

lemma Fine.cons_plain (h : Fine log bad) (he : e.Plain) : Fine (e :: log) bad :=
  h.cons (by rintro ptr buf fin rfl; exact he) (by rintro i w total rfl; exact he)

/-! ### Decoding bits -/

/-- Nothing is wrong, and the last thing done is not part of a copy. -/
def Calm (pz : Private) : Prop := Fine pz.log False ∧ ∀ e ∈ pz.log.head?, e.Plain

/-- Nothing is wrong that was not noticed. -/
def Judged (pz : Private) : Prop := Fine pz.log (Fatal pz)

/-- The judgement: from a state with `P` to one with `Q`, whatever happened. -/
abbrev Takes {α : Type} (P Q : Private → Prop) (x : Dec α) : Prop :=
  Triple (fun _ => True) P x fun _ => Q

/-- Nothing is wrong in the log. -/
def Clean (pz : Private) : Prop := Fine pz.log False

lemma Calm.clean (h : Calm pz) : Clean pz := h.1

lemma Clean.judged (h : Clean pz) : Judged pz := h.imp False.elim

section Coder

variable {α : Type}

/-- What leaves the log alone. -/
theorem calm_of_log {x : Dec α} (h : ∀ pz, (x pz).2.log = pz.log) : Takes Calm Calm x :=
  of_forall fun pz hc => by
    rw [Calm, h pz]
    exact hc

lemma calm_pure (a : α) : Takes Calm Calm (pure a : Dec α) := calm_of_log fun _ => rfl

lemma calm_fetch (f : Private → α) : Takes Calm Calm (fetch f) := calm_of_log fun _ => rfl

lemma calm_error (err : ℕ) : Takes Calm Calm (error err) := calm_of_log fun _ => rfl

lemma calm_setRep (f : (ℕ → ℕ) → ℕ → ℕ) : Takes Calm Calm (setRep f) := calm_of_log fun _ => rfl

/-- **A plain event settles the log**, whatever was there before. -/
theorem calm_note {e : Event} (he : e.Plain) : Takes Clean Calm (note e) :=
  of_forall fun pz hc => ⟨Fine.cons_plain hc he, by
    rintro e' he'
    obtain rfl : e = e' := some_inj.mp he'
    exact he⟩

lemma calm_getByte : Takes Calm Calm getByte :=
  of_forall fun pz hc => by
    by_cases hend : pz.lz.srcptr ≥ pz.lz.srcend
    · rw [getByte_of_ge hend]
      exact hc
    · rw [getByte_of_lt hend]
      exact forall_of (calm_note (e := .read ..) trivial) hc.clean

lemma calm_normalize : Takes Calm Calm normalize := by
  refine get fun pz => pre (P := Calm)
    (ite (fun _ => calm_pure ()) fun _ => ?_)
    fun _ h => h.1
  exact calm_getByte.bind fun c => calm_of_log fun _ => rfl

lemma calm_splitRange (bm : Bitmodel) : Takes Calm Calm (splitRange bm) :=
  calm_of_log fun pz => by
    rw [splitRange, run_bind, run_get]
    rw [run_ite]
    split_ifs
    · rfl
    · rfl

lemma calm_halveRange : Takes Calm Calm halveRange :=
  calm_of_log fun pz => by
    rw [halveRange, run_bind, run_get]
    rw [run_ite]
    split_ifs
    · rfl
    · rfl

lemma calm_decBit (bm : Bitmodel) : Takes Calm Calm (decBit bm) := by
  refine (calm_fetch _).bind fun _ => (calm_fetch _).bind fun _ => ?_
  refine (calm_splitRange bm).bind fun _ => calm_normalize.bind fun _ => ?_
  refine (calm_fetch _).bind fun _ => (calm_fetch _).bind fun _ => ?_
  exact ((calm_note (e := .bit ..) trivial).pre fun _ => Calm.clean).bind fun _ => calm_pure _

lemma calm_directBit : Takes Calm Calm directBit := by
  refine (calm_fetch _).bind fun _ => calm_halveRange.bind fun _ => ?_
  refine calm_normalize.bind fun _ => (calm_fetch _).bind fun _ => ?_
  exact ((calm_note (e := .direct ..) trivial).pre fun _ => Calm.clean).bind fun _ => calm_pure _

lemma calm_decDirectLoop (i ret : ℕ) : Takes Calm Calm (decDirectLoop i ret) := by
  induction i generalizing ret with
  | zero => exact calm_pure _
  | succ i ih => exact calm_directBit.bind fun _ => ih _

/-- **An index test settles the log.** -/
theorem calm_rangeCheck (i size : ℕ) : Takes Clean Calm (rangeCheck i size) := by
  refine (calm_note (e := .check i size) trivial).bind fun _ => ite (fun _ => ?_) fun _ => ?_
  · exact calm_pure _
  · exact (calm_error _).bind fun _ => calm_pure _

/-- A test, and then what is done if it succeeds. -/
theorem calm_checked {x y : Dec α} {i size : ℕ} {Q : Private → Prop} (hx : Takes Calm Q x)
    (hy : Takes Calm Q y) : Takes Clean Q (do if ← rangeCheck i size then x else y) :=
  (calm_rangeCheck i size).bind fun _ => ite (fun _ => hx) fun _ => hy

variable (bma : Bitmodel) (bms : ℕ) (mbyte : ℕ)

lemma calm_decTreeLoop (i ret : ℕ) : Takes Calm Calm (decTreeLoop bma bms i ret) := by
  induction i generalizing ret with
  | zero => exact calm_pure _
  | succ i ih =>
    refine (calm_checked (calm_pure none) ?_).pre fun _ => Calm.clean
    exact (calm_decBit _).bind fun _ => ih _

lemma calm_decTree (n : ℕ) : Takes Calm Calm (decTree bma bms n) := by
  refine (calm_decTreeLoop bma bms n 1).bind fun r => ?_
  cases r with
  | none => exact calm_pure _
  | some ret => exact calm_pure _

lemma calm_decRtree (n : ℕ) : Takes Calm Calm (decRtree bma bms n) :=
  (calm_decTree bma bms n).bind fun _ => calm_pure _

lemma calm_decMatchTail (fuel ret : ℕ) : Takes Calm Calm (decMatchTail bma bms fuel ret) := by
  induction fuel generalizing ret with
  | zero => exact calm_pure _
  | succ fuel ih =>
    refine ite (fun _ => ?_) fun _ => calm_pure _
    refine (calm_checked (calm_pure none) ?_).pre fun _ => Calm.clean
    exact (calm_decBit _).bind fun _ => ih _

/-- A turn of the outer loop begins with an index test. -/
theorem calm_decMatchTurn (i : ℕ) (ret : ℕ)
    (ih : ∀ ret, Takes Calm Calm (decMatchLoop bma bms mbyte i ret)) :
    Takes Clean Calm (decMatchLoop bma bms mbyte (i + 1) ret) := by
  refine calm_checked (calm_pure none) ((calm_decBit _).bind fun bit => ?_)
  exact ite (fun _ => ih _) fun _ => calm_decMatchTail _ _ _ _

lemma calm_decMatchLoop (i ret : ℕ) : Takes Calm Calm (decMatchLoop bma bms mbyte i ret) := by
  induction i generalizing ret with
  | zero => exact calm_pure _
  | succ i ih => exact (calm_decMatchTurn bma bms mbyte i ret ih).pre fun _ => Calm.clean

lemma calm_decMatch : Takes Clean Calm (decMatch bma bms mbyte) := by
  refine (calm_decMatchTurn bma bms mbyte 7 1 (calm_decMatchLoop bma bms mbyte 7)).bind fun r => ?_
  cases r with
  | none => exact calm_pure _
  | some ret => exact calm_pure _

lemma calm_decLength (lm : Lenmodel) (pstate : ℕ) : Takes Calm Calm (decLength lm pstate) := by
  refine (calm_decBit _).bind fun _ => ite (fun _ => calm_decTree _ _ _) fun _ => ?_
  refine (calm_decBit _).bind fun _ => ite (fun _ => ?_) fun _ => ?_
  · exact (calm_decTree _ _ _).bind fun _ => calm_pure _
  · exact (calm_decTree _ _ _).bind fun _ => calm_pure _

end Coder

/-! ### Literals -/

lemma peekBack_log (i : ℕ) (pz : Private) :
    (peekBack i pz).2.log = .look i (pz.lz.dstptr - pz.lz.dstbuf) pz.total :: pz.log := by
  rcases lt_or_ge (pz.lz.dstbuf + i) pz.lz.dstptr with h | h
  · rw [peekBack_of_lt h]
  · rw [peekBack_of_le h]

/-- A look that does not follow a copy begins none. -/
theorem clean_peekBack (i : ℕ) : Takes Calm Clean (peekBack i) :=
  of_forall fun pz ⟨hfine, hhead⟩ => by
    rw [Clean, peekBack_log]
    refine ⟨fun i' w' hc => ?_, fun i' w' hr => ?_⟩
    · rw [copied_cons_of (by simp)] at hc
      exact hfine.copied i' w' hc
    · rw [copied_cons_of (by simp)]
      rcases refers_look_cons hr with ⟨-, -, n, hn⟩ | hr
      · exact absurd (hhead _ hn) id
      · exact hfine.refers i' w' hr

/-- A write that does not follow a look copies nothing. -/
theorem clean_putByte (c : UInt8) : Takes Calm Clean (putByte c) :=
  of_forall fun pz ⟨hfine, hhead⟩ => by
    by_cases hend : pz.lz.dstptr ≥ pz.lz.dstend
    · rw [putByte_of_ge hend]
      exact hfine
    · rw [putByte_of_lt hend]
      refine ⟨fun i' w' hc => ?_, fun i' w' hr => ?_⟩
      · rcases copied_write_cons.mp hc with ⟨total, hl⟩ | hc
        · exact absurd (hhead _ hl) id
        · exact hfine.copied i' w' hc
      · rw [refers_cons_of (by simp)] at hr
        rw [copied_write_cons]
        exact (hfine.refers i' w' hr).imp_right (Or.imp_left .inr)

lemma calm_literalByte (bma : Bitmodel) (bms state : ℕ) :
    Takes Calm Calm (literalByte bma bms state) := by
  refine ite (fun _ => calm_decTree _ _ _) fun _ => ?_
  exact (calm_fetch _).bind fun rep => (clean_peekBack rep).bind fun _ => calm_decMatch _ _ _

lemma clean_inflateLiteral (state : ℕ) : Takes Calm Clean (inflateLiteral state) := by
  refine (clean_peekBack 0).bind fun c => calm_checked ?_ ?_
  · exact (calm_pure _).post fun _ _ => Calm.clean
  · refine (calm_literalByte _ _ _).bind fun b => (clean_putByte _).bind fun _ => ?_
    have hret : ∀ a : ℕ, Takes Clean Clean (pure a : Dec ℕ) := fun a => pure fun _ h => h
    exact ite (fun _ => hret _) fun _ => ite (fun _ => hret _) fun _ => hret _

/-! ### Copies -/

lemma fine_of_bad {log : List Event} (h : bad) : Fine log bad :=
  ⟨fun _ _ _ => .inr (.inr h), fun _ _ _ => .inr (.inr h)⟩

/-- **A byte is copied from the window**, or it is the case that goes wrong. -/
theorem Fine.copy {log : List Event} (h : Fine log bad) {rep w ptr buf fin total : ℕ}
    (hrep : rep < w ∨ (rep = 0 ∧ w = 0)) :
    Fine (.write ptr buf fin :: .look rep w total :: log) bad := by
  refine ⟨fun i' w' hc => ?_, fun i' w' hr => ?_⟩
  · rcases copied_write_cons.mp hc with ⟨total', hl⟩ | hc
    · obtain ⟨rfl, rfl, -⟩ := Event.look.inj (some_inj.mp hl)
      exact hrep.imp_right .inl
    · rw [copied_cons_of (by simp)] at hc
      exact h.copied i' w' hc
  · rw [refers_cons_of (by simp)] at hr
    rcases refers_look_cons hr with ⟨rfl, rfl, -⟩ | hr
    · refine hrep.imp_right fun h0 => .inl ?_
      rw [copied_write_cons, h0.1, h0.2]
      exact .inl ⟨total, rfl⟩
    · rw [copied_write_cons, copied_cons_of (by simp)]
      exact (h.refers i' w' hr).imp_right (Or.imp_left .inr)

/-- **A turn of the loop of `repeat_from_dict`**: it copies from the window, or gives up, or it is
the case that goes wrong. -/
theorem judged_repeat (rep : ℕ) : Takes Judged Judged (do let c ← peekBack rep; putByte c) :=
  of_forall fun pz hj => by
    rw [run_bind]
    have hlog := peekBack_log rep pz
    have hlz : (peekBack rep pz).2.lz = pz.lz := by
      rcases lt_or_ge (pz.lz.dstbuf + rep) pz.lz.dstptr with h | h
      · rw [peekBack_of_lt h]
      · rw [peekBack_of_le h]
    by_cases hend : pz.lz.dstptr ≥ pz.lz.dstend
    · rw [putByte_of_ge (by rw [hlz]; exact hend)]
      refine fine_of_bad (.inr ⟨rfl, ?_⟩)
      change (peekBack rep pz).2.lz.dstend ≤ (peekBack rep pz).2.lz.dstptr
      rw [hlz]
      exact hend
    · rw [putByte_of_lt (by rw [hlz]; exact hend)]
      rw [Judged, hlog]
      by_cases hbad : rep ≠ 0 ∧ pz.lz.dstptr ≤ pz.lz.dstbuf + rep
      · refine fine_of_bad (.inl ?_)
        rw [peekBack_of_le hbad.2]
        exact if_pos hbad.1
      · -- no error is set here, and none that was set can have been for want of room
        have herr : (peekBack rep pz).2.error = pz.error := by
          rcases lt_or_ge (pz.lz.dstbuf + rep) pz.lz.dstptr with h | h
          · rw [peekBack_of_lt h]
          · rw [peekBack_of_le h]
            exact if_neg fun h0 => hbad ⟨h0, h⟩
        refine Fine.copy (Fine.imp hj fun hf => ?_) (by omega)
        rcases hf with hf | ⟨-, hf⟩
        · exact .inl (herr.trans hf)
        · omega

lemma judged_repeatLoop (rep n : ℕ) : Takes Judged Judged (repeatLoop rep n) := by
  induction n with
  | zero => exact pure fun _ h => h
  | succ n ih =>
    have hstep := (judged_repeat rep).bind fun _ => ih
    intro pz
    exact hstep pz

lemma judged_repeatFromDict (state rep n : ℕ) : Takes Calm Judged (repeatFromDict state rep n) := by
  have hnote : Takes Calm Judged (note (.copy rep n)) :=
    of_forall fun pz hc => (Fine.cons hc.clean (by simp) (by simp)).imp False.elim
  refine hnote.bind fun _ => (judged_repeatLoop rep n).bind fun _ => ?_
  exact pure fun _ h => h

/-! ### Symbols -/

lemma calm_stateError (err : ℕ) : Takes Calm Calm (stateError err) :=
  (calm_error err).bind fun _ => calm_pure _

lemma judged_of_calm {α : Type} {x : Dec α} (h : Takes Calm Calm x) : Takes Calm Judged x :=
  h.post fun _ _ hc => hc.clean.judged

lemma judged_matchFrom (state rep len : ℕ) : Takes Calm Judged (matchFrom state rep len) :=
  (calm_setRep _).bind fun _ => judged_repeatFromDict _ _ _

lemma judged_inflateMatch (state pstate : ℕ) : Takes Calm Judged (inflateMatch state pstate) := by
  refine (calm_setRep _).bind fun _ => (calm_decLength _ _).bind fun len => ?_
  refine (calm_decTree _ _ _).bind fun dislot => ?_
  refine ite (fun _ => judged_matchFrom _ _ _) fun _ => ?_
  refine ite (fun _ => ?_) fun _ => ?_
  · refine (calm_checked (judged_of_calm (calm_stateError _)) ?_).pre fun _ => Calm.clean
    exact (calm_decRtree _ _ _).bind fun _ => judged_matchFrom _ _ _
  · refine (calm_decDirectLoop _ _).bind fun _ => (calm_decRtree _ _ _).bind fun _ => ?_
    refine ite (fun _ => ite (fun _ => ?_) fun _ => ?_) fun _ =>
      judged_matchFrom _ _ _
    · exact judged_of_calm (calm_stateError _)
    · exact judged_of_calm (calm_stateError _)

lemma judged_inflateShortrep (state : ℕ) : Takes Calm Judged (inflateShortrep state) :=
  (calm_fetch _).bind fun _ => judged_repeatFromDict _ _ _

lemma judged_inflateLongrep (state pstate n : ℕ) :
    Takes Calm Judged (inflateLongrep state pstate n) := by
  refine (calm_fetch _).bind fun _ => (calm_setRep _).bind fun _ => ?_
  exact (calm_decLength _ _).bind fun _ => judged_repeatFromDict _ _ _

/-- **A symbol**, whichever it is. -/
theorem judged_decSymbol (s p : ℕ) : Takes Calm Judged (decSymbol s p) := by
  refine (calm_decBit _).bind fun _ => ite (fun _ => ?_) fun _ => ?_
  · exact (clean_inflateLiteral s).post fun _ _ => Clean.judged
  refine (calm_decBit _).bind fun _ => ite (fun _ => judged_inflateMatch s p) fun _ => ?_
  refine (calm_decBit _).bind fun _ => ite (fun _ => ?_) fun _ => ?_
  · refine (calm_decBit _).bind fun _ => ite (fun _ => judged_inflateShortrep s) fun _ => ?_
    exact judged_inflateLongrep s p 0
  refine (calm_decBit _).bind fun _ => ite (fun _ => judged_inflateLongrep s p 1) fun _ => ?_
  refine (calm_decBit _).bind fun _ => ite (fun _ => judged_inflateLongrep s p 2) fun _ => ?_
  exact judged_inflateLongrep s p 3

/-! ### Turns and calls -/

lemma judged_turnFrom (s p : ℕ) : Takes Clean Judged (turnFrom s p) :=
  (calm_rangeCheck s 12).bind fun _ =>
    ((calm_rangeCheck p 4).pre fun _ => Calm.clean).bind fun _ => judged_decSymbol s p

lemma judged_turn (he : pz.error = 0) (h : Judged pz) : Judged (turn pz) := by
  -- a decoder that goes on has not given up
  have hclean : Clean pz := Fine.imp h fun hf => by
    rcases hf with hf | ⟨hf, -⟩
    · rw [he] at hf
      exact absurd hf (by decide)
    · rw [he] at hf
      exact absurd hf (by decide)
  have hjudged : Judged (turnFrom pz.state pz.posState pz).2 :=
    forall_of (judged_turnFrom pz.state pz.posState) hclean
  rw [turn]
  generalize turnFrom pz.state pz.posState pz = r at hjudged ⊢
  exact hjudged

lemma judged_loop {fuel : ℕ} (hs : Sound pz) (h : Judged pz) : Judged (inflateLoop fuel pz).2 := by
  induction fuel generalizing pz with
  | zero => exact h
  | succ fuel ih =>
    by_cases he : pz.error = 0
    · rw [inflateLoop_succ he (hs.ok.resolve_left (not_not_intro he)) hs.inv.pos]
      split_ifs
      · exact judged_turn he h
      · exact judged_turn he h
      · exact ih (hs.turn he) (judged_turn he h)
    · rw [inflateLoop_of_error he]
      exact h

lemma calm_initCode (i code : ℕ) : Takes Calm Calm (initCode i code) := by
  induction i generalizing code with
  | zero => exact calm_pure _
  | succ i ih => exact calm_getByte.bind fun _ => ih _

lemma calm_enter (b : Buffers) (pz : Private) : Calm (enter b pz) :=
  ⟨fine_nil False, fun _ h => absurd h (by simp [enter])⟩

lemma calm_ready (h : Calm pz) : Calm (ready pz) := by
  by_cases hst : pz.state ≠ STATE_INITIAL
  · rw [ready, if_pos hst]
    exact h
  · have hcode : Calm (initCode 4 0 pz).2 := forall_of (calm_initCode 4 0) h
    rw [ready, if_neg hst, primed]
    generalize initCode 4 0 pz = r at hcode ⊢
    exact hcode

/-- **A call is judged.** -/
theorem judged_after (h : Rest pz) (b : Buffers) : Judged (after b pz) := by
  by_cases hnull : NonNull (enter b pz).lz
  · have hrest : Rest (enter b pz) := ⟨h.prob, h.pos, h.lt, h.started⟩
    rw [after, lzmaInflate_of_nonNull hnull]
    exact judged_loop (sound_ready hrest (h.enter b)) (calm_ready (calm_enter b pz)).clean.judged
  · obtain ⟨err, -, hrun⟩ := lzmaInflate_of_null hnull
    rw [after, hrun]
    exact fine_nil _

/-- Every state of a run is that after a call. -/
theorem mem_history {pz' : Private} (h : Rest pz) {calls : List Buffers}
    (hmem : pz' ∈ history pz calls) : ∃ pz₀ b, Rest pz₀ ∧ pz' = after b pz₀ := by
  induction calls generalizing pz with
  | nil => exact absurd hmem not_mem_nil
  | cons b calls ih =>
    rcases mem_cons.mp hmem with rfl | hmem
    · exact ⟨pz, b, h, rfl⟩
    · obtain ⟨code, -, hrest, -⟩ := call_spec h b
      exact ih hrest hmem

/-! ### What a call returns -/

/-- The decoder has an error that is not the end of the stream. -/
def Failed (pz : Private) : Prop := pz.error ≠ 0 ∧ pz.error ≠ LZMA_STREAM_END

lemma Fatal.failed (h : Fatal pz) : Failed pz := by
  rcases h with h | ⟨h, -⟩
  · exact ⟨by rw [h]; decide, by rw [h]; decide⟩
  · exact ⟨by rw [h]; decide, by rw [h]; decide⟩

lemma failed_getByte : Takes Failed Failed getByte :=
  of_forall fun pz hf => by
    by_cases hend : pz.lz.srcptr ≥ pz.lz.srcend
    · rw [getByte_of_ge hend]
      exact ⟨(by decide : LZMA_INPUT_OVER ≠ 0), (by decide : LZMA_INPUT_OVER ≠ LZMA_STREAM_END)⟩
    · rw [getByte_of_lt hend]
      exact hf

lemma failed_initCode (i code : ℕ) : Takes Failed Failed (initCode i code) := by
  induction i generalizing code with
  | zero => exact pure fun _ h => h
  | succ i ih => exact failed_getByte.bind fun _ => ih _

lemma failed_ready (h : Failed pz) : Failed (ready pz) := by
  by_cases hst : pz.state ≠ STATE_INITIAL
  · rw [ready, if_pos hst]
    exact h
  · have hcode : Failed (initCode 4 0 pz).2 := forall_of (failed_initCode 4 0) h
    rw [ready, if_neg hst, primed]
    generalize initCode 4 0 pz = r at hcode ⊢
    exact hcode

/-- **A decoder that has failed** does not come to the end of the stream any more. -/
theorem failed_after (h : Failed pz) (b : Buffers) : Failed (after b pz) := by
  by_cases hnull : NonNull (enter b pz).lz
  · have hready : Failed (ready (enter b pz)) := failed_ready h
    rw [after, lzmaInflate_of_nonNull hnull, inflateLoop_of_error hready.1]
    exact hready
  · obtain ⟨err, herr, hrun⟩ := lzmaInflate_of_null hnull
    rw [after, hrun]
    rcases herr with rfl | rfl
    · exact ⟨(by decide : LZMA_INPUT_OVER ≠ 0), (by decide : LZMA_INPUT_OVER ≠ LZMA_STREAM_END)⟩
    · exact ⟨(by decide : LZMA_OUTPUT_OVER ≠ 0), (by decide : LZMA_OUTPUT_OVER ≠ LZMA_STREAM_END)⟩

/-- What the loop returns, but for the two marks, is what it leaves in `error`. -/
theorem loop_code {fuel : ℕ} (hs : Sound pz) :
    (inflateLoop fuel pz).1 = none ∨ (inflateLoop fuel pz).1 = some LZMA_NEED_INPUT ∨
      (inflateLoop fuel pz).1 = some LZMA_NEED_OUTPUT ∨
      (inflateLoop fuel pz).1 = some (inflateLoop fuel pz).2.error := by
  induction fuel generalizing pz with
  | zero => exact .inl rfl
  | succ fuel ih =>
    by_cases he : pz.error = 0
    · rw [inflateLoop_succ he (hs.ok.resolve_left (not_not_intro he)) hs.inv.pos]
      split_ifs
      · exact .inr (.inl rfl)
      · exact .inr (.inr (.inl rfl))
      · exact ih (hs.turn he)
    · rw [inflateLoop_of_error he]
      exact .inr (.inr (.inr rfl))

lemma error_of_stream_end (h : Rest pz) {b : Buffers} (hc : code b pz = some LZMA_STREAM_END) :
    (after b pz).error = LZMA_STREAM_END := by
  by_cases hnull : NonNull (enter b pz).lz
  · have hrest : Rest (enter b pz) := ⟨h.prob, h.pos, h.lt, h.started⟩
    rw [code, lzmaInflate_of_nonNull hnull] at hc
    rw [after, lzmaInflate_of_nonNull hnull]
    rcases loop_code (sound_ready hrest (h.enter b)) with hl | hl | hl | hl
    · rw [hc] at hl
      cases hl
    · rw [hc] at hl
      exact absurd hl (by decide)
    · rw [hc] at hl
      exact absurd hl (by decide)
    · rw [hc] at hl
      exact (some_inj.mp hl).symm
  · obtain ⟨err, herr, hrun⟩ := lzmaInflate_of_null hnull
    rw [code, hrun] at hc
    rw [after, hrun]
    exact some_inj.mp hc

/-- **A run that comes to the end of the stream** has not failed before. -/
theorem not_failed_of_stream_end (h : Rest pz) {calls : List Buffers}
    (hc : finalCode pz calls = some LZMA_STREAM_END) : ∀ pz' ∈ history pz calls, ¬Failed pz' := by
  induction calls generalizing pz with
  | nil => exact fun _ hmem => absurd hmem not_mem_nil
  | cons b calls ih =>
    obtain ⟨c, -, hrest, -⟩ := call_spec h b
    obtain _ | ⟨b', calls⟩ := calls
    · rintro pz' hmem hf
      obtain rfl := mem_singleton.mp hmem
      exact hf.2 (error_of_stream_end h hc)
    · have hlater := ih hrest hc
      rintro pz' hmem hf
      rcases mem_cons.mp hmem with rfl | hmem
      · exact hlater _ mem_cons_self (failed_after hf b')
      · exact hlater pz' hmem hf

/-- A call that did something has begun to decode. -/
theorem started_of_log (h : Rest pz) {b : Buffers} (hlog : (after b pz).log ≠ []) :
    (after b pz).state ≠ STATE_INITIAL := by
  by_cases hnull : NonNull (enter b pz).lz
  · have hrest : Rest (enter b pz) := ⟨h.prob, h.pos, h.lt, h.started⟩
    obtain ⟨c, -, hs, -⟩ := loop_spec (sound_ready hrest (h.enter b)) (.inr (le_refl _))
    rw [after, lzmaInflate_of_nonNull hnull]
    exact ne_of_lt hs.begun
  · obtain ⟨err, -, hrun⟩ := lzmaInflate_of_null hnull
    rw [after, hrun] at hlog
    exact absurd rfl hlog

/-- An error, once it is there, is what calls return. -/
theorem code_of_error (he : pz.error ≠ 0) (hst : pz.state ≠ STATE_INITIAL) {b : Buffers}
    (hb : NonNull b.toLz) : code b pz = some pz.error := by
  have hnull : NonNull (enter b pz).lz := hb
  have hready : ready (enter b pz) = enter b pz := if_pos hst
  rw [code, lzmaInflate_of_nonNull hnull, hready]
  have herr : (enter b pz).error ≠ 0 := he
  exact congrArg Prod.fst (inflateLoop_of_error herr _)

/-! ### Runs -/

/-- **Back-references stay in the window**, in all runs in which no byte is copied with distance
register zero from an empty window: if such a run comes to the end of the stream, then every byte
copied was in the window, and only then; and a reference that leads out of the window is reported,
by this call or by the next one, unless what it copies does not fit. -/
theorem references (code range : UInt32) (calls : List Buffers) :
    (finalCode (initPrivate code range) calls = some LZMA_STREAM_END →
      (Inside (initPrivate code range) calls ↔ ¬Blank (initPrivate code range) calls)) ∧
    (¬Blank (initPrivate code range) calls →
      ∀ pz ∈ history (initPrivate code range) calls, ∀ i w, Refers pz.log i w → w ≤ i →
        Reported pz) := by
  have hrest := rest_init code range
  have hjudged : ∀ pz ∈ history (initPrivate code range) calls, Judged pz := by
    intro pz hmem
    obtain ⟨pz₀, b, h₀, rfl⟩ := mem_history hrest hmem
    exact judged_after h₀ b
  refine ⟨fun hc => ⟨?_, ?_⟩, ?_⟩
  · rintro hin ⟨pz, hmem, hcopied⟩
    exact absurd (hin pz hmem 0 0 hcopied) (lt_irrefl 0)
  · intro hblank pz hmem i w hcopied
    rcases (hjudged pz hmem).copied i w hcopied with h | ⟨rfl, rfl⟩ | h
    · exact h
    · exact absurd ⟨pz, hmem, hcopied⟩ hblank
    · exact absurd h.failed (not_failed_of_stream_end hrest hc pz hmem)
  · intro hblank pz hmem i w hrefers hle
    have hfatal : Fatal pz := by
      rcases (hjudged pz hmem).refers i w hrefers with h | h | h
      · omega
      · exact absurd ⟨pz, hmem, h⟩ hblank
      · exact h
    obtain ⟨pz₀, b, h₀, rfl⟩ := mem_history hrest hmem
    have hlog : (after b pz₀).log ≠ [] := by
      obtain ⟨n, total, hin⟩ := hrefers
      rintro hnil
      rw [hnil] at hin
      exact absurd hin.length_le (by simp)
    exact ⟨hfatal, fun b' hb' => code_of_error hfatal.failed.1 (started_of_log h₀ hlog) hb'⟩

/-! ### A stream that begins with a reference -/

/-- A stream of two symbols: the repetition of a single byte, and the end mark. -/
def repetition : List UInt8 := [200, 63, 251, 255, 255, 252, 0, 0, 0]

/-- Buffers that hold the stream, and have room for its output. -/
def repetitionBuffers : Buffers where
  srcbuf := 1
  srcptr := 1
  srchwm := 10
  srcend := 10
  dstbuf := 1
  dstptr := 1
  dsthwm := 100
  dstend := 400
  src := Mem.store (fun _ => 0) 1 repetition
  dst := fun _ => 0
  src_in := by decide
  dst_in := by decide

theorem references_repetition :
    finalCode (initPrivate 0 0) [repetitionBuffers] = some LZMA_STREAM_END ∧
      (Inside (initPrivate 0 0) [repetitionBuffers] ↔
        ¬Blank (initPrivate 0 0) [repetitionBuffers]) :=
  have hend : finalCode (initPrivate 0 0) [repetitionBuffers] = some LZMA_STREAM_END := by
    decide +kernel
  ⟨hend, (references 0 0 [repetitionBuffers]).1 hend⟩

/-- **The first symbol of a stream copies a byte** from before the start of the buffer, and the
stream ends in order. -/
theorem blank_reference : ¬ ∀ (code range : UInt32) (calls : List Buffers),
    finalCode (initPrivate code range) calls = some LZMA_STREAM_END →
      Inside (initPrivate code range) calls := by
  intro h
  have hend : finalCode (initPrivate 0 0) [repetitionBuffers] = some LZMA_STREAM_END := by
    decide +kernel
  have hlog : [Event.write 1 1 400, .look 0 0 0] <:+:
      (after repetitionBuffers (initPrivate 0 0)).log := by
    decide +kernel
  exact absurd (h 0 0 [repetitionBuffers] hend _ mem_cons_self 0 0 ⟨1, 1, 400, 0, hlog⟩)
    (lt_irrefl 0)

end Minibase.Lzma
