import Minibase.Msh.Grammar

/-!
# The parser reads the language

The parser of `msh` runs the commands that a script means, `Msh.executed_eq_meaning`,
unless the script gets it out of step with the grammar (`Msh.Clean`).

* After a backslash at the start of a line, `parse_nibsl` goes on as if the line had not started
  yet. This makes no difference as long as a plain character follows.
* After a comment, `parse_commt` goes on as if the next line had started already. So a line that
  starts with a quote or a dollar sign is not refused there.
* A script can end in the name of a variable; `parse_finish` does not know about that.
-/

namespace Minibase

namespace Msh

open List Msh.Parser

/-! ### Scripts that keep the parser in step -/

/-- What has to be known of a line beside where in it the reader is. -/
inductive Note
  /-- Nothing. -/
  | none
  /-- There is a comment before it. -/
  | after
  /-- There have only been backslashes so far, and what they stand for. -/
  | escapes
deriving DecidableEq, Repr

/-- The characters that keep the parser in step. -/
def Note.allows (note : Note) (pending : Pending) (c : UInt8) : Bool :=
  match note, pending with
  | .after, .nothing => c ≠ 34 && c ≠ 39 && c ≠ 36
  | .escapes, .nothing => !isspace c && c ≠ 35 && c ≠ 36
  | .escapes, .escape => c ≠ 10
  | _, _ => true

/-- What is to be known then. -/
def Note.next (note : Note) (place : Place) (pending : Pending) (c : UInt8) : Note :=
  match note, place, pending with
  | .none, .start, .escape => if c = 10 then .none else .escapes
  | .none, .comment, _ => if c = 10 then .after else .none
  | .after, .start, .nothing => if c = 32 ∨ c = 9 ∨ c = 92 then .after else .none
  | .after, .start, .escape => if c = 10 then .after else .none
  | .escapes, .word, .nothing => if c = 92 then .escapes else .none
  | .escapes, .word, .escape => .escapes
  | _, _, _ => .none

variable {E : Type} {host : Host E}

/-- **The script keeps the parser in step**, from some place on. -/
def Clean (host : Host E) : Note → Reader E → List UInt8 → Prop
  | note, r, [] => note ≠ .escapes ∧ ∀ n, r.pending = .name n → r.place ≠ .word
  | note, r, c :: script =>
    note.allows r.pending c ∧
      ∀ r', r.readChar host c = .ok r' → Clean host (note.next r.place r.pending c) r' script

/-! ### In step -/

/-- The states of the parser for where a reader is. -/
inductive Step : Note → Place → Pending → St → Prop
  | start : Step .none .start .nothing .NIL
  | startAfter : Step .after .start .nothing .SEP
  | startEscape : Step .none .start .escape .NIBSL
  | startAfterEscape : Step .after .start .escape .SEBSL
  | gap : Step .none .gap .nothing .SEP
  | gapEscape : Step .none .gap .escape .SEBSL
  | word : Step .none .word .nothing .ARG
  | wordEscapes : Step .escapes .word .nothing .NIL
  | wordEscape : Step .none .word .escape .ARBSL
  | wordEscapesEscape : Step .escapes .word .escape .NIBSL
  | wordDollar : Step .none .word .dollar .VSIGN
  | wordName (n : List UInt8) : Step .none .word (.name n) .VCONT
  | dquote : Step .none .dquote .nothing .DQUOT
  | dquoteEscape : Step .none .dquote .escape .DQBSL
  | dquoteDollar : Step .none .dquote .dollar .DQVSG
  | dquoteName (n : List UInt8) : Step .none .dquote (.name n) .DQVCN
  | squote : Step .none .squote .nothing .SQUOT
  | squoteEscape : Step .none .squote .escape .SQBSL
  | shut : Step .none .shut .nothing .TRAIL
  | comment : Step .none .comment .nothing .COMMT

/-- The name that is being read. -/
def Pending.text : Pending → List UInt8
  | .name n => n
  | _ => []

/-- A reader has a word open or not, by where it is. -/
def Reader.Proper (r : Reader E) : Prop :=
  match r.place with
  | .start | .comment => r.words = [] ∧ r.cur = []
  | .gap | .shut => r.words ≠ [] ∧ r.cur = []
  | .word | .dquote | .squote => r.words ≠ [] ∨ r.cur ≠ []

/-- What the parser has on the heap are the words of the reader, and the name that is being
read. -/
structure Same (p : Parser E) (r : Reader E) (name : List UInt8) : Prop where
  env : p.env = r.env
  line : p.line = r.line
  log : p.log = r.log
  buf : p.buf = joined 0 r.words (r.cur ++ name)
  words : ∀ d ∈ r.words, 0 ∉ d
  cur : 0 ∉ r.cur
  name : 0 ∉ name

/-- **The parser is in step with a reader.** -/
structure Sync (note : Note) (p : Parser E) (r : Reader E) : Prop where
  step : Step note r.place r.pending p.state
  proper : r.Proper
  same : Same p r r.pending.text
  var : ∀ n, r.pending = .name n → p.var = some (joined 0 r.words r.cur).length

/-- What the two do next: go on in step, or end with the same commands run. -/
def Agree (note : Note) (x : Except Fatal (Parser E)) (y : Except Fatal (Reader E)) : Prop :=
  match x, y with
  | .ok p, .ok r => Sync note p r
  | .error f, .error g => f.log = g.log
  | _, _ => False

lemma Agree.bind {note note' : Note} {x : Except Fatal (Parser E)} {y : Except Fatal (Reader E)}
    {f : Parser E → Except Fatal (Parser E)} {g : Reader E → Except Fatal (Reader E)}
    (h : Agree note x y) (hfg : ∀ p r, x = .ok p → y = .ok r → Sync note p r →
      Agree note' (f p) (g r)) :
    Agree note' (x >>= f) (y >>= g) := by
  rcases x with e | p
  · rcases y with e' | r
    · exact h
    · exact h.elim
  · rcases y with e' | r
    · exact h.elim
    · exact hfg p r rfl rfl h

section Actions

variable {note : Note} {p : Parser E} {r : Reader E} {place : Place} {st : St} {c : UInt8}

variable {n : List UInt8}

lemma agree_fail (h : Same p r n) {msg msg' : String} :
    Agree note (p.fatal msg : Except Fatal (Parser E)) (r.fail msg') := h.log

section

variable (h : Same p r [])
include h

/-- There is nothing on the heap as long as no word has been started. -/
theorem Same.buf_eq_nil (hnil : r.words = [] ∧ r.cur = []) : p.buf = [] := by
  have hbuf := h.buf
  rw [hnil.1, hnil.2] at hbuf
  exact hbuf

/-- Both go on somewhere else. -/
theorem agree_goto {pending : Pending} (hstep : Step note place pending st)
    (htext : pending.text = []) (hproper : Reader.Proper { r with place := place })
    (hname : ∀ n, pending ≠ .name n) :
    Agree note (p.goto st) (.ok { r with place := place, pending := pending }) := by
  refine ⟨hstep, hproper, ?_, fun n hn => absurd hn (hname n)⟩
  show Same _ _ pending.text
  rw [htext]
  exact ⟨h.env, h.line, h.log, h.buf, h.words, h.cur, h.name⟩

/-- Both wait for what follows. -/
theorem agree_awaits {pending : Pending} (hplace : r.place = place)
    (hstep : Step note place pending st) (htext : pending.text = []) (hproper : r.Proper)
    (hname : ∀ n, pending ≠ .name n) : Agree note (p.goto st) (r.awaits pending) := by
  subst hplace
  exact agree_goto h hstep htext hproper hname

/-- Characters are added to the word. -/
theorem agree_push {cs : List UInt8} (hcs : 0 ∉ cs) (hstep : Step note place .nothing st)
    (hopen : place = .word ∨ place = .dquote ∨ place = .squote)
    (hne : r.words ≠ [] ∨ r.cur ++ cs ≠ []) :
    Agree note (goto { p with buf := p.buf ++ cs } st) (r.take place cs) := by
  have hbuf := h.buf
  rw [append_nil] at hbuf
  refine ⟨hstep, ?_, ⟨h.env, h.line, h.log, ?_, h.words, ?_, not_mem_nil⟩, nofun⟩
  · rcases hopen with rfl | rfl | rfl <;> exact hne
  · show p.buf ++ cs = joined 0 r.words (r.cur ++ cs ++ [])
    rw [hbuf, append_nil, joined, joined, append_assoc]
  · show 0 ∉ r.cur ++ cs
    rw [mem_append, not_or]
    exact ⟨h.cur, hcs⟩

/-- The word is over. -/
theorem Same.close : Same p.pushEnd r.close [] := by
  have hbuf := h.buf
  refine ⟨h.env, h.line, h.log, ?_, ?_, not_mem_nil, not_mem_nil⟩
  · show p.buf ++ [0] = joined 0 (r.words ++ [r.cur]) ([] ++ [])
    rw [hbuf]
    simp [joined]
  · intro d hd
    rcases mem_append.mp hd with hd | hd
    · exact h.words d hd
    · obtain rfl := mem_singleton.mp hd
      exact h.cur

/-- A command is run. -/
theorem agree_execute (hcur : r.cur = []) (hwords : r.words ≠ [])
    (hstep : Step note place .nothing st) (hplace : place = .start ∨ place = .comment) :
    Agree note (do
      let p ← p.execute host
      p.goto st) (r.finish host place) := by
  have hbuf := h.buf
  rw [hcur, append_nil] at hbuf
  have hargv : (pieces 0 p.buf).1 = r.words := by
    rw [hbuf, pieces_joined h.words not_mem_nil]
  unfold execute Reader.finish
  simp only [hargv, if_neg hwords, h.env, h.line, h.log]
  rcases host.run r.env r.words with msg | env
  · rfl
  · refine ⟨hstep, ?_, ⟨rfl, rfl, rfl, ?_, ?_, h.cur, not_mem_nil⟩, by rintro _ ⟨⟩⟩
    · rcases hplace with rfl | rfl
      · exact ⟨rfl, hcur⟩
      · exact ⟨rfl, hcur⟩
    · show [] = joined 0 [] (r.cur ++ [])
      rw [hcur]
      rfl
    · exact fun d hd => by cases hd

/-- A name is begun. -/
theorem agree_var (hc : c ≠ 0) (hstep : Step note place (.name [c]) st) (hplace : r.place = place)
    (hproper : r.Proper) : Agree note ((p.pushVar c).goto st) (r.awaits (.name [c])) := by
  have hbuf := h.buf
  rw [append_nil] at hbuf
  refine ⟨?_, hproper, ⟨h.env, h.line, h.log, ?_, h.words, h.cur, ?_⟩, fun n hn => ?_⟩
  · show Step note r.place _ st
    rw [hplace]
    exact hstep
  · show p.buf ++ [c] = joined 0 r.words (r.cur ++ [c])
    rw [hbuf, joined, joined, append_assoc]
  · show 0 ∉ [c]
    simpa using Ne.symm hc
  · show some p.buf.length = _
    rw [hbuf]

end

/-- A name goes on. -/
theorem agree_name (h : Same p r n) (hc : c ≠ 0)
    (hvar : p.var = some (joined 0 r.words r.cur).length)
    (hstep : Step note place (.name (n ++ [c])) st)
    (hplace : r.place = place) (hproper : r.Proper) :
    Agree note ((p.pushChar c).goto st) (r.awaits (.name (n ++ [c]))) := by
  refine ⟨?_, hproper, ⟨h.env, h.line, h.log, ?_, h.words, h.cur, ?_⟩, fun _ _ => hvar⟩
  · show Step note r.place _ st
    rw [hplace]
    exact hstep
  · show p.buf ++ [c] = joined 0 r.words (r.cur ++ (n ++ [c]))
    rw [h.buf, joined, joined]
    simp
  · show 0 ∉ n ++ [c]
    rw [mem_append, not_or]
    exact ⟨h.name, by simpa using Ne.symm hc⟩

/-- The value of a variable takes the place of its name. -/
theorem same_subst (host : Host E) (h : Same p r n)
    (hvar : p.var = some (joined 0 r.words r.cur).length) :
    (∃ f g, p.substVar host = .error f ∧ r.subst host n = .error g ∧ f.log = g.log) ∨
    (∃ p' r', p.substVar host = .ok p' ∧ r.subst host n = .ok r' ∧ Same p' r' [] ∧
      r'.place = r.place ∧ r'.words = r.words ∧ (r.cur ≠ [] → r'.cur ≠ [])) := by
  have hsplit : p.buf = joined 0 r.words r.cur ++ n := by
    rw [h.buf, joined, joined, append_assoc]
  have hdrop : p.buf.drop (joined 0 r.words r.cur).length = n := by
    rw [hsplit, drop_left]
  have htake : p.buf.take (joined 0 r.words r.cur).length = joined 0 r.words r.cur := by
    rw [hsplit, take_left]
  unfold substVar Reader.subst
  simp only [hvar, hdrop, htake, h.env]
  rcases host.valueof r.env n with _ | val
  · exact .inl ⟨_, _, rfl, rfl, h.log⟩
  · refine .inr ⟨_, _, rfl, rfl, ⟨rfl, h.line, h.log, ?_, h.words, ?_, not_mem_nil⟩, rfl, rfl,
      fun hcur => append_ne_nil_of_left_ne_nil hcur _⟩
    · show joined 0 r.words r.cur ++ val.chars = joined 0 r.words (r.cur ++ val.chars ++ [])
      rw [joined, joined]
      simp
    · show 0 ∉ r.cur ++ val.chars
      rw [mem_append, not_or]
      exact ⟨h.cur, val.nonul⟩

/-! ### One character -/

section

variable (h : Same p r [])
include h

/-- The start of a line. -/
theorem start_agree (hproper : r.Proper) (hplace : r.place = .start) (hc : c ≠ 0) :
    Agree .none (p.parseNil c) (r.plain host c) := by
  have hp : Reader.Proper { r with place := .start } := by rwa [← hplace]
  have hcs : 0 ∉ [c] := by simpa using Ne.symm hc
  unfold parseNil Reader.plain
  simp only [hplace]
  by_cases hsp : isspace c = true
  · rw [if_pos hsp, if_pos hsp, ite_self]
    exact agree_goto h .start rfl hp nofun
  · have h10 : c ≠ 10 := by
      rintro rfl
      exact hsp rfl
    rw [if_neg h10, if_neg hsp, if_neg hsp]
    split_ifs
    · exact agree_goto h .comment rfl hp nofun
    · exact agree_awaits h hplace .startEscape rfl hproper nofun
    · exact agree_fail h
    · exact agree_fail h
    · exact agree_push h hcs .word (.inl rfl) (.inr (by simp))

/-- The start of a line after a comment. -/
theorem startAfter_agree (hproper : r.Proper) (hplace : r.place = .start) (hc : c ≠ 0)
    (hallow : Note.allows .after .nothing c) :
    Agree (Note.next .after .start .nothing c) (p.parseSep host c) (r.plain host c) := by
  have hp : Reader.Proper { r with place := .start } := by rwa [← hplace]
  have hcs : 0 ∉ [c] := by simpa using Ne.symm hc
  have hempty : p.execute host = .ok p := by
    rw [Reader.Proper, hplace] at hproper
    unfold execute
    simp only [h.buf_eq_nil hproper]
    rfl
  have hq : ¬(c = 34 ∨ c = 39) ∧ c ≠ 36 := by
    simpa [Note.allows, not_or] using hallow
  unfold parseSep Reader.plain Note.next
  simp only [hplace, hempty]
  by_cases h10 : c = 10
  · subst h10
    exact agree_goto h .start rfl hp nofun
  by_cases h35 : c = 35
  · subst h35
    exact agree_goto h .comment rfl hp nofun
  rw [if_neg h10, if_neg h35]
  by_cases hsp : isspace c = true
  · have hblank : c = 32 ∨ c = 9 ∨ c = 92 := by
      have hor : (c = 32 ∨ c = 9) ∨ c = 10 := by simpa [isspace] using hsp
      tauto
    rw [if_pos hsp, if_pos hblank, if_pos hsp]
    exact agree_goto h .startAfter rfl hp nofun
  · rw [if_neg hsp, if_neg hsp, if_neg h35]
    have hne : ¬(c = 32 ∨ c = 9) := by
      rintro (rfl | rfl)
      · exact hsp rfl
      · exact hsp rfl
    by_cases h92 : c = 92
    · rw [if_pos h92, if_pos (.inr (.inr h92)), if_pos h92]
      exact agree_awaits h hplace .startAfterEscape rfl hproper nofun
    · rw [if_neg h92, if_neg (by tauto), if_neg (by tauto), if_neg hq.2, if_neg (by tauto),
        if_neg h92,
        if_neg hq.1, if_neg hq.2]
      exact agree_push h hcs .word (.inl rfl) (.inr (by simp))

/-- Between words. -/
theorem gap_agree (hproper : r.Proper) (hplace : r.place = .gap) (hc : c ≠ 0) :
    Agree .none (p.parseSep host c) (r.plain host c) := by
  have hp := hproper
  rw [Reader.Proper, hplace] at hproper
  have hcs : 0 ∉ [c] := by simpa using Ne.symm hc
  unfold parseSep Reader.plain
  simp only [hplace]
  split_ifs
  · exact agree_execute h hproper.2 hproper.1 .start (.inl rfl)
  · exact agree_execute h hproper.2 hproper.1 .comment (.inr rfl)
  · exact agree_goto h .gap rfl hproper nofun
  · exact agree_awaits h hplace .gapEscape rfl hp nofun
  · exact agree_goto h .dquote rfl (.inl hproper.1) nofun
  · exact agree_goto h .squote rfl (.inl hproper.1) nofun
  · exact agree_goto h .wordDollar rfl (.inl hproper.1) nofun
  · exact agree_push h hcs .word (.inl rfl) (.inl hproper.1)

/-- In a bare word. -/
theorem word_agree (hp : r.Proper) (hplace : r.place = .word) (hc : c ≠ 0) :
    Agree .none (p.parseArg host c) (r.plain host c) := by
  have hcs : 0 ∉ [c] := by simpa using Ne.symm hc
  have hwords : r.close.words ≠ [] := by simp [Reader.close]
  unfold parseArg Reader.plain
  simp only [hplace]
  split_ifs
  · exact agree_awaits h hplace .wordDollar rfl hp nofun
  · exact agree_awaits h hplace .wordEscape rfl hp nofun
  · exact agree_execute h.close rfl hwords .comment (.inr rfl)
  · exact agree_execute h.close rfl hwords .start (.inl rfl)
  · exact agree_goto h.close .gap rfl ⟨hwords, rfl⟩ nofun
  · exact agree_fail h
  · exact agree_push h hcs .word (.inl rfl) (.inr (by simp))

/-- In a bare word of which the parser does not know yet. -/
theorem wordEscapes_agree (hp : r.Proper) (hplace : r.place = .word) (hc : c ≠ 0)
    (hallow : Note.allows .escapes .nothing c) :
    Agree (Note.next .escapes .word .nothing c) (p.parseNil c) (r.plain host c) := by
  have hcs : 0 ∉ [c] := by simpa using Ne.symm hc
  have hall : (isspace c = false ∧ ¬c = 35) ∧ ¬c = 36 := by
    simpa [Note.allows] using hallow
  obtain ⟨⟨hsp, h35⟩, h36⟩ := hall
  have h10 : c ≠ 10 := by
    rintro rfl
    cases hsp
  unfold parseNil Reader.plain Note.next
  simp only [hplace, hsp, if_neg h10, if_neg h35, if_neg h36, Bool.false_eq_true, if_false]
  split_ifs
  · exact agree_awaits h hplace .wordEscapesEscape rfl hp nofun
  · exact agree_fail h
  · exact agree_push h hcs .word (.inl rfl) (.inr (by simp))

/-- In double quotes. -/
theorem dquote_agree (hp : r.Proper) (hplace : r.place = .dquote) (hc : c ≠ 0) :
    Agree .none (p.parseDquot c) (r.plain host c) := by
  have hcs : 0 ∉ [c] := by simpa using Ne.symm hc
  have hwords : r.close.words ≠ [] := by simp [Reader.close]
  unfold parseDquot Reader.plain
  simp only [hplace]
  split_ifs
  · exact agree_goto h.close .shut rfl ⟨hwords, rfl⟩ nofun
  · exact agree_awaits h hplace .dquoteDollar rfl hp nofun
  · exact agree_awaits h hplace .dquoteEscape rfl hp nofun
  · exact agree_push h hcs .dquote (.inr (.inl rfl)) (.inr (by simp))

/-- In single quotes. -/
theorem squote_agree (hp : r.Proper) (hplace : r.place = .squote) (hc : c ≠ 0) :
    Agree .none (p.parseSquot c) (r.plain host c) := by
  have hcs : 0 ∉ [c] := by simpa using Ne.symm hc
  have hwords : r.close.words ≠ [] := by simp [Reader.close]
  unfold parseSquot Reader.plain
  simp only [hplace]
  split_ifs
  · exact agree_awaits h hplace .squoteEscape rfl hp nofun
  · exact agree_goto h.close .shut rfl ⟨hwords, rfl⟩ nofun
  · exact agree_push h hcs .squote (.inr (.inr rfl)) (.inr (by simp))

/-- Behind a quoted word. -/
theorem shut_agree (hproper : r.Proper) (hplace : r.place = .shut) :
    Agree .none (p.parseTrail host c) (r.plain host c) := by
  rw [Reader.Proper, hplace] at hproper
  unfold parseTrail Reader.plain
  simp only [hplace]
  split_ifs
  · exact agree_execute h hproper.2 hproper.1 .start (.inl rfl)
  · exact agree_execute h hproper.2 hproper.1 .comment (.inr rfl)
  · exact agree_goto h .gap rfl hproper nofun
  · exact agree_fail h

/-- In a comment. -/
theorem comment_agree (hproper : r.Proper) (hplace : r.place = .comment) :
    Agree (Note.next .none .comment .nothing c) (p.parseCommt c) (r.plain host c) := by
  rw [Reader.Proper, hplace] at hproper
  unfold parseCommt Reader.plain Note.next
  simp only [hplace]
  split_ifs
  · exact agree_goto h .startAfter rfl hproper nofun
  · exact agree_goto h .comment rfl hproper nofun

end

lemma unescape_ne_zero (hc : c ≠ 0) : 0 ∉ [unescape c] := by
  rw [mem_singleton, unescape]
  split_ifs
  · decide
  · decide
  · exact Ne.symm hc

/-- After a dollar sign. -/
theorem dollar_agree {st' : St} (h : Same p r []) (hproper : r.Proper) (hplace : r.place = place)
    (hopen : place = .word ∨ place = .dquote ∨ place = .squote) (hc : c ≠ 0)
    (hname : Step .none place (.name [c]) st') (hback : Step .none place .nothing st)
    (hpending : r.pending = .dollar) :
    Agree .none
      (if isalpha c then (p.pushVar c).goto st'
        else if !isspace c then do
          let p ← p.substSpecial host c
          p.goto st
        else p.fatal "missing variable name") (r.read host c) := by
  unfold Reader.read
  simp only [hpending]
  split_ifs
  · exact agree_var h hc hname hplace hproper
  · unfold substSpecial
    rcases special host c with _ | val
    · exact agree_fail h
    · have hne : r.words ≠ [] ∨ r.cur ≠ [] := by
        rw [Reader.Proper, hplace] at hproper
        rcases hopen with rfl | rfl | rfl <;> exact hproper
      subst hplace
      exact agree_push h val.nonul hback hopen
        (hne.imp_right fun hcur => append_ne_nil_of_left_ne_nil hcur _)
  · exact agree_fail h

/-- After a name, or in it. -/
theorem name_agree {f : Parser E → UInt8 → Except Fatal (Parser E)}
    (h : Same p r n) (hproper : r.Proper) (hplace : r.place = place)
    (hopen : place = .word ∨ place = .dquote ∨ place = .squote) (hc : c ≠ 0)
    (hvar : p.var = some (joined 0 r.words r.cur).length)
    (hname : Step .none place (.name (n ++ [c])) st)
    (hf : ∀ (p : Parser E) (r : Reader E), Same p r [] → r.Proper → r.place = place →
      Agree .none (f p c) (r.plain host c)) (hpending : r.pending = .name n) :
    Agree .none
      (if isalnum c then (p.pushChar c).goto st
        else do
          let p ← p.substVar host
          f p c) (r.read host c) := by
  unfold Reader.read
  simp only [hpending]
  split_ifs
  · exact agree_name h hc hvar hname hplace hproper
  · rcases same_subst host h hvar with ⟨f', g, hp, hr, hlog⟩ |
      ⟨p', r', hp, hr, hsame, hpl, hwords, hcur⟩
    · rw [hp, hr]
      exact hlog
    · rw [hp, hr]
      refine hf p' r' hsame ?_ (hpl.trans hplace)
      rw [Reader.Proper, hplace] at hproper
      rw [Reader.Proper, hpl, hplace, hwords]
      rcases hopen with rfl | rfl | rfl <;> exact hproper.imp_right hcur

/-- **One character** leaves the parser in step. -/
theorem read_agree (h : Sync note p r) (hc : c ≠ 0) (hallow : note.allows r.pending c) :
    Agree (note.next r.place r.pending c) (p.dispatch host c) (r.read host c) := by
  obtain ⟨hstep, hproper, hsame, hvar⟩ := h
  have hesc := unescape_ne_zero hc
  generalize hpl : r.place = pl at hstep hallow ⊢
  generalize hpe : r.pending = pe at hstep hallow hsame hvar ⊢
  generalize hst : p.state = st at hstep
  have hp := hproper
  rw [Reader.Proper, hpl] at hp
  cases hstep with
  | start =>
    rw [dispatch, hst, Reader.read, hpe]
    exact start_agree hsame hproper hpl hc
  | startAfter =>
    rw [dispatch, hst, Reader.read, hpe]
    exact startAfter_agree hsame hproper hpl hc hallow
  | startEscape =>
    rw [dispatch, hst, Reader.read, hpe]
    simp only [parseNibsl, Reader.escaped, hpl, Note.next]
    split_ifs
    · exact agree_goto hsame .start rfl hp (by rintro _ ⟨⟩)
    · exact agree_push hsame hesc .wordEscapes (.inl rfl) (.inr (by simp))
  | startAfterEscape =>
    rw [dispatch, hst, Reader.read, hpe]
    simp only [parseSebsl, Reader.escaped, hpl, Note.next]
    split_ifs
    · exact agree_goto hsame .startAfter rfl hp (by rintro _ ⟨⟩)
    · exact agree_push hsame hesc .word (.inl rfl) (.inr (by simp))
  | gap =>
    rw [dispatch, hst, Reader.read, hpe]
    exact gap_agree hsame hproper hpl hc
  | gapEscape =>
    rw [dispatch, hst, Reader.read, hpe]
    simp only [parseSebsl, Reader.escaped, hpl, Note.next]
    split_ifs
    · exact agree_goto hsame .gap rfl hp (by rintro _ ⟨⟩)
    · exact agree_push hsame hesc .word (.inl rfl) (.inr (by simp))
  | word =>
    rw [dispatch, hst, Reader.read, hpe]
    exact word_agree hsame hproper hpl hc
  | wordEscapes =>
    rw [dispatch, hst, Reader.read, hpe]
    exact wordEscapes_agree hsame hproper hpl hc hallow
  | wordEscape =>
    rw [dispatch, hst, Reader.read, hpe]
    simp only [parseArbsl, Reader.escaped, hpl, Note.next]
    exact agree_push hsame hesc .word (.inl rfl) (.inr (by simp))
  | wordEscapesEscape =>
    have h10 : c ≠ 10 := by simpa [Note.allows] using hallow
    rw [dispatch, hst, Reader.read, hpe]
    simp only [parseNibsl, Reader.escaped, hpl, Note.next, if_neg h10]
    exact agree_push hsame hesc .wordEscapes (.inl rfl) (.inr (by simp))
  | wordDollar =>
    rw [dispatch, hst]
    exact dollar_agree hsame hproper hpl (.inl rfl) hc (.wordName [c]) .word hpe
  | wordName n =>
    rw [dispatch, hst]
    exact name_agree hsame hproper hpl (.inl rfl) hc (hvar n rfl) (.wordName _)
      (fun p r hs hp hr => word_agree hs hp hr hc) hpe
  | dquote =>
    rw [dispatch, hst, Reader.read, hpe]
    exact dquote_agree hsame hproper hpl hc
  | dquoteEscape =>
    rw [dispatch, hst, Reader.read, hpe]
    simp only [parseDqbsl, Reader.escaped, hpl, Note.next]
    split_ifs
    · exact agree_goto hsame .dquote rfl hp (by rintro _ ⟨⟩)
    · exact agree_push hsame hesc .dquote (.inr (.inl rfl)) (.inr (by simp))
  | dquoteDollar =>
    rw [dispatch, hst]
    exact dollar_agree hsame hproper hpl (.inr (.inl rfl)) hc (.dquoteName [c]) .dquote hpe
  | dquoteName n =>
    rw [dispatch, hst]
    exact name_agree hsame hproper hpl (.inr (.inl rfl)) hc (hvar n rfl) (.dquoteName _)
      (fun p r hs hp hr => dquote_agree hs hp hr hc) hpe
  | squote =>
    rw [dispatch, hst, Reader.read, hpe]
    exact squote_agree hsame hproper hpl hc
  | squoteEscape =>
    rw [dispatch, hst, Reader.read, hpe]
    simp only [parseSqbsl, Reader.escaped, hpl, Note.next]
    split_ifs
    · exact agree_goto hsame .squote rfl hp (by rintro _ ⟨⟩)
    · exact agree_push hsame hesc .squote (.inr (.inr rfl)) (.inr (by simp))
  | shut =>
    rw [dispatch, hst, Reader.read, hpe]
    exact shut_agree hsame hproper hpl
  | comment =>
    rw [dispatch, hst, Reader.read, hpe]
    exact comment_agree hsame hproper hpl

end Actions

/-! ### Scripts -/

section Scripts

variable {note : Note} {p : Parser E} {r : Reader E} {c : UInt8}

lemma readChar_agree (host : Host E) (h : Sync note p r) (hc : c ≠ 0)
    (hallow : note.allows r.pending c) :
    Agree (note.next r.place r.pending c) (p.parseChar host c) (r.readChar host c) := by
  rw [parseChar, if_neg hc, Reader.readChar]
  refine (read_agree h hc hallow).bind fun p' r' _ _ hs => ?_
  split_ifs
  · obtain ⟨hstep, hproper, hsame, hvar⟩ := hs
    exact ⟨hstep, hproper, ⟨hsame.env, congrArg (· + 1) hsame.line, hsame.log, hsame.buf,
      hsame.words,
      hsame.cur, hsame.name⟩, hvar⟩
  · exact hs

/-- The commands that a run of the parser has come to. -/
def Parser.logOf : Except Fatal (Parser E) → Log
  | .ok p => p.log
  | .error f => f.log

lemma execute_log {place : Place} (h : Same p r []) (hcur : r.cur = []) (hwords : r.words ≠ []) :
    logOf (p.execute host) = Reader.logOf (r.finish host place) := by
  have hbuf := h.buf
  rw [hcur, append_nil] at hbuf
  have hargv : (pieces 0 p.buf).1 = r.words := by
    rw [hbuf, pieces_joined h.words not_mem_nil]
  unfold execute Reader.finish
  simp only [hargv, if_neg hwords, h.env, h.line, h.log]
  rcases host.run r.env r.words with msg | env
  · rfl
  · rfl

/-- There is something on the heap once a word has been started. -/
theorem buf_ne_nil {n : List UInt8} (h : Same p r n) (hne : r.words ≠ [] ∨ r.cur ≠ []) :
    p.buf ≠ [] := by
  rw [h.buf, joined]
  rcases hne with hw | hc
  · obtain ⟨d, ds, hds⟩ := exists_cons_of_ne_nil hw
    simp [hds]
  · simp [hc]

/-- The end of the script. -/
theorem ended_log (h : Sync note p r) (hnote : note ≠ .escapes)
    (hname : ∀ n, r.pending = .name n → r.place ≠ .word) :
    logOf (p.parseFinish host) = Reader.logOf (r.ended host) := by
  obtain ⟨hstep, hproper, hsame, hvar⟩ := h
  generalize hpl : r.place = pl at hstep hname
  generalize hpe : r.pending = pe at hstep hsame hvar hname
  generalize hst : p.state = st at hstep
  rw [Reader.Proper, hpl] at hproper
  have hlog := hsame.log
  have hfatal : ∀ msg msg', logOf (p.fatal msg : Except Fatal (Parser E)) =
      Reader.logOf (r.fail msg' : Except Fatal (Reader E)) :=
    fun _ _ => hlog
  -- a line without words, or a comment
  have hidle : r.words = [] ∧ r.cur = [] → pe.text = [] → p.parseFinish host = .ok p := by
    intro hnil ht
    rw [ht] at hsame
    rw [parseFinish, if_pos (hsame.buf_eq_nil hnil)]
  have hbusy : r.words ≠ [] ∨ r.cur ≠ [] → p.buf ≠ [] := buf_ne_nil hsame
  unfold Reader.ended Reader.stop
  cases hstep with
  | start | startAfter | comment =>
    rw [hidle hproper rfl]
    simp only [hpe, hpl]
    exact hlog
  | startEscape | startAfterEscape =>
    rw [hidle hproper rfl]
    simp only [hpe]
    exact hlog
  | gap | shut =>
    rw [parseFinish, if_neg (hbusy (.inl hproper.1)), hst]
    simp only [hpe, hpl]
    exact execute_log hsame hproper.2 hproper.1
  | gapEscape =>
    rw [parseFinish, if_neg (hbusy (.inl hproper.1)), hst]
    simp only [hpe]
    exact hfatal _ _
  | word =>
    rw [parseFinish, if_neg (hbusy hproper), hst]
    simp only [hpe, hpl]
    exact execute_log hsame.close rfl (by simp [Reader.close])
  | wordEscapes => exact absurd rfl hnote
  | wordEscapesEscape => exact absurd rfl hnote
  | wordName n => exact absurd rfl (hname n rfl)
  | wordEscape | wordDollar | dquoteEscape | dquoteDollar | squoteEscape =>
    rw [parseFinish, if_neg (hbusy hproper), hst]
    simp only [hpe]
    exact hfatal _ _
  | dquote | squote =>
    rw [parseFinish, if_neg (hbusy hproper), hst]
    simp only [hpe, hpl]
    exact hfatal _ _
  | dquoteName n =>
    rw [parseFinish, if_neg (hbusy hproper), hst]
    simp only [hpe, Reader.subst]
    rcases host.valueof r.env n with _ | val
    · exact hfatal _ _
    · simp only [Reader.take, hpl]
      exact hlog

/-- **A part of the script** keeps them in step, or ends both of them. -/
theorem parse_sync {a b : List UInt8} (h : Sync note p r) (hs : 0 ∉ a)
    (hclean : Clean host note r (a ++ b)) :
    (∃ f g, p.parse host a = .error f ∧ a.foldlM (Reader.readChar host) r = .error g ∧
      f.log = g.log) ∨
    (∃ note' p' r', p.parse host a = .ok p' ∧ a.foldlM (Reader.readChar host) r = .ok r' ∧
      Sync note' p' r' ∧ Clean host note' r' b) := by
  induction a generalizing note p r with
  | nil => exact .inr ⟨note, p, r, rfl, rfl, h, hclean⟩
  | cons c a ih =>
    have hc : c ≠ 0 := by
      rintro rfl
      exact hs mem_cons_self
    obtain ⟨hallow, hnext⟩ := hclean
    have hagree := readChar_agree host h hc hallow
    rw [parse, foldlM_cons, foldlM_cons]
    generalize hx : p.parseChar host c = x at hagree ⊢
    generalize hy : r.readChar host c = y at hagree hnext ⊢
    rcases x with f | p'
    · rcases y with g | r'
      · exact .inl ⟨f, g, rfl, rfl, hagree⟩
      · exact hagree.elim
    · rcases y with g | r'
      · exact hagree.elim
      · exact ih hagree (fun hmem => hs (mem_cons_of_mem c hmem)) (hnext r' rfl)

lemma sync_init (env : E) : Sync .none (init env) (Reader.init env) :=
  ⟨.start, ⟨rfl, rfl⟩, ⟨rfl, rfl, rfl, rfl, fun _ hd => (nomatch hd), not_mem_nil, not_mem_nil⟩,
    nofun⟩

variable {script : List UInt8}

/-- A script that keeps the parser in step runs the commands it means. -/
theorem executed_of_clean {env : E} (hs : 0 ∉ script)
    (h : Clean host .none (Reader.init env) script) :
    executed host env script = Reader.meaning host env script := by
  unfold executed Reader.meaning
  rw [← append_nil script] at h
  rcases parse_sync (sync_init env) hs h with ⟨f, g, hp, hr, hlog⟩ |
    ⟨note, p, r, hp, hr, hsync, hend⟩
  · rw [hp, hr]
    exact hlog
  · rw [hp, hr]
    exact ended_log hsync hend.1 hend.2

/-- Nothing is left of a line where the next one starts. -/
theorem Sync.buf_eq_nil (h : Sync note p r) (hplace : r.place = .start) : p.buf = [] := by
  have hproper := h.proper
  have hstep := h.step
  have hsame := h.same
  rw [Reader.Proper, hplace] at hproper
  rw [hplace] at hstep
  have htext : r.pending.text = [] := by
    generalize r.pending = pending at hstep
    generalize p.state = st at hstep
    cases hstep <;> rfl
  rw [htext] at hsame
  exact hsame.buf_eq_nil hproper

lemma next_newline_ne {place : Place} {pending : Pending} (h : note ≠ .escapes) :
    note.next place pending 10 ≠ .escapes := by
  unfold Note.next
  split
  case h_5 | h_6 => exact absurd rfl h
  all_goals simp

/-- A final end of line does no harm. -/
theorem Clean.newline (h : Clean host note r script) : Clean host note r (script ++ [10]) := by
  induction script generalizing note r with
  | nil =>
    refine ⟨?_, fun r' hr' => ⟨next_newline_ne h.1, fun n hn => ?_⟩⟩
    · unfold Note.allows
      split
      case h_2 | h_3 => exact absurd rfl h.1
      all_goals rfl
    · rw [Reader.newline_pending hr'] at hn
      cases hn
  | cons c script ih => exact ⟨h.1, fun r' hr' => ih (h.2 r' hr')⟩

lemma meaning_eq {env : E} :
    Reader.meaning host env script =
      Reader.logOf (script.foldlM (Reader.readChar host)
        (Reader.init env) >>= Reader.ended host) := by
  unfold Reader.meaning Reader.logOf
  rfl

/-- What a script means depends on a part of it only by where that leads to. -/
theorem meaning_append {env : E} {a b b' : List UInt8}
    (h : ∀ r, a.foldlM (Reader.readChar host) (Reader.init env) = .ok r →
      Reader.logOf (b.foldlM (Reader.readChar host) r >>= Reader.ended host) =
        Reader.logOf (b'.foldlM (Reader.readChar host) r >>= Reader.ended host)) :
    Reader.meaning host env (a ++ b) = Reader.meaning host env (a ++ b') := by
  rw [meaning_eq, meaning_eq, foldlM_append, foldlM_append]
  rcases hr : a.foldlM (Reader.readChar host) (Reader.init env) with f | r
  · rfl
  · exact h r hr

/-- **The parser runs the commands that a script means**, if the script keeps it in step. So a final
end of line makes no difference, unless a backslash is before it, and neither does a comment; and
nothing is left of a line where the next one starts. -/
theorem executed_eq_meaning (host : Host E) (env : E) (script : List UInt8) (hs : 0 ∉ script)
    (h : Clean host .none (Reader.init env) script) :
    executed host env script = Reader.meaning host env script ∧
    ((∀ r, script.foldlM (Reader.readChar host) (Reader.init env) = .ok r → r.pending ≠ .escape) →
      executed host env (script ++ [10]) = executed host env script) ∧
    (∀ a com b r, script = a ++ (35 :: com ++ b) → 10 ∉ com → (b = [] ∨ ∃ b', b = 10 :: b') →
      a.foldlM (Reader.readChar host) (Reader.init env) = .ok r → r.Bare →
      Clean host .none (Reader.init env) (a ++ b) →
      executed host env (a ++ b) = executed host env script) ∧
    (∀ a b p r, script = a ++ b → (init env).parse host a = .ok p →
      a.foldlM (Reader.readChar host) (Reader.init env) = .ok r → r.place = .start →
        p.buf = []) := by
  refine ⟨executed_of_clean hs h, fun hr => ?_, ?_, ?_⟩
  · have hs' : 0 ∉ script ++ [10] := by simp [hs]
    rw [executed_of_clean hs' h.newline, executed_of_clean hs h]
    have hsame : Reader.meaning host env (script ++ [10]) = Reader.meaning host env
      (script ++ []) := by
      refine meaning_append fun r hok => ?_
      simp only [foldlM_cons, foldlM_nil, bind_pure, pure_bind]
      exact Reader.newline_log (hr r hok)
    rw [hsame, append_nil]
  · rintro a com b r rfl hcom hb hok hbare hclean
    have hs' : 0 ∉ a ++ b := by
      simp only [mem_append, not_or] at hs ⊢
      exact ⟨hs.1, hs.2.2⟩
    rw [executed_of_clean hs' hclean, executed_of_clean hs h]
    refine meaning_append fun r' hok' => ?_
    obtain rfl : r' = r := Except.ok.inj (hok'.symm.trans hok)
    exact (Reader.comment_log hbare hcom hb).symm
  · rintro a b p r rfl hp hr hplace
    have ha : 0 ∉ a := fun hmem => hs (mem_append_left b hmem)
    rcases parse_sync (sync_init env) ha h with ⟨f, g, hp', -, -⟩ |
      ⟨note, p', r', hp', hr', hsync, -⟩
    · rw [hp] at hp'
      cases hp'
    · obtain rfl : p' = p := Except.ok.inj (hp'.symm.trans hp)
      obtain rfl : r' = r := Except.ok.inj (hr'.symm.trans hr)
      exact hsync.buf_eq_nil hplace

end Scripts

lemma Clean.cons {note : Note} {r r' : Reader E} {c : UInt8} {script : List UInt8}
    (hallow : note.allows r.pending c) (hr : r.readChar host c = .ok r')
    (h : Clean host (note.next r.place r.pending c) r' script) : Clean host note r
    (c :: script) := by
  refine ⟨hallow, fun r₁ hr₁ => ?_⟩
  obtain rfl : r₁ = r' := Except.ok.inj (hr₁.symm.trans hr)
  exact h

/-- A shell where every variable is `x`, and no command does anything. -/
def sampleHost : Host Unit where
  valueof _ _ := some ⟨[120], by decide⟩
  pid := ⟨[49], by decide⟩
  topargv := []
  run _ _ := .ok ()

/-- `a $b` and a comment. -/
theorem executed_eq_meaning_sample :
    executed sampleHost () [97, 32, 36, 98, 35] = [(1, [[97], [120]])] ∧
    executed sampleHost () [97, 32, 36, 98, 35] =
      Reader.meaning sampleHost () [97, 32, 36, 98, 35] := by
  refine ⟨by decide +kernel, ?_⟩
  refine (executed_eq_meaning sampleHost () [97, 32, 36, 98, 35] (by decide) ?_).1
  refine Clean.cons rfl rfl (Clean.cons rfl rfl
    (Clean.cons rfl rfl (Clean.cons rfl rfl (Clean.cons rfl rfl ?_))))
  exact ⟨nofun, nofun⟩

/-- Three scripts that get the parser out of step: in `\a b` there are two words, and it runs `ab`;
a quoted word is no command, but it runs one after a comment; and a command that ends in a variable
at the end of the script is not run. -/
theorem executed_differs :
    (executed sampleHost () [92, 97, 32, 98, 10] = [(1, [[97, 98]])] ∧
      Reader.meaning sampleHost () [92, 97, 32, 98, 10] = [(1, [[97], [98]])]) ∧
    (executed sampleHost () [35, 10, 34, 97, 34, 10] = [(2, [[97]])] ∧
      Reader.meaning sampleHost () [35, 10, 34, 97, 34, 10] = []) ∧
    (executed sampleHost () [97, 32, 36, 98] = [] ∧
      Reader.meaning sampleHost () [97, 32, 36, 98] = [(1, [[97], [120]])]) := by
  decide +kernel

end Msh

end Minibase
