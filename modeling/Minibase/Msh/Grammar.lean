import Minibase.Msh.Parser

/-!
# The language of msh scripts

What a script means, said in terms of words and not of the heap. A reader goes through the script
and is always in some place of a line (`Msh.Place`); independently of that, a backslash or a dollar
sign may be waiting for what follows it (`Msh.Pending`).

* Words are separated by blanks. A bare word ends at a blank, at the end of the line or at a
  comment; a quoted one at its closing quote, and there has to be a blank after that.
* A backslash makes the next character part of the word, and starts one where there is none. Before
  the end of a line it only hides it, except in a bare word, of which the end of line becomes part.
* A dollar sign and a name, or one of the special characters, stand for a value, which is never
  taken apart again. There are none of these in single quotes.
* The first word of a line is bare, and does not start with a dollar sign.
* A command ends at the end of the line, at a comment, or at the end of the script, and is run
  then. A line without words is none.
-/

namespace Minibase.Msh

open List

/-- Where in a line a reader is. -/
inductive Place
  | start
  | gap
  | word
  | dquote
  | squote
  | shut
  | comment
deriving DecidableEq, Repr

/-- What is waiting for the next character. -/
inductive Pending
  | nothing
  | escape
  | dollar
  | name (n : List UInt8)
deriving DecidableEq, Repr

/-- A reader in the middle of a script: the words of the command before the one it is in, and that
one as far as it has been read. -/
structure Reader (E : Type) where
  place : Place
  pending : Pending
  words : List (List UInt8)
  cur : List UInt8
  line : ℕ
  env : E
  log : Log

namespace Reader

variable {E : Type} (host : Host E) (r : Reader E)

open Minibase.Msh.Parser (isspace isalpha isalnum unescape special)

/-- The script is not understood. -/
def fail {α : Type} (msg : String) : Except Fatal α := .error ⟨msg, r.log⟩

variable (place : Place)

/-- Goes on in another place. -/
def moved : Except Fatal (Reader E) :=
  .ok { r with place := place, pending := .nothing }

/-- Waits for what follows. -/
def awaits (pending : Pending) : Except Fatal (Reader E) := .ok { r with pending := pending }

/-- Takes characters as part of the word, which may be a new one. -/
def take (cs : List UInt8) : Except Fatal (Reader E) :=
  .ok { r with place := place, pending := .nothing, cur := r.cur ++ cs }

/-- The word is over. -/
def close : Reader E := { r with words := r.words ++ [r.cur], cur := [] }

/-- The command is over, and is run. -/
def finish : Except Fatal (Reader E) :=
  let log := r.log ++ [(r.line, r.words)]
  match host.run r.env r.words with
  | .error msg => .error ⟨msg, log⟩
  | .ok env =>
    .ok { r with place := place, pending := .nothing, words := [], env := env, log := log }

variable (c : UInt8)

/-- A character with nothing special before it. -/
def plain : Except Fatal (Reader E) :=
  match r.place with
  | .start =>
    if isspace c then r.moved .start
    else if c = 35 then r.moved .comment
    else if c = 92 then r.awaits .escape
    else if c = 34 ∨ c = 39 then r.fail "quoted command"
    else if c = 36 then r.fail "indirect command"
    else r.take .word [c]
  | .gap =>
    if c = 10 then r.finish host .start
    else if c = 35 then r.finish host .comment
    else if isspace c then r.moved .gap
    else if c = 92 then r.awaits .escape
    else if c = 34 then r.moved .dquote
    else if c = 39 then r.moved .squote
    else if c = 36 then { r with place := .word }.awaits .dollar
    else r.take .word [c]
  | .word =>
    if c = 36 then r.awaits .dollar
    else if c = 92 then r.awaits .escape
    else if c = 35 then r.close.finish host .comment
    else if c = 10 then r.close.finish host .start
    else if isspace c then r.close.moved .gap
    else if c = 34 ∨ c = 39 then r.fail "misplaced quotes"
    else r.take .word [c]
  | .dquote =>
    if c = 34 then r.close.moved .shut
    else if c = 36 then r.awaits .dollar
    else if c = 92 then r.awaits .escape
    else r.take .dquote [c]
  | .squote =>
    if c = 92 then r.awaits .escape
    else if c = 39 then r.close.moved .shut
    else r.take .squote [c]
  | .shut =>
    if c = 10 then r.finish host .start
    else if c = 35 then r.finish host .comment
    else if isspace c then r.moved .gap
    else r.fail "trailing characters after quote"
  | .comment => if c = 10 then r.moved .start else r.moved .comment

/-- A character after a backslash. -/
def escaped : Except Fatal (Reader E) :=
  match r.place with
  | .start | .gap => if c = 10 then r.moved r.place else r.take .word [unescape c]
  | .word => r.take .word [unescape c]
  | _ => if c = 10 then r.moved r.place else r.take r.place [unescape c]

/-- The value of a variable is put in its place. -/
def subst (n : List UInt8) : Except Fatal (Reader E) :=
  match host.valueof r.env n with
  | none => r.fail "undefined variable"
  | some val => r.take r.place val.chars

/-- One character. -/
def read : Except Fatal (Reader E) :=
  match r.pending with
  | .nothing => r.plain host c
  | .escape => r.escaped c
  | .dollar =>
    if isalpha c then r.awaits (.name [c])
    else if !isspace c then
      match special host c with
      | none => r.fail "undefined special variable"
      | some val => r.take r.place val.chars
    else r.fail "missing variable name"
  | .name n =>
    if isalnum c then r.awaits (.name (n ++ [c]))
    else do
      let r ← r.subst host n
      r.plain host c

/-- One character, and where that leads to. -/
def readChar : Except Fatal (Reader E) := do
  let r ← r.read host c
  return if c = 10 then { r with line := r.line + 1 } else r

/-- The end of the script, with nothing waiting for more. -/
def stop : Except Fatal (Reader E) :=
  match r.place with
  | .start | .comment => .ok r
  | .gap | .shut => r.finish host .start
  | .word => r.close.finish host .start
  | .dquote | .squote => r.fail "unexpected EOF"

/-- The end of the script. -/
def ended : Except Fatal (Reader E) :=
  match r.pending with
  | .nothing => r.stop host
  | .name n => do
    let r ← r.subst host n
    r.stop host
  | .escape | .dollar => r.fail "unexpected EOF"

/-- Before the script. -/
def init (env : E) : Reader E :=
  { place := .start, pending := .nothing, words := [], cur := [], line := 1, env := env, log := [] }

/-- **What a script means**: the commands it has run. -/
def meaning (env : E) (script : List UInt8) : Log :=
  match (do
    let r ← script.foldlM (readChar host) (init env)
    r.ended host : Except Fatal (Reader E)) with
  | .ok r => r.log
  | .error f => f.log

/-! ### Ends of lines and comments -/

/-- The commands that a run of the reader has come to. -/
def logOf : Except Fatal (Reader E) → Log
  | .ok r => r.log
  | .error f => f.log

/-- A number sign starts a comment here. -/
structure Bare (r : Reader E) : Prop where
  escape : r.pending ≠ .escape
  dollar : r.pending ≠ .dollar
  dquote : r.place ≠ .dquote
  squote : r.place ≠ .squote

/-- The end of what can be a command, in a place where quotes are closed. -/
def lineEnd : Except Fatal (Reader E) :=
  match r.place with
  | .start | .comment => r.moved place
  | .gap | .shut => r.finish host place
  | .word => r.close.finish host place
  | .dquote | .squote => r.take r.place [10]

variable {host r}

lemma plain_newline : r.plain host 10 = r.lineEnd host .start := by
  unfold plain lineEnd
  rcases hplace : r.place <;> rfl

lemma plain_hash (hd : r.place ≠ .dquote) (hs : r.place ≠ .squote) :
    r.plain host 35 = r.lineEnd host .comment := by
  unfold plain lineEnd
  rcases hplace : r.place
  case dquote => exact absurd hplace hd
  case squote => exact absurd hplace hs
  all_goals rfl

/-- Behind the comment, it is as if there was none. -/
theorem lineEnd_comment (hd : r.place ≠ .dquote) (hs : r.place ≠ .squote) :
    (∃ f, r.lineEnd host .comment = .error f ∧ r.lineEnd host .start = .error f) ∨
    (∃ r' : Reader E, r'.pending = .nothing ∧
      r.lineEnd host .comment = .ok { r' with place := .comment } ∧
      r.lineEnd host .start = .ok { r' with place := .start }) := by
  have hfinish : ∀ r : Reader E,
      (∃ f, r.finish host .comment = .error f ∧ r.finish host .start = .error f) ∨
      (∃ r' : Reader E, r'.pending = .nothing ∧
        r.finish host .comment = .ok { r' with place := .comment } ∧
        r.finish host .start = .ok { r' with place := .start }) := by
    intro r
    unfold finish
    rcases host.run r.env r.words with msg | env
    · exact .inl ⟨_, rfl, rfl⟩
    · exact .inr ⟨{ r with pending := .nothing, words := [], env := env, log := _ }, rfl, rfl, rfl⟩
  unfold lineEnd
  rcases hplace : r.place
  case dquote => exact absurd hplace hd
  case squote => exact absurd hplace hs
  case start | comment => exact .inr ⟨{ r with pending := .nothing }, rfl, rfl, rfl⟩
  case gap | shut => exact hfinish r
  case word => exact hfinish r.close

/-- The end of the script is the end of a line. -/
theorem stop_log : logOf (r.stop host) = logOf (do
      let r ← r.lineEnd host .start
      { r with line := r.line + 1 }.ended host) := by
  unfold stop lineEnd
  rcases hplace : r.place
  case gap | shut =>
    unfold finish
    rcases host.run r.env r.words with msg | env <;> rfl
  case word =>
    unfold finish
    rcases host.run r.close.env r.close.words with msg | env <;> rfl
  all_goals rfl

lemma readChar_nothing (h : r.pending = .nothing) {c : UInt8} : r.readChar host c = (do
      let r ← r.plain host c
      return if c = 10 then { r with line := r.line + 1 } else r) := by
  rw [readChar, read, h]

/-- A name that is over is out of the way. -/
theorem name_over (host : Host E) {n : List UInt8} (h : r.pending = .name n) :
    (∃ f, r.subst host n = .error f ∧ r.ended host = .error f ∧
      ∀ c, isalnum c = false → r.readChar host c = .error f) ∨
    (∃ r', r.subst host n = .ok r' ∧ r'.pending = .nothing ∧ r'.place = r.place ∧
      r.ended host = r'.ended host ∧
      ∀ c, isalnum c = false → r.readChar host c = r'.readChar host c) := by
  have hread : ∀ c, isalnum c = false → r.read host c = (do
      let r ← r.subst host n
      r.plain host c) := by
    intro c hc
    rw [read, h]
    simp only [hc, Bool.false_eq_true, if_false]
  have hended : r.ended host = (do
      let r ← r.subst host n
      r.stop host) := by
    rw [ended, h]
  rcases hval : host.valueof r.env n with _ | val
  · have hsub : r.subst host n = r.fail "undefined variable" := by rw [subst, hval]
    rw [hsub] at hread hended
    exact .inl ⟨_, hsub, hended, fun c hc => by rw [readChar, hread c hc]; rfl⟩
  · have hsub : r.subst host n = r.take r.place val.chars := by rw [subst, hval]
    rw [hsub] at hread hended
    exact .inr ⟨_, hsub, rfl, rfl, hended, fun c hc => by rw [readChar, hread c hc]; rfl⟩

lemma finish_pending {place : Place} {r' : Reader E} (h : r.finish host place = .ok r') :
    r'.pending = .nothing := by
  unfold finish at h
  rcases hrun : host.run r.env r.words with msg | env
  · simp only [hrun] at h
    cases h
  · simp only [hrun] at h
    cases h
    rfl

/-- Nothing waits for more behind the end of a line. -/
theorem newline_pending {r' : Reader E} (h : r.readChar host 10 = .ok r') :
    r'.pending = .nothing := by
  have hplain : ∀ r₁ r₂ : Reader E, r₁.plain host 10 = .ok r₂ → r₂.pending = .nothing := by
    intro r₁ r₂ h
    rw [plain_newline, lineEnd] at h
    split at h
    · cases h
      rfl
    · cases h
      rfl
    · exact finish_pending h
    · exact finish_pending h
    · exact finish_pending h
    · cases h
      rfl
    · cases h
      rfl
  obtain ⟨r₁, hread, hr'⟩ := ok_of_bind h
  cases hr'
  show r₁.pending = .nothing
  unfold read at hread
  split at hread
  · exact hplain r r₁ hread
  · unfold escaped at hread
    split at hread
    all_goals
      cases hread
      rfl
  · cases hread
  · obtain ⟨r₂, -, hread⟩ := ok_of_bind hread
    exact hplain r₂ r₁ hread

/-- **A final end of line** changes nothing. -/
theorem newline_log (h : r.pending ≠ .escape) :
    logOf (r.readChar host 10 >>= ended host) = logOf (r.ended host) := by
  have hnothing : ∀ r : Reader E, r.pending = .nothing →
      logOf (r.readChar host 10 >>= ended host) = logOf (r.ended host) := by
    intro r hr
    have hended : r.ended host = r.stop host := by rw [ended, hr]
    rw [hended, stop_log, readChar_nothing hr, plain_newline]
    rcases r.lineEnd host .start with f | r' <;> rfl
  rcases hpending : r.pending with _ | _ | _ | n
  · exact hnothing r hpending
  · exact absurd hpending h
  · rw [readChar, read, ended, hpending]
    rfl
  · rcases name_over host hpending with ⟨f, -, hend, hread⟩ | ⟨r', -, hr', -, hend, hread⟩
    · rw [hread 10 rfl, hend]
      rfl
    · rw [hread 10 rfl, hend]
      exact hnothing r' hr'

/-- Nothing happens in a comment. -/
theorem comment_skip {com : List UInt8} (hplace : r.place = .comment)
    (hpending : r.pending = .nothing)
    (hcom : 10 ∉ com) : com.foldlM (readChar host) r = .ok r := by
  induction com with
  | nil => rfl
  | cons c com ih =>
    obtain ⟨hc, hcom⟩ := not_or.mp (mt mem_cons.mpr hcom)
    have hstay : r.readChar host c = .ok r := by
      rw [readChar_nothing hpending, plain, hplace]
      simp only [if_neg (Ne.symm hc)]
      show Except.ok { r with place := .comment, pending := .nothing } = _
      rw [← hplace, ← hpending]
    rw [foldlM_cons, hstay]
    exact ih hcom

/-- A comment up to the end of its line. -/
theorem comment_run (host : Host E) {com : List UInt8} (hbare : r.Bare) (hcom : 10 ∉ com) :
    (∃ f, (35 :: com).foldlM (readChar host) r = .error f ∧ r.readChar host 10 = .error f) ∨
    (∃ r' : Reader E, r'.pending = .nothing ∧
      (35 :: com).foldlM (readChar host) r = .ok { r' with place := .comment } ∧
      r.readChar host 10 = .ok { r' with place := .start, line := r'.line + 1 }) := by
  have hnothing : ∀ r : Reader E, r.pending = .nothing → r.place ≠ .dquote → r.place ≠ .squote →
      (∃ f, r.readChar host 35 = .error f ∧ r.readChar host 10 = .error f) ∨
      (∃ r' : Reader E, r'.pending = .nothing ∧
        r.readChar host 35 = .ok { r' with place := .comment } ∧
        r.readChar host 10 = .ok { r' with place := .start, line := r'.line + 1 }) := by
    intro r hr hd hs
    rw [readChar_nothing hr, readChar_nothing hr, plain_newline, plain_hash hd hs]
    rcases lineEnd_comment hd hs with ⟨f, hc, hn⟩ | ⟨r', hr', hc, hn⟩
    · rw [hc, hn]
      exact .inl ⟨f, rfl, rfl⟩
    · rw [hc, hn]
      exact .inr ⟨r', hr', rfl, rfl⟩
  have hstep : (∃ f, r.readChar host 35 = .error f ∧ r.readChar host 10 = .error f) ∨
      (∃ r' : Reader E, r'.pending = .nothing ∧
        r.readChar host 35 = .ok { r' with place := .comment } ∧
        r.readChar host 10 = .ok { r' with place := .start, line := r'.line + 1 }) := by
    rcases hpending : r.pending with _ | _ | _ | n
    · exact hnothing r hpending hbare.dquote hbare.squote
    · exact absurd hpending hbare.escape
    · exact absurd hpending hbare.dollar
    · rcases name_over host hpending with ⟨f, -, -, hread⟩ | ⟨r', -, hr', hplace, -, hread⟩
      · exact .inl ⟨f, hread 35 rfl, hread 10 rfl⟩
      · rw [hread 35 rfl, hread 10 rfl]
        exact hnothing r' hr' (hplace ▸ hbare.dquote) (hplace ▸ hbare.squote)
  rcases hstep with ⟨f, hc, hn⟩ | ⟨r', hr', hc, hn⟩
  · exact .inl ⟨f, by rw [foldlM_cons, hc]; rfl, hn⟩
  · exact .inr ⟨r', hr', by rw [foldlM_cons, hc]; exact comment_skip rfl hr' hcom, hn⟩

/-- **A comment** is nothing. -/
theorem comment_log {com b : List UInt8} (hbare : r.Bare) (hcom : 10 ∉ com)
    (hb : b = [] ∨ ∃ b', b = 10 :: b') :
    logOf ((35 :: com ++ b).foldlM (readChar host) r >>= ended host) =
      logOf (b.foldlM (readChar host) r >>= ended host) := by
  have hlog : logOf (r.readChar host 10 >>= ended host) = logOf (r.ended host) :=
    newline_log hbare.escape
  rw [foldlM_append]
  rcases comment_run host hbare hcom with ⟨f, hc, hn⟩ | ⟨r', hpending, hc, hn⟩
  · rw [hc]
    rcases hb with rfl | ⟨b', rfl⟩
    · rw [hn] at hlog
      exact hlog
    · rw [foldlM_cons, hn]
      rfl
  · rw [hc]
    rcases hb with rfl | ⟨b', rfl⟩
    · rw [hn] at hlog
      refine Eq.trans ?_ hlog
      simp only [ended, bind, Except.bind, foldlM_nil, pure, Except.pure, hpending]
      rfl
    · have hback : readChar host { r' with place := .comment } 10 = r.readChar host 10 := by
        rw [hn, readChar_nothing (by exact hpending), hpending]
        rfl
      rw [foldlM_cons, ← hback, ← foldlM_cons]
      rfl

end Reader

end Minibase.Msh
