import Minibase.Dcrypt.Keyfile

/-!
# Typing a passphrase

`passblk_input.c`, as far as it is not about what is on the screen: `passblk` edits the line
itself, so that only printable characters get into the passphrase, and no more than there is
room for. Escape sequences are skipped, and so is what is still to come of a read once a
passphrase was wrong. A passphrase of printable characters that is typed on an empty line is
the one that is tried, however the terminal cuts it into pieces (`Dcrypt.entered_right`).
-/

namespace Minibase.Dcrypt

open List

/-! ### What the source computes -/

def MAXPASS : ℕ := 128

/-- Where in an escape sequence the input is: `IS_REG`, `IS_ESC` or `IS_CSI`. -/
inductive Keyst
  | reg
  | esc
  | csi
deriving DecidableEq

/-- The part of `struct top` that is about the passphrase: `pass` up to `plen`, whether the state is
`ST_INVALID`, and `keydata`. When a passphrase was right the program ends. -/
structure Entry where
  pass : List UInt8 := []
  invalid : Bool := false
  keyst : Keyst := .reg
  data : List UInt8
  opened : Bool := false

/-- What `poll` returns with: a read of one byte or more, or the end of the time to wait. -/
inductive Typed
  | input (c : UInt8) (rest : List UInt8)
  | timeout

/-- `unwrap_keydata`: whether it went well, and what is then in `keydata`. -/
def unwrapKeydata (scrypt : Scrypt) (data copy pass : List UInt8) : Bool × List UInt8 :=
  let wrapped := aes128Unwrap (scrypt pass (data.take 8)).data (data.drop 8)
  if memcmp (wrapped.take 8) testpad ≠ 0 then (false, copy) else (true, data.take 8 ++ wrapped)

namespace Entry

variable (scrypt : Scrypt) (copy : List UInt8)

/-- `enter_pass`. -/
def enterPass (ctx : Entry) : Entry :=
  if ctx.pass = [] then ctx
  else
    let (right, data) := unwrapKeydata scrypt ctx.data copy ctx.pass
    if right = true then { ctx with data := data, opened := true }
    else
      { ctx with data := data, pass := replicate ctx.pass.length 0, invalid := true }

def addChar (ctx : Entry) (c : UInt8) : Entry :=
  if MAXPASS ≤ ctx.pass.length then ctx else { ctx with pass := ctx.pass ++ [c] }

def delChar (ctx : Entry) : Entry := { ctx with pass := ctx.pass.dropLast }

def clearInput (ctx : Entry) : Entry := { ctx with pass := [] }

def resetInput (ctx : Entry) : Entry := { ctx with pass := [], invalid := false }

/-- `handle_reg_key`. Two keys, C-l and Tab, only change what is shown. -/
def handleRegKey (ctx : Entry) (c : UInt8) : Entry :=
  if ctx.invalid = true then ctx
  else if 0x20 ≤ c ∧ c < 0x7F then ctx.addChar c
  else if c = 0x7F then ctx.delChar
  else if c = 0x0C then ctx
  else if c = 0x0D then ctx.enterPass scrypt copy
  else if c = 0x08 then ctx.delChar
  else if c = 0x09 then ctx
  else if c = 0x15 then ctx.clearInput
  else ctx

def handleInchr (ctx : Entry) (c : UInt8) : Entry :=
  if ctx.opened = true then ctx
  else
    match ctx.keyst with
    | .reg => if c = 0x1B then { ctx with keyst := .esc } else ctx.handleRegKey scrypt copy c
    | .esc => { ctx with keyst := if c = 91 then .csi else .reg }
    | .csi => if 48 ≤ c ∧ c ≤ 57 ∨ c = 59 then ctx else { ctx with keyst := .reg }

/-- `handle_input` and `handle_timeout`. -/
def handle (ctx : Entry) : Typed → Entry
  | .input c rest =>
    (c :: rest).foldl (handleInchr scrypt copy) (if ctx.invalid = true then ctx.resetInput else ctx)
  | .timeout => if ctx.invalid = true then ctx.resetInput else ctx

end Entry

/-- What has become of the passphrase after all of this. -/
def entered (scrypt : Scrypt) (copy : List UInt8) (typed : List Typed) : Entry :=
  typed.foldl (Entry.handle scrypt copy) { data := copy }

/-! ### What is typed -/

/-- The bytes of a read. -/
def Typed.bytes : Typed → List UInt8
  | .input c rest => c :: rest
  | .timeout => []

/-- **A new line**: nothing has been typed, or what was typed was wrong. -/
structure Entry.Ready (ctx : Entry) : Prop where
  going : ctx.opened = false
  plain : ctx.keyst = .reg
  blank : ctx.pass = [] ∨ ctx.invalid = true

/-- A printable character. -/
def Printable (c : UInt8) : Prop := 0x20 ≤ c ∧ c < 0x7F

namespace Entry

variable {scrypt : Scrypt} {copy : List UInt8} {ctx : Entry}

/-! ### The keys of the file -/

/-- As long as no passphrase was right, the keys are as they were read. -/
def Kept (copy : List UInt8) (ctx : Entry) : Prop := ctx.opened = false → ctx.data = copy

lemma Kept.enterPass (h : ctx.Kept copy) : (ctx.enterPass scrypt copy).Kept copy := by
  rw [Entry.enterPass]
  split
  · exact h
  · dsimp only
    split
    · exact fun hopen => absurd hopen Bool.true_eq_false.mp
    · rename_i hwrong
      intro _
      show (unwrapKeydata scrypt ctx.data copy ctx.pass).2 = copy
      rw [unwrapKeydata] at hwrong ⊢
      split at hwrong
      · rename_i hcmp
        rw [if_pos hcmp]
      · exact absurd rfl hwrong

lemma Kept.handleRegKey (h : ctx.Kept copy) (c : UInt8) :
    (ctx.handleRegKey scrypt copy c).Kept copy := by
  have hadd : (ctx.addChar c).Kept copy := by
    rw [addChar]
    split
    · exact h
    · exact h
  rw [Entry.handleRegKey]
  split_ifs
  · exact h
  · exact hadd
  · exact h
  · exact h
  · exact h.enterPass
  · exact h
  · exact h
  · exact h
  · exact h

lemma Kept.handleInchr (h : ctx.Kept copy) (c : UInt8) :
    (ctx.handleInchr scrypt copy c).Kept copy := by
  rw [Entry.handleInchr]
  split
  · exact h
  · cases ctx.keyst with
    | reg =>
      dsimp only
      split
      · exact h
      · exact h.handleRegKey c
    | esc => exact h
    | csi =>
      dsimp only
      split
      · exact h
      · exact h

lemma Kept.handle (h : ctx.Kept copy) (ev : Typed) : (ctx.handle scrypt copy ev).Kept copy := by
  have hreset : (if ctx.invalid = true then ctx.resetInput else ctx).Kept copy := by
    split
    · exact h
    · exact h
  cases ev with
  | timeout => exact hreset
  | input c rest =>
    rw [Entry.handle]
    generalize (if ctx.invalid = true then ctx.resetInput else ctx) = ctx' at hreset
    generalize c :: rest = buf
    induction buf generalizing ctx' with
    | nil => exact hreset
    | cons c buf ih => exact ih _ (hreset.handleInchr c)

lemma entered_kept (typed : List Typed) : (entered scrypt copy typed).Kept copy := by
  have hall : ∀ ctx : Entry, ctx.Kept copy → (typed.foldl (handle scrypt copy) ctx).Kept copy := by
    induction typed with
    | nil => exact fun _ h => h
    | cons ev typed ih => exact fun ctx h => ih _ (h.handle ev)
  exact hall _ fun _ => rfl

/-! ### The line that is typed -/

/-- In the middle of a line, of which so much has been typed. -/
structure Amid (copy pass : List UInt8) (ctx : Entry) : Prop where
  going : ctx.opened = false
  valid : ctx.invalid = false
  plain : ctx.keyst = .reg
  pass : ctx.pass = pass
  data : ctx.data = copy

lemma Ready.amid (h : ctx.Ready) (hkept : ctx.Kept copy) :
    (if ctx.invalid = true then ctx.resetInput else ctx).Amid copy [] := by
  by_cases hinv : ctx.invalid = true
  · rw [if_pos hinv]
    exact ⟨h.going, rfl, h.plain, rfl, hkept h.going⟩
  · rw [if_neg hinv]
    exact ⟨h.going, Bool.eq_false_iff.mpr hinv, h.plain, h.blank.resolve_right hinv, hkept h.going⟩

variable {pass : List UInt8}

lemma Amid.inchr (h : ctx.Amid copy pass) {c : UInt8} (hesc : c ≠ 0x1B) :
    ctx.handleInchr scrypt copy c = ctx.handleRegKey scrypt copy c := by
  rw [handleInchr, if_neg (by rw [h.going]; decide), h.plain]
  exact if_neg hesc

/-- A printable character more. -/
theorem Amid.char (h : ctx.Amid copy pass) {c : UInt8} (hc : Printable c)
    (hlen : pass.length < MAXPASS) : (ctx.handleInchr scrypt copy c).Amid copy (pass ++ [c]) := by
  have hrange : 0x20 ≤ c ∧ c < 0x7F := hc
  have hesc : c ≠ 0x1B := by
    rintro rfl
    exact absurd hrange (by decide)
  rw [h.inchr hesc, handleRegKey, if_neg (by rw [h.valid]; decide), if_pos hrange, addChar,
    if_neg (by rw [h.pass]; omega)]
  exact ⟨h.going, h.valid, h.plain, congrArg (· ++ [c]) h.pass, h.data⟩

lemma Amid.chars (h : ctx.Amid copy pass) {q : List UInt8} (hq : ∀ c ∈ q, Printable c)
    (hlen : (pass ++ q).length ≤ MAXPASS) :
    (q.foldl (handleInchr scrypt copy) ctx).Amid copy (pass ++ q) := by
  induction q generalizing ctx pass with
  | nil => rwa [append_nil]
  | cons c q ih =>
    rw [length_append, length_cons] at hlen
    have hc : (handleInchr scrypt copy ctx c).Amid copy (pass ++ [c]) :=
      h.char (hq c mem_cons_self) (by omega)
    have hrest := ih hc (fun d hd => hq d (mem_cons_of_mem c hd))
      (by rw [length_append, length_append, length_singleton]; omega)
    rw [append_assoc, singleton_append] at hrest
    exact hrest

/-- **Enter**, after the right passphrase. -/
theorem Amid.enter (h : ctx.Amid copy pass) (hne : pass ≠ []) {data : List UInt8}
    (hright : unwrapKeydata scrypt copy copy pass = (true, data)) :
    ctx.handleInchr scrypt copy 0x0D = { ctx with data := data, opened := true } := by
  have hkey : ctx.handleInchr scrypt copy 0x0D = ctx.enterPass scrypt copy := by
    rw [h.inchr (by decide), handleRegKey, if_neg (by rw [h.valid]; decide)]
    exact if_neg (by decide)
  rw [hkey, enterPass, if_neg (by rw [h.pass]; exact hne), h.data, h.pass, hright]
  exact if_pos rfl

/-- A read of the terminal in the middle of a line. -/
theorem Amid.handle_input (h : ctx.Amid copy pass) (c : UInt8) (rest : List UInt8) :
    ctx.handle scrypt copy (.input c rest) = (c :: rest).foldl (handleInchr scrypt copy) ctx := by
  rw [handle, if_neg (by rw [h.valid]; decide)]

/-- Nothing but waiting. -/
theorem foldl_waiting (hvalid : ctx.invalid = false) {typed : List Typed}
    (hnone : typed.flatMap Typed.bytes = []) : typed.foldl (handle scrypt copy) ctx = ctx := by
  induction typed with
  | nil => rfl
  | cons ev typed ih =>
    rw [flatMap_cons, append_eq_nil_iff] at hnone
    cases ev with
    | input c rest => exact absurd hnone.1 (cons_ne_nil c rest)
    | timeout =>
      have hsame : ctx.handle scrypt copy .timeout = ctx :=
        if_neg (by rw [hvalid]; exact Bool.false_ne_true)
      rw [foldl_cons, hsame]
      exact ih hnone.2

/-- The rest of a line is typed, read after read. -/
theorem Amid.typed (h : ctx.Amid copy pass) {q : List UInt8} (hq : ∀ c ∈ q, Printable c)
    (hlen : (pass ++ q).length ≤ MAXPASS) (hne : pass ++ q ≠ []) {data : List UInt8}
    (hright : unwrapKeydata scrypt copy copy (pass ++ q) = (true, data)) {typed : List Typed}
    (htyped : typed.flatMap Typed.bytes = q ++ [0x0D]) :
    (typed.foldl (handle scrypt copy) ctx).opened = true ∧
      (typed.foldl (handle scrypt copy) ctx).data = data := by
  induction typed generalizing ctx pass q with
  | nil => exact absurd (append_eq_nil_iff.mp htyped.symm).2 (cons_ne_nil _ _)
  | cons ev typed ih =>
    rw [flatMap_cons] at htyped
    rw [foldl_cons]
    cases ev with
    | timeout =>
      have hsame : ctx.handle scrypt copy .timeout = ctx :=
        if_neg (by rw [h.valid]; exact Bool.false_ne_true)
      rw [hsame]
      exact ih h hq hlen hne hright htyped
    | input c rest =>
      rw [h.handle_input]
      change (c :: rest) ++ _ = _ at htyped
      rcases append_eq_append_iff.mp htyped with ⟨r, rfl, hr⟩ | ⟨r, hread, hr⟩
      · -- Enter comes with a later read
        rw [← append_assoc] at hlen hne hright
        refine ih (h.chars (fun d hd => hq d (mem_append_left _ hd)) ?_)
          (fun d hd => hq d (mem_append_right _ hd)) hlen hne hright hr
        rw [length_append] at hlen
        omega
      · have hchars : (q.foldl (handleInchr scrypt copy) ctx).Amid copy (pass ++ q) :=
          h.chars hq hlen
        rw [hread, foldl_append]
        rcases append_eq_singleton_iff.mp hr.symm with ⟨rfl, hlate⟩ | ⟨rfl, hnone⟩
        · -- it is the next byte
          rw [foldl_nil]
          exact ih (q := []) hchars (fun d hd => absurd hd not_mem_nil) (by rwa [append_nil])
            (by rwa [append_nil]) (by rwa [append_nil]) hlate
        · rw [foldl_cons, foldl_nil, hchars.enter hne hright, foldl_waiting ?_ hnone]
          · exact ⟨rfl, rfl⟩
          · exact hchars.valid

end Entry

/-- **The right passphrase opens the file**, whatever was typed before: it is typed on a new line,
and Enter. -/
theorem entered_right {scrypt : Scrypt} {copy phrase data : List UInt8}
    (hprint : ∀ c ∈ phrase, Printable c) (hlen : phrase.length ≤ MAXPASS) (hne : phrase ≠ [])
    (hright : unwrapKeydata scrypt copy copy phrase = (true, data)) {before typed : List Typed}
    (hready : (entered scrypt copy before).Ready)
    (htyped : typed.flatMap Typed.bytes = phrase ++ [0x0D]) :
    (entered scrypt copy (before ++ typed)).opened = true ∧
      (entered scrypt copy (before ++ typed)).data = data := by
  have hamid := hready.amid (Entry.entered_kept before)
  rw [entered, foldl_append]
  cases typed with
  | nil => exact absurd (append_eq_nil_iff.mp htyped.symm).2 (cons_ne_nil _ _)
  | cons ev typed =>
    -- the first event ends what was wrong before
    have hfirst : (entered scrypt copy before).handle scrypt copy ev =
        (if (entered scrypt copy before).invalid = true then
          (entered scrypt copy before).resetInput else entered scrypt copy before).handle
            scrypt copy ev := by
      cases ev with
      | timeout =>
        show _ = ite _ _ _
        rw [hamid.valid]
        rfl
      | input c rest =>
        rw [hamid.handle_input]
        rfl
    have hrun := hamid.typed hprint hlen hne hright htyped
    rw [foldl_cons] at hrun ⊢
    rw [← entered, hfirst]
    exact hrun

end Minibase.Dcrypt
