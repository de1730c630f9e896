import Minibase.Format.Digits
import Minibase.Lib.Strings

/-!
# The log

`sysklogd.c` puts fourteen bytes in front of a message, the time in ten digits, a letter for the
facility and a digit for the severity, and stores the line; `logcat.c` takes the line apart
again. The line is accepted, with the time and the severity (`Syslog.line_read_back`). Of the text,
what is a control character is a space.
-/

namespace Minibase.Syslog

open Format List Option Mem

def TAGSPACE : ℕ := 14

/-! ### Storing a line -/

def fakeys : List Char :=
  ['K', 'U', 'M', 'D', 'A', 'L', 'P', 'N', 'X', 'C', 'A', 'F', 'T', 'X', 'X', 'C',
    '0', '1', '2', '3', '4', '5', '6', '7']

/-- `fmtprio`. The facility is an unsigned number. -/
def fmtprio (p e : ℕ) (prio : BitVec 32) (o : Out) : ℕ × Out :=
  let facility := (prio.sshiftRight 3).toNat
  let severity := (prio &&& 7).toNat
  let pc := UInt8.ofNat (48 + severity)
  let fc := UInt8.ofNat (fakeys.getD facility '?').toNat
  let out := fmtchar p e fc o
  fmtchar out.1 e pc out.2

def formatTag (ts : UInt64) (prio : BitVec 32) (msg : ℕ) (o : Out) : ℕ × Out :=
  let s := msg - TAGSPACE
  let e := msg
  let out := fmtu64 s e ts o
  let out := fmtpad0 s e 10 out.1 out.2
  let out := fmtchar out.1 e 32 out.2
  let out := fmtprio out.1 e prio out.2
  (s, (fillRight e e (e - out.1) out.1 out.2).2)

/-- `*p < 0x20`, for a `char` that has a sign or has none. -/
def isControl (signed : Bool) (c : UInt8) : Bool := c < 32 || (signed && 128 ≤ c)

/-- `remove_controls`, of `n` bytes. -/
def removeControls (signed : Bool) : (n p : ℕ) → Mem → Mem
  | 0, _, m => m
  | n + 1, p, m =>
    removeControls signed n (p + 1) (if isControl signed (m p) then m.store p [32] else m)

/-- `send_to_log`: what `store_line` writes, less the end of the line. -/
def sendToLog (signed : Bool) (ts : UInt64) (prio : BitVec 32) (p e : ℕ) (m : Mem) : List UInt8 :=
  let out := formatTag ts prio p ⟨m, []⟩
  (removeControls signed (e - p) p out.2.mem).load out.1 (e - out.1)

/-! ### Reading it back -/

/-- The loop of `parseu64`. There is an end to the string. -/
def parseu64Loop (m : Mem) : ℕ → ℕ → ℕ → ℕ × ℕ
  | 0, p, n => (p, n)
  | fuel + 1, p, n =>
    if m p ≠ 0 ∧ isDigit (m p) then
      parseu64Loop m fuel (p + 1) ((n * 10 + ((m p).toNat - 48)) % 18446744073709551616)
    else (p, n)

/-- `parseu64`: where the digits end, and the number. -/
def parseu64 (m : Mem) (buf fuel : ℕ) : Option (ℕ × ℕ) :=
  let out := parseu64Loop m fuel buf 0
  if out.1 = buf then none else some out

/-- `tagged`, for a line between `ls` and `le`. -/
def tagged (tag : Option (List UInt8)) (log : Mem) (ls le : ℕ) : Bool :=
  match tag with
  | none => true
  | some tag =>
    let tlen := tag.length
    if (le : ℤ) - ls < TAGSPACE + tlen + 1 then false
    else strncmp log (store (fun _ => 0) 0 tag) tlen (ls + TAGSPACE) 0 = 0

/-- `process`: the time, the priority and the text that are shown, if the line is accepted. `stack`
is what is in memory where the front of the line is copied to. -/
def process (stack log : Mem) (ls le : ℕ) : Option (ℕ × ℕ × List UInt8) :=
  let ln := le - ls
  let tl := if ln < TAGSPACE then ln else TAGSPACE
  let pref := stack.store 0 (log.load ls tl ++ [0])
  match parseu64 pref 0 (tl + 1) with
  | none => none
  | some (p, ts) =>
    if pref p ≠ 32 then none
    else
      -- past the space and the facility
      let p := p + 2
      if pref p < 48 ∨ 57 < pref p then none
      else if pref (p + 1) ≠ 32 then none
      else
        let plen := p + 2
        some (ts, (pref p).toNat - 48, log.load (ls + plen) (le - (ls + plen)))

/-! ### What is stored -/

/-- What is left of a text. -/
def cleaned (signed : Bool) (text : List UInt8) : List UInt8 :=
  text.map fun c => if isControl signed c then 32 else c

/-- The letter and the digit. -/
def prioBytes (prio : BitVec 32) : List UInt8 :=
  [UInt8.ofNat (fakeys.getD (prio.sshiftRight 3).toNat '?').toNat,
    UInt8.ofNat (48 + (prio &&& 7).toNat)]

/-- What goes in front of the text. -/
def tagBytes (ts : UInt64) (prio : BitVec 32) : List UInt8 :=
  digits 10 ts.toNat ++ ([32] ++ (prioBytes prio ++ [32]))

lemma length_tagBytes (ts : UInt64) (prio : BitVec 32) : (tagBytes ts prio).length = TAGSPACE := by
  rw [tagBytes, length_append, length_digits]
  rfl

lemma mem_fmtprio {p e : ℕ} (prio : BitVec 32) (o : Out) (h : p + 2 ≤ e) :
    (fmtprio p e prio o).1 = p + 2 ∧
      (fmtprio p e prio o).2.mem = o.mem.store p (prioBytes prio) := by
  have h1 : ∀ c o, fmtchar p e c o = (p + 1, o.poke p c) := fun _ _ => if_pos (by omega)
  have h2 : ∀ c o, fmtchar (p + 1) e c o = (p + 2, o.poke (p + 1) c) := fun _ _ => if_pos (by omega)
  rw [fmtprio, h1, h2]
  exact ⟨rfl, store_append o.mem p [_] [_]⟩

/-- **The bytes in front of the text.** -/
theorem mem_formatTag {ts : UInt64} (hts : ts.toNat < 10000000000) (prio : BitVec 32) {msg : ℕ}
    (hmsg : TAGSPACE ≤ msg) (o : Out) :
    (formatTag ts prio msg o).1 = msg - TAGSPACE ∧
      (formatTag ts prio msg o).2.mem = o.mem.store (msg - TAGSPACE) (tagBytes ts prio) := by
  obtain ⟨s, rfl⟩ := Nat.exists_eq_add_of_le' hmsg
  have h14 : TAGSPACE = 14 := rfl
  have hs : s + TAGSPACE - TAGSPACE = s := Nat.add_sub_cancel s TAGSPACE
  refine ⟨rfl, ?_⟩
  rw [formatTag, hs]
  obtain ⟨h1, hm1⟩ := mem_fmtpad0 hts o (show s + 10 ≤ s + TAGSPACE by omega)
  generalize fmtpad0 s (s + TAGSPACE) 10 _ _ = out at h1 hm1 ⊢
  have hchar : fmtchar out.1 (s + TAGSPACE) 32 out.2 = (s + 11, out.2.poke (s + 10) 32) := by
    rw [h1]
    exact if_pos (by omega)
  have hm2 : (out.2.poke (s + 10) 32).mem = o.mem.store s (digits 10 ts.toNat ++ [32]) := by
    have happ := store_append o.mem s (digits 10 ts.toNat) [32]
    rw [length_digits, ← hm1] at happ
    exact happ
  rw [hchar]
  obtain ⟨h3, hm3⟩ := mem_fmtprio prio (out.2.poke (s + 10) 32)
    (show s + 11 + 2 ≤ s + TAGSPACE by omega)
  generalize fmtprio (s + 11) (s + TAGSPACE) prio _ = last at h3 hm3 ⊢
  -- one space is missing
  have hfill : fillRight (s + TAGSPACE) (s + TAGSPACE : ℕ) (s + TAGSPACE - last.1) last.1 last.2 =
      (s + 14, last.2.poke (s + 13) 32) := by
    rw [h3, show s + TAGSPACE - (s + 11 + 2) = 1 by omega, fillRight, if_pos (by omega), fillRight]
  rw [hfill]
  show last.2.mem.store (s + 13) [32] = _
  rw [hm3, hm2, tagBytes]
  have h11 : s + 11 = s + (digits 10 ts.toNat ++ [32]).length := by
    rw [length_append, length_digits, length_singleton]
  have h13 : s + 13 = s + ((digits 10 ts.toNat ++ [32]) ++ prioBytes prio).length := by
    rw [length_append, length_append, length_digits, length_singleton]
    rfl
  rw [h11, store_append, h13, store_append, append_assoc, append_assoc]

/-- **What `remove_controls` does** to a text. -/
theorem load_removeControls (signed : Bool) (n p : ℕ) (m : Mem) :
    (∀ a, a < p → removeControls signed n p m a = m a) ∧
      (removeControls signed n p m).load p n = cleaned signed (m.load p n) := by
  induction n generalizing p m with
  | zero => exact ⟨fun _ _ => rfl, rfl⟩
  | succ n ih =>
    set m' := if isControl signed (m p) then m.store p [32] else m with hm'
    have hrest : ∀ a, a ≠ p → m' a = m a := by
      intro a ha
      rw [hm']
      split
      · exact store_of_not_mem (by rw [length_singleton]; omega)
      · rfl
    have hhere : m' p = if isControl signed (m p) then 32 else m p := by
      rw [hm']
      split
      · exact store_one _ _ _
      · rfl
    have hload : m'.load (p + 1) n = m.load (p + 1) n :=
      map_congr_left fun i _ => hrest _ (by omega)
    obtain ⟨hbelow, htext⟩ := ih (p + 1) m'
    have hcons : ∀ m : Mem, m.load p (n + 1) = m p :: m.load (p + 1) n := by
      intro m
      rw [Nat.add_comm n 1, load_add]
      rfl
    rw [removeControls, ← hm', hcons, hcons, hbelow p (Nat.lt_succ_self p), htext, hload, hhere]
    refine ⟨fun a ha => ?_, rfl⟩
    rw [hbelow a (by omega), hrest a (by omega)]

/-- The line that is stored, if it is known what is put in front of the text. -/
theorem sendToLog_of_tag (signed : Bool) {ts : UInt64} {prio : BitVec 32} {p e : ℕ}
    (hp : TAGSPACE ≤ p) (he : p ≤ e) {m : Mem} {tag : List UInt8} (htag : tag.length = TAGSPACE)
    (hm : (formatTag ts prio p ⟨m, []⟩).2.mem = m.store (p - TAGSPACE) tag) :
    sendToLog signed ts prio p e m = tag ++ cleaned signed (m.load p (e - p)) := by
  obtain ⟨s, rfl⟩ := Nat.exists_eq_add_of_le' hp
  have hs : s + TAGSPACE - TAGSPACE = s := Nat.add_sub_cancel s TAGSPACE
  have hlen : e - s = TAGSPACE + (e - (s + TAGSPACE)) := by omega
  rw [hs] at hm
  obtain ⟨hbelow, htext⟩ := load_removeControls signed (e - (s + TAGSPACE)) (s + TAGSPACE)
    (formatTag ts prio (s + TAGSPACE) ⟨m, []⟩).2.mem
  have hfront : (removeControls signed (e - (s + TAGSPACE)) (s + TAGSPACE)
      (formatTag ts prio (s + TAGSPACE) ⟨m, []⟩).2.mem).load s TAGSPACE = tag := by
    have hsame : (removeControls signed (e - (s + TAGSPACE)) (s + TAGSPACE)
        (formatTag ts prio (s + TAGSPACE) ⟨m, []⟩).2.mem).load s TAGSPACE =
        (m.store s tag).load s tag.length := by
      rw [htag, ← hm]
      refine map_congr_left fun i hi => hbelow _ ?_
      have := mem_range.mp hi
      omega
    rw [hsame]
    exact holds_iff_load.mp (holds_store _ _ _)
  have hback : (formatTag ts prio (s + TAGSPACE) ⟨m, []⟩).2.mem.load (s + TAGSPACE)
      (e - (s + TAGSPACE)) = m.load (s + TAGSPACE) (e - (s + TAGSPACE)) := by
    rw [hm]
    refine map_congr_left fun i _ => store_of_not_mem ?_
    rw [htag]
    omega
  have h1 : (formatTag ts prio (s + TAGSPACE) ⟨m, []⟩).1 = s := hs
  rw [sendToLog, h1, hlen, load_add, hfront, htext, hback]

/-- **The line that is stored.** -/
theorem sendToLog_eq (signed : Bool) {ts : UInt64} (hts : ts.toNat < 10000000000)
    (prio : BitVec 32) {p e : ℕ} (hp : TAGSPACE ≤ p) (he : p ≤ e) (m : Mem) :
    sendToLog signed ts prio p e m = tagBytes ts prio ++ cleaned signed (m.load p (e - p)) :=
  sendToLog_of_tag signed hp he (length_tagBytes ts prio) (mem_formatTag hts prio hp ⟨m, []⟩).2

/-! ### What is read -/

lemma ne_zero_of_isDigit {c : UInt8} (h : isDigit c = true) : c ≠ 0 := by
  rintro rfl
  cases h

/-- **Digits are read up to what is not one.** -/
theorem parseu64Loop_eq {m : Mem} {l : List UInt8} {c : UInt8} (hl : ∀ d ∈ l, isDigit d = true)
    (hc : isDigit c = false) {p n fuel : ℕ} (h : m.Holds p (l ++ [c])) (hfuel : l.length < fuel) :
    parseu64Loop m fuel p n =
      (p + l.length, l.foldl (fun v d => (v * 10 + (d.toNat - 48)) % 18446744073709551616) n) := by
  induction l generalizing p n fuel with
  | nil =>
    obtain _ | fuel := fuel
    · exact absurd hfuel (Nat.not_lt_zero _)
    · have hb : m p = c := h 0 Nat.zero_lt_one
      rw [parseu64Loop, hb, if_neg]
      · rfl
      · rintro ⟨-, hdigit⟩
        rw [hc] at hdigit
        cases hdigit
  | cons d l ih =>
    obtain _ | fuel := fuel
    · exact absurd hfuel (Nat.not_lt_zero _)
    · obtain ⟨hb, hrest⟩ := holds_append.mp (show m.Holds p ([d] ++ (l ++ [c])) from h)
      have hd : m p = d := hb 0 Nat.zero_lt_one
      have hdigit := hl d mem_cons_self
      rw [length_singleton] at hrest
      rw [parseu64Loop, hd, if_pos ⟨ne_zero_of_isDigit hdigit, hdigit⟩,
        ih (fun d' hd' => hl d' (mem_cons_of_mem d hd')) hrest (Nat.lt_of_succ_lt_succ hfuel),
        length_cons, foldl_cons]
      exact Prod.ext (by show p + 1 + l.length = p + (l.length + 1); omega) rfl

lemma toNat_severity (prio : BitVec 32) :
    (UInt8.ofNat (48 + (prio &&& 7).toNat)).toNat = 48 + (prio &&& 7).toNat ∧
      (prio &&& 7).toNat ≤ 7 := by
  have hle : (prio &&& 7).toNat ≤ 7 := by
    rw [BitVec.toNat_and]
    exact Nat.and_le_right
  refine ⟨?_, hle⟩
  rw [UInt8.toNat_ofNat']
  omega

/-- **A line is taken apart** into what it was put together from. -/
theorem process_eq {ts : UInt64} (hts : ts.toNat < 10000000000) (prio : BitVec 32)
    {text : List UInt8} (stack : Mem) {log : Mem} {ls : ℕ}
    (h : log.Holds ls (tagBytes ts prio ++ text)) :
    process stack log ls (ls + (tagBytes ts prio ++ text).length) =
      some (ts.toNat, (prio &&& 7).toNat, text) := by
  have h14 : TAGSPACE = 14 := rfl
  have hlen := length_tagBytes ts prio
  obtain ⟨htag, htext⟩ := holds_append.mp h
  have hload := holds_iff_load.mp htag
  rw [hlen] at hload htext
  have hln : ls + (tagBytes ts prio ++ text).length - ls = TAGSPACE + text.length := by
    rw [length_append, hlen]
    omega
  -- the copy of the front
  set pref := stack.store 0 (tagBytes ts prio ++ [0]) with hpref
  have hholds : pref.Holds 0 (digits 10 ts.toNat ++ ([32] ++ (prioBytes prio ++ [32, 0]))) := by
    have heq : tagBytes ts prio ++ [0] =
        digits 10 ts.toNat ++ ([32] ++ (prioBytes prio ++ [32, 0])) := by
      rw [tagBytes, append_assoc, append_assoc, append_assoc]
      rfl
    rw [← heq]
    exact holds_store _ _ _
  obtain ⟨hnum, hmore⟩ := holds_append.mp hholds
  rw [length_digits] at hmore
  have hspace : pref 10 = 32 := hmore 0 (Nat.succ_pos _)
  have hsev : pref 12 = UInt8.ofNat (48 + (prio &&& 7).toNat) := hmore 2 (by
    rw [length_append, length_append]
    show 2 < 1 + (2 + 2)
    omega)
  have hlast : pref 13 = 32 := hmore 3 (by
    rw [length_append, length_append]
    show 3 < 1 + (2 + 2)
    omega)
  have hparse : parseu64 pref 0 (TAGSPACE + 1) = some (10, ts.toNat) := by
    have hfirst : pref.Holds 0 (digits 10 ts.toNat ++ [32]) :=
      holds_append.mpr ⟨hnum, by
        rw [length_digits]
        exact (holds_append.mp hmore).1⟩
    have hfuel : (digits 10 ts.toNat).length < TAGSPACE + 1 := by
      rw [length_digits]
      decide
    have hloop := parseu64Loop_eq (n := 0) (fun d hd => isDigit_of_mem_digits hd) (by decide) hfirst
      hfuel
    rw [length_digits, foldl_digits 10 (by omega) ts.toNat_lt] at hloop
    rw [parseu64, hloop]
    rfl
  obtain ⟨hval, hle⟩ := toNat_severity prio
  have hlow : ¬(pref 12 < 48 ∨ 57 < pref 12) := by
    rw [hsev, UInt8.lt_iff_toNat_lt, UInt8.lt_iff_toNat_lt, hval]
    rintro (hlt | hgt)
    · have : (48 : UInt8).toNat = 48 := rfl
      omega
    · have : (57 : UInt8).toNat = 57 := rfl
      omega
  have hdigit : (pref 12).toNat - 48 = (prio &&& 7).toNat := by
    rw [hsev, hval]
    omega
  rw [process, hln]
  simp only [if_neg (show ¬TAGSPACE + text.length < TAGSPACE by omega), hload, ← hpref, hparse]
  rw [if_neg (not_not.mpr hspace)]
  show (if pref 12 < 48 ∨ 57 < pref 12 then none else if pref 13 ≠ 32 then none
    else some (ts.toNat, (pref 12).toNat - 48, log.load (ls + 14) _)) = _
  rw [if_neg hlow, if_neg (not_not.mpr hlast), hdigit]
  have hrest : ls + (tagBytes ts prio ++ text).length - (ls + 14) = text.length := by omega
  rw [hrest]
  exact congrArg (fun l => some (ts.toNat, (prio &&& 7).toNat, l)) (holds_iff_load.mp htext)

/-- **A line is selected** by a tag that its text begins with and is longer than. -/
theorem tagged_iff {tag front text : List UInt8} (htag : 0 ∉ tag) (hfront : front.length = TAGSPACE)
    {log : Mem} {ls : ℕ} (h : log.Holds ls (front ++ text)) :
    tagged (some tag) log ls (ls + (front ++ text).length) = true ↔
      tag.length < text.length ∧ tag <+: text := by
  obtain ⟨-, htext⟩ := holds_append.mp h
  rw [hfront] at htext
  have hcmp : strncmp log (store (fun _ => 0) 0 tag) tag.length (ls + TAGSPACE) 0 = 0 ↔
      log.Holds (ls + TAGSPACE) tag := strncmp_eq_zero htag (holds_store (fun _ => 0) 0 tag)
  rw [tagged]
  by_cases hlen : tag.length < text.length
  · have hlong : ¬((ls + (front ++ text).length : ℕ) : ℤ) - ls < TAGSPACE + tag.length + 1 := by
      rw [length_append, hfront]
      omega
    rw [if_neg hlong, decide_eq_true_eq, hcmp]
    have htake : text = text.take tag.length ++ text.drop tag.length :=
      (take_append_drop _ _).symm
    have hload : log.load (ls + TAGSPACE) tag.length = text.take tag.length := by
      rw [htake] at htext
      have hfirst := holds_iff_load.mp (holds_append.mp htext).1
      rwa [length_take, min_eq_left (le_of_lt hlen)] at hfirst
    rw [holds_iff_load, hload]
    exact ⟨fun heq => ⟨hlen, heq ▸ take_prefix _ _⟩,
      fun hpre => (prefix_iff_eq_take.mp hpre.2).symm⟩
  · have hshort : ((ls + (front ++ text).length : ℕ) : ℤ) - ls < TAGSPACE + tag.length + 1 := by
      rw [length_append, hfront]
      omega
    rw [if_pos hshort]
    exact ⟨fun hfalse => (by cases hfalse), fun hpre => absurd hpre.1 hlen⟩

/-! ### Both together -/

/-- **A line that was stored is read back**: with its time, its severity and its text, in which
control characters have become spaces; and a tag selects it that the text begins with and is longer
than. What becomes of characters that are not ASCII is not said. -/
theorem line_read_back (signed : Bool) {ts : UInt64} (hts : ts.toNat < 10000000000)
    (prio : BitVec 32) (m : Mem) {p e : ℕ} (hp : TAGSPACE ≤ p) (he : p ≤ e) (stack : Mem)
    {log : Mem}
    {ls : ℕ} (hlog : log.Holds ls (sendToLog signed ts prio p e m)) :
    ∃ text,
      process stack log ls (ls + (sendToLog signed ts prio p e m).length) =
        some (ts.toNat, (prio &&& 7).toNat, text) ∧
      text.length = e - p ∧
      (∀ i, i < e - p → m (p + i) < 128 →
        text[i]? = some (if m (p + i) < 32 then 32 else m (p + i))) ∧
      ∀ tag, 0 ∉ tag →
        (tagged (some tag) log ls (ls + (sendToLog signed ts prio p e m).length) = true ↔
          tag.length < text.length ∧ tag <+: text) := by
  have hline := sendToLog_eq signed hts prio hp he m
  rw [hline] at hlog ⊢
  refine ⟨cleaned signed (m.load p (e - p)), process_eq hts prio stack hlog, ?_,
    fun i hi hascii => ?_,
    fun tag htag => tagged_iff htag (length_tagBytes ts prio) hlog⟩
  · rw [cleaned, length_map, length_load]
  · have hget : (m.load p (e - p))[i]? = some (m (p + i)) := by
      rw [getElem?_eq_getElem (by rw [length_load]; exact hi), getElem_load]
    have hctl : isControl signed (m (p + i)) = decide (m (p + i) < 32) := by
      have hnot : ¬128 ≤ m (p + i) := UInt8.not_le.mpr hascii
      rw [isControl, decide_eq_false hnot, Bool.and_false, Bool.or_false]
    rw [cleaned, getElem?_map, hget, map_some, hctl]
    simp only [decide_eq_true_eq]

/-- A message of two letters. -/
theorem line_read_back_ok : ∃ text,
    process (fun _ => 0) (store (fun _ => 0) 0
      (sendToLog true 1503571442 30 14 16 fun _ => 111)) 0
        (0 + (sendToLog true 1503571442 30 14 16 fun _ => 111).length) =
      some (1503571442, 6, text) ∧ text.length = 2 := by
  obtain ⟨text, h1, h2, -⟩ := @line_read_back true 1503571442 (by decide) 30 (fun _ => 111)
    14 16 (by decide) (by decide) (fun _ => 0) _ _ (holds_store _ 0 _)
  exact ⟨text, h1, h2⟩

/-- **A tab does not come back.** -/
theorem tab_not_read_back : ¬∀ (signed : Bool) (ts : UInt64) (prio : BitVec 32) (m : Mem) (p e : ℕ),
    ts.toNat < 10000000000 → TAGSPACE ≤ p → p ≤ e → ∀ (stack log : Mem) (ls : ℕ),
      log.Holds ls (sendToLog signed ts prio p e m) →
        process stack log ls (ls + (sendToLog signed ts prio p e m).length) =
          some (ts.toNat, (prio &&& 7).toNat, m.load p (e - p)) := by
  intro hall
  have hline := @sendToLog_eq true 0 (by decide) 6 14 15 (by decide) (by decide) fun _ => 9
  have h := hall true 0 6 (fun _ => 9) 14 15 (by decide) (by decide) (by decide) (fun _ => 0) _ 0
    (holds_store (fun _ => 0) 0 _)
  rw [hline, process_eq (by decide) 6 _ (holds_store (fun _ => 0) 0 _)] at h
  have htext := congrArg (fun out => out.map fun r => r.2.2) h
  have hfalse : ¬(some (cleaned true (load (fun _ => 9) 14 (15 - 14))) =
      some (load (fun _ => 9) 14 (15 - 14))) := by decide
  exact hfalse htext

end Minibase.Syslog
