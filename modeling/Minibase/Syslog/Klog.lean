import Mathlib.Tactic.IntervalCases
import Minibase.Syslog.Header

/-!
# Messages of the kernel

`recv_klog` of `sysklogd.c` gets many lines at once, and what is stored in front of each text is
written in the memory where they are, over the beginning of the line and what stands before it.
**Each line is stored as if it were alone** (`Syslog.recvKlog_logged`): the bytes that are written
are in lines that have been stored already or in the fourteen bytes in front of all of them.
-/

namespace Minibase.Syslog

open Format List Option Mem

/-! ### The code -/

/-- What is in memory after `send_to_log`. -/
def sentMem (signed : Bool) (ts : UInt64) (prio : BitVec 32) (p e : ℕ) (m : Mem) : Mem :=
  removeControls signed (e - p) p (formatTag ts prio p ⟨m, []⟩).2.mem

/-- Where the text of a line begins, in `process_klog_line`. There is a zero at `le`. -/
def klogText (m : Mem) (ls le : ℕ) : Option ℕ :=
  if m ls ≠ 60 then none
  else if isDigit (m (ls + 1)) = false then none
  else if m (ls + 2) ≠ 62 then none
  else
    let p := ls + 3
    if m p = 91 then
      let p := scan (fun c => c = 0 ∨ c = 93) m (p + 1) (le - (p + 1))
      if m p ≠ 93 then none
      else if m (p + 1) ≠ 32 then none
      else some (p + 2)
    else some p

/-- `process_klog_line`: what `store_line` is handed, and what is in memory then. -/
def processKlogLine (signed : Bool) (ts : UInt64) (ls le : ℕ) (m : Mem) : List (List UInt8) × Mem :=
  match klogText m ls le with
  | none => ([], m)
  | some p =>
    let prio := BitVec.ofInt 32 ((m (ls + 1)).toNat - 48)
    ([sendToLog signed ts prio p le m], sentMem signed ts prio p le m)

def eol (m : Mem) (p e : ℕ) : Option ℕ :=
  let q := scan (· = 10) m p (e - p)
  if q < e then some q else none

/-- The loop of `recv_klog`. Each turn takes a byte at least. -/
def klogLoop (signed : Bool) (ts : UInt64) : (fuel p e : ℕ) → Mem → List (List UInt8) × Mem
  | 0, _, _, m => ([], m)
  | fuel + 1, p, e, m =>
    if p < e then
      match eol m p e with
      | none => ([], m)
      | some q =>
        let out := processKlogLine signed ts p q (m.store q [0])
        let rest := klogLoop signed ts fuel (q + 1) e out.2
        (out.1 ++ rest.1, rest.2)
    else ([], m)

/-- `recv_klog`, with the buffer at `buf`. -/
def recvKlog (signed : Bool) (ts : UInt64) (chunk : List UInt8) (buf : ℕ) (m : Mem) :
    List (List UInt8) × Mem :=
  let len := 2048
  let off := TAGSPACE
  let rd := (chunk.take len).length
  klogLoop signed ts rd (buf + off) (buf + off + rd) (m.store (buf + off) (chunk.take len))

/-! ### What is meant -/

/-- **A line of the kernel**: a digit, and a text, with or without a time in front. What begins with
a bracket is a time. -/
inductive KlogForm : List UInt8 → UInt8 → List UInt8 → Prop
  | plain {d : UInt8} {text : List UInt8} (hd : isDigit d = true) (htext : text.head? ≠ some 91) :
    KlogForm (60 :: d :: 62 :: text) d text
  | timed {d : UInt8} {time text : List UInt8} (hd : isDigit d = true) (h0 : 0 ∉ time)
    (h93 : 93 ∉ time) :
    KlogForm (60 :: d :: 62 :: 91 :: (time ++ 93 :: 32 :: text)) d text

/-- **What is stored**: fourteen bytes, and the text with spaces for control characters. What
becomes of characters that are not ASCII is not said. In the fourteen bytes there is the severity,
if the time has eleven digits at most, after the facility, which is the kernel for a digit up to
7. -/
def StoredAs (ts : UInt64) (d : UInt8) (text line : List UInt8) : Prop :=
  ∃ tag shown : List UInt8, line = tag ++ shown ∧ tag.length = TAGSPACE ∧
    shown.length = text.length ∧
    (∀ (i : ℕ) (c : UInt8), text[i]? = some c → c < 128 →
      shown[i]? = some (if c < 32 then 32 else c)) ∧
    (ts.toNat < 100000000000 → ∃ w a b, ts.toNat < 10 ^ w ∧ tag = digits w ts.toNat ++
      (replicate a 32 ++ ([if d < 56 then 75 else 85, UInt8.ofNat (48 + d.toNat % 8)] ++
        replicate b 32)))

/-- **What is stored of a chunk**: a line for each one that is of the form, in their order. What has
no end is no line. -/
inductive Logged (ts : UInt64) : List UInt8 → List (List UInt8) → Prop
  | rest {rest : List UInt8} (h : 10 ∉ rest) : Logged ts rest []
  | stored {l chunk text line : List UInt8} {d : UInt8} {lines : List (List UInt8)} (h : 10 ∉ l)
    (hform : KlogForm l d text) (hline : StoredAs ts d text line) (hrest : Logged ts chunk lines) :
    Logged ts (l ++ 10 :: chunk) (line :: lines)
  | dropped {l chunk : List UInt8} {lines : List (List UInt8)} (h : 10 ∉ l)
    (hform : ∀ d text, ¬KlogForm l d text) (hrest : Logged ts chunk lines) :
    Logged ts (l ++ 10 :: chunk) lines

/-! ### The fourteen bytes -/

section Frame

variable {p e : ℕ}

lemma putDigits_frame {base : ℕ} {digit : ℕ → UInt8} (len num : ℕ) (o : Out) {a : ℕ}
    (h : a < p ∨ e ≤ a) : (putDigits e base digit p len num o).mem a = o.mem a := by
  induction len generalizing num o with
  | zero => rfl
  | succ len ih =>
    rw [putDigits, ih]
    split
    case isTrue hlt =>
      exact store_of_not_mem (by rw [length_singleton]; omega)
    case isFalse => rfl

/-- **Nothing is written but in front of the text**, whatever the time is. -/
theorem formatTag_frame (ts : UInt64) (prio : BitVec 32) {msg : ℕ} (hmsg : TAGSPACE ≤ msg) (m : Mem)
    {a : ℕ}
    (h : a < msg - TAGSPACE ∨ msg ≤ a) : (formatTag ts prio msg ⟨m, []⟩).2.mem a = m a := by
  have h14 : TAGSPACE = 14 := rfl
  rcases Nat.lt_or_ge 12 (countDigits 10 ts.toNat) with hlong | hshort
  · -- the digits take all there is, or all but one byte
    obtain ⟨s, rfl⟩ := Nat.exists_eq_add_of_le' hmsg
    rw [Nat.add_sub_cancel] at h
    have hdigits : (fmtu64 s (s + TAGSPACE) ts ⟨m, []⟩).2.mem a = m a := putDigits_frame _ _ _ h
    obtain ⟨k, hlow, hhigh, hend⟩ : ∃ k, 13 ≤ k ∧ k ≤ 14 ∧
      (fmtu64 s (s + TAGSPACE) ts ⟨m, []⟩).1 = s + k := by
      refine ⟨min 14 (countDigits 10 ts.toNat), by omega, by omega, ?_⟩
      show (if s + 0 + countDigits 10 ts.toNat > s + TAGSPACE then s + TAGSPACE
        else s + 0 + countDigits 10 ts.toNat) = _
      split <;> omega
    have hfull (c : UInt8) (o : Out) : fmtchar (s + TAGSPACE) (s + TAGSPACE) c o =
      (s + TAGSPACE, o) :=
      if_neg (lt_irrefl _)
    have hspace (o : Out) : ∃ o', fmtchar (s + k) (s + TAGSPACE) 32 o = (s + TAGSPACE, o') ∧
      o'.mem a = o.mem a := by
      rcases Nat.lt_or_eq_of_le hhigh with hlt | rfl
      · obtain rfl : k = 13 := by omega
        exact ⟨_, if_pos (by omega), store_of_not_mem (by rw [length_singleton]; omega)⟩
      · exact ⟨o, hfull 32 o, rfl⟩
    obtain ⟨o, hchar, ho⟩ := hspace (fmtu64 s (s + TAGSPACE) ts ⟨m, []⟩).2
    rw [formatTag, Nat.add_sub_cancel]
    rw [hend, fmtpad0_long (by omega) (by omega), hchar, fmtprio]
    dsimp only
    rw [hfull, hfull, Nat.sub_self, fillRight]
    exact ho.trans hdigits
  · rw [mem_formatTag_front hshort prio hmsg]
    exact store_of_not_mem (by rw [length_frontBytes]; omega)

/-- The facility and the severity of a digit. -/
theorem prioBytes_digit {d : UInt8} (hd : isDigit d = true) :
    prioBytes (BitVec.ofInt 32 (d.toNat - 48)) =
      [if d < 56 then 75 else 85, UInt8.ofNat (48 + d.toNat % 8)] := by
  simp only [isDigit, Bool.and_eq_true, decide_eq_true_eq, UInt8.le_iff_toNat_le,
    UInt8.lt_iff_toNat_lt] at hd
  obtain ⟨k, hk⟩ := Nat.exists_eq_add_of_le (show 48 ≤ d.toNat from hd.1)
  have hlt : k < 10 := by
    have : d.toNat < 58 := hd.2
    omega
  obtain rfl : d = UInt8.ofNat (48 + k) :=
    UInt8.toNat_inj.mp (by rw [hk, UInt8.toNat_ofNat']; omega)
  interval_cases k <;> rfl

/-- **The text is not touched by it**, and there are fourteen bytes in front of it. -/
theorem sendToLog_storedAs (signed : Bool) (ts : UInt64) {d : UInt8} (hd : isDigit d = true)
    {text : List UInt8}
    (hp : TAGSPACE ≤ p) {m : Mem} (h : m.Holds p text) :
    StoredAs ts d text (sendToLog signed ts (BitVec.ofInt 32 (d.toNat - 48)) p
      (p + text.length) m) := by
  set prio := BitVec.ofInt 32 ((d.toNat : ℤ) - 48) with hprio
  set tag := (formatTag ts prio p ⟨m, []⟩).2.mem.load (p - TAGSPACE) TAGSPACE with htag
  have hmem : (formatTag ts prio p ⟨m, []⟩).2.mem = m.store (p - TAGSPACE) tag := by
    funext a
    by_cases ha : a < p - TAGSPACE ∨ p ≤ a
    · rw [formatTag_frame ts prio hp m ha, store_of_not_mem]
      rw [htag, length_load]
      omega
    · obtain ⟨i, rfl⟩ := Nat.exists_eq_add_of_le (show p - TAGSPACE ≤ a by omega)
      have hi : i < tag.length := by
        rw [htag, length_load]
        omega
      rw [store_of_lt hi]
      exact (getElem_load hi).symm
  have hline := sendToLog_of_tag signed hp (Nat.le_add_right p text.length)
    (length_load ..) hmem
  rw [Nat.add_sub_cancel_left, holds_iff_load.mp h] at hline
  refine ⟨tag, cleaned signed text, hline, length_load .., length_map ..,
    fun i c hc hascii => ?_, fun hts => ?_⟩
  · have hctl : isControl signed c = decide (c < 32) := by
      rw [isControl, decide_eq_false (UInt8.not_le.mpr hascii), Bool.and_false, Bool.or_false]
    rw [cleaned, getElem?_map, hc, map_some, hctl]
    simp only [decide_eq_true_eq]
  · have hfront : tag = frontBytes ts prio := by
      have hle : countDigits 10 ts.toNat ≤ 11 := countDigits_le (by decide) (by norm_num; omega)
      rw [htag, mem_formatTag_front (by omega) prio hp, ← length_frontBytes ts prio]
      exact holds_iff_load.mp (holds_store _ _ _)
    have hlt := (countDigits_le_iff 10 (by decide) ts.toNat (max 10 (countDigits 10 ts.toNat))).mp
      (Nat.le_max_right ..)
    rw [hfront, frontBytes_eq (countDigits_le (by decide) (by norm_num; omega)), hprio,
      prioBytes_digit hd]
    exact ⟨_, _, _, hlt.2, rfl⟩

/-- What is written by `send_to_log` is the fourteen bytes and the text. -/
theorem sentMem_frame (signed : Bool) (ts : UInt64) (prio : BitVec 32) (hp : TAGSPACE ≤ p)
    (he : p ≤ e) (m : Mem) {a : ℕ}
    (h : a < p - TAGSPACE ∨ e ≤ a) : sentMem signed ts prio p e m a = m a := by
  have habove (n p : ℕ) (m : Mem) (ha : p + n ≤ a) : removeControls signed n p m a = m a := by
    induction n generalizing p m with
    | zero => rfl
    | succ n ih =>
      rw [removeControls, ih _ _ (by omega)]
      split
      case isTrue => exact store_of_not_mem (by rw [length_singleton]; omega)
      case isFalse => rfl
  have htag := formatTag_frame ts prio hp m (a := a) (by omega)
  rw [sentMem]
  rcases h with h | h
  · rw [(load_removeControls signed _ _ _).1 a (by omega), htag]
  · rw [habove _ _ _ (by omega), htag]

end Frame

/-! ### A line -/

section Line

variable {signed : Bool} {ts : UInt64} {m : Mem} {ls : ℕ} {l : List UInt8}

/-- What follows the first closing bracket decides on a time. -/
theorem dropWhile_of_form {d d' : UInt8} {rest text : List UInt8}
    (h : KlogForm (60 :: d' :: 62 :: 91 :: rest) d text) :
    rest.dropWhile (fun c => !decide (c = 0 ∨ c = 93)) = 93 :: 32 :: text := by
  cases h with
  | plain _ htext => exact absurd rfl htext
  | timed _ h0 h93 =>
    rw [dropWhile_append_of_pos, dropWhile_cons_of_neg (by decide)]
    intro c hc
    have hc0 : c ≠ 0 := fun h => h0 (h ▸ hc)
    have hc93 : c ≠ 93 := fun h => h93 (h ▸ hc)
    simp [hc0, hc93]

/-- Bytes that are not zero are read where the line has them. -/
theorem holds_iff_prefix {w : List UInt8} {q : ℕ} (h : m.Holds q (l ++ [0])) (hw : 0 ∉ w) :
    m.Holds q w ↔ w <+: l := by
  induction w generalizing q l with
  | nil => exact iff_of_true nofun nil_prefix
  | cons c w ih =>
    obtain ⟨hc, hw⟩ := ne_and_not_mem_of_not_mem_cons hw
    rw [holds_cons]
    obtain _ | ⟨a, l⟩ := l
    · have hend : m q = 0 := h 0 zero_lt_one
      exact iff_of_false (fun hq => hc (hend.symm.trans hq.1)) (by simp)
    · obtain ⟨ha, h⟩ := holds_cons.mp h
      rw [cons_prefix_cons, ih h hw, ha, eq_comm]

/-- **Where the text of a line begins**, if it is of the form. -/
theorem klogText_spec (h : m.Holds ls (l ++ [0])) :
    (∃ text p, KlogForm l (m (ls + 1)) text ∧ isDigit (m (ls + 1)) = true ∧ ls + 3 ≤ p ∧
      p + text.length = ls + l.length ∧ klogText m ls (ls + l.length) = some p ∧ m.Holds p text) ∨
    ((∀ d text, ¬KlogForm l d text) ∧ klogText m ls (ls + l.length) = none) := by
  have hfront {d : UInt8} (hd : isDigit d = true) : m.Holds ls [60, d, 62] ↔ [60, d, 62] <+: l := by
    have hne : d ≠ 0 := fun h0 => absurd (h0 ▸ hd) (by decide)
    exact holds_iff_prefix h (by simp [hne.symm])
  by_cases hbytes : m ls = 60 ∧ isDigit (m (ls + 1)) = true ∧ m (ls + 2) = 62
  case neg =>
    refine .inr ⟨fun d text hform => hbytes ?_, ?_⟩
    · obtain ⟨hd, hpre⟩ : isDigit d = true ∧ [60, d, 62] <+: l := by
        cases hform with
        | plain hd _ => exact ⟨hd, _, rfl⟩
        | timed hd _ _ => exact ⟨hd, _, rfl⟩
      obtain ⟨h0, hrest⟩ := holds_cons.mp ((hfront hd).mpr hpre)
      obtain ⟨h1, hrest⟩ := holds_cons.mp hrest
      exact ⟨h0, h1 ▸ hd, (holds_cons.mp hrest).1⟩
    · rw [klogText]
      split_ifs <;> first | rfl | exact absurd ⟨by simp_all, by simp_all, by simp_all⟩ hbytes
  case pos =>
    obtain ⟨h0, h1, h2⟩ := hbytes
    obtain ⟨rest, hl⟩ := (hfront h1).mp
      (holds_cons.mpr ⟨h0, holds_cons.mpr ⟨rfl, holds_cons.mpr ⟨h2, nofun⟩⟩⟩)
    have hrest : m.Holds (ls + 3) (rest ++ [0]) := by
      rw [← hl, append_assoc] at h
      exact (holds_append.mp h).2
    have hlen : l.length = rest.length + 3 := by
      rw [← hl, length_append, add_comm]
      rfl
    have hbracket : m (ls + 3) = 91 ↔ [91] <+: rest := by
      rw [← holds_iff_prefix hrest (by decide), holds_cons]
      exact (and_iff_left nofun).symm
    rw [klogText, if_neg (not_not.mpr h0), if_neg (by simp [h1]), if_neg (not_not.mpr h2)]
    dsimp only
    split
    case isFalse hplain =>
      have hhead : rest.head? ≠ some 91 := by
        obtain _ | ⟨c, rest⟩ := rest
        · exact nofun
        · rintro ⟨⟩
          exact hplain (hbracket.mpr ⟨rest, rfl⟩)
      exact .inl ⟨rest, ls + 3, hl ▸ .plain h1 hhead, h1,
        le_rfl, by omega, rfl, (holds_append.mp hrest).1⟩
    case isTrue h3 =>
      obtain ⟨rest, rfl⟩ := hbracket.mp h3
      have hrest' : m.Holds (ls + 3 + 1) (rest ++ [0]) := (holds_cons.mp hrest).2
      have hcount : ls + l.length - (ls + 3 + 1) = rest.length := by
        rw [hlen, length_append, length_singleton]
        omega
      rw [scan_eq, hcount, holds_iff_load.mp (holds_append.mp hrest').1]
      have hsplit : rest.takeWhile _ ++ rest.dropWhile (fun c => !decide (c = 0 ∨ c = 93)) = rest :=
        takeWhile_append_dropWhile
      have hmem (c : UInt8) (hc : c ∈ rest.takeWhile (fun c => !decide (c = 0 ∨ c = 93))) : c ≠ 0 ∧
        c ≠ 93 := by
        simpa using mem_takeWhile_imp hc
      have hform (d : UInt8) (text : List UInt8) (h : KlogForm l d text) :
          [93, 32] <+: rest.dropWhile (fun c => !decide (c = 0 ∨ c = 93)) := by
        rw [← hl] at h
        exact ⟨text, (dropWhile_of_form h).symm⟩
      generalize rest.takeWhile (fun c => !decide (c = 0 ∨ c = 93)) = stamp,
        rest.dropWhile (fun c => !decide (c = 0 ∨ c = 93)) = tail at hsplit hmem hform
      rw [← hsplit, append_assoc] at hrest'
      -- the bracket and the space, or something else, or the end
      have hend := holds_iff_prefix (w := [93, 32]) (holds_append.mp hrest').2 (by decide)
      rw [holds_cons, holds_cons] at hend
      by_cases hpre : [93, 32] <+: tail
      case pos =>
        obtain ⟨h93, h32, -⟩ := hend.mpr hpre
        obtain ⟨text, rfl⟩ := hpre
        rw [if_neg (not_not.mpr h93), if_neg (not_not.mpr h32)]
        refine .inl ⟨text, _, ?_, h1, by omega, ?_, rfl, ?_⟩
        · rw [← hl, ← hsplit]
          exact .timed h1 (fun h => (hmem 0 h).1 rfl) fun h => (hmem 93 h).2 rfl
        · rw [hlen, ← hsplit]
          simp only [length_append, length_cons, length_nil]
          omega
        · have hall := (holds_append.mp hrest').2
          rw [append_assoc] at hall
          exact (holds_append.mp (holds_append.mp hall).2).1
      case neg =>
        refine .inr ⟨fun d text h => hpre (hform d text h), ?_⟩
        split_ifs with h93 h32
        · rfl
        · rfl
        · exact absurd (hend.mp ⟨not_not.mp h93, not_not.mp h32, nofun⟩) hpre

/-- **What becomes of a line**, and what is touched by it: nothing from its end on, and nothing far
below it. -/
theorem processKlogLine_spec (signed : Bool) (ts : UInt64) (hls : TAGSPACE ≤ ls)
    (h : m.Holds ls (l ++ [0])) :
    (∀ a, a + 11 < ls ∨ ls + l.length ≤ a → (processKlogLine signed ts ls (ls + l.length) m).2 a =
      m a) ∧
    ((∃ d text line, KlogForm l d text ∧ StoredAs ts d text line ∧
        (processKlogLine signed ts ls (ls + l.length) m).1 = [line]) ∨
      ((∀ d text, ¬KlogForm l d text) ∧ (processKlogLine signed ts ls (ls + l.length) m).1 =
        [])) := by
  have h14 : TAGSPACE = 14 := rfl
  rw [processKlogLine]
  rcases klogText_spec h with ⟨text, p, hform, hd, hlow, hend, heq, htext⟩ | ⟨hform, heq⟩
  · rw [heq, ← hend]
    refine ⟨fun a ha => sentMem_frame signed ts _ (by omega) (by omega) m (by omega),
      .inl ⟨_, text, _, hform, ?_, rfl⟩⟩
    exact sendToLog_storedAs signed ts hd (by omega) htext
  · rw [heq]
    exact ⟨fun _ _ => rfl, .inr ⟨hform, rfl⟩⟩

end Line

/-! ### All of them -/

section Chunk

variable {signed : Bool} {ts : UInt64} {m : Mem} {p : ℕ} {rest : List UInt8}

/-- Where the next line ends. -/
theorem eol_spec (h : m.Holds p rest) :
    (10 ∉ rest ∧ eol m p (p + rest.length) = none) ∨
    ∃ l chunk, 10 ∉ l ∧ rest = l ++ 10 :: chunk ∧ eol m p (p + rest.length) = some
    (p + l.length) := by
  rw [eol, scan_eq, Nat.add_sub_cancel_left, holds_iff_load.mp h]
  by_cases hmem : 10 ∈ rest
  · obtain ⟨l, chunk, rfl, hl⟩ := eq_append_cons_of_mem hmem
    refine .inr ⟨l, chunk, hl, rfl, ?_⟩
    rw [takeWhile_append_of_pos fun c hc => by simpa using fun h10 : c = 10 => hl (h10 ▸ hc),
      takeWhile_cons_of_neg (by decide), append_nil]
    exact if_pos (by rw [length_append, length_cons]; omega)
  · refine .inl ⟨hmem, ?_⟩
    rw [takeWhile_eq_self_iff.mpr fun c hc => by simpa using fun h10 : c = 10 => hmem (h10 ▸ hc)]
    exact if_neg (lt_irrefl _)

variable (signed ts) in
/-- **Line by line.** What is still to come is not touched by what is done with a line. -/
theorem klogLoop_spec (fuel : ℕ) (hp : TAGSPACE ≤ p) (h : m.Holds p rest)
    (hfuel : rest.length ≤ fuel) :
    Logged ts rest (klogLoop signed ts fuel p (p + rest.length) m).1 ∧
      ∀ a, a + 11 < p ∨ p + rest.length ≤ a → (klogLoop signed ts fuel p (p + rest.length) m).2 a =
        m a := by
  induction fuel generalizing p m rest with
  | zero =>
    obtain rfl := length_eq_zero_iff.mp (Nat.le_zero.mp hfuel)
    exact ⟨.rest not_mem_nil, fun _ _ => rfl⟩
  | succ fuel ih =>
    rw [klogLoop]
    split
    case isFalse hend =>
      obtain rfl := length_eq_zero_iff.mp (show rest.length = 0 by omega)
      exact ⟨.rest not_mem_nil, fun _ _ => rfl⟩
    case isTrue =>
      rcases eol_spec h with ⟨hno, heol⟩ | ⟨l, chunk, hl, rfl, heol⟩
      · rw [heol]
        exact ⟨.rest hno, fun _ _ => rfl⟩
      · rw [heol]
        dsimp only
        obtain ⟨hline, hchunk⟩ := holds_append.mp h
        rw [length_append, length_cons] at hfuel ⊢
        -- the line is cut off, and then it is done with
        have hcut : (m.store (p + l.length) [0]).Holds p (l ++ [0]) :=
          holds_append.mpr ⟨hline.store (.inr le_rfl), holds_store _ _ _⟩
        obtain ⟨hframe, hout⟩ := processKlogLine_spec signed ts hp hcut
        generalize processKlogLine signed ts p (p + l.length) (m.store (p + l.length) [0]) =
          out at hframe hout ⊢
        have hrest : out.2.Holds (p + l.length + 1) chunk := by
          refine (holds_cons.mp hchunk).2.congr fun i hi _ => ?_
          rw [hframe i (by omega), store_of_not_mem (by rw [length_singleton]; omega)]
        have hend : p + (l.length + (chunk.length + 1)) =
          p + l.length + 1 + chunk.length := by omega
        rw [hend]
        obtain ⟨hlogged, hframe'⟩ := ih (p := p + l.length + 1) (by omega) hrest (by omega)
        refine ⟨?_, fun a ha => ?_⟩
        · rcases hout with ⟨d, text, line, hform, hstored, heq⟩ | ⟨hform, heq⟩
          · rw [heq]
            exact .stored hl hform hstored hlogged
          · rw [heq]
            exact .dropped hl hform hlogged
        · rw [hframe' a (by omega), hframe a (by omega), store_of_not_mem]
          rw [length_singleton]
          omega

/-- **A chunk is stored line by line**: each line of the form once, with its severity and its text,
and no other. Outside of the buffer nothing changes, and what is done with a line changes nothing
from its end on. -/
theorem recvKlog_logged (signed : Bool) (ts : UInt64) (chunk : List UInt8) (buf : ℕ) (m : Mem) :
    Logged ts (chunk.take 2048) (recvKlog signed ts chunk buf m).1 ∧
      (∀ a, a < buf ∨ buf + (TAGSPACE + 2048 + 2) ≤ a →
        (recvKlog signed ts chunk buf m).2 a = m a) ∧
      ∀ (m' : Mem) ls l, TAGSPACE ≤ ls → m'.Holds ls (l ++ [0]) → ∀ a, a + 11 < ls ∨
        ls + l.length ≤ a →
        (processKlogLine signed ts ls (ls + l.length) m').2 a = m' a := by
  have hlen : (chunk.take 2048).length ≤ 2048 := length_take_le ..
  have h14 : TAGSPACE = 14 := rfl
  obtain ⟨hlogged, hframe⟩ := klogLoop_spec signed ts (chunk.take 2048).length
    (show TAGSPACE ≤ buf + TAGSPACE by omega) (holds_store m _ (chunk.take 2048)) le_rfl
  refine ⟨hlogged, fun a ha => ?_, fun m' ls l hls h => (processKlogLine_spec signed ts hls h).1⟩
  rw [recvKlog, hframe a (by omega), store_of_not_mem (by omega)]

end Chunk

/-- A line of a digit and a letter. -/
theorem recvKlog_letter (ts : UInt64) (hts : countDigits 10 ts.toNat ≤ 12) :
    (recvKlog true ts [60, 54, 62, 97, 10] 0 fun _ => 0).1 = [frontBytes ts 6 ++ [97]] ∧
      (recvKlog true ts [60, 55, 62, 97, 10] 0 fun _ => 0).1 = [frontBytes ts 7 ++ [97]] := by
  have hline (prio : BitVec 32) (m : Mem) (h : m 17 = 97) : sendToLog true ts prio 17 18 m =
    frontBytes ts prio ++ [97] := by
    have hload : m.load 17 1 = [97] := congrArg (fun c => [c]) h
    rw [sendToLog_of_tag true (by decide) (by decide) (length_frontBytes ts prio)
      (mem_formatTag_front hts prio (by decide) ⟨m, []⟩), hload]
    rfl
  exact ⟨congrArg (fun l => [l]) (hline 6 _ rfl), congrArg (fun l => [l]) (hline 7 _ rfl)⟩

/-- **What a chunk is not stored as**: a tab is not stored, nor is a text that begins with a
bracket, and a time of twelve digits leaves no room for the severity. -/
theorem not_verbatim :
    (¬∃ tag, tag.length = TAGSPACE ∧ (recvKlog true 0 [60, 54, 62, 9, 10] 0 fun _ => 0).1 =
      [tag ++ [9]]) ∧
      (recvKlog true 0 [60, 54, 62, 91, 10] 0 fun _ => 0).1 = [] ∧
      (recvKlog true 100000000000 [60, 54, 62, 97, 10] 0 fun _ => 0).1 =
        (recvKlog true 100000000000 [60, 55, 62, 97, 10] 0 fun _ => 0).1 := by
  refine ⟨?_, rfl, ?_⟩
  · rintro ⟨tag, htag, heq⟩
    have hline (m : Mem) (h : m 17 = 9) : sendToLog true 0 6 17 18 m = tagBytes 0 6 ++ [32] := by
      have hload : m.load 17 1 = [9] := congrArg (fun c => [c]) h
      rw [sendToLog_eq true (by decide) 6 (by decide) (by decide), hload]
      rfl
    have hstored : (recvKlog true 0 [60, 54, 62, 9, 10] 0 fun _ => 0).1 = [tagBytes 0 6 ++ [32]] :=
      congrArg (fun l => [l]) (hline _ rfl)
    have hsame := (cons.inj (hstored.symm.trans heq)).1
    have htext := (append_inj hsame ((length_tagBytes 0 6).trans htag.symm)).2
    exact absurd htext (by decide)
  · have hcount (k : ℕ) := countDigits_le_iff 10 (by decide) (100000000000 : UInt64).toNat k
    have hle := (hcount 12).mpr ⟨by decide, by decide⟩
    have hnot : ¬countDigits 10 (100000000000 : UInt64).toNat ≤ 11 :=
      fun h => absurd ((hcount 11).mp h).2 (by decide)
    have hfront : frontBytes 100000000000 6 = frontBytes 100000000000 7 := by
      rw [frontBytes, frontBytes, show countDigits 10 (100000000000 : UInt64).toNat = 12 by omega]
      rfl
    rw [(recvKlog_letter _ hle).1, (recvKlog_letter _ hle).2, hfront]

end Minibase.Syslog
