import Minibase.Syslog.Log

/-!
# What a datagram is stored as

`recv_syslog` of `sysklogd.c` takes the priority and the time off the front of a message, and stores
the rest. The line should be determined by the datagram (`Syslog.Determined`); but the priority is
a variable that is only set where there is a number, and the two characters that may end the
header, a `>` and a space, are looked for behind the datagram as well. `Syslog.determined_iff` says
what a datagram needs for its line to be determined, and to be what it should be.
-/

namespace Minibase.Syslog

open Format List Option Mem

variable {m : Mem} {d l : List UInt8} {p e top : ℕ} {ts : UInt64} {prio : BitVec 32}

/-! ### Receiving a message -/

def isdigsp (c : UInt8) : Bool := isDigit c || c = 32

def looksLikeTime (m : Mem) (p : ℕ) : Bool :=
  if m (p + 2) ≠ 58 ∨ m (p + 5) ≠ 58 then false
  else if !isDigit (m (p + 1)) || !isDigit (m (p + 4)) || !isDigit (m (p + 7)) then false
  else if !isdigsp (m p) || !isdigsp (m (p + 3)) || !isdigsp (m (p + 6)) then false
  else true

/-- `parse_header`: where the text is, the priority, and what is in memory. A string in memory goes
on to `top` at most, where the stack ends with a zero. -/
def parseHeader (top p len : ℕ) (prio : BitVec 32) (m : Mem) : ℕ × BitVec 32 × Mem :=
  let r := p
  let e := p + len
  let old := m e
  if m p ≠ 60 then (r, prio, m)
  else
    let p := p + 1
    let m := m.store e [0]
    match parseint (m.load p (top - p)) with
    | none => (r, prio, m) -- the zero stays there
    | some (n, rest) =>
      let p := top - rest.length
      let prio := BitVec.ofInt 32 n
      let m := m.store e [old]
      if m p ≠ 62 then (r, prio, m)
      else
        let p := p + 1
        let p := if 15 < (e : ℤ) - p ∧ looksLikeTime m (p + 7) then p + 15 else p
        let p := if m p = 32 then p + 1 else p
        (p, prio, m)

variable (signed : Bool)

/-- `recv_syslog`: the line that `store_line` is handed at a time `ts`, less its end. Before the
datagram comes, `m` is what there is in the memory, which goes on for `above` bytes above the
buffer, and `prio` what there is in the variable. -/
def recvSyslog (ts : UInt64) (datagram : List UInt8) (above : ℕ) (m : Mem)
    (prio : BitVec 32) : List UInt8 :=
  let off := TAGSPACE
  let len := 512
  let top := off + len + 1 + above
  let rbuf := off
  let m := m.store rbuf (datagram.take len)
  let rd := (datagram.take len).length
  match parseHeader top rbuf rd prio m with
  | (msg, prio, m) => sendToLog signed ts prio msg (rbuf + rd) m

/-! ### What a line should be -/

/-- The text, with no control characters in it. -/
def blanked (text : List UInt8) : List UInt8 := text.map fun c => if c < 32 then 32 else c

/-- What follows a number: there may be a time, with something after it, and a space. -/
def untimed (l : List UInt8) : List UInt8 :=
  let l := if 15 < l.length ∧ looksLikeTime (fun i => l.getD i 0) 7 = true then l.drop 15 else l
  if l.head? = some 32 then l.tail else l

/-- The digits of the number at the front of a datagram, and what follows them. -/
def number (d : List UInt8) : List UInt8 := d.tail.takeWhile isDigit

def afterNumber (d : List UInt8) : List UInt8 := d.tail.dropWhile isDigit

/-- There is a number at the front, after a `<`. -/
def Numbered (d : List UInt8) : Prop := d.head? = some 60 ∧ number d ≠ []
deriving Decidable

/-- **The text of a datagram**: what follows the header, if it has one. -/
def text (d : List UInt8) : List UInt8 :=
  if Numbered d ∧ (afterNumber d).head? = some 62 then untimed (afterNumber d).tail else d

/-- **What stands in front of a text**, in fourteen bytes: the time, a letter for the facility and a
digit for the severity, with spaces before and after these. -/
def IsTag (ts : UInt64) (tag : List UInt8) : Prop :=
  tag.length = TAGSPACE ∧ ∃ (w a b : ℕ) (prio : BitVec 32), ts.toNat < 10 ^ w ∧
    tag = digits w ts.toNat ++ (replicate a 32 ++ (prioBytes prio ++ replicate b 32))

/-- **A line is determined by the datagram**, and is what it should be. -/
def Determined (ts : UInt64) (d : List UInt8) : Prop :=
  ∃ line, (∀ above m prio, recvSyslog signed ts d above m prio = line) ∧
    ∃ tag, IsTag ts tag ∧ line = tag ++ blanked (text d)

/-- Where nothing is read behind a datagram: there is a number, something after it, and something
after it and a `>`. -/
def Whole (d : List UInt8) : Prop := Numbered d ∧ afterNumber d ≠ [] ∧ afterNumber d ≠ [62]

/-- **What it takes.** -/
structure Settled (signed : Bool) (ts : UInt64) (d : List UInt8) : Prop where
  time : ts.toNat < 100000000000
  whole : Whole d
  ascii : signed = true → ∀ c ∈ text d, c < 128

/-! ### The front of the line -/

/-- The front of a line, for a time of any length. -/
def frontBytes (ts : UInt64) (prio : BitVec 32) : List UInt8 :=
  (digits (max 10 (countDigits 10 ts.toNat)) ts.toNat ++ ([32] ++ (prioBytes prio ++ [32]))).take
    TAGSPACE

lemma length_frontBytes (ts : UInt64) (prio : BitVec 32) :
    (frontBytes ts prio).length = TAGSPACE := by
  have hprio : (prioBytes prio).length = 2 := rfl
  have h14 : TAGSPACE = 14 := rfl
  rw [frontBytes, length_take, length_append, length_digits, length_append, length_append,
    hprio, length_singleton]
  omega

/-- A number that is longer is not padded. -/
theorem fmtpad0_long {k : ℕ} (hk : 10 ≤ k) (hlt : k < 2147483648) (o : Out) : fmtpad0 p e 10
    (p + k) o = (p + k, o) := by
  have hshift : (10 - Int32.ofInt ((p + k : ℕ) - p)).toInt = 10 - k := by
    rw [toInt_shift (p := p) (q := p + k) (show (0 : Int32) ≤ 10 by decide) (by omega) (by omega)]
    show (10 : ℤ) - _ = _
    omega
  have hzero : 10 - Int32.ofInt ((p + k : ℕ) - p) ≤ 0 := by
    rw [Int32.le_iff_toInt_le, Int32.toInt_zero]
    omega
  exact if_pos hzero

/-- A space is put after the time, and then there is room for the letter and the digit or for the
letter only. -/
theorem mem_front_rest {s k : ℕ} (hlow : 11 ≤ k)
    (hhigh : k ≤ 12) (prio : BitVec 32) (ds : List UInt8)
    (hds : ds.length = k) {m : Mem} {o : Out} (hm : o.mem = m.store s ds) :
    let out := fmtprio (fmtchar (s + k) (s + TAGSPACE) 32 o).1 (s + TAGSPACE)
      prio (fmtchar (s + k) (s + TAGSPACE) 32 o).2
    (fillRight (s + TAGSPACE) (s + TAGSPACE : ℕ) (s + TAGSPACE - out.1) out.1 out.2).2.mem =
      m.store s ((ds ++ ([32] ++ (prioBytes prio ++ [32]))).take TAGSPACE) := by
  have h14 : TAGSPACE = 14 := rfl
  have hchar : fmtchar (s + k) (s + TAGSPACE) 32 o =
    (s + k + 1, o.poke (s + k) 32) := if_pos (by omega)
  have hspace : (o.poke (s + k) 32).mem = m.store s (ds ++ [32]) := by
    rw [← store_append, hds, ← hm]
    rfl
  have hprio : prioBytes prio = [(prioBytes prio).getD 0 0, (prioBytes prio).getD 1 0] := rfl
  have hdrop (c1 c2 c3 : UInt8) : (ds ++ ([32] ++ ([c1, c2] ++ [c3]))).take TAGSPACE =
      ds ++ [32] ++ ([c1, c2].take (13 - k)) := by
    have hsplit : ds ++ ([32] ++ ([c1, c2] ++ [c3])) = (ds ++ [32]) ++ [c1, c2, c3] := by
      rw [append_assoc]
      rfl
    have hlen : (ds ++ [(32 : UInt8)]).length = k + 1 := by
      rw [length_append, hds]
      rfl
    rw [hsplit, take_append, hlen, take_of_length_le (by omega)]
    obtain rfl | rfl : k = 11 ∨ k = 12 := by omega
    · rfl
    · rfl
  rw [hchar]
  dsimp only
  rcases Nat.lt_or_eq_of_le hhigh with hlt | rfl
  · obtain rfl : k = 11 := by omega
    obtain ⟨h1, hm1⟩ := mem_fmtprio prio (o.poke (s + 11) 32) (show s + 11 + 1 + 2 ≤ s +
      TAGSPACE by omega)
    have hnone : s + TAGSPACE - (s + 11 + 1 + 2) = 0 := by omega
    rw [h1, hnone, fillRight, hm1, hspace]
    have hplace : s + 11 + 1 = s + (ds ++ [(32 : UInt8)]).length := by
      rw [length_append, hds]
      rfl
    rw [hplace, store_append, hprio, hdrop]
    rfl
  · -- the digit does not fit in
    have h1 (c : UInt8) (o : Out) : fmtchar
      (s + 12 + 1) (s + TAGSPACE) c o = (s + 14, o.poke (s + 13) c) :=
      if_pos (by omega)
    have h2 (c : UInt8) (o : Out) : fmtchar (s + 14) (s + TAGSPACE) c o =
      (s + 14, o) := if_neg (by omega)
    have hnone : s + TAGSPACE - (s + 14) = 0 := by omega
    rw [fmtprio, h1, h2, hnone, fillRight]
    show ((o.poke (s + 12) 32).mem.store (s + 13) _) = _
    have hplace : s + 13 = s + (ds ++ [(32 : UInt8)]).length := by
      rw [length_append, hds]
      rfl
    rw [hspace, hplace, store_append, hprio, hdrop]
    rfl

/-- **The front of a line**, for a time of twelve digits at most. -/
theorem mem_formatTag_front (hts : countDigits 10 ts.toNat ≤ 12) (prio : BitVec 32) {msg : ℕ}
    (hmsg : TAGSPACE ≤ msg) (o : Out) :
    (formatTag ts prio msg o).2.mem = o.mem.store (msg - TAGSPACE) (frontBytes ts prio) := by
  rcases lt_or_ge 10 (countDigits 10 ts.toNat) with hlong | hshort
  · obtain ⟨s, rfl⟩ := Nat.exists_eq_add_of_le' hmsg
    have h14 : TAGSPACE = 14 := rfl
    have hs : s + TAGSPACE - TAGSPACE = s := Nat.add_sub_cancel s TAGSPACE
    obtain ⟨hq, hmem⟩ := @mem_fmtu64 s (s + TAGSPACE) ts o (by omega)
    rw [formatTag, hs, frontBytes, max_eq_right (le_of_lt hlong)]
    rw [hq, fmtpad0_long (le_of_lt hlong) (by omega)]
    exact mem_front_rest hlong hts prio _ (length_digits _ _) hmem
  · have hlt := ((countDigits_le_iff 10 (by decide) ts.toNat 10).mp hshort).2
    have hsame : frontBytes ts prio = tagBytes ts prio := by
      rw [frontBytes, max_eq_left hshort, take_of_length_le]
      · rfl
      · exact le_of_eq (length_tagBytes ts prio)
    rw [hsame]
    exact (mem_formatTag (by norm_num at hlt ⊢; omega) prio hmsg o).2

/-! ### The header -/

/-- A block of memory from one of its bytes on. -/
theorem holds_drop (h : m.Holds p l) {k : ℕ} (hk : k ≤ l.length) : m.Holds (p + k) (l.drop k) := by
  have hsplit := (take_append_drop k l).symm
  rw [hsplit] at h
  have hrest := (holds_append.mp h).2
  rwa [length_take, min_eq_left hk] at hrest

/-- A byte of a block. -/
theorem holds_getD (h : m.Holds p l) {i : ℕ} (hi : i < l.length) : m (p + i) = l.getD i 0 := by
  rw [h i hi, getD_eq_getElem?_getD, getElem?_eq_getElem hi, getD_some]

lemma holds_head (h : m.Holds p l) (hl : l ≠ []) (c : UInt8) : m p = c ↔ l.head? = some c := by
  obtain ⟨b, l, rfl⟩ := exists_cons_of_ne_nil hl
  have hb : m p = b := h 0 (Nat.succ_pos _)
  rw [hb, head?_cons, some_inj]

/-- Nothing is noticed of what is not among the eight bytes. -/
theorem looksLikeTime_congr {m' : Mem} {p q : ℕ} (h : ∀ i < 8, m (p + i) = m' (q + i)) :
    looksLikeTime m p = looksLikeTime m' q := by
  have h0 : m p = m' q := h 0 (by omega)
  rw [looksLikeTime, looksLikeTime, h 1 (by omega), h 2 (by omega), h 3 (by omega), h 4 (by omega),
    h 5 (by omega), h 6 (by omega), h 7 (by omega), h0]

/-- **The end of the header**: a time and a space are left out. -/
theorem untimed_spec (h : m.Holds p l) (hne : l ≠ [] ∨ m (p + l.length) ≠ 32) :
    ∃ r, (let q := if 15 < ((p + l.length : ℕ) : ℤ) - p ∧ looksLikeTime m (p + 7) then p + 15 else p
        if m q = 32 then q + 1 else q) = r ∧
      p ≤ r ∧ r + (untimed l).length = p + l.length ∧ m.Holds r (untimed l) := by
  have htime : looksLikeTime m (p + 7) = looksLikeTime (fun i => l.getD i 0) 7 ∨
    ¬15 < l.length := by
    by_cases hlong : 15 < l.length
    · refine .inl (looksLikeTime_congr fun i hi => ?_)
      rw [add_assoc]
      exact holds_getD h (by omega)
    · exact .inr hlong
  have hsame : (15 < ((p + l.length : ℕ) : ℤ) - p ∧ looksLikeTime m (p + 7) = true) ↔
      (15 < l.length ∧ looksLikeTime (fun i => l.getD i 0) 7 = true) := by
    constructor
    · rintro ⟨hlong, hlook⟩
      have hlong : 15 < l.length := by omega
      exact ⟨hlong, (htime.resolve_right (not_not.mpr hlong)) ▸ hlook⟩
    · rintro ⟨hlong, hlook⟩
      exact ⟨by omega, (htime.resolve_right (not_not.mpr hlong)).symm ▸ hlook⟩
  -- what is left once the time is
  have hspace (q : ℕ) (l' : List UInt8) (hh : m.Holds q l') (hne' : l' ≠ [] ∨ m q ≠ 32) :
      q ≤ (if m q = 32 then q + 1 else q) ∧
      (if m q = 32 then q + 1 else q) + (if l'.head? = some 32 then l'.tail else l').length =
        q + l'.length ∧
        m.Holds (if m q = 32 then q + 1 else q) (if l'.head? = some 32 then l'.tail else l') := by
    by_cases hnil : l' = []
    · subst hnil
      have hother : m q ≠ 32 := hne'.resolve_left fun h => h rfl
      rw [if_neg hother]
      exact ⟨le_rfl, rfl, hh⟩
    · have hhead := holds_head hh hnil 32
      have hpos := length_pos_iff.mpr hnil
      by_cases h32 : m q = 32
      · rw [if_pos h32, if_pos (hhead.mp h32), length_tail, ← drop_one]
        exact ⟨by omega, by omega, holds_drop hh hpos⟩
      · rw [if_neg h32, if_neg fun h => h32 (hhead.mpr h)]
        exact ⟨le_rfl, rfl, hh⟩
  unfold untimed
  by_cases hcond : 15 < l.length ∧ looksLikeTime (fun i => l.getD i 0) 7 = true
  · rw [if_pos (hsame.mpr hcond), if_pos hcond]
    have hlong : 15 < l.length := hcond.1
    have hrest : l.drop 15 ≠ [] := by
      rw [Ne, drop_eq_nil_iff]
      omega
    obtain ⟨h1, h2, h3⟩ := hspace (p + 15) (l.drop 15) (holds_drop h (by omega)) (.inl hrest)
    rw [length_drop] at h2
    refine ⟨_, rfl, ?_⟩
    dsimp only
    exact ⟨by omega, by omega, h3⟩
  · rw [if_neg fun h => hcond (hsame.mp h), if_neg hcond]
    have hne' : l ≠ [] ∨ m p ≠ 32 := by
      by_cases hnil : l = []
      · subst hnil
        exact .inr (hne.resolve_left fun h => h rfl)
      · exact .inl hnil
    obtain ⟨h1, h2, h3⟩ := hspace p l h hne'
    exact ⟨_, rfl, h1, h2, h3⟩

/-- The priority that is stored: the one in the header, or what was in the variable. -/
def prioOf (prio : BitVec 32) (d : List UInt8) : BitVec 32 :=
  if Numbered d then BitVec.ofInt 32 (i32 (decimal d.tail)) else prio

/-- A number ends where the datagram is cut off. -/
theorem parseint_cut (l rest : List UInt8) :
    parseint (l ++ 0 :: rest) = if l.takeWhile isDigit = [] then none
      else some (i32 (decimal l), l.dropWhile isDigit ++ 0 :: rest) := by
  have hboth : (l ++ 0 :: rest).takeWhile isDigit = l.takeWhile isDigit ∧
      (l ++ 0 :: rest).dropWhile isDigit = l.dropWhile isDigit ++ 0 :: rest := by
    induction l with
    | nil => exact ⟨rfl, rfl⟩
    | cons c l ih =>
      rw [cons_append, takeWhile_cons, takeWhile_cons, dropWhile_cons, dropWhile_cons, ih.1, ih.2]
      exact ⟨rfl, by split <;> rfl⟩
  rw [parseint_eq, hboth.1, hboth.2, decimal, hboth.1, decimal]

/-- What the number is read from, once there is a zero behind the datagram. -/
theorem load_cut (h : m.Holds p (60 :: l)) (htop : p + (l.length + 1) < top) :
    (m.store (p + (l.length + 1)) [0]).load (p + 1) (top - (p + 1)) =
      l ++ 0 :: m.load (p + (l.length + 1) + 1) (top - (p + (l.length + 1) + 1)) := by
  have hl : m.Holds (p + 1) l := holds_drop h (Nat.le_add_left 1 l.length)
  have hlen : top - (p + 1) = l.length + (1 + (top - (p + (l.length + 1) + 1))) := by omega
  have hplace : p + 1 + l.length = p + (l.length + 1) := by omega
  rw [hlen, load_add, load_add, hplace]
  have hfirst : (m.store (p + (l.length + 1)) [0]).load (p + 1) l.length = l := by
    rw [← holds_iff_load]
    intro i hi
    rw [store_of_not_mem (by omega)]
    exact hl i hi
  have hzero : (m.store (p + (l.length + 1)) [0]).load (p + (l.length + 1)) 1 = [0] :=
    holds_iff_load.mp (holds_store m _ [0])
  have hrest : (m.store (p + (l.length + 1)) [0]).load (p + (l.length + 1) + 1)
    (top - (p + (l.length + 1) + 1)) =
      m.load (p + (l.length + 1) + 1) (top - (p + (l.length + 1) + 1)) :=
    map_congr_left fun i _ => store_of_not_mem (by rw [length_singleton]; omega)
  rw [hfirst, hzero, hrest]
  rfl

/-- The byte behind the datagram is put back. -/
theorem store_back (m : Mem) (e : ℕ) (b : UInt8) : (m.store e [b]).store e [m e] = m := by
  funext a
  by_cases ha : a = e
  · rw [ha, store_one]
  · rw [store_of_not_mem (by rw [length_singleton]; omega),
      store_of_not_mem (by rw [length_singleton]; omega)]

/-- **A number is taken off.** -/
theorem parseHeader_numbered (h : m.Holds p d) (htop : p + d.length < top) (prio : BitVec 32)
    (hnum : Numbered d) :
    parseHeader top p d.length prio m =
      if m (p + 1 + (number d).length) ≠ 62 then (p, prioOf prio d, m)
      else
        ((let q := p + 1 + (number d).length + 1
          let q := if 15 < ((p + d.length : ℕ) : ℤ) - q ∧ looksLikeTime m (q + 7) then q + 15 else q
          if m q = 32 then q + 1 else q), prioOf prio d, m) := by
  obtain ⟨hhead, hne⟩ := hnum
  obtain ⟨l, rfl⟩ := head?_eq_some_iff.mp hhead
  have hfirst : m p = 60 := h 0 (Nat.succ_pos _)
  have hprio : prioOf prio (60 :: l) = BitVec.ofInt 32 (i32 (decimal l)) := if_pos ⟨rfl, hne⟩
  have hne : l.takeWhile isDigit ≠ [] := hne
  have hsplit : (number (60 :: l)).length + (l.dropWhile isDigit).length = l.length := by
    rw [← length_append]
    exact congrArg length takeWhile_append_dropWhile
  have hplace : top - (l.dropWhile isDigit ++ 0 :: m.load (p + (l.length + 1) + 1)
      (top - (p + (l.length + 1) + 1))).length = p + 1 + (number (60 :: l)).length := by
    rw [length_append, length_cons, length_load]
    rw [length_cons] at htop
    omega
  rw [parseHeader, if_neg (not_not.mpr hfirst), length_cons]
  dsimp only
  rw [load_cut h htop, parseint_cut, if_neg hne]
  dsimp only
  rw [hplace, store_back, hprio]

/-- **Where there is no number**, the text is the whole datagram, and what has been in the variable
is the priority. -/
theorem parseHeader_unnumbered (h : m.Holds p d) (htop : p + d.length < top) (prio : BitVec 32)
    (hnum : ¬Numbered d) (hend : m (p + d.length) = 0) :
    ∃ m', parseHeader top p d.length prio m = (p, prio, m') ∧ m'.Holds p d := by
  by_cases hhead : d.head? = some 60
  · obtain ⟨l, rfl⟩ := head?_eq_some_iff.mp hhead
    have hnil : l.takeWhile isDigit = [] := not_not.mp fun hne => hnum ⟨hhead, hne⟩
    have hfirst : m p = 60 := h 0 (Nat.succ_pos _)
    refine ⟨m.store (p + (l.length + 1)) [0], ?_, fun i hi => ?_⟩
    · rw [parseHeader, if_neg (not_not.mpr hfirst), length_cons]
      dsimp only
      rw [load_cut h htop, parseint_cut, if_pos hnil]
    · rw [length_cons] at hi
      rw [store_of_not_mem (by omega)]
      exact h i hi
  · refine ⟨m, if_pos fun hfirst => hhead ?_, h⟩
    cases d with
    | nil => cases hfirst.symm.trans hend
    | cons c l =>
      have hc : m p = c := h 0 (Nat.succ_pos _)
      exact congrArg some (hc.symm.trans hfirst)

/-- What follows the number is where it ends. -/
theorem holds_afterNumber (h : m.Holds p d) (hnum : Numbered d) :
    m.Holds (p + 1 + (number d).length) (afterNumber d) ∧
      p + 1 + (number d).length + (afterNumber d).length = p + d.length := by
  obtain ⟨hhead, -⟩ := hnum
  obtain ⟨l, rfl⟩ := head?_eq_some_iff.mp hhead
  have hl : m.Holds (p + 1) l := holds_drop h (Nat.le_add_left 1 l.length)
  have hsplit : number (60 :: l) ++ afterNumber (60 :: l) = l := takeWhile_append_dropWhile
  have hlen := congrArg length hsplit
  rw [length_append] at hlen
  rw [← hsplit] at hl
  exact ⟨(holds_append.mp hl).2, by rw [length_cons]; omega⟩

/-- **What `parse_header` does**, if nothing behind the datagram is taken for a part of it. -/
theorem parseHeader_eq (h : m.Holds p d) (htop : p + d.length < top) (prio : BitVec 32)
    (hend : Whole d ∨ m (p + d.length) = 0) :
    ∃ r m', parseHeader top p d.length prio m = (r, prioOf prio d, m') ∧ p ≤ r ∧
      r + (text d).length = p + d.length ∧ m'.Holds r (text d) := by
  by_cases hnum : Numbered d
  · obtain ⟨hafter, hlen⟩ := holds_afterNumber h hnum
    rw [parseHeader_numbered h htop prio hnum]
    -- a bracket is there only if it is in the datagram
    have hbracket : m (p + 1 + (number d).length) = 62 ↔ (afterNumber d).head? = some 62 := by
      by_cases hnil : afterNumber d = []
      · have hzero : m (p + d.length) = 0 := hend.resolve_left fun hwhole => hwhole.2.1 hnil
        have hplace : p + 1 + (number d).length = p + d.length := by
          rw [hnil] at hlen
          exact hlen
        rw [hplace, hzero, hnil]
        exact ⟨fun h => (nomatch h), fun h => (nomatch h)⟩
      · exact holds_head hafter hnil 62
    by_cases h62 : (afterNumber d).head? = some 62
    · obtain ⟨l, hl⟩ := head?_eq_some_iff.mp h62
      have hd : text d = untimed l := by
        rw [text, if_pos ⟨hnum, h62⟩, hl]
        rfl
      rw [if_neg (not_not.mpr (hbracket.mpr h62)), hd]
      rw [hl] at hafter hlen
      have hrest : m.Holds (p + 1 + (number d).length + 1) l :=
        holds_drop hafter (Nat.le_add_left 1 l.length)
      have hlen' : p + 1 + (number d).length + 1 + l.length = p + d.length := by
        rw [length_cons] at hlen
        omega
      obtain ⟨r, hr, hle, hfit, htext⟩ := untimed_spec hrest <| by
        rw [hlen']
        refine hend.imp (fun hwhole hnil => ?_) fun hzero => ?_
        · subst hnil
          exact hwhole.2.2 hl
        · rw [hzero]
          exact fun h => (nomatch h)
      rw [hlen'] at hr hfit
      exact ⟨r, m, congrArg (fun r => (r, prioOf prio d, m)) hr, by omega, hfit, htext⟩
    · rw [if_pos fun h => h62 (hbracket.mp h), text, if_neg fun h => h62 h.2]
      exact ⟨p, m, rfl, le_rfl, rfl, h⟩
  · have hzero : m (p + d.length) = 0 := hend.resolve_left fun hwhole => hnum hwhole.1
    obtain ⟨m', hparse, hholds⟩ := parseHeader_unnumbered h htop prio hnum hzero
    rw [prioOf, if_neg hnum, text, if_neg fun h => hnum h.1]
    exact ⟨p, m', hparse, le_rfl, rfl, hholds⟩

/-! ### The line -/

/-- **The line**, if nothing behind the datagram is taken for a part of it. -/
theorem recvSyslog_eq (hts : countDigits 10 ts.toNat ≤ 12) (hd : d.length ≤ 512) (above : ℕ)
    (m : Mem)
    (prio : BitVec 32) (hend : Whole d ∨ m (TAGSPACE + d.length) = 0) :
    recvSyslog signed ts d above m prio = frontBytes ts (prioOf prio d) ++ cleaned signed
    (text d) := by
  have htake : d.take 512 = d := take_of_length_le hd
  have hbehind : m.store TAGSPACE d (TAGSPACE + d.length) = m (TAGSPACE + d.length) :=
    store_of_not_mem (.inr le_rfl)
  obtain ⟨r, m', hparse, hle, hfit, htext⟩ := parseHeader_eq (holds_store m TAGSPACE d)
    (show TAGSPACE + d.length < TAGSPACE + 512 + 1 + above by omega) prio
      (hend.imp_right fun h => hbehind.trans h)
  rw [recvSyslog, htake]
  rw [hparse]
  dsimp only
  have hrest : TAGSPACE + d.length - r = (text d).length := by omega
  rw [sendToLog_of_tag signed hle (by omega) (length_frontBytes ts _)
    (mem_formatTag_front hts _ hle ⟨m', []⟩), hrest,
    holds_iff_load.mp htext]

lemma countDigits_le {k n : ℕ} (hk : 0 < k) (h : n < 10 ^ k) : countDigits 10 n ≤ k :=
  (countDigits_le_iff 10 (by decide) n k).mpr ⟨hk, h⟩

/-- The front has room for everything, for a time of eleven digits at most. -/
theorem frontBytes_eq (h : countDigits 10 ts.toNat ≤ 11) (prio : BitVec 32) :
    frontBytes ts prio = digits (max 10 (countDigits 10 ts.toNat)) ts.toNat ++ (replicate 1 32 ++
      (prioBytes prio ++ replicate (11 - max 10 (countDigits 10 ts.toNat)) 32)) := by
  set w := max 10 (countDigits 10 ts.toNat) with hw
  have hsplit : digits w ts.toNat ++ ([32] ++ (prioBytes prio ++ [32])) =
      (digits w ts.toNat ++ ([32] ++ prioBytes prio)) ++ [32] := by
    rw [append_assoc, append_assoc]
  have hlen : (digits w ts.toNat ++ ([32] ++ prioBytes prio)).length = w + 3 := by
    rw [length_append, length_digits]
    rfl
  have h14 : TAGSPACE = 14 := rfl
  have hone : take (TAGSPACE - (w + 3)) [(32 : UInt8)] = replicate (11 - w) 32 := by
    obtain hw | hw : w = 10 ∨ w = 11 := by omega
    · rw [hw]
      rfl
    · rw [hw]
      rfl
  rw [frontBytes, ← hw, hsplit, take_append, hlen, take_of_length_le (by omega), hone, append_assoc,
    append_assoc]
  rfl

/-- Twelve digits leave no room for the severity. -/
theorem frontBytes_twelve (h : countDigits 10 ts.toNat = 12) (prio : BitVec 32) :
    ∃ c, frontBytes ts prio = digits 12 ts.toNat ++ [32, c] := by
  obtain ⟨c, c', hprio⟩ : ∃ c c', prioBytes prio = [c, c'] := ⟨_, _, rfl⟩
  refine ⟨c, ?_⟩
  rw [frontBytes, h, hprio, take_append, length_digits, take_of_length_le]
  · rfl
  · rw [length_digits]
    decide

/-- A facility is not a space. -/
theorem facility_ne_space (prio : BitVec 32) : (prioBytes prio).getD 0 0 ≠ 32 := by
  have hall : ∀ c ∈ '?' :: fakeys, UInt8.ofNat c.toNat ≠ 32 := by simp [fakeys]
  refine hall (fakeys.getD (prio.sshiftRight 3).toNat '?') ?_
  rw [getD_eq_getElem?_getD]
  cases hget : fakeys[(prio.sshiftRight 3).toNat]? with
  | none => exact mem_cons_self
  | some c => exact mem_cons_of_mem _ (mem_of_getElem? hget)

/-- **The front of a line is what it should be.** -/
theorem isTag_frontBytes (h : ts.toNat < 100000000000) (prio : BitVec 32) : IsTag ts
    (frontBytes ts prio) := by
  have hle : countDigits 10 ts.toNat ≤ 11 := countDigits_le (by decide) (by norm_num; omega)
  have hlt := ((countDigits_le_iff 10 (by decide) ts.toNat (max 10 (countDigits 10 ts.toNat))).mp
    (Nat.le_max_right ..)).2
  exact ⟨length_frontBytes ts prio, _, _, _, prio, hlt, frontBytes_eq hle prio⟩

/-- A line that is what it should be has room for the time. -/
theorem time_of_isTag {tag : List UInt8} (htag : IsTag ts tag)
    (h : countDigits 10 ts.toNat ≤ 12 → ∃ prio, frontBytes ts prio = tag) :
      ts.toNat < 100000000000 := by
  obtain ⟨hlen, w, a, b, prio, hlt, rfl⟩ := htag
  by_contra hlong
  have hcount := countDigits_le_iff 10 (by decide) ts.toNat
  have hprio : (prioBytes prio).length = 2 := rfl
  have h14 : TAGSPACE = 14 := rfl
  rw [length_append, length_digits, length_append, length_replicate, length_append, hprio,
    length_replicate] at hlen
  have hnot : ¬countDigits 10 ts.toNat ≤ 11 :=
    fun hle => hlong (by have := ((hcount 11).mp hle).2; norm_num at this; omega)
  have hw : countDigits 10 ts.toNat ≤ w := by
    refine (hcount w).mpr ⟨pos_of_ne_zero ?_, hlt⟩
    rintro rfl
    rw [pow_zero] at hlt
    omega
  obtain ⟨rfl, rfl, rfl⟩ : w = 12 ∧ a = 0 ∧ b = 0 := by omega
  obtain ⟨prio', hfront⟩ := h hw
  obtain ⟨c, hc⟩ := frontBytes_twelve (le_antisymm hw (by omega)) prio'
  have hrest := append_cancel_left (hc.symm.trans hfront)
  exact facility_ne_space prio (cons.inj hrest).1.symm

/-- What is shown of a priority. -/
theorem prioBytes_of_front (h : countDigits 10 ts.toNat ≤ 11) {prio prio' : BitVec 32}
    (heq : frontBytes ts prio = frontBytes ts prio') : prioBytes prio = prioBytes prio' := by
  rw [frontBytes_eq h, frontBytes_eq h] at heq
  exact append_cancel_right (append_cancel_left (append_cancel_left heq))

lemma length_sendToLog (ts : UInt64) (prio : BitVec 32) (p e : ℕ) (m : Mem) :
    (sendToLog signed ts prio p e m).length = e - (p - TAGSPACE) := length_load ..

/-- **A line is cut short** if what stands behind the datagram ends the header. -/
theorem recvSyslog_short (ts : UInt64) (hd : d.length ≤ 512) (prio : BitVec 32) (hnum : Numbered d)
    (hend : afterNumber d = [] ∨ afterNumber d = [62]) :
    ∃ m, (recvSyslog signed ts d 0 m prio).length = 13 := by
  -- a bracket if there is none in the datagram, and a space otherwise
  set c : UInt8 := if afterNumber d = [] then 62 else 32 with hc
  refine ⟨store (fun _ => 0) (TAGSPACE + d.length) [c], ?_⟩
  set m1 := (store (fun _ => 0) (TAGSPACE + d.length) [c]).store TAGSPACE d with hm1
  have htake : d.take 512 = d := take_of_length_le hd
  have hholds : m1.Holds TAGSPACE d := holds_store _ _ _
  have hbehind : m1 (TAGSPACE + d.length) = c := by
    rw [hm1, store_of_not_mem (.inr le_rfl)]
    exact store_one ..
  have hmore : m1 (TAGSPACE + d.length + 1) = 0 := by
    rw [hm1, store_of_not_mem (by omega),
      store_of_not_mem (by rw [length_singleton]; omega)]
  obtain ⟨hafter, hlen⟩ := holds_afterNumber hholds hnum
  have hlate {q : ℕ} (hq : TAGSPACE + d.length ≤ q) :
      ¬(15 < ((TAGSPACE + d.length : ℕ) : ℤ) - q ∧ looksLikeTime m1 (q + 7) = true) := by
    rintro ⟨hlong, -⟩
    omega
  have hparse : (parseHeader (TAGSPACE + 512 + 1 + 0) TAGSPACE d.length prio m1).1 =
    TAGSPACE + d.length + 1 := by
    rw [parseHeader_numbered hholds (by omega) prio hnum]
    rcases hend with hnil | hone
    · rw [hnil] at hlen
      have hplace : TAGSPACE + 1 + (number d).length = TAGSPACE + d.length := hlen
      have h62 : c = 62 := if_pos hnil
      rw [hplace, hbehind, if_neg (not_not.mpr h62)]
      dsimp only
      rw [if_neg (hlate (Nat.le_succ _)), hmore]
      rfl
    · have hplace : TAGSPACE + 1 + (number d).length + 1 = TAGSPACE + d.length := by
        rw [hone] at hlen
        exact hlen
      have h62 : m1 (TAGSPACE + 1 + (number d).length) = 62 := by
        rw [hone] at hafter
        exact hafter 0 one_pos
      have h32 : c = 32 := if_neg (by rw [hone]; exact cons_ne_nil _ _)
      rw [h62, if_neg (not_not.mpr rfl)]
      dsimp only
      rw [hplace, if_neg (hlate le_rfl), hbehind, if_pos h32]
  rw [recvSyslog, htake]
  rw [← hm1]
  generalize parseHeader (TAGSPACE + 512 + 1 + 0) TAGSPACE d.length prio m1 = out at hparse ⊢
  obtain ⟨msg, prio', m'⟩ := out
  obtain rfl : msg = TAGSPACE + d.length + 1 := hparse
  have h14 : TAGSPACE = 14 := rfl
  dsimp only
  rw [length_sendToLog]
  omega

/-- Where no control character can be taken for what it is not. -/
theorem cleaned_eq_blanked_iff (l : List UInt8) :
    cleaned signed l = blanked l ↔ (signed = true → ∀ c ∈ l, c < 128) := by
  rw [cleaned, blanked, map_inj_left]
  constructor
  · intro h hsigned c hc
    by_contra hlarge
    have hsame := h c hc
    have hle : 128 ≤ c := UInt8.not_lt.mp hlarge
    have hnot : ¬c < 32 := by
      rw [UInt8.lt_iff_toNat_lt]
      rw [UInt8.le_iff_toNat_le] at hle
      have h128 : (128 : UInt8).toNat = 128 := rfl
      have h32 : (32 : UInt8).toNat = 32 := rfl
      omega
    rw [isControl, hsigned, decide_eq_true hle, Bool.and_self, Bool.or_true, if_pos rfl,
      if_neg hnot] at hsame
    rw [← hsame] at hle
    exact absurd hle (by decide)
  · intro h c hc
    cases signed with
    | false => simp [isControl]
    | true =>
      have hsmall : ¬128 ≤ c := UInt8.not_le.mpr (h rfl c hc)
      simp [isControl, hsmall]

/-- **Exactly when a line is determined by its datagram**, and is what it should be. -/
theorem determined_iff (signed : Bool) (ts : UInt64) (d : List UInt8) (hd : d.length ≤ 512) :
    Determined signed ts d ↔ Settled signed ts d := by
  constructor
  · rintro ⟨line, hline, tag, htag, rfl⟩
    -- with a zero behind it nothing else is taken for a part of the datagram
    have hzero (hts : countDigits 10 ts.toNat ≤ 12) (prio : BitVec 32) :
        frontBytes ts (prioOf prio d) = tag ∧ cleaned signed (text d) = blanked (text d) :=
      append_inj ((recvSyslog_eq signed hts hd 0 (fun _ => 0) prio (.inr rfl)).symm.trans
        (hline ..))
        ((length_frontBytes ts _).trans htag.1.symm)
    have htime := time_of_isTag htag fun hts => ⟨_, (hzero hts 0).1⟩
    have hts : countDigits 10 ts.toNat ≤ 11 := countDigits_le (by decide) (by norm_num; omega)
    have hnum : Numbered d := by
      by_contra hnum
      have hsame := prioBytes_of_front hts
        ((hzero (by omega) 0).1.trans (hzero (by omega) 1).1.symm)
      rw [prioOf, if_neg hnum, prioOf, if_neg hnum] at hsame
      exact absurd hsame (by decide)
    refine ⟨htime, ⟨hnum, ?_⟩, (cleaned_eq_blanked_iff signed _).mp (hzero (by omega) 0).2⟩
    rw [← not_or]
    intro hend
    obtain ⟨m, hshort⟩ := recvSyslog_short signed ts hd 0 hnum hend
    rw [hline, length_append, htag.1] at hshort
    have h14 : TAGSPACE = 14 := rfl
    omega
  · rintro ⟨htime, hwhole, hascii⟩
    have hts : countDigits 10 ts.toNat ≤ 12 := countDigits_le (by decide) (by norm_num; omega)
    refine ⟨_, fun above m prio => ?_, _, isTag_frontBytes htime (prioOf 0 d),
      congrArg _ ((cleaned_eq_blanked_iff signed _).mpr hascii)⟩
    have hprio : prioOf prio d = prioOf 0 d := by
      rw [prioOf, if_pos hwhole.1, prioOf, if_pos hwhole.1]
    rw [recvSyslog_eq signed hts hd above m prio (.inl hwhole), hprio]

/-- A message with a header, `<13>hi`. -/
theorem determined_header : Determined true 1503571442 [60, 49, 51, 62, 104, 105] :=
  (determined_iff true 1503571442 [60, 49, 51, 62, 104, 105] (by simp)).mpr
    ⟨by decide, ⟨⟨rfl, by decide⟩, by decide, by decide⟩, by decide +kernel⟩

/-- **A message with no header** is stored with a priority that is not its own. -/
theorem not_determined : ¬∀ (signed : Bool) (ts : UInt64) (d : List UInt8), d.length ≤ 512 →
    Determined signed ts d := by
  intro h
  obtain ⟨line, hline, -⟩ := h true 1503571442 [104, 105] (by decide)
  have hlow := hline 0 (fun _ => 0) 0
  have hhigh := hline 0 (fun _ => 0) 1
  have hts : countDigits 10 (UInt64.toNat 1503571442) ≤ 12 := countDigits_le (by decide) (by decide)
  rw [recvSyslog_eq true hts (by decide) 0 _ _ (.inr rfl)] at hlow hhigh
  have hlen (prio : BitVec 32) := length_frontBytes 1503571442 (prioOf prio [104, 105])
  have hsame := (append_inj (hlow.trans hhigh.symm) ((hlen 0).trans (hlen 1).symm)).1
  exact absurd (prioBytes_of_front (countDigits_le (by decide) (by decide)) hsame) (by decide)

end Minibase.Syslog
