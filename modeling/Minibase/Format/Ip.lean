import Minibase.Format.Digits

/-!
# Addresses with dots

`parseip.c` and `fmtip.c`. An address is four numerals with a dot between them
(`Format.Spells`), each of a value that fits into a byte. A number that is too large for an
`int` is reduced modulo `2 ^ 32` before it is compared with 255, so `parseip` takes too much
**exactly if there is a numeral that is reduced to a byte** (`Format.parseip_exact_iff`). What
`fmtip` writes is read as it was.
-/

namespace Minibase.Format

open List Option Function

/-! ### The code -/

/-- The loop of `parseip` with `k` turns left, the next one with the index `i`. What is stored
stays, also if there is an error after it. -/
def parseipLoop : (k i : ℕ) → List UInt8 → (ℕ → UInt8) → Option (List UInt8) × (ℕ → UInt8)
  | 0, _, p, ip => (some p, ip)
  | k + 1, i, p, ip =>
    if i ≠ 0 ∧ p.head? ≠ some 46 then (none, ip)
    else
      match parseint (if i ≠ 0 then p.tail else p) with
      | none => (none, ip)
      | some (n, p) =>
        if n < 0 ∨ n > 255 then (none, ip)
        else parseipLoop k (i + 1) p (update ip i (UInt8.ofNat n.toNat))

/-- `parseip`: what is left of the string, or `NULL`, and the bytes. -/
def parseip (p : List UInt8) (ip : ℕ → UInt8) : Option (List UInt8) × (ℕ → UInt8) :=
  parseipLoop 4 0 p ip

/-! ### What is meant -/

/-- A numeral: digits, and at least one. -/
def Numeral (a : List UInt8) : Prop := a ≠ [] ∧ ∀ c ∈ a, isDigit c = true

/-- No digit comes next. -/
def Ends (rest : List UInt8) : Prop := ∀ c ∈ rest.head?, isDigit c = false

/-- **A string that starts with an address**, as four numerals and what comes after them. -/
structure Spells (s : List UInt8) (ns : List (List UInt8)) (rest : List UInt8) : Prop where
  text : s = [46].intercalate ns ++ rest
  four : ns.length = 4
  numerals : ∀ a ∈ ns, Numeral a
  ends : Ends rest

/-- **A string on which `parseip` is right**: it is taken exactly if it starts with an address whose
numbers are bytes, up to the end of the last one, and these are what is stored. -/
def Exact (s : List UInt8) : Prop :=
  ∀ ip rest, ((parseip s ip).1 = some rest ↔ ∃ ns, Spells s ns rest ∧ ∀ a ∈ ns, decimal a ≤ 255) ∧
    ∀ ns, Spells s ns rest → (∀ a ∈ ns, decimal a ≤ 255) →
      (range 4).map (fun i => ((parseip s ip).2 i).toNat) = ns.map decimal

/-- The text of a byte. -/
def octet (b : UInt8) : List UInt8 := digits (countDigits 10 b.toNat) b.toNat

/-- The text of an address. -/
def dotted (ip0 ip1 ip2 ip3 : UInt8) : List UInt8 :=
  [46].intercalate [octet ip0, octet ip1, octet ip2, octet ip3]

/-- **A string with a number that is reduced to a byte**, and no other that is not a byte then. -/
def Wraps (s : List UInt8) : Prop :=
  ∃ ns rest, Spells s ns rest ∧ (∀ a ∈ ns, decimal a % 4294967296 ≤ 255) ∧ ∃ a ∈ ns, 255 < decimal a

/-! ### Numerals -/

section Numerals

variable {a rest p q : List UInt8} {ns : List (List UInt8)} {ip : ℕ → UInt8} {i k : ℕ}

lemma Numeral.takeWhile (h : Numeral a) (hr : Ends rest) : (a ++ rest).takeWhile isDigit = a := by
  rw [takeWhile_append_of_pos h.2]
  cases rest with
  | nil => exact append_nil a
  | cons c rest => rw [takeWhile_cons, hr c rfl, if_neg Bool.false_ne_true, append_nil]

lemma Numeral.dropWhile (h : Numeral a) (hr : Ends rest) :
    (a ++ rest).dropWhile isDigit = rest := by
  have happend := takeWhile_append_dropWhile (p := isDigit) (l := a ++ rest)
  rw [h.takeWhile hr] at happend
  exact append_cancel_left happend

lemma Numeral.decimal_append (h : Numeral a) (hr : Ends rest) :
    decimal (a ++ rest) = decimal a := by
  have hnil : (a ++ []).takeWhile isDigit = a := h.takeWhile fun c hc => by cases hc
  rw [append_nil] at hnil
  rw [decimal, decimal, h.takeWhile hr, hnil]

lemma Numeral.append_inj {b : List UInt8} (ha : Numeral a) (hb : Numeral b) (hp : Ends p)
    (hq : Ends q)
    (h : a ++ p = b ++ q) : a = b ∧ p = q := by
  have htake := congrArg (List.takeWhile isDigit) h
  have hdrop := congrArg (List.dropWhile isDigit) h
  rw [ha.takeWhile hp, hb.takeWhile hq] at htake
  rw [ha.dropWhile hp, hb.dropWhile hq] at hdrop
  exact ⟨htake, hdrop⟩

/-- `parseint` reads the numeral. -/
theorem Numeral.parseint (h : Numeral a) (hr : Ends rest) :
    parseint (a ++ rest) = some (i32 (decimal a), rest) := by
  rw [parseint_eq, h.takeWhile hr, if_neg h.1, h.decimal_append hr, h.dropWhile hr]

/-- What `parseint` reads is a numeral. -/
theorem exists_numeral {n : ℤ} (h : Minibase.parseint p = some (n, q)) :
    ∃ a, Numeral a ∧ Ends q ∧ p = a ++ q ∧ n = i32 (decimal a) := by
  rw [parseint_eq] at h
  split at h
  case isTrue => cases h
  case isFalse hne =>
    obtain ⟨rfl, rfl⟩ := Prod.mk.inj (Option.some.inj h)
    have hnum : Numeral (p.takeWhile isDigit) := ⟨hne, fun c hc => mem_takeWhile_imp hc⟩
    have hends : Ends (p.dropWhile isDigit) := by
      intro c hc
      have hnot := head?_dropWhile_not isDigit p
      rw [mem_def.mp hc] at hnot
      exact hnot
    refine ⟨_, hnum, hends, takeWhile_append_dropWhile.symm, ?_⟩
    have hdec := hnum.decimal_append hends
    rw [takeWhile_append_dropWhile] at hdec
    rw [hdec]

/-- The test of `parseip` is about the number as it is reduced. -/
theorem i32_byte (n : ℕ) : ¬(i32 n < 0 ∨ i32 n > 255) ↔ n % 4294967296 ≤ 255 := by
  unfold i32
  omega

lemma toNat_i32_byte {n : ℕ} (h : n % 4294967296 ≤ 255) : (i32 n).toNat = n % 4294967296 := by
  unfold i32
  omega

/-! ### The loop -/

/-- Numerals with a dot before each one, except where the string starts. -/
def spell : ℕ → List (List UInt8) → List UInt8
  | _, [] => []
  | i, a :: ns => (if i = 0 then a else 46 :: a) ++ spell (i + 1) ns

lemma spell_succ (i : ℕ) (ns : List (List UInt8)) : spell (i + 1) ns = ns.flatMap (46 :: ·) := by
  induction ns generalizing i with
  | nil => rfl
  | cons a ns ih => rw [spell, if_neg (Nat.succ_ne_zero i), ih, flatMap_cons]

lemma spell_zero (ns : List (List UInt8)) : spell 0 ns = [46].intercalate ns := by
  cases ns with
  | nil => rfl
  | cons a ns =>
    rw [spell, if_pos rfl, spell_succ]
    induction ns generalizing a with
    | nil => rfl
    | cons b ns ih => rw [flatMap_cons, intercalate_cons_cons, ← ih, append_assoc, singleton_append,
      cons_append]

/-- What comes after a numeral does not go on with a digit. -/
theorem ends_spell (hq : Ends q) : Ends (spell (i + 1) ns ++ q) := by
  cases ns with
  | nil => exact hq
  | cons a ns =>
    rw [spell_succ]
    intro c hc
    obtain rfl : (46 : UInt8) = c := Option.some.inj hc
    rfl

lemma spell_inj {ns' : List (List UInt8)} (hlen : ns.length = ns'.length)
    (hns : ∀ a ∈ ns, Numeral a)
    (hns' : ∀ a ∈ ns', Numeral a) (hp : Ends p) (hq : Ends q)
    (h : spell i ns ++ p = spell i ns' ++ q) : ns = ns' ∧ p = q := by
  induction ns generalizing i ns' with
  | nil =>
    obtain rfl := length_eq_zero_iff.mp hlen.symm
    exact ⟨rfl, h⟩
  | cons a ns ih =>
    obtain ⟨b, ns', rfl⟩ := exists_cons_of_length_eq_add_one hlen.symm
    rw [forall_mem_cons] at hns hns'
    have htext : a ++ (spell (i + 1) ns ++ p) = b ++ (spell (i + 1) ns' ++ q) := by
      rw [spell, spell, append_assoc, append_assoc] at h
      by_cases h0 : i = 0
      · rwa [if_pos h0, if_pos h0] at h
      · rw [if_neg h0, if_neg h0] at h
        exact tail_eq_of_cons_eq h
    obtain ⟨rfl, hrest⟩ := hns.1.append_inj hns'.1 (ends_spell hp) (ends_spell hq) htext
    obtain ⟨rfl, rfl⟩ := ih (Nat.succ.inj hlen) hns.2 hns'.2 hrest
    exact ⟨rfl, rfl⟩

lemma parseipLoop_cons (h : Numeral a) (hr : Ends rest) :
    parseipLoop (k + 1) i ((if i = 0 then a else 46 :: a) ++ rest) ip =
      if decimal a % 4294967296 ≤ 255 then
        parseipLoop k (i + 1) rest (update ip i (UInt8.ofNat (decimal a % 4294967296)))
      else (none, ip) := by
  have hhead : ¬(i ≠ 0 ∧ ((if i = 0 then a else 46 :: a) ++ rest).head? ≠ some 46) := by
    rintro ⟨h0, hne⟩
    rw [if_neg h0] at hne
    exact hne rfl
  have htail : (if i ≠ 0 then ((if i = 0 then a else 46 :: a) ++ rest).tail
      else (if i = 0 then a else 46 :: a) ++ rest) = a ++ rest := by
    by_cases h0 : i = 0
    · rw [if_neg (not_not.mpr h0), if_pos h0]
    · rw [if_pos h0, if_neg h0]
      rfl
  rw [parseipLoop, if_neg hhead, htail, h.parseint hr]
  dsimp only
  by_cases hbyte : decimal a % 4294967296 ≤ 255
  · rw [if_pos hbyte, if_neg ((i32_byte _).mpr hbyte), toNat_i32_byte hbyte]
  · rw [if_neg hbyte, if_pos (not_not.mp fun hn => hbyte ((i32_byte _).mp hn))]

/-- **What is taken are numerals** which are reduced to bytes. -/
theorem spell_of_parseipLoop (hp : k = 0 → Ends p) (h : (parseipLoop k i p ip).1 = some q) :
    ∃ ns, p = spell i ns ++ q ∧ ns.length = k ∧ (∀ a ∈ ns, Numeral a) ∧ Ends q ∧
      ∀ a ∈ ns, decimal a % 4294967296 ≤ 255 := by
  induction k generalizing i p ip with
  | zero =>
    obtain rfl : p = q := Option.some.inj h
    exact ⟨[], rfl, rfl, forall_mem_nil _, hp rfl, forall_mem_nil _⟩
  | succ k ih =>
    rw [parseipLoop] at h
    split at h
    case isTrue => cases h
    case isFalse hdot =>
      split at h
      case h_1 => cases h
      case h_2 n r hint =>
        obtain ⟨a, hnum, hends, htext, hn⟩ := exists_numeral hint
        split at h
        case isTrue => cases h
        case isFalse hbyte =>
          obtain ⟨ns, rfl, hlen, hnums, hq, hbytes⟩ := ih (fun _ => hends) h
          refine ⟨a :: ns, ?_, by rw [length_cons, hlen], ?_, hq, ?_⟩
          · by_cases h0 : i = 0
            · rw [if_neg (not_not.mpr h0)] at htext
              rw [htext, spell, if_pos h0, append_assoc]
            · obtain ⟨p, rfl⟩ : ∃ p', p = 46 :: p' := by
                have hhead : p.head? = some 46 := not_not.mp fun hne => hdot ⟨h0, hne⟩
                exact ⟨p.tail, (cons_head?_tail hhead).symm⟩
              rw [if_pos h0, tail_cons] at htext
              rw [htext, spell, if_neg h0, cons_append, cons_append, append_assoc]
          · exact forall_mem_cons.mpr ⟨hnum, hnums⟩
          · rw [hn] at hbyte
            exact forall_mem_cons.mpr ⟨(i32_byte _).mp hbyte, hbytes⟩

/-- **Numerals which are reduced to bytes are taken**, and stored as that. -/
theorem parseipLoop_spell (hnums : ∀ a ∈ ns, Numeral a) (hq : Ends q)
    (hbytes : ∀ a ∈ ns, decimal a % 4294967296 ≤ 255) :
    (parseipLoop ns.length i (spell i ns ++ q) ip).1 = some q ∧
      ∀ j, (parseipLoop ns.length i (spell i ns ++ q) ip).2 j =
        if i ≤ j then ((ns.map fun a => UInt8.ofNat (decimal a % 4294967296))[j - i]?).getD (ip j)
        else ip j := by
  induction ns generalizing i ip with
  | nil =>
    refine ⟨rfl, fun j => ?_⟩
    rw [map_nil, getElem?_nil, getD_none, ite_self]
    rfl
  | cons a ns ih =>
    obtain ⟨hnum, hnums⟩ := forall_mem_cons.mp hnums
    obtain ⟨hbyte, hbytes⟩ := forall_mem_cons.mp hbytes
    rw [length_cons, spell, append_assoc, parseipLoop_cons hnum (ends_spell hq), if_pos hbyte]
    refine ⟨(ih hnums hbytes).1, fun j => ?_⟩
    rw [(ih hnums hbytes).2]
    rcases Nat.lt_trichotomy i j with hlt | rfl | hgt
    · obtain ⟨d, rfl⟩ := Nat.exists_eq_add_of_lt hlt
      have hd : i + d + 1 - i = d + 1 := by omega
      have hd' : i + d + 1 - (i + 1) = d := by omega
      rw [if_pos (by omega), if_pos (by omega), hd, hd', map_cons, getElem?_cons_succ,
        update_of_ne (by omega)]
    · rw [if_neg (by omega), if_pos le_rfl, Nat.sub_self, map_cons, getElem?_cons_zero,
        getD_some, update_self]
    · rw [if_neg (by omega), if_neg (by omega), update_of_ne (by omega)]

end Numerals

/-! ### The result -/

section Result

variable {s rest : List UInt8} {ns : List (List UInt8)} {ip : ℕ → UInt8}

/-- What is taken, as the numbers are reduced. -/
theorem parseip_eq_some : (parseip s ip).1 = some rest ↔
    ∃ ns, Spells s ns rest ∧ ∀ a ∈ ns, decimal a % 4294967296 ≤ 255 := by
  constructor
  · intro h
    obtain ⟨ns, htext, hlen, hnums, hends, hbytes⟩ := spell_of_parseipLoop (fun h4 => by cases h4) h
    rw [spell_zero] at htext
    exact ⟨ns, ⟨htext, hlen, hnums, hends⟩, hbytes⟩
  · rintro ⟨ns, hs, hbytes⟩
    have hout : (parseipLoop ns.length 0 (spell 0 ns ++ rest) ip).1 = some rest :=
      (parseipLoop_spell hs.numerals hs.ends hbytes).1
    rwa [spell_zero, ← hs.text, hs.four] at hout

/-- What is stored then. -/
theorem parseip_stored (hs : Spells s ns rest) (hbytes : ∀ a ∈ ns, decimal a % 4294967296 ≤ 255) :
    (List.range 4).map (parseip s ip).2 = ns.map fun a => UInt8.ofNat (decimal a % 4294967296) := by
  have hout : ∀ j, (parseipLoop ns.length 0 (spell 0 ns ++ rest) ip).2 j =
      if 0 ≤ j then ((ns.map fun a => UInt8.ofNat (decimal a % 4294967296))[j - 0]?).getD (ip j)
      else ip j := (parseipLoop_spell hs.numerals hs.ends hbytes).2
  rw [spell_zero, ← hs.text, hs.four] at hout
  refine ext_getElem ?_ fun j hj hj' => ?_
  · rw [length_map, length_range, length_map, hs.four]
  · rw [getElem_map, getElem_range, parseip, hout j, if_pos (Nat.zero_le j), Nat.sub_zero,
      getElem?_eq_getElem hj', getD_some]

/-- There is one way to read an address. -/
theorem Spells.unique {ns' : List (List UInt8)} {rest' : List UInt8} (h : Spells s ns rest)
    (h' : Spells s ns' rest') : ns = ns' ∧ rest = rest' := by
  have htext := h.text.symm.trans h'.text
  rw [← spell_zero, ← spell_zero] at htext
  exact spell_inj (h.four.trans h'.four.symm) h.numerals h'.numerals h.ends h'.ends htext

/-- **When `parseip` is right.** -/
theorem exact_iff (s : List UInt8) : Exact s ↔ ¬Wraps s := by
  constructor
  · rintro hexact ⟨ns, rest, hs, hbytes, a, ha, hbig⟩
    obtain ⟨ns', hs', hsmall⟩ :=
      ((hexact (fun _ => 0) rest).1).mp (parseip_eq_some.mpr ⟨ns, hs, hbytes⟩)
    obtain ⟨rfl, -⟩ := hs.unique hs'
    exact absurd (hsmall a ha) (Nat.not_le.mpr hbig)
  · intro hwraps ip rest
    have hmod : ∀ ns : List (List UInt8), (∀ a ∈ ns, decimal a ≤ 255) →
        ∀ a ∈ ns, decimal a % 4294967296 = decimal a :=
      fun ns hsmall a ha => Nat.mod_eq_of_lt (Nat.lt_of_le_of_lt (hsmall a ha) (by decide))
    refine ⟨parseip_eq_some.trans (exists_congr fun ns => and_congr_right fun hs => ?_),
      fun ns hs hsmall => ?_⟩
    · constructor
      · intro hbytes a ha
        by_contra hbig
        exact hwraps ⟨ns, rest, hs, hbytes, a, ha, Nat.not_le.mp hbig⟩
      · intro hsmall a ha
        exact (hmod ns hsmall a ha).trans_le (hsmall a ha)
    · have hbytes : ∀ a ∈ ns, decimal a % 4294967296 ≤ 255 := fun a ha =>
        (hmod ns hsmall a ha).trans_le (hsmall a ha)
      have hstored : (List.range 4).map (parseip s ip).2 =
          ns.map fun a => UInt8.ofNat (decimal a % 4294967296) := parseip_stored hs hbytes
      have htoNat := congrArg (List.map UInt8.toNat) hstored
      rw [List.map_map, List.map_map] at htoNat
      refine htoNat.trans (map_congr_left fun a ha => ?_)
      have hsmall' := hsmall a ha
      rw [comp_apply, hmod ns hsmall a ha, UInt8.toNat_ofNat']
      exact Nat.mod_eq_of_lt (by omega)

end Result

/-! ### Written and read -/

section Written

variable {p e : ℕ} {o : Out} {bs cs : List UInt8} {r r' : ℕ × Out}

/-- A text is written at a position, and nothing else. -/
def Puts (o : Out) (p : ℕ) (bs : List UInt8) (r : ℕ × Out) : Prop :=
  r.1 = p + bs.length ∧ r.2.mem = o.mem.store p bs

lemma Puts.append (h : Puts o p bs r) (h' : Puts r.2 r.1 cs r') : Puts o p (bs ++ cs) r' := by
  refine ⟨?_, ?_⟩
  · rw [h'.1, h.1, length_append, add_assoc]
  · rw [h'.2, h.1, h.2, Mem.store_append]

variable (b : UInt8)

lemma length_octet : (octet b).length = countDigits 10 b.toNat := length_digits _ _

lemma puts_fmtoctet (h : p + (octet b).length ≤ e) : Puts o p (octet b) (fmtoctet p e b o) := by
  have hb := b.toNat_lt
  have hint : (Int32.ofNat b.toNat).toInt = b.toNat := Int32.toInt_ofNat_of_lt (by omega)
  have hpos : ¬Int32.ofNat b.toNat < 0 := by
    rw [Int32.lt_iff_toInt_lt, Int32.toInt_zero, hint]
    omega
  have hnat : (Int32.ofNat b.toNat).toInt64.toUInt64.toNat = b.toNat := by
    have h64 : (Int32.ofNat b.toNat).toInt64.toUInt64.toBitVec.toInt = b.toNat :=
      (Int32.toInt_toInt64 _).trans hint
    rw [BitVec.toInt_eq_toNat_cond] at h64
    change (Int32.ofNat b.toNat).toInt64.toUInt64.toBitVec.toNat = b.toNat
    split at h64 <;> omega
  obtain ⟨h1, h2⟩ := mem_fmtu64 (p := p) (e := e) (Int32.ofNat b.toNat).toInt64.toUInt64 o
    (by rwa [hnat, ← length_octet])
  rw [fmtoctet, fmtint, if_neg hpos, decide_eq_false hpos]
  rw [hnat] at h1 h2
  exact ⟨h1.trans (by rw [length_octet]), h2⟩

lemma puts_fmtchar (c : UInt8) (h : p + 1 ≤ e) : Puts o p [c] (fmtchar p e c o) := by
  rw [fmtchar, if_pos (Nat.lt_of_succ_le h)]
  exact ⟨rfl, rfl⟩

/-- An address is written. -/
theorem puts_fmtip (ip0 ip1 ip2 ip3 : UInt8) (h : p + (dotted ip0 ip1 ip2 ip3).length ≤ e) :
    Puts o p (dotted ip0 ip1 ip2 ip3) (fmtip p e ip0 ip1 ip2 ip3 o) := by
  have htext : dotted ip0 ip1 ip2 ip3 =
      octet ip0 ++ [46] ++ octet ip1 ++ [46] ++ octet ip2 ++ [46] ++ octet ip3 := by
    simp only [dotted, intercalate_cons_cons, intercalate_singleton, append_assoc]
  have hlen := congrArg length htext
  simp only [length_append, length_singleton] at hlen
  rw [htext]
  have w1 := puts_fmtoctet (p := p) (e := e) (o := o) ip0 (by omega)
  have w2 := w1.append (puts_fmtchar (e := e) 46 (by rw [w1.1]; omega))
  have w3 := w2.append (puts_fmtoctet (e := e) ip1
    (by rw [w2.1]; simp only [length_append, length_singleton]; omega))
  have w4 := w3.append (puts_fmtchar (e := e) 46
    (by rw [w3.1]; simp only [length_append, length_singleton]; omega))
  have w5 := w4.append (puts_fmtoctet (e := e) ip2
    (by rw [w4.1]; simp only [length_append, length_singleton]; omega))
  have w6 := w5.append (puts_fmtchar (e := e) 46
    (by rw [w5.1]; simp only [length_append, length_singleton]; omega))
  exact w6.append (puts_fmtoctet (e := e) ip3
    (by rw [w6.1]; simp only [length_append, length_singleton]; omega))

lemma foldl_digits_nat (k : ℕ) {n : ℕ} (h : n < 10 ^ k) :
    (digits k n).foldl (fun v c => v * 10 + (c.toNat - 48)) 0 = n := by
  induction k generalizing n with
  | zero => exact (Nat.lt_one_iff.mp h).symm
  | succ k ih =>
    have hdiv : n / 10 < 10 ^ k := by
      rw [Nat.pow_succ] at h
      exact Nat.div_lt_of_lt_mul (by omega)
    rw [digits, foldl_append, ih hdiv, foldl_cons, foldl_nil,
      toNat_decDigit (Nat.mod_lt _ (by decide)), Nat.add_sub_cancel_left]
    omega

lemma numeral_digits {k : ℕ} (h : 0 < k) (n : ℕ) : Numeral (digits k n) :=
  ⟨length_pos_iff.mp (by rwa [length_digits]), fun _ => isDigit_of_mem_digits⟩

lemma decimal_digits {k n : ℕ} (h : n < 10 ^ k) : decimal (digits k n) = n := by
  have hall : (digits k n).takeWhile isDigit = digits k n :=
    takeWhile_eq_self_iff.mpr fun _ => isDigit_of_mem_digits
  rw [decimal, hall]
  exact foldl_digits_nat k h

lemma numeral_octet : Numeral (octet b) := numeral_digits (countDigits_pos 10 _) _

lemma decimal_octet : decimal (octet b) = b.toNat :=
  decimal_digits ((countDigits_le_iff 10 (by decide) _ _).mp le_rfl).2

lemma spells_dotted (ip0 ip1 ip2 ip3 : UInt8) :
    Spells (dotted ip0 ip1 ip2 ip3) [octet ip0, octet ip1, octet ip2, octet ip3] [] := by
  refine ⟨(append_nil _).symm, rfl, ?_, fun c hc => by cases hc⟩
  simp only [forall_mem_cons]
  exact ⟨numeral_octet ip0, numeral_octet ip1, numeral_octet ip2, numeral_octet ip3,
    forall_mem_nil _⟩

/-- **An address is read as it was written**, wherever there is room for it. -/
def Restored (ip0 ip1 ip2 ip3 : UInt8) : Prop :=
  ∀ p e o ip, p + (dotted ip0 ip1 ip2 ip3).length ≤ e →
    ∃ q o' ip', fmtip p e ip0 ip1 ip2 ip3 o = (q, o') ∧
      parseip (o'.mem.load p (q - p)) ip = (some [], ip') ∧
      (range 4).map ip' = [ip0, ip1, ip2, ip3]

lemma restored (ip0 ip1 ip2 ip3 : UInt8) : Restored ip0 ip1 ip2 ip3 := by
  intro p e o ip h
  obtain ⟨hq, hmem⟩ := puts_fmtip (o := o) ip0 ip1 ip2 ip3 h
  rcases hr : fmtip p e ip0 ip1 ip2 ip3 o with ⟨q, o'⟩
  replace hq : q = _ := hr ▸ hq
  replace hmem : o'.mem = _ := hr ▸ hmem
  have hload : o'.mem.load p (q - p) = dotted ip0 ip1 ip2 ip3 := by
    rw [hq, hmem, Nat.add_sub_cancel_left]
    exact Mem.holds_iff_load.mp (Mem.holds_store _ _ _)
  have hspells := spells_dotted ip0 ip1 ip2 ip3
  have hmod (b : UInt8) : decimal (octet b) % 4294967296 = b.toNat := by
    have hb := b.toNat_lt
    rw [decimal_octet]
    omega
  have hbytes : ∀ a ∈ [octet ip0, octet ip1, octet ip2, octet ip3],
    decimal a % 4294967296 ≤ 255 := by
    have hle (b : UInt8) : decimal (octet b) % 4294967296 ≤ 255 := by
      have hb := b.toNat_lt
      rw [hmod]
      omega
    simp only [forall_mem_cons]
    exact ⟨hle ip0, hle ip1, hle ip2, hle ip3, forall_mem_nil _⟩
  have htaken : (parseip (dotted ip0 ip1 ip2 ip3) ip).1 = some [] :=
    parseip_eq_some.mpr ⟨_, hspells, hbytes⟩
  refine ⟨q, o', (parseip (dotted ip0 ip1 ip2 ip3) ip).2, rfl, ?_, ?_⟩
  · rw [hload, ← htaken]
  · rw [parseip_stored hspells hbytes]
    simp only [map_cons, map_nil, hmod, UInt8.ofNat_toNat]

/-- **`parseip` takes exactly the addresses, unless a number is reduced to a byte**; and it restores
every address. -/
theorem parseip_exact_iff (s : List UInt8) (ip0 ip1 ip2 ip3 : UInt8) :
    (Exact s ↔ ¬Wraps s) ∧ Restored ip0 ip1 ip2 ip3 :=
  ⟨exact_iff s, restored ip0 ip1 ip2 ip3⟩

/-- `4294967296.0.0.0` is taken for an address. -/
theorem not_exact : ¬Exact [52, 50, 57, 52, 57, 54, 55, 50, 57, 54, 46, 48, 46, 48, 46, 48] := by
  rw [exact_iff, not_not]
  refine ⟨[[52, 50, 57, 52, 57, 54, 55, 50, 57, 54], [48], [48], [48]], [], ⟨rfl, rfl, ?_, ?_⟩, ?_,
    ?_⟩
  · simp only [Numeral, forall_mem_cons, not_mem_nil, false_imp_iff, implies_true, and_true]
    decide
  · intro c hc
    cases hc
  · decide
  · decide

/-- The digits there is no room for are not written. -/
theorem mem_putDigits_cut (j i num : ℕ) :
    (putDigits (p + j) 10 decDigit p (j + i) num o).mem =
    o.mem.store p (digits j (num / 10 ^ i)) := by
  induction i generalizing num with
  | zero =>
    rw [Nat.pow_zero, Nat.div_one]
    exact mem_putDigits j num o le_rfl
  | succ i ih =>
    rw [← add_assoc, putDigits, if_neg (by omega), ih, Nat.div_div_eq_div_mul, Nat.pow_succ']

/-- **A number is read as it was written**, less the digits there is no room for, and modulo
`2 ^ 32`. -/
theorem parseint_fmtu64 {rest : List UInt8} (num : UInt64) (hp : p < e) (hr : Ends rest) :
    parseint ((fmtu64 p e num o).2.mem.load p ((fmtu64 p e num o).1 - p) ++ rest) =
      some (i32 (num.toNat / 10 ^ (p + countDigits 10 num.toNat - e) : ℕ), rest) := by
  have hpos := countDigits_pos 10 num.toNat
  have hk := ((countDigits_le_iff 10 (by decide) num.toNat _).mp le_rfl).2
  rw [fmtu64, fmtint64]
  simp only [Bool.false_eq_true, if_false, Nat.add_zero]
  generalize countDigits 10 num.toNat = k at *
  obtain ⟨j, hj, hq, hlt, hmem⟩ : ∃ j, 0 < j ∧ (if p + k > e then e else p + k) = p + j ∧
      num.toNat / 10 ^ (p + k - e) < 10 ^ j ∧ (putDigits e 10 decDigit p k num.toNat o).mem =
        o.mem.store p (digits j (num.toNat / 10 ^ (p + k - e))) := by
    rcases Nat.lt_or_ge e (p + k) with h | h
    · obtain ⟨j, rfl⟩ := Nat.le.dest hp.le
      obtain ⟨i, rfl⟩ := Nat.le.dest (Nat.lt_of_add_lt_add_left h).le
      rw [← Nat.add_assoc, Nat.add_sub_cancel_left]
      exact ⟨j, by omega, if_pos (by omega),
        Nat.div_lt_of_lt_mul (by rwa [← Nat.pow_add, Nat.add_comm]), mem_putDigits_cut j i _⟩
    · rw [Nat.sub_eq_zero_of_le h, Nat.pow_zero, Nat.div_one]
      exact ⟨k, hpos, if_neg (Nat.not_lt.mpr h), hk, mem_putDigits k _ o h⟩
  have hload := Mem.holds_iff_load.mp
    (Mem.holds_store o.mem p (digits j (num.toNat / 10 ^ (p + k - e))))
  rw [length_digits] at hload
  rw [hq, hmem, Nat.add_sub_cancel_left, hload, (numeral_digits hj _).parseint hr,
    decimal_digits hlt]

/-- Of 42, what fits into one byte is read as 4. -/
theorem parseint_fmtu64_cut :
    parseint ((fmtu64 0 1 42 ⟨fun _ => 0, []⟩).2.mem.load 0
      ((fmtu64 0 1 42 ⟨fun _ => 0, []⟩).1 - 0) ++
      [46]) = some (4, [46]) := by
  have hlen : countDigits 10 (UInt64.toNat 42) = 2 := by simp [countDigits]
  rw [parseint_fmtu64 42 (by decide) (by rintro c ⟨⟩; rfl), hlen]
  decide

end Written

end Minibase.Format
