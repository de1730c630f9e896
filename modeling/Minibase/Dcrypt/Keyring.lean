import Minibase.Dcrypt.Dektool
import Minibase.Dcrypt.Entry

/-!
# Four tools, one keyring

`dektool dump` shows the keys of a keyfile, `deitool` takes one, `dmcrypt` one for each device
and `passblk`, which has an implementation of its own, one for each partition. All of them
count the keys from one, and the key with a number is the same everywhere (`Dcrypt.Opens`,
`Dcrypt.Wrapped.opens`). Only `passblk` does not take more than sixteen keys, nor a passphrase
with bytes that it does not let through (`Dcrypt.Printable`).
-/

namespace Minibase.Dcrypt

open List Option Function World Bytes

/-! ### What the source computes -/

def maybeShiftInt (dflt : ℤ) : Option (List UInt8) → Except Stop ℤ
  | none => .ok dflt
  | some arg =>
    match parseint arg with
    | none => .error .fail
    | some out =>
      if out.2 ≠ [] then .error .fail else .ok out.1

/-- The key `deitool` uses. -/
def deitoolKey (scrypt : Scrypt) (f : List UInt8) (kidx : Option (List UInt8))
    (phrase : List UInt8) : Except Stop (List UInt8) := do
  let idx ← maybeShiftInt 1 kidx
  let kf ← loadKeyfile scrypt f phrase
  getKeyByIdx kf.buf idx

/-- A number and a colon at the front of an argument, and what follows. -/
def splitIndex (arg : List UInt8) : Option (ℤ × List UInt8) :=
  (parseint arg).bind fun out => if out.2.head? = some 58 then some (out.1, out.2.tail) else none

/-- What is asked of the device mapper: a name, what it is made from, and its key. -/
structure Device where
  name : List UInt8
  base : List UInt8
  key : List UInt8

/-- The rest of an argument of `dmcrypt`, in two at a colon. -/
def deviceOf (arg key : List UInt8) : Device :=
  let name := arg.takeWhile (· ≠ 58)
  ⟨name, if (arg.dropWhile (· ≠ 58)).head? = some 58 then (arg.dropWhile (· ≠ 58)).tail else name,
    key⟩

/-- `prepare_device` for each argument, with the number of the last key. -/
def prepareDevices (buf : List UInt8) : List (List UInt8) → ℤ → Except Stop (List Device)
  | [], _ => .ok []
  | arg :: reqs, ki => do
    let spec := (splitIndex arg).getD (ki, arg)
    let key ← getKeyByIdx buf spec.1
    let devs ← prepareDevices buf reqs spec.1
    .ok (deviceOf spec.2 key :: devs)

/-- The devices `dmcrypt` sets up. -/
def dmcrypt (scrypt : Scrypt) (f : List UInt8) (reqs : List (List UInt8)) (phrase : List UInt8) :
    Except Stop (List Device) := do
  let kf ← loadKeyfile scrypt f phrase
  prepareDevices kf.buf reqs 1

/-- `struct part`, as the arguments fill it in. -/
structure Part where
  keyidx : ℤ
  label : List UInt8
  deriving DecidableEq

/-- `parse_part_labels`, with `ki` and `n`. -/
def parsePartLabels : List (List UInt8) → ℤ → ℕ → Except Stop (List Part)
  | [], _, _ => .ok []
  | arg :: args, ki, n =>
    if arg = [45] then parsePartLabels args (ki + 1) n
    else do
      refuse (((splitIndex arg).any fun spec => spec.1 ≤ 0) = true) .fail
      let part := ((splitIndex arg).map fun spec => ⟨spec.1 - 1, spec.2⟩).getD ⟨ki, arg⟩
      refuse (16 < part.keyidx) .fail
      refuse (16 < n) .fail
      let parts ← parsePartLabels args part.keyidx (n + 1)
      .ok (part :: parts)

def loadKeyData (f : List UInt8) : Except Stop (List UInt8) := do
  refuse (528 < f.length) .fail
  refuse (f.length < 16) .fail
  refuse ((f.length - 16) % 32 ≠ 0) .fail
  .ok f

/-- `validate_parts`. A seventeenth partition lies over `nkeys` and what follows it. -/
def validateParts (parts : List Part) (nkeys : ℕ) : Except Stop Unit :=
  let seen := parts.take 16 ++ (parts.drop 16).map fun part => ⟨nkeys, part.label⟩
  refuse (∃ part ∈ seen, (nkeys : ℤ) ≤ part.keyidx) .fail

/-- What `passblk` hands to the kernel: for each label, a key. -/
def passblk (scrypt : Scrypt) (f : List UInt8) (args : List (List UInt8))
    (typed : List Typed) : Except Stop (List (List UInt8 × List UInt8)) := do
  refuse (args = []) .fail
  let parts ← parsePartLabels args 0 0
  let copy ← loadKeyData f
  validateParts parts ((copy.length - 16) / 32)
  -- it waits for more until it is ended
  refuse ((entered scrypt copy typed).opened = false) .fail
  .ok (parts.map fun part =>
    (part.label, pread (entered scrypt copy typed).data 32 (16 + 32 * part.keyidx).toNat))

/-! ### What is meant -/

/-- A number written out. -/
structure Numeral (arg : List UInt8) (i : ℕ) : Prop where
  digits : arg.takeWhile isDigit = arg
  given : arg ≠ []
  value : decimal arg = i

/-- An argument with the number of a key, or without. -/
def indexed (arg : List UInt8) (k : ℕ) : ℕ × List UInt8 :=
  if arg.takeWhile isDigit ≠ [] ∧ (arg.dropWhile isDigit).head? = some 58 then
    (decimal arg, (arg.dropWhile isDigit).tail)
  else (k, arg)

/-- **The numbers of the keys**, each argument without one being about the key of the one before,
or the next where a dash may stand between them. -/
def numbered (dash : Bool) : List (List UInt8) → ℕ → List (ℕ × List UInt8)
  | [], _ => []
  | arg :: args, k =>
    if dash = true ∧ arg = [45] then numbered dash args (k + 1)
    else indexed arg k :: numbered dash args (indexed arg k).1

/-- **Every tool finds the keys of a ring in a file.** -/
structure Opens (scrypt : Scrypt) (ring : Ring) (f : List UInt8) : Prop where
  dump : ∀ input, ask input 80 = .ok ring.phrase → dump scrypt f none input = .ok ring.keys
  dumpKey : ∀ input, ask input 80 = .ok ring.phrase → ∀ arg i, Numeral arg i → i < 67108864 →
    Dcrypt.dump scrypt f (some arg) input = (ring.lookup i).map fun key => [key]
  deitool : ∀ input, ask input 80 = .ok ring.phrase → ∀ arg i, Numeral arg i → i < 67108864 →
    deitoolKey scrypt f (some arg) input = ring.lookup i
  deitoolFirst : ∀ input, ask input 80 = .ok ring.phrase →
    deitoolKey scrypt f none input = ring.lookup 1
  dmcrypt : ∀ input, ask input 80 = .ok ring.phrase → ∀ reqs : List (List UInt8),
    (∀ arg ∈ reqs, decimal arg < 67108864) →
      dmcrypt scrypt f reqs input = (numbered false reqs 1).mapM fun spec =>
        (ring.lookup spec.1).map (deviceOf spec.2)
  passblk : ring.keys.length ≤ 16 → (∀ c ∈ ring.phrase, Printable c) →
    ∀ args : List (List UInt8), args ≠ [] → (∀ arg ∈ args, decimal arg < 2147483648) →
      (numbered true args 1).length ≤ 16 →
        ∀ before typed : List Typed, (entered scrypt f before).Ready →
          typed.flatMap Typed.bytes = ring.phrase ++ [0x0D] →
            passblk scrypt f args (before ++ typed) = (numbered true args 1).mapM fun spec =>
              (ring.lookup spec.1).map fun key => (spec.2, key)
  passblkFull : 16 < ring.keys.length → ∀ args typed,
    Dcrypt.passblk scrypt f args typed = .error .fail

/-! ### Numbers -/

section

variable {scrypt : Scrypt} {ring : Ring} {salt f : List UInt8} {arg : List UInt8}

lemma Numeral.parseint {i : ℕ} (h : Numeral arg i) : parseint arg = some (i32 i, []) := by
  have hdrop : arg.dropWhile isDigit = [] := by
    have happend := takeWhile_append_dropWhile (p := isDigit) (l := arg)
    rw [h.digits] at happend
    exact append_right_eq_self.mp happend
  rw [parseint_eq, if_neg (h.digits.symm ▸ h.given), h.value, hdrop]

lemma splitIndex_eq (arg : List UInt8) :
    splitIndex arg =
      if arg.takeWhile isDigit ≠ [] ∧ (arg.dropWhile isDigit).head? = some 58 then
        some (i32 (decimal arg), (arg.dropWhile isDigit).tail)
      else none := by
  rw [splitIndex, parseint_eq]
  by_cases hdigits : arg.takeWhile isDigit = []
  · rw [if_pos hdigits, if_neg (fun h => h.1 hdigits)]
    rfl
  · rw [if_neg hdigits, bind_some]
    by_cases hcolon : (arg.dropWhile isDigit).head? = some 58
    · rw [if_pos hcolon, if_pos ⟨hdigits, hcolon⟩]
    · rw [if_neg hcolon, if_neg (fun h => hcolon h.2)]

/-- What both parsers take an argument for. -/
theorem splitIndex_indexed (h : decimal arg < 2147483648) (k : ℕ) :
    splitIndex arg = some (((indexed arg k).1 : ℤ), (indexed arg k).2) ∧
        (indexed arg k).1 = decimal arg ∨
      splitIndex arg = none ∧ indexed arg k = (k, arg) := by
  rw [splitIndex_eq, indexed]
  split
  · rw [i32_decimal h]
    exact .inl ⟨rfl, rfl⟩
  · exact .inr ⟨rfl, rfl⟩

lemma lookup_ne_wild (i : ℕ) {e : Stop} (h : ring.lookup i = .error e) : e = .fail := by
  cases i with
  | zero => exact (Except.error.inj h).symm
  | succ i =>
    rw [Ring.lookup] at h
    split at h
    · cases h
    · exact (Except.error.inj h).symm

/-! ### The tools that share their code -/

namespace Wrapped

variable {input : List UInt8}

section

variable (h : Wrapped scrypt ring salt f)
include h

lemma dump (hinput : ask input 80 = .ok ring.phrase) :
    dump scrypt f none input = .ok ring.keys := by
  have hcount : ((ring.plain salt).length - 16) / 32 = ring.keys.length := by
    rw [h.sound.length_plain h.size]
    omega
  have hkeys : (range ring.keys.length).mapM
      (fun i : ℕ => getKeyByIdx (ring.plain salt) (i + 1 : ℕ)) =
        .ok ((range ring.keys.length).map fun i => ring.keys.getD i []) := by
    refine mapM_eq_ok fun i hi => ?_
    have hlt := mem_range.mp hi
    have hcount := h.sound.count
    rw [h.sound.getKeyByIdx h.size (by omega), Ring.lookup, dif_pos hlt, getD_eq_getElem _ _ hlt]
  have hall : ((range ring.keys.length).map fun i => ring.keys.getD i []) = ring.keys := by
    refine ext_getElem (by rw [length_map, length_range]) fun i hi hi' => ?_
    rw [getElem_map, getElem_range, getD_eq_getElem _ _ hi']
  rw [Dcrypt.dump, h.loadKeyfile hinput]
  show (range (((ring.plain salt).length - 16) / 32)).mapM _ = _
  rw [hcount, hkeys, hall]

lemma dumpKey (hinput : ask input 80 = .ok ring.phrase) {arg : List UInt8} {i : ℕ}
    (harg : Numeral arg i) (hi : i < 67108864) :
    Dcrypt.dump scrypt f (some arg) input = (ring.lookup i).map fun key => [key] := by
  have hi32 : i32 (i : ℤ) = i := i32_of_range (by omega) (by omega)
  rw [Dcrypt.dump, elim_some, shiftUint, harg.parseint, hi32]
  rcases Nat.eq_zero_or_pos i with rfl | hpos
  · rfl
  · have hcond : ¬(([] : List UInt8) ≠ [] ∨ (i : ℤ) ≤ 0) := by
      rintro (hne | hle)
      · exact hne rfl
      · omega
    have hne : (i : ℤ) ≠ 0 := by omega
    dsimp only
    rw [if_neg hcond, h.loadKeyfile hinput]
    show (if (i : ℤ) ≠ 0 then getKeyByIdx (ring.plain salt) i >>= fun key => .ok [key] else _) = _
    rw [if_pos hne, h.sound.getKeyByIdx h.size hi]
    cases ring.lookup i with
    | ok key => rfl
    | error e => rfl

lemma deitoolKey (hinput : ask input 80 = .ok ring.phrase) {kidx : Option (List UInt8)} {i : ℕ}
    (hkidx : maybeShiftInt 1 kidx = .ok (i : ℤ)) (hi : i < 67108864) :
    deitoolKey scrypt f kidx input = ring.lookup i := by
  rw [Dcrypt.deitoolKey, hkidx, h.loadKeyfile hinput]
  exact h.sound.getKeyByIdx h.size hi

/-- **The devices of `dmcrypt` get the keys their arguments number.** -/
theorem prepareDevices {reqs : List (List UInt8)} (hreqs : ∀ arg ∈ reqs, decimal arg < 67108864)
    {k : ℕ} (hk : k < 67108864) :
    prepareDevices (ring.plain salt) reqs k = (numbered false reqs k).mapM fun spec =>
      (ring.lookup spec.1).map (deviceOf spec.2) := by
  induction reqs generalizing k with
  | nil => rfl
  | cons arg reqs ih =>
    have harg := hreqs arg mem_cons_self
    have hspec : (splitIndex arg).getD ((k : ℤ), arg) =
        (((indexed arg k).1 : ℤ), (indexed arg k).2) ∧ (indexed arg k).1 < 67108864 := by
      rcases splitIndex_indexed (lt_trans harg (by norm_num)) k with ⟨hs, hi⟩ | ⟨hs, hi⟩
      · rw [hs, hi]
        exact ⟨rfl, harg⟩
      · rw [hs, hi]
        exact ⟨rfl, hk⟩
    obtain ⟨hspec, hlt⟩ := hspec
    have hrest := ih (fun a ha => hreqs a (mem_cons_of_mem arg ha)) hlt
    have hdash : ¬(false = true ∧ arg = [45]) := fun hd => Bool.false_ne_true hd.1
    rw [Dcrypt.prepareDevices, hspec, numbered, if_neg hdash, mapM_cons,
      h.sound.getKeyByIdx h.size hlt, hrest]
    cases ring.lookup (indexed arg k).1 with
    | error e => rfl
    | ok key => rfl

end

end Wrapped

/-! ### The one that has its own -/

/-- The partition an argument is about. -/
theorem part_eq (h : decimal arg < 2147483648) {k : ℕ} (hk : 1 ≤ k) :
    ((splitIndex arg).map fun spec => Part.mk (spec.1 - 1) spec.2).getD ⟨(k : ℤ) - 1, arg⟩ =
        ⟨((indexed arg k).1 : ℤ) - 1, (indexed arg k).2⟩ ∧
      (((splitIndex arg).any fun spec => spec.1 ≤ 0) = true ↔ (indexed arg k).1 = 0) := by
  rcases splitIndex_indexed h k with ⟨hs, -⟩ | ⟨hs, hi⟩
  · rw [hs]
    refine ⟨rfl, ?_⟩
    rw [any_some, decide_eq_true_eq]
    omega
  · rw [hs, hi]
    refine ⟨rfl, fun hany => ?_, fun h0 => ?_⟩
    · cases hany
    · exact absurd h0 (ne_of_gt hk)

/-- **`parse_part_labels` finds the numbers meant**, or one that cannot be right. -/
theorem ends_parsePartLabels {args : List (List UInt8)} {k n : ℕ} (hk : 1 ≤ k)
    (hargs : ∀ arg ∈ args, decimal arg < 2147483648)
    (hn : n + (numbered true args k).length ≤ 17) :
    Ends (parsePartLabels args (k - 1) n) (fun parts =>
        parts = (numbered true args k).map (fun spec => ⟨(spec.1 : ℤ) - 1, spec.2⟩) ∧
          ∀ spec ∈ numbered true args k, 1 ≤ spec.1)
      (fun e => e = .fail ∧ ∃ spec ∈ numbered true args k, spec.1 = 0 ∨ 17 < spec.1) := by
  induction args generalizing k n with
  | nil => exact ⟨rfl, fun spec hspec => absurd hspec not_mem_nil⟩
  | cons arg args ih =>
    have hrest : ∀ a ∈ args, decimal a < 2147483648 := fun a ha =>
      hargs a (mem_cons_of_mem arg ha)
    rw [parsePartLabels]
    by_cases hdash : arg = [45]
    · have hnum : numbered true (arg :: args) k = numbered true args (k + 1) := by
        rw [numbered, if_pos ⟨rfl, hdash⟩]
      have hki : (k : ℤ) - 1 + 1 = ((k + 1 : ℕ) : ℤ) - 1 := by omega
      rw [hnum] at hn ⊢
      rw [if_pos hdash, hki]
      exact ih (Nat.le_add_left 1 k) hrest hn
    · have hnum : numbered true (arg :: args) k =
          indexed arg k :: numbered true args (indexed arg k).1 := by
        rw [numbered, if_neg (fun hd => hdash hd.2)]
      obtain ⟨hpart, hany⟩ := part_eq (hargs arg mem_cons_self) hk
      rw [hnum, length_cons] at hn
      rw [hnum, if_neg hdash, hpart]
      generalize indexed arg k = spec at hn hany ⊢
      by_cases hzero : spec.1 = 0
      · rw [refuse, if_pos (hany.mpr hzero)]
        exact ⟨rfl, spec, mem_cons_self, .inl hzero⟩
      · have hpos : 1 ≤ spec.1 := pos_of_ne_zero hzero
        rw [refuse, if_neg (fun h => hzero (hany.mp h))]
        by_cases hbig : 17 < spec.1
        · have hfail : refuse ((16 : ℤ) < (spec.1 : ℤ) - 1) Stop.fail = .error .fail :=
            if_pos (by omega)
          dsimp only
          rw [hfail]
          exact ⟨rfl, spec, mem_cons_self, .inr hbig⟩
        · have hpass : refuse ((16 : ℤ) < (spec.1 : ℤ) - 1) Stop.fail = .ok () := if_neg (by omega)
          have hroom : refuse (16 < n) Stop.fail = .ok () := if_neg (by omega)
          dsimp only
          rw [hpass, hroom]
          have hmore := ih (n := n + 1) hpos hrest (by omega)
          show Ends (parsePartLabels args ((spec.1 : ℤ) - 1) (n + 1) >>= fun parts =>
            Except.ok (_ :: parts)) _ _
          refine Ends.bind (hmore.mono (fun parts h => h) ?_) fun parts hparts => ?_
          · rintro e ⟨he, s, hs, hbad⟩
            exact ⟨he, s, mem_cons_of_mem spec hs, hbad⟩
          · refine ⟨congrArg (_ :: ·) hparts.1, fun s hs => ?_⟩
            rcases mem_cons.mp hs with rfl | hs
            · exact hpos
            · exact hparts.2 s hs

lemma fails_parsePartLabels (args : List (List UInt8)) (ki : ℤ) (n : ℕ) :
    Ends (parsePartLabels args ki n) (fun _ => True) (· = .fail) := by
  induction args generalizing ki n with
  | nil => exact trivial
  | cons arg args ih =>
    rw [parsePartLabels]
    split
    · exact ih _ _
    · exact ends_refuse.bind fun _ _ => ends_refuse.bind fun _ _ => ends_refuse.bind fun _ _ =>
        (ih _ _).bind fun _ _ => trivial

namespace Wrapped

section

variable (h : Wrapped scrypt ring salt f)
include h

/-- What `passblk` makes of the right passphrase. -/
theorem unwrapKeydata : unwrapKeydata scrypt f f ring.phrase = (true, ring.plain salt) := by
  have htest : memcmp ((testpad ++ ring.keys.flatten).take 8) testpad = 0 := by
    rw [take_left' length_testpad, memcmp_self]
  rw [Dcrypt.unwrapKeydata, h.unwrapped, htest, if_neg (not_not.mpr rfl), h.take_salt, Ring.plain]

lemma loadKeyData : loadKeyData f = if 16 < ring.keys.length then .error .fail else .ok f := by
  have hlen := h.length_file
  rw [Dcrypt.loadKeyData, hlen]
  by_cases hmany : 16 < ring.keys.length
  · rw [if_pos hmany, refuse, if_pos (by omega)]
    rfl
  · rw [if_neg hmany, refuse, if_neg (by omega), refuse, if_neg (by omega), refuse,
      if_neg (by omega)]
    rfl

/-- **The partitions of `passblk` get the keys their arguments number.** -/
theorem passblk (hfew : ring.keys.length ≤ 16) (hprint : ∀ c ∈ ring.phrase, Printable c)
    {args : List (List UInt8)} (hne : args ≠ [])
    (hargs : ∀ arg ∈ args, decimal arg < 2147483648) (hparts : (numbered true args 1).length ≤ 16)
    {before typed : List Typed} (hready : (entered scrypt f before).Ready)
    (htyped : typed.flatMap Typed.bytes = ring.phrase ++ [0x0D]) :
    passblk scrypt f args (before ++ typed) = (numbered true args 1).mapM fun spec =>
      (ring.lookup spec.1).map fun key => (spec.2, key) := by
  have hload := h.loadKeyData
  rw [if_neg (by omega)] at hload
  have hmax : ring.phrase.length ≤ MAXPASS := Nat.le_trans (Nat.le_of_lt h.sound.short) (by decide)
  obtain ⟨hopened, hdata⟩ :=
    entered_right hprint hmax h.sound.typed h.unwrapKeydata hready htyped
  have honly : ∀ spec ∈ numbered true args 1, ∀ e,
      ((ring.lookup spec.1).map fun key => (spec.2, key)) = .error e → e = .fail := by
    intro spec _ e he
    cases hlook : ring.lookup spec.1 with
    | error e' =>
      rw [hlook] at he
      exact Except.error.inj he ▸ lookup_ne_wild _ hlook
    | ok key =>
      rw [hlook] at he
      cases he
  -- a number without a key: both give up
  have hbad : (∃ spec ∈ numbered true args 1, spec.1 = 0 ∨ ring.keys.length < spec.1) →
      ((numbered true args 1).mapM fun spec =>
        (ring.lookup spec.1).map fun key => (spec.2, key)) = .error .fail := by
    rintro ⟨spec, hspec, hout⟩
    refine mapM_eq_error honly ⟨spec, hspec, ?_⟩
    have hlook : ring.lookup spec.1 = .error .fail := by
      rcases hout with h0 | hbig
      · rw [h0, Ring.lookup]
      · obtain ⟨i, hi⟩ : ∃ i, spec.1 = i + 1 := ⟨spec.1 - 1, by omega⟩
        rw [hi, Ring.lookup, dif_neg (by omega)]
    rw [hlook]
    rfl
  have hends := ends_parsePartLabels (k := 1) (n := 0) le_rfl hargs (by omega)
  have hki : ((1 : ℕ) : ℤ) - 1 = 0 := rfl
  have hcount : (f.length - 16) / 32 = ring.keys.length := by
    rw [h.length_file]
    omega
  rw [hki] at hends
  rw [Dcrypt.passblk, refuse, if_neg hne]
  cases hparse : parsePartLabels args 0 0 with
  | error e =>
    rw [hparse] at hends
    obtain ⟨rfl, spec, hspec, hout⟩ := hends
    rw [hbad ⟨spec, hspec, hout.imp_right (by omega)⟩]
    rfl
  | ok parts =>
    rw [hparse] at hends
    obtain ⟨rfl, hpos⟩ := hends
    rw [hload]
    show (validateParts _ ((f.length - 16) / 32) >>= fun _ =>
      refuse ((entered scrypt f (before ++ typed)).opened = false) Stop.fail >>= fun _ =>
        Except.ok _) = _
    rw [hcount, hopened, hdata, refuse, if_neg (by decide), validateParts,
      take_of_length_le (by rw [length_map]; exact hparts),
      drop_of_length_le (by rw [length_map]; exact hparts), map_nil,
      append_nil]
    by_cases hall : ∀ spec ∈ numbered true args 1, spec.1 ≤ ring.keys.length
    · have hpass : ¬∃ part ∈ (numbered true args 1).map
          (fun spec => Part.mk ((spec.1 : ℤ) - 1) spec.2),
            (ring.keys.length : ℤ) ≤ part.keyidx := by
        rintro ⟨part, hpart, hge⟩
        obtain ⟨spec, hspec, rfl⟩ := mem_map.mp hpart
        have hle := hall spec hspec
        dsimp only at hge
        omega
      have hkeys : ((numbered true args 1).mapM fun spec =>
          (ring.lookup spec.1).map fun key => (spec.2, key)) =
            .ok ((numbered true args 1).map fun spec =>
              (spec.2, pread (ring.plain salt) 32 (16 + 32 * ((spec.1 : ℤ) - 1)).toNat)) := by
        refine mapM_eq_ok fun spec hspec => ?_
        obtain ⟨i, hi⟩ : ∃ i, spec.1 = i + 1 :=
          ⟨spec.1 - 1, by have := hpos spec hspec; omega⟩
        have hlt : i < ring.keys.length := by
          have := hall spec hspec
          omega
        have hoff : (16 + 32 * (((i + 1 : ℕ) : ℤ) - 1)).toNat = 16 + 32 * i := by omega
        rw [hi, Ring.lookup, dif_pos hlt, hoff, h.sound.pread_plain h.size hlt]
        rfl
      rw [refuse, if_neg hpass, hkeys]
      show Except.ok _ = Except.ok _
      rw [List.map_map]
      rfl
    · have hfail : ∃ part ∈ (numbered true args 1).map
          (fun spec => Part.mk ((spec.1 : ℤ) - 1) spec.2),
            (ring.keys.length : ℤ) ≤ part.keyidx := by
        obtain ⟨spec, hspec, hgt⟩ := not_forall₂.mp hall
        refine ⟨_, mem_map_of_mem hspec, ?_⟩
        dsimp only
        omega
      obtain ⟨spec, hspec, hgt⟩ := not_forall₂.mp hall
      rw [refuse, if_pos hfail, hbad ⟨spec, hspec, .inr (by omega)⟩]
      rfl

/-- **The keyfile of a ring is one for all four of them.** -/
theorem opens : Opens scrypt ring f where
  dump _ hinput := h.dump hinput
  dumpKey _ hinput _ _ harg hi := h.dumpKey hinput harg hi
  deitool _ hinput arg i harg hi := by
    have hi32 : i32 (i : ℤ) = i := i32_of_range (by omega) (by omega)
    refine h.deitoolKey hinput ?_ hi
    rw [maybeShiftInt, harg.parseint, hi32]
    exact if_neg (not_not.mpr rfl)
  deitoolFirst _ hinput := h.deitoolKey hinput (i := 1) rfl (by norm_num)
  dmcrypt input hinput reqs hreqs := by
    rw [Dcrypt.dmcrypt, h.loadKeyfile hinput]
    exact h.prepareDevices hreqs (k := 1) (by norm_num)
  passblk hfew hprint _ hne hargs hparts _ _ hready htyped :=
    h.passblk hfew hprint hne hargs hparts hready htyped
  passblkFull hmany args typed := by
    have hload := h.loadKeyData
    rw [if_pos hmany] at hload
    have hends : Ends (Dcrypt.passblk scrypt f args typed) (fun _ => False) (· = .fail) := by
      refine ends_refuse.bind fun _ _ => (fails_parsePartLabels args 0 0).bind fun _ _ => ?_
      rw [hload]
      exact rfl
    cases hrun : Dcrypt.passblk scrypt f args typed with
    | ok out =>
      rw [hrun] at hends
      exact hends.elim
    | error e =>
      rw [hrun] at hends
      rw [show e = .fail from hends]

end

end Wrapped

/-! ### Every run of the keyring tool -/

/-- **Keys survive every run of the tool** whose counts are such that the size of the keys is an
`int`, whose random bytes are read whole, and whose writes do not fail: every file is opened by the
passphrase it was last given, in all four tools, and has the keys that were made for it. The next
command comes to an end, and if it is `add`, it adds as many keys as it was asked to or does
nothing. -/
theorem keys_survive (scrypt : Scrypt) {w : World}
    (h : Reach init (step scrypt)
      (fun w cmd => Matching w cmd ∧ Counted w cmd ∧ cmd.Written) w) :
    (∀ name, (w.files name = none ∧ w.rings name = none) ∨
      ∃ f ring, w.files name = some f ∧ w.rings name = some ring ∧
        (∀ key ∈ ring.keys, key.length = 32) ∧ Opens scrypt ring f) ∧
    ∀ cmd, Matching w cmd → Counted w cmd → cmd.Written → ∃ w', w.step scrypt cmd = some w' ∧
      (w' = w ∨ w'.rings = w.rings.after cmd ∧
        ∀ name count src phrase disk, cmd = .add name count src phrase disk →
          ∃ ring new, w.rings name = some ring ∧ new.length = decimal count ∧
            w'.rings name = some ⟨ring.phrase, ring.keys ++ new⟩) := by
  have hkept := kept_run h
  refine ⟨fun name => ?_, fun cmd hmatch hcount hdisk => ?_⟩
  · rcases hkept name with hnone | ⟨f, ring, salt, hf, hring, hwrapped⟩
    · exact .inl hnone
    · exact .inr ⟨f, ring, hf, hring, hwrapped.sound.whole, hwrapped.opens⟩
  · have hends := hkept.ends_run hmatch hcount hdisk
    cases hrun : cmd.run scrypt w.files with
    | error e =>
      rw [hrun] at hends
      obtain rfl : e = .fail := hends
      refine ⟨w, ?_, .inl rfl⟩
      rw [step, hrun]
    | ok out =>
      rw [hrun] at hends
      obtain ⟨hwr, -⟩ := hends
      refine ⟨⟨out.2, w.rings.after cmd⟩, ?_, .inr ⟨rfl, ?_⟩⟩
      · rw [step, hrun]
        dsimp only
        rw [if_neg (by omega)]
      · rintro name count src phrase disk rfl
        -- a command that went well had a file to open
        obtain ⟨_, -, hrun⟩ := ok_of_bind hrun
        obtain ⟨f, hf, -⟩ := ok_of_bind hrun
        rcases hkept name with ⟨hnone, -⟩ | ⟨_, ring, _, -, hring, -⟩
        · rw [Files.read, hnone] at hf
          cases hf
        · refine ⟨ring, keysFrom (decimal count) src.rnd, hring, length_keysFrom _ _, ?_⟩
          show w.rings.after (.add name count src phrase disk) name = _
          rw [Rings.after_add, hring]
          rfl

end

/-! ### A ring with one key -/

/-- A hash that does not care. -/
def sameKey : Scrypt := fun _ _ => zero 16

/-- A disk that takes everything. -/
def goodDisk : Option Outcomes := some fun _ => 4096

lemma goodDisk_pos : ∀ o, goodDisk = some o → ∀ k, 0 < o k := by
  rintro o ho k
  cases ho
  show (0 : ℤ) < 4096
  norm_num

/-- What is written on it is there. -/
theorem write_goodDisk {files : Files} {name old new : List UInt8} (h : old.length ≤ new.length) :
    ∃ wr, 0 ≤ wr ∧ files.write name old goodDisk new = .ok (wr, update files name (some new)) := by
  have hwr : 0 ≤ (writeall (fun _ => 4096) new ⟨0, []⟩).1 :=
    writeallFrom_nonneg (fun _ => by norm_num) (Int.le_refl 0)
  have hall : (writeall (fun _ => 4096) new ⟨0, []⟩).2.written = new := writeall_written hwr
  refine ⟨_, hwr, ?_⟩
  show Except.ok (_, update files name
    (some (overwrite old (writeall (fun _ => 4096) new ⟨0, []⟩).2.written))) = _
  rw [hall, overwrite_eq h]
  rfl

/-- `dektool create k`. -/
def createOne : Cmd :=
  .create [107] none ⟨replicate 48 7, zero 1024⟩ [112, 119] [112, 119] goodDisk

/-- What is there afterwards. -/
def oneKey : World where
  files := update (fun _ => none) [107]
    (some (writeKeyfile ⟨fillKeyData ⟨replicate 48 7, zero 1024⟩ 48, zero 16⟩))
  rings := update (fun _ => none) [107] (some ⟨[112, 119], keysFrom 1 (replicate 32 7)⟩)

lemma step_createOne :
    step sameKey ⟨fun _ => none, fun _ => none⟩ createOne = some oneKey := by
  have hlen : ([] : List UInt8).length ≤ (writeKeyfile
      ⟨fillKeyData ⟨List.replicate 48 7, zero 1024⟩ 48, zero 16⟩).length :=
        Nat.zero_le _
  obtain ⟨wr, hpos, hwrite⟩ := @write_goodDisk (fun _ => none) [107] _ _ hlen
  have hrun : createOne.run sameKey (fun _ => none) = .ok (wr, oneKey.files) := hwrite
  rw [step, hrun]
  dsimp only
  rw [if_neg (by omega)]
  rfl

lemma counted_createOne : Counted ⟨fun _ => none, fun _ => none⟩ createOne := by
  refine ⟨?_, fun _ => ?_⟩
  · show 1 < 67108864
    norm_num
  · show 48 ≤ (replicate 48 7).length
    rw [length_replicate]

lemma reach_oneKey : Reach init (step sameKey)
    (fun w cmd => Matching w cmd ∧ Counted w cmd ∧ cmd.Written) oneKey := by
  have hmatch : Matching ⟨fun _ => none, fun _ => none⟩ createOne := trivial
  exact .next (.start ⟨fun _ => rfl, fun _ => rfl⟩) ⟨hmatch, counted_createOne, goodDisk_pos⟩
    step_createOne

theorem oneKey_survives :
    (oneKey.files [107] = none ∧ oneKey.rings [107] = none) ∨
      ∃ f ring, oneKey.files [107] = some f ∧ oneKey.rings [107] = some ring ∧
        (∀ key ∈ ring.keys, key.length = 32) ∧ Opens sameKey ring f :=
  (keys_survive sameKey reach_oneKey).1 [107]

/-- `dektool add k 134217728`: the size of so many keys in bytes is zero modulo `2 ^ 32`. -/
def addTooMany : Cmd :=
  .add [107] [49, 51, 52, 50, 49, 55, 55, 50, 56] ⟨[], zero 1024⟩ [112, 119] goodDisk

lemma decimal_tooMany : decimal [49, 51, 52, 50, 49, 55, 55, 50, 56] = 134217728 := rfl

lemma run_addTooMany {files : Files} {ring : Ring} {salt f : List UInt8}
    (hfile : files [107] = some f) (h : Wrapped sameKey ring salt f)
    (hphrase : ring.phrase = [112, 119]) :
    ∃ wr, 0 ≤ wr ∧ addTooMany.run sameKey files = .ok (wr, update files [107] (some f)) := by
  have hinput : ask [112, 119] 80 = .ok ring.phrase := hphrase.symm ▸ rfl
  have hread : files.read [107] = .ok f := by rw [Files.read, hfile]
  have hcount : shiftUint [49, 51, 52, 50, 49, 55, 55, 50, 56] = .ok 134217728 := by
    rw [shiftUint, parseint_eq, if_neg (by decide), decimal_tooMany]
    rfl
  have hneed : (i32 (134217728 * 32) % 4294967296).toNat = 0 := rfl
  have hlen := h.sound.length_plain h.size
  have hfull := h.sound.count
  have hsum : u32 (16 + 32 * ring.keys.length + 0) = 16 + 32 * ring.keys.length :=
    u32_of_lt (by omega)
  have happend : appendKeyData ⟨ring.plain salt, sameKey ring.phrase salt⟩ 0
      ⟨[], zero 1024⟩ = .ok ⟨ring.plain salt, sameKey ring.phrase salt⟩ := by
    rw [appendKeyData]
    rw [hlen, hsum, refuse, if_neg (by omega), refuse, if_neg (by omega),
      readRandom_full (Nat.zero_le _), take_zero, append_nil]
    rfl
  have hrun : addTooMany.run sameKey files = files.write [107] f goodDisk f := by
    rw [addTooMany, Cmd.run, hcount]
    show (files.read [107] >>= fun f => loadKeyfile sameKey f [112, 119] >>= fun kf =>
      appendKeyData kf (i32 (134217728 * 32) % 4294967296).toNat ⟨[], zero 1024⟩ >>=
        fun kf' => files.write [107] f goodDisk (writeKeyfile kf')) = _
    rw [hread, hneed]
    show (loadKeyfile sameKey f [112, 119] >>= fun kf =>
      appendKeyData kf 0 ⟨[], zero 1024⟩ >>= fun kf' =>
        files.write [107] f goodDisk (writeKeyfile kf')) = _
    rw [h.loadKeyfile hinput]
    show (appendKeyData ⟨ring.plain salt, sameKey ring.phrase salt⟩ 0 ⟨[], zero 1024⟩ >>=
      fun kf' => files.write [107] f goodDisk (writeKeyfile kf')) = _
    rw [happend]
    show files.write [107] f goodDisk (writeKeyfile _) = _
    rw [← h.file]
  obtain ⟨wr, hpos, hwrite⟩ := @write_goodDisk files [107] _ _ (Nat.le_refl f.length)
  exact ⟨wr, hpos, hrun.trans hwrite⟩

/-- **The tool says it added keys, and did not.** -/
theorem keys_not_added : ¬∀ (scrypt : Scrypt) (w : World),
    Reach init (step scrypt) (fun w cmd => Matching w cmd ∧ cmd.Written) w →
      ∀ name f ring, w.files name = some f → w.rings name = some ring → Opens scrypt ring f := by
  intro hall
  rcases kept_run reach_oneKey [107] with ⟨hnone, -⟩ | ⟨f, ring, salt, hf, hring, h⟩
  · cases hnone
  · have hphrase : ring.phrase = [112, 119] :=
      (congrArg Ring.phrase (Option.some.inj hring)).symm
    have hinput : ask [112, 119] 80 = .ok ring.phrase := hphrase.symm ▸ rfl
    have hstep : step sameKey oneKey addTooMany =
        some ⟨update oneKey.files [107] (some f), oneKey.rings.after addTooMany⟩ := by
      obtain ⟨wr, hpos, hrun⟩ := run_addTooMany hf h hphrase
      rw [step, hrun]
      dsimp only
      rw [if_neg (by omega)]
    have hreach : Reach init (step sameKey)
        (fun w cmd => Matching w cmd ∧ cmd.Written)
        ⟨update oneKey.files [107] (some f), oneKey.rings.after addTooMany⟩ := by
      have hwritten : addTooMany.Written := goodDisk_pos
      refine .next (reach_oneKey.mono fun _ _ hok => ⟨hok.1, hok.2.2⟩) ⟨?_, hwritten⟩ hstep
      intro r hr
      exact Option.mem_unique hring hr ▸ hinput
    have hring' : oneKey.rings.after addTooMany [107] =
        some ⟨ring.phrase, ring.keys ++ keysFrom 134217728 []⟩ := by
      rw [addTooMany, Rings.after_add, hring, decimal_tooMany]
      rfl
    have hfile' : update oneKey.files [107] (some f) [107] = some f :=
      update_self ..
    have hopens := hall sameKey _ hreach [107] f _ hfile' hring'
    have hsame := (hopens.dump _ hinput).symm.trans (h.opens.dump _ hinput)
    have hlen := congrArg length (Except.ok.inj hsame)
    rw [length_append, length_keysFrom] at hlen
    omega

end Minibase.Dcrypt
