import Minibase.Dcrypt.Keyfile
import Minibase.Format.Digits
import Minibase.Lib.Runs
import Minibase.Util.Writeall

/-!
# The keyring tool

`dektool.c`: `create`, `crover`, `add` and `repass` (`Dcrypt.Cmd`), each a process of its own.
Next to the files stand the keyrings they are meant to hold (`Dcrypt.World`): a command that
succeeds is taken at its word. Then every file is at any time the keyfile of its ring
(`Dcrypt.World.Kept`), as long as the counts are such that their size in bytes is an `int`,
`getrandom` does not return less than it was asked for, and no write fails (`Dcrypt.kept_run`):
`write_keyfile` writes over the only copy of the keys there is.
-/

namespace Minibase.Dcrypt

open List Option

/-! ### What the source computes -/

/-- Where the bytes of a buffer come from: those that `getrandom` returns before it is cut short,
and those that were in memory before. -/
structure Source where
  rnd : List UInt8
  stale : Bytes 1024

def shiftUint (arg : List UInt8) : Except Stop ℤ :=
  match parseint arg with
  | none => .error .fail
  | some out => if out.2 ≠ [] ∨ out.1 ≤ 0 then .error .fail else .ok out.1

/-- `read_random`, and what is then in the buffer from `off` on. -/
def readRandom (src : Source) (off size : ℕ) : List UInt8 :=
  let got := src.rnd.take size
  got ++ pread src.stale.data (size - got.length) (off + got.length)

/-- `fill_key_data`, with `copy_valid_iv`. -/
def fillKeyData (src : Source) (total : ℕ) : List UInt8 :=
  let buf := readRandom src 0 total
  buf.take 8 ++ (testpad ++ buf.drop 16)

def appendKeyData (kf : Keyfile) (need : ℕ) (src : Source) : Except Stop Keyfile := do
  refuse (1024 < u32 (kf.buf.length + need)) .fail
  -- the sum may have come round
  refuse (1024 < kf.buf.length + need) .wild
  .ok ⟨kf.buf ++ readRandom src kf.buf.length need, kf.kek⟩

/-- `prep_passphrase`, with what was typed both times. -/
def prepPassphrase (scrypt : Scrypt) (buf phrase again : List UInt8) : Except Stop (Bytes 16) := do
  let p ← ask phrase 80
  let r ← ask again 80
  refuse (p.length ≠ r.length ∨ p.takeWhile (· ≠ 0) ≠ r.takeWhile (· ≠ 0)) .fail
  .ok (scrypt p (buf.take 8))

/-- `create_keyfile`, up to the file. -/
def createKeyfile (scrypt : Scrypt) (count : ℤ) (src : Source) (phrase again : List UInt8) :
    Except Stop (List UInt8) := do
  let total := i32 (16 + i32 (count * 32))
  refuse (total < 0 ∨ 1024 < total) .fail
  let kek ← prepPassphrase scrypt (fillKeyData src total.toNat) phrase again
  .ok (writeKeyfile ⟨fillKeyData src total.toNat, kek⟩)

/-- The files there are. -/
abbrev Files := List UInt8 → Option (List UInt8)

/-- `sys_open` for reading, and all that is read. -/
def Files.read (files : Files) (name : List UInt8) : Except Stop (List UInt8) :=
  match files name with
  | none => .error .fail
  | some f => .ok f

/-- A file opened without `O_TRUNC` and written. -/
def overwrite (old new : List UInt8) : List UInt8 := new ++ old.drop new.length

/-- The rest of `write_keyfile`, for a file that holds `old` once it is open: what `writeall`
returns, and the files then. If that is an error the tool fails, and the file is what has been
written of `new`. There are no calls of `write` if the file cannot be opened. -/
def Files.write (files : Files) (name old : List UInt8) (disk : Option Outcomes)
    (new : List UInt8) : Except Stop (ℤ × Files) :=
  match disk with
  | none => .error .fail
  | some o =>
    let (wr, sink) := writeall o new ⟨0, []⟩
    .ok (wr, Function.update files name (some (overwrite old sink.written)))

/-- The command line, what is typed, and what `getrandom`, `open` and `write` do. -/
inductive Cmd
  | create (name : List UInt8) (count : Option (List UInt8)) (src : Source)
      (phrase again : List UInt8) (disk : Option Outcomes)
  | crover (name : List UInt8) (count : Option (List UInt8)) (src : Source)
      (phrase again : List UInt8) (disk : Option Outcomes)
  | add (name count : List UInt8) (src : Source) (phrase : List UInt8) (disk : Option Outcomes)
  | repass (name old phrase again : List UInt8) (disk : Option Outcomes)

/-- `cmd_create`, `cmd_crover`, `cmd_addkey` and `cmd_repass`. -/
def Cmd.run (scrypt : Scrypt) (files : Files) : Cmd → Except Stop (ℤ × Files)
  | .create name count src phrase again disk => do
    let n ← count.elim (.ok 1) shiftUint
    refuse (files name ≠ none) .fail
    let f ← createKeyfile scrypt n src phrase again
    files.write name [] disk f
  | .crover name count src phrase again disk => do
    let n ← count.elim (.ok 1) shiftUint
    let f ← createKeyfile scrypt n src phrase again
    files.write name [] disk f
  | .add name count src phrase disk => do
    let n ← shiftUint count
    let f ← files.read name
    let kf ← loadKeyfile scrypt f phrase
    let kf' ← appendKeyData kf (i32 (n * 32) % 4294967296).toNat src
    files.write name f disk (writeKeyfile kf')
  | .repass name old phrase again disk => do
    let f ← files.read name
    let kf ← loadKeyfile scrypt f old
    let kek ← prepPassphrase scrypt kf.buf phrase again
    files.write name f disk (writeKeyfile ⟨kf.buf, kek⟩)

/-- `cmd_dump`, with the number of a key or without. -/
def dump (scrypt : Scrypt) (f : List UInt8) (kidx : Option (List UInt8)) (phrase : List UInt8) :
    Except Stop (List (List UInt8)) := do
  let idx ← kidx.elim (.ok 0) shiftUint
  let kf ← loadKeyfile scrypt f phrase
  if idx ≠ 0 then do
    let key ← getKeyByIdx kf.buf idx
    .ok [key]
  else (range ((kf.buf.length - 16) / 32)).mapM fun i : ℕ => getKeyByIdx kf.buf (i + 1 : ℕ)

/-! ### What the commands are for -/

/-- The keyrings the files are meant to hold. -/
abbrev Rings := List UInt8 → Option Ring

/-- What was typed, less the end of the line. -/
def phraseOf (input : List UInt8) : List UInt8 := ((ask input 80).toOption).getD []

/-- The count on the command line of `create`. -/
def countOf (count : Option (List UInt8)) : ℕ := count.elim 1 decimal

/-- So many new keys. -/
def keysFrom (n : ℕ) (rnd : List UInt8) : List (List UInt8) := (range n).map (piece 32 rnd)

/-- **What a command that succeeds makes of the rings.** -/
def Rings.after (rings : Rings) : Cmd → Rings
  | .create name count src phrase _ _ | .crover name count src phrase _ _ =>
    Function.update rings name (some ⟨phraseOf phrase, keysFrom (countOf count) (src.rnd.drop 16)⟩)
  | .add name count src _ _ =>
    Function.update rings name
      ((rings name).map fun ring => ⟨ring.phrase, ring.keys ++ keysFrom (decimal count) src.rnd⟩)
  | .repass name _ phrase _ _ =>
    Function.update rings name ((rings name).map fun ring => ⟨phraseOf phrase, ring.keys⟩)

lemma Rings.after_add (rings : Rings) (name count : List UInt8) (src : Source)
    (phrase : List UInt8) (disk : Option Outcomes) :
    rings.after (.add name count src phrase disk) name =
      (rings name).map fun ring => ⟨ring.phrase, ring.keys ++ keysFrom (decimal count) src.rnd⟩ :=
  Function.update_self ..

/-- The files, and the rings they are meant to hold. -/
structure World where
  files : Files
  rings : Rings

/-- A command is run, and succeeds if no write fails. What happens after memory was overwritten is
not known. -/
def World.step (scrypt : Scrypt) (w : World) (cmd : Cmd) : Option World :=
  match cmd.run scrypt w.files with
  | .ok (wr, files) => some ⟨files, if wr < 0 then w.rings else w.rings.after cmd⟩
  | .error .fail => some w
  | .error .wild => none

/-- No keyfiles yet. -/
def World.init (w : World) : Prop := (∀ name, w.files name = none) ∧ ∀ name, w.rings name = none

/-- The passphrase typed is that of the ring. -/
def Matching (w : World) : Cmd → Prop
  | .create .. | .crover .. => True
  | .add name _ _ phrase _ | .repass name phrase _ _ _ =>
    ∀ ring, w.rings name = some ring → ask phrase 80 = .ok ring.phrase

/-- The size of the keys is an `int`, and they are read whole. -/
def Counted (w : World) : Cmd → Prop
  | .create _ count src _ _ _ | .crover _ count src _ _ _ =>
    countOf count < 67108864 ∧
      (16 + 32 * countOf count ≤ 1024 → 16 + 32 * countOf count ≤ src.rnd.length)
  | .add name count src _ _ =>
    decimal count < 67108864 ∧ ∀ ring, w.rings name = some ring →
      16 + 32 * ring.keys.length + 32 * decimal count ≤ 1024 → 32 * decimal count ≤ src.rnd.length
  | .repass .. => True

/-- No write fails. -/
def Cmd.Written : Cmd → Prop
  | .create _ _ _ _ _ disk | .crover _ _ _ _ _ disk | .add _ _ _ _ disk
  | .repass _ _ _ _ disk => ∀ o, disk = some o → ∀ k, 0 < o k

/-- **Every file is the keyfile of its ring.** -/
def World.Kept (scrypt : Scrypt) (w : World) : Prop :=
  ∀ name, (w.files name = none ∧ w.rings name = none) ∨
    ∃ f ring salt, w.files name = some f ∧ w.rings name = some ring ∧ Wrapped scrypt ring salt f

/-! ### One command -/

section

variable {scrypt : Scrypt} {src : Source} {phrase again : List UInt8}

lemma ends_refuse {p : Prop} [Decidable p] :
    Ends (refuse p Stop.fail) (fun _ => ¬p) (· = .fail) := by
  rw [refuse]
  split
  · exact rfl
  · assumption

lemma ends_ask {input : List UInt8} {len : ℕ} :
    Ends (ask input len) (fun p => ask input len = .ok p) (· = .fail) := by
  rw [ask]
  split
  · exact rfl
  · dsimp only
    generalize (if input.getLast? = some 10 then input.dropLast else input) = p
    split
    · exact rfl
    · exact rfl

lemma phraseOf_eq {input p : List UInt8} (h : ask input 80 = .ok p) : phraseOf input = p := by
  rw [phraseOf, h]
  rfl

/-- A count that fits is the number meant. -/
theorem ends_shiftUint {arg : List UInt8} (h : decimal arg < 67108864) :
    Ends (shiftUint arg) (· = decimal arg) (· = .fail) := by
  have hfit : decimal arg < 2147483648 := lt_trans h (by norm_num)
  rw [shiftUint, parseint_eq]
  split
  case h_1 => exact rfl
  case h_2 out hout =>
    obtain ⟨-, hout⟩ := ite_none_left_eq_some.mp hout
    obtain rfl := Option.some.inj hout
    split
    · exact rfl
    · exact i32_decimal hfit

lemma ends_countOf {count : Option (List UInt8)} (h : countOf count < 67108864) :
    Ends (count.elim (.ok 1) shiftUint) (· = countOf count) (· = .fail) := by
  cases count with
  | none => exact rfl
  | some arg => exact ends_shiftUint h

/-- What was typed is there, and there was room for it. -/
theorem ask_spec {input p : List UInt8} {len : ℕ} (h : ask input len = .ok p) :
    p ≠ [] ∧ p.length < len := by
  rw [ask] at h
  split at h
  case isTrue => cases h
  case isFalse hroom =>
    have hlen : (if input.getLast? = some 10 then input.dropLast else input).length ≤
        input.length := by
      split
      · rw [length_dropLast]
        omega
      · exact le_refl _
    dsimp only at h
    generalize (if input.getLast? = some 10 then input.dropLast else input) = q at h hlen
    split at h
    case isTrue => cases h
    case isFalse hne =>
      cases h
      exact ⟨hne, by omega⟩

lemma ends_prepPassphrase {buf : List UInt8} :
    Ends (prepPassphrase scrypt buf phrase again)
      (fun kek => (phraseOf phrase ≠ [] ∧ (phraseOf phrase).length < 80) ∧
        kek = scrypt (phraseOf phrase) (buf.take 8))
      (· = .fail) := by
  refine ends_ask.bind fun p hp => ends_ask.bind fun r _ => ends_refuse.bind fun _ _ => ?_
  rw [phraseOf_eq hp]
  exact ⟨ask_spec hp, rfl⟩

lemma readRandom_full {off size : ℕ} (h : size ≤ src.rnd.length) :
    readRandom src off size = src.rnd.take size := by
  have hlen : (src.rnd.take size).length = size := by
    rw [length_take]
    omega
  rw [readRandom, hlen, Nat.sub_self, pread, take_zero, append_nil]

lemma length_keysFrom (n : ℕ) (rnd : List UInt8) : (keysFrom n rnd).length = n := by
  rw [keysFrom, length_map, length_range]

lemma whole_keysFrom {n : ℕ} {rnd : List UInt8} (h : 32 * n ≤ rnd.length) :
    ∀ k ∈ keysFrom n rnd, k.length = 32 := by
  intro k hk
  obtain ⟨i, hi, rfl⟩ := mem_map.mp hk
  have hlt := mem_range.mp hi
  rw [piece, pread, length_take, length_drop]
  omega

/-- What `create` is about to wrap. -/
theorem fillKeyData_eq {n : ℕ} (h : 16 + 32 * n ≤ src.rnd.length) (p : List UInt8) :
    fillKeyData src (16 + 32 * n) =
      (Ring.mk p (keysFrom n (src.rnd.drop 16))).plain (src.rnd.take 8) := by
  rw [fillKeyData, readRandom_full h, Ring.plain, keysFrom, flatten_map_piece, take_take,
    Nat.min_eq_left (by omega), drop_take, Nat.add_sub_cancel_left]

/-- **A new keyfile is that of its ring.** -/
theorem ends_createKeyfile {count : ℤ} {n : ℕ} (hcount : count = n) (hn : n < 67108864)
    (hrnd : 16 + 32 * n ≤ 1024 → 16 + 32 * n ≤ src.rnd.length) :
    Ends (createKeyfile scrypt count src phrase again)
      (fun f => ∃ salt, Wrapped scrypt ⟨phraseOf phrase, keysFrom n (src.rnd.drop 16)⟩ salt f)
      (· = .fail) := by
  have htotal : i32 (16 + i32 (count * 32)) = 16 + 32 * n := by
    have hbytes : i32 (count * 32) = 32 * n := by
      rw [i32_of_range (by omega) (by omega)]
      omega
    rw [hbytes, i32_of_range (by omega) (by omega)]
  have hnat : (16 + 32 * (n : ℤ)).toNat = 16 + 32 * n := by omega
  rw [createKeyfile, htotal, hnat]
  refine ends_refuse.bind fun _ hfits => ends_prepPassphrase.bind fun kek hkek => ?_
  obtain ⟨htyped, hkek⟩ := hkek
  have hfull := hrnd (by omega)
  have hplain := fillKeyData_eq hfull (phraseOf phrase)
  have hsalt : (src.rnd.take 8).length = 8 := by
    rw [length_take]
    omega
  have htake : (fillKeyData src (16 + 32 * n)).take 8 = src.rnd.take 8 := by
    rw [hplain, Ring.plain, take_left' hsalt]
  refine ⟨src.rnd.take 8, ⟨htyped.1, htyped.2, whole_keysFrom ?_, ?_⟩, hsalt, ?_⟩
  · rw [length_drop]
    omega
  · rw [length_keysFrom]
    omega
  · rw [hkek, htake, hplain]

/-- **Keys are appended to a ring.** -/
theorem ends_appendKeyData {ring : Ring} {salt : List UInt8} {kek : Bytes 16} {n : ℕ}
    (h : ring.Sound) (hsalt : salt.length = 8) (hn : n < 67108864)
    (hrnd : 16 + 32 * ring.keys.length + 32 * n ≤ 1024 → 32 * n ≤ src.rnd.length) :
    Ends (appendKeyData ⟨ring.plain salt, kek⟩ (32 * n) src)
      (fun kf => (Ring.mk ring.phrase (ring.keys ++ keysFrom n src.rnd)).Sound ∧
        kf = ⟨(Ring.mk ring.phrase (ring.keys ++ keysFrom n src.rnd)).plain salt, kek⟩)
      (· = .fail) := by
  have hlen := h.length_plain hsalt
  have hcount := h.count
  have hsum : u32 ((ring.plain salt).length + 32 * n) = (ring.plain salt).length + 32 * n :=
    u32_of_lt (by omega)
  rw [appendKeyData]
  rw [hsum]
  refine ends_refuse.bind fun _ hfits => ?_
  rw [refuse, if_neg hfits]
  rw [hlen] at hfits
  have hfull := hrnd (by omega)
  refine ⟨⟨h.typed, h.short, fun k hk => ?_, ?_⟩, ?_⟩
  · rcases mem_append.mp hk with hk | hk
    · exact h.whole k hk
    · exact whole_keysFrom hfull k hk
  · show (ring.keys ++ keysFrom n src.rnd).length ≤ 31
    rw [length_append, length_keysFrom]
    omega
  · rw [readRandom_full hfull, Ring.plain, Ring.plain, flatten_append, keysFrom,
      flatten_map_piece, append_assoc, append_assoc]

variable {w : World}

lemma World.Kept.update (hw : w.Kept scrypt) {name salt f : List UInt8} {ring : Ring}
    (h : Wrapped scrypt ring salt f) :
    World.Kept scrypt
      ⟨Function.update w.files name (some f), Function.update w.rings name (some ring)⟩ := by
  intro other
  by_cases heq : other = name
  · subst heq
    exact .inr ⟨f, ring, salt, Function.update_self .., Function.update_self .., h⟩
  · show (Function.update w.files name (some f) other = none ∧
        Function.update w.rings name (some ring) other = none) ∨
      ∃ f' ring' salt', Function.update w.files name (some f) other = some f' ∧
        Function.update w.rings name (some ring) other = some ring' ∧ Wrapped scrypt ring' salt' f'
    rw [Function.update_of_ne heq, Function.update_of_ne heq]
    exact hw other

/-- Opening a file finds the keyfile of a ring. -/
theorem World.Kept.ends_read (hw : w.Kept scrypt) (name : List UInt8) :
    Ends (w.files.read name)
      (fun f => ∃ ring salt, w.rings name = some ring ∧ Wrapped scrypt ring salt f)
      (· = .fail) := by
  rw [Files.read]
  rcases hw name with ⟨hf, -⟩ | ⟨f, ring, salt, hf, hring, h⟩
  · rw [hf]
    exact rfl
  · rw [hf]
    exact ⟨ring, salt, hring, h⟩

/-- What is written covers what was there. -/
theorem overwrite_eq {old new : List UInt8} (h : old.length ≤ new.length) :
    overwrite old new = new := by
  rw [overwrite, drop_of_length_le h, append_nil]

/-- What has become of the files and the rings, if no write has failed. -/
abbrev Done (scrypt : Scrypt) (rings : Rings) (out : ℤ × Files) : Prop :=
  0 ≤ out.1 ∧ World.Kept scrypt ⟨out.2, rings⟩

/-- **The keyfile of a ring is written**, over one that was not longer. -/
theorem World.Kept.ends_write (hw : w.Kept scrypt) {name salt old f : List UInt8}
    {ring : Ring} (h : Wrapped scrypt ring salt f) (hlen : old.length ≤ f.length)
    {disk : Option Outcomes} (hdisk : ∀ o, disk = some o → ∀ k, 0 < o k) :
    Ends (w.files.write name old disk f)
      (Done scrypt (Function.update w.rings name (some ring))) (· = .fail) := by
  cases disk with
  | none => exact rfl
  | some o =>
    have hwr : 0 ≤ (writeall o f ⟨0, []⟩).1 := writeallFrom_nonneg (hdisk o rfl) (Int.le_refl 0)
    have hall : (writeall o f ⟨0, []⟩).2.written = f := writeall_written hwr
    refine ⟨hwr, ?_⟩
    show World.Kept scrypt ⟨Function.update w.files name
      (some (overwrite old (writeall o f ⟨0, []⟩).2.written)), _⟩
    rw [hall, overwrite_eq hlen]
    exact hw.update h

/-- **A command keeps the files those of their rings, or fails.** -/
theorem World.Kept.ends_run {cmd : Cmd} (hw : w.Kept scrypt) (hmatch : Matching w cmd)
    (hcount : Counted w cmd) (hdisk : cmd.Written) :
    Ends (cmd.run scrypt w.files) (Done scrypt (w.rings.after cmd)) (· = .fail) := by
  cases cmd with
  | create name count src phrase again disk =>
    obtain ⟨hfit, hrnd⟩ := hcount
    refine (ends_countOf hfit).bind fun n hn => ends_refuse.bind fun _ _ => ?_
    refine (ends_createKeyfile hn hfit hrnd).bind fun f hf => ?_
    obtain ⟨salt, hf⟩ := hf
    exact hw.ends_write hf (Nat.zero_le _) hdisk
  | crover name count src phrase again disk =>
    obtain ⟨hfit, hrnd⟩ := hcount
    refine (ends_countOf hfit).bind fun n hn => ?_
    refine (ends_createKeyfile hn hfit hrnd).bind fun f hf => ?_
    obtain ⟨salt, hf⟩ := hf
    exact hw.ends_write hf (Nat.zero_le _) hdisk
  | add name count src phrase disk =>
    obtain ⟨hn, hrnd⟩ := hcount
    refine (ends_shiftUint hn).bind fun n hval => (hw.ends_read name).bind fun f hf => ?_
    obtain ⟨ring, salt, hring, hf⟩ := hf
    have hneed : (i32 (n * 32) % 4294967296).toNat = 32 * decimal count := by
      rw [hval, i32_of_range (by omega) (by omega)]
      omega
    rw [hf.loadKeyfile (hmatch ring hring), hneed]
    refine (ends_appendKeyData hf.sound hf.size hn (hrnd ring hring)).bind fun kf hkf => ?_
    obtain ⟨hsound, rfl⟩ := hkf
    have hnew : Wrapped scrypt ⟨ring.phrase, ring.keys ++ keysFrom (decimal count) src.rnd⟩ salt
        (writeKeyfile ⟨(Ring.mk ring.phrase (ring.keys ++ keysFrom (decimal count) src.rnd)).plain
          salt, scrypt ring.phrase salt⟩) := ⟨hsound, hf.size, rfl⟩
    have hlen := hnew.length_file
    rw [length_append] at hlen
    show Ends _ (Done scrypt (Function.update w.rings name ((w.rings name).map _))) _
    rw [hring]
    exact hw.ends_write hnew (by rw [hf.length_file, hlen]; omega) hdisk
  | repass name old phrase again disk =>
    refine (hw.ends_read name).bind fun f hf => ?_
    obtain ⟨ring, salt, hring, hf⟩ := hf
    rw [hf.loadKeyfile (hmatch ring hring)]
    refine ends_prepPassphrase.bind fun kek hkek => ?_
    obtain ⟨htyped, hkek⟩ := hkek
    have htake : (ring.plain salt).take 8 = salt := take_left' hf.size
    rw [htake] at hkek
    have hnew : Wrapped scrypt ⟨phraseOf phrase, ring.keys⟩ salt
        (writeKeyfile ⟨ring.plain salt, kek⟩) := by
      refine ⟨⟨htyped.1, htyped.2, hf.sound.whole, hf.sound.count⟩, hf.size, ?_⟩
      rw [hkek]
      rfl
    show Ends _ (Done scrypt (Function.update w.rings name ((w.rings name).map _))) _
    rw [hring]
    exact hw.ends_write hnew (by rw [hnew.length_file, hf.length_file]) hdisk

/-- **And so does every run.** -/
theorem kept_run (h : Reach World.init (World.step scrypt)
      (fun w cmd => Matching w cmd ∧ Counted w cmd ∧ cmd.Written) w) :
    w.Kept scrypt := by
  refine h.invariant (fun w hw name => .inl ⟨hw.1 name, hw.2 name⟩) fun w cmd w' hw hok hs => ?_
  have hends := hw.ends_run hok.1 hok.2.1 hok.2.2
  rw [World.step] at hs
  cases hrun : cmd.run scrypt w.files with
  | ok out =>
    rw [hrun] at hs hends
    obtain ⟨hwr, hkept⟩ := hends
    dsimp only at hs
    rw [if_neg (by omega)] at hs
    exact Option.some.inj hs ▸ hkept
  | error e =>
    rw [hrun] at hs hends
    obtain rfl : e = .fail := hends
    exact Option.some.inj hs ▸ hw

end

end Minibase.Dcrypt
