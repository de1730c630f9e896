import Minibase.Format.Fmt
import Minibase.Lib.Bytes
import Minibase.Lib.Records
import Minibase.Lib.Runs
import Minibase.Lib.Strings

/-!
# The modes of interfaces

`ifctl_config.c` keeps which interface is for which mode in a file of records, 64 bytes each.
What it is for is a map from devices to modes, `Ifctl.Db`, and the file is that map
(`Ifctl.Keeps`) only as long as nothing slips. `delete_entry` takes a distance between records
for one between bytes; `clear_entries` zeroes records, which nothing reuses, so that storing
fails once there have been 64; `load_device_mode` wants room for one byte more than there is.
`Ifctl.Fits` leaves these out, and then **the file is the map** (`Ifctl.file_is_map`), except
that who asks for the mode of a device that has none gets to see what was on the stack.
-/

namespace Minibase.Ifctl

open List Option Function Mem Format

/-! ### The buffer -/

abbrev DEVIDLEN : ℕ := 46

abbrev MODESIZE : ℕ := 16

/-- `sizeof(struct cfgent)`. -/
abbrev sizeofCfgent : ℕ := 64

abbrev maxsize : ℕ := 64 * sizeofCfgent

/-- `struct config`; addresses are counted from `buf`. -/
structure Config where
  len : ℕ
  cap : ℕ
  mem : Mem

/-- The file, if it is there. -/
abbrev File := Option (List UInt8)

/-- `read_config`, and whether it succeeds. `data` is what is on the stack. -/
def readConfig (file : File) (data : Mem) : Bool × Config :=
  match file with
  | none => (false, ⟨0, maxsize, data⟩)
  | some bs =>
    if bs.length > maxsize then (false, ⟨0, maxsize, data⟩)
    else (true, ⟨bs.length, maxsize, data.store 0 bs⟩)

def writeConfig (cfg : Config) : File :=
  if cfg.len = 0 then none else some (cfg.mem.load 0 cfg.len)

/-! ### Records in the buffer -/

def configEntry (cfg : Config) (p : ℕ) : Option ℕ :=
  if p + sizeofCfgent > cfg.len then none else some p

def firstEntry (cfg : Config) : Option ℕ := configEntry cfg 0

def nextEntry (cfg : Config) (ce : ℕ) : Option ℕ := configEntry cfg (ce + sizeofCfgent)

/-- The loop of `clear_entries`. -/
def clearFrom (mode : List UInt8) : ℕ → Option ℕ → Config → Config
  | k + 1, some ce, cfg =>
    clearFrom mode k (nextEntry cfg ce)
      (if strncmp cfg.mem (store (fun _ => 0) 0 mode) MODESIZE ce 0 = 0 then
        { cfg with mem := cfg.mem.store ce (replicate sizeofCfgent 0) }
      else cfg)
  | _, _, cfg => cfg

def clearEntries (cfg : Config) (mode : List UInt8) : Config :=
  if mode.length > MODESIZE - 1 then cfg else clearFrom mode cfg.len (firstEntry cfg) cfg

/-- The loop of `find_entry`. -/
def findFrom (devid : Bytes DEVIDLEN) (cfg : Config) : ℕ → Option ℕ → Option ℕ
  | k + 1, some ce =>
    if cfg.mem.load (ce + MODESIZE) DEVIDLEN = devid.data then some ce
    else findFrom devid cfg k (nextEntry cfg ce)
  | _, _ => none

def findEntry (cfg : Config) (devid : Bytes DEVIDLEN) : Option ℕ :=
  findFrom devid cfg cfg.len (firstEntry cfg)

def createEntry (cfg : Config) : Option (ℕ × Config) :=
  if cfg.len + sizeofCfgent > cfg.cap then none
  else some (cfg.len,
    { cfg with len := cfg.len + sizeofCfgent, mem := cfg.mem.store (cfg.len + 62) [0, 10] })

def setDeviceMode (cfg : Config) (devid : Bytes DEVIDLEN) (mode : List UInt8) : Config :=
  if mode.length > MODESIZE - 1 then cfg
  else
    match findEntry cfg devid with
    | some ce => { cfg with mem := cfg.mem.store ce (mode ++ [0]) }
    | none =>
      match createEntry cfg with
      | none => cfg
      | some (ce, cfg) =>
        { cfg with mem := (cfg.mem.store ce (mode ++ [0])).store (ce + MODESIZE) devid.data }

/-- `delete_entry`: a difference of pointers counts records. -/
def deleteEntry (cfg : Config) (ce : ℕ) : Config :=
  match nextEntry cfg ce with
  | some cn =>
    let ts := cn / sizeofCfgent
    let tl := cfg.len - ts
    let hl := ce / sizeofCfgent
    { cfg with mem := cfg.mem.store ce (cfg.mem.load cn tl), len := hl + tl }
  | none => { cfg with len := ce / sizeofCfgent }

/-! ### The commands -/

/-- Whether `devid[0]` is nonzero. -/
def identified (devid : Bytes DEVIDLEN) : Bool := devid.data.headD 0 != 0

def storeDeviceMode (devid : Bytes DEVIDLEN) (mode : List UInt8) (data : Mem) (file : File) :
    File :=
  if !identified devid then file
  else
    writeConfig (setDeviceMode (clearEntries (readConfig file data).2 mode) devid mode)

def storeDeviceAlso (devid : Bytes DEVIDLEN) (mode : List UInt8) (data : Mem) (file : File) :
    File :=
  if !identified devid then file
  else writeConfig (setDeviceMode (readConfig file data).2 devid mode)

def clearDeviceEntry (devid : Bytes DEVIDLEN) (data : Mem) (file : File) : File :=
  if !identified devid then file
  else
    match readConfig file data with
    | (false, _) => file
    | (true, cfg) =>
      match findEntry cfg devid with
      | none => file
      | some ce => writeConfig (deleteEntry cfg ce)

/-- `load_device_mode`: what is in the buffer `mode` of `size` bytes afterwards. -/
def loadDeviceMode (devid : Bytes DEVIDLEN) (mode : Mem) (size : ℕ) (data : Mem) (file : File) :
    Mem :=
  if !identified devid then mode
  else
    match readConfig file data with
    | (false, _) => mode
    | (true, cfg) =>
      match findEntry cfg devid with
      | none => mode
      | some ce =>
        let len := countNonzero cfg.mem ce MODESIZE
        if len ≥ size - 1 then mode else mode.store 0 (cfg.mem.load ce (len + 1))

/-- `req_identify`, of a device with an id: the mode that is requested, if one is. `mode` is what is
on the stack. -/
def reqIdentify (devid : Bytes DEVIDLEN) (mode data : Mem) (file : File) : Option (List UInt8) :=
  if !identified devid then none
  else
    let mode := loadDeviceMode devid mode MODESIZE data file
    if mode 0 = 0 then none else some (mode.load 0 (countNonzero mode 0 1024))

/-! ### The map -/

/-- A device that has an id. -/
structure Dev where
  id : Bytes DEVIDLEN
  named : identified id = true
deriving DecidableEq

/-- A mode that a record has room for. -/
structure Mode where
  chars : List UInt8
  noNul : 0 ∉ chars
  pos : 0 < chars.length
  small : chars.length < MODESIZE
deriving DecidableEq

/-- **What is stored**: for each device the mode it is for. -/
abbrev Db := Dev → Option Mode

/-- What is asked of `ifctl`. -/
inductive Req
  | store (d : Dev) (md : Mode)
  | also (d : Dev) (md : Mode)
  | clear (d : Dev)
deriving DecidableEq

/-- **What a request is for.** A mode that is stored is taken from who else has it. -/
def Req.apply : Req → Db → Db
  | .store d md, db => update (fun x => if db x = some md then none else db x) d (some md)
  | .also d md, db => update db d (some md)
  | .clear d, db => update db d none

/-- What a request does to the file. -/
def Req.run (data : Mem) : Req → File → File
  | .store d md => storeDeviceMode d.id md.chars data
  | .also d md => storeDeviceAlso d.id md.chars data
  | .clear d => clearDeviceEntry d.id data

/-- The file, and what it should be. -/
structure State where
  file : File
  db : Db

/-- A request, with what is on the stack. -/
def State.step (s : State) (e : Req × Mem) : Option State :=
  some ⟨e.1.run e.2 s.file, e.1.apply s.db⟩

/-- There is no file at first. -/
def Started (s : State) : Prop := s = ⟨none, fun _ => none⟩

/-- What is in the file; an absent one is empty. -/
def content (f : File) : List UInt8 := f.getD []

/-- **What a request must find**, for nothing to slip. -/
def Fits (s : State) (e : Req × Mem) : Prop :=
  match e.1 with
  | .store d md => md.chars.length < MODESIZE - 1 ∧
      ((content s.file).length < maxsize ∨ s.db d ≠ none ∧ s.db d ≠ some md)
  | .also d md => md.chars.length < MODESIZE - 1 ∧
      ((content s.file).length < maxsize ∨ s.db d ≠ none)
  | .clear d => s.db d = none ∨ (content s.file).length = sizeofCfgent

/-! ### Finding a record -/

section Find

variable {cfg : Config} {n : ℕ}

lemma configEntry_eq (hlen : cfg.len = 64 * n) (j : ℕ) :
    configEntry cfg (64 * j) = if j < n then some (64 * j) else none := by
  rw [configEntry, hlen, sizeofCfgent]
  by_cases h : j < n
  · rw [if_pos h, if_neg (by omega)]
  · rw [if_neg h, if_pos (by omega)]

lemma nextEntry_eq (hlen : cfg.len = 64 * n) (j : ℕ) :
    nextEntry cfg (64 * j) = if j + 1 < n then some (64 * (j + 1)) else none :=
  configEntry_eq hlen (j + 1)

/-- Whether the record is of a device. -/
theorem load_id_iff {m : Mem} {p : ℕ} {devid : Bytes DEVIDLEN} :
    m.load p DEVIDLEN = devid.data ↔ m.Holds p devid.data := by
  rw [holds_iff_load, devid.length_data]

/-- From a record on, the loop finds the next one of the device. -/
theorem findFrom_spec (hlen : cfg.len = 64 * n) (devid : Bytes DEVIDLEN) (k j : ℕ)
    (hk : n ≤ j + k) :
    (∃ i, j ≤ i ∧ i < n ∧ cfg.mem.Holds (64 * i + 16) devid.data ∧
      findFrom devid cfg k (if j < n then some (64 * j) else none) = some (64 * i)) ∨
    (findFrom devid cfg k (if j < n then some (64 * j) else none) = none ∧
      ∀ i, j ≤ i → i < n → ¬cfg.mem.Holds (64 * i + 16) devid.data) := by
  induction k generalizing j with
  | zero =>
    refine .inr ⟨?_, fun i h1 h2 => by omega⟩
    rw [if_neg (by omega), findFrom.eq_def]
  | succ k ih =>
    by_cases hj : j < n
    · rw [if_pos hj, findFrom]
      by_cases hid : cfg.mem.Holds (64 * j + 16) devid.data
      · rw [if_pos (load_id_iff.mpr hid)]
        exact .inl ⟨j, le_rfl, hj, hid, rfl⟩
      · rw [if_neg (fun h => hid (load_id_iff.mp h)), nextEntry_eq hlen]
        rcases ih (j + 1) (by omega) with ⟨i, h1, hrest⟩ | ⟨hnone, hall⟩
        · exact .inl ⟨i, by omega, hrest⟩
        · refine .inr ⟨hnone, fun i h1 h2 => ?_⟩
          rcases Nat.eq_or_lt_of_le h1 with rfl | h1
          · exact hid
          · exact hall i h1 h2
    · rw [if_neg hj]
      exact .inr ⟨rfl, fun i h1 h2 => by omega⟩

/-- **A record is found** if there is one. -/
theorem findEntry_spec (hlen : cfg.len = 64 * n) (devid : Bytes DEVIDLEN) :
    (∃ i < n, cfg.mem.Holds (64 * i + 16) devid.data ∧ findEntry cfg devid = some (64 * i)) ∨
    (findEntry cfg devid = none ∧ ∀ i < n, ¬cfg.mem.Holds (64 * i + 16) devid.data) := by
  have h := findFrom_spec hlen devid cfg.len 0 (by omega)
  rw [← configEntry_eq hlen 0] at h
  rcases h with ⟨i, -, h1, h2, h3⟩ | ⟨h1, h2⟩
  · exact .inl ⟨i, h1, h2, h3⟩
  · exact .inr ⟨h1, fun i hi => h2 i (Nat.zero_le i) hi⟩

end Find

/-! ### Clearing records -/

section Clear

variable {cfg : Config} {n : ℕ} {md : List UInt8}

/-- What the loop of `clear_entries` leaves in memory, from a record on. -/
structure Wiped (m m' : Mem) (md : List UInt8) (n j : ℕ) : Prop where
  /-- the records with the mode are zeros -/
  gone : ∀ i, j ≤ i → i < n → m.Holds (64 * i) (md ++ [0]) → m'.Holds (64 * i) (replicate 64 0)
  /-- the other ones are as they were -/
  kept : ∀ i, i < j ∨ ¬m.Holds (64 * i) (md ++ [0]) → ∀ a, 64 * i ≤ a → a < 64 * (i + 1) →
    m' a = m a

lemma Wiped.refl {m : Mem} {j : ℕ} (hj : n ≤ j) : Wiped m m md n j :=
  ⟨fun i h1 h2 => by omega, fun _ _ _ _ _ => rfl⟩

lemma clearFrom_spec (hlen : cfg.len = 64 * n) (h0 : 0 ∉ md) (hmd : md.length < 16) (k j : ℕ)
    (hk : n ≤ j + k) :
    ∃ m', clearFrom md k (if j < n then some (64 * j) else none) cfg = { cfg with mem := m' } ∧
      Wiped cfg.mem m' md n j := by
  induction k generalizing j cfg with
  | zero =>
    rw [if_neg (by omega), clearFrom.eq_def]
    exact ⟨cfg.mem, rfl, .refl (by omega)⟩
  | succ k ih =>
    by_cases hj : j < n
    · rw [if_pos hj, clearFrom, nextEntry_eq hlen]
      have hmode : (store (fun _ => 0) 0 md).Holds 0 (md ++ [0]) := by
        refine holds_append.mpr ⟨holds_store _ 0 md, ?_⟩
        rw [holds_cons]
        exact ⟨store_of_not_mem (by omega), holds_nil _ _⟩
      have hcmp : strncmp cfg.mem (store (fun _ => 0) 0 md) MODESIZE (64 * j) 0 = 0 ↔ _ :=
        strncmp_eq_zero_of_lt h0 hmode hmd
      by_cases hhere : cfg.mem.Holds (64 * j) (md ++ [0])
      · rw [if_pos (hcmp.mpr hhere)]
        obtain ⟨m', hrun, hw⟩ := @ih
          { cfg with mem := cfg.mem.store (64 * j) (List.replicate sizeofCfgent 0) } hlen (j + 1)
          (by omega)
        refine ⟨m', hrun, ?_, ?_⟩
        · intro i h1 h2 hmd'
          rcases Nat.eq_or_lt_of_le h1 with rfl | h1
          · -- the record itself, which the rest of the loop leaves alone
            refine (holds_store cfg.mem (64 * j) (List.replicate sizeofCfgent 0)).congr
              fun a h3 h4 => hw.kept j (.inl (Nat.lt_succ_self j)) a h3 ?_
            rw [length_replicate, sizeofCfgent] at h4
            omega
          · refine hw.gone i h1 h2 (hmd'.store (.inl ?_))
            rw [length_replicate, sizeofCfgent]
            omega
        · intro i hi a h1 h2
          have hne : i ≠ j := by
            rintro rfl
            exact hi.elim (Nat.lt_irrefl i) (fun h => h hhere)
          have hout : (cfg.mem.store (64 * j) (List.replicate sizeofCfgent 0)) a = cfg.mem a := by
            refine store_of_not_mem ?_
            rw [length_replicate, sizeofCfgent]
            omega
          refine (hw.kept i ?_ a h1 h2).trans hout
          rcases Nat.lt_or_ge i (j + 1) with hlt | hge
          · exact .inl hlt
          · refine .inr fun h => hi.elim (fun h => by omega) fun h' =>
              h' (h.congr fun b h3 h4 => ?_)
            refine (store_of_not_mem (.inr ?_)).symm
            rw [length_replicate, sizeofCfgent]
            omega
      · rw [if_neg (fun h => hhere (hcmp.mp h))]
        obtain ⟨m', hrun, hw⟩ := ih hlen (j + 1) (by omega)
        refine ⟨m', hrun, ?_, ?_⟩
        · intro i h1 h2 hmd'
          rcases Nat.eq_or_lt_of_le h1 with rfl | h1
          · exact absurd hmd' hhere
          · exact hw.gone i h1 h2 hmd'
        · intro i hi a h1 h2
          refine hw.kept i ?_ a h1 h2
          exact hi.imp_left Nat.lt_succ_of_lt
    · rw [if_neg hj, clearFrom.eq_def]
      exact ⟨cfg.mem, rfl, .refl (by omega)⟩

/-- **The records with a mode are cleared**, and no others. -/
theorem clearEntries_spec (hlen : cfg.len = 64 * n) (h0 : 0 ∉ md) (hmd : md.length < 16) :
    ∃ m', clearEntries cfg md = { cfg with mem := m' } ∧ Wiped cfg.mem m' md n 0 := by
  have h := clearFrom_spec hlen h0 hmd cfg.len 0 (by omega)
  rw [← configEntry_eq hlen 0] at h
  rwa [clearEntries, if_neg (by rw [ MODESIZE]; omega)]

end Clear

/-! ### The map in the buffer -/

/-- **The records are the map.** -/
structure Keeps (m : Mem) (n : ℕ) (db : Db) : Prop where
  /-- a record of a device has the mode of the device -/
  live : ∀ i < n, ∀ d : Dev, m.Holds (64 * i + 16) d.id.data →
    ∃ md, db d = some md ∧ m.Holds (64 * i) (md.chars ++ [0])
  /-- a device with a mode has a record -/
  found : ∀ d, db d ≠ none → ∃ i < n, m.Holds (64 * i + 16) d.id.data
  /-- and only one -/
  once : ∀ i < n, ∀ j < n, ∀ d : Dev, m.Holds (64 * i + 16) d.id.data →
    m.Holds (64 * j + 16) d.id.data → i = j

section Map

variable {m m' : Mem} {n : ℕ} {db : Db}

lemma Mode.lt (md : Mode) : (md.chars ++ [0]).length ≤ 16 := by
  have h : md.chars.length < 16 := md.small
  rw [length_append, length_singleton]
  omega

lemma Dev.length_id (d : Dev) : d.id.data.length = 46 := d.id.length_data

lemma Keeps.congr (h : Keeps m n db) (hm : ∀ a < 64 * n, m' a = m a) : Keeps m' n db := by
  have hid {i : ℕ} (hi : i < n) (d : Dev) :
      m'.Holds (64 * i + 16) d.id.data ↔ m.Holds (64 * i + 16) d.id.data := by
    have hl := d.length_id
    exact ⟨fun hh => hh.congr fun a _ _ => (hm a (by omega)).symm,
      fun hh => hh.congr fun a _ _ => hm a (by omega)⟩
  refine ⟨?_, ?_, ?_⟩
  · intro i hi d hd
    obtain ⟨md, h1, h2⟩ := h.live i hi d ((hid hi d).mp hd)
    exact ⟨md, h1, h2.congr fun a _ _ => hm a (by have := md.lt; omega)⟩
  · intro d hd
    obtain ⟨i, hi, h1⟩ := h.found d hd
    exact ⟨i, hi, (hid hi d).mpr h1⟩
  · exact fun i hi j hj d h1 h2 => h.once i hi j hj d ((hid hi d).mp h1) ((hid hj d).mp h2)

/-- **Clearing a mode in all records** takes it from who has it. -/
theorem Keeps.wiped (h : Keeps m n db) {md : Mode} (hw : Wiped m m' md.chars n 0) :
    Keeps m' n (fun x => if db x = some md then none else db x) := by
  -- a record that still has an id had another mode, and is as it was
  have hold {i : ℕ} (hi : i < n) {d : Dev} (hd : m'.Holds (64 * i + 16) d.id.data) :
      ¬m.Holds (64 * i) (md.chars ++ [0]) ∧ m.Holds (64 * i + 16) d.id.data := by
    have hlive : ¬m.Holds (64 * i) (md.chars ++ [0]) := by
      intro hmd
      have hzero := hw.gone i (Nat.zero_le i) hi hmd
      have h0 : m' (64 * i + 16) = 0 := hzero 16 (by decide)
      have hnamed := d.named
      obtain ⟨b, l, hbl⟩ : ∃ b l, d.id.data = b :: l := by
        refine exists_cons_of_length_pos ?_
        rw [d.id.length_data]
        decide
      rw [hbl] at hd
      rw [identified, hbl, headD_cons, ← (holds_cons.mp hd).1, h0] at hnamed
      exact Bool.noConfusion hnamed
    have hl := d.length_id
    exact ⟨hlive, hd.congr fun a h1 h2 =>
      (hw.kept i (.inr hlive) a (by omega) (by omega)).symm⟩
  refine ⟨?_, ?_, ?_⟩
  · intro i hi d hd
    obtain ⟨hne, hd'⟩ := hold hi hd
    obtain ⟨md', h1, h2⟩ := h.live i hi d hd'
    refine ⟨md', ?_, h2.congr fun a h3 h4 => hw.kept i (.inr hne) a h3 (by have := md'.lt; omega)⟩
    rw [if_neg, h1]
    rw [h1]
    rintro hmd
    cases hmd
    exact hne h2
  · intro d hd
    have hne : db d ≠ some md := fun hmd => hd (if_pos hmd)
    rw [if_neg hne] at hd
    obtain ⟨i, hi, h1⟩ := h.found d hd
    obtain ⟨md', h2, h3⟩ := h.live i hi d h1
    have hother : ¬m.Holds (64 * i) (md.chars ++ [0]) := by
      intro hmd
      have heq := Mem.Holds.string_eq md.noNul md'.noNul hmd h3
      refine hne (h2.trans (congrArg some ?_))
      cases md
      cases md'
      cases heq
      rfl
    have hl := d.length_id
    exact ⟨i, hi, h1.congr fun a h4 h5 => hw.kept i (.inr hother) a (by omega) (by omega)⟩
  · exact fun i hi j hj d h1 h2 => h.once i hi j hj d (hold hi h1).2 (hold hj h2).2

/-- No device has two ids. -/
theorem Dev.eq_of_holds {d d' : Dev} {p : ℕ} (h : m.Holds p d.id.data) (h' : m.Holds p d'.id.data) :
    d = d' := by
  have h1 := holds_iff_load.mp h
  have h2 := holds_iff_load.mp h'
  rw [Dev.length_id] at h1 h2
  have heq : d.id = d'.id := Bytes.ext (h1.symm.trans h2)
  cases d
  cases d'
  cases heq
  rfl

/-- **Writing the record of a device**, one that is there or a new one, gives it a mode. -/
theorem Keeps.put (h : Keeps m n db) {i k : ℕ} {d : Dev} {md : Mode}
    (hk : ∀ j, j < k ↔ j < n ∨ j = i)
    (hother : ∀ j < n, j ≠ i → ∀ a, 64 * j ≤ a → a < 64 * (j + 1) → m' a = m a)
    (hmine : ∀ d' : Dev, i < n → m.Holds (64 * i + 16) d'.id.data → d' = d)
    (hno : ∀ j < n, j ≠ i → ¬m.Holds (64 * j + 16) d.id.data)
    (hmd : m'.Holds (64 * i) (md.chars ++ [0])) (hid : m'.Holds (64 * i + 16) d.id.data) :
    Keeps m' k (update db d (some md)) := by
  have hback {j : ℕ} (hj : j < k) (hne : j ≠ i) (d' : Dev) :
      j < n ∧ (m'.Holds (64 * j + 16) d'.id.data ↔ m.Holds (64 * j + 16) d'.id.data) := by
    have hl := d'.length_id
    have hn : j < n := ((hk j).mp hj).resolve_right hne
    exact ⟨hn, fun hh => hh.congr fun a _ _ => (hother j hn hne a (by omega) (by omega)).symm,
      fun hh => hh.congr fun a _ _ => hother j hn hne a (by omega) (by omega)⟩
  have hsame {d' : Dev} (hd' : m'.Holds (64 * i + 16) d'.id.data) : d' = d :=
    Dev.eq_of_holds hd' hid
  refine ⟨?_, ?_, ?_⟩
  · intro j hj d' hd'
    by_cases hji : j = i
    · subst hji
      obtain rfl := hsame hd'
      exact ⟨md, update_self .., hmd⟩
    · obtain ⟨hn, hiff⟩ := hback hj hji d'
      obtain ⟨md', h1, h2⟩ := h.live j hn d' (hiff.mp hd')
      have hne : d' ≠ d := by
        rintro rfl
        exact hno j hn hji (hiff.mp hd')
      refine ⟨md', (update_of_ne hne ..).trans h1, h2.congr fun a h3 h4 => ?_⟩
      exact hother j hn hji a h3 (by have := md'.lt; omega)
  · intro d' hd'
    by_cases hne : d' = d
    · subst hne
      exact ⟨i, (hk i).mpr (.inr rfl), hid⟩
    · rw [update_of_ne hne] at hd'
      obtain ⟨j, hj, h1⟩ := h.found d' hd'
      have hji : j ≠ i := by
        rintro rfl
        exact hne (hmine d' hj h1)
      exact ⟨j, (hk j).mpr (.inl hj), (hback ((hk j).mpr (.inl hj)) hji d').2.mpr h1⟩
  · intro j hj l hl d' h1 h2
    -- a record of the device is the one written, a record of another device is an old one
    by_cases hji : j = i <;> by_cases hli : l = i
    · rw [hji, hli]
    · subst hji
      obtain rfl := hsame h1
      exact absurd ((hback hl hli d').2.mp h2) (hno l (hback hl hli d').1 hli)
    · subst hli
      obtain rfl := hsame h2
      exact absurd ((hback hj hji d').2.mp h1) (hno j (hback hj hji d').1 hji)
    · exact h.once j (hback hj hji d').1 l (hback hl hli d').1 d' ((hback hj hji d').2.mp h1)
        ((hback hl hli d').2.mp h2)

/-- **A mode is set**, if the device has a record or there is room for one. -/
theorem setDeviceMode_spec (cfg : Config) (hlen : cfg.len = 64 * n) (hcap : cfg.cap = maxsize)
    (h : Keeps cfg.mem n db) (d : Dev) (md : Mode) (hn : n ≤ 64) (hroom : n < 64 ∨ db d ≠ none) :
    ∃ k ≤ 64, (setDeviceMode cfg d.id md.chars).len = 64 * k ∧
      Keeps (setDeviceMode cfg d.id md.chars).mem k (update db d (some md)) := by
  have hmd := md.lt
  have hid := d.length_id
  rw [length_append, length_singleton] at hmd
  have hsmall : ¬md.chars.length > MODESIZE - 1 := by
    rw [ MODESIZE]
    omega
  rw [setDeviceMode, if_neg hsmall]
  rcases findEntry_spec hlen d.id with ⟨i, hi, hholds, hfind⟩ | ⟨hfind, hnone⟩
  · rw [hfind]
    refine ⟨n, hn, hlen, h.put (i := i) (fun j => ?_) ?_ ?_ ?_ (holds_store _ _ _) ?_⟩
    · exact ⟨.inl, fun hj => hj.elim id fun hj => hj ▸ hi⟩
    · intro j _ hne a h1 h2
      refine store_of_not_mem ?_
      rw [length_append, length_singleton]
      omega
    · exact fun d' _ hd' => Dev.eq_of_holds hd' hholds
    · exact fun j hj hne hd => hne (h.once j hj i hi d hd hholds)
    · refine hholds.store (.inl ?_)
      rw [length_append, length_singleton]
      omega
  · rw [hfind]
    have hlt : n < 64 := by
      refine hroom.resolve_right fun hd => ?_
      obtain ⟨i, hi, hholds⟩ := h.found d hd
      exact hnone i hi hholds
    have hcreate : ¬cfg.len + sizeofCfgent > cfg.cap := by
      rw [hlen, hcap, maxsize, sizeofCfgent]
      omega
    rw [createEntry, if_neg hcreate]
    refine ⟨n + 1, hlt, by show cfg.len + 64 = _; omega,
      h.put (i := n) (fun j => Nat.lt_succ_iff_lt_or_eq) ?_ ?_ ?_ ?_ ?_⟩
    · intro j hj _ a h1 h2
      refine (store_of_not_mem (.inl ?_)).trans ((store_of_not_mem (.inl ?_)).trans
        (store_of_not_mem (.inl ?_))) <;> rw [hlen] <;> omega
    · exact fun _ hlt => absurd hlt (lt_irrefl n)
    · exact fun j hj _ => hnone j hj
    · show Mem.Holds (store _ (cfg.len + MODESIZE) d.id.data) (64 * n) _
      rw [hlen]
      refine (holds_store _ _ (md.chars ++ [0])).store (.inr ?_)
      rw [length_append, length_singleton, MODESIZE]
      omega
    · show Mem.Holds (store _ (cfg.len + MODESIZE) d.id.data) (64 * n + 16) _
      rw [hlen]
      exact holds_store _ _ _

end Map

/-! ### The map in the file -/

/-- **The file is the map**: whole records that are the map, wherever they are read to, and all of
them with modes that can be loaded. -/
structure Good (file : File) (db : Db) : Prop where
  records : ∃ n ≤ 64, (content file).length = 64 * n ∧ ∀ data : Mem,
    Keeps (data.store 0 (content file)) n db
  short : ∀ d md, db d = some md → md.chars.length < MODESIZE - 1

section File

variable {file : File} {db : Db} {n : ℕ}

lemma readConfig_spec (hn : n ≤ 64) (hlen : (content file).length = 64 * n) (data : Mem) :
    readConfig file data = (file.isSome, ⟨64 * n, maxsize, data.store 0 (content file)⟩) := by
  obtain - | bs := file
  · have h0 : 64 * n = 0 := hlen.symm
    rw [h0]
    exact congrArg (fun m => (false, (⟨0, maxsize, m⟩ : Config))) (store_nil data 0).symm
  · have hfit : ¬bs.length > maxsize := by
      have : bs.length = 64 * n := hlen
      rw [maxsize, sizeofCfgent]
      omega
    have hbs : bs.length = 64 * n := hlen
    rw [readConfig, if_neg hfit, hbs]
    rfl

lemma content_writeConfig (cfg : Config) : content (writeConfig cfg) = cfg.mem.load 0 cfg.len := by
  rw [writeConfig]
  split
  · rename_i h0
    rw [h0]
    rfl
  · rfl

/-- **What is written is what is read.** -/
theorem good_writeConfig {cfg : Config} (hn : n ≤ 64) (hlen : cfg.len = 64 * n)
    (h : Keeps cfg.mem n db) (hshort : ∀ d md, db d = some md → md.chars.length < MODESIZE - 1) :
    Good (writeConfig cfg) db := by
  refine ⟨⟨n, hn, ?_, fun data => h.congr fun a ha => ?_⟩, hshort⟩
  · rw [content_writeConfig, length_load, hlen]
  · rw [content_writeConfig, hlen]
    have hread := holds_store data 0 (cfg.mem.load 0 (64 * n)) a (by rwa [length_load])
    rw [zero_add, getElem_load, zero_add] at hread
    exact hread

/-- A device has a mode if it has a record. -/
theorem Keeps.find {m : Mem} {db : Db} {n : ℕ} (h : Keeps m n db) (cfg : Config)
    (hlen : cfg.len = 64 * n)
    (hm : cfg.mem = m) (d : Dev) :
    (db d = none ∧ findEntry cfg d.id = none) ∨
    ∃ i < n, ∃ md, db d = some md ∧ findEntry cfg d.id = some (64 * i) ∧
      m.Holds (64 * i) (md.chars ++ [0]) ∧ m.Holds (64 * i + 16) d.id.data := by
  subst hm
  rcases findEntry_spec hlen d.id with ⟨i, hi, hid, hfind⟩ | ⟨hfind, hno⟩
  · obtain ⟨md, h1, h2⟩ := h.live i hi d hid
    exact .inr ⟨i, hi, md, h1, hfind, h2, hid⟩
  · refine .inl ⟨?_, hfind⟩
    by_contra hne
    obtain ⟨i, hi, hid⟩ := h.found d hne
    exact hno i hi hid

/-- Giving a device a mode of this length keeps all modes short. -/
theorem short_update (h : ∀ d md, db d = some md → md.chars.length < MODESIZE - 1) {d : Dev}
    {md : Mode}
    (hmd : md.chars.length < MODESIZE - 1) :
    ∀ x v, update db d (some md) x = some v → v.chars.length < MODESIZE - 1 := by
  intro x v hx
  by_cases hxd : x = d
  · subst hxd
    rw [update_self] at hx
    exact Option.some.inj hx ▸ hmd
  · rw [update_of_ne hxd] at hx
    exact h x v hx

lemma lt_of_length_lt (hlen : (content file).length = 64 * n)
    (h : (content file).length < maxsize) : n < 64 := by
  rw [hlen, maxsize, sizeofCfgent] at h
  omega

/-- **Storing a mode** stores it, and takes it from the others. -/
theorem good_storeDeviceMode (h : Good file db) {d : Dev} {md : Mode} (data : Mem)
    (hfit : Fits ⟨file, db⟩ (.store d md, data)) :
    Good (storeDeviceMode d.id md.chars data file) ((Req.store d md).apply db) := by
  obtain ⟨⟨n, hn, hlen, hkeeps⟩, hshort⟩ := h
  obtain ⟨hmd, hroom⟩ := hfit
  have hsmall := md.lt
  rw [length_append, length_singleton] at hsmall
  rw [storeDeviceMode, d.named, readConfig_spec hn hlen]
  obtain ⟨m', hclear, hwiped⟩ := @clearEntries_spec ⟨64 * n, maxsize, data.store 0 (content file)⟩ n
    md.chars rfl md.noNul (by omega)
  have hkeeps' := (hkeeps data).wiped hwiped
  obtain ⟨k, hk, hlen', hset⟩ := setDeviceMode_spec ⟨64 * n, maxsize, m'⟩ rfl rfl hkeeps' d md hn
    (hroom.imp (lt_of_length_lt hlen) fun hd => by rw [if_neg hd.2]; exact hd.1)
  rw [hclear]
  refine good_writeConfig hk hlen' hset (short_update (fun x v hx => ?_) hmd)
  exact hshort x v (ite_none_left_eq_some.mp hx).2

/-- **Adding a device to a mode** stores the mode for it. -/
theorem good_storeDeviceAlso (h : Good file db) {d : Dev} {md : Mode} (data : Mem)
    (hfit : Fits ⟨file, db⟩ (.also d md, data)) :
    Good (storeDeviceAlso d.id md.chars data file) ((Req.also d md).apply db) := by
  obtain ⟨⟨n, hn, hlen, hkeeps⟩, hshort⟩ := h
  obtain ⟨hmd, hroom⟩ := hfit
  rw [storeDeviceAlso, d.named, readConfig_spec hn hlen]
  obtain ⟨k, hk, hlen', hset⟩ :=
    setDeviceMode_spec ⟨64 * n, maxsize, data.store 0 (content file)⟩ rfl rfl (hkeeps data) d md hn
    (hroom.imp_left (lt_of_length_lt hlen))
  exact good_writeConfig hk hlen' hset (short_update hshort hmd)

/-- **Clearing a device**, if its record is the only one, removes the file. -/
theorem good_clearDeviceEntry (h : Good file db) {d : Dev} (data : Mem)
    (hfit : Fits ⟨file, db⟩ (.clear d, data)) :
    Good (clearDeviceEntry d.id data file) ((Req.clear d).apply db) := by
  obtain ⟨⟨n, hn, hlen, hkeeps⟩, hshort⟩ := h
  have hgood : db d = none → Good file ((Req.clear d).apply db) := by
    intro hd
    rw [Req.apply, ← hd, update_eq_self]
    exact ⟨⟨n, hn, hlen, hkeeps⟩, hshort⟩
  rw [clearDeviceEntry, d.named, readConfig_spec hn hlen]
  rcases (hkeeps data).find ⟨64 * n, maxsize, data.store 0 (content file)⟩ rfl rfl d with
    ⟨hd, hfind⟩ | ⟨i, hi, md, hd, hfind, -, hid⟩
  · cases hfile : file.isSome
    · exact hgood hd
    · simp only [hfind]
      exact hgood hd
  · have hone : n = 1 := by
      have hsize : (content file).length = 64 :=
        hfit.resolve_left fun h => some_ne_none md (hd.symm.trans h)
      omega
    subst hone
    obtain rfl : i = 0 := by omega
    have hsome : file.isSome = true := by
      obtain - | bs := file
      · cases hlen
      · rfl
    have hdelete : writeConfig (deleteEntry ⟨64 * 1, maxsize, data.store 0 (content file)⟩
      (64 * 0)) = none :=
      rfl
    rw [hsome]
    simp only [hfind, hdelete]
    have hnone : ∀ x, (Req.clear d).apply db x = none := by
      intro x
      by_contra hx
      have hxd : x ≠ d := by
        rintro rfl
        exact hx (update_self ..)
      have hx' : db x ≠ none := fun h => hx ((update_of_ne hxd ..).trans h)
      obtain ⟨j, hj, hjd⟩ := (hkeeps data).found x hx'
      obtain rfl : j = 0 := by omega
      exact hxd (Dev.eq_of_holds hjd hid)
    refine ⟨⟨0, by omega, rfl, fun data => ⟨?_, ?_, ?_⟩⟩, ?_⟩
    · exact fun i hi => absurd hi (Nat.not_lt_zero i)
    · exact fun x hx => absurd (hnone x) hx
    · exact fun i hi => absurd hi (Nat.not_lt_zero i)
    · exact fun x v hv => absurd ((hnone x).symm.trans hv) nofun

end File

/-! ### Loading -/

section Load

variable {file : File} {db : Db}

lemma countNonzero_eq {m : Mem} {s : List UInt8} (hs : 0 ∉ s) {p n : ℕ} (h : m.Holds p (s ++ [0]))
    (hn : s.length < n) : countNonzero m p n = s.length := by
  induction s generalizing p n with
  | nil =>
    obtain ⟨n, rfl⟩ := Nat.exists_eq_succ_of_ne_zero (ne_of_gt hn)
    have h0 : m p = 0 := (holds_cons.mp (show m.Holds p (0 :: []) from h)).1
    rw [countNonzero, if_pos h0]
    rfl
  | cons x s ih =>
    obtain ⟨n, rfl⟩ := Nat.exists_eq_succ_of_ne_zero (ne_of_gt (Nat.zero_lt_of_lt hn))
    obtain ⟨hx, hrest⟩ := holds_cons.mp (show m.Holds p (x :: (s ++ [0])) from h)
    have hne : ¬m p = 0 := fun h0 => hs ((hx.symm.trans h0) ▸ mem_cons_self)
    rw [countNonzero, if_neg hne, ih (fun h0 => hs (mem_cons_of_mem x h0)) hrest
      (Nat.lt_of_succ_lt_succ hn), length_cons]

/-- **The mode of a device is loaded**, and nothing if it has none. -/
theorem loadDeviceMode_eq (h : Good file db) (d : Dev) (mode data : Mem) :
    loadDeviceMode d.id mode MODESIZE data file =
      match db d with
      | none => mode
      | some md => mode.store 0 (md.chars ++ [0]) := by
  obtain ⟨⟨n, hn, hlen, hkeeps⟩, hshort⟩ := h
  rw [loadDeviceMode, d.named, readConfig_spec hn hlen]
  rcases (hkeeps data).find ⟨64 * n, maxsize, data.store 0 (content file)⟩ rfl rfl d with
    ⟨hd, hfind⟩ | ⟨i, hi, md, hd, hfind, hmode, -⟩
  · rw [hd]
    cases hfile : file.isSome
    · rfl
    · simp only [hfind]
      rfl
  · have hsome : file.isSome = true := by
      obtain - | bs := file
      · have h0 : 0 = 64 * n := hlen
        omega
      · rfl
    have hcount : countNonzero (data.store 0 (content file)) (64 * i) MODESIZE =
      md.chars.length :=
      countNonzero_eq md.noNul hmode md.small
    have hload : (data.store 0 (content file)).load (64 * i) (md.chars.length + 1) =
      md.chars ++ [0] := by
      have := holds_iff_load.mp hmode
      rwa [length_append, length_singleton] at this
    have hfit : ¬md.chars.length ≥ MODESIZE - 1 := Nat.not_le.mpr (hshort d md hd)
    rw [hsome, hd]
    simp only [hfind, hcount, hload, if_neg hfit]
    rfl

/-- **The mode of a device is requested**, if it has one; and if it has none, then none is, as long
as the stack looks so. -/
theorem reqIdentify_eq (h : Good file db) (d : Dev) (mode data : Mem)
    (hstack : db d = none → mode 0 = 0) :
    reqIdentify d.id mode data file = (db d).map Mode.chars := by
  have hload := loadDeviceMode_eq h d mode data
  rw [reqIdentify, d.named]
  cases hd : db d with
  | none =>
    rw [hd] at hload
    simp only [hload, hstack hd]
    rfl
  | some md =>
    rw [hd] at hload
    have hholds : (mode.store 0 (md.chars ++ [0])).Holds 0 (md.chars ++ [0]) :=
      holds_store _ _ _
    have hcount : countNonzero (mode.store 0 (md.chars ++ [0])) 0 1024 = md.chars.length :=
      countNonzero_eq md.noNul hholds (lt_trans md.small (by decide))
    have hchars : (mode.store 0 (md.chars ++ [0])).load 0 md.chars.length = md.chars :=
      holds_iff_load.mp (holds_append.mp hholds).1
    have hfirst : (mode.store 0 (md.chars ++ [0])) 0 ≠ 0 := by
      intro h0
      have hzero : countNonzero (mode.store 0 (md.chars ++ [0])) 0 1024 = 0 := by
        rw [countNonzero, if_pos h0]
      exact absurd md.pos (by omega)
    simp only [hload, hcount, hchars, if_neg hfirst]
    rfl

end Load

/-! ### Runs -/

lemma State.step_good {s s' : State} {e : Req × Mem} (h : Good s.file s.db) (hfit : Fits s e)
    (hs : s.step e = some s') : Good s'.file s'.db := by
  cases hs
  obtain ⟨_ | _ | _, data⟩ := e
  · exact good_storeDeviceMode h data hfit
  · exact good_storeDeviceAlso h data hfit
  · exact good_clearDeviceEntry h data hfit

lemma good_of_reach {s : State} (h : Reach Started State.step Fits s) : Good s.file s.db := by
  refine h.invariant ?_ fun s e s' hg hfit hs => State.step_good hg hfit hs
  rintro s rfl
  refine ⟨⟨0, by omega, rfl, fun data => ⟨?_, ?_, ?_⟩⟩, fun _ _ => nofun⟩
  · exact fun i hi => absurd hi (Nat.not_lt_zero i)
  · exact fun x hx => absurd rfl hx
  · exact fun i hi => absurd hi (Nat.not_lt_zero i)

/-- **The file is the map**, in every run in which no request slips. -/
theorem file_is_map {s : State} (h : Reach Started State.step Fits s) :
    (∃ n ≤ 64, (content s.file).length = sizeofCfgent * n) ∧
    (∀ (d : Dev) (mode data : Mem), loadDeviceMode d.id mode MODESIZE data s.file =
      match s.db d with
      | none => mode
      | some md => mode.store 0 (md.chars ++ [0])) ∧
    (∀ (d : Dev) (mode data : Mem), (s.db d = none → mode 0 = 0) →
      reqIdentify d.id mode data s.file = (s.db d).map Mode.chars) ∧
    ∀ (d x : Dev) (data : Mem), x ≠ d → Fits s (.clear d, data) → ∀ mode data' : Mem,
      loadDeviceMode x.id mode MODESIZE data' (clearDeviceEntry d.id data s.file) =
        loadDeviceMode x.id mode MODESIZE data' s.file := by
  have hgood := good_of_reach h
  obtain ⟨n, hn, hlen, -⟩ := hgood.records
  refine ⟨⟨n, hn, hlen⟩, loadDeviceMode_eq hgood, reqIdentify_eq hgood, ?_⟩
  intro d x data hne hfit mode data'
  rw [loadDeviceMode_eq (good_clearDeviceEntry hgood data hfit) x, loadDeviceMode_eq hgood x,
    Req.apply,
    update_of_ne hne]

/-- Two devices and a mode. -/
def dev1 : Dev := ⟨Bytes.ofList DEVIDLEN [117, 115, 98, 45, 49], by decide⟩

def dev2 : Dev := ⟨Bytes.ofList DEVIDLEN [117, 115, 98, 45, 50], by decide⟩

def homeMode : Mode := ⟨[104, 111, 109, 101], by decide, by decide, by decide⟩

/-- The mode goes from the first device to the second one. -/
theorem file_is_map_moved :
    let file := (Req.store dev2 homeMode).run (fun _ =>
      7) ((Req.store dev1 homeMode).run (fun _ => 7) none)
    reqIdentify dev1.id (fun _ => 0) (fun _ => 7) file = none ∧
      reqIdentify dev2.id (fun _ => 7) (fun _ => 7) file = some homeMode.chars := by
  have h1 : Fits ⟨none, fun _ => none⟩ (.store dev1 homeMode, fun _ => 7) :=
    ⟨by decide, .inl (by decide)⟩
  have hlen : (content ((Req.store dev1 homeMode).run (fun _ => 7) none)).length < maxsize := by
    decide +kernel
  have h := (file_is_map (.next (.next (.start rfl) h1 rfl)
    (show Fits _ (.store dev2 homeMode, fun _ => 7) from ⟨by decide, .inl hlen⟩) rfl)).2.2.1
  exact ⟨h dev1 _ _ fun _ => rfl, h dev2 _ _ nofun⟩

/-- The first of two devices is cleared. -/
def clearedFirst : File :=
  (Req.clear dev1).run (fun _ => 7) ((Req.also dev2 homeMode).run (fun _ => 7)
    ((Req.also dev1 homeMode).run (fun _ => 7) none))

/-- **Clearing one of two devices** does not leave whole records. -/
theorem not_whole_records : ¬∀ s, Reach Started State.step (fun _ _ => True) s →
    ∃ n, (content s.file).length = sizeofCfgent * n := by
  intro hall
  have hrun : Reach Started State.step (fun _ _ => True) ⟨clearedFirst, _⟩ :=
    .next (e := (Req.clear dev1, fun _ => 7))
      (.next (e := (Req.also dev2 homeMode, fun _ => 7))
        (.next (e := (Req.also dev1 homeMode, fun _ => 7)) (.start rfl) trivial rfl) trivial rfl)
          trivial rfl
  obtain ⟨n, hn⟩ := hall _ hrun
  have hlen : (content clearedFirst).length = 127 := by
    decide +kernel
  dsimp only at hn
  rw [hlen, sizeofCfgent] at hn
  omega

end Minibase.Ifctl
