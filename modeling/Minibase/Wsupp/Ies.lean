import Minibase.Lib.Peek
import Minibase.Wsupp.Device
import Minibase.Wsupp.Scans

/-!
# Whether a station can be used

What a station sends about itself is a block of elements, each with a type, a length and as
many bytes. Before a station is picked, `check_ap_ies` looks for its name and for the element
that says which ciphers it supports (`wsupp_bssid.c`). The functions are written over `Peek`, since
the question is where they look. Addresses are those of `Wsupp.Table.mem`, a null pointer is
address `0`, and no pointer wraps.
-/

namespace Minibase

namespace Wsupp

open Peek

/-! ### Numbers in an element -/

/-- `get2le`. The test asks for a byte more than is read. -/
def get2le (p e : ℕ) : Peek ℕ := if p + 3 > e then pure 0 else word p

def get4be (p e : ℕ) : Peek ℕ :=
  if p + 4 > e then pure 0
  else do
    let b0 ← byte p
    let b1 ← byte (p + 1)
    let b2 ← byte (p + 2)
    let b3 ← byte (p + 3)
    return b0.toNat * 2 ^ 24 + b1.toNat * 2 ^ 16 + b2.toNat * 2 ^ 8 + b3.toNat

/-- The loop of `find_int`, with `n` numbers left from `p` on. -/
def findIntFrom (e val : ℕ) : ℕ → ℕ → Peek Bool
  | 0, _ => pure false
  | n + 1, p => do
    let v ← get4be p e
    if v = val then pure true else findIntFrom e val n (p + 4)

/-- `find_int`. The end it passes on is that of `cnt` numbers, and not that of the element. -/
def findInt (buf cnt val : ℕ) : Peek Bool := findIntFrom (buf + 4 * cnt) val cnt buf

/-! ### Elements -/

def RSN_CIPHER_CCMP : ℕ := 0x000FAC04
def RSN_CIPHER_TKIP : ℕ := 0x000FAC02
def RSN_AKM_PSK : ℕ := 0x000FAC02

def parseRsnIe (sc : Slot) (len buf : ℕ) : Peek Slot := do
  let e := buf + len
  let version ← get2le buf e
  if version ≠ 1 then pure sc
  else do
    let group ← get4be (buf + 2) e
    let pcnt ← get2le (buf + 6) e
    let pair := buf + 8
    let acnt ← get2le (pair + 4 * pcnt) e
    let akms := pair + 4 * pcnt + 2
    let ccmp ← findInt pair pcnt RSN_CIPHER_CCMP
    if ccmp = false then pure sc
    else do
      let psk ← findInt akms acnt RSN_AKM_PSK
      if psk = false then pure sc
      else if group = RSN_CIPHER_TKIP then
        pure { sc with flags := sc.flags ||| SF_TKIP ||| SF_GOOD }
      else if group = RSN_CIPHER_CCMP then pure { sc with flags := sc.flags ||| SF_GOOD }
      else pure sc

/-- The loop of `find_ie`. An element has two bytes at least, so that the length of the block
is fuel enough (`Wsupp.findIe_eq_some`). -/
def findIeFrom (end_ type : ℕ) : ℕ → ℕ → Peek (Option ℕ)
  | 0, _ => pure none
  | fuel + 1, ptr =>
    if ptr < end_ then do
      let len ← byte (ptr + 1)
      let ielen := 2 + len.toNat
      if ptr + ielen > end_ then pure none
      else do
        let t ← byte ptr
        if t.toNat = type then pure (some ptr) else findIeFrom end_ type fuel (ptr + ielen)
    else pure none

def findIe (buf len type : ℕ) : Peek (Option ℕ) := findIeFrom (buf + len) type len buf

/-- `memcmp` with bytes that are kept elsewhere. -/
def memcmp : ℕ → List UInt8 → Peek ℤ
  | _, [] => pure 0
  | p, b :: bs => do
    let a ← byte p
    let d : ℤ := a.toNat - b.toNat
    if d ≠ 0 then pure d else memcmp (p + 1) bs

def checkApIes (ap : Ap) (sc : Slot) : Peek Slot := do
  let buf := sc.ies.getD 0
  let len := sc.ieslen.toNat
  let sc := { sc with flags := sc.flags ||| SF_SEEN }
  let named ← findIe buf len 0
  match named with
  | none => pure sc
  | some ie => do
    let ielen ← byte (ie + 1)
    if ielen.toNat ≠ ap.slen then pure sc
    else do
      let d ← memcmp (ie + 2) ap.ssid
      if d ≠ 0 then pure sc
      else do
        let rsn ← findIe buf len 48
        match rsn with
        | none => pure sc
        | some ie => do
          let ielen ← byte (ie + 1)
          parseRsnIe sc ielen.toNat (ie + 2)

/-! ### Looking at numbers -/

/-- The number at `p`, most significant byte first. -/
def num4 (m : Mem) (p : ℕ) : ℕ :=
  (m p).toNat * 2 ^ 24 + (m (p + 1)).toNat * 2 ^ 16 + (m (p + 2)).toNat * 2 ^ 8 + (m (p + 3)).toNat

/-- The number at `p`, or zero if it does not end a byte before `e`. -/
def num2 (m : Mem) (p e : ℕ) : ℕ := if p + 3 > e then 0 else m.get16 p

variable {m m' : Mem} {p e a val n : ℕ}

@[simp] lemma get2le_val : (get2le p e).val m = num2 m p e := by
  rw [get2le, num2, val_ite, val_pure, val_word]

lemma get2le_reads (h : a ∈ (get2le p e).reads m) : p ≤ a ∧ a < e := by
  rw [get2le, reads_ite] at h
  split_ifs at h with hc
  · simp at h
  · rw [mem_reads_word] at h
    omega

lemma get4be_val (h : p + 4 ≤ e) : (get4be p e).val m = num4 m p := by
  rw [get4be, if_neg (by omega), num4]
  simp only [val_bind, val_byte, val_pure]

lemma mem_reads_get4be : a ∈ (get4be p e).reads m ↔ p + 4 ≤ e ∧ p ≤ a ∧ a < p + 4 := by
  rw [get4be, reads_ite]
  split_ifs with hc
  · simp only [reads_pure, List.not_mem_nil, false_iff]
    omega
  · simp only [mem_reads_bind, mem_reads_byte, reads_pure, List.not_mem_nil, or_false]
    omega

lemma findIntFrom_val (h : p + 4 * n ≤ e) :
    (findIntFrom e val n p).val m = true ↔ ∃ i < n, num4 m (p + 4 * i) = val := by
  induction n generalizing p with
  | zero => simp [findIntFrom]
  | succ n ih =>
    rw [findIntFrom, val_bind, val_ite, get4be_val (by omega)]
    split_ifs with hv
    · simp only [val_pure, true_iff]
      exact ⟨0, by omega, hv⟩
    · rw [ih (by omega)]
      constructor
      · rintro ⟨i, hi, he⟩
        exact ⟨i + 1, by omega, by rw [← he]; congr 1; omega⟩
      · rintro ⟨_ | i, hi, he⟩
        · exact absurd he hv
        · exact ⟨i, by omega, by rw [← he]; congr 1; omega⟩

lemma mem_reads_findIntFrom (h : p + 4 * n ≤ e) : a ∈ (findIntFrom e val n p).reads m ↔
    ∃ i < n, (∀ j < i, num4 m (p + 4 * j) ≠ val) ∧ p + 4 * i ≤ a ∧ a < p + 4 * i + 4 := by
  induction n generalizing p with
  | zero => simp [findIntFrom]
  | succ n ih =>
    rw [findIntFrom, mem_reads_bind, mem_reads_get4be, reads_ite, get4be_val (by omega)]
    constructor
    · rintro (h0 | hr)
      · exact ⟨0, by omega, fun j hj => absurd hj (by omega), by omega⟩
      · split_ifs at hr with hv
        · simp at hr
        · obtain ⟨i, hi, hn, ha⟩ := (ih (by omega)).mp hr
          refine ⟨i + 1, by omega, fun j hj => ?_, by omega⟩
          obtain _ | j := j
          · exact hv
          · have he : p + 4 * (j + 1) = p + 4 + 4 * j := by omega
            rw [he]
            exact hn j (by omega)
    · rintro ⟨_ | i, hi, hn, ha⟩
      · exact .inl (by omega)
      · have h0 : num4 m p ≠ val := hn 0 (by omega)
        refine .inr ?_
        rw [if_neg h0, ih (by omega)]
        refine ⟨i, by omega, fun j hj => ?_, by omega⟩
        have he : p + 4 + 4 * j = p + 4 * (j + 1) := by omega
        rw [he]
        exact hn (j + 1) (by omega)

@[simp] lemma findInt_val : (findInt p n val).val m = true ↔ ∃ i < n, num4 m (p + 4 * i) = val :=
  findIntFrom_val (le_refl _)

/-- **`find_int` looks at the numbers up to the first that is right.** -/
theorem mem_reads_findInt : a ∈ (findInt p n val).reads m ↔
    ∃ i < n, (∀ j < i, num4 m (p + 4 * j) ≠ val) ∧ p + 4 * i ≤ a ∧ a < p + 4 * i + 4 :=
  mem_reads_findIntFrom (le_refl _)

/-- **Looking for `val` among `n` numbers from `p` on stays before `e`**: there are none, or they
end there, or it is found before. -/
def ListOk (m : Mem) (p n val e : ℕ) : Prop :=
  n = 0 ∨ p + 4 * n ≤ e ∨ ∃ i < n, p + 4 * i + 4 ≤ e ∧ num4 m (p + 4 * i) = val

lemma findInt_reads_lt_iff : (∀ a ∈ (findInt p n val).reads m, a < e) ↔ ListOk m p n val e := by
  constructor
  · intro h
    by_contra hno
    simp only [ListOk, not_or, not_exists, not_and, not_le] at hno
    obtain ⟨hn, he, hfound⟩ := hno
    -- the first number that does not end before `e`
    have hex : ∃ i, e < p + 4 * i + 4 := ⟨n, by omega⟩
    have hlast : e < p + 4 * Nat.find hex + 4 := Nat.find_spec hex
    have hmin : Nat.find hex < n := by
      have : Nat.find hex ≤ n - 1 := Nat.find_min' hex (by omega)
      omega
    have hbefore : ∀ j < Nat.find hex, num4 m (p + 4 * j) ≠ val := fun j hj =>
      hfound j (by omega) (by have := Nat.find_min hex hj; omega)
    have := h (p + 4 * Nat.find hex + 3)
      (mem_reads_findInt.mpr ⟨Nat.find hex, hmin, hbefore, by omega, by omega⟩)
    omega
  · intro h a ha
    obtain ⟨i, hi, hbefore, h1, h2⟩ := mem_reads_findInt.mp ha
    rcases h with h | h | ⟨k, hk, hke, hkv⟩
    · omega
    · omega
    · have : i ≤ k := by
        by_contra hc
        exact hbefore k (by omega) hkv
      omega

/-! ### Looking for an element -/

/-- Where the element at `p` ends. -/
def nextIe (m : Mem) (p : ℕ) : ℕ := p + (2 + (m (p + 1)).toNat)

/-- **Looking for an element of some type, one gets from `p` to `q`**: past whole elements of
other types. -/
inductive Passes (m : Mem) (e type : ℕ) : ℕ → ℕ → Prop
  | here (p : ℕ) : Passes m e type p p
  | past {p q : ℕ} : nextIe m p ≤ e → (m p).toNat ≠ type → Passes m e type (nextIe m p) q →
      Passes m e type p q

/-- **There is an element of this type at `ie`**, and it is the first one. -/
structure First (m : Mem) (e type p ie : ℕ) : Prop where
  passes : Passes m e type p ie
  whole : nextIe m ie ≤ e
  type_eq : (m ie).toNat = type

/-- **The search ends with a single byte**: too little for an element, and yet the byte after it
is looked at. -/
def Dangles (m : Mem) (e type p : ℕ) : Prop := ∃ q, Passes m e type p q ∧ q + 1 = e

variable {type q ie fuel : ℕ}

lemma Passes.le (h : Passes m e type p q) : p ≤ q := by
  induction h with
  | here => exact le_refl _
  | past _ _ _ ih =>
    rw [nextIe] at ih
    omega

lemma First.eq_or (h : First m e type p ie) :
    (ie = p ∧ (m p).toNat = type) ∨ ((m p).toNat ≠ type ∧ First m e type (nextIe m p) ie) := by
  obtain ⟨_ | ⟨_, hne, hp⟩, hw, ht⟩ := h
  · exact .inl ⟨rfl, ht⟩
  · exact .inr ⟨hne, hp, hw, ht⟩

lemma First.next_le (h : First m e type p ie) : nextIe m p ≤ e := by
  obtain ⟨_ | ⟨hn, -, -⟩, hw, -⟩ := h
  · exact hw
  · exact hn

/-- An element that is found is inside the block. -/
theorem First.bounds (h : First m e type p ie) : p ≤ ie ∧ ie + 2 + (m (ie + 1)).toNat ≤ e := by
  have h1 := h.passes.le
  have h2 := h.whole
  rw [nextIe] at h2
  omega

lemma findIeFrom_eq_some (h : e ≤ p + fuel) :
    (findIeFrom e type fuel p).val m = some ie ↔ First m e type p ie := by
  induction fuel generalizing p with
  | zero =>
    simp only [findIeFrom, val_pure, false_iff, reduceCtorEq]
    intro hf
    have := hf.next_le
    rw [nextIe] at this
    omega
  | succ fuel ih =>
    rw [findIeFrom, val_ite, val_bind, val_byte, val_ite, val_bind, val_byte, val_ite]
    have hnext : p + (2 + (m (p + 1)).toNat) = nextIe m p := rfl
    split_ifs with hlt hw ht
    · rw [hnext] at hw
      simp only [val_pure, reduceCtorEq, false_iff]
      intro hf
      have := hf.next_le
      omega
    · simp only [val_pure, Option.some.injEq]
      constructor
      · rintro rfl
        exact ⟨Passes.here _, by omega, ht⟩
      · intro hf
        rcases hf.eq_or with ⟨rfl, -⟩ | ⟨hne, -⟩
        · rfl
        · exact absurd ht hne
    · rw [hnext, ih (by rw [nextIe]; omega)]
      constructor
      · intro hf
        exact ⟨Passes.past (by omega) ht hf.passes, hf.whole, hf.type_eq⟩
      · intro hf
        rcases hf.eq_or with ⟨-, h0⟩ | ⟨-, h0⟩
        · exact absurd h0 ht
        · exact h0
    · simp only [val_pure, reduceCtorEq, false_iff]
      intro hf
      have := hf.next_le
      rw [nextIe] at this
      omega

lemma mem_reads_findIeFrom_succ : a ∈ (findIeFrom e type (fuel + 1) p).reads m ↔
    p < e ∧ (a = p + 1 ∨ nextIe m p ≤ e ∧
      (a = p ∨ (m p).toNat ≠ type ∧ a ∈ (findIeFrom e type fuel (nextIe m p)).reads m)) := by
  have hnext : p + (2 + (m (p + 1)).toNat) = nextIe m p := rfl
  rw [findIeFrom, reads_ite]
  split_ifs with hlt
  · rw [mem_reads_bind, mem_reads_byte, val_byte]
    dsimp only
    rw [hnext, reads_ite]
    split_ifs with hw
    · simp only [reads_pure, List.not_mem_nil, or_false, hlt, true_and]
      constructor
      · exact .inl
      · rintro (h | ⟨h, -⟩)
        · exact h
        · omega
    · rw [mem_reads_bind, mem_reads_byte, val_byte, reads_ite]
      have hle : nextIe m p ≤ e := by omega
      split_ifs with ht
      · simp [hlt, hle, ht]
      · simp [hlt, hle, ht]
  · simp [hlt]

lemma findIeFrom_reads_ge (h : a ∈ (findIeFrom e type fuel p).reads m) : p ≤ a := by
  induction fuel generalizing p with
  | zero => simp [findIeFrom] at h
  | succ fuel ih =>
    obtain ⟨-, h | ⟨-, h | ⟨-, h⟩⟩⟩ := mem_reads_findIeFrom_succ.mp h
    · omega
    · omega
    · have := ih h
      rw [nextIe] at this
      omega

lemma findIeFrom_reads_lt_iff (h : e ≤ p + fuel) :
    (∀ a ∈ (findIeFrom e type fuel p).reads m, a < e) ↔ ¬ Dangles m e type p := by
  induction fuel generalizing p with
  | zero =>
    simp only [findIeFrom, reads_pure, List.not_mem_nil, false_imp_iff, implies_true, true_iff]
    rintro ⟨q, hq, he⟩
    have := hq.le
    omega
  | succ fuel ih =>
    have hnext : e ≤ nextIe m p + fuel := by
      rw [nextIe]
      omega
    constructor
    · rintro hr ⟨q, hq, he⟩
      have hpq := hq.le
      obtain _ | ⟨hn, hne, hq⟩ := hq
      · have := hr (p + 1) (mem_reads_findIeFrom_succ.mpr ⟨by omega, .inl rfl⟩)
        omega
      · exact (ih hnext).mp (fun a ha => hr a (mem_reads_findIeFrom_succ.mpr
          ⟨by omega, .inr ⟨hn, .inr ⟨hne, ha⟩⟩⟩)) ⟨q, hq, he⟩
    · intro hd a ha
      obtain ⟨hlt, ha | ⟨hn, ha | ⟨hne, ha⟩⟩⟩ := mem_reads_findIeFrom_succ.mp ha
      · have : p + 1 ≠ e := fun he => hd ⟨p, Passes.here p, he⟩
        omega
      · omega
      · refine (ih hnext).mpr ?_ a ha
        rintro ⟨q, hq, he⟩
        exact hd ⟨q, Passes.past hn hne hq, he⟩

/-- **`find_ie` finds the first element of the type.** -/
theorem findIe_eq_some {len : ℕ} :
    (findIe p len type).val m = some ie ↔ First m (p + len) type p ie :=
  findIeFrom_eq_some (by omega)

/-- **`find_ie` stays inside, unless the search ends with a single byte.** -/
theorem findIe_reads_iff {len : ℕ} :
    (∀ a ∈ (findIe p len type).reads m, p ≤ a ∧ a < p + len) ↔ ¬ Dangles m (p + len) type p := by
  have hlt : (∀ a ∈ (findIe p len type).reads m, a < p + len) ↔ ¬ Dangles m (p + len) type p :=
    findIeFrom_reads_lt_iff (by omega)
  rw [← hlt]
  exact ⟨fun h a ha => (h a ha).2, fun h a ha => ⟨findIeFrom_reads_ge ha, h a ha⟩⟩

/-! ### Comparing the name -/

variable {bs : List UInt8}

/-- **`memcmp` is zero if the bytes are the same**, and looks no further than they go. -/
theorem memcmp_eq_zero : (memcmp p bs).val m = 0 ↔ m.Holds p bs := by
  induction bs generalizing p with
  | nil => simp [memcmp]
  | cons b bs ih =>
    have hcons : m.Holds p (b :: bs) ↔ m p = b ∧ m.Holds (p + 1) bs := by
      have happ : m.Holds p ([b] ++ bs) ↔ m.Holds p [b] ∧ m.Holds (p + [b].length) bs :=
        Mem.holds_append
      rw [List.singleton_append, List.length_singleton] at happ
      rw [happ]
      simp [Mem.Holds]
    rw [memcmp, val_bind, val_byte, hcons]
    rw [val_ite, val_pure]
    split_ifs with hd
    · constructor
      · intro h
        exact absurd h hd
      · rintro ⟨rfl, -⟩
        exact absurd (sub_self _) hd
    · rw [ih]
      have hb : m p = b := by
        apply UInt8.toNat_inj.mp
        omega
      simp [hb]

lemma memcmp_reads (h : a ∈ (memcmp p bs).reads m) : p ≤ a ∧ a < p + bs.length := by
  induction bs generalizing p with
  | nil => simp [memcmp] at h
  | cons b bs ih =>
    rw [memcmp, mem_reads_bind, mem_reads_byte, val_byte] at h
    rw [reads_ite] at h
    rw [List.length_cons]
    rcases h with h | h
    · omega
    · split_ifs at h with hd
      · simp at h
      · have := ih h
        omega

/-! ### Nothing else is looked at -/

lemma get2le_frugal : Frugal (get2le p e) := (frugal_pure 0).ite (frugal_word p)

lemma get4be_frugal : Frugal (get4be p e) :=
  (frugal_pure 0).ite <| (frugal_byte _).bind fun _ => (frugal_byte _).bind fun _ =>
    (frugal_byte _).bind fun _ => (frugal_byte _).bind fun _ => frugal_pure _

lemma findIntFrom_frugal : Frugal (findIntFrom e val n p) := by
  induction n generalizing p with
  | zero => exact frugal_pure _
  | succ n ih => exact get4be_frugal.bind fun _ => (frugal_pure _).ite ih

lemma parseRsnIe_frugal (sc : Slot) (len buf : ℕ) : Frugal (parseRsnIe sc len buf) := by
  refine get2le_frugal.bind fun _ => (frugal_pure _).ite ?_
  refine get4be_frugal.bind fun _ => get2le_frugal.bind fun _ => get2le_frugal.bind fun _ => ?_
  refine findIntFrom_frugal.bind fun _ => (frugal_pure _).ite ?_
  refine findIntFrom_frugal.bind fun _ => (frugal_pure _).ite ?_
  exact (frugal_pure _).ite ((frugal_pure _).ite (frugal_pure _))

lemma findIeFrom_frugal : Frugal (findIeFrom e type fuel p) := by
  induction fuel generalizing p with
  | zero => exact frugal_pure _
  | succ fuel ih =>
    refine Frugal.ite ((frugal_byte _).bind fun len => ?_) (frugal_pure _)
    exact (frugal_pure _).ite ((frugal_byte _).bind fun _ => (frugal_pure _).ite ih)

lemma memcmp_frugal : Frugal (memcmp p bs) := by
  induction bs generalizing p with
  | nil => exact frugal_pure _
  | cons b bs ih => exact (frugal_byte _).bind fun _ => (frugal_pure _).ite ih

lemma checkApIes_frugal (ap : Ap) (sc : Slot) : Frugal (checkApIes ap sc) := by
  refine findIeFrom_frugal.bind fun named => ?_
  obtain _ | ie := named
  · exact frugal_pure _
  refine (frugal_byte _).bind fun _ => (frugal_pure _).ite (memcmp_frugal.bind fun _ => ?_)
  refine (frugal_pure _).ite (findIeFrom_frugal.bind fun rsn => ?_)
  obtain _ | ie := rsn
  · exact frugal_pure _
  · exact (frugal_byte _).bind fun _ => parseRsnIe_frugal _ _ _

end Wsupp

end Minibase
