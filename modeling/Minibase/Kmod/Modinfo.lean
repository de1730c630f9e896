import Mathlib.Data.List.Flatten
import Minibase.Lib.Strings
import Minibase.Kmod.Stdin

/-!
# What a module says about itself

`next_entry`, `match_key`, `get_info_entry` and `dump_module_aliases` of
`src/kmod/depmod.c`. The `.modinfo` section is a sequence of strings `key=value` with a zero
after each. An entry without a `=` is all key, and its value is what is behind it. Keys are
compared over the length of the one of the entry, so that entries of another key may be taken
for the one that is meant (`Kmod.modinfo_exact_iff`).
-/

namespace Minibase.Kmod

open List Option Mem

def equals : UInt8 := 0x3D

/-- `struct kmod`, as far as it is used once the section was found. `buf` is at address 0. -/
structure KMod where
  buf : Mem
  len : ℕ
  modinfoOff : ℕ
  modinfoLen : ℕ

/-- An entry of the section: where its key and its value are, and how long. -/
structure Entry where
  key : ℕ
  klen : ℕ
  value : ℕ
  llen : ℕ

/-- `next_entry`: the entry, and where to go on. -/
def nextEntry (m : Mem) (ptr fin : ℕ) : Option (Entry × ℕ) :=
  let ptr := scan (· != 0) m ptr (fin - ptr)
  let llen := scan (· == 0) m ptr (fin - ptr) - ptr
  if ptr + llen ≥ fin then none
  else
    let sep := scan (· == equals) m ptr llen
    if llen ≠ 0 ∧ sep < fin then some (⟨ptr, sep - ptr, sep + 1, llen⟩, ptr + llen + 1)
    else some (⟨ptr, 0, ptr, llen⟩, ptr + llen + 1)

lemma le_scan (stop : UInt8 → Bool) (m : Mem) (p n : ℕ) : p ≤ scan stop m p n := by
  rw [scan_eq]
  exact Nat.le_add_right _ _

/-- There is an end to it. -/
theorem nextEntry_lt {m : Mem} {ptr fin q : ℕ} {en : Entry}
    (h : nextEntry m ptr fin = some (en, q)) : ptr < q ∧ q ≤ fin := by
  have hptr := le_scan (· != 0) m ptr (fin - ptr)
  rw [nextEntry] at h
  dsimp only at h
  split_ifs at h with h1 h2 <;> cases h <;> omega

/-- What `while((ptr = next_entry(ptr, end, &en)))` goes through. -/
def entriesFrom (m : Mem) (fin ptr : ℕ) : List Entry :=
  match _h : nextEntry m ptr fin with
  | none => []
  | some (en, q) => en :: entriesFrom m fin q
termination_by fin - ptr
decreasing_by
  have := nextEntry_lt _h
  omega

def KMod.entries (km : KMod) : List Entry :=
  entriesFrom km.buf (km.modinfoOff + km.modinfoLen) km.modinfoOff

/-- A string that is on its own. -/
def memOfKey (key : List UInt8) : Mem := store (fun _ => 0) 0 key

def matchKey (m : Mem) (key : List UInt8) (en : Entry) : Bool :=
  strncmp m (memOfKey key) en.klen en.key 0 = 0

/-- `get_info_entry`: the address of a value. -/
def getInfoEntry (km : KMod) (key : List UInt8) : Option ℕ :=
  (km.entries.find? (matchKey km.buf key)).map Entry.value

/-- `alias`. -/
def aliasKey : List UInt8 := [0x61, 0x6C, 0x69, 0x61, 0x73]

/-- A line of `modules.alias`. -/
def aliasLine (value name : List UInt8) : List UInt8 :=
    aliasKey ++ 0x20 :: value ++ 0x20 :: name ++ [newline]

/-- The string at some address. -/
def KMod.string (km : KMod) (p : ℕ) : List UInt8 := cstr (km.buf.load p (km.len - p))

/-- `dump_module_aliases`: what is written. -/
def dumpModuleAliases (km : KMod) (name : List UInt8) : List UInt8 :=
  (km.entries.filter (matchKey km.buf aliasKey)).flatMap fun en =>
    aliasLine (km.string en.value) name

/-! ### Entries and where they are -/

/-- What is before the first `=`, which is all of it if there is none. -/
def keyOf (t : List UInt8) : List UInt8 := t.takeWhile (· ≠ equals)

/-- **An entry of some key**. -/
def IsOf (key t : List UInt8) : Prop := keyOf t = key ∧ equals ∈ t
deriving Decidable

/-- An entry that is taken for one of some key. -/
def TakenFor (key t : List UInt8) : Prop := t ≠ [] ∧ keyOf t <+: key
deriving Decidable

lemma IsOf.takenFor {key t : List UInt8} (h : IsOf key t) : TakenFor key t :=
  ⟨ne_nil_of_mem h.2, h.1 ▸ prefix_refl _⟩

lemma exists_value {t : List UInt8} (h : equals ∈ t) : ∃ v, t = keyOf t ++ equals :: v := by
  obtain ⟨s, v, hsv, hs⟩ := eq_append_cons_of_mem h
  have hkey : keyOf t = s := by
    rw [hsv, keyOf, takeWhile_append_of_pos fun c hc => decide_eq_true (ne_of_mem_of_not_mem hc hs),
      takeWhile_cons_of_neg (by simp), append_nil]
  exact ⟨v, by rwa [hkey]⟩

/-- Strings with the addresses they are at. -/
def places : ℕ → List (List UInt8) → List (ℕ × List UInt8)
  | _, [] => []
  | p, t :: ts => (p, t) :: places (p + t.length + 1) ts

/-- The address of the value. -/
def valueOf (x : ℕ × List UInt8) : ℕ := x.1 + (keyOf x.2).length + 1

def entryOf (x : ℕ × List UInt8) : Entry := ⟨x.1, (keyOf x.2).length, valueOf x, x.2.length⟩

lemma length_keyOf_le (t : List UInt8) : (keyOf t).length ≤ t.length :=
    ( takeWhile_prefix _).length_le

/-- The values are in the order of the entries. -/
theorem places_ordered (p : ℕ) (ts : List (List UInt8)) :
    (∀ x ∈ places p ts, p < valueOf x) ∧ (places p ts).Pairwise fun x y =>
      valueOf x < valueOf y := by
  induction ts generalizing p with
  | nil => exact ⟨fun _ h => absurd h not_mem_nil, List.Pairwise.nil⟩
  | cons t ts ih =>
    obtain ⟨hlt, hord⟩ := ih (p + t.length + 1)
    have hkey := length_keyOf_le t
    constructor
    · intro x hx
      rcases mem_cons.mp hx with rfl | hx
      · rw [valueOf]
        omega
      · have := hlt x hx
        omega
    · refine pairwise_cons.mpr ⟨fun x hx => ?_, hord⟩
      have := hlt x hx
      rw [valueOf]
      dsimp only
      omega

lemma map_snd_places (p : ℕ) (ts : List (List UInt8)) : (places p ts).map Prod.snd = ts := by
  induction ts generalizing p with
  | nil => rfl
  | cons t ts ih => exact congrArg (t :: ·) (ih _)

/-! ### The entries that are gone through -/

section Walk

variable {m : Mem} {p fin : ℕ} {t : List UInt8}

lemma nextEntry_zero (h : m p = 0) (hlt : p < fin) : nextEntry m p fin = nextEntry m
    (p + 1) fin := by
  have hskip : scan (· != 0) m p (fin - p) = scan (· != 0) m (p + 1) (fin - (p + 1)) := by
    rw [show fin - p = fin - (p + 1) + 1 by omega, scan, h, if_neg (by decide)]
  rw [nextEntry, nextEntry, hskip]

lemma nextEntry_end (m : Mem) (fin : ℕ) : nextEntry m fin fin = none := by
  rw [nextEntry, Nat.sub_self]
  exact if_pos (Nat.le_add_right _ _)

/-- A string that is followed by a zero is an entry. -/
theorem nextEntry_entry (ht : t ≠ []) (hzero : 0 ∉ t) (hm : m.Holds p (t ++ [0]))
    (hlt : p + t.length < fin) : nextEntry m p fin = some (entryOf (p, t), p + t.length + 1) := by
  obtain ⟨hstr, hend⟩ := holds_append.mp hm
  have hload : m.load p t.length = t := holds_iff_load.mp hstr
  -- what is there: the string, its zero, and the others
  have hall : m.load p (fin - p) = t ++ 0 :: m.load (p + t.length + 1)
    (fin - p - t.length - 1) := by
    have hnul : m (p + t.length) = 0 := hend 0 Nat.one_pos
    rw [show fin - p = t.length + (fin - p - t.length - 1 + 1) by omega, load_add, hload,
      load_succ, hnul, Nat.add_sub_cancel_left, Nat.add_sub_cancel]
  -- it does not start with a zero, so nothing is skipped
  have hskip : scan (· != 0) m p (fin - p) = p := by
    obtain ⟨c, s, rfl⟩ := exists_cons_of_ne_nil ht
    have hc : c ≠ 0 := fun h => hzero (h ▸ mem_cons_self)
    rw [scan_eq, hall, cons_append, takeWhile_cons_of_neg (by simpa using hc)]
    rfl
  -- it ends at the first zero
  have hllen : scan (· == 0) m p (fin - p) - p = t.length := by
    have hstop : (t ++ 0 :: m.load (p + t.length + 1) (fin - p - t.length - 1)).takeWhile
      (! · == 0) = t := by
      rw [takeWhile_append_of_pos fun x hx => by simpa using ne_of_mem_of_not_mem hx hzero,
        takeWhile_cons_of_neg (by decide), append_nil]
    rw [scan_eq, hall, hstop, Nat.add_sub_cancel_left]
  -- its key ends at the first `=`, or at the zero
  have hsep : scan (· == equals) m p t.length = p + (keyOf t).length := by
    rw [scan_eq, hload, keyOf]
    congr 3
    funext x
    by_cases h : x = equals <;> simp [h]
  have hkey := length_keyOf_le t
  rw [nextEntry, hskip]
  rw [hllen, hsep, if_neg (by omega), if_pos ⟨mt length_eq_zero_iff.mp ht, by omega⟩,
    Nat.add_sub_cancel_left]
  rfl

/-- **The entries** of an area are its strings that are not empty. -/
theorem entriesFrom_joined {ts : List (List UInt8)} (hts : ∀ t ∈ ts, 0 ∉ t)
    (hm : m.Holds p (joined 0 ts [])) (hfin : p + (joined 0 ts []).length = fin) :
    entriesFrom m fin p = ((places p ts).filter fun x => x.2 ≠ []).map entryOf := by
  induction ts generalizing p with
  | nil =>
    obtain rfl : p = fin := hfin
    rw [entriesFrom]
    split
    · rfl
    · rename_i h
      rw [nextEntry_end] at h
      cases h
  | cons t ts ih =>
    have hjoin : joined 0 (t :: ts) [] = (t ++ [0]) ++ joined 0 ts [] := by
      simp [joined]
    rw [hjoin, holds_append] at hm
    rw [hjoin, length_append, length_append, length_singleton] at hfin
    obtain ⟨hhead, htail⟩ := hm
    rw [length_append, length_singleton, ← add_assoc] at htail
    have hrest := ih (fun s hs => hts s (mem_cons_of_mem _ hs)) htail (by omega)
    by_cases ht : t = []
    · subst ht
      have hskip : nextEntry m p fin = nextEntry m (p + 1) fin := by
        refine nextEntry_zero (hhead 0 one_pos) ?_
        rw [← hfin, length_nil]
        omega
      have hsame : entriesFrom m fin p = entriesFrom m fin (p + 1) := by
        rw [entriesFrom, entriesFrom]
        split <;> split <;> simp_all
      rw [hsame]
      exact hrest
    · have hnext : nextEntry m p fin = some (entryOf (p, t), p + t.length + 1) :=
        nextEntry_entry ht (hts t mem_cons_self) hhead (by omega)
      rw [entriesFrom]
      split
      · rename_i h
        rw [hnext] at h
        cases h
      · rename_i en q h
        rw [hnext] at h
        cases h
        rw [places, filter_cons_of_pos (by simpa using ht), map_cons, hrest]

end Walk

/-! ### What is found -/

/-- An area of entries, and the module it is in. -/
structure KMod.Has (km : KMod) (ts : List (List UInt8)) : Prop where
  area : km.buf.Holds km.modinfoOff (joined 0 ts [])
  off_len : km.modinfoLen = (joined 0 ts []).length
  le_len : km.modinfoOff + km.modinfoLen ≤ km.len
  not_mem : ∀ t ∈ ts, 0 ∉ t

variable {ts : List (List UInt8)}

lemma KMod.Has.entries {km : KMod} (h : km.Has ts) :
    km.entries = ((places km.modinfoOff ts).filter fun x => x.2 ≠ []).map entryOf :=
  entriesFrom_joined h.not_mem h.area (by rw [h.off_len])

/-- Each string is where it is said to be. -/
theorem holds_places {m : Mem} {p : ℕ} (hm : m.Holds p (joined 0 ts []))
    {x : ℕ × List UInt8} (hx : x ∈ places p ts) :
    m.Holds x.1 (x.2 ++ [0]) ∧ x.1 + x.2.length + 1 ≤ p + (joined 0 ts []).length := by
  induction ts generalizing p with
  | nil => exact absurd hx not_mem_nil
  | cons t ts ih =>
    have hjoin : joined 0 (t :: ts) [] = (t ++ [0]) ++ joined 0 ts [] := by
      simp [joined]
    rw [hjoin, holds_append] at hm
    rw [hjoin, length_append, length_append, length_singleton]
    rcases mem_cons.mp hx with rfl | hx
    · refine ⟨hm.1, ?_⟩
      dsimp only
      omega
    · have hin := ih (by simpa [add_assoc] using hm.2) hx
      exact ⟨hin.1, by omega⟩

lemma holds_memOfKey {key l : List UInt8} (hl : 0 ∉ l) : (memOfKey key).Holds 0 l ↔ l <+: key := by
  constructor
  · intro h
    rw [prefix_iff_getElem?]
    intro i hi
    have hbyte := h i hi
    rw [zero_add] at hbyte
    by_cases hin : i < key.length
    · rw [getElem?_eq_getElem hin, ← hbyte, memOfKey]
      have hat := store_of_lt (m := fun _ => 0) (a := 0) hin
      rw [zero_add] at hat
      rw [hat]
    · have hnul : memOfKey key i = 0 := store_of_not_mem (.inr (by omega))
      rw [hnul] at hbyte
      exact absurd (hbyte ▸ getElem_mem hi) hl
  · rintro ⟨s, rfl⟩
    exact (holds_append.mp (holds_store (fun _ => 0) 0 (l ++ s))).1

/-- **Comparing keys** is asking whether the one that is meant starts with that of the entry. -/
theorem matchKey_iff {m : Mem} {key : List UInt8} {x : ℕ × List UInt8} (hzero : 0 ∉ x.2)
    (hm : m.Holds x.1 (x.2 ++ [0])) : matchKey m key (entryOf x) = true ↔ keyOf x.2 <+: key := by
  have hsub : keyOf x.2 <+: x.2 ++ [0] := ( takeWhile_prefix _).trans (prefix_append _ _)
  have hkey : m.Holds x.1 (keyOf x.2) := by
    obtain ⟨s, hs⟩ := hsub
    rw [← hs] at hm
    exact (holds_append.mp hm).1
  have hno : 0 ∉ keyOf x.2 := fun h => hzero (( takeWhile_prefix _).subset h)
  rw [matchKey, decide_eq_true_eq, strncmp_eq_zero_comm]
  exact (strncmp_eq_zero hno hkey).trans (holds_memOfKey hno)

/-! ### Searches that find the same -/

section Search

variable {α β : Type*} {p q : α → Bool} {l : List α}

lemma find?_congr_mem (h : ∀ x ∈ l, p x = q x) : l.find? p = l.find? q := by
  induction l with
  | nil => rfl
  | cons x l ih =>
    rw [find?_cons, find?_cons, h x mem_cons_self, ih fun y hy => h y (mem_cons_of_mem x hy)]

/-- A search for more finds the same if there is nothing of that before. -/
theorem find?_map_eq_iff {f : α → β} (hqp : ∀ x, q x → p x) (hf : l.Pairwise fun x y => f x ≠ f y) :
    (l.find? p).map f = (l.find? q).map f ↔ ∀ x ∈ l.takeWhile (! q ·), p x = false := by
  induction l with
  | nil => exact iff_of_true rfl fun _ h => absurd h not_mem_nil
  | cons x l ih =>
    obtain ⟨hx, hl⟩ := pairwise_cons.mp hf
    rw [find?_cons, find?_cons, takeWhile_cons]
    by_cases hq : q x = true
    · rw [hq, hqp x hq]
      exact iff_of_true rfl fun _ h => absurd h not_mem_nil
    · rw [Bool.not_eq_true] at hq
      rw [hq, Bool.not_false, if_pos rfl, forall_mem_cons]
      cases hp : p x with
      | false => exact (ih hl).trans (and_iff_right rfl).symm
      | true =>
        refine iff_of_false (fun h => ?_) fun h => absurd h.1 (by decide)
        obtain ⟨y, hy, hxy⟩ := map_eq_some_iff.mp h.symm
        exact hx y (mem_of_find?_eq_some hy) hxy.symm

/-- Writing more comes to the same if there is nothing of that. -/
theorem flatMap_filter_eq_iff {g : α → List β} (hqp : ∀ x, q x → p x) (hg : ∀ x, g x ≠ []) :
    (l.filter p).flatMap g = (l.filter q).flatMap g ↔ ∀ x ∈ l, p x → q x := by
  have hle : ∀ l : List α, ((l.filter q).flatMap g).length ≤ ((l.filter p).flatMap g).length := by
    intro l
    have hsub : (l.filter q).Sublist (l.filter p) := monotone_filter_right l hqp
    exact (hsub.flatMap g).length_le
  constructor
  · induction l with
    | nil => exact fun _ _ h => absurd h not_mem_nil
    | cons x l ih =>
      intro h
      by_cases hp : p x = true
      · by_cases hq : q x = true
        · rw [filter_cons_of_pos hp, filter_cons_of_pos hq, flatMap_cons, flatMap_cons] at h
          exact forall_mem_cons.mpr ⟨fun _ => hq, ih (append_cancel_left h)⟩
        · have hlen := congrArg length h
          rw [filter_cons_of_pos hp, filter_cons_of_neg hq, flatMap_cons, length_append] at hlen
          have hpos := length_pos_of_ne_nil (hg x)
          have := hle l
          omega
      · rw [filter_cons_of_neg hp, filter_cons_of_neg (mt (hqp x) hp)] at h
        exact forall_mem_cons.mpr ⟨fun h' => absurd h' hp, ih h⟩
  · intro h
    rw [filter_congr fun x hx => Bool.eq_iff_iff.mpr ⟨h x hx, hqp x⟩]

end Search

section Found

variable {km : KMod} {ts : List (List UInt8)}

variable {x : ℕ × List UInt8}

lemma KMod.Has.mem_of_places (h : km.Has ts) (hx : x ∈ places km.modinfoOff ts) : 0 ∉ x.2 := by
  refine h.not_mem x.2 ?_
  rw [← map_snd_places km.modinfoOff ts]
  exact mem_map_of_mem hx

/-- **What is taken for an entry** of some key. -/
theorem KMod.Has.taken (h : km.Has ts) {key : List UInt8} (hx : x ∈ places km.modinfoOff ts) :
    (x.2 ≠ [] ∧ matchKey km.buf key (entryOf x) = true) ↔ TakenFor key x.2 :=
  and_congr_right fun _ => matchKey_iff (h.mem_of_places hx) (holds_places h.area hx).1

/-- **What `get_info_entry` finds** is the first of them. -/
theorem KMod.Has.getInfoEntry (h : km.Has ts) (key : List UInt8) :
    getInfoEntry km key = ((places km.modinfoOff ts).find? fun x => TakenFor key x.2).map
      valueOf := by
  rw [Kmod.getInfoEntry, h.entries, find?_map, find?_filter, Option.map_map]
  refine congrArg (Option.map valueOf) (find?_congr_mem fun x hx => ?_)
  rw [decide_eq_decide, decide_eq_true_eq]
  exact h.taken hx

/-- **What `dump_module_aliases` writes** is all of them. -/
theorem KMod.Has.dumpModuleAliases (h : km.Has ts) (name : List UInt8) :
    dumpModuleAliases km name =
      ((places km.modinfoOff ts).filter fun x => TakenFor aliasKey x.2).flatMap fun x =>
        aliasLine (km.string (valueOf x)) name := by
  have hsame : ∀ x ∈ places km.modinfoOff ts,
      ((matchKey km.buf aliasKey ∘ entryOf) x && decide (x.2 ≠ [])) = decide
        (TakenFor aliasKey x.2) := by
    intro x hx
    rw [Bool.eq_iff_iff, Bool.and_eq_true, decide_eq_true_eq, decide_eq_true_eq, and_comm]
    exact h.taken hx
  rw [Kmod.dumpModuleAliases, h.entries, List.filter_map, List.filter_filter, List.flatMap_map,
    List.filter_congr hsame]
  rfl

/-- The value of an entry is what follows its key. -/
theorem KMod.Has.string_valueOf (h : km.Has ts) (hx : x ∈ places km.modinfoOff ts)
    (heq : equals ∈ x.2) : km.string (valueOf x) = x.2.drop ((keyOf x.2).length + 1) := by
  obtain ⟨hm, hle⟩ := holds_places h.area hx
  obtain ⟨v, hv⟩ := exists_value heq
  have hlen : x.2.length = (keyOf x.2).length + v.length + 1 := by
    have := congrArg length hv
    rw [length_append, length_cons] at this
    omega
  have hdrop : x.2.drop ((keyOf x.2).length + 1) = v := by
    nth_rewrite 2 [hv]
    rw [← drop_drop, drop_left]
    rfl
  have hval : km.buf.Holds (valueOf x) (v ++ [0]) := by
    have hsplit : x.2 ++ [0] = (keyOf x.2 ++ [equals]) ++ (v ++ [0]) := by
      nth_rewrite 1 [hv]
      simp
    rw [hsplit] at hm
    have hrest := (holds_append.mp hm).2
    rwa [length_append, length_singleton, ← add_assoc] at hrest
  obtain ⟨hstr, hend⟩ := holds_append.mp hval
  have hnul : km.buf (valueOf x + v.length) = 0 := hend 0 one_pos
  have hin := h.le_len
  rw [h.off_len] at hin
  have hroom : km.len - valueOf x = v.length + (km.len - valueOf x - v.length - 1 + 1) := by
    rw [valueOf]
    omega
  have hno : ∀ c ∈ v, decide (c ≠ 0) = true := by
    intro c hc
    refine decide_eq_true (ne_of_mem_of_not_mem ?_ (h.mem_of_places hx))
    rw [hv]
    exact mem_append_right _ (mem_cons_of_mem _ hc)
  rw [hdrop, KMod.string, cstr, hroom, load_add, holds_iff_load.mp hstr, load_succ,
    hnul,
    takeWhile_append_of_pos hno, takeWhile_cons_of_neg (by decide), append_nil]

/-- The value of the first entry of the key. -/
def firstOf (km : KMod) (ts : List (List UInt8)) (key : List UInt8) : Option ℕ :=
  ((places km.modinfoOff ts).find? fun x => IsOf key x.2).map valueOf

/-- The lines for the entries that are aliases. -/
def aliasesOf (ts : List (List UInt8)) (name : List UInt8) : List UInt8 :=
  (ts.filter fun t => IsOf aliasKey t).flatMap fun t =>
    aliasLine (t.drop (aliasKey.length + 1)) name

lemma KMod.Has.aliasesOf (h : km.Has ts) (name : List UInt8) :
    ((places km.modinfoOff ts).filter fun x => IsOf aliasKey x.2).flatMap
      (fun x => aliasLine (km.string (valueOf x)) name) = aliasesOf ts name := by
  have hlines : ∀ x ∈ (places km.modinfoOff ts).filter fun x => IsOf aliasKey x.2,
      aliasLine (km.string (valueOf x)) name = aliasLine (x.2.drop (aliasKey.length + 1)) name := by
    intro x hx
    obtain ⟨hin, hof⟩ := List.mem_filter.mp hx
    have hof : IsOf aliasKey x.2 := of_decide_eq_true hof
    rw [h.string_valueOf hin hof.2, hof.1]
  rw [List.flatMap_congr hlines, Kmod.aliasesOf]
  nth_rewrite 2 [← map_snd_places km.modinfoOff ts]
  rw [List.filter_map, List.flatMap_map]
  rfl

/-- **What a module says** is found as it is exactly if nothing else is taken for it: there is
nothing of that before the first entry of the key, or among all of them for the aliases. -/
theorem modinfo_exact_iff (h : km.Has ts) :
    (∀ key, getInfoEntry km key = firstOf km ts key ↔
      ∀ t ∈ ts.takeWhile (fun t => ¬ IsOf key t), ¬ TakenFor key t) ∧
    ∀ name, dumpModuleAliases km name = aliasesOf ts name ↔ ∀ t ∈ ts, TakenFor aliasKey t →
      IsOf aliasKey t := by
  have hof : ∀ key (x : ℕ × List UInt8), decide (IsOf key x.2) = true →
    decide (TakenFor key x.2) = true :=
    fun key x hx => decide_eq_true (of_decide_eq_true hx : IsOf key x.2).takenFor
  constructor
  · intro key
    -- no two values are in the same place
    have hne : (places km.modinfoOff ts).Pairwise fun x y => valueOf x ≠ valueOf y :=
      (places_ordered km.modinfoOff ts).2.imp Nat.ne_of_lt
    have hmap : ts.takeWhile (fun t => ¬ IsOf key t) =
        ((places km.modinfoOff ts).takeWhile fun x => ! decide (IsOf key x.2)).map Prod.snd := by
      nth_rewrite 1 [← map_snd_places km.modinfoOff ts]
      rw [takeWhile_map]
      congr 2
      funext x
      exact decide_not
    rw [h.getInfoEntry, firstOf, find?_map_eq_iff (hof key) hne, hmap, List.forall_mem_map]
    refine forall₂_congr fun x _ => ?_
    rw [decide_eq_false_iff_not]
  · intro name
    have hline : ∀ x, aliasLine (km.string (valueOf x)) name ≠ [] := fun _ => cons_ne_nil _ _
    rw [h.dumpModuleAliases, ← h.aliasesOf, flatMap_filter_eq_iff (hof aliasKey) hline]
    nth_rewrite 2 [← map_snd_places km.modinfoOff ts]
    rw [List.forall_mem_map]
    refine forall₂_congr fun x _ => ?_
    rw [decide_eq_true_eq, decide_eq_true_eq]

end Found

/-- A module that is just its section. -/
def loaded (ts : List (List UInt8)) : KMod where
  buf := store (fun _ => 0) 0 (joined 0 ts [])
  len := (joined 0 ts []).length
  modinfoOff := 0
  modinfoLen := (joined 0 ts []).length

lemma loaded_has (h : ∀ t ∈ ts, 0 ∉ t) : (loaded ts).Has ts :=
  ⟨holds_store _ 0 _, rfl, le_of_eq (zero_add _), h⟩

/-- `depends`. -/
def dependsKey : List UInt8 := [0x64, 0x65, 0x70, 0x65, 0x6E, 0x64, 0x73]

/-- `alias=b`, `alias=c`, `depends=a` and `name=d`. -/
def entries : List (List UInt8) :=
  [aliasKey ++ [0x3D, 0x62], aliasKey ++ [0x3D, 0x63], dependsKey ++ [0x3D, 0x61],
    [0x6E, 0x61, 0x6D, 0x65, 0x3D, 0x64]]

theorem modinfo_exact_iff_entries :
    getInfoEntry (loaded entries) dependsKey = firstOf (loaded entries) entries dependsKey ∧
      ∀ name, dumpModuleAliases (loaded entries) name = aliasesOf entries name := by
  have hhas : (loaded entries).Has entries := loaded_has (by decide)
  obtain ⟨hentry, haliases⟩ := modinfo_exact_iff hhas
  exact ⟨(hentry dependsKey).mpr (by decide), fun name => (haliases name).mpr (by decide)⟩

/-- **Another entry may be taken for it**: `d=b` before `depends=a`. -/
theorem not_modinfo_exact : ¬ ∀ (km : KMod) (ts : List (List UInt8)), km.Has ts →
    (∀ key, getInfoEntry km key = firstOf km ts key) ∧
      ∀ name, dumpModuleAliases km name = aliasesOf ts name := by
  intro h
  have hhas := loaded_has (show ∀ t ∈ [[0x64, 0x3D, 0x62], dependsKey ++ [0x3D, 0x61]],
    0 ∉ t by decide)
  have hkey := (h _ _ hhas).1 dependsKey
  rw [hhas.getInfoEntry] at hkey
  exact absurd hkey (by decide)

end Minibase.Kmod
