import Minibase.Wsupp.Ies

/-!
# What the acceptance of a station depends on

Whether a station is accepted should depend on what that station sent, and no byte elsewhere
should be looked at; for the element with the ciphers, no byte outside that element
(`Wsupp.Contained`). But `find_int` is not told where the element ends, so that a list of ciphers
may go on in what lies behind it; and `find_ie` looks at the length of an element of which there is
a single byte. All is well just if neither happens (`Wsupp.Sealed`, `Wsupp.contained_iff`).
-/

namespace Minibase.Wsupp

open Peek

/-! ### What is asked -/

/-- Where the block of a station starts. -/
def start (sc : Slot) : ℕ := sc.ies.getD 0

/-- And where it ends. -/
def stop (sc : Slot) : ℕ := start sc + sc.ieslen.toNat

/-- The address is one of the block. -/
def InIes (sc : Slot) (a : ℕ) : Prop := start sc ≤ a ∧ a < stop sc

/-- The memories have the same block. -/
def Same (sc : Slot) (m m' : Mem) : Prop := ∀ a, InIes sc a → m' a = m a

/-- The element at `ie` is as long as the name of the network, and has that name in it. -/
def Named (ap : Ap) (m : Mem) (ie : ℕ) : Prop :=
  (m (ie + 1)).toNat = ap.slen ∧ m.Holds (ie + 2) ap.ssid

/-- **The case that `parse_rsn_ie` is called**, with the element at `r`. -/
def Parsed (ap : Ap) (sc : Slot) (m : Mem) (r : ℕ) : Prop :=
  ∃ ie, (findIe (start sc) sc.ieslen.toNat 0).val m = some ie ∧ Named ap m ie ∧
    (findIe (start sc) sc.ieslen.toNat 48).val m = some r

/-- **The station is judged by its own elements.** -/
structure Contained (ap : Ap) (sc : Slot) (m : Mem) : Prop where
  /-- Any memory with the same block gives the same flags. -/
  flags : ∀ m', Same sc m m' → ((checkApIes ap sc).val m').flags = ((checkApIes ap sc).val m).flags
  /-- No byte outside the block is read. -/
  block : ∀ a ∈ (checkApIes ap sc).reads m, InIes sc a
  /-- No byte outside the element is read by `parse_rsn_ie`. -/
  element : ∀ r, Parsed ap sc m r →
    ∀ a ∈ (parseRsnIe sc (m (r + 1)).toNat (r + 2)).reads m,
      r + 2 ≤ a ∧ a < r + 2 + (m (r + 1)).toNat

/-! ### The blocks for which it is so -/

/-- `pcnt`, for the element from `buf` to `e`. -/
def pcnt (m : Mem) (buf e : ℕ) : ℕ := num2 m (buf + 6) e

def akms (m : Mem) (buf e : ℕ) : ℕ := buf + 8 + 4 * pcnt m buf e + 2

def acnt (m : Mem) (buf e : ℕ) : ℕ := num2 m (buf + 8 + 4 * pcnt m buf e) e

/-- CCMP is among the pairwise ciphers. -/
def Pairwise (m : Mem) (buf e : ℕ) : Prop :=
  ∃ i < pcnt m buf e, num4 m (buf + 8 + 4 * i) = RSN_CIPHER_CCMP

/-- **The lists of the element end with it**, as far as they are searched. -/
def RsnOk (m : Mem) (buf e : ℕ) : Prop :=
  num2 m buf e = 1 → ListOk m (buf + 8) (pcnt m buf e) RSN_CIPHER_CCMP e ∧
    (Pairwise m buf e → ListOk m (akms m buf e) (acnt m buf e) RSN_AKM_PSK e)

/-- **Nothing leads out of the block**: neither search for an element ends with a single byte,
and the lists of ciphers end with their element. -/
structure Sealed (ap : Ap) (sc : Slot) (m : Mem) : Prop where
  name : ¬ Dangles m (stop sc) 0 (start sc)
  rsn : ∀ ie, First m (stop sc) 0 (start sc) ie → Named ap m ie →
    ¬ Dangles m (stop sc) 48 (start sc)
  lists : ∀ ie r, First m (stop sc) 0 (start sc) ie → Named ap m ie →
    First m (stop sc) 48 (start sc) r → RsnOk m (r + 2) (r + 2 + (m (r + 1)).toNat)

/-! ### Where the functions look -/

variable {ap : Ap} {sc : Slot} {m m' : Mem} {a r len buf : ℕ}

lemma mem_reads_parseRsnIe : a ∈ (parseRsnIe sc len buf).reads m ↔
    a ∈ (get2le buf (buf + len)).reads m ∨ num2 m buf (buf + len) = 1 ∧
      (a ∈ (get4be (buf + 2) (buf + len)).reads m ∨ a ∈ (get2le (buf + 6) (buf + len)).reads m ∨
        a ∈ (get2le (buf + 8 + 4 * pcnt m buf (buf + len)) (buf + len)).reads m ∨
        a ∈ (findInt (buf + 8) (pcnt m buf (buf + len)) RSN_CIPHER_CCMP).reads m ∨
        Pairwise m buf (buf + len) ∧
          a ∈ (findInt (akms m buf (buf + len)) (acnt m buf (buf + len)) RSN_AKM_PSK).reads m) := by
  rw [parseRsnIe, mem_reads_bind, get2le_val, reads_ite]
  refine or_congr_right ?_
  split_ifs with hv
  · simp [hv]
  · rw [not_not] at hv
    simp only [mem_reads_bind, get2le_val, hv, true_and]
    refine or_congr_right (or_congr_right (or_congr_right (or_congr_right ?_)))
    rw [reads_ite]
    have hp : (findInt (buf + 8) (num2 m (buf + 6) (buf + len)) RSN_CIPHER_CCMP).val m = true ↔
        Pairwise m buf (buf + len) := findInt_val
    by_cases hc : Pairwise m buf (buf + len)
    · rw [if_neg (by rw [hp.mpr hc]; decide), mem_reads_bind]
      simp only [reads_ite, reads_pure, ite_self, List.not_mem_nil, or_false, hc, true_and]
      rfl
    · rw [if_pos (by rw [← Bool.not_eq_true, hp]; exact hc)]
      simp [hc]

/-- **`parse_rsn_ie` stays in the element if the lists do.** -/
theorem parseRsnIe_reads_iff :
    (∀ a ∈ (parseRsnIe sc len buf).reads m, buf ≤ a ∧ a < buf + len) ↔ RsnOk m buf (buf + len) := by
  constructor
  · intro h hv
    refine ⟨findInt_reads_lt_iff.mp fun a ha => ?_, fun hp => findInt_reads_lt_iff.mp fun a ha =>
      ?_⟩
    · exact (h a (mem_reads_parseRsnIe.mpr (.inr ⟨hv, .inr (.inr (.inr (.inl ha)))⟩))).2
    · exact (h a (mem_reads_parseRsnIe.mpr (.inr ⟨hv, .inr (.inr (.inr (.inr ⟨hp, ha⟩)))⟩))).2
  · intro h a ha
    rcases mem_reads_parseRsnIe.mp ha with ha | ⟨hv, ha | ha | ha | ha | ⟨hp, ha⟩⟩
    · exact get2le_reads ha
    · have := mem_reads_get4be.mp ha
      omega
    · have := get2le_reads ha
      omega
    · have := get2le_reads ha
      omega
    · have h1 := findInt_reads_lt_iff.mpr (h hv).1 a ha
      obtain ⟨i, -, -, h2, -⟩ := mem_reads_findInt.mp ha
      omega
    · have h1 := findInt_reads_lt_iff.mpr ((h hv).2 hp) a ha
      obtain ⟨i, -, -, h2, -⟩ := mem_reads_findInt.mp ha
      rw [akms] at h2
      omega

variable {type : ℕ}

lemma findIe_first :
    (findIe (start sc) sc.ieslen.toNat type).val m = some r ↔ First m (stop sc) type (start sc) r :=
  findIe_eq_some

lemma mem_reads_checkApIes : a ∈ (checkApIes ap sc).reads m ↔
    a ∈ (findIe (start sc) sc.ieslen.toNat 0).reads m ∨
    ∃ ie, First m (stop sc) 0 (start sc) ie ∧ (a = ie + 1 ∨ (m (ie + 1)).toNat = ap.slen ∧
      (a ∈ (memcmp (ie + 2) ap.ssid).reads m ∨ m.Holds (ie + 2) ap.ssid ∧
        (a ∈ (findIe (start sc) sc.ieslen.toNat 48).reads m ∨
        ∃ r, First m (stop sc) 48 (start sc) r ∧ (a = r + 1 ∨
          a ∈ (parseRsnIe sc (m (r + 1)).toNat (r + 2)).reads m)))) := by
  have hs : sc.ies.getD 0 = start sc := rfl
  simp only [← findIe_first, checkApIes, hs]
  rw [mem_reads_bind]
  refine or_congr_right ?_
  cases (findIe (start sc) sc.ieslen.toNat 0).val m with
  | none => simp
  | some ie =>
    simp only [Option.some.injEq, exists_eq_left']
    rw [mem_reads_bind, mem_reads_byte, val_byte, reads_ite]
    refine or_congr_right ?_
    split_ifs with hlen
    · simp [hlen]
    · rw [not_not] at hlen
      rw [mem_reads_bind, reads_ite]
      simp only [hlen, true_and]
      refine or_congr_right ?_
      split_ifs with hd
      · rw [ne_eq, memcmp_eq_zero] at hd
        simp [hd]
      · rw [not_not, memcmp_eq_zero] at hd
        rw [mem_reads_bind]
        simp only [hd, true_and]
        refine or_congr_right ?_
        cases (findIe (start sc) sc.ieslen.toNat 48).val m with
        | none => simp
        | some r =>
          simp only [Option.some.injEq, exists_eq_left', mem_reads_bind, mem_reads_byte, val_byte,
            mem_reads_parseRsnIe]

/-! ### When it is so -/

lemma parsed_iff : Parsed ap sc m r ↔ ∃ ie, First m (stop sc) 0 (start sc) ie ∧
    Named ap m ie ∧ First m (stop sc) 48 (start sc) r := by
  simp only [Parsed, findIe_first]

lemma findIe_reads_inIes :
    (∀ a ∈ (findIe (start sc) sc.ieslen.toNat type).reads m, InIes sc a) ↔
      ¬ Dangles m (stop sc) type (start sc) := findIe_reads_iff

/-- The bytes of an element that is found are in the block. -/
theorem First.inIes (h : First m (stop sc) type (start sc) r) (h1 : r ≤ a)
    (h2 : a < r + 2 + (m (r + 1)).toNat) : InIes sc a := by
  have := h.bounds
  exact ⟨by omega, by omega⟩

lemma Contained.sealed (h : Contained ap sc m) : Sealed ap sc m where
  name := findIe_reads_inIes.mp fun a ha => h.block a (mem_reads_checkApIes.mpr (.inl ha))
  rsn := by
    rintro ie hf ⟨hlen, hname⟩
    refine findIe_reads_inIes.mp fun a ha => h.block a (mem_reads_checkApIes.mpr (.inr ?_))
    exact ⟨ie, hf, .inr ⟨hlen, .inr ⟨hname, .inl ha⟩⟩⟩
  lists := by
    intro ie r hf hname hr
    exact parseRsnIe_reads_iff.mp (h.element r (parsed_iff.mpr ⟨ie, hf, hname, hr⟩))

lemma Sealed.block (h : Sealed ap sc m) (ha : a ∈ (checkApIes ap sc).reads m) : InIes sc a := by
  rcases mem_reads_checkApIes.mp ha with
    ha | ⟨ie, hf, rfl | ⟨hlen, ha | ⟨hname, ha | ⟨r, hr, rfl | ha⟩⟩⟩⟩
  · exact findIe_reads_inIes.mpr h.name a ha
  · exact hf.inIes (by omega) (by omega)
  · have hb := memcmp_reads ha
    rw [Ap.slen] at hlen
    exact hf.inIes (by omega) (by omega)
  · exact findIe_reads_inIes.mpr (h.rsn ie hf ⟨hlen, hname⟩) a ha
  · exact hr.inIes (by omega) (by omega)
  · have hb := parseRsnIe_reads_iff.mpr (h.lists ie r hf ⟨hlen, hname⟩ hr) a ha
    exact hr.inIes (by omega) (by omega)

lemma Sealed.contained (h : Sealed ap sc m) : Contained ap sc m where
  flags m' hm := by
    rw [(checkApIes_frugal ap sc m m' fun a ha => hm a (h.block ha)).1]
  block _ ha := h.block ha
  element r hr := by
    obtain ⟨ie, hf, hname, hr⟩ := parsed_iff.mp hr
    exact parseRsnIe_reads_iff.mpr (h.lists ie r hf hname hr)

/-- **A station is judged by its own elements if nothing in its block leads out of it**, and
only then. -/
theorem contained_iff (ap : Ap) (sc : Slot) (m : Mem) : Contained ap sc m ↔ Sealed ap sc m :=
  ⟨Contained.sealed, Sealed.contained⟩

/-! ### What is set -/

/-- The flags that are set for a group cipher. -/
def added (group : ℕ) : UInt32 :=
  if group = RSN_CIPHER_TKIP then SF_TKIP ||| SF_GOOD
  else if group = RSN_CIPHER_CCMP then SF_GOOD
  else 0

/-- PSK is among the key managements. -/
def Akm (m : Mem) (buf e : ℕ) : Prop :=
  ∃ i < acnt m buf e, num4 m (akms m buf e + 4 * i) = RSN_AKM_PSK

/-- **The element is one that will do**, but for the group cipher. -/
def Accept (m : Mem) (buf e : ℕ) : Prop := num2 m buf e = 1 ∧ Pairwise m buf e ∧ Akm m buf e

lemma pairwise_room (h : Pairwise m buf (buf + len)) : 9 ≤ len := by
  obtain ⟨i, hi, -⟩ := h
  rw [pcnt, num2] at hi
  split_ifs at hi
  · omega
  · omega

lemma parseRsnIe_flags (h : Accept m buf (buf + len)) :
    ((parseRsnIe sc len buf).val m).flags = sc.flags ||| added (num4 m (buf + 2)) := by
  obtain ⟨hv, hp, ha⟩ := h
  have hroom := pairwise_room hp
  have hpair : (findInt (buf + 8) (pcnt m buf (buf + len)) RSN_CIPHER_CCMP).val m = true :=
    findInt_val.mpr hp
  have hakm : (findInt (akms m buf (buf + len)) (acnt m buf (buf + len)) RSN_AKM_PSK).val m =
    true :=
    findInt_val.mpr ha
  rw [parseRsnIe, val_bind, get2le_val, hv, if_neg (by simp)]
  simp only [val_bind, get2le_val, val_ite, get4be_val (show buf + 2 + 4 ≤ buf + len by omega)]
  rw [pcnt] at hpair
  rw [akms, acnt, pcnt] at hakm
  rw [hpair, hakm, if_neg (by simp), if_neg (by simp), added]
  split_ifs
  · exact UInt32.or_assoc ..
  · rfl
  · exact UInt32.or_zero.symm

lemma parseRsnIe_of_not (h : ¬ Accept m buf (buf + len)) : (parseRsnIe sc len buf).val m = sc := by
  rw [parseRsnIe, val_bind, get2le_val, val_ite]
  split_ifs with hv
  · rfl
  rw [not_not] at hv
  simp only [val_bind, get2le_val, val_ite, val_pure]
  split_ifs with hp hk
  · rfl
  · rfl
  · exact absurd ⟨hv, findInt_val.mp (Bool.eq_true_of_not_eq_false hp),
      findInt_val.mp (Bool.eq_true_of_not_eq_false hk)⟩ h
  · exact absurd ⟨hv, findInt_val.mp (Bool.eq_true_of_not_eq_false hp),
      findInt_val.mp (Bool.eq_true_of_not_eq_false hk)⟩ h
  · rfl

/-- The slot, once it is seen. -/
def seen (sc : Slot) : Slot := { sc with flags := sc.flags ||| SF_SEEN }

lemma checkApIes_parsed (h : Parsed ap sc m r) :
    (checkApIes ap sc).val m = (parseRsnIe (seen sc) (m (r + 1)).toNat (r + 2)).val m := by
  obtain ⟨ie, hie, ⟨hlen, hname⟩, hr⟩ := h
  have hs : sc.ies.getD 0 = start sc := rfl
  simp only [checkApIes, hs]
  rw [val_bind, hie]
  rw [val_bind, val_byte, if_neg (by rw [hlen]; simp), val_bind, memcmp_eq_zero.mpr hname,
    if_neg (by simp), val_bind, hr]
  dsimp only
  rw [val_bind, val_byte]
  rfl

lemma checkApIes_not_parsed (h : ∀ r, ¬ Parsed ap sc m r) : (checkApIes ap sc).val m = seen sc := by
  have hs : sc.ies.getD 0 = start sc := rfl
  simp only [checkApIes, hs]
  rw [val_bind]
  rcases hie : (findIe (start sc) sc.ieslen.toNat 0).val m with _ | ie
  · rfl
  rw [val_bind, val_byte, val_ite]
  split_ifs with hlen
  · rfl
  rw [val_bind, val_ite]
  split_ifs with hname
  · rfl
  rw [not_not] at hlen hname
  rw [val_bind]
  rcases hr : (findIe (start sc) sc.ieslen.toNat 48).val m with _ | r
  · rfl
  · exact absurd ⟨ie, hie, ⟨hlen, memcmp_eq_zero.mp hname⟩, hr⟩ (h r)

/-! ### When the flags depend on the rest of the memory -/

/-- The bytes of `RSN_AKM_PSK`. -/
def psk : List UInt8 := [0x00, 0x0F, 0xAC, 0x02]

lemma num4_eq_psk {p : ℕ} : num4 m p = RSN_AKM_PSK ↔ m.Holds p psk := by
  have h0 := (m p).toNat_lt
  have h1 := (m (p + 1)).toNat_lt
  have h2 := (m (p + 2)).toNat_lt
  have h3 := (m (p + 3)).toNat_lt
  have hholds : m.Holds p psk ↔ (m p).toNat = 0 ∧ (m (p + 1)).toNat = 15 ∧
      (m (p + 2)).toNat = 172 ∧ (m (p + 3)).toNat = 2 := by
    constructor
    · intro h
      exact ⟨congrArg UInt8.toNat (h 0 (by decide)), congrArg UInt8.toNat (h 1 (by decide)),
        congrArg UInt8.toNat (h 2 (by decide)), congrArg UInt8.toNat (h 3 (by decide))⟩
    · rintro ⟨h0, h1, h2, h3⟩ i hi
      apply UInt8.toNat_inj.mp
      obtain _ | _ | _ | _ | i := i
      · exact h0
      · exact h1
      · exact h2
      · exact h3
      · exact absurd hi (by simp [psk])
  rw [hholds, num4, RSN_AKM_PSK]
  omega

/-- Where the list of key managements is, for the element at `r`. -/
def akmsOf (m : Mem) (r : ℕ) : ℕ := akms m (r + 2) (r + 2 + (m (r + 1)).toNat)

/-- And how many there are in it, as the element has it. -/
def acntOf (m : Mem) (r : ℕ) : ℕ := acnt m (r + 2) (r + 2 + (m (r + 1)).toNat)

/-- **What is behind the block decides**: the station is good but for the list of key
managements; PSK is not in the list as far as the block goes; a number of the list goes past the
block, and could be PSK; and the flags that are set then are not set yet. -/
structure Exposed (ap : Ap) (sc : Slot) (m : Mem) (r : ℕ) : Prop where
  parsed : Parsed ap sc m r
  version : num2 m (r + 2) (r + 2 + (m (r + 1)).toNat) = 1
  pairwise : Pairwise m (r + 2) (r + 2 + (m (r + 1)).toNat)
  news : (seen sc).flags ||| added (num4 m (r + 2 + 2)) ≠ (seen sc).flags
  absent : ∀ i < acntOf m r, akmsOf m r + 4 * i + 4 ≤ stop sc → ¬ m.Holds (akmsOf m r + 4 * i) psk
  possible : ∃ i < acntOf m r, stop sc < akmsOf m r + 4 * i + 4 ∧
    ∀ k (h : k < psk.length), akmsOf m r + 4 * i + k < stop sc → m (akmsOf m r + 4 * i + k) = psk[k]

/-! What is in the block is the same in all memories that have that block. -/

lemma First.congr {e p : ℕ} (h : First m e type p r)
    (hm : ∀ a, p ≤ a → a < e → m' a = m a) : First m' e type p r := by
  obtain ⟨hp, hw, ht⟩ := h
  induction hp with
  | here p =>
    rw [nextIe] at hw
    refine ⟨Passes.here p, ?_, ?_⟩
    · rw [nextIe, hm (p + 1) (by omega) (by omega)]
      exact hw
    · rw [hm p (by omega) (by omega)]
      exact ht
  | @past p q hn hne hp ih =>
    have hle := hn
    rw [nextIe] at hle
    have h := ih (fun a h1 h2 => hm a (by rw [nextIe] at h1; omega) h2) hw ht
    have hnext : nextIe m' p = nextIe m p := by
      rw [nextIe, nextIe, hm (p + 1) (by omega) (by omega)]
    refine ⟨Passes.past (by rw [hnext]; exact hn) ?_ (by rw [hnext]; exact h.passes), h.whole,
      h.type_eq⟩
    rw [hm p (by omega) (by omega)]
    exact hne

lemma Same.symm (h : Same sc m m') : Same sc m' m := fun a ha => (h a ha).symm

lemma Same.first (h : Same sc m m') (hf : First m (stop sc) type (start sc) r) :
    First m' (stop sc) type (start sc) r :=
  hf.congr fun a h1 h2 => h a ⟨h1, h2⟩

lemma Same.length (h : Same sc m m') (hf : First m (stop sc) type (start sc) r) :
    m' (r + 1) = m (r + 1) :=
  h _ (hf.inIes (by omega) (by omega))

lemma Same.parsed (h : Same sc m m') (hp : Parsed ap sc m r) : Parsed ap sc m' r := by
  obtain ⟨ie, hie, ⟨hlen, hname⟩, hr⟩ := parsed_iff.mp hp
  refine parsed_iff.mpr ⟨ie, h.first hie, ⟨by rw [h.length hie]; exact hlen, ?_⟩, h.first hr⟩
  rw [Ap.slen] at hlen
  exact hname.congr fun i h1 h2 => h i (hie.inIes (by omega) (by omega))

lemma Same.element (h : Same sc m m') (hp : Parsed ap sc m r) {a : ℕ} (h1 : r + 2 ≤ a)
    (h2 : a < r + 2 + (m (r + 1)).toNat) : m' a = m a := by
  obtain ⟨ie, -, -, hr⟩ := parsed_iff.mp hp
  exact h a (hr.inIes (by omega) h2)

section Element

variable {e p : ℕ} (hm : ∀ a, buf ≤ a → a < e → m' a = m a)

include hm

lemma num2_congr (h : buf ≤ p) : num2 m' p e = num2 m p e := by
  rw [num2, num2]
  split_ifs
  · rfl
  · exact Mem.get16_congr (hm p h (by omega)) (hm (p + 1) (by omega) (by omega))

lemma num4_congr (h : buf ≤ p) (he : p + 4 ≤ e) : num4 m' p = num4 m p := by
  rw [num4, num4, hm p h (by omega), hm (p + 1) (by omega) (by omega),
    hm (p + 2) (by omega) (by omega), hm (p + 3) (by omega) (by omega)]

lemma pcnt_congr : pcnt m' buf e = pcnt m buf e := num2_congr hm (by omega)

lemma akms_congr : akms m' buf e = akms m buf e := by rw [akms, akms, pcnt_congr hm]

lemma acnt_congr : acnt m' buf e = acnt m buf e := by
  rw [acnt, acnt, pcnt_congr hm]
  exact num2_congr hm (by omega)

/-- With key managements, the list of pairwise ciphers is inside the element. -/
theorem pairwise_congr (h : acnt m buf e ≠ 0) (hp : Pairwise m buf e) : Pairwise m' buf e := by
  obtain ⟨i, hi, hv⟩ := hp
  rw [acnt, num2] at h
  split_ifs at h with he
  · exact absurd rfl h
  · refine ⟨i, by rw [pcnt_congr hm]; exact hi, ?_⟩
    rw [num4_congr hm (by omega) (by omega)]
    exact hv

end Element

lemma Same.akmsOf_eq (h : Same sc m m') (hp : Parsed ap sc m r) :
    akms m' (r + 2) (r + 2 + (m (r + 1)).toNat) = akmsOf m r :=
  akms_congr fun _ => h.element hp

lemma Same.acntOf_eq (h : Same sc m m') (hp : Parsed ap sc m r) :
    acnt m' (r + 2) (r + 2 + (m (r + 1)).toNat) = acntOf m r :=
  acnt_congr fun _ => h.element hp

lemma start_le_akmsOf (hp : Parsed ap sc m r) : start sc ≤ akmsOf m r := by
  obtain ⟨ie, -, -, hr⟩ := parsed_iff.mp hp
  have := hr.bounds
  rw [akmsOf, akms]
  omega

/-- What `m'` has for an element is accepted, the end of the element being that of `m`. -/
def AcceptAt (m' m : Mem) (r : ℕ) : Prop := Accept m' (r + 2) (r + 2 + (m (r + 1)).toNat)

lemma Same.flags (h : Same sc m m') (hp : Parsed ap sc m r) (ha : AcceptAt m' m r) :
    ((checkApIes ap sc).val m').flags = (seen sc).flags ||| added (num4 m (r + 2 + 2)) := by
  obtain ⟨ie, -, -, hr⟩ := parsed_iff.mp hp
  have hroom := pairwise_room ha.2.1
  rw [checkApIes_parsed (h.parsed hp), h.length hr, parseRsnIe_flags ha,
    num4_congr (fun a => h.element hp) (by omega) (by omega)]

lemma Same.flags_of_not (h : Same sc m m') (hp : Parsed ap sc m r) (ha : ¬ AcceptAt m' m r) :
    ((checkApIes ap sc).val m').flags = (seen sc).flags := by
  obtain ⟨ie, -, -, hr⟩ := parsed_iff.mp hp
  rw [checkApIes_parsed (h.parsed hp), h.length hr, parseRsnIe_of_not ha]

/-- **Two memories with the same block that are judged differently** show that what is behind it
decides. -/
theorem exposed_of_differ {mA mB : Mem} (hA : Same sc m mA) (hB : Same sc m mB)
    (hp : Parsed ap sc m r) (ha : AcceptAt mA m r) (hb : ¬ AcceptAt mB m r)
    (hnews : (seen sc).flags ||| added (num4 m (r + 2 + 2)) ≠ (seen sc).flags) :
    Exposed ap sc m r := by
  have hlen : psk.length = 4 := rfl
  have hstart := start_le_akmsOf hp
  have heA' := fun a h1 h2 => (hA.element hp (a := a) h1 h2).symm
  obtain ⟨hv, hpair, i, hi, hpsk⟩ := ha
  rw [num4_eq_psk, hA.akmsOf_eq hp] at hpsk
  have hpair' : Pairwise m (r + 2) (r + 2 + (m (r + 1)).toNat) :=
    pairwise_congr heA' (by omega) hpair
  rw [hA.acntOf_eq hp] at hi
  rw [num2_congr (fun a => hA.element hp) (le_refl _)] at hv
  -- the other memory does not have PSK in the list at all
  have hno : ∀ j < acntOf m r, ¬ mB.Holds (akmsOf m r + 4 * j) psk := by
    intro j hj hjp
    have hcnt : acnt m (r + 2) (r + 2 + (m (r + 1)).toNat) ≠ 0 := by
      rw [acntOf] at hj
      omega
    refine hb ⟨by rw [num2_congr (fun a => hB.element hp) (le_refl _)]; exact hv,
      pairwise_congr (fun a => hB.element hp) hcnt hpair', j, by rw [hB.acntOf_eq hp]; exact hj, ?_⟩
    rw [num4_eq_psk, hB.akmsOf_eq hp]
    exact hjp
  have habsent : ∀ j < acntOf m r, akmsOf m r + 4 * j + 4 ≤ stop sc →
      ¬ m.Holds (akmsOf m r + 4 * j) psk := fun j hj hje hjp =>
    hno j hj (hjp.congr fun a h1 h2 => hB a ⟨by omega, by omega⟩)
  refine ⟨hp, hv, hpair', hnews, habsent, i, hi, ?_, fun k hk hlt => ?_⟩
  · by_contra hc
    exact habsent i hi (by omega) (hpsk.congr fun a h1 h2 => (hA a ⟨by omega, by omega⟩).symm)
  · rw [← hpsk k hk]
    exact (hA _ ⟨by omega, hlt⟩).symm

/-- A memory with the block of `m`, and `rest` everywhere else. -/
def around (sc : Slot) (m rest : Mem) : Mem :=
  fun a => if start sc ≤ a ∧ a < stop sc then m a else rest a

lemma same_around (sc : Slot) (m rest : Mem) : Same sc m (around sc m rest) :=
  fun _ ha => if_pos ha

/-- **The flags depend on the block alone unless what is behind it decides.** -/
theorem flags_own_iff (ap : Ap) (sc : Slot) (m : Mem) :
    (∀ m', Same sc m m' → ((checkApIes ap sc).val m').flags = ((checkApIes ap sc).val m).flags) ↔
      ∀ r, ¬ Exposed ap sc m r := by
  constructor
  · intro h r hx
    obtain ⟨i, hi, hpast, hpart⟩ := hx.possible
    have hstart := start_le_akmsOf hx.parsed
    have hlen : psk.length = 4 := rfl
    -- one memory completes the list with PSK, the other one with what is no key management
    let mA := around sc m (m.store (akmsOf m r + 4 * i) psk)
    let mB := around sc m fun _ => 0xFF
    have hA : Same sc m mA := same_around sc m _
    have hB : Same sc m mB := same_around sc m _
    have hcnt : acnt m (r + 2) (r + 2 + (m (r + 1)).toNat) ≠ 0 := by
      rw [acntOf] at hi
      omega
    have hacc : AcceptAt mA m r := by
      refine ⟨by rw [num2_congr (fun a => hA.element hx.parsed) (le_refl _)]; exact hx.version,
        pairwise_congr (fun a => hA.element hx.parsed) hcnt hx.pairwise, i,
        by rw [hA.acntOf_eq hx.parsed]; exact hi, ?_⟩
      rw [num4_eq_psk, hA.akmsOf_eq hx.parsed]
      intro k hk
      by_cases hin : akmsOf m r + 4 * i + k < stop sc
      · rw [hA _ ⟨by omega, hin⟩]
        exact hpart k hk hin
      · have hout : mA (akmsOf m r + 4 * i + k) =
            m.store (akmsOf m r + 4 * i) psk (akmsOf m r + 4 * i + k) := if_neg (by omega)
        rw [hout, Mem.store_of_lt hk]
    have hrej : ¬ AcceptAt mB m r := by
      rintro ⟨-, -, j, hj, hpsk⟩
      rw [num4_eq_psk, hB.akmsOf_eq hx.parsed] at hpsk
      rw [hB.acntOf_eq hx.parsed] at hj
      by_cases hin : akmsOf m r + 4 * j + 4 ≤ stop sc
      · exact hx.absent j hj hin (hpsk.congr fun a h1 h2 => (hB a ⟨by omega, by omega⟩).symm)
      · have hlast : mB (akmsOf m r + 4 * j + 3) = 0xFF := if_neg (by omega)
        have := hpsk 3 (by decide)
        rw [hlast] at this
        exact absurd this (by decide)
    have hfA := h mA hA
    have hfB := h mB hB
    rw [hA.flags hx.parsed hacc] at hfA
    rw [hB.flags_of_not hx.parsed hrej] at hfB
    exact hx.news (hfA.trans hfB.symm)
  · intro h m' hm
    have hself : Same sc m m := fun _ _ => rfl
    by_cases hp : ∃ r, Parsed ap sc m r
    · obtain ⟨r, hp⟩ := hp
      by_cases hnews : (seen sc).flags ||| added (num4 m (r + 2 + 2)) = (seen sc).flags
      · have hall : ∀ m'', Same sc m m'' →
            ((checkApIes ap sc).val m'').flags = (seen sc).flags := by
          intro m'' hs
          by_cases ha : AcceptAt m'' m r
          · rw [hs.flags hp ha, hnews]
          · exact hs.flags_of_not hp ha
        rw [hall m' hm, hall m hself]
      · by_cases ha : AcceptAt m m r
        · by_cases ha' : AcceptAt m' m r
          · rw [hm.flags hp ha', hself.flags hp ha]
          · exact absurd (exposed_of_differ hself hm hp ha ha' hnews) (h r)
        · by_cases ha' : AcceptAt m' m r
          · exact absurd (exposed_of_differ hm hself hp ha' ha hnews) (h r)
          · rw [hm.flags_of_not hp ha', hself.flags_of_not hp ha]
    · have hp' : ¬ ∃ r, Parsed ap sc m' r := fun ⟨r, hr⟩ => hp ⟨r, hm.symm.parsed hr⟩
      rw [checkApIes_not_parsed (not_exists.mp hp), checkApIes_not_parsed (not_exists.mp hp')]

/-- **A station is judged by its own elements exactly if nothing leads out of its block**, and its
flags depend on its own elements exactly if what is behind them does not decide. -/
theorem acceptance_iff (ap : Ap) (sc : Slot) (m : Mem) :
    (Contained ap sc m ↔ Sealed ap sc m) ∧
    ((∀ m', Same sc m m' → ((checkApIes ap sc).val m').flags = ((checkApIes ap sc).val m).flags) ↔
      ∀ r, ¬ Exposed ap sc m r) :=
  ⟨contained_iff ap sc m, flags_own_iff ap sc m⟩

/-- The name `A`, and an element that ends with the first byte of its one key management. -/
def cutShort : List UInt8 :=
  [0, 1, 0x41, 48, 15, 1, 0, 0x00, 0x0F, 0xAC, 0x04, 1, 0, 0x00, 0x0F, 0xAC, 0x04, 1, 0, 0x00]

/-- With zeros behind that block, the station is not good, and with the rest of the number it
is. -/
theorem not_contained : ¬ ∀ ap sc m, Contained ap sc m := by
  intro h
  have hflags := (h { Ap.zero with ssid := [0x41] } { Slot.zero with ieslen := 20, ies := some 0 }
    (fun a => cutShort.getD a 0)).flags (fun a => (cutShort ++ [0x0F, 0xAC, 0x02]).getD a 0) (by
      rintro a ⟨-, ha⟩
      have ha : a < cutShort.length := ha
      simp only [List.getD_eq_getElem?_getD]
      rw [List.getElem?_append_left ha])
  exact absurd hflags (by decide)

end Minibase.Wsupp
