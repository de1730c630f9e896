import Minibase.Nlusctl.Attr

/-!
# Reading a message nobody vouches for

`Nlusctl.Safe` says what it means for one message and one key that the reading functions stay inside
it: every attribute handed out lies behind the message header, is at least as long as its own header
and ends within the message; a pointer to a payload covers bytes of the message; a string is
terminated inside its own payload; and no byte elsewhere is looked at.

`attr_in` never compares the length of an attribute with the size of its header, so that an
attribute of length 0 to 3 is handed out, and `is_zstr` looks at the first byte of a payload even
when the payload is empty. These are the only two ways to fail (`Nlusctl.safe_iff`). -/

namespace Minibase.Nlusctl

open Peek List

/-! ### What reading safely means -/

/-- The addresses of a message: its header, and what its length covers. -/
def InMsg (m : Mem) (a : ℕ) : Prop := a < 4 ∨ a < m.get16 0

/-- An attribute that can be handed out: it lies behind the header of the message,
has a header of its own and ends within the message. -/
structure AttrOk (m : Mem) (at_ : ℕ) : Prop where
  /-- It begins after the header of the message. -/
  after : 4 ≤ at_
  /-- It is at least as long as its own header. -/
  hdr : 4 ≤ m.get16 at_
  /-- It ends within the message. -/
  within : at_ + m.get16 at_ ≤ m.get16 0

/-- **Reading the message `m`, of `len` received bytes, for `key` is safe.** -/
structure Safe (len : ℤ) (m : Mem) (key : ℤ) : Prop where
  /-- The message is made of received bytes, and of the length field. -/
  recv : ∀ a, InMsg m a → (a : ℤ) < i32 (2 + len)
  /-- The iteration stops, every attribute it visits can be handed out, its
  payload length is not negative, and the step from it stays in the message. -/
  walk : ∃ ats, Walk m 0 ((ucGet0 0).val m) ats ∧ ∀ at_ ∈ ats, AttrOk m at_ ∧
    0 ≤ (ucPaylen at_).val m ∧ ∀ a ∈ (ucGetN 0 at_).reads m, InMsg m a
  /-- The iteration starts in the message. -/
  reads0 : ∀ a ∈ (ucGet0 0).reads m, InMsg m a
  /-- So does the search for the key, and it stays there. -/
  get : ∀ at_, (ucGet 0 key).val m = some at_ → AttrOk m at_
  readsGet : ∀ a ∈ (ucGet 0 key).reads m, InMsg m a
  /-- A pointer to a payload of a given length covers bytes of the message. -/
  bin : ∀ (n : ℕ) (p : ℕ), (ucGetBin 0 key n).val m = some p → 4 ≤ p ∧ p + n ≤ m.get16 0
  readsBin : ∀ (n : ℕ), ∀ a ∈ (ucGetBin 0 key n).reads m, InMsg m a
  int : ∀ p, (ucGetInt 0 key).val m = some p → 4 ≤ p ∧ p + 4 ≤ m.get16 0
  i64 : ∀ p, (ucGetI64 0 key).val m = some p → 4 ≤ p ∧ p + 8 ≤ m.get16 0
  /-- A string is terminated inside the payload of its attribute. -/
  str : ∀ p, (ucGetStr 0 key).val m = some p → ∃ at_ z, (ucGet 0 key).val m = some at_ ∧
    p = ucPayload at_ ∧ p ≤ z ∧ z < at_ + m.get16 at_ ∧ m z = 0
  readsStr : ∀ a ∈ (ucGetStr 0 key).reads m, InMsg m a

/-! ### The bytes that can be read safely -/

/-- **The bytes from `q` on are a chain of attributes**, each at least as long as
its header, up to a point where no whole attribute is left before `L`. -/
inductive Layout (m : Mem) (L : ℕ) : ℕ → List ℕ → Prop
  /-- There is no room for a header, or the length runs past the end. -/
  | stop {q : ℕ} : L < q + 4 ∨ L < q + m.get16 q → Layout m L q []
  /-- There is an attribute, and the chain goes on behind its padding. -/
  | attr {q : ℕ} {ats : List ℕ} : q + 4 ≤ L → 4 ≤ m.get16 q → q + m.get16 q ≤ L →
      Layout m L (q + roundUp4 (m.get16 q)) ats → Layout m L q (q :: ats)

/-- The attribute has the key. -/
def keyed (m : Mem) (key : ℤ) (at_ : ℕ) : Bool := decide ((m.get16 (at_ + 2) : ℤ) = key)

/-- **The bytes of a message that is safe to read for `key`**: a chain of
attributes, of which the first with that key, if it is an empty one, is followed in
the message by a byte that is not zero. -/
def Readable (m : Mem) (key : ℤ) : Prop :=
  ∃ ats, Layout m (m.get16 0) 4 ats ∧ ∀ at_, ats.find? (keyed m key) = some at_ →
    m.get16 at_ = 4 → at_ + 4 < m.get16 0 ∧ m (at_ + 4) ≠ 0

variable {m : Mem} {L q : ℕ} {ats : List ℕ}

/-- The attributes of a chain lie between where it starts and its end. -/
theorem Layout.mem (h : Layout m L q ats) {at_ : ℕ} (hat : at_ ∈ ats) :
    q ≤ at_ ∧ 4 ≤ m.get16 at_ ∧ at_ + m.get16 at_ ≤ L := by
  induction h with
  | stop _ => simp at hat
  | @attr q ats _ h4 hle _ ih =>
    rcases mem_cons.mp hat with rfl | hmem
    · exact ⟨le_refl _, h4, hle⟩
    · obtain ⟨h1, h2⟩ := ih hmem
      exact ⟨by omega, h2⟩

/-- A chain is no longer than the space it lies in. -/
theorem Layout.length_le (h : Layout m L q ats) : ats.length ≤ L - q := by
  induction h with
  | stop _ => simp
  | @attr q ats _ h4 hle _ ih =>
    have := le_roundUp4 (m.get16 q)
    rw [length_cons]
    omega

/-- **A chain of attributes is what the iteration visits.** -/
theorem Layout.walk (h : Layout m (m.get16 0) q ats) :
    Walk m 0 ((attrIn q (m.get16 0)).val m) ats := by
  induction h with
  | @stop q hs =>
    rw [attrIn_eq_none.mpr hs]
    exact Walk.done
  | @attr q ats h1 h4 h2 _ ih =>
    rw [attrIn_eq_some.mpr ⟨rfl, h1, h2⟩]
    refine Walk.step ?_
    rw [ucGetN_val, if_neg (by omega), zero_add]
    exact ih

/-- **Conversely**, an iteration over attributes that can be handed out is over a
chain. -/
theorem layout_of_walk {cur : Option ℕ} (hw : Walk m 0 cur ats)
    (hok : ∀ at_ ∈ ats, AttrOk m at_) {q : ℕ} (hcur : cur = (attrIn q (m.get16 0)).val m) :
    Layout m (m.get16 0) q ats := by
  induction hw generalizing q with
  | done => exact Layout.stop (attrIn_eq_none.mp hcur.symm)
  | @step at_ ats _ ih =>
    obtain ⟨rfl, h1, h2⟩ := attrIn_eq_some.mp hcur.symm
    have hat := hok at_ mem_cons_self
    refine Layout.attr h1 hat.hdr h2 (ih (fun b hb => hok b (mem_cons_of_mem _ hb)) ?_)
    have := hat.hdr
    rw [ucGetN_val, if_neg (by omega), zero_add]

/-- The search for a key looks at the attributes of the chain only. -/
theorem ucGet_val (h : Layout m (m.get16 0) 4 ats) (key : ℤ) :
    (ucGet 0 key).val m = ats.find? (keyed m key) := by
  have hlt := m.get16_lt 0
  have hlen := h.length_le
  rw [ucGet, val_bind, ucGet0_val, zero_add, zero_add]
  exact ucGetFrom_eq_find key h.walk (by omega)

/-! ### Where the functions look -/

lemma attrIn_reads {a : ℕ} (h : a ∈ (attrIn q L).reads m) : q + 4 ≤ L ∧ (a = q ∨ a = q + 1) := by
  simp only [attrIn] at h
  split_ifs at h with hc
  · simp at h
  · simp only [mem_reads_bind, mem_reads_word, val_word, reads_ite, reads_pure, ite_self,
      not_mem_nil, or_false] at h
    exact ⟨by omega, h⟩

lemma ucGet0_reads {a : ℕ} (h : a ∈ (ucGet0 0).reads m) : InMsg m a := by
  simp only [ucGet0, mem_reads_bind, mem_reads_word, val_word, zero_add] at h
  rcases h with h | h
  · exact .inl (by omega)
  · exact .inr (by have := attrIn_reads h; omega)

lemma ucGetN_reads {a at_ : ℕ} (hat : AttrOk m at_) (h : a ∈ (ucGetN 0 at_).reads m) :
    InMsg m a := by
  have h4 := hat.hdr
  have hw := hat.within
  simp only [ucGetN, mem_reads_bind, mem_reads_word, val_word, zero_add, reads_ite, reads_pure] at h
  rcases h with h | h | h
  · exact .inl (by omega)
  · exact .inr (by omega)
  · rw [if_neg (by omega)] at h
    exact .inr (by have := attrIn_reads h; omega)

lemma ucIsKeyed_reads {a at_ : ℕ} {key : ℤ} (hat : AttrOk m at_)
    (h : a ∈ (ucIsKeyed at_ key).reads m) : InMsg m a := by
  have h4 := hat.hdr
  have hw := hat.within
  simp only [ucIsKeyed, mem_reads_bind, mem_reads_word, reads_pure, not_mem_nil, or_false] at h
  exact .inr (by omega)

lemma ucPaylen_reads {a at_ : ℕ} (hat : AttrOk m at_) (h : a ∈ (ucPaylen at_).reads m) :
    InMsg m a := by
  have h4 := hat.hdr
  have hw := hat.within
  simp only [ucPaylen, mem_reads_bind, mem_reads_word, reads_pure, not_mem_nil, or_false] at h
  exact .inr (by omega)

lemma ucGetFrom_reads {cur : Option ℕ} (hw : Walk m 0 cur ats)
    (hok : ∀ at_ ∈ ats, AttrOk m at_) {key : ℤ} {fuel a : ℕ}
    (h : a ∈ (ucGetFrom 0 key fuel cur).reads m) : InMsg m a := by
  induction hw generalizing fuel with
  | done => cases fuel <;> simp [ucGetFrom] at h
  | @step at_ ats _ ih =>
    have hat := hok at_ mem_cons_self
    obtain _ | fuel := fuel
    · simp [ucGetFrom] at h
    · rw [ucGetFrom, mem_reads_bind] at h
      rcases h with h | h
      · exact ucIsKeyed_reads hat h
      · split_ifs at h
        · simp at h
        · rw [mem_reads_bind] at h
          rcases h with h | h
          · exact ucGetN_reads hat h
          · exact ih (fun b hb => hok b (mem_cons_of_mem _ hb)) h

/-- `is_zstr` looks at no more than the bytes it was given, and at one if it was
given none. -/
theorem isZstrFrom_reads {p n a : ℕ} (h : a ∈ (isZstrFrom p n).reads m) : p ≤ a ∧ a ≤ p + n := by
  induction n generalizing p with
  | zero =>
    simp only [isZstrFrom, mem_reads_bind, mem_reads_byte, reads_pure, not_mem_nil, or_false] at h
    omega
  | succ n ih =>
    rw [isZstrFrom, mem_reads_bind, mem_reads_byte] at h
    rcases h with h | h
    · omega
    · split_ifs at h
      · simp at h
      · have := ih h
        omega

/-- What `is_zstr` accepts has its zero at the end. -/
theorem isZstrFrom_true {p n : ℕ} (h : (isZstrFrom p n).val m = true) : m (p + n) = 0 := by
  induction n generalizing p with
  | zero => simpa [isZstrFrom] using h
  | succ n ih =>
    simp only [isZstrFrom, val_bind, val_byte, val_ite, val_pure] at h
    split_ifs at h with hc
    rw [show p + (n + 1) = p + 1 + n by omega]
    exact ih h

/-! ### Safe exactly when readable -/

lemma keyed_of_find {key : ℤ} {at_ : ℕ} (h : ats.find? (keyed m key) = some at_) :
    (ucIsKeyed at_ key).val m = true := by
  have hk := find?_some h
  simpa [ucIsKeyed, keyed] using hk

section

variable (h : Layout m (m.get16 0) 4 ats)
include h

variable {at_ : ℕ}

/-- The attribute a chain yields for a key can be handed out. -/
theorem Layout.attrOk (hat : at_ ∈ ats) : AttrOk m at_ :=
  let ⟨h1, h2, h3⟩ := h.mem hat
  ⟨h1, h2, h3⟩

variable {key : ℤ}

lemma ucGet_reads {a : ℕ} (ha : a ∈ (ucGet 0 key).reads m) : InMsg m a := by
  rw [ucGet, mem_reads_bind] at ha
  rcases ha with ha | ha
  · exact ucGet0_reads ha
  · rw [ucGet0_val, zero_add, zero_add] at ha
    exact ucGetFrom_reads h.walk (fun at_ hat => h.attrOk hat) ha

lemma ucGetBin_reads {n : ℤ} {a : ℕ} (ha : a ∈ (ucGetBin 0 key n).reads m) : InMsg m a := by
  rw [ucGetBin, mem_reads_bind] at ha
  rcases ha with ha | ha
  · exact ucGet_reads h ha
  · rw [ucGet_val h] at ha
    rcases hf : ats.find? (keyed m key) with _ | at_
    · rw [hf] at ha
      simp [ucIsBin] at ha
    · have hat := h.attrOk (mem_of_find?_eq_some hf)
      rw [hf, ucIsBin, mem_reads_bind] at ha
      rcases ha with ha | ha
      · exact ucIsKeyed_reads hat ha
      · rw [if_pos (keyed_of_find hf), mem_reads_bind] at ha
        rcases ha with ha | ha
        · exact ucPaylen_reads hat ha
        · split_ifs at ha <;> simp at ha

/-- A pointer that `uc_get_bin` returns is to a payload of the right length. -/
theorem ucGetBin_val {n p : ℕ} (hp : (ucGetBin 0 key n).val m = some p) :
    4 ≤ p ∧ p + n ≤ m.get16 0 := by
  rw [ucGetBin, val_bind, ucGet_val h] at hp
  rcases hf : ats.find? (keyed m key) with _ | at_
  · rw [hf] at hp
    simp [ucIsBin] at hp
  · have hat := h.attrOk (mem_of_find?_eq_some hf)
    rw [hf, ucIsBin, val_bind, keyed_of_find hf, if_pos rfl, val_bind, val_ite] at hp
    split_ifs at hp with hn
    · rw [val_pure, Option.some.injEq] at hp
      simp only [ucPaylen, val_bind, val_word, val_pure] at hn
      have h1 := hat.after
      have h2 := hat.within
      rw [← hp, ucPayload]
      omega
    · simp at hp

/-- What `uc_get_str` does with the attribute of a chain that has the key. -/
theorem ucGetStr_val (hf : ats.find? (keyed m key) = some at_) :
    (ucGetStr 0 key).val m =
      if (isZstrFrom (at_ + 4) (m.get16 at_ - 5)).val m = true then some (at_ + 4) else none := by
  have hn : ((m.get16 at_ : ℤ) - 4 - 1).toNat = m.get16 at_ - 5 := by omega
  rw [ucGetStr, val_bind, ucGet_val h, hf, ucIsStr, val_bind, keyed_of_find hf, if_pos rfl]
  simp only [val_bind, ucPaylen, val_word, val_pure, isZstr, ucPayload, hn, val_ite]

lemma mem_ucGetStr_reads {a : ℕ} (hf : ats.find? (keyed m key) = some at_) :
    a ∈ (ucGetStr 0 key).reads m ↔ a ∈ (ucGet 0 key).reads m ∨ a ∈ (ucIsKeyed at_ key).reads m ∨
      a ∈ (ucPaylen at_).reads m ∨ a ∈ (isZstrFrom (at_ + 4) (m.get16 at_ - 5)).reads m := by
  have hn : ((m.get16 at_ : ℤ) - 4 - 1).toNat = m.get16 at_ - 5 := by omega
  have hpay : (ucPaylen at_).val m = (m.get16 at_ : ℤ) - 4 := by
    simp only [ucPaylen, val_bind, val_word, val_pure]
  rw [ucGetStr, mem_reads_bind, ucGet_val h, hf, ucIsStr, mem_reads_bind, keyed_of_find hf,
    if_pos rfl, mem_reads_bind, hpay, mem_reads_bind, isZstr, hn, ucPayload]
  have hlast : ∀ z : Bool,
      ((if z = true then pure (some (at_ + 4)) else pure none : Peek (Option ℕ)).reads m) = [] := by
    intro z
    split_ifs <;> rfl
  rw [hlast]
  simp

/-- With nothing found, nothing more is looked at. -/
theorem ucGetStr_of_none (hf : ats.find? (keyed m key) = none) :
    (ucGetStr 0 key).val m = none ∧ ∀ a ∈ (ucGetStr 0 key).reads m, InMsg m a := by
  refine ⟨?_, fun a ha => ?_⟩
  · rw [ucGetStr, val_bind, ucGet_val h, hf, ucIsStr, val_pure]
  · rw [ucGetStr, mem_reads_bind, ucGet_val h, hf, ucIsStr, reads_pure] at ha
    exact ucGet_reads h (ha.resolve_right (by simp))

/-- **A string is read safely when its attribute is not empty**, or is empty with a
byte behind it that is not zero. -/
theorem ucGetStr_safe (hf : ats.find? (keyed m key) = some at_)
    (he : m.get16 at_ = 4 → at_ + 4 < m.get16 0 ∧ m (at_ + 4) ≠ 0) :
    (∀ p, (ucGetStr 0 key).val m = some p → ∃ at_ z, (ucGet 0 key).val m = some at_ ∧
      p = ucPayload at_ ∧ p ≤ z ∧ z < at_ + m.get16 at_ ∧ m z = 0) ∧
    ∀ a ∈ (ucGetStr 0 key).reads m, InMsg m a := by
  have hat := h.attrOk (mem_of_find?_eq_some hf)
  have h4 := hat.hdr
  have hw := hat.within
  refine ⟨fun p hp => ?_, fun a ha => ?_⟩
  · rw [ucGetStr_val h hf] at hp
    split_ifs at hp with hz
    cases hp
    have hzero := isZstrFrom_true hz
    refine ⟨at_, at_ + 4 + (m.get16 at_ - 5), by rw [ucGet_val h, hf], rfl, by omega, ?_, hzero⟩
    by_contra hlt
    have hlen : m.get16 at_ = 4 := by omega
    rw [hlen] at hzero
    exact (he hlen).2 hzero
  · rcases (mem_ucGetStr_reads h hf).mp ha with ha | ha | ha | ha
    · exact ucGet_reads h ha
    · exact ucIsKeyed_reads hat ha
    · exact ucPaylen_reads hat ha
    · have hb := isZstrFrom_reads ha
      by_cases hlen : m.get16 at_ = 4
      · exact .inr (by have := (he hlen).1; omega)
      · exact .inr (by omega)

/-- **And only then**: the first byte behind an empty payload is looked at, and
taken for the string if it is zero. -/
theorem empty_of_ucGetStr (hf : ats.find? (keyed m key) = some at_)
    (hstr : ∀ p, (ucGetStr 0 key).val m = some p → ∃ at_ z, (ucGet 0 key).val m = some at_ ∧
      p = ucPayload at_ ∧ p ≤ z ∧ z < at_ + m.get16 at_ ∧ m z = 0)
    (hreads : ∀ a ∈ (ucGetStr 0 key).reads m, InMsg m a) (hlen : m.get16 at_ = 4) :
    at_ + 4 < m.get16 0 ∧ m (at_ + 4) ≠ 0 := by
  have hloop : isZstrFrom (at_ + 4) (m.get16 at_ - 5) = isZstrFrom (at_ + 4) 0 := by rw [hlen]
  refine ⟨?_, fun hz => ?_⟩
  · have hin : InMsg m (at_ + 4) := by
      refine hreads _ ((mem_ucGetStr_reads h hf).mpr (.inr (.inr (.inr ?_))))
      rw [hloop, isZstrFrom, mem_reads_bind]
      exact .inl (mem_reads_byte.mpr rfl)
    rcases hin with hin | hin
    · omega
    · exact hin
  · have hval : (ucGetStr 0 key).val m = some (at_ + 4) := by
      rw [ucGetStr_val h hf, hloop]
      simp [isZstrFrom, hz]
    obtain ⟨at', z, hget, hp, h1, h2, -⟩ := hstr _ hval
    rw [ucGet_val h, hf] at hget
    cases hget
    rw [hlen] at h2
    omega

end

/-- **A message is read safely exactly when its bytes are readable.** -/
theorem safe_iff (buf : Mem) (len : ℤ) {m : Mem} (hm : ucMsg buf len = some m) (key : ℤ) :
    Safe len m key ↔ Readable m key := by
  constructor
  · intro hs
    obtain ⟨ats, hw, hok⟩ := hs.walk
    have hlay : Layout m (m.get16 0) 4 ats := by
      refine layout_of_walk hw (fun at_ hat => (hok at_ hat).1) ?_
      rw [ucGet0_val, zero_add, zero_add]
    exact ⟨ats, hlay, fun at_ hf hlen => empty_of_ucGetStr hlay hf hs.str hs.readsStr hlen⟩
  · rintro ⟨ats, hlay, hempty⟩
    have hstr : (∀ p, (ucGetStr 0 key).val m = some p → ∃ at_ z, (ucGet 0 key).val m = some at_ ∧
          p = ucPayload at_ ∧ p ≤ z ∧ z < at_ + m.get16 at_ ∧ m z = 0) ∧
        ∀ a ∈ (ucGetStr 0 key).reads m, InMsg m a := by
      rcases hf : ats.find? (keyed m key) with _ | at_
      · obtain ⟨h1, h2⟩ := ucGetStr_of_none hlay hf
        exact ⟨fun p hp => absurd hp (by rw [h1]; simp), h2⟩
      · exact ucGetStr_safe hlay hf (hempty at_ hf)
    refine
      { recv := fun a ha => ?_
        walk := ⟨ats, ?_, fun at_ hat => ?_⟩
        reads0 := fun a => ucGet0_reads
        get := fun at_ hget => ?_
        readsGet := fun a => ucGet_reads hlay
        bin := fun n p => ucGetBin_val hlay
        readsBin := fun n a => ucGetBin_reads hlay
        int := fun p => ucGetBin_val hlay (n := 4)
        i64 := fun p => ucGetBin_val hlay (n := 8)
        str := hstr.1
        readsStr := hstr.2 }
    · -- the length field was computed from the number of received bytes
      rw [ucMsg] at hm
      split_ifs at hm with hfull
      cases hm
      rw [InMsg, Mem.get16_put16, Nat.mod_eq_of_lt (u16_lt _)] at ha
      unfold u16 at ha
      omega
    · rw [ucGet0_val, zero_add, zero_add]
      exact hlay.walk
    · have hat := hlay.attrOk hat
      refine ⟨hat, ?_, fun a => ucGetN_reads hat⟩
      have := hat.hdr
      simp only [ucPaylen, val_bind, val_word, val_pure]
      omega
    · rw [ucGet_val hlay] at hget
      exact hlay.attrOk (mem_of_find?_eq_some hget)

/-- The bytes of a message with a string, an empty attribute and a number, behind the two
that `uc_recv` leaves free. -/
def helloMsg : Mem := fun a =>
  [0, 0, 5, 0, 7, 0, 1, 0, 104, 105, 0, 0, 4, 0, 2, 0, 8, 0, 3, 0, 1, 0, 0, 0].getD a 0

/-- Such a message is read safely: the byte after the empty attribute is not zero. -/
theorem safe_helloMsg :
    ∃ m, ucMsg helloMsg 22 = some m ∧ (Safe 22 m 2 ↔ Readable m 2) ∧ Readable m 2 := by
  refine ⟨_, rfl, safe_iff helloMsg 22 rfl 2, [4, 12, 16], ?_, ?_⟩
  · refine Layout.attr ?_ ?_ ?_ (Layout.attr ?_ ?_ ?_ (Layout.attr ?_ ?_ ?_ (Layout.stop ?_))) <;>
      decide
  · decide

/-- Four bytes of a message that claims an attribute without room for its own
header. -/
def shortMsg : Mem := fun a => [0, 0, 5, 0, 0, 0, 1, 0].getD a 0

/-- **An attribute of length zero is handed out**, and its payload length is
negative. -/
theorem shortMsg_not_safe :
    ∃ m, ucMsg shortMsg 6 = some m ∧ (ucGet 0 1).val m = some 4 ∧ (ucPaylen 4).val m = -4 ∧
      ¬Safe 6 m 1 := by
  refine ⟨_, rfl, by decide, by decide, fun hs => ?_⟩
  have h : AttrOk _ 4 := hs.get 4 (by decide)
  exact absurd h.hdr (by decide)

end Minibase.Nlusctl
