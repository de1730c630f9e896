import Minibase.Netlink.Attr

/-!
# Attributes that are inside

An attribute that is found should be inside of the message, with everything its length covers
(`Netlink.Inside`). That is so exactly if the payload is too short for any attribute, or a
sequence of attributes that fills it up (`Netlink.Attrs`, `Netlink.attrs_inside_iff`):
`nl_attr_0_in` does not ask for a length of at least four, and `nl_attr_n_in` returns what is
inside with its first byte (`Netlink.attrs_outside`). In any case there is an end to it.
-/

namespace Minibase.Netlink

open List Option Mem

/-! ### What is asked -/

/-- What has a payload: its length covers its own header, and its address is one. -/
structure Holder.Valid (m : Mem) (h : Holder) : Prop where
  header : h.header ≤ h.total m
  addr : h.buf + (h.total m - h.header) < 2 ^ 64

/-- **What the functions return**: the first attribute, the one after any of them, and the first
of any type. -/
inductive Returned (m : Mem) (h : Holder) : ℕ → Prop
  | first {p : ℕ} : h.first m = some p → Returned m h p
  | next {q p : ℕ} : Returned m h q → h.next m q = some p → Returned m h p
  | get {type p : ℕ} : h.get m type = some p → Returned m h p

/-- **An attribute that is inside** a payload. -/
structure Inside (m : Mem) (buf len at_ : ℕ) : Prop where
  after : buf ≤ at_
  header : at_ + 4 ≤ buf + len
  long : 4 ≤ m.get16 at_
  paylen : 0 ≤ nlPaylen m at_
  whole : at_ + m.get16 at_ ≤ buf + len

/-! ### Payloads -/

/-- The length that the first two bytes give. -/
def firstLen (bs : List UInt8) : ℕ := (bs.getD 0 0).toNat + 256 * (bs.getD 1 0).toNat

/-- One attribute, without its padding. -/
structure IsAttr (a : List UInt8) : Prop where
  long : 4 ≤ a.length
  field : firstLen a = a.length

/-- **A sequence of attributes**, padded to multiples of four; the padding of the last one need
not be there, or not all of it. -/
inductive Attrs : List UInt8 → Prop
  | last {a pad : List UInt8} : IsAttr a → a.length + pad.length ≤ roundUp4 a.length →
      Attrs (a ++ pad)
  | cons {a pad rest : List UInt8} : IsAttr a → a.length + pad.length = roundUp4 a.length →
      Attrs rest → Attrs (a ++ (pad ++ rest))

/-- **Payloads that are read as they should be.** In the first two cases nothing is found. -/
def Clean (bs : List UInt8) : Prop := bs.length < 4 ∨ bs.length < firstLen bs ∨ Attrs bs

variable {m : Mem} {buf len p q : ℕ}

lemma Holder.Valid.len_eq {h : Holder} (hv : h.Valid m) : h.len m = h.total m - h.header := by
  have h1 := hv.header
  have h2 := hv.addr
  have h3 : h.header ≤ 20 := by
    cases h with
    | msg _ => exact le_refl 20
    | attr _ => exact (by decide : 4 ≤ 20)
  rw [Holder.len]
  omega

/-- The length of an attribute in memory. -/
theorem get16_of_holds {bs : List UInt8} (h : m.Holds p bs) (h2 : 2 ≤ bs.length) :
    m.get16 p = firstLen bs := by
  have h0 : m p = bs[0] := h 0 (by omega)
  have h1 : m (p + 1) = bs[1] := h 1 (by omega)
  rw [get16, firstLen, getD_eq_getElem?_getD, getD_eq_getElem?_getD,
    getElem?_eq_getElem (by omega : 0 < bs.length),
    getElem?_eq_getElem (by omega : 1 < bs.length), getD_some, getD_some, ← h0,
    ← h1]

/-! ### From bytes to attributes -/

/-- What is at a place that the walk comes to, if all is well. -/
def Good (m : Mem) (buf len p : ℕ) : Prop :=
  ∃ bs, Attrs bs ∧ m.Holds p bs ∧ buf ≤ p ∧ p + bs.length = buf + len

/-- **One attribute of a sequence**: it is inside, and what comes after it is a sequence again. -/
theorem Good.step (hlen : buf + len < 2 ^ 64) (hb : 0 < buf) (h : Good m buf len p) :
    Inside m buf len p ∧ ∀ q, nlAttrNIn m buf len p = some q → Good m buf len q := by
  obtain ⟨bs, hbs, hh, hle, hend⟩ := h
  cases hbs with
  | @last a pad ha hpad =>
    have h4 := ha.long
    have hget : m.get16 p = a.length := by
      rw [get16_of_holds (holds_append.mp hh).1 (by omega), ha.field]
    rw [length_append] at hend
    refine ⟨⟨hle, by omega, by omega, by rw [nlPaylen]; omega, by omega⟩, fun q hq => ?_⟩
    -- there is nothing after the last one
    obtain ⟨-, -, rfl, hlt⟩ := (nlAttrNIn_eq_some hlen hb).mp hq
    rw [hget] at hlt
    omega
  | @cons a pad rest ha hpad hrest =>
    have h4 := ha.long
    obtain ⟨hh1, hh2⟩ := holds_append.mp hh
    have hget : m.get16 p = a.length := by rw [get16_of_holds hh1 (by omega), ha.field]
    rw [length_append, length_append] at hend
    refine ⟨⟨hle, by omega, by omega, by rw [nlPaylen]; omega, by omega⟩, fun q hq => ?_⟩
    obtain ⟨-, -, rfl, hlt⟩ := (nlAttrNIn_eq_some hlen hb).mp hq
    have hpos : p + roundUp4 (m.get16 p) = p + a.length + pad.length := by
      rw [hget, ← hpad, add_assoc]
    rw [hpos]
    exact ⟨rest, hrest, (holds_append.mp hh2).2, by omega, by omega⟩

variable {P : ℕ → Prop}

/-- What a search finds is one of the places it comes to. -/
theorem search_induct (hnext : ∀ p q, P p → nlAttrNIn m buf len p = some q → P q)
    {type fuel : ℕ} {cur : Option ℕ} (hcur : ∀ p ∈ cur, P p)
    (h : search m buf len type fuel cur = some (some q)) : P q := by
  induction fuel generalizing cur with
  | zero =>
    cases cur with
    | none => cases h
    | some p => cases h
  | succ fuel ih =>
    cases cur with
    | none => cases h
    | some p =>
      rw [search] at h
      split at h
      · obtain rfl : p = q := by simpa using h
        exact hcur p rfl
      · exact ih (fun r hr => hnext p r (hcur p rfl) hr) h

lemma Returned.induct {h : Holder} (hfirst : ∀ p, h.first m = some p → P p)
    (hnext : ∀ p q, P p → h.next m p = some q → P q) (hr : Returned m h p) : P p := by
  induction hr with
  | first hf => exact hfirst _ hf
  | next _ hn ih => exact hnext _ _ ih hn
  | get hg =>
    rw [Holder.get, nlAttrKIn] at hg
    exact search_induct hnext (fun p hp => hfirst p hp) (join_eq_some_iff.mp hg)

/-! ### From attributes to bytes -/

lemma isAttr_load (h4 : 4 ≤ m.get16 p) : IsAttr (m.load p (m.get16 p)) := by
  have hh : m.Holds p (m.load p (m.get16 p)) := holds_iff_load.mpr (by rw [length_load])
  refine ⟨by rw [length_load]; exact h4, ?_⟩
  rw [← get16_of_holds hh (by rw [length_load]; omega), length_load]

/-- **If all places are inside, the bytes are a sequence of attributes.** -/
theorem attrs_of_inside (hlen : buf + len < 2 ^ 64) (hb : 0 < buf)
    (hin : ∀ p, P p → Inside m buf len p)
    (hnext : ∀ p q, P p → nlAttrNIn m buf len p = some q → P q) (n : ℕ) :
    ∀ p, P p → buf + len - p ≤ n → Attrs (m.load p (buf + len - p)) := by
  induction n with
  | zero =>
    intro p hp hn
    have := (hin p hp).header
    omega
  | succ n ih =>
    intro p hp hn
    obtain ⟨h1, h2, h3, -, h5⟩ := hin p hp
    have hle := le_roundUp4 (m.get16 p)
    rcases lt_or_ge (p + roundUp4 (m.get16 p)) (buf + len) with hlt | hge
    · -- there is another one
      have hq : nlAttrNIn m buf len p = some (p + roundUp4 (m.get16 p)) :=
        (nlAttrNIn_eq_some hlen hb).mpr ⟨⟨h1, by omega⟩, h3, rfl, hlt⟩
      have hrest := ih _ (hnext p _ hp hq) (by omega)
      have hsplit : buf + len - p = m.get16 p + ((roundUp4 (m.get16 p) - m.get16 p) +
          (buf + len - (p + roundUp4 (m.get16 p)))) := by omega
      have hplace : p + m.get16 p + (roundUp4 (m.get16 p) - m.get16 p) =
          p + roundUp4 (m.get16 p) := by omega
      rw [hsplit, load_add, load_add, hplace]
      refine Attrs.cons (isAttr_load h3) ?_ hrest
      rw [length_load, length_load]
      omega
    · have hsplit : buf + len - p = m.get16 p + (buf + len - p - m.get16 p) := by omega
      rw [hsplit, load_add]
      refine Attrs.last (isAttr_load h3) ?_
      rw [length_load, length_load]
      omega

/-! ### The condition -/

/-- **Everything that is returned is inside exactly if the payload is a sequence of attributes**,
or nothing is found in it. Whatever the payload is, going through it and searching in it come to
an end. -/
theorem attrs_inside_iff (m : Mem) (h : Holder) (hv : h.Valid m) :
    ((∀ p, Returned m h p → Inside m h.buf (h.len m) p) ↔ Clean (m.load h.buf (h.len m))) ∧
      (walk m h.buf (h.len m) (h.len m + 1) (h.first m)).isSome ∧
      ∀ type, (search m h.buf (h.len m) type (h.len m + 1) (h.first m)).isSome := by
  have hb := h.buf_pos
  have hlen : h.buf + h.len m < 2 ^ 64 := by
    rw [hv.len_eq]
    exact hv.addr
  have hcur : ∀ p ∈ h.first m, h.buf + h.len m - p < h.len m + 1 := by
    intro p hp
    obtain ⟨rfl, -⟩ := nlAttr0In_eq_some.mp hp
    omega
  refine ⟨⟨fun hall => ?_, fun hclean => ?_⟩, walk_isSome hlen hb hcur,
    fun type => search_isSome hlen hb type hcur⟩
  · rw [Clean, length_load]
    rcases Nat.lt_or_ge (h.len m) 4 with h4 | h4
    · exact .inl h4
    have hheld : m.Holds h.buf (m.load h.buf (h.len m)) :=
      holds_iff_load.mpr (by rw [length_load])
    have hget := get16_of_holds hheld (by rw [length_load]; omega)
    rcases Nat.lt_or_ge (h.len m) (m.get16 h.buf) with hlt | hge
    · exact .inr (.inl (hget ▸ hlt))
    · refine .inr (.inr ?_)
      have hattrs := attrs_of_inside hlen hb hall (fun p q hp hq => hp.next hq) (h.len m) h.buf
        (Returned.first (nlAttr0In_eq_some.mpr ⟨rfl, h4, hge⟩)) (by omega)
      rwa [Nat.add_sub_cancel_left] at hattrs
  · -- the first attribute starts the sequence, if it is returned at all
    have hfirst : ∀ p, h.first m = some p → Good m h.buf (h.len m) p := by
      intro p hp
      obtain ⟨rfl, h4, hge⟩ := nlAttr0In_eq_some.mp hp
      have hheld : m.Holds h.buf (m.load h.buf (h.len m)) :=
        holds_iff_load.mpr (by rw [length_load])
      have hget := get16_of_holds hheld (by rw [length_load]; omega)
      rcases hclean with hshort | hshort | hattrs
      · rw [length_load] at hshort
        omega
      · rw [length_load, ← hget] at hshort
        omega
      · exact ⟨_, hattrs, hheld, Nat.le_refl _, by rw [length_load]⟩
    intro p hp
    exact (hp.induct hfirst fun p q hp hq => (hp.step hlen hb).2 q hq).step hlen hb |>.1

/-- A message at address 8 with the given payload. -/
def sampleGen (payload : List UInt8) : Mem :=
  store (fun _ => 0) 8 (le 4 (20 + payload.length) ++ le 2 16 ++ replicate 14 0 ++ payload)

/-- Two attributes, of which the second one is not padded. -/
theorem attrs_inside_two :
    Returned (sampleGen [4, 0, 1, 0, 5, 0, 2, 0, 7]) (.msg 8) 32 ∧
      Inside (sampleGen [4, 0, 1, 0, 5, 0, 2, 0, 7]) 28 9 32 := by
  have hbytes : (sampleGen [4, 0, 1, 0, 5, 0, 2, 0, 7]).load 28 9 =
      [4, 0, 1, 0] ++ ([] ++ ([5, 0, 2, 0, 7] ++ [])) := by decide
  have hclean : Clean ((sampleGen [4, 0, 1, 0, 5, 0, 2, 0, 7]).load 28 9) := by
    rw [hbytes]
    exact .inr (.inr (Attrs.cons ⟨by decide, by decide⟩ (by decide)
      (Attrs.last ⟨by decide, by decide⟩ (by decide))))
  have hsecond : Returned (sampleGen [4, 0, 1, 0, 5, 0, 2, 0, 7]) (.msg 8) 32 :=
    .next (.first (p := 28) (by decide)) (by decide)
  exact ⟨hsecond, (attrs_inside_iff _ (.msg 8) ⟨by decide, by decide⟩).1.mpr hclean 32 hsecond⟩

/-- **Attributes that are not inside**: the first one with a length of zero, and one that is made
of the byte that is left after the last. -/
theorem attrs_outside :
    (Holder.Valid (sampleGen [0, 0, 1, 0]) (.msg 8) ∧
      ∃ p, Returned (sampleGen [0, 0, 1, 0]) (.msg 8) p ∧ ¬Inside (sampleGen [0, 0, 1, 0]) 28 4 p) ∧
      Holder.Valid (sampleGen [4, 0, 1, 0, 9]) (.msg 8) ∧
      ∃ p, Returned (sampleGen [4, 0, 1, 0, 9]) (.msg 8) p ∧
        ¬Inside (sampleGen [4, 0, 1, 0, 9]) 28 5 p := by
  refine ⟨⟨⟨by decide, by decide⟩, 28, Returned.first (by decide), fun h => ?_⟩,
    ⟨by decide, by decide⟩, 32, Returned.next (q := 28) (Returned.first (by decide)) (by decide),
    fun h => ?_⟩
  · exact absurd h.long (by decide)
  · exact absurd h.header (by decide)

end Minibase.Netlink
