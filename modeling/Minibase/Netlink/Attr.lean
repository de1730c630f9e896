import Minibase.Netlink.Recv

/-!
# Reading attributes

The payload of a message, and that of an attribute with a nest of others in it, is a sequence of
attributes: two bytes of length, which counts these four bytes as well, two bytes of type, and
the payload, padded to a multiple of four. `lib/netlink/attr_buf.c` goes through them for both
`nl_get` and `nl_sub`: either is a `Netlink.Holder` here. Pointers are addresses, and `NULL` is
`none`. The loops are given a number of steps to make at most, and they do not make more than the
payload has bytes (`Netlink.walk_isSome`).
-/

namespace Minibase.Netlink

open Option

def extendTo4bytes (n : ℕ) : ℕ := n + (4 - n % 4) % 4

/-- `ptr_in_buf`; the end of the buffer wraps around if its length does not fit. -/
def ptrInBuf (buf len ptr : ℕ) : Bool :=
  if ptr = 0 then false
  else if ptr < buf then false
  else if ptr ≥ (buf + len) % 2 ^ 64 then false
  else true

/-- `nl_attr_0_in`: the first attribute. -/
def nlAttr0In (m : Mem) (buf len : ℕ) : Option ℕ :=
  if len < 4 then none
  else if m.get16 buf > len then none
  else some buf

/-- `nl_attr_n_in`: the attribute after `curr`. -/
def nlAttrNIn (m : Mem) (buf len curr : ℕ) : Option ℕ :=
  if ptrInBuf buf len curr = false then none
  else if m.get16 curr < 4 then none
  else
    let pnext := curr + extendTo4bytes (m.get16 curr)
    if ptrInBuf buf len pnext = false then none
    else some pnext

/-- The loop of `nl_attr_k_in`, in at most `fuel` steps. -/
def search (m : Mem) (buf len type : ℕ) : (fuel : ℕ) → Option ℕ → Option (Option ℕ)
  | _, none => some none
  | 0, some _ => none
  | fuel + 1, some at_ =>
    if m.get16 (at_ + 2) = type then some (some at_)
    else search m buf len type fuel (nlAttrNIn m buf len at_)

/-- `nl_attr_k_in`: the first attribute of a type. -/
def nlAttrKIn (m : Mem) (buf len type : ℕ) : Option ℕ :=
  (search m buf len type (len + 1) (nlAttr0In m buf len)).join

def nlPaylen (m : Mem) (at_ : ℕ) : ℤ := (m.get16 at_ : ℤ) - 4

def nlPayload (at_ : ℕ) : ℕ := at_ + 4

def nlGen (m : Mem) (msg : ℕ) : Option ℕ :=
  if m.get32 msg < 20 then none
  else if m.get16 (msg + 4) < 16 then none
  else some msg

/-! ### What has attributes -/

/-- A message, or an attribute, by its address. -/
inductive Holder where
  | msg (msg : ℕ)
  | attr (at_ : ℕ)

namespace Holder

/-- `sizeof(struct nlgen)`, `sizeof(struct nlattr)`. -/
def header : Holder → ℕ
  | msg _ => 20
  | attr _ => 4

/-- `msg->nlm.len`, `at->len`. -/
def total (m : Mem) : Holder → ℕ
  | msg a => m.get32 a
  | attr a => m.get16 a

/-- `msg->payload`, `at->payload`. -/
def buf : Holder → ℕ
  | msg a => a + 20
  | attr a => a + 4

/-- The length in `NLPAYLOAD` and `ATPAYLOAD`, a `size_t`. -/
def len (m : Mem) (h : Holder) : ℕ := (h.total m + 2 ^ 64 - h.header) % 2 ^ 64

/-- `nl_get_0` and `nl_sub_0`. -/
def first (m : Mem) (h : Holder) : Option ℕ := nlAttr0In m h.buf (h.len m)

/-- `nl_get_n` and `nl_sub_n`. -/
def next (m : Mem) (h : Holder) (curr : ℕ) : Option ℕ := nlAttrNIn m h.buf (h.len m) curr

/-- `nl_get` and `nl_sub`. -/
def get (m : Mem) (h : Holder) (type : ℕ) : Option ℕ := nlAttrKIn m h.buf (h.len m) type

end Holder

def nlGet0 (m : Mem) (msg : ℕ) : Option ℕ := Holder.first m (.msg msg)

def nlSub0 (m : Mem) (at_ : ℕ) : Option ℕ := Holder.first m (.attr at_)

/-! ### Going through the attributes -/

variable {m : Mem} {buf len : ℕ}

lemma Holder.buf_pos (h : Holder) : 0 < h.buf := by
  cases h <;> exact Nat.succ_pos _

lemma extendTo4bytes_eq (n : ℕ) : extendTo4bytes n = roundUp4 n := by
  unfold extendTo4bytes roundUp4
  omega

lemma ptrInBuf_eq_false {ptr : ℕ} (h : buf + len < 2 ^ 64) (hb : 0 < buf) :
    ptrInBuf buf len ptr = false ↔ ¬(buf ≤ ptr ∧ ptr < buf + len) := by
  rw [ptrInBuf, Nat.mod_eq_of_lt h]
  split
  · refine iff_of_true rfl ?_
    omega
  · split
    · refine iff_of_true rfl ?_
      omega
    · split
      · refine iff_of_true rfl ?_
        omega
      · refine iff_of_false (fun h => nomatch h) ?_
        omega

/-- **A step forward**: by the length of the attribute and its padding, as long as that is still
inside. -/
theorem nlAttrNIn_eq_some {curr p : ℕ} (h : buf + len < 2 ^ 64) (hb : 0 < buf) :
    nlAttrNIn m buf len curr = some p ↔ (buf ≤ curr ∧ curr < buf + len) ∧ 4 ≤ m.get16 curr ∧
      p = curr + roundUp4 (m.get16 curr) ∧ p < buf + len := by
  have hle := le_roundUp4 (m.get16 curr)
  simp only [nlAttrNIn, extendTo4bytes_eq, ptrInBuf_eq_false h hb]
  split
  · refine iff_of_false (some_ne_none p).symm ?_
    omega
  · split
    · refine iff_of_false (some_ne_none p).symm ?_
      omega
    · split
      · refine iff_of_false (some_ne_none p).symm ?_
        omega
      · rw [some_inj]
        omega

/-- `for(at = first; at; at = next(at))`, in at most `fuel` steps: the attributes it meets. -/
def walk (m : Mem) (buf len : ℕ) : (fuel : ℕ) → Option ℕ → Option (List ℕ)
  | _, none => some []
  | 0, some _ => none
  | fuel + 1, some at_ => (walk m buf len fuel (nlAttrNIn m buf len at_)).map (at_ :: ·)

/-- **The walk comes to an end**, whatever the bytes are. -/
theorem walk_isSome (h : buf + len < 2 ^ 64) (hb : 0 < buf) {fuel : ℕ} {cur : Option ℕ}
    (hcur : ∀ p ∈ cur, buf + len - p < fuel) : (walk m buf len fuel cur).isSome := by
  induction fuel generalizing cur with
  | zero =>
    cases cur with
    | none => rfl
    | some p => exact absurd (hcur p rfl) (Nat.not_lt_zero _)
  | succ fuel ih =>
    cases cur with
    | none => rfl
    | some p =>
      rw [walk, isSome_map]
      refine ih fun q hq => ?_
      obtain ⟨h1, h2, h3, h4⟩ := (nlAttrNIn_eq_some h hb).mp hq
      have hle := le_roundUp4 (m.get16 p)
      have hp := hcur p rfl
      omega

/-- So does the search for a type. -/
theorem search_isSome (h : buf + len < 2 ^ 64) (hb : 0 < buf) (type : ℕ) {fuel : ℕ} {cur : Option ℕ}
    (hcur : ∀ p ∈ cur, buf + len - p < fuel) : (search m buf len type fuel cur).isSome := by
  induction fuel generalizing cur with
  | zero =>
    cases cur with
    | none => rfl
    | some p => exact absurd (hcur p rfl) (Nat.not_lt_zero _)
  | succ fuel ih =>
    cases cur with
    | none => rfl
    | some p =>
      rw [search]
      split
      · rfl
      · refine ih fun q hq => ?_
        obtain ⟨h1, h2, h3, h4⟩ := (nlAttrNIn_eq_some h hb).mp hq
        have hle := le_roundUp4 (m.get16 p)
        have hp := hcur p rfl
        omega

lemma nlAttr0In_eq_some {p : ℕ} :
    nlAttr0In m buf len = some p ↔ p = buf ∧ 4 ≤ len ∧ m.get16 buf ≤ len := by
  rw [nlAttr0In]
  split
  · refine iff_of_false (some_ne_none p).symm ?_
    omega
  · split
    · refine iff_of_false (some_ne_none p).symm ?_
      omega
    · rw [some_inj]
      omega

end Minibase.Netlink
