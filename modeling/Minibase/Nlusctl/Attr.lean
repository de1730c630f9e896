import Minibase.Lib.CInt
import Minibase.Lib.Peek

/-!
# Reading a control message

The receiving half of `nlusctl`. A message arrives without its length field; `uc_msg` puts the
length back, from what the socket returned, and the rest of the functions walk the attributes. They
look at bytes an arbitrary peer chose, so they are written over `Peek`, which keeps a record of
every address read. Offsets are counted from the start of the message, and pointers never wrap: the
tests `hdrend < ptr` and `payend < ptr` of `attr_in` have no counterpart here. `Nlusctl.Walk` is
the loop of a caller as a relation, so that “the iteration yields these attributes” says at once
that it stops.
-/

namespace Minibase.Nlusctl

open Peek

/-- `uc_msg`: put back the length of a message of `len` received bytes, which
start at offset 2. -/
def ucMsg (buf : Mem) (len : ℤ) : Option Mem :=
  let full := i32 (2 + len)
  if full < 4 then none else some (buf.put16 0 (u16 full))

def ucRepcode : Peek ℤ := do
  let key ← word 2
  return i16 key

/-- `attr_in`: the attribute at `ptr`, if it ends by `end_`. -/
def attrIn (ptr end_ : ℕ) : Peek (Option ℕ) :=
  let hdrend := ptr + 4
  if hdrend > end_ then pure none
  else do
    let len ← word ptr
    let payend := ptr + len
    if payend > end_ then pure none else pure (some ptr)

/-- `uc_get_0`: the first attribute. -/
def ucGet0 (msg : ℕ) : Peek (Option ℕ) := do
  let len ← word msg
  attrIn (msg + 4) (msg + len)

/-- `uc_get_n`: the attribute after `at_`. -/
def ucGetN (msg at_ : ℕ) : Peek (Option ℕ) := do
  let mlen ← word msg
  let len ← word at_
  if len ≤ 0 then pure none else attrIn (at_ + roundUp4 len) (msg + mlen)

def ucIsKeyed (at_ : ℕ) (key : ℤ) : Peek Bool := do
  let k ← word (at_ + 2)
  return (k : ℤ) = key

/-- The loop of `uc_get`. A message has fewer than 65536 bytes and an attribute at
least one word, so the fuel is never spent
(`Nlusctl.ucGetFrom_eq_find`). -/
def ucGetFrom (msg : ℕ) (key : ℤ) : ℕ → Option ℕ → Peek (Option ℕ)
  | _, none => pure none
  | 0, some _ => pure none
  | fuel + 1, some at_ => do
    let hit ← ucIsKeyed at_ key
    if hit = true then pure (some at_)
    else do
      let next ← ucGetN msg at_
      ucGetFrom msg key fuel next

/-- `uc_get`: the first attribute with a given key. -/
def ucGet (msg : ℕ) (key : ℤ) : Peek (Option ℕ) := do
  let first ← ucGet0 msg
  ucGetFrom msg key 65536 first

def ucPayload (at_ : ℕ) : ℕ := at_ + 4

def ucPaylen (at_ : ℕ) : Peek ℤ := do
  let len ← word at_
  return (len : ℤ) - 4

def ucIsBin (at_ : Option ℕ) (key len : ℤ) : Peek (Option ℕ) :=
  match at_ with
  | none => pure none
  | some at_ => do
    let hit ← ucIsKeyed at_ key
    if hit = true then do
      let paylen ← ucPaylen at_
      if paylen = len then pure (some (ucPayload at_)) else pure none
    else pure none

def ucGetBin (msg : ℕ) (key len : ℤ) : Peek (Option ℕ) := do
  let at_ ← ucGet msg key
  ucIsBin at_ key len

def ucGetInt (msg : ℕ) (key : ℤ) : Peek (Option ℕ) := ucGetBin msg key 4

def ucGetI64 (msg : ℕ) (key : ℤ) : Peek (Option ℕ) := ucGetBin msg key 8

/-- The loop of `is_zstr`: no zero among `n` bytes, and a zero after them. -/
def isZstrFrom : ℕ → ℕ → Peek Bool
  | p, 0 => do
    let c ← byte p
    return c = 0
  | p, n + 1 => do
    let c ← byte p
    if c = 0 then pure false else isZstrFrom (p + 1) n

/-- `is_zstr`: the last of the `len` bytes at `buf` is their first zero. The
byte at `buf` is looked at even when `len` is zero or negative. -/
def isZstr (buf : ℕ) (len : ℤ) : Peek Bool := isZstrFrom buf (len - 1).toNat

def ucIsStr (at_ : Option ℕ) (key : ℤ) : Peek (Option ℕ) :=
  match at_ with
  | none => pure none
  | some at_ => do
    let hit ← ucIsKeyed at_ key
    if hit = true then do
      let paylen ← ucPaylen at_
      let z ← isZstr (ucPayload at_) paylen
      if z = true then pure (some (ucPayload at_)) else pure none
    else pure none

def ucGetStr (msg : ℕ) (key : ℤ) : Peek (Option ℕ) := do
  let at_ ← ucGet msg key
  ucIsStr at_ key

/-! ### The iteration -/

/-- **The iteration from a given attribute on**: `Walk m msg cur ats` says that
`for(at = cur; at; at = uc_get_n(msg, at))` visits exactly `ats` and stops. -/
inductive Walk (m : Mem) (msg : ℕ) : Option ℕ → List ℕ → Prop
  /-- The iteration is over. -/
  | done : Walk m msg none []
  /-- One attribute is visited, and the iteration goes on. -/
  | step {at_ : ℕ} {ats : List ℕ} : Walk m msg ((ucGetN msg at_).val m) ats →
      Walk m msg (some at_) (at_ :: ats)

/-- What `attr_in` returns, when it does, is the attribute it was asked about. -/
theorem attrIn_eq_some {m : Mem} {ptr end_ at_ : ℕ} :
    (attrIn ptr end_).val m = some at_ ↔ at_ = ptr ∧ ptr + 4 ≤ end_ ∧ ptr + m.get16 ptr ≤ end_ := by
  simp only [attrIn]
  split_ifs with h
  · simp only [val_pure, reduceCtorEq, false_iff]
    omega
  · simp only [val_bind, val_word, val_ite, val_pure]
    split_ifs with h'
    · simp only [false_iff]
      omega
    · rw [Option.some.injEq]
      omega

lemma attrIn_eq_none {m : Mem} {ptr end_ : ℕ} :
    (attrIn ptr end_).val m = none ↔ end_ < ptr + 4 ∨ end_ < ptr + m.get16 ptr := by
  rw [Option.eq_none_iff_forall_ne_some]
  constructor
  · intro h
    by_contra hc
    exact h ptr (attrIn_eq_some.mpr (by omega))
  · intro h at_ hat
    have := attrIn_eq_some.mp hat
    omega

lemma ucGet0_val (m : Mem) (msg : ℕ) :
    (ucGet0 msg).val m = (attrIn (msg + 4) (msg + m.get16 msg)).val m := by
  simp only [ucGet0, val_bind, val_word]

lemma ucGetN_val (m : Mem) (msg at_ : ℕ) :
    (ucGetN msg at_).val m = if m.get16 at_ = 0 then none
      else (attrIn (at_ + roundUp4 (m.get16 at_)) (msg + m.get16 msg)).val m := by
  simp [ucGetN]

/-- The loop of `uc_get` is over before its fuel is, and finds the first attribute
of the iteration with the right key. -/
theorem ucGetFrom_eq_find {m : Mem} {msg : ℕ} (key : ℤ) {cur : Option ℕ} {ats : List ℕ}
    (hw : Walk m msg cur ats) {fuel : ℕ} (hf : ats.length ≤ fuel) :
    (ucGetFrom msg key fuel cur).val m =
      ats.find? fun at_ => decide ((m.get16 (at_ + 2) : ℤ) = key) := by
  induction hw generalizing fuel with
  | done => cases fuel <;> rfl
  | @step at_ ats _ ih =>
    obtain _ | fuel := fuel
    · exact absurd hf (by simp)
    · simp only [ucGetFrom, ucIsKeyed, val_bind, val_word, val_pure, val_ite, List.find?_cons]
      by_cases hk : (m.get16 (at_ + 2) : ℤ) = key
      · simp [hk]
      · simp only [hk, decide_false, Bool.false_eq_true, if_false]
        exact ih (by simpa using hf)

end Minibase.Nlusctl
