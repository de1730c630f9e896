import Minibase.Lib.Memory
import Minibase.Lib.CInt

/-!
# The receive buffer

Messages from the kernel are read into a buffer (`lib/netlink/recv.c`) and taken from there one
by one. What is left of a message that is cut by a read is moved to the start of the buffer, and
the next read continues there. In `Netlink.Nr` addresses are counted from `nr->buf`.
`Netlink.pass` is one turn of the loop that `recv.h` asks for: a read, and then `nr_next` until it
returns NULL.

`nr_next` takes the length of a message from the message. A length that is larger than what has
been received is an incomplete message, but with a length of zero it stays where it is, and the
loop has no end (`Netlink.not_drains`). It ends, with messages that have a header, just if no
length it gets to (`Netlink.Reached`) is smaller than a header (`Netlink.drains_iff`).
-/

namespace Minibase.Netlink

open Option

/-- `struct nrbuf`, and the memory it is for. -/
structure Nr where
  mem : Mem
  msg : ℕ
  ptr : ℕ
  /-- `nr->end - nr->buf`. -/
  size : ℕ

def nrBufSet (mem : Mem) (len : ℕ) : Nr := ⟨mem, 0, 0, len⟩

/-- `nl_msg`: whether there is a whole message at `buf`. -/
def nlMsg (m : Mem) (buf : ℕ) (len : ℤ) : Bool :=
  let len := i32 len
  if len < 0 then false
  else if len.toNat < 16 then false
  else if len.toNat < m.get32 buf then false
  else true

def nlLen (m : Mem) (msg : ℕ) : ℤ := i32 (m.get32 msg)

/-- How a call of `nr_recv` ends. -/
inductive Recv where
  | enobufs
  /-- What is returned is made an `int` of. -/
  | got (ret : ℤ)
deriving DecidableEq

/-- `nr_recv`, for a read that brings the bytes `data`. -/
def nrRecv (nr : Nr) (data : List UInt8) : Recv × Nr :=
  if nr.ptr ≥ nr.size then (.enobufs, nr)
  else (.got (i32 data.length),
    { nr with mem := nr.mem.store nr.ptr data, ptr := nr.ptr + data.length })

/-- `nr_next`: where the next message is, if there is one. -/
def nrNext (nr : Nr) : Option ℕ × Nr :=
  if nr.msg ≥ nr.size then (none, nr)
  else
    let len : ℤ := nr.ptr - nr.msg
    if nlMsg nr.mem nr.msg len then
      let next : ℤ := nr.msg + nlLen nr.mem nr.msg
      if next < nr.ptr then (some nr.msg, { nr with msg := next.toNat })
      else (some nr.msg, { nr with msg := 0, ptr := 0 })
    else if nr.msg > 0 then
      (none, { nr with
        mem := nr.mem.store 0 (nr.mem.load nr.msg len.toNat)
        ptr := len.toNat
        msg := 0 })
    else (none, nr)

/-- `nr_next` until there is nothing more, at most `fuel` times: the messages, as whoever
handles them finds them. -/
def drain : (fuel : ℕ) → Nr → Option (List (List UInt8) × Nr)
  | 0, _ => none
  | fuel + 1, nr =>
    match nrNext nr with
    | (none, nr) => some ([], nr)
    | (some msg, nr') =>
      (drain fuel nr').map fun r => (nr'.mem.load msg (nlLen nr'.mem msg).toNat :: r.1, r.2)

/-- How a turn of the loop may fail. -/
inductive Failure where
  /-- `nr_recv` returns `-ENOBUFS`. -/
  | enobufs
  /-- `nr_recv` returns something else that is negative. -/
  | negative
  /-- There is no end to the messages. -/
  | endless
deriving DecidableEq

/-- One turn of the loop. -/
def pass (fuel : ℕ) (nr : Nr) (data : List UInt8) : Except Failure (List (List UInt8) × Nr) :=
  match nrRecv nr data with
  | (.enobufs, _) => .error .enobufs
  | (.got ret, nr) =>
    if ret < 0 then .error .negative
    else
      match drain fuel nr with
      | none => .error .endless
      | some r => .ok r

/-- The loop, for reads that bring the given bytes. -/
def receive (fuel : ℕ) : Nr → (reads : List (List UInt8)) → Except Failure (List (List UInt8) × Nr)
  | nr, [] => .ok ([], nr)
  | nr, data :: reads =>
    match pass fuel nr data with
    | .error e => .error e
    | .ok (msgs, nr) =>
      match receive fuel nr reads with
      | .error e => .error e
      | .ok (msgs', nr) => .ok (msgs ++ msgs', nr)

/-! ### Draining the buffer -/

/-- There is a message at the position `o`, as `nr_next` sees it. -/
def Found (nr : Nr) (o : ℕ) : Prop := o < nr.size ∧ nlMsg nr.mem o (nr.ptr - o) = true

/-- **The positions that messages are looked for at**, from the first on. -/
inductive Reached (nr : Nr) : ℕ → Prop
  | first : Reached nr nr.msg
  | next {o : ℕ} : Reached nr o → Found nr o → o + nr.mem.get32 o < nr.ptr →
      Reached nr (o + nr.mem.get32 o)

/-- So many calls that return a message. -/
def nrCalls : ℕ → Nr → Option Nr
  | 0, nr => some nr
  | n + 1, nr =>
    (nrCalls n nr).bind fun nr =>
      match nrNext nr with
      | (some _, nr) => some nr
      | (none, _) => none

/-- **The loop comes to an end**, its messages have a header, and each of them is taken from the
buffer with the header. -/
structure Drains (nr : Nr) : Prop where
  ends : ∃ fuel, drain fuel nr ≠ none
  header : ∀ n nr₁ msg nr₂, nrCalls n nr = some nr₁ → nrNext nr₁ = (some msg, nr₂) →
    16 ≤ nlLen nr₁.mem msg
  taken : ∀ n nr₁ msg nr₂, nrCalls n nr = some nr₁ → nrNext nr₁ = (some msg, nr₂) →
    (nr₂.ptr : ℤ) - nr₂.msg + 16 ≤ nr₁.ptr - nr₁.msg

variable {nr nr' nr₁ : Nr} {o n : ℕ}

/-! ### One call -/

lemma nlMsg_spec {m : Mem} {buf : ℕ} {len : ℤ} (h : nlMsg m buf len = true) :
    16 ≤ i32 len ∧ m.get32 buf ≤ i32 len := by
  rw [nlMsg] at h
  split at h
  · cases h
  · split at h
    · cases h
    · split at h
      · cases h
      · omega

lemma found_le (h : Found nr o) (ho : o ≤ nr.ptr) : o + nr.mem.get32 o ≤ nr.ptr := by
  obtain ⟨h16, hle⟩ := nlMsg_spec h.2
  rw [i32] at h16 hle
  omega

lemma nlLen_of_found (h : Found nr o) : nlLen nr.mem o = nr.mem.get32 o := by
  have hle := (nlMsg_spec h.2).2
  rw [i32] at hle
  exact i32_of_range (by omega) (by omega)

/-- A call that finds a message goes on behind it, or starts afresh if it was the last. -/
theorem nrNext_of_found (h : Found nr nr.msg) :
    nrNext nr = (some nr.msg, if nr.msg + nr.mem.get32 nr.msg < nr.ptr then
      { nr with msg := nr.msg + nr.mem.get32 nr.msg } else { nr with msg := 0, ptr := 0 }) := by
  rw [nrNext, if_neg (Nat.not_le.mpr h.1)]
  dsimp only
  rw [if_pos h.2, nlLen_of_found h]
  split <;> split
  · rfl
  · omega
  · omega
  · rfl

lemma found_of_nrNext {msg : ℕ} (h : nrNext nr = (some msg, nr')) : Found nr nr.msg := by
  rw [nrNext] at h
  split at h
  · cases h
  · rename_i hlt
    dsimp only at h
    split at h
    · rename_i hmsg
      exact ⟨Nat.lt_of_not_le hlt, hmsg⟩
    · split at h <;> cases h

/-! ### The positions of a call are the positions of the next one -/

lemma Reached.of_next {m : ℕ} (h : Reached { nr with msg := m } o) (hm : Reached nr m) :
    Reached nr o := by
  induction h with
  | first => exact hm
  | next _ hf hlt ih => exact ih.next hf hlt

/-- Nothing is found in a buffer that starts afresh. -/
theorem not_found_fresh (h : Reached { nr with msg := 0, ptr := 0 } o) :
    ¬ Found { nr with msg := 0, ptr := 0 } o := by
  induction h with
  | first =>
    intro hf
    have h16 : 16 ≤ i32 ((0 : ℕ) - (0 : ℕ)) := (nlMsg_spec hf.2).1
    exact absurd h16 (by decide)
  | next _ hf _ ih => exact absurd hf ih

/-- No length that is looked at is smaller than a header. -/
def Long (nr : Nr) : Prop := ∀ o, Reached nr o → Found nr o → 16 ≤ nr.mem.get32 o

/-- **What a call leaves**: less than before, by a header at least. -/
theorem Long.nrNext (h : Long nr) (hle : nr.msg ≤ nr.ptr) {msg : ℕ}
    (hn : nrNext nr = (some msg, nr')) :
    Long nr' ∧ nr'.msg ≤ nr'.ptr ∧ (nr'.ptr : ℤ) - nr'.msg + 16 ≤ nr.ptr - nr.msg := by
  have hf := found_of_nrNext hn
  have hlen := h _ .first hf
  have hend := found_le hf hle
  rw [nrNext_of_found hf] at hn
  obtain ⟨-, rfl⟩ := Prod.mk.inj hn
  split
  · rename_i hlt
    refine ⟨fun o ho hfo => h o (ho.of_next (.next .first hf hlt)) hfo, le_of_lt hlt, ?_⟩
    dsimp only
    omega
  · refine ⟨fun o ho hfo => absurd hfo (not_found_fresh ho), le_refl 0, ?_⟩
    dsimp only
    omega

/-! ### All calls -/

lemma Long.nrCalls (h : Long nr) (hle : nr.msg ≤ nr.ptr) (hn : nrCalls n nr = some nr') :
    Long nr' ∧ nr'.msg ≤ nr'.ptr := by
  induction n generalizing nr' with
  | zero =>
    cases hn
    exact ⟨h, hle⟩
  | succ n ih =>
    obtain ⟨nr₁, hn₁, hnext⟩ := bind_eq_some_iff.mp hn
    obtain ⟨h₁, hle₁⟩ := ih hn₁
    split at hnext
    · cases hnext
      obtain ⟨h', hle', -⟩ := h₁.nrNext hle₁ ‹_›
      exact ⟨h', hle'⟩
    · cases hnext

/-- With less and less in the buffer the loop ends. -/
theorem Long.drain (h : Long nr) (hle : nr.msg ≤ nr.ptr) (k : ℕ) (hk : nr.ptr - nr.msg < k) :
    drain k nr ≠ none := by
  induction k generalizing nr with
  | zero => omega
  | succ k ih =>
    rw [Netlink.drain]
    split
    · exact some_ne_none _
    · rename_i msg nr' hn
      obtain ⟨h', hle', hless⟩ := h.nrNext hle hn
      rw [Ne, map_eq_none_iff]
      exact ih h' hle' (by omega)

/-- The positions that are reached are those that calls come to. -/
theorem Reached.nrCalls (h : Reached nr o) : ∃ n, nrCalls n nr = some { nr with msg := o } := by
  induction h with
  | first => exact ⟨0, rfl⟩
  | next _ hf hlt ih =>
    obtain ⟨n, hn⟩ := ih
    refine ⟨n + 1, ?_⟩
    rw [Netlink.nrCalls, hn, bind_some, nrNext_of_found hf, if_pos hlt]

/-- **When the loop comes to an end.** -/
theorem drains_iff (hle : nr.msg ≤ nr.ptr) :
    Drains nr ↔ ∀ o, Reached nr o → Found nr o → 16 ≤ nr.mem.get32 o := by
  constructor
  · intro h o ho hf
    obtain ⟨n, hn⟩ := ho.nrCalls
    have hlen := h.header n _ o _ hn (nrNext_of_found hf)
    rw [nlLen_of_found hf] at hlen
    omega
  · intro h
    refine ⟨⟨_, Long.drain h hle _ (Nat.lt_succ_self _)⟩, fun n nr₁ msg nr₂ hn hnext => ?_,
      fun n nr₁ msg nr₂ hn hnext => ?_⟩
    · obtain ⟨h₁, -⟩ := Long.nrCalls h hle hn
      have hf := found_of_nrNext hnext
      rw [nrNext_of_found hf] at hnext
      obtain rfl := Option.some.inj (Prod.mk.inj hnext).1
      rw [nlLen_of_found hf]
      have := h₁ _ .first hf
      omega
    · obtain ⟨h₁, hle₁⟩ := Long.nrCalls h hle hn
      exact (h₁.nrNext hle₁ hnext).2.2

/-- A buffer with three messages, the second of which has four bytes behind its header. -/
def threeMessages : Nr :=
  ⟨fun a => if a = 0 ∨ a = 36 then 16 else if a = 16 then 20 else 0, 0, 52, 64⟩

theorem threeMessages_drains : Drains threeMessages := by
  refine (drains_iff (Nat.zero_le 52)).mpr fun o ho _ => ?_
  have hplace : o = 0 ∨ o = 16 ∨ o = 36 := by
    clear * - ho
    induction ho with
    | first => exact .inl rfl
    | next _ _ hlt ih =>
      obtain rfl | rfl | rfl := ih
      · exact .inr (.inl rfl)
      · exact .inr (.inr rfl)
      · exact absurd hlt (by decide)
  obtain rfl | rfl | rfl := hplace <;> decide

/-- Sixteen bytes of zeros in the buffer. -/
def zeros : Nr := ⟨fun _ => 0, 0, 16, 64⟩

lemma nrNext_zeros : nrNext zeros = (some 0, zeros) := by
  have hf : Found zeros zeros.msg := ⟨by decide, by decide⟩
  rw [nrNext_of_found hf]
  rfl

/-- **A length of zero**: the call returns the message, and stays where it is. -/
theorem not_drains : ¬ ∀ nr : Nr, nr.msg ≤ nr.ptr → Drains nr := by
  intro h
  obtain ⟨fuel, hfuel⟩ := (h zeros (Nat.zero_le 16)).ends
  have hendless : drain fuel zeros = none := by
    induction fuel with
    | zero => rfl
    | succ fuel ih =>
      rw [drain, nrNext_zeros]
      rw [map_eq_none_iff]
      exact ih fun hn => hfuel (by
        rw [drain, nrNext_zeros]
        exact map_eq_none_iff.mpr hn)
  exact hfuel hendless

end Minibase.Netlink
