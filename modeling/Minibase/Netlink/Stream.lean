import Minibase.Netlink.Recv

/-!
# Messages out of a stream

However the stream of messages is cut into reads, the loop that `recv.h` asks for finds exactly
the messages that were sent. Between two turns the buffer has nothing but the front part of a
message at its start (`Netlink.Pending`); a turn adds what has been read and takes off all messages
that are complete (`Netlink.drain_spec`). All that is for buffers of less than 2 GB
(`Netlink.receive_chunks`): `nl_msg` has the number of bytes as an `int`
(`Netlink.huge_message_lost`).
-/

namespace Minibase.Netlink

open List Option Mem

/-! ### Messages -/

/-- `msg->len` of a message. -/
def lenField (m : List UInt8) : ℕ :=
  ((m.getD 0 0).toNat + 256 * (m.getD 1 0).toNat) +
    65536 * ((m.getD 2 0).toNat + 256 * (m.getD 3 0).toNat)

/-- **A message**: it is as long as it says, with a header at least, and not longer than the
buffer. -/
structure IsMsg (size : ℕ) (m : List UInt8) : Prop where
  field : lenField m = m.length
  header : 16 ≤ m.length
  le : m.length ≤ size

/-- **Reads that may happen**: none of them brings more than there is space for when it is
made. -/
def Fits (fuel : ℕ) : Nr → List (List UInt8) → Prop
  | _, [] => True
  | nr, data :: reads => data.length ≤ nr.size - nr.ptr ∧
      ∀ msgs nr', pass fuel nr data = .ok (msgs, nr') → Fits fuel nr' reads

/-- **Between two turns of the loop**: the buffer has `r` in it, and nothing else. -/
structure Pending (size : ℕ) (nr : Nr) (r : List UInt8) : Prop where
  size : nr.size = size
  msg : nr.msg = 0
  ptr : nr.ptr = r.length
  holds : nr.mem.Holds 0 r

/-- The length of a message whose first bytes are in memory. -/
theorem get32_eq_lenField {m : Mem} {a : ℕ} {bs l : List UInt8} (h : m.Holds a bs)
    (h4 : 4 ≤ bs.length) (hl : bs <+: l) : m.get32 a = lenField l := by
  obtain ⟨t, rfl⟩ := hl
  have hget : ∀ i, i < 4 → m (a + i) = (bs ++ t).getD i 0 := by
    intro i hi
    have hib : i < bs.length := by omega
    rw [h i hib, getD_eq_getElem?_getD, getElem?_append_left hib, getElem?_eq_getElem hib]
    rfl
  rw [get32, get16, get16, lenField, ← hget 0 (by omega), ← hget 1 (by omega),
    ← hget 2 (by omega), ← hget 3 (by omega)]
  rfl

/-! ### One call -/

variable {size : ℕ}

variable {nr : Nr} {msgs : List (List UInt8)} {fuel : ℕ}

section

variable (hs : size < 2147483648)
include hs

/-- **A message that is complete** is found, and the buffer has what follows it. -/
theorem nrNext_complete {m bytes : List UInt8} (hm : IsMsg size m) (hsize : nr.size = size)
    (hptr : nr.ptr = nr.msg + (m ++ bytes).length) (hle : nr.ptr ≤ size)
    (hh : nr.mem.Holds nr.msg (m ++ bytes)) :
    ∃ nr', nrNext nr = (some nr.msg, nr') ∧ nr'.mem = nr.mem ∧ nr'.size = size ∧
      nr'.ptr = nr'.msg + bytes.length ∧ nr'.ptr ≤ size ∧ (nr'.msg = 0 ∨ bytes ≠ []) ∧
      nr'.mem.Holds nr'.msg bytes := by
  obtain ⟨h1, h2⟩ := holds_append.mp hh
  have hhead := hm.header
  rw [length_append] at hptr
  have hlen : nr.mem.get32 nr.msg = m.length := by
    rw [get32_eq_lenField h1 (by omega) (prefix_refl m), hm.field]
  have hnl : nlLen nr.mem nr.msg = m.length := by
    rw [nlLen, hlen]
    exact i32_of_range (by omega) (by omega)
  have hmsg : nlMsg nr.mem nr.msg (nr.ptr - nr.msg) = true := by
    rw [nlMsg, i32_of_range (by omega) (by omega), hlen, if_neg (by omega), if_neg (by omega),
      if_neg (by omega)]
  rw [nrNext, if_neg (by omega)]
  dsimp only
  rw [if_pos hmsg, hnl]
  split
  · rename_i hlt
    have hnext : ((nr.msg : ℤ) + m.length).toNat = nr.msg + m.length := by omega
    refine ⟨_, rfl, rfl, hsize, ?_, hle, .inr ?_, ?_⟩
    · dsimp only
      omega
    · rintro rfl
      rw [length_nil] at hptr
      omega
    · dsimp only
      rw [hnext]
      exact h2
  · -- the message is the last one, and the buffer starts afresh
    have hnil : bytes = [] := length_eq_zero_iff.mp (by omega)
    refine ⟨_, rfl, rfl, hsize, ?_, Nat.zero_le size, .inl rfl, ?_⟩
    · rw [hnil]
      rfl
    · rw [hnil]
      exact holds_nil _ _

/-- **A message that is not complete** is not found, and what there is of it is moved to the
start of the buffer. -/
theorem nrNext_incomplete {bytes : List UInt8}
    (hmore : 16 ≤ bytes.length → bytes.length < nr.mem.get32 nr.msg) (hsize : nr.size = size)
    (hptr : nr.ptr = nr.msg + bytes.length) (hle : nr.ptr ≤ size) (hpos : nr.msg = 0 ∨ bytes ≠ [])
    (hh : nr.mem.Holds nr.msg bytes) : ∃ nr', nrNext nr = (none, nr') ∧ Pending size nr' bytes := by
  have hmsg : nlMsg nr.mem nr.msg (nr.ptr - nr.msg) = false := by
    have hlen : ((nr.ptr : ℤ) - nr.msg).toNat = bytes.length := by omega
    rw [nlMsg, i32_of_range (by omega) (by omega), hlen, if_neg (by omega)]
    split
    · rfl
    · rw [if_pos (hmore (by omega))]
  rw [nrNext]
  split
  · -- nothing at all, in a buffer of no size
    rename_i hge
    have hzero : nr.msg = 0 := by
      rcases hpos with h | h
      · exact h
      · have := length_pos_iff.mpr h
        omega
    refine ⟨nr, rfl, hsize, hzero, by omega, ?_⟩
    rw [← hzero]
    exact hh
  · dsimp only
    rw [if_neg (by rw [hmsg]; exact Bool.false_ne_true)]
    have hlen : ((nr.ptr : ℤ) - nr.msg).toNat = bytes.length := by omega
    split
    · refine ⟨_, rfl, hsize, rfl, hlen, ?_⟩
      rw [hlen, holds_iff_load.mp hh]
      exact holds_store _ _ _
    · rename_i hzero
      have hzero : nr.msg = 0 := by omega
      refine ⟨nr, rfl, hsize, hzero, by omega, ?_⟩
      rw [← hzero]
      exact hh

/-! ### One turn of the loop -/

/-- **All complete messages are taken off**, and what is left is the front part of the next one. -/
theorem drain_spec (hm : ∀ m ∈ msgs, IsMsg size m) {bytes future : List UInt8}
    (hf : bytes.length < fuel) (hsize : nr.size = size) (hptr : nr.ptr = nr.msg + bytes.length)
    (hle : nr.ptr ≤ size) (hpos : nr.msg = 0 ∨ bytes ≠ []) (hh : nr.mem.Holds nr.msg bytes)
    (heq : bytes ++ future = msgs.flatten) :
    ∃ done rest r nr', msgs = done ++ rest ∧ drain fuel nr = some (done, nr') ∧
      Pending size nr' r ∧ r ++ future = rest.flatten ∧ ∀ m ∈ rest.head?, r.length < m.length := by
  induction msgs generalizing nr bytes fuel with
  | nil =>
    have hnil : bytes = [] := (append_eq_nil_iff.mp heq).1
    obtain ⟨fuel, rfl⟩ := Nat.exists_eq_add_of_lt hf
    obtain ⟨nr', hnext, hpend⟩ := nrNext_incomplete hs (fun h => by rw [hnil] at h; cases h) hsize
      hptr hle hpos hh
    refine ⟨[], [], bytes, nr', rfl, ?_, hpend, heq, fun m hm => nomatch hm⟩
    rw [drain, hnext]
  | cons m msgs ih =>
    have hmsg := hm m mem_cons_self
    obtain ⟨fuel, rfl⟩ := Nat.exists_eq_add_of_lt hf
    rw [flatten_cons] at heq
    have hfront : bytes <+: m ++ msgs.flatten := ⟨future, heq⟩
    rcases lt_or_ge bytes.length m.length with hlt | hge
    · -- the message is cut off
      have hpre : bytes <+: m :=
        prefix_of_prefix_length_le hfront (prefix_append ..) (by omega)
      have hmore : 16 ≤ bytes.length → bytes.length < nr.mem.get32 nr.msg := by
        intro h16
        rw [get32_eq_lenField hh (by omega) hpre, hmsg.field]
        exact hlt
      obtain ⟨nr', hnext, hpend⟩ := nrNext_incomplete hs hmore hsize hptr hle hpos hh
      refine ⟨[], m :: msgs, bytes, nr', rfl, ?_, hpend, by rw [flatten_cons, heq], ?_⟩
      · rw [drain, hnext]
      · rintro m' hm'
        rw [head?_cons, mem_some_iff] at hm'
        rw [← hm']
        exact hlt
    · -- the message is there
      obtain ⟨more, rfl⟩ : ∃ more, bytes = m ++ more := by
        obtain ⟨more, hmore⟩ :=
          prefix_of_prefix_length_le (prefix_append m msgs.flatten) hfront hge
        exact ⟨more, hmore.symm⟩
      have hhead := hmsg.header
      have hfuel : more.length < (m ++ more).length + fuel := by
        rw [length_append]
        omega
      obtain ⟨nr1, hnext, hmem, h1, h2, h3, h4, h5⟩ := nrNext_complete hs hmsg hsize hptr hle hh
      rw [append_assoc] at heq
      obtain ⟨done, rest, r, nr', e1, e2, e3, e4, e5⟩ :=
        ih (fun m' hm' => hm m' (mem_cons_of_mem m hm')) hfuel h1 h2 h3 h4 h5
          (append_cancel_left heq)
      refine ⟨m :: done, rest, r, nr', by rw [e1, cons_append], ?_, e3, e4, e5⟩
      have hheld := (holds_append.mp hh).1
      have hlen : nlLen nr.mem nr.msg = m.length := by
        rw [nlLen, get32_eq_lenField hheld (by omega) (prefix_refl m), hmsg.field]
        exact i32_of_range (by have := hmsg.le; omega) (by have := hmsg.le; omega)
      rw [drain, hnext]
      dsimp only
      rw [e2, hmem, hlen, Int.toNat_natCast, holds_iff_load.mp hheld]
      rfl

/-- **One turn of the loop**: there is room for the read, and it ends with a part of a message
again. -/
theorem pass_spec (hm : ∀ m ∈ msgs, IsMsg size m) {r data future : List UInt8} (hf : size < fuel)
    (h0 : 0 < size) (hp : Pending size nr r) (hr : ∀ m ∈ msgs.head?, r.length < m.length)
    (hfit : data.length ≤ nr.size - nr.ptr) (heq : r ++ (data ++ future) = msgs.flatten) :
    ∃ done rest r' nr', msgs = done ++ rest ∧ pass fuel nr data = .ok (done, nr') ∧
      Pending size nr' r' ∧ r' ++ future = rest.flatten ∧
      ∀ m ∈ rest.head?, r'.length < m.length := by
  have hsize := hp.size
  have hptr := hp.ptr
  -- a part of a message leaves room for the rest of it
  have hroom : nr.ptr < nr.size := by
    cases msgs with
    | nil =>
      have hnil : r = [] := (append_eq_nil_iff.mp heq).1
      rw [hptr, hsize, hnil]
      exact h0
    | cons m msgs =>
      have hlt := hr m rfl
      have hle := (hm m mem_cons_self).le
      omega
  have hheld : (nr.mem.store nr.ptr data).Holds 0 (r ++ data) := by
    rw [holds_append, zero_add, ← hptr]
    exact ⟨hp.holds.store (.inr (by omega)), holds_store _ _ _⟩
  have hlen : (r ++ data).length = nr.ptr + data.length := by
    rw [length_append, hptr]
  generalize hn : ({ nr with mem := nr.mem.store nr.ptr data, ptr := nr.ptr + data.length } : Nr) =
    nr1
  have hptr1 : nr1.ptr = nr1.msg + (r ++ data).length := by
    rw [← hn, hlen, hp.msg, zero_add]
  have hle1 : nr1.ptr ≤ size := by
    rw [← hn]
    dsimp only
    omega
  have hheld1 : nr1.mem.Holds nr1.msg (r ++ data) := by
    rw [← hn, hp.msg]
    exact hheld
  have hfuel : (r ++ data).length < fuel := by omega
  obtain ⟨done, rest, r', nr', e1, e2, e3, e4, e5⟩ := drain_spec hs hm hfuel (hn ▸ hsize) hptr1
    hle1 (.inl (hn ▸ hp.msg)) hheld1 (by rw [append_assoc, heq])
  refine ⟨done, rest, r', nr', e1, ?_, e3, e4, e5⟩
  have hret : ¬i32 (data.length : ℤ) < 0 := by
    rw [i32_of_range (by omega) (by omega)]
    omega
  rw [pass, nrRecv, if_neg (by omega)]
  dsimp only
  rw [if_neg hret, hn, e2]

/-! ### The loop -/

lemma receive_spec (h0 : 0 < size) (hf : size < fuel) (reads : List (List UInt8))
    (hm : ∀ m ∈ msgs, IsMsg size m) {r : List UInt8} (hp : Pending size nr r)
    (hr : ∀ m ∈ msgs.head?, r.length < m.length) (heq : r ++ reads.flatten = msgs.flatten)
    (hfit : Fits fuel nr reads) :
    ∃ nr', receive fuel nr reads = .ok (msgs, nr') ∧ Pending size nr' [] := by
  induction reads generalizing msgs nr r with
  | nil =>
    rw [flatten_nil, append_nil] at heq
    -- a message that is left would be complete
    obtain rfl : msgs = [] := by
      cases msgs with
      | nil => rfl
      | cons m msgs =>
        have hlt := hr m rfl
        rw [heq, flatten_cons, length_append] at hlt
        omega
    obtain rfl : r = [] := heq
    exact ⟨nr, rfl, hp⟩
  | cons data reads ih =>
    obtain ⟨hdata, hrest⟩ := hfit
    obtain ⟨done, rest, r', nr1, rfl, e2, e3, e4, e5⟩ := pass_spec hs hm hf h0 hp hr hdata heq
    obtain ⟨nr', h1, h2⟩ := ih (fun m hm' => hm m (mem_append_right done hm')) e3 e5 e4
      (hrest done nr1 e2)
    refine ⟨nr', ?_, h2⟩
    rw [receive, e2]
    dsimp only
    rw [h1]

end

/-- **The messages do not depend on how they are read.** Whatever was in the buffer before, and
however the stream is cut, the loop never fails and finds the messages that were sent; after
that the buffer is empty. -/
theorem receive_chunks (size : ℕ) (hs : size < 2147483648) (h0 : 0 < size) (mem : Mem)
    (msgs : List (List UInt8)) (hm : ∀ m ∈ msgs, IsMsg size m) (reads : List (List UInt8))
    (hr : reads.flatten = msgs.flatten) (fuel : ℕ) (hf : size < fuel)
    (hfit : Fits fuel (nrBufSet mem size) reads) :
    ∃ nr, receive fuel (nrBufSet mem size) reads = .ok (msgs, nr) ∧ nr.msg = 0 ∧ nr.ptr = 0 := by
  have hp : Pending size (nrBufSet mem size) [] := ⟨rfl, rfl, rfl, holds_nil _ _⟩
  have hshort : ∀ m ∈ msgs.head?, ([] : List UInt8).length < m.length := by
    intro m hmem
    have := (hm m (mem_of_mem_head? hmem)).header
    rw [length_nil]
    omega
  obtain ⟨nr, h1, h2⟩ := receive_spec hs h0 hf reads hm hp hshort hr hfit
  exact ⟨nr, h1, h2.msg, h2.ptr⟩

/-- A message of `n + 4` bytes. -/
def sampleMsg (n : ℕ) (b : UInt8) : List UInt8 := le 4 (n + 4) ++ replicate n b

/-- The space that is left after a turn that does not fail. -/
def space (r : Except Failure (List (List UInt8) × Nr)) : ℕ :=
  match r with
  | .ok (_, nr) => nr.size - nr.ptr
  | .error _ => 0

/-- Two messages, the first of which is cut in its header. -/
theorem receive_chunks_two :
    ∃ nr, receive 41 (nrBufSet (fun _ => 0) 40)
        [(sampleMsg 12 1 ++ sampleMsg 16 2).take 10, (sampleMsg 12 1 ++ sampleMsg 16 2).drop 10] =
      .ok ([sampleMsg 12 1, sampleMsg 16 2], nr) ∧ nr.msg = 0 ∧ nr.ptr = 0 := by
  refine receive_chunks 40 (by decide) (by decide) _ _ ?_ _ ?_ 41 (by decide) ?_
  · intro m hm
    rcases mem_cons.mp hm with rfl | hm
    · exact ⟨by decide, by decide, by decide⟩
    · obtain rfl := mem_singleton.mp hm
      exact ⟨by decide, by decide, by decide⟩
  · decide
  · refine ⟨by decide, fun msgs nr h => ⟨?_, fun _ _ _ => trivial⟩⟩
    have hspace : space (pass 41 (nrBufSet (fun _ => 0) 40)
        ((sampleMsg 12 1 ++ sampleMsg 16 2).take 10)) = 30 := by decide +kernel
    rw [h] at hspace
    rw [show nr.size - nr.ptr = 30 from hspace]
    decide

/-! ### Huge buffers -/

lemma lenField_le (v : ℕ) (l : List UInt8) : lenField (le 4 v ++ l) = v % 4294967296 := by
  have h1 := le_two_val v
  have h2 := le_two_val (v / 256 / 256)
  have he : lenField (le 4 v ++ l) = ((UInt8.ofNat v).toNat + 256 * (UInt8.ofNat (v / 256)).toNat) +
      65536 * ((UInt8.ofNat (v / 256 / 256)).toNat +
        256 * (UInt8.ofNat (v / 256 / 256 / 256)).toNat) := rfl
  rw [he, h1, h2]
  omega

lemma isMsg_sampleMsg {size n : ℕ} (h1 : 12 ≤ n) (h2 : n + 4 ≤ size) (h3 : size < 4294967296)
    (b : UInt8) : IsMsg size (sampleMsg n b) := by
  have hlen : (sampleMsg n b).length = n + 4 := by
    rw [sampleMsg, length_append, length_le, length_replicate, add_comm]
  refine ⟨?_, by omega, by omega⟩
  rw [hlen, sampleMsg, lenField_le]
  omega

/-- A read into a buffer that has one message in it, or the front part of one, where `nl_msg`
finds nothing. -/
theorem pass_none {data : List UInt8} (fuel : ℕ) (hmsg : nr.msg = 0) (hroom : nr.ptr < nr.size)
    (hret : ¬i32 data.length < 0)
    (hnone : nlMsg (nr.mem.store nr.ptr data) 0 (nr.ptr + data.length) = false) :
    pass (fuel + 1) nr data =
      .ok ([], { nr with mem := nr.mem.store nr.ptr data, ptr := nr.ptr + data.length }) := by
  have hnext : nrNext { nr with mem := nr.mem.store nr.ptr data, ptr := nr.ptr + data.length } =
      (none, { nr with mem := nr.mem.store nr.ptr data, ptr := nr.ptr + data.length }) := by
    rw [nrNext, if_neg (by dsimp only; omega)]
    dsimp only
    rw [hmsg, Int.natCast_zero, Int.sub_zero, Int.natCast_add, hnone, if_neg Bool.false_ne_true,
      if_neg (lt_irrefl 0)]
  rw [pass, nrRecv, if_neg (by omega)]
  dsimp only
  rw [if_neg hret, drain, hnext]

/-- A message that fills a buffer of 2 GB is not found when it is complete. -/
theorem receive_huge (fuel : ℕ) (mem : Mem) {size : ℕ} {m c d : List UInt8}
    (hs : size = 2147483648) (hm : IsMsg size m) (hlen : m.length = size) (hc : c.length = size - 1)
    (hd : d.length = 1) (hpre : c <+: m) :
    Fits (fuel + 1) (nrBufSet mem size) [c, d] ∧
      ∃ nr, receive (fuel + 1) (nrBufSet mem size) [c, d] = .ok ([], nr) := by
  -- all but the last byte: the message is not complete
  have hnone1 : nlMsg (mem.store 0 c) 0 ((0 : ℕ) + (c.length : ℕ)) = false := by
    have hget : (mem.store 0 c).get32 0 = size := by
      rw [get32_eq_lenField (holds_store mem 0 c) (by omega) hpre, hm.field, hlen]
    rw [nlMsg, Int.natCast_zero, Int.zero_add, i32_of_range (by omega) (by omega), hget,
      if_neg (by omega), if_neg (by omega), if_pos (by omega)]
  have hpass : pass (fuel + 1) (nrBufSet mem size) c =
      .ok ([], ⟨mem.store 0 c, 0, 0 + c.length, size⟩) :=
    pass_none fuel rfl (by rw [nrBufSet]; dsimp only; omega) (by rw [hc, i32]; omega) hnone1
  -- the last byte: the length is negative
  have hnone2 : nlMsg ((mem.store 0 c).store (0 + c.length) d) 0
      ((0 + c.length : ℕ) + (d.length : ℕ)) = false := by
    have hneg : i32 ((0 + c.length : ℕ) + (d.length : ℕ)) < 0 := by
      rw [i32]
      omega
    rw [nlMsg, if_pos hneg]
  have hlast : pass (fuel + 1) ⟨mem.store 0 c, 0, 0 + c.length, size⟩ d =
      .ok ([], ⟨(mem.store 0 c).store (0 + c.length) d, 0, 0 + c.length + d.length, size⟩) :=
    pass_none fuel rfl (by dsimp only; omega) (by rw [hd, i32]; omega) hnone2
  refine ⟨⟨by rw [nrBufSet]; dsimp only; omega, fun msgs nr h => ⟨?_, fun _ _ _ => trivial⟩⟩, ?_⟩
  · rw [hpass] at h
    obtain ⟨-, rfl⟩ := Prod.mk.inj (Except.ok.inj h)
    dsimp only
    omega
  · refine ⟨⟨(mem.store 0 c).store (0 + c.length) d, 0, 0 + c.length + d.length, size⟩, ?_⟩
    rw [receive, hpass]
    dsimp only
    rw [receive, hlast]
    dsimp only
    rw [receive]
    rfl

/-- **A message that is lost**: it fills a buffer of 2 GB, and its last byte is read on its
own. -/
theorem huge_message_lost :
    IsMsg 2147483648 (sampleMsg 2147483644 0) ∧
      Fits 2147483649 (nrBufSet (fun _ => 0) 2147483648)
        [(sampleMsg 2147483644 0).take 2147483647, (sampleMsg 2147483644 0).drop 2147483647] ∧
      ¬∃ nr, receive 2147483649 (nrBufSet (fun _ => 0) 2147483648)
        [(sampleMsg 2147483644 0).take 2147483647, (sampleMsg 2147483644 0).drop 2147483647] =
          .ok ([sampleMsg 2147483644 0], nr) := by
  have hm : IsMsg 2147483648 (sampleMsg 2147483644 0) :=
    isMsg_sampleMsg (by decide) (by decide) (by decide) 0
  have hlen : (sampleMsg 2147483644 0).length = 2147483648 := by
    rw [sampleMsg, length_append, length_le, length_replicate]
  have htake : ((sampleMsg 2147483644 0).take 2147483647).length = 2147483648 - 1 := by
    rw [length_take, hlen]
    rfl
  have hdrop : ((sampleMsg 2147483644 0).drop 2147483647).length = 1 := by
    rw [length_drop, hlen]
  obtain ⟨hfit, nr, hnr⟩ := receive_huge 2147483648 (fun _ => 0) rfl hm hlen htake hdrop
    ( take_prefix ..)
  refine ⟨hm, hfit, ?_⟩
  rintro ⟨nr', hnr'⟩
  rw [hnr] at hnr'
  have hnil := (Prod.mk.inj (Except.ok.inj hnr')).1
  cases hnil

end Minibase.Netlink
