import Minibase.Lib.Records
import Minibase.Util.Writeall

/-!
# Modules that are unpacked

`readall` and `trim_extra` of `src/kmod/common_map.c`. What an unpacker writes into a pipe is
read into anonymous memory, eight times the size of the file that is unpacked, and grown by four
pages when it has become full. In the end the pages that were not reached are given back, and
`len` is made the new size of the memory, where it should have been `full`: the buffer is right
exactly if there is nothing to give back (`Kmod.readall_exact_iff`).
-/

namespace Minibase.Kmod

open List Option

def PAGE : ℕ := 4096

def MAX_MAP_SIZE : ℕ := 0x7FFFFFFF

def E2BIG : ℤ := 7

/-- By how much the memory is grown. -/
def UNIT : ℕ := 4 * PAGE

def pagealign (sz : ℕ) : ℕ := (sz + PAGE - 1) / PAGE * PAGE

/-- The bytes of some memory that is mapped, all of them. -/
abbrev Mapping := List UInt8

/-- `sys_mremap`, if it succeeds. -/
def Mapping.remap (m : Mapping) (newlen : ℕ) : Mapping :=
  m.take newlen ++ replicate (newlen - m.length) 0

/-- `struct mbuf`, with the memory that `buf` points to. -/
structure Mbuf where
  buf : Mapping
  len : ℕ
  full : ℕ

/-- What the system returns: for mapping memory, for mapping it again, and for reads. -/
structure Sys where
  mmap : ℤ
  mremap : ℕ → ℤ
  read : Outcomes

/-- In the loop of `readall`: the memory and how far it is filled, what is still to come
through the pipe, and how many calls there have been. There is always room for more. -/
structure Filling where
  buf : Mapping
  ptr : ℕ
  ptr_lt : ptr < buf.length
  stream : List UInt8
  reads : ℕ
  mremaps : ℕ

/-- What a read returns: an error, or how much it has read. It is nothing at the end only. -/
def Filling.rd (sys : Sys) (st : Filling) : ℤ :=
  let ret := sys.read.ret st.reads (st.buf.length - st.ptr)
  if ret < 0 then ret else min (max 1 ret) st.stream.length

/-- The memory after so many bytes were read. -/
def Filling.filled (st : Filling) (rd : ℕ) : Mapping := pwrite st.buf st.ptr (st.stream.take rd)

/-- A read gets no more than there is room for. -/
theorem Filling.rd_le (sys : Sys) (st : Filling) : (st.rd sys).toNat ≤ st.buf.length - st.ptr := by
  have hle := sys.read.ret_le st.reads (st.buf.length - st.ptr)
  have hlt := st.ptr_lt
  rw [rd]
  split_ifs <;> omega

lemma Filling.rd_le_length (sys : Sys) (st : Filling) : (st.rd sys).toNat ≤ st.stream.length := by
  rw [rd]
  split_ifs <;> omega

lemma Filling.length_filled (sys : Sys) (st : Filling) :
    (st.filled (st.rd sys).toNat).length = st.buf.length := by
  have hroom := st.rd_le sys
  have hlt := st.ptr_lt
  refine length_pwrite_of_le ?_
  rw [length_take]
  omega

lemma pagealign_pos {sz : ℕ} (h : 0 < sz) : 0 < pagealign sz := by
  rw [pagealign, PAGE]
  omega

lemma Mapping.length_remap (m : Mapping) (newlen : ℕ) : (m.remap newlen).length = newlen := by
  rw [remap, length_append, length_take, length_replicate]
  omega

/-- There is room again when the memory has been grown. -/
theorem Filling.lt_grown (sys : Sys) (st : Filling) :
    st.ptr + (st.rd sys).toNat <
      ((st.filled (st.rd sys).toNat).remap
        ((st.filled (st.rd sys).toNat).length + UNIT)).length := by
  have hroom := st.rd_le sys
  have hlt := st.ptr_lt
  rw [Mapping.length_remap, st.length_filled, UNIT, PAGE]
  omega

/-- The loop of `readall`, in at most so many rounds: nothing if it is still going on. -/
def readallFrom (sys : Sys) : ℕ → Filling → Option (Except ℤ Filling)
  | 0, _ => none
  | k + 1, st =>
    let rd := st.rd sys
    if rd < 0 then some (.error rd)
    else if rd = 0 then some (.ok st)
    else
      let buf := st.filled rd.toNat
      let ptr := st.ptr + rd.toNat
      let stream := st.stream.drop rd.toNat
      if h : ptr < buf.length then
        readallFrom sys k ⟨buf, ptr, h, stream, st.reads + 1, st.mremaps⟩
      else
        let newlen := buf.length + UNIT
        let ret := sys.mremap st.mremaps
        if newlen > MAX_MAP_SIZE then some (.error (-E2BIG))
        else if ret < 0 then some (.error ret)
        else
          readallFrom sys k
            ⟨buf.remap newlen, ptr, st.lt_grown sys, stream, st.reads + 1, st.mremaps + 1⟩

/-- `trim_extra`, with what `mremap` would return. -/
def trimExtra (ret : ℤ) (mb : Mbuf) : Except ℤ Mbuf :=
  let newlen := pagealign mb.len
  let newlen := if newlen = 0 then PAGE else newlen
  if newlen ≥ mb.full then .ok mb
  else if ret < 0 then .error ret
  else .ok { mb with len := newlen, buf := mb.buf.remap newlen }

/-- How much memory is taken in advance. A file that is unpacked has no more than a sixteenth of
`MAX_MAP_SIZE`, so this does not overflow. -/
def guessed (compsize : ℕ) : ℕ := pagealign (8 * compsize + 1)

lemma guessed_pos (compsize : ℕ) : 0 < guessed compsize := pagealign_pos (Nat.succ_pos _)

/-- Before the first read. -/
def Filling.start (compsize : ℕ) (stream : List UInt8) : Filling where
  buf := replicate (guessed compsize) 0
  ptr := 0
  ptr_lt := by
    rw [length_replicate]
    exact guessed_pos compsize
  stream := stream
  reads := 0
  mremaps := 0

/-- `readall`, for a file of so many bytes that is unpacked to this. Each read gets
something, so there are no more of them than bytes. -/
def readall (sys : Sys) (compsize : ℕ) (stream : List UInt8) : Option (Except ℤ Mbuf) :=
  if sys.mmap < 0 then some (.error sys.mmap)
  else
    (readallFrom sys (stream.length + 1) (Filling.start compsize stream)).map fun r => do
      let st ← r
      trimExtra (sys.mremap st.mremaps) ⟨st.buf, st.ptr, st.buf.length⟩

/-! ### What is in the memory -/

/-- How large the memory is in the end, for so many bytes. -/
def mapped (compsize n : ℕ) : ℕ :=
  if n < guessed compsize then guessed compsize
  else guessed compsize + UNIT * ((n - guessed compsize) / UNIT + 1)

/-- **What is read** is in the memory up to `ptr`, and the memory is as large as it has to be. -/
structure Filling.Holds (compsize : ℕ) (whole : List UInt8) (st : Filling) : Prop where
  all : st.buf.take st.ptr ++ st.stream = whole
  size : st.buf.length = mapped compsize st.ptr

variable {compsize : ℕ}

/-- As much as there is until the memory has been grown another time. -/
theorem mapped_grown {n j : ℕ} (hle : guessed compsize + UNIT * j ≤ n)
    (hlt : n < guessed compsize + UNIT * (j + 1)) :
      mapped compsize n = guessed compsize + UNIT * (j + 1) := by
  have hdiv : (n - guessed compsize) / UNIT = j := by
    refine Nat.div_eq_of_lt_le ?_ ?_
    · rw [mul_comm]
      omega
    · rw [mul_comm]
      omega
  rw [mapped, if_neg (by omega), hdiv]

/-- The memory is a number of units larger than at first. -/
theorem exists_mapped (compsize n : ℕ) :
    (n < guessed compsize ∧ mapped compsize n = guessed compsize) ∨
      ∃ j, guessed compsize + UNIT * j ≤ n ∧ n < guessed compsize + UNIT * (j + 1) := by
  have hunit : 0 < UNIT := by decide
  rcases lt_or_ge n (guessed compsize) with h | h
  · exact .inl ⟨h, if_pos h⟩
  · have hmod := Nat.div_add_mod (n - guessed compsize) UNIT
    have hlt := Nat.mod_lt (n - guessed compsize) hunit
    refine .inr ⟨(n - guessed compsize) / UNIT, by omega, ?_⟩
    rw [mul_add, mul_one]
    omega

lemma lt_mapped (compsize n : ℕ) : n < mapped compsize n := by
  rcases exists_mapped compsize n with ⟨hlt, heq⟩ | ⟨j, hle, hlt⟩
  · rwa [heq]
  · rwa [mapped_grown hle hlt]

/-- More fits into the memory as long as it is less than all of it. -/
theorem mapped_of_lt {n m : ℕ} (hle : n ≤ m) (hlt : m < mapped compsize n) :
    mapped compsize m = mapped compsize n := by
  rcases exists_mapped compsize n with ⟨-, heq⟩ | ⟨j, hn, hn'⟩
  · rw [heq] at hlt ⊢
    exact if_pos hlt
  · rw [mapped_grown hn hn'] at hlt ⊢
    exact mapped_grown (le_trans hn hle) hlt

/-- The memory is grown by a unit when it is full. -/
theorem mapped_full (compsize n : ℕ) : mapped compsize
    (mapped compsize n) = mapped compsize n + UNIT := by
  have hunit : 0 < UNIT := by decide
  rcases exists_mapped compsize n with ⟨-, heq⟩ | ⟨j, hn, hn'⟩
  · have hgrown : mapped compsize (guessed compsize) = guessed compsize + UNIT * (0 + 1) :=
      mapped_grown (by omega) (by omega)
    rw [heq, hgrown, zero_add, mul_one]
  · have hsucc : UNIT * (j + 1 + 1) = UNIT * (j + 1) + UNIT := Nat.mul_succ UNIT (j + 1)
    have hgrown : mapped compsize (guessed compsize + UNIT * (j + 1)) =
      guessed compsize + UNIT * (j + 1 + 1) :=
      mapped_grown (le_refl _) (by omega)
    rw [mapped_grown hn hn', hgrown, hsucc, add_assoc]

lemma mapped_mono {n m : ℕ} (h : n ≤ m) : mapped compsize n ≤ mapped compsize m := by
  rcases lt_or_ge m (mapped compsize n) with hlt | hge
  · exact le_of_eq (mapped_of_lt h hlt).symm
  · exact le_trans hge (le_of_lt (lt_mapped compsize m))

lemma Filling.start_holds (compsize : ℕ) (stream : List UInt8) :
    (Filling.start compsize stream).Holds compsize stream := by
  constructor
  · rfl
  · show (replicate (guessed compsize) (0 : UInt8)).length = mapped compsize 0
    rw [length_replicate, mapped, if_pos (guessed_pos compsize)]

/-- What was read goes behind what was there. -/
theorem Filling.take_filled (sys : Sys) (st : Filling) :
    (st.filled (st.rd sys).toNat).take (st.ptr + (st.rd sys).toNat) =
      st.buf.take st.ptr ++ st.stream.take (st.rd sys).toNat := by
  have hroom := st.rd_le sys
  have hlen := st.rd_le_length sys
  have hlt := st.ptr_lt
  have hgot : (st.stream.take (st.rd sys).toNat).length = (st.rd sys).toNat :=
    length_take_of_le hlen
  have hptr : (st.buf.take st.ptr).length = st.ptr := length_take_of_le (le_of_lt hlt)
  have hfront : (st.buf.take st.ptr ++ st.stream.take (st.rd sys).toNat).length =
    st.ptr + (st.rd sys).toNat := by
    rw [length_append, hptr, hgot]
  rw [filled, pwrite_of_le (by omega), ← append_assoc, take_left' hfront]

section Step

variable {sys : Sys} {compsize : ℕ} {whole : List UInt8} {st : Filling}

section

variable (h : st.Holds compsize whole)
include h

lemma Filling.Holds.all_filled :
    (st.filled (st.rd sys).toNat).take (st.ptr + (st.rd sys).toNat) ++ st.stream.drop
    (st.rd sys).toNat = whole := by
  rw [st.take_filled sys, append_assoc, take_append_drop, h.all]

/-- After a read that leaves room. -/
theorem Filling.Holds.more
    (hlt : st.ptr + (st.rd sys).toNat < (st.filled (st.rd sys).toNat).length) (reads : ℕ) :
    Filling.Holds compsize whole ⟨st.filled (st.rd sys).toNat, st.ptr + (st.rd sys).toNat, hlt,
      st.stream.drop (st.rd sys).toNat, reads, st.mremaps⟩ := by
  refine ⟨h.all_filled, ?_⟩
  show (st.filled (st.rd sys).toNat).length = mapped compsize (st.ptr + (st.rd sys).toNat)
  rw [st.length_filled, h.size] at hlt ⊢
  exact (mapped_of_lt (Nat.le_add_right _ _) hlt).symm

/-- How far a read has got if it leaves no room. -/
theorem Filling.Holds.full
    (hge : ¬ st.ptr + (st.rd sys).toNat < (st.filled (st.rd sys).toNat).length) :
    st.ptr + (st.rd sys).toNat = mapped compsize st.ptr := by
  have hlt := st.ptr_lt
  have hroom := st.rd_le sys
  rw [st.length_filled] at hge
  rw [← h.size]
  omega

/-- After a read that leaves none, and with the memory grown. -/
theorem Filling.Holds.grown
    (hge : ¬ st.ptr + (st.rd sys).toNat < (st.filled (st.rd sys).toNat).length)
    (reads mremaps : ℕ) :
    Filling.Holds compsize whole ⟨_, _, st.lt_grown sys, st.stream.drop (st.rd sys).toNat, reads,
      mremaps⟩ := by
  have hgrown : ∀ (m : Mapping) (n : ℕ), n ≤ m.length →
    (m.remap (m.length + UNIT)).take n = m.take n := by
    intro m n hn
    rw [Mapping.remap, take_of_length_le (Nat.le_add_right _ _), take_append_of_le_length hn]
  have hfull := h.full hge
  constructor
  · have hfit : st.ptr + (st.rd sys).toNat ≤ (st.filled (st.rd sys).toNat).length := by
      rw [st.length_filled, hfull, h.size]
    show (Mapping.remap _ _).take _ ++ _ = whole
    rw [hgrown _ _ hfit, h.all_filled]
  · show (Mapping.remap _ _).length = mapped compsize (st.ptr + (st.rd sys).toNat)
    rw [Mapping.length_remap, st.length_filled, hfull, mapped_full, h.size]

end

/-- **The loop** reads all there is, into memory that is large enough. -/
theorem readallFrom_ok {k : ℕ} {st' : Filling} (hst : st.Holds compsize whole)
    (h : readallFrom sys k st = some (.ok st')) : st'.Holds compsize whole ∧ st'.stream = [] := by
  induction k generalizing st with
  | zero => cases h
  | succ k ih =>
    rw [readallFrom] at h
    dsimp only at h
    split_ifs at h with h1 h2 h3 h4 h5
    · cases Option.some.inj h
    · cases Option.some.inj h
      -- a read gets nothing at the end of the stream only
      refine ⟨hst, length_eq_zero_iff.mp ?_⟩
      rw [Filling.rd] at h2
      split_ifs at h2 <;> omega
    · exact ih (hst.more h3 _) h
    · cases Option.some.inj h
    · cases Option.some.inj h
    · exact ih (hst.grown h3 _ _) h

end Step

/-- **The buffer is exact**: it has the length of what was unpacked, the size of the memory
that is held, and what was unpacked. -/
structure Mbuf.Exact (mb : Mbuf) (stream : List UInt8) : Prop where
  len : mb.len = stream.length
  full : mb.full = mb.buf.length
  bytes : mb.buf.take mb.len = stream

/-- The memory that is kept: pages up to the last byte, and one if there is no byte. -/
def kept (n : ℕ) : ℕ := pagealign (max 1 n)

variable {sys : Sys}

/-- **What `readall` leaves**: either there was nothing to give back, or `len` is the size of
what is kept. -/
theorem readall_cases {stream : List UInt8} {mb : Mbuf}
    (h : readall sys compsize stream = some (.ok mb)) :
    ∃ buf : Mapping, buf.take stream.length = stream ∧ buf.length = mapped compsize stream.length ∧
      ((mapped compsize stream.length ≤ kept stream.length ∧
        mb = ⟨buf, stream.length, buf.length⟩) ∨
        (kept stream.length < mapped compsize stream.length ∧
          mb = ⟨buf.remap (kept stream.length), kept stream.length, buf.length⟩)) := by
  rw [readall] at h
  split_ifs at h
  · cases h
  obtain ⟨r, hloop, hr⟩ := map_eq_some_iff.mp h
  rcases r with e | st
  · cases hr
  obtain ⟨hholds, hend⟩ := readallFrom_ok (Filling.start_holds compsize stream) hloop
  have hall := hholds.all
  rw [hend, append_nil] at hall
  have hptr : st.ptr = stream.length := by
    rw [← hall, length_take_of_le (Nat.le_of_lt st.ptr_lt)]
  have hsize := hholds.size
  rw [hptr] at hsize hall
  -- a page is kept even if nothing was unpacked
  have hnew : (if pagealign stream.length = 0 then PAGE else pagealign stream.length) =
    kept stream.length := by
    rw [kept, pagealign, pagealign, PAGE]
    split_ifs <;> omega
  have htrim : trimExtra (sys.mremap st.mremaps) ⟨st.buf, st.ptr, st.buf.length⟩ = .ok mb := hr
  rw [trimExtra] at htrim
  rw [hptr, hnew] at htrim
  split_ifs at htrim with h1 h2
  · exact ⟨st.buf, hall, hsize, .inl ⟨hsize ▸ h1, (Except.ok.inj htrim).symm⟩⟩
  · exact ⟨st.buf, hall, hsize, .inr ⟨hsize ▸ Nat.lt_of_not_le h1, (Except.ok.inj htrim).symm⟩⟩

/-- **A module that was unpacked** is in an exact buffer exactly if there is nothing to give
back of the memory that was taken for it. -/
theorem readall_exact_iff {sys : Sys} {compsize : ℕ} {stream : List UInt8} {mb : Mbuf}
    (h : readall sys compsize stream = some (.ok mb)) :
    mb.Exact stream ↔ mapped compsize stream.length ≤ kept stream.length := by
  obtain ⟨buf, hall, hsize, ⟨hle, rfl⟩ | ⟨hlt, rfl⟩⟩ := readall_cases h
  · exact iff_of_true ⟨rfl, rfl, hall⟩ hle
  · refine iff_of_false (fun hexact => ?_) (Nat.not_le.mpr hlt)
    have hfull : buf.length = (buf.remap (kept stream.length)).length := hexact.full
    rw [Mapping.length_remap, hsize] at hfull
    exact absurd hfull (ne_of_gt hlt)

/-! ### Runs that succeed -/

/-- No call fails. -/
structure Sys.Works (sys : Sys) : Prop where
  mmap : 0 ≤ sys.mmap
  mremap : ∀ k, 0 ≤ sys.mremap k
  read : ∀ k, 0 ≤ sys.read k

lemma Filling.rd_nonneg (hsys : sys.Works) (st : Filling) : 0 ≤ st.rd sys := by
  have hret : 0 ≤ sys.read.ret st.reads (st.buf.length - st.ptr) := by
    have hread := hsys.read st.reads
    rw [Outcomes.ret, MAX_RW]
    omega
  rw [rd]
  split_ifs <;> omega

/-- **The loop ends**, and it does so well if no call fails and the limit is not reached. -/
theorem readallFrom_isSome {whole : List UInt8} {k : ℕ} {st : Filling}
    (hst : st.Holds compsize whole) (hk : st.stream.length < k) :
    ∃ r, readallFrom sys k st = some r ∧
      (sys.Works → mapped compsize whole.length ≤ MAX_MAP_SIZE → ∃ st', r = .ok st') := by
  induction k generalizing st with
  | zero => cases hk
  | succ k ih =>
    have hless : ¬ st.rd sys < 0 → ¬ st.rd sys = 0 →
      (st.stream.drop (st.rd sys).toNat).length < k := by
      intro h1 h2
      have hle := st.rd_le_length sys
      rw [length_drop]
      omega
    rw [readallFrom]
    dsimp only
    split_ifs with h1 h2 h3 h4 h5
    · exact ⟨_, rfl, fun hsys => absurd (st.rd_nonneg hsys) (Int.not_le.mpr h1)⟩
    · exact ⟨_, rfl, fun _ _ => ⟨st, rfl⟩⟩
    · exact ih (hst.more h3 _) (hless h1 h2)
    · refine ⟨_, rfl, fun _ hmax => absurd h4 (Nat.not_lt.mpr (le_trans ?_ hmax))⟩
      -- as much is needed for what was read
      have hptr : st.ptr + (st.rd sys).toNat ≤ whole.length := by
        have hle := st.rd_le_length sys
        have hlen := congrArg length hst.all
        rw [length_append, length_take_of_le (le_of_lt st.ptr_lt)] at hlen
        omega
      rw [st.length_filled, hst.size, ← mapped_full, ← hst.full h3]
      exact mapped_mono hptr
    · exact ⟨_, rfl, fun hsys => absurd (hsys.mremap _) (Int.not_le.mpr h5)⟩
    · exact ih (hst.grown h3 _ _) (hless h1 h2)

lemma trimExtra_ok {ret : ℤ} (hret : 0 ≤ ret) (mb : Mbuf) : ∃ mb', trimExtra ret mb = .ok mb' := by
  rw [trimExtra]
  by_cases hfit : (if pagealign mb.len = 0 then PAGE else pagealign mb.len) ≥ mb.full
  · exact ⟨_, if_pos hfit⟩
  · exact ⟨_, (if_neg hfit).trans (if_neg (Int.not_lt.mpr hret))⟩

/-- **A module is unpacked** if no call fails and the limit is not reached. -/
theorem readall_ok {stream : List UInt8} (hsys : sys.Works)
    (hmax : mapped compsize stream.length ≤ MAX_MAP_SIZE) :
    ∃ mb, readall sys compsize stream = some (.ok mb) := by
  have hlt : (Filling.start compsize stream).stream.length < stream.length + 1 := Nat.lt_succ_self _
  obtain ⟨r, hloop, hok⟩ := readallFrom_isSome (Filling.start_holds compsize stream) hlt
  obtain ⟨st, rfl⟩ := hok hsys hmax
  obtain ⟨mb, hmb⟩ := trimExtra_ok (hsys.mremap st.mremaps) ⟨st.buf, st.ptr, st.buf.length⟩
  refine ⟨mb, ?_⟩
  rw [readall, if_neg (Int.not_lt.mpr hsys.mmap), hloop]
  exact congrArg some hmb

/-- All calls succeed, and each read gets a page. -/
def willing : Sys where
  mmap := 0
  mremap := fun _ => 0
  read := fun _ => PAGE

lemma willing_works : willing.Works := by
  constructor
  · exact Int.le_refl 0
  · exact fun _ => Int.le_refl 0
  · exact fun _ => Int.natCast_nonneg PAGE

/-- All calls succeed, and three bytes at a time are read. -/
def sipping : Sys where
  mmap := 0
  mremap := fun _ => 0
  read := fun _ => 3

/-- The start of a module, in three reads: the page that is taken for it is all kept. -/
theorem readall_exact_iff_sipping :
    ∃ mb, readall sipping 0 [0x7F, 0x45, 0x4C, 0x46, 2, 1, 1] = some (.ok mb) ∧
      mb.Exact [0x7F, 0x45, 0x4C, 0x46, 2, 1, 1] := by
  have hworks : sipping.Works := by
    constructor
    · exact Int.le_refl 0
    · exact fun _ => Int.le_refl 0
    · exact fun _ => Int.natCast_nonneg 3
  have hmax : mapped 0 ([0x7F, 0x45, 0x4C, 0x46, 2, 1, 1] : List UInt8).length ≤ MAX_MAP_SIZE := by
    decide
  obtain ⟨mb, hmb⟩ := readall_ok hworks hmax
  exact ⟨mb, hmb, (readall_exact_iff hmb).mpr (by decide)⟩

/-- **The length is wrong** where memory is given back: a file of 512 bytes, for which two
pages are taken, that comes to one byte. -/
theorem not_readall_exact : ¬ ∀ (sys : Sys) (compsize : ℕ) (stream : List UInt8) (mb : Mbuf),
    readall sys compsize stream = some (.ok mb) → mb.Exact stream := by
  intro h
  obtain ⟨mb, hmb⟩ := readall_ok willing_works
    (show mapped 512 [(0x7F : UInt8)].length ≤ _ by decide)
  obtain ⟨buf, -, -, ⟨hle, -⟩ | ⟨-, rfl⟩⟩ := readall_cases hmb
  · exact absurd hle (by decide)
  · have hlen : kept [(0x7F : UInt8)].length = [(0x7F : UInt8)].length := (h _ _ _ _ hmb).len
    exact absurd hlen (by decide)

end Minibase.Kmod
