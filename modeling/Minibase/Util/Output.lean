import Minibase.Lib.Memory
import Minibase.Util.Writeall

/-!
# Buffered output

`lib/output.c`. A buffer takes what is small, and is written out when it is full; what is larger is
written at once as far as whole buffers go (`bufout`). What has been handed to `writeall`, together
with what is in the buffer, is always what has been put out (`Bufout.Holds`), so that after
`bufoutflush` it is everything (`bufout_lossless`). The size of the buffer is given as a `uint` and
kept as an `int`; from `2 ^ 31` on it is negative (`not_lossless`).

A chunk may take two calls of `writeall`, and what the first returns is lost then (`reported_iff`).
-/

namespace Minibase

open List

/-- `struct bufout`, with the other end of the descriptor, and what has been handed to `writeall`
with what it returned. -/
structure Bufout where
  len : ℤ
  /-- An `int` that is never negative. -/
  ptr : ℕ
  buf : Mem
  sink : Sink
  handed : List (List UInt8 × ℤ)
  /-- A negative length has been given to `memcpy`. -/
  wild : Bool

/-- `bufoutset`, with a `uint` that becomes an `int`. -/
def bufoutset (buf : Mem) (len : ℕ) (sink : Sink) : Bufout := ⟨i32 len, 0, buf, sink, [], false⟩

/-- The room that is left in the buffer, an `int`. -/
def Bufout.rem (bo : Bufout) : ℤ := bo.len - bo.ptr

/-- A call of `writeall`, whose result is made an `int`. -/
def Bufout.write (o : Outcomes) (bo : Bufout) (data : List UInt8) : ℤ × Bufout :=
  let (ret, sink) := writeall o data bo.sink
  (i32 ret, { bo with sink := sink, handed := bo.handed ++ [(data, i32 ret)] })

/-- The first part of `bufout`, with the data that fit in the buffer. -/
def bufoutFits (o : Outcomes) (bo : Bufout) (data : List UInt8) : ℤ × Bufout :=
  let rem := bo.rem
  let bo := { bo with buf := bo.buf.store bo.ptr data }
  if (data.length : ℤ) < rem then (0, { bo with ptr := bo.ptr + data.length })
  else
    let (ret, bo) := bo.write o (bo.buf.load 0 (bo.ptr + data.length))
    (ret, { bo with ptr := 0 })

/-- The second part: what is in the buffer is written out with as much as there is room for. -/
def bufoutFlushed (o : Outcomes) (bo : Bufout) (data : List UInt8) : ℤ × Bufout × List UInt8 :=
  if bo.ptr ≠ 0 then
    let rem := bo.rem
    let bo := { bo with
      buf := bo.buf.store bo.ptr (data.take rem.toNat), wild := bo.wild || rem < 0 }
    let (ret, bo) := bo.write o (bo.buf.load 0 (bo.ptr + rem).toNat)
    (ret, { bo with ptr := 0 }, data.drop rem.toNat)
  else (0, bo, data)

/-- The third part: whole buffers are passed through. -/
def bufoutPassed (o : Outcomes) (ret : ℤ) (bo : Bufout) (data : List UInt8) :
    ℤ × Bufout × List UInt8 :=
  if bo.len ≤ data.length then
    let tail := (data.length : ℤ).tmod bo.len
    let pass := (data.length - tail).toNat
    let (ret, bo) := bo.write o (data.take pass)
    (ret, bo, data.drop pass)
  else (ret, bo, data)

/-- The last part: the rest goes into the buffer. -/
def bufoutKept (bo : Bufout) (data : List UInt8) : Bufout :=
  if data.length ≠ 0 then { bo with buf := bo.buf.store 0 data, ptr := data.length } else bo

/-- `bufout`: what it returns, and the buffer after it. -/
def bufout (o : Outcomes) (bo : Bufout) (data : List UInt8) : ℤ × Bufout :=
  if (data.length : ℤ) ≤ bo.rem then bufoutFits o bo data
  else
    let (ret, bo, data) := bufoutFlushed o bo data
    let (ret, bo, data) := bufoutPassed o ret bo data
    (ret, bufoutKept bo data)

/-- `bufoutflush`: what is in the buffer is written out. -/
def bufoutflush (o : Outcomes) (bo : Bufout) : ℤ × Bufout :=
  if bo.ptr ≠ 0 then
    let (ret, bo) := bo.write o (bo.buf.load 0 bo.ptr)
    (ret, { bo with ptr := 0 })
  else (0, bo)

/-- Chunk after chunk. -/
def bufoutAll (o : Outcomes) (bo : Bufout) (chunks : List (List UInt8)) : Bufout :=
  chunks.foldl (fun bo data => (bufout o bo data).2) bo

/-! ### What has been put out -/

/-- What has been handed to `writeall`. -/
def Bufout.out (bo : Bufout) : List UInt8 := (bo.handed.map Prod.fst).flatten

/-- **Everything so far**: what has been handed to `writeall`, and what is in the buffer, which is
never full; and if nothing has failed, what has been handed has been written. -/
structure Bufout.Holds (bo : Bufout) (len : ℕ) (start all : List UInt8) : Prop where
  size : bo.len = len
  lt : bo.ptr < len
  all : bo.out ++ bo.buf.load 0 bo.ptr = all
  tame : bo.wild = false
  written : (∀ x ∈ bo.handed, 0 ≤ x.2) → bo.sink.written = start ++ bo.out

variable {o : Outcomes} {bo : Bufout} {len : ℕ} {data start all : List UInt8} {ret : ℤ}

lemma load_store_self (m : Mem) (a : ℕ) (bs : List UInt8) : (m.store a bs).load a bs.length = bs :=
  Mem.holds_iff_load.mp (Mem.holds_store m a bs)

/-- A buffer that has been added to. -/
theorem load_store_append (m : Mem) (n : ℕ) (bs : List UInt8) :
    (m.store n bs).load 0 (n + bs.length) = m.load 0 n ++ bs := by
  rw [Mem.load_add, zero_add, load_store_self]
  refine congrArg (· ++ bs) (map_congr_left fun i hi => ?_)
  rw [mem_range] at hi
  exact Mem.store_of_not_mem (by omega)

lemma i32_writeall (o : Outcomes) (buf : List UInt8) (s : Sink) :
    i32 (writeall o buf s).1 = (writeall o buf s).1 := by
  obtain ⟨h1, h2⟩ := writeall_range o buf s
  exact i32_of_range (by omega) h2

lemma Bufout.write_fst : (bo.write o data).1 = (writeall o data bo.sink).1 :=
  i32_writeall o data bo.sink

lemma Bufout.write_handed : (bo.write o data).2.handed =
    bo.handed ++ [(data, (writeall o data bo.sink).1)] :=
  congrArg (fun r => bo.handed ++ [(data, r)]) (i32_writeall o data bo.sink)

lemma Bufout.write_out : (bo.write o data).2.out = bo.out ++ data := by
  rw [write, out, out, map_append, flatten_append]
  exact congrArg _ (append_nil _)

/-- What has been written after a call of `writeall`. -/
theorem Bufout.write_written
    (h : (∀ x ∈ bo.handed, 0 ≤ x.2) → bo.sink.written = start ++ bo.out)
    (hall : ∀ x ∈ (bo.write o data).2.handed, 0 ≤ x.2) :
    (bo.write o data).2.sink.written = start ++ (bo.write o data).2.out := by
  have hlast : 0 ≤ i32 (writeall o data bo.sink).1 :=
    hall (data, _) (mem_append_right _ (mem_singleton_self _))
  rw [i32_writeall] at hlast
  rw [write_out, ← append_assoc, ← h fun x hx => hall x (mem_append_left _ hx)]
  exact writeall_written hlast

/-! ### The parts -/

lemma bufoutFits_holds (h : bo.Holds len start all) :
    (bufoutFits o bo data).2.Holds len start (all ++ data) := by
  have hlt := h.lt
  have hsize := h.size
  rw [bufoutFits, Bufout.rem]
  split
  · refine ⟨hsize, ?_, ?_, h.tame, h.written⟩
    · dsimp only
      omega
    · show bo.out ++ (bo.buf.store bo.ptr data).load 0 (bo.ptr + data.length) = all ++ data
      rw [load_store_append, ← append_assoc, h.all]
  · rw [load_store_append]
    refine ⟨hsize, Nat.zero_lt_of_lt hlt, ?_, h.tame, Bufout.write_written h.written⟩
    show (Bufout.write o _ _).2.out ++ [] = _
    rw [Bufout.write_out, append_nil, ← append_assoc]
    exact congrArg (· ++ data) h.all

/-- After the second part there is nothing in the buffer. -/
theorem bufoutFlushed_holds (o : Outcomes) (h : bo.Holds len start all)
    (hbig : bo.rem < data.length) :
    (bufoutFlushed o bo data).2.1.ptr = 0 ∧ ∃ put, data = put ++ (bufoutFlushed o bo data).2.2 ∧
      (bufoutFlushed o bo data).2.1.Holds len start (all ++ put) := by
  have hlt := h.lt
  obtain ⟨n, hn⟩ : ∃ n : ℕ, bo.rem = n := by
    have hsize := h.size
    exact ⟨len - bo.ptr, by rw [Bufout.rem]; omega⟩
  rw [bufoutFlushed, hn]
  rw [hn] at hbig
  split
  · dsimp only
    rw [Int.toNat_natCast, ← Int.natCast_add, Int.toNat_natCast]
    have hlen : (data.take n).length = n := by
      rw [length_take]
      omega
    refine ⟨rfl, data.take n, (take_append_drop ..).symm, ?_⟩
    have hload : (bo.buf.store bo.ptr (data.take n)).load 0 (bo.ptr + n) =
        bo.buf.load 0 bo.ptr ++ data.take n := by
      rw [← load_store_append, hlen]
    rw [hload]
    have htame : (bo.wild || decide ((n : ℤ) < 0)) = false := by
      rw [h.tame, decide_eq_false (by omega)]
      rfl
    refine ⟨h.size, Nat.zero_lt_of_lt hlt, ?_, htame, Bufout.write_written h.written⟩
    show (Bufout.write o _ _).2.out ++ [] = _
    rw [Bufout.write_out, append_nil, ← append_assoc]
    exact congrArg (· ++ _) h.all
  · rename_i hzero
    refine ⟨not_not.mp hzero, [], rfl, ?_⟩
    rw [append_nil]
    exact h

/-- After the third part what is left is shorter than the buffer. -/
theorem bufoutPassed_holds (o : Outcomes) (ret : ℤ) (data : List UInt8)
    (h : bo.Holds len start all) (hptr : bo.ptr = 0) :
    (bufoutPassed o ret bo data).2.1.ptr = 0 ∧ (bufoutPassed o ret bo data).2.2.length < len ∧
      ∃ put, data = put ++ (bufoutPassed o ret bo data).2.2 ∧
        (bufoutPassed o ret bo data).2.1.Holds len start (all ++ put) := by
  have hlt := h.lt
  have hsize := h.size
  rw [bufoutPassed]
  split
  · dsimp only
    have hmod := Nat.mod_lt data.length (Nat.zero_lt_of_lt hlt)
    have hle := Nat.mod_le data.length len
    refine ⟨hptr, ?_, _, (take_append_drop ..).symm, hsize, hlt, ?_, h.tame,
      Bufout.write_written h.written⟩
    · rw [length_drop, hsize, ← Int.ofNat_tmod]
      omega
    · have hall := h.all
      rw [hptr, Mem.load_zero, append_nil] at hall
      show (Bufout.write o _ _).2.out ++ bo.buf.load 0 bo.ptr = _
      rw [Bufout.write_out, hall, hptr, Mem.load_zero, append_nil]
  · rename_i hless
    refine ⟨hptr, ?_, [], rfl, ?_⟩
    · dsimp only
      omega
    rw [append_nil]
    exact h

lemma bufoutKept_holds (h : bo.Holds len start all) (hptr : bo.ptr = 0)
    (hlen : data.length < len) : (bufoutKept bo data).Holds len start (all ++ data) := by
  rw [bufoutKept]
  split
  · refine ⟨h.size, hlen, ?_, h.tame, h.written⟩
    have hall := h.all
    rw [hptr, Mem.load_zero, append_nil] at hall
    show bo.out ++ (bo.buf.store 0 data).load 0 data.length = _
    rw [load_store_self, hall]
  · rename_i hzero
    rw [length_eq_zero_iff.mp (not_not.mp hzero), append_nil]
    exact h

/-! ### Lossless -/

/-- **A chunk is added** to what has been put out. -/
theorem bufout_holds (o : Outcomes) (h : bo.Holds len start all) (data : List UInt8) :
    (bufout o bo data).2.Holds len start (all ++ data) := by
  rw [bufout]
  split
  · exact bufoutFits_holds h
  · rename_i hbig
    obtain ⟨hptr, put, hput, h₁⟩ := bufoutFlushed_holds o h (Int.lt_of_not_ge hbig)
    obtain ⟨hptr₂, hlen₂, put₂, hput₂, h₂⟩ :=
      bufoutPassed_holds o (bufoutFlushed o bo data).1 (bufoutFlushed o bo data).2.2 h₁ hptr
    have hkept := bufoutKept_holds h₂ hptr₂ hlen₂
    rw [append_assoc, append_assoc, ← hput₂, ← hput] at hkept
    exact hkept

lemma bufoutAll_holds (o : Outcomes) (h : bo.Holds len start all) (chunks : List (List UInt8)) :
    (bufoutAll o bo chunks).Holds len start (all ++ chunks.flatten) := by
  induction chunks generalizing bo all with
  | nil =>
    rw [flatten_nil, append_nil]
    exact h
  | cons data chunks ih =>
    have hrest := ih (bufout_holds o h data)
    rw [append_assoc, ← flatten_cons] at hrest
    exact hrest

lemma bufoutset_holds (buf : Mem) (hlen : 1 ≤ len) (hmax : len < 2147483648) (s : Sink) :
    (bufoutset buf len s).Holds len s.written [] :=
  ⟨i32_of_range (by omega) (by omega), hlen, rfl, rfl, fun _ => (append_nil _).symm⟩

lemma bufoutflush_holds (o : Outcomes) (h : bo.Holds len start all) :
    (bufoutflush o bo).2.ptr = 0 ∧ (bufoutflush o bo).2.wild = false ∧
      (bufoutflush o bo).2.out = all ∧
        ((∀ x ∈ (bufoutflush o bo).2.handed, 0 ≤ x.2) →
          (bufoutflush o bo).2.sink.written = start ++ all) := by
  rw [bufoutflush]
  split
  · have hout : (bo.write o (bo.buf.load 0 bo.ptr)).2.out = all := by
      rw [Bufout.write_out, h.all]
    refine ⟨rfl, h.tame, hout, fun hok => ?_⟩
    rw [← hout]
    exact Bufout.write_written h.written hok
  · rename_i hzero
    have hzero : bo.ptr = 0 := not_not.mp hzero
    have hall := h.all
    rw [hzero, Mem.load_zero, append_nil] at hall
    refine ⟨hzero, h.tame, hall, fun hok => ?_⟩
    rw [← hall]
    exact h.written hok

/-- **Buffered output is lossless** if the size is an `int`: between the chunks the buffer is not
full, and after the flush it is empty, all chunks have been handed to `writeall`, and they have been
written if that has not failed. -/
theorem bufout_lossless (o : Outcomes) (buf : Mem) (hlen : 1 ≤ len) (hmax : len < 2147483648)
    (s : Sink) (chunks : List (List UInt8)) :
    (∀ n, (bufoutAll o (bufoutset buf len s) (chunks.take n)).ptr < len) ∧
      (bufoutflush o (bufoutAll o (bufoutset buf len s) chunks)).2.ptr = 0 ∧
      (bufoutflush o (bufoutAll o (bufoutset buf len s) chunks)).2.wild = false ∧
      (bufoutflush o (bufoutAll o (bufoutset buf len s) chunks)).2.out = chunks.flatten ∧
      ((∀ x ∈ (bufoutflush o (bufoutAll o (bufoutset buf len s) chunks)).2.handed, 0 ≤ x.2) →
        (bufoutflush o (bufoutAll o (bufoutset buf len s) chunks)).2.sink.written =
          s.written ++ chunks.flatten) :=
  ⟨fun n => (bufoutAll_holds o (bufoutset_holds buf hlen hmax s) (chunks.take n)).lt,
    bufoutflush_holds o (bufoutAll_holds o (bufoutset_holds buf hlen hmax s) chunks)⟩

/-- Three chunks through a buffer of two bytes. -/
theorem bufout_lossless_two :
    (bufoutflush (fun _ => 9) (bufoutAll (fun _ => 9) (bufoutset (fun _ => 0) 2 ⟨0, []⟩)
      [[1], [2, 3, 4, 5], [6]])).2.sink.written = [1, 2, 3, 4, 5, 6] :=
  (bufout_lossless (fun _ => 9) (fun _ => 0) (by decide : 1 ≤ 2) (by decide) ⟨0, []⟩
    [[1], [2, 3, 4, 5], [6]]).2.2.2.2 (by decide)

/-- **A size that is no `int`**: `3 * 2 ^ 30` bytes are taken for less than none, and the first of
two chunks is lost. -/
theorem not_lossless : ¬∀ (o : Outcomes) (buf : Mem) (len : ℕ) (s : Sink)
    (chunks : List (List UInt8)), 1 ≤ len → len < 2 ^ 32 →
      (∀ x ∈ (bufoutflush o (bufoutAll o (bufoutset buf len s) chunks)).2.handed, 0 ≤ x.2) →
        (bufoutflush o (bufoutAll o (bufoutset buf len s) chunks)).2.out = chunks.flatten := by
  intro h
  have hlost := h (fun _ => 9) (fun _ => 0) (3 * 2 ^ 30) ⟨0, []⟩ [[1], [2]] (by decide) (by decide)
    (by decide +kernel)
  revert hlost
  decide +kernel

/-! ### Writes that work -/

/-- Nothing that has been handed to `writeall` has failed. -/
def Bufout.Works (bo : Bufout) : Prop := ∀ x ∈ bo.handed, 0 ≤ x.2

section Works

variable (ho : ∀ k, MAX_RW ≤ o k)

include ho

lemma Bufout.Works.write (h : bo.Works) (data : List UInt8) : (bo.write o data).2.Works := by
  intro x hx
  rw [write_handed] at hx
  rcases mem_append.mp hx with hx | hx
  · exact h x hx
  · rw [mem_singleton.mp hx]
    exact writeallFrom_nonneg (fun k => Int.lt_of_lt_of_le (by decide) (ho k)) (Int.le_refl 0)

/-- **No chunk fails** if no write does. -/
theorem Bufout.Works.bufout (h : bo.Works) (data : List UInt8) : (bufout o bo data).2.Works := by
  have hkept : ∀ {bo : Bufout} {data : List UInt8}, bo.Works → (bufoutKept bo data).Works := by
    intro bo data hbo
    rw [bufoutKept]
    split
    · exact hbo
    · exact hbo
  have hpassed : ∀ {ret : ℤ} {bo : Bufout} {data : List UInt8}, bo.Works →
      (bufoutPassed o ret bo data).2.1.Works := by
    intro ret bo data hbo
    rw [bufoutPassed]
    split
    · exact hbo.write ho _
    · exact hbo
  rw [Minibase.bufout]
  split
  · rw [bufoutFits]
    split
    · exact h
    · have hstored : Bufout.Works { bo with buf := bo.buf.store bo.ptr data } := h
      exact hstored.write ho _
  · refine hkept (hpassed ?_)
    rw [bufoutFlushed]
    split
    · have hstored : Bufout.Works { bo with
          buf := bo.buf.store bo.ptr (data.take bo.rem.toNat), wild := bo.wild || bo.rem < 0 } := h
      exact hstored.write ho _
    · exact h

lemma Bufout.Works.flush (h : bo.Works) : (bufoutflush o bo).2.Works := by
  rw [bufoutflush]
  split
  · exact h.write ho _
  · exact h

end Works

/-! ### Errors -/

/-- **A failed write is reported**: if a call of `writeall` fails, so does `bufout`. -/
def Reported (o : Outcomes) (bo : Bufout) (data : List UInt8) : Prop :=
  (∃ x ∈ (bufout o bo data).2.handed.drop bo.handed.length, x.2 < 0) → (bufout o bo data).1 < 0

/-- What is written first of a chunk that is too long: the buffer, filled up. -/
def Bufout.filled (bo : Bufout) (data : List UInt8) : List UInt8 :=
  bo.buf.load 0 bo.ptr ++ data.take bo.rem.toNat

/-- What is passed through then. -/
def Bufout.whole (bo : Bufout) (data : List UInt8) : List UInt8 :=
  (data.drop bo.rem.toNat).take
    (((data.drop bo.rem.toNat).length : ℤ) -
      ((data.drop bo.rem.toNat).length : ℤ).tmod bo.len).toNat

/-- **A failure that is hidden**: the buffer has something in it, the chunk goes beyond it by a
whole buffer at least, and the first of the two writes fails while the second does not. -/
structure Hidden (o : Outcomes) (bo : Bufout) (data : List UInt8) : Prop where
  begun : bo.ptr ≠ 0
  long : bo.rem < data.length ∧ bo.len ≤ data.length - bo.rem
  fails : (writeall o (bo.filled data) bo.sink).1 < 0
  works : 0 ≤ (writeall o (bo.whole data) (writeall o (bo.filled data) bo.sink).2).1

/-- The buffer filled up, as it is written. -/
theorem Bufout.load_filled (hlt : bo.ptr < bo.len) (h : bo.rem < data.length) :
    (bo.buf.store bo.ptr (data.take bo.rem.toNat)).load 0 (bo.ptr + bo.rem).toNat =
      bo.filled data := by
  have hlen : (data.take bo.rem.toNat).length = bo.rem.toNat := by
    rw [length_take]
    omega
  have hend : (bo.ptr + bo.rem).toNat = bo.ptr + bo.rem.toNat := by
    rw [rem]
    omega
  rw [filled, ← load_store_append, hlen, hend]

/-- What a call has handed over, if its result is that of the only one. -/
theorem reported_of_one (put : List UInt8)
    (h : (bufout o bo data).2.handed = bo.handed ++ [(put, (bufout o bo data).1)]) :
    Reported o bo data := by
  rintro ⟨x, hx, hneg⟩
  rw [h, drop_left, mem_singleton] at hx
  rw [hx] at hneg
  exact hneg

lemma bufoutKept_handed : (bufoutKept bo data).handed = bo.handed := by
  rw [bufoutKept]
  split <;> rfl

/-- The third part, if there is a whole buffer. -/
theorem bufoutPassed_of_le (o : Outcomes) (ret : ℤ) (h : bo.len ≤ data.length) {put : List UInt8}
    (hput : put = data.take ((data.length : ℤ) - (data.length : ℤ).tmod bo.len).toNat) :
    (bufoutPassed o ret bo data).1 = (writeall o put bo.sink).1 ∧
      (bufoutPassed o ret bo data).2.1.handed =
        bo.handed ++ [(put, (writeall o put bo.sink).1)] := by
  rw [bufoutPassed, if_pos h, hput]
  exact ⟨Bufout.write_fst, Bufout.write_handed⟩

/-- A chunk that fits is written with the buffer, if at all. -/
theorem reported_of_fits (h : data.length ≤ bo.rem) : Reported o bo data := by
  have hfits : bufout o bo data = bufoutFits o bo data := if_pos h
  by_cases hless : data.length < bo.rem
  · rintro ⟨x, hx, -⟩
    rw [hfits, bufoutFits] at hx
    rw [if_pos hless, drop_length] at hx
    cases hx
  · refine reported_of_one ((bo.buf.store bo.ptr data).load 0 (bo.ptr + data.length)) ?_
    rw [hfits, bufoutFits]
    rw [if_neg hless]
    rfl

/-- A long chunk with nothing in the buffer is passed through. -/
theorem reported_of_empty (hbig : bo.len < data.length) (hptr : bo.ptr = 0) :
    Reported o bo data := by
  have hflushed : bufoutFlushed o bo data = (0, bo, data) := if_neg (not_not.mpr hptr)
  have hcall : bufout o bo data = ((bufoutPassed o 0 bo data).1,
      bufoutKept (bufoutPassed o 0 bo data).2.1 (bufoutPassed o 0 bo data).2.2) := by
    rw [bufout, if_neg (by rw [Bufout.rem]; omega), hflushed]
  obtain ⟨hret, hhanded⟩ := bufoutPassed_of_le o 0 (Int.le_of_lt hbig) rfl
  refine reported_of_one (data.take ((data.length : ℤ) - (data.length : ℤ).tmod bo.len).toNat) ?_
  rw [hcall, bufoutKept_handed, hhanded, hret]

/-- The buffer after it has been filled up and written. -/
def Bufout.emptied (o : Outcomes) (bo : Bufout) (data : List UInt8) : Bufout where
  len := bo.len
  ptr := 0
  buf := bo.buf.store bo.ptr (data.take bo.rem.toNat)
  sink := (writeall o (bo.filled data) bo.sink).2
  handed := bo.handed ++ [(bo.filled data, (writeall o (bo.filled data) bo.sink).1)]
  wild := bo.wild || bo.rem < 0

/-- The second part, with something in the buffer. -/
theorem bufoutFlushed_of_ne (o : Outcomes) (hptr : bo.ptr ≠ 0) (hlt : bo.ptr < bo.len)
    (hbig : bo.rem < data.length) :
    bufoutFlushed o bo data = ((writeall o (bo.filled data) bo.sink).1, bo.emptied o data,
      data.drop bo.rem.toNat) := by
  rw [bufoutFlushed, if_pos hptr]
  dsimp only
  rw [Bufout.load_filled hlt hbig, Bufout.write]
  dsimp only
  rw [i32_writeall]
  rfl

/-- **When failed writes are reported.** -/
theorem reported_iff (hlt : bo.ptr < bo.len) : Reported o bo data ↔ ¬Hidden o bo data := by
  by_cases hfit : data.length ≤ bo.rem
  · exact iff_of_true (reported_of_fits hfit) fun h => absurd h.long.1 (Int.not_lt.mpr hfit)
  by_cases hptr : bo.ptr = 0
  · exact iff_of_true (reported_of_empty (by rw [Bufout.rem] at hfit; omega) hptr) fun h =>
      h.begun hptr
  -- the buffer is written first
  have hbig := Int.lt_of_not_ge hfit
  have hflushed := bufoutFlushed_of_ne o hptr hlt hbig
  have hlen : ((data.drop bo.rem.toNat).length : ℤ) = data.length - bo.rem := by
    have hpos : 0 ≤ bo.rem := by
      rw [Bufout.rem]
      omega
    rw [length_drop]
    omega
  by_cases hlong : bo.len ≤ data.length - bo.rem
  · -- and then the rest of the chunk
    have hlong' : (bo.emptied o data).len ≤ (data.drop bo.rem.toNat).length := hlen ▸ hlong
    obtain ⟨hret, hhanded⟩ :=
      bufoutPassed_of_le o (writeall o (bo.filled data) bo.sink).1 hlong' rfl
    have hfst : (bufout o bo data).1 =
        (writeall o (bo.whole data) (writeall o (bo.filled data) bo.sink).2).1 := by
      rw [bufout, if_neg hfit, hflushed]
      exact hret
    have hsnd : (bufout o bo data).2.handed =
        bo.handed ++ [(bo.filled data, (writeall o (bo.filled data) bo.sink).1),
          (bo.whole data, (bufout o bo data).1)] := by
      rw [hfst, bufout, if_neg hfit, hflushed]
      rw [bufoutKept_handed, hhanded]
      exact append_assoc ..
    rw [Reported, hsnd, drop_left, hfst]
    constructor
    · intro h hh
      exact absurd (h ⟨_, mem_cons_self, hh.fails⟩) (Int.not_lt.mpr hh.works)
    · rintro hnot ⟨x, hx, hneg⟩
      rcases mem_cons.mp hx with rfl | hx
      · by_contra hpos
        exact hnot ⟨hptr, ⟨hbig, hlong⟩, hneg, Int.not_lt.mp hpos⟩
      · obtain rfl := mem_singleton.mp hx
        exact hneg
  · refine iff_of_true (reported_of_one (bo.filled data) ?_) fun h => hlong h.long.2
    have hpassed : bufoutPassed o (writeall o (bo.filled data) bo.sink).1 (bo.emptied o data)
        (data.drop bo.rem.toNat) = ((writeall o (bo.filled data) bo.sink).1,
          bo.emptied o data, data.drop bo.rem.toNat) := by
      refine if_neg ?_
      rw [hlen]
      exact hlong
    rw [bufout, if_neg hfit, hflushed]
    dsimp only
    rw [hpassed, bufoutKept_handed]
    rfl

/-- A buffer of two bytes with one byte in it. -/
def oneByte : Bufout := ⟨2, 1, fun _ => 7, ⟨0, []⟩, [], false⟩

/-- All writes fail, and so does the call. -/
theorem reported_eio : Reported (fun _ => -5) oneByte [1, 2, 3] :=
  (reported_iff (by decide)).mpr fun h => absurd h.works (by decide)

/-- **A failure that goes unnoticed**: the first of two writes fails. -/
theorem not_reported :
    ¬∀ (o : Outcomes) (bo : Bufout) (data : List UInt8), bo.ptr < bo.len → Reported o bo data := by
  intro h
  have hneg := h (fun k => if k = 0 then -5 else 9) oneByte [1, 2, 3] (by decide)
    ⟨(oneByte.filled [1, 2, 3], -5), by decide, by decide⟩
  exact absurd hneg (by decide)

end Minibase
