import Minibase.Lib.Ring
import Minibase.Svchub.Moves

/-!
# The output of a service

What a service writes is kept in a ring of `RINGSIZE` bytes. One number, `ptr`, says both how much
there is and where the next byte goes: it counts the bytes up to `RINGSIZE`, and from then on it
is `RINGSIZE` and the place in the ring. The slots of `Svchub.Hub` only have that number; here the
bytes are there as well (`Svchub.Output`, `Svchub.Output.Shown.checkProc`,
`Svchub.Output.Shown.flushRingBuf`). However the reads are cut, `cmd_getbuf` returns the end of
what was read: `Svchub.getbuf_returns_tail`.
-/

namespace Minibase.Svchub

/-- What one read returns: not more than there is room for in the ring. -/
structure Chunk where
  bytes : List UInt8
  fits : bytes.length ≤ RINGSIZE

/-- `ptr` and `buf` of `struct proc`, with the memory that `buf` points to. -/
structure Output where
  buf : Option Mem := none
  ptr : ℕ := 0

namespace Output

variable (o : Output)

/-- The new value of `ptr` in `check_proc`, as it is computed. -/
def advance (ptr ret : ℕ) : ℕ :=
  let ptr := ptr + ret
  if RINGSIZE < ptr then RINGSIZE + ptr % RINGSIZE else ptr

/-- The parts of the ring that `check_proc` reads to. -/
def readIov (ptr : ℕ) : List Iovec :=
  let off := ptr % RINGSIZE
  if off = 0 then [⟨off, RINGSIZE - off⟩] else [⟨off, RINGSIZE - off⟩, ⟨0, off⟩]

/-- The start of `check_proc`: a ring is mapped if there is none, and if it can be mapped. -/
def mapRing (mapped : Bool) : Option (Mem × ℕ) :=
  match o.buf with
  | some ring => some (ring, o.ptr)
  | none => if mapped then some (fun _ => 0, 0) else none

/-- `check_proc`. The pipe is closed if there is no ring or nothing can be read. -/
def checkProc (mapped : Bool) (got : Option Chunk) : Output :=
  match o.mapRing mapped, got with
  | none, _ => o
  | some (ring, ptr), none => { buf := ring, ptr := ptr }
  | some (ring, ptr), some c =>
    { buf := ring.scatter (readIov ptr) c.bytes, ptr := advance ptr c.bytes.length % 2 ^ 16 }

def flushRingBuf (unmapped : Bool) : Output :=
  match o.buf with
  | none => o
  | some _ => if unmapped then {} else { o with ptr := 0 }

/-- The parts of the ring that `cmd_getbuf` sends. -/
def getbufIov : List Iovec :=
  if o.ptr ≤ RINGSIZE then [⟨0, o.ptr⟩]
  else
    let off := o.ptr % RINGSIZE
    [⟨off, RINGSIZE - off⟩, ⟨0, off⟩]

/-- `cmd_getbuf`: what comes after the header of the reply. -/
def cmdGetbuf : List UInt8 :=
  match o.buf with
  | none => []
  | some ring => ring.gather o.getbufIov

/-! ### The hub -/

/-- The slot says what there is. -/
def Shown (pc : Proc) : Prop := pc.buf = o.buf.isSome ∧ pc.ptr = o.ptr

variable {o} {h : Hub} {i : ℕ}

lemma proc_setProc {f : Proc → Proc} (hi : i < h.procs.length) :
    (h.setProc i f).proc i = f (h.proc i) := by
  simp [Hub.proc, Hub.setProc, List.getD, hi]

/-- What `check_proc` does to the slot is what it does here. -/
theorem Shown.checkProc (ho : o.Shown (h.proc i)) (hi : i < h.procs.length) (mapped : Bool)
    (got : Option Chunk) :
    (o.checkProc mapped got).Shown
      ((h.checkProc i mapped (got.map fun c => c.bytes.length)).proc i) := by
  obtain ⟨hbuf, hptr⟩ := ho
  have hi' : ∀ f, i < (h.setProc i f).procs.length := fun f => by simpa [Hub.setProc] using hi
  rw [Hub.checkProc]
  rcases o with ⟨_ | ring, ptr⟩
  · -- no ring yet
    cases mapped with
    | false => simpa [Shown, Output.checkProc, mapRing, Hub.closeProc, proc_setProc, hi, hbuf] using
      hptr
    | true =>
      rcases got with _ | c
      all_goals
        simp [Shown, Output.checkProc, mapRing, Hub.closeProc, proc_setProc, hi, hi', hbuf, advance]
  · rcases got with _ | c
    all_goals simp_all [Shown, Output.checkProc, mapRing, Hub.closeProc, proc_setProc, advance]

/-- And so it is with `flush_ring_buf`. -/
theorem Shown.flushRingBuf (ho : o.Shown (h.proc i)) (hi : i < h.procs.length) (a : Answers) :
    (o.flushRingBuf (a.munmap = 0)).Shown ((h.flushRingBuf a i).2.proc i) := by
  obtain ⟨hbuf, hptr⟩ := ho
  rw [Hub.flushRingBuf, Output.flushRingBuf]
  rcases o with ⟨_ | ring, ptr⟩
  · simpa [Shown, hbuf] using hptr
  · by_cases hm : a.munmap = 0
    all_goals simp_all [Shown, proc_setProc]

end Output

/-! ### Runs -/

/-- What happens to the output of a service. -/
inductive OutputEvent
  /-- The pipe can be read from. -/
  | check (mapped : Bool) (got : Option Chunk)
  /-- The ring is given up. -/
  | flush (unmapped : Bool)
  /-- The slot is wiped. -/
  | wipe

/-- The output, with what has been read since it was flushed. -/
structure Kept where
  out : Output := {}
  written : List UInt8 := []

/-- The bytes that `check_proc` reads. -/
def Output.taken (o : Output) (mapped : Bool) (got : Option Chunk) : List UInt8 :=
  match o.mapRing mapped, got with
  | some _, some c => c.bytes
  | _, _ => []

namespace Kept

/-- One event. -/
def step (w : Kept) : OutputEvent → Kept
  | .check mapped got =>
    { out := w.out.checkProc mapped got, written := w.written ++ w.out.taken mapped got }
  | .flush unmapped => { out := w.out.flushRingBuf unmapped, written := [] }
  | .wipe => {}

/-- What has happened since the hub has a slot for the service. -/
def run (es : List OutputEvent) : Kept := es.foldl step {}

/-- **The ring has the end of what has been written**, and `ptr` says how much that is and where
the next byte goes. -/
structure Sound (w : Kept) : Prop where
  ptr : w.out.ptr =
    if w.written.length ≤ RINGSIZE then w.written.length
    else RINGSIZE + w.written.length % RINGSIZE
  none : w.out.buf = none → w.written = []
  keeps : ∀ ring, w.out.buf = some ring → ring.Keeps RINGSIZE w.written

variable {w : Kept}

/-- `ptr` has room in its sixteen bits. -/
theorem Sound.ptr_lt (hw : w.Sound) : w.out.ptr < 2 * RINGSIZE := by
  have hmod : w.written.length % RINGSIZE < RINGSIZE := Nat.mod_lt _ (by decide)
  have hptr := hw.ptr
  split_ifs at hptr <;> omega

/-- The place where the next byte goes. -/
theorem Sound.ptr_mod (hw : w.Sound) : w.out.ptr % RINGSIZE = w.written.length % RINGSIZE := by
  rw [hw.ptr]
  split_ifs
  · rfl
  · rw [Nat.add_mod_left, Nat.mod_mod]

lemma advance_lt (ptr : ℕ) {n : ℕ} : Output.advance ptr n < 2 ^ 16 := by
  have hmod : (ptr + n) % RINGSIZE < RINGSIZE := Nat.mod_lt _ (by decide)
  have hsize : RINGSIZE = 4096 := rfl
  rw [Output.advance]
  split_ifs <;> omega

/-- The two meanings of `ptr` are kept apart. -/
theorem Sound.advance (hw : w.Sound) {n : ℕ} (hn : n ≤ RINGSIZE) :
    Output.advance w.out.ptr n =
      if w.written.length + n ≤ RINGSIZE then w.written.length + n
      else RINGSIZE + (w.written.length + n) % RINGSIZE := by
  have hptr := hw.ptr
  have hmod : w.written.length % RINGSIZE < RINGSIZE := Nat.mod_lt _ (by decide)
  have hsame : (w.out.ptr + n) % RINGSIZE = (w.written.length + n) % RINGSIZE := by
    rw [Nat.add_mod, hw.ptr_mod, ← Nat.add_mod]
  rw [Output.advance, hsame]
  split_ifs at hptr with hle
  · rw [hptr]
    split_ifs <;> omega
  · rw [if_neg (by omega : ¬w.written.length + n ≤ RINGSIZE)]
    split_ifs with hlt
    · rfl
    · -- the ring is full, the next byte goes to its start, and there is none
      obtain rfl : n = 0 := by omega
      have hzero : w.written.length % RINGSIZE = 0 := by omega
      rw [hptr, add_zero, add_zero, hzero]

/-- The parts that are read to, as `Mem.Keeps.write` has them. -/
theorem scatter_readIov (m : Mem) (ptr : ℕ) (bs : List UInt8) :
    m.scatter (Output.readIov ptr) bs =
      m.scatter [⟨ptr % RINGSIZE, RINGSIZE - ptr % RINGSIZE⟩, ⟨0, ptr % RINGSIZE⟩] bs := by
  rw [Output.readIov]
  split_ifs with hzero
  · rw [hzero, Mem.scatter_empty]
  · rfl

lemma Sound.empty : Sound {} := ⟨rfl, fun _ => rfl, fun _ h => nomatch h⟩

/-- A ring that has been mapped. -/
theorem Sound.mapRing (hw : w.Sound) {mapped : Bool} {ring : Mem} {ptr : ℕ}
    (h : w.out.mapRing mapped = some (ring, ptr)) :
    Sound { out := { buf := ring, ptr := ptr }, written := w.written } := by
  rw [Output.mapRing] at h
  split at h
  · rename_i r hr
    cases h
    exact ⟨hw.ptr, (fun h => nomatch h), fun _ h => hw.keeps _ (hr.trans h)⟩
  · rename_i hr
    split_ifs at h
    cases h
    rw [hw.none hr]
    refine ⟨rfl, fun _ => rfl, fun ring _ => Mem.keeps_nil ring _⟩

/-- **A read keeps the ring as it should be.** -/
theorem Sound.read {ring : Mem} {ptr : ℕ} {written : List UInt8}
    (hw : Sound { out := { buf := ring, ptr := ptr }, written := written }) (c : Chunk) :
    Sound
      { out := { buf := ring.scatter (Output.readIov ptr) c.bytes
                 ptr := Output.advance ptr c.bytes.length % 2 ^ 16 }
        written := written ++ c.bytes } := by
  refine ⟨?_, (fun h => nomatch h), ?_⟩
  · show Output.advance ptr c.bytes.length % 2 ^ 16 = _
    rw [Nat.mod_eq_of_lt (advance_lt ptr), List.length_append]
    exact hw.advance c.fits
  · intro _ h
    cases h
    rw [scatter_readIov, hw.ptr_mod]
    exact (hw.keeps ring rfl).write (by decide) c.fits

/-- **Every event does.** -/
theorem Sound.step (hw : w.Sound) (e : OutputEvent) : (w.step e).Sound := by
  cases e with
  | check mapped got =>
    simp only [Kept.step, Output.checkProc, Output.taken]
    rcases hmap : w.out.mapRing mapped with _ | ⟨ring, ptr⟩
    · simpa using hw
    · rcases got with _ | c
      · simpa using hw.mapRing hmap
      · exact (hw.mapRing hmap).read c
  | flush unmapped =>
    simp only [Kept.step, Output.flushRingBuf]
    split
    · rename_i hnone
      rw [← hw.none hnone]
      exact hw
    · split_ifs
      · exact .empty
      · exact ⟨rfl, fun _ => rfl, fun ring _ => Mem.keeps_nil ring _⟩
  | wipe => exact .empty

lemma sound_run (es : List OutputEvent) : (run es).Sound := by
  have hgen : ∀ {w : Kept}, w.Sound → (es.foldl Kept.step w).Sound := by
    induction es with
    | nil => exact id
    | cons e es ih => exact fun hw => ih (hw.step e)
  exact hgen .empty

/-- What `cmd_getbuf` returns. -/
theorem Sound.cmdGetbuf (hw : w.Sound) :
    w.out.cmdGetbuf = w.written.drop (w.written.length - RINGSIZE) := by
  rw [Output.cmdGetbuf]
  split
  · rename_i hnone
    rw [hw.none hnone]
    rfl
  · rename_i ring hring
    have hptr := hw.ptr
    rw [Output.getbufIov]
    split_ifs at hptr with hle
    · rw [if_pos (by omega), hptr, Nat.sub_eq_zero_of_le hle, List.drop_zero, Mem.gather,
        List.flatMap_singleton]
      exact (hw.keeps ring hring).load hle
    · have hfull : RINGSIZE ≤ w.written.length := by omega
      rw [← (hw.keeps ring hring).unroll (by decide) hfull, ← hw.ptr_mod]
      split_ifs with hsmall
      · -- `ptr` is `RINGSIZE`, and the ring is read from its start
        have hzero : w.out.ptr = RINGSIZE := by omega
        rw [hzero, Nat.mod_self]
        simp [Mem.gather]
      · rfl

end Kept

/-- **The end of the output is kept**: whatever has been read from a service since its output
was flushed last, `cmd_getbuf` returns the last `RINGSIZE` bytes of it, or all if there are not
that many, and the number that `check_proc` stores has always room in its sixteen bits. -/
theorem getbuf_returns_tail (es : List OutputEvent) :
    (Kept.run es).out.cmdGetbuf <:+ (Kept.run es).written ∧
      (Kept.run es).out.cmdGetbuf.length = min (Kept.run es).written.length RINGSIZE ∧
      (Kept.run es).out.ptr < 2 * RINGSIZE ∧
      ∀ n, Output.advance (Kept.run es).out.ptr n < 2 ^ 16 := by
  have hw := Kept.sound_run es
  rw [hw.cmdGetbuf]
  refine ⟨List.drop_suffix _ _, ?_, hw.ptr_lt, fun _ => Kept.advance_lt _⟩
  rw [List.length_drop]
  omega

end Minibase.Svchub
