import Minibase.Util.Writeall

/-!
# A file out of a pipe

A package that is compressed is read from the decompressor's pipe, and `transfer_read` of
`src/mpac/mpac_extract.c` and of `src/mpkg/mpkg_deploy.c` copies one file of it, a piece of
at most `DATASIZE` bytes in each round (`Pac.round`), until its size has been counted down by what
`writeall` returns, which is what the last of its calls took. A piece that is written in several
calls is counted as its last part only; at the end of the stream nothing is counted at all, and
the loop goes on for ever. So the file is copied exactly if every piece is written by one call
(`Pac.transfers_iff`).
-/

namespace Minibase.Pac

open List

/-- What `failx` is called with. -/
structure Failx where
  msg : String
  name : Option (List UInt8)
  ret : ℤ

/-- The two descriptors: how often the pipe was read, what is still to come out of it, and
the file. -/
structure Xfer where
  reads : ℕ
  stream : List UInt8
  sink : Sink

/-- The size of the transfer buffer. -/
def DATASIZE : ℕ := 1 <<< 20

/-- What `sys_read` returns for so much: an error, or some of what is there. It is nothing
at the end of the stream only. -/
def readRet (r : Outcomes) (s : Xfer) (chunk : ℕ) : ℤ :=
  let ret := r.ret s.reads chunk
  if ret < 0 then ret else min (max 1 ret) s.stream.length

/-- The size of the next piece. -/
def chunk (max size : ℕ) : ℕ := if size > max then max else size

section

variable (r w : Outcomes) (wname : Option (List UInt8)) (max : ℕ)

/-- One turn of the loop, with what is left of the size after it. -/
def round (size : ℕ) (s : Xfer) : Except Failx (ℕ × Xfer) :=
  let ret := readRet r s (chunk max size)
  if ret < 0 then .error ⟨"read", none, ret⟩
  else
    let (wr, sink) := writeall w (s.stream.take ret.toNat) s.sink
    if wr < 0 then .error ⟨"write", wname, wr⟩
    else .ok (size - wr.toNat, ⟨s.reads + 1, s.stream.drop ret.toNat, sink⟩)

/-- The loop of `transfer_read`, as far as it comes in so many rounds: nothing if it is
still going on. -/
def transferFrom : ℕ → ℕ → Xfer → Option (Except Failx Xfer)
  | 0, size, s => if size = 0 then some (.ok s) else none
  | k + 1, size, s =>
    if size = 0 then some (.ok s)
    else
      match round r w wname max size s with
      | .error e => some (.error e)
      | .ok (size, s) => transferFrom k size s

end

/-- `transfer_read` of mpac. -/
def mpacTransferRead (r w : Outcomes) : ℕ → ℕ → Xfer → Option (Except Failx Xfer) :=
  transferFrom r w none DATASIZE

/-- `transfer_read` of mpkg, for the node of this name. -/
def mpkgTransferRead (r w : Outcomes) (name : List UInt8) :
    ℕ → ℕ → Xfer → Option (Except Failx Xfer) :=
  transferFrom r w (some name) DATASIZE

/-! ### Rounds -/

variable {r w : Outcomes} {wname : Option (List UInt8)} {max size k : ℕ} {s t : Xfer}

lemma readRet_le (h : 0 < chunk max size) : readRet r s (chunk max size) ≤ chunk max size := by
  have := r.ret_le s.reads (chunk max size)
  rw [readRet]
  split_ifs <;> omega

lemma readRet_le_length (h : 0 ≤ readRet r s (chunk max size)) :
    readRet r s (chunk max size) ≤ s.stream.length := by
  rw [readRet] at *
  split_ifs at * <;> omega

/-- Nothing is read at the end of the stream only. -/
theorem readRet_eq_zero (h : readRet r s (chunk max size) = 0) : s.stream = [] := by
  rw [readRet] at h
  split_ifs at h
  · omega
  · exact length_eq_zero_iff.mp (by omega)

/-- **What a round does**: it fails in one of its calls, or the piece it has read has been
written, and some of it is counted. -/
theorem round_cases (r w : Outcomes) (wname : Option (List UInt8)) (max size : ℕ) (s : Xfer) :
    (∃ e, round r w wname max size s = .error e ∧
      (readRet r s (chunk max size) < 0 ∨ 0 ≤ readRet r s (chunk max size) ∧
        (writeall w (s.stream.take (readRet r s (chunk max size)).toNat) s.sink).1 < 0)) ∨
    ∃ (c wr : ℕ) (sink : Sink), readRet r s (chunk max size) = (c : ℤ) ∧
      writeall w (s.stream.take c) s.sink = ((wr : ℤ), sink) ∧
      round r w wname max size s = .ok (size - wr, ⟨s.reads + 1, s.stream.drop c, sink⟩) := by
  rcases Int.lt_or_le (readRet r s (chunk max size)) 0 with hneg | hpos
  · left
    exact ⟨_, if_pos hneg, .inl hneg⟩
  · obtain ⟨c, hc⟩ := Int.eq_ofNat_of_zero_le hpos
    obtain ⟨wr, sink, hw⟩ : ∃ wr sink, writeall w (s.stream.take c) s.sink = (wr, sink) :=
      ⟨_, _, rfl⟩
    rw [round, hc]
    rw [if_neg (by omega), Int.toNat_natCast, hw]
    dsimp only
    rcases Int.lt_or_le wr 0 with hwneg | hwpos
    · left
      exact ⟨_, if_pos hwneg, .inr ⟨Int.natCast_nonneg c, hwneg⟩⟩
    · right
      obtain ⟨n, rfl⟩ := Int.eq_ofNat_of_zero_le hwpos
      exact ⟨c, n, sink, rfl, hw, if_neg (by omega)⟩

/-! ### Runs -/

section

variable (r w : Outcomes) (max : ℕ)

/-- **Every piece is written whole**: each round up to the last reads something, and the
call that writes it takes all of it. -/
inductive Whole : ℕ → Xfer → Prop
  | done {s : Xfer} : Whole 0 s
  | piece {size : ℕ} {s : Xfer} {c : ℕ} (hsize : size ≠ 0)
      (hr : readRet r s (chunk max size) = (c : ℤ)) (hc : 0 < c)
      (hw : w.ret s.sink.clock c = c)
      (h : Whole (size - c) ⟨s.reads + 1, s.stream.drop c,
        ⟨s.sink.clock + 1, s.sink.written ++ s.stream.take c⟩⟩) : Whole size s

end

/-- The transfer fails. -/
def Fails (run : ℕ → ℕ → Xfer → Option (Except Failx Xfer)) (size : ℕ) (s : Xfer) : Prop :=
  ∃ k e, run k size s = some (.error e)

/-- The transfer ends, and it has copied the next `size` bytes of the stream and nothing else. -/
def Copies (run : ℕ → ℕ → Xfer → Option (Except Failx Xfer)) (size : ℕ) (s : Xfer) : Prop :=
  ∃ k t, run k size s = some (.ok t) ∧ size ≤ s.stream.length ∧
    t.sink.written = s.sink.written ++ s.stream.take size ∧ t.stream = s.stream.drop size

/-- **A transfer does what it is for**: it ends, and it has failed or copied the file. -/
def Transfers (run : ℕ → ℕ → Xfer → Option (Except Failx Xfer)) (size : ℕ) (s : Xfer) : Prop :=
  Fails run size s ∨ Copies run size s

/-- **No call fails.** -/
def Unfailing (r w : Outcomes) : Prop := ∀ k, 0 ≤ r k ∧ 0 < w k

lemma chunk_le (max size : ℕ) : chunk max size ≤ size := by
  rw [chunk]
  split_ifs <;> omega

lemma transferFrom_zero (r w : Outcomes) (wname : Option (List UInt8)) (max size : ℕ) (s : Xfer) :
    transferFrom r w wname max 0 size s = if size = 0 then some (.ok s) else none := by
  rfl

lemma transferFrom_eq (r w : Outcomes) (wname : Option (List UInt8)) (max k size : ℕ) (s : Xfer) :
    transferFrom r w wname max (k + 1) size s =
      if size = 0 then some (.ok s)
      else
        match round r w wname max size s with
        | .error e => some (.error e)
        | .ok (size, s) => transferFrom r w wname max k size s := by
  rfl

/-- The rounds of a transfer, one after the other. -/
theorem transferFrom_succ (hsize : size ≠ 0) {size' : ℕ}
    (h : round r w wname max size s = .ok (size', t)) :
    transferFrom r w wname max (k + 1) size s = transferFrom r w wname max k size' t := by
  rw [transferFrom_eq, if_neg hsize, h]

lemma transferFrom_error (hsize : size ≠ 0) {e : Failx}
    (h : round r w wname max size s = .error e) :
    transferFrom r w wname max (k + 1) size s = some (.error e) := by
  rw [transferFrom_eq, if_neg hsize, h]

/-- A round whose calls do not fail. -/
theorem round_ok {c wr : ℕ} {sink : Sink} (hr : readRet r s (chunk max size) = (c : ℤ))
    (hw : writeall w (s.stream.take c) s.sink = ((wr : ℤ), sink)) :
    round r w wname max size s = .ok (size - wr, ⟨s.reads + 1, s.stream.drop c, sink⟩) := by
  rw [round, hr, if_neg (by omega), Int.toNat_natCast, hw]
  exact if_neg (by omega)

/-- If every piece is written whole the file is copied. -/
theorem Whole.copies (hmax : 0 < max) (h : Whole r w max size s) :
    Copies (transferFrom r w wname max) size s := by
  induction h with
  | done => exact ⟨0, _, rfl, Nat.zero_le _, (append_nil _).symm, rfl⟩
  | @piece size s c hsize hr hc hw h ih =>
    obtain ⟨k, t, hk, hlen, hwritten, hstream⟩ := ih
    have hle : c ≤ s.stream.length := by
      have h0 : 0 ≤ readRet r s (chunk max size) := by omega
      have h1 := readRet_le_length h0
      omega
    have hcs : c ≤ size := by
      have hpos : 0 < chunk max size := by
        rw [chunk]
        split_ifs <;> omega
      have h1 : readRet r s (chunk max size) ≤ chunk max size := readRet_le hpos
      have h2 := chunk_le max size
      omega
    have htake : (s.stream.take c).length = c := length_take_of_le hle
    have hne : s.stream.take c ≠ [] := fun h0 => by
      rw [h0, length_nil] at htake
      omega
    have hwr : writeall w (s.stream.take c) s.sink =
        ((c : ℤ), ⟨s.sink.clock + 1, s.sink.written ++ s.stream.take c⟩) := by
      rw [writeall_single hne (by rw [htake]; exact hw), htake]
    refine ⟨k + 1, t, ?_, ?_, ?_, ?_⟩
    · rw [transferFrom_succ hsize (round_ok hr hwr), hk]
    · rw [length_drop] at hlen
      omega
    · have hsplit : size = c + (size - c) := by omega
      rw [hwritten, append_assoc, ← take_add, ← hsplit]
    · rw [hstream, drop_drop]
      congr 1
      omega

/-- A round fails only if a call does. -/
theorem round_unfailing (h : Unfailing r w) (e : Failx) :
    round r w wname max size s ≠ .error e := by
  rcases round_cases r w wname max size s with ⟨e', -, hneg | ⟨-, hneg⟩⟩ |
    ⟨c, wr, sink, -, -, hround⟩
  · have hr := (h s.reads).1
    rw [readRet, Outcomes.ret, MAX_RW] at hneg
    split_ifs at hneg <;> omega
  · exact absurd (writeallFrom_nonneg (fun k => (h k).2) (Int.le_refl 0)) (Int.not_le.mpr hneg)
  · rw [hround]
    intro heq
    cases heq

/-- **A transfer fails only if a call does.** -/
theorem not_fails (h : Unfailing r w) : ¬Fails (transferFrom r w wname max) size s := by
  rintro ⟨k, e, hk⟩
  induction k generalizing size s with
  | zero =>
    rw [transferFrom_zero] at hk
    split_ifs at hk
    injection hk with hk
    cases hk
  | succ k ih =>
    by_cases hsize : size = 0
    · rw [transferFrom_eq, if_pos hsize] at hk
      injection hk with hk
      cases hk
    · cases hround : round r w wname max size s with
      | error e' => exact round_unfailing h e' hround
      | ok out =>
        rw [transferFrom_succ hsize hround] at hk
        exact ih hk

/-- **What a transfer that ends has copied**: some number of bytes, never less than the
size, and the size only if every piece was written whole. -/
theorem copied_of_ok (h : transferFrom r w wname max k size s = some (.ok t)) :
    ∃ n, size ≤ n ∧ n ≤ s.stream.length ∧
      t.sink.written = s.sink.written ++ s.stream.take n ∧ t.stream = s.stream.drop n ∧
      (n = size → Whole r w max size s) := by
  induction k generalizing size s with
  | zero =>
    rw [transferFrom_zero] at h
    split_ifs at h with hsize
    injection h with h
    injection h with h
    subst h hsize
    exact ⟨0, Nat.le_refl 0, Nat.zero_le _, (append_nil _).symm, rfl, fun _ => Whole.done⟩
  | succ k ih =>
    by_cases hsize : size = 0
    · rw [transferFrom_eq, if_pos hsize] at h
      injection h with h
      injection h with h
      subst h hsize
      exact ⟨0, Nat.le_refl 0, Nat.zero_le _, (append_nil _).symm, rfl, fun _ => Whole.done⟩
    rcases round_cases r w wname max size s with ⟨e', he, -⟩ | ⟨c, wr, sink, hr, hw, hround⟩
    · rw [transferFrom_error hsize he] at h
      injection h with h
      cases h
    rw [transferFrom_succ hsize hround] at h
    obtain ⟨n, hle, hlen, hwritten, hstream, hwhole⟩ := ih h
    have hread : 0 ≤ readRet r s (chunk max size) := by omega
    have hc : c ≤ s.stream.length := by
      have := readRet_le_length hread
      omega
    have htake : (s.stream.take c).length = c := length_take_of_le hc
    have hsink : sink.written = s.sink.written ++ s.stream.take c := by
      have hnonneg : 0 ≤ (writeall w (s.stream.take c) s.sink).1 := by
        rw [hw]
        omega
      have hall := writeall_written hnonneg
      rwa [hw] at hall
    rw [length_drop] at hlen
    have hcount : wr ≤ c ∧ (wr = c → c ≠ 0 → w.ret s.sink.clock c = c) := by
      by_cases hne : s.stream.take c = []
      · have hc0 : c = 0 := by rw [← htake, hne, length_nil]
        rw [hne, writeall_nil_eq] at hw
        have hwr : (0 : ℤ) = wr := congrArg Prod.fst hw
        exact ⟨by omega, fun _ h0 => absurd hc0 h0⟩
      · have hfst : (writeall w (s.stream.take c) s.sink).1 = wr := by rw [hw]
        have hnonneg : 0 ≤ (writeall w (s.stream.take c) s.sink).1 := by omega
        have hbounds := (writeall_bounds hne hnonneg).2
        have hall := writeall_eq_length_iff (o := w) (s := s.sink) hne
        rw [htake] at hbounds hall
        exact ⟨by omega, fun heq _ => hall.mp (by omega)⟩
    refine ⟨c + n, by omega, by omega, ?_, ?_, fun heq => ?_⟩
    · rw [hwritten, hsink, append_assoc, ← take_add]
    · rw [hstream, drop_drop]
    · -- the size was counted down by all of the piece
      have hwrc : wr = c := by omega
      subst hwrc
      have hpos : wr ≠ 0 := by
        rintro rfl
        have hempty := readRet_eq_zero hr
        rw [hempty] at hlen
        simp at hlen
        omega
      have hsingle := hcount.2 rfl hpos
      have hne : s.stream.take wr ≠ [] := fun h0 => by
        rw [h0, length_nil] at htake
        omega
      have hwr := writeall_single (o := w) (s := s.sink) hne (by rw [htake]; exact hsingle)
      rw [hw] at hwr
      have hs : sink = ⟨s.sink.clock + 1, s.sink.written ++ s.stream.take wr⟩ :=
        congrArg Prod.snd hwr
      rw [hs] at hwhole
      exact Whole.piece hsize hr (Nat.pos_of_ne_zero hpos) hsingle (hwhole (by omega))

/-- **The file is copied** exactly if every piece is written whole, whatever the calls return. -/
theorem copies_iff (hmax : 0 < max) :
    Copies (transferFrom r w wname max) size s ↔ Whole r w max size s := by
  refine ⟨fun h => ?_, fun h => h.copies hmax⟩
  obtain ⟨k, t, ht, hlen, hwritten, -⟩ := h
  obtain ⟨n, hle, hn, hwritten', -, hwhole⟩ := copied_of_ok ht
  rw [hwritten, append_cancel_left_eq] at hwritten'
  have hlens := congrArg length hwritten'
  rw [length_take_of_le hlen, length_take_of_le hn] at hlens
  exact hwhole hlens.symm

/-- **Both programs** copy a file out of a pipe exactly if every piece is written whole, and where
no call fails they do what they are for in no other case. -/
theorem transfers_iff (r w : Outcomes) (name : List UInt8) (size : ℕ) (s : Xfer) :
    ((Copies (mpacTransferRead r w) size s ↔ Whole r w DATASIZE size s) ∧
        (Copies (mpkgTransferRead r w name) size s ↔ Whole r w DATASIZE size s)) ∧
      (Unfailing r w →
        (Transfers (mpacTransferRead r w) size s ↔ Whole r w DATASIZE size s) ∧
          (Transfers (mpkgTransferRead r w name) size s ↔ Whole r w DATASIZE size s)) := by
  have hcopies : ∀ wname, Copies (transferFrom r w wname DATASIZE) size s ↔
      Whole r w DATASIZE size s := fun _ => copies_iff (by decide)
  refine ⟨⟨hcopies none, hcopies (some name)⟩, fun h => ⟨?_, ?_⟩⟩
  · exact (or_iff_right (not_fails h)).trans (hcopies none)
  · exact (or_iff_right (not_fails h)).trans (hcopies (some name))

/-- Two bytes of three, read and written one by one. -/
theorem transfers_iff_two :
    Transfers (mpacTransferRead (fun _ => 1) fun _ => 1) 2 ⟨0, [5, 6, 7], ⟨0, []⟩⟩ := by
  have hwhole : Whole (fun _ => 1) (fun _ => 1) DATASIZE 2 ⟨0, [5, 6, 7], ⟨0, []⟩⟩ := by
    refine .piece (c := 1) (by decide) (by decide) (by decide) (by decide) ?_
    refine .piece (c := 1) (by decide) (by decide) (by decide) (by decide) ?_
    exact .done
  have hgood : Unfailing (fun _ => 1) fun _ => 1 := fun _ => ⟨Int.one_nonneg, Int.one_pos⟩
  exact ((transfers_iff (fun _ => 1) (fun _ => 1) [] 2 ⟨0, [5, 6, 7], ⟨0, []⟩⟩).2 hgood).1.mpr
    hwhole

/-- At the end of the stream a round changes nothing. -/
theorem transferFrom_end (k n : ℕ) (sink : Sink) :
    transferFrom (fun _ => 1) w wname DATASIZE k 1 ⟨n, [], sink⟩ = none := by
  induction k generalizing n with
  | zero => rfl
  | succ k ih =>
    have hr : readRet (fun _ => 1) ⟨n, [], sink⟩ (chunk DATASIZE 1) = ((0 : ℕ) : ℤ) := rfl
    rw [transferFrom_succ Nat.one_ne_zero (round_ok hr (writeall_nil_eq w sink))]
    exact ih (n + 1)

/-- A pipe that has ended, with one byte still to come. -/
theorem not_transfers :
    ¬ ∀ (r w : Outcomes) (name : List UInt8) (size : ℕ) (s : Xfer),
      Transfers (mpacTransferRead r w) size s ∧ Transfers (mpkgTransferRead r w name) size s := by
  intro h
  obtain ⟨k, e, hk⟩ | ⟨k, t, hk, -⟩ := (h (fun _ => 1) (fun _ => 1) [] 1 ⟨0, [], ⟨0, []⟩⟩).1
  · rw [mpacTransferRead, transferFrom_end] at hk
    cases hk
  · rw [mpacTransferRead, transferFrom_end] at hk
    cases hk

end Minibase.Pac
