import Minibase.Dcrypt.Xts
import Minibase.Lib.CInt
import Minibase.Lib.Runs

/-!
# Images

`deitool.c` itself: every sector of an image goes through `Dcrypt.aesxts`, with one processor in
one loop over the file (`Dcrypt.pipeDataSingle`). With more the sectors are dealt out to as many
children, each taking every `n`-th (`Dcrypt.Work`), which read and write by offset and in any
order. What they have written is at any time right as far as each of them got
(`Dcrypt.Work.Fits`), so in the end it is what the one loop writes (`Dcrypt.Work.Fits.result`),
and `-d` gives back the image that went in (`Dcrypt.image_restored`).
-/

namespace Minibase.Dcrypt

open List Option Keys

/-- A regular file of whole sectors, as `set_files` wants it. -/
structure Image where
  data : List UInt8
  whole : 512 ∣ data.length
  size : data.length < 2 ^ 63

/-- The number of sectors. -/
def Image.sectors (img : Image) : ℕ := img.data.length / 512

lemma Image.length_data (img : Image) : img.data.length = 512 * img.sectors :=
  (Nat.mul_div_cancel' img.whole).symm

/-- What is done to a sector: `cryptf`. -/
abbrev Cryptf := List UInt8 → UInt64 → List UInt8

/-! ### One process -/

/-- `pipe_data_single`, with what is still to be read and what was written. -/
def pipeDataSingle (fn : Cryptf) (rest ofile : List UInt8) (S : UInt64) : Option (List UInt8) :=
  if rest.length = 0 then some ofile
  -- "incomplete read"
  else if rest.length < 512 then none
  else pipeDataSingle fn (rest.drop 512) (ofile ++ fn (rest.take 512) S) (S + 1)
termination_by rest.length
decreasing_by
  rw [length_drop]
  omega

/-- **What is meant**: every sector by itself, one after the other. -/
def sectorwise (fn : Cryptf) : ℕ → List UInt8 → UInt64 → List UInt8
  | 0, _, _ => []
  | n + 1, rest, S => fn (rest.take 512) S ++ sectorwise fn n (rest.drop 512) (S + 1)

section

variable {fn : Cryptf} {n : ℕ} {rest : List UInt8}

lemma pipeDataSingle_eq (hlen : rest.length = 512 * n) (ofile : List UInt8) (S : UInt64) :
    pipeDataSingle fn rest ofile S = some (ofile ++ sectorwise fn n rest S) := by
  induction n generalizing rest ofile S with
  | zero => rw [pipeDataSingle, if_pos hlen, sectorwise, append_nil]
  | succ n ih =>
    have hdrop : (rest.drop 512).length = 512 * n := by
      rw [length_drop]
      omega
    rw [pipeDataSingle, if_neg (by omega), if_neg (by omega), ih hdrop, sectorwise, append_assoc]

lemma length_sectorwise (hfn : ∀ b S, (fn b S).length = 512) (S : UInt64) :
    (sectorwise fn n rest S).length = 512 * n := by
  induction n generalizing rest S with
  | zero => rfl
  | succ n ih =>
    rw [sectorwise, length_append, hfn, ih]
    omega

/-- The sector `t` of what is meant. -/
theorem piece_sectorwise (hfn : ∀ b S, (fn b S).length = 512) {t : ℕ} (ht : t < n) (S : UInt64) :
    piece 512 (sectorwise fn n rest S) t = fn (piece 512 rest t) (S + UInt64.ofNat t) := by
  induction n generalizing rest S t with
  | zero => exact absurd ht (Nat.not_lt_zero t)
  | succ n ih =>
    rw [sectorwise]
    cases t with
    | zero =>
      show List.take 512 (fn (rest.take 512) S ++ _) = _
      rw [take_left' (hfn _ _)]
      exact congrArg _ (UInt64.add_zero S).symm
    | succ t =>
      have hshift : ∀ l : List UInt8, piece 512 l (t + 1) = piece 512 (l.drop 512) t := by
        intro l
        rw [piece, piece, pread, pread, drop_drop, Nat.mul_succ, Nat.add_comm]
      have hnum : S + 1 + UInt64.ofNat t = S + UInt64.ofNat (t + 1) := by
        rw [UInt64.ofNat_add, UInt64.add_assoc, UInt64.add_comm 1]
        rfl
      rw [hshift, hshift, drop_left' (hfn _ _), ih (Nat.lt_of_succ_lt_succ ht), hnum]

end

/-! ### Many processes -/

/-- Where a child is in the loop of `pipe_data_child`. -/
inductive Phase
  | read
  | write (obuf : List UInt8)
  | exit (status : ℕ)
  deriving DecidableEq

/-- A child of `pipe_data_multi`. -/
structure Child where
  off : UInt64
  S : UInt64
  phase : Phase

/-- The child `i`, just forked. -/
def Child.init (i : ℕ) : Child := ⟨UInt64.ofInt (i32 (i * 512)), UInt64.ofNat i, .read⟩

/-- One step of `pipe_data_child`, up to the next system call, and what it does to the file. -/
def Child.step (img : Image) (fn : Cryptf) (n : ℕ) (c : Child) (ofile : List UInt8) :
    Option (Child × List UInt8) :=
  match c.phase with
  | .read =>
    if c.off < UInt64.ofNat img.data.length then
      let ibuf := pread img.data 512 c.off.toNat
      -- "incomplete read"
      if ibuf.length < 512 then some (⟨c.off, c.S, .exit 0xFF⟩, ofile)
      else some (⟨c.off, c.S, .write (fn ibuf c.S)⟩, ofile)
    else some (⟨c.off, c.S, .exit 0⟩, ofile)
  | .write obuf =>
    some (⟨c.off + UInt64.ofInt (i32 (n * 512)), c.S + UInt64.ofNat n, .read⟩,
      pwrite ofile c.off.toNat obuf)
  | .exit _ => none

/-- The children forked so far, and the file they write. -/
structure Work where
  children : List Child
  ofile : List UInt8

/-- What happens next: the parent forks, or a child goes on. -/
inductive Turn
  | fork
  | child (i : ℕ)

/-- Before `pipe_data_multi`: `set_files` made the file as long as the other. -/
def Work.init (img : Image) : Work := ⟨[], replicate img.data.length 0⟩

/-- One step of the parent or of a child. -/
def Work.step (img : Image) (fn : Cryptf) (n : ℕ) (w : Work) : Turn → Option Work
  | .fork =>
    if w.children.length < n then
      some ⟨w.children ++ [Child.init w.children.length], w.ofile⟩
    else none
  | .child i =>
    w.children[i]?.bind fun c =>
      (c.step img fn n w.ofile).map fun out => ⟨w.children.set i out.1, out.2⟩

/-- Every child was forked, has come to its end and may be waited for. -/
def Work.Done (n : ℕ) (w : Work) : Prop :=
  w.children.length = n ∧ ∀ c ∈ w.children, ∃ status, c.phase = .exit status

/-- What comes of it: one bad status, and the parent exits with `0xFF`. -/
def Work.result (w : Work) : Option (List UInt8) :=
  if ∀ c ∈ w.children, c.phase = .exit 0 then some w.ofile else none

/-- The states `pipe_data_multi` gets into with `n` children. -/
abbrev Working (img : Image) (fn : Cryptf) (n : ℕ) : Work → Prop :=
  Reach (· = Work.init img) (Work.step img fn n) fun _ _ => True

/-! ### What the children have done -/

/-- A child that has done all its sectors below `S`. -/
structure Child.Fits (img : Image) (fn : Cryptf) (n i : ℕ) (c : Child) (ofile : List UInt8) :
    Prop where
  off : c.off.toNat = 512 * c.S.toNat
  lane : c.S.toNat % n = i
  bound : c.S.toNat < img.sectors + n
  written : ∀ t < img.sectors, t % n = i → t < c.S.toNat →
    piece 512 ofile t = fn (piece 512 img.data t) (UInt64.ofNat t)
  reading : ∀ obuf, c.phase = .write obuf →
    c.S.toNat < img.sectors ∧ obuf = fn (piece 512 img.data c.S.toNat) c.S
  exited : ∀ status, c.phase = .exit status → status = 0 ∧ img.sectors ≤ c.S.toNat

/-- **Everything written so far is right.** -/
structure Work.Fits (img : Image) (fn : Cryptf) (n : ℕ) (w : Work) : Prop where
  forked : w.children.length ≤ n
  size : w.ofile.length = img.data.length
  child : ∀ (i : ℕ) (c : Child), w.children[i]? = some c → c.Fits img fn n i w.ofile

section

variable {img : Image} {fn : Cryptf} {n i : ℕ} {c : Child} {ofile : List UInt8} {w : Work}

lemma toNat_stride {m : ℕ} (hm : m * 512 < 2 ^ 31) :
    (UInt64.ofInt (i32 (m * 512))).toNat = m * 512 := by
  have hm' : m * 512 < 2147483648 := hm
  rw [i32_of_range (by omega) (by omega), UInt64.ofInt, UInt64.toNat_ofNat']
  omega

/-- A child that was just forked has done nothing, and need not have. -/
theorem Child.fits_init (hn : n * 512 < 2 ^ 31) (hi : i < n) (ofile : List UInt8) :
    (Child.init i).Fits img fn n i ofile := by
  have hi512 : i * 512 < 2 ^ 31 := lt_of_le_of_lt (Nat.mul_le_mul_right 512 hi.le) hn
  have hoff : (UInt64.ofInt (i32 (i * 512))).toNat = i * 512 := toNat_stride hi512
  have hS : (UInt64.ofNat i).toNat = i := by
    rw [UInt64.toNat_ofNat']
    omega
  have hphase : (Child.init i).phase = .read := rfl
  refine ⟨?_, ?_, ?_, fun t _ hti htS => ?_, fun obuf h => ?_, fun status h => ?_⟩
  · show (UInt64.ofInt (i32 (i * 512))).toNat = 512 * (UInt64.ofNat i).toNat
    rw [hS, hoff, mul_comm]
  · exact hS.symm ▸ Nat.mod_eq_of_lt hi
  · show (UInt64.ofNat i).toNat < _
    omega
  · -- no sector below `i` is dealt to the child `i`
    have hlt : t < i := hS ▸ htS
    rw [Nat.mod_eq_of_lt (lt_trans hlt hi)] at hti
    exact absurd hti (ne_of_lt hlt)
  · cases hphase.symm.trans h
  · cases hphase.symm.trans h

variable {ofile' : List UInt8}

/-- What is written to a sector dealt to another child does not matter to this one. -/
theorem Child.Fits.frame (h : c.Fits img fn n i ofile)
    (hsame : ∀ t < img.sectors, t % n = i → piece 512 ofile' t = piece 512 ofile t) :
    c.Fits img fn n i ofile' :=
  { h with written := fun t ht hti htS => (hsame t ht hti).trans (h.written t ht hti htS) }

lemma Image.size_lt (img : Image) : 512 * img.sectors < 2 ^ 63 := img.length_data ▸ img.size

/-- The test of the loop, in sectors. -/
theorem Child.Fits.off_lt_iff (h : c.Fits img fn n i ofile) :
    c.off < UInt64.ofNat img.data.length ↔ c.S.toNat < img.sectors := by
  have hsize := img.size_lt
  rw [UInt64.lt_iff_toNat_lt, UInt64.toNat_ofNat', img.length_data, h.off]
  omega

/-- **A step of a child keeps what it has done**, and changes no sector dealt to another one. -/
theorem Child.Fits.step {c' : Child} (hn : n * 512 < 2 ^ 31)
    (hfn : ∀ b S, (fn b S).length = 512) (h : c.Fits img fn n i ofile)
    (hsize : ofile.length = img.data.length) (hs : c.step img fn n ofile = some (c', ofile')) :
    c'.Fits img fn n i ofile' ∧ ofile'.length = img.data.length ∧
      ∀ t < img.sectors, t % n ≠ i → piece 512 ofile' t = piece 512 ofile t := by
  have himg := img.size_lt
  rw [Child.step] at hs
  cases hphase : c.phase with
  | read =>
    simp only [hphase] at hs
    split at hs
    case isTrue hlt =>
      have hS : c.S.toNat < img.sectors := h.off_lt_iff.mp hlt
      have hbuf : pread img.data 512 c.off.toNat = piece 512 img.data c.S.toNat := by
        rw [h.off, piece]
      rw [hbuf, if_neg (by rw [length_piece img.length_data hS]; omega)] at hs
      obtain ⟨rfl, rfl⟩ := Prod.mk.inj (some.inj hs)
      refine ⟨⟨h.off, h.lane, h.bound, h.written, fun obuf hobuf => ⟨hS, ?_⟩,
        fun _ hexit => (by cases hexit)⟩, hsize, fun _ _ _ => rfl⟩
      exact (Phase.write.inj hobuf).symm
    case isFalse hge =>
      obtain ⟨rfl, rfl⟩ := Prod.mk.inj (some.inj hs)
      refine ⟨⟨h.off, h.lane, h.bound, h.written, fun _ hobuf => (by cases hobuf),
        fun status hexit => ⟨(Phase.exit.inj hexit).symm, ?_⟩⟩, hsize, fun _ _ _ => rfl⟩
      exact Nat.not_lt.mp fun hlt => hge (h.off_lt_iff.mpr hlt)
  | write obuf =>
    simp only [hphase] at hs
    obtain ⟨rfl, rfl⟩ := Prod.mk.inj (some.inj hs)
    obtain ⟨hS, hobuf⟩ := h.reading obuf hphase
    have hlen : ofile.length = 512 * img.sectors := hsize.trans img.length_data
    have hobuflen : obuf.length = 512 := hobuf ▸ hfn _ _
    have hSnext : (c.S + UInt64.ofNat n).toNat = c.S.toNat + n := by
      rw [UInt64.toNat_add, UInt64.toNat_ofNat']
      omega
    have hoffnext : (c.off + UInt64.ofInt (i32 (n * 512))).toNat = 512 * (c.S.toNat + n) := by
      rw [UInt64.toNat_add, toNat_stride hn, h.off]
      omega
    have hpiece : ∀ t < img.sectors, piece 512 (pwrite ofile c.off.toNat obuf) t =
        if t = c.S.toNat then obuf else piece 512 ofile t := by
      intro t ht
      rw [h.off]
      exact piece_pwrite hlen hS hobuflen ht
    refine ⟨⟨?_, ?_, ?_, fun t ht hti htS => ?_, fun _ hw => (by cases hw),
      fun _ hexit => (by cases hexit)⟩, ?_, fun t ht hti => ?_⟩
    · show (c.off + _).toNat = 512 * (c.S + _).toNat
      rw [hoffnext, hSnext]
    · show (c.S + _).toNat % n = i
      rw [hSnext, Nat.add_mod_right, h.lane]
    · show (c.S + _).toNat < _
      rw [hSnext]
      exact Nat.add_lt_add_right hS n
    · rw [hpiece t ht]
      split
      case isTrue heq => rw [hobuf, heq, UInt64.ofNat_toNat]
      case isFalse hne =>
        -- below `S + n` the next sector dealt to this child is `S`
        refine h.written t ht hti (Nat.lt_of_not_le fun hle => ?_)
        have hlt : t < c.S.toNat + n := hSnext ▸ htS
        have hmod : c.S.toNat ≡ t [MOD n] := h.lane.trans hti.symm
        exact absurd (hmod.add_le_of_lt (Nat.lt_of_le_of_ne hle (Ne.symm hne))) (Nat.not_le.mpr hlt)
    · rw [h.off, length_pwrite hlen hS hobuflen, img.length_data]
    · rw [hpiece t ht, if_neg]
      rintro rfl
      exact hti h.lane
  | exit status =>
    simp only [hphase] at hs
    cases hs

/-- **A step of any of them keeps everything written right.** -/
theorem Work.Fits.step (hn : n * 512 < 2 ^ 31) (hfn : ∀ b S, (fn b S).length = 512)
    (h : w.Fits img fn n) {t : Turn} {w' : Work} (hs : w.step img fn n t = some w') :
    w'.Fits img fn n := by
  cases t with
  | fork =>
    obtain ⟨hlt, hw'⟩ := ite_none_right_eq_some.mp hs
    cases hw'
    refine ⟨?_, h.size, fun j d hd => ?_⟩
    · rw [length_append]
      exact hlt
    · rcases Nat.lt_or_ge j w.children.length with hj | hj
      · rw [getElem?_append_left hj] at hd
        exact h.child j d hd
      · have hlast : j < (w.children ++ [Child.init w.children.length]).length :=
          (List.getElem?_eq_some_iff.mp hd).1
        rw [length_append, length_singleton] at hlast
        obtain rfl : j = w.children.length := by omega
        rw [getElem?_append_right hj, Nat.sub_self] at hd
        exact some.inj hd ▸ Child.fits_init hn hlt _
  | child i =>
    obtain ⟨c, hc, hs⟩ := bind_eq_some_iff.mp hs
    obtain ⟨⟨c', ofile'⟩, hstep, rfl⟩ := map_eq_some_iff.mp hs
    obtain ⟨hc', hsize, hframe⟩ := (h.child i c hc).step hn hfn h.size hstep
    refine ⟨(length_set ..).trans_le h.forked, hsize, fun j d hd => ?_⟩
    have hd : (w.children.set i c')[j]? = some d := hd
    rw [getElem?_set] at hd
    split at hd
    case isTrue heq =>
      obtain ⟨-, hd⟩ := ite_none_right_eq_some.mp hd
      exact heq ▸ some.inj hd ▸ hc'
    case isFalse hne =>
      exact (h.child j d hd).frame fun t ht htj => hframe t ht fun hti => hne (hti.symm.trans htj)

/-- **In every state they get into.** -/
theorem fits_working (hn : n * 512 < 2 ^ 31) (hfn : ∀ b S, (fn b S).length = 512)
    (h : Working img fn n w) : w.Fits img fn n := by
  refine h.invariant ?_ fun _ _ _ hw _ hs => hw.step hn hfn hs
  rintro _ rfl
  exact ⟨Nat.zero_le n, length_replicate, fun i c hc => (nomatch hc)⟩

/-- **When all of them are done, every sector is right.** -/
theorem Work.Fits.result (hn0 : 0 < n) (hfn : ∀ b S, (fn b S).length = 512)
    (h : w.Fits img fn n) (hdone : w.Done n) :
    w.result = some (sectorwise fn img.sectors img.data 0) := by
  obtain ⟨hlen, hexit⟩ := hdone
  have hok : ∀ c ∈ w.children, c.phase = .exit 0 := by
    intro c hc
    obtain ⟨i, hi⟩ := mem_iff_getElem?.mp hc
    obtain ⟨status, hstatus⟩ := hexit c hc
    rw [hstatus, ((h.child i c hi).exited status hstatus).1]
  rw [Work.result, if_pos hok]
  have hofile : w.ofile.length = 512 * img.sectors := h.size.trans img.length_data
  refine congrArg some (eq_of_pieces hofile (length_sectorwise hfn 0) fun t ht => ?_)
  -- the sector was dealt to the child `t % n`, which went through all of its own
  have hi : t % n < w.children.length := Nat.lt_of_lt_of_eq (Nat.mod_lt t hn0) hlen.symm
  have hget : w.children[t % n]? = some w.children[t % n] := getElem?_eq_getElem hi
  have hc := h.child _ _ hget
  obtain ⟨-, hend⟩ := hc.exited 0 (hok _ (getElem_mem hi))
  rw [hc.written t ht rfl (lt_of_lt_of_le ht hend), piece_sectorwise hfn ht, UInt64.zero_add]

/-! ### They all come to an end -/

/-- How many steps a child has left, at most. -/
def Child.left (img : Image) (c : Child) : ℕ :=
  match c.phase with
  | .read => 2 * (img.sectors - c.S.toNat) + 1
  | .write _ => 2 * (img.sectors - c.S.toNat)
  | .exit _ => 0

/-- How many steps are left, at most: a child not yet forked has no more than any. -/
def Work.left (img : Image) (n : ℕ) (w : Work) : ℕ :=
  (n - w.children.length) * (2 * img.sectors + 2) + (w.children.map (Child.left img)).sum

lemma sum_map_set_lt {α : Type} {f : α → ℕ} {l : List α} {a b : α} (ha : l[i]? = some a)
    (h : f b < f a) : ((l.set i b).map f).sum < (l.map f).sum := by
  induction l generalizing i with
  | nil => exact absurd ha (by simp)
  | cons x xs ih =>
    cases i with
    | zero =>
      obtain rfl : x = a := some.inj ha
      exact Nat.add_lt_add_right h _
    | succ i => exact Nat.add_lt_add_left (ih ha) _

lemma Child.Fits.left_step {c' : Child} (hn0 : 0 < n)
    (hn : n * 512 < 2 ^ 31) (h : c.Fits img fn n i ofile)
    (hs : c.step img fn n ofile = some (c', ofile')) : c'.left img < c.left img := by
  have himg := img.size_lt
  rw [Child.step] at hs
  cases hphase : c.phase with
  | read =>
    have hc : c.left img = 2 * (img.sectors - c.S.toNat) + 1 := by rw [Child.left, hphase]
    rw [hc]
    simp only [hphase] at hs
    split at hs
    case isTrue hlt =>
      split at hs
      · obtain ⟨rfl, rfl⟩ := Prod.mk.inj (some.inj hs)
        exact Nat.succ_pos _
      · obtain ⟨rfl, rfl⟩ := Prod.mk.inj (some.inj hs)
        exact Nat.lt_succ_self _
    case isFalse hge =>
      obtain ⟨rfl, rfl⟩ := Prod.mk.inj (some.inj hs)
      exact Nat.succ_pos _
  | write obuf =>
    have hc : c.left img = 2 * (img.sectors - c.S.toNat) := by rw [Child.left, hphase]
    rw [hc]
    simp only [hphase] at hs
    obtain ⟨rfl, rfl⟩ := Prod.mk.inj (some.inj hs)
    obtain ⟨hS, -⟩ := h.reading obuf hphase
    have hSnext : (c.S + UInt64.ofNat n).toNat = c.S.toNat + n := by
      rw [UInt64.toNat_add, UInt64.toNat_ofNat']
      omega
    show 2 * (img.sectors - (c.S + UInt64.ofNat n).toNat) + 1 < _
    rw [hSnext]
    omega
  | exit status =>
    simp only [hphase] at hs
    cases hs

/-- **Every step brings the end nearer.** -/
theorem Work.Fits.left_step (hn0 : 0 < n) (hn : n * 512 < 2 ^ 31) (h : w.Fits img fn n) {t : Turn}
    {w' : Work} (hs : w.step img fn n t = some w') : w'.left img n < w.left img n := by
  cases t with
  | fork =>
    obtain ⟨hlt, hw'⟩ := ite_none_right_eq_some.mp hs
    cases hw'
    have hinit : (Child.init w.children.length).left img < 2 * img.sectors + 2 := by
      show 2 * (img.sectors - _) + 1 < _
      omega
    obtain ⟨d, hd⟩ := Nat.exists_eq_add_of_lt hlt
    have hbefore : n - w.children.length = d + 1 := by omega
    have hafter : n - (w.children.length + 1) = d := by omega
    rw [Work.left, Work.left, length_append, length_singleton, map_append,
      sum_append, map_singleton, sum_singleton, hbefore, hafter]
    generalize 2 * img.sectors + 2 = most at hinit ⊢
    rw [Nat.succ_mul d]
    omega
  | child i =>
    obtain ⟨c, hc, hs⟩ := bind_eq_some_iff.mp hs
    obtain ⟨⟨c', ofile'⟩, hstep, rfl⟩ := map_eq_some_iff.mp hs
    have hless := (h.child i c hc).left_step hn0 hn hstep
    have hi : i < w.children.length := (List.getElem?_eq_some_iff.mp hc).1
    rw [Work.left, Work.left, length_set]
    exact Nat.add_lt_add_left (sum_map_set_lt hc hless) _

/-- As long as one of them is not done, something can happen. -/
theorem Work.exists_step (h : w.children.length ≤ n) (hdone : ¬w.Done n) :
    ∃ t w', w.step img fn n t = some w' := by
  rcases lt_or_ge w.children.length n with hlt | hge
  · exact ⟨.fork, _, if_pos hlt⟩
  · obtain ⟨c, hc, hexit⟩ : ∃ c ∈ w.children, ¬∃ status, c.phase = .exit status := by
      by_contra hall
      refine hdone ⟨le_antisymm h hge, fun c hc => ?_⟩
      by_contra hc'
      exact hall ⟨c, hc, hc'⟩
    obtain ⟨i, hi⟩ := mem_iff_getElem?.mp hc
    have hstep : ∃ out, c.step img fn n w.ofile = some out := by
      rw [Child.step]
      cases hphase : c.phase with
      | read =>
        dsimp only
        split
        · split
          · exact ⟨_, rfl⟩
          · exact ⟨_, rfl⟩
        · exact ⟨_, rfl⟩
      | write obuf => exact ⟨_, rfl⟩
      | exit status => exact absurd ⟨status, hphase⟩ hexit
    obtain ⟨out, hout⟩ := hstep
    refine ⟨.child i, ⟨w.children.set i out.1, out.2⟩, ?_⟩
    rw [Work.step, hi, bind_some, hout, map_some]

/-- **Every run can be brought to its end.** -/
theorem Work.Fits.completes (hn0 : 0 < n) (hn : n * 512 < 2 ^ 31)
    (hfn : ∀ b S, (fn b S).length = 512) (h : w.Fits img fn n) :
    ∃ (ts : List Turn) (w' : Work), ts.foldlM (Work.step img fn n) w = some w' ∧ w'.Done n := by
  induction hleft : w.left img n using Nat.strong_induction_on generalizing w with
  | h k ih =>
    by_cases hdone : w.Done n
    · exact ⟨[], w, rfl, hdone⟩
    · obtain ⟨t, w', hs⟩ := @Work.exists_step img fn n w h.forked hdone
      have hless := h.left_step hn0 hn hs
      obtain ⟨ts, w'', hts, hdone'⟩ := ih _ (hleft ▸ hless) (h.step hn hfn hs) rfl
      refine ⟨t :: ts, w'', ?_, hdone'⟩
      rw [foldlM_cons, hs]
      exact hts

end

/-! ### The tool -/

/-- `struct cpuset`, of 128 bytes. -/
structure Cpuset where
  bits : List UInt64
  size : bits.length = 16

/-- The inner loop of `guess_num_cpus`. -/
def countBits (w : UInt64) : ℕ := (range 64).countP fun b => w &&& (1 <<< UInt64.ofNat b) ≠ 0

/-- `guess_num_cpus`, with what `sched_getaffinity` returned, unless it failed. -/
def guessNumCpus : Option Cpuset → ℕ
  | none => 1
  | some cs => (cs.bits.map countBits).sum

lemma guessNumCpus_le (cs : Option Cpuset) : guessNumCpus cs ≤ 1024 := by
  cases cs with
  | none => exact Nat.le_of_lt_succ (by decide)
  | some cs =>
    have hword : ∀ m ∈ cs.bits.map countBits, m ≤ 64 := by
      intro m hm
      obtain ⟨w, -, rfl⟩ := mem_map.mp hm
      exact countP_le_length.trans_eq length_range
    have hsum := sum_le_card_nsmul _ 64 hword
    rw [length_map, cs.size] at hsum
    exact hsum

/-- What `init_context` finds out: the options, and the processors to be used. -/
structure Context where
  optd : Bool
  opts : Bool
  affinity : Option Cpuset

/-- `ctx->ncpus`. -/
def Context.ncpus (ctx : Context) : ℕ := if ctx.opts then 1 else guessNumCpus ctx.affinity

/-- The function `main` takes. -/
def cryptf (key : Bytes 32) (optd : Bool) : Cryptf :=
  if optd then aesxtsDecrypt (init key) else aesxtsEncrypt (init key)

/-- `pipe_data`: what may be in the output file in the end, or `none` if it fails. -/
def PipeData (fn : Cryptf) (img : Image) (ncpus : ℕ) (out : Option (List UInt8)) : Prop :=
  if 1 < ncpus then ∃ w, Working img fn ncpus w ∧ w.Done ncpus ∧ out = w.result
  else out = pipeDataSingle fn img.data [] 0

/-- `main`, after the arguments. -/
def Deitool (key : Bytes 32) (ctx : Context) (img : Image) (out : Option (List UInt8)) : Prop :=
  PipeData (cryptf key ctx.optd) img ctx.ncpus out

section

variable {img : Image} {fn : Cryptf}

lemma length_cryptf (key : Bytes 32) (optd : Bool) (b : List UInt8) (S : UInt64) :
    (cryptf key optd b S).length = 512 := by
  cases optd with
  | false => exact length_aesxtsEncrypt _ _ _
  | true => exact length_aesxtsDecrypt _ _ _

lemma pipeDataSingle_image :
    pipeDataSingle fn img.data [] 0 = some (sectorwise fn img.sectors img.data 0) :=
  pipeDataSingle_eq img.length_data [] 0

/-- **It does not matter how many processors there are.** -/
theorem pipeData_iff (hfn : ∀ b S, (fn b S).length = 512) {n : ℕ} (hn : n * 512 < 2 ^ 31)
    {out : Option (List UInt8)} :
    PipeData fn img n out ↔ out = some (sectorwise fn img.sectors img.data 0) := by
  rw [PipeData]
  split
  case isTrue hmany =>
    have hn0 : 0 < n := lt_trans zero_lt_one hmany
    constructor
    · rintro ⟨w, hw, hdone, rfl⟩
      exact (fits_working hn hfn hw).result hn0 hfn hdone
    · rintro rfl
      have hboot : Working img fn n (Work.init img) := .start rfl
      obtain ⟨ts, w, hts, hdone⟩ := (fits_working hn hfn hboot).completes hn0 hn hfn
      have hw : Working img fn n w := hboot.foldlM (by simpa only [if_true] using hts)
      exact ⟨w, hw, hdone, ((fits_working hn hfn hw).result hn0 hfn hdone).symm⟩
  case isFalse hone => rw [pipeDataSingle_image]

lemma Context.ncpus_lt (ctx : Context) : ctx.ncpus * 512 < 2 ^ 31 := by
  have hle : ctx.ncpus ≤ 1024 := by
    rw [Context.ncpus]
    split
    · exact Nat.le_of_lt_succ (by decide)
    · exact guessNumCpus_le ctx.affinity
  exact lt_of_le_of_lt (Nat.mul_le_mul_right 512 hle) (by decide)

lemma deitool_iff {key : Bytes 32} {ctx : Context} {out : Option (List UInt8)} :
    Deitool key ctx img out ↔
      out = some (sectorwise (cryptf key ctx.optd) img.sectors img.data 0) :=
  pipeData_iff (length_cryptf key ctx.optd) ctx.ncpus_lt

end

namespace Image

/-- The image that comes out. -/
def map (img : Image) (key : Bytes 32) (optd : Bool) : Image where
  data := sectorwise (cryptf key optd) img.sectors img.data 0
  whole := by
    rw [length_sectorwise (length_cryptf key optd)]
    exact Nat.dvd_mul_right 512 _
  size := by
    rw [length_sectorwise (length_cryptf key optd), ← img.length_data]
    exact img.size

lemma sectors_map (img : Image) (key : Bytes 32) (optd : Bool) :
    (img.map key optd).sectors = img.sectors := by
  show (sectorwise (cryptf key optd) img.sectors img.data 0).length / 512 = _
  rw [length_sectorwise (length_cryptf key optd), Nat.mul_div_cancel_left _ (by decide)]

/-- A sector of it. -/
theorem piece_map {img : Image} {t : ℕ} (ht : t < img.sectors) (key : Bytes 32)
    (optd : Bool) :
    piece 512 (img.map key optd).data t =
      cryptf key optd (piece 512 img.data t) (UInt64.ofNat t) := by
  have hpiece := @piece_sectorwise (cryptf key optd) img.sectors img.data
    (length_cryptf key optd) t ht 0
  rwa [UInt64.zero_add] at hpiece

/-- **The image is what `-d` makes of what was made of it.** -/
theorem map_map (img : Image) (key : Bytes 32) :
    ((img.map key false).map key true).data = img.data := by
  have hsectors := img.sectors_map key false
  have hlen : ((img.map key false).map key true).data.length = 512 * img.sectors := by
    rw [length_data, sectors_map, sectors_map]
  refine eq_of_pieces hlen img.length_data fun t ht => ?_
  rw [piece_map (hsectors.symm ▸ ht), piece_map ht]
  exact aesxts_inverse (init key) (length_piece img.length_data ht) _

end Image

/-- **A block of a sector**, and the tweak it gets. -/
theorem block_cryptf (key : Bytes 32) (optd : Bool) (rp : List UInt8) (S : UInt64) {j : ℕ}
    (hj : j < 32) :
    ∃ T : List UInt8, T.length = 16 ∧
      elem T = elem (Aes.encrypt (init key).K2 (leBytes 16 S)) * alpha ^ j ∧
      piece 16 (cryptf key optd rp S) j =
        blkXor ((if optd then Aes.decrypt else Aes.encrypt) (init key).K1
          (blkXor (piece 16 rp j) T)) T := by
  have hT0 := length_prepTweak (init key).K2 S
  refine ⟨nextTweak^[j] (prepTweak (init key).K2 S), length_nextTweaks hT0 j,
    elem_tweak hT0 j, ?_⟩
  cases optd with
  | false => exact block_aesxts Aes.length_encrypt (init key) rp S hj
  | true => exact block_aesxts Aes.length_decrypt (init key) rp S hj

/-- **An image put through the tool and back is the same image**, whatever the number of
processors, the order in which the children get on makes no difference, and every block has the
tweak of its sector times `α` to its number. -/
theorem image_restored (key : Bytes 32) (img : Image) :
    (∀ ctx out, Deitool key ctx img out ↔ out = some (img.map key ctx.optd).data) ∧
      (∀ ctx out, ctx.optd = true →
        (Deitool key ctx (img.map key false) out ↔ out = some img.data)) ∧
      (∀ optd n, 2 ≤ n → n * 512 < 2 ^ 31 → ∀ w, Working img (cryptf key optd) n w →
        (w.Done n → w.result = pipeDataSingle (cryptf key optd) img.data [] 0) ∧
          ∃ (ts : List Turn) (w' : Work),
            ts.foldlM (Work.step img (cryptf key optd) n) w = some w' ∧ w'.Done n) ∧
      ∀ optd S, S < img.sectors → ∀ j < 32, ∃ T : List UInt8, T.length = 16 ∧
        elem T = elem (Aes.encrypt (init key).K2 (leBytes 16 (UInt64.ofNat S))) * alpha ^ j ∧
        piece 16 (piece 512 (img.map key optd).data S) j =
          blkXor ((if optd then Aes.decrypt else Aes.encrypt) (init key).K1
            (blkXor (piece 16 (piece 512 img.data S) j) T)) T := by
  refine ⟨fun ctx out => deitool_iff, fun ctx out hd => ?_, fun optd n hn2 hn w hw => ?_,
    fun optd S hS j hj => ?_⟩
  · have hback : sectorwise (cryptf key ctx.optd) (img.map key false).sectors
        (img.map key false).data 0 = img.data := by
      rw [hd]
      exact img.map_map key
    rw [deitool_iff, hback]
  · have hfn := length_cryptf key optd
    have hn0 : 0 < n := lt_of_lt_of_le Nat.two_pos hn2
    have hfits := fits_working hn hfn hw
    refine ⟨fun hdone => ?_, hfits.completes hn0 hn hfn⟩
    rw [hfits.result hn0 hfn hdone, pipeDataSingle_image]
  · rw [Image.piece_map hS]
    exact block_cryptf key optd _ _ hj

/-- Two sectors of zeroes. -/
def blank : Image where
  data := replicate 1024 0
  whole := by
    rw [length_replicate]
    exact ⟨2, rfl⟩
  size := by
    rw [length_replicate]
    exact lt_of_lt_of_le (by decide : 1024 < 2 ^ 11) (Nat.pow_le_pow_right Nat.two_pos (by decide))

theorem blank_restored :
    Deitool (Bytes.zero 32) ⟨true, true, none⟩ (blank.map (Bytes.zero 32) false)
        (some blank.data) ∧
      ∃ (ts : List Turn) (w : Work),
        ts.foldlM (Work.step blank (cryptf (Bytes.zero 32) false) 2) (Work.init blank) = some w ∧
          w.Done 2 ∧
          w.result = pipeDataSingle (cryptf (Bytes.zero 32) false) blank.data [] 0 := by
  obtain ⟨-, hback, hmany, -⟩ := image_restored (Bytes.zero 32) blank
  have h2 : 2 * 512 < 2 ^ 31 := by decide
  have hboot : Working blank (cryptf (Bytes.zero 32) false) 2 (Work.init blank) := .start rfl
  obtain ⟨ts, w, hts, hdone⟩ := (hmany false 2 le_rfl h2 _ hboot).2
  have hw : Working blank (cryptf (Bytes.zero 32) false) 2 w :=
    hboot.foldlM (by simpa only [if_true] using hts)
  exact ⟨(hback _ _ rfl).mpr rfl, ts, w, hts, hdone, (hmany false 2 le_rfl h2 w hw).1 hdone⟩

end Minibase.Dcrypt
