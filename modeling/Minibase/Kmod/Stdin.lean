import Mathlib.Data.List.TakeWhile
import Minibase.Lib.Split

/-!
# Module names on the standard input

`read_stdin` of `src/kmod/modprobe.c`. Names come one a line, in however many reads. A read goes
behind what was kept of a line, and all lines that are complete then are taken
(`Kmod.Input.read`). But `off` is set only if a line was taken, so that otherwise the next read
goes where this one went: nothing is lost exactly if each read completes a line
(`Kmod.read_stdin_iff`).
-/

namespace Minibase.Kmod

open List

def newline : UInt8 := 0x0A

/-- What a string is to what it is handed to: it ends at a zero. -/
def cstr (l : List UInt8) : List UInt8 := l.takeWhile (· ≠ 0)

lemma cstr_eq_self {l : List UInt8} : cstr l = l ↔ 0 ∉ l := by
  constructor
  · intro h hzero
    rw [← h] at hzero
    exact absurd (mem_takeWhile_imp hzero) (by decide)
  · intro h
    exact takeWhile_eq_self_iff.mpr fun x hx => decide_eq_true fun hx0 => h (hx0 ▸ hx)

lemma length_cstr_le (l : List UInt8) : (cstr l).length ≤ l.length :=
  ( takeWhile_prefix _).length_le

/-- The size of `buf` in `read_stdin`. -/
def BUFSIZE : ℕ := 1024

/-- `buf` up to `off`, and what `insert` was called with. -/
structure Input where
  held : List UInt8
  inserted : List (List UInt8)

/-- One turn of the loop, for what was read. -/
def Input.read (st : Input) (got : List UInt8) : Input :=
  let (lines, rest) := pieces newline (st.held ++ got)
  -- `off` stays what it was if `p` did not get away from the start of `buf`
  ⟨if lines = [] then st.held else rest, st.inserted ++ lines.map cstr⟩

/-- `read_stdin`, for what the reads return until one returns nothing. -/
def readStdin (reads : List (List UInt8)) : Input := reads.foldl Input.read ⟨[], []⟩

/-- Each read returns something, and no more than there is room for. -/
def Offered (reads : List (List UInt8)) : Prop :=
  ∀ before got after, reads = before ++ got :: after →
    got ≠ [] ∧ got.length ≤ BUFSIZE - (readStdin before).held.length

/-- What was kept is the start of a line. -/
def Input.Neat (st : Input) : Prop := newline ∉ st.held

/-- The bytes of reads in which no line ends. -/
def lost (reads : List (List UInt8)) : ℕ := ((reads.filter fun got => newline ∉ got).map length).sum

lemma pieces_fst_eq_nil_iff (k : UInt8) (p : List UInt8) : (pieces k p).1 = [] ↔ k ∉ p := by
  constructor
  · intro h
    have hjoin := joined_pieces k p
    rw [h] at hjoin
    have hrest := (not_mem_pieces k p).2
    rwa [← hjoin]
  · intro h
    rw [pieces_last h]

/-- **What a read comes to.** Either a line ends in it, and then nothing is lost, or all of
it is. -/
theorem Input.read_cases {st : Input} (h : st.Neat) (got : List UInt8) :
    (st.read got).Neat ∧
      ((newline ∉ got ∧ st.read got = st) ∨
        ∃ lines rest, joined newline lines rest = st.held ++ got ∧ (∀ l ∈ lines, newline ∉ l) ∧
          st.read got = ⟨rest, st.inserted ++ lines.map cstr⟩ ∧ newline ∈ got) := by
  have hmem : newline ∈ st.held ++ got ↔ newline ∈ got := by
    rw [mem_append]
    exact ⟨fun h' => h'.resolve_left h, .inr⟩
  by_cases hgot : newline ∈ got
  · have hne : (pieces newline (st.held ++ got)).1 ≠ [] := by
      rw [Ne, pieces_fst_eq_nil_iff, not_not, hmem]
      exact hgot
    have hread : st.read got = ⟨(pieces newline (st.held ++ got)).2,
        st.inserted ++ (pieces newline (st.held ++ got)).1.map cstr⟩ := by
      rw [Input.read]
      exact congrArg (fun held => Input.mk held _) (if_neg hne)
    refine ⟨?_, .inr ⟨_, _, joined_pieces _ _, (not_mem_pieces _ _).1, hread, hgot⟩⟩
    rw [hread]
    exact (not_mem_pieces _ _).2
  · have hnil : pieces newline (st.held ++ got) = ([], st.held ++ got) :=
      pieces_last (mt hmem.mp hgot)
    have hread : st.read got = st := by
      rw [Input.read, hnil]
      show Input.mk st.held (st.inserted ++ []) = st
      rw [append_nil]
    exact ⟨by rwa [hread], .inl ⟨hgot, hread⟩⟩

/-- The text of lines that are followed by others. -/
theorem joined_append (k : UInt8) (ds es : List (List UInt8)) (t : List UInt8) :
    joined k (ds ++ es) t = joined k ds (joined k es t) := by
  rw [joined, joined, joined, flatMap_append, append_assoc]

lemma length_joined_mono {k : UInt8} {ds : List (List UInt8)} :
    (joined k (ds.map cstr) []).length ≤ (joined k ds []).length := by
  induction ds with
  | nil => exact le_refl _
  | cons d ds ih =>
    have hd := length_cstr_le d
    simp only [joined, append_nil, map_cons, flatMap_cons, length_append, length_singleton] at ih ⊢
    omega

/-- **What the reads come to**: lines that account for all that was not lost. -/
theorem readStdin_lines (reads : List (List UInt8)) :
    ∃ lines rest, readStdin reads = ⟨rest, lines.map cstr⟩ ∧ newline ∉ rest ∧
      (∀ l ∈ lines, newline ∉ l) ∧
      (joined newline lines rest).length + lost reads = reads.flatten.length ∧
      ((∀ got ∈ reads, newline ∈ got) → joined newline lines rest = reads.flatten) := by
  induction reads using reverseRecOn with
  | nil => exact ⟨[], [], rfl, not_mem_nil, fun _ h => absurd h not_mem_nil, rfl, fun _ => rfl⟩
  | append_singleton reads got ih =>
    obtain ⟨lines, rest, hread, hrest, hlines, hlen, hjoin⟩ := ih
    have hsnoc : readStdin (reads ++ [got]) = (readStdin reads).read got := foldl_concat ..
    have hneat : (readStdin reads).Neat := by
      rw [hread]
      exact hrest
    have hflat : (reads ++ [got]).flatten = reads.flatten ++ got := by
      rw [flatten_append, flatten_singleton]
    obtain ⟨hneat', ⟨hno, hsame⟩ | ⟨more, rest', hmore, hends, hread', hgot⟩⟩ :=
      Input.read_cases hneat got
    · -- nothing is taken, and all of the read is lost
      have hlost : lost (reads ++ [got]) = lost reads + got.length := by
        simp [lost, hno]
      refine ⟨lines, rest, by rw [hsnoc, hsame, hread], hrest, hlines, ?_, fun hall => ?_⟩
      · rw [hlost, hflat, length_append, ← hlen, add_assoc]
      · exact absurd (hall got (mem_append_right _ (mem_singleton_self got))) hno
    · have hlost : lost (reads ++ [got]) = lost reads := by
        simp [lost, hgot]
      rw [hread] at hmore hread'
      -- the lines that end in it go behind those that were taken
      have hjoined : joined newline (lines ++ more) rest' = joined newline lines rest ++ got := by
        rw [joined_append, hmore, joined, joined, append_assoc]
      refine ⟨lines ++ more, rest', ?_, ?_, ?_, ?_, fun hall => ?_⟩
      · rw [hsnoc, hread, hread', map_append]
      · rw [hread, hread'] at hneat'
        exact hneat'
      · intro l hl
        exact (mem_append.mp hl).elim (hlines l) (hends l)
      · rw [hjoined, hlost, hflat, length_append, length_append]
        omega
      · rw [hjoined, hflat, hjoin fun got' h => hall got' (mem_append_left _ h)]

/-- Nothing is lost if each read completes a line, and only then. -/
theorem lost_eq_zero_iff {reads : List (List UInt8)} (hne : ∀ got ∈ reads, got ≠ []) :
    lost reads = 0 ↔ ∀ got ∈ reads, newline ∈ got := by
  rw [lost, List.sum_eq_zero_iff_forall_eq_nat]
  constructor
  · intro h got hgot
    by_contra hno
    have hlen := h got.length (List.mem_map_of_mem (List.mem_filter.mpr ⟨hgot, decide_eq_true hno⟩))
    exact hne got hgot (List.length_eq_zero_iff.mp hlen)
  · intro h n hn
    obtain ⟨got, hgot, rfl⟩ := List.mem_map.mp hn
    obtain ⟨hin, hno⟩ := List.mem_filter.mp hgot
    exact absurd (h got hin) (of_decide_eq_true hno)

lemma joined_inj {k : UInt8} {ds es : List (List UInt8)} {t u : List UInt8} (hds : ∀ d ∈ ds, k ∉ d)
    (hes : ∀ e ∈ es, k ∉ e) (ht : k ∉ t) (hu : k ∉ u) (h : joined k ds t = joined k es u) :
      ds = es := by
  have hpieces := congrArg (pieces k) h
  rw [pieces_joined hds ht, pieces_joined hes hu] at hpieces
  exact (Prod.mk.inj hpieces).1

lemma Offered.ne_nil {reads : List (List UInt8)} (h : Offered reads) : ∀ got ∈ reads, got ≠ [] := by
  intro got hgot
  obtain ⟨before, after, rfl⟩ := append_of_mem hgot
  exact (h before got after rfl).1

/-- **Lines are inserted as they are**, once each and in order, exactly if none of them has a
zero in it and each read completes a line. -/
theorem read_stdin_iff {lines reads : List (List UInt8)} (hlines : ∀ l ∈ lines, newline ∉ l)
    (hreads : reads.flatten = joined newline lines []) (hoffered : Offered reads) :
    (readStdin reads).inserted = lines ↔ (∀ l ∈ lines, 0 ∉ l) ∧ ∀ got ∈ reads, newline ∈ got := by
  obtain ⟨raw, rest, hread, hrest, hraw, hlen, hjoin⟩ := readStdin_lines reads
  rw [hread]
  constructor
  · intro h
    have hshort : (joined newline lines []).length ≤ (joined newline raw []).length := by
      rw [← h]
      exact length_joined_mono
    have hall : (joined newline raw rest).length = (joined newline raw []).length +
      rest.length := by
      rw [joined, joined, append_nil, length_append]
    rw [hreads] at hlen
    -- no less was inserted than there was, so nothing was lost
    have hnone : lost reads = 0 := by omega
    have hends := (lost_eq_zero_iff hoffered.ne_nil).mp hnone
    have hsame : raw = lines :=
      joined_inj hraw hlines hrest not_mem_nil ((hjoin hends).trans hreads)
    refine ⟨fun l hl => cstr_eq_self.mp ?_, hends⟩
    rw [hsame] at h
    exact map_inj_left.mp (h.trans (map_id lines).symm) l hl
  · rintro ⟨hzero, hends⟩
    have hsame : raw = lines :=
      joined_inj hraw hlines hrest not_mem_nil ((hjoin hends).trans hreads)
    rw [hsame]
    exact (map_congr_left fun l hl => cstr_eq_self.mpr (hzero l hl)).trans (map_id lines)

/-- The lines `a`, `bc` and `de`, in reads that cut the last two. -/
theorem read_stdin_iff_lines :
    (readStdin [[0x61, 0x0A, 0x62], [0x63, 0x0A, 0x64], [0x65, 0x0A]]).inserted =
      [[0x61], [0x62, 0x63], [0x64, 0x65]] := by
  have hoffered : Offered [[0x61, 0x0A, 0x62], [0x63, 0x0A, 0x64], [0x65, 0x0A]] := by
    rintro (- | ⟨b, - | ⟨b', - | ⟨b'', before⟩⟩⟩) got after h
    · obtain ⟨rfl, -⟩ := cons.inj h
      exact ⟨by decide, by decide⟩
    · obtain ⟨hb, h⟩ := cons.inj h
      obtain ⟨rfl, -⟩ := cons.inj h
      rw [← hb]
      exact ⟨by decide, by decide⟩
    · obtain ⟨hb, h⟩ := cons.inj h
      obtain ⟨hb', h⟩ := cons.inj h
      obtain ⟨rfl, -⟩ := cons.inj h
      rw [← hb, ← hb']
      exact ⟨by decide, by decide⟩
    · exact absurd (cons.inj (cons.inj (cons.inj h).2).2).2 (by simp)
  exact (read_stdin_iff (by decide) rfl hoffered).mpr (by decide)

/-- **Lines may get lost**: the line `a` in two reads, with the newline in the second. -/
theorem not_read_stdin : ¬ ∀ lines reads : List (List UInt8),
    (∀ l ∈ lines, newline ∉ l ∧ l.length < BUFSIZE) → reads.flatten = joined newline lines [] →
      Offered reads → (readStdin reads).inserted = lines := by
  intro h
  have hoffered : Offered [[0x61], [0x0A]] := by
    rintro (- | ⟨b, - | ⟨b', before⟩⟩) got after h
    · obtain ⟨rfl, -⟩ := cons.inj h
      exact ⟨by decide, by decide⟩
    · obtain ⟨hb, h⟩ := cons.inj h
      obtain ⟨rfl, -⟩ := cons.inj h
      rw [← hb]
      exact ⟨by decide, by decide⟩
    · exact absurd (cons.inj (cons.inj h).2).2 (by simp)
  exact absurd (h [[0x61]] [[0x61], [0x0A]] (by decide) (by decide) hoffered) (by decide)

end Minibase.Kmod
