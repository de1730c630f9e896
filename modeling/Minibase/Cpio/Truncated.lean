import Minibase.Cpio.Archive
import Minibase.Cpio.Tree

/-!
# Archives that end early

What is read of the beginning of an archive that `cmd_create` has made. A header, a name and
the target of a symlink have to be there as a whole, but the body of a file does not, and at
its end nothing more is expected. So the cuts that go unnoticed are those in the body of a
file, and at the very end of a body that is to be filled up (`Cpio.Unnoticed`,
`Cpio.truncated_iff`); and what comes after a file called like the last entry is not read.
-/

namespace Minibase.Cpio

open List Option

variable {mode size s j n : ℕ} {name : List UInt8}

/-! ### Archives that are cut -/

/-- Nothing at all is as good as an end. -/
theorem next_nil (s : ℕ) : next (s, []) = some none := rfl

/-- A cut that is after something. -/
theorem take_after {a b c : List UInt8} (h : a.length + b.length ≤ j) :
    (a ++ (b ++ c)).take j = a ++ (b ++ c.take (j - (a.length + b.length))) := by
  obtain ⟨i, rfl⟩ := Nat.exists_eq_add_of_le h
  rw [Nat.add_sub_cancel_left, Nat.add_assoc, take_length_add_append, take_length_add_append]

/-- **A cut before the body** is noticed, unless nothing at all is there. -/
theorem next_short (hmode : mode < 2 ^ 32) (hsize : size < 2 ^ 32) (hshort : name.length + 1 ≤ PAGE)
    (hj : 0 < j) (hcut : j < s + (headOf mode size name).length) (more : List UInt8) :
    next (s, (zeros s ++ (headOf mode size name ++ more)).take j) = none := by
  have hzeros : (zeros s).length = s := length_replicate
  have hhdr := length_header mode size (name.length + 1)
  have hlen := length_headOf mode size name
  have hwhole : (zeros s ++ (headOf mode size name ++ more)).length =
      s + ((headOf mode size name).length + more.length) := by
    rw [length_append, length_append, hzeros]
  rcases lt_or_ge j (s + HDRSIZE) with hhead | hhead
  · -- inside the header
    have htake : ((zeros s ++ (headOf mode size name ++ more)).take j).length = j :=
      length_take_of_le (by omega)
    have hne : (zeros s ++ (headOf mode size name ++ more)).take j ≠ [] := by
      intro h
      rw [h, length_nil] at htake
      omega
    have hsplit : splitHead s ((zeros s ++ (headOf mode size name ++ more)).take j) = none := by
      rw [splitHead, if_neg hne, if_pos (by omega)]
    rw [next, nextBy, hsplit]
    rfl
  · -- inside the name
    obtain ⟨i, rfl⟩ := Nat.exists_eq_add_of_le hhead
    have hcutname : i < (named name).length := by omega
    have hrest : (zeros s ++ (headOf mode size name ++ more)).take (s + HDRSIZE + i) =
        zeros s ++ (header mode size (name.length + 1) ++ (named name ++ more).take i) := by
      have h1 : s + HDRSIZE + i = (zeros s).length +
        ((header mode size (name.length + 1)).length + i) := by
        rw [hzeros, hhdr, add_assoc]
      rw [h1, headOf, append_assoc, take_length_add_append, take_length_add_append]
      rfl
    have hname : splitName (name.length + 1) ((named name ++ more).take i) = none := by
      rw [splitName, if_neg (Nat.not_lt.mpr hshort), if_pos]
      have hle := length_take_le i (named name ++ more)
      rw [← length_named_eq]
      omega
    rw [hrest, next_written hmode hsize hshort, hname, bind_none]

/-- **An archive that is cut**, one entry after the other. -/
theorem finishes_cons {e : Ent} (hok : e.Ok) (es : List Ent) (s j : ℕ) :
    (∃ made, Finishes (s, (zeros s ++ archive (e :: es)).take j) made) ↔
      j = 0 ∨ (s + e.head.length ≤ j ∧ (e.name = trailer ∨ ¬ e.Refused ∧
        s + e.head.length + e.wants ≤ j ∧
        ∃ made, Finishes (padding e.body.length,
          (zeros (padding e.body.length) ++ archive es).take
            (j - (s + e.head.length + e.body.length)))
          made)) := by
  have hzeros : (zeros s).length = s := length_replicate
  rw [archive_cons]
  rcases Nat.eq_zero_or_pos j with hj | hj
  · rw [hj, take_zero]
    exact ⟨fun _ => .inl rfl, fun _ => ⟨[], Turns.Finishes.stop (next_nil s)⟩⟩
  rcases Nat.lt_or_ge j (s + e.head.length) with hhead | hhead
  · have hnone := next_short e.mode_lt hok.size hok.short hj hhead
      (e.body ++ (zeros (padding e.body.length) ++ archive es))
    constructor
    · intro h
      exact absurd h (Turns.not_finishes hnone)
    · rintro (h | ⟨h, -⟩)
      · exact absurd h (Nat.ne_of_gt hj)
      · exact absurd hhead (Nat.not_lt.mpr h)
  · obtain ⟨tail, htail⟩ : ∃ tail, zeros (padding e.body.length) ++ archive es = tail := ⟨_, rfl⟩
    obtain ⟨i, hi⟩ : ∃ i, j - (s + e.head.length) = i := ⟨_, rfl⟩
    obtain ⟨rest, hrest⟩ : ∃ rest, (e.body ++ tail).take i = rest := ⟨_, rfl⟩
    have hcut : (zeros s ++ (e.head ++ (e.body ++ tail))).take j = zeros s ++ (e.head ++ rest) := by
      rw [take_after (by rw [hzeros]; exact hhead), hzeros, hi, hrest]
    have hnext := next_entry hok s rest
    have hdrop : rest.drop e.body.length = tail.take (j - (s + e.head.length + e.body.length)) := by
      rw [← hrest, drop_take, drop_left, ← hi, Nat.sub_sub]
    rw [htail, hcut]
    by_cases hname : e.name = trailer
    · rw [if_pos hname] at hnext
      exact ⟨fun _ => .inr ⟨hhead, .inl hname⟩, fun _ => ⟨[], Turns.Finishes.stop hnext⟩⟩
    rw [if_neg hname] at hnext
    by_cases href : e.Refused
    · -- it is refused, however much there is of it
      rw [splitBody_refused href, bind_none] at hnext
      constructor
      · intro h
        exact absurd h (Turns.not_finishes hnext)
      · rintro (h | ⟨-, h | ⟨h, -⟩⟩)
        · exact absurd h (Nat.ne_of_gt hj)
        · exact absurd h hname
        · exact absurd href h
    obtain ⟨hshort, henough⟩ := splitBody_eq href rest
    have hlen : e.wants ≤ rest.length ↔ s + e.head.length + e.wants ≤ j := by
      have hwants : e.wants ≤ e.body.length := e.wants_le
      have hi' : j = s + e.head.length + i := by rw [← hi, Nat.add_sub_cancel' hhead]
      rw [← hrest, length_take, length_append, hi']
      generalize s + e.head.length = at_body
      omega
    rcases Nat.lt_or_ge rest.length e.wants with hlt | hge
    · -- the target of a symlink, and not all of it
      rw [hshort hlt, bind_none] at hnext
      constructor
      · intro h
        exact absurd h (Turns.not_finishes hnext)
      · rintro (h | ⟨-, h | ⟨-, h, -⟩⟩)
        · exact absurd h (Nat.ne_of_gt hj)
        · exact absurd h hname
        · exact absurd hlt (Nat.not_lt.mpr (hlen.mpr h))
    · -- the entry is made of what there is, and the rest is gone on with
      obtain ⟨made, hbody, -⟩ := henough hge
      rw [hbody, bind_some] at hnext
      rw [hdrop] at hnext
      constructor
      · rintro ⟨all, h⟩
        obtain ⟨outs, -, h⟩ := (Turns.finishes_iff_of_next hnext).mp h
        exact .inr ⟨hhead, .inr ⟨href, hlen.mp hge, outs, h⟩⟩
      · rintro (h | ⟨-, h | ⟨-, -, outs, h⟩⟩)
        · exact absurd h (Nat.ne_of_gt hj)
        · exact absurd h hname
        · exact ⟨_, Turns.Finishes.more hnext h⟩

/-- The trailer has to be there as a whole. -/
theorem finishes_nil (s j : ℕ) :
    (∃ made, Finishes (s, (zeros s ++ archive []).take j) made) ↔ j = 0 ∨
      s + trailerBytes.length ≤ j := by
  have hzeros : (zeros s).length = s := length_replicate
  have hmode : 0 < 2 ^ 32 := by omega
  have hshort : trailer.length + 1 ≤ PAGE := by decide
  have harchive : archive [] = headOf 0 0 trailer ++ [] := by
    rw [archive, flatMap_nil, nil_append, trailerBytes, append_nil]
  rw [harchive]
  rcases Nat.eq_zero_or_pos j with hj | hj
  · rw [hj, take_zero]
    exact ⟨fun _ => .inl rfl, fun _ => ⟨[], Turns.Finishes.stop (next_nil s)⟩⟩
  rcases lt_or_ge j (s + trailerBytes.length) with hhead | hhead
  · have hnone := next_short hmode hmode hshort hj hhead []
    constructor
    · intro h
      exact absurd h (Turns.not_finishes hnone)
    · rintro (h | h)
      · exact absurd h (ne_of_gt hj)
      · exact absurd hhead (Nat.not_lt.mpr h)
  · have hcut : (zeros s ++ archive []).take j = zeros s ++ archive [] := by
      refine take_of_length_le ?_
      rw [length_append, hzeros, harchive, append_nil]
      exact hhead
    rw [← harchive, hcut]
    exact ⟨fun _ => .inr hhead, fun _ => ⟨[], Turns.Finishes.stop (next_trailer s)⟩⟩

/-- **A cut in an entry goes unnoticed**, with so many of its bytes before the cut. Behind
its name, either the name is that of the last entry, or it is an entry that can be extracted,
as much of the body is there as there has to be, and no more than the body. -/
def UnnoticedIn (e : Ent) (i : ℕ) : Prop :=
  e.head.length ≤ i ∧
    (e.name = trailer ∨
      ¬ e.Refused ∧ e.head.length + e.wants ≤ i ∧ i ≤ e.head.length + e.body.length)

variable (es : List Ent)

/-- **A cut in an archive goes unnoticed**: it does so in an entry, or after one of them, and
nothing before that is refused. -/
def Unnoticed (n : ℕ) : Prop :=
  ∃ before e after i, es = before ++ e :: after ∧ (∀ d ∈ before, ¬ d.Refused) ∧
    n = (before.flatMap Ent.encode).length + i ∧ UnnoticedIn e i

lemma unnoticed_cons (e : Ent) (es : List Ent) (n : ℕ) :
    Unnoticed (e :: es) n ↔
      UnnoticedIn e n ∨ (¬ e.Refused ∧ e.encode.length ≤ n ∧
        Unnoticed es (n - e.encode.length)) := by
  constructor
  · rintro ⟨- | ⟨d, before⟩, e', after, i, hes, hbefore, rfl, hin⟩
    · obtain ⟨rfl, -⟩ := List.cons.inj hes
      rw [flatMap_nil, length_nil, Nat.zero_add]
      exact .inl hin
    · obtain ⟨rfl, rfl⟩ := List.cons.inj hes
      obtain ⟨hd, hbefore⟩ := forall_mem_cons.mp hbefore
      rw [flatMap_cons, length_append, Nat.add_assoc]
      refine .inr ⟨hd, Nat.le_add_right _ _, before, e', after, i, rfl, hbefore, ?_, hin⟩
      rw [Nat.add_sub_cancel_left]
  · rintro (hin | ⟨hd, hle, before, e', after, i, rfl, hbefore, hn, hin⟩)
    · exact ⟨[], e, es, n, rfl, fun _ h => absurd h not_mem_nil, (Nat.zero_add n).symm, hin⟩
    · refine ⟨e :: before, e', after, i, rfl, forall_mem_cons.mpr ⟨hd, hbefore⟩, ?_, hin⟩
      rw [flatMap_cons, length_append, Nat.add_assoc, ← hn, Nat.add_sub_cancel' hle]

lemma length_encode (e : Ent) :
    e.encode.length = e.head.length + e.body.length + padding e.body.length := by
  rw [Ent.encode, length_append, length_append, zeros, length_replicate]

/-- **What is left of an archive** can be read to an end if there is nothing, if the cut goes
unnoticed or if there is none. -/
theorem finishes_iff {es : List Ent} (hok : ∀ e ∈ es, e.Ok) (s j : ℕ) :
    (∃ made, Finishes (s, (zeros s ++ archive es).take j) made) ↔
      j = 0 ∨ (s ≤ j ∧ (Unnoticed es (j - s) ∨
        ((∀ d ∈ es, ¬ d.Refused) ∧ (archive es).length ≤ j - s))) := by
  induction es generalizing s j with
  | nil =>
    have hlen : (archive []).length = trailerBytes.length := by
      rw [archive, flatMap_nil, nil_append]
    rw [finishes_nil, hlen]
    constructor
    · rintro (h | h)
      · exact .inl h
      · exact .inr ⟨by omega, .inr ⟨fun _ h => absurd h not_mem_nil, by omega⟩⟩
    · rintro (h | ⟨h, ⟨before, e, after, _, hes, _⟩ | ⟨-, h'⟩⟩)
      · exact .inl h
      · exact absurd hes (by simp)
      · exact .inr (by omega)
  | cons e es ih =>
    obtain ⟨hok1, hok2⟩ := forall_mem_cons.mp hok
    have hwants := e.wants_le
    have hencode := length_encode e
    have hlen : (archive (e :: es)).length = e.encode.length + (archive es).length := by
      rw [archive, flatMap_cons, append_assoc, length_append]
      rfl
    rw [finishes_cons hok1, ih hok2, unnoticed_cons, hlen, forall_mem_cons, hencode, UnnoticedIn]
    generalize e.head.length = head at *
    generalize e.body.length = body at *
    generalize e.wants = wants at *
    generalize padding body = fill at *
    have hsub : j - (s + head + body) - fill = j - s - (head + body + fill) := by omega
    rw [hsub]
    constructor
    · rintro (h | ⟨h1, h | ⟨h2, h3, h4⟩⟩)
      · exact .inl h
      · exact .inr ⟨by omega, .inl (.inl ⟨by omega, .inl h⟩)⟩
      · rcases lt_or_ge (s + head + body) j with hj | hj
        · -- the cut is behind the body
          obtain ⟨h5, h6⟩ := h4.resolve_left (by omega)
          refine .inr ⟨by omega, ?_⟩
          rcases h6 with h6 | ⟨h6, h7⟩
          · exact .inl (.inr ⟨h2, by omega, h6⟩)
          · exact .inr ⟨⟨h2, h6⟩, by omega⟩
        · -- the cut is in the body, where nothing is left after it
          exact .inr ⟨by omega, .inl (.inl ⟨by omega, .inr ⟨h2, by omega, by omega⟩⟩)⟩
    · rintro (h | ⟨h1, (⟨h2, h | ⟨h3, h4, h5⟩⟩ | ⟨h2, h3, h4⟩) | ⟨⟨h2, h3⟩, h4⟩⟩)
      · exact .inl h
      · exact .inr ⟨by omega, .inl h⟩
      · exact .inr ⟨by omega, .inr ⟨h3, by omega, .inl (by omega)⟩⟩
      · exact .inr ⟨by omega, .inr ⟨h2, by omega, .inr ⟨by omega, .inl h4⟩⟩⟩
      · exact .inr ⟨by omega, .inr ⟨h2, by omega, .inr ⟨by omega, .inr ⟨h3, by omega⟩⟩⟩⟩

/-- **A cut that is noticed** fails the extraction, whatever the system does. -/
theorem cmdExtract_take_fails_iff {es : List Ent} (hok : ∀ e ∈ es, e.Ok) (hn : 0 < n)
    (hlen : n < (archive es).length) :
    (∀ env, ∃ e, cmdExtract env ((archive es).take n) = some (.error e)) ↔ ¬ Unnoticed es n := by
  have hfin := finishes_iff hok 0 n
  rw [show zeros 0 ++ archive es = archive es from rfl, Nat.sub_zero] at hfin
  rw [cmdExtract_fails_iff, hfin, not_iff_not]
  constructor
  · rintro (h | ⟨-, h | ⟨-, h⟩⟩)
    · exact absurd h (Nat.ne_of_gt hn)
    · exact h
    · exact absurd hlen (Nat.not_lt.mpr h)
  · intro h
    exact .inr ⟨Nat.zero_le _, .inl h⟩

/-- The entries of an archive, each filled up. -/
def parts : List (List UInt8) := es.map Ent.encode ++ [trailerBytes]

lemma flatten_parts : (parts es).flatten = archive es := by
  rw [parts, flatten_append, ← flatMap_def, flatten_singleton, archive]

/-- **The cut is inside an entry**: some of it is there, and some is not. -/
def Inside (n : ℕ) : Prop :=
  ∃ before b after, parts es = before ++ b :: after ∧ before.flatten.length < n ∧
    n < before.flatten.length + b.length

lemma Inside.lt {es : List Ent} (h : Inside es n) : 0 < n ∧ n < (archive es).length := by
  obtain ⟨before, b, after, hparts, hlt, hlt'⟩ := h
  rw [← flatten_parts, hparts, flatten_append, flatten_cons, length_append, length_append]
  exact ⟨by omega, by omega⟩

/-- **A truncated archive** is refused unless the cut goes unnoticed. -/
theorem truncated_iff {entries : List (Name × Node)} {bytes : List UInt8}
    (h : cmdCreate entries = .ok bytes) (hn : Inside (entriesOf MAXDEPTH [] entries) n) :
    (∀ env, ∃ e, cmdExtract env (bytes.take n) = some (.error e)) ↔
      ¬ Unnoticed (entriesOf MAXDEPTH [] entries) n := by
  obtain ⟨rfl, hok⟩ := cmdCreate_eq h
  obtain ⟨hpos, hlen⟩ := hn.lt
  exact cmdExtract_take_fails_iff hok hpos hlen

/-! ### A directory with a directory in it -/

lemma cmdCreate_several : cmdCreate several = .ok (archive (entriesOf MAXDEPTH [] several)) :=
  cmdCreate_ok isTree_several fun hat => (short_several hat).trans (by decide)

/-- A cut in the header of the symlink, which comes after a file of 116 bytes, is noticed. -/
theorem truncated_iff_several :
    (∀ env, ∃ e, cmdExtract env ((archive (entriesOf MAXDEPTH [] several)).take 150) =
      some (.error e)) ∧ ¬Unnoticed (entriesOf MAXDEPTH [] several) 150 := by
  have hfile : (Ent.file nameA.bytes false [0x41, 0x42]).head.length = 112 := by
    rw [Ent.head, length_headOf, length_named_eq]
    decide
  have hlink : (Ent.link nameC.bytes nameA.bytes).head.length = 112 := by
    rw [Ent.head, length_headOf, length_named_eq]
    decide
  have hencode : (Ent.file nameA.bytes false [0x41, 0x42]).encode.length = 116 := by
    rw [length_encode, hfile]
    decide
  have hencode' : (Ent.link nameC.bytes nameA.bytes).encode.length = 116 := by
    rw [length_encode, hlink]
    decide
  have hnot : ¬Unnoticed (entriesOf MAXDEPTH [] several) 150 := by
    rw [entriesOf_several, unnoticed_cons, unnoticed_cons, hencode, hencode', UnnoticedIn,
      UnnoticedIn, hfile, hlink]
    rintro (⟨-, h | ⟨-, -, h⟩⟩ | ⟨-, -, ⟨h, -⟩ | ⟨-, h, -⟩⟩)
    · exact nameA_ne_trailer h
    · exact absurd h (by decide)
    · exact absurd h (by decide)
    · exact absurd h (by decide)
  refine ⟨(truncated_iff cmdCreate_several ?_).mpr hnot, hnot⟩
  rw [entriesOf_several]
  refine ⟨[Ent.encode _], _, _, rfl, ?_, ?_⟩
  · rw [flatten_singleton, hencode]
    decide
  · rw [flatten_singleton, hencode, hencode']
    decide

/-! ### A directory with one file -/

lemma two_bytes : ([0x41, 0x42] : List UInt8).length < 2 ^ 32 := by decide

/-- The archive of a file of two bytes, cut after the first of them. -/
theorem inside_file : Inside (entriesOf MAXDEPTH [] [(nameA, .file false [0x41, 0x42])]) 113 := by
  have hhead : (Ent.file nameA.bytes false [0x41, 0x42]).head.length = 112 := by
    rw [Ent.head, length_headOf, length_named_eq]
    decide
  have hlen : (Ent.file nameA.bytes false [0x41, 0x42]).encode.length = 116 := by
    rw [length_encode, hhead]
    decide
  rw [entriesOf_file]
  refine ⟨[], _, [trailerBytes], rfl, by decide, ?_⟩
  rw [hlen]
  decide

/-- **A truncated archive may go unnoticed**: there is one byte of two. -/
theorem not_truncated_fails : ¬ ∀ entries bytes n, cmdCreate entries = .ok bytes →
    Inside (entriesOf MAXDEPTH [] entries) n →
      ∀ env, ∃ e, cmdExtract env (bytes.take n) = some (.error e) := by
  intro h
  have hfails := h _ _ _ (cmdCreate_file nameA_ne_trailer false two_bytes) inside_file
  obtain ⟨-, hok⟩ := cmdCreate_eq (cmdCreate_file nameA_ne_trailer false two_bytes)
  obtain ⟨hpos, hlen⟩ := inside_file.lt
  rw [entriesOf_file] at hok hlen
  refine (cmdExtract_take_fails_iff hok hpos hlen).mp hfails ?_
  have hhead : (Ent.file nameA.bytes false [0x41, 0x42]).head.length = 112 := by
    rw [Ent.head, length_headOf, length_named_eq]
    decide
  refine ⟨[], _, [], 113, rfl, fun _ h => absurd h not_mem_nil, rfl, ?_⟩
  rw [UnnoticedIn, hhead]
  exact ⟨by decide, .inr ⟨id, by decide, by decide⟩⟩

end Minibase.Cpio
