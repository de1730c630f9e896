import Minibase.Cpio.Reading

/-!
# Reading what was written

`cmd_extract` on an archive that `cmd_create` has made. What was packed comes out again
(`Cpio.extract_create`), if none of it is called like the last entry and no symlink has a
target longer than a page: such a symlink is packed, but not extracted.
-/

namespace Minibase.Cpio

open List Option

variable {mode size s : ℕ} {name : List UInt8}

/-! ### Headers and names -/

/-- A header with what comes after it. -/
theorem splitHead_header {hdr : List UInt8} (hhdr : hdr.length = HDRSIZE) (more : List UInt8) :
    splitHead s (zeros s ++ (hdr ++ more)) = some (some (hdr, more)) := by
  have hzeros : (zeros s).length = s := length_replicate
  have hpos : 0 < HDRSIZE := by decide
  have hlen : (zeros s ++ (hdr ++ more)).length = s + (HDRSIZE + more.length) := by
    rw [length_append, length_append, hzeros, hhdr]
  have hne : zeros s ++ (hdr ++ more) ≠ [] := by
    intro h
    rw [h, length_nil] at hlen
    omega
  have htake : ((zeros s ++ (hdr ++ more)).drop s).take HDRSIZE = hdr := by
    rw [drop_left' hzeros, take_left' hhdr]
  have hdrop : (zeros s ++ (hdr ++ more)).drop (HDRSIZE + s) = more := by
    rw [add_comm, ← drop_drop, drop_left' hzeros, drop_left' hhdr]
  rw [splitHead, if_neg hne, if_neg (by omega), htake, hdrop]

/-- A header is what comes next, behind the zeros that fill up what was before it. -/
theorem nextBy_header {γ : Type} {entry : List UInt8 → List UInt8 → Option (Option (View × List γ))}
    {hdr : List UInt8} (hhdr : hdr.length = HDRSIZE) (more : List UInt8) :
    nextBy entry (s, zeros s ++ (hdr ++ more)) = entry hdr more := by
  rw [nextBy, splitHead_header hhdr]
  rfl

/-- The name of an entry, with the zeros behind it. -/
def named (name : List UInt8) : List UInt8 :=
  name ++ 0 :: zeros (padding (HDRSIZE + (name.length + 1)))

lemma length_headOf (mode size : ℕ) (name : List UInt8) :
    (headOf mode size name).length = HDRSIZE + (named name).length := by
  rw [headOf, length_append, length_header]
  rfl

/-- **The room for a name** is what the reader takes for it. -/
theorem length_named_eq (name : List UInt8) : (named name).length = nameRoom (name.length + 1) := by
  have hlen := length_named name
  have hhdr : HDRSIZE = 108 + 2 := rfl
  have hmul : (108 : ℕ) % 4 = 0 := rfl
  have halign : align4 (HDRSIZE + (name.length + 1)) = 108 + align4 (2 + (name.length + 1)) := by
    rw [hhdr, add_assoc, align4_add hmul]
  rw [halign] at hlen
  rw [nameRoom]
  show (name ++ 0 :: zeros (padding (HDRSIZE + (name.length + 1)))).length = _
  omega

lemma splitName_named (hshort : name.length + 1 ≤ PAGE) (more : List UInt8) :
    splitName (name.length + 1) (named name ++ more) = some (name ++ [0], more) := by
  have hlen := length_named_eq name
  have htake : (named name ++ more).take (name.length + 1) = name ++ [0] := by
    have h1 : named name ++ more =
        (name ++ [0]) ++ (zeros (padding (HDRSIZE + (name.length + 1))) ++ more) := by
      simp [named]
    have h2 : name.length + 1 = (name ++ [0]).length := by
      rw [length_append, length_singleton]
    rw [h1, h2, take_left]
  have hdrop : (named name ++ more).drop (nameRoom (name.length + 1)) = more := by
    rw [← hlen, drop_left]
  have hroom : ¬ (named name ++ more).length < nameRoom (name.length + 1) := by
    rw [length_append]
    omega
  rw [splitName, if_neg (Nat.not_lt.mpr hshort), if_neg hroom, htake, hdrop]

lemma nameIn_snoc (hzero : 0 ∉ name) : nameIn (name ++ [0]) = some name := by
  have hstring : string (name ++ [0]) = name := by
    rw [string_append_zero, string_eq_self.mpr hzero]
  rw [nameIn, hstring, if_pos]
  rw [length_append, length_singleton]

section Entry

variable (hmode : mode < 2 ^ 32) (hsize : size < 2 ^ 32) (hshort : name.length + 1 ≤ PAGE)

include hmode hsize hshort

/-- The numbers of a header that was written. -/
theorem hdrFields_written :
    hdrFields (header mode size (name.length + 1)) = some (name.length + 1, size, mode) := by
  have hpage : PAGE = 4096 := rfl
  exact hdrFields_header hmode hsize (by omega)

/-- What is done behind a header that was written. -/
theorem next_written (more : List UInt8) :
    next (s, zeros s ++ (header mode size (name.length + 1) ++ more)) =
      (splitName (name.length + 1) more).bind fun b => (nameIn b.1).bind fun name =>
        if name = trailer then some none
        else (validateName 0 name).toOption.bind fun path =>
          (splitBody size mode path b.2).bind fun b => some (some ((padding size, b.1), b.2)) := by
  rw [next, nextBy_header (length_header mode size (name.length + 1)), entryAt,
    hdrFields_written hmode hsize hshort]
  rfl

/-- **The name of an entry** is read as it was written. -/
theorem next_headOf (hzero : 0 ∉ name) (hvalid : validateName 0 name = .ok name)
    (more : List UInt8) :
    next (s, zeros s ++ (headOf mode size name ++ more)) =
      if name = trailer then some none
      else (splitBody size mode name more).bind fun b =>
        some (some ((padding size, b.1), b.2)) := by
  rw [headOf, append_assoc, next_written hmode hsize hshort]
  show ((splitName (name.length + 1) (named name ++ more)).bind _) = _
  rw [splitName_named hshort, bind_some, nameIn_snoc hzero, bind_some, hvalid]
  rfl

end Entry

/-! ### Entries of an archive -/

/-- A symlink that is packed but not extracted. -/
def Ent.Refused : Ent → Prop
  | .link _ target => target.length > PAGE
  | _ => False

/-- How much there has to be of a body. -/
def Ent.wants : Ent → ℕ
  | .link _ target => target.length
  | _ => 0

variable (e : Ent)

lemma Ent.wants_le : e.wants ≤ e.body.length := by
  rcases e with _ | _ | _
  · exact Nat.le_refl _
  · exact Nat.zero_le _
  · exact Nat.le_refl _

/-- What an entry was made of. -/
def Ent.made : Ent → Made
  | .dir name => .dir name
  | .file name exec body => .file name (if exec then 0o755 else 0o644) body
  | .link name target => .link name (string target)

lemma Ent.mode_lt : e.mode < 2 ^ 32 := by
  rcases e with _ | ⟨_, _ | _, _⟩ | _
  · show S_IFDIR ||| 0o755 < 2 ^ 32
    decide
  · show S_IFREG ||| 0o644 < 2 ^ 32
    decide
  · show S_IFREG ||| 0o755 < 2 ^ 32
    decide
  · show S_IFLNK ||| 0o644 < 2 ^ 32
    decide

/-- The type an entry was packed with. -/
def Ent.type : Ent → ℕ
  | .dir _ => S_IFDIR
  | .file _ _ _ => S_IFREG
  | .link _ _ => S_IFLNK

lemma Ent.mode_type : e.mode &&& S_IFMT = e.type := by
  rcases e with _ | ⟨_, _ | _, _⟩ | _
  · show (S_IFDIR ||| 0o755) &&& S_IFMT = S_IFDIR
    decide
  · show (S_IFREG ||| 0o644) &&& S_IFMT = S_IFREG
    decide
  · show (S_IFREG ||| 0o755) &&& S_IFMT = S_IFREG
    decide
  · show (S_IFLNK ||| 0o644) &&& S_IFMT = S_IFLNK
    decide

/-- A file is executable again if it was. -/
theorem fileMode_mode (name : List UInt8) (exec : Bool) (body : List UInt8) :
    fileMode (Ent.file name exec body).mode = if exec then 0o755 else 0o644 := by
  cases exec
  · show fileMode (S_IFREG ||| 0o644) = 0o644
    decide
  · show fileMode (S_IFREG ||| 0o755) = 0o755
    decide

/-- **A body** that can be read, as far as there is any of it. -/
theorem splitBody_entry (rest : List UInt8) :
    splitBody e.body.length e.mode e.name rest =
      match e with
      | .dir name => some (rest, [.dir name])
      | .file name exec body =>
        some (rest.drop body.length,
          [.file name (if exec then 0o755 else 0o644) (rest.take body.length)])
      | .link name target =>
        if target.length > PAGE then none
        else if rest.length < target.length then none
        else some (rest.drop target.length, [.link name (string (rest.take target.length))]) := by
  have hlnkreg : ¬ S_IFLNK = S_IFREG := by decide
  have hdirreg : ¬ S_IFDIR = S_IFREG := by decide
  have hdirlnk : ¬ S_IFDIR = S_IFLNK := by decide
  rw [splitBody, e.mode_type]
  rcases e with name | ⟨name, exec, body⟩ | ⟨name, target⟩
  · have hnone : ¬ (Ent.dir name).body.length ≠ 0 := not_not.mpr rfl
    rw [Ent.type, if_neg hdirreg, if_neg hdirlnk, if_neg hnone, if_pos rfl]
    rfl
  · rw [Ent.type, if_pos rfl, fileMode_mode]
    rfl
  · rw [Ent.type, if_neg hlnkreg, if_pos rfl]
    rfl

lemma splitBody_refused {e : Ent} (h : e.Refused) (rest : List UInt8) :
    splitBody e.body.length e.mode e.name rest = none := by
  rw [splitBody_entry]
  rcases e with _ | _ | ⟨name, target⟩
  · cases h
  · cases h
  · exact if_pos h

/-- **As much of a body as there has to be** decides whether it is read. -/
theorem splitBody_eq {e : Ent} (h : ¬ e.Refused) (rest : List UInt8) :
    (rest.length < e.wants → splitBody e.body.length e.mode e.name rest = none) ∧
      (e.wants ≤ rest.length →
        ∃ made, splitBody e.body.length e.mode e.name rest =
          some (rest.drop e.body.length, [made]) ∧
          (rest.take e.body.length = e.body → made = e.made)) := by
  rw [splitBody_entry]
  rcases e with name | ⟨name, exec, body⟩ | ⟨name, target⟩
  · exact ⟨fun hlt => absurd hlt (Nat.not_lt_zero _), fun _ => ⟨.dir name, rfl, fun _ => rfl⟩⟩
  · refine ⟨fun hlt => absurd hlt (Nat.not_lt_zero _), fun _ => ⟨_, rfl, fun htake => ?_⟩⟩
    exact congrArg (Made.file name _) htake
  · have hfits : ¬ target.length > PAGE := h
    dsimp only
    rw [if_neg hfits]
    refine ⟨fun hlt => if_pos hlt, fun hle => ⟨_, if_neg (Nat.not_lt.mpr hle), fun htake => ?_⟩⟩
    exact congrArg (fun t => Made.link name (string t)) htake

lemma archive_cons (es : List Ent) :
    archive (e :: es) = e.head ++ (e.body ++ (zeros (padding e.body.length) ++ archive es)) := by
  rw [archive, flatMap_cons, Ent.encode]
  simp only [append_assoc]
  rfl

/-- **An entry that was written**, with what is left of its body and what comes after it. -/
theorem next_entry {e : Ent} (hok : e.Ok) (s : ℕ) (rest : List UInt8) :
    next (s, zeros s ++ (e.head ++ rest)) =
      if e.name = trailer then some none
      else (splitBody e.body.length e.mode e.name rest).bind fun b =>
        some (some ((padding e.body.length, b.1), b.2)) :=
  next_headOf e.mode_lt hok.size hok.short hok.no_zero (hok.valid 0) rest

/-- **The trailer** is the end. -/
theorem next_trailer (s : ℕ) : next (s, zeros s ++ archive []) = some none := by
  have hmode : 0 < 2 ^ 32 := by omega
  have hshort : trailer.length + 1 ≤ PAGE := by decide
  have hvalid : validateName 0 trailer = .ok trailer := rfl
  have hnext := next_headOf (s := s) hmode hmode hshort (by decide) hvalid []
  rw [if_pos rfl, append_nil] at hnext
  rw [archive, flatMap_nil, nil_append, trailerBytes]
  exact hnext

/-! ### Archives that are whole -/

/-- **A whole archive** is read to its end. -/
theorem finishes_archive {es : List Ent} (hok : ∀ e ∈ es, e.Ok) (hname : ∀ e ∈ es, e.name ≠ trailer)
    (href : ∀ e ∈ es, ¬ e.Refused) (s : ℕ) :
    Finishes (s, zeros s ++ archive es) (es.map Ent.made) := by
  induction es generalizing s with
  | nil => exact Turns.Finishes.stop (next_trailer s)
  | cons e es ih =>
    obtain ⟨hok1, hok2⟩ := forall_mem_cons.mp hok
    obtain ⟨hname1, hname2⟩ := forall_mem_cons.mp hname
    obtain ⟨href1, href2⟩ := forall_mem_cons.mp href
    have hnext := next_entry hok1 s (e.body ++ (zeros (padding e.body.length) ++ archive es))
    have hwants : e.wants ≤ (e.body ++ (zeros (padding e.body.length) ++ archive es)).length :=
      e.wants_le.trans (by rw [length_append]; exact Nat.le_add_right _ _)
    obtain ⟨made, hbody, hmade⟩ := (splitBody_eq href1 _).2 hwants
    rw [if_neg hname1, hbody, bind_some, hmade take_left, drop_left] at hnext
    rw [archive_cons]
    exact Turns.Finishes.more hnext (ih hok2 hname2 href2 (padding e.body.length))

/-- A symlink that is too long is in the way. -/
theorem not_refused_of_finishes {es : List Ent} (hok : ∀ e ∈ es, e.Ok)
    (hname : ∀ e ∈ es, e.name ≠ trailer)
    {s : ℕ} {made : List Made} (h : Finishes (s, zeros s ++ archive es) made) : ∀ e ∈ es,
      ¬ e.Refused := by
  induction es generalizing s made with
  | nil => exact fun _ he => absurd he not_mem_nil
  | cons e es ih =>
    obtain ⟨hok1, hok2⟩ := forall_mem_cons.mp hok
    obtain ⟨hname1, hname2⟩ := forall_mem_cons.mp hname
    have hnext := next_entry hok1 s (e.body ++ (zeros (padding e.body.length) ++ archive es))
    rw [if_neg hname1] at hnext
    rw [archive_cons] at h
    by_cases href : e.Refused
    · rw [splitBody_refused href, bind_none] at hnext
      exact absurd ⟨made, h⟩ (Turns.not_finishes hnext)
    · have hwants : e.wants ≤ (e.body ++ (zeros (padding e.body.length) ++ archive es)).length :=
        e.wants_le.trans (by rw [length_append]; exact Nat.le_add_right _ _)
      obtain ⟨made1, hbody, -⟩ := (splitBody_eq href _).2 hwants
      rw [hbody, bind_some, drop_left] at hnext
      obtain ⟨outs, -, hrest⟩ := (Turns.finishes_iff_of_next hnext).mp h
      exact forall_mem_cons.mpr ⟨href, ih hok2 hname2 hrest⟩

/-- **What was packed comes out again**, if none of it is called like the last entry and no
symlink is too long. -/
theorem extract_create {entries : List (Name × Node)} {bytes : List UInt8} {env : Env}
    (h : cmdCreate entries = .ok bytes) (henv : env.Benign)
    (hname : ∀ e ∈ entriesOf MAXDEPTH [] entries, e.name ≠ trailer)
    (href : ∀ e ∈ entriesOf MAXDEPTH [] entries, ¬ e.Refused) :
    ∃ st, cmdExtract env bytes = some (.ok st) ∧
      st.made = (entriesOf MAXDEPTH [] entries).map Ent.made := by
  obtain ⟨rfl, hok⟩ := cmdCreate_eq h
  have hfin := finishes_archive hok hname href 0
  exact cmdExtract_of_finishes hfin henv

end Minibase.Cpio
