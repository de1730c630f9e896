import Minibase.Cpio.Extract

/-!
# What an archive says

What comes out of an archive is a matter of the bytes that were not taken yet (`Cpio.Ext.rest`)
and of how many of them are left over from the entry before. `Cpio.next` reads one entry off
them, and `Cpio.Finishes` goes on until there is nothing more. An extraction that finishes has
read the archive like this, and it finishes if the archive can be read and nothing else fails
(`Cpio.cmdExtract_finishes`, `Cpio.cmdExtract_of_finishes`).
-/

namespace Minibase.Cpio

open List Option Ext

/-- The bytes of the archive that were not taken yet. -/
def Ext.rest (st : Ext) : List UInt8 := st.hwin.tail ++ st.stream

/-- Nothing fails that the archive has no part in. -/
structure Env.Benign (env : Env) : Prop where
  read : ∀ k, MAX_RW ≤ env.read k
  write : ∀ k, MAX_RW ≤ env.write k
  sendfile : ∀ k, 0 ≤ env.sendfile k
  unlinkat : ∀ k, 0 ≤ env.unlinkat k ∨ env.unlinkat k = -ENOENT
  openat : ∀ k, 0 ≤ env.openat k
  symlinkat : ∀ k, 0 ≤ env.symlinkat k
  mkdirat : ∀ k, 0 ≤ env.mkdirat k ∨ env.mkdirat k = -EEXIST

/-! ### Reading one entry -/

/-- A header and what is after it, or nothing at the end. -/
def splitHead (skip : ℕ) (rest : List UInt8) : Option (Option (List UInt8 × List UInt8)) :=
  if rest = [] then some none
  else if rest.length < HDRSIZE + skip then none
  else some (some ((rest.drop skip).take HDRSIZE, rest.drop (HDRSIZE + skip)))

/-- The bytes of a name and what is after them. -/
def splitName (namesize : ℕ) (rest : List UInt8) : Option (List UInt8 × List UInt8) :=
  if namesize > PAGE then none
  else if rest.length < nameRoom namesize then none
  else some (rest.take namesize, rest.drop (nameRoom namesize))

/-- The name in these bytes: there is one zero, at the end. -/
def nameIn (bytes : List UInt8) : Option (List UInt8) :=
  if (string bytes).length + 1 = bytes.length then some (string bytes) else none

/-- What is left after an entry, and what is made of it. -/
def splitBody (filesize mode : ℕ) (path rest : List UInt8) : Option (List UInt8 × List Made) :=
  if mode &&& S_IFMT = S_IFREG then
    some (rest.drop filesize, [.file path (fileMode mode) (rest.take filesize)])
  else if mode &&& S_IFMT = S_IFLNK then
    if filesize > PAGE then none
    else if rest.length < filesize then none
    else some (rest.drop filesize, [.link path (string (rest.take filesize))])
  else if filesize ≠ 0 then none
  else if mode &&& S_IFMT = S_IFDIR then some (rest, [.dir path])
  else some (rest, [])

/-- What of an archive there is to read: so many bytes that are left over, and the rest. -/
abbrev View := ℕ × List UInt8

/-- The entry with this header: what there is to read after it, and what is made of it. It
is nothing if this is the last one. -/
def entryAt (hdr rest : List UInt8) : Option (Option (View × List Made)) := do
  let (namesize, filesize, mode) ← hdrFields hdr
  let (bytes, rest) ← splitName namesize rest
  let name ← nameIn bytes
  if name = trailer then some none
  else do
    let path ← (validateName 0 name).toOption
    let (rest, made) ← splitBody filesize mode path rest
    some (some ((padding filesize, rest), made))

/-- **The next entry**, where `entry` says what a header stands for with what is after it;
nothing at the end of the archive. -/
def nextBy {γ : Type} (entry : List UInt8 → List UInt8 → Option (Option (View × List γ)))
    (v : View) :
    Option (Option (View × List γ)) := do
  match ← splitHead v.1 v.2 with
  | none => some none
  | some (hdr, rest) => entry hdr rest

/-- The next entry, with what is made of it. -/
def next : View → Option (Option (View × List Made)) := nextBy entryAt

/-- **The archive can be read to its end**, and this is made. -/
abbrev Finishes (v : View) (made : List Made) : Prop := Turns.Finishes next v made

/-- What there is to read. -/
def Ext.view (st : Ext) : View := (st.skip, st.rest)

variable {env : Env} {st : Ext} {n need namesize filesize mode : ℕ} {path : List UInt8}

/-! ### The window -/

lemma length_tail (w : Hwin) : w.tail.length = w.head.length - w.hptr := length_drop

lemma grabCached_eq (n : ℕ) (st : Ext) :
    ∃ w : Hwin, grabCached n st = (min n st.hwin.tail.length, { st with hwin := w }) ∧
      w.head = st.hwin.head ∧ w.tail = st.hwin.tail.drop n ∧
      w.hptr = st.hwin.hptr + min n st.hwin.tail.length := by
  have hlen := length_tail st.hwin
  rw [grabCached]
  split_ifs with h
  · have hzero : st.hwin.tail.length = 0 := by omega
    refine ⟨st.hwin, ?_, rfl, ?_, ?_⟩
    · rw [hzero, Nat.min_zero]
    · rw [length_eq_zero_iff.mp hzero, drop_nil]
    · rw [hzero, Nat.min_zero, add_zero]
  · have hmin : min (st.hwin.head.length - st.hwin.hptr) n = min n st.hwin.tail.length := by
      rw [hlen, Nat.min_comm]
    refine ⟨_, Prod.ext hmin rfl, rfl, ?_, congrArg (st.hwin.hptr + ·) hmin⟩
    show st.hwin.head.drop (st.hwin.hptr + min (st.hwin.head.length - st.hwin.hptr) n) = _
    rw [hmin, ← drop_drop]
    show st.hwin.tail.drop (min n st.hwin.tail.length) = st.hwin.tail.drop n
    rcases Nat.le_total st.hwin.tail.length n with hle | hle
    · rw [min_eq_right hle, drop_length, drop_eq_nil_of_le hle]
    · rw [min_eq_left hle]

/-- What is in the window is moved to its start. -/
theorem shiftBuffer_eq (st : Ext) :
    ∃ w : Hwin, shiftBuffer st = (st.hwin.tail.length, { st with hwin := w }) ∧
      w.tail = st.hwin.tail ∧ w.hptr = 0 := by
  have hlen := length_tail st.hwin
  rw [shiftBuffer]
  split_ifs with h
  · have hzero : st.hwin.tail.length = 0 := by omega
    refine ⟨_, by rw [hzero], ?_, rfl⟩
    rw [length_eq_zero_iff.mp hzero]
    rfl
  · exact ⟨_, Prod.ext hlen.symm rfl, rfl, rfl⟩

/-! ### Calls that move something -/

variable {o : Outcomes} {p : Prop}

lemma moved_le_length : (moved o st n).toNat ≤ st.stream.length := by
  rw [moved]
  split_ifs <;> omega

/-- Nothing is moved at the end only. -/
theorem moved_eq_zero (h : moved o st n = 0) : st.stream = [] := by
  rw [moved] at h
  split_ifs at h
  · omega
  · exact length_eq_zero_iff.mp (by omega)

/-- A call that takes as much as it is given. -/
theorem ret_eq (ho : ∀ k, MAX_RW ≤ o k) (hn : n ≤ MAX_RW) (k : ℕ) : o.ret k n = n := by
  rw [ret_of_works ho, Int.min_eq_left hn]

lemma moved_eq (ho : ∀ k, MAX_RW ≤ o k) (hpos : 0 < n) (hn : n ≤ MAX_RW) :
    moved o st n = min n st.stream.length := by
  rw [moved, ret_eq ho hn]
  split_ifs <;> omega

lemma moved_nonneg (ho : ∀ k, 0 ≤ o k) : 0 ≤ moved o st n := by
  have hret : 0 ≤ o.ret st.clock n := by
    have hk := ho st.clock
    rw [Outcomes.ret, MAX_RW]
    omega
  rw [moved]
  split_ifs <;> omega

/-- **The window after it was filled up**, if `need` bytes were wanted. -/
structure Filled (env : Env) (need : ℕ) (st st' : Ext) : Prop where
  rest : st'.rest = st.rest
  hptr : st'.hwin.hptr = st.hwin.hptr
  skip : st'.skip = st.skip
  made : st'.made = st.made
  /-- The window is empty at the end only. -/
  nil : st'.hwin.tail = [] → st'.rest = []
  /-- What is wanted is there if the archive has it. -/
  enough : env.Benign → need ≤ st.rest.length → need ≤ st'.hwin.tail.length

/-- **Filling up** goes well if there is room for what is wanted. -/
theorem fill_agrees (hneed : 0 < need) (hroom : st.hwin.hptr + need ≤ HLEN) :
    Agrees env.Benign (if st.hwin.tail.length < need then fillBuffer env st else .ok st) (some ())
      fun st' _ => Filled env need st st' := by
  have hlen := length_tail st.hwin
  have hptr := st.hwin.hptr_le
  by_cases hless : st.hwin.tail.length < need
  · rw [if_pos hless, fillBuffer]
    -- what is wanted fits behind `hptr`, so the window is not full if it is not there
    have hfit : ¬ st.hwin.head.length ≥ HLEN := by omega
    have hleft : 0 < HLEN - st.hwin.head.length := by omega
    have hmax : (HLEN - st.hwin.head.length : ℕ) ≤ MAX_RW := by
      have h1 : HLEN = 8192 := rfl
      rw [MAX_RW]
      omega
    rw [dif_neg hfit]
    dsimp only
    split_ifs with hret
    · -- the read fails
      refine Agrees.never _ fun hbenign => ?_
      rw [moved_eq hbenign.read hleft hmax] at hret
      omega
    · obtain ⟨got, hgot⟩ : ∃ got, (moved env.read st (HLEN - st.hwin.head.length)).toNat = got :=
        ⟨_, rfl⟩
      have htail : (st.hwin.head ++ st.stream.take got).drop st.hwin.hptr =
          st.hwin.tail ++ st.stream.take got := drop_append_of_le_length hptr
      refine Agrees.ok ⟨?_, rfl, rfl, rfl, ?_, ?_⟩
      · show (st.hwin.head ++ st.stream.take _).drop st.hwin.hptr ++ st.stream.drop _ = _
        rw [hgot, htail, append_assoc, take_append_drop, rest]
      · show (st.hwin.head ++ st.stream.take _).drop st.hwin.hptr = [] →
          (st.hwin.head ++ st.stream.take _).drop st.hwin.hptr ++ st.stream.drop _ = []
        rw [hgot, htail]
        intro hnil
        have hstream : st.stream = [] := by
          rcases take_eq_nil_iff.mp (append_eq_nil_iff.mp hnil).2 with h0 | h0
          · exact moved_eq_zero (by omega : moved env.read st (HLEN - st.hwin.head.length) = 0)
          · exact h0
        rw [hnil, hstream, nil_append, drop_nil]
      · intro hbenign hrest
        show need ≤ ((st.hwin.head ++ st.stream.take _).drop st.hwin.hptr).length
        have hall : moved env.read st _ = _ := moved_eq hbenign.read hleft hmax
        rw [rest, length_append] at hrest
        rw [hgot, htail, length_append, length_take]
        omega
  · rw [if_neg hless]
    refine Agrees.ok ⟨rfl, rfl, rfl, rfl, ?_, fun _ _ => Nat.le_of_not_lt hless⟩
    intro hnil
    rw [hnil] at hless
    exact absurd hneed hless

/-! ### Headers and names -/

/-- Taking what is there out of a window that was filled up. -/
theorem Filled.grab {st' : Ext} (h : Filled env need st st') :
    ∃ w : Hwin, ∃ got, grabCached need st' = (got, { st' with hwin := w }) ∧ got ≤ need ∧
      got ≤ st.rest.length ∧
      w.head = st'.hwin.head ∧ w.hptr = st.hwin.hptr + got ∧ (got = 0 → need = 0 ∨ st.rest = []) ∧
      (got = need → need ≤ st'.hwin.tail.length ∧ w.tail ++ st'.stream = st.rest.drop need) ∧
      (got < need → env.Benign → st.rest.length < need) := by
  obtain ⟨w, hgrab, hhead, htail, hptr⟩ := grabCached_eq need st'
  refine ⟨w, _, hgrab, Nat.min_le_left _ _, ?_, hhead, by rw [hptr, h.hptr], ?_, ?_, ?_⟩
  · rw [← h.rest, Ext.rest, length_append]
    omega
  · intro hzero
    rcases Nat.eq_zero_or_pos need with hn | hn
    · exact .inl hn
    · refine .inr (h.rest ▸ h.nil (length_eq_zero_iff.mp ?_))
      omega
  · intro hall
    have hle : need ≤ st'.hwin.tail.length := by omega
    refine ⟨hle, ?_⟩
    rw [← h.rest, Ext.rest, drop_append_of_le_length hle, htail]
  · intro hless hbenign
    by_contra hge
    have := h.enough hbenign (Nat.not_lt.mp hge)
    omega

/-- **`read_head`** finds the header where it is. -/
theorem readHead_agrees (env : Env) (st : Ext) :
    Agrees env.Benign (readHead env st) (splitHead st.skip st.rest) fun a b =>
      b = a.1.map (fun hdr => (hdr, a.2.rest)) ∧ a.2.made = st.made ∧ a.2.skip = 0 ∧
        a.2.hwin.hptr ≤ HDRSIZE + st.skip := by
  obtain ⟨w, hshift, htail, hptr⟩ := shiftBuffer_eq st
  obtain ⟨st1, hst1⟩ : ∃ st1 : Ext, { st with
    hwin := w, skip := 0, skip_lt := Nat.zero_lt_succ 3, off := st.off + st.reclen, reclen := 0 } =
      st1 :=
    ⟨_, rfl⟩
  have htail1 : st1.hwin.tail = st.hwin.tail := by rw [← hst1, htail]
  have hptr1 : st1.hwin.hptr = 0 := by rw [← hst1, hptr]
  have hrest1 : st1.rest = st.rest := by
    rw [rest, htail1, ← hst1]
    rfl
  have hmade1 : st1.made = st.made := by rw [← hst1]
  have hskip1 : st1.skip = 0 := by rw [← hst1]
  have hroom : st1.hwin.hptr + (HDRSIZE + st.skip) ≤ HLEN := by
    have h1 := st.skip_lt
    have h2 : HLEN = 8192 := rfl
    have h3 : HDRSIZE = 110 := rfl
    omega
  have hpos : 0 < HDRSIZE + st.skip := Nat.add_pos_left (by decide) _
  rw [readHead, hshift]
  dsimp only
  rw [hst1, ← htail1]
  refine Agrees.bind (y := some ()) (g := fun _ => splitHead st.skip st.rest)
    (fill_agrees hpos hroom)
    fun st2 _ hfill => ?_
  obtain ⟨w2, got, hgrab, hle, hless, hhead, hptr2, hzero, hall, hshort⟩ := hfill.grab
  rw [hrest1] at hless hzero hall hshort
  rw [hgrab]
  split_ifs with h0 h1
  · -- the end of the archive
    have hrest := (hzero h0).resolve_left (ne_of_gt hpos)
    rw [splitHead, if_pos hrest]
    refine Agrees.ok ⟨rfl, hfill.made.trans hmade1, hfill.skip.trans hskip1, ?_⟩
    show w2.hptr ≤ _
    omega
  · -- some bytes, but not a header
    intro hbenign
    have hlt := hshort h1 hbenign
    have hne : st.rest ≠ [] := by
      intro hnil
      rw [hnil] at hless
      exact h0 (Nat.le_zero.mp hless)
    rw [splitHead, if_neg hne, if_pos hlt]
  · have hgot : got = HDRSIZE + st.skip := by omega
    obtain ⟨hin, hdrop⟩ := hall hgot
    have hne : st.rest ≠ [] := by
      intro hnil
      rw [hnil] at hless
      exact h0 (Nat.le_zero.mp hless)
    have htake : (w2.head.drop st.skip).take HDRSIZE = (st.rest.drop st.skip).take HDRSIZE := by
      have htail2 : st2.hwin.tail = st2.hwin.head := by
        rw [Hwin.tail, hfill.hptr, hptr1, drop_zero]
      have hwhole : st.rest = st2.hwin.head ++ st2.stream := by
        rw [← hrest1, ← hfill.rest, rest, htail2]
      rw [htail2] at hin
      rw [hhead, hwhole, drop_append_of_le_length (by omega), take_append_of_le_length]
      rw [length_drop]
      omega
    rw [splitHead, if_neg hne, if_neg (by omega)]
    refine Agrees.ok ⟨?_, hfill.made.trans hmade1, hfill.skip.trans hskip1, ?_⟩
    · show _ = some ((w2.head.drop st.skip).take HDRSIZE, w2.tail ++ st2.stream)
      rw [htake, hdrop]
    · show w2.hptr ≤ _
      omega

/-- The name is not longer than the room it takes. -/
theorem le_nameRoom (namesize : ℕ) : namesize ≤ nameRoom namesize := by
  have hle := le_align4 (2 + namesize)
  rw [nameRoom]
  omega

/-- **`read_name`** leaves the name in the window, where it was to be. -/
theorem readName_agrees (hptr : st.hwin.hptr ≤ HDRSIZE + 3) :
    Agrees env.Benign (readName env namesize st) (splitName namesize st.rest) fun st' b =>
      b = ((st'.hwin.head.drop st.hwin.hptr).take namesize, st'.rest) ∧ st'.made = st.made ∧
        st'.skip = st.skip ∧ namesize ≤ PAGE := by
  rw [readName, splitName]
  refine Agrees.ite Iff.rfl (fun _ => Agrees.error _) fun hlong => ?_
  have hpos : 0 < nameRoom namesize := by
    rw [nameRoom, align4]
    omega
  have hroom : st.hwin.hptr + nameRoom namesize ≤ HLEN := by
    have h1 : HLEN = 8192 := rfl
    have h2 : HDRSIZE = 110 := rfl
    have h3 : PAGE = 4096 := rfl
    have h4 : nameRoom namesize ≤ namesize + 5 := by
      rw [nameRoom, align4]
      omega
    omega
  have hleft : (if st.hwin.hptr ≥ st.hwin.head.length then 0 else
      st.hwin.head.length - st.hwin.hptr) = st.hwin.tail.length := by
    rw [length_tail]
    split_ifs <;> omega
  dsimp only
  rw [hleft]
  refine Agrees.bind (y := some ())
    (g := fun _ => if st.rest.length < nameRoom namesize then none else _)
    (fill_agrees hpos hroom) fun st2 _ hfill => ?_
  obtain ⟨w2, got, hgrab, hle, hless, hhead, hptr2, -, hall, hshort⟩ := hfill.grab
  rw [hgrab]
  split_ifs with h0 h1 h1
  · exact Agrees.error _
  · -- one read did not do, though the archive has the name
    exact fun hbenign => absurd (hshort h0 hbenign) h1
  · omega
  · obtain ⟨hin, hdrop⟩ := hall (by omega)
    have htake : (w2.head.drop st.hwin.hptr).take namesize = st.rest.take namesize := by
      have htail2 : w2.head.drop st.hwin.hptr =
        st2.hwin.tail := by rw [hhead, Hwin.tail, hfill.hptr]
      rw [htail2, ← hfill.rest, rest,
        take_append_of_le_length ((le_nameRoom namesize).trans hin)]
    refine Agrees.ok ⟨?_, hfill.made, hfill.skip, Nat.not_lt.mp hlong⟩
    show (st.rest.take namesize, _) = ((w2.head.drop st.hwin.hptr).take namesize,
      w2.tail ++ st2.stream)
    rw [htake, hdrop]

lemma checkMagic_agrees (st : Ext) (hdr : List UInt8) :
    Agrees p (checkMagic st hdr) (if HasMagic hdr then some () else none) fun _ _ => True := by
  rw [checkMagic]
  split_ifs with h1 h2 h3 h4 h4
  · exact Agrees.ok trivial
  · exact absurd (.inl h1) h2
  · exact Agrees.ok trivial
  · exact absurd (.inr h3) h4
  · exact absurd h4 (not_or.mpr ⟨h1, h3⟩)
  · exact Agrees.error _

lemma parseSize_agrees (st : Ext) (hdr : List UInt8) (pos : ℕ) :
    Agrees p (parseSize st hdr pos) (number hdr pos) Eq := by
  rw [parseSize]
  rcases number hdr pos with - | r
  · exact Agrees.error _
  · exact Agrees.ok rfl

/-- The numbers of a header, one after the other. -/
theorem sizeFields_agrees {α β : Type} {hdr : List UInt8} {f : ℕ → ℕ → Except Failure α}
    {g : ℕ → ℕ → Option β} {R : α → β → Prop}
    (h : ∀ filesize namesize, Agrees p (f filesize namesize) (g filesize namesize) R) :
    Agrees p (do
        checkMagic st hdr
        let filesize ← parseSize st hdr FILESIZE
        let namesize ← parseSize st hdr NAMESIZE
        f filesize namesize)
      (do
        let (namesize, filesize) ← sizeFields hdr
        g filesize namesize) R := by
  have hfields : (do
      let (namesize, filesize) ← sizeFields hdr
      g filesize namesize) =
      (if HasMagic hdr then some () else none) >>= fun _ =>
        number hdr FILESIZE >>= fun filesize => number hdr NAMESIZE >>= g filesize := by
    rw [sizeFields]
    split_ifs
    · rcases number hdr FILESIZE with - | filesize
      · rfl
      rcases number hdr NAMESIZE with - | namesize
      · rfl
      · rfl
    · rfl
  rw [hfields]
  refine Agrees.bind (checkMagic_agrees st hdr) fun _ _ _ => ?_
  refine Agrees.bind (parseSize_agrees st hdr FILESIZE) ?_
  rintro filesize _ rfl
  refine Agrees.bind (parseSize_agrees st hdr NAMESIZE) ?_
  rintro namesize _ rfl
  exact h filesize namesize

/-- The same with `mode`. -/
theorem hdrFields_agrees {α β : Type} {hdr : List UInt8} {f : ℕ → ℕ → ℕ → Except Failure α}
    {g : ℕ → ℕ → ℕ → Option β} {R : α → β → Prop}
    (h : ∀ filesize namesize mode,
      Agrees p (f filesize namesize mode) (g filesize namesize mode) R) :
    Agrees p (do
        checkMagic st hdr
        let filesize ← parseSize st hdr FILESIZE
        let namesize ← parseSize st hdr NAMESIZE
        let mode ← parseSize st hdr MODE
        f filesize namesize mode)
      (do
        let (namesize, filesize, mode) ← hdrFields hdr
        g filesize namesize mode) R := by
  have hfields : (do
      let (namesize, filesize, mode) ← hdrFields hdr
      g filesize namesize mode) = (do
      let (namesize, filesize) ← sizeFields hdr
      number hdr MODE >>= g filesize namesize) := by
    rw [hdrFields]
    rcases sizeFields hdr with - | ⟨namesize, filesize⟩
    · rfl
    rcases number hdr MODE with - | mode
    · rfl
    · rfl
  rw [hfields]
  refine sizeFields_agrees (g := fun filesize namesize => number hdr MODE >>= g filesize namesize)
    fun filesize namesize => ?_
  refine Agrees.bind (parseSize_agrees st hdr MODE) ?_
  rintro mode _ rfl
  exact h filesize namesize mode

lemma holds_memOf (bs : List UInt8) : (memOf bs).Holds 0 bs := Mem.holds_store _ 0 bs

/-- Comparing a name with another, each with its zero. -/
theorem strncmp_name {name other : List UInt8} (hname : 0 ∉ name) (hother : 0 ∉ other) :
    strncmp (memOf (name ++ [0])) (memOf (other ++ [0])) (name.length + 1) 0 0 = 0 ↔
      name = other := by
  rw [strncmp_eq_zero_comm, strncmp_eq_zero_of_lt hname (holds_memOf _) (Nat.lt_succ_self _)]
  constructor
  · intro h
    exact Mem.Holds.string_eq hname hother h (holds_memOf _)
  · rintro rfl
    exact holds_memOf _

variable {bytes : List UInt8}

/-- **`check_name`** knows the last name. -/
theorem checkName_agrees (hlen : bytes.length ≤ PAGE) :
    Agrees p (checkName st bytes) (nameIn bytes) fun cmp name =>
      name = string bytes ∧ (cmp = 0 ↔ name = trailer) := by
  have hle : (string bytes).length ≤ bytes.length := ( takeWhile_prefix _).length_le
  rw [checkName, nameIn]
  dsimp only
  rw [if_neg (Nat.not_lt.mpr hlen)]
  split_ifs with h1 h2 h2 h3 h3
  · omega
  · exact Agrees.error _
  · omega
  · exact Agrees.error _
  · refine Agrees.ok ⟨rfl, ?_⟩
    have hcmp := strncmp_name (not_mem_string bytes) (show 0 ∉ trailer by decide)
    rwa [string_snoc h3, h3] at hcmp
  · omega

/-! ### Bodies -/

lemma removeExisting_agrees (env : Env) (name : List UInt8) (st : Ext) :
    Agrees env.Benign (removeExisting env name st) (some ()) fun st' _ =>
      ∃ c, st' = { st with clock := c } := by
  rw [removeExisting]
  split_ifs with h1 h2
  · exact Agrees.ok ⟨_, rfl⟩
  · refine Agrees.never _ fun hbenign => ?_
    rcases hbenign.unlinkat st.clock with h | h
    · exact h1 h
    · exact h2.1 h
  · exact Agrees.ok ⟨_, rfl⟩

lemma openOutput_agrees (env : Env) (name : List UInt8) (st : Ext) :
    Agrees env.Benign (openOutput env name st) (some ()) fun st' _ =>
      ∃ c, st' = { st with clock := c } := by
  rw [openOutput]
  refine Agrees.bind (g := fun _ => some ()) (removeExisting_agrees env name st) ?_
  rintro _ _ ⟨c, rfl⟩
  dsimp only
  split_ifs with h
  · exact Agrees.never _ fun hbenign => absurd (hbenign.openat c) (Int.not_le.mpr h)
  · exact Agrees.ok ⟨_, rfl⟩

/-- What is in the window goes out in one write. -/
theorem writeCached_agrees (env : Env) (filesize : ℕ) (st : Ext) :
    Agrees env.Benign (writeCached env filesize st) (some ()) fun a _ =>
      a.1 = st.hwin.tail.take filesize ∧
        ∃ w c, a.2 = { st with hwin := w, clock := c } ∧ w.tail = st.hwin.tail.drop filesize := by
  obtain ⟨block, hblock⟩ : ∃ block, (if filesize < HLEN then filesize else HLEN) = block := ⟨_, rfl⟩
  have hlen := length_tail st.hwin
  have hmax := st.hwin.head_le
  obtain ⟨w, hgrab, -, htail, -⟩ := grabCached_eq block st
  have hsame : min block st.hwin.tail.length = min filesize st.hwin.tail.length := by
    rw [← hblock]
    split_ifs <;> omega
  have htake : st.hwin.tail.take (min filesize st.hwin.tail.length) =
    st.hwin.tail.take filesize := by
    rw [← take_eq_take_min]
  have hdrop : w.tail = st.hwin.tail.drop filesize := by
    rw [htail, drop_eq_drop_min, hsame, ← drop_eq_drop_min]
  have hall : env.Benign → env.write.ret st.clock (min filesize st.hwin.tail.length) =
      (min filesize st.hwin.tail.length : ℕ) := by
    intro hbenign
    refine ret_eq hbenign.write ?_ st.clock
    have h1 : HLEN = 8192 := rfl
    rw [MAX_RW]
    omega
  -- the block is cut to the size of the window, which has no more than that
  rw [writeCached, hblock]
  rw [hgrab, hsame]
  dsimp only
  split_ifs with h0 h1 h2
  · refine Agrees.ok ⟨?_, w, st.clock, rfl, hdrop⟩
    rw [← htake, h0, take_zero]
  · refine Agrees.never _ fun hbenign => ?_
    rw [hall hbenign] at h1
    omega
  · exact Agrees.never _ fun hbenign => h2 (hall hbenign)
  · exact Agrees.ok ⟨htake, w, _, rfl, hdrop⟩

/-- **`stream_rest`** takes what there is, in however many calls. -/
theorem streamFrom_agrees {k left : ℕ} (hk : left ≤ k) :
    Agrees env.Benign (streamFrom env k left st) (some ()) fun a _ =>
      a.1 = st.stream.take left ∧ ∃ c, a.2 =
        { st with stream := st.stream.drop left, clock := c } := by
  induction k generalizing left st with
  | zero =>
    obtain rfl := Nat.le_zero.mp hk
    exact Agrees.ok ⟨rfl, st.clock, rfl⟩
  | succ k ih =>
    rw [streamFrom]
    by_cases h0 : left = 0
    · rw [if_pos h0, h0]
      exact Agrees.ok ⟨rfl, st.clock, rfl⟩
    rw [if_neg h0]
    obtain ⟨sfb, hsfb⟩ : ∃ sfb, (if left < 1 <<< 30 then left else 1 <<< 30) = sfb := ⟨_, rfl⟩
    have hpos : 0 < sfb := by
      rw [← hsfb]
      split_ifs
      · exact pos_of_ne_zero h0
      · decide
    have hsmall : sfb ≤ left := by
      rw [← hsfb]
      split_ifs with h
      · exact le_refl _
      · exact Nat.not_lt.mp h
    rw [hsfb]
    dsimp only
    split_ifs with h1 h2
    · exact Agrees.never _ fun hbenign => absurd (moved_nonneg hbenign.sendfile) (Int.not_le.mpr h1)
    · -- the end of the archive, and nobody asks what is left
      have hstream := moved_eq_zero h2
      refine Agrees.ok ⟨?_, st.clock + 1, ?_⟩
      · rw [hstream, take_nil]
      · rw [hstream, drop_nil]
    · obtain ⟨got, hgot⟩ : ∃ got, (moved env.sendfile st sfb).toNat = got := ⟨_, rfl⟩
      have hle : got ≤ sfb := hgot ▸ moved_le hpos
      have hsum : left = got + (left - got) := by omega
      rw [hgot]
      refine Agrees.bind (g := fun _ => some ()) (ih (by omega)) ?_
      rintro ⟨bytes, st'⟩ _ ⟨hbytes, c, hst'⟩
      refine Agrees.ok ⟨?_, c, ?_⟩
      · rw [hbytes]
        conv_rhs => rw [hsum, take_add]
      · rw [hst', drop_drop, ← hsum]

/-- What the body of an entry has come to. -/
structure Became (st st' : Ext) (b : List UInt8 × List Made) : Prop where
  rest : b.1 = st'.rest
  made : st'.made = st.made ++ b.2
  skip : st'.skip = st.skip

/-- **`extract_file`** takes whatever there is. -/
theorem extractFile_agrees (env : Env) (filesize : ℕ) (name : List UInt8) (mode : ℕ) (st : Ext) :
    Agrees env.Benign (extractFile env filesize name mode st)
      (some (st.rest.drop filesize, [.file name (fileMode mode) (st.rest.take filesize)]))
      (Became st) := by
  rw [extractFile]
  refine Agrees.bind (y := some ()) (g := fun _ => some _) (openOutput_agrees env name st) ?_
  rintro _ _ ⟨c, rfl⟩
  refine Agrees.bind (y := some ()) (g := fun _ => some _) (writeCached_agrees env filesize _) ?_
  rintro ⟨cached, _⟩ _ ⟨hcached, w, c', rfl, htail⟩
  dsimp only at hcached htail ⊢
  split_ifs with hall
  · -- all of it was in the window
    have hin : filesize ≤ st.hwin.tail.length := by
      rw [hcached, length_take] at hall
      omega
    refine Agrees.ok ⟨?_, ?_, rfl⟩
    · show _ = w.tail ++ st.stream
      rw [htail, rest, drop_append_of_le_length hin]
    · show st.made ++ [.file name (fileMode mode) cached] = _
      rw [hcached, rest, take_append_of_le_length hin]
  · -- the window is empty by now
    have hin : st.hwin.tail.length ≤ filesize := by
      rw [hcached, length_take] at hall
      omega
    have hlen : cached.length = st.hwin.tail.length := by
      rw [hcached, length_take, min_eq_right hin]
    rw [hlen]
    refine Agrees.bind (y := some ()) (g := fun _ => some _) (streamFrom_agrees (le_refl _)) ?_
    rintro ⟨streamed, _⟩ _ ⟨hstreamed, c2, rfl⟩
    dsimp only at hstreamed ⊢
    refine Agrees.ok ⟨?_, ?_, rfl⟩
    · show _ = w.tail ++ st.stream.drop (filesize - st.hwin.tail.length)
      rw [htail, rest, drop_append]
    · show st.made ++ [.file name (fileMode mode) (cached ++ streamed)] = _
      rw [hcached, hstreamed, rest, take_append]

/-- One read has to do for the end of a symlink. -/
theorem readContent_agrees {size : ℕ} (hpos : 0 < size) (hsize : size ≤ PAGE) (st : Ext) :
    Agrees env.Benign (readContent env size st) (if st.stream.length < size then none else some ())
      fun a _ => a.1 = st.stream.take size ∧
        ∃ c, a.2 = { st with stream := st.stream.drop size, clock := c } := by
  have hall : env.Benign → moved env.read st size = min size st.stream.length := by
    intro hbenign
    refine moved_eq hbenign.read hpos ?_
    have h1 : PAGE = 4096 := rfl
    rw [MAX_RW]
    omega
  have hle : (moved env.read st size).toNat ≤ st.stream.length := moved_le_length
  rw [readContent]
  split_ifs with h1 h2 h2 h3 h3
  · exact Agrees.error _
  · refine Agrees.never _ fun hbenign => ?_
    rw [hall hbenign] at h1
    omega
  · exact Agrees.error _
  · refine Agrees.never _ fun hbenign => h2 ?_
    rw [hall hbenign]
    omega
  · omega
  · have hgot : (moved env.read st size).toNat = size := by omega
    exact Agrees.ok ⟨by rw [hgot], st.clock + 1, by rw [hgot]⟩

/-- **`extract_link`** takes all of it or nothing. -/
theorem extractLink_agrees (env : Env) (filesize : ℕ) (name : List UInt8) (st : Ext) :
    Agrees env.Benign (extractLink env filesize name st)
      (if filesize > PAGE then none
      else if st.rest.length < filesize then none
      else some (st.rest.drop filesize, [.link name (string (st.rest.take filesize))]))
      (Became st) := by
  rw [extractLink]
  refine Agrees.ite Iff.rfl (fun _ => Agrees.error _) fun hpage => ?_
  obtain ⟨w, hgrab, -, htail, -⟩ := grabCached_eq filesize st
  have hcopy : copyCached filesize st = (st.hwin.tail.take filesize, { st with hwin := w }) := by
    rw [copyCached, hgrab]
    dsimp only
    rw [← take_eq_take_min]
  have hread : Agrees env.Benign (if (st.hwin.tail.take filesize).length < filesize then
        readContent env (filesize - (st.hwin.tail.take filesize).length) { st with hwin := w }
      else .ok ([], { st with hwin := w }))
      (if st.rest.length < filesize then none else some ()) fun a _ =>
        st.hwin.tail.take filesize ++ a.1 = st.rest.take filesize ∧
          ∃ w s c, a.2 = { st with hwin := w, stream := s, clock := c } ∧
            w.tail ++ s = st.rest.drop filesize := by
    have hlen : st.rest.length = st.hwin.tail.length + st.stream.length := length_append
    rw [length_take]
    by_cases h1 : st.hwin.tail.length < filesize
    · -- the end of it is not in the window
      have hmin : min filesize st.hwin.tail.length = st.hwin.tail.length := min_eq_right (by omega)
      have hshort : st.rest.length < filesize ↔
        st.stream.length < filesize - st.hwin.tail.length := by
        omega
      rw [hmin, if_pos h1, if_congr hshort rfl rfl]
      refine (readContent_agrees (by omega) (by omega) _).mono ?_
      rintro ⟨more, _⟩ _ ⟨hmore, c, rfl⟩
      refine ⟨?_, w, _, c, rfl, ?_⟩
      · rw [hmore, rest, take_append]
      · rw [htail, rest, drop_append]
    · have hmin : min filesize st.hwin.tail.length = filesize := min_eq_left (by omega)
      rw [hmin, if_neg (lt_irrefl _), if_neg (by omega)]
      refine Agrees.ok ⟨?_, w, st.stream, st.clock, rfl, ?_⟩
      · rw [append_nil, rest, take_append_of_le_length (by omega)]
      · rw [htail, rest, drop_append_of_le_length (by omega)]
  rw [hcopy]
  have hsplit : (if st.rest.length < filesize then none
      else some (st.rest.drop filesize, [Made.link name (string (st.rest.take filesize))])) =
      (if st.rest.length < filesize then none else some ()) >>= fun _ =>
        some (st.rest.drop filesize, [Made.link name (string (st.rest.take filesize))]) := by
    split_ifs
    · rfl
    · rfl
  rw [hsplit]
  refine Agrees.bind hread ?_
  rintro ⟨more, _⟩ _ ⟨hmore, w', s, c, rfl, hdrop⟩
  refine Agrees.bind (y := some ()) (g := fun _ => some _) (removeExisting_agrees env name _) ?_
  rintro _ _ ⟨c', rfl⟩
  dsimp only at hmore ⊢
  split_ifs with h
  · exact Agrees.never _ fun hbenign => absurd (hbenign.symlinkat c') (Int.not_le.mpr h)
  · refine Agrees.ok ⟨hdrop.symm, ?_, rfl⟩
    show st.made ++ [.link name (string (st.hwin.tail.take filesize ++ more))] = _
    rw [hmore]

/-- **`extract_dir`** -/
theorem extractDir_agrees (env : Env) (name : List UInt8) (st : Ext) :
    Agrees env.Benign (extractDir env name st) (some (st.rest, [.dir name])) (Became st) := by
  rw [extractDir]
  split_ifs with h1 h2
  · exact Agrees.ok ⟨rfl, rfl, rfl⟩
  · exact Agrees.ok ⟨rfl, rfl, rfl⟩
  · refine Agrees.never _ fun hbenign => ?_
    rcases hbenign.mkdirat st.clock with h | h
    · exact h1 h
    · exact h2 h

/-- **What an entry is** decides what is done with its body. -/
theorem extractType_agrees (env : Env) (filesize mode : ℕ) (name : List UInt8) (st : Ext) :
    Agrees env.Benign (extractType env filesize mode name st) (splitBody filesize mode name st.rest)
      (Became st) := by
  rw [extractType, splitBody]
  refine Agrees.ite Iff.rfl (fun _ => extractFile_agrees env filesize name mode st) fun _ => ?_
  refine Agrees.ite Iff.rfl (fun _ => extractLink_agrees env filesize name st) fun _ => ?_
  refine Agrees.ite Iff.rfl (fun _ => Agrees.error _) fun _ => ?_
  refine Agrees.ite Iff.rfl (fun _ => extractDir_agrees env name st) fun _ => ?_
  exact Agrees.ok ⟨rfl, (append_nil _).symm, rfl⟩

/-! ### Entries -/

/-- Where a name is has no part in whether it is refused. -/
theorem validateName_agrees (off : ℕ) (name : List UInt8) :
    Agrees p (ofFatal (validateName off name)) (validateName 0 name).toOption Eq := by
  rw [validateName, validateName]
  split
  · exact Agrees.error _
  · exact Agrees.ok rfl

/-- **`extract_single_entry`** does what the entry says. -/
theorem extractSingleEntry_agrees (hdr : List UInt8) (hptr : st.hwin.hptr ≤ HDRSIZE + 3) :
    Agrees env.Benign (extractSingleEntry env hdr st) (entryAt hdr st.rest)
      (Turns.Turned view made st) := by
  refine hdrFields_agrees (g := fun filesize namesize mode => do
    let (bytes, rest) ← splitName namesize st.rest
    let name ← nameIn bytes
    if name = trailer then some none
    else do
      let path ← (validateName 0 name).toOption
      let (rest, made) ← splitBody filesize mode path rest
      some (some ((padding filesize, rest), made))) fun filesize namesize mode => ?_
  refine Agrees.bind (readName_agrees hptr) ?_
  rintro st1 _ ⟨rfl, hmade, -, hpage⟩
  have hlen : ((st1.hwin.head.drop st.hwin.hptr).take namesize).length ≤ PAGE :=
    (length_take_le _ _).trans hpage
  refine Agrees.bind (checkName_agrees hlen) ?_
  rintro cmp _ ⟨rfl, hcmp⟩
  refine Agrees.ite hcmp (fun _ => Agrees.ok (Turns.Turned.last hmade)) fun _ => ?_
  refine Agrees.bind (validateName_agrees _ _) ?_
  rintro path _ rfl
  refine Agrees.bind (extractType_agrees env filesize mode path _) ?_
  rintro st2 ⟨rest, made⟩ ⟨hrest, hmade2, hskip⟩
  have hview : (padding filesize, rest) = st2.view := Prod.ext hskip.symm hrest
  dsimp only
  rw [hview]
  exact Agrees.ok (Turns.Turned.turn (hmade2.trans (congrArg (· ++ made) hmade)))

lemma splitBody_length {rest : List UInt8} {b : List UInt8 × List Made}
    (h : splitBody filesize mode path rest = some b) : b.1.length ≤ rest.length := by
  have hdrop : (rest.drop filesize).length ≤ rest.length := by
    rw [length_drop]
    exact Nat.sub_le _ _
  rw [splitBody] at h
  split_ifs at h <;> obtain rfl := Option.some.inj h
  · exact hdrop
  · exact hdrop
  · exact le_refl _
  · exact le_refl _

lemma splitName_length {rest : List UInt8} {b : List UInt8 × List UInt8}
    (h : splitName namesize rest = some b) : b.2.length ≤ rest.length := by
  rw [splitName] at h
  split_ifs at h
  cases h
  show (rest.drop _).length ≤ _
  rw [length_drop]
  exact Nat.sub_le _ _

lemma entryAt_length {hdr rest : List UInt8} {v : View} {made : List Made}
    (h : entryAt hdr rest = some (some (v, made))) : v.2.length ≤ rest.length := by
  obtain ⟨⟨namesize, filesize, mode⟩, -, h⟩ := bind_eq_some_iff.mp h
  obtain ⟨⟨bytes, rest1⟩, hname, h⟩ := bind_eq_some_iff.mp h
  obtain ⟨name, -, h⟩ := bind_eq_some_iff.mp h
  have hrest1 := splitName_length hname
  split_ifs at h
  · cases h
  · obtain ⟨path, -, h⟩ := bind_eq_some_iff.mp h
    obtain ⟨⟨rest2, made⟩, hbody, h⟩ := bind_eq_some_iff.mp h
    obtain rfl := (Prod.mk.inj (Option.some.inj (Option.some.inj h))).1
    exact (splitBody_length hbody).trans hrest1

/-- **Each entry takes some of the archive.** -/
theorem nextBy_length {γ : Type} {entry : List UInt8 → List UInt8 → Option (Option (View × List γ))}
    (hentry : ∀ {hdr rest v out}, entry hdr rest = some (some (v, out)) → v.2.length ≤ rest.length)
    {v v' : View} {out : List γ} (h : nextBy entry v = some (some (v', out))) :
    v'.2.length < v.2.length := by
  obtain ⟨head, hhead, h⟩ := bind_eq_some_iff.mp h
  rw [splitHead] at hhead
  split_ifs at hhead with h0 h1 <;> obtain rfl := Option.some.inj hhead
  · cases h
  · have hle := hentry h
    have hpos : 0 < HDRSIZE := by decide
    rw [length_drop] at hle
    omega

/-! ### Whole archives -/

/-- One turn of the loop of `extract_entries`: whether there may be more. -/
def round (env : Env) (st : Ext) : Except Failure (Bool × Ext) := do
  match ← readHead env st with
  | (none, st) => .ok (false, st)
  | (some hdr, st) => extractSingleEntry env hdr st

lemma extractEntries_eq (env : Env) (k : ℕ) (st : Ext) :
    extractEntries env k st = Turns.loop (round env) k st := by
  induction k generalizing st with
  | zero => rfl
  | succ k ih =>
    have hfun : extractEntries env k = Turns.loop (round env) k := funext ih
    rw [extractEntries, Turns.loop, round, hfun]
    rcases readHead env st with e | ⟨- | hdr, st1⟩
    · rfl
    · rfl
    · simp only [bind, Except.bind]
      rcases extractSingleEntry env hdr st1 with e | ⟨- | -, st2⟩
      · rfl
      · rfl
      · rfl

/-- **One turn** reads the next entry. -/
theorem round_agrees (env : Env) (st : Ext) :
    Agrees env.Benign (round env st) (next st.view) (Turns.Turned view made st) := by
  refine Agrees.bind (readHead_agrees env st) ?_
  rintro ⟨hdr, st1⟩ _ ⟨rfl, hmade, -, hptr⟩
  have hle : st1.hwin.hptr ≤ HDRSIZE + 3 :=
    hptr.trans (Nat.add_le_add_left (Nat.le_of_lt_succ st.skip_lt) _)
  rcases hdr with - | hdr
  · exact Agrees.ok (Turns.Turned.last hmade)
  · refine (extractSingleEntry_agrees hdr hle).mono ?_
    rintro _ _ (hmade2 | hmade2)
    · exact Turns.Turned.last (hmade2.trans hmade)
    · exact Turns.Turned.turn (hmade2.trans (congrArg (· ++ _) hmade))

/-- **The loop** reads the archive. -/
theorem extractEntries_follows (env : Env) :
    Turns.Follows env.Benign (round env) next view made fun v => v.2.length :=
  ⟨round_agrees env, nextBy_length entryAt_length⟩

/-- **An extraction that finishes** has read the archive to its end. -/
theorem cmdExtract_finishes (h : cmdExtract env bytes = some (.ok st)) :
    ∃ made, Finishes (0, bytes) made ∧ st.made = made := by
  rw [cmdExtract, extractEntries_eq] at h
  obtain ⟨made, hfin, hmade⟩ := (extractEntries_follows env).finishes h
  exact ⟨made, hfin, hmade⟩

/-- **It finishes where the archive can be read.** -/
theorem cmdExtract_of_finishes {made : List Made} (h : Finishes (0, bytes) made)
    (henv : env.Benign) : ∃ st, cmdExtract env bytes = some (.ok st) ∧ st.made = made := by
  rw [cmdExtract, extractEntries_eq]
  exact (extractEntries_follows env).loop_of_finishes henv h (Nat.lt_succ_self _) rfl

/-- A system where an empty directory is extracted to. -/
def Env.calm : Env where
  dir := []
  read := fun _ => MAX_RW
  write := fun _ => MAX_RW
  sendfile := fun _ => MAX_RW
  unlinkat := fun _ => -ENOENT
  openat := fun _ => 0
  symlinkat := fun _ => 0
  mkdirat := fun _ => 0

lemma Env.calm_benign : Env.calm.Benign where
  read := fun _ => Int.le_refl _
  write := fun _ => Int.le_refl _
  sendfile := fun _ => show 0 ≤ MAX_RW by decide
  unlinkat := fun _ => .inr rfl
  openat := fun _ => Int.le_refl _
  symlinkat := fun _ => Int.le_refl _
  mkdirat := fun _ => .inl (Int.le_refl _)

/-- **An extraction fails whatever the system does** if the archive cannot be read to its
end. -/
theorem cmdExtract_fails_iff (bytes : List UInt8) :
    (∀ env, ∃ e, cmdExtract env bytes = some (.error e)) ↔ ¬ ∃ made, Finishes (0, bytes) made := by
  constructor
  · rintro h ⟨made, hfin⟩
    obtain ⟨e, he⟩ := h Env.calm
    obtain ⟨st', hst', -⟩ := cmdExtract_of_finishes hfin Env.calm_benign
    cases he.symm.trans hst'
  · intro h env
    have hsome : (Turns.loop (round env) (bytes.length + 1) (start bytes)).isSome :=
      (extractEntries_follows env).loop_isSome (Nat.lt_succ_self _)
    obtain ⟨r, hr⟩ := isSome_iff_exists.mp hsome
    rw [← extractEntries_eq] at hr
    rcases r with e | st'
    · exact ⟨e, hr⟩
    · obtain ⟨made, hfin, -⟩ := cmdExtract_finishes hr
      exact absurd ⟨made, hfin⟩ h

end Minibase.Cpio
