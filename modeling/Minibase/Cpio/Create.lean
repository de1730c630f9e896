import Minibase.Lib.Outcome
import Minibase.Cpio.Header

/-!
# Archives that are made

`cmd_create` of `src/cpio/cpio_create.c` and what it uses of `cpio_common.c`. A directory is
read, its entries are sorted with the directories last, and each becomes an entry of the
archive. The zeros that fill up the body of a file are left to the header that follows.

The archive is the entries one after the other, each filled up, and the trailer
(`Cpio.cmdCreate_eq`).
-/

namespace Minibase.Cpio

open List

def MAXDEPTH : ℕ := 15

def S_IFMT : ℕ := 0xF000

def S_IFDIR : ℕ := 0x4000

def S_IFREG : ℕ := 0x8000

def S_IFLNK : ℕ := 0xA000

/-! ### Directories -/

/-- A name as there may be in a directory, other than `.` and `..`. -/
structure Name where
  bytes : List UInt8
  ne_nil : bytes ≠ []
  no_slash : slash ∉ bytes
  no_zero : 0 ∉ bytes
  plain : ¬ Special bytes
  /-- `NAME_MAX` -/
  short : bytes.length ≤ 255

/-- What there is under a name. -/
inductive Node
  | dir (entries : List (Name × Node))
  | file (exec : Bool) (body : List UInt8)
  | link (target : List UInt8)
  /-- A device or a socket. -/
  | special

/-- `strcmp`, up to the zeros behind the names. -/
def strcmp : List UInt8 → List UInt8 → ℤ
  | [], [] => 0
  | [], b :: _ => -(b.toNat : ℤ)
  | a :: _, [] => a.toNat
  | a :: sa, b :: sb => if a = b then strcmp sa sb else a.toNat - b.toNat

/-- `type == EN_DIR` -/
def Node.isDir : Node → Bool
  | .dir _ => true
  | _ => false

/-- Files before directories, each by name. -/
def cmpEnt (a b : Name × Node) : ℤ :=
  let da := a.2.isDir
  let db := b.2.isDir
  if !da && db then -1 else if da && !db then 1 else strcmp a.1.bytes b.1.bytes

/-- The entries in the order they are packed in. -/
def sorted (entries : List (Name × Node)) : List (Name × Node) :=
  entries.mergeSort fun a b => cmpEnt a b ≤ 0

def checkDent (en : Name × Node) : Except String Unit :=
  match en.2 with
  | .dir _ => .ok ()
  | .link target => if target.length > 0xFFFF then .error "E2BIG" else .ok ()
  | .file _ body => if body.length > 0xFFFFFFFF then .error "E2BIG" else .ok ()
  | .special => .error "EINVAL"

/-! ### Headers -/

/-- The archive so far, and the zeros that are still to be written. -/
structure Arc where
  bytes : List UInt8
  skip : ℕ

/-- `struct htmp`: a header that is being put together, with what comes behind it and the
size of the memory for all of it. -/
structure Htmp where
  skip : ℕ
  hdr : List UInt8
  tail : List UInt8
  bend : ℕ

namespace Htmp

variable (h : Htmp)

/-- Where the next byte goes. -/
def ptr : ℕ := h.skip + HDRSIZE + h.tail.length

/-- `append_header`, which also stands for what is read into `grab_header_area`. -/
def append (bs : List UInt8) : Except String Htmp :=
  if h.ptr + bs.length > h.bend then .error "header overflow"
  else .ok { h with tail := h.tail ++ bs }

/-- `append_strend` -/
def strend : Except String Htmp :=
  if h.ptr ≥ h.bend then .error "header overflow" else .ok { h with tail := h.tail ++ [0] }

/-- `align_header` -/
def align : Except String Htmp :=
  let diff := h.ptr - h.skip
  if h.skip + align4 diff > h.bend then .error "header overflow"
  else .ok { h with tail := h.tail ++ replicate (align4 diff - diff) 0 }

end Htmp

def alignedNamesize (raw : ℕ) : ℕ := align4 (HDRSIZE + raw) - HDRSIZE

/-- `start_header`, with its `namesize` filled in. -/
def startHeader (st : Arc) (extra flen : ℕ) : Htmp :=
  ⟨st.skip, pwrite emptyHeader NAMESIZE (formatSize flen), [], st.skip + HDRSIZE + extra⟩

def entryHeader (st : Arc) (pref name : List UInt8) (blen : ℕ) : Except String Htmp := do
  let flen := pref.length + name.length + 1
  let h ← (startHeader st (alignedNamesize flen + align4 blen) flen).append pref
  let h ← h.append name
  let h ← h.strend
  h.align

def namedHeader (st : Arc) (name : List UInt8) : Except String Htmp := do
  let flen := name.length + 1
  let h ← (startHeader st (alignedNamesize flen) flen).append name
  let h ← h.strend
  h.align

/-- `header_mode` and `header_size`. -/
def Htmp.fill (h : Htmp) (mode size : ℕ) : Htmp :=
  { h with hdr := pwrite (pwrite h.hdr MODE (formatSize mode)) FILESIZE (formatSize size) }

/-- `write_header`: all of the memory, up to its end. -/
def writeHeader (st : Arc) (h : Htmp) (skip : ℕ) : Arc :=
  ⟨st.bytes ++ (replicate h.skip 0 ++ h.hdr ++ h.tail ++ replicate (h.bend - h.ptr) 0), skip⟩

/-! ### Entries -/

/-- The entry of a directory. -/
def putPref (st : Arc) (pref : List UInt8) : Except String Arc := do
  let h ← namedHeader st pref
  return writeHeader st (h.fill (S_IFDIR ||| 0o755) 0) 0

def putFile (st : Arc) (pref name : List UInt8) (mode : ℕ) (body : List UInt8) :
    Except String Arc := do
  let size := body.length
  let h ← entryHeader st pref name 0
  let st := writeHeader st (h.fill (S_IFREG ||| mode) size) (align4 size - size)
  return { st with bytes := st.bytes ++ body }

def putSymlink (st : Arc) (pref name target : List UInt8) : Except String Arc := do
  let size := target.length
  let h ← entryHeader st pref name size
  let h ← (h.fill (S_IFLNK ||| 0o644) size).append target
  let h ← h.align
  return writeHeader st h 0

/-- The name of the last entry. -/
def trailer : List UInt8 := [0x54, 0x52, 0x41, 0x49, 0x4C, 0x45, 0x52, 0x21, 0x21, 0x21]

def putTrailer (st : Arc) : Except String Arc := do
  let h ← namedHeader st trailer
  return writeHeader st h 0

/-- `process_entry`, with what enters a directory of a name. By the time there is a
directory all others are done, so that `plen` is set again before it is used. -/
def processEntry (enter : Arc → List UInt8 → List (Name × Node) → Except String Arc)
    (pref : List UInt8) (st : Arc) (en : Name × Node) : Except String Arc :=
  match en.2 with
  | .dir entries => enter st (pref ++ en.1.bytes ++ [slash]) entries
  | .link target => putSymlink st pref en.1.bytes target
  | .file exec body => putFile st pref en.1.bytes (if exec then 0o755 else 0o644) body
  | .special => .error "EINVAL"

/-- `scan_directory`, with `process_dir`, where so many more directories may be entered. -/
def scanDirectory : ℕ → Arc → List UInt8 → List (Name × Node) → Except String Arc
  | 0, st, pref, entries => do
    entries.forM checkDent
    (sorted entries).foldlM (processEntry (fun _ _ _ => .error "ELOOP") pref) st
  | k + 1, st, pref, entries => do
    entries.forM checkDent
    (sorted entries).foldlM (processEntry (fun st pref entries => do
        let st ← putPref st pref
        scanDirectory k st pref entries) pref) st

/-- `cmd_create`, for a directory with these entries. -/
def cmdCreate (entries : List (Name × Node)) : Except String (List UInt8) := do
  let st ← scanDirectory MAXDEPTH ⟨[], 0⟩ [] entries
  let st ← putTrailer st
  return st.bytes

/-! ### What an archive is made of -/

/-- An entry of an archive, with its whole name. -/
inductive Ent
  | dir (name : List UInt8)
  | file (name : List UInt8) (exec : Bool) (body : List UInt8)
  | link (name target : List UInt8)

namespace Ent

def name : Ent → List UInt8
  | .dir name => name
  | .file name _ _ => name
  | .link name _ => name

def mode : Ent → ℕ
  | .dir _ => S_IFDIR ||| 0o755
  | .file _ exec _ => S_IFREG ||| if exec then 0o755 else 0o644
  | .link _ _ => S_IFLNK ||| 0o644

def body : Ent → List UInt8
  | .dir _ => []
  | .file _ _ body => body
  | .link _ target => target

end Ent

def zeros (n : ℕ) : List UInt8 := replicate n 0

/-- A header with a name, up to where the body starts. -/
def headOf (mode size : ℕ) (name : List UInt8) : List UInt8 :=
  header mode size (name.length + 1) ++ (name ++ 0 :: zeros (padding (HDRSIZE + (name.length + 1))))

namespace Ent

def head (e : Ent) : List UInt8 := headOf e.mode e.body.length e.name

/-- All of an entry, filled up. -/
def encode (e : Ent) : List UInt8 := e.head ++ e.body ++ zeros (padding e.body.length)

end Ent

/-- The last entry. -/
def trailerBytes : List UInt8 := headOf 0 0 trailer

/-- The archive of these entries. -/
def archive (es : List Ent) : List UInt8 := es.flatMap Ent.encode ++ trailerBytes

/-- What a directory entry becomes, where `inside` says it of what is in a directory. -/
def entryOf (inside : List UInt8 → List (Name × Node) → List Ent) (pref : List UInt8)
    (en : Name × Node) : List Ent :=
  match en.2 with
  | .dir entries =>
    .dir (pref ++ en.1.bytes ++ [slash]) :: inside (pref ++ en.1.bytes ++ [slash]) entries
  | .link target => [.link (pref ++ en.1.bytes) target]
  | .file exec body => [.file (pref ++ en.1.bytes) exec body]
  | .special => []

/-- The entries of the archive of a directory. -/
def entriesOf : ℕ → List UInt8 → List (Name × Node) → List Ent
  | 0, pref, entries => (sorted entries).flatMap (entryOf (fun _ _ => []) pref)
  | k + 1, pref, entries => (sorted entries).flatMap (entryOf (entriesOf k) pref)

/-! ### Putting a header together -/

/-- The name fits into the memory that was taken for it. -/
theorem add_alignedNamesize (raw : ℕ) : HDRSIZE + alignedNamesize raw = align4 (HDRSIZE + raw) := by
  rw [alignedNamesize, align4]
  omega

lemma le_align4 (x : ℕ) : x ≤ align4 x := by
  rw [align4]
  omega

lemma align4_add {x : ℕ} (h : x % 4 = 0) (y : ℕ) : align4 (x + y) = x + align4 y := by
  rw [align4, align4]
  omega

lemma align4_mod (x : ℕ) : align4 x % 4 = 0 := by
  rw [align4]
  omega

lemma Htmp.append_eq {h : Htmp} {bs : List UInt8}
    (hfit : h.skip + (HDRSIZE + (h.tail ++ bs).length) ≤ h.bend) :
    h.append bs = .ok { h with tail := h.tail ++ bs } := by
  rw [length_append] at hfit
  refine if_neg ?_
  rw [Htmp.ptr]
  omega

/-- The zero behind a name, and the zeros that fill it up. -/
theorem Htmp.strend_align {h : Htmp}
    (hfit : h.skip + align4 (HDRSIZE + (h.tail.length + 1)) ≤ h.bend) :
    (do let h ← h.strend; h.align) =
      .ok { h with tail := h.tail ++ 0 :: zeros (padding (HDRSIZE + (h.tail.length + 1))) } := by
  have hle := le_align4 (HDRSIZE + (h.tail.length + 1))
  have hstrend : h.strend = .ok { h with tail := h.tail ++ [0] } := by
    refine if_neg ?_
    rw [Htmp.ptr]
    omega
  have hdiff : (Htmp.ptr { h with tail := h.tail ++ [0] }) - h.skip =
    HDRSIZE + (h.tail.length + 1) := by
    show h.skip + HDRSIZE + (h.tail ++ [0]).length - h.skip = _
    rw [length_append, length_singleton]
    omega
  rw [hstrend]
  show Htmp.align { h with tail := h.tail ++ [0] } = _
  rw [Htmp.align]
  rw [hdiff, if_neg (Nat.not_lt.mpr hfit), append_assoc]
  rfl

/-- **`named_header`** does not overflow, and fills the memory. -/
theorem namedHeader_eq (st : Arc) (name : List UInt8) :
    namedHeader st name =
      .ok ⟨st.skip, pwrite emptyHeader NAMESIZE (formatSize (name.length + 1)),
        name ++ 0 :: zeros (padding (HDRSIZE + (name.length + 1))),
        st.skip + align4 (HDRSIZE + (name.length + 1))⟩ := by
  have hend : st.skip + HDRSIZE + alignedNamesize (name.length + 1) =
      st.skip + align4 (HDRSIZE + (name.length + 1)) := by
    rw [add_assoc, add_alignedNamesize]
  have hle := le_align4 (HDRSIZE + (name.length + 1))
  rw [namedHeader, startHeader, hend, Htmp.append_eq (by simp only [nil_append]; omega)]
  exact Htmp.strend_align (h := ⟨st.skip, _, [] ++ name, _⟩) (le_refl _)

/-- **`entry_header`** does not overflow, and leaves room for the body. -/
theorem entryHeader_eq (st : Arc) (pref name : List UInt8) (blen : ℕ) :
    entryHeader st pref name blen =
      .ok ⟨st.skip, pwrite emptyHeader NAMESIZE (formatSize ((pref ++ name).length + 1)),
        pref ++ name ++ 0 :: zeros (padding (HDRSIZE + ((pref ++ name).length + 1))),
        st.skip + align4 (HDRSIZE + ((pref ++ name).length + 1)) + align4 blen⟩ := by
  have hflen : pref.length + name.length + 1 = (pref ++ name).length + 1 := by
    rw [length_append]
  have hend : st.skip + HDRSIZE + (alignedNamesize ((pref ++ name).length + 1) + align4 blen) =
      st.skip + align4 (HDRSIZE + ((pref ++ name).length + 1)) + align4 blen := by
    rw [← add_alignedNamesize]
    omega
  have hle := le_align4 (HDRSIZE + ((pref ++ name).length + 1))
  have hpref : pref.length ≤ (pref ++ name).length := by
    rw [length_append]
    omega
  rw [entryHeader, hflen, startHeader, hend, Htmp.append_eq (by simp only [nil_append]; omega)]
  show (do
    let h ← Htmp.append ⟨st.skip, _, [] ++ pref, _⟩ name
    let h ← h.strend
    h.align) = _
  rw [Htmp.append_eq (by simp only [nil_append]; omega)]
  exact Htmp.strend_align (h := ⟨st.skip, _, [] ++ pref ++ name, _⟩) (Nat.le_add_right _ _)

/-! ### Entries that are written -/

/-- The archive with the zeros that are still to be written. -/
def Arc.whole (st : Arc) : List UInt8 := st.bytes ++ zeros st.skip

/-- A header that fills its memory. -/
theorem writeHeader_eq {st : Arc} {h : Htmp} (hskip : h.skip = st.skip) (hfull : h.bend = h.ptr)
    (skip : ℕ) : writeHeader st h skip = ⟨st.whole ++ (h.hdr ++ h.tail), skip⟩ := by
  rw [writeHeader, hfull, Nat.sub_self, Arc.whole, hskip]
  simp [zeros]

/-- A name that is filled up ends where the body starts. -/
theorem length_named (name : List UInt8) :
    HDRSIZE + (name ++ 0 :: zeros (padding (HDRSIZE + (name.length + 1)))).length =
      align4 (HDRSIZE + (name.length + 1)) := by
  rw [length_append, length_cons, zeros, length_replicate,
    ← add_padding (HDRSIZE + (name.length + 1))]
  omega

lemma putPref_eq (st : Arc) (pref : List UInt8) :
    putPref st pref = .ok ⟨st.whole ++ (Ent.dir pref).head, 0⟩ := by
  have hlen := length_named pref
  rw [putPref, namedHeader_eq]
  refine congrArg Except.ok (writeHeader_eq rfl ?_ 0)
  show _ = st.skip + HDRSIZE + _
  rw [← hlen, add_assoc]
  rfl

lemma putFile_eq (st : Arc) (pref name : List UInt8) (exec : Bool) (body : List UInt8) :
    putFile st pref name (if exec then 0o755 else 0o644) body =
      .ok ⟨st.whole ++ ((Ent.file (pref ++ name) exec body).head ++ body),
        padding body.length⟩ := by
  have hlen := length_named (pref ++ name)
  have hhdr : ∀ h : Htmp, h.skip = st.skip → h.bend = h.ptr → ∀ skip,
      (⟨(writeHeader st h skip).bytes ++ body, (writeHeader st h skip).skip⟩ : Arc) =
        ⟨st.whole ++ (h.hdr ++ h.tail ++ body), skip⟩ := by
    intro h hskip hfull skip
    rw [writeHeader_eq hskip hfull, append_assoc, append_assoc]
  have hfull : st.skip + align4 (HDRSIZE + ((pref ++ name).length + 1)) + align4 0 =
    st.skip + HDRSIZE +
      (pref ++ name ++ 0 :: zeros (padding (HDRSIZE + ((pref ++ name).length + 1)))).length := by
    have hnone : align4 0 = 0 := rfl
    rw [← hlen, hnone]
    omega
  rw [putFile, entryHeader_eq]
  exact congrArg Except.ok (hhdr _ rfl hfull _)

lemma putSymlink_eq (st : Arc) (pref name target : List UInt8) :
    putSymlink st pref name target =
      .ok ⟨st.whole ++ (Ent.link (pref ++ name) target).encode, 0⟩ := by
  have hlen := length_named (pref ++ name)
  have hmod := align4_mod (HDRSIZE + ((pref ++ name).length + 1))
  have hle := le_align4 target.length
  obtain ⟨tail, htail⟩ : ∃ tail, pref ++ name ++ 0 :: zeros (padding (HDRSIZE +
    ((pref ++ name).length + 1))) = tail := ⟨_, rfl⟩
  obtain ⟨room, hroom⟩ : ∃ room, align4 (HDRSIZE + ((pref ++ name).length + 1)) = room := ⟨_, rfl⟩
  rw [htail, hroom] at hlen
  rw [hroom] at hmod
  have happend : ∀ hdr, Htmp.append ⟨st.skip, hdr, tail, st.skip + room + align4 target.length⟩
    target = .ok ⟨st.skip, hdr, tail ++ target, st.skip + room + align4 target.length⟩ := by
    intro hdr
    refine Htmp.append_eq ?_
    show st.skip + (HDRSIZE + (tail ++ target).length) ≤ st.skip + room + align4 target.length
    rw [length_append]
    omega
  have halign : ∀ hdr, Htmp.align ⟨st.skip, hdr, tail ++ target,
    st.skip + room + align4 target.length⟩ =
      .ok ⟨st.skip, hdr, tail ++ target ++ zeros (padding target.length),
        st.skip + room + align4 target.length⟩ := by
    intro hdr
    have hdiff : Htmp.ptr ⟨st.skip, hdr, tail ++ target, st.skip + room + align4 target.length⟩ -
      st.skip = room + target.length := by
      show st.skip + HDRSIZE + (tail ++ target).length - st.skip = _
      rw [length_append]
      omega
    have hmore : room + align4 target.length - (room + target.length) = padding target.length :=
      Nat.add_sub_add_left room _ _
    rw [Htmp.align, hdiff, align4_add hmod]
    show (if st.skip + (room + align4 target.length) > st.skip + room +
      align4 target.length then _ else
      _) = _
    rw [if_neg (by omega), hmore]
    rfl
  -- the name is filled up by now, so that the target starts at a multiple of four
  rw [putSymlink, entryHeader_eq, htail, hroom]
  show (do
    let h ← Htmp.append ⟨st.skip, _, tail, st.skip + room + align4 target.length⟩ target
    let h ← h.align
    return writeHeader st h 0) = _
  rw [happend]
  show (do
    let h ← Htmp.align ⟨st.skip, _, tail ++ target, st.skip + room + align4 target.length⟩
    return writeHeader st h 0) = _
  rw [halign]
  show Except.ok (writeHeader st _ 0) = _
  rw [writeHeader_eq rfl]
  · rw [← htail]
    simp [Ent.encode, Ent.head, headOf, header, Ent.mode, Ent.body, Ent.name]
  · show st.skip + room + align4 target.length =
      st.skip + HDRSIZE + (tail ++ target ++ zeros (padding target.length)).length
    rw [length_append, length_append, zeros, length_replicate, ← hlen, ← add_padding target.length]
    omega

/-- The last header is left as it was started, which is with zeros. -/
theorem putTrailer_eq (st : Arc) : putTrailer st = .ok ⟨st.whole ++ trailerBytes, 0⟩ := by
  have hlen := length_named trailer
  have hhdr : pwrite emptyHeader NAMESIZE (formatSize (trailer.length + 1)) =
      header 0 0 (trailer.length + 1) := by decide +kernel
  rw [putTrailer, namedHeader_eq, hhdr]
  refine congrArg Except.ok (writeHeader_eq rfl ?_ 0)
  show _ = st.skip + HDRSIZE + _
  rw [← hlen, add_assoc]

/-! ### Entries of a directory -/

/-- What comes back from `validate_name` for the names of entries: they are plain. -/
structure Ent.Ok (e : Ent) : Prop where
  valid : ∀ off, validateName off e.name = .ok e.name
  no_zero : 0 ∉ e.name
  short : e.name.length + 1 ≤ PAGE
  size : e.body.length < 2 ^ 32

/-- The name of what is in a directory that is in others. -/
def pathIn (ds : List Name) (last : List UInt8) : List UInt8 :=
    joined slash (ds.map Name.bytes) last

lemma pathIn_cons (d : Name) (ds : List Name) (last : List UInt8) :
    pathIn (d :: ds) last = d.bytes ++ slash :: pathIn ds last := by
  simp [pathIn, joined]

variable (ds : List Name)

lemma pathIn_snoc (nm : Name) (last : List UInt8) :
    pathIn (ds ++ [nm]) last = pathIn ds [] ++ nm.bytes ++ [slash] ++ last := by
  simp [pathIn, joined]

lemma pathIn_append (last : List UInt8) : pathIn ds last = pathIn ds [] ++ last := by
  simp [pathIn, joined]

lemma length_pathIn (last : List UInt8) :
    (pathIn ds last).length ≤ 256 * ds.length + last.length := by
  induction ds with
  | nil => exact Nat.le_add_left _ _
  | cons d ds ih =>
    have hd := d.short
    rw [pathIn_cons, length_append, length_cons, length_cons]
    omega

variable {last : List UInt8}

lemma no_zero_pathIn (hlast : 0 ∉ last) : 0 ∉ pathIn ds last := by
  induction ds with
  | nil => exact hlast
  | cons d ds ih =>
    have hslash : (0 : UInt8) ≠ slash := by decide
    rw [pathIn_cons, mem_append, mem_cons, not_or, not_or]
    exact ⟨d.no_zero, hslash, ih⟩

/-- No name starts with a slash. -/
theorem strip_pathIn (hlast : slash ∉ last) : strip (pathIn ds last) = pathIn ds last := by
  have hplain : ∀ p : List UInt8, p.head? ≠ some slash → strip p = p := by
    intro p hp
    obtain - | ⟨c, p⟩ := p
    · rfl
    · exact if_neg fun h => hp (congrArg some h)
  refine hplain _ ?_
  obtain - | ⟨d, ds⟩ := ds
  · exact fun h => hlast (mem_of_mem_head? h)
  · rw [pathIn_cons, head?_append_of_ne_nil _ d.ne_nil]
    exact fun h => d.no_slash (mem_of_mem_head? h)

/-- **Names that are made of names** are accepted as they are. -/
theorem validateName_pathIn (hlast : slash ∉ last) (off : ℕ) :
    validateName off (pathIn ds last) = .ok (pathIn ds last) := by
  have hds : ∀ d ∈ ds.map Name.bytes, slash ∉ d := by
    intro d hd
    obtain ⟨nm, -, rfl⟩ := mem_map.mp hd
    exact nm.no_slash
  refine (validateName_eq_ok_iff off _ _).mpr ⟨(strip_pathIn ds hlast).symm, ?_⟩
  rw [strip_pathIn ds hlast, pathIn, pieces_joined hds hlast]
  intro d hd
  obtain ⟨nm, -, rfl⟩ := mem_map.mp hd
  exact nm.plain

/-- However deep a name is, there is room for it. -/
theorem room_of_le {k n : ℕ} (hk : k ≤ MAXDEPTH) (hn : n ≤ 255) : 256 * k + n + 1 ≤ PAGE := by
  have hmax : MAXDEPTH = 15 := rfl
  have hpage : PAGE = 4096 := rfl
  omega

/-- An entry in so many directories. -/
theorem ok_of_name {e : Ent} {ds : List Name} (hname : e.name = pathIn ds last)
    (hslash : slash ∉ last) (hzero : 0 ∉ last) (hlen : 256 * ds.length + last.length + 1 ≤ PAGE)
    (hsize : e.body.length < 2 ^ 32) : e.Ok := by
  have hle := length_pathIn ds last
  exact ⟨hname ▸ validateName_pathIn ds hslash,
    hname ▸ no_zero_pathIn ds hzero, by rw [hname]; omega, hsize⟩

/-- **What was written** are these entries, and there is nothing wrong with them. -/
structure Adds (st st' : Arc) (es : List Ent) : Prop where
  whole : st'.whole = st.whole ++ es.flatMap Ent.encode
  ok : ∀ e ∈ es, e.Ok

namespace Adds

variable {st st' st'' : Arc} {es es' : List Ent} {e : Ent}

lemma refl (st : Arc) : Adds st st [] := by
  constructor
  · rw [flatMap_nil, append_nil]
  · exact fun _ h => absurd h not_mem_nil

lemma trans (h : Adds st st' es) (h' : Adds st' st'' es') : Adds st st'' (es ++ es') := by
  constructor
  · rw [h'.whole, h.whole, flatMap_append, append_assoc]
  · intro e he
    rcases mem_append.mp he with he | he
    · exact h.ok e he
    · exact h'.ok e he

lemma single (hwhole : st'.whole = st.whole ++ e.encode) (hok : e.Ok) : Adds st st' [e] := by
  constructor
  · rw [hwhole, flatMap_singleton]
  · intro e' he
    rw [mem_singleton.mp he]
    exact hok

/-- One after the other. -/
theorem foldlM {α : Type} {f : Arc → α → Except String Arc} {g : α → List Ent} {l : List α}
    (hf : ∀ a ∈ l, ∀ st st', f st a = .ok st' → Adds st st' (g a)) (h : l.foldlM f st = .ok st') :
    Adds st st' (l.flatMap g) := by
  induction l generalizing st with
  | nil =>
    obtain rfl := pure_eq_ok_iff.mp h
    exact refl st
  | cons a l ih =>
    rw [foldlM_cons] at h
    obtain ⟨st1, h1, h2⟩ := ok_of_bind h
    rw [flatMap_cons]
    exact (hf a mem_cons_self st st1 h1).trans (ih (fun b hb => hf b (mem_cons_of_mem a hb)) h2)

end Adds

variable {entries : List (Name × Node)}

/-- A list of checks that all went well. -/
theorem of_forM_checkDent {u : Unit} (h : entries.forM checkDent = .ok u) :
    ∀ en ∈ entries, checkDent en = .ok () := by
  induction entries with
  | nil => exact fun _ h => absurd h not_mem_nil
  | cons en entries ih =>
    obtain ⟨u1, h1, h2⟩ := ok_of_bind (forM_cons.symm.trans h)
    exact forall_mem_cons.mpr ⟨h1, ih h2⟩

/-- **One entry of a directory**, where entering a directory adds what is in it. -/
theorem processEntry_adds {enter : Arc → List UInt8 → List (Name × Node) → Except String Arc}
    {inside : List UInt8 → List (Name × Node) → List Ent} {ds : List Name} {st st' : Arc}
    {en : Name × Node} (hdent : checkDent en = .ok ()) (hds : ds.length ≤ MAXDEPTH)
    (henter : ∀ nm st st' entries, enter st (pathIn (ds ++ [nm]) []) entries = .ok st' →
      Adds st st' (.dir (pathIn (ds ++ [nm]) []) :: inside (pathIn (ds ++ [nm]) []) entries))
    (h : processEntry enter (pathIn ds []) st en = .ok st') :
    Adds st st' (entryOf inside (pathIn ds []) en) := by
  obtain ⟨nm, node⟩ := en
  have hroom := room_of_le hds nm.short
  cases node with
  | dir entries =>
    have hpath := pathIn_snoc ds nm []
    rw [append_nil] at hpath
    show Adds st st' (.dir (pathIn ds [] ++ nm.bytes ++ [slash]) ::
      inside (pathIn ds [] ++ nm.bytes ++ [slash]) entries)
    rw [← hpath]
    refine henter nm st st' entries ?_
    rw [hpath]
    exact h
  | file exec body =>
    have hfits : ¬ body.length > 0xFFFFFFFF := by
      intro hgt
      rw [checkDent] at hdent
      dsimp only at hdent
      rw [if_pos hgt] at hdent
      cases hdent
    have hput : putFile st (pathIn ds []) nm.bytes (if exec then 0o755 else 0o644) body = .ok st' :=
      h
    rw [putFile_eq] at hput
    cases hput
    refine Adds.single ?_ (ok_of_name (pathIn_append ds nm.bytes).symm nm.no_slash nm.no_zero hroom
      ?_)
    · simp [Arc.whole, Ent.encode, Ent.body]
    · show body.length < 2 ^ 32
      omega
  | link target =>
    have hfits : ¬ target.length > 0xFFFF := by
      intro hgt
      rw [checkDent] at hdent
      dsimp only at hdent
      rw [if_pos hgt] at hdent
      cases hdent
    have hput : putSymlink st (pathIn ds []) nm.bytes target = .ok st' := h
    rw [putSymlink_eq] at hput
    cases hput
    refine Adds.single ?_ (ok_of_name (pathIn_append ds nm.bytes).symm nm.no_slash nm.no_zero hroom
      ?_)
    · simp [Arc.whole, zeros]
    · show target.length < 2 ^ 32
      omega
  | special => cases hdent

/-- **A directory** adds its entries. -/
theorem scanDirectory_adds {k : ℕ} {ds : List Name} {st st' : Arc}
    (hk : ds.length + k = MAXDEPTH) (h : scanDirectory k st (pathIn ds []) entries = .ok st') :
    Adds st st' (entriesOf k (pathIn ds []) entries) := by
  induction k generalizing ds st st' entries with
  | zero =>
    -- no directory may be entered here, so there is none
    rw [scanDirectory] at h
    obtain ⟨u, hdents, hfold⟩ := ok_of_bind h
    refine Adds.foldlM (fun en hen st st' => ?_) hfold
    have hdent := of_forM_checkDent hdents en ((mem_mergeSort).mp hen)
    exact processEntry_adds hdent (by omega) fun _ _ _ _ h' => nomatch h'
  | succ k ih =>
    rw [scanDirectory] at h
    obtain ⟨u, hdents, hfold⟩ := ok_of_bind h
    refine Adds.foldlM (fun en hen st st' => ?_) hfold
    have hdent := of_forM_checkDent hdents en ((mem_mergeSort).mp hen)
    refine processEntry_adds hdent (by omega) fun nm st st' entries h' => ?_
    have hlen : (ds ++ [nm]).length = ds.length + 1 := length_append
    -- the directory comes before what is in it
    obtain ⟨st1, hpref, hscan⟩ := ok_of_bind h'
    rw [putPref_eq] at hpref
    cases hpref
    refine Adds.trans (Adds.single (e := .dir (pathIn (ds ++ [nm]) [])) ?_ ?_) (ih (by omega) hscan)
    · simp [Arc.whole, Ent.encode, Ent.body, zeros, padding, align4]
    · have hroom := room_of_le (show (ds ++ [nm]).length ≤ MAXDEPTH by omega) (Nat.zero_le 255)
      exact ok_of_name rfl not_mem_nil not_mem_nil hroom (show 0 < 2 ^ 32 by omega)

/-- **An archive that was made** is the entries of the directory and the trailer. -/
theorem cmdCreate_eq {bytes : List UInt8}
    (h : cmdCreate entries = .ok bytes) :
    bytes = archive (entriesOf MAXDEPTH [] entries) ∧ ∀ e ∈ entriesOf MAXDEPTH [] entries,
      e.Ok := by
  rw [cmdCreate] at h
  obtain ⟨st, hscan, h⟩ := ok_of_bind h
  have hadds : Adds ⟨[], 0⟩ st (entriesOf MAXDEPTH (pathIn [] []) entries) :=
    scanDirectory_adds (zero_add _) hscan
  rw [putTrailer_eq] at h
  cases h
  exact ⟨congrArg (· ++ trailerBytes) hadds.whole, hadds.ok⟩

end Minibase.Cpio
