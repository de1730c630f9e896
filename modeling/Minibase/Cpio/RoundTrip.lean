import Minibase.Cpio.Archive
import Minibase.Cpio.Listing
import Minibase.Cpio.Tree

/-!
# Out of a directory and into one

A directory is packed, and the archive is listed and extracted. What is extracted is what was
packed (`Cpio.Recreated`), unless a symlink has a target longer than a page. What is listed are
the names of the entries in order, each with a zero behind it, since the size of a name counts
its zero: the names themselves are listed only if there are none (`Cpio.round_trip_iff`).
-/

namespace Minibase.Cpio

open List Option

variable {root : List (Name × Node)} {es : List Ent} {e : Ent}

/-! ### Listing what was written -/

/-- **An entry that was written** is listed with its name, and as much is skipped as its size
comes to. -/
theorem nextBy_listAt_entry (hok : e.Ok) (rest : List UInt8) :
    nextBy listAt (0, e.head ++ rest) =
      if e.name = trailer then some none
      else some (some ((0, rest.drop (alignedSize e.body.length)), e.name ++ [0, newline])) := by
  have hpage : PAGE = 4096 := rfl
  have hshort := hok.short
  have hname := splitName_named hshort rest
  have hhead : e.head ++ rest =
      zeros 0 ++ (header e.mode e.body.length (e.name.length + 1) ++ (named e.name ++ rest)) := by
    have hzero : zeros 0 = [] := rfl
    rw [Ent.head, headOf, append_assoc, hzero, nil_append, named]
  rw [hhead, nextBy_header (length_header ..), listAt,
    sizeFields_header e.mode_lt hok.size (by omega)]
  generalize named e.name ++ rest = more at hname ⊢
  show ((splitName (e.name.length + 1) more).bind _) = _
  rw [hname, bind_some]
  show ((nameIn (e.name ++ [0])).bind _) = _
  rw [nameIn_snoc hok.no_zero, bind_some, append_assoc]
  rfl

lemma alignedSize_eq {n : ℕ} (h : n ≤ 2 ^ 32 - 4) : alignedSize n = n + padding n := by
  rw [alignedSize, add_padding, align4]
  omega

/-- What is listed of these entries, with so much behind each name. -/
def listed (after : List UInt8) (es : List Ent) : List UInt8 := es.flatMap fun e => e.name ++ after

/-- The trailer is not listed. -/
theorem nextBy_listAt_trailer : nextBy listAt (0, archive []) = some none := by
  have hmode : 0 < 2 ^ 32 := by omega
  have hname : splitName (trailer.length + 1) (named trailer) = some (trailer ++ [0], []) := by
    have h := splitName_named (show trailer.length + 1 ≤ PAGE by decide) []
    rwa [append_nil] at h
  have harchive : archive [] = zeros 0 ++ (header 0 0 (trailer.length + 1) ++ named trailer) := by
    have hzero : zeros 0 = [] := rfl
    rw [archive, flatMap_nil, nil_append, trailerBytes, headOf, hzero, nil_append, named]
  rw [harchive, nextBy_header (length_header ..), listAt, sizeFields_header hmode hmode (by decide)]
  generalize named trailer = more at hname ⊢
  show ((splitName (trailer.length + 1) more).bind _) = _
  rw [hname, bind_some]
  show ((nameIn (trailer ++ [0])).bind _) = _
  rw [nameIn_snoc (by decide), bind_some, if_pos rfl]

/-- **A whole archive** is listed to its end. -/
theorem lists_archive (hok : ∀ e ∈ es, e.Ok) (hname : ∀ e ∈ es, e.name ≠ trailer)
    (hsize : ∀ e ∈ es, e.body.length ≤ 2 ^ 32 - 4) :
    Lists (0, archive es) (listed [0, newline] es) := by
  induction es with
  | nil => exact Turns.Finishes.stop nextBy_listAt_trailer
  | cons e es ih =>
    obtain ⟨hok1, hok2⟩ := forall_mem_cons.mp hok
    obtain ⟨hname1, hname2⟩ := forall_mem_cons.mp hname
    obtain ⟨hsize1, hsize2⟩ := forall_mem_cons.mp hsize
    have hnext := nextBy_listAt_entry hok1 (e.body ++ (zeros (padding e.body.length) ++ archive es))
    have hdrop : (e.body ++ (zeros (padding e.body.length) ++ archive es)).drop
      (alignedSize e.body.length) = archive es := by
      have hzeros : (zeros (padding e.body.length)).length = padding e.body.length :=
        length_replicate
      rw [alignedSize_eq hsize1, ← drop_drop, drop_left, drop_left' hzeros]
    rw [if_neg hname1, hdrop] at hnext
    rw [archive_cons]
    exact Turns.Finishes.more hnext (ih hok2 hname2 hsize2)

/-! ### Round trips -/

/-- What comes out for what there is under a name. -/
def Node.made (path : List UInt8) : Node → Option Made
  | .dir _ => some (.dir (path ++ [slash]))
  | .file exec body => some (.file path (if exec then 0o755 else 0o644) body)
  | .link target => some (.link path target)
  | .special => none

/-- **Everything is made again**, and nothing else, each after the directory that it is in. -/
structure Recreated (root : List (Name × Node)) (made : List Made) : Prop where
  all : ∀ m, m ∈ made ↔ ∃ ds nm node, At root ds nm node ∧ node.made (pathIn ds nm.bytes) = some m
  order : ∀ {ds nm node m}, At root ds nm node → ds ≠ [] → node.made (pathIn ds nm.bytes) = some m →
    [Made.dir (pathIn ds []), m].Sublist made

/-- **A round trip**: the archive lists the names of the entries, in order and with so much
behind each of them, and what comes out of it is what went in. -/
def RoundTrip (after : List UInt8) (root : List (Name × Node)) : Prop :=
  ∃ bytes, cmdCreate root = .ok bytes ∧
    (∀ env : ListEnv, env.Benign →
      cmdList env bytes = some (.ok (listed after (entriesOf MAXDEPTH [] root)))) ∧
    ∀ env : Env, env.Benign → ∃ st, cmdExtract env bytes = some (.ok st) ∧ Recreated root st.made

/-- What comes out is what the entry was made of. -/
theorem made_eq (h : IsTree root) {ds : List Name} {nm : Name} {node : Node}
    (hat : At root ds nm node) :
    node.made (pathIn ds nm.bytes) = (node.ent (pathIn ds nm.bytes)).map Ent.made := by
  cases node with
  | dir sub => rfl
  | file exec body => rfl
  | link target =>
    show _ = some (Made.link _ (string target))
    rw [string_eq_self.mpr (h.string hat)]
    rfl
  | special => rfl

/-- **What was packed is everything.** -/
theorem recreated (h : IsTree root) : Recreated root
    ((entriesOf MAXDEPTH [] root).map Ent.made) := by
  constructor
  · intro m
    rw [List.mem_map]
    constructor
    · rintro ⟨e, he, rfl⟩
      obtain ⟨ds, nm, node, hat, hent⟩ := (mem_entriesOf_iff h).mp he
      exact ⟨ds, nm, node, hat, by rw [made_eq h hat, hent]; rfl⟩
    · rintro ⟨ds, nm, node, hat, hm⟩
      rw [made_eq h hat, map_eq_some_iff] at hm
      obtain ⟨e, hent, rfl⟩ := hm
      exact ⟨e, (mem_entriesOf_iff h).mpr ⟨ds, nm, node, hat, hent⟩, rfl⟩
  · intro ds nm node m hat hds hm
    rw [made_eq h hat, map_eq_some_iff] at hm
    obtain ⟨e, hent, rfl⟩ := hm
    exact (sublist_entriesOf hat (h.length_le hat) hds hent).map Ent.made

/-- A symlink is refused if it is longer than a page. -/
theorem not_refused_iff (h : IsTree root) :
    (∀ e ∈ entriesOf MAXDEPTH [] root, ¬ e.Refused) ↔ Short root PAGE := by
  constructor
  · intro hall ds nm target hat
    have hmem := (mem_entriesOf_iff h).mpr ⟨ds, nm, _, hat, rfl⟩
    exact Nat.not_lt.mp (hall _ hmem)
  · intro hshort e he href
    obtain ⟨ds, nm, node, hat, hent⟩ := (mem_entriesOf_iff h).mp he
    cases node with
    | dir sub =>
      cases hent
      cases href
    | file exec body =>
      cases hent
      cases href
    | link target =>
      cases hent
      exact absurd (hshort hat) (Nat.not_le.mpr href)
    | special => cases hent

/-- No file is so large that its size comes to nothing. -/
def Fits (root : List (Name × Node)) : Prop :=
  ∀ {ds nm exec body}, At root ds nm (.file exec body) → body.length ≤ 2 ^ 32 - 4

lemma body_length_le (h : IsTree root) (hfits : Fits root) (hshort : Short root 0xFFFF)
    (he : e ∈ entriesOf MAXDEPTH [] root) : e.body.length ≤ 2 ^ 32 - 4 := by
  obtain ⟨ds, nm, node, hat, hent⟩ := (mem_entriesOf_iff h).mp he
  cases node with
  | dir sub =>
    cases hent
    exact Nat.zero_le _
  | file exec body =>
    cases hent
    exact hfits hat
  | link target =>
    cases hent
    exact (hshort hat).trans (by decide)
  | special => cases hent

/-- **There and back**, with a zero behind each name. -/
theorem roundTrip_of_fits (h : IsTree root) (hfits : Fits root) (hshort : Short root PAGE) :
    RoundTrip [0, newline] root := by
  have hlinks : Short root 0xFFFF := fun hat => (hshort hat).trans (by decide)
  have hcreate := cmdCreate_ok h hlinks
  obtain ⟨-, hok⟩ := cmdCreate_eq hcreate
  have hname : ∀ e ∈ entriesOf MAXDEPTH [] root, e.name ≠ trailer :=
    fun _ he => name_ne_trailer h he
  refine ⟨_, hcreate, fun env henv => ?_, fun env henv => ?_⟩
  · exact cmdList_of_lists (lists_archive hok hname fun _ he => body_length_le h hfits hlinks he)
      henv
  · obtain ⟨st, hst, hmade⟩ := extract_create hcreate henv hname ((not_refused_iff h).mpr hshort)
    exact ⟨st, hst, hmade ▸ recreated h⟩

/-- A system where an archive is listed. -/
def ListEnv.calm : ListEnv where
  toEnv := Env.calm
  devNull := fun _ => 3
  stdout := fun _ => MAX_RW

lemma ListEnv.calm_benign : ListEnv.calm.Benign where
  toBenign := Env.calm_benign
  devNull := fun _ => show (0 : ℤ) ≤ 3 by decide
  stdout := fun _ => Int.le_refl _

/-- What is extracted has no symlink that is too long. -/
theorem short_of_roundTrip {after : List UInt8} (h : IsTree root) (htrip : RoundTrip after root) :
    Short root PAGE := by
  obtain ⟨bytes, hcreate, -, hextract⟩ := htrip
  obtain ⟨rfl, hok⟩ := cmdCreate_eq hcreate
  obtain ⟨st, hst, -⟩ := hextract Env.calm Env.calm_benign
  obtain ⟨made, hfin, -⟩ := cmdExtract_finishes hst
  exact (not_refused_iff h).mp
    (not_refused_of_finishes (s := 0) hok (fun _ he => name_ne_trailer h he) hfin)

/-- **Names are not listed as they are**: there is a zero behind the first of them. -/
theorem eq_nil_of_roundTrip (h : IsTree root) (htrip : RoundTrip [newline] root) : root = [] := by
  obtain ⟨bytes, hcreate, hlist, -⟩ := htrip
  obtain ⟨rfl, hok⟩ := cmdCreate_eq hcreate
  have hlists := cmdList_lists (hlist ListEnv.calm ListEnv.calm_benign) ListEnv.calm_benign
  have hname : ∀ e ∈ entriesOf MAXDEPTH [] root, e.name ≠ trailer :=
    fun _ he => name_ne_trailer h he
  rcases hes : entriesOf MAXDEPTH [] root with - | ⟨e, es⟩
  · -- there is no entry, so there is nothing in the directory
    obtain - | ⟨⟨nm, node⟩, root⟩ := root
    · rfl
    have hat : At ((nm, node) :: root) [] nm node := At.top mem_cons_self
    obtain ⟨e, hent⟩ : ∃ e, node.ent (pathIn [] nm.bytes) = some e := by
      cases node with
      | dir sub => exact ⟨_, rfl⟩
      | file exec body => exact ⟨_, rfl⟩
      | link target => exact ⟨_, rfl⟩
      | special => exact absurd hat h.plain
    have hmem := (mem_entriesOf_iff h).mpr ⟨[], nm, node, hat, hent⟩
    rw [hes] at hmem
    cases hmem
  · rw [hes] at hok hname hlists
    have hnext := nextBy_listAt_entry (hok e mem_cons_self)
      (e.body ++ (zeros (padding e.body.length) ++ archive es))
    rw [if_neg (hname e mem_cons_self)] at hnext
    rw [archive_cons] at hlists
    obtain ⟨outs, htext, -⟩ := (Turns.finishes_iff_of_next hnext).mp hlists
    rw [listed, flatMap_cons, append_assoc, append_assoc] at htext
    have hbyte := (cons.inj (append_cancel_left htext)).1
    exact absurd hbyte (by decide)

/-- **A round trip** brings everything back where no symlink is longer than a page, but the
names that are listed are those of the entries only if there are none. -/
theorem round_trip_iff (h : IsTree root) :
    (RoundTrip [newline] root ↔ root = []) ∧
      (Fits root → (RoundTrip [0, newline] root ↔ Short root PAGE)) := by
  refine ⟨⟨eq_nil_of_roundTrip h, ?_⟩, fun hfits =>
    ⟨short_of_roundTrip h, roundTrip_of_fits h hfits⟩⟩
  rintro rfl
  have hnone : ∀ {ds nm node}, ¬ At [] ds nm node := by
    intro ds nm node hat
    induction hat with
    | top hmem => cases hmem
    | inside _ _ ih => exact ih
  have hnil : entriesOf MAXDEPTH [] [] = [] := by
    rw [show MAXDEPTH = 14 + 1 from rfl, entriesOf, sorted, mergeSort_nil, flatMap_nil]
  obtain ⟨bytes, hcreate, hlist, hextract⟩ :=
    roundTrip_of_fits h (fun hat => absurd hat hnone) fun hat => absurd hat hnone
  rw [hnil] at hlist
  refine ⟨bytes, hcreate, ?_, hextract⟩
  rw [hnil]
  exact hlist

lemma fits_several : Fits several := by
  intro ds nm exec body h
  obtain ⟨-, h⟩ | ⟨-, -, h⟩ := eq_of_at_several h
  · obtain ⟨-, -, rfl⟩ : _ ∧ _ ∧ _ := by simpa [several] using h
    decide
  · obtain ⟨-, rfl⟩ := Node.file.inj h
    decide

/-- A file, a symlink and a directory with a file come back, listed with zeros. -/
theorem round_trip_iff_several : ¬RoundTrip [newline] several ∧ RoundTrip [0, newline] several := by
  obtain ⟨hplain, hzero⟩ := round_trip_iff isTree_several
  exact ⟨fun htrip => cons_ne_nil _ _ (hplain.mp htrip), (hzero fits_several).mpr short_several⟩

/-- **Not every listing** has just the names: this one has a zero behind the `a`. -/
theorem not_round_trip : ¬ ∀ root, IsTree root → RoundTrip [newline] root := by
  intro h
  have hfile := isTree_file nameA_ne_trailer false (show [0x41, 0x42].length < 2 ^ 32 by decide)
  have hnil := eq_nil_of_roundTrip hfile (h _ hfile)
  cases hnil

end Minibase.Cpio
