import Minibase.Cpio.Create

/-!
# What is packed of a directory

A directory is everything that can be found in it along a path (`Cpio.At`). The
entries of its archive are just these (`Cpio.mem_entriesOf_iff`), each after the
directory that it is in (`Cpio.sublist_entriesOf`), if nothing is deeper than
`MAXDEPTH`. Where there is nothing that `cmd_create` refuses, it comes to an end
(`Cpio.cmdCreate_ok`).
-/

namespace Minibase.Cpio

open List Option

variable {root entries : List (Name × Node)} {ds : List Name} {nm : Name} {node : Node} {e : Ent}

/-- What there is of this name in a directory, at the end of a path of directories. -/
inductive At (root : List (Name × Node)) : List Name → Name → Node → Prop
  | top {nm : Name} {node : Node} (h : (nm, node) ∈ root) : At root [] nm node
  | inside {ds : List Name} {d nm : Name} {sub : List (Name × Node)} {node : Node}
      (hdir : At root ds d (.dir sub)) (h : (nm, node) ∈ sub) : At root (ds ++ [d]) nm node

/-- A directory as there may be one: not too deep and with no devices in it. The files are
no larger than can be said in a header, and what a symlink says is a string. Nothing in the
directory itself has the name of the last entry. -/
structure IsTree (root : List (Name × Node)) : Prop where
  depth : ∀ {ds d sub}, At root ds d (.dir sub) → ds.length < MAXDEPTH
  plain : ∀ {ds nm}, ¬ At root ds nm .special
  size : ∀ {ds nm exec body}, At root ds nm (.file exec body) → body.length < 2 ^ 32
  string : ∀ {ds nm target}, At root ds nm (.link target) → 0 ∉ target
  trailer : ∀ {nm node}, At root [] nm node → nm.bytes ≠ trailer

/-- Nothing is deeper than that. -/
theorem IsTree.length_le (h : IsTree root) (hat : At root ds nm node) : ds.length ≤ MAXDEPTH := by
  cases hat with
  | top _ => exact Nat.zero_le _
  | inside hdir _ =>
    rw [length_append, length_singleton]
    exact h.depth hdir

/-- The entry for what there is under a name. -/
def Node.ent (path : List UInt8) : Node → Option Ent
  | .dir _ => some (.dir (path ++ [slash]))
  | .file exec body => some (.file path exec body)
  | .link target => some (.link path target)
  | .special => none

/-! ### Entries that are found -/

/-- **What a directory entry becomes**: its own entry, and those of what is in it. -/
theorem mem_entryOf_iff {inside : List UInt8 → List (Name × Node) → List Ent} :
    e ∈ entryOf inside (pathIn ds []) (nm, node) ↔
      node.ent (pathIn ds nm.bytes) = some e ∨
        ∃ sub, node = .dir sub ∧ e ∈ inside (pathIn (ds ++ [nm]) []) sub := by
  have hpath := pathIn_snoc ds nm []
  rw [append_nil, ← pathIn_append] at hpath
  rw [entryOf, ← pathIn_append]
  cases node with
  | dir sub =>
    show e ∈ Ent.dir (pathIn ds nm.bytes ++ [slash]) :: inside (pathIn ds nm.bytes ++ [slash]) sub ↔
      _
    rw [← hpath, mem_cons, Node.ent, ← hpath]
    constructor
    · rintro (rfl | he)
      · exact .inl rfl
      · exact .inr ⟨sub, rfl, he⟩
    · rintro (he | ⟨_, ⟨⟩, he⟩)
      · exact .inl (Option.some.inj he).symm
      · exact .inr he
  | file exec body =>
    show e ∈ [Ent.file (pathIn ds nm.bytes) exec body] ↔ _
    rw [mem_singleton, Node.ent, some_inj, eq_comm]
    exact ⟨.inl, fun h => h.resolve_right fun ⟨_, hsub, _⟩ => nomatch hsub⟩
  | link target =>
    show e ∈ [Ent.link (pathIn ds nm.bytes) target] ↔ _
    rw [mem_singleton, Node.ent, some_inj, eq_comm]
    exact ⟨.inl, fun h => h.resolve_right fun ⟨_, hsub, _⟩ => nomatch hsub⟩
  | special =>
    refine iff_of_false not_mem_nil ?_
    rintro (⟨⟨⟩⟩ | ⟨_, ⟨⟩, _⟩)

/-- The entries of a directory, one after the other. -/
theorem sublist_flatMap_of_mem {α β : Type} {f : α → List β} {l : List α} {a : α} (h : a ∈ l) :
    (f a).Sublist (l.flatMap f) := by
  rw [flatMap_def]
  exact sublist_flatten_of_mem (mem_map_of_mem h)

/-- What is in a directory becomes an entry. -/
theorem mem_entriesOf_of_mem (h : (nm, node) ∈ entries)
    (hent : node.ent (pathIn ds nm.bytes) = some e)
    (k : ℕ) : e ∈ entriesOf k (pathIn ds []) entries := by
  have hsorted : (nm, node) ∈ sorted entries := mem_mergeSort.mpr h
  cases k with
  | zero => exact (sublist_flatMap_of_mem hsorted).subset (mem_entryOf_iff.mpr (.inl hent))
  | succ k => exact (sublist_flatMap_of_mem hsorted).subset (mem_entryOf_iff.mpr (.inl hent))

/-- **A directory with what is in it** is among the entries of the directory that it is in. -/
theorem sublist_entriesOf_of_mem {d : Name} {sub : List (Name × Node)} (h : (d, .dir sub) ∈ entries)
    (k : ℕ) :
    (Ent.dir (pathIn (ds ++ [d]) []) :: entriesOf k (pathIn (ds ++ [d]) []) sub).Sublist
      (entriesOf (k + 1) (pathIn ds []) entries) := by
  have hsorted : (d, Node.dir sub) ∈ sorted entries := mem_mergeSort.mpr h
  have hentry : entryOf (entriesOf k) (pathIn ds []) (d, .dir sub) =
      Ent.dir (pathIn (ds ++ [d]) []) :: entriesOf k (pathIn (ds ++ [d]) []) sub := by
    rw [pathIn_snoc, append_nil]
    rfl
  rw [← hentry]
  exact sublist_flatMap_of_mem hsorted

/-- The same for a directory at the end of a path. -/
theorem sublist_entriesOf_of_at {d : Name} {sub : List (Name × Node)} (h : At root ds d (.dir sub))
    {k n : ℕ}
    (hn : n = ds.length + 1 + k) :
    (Ent.dir (pathIn (ds ++ [d]) []) :: entriesOf k (pathIn (ds ++ [d]) []) sub).Sublist
      (entriesOf n [] root) := by
  generalize hnode : Node.dir sub = node at h
  induction h generalizing sub k with
  | top hmem =>
    rw [← hnode] at hmem
    rw [hn, length_nil, zero_add, add_comm]
    show List.Sublist _ (entriesOf (k + 1) (pathIn [] []) root)
    exact sublist_entriesOf_of_mem hmem k
  | inside hdir hmem ih =>
    rw [← hnode] at hmem
    rw [length_append, length_singleton] at hn
    have hbelow := ih (k := k + 1) (by omega) rfl
    exact ((sublist_entriesOf_of_mem hmem k).trans (sublist_cons_self _ _)).trans hbelow

/-- **What there is becomes an entry.** -/
theorem mem_entriesOf (h : At root ds nm node) (hlen : ds.length ≤ MAXDEPTH)
    (hent : node.ent (pathIn ds nm.bytes) = some e) : e ∈ entriesOf MAXDEPTH [] root := by
  cases h with
  | top hmem => exact mem_entriesOf_of_mem hmem hent MAXDEPTH
  | inside hdir hmem =>
    rw [length_append, length_singleton] at hlen
    obtain ⟨k, hk⟩ := Nat.exists_eq_add_of_le hlen
    exact ((sublist_cons_self _ _).trans (sublist_entriesOf_of_at hdir hk)).subset
      (mem_entriesOf_of_mem hmem hent k)

/-- **Each entry comes after the directory that it is in.** -/
theorem sublist_entriesOf (h : At root ds nm node) (hlen : ds.length ≤ MAXDEPTH) (hds : ds ≠ [])
    (hent : node.ent (pathIn ds nm.bytes) = some e) :
    [Ent.dir (pathIn ds []), e].Sublist (entriesOf MAXDEPTH [] root) := by
  cases h with
  | top hmem => exact absurd rfl hds
  | inside hdir hmem =>
    rw [length_append, length_singleton] at hlen
    obtain ⟨k, hk⟩ := Nat.exists_eq_add_of_le hlen
    refine List.Sublist.trans ?_ (sublist_entriesOf_of_at hdir hk)
    exact (singleton_sublist.mpr (mem_entriesOf_of_mem hmem hent k)).cons_cons _

/-- **An entry stands for what there is** somewhere. -/
theorem at_of_mem_entriesOf {k : ℕ} (hroot : ∀ {nm node}, (nm, node) ∈ entries → At root ds nm node)
    (he : e ∈ entriesOf k (pathIn ds []) entries) :
    ∃ ds nm node, At root ds nm node ∧ node.ent (pathIn ds nm.bytes) = some e := by
  induction k generalizing ds entries with
  | zero =>
    obtain ⟨⟨nm, node⟩, hen, he⟩ := mem_flatMap.mp he
    rcases mem_entryOf_iff.mp he with hent | ⟨_, -, he⟩
    · exact ⟨ds, nm, node, hroot (mem_mergeSort.mp hen), hent⟩
    · cases he
  | succ k ih =>
    obtain ⟨⟨nm, node⟩, hen, he⟩ := mem_flatMap.mp he
    have hat := hroot (mem_mergeSort.mp hen)
    rcases mem_entryOf_iff.mp he with hent | ⟨sub, rfl, hbelow⟩
    · exact ⟨ds, nm, node, hat, hent⟩
    · exact ih (fun hsub => At.inside hat hsub) hbelow

/-- **The entries of an archive** are those for what there is. -/
theorem mem_entriesOf_iff (h : IsTree root) :
    e ∈ entriesOf MAXDEPTH [] root ↔
      ∃ ds nm node, At root ds nm node ∧ node.ent (pathIn ds nm.bytes) = some e := by
  constructor
  · intro he
    have htop : e ∈ entriesOf MAXDEPTH (pathIn [] []) root := he
    exact at_of_mem_entriesOf At.top htop
  · rintro ⟨ds, nm, node, hat, hent⟩
    exact mem_entriesOf hat (h.length_le hat) hent

/-- No entry has the name of the last one. -/
theorem name_ne_trailer (h : IsTree root) (he : e ∈ entriesOf MAXDEPTH [] root) :
    e.name ≠ trailer := by
  obtain ⟨ds, nm, node, hat, hent⟩ := (mem_entriesOf_iff h).mp he
  have hslash : slash ∉ trailer := by decide
  have hname : e.name = pathIn ds nm.bytes ∨ slash ∈ e.name := by
    cases node with
    | dir sub =>
      cases hent
      exact .inr (mem_append_right _ (mem_singleton_self _))
    | file exec body =>
      cases hent
      exact .inl rfl
    | link target =>
      cases hent
      exact .inl rfl
    | special => cases hent
  rcases hname with hname | hin
  · rw [hname]
    obtain - | ⟨d, ds⟩ := ds
    · exact h.trailer hat
    · intro heq
      rw [← heq, pathIn_cons] at hslash
      exact hslash (mem_append_right _ mem_cons_self)
  · intro heq
    rw [heq] at hin
    exact hslash hin

/-! ### Archives that can be made -/

/-- A symlink that is short enough. -/
def Short (root : List (Name × Node)) (n : ℕ) : Prop :=
  ∀ {ds nm target}, At root ds nm (.link target) → target.length ≤ n

lemma checkDent_ok (h : IsTree root) (hshort : Short root 0xFFFF) (hat : At root ds nm node) :
    checkDent (nm, node) = .ok () := by
  cases node with
  | dir sub => rfl
  | file exec body =>
    have hsize := h.size hat
    exact if_neg (show ¬ body.length > 0xFFFFFFFF by omega)
  | link target => exact if_neg (Nat.not_lt.mpr (hshort hat))
  | special => exact absurd hat h.plain

lemma forM_ok {ε α : Type} {f : α → Except ε Unit} {l : List α} (h : ∀ a ∈ l, f a = .ok ()) :
    l.forM f = .ok () := by
  induction l with
  | nil => rfl
  | cons a l ih =>
    obtain ⟨ha, hl⟩ := forall_mem_cons.mp h
    refine forM_cons.trans ?_
    rw [ha]
    exact ih hl

lemma foldlM_ok {ε α σ : Type} {f : σ → α → Except ε σ} {l : List α}
    (h : ∀ a ∈ l, ∀ s, ∃ s', f s a = .ok s') (s : σ) : ∃ s', l.foldlM f s = .ok s' := by
  induction l generalizing s with
  | nil => exact ⟨s, rfl⟩
  | cons a l ih =>
    obtain ⟨ha, hl⟩ := forall_mem_cons.mp h
    obtain ⟨s1, h1⟩ := ha s
    obtain ⟨s2, h2⟩ := ih hl s1
    exact ⟨s2, by rw [foldlM_cons, h1]; exact h2⟩

/-- One entry of a directory, where directories can be entered. -/
theorem processEntry_ok {enter : Arc → List UInt8 → List (Name × Node) → Except String Arc}
    (h : IsTree root) (hat : At root ds nm node)
    (henter : ∀ sub, node = .dir sub → ∀ st, ∃ st', enter st (pathIn (ds ++ [nm]) []) sub = .ok st')
    (st : Arc) : ∃ st', processEntry enter (pathIn ds []) st (nm, node) = .ok st' := by
  cases node with
  | dir sub =>
    have hpath := pathIn_snoc ds nm []
    rw [append_nil] at hpath
    rw [hpath] at henter
    exact henter sub rfl st
  | file exec body => exact ⟨_, putFile_eq st (pathIn ds []) nm.bytes exec body⟩
  | link target => exact ⟨_, putSymlink_eq st (pathIn ds []) nm.bytes target⟩
  | special => exact absurd hat h.plain

/-- **A directory in which nothing is refused** is packed. -/
theorem scanDirectory_ok (h : IsTree root) (hshort : Short root 0xFFFF) {k : ℕ}
    (hk : ds.length + k = MAXDEPTH) (hroot : ∀ {nm node}, (nm, node) ∈ entries → At root ds nm node)
    (st : Arc) : ∃ st', scanDirectory k st (pathIn ds []) entries = .ok st' := by
  have hdents : entries.forM checkDent = .ok () :=
    forM_ok fun en hen => checkDent_ok h hshort (hroot hen)
  induction k generalizing ds entries st with
  | zero =>
    rw [scanDirectory, hdents]
    refine foldlM_ok ?_ st
    rintro ⟨nm, node⟩ hen st
    have hat := hroot (mem_mergeSort.mp hen)
    refine processEntry_ok h hat (fun sub hsub => ?_) st
    -- a directory here would be too deep
    rw [hsub] at hat
    have hdepth := h.depth hat
    omega
  | succ k ih =>
    rw [scanDirectory, hdents]
    refine foldlM_ok ?_ st
    rintro ⟨nm, node⟩ hen st
    have hat := hroot (mem_mergeSort.mp hen)
    refine processEntry_ok h hat (fun sub hsub st => ?_) st
    rw [hsub] at hat
    rw [putPref_eq]
    refine ih ?_ (At.inside hat) _ (forM_ok fun en hen => checkDent_ok h hshort (At.inside hat hen))
    rw [length_append, length_singleton, add_assoc, add_comm 1, hk]

/-- **`cmd_create` makes an archive** of it. -/
theorem cmdCreate_ok (h : IsTree root) (hshort : Short root 0xFFFF) :
    cmdCreate root = .ok (archive (entriesOf MAXDEPTH [] root)) := by
  have hscan : ∃ st, scanDirectory MAXDEPTH ⟨[], 0⟩ (pathIn [] []) root = .ok st :=
    scanDirectory_ok h hshort (zero_add _) At.top ⟨[], 0⟩
  obtain ⟨st, hst⟩ := hscan
  have hbytes : ∃ bytes, cmdCreate root = .ok bytes := by
    refine ⟨st.whole ++ trailerBytes, ?_⟩
    rw [cmdCreate]
    show (scanDirectory MAXDEPTH ⟨[], 0⟩ (pathIn [] []) root >>= _) = _
    rw [hst]
    show (putTrailer st >>= _) = _
    rw [putTrailer_eq]
    rfl
  obtain ⟨bytes, hcreate⟩ := hbytes
  rw [hcreate, (cmdCreate_eq hcreate).1]

/-! ### A directory with one file -/

section File

variable {nm : Name} {body : List UInt8} (hname : nm.bytes ≠ trailer) (exec : Bool)

/-- All there is in it. -/
theorem eq_of_at_file {nm' : Name} (h : At [(nm, .file exec body)] ds nm' node) :
    nm' = nm ∧ node = .file exec body := by
  induction h with
  | top hmem => exact Prod.mk.inj (mem_singleton.mp hmem)
  | inside _ _ ih => exact nomatch ih.2

include hname

lemma isTree_file (hsize : body.length < 2 ^ 32) : IsTree [(nm, .file exec body)] := by
  refine ⟨fun h => ?_, fun h => ?_, fun h => ?_, fun h => ?_, fun h => ?_⟩
  · exact nomatch (eq_of_at_file exec h).2
  · exact nomatch (eq_of_at_file exec h).2
  · obtain ⟨-, rfl⟩ := Node.file.inj (eq_of_at_file exec h).2
    exact hsize
  · exact nomatch (eq_of_at_file exec h).2
  · rw [(eq_of_at_file exec h).1]
    exact hname

omit hname in
lemma entriesOf_file : entriesOf MAXDEPTH []
    [(nm, .file exec body)] = [.file nm.bytes exec body] := by
  rw [show MAXDEPTH = 14 + 1 from rfl, entriesOf, sorted, mergeSort_singleton]
  rfl

lemma cmdCreate_file (hsize : body.length < 2 ^ 32) :
    cmdCreate [(nm, .file exec body)] = .ok (archive [.file nm.bytes exec body]) := by
  have hcreate := cmdCreate_ok (isTree_file hname exec hsize) fun h =>
    nomatch (eq_of_at_file exec h).2
  rwa [entriesOf_file] at hcreate

end File

/-- The file `a`. -/
def nameA : Name where
  bytes := [0x61]
  ne_nil := by decide
  no_slash := by decide
  no_zero := by decide
  plain := by decide
  short := by decide

lemma nameA_ne_trailer : nameA.bytes ≠ trailer := by decide

/-! ### A directory with a directory in it -/

def nameC : Name := ⟨[0x63], by decide, by decide, by decide, by decide, by decide⟩

def nameD : Name := ⟨[0x64], by decide, by decide, by decide, by decide, by decide⟩

/-- The file `a`, the symlink `c` to it, and the directory `d` with a program in it. -/
def several : List (Name × Node) :=
  [(nameA, .file false [0x41, 0x42]), (nameC, .link nameA.bytes),
    (nameD, .dir [(nameA, .file true [0x43])])]

/-- All there is in it. -/
theorem eq_of_at_several (h : At several ds nm node) :
    (ds = [] ∧ (nm, node) ∈ several) ∨ (ds = [nameD] ∧ nm = nameA ∧ node = .file true [0x43]) := by
  induction h with
  | top hmem => exact .inl ⟨rfl, hmem⟩
  | inside _ hmem ih =>
    obtain ⟨rfl, hdir⟩ | ⟨-, -, hdir⟩ := ih
    · simp only [several, mem_cons, Prod.mk.injEq, reduceCtorEq, and_false, false_or, not_mem_nil,
        or_false, Node.dir.injEq] at hdir
      obtain ⟨rfl, rfl⟩ := hdir
      exact .inr ⟨rfl, Prod.mk.inj (mem_singleton.mp hmem)⟩
    · cases hdir

lemma isTree_several : IsTree several := by
  refine ⟨fun hat => ?_, fun hat => ?_, fun hat => ?_, fun hat => ?_, fun hat => ?_⟩
  all_goals
    obtain ⟨hds, h⟩ | ⟨hds, -, h⟩ := eq_of_at_several hat
  · rw [hds]
    decide
  · cases h
  · simp [several] at h
  · cases h
  · obtain ⟨-, -, rfl⟩ : _ ∧ _ ∧ _ := by simpa [several] using h
    decide
  · obtain ⟨-, rfl⟩ := Node.file.inj h
    decide
  · obtain ⟨-, rfl⟩ : _ ∧ _ := by simpa [several] using h
    decide
  · cases h
  · have hmem : _ ∈ several.map (·.1.bytes) := mem_map_of_mem h
    intro htrailer
    rw [htrailer] at hmem
    exact absurd hmem (by decide)
  · cases hds

lemma short_several : Short several PAGE := by
  intro ds nm target h
  obtain ⟨-, h⟩ | ⟨-, -, h⟩ := eq_of_at_several h
  · obtain ⟨-, rfl⟩ : _ ∧ _ := by simpa [several] using h
    decide
  · cases h

lemma entriesOf_several : entriesOf MAXDEPTH [] several =
    [.file nameA.bytes false [0x41, 0x42], .link nameC.bytes nameA.bytes, .dir [0x64, slash],
      .file [0x64, slash, 0x61] true [0x43]] := by
  have hsorted : sorted several = several := mergeSort_of_pairwise (by decide)
  have hinside : sorted [(nameA, .file true [0x43])] = [(nameA, .file true [0x43])] :=
    mergeSort_singleton ..
  rw [show MAXDEPTH = 13 + 1 + 1 from rfl, entriesOf, hsorted]
  simp only [several, flatMap_cons, flatMap_nil, entryOf, entriesOf, hinside]
  rfl

end Minibase.Cpio
