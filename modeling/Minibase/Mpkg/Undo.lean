import Minibase.Mpkg.Removed

/-!
# Undoing a deployment

A package that was deployed and then removed should leave the file system as it was, up to
directories without files (`Mpkg.Undone`). It does **if and only if there is a prefix other than
`/`**, and the list of files is not too long to be read back (`Mpkg.remove_undoes_iff`): without
one `setup_prefix` sets it to `/`, and the paths are then written after two slashes, but no line
says so.
-/

namespace Minibase.Mpkg

open List Option Fs

/-- A prefix as the configuration gives it: an absolute path on a line. -/
structure Prefix where
  text : List UInt8
  absolute : text.head? = some 47
  noNewline : 10 ∉ text
  noNul : 0 ∉ text

/-- The length of the list of a package, with the line of the prefix. -/
def listSize (pre : List UInt8) (nodes : List Node) : ℕ :=
  pre.length + 2 + ((leafPaths [] nodes).map fun x =>
    pre.length + 1 + (x.1.map fun n => n.length + 1).sum + x.2.length + 1).sum

/-- **Restored, up to empty directories**: the files and links are the same, and a directory
that is there on one side only has none of them below it. -/
structure Undone (fs fs' : Fs (List Name)) : Prop where
  leaves : ∀ d n, fs'.leaf d n = fs.leaf d n
  dirs : ∀ q, ¬(fs.IsDir q ↔ fs'.IsDir q) → ∀ d n, q <+: d → fs.leaf d n = none

/-! ### What deploying leaves -/

section Deploy

variable {fs fs' : Fs (List Name)} {lst : ListName} {pre : List UInt8}

lemma orFail_ok {α : Type} {obj : List UInt8} {x : Except Errno α} {a : α}
    (h : orFail obj x = .ok a) : x = .ok a := by
  rcases x with e | a'
  · cases h
  · cases h
    rfl

lemma mapError_ok {α ε ε' : Type} {f : ε → ε'} {x : Except ε α} {a : α}
    (h : x.mapError f = .ok a) : x = .ok a := by
  rcases x with e | a'
  · cases h
  · cases h
    rfl

lemma ListName.base_ne_nil (lst : ListName) : lst.base ≠ [] :=
  append_ne_nil_of_right_ne_nil _ (cons_ne_nil _ _)

/-- The directory of the group is made, or was there. -/
theorem prepRepoDir_ok (htree : fs.Tree) (h : prepRepoDir fs lst = .ok fs') :
    Unpacked fs fs' [] := by
  rw [prepRepoDir] at h
  rcases hgroup : lst.group with - | g <;> rw [hgroup] at h
  · cases h
    exact unpacked_nil htree (Fs.Extends.refl _) fun _ _ => rfl
  · have hg : Fs.Plain g := lst.plain g (by simp [hgroup])
    obtain ⟨d, hd, h⟩ := ok_of_bind h
    have hdir := htree.isDir_of_walkTo (isDir_nil fs) (orFail_ok hd)
    split at h
    · rename_i fs₁ hmk
      cases h
      obtain ⟨d', hd', hfree, rfl⟩ := create_ok hmk
      cases hd'
      refine unpacked_nil (htree.add hdir hfree hg.1 ?_) (extends_add hfree _)
        (leaf_add_dir hfree)
      rintro d' ⟨⟩
      rfl
    · cases h
      exact unpacked_nil htree (Fs.Extends.refl _) fun _ _ => rfl
    · cases h

/-- **The list is a new file**, with the lines in it. -/
theorem writeFiledb_ok {index : List Node} {text : List UInt8} (htree : fs.Tree)
    (hentries : writeEntries pre [] index = .ok text)
    (h : writeFiledb fs lst pre index = .ok fs') :
    Unpacked fs fs' [(lst.home, lst.base)] ∧
      fs'.look lst.home lst.base = some (.file (writePrefix pre ++ text) false) := by
  obtain ⟨fs₁, hrepo, h⟩ := ok_of_bind h
  have hprep := prepRepoDir_ok htree hrepo
  obtain ⟨d, hd, h⟩ := ok_of_bind h
  have hd := orFail_ok hd
  obtain ⟨fs₂, hcreat, h⟩ := ok_of_bind h
  obtain ⟨text', -, h⟩ := ok_of_bind h
  cases h
  have hdir := hprep.tree.isDir_of_walkTo (isDir_nil _) hd
  obtain rfl : d = lst.home := hprep.tree.walkTo_eq (p := lst.home) lst.plain hd
  obtain ⟨d', hd', hfree, rfl⟩ := create_ok (orFail_ok hcreat)
  cases hd'
  rw [hentries]
  refine ⟨?_, look_add_self⟩
  have hleaf := unpacked_leaf (e := .file (writePrefix pre ++ text) false) hprep.tree hdir hfree
    lst.base_ne_nil (by rintro d' ⟨⟩)
  exact hprep.append hleaf

/-- **A package was deployed**: its list and its leaves are there, and were not before. -/
structure Deployed (fs fs' : Fs (List Name)) (lst : ListName) (pre : List UInt8)
    (r : List Name) (paths : List (List Name × Name)) : Prop where
  root : fs.openAbs pre = .ok r
  unpacked : Unpacked fs fs' ((lst.home, lst.base) :: spotsOf r paths)
  list : fs'.look lst.home lst.base = some (.file (writePrefix pre ++ entriesOf pre paths) false)
  nonempty : paths ≠ []
  proper : ∀ x ∈ paths, ProperPath x
  depth : ∀ x ∈ paths, x.1.length ≤ MAXDEPTH

lemma leafPaths_ne_nil {nds : List Node} {cur : List Name} {nd : Node} (hnd : nd ∈ nds)
    (hdir : nd.isDir = false) : leafPaths cur nds ≠ [] := by
  induction nds generalizing cur with
  | nil => cases hnd
  | cons nd' nds ih =>
    rw [leafPaths]
    split
    · rename_i hd
      rcases mem_cons.mp hnd with rfl | hnd
      · rw [hdir] at hd
        cases hd
      · exact ih hnd
    · exact cons_ne_nil _ _

lemma cmdDeploy_deployed {pre : Option (List UInt8)} {rules : Rules} {pac data : List UInt8}
    {nodes : List Node} (htree : fs.Tree) (hpac : loadPacfile pac = .ok (nodes, data))
    (h : cmdDeploy fs pre rules lst pac = .ok fs') :
    ∃ r, Deployed fs fs' lst (pre.getD [47]) r (leafPaths [] nodes) := by
  obtain ⟨⟨nodes', data'⟩, hload, h⟩ := ok_of_bind h
  rw [hpac] at hload
  cases hload
  obtain ⟨hlev, hloaded, -⟩ := loadPacfile_spec hpac
  obtain ⟨⟨path, r⟩, hset, h⟩ := ok_of_bind h
  obtain ⟨r', hroot, hset⟩ := ok_of_bind hset
  cases hset
  obtain ⟨_, -, h⟩ := ok_of_bind h
  obtain ⟨index, hindex, h⟩ := ok_of_bind h
  obtain ⟨houtline, hneed, hproper⟩ := checkIndex_spec (mapError_ok hindex) hloaded
  obtain ⟨_, -, h⟩ := ok_of_bind h
  obtain ⟨fs₁, hwrite, h⟩ := ok_of_bind h
  obtain ⟨_, hnull, h⟩ := ok_of_bind h
  obtain ⟨_, hsome, -⟩ := ok_of_bind hnull
  obtain ⟨u, hunpack, h⟩ := ok_of_bind h
  cases h
  -- the index that is unpacked has new bits, but the same names on the same levels
  obtain ⟨hkeep, hneeds⟩ := @checkAll_keeps _ _ fs ⟨r, []⟩ index
  have hsame : outline nodes = outline (checkConflict fs r index).1 :=
    (hkeep.trans houtline).symm
  have hlev' := leveled_of_outline hsame hlev
  have hproper' := forall_name_of_outline hkeep.symm hproper
  have hneed' : ∀ nd ∈ (checkConflict fs r index).1, nd.need = true := by
    intro nd hnd
    have hmem : nd.need ∈ index.map Node.need := by
      rw [← hneeds]
      exact mem_map_of_mem hnd
    obtain ⟨old, hold, heq⟩ := mem_map.mp hmem
    rw [← heq]
    exact hneed old hold
  rw [leafPaths_of_outline hsame]
  have hentries := @writeEntries_eq (pre.getD [47]) [] _ hneed' hlev'
  obtain ⟨hfiled, hlist⟩ := writeFiledb_ok htree hentries hwrite
  have hroot := orFail_ok hroot
  have hdir := htree.isDir_of_walkTo (isDir_nil fs) hroot
  have hunp := unpackContent_unpacked hfiled.tree (hdir.extends hfiled.more) hneed'
    (fun nd hnd => (hproper' nd hnd).nonempty) hlev' (mapError_ok hunpack)
  refine ⟨r, hroot, hfiled.append hunp, ?_, ?_, ?_, ?_⟩
  · rw [hunp.more _ _ (by rw [hlist]; exact nofun), hlist]
  · have hany : ¬(checkConflict fs r index).1.any (fun nd => !nd.isDir && nd.need) = false :=
      refuse_eq_ok_iff.mp hsome
    obtain ⟨nd, hnd, hleaf⟩ := any_eq_true.mp (Bool.of_not_eq_false hany)
    rw [Bool.and_eq_true, Bool.not_eq_true'] at hleaf
    exact leafPaths_ne_nil hnd hleaf.1
  · exact proper_of_mem_leafPaths hproper' fun n hn => nomatch hn
  · exact depth_of_mem_leafPaths hlev' (Nat.zero_le _)

end Deploy

/-! ### The list, read back -/

section List

variable {fs fs' : Fs (List Name)} {lst : ListName} {pre : List UInt8} {r : List Name}
  {paths : List (List Name × Name)}

/-- With a prefix, the first line says how much there is to be cut off. -/
theorem checkPrefix_line (hne : pre ≠ [47]) (hpre : 10 ∉ pre) (text : List UInt8) :
    checkPrefix (writePrefix pre ++ text) = (some pre, pre.length + 1, pre.length + 2) ∧
      (writePrefix pre ++ text).drop (pre.length + 2) = text := by
  have hsplit : writePrefix pre ++ text = (pre ++ [47]) ++ 10 :: text := by
    rw [writePrefix, if_neg hne]
    simp
  have hclean : ∀ c ∈ pre ++ [47], decide (c ≠ 10) = true := by
    intro c hc
    refine decide_eq_true ?_
    rintro rfl
    rcases mem_append.mp hc with hc | hc
    · exact hpre hc
    · exact absurd (mem_singleton.mp hc) (by decide)
  have hline : (writePrefix pre ++ text).takeWhile (· ≠ 10) = pre ++ [47] := by
    rw [hsplit, takeWhile_append_of_pos hclean, takeWhile_cons]
    simp
  constructor
  · rw [checkPrefix, hline]
    simp
  · have hlen : (pre ++ [47] ++ [10]).length = pre.length + 2 := by simp
    rw [hsplit, append_cons]
    exact drop_left' hlen

/-- Without one, the first line is a path. -/
theorem checkPrefix_none (hne : paths ≠ []) (hx : ∀ x ∈ paths, ProperPath x) :
    checkPrefix (entriesOf [47] paths) = (none, 0, 0) := by
  obtain ⟨x, rest, rfl⟩ := exists_cons_of_ne_nil hne
  have hx := hx x mem_cons_self
  have hclean : ∀ c ∈ lineOf [47] x, decide (c ≠ 10) = true := by
    intro c hc
    refine decide_eq_true ?_
    rintro rfl
    exact noNewline_lineOf (by decide) hx hc
  have hline : (entriesOf [47] (x :: rest)).takeWhile (· ≠ 10) = lineOf [47] x := by
    rw [entriesOf_cons, takeWhile_append_of_pos hclean, takeWhile_cons]
    simp
  have hlast : (lineOf [47] x).getLast? ≠ some 47 := by
    have hsplit : lineOf [47] x = (47 :: 47 :: x.1.flatMap (· ++ [47])) ++ x.2 := rfl
    rw [hsplit, getLast?_append_of_ne_nil _ hx.2.nonempty]
    exact fun h => hx.2.noSlash (mem_of_getLast? h)
  rw [checkPrefix, hline, if_neg hlast]

lemma length_entriesOf (paths : List (List Name × Name)) :
    (entriesOf pre paths).length = (paths.map fun x =>
      pre.length + 1 + (x.1.map fun n => n.length + 1).sum + x.2.length + 1).sum := by
  have hdirs : ∀ h : List Name, (h.flatMap (· ++ [47])).length =
    (h.map fun n => n.length + 1).sum := by
    intro h
    rw [length_flatMap]
    simp
  induction paths with
  | nil => rfl
  | cons x paths ih =>
    rw [entriesOf_cons, length_append, length_cons, ih, map_cons, sum_cons,
      lineOf, length_append, length_cons, joined, length_append, hdirs]
    omega

/-- The list of a package that was deployed is read, if it is not too long. -/
theorem Deployed.load (h : Deployed fs fs' lst pre r paths) :
    loadFiledb fs' lst =
      if 0xFFFFFFFF < (writePrefix pre ++ entriesOf pre paths).length then
        .error (.fail none (some lst.text) (some .E2BIG))
      else .ok (writePrefix pre ++ entriesOf pre paths) := by
  have hdir := h.unpacked.tree.closed lst.home lst.base (by rw [h.list]; exact nofun)
  have hwalk : fs'.walkTo [] lst.home = .ok lst.home :=
    h.unpacked.tree.walkTo_of_isDir lst.plain hdir
  rw [loadFiledb, hwalk]
  simp only [orFail, bind, Except.bind, h.unpacked.tree.stat_of_look h.list, refuse]
  by_cases hbig : 0xFFFFFFFF < (writePrefix pre ++ entriesOf pre paths).length
  · simp only [if_pos hbig]
  · simp only [if_neg hbig]
    rfl

/-- `unlink_filedb` takes out the list, and no other leaf. -/
theorem unlinkFiledb_ok (htree : fs.Tree) (hleaf : fs.leaf lst.home lst.base ≠ none) :
    ∃ fs', unlinkFiledb fs lst = .ok fs' ∧ fs'.Tree ∧ fs'.leaf lst.home lst.base = none ∧
      ∀ k, k ≠ (lst.home, lst.base) → fs'.leaf k.1 k.2 = fs.leaf k.1 k.2 := by
  have hdir := htree.isDir_of_leaf hleaf prefix_rfl
  have hwalk : fs.walkTo [] lst.home = .ok lst.home := htree.walkTo_of_isDir lst.plain hdir
  have htree' := htree.erase (htree.below_leaf (look_ne_none_of_leaf hleaf).2)
  have hhome := hdir.erase (ne_snoc lst.home lst.base)
  rw [unlinkFiledb, hwalk]
  simp only [orFail, bind, Except.bind, htree.unlinkat_leaf hleaf]
  have hothers : ∀ k, k ≠ (lst.home, lst.base) →
      (fs.erase lst.home lst.base).leaf k.1 k.2 = fs.leaf k.1 k.2 :=
    fun k hk => leaf_erase_of_ne hk
  rcases hgroup : lst.group with - | g
  · exact ⟨_, rfl, htree', leaf_erase_self, hothers⟩
  · have hsplit : lst.home = lst.dir ++ [g] := by rw [ListName.home, hgroup]; rfl
    have hg : (fs.erase lst.home lst.base).IsDir (lst.dir ++ [g]) := hsplit ▸ hhome
    have hplain : ∀ n ∈ lst.dir, Fs.Plain n := fun n hn => lst.plain n (mem_append_left _ hn)
    have hwalk' : (fs.erase lst.home lst.base).walkTo [] lst.dir = .ok lst.dir :=
      htree'.walkTo_of_isDir hplain (htree'.isDir_of_append hg)
    simp only [hwalk']
    rcases htree'.rmdirat hg with ⟨hok, htree'', hleaf'⟩ | hfull
    · rw [hok]
      refine ⟨_, rfl, htree'', ?_, ?_⟩
      · rw [hleaf', leaf_erase_self]
      · intro k hk
        rw [hleaf', hothers k hk]
    · rw [hfull]
      exact ⟨_, rfl, htree', leaf_erase_self, hothers⟩

end List

/-! ### The main result -/

section Main

variable {fs fs' : Fs (List Name)} {lst : ListName} {pre : List UInt8} {r : List Name}
  {paths : List (List Name × Name)}

/-- Trees with the same leaves differ in directories without any. -/
theorem undone_of_leaves (htree : fs.Tree) (htree' : fs'.Tree)
    (h : ∀ d n, fs'.leaf d n = fs.leaf d n) : Undone fs fs' := by
  refine ⟨h, ?_⟩
  intro q hdiff d n hpre
  by_contra hleaf
  have hleaf' : fs'.leaf d n ≠ none := by rwa [h]
  exact hdiff (iff_of_true (htree.isDir_of_leaf hleaf hpre) (htree'.isDir_of_leaf hleaf' hpre))

lemma Deployed.list_leaf (h : Deployed fs fs' lst pre r paths) :
    fs'.leaf lst.home lst.base ≠ none :=
  h.unpacked.there _ mem_cons_self

/-- **With a prefix of its own, a package is removed.** -/
theorem Deployed.undone (htree : fs.Tree) (h : Deployed fs fs' lst pre r paths) (hne : pre ≠ [47])
    (hpre : 10 ∉ pre)
    (hsize : ¬0xFFFFFFFF < (writePrefix pre ++ entriesOf pre paths).length) :
    ∃ fs'', cmdRemove fs' lst = .ok fs'' ∧ Undone fs fs'' := by
  obtain ⟨hcut, hdrop⟩ := checkPrefix_line hne hpre (entriesOf pre paths)
  obtain ⟨hnew, hnodup⟩ := nodup_cons.mp h.unpacked.nodup
  have htree' := h.unpacked.tree
  have hdir := (htree.isDir_of_walkTo (isDir_nil fs) h.root).extends h.unpacked.more
  have hset : setupPrefix fs' (some pre) = .ok (pre, r) := by
    have hopen : fs'.openAbs pre = .ok r :=
      htree.walkTo_extends h.unpacked.tree h.unpacked.more h.root
    rw [setupPrefix, getD_some, hopen]
    rfl
  obtain ⟨s, hrun, hstree, hgone, hrest⟩ := unlinkFiles_all htree' hdir hpre h.proper h.depth hnodup
    fun k hk => h.unpacked.there k (mem_cons_of_mem _ hk)
  obtain ⟨fs'', hunlink, htree'', hlist, hothers⟩ := @unlinkFiledb_ok s.fs lst hstree (by
    rw [hrest (lst.home, lst.base) hnew]
    exact h.list_leaf)
  refine ⟨fs'', ?_, undone_of_leaves htree htree'' ?_⟩
  · rw [cmdRemove, h.load, if_neg hsize]
    simp only [bind, Except.bind, hcut, hset, hdrop, hrun]
    exact hunlink
  · intro d n
    by_cases hkey : (d, n) = (lst.home, lst.base)
    · cases hkey
      rw [hlist, leaf_of_free (h.unpacked.free _ mem_cons_self)]
    rw [hothers (d, n) hkey]
    by_cases hspot : (d, n) ∈ spotsOf r paths
    · rw [hgone _ hspot, leaf_of_free (h.unpacked.free _ (mem_cons_of_mem _ hspot))]
    · rw [hrest _ hspot]
      exact h.unpacked.rest (d, n) fun hmem =>
        (mem_cons.mp hmem).elim hkey hspot

/-- **With the prefix `/`, it is not.** -/
theorem Deployed.not_undone (h : Deployed fs fs' lst [47] r paths) :
    ¬∃ fs'', cmdRemove fs' lst = .ok fs'' ∧ Undone fs fs'' := by
  rintro ⟨fs'', hremove, hundone⟩
  have htree' := h.unpacked.tree
  have hnone := checkPrefix_none h.nonempty h.proper
  obtain ⟨text, hload, hremove⟩ := ok_of_bind hremove
  rw [h.load] at hload
  split at hload
  · cases hload
  cases hload
  have htext : writePrefix [47] ++ entriesOf [47] paths = entriesOf [47] paths := rfl
  rw [htext] at hremove
  simp only [hnone, drop_zero] at hremove
  obtain ⟨⟨path, at_⟩, hset, hremove⟩ := ok_of_bind hremove
  have hroot : at_ = [] := by
    cases hset
    rfl
  rw [hroot] at hremove
  obtain ⟨s, hs, hremove⟩ := ok_of_bind hremove
  rw [unlinkFiles_nothing htree' h.proper hs] at hremove
  obtain ⟨fs₃, hunlink, -, -, hothers⟩ := unlinkFiledb_ok htree' h.list_leaf
  rw [hunlink] at hremove
  cases hremove
  -- the first leaf of the package is still there
  obtain ⟨x, rest, hpaths⟩ := exists_cons_of_ne_nil h.nonempty
  have hspot : (r ++ x.1, x.2) ∈ spotsOf r paths := by
    rw [hpaths]
    exact mem_cons_self
  have hmem := mem_cons_of_mem (lst.home, lst.base) hspot
  have hkey : (r ++ x.1, x.2) ≠ (lst.home, lst.base) := by
    rintro heq
    exact (nodup_cons.mp h.unpacked.nodup).1 (heq ▸ hspot)
  refine h.unpacked.there _ hmem ?_
  rw [← hothers _ hkey, hundone.leaves, leaf_of_free (h.unpacked.free _ hmem)]

/-- **Removing undoes deploying if and only if there is a prefix other than `/`**, and the
list is not too long. -/
theorem remove_undoes_iff (fs fs' : Fs (List Name)) (htree : fs.Tree) (pre : Option Prefix)
    (rules : Rules) (lst : ListName) (pac data : List UInt8) (nodes : List Node)
    (hpac : loadPacfile pac = .ok (nodes, data))
    (hdeploy : cmdDeploy fs (pre.map Prefix.text) rules lst pac = .ok fs') :
    (∃ fs'', cmdRemove fs' lst = .ok fs'' ∧ Undone fs fs'') ↔
      ∃ p, pre = some p ∧ p.text ≠ [47] ∧ listSize p.text nodes ≤ 0xFFFFFFFF := by
  obtain ⟨r, h⟩ := cmdDeploy_deployed htree hpac hdeploy
  rcases pre with - | p
  · refine iff_of_false (Deployed.not_undone h) ?_
    rintro ⟨p, hp, -⟩
    cases hp
  have h : Deployed fs fs' lst p.text r (leafPaths [] nodes) := h
  by_cases hroot : p.text = [47]
  · rw [hroot] at h
    refine iff_of_false h.not_undone ?_
    rintro ⟨p', hp, hne, -⟩
    cases hp
    exact hne hroot
  have hlen : (writePrefix p.text ++ entriesOf p.text (leafPaths [] nodes)).length
      = listSize p.text nodes := by
    rw [length_append, length_entriesOf, writePrefix, if_neg hroot, listSize]
    simp
  constructor
  · rintro ⟨fs'', hremove, -⟩
    refine ⟨p, rfl, hroot, ?_⟩
    by_contra hbig
    obtain ⟨text, hload, -⟩ := ok_of_bind hremove
    rw [h.load, hlen, if_pos (Nat.lt_of_not_le hbig)] at hload
    cases hload
  · rintro ⟨p', hp, -, hsize⟩
    cases hp
    refine h.undone htree hroot p.noNewline ?_
    rw [hlen]
    exact Nat.not_lt.mpr hsize

/-- A file system with two empty directories, `v` and `o`. -/
def rooted : Fs (List Name) where
  ents := [(([], [118]), .dir [[118]]), (([], [111]), .dir [[111]])]
  follow _ _ := .error .ENOENT

lemma tree_rooted : rooted.Tree := by
  have hempty : ({ ents := [], follow := fun _ _ => .error .ENOENT } : Fs (List Name)).Tree :=
    ⟨nofun, fun d n h => absurd rfl h, fun _ => rfl, fun _ _ => ⟨_, rfl⟩, fun _ _ => rfl⟩
  have hone := hempty.add (d := []) (n := [111]) (e := .dir [[111]]) (isDir_nil _) rfl nofun
    (by rintro d' ⟨⟩; rfl)
  exact hone.add (d := []) (n := [118]) (e := .dir [[118]]) (isDir_nil _) rfl nofun
    (by rintro d' ⟨⟩; rfl)

/-- The list of a package `p`, kept in `v`. -/
def listOfP : ListName := ⟨[[118]], none, [112], by decide⟩

/-- A package of a directory `a` with a file `x` of one byte in it. -/
def pacOfP : List UInt8 := [80, 65, 67, 0, 7, 128, 97, 0, 4, 1, 120, 0, 65]

/-- The prefix `/o`. -/
def intoO : Prefix := ⟨[47, 111], by decide, by decide, by decide⟩

theorem remove_undoes_intoO :
    ∃ fs', cmdDeploy rooted (some intoO.text) ⟨[], .passAll⟩ listOfP pacOfP = .ok fs' ∧
      fs'.leaf [[111], [97]] [120] = some (.file [65] false) ∧
      ∃ fs'', cmdRemove fs' listOfP = .ok fs'' ∧ Undone rooted fs'' := by
  refine ⟨_, rfl, rfl, ?_⟩
  refine (remove_undoes_iff rooted _ tree_rooted (some intoO) ⟨[], .passAll⟩ listOfP pacOfP _ _ rfl
    rfl).mpr ⟨intoO, rfl, ?_, ?_⟩
  · decide
  · decide

/-- **A package without a prefix is forgotten but not removed**: `a/x` is still there. -/
theorem forgotten_not_removed :
    ∃ fs' fs'', cmdDeploy rooted none ⟨[], .passAll⟩ listOfP pacOfP = .ok fs' ∧
      cmdRemove fs' listOfP = .ok fs'' ∧ fs''.leaf [[97]] [120] = some (.file [65] false) ∧
      rooted.leaf [[97]] [120] = none ∧ ¬Undone rooted fs'' := by
  refine ⟨_, _, rfl, rfl, rfl, rfl, ?_⟩
  intro h
  have hleaf := h.leaves [[97]] [120]
  cases hleaf

end Main

end Minibase.Mpkg
