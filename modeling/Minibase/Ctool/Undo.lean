import Minibase.Ctool.Removed

/-!
# Adding a library and removing it again

What is to be expected of `ctool add` and `ctool del` is `Ctool.Deploy.Undoable`: the check
refuses a package exactly if something is in its way, and a package it lets through is unpacked
and taken out again to the last file. But the check may refuse a package for a file it would
not touch, and take a directory that has to be made for one that is there
(`Ctool.Deploy.Stray`); it takes a link that leads nowhere for nothing (`Ctool.Deploy.Blank`);
and it does not compare the entries with each other or with the list. There is nothing else
(`Ctool.Deploy.undoable_iff`): **a package without these is added and removed as expected**, and
so is one that something really is in the way of.
-/

namespace Minibase.Ctool.Deploy

open List

open Mpkg (Node home after placed IsDirAt Found Misled stand flagged leafPaths Unpacked Undone
  ProperPath)

/-- **Checked up front and undone**, on a file system to which the list has been added. -/
structure Undoable (fs fs₁ : Fs (List Name)) (lst : ListName) (nds : List Node) : Prop where
  conflict : (checkConflict fs nds).2 ≠ [] ↔ ∃ x ∈ placed [] nds, InTheWay fs x
  reversible : (checkConflict fs nds).2 = [] → ∀ databuf data, Delivered databuf nds data →
    ∃ u, unpackContent databuf fs₁ (checkConflict fs nds).1 data = .ok u ∧
      Unpacked fs₁ u.fs (leafPaths [] nds) ∧
      (∀ f ∈ filesOf [] nds data, u.fs.look f.1.1 f.1.2 = some (.file f.2 false)) ∧
      ∃ fs', removePackage u.fs lst = .ok fs' ∧ Undone fs fs'

/-- An entry of a directory that is not there, with the name of something in the deepest directory
on the way to it. -/
def Stray (fs : Fs (List Name)) (x : List Name × Node) : Prop :=
  ¬fs.IsDir x.1 ∧
    if x.2.isDir then fs.openDir (deepest fs x.1) x.2.name ≠ .error .ENOENT
    else fs.look (deepest fs x.1) x.2.name ≠ none

/-- A directory with the path of a link that leads nowhere. -/
def Blank (fs : Fs (List Name)) (x : List Name × Node) : Prop :=
  x.2.isDir = true ∧ fs.look x.1 x.2.name ≠ none ∧ fs.openDir x.1 x.2.name = .error .ENOENT

/-- **Nothing the check is wrong about**: it is not led astray, no link leads nowhere, and no entry
gets in the way of another one or of the list. -/
structure Clear (fs : Fs (List Name)) (lst : ListName) (nds : List Node) : Prop where
  stray : ∀ x ∈ placed [] nds, ¬Stray fs x
  blank : ∀ x ∈ placed [] nds, ¬Blank fs x
  apart : ∀ q, (true, q) ∈ paths nds → (false, q) ∉ paths nds
  list : ∀ x ∈ placed [] nds, x.1 ++ [x.2.name] ≠ [PKG, lst.base]

section

variable {fs fs₁ : Fs (List Name)} {lst : ListName} {cur : List Name} {last : Option Name}
  {nds : List Node}

/-! ### What the check is wrong about -/

/-- Nothing is found at all and nothing leads astray, if nothing is in the way. -/
theorem stray_iff (htree : fs.Tree) {x : List Name × Node} (hway : ¬InTheWay fs x) :
    Stray fs x ↔ Found fs [] x.1 x.2 ∨ Misled fs [] x.1 x.2 := by
  obtain ⟨h, nd⟩ := x
  have hhome : fs.IsDir h → ¬Found fs [] h nd := fun hdir hfound =>
    hway (inTheWay_of_found htree hdir hfound)
  rw [Stray, Misled, isDirAt_iff htree, found_iff htree, anchor_eq_deepest htree]
  rw [found_iff htree] at hhome
  constructor
  · rintro ⟨hnot, hfind⟩
    cases hdir : nd.isDir with
    | true =>
      rw [if_pos hdir] at hfind
      rw [if_pos rfl]
      rcases hopen : fs.openDir (deepest fs h) nd.name with e | d
      · refine .inl ⟨e, rfl, ?_⟩
        rintro rfl
        exact hfind hopen
      · exact .inr ⟨rfl, hnot, d, rfl⟩
    | false =>
      rw [if_neg (by simp [hdir])] at hfind
      exact .inl hfind
  · rintro (hfound | ⟨hdir, hnot, d, hopen⟩)
    · refine ⟨fun hdir => hhome hdir hfound, ?_⟩
      split
      · rename_i hdir
        rw [if_pos hdir] at hfound
        obtain ⟨e, hopen, hne⟩ := hfound
        rw [hopen]
        exact fun heq => hne (Except.error.inj heq)
      · rename_i hdir
        rwa [if_neg hdir] at hfound
    · refine ⟨hnot, ?_⟩
      rw [if_pos hdir, hopen]
      rintro ⟨⟩

/-- Where an entry has to be created, there is nothing, if nothing is in the way and no link leads
nowhere. -/
theorem look_eq_none (htree : fs.Tree) {x : List Name × Node} (hway : ¬InTheWay fs x)
    (hblank : ¬Blank fs x) (hexst : (flagged fs [] x.1 x.2).exst = false) :
    fs.look x.1 x.2.name = none := by
  obtain ⟨h, nd⟩ := x
  by_contra hlook
  rw [InTheWay] at hway
  cases hdir : nd.isDir with
  | true =>
    rw [if_pos hdir] at hway
    rcases hopen : fs.openDir h nd.name with e | d
    · by_cases he : e = .ENOENT
      · exact hblank ⟨hdir, hlook, he ▸ hopen⟩
      · exact hway ⟨e, hopen, he⟩
    · have hthere := (isDirAt_iff htree).mpr (htree.isDir_of_openDir hopen).2
      rw [flagged] at hexst
      simp [hdir, hthere] at hexst
  | false =>
    rw [if_neg (by simp [hdir])] at hway
    exact hway hlook

/-! ### Where entries are created -/

/-- Entries with the same place have the same path. -/
theorem key_eq_iff {x y : List Name × Node} :
    (x.1, x.2.name) = (y.1, y.2.name) ↔ x.1 ++ [x.2.name] = y.1 ++ [y.2.name] := by
  rw [Prod.mk.injEq]
  constructor
  · rintro ⟨h₁, h₂⟩
    rw [h₁, h₂]
  · intro heq
    obtain ⟨h₁, h₂⟩ := append_inj' heq rfl
    exact ⟨h₁, (cons.inj h₂).1⟩

/-- No two entries are created in the same place, if no file has the path of a directory. -/
theorem spots_nodup (hsorted : Sorted [] last nds)
    (hapart : ∀ q, (true, q) ∈ paths nds → (false, q) ∉ paths nds) : (spots fs [] nds).Nodup := by
  have hnodup : ((placed [] nds).map pathOf).Nodup := hsorted.nodup
  have hkeys : ((placed [] nds).map fun x => (x.1, x.2.name)).Nodup := by
    refine List.Nodup.map_on (fun x hx y hy hkey => ?_) (List.Nodup.of_map _ hnodup)
    have hpath := key_eq_iff.mp hkey
    have hmem : ∀ z ∈ placed [] nds, (z.2.isDir, z.1 ++ [z.2.name]) ∈ paths nds :=
      fun z hz => mem_map.mpr ⟨z, hz, rfl⟩
    have hsame : x.2.isDir = y.2.isDir := by
      have hx' := hmem x hx
      have hy' := hmem y hy
      rw [hpath] at hx'
      cases hxd : x.2.isDir <;> cases hyd : y.2.isDir
      · rfl
      · rw [hxd] at hx'
        rw [hyd] at hy'
        exact absurd hx' (hapart _ hy')
      · rw [hxd] at hx'
        rw [hyd] at hy'
        exact absurd hy' (hapart _ hx')
      · rfl
    refine inj_on_of_nodup_map hnodup hx hy ?_
    rw [pathOf, pathOf, hsame, hpath]
  exact hkeys.sublist (filter_sublist.map _)

lemma mem_spots {k : List Name × Name} : k ∈ spots fs cur nds ↔
    ∃ x ∈ placed cur nds, (flagged fs [] x.1 x.2).exst = false ∧ (x.1, x.2.name) = k := by
  rw [spots, mem_map]
  simp only [mem_filter, Bool.not_eq_true', and_assoc]

/-! ### Loaded and checked -/

/-- **An index that is loaded and passes the checks.** -/
structure Accepted (nds : List Node) : Prop where
  sorted : Sorted [] none nds
  bits : ∀ nd ∈ nds, nd.exst = false
  file : ∀ nd ∈ nds, nd.isDir = false → nd.isLink = false ∧ nd.isExec = false
  noNewline : ∀ nd ∈ nds, 0x0A ∉ nd.name

lemma exists_placed {nd : Node} (hnd : nd ∈ nds) : ∃ h, (h, nd) ∈ placed cur nds := by
  induction nds generalizing cur with
  | nil => cases hnd
  | cons nd' nds ih =>
    rw [placed]
    rcases mem_cons.mp hnd with rfl | hnd
    · exact ⟨_, mem_cons_self⟩
    · obtain ⟨h, hh⟩ := ih hnd
      exact ⟨h, mem_cons_of_mem _ hh⟩

lemma accepted_of_load {pac : List UInt8} {d : ℕ} (hload : loadIndex pac = .ok nds)
    (hcheck : checkIndex nds = .ok d) : Accepted nds := by
  have hsorted := loadIndex_sorted hload
  have hloaded := loadIndex_loaded hload
  refine ⟨hsorted, fun nd hnd => (hloaded nd hnd).exst, fun nd hnd hdir => ?_,
    fun nd hnd => (hloaded nd hnd).noNewline⟩
  obtain ⟨h, hmem⟩ : ∃ h, (h, nd) ∈ placed [] nds := exists_placed hnd
  exact (hsorted.checked hcheck hmem hdir).2

/-- The names of the directories are names of entries. -/
theorem properPath_of_sorted (hsorted : Sorted cur last nds)
    (hnew : ∀ nd ∈ nds, 0x0A ∉ nd.name) (hcur : ∀ n ∈ cur, Mpkg.Proper n) :
    ∀ x ∈ leafPaths cur nds, ProperPath x := by
  refine Mpkg.proper_of_mem_leafPaths (fun nd hnd => ?_) hcur
  have hproper : ∀ {cur last} {nds : List Node}, Sorted cur last nds → ∀ nd ∈ nds,
    Proper nd.name := by
    intro cur last nds hsorted
    induction nds generalizing cur last with
    | nil => exact nofun
    | cons nd nds ih =>
      obtain ⟨last', htail⟩ := hsorted.tail
      exact forall_mem_cons.mpr ⟨hsorted.1, ih htail⟩
  obtain ⟨hne, -, hslash⟩ := hproper hsorted nd hnd
  exact ⟨hne, hslash, hnew nd hnd⟩

lemma depth_of_sorted (hsorted : Sorted cur last nds) (hcur : cur.length ≤ MAXDEPTH) :
    ∀ x ∈ leafPaths cur nds, x.1.length ≤ MAXDEPTH := by
  induction nds generalizing cur last with
  | nil => exact nofun
  | cons nd nds ih =>
    rw [leafPaths]
    cases hdir : nd.isDir with
    | true =>
      obtain ⟨hle, hmax, -, hrest⟩ := hsorted.dir hdir
      rw [if_pos rfl, Mpkg.after_dir hdir]
      refine ih hrest ?_
      rw [length_append, length_take, length_singleton]
      omega
    | false =>
      rw [if_neg Bool.false_ne_true]
      exact forall_mem_cons.mpr ⟨hcur, ih (hsorted.leaf hdir).2 hcur⟩

/-! ### Removing what was added -/

lemma unpacked_list (htree : fs.Tree) (hwrite : writeFiledb fs lst nds = .ok fs₁)
    (hsorted : Sorted [] last nds) : Unpacked fs fs₁ [([PKG], lst.base)] := by
  obtain ⟨hdir, hfree, -, rfl⟩ := (writeFiledb_eq_ok_iff htree hsorted).mp hwrite
  refine Mpkg.unpacked_leaf htree hdir hfree ?_ (by rintro d' ⟨⟩)
  exact append_ne_nil_of_right_ne_nil _ (cons_ne_nil _ _)

/-- **A package that was added is removed.** -/
theorem removePackage_undone (htree : fs.Tree) (haccepted : Accepted nds)
    (hwrite : writeFiledb fs lst nds = .ok fs₁) {fs' : Fs (List Name)}
    (hunp : Unpacked fs₁ fs' (leafPaths [] nds)) :
    ∃ fs'', removePackage fs' lst = .ok fs'' ∧ Undone fs fs'' := by
  have hall := (unpacked_list htree hwrite haccepted.sorted).append hunp
  obtain ⟨hdir, hfree, hshort, hfs₁⟩ := (writeFiledb_eq_ok_iff htree haccepted.sorted).mp hwrite
  obtain ⟨hnew, hnodup⟩ := nodup_cons.mp hall.nodup
  have hlist : fs'.look [PKG] lst.base = some (.file (textOf (leafPaths [] nds)) false) := by
    have hlook : fs₁.look [PKG] lst.base = some (.file (textOf (leafPaths [] nds)) false) := by
      rw [hfs₁, Fs.look_add_self]
    rw [hunp.more _ _ (by rw [hlook]; exact nofun), hlook]
  have hlistleaf : fs'.leaf [PKG] lst.base ≠ none := hall.there _ mem_cons_self
  have hproper := properPath_of_sorted haccepted.sorted haccepted.noNewline
    fun n hn => absurd hn not_mem_nil
  obtain ⟨s, hrun, hstree, hgone, hrest⟩ := unlinkFiles_all hall.tree hproper
    (depth_of_sorted haccepted.sorted (Nat.zero_le _)) hnodup
    fun k hk => hall.there k (mem_cons_of_mem _ hk)
  -- the list is still there, and goes last
  have hstill : s.fs.leaf [PKG] lst.base ≠ none := by
    rw [hrest ([PKG], lst.base) hnew]
    exact hlistleaf
  have hopen : ∀ G : Fs (List Name), G.Tree → G.leaf [PKG] lst.base ≠ none →
      G.openDir [] PKG = .ok [PKG] :=
    fun G htree hleaf => htree.openDir_of_isDir (d := []) (htree.isDir_of_leaf hleaf prefix_rfl)
  have hload : loadFiledb fs' lst = .ok (textOf (leafPaths [] nds)) := by
    have hsmall : ¬0xFFFFFFFF < (textOf (leafPaths [] nds)).length := by
      rw [MAX_RW_COUNT] at hshort
      omega
    refine bind_ok ⟨[PKG], by rw [hopen fs' hall.tree hlistleaf]; rfl, ?_⟩
    rw [hall.tree.stat_of_look hlist]
    refine bind_ok ⟨(), refuse_eq_ok_iff.mpr hsmall, ?_⟩
    exact bind_ok ⟨(), refuse_eq_ok_iff.mpr (Nat.not_lt.mpr hshort), rfl⟩
  have hunlink : unlinkFiledb s.fs lst = .ok (s.fs.erase [PKG] lst.base) := by
    refine bind_ok ⟨[PKG], by rw [hopen s.fs hstree hstill]; rfl, ?_⟩
    rw [hstree.unlinkat_leaf hstill]
    rfl
  have htree' := hstree.erase (hstree.below_leaf (Fs.look_ne_none_of_leaf hstill).2)
  refine ⟨_, bind_ok ⟨_, hload, bind_ok ⟨s, hrun, hunlink⟩⟩, Mpkg.undone_of_leaves htree htree' ?_⟩
  intro d n
  by_cases hkey : (d, n) = ([PKG], lst.base)
  · cases hkey
    rw [Fs.leaf_erase_self, Mpkg.leaf_of_free hfree]
  · rw [Fs.leaf_erase_of_ne hkey]
    by_cases hmem : (d, n) ∈ leafPaths [] nds
    · rw [hgone _ hmem, Mpkg.leaf_of_free (hall.free _ (mem_cons_of_mem _ hmem))]
    · rw [hrest _ hmem]
      exact hall.rest (d, n) fun h => hmem ((mem_cons.mp h).resolve_left hkey)

/-! ### The main result -/

/-- There is content for every package. -/
theorem exists_delivered (nds : List Node) : ∃ data, Delivered true nds data := by
  induction nds with
  | nil => exact ⟨[], trivial⟩
  | cons nd nds ih =>
    obtain ⟨data, hdata⟩ := ih
    cases hdir : nd.isDir with
    | true =>
      refine ⟨data, fun h => ?_, ?_⟩
      · rw [hdir] at h
        cases h
      · rwa [contentAfter, if_pos hdir]
    | false =>
      refine ⟨replicate nd.size 0 ++ data, fun _ => ⟨?_, by rintro ⟨⟩⟩, ?_⟩
      · rw [length_append, length_replicate]
        exact Nat.le_add_right _ _
      · rwa [contentAfter, if_neg (by simp [hdir]), drop_left' length_replicate]

/-- A conflict is reported. -/
theorem checkConflict_ne_nil (htree : fs.Tree) (hsorted : Sorted [] last nds)
    (hway : ∃ x ∈ placed [] nds, InTheWay fs x) : (checkConflict fs nds).2 ≠ [] := by
  obtain ⟨x, hx, hxway⟩ := hway
  exact conflictNodes_near htree hsorted (near_stand []) ⟨x, hx, (inTheWay_iff htree).mp hxway⟩

/-- A place the check says nothing about and unpacking needs is still free after the list is
written, if it is not that of the list. -/
theorem look_list (htree : fs.Tree) (hwrite : writeFiledb fs lst nds = .ok fs₁)
    (hsorted : Sorted [] last nds) {h : List Name} {n : Name} (hnone : fs.look h n = none) :
    fs₁.look h n = none ↔ (h, n) ≠ ([PKG], lst.base) := by
  obtain ⟨-, -, -, rfl⟩ := (writeFiledb_eq_ok_iff htree hsorted).mp hwrite
  constructor
  · rintro hlook heq
    cases heq
    rw [Fs.look_add_self] at hlook
    cases hlook
  · intro hne
    rw [Fs.look_add_of_ne hne, hnone]

/-- **Without what the check is wrong about**, all goes as expected. -/
theorem undoable_of_clear (htree : fs.Tree) (haccepted : Accepted nds)
    (hwrite : writeFiledb fs lst nds = .ok fs₁) (hway : ∀ x ∈ placed [] nds, ¬InTheWay fs x)
    (hclear : Clear fs lst nds) : Undoable fs fs₁ lst nds := by
  have hsorted := haccepted.sorted
  have hnone : ∀ x ∈ placed [] nds, ¬Found fs [] x.1 x.2 ∧ ¬Misled fs [] x.1 x.2 := by
    intro x hx
    have hstray := hclear.stray x hx
    rw [stray_iff htree (hway x hx), not_or] at hstray
    exact hstray
  obtain ⟨hflag, hwarn⟩ :=
    conflictNodes_stand htree hsorted haccepted.bits fun x hx => (hnone x hx).2
  have hquiet : (checkConflict fs nds).2 = [] := by
    by_contra hws
    obtain ⟨x, hx, hfound⟩ := hwarn.mp hws
    exact (hnone x hx).1 hfound
  refine ⟨⟨fun hws => absurd hquiet hws, fun h => ?_⟩, ?_⟩
  · obtain ⟨x, hx, hxway⟩ := h
    exact absurd hxway (hway x hx)
  intro _ databuf data hdel
  have hlist := unpacked_list htree hwrite hsorted
  have hfree : ∀ k ∈ spots fs [] nds, fs₁.look k.1 k.2 = none := by
    intro k hk
    obtain ⟨x, hx, hexst, rfl⟩ := mem_spots.mp hk
    refine (look_list htree hwrite hsorted
      (look_eq_none htree (hway x hx) (hclear.blank x hx) hexst)).mpr fun heq => ?_
    refine hclear.list x hx ?_
    exact key_eq_iff (y := ([PKG], { x.2 with name := lst.base })).mp heq
  obtain ⟨u, hu, hunp, hcontent⟩ := unpackNodes_ok htree hlist.tree hlist.more (Fs.isDir_nil fs₁)
    hsorted haccepted.file hdel (spots_nodup hsorted hclear.apart) hfree
  refine ⟨u, ?_, hunp, hcontent, removePackage_undone htree haccepted hwrite hunp⟩
  rw [show (checkConflict fs nds).1 = _ from hflag]
  exact hu

/-- **With any of it**, it does not, unless something really is in the way. -/
theorem clear_of_undoable (htree : fs.Tree) (haccepted : Accepted nds)
    (hwrite : writeFiledb fs lst nds = .ok fs₁) (hway : ∀ x ∈ placed [] nds, ¬InTheWay fs x)
    (h : Undoable fs fs₁ lst nds) : Clear fs lst nds := by
  have hsorted := haccepted.sorted
  have hlist := unpacked_list htree hwrite hsorted
  have hquiet : (checkConflict fs nds).2 = [] := by
    by_contra hws
    obtain ⟨x, hx, hxway⟩ := h.conflict.mp hws
    exact hway x hx hxway
  obtain ⟨data, hdel⟩ := exists_delivered nds
  obtain ⟨u, hu, -⟩ := h.reversible hquiet true data hdel
  have hmis : ∀ x ∈ placed [] nds, ¬Misled fs [] x.1 x.2 := by
    intro y hy hymis
    refine unpackNodes_misled htree hlist.more hlist.tree.free hsorted haccepted.bits haccepted.file
      hdel hquiet ⟨y, hy, hymis⟩ (fun x hx hxmis => ?_) u hu
    -- nothing is in a directory that is not there, and the list is in one that is
    have hhome : ¬fs.IsDir x.1 := fun hdir => hxmis.2.1 ((isDirAt_iff htree).mpr hdir)
    have hnone : fs.look x.1 x.2.name = none := by
      by_contra hlook
      exact hhome (htree.closed _ _ hlook)
    refine (look_list htree hwrite hsorted hnone).mpr fun heq => hhome ?_
    rw [(Prod.mk.inj heq).1]
    exact ((writeFiledb_eq_ok_iff htree hsorted).mp hwrite).1
  obtain ⟨hflag, hwarn⟩ := conflictNodes_stand htree hsorted haccepted.bits hmis
  rw [show (checkConflict fs nds).1 = _ from hflag] at hu
  obtain ⟨hnodup, hfree⟩ :=
    unpackNodes_free htree hlist.more hlist.tree.free hsorted haccepted.file hdel hu
  -- what is there already is not created
  have hspot : ∀ x ∈ placed [] nds, (flagged fs [] x.1 x.2).exst = false →
      fs₁.look x.1 x.2.name = none :=
    fun x hx hexst => hfree (x.1, x.2.name) (mem_spots.mpr ⟨x, hx, hexst, rfl⟩)
  have hnew : ∀ x ∈ placed [] nds, ¬(x.2.isDir = true ∧ fs.IsDir (x.1 ++ [x.2.name])) →
      (flagged fs [] x.1 x.2).exst = false := by
    intro x hx hnot
    by_contra hexst
    exact hnot (isDir_of_flagged htree (Bool.eq_true_of_not_eq_false hexst))
  refine ⟨fun x hx hstray => ?_, fun x hx hblank => ?_, fun q hdir hfile => ?_,
    fun x hx hpath => ?_⟩
  · rcases (stray_iff htree (hway x hx)).mp hstray with hfound | hxmis
    · exact hwarn.mpr ⟨x, hx, hfound⟩ hquiet
    · exact hmis x hx hxmis
  · obtain ⟨hdir, hlook, hopen⟩ := hblank
    refine hlook (hlist.more.look_eq_none (hspot x hx (hnew x hx ?_)))
    rintro ⟨-, hthere⟩
    rw [htree.openDir_of_isDir hthere] at hopen
    cases hopen
  · obtain ⟨x, hx, hxq⟩ := mem_map.mp hdir
    obtain ⟨y, hy, hyq⟩ := mem_map.mp hfile
    obtain ⟨hxdir, hxq⟩ := Prod.mk.inj hxq
    obtain ⟨hydir, hyq⟩ := Prod.mk.inj hyq
    have hkey := key_eq_iff.mpr (hxq.trans hyq.symm)
    have hylook := hspot y hy (hnew y hy fun hd => by rw [hydir] at hd; cases hd.1)
    have hxnew : (flagged fs [] x.1 x.2).exst = false := by
      refine hnew x hx ?_
      rintro ⟨-, hthere⟩
      obtain ⟨h₁, h₂⟩ := Prod.mk.inj hkey
      have hthere₁ := Fs.isDir_snoc.mp (hthere.extends hlist.more)
      rw [h₁, h₂, hylook] at hthere₁
      cases hthere₁
    have hmem : ∀ z ∈ placed [] nds, (flagged fs [] z.1 z.2).exst = false →
        z ∈ (placed [] nds).filter fun x => !(flagged fs [] x.1 x.2).exst := by
      intro z hz hexst
      exact mem_filter.mpr ⟨hz, by rw [hexst]; rfl⟩
    have heq := inj_on_of_nodup_map hnodup (hmem x hx hxnew)
      (hmem y hy (hnew y hy fun hd => by rw [hydir] at hd; cases hd.1)) hkey
    rw [heq] at hxdir
    exact absurd (hxdir.symm.trans hydir) Bool.true_eq_false.mp
  · have hkey : (x.1, x.2.name) = ([PKG], lst.base) :=
      key_eq_iff (y := ([PKG], { x.2 with name := lst.base })).mpr hpath
    obtain ⟨-, hfree₀, -, hfs₁⟩ := (writeFiledb_eq_ok_iff htree hsorted).mp hwrite
    obtain ⟨h₁, h₂⟩ := Prod.mk.inj hkey
    have hlook := hspot x hx (hnew x hx ?_)
    · rw [h₁, h₂, hfs₁, Fs.look_add_self] at hlook
      cases hlook
    · rintro ⟨-, hthere⟩
      have hthere₀ := Fs.isDir_snoc.mp hthere
      rw [h₁, h₂, hfree₀] at hthere₀
      cases hthere₀

end

/-- **When `ctool add` is checked up front and undone by `ctool del`**, for an index that is loaded
and passes the checks, and a file system the list of the package can be written to. -/
theorem undoable_iff {fs fs₁ : Fs (List Name)} {lst : ListName} {pac : List UInt8} {nds : List Node}
    {d : ℕ} (htree : fs.Tree) (hload : loadIndex pac = .ok nds) (hcheck : checkIndex nds = .ok d)
    (hwrite : writeFiledb fs lst nds = .ok fs₁) :
    Undoable fs fs₁ lst nds ↔ (∃ x ∈ placed [] nds, InTheWay fs x) ∨ Clear fs lst nds := by
  have haccepted := accepted_of_load hload hcheck
  by_cases hway : ∃ x ∈ placed [] nds, InTheWay fs x
  · have hws := checkConflict_ne_nil htree haccepted.sorted hway
    refine ⟨fun _ => .inl hway, fun _ => ⟨⟨fun _ => hway, fun _ => hws⟩, fun hquiet => ?_⟩⟩
    exact absurd hquiet hws
  · have hnone : ∀ x ∈ placed [] nds, ¬InTheWay fs x := fun x hx h => hway ⟨x, hx, h⟩
    refine ⟨fun h => .inr (clear_of_undoable htree haccepted hwrite hnone h), ?_⟩
    rintro (h | h)
    · exact absurd h hway
    · exact undoable_of_clear htree haccepted hwrite hnone h

/-! ### Two packages -/

/-- An empty file system. -/
def vacantFs : Fs (List Name) := { ents := [], follow := fun _ _ => .error .ENOENT }

/-- A working directory: `pkg` and `lib`. -/
def workdir : Fs (List Name) := (vacantFs.add [] PKG (.dir [PKG])).add [] LIB (.dir [LIB])

/-- The list of a package `a`. -/
def sampleList : ListName := ⟨[0x61], by decide, by decide⟩

lemma workdir_tree : workdir.Tree := by
  have hvacant : vacantFs.Tree :=
    ⟨nofun, fun d n h => absurd rfl h, fun _ => rfl, fun _ _ => ⟨_, rfl⟩, fun _ _ => rfl⟩
  refine (hvacant.add (Fs.isDir_nil _) rfl (by decide) ?_).add (Fs.isDir_nil _) rfl (by decide) ?_
  · rintro d' ⟨⟩
    rfl
  · rintro d' ⟨⟩
    rfl

lemma workdir_lib : workdir.IsDir [LIB] := by
  rw [← nil_append [LIB], Fs.isDir_snoc]
  decide

/-- The nodes of a package. -/
def nodesOf (pac : List UInt8) : List Node := (loadIndex pac).toOption.getD []

theorem undoable_lib :
    Undoable workdir (workdir.add [PKG] sampleList.base
      (.file [0x6C, 0x69, 0x62, 0x2F, 0x78, 0x0A] false))
      sampleList (nodesOf sampleLib) := by
  refine (@undoable_iff workdir _ sampleList sampleLib (nodesOf sampleLib) 1 workdir_tree
    (by decide)
    (by decide) rfl).mpr (.inr ⟨?_, ?_, ?_, ?_⟩)
  · have hlib : workdir.IsDir [LIB] := workdir_lib
    have hhome : ∀ x ∈ placed [] (nodesOf sampleLib), x.1 = [] ∨ x.1 = [LIB] := by decide
    rintro x hx ⟨hnot, -⟩
    rcases hhome x hx with heq | heq <;> rw [heq] at hnot
    · exact hnot (Fs.isDir_nil _)
    · exact hnot hlib
  · have hopen : ∀ x ∈ placed [] (nodesOf sampleLib), x.2.isDir = true →
        workdir.openDir x.1 x.2.name = .ok [LIB] := by decide
    rintro x hx ⟨hdir, -, hnone⟩
    rw [hopen x hx hdir] at hnone
    cases hnone
  · have hpaths : paths (nodesOf sampleLib) = [(true, [LIB]), (false, [LIB, [0x78]])] := by decide
    rw [hpaths]
    intro q hdir hfile
    simp only [mem_cons, Prod.mk.injEq, reduceCtorEq, false_and, true_and, or_false, false_or,
      not_mem_nil] at hdir hfile
    exact absurd (hdir.symm.trans hfile) (by decide)
  · decide

/-- A package with `lib/y/x`. -/
def sampleDeep : List UInt8 :=
  [0x50, 0x41, 0x43, 0, 12, 0x80, 0x6C, 0x69, 0x62, 0, 0x81, 0x79, 0, 0x04, 0, 0x78, 0]

/-- **A file beside is taken for one beneath**: `lib/y/x` is refused because there is `lib/x`. -/
theorem not_undoable : ¬∀ (fs fs₁ : Fs (List Name)) (lst : ListName) (pac : List UInt8)
    (nds : List Node) (d : ℕ), fs.Tree → loadIndex pac = .ok nds → checkIndex nds = .ok d →
    writeFiledb fs lst nds = .ok fs₁ → Undoable fs fs₁ lst nds := by
  intro hall
  have htree : (workdir.add [LIB] [0x78] (.file [] false)).Tree := by
    refine workdir_tree.add workdir_lib (by decide) (by decide) ?_
    rintro d' ⟨⟩
  have h := hall _ _ sampleList sampleDeep (nodesOf sampleDeep) 2 htree (by decide) (by decide) rfl
  obtain ⟨x, hx, hway⟩ := h.conflict.mp (by decide)
  have hnone : ∀ x ∈ placed [] (nodesOf sampleDeep),
      ¬InTheWay (workdir.add [LIB] [0x78] (.file [] false)) x := by decide
  exact hnone x hx hway

end Minibase.Ctool.Deploy
