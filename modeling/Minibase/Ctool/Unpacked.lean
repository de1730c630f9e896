import Minibase.Ctool.Checked

/-!
# What unpacking a library leaves

Unpacking keeps a descriptor of each directory on the way to the current entry
(`Ctool.Deploy.hand`). An entry with `BIT_EXST` is entered and all others are created, at the
places `Ctool.Deploy.spots` if the bits are right: unpacking then finishes exactly if these
are free and no two are the same (`Ctool.Deploy.unpackNodes_ok`,
`Ctool.Deploy.unpackNodes_free`). It does not finish if the check went astray without saying so
(`Ctool.Deploy.unpackNodes_misled`).
-/

namespace Minibase.Ctool.Deploy

open List Option Mpkg Fs

open Mpkg (Node Walk Warn home after placed IsDirAt Found Misled stand flagged flag leafPaths
  orFailx
  Unpacked unpacked_nil unpacked_leaf)

section

variable {fs G : Fs (List Name)} {cur h : List Name} {last : Option Name} {nd : Node}
  {nds : List Node} {data : List UInt8} {databuf : Bool}

/-- The descriptors along a path, each of the directory it was opened for. -/
def hand (cur : List Name) : Walk (Option (List Name)) := Walk.tower (fun p => some p) cur

/-- What an entry is made into. -/
def entryOf (h : List Name) (nd : Node) (data : List UInt8) : Ent (List Name) :=
  if nd.isDir then .dir (h ++ [nd.name]) else .file (data.take nd.size) false

/-- The content after an entry. -/
def contentAfter (nd : Node) (data : List UInt8) : List UInt8 :=
  if nd.isDir then data else data.drop nd.size

/-- **The content comes**: as many bytes as the entries say, and, if there is no buffer for them,
no more in one file than are sent in one call. -/
def Delivered (databuf : Bool) : List Node → List UInt8 → Prop
  | [], _ => True
  | nd :: nds, data =>
    (nd.isDir = false → nd.size ≤ data.length ∧ (databuf = false → nd.size ≤ MAX_RW_COUNT)) ∧
    Delivered databuf nds (contentAfter nd data)

/-- The files of a package, with what is in them. -/
def filesOf : List Name → List Node → List UInt8 → List ((List Name × Name) × List UInt8)
  | _, [], _ => []
  | cur, nd :: nds, data =>
    if nd.isDir then filesOf (after cur nd) nds data
    else ((cur, nd.name), data.take nd.size) :: filesOf cur nds (data.drop nd.size)

/-- An entry on a proper level, and a plain file if it is not a directory. -/
structure Plain (cur : List Name) (nd : Node) : Prop where
  named : nd.name ≠ []
  level : nd.isDir = true → nd.lvl ≤ cur.length ∧ nd.lvl < MAXDEPTH
  file : nd.isDir = false → nd.isLink = false ∧ nd.isExec = false

lemma Plain.of_sorted (h : Sorted cur last (nd :: nds))
    (hfile : nd.isDir = false → nd.isLink = false ∧ nd.isExec = false) : Plain cur nd :=
  ⟨h.1.1, fun hdir => ⟨(h.dir hdir).1, (h.dir hdir).2.1⟩, hfile⟩

/-! ### One entry -/

lemma push_hand (h : List Name) (n : Name) :
    (hand h).push n (some (h ++ [n])) = hand (h ++ [n]) := (Walk.tower_snoc h n).symm

lemma depth_hand (cur : List Name) : (hand cur).depth = cur.length := Walk.depth_tower cur

lemma at_hand (cur : List Name) : (hand cur).at_ = some cur := Walk.at_tower cur

section

variable (hplain : Plain cur nd)
include hplain

lemma unpackNode_dir (hdir : nd.isDir = true) : unpackNode databuf ⟨G, hand cur, data⟩ nd = (do
      let fs ← if nd.exst then .ok G
        else orFailx (hand (cur.take nd.lvl)) nd.name (G.mkdirat (some (cur.take nd.lvl)) nd.name)
      let fd ← orFailx (hand (cur.take nd.lvl)) nd.name
        (fs.openPath (some (cur.take nd.lvl)) nd.name)
      return ⟨fs, (hand (cur.take nd.lvl)).push nd.name fd, data⟩) := by
  obtain ⟨hle, hmax⟩ := hplain.level hdir
  have hback : (hand cur).rewind nd.lvl = hand (cur.take nd.lvl) := Walk.rewind_tower nd.lvl cur
  have hdepth : ¬MAXDEPTH ≤ (hand (cur.take nd.lvl)).depth := by
    rw [depth_hand, length_take]
    omega
  rw [unpackNode, if_pos hdir, depth_hand, if_neg (Nat.not_lt.mpr hle)]
  simp only [hback, unpackDir, if_neg hdepth, at_hand]

lemma unpackNode_file (hdir : nd.isDir = false) : unpackNode databuf ⟨G, hand cur, data⟩ nd = (do
      let fs ← orFailx (hand cur) nd.name (G.creat (some cur) nd.name (data.take nd.size) false)
      let rest ← transferData databuf ⟨G, hand cur, data⟩ nd
      return ⟨fs, hand cur, rest⟩) := by
  obtain ⟨hlink, hexec⟩ := hplain.file hdir
  rw [unpackNode, hdir, hlink, if_neg Bool.false_ne_true, if_neg Bool.false_ne_true, unpackFile,
    hexec,
    at_hand]

/-- An entry that is there is entered. -/
theorem unpackNode_old (hcall : ∀ d n, G.refuses d n = none) (hdir : nd.isDir = true)
    (hexst : nd.exst = true)
    (hthere : G.IsDir (home cur nd ++ [nd.name])) :
    unpackNode databuf ⟨G, hand cur, data⟩ nd = .ok ⟨G, hand (after cur nd), data⟩ := by
  rw [home_dir hdir] at hthere
  rw [unpackNode_dir hplain hdir, hexst, after_dir hdir, ← push_hand]
  simp only [if_true, bind, Except.bind, openPath, call, hcall, isDir_snoc.mp hthere,
    orFailx]
  rfl

/-- An entry that should be there and is not is given up on. -/
theorem unpackNode_missing (hcall : ∀ d n, G.refuses d n = none) (hdir : nd.isDir = true)
    (hexst : nd.exst = true)
    (hnone : G.look (home cur nd) nd.name = none) (u : Unpacking) :
    unpackNode databuf ⟨G, hand cur, data⟩ nd ≠ .ok u := by
  rw [home_dir hdir] at hnone
  rw [unpackNode_dir hplain hdir, hexst]
  simp only [if_true, bind, Except.bind, openPath, call, hcall, hnone, orFailx, failx]
  rintro ⟨⟩

/-- An entry that is not there is created. -/
theorem unpackNode_new (hcall : ∀ d n, G.refuses d n = none) (hexst : nd.exst = false)
    (hdel : Delivered databuf (nd :: nds) data)
    (hnone : G.look (home cur nd) nd.name = none) :
    unpackNode databuf ⟨G, hand cur, data⟩ nd =
      .ok ⟨G.add (home cur nd) nd.name (entryOf (home cur nd) nd data), hand (after cur nd),
        contentAfter nd data⟩ := by
  rw [entryOf, contentAfter]
  cases hdir : nd.isDir with
  | true =>
    rw [home_dir hdir] at *
    rw [unpackNode_dir hplain hdir, hexst, after_dir hdir, ← push_hand]
    simp only [Bool.false_eq_true, if_false, if_true, bind, Except.bind, mkdirat, create,
      call, hcall, hnone, orFailx, openPath, refuses_add, look_add_self]
    rfl
  | false =>
    obtain ⟨hlen, hmax⟩ := hdel.1 hdir
    have hgo : ¬(data.length < nd.size ∨ databuf = false ∧ MAX_RW_COUNT < nd.size) := by
      rintro (hlt | ⟨hbuf, hlt⟩)
      · omega
      · exact Nat.not_lt.mpr (hmax hbuf) hlt
    rw [home_leaf hdir] at *
    rw [unpackNode_file hplain hdir, after_leaf hdir]
    simp only [Bool.false_eq_true, if_false, bind, Except.bind, creat, create, call, hcall,
      hnone, orFailx, transferData, refuse, if_neg hgo]
    rfl

/-- An entry that has to be created and whose place is taken is given up on. -/
theorem unpackNode_taken (hcall : ∀ d n, G.refuses d n = none) (hexst : nd.exst = false)
    (hsome : G.look (home cur nd) nd.name ≠ none)
    (u : Unpacking) : unpackNode databuf ⟨G, hand cur, data⟩ nd ≠ .ok u := by
  obtain ⟨e, he⟩ := ne_none_iff_exists'.mp hsome
  cases hdir : nd.isDir with
  | true =>
    rw [home_dir hdir] at he
    rw [unpackNode_dir hplain hdir, hexst]
    simp only [Bool.false_eq_true, if_false, bind, Except.bind, mkdirat, create, call,
      hcall,
      he, orFailx, failx]
    rintro ⟨⟩
  | false =>
    rw [home_leaf hdir] at he
    rw [unpackNode_file hplain hdir]
    simp only [bind, Except.bind, creat, create, call, hcall, he, orFailx, failx]
    rintro ⟨⟩

end

/-! ### The whole index -/

lemma unpackNodes_cons (u : Unpacking) :
    unpackNodes databuf u (nd :: nds) =
      unpackNode databuf u nd >>= fun u => unpackNodes databuf u nds := foldlM_cons

/-- Where something has to be created, if the bits are those of the directories that are
there. -/
def spots (fs : Fs (List Name)) (cur : List Name) (nds : List Node) : List (List Name × Name) :=
  ((placed cur nds).filter fun x => !(flagged fs [] x.1 x.2).exst).map fun x => (x.1, x.2.name)

lemma spots_cons : spots fs cur (nd :: nds) =
    if (flagged fs [] (home cur nd) nd).exst then spots fs (after cur nd) nds
    else (home cur nd, nd.name) :: spots fs (after cur nd) nds := by
  rw [spots, placed, filter_cons]
  rcases (flagged fs [] (home cur nd) nd).exst <;> simp [spots]

/-- The bit is set on a directory that is there. -/
theorem isDir_of_flagged (htree : fs.Tree) (hexst : (flagged fs [] h nd).exst = true) :
    nd.isDir = true ∧ fs.IsDir (h ++ [nd.name]) := by
  obtain ⟨hdir, hat⟩ := Bool.and_eq_true_iff.mp hexst
  exact ⟨hdir, (isDirAt_iff htree).mp (of_decide_eq_true hat)⟩

lemma Plain.flagged (hplain : Plain cur nd) (h : List Name) :
    Plain cur (flagged fs [] h nd) := ⟨hplain.named, hplain.level, hplain.file⟩

lemma isDir_home (htree : G.Tree) (hcur : G.IsDir cur) : G.IsDir (home cur nd) := by
  rw [home]
  split
  · refine htree.isDir_of_append (q := cur.drop nd.lvl) ?_
    rwa [take_append_drop]
  · exact hcur

/-- **Nothing was free by chance**: if unpacking goes through, the places were free and all
different. -/
theorem unpackNodes_free (htree : fs.Tree) (hmore : fs.Extends G)
    (hcall : ∀ d n, G.refuses d n = none) (hsorted : Sorted cur last nds)
    (hfile : ∀ nd ∈ nds, nd.isDir = false → nd.isLink = false ∧ nd.isExec = false)
    (hdel : Delivered databuf nds data) {u : Unpacking}
    (hrun : unpackNodes databuf ⟨G, hand cur, data⟩ (flag fs [] cur nds) = .ok u) :
    (spots fs cur nds).Nodup ∧ ∀ k ∈ spots fs cur nds, G.look k.1 k.2 = none := by
  induction nds generalizing G cur last data with
  | nil => exact ⟨nodup_nil, nofun⟩
  | cons nd nds ih =>
    obtain ⟨hnd, hnds⟩ := forall_mem_cons.mp hfile
    obtain ⟨last', htail⟩ := hsorted.tail
    have hplain : Plain cur (flagged fs [] (home cur nd) nd) :=
      (Plain.of_sorted hsorted hnd).flagged (home cur nd)
    rw [flag, unpackNodes_cons] at hrun
    obtain ⟨v, hv, hrun⟩ := ok_of_bind hrun
    rw [spots_cons]
    cases hexst : (flagged fs [] (home cur nd) nd).exst with
    | true =>
      obtain ⟨hdir, hthere⟩ := isDir_of_flagged htree hexst
      have hhome := hthere.extends hmore
      cases (unpackNode_old hplain hcall hdir hexst hhome).symm.trans hv
      have hcont : contentAfter nd data = data := if_pos hdir
      exact ih hmore hcall htail hnds (hcont ▸ hdel.2) hrun
    | false =>
      by_cases hnone : G.look (home cur nd) nd.name = none
      · have hdel' : Delivered databuf (flagged fs [] (home cur nd) nd :: nds) data := hdel
        have hstep := unpackNode_new hplain hcall hexst hdel' hnone
        cases hstep.symm.trans hv
        obtain ⟨hnodup, hfree⟩ :=
          ih (hmore.trans (extends_add hnone _)) hcall htail hnds hdel.2 hrun
        refine ⟨nodup_cons.mpr ⟨fun hmem => ?_, hnodup⟩, forall_mem_cons.mpr ⟨hnone, ?_⟩⟩
        · have := hfree _ hmem
          rw [look_add_self] at this
          cases this
        · exact fun k hk => (extends_add hnone _).look_eq_none (hfree k hk)
      · exact absurd hv (unpackNode_taken hplain hcall hexst hnone v)

/-- What one entry adds to a tree. -/
theorem unpacked_entry (htree : G.Tree) (hcur : G.IsDir cur) (hplain : Plain cur nd)
    (hnone : G.look (home cur nd) nd.name = none) :
    Unpacked G (G.add (home cur nd) nd.name (entryOf (home cur nd) nd data))
      (if nd.isDir then [] else [(cur, nd.name)]) := by
  have hhome : G.IsDir (home cur nd) := isDir_home htree hcur
  rw [entryOf]
  cases hdir : nd.isDir with
  | true =>
    refine unpacked_nil (htree.add hhome hnone hplain.named ?_) (extends_add hnone _) ?_
    · rintro d' ⟨⟩
      rfl
    · exact leaf_add_dir hnone
  | false =>
    rw [home_leaf hdir] at *
    exact unpacked_leaf htree hcur hnone hplain.named (by rintro d' ⟨⟩)

/-- **Unpacking goes through** if the places are free and all different, and leaves the files with
their content. -/
theorem unpackNodes_ok (htree : fs.Tree) (htreeG : G.Tree) (hmore : fs.Extends G)
    (hcur : G.IsDir cur) (hsorted : Sorted cur last nds)
    (hfile : ∀ nd ∈ nds, nd.isDir = false → nd.isLink = false ∧ nd.isExec = false)
    (hdel : Delivered databuf nds data) (hnodup : (spots fs cur nds).Nodup)
    (hfree : ∀ k ∈ spots fs cur nds, G.look k.1 k.2 = none) :
    ∃ u, unpackNodes databuf ⟨G, hand cur, data⟩ (flag fs [] cur nds) = .ok u ∧
      Unpacked G u.fs (leafPaths cur nds) ∧
      ∀ f ∈ filesOf cur nds data, u.fs.look f.1.1 f.1.2 = some (.file f.2 false) := by
  induction nds generalizing G cur last data with
  | nil => exact ⟨_, rfl, unpacked_nil htreeG (Fs.Extends.refl _) fun _ _ => rfl, by rintro _ ⟨⟩⟩
  | cons nd nds ih =>
    obtain ⟨hnd, hnds⟩ := forall_mem_cons.mp hfile
    obtain ⟨last', htail⟩ := hsorted.tail
    have hplain := Plain.of_sorted hsorted hnd
    have hplain' : Plain cur (flagged fs [] (home cur nd) nd) := hplain.flagged (home cur nd)
    rw [spots_cons] at hnodup hfree
    rw [flag, unpackNodes_cons, leafPaths, filesOf]
    cases hexst : (flagged fs [] (home cur nd) nd).exst with
    | true =>
      rw [hexst] at hnodup hfree
      obtain ⟨hdir, hthere⟩ := isDir_of_flagged htree hexst
      have hcont : contentAfter nd data = data := if_pos hdir
      rw [unpackNode_old hplain' htreeG.free hdir hexst (hthere.extends hmore), if_pos hdir,
        if_pos hdir]
      have hnext : G.IsDir (after cur nd) := by
        rw [after_dir hdir, ← home_dir hdir]
        exact hthere.extends hmore
      exact ih htreeG hmore hnext htail hnds (hcont ▸ hdel.2) hnodup hfree
    | false =>
      rw [hexst] at hnodup hfree
      obtain ⟨hnew, hnodup⟩ := nodup_cons.mp hnodup
      obtain ⟨hnone, hfree⟩ := forall_mem_cons.mp hfree
      have hdel' : Delivered databuf (flagged fs [] (home cur nd) nd :: nds) data := hdel
      have hstep := unpackNode_new hplain' htreeG.free hexst hdel' hnone
      have hone : Unpacked G (G.add (home cur nd) nd.name (entryOf (home cur nd) nd data))
          (if nd.isDir then [] else [(cur, nd.name)]) := unpacked_entry htreeG hcur hplain hnone
      have hnext : (G.add (home cur nd) nd.name (entryOf (home cur nd) nd data)).IsDir
          (after cur nd) := by
        cases hdir : nd.isDir with
        | true =>
          rw [after_dir hdir, ← home_dir hdir, isDir_snoc, look_add_self, entryOf,
            if_pos hdir]
        | false =>
          rw [after_leaf hdir]
          exact hcur.extends hone.more
      have hstill : ∀ k ∈ spots fs (after cur nd) nds,
          (G.add (home cur nd) nd.name (entryOf (home cur nd) nd data)).look k.1 k.2 = none := by
        intro k hk
        rw [look_add_of_ne fun hkey => hnew (hkey ▸ hk)]
        exact hfree k hk
      obtain ⟨u, hu, hunp, hcontent⟩ := ih hone.tree (hmore.trans hone.more) hnext htail hnds hdel.2
        hnodup hstill
      refine ⟨u, ?_, ?_, ?_⟩
      · rw [hstep]
        exact hu
      · have happ := hone.append hunp
        cases hdir : nd.isDir with
        | true =>
          rw [hdir] at happ
          exact happ
        | false =>
          rw [hdir, after_leaf hdir] at happ
          exact happ
      · cases hdir : nd.isDir with
        | true =>
          rw [contentAfter, if_pos hdir] at hcontent
          exact hcontent
        | false =>
          rw [contentAfter, if_neg (by simp [hdir]), after_leaf hdir] at hcontent
          refine forall_mem_cons.mpr ⟨?_, hcontent⟩
          have hlook : (G.add (home cur nd) nd.name (entryOf (home cur nd) nd data)).look cur
            nd.name = some (.file (data.take nd.size) false) := by
            rw [home_leaf hdir, look_add_self, entryOf, if_neg (by simp [hdir])]
          rw [hunp.more cur nd.name (by rw [hlook]; rintro ⟨⟩), hlook]

/-! ### Gone astray -/

/-- **A check that went astray and did not say so** is found out: what it was led astray by is not
where unpacking looks for it. -/
theorem unpackNodes_misled (htree : fs.Tree) (hmore : fs.Extends G)
    (hcall : ∀ d n, G.refuses d n = none) (hsorted : Sorted cur last nds)
    (hbits : ∀ nd ∈ nds, nd.exst = false)
    (hfile : ∀ nd ∈ nds, nd.isDir = false → nd.isLink = false ∧ nd.isExec = false)
    (hdel : Delivered databuf nds data) (hquiet : (conflictNodes fs (stand fs [] cur) nds).2 = [])
    (hmis : ∃ x ∈ placed cur nds, Misled fs [] x.1 x.2)
    (hnone : ∀ x ∈ placed cur nds, Misled fs [] x.1 x.2 → G.look x.1 x.2.name = none)
    (u : Unpacking) :
    unpackNodes databuf ⟨G, hand cur, data⟩ (conflictNodes fs (stand fs [] cur) nds).1 ≠ .ok u := by
  induction nds generalizing G cur last data with
  | nil =>
    obtain ⟨x, hx, -⟩ := hmis
    cases hx
  | cons nd nds ih =>
    obtain ⟨hnd, hnds⟩ := forall_mem_cons.mp hfile
    obtain ⟨hbit, hbits⟩ := forall_mem_cons.mp hbits
    obtain ⟨last', htail⟩ := hsorted.tail
    obtain ⟨hhead, hrest⟩ := forall_mem_cons.mp hnone
    have hplain := Plain.of_sorted hsorted hnd
    have hnodup := hsorted.nodup
    rw [placed, map_cons, nodup_cons] at hnodup
    by_cases hfirst : Misled fs [] (home cur nd) nd
    · obtain ⟨w, hcheck⟩ := conflictNode_misled hsorted hfirst
      have hplain' : Plain cur { nd with exst := true } :=
        ⟨hplain.named, hplain.level, hplain.file⟩
      rw [conflictNodes, hcheck, unpackNodes_cons]
      intro hrun
      obtain ⟨v, hv, -⟩ := ok_of_bind hrun
      exact unpackNode_missing hplain' hcall hfirst.1 rfl (hhead hfirst) v hv
    · obtain ⟨ws, hcheck, hws⟩ := conflictNode_stand htree hsorted hbit hfirst
      rw [conflictNodes, hcheck] at hquiet
      obtain ⟨hnil, hquiet⟩ := append_eq_nil_iff.mp hquiet
      have hnot : ¬Found fs [] (home cur nd) nd := fun hfound => hws.mpr hfound hnil
      rw [placed] at hmis
      obtain ⟨x, hx, hxmis⟩ := hmis
      have hlater : ∃ x ∈ placed (after cur nd) nds, Misled fs [] x.1 x.2 := by
        rcases mem_cons.mp hx with rfl | hx
        · exact absurd hxmis hfirst
        · exact ⟨x, hx, hxmis⟩
      rw [conflictNodes, hcheck, unpackNodes_cons]
      intro hrun
      obtain ⟨v, hv, hrun⟩ := ok_of_bind hrun
      have hplain' : Plain cur (flagged fs [] (home cur nd) nd) := hplain.flagged (home cur nd)
      cases hexst : (flagged fs [] (home cur nd) nd).exst with
      | true =>
        obtain ⟨hdir, hthere⟩ := isDir_of_flagged htree hexst
        have hhome := hthere.extends hmore
        cases (unpackNode_old hplain' hcall hdir hexst hhome).symm.trans hv
        have hcont : contentAfter nd data = data := if_pos hdir
        exact ih hmore hcall htail hbits hnds (hcont ▸ hdel.2) hquiet hlater hrest hrun
      | false =>
        by_cases hfree : G.look (home cur nd) nd.name = none
        · have hdel' : Delivered databuf (flagged fs [] (home cur nd) nd :: nds) data := hdel
          have hstep := unpackNode_new hplain' hcall hexst hdel' hfree
          cases hstep.symm.trans hv
          refine ih (hmore.trans (extends_add hfree _)) hcall htail hbits hnds hdel.2 hquiet
            hlater ?_ hrun
          intro y hy hymis
          -- what was created is another directory, or a file the check would have found
          rw [look_add_of_ne, hrest y hy hymis]
          intro hkey
          obtain ⟨hh, hn⟩ := Prod.mk.inj hkey
          obtain ⟨hydir, -, d, hopen⟩ := hymis
          rw [hh, hn] at hopen
          cases hdir : nd.isDir with
          | true =>
            refine hnodup.1 (mem_map.mpr ⟨y, hy, ?_⟩)
            rw [pathOf, pathOf, hydir, hh, hn, hdir]
          | false =>
            refine hnot ?_
            rw [Found, if_neg (by simp [hdir]), ne_eq, htree.stat_missing]
            intro hlook
            rw [htree.openDir_eq, enter, hlook] at hopen
            cases hopen
        · exact absurd hv (unpackNode_taken hplain' hcall hexst hfree v)

end

end Minibase.Ctool.Deploy
