import Minibase.Ctool.Deploy
import Minibase.Mpkg.Conflict

/-!
# What the check of a library finds

The check looks for an entry in the deepest directory on the way to it that is there
(`Ctool.Deploy.deepest`), since it pushes only what it can open. If it opens a directory of the
name of the entry, it goes astray, and is back in time for the next entry that is in a
directory that is there (`Ctool.Deploy.Near`). So a real conflict is never missed
(`Ctool.Deploy.conflictNodes_near`), and as long as nothing leads it astray, the bits are right
(`Ctool.Deploy.conflictNodes_stand`).
-/

namespace Minibase.Ctool.Deploy

open List Mpkg

open Mpkg (Node Walk Warn home after placed anchor existing IsDirAt Found Misled stand flagged flag
  at_stand rewind_stand existing_take existing_append_anchor)

section

variable {fs : Fs (List Name)} {cur h : List Name} {last : Option Name} {nd : Node}
  {nds : List Node} {w : Walk (List Name)}

/-- The deepest directory along a path. -/
def deepest (fs : Fs (List Name)) (h : List Name) : List Name := existing fs [] h

/-- **A conflict**: the path of a file exists, or that of a directory can be opened as something
else than a directory, or not for another reason than that it does not exist. -/
def InTheWay (fs : Fs (List Name)) (x : List Name × Node) : Prop :=
  if x.2.isDir then ∃ e, fs.openDir x.1 x.2.name = .error e ∧ e ≠ .ENOENT
  else fs.look x.1 x.2.name ≠ none

instance decidableInTheWay (fs : Fs (List Name)) (x : List Name × Node) : Decidable
    (InTheWay fs x) :=
  have : Decidable (∃ e, fs.openDir x.1 x.2.name = .error e ∧ e ≠ .ENOENT) :=
    match fs.openDir x.1 x.2.name with
    | .ok _ => isFalse fun ⟨_, heq, _⟩ => nomatch heq
    | .error e => decidable_of_iff (e ≠ .ENOENT)
      ⟨fun hne => ⟨e, rfl, hne⟩, fun ⟨_, heq, hne⟩ => Except.error.inj heq ▸ hne⟩
  inferInstanceAs (Decidable (if x.2.isDir then ∃ e, fs.openDir x.1 x.2.name = .error e ∧
    e ≠ .ENOENT
    else fs.look x.1 x.2.name ≠ none))

/-! ### Directories in a tree -/

lemma anchor_fst (htree : fs.Tree) (d p : List Name) :
    (anchor fs d p).1 = d ++ existing fs d p := by
  induction p generalizing d with
  | nil => exact (append_nil d).symm
  | cons n p ih =>
    rw [anchor, existing]
    rw [← htree.openDir_eq]
    rcases hopen : fs.openDir d n with e | d'
    · exact (append_nil d).symm
    · obtain ⟨rfl, -⟩ := htree.isDir_of_openDir hopen
      show (anchor fs (d ++ [n]) p).1 = d ++ n :: existing fs (d ++ [n]) p
      rw [ih, append_assoc, singleton_append]

lemma anchor_eq_deepest (htree : fs.Tree) (h : List Name) : (anchor fs [] h).1 = deepest fs h :=
  anchor_fst htree [] h

/-- In a tree, the path of a directory is the directory. -/
theorem isDirAt_iff (htree : fs.Tree) : IsDirAt fs [] h ↔ fs.IsDir h := by
  induction h using reverseRecOn with
  | nil => exact iff_of_true rfl (Fs.isDir_nil fs)
  | append_singleton p n ih =>
    rw [isDirAt_snoc, ih, anchor_eq_deepest htree]
    constructor
    · rintro ⟨hdir, d, hopen⟩
      have hp : deepest fs p = p := existing_of_anchor (ih.mpr hdir)
      rw [hp] at hopen
      exact (htree.isDir_of_openDir ((htree.openDir_eq p n).trans hopen)).2
    · intro hdir
      have hup := htree.isDir_of_append hdir
      have hp : deepest fs p = p := existing_of_anchor (ih.mpr hup)
      rw [hp]
      exact ⟨hup, _, (htree.openDir_eq p n).symm.trans (htree.openDir_of_isDir hdir)⟩

lemma deepest_of_isDir (htree : fs.Tree) (hdir : fs.IsDir h) : deepest fs h = h :=
  existing_of_anchor ((isDirAt_iff htree).mpr hdir)

lemma inTheWay_iff (htree : fs.Tree) {x : List Name × Node} :
    InTheWay fs x ↔ Mpkg.InTheWay fs [] x.1 x.2 := by
  obtain ⟨h, nd⟩ := x
  rw [Mpkg.InTheWay, isDirAt_iff htree, InTheWay, anchor_eq_deepest htree, htree.openDir_eq]
  constructor
  · intro hway
    -- there is something in the directory, so that there is the directory
    have hdir : fs.IsDir h := by
      refine htree.closed h nd.name fun hnone => ?_
      split at hway
      · obtain ⟨e, hopen, hne⟩ := hway
        rw [Fs.enter, hnone] at hopen
        exact hne (Except.error.inj hopen).symm
      · exact hway hnone
    rw [deepest_of_isDir htree hdir]
    exact ⟨hdir, hway⟩
  · rintro ⟨hdir, hway⟩
    rwa [deepest_of_isDir htree hdir] at hway

/-- What is found, in a tree. -/
theorem found_iff (htree : fs.Tree) :
    Found fs [] h nd ↔
      if nd.isDir then ∃ e, fs.openDir (deepest fs h) nd.name = .error e ∧ e ≠ .ENOENT
      else fs.look (deepest fs h) nd.name ≠ none := by
  rw [Found, anchor_eq_deepest htree, ne_eq, htree.stat_missing]

lemma inTheWay_of_found (htree : fs.Tree) (hdir : fs.IsDir h) (hfound : Found fs [] h nd) :
    InTheWay fs (h, nd) := by
  rwa [found_iff htree, deepest_of_isDir htree hdir] at hfound

/-! ### Where the check stands -/

/-- **Not far from the right place**: what is too much on the stack is on top, and there is
nothing too much if the current directory is there. -/
structure Near (fs : Fs (List Name)) (w : Walk (List Name)) (cur : List Name) : Prop where
  back : w.rewind (deepest fs cur).length = stand fs [] cur
  here : IsDirAt fs [] cur → w = stand fs [] cur
  depth : w.depth ≤ cur.length

lemma deepest_take (lvl : ℕ) : deepest fs (cur.take lvl) = (deepest fs cur).take lvl :=
  existing_take [] cur lvl

lemma stand_of_deepest {p q : List Name} (heq : deepest fs p = deepest fs q) :
    stand fs [] p = stand fs [] q := by
  rw [stand, stand, show existing fs [] p = existing fs [] q from heq]

lemma depth_stand (cur : List Name) : (stand fs [] cur).depth = (deepest fs cur).length :=
  Walk.depth_tower _

lemma near_stand (cur : List Name) : Near fs (stand fs [] cur) cur := by
  refine ⟨?_, fun _ => rfl, depth_stand_le cur⟩
  rw [rewind_stand]
  refine stand_of_deepest ?_
  rw [deepest_take, take_length]

/-- Going back keeps near. -/
theorem Near.rewind (hnear : Near fs w cur) {lvl : ℕ} (hlvl : lvl ≤ cur.length) :
    Near fs (w.rewind lvl) (cur.take lvl) := by
  have hlen : (deepest fs (cur.take lvl)).length = min lvl (deepest fs cur).length := by
    rw [deepest_take, length_take]
  have hback : (w.rewind lvl).rewind (deepest fs (cur.take lvl)).length
      = stand fs [] (cur.take lvl) := by
    rw [Walk.rewind_rewind w (by omega), ← Walk.rewind_rewind w
      (show (deepest fs (cur.take lvl)).length ≤ (deepest fs cur).length by omega), hnear.back,
      rewind_stand]
    refine stand_of_deepest ?_
    rw [deepest_take, deepest_take, length_take, ← take_take, take_length]
  refine ⟨hback, fun hdir => ?_, ?_⟩
  · have hall : (deepest fs (cur.take lvl)).length = lvl := by
      rw [deepest, existing_of_anchor hdir, length_take, min_eq_left hlvl]
    rw [hall, Walk.rewind_rewind w (le_refl lvl)] at hback
    exact hback
  · rw [Walk.depth_rewind, length_take]
    have := hnear.depth
    omega

/-- A directory that cannot be opened from here is not there. -/
theorem Near.stay (htree : fs.Tree) (hnear : Near fs w h) {n : Name} {e : Errno}
    (hopen : fs.openDir w.at_ n = .error e) : Near fs w (h ++ [n]) := by
  have hno : IsDirAt fs [] h → ∀ d, fs.enter (anchor fs [] h).1 n ≠ .ok d := by
    intro hdir d hd
    rw [hnear.here hdir, at_stand, htree.openDir_eq, hd] at hopen
    cases hopen
  have hdeep : deepest fs (h ++ [n]) = deepest fs h := existing_snoc_of_not_ok hno
  refine ⟨?_, fun hdir => ?_, ?_⟩
  · rw [hdeep, hnear.back, stand_of_deepest hdeep]
  · obtain ⟨hup, d, hd⟩ := isDirAt_snoc.mp hdir
    exact absurd hd (hno hup d)
  · rw [length_append]
    exact Nat.le_add_right_of_le hnear.depth

/-- A directory that is opened is the right one, or one on top of what is right. -/
theorem Near.push (htree : fs.Tree) (hnear : Near fs w h) {n : Name} {d : List Name}
    (hopen : fs.openDir w.at_ n = .ok d) : Near fs (w.push n d) (h ++ [n]) := by
  have hdepth : (w.push n d).depth ≤ (h ++ [n]).length := by
    rw [length_append]
    exact Nat.succ_le_succ hnear.depth
  by_cases hdir : IsDirAt fs [] h
  · rw [hnear.here hdir, at_stand, htree.openDir_eq] at hopen
    rw [hnear.here hdir, push_stand hdir hopen]
    exact near_stand _
  · have hdeep : deepest fs (h ++ [n]) = deepest fs h :=
      existing_snoc_of_not_ok fun hup => absurd hup hdir
    refine ⟨?_, fun hsnoc => absurd (isDirAt_snoc.mp hsnoc).1 hdir, hdepth⟩
    have hle : (deepest fs h).length ≤ w.depth := by
      have := congrArg Walk.depth hnear.back
      rw [Walk.depth_rewind, depth_stand] at this
      omega
    rw [hdeep, Walk.rewind_push hle, hnear.back, stand_of_deepest hdeep]

/-! ### One entry -/

lemma enterDir_eq (hdepth : w.depth < MAXDEPTH) :
    enterDir fs w nd =
      match fs.openDir w.at_ nd.name with
      | .error .ENOENT => (w, nd, [])
      | .error e => (w, nd, [⟨none, w.path ++ [nd.name], e⟩])
      | .ok fd => (w.push nd.name fd, { nd with exst := true }, []) :=
  if_neg (Nat.not_le.mpr hdepth)

lemma statLeaf_ne_nil_iff : statLeaf fs w nd ≠ [] ↔ fs.stat w.at_ nd.name ≠ .error .ENOENT := by
  rw [statLeaf]
  rcases fs.stat w.at_ nd.name with e | e
  · cases e <;> simp
  · simp

/-- What opening a directory comes to: it is opened, or it is reported, or it is not there. -/
theorem enterDir_near (htree : fs.Tree) (hnear : Near fs w h) (hlen : h.length < MAXDEPTH) :
    Near fs (enterDir fs w nd).1 (h ++ [nd.name]) ∧
      ((enterDir fs w nd).2.2 ≠ [] ↔ ∃ e, fs.openDir w.at_ nd.name = .error e ∧ e ≠ .ENOENT) := by
  rw [enterDir_eq (lt_of_le_of_lt hnear.depth hlen)]
  rcases hopen : fs.openDir w.at_ nd.name with e | d
  · have hstay := hnear.stay htree hopen
    cases e
    case ENOENT => exact ⟨hstay, by simp⟩
    all_goals exact ⟨hstay, by simp⟩
  · exact ⟨hnear.push htree hopen, by simp⟩

/-- **One entry**: the check stays near, and does not miss a conflict. -/
theorem conflictNode_near (htree : fs.Tree) (hsorted : Sorted cur last (nd :: nds))
    (hnear : Near fs w cur) :
    Near fs (conflictNode fs w nd).1 (after cur nd) ∧
      (Mpkg.InTheWay fs [] (home cur nd) nd → (conflictNode fs w nd).2.2 ≠ []) := by
  rw [conflictNode]
  cases hdir : nd.isDir with
  | true =>
    obtain ⟨hle, hmax, -, -⟩ := hsorted.dir hdir
    rw [if_pos rfl, home_dir hdir, after_dir hdir]
    have hlen : (cur.take nd.lvl).length < MAXDEPTH := by
      rw [length_take]
      omega
    have hback := hnear.rewind hle
    refine ⟨(enterDir_near htree hback hlen).1, ?_⟩
    rintro ⟨hhome, hway⟩
    rw [if_pos hdir] at hway
    rwa [(enterDir_near htree hback hlen).2, hback.here hhome, at_stand, htree.openDir_eq]
  | false =>
    rw [if_neg Bool.false_ne_true, home_leaf hdir, after_leaf hdir]
    refine ⟨hnear, ?_⟩
    rintro ⟨hhome, hway⟩
    rw [if_neg (by simp [hdir])] at hway
    rwa [statLeaf_ne_nil_iff, hnear.here hhome, at_stand, ne_eq, htree.stat_missing]

/-- **A conflict is reported**, whatever led the check astray before. -/
theorem conflictNodes_near (htree : fs.Tree) (hsorted : Sorted cur last nds) (hnear : Near fs w cur)
    (hway : ∃ x ∈ placed cur nds, Mpkg.InTheWay fs [] x.1 x.2) :
    (conflictNodes fs w nds).2 ≠ [] := by
  induction nds generalizing cur last w with
  | nil =>
    obtain ⟨x, hx, -⟩ := hway
    cases hx
  | cons nd nds ih =>
    obtain ⟨hnext, hwarn⟩ := conflictNode_near htree hsorted hnear
    obtain ⟨last', htail⟩ := hsorted.tail
    rw [conflictNodes]
    intro hnil
    obtain ⟨hws, hws'⟩ := append_eq_nil_iff.mp hnil
    obtain ⟨x, hx, hxway⟩ := hway
    rw [placed] at hx
    rcases mem_cons.mp hx with rfl | hx
    · exact hwarn hxway hws
    · exact ih htail hnext ⟨x, hx, hxway⟩ hws'

/-! ### Without going astray -/

/-- **One entry** that does not lead astray: the bit is right, and there is a warning if something
is found. -/
theorem conflictNode_stand (htree : fs.Tree) (hsorted : Sorted cur last (nd :: nds))
    (hexst : nd.exst = false)
    (hmis : ¬Misled fs [] (home cur nd) nd) :
    ∃ ws, conflictNode fs (stand fs [] cur) nd
        = (stand fs [] (after cur nd), flagged fs [] (home cur nd) nd, ws) ∧
      (ws ≠ [] ↔ Found fs [] (home cur nd) nd) := by
  rw [conflictNode]
  cases hdir : nd.isDir with
  | true =>
    obtain ⟨hle, hmax, -, -⟩ := hsorted.dir hdir
    rw [if_pos rfl, rewind_stand, after_dir hdir, home_dir hdir] at *
    have hdepth : (stand fs [] (cur.take nd.lvl)).depth < MAXDEPTH := by
      refine lt_of_le_of_lt (depth_stand_le _) ?_
      rw [length_take]
      omega
    rw [enterDir_eq hdepth, at_stand, Found, if_pos hdir]
    have heq := htree.openDir_eq (anchor fs [] (cur.take nd.lvl)).1 nd.name
    rcases hopen : fs.openDir (anchor fs [] (cur.take nd.lvl)).1 nd.name with e | d
    · have hno : ∀ d, fs.enter (anchor fs [] (cur.take nd.lvl)).1 nd.name ≠ .ok d := by
        rw [← heq, hopen]
        rintro _ ⟨⟩
      have hflag : flagged fs [] (cur.take nd.lvl) nd = nd := by
        have hnot : ¬IsDirAt fs [] (cur.take nd.lvl ++ [nd.name]) := by
          rw [isDirAt_snoc]
          rintro ⟨-, d, hd⟩
          exact hno d hd
        rw [flagged, decide_eq_false hnot, Bool.and_false, ← hexst]
      rw [stand_of_not_ok fun _ => hno, hflag]
      cases e
      case ENOENT => exact ⟨[], rfl, by simp⟩
      all_goals exact ⟨_, rfl, by simp⟩
    · have hhome : IsDirAt fs [] (cur.take nd.lvl) := by
        by_contra hhome
        exact hmis ⟨hdir, hhome, d, hopen⟩
      have hyes : IsDirAt fs [] (cur.take nd.lvl ++ [nd.name]) :=
        isDirAt_snoc.mpr ⟨hhome, d, heq ▸ hopen⟩
      refine ⟨[], ?_, by simp⟩
      rw [← push_stand hhome (heq ▸ hopen), flagged, decide_eq_true hyes, hdir]
      rfl
  | false =>
    have hflag : flagged fs [] (home cur nd) nd = nd := by
      rw [flagged, hdir, Bool.false_and, ← hexst]
    rw [if_neg Bool.false_ne_true, hflag, after_leaf hdir, home_leaf hdir, Found,
      if_neg (by simp [hdir])]
    exact ⟨_, rfl, by rw [statLeaf_ne_nil_iff, at_stand]⟩

/-- **One entry** that leads astray gets a bit it should not have, and is not reported. -/
theorem conflictNode_misled (hsorted : Sorted cur last (nd :: nds))
    (hmis : Misled fs [] (home cur nd) nd) :
    ∃ w, conflictNode fs (stand fs [] cur) nd = (w, { nd with exst := true }, []) := by
  obtain ⟨hdir, -, d, hopen⟩ := hmis
  obtain ⟨hle, hmax, -, -⟩ := hsorted.dir hdir
  rw [home_dir hdir] at hopen
  have hdepth : (stand fs [] (cur.take nd.lvl)).depth < MAXDEPTH := by
    refine lt_of_le_of_lt (depth_stand_le _) ?_
    rw [length_take]
    omega
  rw [conflictNode, if_pos hdir, rewind_stand, enterDir_eq hdepth, at_stand, hopen]
  exact ⟨_, rfl⟩

/-- **The check, from where it should stand**, if nothing leads it astray. -/
theorem conflictNodes_stand (htree : fs.Tree) (hsorted : Sorted cur last nds)
    (hexst : ∀ nd ∈ nds, nd.exst = false)
    (hmis : ∀ x ∈ placed cur nds, ¬Misled fs [] x.1 x.2) :
    (conflictNodes fs (stand fs [] cur) nds).1 = flag fs [] cur nds ∧
      ((conflictNodes fs (stand fs [] cur) nds).2 ≠ [] ↔
        ∃ x ∈ placed cur nds, Found fs [] x.1 x.2) := by
  induction nds generalizing cur last with
  | nil => simp [conflictNodes, flag, placed]
  | cons nd nds ih =>
    obtain ⟨hbit, hbits⟩ := forall_mem_cons.mp hexst
    obtain ⟨hhead, hrest⟩ := forall_mem_cons.mp hmis
    obtain ⟨last', htail⟩ := hsorted.tail
    obtain ⟨ws, hcheck, hws⟩ := conflictNode_stand htree hsorted hbit hhead
    obtain ⟨hflag, hwarn⟩ := ih htail hbits hrest
    rw [conflictNodes, hcheck]
    simp only [placed, exists_mem_cons_iff]
    refine ⟨by rw [flag, hflag], ?_⟩
    rw [ne_eq, append_eq_nil_iff, not_and_or, ← ne_eq, ← ne_eq, hws, hwarn]

end

end Minibase.Ctool.Deploy
