import Minibase.Ctool.Unpacked
import Minibase.Mpkg.Undo

/-!
# The list of a library, written and read back

The list is a text of lines, each the directories and the name of a file with slashes between
them (`Ctool.Deploy.textOf`), and there is always room for it
(`Ctool.Deploy.writeFiledb_eq_ok_iff`). Removal takes the lines apart again; the directories it
leaves are removed only when nothing is left in them (`Ctool.Deploy.unlinkFiles_all`).
-/

namespace Minibase.Ctool.Deploy

open List

open Mpkg (Node Walk Fail Halt home after leafPaths common linesOf ProperPath take_common_append
  ne_snoc)

/-! ### The text -/

section Text

variable {fs fs' : Fs (List Name)} {lst : ListName} {cur : List Name} {last : Option Name}
  {nds : List Node}

/-- The line of a path. -/
def lineOf (x : List Name × Name) : List UInt8 := joined 0x2F x.1 x.2

/-- The lines of some paths. -/
def textOf (paths : List (List Name × Name)) : List UInt8 := joined 0x0A (paths.map lineOf) []

lemma textOf_cons (x : List Name × Name) (paths : List (List Name × Name)) :
    textOf (x :: paths) = lineOf x ++ 0x0A :: textOf paths := by
  simp [textOf, joined]

/-- **What is written** is a line for each file. -/
theorem formatEntries_eq (hsorted : Sorted cur last nds) :
    formatEntries cur nds = .ok (textOf (leafPaths cur nds)) := by
  induction nds generalizing cur last with
  | nil => rfl
  | cons nd nds ih =>
    rw [formatEntries, leafPaths]
    cases hdir : nd.isDir with
    | true =>
      obtain ⟨hle, hmax, -, hrest⟩ := hsorted.dir hdir
      have hok : ¬(cur.length < nd.lvl ∨ MAXDEPTH ≤ nd.lvl) := by omega
      rw [if_pos rfl, if_pos rfl, refuse, if_neg hok, Mpkg.after_dir hdir]
      exact ih hrest
    | false =>
      obtain ⟨-, hrest⟩ := hsorted.leaf hdir
      rw [if_neg Bool.false_ne_true, if_neg Bool.false_ne_true, ih hrest, textOf_cons]
      simp [bind, Except.bind, pure, Except.pure, appendFile, lineOf, joined]

/-- **There is room for it**: the size that is computed is the length, in 32 bits. -/
theorem fileListSize_eq (hsorted : Sorted cur last nds) :
    fileListSize (cur.map fun n => n.length + 1) nds
      = .ok ((textOf (leafPaths cur nds)).length % 2 ^ 32) := by
  induction nds generalizing cur last with
  | nil => rfl
  | cons nd nds ih =>
    rw [fileListSize, leafPaths]
    cases hdir : nd.isDir with
    | true =>
      obtain ⟨hle, hmax, -, hrest⟩ := hsorted.dir hdir
      have hok : ¬((cur.map fun n => n.length + 1).length < nd.lvl ∨ MAXDEPTH ≤ nd.lvl) := by
        rw [length_map]
        omega
      have hlens : (cur.map fun n => n.length + 1).take nd.lvl ++ [nd.name.length + 1]
          = (cur.take nd.lvl ++ [nd.name]).map fun n => n.length + 1 := by
        rw [map_append, map_take]
        rfl
      rw [if_pos rfl, if_pos rfl, refuse, if_neg hok, Mpkg.after_dir hdir, hlens]
      exact ih hrest
    | false =>
      obtain ⟨-, hrest⟩ := hsorted.leaf hdir
      rw [if_neg Bool.false_ne_true, if_neg Bool.false_ne_true, ih hrest, textOf_cons]
      have hline : (lineOf (cur, nd.name)).length
          = (cur.map fun n => n.length + 1).sum + nd.name.length := by
        rw [lineOf, joined, length_append, length_flatMap]
        simp
      refine congrArg Except.ok ?_
      rw [length_append, length_cons, hline]
      omega

/-- **When the list is written**: there is a directory for it with nothing of its name in it, and
it is not too long for one call. -/
theorem writeFiledb_eq_ok_iff (htree : fs.Tree) (hsorted : Sorted [] last nds) :
    writeFiledb fs lst nds = .ok fs' ↔
      fs.IsDir [PKG] ∧ fs.look [PKG] lst.base = none ∧
        (textOf (leafPaths [] nds)).length ≤ MAX_RW_COUNT ∧
        fs' = fs.add [PKG] lst.base (.file (textOf (leafPaths [] nds)) false) := by
  have hsize := fileListSize_eq hsorted
  have htext := formatEntries_eq hsorted
  rw [map_nil] at hsize
  constructor
  · intro h
    obtain ⟨total, -, h⟩ := ok_of_bind h
    obtain ⟨d, hd, h⟩ := ok_of_bind h
    obtain ⟨fs₁, hcreat, h⟩ := ok_of_bind h
    obtain ⟨text, -, h⟩ := ok_of_bind h
    obtain ⟨_, -, h⟩ := ok_of_bind h
    obtain ⟨_, hshort, h⟩ := ok_of_bind h
    cases h
    rw [htext] at hcreat hshort
    obtain ⟨rfl, hdir⟩ := htree.isDir_of_openDir (Mpkg.orFail_ok hd)
    obtain ⟨d', hd', hfree, rfl⟩ := Fs.create_ok (Mpkg.orFail_ok hcreat)
    cases hd'
    exact ⟨hdir, hfree, Nat.le_of_not_lt (refuse_eq_ok_iff.mp hshort), rfl⟩
  · rintro ⟨hdir, hfree, hshort, rfl⟩
    have hopen : fs.openDir [] PKG = .ok [PKG] := htree.openDir_of_isDir hdir
    have hcreat : fs.creat (some [PKG]) lst.base (textOf (leafPaths [] nds)) false
        = .ok (fs.add [PKG] lst.base (.file (textOf (leafPaths [] nds)) false)) := by
      rw [Fs.creat, Fs.create, Fs.call_of_free (htree.free _ _), hfree]
    have hroom : ¬((textOf (leafPaths [] nds)).length % 2 ^ 32 + 1) % 2 ^ 32
        ≤ (textOf (leafPaths [] nds)).length := by
      rw [MAX_RW_COUNT] at hshort
      omega
    refine bind_ok ⟨_, hsize, ?_⟩
    refine bind_ok ⟨[PKG], by rw [hopen]; rfl, ?_⟩
    rw [htext]
    refine bind_ok ⟨_, congrArg (Mpkg.orFail lst.text) hcreat, ?_⟩
    refine bind_ok ⟨_, rfl, ?_⟩
    refine bind_ok ⟨(), refuse_eq_ok_iff.mpr hroom, ?_⟩
    exact bind_ok ⟨(), refuse_eq_ok_iff.mpr (Nat.not_lt.mpr hshort), rfl⟩

end Text

/-! ### Removing what the lines lead to -/

section Remove

variable {fs : Fs (List Name)} {q : List Name} {s : Removing} {x : List Name × Name}
  {paths : List (List Name × Name)}

/-- **Where removal stands**: in a directory that is there. -/
structure Standing (s : Removing) (q : List Name) : Prop where
  tree : s.fs.Tree
  walk : s.walk = hand q
  dir : s.fs.IsDir q

/-- Going back removes no file. -/
theorem backtrackFrom_hand (lvl : ℕ) (ws : List Fail) (htree : fs.Tree) (hdir : fs.IsDir q) :
    ∃ fs', backtrackFrom lvl fs ws (hand q).at_ (hand q).stack = ⟨fs', hand (q.take lvl), ws⟩ ∧
      fs'.Tree ∧ fs'.IsDir (q.take lvl) ∧ ∀ d n, fs'.leaf d n = fs.leaf d n := by
  induction q using reverseRecOn generalizing fs with
  | nil =>
    rw [take_nil]
    exact ⟨fs, rfl, htree, hdir, fun _ _ => rfl⟩
  | append_singleton q n ih =>
    have hpush : hand (q ++ [n]) = (hand q).push n (some (q ++ [n])) := (push_hand q n).symm
    have hat : (hand q).at_ = some q := at_hand q
    have hlen : (hand q).stack.length = q.length := depth_hand q
    rw [hpush]
    by_cases hlvl : lvl ≤ q.length
    · have hup := htree.isDir_of_append hdir
      rw [take_append_of_le_length hlvl]
      simp only [Walk.push, backtrackFrom, hlen, if_pos (Nat.lt_succ_of_le hlvl), hat]
      have hgo : ∀ fs₁ : Fs (List Name), fs₁.Tree → fs₁.IsDir q →
          (∀ d m, fs₁.leaf d m = fs.leaf d m) →
          ∃ fs', backtrackFrom lvl fs₁ ws (some q) (hand q).stack = ⟨fs', hand (q.take lvl), ws⟩ ∧
            fs'.Tree ∧ fs'.IsDir (q.take lvl) ∧ ∀ d n, fs'.leaf d n = fs.leaf d n := by
        intro fs₁ htree₁ hdir₁ hleaf₁
        obtain ⟨fs', heq, htree', hdir', hleaf'⟩ := ih htree₁ hdir₁
        rw [hat] at heq
        exact ⟨fs', heq, htree', hdir', fun d m => (hleaf' d m).trans (hleaf₁ d m)⟩
      split
      · exact hgo fs htree hup fun _ _ => rfl
      · rcases htree.rmdirat hdir with ⟨hok, htree', hleaf⟩ | hfull
        · rw [hok]
          exact hgo _ htree' (hup.erase (ne_snoc q n)) hleaf
        · rw [hfull]
          exact hgo fs htree hup fun _ _ => rfl
    · have htake : (q ++ [n]).take lvl = q ++ [n] := by
        rw [take_of_length_le]
        rw [length_append, length_singleton]
        omega
      have hstop : ¬lvl < q.length + 1 := by omega
      rw [htake, hpush]
      refine ⟨fs, ?_, htree, hdir, fun _ _ => rfl⟩
      simp only [Walk.push, backtrackFrom, hlen, if_neg hstop]

lemma Standing.backtrack (h : Standing s q) (lvl : ℕ) :
    Standing (backtrackPath s lvl) (q.take lvl) ∧
      ∀ d n, (backtrackPath s lvl).fs.leaf d n = s.fs.leaf d n := by
  obtain ⟨fs', heq, htree, hdir, hleaf⟩ := backtrackFrom_hand lvl s.warns h.tree h.dir
  have hback : backtrackPath s lvl = ⟨fs', hand (q.take lvl), s.warns⟩ := by
    rw [backtrackPath, h.walk]
    exact heq
  rw [hback]
  exact ⟨⟨htree, rfl, hdir⟩, hleaf⟩

/-- Going down along directories that are there. -/
theorem Standing.enter {dirs : List Name} (h : Standing s q) (hdir : s.fs.IsDir (q ++ dirs))
    (hdepth : (q ++ dirs).length ≤ MAXDEPTH) :
    ∃ s', enterNewDirs s dirs = .ok s' ∧ Standing s' (q ++ dirs) ∧ s'.fs = s.fs := by
  induction dirs generalizing s q with
  | nil =>
    rw [append_nil]
    exact ⟨s, rfl, h, rfl⟩
  | cons n dirs ih =>
    have hsplit : q ++ n :: dirs = q ++ [n] ++ dirs := append_cons q n dirs
    rw [hsplit] at hdir hdepth ⊢
    have hnext : s.fs.IsDir (q ++ [n]) := h.tree.isDir_of_append hdir
    have hmax : ¬MAXDEPTH ≤ s.walk.depth := by
      rw [h.walk, depth_hand]
      rw [length_append, length_append, length_singleton] at hdepth
      omega
    have hat : s.walk.at_ = some q := by rw [h.walk, at_hand]
    have hpush : s.walk.push n (some (q ++ [n])) = hand (q ++ [n]) := by rw [h.walk, push_hand]
    have hstand : Standing { s with walk := s.walk.push n (some (q ++ [n])) } (q ++ [n]) :=
      ⟨h.tree, hpush, hnext⟩
    obtain ⟨s', heq, hs', hfs⟩ := ih hstand hdir hdepth
    refine ⟨s', ?_, hs', hfs⟩
    rw [enterNewDirs, refuse, if_neg hmax, hat, openNext, h.tree.openDir_of_isDir hnext]
    exact heq

/-- A line is the path it was written for. -/
theorem unlinkLine_eq (hx : ProperPath x) (s : Removing) :
    unlinkLine s (lineOf x) =
      (enterNewDirs (backtrackPath s (common s.walk.path x.1))
        (x.1.drop (common s.walk.path x.1))).map (unlinkTail · x.2) := by
  rw [unlinkLine, lineOf, Mpkg.pieces_path hx]
  show (enterNewDirs _ _ >>= fun s => _) = _
  rcases enterNewDirs (backtrackPath s (common s.walk.path x.1))
    (x.1.drop (common s.walk.path x.1)) <;> rfl

/-- **A line takes out the file it was written for**, and no other. -/
theorem Standing.unlinkLine (h : Standing s q) (hx : ProperPath x) (hdepth : x.1.length ≤ MAXDEPTH)
    (hleaf : s.fs.leaf x.1 x.2 ≠ none) :
    ∃ s', Deploy.unlinkLine s (lineOf x) = .ok s' ∧ Standing s' x.1 ∧ s'.fs.leaf x.1 x.2 = none ∧
      ∀ k, k ≠ x → s'.fs.leaf k.1 k.2 = s.fs.leaf k.1 k.2 := by
  have hpath : s.walk.path = q := by rw [h.walk, hand, Walk.path_tower]
  rw [unlinkLine_eq hx, hpath]
  obtain ⟨hback, hsame⟩ := h.backtrack (common q x.1)
  rw [← hsame] at hleaf
  have hdir := hback.tree.isDir_of_leaf hleaf prefix_rfl
  have hjoin := take_common_append q x.1
  obtain ⟨s₁, henter, hs₁, hfs⟩ := hback.enter (by rwa [hjoin]) (by rwa [hjoin])
  rw [henter]
  rw [hjoin] at hs₁
  rw [← hfs] at hleaf hsame
  have hat : s₁.walk.at_ = some x.1 := by rw [hs₁.walk, at_hand]
  have htail : unlinkTail s₁ x.2 = { s₁ with fs := s₁.fs.erase x.1 x.2 } := by
    rw [unlinkTail, hat]
    simp only [hs₁.tree.unlinkat_leaf hleaf]
  have htree := hs₁.tree.erase (hs₁.tree.below_leaf (Fs.look_ne_none_of_leaf hleaf).2)
  refine ⟨_, congrArg Except.ok htail, ?_, Fs.leaf_erase_self, ?_⟩
  · exact ⟨htree, hs₁.walk, hs₁.dir.erase (ne_snoc _ _)⟩
  · intro k hkey
    rw [← hsame]
    exact Fs.leaf_erase_of_ne hkey

/-- All lines together. -/
theorem Standing.unlinkLines (h : Standing s q) (hx : ∀ x ∈ paths, ProperPath x)
    (hdepth : ∀ x ∈ paths, x.1.length ≤ MAXDEPTH) (hnodup : paths.Nodup)
    (hleaf : ∀ k ∈ paths, s.fs.leaf k.1 k.2 ≠ none) :
    ∃ s' q', (paths.map lineOf).foldlM Deploy.unlinkLine s = .ok s' ∧ Standing s' q' ∧
      (∀ k ∈ paths, s'.fs.leaf k.1 k.2 = none) ∧
      ∀ k, k ∉ paths → s'.fs.leaf k.1 k.2 = s.fs.leaf k.1 k.2 := by
  induction paths generalizing s q with
  | nil => exact ⟨s, q, rfl, h, nofun, fun _ _ => rfl⟩
  | cons x paths ih =>
    obtain ⟨hx, hxs⟩ := forall_mem_cons.mp hx
    obtain ⟨hdepth, hdepths⟩ := forall_mem_cons.mp hdepth
    obtain ⟨hnew, hnodup⟩ := nodup_cons.mp hnodup
    obtain ⟨hleaf, hleaves⟩ := forall_mem_cons.mp hleaf
    obtain ⟨s₁, hline, hs₁, hgone, hothers⟩ := h.unlinkLine hx hdepth hleaf
    obtain ⟨s', q', hrun, hs', hnone, hrest⟩ := ih hs₁ hxs hdepths hnodup (by
      intro k hk
      rw [hothers k fun hkey => hnew (hkey ▸ hk)]
      exact hleaves k hk)
    refine ⟨s', q', ?_, hs', ?_, ?_⟩
    · rw [map_cons, foldlM_cons, hline]
      exact hrun
    · refine forall_mem_cons.mpr ⟨?_, hnone⟩
      rw [hrest _ hnew]
      exact hgone
    · intro k hk
      obtain ⟨hne, hk⟩ := ne_and_not_mem_of_not_mem_cons hk
      rw [hrest k hk, hothers k hne]

lemma noNewline_lineOf (hx : ProperPath x) : 0x0A ∉ lineOf x :=
  Mpkg.not_mem_joined (by decide) (fun d hd => (hx.1 d hd).noNewline) hx.2.noNewline

/-- **All the files are removed**, and no other. -/
theorem unlinkFiles_all (htree : fs.Tree) (hx : ∀ x ∈ paths, ProperPath x)
    (hdepth : ∀ x ∈ paths, x.1.length ≤ MAXDEPTH) (hnodup : paths.Nodup)
    (hleaf : ∀ k ∈ paths, fs.leaf k.1 k.2 ≠ none) :
    ∃ s, unlinkFiles fs (textOf paths) = .ok s ∧ s.fs.Tree ∧
      (∀ k ∈ paths, s.fs.leaf k.1 k.2 = none) ∧
      ∀ k, k ∉ paths → s.fs.leaf k.1 k.2 = fs.leaf k.1 k.2 := by
  have hstart : Standing ⟨fs, ⟨some [], []⟩, []⟩ [] := ⟨htree, rfl, Fs.isDir_nil fs⟩
  obtain ⟨s, q, hrun, hs, hnone, hrest⟩ := hstart.unlinkLines hx hdepth hnodup hleaf
  obtain ⟨hback, hsame⟩ := hs.backtrack 0
  have hlines : linesOf (textOf paths) = paths.map lineOf := by
    refine Mpkg.linesOf_joined ?_
    intro d hd
    obtain ⟨x, hmem, rfl⟩ := mem_map.mp hd
    exact noNewline_lineOf (hx x hmem)
  refine ⟨backtrackPath s 0, ?_, hback.tree, ?_, ?_⟩
  · rw [unlinkFiles, hlines, hrun]
    rfl
  · intro k hk
    rw [hsame, hnone k hk]
  · intro k hk
    rw [hsame, hrest k hk]

end Remove

end Minibase.Ctool.Deploy
