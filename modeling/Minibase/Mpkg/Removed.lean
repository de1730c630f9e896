import Minibase.Mpkg.Unpacked

/-!
# Reading the list back

A line of the list is the prefix, the directories and the name with slashes between them
(`Mpkg.lineOf`, `Mpkg.writeEntries_eq`). If what is cut off in front is the prefix, a line leads
to the file it was written for (`Mpkg.unlinkFiles_all`). If nothing is cut off because the prefix
is `/`, each line starts with two slashes and so with an empty name. No directory is called that,
and nothing is removed at all (`Mpkg.unlinkFiles_nothing`).
-/

namespace Minibase.Mpkg

open List Walk

/-! ### The text -/

section Text

variable {pre : List UInt8} {cur : List Name} {nds : List Node}

/-- The line of a path. -/
def lineOf (pre : List UInt8) (x : List Name × Name) : List UInt8 :=
  pre ++ 47 :: joined 47 x.1 x.2

/-- The lines of some paths. -/
def entriesOf (pre : List UInt8) (paths : List (List Name × Name)) : List UInt8 :=
  joined 10 (paths.map (lineOf pre)) []

lemma entriesOf_cons (x : List Name × Name) (paths : List (List Name × Name)) :
    entriesOf pre (x :: paths) = lineOf pre x ++ 10 :: entriesOf pre paths := by
  simp [entriesOf, joined]

/-- **What is written** is a line for each leaf. -/
theorem writeEntries_eq (hneed : ∀ nd ∈ nds, nd.need = true) (hlev : Leveled cur.length nds) :
    writeEntries pre cur nds = .ok (entriesOf pre (leafPaths cur nds)) := by
  induction nds generalizing cur with
  | nil => rfl
  | cons nd nds ih =>
    obtain ⟨hneed, hneeds⟩ := forall_mem_cons.mp hneed
    have hrest := ih hneeds hlev.tail
    rw [writeEntries, leafPaths]
    rcases hdir : nd.isDir with - | -
    · rw [after_leaf hdir] at hrest
      rw [if_neg Bool.false_ne_true, if_neg (not_not_intro hneed), hrest,
        if_neg Bool.false_ne_true, entriesOf_cons]
      simp [bind, Except.bind, pure, Except.pure, writeLine, lineOf, joined, writePart]
    · rw [Leveled, if_pos hdir] at hlev
      have hok : ¬(cur.length < nd.lvl ∨ MAXDEPTH < nd.lvl) := by omega
      rw [after_dir hdir] at hrest ⊢
      rw [if_pos rfl, if_pos rfl, refuse, if_neg hok]
      exact hrest

/-- The paths of an index are of proper names. -/
theorem proper_of_mem_leafPaths (hproper : ∀ nd ∈ nds, Proper nd.name)
    (hcur : ∀ n ∈ cur, Proper n) : ∀ x ∈ leafPaths cur nds, (∀ n ∈ x.1, Proper n) ∧ Proper x.2 := by
  induction nds generalizing cur with
  | nil => exact fun x hx => nomatch hx
  | cons nd nds ih =>
    obtain ⟨hnd, hnds⟩ := forall_mem_cons.mp hproper
    rw [leafPaths]
    split
    · rename_i hdir
      refine ih hnds ?_
      rw [after_dir hdir]
      intro n hn
      rcases mem_append.mp hn with hn | hn
      · exact hcur n (mem_of_mem_take hn)
      · exact mem_singleton.mp hn ▸ hnd
    · exact forall_mem_cons.mpr ⟨⟨hcur, hnd⟩, ih hnds hcur⟩

/-- The paths of an index are not too deep. -/
theorem depth_of_mem_leafPaths (hlev : Leveled cur.length nds) (hcur : cur.length ≤ MAXDEPTH) :
    ∀ x ∈ leafPaths cur nds, x.1.length ≤ MAXDEPTH := by
  induction nds generalizing cur with
  | nil => exact fun x hx => nomatch hx
  | cons nd nds ih =>
    have htail := hlev.tail
    rw [leafPaths]
    split
    · rename_i hdir
      refine ih htail ?_
      have hlt := hlev.home_lt hdir
      rw [after_dir hdir, ← home_dir hdir, length_append]
      exact hlt
    · rename_i hdir
      rw [after_leaf (by simpa using hdir)] at htail
      exact forall_mem_cons.mpr ⟨hcur, ih htail hcur⟩

end Text

/-! ### Taking it apart -/

section Lines

variable {pre : List UInt8} {x : List Name × Name} {paths : List (List Name × Name)}

/-- A path of proper names. -/
def ProperPath (x : List Name × Name) : Prop := (∀ n ∈ x.1, Proper n) ∧ Proper x.2

lemma not_mem_joined {k c : UInt8} {ds : List Name} {t : Name} (hck : c ≠ k)
    (hds : ∀ d ∈ ds, c ∉ d) (ht : c ∉ t) : c ∉ joined k ds t := by
  intro hmem
  rcases mem_append.mp hmem with hmem | hmem
  · obtain ⟨d, hd, hmem⟩ := mem_flatMap.mp hmem
    rcases mem_append.mp hmem with hmem | hmem
    · exact hds d hd hmem
    · exact hck (mem_singleton.mp hmem)
  · exact ht hmem

lemma noNewline_lineOf (hpre : 10 ∉ pre) (hx : ProperPath x) : 10 ∉ lineOf pre x := by
  intro hmem
  rcases mem_append.mp hmem with hmem | hmem
  · exact hpre hmem
  rcases mem_cons.mp hmem with h | hmem
  · cases h
  · exact not_mem_joined (by decide) (fun d hd => (hx.1 d hd).noNewline) hx.2.noNewline hmem

/-- The lines of a text are those it is made of. -/
theorem linesOf_joined {ds : List (List UInt8)} (hds : ∀ d ∈ ds, 10 ∉ d) :
    linesOf (joined 10 ds []) = ds := by
  have hpieces : pieces 10 (joined 10 ds []) = (ds, []) := pieces_joined hds not_mem_nil
  rw [linesOf, hpieces, if_pos rfl, append_nil]

lemma linesOf_entriesOf (hpre : 10 ∉ pre) (hx : ∀ x ∈ paths, ProperPath x) :
    linesOf (entriesOf pre paths) = paths.map (lineOf pre) := by
  refine linesOf_joined ?_
  intro d hd
  obtain ⟨x, hmem, rfl⟩ := mem_map.mp hd
  exact noNewline_lineOf hpre (hx x hmem)

lemma pieces_path (hx : ProperPath x) : pieces 47 (joined 47 x.1 x.2) = x :=
  pieces_joined (fun d hd => (hx.1 d hd).noSlash) hx.2.noSlash

/-- A line without the prefix is the path. -/
theorem unlinkLine_eq (hx : ProperPath x) (s : Removing) :
    unlinkLine (pre.length + 1) s (lineOf pre x) =
      (enterNewDirs (backtrackPath s (common s.walk.path x.1))
        (x.1.drop (common s.walk.path x.1))).map (unlinkTail · x.2) := by
  have hlen : ¬(lineOf pre x).length < pre.length + 1 := by
    rw [lineOf, length_append, length_cons]
    omega
  have hdrop : (lineOf pre x).drop (pre.length + 1) = joined 47 x.1 x.2 := by
    rw [lineOf, append_cons]
    exact drop_left' (by rw [length_append, length_singleton])
  rw [unlinkLine, refuse, if_neg hlen, hdrop, pieces_path hx]
  show (enterNewDirs _ _ >>= fun s => _) = _
  rcases enterNewDirs (backtrackPath s (common s.walk.path x.1))
    (x.1.drop (common s.walk.path x.1)) <;> rfl

/-- The common part and what is left of the second path. -/
theorem take_common_append (p q : List Name) : p.take (common p q) ++ q.drop (common p q) = q := by
  induction p generalizing q with
  | nil => rfl
  | cons m p ih =>
    rcases q with - | ⟨n, q⟩
    · rfl
    · rw [common]
      split
      · rename_i h
        rw [take_succ_cons, drop_succ_cons, cons_append, ih, h]
      · rfl

end Lines

/-! ### Removing what the lines lead to -/

section Remove

variable {fs : Fs (List Name)} {r q : List Name} {s : Removing} {pre : List UInt8}
  {x : List Name × Name} {paths : List (List Name × Name)}

/-- The descriptors along a path below a directory. -/
def below (r : List Name) (q : List Name) : Walk (Option (List Name)) :=
  tower (fun p => some (r ++ p)) q

/-- **Where removal stands**: in a directory that is there, with nothing to complain about. -/
structure Standing (s : Removing) (r q : List Name) : Prop where
  tree : s.fs.Tree
  walk : s.walk = below r q
  dir : s.fs.IsDir (r ++ q)
  quiet : s.warns = []

lemma ne_snoc (d : List Name) (n : Name) : d ≠ d ++ [n] := by
  intro h
  have := congrArg length h
  rw [length_append, length_singleton] at this
  omega

/-- Going back removes no leaf. -/
theorem backtrackFrom_below (full : List Name) (lvl : ℕ) (ws : List Warn) (htree : fs.Tree)
    (hdir : fs.IsDir (r ++ q)) :
    ∃ fs', backtrackFrom full lvl fs ws (below r q).at_ (below r q).stack
        = ⟨fs', below r (q.take lvl), ws⟩ ∧
      fs'.Tree ∧ fs'.IsDir (r ++ q.take lvl) ∧ ∀ d n, fs'.leaf d n = fs.leaf d n := by
  induction q using reverseRecOn generalizing fs with
  | nil =>
    refine ⟨fs, ?_, htree, ?_, fun _ _ => rfl⟩
    · rw [take_nil]
      rfl
    · rwa [take_nil]
  | append_singleton q n ih =>
    have hpush : below r (q ++ [n]) = (below r q).push n (some (r ++ (q ++ [n]))) :=
      tower_snoc q n
    have hat : (below r q).at_ = some (r ++ q) := at_tower q
    have hlen : (below r q).stack.length = q.length := depth_tower q
    rw [hpush]
    by_cases hlvl : lvl ≤ q.length
    · rw [take_append_of_le_length hlvl]
      rw [← append_assoc] at hdir
      have hup := htree.isDir_of_append hdir
      simp only [push, backtrackFrom, hlen, if_pos (Nat.lt_succ_of_le hlvl), hat]
      rcases htree.rmdirat hdir with ⟨hok, htree', hleaf⟩ | hfull
      · rw [hok]
        obtain ⟨fs', heq, htree'', hdir', hleaf'⟩ := ih htree' (hup.erase (ne_snoc _ n))
        rw [hat] at heq
        exact ⟨fs', heq, htree'', hdir', fun d m => (hleaf' d m).trans (hleaf d m)⟩
      · rw [hfull]
        obtain ⟨fs', heq, hrest⟩ := ih htree hup
        rw [hat] at heq
        exact ⟨fs', heq, hrest⟩
    · have htake : (q ++ [n]).take lvl = q ++ [n] := by
        rw [take_of_length_le]
        rw [length_append, length_singleton]
        omega
      rw [htake, hpush]
      refine ⟨fs, ?_, htree, hdir, fun _ _ => rfl⟩
      have hstop : ¬lvl < q.length + 1 := by omega
      simp only [push, backtrackFrom, hlen, if_neg hstop]

lemma Standing.backtrack (h : Standing s r q) (lvl : ℕ) :
    Standing (backtrackPath s lvl) r (q.take lvl) ∧
      ∀ d n, (backtrackPath s lvl).fs.leaf d n = s.fs.leaf d n := by
  obtain ⟨fs', heq, htree, hdir, hleaf⟩ :=
    backtrackFrom_below s.walk.path lvl s.warns h.tree h.dir
  have hback : backtrackPath s lvl = ⟨fs', below r (q.take lvl), s.warns⟩ := by
    rw [backtrackPath, h.walk] at *
    exact heq
  rw [hback]
  exact ⟨⟨htree, rfl, hdir, h.quiet⟩, hleaf⟩

/-- Going down along directories that are there. -/
theorem Standing.enter {dirs : List Name} (h : Standing s r q)
    (hdir : s.fs.IsDir (r ++ (q ++ dirs)))
    (hdepth : (q ++ dirs).length ≤ MAXDEPTH) :
    ∃ s', enterNewDirs s dirs = .ok s' ∧ Standing s' r (q ++ dirs) ∧ s'.fs = s.fs := by
  induction dirs generalizing s q with
  | nil =>
    rw [append_nil]
    exact ⟨s, rfl, h, rfl⟩
  | cons n dirs ih =>
    have hsplit : q ++ n :: dirs = q ++ [n] ++ dirs := append_cons q n dirs
    rw [hsplit] at hdir hdepth ⊢
    have hnext : s.fs.IsDir (r ++ q ++ [n]) := by
      rw [append_assoc]
      refine h.tree.isDir_of_append (q := dirs) ?_
      rwa [append_assoc]
    have hmax : ¬MAXDEPTH ≤ s.walk.depth := by
      rw [h.walk, below, depth_tower]
      rw [length_append, length_append, length_singleton] at hdepth
      omega
    have hat : s.walk.at_ = some (r ++ q) := by rw [h.walk, below, at_tower]
    have hpush : s.walk.push n (some (r ++ q ++ [n])) = below r (q ++ [n]) := by
      rw [h.walk, below, below, tower_snoc, append_assoc]
    have hstand : Standing { s with walk := s.walk.push n (some (r ++ q ++ [n])) } r (q ++ [n]) :=
      ⟨h.tree, hpush, by rwa [← append_assoc], h.quiet⟩
    obtain ⟨s', heq, hs', hfs⟩ := ih hstand hdir hdepth
    refine ⟨s', ?_, hs', hfs⟩
    rw [enterNewDirs, refuse, if_neg hmax, hat, openNext, h.tree.openDir_of_isDir hnext]
    exact heq

/-- **A line takes out the leaf it was written for**, and no other. -/
theorem Standing.unlinkLine (h : Standing s r q) (pre : List UInt8) (hx : ProperPath x)
    (hdepth : x.1.length ≤ MAXDEPTH) (hleaf : s.fs.leaf (r ++ x.1) x.2 ≠ none) :
    ∃ s', Mpkg.unlinkLine (pre.length + 1) s (lineOf pre x) = .ok s' ∧ Standing s' r x.1 ∧
      s'.fs.leaf (r ++ x.1) x.2 = none ∧
      ∀ d n, (d, n) ≠ (r ++ x.1, x.2) → s'.fs.leaf d n = s.fs.leaf d n := by
  have hpath : s.walk.path = q := by rw [h.walk, below, path_tower]
  rw [unlinkLine_eq hx, hpath]
  obtain ⟨hback, hsame⟩ := h.backtrack (common q x.1)
  rw [← hsame] at hleaf
  have hdir := hback.tree.isDir_of_leaf hleaf prefix_rfl
  have hjoin := take_common_append q x.1
  obtain ⟨s₁, henter, hs₁, hfs⟩ :=
    hback.enter (by rwa [hjoin]) (by rwa [hjoin])
  rw [henter]
  rw [hjoin] at hs₁
  rw [← hfs] at hleaf hsame
  have hat : s₁.walk.at_ = some (r ++ x.1) := by rw [hs₁.walk, below, at_tower]
  have htail : unlinkTail s₁ x.2 = { s₁ with fs := s₁.fs.erase (r ++ x.1) x.2 } := by
    rw [unlinkTail, hat]
    simp only [hs₁.tree.unlinkat_leaf hleaf]
  have htree := hs₁.tree.erase (hs₁.tree.below_leaf (Fs.look_ne_none_of_leaf hleaf).2)
  refine ⟨_, congrArg Except.ok htail, ?_, Fs.leaf_erase_self, ?_⟩
  · exact ⟨htree, hs₁.walk, hs₁.dir.erase (ne_snoc _ _), hs₁.quiet⟩
  · intro d n hkey
    rw [← hsame]
    exact Fs.leaf_erase_of_ne hkey

/-- All lines together. -/
theorem Standing.unlinkLines (h : Standing s r q) (pre : List UInt8)
    (hx : ∀ x ∈ paths, ProperPath x) (hdepth : ∀ x ∈ paths, x.1.length ≤ MAXDEPTH)
    (hnodup : (spotsOf r paths).Nodup)
    (hleaf : ∀ k ∈ spotsOf r paths, s.fs.leaf k.1 k.2 ≠ none) :
    ∃ s' q', Mpkg.unlinkLines (pre.length + 1) s (paths.map (lineOf pre)) = .ok s' ∧
      Standing s' r q' ∧ (∀ k ∈ spotsOf r paths, s'.fs.leaf k.1 k.2 = none) ∧
      ∀ k, k ∉ spotsOf r paths → s'.fs.leaf k.1 k.2 = s.fs.leaf k.1 k.2 := by
  induction paths generalizing s q with
  | nil => exact ⟨s, q, rfl, h, nofun, fun _ _ => rfl⟩
  | cons x paths ih =>
    obtain ⟨hx, hxs⟩ := forall_mem_cons.mp hx
    obtain ⟨hdepth, hdepths⟩ := forall_mem_cons.mp hdepth
    have hspots : spotsOf r (x :: paths) = (r ++ x.1, x.2) :: spotsOf r paths := rfl
    rw [hspots] at hnodup hleaf ⊢
    obtain ⟨hnew, hnodup⟩ := nodup_cons.mp hnodup
    obtain ⟨hleaf, hleaves⟩ := forall_mem_cons.mp hleaf
    obtain ⟨s₁, hline, hs₁, hgone, hothers⟩ := h.unlinkLine pre hx hdepth hleaf
    have hothers' : ∀ k, k ≠ (r ++ x.1, x.2) → s₁.fs.leaf k.1 k.2 = s.fs.leaf k.1 k.2 :=
      fun k hk => hothers k.1 k.2 hk
    obtain ⟨s', q', hrun, hs', hnone, hrest⟩ := ih hs₁ hxs hdepths hnodup (by
      intro k hk
      rw [hothers' k fun hkey => hnew (hkey ▸ hk)]
      exact hleaves k hk)
    refine ⟨s', q', ?_, hs', ?_, ?_⟩
    · rw [map_cons, Mpkg.unlinkLines, hline]
      exact hrun
    · refine forall_mem_cons.mpr ⟨?_, hnone⟩
      rw [hrest _ hnew]
      exact hgone
    · intro k hk
      obtain ⟨hne, hk⟩ := ne_and_not_mem_of_not_mem_cons hk
      rw [hrest k hk, hothers' k hne]

/-- **With the prefix cut off, all the leaves are removed**, and no other. -/
theorem unlinkFiles_all (htree : fs.Tree) (hdir : fs.IsDir r) (hpre : 10 ∉ pre)
    (hx : ∀ x ∈ paths, ProperPath x) (hdepth : ∀ x ∈ paths, x.1.length ≤ MAXDEPTH)
    (hnodup : (spotsOf r paths).Nodup)
    (hleaf : ∀ k ∈ spotsOf r paths, fs.leaf k.1 k.2 ≠ none) :
    ∃ s, unlinkFiles fs r (pre.length + 1) (entriesOf pre paths) = .ok s ∧ s.fs.Tree ∧
      (∀ k ∈ spotsOf r paths, s.fs.leaf k.1 k.2 = none) ∧
      ∀ k, k ∉ spotsOf r paths → s.fs.leaf k.1 k.2 = fs.leaf k.1 k.2 := by
  have hstart : Standing ⟨fs, ⟨some r, []⟩, []⟩ r [] := by
    refine ⟨htree, ?_, ?_, rfl⟩
    · show mk (some r) [] = mk (some (r ++ [])) []
      rw [append_nil]
    · rwa [append_nil]
  obtain ⟨s, q, hrun, hs, hnone, hrest⟩ := hstart.unlinkLines pre hx hdepth hnodup hleaf
  obtain ⟨hback, hsame⟩ := hs.backtrack 0
  refine ⟨backtrackPath s 0, ?_, hback.tree, ?_, ?_⟩
  · rw [unlinkFiles, linesOf_entriesOf hpre hx, hrun]
    show (refuse (s.warns ≠ []) _ >>= fun _ => _) = _
    rw [refuse, if_neg (not_not_intro hs.quiet)]
    rfl
  · intro k hk
    rw [hsame, hnone k hk]
  · intro k hk
    rw [hsame, hrest k hk]

end Remove

/-! ### Lines that lead nowhere -/

section Skip

variable {fs : Fs (List Name)} {s : Removing} {x : List Name × Name}
  {paths : List (List Name × Name)} {q : List Name}

/-- The descriptors along a path that starts with an empty name: all but that of the root are
`AT_SKIP`. -/
def nowhere (q : List Name) : Walk (Option (List Name)) :=
  tower (fun p => if p = [] then some [] else none) q

/-- The path is empty, or starts with an empty name. -/
def Astray (q : List Name) : Prop := q = [] ∨ q.head? = some []

lemma Astray.of_append {p : List Name} (h : Astray (q ++ p)) : Astray q := by
  rcases q with - | ⟨n, q⟩
  · exact .inl rfl
  · rcases h with h | h
    · cases h
    · exact .inr h

/-- Going back from nowhere changes nothing. -/
theorem backtrackFrom_nowhere (full : List Name) (lvl : ℕ) (ws : List Warn) (htree : fs.Tree)
    (hq : Astray q) :
    backtrackFrom full lvl fs ws (nowhere q).at_ (nowhere q).stack
      = ⟨fs, nowhere (q.take lvl), ws⟩ := by
  induction q using reverseRecOn with
  | nil =>
    rw [take_nil]
    rfl
  | append_singleton q n ih =>
    have hpush : nowhere (q ++ [n]) = (nowhere q).push n none := by
      rw [nowhere, tower_snoc, if_neg (append_ne_nil_of_right_ne_nil q (cons_ne_nil n []))]
      rfl
    have hat : (nowhere q).at_ = if q = [] then some [] else none := at_tower q
    have hlen : (nowhere q).stack.length = q.length := depth_tower q
    have ih := ih hq.of_append
    rw [hpush]
    by_cases hlvl : lvl ≤ q.length
    · rw [take_append_of_le_length hlvl, ← ih]
      simp only [push, backtrackFrom, hlen, if_pos (Nat.lt_succ_of_le hlvl)]
      rw [hat]
      by_cases hnil : q = []
      · subst hnil
        -- the empty name is looked for in the root, and is not there
        obtain rfl : n = [] := by
          rcases hq with h | h
          · cases h
          · exact Option.some.inj h
        have hnone : fs.rmdirat [] [] = .error .ENOENT := by
          rw [Fs.rmdirat, Fs.call_of_free (htree.free _ _), htree.named]
        simp only [if_true, hnone]
      · simp only [if_neg hnil]
    · have htake : (q ++ [n]).take lvl = q ++ [n] := by
        rw [take_of_length_le]
        rw [length_append, length_singleton]
        omega
      have hstop : ¬lvl < q.length + 1 := by omega
      rw [htake, hpush]
      simp only [push, backtrackFrom, hlen, if_neg hstop]

/-- Going down from nowhere leads nowhere. -/
theorem enterNewDirs_nowhere {dirs : List Name} {ws : List Warn} {s' : Removing}
    (htree : fs.Tree) (hq : Astray (q ++ dirs))
    (h : enterNewDirs ⟨fs, nowhere q, ws⟩ dirs = .ok s') : s' = ⟨fs, nowhere (q ++ dirs), ws⟩ := by
  induction dirs generalizing q with
  | nil =>
    cases h
    rw [append_nil]
  | cons n dirs ih =>
    have hsplit : q ++ n :: dirs = q ++ [n] ++ dirs := append_cons q n dirs
    have hpush : (nowhere q).push n none = nowhere (q ++ [n]) := by
      rw [nowhere, nowhere, tower_snoc,
        if_neg (append_ne_nil_of_right_ne_nil q (cons_ne_nil n []))]
    have hat : (nowhere q).at_ = if q = [] then some [] else none := at_tower q
    obtain ⟨_, -, h⟩ := ok_of_bind h
    obtain ⟨fd, hfd, h⟩ := ok_of_bind h
    have hnone : fd = none := by
      have hfd : openNext fs (nowhere q).at_ n = .ok fd := hfd
      rw [hat] at hfd
      by_cases hnil : q = []
      · subst hnil
        obtain rfl : n = [] := by
          rcases hq with h | h
          · cases h
          · exact Option.some.inj h
        rw [if_pos rfl, openNext, htree.openDir_eq, Fs.enter, htree.named] at hfd
        cases hfd
        rfl
      · rw [if_neg hnil, openNext] at hfd
        cases hfd
        rfl
    rw [hnone, hpush] at h
    rw [hsplit] at hq ⊢
    exact ih hq h

/-- A line with two slashes in front is skipped. -/
theorem unlinkLine_nowhere {s' : Removing} (htree : fs.Tree) (hx : ProperPath x) (hq : Astray q)
    (h : unlinkLine 0 ⟨fs, nowhere q, []⟩ (lineOf [47] x) = .ok s') :
    s' = ⟨fs, nowhere ([] :: [] :: x.1), []⟩ := by
  have hpieces : pieces 47 ((lineOf [47] x).drop 0) = ([] :: [] :: x.1, x.2) := by
    have hline : (lineOf [47] x).drop 0 = joined 47 ([] :: [] :: x.1) x.2 := by
      simp [lineOf, joined]
    rw [hline]
    refine pieces_joined ?_ hx.2.noSlash
    intro d hd
    rcases mem_cons.mp hd with rfl | hd
    · exact not_mem_nil
    rcases mem_cons.mp hd with rfl | hd
    · exact not_mem_nil
    · exact (hx.1 d hd).noSlash
  have hjoin := take_common_append q ([] :: [] :: x.1)
  have hpath : (nowhere q).path = q := path_tower q
  rw [unlinkLine, hpieces] at h
  obtain ⟨_, -, h⟩ := ok_of_bind h
  obtain ⟨s₁, hs₁, h⟩ := ok_of_bind h
  simp only [hpath, backtrackPath, backtrackFrom_nowhere _ _ _ htree hq] at hs₁
  have hgo := enterNewDirs_nowhere htree (by rw [hjoin]; exact .inr rfl) hs₁
  rw [hjoin] at hgo
  cases h
  rw [hgo, unlinkTail]
  have hat : (nowhere ([] :: [] :: x.1)).at_ = none := at_tower _
  simp only [hat]

lemma unlinkLines_nowhere {s' : Removing} (htree : fs.Tree) (hx : ∀ x ∈ paths, ProperPath x)
    (hq : Astray q)
    (h : unlinkLines 0 ⟨fs, nowhere q, []⟩ (paths.map (lineOf [47])) = .ok s') :
    ∃ q', Astray q' ∧ s' = ⟨fs, nowhere q', []⟩ := by
  induction paths generalizing q with
  | nil =>
    cases h
    exact ⟨q, hq, rfl⟩
  | cons x paths ih =>
    obtain ⟨hx, hxs⟩ := forall_mem_cons.mp hx
    obtain ⟨s₁, hs₁, h⟩ := ok_of_bind h
    rw [unlinkLine_nowhere htree hx hq hs₁] at h
    exact ih hxs (.inr rfl) h

/-- **With nothing cut off, nothing is removed.** -/
theorem unlinkFiles_nothing (htree : fs.Tree) (hx : ∀ x ∈ paths, ProperPath x)
    (h : unlinkFiles fs [] 0 (entriesOf [47] paths) = .ok s) : s.fs = fs := by
  rw [unlinkFiles, linesOf_entriesOf (by decide) hx] at h
  obtain ⟨s₁, hs₁, h⟩ := ok_of_bind h
  obtain ⟨_, -, h⟩ := ok_of_bind h
  cases h
  obtain ⟨q, hq, rfl⟩ := unlinkLines_nowhere (q := []) htree hx (.inl rfl) hs₁
  rw [backtrackPath, backtrackFrom_nowhere _ _ _ htree hq]

end Skip

end Minibase.Mpkg
