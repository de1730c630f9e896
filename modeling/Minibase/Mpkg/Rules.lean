import Minibase.Mpkg.Marks

/-!
# Rules that do what they say

A rule should mark everything at or below its path and the directories that lead to it, if the
path is in the package at all (`Mpkg.Covered`). It does exactly that if its path is clean in the
package, and otherwise ends the process or marks something else (`Mpkg.markFrom_outcome`). Clean
is (`Mpkg.Clean`):

* no leaf is taken for a name of the path because it stands in a directory beside it
  (`Mpkg.Stray`);
* no leaf of the package is where the path has a directory;
* a path with a slash at its end is not that of the last entry of the index;
* a path that ends at a leaf ends at one that nothing follows but a directory that is no
  deeper than the leaf's tag, read as a depth, says (`Mpkg.Alone`).
-/

namespace Minibase.Mpkg

open List

/-! ### The specification -/

/-- **What a path is about**: everything at or below it, and, if it is in the package, the
directories that lead to it. -/
def Covered (nodes : List Node) (C : List Name) (x : List Name × Node) : Prop :=
  C <+: pathOf x ∨ (pathOf x <+: C ∧ Listed nodes C)

/-- The names of a path; a slash at the end adds none. -/
def compsOf (dirs : List Name) (last : Name) : List Name :=
  if last = [] then dirs else dirs ++ [last]

/-- A leaf in a directory beside it that comes before anything of that name. -/
def Stray (nodes : List Node) (P : List Name) (c : Name) : Prop :=
  ∃ (t : ℕ) (x : List Name × Node), (placed [] nodes)[t]? = some x ∧ x.2.isDir = false ∧
    (∃ n, pathOf x = P ++ [n, c]) ∧
    ∀ (u : ℕ) (y : List Name × Node), (placed [] nodes)[u]? = some y → pathOf y = P ++ [c] → t < u

/-- Nothing comes after the leaf but a directory that its tag does not reach below. -/
def Alone (nodes : List Node) (t lvl : ℕ) : Prop :=
  ∀ nd, nodes[t + 1]? = some nd → nd.isDir = true ∧ nd.lvl < lvl + 1

/-- **A path a rule finds its way along**, from a directory on. -/
def Clean (nodes : List Node) : List Name → List Name → Name → Prop
  | P, [], last => last ≠ [] → ¬Stray nodes P last ∧
      ∀ (t : ℕ) (x : List Name × Node), (placed [] nodes)[t]? = some x → pathOf x = P ++ [last] →
        x.2.isDir = false → Alone nodes t x.2.lvl
  | P, c :: cs, last => ¬Stray nodes P c ∧
      ∀ (t : ℕ) (x : List Name × Node), (placed [] nodes)[t]? = some x → pathOf x = P ++ [c] →
        (x.2.isDir = false → MAXDEPTH ≤ P.length ∧ ¬(cs = [] ∧ last = [])) ∧
        (x.2.isDir = true → (cs = [] ∧ last = [] → t + 1 < nodes.length) ∧
          Clean nodes (P ++ [c]) cs last)

/-- A directory that can be gone into: one that is not the last entry. -/
def Enterable (nodes : List Node) (Q : List Name) : Prop :=
  ∃ (t : ℕ) (x : List Name × Node), (placed [] nodes)[t]? = some x ∧ x.2.isDir = true ∧
    pathOf x = Q ∧ t + 1 < nodes.length

/-- The search leaves no depth behind: it gets through all directories, or not into the
first. -/
def Returns (nodes : List Node) (P dirs : List Name) : Prop :=
  dirs = [] ∨ Enterable nodes (P ++ dirs) ∨ (P = [] ∧ ¬Enterable nodes (P ++ dirs.take 1))

/-! ### Lemmas on paths -/

section Paths

variable {nodes : List Node} {P Q C : List Name} {c : Name} {x : List Name × Node}

lemma prefix_pathOf_iff : Q <+: pathOf x ↔ Q = pathOf x ∨ Q <+: x.1 :=
  prefix_concat_iff

/-- Nothing is at or below the path. -/
def Absent (nodes : List Node) (C : List Name) : Prop :=
  ∀ x ∈ placed [] nodes, ¬C <+: pathOf x

lemma Absent.not_covered (h : Absent nodes C) (hx : x ∈ placed [] nodes) : ¬Covered nodes C x := by
  rintro (hpre | ⟨-, y, hy, rfl⟩)
  · exact h x hx hpre
  · exact h y hy prefix_rfl

lemma absent_of_not_listed (hne : Q ≠ []) (h : ¬Listed nodes Q) (r : List Name) :
    Absent nodes (Q ++ r) := by
  intro x hx hpre
  obtain ⟨t, ht, rfl⟩ := mem_iff_getElem.mp hx
  have hQ := (prefix_append Q r).trans hpre
  rcases prefix_pathOf_iff.mp hQ with heq | hbelow
  · exact h ⟨_, hx, heq.symm⟩
  · obtain ⟨u, -, y, hy, -, hpath⟩ :=
      exists_dir_of_below (getElem?_eq_getElem ht) hne hbelow
    exact h ⟨y, mem_of_getElem? hy, hpath⟩

/-- Nothing is below a leaf. -/
theorem not_below_leaf (hdis : Distinct nodes) {t u : ℕ} {y : List Name × Node}
    (hx : (placed [] nodes)[t]? = some x) (hleaf : x.2.isDir = false)
    (hy : (placed [] nodes)[u]? = some y) : ¬pathOf x <+: y.1 := by
  intro hbelow
  obtain ⟨v, -, z, hz, hzdir, hpath⟩ := exists_dir_of_below hy (pathOf_ne_nil x) hbelow
  obtain rfl := hdis.unique hx hz hpath.symm
  rw [hx] at hz
  cases hz
  rw [hleaf] at hzdir
  cases hzdir

lemma absent_of_nothing_below
    (hnone : ∀ y ∈ placed [] nodes, ¬pathOf x <+: y.1) {r : List Name} (hr : r ≠ []) :
    Absent nodes (pathOf x ++ r) := by
  intro y hy hpre
  have hQ := (prefix_append (pathOf x) r).trans hpre
  rcases prefix_pathOf_iff.mp hQ with heq | hbelow
  · rw [heq] at hpre
    have := hpre.length_le
    rw [length_append] at this
    exact hr (length_eq_zero_iff.mp (by omega))
  · exact hnone y hy hbelow

/-- Where nothing is below, every path is clean. -/
theorem clean_of_nothing_below (hnone : ∀ y ∈ placed [] nodes, ¬Q <+: y.1) (dirs : List Name)
    (last : Name) : Clean nodes Q dirs last := by
  have hstray : ∀ c, ¬Stray nodes Q c := by
    rintro c ⟨t, x, hx, -, ⟨n, hpath⟩, -⟩
    have hpath' : pathOf x = (Q ++ [n]) ++ [c] := by simpa using hpath
    refine hnone x (mem_of_getElem? hx) ?_
    rw [(append_inj' hpath' rfl).1]
    exact prefix_append _ _
  have hchild : ∀ (c : Name) (t : ℕ) (x : List Name × Node), (placed [] nodes)[t]? = some x →
      pathOf x ≠ Q ++ [c] := by
    intro c t x hx hpath
    refine hnone x (mem_of_getElem? hx) ?_
    rw [(append_inj' hpath rfl).1]
  cases dirs with
  | nil => exact fun _ => ⟨hstray last, fun t x hx hpath => absurd hpath (hchild last t x hx)⟩
  | cons c cs => exact ⟨hstray c, fun t x hx hpath => absurd hpath (hchild c t x hx)⟩

lemma Enterable.of_longer {cs : List Name} (h : Enterable nodes (P ++ c :: cs)) :
    Enterable nodes (P ++ [c]) := by
  obtain ⟨t, x, hx, hdir, hpath, ht⟩ := h
  have hpre : P ++ [c] <+: pathOf x := by
    rw [hpath]
    exact ⟨cs, by simp⟩
  rcases prefix_pathOf_iff.mp hpre with heq | hbelow
  · exact ⟨t, x, hx, hdir, heq.symm, ht⟩
  · obtain ⟨u, hu, y, hy, hydir, hypath⟩ := exists_dir_of_below hx (by simp) hbelow
    exact ⟨u, y, hy, hydir, hypath, by omega⟩

/-- **A candidate that is first** is the entry of that name, or a stray leaf. -/
theorem cand_first {t : ℕ} (hx : (placed [] nodes)[t]? = some x) (hcand : Cand P c x)
    (hfirst : ∀ u < t, ∀ y, (placed [] nodes)[u]? = some y → ¬Cand P c y) :
    (pathOf x = P ++ [c] ∧ ¬Stray nodes P c) ∨
      (x.2.isDir = false ∧ (∃ n, pathOf x = P ++ [n, c]) ∧ pathOf x ≠ P ++ [c] ∧
        Stray nodes P c) := by
  by_cases hpath : pathOf x = P ++ [c]
  · refine .inl ⟨hpath, ?_⟩
    rintro ⟨u, y, hy, hleaf, hstray, hbefore⟩
    exact hfirst u (hbefore t x hx hpath) y hy (.inr ⟨hleaf, hstray⟩)
  · obtain ⟨hleaf, hstray⟩ := hcand.resolve_left hpath
    refine .inr ⟨hleaf, hstray, hpath, t, x, hx, hleaf, hstray, ?_⟩
    intro u y hy hy'
    rcases Nat.lt_trichotomy t u with hlt | rfl | hgt
    · exact hlt
    · rw [hx] at hy
      cases hy
      exact absurd hy' hpath
    · exact absurd (.inl hy') (hfirst u hgt y hy)

lemma not_stray_of_no_cand (h : ∀ x ∈ placed [] nodes, ¬Cand P c x) : ¬Stray nodes P c := by
  rintro ⟨t, x, hx, hleaf, hstray, -⟩
  exact h x (mem_of_getElem? hx) (.inr ⟨hleaf, hstray⟩)

end Paths

/-! ### What a rule does, on every copy of an index -/

/-- The rest of `mark_path` marks a set and leaves a depth. -/
def Touches (nodes : List Node) (s : ℕ) (stack : List ℕ) (dirs : List Name) (last : Name)
    (S : ℕ → Prop) (d : ℕ) : Prop :=
  ∀ (kind : Kind) (copy : List Node), copy.map bare = nodes →
    ∃ b, markFrom kind copy s stack dirs last = .ok (b, d) ∧ Painted kind S copy b

/-- The rest of `mark_path` reads through a null pointer. -/
def Crashes (nodes : List Node) (s : ℕ) (stack : List ℕ) (dirs : List Name) (last : Name) : Prop :=
  ∀ (kind : Kind) (copy : List Node), copy.map bare = nodes →
    markFrom kind copy s stack dirs last = .error .segv

/-- The set is what the path is about. -/
def Right (nodes : List Node) (S : ℕ → Prop) (C : List Name) : Prop :=
  ∀ (t : ℕ) (x : List Name × Node), (placed [] nodes)[t]? = some x → (S t ↔ Covered nodes C x)

/-- What a rule that found its node marks: the node, the run after it, and the way there. -/
def struck (nodes : List Node) (stack : List ℕ) (t lvl : ℕ) : ℕ → Prop := fun u =>
  (u = t ∨ (t + 1 ≤ u ∧ u < t + 1 + (run (lvl + 1) (nodes.drop (t + 1))).length)) ∨ u ∈ stack

section Ends

variable {nodes : List Node} {P : List Name} {s : ℕ} {stack : List ℕ} {last : Name}

lemma Absent.right {C : List Name} (h : Absent nodes C) : Right nodes (fun _ => False) C :=
  fun _ _ hx => ⟨False.elim, fun hc => h.not_covered (mem_of_getElem? hx) hc⟩

/-- A slash at the end. -/
theorem touches_glob (h : Start nodes P s stack) :
    ∃ S, Touches nodes s stack [] [] S 0 ∧ Right nodes S P := by
  refine ⟨fun t => (s ≤ t ∧ t < s + (run P.length (nodes.drop s)).length) ∨ t ∈ stack, ?_, ?_⟩
  · rintro kind copy rfl
    have hlen : s ≤ copy.length := by simpa using h.le
    have hdown := painted_markDown kind copy hlen P.length
    rw [← run_bare, map_drop] at hdown
    refine ⟨_, ?_, hdown.trans (painted_markBack kind _ stack)⟩
    rw [markFrom, markEnd, if_pos rfl, h.depth]
  · intro t x hx
    beta_reduce
    rw [← h.below t x hx, h.mem, Covered, prefix_pathOf_iff]
    constructor
    · rintro (hbelow | ⟨y, hy, hpre⟩)
      · exact .inl (.inr hbelow)
      · rw [hx] at hy
        cases hy
        refine .inr ⟨hpre, h.listed ?_⟩
        rintro rfl
        exact pathOf_ne_nil x (prefix_nil.mp hpre)
    · rintro ((heq | hbelow) | ⟨hpre, -⟩)
      · exact .inr ⟨x, hx, heq ▸ prefix_rfl⟩
      · exact .inl hbelow
      · exact .inr ⟨x, hx, hpre⟩

/-- A name that is not found. -/
theorem touches_none (hlast : last ≠ []) (hloc : locateNode nodes s stack.length last = none) :
    Touches nodes s stack [] last (fun _ => False) 0 := by
  rintro kind copy rfl
  rw [locateNode_bare] at hloc
  refine ⟨copy, ?_, painted_refl kind copy⟩
  rw [markFrom, markEnd, if_neg hlast, hloc]

variable {x : List Name × Node} {t : ℕ}

/-- A name that is found, wherever that is. -/
theorem touches_some (hlast : last ≠ [])
    (hloc : locateNode nodes s stack.length last = some t)
    (hx : (placed [] nodes)[t]? = some x) :
    Touches nodes s stack [] last (struck nodes stack t x.2.lvl) 0 := by
  have hnd : nodes[t]? = some x.2 := by
    have := congrArg (fun l => l[t]?) (map_snd_placed [] nodes)
    rw [← this, getElem?_map, hx]
    rfl
  intro kind copy hcopy
  rw [← hcopy, locateNode_bare] at hloc
  refine ⟨_, ?_, (painted_markLeaf kind hcopy hnd).trans (painted_markBack kind _ stack)⟩
  rw [markFrom, markEnd, if_neg hlast, hloc]

/-- A directory that is found is marked with all that is in it. -/
theorem right_dir (hlev : Leveled 0 nodes) (hdis : Distinct nodes) (h : Start nodes P s stack)
    (hx : (placed [] nodes)[t]? = some x)
    (hdir : x.2.isDir = true) (hpath : pathOf x = P ++ [last]) :
    Right nodes (struck nodes stack t x.2.lvl) (P ++ [last]) := by
  intro u y hy
  have hlen : x.2.lvl + 1 = (pathOf x).length := by
    rw [← (hlev.dir_lt hx hdir).1]
    simp [pathOf]
  have hlisted : Listed nodes (P ++ [last]) := ⟨x, mem_of_getElem? hx, hpath⟩
  have hself : u = t ↔ pathOf x = pathOf y := by
    constructor
    · rintro rfl
      rw [hx] at hy
      cases hy
      rfl
    · exact fun heq => hdis.unique hy hx heq.symm
  rw [struck, hlen, ← below_iff_run hlev hdis hx hdir hy, h.mem, Covered, ← hpath, hself,
    prefix_pathOf_iff]
  constructor
  · rintro (hor | ⟨z, hz, hpre⟩)
    · exact .inl hor
    · rw [hy] at hz
      cases hz
      rw [hpath]
      exact .inr ⟨hpre.trans (prefix_append _ _), hlisted⟩
  · rintro (hor | ⟨hpre, -⟩)
    · exact .inl hor
    · rw [hpath, prefix_concat_iff] at hpre
      rcases hpre with heq | hpre
      · exact .inl (.inl (hpath.trans heq.symm))
      · exact .inr ⟨y, hy, hpre⟩

/-- The run after a leaf, in terms of what comes next. -/
theorem run_pos_iff {lvl : ℕ} :
    0 < (run (lvl + 1) (nodes.drop (t + 1))).length ↔ ¬Alone nodes t lvl := by
  rw [Alone]
  rcases hnext : nodes[t + 1]? with - | nd
  · rw [drop_eq_nil_of_le (getElem?_eq_none_iff.mp hnext)]
    simp [run]
  · obtain ⟨hlt, rfl⟩ := List.getElem?_eq_some_iff.mp hnext
    rw [drop_eq_getElem_cons hlt, run, takeWhile_cons]
    by_cases hend : nodes[t + 1].isDir = true ∧ nodes[t + 1].lvl < lvl + 1
    · rw [if_neg (by simpa using hend)]
      simpa using hend
    · rw [if_pos (decide_eq_true hend)]
      simpa using hend

/-- A leaf that is found is marked alone, if it is alone, and only then. -/
theorem right_leaf_iff (hdis : Distinct nodes) (h : Start nodes P s stack)
    (hx : (placed [] nodes)[t]? = some x) (hleaf : x.2.isDir = false)
    (hpath : pathOf x = P ++ [last]) :
    Right nodes (struck nodes stack t x.2.lvl) (P ++ [last]) ↔ Alone nodes t x.2.lvl := by
  have hcover : ∀ (u : ℕ) (y : List Name × Node), (placed [] nodes)[u]? = some y →
      (Covered nodes (P ++ [last]) y ↔ u = t ∨ u ∈ stack) := by
    intro u y hy
    have hlisted : Listed nodes (P ++ [last]) := ⟨x, mem_of_getElem? hx, hpath⟩
    rw [Covered, h.mem, prefix_pathOf_iff]
    constructor
    · rintro ((heq | hbelow) | ⟨hpre, -⟩)
      · exact .inl (hdis.unique hy hx (heq.symm.trans hpath.symm))
      · rw [← hpath] at hbelow
        exact absurd hbelow (not_below_leaf hdis hx hleaf hy)
      · rcases prefix_concat_iff.mp hpre with heq | hpre
        · exact .inl (hdis.unique hy hx (heq.trans hpath.symm))
        · exact .inr ⟨y, hy, hpre⟩
    · rintro (rfl | ⟨z, hz, hpre⟩)
      · rw [hx] at hy
        cases hy
        exact .inl (.inl hpath.symm)
      · rw [hy] at hz
        cases hz
        exact .inr ⟨hpre.trans (prefix_append _ _), hlisted⟩
  by_cases halone : Alone nodes t x.2.lvl
  · have hrun : (run (x.2.lvl + 1) (nodes.drop (t + 1))).length = 0 := by
      by_contra hne
      exact run_pos_iff.mp (Nat.pos_of_ne_zero hne) halone
    refine ⟨fun _ => halone, fun _ u y hy => ?_⟩
    rw [hcover u y hy, struck, hrun]
    refine or_congr (or_iff_left ?_) Iff.rfl
    omega
  · refine ⟨fun hright => ?_, fun hal => absurd hal halone⟩
    have hpos := run_pos_iff.mpr halone
    -- the next entry is marked, and is neither the leaf nor a directory above it
    obtain ⟨nd, hnd⟩ : ∃ nd, nodes[t + 1]? = some nd := by
      by_contra hnone
      exact halone fun nd hnd => absurd ⟨nd, hnd⟩ hnone
    have hlt : t + 1 < (placed [] nodes).length := by
      rw [length_placed]
      exact (List.getElem?_eq_some_iff.mp hnd).1
    have hy := getElem?_eq_getElem hlt
    have hcov := (hright (t + 1) _ hy).mp (.inl (.inr ⟨Nat.le_refl _, by omega⟩))
    rcases (hcover _ _ hy).mp hcov with heq | hmem
    · omega
    · obtain ⟨z, hz, hpre⟩ := (h.mem _).mp hmem
      have hhome : x.1 = P := (append_inj' hpath rfl).1
      rw [← hhome] at hpre
      obtain ⟨u, hu, w, hw, -, hwpath⟩ := exists_dir_of_below hx (pathOf_ne_nil z) hpre
      have := hdis.unique hz hw hwpath.symm
      omega

/-- A stray leaf that is found is marked, and should not be. -/
theorem not_right_stray {S : ℕ → Prop}
    (hx : (placed [] nodes)[t]? = some x) (hmark : S t)
    (hstray : ∃ n, pathOf x = P ++ [n, last])
    (hfirst : ∀ u < t, ∀ y, (placed [] nodes)[u]? = some y → ¬Cand P last y) :
    ¬Right nodes S (P ++ [last]) := by
  intro hright
  obtain ⟨n, hpath⟩ := hstray
  have hpath' : pathOf x = (P ++ [n]) ++ [last] := by simpa using hpath
  have hhome : x.1 = P ++ [n] := (append_inj' hpath' rfl).1
  rcases (hright t x hx).mp hmark with hpre | ⟨hpre, -⟩
  · obtain rfl : last = n := by
      rw [hpath] at hpre
      have : [last] <+: [n, last] := (prefix_append_right_inj P).mp hpre
      simpa using this
    obtain ⟨u, hu, y, hy, -, hypath⟩ :=
      exists_dir_of_below hx (by simp) (hhome ▸ prefix_rfl : P ++ [last] <+: x.1)
    exact hfirst u hu y hy (.inl hypath)
  · have := hpre.length_le
    rw [hpath] at this
    simp at this

end Ends

/-! ### Along the directories -/

section Along

variable {nodes : List Node} {P cs : List Name} {s : ℕ} {stack : List ℕ} {c last : Name}

lemma compsOf_cons (c : Name) (cs : List Name) (last : Name) :
    compsOf (c :: cs) last = c :: compsOf cs last := by
  rw [compsOf, compsOf]
  split <;> rfl

lemma compsOf_eq_nil_iff : compsOf cs last = [] ↔ cs = [] ∧ last = [] := by
  rw [compsOf]
  split
  · rename_i h
    exact ⟨fun h' => ⟨h', h⟩, fun h' => h'.1⟩
  · rename_i h
    exact ⟨fun h' => absurd h' (by simp), fun h' => absurd h'.2 h⟩

/-- A directory that is not found. -/
theorem touches_lost (hloc : locateDir nodes s stack c = .ok none) :
    Touches nodes s stack (c :: cs) last (fun _ => False) stack.length := by
  rintro kind copy rfl
  rw [locateDir_bare] at hloc
  refine ⟨copy, ?_, painted_refl kind copy⟩
  rw [markFrom, hloc]
  rfl

lemma crashes_of_segv (hloc : locateDir nodes s stack c = .error .segv) :
    Crashes nodes s stack (c :: cs) last := by
  rintro kind copy rfl
  rw [locateDir_bare] at hloc
  rw [markFrom, hloc]
  rfl

/-- A directory that is found is gone into. -/
theorem markFrom_enter {s' : ℕ} {stack' : List ℕ} {kind : Kind} {copy : List Node}
    (hcopy : copy.map bare = nodes) (hloc : locateDir nodes s stack c = .ok (some (s', stack'))) :
    markFrom kind copy s stack (c :: cs) last = markFrom kind copy s' stack' cs last := by
  rw [← hcopy, locateDir_bare] at hloc
  rw [markFrom, hloc]
  rfl

/-- What `locate_dir` makes of a node that is found. -/
theorem locateDir_found {t : ℕ} {x : List Name × Node} (hx : (placed [] nodes)[t]? = some x)
    (hloc : locateNode nodes s stack.length c = some t) :
    locateDir nodes s stack c =
      if x.2.isDir then
        if nodes.length ≤ t + 1 then .ok none
        else if MAXDEPTH ≤ stack.length then .ok none
        else .ok (some (t + 1, stack ++ [t]))
      else if MAXDEPTH ≤ stack.length then .ok none
      else .error .segv := by
  have hnd : nodes[t]? = some x.2 := by
    have := congrArg (fun l => l[t]?) (map_snd_placed [] nodes)
    rw [← this, getElem?_map, hx]
    rfl
  rw [locateDir, hloc]
  simp only [hnd]

/-- The end of a path is as clean as it is right. -/
theorem markEnd_outcome (hlev : Leveled 0 nodes) (hdis : Distinct nodes)
    (h : Start nodes P s stack) (last : Name) :
    ∃ S, Touches nodes s stack [] last S 0 ∧
      (Right nodes S (P ++ compsOf [] last) ↔ Clean nodes P [] last) := by
  by_cases hlast : last = []
  · subst hlast
    obtain ⟨S, htouch, hright⟩ := touches_glob h
    rw [← append_nil P] at hright
    exact ⟨S, htouch, fun _ hne => absurd rfl hne, fun _ => hright⟩
  have hcomps : compsOf [] last = [last] := if_neg hlast
  rw [hcomps]
  rcases locateNode_spec h last with ⟨t, x, hloc, hx, hcand, hfirst⟩ | ⟨hloc, hnone⟩
  · refine ⟨_, touches_some hlast hloc hx, ?_⟩
    rcases cand_first hx hcand hfirst with ⟨hpath, hstray⟩ | ⟨-, hpath, -, hstray⟩
    · rcases hdir : x.2.isDir with - | -
      · rw [right_leaf_iff hdis h hx hdir hpath, Clean]
        constructor
        · intro halone _
          refine ⟨hstray, ?_⟩
          intro u y hy hypath _
          obtain rfl := hdis.unique hx hy (hpath.trans hypath.symm)
          rw [hx] at hy
          cases hy
          exact halone
        · exact fun hclean => (hclean hlast).2 t x hx hpath hdir
      · refine ⟨fun _ _ => ⟨hstray, ?_⟩, fun _ => right_dir hlev hdis h hx hdir hpath⟩
        intro u y hy hypath hleaf
        obtain rfl := hdis.unique hx hy (hpath.trans hypath.symm)
        rw [hx] at hy
        cases hy
        rw [hdir] at hleaf
        cases hleaf
    · have hmark : struck nodes stack t x.2.lvl t := .inl (.inl rfl)
      refine ⟨fun hright => ?_, fun hclean => absurd hstray (hclean hlast).1⟩
      exact absurd hright (not_right_stray hx hmark hpath hfirst)
  · have hnot : ¬Listed nodes (P ++ [last]) := by
      rintro ⟨x, hx, hpath⟩
      exact hnone x hx (.inl hpath)
    have habs := absent_of_not_listed (by simp) hnot []
    rw [append_nil] at habs
    refine ⟨_, touches_none hlast hloc, fun _ _ => ⟨not_stray_of_no_cand hnone, ?_⟩,
      fun _ => habs.right⟩
    intro t x hx hpath
    exact absurd ⟨x, mem_of_getElem? hx, hpath⟩ hnot

/-- The two ways a rule can go. -/
def Outcome (nodes : List Node) (P : List Name) (s : ℕ) (stack : List ℕ) (dirs : List Name)
    (last : Name) : Prop :=
  (Clean nodes P dirs last ∧ ∃ S d, Touches nodes s stack dirs last S d ∧
    Right nodes S (P ++ compsOf dirs last) ∧ (d = 0 ↔ Returns nodes P dirs)) ∨
  (¬Clean nodes P dirs last ∧ (Crashes nodes s stack dirs last ∨
    ∃ S d, Touches nodes s stack dirs last S d ∧ ¬Right nodes S (P ++ compsOf dirs last)))

/-- A search that gets lost at a name. -/
theorem outcome_lost (h : Start nodes P s stack) (hloc : locateDir nodes s stack c = .ok none)
    (hent : ¬Enterable nodes (P ++ [c]))
    (hclean : Absent nodes (P ++ c :: compsOf cs last) → Clean nodes P (c :: cs) last)
    (hdirty : ¬Absent nodes (P ++ c :: compsOf cs last) →
      ¬Clean nodes P (c :: cs) last ∧ Listed nodes (P ++ c :: compsOf cs last)) :
    Outcome nodes P s stack (c :: cs) last := by
  rw [Outcome, compsOf_cons]
  by_cases habs : Absent nodes (P ++ c :: compsOf cs last)
  · refine .inl ⟨hclean habs, _, _, touches_lost hloc, habs.right, ?_⟩
    rw [h.depth, length_eq_zero_iff, Returns]
    constructor
    · exact fun hP => .inr (.inr ⟨hP, hent⟩)
    · rintro (hnil | hlong | ⟨hP, -⟩)
      · cases hnil
      · exact absurd hlong.of_longer hent
      · exact hP
  · obtain ⟨hnot, x, hx, hpath⟩ := hdirty habs
    refine .inr ⟨hnot, .inr ⟨_, _, touches_lost hloc, fun hright => ?_⟩⟩
    obtain ⟨t, ht, rfl⟩ := mem_iff_getElem.mp hx
    exact (hright t _ (getElem?_eq_getElem ht)).mpr (.inl (hpath ▸ prefix_rfl))

/-- A search that gets lost at a name that is there, but has nothing below it. -/
theorem outcome_stuck (hdis : Distinct nodes) (h : Start nodes P s stack)
    (hloc : locateDir nodes s stack c = .ok none) (hstray : ¬Stray nodes P c) {t : ℕ}
    {x : List Name × Node} (hx : (placed [] nodes)[t]? = some x) (hpath : pathOf x = P ++ [c])
    (hnone : ∀ y ∈ placed [] nodes, ¬pathOf x <+: y.1)
    (hstuck : x.2.isDir = true → ¬t + 1 < nodes.length)
    (hmax : x.2.isDir = false → MAXDEPTH ≤ P.length) : Outcome nodes P s stack (c :: cs) last := by
  have hassoc : P ++ c :: compsOf cs last = pathOf x ++ compsOf cs last := by
    rw [hpath, append_assoc]
    rfl
  have hlisted : Listed nodes (pathOf x) := ⟨x, mem_of_getElem? hx, rfl⟩
  have hsame : ∀ (u : ℕ) (y : List Name × Node), (placed [] nodes)[u]? = some y →
      pathOf y = P ++ [c] → u = t ∧ y = x := by
    intro u y hy hypath
    obtain rfl := hdis.unique hx hy (hpath.trans hypath.symm)
    rw [hx] at hy
    cases hy
    exact ⟨rfl, rfl⟩
  refine outcome_lost h hloc ?_ ?_ ?_
  · rintro ⟨u, y, hy, hydir, hypath, hu⟩
    obtain ⟨rfl, rfl⟩ := hsame u y hy hypath
    exact hstuck hydir hu
  · intro habs
    have hcomps : ¬(cs = [] ∧ last = []) := by
      intro hnil
      rw [hassoc, compsOf_eq_nil_iff.mpr hnil, append_nil] at habs
      exact habs x (mem_of_getElem? hx) prefix_rfl
    refine ⟨hstray, ?_⟩
    intro u y hy hypath
    obtain ⟨rfl, rfl⟩ := hsame u y hy hypath
    refine ⟨fun hleaf => ⟨hmax hleaf, hcomps⟩, fun _ => ⟨fun hnil => absurd hnil hcomps, ?_⟩⟩
    rw [← hpath]
    exact clean_of_nothing_below hnone cs last
  · intro habs
    have hcomps : cs = [] ∧ last = [] := by
      rw [← compsOf_eq_nil_iff]
      by_contra hne
      exact habs (hassoc ▸ absent_of_nothing_below hnone hne)
    rw [hassoc, compsOf_eq_nil_iff.mpr hcomps, append_nil]
    refine ⟨fun hclean => ?_, hlisted⟩
    obtain ⟨hleaf, hdir⟩ := hclean.2 t x hx hpath
    rcases hd : x.2.isDir with - | -
    · exact (hleaf hd).2 hcomps
    · exact hstuck hd ((hdir hd).1 hcomps)

/-- **What a rule does**: it is right on a clean path, and on no other. -/
theorem markFrom_outcome (hlev : Leveled 0 nodes) (hdis : Distinct nodes) (dirs : List Name)
    (last : Name) (h : Start nodes P s stack) : Outcome nodes P s stack dirs last := by
  induction dirs generalizing P s stack with
  | nil =>
    obtain ⟨S, htouch, hiff⟩ := markEnd_outcome hlev hdis h last
    by_cases hclean : Clean nodes P [] last
    · exact .inl ⟨hclean, S, 0, htouch, hiff.mpr hclean, ⟨fun _ => .inl rfl, fun _ => rfl⟩⟩
    · exact .inr ⟨hclean, .inr ⟨S, 0, htouch, fun hright => hclean (hiff.mp hright)⟩⟩
  | cons c cs ih =>
    rcases locateNode_spec h c with ⟨t, x, hloc, hx, hcand, hfirst⟩ | ⟨hloc, hnone⟩
    swap
    · -- nothing of that name, nor taken for it
      have hnot : ¬Listed nodes (P ++ [c]) := by
        rintro ⟨x, hx, hpath⟩
        exact hnone x hx (.inl hpath)
      have habs : Absent nodes (P ++ c :: compsOf cs last) := by
        have := absent_of_not_listed (by simp) hnot (compsOf cs last)
        rwa [append_assoc] at this
      refine outcome_lost h (by rw [locateDir, hloc]) ?_ ?_ fun hno => absurd habs hno
      · rintro ⟨t, x, hx, -, hpath, -⟩
        exact hnot ⟨x, mem_of_getElem? hx, hpath⟩
      · intro _
        refine ⟨not_stray_of_no_cand hnone, ?_⟩
        intro t x hx hpath
        exact absurd ⟨x, mem_of_getElem? hx, hpath⟩ hnot
    have hfound := locateDir_found hx hloc
    rw [h.depth] at hfound
    rcases cand_first hx hcand hfirst with ⟨hpath, hstray⟩ | ⟨hleaf, ⟨n, hpath⟩, -, hstray⟩
    swap
    · -- a leaf in a directory beside the path, which cannot be gone into
      have hhome : P ++ [n] <+: x.1 := by
        have hpath' : pathOf x = (P ++ [n]) ++ [c] := by simpa using hpath
        rw [(append_inj' hpath' rfl).1]
      obtain ⟨u, -, y, hy, hydir, hypath⟩ := exists_dir_of_below hx (by simp) hhome
      have hmax : ¬MAXDEPTH ≤ P.length := by
        have hlt := (hlev.dir_lt hy hydir).2
        rw [(append_inj' hypath rfl).1] at hlt
        omega
      rw [if_neg (by simp [hleaf]), if_neg hmax] at hfound
      exact .inr ⟨fun hclean => hclean.1 hstray, .inl (crashes_of_segv hfound)⟩
    have hhome : x.1 = P := (append_inj' hpath rfl).1
    rcases hdir : x.2.isDir with - | -
    · rw [if_neg (by simp [hdir])] at hfound
      by_cases hmax : MAXDEPTH ≤ P.length
      · rw [if_pos hmax] at hfound
        refine outcome_stuck hdis h hfound hstray hx hpath ?_ ?_ fun _ => hmax
        · intro y hy
          obtain ⟨u, hu, rfl⟩ := mem_iff_getElem.mp hy
          exact not_below_leaf hdis hx hdir (getElem?_eq_getElem hu)
        · exact fun hd => absurd hd (by simp [hdir])
      · rw [if_neg hmax] at hfound
        refine .inr ⟨fun hclean => ?_, .inl (crashes_of_segv hfound)⟩
        exact hmax ((hclean.2 t x hx hpath).1 hdir).1
    · have hmax : ¬MAXDEPTH ≤ P.length := by
        have := (hlev.dir_lt hx hdir).2
        rw [hhome] at this
        omega
      rw [if_pos hdir] at hfound
      by_cases hend : nodes.length ≤ t + 1
      · rw [if_pos hend] at hfound
        refine outcome_stuck hdis h hfound hstray hx hpath ?_ (fun _ => by omega) ?_
        · intro y hy hbelow
          obtain ⟨u, hu, rfl⟩ := mem_iff_getElem.mp hy
          have := ((below_iff_run hlev hdis hx hdir (getElem?_eq_getElem hu)).mp hbelow).1
          rw [length_placed] at hu
          omega
        · exact fun hd => absurd hd (by simp [hdir])
      rw [if_neg hend, if_neg hmax] at hfound
      have hsub := ih (h.dir hlev hdis hx hdir hpath)
      have hassoc : P ++ c :: compsOf cs last = (P ++ [c]) ++ compsOf cs last := by
        rw [append_assoc]
        rfl
      have hent : Enterable nodes (P ++ [c]) :=
        ⟨t, x, hx, hdir, hpath, Nat.lt_of_not_le hend⟩
      have hclean : Clean nodes P (c :: cs) last ↔ Clean nodes (P ++ [c]) cs last := by
        refine ⟨fun hcl => ((hcl.2 t x hx hpath).2 hdir).2, fun hcl => ⟨hstray, ?_⟩⟩
        intro u y hy hypath
        obtain rfl := hdis.unique hx hy (hpath.trans hypath.symm)
        rw [hx] at hy
        cases hy
        exact ⟨fun hleaf => absurd hleaf (by simp [hdir]), fun _ => ⟨fun _ => by omega, hcl⟩⟩
      have htouch : ∀ {S d}, Touches nodes (t + 1) (stack ++ [t]) cs last S d →
          Touches nodes s stack (c :: cs) last S d := by
        intro S d ht kind copy hcopy
        rw [markFrom_enter hcopy hfound]
        exact ht kind copy hcopy
      rw [Outcome, compsOf_cons, hassoc, hclean]
      rcases hsub with ⟨hcl, S, d, ht, hright, hret⟩ | ⟨hcl, hcrash | ⟨S, d, ht, hright⟩⟩
      · refine .inl ⟨hcl, S, d, htouch ht, hright, hret.trans ?_⟩
        rw [Returns, Returns]
        constructor
        · rintro (rfl | hin | ⟨hnil, -⟩)
          · exact .inr (.inl hent)
          · exact .inr (.inl (by rwa [append_assoc] at hin))
          · exact absurd hnil (by simp)
        · rintro (hnil | hin | ⟨-, hnot⟩)
          · cases hnil
          · exact .inr (.inl (by rwa [append_assoc]))
          · exact absurd hent hnot
      · refine .inr ⟨hcl, .inl ?_⟩
        intro kind copy hcopy
        rw [markFrom_enter hcopy hfound]
        exact hcrash kind copy hcopy
      · exact .inr ⟨hcl, .inr ⟨S, d, htouch ht, hright⟩⟩

end Along

end Minibase.Mpkg
