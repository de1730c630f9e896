import Minibase.Mpkg.Policy
import Minibase.Mpkg.Tree

/-!
# What a rule marks

A rule marks nodes by position, along what its search for the path comes across, and does not
depend on the marks that are there already (`Mpkg.Touches`, `Mpkg.Painted`). The search for a name
in a directory goes through the run of the directory and forgets the level of what it has passed
over: it finds the first entry that is either in the directory or a leaf one level below
(`Mpkg.Cand`, `Mpkg.locateNode_spec`).
-/

namespace Minibase.Mpkg

open List

/-! ### Painting -/

/-- A node as it was loaded. -/
def bare (nd : Node) : Node :=
  { nd with mark := false, need := false, deny := false, exst := false }

/-- The nodes in a set are marked, the others are as before. -/
def Painted (kind : Kind) (S : ℕ → Prop) (a b : List Node) : Prop :=
  ∀ t, (S t → b[t]? = a[t]?.map (setMark kind)) ∧ (¬S t → b[t]? = a[t]?)

section Painted

variable {kind : Kind} {S T : ℕ → Prop} {a b c : List Node}

lemma setMark_setMark (nd : Node) : setMark kind (setMark kind nd) = setMark kind nd := by
  simp [setMark]

lemma Painted.trans (hab : Painted kind S a b) (hbc : Painted kind T b c) :
    Painted kind (fun t => S t ∨ T t) a c := by
  intro t
  obtain ⟨hin, hout⟩ := hab t
  obtain ⟨hin', hout'⟩ := hbc t
  constructor
  · intro h
    by_cases hT : T t
    · rw [hin' hT]
      by_cases hS : S t
      · rw [hin hS, Option.map_map]
        congr 1
        funext nd
        exact setMark_setMark nd
      · rw [hout hS]
    · rw [hout' hT, hin (h.resolve_right hT)]
  · intro h
    rw [hout' fun hT => h (.inr hT), hout fun hS => h (.inl hS)]

lemma Painted.congr (h : Painted kind S a b) (hST : ∀ t, S t ↔ T t) : Painted kind T a b :=
  fun t => ⟨fun hT => (h t).1 ((hST t).mpr hT), fun hT => (h t).2 fun hS => hT ((hST t).mp hS)⟩

lemma painted_refl (kind : Kind) (a : List Node) : Painted kind (fun _ => False) a a :=
  fun _ => ⟨False.elim, fun _ => rfl⟩

/-- Paint does not change what is under it. -/
theorem Painted.map_bare (h : Painted kind S a b) : b.map bare = a.map bare := by
  apply ext_getElem?
  intro t
  rw [getElem?_map, getElem?_map]
  by_cases hS : S t
  · rw [(h t).1 hS, Option.map_map]
    rfl
  · rw [(h t).2 hS]

lemma painted_markRun (kind : Kind) (depth : ℕ) (nds : List Node) :
    Painted kind (· < (run depth nds).length) nds (markRun kind depth nds) := by
  induction nds with
  | nil => exact fun t => ⟨fun _ => rfl, fun _ => rfl⟩
  | cons nd nds ih =>
    rw [markRun, run, takeWhile_cons]
    by_cases hend : nd.isDir = true ∧ nd.lvl < depth
    · rw [if_pos hend, if_neg (by simpa using hend)]
      exact fun t => ⟨fun h => absurd h (Nat.not_lt_zero t), fun _ => rfl⟩
    · rw [if_neg hend, if_pos (decide_eq_true hend)]
      intro t
      obtain - | t := t
      · exact ⟨fun _ => rfl, fun h => absurd (Nat.succ_pos _) h⟩
      · exact ⟨fun h => (ih t).1 (Nat.lt_of_succ_lt_succ h),
          fun h => (ih t).2 fun h' => h (Nat.succ_lt_succ h')⟩

lemma painted_markDown (kind : Kind) (nodes : List Node) {i : ℕ} (hi : i ≤ nodes.length)
    (depth : ℕ) :
    Painted kind (fun t => i ≤ t ∧ t < i + (run depth (nodes.drop i)).length) nodes
      (markDown kind nodes i depth) := by
  intro t
  have hlen : (nodes.take i).length = i := by rw [length_take, min_eq_left hi]
  rw [markDown]
  by_cases hit : i ≤ t
  · have hdrop : nodes[t]? = (nodes.drop i)[t - i]? := by
      rw [getElem?_drop, Nat.add_sub_cancel' hit]
    rw [getElem?_append_right (by rwa [hlen]), hlen, hdrop]
    obtain ⟨hin, hout⟩ := painted_markRun kind depth (nodes.drop i) (t - i)
    exact ⟨fun h => hin (by omega), fun h => hout (by omega)⟩
  · rw [getElem?_append_left (by omega), getElem?_take_of_lt (by omega)]
    exact ⟨fun h => absurd h.1 hit, fun _ => rfl⟩

lemma painted_set (kind : Kind) {nodes : List Node} {i : ℕ} {nd : Node}
    (hnd : nodes[i]? = some nd) : Painted kind (· = i) nodes (nodes.set i (setMark kind nd)) := by
  have hi := (List.getElem?_eq_some_iff.mp hnd).1
  intro t
  constructor
  · rintro rfl
    rw [List.getElem?_set_self hi, hnd]
    rfl
  · intro h
    rw [List.getElem?_set_ne (Ne.symm h)]

lemma painted_markBack (kind : Kind) (nodes : List Node) (stack : List ℕ) :
    Painted kind (· ∈ stack) nodes (markBack kind nodes stack) := by
  induction stack generalizing nodes with
  | nil => exact fun t => ⟨(fun h => nomatch h), fun _ => rfl⟩
  | cons i stack ih =>
    rw [markBack]
    have hone : Painted kind (· = i) nodes (nodes.modify i (setMark kind)) := by
      intro t
      rw [getElem?_modify]
      constructor
      · rintro rfl
        simp
      · intro h
        simp [Ne.symm h]
    exact (hone.trans (ih _)).congr fun t => mem_cons.symm

end Painted

/-! ### Copies of an index -/

section Copy

lemma scan_bare (depth : ℕ) (name : Name) (level i : ℕ) (nds : List Node) :
    scan depth name level i (nds.map bare) = scan depth name level i nds := by
  induction nds generalizing level i with
  | nil => rfl
  | cons nd nds ih =>
    simp only [map_cons, scan, ih]
    rfl

lemma locateNode_bare (nodes : List Node) (start depth : ℕ) (name : Name) :
    locateNode (nodes.map bare) start depth name = locateNode nodes start depth name := by
  rw [locateNode, locateNode, ← map_drop, scan_bare]

lemma locateDir_bare (nodes : List Node) (start : ℕ) (stack : List ℕ) (name : Name) :
    locateDir (nodes.map bare) start stack name = locateDir nodes start stack name := by
  rw [locateDir, locateDir, locateNode_bare]
  rcases locateNode nodes start stack.length name with - | i
  · rfl
  · simp only [getElem?_map, length_map]
    rcases nodes[i]? with - | nd <;> rfl

lemma run_bare (depth : ℕ) (nds : List Node) :
    (run depth (nds.map bare)).length = (run depth nds).length := by
  rw [run, run, takeWhile_map, length_map]
  rfl

variable {nodes base : List Node}

/-- `mark_leaf` on a copy of an index. -/
theorem painted_markLeaf (kind : Kind) (hcopy : nodes.map bare = base) {i : ℕ} {nd : Node}
    (hnd : base[i]? = some nd) :
    Painted kind (fun t => t = i ∨
      (i + 1 ≤ t ∧ t < i + 1 + (run (nd.lvl + 1) (base.drop (i + 1))).length)) nodes
      (markLeaf kind nodes i) := by
  have hbase := hnd
  rw [← hcopy, List.getElem?_map] at hbase
  obtain ⟨nd', hnd', hbare⟩ := Option.map_eq_some_iff.mp hbase
  have hi := (List.getElem?_eq_some_iff.mp hnd').1
  have hlvl : nd'.lvl = nd.lvl := by rw [← hbare]; rfl
  rw [markLeaf, hnd']
  have hset := painted_set kind hnd'
  have hrun : (run (nd.lvl + 1) ((nodes.set i (setMark kind nd')).drop (i + 1))).length
      = (run (nd.lvl + 1) (base.drop (i + 1))).length := by
    rw [← run_bare, List.map_drop, hset.map_bare, hcopy]
  have hi' : i + 1 ≤ (nodes.set i (setMark kind nd')).length := by
    rw [List.length_set]
    exact hi
  have hdown := painted_markDown kind (nodes.set i (setMark kind nd')) hi' (nd'.lvl + 1)
  rw [hlvl, hrun] at hdown
  show Painted kind _ nodes (markDown kind (nodes.set i (setMark kind nd')) (i + 1) (nd'.lvl + 1))
  rw [hlvl]
  exact hset.trans hdown

end Copy

/-! ### Where a search starts -/

/-- A search in a directory: its path, the position after it, and the positions of the
directories that lead to it. -/
structure Start (nodes : List Node) (P : List Name) (s : ℕ) (stack : List ℕ) : Prop where
  cut : (placed [] nodes).drop s = placed P (nodes.drop s)
  leveled : Leveled P.length (nodes.drop s)
  below : ∀ (u : ℕ) (y : List Name × Node), (placed [] nodes)[u]? = some y →
    (P <+: y.1 ↔ s ≤ u ∧ u < s + (run P.length (nodes.drop s)).length)
  depth : stack.length = P.length
  mem : ∀ u, u ∈ stack ↔ ∃ y : List Name × Node, (placed [] nodes)[u]? = some y ∧ pathOf y <+: P
  listed : P ≠ [] → Listed nodes P
  le : s ≤ nodes.length

section Start

variable {nodes : List Node} {P : List Name} {s : ℕ} {stack : List ℕ}

lemma pathOf_ne_nil (x : List Name × Node) : pathOf x ≠ [] := by simp [pathOf]

lemma start_root (hlev : Leveled 0 nodes) : Start nodes [] 0 [] := by
  refine ⟨rfl, hlev, ?_, rfl, ?_, fun h => absurd rfl h, Nat.zero_le _⟩
  · intro u y hy
    have hu := (List.getElem?_eq_some_iff.mp hy).1
    rw [length_placed] at hu
    rw [drop_zero, length_nil, run_zero]
    exact ⟨fun _ => ⟨Nat.zero_le u, by omega⟩, fun _ => nil_prefix⟩
  · intro u
    refine ⟨(fun h => nomatch h), ?_⟩
    rintro ⟨y, -, hpath⟩
    exact absurd (prefix_nil.mp hpath) (pathOf_ne_nil y)

/-- **One directory deeper.** -/
theorem Start.dir (h : Start nodes P s stack) (hlev : Leveled 0 nodes) (hdis : Distinct nodes)
    {t : ℕ} {x : List Name × Node} {c : Name} (hx : (placed [] nodes)[t]? = some x)
    (hdir : x.2.isDir = true) (hpath : pathOf x = P ++ [c]) :
    Start nodes (P ++ [c]) (t + 1) (stack ++ [t]) := by
  rw [← hpath]
  refine ⟨drop_placed hx hdir, hlev.drop_dir hx hdir,
    fun u y hy => below_iff_run hlev hdis hx hdir hy, ?_, ?_,
    fun _ => ⟨x, mem_of_getElem? hx, rfl⟩, ?_⟩
  · rw [hpath, length_append, length_append, h.depth, length_singleton, length_singleton]
  · intro u
    rw [mem_append, mem_singleton, h.mem, hpath]
    constructor
    · rintro (⟨y, hy, hpre⟩ | rfl)
      · exact ⟨y, hy, hpre.trans (prefix_append _ _)⟩
      · exact ⟨x, hx, by rw [hpath]⟩
    · rintro ⟨y, hy, hpre⟩
      rcases prefix_concat_iff.mp hpre with heq | hpre
      · exact .inr (hdis.unique hy hx (heq.trans hpath.symm))
      · exact .inl ⟨y, hy, hpre⟩
  · have ht := (List.getElem?_eq_some_iff.mp hx).1
    rwa [length_placed] at ht

end Start

/-! ### What a search finds -/

/-- What the search for a name takes: an entry of that name in the directory, or a leaf of
that name in a directory in it. -/
def Cand (P : List Name) (c : Name) (x : List Name × Node) : Prop :=
  pathOf x = P ++ [c] ∨ (x.2.isDir = false ∧ ∃ n, pathOf x = P ++ [n, c])

section Search

variable {P cur : List Name} {c : Name} {x : List Name × Node}

lemma Cand.name_eq (h : Cand P c x) : x.2.name = c := by
  rcases h with h | ⟨-, n, h⟩
  · exact (append_inj' h rfl).2 |> singleton_inj.mp
  · have : pathOf x = (P ++ [n]) ++ [c] := by simpa using h
    exact (append_inj' this rfl).2 |> singleton_inj.mp

lemma Cand.below (h : Cand P c x) : P <+: x.1 := by
  rcases h with h | ⟨-, n, h⟩
  · rw [(append_inj' h rfl).1]
  · have : pathOf x = (P ++ [n]) ++ [c] := by simpa using h
    rw [(append_inj' this rfl).1]
    exact prefix_append _ _

lemma Cand.length_le (h : Cand P c x) : x.1.length ≤ P.length + 1 := by
  have hlen : (pathOf x).length = x.1.length + 1 := by simp [pathOf]
  rcases h with h | ⟨-, n, h⟩
  · rw [h] at hlen
    simp at hlen
    omega
  · rw [h] at hlen
    simp at hlen
    omega

/-- One round of the search. The level it has is above the directory exactly if the current
directory is more than one level below it. -/
theorem cand_round {nd : Node} {nds : List Node} {level : ℕ} (hcur : P <+: cur)
    (hlev : Leveled cur.length (nd :: nds))
    (hlevel : P.length < level ↔ P.length + 1 < cur.length)
    (hrun : ¬(nd.isDir = true ∧ nd.lvl < P.length)) :
    Cand P c (home cur nd, nd) ↔
      ¬P.length < (if nd.isDir then nd.lvl else level) ∧ nd.name = c := by
  constructor
  · intro h
    refine ⟨?_, h.name_eq⟩
    have hle : (home cur nd).length ≤ P.length + 1 := h.length_le
    rcases hdir : nd.isDir with - | -
    · rw [home_leaf hdir] at hle
      rw [if_neg (by simp), hlevel]
      omega
    · rw [if_pos rfl, ← hlev.home_length hdir]
      rcases h with h | ⟨hleaf, -⟩
      · have hlen := congrArg length h
        simp [pathOf] at hlen
        omega
      · rw [hdir] at hleaf
        cases hleaf
  · rintro ⟨hnot, rfl⟩
    rcases hdir : nd.isDir with - | -
    · rw [hdir, if_neg (by simp), hlevel] at hnot
      rw [home_leaf hdir]
      obtain ⟨q, rfl⟩ := hcur
      have hq : q.length ≤ 1 := by
        rw [length_append] at hnot
        omega
      rcases q with - | ⟨n, - | ⟨m, q⟩⟩
      · exact .inl (by simp [pathOf])
      · exact .inr ⟨hdir, n, by simp [pathOf]⟩
      · simp at hq
    · rw [hdir, if_pos rfl] at hnot
      have hlvl : nd.lvl = P.length := by
        have : ¬nd.lvl < P.length := fun h => hrun ⟨hdir, h⟩
        omega
      have hhome : home cur nd = P := by
        rw [home_dir hdir, hlvl]
        exact (prefix_iff_eq_take.mp hcur).symm
      exact .inl (by rw [pathOf, hhome])

lemma prefix_after_of_run {nd : Node} (hcur : P <+: cur)
    (hrun : ¬(nd.isDir = true ∧ nd.lvl < P.length)) : P <+: after cur nd := by
  rcases hdir : nd.isDir with - | -
  · rwa [after_leaf hdir]
  · rw [after_dir hdir]
    have hlvl : P.length ≤ nd.lvl := Nat.le_of_not_lt fun h => hrun ⟨hdir, h⟩
    exact (prefix_take_iff.mpr ⟨hcur, hlvl⟩).trans (prefix_append _ _)

/-- **The search** finds the first entry of the run that it takes for the name. -/
theorem scan_spec {nds : List Node} (level i : ℕ) (hcur : P <+: cur)
    (hlev : Leveled cur.length nds) (hlevel : P.length < level ↔ P.length + 1 < cur.length) :
    (∃ (k : ℕ) (x : List Name × Node), scan P.length c level i nds = some (i + k) ∧
      k < (run P.length nds).length ∧ (placed cur nds)[k]? = some x ∧ Cand P c x ∧
      ∀ u < k, ∀ y, (placed cur nds)[u]? = some y → ¬Cand P c y) ∨
    (scan P.length c level i nds = none ∧
      ∀ u < (run P.length nds).length, ∀ y, (placed cur nds)[u]? = some y → ¬Cand P c y) := by
  induction nds generalizing cur level i with
  | nil => exact .inr ⟨rfl, fun u hu => absurd hu (Nat.not_lt_zero u)⟩
  | cons nd nds ih =>
    by_cases hend : nd.isDir = true ∧ nd.lvl < P.length
    · have hrun : run P.length (nd :: nds) = [] := by
        rw [run, takeWhile_cons, if_neg (by simpa using hend)]
      rw [hrun, scan, if_pos hend]
      exact .inr ⟨rfl, fun u hu => absurd hu (Nat.not_lt_zero u)⟩
    have hrun : run P.length (nd :: nds) = nd :: run P.length nds := by
      rw [run, takeWhile_cons, if_pos (decide_eq_true hend)]
      rfl
    have hround := cand_round (c := c) hcur hlev hlevel hend
    have hlevel' : P.length < (if nd.isDir then nd.lvl else level) ↔
        P.length + 1 < (after cur nd).length := by
      rcases hdir : nd.isDir with - | -
      · rw [after_leaf hdir]
        exact hlevel
      · rw [if_pos rfl, after_dir hdir, ← home_dir hdir, length_append,
          hlev.home_length hdir, length_singleton]
        omega
    rw [hrun, scan, if_neg hend]
    by_cases hcand : Cand P c (home cur nd, nd)
    · obtain ⟨hnot, hname⟩ := hround.mp hcand
      refine .inl ⟨0, (home cur nd, nd), ?_, Nat.succ_pos _, rfl, hcand,
        fun u hu => absurd hu (Nat.not_lt_zero u)⟩
      simp only [if_neg hnot, if_pos hname]
      rfl
    · have hnext : (if P.length < (if nd.isDir then nd.lvl else level) then
            scan P.length c (if nd.isDir then nd.lvl else level) (i + 1) nds
          else if nd.name = c then some i
          else scan P.length c (if nd.isDir then nd.lvl else level) (i + 1) nds)
          = scan P.length c (if nd.isDir then nd.lvl else level) (i + 1) nds := by
        by_cases hlt : P.length < (if nd.isDir then nd.lvl else level)
        · rw [if_pos hlt]
        · rw [if_neg hlt, if_neg fun hname => hcand (hround.mpr ⟨hlt, hname⟩)]
      simp only [hnext]
      rcases ih _ (i + 1) (prefix_after_of_run hcur hend) hlev.tail hlevel' with
        ⟨k, x, hscan, hk, hx, hc, hbefore⟩ | ⟨hscan, hall⟩
      · refine .inl ⟨k + 1, x, ?_, Nat.succ_lt_succ hk, hx, hc, ?_⟩
        · rw [hscan, Nat.add_assoc, Nat.add_comm 1 k]
        · intro u hu y hy
          obtain - | u := u
          · cases hy
            exact hcand
          · exact hbefore u (Nat.lt_of_succ_lt_succ hu) y hy
      · refine .inr ⟨hscan, ?_⟩
        intro u hu y hy
        obtain - | u := u
        · cases hy
          exact hcand
        · exact hall u (Nat.lt_of_succ_lt_succ hu) y hy

/-- **What `locate_node` finds**: the first entry of the index that it takes for the name. -/
theorem locateNode_spec {nodes : List Node} {s : ℕ} {stack : List ℕ}
    (h : Start nodes P s stack) (c : Name) :
    (∃ (t : ℕ) (x : List Name × Node), locateNode nodes s stack.length c = some t ∧
      (placed [] nodes)[t]? = some x ∧ Cand P c x ∧
      ∀ u < t, ∀ y, (placed [] nodes)[u]? = some y → ¬Cand P c y) ∨
    (locateNode nodes s stack.length c = none ∧ ∀ x ∈ placed [] nodes, ¬Cand P c x) := by
  have hcut : ∀ k : ℕ, (placed P (nodes.drop s))[k]? = (placed [] nodes)[s + k]? := by
    intro k
    rw [← h.cut, getElem?_drop]
  rw [h.depth, locateNode]
  rcases scan_spec (c := c) P.length s prefix_rfl h.leveled (by omega) with
    ⟨k, x, hscan, hk, hx, hc, hbefore⟩ | ⟨hscan, hall⟩
  · refine .inl ⟨s + k, x, hscan, (hcut k).symm.trans hx, hc, ?_⟩
    intro u hu y hy hcand
    obtain ⟨hsu, -⟩ := (h.below u y hy).mp hcand.below
    refine hbefore (u - s) (by omega) y ?_ hcand
    rw [hcut, Nat.add_sub_cancel' hsu, hy]
  · refine .inr ⟨hscan, ?_⟩
    intro y hy hcand
    obtain ⟨u, hu, rfl⟩ := mem_iff_getElem.mp hy
    have hy' := getElem?_eq_getElem hu
    obtain ⟨hsu, hlt⟩ := (h.below u _ hy').mp hcand.below
    refine hall (u - s) (by omega) _ ?_ hcand
    rw [hcut, Nat.add_sub_cancel' hsu, hy']

end Search

end Minibase.Mpkg
