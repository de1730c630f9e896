import Minibase.Mpkg.Index

/-!
# An index as a tree

What is below a directory comes right after it in the index, as one run that ends with the first
directory of the same level or above (`Mpkg.run`). If no two entries have the same path, that run
is all there is below the directory (`Mpkg.below_iff_run`), because the directory a path goes
through is always listed before the path (`Mpkg.exists_dir_before`).
-/

namespace Minibase.Mpkg

open List

/-- The path of an entry that is placed. -/
def pathOf (x : List Name × Node) : List Name := x.1 ++ [x.2.name]

/-- The entries up to the first directory above a depth. -/
def run (depth : ℕ) (nds : List Node) : List Node :=
  nds.takeWhile fun nd => ¬(nd.isDir ∧ nd.lvl < depth)

section Placed

variable {cur Q : List Name} {nd : Node} {nds : List Node}

@[simp] lemma length_placed (cur : List Name) (nds : List Node) :
    (placed cur nds).length = nds.length := by
  induction nds generalizing cur with
  | nil => rfl
  | cons nd nds ih => rw [placed, length_cons, length_cons, ih]

lemma map_snd_placed (cur : List Name) (nds : List Node) : (placed cur nds).map Prod.snd = nds := by
  induction nds generalizing cur with
  | nil => rfl
  | cons nd nds ih => rw [placed, map_cons, ih]

/-- The directory after some entries. -/
def afterAll (cur : List Name) (nds : List Node) : List Name := nds.foldl after cur

lemma placed_append (cur : List Name) (nds mds : List Node) :
    placed cur (nds ++ mds) = placed cur nds ++ placed (afterAll cur nds) mds := by
  induction nds generalizing cur with
  | nil => rfl
  | cons nd nds ih =>
    rw [cons_append, placed, ih, placed, cons_append]
    rfl

lemma Leveled.append {mds : List Node} (h : Leveled cur.length (nds ++ mds)) :
    Leveled (afterAll cur nds).length mds := by
  induction nds generalizing cur with
  | nil => exact h
  | cons nd nds ih => exact ih h.tail

lemma home_prefix_cur (cur : List Name) (nd : Node) : home cur nd <+: cur := by
  rw [home]
  split
  · exact take_prefix _ _
  · exact prefix_rfl

/-- An entry leads into a directory only if that is the current one, or the entry. -/
theorem prefix_after (h : Q <+: after cur nd) :
    Q <+: cur ∨ (nd.isDir = true ∧ Q = home cur nd ++ [nd.name]) := by
  rcases hdir : nd.isDir with - | -
  · rw [after_leaf hdir] at h
    exact .inl h
  · rw [after_dir hdir, ← home_dir hdir, prefix_concat_iff] at h
    rcases h with rfl | h
    · exact .inr ⟨rfl, rfl⟩
    · exact .inl (h.trans (home_prefix_cur cur nd))

variable {t : ℕ} {x : List Name × Node}

/-- **A directory comes before what is in it.** -/
theorem exists_dir_before (hx : (placed cur nds)[t]? = some x) (hQ : Q <+: x.1)
    (hcur : ¬Q <+: cur) :
    ∃ u < t, ∃ y, (placed cur nds)[u]? = some y ∧ y.2.isDir = true ∧ pathOf y = Q := by
  induction nds generalizing cur t with
  | nil => cases hx
  | cons nd nds ih =>
    obtain - | t := t
    · cases hx
      exact absurd (hQ.trans (home_prefix_cur cur nd)) hcur
    have hx' : (placed (after cur nd) nds)[t]? = some x := hx
    by_cases hafter : Q <+: after cur nd
    · rcases prefix_after hafter with hcur' | ⟨hdir, rfl⟩
      · exact absurd hcur' hcur
      · exact ⟨0, Nat.succ_pos t, (home cur nd, nd), rfl, hdir, rfl⟩
    · obtain ⟨u, hu, y, hy, hrest⟩ := ih hx' hafter
      exact ⟨u + 1, Nat.succ_lt_succ hu, y, hy, hrest⟩

/-- Entries in the run of a directory are below it. -/
theorem prefix_of_lt_run (hcur : Q <+: cur) (ht : t < (run Q.length nds).length)
    (hx : (placed cur nds)[t]? = some x) : Q <+: x.1 := by
  induction nds generalizing cur t with
  | nil => cases hx
  | cons nd nds ih =>
    rw [run, takeWhile_cons] at ht
    split at ht
    swap
    · exact absurd ht (Nat.not_lt_zero t)
    rename_i hrun
    have hhome : Q <+: home cur nd := by
      rcases hdir : nd.isDir with - | -
      · rwa [home_leaf hdir]
      · rw [home_dir hdir]
        have hlvl : Q.length ≤ nd.lvl := by simpa [hdir] using hrun
        exact prefix_take_iff.mpr ⟨hcur, hlvl⟩
    obtain - | t := t
    · cases hx
      exact hhome
    refine ih ?_ (Nat.lt_of_succ_lt_succ ht) hx
    rcases hdir : nd.isDir with - | -
    · rwa [after_leaf hdir]
    · rw [after_dir hdir, ← home_dir hdir]
      exact hhome.trans (prefix_append _ _)

/-- After the run of a directory the walk has left it. -/
theorem exists_dir_after_run (hcur : Q <+: cur) (hlev : Leveled cur.length nds)
    (ht : (run Q.length nds).length ≤ t) (hx : (placed cur nds)[t]? = some x) (hQ : Q <+: x.1) :
    ∃ (u : ℕ) (y : List Name × Node),
      (placed cur nds)[u]? = some y ∧ y.2.isDir = true ∧ pathOf y = Q := by
  induction nds generalizing cur t with
  | nil => cases hx
  | cons nd nds ih =>
    rw [run, takeWhile_cons] at ht
    split at ht
    · rename_i hrun
      obtain - | t := t
      · exact absurd ht (Nat.not_succ_le_zero _)
      have hafter : Q <+: after cur nd := by
        rcases hdir : nd.isDir with - | -
        · rwa [after_leaf hdir]
        · rw [after_dir hdir]
          have hlvl : Q.length ≤ nd.lvl := by simpa [hdir] using hrun
          exact (prefix_take_iff.mpr ⟨hcur, hlvl⟩).trans (prefix_append _ _)
      obtain ⟨u, y, hy, hrest⟩ := ih hafter hlev.tail (Nat.le_of_succ_le_succ ht) hx
      exact ⟨u + 1, y, hy, hrest⟩
    · rename_i hrun
      obtain ⟨hdir, hlvl⟩ : nd.isDir = true ∧ nd.lvl < Q.length := by simpa using hrun
      have hlen := hlev.home_length hdir
      by_cases hafter : Q <+: after cur nd
      · -- the directory that ends the run is the same again
        rcases prefix_after hafter with - | ⟨-, hpath⟩
        · have heq : Q = after cur nd := by
            refine hafter.eq_of_length_le ?_
            rw [after_dir hdir, ← home_dir hdir, length_append, hlen]
            exact hlvl
          refine ⟨0, (home cur nd, nd), rfl, hdir, ?_⟩
          rw [heq, after_dir hdir, ← home_dir hdir]
          rfl
        · exact ⟨0, (home cur nd, nd), rfl, hdir, hpath.symm⟩
      · obtain - | t := t
        · cases hx
          have := hQ.length_le
          have hhome : (home cur nd).length = nd.lvl := hlen
          simp only at this
          omega
        · obtain ⟨u, -, y, hy, hrest⟩ := exists_dir_before
            (show (placed (after cur nd) nds)[t]? = some x from hx) hQ hafter
          exact ⟨u + 1, y, hy, hrest⟩

end Placed

/-! ### A tree of different paths -/

/-- No two entries have the same path. -/
def Distinct (nodes : List Node) : Prop := ((placed [] nodes).map pathOf).Nodup

section Distinct

variable {nodes : List Node} {Q : List Name}

variable {t : ℕ} {x : List Name × Node}

lemma Distinct.unique (h : Distinct nodes) {u : ℕ} {y : List Name × Node}
    (hx : (placed [] nodes)[t]? = some x) (hy : (placed [] nodes)[u]? = some y)
    (hxy : pathOf x = pathOf y) : t = u := by
  obtain ⟨ht, rfl⟩ := List.getElem?_eq_some_iff.mp hx
  obtain ⟨hu, rfl⟩ := List.getElem?_eq_some_iff.mp hy
  have ht' : t < ((placed [] nodes).map pathOf).length := by simpa using ht
  have hu' : u < ((placed [] nodes).map pathOf).length := by simpa using hu
  have heq : ((placed [] nodes).map pathOf)[t] = ((placed [] nodes).map pathOf)[u] := by
    simpa using hxy
  exact (List.Nodup.getElem_inj_iff h).mp heq

/-- The entries around one of them. -/
theorem placed_split (hx : (placed [] nodes)[t]? = some x) :
    placed [] nodes = placed [] (nodes.take t) ++
        x :: placed (after (afterAll [] (nodes.take t)) x.2) (nodes.drop (t + 1)) ∧
      x.1 = home (afterAll [] (nodes.take t)) x.2 ∧
      nodes = nodes.take t ++ x.2 :: nodes.drop (t + 1) := by
  have ht : t < nodes.length := by
    rw [← length_placed [] nodes]
    exact (List.getElem?_eq_some_iff.mp hx).1
  have hnodes : nodes = nodes.take t ++ nodes[t] :: nodes.drop (t + 1) := by
    rw [← drop_eq_getElem_cons ht, take_append_drop]
  have hplaced := congrArg (placed []) hnodes
  rw [placed_append, placed] at hplaced
  have hlen : (placed [] (nodes.take t)).length = t := by
    rw [length_placed, length_take, Nat.min_eq_left ht.le]
  have hxt : (placed [] nodes)[t]? = some
    (home (afterAll [] (nodes.take t)) nodes[t], nodes[t]) := by
    rw [hplaced, getElem?_append_right hlen.le, hlen, Nat.sub_self]
    rfl
  rw [hx] at hxt
  cases hxt
  exact ⟨hplaced, rfl, hnodes⟩

/-- The entries after a directory are placed from it. -/
theorem drop_placed (hx : (placed [] nodes)[t]? = some x) (hdir : x.2.isDir = true) :
    (placed [] nodes).drop (t + 1) = placed (pathOf x) (nodes.drop (t + 1)) := by
  obtain ⟨hsplit, hhome, -⟩ := placed_split hx
  have hlen : (placed [] (nodes.take t)).length = t := by
    have ht := (List.getElem?_eq_some_iff.mp hx).1
    rw [length_placed] at ht
    rw [length_placed, length_take, Nat.min_eq_left ht.le]
  have hafter : after (afterAll [] (nodes.take t)) x.2 = pathOf x := by
    rw [after_dir hdir, ← home_dir hdir, ← hhome]
    rfl
  rw [hafter] at hsplit
  have hfront : (placed [] (nodes.take t)).drop (t + 1) = [] :=
    drop_eq_nil_of_le (by omega)
  rw [hsplit, drop_append, hlen, hfront, nil_append, Nat.add_sub_cancel_left,
    drop_succ_cons, drop_zero]

lemma Leveled.drop_dir (hlev : Leveled 0 nodes) (hx : (placed [] nodes)[t]? = some x)
    (hdir : x.2.isDir = true) : Leveled (pathOf x).length (nodes.drop (t + 1)) := by
  obtain ⟨-, hhome, hnodes⟩ := placed_split hx
  have hlev' : Leveled ([] : List Name).length nodes := hlev
  rw [hnodes] at hlev'
  have htail := hlev'.append.tail
  rwa [after_dir hdir, ← home_dir hdir, ← hhome] at htail

/-- **What is below a directory** is the run after it, if no other entry has its path. -/
theorem below_iff_run (hlev : Leveled 0 nodes) (hdis : Distinct nodes) {u : ℕ}
    {y : List Name × Node} (hx : (placed [] nodes)[t]? = some x) (hdir : x.2.isDir = true)
    (hy : (placed [] nodes)[u]? = some y) :
    pathOf x <+: y.1 ↔
      t + 1 ≤ u ∧ u < t + 1 + (run (pathOf x).length (nodes.drop (t + 1))).length := by
  have hdrop := drop_placed hx hdir
  constructor
  · intro hbelow
    have htu : t + 1 ≤ u := by
      obtain ⟨v, hv, z, hz, -, hpath⟩ := exists_dir_before hy hbelow (by simp [pathOf])
      rw [hdis.unique hx hz hpath.symm]
      exact hv
    refine ⟨htu, ?_⟩
    by_contra hout
    have hy' : (placed (pathOf x) (nodes.drop (t + 1)))[u - (t + 1)]? = some y := by
      rw [← hdrop, getElem?_drop, Nat.add_sub_cancel' htu, hy]
    obtain ⟨v, z, hz, hzdir, hpath⟩ := exists_dir_after_run prefix_rfl
      (hlev.drop_dir hx hdir) (by omega) hy' hbelow
    rw [← hdrop, getElem?_drop] at hz
    have := hdis.unique hx hz hpath.symm
    omega
  · rintro ⟨htu, hin⟩
    have hy' : (placed (pathOf x) (nodes.drop (t + 1)))[u - (t + 1)]? = some y := by
      rw [← hdrop, getElem?_drop, Nat.add_sub_cancel' htu, hy]
    exact prefix_of_lt_run prefix_rfl (by omega) hy'

/-- The path is in the package. -/
def Listed (nodes : List Node) (Q : List Name) : Prop :=
  ∃ x ∈ placed [] nodes, pathOf x = Q

/-- A path goes through a directory that is listed before it. -/
theorem exists_dir_of_below (hx : (placed [] nodes)[t]? = some x) (hne : Q ≠ []) (hQ : Q <+: x.1) :
    ∃ u < t, ∃ y, (placed [] nodes)[u]? = some y ∧ y.2.isDir = true ∧ pathOf y = Q :=
  exists_dir_before hx hQ fun h => hne (prefix_nil.mp h)

lemma Leveled.dir_lt (hlev : Leveled 0 nodes) (hx : (placed [] nodes)[t]? = some x)
    (hdir : x.2.isDir = true) : x.1.length = x.2.lvl ∧ x.1.length < MAXDEPTH := by
  obtain ⟨-, hhome, hnodes⟩ := placed_split hx
  have hlev' : Leveled ([] : List Name).length nodes := hlev
  rw [hnodes] at hlev'
  have hhere := hlev'.append
  rw [hhome]
  exact ⟨hhere.home_length hdir, hhere.home_lt hdir⟩

/-- Everything is below the top, and the run from the start is the whole index. -/
theorem run_zero (nodes : List Node) : run 0 nodes = nodes := by
  rw [run, takeWhile_eq_self_iff]
  intro nd _
  simp

end Distinct

end Minibase.Mpkg
