import Minibase.Mpkg.Filedb
import Minibase.Mpkg.Needed

/-!
# What was unpacked

A package that was unpacked in a tree has all its files and links in it, at `Mpkg.leafPaths`
below the prefix, none of them was there before, and no two are at the same place
(`Mpkg.unpackNodes_unpacked`). The conflict check is not relied on: its bits may be wrong, so that
what is opened is a file of the package itself, from which nothing can be created (`Mpkg.Held`).
-/

namespace Minibase.Mpkg

open List Function Walk

/-- Where the paths are, below a directory. -/
def spotsOf (r : List Name) (paths : List (List Name × Name)) : List (List Name × Name) :=
  paths.map fun x => (r ++ x.1, x.2)

/-- **Leaves were added** at some places, and nothing else but directories. -/
structure Unpacked (fs fs' : Fs (List Name)) (spots : List (List Name × Name)) : Prop where
  tree : fs'.Tree
  more : fs.Extends fs'
  nodup : spots.Nodup
  free : ∀ k ∈ spots, fs.look k.1 k.2 = none
  there : ∀ k ∈ spots, fs'.leaf k.1 k.2 ≠ none
  rest : ∀ k, k ∉ spots → fs'.leaf k.1 k.2 = fs.leaf k.1 k.2

section Unpack

variable {fs fs' fs'' : Fs (List Name)} {r cur : List Name}

lemma unpacked_nil (htree : fs'.Tree) (hmore : fs.Extends fs')
    (hleaf : ∀ d n, fs'.leaf d n = fs.leaf d n) : Unpacked fs fs' [] :=
  ⟨htree, hmore, nodup_nil, nofun, nofun, fun k _ => hleaf k.1 k.2⟩

variable {d : List Name}

lemma leaf_of_free {n : Name} (h : fs.look d n = none) : fs.leaf d n = none := by
  rw [Fs.leaf, h]

lemma Unpacked.append {ks ls : List (List Name × Name)} (h : Unpacked fs fs' ks)
    (h' : Unpacked fs' fs'' ls) : Unpacked fs fs'' (ks ++ ls) := by
  have hapart : ∀ k ∈ ks, k ∉ ls := fun k hk hl =>
    h.there k hk (leaf_of_free (h'.free k hl))
  refine ⟨h'.tree, h.more.trans h'.more, ?_, ?_, ?_, ?_⟩
  · exact h.nodup.append h'.nodup fun k hk hl => hapart k hk hl
  · intro k hk
    rcases mem_append.mp hk with hk | hk
    · exact h.free k hk
    · exact h.more.look_eq_none (h'.free k hk)
  · intro k hk
    by_cases hl : k ∈ ls
    · exact h'.there k hl
    · rw [h'.rest k hl]
      exact h.there k ((mem_append.mp hk).resolve_right hl)
  · intro k hk
    rw [mem_append, not_or] at hk
    rw [h'.rest k hk.2, h.rest k hk.1]

/-- A leaf is added. -/
theorem unpacked_leaf {n : Name} {e : Ent (List Name)} (htree : fs.Tree)
    (hdir : fs.IsDir d) (hfree : fs.look d n = none) (hn : n ≠ []) (he : ∀ d', e ≠ .dir d') :
    Unpacked fs (fs.add d n e) [(d, n)] := by
  refine ⟨htree.add hdir hfree hn fun d' h => absurd h (he d'), Fs.extends_add hfree e,
    nodup_singleton _, forall_mem_singleton.mpr hfree, ?_, ?_⟩
  · refine forall_mem_singleton.mpr ?_
    rw [Fs.leaf, Fs.look_add_self]
    rcases e with ⟨data, exec⟩ | t | d'
    · rintro ⟨⟩
    · rintro ⟨⟩
    · exact absurd rfl (he d')
  · intro k hk
    exact Fs.leaf_add_of_ne fun hkey => hk (mem_singleton.mpr hkey)

/-- The descriptors unpacking holds: each is of the directory it was opened for, or of
nothing that can be gone on from. -/
def Held (fs : Fs (List Name)) (r : List Name) (f : List Name → Option (List Name))
    (cur : List Name) : Prop :=
  ∀ p, p <+: cur → f p = none ∨ (f p = some (r ++ p) ∧ fs.IsDir (r ++ p))

variable {f : List Name → Option (List Name)}

lemma Held.of_some (h : Held fs r f cur) (hd : f cur = some d) : d = r ++ cur ∧ fs.IsDir d := by
  rcases h cur prefix_rfl with hnone | ⟨hsome, hdir⟩
  · rw [hnone] at hd
    cases hd
  · rw [hsome] at hd
    cases hd
    exact ⟨rfl, hdir⟩

lemma Held.take (h : Held fs r f cur) (lvl : ℕ) : Held fs r f (cur.take lvl) :=
  fun p hp => h p (hp.trans ( take_prefix lvl cur))

lemma Held.extends (h : Held fs r f cur) (hmore : fs.Extends fs') : Held fs' r f cur := by
  intro p hp
  rcases h p hp with hnone | ⟨hsome, hdir⟩
  · exact .inl hnone
  · exact .inr ⟨hsome, hdir.extends hmore⟩

/-- One directory deeper. -/
theorem Held.push (h : Held fs r f cur) {n : Name}
    {fd : Option (List Name)}
    (hfd : fd = none ∨ (fd = some (r ++ cur ++ [n]) ∧ fs.IsDir (r ++ cur ++ [n]))) :
    ∃ g, (tower f cur).push n fd = tower g (cur ++ [n]) ∧ Held fs r g (cur ++ [n]) := by
  have hne : ∀ q, q <+: cur → q ≠ cur ++ [n] := by
    rintro q hq rfl
    have := hq.length_le
    rw [length_append, length_singleton] at this
    omega
  refine ⟨update f (cur ++ [n]) fd, ?_, ?_⟩
  · have hsame : ∀ q, q <+: cur → f q = update f (cur ++ [n]) fd q :=
      fun q hq => (update_of_ne (hne q hq) fd f).symm
    rw [tower_snoc, update_self, tower_congr hsame]
  · intro p hp
    rcases prefix_concat_iff.mp hp with rfl | hp
    · rw [update_self, ← append_assoc]
      exact hfd
    · rw [update_of_ne (hne p hp)]
      exact h p hp

/-! ### One entry -/

lemma orFailx_ok {α : Type} {w : Walk (Option (List Name))} {name : Name} {x : Except Errno α}
    {a : α} (h : orFailx w name x = .ok a) : x = .ok a := by
  rcases x with e | a'
  · cases h
  · cases h
    rfl

variable {u u' : Unpacking (List Name)} {f : List Name → Option (List Name)} {nd : Node}
  {nds : List Node}

/-- What a leaf is made into. -/
theorem unpackLeaf_ok (h : (if nd.isLink then unpackLink u nd else unpackFile u nd) = .ok u') :
    ∃ (d : List Name) (e : Ent (List Name)), u.walk.at_ = some d ∧ u.fs.look d nd.name = none ∧
      (∀ d', e ≠ .dir d') ∧ u'.fs = u.fs.add d nd.name e ∧ u'.walk = u.walk ∧
      u'.level = u.level := by
  split at h
  · rw [unpackLink] at h
    split_ifs at h
    · cases h
    · cases h
    · cases h
    obtain ⟨fs, hfs, h⟩ := ok_of_bind h
    cases h
    have hfs := orFailx_ok hfs
    rw [Fs.symlinkat] at hfs
    split_ifs at hfs
    obtain ⟨d, hat, hfree, rfl⟩ := Fs.create_ok hfs
    exact ⟨d, _, hat, hfree, by rintro d' ⟨⟩, rfl, rfl, rfl⟩
  · obtain ⟨fs, hfs, h⟩ := ok_of_bind h
    obtain ⟨⟨bytes, rest⟩, -, h⟩ := ok_of_bind h
    cases h
    obtain ⟨d, hat, hfree, rfl⟩ := Fs.create_ok (orFailx_ok hfs)
    exact ⟨d, _, hat, hfree, by rintro d' ⟨⟩, rfl, rfl, rfl⟩

/-- What a directory is made into. -/
theorem unpackDir_ok (htree : u.fs.Tree) (hneed : nd.need = true) (hn : nd.name ≠ [])
    (hwalk : u.walk = tower f cur) (hheld : Held u.fs r f cur)
    (h : unpackDir u nd = .ok u') :
    Unpacked u.fs u'.fs [] ∧ u'.level = u.level ∧
      ∃ g, u'.walk = tower g (cur ++ [nd.name]) ∧ Held u'.fs r g (cur ++ [nd.name]) := by
  rw [unpackDir, if_neg (not_not_intro hneed)] at h
  split_ifs at h
  · cases h
  · obtain ⟨fs, ⟨⟩, h⟩ := ok_of_bind h
    obtain ⟨fd, hfd, h⟩ := ok_of_bind h
    cases h
    obtain ⟨d, hat, hfd⟩ := htree.openPath_ok (orFailx_ok hfd)
    rw [hwalk, at_tower] at hat
    obtain ⟨rfl, -⟩ := hheld.of_some hat
    refine ⟨unpacked_nil htree (Fs.Extends.refl _) fun _ _ => rfl, rfl, ?_⟩
    rw [hwalk]
    exact hheld.push hfd
  · obtain ⟨fs, hfs, h⟩ := ok_of_bind h
    obtain ⟨fd, hfd, h⟩ := ok_of_bind h
    cases h
    obtain ⟨d, hat, hfree, rfl⟩ := Fs.create_ok (orFailx_ok hfs)
    rw [hwalk, at_tower] at hat
    obtain ⟨rfl, hdir⟩ := hheld.of_some hat
    have htree' := htree.add hdir hfree hn fun d' (h : Ent.dir (r ++ cur ++ [nd.name]) = .dir d') =>
      (Ent.dir.inj h).symm
    have hmore := Fs.extends_add hfree (.dir (r ++ cur ++ [nd.name]))
    obtain ⟨d', hat', hfd⟩ := htree'.openPath_ok (orFailx_ok hfd)
    rw [hwalk, at_tower, hat] at hat'
    cases hat'
    refine ⟨unpacked_nil htree' hmore (Fs.leaf_add_dir hfree), rfl, ?_⟩
    rw [hwalk]
    exact (hheld.extends hmore).push hfd

/-- **One entry**: a directory adds no leaf, a leaf adds itself. -/
theorem unpackNode_unpacked (htree : u.fs.Tree) (hneed : nd.need = true) (hn : nd.name ≠ [])
    (hlev : Leveled cur.length (nd :: nds)) (hlvl : u.level ≤ cur.length)
    (hwalk : u.walk = tower f cur) (hheld : Held u.fs r f cur)
    (h : unpackNode u nd = .ok u') :
    Unpacked u.fs u'.fs (if nd.isDir then [] else [(r ++ cur, nd.name)]) ∧
      u'.level ≤ (after cur nd).length ∧
      ∃ g, u'.walk = tower g (after cur nd) ∧ Held u'.fs r g (after cur nd) := by
  have hdepth : u.walk.depth = cur.length := by rw [hwalk, depth_tower]
  rw [unpackNode] at h
  rcases hdir : nd.isDir with - | -
  · rw [hdir, hdepth] at h
    simp only [Bool.false_eq_true, if_false, if_neg (Nat.not_lt.mpr hlvl), hneed,
      not_true_eq_false] at h
    obtain ⟨d, e, hat, hfree, he, hfs, hwalk', hlevel⟩ := unpackLeaf_ok h
    rw [hwalk, at_tower] at hat
    obtain ⟨rfl, hisdir⟩ := hheld.of_some hat
    have hunp := unpacked_leaf htree hisdir hfree hn he
    rw [after_leaf hdir, hlevel, hwalk', hfs]
    exact ⟨hunp, hlvl, f, hwalk, hheld.extends hunp.more⟩
  · have hlen := hlev.home_length hdir
    rw [Leveled, if_pos hdir] at hlev
    rw [if_pos hdir, hdepth] at h
    simp only [if_neg (Nat.not_lt.mpr hlev.1)] at h
    rw [hwalk, rewind_tower] at h
    obtain ⟨hunp, hlevel, hgo⟩ :=
      unpackDir_ok (u := ⟨u.fs, tower f (cur.take nd.lvl), nd.lvl, u.data⟩) htree hneed hn rfl
        (hheld.take nd.lvl) h
    rw [after_dir hdir]
    refine ⟨hunp, ?_, hgo⟩
    rw [hlevel, ← home_dir hdir, length_append, hlen]
    exact Nat.le_succ _

/-! ### The whole package -/

lemma unpackNodes_unpacked (htree : u.fs.Tree) (hneed : ∀ nd ∈ nds, nd.need = true)
    (hname : ∀ nd ∈ nds, nd.name ≠ []) (hlev : Leveled cur.length nds)
    (hlvl : u.level ≤ cur.length) (hwalk : u.walk = tower f cur)
    (hheld : Held u.fs r f cur) (h : unpackNodes u nds = .ok u') :
    Unpacked u.fs u'.fs (spotsOf r (leafPaths cur nds)) := by
  induction nds generalizing u cur f with
  | nil =>
    cases h
    exact unpacked_nil htree (Fs.Extends.refl _) fun _ _ => rfl
  | cons nd nds ih =>
    obtain ⟨hneed, hneeds⟩ := forall_mem_cons.mp hneed
    obtain ⟨hname, hnames⟩ := forall_mem_cons.mp hname
    obtain ⟨v, hv, h⟩ := ok_of_bind h
    obtain ⟨hone, hlvl', g, hwalk', hheld'⟩ :=
      unpackNode_unpacked htree hneed hname hlev hlvl hwalk hheld hv
    have hrest := ih hone.tree hneeds hnames hlev.tail hlvl' hwalk' hheld' h
    have happ := hone.append hrest
    rw [leafPaths]
    rcases hdir : nd.isDir with - | -
    · rw [hdir, after_leaf hdir] at happ
      exact happ
    · rw [hdir] at happ
      exact happ

/-- **What `unpack_content` leaves.** -/
theorem unpackContent_unpacked {index : List Node} {data : List UInt8} (htree : fs.Tree)
    (hdir : fs.IsDir r) (hneed : ∀ nd ∈ index, nd.need = true)
    (hname : ∀ nd ∈ index, nd.name ≠ []) (hlev : Leveled 0 index)
    (h : unpackContent fs r index data = .ok u') :
    Unpacked fs u'.fs (spotsOf r (leafPaths [] index)) := by
  refine @unpackNodes_unpacked r [] ⟨fs, ⟨some r, []⟩, 0, data⟩ u' (fun p => some (r ++ p)) index
    htree hneed hname hlev (le_refl 0) ?_ ?_ h
  · show mk (some r) [] = mk (some (r ++ [])) []
    rw [append_nil]
  · intro p hp
    obtain rfl := prefix_nil.mp hp
    refine .inr ⟨rfl, ?_⟩
    rw [append_nil]
    exact hdir

end Unpack

end Minibase.Mpkg
