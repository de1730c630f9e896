import Minibase.Mpkg.Conflict

/-!
# When the conflict check is exact

Unpacking after a check that found nothing. New directories are named by where they are
made: by an old directory and a path below it, so that the file system over
`α × List Name` has the old directories `(d, [])` and room for everything a package can
add (`Fs.grow`). The walk of `unpack_content` is then at the anchor of the current path
(`Mpkg.hand`), and every entry that has to be created has its `Mpkg.spot`. It fails, for some
content of the package, exactly if two entries have the same spot, if a link is empty, or if a
directory is taken for missing (`Mpkg.unpackNodes_iff`).
-/

namespace Minibase

open List Option Fs

section Grow

variable {α : Type}

instance : Naming (α × List Name) := ⟨fun d n => (d.1, d.2 ++ [n])⟩

/-- An entry of the old file system. -/
def Ent.grow : Ent α → Ent (α × List Name)
  | .file data exec => .file data exec
  | .link target => .link target
  | .dir d => .dir (d, [])

/-- The file system, with room for new directories. The links in those are never followed,
and they refuse the names that the directory they are made in refuses. -/
def Fs.grow (fs : Fs α) : Fs (α × List Name) where
  ents := fs.ents.map fun x => (((x.1.1, []), x.1.2), x.2.grow)
  follow d t := (fs.follow d.1 t).map fun d' => (d', [])
  refuses d n := fs.refuses d.1 n

variable [DecidableEq α]

lemma Fs.look_grow (fs : Fs α) (d : α) (n : Name) :
    fs.grow.look (d, []) n = (fs.look d n).map Ent.grow := by
  rw [look, look, grow, find?_map, Option.map_map, Option.map_map]
  have hkey : ((fun x => decide (x.1 = ((d, []), n))) ∘
      fun x : (α × Name) × Ent α => (((x.1.1, ([] : List Name)), x.1.2), x.2.grow))
      = fun x => decide (x.1 = (d, n)) := by
    funext x
    simp [Prod.ext_iff]
  rw [hkey]
  rfl

lemma Fs.look_grow_new (fs : Fs α) {d : α × List Name} (hd : d.2 ≠ []) (n : Name) :
    fs.grow.look d n = none := by
  rw [look, map_eq_none_iff, find?_eq_none]
  intro x hx hkey
  obtain ⟨y, -, rfl⟩ := mem_map.mp hx
  have := congrArg (fun k => k.1.2) (of_decide_eq_true hkey)
  exact hd this.symm

end Grow

namespace Mpkg

section Unpack

variable {α : Type} [DecidableEq α] (fs : Fs α) (r : α)

/-- Unpacking gave up on something that is there, or on something that is not. -/
def PathFault {β : Type} : Except Warn β → Prop
  | .ok _ => False
  | .error w => w.err = .EEXIST ∨ w.err = .ENOENT ∨ w.err = .ENOTDIR

omit [DecidableEq α] in
lemma PathFault.bind {β γ : Type} {x : Except Warn β} (h : PathFault x) (f : β → Except Warn γ) :
    PathFault (x >>= f) := by
  rcases x with w | b
  · exact h
  · exact h.elim

/-- Where an entry goes. -/
def spot (h : List Name) (nd : Node) : (α × List Name) × Name := (anchor fs r h, nd.name)

/-- Where the entries go that have to be created. -/
def spots (cur : List Name) (nds : List Node) : List ((α × List Name) × Name) :=
  ((placed cur nds).filter fun x => ¬(flagged fs r x.1 x.2).exst).map fun x => spot fs r x.1 x.2

/-- A link that is longer than a page, which unpacking does not get past. -/
def Oversize (nd : Node) : Prop := nd.isDir = false ∧ nd.isLink = true ∧ PAGE < nd.size
deriving Decidable

/-- The entries unpacking can get to. -/
def attainable (nds : List Node) : List Node := nds.takeWhile fun nd => ¬Oversize nd

/-- A directory that cannot be opened is not there at all, and a link leads somewhere. -/
structure Sound (h : List Name) (nd : Node) : Prop where
  vacant : nd.isDir = true → ¬IsDirAt fs r (h ++ [nd.name]) →
    fs.grow.look (anchor fs r h) nd.name = none
  link : nd.isDir = false → nd.isLink = true → nd.size ≠ 0

/-- The directories unpacking has open. -/
def hand (cur : List Name) : Walk (Option (α × List Name)) :=
  Walk.tower (fun p => some (anchor fs r p)) cur

/-- The file system after entries were created. -/
structure Made (G : Fs (α × List Name)) (keys : List ((α × List Name) × Name)) : Prop where
  old : ∀ k, k ∉ keys → G.look k.1 k.2 = fs.grow.look k.1 k.2
  new : ∀ k ∈ keys, G.look k.1 k.2 ≠ none
  free : ∀ k ∈ keys, fs.grow.look k.1 k.2 = none
  follow : G.follow = fs.grow.follow
  refuses : G.refuses = fs.grow.refuses

variable {fs r} {keys : List ((α × List Name) × Name)} {G : Fs (α × List Name)}

lemma Made.add (h : Made fs G keys) {k : (α × List Name) × Name} (hk : k ∉ keys)
    (hfree : fs.grow.look k.1 k.2 = none) (e : Ent (α × List Name)) :
    Made fs (G.add k.1 k.2 e) (k :: keys) := by
  have hother : ∀ k', k' ≠ k → (G.add k.1 k.2 e).look k'.1 k'.2 = G.look k'.1 k'.2 :=
    fun k' hne => look_add_of_ne hne
  refine ⟨?_, ?_, ?_, h.follow, h.refuses⟩
  · intro k' hk'
    obtain ⟨hne, hmem⟩ := not_or.mp (fun hor => hk' (mem_cons.mpr hor))
    rw [hother k' hne, h.old k' hmem]
  · intro k' hk'
    by_cases hne : k' = k
    · rw [hne, look_add_self]
      exact nofun
    · rw [hother k' hne]
      exact h.new k' ((mem_cons.mp hk').resolve_left hne)
  · intro k' hk'
    rcases mem_cons.mp hk' with rfl | hk'
    · exact hfree
    · exact h.free k' hk'

lemma Made.look_eq_none_iff (h : Made fs G keys) {k : (α × List Name) × Name} :
    G.look k.1 k.2 = none ↔ k ∉ keys ∧ fs.grow.look k.1 k.2 = none := by
  constructor
  · intro hnone
    have hk : k ∉ keys := fun hk => h.new k hk hnone
    exact ⟨hk, (h.old k hk).symm.trans hnone⟩
  · rintro ⟨hk, hnone⟩
    rw [h.old k hk, hnone]

variable {h : List Name}

/-- A directory that was there is opened, whatever was made meanwhile. -/
theorem Made.openPath (hm : Made fs G keys) {n : Name}
    (hcall : G.refuses (anchor fs r h) n = none) (hdir : IsDirAt fs r (h ++ [n])) :
    G.openPath (some (anchor fs r h)) n = .ok (some (anchor fs r (h ++ [n]))) := by
  obtain ⟨hhome, d, hopen⟩ := isDirAt_snoc.mp hdir
  have hanchor : anchor fs r h = ((anchor fs r h).1, []) := Prod.ext rfl hhome
  have hnext : anchor fs r (h ++ [n]) = (d, []) := by
    rw [anchor_snoc, if_pos (show (anchor fs r h).2 = [] from hhome), hopen]
  have hgrow : fs.grow.look (anchor fs r h) n = (fs.look (anchor fs r h).1 n).map Ent.grow := by
    rw [hanchor]
    exact Fs.look_grow fs _ n
  have hold : G.look (anchor fs r h) n = fs.grow.look (anchor fs r h) n := by
    refine hm.old (anchor fs r h, n) fun hk => ?_
    have hfree := hm.free _ hk
    rw [hgrow, map_eq_none_iff] at hfree
    rw [Fs.enter, hfree] at hopen
    cases hopen
  rw [Fs.openPath, Fs.call_of_free hcall, hold, hgrow, hnext]
  rw [Fs.enter] at hopen
  rcases hlook : fs.look (anchor fs r h).1 n with - | (⟨data, exec⟩ | t | d')
  · rw [hlook] at hopen
    cases hopen
  · rw [hlook] at hopen
    cases hopen
  · rw [hlook] at hopen
    have hfollow : G.follow (anchor fs r h) t = .ok (d, []) := by
      rw [hm.follow]
      show (fs.follow (anchor fs r h).1 t).map _ = _
      rw [show fs.follow (anchor fs r h).1 t = .ok d from hopen]
      rfl
    simp only [map_some, Ent.grow, hfollow]
  · rw [hlook] at hopen
    cases hopen
    rfl

/-! ### One entry -/

lemma push_hand (h : List Name) (n : Name) :
    (hand fs r h).push n (some (anchor fs r (h ++ [n]))) = hand fs r (h ++ [n]) :=
  (Walk.tower_snoc h n).symm

lemma rewind_hand (cur : List Name) (lvl : ℕ) :
    (hand fs r cur).rewind lvl = hand fs r (cur.take lvl) := Walk.rewind_tower lvl cur

lemma depth_hand (cur : List Name) : (hand fs r cur).depth = cur.length :=
  Walk.depth_tower cur

lemma at_hand (cur : List Name) : (hand fs r cur).at_ = some (anchor fs r cur) :=
  Walk.at_tower cur

/-- A directory that is not there is anchored where it will be made. -/
theorem anchor_of_not_isDirAt {n : Name} (hnot : ¬IsDirAt fs r (h ++ [n])) :
    anchor fs r (h ++ [n]) = Naming.sub (anchor fs r h) n := by
  show _ = ((anchor fs r h).1, (anchor fs r h).2 ++ [n])
  rw [anchor_snoc]
  split
  · rename_i hnil
    rcases hopen : fs.enter (anchor fs r h).1 n with e | d
    · rw [hnil]
      rfl
    · exact absurd (isDirAt_snoc.mpr ⟨hnil, d, hopen⟩) hnot
  · rfl

variable {nd : Node}

/-- Where nothing is found for a leaf, nothing is there. -/
theorem look_of_not_found (hdir : nd.isDir = false)
    (hnone : ¬Found fs r h nd) : fs.grow.look (anchor fs r h) nd.name = none := by
  by_cases hhome : IsDirAt fs r h
  · have hanchor : anchor fs r h = ((anchor fs r h).1, []) := Prod.ext rfl hhome
    rw [Found, hdir] at hnone
    rw [hanchor, look_grow, (stat_missing.mp (not_not.mp hnone)).2]
    rfl
  · exact look_grow_new fs hhome nd.name

/-- Nor is the name refused. -/
theorem Made.refuses_of_not_found (hm : Made fs G keys) (hnone : ¬Found fs r h nd) :
    G.refuses (anchor fs r h) nd.name = none := by
  rw [hm.refuses]
  exact Mpkg.refuses_of_not_found hnone

variable (fs r) in
/-- Nothing hinders the entry: it is a directory that is there, or its spot is free. -/
def Clear (keys : List ((α × List Name) × Name)) (h : List Name) (nd : Node) : Prop :=
  (flagged fs r h nd).exst = false → spot fs r h nd ∉ keys ∧ Sound fs r h nd

variable (fs r) in
/-- The spots that are taken after an entry. -/
def taken (keys : List ((α × List Name) × Name)) (h : List Name) (nd : Node) :
    List ((α × List Name) × Name) :=
  if (flagged fs r h nd).exst then keys else spot fs r h nd :: keys

/-- The content has what a leaf needs. -/
def Loads (nd : Node) (data : List UInt8) : Prop :=
  nd.size ≤ data.length ∧ (nd.isLink = true → nd.size ≤ PAGE ∧ 0 ∉ data.take nd.size)

/-- The entry that is made of a leaf. -/
def leafEnt {D : Type} (nd : Node) (data : List UInt8) : Ent D :=
  if nd.isLink then .link (data.take nd.size) else .file (data.take nd.size) nd.isExec

section Leaf

variable {G : Fs (α × List Name)} {keys : List ((α × List Name) × Name)} {cur : List Name}
  {nd : Node} {level : ℕ}

variable {data : List UInt8}

lemma unpackNode_leaf_eq (nd : Node) (hdir : nd.isDir = false)
    (hneed : nd.need = true) (hlvl : level ≤ cur.length) :
    unpackNode ⟨G, hand fs r cur, level, data⟩ nd
      = if nd.isLink then unpackLink ⟨G, hand fs r cur, level, data⟩ nd
        else unpackFile ⟨G, hand fs r cur, level, data⟩ nd := by
  have hdepth : ¬(hand fs r cur).depth < level := by
    rw [depth_hand]
    exact Nat.not_lt.mpr hlvl
  simp only [unpackNode, hdir, if_neg hdepth, hneed, not_true, if_false, Bool.false_eq_true]

/-- A leaf whose content is there is created, if its spot is free. -/
theorem unpackNode_leaf_ok (hdir : nd.isDir = false)
    (hneed : nd.need = true) (hlvl : level ≤ cur.length) (hload : Loads nd data)
    (hempty : nd.isLink = true → nd.size ≠ 0)
    (hcall : G.refuses (anchor fs r cur) nd.name = none)
    (hfree : G.look (anchor fs r cur) nd.name = none) :
    unpackNode ⟨G, hand fs r cur, level, data⟩ nd
      = .ok ⟨G.add (anchor fs r cur) nd.name (leafEnt nd data), hand fs r cur, level,
          data.drop nd.size⟩ := by
  have hlen : ¬data.length < nd.size := Nat.not_lt.mpr hload.1
  rw [unpackNode_leaf_eq nd hdir hneed hlvl]
  split
  · rename_i hlink
    obtain ⟨hpage, hnul⟩ := hload.2 hlink
    have hne : data.take nd.size ≠ [] := by
      intro h0
      have := congrArg length h0
      rw [length_take, min_eq_left hload.1] at this
      exact hempty hlink this
    simp only [unpackLink, if_neg (Nat.not_lt.mpr hpage), if_neg hlen, if_neg hnul, at_hand,
      symlinkat, if_neg hne, create, call_of_free hcall, hfree, leafEnt, hlink, if_true]
    rfl
  · rename_i hlink
    simp only [unpackFile, at_hand, creat, create, call_of_free hcall, hfree, transferData,
      if_neg hlen, leafEnt, if_neg hlink]
    rfl

/-- A leaf that is an empty link, or whose spot is taken, is given up on. -/
theorem unpackNode_leaf_fault (nd : Node) (hdir : nd.isDir = false)
    (hneed : nd.need = true) (hlvl : level ≤ cur.length) (hload : Loads nd data)
    (hcall : G.refuses (anchor fs r cur) nd.name = none)
    (hbad : (nd.isLink = true ∧ nd.size = 0) ∨ G.look (anchor fs r cur) nd.name ≠ none) :
    PathFault (unpackNode ⟨G, hand fs r cur, level, data⟩ nd) := by
  have hlen : ¬data.length < nd.size := Nat.not_lt.mpr hload.1
  rw [unpackNode_leaf_eq nd hdir hneed hlvl]
  split
  · rename_i hlink
    obtain ⟨hpage, hnul⟩ := hload.2 hlink
    simp only [unpackLink, if_neg (Nat.not_lt.mpr hpage), if_neg hlen, if_neg hnul, at_hand,
      symlinkat]
    split
    · exact .inr (.inl rfl)
    · rename_i hne
      rcases hbad with ⟨-, h0⟩ | htaken
      · rw [h0, take_zero] at hne
        exact absurd rfl hne
      · obtain ⟨e, he⟩ := ne_none_iff_exists'.mp htaken
        simp only [create, call_of_free hcall, he]
        exact .inl rfl
  · rename_i hlink
    rcases hbad with ⟨hlink', -⟩ | htaken
    · exact absurd hlink' hlink
    · obtain ⟨e, he⟩ := ne_none_iff_exists'.mp htaken
      simp only [unpackFile, at_hand, creat, create, call_of_free hcall, he]
      exact .inl rfl

/-- A leaf without its content is given up on for that. -/
theorem unpackNode_leaf_short (nd : Node) (hdir : nd.isDir = false)
    (hneed : nd.need = true) (hlvl : level ≤ cur.length) (hload : ¬Loads nd data)
    (hcall : G.refuses (anchor fs r cur) nd.name = none)
    (hfree : G.look (anchor fs r cur) nd.name = none) :
    ∃ w, unpackNode ⟨G, hand fs r cur, level, data⟩ nd = .error w ∧
      ¬PathFault (.error w : Except Warn Unit) := by
  rw [unpackNode_leaf_eq nd hdir hneed hlvl]
  split
  · rename_i hlink
    by_cases hpage : PAGE < nd.size
    · exact ⟨_, if_pos hpage, by simp [PathFault]⟩
    by_cases hlen : data.length < nd.size
    · refine ⟨_, (if_neg hpage).trans (if_pos hlen), by simp [PathFault]⟩
    by_cases hnul : 0 ∈ data.take nd.size
    · exact ⟨_, (if_neg hpage).trans ((if_neg hlen).trans (if_pos hnul)), by simp [PathFault]⟩
    · exact absurd ⟨Nat.not_lt.mp hlen, fun _ => ⟨Nat.not_lt.mp hpage, hnul⟩⟩ hload
  · rename_i hlink
    have hlen : data.length < nd.size := by
      by_contra hlen
      exact hload ⟨Nat.not_lt.mp hlen, fun h => absurd h hlink⟩
    simp only [unpackFile, at_hand, creat, create, call_of_free hcall, hfree, transferData,
      if_pos hlen]
    exact ⟨_, rfl, by simp [PathFault]⟩

end Leaf

section Step

variable {G : Fs (α × List Name)} {keys : List ((α × List Name) × Name)} {cur : List Name}
  {nd : Node} {nds : List Node} {level : ℕ}

variable {data : List UInt8}

lemma unpackNode_dir_eq (hdir : nd.isDir = true) (hneed : nd.need = true)
    (hlev : Leveled cur.length (nd :: nds)) :
    unpackNode ⟨G, hand fs r cur, level, data⟩ nd = (do
      let fs' ← if nd.exst then .ok G else
        orFailx (hand fs r (home cur nd)) nd.name
          (G.mkdirat (some (anchor fs r (home cur nd))) nd.name)
      let fd ← orFailx (hand fs r (home cur nd)) nd.name
        (fs'.openPath (some (anchor fs r (home cur nd))) nd.name)
      return ⟨fs', (hand fs r (home cur nd)).push nd.name fd, nd.lvl, data⟩) := by
  have hlen := hlev.home_lt hdir
  rw [Leveled, if_pos hdir] at hlev
  have hdepth : ¬(hand fs r cur).depth < nd.lvl := by
    rw [depth_hand]
    exact Nat.not_lt.mpr hlev.1
  have hmax : ¬MAXDEPTH ≤ (hand fs r (home cur nd)).depth := by
    rw [depth_hand]
    exact Nat.not_le.mpr hlen
  simp only [unpackNode, if_pos hdir, if_neg hdepth, rewind_hand, ← home_dir hdir]
  simp only [unpackDir, hneed, not_true, if_false, if_neg hmax, at_hand]

/-- A directory that is there is entered. -/
theorem unpackNode_dir_old (nd : Node) (hm : Made fs G keys) (hdir : nd.isDir = true)
    (hneed : nd.need = true) (hlev : Leveled cur.length (nd :: nds)) (hexst : nd.exst = true)
    (hcall : G.refuses (anchor fs r (home cur nd)) nd.name = none)
    (hat : IsDirAt fs r (home cur nd ++ [nd.name])) :
    unpackNode ⟨G, hand fs r cur, level, data⟩ nd
      = .ok ⟨G, hand fs r (after cur nd), nd.lvl, data⟩ := by
  rw [unpackNode_dir_eq hdir hneed hlev, if_pos hexst, after_dir hdir, ← home_dir hdir, ← push_hand]
  simp only [bind, Except.bind, hm.openPath hcall hat]
  rfl

/-- A directory that is not there is made and entered, if its spot is free. -/
theorem unpackNode_dir_new (nd : Node) (hdir : nd.isDir = true) (hneed : nd.need = true)
    (hlev : Leveled cur.length (nd :: nds)) (hexst : nd.exst = false)
    (hat : ¬IsDirAt fs r (home cur nd ++ [nd.name]))
    (hcall : G.refuses (anchor fs r (home cur nd)) nd.name = none)
    (hfree : G.look (anchor fs r (home cur nd)) nd.name = none) :
    unpackNode ⟨G, hand fs r cur, level, data⟩ nd
      = .ok ⟨G.add (anchor fs r (home cur nd)) nd.name
          (.dir (anchor fs r (home cur nd ++ [nd.name]))), hand fs r (after cur nd), nd.lvl,
          data⟩ := by
  rw [unpackNode_dir_eq hdir hneed hlev, hexst, after_dir hdir, ← home_dir hdir, ← push_hand]
  simp only [Bool.false_eq_true, if_false, mkdirat, create, call, hcall, hfree,
    ← anchor_of_not_isDirAt hat, orFailx, bind, Except.bind, openPath, refuses_add,
    look_add_self]
  rfl

/-- A directory whose spot is taken is given up on. -/
theorem unpackNode_dir_fault (nd : Node) (hdir : nd.isDir = true) (hneed : nd.need = true)
    (hlev : Leveled cur.length (nd :: nds)) (hexst : nd.exst = false)
    (hcall : G.refuses (anchor fs r (home cur nd)) nd.name = none)
    (htaken : G.look (anchor fs r (home cur nd)) nd.name ≠ none) :
    PathFault (unpackNode ⟨G, hand fs r cur, level, data⟩ nd) := by
  obtain ⟨e, he⟩ := ne_none_iff_exists'.mp htaken
  rw [unpackNode_dir_eq hdir hneed hlev, hexst]
  simp only [Bool.false_eq_true, if_false, mkdirat, create, call_of_free hcall, he]
  exact .inl rfl

variable (fs r) in
/-- The file system after an entry. -/
def grown (G : Fs (α × List Name)) (h : List Name) (nd : Node) (data : List UInt8) :
    Fs (α × List Name) :=
  if (flagged fs r h nd).exst then G
  else G.add (anchor fs r h) nd.name
    (if nd.isDir then .dir (anchor fs r (h ++ [nd.name])) else leafEnt nd data)

/-- The content has what an entry needs; directories need nothing. -/
def Supplied (nd : Node) (data : List UInt8) : Prop := nd.isDir = false → Loads nd data

/-- The content after an entry. -/
def contentAfter (nd : Node) (data : List UInt8) : List UInt8 :=
  if nd.isDir then data else data.drop nd.size

variable {h : List Name}

lemma flagged_exst_leaf (hdir : nd.isDir = false) : (flagged fs r h nd).exst = false := by
  simp [flagged, hdir]

lemma flagged_exst_dir (hdir : nd.isDir = true) :
    (flagged fs r h nd).exst = true ↔ IsDirAt fs r (h ++ [nd.name]) := by
  simp [flagged, hdir]

/-- The spot of an entry is free if nothing hinders it, and only then. -/
theorem clear_iff (hm : Made fs G keys) (hnone : ¬Found fs r h nd)
    (hexst : (flagged fs r h nd).exst = false) :
    Clear fs r keys h nd ↔ G.look (anchor fs r h) nd.name = none ∧
      (nd.isDir = false → nd.isLink = true → nd.size ≠ 0) := by
  rw [Clear, show G.look (anchor fs r h) nd.name = none ↔ _ from
    hm.look_eq_none_iff (k := spot fs r h nd)]
  constructor
  · intro hclear
    obtain ⟨hspot, hsound⟩ := hclear hexst
    refine ⟨⟨hspot, ?_⟩, hsound.link⟩
    rcases hdir : nd.isDir with - | -
    · exact look_of_not_found hdir hnone
    · refine hsound.vacant hdir fun hat => ?_
      rw [(flagged_exst_dir hdir).mpr hat] at hexst
      cases hexst
  · rintro ⟨⟨hspot, hfree⟩, hlink⟩ -
    exact ⟨hspot, fun _ _ => hfree, hlink⟩

lemma made_grown (hm : Made fs G keys) (hnone : ¬Found fs r h nd)
    (hclear : Clear fs r keys h nd) (data : List UInt8) :
    Made fs (grown fs r G h nd data) (taken fs r keys h nd) := by
  rw [grown, taken]
  rcases hexst : (flagged fs r h nd).exst with - | -
  · have hlook := (clear_iff hm hnone hexst).mp hclear
    obtain ⟨hspot, hfree⟩ := (hm.look_eq_none_iff (k := spot fs r h nd)).mp hlook.1
    exact hm.add hspot hfree _
  · exact hm

/-- `ctx->level` after an entry. -/
def levelAfter (level : ℕ) (nd : Node) : ℕ := if nd.isDir then nd.lvl else level

lemma levelAfter_le (hlev : Leveled cur.length (nd :: nds)) (hlvl : level ≤ cur.length) :
    levelAfter level nd ≤ (after cur nd).length := by
  rw [levelAfter]
  rcases hdir : nd.isDir with - | -
  · rwa [after_leaf hdir]
  · rw [after_dir hdir, ← home_dir hdir, length_append, hlev.home_length hdir]
    exact Nat.le_succ _

/-- **An entry nothing hinders** is unpacked, if its content is there. -/
theorem unpackNode_ok (hm : Made fs G keys) (hneed : nd.need = true)
    (hlev : Leveled cur.length (nd :: nds)) (hlvl : level ≤ cur.length)
    (hnone : ¬Found fs r (home cur nd) nd) (hclear : Clear fs r keys (home cur nd) nd)
    (hdata : Supplied nd data) :
    unpackNode ⟨G, hand fs r cur, level, data⟩ (flagged fs r (home cur nd) nd)
      = .ok ⟨grown fs r G (home cur nd) nd data, hand fs r (after cur nd), levelAfter level nd,
          contentAfter nd data⟩ := by
  have hcall := hm.refuses_of_not_found hnone
  rw [contentAfter, grown, levelAfter]
  rcases hdir : nd.isDir with - | -
  · have hexst : (flagged fs r (home cur nd) nd).exst = false := flagged_exst_leaf hdir
    obtain ⟨hfree, hlink⟩ := (clear_iff hm hnone hexst).mp hclear
    rw [hexst, home_leaf hdir, after_leaf hdir]
    rw [home_leaf hdir] at hfree hcall
    exact unpackNode_leaf_ok hdir hneed hlvl (hdata hdir) (hlink hdir) hcall hfree
  · rcases hexst : (flagged fs r (home cur nd) nd).exst with - | -
    · obtain ⟨hfree, -⟩ := (clear_iff hm hnone hexst).mp hclear
      have hat : ¬IsDirAt fs r (home cur nd ++ [nd.name]) := by
        intro hat
        rw [(flagged_exst_dir hdir).mpr hat] at hexst
        cases hexst
      exact unpackNode_dir_new (flagged fs r (home cur nd) nd) hdir hneed hlev hexst hat hcall hfree
    · exact unpackNode_dir_old (flagged fs r (home cur nd) nd) hm hdir hneed hlev hexst hcall
        ((flagged_exst_dir hdir).mp hexst)

/-- An entry without its content is given up on for that. -/
theorem unpackNode_short (hm : Made fs G keys) (hneed : nd.need = true) (hlvl : level ≤ cur.length)
    (hnone : ¬Found fs r (home cur nd) nd) (hclear : Clear fs r keys (home cur nd) nd)
    (hdata : ¬Supplied nd data) :
    ∃ w, unpackNode ⟨G, hand fs r cur, level, data⟩ (flagged fs r (home cur nd) nd) = .error w ∧
      ¬PathFault (.error w : Except Warn Unit) := by
  obtain ⟨hdir, hload⟩ := not_forall.mp hdata
  have hexst : (flagged fs r (home cur nd) nd).exst = false := flagged_exst_leaf hdir
  obtain ⟨hfree, -⟩ := (clear_iff hm hnone hexst).mp hclear
  have hcall := hm.refuses_of_not_found hnone
  rw [home_leaf hdir] at hfree hcall
  exact unpackNode_leaf_short (flagged fs r (home cur nd) nd) hdir hneed hlvl hload hcall hfree

/-- An entry that something hinders is given up on. -/
theorem unpackNode_fault (hm : Made fs G keys) (hneed : nd.need = true)
    (hlev : Leveled cur.length (nd :: nds)) (hlvl : level ≤ cur.length)
    (hnone : ¬Found fs r (home cur nd) nd) (hclear : ¬Clear fs r keys (home cur nd) nd)
    (hdata : Supplied nd data) :
    PathFault (unpackNode ⟨G, hand fs r cur, level, data⟩ (flagged fs r (home cur nd) nd)) := by
  have hexst : (flagged fs r (home cur nd) nd).exst = false := by
    by_contra hexst
    exact hclear fun h => absurd h hexst
  have hcall := hm.refuses_of_not_found hnone
  rw [clear_iff hm hnone hexst, not_and_or] at hclear
  rcases hdir : nd.isDir with - | -
  · rw [home_leaf hdir] at hcall hclear
    refine unpackNode_leaf_fault (flagged fs r (home cur nd) nd) hdir hneed hlvl
      (hdata hdir) hcall ?_
    rcases hclear with htaken | hlink
    · exact .inr htaken
    · push Not at hlink
      exact .inl hlink.2
  · rcases hclear with htaken | hlink
    · exact unpackNode_dir_fault (flagged fs r (home cur nd) nd) hdir hneed hlev hexst hcall htaken
    · exact absurd (fun h => absurd h (by simp [hdir])) hlink

end Step

/-! ### The whole index -/

lemma attainable_cons (nd : Node) (nds : List Node) :
    attainable (nd :: nds) = if Oversize nd then [] else nd :: attainable nds := by
  rw [attainable, takeWhile_cons]
  by_cases h : Oversize nd <;> simp [h, attainable]

lemma spots_cons (cur : List Name) (nd : Node) (nds : List Node) :
    spots fs r cur (nd :: nds) =
      if (flagged fs r (home cur nd) nd).exst then spots fs r (after cur nd) nds
      else spot fs r (home cur nd) nd :: spots fs r (after cur nd) nds := by
  rw [spots, placed, filter_cons]
  rcases (flagged fs r (home cur nd) nd).exst <;> simp [spots]

/-- Content for one entry: as many bytes as it says, none of them zero. -/
def fill (nd : Node) : List UInt8 := if nd.isDir then [] else replicate nd.size 1

lemma supplied_fill (hsize : ¬Oversize nd) (data : List UInt8) : Supplied nd (fill nd ++ data) := by
  intro hdir
  have hfill : fill nd = List.replicate nd.size 1 := if_neg (by simp [hdir])
  rw [hfill]
  refine ⟨by simp, fun hlink => ⟨?_, ?_⟩⟩
  · by_contra hpage
    exact hsize ⟨hdir, hlink, Nat.lt_of_not_le hpage⟩
  · rw [take_left' length_replicate]
    simp

lemma contentAfter_fill (nd : Node) (data : List UInt8) :
    contentAfter nd (fill nd ++ data) = data := by
  rw [contentAfter, fill]
  split
  · rfl
  · exact drop_left' length_replicate

lemma grown_fill (G : Fs (α × List Name)) (h : List Name) (nd : Node) (data : List UInt8) :
    grown fs r G h nd (fill nd ++ data) = grown fs r G h nd (fill nd) := by
  have hleaf : nd.isDir = false → (fill nd ++ data).take nd.size = (fill nd).take nd.size := by
    intro hdir
    have hlen : (fill nd).length = nd.size := by simp [fill, hdir]
    rw [take_left' hlen, take_of_length_le hlen.le]
  rw [grown, grown]
  rcases hdir : nd.isDir with - | -
  · simp only [leafEnt, hleaf hdir]
  · rfl

variable (fs r) in
/-- **Nothing gets in its own way**: the entries have different spots, none of them taken
before, and all are sound. -/
structure Unpackable (keys : List ((α × List Name) × Name)) (cur : List Name) (nds : List Node) :
    Prop where
  nodup : (spots fs r cur nds).Nodup
  fresh : ∀ k ∈ spots fs r cur nds, k ∉ keys
  sound : ∀ x ∈ placed cur nds, Sound fs r x.1 x.2

lemma unpackable_cons {cur : List Name}
    {nds : List Node} :
    Unpackable fs r keys cur (nd :: nds) ↔ Clear fs r keys (home cur nd) nd ∧
      Unpackable fs r (taken fs r keys (home cur nd) nd) (after cur nd) nds := by
  rcases hexst : (flagged fs r (home cur nd) nd).exst with - | -
  · have hspots : spots fs r cur (nd :: nds)
        = spot fs r (home cur nd) nd :: spots fs r (after cur nd) nds := by
      rw [spots_cons, hexst]
      rfl
    have htaken : taken fs r keys (home cur nd) nd = spot fs r (home cur nd) nd :: keys := by
      rw [taken, hexst]
      rfl
    constructor
    · rintro ⟨hnodup, hfresh, hsound⟩
      rw [hspots] at hnodup hfresh
      obtain ⟨hnot, hnodup⟩ := nodup_cons.mp hnodup
      obtain ⟨hspot, hfresh⟩ := forall_mem_cons.mp hfresh
      obtain ⟨hhead, hsound⟩ := forall_mem_cons.mp hsound
      refine ⟨fun _ => ⟨hspot, hhead⟩, hnodup, ?_, hsound⟩
      intro k hk hmem
      rw [htaken] at hmem
      rcases mem_cons.mp hmem with rfl | hmem
      · exact hnot hk
      · exact hfresh k hk hmem
    · rintro ⟨hclear, hnodup, hfresh, hsound⟩
      obtain ⟨hspot, hhead⟩ := hclear hexst
      rw [htaken] at hfresh
      refine ⟨?_, ?_, ?_⟩
      · rw [hspots]
        exact nodup_cons.mpr ⟨fun hmem => hfresh _ hmem mem_cons_self, hnodup⟩
      · rw [hspots]
        refine forall_mem_cons.mpr ⟨hspot, ?_⟩
        exact fun k hk hmem => hfresh k hk (mem_cons_of_mem _ hmem)
      · exact forall_mem_cons.mpr ⟨hhead, hsound⟩
  · have hspots : spots fs r cur (nd :: nds) = spots fs r (after cur nd) nds := by
      rw [spots_cons, hexst]
      rfl
    have htaken : taken fs r keys (home cur nd) nd = keys := by
      rw [taken, hexst]
      rfl
    have hhead : Sound fs r (home cur nd) nd := by
      have hdir : nd.isDir = true := by
        by_contra hdir
        rw [flagged_exst_leaf (Bool.not_eq_true _ ▸ hdir)] at hexst
        cases hexst
      have hat := (flagged_exst_dir hdir).mp hexst
      exact ⟨fun _ h => absurd hat h, fun h => absurd h (by simp [hdir])⟩
    have hclear : Clear fs r keys (home cur nd) nd := by
      intro h
      rw [hexst] at h
      cases h
    rw [htaken]
    constructor
    · rintro ⟨hnodup, hfresh, hsound⟩
      rw [hspots] at hnodup hfresh
      exact ⟨hclear, hnodup, hfresh, (forall_mem_cons.mp hsound).2⟩
    · rintro ⟨-, hnodup, hfresh, hsound⟩
      rw [← hspots] at hnodup hfresh
      exact ⟨hnodup, hfresh, forall_mem_cons.mpr ⟨hhead, hsound⟩⟩

/-- **Unpacking after a check that found nothing**: it never gives up on a path, whatever the
content, exactly if nothing it can get to is in its own way. -/
theorem unpackNodes_iff {cur : List Name} {nds : List Node} {level : ℕ} (hm : Made fs G keys)
    (hneed : ∀ nd ∈ nds, nd.need = true) (hlev : Leveled cur.length nds)
    (hlvl : level ≤ cur.length) (hnone : ∀ x ∈ placed cur nds, ¬Found fs r x.1 x.2) :
    (∀ data, ¬PathFault (unpackNodes ⟨G, hand fs r cur, level, data⟩ (flag fs r cur nds))) ↔
      Unpackable fs r keys cur (attainable nds) := by
  induction nds generalizing G keys cur level with
  | nil =>
    refine ⟨fun _ => ⟨nodup_nil, nofun, nofun⟩, fun _ data => ?_⟩
    exact id
  | cons nd nds ih =>
    obtain ⟨hnd, hneed⟩ := forall_mem_cons.mp hneed
    obtain ⟨hhead, hnone⟩ := forall_mem_cons.mp hnone
    rw [attainable_cons]
    by_cases hsize : Oversize nd
    · rw [if_pos hsize]
      refine ⟨fun _ => ⟨nodup_nil, nofun, nofun⟩, fun _ data => ?_⟩
      obtain ⟨hdir, hlink, hpage⟩ := hsize
      have hbig : unpackNode ⟨G, hand fs r cur, level, data⟩ (flagged fs r (home cur nd) nd)
          = .error ⟨none, (hand fs r cur).path ++ [nd.name], .E2BIG⟩ := by
        rw [unpackNode_leaf_eq (flagged fs r (home cur nd) nd) hdir hnd hlvl]
        exact (if_pos hlink).trans (if_pos hpage)
      rw [flag, unpackNodes, hbig]
      simp [bind, Except.bind, PathFault]
    rw [if_neg hsize, unpackable_cons]
    have hlvl' := levelAfter_le hlev hlvl
    constructor
    · intro hall
      have hclear : Clear fs r keys (home cur nd) nd := by
        by_contra hclear
        have hfault : PathFault (unpackNode ⟨G, hand fs r cur, level, fill nd ++ []⟩
            (flagged fs r (home cur nd) nd)) :=
          unpackNode_fault hm hnd hlev hlvl hhead hclear (supplied_fill hsize [])
        refine hall (fill nd ++ []) ?_
        rw [flag, unpackNodes]
        exact hfault.bind _
      refine ⟨hclear, (ih (made_grown hm hhead hclear (fill nd)) hneed hlev.tail hlvl' hnone).mp ?_⟩
      intro data
      have hdata := hall (fill nd ++ data)
      rw [flag, unpackNodes, unpackNode_ok hm hnd hlev hlvl hhead hclear
        (supplied_fill hsize data), contentAfter_fill, grown_fill] at hdata
      exact hdata
    · rintro ⟨hclear, hrest⟩ data
      rw [flag, unpackNodes]
      by_cases hdata : Supplied nd data
      · rw [unpackNode_ok hm hnd hlev hlvl hhead hclear hdata]
        exact (ih (made_grown hm hhead hclear data) hneed hlev.tail hlvl' hnone).mpr hrest _
      · obtain ⟨w, hstep, hw⟩ := unpackNode_short hm hnd hlvl hhead hclear hdata
        rw [hstep]
        exact hw

/-! ### The check and what follows it -/

/-- A package that is wanted whole, before the check. -/
structure Package where
  nodes : List Node
  leveled : Leveled 0 nodes
  needed : ∀ nd ∈ nodes, nd.need = true
  unseen : ∀ nd ∈ nodes, nd.exst = false

variable (fs r) in
/-- **The check is exact**: it warns if and only if something is in the way, it sets the bit
on the directories that are there, and if it does not warn then unpacking meets nothing it
did not expect. -/
structure Exact (pkg : Package) : Prop where
  conflict : (checkConflict fs r pkg.nodes).2 ≠ [] ↔
    ∃ x ∈ placed [] pkg.nodes, InTheWay fs r x.1 x.2
  bits : ∀ x ∈ placed [] (checkConflict fs r pkg.nodes).1, BitRight fs r x.1 x.2
  unpacks : (checkConflict fs r pkg.nodes).2 = [] → ∀ data,
    ¬PathFault (unpackContent fs.grow (r, []) (checkConflict fs r pkg.nodes).1 data)

lemma made_nil : Made fs fs.grow [] := ⟨fun _ _ => rfl, nofun, nofun, rfl, rfl⟩

/-- **When the check is exact**: it is never misled by a directory further up, and either
something really is in the way, or nothing is found at all and nothing the package has gets
in its own way. -/
theorem conflict_exact_iff (fs : Fs α) (r : α) (pkg : Package) :
    Exact fs r pkg ↔
      (∀ x ∈ placed [] pkg.nodes, ¬Misled fs r x.1 x.2 ∧ ¬Denied fs r x.1 x.2) ∧
      ((∃ x ∈ placed [] pkg.nodes, InTheWay fs r x.1 x.2) ∨
        (∀ x ∈ placed [] pkg.nodes, ¬Found fs r x.1 x.2) ∧
          Unpackable fs r [] [] (attainable pkg.nodes)) := by
  have hlev : Leveled ([] : List Name).length pkg.nodes := pkg.leveled
  obtain ⟨hbits, hcheck⟩ := checkAll_stand (r := r) hlev pkg.needed pkg.unseen
  simp only [Misjudged, not_or] at hbits hcheck
  have hunpack : (∀ x ∈ placed [] pkg.nodes, ¬Found fs r x.1 x.2) →
      ((∀ data, ¬PathFault (unpackContent fs.grow (r, []) (flag fs r [] pkg.nodes) data)) ↔
        Unpackable fs r [] [] (attainable pkg.nodes)) :=
    unpackNodes_iff made_nil pkg.needed pkg.leveled (Nat.zero_le _)
  constructor
  · rintro ⟨hconflict, hright, hunpacks⟩
    have hmis := hbits.mp hright
    obtain ⟨hflag, hwarn⟩ := hcheck hmis
    refine ⟨hmis, ?_⟩
    by_cases hway : ∃ x ∈ placed [] pkg.nodes, InTheWay fs r x.1 x.2
    · exact .inl hway
    have hquiet : (checkConflict fs r pkg.nodes).2 = [] := by
      by_contra hws
      exact hway (hconflict.mp hws)
    have hnone : ∀ x ∈ placed [] pkg.nodes, ¬Found fs r x.1 x.2 :=
      fun x hx hfound => hwarn.mpr ⟨x, hx, hfound⟩ hquiet
    have hdata := hunpacks hquiet
    rw [show (checkConflict fs r pkg.nodes).1 = _ from hflag] at hdata
    exact .inr ⟨hnone, (hunpack hnone).mp hdata⟩
  · rintro ⟨hmis, hcase⟩
    obtain ⟨hflag, hwarn⟩ := hcheck hmis
    refine ⟨⟨?_, ?_⟩, hbits.mpr hmis, ?_⟩
    · intro hws
      rcases hcase with hway | ⟨hnone, -⟩
      · exact hway
      · obtain ⟨x, hx, hfound⟩ := hwarn.mp hws
        exact absurd hfound (hnone x hx)
    · rintro ⟨x, hx, hway⟩
      exact hwarn.mpr ⟨x, hx, hway.found⟩
    · intro hquiet
      rcases hcase with ⟨x, hx, hway⟩ | ⟨hnone, hunp⟩
      · exact absurd hquiet (hwarn.mpr ⟨x, hx, hway.found⟩)
      · rw [show (checkConflict fs r pkg.nodes).1 = _ from hflag]
        exact (hunpack hnone).mpr hunp

/-- A file system with nothing but a file `x` at the top. -/
def squatted : Fs ℕ :=
  { ents := [((0, [120]), .file [] false)], follow := fun _ _ => .error .ENOENT }

/-- A package of a directory `a` with a file `x` in it. -/
def nested : Package where
  nodes := [⟨[97], 0, 0x80, true, true, false, false⟩, ⟨[120], 0, 0x04, true, true, false, false⟩]
  leveled := by decide
  needed := by decide
  unseen := by decide

/-- **A file beside is taken for one beneath**: `a/x` is refused because there is a file `x`
next to where `a` would be. -/
theorem beside_taken_for_beneath :
    (checkConflict squatted 0 nested.nodes).2 = [⟨none, [[120]], .EEXIST⟩] ∧
      ¬Exact squatted 0 nested := by
  have hws : (checkConflict squatted 0 nested.nodes).2 = [⟨none, [[120]], .EEXIST⟩] := by decide
  refine ⟨hws, fun h => ?_⟩
  obtain ⟨x, hx, hhome, hfound⟩ := h.conflict.mp (by rw [hws]; exact nofun)
  have hmem : x = ([], nested.nodes[0]) ∨ x = ([([97] : Name)], nested.nodes[1]) := by
    simpa [placed, nested, home, after, Node.isDir, Node.lvl] using hx
  rcases hmem with rfl | rfl
  · obtain ⟨e, he, hne⟩ := hfound
    cases he
    exact hne rfl
  · exact absurd hhome (by decide)

end Unpack

end Mpkg

end Minibase
