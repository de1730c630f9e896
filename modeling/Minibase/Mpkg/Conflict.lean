import Minibase.Mpkg.Deploy

/-!
# What is in the way

A path of the package leads some way into the file system and then ends, at the deepest
directory that exists: `Mpkg.anchor` is that directory and what is left of the path. The check
stands there (`Mpkg.stand`), because it does not push what it cannot open, and looks for the name
of an entry there, whether or not that is where the entry belongs. So an entry in a missing
directory is taken for whatever has its name further up (`Mpkg.Found`), and if that is a
directory, the walk goes on in it (`Mpkg.Misled`). It also takes a directory for missing that it
cannot open (`Mpkg.Denied`).

`Mpkg.conflict_exact_iff`: **the check is exact, as long as it misjudges nothing, nothing is found
where nothing is in the way, and no two entries claim the same place.**
-/

namespace Minibase.Mpkg

open List

section Anchor

variable {α : Type} [DecidableEq α] (fs : Fs α)

/-- The deepest directory along a path, and the rest of the path. -/
def anchor : α → List Name → α × List Name
  | d, [] => (d, [])
  | d, n :: p =>
    match fs.enter d n with
    | .ok d' => anchor d' p
    | .error _ => (d, n :: p)

/-- The part of a path that is there. -/
def existing : α → List Name → List Name
  | _, [] => []
  | d, n :: p =>
    match fs.enter d n with
    | .ok d' => n :: existing d' p
    | .error _ => []

lemma existing_append_anchor (d : α) (p : List Name) :
    existing fs d p ++ (anchor fs d p).2 = p := by
  induction p generalizing d with
  | nil => rfl
  | cons n p ih =>
    rw [existing, anchor]
    split
    · rename_i d' h
      simp only [cons_append]
      rw [ih d']
    · rfl

variable {fs}

lemma existing_take (d : α) (p : List Name) (k : ℕ) :
    existing fs d (p.take k) = (existing fs d p).take k := by
  induction p generalizing d k with
  | nil =>
    rw [take_nil]
    simp [existing]
  | cons n p ih =>
    obtain - | k := k
    · rfl
    rw [take_succ_cons, existing, existing]
    split
    · rw [take_succ_cons, ih]
    · rfl

/-- **One name further**: the directory is there and has the name, or the rest gets longer. -/
theorem anchor_snoc (d : α) (p : List Name) (n : Name) :
    anchor fs d (p ++ [n]) =
      if (anchor fs d p).2 = [] then
        match fs.enter (anchor fs d p).1 n with
        | .ok d' => (d', [])
        | .error _ => ((anchor fs d p).1, [n])
      else ((anchor fs d p).1, (anchor fs d p).2 ++ [n]) := by
  induction p generalizing d with
  | nil =>
    rw [nil_append, anchor, anchor, if_pos rfl]
    rfl
  | cons m p ih =>
    rw [cons_append, anchor, anchor]
    split
    · rename_i d' h
      exact ih d'
    · rw [if_neg (cons_ne_nil m p)]
      rfl

lemma anchor_existing (d : α) (p : List Name) :
    anchor fs d (existing fs d p) = ((anchor fs d p).1, []) := by
  induction p generalizing d with
  | nil => rfl
  | cons n p ih =>
    rw [existing, anchor]
    rcases h : fs.enter d n with e | d'
    · rfl
    · show anchor fs d (n :: existing fs d' p) = _
      rw [anchor, h]
      exact ih d'

lemma existing_of_anchor {d : α} {p : List Name} (h : (anchor fs d p).2 = []) :
    existing fs d p = p := by
  have := existing_append_anchor fs d p
  rw [h, append_nil] at this
  exact this

lemma existing_snoc_ok {d d' : α} {p : List Name} {n : Name} (h : (anchor fs d p).2 = [])
    (hopen : fs.enter (anchor fs d p).1 n = .ok d') : existing fs d (p ++ [n]) = p ++ [n] := by
  apply existing_of_anchor
  rw [anchor_snoc, if_pos h, hopen]

lemma existing_snoc_of_not_ok {d : α} {p : List Name} {n : Name}
    (h : (anchor fs d p).2 = [] → ∀ d', fs.enter (anchor fs d p).1 n ≠ .ok d') :
    existing fs d (p ++ [n]) = existing fs d p := by
  have hrest : (anchor fs d (p ++ [n])).2 = (anchor fs d p).2 ++ [n] := by
    rw [anchor_snoc]
    split
    · rename_i hnil
      rcases hopen : fs.enter (anchor fs d p).1 n with e | d'
      · rw [hnil]
        rfl
      · exact absurd hopen (h hnil d')
    · rfl
  have hp := existing_append_anchor fs d p
  have hpn := existing_append_anchor fs d (p ++ [n])
  rw [hrest, ← append_assoc, append_left_inj] at hpn
  exact append_cancel_right (hpn.trans hp.symm)

end Anchor

/-! ### What the check sees -/

section Check

variable {α : Type} [DecidableEq α] (fs : Fs α) (r : α)

/-- The path is that of a directory. -/
def IsDirAt (p : List Name) : Prop := (anchor fs r p).2 = []
deriving Decidable

/-- Something of that name is found from the deepest directory there is, or the name is
refused there: for a leaf, anything; for a directory, something else than a directory. -/
def Found (h : List Name) (nd : Node) : Prop :=
  if nd.isDir then ∃ e, fs.openDir (anchor fs r h).1 nd.name = .error e ∧ e ≠ .ENOENT
  else fs.stat (anchor fs r h).1 nd.name ≠ .error .ENOENT

/-- **A conflict**: the path of a leaf exists, or that of a directory exists and is not a
directory. -/
def InTheWay (h : List Name) (nd : Node) : Prop :=
  IsDirAt fs r h ∧
    if nd.isDir then ∃ e, fs.enter (anchor fs r h).1 nd.name = .error e ∧ e ≠ .ENOENT
    else fs.look (anchor fs r h).1 nd.name ≠ none

/-- A directory in a missing directory has the name of a directory further up. -/
def Misled (h : List Name) (nd : Node) : Prop :=
  nd.isDir = true ∧ ¬IsDirAt fs r h ∧ ∃ d, fs.openDir (anchor fs r h).1 nd.name = .ok d

/-- A directory is there, but its name is refused. -/
def Denied (h : List Name) (nd : Node) : Prop :=
  nd.isDir = true ∧ IsDirAt fs r (h ++ [nd.name]) ∧ fs.refuses (anchor fs r h).1 nd.name ≠ none

/-- **The bit is right**: it is set on the directories that are there. -/
def BitRight (h : List Name) (nd : Node) : Prop :=
  nd.isDir = true → (nd.exst = true ↔ IsDirAt fs r (h ++ [nd.name]))

/-- Where the check stands, in the directory a path leads to. -/
def stand (cur : List Name) : Walk α :=
  Walk.tower (fun p => (anchor fs r p).1) (existing fs r cur)

/-- A node with the bit it should have. -/
def flagged (h : List Name) (nd : Node) : Node :=
  { nd with exst := nd.isDir && decide (IsDirAt fs r (h ++ [nd.name])) }

/-- The nodes with the bits they should have. -/
def flag : List Name → List Node → List Node
  | _, [] => []
  | cur, nd :: nds => flagged fs r (home cur nd) nd :: flag (after cur nd) nds

variable {fs r}

lemma at_stand (cur : List Name) : (stand fs r cur).at_ = (anchor fs r cur).1 := by
  rw [stand, Walk.at_tower, anchor_existing]

lemma rewind_stand (cur : List Name) (lvl : ℕ) :
    (stand fs r cur).rewind lvl = stand fs r (cur.take lvl) := by
  rw [stand, Walk.rewind_tower, stand, existing_take]

lemma depth_stand_le (cur : List Name) : (stand fs r cur).depth ≤ cur.length := by
  rw [stand, Walk.depth_tower]
  have := congrArg length (existing_append_anchor fs r cur)
  rw [length_append] at this
  omega

variable {h : List Name} {n : Name}

/-- A directory that is opened where it belongs is where the check stands next. -/
theorem push_stand {d : α} (hdir : IsDirAt fs r h)
    (hopen : fs.enter (anchor fs r h).1 n = .ok d) :
    (stand fs r h).push n d = stand fs r (h ++ [n]) := by
  have hd : (anchor fs r (h ++ [n])).1 = d := by
    rw [anchor_snoc, if_pos (show (anchor fs r h).2 = [] from hdir), hopen]
  rw [stand, stand, existing_snoc_ok hdir hopen, existing_of_anchor hdir, Walk.tower_snoc, hd]

/-- A directory that is not there leaves the check where it is. -/
theorem stand_of_not_ok (hopen : IsDirAt fs r h → ∀ d, fs.enter (anchor fs r h).1 n ≠ .ok d) :
    stand fs r (h ++ [n]) = stand fs r h := by
  rw [stand, stand, existing_snoc_of_not_ok hopen]

lemma isDirAt_snoc :
    IsDirAt fs r (h ++ [n]) ↔ IsDirAt fs r h ∧ ∃ d, fs.enter (anchor fs r h).1 n = .ok d := by
  rw [IsDirAt, anchor_snoc]
  split
  · rename_i hnil
    rcases hopen : fs.enter (anchor fs r h).1 n with e | d
    · simp
    · simpa [IsDirAt] using hnil
  · rename_i hnil
    simp [IsDirAt, hnil]

lemma bitRight_flagged (h : List Name) (nd : Node) : BitRight fs r h (flagged fs r h nd) := by
  intro hdir
  have : nd.isDir = true := hdir
  simp [flagged, this]

variable {nd : Node} {nds : List Node}

lemma checkLeaf_ne_nil_iff (hdir : nd.isDir = false) (hneed : nd.need = true) :
    checkLeaf fs (stand fs r h) nd ≠ [] ↔ Found fs r h nd := by
  rw [Found, hdir, checkLeaf, at_stand]
  rcases fs.stat (anchor fs r h).1 nd.name with e | e
  · cases e <;> simp [hneed]
  · simp [hneed]

lemma checkDir_stand (hneed : nd.need = true) (hlen : h.length < MAXDEPTH) :
    checkDir fs (stand fs r h) nd =
      match fs.openDir (anchor fs r h).1 nd.name with
      | .error .ENOENT => (stand fs r h, nd, [])
      | .error e => (stand fs r h, nd, [⟨none, (stand fs r h).path ++ [nd.name], e⟩])
      | .ok d => ((stand fs r h).push nd.name d, { nd with exst := true }, []) := by
  have hmax : ¬MAXDEPTH ≤ (stand fs r h).depth := by
    have : (stand fs r h).depth ≤ h.length := depth_stand_le h
    omega
  rw [← at_stand]
  exact (if_neg (not_not_intro hneed)).trans (if_neg hmax)

variable (fs r) in
/-- The check takes a directory for another, or for missing. -/
def Misjudged (h : List Name) (nd : Node) : Prop := Misled fs r h nd ∨ Denied fs r h nd

/-- **One directory**, unless the check misjudges it: the bit is right, the walk goes on from
the right place, and there is a warning if something is found. -/
theorem checkDir_right (hdir : nd.isDir = true) (hneed : nd.need = true)
    (hexst : nd.exst = false) (hlen : h.length < MAXDEPTH) (hright : ¬Misjudged fs r h nd) :
    ∃ ws, checkDir fs (stand fs r h) nd = (stand fs r (h ++ [nd.name]), flagged fs r h nd, ws) ∧
      (ws ≠ [] ↔ Found fs r h nd) := by
  rw [Misjudged, not_or] at hright
  rw [checkDir_stand hneed hlen, Found, if_pos hdir]
  rcases hopen : fs.openDir (anchor fs r h).1 nd.name with e | d
  · have hnot : ¬IsDirAt fs r (h ++ [nd.name]) := by
      intro hthere
      obtain ⟨-, d, henter⟩ := isDirAt_snoc.mp hthere
      have hfree : fs.refuses (anchor fs r h).1 nd.name = none := by
        by_contra hrefused
        exact hright.2 ⟨hdir, hthere, hrefused⟩
      rw [Fs.openDir_ok.mpr ⟨hfree, henter⟩] at hopen
      cases hopen
    have hno : IsDirAt fs r h → ∀ d, fs.enter (anchor fs r h).1 nd.name ≠ .ok d :=
      fun hhome d henter => hnot (isDirAt_snoc.mpr ⟨hhome, d, henter⟩)
    have hflag : flagged fs r h nd = nd := by
      rw [flagged, decide_eq_false hnot, Bool.and_false, ← hexst]
    rw [stand_of_not_ok hno, hflag]
    cases e
    case ENOENT => exact ⟨[], rfl, by simp⟩
    all_goals exact ⟨_, rfl, by simp⟩
  · have hhome : IsDirAt fs r h := by
      by_contra hhome
      exact hright.1 ⟨hdir, hhome, d, hopen⟩
    have henter := (Fs.openDir_ok.mp hopen).2
    have hyes : IsDirAt fs r (h ++ [nd.name]) := isDirAt_snoc.mpr ⟨hhome, d, henter⟩
    refine ⟨[], ?_, by simp⟩
    rw [← push_stand hhome henter, flagged, decide_eq_true hyes, hdir]
    rfl

/-- A check that misjudges sets a bit it should not, or does not set one it should. -/
theorem checkDir_misjudged (hneed : nd.need = true) (hexst : nd.exst = false)
    (hlen : h.length < MAXDEPTH) (hmis : Misjudged fs r h nd) :
    ∃ w b ws, checkDir fs (stand fs r h) nd = (w, { nd with exst := b }, ws) ∧
      ¬BitRight fs r h { nd with exst := b } := by
  rw [checkDir_stand hneed hlen]
  rcases hmis with ⟨hdir, hhome, d, hopen⟩ | ⟨hdir, hthere, hrefused⟩
  · rw [hopen]
    refine ⟨_, true, _, rfl, fun hbit => ?_⟩
    exact hhome (isDirAt_snoc.mp ((hbit hdir).mp rfl)).1
  · obtain ⟨e, he⟩ := Option.ne_none_iff_exists'.mp hrefused
    have hopen : fs.openDir (anchor fs r h).1 nd.name = .error e := by rw [Fs.openDir, Fs.call, he]
    have hclear : nd = { nd with exst := false } := by rw [← hexst]
    refine ⟨stand fs r h, false, [⟨none, (stand fs r h).path ++ [nd.name], e⟩], ?_, fun hbit => ?_⟩
    · obtain ⟨e, hne⟩ := e
      rw [hopen, ← hclear]
      cases e
      case ENOENT => exact absurd rfl hne
      all_goals rfl
    · exact absurd ((hbit hdir).mpr hthere) Bool.false_ne_true

variable {cur : List Name}

/-- **One entry**, unless the check misjudges it. -/
theorem checkNode_right (hneed : nd.need = true) (hexst : nd.exst = false)
    (hlev : Leveled cur.length (nd :: nds)) (hright : ¬Misjudged fs r (home cur nd) nd) :
    ∃ ws, checkNode fs (stand fs r cur) nd
        = (stand fs r (after cur nd), flagged fs r (home cur nd) nd, ws) ∧
      (ws ≠ [] ↔ Found fs r (home cur nd) nd) := by
  rcases hdir : nd.isDir with - | -
  · have hflag : flagged fs r (home cur nd) nd = nd := by
      rw [flagged, hdir, Bool.false_and, ← hexst]
    rw [checkNode, if_neg (by simp [hdir]), hflag, after_leaf hdir, home_leaf hdir]
    exact ⟨_, rfl, checkLeaf_ne_nil_iff hdir hneed⟩
  · rw [checkNode, if_pos hdir, rewind_stand, ← home_dir hdir, after_dir hdir, ← home_dir hdir]
    exact checkDir_right hdir hneed hexst (hlev.home_lt hdir) hright

lemma checkNode_misjudged (hneed : nd.need = true) (hexst : nd.exst = false)
    (hlev : Leveled cur.length (nd :: nds)) (hmis : Misjudged fs r (home cur nd) nd) :
    ∃ w b ws, checkNode fs (stand fs r cur) nd = (w, { nd with exst := b }, ws) ∧
      ¬BitRight fs r (home cur nd) { nd with exst := b } := by
  have hdir : nd.isDir = true := hmis.elim And.left And.left
  rw [checkNode, if_pos hdir, rewind_stand, ← home_dir hdir]
  exact checkDir_misjudged hneed hexst (hlev.home_lt hdir) hmis

/-- **The check, from where it should stand**: all bits are right exactly if it
misjudges nothing, and then it warns exactly if something is found. -/
theorem checkAll_stand (hlev : Leveled cur.length nds)
    (hneed : ∀ nd ∈ nds, nd.need = true) (hexst : ∀ nd ∈ nds, nd.exst = false) :
    ((∀ x ∈ placed cur (checkAll fs (stand fs r cur) nds).1, BitRight fs r x.1 x.2) ↔
      ∀ x ∈ placed cur nds, ¬Misjudged fs r x.1 x.2) ∧
    ((∀ x ∈ placed cur nds, ¬Misjudged fs r x.1 x.2) →
      (checkAll fs (stand fs r cur) nds).1 = flag fs r cur nds ∧
      ((checkAll fs (stand fs r cur) nds).2 ≠ [] ↔ ∃ x ∈ placed cur nds, Found fs r x.1 x.2)) := by
  induction nds generalizing cur with
  | nil => simp [placed, checkAll, flag]
  | cons nd nds ih =>
    obtain ⟨hnd, hneed⟩ := forall_mem_cons.mp hneed
    obtain ⟨hnx, hexst⟩ := forall_mem_cons.mp hexst
    have hlev' : Leveled (after cur nd).length nds := hlev.tail
    obtain ⟨ihb, ihf⟩ := ih hlev' hneed hexst
    by_cases hmis : Misjudged fs r (home cur nd) nd
    · obtain ⟨w, b, ws, hcheck, hbit⟩ := checkNode_misjudged hnd hnx hlev hmis
      refine ⟨⟨fun h => ?_, fun h => ?_⟩, fun h => ?_⟩
      · rw [checkAll, hcheck] at h
        exact absurd (h _ mem_cons_self) hbit
      · exact absurd hmis (h _ mem_cons_self)
      · exact absurd hmis (h _ mem_cons_self)
    obtain ⟨ws, hcheck, hws⟩ := checkNode_right hnd hnx hlev hmis
    rw [checkAll, hcheck]
    simp only [placed, forall_mem_cons, exists_mem_cons_iff]
    refine ⟨⟨fun h => ⟨hmis, ihb.mp h.2⟩, fun h => ⟨bitRight_flagged _ nd, ihb.mpr h.2⟩⟩, ?_⟩
    rintro ⟨-, hrest⟩
    obtain ⟨hflag, hwarn⟩ := ihf hrest
    refine ⟨by rw [flag, hflag], ?_⟩
    rw [ne_eq, append_eq_nil_iff, not_and_or, ← ne_eq, ← ne_eq, hws, hwarn]

/-- Where nothing is found, the name is not refused. -/
theorem refuses_of_not_found (hnone : ¬Found fs r h nd) :
    fs.refuses (anchor fs r h).1 nd.name = none := by
  rw [Found] at hnone
  split_ifs at hnone with hdir
  · rcases hopen : fs.openDir (anchor fs r h).1 nd.name with e | d
    · have he : e = .ENOENT := by
        by_contra hne
        exact hnone ⟨e, hopen, hne⟩
      exact (Fs.call_missing (he ▸ hopen)).1
    · exact (Fs.openDir_ok.mp hopen).1
  · exact (Fs.stat_missing.mp (not_not.mp hnone)).1

/-- What is in the way is found. -/
theorem InTheWay.found (hway : InTheWay fs r h nd) : Found fs r h nd := by
  obtain ⟨-, hway⟩ := hway
  by_contra hnone
  have hfree := refuses_of_not_found hnone
  rw [Found] at hnone
  split_ifs at hway hnone with hdir
  · rw [Fs.openDir, Fs.call_of_free hfree] at hnone
    exact hnone hway
  · exact hway (Fs.stat_missing.mp (not_not.mp hnone)).2

end Check

end Minibase.Mpkg
