import Minibase.Mpkg.Deploy
import Minibase.Mpkg.Marks

/-!
# The index after the checks

The checks before unpacking only ever set bits: what an index says about names and levels,
its `Mpkg.outline`, stays as it was loaded. And though there are bits to leave
entries out, none is left out of a package that gets through
(`Mpkg.checkIndex_spec`): a node is marked as needed or as denied, and one that is
denied stops the whole package.
-/

namespace Minibase.Mpkg

open List Option

/-- The names and tags of an index. -/
def outline (nds : List Node) : List (Name × UInt8) := nds.map fun nd => (nd.name, nd.tag)

/-- A name that can stand in a line of a list, between slashes. -/
structure Proper (n : Name) : Prop where
  nonempty : n ≠ []
  noSlash : 47 ∉ n
  noNewline : 10 ∉ n

/-- The paths of the files and links, each as its directory and its name. -/
def leafPaths : List Name → List Node → List (List Name × Name)
  | _, [] => []
  | cur, nd :: nds =>
    if nd.isDir then leafPaths (after cur nd) nds else (cur, nd.name) :: leafPaths cur nds

/-! ### What depends on the outline alone -/

section Outline

variable {a b : List Node}

lemma outline_cons_inj {nd nd' : Node}
    (h : outline (nd :: a) = outline (nd' :: b)) :
    nd.name = nd'.name ∧ nd.isDir = nd'.isDir ∧ nd.lvl = nd'.lvl ∧ outline a = outline b := by
  obtain ⟨hhead, htail⟩ := cons.inj h
  obtain ⟨hname, htag⟩ := Prod.mk.inj hhead
  refine ⟨hname, ?_, ?_, htail⟩
  · rw [Node.isDir, Node.isDir, htag]
  · rw [Node.lvl, Node.lvl, htag]

lemma leveled_of_outline (h : outline a = outline b) {depth : ℕ} (hlev : Leveled depth a) :
    Leveled depth b := by
  induction a generalizing b depth with
  | nil =>
    obtain rfl : b = [] := map_eq_nil_iff.mp h.symm
    exact hlev
  | cons nd a ih =>
    rcases b with - | ⟨nd', b⟩
    · cases h
    obtain ⟨-, hdir, hlvl, htail⟩ := outline_cons_inj h
    rw [Leveled] at hlev ⊢
    rw [hdir, hlvl] at hlev
    split at hlev
    · rename_i hd
      rw [if_pos hd]
      exact ⟨hlev.1, hlev.2.1, ih htail hlev.2.2⟩
    · rename_i hd
      rw [if_neg hd]
      exact ih htail hlev

lemma leafPaths_of_outline (h : outline a = outline b) (cur : List Name) :
    leafPaths cur a = leafPaths cur b := by
  induction a generalizing b cur with
  | nil =>
    obtain rfl : b = [] := map_eq_nil_iff.mp h.symm
    rfl
  | cons nd a ih =>
    rcases b with - | ⟨nd', b⟩
    · cases h
    obtain ⟨hname, hdir, hlvl, htail⟩ := outline_cons_inj h
    have hafter : after cur nd = after cur nd' := by
      rw [after, after, home, home, hname, hdir, hlvl]
    rw [leafPaths, leafPaths, hdir, hafter, hname, ih htail, ih htail]

lemma forall_name_of_outline {P : Name → Prop} (h : outline a = outline b)
    (ha : ∀ nd ∈ a, P nd.name) : ∀ nd ∈ b, P nd.name := by
  have hnames : a.map Node.name = b.map Node.name := by
    have := congrArg (List.map Prod.fst) h
    rw [outline, outline, List.map_map, List.map_map] at this
    exact this
  intro nd hnd
  have hmem : nd.name ∈ a.map Node.name := hnames ▸ mem_map_of_mem hnd
  obtain ⟨nd', hnd', heq⟩ := mem_map.mp hmem
  exact heq ▸ ha nd' hnd'

lemma outline_of_bare (h : a.map bare = b.map bare) : outline a = outline b := by
  have := congrArg (List.map fun nd : Node => (nd.name, nd.tag)) h
  rw [List.map_map, List.map_map] at this
  exact this

end Outline

/-! ### Applying the rules -/

section Marking

variable {kind : Kind} {nodes : List Node}

lemma exists_painted_markDown (nodes : List Node) (i depth : ℕ) :
    ∃ S, Painted kind S nodes (markDown kind nodes i depth) := by
  rcases Nat.le_total i nodes.length with hi | hi
  · exact ⟨_, painted_markDown kind nodes hi depth⟩
  · refine ⟨fun _ => False, ?_⟩
    rw [markDown, take_of_length_le hi, drop_eq_nil_of_le hi, markRun, append_nil]
    exact painted_refl kind nodes

lemma exists_painted_markLeaf (nodes : List Node) (i : ℕ) :
    ∃ S, Painted kind S nodes (markLeaf kind nodes i) := by
  rw [markLeaf]
  split
  · exact ⟨_, painted_refl kind nodes⟩
  · rename_i nd hnd
    obtain ⟨T, hT⟩ := @exists_painted_markDown kind (nodes.set i (setMark kind nd)) (i + 1)
      (nd.lvl + 1)
    exact ⟨_, (painted_set kind hnd).trans hT⟩

lemma exists_painted_markEnd (nodes : List Node) (start : ℕ) (stack : List ℕ) (last : Name) :
    ∃ S, Painted kind S nodes (markEnd kind nodes start stack last) := by
  rw [markEnd]
  split
  · obtain ⟨S, hS⟩ := @exists_painted_markDown kind nodes start stack.length
    exact ⟨_, hS.trans (painted_markBack kind _ stack)⟩
  · split
    · exact ⟨_, painted_refl kind nodes⟩
    · rename_i i _
      obtain ⟨S, hS⟩ := @exists_painted_markLeaf kind nodes i
      exact ⟨_, hS.trans (painted_markBack kind _ stack)⟩

/-- Whatever a rule does, it does by marking. -/
theorem exists_painted_markFrom {b : List Node} {start d : ℕ} {stack : List ℕ} {dirs : List Name}
    {last : Name} (h : markFrom kind nodes start stack dirs last = .ok (b, d)) :
    ∃ S, Painted kind S nodes b := by
  induction dirs generalizing start stack with
  | nil =>
    cases h
    exact exists_painted_markEnd nodes start stack last
  | cons dir dirs ih =>
    rw [markFrom] at h
    obtain ⟨found, -, h⟩ := ok_of_bind h
    rcases found with - | ⟨start', stack'⟩
    · cases h
      exact ⟨_, painted_refl kind nodes⟩
    · exact ih h

lemma exists_painted_markPath {b : List Node} {depth d : ℕ} {path : List UInt8}
    (h : markPath kind nodes depth path = .ok (b, d)) : ∃ S, Painted kind S nodes b := by
  obtain ⟨_, -, h⟩ := ok_of_bind h
  exact exists_painted_markFrom h

end Marking

/-- A marked node is needed or denied. -/
def Judged (nds : List Node) : Prop := ∀ nd ∈ nds, nd.mark = true → nd.need = true ∨ nd.deny = true

lemma Judged.painted {kind : Kind} {S : ℕ → Prop} {a b : List Node} (h : Judged a)
    (hkind : kind ≠ .skip) (hpaint : Painted kind S a b) : Judged b := by
  intro nd hnd hmark
  obtain ⟨t, ht⟩ := mem_iff_getElem?.mp hnd
  by_cases hS : S t
  · rw [(hpaint t).1 hS] at ht
    obtain ⟨old, -, rfl⟩ := map_eq_some_iff.mp ht
    cases kind
    · exact .inl (by simp [setMark])
    · exact absurd rfl hkind
    · exact .inr (by simp [setMark])
  · rw [(hpaint t).2 hS] at ht
    exact h nd (mem_of_getElem? ht) hmark

lemma kindOf_ne_skip {flag : ℕ} {kind : Kind} (h : kindOf flag = .ok kind) : kind ≠ .skip := by
  rw [kindOf] at h
  split_ifs at h
  · cases h
    exact nofun
  · cases h
    exact nofun

/-- Whatever the rules are, they mark nodes as needed or denied and change nothing else. -/
theorem applyFrom_spec {k depth : ℕ} {area : List UInt8} {a b : List Node}
    (h : applyFrom k area a depth = .ok b) (ha : Judged a) :
    Judged b ∧ b.map bare = a.map bare := by
  induction k generalizing area a depth with
  | zero =>
    cases h
    exact ⟨ha, rfl⟩
  | succ k ih =>
    rw [applyFrom] at h
    split_ifs at h
    · cases h
      exact ⟨ha, rfl⟩
    obtain ⟨kind, hkind, h⟩ := ok_of_bind h
    obtain ⟨⟨c, d⟩, hmark, h⟩ := ok_of_bind h
    obtain ⟨S, hpaint⟩ := exists_painted_markPath hmark
    obtain ⟨hb, hbare⟩ := ih h (ha.painted (kindOf_ne_skip hkind) hpaint)
    exact ⟨hb, hbare.trans hpaint.map_bare⟩

/-! ### What gets through -/

lemma checkNames_ok {nds : List Node} (h : checkNames nds = .ok ()) :
    ∀ nd ∈ nds, Proper nd.name := by
  induction nds with
  | nil => exact fun nd hnd => nomatch hnd
  | cons nd nds ih =>
    obtain ⟨_, hempty, h⟩ := ok_of_bind h
    obtain ⟨_, -, h⟩ := ok_of_bind h
    obtain ⟨_, hchars, h⟩ := ok_of_bind h
    have hgood : ∀ c ∈ nd.name, ¬(c < 0x20 || c = 47) = true := by
      simpa [checkChars] using refuse_eq_ok_iff.mp hchars
    refine forall_mem_cons.mpr ⟨⟨refuse_eq_ok_iff.mp hempty, ?_, ?_⟩, ih h⟩
    · exact fun hmem => hgood 47 hmem (by decide)
    · exact fun hmem => hgood 10 hmem (by decide)

/-- **Everything in a package that gets through is needed**, and has a proper name. -/
theorem checkIndex_spec {rs : Rules} {a b : List Node} (h : checkIndex rs a = .ok b)
    (ha : ∀ nd ∈ a, Loaded nd) :
    outline b = outline a ∧ (∀ nd ∈ b, nd.need = true) ∧ ∀ nd ∈ b, Proper nd.name := by
  obtain ⟨_, hnames, h⟩ := ok_of_bind h
  obtain ⟨c, happly, h⟩ := ok_of_bind h
  have hfresh : Judged a := by
    intro nd hnd hmark
    rw [(ha nd hnd).mark] at hmark
    cases hmark
  obtain ⟨hjudged, hbare⟩ := applyFrom_spec happly hfresh
  rw [checkNodes] at h
  split_ifs at h with hdenied
  cases h
  have hone : ∀ nd ∈ c, (checkOne rs.policy nd).1.need = true := by
    intro nd hnd
    have hquiet : (checkOne rs.policy nd).2 = false := by
      by_contra hwarn
      refine hdenied (any_eq_true.mpr ⟨_, mem_map_of_mem hnd, ?_⟩)
      simpa using hwarn
    rw [checkOne] at hquiet ⊢
    split_ifs at hquiet ⊢ with hmark
    · refine (hjudged nd hnd hmark).resolve_right fun hdeny => ?_
      rw [hdeny] at hquiet
      cases hquiet
    · rfl
  have houtline : outline (c.map fun nd => (checkOne rs.policy nd).1) = outline a := by
    rw [← outline_of_bare hbare, outline, outline, List.map_map]
    refine map_congr_left fun nd _ => ?_
    rw [Function.comp, checkOne]
    split_ifs <;> rfl
  refine ⟨houtline, ?_, forall_name_of_outline houtline.symm (checkNames_ok hnames)⟩
  intro nd hnd
  obtain ⟨old, hold, rfl⟩ := mem_map.mp hnd
  exact hone old hold

/-! ### The check for conflicts -/

section Conflict

variable {D : Type} [DecidableEq D] {fs : Fs D}

lemma checkNode_keeps (w : Walk D) (nd : Node) :
    (checkNode fs w nd).2.1.name = nd.name ∧ (checkNode fs w nd).2.1.tag = nd.tag ∧
      (checkNode fs w nd).2.1.need = nd.need := by
  rw [checkNode]
  split
  · rw [checkDir]
    split
    · exact ⟨rfl, rfl, rfl⟩
    split
    · exact ⟨rfl, rfl, rfl⟩
    · split <;> exact ⟨rfl, rfl, rfl⟩
  · exact ⟨rfl, rfl, rfl⟩

/-- The check for conflicts changes neither names nor what is needed. -/
theorem checkAll_keeps (w : Walk D) (nds : List Node) :
    outline (checkAll fs w nds).1 = outline nds ∧
      (checkAll fs w nds).1.map Node.need = nds.map Node.need := by
  induction nds generalizing w with
  | nil => exact ⟨rfl, rfl⟩
  | cons nd nds ih =>
    obtain ⟨hname, htag, hneed⟩ := @checkNode_keeps D _ fs w nd
    obtain ⟨houtline, hneeds⟩ := ih (checkNode fs w nd).1
    have hcons : (checkAll fs w (nd :: nds)).1
        = (checkNode fs w nd).2.1 :: (checkAll fs (checkNode fs w nd).1 nds).1 := rfl
    rw [hcons]
    constructor
    · rw [outline, map_cons, hname, htag]
      exact congrArg _ houtline
    · rw [map_cons, hneed, hneeds, map_cons]

end Conflict

end Minibase.Mpkg
