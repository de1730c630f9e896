import Mathlib.Algebra.Order.Group.Int
import Minibase.Mpkg.Index

/-!
# Library packages

`ctool_lib_index.c` and `ctool_lib.c`. A package is a PAC file as `mpkg` knows it, but the
entries of a directory have to be in order, files first (`Ctool.Sorted`, `Ctool.Sorted.nodup`);
and it is checked that there is nothing but plain files in it, and those in `lib`, `inc` and
`obj` only. That is not quite true, since `check_node` looks at the name of a directory only
where it is the first one: `Ctool.stays_iff`.
-/

namespace Minibase.Ctool

open List Mpkg

open Mpkg (Fail Node placed home after parseSize parseName newNode)

def MAXDEPTH : ℕ := 8

/-! ### Loading the index -/

/-- `strcmp`, which compares unsigned bytes. -/
def strcmp : List UInt8 → List UInt8 → ℤ
  | [], [] => 0
  | [], b :: _ => -(b.toNat : ℤ)
  | a :: _, [] => a.toNat
  | a :: as, b :: bs => if a = b then strcmp as bs else a.toNat - b.toNat

def checkChars : Name → UInt8
  | [] => 0
  | c :: p => if c < 0x20 then c else if c = 0x2F then c else checkChars p

/-- `struct subcontext`, with the names of the directories one is in: they are `ctx->path`, and as
far as they are looked at, `cct->prev`. -/
structure Cct where
  path : List Name := []
  last : Option Name := none
  indirs : Bool := false
deriving DecidableEq

namespace Cct

variable (cct : Cct)

def validateName (name : Name) : Except Fail Cct := do
  refuse (name = []) ⟨some "empty node name", none, none⟩
  refuse (name.head? = some 0x2E) ⟨some "invalid node name:", some name, none⟩
  refuse (checkChars name ≠ 0) ⟨some "invalid node name:", some name, none⟩
  refuse (∃ last ∈ cct.last, 0 ≤ strcmp last name) ⟨some "name out of order:", some name, none⟩
  return { cct with last := some name }

def enterDir (name : Name) : Except Fail Cct := do
  refuse (MAXDEPTH ≤ cct.path.length) ⟨some "tree depth exceeded", none, none⟩
  return { path := cct.path ++ [name], last := none, indirs := false }

def rewindPath (todepth : ℕ) : Except Fail Cct := do
  let cct := if cct.indirs then cct else { cct with last := none, indirs := true }
  refuse (cct.path.length < todepth) ⟨some "invalid index entry", none, none⟩
  return if todepth = cct.path.length then cct
    else { cct with path := cct.path.take todepth, last := cct.path[todepth]? }

/-- `take_node`, after the leading byte. -/
def takeNode (lead : UInt8) (p : List UInt8) : Except Fail (Node × Cct × List UInt8) :=
  let nd := newNode lead
  if nd.isDir then do
    let cct ← cct.rewindPath nd.lvl
    let (name, p) ← parseName p
    let cct ← cct.validateName name
    let cct ← cct.enterDir name
    return ({ nd with name := name }, cct, p)
  else do
    let (size, p) ← parseSize lead p
    let (name, p) ← parseName p
    let cct ← cct.validateName name
    return ({ nd with name := name, size := size }, cct, p)

/-- The loop of `index_nodes`. Every round takes a byte. -/
def takeNodes : ℕ → Cct → List UInt8 → Except Fail (List Node)
  | 0, _, _ => .ok []
  | _ + 1, _, [] => .ok []
  | k + 1, cct, lead :: p => do
    let (nd, cct, p) ← cct.takeNode lead p
    let nds ← takeNodes k cct p
    return nd :: nds

end Cct

def indexNodes (head : List UInt8) : Except Fail (List Node) := do
  let nds ← Cct.takeNodes head.length {} head
  refuse (nds = []) ⟨some "empty package", none, none⟩
  return nds

/-- `load_index`, on the bytes of the file. -/
def loadIndex (pac : List UInt8) : Except Fail (List Node) := do
  let (head, _) ← Mpkg.loadIndex pac
  indexNodes head

/-! ### Checking it -/

/-- `lib`, `inc` and `obj`. -/
def LIB : Name := [0x6C, 0x69, 0x62]

@[inherit_doc LIB] def INC : Name := [0x69, 0x6E, 0x63]

@[inherit_doc LIB] def OBJ : Name := [0x6F, 0x62, 0x6A]

def allowedDirectory (name : Name) : Bool := name = LIB || name = INC || name = OBJ

/-- `check_node`: the depth after it. -/
def checkNode (depth : ℕ) (nd : Node) : Except Fail ℕ := do
  refuse (nd.name = [] ∨ nd.name.head? = some 0x2E)
    ⟨some "package contains hidden files", none, none⟩
  if nd.isDir then do
    refuse (depth < nd.lvl) ⟨some "malformed tree", none, none⟩
    refuse (depth = 0 ∧ !allowedDirectory nd.name) ⟨some "protected node", some nd.name, none⟩
    return nd.lvl + 1
  else do
    refuse (depth = 0) ⟨some "package contains top-level files", none, none⟩
    refuse nd.isLink ⟨some "package contains symlinks", none, none⟩
    refuse nd.isExec ⟨some "package contains executables", none, none⟩
    return depth

def checkIndex (nds : List Node) : Except Fail ℕ := nds.foldlM checkNode 0

/-! ### Unpacking -/

/-- What is created: a directory, a file with its mode, or a symbolic link. -/
inductive Created
  | dir (path : List Name)
  | file (path : List Name) (mode : ℕ)
  | link (path : List Name)
deriving DecidableEq, Repr

/-- Its path. -/
def Created.path : Created → List Name
  | dir path => path
  | file path _ => path
  | link path => path

/-- `unpack_content`, with the path of the current directory: what it creates if the system calls go
well. -/
def unpackContent : List Name → List Node → Except Fail (List Created)
  | _, [] => .ok []
  | path, nd :: nds =>
    if nd.isDir then
      if path.length < nd.lvl then unpackContent path nds
      else do
        let path := path.take nd.lvl
        refuse (MAXDEPTH ≤ path.length) ⟨none, some nd.name, some .ELOOP⟩
        let made ← unpackContent (path ++ [nd.name]) nds
        return if nd.exst then made else .dir (path ++ [nd.name]) :: made
    else do
      let made ← unpackContent path nds
      let path := path ++ [nd.name]
      return (if nd.isLink then .link path
        else .file path (if nd.isExec then 0o755 else 0o644)) :: made

/-! ### What is asked for -/

/-- A component that cannot lead anywhere else. -/
def Proper (name : Name) : Prop := name ≠ [] ∧ name.head? ≠ some 0x2E ∧ 0x2F ∉ name

/-- Whether there is something at a path that is a directory, and the path, for all entries. -/
def paths (nds : List Node) : List (Bool × List Name) :=
  (placed [] nds).map fun en => (en.2.isDir, en.1 ++ [en.2.name])

/-- **A package stays in its directories**: what is created is a directory or a plain file in one of
the three, and no two entries have the same path. -/
def Stays (nds : List Node) : Prop :=
  ∃ made, unpackContent [] nds = .ok made ∧
    (∀ c ∈ made, (∃ top rest, c.path = top :: rest ∧ allowedDirectory top ∧ rest ≠ []) ∧
      (∀ name ∈ c.path, Proper name) ∧ (c = .dir c.path ∨ c = .file c.path 0o644)) ∧
    ((paths nds).map Prod.snd).Nodup

/-! ### The order of names -/

lemma strcmp_nil_cons (b : UInt8) (bs : List UInt8) : strcmp [] (b :: bs) = -(b.toNat : ℤ) := rfl

lemma strcmp_cons_nil (a : UInt8) (as : List UInt8) : strcmp (a :: as) [] = a.toNat := rfl

lemma strcmp_cons_cons (a b : UInt8) (as bs : List UInt8) :
    strcmp (a :: as) (b :: bs) = if a = b then strcmp as bs else a.toNat - b.toNat := rfl

lemma strcmp_self (a : List UInt8) : strcmp a a = 0 := by
  induction a with
  | nil => rfl
  | cons x a ih => rw [strcmp_cons_cons, if_pos rfl, ih]

lemma strcmp_trans {a b c : List UInt8} (hab : strcmp a b < 0) (hbc : strcmp b c < 0) :
    strcmp a c < 0 := by
  induction a generalizing b c with
  | nil =>
    cases b with
    | nil => exact absurd hab (lt_irrefl _)
    | cons y b =>
      rw [strcmp_nil_cons] at hab
      cases c with
      | nil =>
        rw [strcmp_cons_nil] at hbc
        omega
      | cons z c =>
        rw [strcmp_cons_cons] at hbc
        rw [strcmp_nil_cons]
        split at hbc
        case isTrue h => rwa [← h]
        case isFalse => omega
  | cons x a ih =>
    cases b with
    | nil =>
      rw [strcmp_cons_nil] at hab
      omega
    | cons y b =>
      rw [strcmp_cons_cons] at hab
      cases c with
      | nil =>
        rw [strcmp_cons_nil] at hbc
        omega
      | cons z c =>
        rw [strcmp_cons_cons] at hbc ⊢
        split at hab
        case isTrue hxy =>
          subst hxy
          split at hbc
          case isTrue hxz =>
            rw [if_pos hxz]
            exact ih hab hbc
          case isFalse hxz => rwa [if_neg hxz]
        case isFalse hxy =>
          split at hbc
          case isTrue hyz =>
            subst hyz
            rwa [if_neg hxy]
          case isFalse hyz =>
            have hne : x ≠ z := by
              rintro rfl
              omega
            rw [if_neg hne]
            omega

lemma ne_of_strcmp {a b : List UInt8} (h : strcmp a b < 0) : a ≠ b := by
  rintro rfl
  rw [strcmp_self] at h
  exact lt_irrefl _ h

/-- The characters that are let through. -/
theorem clean_of_checkChars {name : Name} (h : checkChars name = 0) (hnul : 0 ∉ name) :
    ∀ c ∈ name, 0x20 ≤ c ∧ c ≠ 0x2F := by
  induction name with
  | nil => exact nofun
  | cons c p ih =>
    rw [checkChars] at h
    split at h
    · exact absurd (h ▸ mem_cons_self) hnul
    · rename_i hlow
      split at h
      · exact absurd (h ▸ mem_cons_self) hnul
      · rename_i hne
        refine forall_mem_cons.mpr ⟨⟨UInt8.not_lt.mp hlow, hne⟩, ?_⟩
        exact ih h fun h0 => hnul (mem_cons_of_mem c h0)

/-! ### What a loaded index is like -/

/-- **The entries are in order**, after entries that led to the directory `path`, in which the file
`last` was the last one: so are the files, and so are the directories next to each other. -/
def Sorted : List Name → Option Name → List Node → Prop
  | _, _, [] => True
  | path, last, nd :: nds =>
    Proper nd.name ∧
      if nd.isDir then
        nd.lvl ≤ path.length ∧ nd.lvl < MAXDEPTH ∧
          (∀ prev ∈ path[nd.lvl]?, strcmp prev nd.name < 0) ∧
          Sorted (path.take nd.lvl ++ [nd.name]) none nds
      else (∀ prev ∈ last, strcmp prev nd.name < 0) ∧ Sorted path (some nd.name) nds

variable {cct' : Cct} {p : List UInt8} {cct : Cct}

lemma Cct.validateName_spec {name : Name} (hnul : 0 ∉ name)
    (h : cct.validateName name = .ok cct') :
    Proper name ∧ (∀ prev ∈ cct.last, strcmp prev name < 0) ∧
      cct' = { cct with last := some name } := by
  obtain ⟨_, hempty, h⟩ := ok_of_bind h
  obtain ⟨_, hdot, h⟩ := ok_of_bind h
  obtain ⟨_, hchars, h⟩ := ok_of_bind h
  obtain ⟨_, horder, h⟩ := ok_of_bind h
  cases h
  refine ⟨⟨refuse_eq_ok_iff.mp hempty, refuse_eq_ok_iff.mp hdot, ?_⟩, fun prev hprev => ?_, rfl⟩
  · exact fun hmem => (clean_of_checkChars (not_not.mp (refuse_eq_ok_iff.mp hchars)) hnul _ hmem).2
      rfl
  · exact Int.not_le.mp fun hle => refuse_eq_ok_iff.mp horder ⟨prev, hprev, hle⟩

lemma Cct.rewindPath_spec {lvl : ℕ} (hin : cct.indirs = false)
    (h : cct.rewindPath lvl = .ok cct') :
    lvl ≤ cct.path.length ∧ cct'.path = cct.path.take lvl ∧ cct'.last = cct.path[lvl]? := by
  obtain ⟨path, last, indirs⟩ := cct
  obtain rfl : indirs = false := hin
  obtain ⟨_, hdepth, h⟩ := ok_of_bind h
  have hle : lvl ≤ path.length := Nat.le_of_not_lt (refuse_eq_ok_iff.mp hdepth)
  refine ⟨hle, ?_⟩
  have hcct : (if lvl = path.length then (⟨path, none, true⟩ : Cct)
      else ⟨path.take lvl, path[lvl]?, true⟩) = cct' := Except.ok.inj h
  rw [← hcct]
  split
  case isTrue heq =>
    subst heq
    exact ⟨(take_length ..).symm, (getElem?_eq_none (le_refl _)).symm⟩
  case isFalse => exact ⟨rfl, rfl⟩

/-- **What an entry is found to be.** -/
theorem Cct.takeNode_spec {lead : UInt8} {rest : List UInt8} {nd : Node}
    (hin : cct.indirs = false) (h : cct.takeNode lead p = .ok (nd, cct', rest)) :
    cct'.indirs = false ∧ Proper nd.name ∧
      if nd.isDir then
        nd.lvl ≤ cct.path.length ∧ nd.lvl < MAXDEPTH ∧
          (∀ prev ∈ cct.path[nd.lvl]?, strcmp prev nd.name < 0) ∧
          cct'.path = cct.path.take nd.lvl ++ [nd.name] ∧ cct'.last = none
      else (∀ prev ∈ cct.last, strcmp prev nd.name < 0) ∧ cct'.path = cct.path ∧
        cct'.last = some nd.name := by
  rw [Cct.takeNode] at h
  split at h
  case isTrue hdir =>
    obtain ⟨cct₁, hrewind, h⟩ := ok_of_bind h
    obtain ⟨⟨name, rest'⟩, hname, h⟩ := ok_of_bind h
    obtain ⟨cct₂, hvalid, h⟩ := ok_of_bind h
    obtain ⟨cct₃, henter, h⟩ := ok_of_bind h
    cases h
    obtain ⟨_, hmax, h⟩ := ok_of_bind henter
    cases h
    obtain ⟨hle, hpath, hlast⟩ := Cct.rewindPath_spec hin hrewind
    obtain ⟨hproper, horder, rfl⟩ := Cct.validateName_spec (parseName_noNul hname) hvalid
    have hlen : cct₁.path.length = (newNode lead).lvl := by
      rw [hpath, length_take, Nat.min_eq_left hle]
    have hless := Nat.lt_of_not_le (refuse_eq_ok_iff.mp hmax)
    rw [hlast] at horder
    refine ⟨rfl, hproper, ?_⟩
    rw [if_pos (show Node.isDir { newNode lead with name := name } = true from hdir)]
    exact ⟨hle, hlen ▸ hless, horder, congrArg (· ++ [name]) hpath, rfl⟩
  case isFalse hdir =>
    obtain ⟨⟨size, p₁⟩, -, h⟩ := ok_of_bind h
    obtain ⟨⟨name, rest'⟩, hname, h⟩ := ok_of_bind h
    obtain ⟨cct₂, hvalid, h⟩ := ok_of_bind h
    cases h
    obtain ⟨hproper, horder, rfl⟩ := Cct.validateName_spec (parseName_noNul hname) hvalid
    refine ⟨hin, hproper, ?_⟩
    rw [if_neg (show ¬Node.isDir { newNode lead with name := name, size := size } = true from hdir)]
    exact ⟨horder, rfl, rfl⟩

variable {nds : List Node}

/-- **An index that is loaded is in order.** -/
theorem Cct.takeNodes_sorted {k : ℕ} (hin : cct.indirs = false)
    (h : Cct.takeNodes k cct p = .ok nds) : Sorted cct.path cct.last nds := by
  induction k generalizing cct p nds with
  | zero =>
    cases h
    trivial
  | succ k ih =>
    cases p with
    | nil =>
      cases h
      trivial
    | cons lead p =>
      obtain ⟨⟨nd, cct', rest⟩, hnode, h⟩ := ok_of_bind h
      obtain ⟨more, hmore, h⟩ := ok_of_bind h
      cases h
      obtain ⟨hin', hproper, hcase⟩ := Cct.takeNode_spec hin hnode
      have hsorted := ih hin' hmore
      refine ⟨hproper, ?_⟩
      split at hcase
      case isTrue hdir =>
        obtain ⟨hle, hmax, horder, hpath, hlast⟩ := hcase
        rw [hpath, hlast] at hsorted
        rw [if_pos hdir]
        exact ⟨hle, hmax, horder, hsorted⟩
      case isFalse hdir =>
        obtain ⟨horder, hpath, hlast⟩ := hcase
        rw [hpath, hlast] at hsorted
        rw [if_neg hdir]
        exact ⟨horder, hsorted⟩

lemma loadIndex_sorted {pac : List UInt8} (h : loadIndex pac = .ok nds) : Sorted [] none nds := by
  obtain ⟨⟨head, _⟩, -, h⟩ := ok_of_bind h
  obtain ⟨more, hmore, h⟩ := ok_of_bind h
  obtain ⟨_, -, h⟩ := ok_of_bind h
  cases h
  exact Cct.takeNodes_sorted rfl hmore

/-- A node as it is loaded: the bit is not set, and the name is on one line. -/
structure Loaded (nd : Node) : Prop where
  exst : nd.exst = false
  noNewline : 0x0A ∉ nd.name

lemma Cct.validateName_noNewline {name : Name} (hnul : 0 ∉ name)
    (h : cct.validateName name = .ok cct') : 0x0A ∉ name := by
  obtain ⟨_, -, h⟩ := ok_of_bind h
  obtain ⟨_, -, h⟩ := ok_of_bind h
  obtain ⟨_, hchars, -⟩ := ok_of_bind h
  intro hmem
  have hlow := (clean_of_checkChars (not_not.mp (refuse_eq_ok_iff.mp hchars)) hnul _ hmem).1
  exact absurd hlow (by decide)

lemma Cct.takeNode_loaded {lead : UInt8} {rest : List UInt8} {nd : Node}
    (h : cct.takeNode lead p = .ok (nd, cct', rest)) : Loaded nd := by
  rw [Cct.takeNode] at h
  split at h
  case isTrue =>
    obtain ⟨cct₁, -, h⟩ := ok_of_bind h
    obtain ⟨⟨name, rest'⟩, hname, h⟩ := ok_of_bind h
    obtain ⟨cct₂, hvalid, h⟩ := ok_of_bind h
    obtain ⟨cct₃, -, h⟩ := ok_of_bind h
    cases h
    exact ⟨rfl, Cct.validateName_noNewline (parseName_noNul hname) hvalid⟩
  case isFalse =>
    obtain ⟨⟨size, p₁⟩, -, h⟩ := ok_of_bind h
    obtain ⟨⟨name, rest'⟩, hname, h⟩ := ok_of_bind h
    obtain ⟨cct₂, hvalid, h⟩ := ok_of_bind h
    cases h
    exact ⟨rfl, Cct.validateName_noNewline (parseName_noNul hname) hvalid⟩

lemma Cct.takeNodes_loaded {k : ℕ}
    (h : Cct.takeNodes k cct p = .ok nds) : ∀ nd ∈ nds, Loaded nd := by
  induction k generalizing cct p nds with
  | zero =>
    cases h
    exact nofun
  | succ k ih =>
    cases p with
    | nil =>
      cases h
      exact nofun
    | cons lead p =>
      obtain ⟨⟨nd, cct', rest⟩, hnode, h⟩ := ok_of_bind h
      obtain ⟨more, hmore, h⟩ := ok_of_bind h
      cases h
      exact forall_mem_cons.mpr ⟨Cct.takeNode_loaded hnode, ih hmore⟩

lemma loadIndex_loaded {pac : List UInt8} (h : loadIndex pac = .ok nds) :
    ∀ nd ∈ nds, Loaded nd := by
  obtain ⟨⟨head, _⟩, -, h⟩ := ok_of_bind h
  obtain ⟨more, hmore, h⟩ := ok_of_bind h
  obtain ⟨_, -, h⟩ := ok_of_bind h
  cases h
  exact Cct.takeNodes_loaded hmore

/-! ### Paths -/

section

variable {path : List Name} {last : Option Name} {nd : Node} {nds : List Node}

/-- Where an entry is. -/
def pathOf (en : List Name × Node) : Bool × List Name := (en.2.isDir, en.1 ++ [en.2.name])

lemma Sorted.dir (h : Sorted path last (nd :: nds)) (hdir : nd.isDir = true) :
    nd.lvl ≤ path.length ∧ nd.lvl < MAXDEPTH ∧ (∀ prev ∈ path[nd.lvl]?, strcmp prev nd.name < 0) ∧
      Sorted (path.take nd.lvl ++ [nd.name]) none nds := by
  have h2 := h.2
  rwa [if_pos hdir] at h2

lemma Sorted.leaf (h : Sorted path last (nd :: nds)) (hleaf : nd.isDir = false) :
    (∀ prev ∈ last, strcmp prev nd.name < 0) ∧ Sorted path (some nd.name) nds := by
  have h2 := h.2
  rwa [if_neg (by rw [hleaf]; exact Bool.false_ne_true)] at h2

lemma Sorted.tail (h : Sorted path last (nd :: nds)) :
    ∃ last', Sorted (after path nd) last' nds := by
  cases hdir : nd.isDir with
  | true =>
    rw [after_dir hdir]
    exact ⟨none, (h.dir hdir).2.2.2⟩
  | false =>
    rw [after_leaf hdir]
    exact ⟨_, (h.leaf hdir).2⟩

/-- **What can come after** entries that led to a directory: a file in it, behind the last one; a
directory in it, or something in such a directory; or something elsewhere, behind one of the
directories that lead to it. -/
theorem Sorted.later (h : Sorted path last nds) {b : Bool} {q : List Name}
    (hq : (b, q) ∈ (placed path nds).map pathOf) :
    (b = false ∧ ∃ x, q = path ++ [x] ∧ ∀ prev ∈ last, strcmp prev x < 0) ∨
      (∃ y r, q = path ++ y :: r ∧ (b = false → r ≠ [])) ∨
      ∃ k z r prev, path[k]? = some prev ∧ strcmp prev z < 0 ∧ q = path.take k ++ z :: r ∧
        (b = false → r ≠ []) := by
  induction nds generalizing path last with
  | nil => cases hq
  | cons nd nds ih =>
    rw [placed, map_cons] at hq
    cases hdir : nd.isDir with
    | true =>
      obtain ⟨hle, -, horder, hsorted⟩ := h.dir hdir
      rw [home_dir hdir, after_dir hdir] at hq
      -- a directory that is in this one, or behind one that leads to it
      have hplace : ∀ r, (b = false → r ≠ []) → q = path.take nd.lvl ++ nd.name :: r →
          (∃ y r, q = path ++ y :: r ∧ (b = false → r ≠ [])) ∨
            ∃ k z r prev, path[k]? = some prev ∧ strcmp prev z < 0 ∧ q = path.take k ++ z :: r ∧
              (b = false → r ≠ []) := by
        intro r hr heq
        rcases Nat.lt_or_ge nd.lvl path.length with hlt | hge
        · have hget := getElem?_eq_getElem hlt
          exact .inr ⟨nd.lvl, nd.name, r, _, hget, horder _ hget, heq, hr⟩
        · rw [take_of_length_le hge] at heq
          exact .inl ⟨nd.name, r, heq, hr⟩
      rcases mem_cons.mp hq with heq | hq
      · obtain ⟨hb, hq'⟩ := Prod.mk.inj heq
        refine .inr (hplace [] (fun hf => ?_) hq')
        rw [hb] at hf
        exact absurd (hdir.symm.trans hf) Bool.true_eq_false.mp
      · rcases ih hsorted hq with ⟨-, x, heq, -⟩ | ⟨y, r, heq, -⟩ |
          ⟨k, z, r, prev, hk, hlt, heq, hr⟩
        · refine .inr (hplace [x] (fun _ => cons_ne_nil _ _) ?_)
          rw [heq, append_assoc, singleton_append]
        · refine .inr (hplace (y :: r) (fun _ => cons_ne_nil _ _) ?_)
          rw [heq, append_assoc, singleton_append]
        · have hlen : (path.take nd.lvl).length = nd.lvl := by
            rw [length_take, Nat.min_eq_left hle]
          rcases Nat.lt_or_ge k nd.lvl with hlt' | hge
          · rw [getElem?_append_left (by omega), getElem?_take_of_lt hlt'] at hk
            rw [take_append_of_le_length (by omega), take_take,
              Nat.min_eq_left (Nat.le_of_lt hlt')] at heq
            exact .inr (.inr ⟨k, z, r, prev, hk, hlt, heq, hr⟩)
          · -- next to the directory itself
            have hklen := (List.getElem?_eq_some_iff.mp hk).1
            rw [length_append, hlen, length_singleton] at hklen
            obtain rfl : k = nd.lvl := by omega
            rw [getElem?_append_right (by omega), hlen, Nat.sub_self] at hk
            obtain rfl : nd.name = prev := Option.some.inj hk
            rw [take_append_of_le_length (by omega), take_take, Nat.min_self] at heq
            rcases Nat.lt_or_ge nd.lvl path.length with hlt' | hge'
            · have hget := getElem?_eq_getElem hlt'
              exact .inr (.inr ⟨nd.lvl, z, r, _, hget, strcmp_trans (horder _ hget) hlt, heq, hr⟩)
            · rw [take_of_length_le hge'] at heq
              exact .inr (.inl ⟨z, r, heq, hr⟩)
    | false =>
      obtain ⟨horder, hsorted⟩ := h.leaf hdir
      rw [home_leaf hdir, after_leaf hdir] at hq
      rcases mem_cons.mp hq with heq | hq
      · obtain ⟨hb, hq'⟩ := Prod.mk.inj heq
        exact .inl ⟨hb.trans hdir, nd.name, hq', horder⟩
      · rcases ih hsorted hq with ⟨hb, x, heq, hlt⟩ | hrest
        · refine .inl ⟨hb, x, heq, fun prev hprev => ?_⟩
          exact strcmp_trans (horder prev hprev) (hlt _ rfl)
        · exact .inr hrest

/-- Two ways that part are different. -/
theorem append_take_ne {k : ℕ} {z prev : Name} {r q : List Name} (hk : path[k]? = some prev)
    (hlt : strcmp prev z < 0) (hq : q[k]? = some prev) : q ≠ path.take k ++ z :: r := by
  rintro rfl
  have hlen : (path.take k).length = k := by
    rw [List.length_take, Nat.min_eq_left (Nat.le_of_lt (List.getElem?_eq_some_iff.mp hk).1)]
  rw [getElem?_append_right (Nat.le_of_eq hlen), hlen, Nat.sub_self] at hq
  exact ne_of_strcmp hlt (Option.some.inj hq).symm

/-- **No two files and no two directories have the same path.** -/
theorem Sorted.nodup (h : Sorted path last nds) : ((placed path nds).map pathOf).Nodup := by
  induction nds generalizing path last with
  | nil => exact nodup_nil
  | cons nd nds ih =>
    rw [placed, map_cons]
    cases hdir : nd.isDir with
    | true =>
      obtain ⟨-, -, -, hsorted⟩ := h.dir hdir
      rw [home_dir hdir, after_dir hdir]
      refine nodup_cons.mpr ⟨fun hmem => ?_, ih hsorted⟩
      rcases hsorted.later hmem with ⟨hb, -⟩ | ⟨y, r, heq, -⟩ | ⟨k, z, r, prev, hk, hlt, heq, -⟩
      · exact absurd (hdir.symm.trans hb) Bool.true_eq_false.mp
      · exact absurd (append_right_eq_self.mp heq.symm) (cons_ne_nil _ _)
      · exact append_take_ne hk hlt hk heq
    | false =>
      obtain ⟨-, hsorted⟩ := h.leaf hdir
      rw [home_leaf hdir, after_leaf hdir]
      refine nodup_cons.mpr ⟨fun hmem => ?_, ih hsorted⟩
      rcases hsorted.later hmem with ⟨-, x, heq, hlt⟩ | ⟨y, r, heq, hr⟩ |
        ⟨k, z, r, prev, hk, hlt, heq, -⟩
      · obtain rfl : nd.name = x := singleton_inj.mp (append_cancel_left heq)
        exact ne_of_strcmp (hlt _ rfl) rfl
      · exact hr hdir (List.cons.inj (append_cancel_left heq)).2.symm
      · refine append_take_ne hk hlt ?_ heq
        rw [List.getElem?_append_left (List.getElem?_eq_some_iff.mp hk).1]
        exact hk

variable {en : List Name × Node}

/-- Every component of a path is a proper one. -/
theorem Sorted.proper (h : Sorted path last nds) (hpath : ∀ n ∈ path, Proper n)
    (hen : en ∈ placed path nds) : ∀ n ∈ en.1 ++ [en.2.name], Proper n := by
  induction nds generalizing path last with
  | nil => cases hen
  | cons nd nds ih =>
    have hname := h.1
    have hhere : ∀ l : List Name, (∀ n ∈ l, Proper n) → ∀ n ∈ l ++ [nd.name], Proper n := by
      intro l hl n hn
      rcases mem_append.mp hn with hn | hn
      · exact hl n hn
      · rwa [mem_singleton.mp hn]
    rw [placed] at hen
    cases hdir : nd.isDir with
    | true =>
      obtain ⟨-, -, -, hsorted⟩ := h.dir hdir
      rw [home_dir hdir, after_dir hdir] at hen
      have hsub := hhere (path.take nd.lvl) fun n hn => hpath n (mem_of_mem_take hn)
      rcases mem_cons.mp hen with rfl | hen
      · exact hsub
      · exact ih hsorted hsub hen
    | false =>
      obtain ⟨-, hsorted⟩ := h.leaf hdir
      rw [home_leaf hdir, after_leaf hdir] at hen
      rcases mem_cons.mp hen with rfl | hen
      · exact hhere path hpath
      · exact ih hsorted hpath hen

/-- **What is checked of a file**: it is in a directory, and a plain one. -/
theorem Sorted.checked (h : Sorted path last nds) {d : ℕ}
    (hcheck : nds.foldlM checkNode path.length = .ok d) (hen : en ∈ placed path nds)
    (hleaf : en.2.isDir = false) : en.1 ≠ [] ∧ en.2.isLink = false ∧ en.2.isExec = false := by
  induction nds generalizing path last with
  | nil => cases hen
  | cons nd nds ih =>
    rw [foldlM_cons] at hcheck
    obtain ⟨depth, hnode, hrest⟩ := ok_of_bind hcheck
    obtain ⟨_, -, hnode⟩ := ok_of_bind hnode
    rw [placed] at hen
    cases hdir : nd.isDir with
    | true =>
      obtain ⟨hle, -, -, hsorted⟩ := h.dir hdir
      rw [home_dir hdir, after_dir hdir] at hen
      rw [if_pos hdir] at hnode
      obtain ⟨_, -, hnode⟩ := ok_of_bind hnode
      obtain ⟨_, -, hnode⟩ := ok_of_bind hnode
      have hdepth : depth = (path.take nd.lvl ++ [nd.name]).length := by
        rw [length_append, length_take, min_eq_left hle, length_singleton]
        exact (Except.ok.inj hnode).symm
      rcases mem_cons.mp hen with rfl | hen
      · exact absurd (hdir.symm.trans hleaf) Bool.true_eq_false.mp
      · exact ih hsorted (hdepth ▸ hrest) hen
    | false =>
      obtain ⟨-, hsorted⟩ := h.leaf hdir
      rw [home_leaf hdir, after_leaf hdir] at hen
      rw [if_neg (by rw [hdir]; exact Bool.false_ne_true)] at hnode
      obtain ⟨_, htop, hnode⟩ := ok_of_bind hnode
      obtain ⟨_, hlink, hnode⟩ := ok_of_bind hnode
      obtain ⟨_, hexec, hnode⟩ := ok_of_bind hnode
      rcases mem_cons.mp hen with rfl | hen
      · refine ⟨fun hnil => ?_, Bool.eq_false_of_not_eq_true (refuse_eq_ok_iff.mp hlink),
          Bool.eq_false_of_not_eq_true (refuse_eq_ok_iff.mp hexec)⟩
        exact refuse_eq_ok_iff.mp htop (congrArg length hnil)
      · obtain rfl : path.length = depth := Except.ok.inj hnode
        exact ih hsorted hrest hen

/-! ### What is created -/

/-- What is created for an entry. -/
def makes (en : List Name × Node) : List Created :=
  let path := en.1 ++ [en.2.name]
  if en.2.isDir then if en.2.exst then [] else [.dir path]
  else [if en.2.isLink then .link path else .file path (if en.2.isExec then 0o755 else 0o644)]

lemma path_makes {c : Created} (h : c ∈ makes en) : c.path = en.1 ++ [en.2.name] := by
  rw [makes] at h
  split at h
  · split at h
    · cases h
    · rw [mem_singleton.mp h]
      rfl
  · rw [mem_singleton.mp h]
    split <;> rfl

/-- **Unpacking goes through the entries** as they are placed. -/
theorem Sorted.unpackContent (h : Sorted path last nds) :
    unpackContent path nds = .ok ((placed path nds).flatMap makes) := by
  induction nds generalizing path last with
  | nil => rfl
  | cons nd nds ih =>
    rw [Ctool.unpackContent, placed, flatMap_cons]
    cases hdir : nd.isDir with
    | true =>
      obtain ⟨hle, hmax, -, hsorted⟩ := h.dir hdir
      have hlen : (path.take nd.lvl).length = nd.lvl := by
        rw [length_take, min_eq_left hle]
      have hfit : ¬MAXDEPTH ≤ (path.take nd.lvl).length := by
        rw [hlen]
        exact Nat.not_le.mpr hmax
      rw [home_dir hdir, after_dir hdir, if_pos rfl, if_neg (Nat.not_lt.mpr hle)]
      dsimp only
      rw [ih hsorted, refuse, if_neg hfit]
      show Except.ok _ = Except.ok _
      rw [makes, if_pos hdir]
      cases nd.exst <;> rfl
    | false =>
      obtain ⟨-, hsorted⟩ := h.leaf hdir
      have hmakes : makes (path, nd) = [if nd.isLink then .link (path ++ [nd.name])
          else .file (path ++ [nd.name]) (if nd.isExec then 0o755 else 0o644)] :=
        if_neg (show ¬nd.isDir = true by rw [hdir]; exact Bool.false_ne_true)
      rw [home_leaf hdir, after_leaf hdir, if_neg Bool.false_ne_true, ih hsorted, hmakes]
      rfl

end

/-! ### When a package stays in its directories -/

/-- A node as it is loaded, without `BIT_EXST`. -/
def bare (nd : Node) : Node := { nd with exst := false }

lemma sorted_bare {path : List Name} {last : Option Name} :
    Sorted path last (nds.map bare) ↔ Sorted path last nds := by
  induction nds generalizing path last with
  | nil => exact Iff.rfl
  | cons nd nds ih =>
    rw [map_cons, Sorted, Sorted, ih, ih]
    exact Iff.rfl

/-- **There is nothing new outside of the three directories**: a directory at the top is there
already, and so is everything in one that is not `lib`, `inc` or `obj`, which can only be
directories. -/
def NothingElsewhere (nds : List Node) : Prop :=
  ∀ en ∈ placed [] nds, (en.1 = [] → en.2.exst = true) ∧
    ∀ top ∈ (en.1 ++ [en.2.name]).head?, allowedDirectory top = false →
      en.2.isDir = true ∧ en.2.exst = true

/-- **When a package stays in its directories**, for an index that is loaded and passes the checks,
whatever directories are there already. -/
theorem stays_iff {pac : List UInt8} {nds marked : List Node} {d : ℕ}
    (hload : loadIndex pac = .ok nds)
    (hcheck : checkIndex nds = .ok d) (hmarked : marked.map bare = nds) :
    Stays marked ↔
      NothingElsewhere marked ∧ ∀ q, (true, q) ∈ paths marked → (false, q) ∉ paths marked := by
  subst hmarked
  have hsorted : Sorted [] none marked := sorted_bare.mp (loadIndex_sorted hload)
  have hchecked : marked.foldlM checkNode 0 = .ok d := by
    rw [checkIndex, foldlM_map] at hcheck
    exact hcheck
  have hnodup : (paths marked).Nodup := hsorted.nodup
  have hunpack := hsorted.unpackContent
  have hleaf := fun en (hen : en ∈ placed [] marked) => hsorted.checked hchecked hen
  constructor
  · rintro ⟨made, hmade, hall, hdistinct⟩
    cases hunpack.symm.trans hmade
    have hof : ∀ en ∈ placed [] marked, ∀ c ∈ makes en, ∃ top rest,
        en.1 ++ [en.2.name] = top :: rest ∧ allowedDirectory top ∧ rest ≠ [] := by
      intro en hen c hc
      obtain ⟨⟨top, rest, heq, hrest⟩, -⟩ := hall c (mem_flatMap.mpr ⟨en, hen, hc⟩)
      exact ⟨top, rest, path_makes hc ▸ heq, hrest⟩
    refine ⟨fun en hen => ⟨fun hnil => ?_, fun top htop hnot => ?_⟩, fun q hdir hfile => ?_⟩
    · by_contra hexst
      have hdir : en.2.isDir = true := by
        by_contra hdir
        exact (hleaf en hen (Bool.eq_false_of_not_eq_true hdir)).1 hnil
      obtain ⟨top, rest, heq, -, hrest⟩ := hof en hen (.dir (en.1 ++ [en.2.name])) (by
        rw [makes, if_pos hdir, if_neg hexst]
        exact mem_singleton.mpr rfl)
      rw [hnil, nil_append] at heq
      exact hrest (cons.inj heq).2.symm
    · by_contra hold
      have hsome : ∃ c, c ∈ makes en := by
        rw [makes]
        split
        case isTrue hdir =>
          rw [if_neg fun hexst => hold ⟨hdir, hexst⟩]
          exact ⟨_, mem_singleton.mpr rfl⟩
        case isFalse => exact ⟨_, mem_singleton.mpr rfl⟩
      obtain ⟨c, hc⟩ := hsome
      obtain ⟨top', rest, heq, hallowed, -⟩ := hof en hen c hc
      rw [heq] at htop
      obtain rfl : top' = top := Option.some.inj htop
      rw [hallowed] at hnot
      cases hnot
    · exact absurd (congrArg Prod.fst (inj_on_of_nodup_map hdistinct hdir hfile rfl))
        Bool.true_eq_false.mp
  · rintro ⟨helse, hclash⟩
    refine ⟨_, hunpack, fun c hc => ?_, ?_⟩
    · obtain ⟨en, hen, hc⟩ := mem_flatMap.mp hc
      obtain ⟨htop, hallowed⟩ := helse en hen
      have hnew : ¬(en.2.isDir = true ∧ en.2.exst = true) := by
        rintro ⟨hdir, hexst⟩
        rw [makes, if_pos hdir, if_pos hexst] at hc
        cases hc
      have hhome : en.1 ≠ [] := by
        intro hnil
        cases hdir : en.2.isDir with
        | true => exact hnew ⟨hdir, htop hnil⟩
        | false => exact (hleaf en hen hdir).1 hnil
      rw [path_makes hc]
      refine ⟨?_, hsorted.proper (fun n hn => by cases hn) hen, ?_⟩
      · obtain ⟨top, rest, hcons⟩ := exists_cons_of_ne_nil hhome
        refine ⟨top, rest ++ [en.2.name], by rw [hcons, cons_append], ?_,
          append_ne_nil_of_right_ne_nil _ (cons_ne_nil _ _)⟩
        by_contra hnot
        refine hnew (hallowed top ?_ (Bool.eq_false_of_not_eq_true hnot))
        rw [hcons]
        rfl
      · rw [makes] at hc
        split at hc
        case isTrue hdir =>
          split at hc
          · cases hc
          · exact .inl (mem_singleton.mp hc)
        case isFalse hdir =>
          obtain ⟨-, hlink, hexec⟩ := hleaf en hen (Bool.eq_false_of_not_eq_true hdir)
          rw [hlink, hexec] at hc
          exact .inr (mem_singleton.mp hc)
    · refine List.Nodup.map_on (fun x hx y hy heq => ?_) hnodup
      obtain ⟨b, q⟩ := x
      obtain ⟨b', q'⟩ := y
      obtain rfl : q = q' := heq
      cases b <;> cases b'
      · rfl
      · exact absurd hx (hclash q hy)
      · exact absurd hy (hclash q hx)
      · rfl

/-- A package with `lib` and a file in it. -/
def sampleLib : List UInt8 :=
  [0x50, 0x41, 0x43, 0, 9, 0x80, 0x6C, 0x69, 0x62, 0, 0x04, 0, 0x78, 0]

/-- The nodes of a package, with `lib` there already. -/
def withLib (pac : List UInt8) : List Node :=
  ((loadIndex pac).toOption.getD []).map fun nd => { nd with exst := nd.name = LIB }

theorem stays_lib : Stays (withLib sampleLib) := by
  refine (@stays_iff sampleLib ((withLib sampleLib).map bare) _ 1 (by decide) (by decide) rfl).mpr
    ⟨?_, ?_⟩
  · rw [NothingElsewhere]
    decide
  · have hpaths : paths (withLib sampleLib) = [(true, [LIB]), (false, [LIB, [0x78]])] := by decide
    rw [hpaths]
    intro q hdir hfile
    simp only [mem_cons, Prod.mk.injEq, reduceCtorEq, false_and, true_and, or_false, false_or,
      not_mem_nil] at hdir hfile
    exact absurd (hdir.symm.trans hfile) (by decide)

/-- A package with `lib`, and then `pkg` with a file in it. -/
def samplePkg : List UInt8 :=
  [0x50, 0x41, 0x43, 0, 14, 0x80, 0x6C, 0x69, 0x62, 0, 0x80, 0x70, 0x6B, 0x67, 0, 0x04, 0, 0x78, 0]

/-- **A package writes to `pkg`.** -/
theorem writes_to_pkg : ¬∀ pac nds marked d, loadIndex pac = .ok nds → checkIndex nds = .ok d →
    marked.map bare = nds → Stays marked := by
  intro hall
  obtain ⟨made, hmade, hplaces, -⟩ := hall samplePkg ((withLib samplePkg).map bare)
    (withLib samplePkg) 1 (by decide) (by decide) rfl
  have hunpack : unpackContent [] (withLib samplePkg) =
      .ok [.dir [[0x70, 0x6B, 0x67]], .file [[0x70, 0x6B, 0x67], [0x78]] 0o644] := by decide
  cases hunpack.symm.trans hmade
  obtain ⟨⟨top, rest, heq, hallowed, -⟩, -⟩ := hplaces _ (mem_cons_of_mem _ mem_cons_self)
  obtain ⟨rfl, -⟩ := cons.inj heq
  exact absurd hallowed (by decide)

end Minibase.Ctool
