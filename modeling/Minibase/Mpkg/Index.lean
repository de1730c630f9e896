import Minibase.Lib.Outcome
import Minibase.Lib.Fs
import Mathlib.Data.List.TakeWhile

/-!
# The index of a package

The index has one entry for each file, link and directory. A leaf belongs to the last directory
before it, a directory of depth `n` to the last one of depth `n - 1` (`Mpkg.placed`).
`Mpkg.loadPacfile` is `mpkg_index.c`, from the bytes of the package to the array of nodes. All the
structure it checks is in `Mpkg.Leveled`: a directory never skips a level, and the tree is not too
deep (`Mpkg.loadPacfile_spec`).
-/

namespace Minibase.Mpkg

def MAXDEPTH : ℕ := 31

def PAGE : ℕ := 4096

/-- The arguments of `fail`: a message, the object it is about, and an error number. -/
structure Fail where
  msg : Option String
  obj : Option (List UInt8)
  err : Option Errno
deriving DecidableEq

/-- `struct node`, the `BIT_` constants apart from the tag they share a word with. -/
structure Node where
  name : Name
  size : ℕ
  /-- The leading byte of the entry. -/
  tag : UInt8
  /-- `BIT_MARK`. -/
  mark : Bool
  /-- `BIT_NEED`. -/
  need : Bool
  /-- `BIT_DENY`. -/
  deny : Bool
  /-- `BIT_EXST`. -/
  exst : Bool
deriving DecidableEq

namespace Node

/-- `bits & TAG_DIR`. -/
def isDir (nd : Node) : Bool := nd.tag &&& 0x80 != 0

/-- `bits & TAG_DEPTH`. -/
def lvl (nd : Node) : ℕ := (nd.tag &&& 0x7F).toNat

/-- `(bits & TAG_TYPE) == TAG_LINK`. -/
def isLink (nd : Node) : Bool := nd.tag &&& 0x0C == 0x0C

/-- `(bits & TAG_TYPE) == TAG_EXEC`. -/
def isExec (nd : Node) : Bool := nd.tag &&& 0x0C == 0x08

end Node

/-! ### Parsing -/

/-- A number, least significant byte first. -/
def leVal : List UInt8 → ℕ
  | [] => 0
  | b :: l => b.toNat + 256 * leVal l

def parseSize (tag : UInt8) (p : List UInt8) : Except Fail (ℕ × List UInt8) :=
  let n := (tag &&& 0x03).toNat
  if p.length < n + 1 then .error ⟨some "truncated index", none, none⟩
  else .ok (leVal (p.take (n + 1)), p.drop (n + 1))

/-- `parse_name`: the terminating zero must come within a page. -/
def parseName (p : List UInt8) : Except Fail (Name × List UInt8) :=
  let name := (p.take PAGE).takeWhile (· ≠ 0)
  if name.length < (p.take PAGE).length then .ok (name, p.drop (name.length + 1))
  else .error ⟨some "non-terminated name in index", none, none⟩

def newNode (lead : UInt8) : Node := ⟨[], 0, lead, false, false, false, false⟩

/-- `take_node`, at a depth and after the leading byte: the node, the depth after it and
the bytes left. -/
def takeNode (depth : ℕ) (lead : UInt8) (p : List UInt8) : Except Fail (Node × ℕ × List UInt8) :=
  let nd := newNode lead
  if nd.isDir then do
    -- `rewind_path` and `enter_dir` stand around the name
    refuse (depth < nd.lvl) ⟨some "invalid index entry", none, none⟩
    let (name, p) ← parseName p
    refuse (MAXDEPTH ≤ nd.lvl) ⟨some "tree depth exceeded", none, none⟩
    return ({ nd with name := name }, nd.lvl + 1, p)
  else do
    let (size, p) ← parseSize lead p
    let (name, p) ← parseName p
    return ({ nd with name := name, size := size }, depth, p)

/-- The loop of `index_nodes`. Every round takes a byte, so that there are no more rounds
than bytes. -/
def takeNodes : ℕ → ℕ → List UInt8 → Except Fail (List Node)
  | 0, _, _ => .ok []
  | _ + 1, _, [] => .ok []
  | k + 1, depth, lead :: p => do
    let (nd, depth, p) ← takeNode depth lead p
    let nds ← takeNodes k depth p
    return nd :: nds

def indexNodes (head : List UInt8) : Except Fail (List Node) := do
  let nds ← takeNodes head.length 0 head
  refuse (nds = []) ⟨some "empty package", none, none⟩
  return nds

/-- `parse_header_size`: where the index starts and how long it is. -/
def parseHeaderSize (tag : List UInt8) : Except Fail (ℕ × ℕ) :=
  let n := ((tag[3]?).getD 0).toNat
  if tag.take 3 ≠ [80, 65, 67] then .error ⟨some "not a PAC file", none, none⟩
  else if 3 < n then .error ⟨some "not a PAC file", none, none⟩
  else if 2 < n then .error ⟨some "4-byte index size", none, none⟩
  else .ok (4 + n + 1, leVal ((tag.drop 4).take (n + 1)))

/-- `load_index`: the bytes of the index and the bytes of the content after it. -/
def loadIndex (pac : List UInt8) : Except Fail (List UInt8 × List UInt8) := do
  refuse (pac.length < 8) ⟨some "package index too short", none, none⟩
  let (hoff, hlen) ← parseHeaderSize (pac.take 8)
  refuse (8 < hoff ∨ hoff + hlen < 8) ⟨some "malformed package", none, none⟩
  refuse (pac.length < hoff + hlen) ⟨some "incomplete read", none, none⟩
  return ((pac.drop hoff).take hlen, pac.drop (hoff + hlen))

/-- `load_pacfile`, on the bytes that come out of the file or of the decompressor. -/
def loadPacfile (pac : List UInt8) : Except Fail (List Node × List UInt8) := do
  let (head, data) ← loadIndex pac
  let nds ← indexNodes head
  return (nds, data)

/-! ### The tree an index stands for -/

/-- The directory an entry belongs to, after entries that led to the directory `cur`. -/
def home (cur : List Name) (nd : Node) : List Name :=
  if nd.isDir then cur.take nd.lvl else cur

/-- The current directory after an entry. -/
def after (cur : List Name) (nd : Node) : List Name :=
  if nd.isDir then home cur nd ++ [nd.name] else cur

/-- **Where the entries are**: each with the path of its directory. -/
def placed : List Name → List Node → List (List Name × Node)
  | _, [] => []
  | cur, nd :: nds => (home cur nd, nd) :: placed (after cur nd) nds

/-- No directory skips a level or is too deep, after entries that led to a given depth. -/
def Leveled : ℕ → List Node → Prop
  | _, [] => True
  | depth, nd :: nds =>
    if nd.isDir then nd.lvl ≤ depth ∧ nd.lvl < MAXDEPTH ∧ Leveled (nd.lvl + 1) nds
    else Leveled depth nds

instance decidableLeveled : ∀ (depth : ℕ) (nds : List Node), Decidable (Leveled depth nds)
  | _, [] => isTrue trivial
  | depth, nd :: nds =>
    have := decidableLeveled (nd.lvl + 1) nds
    have := decidableLeveled depth nds
    inferInstanceAs (Decidable (if nd.isDir then
      nd.lvl ≤ depth ∧ nd.lvl < MAXDEPTH ∧ Leveled (nd.lvl + 1) nds else Leveled depth nds))

/-- A node as it is loaded: no bit is set, and the name is a C string. -/
structure Loaded (nd : Node) : Prop where
  mark : nd.mark = false
  need : nd.need = false
  deny : nd.deny = false
  exst : nd.exst = false
  noNul : 0 ∉ nd.name

section Home

variable {cur : List Name} {nd : Node}

lemma home_dir (h : nd.isDir = true) : home cur nd = cur.take nd.lvl := if_pos h

lemma home_leaf (h : nd.isDir = false) : home cur nd = cur := if_neg (by simp [h])

lemma after_dir (h : nd.isDir = true) : after cur nd = cur.take nd.lvl ++ [nd.name] := by
  rw [after, if_pos h, home_dir h]

lemma after_leaf (h : nd.isDir = false) : after cur nd = cur := if_neg (by simp [h])

variable {nds : List Node}

lemma Leveled.home_length (h : Leveled cur.length (nd :: nds))
    (hdir : nd.isDir = true) : (home cur nd).length = nd.lvl := by
  rw [Leveled, if_pos hdir] at h
  rw [home_dir hdir, List.length_take, min_eq_left h.1]

lemma Leveled.home_lt (h : Leveled cur.length (nd :: nds))
    (hdir : nd.isDir = true) : (home cur nd).length < MAXDEPTH := by
  rw [h.home_length hdir]
  rw [Leveled, if_pos hdir] at h
  exact h.2.1

/-- The levels stay right along the index. -/
theorem Leveled.tail (h : Leveled cur.length (nd :: nds)) : Leveled (after cur nd).length nds := by
  rcases hdir : nd.isDir with - | -
  · rw [Leveled, if_neg (by simp [hdir])] at h
    rwa [after_leaf hdir]
  · have hlen := h.home_length hdir
    rw [Leveled, if_pos hdir] at h
    rw [after_dir hdir, ← home_dir hdir, List.length_append, hlen]
    exact h.2.2

end Home

/-! ### What loading checks -/

lemma parseName_noNul {p rest : List UInt8} {name : Name} (h : parseName p = .ok (name, rest)) :
    0 ∉ name := by
  rw [parseName] at h
  split at h
  · cases h
    intro h0
    have := List.mem_takeWhile_imp h0
    simp at this
  · cases h

lemma takeNode_spec {depth depth' : ℕ} {lead : UInt8} {p p' : List UInt8} {nd : Node}
    (h : takeNode depth lead p = .ok (nd, depth', p')) :
    Loaded nd ∧ (if nd.isDir then nd.lvl ≤ depth ∧ nd.lvl < MAXDEPTH ∧ depth' = nd.lvl + 1
      else depth' = depth) := by
  rw [takeNode] at h
  split at h
  · rename_i hdir
    obtain ⟨_, hdepth, h⟩ := ok_of_bind h
    obtain ⟨⟨name, rest⟩, hname, h⟩ := ok_of_bind h
    obtain ⟨_, hmax, h⟩ := ok_of_bind h
    cases h
    refine ⟨⟨rfl, rfl, rfl, rfl, parseName_noNul hname⟩, ?_⟩
    split
    · exact ⟨Nat.le_of_not_lt (refuse_eq_ok_iff.mp hdepth),
        Nat.lt_of_not_le (refuse_eq_ok_iff.mp hmax), rfl⟩
    · rename_i hleaf
      exact absurd hdir hleaf
  · rename_i hdir
    obtain ⟨⟨size, p₁⟩, -, h⟩ := ok_of_bind h
    obtain ⟨⟨name, rest⟩, hname, h⟩ := ok_of_bind h
    cases h
    refine ⟨⟨rfl, rfl, rfl, rfl, parseName_noNul hname⟩, ?_⟩
    split
    · rename_i hleaf
      exact absurd hleaf hdir
    · rfl

lemma takeNodes_spec {k depth : ℕ} {p : List UInt8} {nds : List Node}
    (h : takeNodes k depth p = .ok nds) : Leveled depth nds ∧ ∀ nd ∈ nds, Loaded nd := by
  induction k generalizing depth p nds with
  | zero =>
    cases h
    exact ⟨trivial, fun nd hnd => nomatch hnd⟩
  | succ k ih =>
    obtain - | ⟨lead, p⟩ := p
    · cases h
      exact ⟨trivial, fun nd hnd => nomatch hnd⟩
    obtain ⟨⟨nd, depth', p'⟩, hnode, h⟩ := ok_of_bind h
    obtain ⟨nds', hrest, h⟩ := ok_of_bind h
    cases h
    obtain ⟨hload, hlvl⟩ := takeNode_spec hnode
    obtain ⟨hlev, hall⟩ := ih hrest
    constructor
    · rw [Leveled]
      split at hlvl <;> rename_i hdir
      · obtain ⟨hle, hmax, rfl⟩ := hlvl
        rw [if_pos hdir]
        exact ⟨hle, hmax, hlev⟩
      · rw [if_neg hdir]
        rw [hlvl] at hlev
        exact hlev
    · intro nd' hnd'
      rcases List.mem_cons.mp hnd' with rfl | hnd'
      · exact hload
      · exact hall nd' hnd'

/-- **What a loaded index is**: nodes without marks, on proper levels. -/
theorem loadPacfile_spec {pac data : List UInt8} {nds : List Node}
    (h : loadPacfile pac = .ok (nds, data)) :
    Leveled 0 nds ∧ (∀ nd ∈ nds, Loaded nd) ∧ nds ≠ [] := by
  obtain ⟨⟨head, rest⟩, -, h⟩ := ok_of_bind h
  obtain ⟨nds', hidx, h⟩ := ok_of_bind h
  cases h
  obtain ⟨nds', hnds, hidx⟩ := ok_of_bind hidx
  obtain ⟨_, hne, hidx⟩ := ok_of_bind hidx
  cases hidx
  obtain ⟨hlev, hall⟩ := takeNodes_spec hnds
  exact ⟨hlev, hall, refuse_eq_ok_iff.mp hne⟩

end Minibase.Mpkg
