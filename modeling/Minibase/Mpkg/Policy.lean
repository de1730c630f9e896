import Minibase.Lib.Memory
import Minibase.Lib.CInt
import Minibase.Mpkg.Index

/-!
# The install policy

`mpkg_config.c` packs the path rules of the configuration on the heap, each as a word with its
length and its kind followed by the path, and `mpkg_policy.c` marks the nodes each one is about.
`Mpkg.checkIndex` then refuses the package or says which nodes are needed. The word is a `short`:
a kind with the high bit makes it negative, and the length that is taken from it leads out of the
area (`Mpkg.hlenOf`). Pointers into the array of nodes are positions; what is read through a null
pointer plus one ends the process, as `Mpkg.Stop.segv`.
-/

namespace Minibase.Mpkg

/-! ### Packing the rules -/

/-- The rule keywords. -/
inductive Kind
  | pass
  | skip
  | deny
deriving DecidableEq

/-- `HLEN_PASS`, `HLEN_SKIP` and `HLEN_DENY`. -/
def Kind.flag : Kind → ℕ
  | .pass => 0x4000
  | .skip => 0x8000
  | .deny => 0xC000

/-- `POL_PASS_ALL`, `POL_DENY_REST` and `POL_PASS_REST`. -/
inductive Policy
  | passAll
  | denyRest
  | passRest
deriving DecidableEq

/-- `append_rule`: the rules with one more. The bytes after the path are as fresh as the heap
is. -/
def appendRule (paths path : List UInt8) (flag : ℕ) : Except Fail (List UInt8) :=
  let need := roundUp4 (2 + path.length + 1)
  if path = [] then .error ⟨some "empty path", none, none⟩
  else if 4096 ≤ path.length then .error ⟨some "path too long", none, none⟩
  else .ok (paths ++ (le 2 (need + flag) ++ path ++ List.replicate (need - 2 - path.length) 0))

/-- `flag & HLEN_PASS`. -/
def hasPass (flag : ℕ) : Bool := flag / 0x4000 % 2 = 1

/-- `flag & HLEN_DENY`. -/
def hasDeny (flag : ℕ) : Bool := flag / 0x4000 % 4 ≠ 0

variable (pol : Policy)

def updatePolicy (flag : ℕ) : Except Fail Policy :=
  if hasPass flag then
    if pol = .passRest then .error ⟨some "pass after deny", none, none⟩ else .ok .denyRest
  else if hasDeny flag then
    if pol = .denyRest then .error ⟨some "deny after pass", none, none⟩ else .ok .passRest
  else .ok pol

/-- `ctx->paths` up to `ctx->paend`, and `ctx->policy`. -/
structure Rules where
  paths : List UInt8
  policy : Policy
deriving DecidableEq

/-- `common_path`, inside the group that is looked for. -/
def commonPath (rs : Rules) (path : List UInt8) (kind : Kind) : Except Fail Rules := do
  refuse (path = []) ⟨some "empty path", none, none⟩
  refuse (path.head? = some 47) ⟨some "absolute path", none, none⟩
  let paths ← appendRule rs.paths path kind.flag
  let policy ← updatePolicy rs.policy kind.flag
  return ⟨paths, policy⟩

/-- The rule lines of a group, in their order. -/
def loadRules : Rules → List (Kind × List UInt8) → Except Fail Rules
  | rs, [] => .ok rs
  | rs, (kind, path) :: lines => do
    let rs ← commonPath rs path kind
    loadRules rs lines

/-! ### Marking nodes -/

/-- How the process ends early. -/
inductive Stop
  | fail (f : Fail)
  | segv
deriving DecidableEq

/-- `nd->bits |= mark`. -/
def setMark (kind : Kind) (nd : Node) : Node :=
  { nd with
    mark := true
    need := nd.need || kind == .pass
    deny := nd.deny || kind == .deny }

/-- `mark_down`, from a node on: up to a directory above the depth. -/
def markRun (kind : Kind) (depth : ℕ) : List Node → List Node
  | [] => []
  | nd :: nds =>
    if nd.isDir ∧ nd.lvl < depth then nd :: nds else setMark kind nd :: markRun kind depth nds

def markDown (kind : Kind) (nodes : List Node) (i depth : ℕ) : List Node :=
  nodes.take i ++ markRun kind depth (nodes.drop i)

/-- `mark_leaf`. The test that should keep regular files out is of `bits | TAG_DIR`, which
is never zero. -/
def markLeaf (kind : Kind) (nodes : List Node) (i : ℕ) : List Node :=
  match nodes[i]? with
  | none => nodes
  | some nd => markDown kind (nodes.set i (setMark kind nd)) (i + 1) (nd.lvl + 1)

def markBack (kind : Kind) (nodes : List Node) : List ℕ → List Node
  | [] => nodes
  | i :: stack => markBack kind (nodes.modify i (setMark kind)) stack

/-- The loop of `locate_node`, from a position on. -/
def scan (depth : ℕ) (name : Name) : ℕ → ℕ → List Node → Option ℕ
  | _, _, [] => none
  | level, i, nd :: nds =>
    if nd.isDir ∧ nd.lvl < depth then none
    else
      let level := if nd.isDir then nd.lvl else level
      if depth < level then scan depth name level (i + 1) nds
      else if nd.name = name then some i
      else scan depth name level (i + 1) nds

variable (nodes : List Node)

def locateNode (start depth : ℕ) (name : Name) : Option ℕ :=
  scan depth name depth start (nodes.drop start)

/-- `locate_dir`: the position after the directory, and the stack with it. The depth is that
of the stack. -/
def locateDir (start : ℕ) (stack : List ℕ) (name : Name) : Except Stop (Option (ℕ × List ℕ)) :=
  match locateNode nodes start stack.length name with
  | none => .ok none
  | some i =>
    match nodes[i]? with
    | none => .ok none
    | some nd =>
      if nd.isDir then
        if nodes.length ≤ i + 1 then .ok none
        else if MAXDEPTH ≤ stack.length then .ok none
        else .ok (some (i + 1, stack ++ [i]))
      -- a null pointer goes on, and is read through
      else if MAXDEPTH ≤ stack.length then .ok none
      else .error .segv

/-- `mark_path` after the directories: `mark_glob` for a trailing slash, `mark_leaf` for a
name, and `mark_back`. -/
def markEnd (kind : Kind) (nodes : List Node) (start : ℕ) (stack : List ℕ) (last : Name) :
    List Node :=
  if last = [] then markBack kind (markDown kind nodes start stack.length) stack
  else
    match locateNode nodes start stack.length last with
    | none => nodes
    | some i => markBack kind (markLeaf kind nodes i) stack

/-- `mark_path` from a position on: the nodes, and the depth it leaves. A directory that is
not found ends it with the depth as it is. -/
def markFrom (kind : Kind) (nodes : List Node) :
    ℕ → List ℕ → List Name → Name → Except Stop (List Node × ℕ)
  | start, stack, [], last => .ok (markEnd kind nodes start stack last, 0)
  | start, stack, dir :: dirs, last => do
    match ← locateDir nodes start stack dir with
    | none => return (nodes, stack.length)
    | some (start, stack) => markFrom kind nodes start stack dirs last

def markPath (kind : Kind) (nodes : List Node) (depth : ℕ) (path : List UInt8) :
    Except Stop (List Node × ℕ) := do
  refuse (depth ≠ 0) (.fail ⟨some "non-zero initial depth", none, none⟩)
  markFrom kind nodes 0 [] (pieces 47 path).1 (pieces 47 path).2

/-! ### Going through the rules -/

/-- `pp->hlen`, a `short`, as an `uint`. -/
def hlenOf (area : List UInt8) : ℕ :=
  let v := leVal (area.take 2)
  if v < 0x8000 then v else v + 0xFFFF0000

/-- `hlen & HLEN_MASK`. -/
def flagOf (hlen : ℕ) : ℕ := hlen / 0x4000 % 4 * 0x4000

/-- The mark for a flag. -/
def kindOf (flag : ℕ) : Except Stop Kind :=
  if flag = Kind.pass.flag then .ok .pass
  else if flag = Kind.deny.flag then .ok .deny
  else .error (.fail ⟨some "invalid rule value", none, none⟩)

/-- The loop of `apply_rules`, with what is left of the area. A rule has at least four bytes,
so that there are no more rounds than bytes. -/
def applyFrom : ℕ → List UInt8 → List Node → ℕ → Except Stop (List Node)
  | 0, _, nodes, _ => .ok nodes
  | k + 1, area, nodes, depth =>
    if area = [] then .ok nodes
    else do
      let hlen := hlenOf area
      let flag := flagOf hlen
      let kind ← kindOf flag
      let (nodes, depth) ← markPath kind nodes depth ((area.drop 2).takeWhile (· ≠ 0))
      applyFrom k (area.drop (hlen - flag)) nodes depth

def applyRules (paths : List UInt8) (nodes : List Node) : Except Stop (List Node) :=
  applyFrom paths.length paths nodes 0

/-- One round of the loop of `check_nodes`: the node, and whether it is warned about with
`EPERM`. -/
def checkOne (nd : Node) : Node × Bool :=
  if nd.mark then (nd, nd.deny)
  else if pol = .denyRest then (nd, true)
  else ({ nd with mark := true, need := true }, false)

def checkNodes : Except Stop (List Node) :=
  if (nodes.map (checkOne pol)).any Prod.snd then
    .error (.fail ⟨some "unable to continue", none, none⟩)
  else .ok (nodes.map fun nd => (checkOne pol nd).1)

/-- `check_chars`: a control character or a slash. -/
def checkChars (name : Name) : Bool := name.any fun c => c < 0x20 || c = 47

def checkNames : List Node → Except Stop Unit
  | [] => .ok ()
  | nd :: nds => do
    refuse (nd.name = []) (.fail ⟨some "empty node name", none, none⟩)
    refuse (nd.name.head? = some 46) (.fail ⟨some "invalid node name:", some nd.name, none⟩)
    refuse (checkChars nd.name = true) (.fail ⟨some "invalid node name:", some nd.name, none⟩)
    checkNames nds

def checkIndex (rs : Rules) (nodes : List Node) : Except Stop (List Node) := do
  checkNames nodes
  let nodes ← applyRules rs.paths nodes
  checkNodes rs.policy nodes

end Minibase.Mpkg
