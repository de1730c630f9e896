import Minibase.Mpkg.Index

/-!
# Deploying a package

`mpkg_deploy.c` goes through the index twice with a stack of open directories: once to see
what is in the way (`Mpkg.checkConflict`), once to unpack (`Mpkg.unpackContent`). A directory
entry first closes the directories at its own level and below, and is then opened and pushed; but
the first walk does not push a directory that is not there. In `Mpkg.Walk`, `at` is the
descriptor names are looked up from and `stack` has the ones to go back to, innermost first. A
failure ends the process and is reported with the path it is about, below the prefix.
-/

namespace Minibase.Mpkg

open List

/-- The directories that are open: `ctx->at` and the arrays `pfds` and `path`, up to
`ctx->depth`. -/
structure Walk (H : Type) where
  at_ : H
  stack : List (H × Name)

namespace Walk

variable {H : Type} (w : Walk H)

/-- `ctx->depth`. -/
def depth : ℕ := w.stack.length

/-- The names on the stack, outermost first. -/
def path : List Name := (w.stack.map Prod.snd).reverse

/-- One directory deeper. -/
def push (name : Name) (fd : H) : Walk H := ⟨fd, (w.at_, name) :: w.stack⟩

/-- `rewind_path` and `unpack_back`, on the two parts of a walk. -/
def rewindFrom (lvl : ℕ) : H → List (H × Name) → Walk H
  | at_, [] => ⟨at_, []⟩
  | at_, (fd, name) :: st =>
    if lvl < st.length + 1 then rewindFrom lvl fd st else ⟨at_, (fd, name) :: st⟩

/-- Closes directories until the depth is at most `lvl`. -/
def rewind (lvl : ℕ) : Walk H := rewindFrom lvl w.at_ w.stack

/-- The walk along a path, if `f` gives the descriptor of each directory on it; the path is
innermost first. -/
def towerRev (f : List Name → H) : List Name → Walk H
  | [] => ⟨f [], []⟩
  | n :: p => (towerRev f p).push n (f (n :: p).reverse)

/-- The walk along a path, outermost name first. -/
def tower (f : List Name → H) (p : List Name) : Walk H := towerRev f p.reverse

end Walk

/-- The arguments of `warnx` and `failx`: a message, the path below the prefix, and an error
number. -/
structure Warn where
  msg : Option String
  path : List Name
  err : Errno
deriving DecidableEq

section Check

variable {D : Type} [DecidableEq D]

def checkLeaf (fs : Fs D) (w : Walk D) (nd : Node) : List Warn :=
  if ¬nd.need then []
  else
    match fs.stat w.at_ nd.name with
    | .ok _ => [⟨none, w.path ++ [nd.name], .EEXIST⟩]
    | .error .ENOENT => []
    | .error e => [⟨none, w.path ++ [nd.name], e⟩]

def checkDir (fs : Fs D) (w : Walk D) (nd : Node) : Walk D × Node × List Warn :=
  if ¬nd.need then (w, nd, [])
  else if MAXDEPTH ≤ w.depth then (w, nd, [])
  else
    match fs.openDir w.at_ nd.name with
    | .error .ENOENT => (w, nd, [])
    | .error e => (w, nd, [⟨none, w.path ++ [nd.name], e⟩])
    | .ok fd => (w.push nd.name fd, { nd with exst := true }, [])

/-- One round of the loop of `check_conflict`. -/
def checkNode (fs : Fs D) (w : Walk D) (nd : Node) : Walk D × Node × List Warn :=
  if nd.isDir then checkDir fs (w.rewind nd.lvl) nd
  else (w, nd, checkLeaf fs w nd)

/-- The loop of `check_conflict`: the nodes with their new bits, and the warnings. -/
def checkAll (fs : Fs D) : Walk D → List Node → List Node × List Warn
  | _, [] => ([], [])
  | w, nd :: nds =>
    let (w', nd', ws) := checkNode fs w nd
    let (nds', ws') := checkAll fs w' nds
    (nd' :: nds', ws ++ ws')

/-- `check_conflict`. Any warning sets `ctx->fail`, on which it gives up at the end. -/
def checkConflict (fs : Fs D) (at_ : D) (index : List Node) : List Node × List Warn :=
  checkAll fs ⟨at_, []⟩ index

end Check

section Unpack

variable {D : Type} [DecidableEq D] [Naming D]

/-- What unpacking goes on with: the file system, the open directories, `ctx->level` and
the content still to be read. -/
structure Unpacking (D : Type) where
  fs : Fs D
  walk : Walk (Option D)
  level : ℕ
  data : List UInt8

def failx {α : Type} (w : Walk (Option D)) (msg : Option String) (name : Name) (err : Errno) :
    Except Warn α :=
  .error ⟨msg, w.path ++ [name], err⟩

/-- A call that is given up on with `failx`. -/
def orFailx {α : Type} (w : Walk (Option D)) (name : Name) : Except Errno α → Except Warn α
  | .ok a => .ok a
  | .error e => failx w none name e

variable (u : Unpacking D) (nd : Node)

/-- `transfer_data`: the bytes that go to the descriptor, and those left. On a stream that
ends early `transfer_send` gives up and `transfer_read` never returns. -/
def transferData : Except Warn (List UInt8 × List UInt8) :=
  if u.data.length < nd.size then failx u.walk (some "sendfile") nd.name .EINTR
  else .ok (u.data.take nd.size, u.data.drop nd.size)

def unpackDir : Except Warn (Unpacking D) :=
  if ¬nd.need then .ok u
  else if MAXDEPTH ≤ u.walk.depth then failx u.walk none nd.name .ELOOP
  else do
    let fs ← if nd.exst then .ok u.fs else orFailx u.walk nd.name (u.fs.mkdirat u.walk.at_ nd.name)
    let fd ← orFailx u.walk nd.name (fs.openPath u.walk.at_ nd.name)
    return { u with fs := fs, walk := u.walk.push nd.name fd }

def unpackLink : Except Warn (Unpacking D) :=
  if PAGE < nd.size then failx u.walk none nd.name .E2BIG
  else if u.data.length < nd.size then failx u.walk none nd.name .EINTR
  else if 0 ∈ u.data.take nd.size then failx u.walk none nd.name .EINVAL
  else do
    let fs ← orFailx u.walk nd.name (u.fs.symlinkat (u.data.take nd.size) u.walk.at_ nd.name)
    return { u with fs := fs, data := u.data.drop nd.size }

def unpackFile : Except Warn (Unpacking D) := do
  let fs ← orFailx u.walk nd.name (u.fs.creat u.walk.at_ nd.name (u.data.take nd.size) nd.isExec)
  let (_, rest) ← transferData u nd
  return { u with fs := fs, data := rest }

def unpackSkip : Except Warn (Unpacking D) := do
  let (_, rest) ← transferData u nd
  return { u with data := rest }

/-- One round of the loop of `unpack_content`. -/
def unpackNode : Except Warn (Unpacking D) :=
  if nd.isDir then
    let u' := { u with level := nd.lvl }
    if u.walk.depth < nd.lvl then .ok u'
    else unpackDir { u' with walk := u.walk.rewind nd.lvl } nd
  else if u.walk.depth < u.level then unpackSkip u nd
  else if ¬nd.need then unpackSkip u nd
  else if nd.isLink then unpackLink u nd
  else unpackFile u nd

/-- `unpack_content`. -/
def unpackNodes : Unpacking D → List Node → Except Warn (Unpacking D)
  | u, [] => .ok u
  | u, nd :: nds => do
    let u ← unpackNode u nd
    unpackNodes u nds

/-- `unpack_content`, from the directory the prefix is. -/
def unpackContent (fs : Fs D) (at_ : D) (index : List Node) (data : List UInt8) :
    Except Warn (Unpacking D) :=
  unpackNodes ⟨fs, ⟨some at_, []⟩, 0, data⟩ index

end Unpack

/-! ### Walks -/

namespace Walk

variable {H : Type} {f : List Name → H} {p : List Name}

lemma path_towerRev (p : List Name) : (towerRev f p).path = p.reverse := by
  induction p with
  | nil => rfl
  | cons n p ih =>
    rw [towerRev, path, push, map_cons, reverse_cons, reverse_cons]
    rw [path] at ih
    rw [ih]

lemma depth_towerRev (p : List Name) : (towerRev f p).depth = p.length := by
  induction p with
  | nil => rfl
  | cons n p ih => exact congrArg (· + 1) ih

lemma depth_tower (p : List Name) : (tower f p).depth = p.length := by
  rw [tower, depth_towerRev, length_reverse]

lemma path_tower (p : List Name) : (tower f p).path = p := by
  rw [tower, path_towerRev, reverse_reverse]

lemma at_tower (p : List Name) : (tower f p).at_ = f p := by
  rw [tower]
  obtain hp | ⟨q, n, rfl⟩ := p.eq_nil_or_concat
  · rw [hp]
    rfl
  · rw [concat_eq_append, reverse_append, reverse_singleton, singleton_append]
    show f (n :: q.reverse).reverse = _
    rw [reverse_cons, reverse_reverse]

lemma tower_snoc (p : List Name) (n : Name) :
    tower f (p ++ [n]) = (tower f p).push n (f (p ++ [n])) := by
  rw [tower, reverse_append, reverse_singleton, singleton_append, towerRev,
    reverse_cons, reverse_reverse]
  rfl

lemma rewind_towerRev (lvl : ℕ) (p : List Name) :
    (towerRev f p).rewind lvl = towerRev f (p.drop (p.length - lvl)) := by
  induction p with
  | nil =>
    rw [drop_nil]
    rfl
  | cons n p ih =>
    have hlen : (towerRev f p).stack.length = p.length := depth_towerRev p
    show (if lvl < (towerRev f p).stack.length + 1 then (towerRev f p).rewind lvl
      else towerRev f (n :: p)) = _
    rw [hlen, length_cons]
    split
    · rename_i hlt
      rw [ih, Nat.succ_sub (Nat.le_of_lt_succ hlt), drop_succ_cons]
    · rename_i hge
      rw [Nat.sub_eq_zero_of_le (Nat.le_of_not_lt hge), drop_zero]

/-- **Going back along a walk** is walking less far. -/
theorem rewind_tower (lvl : ℕ) (p : List Name) : (tower f p).rewind lvl = tower f (p.take lvl) := by
  rw [tower, rewind_towerRev, tower, length_reverse, ← reverse_take]

lemma rewindFrom_cons (lvl : ℕ) (at_ fd : H) (name : Name) (st : List (H × Name)) :
    rewindFrom lvl at_ ((fd, name) :: st)
      = if lvl < st.length + 1 then rewindFrom lvl fd st else ⟨at_, (fd, name) :: st⟩ := rfl

/-- Going back far enough is one step back less. -/
theorem rewind_push {w : Walk H} {name : Name} {fd : H} {lvl : ℕ} (h : lvl ≤ w.depth) :
    (w.push name fd).rewind lvl = w.rewind lvl := if_pos (Nat.lt_succ_of_le h)

lemma depth_rewind (w : Walk H) (lvl : ℕ) : (w.rewind lvl).depth = min lvl w.depth := by
  obtain ⟨at_, st⟩ := w
  induction st generalizing at_ with
  | nil => exact (Nat.min_zero lvl).symm
  | cons x st ih =>
    obtain ⟨fd, name⟩ := x
    show (rewindFrom lvl at_ ((fd, name) :: st)).depth = min lvl (st.length + 1)
    rw [rewindFrom_cons]
    split
    · rename_i hlt
      have hst : (rewindFrom lvl fd st).depth = min lvl st.length := ih fd
      rw [hst, min_eq_left (Nat.le_of_lt_succ hlt), min_eq_left hlt.le]
    · rename_i hge
      exact (min_eq_right (Nat.le_of_not_lt hge)).symm

/-- **Going back in two steps** is going back in one. -/
theorem rewind_rewind (w : Walk H) {k lvl : ℕ} (h : lvl ≤ k) :
    (w.rewind k).rewind lvl = w.rewind lvl := by
  obtain ⟨at_, st⟩ := w
  induction st generalizing at_ with
  | nil => rfl
  | cons x st ih =>
    obtain ⟨fd, name⟩ := x
    show (rewindFrom k at_ ((fd, name) :: st)).rewind lvl = rewindFrom lvl at_ ((fd, name) :: st)
    rw [rewindFrom_cons k]
    split
    · rename_i hlt
      rw [rewindFrom_cons, if_pos (lt_of_le_of_lt h hlt)]
      exact ih fd
    · rfl

/-- Only the directories along a walk matter. -/
theorem tower_congr {g : List Name → H} (h : ∀ q, q <+: p → f q = g q) : tower f p = tower g p := by
  induction p using reverseRecOn with
  | nil =>
    show Walk.mk (f []) [] = Walk.mk (g []) []
    rw [h [] prefix_rfl]
  | append_singleton p n ih =>
    rw [tower_snoc, tower_snoc, h _ prefix_rfl, ih fun q hq => h q (hq.trans (prefix_append p [n]))]

end Walk

end Minibase.Mpkg
