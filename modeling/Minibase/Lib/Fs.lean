import Minibase.Lib.Split

/-!
# File systems

A file system as the calls that take a directory and a name see it: a finite table of entries,
each a file, a symbolic link or a directory. Directories are of an arbitrary type, so that the
table may be any graph; `Fs.follow` is what the kernel makes of a link. `Fs.openDir` opens a
directory, through links; `Fs.openPath` opens anything. The calls that create refuse a name that
is taken, and any of them may be refused for the name alone (`Fs.refuses`). A new directory takes
the name `Naming.sub` gives it.

Where a directory is its path from the root, `Fs.Tree` says that the table is a tree:
nothing is in a directory that is not there, links are leaves like files, and no name is refused.
It stays one when something is added in a directory that is there (`Fs.Tree.add`), and when
something with nothing below it is taken out (`Fs.Tree.erase`). Two trees with the same leaves
have the same directories, up to those with no leaf below them (`Fs.Tree.isDir_of_leaf`).
-/

namespace Minibase

open List Option

/-- A file name: the bytes before the terminating zero. -/
abbrev Name := List UInt8

/-- Error numbers. -/
inductive Errno
  | ENOENT
  | EEXIST
  | ENOTDIR
  | EISDIR
  | ENOTEMPTY
  | ELOOP
  | E2BIG
  | EINTR
  | EINVAL
  | EPERM
  | ENODEV
  | EACCES
  | ENAMETOOLONG
  | EIO
deriving DecidableEq

/-- An error that does not say that there is nothing. -/
abbrev Refusal : Type := { e : Errno // e ≠ .ENOENT }

/-- What a name stands for. -/
inductive Ent (D : Type)
  | file (data : List UInt8) (exec : Bool)
  | link (target : List UInt8)
  | dir (d : D)
deriving DecidableEq

/-- A file system with directories in `D`. -/
structure Fs (D : Type) where
  /-- The entries, by directory and name. -/
  ents : List ((D × Name) × Ent D)
  /-- The directory a link leads to from the directory it is in, or why it does not. -/
  follow : D → List UInt8 → Except Errno D
  /-- Why a name in a directory is refused, if it is. -/
  refuses : D → Name → Option Refusal := fun _ _ => none

/-- The names new directories take. -/
class Naming (D : Type) where
  /-- The directory that is made for a name in a directory. -/
  sub : D → Name → D

namespace Fs

variable {D : Type} [DecidableEq D]

/-- The entry of a name. -/
def look (fs : Fs D) (d : D) (n : Name) : Option (Ent D) :=
  (fs.ents.find? fun x => x.1 = (d, n)).map Prod.snd

/-- A call that is given a name, with what it does if the name is not refused. -/
def call {β : Type} (fs : Fs D) (d : D) (n : Name) (x : Except Errno β) : Except Errno β :=
  match fs.refuses d n with
  | some e => .error e
  | none => x

/-- `fstatat` without following links. -/
def stat (fs : Fs D) (d : D) (n : Name) : Except Errno (Ent D) :=
  fs.call d n (match fs.look d n with
    | none => .error .ENOENT
    | some e => .ok e)

/-- The directory of a name, through links. -/
def enter (fs : Fs D) (d : D) (n : Name) : Except Errno D :=
  match fs.look d n with
  | none => .error .ENOENT
  | some (.file _ _) => .error .ENOTDIR
  | some (.link t) => fs.follow d t
  | some (.dir d') => .ok d'

/-- `openat` with `O_DIRECTORY`. -/
def openDir (fs : Fs D) (d : D) (n : Name) : Except Errno D := fs.call d n (fs.enter d n)

/-- `openat` with `O_PATH` alone: a descriptor of whatever is there, from a descriptor that
should be of a directory. -/
def openPath (fs : Fs D) (at_ : Option D) (n : Name) : Except Errno (Option D) :=
  match at_ with
  | none => .error .ENOTDIR
  | some d => fs.call d n (match fs.look d n with
    | none => .error .ENOENT
    | some (.file _ _) => .ok none
    | some (.link t) =>
      match fs.follow d t with
      | .ok d' => .ok (some d')
      | .error .ENOTDIR => .ok none
      | .error e => .error e
    | some (.dir d') => .ok (some d'))

/-- The table with one more entry. -/
def add (fs : Fs D) (d : D) (n : Name) (e : Ent D) : Fs D :=
  { fs with ents := ((d, n), e) :: fs.ents }

/-- The table without an entry. -/
def erase (fs : Fs D) (d : D) (n : Name) : Fs D :=
  { fs with ents := fs.ents.filter fun x => x.1 ≠ (d, n) }

/-- Calls that create: there must be nothing by that name. -/
def create (fs : Fs D) (at_ : Option D) (n : Name) (e : D → Ent D) : Except Errno (Fs D) :=
  match at_ with
  | none => .error .ENOTDIR
  | some d => fs.call d n (match fs.look d n with
    | some _ => .error .EEXIST
    | none => .ok (fs.add d n (e d)))

def mkdirat [Naming D] (fs : Fs D) (at_ : Option D) (n : Name) : Except Errno (Fs D) :=
  fs.create at_ n fun d => .dir (Naming.sub d n)

/-- `openat` with `O_CREAT | O_EXCL`, and what is then written. -/
def creat (fs : Fs D) (at_ : Option D) (n : Name) (data : List UInt8) (exec : Bool) :
    Except Errno (Fs D) :=
  fs.create at_ n fun _ => .file data exec

/-- `symlinkat`: a link to nowhere is refused. -/
def symlinkat (fs : Fs D) (target : List UInt8) (at_ : Option D) (n : Name) : Except Errno (Fs D) :=
  if target = [] then .error .ENOENT else fs.create at_ n fun _ => .link target

/-- `unlinkat` of something that is not a directory. -/
def unlinkat (fs : Fs D) (d : D) (n : Name) : Except Errno (Fs D) :=
  fs.call d n (match fs.look d n with
    | none => .error .ENOENT
    | some (.dir _) => .error .EISDIR
    | some _ => .ok (fs.erase d n))

/-- No name is left in the directory. -/
def vacant (fs : Fs D) (d : D) : Bool := fs.ents.all fun x => x.1.1 ≠ d

/-- `unlinkat` with `AT_REMOVEDIR`. -/
def rmdirat (fs : Fs D) (d : D) (n : Name) : Except Errno (Fs D) :=
  fs.call d n (match fs.look d n with
    | none => .error .ENOENT
    | some (.dir d') => if fs.vacant d' then .ok (fs.erase d n) else .error .ENOTEMPTY
    | some _ => .error .ENOTDIR)

/-! ### Names that are refused -/

variable {fs : Fs D} {d d' : D} {n n' : Name} {e : Ent D}

lemma call_of_free {β : Type} {x : Except Errno β} (h : fs.refuses d n = none) :
    fs.call d n x = x := by
  rw [call, h]

/-- **A call that goes well** was not refused. -/
theorem call_ok {β : Type} {x : Except Errno β} {b : β} (h : fs.call d n x = .ok b) :
    fs.refuses d n = none ∧ x = .ok b := by
  rw [call] at h
  rcases hr : fs.refuses d n with - | e <;> rw [hr] at h
  · exact ⟨rfl, h⟩
  · cases h

/-- Nor was one that finds nothing. -/
theorem call_missing {β : Type} {x : Except Errno β} (h : fs.call d n x = .error .ENOENT) :
    fs.refuses d n = none ∧ x = .error .ENOENT := by
  rw [call] at h
  rcases hr : fs.refuses d n with - | e <;> rw [hr] at h
  · exact ⟨rfl, h⟩
  · exact absurd (Except.error.inj h) e.2

lemma stat_missing : fs.stat d n = .error .ENOENT ↔ fs.refuses d n = none ∧ fs.look d n = none := by
  rw [stat]
  constructor
  · intro h
    obtain ⟨hr, h⟩ := call_missing h
    refine ⟨hr, Option.eq_none_iff_forall_ne_some.mpr fun e hlook => ?_⟩
    rw [hlook] at h
    cases h
  · rintro ⟨hr, hlook⟩
    rw [call_of_free hr, hlook]

lemma openDir_ok : fs.openDir d n = .ok d' ↔ fs.refuses d n = none ∧ fs.enter d n = .ok d' :=
  ⟨call_ok, fun h => (call_of_free h.1).trans h.2⟩

/-! ### Looking after a change -/

@[simp] lemma refuses_add : (fs.add d n e).refuses = fs.refuses := rfl

@[simp] lemma look_add_self : (fs.add d n e).look d n = some e := by
  simp [look, add]

lemma look_add_of_ne (h : (d', n') ≠ (d, n)) : (fs.add d n e).look d' n' = fs.look d' n' := by
  have hne : decide ((d, n) = (d', n')) = false := decide_eq_false (Ne.symm h)
  rw [look, add, find?_cons_of_neg (by rw [hne]; exact Bool.false_ne_true)]
  rfl

@[simp] lemma look_erase_self : (fs.erase d n).look d n = none := by
  rw [look, map_eq_none_iff, find?_eq_none]
  intro x hx
  simpa using (mem_filter.mp hx).2

lemma look_erase_of_ne (h : (d', n') ≠ (d, n)) : (fs.erase d n).look d' n' = fs.look d' n' := by
  rw [look, look, erase, find?_filter]
  congr 2
  ext x
  by_cases hx : x.1 = (d', n')
  · simp [hx, h]
  · simp [hx]

lemma vacant_iff : fs.vacant d = true ↔ ∀ n, fs.look d n = none := by
  rw [vacant, List.all_eq_true]
  constructor
  · intro h n
    rw [look, Option.map_eq_none_iff, List.find?_eq_none]
    intro x hx hkey
    have hdir := of_decide_eq_true (h x hx)
    rw [of_decide_eq_true hkey] at hdir
    exact hdir rfl
  · intro h x hx
    refine decide_eq_true fun hdir => ?_
    have hnone := h x.1.2
    rw [look, Option.map_eq_none_iff, List.find?_eq_none] at hnone
    exact hnone x hx (decide_eq_true (Prod.ext hdir rfl))

/-- **What was created** is in a directory and was not there before. -/
theorem create_ok {at_ : Option D} {f : D → Ent D} {fs' : Fs D} (h : fs.create at_ n f = .ok fs') :
    ∃ d, at_ = some d ∧ fs.look d n = none ∧ fs' = fs.add d n (f d) := by
  rcases at_ with - | d
  · cases h
  · rw [create] at h
    obtain ⟨-, h⟩ := call_ok h
    rcases hlook : fs.look d n with - | e <;> rw [hlook] at h
    · cases h
      exact ⟨d, rfl, hlook, rfl⟩
    · cases h

end Fs

/-! ### File systems that are trees -/

instance : Naming (List Name) := ⟨fun d n => d ++ [n]⟩

namespace Fs

variable {fs fs' : Fs (List Name)} {d d' p q : List Name} {n m : Name} {e : Ent (List Name)}

/-- The directory is there. -/
def IsDir (fs : Fs (List Name)) (d : List Name) : Prop :=
  ∀ p n, d = p ++ [n] → fs.look p n = some (.dir d)

/-- **The file system is a tree.** -/
structure Tree (fs : Fs (List Name)) : Prop where
  /-- A directory is where it is called. -/
  dirs : ∀ d n d', fs.look d n = some (.dir d') → d' = d ++ [n]
  /-- Only directories have entries. -/
  closed : ∀ d n, fs.look d n ≠ none → fs.IsDir d
  /-- Everything has a name. -/
  named : ∀ d, fs.look d [] = none
  /-- Links do not lead to directories. -/
  links : ∀ d t, ∃ e, fs.follow d t = .error e
  /-- No name is refused. -/
  free : ∀ d n, fs.refuses d n = none

/-- The file or link of a name. -/
def leaf (fs : Fs (List Name)) (d : List Name) (n : Name) : Option (Ent (List Name)) :=
  match fs.look d n with
  | some (.dir _) => none
  | e => e

/-- The directory at the end of a path, as the kernel walks along it. -/
def walkTo (fs : Fs (List Name)) : List Name → List Name → Except Errno (List Name)
  | d, [] => .ok d
  | d, n :: p =>
    if n = [] ∨ n = [46] then walkTo fs d p
    else if n = [46, 46] then walkTo fs d.dropLast p
    else do
      let d ← fs.openDir d n
      walkTo fs d p

/-- `open` of an absolute path with `O_DIRECTORY`. -/
def openAbs (fs : Fs (List Name)) (path : List UInt8) : Except Errno (List Name) :=
  fs.walkTo [] ((pieces 47 path).1 ++ [(pieces 47 path).2])

/-! ### Directories -/

lemma isDir_nil (fs : Fs (List Name)) : fs.IsDir [] :=
  fun p n h => absurd h.symm (append_ne_nil_of_right_ne_nil p (cons_ne_nil n []))

lemma isDir_snoc : fs.IsDir (d ++ [n]) ↔ fs.look d n = some (.dir (d ++ [n])) := by
  refine ⟨fun h => h d n rfl, fun h p m heq => ?_⟩
  obtain ⟨rfl, hn⟩ := append_inj' heq rfl
  cases hn
  exact h

namespace Tree

/-- The directories along the way to a directory are there. -/
theorem isDir_of_append (h : fs.Tree) (hdir : fs.IsDir (p ++ q)) : fs.IsDir p := by
  induction q using reverseRecOn with
  | nil => rwa [append_nil] at hdir
  | append_singleton q n ih =>
    rw [← append_assoc, isDir_snoc] at hdir
    refine ih (h.closed (p ++ q) n ?_)
    rw [hdir]
    exact nofun

lemma isDir_dropLast (h : fs.Tree) (hdir : fs.IsDir d) : fs.IsDir d.dropLast := by
  rcases eq_nil_or_concat d with rfl | ⟨p, n, rfl⟩
  · exact hdir
  · rw [concat_eq_append] at *
    rw [dropLast_concat]
    exact h.isDir_of_append hdir

lemma openDir_eq (h : fs.Tree) (d : List Name) (n : Name) : fs.openDir d n = fs.enter d n :=
  call_of_free (h.free d n)

lemma stat_missing (h : fs.Tree) : fs.stat d n = .error .ENOENT ↔ fs.look d n = none := by
  rw [Fs.stat_missing, and_iff_right (h.free d n)]

lemma stat_of_look (h : fs.Tree) (hlook : fs.look d n = some e) : fs.stat d n = .ok e := by
  rw [stat, call_of_free (h.free d n), hlook]

lemma openDir_of_isDir (h : fs.Tree) (hdir : fs.IsDir (d ++ [n])) :
    fs.openDir d n = .ok (d ++ [n]) := by
  rw [h.openDir_eq, enter, isDir_snoc.mp hdir]

lemma isDir_of_openDir (h : fs.Tree) (hopen : fs.openDir d n = .ok d') :
    d' = d ++ [n] ∧ fs.IsDir (d ++ [n]) := by
  rw [h.openDir_eq, enter] at hopen
  rcases hlook : fs.look d n with - | (⟨data, exec⟩ | t | d₁) <;> rw [hlook] at hopen
  · cases hopen
  · cases hopen
  · obtain ⟨e, he⟩ := h.links d t
    rw [show fs.follow d t = .ok d' from hopen] at he
    cases he
  · cases hopen
    obtain rfl := h.dirs d n d' hlook
    exact ⟨rfl, isDir_snoc.mpr hlook⟩

/-- What is opened without asking for a directory is one all the same, or nothing can be
looked up from it. -/
theorem openPath_ok (h : fs.Tree) {at_ fd : Option (List Name)}
    (hopen : fs.openPath at_ n = .ok fd) :
    ∃ d, at_ = some d ∧ (fd = none ∨ (fd = some (d ++ [n]) ∧ fs.IsDir (d ++ [n]))) := by
  rcases at_ with - | d
  · cases hopen
  refine ⟨d, rfl, ?_⟩
  replace hopen := (call_ok hopen).2
  rcases hlook : fs.look d n with - | (⟨data, exec⟩ | t | d₁) <;> rw [hlook] at hopen
  · cases hopen
  · cases hopen
    exact .inl rfl
  · obtain ⟨e, he⟩ := h.links d t
    simp only [he] at hopen
    split at hopen
    · rename_i heq
      cases heq
    · cases hopen
      exact .inl rfl
    · cases hopen
  · cases hopen
    obtain rfl := h.dirs d n d₁ hlook
    exact .inr ⟨rfl, isDir_snoc.mpr hlook⟩

/-- Whatever is at the end of a walk is there. -/
theorem isDir_of_walkTo (h : fs.Tree) (hdir : fs.IsDir d) (hwalk : fs.walkTo d p = .ok d') :
    fs.IsDir d' := by
  induction p generalizing d with
  | nil =>
    cases hwalk
    exact hdir
  | cons n p ih =>
    rw [walkTo] at hwalk
    split_ifs at hwalk
    · exact ih hdir hwalk
    · exact ih (h.isDir_dropLast hdir) hwalk
    · rcases hopen : fs.openDir d n with e | d₁ <;> rw [hopen] at hwalk
      · cases hwalk
      · obtain ⟨rfl, hdir⟩ := h.isDir_of_openDir hopen
        exact ih hdir hwalk

end Tree

/-- A walk ends where it did when there are more directories. -/
theorem walkTo_mono (hmore : ∀ d n d', fs.openDir d n = .ok d' → fs'.openDir d n = .ok d')
    (hwalk : fs.walkTo d p = .ok d') : fs'.walkTo d p = .ok d' := by
  induction p generalizing d with
  | nil => exact hwalk
  | cons n p ih =>
    rw [walkTo] at hwalk ⊢
    split_ifs at hwalk ⊢
    · exact ih hwalk
    · exact ih hwalk
    · rcases hopen : fs.openDir d n with e | d₁ <;> rw [hopen] at hwalk
      · cases hwalk
      · rw [hmore d n d₁ hopen]
        exact ih hwalk

/-- A name that does not stand for a directory above. -/
def Plain (n : Name) : Prop := n ≠ [] ∧ n ≠ [46] ∧ n ≠ [46, 46]
deriving Decidable

lemma walkTo_plain (hn : Plain n) :
    fs.walkTo d (n :: p) = fs.openDir d n >>= fun d => fs.walkTo d p := by
  rw [walkTo, if_neg (not_or.mpr ⟨hn.1, hn.2.1⟩), if_neg hn.2.2]

/-- A walk along plain names leads where they say. -/
theorem Tree.walkTo_eq (h : fs.Tree) (hp : ∀ n ∈ p, Plain n) (hwalk : fs.walkTo d p = .ok d') :
    d' = d ++ p := by
  induction p generalizing d with
  | nil =>
    cases hwalk
    rw [append_nil]
  | cons n p ih =>
    obtain ⟨hn, hp⟩ := forall_mem_cons.mp hp
    rw [walkTo_plain hn] at hwalk
    rcases hopen : fs.openDir d n with e | d₁ <;> rw [hopen] at hwalk
    · cases hwalk
    · obtain ⟨rfl, -⟩ := h.isDir_of_openDir hopen
      rw [ih hp hwalk, append_assoc, singleton_append]

lemma Tree.walkTo_of_isDir (h : fs.Tree) (hp : ∀ n ∈ p, Plain n) (hdir : fs.IsDir (d ++ p)) :
    fs.walkTo d p = .ok (d ++ p) := by
  induction p generalizing d with
  | nil => rw [walkTo, append_nil]
  | cons n p ih =>
    obtain ⟨hn, hp⟩ := forall_mem_cons.mp hp
    have hsplit : d ++ n :: p = d ++ [n] ++ p := append_cons d n p
    rw [hsplit] at hdir ⊢
    rw [walkTo_plain hn, h.openDir_of_isDir (h.isDir_of_append hdir)]
    exact ih hp hdir

/-! ### More entries -/

/-- Everything is still there. -/
def Extends (fs fs' : Fs (List Name)) : Prop :=
  ∀ d n, fs.look d n ≠ none → fs'.look d n = fs.look d n

lemma Extends.refl (fs : Fs (List Name)) : Extends fs fs := fun _ _ _ => rfl

lemma Extends.trans {fs₁ fs₂ fs₃ : Fs (List Name)} (h : Extends fs₁ fs₂)
    (h' : Extends fs₂ fs₃) : Extends fs₁ fs₃ := by
  intro d n hlook
  have hsame := h d n hlook
  rw [h' d n (by rwa [hsame]), hsame]

lemma Extends.look_eq_none (h : Extends fs fs') (hnone : fs'.look d n = none) :
    fs.look d n = none := by
  by_contra hlook
  rw [h d n hlook] at hnone
  exact hlook hnone

lemma IsDir.extends (hdir : fs.IsDir q) (h : Extends fs fs') : fs'.IsDir q := by
  intro p n heq
  have hlook := hdir p n heq
  rw [h p n (by rw [hlook]; exact nofun), hlook]

lemma extends_add (hfree : fs.look d n = none) (e : Ent (List Name)) :
    Extends fs (fs.add d n e) := by
  intro q m hlook
  refine look_add_of_ne fun hkey => hlook ?_
  cases hkey
  exact hfree

lemma IsDir.add (h : fs.IsDir q) (hfree : fs.look d n = none) : (fs.add d n e).IsDir q :=
  h.extends (extends_add hfree e)

/-- **A tree grows** by what has nothing below it yet. -/
theorem Tree.add (h : fs.Tree) (hdir : fs.IsDir d) (hfree : fs.look d n = none) (hn : n ≠ [])
    (he : ∀ d', e = .dir d' → d' = d ++ [n]) : (fs.add d n e).Tree := by
  refine ⟨?_, ?_, ?_, h.links, h.free⟩
  · intro q m d' hlook
    by_cases hkey : (q, m) = (d, n)
    · cases hkey
      rw [look_add_self] at hlook
      exact he d' (Option.some.inj hlook)
    · rw [look_add_of_ne hkey] at hlook
      exact h.dirs q m d' hlook
  · intro q m hlook
    by_cases hkey : (q, m) = (d, n)
    · cases hkey
      exact hdir.add hfree
    · rw [look_add_of_ne hkey] at hlook
      exact (h.closed q m hlook).add hfree
  · intro q
    rw [look_add_of_ne, h.named q]
    rintro ⟨rfl, rfl⟩
    exact hn rfl

lemma leaf_add_of_ne (hkey : (q, m) ≠ (d, n)) : (fs.add d n e).leaf q m = fs.leaf q m := by
  rw [leaf, look_add_of_ne hkey, leaf]

lemma leaf_add_dir (hfree : fs.look d n = none) (q : List Name) (m : Name) :
    (fs.add d n (.dir d')).leaf q m = fs.leaf q m := by
  by_cases hkey : (q, m) = (d, n)
  · cases hkey
    rw [leaf, look_add_self, leaf, hfree]
  · exact leaf_add_of_ne hkey

/-- A walk ends where it did when there is more. -/
theorem Tree.walkTo_extends (h : fs.Tree) (h' : fs'.Tree) (hmore : Extends fs fs')
    (hwalk : fs.walkTo d p = .ok d') : fs'.walkTo d p = .ok d' := by
  refine walkTo_mono ?_ hwalk
  intro q m q' hopen
  obtain ⟨rfl, hdir⟩ := h.isDir_of_openDir hopen
  exact h'.openDir_of_isDir (hdir.extends hmore)

/-! ### Fewer entries -/

lemma IsDir.erase (h : fs.IsDir q) (hne : q ≠ d ++ [n]) : (fs.erase d n).IsDir q := by
  intro p m heq
  rw [look_erase_of_ne, h p m heq]
  rintro ⟨rfl, rfl⟩
  exact hne heq

/-- **A tree shrinks** by what has nothing below it. -/
theorem Tree.erase (h : fs.Tree) (hempty : ∀ m, fs.look (d ++ [n]) m = none) :
    (fs.erase d n).Tree := by
  have hold : ∀ q m, (fs.erase d n).look q m ≠ none → (fs.erase d n).look q m = fs.look q m := by
    intro q m hlook
    refine look_erase_of_ne fun hkey => hlook ?_
    cases hkey
    exact look_erase_self
  refine ⟨?_, ?_, ?_, h.links, h.free⟩
  · intro q m d' hlook
    refine h.dirs q m d' ?_
    rw [← hold q m (by rw [hlook]; exact nofun), hlook]
  · intro q m hlook
    have hlook' := hlook
    rw [hold q m hlook] at hlook'
    refine (h.closed q m hlook').erase ?_
    rintro rfl
    exact hlook' (hempty m)
  · intro q
    by_contra hlook
    rw [hold q [] hlook] at hlook
    exact hlook (h.named q)

/-- Nothing is below a leaf. -/
theorem Tree.below_leaf (h : fs.Tree) (hleaf : ∀ d', fs.look d n ≠ some (.dir d')) (m : Name) :
    fs.look (d ++ [n]) m = none := by
  by_contra hlook
  exact hleaf _ (isDir_snoc.mp (h.closed _ m hlook))

lemma leaf_erase_self : (fs.erase d n).leaf d n = none := by
  rw [leaf, look_erase_self]

lemma leaf_erase_of_ne (hkey : (q, m) ≠ (d, n)) : (fs.erase d n).leaf q m = fs.leaf q m := by
  rw [leaf, look_erase_of_ne hkey, leaf]

lemma leaf_erase_dir (hdir : fs.look d n = some (.dir d')) (q : List Name) (m : Name) :
    (fs.erase d n).leaf q m = fs.leaf q m := by
  by_cases hkey : (q, m) = (d, n)
  · cases hkey
    rw [leaf_erase_self, leaf, hdir]
  · exact leaf_erase_of_ne hkey

/-! ### Leaves -/

lemma look_ne_none_of_leaf (h : fs.leaf d n ≠ none) :
    fs.look d n ≠ none ∧ ∀ d', fs.look d n ≠ some (.dir d') := by
  refine ⟨fun hlook => ?_, fun d' hlook => ?_⟩ <;> rw [leaf, hlook] at h <;> exact h rfl

/-- **The way to a leaf is there.** -/
theorem Tree.isDir_of_leaf (h : fs.Tree) (hleaf : fs.leaf q n ≠ none) (hpre : p <+: q) :
    fs.IsDir p := by
  obtain ⟨r, rfl⟩ := hpre
  exact h.isDir_of_append (h.closed _ n (look_ne_none_of_leaf hleaf).1)

/-- A leaf is taken out by `unlinkat`. -/
theorem Tree.unlinkat_leaf (h : fs.Tree) (hleaf : fs.leaf d n ≠ none) :
    fs.unlinkat d n = .ok (fs.erase d n) := by
  obtain ⟨hsome, hdir⟩ := look_ne_none_of_leaf hleaf
  rw [unlinkat, call_of_free (h.free d n)]
  rcases hlook : fs.look d n with - | (⟨data, exec⟩ | t | d₁)
  · exact absurd hlook hsome
  · rfl
  · rfl
  · exact absurd hlook (hdir d₁)

/-- **`rmdir` of a directory in a tree** takes it out or says that it is not empty, and no
leaf is lost. -/
theorem Tree.rmdirat (h : fs.Tree) (hdir : fs.IsDir (d ++ [n])) :
    (fs.rmdirat d n = .ok (fs.erase d n) ∧ (fs.erase d n).Tree ∧
      ∀ q m, (fs.erase d n).leaf q m = fs.leaf q m) ∨
    fs.rmdirat d n = .error .ENOTEMPTY := by
  have hlook := isDir_snoc.mp hdir
  rw [Fs.rmdirat, call_of_free (h.free d n), hlook]
  by_cases hvacant : fs.vacant (d ++ [n]) = true
  · refine .inl ⟨if_pos hvacant, h.erase (vacant_iff.mp hvacant), leaf_erase_dir hlook⟩
  · exact .inr (if_neg hvacant)

end Fs

end Minibase
