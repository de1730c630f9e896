import Mathlib.Data.UInt

/-!
# Descriptors and epoll

What a process has open, and what its epoll instance watches. A descriptor is a number that
stands for an open file, of which other processes may have copies. A registration is made for a
descriptor but belongs to the file behind it: it stays until it is removed or until the last
copy of the file is closed, and may outlive the descriptor. The operations are
`Kernel.openFile`, `Kernel.add`, `Kernel.del`, `Kernel.close` and, for the last copies
elsewhere, `Kernel.release`. `Kernel.Sound` is what they keep.
-/

namespace Minibase

open List Option

/-- A registration: the file and the descriptor it was made with, and the key it was given. -/
structure Reg where
  file : ℕ
  fd : ℤ
  key : ℕ
deriving DecidableEq, Repr

/-- The descriptors of the process with the files they stand for, the files others have copies
of, the number of the next file to be opened, and the registrations. -/
structure Kernel where
  fds : List (ℤ × ℕ)
  held : List ℕ
  next : ℕ
  regs : List Reg
deriving DecidableEq, Repr

namespace Kernel

variable (k : Kernel) (fd fd' : ℤ) (key f : ℕ) (r : Reg)

/-- The file a descriptor stands for, if it is open. -/
def fileOf : Option ℕ := (k.fds.find? fun p => p.1 = fd).map Prod.snd

/-- There is a copy of the file somewhere. -/
def alive : Bool := f ∈ k.held || f ∈ k.fds.map Prod.snd

/-- A new file is opened. -/
def openFile : Kernel := { k with fds := (fd, k.next) :: k.fds, next := k.next + 1 }

/-- The registrations of files of which no copy is left go. -/
def tidy : Kernel := { k with regs := k.regs.filter fun r => k.alive r.file }

def close : Kernel := tidy { k with fds := k.fds.filter fun p => p.1 ≠ fd }

/-- `EPOLL_CTL_ADD`: not for a descriptor that is not open, and only once for one that is. -/
def add : Kernel :=
  match k.fileOf fd with
  | none => k
  | some f =>
    if k.regs.any fun r => r.file = f && r.fd = fd then k
    else { k with regs := ⟨f, fd, key⟩ :: k.regs }

/-- `EPOLL_CTL_DEL`. -/
def del : Kernel :=
  { k with regs := k.regs.filter fun r => !(r.fd = fd && k.fileOf fd = some r.file) }

/-- Someone else gets a copy of a file. -/
def hold : Kernel := { k with held := f :: k.held }

/-- The copies elsewhere of a file are closed. -/
def release : Kernel := tidy { k with held := k.held.filter fun g => g ≠ f }

/-! ### Which file a descriptor stands for -/

variable {k fd fd' key f r}

lemma mem_of_fileOf (h : k.fileOf fd = some f) : (fd, f) ∈ k.fds := by
  obtain ⟨⟨fd', f'⟩, hfind, rfl⟩ := map_eq_some_iff.mp h
  have heq : fd' = fd := by simpa using find?_some hfind
  exact heq ▸ mem_of_find?_eq_some hfind

lemma alive_of_fileOf (h : k.fileOf fd = some f) : k.alive f = true := by
  rw [alive, Bool.or_eq_true]
  exact .inr (decide_eq_true (mem_map.mpr ⟨_, mem_of_fileOf h, rfl⟩))

@[simp] lemma fileOf_openFile_self : (k.openFile fd).fileOf fd = some k.next := by
  simp [fileOf, openFile]

lemma fileOf_openFile_ne (h : fd' ≠ fd) : (k.openFile fd).fileOf fd' = k.fileOf fd' := by
  simp [fileOf, openFile, h.symm]

/-- What is open stays open when something else is opened. -/
theorem fileOf_openFile_of_none (hfree : k.fileOf fd = none) (hf : k.fileOf fd' = some f) :
    (k.openFile fd).fileOf fd' = some f := by
  refine (fileOf_openFile_ne ?_).trans hf
  rintro rfl
  rw [hfree] at hf
  cases hf

@[simp] lemma fileOf_add : (k.add fd key).fileOf fd' = k.fileOf fd' := by
  rw [add]
  split
  · rfl
  · split <;> rfl

@[simp] lemma fileOf_del : (k.del fd).fileOf fd' = k.fileOf fd' := rfl

@[simp] lemma fileOf_hold : (k.hold f).fileOf fd = k.fileOf fd := rfl

@[simp] lemma fileOf_release : (k.release f).fileOf fd = k.fileOf fd := rfl

@[simp] lemma fileOf_close_self : (k.close fd).fileOf fd = none := by
  simp only [fileOf, close, tidy, map_eq_none_iff, find?_eq_none]
  intro p hp
  simpa using (mem_filter.mp hp).2

lemma fileOf_close_ne (h : fd' ≠ fd) : (k.close fd).fileOf fd' = k.fileOf fd' := by
  simp only [fileOf, close, tidy]
  congr 1
  induction k.fds with
  | nil => rfl
  | cons p ps ih =>
    by_cases hp : p.1 = fd
    · rw [filter_cons_of_neg (by simpa using hp), ih, find?_cons_of_neg]
      simpa [hp] using h.symm
    · rw [filter_cons_of_pos (by simpa using hp), find?_cons, find?_cons, ih]

/-- What is open after a file was closed was open before. -/
theorem fileOf_of_close (h : (k.close fd).fileOf fd' = some f) :
    fd' ≠ fd ∧ k.fileOf fd' = some f := by
  have hne : fd' ≠ fd := by
    rintro rfl
    rw [fileOf_close_self] at h
    cases h
  exact ⟨hne, (fileOf_close_ne hne).symm.trans h⟩

/-! ### What is registered -/

lemma mem_regs_add : r ∈ (k.add fd key).regs ↔
    r ∈ k.regs ∨ (r = ⟨r.file, fd, key⟩ ∧ k.fileOf fd = some r.file ∧
      ∀ r' ∈ k.regs, ¬(r'.file = r.file ∧ r'.fd = fd)) := by
  rw [add]
  split
  · rename_i hf
    refine ⟨.inl, ?_⟩
    rintro (h | ⟨-, h, -⟩)
    · exact h
    · rw [hf] at h
      cases h
  · rename_i g hf
    split
    · rename_i hany
      refine ⟨.inl, ?_⟩
      rintro (h | ⟨-, h, hnone⟩)
      · exact h
      · obtain rfl : g = r.file := Option.mem_unique hf h
        obtain ⟨r', hr', hsame⟩ := any_eq_true.mp hany
        exact absurd (by simpa using hsame) (hnone r' hr')
    · rename_i hany
      rw [mem_cons]
      constructor
      · rintro (rfl | h)
        · refine .inr ⟨rfl, hf, fun r' hr' hsame => hany ?_⟩
          exact any_eq_true.mpr ⟨r', hr', by simpa using hsame⟩
        · exact .inl h
      · rintro (h | ⟨hr, h, -⟩)
        · exact .inr h
        · obtain rfl : g = r.file := Option.mem_unique hf h
          exact .inl hr

lemma mem_regs_del : r ∈ (k.del fd).regs ↔
    r ∈ k.regs ∧ ¬(r.fd = fd ∧ k.fileOf fd = some r.file) := by
  rw [del, mem_filter, Bool.not_eq_true', Bool.and_eq_false_imp]
  simp

lemma mem_regs_close : r ∈ (k.close fd).regs ↔
    r ∈ k.regs ∧ (r.file ∈ k.held ∨ ∃ fd', (fd', r.file) ∈ k.fds ∧ fd' ≠ fd) := by
  simp [close, tidy, alive]

/-- Closing a file and others letting go of theirs only takes registrations away. -/
theorem mem_regs_of_close (h : r ∈ (k.close fd).regs) : r ∈ k.regs := (mem_regs_close.mp h).1

lemma mem_regs_of_release (h : r ∈ (k.release f).regs) : r ∈ k.regs := (mem_filter.mp h).1

lemma mem_regs_of_del (h : r ∈ (k.del fd).regs) : r ∈ k.regs := (mem_regs_del.mp h).1

/-! ### One descriptor for each file -/

/-- No file is open twice, and what is open or registered has been opened. -/
structure Sound (k : Kernel) : Prop where
  single : ∀ p ∈ k.fds, ∀ q ∈ k.fds, p.2 = q.2 → p = q
  opened : ∀ p ∈ k.fds, p.2 < k.next
  registered : ∀ r ∈ k.regs, r.file < k.next

namespace Sound

lemma openFile (h : k.Sound) : (k.openFile fd).Sound where
  single p hp q hq heq := by
    rcases mem_cons.mp hp with rfl | hp' <;> rcases mem_cons.mp hq with rfl | hq'
    · rfl
    · exact absurd heq (Nat.ne_of_gt (h.opened q hq'))
    · exact absurd heq (Nat.ne_of_lt (h.opened p hp'))
    · exact h.single p hp' q hq' heq
  opened p hp := by
    rcases mem_cons.mp hp with rfl | hp'
    · exact Nat.lt_succ_self _
    · exact Nat.lt_succ_of_lt (h.opened p hp')
  registered r hr := Nat.lt_succ_of_lt (h.registered r hr)

lemma close (h : k.Sound) : (k.close fd).Sound where
  single p hp q hq := h.single p (mem_filter.mp hp).1 q (mem_filter.mp hq).1
  opened p hp := h.opened p (mem_filter.mp hp).1
  registered r hr := h.registered r (mem_regs_of_close hr)

lemma add (h : k.Sound) : (k.add fd key).Sound := by
  have hnext : (k.add fd key).next = k.next ∧ (k.add fd key).fds = k.fds := by
    rw [Kernel.add]
    split
    · exact ⟨rfl, rfl⟩
    · split <;> exact ⟨rfl, rfl⟩
  refine ⟨?_, ?_, ?_⟩
  · rw [hnext.2]
    exact h.single
  · rw [hnext.1, hnext.2]
    exact h.opened
  · intro r hr
    rw [hnext.1]
    rcases mem_regs_add.mp hr with hr' | ⟨-, hf, -⟩
    · exact h.registered r hr'
    · exact h.opened _ (mem_of_fileOf hf)

lemma del (h : k.Sound) : (k.del fd).Sound where
  single := h.single
  opened := h.opened
  registered r hr := h.registered r (mem_regs_of_del hr)

lemma hold (h : k.Sound) : (k.hold f).Sound where
  single := h.single
  opened := h.opened
  registered := h.registered

lemma release (h : k.Sound) : (k.release f).Sound where
  single := h.single
  opened := h.opened
  registered r hr := h.registered r (mem_regs_of_release hr)

/-- **When the only copy of a file is closed its registrations go.** -/
theorem not_mem_regs_close (h : k.Sound) (hf : k.fileOf fd = some r.file)
    (hheld : r.file ∉ k.held) : r ∉ (k.close fd).regs := by
  intro hr
  obtain ⟨-, hmem | ⟨fd', hmem, hne⟩⟩ := mem_regs_close.mp hr
  · exact hheld hmem
  · exact hne (congrArg Prod.fst (h.single _ hmem _ (mem_of_fileOf hf) rfl))

end Sound

/-- No two descriptors stand for one file. -/
theorem Sound.fileOf_inj (h : k.Sound) (hf : k.fileOf fd = some f) (hf' : k.fileOf fd' = some f) :
    fd = fd' :=
  congrArg Prod.fst (h.single _ (mem_of_fileOf hf) _ (mem_of_fileOf hf') rfl)

/-! ### What is done to other descriptors -/

/-- A descriptor stands for the same file, if any, and the registrations of the file are the
same. -/
def Same (fd : ℤ) (k k' : Kernel) : Prop :=
  k'.fileOf fd = k.fileOf fd ∧
    ∀ f, k.fileOf fd = some f → ∀ r : Reg, r.file = f → (r ∈ k'.regs ↔ r ∈ k.regs)

namespace Same

variable {k' k'' : Kernel}

lemma refl (fd : ℤ) (k : Kernel) : Same fd k k := ⟨rfl, fun _ _ _ _ => .rfl⟩

lemma trans (h₁ : Same fd k k') (h₂ : Same fd k' k'') : Same fd k k'' :=
  ⟨h₂.1.trans h₁.1, fun f hf r hr => (h₂.2 f (h₁.1.trans hf) r hr).trans (h₁.2 f hf r hr)⟩

lemma openFile (hne : fd ≠ fd') : Same fd k (k.openFile fd') :=
  ⟨fileOf_openFile_ne hne, fun _ _ _ _ => .rfl⟩

lemma add (hs : k.Sound) (hne : fd ≠ fd') : Same fd k (k.add fd' key) := by
  refine ⟨fileOf_add, fun f hf r hr => ⟨fun hmem => ?_, fun hmem => mem_regs_add.mpr (.inl hmem)⟩⟩
  refine (mem_regs_add.mp hmem).resolve_right ?_
  rintro ⟨-, hf', -⟩
  rw [hr] at hf'
  exact hne (hs.fileOf_inj hf hf')

/-- Nothing is registered for a descriptor that is not open. -/
theorem add_of_none (hf : k.fileOf fd' = none) : Same fd k (k.add fd' key) := by
  rw [Kernel.add, hf]
  exact refl fd k

lemma del_of_none (hf : k.fileOf fd' = none) : Same fd k (k.del fd') := by
  refine ⟨fileOf_del, fun f _ r _ => ⟨mem_regs_of_del, fun hmem => mem_regs_del.mpr ⟨hmem, ?_⟩⟩⟩
  rintro ⟨-, hf'⟩
  rw [hf] at hf'
  cases hf'

lemma del (hs : k.Sound) (hne : fd ≠ fd') : Same fd k (k.del fd') := by
  refine ⟨fileOf_del, fun f hf r hr => ⟨mem_regs_of_del, fun hmem => mem_regs_del.mpr ⟨hmem, ?_⟩⟩⟩
  rintro ⟨-, hf'⟩
  rw [hr] at hf'
  exact hne (hs.fileOf_inj hf hf')

lemma close (hne : fd ≠ fd') : Same fd k (k.close fd') := by
  refine ⟨fileOf_close_ne hne, fun f hf r hr => ⟨mem_regs_of_close, fun hmem => ?_⟩⟩
  exact mem_regs_close.mpr ⟨hmem, .inr ⟨fd, hr ▸ mem_of_fileOf hf, hne⟩⟩

lemma hold : Same fd k (k.hold f) := ⟨fileOf_hold, fun _ _ _ _ => .rfl⟩

lemma release : Same fd k (k.release f) := by
  refine ⟨fileOf_release, fun g hg r hr => ⟨mem_regs_of_release, fun hmem => ?_⟩⟩
  refine mem_filter.mpr ⟨hmem, ?_⟩
  have hopen : (k.release f).fileOf fd = some g := hg
  exact hr ▸ alive_of_fileOf hopen

end Same

end Kernel

end Minibase
