import Minibase.Ptyhub.Polled

/-!
# Who is attached to a terminal

The client attached to a terminal is in its entry, as a descriptor, and while there is one epoll
must not watch the master (`Ptyhub.Mastered`, `Ptyhub.Polled`).

`Ptyhub.attachment_consistent`: in every run in which no entry goes with its master watched, and in
which a client that asks to be attached gets the master, a terminal is watched exactly if it is
open and no client is attached, every client attached is one that is connected, and a refusal
changes nothing. The last fails when the master cannot be sent, since the client is attached
before (`Ptyhub.attached_without_master`).
-/

namespace Minibase.Ptyhub

open Hubs List Option Hub Kernel

variable {P : ℕ → Bool} {h h' : Hub} {i : ℕ} {a : Answers} {new : Option ℕ}

/-- The group of the masters. -/
abbrev mastersOnly : ℕ → Bool := fun g => g = 2

/-- What is registered for the master of entry `i`: just itself, with the key of the entry, if it
is to be watched, and otherwise nothing. -/
structure Mastered (h : Hub) (i : ℕ) (mfd : ℤ) (watched : Prop) : Prop where
  nonzero : mfd ≠ 0
  regs : ∀ f, h.kernel.fileOf mfd = some f → ∀ r : Reg, r.file = f →
    (r ∈ h.kernel.regs ↔ watched ∧ r = ⟨f, mfd, pkey 2 i⟩)

lemma Mastered.same {mfd : ℤ} {watched : Prop} (hm : Mastered h i mfd watched)
    (hs : Kernel.Same mfd h.kernel h'.kernel) : Mastered h' i mfd watched where
  nonzero := hm.nonzero
  regs f hf r hr := by
    rw [hs.1] at hf
    exact (hs.2 f hf r hr).trans (hm.regs f hf r hr)

/-- A master that has been closed. -/
theorem Mastered.closed {watched : Prop} (hn : h.kernel.fileOf (-1) = none) :
    Mastered h i (-1) watched where
  nonzero := by decide
  regs f hf := by
    rw [hn] at hf
    cases hf

/-- **The masters watched are those of terminals without a client**, but for that of a new entry,
which is not watched yet. -/
structure Polled (new : Option ℕ) (h : Hub) : Prop where
  nonneg : ∀ fd f, h.kernel.fileOf fd = some f → 0 ≤ fd
  masters : ∀ (j : ℕ) (pc : Proc Fds), h.procs[j]? = some pc → pc.xid ≠ 0 →
    Mastered h j pc.fds.mfd (pc.fds.cfd ≤ 0 ∧ some j ≠ new)

/-- Clients recorded are connected. -/
def Connected (h : Hub) : Prop :=
  ∀ (j : ℕ) (pc : Proc Fds), h.procs[j]? = some pc → 0 < pc.fds.cfd → pc.fds.cfd ∈ h.conns

/-! ### Other descriptors than masters -/

variable {pc : Proc Fds}

lemma recorded_mfd (hi : h.procs[i]? = some pc) (hx : pc.xid ≠ 0) :
    recorded desc h 2 i = some pc.fds.mfd := by
  have huse : pc.inUse = true := by simpa [Proc.inUse] using hx
  rw [recorded_proc desc h (le_refl 2), slot_of_getElem hi, if_pos huse]
  rfl

variable {fd : ℤ}

/-- The master of an entry is not recorded anywhere else. -/
theorem mfd_ne (ha : Attributed P desc h) (hi : h.procs[i]? = some pc) (hx : pc.xid ≠ 0) {g k : ℕ}
    (hg : 1 ≤ g) (hrec : recorded desc h g k = some fd) (hpos : 0 < fd)
    (hplace : ¬(g = 2 ∧ k = i)) : pc.fds.mfd ≠ fd := by
  rintro rfl
  exact hplace (ha.single g k 2 i _ hg (by decide) hrec (recorded_mfd hi hx) hpos)

/-- Nor is it what the kernel may give out. -/
theorem mfd_ne_free (ha : Attributed P desc h) (hi : h.procs[i]? = some pc) (hx : pc.xid ≠ 0)
    (hfree : h.free fd) : pc.fds.mfd ≠ fd := by
  rintro rfl
  have hopen := ha.opened 2 i _ (by decide) (recorded_mfd hi hx) hfree.1
  rw [hfree.2] at hopen
  cases hopen

lemma nonneg_openFile {k : Kernel} (hn : ∀ fd f, k.fileOf fd = some f → 0 ≤ fd)
    (hpos : 0 < fd) (fd' : ℤ) (f : ℕ) (hf : (k.openFile fd).fileOf fd' = some f) : 0 ≤ fd' := by
  by_cases hne : fd' = fd
  · rw [hne]
    exact Int.le_of_lt hpos
  · rw [fileOf_openFile_ne hne] at hf
    exact hn fd' f hf

namespace Polled

/-- What is done to other descriptors, and to entries that go. -/
theorem frame (hp : Polled new h) (hn : ∀ fd f, h'.kernel.fileOf fd = some f → 0 ≤ fd)
    (hentries : ∀ (j : ℕ) (pc' : Proc Fds), h'.procs[j]? = some pc' → pc'.xid ≠ 0 →
      ∃ pc : Proc Fds, h.procs[j]? = some pc ∧ pc.xid ≠ 0 ∧ pc'.fds.mfd = pc.fds.mfd ∧
        pc'.fds.cfd = pc.fds.cfd ∧ Kernel.Same pc.fds.mfd h.kernel h'.kernel) : Polled new h' where
  nonneg := hn
  masters j pc' hj hx := by
    obtain ⟨pc, hpc, hx', hmfd, hcfd, hsame⟩ := hentries j pc' hj hx
    rw [hmfd, hcfd]
    exact (hp.masters j pc hpc hx').same hsame

lemma reduced (hp : Polled new h) (hr : Reduced h h') (hk : h'.kernel = h.kernel) :
    Polled new h' := by
  refine hp.frame (hk ▸ hp.nonneg) fun j pc' hj hx => ?_
  rcases hr.2 j pc' hj with ⟨hx', -⟩ | ⟨pc, hpc, hx', hfds⟩
  · exact absurd hx' hx
  · refine ⟨pc, hpc, hx' ▸ hx, by rw [hfds], by rw [hfds], ?_⟩
    rw [hk]
    exact .refl _ _

/-- The kernel does something that has to do with no master. -/
theorem moved (hp : Polled new h) (hprocs : h'.procs = h.procs)
    (hn : ∀ fd f, h'.kernel.fileOf fd = some f → 0 ≤ fd)
    (hsame : ∀ (j : ℕ) (pc : Proc Fds), h.procs[j]? = some pc → pc.xid ≠ 0 →
      Kernel.Same pc.fds.mfd h.kernel h'.kernel) : Polled new h' :=
  hp.frame hn fun j pc hj hx => ⟨pc, hprocs ▸ hj, hx, rfl, rfl, hsame j pc (hprocs ▸ hj) hx⟩

/-- One entry changes, and the kernel does nothing to the masters of others. -/
theorem set {pc' : Proc Fds} {k : Kernel} {new' : Option ℕ} (hp : Polled new h)
    (hprocs : h'.procs = h.procs.set i pc') (hkernel : h'.kernel = k)
    (hn : ∀ fd f, k.fileOf fd = some f → 0 ≤ fd)
    (hsame : ∀ (j : ℕ) (pc : Proc Fds), j ≠ i → h.procs[j]? = some pc → pc.xid ≠ 0 →
      Kernel.Same pc.fds.mfd h.kernel k)
    (hnew : ∀ j, j ≠ i → (some j ≠ new ↔ some j ≠ new'))
    (hi : i < h.procs.length → Mastered h' i pc'.fds.mfd (pc'.fds.cfd ≤ 0 ∧ some i ≠ new')) :
    Polled new' h' where
  nonneg := hkernel ▸ hn
  masters j pc hj hx := by
    rw [hprocs, getElem?_set] at hj
    split at hj
    · subst j
      obtain ⟨hlt, hj⟩ := ite_none_right_eq_some.mp hj
      cases hj
      exact hi hlt
    · rename_i hne
      have hm : Mastered h' j _ _ := (hp.masters j pc hj hx).same
        (hkernel ▸ hsame j pc (Ne.symm hne) hj hx)
      rwa [hnew j (Ne.symm hne)] at hm

/-- What is registered for the master of a new entry, or of one already known, once it is added. -/
theorem mastered_add {mfd : ℤ} {watched : Prop} (hm : Mastered h i mfd watched)
    (hk : h'.kernel = h.kernel.add mfd (pkey 2 i)) {now : Prop} (hnow : now) :
    Mastered h' i mfd now where
  nonzero := hm.nonzero
  regs f hf r hr := by
    rw [hk, fileOf_add] at hf
    rw [hk, mem_regs_add, hm.regs f hf r hr]
    constructor
    · rintro (⟨-, hreg⟩ | ⟨hreg, -, -⟩)
      · exact ⟨hnow, hreg⟩
      · exact ⟨hnow, hr ▸ hreg⟩
    · rintro ⟨-, hreg⟩
      by_cases hw : watched
      · exact .inl ⟨hw, hreg⟩
      · refine .inr ⟨by rw [hr, hreg], hr ▸ hf, fun r' hr' hsame => hw ?_⟩
        exact ((hm.regs f hf r' (hsame.1.trans hr)).mp hr').1

variable {pc : Proc Fds}

/-- **A client goes**, or there was none, and the master is watched. -/
theorem detach (hp : Polled new h) (ha : Attributed P desc h) (hshort : h.procs.length ≤ 65535)
    (hi : h.procs[i]? = some pc) (hx : pc.xid ≠ 0) (hnew : new = none ∨ new = some i) :
    Polled none (Hub.detach h i) := by
  have hlt := (List.getElem?_eq_some_iff.mp hi).choose
  have hkey : pkeyIndex (pkey 2 i) ≠ 65535 := by
    rw [pkeyIndex_pkey (by omega)]
    omega
  have hm := hp.masters i pc hi hx
  have hkernel : (Hub.detach h i).kernel = h.kernel.add pc.fds.mfd (pkey 2 i) := by
    rw [detach_eq hi, Hubs.Hub.addEpollFd, if_neg hkey]
    rfl
  refine hp.set (i := i) ((congrArg Hubs.Hub.procs (detach_eq hi)).trans (procs_addEpollFd ..))
    hkernel (fun fd f hf => ?_) (fun j pc' hj hpc' hx' => ?_) (fun j hj => ?_) fun _ => ?_
  · rw [fileOf_add] at hf
    exact hp.nonneg fd f hf
  · rcases Int.lt_or_lt_of_ne hm.nonzero with hneg | hpos
    · refine .add_of_none (eq_none_iff_forall_ne_some.mpr fun f hf => ?_)
      exact absurd (hp.nonneg _ f hf) (Int.not_le.mpr hneg)
    · refine .add ha.sound (mfd_ne ha hpc' hx' (by decide) (recorded_mfd hi hx) hpos ?_)
      exact fun heq => hj heq.2.symm
  · rcases hnew with rfl | rfl
    · rfl
    · exact iff_of_true (fun heq => hj (some.inj heq)) (by rintro ⟨⟩)
  · refine mastered_add hm hkernel ⟨?_, by rintro ⟨⟩⟩
    show (-1 : ℤ) ≤ 0
    decide

variable {fd : ℤ}

/-- **A client comes**, and the master is not watched any more. -/
theorem attach (hp : Polled none h) (ha : Attributed P desc h)
    (hi : h.procs[i]? = some pc) (hx : pc.xid ≠ 0) (hfd : 0 < fd) :
    Polled none (delStdoutFd (setFds h i fun fds => { fds with cfd := fd }) i) := by
  have hm := hp.masters i pc hi hx
  have hget : (setFds h i fun fds => { fds with cfd := fd }).procs[i]? =
      some { pc with fds := { pc.fds with cfd := fd } } := by
    rw [setFds_eq hi]
    exact List.getElem?_set_self (List.getElem?_eq_some_iff.mp hi).choose
  have hkernel : (delStdoutFd (setFds h i fun fds => { fds with cfd := fd }) i).kernel =
      h.kernel.del pc.fds.mfd := by
    rw [delStdoutFd, fdsAt_eq hget]
    rfl
  have hprocs : (delStdoutFd (setFds h i fun fds => { fds with cfd := fd }) i).procs =
      h.procs.set i { pc with fds := { pc.fds with cfd := fd } } := modify_eq_set hi _
  refine hp.set hprocs hkernel hp.nonneg
    (fun j pc' hj hpc' hx' => ?_) (fun _ _ => .rfl) fun _ => ⟨hm.nonzero, fun f hf r hr => ?_⟩
  · rcases Int.lt_or_lt_of_ne hm.nonzero with hneg | hpos
    · refine .del_of_none (eq_none_iff_forall_ne_some.mpr fun f hf => ?_)
      exact absurd (hp.nonneg _ f hf) (Int.not_le.mpr hneg)
    · refine .del ha.sound (mfd_ne ha hpc' hx' (by decide) (recorded_mfd hi hx) hpos ?_)
      exact fun heq => hj heq.2.symm
  · rw [hkernel] at hf ⊢
    rw [mem_regs_del, hm.regs f hf r hr]
    refine iff_of_false ?_ ?_
    · rintro ⟨⟨-, hreg⟩, hno⟩
      exact hno ⟨congrArg Reg.fd hreg, hr ▸ hf⟩
    · rintro ⟨⟨hle, -⟩, -⟩
      exact absurd hle (Int.not_le.mpr hfd)

/-- The client that has had a process started is attached to it. -/
theorem started (hp : Polled (some i) h) (hi : h.procs[i]? = some pc) (hx : pc.xid ≠ 0)
    (hfd : 0 < fd) : Polled none (setFds h i fun fds => { fds with cfd := fd }) := by
  have hm := hp.masters i pc hi hx
  have hprocs : (setFds h i fun fds => { fds with cfd := fd }).procs =
      h.procs.set i { pc with fds := { pc.fds with cfd := fd } } := modify_eq_set hi _
  refine hp.set hprocs rfl hp.nonneg (fun _ _ _ _ _ => .refl _ _) (fun j hj => ?_) fun _ =>
    ⟨hm.nonzero, fun f hf r hr => ?_⟩
  · exact iff_of_true (fun heq => hj (some.inj heq)) nofun
  · refine (hm.regs f hf r hr).trans (iff_of_false ?_ fun hno => ?_)
    · exact fun hno => hno.1.2 rfl
    · exact absurd hno.1.1 (Int.not_le.mpr hfd)

/-- The hub closes a master. -/
theorem closeStdout (hp : Polled new h) (ha : Attributed P desc h) (hi : h.procs[i]? = some pc)
    (hx : pc.xid ≠ 0) : Polled new (Hub.closeStdout h i) := by
  have hn : ∀ fd f, (h.kernel.close pc.fds.mfd).fileOf fd = some f → 0 ≤ fd :=
    fun fd f hf => hp.nonneg fd f (fileOf_of_close hf).2
  simp only [Hub.closeStdout, fdsAt_eq hi]
  split
  · exact hp
  · rename_i hpos
    have hprocs : (setFds h i fun fds => { fds with mfd := -1 }).procs =
        h.procs.set i { pc with fds := { pc.fds with mfd := -1 } } := modify_eq_set hi _
    refine hp.set (k := h.kernel.close pc.fds.mfd) hprocs rfl hn (fun j pc' hj hpc' hx' => ?_)
      (fun _ _ => .rfl) fun _ => ?_
    · refine .close (mfd_ne ha hpc' hx' (by decide) (recorded_mfd hi hx) (Int.not_le.mp hpos) ?_)
      exact fun heq => hj heq.2.symm
    · refine Mastered.closed (eq_none_iff_forall_ne_some.mpr fun f hf => ?_)
      exact absurd (hn _ f hf) (by decide)

/-- The hub closes a pipe. -/
theorem closeStderr (hp : Polled new h) (ha : Attributed P desc h) (hs : Shaped h) (i : ℕ) :
    Polled new (Hub.closeStderr h i) := by
  cases hi : h.procs[i]? with
  | none =>
    have hle : (fdsAt h i).efd ≤ 0 := by
      rw [fdsAt, hi]
      exact Int.le_refl 0
    rw [Hub.closeStderr, if_pos hle]
    exact hp
  | some pc =>
    simp only [Hub.closeStderr, fdsAt_eq hi]
    split
    · exact hp
    · rename_i hpos
      have hpos := Int.not_le.mp hpos
      have hx : pc.xid ≠ 0 := fun hx => absurd hpos (Int.not_lt.mpr (hs.blank i pc hi hx).2)
      have hrec : recorded desc h 3 i = some pc.fds.efd := by
        have huse : pc.inUse = true := by simpa [Proc.inUse] using hx
        rw [recorded_proc desc h (by decide), slot_of_getElem hi, if_pos huse]
        rfl
      have hsame : ∀ (j : ℕ) (pc' : Proc Fds), h.procs[j]? = some pc' → pc'.xid ≠ 0 →
          Kernel.Same pc'.fds.mfd h.kernel ((h.kernel.del pc.fds.efd).close pc.fds.efd) := by
        intro j pc' hj hx'
        have hne := mfd_ne ha hj hx' (by decide) hrec hpos (by omega)
        exact (Kernel.Same.del ha.sound hne).trans (.close hne)
      have hprocs : (setFds h i fun fds => { fds with efd := -1 }).procs =
          h.procs.set i { pc with fds := { pc.fds with efd := -1 } } := modify_eq_set hi _
      refine hp.set (k := (h.kernel.del pc.fds.efd).close pc.fds.efd) hprocs rfl (fun fd f hf => ?_)
        (fun j pc' _ => hsame j pc') (fun _ _ => .rfl) fun _ => ?_
      · exact hp.nonneg fd f (fileOf_of_close hf).2
      · exact (hp.masters i pc hi hx).same (hsame i pc hi hx)

/-! ### Connections -/

lemma checkSocket (hp : Polled new h) (ha : Attributed P desc h) (hfree : h.free fd) :
    Polled new (h.checkSocket fd) := by
  have hopen := nonneg_openFile hp.nonneg hfree.1
  have hne : ∀ (j : ℕ) (pc : Proc Fds), h.procs[j]? = some pc → pc.xid ≠ 0 → pc.fds.mfd ≠ fd :=
    fun j pc hj hx => mfd_ne_free ha hj hx hfree
  simp only [Hubs.Hub.checkSocket]
  split
  · refine hp.moved rfl (fun fd' f hf => hopen fd' f (fileOf_of_close hf).2) fun j pc hj
      hx => ?_
    exact (Kernel.Same.openFile (hne j pc hj hx)).trans (.close (hne j pc hj hx))
  · rename_i c h' hg
    have heq := grabConnSlot_eq hg
    have hopened : Polled new h' := by
      refine hp.moved (by rw [heq]) (by rw [heq]; exact hopen) fun j pc hj hx => ?_
      rw [heq]
      exact .openFile (hne j pc hj hx)
    have hs : h'.kernel.Sound := by
      rw [heq]
      exact ha.sound.openFile
    rw [Hubs.Hub.addEpollFd]
    split
    · exact hopened
    · refine hopened.moved rfl (fun fd' f hf => ?_) fun j pc hj hx => .add hs ?_
      · rw [fileOf_add] at hf
        exact hopened.nonneg fd' f hf
      · rw [heq] at hj
        exact hne j pc hj hx

lemma closeConnFd {c : ℕ} (hp : Polled new h) (ha : Attributed P desc h)
    (hc : h.conns[c]? = some fd) (hfd : 0 < fd) : Polled new (h.closeConnFd c fd) := by
  refine hp.moved rfl (fun fd' f hf => hp.nonneg fd' f (fileOf_of_close hf).2) fun j pc hj
    hx => ?_
  have hne := mfd_ne ha hj hx (le_refl 1) ((recorded_conn desc h c).trans hc) hfd (by omega)
  exact (Kernel.Same.del ha.sound hne).trans (.close hne)

/-- A client of several processes goes. -/
theorem detachClient (hfd : 0 < fd) (hp : Polled none h) (ha : Attributed P desc h)
    (hs : Shaped h) (hshort : h.procs.length ≤ 65535) : Polled none (Hub.detachClient h fd) := by
  rw [Hub.detachClient]
  generalize range h.procs.length = l
  induction l generalizing h with
  | nil => exact hp
  | cons i l ih =>
    rw [foldl_cons]
    split
    · rename_i hcfd
      cases hi : h.procs[i]? with
      | none =>
        rw [fdsAt, hi] at hcfd
        have : (0 : ℤ) = fd := hcfd
        omega
      | some pc =>
        rw [fdsAt_eq hi] at hcfd
        have hx : pc.xid ≠ 0 := by
          intro hx
          have := (hs.blank i pc hi hx).1
          omega
        have hd := detached_detach hi hcfd
        refine ih (hp.detach ha hshort hi hx (.inl rfl)) (hd.attributed hfd ha hs) (hd.shaped hs) ?_
        rw [hd.length]
        exact hshort
    · exact ih hp ha hs hshort

end Polled

/-- Afterwards it is attached to none. -/
theorem detachClient_gone (hfd : 0 < fd) (h : Hub) (j : ℕ) :
    (fdsAt (detachClient h fd) j).cfd ≠ fd := by
  have hloop : ∀ (l : List ℕ) (h : Hub), j ∈ l ∨ (fdsAt h j).cfd ≠ fd →
      (fdsAt (l.foldl (fun h i => if (fdsAt h i).cfd = fd then detach h i else h) h)
        j).cfd ≠ fd := by
    intro l
    induction l with
    | nil => exact fun h hj => hj.resolve_left not_mem_nil
    | cons i l ih =>
      intro h hj
      rw [foldl_cons]
      refine ih _ ?_
      -- what the step does at `j`
      split
      · rename_i hcfd
        cases hi : h.procs[i]? with
        | none =>
          rw [fdsAt, hi] at hcfd
          have : (0 : ℤ) = fd := hcfd
          omega
        | some pc =>
          rw [fdsAt, detach_eq hi, procs_addEpollFd]
          by_cases hji : j = i
          · refine .inr ?_
            show (((h.procs.set i _)[j]?.map Proc.fds).getD 0).cfd ≠ fd
            rw [hji, List.getElem?_set_self (List.getElem?_eq_some_iff.mp hi).choose]
            show (-1 : ℤ) ≠ fd
            omega
          · refine hj.imp (fun hmem => (mem_cons.mp hmem).resolve_left hji) fun hne => ?_
            show (((h.procs.set i _)[j]?.map Proc.fds).getD 0).cfd ≠ fd
            rw [getElem?_set_ne (Ne.symm hji)]
            exact hne
      · rename_i hne
        rcases hj with hmem | hj
        · rcases mem_cons.mp hmem with rfl | hmem
          · exact .inr hne
          · exact .inl hmem
        · exact .inr hj
  refine hloop _ h ?_
  rcases Nat.lt_or_ge j h.procs.length with hlt | hge
  · exact .inl (mem_range.mpr hlt)
  · refine .inr ?_
    rw [fdsAt, getElem?_eq_none hge]
    show (0 : ℤ) ≠ fd
    omega

/-- The numbers of connections that are open stay. -/
theorem mem_updateNconns (hfd : 0 < fd) (hmem : fd ∈ h.conns) : fd ∈ h.updateNconns.conns := by
  have hsplit : h.conns.rdropWhile (fun c => c < 0) ++ h.conns.rtakeWhile (fun c => c < 0) =
    h.conns :=
    rdropWhile_append_rtakeWhile
  rw [← hsplit, mem_append] at hmem
  refine hmem.resolve_right fun hneg => ?_
  have := mem_rtakeWhile_imp hneg
  have : fd < 0 := by simpa using this
  omega

/-- **What the hub keeps to**: a terminal is watched if it has no client, and its client is
connected. There may be a new entry, which is not watched yet. -/
structure Attended (new : Option ℕ) (h : Hub) : Prop where
  kept : Kept mastersOnly h
  polled : Polled new h
  connected : Connected h
  short : h.procs.length ≤ 65535

lemma Connected.frame (hc : Connected h) (hconns : h'.conns = h.conns)
    (hentries : ∀ (j : ℕ) (pc' : Proc Fds), h'.procs[j]? = some pc' → 0 < pc'.fds.cfd →
      ∃ pc : Proc Fds, h.procs[j]? = some pc ∧ pc'.fds.cfd = pc.fds.cfd) : Connected h' := by
  intro j pc' hj hpos
  obtain ⟨pc, hpc, hcfd⟩ := hentries j pc' hj hpos
  rw [hconns, hcfd]
  exact hc j pc hpc (hcfd ▸ hpos)

lemma Connected.set (hc : Connected h) {pc' : Proc Fds} (hprocs : h'.procs = h.procs.set i pc')
    (hconns : h'.conns = h.conns) (hpc' : 0 < pc'.fds.cfd → pc'.fds.cfd ∈ h.conns) :
      Connected h' := by
  intro j pc hj hpos
  rw [hprocs, getElem?_set] at hj
  rw [hconns]
  split at hj
  · obtain ⟨-, hj⟩ := ite_none_right_eq_some.mp hj
    cases hj
    exact hpc' hpos
  · exact hc j pc hj hpos

lemma Connected.reduced (hc : Connected h) (hr : Reduced h h') (hconns : h'.conns = h.conns) :
    Connected h' := by
  refine hc.frame hconns fun j pc' hj hpos => ?_
  rcases hr.2 j pc' hj with ⟨-, hfds⟩ | ⟨pc, hpc, -, hfds⟩
  · rw [hfds] at hpos
    exact absurd hpos (Int.lt_irrefl 0)
  · exact ⟨pc, hpc, by rw [hfds]⟩

namespace Attended

section

variable (ho : Attended none h)
include ho

lemma closeConn (c : ℕ) : Attended none (Hub.closeConn h c) := by
  cases hc : h.conns[c]? with
  | none =>
    simp only [Hub.closeConn, hc]
    exact ho
  | some fd =>
    by_cases hneg : fd < 0
    · simp only [Hub.closeConn, hc, if_pos hneg]
      exact ho
    · have heq : Hub.closeConn h c =
          Hubs.Hub.updateNconns (detachClient (h.closeConnFd c fd) fd) := by
        simp only [Hub.closeConn, hc, if_neg hneg]
      have hkept := ho.kept.closeConn c
      rw [heq] at hkept ⊢
      have hfd : 0 < fd := by
        have := ho.kept.attributed.clients.1 fd (mem_of_getElem? hc)
        omega
      have hd := detached_detachClient hfd (h.closeConnFd c fd)
      have hs : Shaped (h.closeConnFd c fd) := ⟨ho.kept.shaped.blank, ho.kept.shaped.short⟩
      have hpolled := (ho.polled.closeConnFd ho.kept.attributed hc hfd).detachClient hfd
        (ho.kept.attributed.closeConnFd hc (Int.le_of_lt hfd)) hs ho.short
      refine ⟨hkept, hpolled.reduced (.of_procs rfl) rfl, fun j pc' hj hpos => ?_, ?_⟩
      · -- an entry with a client has the one it had, and it is not the one gone
        have hj : (detachClient (h.closeConnFd c fd) fd).procs[j]? = some pc' := hj
        have hgone := detachClient_gone hfd (h.closeConnFd c fd) j
        rw [fdsAt_eq hj] at hgone
        obtain ⟨pc, hpc, rfl | rfl⟩ := hd.entries j pc' hj
        · obtain ⟨k, hk, hget⟩ := getElem_of_mem (ho.connected j pc' hpc hpos)
          have hget : h.conns[k]? = some pc'.fds.cfd := List.getElem?_eq_some_iff.mpr ⟨hk, hget⟩
          refine mem_updateNconns hpos ?_
          rw [hd.conns]
          refine mem_of_getElem? (i := k) ((getElem?_set_ne fun heq => hgone ?_).trans hget)
          rw [← heq, hc] at hget
          exact (some.inj hget).symm
        · have hpos : (0 : ℤ) < -1 := hpos
          omega
      · show (detachClient (h.closeConnFd c fd) fd).procs.length ≤ 65535
        rw [hd.length]
        exact ho.short

lemma notifyExit (i : ℕ) (e : Exit) : Attended none (Hub.notifyExit h i e) := by
  rw [Hub.notifyExit]
  split
  · exact ho
  · split
    · exact ho
    · exact ho.closeConn _

/-- Entries go, or change in other things than their descriptors. -/
theorem reduced (hr : Reduced h h') (hkernel : h'.kernel = h.kernel) (hconns : h'.conns = h.conns)
    (ha : Attributed mastersOnly desc h') : Attended none h' where
  kept := ⟨ha, ho.kept.shaped.reduced hr⟩
  polled := ho.polled.reduced hr hkernel
  connected := ho.connected.reduced hr hconns
  short := hr.1.trans ho.short

lemma checkChildren {last : ℤ} {batch : List Exit} {out : Hub × List Exit}
    (hs : Spared mastersOnly h batch) (hout : Hub.checkChildren h last batch = some out) :
    Attended none out.1 := by
  induction batch generalizing h with
  | nil =>
    have hkept := ho.kept.checkChildren hs hout
    rw [Hub.checkChildren, Hubs.Hub.checkChildren] at hout
    split at hout
    · cases hout
    · cases hout
      exact ho.reduced (.updateProcCounts h) rfl rfl hkept.attributed
  | cons e batch ih =>
    rw [Hub.checkChildren, Hubs.Hub.checkChildren] at hout
    split at hout
    · cases hout
      exact ho
    · rename_i i hi
      have ho' := ho.notifyExit i e
      have hs' := hs.notifyExit ho.kept i
      have hi' := ((quiet_notifyExit h i e).findIdx?_eq e.pid).trans hi
      obtain ⟨hlt, hpid, -⟩ := findIdx?_eq_some_iff_getElem.mp hi'
      have hconns : ((Hub.notifyExit h i e).endProc i e.status).conns =
        (Hub.notifyExit h i e).conns := by
        rw [Hubs.Hub.endProc]
        split <;> rfl
      refine ih (ho'.reduced (.endProc _ i _) (kernel_endProc ..) hconns ?_) hs'.endProc hout
      refine ho'.kept.attributed.endProc fun pc hpc hzero hb =>
        hs'.1.get hpc (quiet_first ?_ hzero hb)
      rw [getElem?_eq_getElem hlt] at hpc
      cases hpc
      simpa using hpid

/-- The kernel forgets what has to do with no master that is open. -/
theorem withKernel {k : Kernel} (hs : k.Sound) (hregs : ∀ r ∈ k.regs, r ∈ h.kernel.regs)
    (hfile : ∀ fd, k.fileOf fd = h.kernel.fileOf fd) (hsame : ∀ fd, Kernel.Same fd h.kernel k) :
    Attended none (Hub.withKernel h k) where
  kept := ho.kept.withKernel hs hregs hfile
  polled := ho.polled.moved rfl (fun fd f hf => ho.polled.nonneg fd f (hfile fd ▸ hf))
    fun _ pc _ _ => hsame pc.fds.mfd
  connected := ho.connected
  short := ho.short

lemma replyStart (i : ℕ) (a : Answers) : Attended none (Hub.replyStart h i a).2 := by
  rw [Hub.replyStart]
  split
  · exact ho
  · split
    · exact ho
    · exact ho.withKernel ho.kept.attributed.sound.hold (fun _ hr => hr) (fun _ => rfl)
        fun _ => .hold

end

variable {pc : Proc Fds}

lemma detach (ho : Attended new h) (hi : h.procs[i]? = some pc) (hx : pc.xid ≠ 0)
    (hnew : new = none ∨ new = some i) : Attended none (Hub.detach h i) where
  kept := ho.kept.detach hi hx
  polled := ho.polled.detach ho.kept.attributed ho.short hi hx hnew
  connected := by
    refine ho.connected.set ((congrArg Hubs.Hub.procs (detach_eq hi)).trans (procs_addEpollFd ..))
      ?_ fun hpos => ?_
    · rw [detach_eq hi, Hubs.Hub.addEpollFd]
      split <;> rfl
    · have hpos : (0 : ℤ) < -1 := hpos
      omega
  short := by
    rw [detach_eq hi, procs_addEpollFd]
    exact (length_set ..).trans_le ho.short

lemma started (ho : Attended (some i) h) {fd : ℤ} (hi : h.procs[i]? = some pc) (hx : pc.xid ≠ 0)
    (hfd : 0 < fd) (hmem : fd ∈ h.conns) :
    Attended none (setFds h i fun fds => { fds with cfd := fd }) where
  kept := ho.kept.setCfd hi hx fd
  polled := ho.polled.started hi hx hfd
  connected := ho.connected.set (modify_eq_set hi _) rfl fun _ => hmem
  short := (length_modify ..).trans_le ho.short

lemma attach (ho : Attended none h) {fd : ℤ} (hi : h.procs[i]? = some pc) (hx : pc.xid ≠ 0)
    (hfd : 0 < fd) (hmem : fd ∈ h.conns) :
    Attended none (delStdoutFd (setFds h i fun fds => { fds with cfd := fd }) i) where
  kept := by
    have hset := ho.kept.setCfd hi hx fd
    exact hset.withKernel hset.attributed.sound.del (fun _ => mem_regs_of_del) fun _ => rfl
  polled := ho.polled.attach ho.kept.attributed hi hx hfd
  connected := ho.connected.set (modify_eq_set hi _) rfl fun _ => hmem
  short := (length_modify ..).trans_le ho.short

end Attended

/-! ### Starting a process -/

/-- The entry of a new process: its master is known to the kernel but not to epoll. -/
theorem polled_spawnAt {xid : ℤ} {name : List UInt8} (hp : Polled none h) (ha : Attributed P desc h)
    (hi : h.procs[i]? = some 0) (hposs : a.possible h) (hok : a.open_ = 0) :
    Polled (some i) (spawnAt h i a xid name).2 := by
  obtain ⟨hfree₁, hfree₂, hne, -⟩ := hposs
  have hlen := (List.getElem?_eq_some_iff.mp hi).choose
  let pc : Proc Fds := ⟨xid, a.pid, name, false, 0, ⟨a.ends.1, 0, a.ends.2⟩⟩
  have hnamed : (h.setProc i (.fresh xid name)).procs[i]? = some (.fresh xid name) :=
    List.getElem?_set_self hlen
  have hprocs : (forked (h.setProc i (.fresh xid name)) i a).procs = h.procs.set i pc :=
    (modify_eq_set hnamed _).trans (List.set_set ..)
  have hforked : Polled (some i) (forked (h.setProc i (.fresh xid name)) i a) := by
    refine hp.set hprocs rfl (nonneg_openFile (nonneg_openFile hp.nonneg hfree₁.1) hfree₂.1)
      (fun j pc' _ hj hx => ?_) (fun j hj => ?_) fun _ =>
        ⟨Int.ne_of_gt hfree₁.1, fun f hf r hr => ?_⟩
    · exact (Kernel.Same.openFile (mfd_ne_free ha hj hx hfree₁)).trans
        (.openFile (mfd_ne_free ha hj hx hfree₂))
    · exact iff_of_true nofun fun heq => hj (some.inj heq)
    · -- the file is new, and nothing is registered for it
      have hopen : ((h.kernel.openFile a.ends.1).openFile a.ends.2).fileOf a.ends.1 = some f := hf
      rw [fileOf_openFile_ne hne, fileOf_openFile_self] at hopen
      refine iff_of_false (fun hmem => ?_) fun hno => hno.1.2 rfl
      have := ha.sound.registered r hmem
      have := some.inj hopen
      omega
  have hget : (forked (h.setProc i (.fresh xid name)) i a).procs[i]? = some pc := by
    rw [hprocs]
    exact List.getElem?_set_self hlen
  have hsound : (forked (h.setProc i (.fresh xid name)) i a).kernel.Sound :=
    ha.sound.openFile.openFile
  have hadded : Polled (some i) (addStderrFd
    (forked (h.setProc i (.fresh xid name)) i a) i) := by
    rw [addStderrFd, fdsAt_eq hget, Hubs.Hub.addEpollFd]
    split
    · exact hforked
    · refine hforked.moved rfl (fun fd f hf => ?_) fun j pc' hj hx => .add hsound ?_
      · rw [fileOf_add] at hf
        exact hforked.nonneg fd f hf
      · rw [hprocs, List.getElem?_set] at hj
        split at hj
        · cases hj
          exact hne
        · exact mfd_ne_free ha hj hx hfree₂
  rw [spawnAt_of_eq_zero hok]
  exact hadded.reduced ((Reduced.wipeStaleEntries _ i).trans (.updateProcCounts _)) rfl

/-- The entry of a new process is the one found by its number, which no other has. -/
theorem findProc_spawnAt {xid : ℤ} (name : List UInt8) (hi : h.procs[i]? = some 0) (hx : xid ≠ 0)
    (hother : ∀ (j : ℕ) (pc : Proc Fds), h.procs[j]? = some pc → pc.xid ≠ xid)
    (hok : a.open_ = 0) : (spawnAt h i a xid name).2.findProc xid = some i := by
  have hlen := (List.getElem?_eq_some_iff.mp hi).choose
  have hlen' : i < (h.setProc i (.fresh xid name)).procs.length := (List.length_set ..).symm ▸ hlen
  obtain ⟨pc, hprocs, hxid, -, -⟩ := forked_spec (a := a)
    (show (h.setProc i (.fresh xid name)).procs[i]? = some (.fresh xid name) from
      List.getElem?_set_self hlen)
  rw [spawnAt_of_eq_zero hok]
  generalize hadd : addStderrFd (forked (h.setProc i (.fresh xid name)) i a) i = added
  have haddprocs : added.procs = (h.setProc i (.fresh xid name)).procs.set i pc := by
    rw [← hadd, addStderrFd, procs_addEpollFd, hprocs]
  have hget : added.procs[i]? = some pc := by
    rw [haddprocs]
    exact List.getElem?_set_self hlen'
  have hr : Reduced added (added.wipeStaleEntries i).updateProcCounts :=
    (Reduced.wipeStaleEntries _ i).trans (.updateProcCounts _)
  have hkept : (added.wipeStaleEntries i).procs[i]? = some pc := by
    show (added.procs.mapIdx _)[i]? = _
    rw [List.getElem?_mapIdx, hget]
    exact congrArg some (if_neg fun hno => hno.1 rfl)
  -- counting again does not drop it
  have huse : pc.inUse = true := by
    rw [Proc.inUse, hxid]
    exact decide_eq_true hx
  have hslot := (slot_updateProcCounts (added.wipeStaleEntries i) i).trans
    ((slot_of_getElem hkept).trans (if_pos huse))
  obtain ⟨pc', hpc', huse', -⟩ := slot_eq_some.mp hslot
  have hxid' : pc'.xid = xid := by
    rcases hr.2 i pc' hpc' with ⟨hzero, -⟩ | ⟨pc'', hpc'', hx'', -⟩
    · rw [Proc.inUse, hzero] at huse'
      exact absurd huse' (by decide)
    · cases hget.symm.trans hpc''
      exact hx''.trans hxid
  obtain ⟨hlt, hgetElem⟩ := List.getElem?_eq_some_iff.mp hpc'
  refine List.findIdx?_eq_some_iff_getElem.mpr ⟨hlt, decide_eq_true ?_, fun j hj => ?_⟩
  · rw [hgetElem]
    exact hxid'
  have hjlt : j < (added.wipeStaleEntries i).updateProcCounts.procs.length := hj.trans hlt
  rw [decide_eq_true_eq]
  rcases hr.2 j _ (List.getElem?_eq_getElem hjlt) with ⟨hzero, -⟩ | ⟨old, hold, hx', -⟩
  · exact fun heq => hx (heq.symm.trans hzero)
  · rw [haddprocs, List.getElem?_set_ne (by omega)] at hold
    have hold : (h.procs.set i (.fresh xid name))[j]? = some old := hold
    rw [List.getElem?_set_ne (by omega)] at hold
    exact fun heq => hother j old hold (hx'.symm.trans heq)

lemma pickUnusedXid_spec (ht : Tidy h) (hle : 0 ≤ h.pickUnusedXid.1) :
    0 < h.pickUnusedXid.1 ∧
      ∀ (j : ℕ) (pc : Proc Fds), h.procs[j]? = some pc → pc.xid ≠ h.pickUnusedXid.1 := by
  by_cases hin : h.xidIsInUse h.nextXid = true
  · rw [Hubs.Hub.pickUnusedXid, if_pos hin] at hle
    have hle : (0 : ℤ) ≤ -EAGAIN := hle
    exact absurd hle (by decide)
  · rw [Hubs.Hub.pickUnusedXid, if_neg hin]
    have hpos := ht.nextXid_pos
    refine ⟨hpos, fun j pc hj heq => hin ?_⟩
    refine any_eq_true.mpr ⟨pc, mem_of_getElem? hj, ?_⟩
    have heq : pc.xid = h.nextXid := heq
    have hne : pc.xid ≠ 0 := by omega
    have hneg : ¬pc.xid < 0 := by omega
    simp only [Bool.and_eq_true, decide_eq_true_eq]
    exact ⟨hne, (if_neg hneg).trans heq⟩

lemma connected_spawnAt (xid : ℤ) (name : List UInt8) (a : Answers) (hc : Connected h)
    (hi : h.procs[i]? = some 0) : Connected (spawnAt h i a xid name).2 ∧
      (spawnAt h i a xid name).2.procs.length ≤ h.procs.length := by
  have hlen := (List.getElem?_eq_some_iff.mp hi).choose
  have hnamed : (h.setProc i (.fresh xid name)).procs[i]? = some (.fresh xid name) :=
    List.getElem?_set_self hlen
  by_cases hok : a.open_ = 0
  · rw [spawnAt_of_eq_zero hok]
    generalize hadd : addStderrFd (forked (h.setProc i (.fresh xid name)) i a) i = added
    have hprocs : added.procs = h.procs.set i
      ⟨xid, a.pid, name, false, 0, ⟨a.ends.1, 0, a.ends.2⟩⟩ := by
      rw [← hadd, addStderrFd, procs_addEpollFd]
      exact (modify_eq_set hnamed _).trans (List.set_set ..)
    have hconns : added.conns = h.conns := by
      rw [← hadd, addStderrFd, Hubs.Hub.addEpollFd]
      split <;> rfl
    have hr : Reduced added (added.wipeStaleEntries i).updateProcCounts :=
      (Reduced.wipeStaleEntries _ i).trans (.updateProcCounts _)
    refine ⟨(hc.set hprocs hconns fun hpos => absurd hpos (Int.lt_irrefl 0)).reduced hr rfl, ?_⟩
    exact hr.1.trans_eq ((congrArg List.length hprocs).trans (List.length_set ..))
  · rw [spawnAt_of_ne_zero hok]
    have hprocs : ((h.setProc i (.fresh xid name)).wipeProc i).procs = h.procs.set i 0 :=
      List.set_set ..
    refine ⟨hc.set hprocs rfl fun hpos => absurd hpos (Int.lt_irrefl 0), ?_⟩
    rw [hprocs, List.length_set]

lemma conns_spawnChild (h : Hub) (a : Answers) (argv : List (List UInt8)) :
    (spawnChild h a argv).2.conns = h.conns := by
  rcases spawnChild_cases h a argv with ⟨e, -, heq | heq⟩ | ⟨i, h', -, hg, heq⟩ <;> rw [heq]
  · rw [pickUnusedXid_snd]
  · obtain ⟨heq', -⟩ := grabProc_spec hg
    have hconns : h'.conns = h.conns := by rw [heq', pickUnusedXid_snd]
    rw [← hconns]
    by_cases hok : a.open_ = 0
    · rw [spawnAt_of_eq_zero hok]
      show (addStderrFd _ i).conns = _
      rw [addStderrFd, Hubs.Hub.addEpollFd]
      split <;> rfl
    · rw [spawnAt_of_ne_zero hok]
      rfl

/-- **Starting a process**, or not. If there is a new one it is found by its number, and its master
is not watched yet. -/
theorem Attended.spawnChild {argv : List (List UInt8)} (ho : Attended none h) (ht : Tidy h)
    (hposs : a.possible h) (hlt : h.procs.length < 65535)
    (hstale : Unwatched mastersOnly h (stale (argv.headD []))) :
    ((spawnChild h a argv).1 < 0 ∧ Attended none (spawnChild h a argv).2) ∨
      ∃ i, (spawnChild h a argv).2.findProc (spawnChild h a argv).1 = some i ∧
        0 < (spawnChild h a argv).1 ∧ Attended (some i) (spawnChild h a argv).2 := by
  obtain ⟨hkept, -⟩ := ho.kept.spawnChild ht hposs (by omega) hstale
  have hpick : Attended none h.pickUnusedXid.2 := by
    refine ho.reduced (.of_procs (procs_pickUnusedXid h)) ?_ ?_ ho.kept.attributed.pickUnusedXid <;>
      rw [pickUnusedXid_snd]
  rcases spawnChild_cases h a argv with ⟨e, he, heq | heq⟩ | ⟨i, h', hle, hg, heq⟩
  · rw [heq]
    exact .inl ⟨he, ho⟩
  · rw [heq]
    exact .inl ⟨he, hpick⟩
  · obtain ⟨-, hposs', hk', hlen⟩ := grabbed ho.kept ht hposs (by omega) hg
    obtain ⟨heq', -, hzero, -, hsame⟩ := grabProc_spec hg
    obtain ⟨hpos, hother⟩ := pickUnusedXid_spec ht hle
    have hpolled' : Polled none h' := by
      have hkernel : h'.kernel = h.kernel := by rw [heq', pickUnusedXid_snd]
      refine ho.polled.frame (hkernel ▸ ho.polled.nonneg) fun j pc hj hx => ?_
      by_cases hji : j = i
      · rw [hji, hzero] at hj
        exact absurd (some.inj hj ▸ rfl) hx
      · rw [hsame j hji, procs_pickUnusedXid] at hj
        exact ⟨pc, hj, hx, rfl, rfl, hkernel ▸ .refl _ _⟩
    have hconnected' : Connected h' := by
      refine ho.connected.frame (by rw [heq', pickUnusedXid_snd]) fun j pc hj hpos => ?_
      by_cases hji : j = i
      · rw [hji, hzero] at hj
        rw [← some.inj hj] at hpos
        exact absurd hpos (Int.lt_irrefl 0)
      · rw [hsame j hji, procs_pickUnusedXid] at hj
        exact ⟨pc, hj, rfl⟩
    have hother' : ∀ (j : ℕ) (pc : Proc Fds), h'.procs[j]? = some pc →
      pc.xid ≠ h.pickUnusedXid.1 := by
      intro j pc hj
      by_cases hji : j = i
      · rw [hji, hzero] at hj
        rw [← some.inj hj]
        exact Int.ne_of_lt hpos
      · rw [hsame j hji, procs_pickUnusedXid] at hj
        exact hother j pc hj
    obtain ⟨hconnected, hlen'⟩ := connected_spawnAt h.pickUnusedXid.1 (argv.headD []) a
      hconnected' hzero
    rw [heq] at hkept ⊢
    by_cases hok : a.open_ = 0
    · have hxid : (spawnAt h' i a h.pickUnusedXid.1 (argv.headD [])).1 = h.pickUnusedXid.1 := by
        rw [spawnAt_of_eq_zero hok]
      refine .inr ⟨i, ?_, ?_, ⟨hkept, ?_, hconnected, by omega⟩⟩
      · rw [hxid]
        exact findProc_spawnAt (a := a) _ hzero (Int.ne_of_gt hpos) hother' hok
      · rw [hxid]
        exact hpos
      · exact polled_spawnAt hpolled' hk'.attributed hzero hposs' hok
    · refine .inl ⟨?_, hkept, ?_, hconnected, by omega⟩
      · rw [spawnAt_of_ne_zero hok]
        show -(a.open_ : ℤ) < 0
        omega
      · rw [spawnAt_of_ne_zero hok]
        have hprocs : ((h'.setProc i (.fresh h.pickUnusedXid.1 (argv.headD []))).wipeProc i).procs =
            h'.procs.set i 0 := set_set ..
        refine hpolled'.frame hpolled'.nonneg fun j pc hj hx => ?_
        rw [hprocs, getElem?_set] at hj
        split at hj
        · obtain ⟨-, hj⟩ := ite_none_right_eq_some.mp hj
          exact absurd (some.inj hj ▸ rfl) hx
        · exact ⟨pc, hj, hx, rfl, rfl, .refl _ _⟩

/-! ### Requests and events -/

/-- A client that asks for a terminal without a client gets the master. -/
def Served (h : Hub) (a : Answers) (xid : ℤ) : Prop :=
  ∀ i ∈ h.findProc xid, (fdsAt h i).cfd ≤ 0 →
    (h.kernel.fileOf (fdsAt h i).mfd).isSome ∧ a.send = 0
deriving Decidable

/-- No entry goes while its master is watched, and none is attached to by a client that is then
told that it is not. -/
def Heedful (w : World) (e : Event) : Prop :=
  Careful mastersOnly w e ∧ match e with
    | .request _ (.start _ _) _ | .request _ (.spawn _ _) _ => w.hub.procs.length < 65535
    | .request _ (.attach xid) a => a.reply = true → Served w.hub a xid
    | _ => True

instance (w : World) : (e : Event) → Decidable (Heedful w e)
  | .request _ (.start _ _) _ | .request _ (.spawn _ _) _ | .request _ (.attach _) _ =>
    inferInstanceAs (Decidable (_ ∧ _))
  | .exits _ _ | .request _ (.flush _) _ | .request _ .clear _ | .poll _ _ _ _ _ _
  | .request _ (.status _) _ | .request _ (.detach _) _ | .request _ (.sigterm _) _
  | .request _ (.sigkill _) _ | .request _ (.fetch _) _ | .request _ (.refused _) _
  | .connect _ | .hangup _ | .hold _ | .release _ => inferInstanceAs (Decidable (_ ∧ True))

namespace Attended

lemma flushDeadProcs (ho : Attended none h)
    (hu : Unwatched mastersOnly h fun pc => pc.xid ≠ 0 && pc.pid ≤ 0) (a : Answers) :
    Attended none (Hub.flushDeadProcs h a).2 := by
  have hkept := ho.kept.flushDeadProcs hu a
  refine ho.reduced ?_ rfl rfl hkept.attributed
  have hflush : Reduced h { h with procs := (flushDead a.stuck 0 h.procs).2 } := by
    refine ⟨le_of_eq (List.Forall₂.length_eq (fading_flushDead a.stuck h.procs 0)).symm,
      fun j pc' hj => ?_⟩
    rcases flushDead_spec a.stuck h.procs 0 j with heq | ⟨pc, hpc, -, -, hzero⟩
    · exact .inr ⟨pc', heq.symm.trans hj, rfl, rfl⟩
    · cases hzero.symm.trans hj
      exact .inl ⟨rfl, rfl⟩
  exact hflush.trans (.updateProcCounts _)

lemma call {req : Request} {w : World} {c : ℕ} {fd : ℤ} (ho : Attended none w.hub)
    (ht : Tidy w.hub) (hfd : 0 < fd) (hmem : fd ∈ w.hub.conns) (hposs : a.possible w.hub)
    (hok : Heedful w (.request c req a)) : Attended none (Hub.call w.hub a fd req).2 := by
  obtain ⟨hcareful, hok⟩ := hok
  have hkept := ho.kept.call ht hfd hposs hcareful
  cases req with
  | start argv envp =>
    simp only [Hub.call, cmdStart]
    rcases ho.spawnChild ht hposs hok hcareful.2 with ⟨hneg, hspawn⟩ | ⟨i, hi, hpos, hspawn⟩
    · rw [if_pos hneg]
      exact hspawn
    · obtain ⟨pc, hpc, hx⟩ := findProc_spec hi
      simp only [if_neg (Int.not_lt.mpr (Int.le_of_lt hpos)), hi]
      refine (hspawn.started hpc (by omega) hfd ?_).replyStart i a
      rw [conns_spawnChild]
      exact hmem
  | spawn argv envp =>
    simp only [Hub.call, cmdSpawn]
    rcases ho.spawnChild ht hposs hok hcareful.2 with ⟨hneg, hspawn⟩ | ⟨i, hi, hpos, hspawn⟩
    · rw [if_pos hneg]
      exact hspawn
    · obtain ⟨pc, hpc, hx⟩ := findProc_spec hi
      simp only [if_neg (Int.not_lt.mpr (Int.le_of_lt hpos)), hi]
      exact hspawn.detach hpc (by omega) (.inr rfl)
  | detach xid =>
    simp only [Hub.call, cmdDetach]
    split
    · exact ho
    · rename_i i hi
      obtain ⟨pc, hpc, -⟩ := findProc_spec hi
      split
      · exact ho
      · split
        · exact ho
        · rename_i hcfd
          have hcfd := not_not.mp hcfd
          rw [fdsAt_eq hpc] at hcfd
          refine ho.detach hpc (fun hx => ?_) (.inl rfl)
          have := (ho.kept.shaped.blank i pc hpc hx).1
          omega
  | attach xid =>
    simp only [Hub.call, cmdAttach]
    split
    · exact ho
    · rename_i i hi
      obtain ⟨pc, hpc, hx⟩ := findProc_spec hi
      split
      · exact ho
      · split
        · exact ho
        · have hne : pc.xid ≠ 0 := by
            intro hzero
            have hcareful : xid = 0 → w.hub.findProc xid = none := hcareful
            rw [hcareful (hx ▸ hzero)] at hi
            cases hi
          exact (ho.attach hpc hne hfd hmem).replyStart i a
  | flush xid =>
    rw [Hub.call, cmdFlush] at hkept ⊢
    cases hi : w.hub.findProc xid with
    | none => exact ho
    | some i =>
      by_cases hstuck : (w.hub.procs[i]?.map Proc.buf).getD false = true ∧ i ∈ a.stuck
      · simp only [if_pos hstuck]
        exact ho
      · simp only [hi, if_neg hstuck] at hkept ⊢
        refine ho.reduced (.flushProc _ i) ?_ ?_ hkept.attributed <;>
          rw [Hubs.Hub.flushProc] <;> split
        · rfl
        · split <;> rfl
        · rfl
        · split <;> rfl
  | clear => exact ho.flushDeadProcs hcareful a
  | _ => exact ho

section

variable (ho : Attended none h)
include ho

lemma checkSocket {fd : ℤ} (hfree : h.free fd) : Attended none (h.checkSocket fd) := by
  have hprocs : (h.checkSocket fd).procs = h.procs := by
    simp only [Hubs.Hub.checkSocket]
    split
    · rfl
    · rename_i c h' hg
      rw [procs_addEpollFd, grabConnSlot_eq hg]
  refine ⟨ho.kept.checkSocket hfree, ho.polled.checkSocket ho.kept.attributed hfree,
    fun j pc hj hpos => ?_, hprocs ▸ ho.short⟩
  -- the slot taken was that of no one
  have hmem := ho.connected j pc (hprocs ▸ hj) hpos
  simp only [Hubs.Hub.checkSocket]
  split
  · exact hmem
  · rename_i c h' hg
    have hconns : (h'.addEpollFd fd (pkey 1 c)).conns = h'.conns := by
      rw [Hubs.Hub.addEpollFd]
      split <;> rfl
    rw [hconns]
    rw [Hubs.Hub.grabConnSlot] at hg
    split at hg
    · rename_i k hk
      obtain ⟨-, rfl⟩ := Prod.mk.inj (some.inj hg)
      obtain ⟨hlt, hneg, -⟩ := findIdx?_eq_some_iff_getElem.mp hk
      obtain ⟨m, hm, hget⟩ := getElem_of_mem hmem
      refine mem_of_getElem? (i := m) ((getElem?_set_ne fun heq => ?_).trans
        (List.getElem?_eq_some_iff.mpr ⟨hm, hget⟩))
      subst heq
      have hneg : h.conns[k] < 0 := by simpa using hneg
      rw [hget] at hneg
      omega
    · split at hg
      · cases hg
      · obtain ⟨-, rfl⟩ := Prod.mk.inj (some.inj hg)
        exact mem_append_left _ hmem

lemma closeStderr (i : ℕ) : Attended none (Hub.closeStderr h i) := by
  refine ⟨ho.kept.closeStderr i, ho.polled.closeStderr ho.kept.attributed ho.kept.shaped i, ?_, ?_⟩
  all_goals
    simp only [Hub.closeStderr]
    split
  · exact ho.connected
  · cases hi : h.procs[i]? with
    | none =>
      rename_i hpos
      rw [fdsAt, hi] at hpos
      exact absurd (Int.le_refl 0) hpos
    | some pc => exact ho.connected.set (modify_eq_set hi _) rfl fun hpos =>
      ho.connected i pc hi hpos
  · exact ho.short
  · exact (length_modify ..).trans_le ho.short

lemma handleStderr (i : ℕ) (mmap : Bool) (read : Option ℕ) :
    Attended none (Hub.handleStderr h i mmap read) := by
  have hkept := ho.kept.handleStderr i mmap read
  rw [Hub.handleStderr] at hkept ⊢
  cases hi : h.procs[i]? with
  | none => exact ho
  | some pc =>
    by_cases hm : (!pc.buf) = true ∧ (!mmap) = true
    · simp only [if_pos hm]
      exact ho.closeStderr i
    · simp only [hi, if_neg hm] at hkept ⊢
      exact ho.reduced (.setProc (.inr ⟨pc, hi, rfl, rfl⟩)) rfl rfl hkept.attributed

/-- The hub closes a master, of which no one else has a copy. -/
theorem closeStdout {pc : Proc Fds} (hi : h.procs[i]? = some pc) (hx : pc.xid ≠ 0)
    (hheld : ∀ f, h.kernel.fileOf pc.fds.mfd = some f → f ∉ h.kernel.held) :
    Attended none (Hub.closeStdout h i) := by
  refine ⟨(local_closeStdout hi hx hheld).kept ho.kept,
    ho.polled.closeStdout ho.kept.attributed hi hx,
    ?_, ?_⟩
  all_goals
    simp only [Hub.closeStdout]
    split
  · exact ho.connected
  · exact ho.connected.set (modify_eq_set hi _) rfl fun hpos => ho.connected i pc hi hpos
  · exact ho.short
  · exact (length_modify ..).trans_le ho.short

lemma processStdout {pc : Proc Fds} {input other flushed : Bool} (hi : h.procs[i]? = some pc)
    (hx : pc.xid ≠ 0) (hheld : (other = true ∨ (input = true ∧ flushed = false)) →
      ∀ f, h.kernel.fileOf pc.fds.mfd = some f → f ∉ h.kernel.held) :
    Attended none (processStdout h i input other flushed).hub := by
  rw [processStdout_eq hi]
  split
  · rename_i hc
    exact ho.closeStdout hi hx (hheld (by simpa using hc))
  · exact ho

end

lemma turn {w w' : World} {e : Event} (ho : Attended none w.hub) (ht : Tidy w.hub)
    (hok : Heedful w e) (hs : Ptyhub.turn w.hub e = some w') : Attended none w'.hub := by
  cases e with
  | connect fd =>
    obtain ⟨hfree, hs⟩ := ite_none_right_eq_some.mp hs
    cases hs
    exact ho.checkSocket hfree
  | request c req a =>
    obtain ⟨⟨⟨fd, hfd, hle⟩, hposs⟩, hs⟩ := ite_none_right_eq_some.mp hs
    cases hs
    have hmem := mem_of_getElem? (mem_def.mp hfd)
    have hne := ho.kept.attributed.clients.1 fd hmem
    have hcall := ho.call ht (show 0 < fd by omega) hmem hposs hok
    have hget : w.hub.conns[c]? = some fd := hfd
    simp only [handleConn, hget]
    exact ite_of_both hcall (hcall.closeConn c)
  | hangup c =>
    cases hs
    exact ho.closeConn c
  | exits batch last =>
    obtain ⟨out, hout, rfl⟩ := map_eq_some_iff.mp hs
    exact ho.checkChildren hok.1 hout
  | poll r input other flushed mmap read =>
    obtain ⟨⟨hr, hg⟩, hs⟩ := ite_none_right_eq_some.mp hs
    split at hs
    · rename_i h2
      cases hs
      have hkind : OfKind mastersOnly r := ⟨hg, decide_eq_true h2⟩
      obtain ⟨pc, hpc, hx, ⟨-, hfd⟩ | ⟨h3, -⟩⟩ := slot_of_registered ho.kept.attributed hr hkind
      · refine ho.processStdout hpc hx fun hclose f hf => ?_
        have hlive := ho.kept.attributed.live r hr hkind
        rw [hfd, hf] at hlive
        exact some.inj hlive ▸ hok.1 h2 hclose
      · omega
    · split at hs
      · cases hs
        have hin : Attended none
            (if input then Hub.handleStderr w.hub (pkeyIndex r.key) mmap read else w.hub) :=
          ite_of_both (ho.handleStderr _ mmap read) ho
        rw [processStderr]
        split
        · exact ho
        · exact ite_of_both (hin.closeStderr _) hin
      · cases hs
        exact ho
  | hold f =>
    cases hs
    exact ho.withKernel ho.kept.attributed.sound.hold (fun _ hr => hr) (fun _ => rfl) fun _ => .hold
  | release f =>
    cases hs
    exact ho.withKernel ho.kept.attributed.sound.release (fun _ => mem_regs_of_release)
      (fun _ => rfl) fun _ => .release

end Attended

lemma attended_of_reach {w : World} (hw : Reach Boot step Heedful w) : Attended none w.hub ∧
    Tidy w.hub := by
  induction hw with
  | @start w hb =>
    have hno : ∀ (i : ℕ) (pc : Proc Fds), w.hub.procs[i]? = some pc → False := fun i pc hpc => by
      rw [hb.procs] at hpc
      cases hpc
    refine ⟨⟨⟨.boot hb, fun i pc hpc => (hno i pc hpc).elim, ?_⟩,
      ⟨hb.nonneg, fun i pc hpc => (hno i pc hpc).elim⟩, fun i pc hpc => (hno i pc hpc).elim, ?_⟩,
        hb.tidy⟩ <;>
    · rw [hb.procs]
      exact Nat.zero_le _
  | next _ hok hs ih =>
    obtain ⟨ho, ht⟩ := ih
    obtain ⟨-, hs⟩ := ite_none_left_eq_some.mp hs
    exact ⟨ho.turn ht hok hs, tidy_turn ht hs⟩

/-- Who is attached to what. -/
def attachments (h : Hub) : List (ℤ × ℤ) := h.procs.map fun pc => (pc.xid, pc.fds.cfd)

/-- The requests that are about the client of a terminal. -/
def Request.attaches : Request → Bool
  | .attach _ | .detach _ => true
  | _ => false

/-- **Attachment is exclusive and consistent**: the client of a process is one connection that is
open, its master is watched exactly if it is open and there is no client, and a request about
the client that is answered with an error leaves things as they were. -/
structure Consistent (ok : World → Event → Prop) (w : World) : Prop where
  client : ∀ (i : ℕ) (pc : Proc Fds), w.hub.procs[i]? = some pc → pc.xid ≠ 0 → 0 < pc.fds.cfd →
    (w.hub.kernel.fileOf pc.fds.cfd).isSome ∧ ∃! c : ℕ, w.hub.conns[c]? = some pc.fds.cfd
  watched : ∀ (i : ℕ) (pc : Proc Fds), w.hub.procs[i]? = some pc → pc.xid ≠ 0 →
    ((∃ r ∈ w.hub.kernel.regs, r.key = pkey 2 i) ↔
      (w.hub.kernel.fileOf pc.fds.mfd).isSome ∧ pc.fds.cfd ≤ 0)
  refused : ∀ (c : ℕ) (fd : ℤ) (req : Request) (a : Answers) (w' : World), req.attaches = true →
    w.hub.conns[c]? = some fd → ok w (.request c req a) → step w (.request c req a) = some w' →
      (call w.hub a fd req).1 < 0 → a.reply = true → attachments w'.hub = attachments w.hub

/-- A client that can be sent the master is. -/
theorem replyStart_of_open {f : ℕ} (hf : h.kernel.fileOf (fdsAt h i).mfd = some f)
    (hsend : a.send = 0) : (replyStart h i a).1 = 1 := by
  simp only [replyStart, hf, hsend, ne_eq, not_true_eq_false, if_false]

/-- An error in answer to a request about the client means that nothing was done. -/
theorem hub_of_refused {req : Request} (hreq : req.attaches = true)
    (hserved : ∀ xid, req = .attach xid → Served h a xid) (hneg : (call h a fd req).1 < 0) :
    (call h a fd req).2 = h := by
  cases req with
  | detach xid =>
    simp only [call, cmdDetach] at hneg ⊢
    revert hneg
    split
    · exact fun _ => rfl
    · split
      · exact fun _ => rfl
      · split
        · exact fun _ => rfl
        · exact fun hneg => absurd hneg (Int.lt_irrefl 0)
  | attach xid =>
    simp only [call, cmdAttach] at hneg ⊢
    revert hneg
    split
    · exact fun _ => rfl
    · rename_i i hi
      split
      · exact fun _ => rfl
      · split
        · exact fun _ => rfl
        · -- the master is sent
          rename_i hfree
          intro hneg
          obtain ⟨hopen, hsend⟩ := hserved xid rfl i hi (Int.not_lt.mp hfree)
          obtain ⟨f, hf⟩ := isSome_iff_exists.mp hopen
          obtain ⟨pc, hpc, -⟩ := findProc_spec hi
          have hmfd : (fdsAt (delStdoutFd
            (setFds h i fun fds => { fds with cfd := fd }) i) i).mfd = (fdsAt h i).mfd := by
            rw [fdsAt_eq hpc]
            show (fdsAt (withKernel (setFds h i fun fds => { fds with cfd := fd }) _)
              i).mfd = _
            rw [fdsAt_setFds hpc]
          have hf' : (delStdoutFd (setFds h i fun fds => { fds with cfd := fd })
              i).kernel.fileOf (fdsAt h i).mfd = some f := hf
          rw [replyStart_of_open (hmfd ▸ hf') hsend] at hneg
          exact absurd hneg (by decide)
  | _ => cases hreq

/-- **In every run in which masters stay with their entries attachment is consistent.** -/
theorem attachment_consistent {w : World} (hw : Reach Boot step Heedful w) :
    Consistent Heedful w := by
  obtain ⟨ho, -⟩ := attended_of_reach hw
  have ha := ho.kept.attributed
  refine ⟨fun i pc hi hx hpos => ?_, fun i pc hi hx => ?_,
    fun c fd req a w' hreq hfd hok hs hneg hreply => ?_⟩
  · obtain ⟨c, hc, hget⟩ := getElem_of_mem (ho.connected i pc hi hpos)
    have hget : w.hub.conns[c]? = some pc.fds.cfd := List.getElem?_eq_some_iff.mpr ⟨hc, hget⟩
    have hrec := (recorded_conn desc w.hub c).trans hget
    refine ⟨ha.opened 1 c _ (Nat.le_refl 1) hrec hpos, c, hget, fun c' hc' => ?_⟩
    exact (ha.single 1 c' 1 c _ (Nat.le_refl 1) (Nat.le_refl 1)
      ((recorded_conn desc w.hub c').trans hc') hrec hpos).2
  · have hlt := (List.getElem?_eq_some_iff.mp hi).choose
    have hshort := ho.short
    have hm := ho.polled.masters i pc hi hx
    constructor
    · rintro ⟨r, hr, hkey⟩
      have hgroup : pkeyGroup r.key = 2 := hkey ▸ pkeyGroup_pkey (by omega)
      have hindex : pkeyIndex r.key = i := hkey ▸ pkeyIndex_pkey (by omega)
      have hkind : OfKind mastersOnly r := ⟨hgroup.ge, decide_eq_true hgroup⟩
      have hrec := ha.keyed r hr hkind
      rw [hgroup, hindex, recorded_mfd hi hx] at hrec
      have hlive := ha.live r hr hkind
      rw [← some.inj hrec] at hlive
      rw [hlive]
      exact ⟨rfl, ((hm.regs _ hlive r rfl).mp hr).1.1⟩
    · rintro ⟨hopen, hcfd⟩
      obtain ⟨f, hf⟩ := isSome_iff_exists.mp hopen
      exact ⟨⟨f, pc.fds.mfd, pkey 2 i⟩, (hm.regs f hf _ rfl).mpr ⟨⟨hcfd, nofun⟩, rfl⟩, rfl⟩
  · obtain ⟨-, hs⟩ := ite_none_left_eq_some.mp hs
    obtain ⟨-, hs⟩ := ite_none_right_eq_some.mp hs
    cases hs
    have hsame : (call w.hub a fd req).2 = w.hub := by
      refine hub_of_refused hreq (fun xid heq => ?_) hneg
      subst heq
      exact hok.2 hreply
    simp only [handleConn, hfd, if_pos (Or.inr hreply)]
    rw [hsame]

/-- A client has a program started, and another is attached to it. -/
def joins : List Event :=
  [.connect 3, .connect 6, .request 0 (.spawn [[97]] []) { ends := (4, 5), pid := 7 },
    .request 1 (.attach 1) { ends := (8, 9), pid := 9 }]

theorem joins_consistent :
    ∃ w, joins.foldlM (fun w e => if Heedful w e then step w e else none) (newHub Fds) = some w ∧
      attachments w.hub = [(1, 6)] ∧ Consistent Heedful w := by
  have hrun : (joins.foldlM (fun w e => if Heedful w e then step w e else none) (newHub Fds)).any
      (fun w => decide (attachments w.hub = [(1, 6)])) = true := by
    decide +kernel
  obtain ⟨w, hw, hatt⟩ := (any_eq_true _ _).mp hrun
  exact ⟨w, hw, of_decide_eq_true hatt, attachment_consistent
    (Reach.foldlM (.start (boot_newHub Fds)) hw)⟩

/-- A client has a program started, and the terminal is hung up. -/
def hangs : List Event :=
  [.connect 3, .request 0 (.spawn [[97]] []) { ends := (4, 5), pid := 7 },
    .poll ⟨1, 4, pkey 2 0⟩ false true false false none]

/-- **A client that cannot be attached is**: the error comes too late. -/
theorem attached_without_master :
    ¬∀ w : World, Reach Boot step (fun _ _ => True) w → Consistent (fun _ _ => True) w := by
  intro hall
  let a : Answers := { ends := (8, 9), pid := 9 }
  have hrun : (hangs.foldlM (fun w e => if True then step w e else none) (newHub Fds)).any
      (fun w => (step w (.request 0 (.attach 1) a)).any fun w' =>
        decide (w.hub.conns[0]? = some 3 ∧ (call w.hub a 3 (.attach 1)).1 < 0 ∧
          attachments w'.hub ≠ attachments w.hub)) = true := by
    decide +kernel
  obtain ⟨w, hw, hstep⟩ := (any_eq_true _ _).mp hrun
  obtain ⟨w', hw', hd⟩ := (any_eq_true _ _).mp hstep
  obtain ⟨hconn, hneg, hne⟩ := of_decide_eq_true hd
  have hcons := hall w (Reach.foldlM (.start (boot_newHub Fds)) hw)
  exact hne (hcons.refused 0 3 (.attach 1) a w' rfl hconn trivial hw' hneg rfl)

end Minibase.Ptyhub
