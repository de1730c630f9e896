import Minibase.Apphub.Polled

/-!
# What the terminal hub polls

The terminal hub polls the pipes for errors, from the start of a process on, and the masters of
terminals no client is attached to; with the last client `Ptyhub.Hub.detach` puts the master back
into epoll. Under `Ptyhub.Careful` everything polled is that of the entry its key names
(`Ptyhub.attributed_of_reach`).
-/

namespace Minibase.Ptyhub

open Hubs List Option Hub Kernel

/-- The descriptors of a process that may be polled: the master, group 2, and the pipe for
errors, group 3. -/
def desc (fds : Fds) (g : ℕ) : Option ℤ :=
  if g = 2 then some fds.mfd else if g = 3 then some fds.efd else none

variable {P : ℕ → Bool} {h h' h'' : Hub} {i : ℕ} {a : Answers}

/-- Entries not in use have no client and no pipe, and there are not more entries than keys. -/
structure Shaped (h : Hub) : Prop where
  blank : ∀ (i : ℕ) (pc : Proc Fds), h.procs[i]? = some pc → pc.xid = 0 →
    pc.fds.cfd ≤ 0 ∧ pc.fds.efd ≤ 0
  short : h.procs.length ≤ 65536

/-! ### Clients going -/

/-- What happens when a client goes: it is not attached to anything any more, and the masters
it was attached to may be polled. -/
structure Detached (fd : ℤ) (h h' : Hub) : Prop where
  length : h'.procs.length = h.procs.length
  entries : ∀ (j : ℕ) (pc' : Proc Fds), h'.procs[j]? = some pc' → ∃ pc : Proc Fds,
    h.procs[j]? = some pc ∧ (pc' = pc ∨ pc' = { pc with fds := { pc.fds with cfd := -1 } })
  regs : ∀ r ∈ h'.kernel.regs, r ∈ h.kernel.regs ∨ ∃ j : ℕ, ∃ pc : Proc Fds, h.procs[j]? = some pc ∧
    pc.fds.cfd = fd ∧ r = ⟨r.file, pc.fds.mfd, pkey 2 j⟩ ∧
    h.kernel.fileOf pc.fds.mfd = some r.file
  files : ∀ fd', h'.kernel.fileOf fd' = h.kernel.fileOf fd'
  sound : h.kernel.Sound → h'.kernel.Sound
  conns : h'.conns = h.conns

namespace Detached

variable {fd : ℤ}

lemma refl (h : Hub) : Detached fd h h :=
  ⟨rfl, fun _ pc hpc => ⟨pc, hpc, .inl rfl⟩, fun _ hr => .inl hr, fun _ => rfl, id, rfl⟩

lemma trans (hfd : 0 < fd) (h₁ : Detached fd h h') (h₂ : Detached fd h' h'') :
    Detached fd h h'' := by
  refine ⟨h₂.length.trans h₁.length, fun j pc'' hpc'' => ?_, fun r hr => ?_,
    fun fd' => (h₂.files fd').trans (h₁.files fd'), h₂.sound ∘ h₁.sound,
    h₂.conns.trans h₁.conns⟩
  · obtain ⟨pc', hpc', heq'⟩ := h₂.entries j pc'' hpc''
    obtain ⟨pc, hpc, heq⟩ := h₁.entries j pc' hpc'
    refine ⟨pc, hpc, ?_⟩
    rcases heq with rfl | rfl
    · exact heq'
    · exact .inr (heq'.elim id id)
  · rcases h₂.regs r hr with hr' | ⟨j, pc', hpc', hcfd, hreq, hf⟩
    · exact h₁.regs r hr'
    · obtain ⟨pc, hpc, rfl | rfl⟩ := h₁.entries j pc' hpc'
      · exact .inr ⟨j, pc', hpc, hcfd, hreq, (h₁.files _).symm.trans hf⟩
      · have : (-1 : ℤ) = fd := hcfd
        omega

lemma recorded_eq (hd : Detached fd h h') {g : ℕ} (hg : 1 ≤ g) (i : ℕ) :
    recorded desc h' g i = recorded desc h g i := by
  rcases lt_or_ge g 2 with h1 | h2
  · obtain rfl : g = 1 := by omega
    rw [recorded_conn, recorded_conn, hd.conns]
  · rw [recorded_proc desc h' h2, recorded_proc desc h h2]
    cases hi : h'.procs[i]? with
    | none =>
      have hnone : h.procs[i]? = none := by
        rw [getElem?_eq_none_iff] at hi ⊢
        exact hd.length ▸ hi
      rw [slot, slot, hi, hnone]
    | some pc' =>
      obtain ⟨pc, hpc, rfl | rfl⟩ := hd.entries i pc' hi
      · rw [slot_of_getElem hi, slot_of_getElem hpc]
      · have huse : ({ pc with fds := { pc.fds with cfd := -1 } } : Proc Fds).inUse = pc.inUse :=
          rfl
        rw [slot_of_getElem hi, slot_of_getElem hpc, huse]
        cases pc.inUse <;> rfl

/-- A client that is attached to something is attached to an entry in use. -/
theorem attributed (hfd : 0 < fd) (hd : Detached fd h h') (ha : Attributed P desc h)
    (hs : Shaped h) : Attributed P desc h' := by
  have hnew : ∀ r ∈ h'.kernel.regs, OfKind P r →
      recorded desc h (pkeyGroup r.key) (pkeyIndex r.key) = some r.fd ∧
        h.kernel.fileOf r.fd = some r.file := by
    intro r hr hg
    rcases hd.regs r hr with hr' | ⟨j, pc, hpc, hcfd, hreq, hf⟩
    · exact ⟨ha.keyed r hr' hg, ha.live r hr' hg⟩
    · have hj : j < 65536 :=
        Nat.lt_of_lt_of_le (List.getElem?_eq_some_iff.mp hpc).choose hs.short
      have hkey : r.key = pkey 2 j := congrArg Reg.key hreq
      have hrfd : r.fd = pc.fds.mfd := congrArg Reg.fd hreq
      have huse : pc.inUse = true := by
        rw [Proc.inUse, decide_eq_true_iff]
        intro hx
        have := (hs.blank j pc hpc hx).1
        omega
      rw [hkey, pkeyGroup_pkey hj, pkeyIndex_pkey hj, hrfd,
        recorded_proc desc h (Nat.le_refl 2), slot_of_getElem hpc, if_pos huse]
      exact ⟨rfl, hf⟩
  refine ⟨hd.sound ha.sound, fun r hr hg => ?_, fun r hr hg => ?_, fun g i fd' hg hfd' hpos => ?_,
    fun g i g' i' fd' hg hg' hfd' hfd'' hpos => ?_, hd.conns ▸ ha.clients⟩
  · rw [hd.recorded_eq (Nat.le_of_succ_le hg.1)]
    exact (hnew r hr hg).1
  · rw [hd.files]
    exact (hnew r hr hg).2
  · rw [hd.recorded_eq hg] at hfd'
    rw [hd.files]
    exact ha.opened g i fd' hg hfd' hpos
  · rw [hd.recorded_eq hg] at hfd'
    rw [hd.recorded_eq hg'] at hfd''
    exact ha.single g i g' i' fd' hg hg' hfd' hfd'' hpos

lemma shaped (hd : Detached fd h h') (hs : Shaped h) : Shaped h' where
  blank i pc' hpc' hx := by
    obtain ⟨pc, hpc, rfl | rfl⟩ := hd.entries i pc' hpc'
    · exact hs.blank i pc' hpc hx
    · refine ⟨?_, (hs.blank i pc hpc hx).2⟩
      show (-1 : ℤ) ≤ 0
      decide
  short := hd.length ▸ hs.short

end Detached

variable {pc : Proc Fds} {batch : List Exit} {w : World}

section

variable (hi : h.procs[i]? = some pc)
include hi

lemma fdsAt_eq : fdsAt h i = pc.fds := by
  rw [fdsAt, hi]
  rfl

lemma setFds_eq (f : Fds → Fds) : setFds h i f = h.setProc i { pc with fds := f pc.fds } := by
  rw [setFds, modify_eq_set hi]
  rfl

lemma detach_eq :
    detach h i = (h.setProc i { pc with fds := { pc.fds with cfd := -1 } }).addEpollFd
      pc.fds.mfd (pkey 2 i) := by
  have hget : (h.setProc i { pc with fds := { pc.fds with cfd := -1 } }).procs[i]? =
      some { pc with fds := { pc.fds with cfd := -1 } } :=
    List.getElem?_set_self (List.getElem?_eq_some_iff.mp hi).choose
  rw [detach, setFds_eq hi, addStdoutFd, fdsAt_eq hget]

lemma detached_detach {fd : ℤ} (hcfd : pc.fds.cfd = fd) : Detached fd h (detach h i) := by
  have hlt := (List.getElem?_eq_some_iff.mp hi).choose
  rw [detach_eq hi]
  refine ⟨?_, fun j pc' hj => ?_, fun r hr => ?_, fun fd' => ?_, fun hs => ?_, ?_⟩
  · rw [procs_addEpollFd]
    exact List.length_set ..
  · rw [procs_addEpollFd] at hj
    have hj : (h.procs.set i { pc with fds := { pc.fds with cfd := -1 } })[j]? = some pc' := hj
    by_cases hji : j = i
    · subst j
      rw [List.getElem?_set_self hlt] at hj
      exact ⟨pc, hi, .inr (Option.some.inj hj).symm⟩
    · rw [List.getElem?_set_ne (Ne.symm hji)] at hj
      exact ⟨pc', hj, .inl rfl⟩
  · rw [Hubs.Hub.addEpollFd] at hr
    split at hr
    · exact .inl hr
    · refine (mem_regs_add.mp hr).imp_right ?_
      rintro ⟨hr', hf, -⟩
      exact ⟨i, pc, hi, hcfd, hr', hf⟩
  · rw [Hubs.Hub.addEpollFd]
    split
    · rfl
    · exact fileOf_add
  · rw [Hubs.Hub.addEpollFd]
    split
    · exact hs
    · exact hs.add
  · rw [Hubs.Hub.addEpollFd]
    split <;> rfl

end

variable {fd : ℤ}

lemma detached_detachClient (hfd : 0 < fd) (h : Hub) : Detached fd h (detachClient h fd) := by
  rw [detachClient]
  generalize range h.procs.length = l
  induction l generalizing h with
  | nil => exact .refl h
  | cons i l ih =>
    rw [foldl_cons]
    refine Detached.trans hfd ?_ (ih _)
    split
    · rename_i hcfd
      cases hi : h.procs[i]? with
      | none =>
        rw [fdsAt, hi] at hcfd
        have : (0 : ℤ) = fd := hcfd
        omega
      | some pc =>
        rw [fdsAt_eq hi] at hcfd
        exact detached_detach hi hcfd
    · exact .refl h

/-! ### Everything else -/

/-- What is kept. -/
structure Kept (P : ℕ → Bool) (h : Hub) : Prop where
  attributed : Attributed P desc h
  shaped : Shaped h

namespace Kept

lemma closeConn (hk : Kept P h) (c : ℕ) : Kept P (Hub.closeConn h c) := by
  rw [Hub.closeConn]
  split
  · exact hk
  · rename_i fd hfd
    split
    · exact hk
    · rename_i hneg
      have hpos : 0 < fd := by
        have := hk.attributed.clients.1 fd (mem_of_getElem? hfd)
        omega
      have hclosed := hk.attributed.closeConnFd hfd (Int.not_lt.mp hneg)
      have hd := detached_detachClient hpos (h.closeConnFd c fd)
      have hs : Shaped (h.closeConnFd c fd) := ⟨hk.shaped.blank, hk.shaped.short⟩
      have hs' := hd.shaped hs
      exact ⟨(hd.attributed hpos hclosed hs).updateNconns, ⟨hs'.blank, hs'.short⟩⟩

lemma notifyExit (hk : Kept P h) (i : ℕ) (e : Exit) : Kept P (Hub.notifyExit h i e) := by
  rw [Hub.notifyExit]
  split
  · exact hk
  · split
    · exact hk
    · exact hk.closeConn _

/-- The kernel forgets registrations, or others get or give up copies of files. -/
theorem withKernel (hk : Kept P h) {k : Kernel} (hs : k.Sound)
    (hregs : ∀ r ∈ k.regs, r ∈ h.kernel.regs) (hfile : ∀ fd, k.fileOf fd = h.kernel.fileOf fd) :
    Kept P (Hub.withKernel h k) :=
  ⟨hk.attributed.unwatched hs hregs hfile, ⟨hk.shaped.blank, hk.shaped.short⟩⟩

lemma replyStart (hk : Kept P h) (i : ℕ) (a : Answers) : Kept P (Hub.replyStart h i a).2 := by
  rw [Hub.replyStart]
  split
  · exact hk
  · split
    · exact hk
    · exact hk.withKernel hk.attributed.sound.hold (fun _ hr => hr) fun _ => rfl

/-- A client is attached to an entry in use, or none. -/
theorem setCfd (hk : Kept P h) {pc : Proc Fds} (hi : h.procs[i]? = some pc) (hx : pc.xid ≠ 0)
    (cfd : ℤ) : Kept P (setFds h i fun fds => { fds with cfd := cfd }) := by
  have hlt := (List.getElem?_eq_some_iff.mp hi).choose
  have huse : ({ pc with fds := { pc.fds with cfd := cfd } } : Proc Fds).inUse = pc.inUse := rfl
  rw [setFds_eq hi]
  constructor
  · refine hk.attributed.forgot rfl rfl fun g j hg => .inl ?_
    rw [recorded_proc _ _ hg, recorded_proc _ _ hg, slot_set rfl hlt]
    split
    · subst j
      rw [huse, slot_of_getElem hi]
      cases pc.inUse <;> rfl
    · rfl
  · refine ⟨fun j pc' hj hx' => ?_, ?_⟩
    · have hj : (h.procs.set i { pc with fds := { pc.fds with cfd := cfd } })[j]? = some pc' := hj
      by_cases hji : j = i
      · rw [hji, List.getElem?_set_self hlt] at hj
        rw [← Option.some.inj hj] at hx'
        exact absurd hx' hx
      · rw [List.getElem?_set_ne (Ne.symm hji)] at hj
        exact hk.shaped.blank j pc' hj hx'
    · show (h.procs.set i _).length ≤ 65536
      rw [List.length_set]
      exact hk.shaped.short

lemma detach (hk : Kept P h) {pc : Proc Fds} (hi : h.procs[i]? = some pc) (hx : pc.xid ≠ 0) :
    Kept P (Hub.detach h i) := by
  have hlt := (List.getElem?_eq_some_iff.mp hi).choose
  have hset := hk.setCfd hi hx (-1)
  rw [setFds_eq hi] at hset
  have huse : pc.inUse = true := by simpa [Proc.inUse] using hx
  rw [detach_eq hi]
  refine ⟨hset.attributed.watched (Nat.lt_of_lt_of_le hlt hk.shaped.short) ?_, ?_⟩
  · rw [recorded_proc _ _ (Nat.le_refl 2), slot_set rfl hlt, if_pos rfl]
    exact congrArg (Option.bind · _) (if_pos huse)
  · refine ⟨fun j pc' hj => ?_, ?_⟩
    · rw [procs_addEpollFd] at hj
      exact hset.shaped.blank j pc' hj
    · rw [procs_addEpollFd]
      exact hset.shaped.short

end Kept

lemma Shaped.reduced (hs : Shaped h) (hr : Reduced h h') : Shaped h' where
  blank j pc' hj hx := by
    rcases hr.2 j pc' hj with ⟨-, hfds⟩ | ⟨pc, hpc, hx', hfds⟩
    · rw [hfds]
      exact ⟨Int.le_refl 0, Int.le_refl 0⟩
    · rw [hfds]
      exact hs.blank j pc hpc (hx'.symm.trans hx)
  short := hr.1.trans hs.short

/-! ### Starting a process -/

lemma desc_eq_some {d : Fds} {g : ℕ} (hd : desc d g = some fd) :
    (g = 2 ∧ fd = d.mfd) ∨ (g = 3 ∧ fd = d.efd) := by
  rw [desc] at hd
  split at hd
  · exact .inl ⟨‹_›, (Option.some.inj hd).symm⟩
  · obtain ⟨h3, hd⟩ := ite_none_right_eq_some.mp hd
    exact .inr ⟨h3, (Option.some.inj hd).symm⟩

/-- What `spawn_proc` does to the table. -/
theorem forked_spec (hi : h.procs[i]? = some pc) :
    ∃ pc' : Proc Fds, (forked h i a).procs = h.procs.set i pc' ∧ pc'.xid = pc.xid ∧
      pc'.name = pc.name ∧ (forked h i a).kernel.regs = h.kernel.regs :=
  ⟨{ pc with pid := a.pid, fds := { pc.fds with mfd := a.ends.1, efd := a.ends.2 } },
    modify_eq_set hi _, rfl, rfl, rfl⟩

/-- A process has been started in an entry. -/
theorem attributed_forked {named : Hub} (ha : Attributed P desc h) (hi : slot h i = none)
    (hposs : a.possible h) (hget : named.procs[i]? = some pc) (hx : pc.xid ≠ 0)
    (hsame : ∀ j, j ≠ i → slot named j = slot h j) (hk : named.kernel = h.kernel)
    (hc : named.conns = h.conns) : Attributed P desc (forked named i a) := by
  obtain ⟨⟨hpos₁, hfree₁⟩, ⟨hpos₂, hfree₂⟩, hne, -⟩ := hposs
  have hinUse : pc.inUse = true := by simpa [Proc.inUse] using hx
  have hfree₂' : (h.kernel.openFile a.ends.1).fileOf a.ends.2 = none :=
    (fileOf_openFile_ne hne.symm).trans hfree₂
  have hlt := (List.getElem?_eq_some_iff.mp hget).choose
  have hkernel : (forked named i a).kernel =
    (h.kernel.openFile a.ends.1).openFile a.ends.2 := by
    rw [forked, hk]
  have hprocs : (forked named i a).procs = named.procs.set i
      { pc with pid := a.pid, fds := { pc.fds with mfd := a.ends.1, efd := a.ends.2 } } :=
    modify_eq_set hget _
  refine ha.entered hi (d := ⟨a.ends.1, pc.fds.cfd, a.ends.2⟩) ?_ ?_ hc ?_ ?_ ?_ ?_ ?_
  · exact (slot_set hprocs hlt).trans ((if_pos rfl).trans (if_pos hinUse))
  · intro j hj
    exact (slot_set hprocs hlt).trans ((if_neg hj).trans (hsame j hj))
  · rw [hkernel]
    exact ha.sound.openFile.openFile
  · rw [hkernel]
    rfl
  · intro fd f hf
    rw [hkernel]
    exact fileOf_openFile_of_none hfree₂' (fileOf_openFile_of_none hfree₁ hf)
  · intro g fd hd _
    rw [hkernel]
    rcases desc_eq_some hd with ⟨-, rfl⟩ | ⟨-, rfl⟩
    · refine ⟨hfree₁, ?_⟩
      rw [fileOf_openFile_of_none hfree₂' fileOf_openFile_self]
      rfl
    · refine ⟨hfree₂, ?_⟩
      rw [fileOf_openFile_self]
      rfl
  · intro g g' fd hd hd' _
    rcases desc_eq_some hd with ⟨rfl, rfl⟩ | ⟨rfl, rfl⟩ <;>
      rcases desc_eq_some hd' with ⟨rfl, heq⟩ | ⟨rfl, heq⟩
    · rfl
    · exact absurd heq hne
    · exact absurd heq.symm hne
    · rfl

lemma attributed_spawnAt {xid : ℤ} {name : List UInt8} (ha : Attributed P desc h)
    (hi : h.procs[i]? = some 0) (hlt : i < 65536) (hx : xid ≠ 0) (hposs : a.possible h)
    (hstale : Unwatched P h (stale name)) : Attributed P desc (spawnAt h i a xid name).2 := by
  have hlen := (List.getElem?_eq_some_iff.mp hi).choose
  by_cases hok : a.open_ = 0
  · have hget : (h.setProc i (.fresh xid name)).procs[i]? = some (.fresh xid name) :=
      List.getElem?_set_self hlen
    have hforked := attributed_forked ha (slot_of_getElem hi) hposs hget hx
      (fun j hj => (slot_set rfl hlen).trans (if_neg hj)) rfl rfl
    obtain ⟨pc, hprocs, hxid, hname, hregs⟩ := forked_spec (a := a) hget
    have hpc : (forked (h.setProc i (.fresh xid name)) i a).procs[i]? = some pc := by
      rw [hprocs]
      exact List.getElem?_set_self ((List.length_set ..).symm ▸ hlen)
    rw [spawnAt_of_eq_zero hok, addStderrFd, fdsAt_eq hpc]
    exact hforked.spawned hlen hprocs hregs (fun heq => hx (hxid.symm.trans heq)) hlt
      (by decide) rfl
      (hname ▸ hstale)
  · rw [spawnAt_of_ne_zero hok]
    exact ha.unnamed hi _

lemma Shaped.set (hs : Shaped h) (hpc : pc.xid = 0 → pc.fds.cfd ≤ 0 ∧ pc.fds.efd ≤ 0)
    (hp : h'.procs = h.procs.set i pc) : Shaped h' where
  blank j pc' hj hx := by
    rw [hp, getElem?_set] at hj
    split at hj
    · obtain ⟨-, heq⟩ := ite_none_right_eq_some.mp hj
      cases heq
      exact hpc hx
    · exact hs.blank j pc' hj hx
  short := by
    rw [hp, length_set]
    exact hs.short

lemma shaped_spawnAt {xid : ℤ} {name : List UInt8} (hs : Shaped h) (hi : h.procs[i]? = some 0)
    (hx : xid ≠ 0) : Shaped (spawnAt h i a xid name).2 := by
  have hlen := (List.getElem?_eq_some_iff.mp hi).choose
  have hnamed : Shaped (h.setProc i (.fresh xid name)) :=
    hs.set (fun heq => absurd heq hx) rfl
  have hget : (h.setProc i (.fresh xid name)).procs[i]? = some (.fresh xid name) :=
    List.getElem?_set_self hlen
  by_cases hok : a.open_ = 0
  · obtain ⟨pc, hprocs, hxid, -, -⟩ := forked_spec (a := a) hget
    have hforked : Shaped (forked (h.setProc i (.fresh xid name)) i a) :=
      hnamed.set (fun heq => absurd (hxid.symm.trans heq) hx) hprocs
    rw [spawnAt_of_eq_zero hok]
    refine hforked.reduced (Reduced.trans ?_ (.updateProcCounts _))
    exact Reduced.trans (.of_procs (procs_addEpollFd ..)) (.wipeStaleEntries _ i)
  · rw [spawnAt_of_ne_zero hok]
    exact hnamed.reduced (.wipeProc _ i)

/-- What `spawn_child` comes to: an error, with the number picked or without, or an entry. -/
theorem spawnChild_cases (h : Hub) (a : Answers) (argv : List (List UInt8)) :
    (∃ e : ℤ, e < 0 ∧ (spawnChild h a argv = (e, h) ∨
        spawnChild h a argv = (e, h.pickUnusedXid.2))) ∨
      ∃ i h', 0 ≤ h.pickUnusedXid.1 ∧ h.pickUnusedXid.2.grabProc a.brk = some (i, h') ∧
        spawnChild h a argv = spawnAt h' i a h.pickUnusedXid.1 (argv.headD []) := by
  have herror : ∀ e : ℤ, 0 < e → -e < 0 := fun e he => by omega
  simp only [spawnChild]
  split
  · exact .inl ⟨_, herror ENAMETOOLONG (by decide), .inl rfl⟩
  split
  · exact .inl ⟨_, herror ENOENT (by decide), .inl rfl⟩
  split
  · exact .inl ⟨_, herror EMFILE (by decide), .inl rfl⟩
  split
  · exact .inl ⟨_, herror EMFILE (by decide), .inr rfl⟩
  rename_i hle
  split
  · exact .inl ⟨_, herror a.access (by omega), .inr rfl⟩
  split
  · exact .inl ⟨_, herror ENOMEM (by decide), .inr rfl⟩
  · exact .inr ⟨_, _, Int.not_lt.mp hle, ‹_›, rfl⟩

/-- The entry grabbed is one that keys are left for, and what can be returned there is what can
be before. -/
theorem grabbed {h' : Hub} (hk : Kept P h) (ht : Tidy h) (hposs : a.possible h)
    (hlt : h.procs.length < 65536) (hg : h.pickUnusedXid.2.grabProc a.brk = some (i, h')) :
    i < 65536 ∧ a.possible h' ∧ Kept P h' ∧ h'.procs.length ≤ h.procs.length + 1 := by
  obtain ⟨htp, -⟩ := ht.pickUnusedXid
  obtain ⟨heq, hle, hzero, -, hsame⟩ := grabProc_spec hg
  obtain ⟨-, hpids⟩ := htp.grabProc hg
  have hkernel : h'.kernel = h.kernel := by rw [heq, pickUnusedXid_snd]
  have hlen := length_grabProc hg
  rw [procs_pickUnusedXid] at hle hlen
  refine ⟨by omega, ?_, ⟨hk.attributed.pickUnusedXid.grabProc hg, fun j pc hj hx => ?_, by omega⟩,
    hlen⟩
  · obtain ⟨hfree₁, hfree₂, hends, hpid, hfork⟩ := hposs
    refine ⟨⟨hfree₁.1, hkernel ▸ hfree₁.2⟩, ⟨hfree₂.1, hkernel ▸ hfree₂.2⟩, hends, hpid,
      fun hmem => hfork ?_⟩
    exact procs_pickUnusedXid h ▸ hpids _ hmem
  · by_cases hji : j = i
    · rw [hji, hzero] at hj
      cases hj
      exact ⟨Int.le_refl 0, Int.le_refl 0⟩
    · rw [hsame j hji, procs_pickUnusedXid] at hj
      exact hk.shaped.blank j pc hj hx

/-- **Starting a process**, or not. What is returned is its number or an error. -/
theorem Kept.spawnChild {argv : List (List UInt8)} (hk : Kept P h) (ht : Tidy h)
    (hposs : a.possible h) (hlt : h.procs.length < 65536)
    (hstale : Unwatched P h (stale (argv.headD []))) :
    Kept P (spawnChild h a argv).2 ∧ (spawnChild h a argv).1 ≠ 0 := by
  have hpick : Kept P h.pickUnusedXid.2 :=
    ⟨hk.attributed.pickUnusedXid, hk.shaped.reduced (.of_procs (procs_pickUnusedXid h))⟩
  rcases spawnChild_cases h a argv with ⟨e, he, heq | heq⟩ | ⟨i, h', -, hg, heq⟩ <;> rw [heq]
  · exact ⟨hk, Int.ne_of_lt he⟩
  · exact ⟨hpick, Int.ne_of_lt he⟩
  · obtain ⟨hi, hposs', hk', -⟩ := grabbed hk ht hposs hlt hg
    obtain ⟨-, -, hzero, -, -⟩ := grabProc_spec hg
    obtain ⟨-, hne⟩ := ht.pickUnusedXid
    have hstale' : Unwatched P h.pickUnusedXid.2 (stale (argv.headD [])) := by
      rw [pickUnusedXid_snd]
      exact hstale
    refine ⟨⟨?_, shaped_spawnAt hk'.shaped hzero hne⟩, ?_⟩
    · exact attributed_spawnAt hk'.attributed hzero hi hne hposs' (hstale'.grabProc rfl hg)
    · by_cases hok : a.open_ = 0
      · rw [spawnAt_of_eq_zero hok]
        exact hne
      · rw [spawnAt_of_ne_zero hok]
        show -(a.open_ : ℤ) ≠ 0
        omega

/-! ### Exits -/

lemma findConn_eq_none : findConn h fd = none ↔ fd < 0 ∨ fd ∉ h.conns := by
  rw [findConn]
  split
  · exact ⟨fun _ => .inl ‹_›, fun _ => rfl⟩
  · rename_i hneg
    rw [findIdx?_eq_none_iff]
    refine ⟨fun hall => .inr fun hmem => ?_, fun hor x hx => ?_⟩
    · simpa using hall fd hmem
    · rcases hor with hlt | hnot
      · exact absurd hlt hneg
      · have : x ≠ fd := fun heq => hnot (heq ▸ hx)
        simpa using this

/-- The entries of processes that end without a word are not watched, and will not be: all
clients listen, or none is attached to a terminal of theirs. -/
def Spared (P : ℕ → Bool) (h : Hub) (batch : List Exit) : Prop :=
  Unwatched P h (quiet batch) ∧ ((∀ e ∈ batch, e.told = true) ∨ Every h fun _ pc =>
    quiet batch pc = true → findConn h pc.fds.cfd = none ∨ h.kernel.fileOf pc.fds.mfd = none)
deriving Decidable

/-- What closing a connection does to the hub. -/
theorem closeConn_spec {c : ℕ} (hc : h.conns[c]? = some fd) (hfd : 0 < fd) :
    ∃ h₁, Detached fd (h.closeConnFd c fd) h₁ ∧ closeConn h c = h₁.updateNconns := by
  refine ⟨_, detached_detachClient hfd _, ?_⟩
  simp only [closeConn, hc, if_neg (Int.not_lt.mpr (Int.le_of_lt hfd))]

lemma Spared.closeConn {c : ℕ} (hc : h.conns[c]? = some fd) (hfd : 0 < fd)
    (hshort : h.procs.length ≤ 65536) (hu : Unwatched P h (quiet batch))
    (hev : Every h fun _ pc => quiet batch pc = true →
      findConn h pc.fds.cfd = none ∨ h.kernel.fileOf pc.fds.mfd = none) :
    Spared P (closeConn h c) batch := by
  obtain ⟨h₁, hd, heq⟩ := closeConn_spec hc hfd
  have hev := every_iff.mp hev
  rw [heq]
  -- what was quiet is so still, and had no client or no master
  have hold : ∀ (j : ℕ) (pc' : Proc Fds), h₁.procs[j]? = some pc' → quiet batch pc' = true →
      ∃ pc : Proc Fds, h.procs[j]? = some pc ∧ quiet batch pc = true ∧
        (pc'.fds.cfd = pc.fds.cfd ∨ pc'.fds.cfd = -1) ∧ pc'.fds.mfd = pc.fds.mfd := by
    intro j pc' hj hq
    obtain ⟨pc, hpc, rfl | rfl⟩ := hd.entries j pc' hj
    · exact ⟨pc', hpc, hq, .inl rfl, rfl⟩
    · exact ⟨pc, hpc, hq, .inr rfl, rfl⟩
  have hfile : ∀ fd' f, h₁.kernel.fileOf fd' = some f → h.kernel.fileOf fd' = some f := by
    intro fd' f hf
    rw [hd.files] at hf
    exact (fileOf_of_close hf).2
  refine ⟨every_iff.mpr fun j pc' hj hq => ?_, .inr (every_iff.mpr fun j pc' hj hq => ?_)⟩
  · obtain ⟨pc, hpc, hq', -, -⟩ := hold j pc' hj hq
    refine Bool.eq_false_iff.mpr fun hreg => ?_
    obtain ⟨r, hr, hg, hrj⟩ := registered_iff.mp hreg
    rcases hd.regs r hr with hr' | ⟨k, pc₀, hk, hcfd, hreq, hf⟩
    · have hr' : r ∈ h.kernel.regs := mem_regs_of_del (mem_regs_of_close hr')
      have := hu.get hpc hq'
      rw [registered_iff.mpr ⟨r, hr', hg, hrj⟩] at this
      cases this
    · have hk : h.procs[k]? = some pc₀ := hk
      have hkey : r.key = pkey 2 k := congrArg Reg.key hreq
      have hklt := Nat.lt_of_lt_of_le (List.getElem?_eq_some_iff.mp hk).choose hshort
      rw [hkey, pkeyIndex_pkey hklt] at hrj
      rw [hrj, hpc] at hk
      cases hk
      rcases hev j pc hpc hq' with hnone | hnone
      · rcases findConn_eq_none.mp hnone with hneg | hnot
        · omega
        · exact hnot (hcfd ▸ mem_of_getElem? hc)
      · have hf : h.kernel.fileOf pc.fds.mfd = some r.file := (fileOf_of_close hf).2
        rw [hnone] at hf
        cases hf
  · obtain ⟨pc, hpc, hq', hcfd, hmfd⟩ := hold j pc' hj hq
    refine (hev j pc hpc hq').imp (fun hnone => findConn_eq_none.mpr ?_) fun hnone => ?_
    · rcases Int.lt_or_le pc'.fds.cfd 0 with hneg | hle
      · exact .inl hneg
      · have hcfd : pc'.fds.cfd = pc.fds.cfd := hcfd.resolve_right (by omega)
        refine .inr fun hmem => ?_
        have hmem : pc'.fds.cfd ∈ h₁.conns := ( rdropWhile_prefix _ _).subset hmem
        rw [hd.conns] at hmem
        rcases mem_or_eq_of_mem_set hmem with hmem | heq
        · rcases findConn_eq_none.mp hnone with hneg | hnot
          · omega
          · exact hnot (hcfd ▸ hmem)
        · omega
    · rw [hmfd]
      refine eq_none_iff_forall_ne_some.mpr fun f hf => ?_
      rw [hfile _ f hf] at hnone
      cases hnone

lemma Spared.notifyExit {e : Exit} (hk : Kept P h) (hs : Spared P h (e :: batch)) (i : ℕ) :
    Spared P (Hub.notifyExit h i e) (e :: batch) := by
  rw [Hub.notifyExit]
  split
  · exact hs
  · rename_i c hc
    split
    · exact hs
    · rename_i htold
      rcases hs.2 with hall | hev
      · exact absurd (hall e mem_cons_self) htold
      · rw [Hub.findConn] at hc
        obtain ⟨hneg, hc⟩ := ite_none_left_eq_some.mp hc
        obtain ⟨hlt, hfd, -⟩ := findIdx?_eq_some_iff_getElem.mp hc
        have hget : h.conns[c]? = some (Hub.fdsAt h i).cfd := by
          rw [getElem?_eq_getElem hlt]
          simpa using hfd
        have hne := hk.attributed.clients.1 _ (mem_of_getElem? hget)
        exact Spared.closeConn hget (by omega) hk.shaped.short hs.1 hev

lemma Spared.endProc {e : Exit} {status : ℤ} (hs : Spared P h (e :: batch)) :
    Spared P (h.endProc i status) batch := by
  refine ⟨hs.1.endProc, hs.2.imp (fun hall e' he' => hall e' (mem_cons_of_mem _ he')) ?_⟩
  intro hev
  refine every_iff.mpr fun j pc hj hq => ?_
  rcases getElem?_endProc hj with hpc | hdead
  · rw [kernel_endProc]
    have := every_iff.mp hev j pc hpc (quiet_cons hq)
    have hconns : (h.endProc i status).conns = h.conns := by
      rw [Hubs.Hub.endProc]
      split <;> rfl
    rwa [findConn, hconns]
  · rw [not_quiet hdead] at hq
    cases hq

lemma Kept.checkChildren {last : ℤ} {out : Hub × List Exit} (hk : Kept P h)
    (hs : Spared P h batch) (hout : Hub.checkChildren h last batch = some out) : Kept P out.1 := by
  induction batch generalizing h with
  | nil =>
    rw [Hub.checkChildren, Hubs.Hub.checkChildren] at hout
    split at hout
    · cases hout
    · cases hout
      exact ⟨hk.attributed.recounted, hk.shaped.reduced (.updateProcCounts h)⟩
  | cons e batch ih =>
    rw [Hub.checkChildren, Hubs.Hub.checkChildren] at hout
    split at hout
    · cases hout
      exact hk
    · rename_i i hi
      have hk' := hk.notifyExit i e
      have hs' := hs.notifyExit hk i
      have hi' := ((quiet_notifyExit h i e).findIdx?_eq e.pid).trans hi
      obtain ⟨hlt, hpid, -⟩ := findIdx?_eq_some_iff_getElem.mp hi'
      refine ih ⟨?_, hk'.shaped.reduced (.endProc _ i _)⟩ hs'.endProc hout
      refine hk'.attributed.endProc fun pc hpc hzero hb => hs'.1.get hpc (quiet_first ?_ hzero hb)
      rw [getElem?_eq_getElem hlt] at hpc
      cases hpc
      simpa using hpid

/-! ### Requests and events -/

lemma findProc_spec {D : Type} {h : Hubs.Hub D} {i : ℕ} {xid : ℤ} (hi : h.findProc xid = some i) :
    ∃ pc, h.procs[i]? = some pc ∧ pc.xid = xid := by
  obtain ⟨hlt, hx, -⟩ := findIdx?_eq_some_iff_getElem.mp hi
  exact ⟨_, getElem?_eq_getElem hlt, by simpa using hx⟩

/-- No entry goes that epoll still watches, or will when a client that does not listen is
dropped; a master that is polled is only closed when no one else has a copy of it; and no one
asks for entries not in use. -/
def Careful (P : ℕ → Bool) (w : World) : Event → Prop
  | .exits batch _ => Spared P w.hub batch
  | .request _ (.start argv _) _ | .request _ (.spawn argv _) _ =>
    w.hub.procs.length < 65536 ∧ Unwatched P w.hub (stale (argv.headD []))
  | .request _ (.flush xid) _ => Unwatched P w.hub fun pc => pc.xid = xid && pc.pid ≤ 0
  | .request _ .clear _ => Unwatched P w.hub fun pc => pc.xid ≠ 0 && pc.pid ≤ 0
  | .request _ (.attach xid) _ => xid = 0 → w.hub.findProc xid = none
  | .poll r input other flushed _ _ =>
    pkeyGroup r.key = 2 → (other = true ∨ (input = true ∧ flushed = false)) →
      r.file ∉ w.hub.kernel.held
  | _ => True

instance (P : ℕ → Bool) (w : World) : (e : Event) → Decidable (Careful P w e)
  | .exits _ _ => inferInstanceAs (Decidable (Spared _ _ _))
  | .request _ (.start _ _) _ | .request _ (.spawn _ _) _ =>
    inferInstanceAs (Decidable (_ ∧ Unwatched _ _ _))
  | .request _ (.flush _) _ | .request _ .clear _ => inferInstanceAs (Decidable (Unwatched _ _ _))
  | .request _ (.attach _) _ => inferInstanceAs (Decidable (_ → _))
  | .poll _ _ _ _ _ _ => inferInstanceAs (Decidable (_ → _ → _))
  | .request _ (.status _) _ | .request _ (.detach _) _ | .request _ (.sigterm _) _
  | .request _ (.sigkill _) _ | .request _ (.fetch _) _ | .request _ (.refused _) _
  | .connect _ | .hangup _ | .hold _ | .release _ => inferInstanceAs (Decidable True)

/-- What the loop of `flush_dead_procs` does to an entry. -/
theorem flushDead_spec (stuck : List ℕ) (l : List (Proc Fds)) (i j : ℕ) :
    (flushDead stuck i l).2[j]? = l[j]? ∨
      ∃ pc : Proc Fds, l[j]? = some pc ∧ pc.xid ≠ 0 ∧ pc.pid ≤ 0 ∧
        (flushDead stuck i l).2[j]? = some 0 := by
  induction l generalizing i j with
  | nil => exact .inl rfl
  | cons pc rest ih =>
    rw [flushDead]
    split
    · cases j with
      | zero => exact .inl rfl
      | succ j => exact ih (i + 1) j
    · rename_i hdead
      split
      · exact .inl rfl
      · cases j with
        | zero =>
          refine .inr ⟨pc, rfl, fun hx => hdead (.inl hx), Int.not_lt.mp fun hp => hdead (.inr hp),
            rfl⟩
        | succ j => exact ih (i + 1) j

lemma Kept.flushDeadProcs (hk : Kept P h)
    (hu : Unwatched P h fun pc => pc.xid ≠ 0 && pc.pid ≤ 0) (a : Answers) :
    Kept P (flushDeadProcs h a).2 := by
  let out : Hub := { h with procs := (flushDead a.stuck 0 h.procs).2 }
  have hspec := flushDead_spec a.stuck h.procs 0
  have hkept : Kept P out := by
    refine ⟨hk.attributed.thin rfl rfl fun j => ?_, hk.shaped.reduced ⟨?_, fun j pc' hj => ?_⟩⟩
    · rcases hspec j with heq | ⟨pc, hpc, hx, hp, hzero⟩
      · exact .inl (congrArg (fun o : Option (Proc Fds) => (o.filter Proc.inUse).map Proc.fds) heq)
      · exact .inr ⟨slot_of_getElem (h := out) hzero, hu.get hpc (by simp [hx, hp])⟩
    · exact le_of_eq (List.Forall₂.length_eq (fading_flushDead a.stuck h.procs 0)).symm
    · rcases hspec j with heq | ⟨pc, hpc, hx, hp, hzero⟩
      · exact .inr ⟨pc', heq.symm.trans hj, rfl, rfl⟩
      · cases hzero.symm.trans hj
        exact .inl ⟨rfl, rfl⟩
  exact ⟨hkept.attributed.recounted, hkept.shaped.reduced (.updateProcCounts out)⟩

lemma Kept.call {req : Request} {c : ℕ} (hk : Kept P w.hub) (ht : Tidy w.hub)
    (hfd : 0 < fd) (hposs : a.possible w.hub) (hok : Careful P w (.request c req a)) :
    Kept P (Hub.call w.hub a fd req).2 := by
  cases req with
  | start argv envp =>
    obtain ⟨hspawn, hne⟩ := hk.spawnChild ht hposs hok.1 hok.2
    simp only [Hub.call, Hub.cmdStart]
    split
    · exact hspawn
    · split
      · exact hspawn
      · rename_i i hi
        obtain ⟨pc, hpc, hx⟩ := findProc_spec hi
        exact (hspawn.setCfd hpc (hx ▸ hne) fd).replyStart i a
  | spawn argv envp =>
    obtain ⟨hspawn, hne⟩ := hk.spawnChild ht hposs hok.1 hok.2
    simp only [Hub.call, Hub.cmdSpawn]
    split
    · exact hspawn
    · split
      · exact hspawn
      · rename_i i hi
        obtain ⟨pc, hpc, hx⟩ := findProc_spec hi
        exact hspawn.detach hpc (hx ▸ hne)
  | detach xid =>
    simp only [Hub.call, Hub.cmdDetach]
    split
    · exact hk
    · rename_i i hi
      obtain ⟨pc, hpc, -⟩ := findProc_spec hi
      split
      · exact hk
      · split
        · exact hk
        · rename_i hcfd
          have hcfd := not_not.mp hcfd
          rw [fdsAt_eq hpc] at hcfd
          refine hk.detach hpc fun hx => ?_
          have := (hk.shaped.blank i pc hpc hx).1
          omega
  | attach xid =>
    simp only [Hub.call, Hub.cmdAttach]
    split
    · exact hk
    · rename_i i hi
      obtain ⟨pc, hpc, hx⟩ := findProc_spec hi
      split
      · exact hk
      · split
        · exact hk
        · have hne : pc.xid ≠ 0 := by
            intro hzero
            have hok : xid = 0 → w.hub.findProc xid = none := hok
            rw [hok (hx ▸ hzero)] at hi
            cases hi
          have hset := hk.setCfd hpc hne fd
          refine Kept.replyStart ?_ i a
          exact hset.withKernel hset.attributed.sound.del (fun _ => mem_regs_of_del) fun _ =>
            rfl
  | flush xid =>
    rw [Hub.call, Hub.cmdFlush]
    split
    · exact hk
    · rename_i i hi
      split
      · exact hk
      · have hok : Unwatched P w.hub fun pc => pc.xid = xid && pc.pid ≤ 0 := hok
        refine ⟨hk.attributed.flushProc fun pc hpc hpid => hok.get hpc ?_,
          hk.shaped.reduced (.flushProc _ i)⟩
        obtain ⟨pc', hpc', hx⟩ := findProc_spec hi
        cases hpc.symm.trans hpc'
        simp [hx, hpid]
  | clear => exact hk.flushDeadProcs hok a
  | _ => exact hk

lemma ite_of_both {α : Type} {P : α → Prop} {c : Prop} [Decidable c] {x y : α} (hx : P x)
    (hy : P y) : P (if c then x else y) := by
  split
  · exact hx
  · exact hy

/-- What an event of a terminal or a pipe does: it keeps what is kept, and changes no other
entry and no other descriptor. -/
structure Local (P : ℕ → Bool) (h : Hub) (i : ℕ) (fd : ℤ) (h' : Hub) : Prop where
  kept : Kept P h → Kept P h'
  others : ∀ j, j ≠ i → h'.procs[j]? = h.procs[j]?
  files : ∀ fd', fd' ≠ fd → h'.kernel.fileOf fd' = h.kernel.fileOf fd'

lemma Local.refl (P : ℕ → Bool) (h : Hub) (i : ℕ) (fd : ℤ) : Local P h i fd h :=
  ⟨id, fun _ _ => rfl, fun _ _ => rfl⟩

lemma Local.trans (h₁ : Local P h i fd h') (h₂ : Local P h' i fd h'') : Local P h i fd h'' :=
  ⟨h₂.kept ∘ h₁.kept, fun j hj => (h₂.others j hj).trans (h₁.others j hj),
    fun fd' hne => (h₂.files fd' hne).trans (h₁.files fd' hne)⟩

/-- A descriptor of an entry in use is closed. -/
theorem local_close {g : ℕ} {f : Fds → Fds} {k : Kernel} (hg : 2 ≤ g)
    (hi : h.procs[i]? = some pc) (hx : pc.xid ≠ 0) (hfd : desc pc.fds g = some fd) (hpos : 0 < fd)
    (hk : k = (h.kernel.del fd).close fd ∨
      k = h.kernel.close fd ∧ ∀ f, h.kernel.fileOf fd = some f → f ∉ h.kernel.held)
    (hsame : ∀ g', g' ≠ g → desc (f pc.fds) g' = desc pc.fds g')
    (hgone : desc (f pc.fds) g = some (-1)) :
    Local P h i fd (withKernel (setFds h i f) k) := by
  have hlt := (List.getElem?_eq_some_iff.mp hi).choose
  have huse : pc.inUse = true := by simpa [Proc.inUse] using hx
  have hslot : slot h i = some pc.fds := (slot_of_getElem hi).trans (if_pos huse)
  have hprocs : (withKernel (setFds h i f) k).procs =
      h.procs.set i { pc with fds := f pc.fds } := modify_eq_set hi _
  refine ⟨fun hkept => ⟨?_, ?_⟩, fun j hj => ?_, fun fd' hne => ?_⟩
  · refine hkept.attributed.closedAt hg hslot hfd hpos hk
      ((slot_set hprocs hlt).trans ((if_pos rfl).trans (if_pos huse)))
      (fun j hj => (slot_set hprocs hlt).trans (if_neg hj)) rfl hsame fun fd' hfd' => ?_
    cases hgone.symm.trans hfd'
    decide
  · refine hkept.shaped.set ?_ hprocs
    exact fun heq => absurd heq hx
  · rw [hprocs, List.getElem?_set_ne hj.symm]
  · show k.fileOf fd' = h.kernel.fileOf fd'
    rcases hk with rfl | ⟨rfl, -⟩ <;> rw [fileOf_close_ne hne]
    rfl

section

variable (hi : h.procs[i]? = some pc)
include hi

lemma local_closeStdout (hx : pc.xid ≠ 0)
    (hheld : ∀ f, h.kernel.fileOf pc.fds.mfd = some f → f ∉ h.kernel.held) :
    Local P h i pc.fds.mfd (closeStdout h i) := by
  simp only [closeStdout, fdsAt_eq hi]
  split
  · exact .refl ..
  · rename_i hfd
    refine local_close (le_refl 2) hi hx rfl (Int.not_le.mp hfd) (.inr ⟨rfl, hheld⟩) ?_ rfl
    intro g hg
    rw [desc, if_neg hg, desc, if_neg hg]

lemma local_closeStderr (hx : pc.xid ≠ 0) : Local P h i pc.fds.efd (closeStderr h i) := by
  simp only [closeStderr, fdsAt_eq hi]
  split
  · exact .refl ..
  · rename_i hfd
    refine local_close (g := 3) (by decide) hi hx rfl (Int.not_le.mp hfd) (.inl rfl) ?_ rfl
    intro g hg
    by_cases h2 : g = 2
    · rw [desc, if_pos h2, desc, if_pos h2]
    · rw [desc, if_neg h2, if_neg hg, desc, if_neg h2, if_neg hg]

lemma fdsAt_setFds (f : Fds → Fds) (k : Kernel) :
    fdsAt (withKernel (setFds h i f) k) i = f pc.fds := by
  have hget : (withKernel (setFds h i f) k).procs[i]? = some
    { pc with fds := f pc.fds } := by
    show (h.procs.modify i _)[i]? = _
    rw [modify_eq_set hi]
    exact List.getElem?_set_self (List.getElem?_eq_some_iff.mp hi).choose
  exact fdsAt_eq hget

/-- Closing again does nothing. -/
theorem closeStdout_twice : closeStdout (closeStdout h i) i = closeStdout h i := by
  have hle : (fdsAt (closeStdout h i) i).mfd ≤ 0 := by
    simp only [closeStdout]
    split
    · assumption
    · rw [fdsAt_setFds hi]
      show (-1 : ℤ) ≤ 0
      decide
  rw [closeStdout, if_pos hle]

@[inherit_doc closeStdout_twice]
lemma closeStderr_twice : closeStderr (closeStderr h i) i = closeStderr h i := by
  have hle : (fdsAt (closeStderr h i) i).efd ≤ 0 := by
    simp only [closeStderr]
    split
    · assumption
    · rw [fdsAt_setFds hi]
      show (-1 : ℤ) ≤ 0
      decide
  rw [closeStderr, if_pos hle]

/-- What an event of a terminal comes to. -/
theorem processStdout_eq (input other flushed : Bool) :
    processStdout h i input other flushed =
      ⟨if other || (input && !flushed) then closeStdout h i else h, false⟩ := by
  have hlt : ¬h.procs.length ≤ i := Nat.not_le.mpr (List.getElem?_eq_some_iff.mp hi).choose
  simp only [processStdout, if_neg hlt, handleStdout]
  cases input <;> cases other <;> cases flushed <;>
    first | rfl | exact congrArg (World.mk · false) (closeStdout_twice hi)

/-- **An event of a terminal** of an entry in use. -/
theorem local_processStdout {input other flushed : Bool} (hx : pc.xid ≠ 0)
    (hheld : (other = true ∨ (input = true ∧ flushed = false)) →
      ∀ f, h.kernel.fileOf pc.fds.mfd = some f → f ∉ h.kernel.held) :
    (processStdout h i input other flushed).failed = false ∧
      Local P h i pc.fds.mfd (processStdout h i input other flushed).hub := by
  rw [processStdout_eq hi]
  refine ⟨rfl, ?_⟩
  split
  · rename_i hc
    exact local_closeStdout hi hx (hheld (by simpa using hc))
  · exact .refl ..

/-- **An event of a pipe for errors** of an entry in use. -/
theorem local_processStderr {input other mmap : Bool} {read : Option ℕ} (hx : pc.xid ≠ 0) :
    (processStderr h i input other mmap read).failed = false ∧
      Local P h i pc.fds.efd (processStderr h i input other mmap read).hub := by
  have hlt := (List.getElem?_eq_some_iff.mp hi).choose
  have hclose : Local P h i _ _ := local_closeStderr hi hx
  simp only [processStderr, if_neg (Nat.not_le.mpr hlt)]
  refine ⟨trivial, ?_⟩
  cases input with
  | false => exact ite_of_both hclose (.refl ..)
  | true =>
    simp only [if_true, handleStderr, hi]
    by_cases hm : (!pc.buf) = true ∧ (!mmap) = true
    · simp only [if_pos hm, closeStderr_twice hi]
      exact ite_of_both hclose hclose
    · -- something is read
      let pc' : Proc Fds := { pc with
        buf := true, ptr := read.elim (if pc.buf then pc.ptr else 0)
          (advance (if pc.buf then pc.ptr else 0)) }
      have hget : (h.setProc i pc').procs[i]? = some pc' := List.getElem?_set_self hlt
      have hread : Local P h i pc.fds.efd (h.setProc i pc') := by
        refine ⟨fun hk => ⟨hk.attributed.thin rfl rfl fun j => .inl ?_, ?_⟩,
          fun j hj => List.getElem?_set_ne hj.symm, fun _ _ => rfl⟩
        · refine slot_setProc_same hi ?_ j
          exact ⟨rfl, rfl⟩
        · exact hk.shaped.reduced (.setProc (.inr ⟨pc, hi, rfl, rfl⟩))
      have hlast : Local P _ i _ _ := local_closeStderr hget hx
      simp only [if_neg hm]
      exact ite_of_both (hread.trans hlast) hread

end

lemma slot_of_registered (ha : Attributed P desc h) {r : Reg} (hr : r ∈ h.kernel.regs)
    (hg : OfKind P r) :
    ∃ pc : Proc Fds, h.procs[pkeyIndex r.key]? = some pc ∧ pc.xid ≠ 0 ∧
      ((pkeyGroup r.key = 2 ∧ r.fd = pc.fds.mfd) ∨ (pkeyGroup r.key = 3 ∧ r.fd = pc.fds.efd)) := by
  have hkeyed := ha.keyed r hr hg
  rw [recorded_proc desc h hg.1] at hkeyed
  obtain ⟨d, hd, hfd⟩ := bind_eq_some_iff.mp hkeyed
  obtain ⟨pc, hpc, huse, rfl⟩ := slot_eq_some.mp hd
  exact ⟨pc, hpc, by simpa [Proc.inUse] using huse, desc_eq_some hfd⟩

/-- **An event of what is looked at** goes to the entry it is for. -/
theorem turn_poll {w' : World} (hk : Kept P w.hub) {r : Reg} {input other flushed mmap : Bool}
    {read : Option ℕ} (hP : P (pkeyGroup r.key) = true)
    (hok : Careful P w (.poll r input other flushed mmap read))
    (hs : turn w.hub (.poll r input other flushed mmap read) = some w') :
    w'.failed = false ∧ Local P w.hub (pkeyIndex r.key) r.fd w'.hub := by
  obtain ⟨⟨hr, hg⟩, hs⟩ := ite_none_right_eq_some.mp hs
  obtain ⟨pc, hpc, hx, ⟨h2, hfd⟩ | ⟨h3, hfd⟩⟩ := slot_of_registered hk.attributed hr ⟨hg, hP⟩
  · rw [if_pos h2] at hs
    cases hs
    rw [hfd]
    refine local_processStdout hpc hx fun hclose f hf => ?_
    have hlive := hk.attributed.live r hr ⟨hg, hP⟩
    rw [hfd, hf] at hlive
    exact Option.some.inj hlive ▸ hok h2 hclose
  · rw [if_neg (by omega), if_pos h3] at hs
    cases hs
    rw [hfd]
    exact local_processStderr hpc hx

/-- Whichever entry an event of a pipe for errors is taken to be for, nothing is lost. -/
theorem Kept.closeStderr (hk : Kept P h) (i : ℕ) : Kept P (Hub.closeStderr h i) := by
  cases hi : h.procs[i]? with
  | none =>
    have hle : (Hub.fdsAt h i).efd ≤ 0 := by
      rw [Hub.fdsAt, hi]
      exact Int.le_refl 0
    rw [Hub.closeStderr, if_pos hle]
    exact hk
  | some pc =>
    by_cases hx : pc.xid = 0
    · have hle := (hk.shaped.blank i pc hi hx).2
      rw [← fdsAt_eq hi] at hle
      rw [Hub.closeStderr, if_pos hle]
      exact hk
    · exact (local_closeStderr hi hx).kept hk

@[inherit_doc Kept.closeStderr]
lemma Kept.handleStderr (hk : Kept P h) (i : ℕ) (mmap : Bool) (read : Option ℕ) :
    Kept P (Hub.handleStderr h i mmap read) := by
  rw [Hub.handleStderr]
  split
  · exact hk
  · rename_i pc hi
    split
    · exact hk.closeStderr i
    · refine ⟨hk.attributed.thin rfl rfl fun j => .inl ?_, ?_⟩
      · refine slot_setProc_same hi ?_ j
        exact ⟨rfl, rfl⟩
      · exact hk.shaped.reduced (.setProc (.inr ⟨pc, hi, rfl, rfl⟩))

@[inherit_doc Kept.closeStderr]
lemma Kept.processStderr (hk : Kept P h) (i : ℕ) (input other mmap : Bool) (read : Option ℕ) :
    Kept P (processStderr h i input other mmap read).hub := by
  have hin : Kept P (if input then Hub.handleStderr h i mmap read else h) :=
    ite_of_both (hk.handleStderr i mmap read) hk
  rw [Ptyhub.processStderr]
  split
  · exact hk
  · exact ite_of_both (hin.closeStderr i) hin

lemma Kept.checkSocket (hk : Kept P h) (hfree : h.free fd) : Kept P (h.checkSocket fd) := by
  refine ⟨hk.attributed.checkSocket hfree, hk.shaped.reduced (.of_procs ?_)⟩
  simp only [Hubs.Hub.checkSocket]
  split
  · rfl
  · rename_i c h' hg
    rw [procs_addEpollFd, grabConnSlot_eq hg]

lemma kept_turn {w' : World} {e : Event} (hP : P 2 = true) (ht : Tidy w.hub) (hk : Kept P w.hub)
    (hok : Careful P w e) (hs : turn w.hub e = some w') : Kept P w'.hub := by
  cases e with
  | connect fd =>
    obtain ⟨hfree, hs⟩ := ite_none_right_eq_some.mp hs
    cases hs
    exact hk.checkSocket hfree
  | request c req a =>
    obtain ⟨⟨⟨fd, hfd, hle⟩, hposs⟩, hs⟩ := ite_none_right_eq_some.mp hs
    cases hs
    have hne := hk.attributed.clients.1 fd (mem_of_getElem? hfd)
    have hcall := hk.call ht (show 0 < fd by omega) hposs hok
    have hget : w.hub.conns[c]? = some fd := hfd
    simp only [handleConn, hget]
    exact ite_of_both hcall (hcall.closeConn c)
  | hangup c =>
    cases hs
    exact hk.closeConn c
  | exits batch last =>
    obtain ⟨out, hout, rfl⟩ := map_eq_some_iff.mp hs
    exact hk.checkChildren hok hout
  | poll r input other flushed mmap read =>
    by_cases h2 : pkeyGroup r.key = 2
    · exact (turn_poll hk (h2 ▸ hP) hok hs).2.kept hk
    · obtain ⟨-, hs⟩ := ite_none_right_eq_some.mp hs
      rw [if_neg h2] at hs
      split at hs
      · cases hs
        exact hk.processStderr ..
      · cases hs
        exact hk
  | hold f =>
    cases hs
    exact hk.withKernel hk.attributed.sound.hold (fun _ hr => hr) fun _ => rfl
  | release f =>
    cases hs
    exact hk.withKernel hk.attributed.sound.release (fun _ => mem_regs_of_release) fun _ =>
      rfl

/-- **In every run in which no entry goes too early** the attribution is right, of the kinds of
descriptors looked at. -/
theorem kept_of_reach (hP : P 2 = true) (hw : Reach Boot step (Careful P) w) :
    Kept P w.hub ∧ Tidy w.hub := by
  induction hw with
  | start hb =>
    refine ⟨⟨.boot hb, fun i pc hpc => ?_, ?_⟩, hb.tidy⟩
    · rw [hb.procs] at hpc
      cases hpc
    · rw [hb.procs]
      exact Nat.zero_le _
  | next _ hok hs ih =>
    obtain ⟨hk, ht⟩ := ih
    obtain ⟨-, hs⟩ := ite_none_left_eq_some.mp hs
    exact ⟨kept_turn hP ht hk hok hs, tidy_turn ht hs⟩

/-- When that is so for all of them, the hub does not give up. -/
theorem attributed_of_reach (hw : Reach Boot step (Careful anyGroup) w) :
    Kept anyGroup w.hub ∧ w.failed = false := by
  refine ⟨(kept_of_reach rfl hw).1, ?_⟩
  cases hw with
  | start hb => exact hb.failed
  | @next w w' e hw hok hs =>
    obtain ⟨hk, -⟩ := kept_of_reach rfl hw
    obtain ⟨-, hs⟩ := ite_none_left_eq_some.mp hs
    cases e with
    | poll r input other flushed mmap read => exact (turn_poll hk rfl hok hs).1
    | connect fd | request c req a =>
      obtain ⟨-, hs⟩ := ite_none_right_eq_some.mp hs
      exact Option.some.inj hs ▸ rfl
    | exits batch last =>
      obtain ⟨out, -, rfl⟩ := map_eq_some_iff.mp hs
      rfl
    | _ => exact Option.some.inj hs ▸ rfl

end Minibase.Ptyhub
