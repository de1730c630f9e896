import Minibase.Hubs.Attribution

/-!
# What the application hub polls

`Apphub.Careful` is the condition under which the hub never loses track of a pipe: no
entry goes while epoll still watches its pipe. `Apphub.attributed_of_reach` says that
in the runs that keep to it every pipe that is polled is that of the entry its key names.
-/

namespace Minibase.Apphub

open Hubs List Option Hub Kernel

/-- The descriptor of a process: the pipe, group 2. -/
def desc (fd : ℤ) (g : ℕ) : Option ℤ := if g = 2 then some fd else none

/-- No entry goes that epoll still watches: not that of a process that ends well and has
written nothing, not one that is flushed, and not an old one of a name started again. And there
are not more entries than there are keys. -/
def Careful (w : World) : Event → Prop
  | .exits batch _ => Unwatched anyGroup w.hub (quiet batch)
  | .request _ (.spawn argv _) _ =>
    w.hub.procs.length < 65536 ∧ Unwatched anyGroup w.hub (stale (argv.headD []))
  | .request _ (.flush xid) _ => Unwatched anyGroup w.hub fun pc => pc.xid = xid && pc.pid ≤ 0
  | _ => True

instance (w : World) : (e : Event) → Decidable (Careful w e)
  | .exits _ _ => inferInstanceAs (Decidable (Unwatched _ _ _))
  | .request _ (.spawn _ _) _ => inferInstanceAs (Decidable (_ ∧ Unwatched _ _ _))
  | .request _ (.flush _) _ => inferInstanceAs (Decidable (Unwatched _ _ _))
  | .request _ (.status _) _ | .request _ (.sigterm _) _ | .request _ (.sigkill _) _
  | .request _ (.fetch _) _ | .request _ (.refused _) _ | .connect _ | .hangup _
  | .poll _ _ _ _ _ | .hold _ | .release _ => inferInstanceAs (Decidable True)

variable {h : Hub} {i : ℕ} {a : Answers}

/-! ### Starting a process -/

/-- A process has been started in an entry, or could not be forked. -/
theorem attributed_forked {named : Hub} {pc : Proc ℤ} (ha : Attributed anyGroup desc h)
    (hi : slot h i = none) (hposs : a.possible h) (hget : named.procs[i]? = some pc)
    (hx : pc.xid ≠ 0) (hzero : pc.fds = 0) (hsame : ∀ j, j ≠ i → slot named j = slot h j)
    (hk : named.kernel = h.kernel) (hc : named.conns = h.conns) :
    Attributed anyGroup desc (forked named i a) := by
  obtain ⟨⟨hpos₁, hfree₁⟩, ⟨hpos₂, hfree₂⟩, hne, -⟩ := hposs
  have hdesc : ∀ (d : ℤ) g fd, desc d g = some fd → g = 2 ∧ fd = d := by
    intro d g fd hd
    obtain ⟨rfl, hd⟩ := ite_none_right_eq_some.mp hd
    exact ⟨rfl, (Option.some.inj hd).symm⟩
  have hone : ∀ (d : ℤ) g g' fd, desc d g = some fd → desc d g' = some fd → 0 < fd → g = g' :=
    fun d g g' fd hd hd' _ => (hdesc d g fd hd).1.trans (hdesc d g' fd hd').1.symm
  have hinUse : pc.inUse = true := by simpa [Proc.inUse] using hx
  have hfree₂' : (h.kernel.openFile a.ends.1).fileOf a.ends.2 = none :=
    (fileOf_openFile_ne hne.symm).trans hfree₂
  rw [forked]
  split
  · -- no process: standard input is what the entry has
    refine ha.entered hi (d := 0) ?_ hsame hc ?_ ?_ ?_ ?_ (hone 0)
    · exact (slot_of_getElem hget).trans (by rw [if_pos hinUse, hzero])
    · show ((named.kernel.openFile _).openFile _).Sound
      rw [hk]
      exact ha.sound.openFile.openFile
    · show named.kernel.regs = h.kernel.regs
      rw [hk]
    · intro fd f hf
      show ((named.kernel.openFile _).openFile _).fileOf fd = some f
      rw [hk]
      exact fileOf_openFile_of_none hfree₂' (fileOf_openFile_of_none hfree₁ hf)
    · intro g fd hd hpos
      rw [(hdesc 0 g fd hd).2] at hpos
      exact absurd hpos (Int.lt_irrefl 0)
  · rename_i pid _
    have hget' : (named.procs.modify i fun pc => { pc with fds := a.ends.1, pid := pid })[i]? =
        some { pc with fds := a.ends.1, pid := pid } := by
      rw [modify_eq_set hget, List.getElem?_set_self (List.getElem?_eq_some_iff.mp hget).choose]
    refine ha.entered hi (d := a.ends.1) ?_ ?_ hc ?_ ?_ ?_ ?_ (hone _)
    · exact (slot_of_getElem hget').trans (if_pos hinUse)
    · intro j hj
      refine Eq.trans ?_ (hsame j hj)
      rw [slot, modify_eq_set hget, getElem?_set_ne hj.symm, slot]
    · show (named.kernel.openFile _).Sound
      rw [hk]
      exact ha.sound.openFile
    · show named.kernel.regs = h.kernel.regs
      rw [hk]
    · intro fd f hf
      show (named.kernel.openFile _).fileOf fd = some f
      rw [hk]
      exact fileOf_openFile_of_none hfree₁ hf
    · intro g fd hd hpos
      obtain ⟨-, rfl⟩ := hdesc _ g fd hd
      refine ⟨hfree₁, ?_⟩
      show ((named.kernel.openFile a.ends.1).fileOf a.ends.1).isSome
      rw [fileOf_openFile_self]
      rfl

/-- What `spawn_proc` does to the table. -/
theorem forked_spec {pc : Proc ℤ} (hi : h.procs[i]? = some pc) :
    ∃ pc' : Proc ℤ, (forked h i a).procs = h.procs.set i pc' ∧ pc'.xid = pc.xid ∧
      pc'.name = pc.name ∧ (forked h i a).kernel.regs = h.kernel.regs := by
  rw [forked]
  split
  · refine ⟨pc, ?_, rfl, rfl, rfl⟩
    obtain ⟨hlt, rfl⟩ := List.getElem?_eq_some_iff.mp hi
    exact (set_getElem_self hlt).symm
  · rename_i pid _
    exact ⟨{ pc with fds := a.ends.1, pid := pid }, modify_eq_set hi _, rfl, rfl, rfl⟩

lemma attributed_spawnAt {xid : ℤ} {name : List UInt8} (ha : Attributed anyGroup desc h)
    (hi : h.procs[i]? = some 0) (hlt : i < 65536) (hx : xid ≠ 0) (hposs : a.possible h)
    (hstale : Unwatched anyGroup h (stale name)) :
    Attributed anyGroup desc (spawnAt h i a xid name).2 := by
  have hlen := (List.getElem?_eq_some_iff.mp hi).choose
  by_cases hok : a.pipe = 0
  · have hget : (h.setProc i (.fresh xid name)).procs[i]? = some (.fresh xid name) :=
      List.getElem?_set_self hlen
    have hforked := attributed_forked ha (slot_of_getElem hi) hposs hget hx rfl
      (fun j hj => (slot_set rfl hlen).trans (if_neg hj)) rfl rfl
    obtain ⟨pc, hprocs, hxid, hname, hregs⟩ := forked_spec (a := a) hget
    have hpc : (forked (h.setProc i (.fresh xid name)) i a).procs[i]? = some pc := by
      rw [hprocs]
      exact List.getElem?_set_self ((List.length_set ..).symm ▸ hlen)
    simp only [spawnAt_of_eq_zero hok, addPipeFd, hpc]
    exact hforked.spawned hlen hprocs hregs (fun heq => hx (hxid.symm.trans heq)) hlt
      (Nat.le_refl 2) rfl
      (hname ▸ hstale)
  · rw [spawnAt_of_ne_zero hok]
    exact ha.unnamed hi _

lemma attributed_spawnChild {argv : List (List UInt8)} (ht : Tidy h)
    (ha : Attributed anyGroup desc h)
    (hposs : a.possible h) (hlt : h.procs.length < 65536)
    (hstale : Unwatched anyGroup h (stale (argv.headD []))) :
    Attributed anyGroup desc (spawnChild h a argv).2 := by
  have hpick := ha.pickUnusedXid
  obtain ⟨htp, hne⟩ := ht.pickUnusedXid
  simp only [spawnChild]
  split
  · exact ha
  split
  · exact ha
  split
  · exact ha
  split
  · exact hpick
  split
  · exact hpick
  split
  · exact hpick
  · rename_i i h' hg
    obtain ⟨heq, hle, hzero, -, -⟩ := grabProc_spec hg
    obtain ⟨-, hpids⟩ := htp.grabProc hg
    have hkernel : h'.kernel = h.kernel := by rw [heq, pickUnusedXid_snd]
    have hstale' : Unwatched anyGroup h.pickUnusedXid.2 (stale (argv.headD [])) := by
      rw [pickUnusedXid_snd]
      exact hstale
    have hposs' : a.possible h' := by
      obtain ⟨hfree₁, hfree₂, hends, hfork⟩ := hposs
      refine ⟨⟨hfree₁.1, hkernel ▸ hfree₁.2⟩, ⟨hfree₂.1, hkernel ▸ hfree₂.2⟩, hends,
        fun pid hpid => ⟨(hfork pid hpid).1, fun hmem => (hfork pid hpid).2 ?_⟩⟩
      exact procs_pickUnusedXid h ▸ hpids pid hmem
    rw [procs_pickUnusedXid] at hle
    exact attributed_spawnAt (hpick.grabProc hg) hzero (by omega) hne hposs'
      (hstale'.grabProc rfl hg)

/-! ### Other things -/

variable {d : ℤ}

lemma closePipe_of_le (hi : slot h i = some d) (hd : d ≤ 0) : closePipe h i = h := by
  obtain ⟨pc, hpc, -, rfl⟩ := slot_eq_some.mp hi
  simp only [closePipe, hpc, if_pos hd]

/-- **What `close_pipe` does** to an entry in use whose pipe is open. -/
theorem closePipe_spec (hi : slot h i = some d) (hd : 0 < d) :
    (closePipe h i).kernel = (h.kernel.del d).close d ∧ (closePipe h i).conns = h.conns ∧
      slot (closePipe h i) i = some (-1) ∧
      (∀ j, j ≠ i → slot (closePipe h i) j = slot h j) ∧
      ∀ j, j ≠ i → (closePipe h i).procs[j]? = h.procs[j]? := by
  obtain ⟨pc, hpc, huse, rfl⟩ := slot_eq_some.mp hi
  have hlt := (List.getElem?_eq_some_iff.mp hpc).choose
  have heq : closePipe h i = { h with
      procs := h.procs.set i { pc with fds := -1 }
      kernel := (h.kernel.del pc.fds).close pc.fds } := by
    simp only [closePipe, hpc, if_neg (Int.not_le.mpr hd)]
  rw [heq]
  refine ⟨rfl, rfl, ?_, fun j hj => ?_, fun j hj => List.getElem?_set_ne hj.symm⟩
  · exact (slot_set rfl hlt).trans ((if_pos rfl).trans (if_pos huse))
  · exact (slot_set rfl hlt).trans (if_neg hj)

/-- What an event of a pipe does: it keeps the attribution, and changes no other entry and no
other descriptor. -/
structure Local (h : Hub) (i : ℕ) (d : ℤ) (h' : Hub) : Prop where
  attributed : Attributed anyGroup desc h → Attributed anyGroup desc h'
  entry : slot h' i = some d ∨ slot h' i = some (-1)
  others : ∀ j, j ≠ i → h'.procs[j]? = h.procs[j]?
  files : ∀ fd, fd ≠ d → h'.kernel.fileOf fd = h.kernel.fileOf fd

lemma Local.refl (hi : slot h i = some d) : Local h i d h :=
  ⟨id, .inl hi, fun _ _ => rfl, fun _ _ => rfl⟩

lemma local_closePipe (hi : slot h i = some d) : Local h i d (closePipe h i) := by
  rcases Int.lt_or_le 0 d with hpos | hle
  · obtain ⟨hk, hc, hgone, hother, hprocs⟩ := closePipe_spec hi hpos
    refine ⟨fun ha => ?_, .inr hgone, hprocs, fun fd hfd => ?_⟩
    · refine ha.closedAt (le_refl 2) hi (if_pos rfl) hpos (.inl hk) hgone hother hc ?_ ?_
      · intro g hg
        rw [desc, if_neg hg, desc, if_neg hg]
      · intro fd' hfd'
        obtain rfl : -1 = fd' := Option.some.inj hfd'
        decide
    · rw [hk, fileOf_close_ne hfd, fileOf_del]
  · rw [closePipe_of_le hi hle]
    exact .refl hi

variable {read : Option ℕ}

lemma local_handlePipe {mmap : Bool} (hi : slot h i = some d) :
    Local h i d (handlePipe h i mmap read) := by
  rw [handlePipe]
  split
  · exact .refl hi
  · rename_i pc hpc
    split
    · exact local_closePipe hi
    · have hsame : ∀ j, slot (h.setProc i { pc with
          buf := true, ptr := read.elim (if pc.buf then pc.ptr else 0)
            (advance (if pc.buf then pc.ptr else 0)) }) j = slot h j := by
        intro j
        refine slot_setProc_same hpc ?_ j
        exact ⟨rfl, rfl⟩
      refine ⟨fun ha => ha.thin rfl rfl fun j => .inl (hsame j), .inl ((hsame i).trans hi),
        fun j hj => getElem?_set_ne hj.symm, fun _ _ => rfl⟩

/-- **An event of a pipe** of an entry in use. -/
theorem local_processProc {input other mmap : Bool}
    (hi : slot h i = some d) : (processProc h i input other mmap read).failed = false ∧
      Local h i d (processProc h i input other mmap read).hub := by
  obtain ⟨pc, hpc, -, -⟩ := slot_eq_some.mp hi
  have hlt : ¬h.procs.length ≤ i := Nat.not_le.mpr (List.getElem?_eq_some_iff.mp hpc).choose
  have hin : Local h i d (if input then handlePipe h i mmap read else h) := by
    split
    · exact local_handlePipe hi
    · exact .refl hi
  simp only [processProc, if_neg hlt]
  refine ⟨trivial, ?_⟩
  split
  · rcases hin.entry with hd | hd
    · have hout := local_closePipe hd
      exact ⟨hout.attributed ∘ hin.attributed, hout.entry,
        fun j hj => (hout.others j hj).trans (hin.others j hj),
        fun fd hfd => (hout.files fd hfd).trans (hin.files fd hfd)⟩
    · rw [closePipe_of_le hd (by decide)]
      exact hin
  · exact hin

lemma attributed_closeConn (ha : Attributed anyGroup desc h) (c : ℕ) :
    Attributed anyGroup desc (closeConn h c) := by
  rw [closeConn]
  split
  · exact ha
  · rename_i fd hfd
    split
    · exact ha
    · exact (ha.closeConnFd hfd (Int.not_lt.mp ‹_›)).updateNconns

lemma attributed_checkChildren {last : ℤ} {batch : List Exit} {out : Hub × List Exit}
    (ha : Attributed anyGroup desc h) (hq : Unwatched anyGroup h (quiet batch))
    (hout : Hub.checkChildren h last batch = some out) : Attributed anyGroup desc out.1 := by
  induction batch generalizing h with
  | nil =>
    rw [Hub.checkChildren, Hubs.Hub.checkChildren] at hout
    split at hout
    · cases hout
    · cases hout
      exact ha.recounted
  | cons e batch ih =>
    rw [Hub.checkChildren, Hubs.Hub.checkChildren] at hout
    split at hout
    · cases hout
      exact ha
    · rename_i i hi
      obtain ⟨hlt, hpid, -⟩ := findIdx?_eq_some_iff_getElem.mp hi
      refine ih (ha.endProc fun pc hpc hs hb => hq.get hpc (quiet_first ?_ hs hb)) hq.endProc hout
      rw [getElem?_eq_getElem hlt] at hpc
      cases hpc
      simpa using hpid

lemma attributed_call {req : Request} {w : World} {c : ℕ} (ht : Tidy w.hub)
    (ha : Attributed anyGroup desc w.hub) (hposs : a.possible w.hub)
    (hok : Careful w (.request c req a)) : Attributed anyGroup desc (call w.hub a req).2 := by
  cases req with
  | spawn argv envp => exact attributed_spawnChild ht ha hposs hok.1 hok.2
  | flush xid =>
    rw [call, cmdFlush]
    split
    · exact ha
    · rename_i i hi
      split
      · exact ha
      · have hok : Unwatched anyGroup w.hub fun pc => pc.xid = xid && pc.pid ≤ 0 := hok
        refine ha.flushProc fun pc hpc hpid => hok.get hpc ?_
        obtain ⟨hlt, hx, -⟩ := findIdx?_eq_some_iff_getElem.mp hi
        rw [getElem?_eq_getElem hlt] at hpc
        cases hpc
        simpa [hpid] using hx
  | _ => exact ha

/-- The entry that a registration names. -/
theorem slot_of_registered (ha : Attributed anyGroup desc h) {r : Reg} (hr : r ∈ h.kernel.regs)
    (hg : 2 ≤ pkeyGroup r.key) : pkeyGroup r.key = 2 ∧ slot h (pkeyIndex r.key) = some r.fd := by
  have hkeyed := ha.keyed r hr ⟨hg, rfl⟩
  rw [recorded_proc desc h hg] at hkeyed
  obtain ⟨d, hd, hfd⟩ := bind_eq_some_iff.mp hkeyed
  obtain ⟨h2, hfd⟩ := ite_none_right_eq_some.mp hfd
  exact ⟨h2, hd.trans hfd⟩

lemma turn_poll (ha : Attributed anyGroup desc h) {r : Reg} {input other mmap : Bool}
    {w' : World} (hs : turn h (.poll r input other mmap read) = some w') :
    w'.failed = false ∧ Local h (pkeyIndex r.key) r.fd w'.hub := by
  obtain ⟨⟨hr, hg⟩, hs⟩ := ite_none_right_eq_some.mp hs
  obtain ⟨h2, hslot⟩ := slot_of_registered ha hr hg
  rw [if_pos h2] at hs
  cases hs
  exact local_processProc hslot

lemma attributed_turn {w w' : World} {e : Event} (ht : Tidy w.hub)
    (ha : Attributed anyGroup desc w.hub)
    (hok : Careful w e) (hs : turn w.hub e = some w') :
    Attributed anyGroup desc w'.hub ∧ w'.failed = false := by
  cases e with
  | connect fd =>
    obtain ⟨hfree, hs⟩ := ite_none_right_eq_some.mp hs
    cases hs
    exact ⟨ha.checkSocket hfree, rfl⟩
  | request c req a =>
    obtain ⟨hposs, hs⟩ := ite_none_right_eq_some.mp hs
    cases hs
    have hcall := attributed_call ht ha hposs.2 hok
    refine ⟨?_, rfl⟩
    simp only [handleConn]
    split
    · exact hcall
    · exact attributed_closeConn hcall c
  | hangup c =>
    cases hs
    exact ⟨attributed_closeConn ha c, rfl⟩
  | exits batch last =>
    obtain ⟨out, hout, rfl⟩ := map_eq_some_iff.mp hs
    exact ⟨attributed_checkChildren ha hok hout, rfl⟩
  | poll r input other mmap read =>
    obtain ⟨hfailed, hlocal⟩ := turn_poll ha hs
    exact ⟨hlocal.attributed ha, hfailed⟩
  | hold f =>
    cases hs
    exact ⟨ha.unwatched ha.sound.hold (fun _ hr => hr) fun _ => rfl, rfl⟩
  | release f =>
    cases hs
    exact ⟨ha.unwatched ha.sound.release (fun _ hr => mem_regs_of_release hr) fun _ => rfl,
      rfl⟩

/-- **In every run in which no entry goes too early the attribution is right.** -/
theorem attributed_of_reach {w : World} (hw : Reach Boot step Careful w) :
    Attributed anyGroup desc w.hub ∧ Tidy w.hub ∧ w.failed = false := by
  induction hw with
  | start hb => exact ⟨.boot hb, hb.tidy, hb.failed⟩
  | next _ hok hs ih =>
    obtain ⟨ha, ht, -⟩ := ih
    obtain ⟨-, hs⟩ := ite_none_left_eq_some.mp hs
    obtain ⟨ha', hfailed⟩ := attributed_turn ht ha hok hs
    exact ⟨ha', tidy_turn ht hs, hfailed⟩

end Minibase.Apphub
