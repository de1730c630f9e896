import Minibase.Ptyhub.Polled

/-!
# Events come to the right process

`Hubs.events_attributed`: in all runs in which no entry goes too early, whatever epoll watches
for a process is the descriptor that the entry named by the key records, the hub never gives up
on an event, and what it does about one leaves the other processes alone. A process that ends
well before its pipe is hung up takes its entry along but not the registration
(`Hubs.silent_exit_strands_pipe`).
-/

namespace Minibase

open Option Apphub

/-- What epoll reports, in an event. -/
def Apphub.Event.about : Apphub.Event → Option Reg
  | .poll r _ _ _ _ => some r
  | _ => none

@[inherit_doc Apphub.Event.about]
def Ptyhub.Event.about : Ptyhub.Event → Option Reg
  | .poll r _ _ _ _ _ => some r
  | _ => none

namespace Hubs

variable {D ε : Type}

/-- What is done about an event of entry `i` leaves the others as they are: neither do their
buffers or numbers change, nor the files their descriptors stand for. -/
def Apart (desc : D → ℕ → Option ℤ) (i : ℕ) (h h' : Hub D) : Prop :=
  ∀ j, j ≠ i → h'.procs[j]? = h.procs[j]? ∧ ∀ g fd, 2 ≤ g → recorded desc h g j = some fd → 0 < fd →
    h'.kernel.fileOf fd = h.kernel.fileOf fd

/-- **Output comes to the right process**: the hub has not given up, everything watched for a
process is what the entry its key names records, and no event, of those that may come next, makes
the hub give up or touch another process. -/
structure ToTheRight (desc : D → ℕ → Option ℤ) (step : World D → ε → Option (World D))
    (ok : World D → ε → Prop) (about : ε → Option Reg) (w : World D) : Prop where
  failed : w.failed = false
  keyed : ∀ r ∈ w.hub.kernel.regs, 2 ≤ pkeyGroup r.key → ∃ pc : Proc D,
    w.hub.procs[pkeyIndex r.key]? = some pc ∧ desc pc.fds (pkeyGroup r.key) = some r.fd
  apart : ∀ (e : ε) (r : Reg) (w' : World D), about e = some r → ok w e → step w e = some w' →
    w'.failed = false ∧ Apart desc (pkeyIndex r.key) w.hub w'.hub

/-- A step that changes one entry and closes one descriptor, the one registered, leaves the
others as they are. -/
theorem Attributed.apart {desc : D → ℕ → Option ℤ} {h h' : Hub D} {r : Reg}
    (ha : Attributed anyGroup desc h) (hr : r ∈ h.kernel.regs) (hg : 2 ≤ pkeyGroup r.key)
    (hothers : ∀ j, j ≠ pkeyIndex r.key → h'.procs[j]? = h.procs[j]?)
    (hfiles : ∀ fd, fd ≠ r.fd → h'.kernel.fileOf fd = h.kernel.fileOf fd) :
    Apart desc (pkeyIndex r.key) h h' := by
  intro j hj
  refine ⟨hothers j hj, fun g fd hg' hfd hpos => hfiles fd ?_⟩
  rintro rfl
  have hkeyed := ha.keyed r hr ⟨hg, rfl⟩
  exact hj (ha.single _ _ _ _ _ (by omega) (by omega) hfd hkeyed hpos).2

lemma Attributed.named {desc : D → ℕ → Option ℤ} {h : Hub D} (ha : Attributed anyGroup desc h)
    {r : Reg}
    (hr : r ∈ h.kernel.regs) (hg : 2 ≤ pkeyGroup r.key) : ∃ pc : Proc D,
      h.procs[pkeyIndex r.key]? = some pc ∧ desc pc.fds (pkeyGroup r.key) = some r.fd := by
  have hkeyed := ha.keyed r hr ⟨hg, rfl⟩
  rw [recorded_proc desc h hg] at hkeyed
  obtain ⟨d, hd, hfd⟩ := bind_eq_some_iff.mp hkeyed
  obtain ⟨pc, hpc, -, rfl⟩ := slot_eq_some.mp hd
  exact ⟨pc, hpc, hfd⟩

/-- **Every event comes to the right process**, in the runs in which no entry goes that epoll
still watches. -/
theorem events_attributed (w : World ℤ) (v : World Ptyhub.Fds) :
    (Reach Boot step Apphub.Careful w →
      ToTheRight desc step Apphub.Careful Apphub.Event.about w) ∧
    (Reach Boot Ptyhub.step (Ptyhub.Careful anyGroup) v →
      ToTheRight Ptyhub.desc Ptyhub.step (Ptyhub.Careful anyGroup) Ptyhub.Event.about v) := by
  constructor
  · intro hw
    obtain ⟨ha, -, hfailed⟩ := attributed_of_reach hw
    refine ⟨hfailed, fun r hr hg => ha.named hr hg, fun e r w' he _ hs => ?_⟩
    cases e with
    | poll r' input other mmap read =>
      cases he
      obtain ⟨-, hs⟩ := ite_none_left_eq_some.mp hs
      obtain ⟨⟨hr, hg⟩, -⟩ := ite_none_right_eq_some.mp hs
      obtain ⟨hfailed', hlocal⟩ := turn_poll ha hs
      exact ⟨hfailed', ha.apart hr hg hlocal.others hlocal.files⟩
    | _ => cases he
  · intro hw
    obtain ⟨hk, hfailed⟩ := Ptyhub.attributed_of_reach hw
    refine ⟨hfailed, fun r hr hg => hk.attributed.named hr hg, fun e r w' he hok hs => ?_⟩
    cases e with
    | poll r' input other flushed mmap read =>
      cases he
      obtain ⟨-, hs⟩ := ite_none_left_eq_some.mp hs
      obtain ⟨⟨hr, hg⟩, -⟩ := ite_none_right_eq_some.mp hs
      obtain ⟨hfailed', hlocal⟩ := Ptyhub.turn_poll hk rfl hok hs
      exact ⟨hfailed', hk.attributed.apart hr hg hlocal.others hlocal.files⟩
    | _ => cases he

/-- A client has a program started that writes what is read. -/
def appTalks : List Apphub.Event :=
  [.connect 3, .request 0 (.spawn [[97]] []) { ends := (4, 5), fork := some 7 },
    .poll ⟨1, 4, pkey 2 0⟩ true false true (some 6)]

@[inherit_doc appTalks]
def ptyTalks : List Ptyhub.Event :=
  [.connect 3, .request 0 (.spawn [[97]] []) { ends := (4, 5), pid := 7 },
    .poll ⟨2, 5, pkey 3 0⟩ true false true true (some 6)]

theorem talk_comes_right :
    (∃ w, appTalks.foldlM (fun w e => if Apphub.Careful w e then step w e else none)
        (newHub ℤ) = some w ∧ ⟨1, 4, pkey 2 0⟩ ∈ w.hub.kernel.regs ∧
      ToTheRight desc step Apphub.Careful Apphub.Event.about w) ∧
    ∃ w, ptyTalks.foldlM (fun w e => if Ptyhub.Careful anyGroup w e then Ptyhub.step w e else none)
        (newHub Ptyhub.Fds) = some w ∧ ⟨1, 4, pkey 2 0⟩ ∈ w.hub.kernel.regs ∧
      ToTheRight Ptyhub.desc Ptyhub.step (Ptyhub.Careful anyGroup) Ptyhub.Event.about w := by
  constructor
  · have hrun : (appTalks.foldlM (fun w e => if Apphub.Careful w e then step w e else none)
        (newHub ℤ)).any (fun w => decide (⟨1, 4, pkey 2 0⟩ ∈ w.hub.kernel.regs)) = true := by
      decide +kernel
    obtain ⟨w, hw, hr⟩ := (any_eq_true _ _).mp hrun
    exact ⟨w, hw, of_decide_eq_true hr,
      (events_attributed w (newHub _)).1 (Reach.foldlM (.start (boot_newHub ℤ)) hw)⟩
  · have hrun : (ptyTalks.foldlM (fun w e =>
      if Ptyhub.Careful anyGroup w e then Ptyhub.step w e else none)
        (newHub Ptyhub.Fds)).any (fun w => decide (⟨1, 4, pkey 2 0⟩ ∈ w.hub.kernel.regs)) =
          true := by
      decide +kernel
    obtain ⟨w, hw, hr⟩ := (any_eq_true _ _).mp hrun
    exact ⟨w, hw, of_decide_eq_true hr,
      (events_attributed (newHub _) w).2 (Reach.foldlM (.start (boot_newHub Ptyhub.Fds)) hw)⟩

lemma seven_pos : (0 : ℤ) < 7 := by decide

/-- A client has a program started that ends well without a word, and the hub hears of its end
before its pipe is hung up. -/
def appSilent : List Apphub.Event :=
  [.connect 3, .request 0 (.spawn [[97]] []) { ends := (4, 5), fork := some 7 },
    .exits [⟨7, 0, true, seven_pos⟩] (-ECHILD), .poll ⟨1, 4, pkey 2 0⟩ false true true none]

@[inherit_doc appSilent]
def ptySilent : List Ptyhub.Event :=
  [.connect 3, .request 0 (.spawn [[97]] []) { ends := (4, 5), pid := 7 },
    .exits [⟨7, 0, true, seven_pos⟩] (-ECHILD), .poll ⟨1, 4, pkey 2 0⟩ false true true true none]

/-- The registration stays behind, and the hubs give up. -/
theorem silent_exit_strands_pipe :
    (¬∀ w : World ℤ, Reach Boot step (fun _ _ => True) w →
      ToTheRight desc step (fun _ _ => True) Apphub.Event.about w) ∧
    ¬∀ w : World Ptyhub.Fds, Reach Boot Ptyhub.step (fun _ _ => True) w →
      ToTheRight Ptyhub.desc Ptyhub.step (fun _ _ => True) Ptyhub.Event.about w := by
  constructor
  · intro hall
    have hrun : (appSilent.foldlM (fun w e => if True then step w e else none)
        (newHub ℤ)).any (fun w => w.failed) = true := by
      decide +kernel
    obtain ⟨w, hw, hfailed⟩ := (any_eq_true _ _).mp hrun
    have hright := hall w (Reach.foldlM (.start (boot_newHub ℤ)) hw)
    exact Bool.noConfusion (hright.failed.symm.trans hfailed)
  · intro hall
    have hrun : (ptySilent.foldlM (fun w e => if True then Ptyhub.step w e else none)
        (newHub Ptyhub.Fds)).any (fun w => w.failed) = true := by
      decide +kernel
    obtain ⟨w, hw, hfailed⟩ := (any_eq_true _ _).mp hrun
    have hright := hall w (Reach.foldlM (.start (boot_newHub Ptyhub.Fds)) hw)
    exact Bool.noConfusion (hright.failed.symm.trans hfailed)

end Hubs

end Minibase
