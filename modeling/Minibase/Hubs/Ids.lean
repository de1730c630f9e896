import Minibase.Hubs.Exits

/-!
# Ids for new processes

A new process gets the id after the last one, or starts again from one after a hundred or so. An
entry may have that id still. `pick_unused_xid` is meant to try the next ones then, but all its
tries are with the same id, so it finds one just if the first is not in use
(`Hubs.picks_iff`). Ids are given out to programs that cannot be run as well, so that a client
gets there with a hundred requests (`Hubs.not_picks`).
-/

namespace Minibase

namespace Hubs

variable {D : Type} {h : Hub D}

/-- No entry has this id. -/
def Unused (h : Hub D) (xid : ℤ) : Prop := ∀ pc ∈ h.procs, pc.xid ≠ xid ∧ pc.xid ≠ -xid
deriving Decidable

/-- **An entry has the id that comes next**: the one after the last, or one if a hundred have
been given out, and twice as many as there are entries. -/
def Blocked (h : Hub D) : Prop :=
  ¬Unused h (if 100 ≤ h.lastxid ∧ 2 * h.nonempty ≤ h.lastxid then 1 else h.lastxid + 1)
deriving Decidable

/-- **An id is found** that no entry has, and whatever has nothing else in its way is started. -/
structure Picks {A : Type} (granted : Hub D → A → List (List UInt8) → Prop)
    (spawnChild : Hub D → A → List (List UInt8) → ℤ × Hub D) (h : Hub D) : Prop where
  pos : 0 < h.pickUnusedXid.1
  unused : Unused h h.pickUnusedXid.1
  spawns : ∀ a argv, granted h a argv → 0 < (spawnChild h a argv).1

lemma nextXid_eq (h : Hub D) :
    h.nextXid = if 100 ≤ h.lastxid ∧ 2 * h.nonempty ≤ h.lastxid then 1 else h.lastxid + 1 := by
  rw [Hub.nextXid]
  refine if_congr ?_ rfl rfl
  omega

/-- What `xid_is_in_use` looks for. -/
theorem xidIsInUse_iff {val : ℤ} (hval : 0 < val) : h.xidIsInUse val = true ↔ ¬Unused h val := by
  rw [Hub.xidIsInUse, List.any_eq_true, Unused]
  push Not
  refine exists_congr fun pc => and_congr_right fun _ => ?_
  rw [Bool.and_eq_true, decide_eq_true_eq, decide_eq_true_eq]
  split_ifs <;> omega

lemma blocked_iff (ht : Tidy h) : Blocked h ↔ h.xidIsInUse h.nextXid = true := by
  rw [xidIsInUse_iff ht.nextXid_pos, nextXid_eq]
  exact Iff.rfl

/-- The hub finds no id as long as it is blocked, and is left as it was. -/
theorem pickUnusedXid_of_blocked (ht : Tidy h) (hb : Blocked h) :
    h.pickUnusedXid = (-EAGAIN, h) := by
  rw [Hub.pickUnusedXid, if_pos ((blocked_iff ht).mp hb)]

/-- **An id is found** otherwise. -/
theorem pickUnusedXid_of_not_blocked (ht : Tidy h) (hb : ¬Blocked h) :
    0 < h.pickUnusedXid.1 ∧ Unused h h.pickUnusedXid.1 := by
  have hpos := ht.nextXid_pos
  rw [blocked_iff ht] at hb
  rw [Hub.pickUnusedXid, if_neg hb]
  refine ⟨hpos, ?_⟩
  by_contra hused
  exact hb ((xidIsInUse_iff hpos).mpr hused)

/-- What is asked of a hub, for one that is tidy. -/
theorem picks_iff_of_tidy {A : Type} {granted : Hub D → A → List (List UInt8) → Prop}
    {spawnChild : Hub D → A → List (List UInt8) → ℤ × Hub D} (ht : Tidy h)
    (hspawn : ∀ a argv, granted h a argv → 0 < h.pickUnusedXid.1 → 0 < (spawnChild h a argv).1) :
    Picks granted spawnChild h ↔ ¬Blocked h := by
  refine ⟨fun hp hb => ?_, fun hb => ?_⟩
  · have hpos := hp.pos
    rw [pickUnusedXid_of_blocked ht hb] at hpos
    exact absurd hpos (by simp [EAGAIN])
  · obtain ⟨hpos, hunused⟩ := pickUnusedXid_of_not_blocked ht hb
    exact ⟨hpos, hunused, fun a argv hg => hspawn a argv hg hpos⟩

end Hubs

namespace Apphub

open Hubs

/-- A process is to be started, and nothing is in its way but its id: the name can be used, there
are not too many processes, and all system calls go well. -/
structure Granted (h : Hub) (a : Answers) (argv : List (List UInt8)) : Prop where
  name : (argv.headD []).length ≤ 19
  valid : validateName (argv.headD []) = true
  running : h.running ≤ MAX_RUNNING_PROCS
  access : a.access = 0
  brk : a.brk = true
  pipe : a.pipe = 0
  fork : a.fork ≠ none

/-- With an id the process is started. -/
theorem Granted.spawns {h : Hub} {a : Answers} {argv : List (List UInt8)} (hg : Granted h a argv)
    (hpos : 0 < h.pickUnusedXid.1) : 0 < (Hub.spawnChild h a argv).1 := by
  rw [Hub.spawnChild, if_neg (Nat.not_lt.mpr hg.name), if_neg (by rw [hg.valid]; decide),
    if_neg (Nat.not_lt.mpr hg.running), if_neg (Int.not_le.mpr hpos),
    if_neg (not_not.mpr hg.access)]
  cases hgrab : h.pickUnusedXid.2.grabProc a.brk with
  | none =>
    rw [Hubs.Hub.grabProc, hg.brk] at hgrab
    split at hgrab <;> cases hgrab
  | some out =>
    show 0 < (Hub.spawnAt out.2 out.1 a _ _).1
    rw [Hub.spawnAt_of_eq_zero hg.pipe]
    exact hpos

end Apphub

namespace Ptyhub

open Hubs

@[inherit_doc Apphub.Granted]
structure Granted (h : Hub) (a : Answers) (argv : List (List UInt8)) : Prop where
  name : (argv.headD []).length ≤ 19
  valid : validateName (argv.headD []) = true
  running : h.running ≤ MAX_RUNNING_PROCS
  access : a.access = 0
  brk : a.brk = true
  open_ : a.open_ = 0

@[inherit_doc Apphub.Granted.spawns]
lemma Granted.spawns {h : Hub} {a : Answers} {argv : List (List UInt8)} (hg : Granted h a argv)
    (hpos : 0 < h.pickUnusedXid.1) : 0 < (Hub.spawnChild h a argv).1 := by
  rw [Hub.spawnChild, if_neg (Nat.not_lt.mpr hg.name), if_neg (by rw [hg.valid]; decide),
    if_neg (Nat.not_lt.mpr hg.running), if_neg (by omega),
    if_neg (not_not.mpr hg.access)]
  cases hgrab : h.pickUnusedXid.2.grabProc a.brk with
  | none =>
    rw [Hubs.Hub.grabProc, hg.brk] at hgrab
    split at hgrab <;> cases hgrab
  | some out =>
    show 0 < (Hub.spawnAt out.2 out.1 a _ _).1
    rw [Hub.spawnAt_of_eq_zero hg.open_]
    exact hpos

end Ptyhub

namespace Hubs

/-- **Ids for new processes**: in all states that the hubs get into, an id is found just if the one
that comes next is not in use. -/
theorem picks_iff (w : World ℤ) (v : World Ptyhub.Fds) :
    (Reach Boot Apphub.step (fun _ _ => True) w →
      (Picks Apphub.Granted Apphub.Hub.spawnChild w.hub ↔ ¬Blocked w.hub)) ∧
    (Reach Boot Ptyhub.step (fun _ _ => True) v →
      (Picks Ptyhub.Granted Ptyhub.Hub.spawnChild v.hub ↔ ¬Blocked v.hub)) :=
  ⟨fun hw => picks_iff_of_tidy (Apphub.tidy_of_reach hw) fun _ _ hg => hg.spawns,
    fun hv => picks_iff_of_tidy (Ptyhub.tidy_of_reach hv) fun _ _ hg => hg.spawns⟩

/-- A process is started, and then a client asks for a program that is not there, again and
again. -/
def appAsks : List Apphub.Event :=
  .connect 3 :: .request 0 (.spawn [[97]] []) { ends := (4, 5), fork := some 7 } ::
    List.replicate 99 (.request 0 (.spawn [[98]] []) { access := 2, ends := (6, 7) })

@[inherit_doc appAsks]
def ptyAsks : List Ptyhub.Event :=
  .connect 3 :: .request 0 (.spawn [[97]] []) { ends := (4, 5), pid := 7 } ::
    List.replicate 99 (.request 0 (.spawn [[98]] []) { access := 2, ends := (6, 7), pid := 8 })

/-- As long as ids that were not used yet come next, the first process is in no one's way. -/
theorem first_asks_picks :
    (∃ w, Reach Boot Apphub.step (fun _ _ => True) w ∧ w.hub.procs ≠ [] ∧
      Picks Apphub.Granted Apphub.Hub.spawnChild w.hub) ∧
    ∃ v, Reach Boot Ptyhub.step (fun _ _ => True) v ∧ v.hub.procs ≠ [] ∧
      Picks Ptyhub.Granted Ptyhub.Hub.spawnChild v.hub := by
  have happ : ((appAsks.take 5).foldlM (fun w e => if True then Apphub.step w e else none)
      (newHub ℤ)).any (fun w => w.hub.procs ≠ [] ∧ ¬Blocked w.hub) = true := by
    decide +kernel
  have hpty : ((ptyAsks.take 5).foldlM (fun w e => if True then Ptyhub.step w e else none)
      (newHub Ptyhub.Fds)).any (fun w => w.hub.procs ≠ [] ∧ ¬Blocked w.hub) = true := by
    decide +kernel
  obtain ⟨w, hw, hfree⟩ := (Option.any_eq_true _ _).mp happ
  obtain ⟨v, hv, hfree'⟩ := (Option.any_eq_true _ _).mp hpty
  have hw := Reach.foldlM (.start (boot_newHub ℤ)) hw
  have hv := Reach.foldlM (.start (boot_newHub Ptyhub.Fds)) hv
  obtain ⟨hne, hfree⟩ := of_decide_eq_true hfree
  obtain ⟨hne', hfree'⟩ := of_decide_eq_true hfree'
  obtain ⟨hpicks, hpicks'⟩ := picks_iff w v
  exact ⟨⟨w, hw, hne, (hpicks hw).mpr hfree⟩, v, hv, hne', (hpicks' hv).mpr hfree'⟩

/-- The first process still has its id when that comes again. -/
theorem not_picks :
    (¬∀ w, Reach Boot Apphub.step (fun _ _ => True) w →
      Picks Apphub.Granted Apphub.Hub.spawnChild w.hub) ∧
    ¬∀ w, Reach Boot Ptyhub.step (fun _ _ => True) w →
      Picks Ptyhub.Granted Ptyhub.Hub.spawnChild w.hub := by
  constructor
  · intro hall
    have hrun : (appAsks.foldlM (fun w e => if True then Apphub.step w e else none)
        (newHub ℤ)).any (fun w => w.hub.pickUnusedXid.1 = -EAGAIN) = true := by
      decide +kernel
    obtain ⟨w, hw, hpick⟩ := (Option.any_eq_true _ _).mp hrun
    have hpos := (hall w (Reach.foldlM (.start (boot_newHub ℤ)) hw)).pos
    rw [of_decide_eq_true hpick] at hpos
    exact absurd hpos (by decide)
  · intro hall
    have hrun : (ptyAsks.foldlM (fun w e => if True then Ptyhub.step w e else none)
        (newHub Ptyhub.Fds)).any (fun w => w.hub.pickUnusedXid.1 = -EAGAIN) = true := by
      decide +kernel
    obtain ⟨w, hw, hpick⟩ := (Option.any_eq_true _ _).mp hrun
    have hpos := (hall w (Reach.foldlM (.start (boot_newHub Ptyhub.Fds)) hw)).pos
    rw [of_decide_eq_true hpick] at hpos
    exact absurd hpos (by decide)

end Hubs

end Minibase
