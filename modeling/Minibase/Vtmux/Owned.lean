import Minibase.Vtmux.Moves

/-!
# Descriptors of vtmux and the slots they are written in

A descriptor that is written in a slot is for what the slot says, so that none is written in two
slots, and every descriptor of a connection is written in the slot of the connection
(`Vtmux.Mux.Owned`). Descriptor zero remains standard input as long as `flush_mdevs` finds no slot
that is not in use (`Vtmux.Mux.Dense`), since it is for such a slot that zero is closed. Until then
no device has descriptor zero, and no terminal (the first argument of `Owned`).
-/

namespace Minibase.Vtmux

namespace Mux

open List Option

/-! ### The invariant -/

/-- What is written in the slot of a terminal. -/
structure OwnsTerm (whole : Prop) (m : Mux) (i : ℕ) (vt : Term) : Prop where
  tty : 0 < vt.ttyfd → m.use vt.ttyfd = some (.tty i)
  ctl : 0 < vt.ctlfd → m.use vt.ctlfd = some (.ctl i)
  running : whole → 0 < vt.pid → 0 < vt.ttyfd

/-- What is written in the slot of a device. -/
structure OwnsMdev (whole : Prop) (m : Mux) (s : ℕ) (md : Mdev) : Prop where
  fd : 0 < md.fd → m.use md.fd = some (.dev s md.file)
  filled : whole → md.nonzero = true → 0 < md.fd

/-- **What is written in the slots.** -/
structure Owned (whole heard : Prop) (m : Mux) : Prop where
  terms : ∀ (i : ℕ) (vt : Term), m.terms[i]? = some vt → m.OwnsTerm whole i vt
  mdevs : ∀ (s : ℕ) (md : Mdev), m.mdevs[s]? = some md → m.OwnsMdev whole s md
  conns : ∀ (j : ℕ) (cn : Conn), m.conns[j]? = some cn → 0 < cn.fd → m.use cn.fd = some (.conn j)
  ctrl : 0 < m.ctrlfd → m.use m.ctrlfd = some .ctrl
  back : ∀ (fd : ℤ) (j : ℕ), m.use fd = some (.conn j) → 0 < fd ∧ ∃ cn, m.conns[j]? = some cn ∧
    cn.fd = fd
  zero : whole → m.use 0 = some .other
  hears : heard → ∀ cn ∈ m.conns, 0 ≤ cn.fd

variable {whole heard : Prop} {m m' : Mux} {i s : ℕ}

variable {u : Use} {vt : Term} {md : Mdev}

/-- What is written somewhere is what the descriptor is for. -/
theorem Owned.own (h : m.Owned whole heard) {fd : ℤ} (hfd : 0 < fd) (hu : m.Holds fd u) :
    m.use fd = some u := by
  cases u with
  | other => exact hu.elim
  | ctrl =>
    obtain rfl : m.ctrlfd = fd := hu
    exact h.ctrl hfd
  | tty i =>
    obtain ⟨vt, hvt, rfl⟩ := hu
    exact (h.terms i vt hvt).tty hfd
  | ctl i =>
    obtain ⟨vt, hvt, rfl⟩ := hu
    exact (h.terms i vt hvt).ctl hfd
  | conn j =>
    obtain ⟨cn, hcn, rfl⟩ := hu
    exact h.conns j cn hcn hfd
  | dev s k =>
    obtain ⟨md, hmd, rfl, rfl⟩ := hu
    exact (h.mdevs s md hmd).fd hfd

/-- A descriptor is in none of the slots if it is not where it is for. -/
theorem Owned.not_holds (h : m.Owned whole heard) {fd : ℤ} (huse : m.use fd = some u)
    (hu : ¬m.Holds fd u) : 0 < fd → ∀ v, ¬m.Holds fd v := by
  intro hfd v hv
  have hsame := h.own hfd hv
  rw [huse] at hsame
  exact hu (Option.some.inj hsame ▸ hv)

/-- What is said of a slot is said of what the descriptors in it are for. -/
theorem OwnsTerm.congr (h : m.OwnsTerm whole i vt)
    (huse : ∀ fd, 0 < fd → fd = vt.ttyfd ∨ fd = vt.ctlfd → m'.use fd = m.use fd) :
    m'.OwnsTerm whole i vt :=
  ⟨fun hfd => (huse _ hfd (.inl rfl)).trans (h.tty hfd),
    fun hfd => (huse _ hfd (.inr rfl)).trans (h.ctl hfd),
    h.running⟩

lemma OwnsMdev.congr (h : m.OwnsMdev whole s md) (huse : 0 < md.fd → m'.use md.fd = m.use md.fd) :
    m'.OwnsMdev whole s md :=
  ⟨fun hfd => (huse hfd).trans (h.fd hfd), h.filled⟩

/-- A slot that is free has no descriptors. -/
theorem ownsTerm_free (h : vt.nonzero = false) : m.OwnsTerm whole i vt := by
  obtain ⟨htty, hctl, hpid⟩ := free_term h
  exact ⟨fun h => by omega, fun h => by omega, fun _ h => by omega⟩

lemma ownsMdev_free (h : md.nonzero = false) : m.OwnsMdev whole s md :=
  ⟨fun hfd => by have := (free_mdev h).1; omega, fun _ hused => nomatch h.symm.trans hused⟩

section

variable (h : m.Owned whole heard)
include h

/-- Slots of terminals and devices change, and descriptors do not. -/
theorem Owned.tables (hfds : m'.fds = m.fds) (hconns : m'.conns = m.conns)
    (hctrl : m'.ctrlfd = m.ctrlfd)
    (hterms : ∀ (i : ℕ) (vt : Term), m'.terms[i]? = some vt → m.OwnsTerm whole i vt)
    (hmdevs : ∀ (s : ℕ) (md : Mdev), m'.mdevs[s]? = some md → m.OwnsMdev whole s md) :
    m'.Owned whole heard := by
  have huse (fd : ℤ) : m'.use fd = m.use fd := by rw [use, hfds, use]
  refine ⟨fun i vt hi => (hterms i vt hi).congr fun fd _ _ => huse fd,
    fun s md hs => (hmdevs s md hs).congr fun _ => huse _, fun j cn hj hfd => ?_, fun hfd => ?_,
      fun fd j hu => ?_,
    fun hw => ?_, fun hh cn hcn => h.hears hh cn (hconns ▸ hcn)⟩
  · rw [huse]
    exact h.conns j cn (hconns ▸ hj) hfd
  · rw [huse, hctrl]
    exact h.ctrl (hctrl ▸ hfd)
  · rw [huse] at hu
    rw [hconns]
    exact h.back fd j hu
  · rw [huse]
    exact h.zero hw

/-- Nothing changes in the slots. -/
theorem Owned.same (hfds : m'.fds = m.fds) (hterms : m'.terms = m.terms)
    (hmdevs : m'.mdevs = m.mdevs) (hconns : m'.conns = m.conns) (hctrl : m'.ctrlfd = m.ctrlfd) :
    m'.Owned whole heard :=
  h.tables hfds hconns hctrl (fun i vt hi => h.terms i vt (hterms ▸ hi)) fun s md hs =>
    h.mdevs s md (hmdevs ▸ hs)

/-! ### Descriptors -/

/-- A descriptor is given out, which may be for a connection. -/
theorem Owned.openConn {conns : List Conn}
    (hconns : ∀ (j : ℕ) (cn : Conn), conns[j]? = some cn → 0 < cn.fd →
      (m.openFd u).2.use cn.fd = some (.conn j))
    (hback : ∀ (fd : ℤ) (j : ℕ), (m.openFd u).2.use fd = some (.conn j) →
      0 < fd ∧ ∃ cn, conns[j]? = some cn ∧ cn.fd = fd) (hears : heard → ∀ cn ∈ conns, 0 ≤ cn.fd) :
    Owned whole heard { (m.openFd u).2 with conns := conns } := by
  have huse {fd : ℤ} {v : Use} (hfd : m.use fd = some v) : (m.openFd u).2.use fd = some v := by
    rw [use_openFd_ne m u, hfd]
    rintro rfl
    rw [use_openFd_before] at hfd
    cases hfd
  refine ⟨fun i vt hi => ?_, fun s md hs => ?_, hconns, fun hfd => huse (h.ctrl hfd), hback,
    fun hw => huse (h.zero hw),
    hears⟩
  · have hold := h.terms i vt hi
    exact ⟨fun hfd => huse (hold.tty hfd), fun hfd => huse (hold.ctl hfd), hold.running⟩
  · have hold := h.mdevs s md hs
    exact ⟨fun hfd => huse (hold.fd hfd), hold.filled⟩

lemma Owned.openFd (hu : ∀ j, u ≠ .conn j) : (m.openFd u).2.Owned whole heard := by
  refine h.openConn (fun j cn hj hfd => ?_) (fun fd j hj => ?_) h.hears
  · have hold := h.conns j cn hj hfd
    rw [use_openFd_ne m u, hold]
    intro hsame
    rw [hsame, use_openFd_before] at hold
    cases hold
  · by_cases hfd : fd = (m.openFd u).1
    · rw [hfd, use_openFd] at hj
      exact absurd (Option.some.inj hj) (hu j)
    · rw [use_openFd_ne m u hfd] at hj
      exact h.back fd j hj

/-- A new descriptor is not zero. -/
theorem Owned.openFd_pos (hw : whole) (u : Use) : 0 < (m.openFd u).1 := by
  have hne : (m.openFd u).1 ≠ 0 := by
    intro hzero
    have hbefore := use_openFd_before m u
    rw [hzero, h.zero hw] at hbefore
    cases hbefore
  have hnonneg := openFd_nonneg m u
  omega

end

lemma use_sysClose_self (m : Mux) (fd : ℤ) : (m.sysClose fd).use fd = none := by
  unfold sysClose use
  by_cases hfd : fd < 0
  · rw [if_pos hfd]
  · rw [if_neg hfd, if_neg hfd]
    exact (Table.get_close _ _ _).trans (if_pos rfl)

section

variable (h : m.Owned whole heard)
include h

/-- A descriptor is given back that is in none of the slots. -/
theorem Owned.sysClose {fd : ℤ} (hno : 0 < fd → ∀ u, ¬m.Holds fd u) (hzero : whole → fd ≠ 0) :
    (m.sysClose fd).Owned whole heard := by
  obtain ⟨hmdevs, -, hterms, -⟩ := sysClose_frame m fd
  obtain ⟨hconns, hctrl⟩ := sysClose_same m fd
  have huse {n : ℤ} {u : Use} (hn : 0 < n) (hu : m.Holds n u) : (m.sysClose fd).use n =
    m.use n := by
    refine use_sysClose _ _ _ ?_
    rintro rfl
    exact hno hn u hu
  refine ⟨fun i vt hi => ?_, fun s md hs => ?_, fun j cn hj hfd => ?_, fun hfd => ?_,
    fun n j hj => ?_, fun hw => ?_,
    fun hh cn hcn => h.hears hh cn (hconns ▸ hcn)⟩
  · rw [hterms] at hi
    refine (h.terms i vt hi).congr fun n hn hfield => ?_
    rcases hfield with rfl | rfl
    · exact huse (u := .tty i) hn ⟨vt, hi, rfl⟩
    · exact huse (u := .ctl i) hn ⟨vt, hi, rfl⟩
  · rw [hmdevs] at hs
    exact (h.mdevs s md hs).congr fun hn => huse (u := .dev s md.file) hn ⟨md, hs, rfl, rfl⟩
  · rw [hconns] at hj
    exact (huse (u := .conn j) hfd ⟨cn, hj, rfl⟩).trans (h.conns j cn hj hfd)
  · rw [hctrl] at hfd ⊢
    exact (huse (u := .ctrl) hfd rfl).trans (h.ctrl hfd)
  · have hne : n ≠ fd := by
      rintro rfl
      rw [use_sysClose_self] at hj
      cases hj
    rw [use_sysClose _ _ _ hne] at hj
    rw [hconns]
    exact h.back n j hj
  · rw [use_sysClose _ _ _ (hzero hw).symm, h.zero hw]

/-! ### Slots -/

namespace Owned

lemma setTerm (hvt : m.OwnsTerm whole i vt) : (m.setTerm i vt).Owned whole heard := by
  refine h.tables rfl rfl rfl (fun j vt' hj => ?_) h.mdevs
  rcases getElem?_set hj with ⟨rfl, rfl⟩ | ⟨-, hj⟩
  · exact hvt
  · exact h.terms j vt' hj

lemma setMdev (hmd : m.OwnsMdev whole s md) : (m.setMdev s md).Owned whole heard := by
  refine h.tables rfl rfl rfl h.terms fun s' md' hs => ?_
  rcases getElem?_set hs with ⟨rfl, rfl⟩ | ⟨-, hs⟩
  · exact hmd
  · exact h.mdevs s' md' hs

/-- What is said of a terminal also holds where there is none. -/
theorem term (i : ℕ) : m.OwnsTerm whole i (m.term i) := by
  rcases hget : m.terms[i]? with _ | vt
  · rw [Mux.term, getD_eq_getElem?_getD, hget, getD_none]
    exact ownsTerm_free rfl
  · rw [term_eq hget]
    exact h.terms i vt hget

lemma mdev (s : ℕ) : m.OwnsMdev whole s (m.mdev s) := by
  rcases hget : m.mdevs[s]? with _ | md
  · rw [Mux.mdev, getD_eq_getElem?_getD, hget, getD_none]
    exact ownsMdev_free rfl
  · rw [mdev_eq hget]
    exact h.mdevs s md hget

lemma freeTermSlot (i : ℕ) : (m.freeTermSlot i).Owned whole heard := by
  refine h.tables rfl rfl rfl (fun j vt hj => ?_) h.mdevs
  rcases (freeSlot_spec Term.nonzero {} m.terms i).1 j vt hj with rfl | ⟨-, hj⟩
  · exact ownsTerm_free rfl
  · exact h.terms j vt hj

lemma freeMdevSlot (s : ℕ) : (m.freeMdevSlot s).Owned whole heard := by
  refine h.tables rfl rfl rfl h.terms fun s' md hs => ?_
  rcases (freeSlot_spec Mdev.nonzero {} m.mdevs s).1 s' md hs with rfl | ⟨-, hs⟩
  · exact ownsMdev_free rfl
  · exact h.mdevs s' md hs

/-- A slot for a terminal is taken. -/
theorem grabTerm {terms : List Term}
    (hgrab : grabSlot Term.nonzero NTERMS {} m.terms = some (i, terms)) :
    Owned whole heard { m with terms := terms } := by
  obtain ⟨-, -, hback⟩ := grabSlot_spec hgrab (by decide)
  refine h.tables rfl rfl rfl (fun j vt hj => ?_) h.mdevs
  by_cases hused : vt.nonzero = true
  · exact h.terms j vt (hback j vt hj hused)
  · exact ownsTerm_free (Bool.not_eq_true _ ▸ hused)

lemma grabMdev {mdevs : List Mdev}
    (hgrab : grabSlot Mdev.nonzero NMDEVS {} m.mdevs = some (s, mdevs)) :
    Owned whole heard { m with mdevs := mdevs } := by
  obtain ⟨-, -, hback⟩ := grabSlot_spec hgrab (by decide)
  refine h.tables rfl rfl rfl h.terms fun s' md hs => ?_
  by_cases hused : md.nonzero = true
  · exact h.mdevs s' md (hback s' md hs hused)
  · exact ownsMdev_free (Bool.not_eq_true _ ▸ hused)

end Owned

/-! ### Devices -/

lemma Owned.setFile (fd : ℤ) (maj : ℕ) (enabled : Bool) :
    (m.setFile fd maj enabled).Owned whole heard := by
  obtain ⟨files, heq, -⟩ := setFile_spec m fd maj enabled
  rw [heq]
  exact h.same rfl rfl rfl rfl rfl

lemma Owned.disable (s : ℕ) (drop : Bool) : (m.disable s drop).Owned whole heard := by
  unfold Mux.disable
  dsimp only
  generalize hm1 : (if major (intDev (m.mdev s).dev) = DRI_MAJOR ∨
    major (intDev (m.mdev s).dev) = INPUT_MAJOR
    then m.setFile (m.mdev s).fd (major (intDev (m.mdev s).dev)) false else m) = m1
  have hoff : m1.Owned whole heard ∧ m1.mdevs = m.mdevs ∧ m1.fds = m.fds := by
    subst hm1
    split_ifs
    · refine ⟨h.setFile .., ?_⟩
      obtain ⟨files, heq, -⟩ := setFile_spec m (m.mdev s).fd (major (intDev (m.mdev s).dev)) false
      rw [heq]
      exact ⟨rfl, rfl⟩
    · exact ⟨h, rfl, rfl⟩
  obtain ⟨h1, hmdevs, hfds⟩ := hoff
  split_ifs
  · have hold : m1.OwnsMdev whole s (m.mdev s) := by
      have := h1.mdev s
      rwa [Mux.mdev, hmdevs] at this
    have hset : (m1.setMdev s { m.mdev s with tty := 0, dev := 0 }).Owned whole heard := by
      refine h1.setMdev ⟨hold.fd, fun hw hused => hold.filled hw ?_⟩
      simp only [Mdev.nonzero, decide_eq_true_eq, ne_eq, not_true_eq_false, decide_false,
        Bool.or_false] at hused
      simp [Mdev.nonzero, hused]
    exact hset.same rfl rfl rfl rfl rfl
  · exact h1

variable (tty : ℤ)

lemma Owned.disableAllDevsFor : (m.disableAllDevsFor tty).Owned whole heard := by
  refine loop_invariant (P := fun _ (m' : Mux) => m'.Owned whole heard) h fun s _ m' h => ?_
  split_ifs
  · exact h.disable s true
  · exact h

lemma Owned.disengage : (m.disengage tty).Owned whole heard := by
  refine loop_invariant (P := fun _ (m' : Mux) => m'.Owned whole heard) h fun s _ m' h => ?_
  split_ifs
  · exact h.disable s false
  · exact h

lemma Owned.engage : (m.engage tty).Owned whole heard := by
  refine loop_invariant (P := fun _ (m' : Mux) => m'.Owned whole heard) h fun s _ m' h => ?_
  split_ifs
  · exact h.setFile ..
  · exact h

/-! ### Sessions -/

lemma Owned.activate (sys : Sys) : (m.activate tty sys).2.Owned whole heard := by
  unfold Mux.activate
  split_ifs
  · exact h
  have h1 := h.disengage m.activetty
  rcases switchLoop tty (sys.tries tty) 7 0 with ret | ⟨swret, ret⟩
  · exact h1
  · have h2 : Owned whole heard { m.disengage m.activetty with activetty := ret } :=
      h1.same rfl rfl rfl rfl rfl
    exact h2.engage ret

/-- A descriptor that is for something, and is not written there, is given back. -/
theorem Owned.closeNew {fd : ℤ} (huse : m.use fd = some u) (hu : 0 < fd → ¬m.Holds fd u)
    (hzero : whole → fd ≠ 0) : (m.sysClose fd).Owned whole heard :=
  h.sysClose (fun hfd => h.not_holds huse (hu hfd) hfd) hzero

/-- **A session is started**, or it is not. -/
theorem Owned.startCmdOn (hfree : (m.term i).nonzero = false) (tty : ℤ) (sys : Sys) :
    (m.startCmdOn i tty sys).2.Owned whole heard := by
  obtain ⟨htty0, hctl0, -⟩ := free_term hfree
  -- nothing is written in the slot yet
  have hno {m' : Mux} (hm' : m'.terms = m.terms) {fd : ℤ} (hfd : 0 < fd) :
      ¬m'.Holds fd (.tty i) ∧ ¬m'.Holds fd (.ctl i) := by
    constructor
    · rintro ⟨vt, hvt, rfl⟩
      rw [hm'] at hvt
      rw [term_eq hvt] at htty0
      omega
    · rintro ⟨vt, hvt, rfl⟩
      rw [hm'] at hvt
      rw [term_eq hvt] at hctl0
      omega
  unfold Mux.startCmdOn
  rcases sys.tty with _ | e
  swap
  · exact h
  set m1 := (m.openFd (.tty i)).2 with hm1
  set fd1 := (m.openFd (.tty i)).1 with hfd1
  have h1 : m1.Owned whole heard := h.openFd nofun
  have huse1 : m1.use fd1 = some (.tty i) := use_openFd m _
  have hzero1 (hw : whole) : fd1 ≠ 0 := (h.openFd_pos hw _).ne'
  rcases sys.pair with _ | e
  swap
  · exact h1.closeNew huse1 (fun hfd => (hno rfl hfd).1) hzero1
  dsimp only
  set m2 := (m1.openFd (.ctl i)).2 with hm2
  set fd2 := (m1.openFd (.ctl i)).1 with hfd2
  have h2 : m2.Owned whole heard := h1.openFd nofun
  have huse2 : m2.use fd2 = some (.ctl i) := use_openFd m1 _
  have hzero2 (hw : whole) : fd2 ≠ 0 := (h1.openFd_pos hw _).ne'
  have hne12 : fd1 ≠ fd2 := by
    intro hsame
    have hbefore := use_openFd_before m1 (.ctl i)
    rw [← hfd2, ← hsame, huse1] at hbefore
    cases hbefore
  have huse12 : m2.use fd1 = some (.tty i) := (use_openFd_ne m1 _ hne12).trans huse1
  set m3 := (m2.openFd .other).2 with hm3
  set fd3 := (m2.openFd .other).1 with hfd3
  have h3 : m3.Owned whole heard := h2.openFd nofun
  have huse3 : m3.use fd3 = some .other := use_openFd m2 _
  have hzero3 (hw : whole) : fd3 ≠ 0 := (h2.openFd_pos hw _).ne'
  have hne3 {fd : ℤ} {u : Use} (hfd : m2.use fd = some u) : fd ≠ fd3 := by
    rintro rfl
    rw [hfd3, use_openFd_before] at hfd
    cases hfd
  have huse23 : m3.use fd2 = some (.ctl i) := (use_openFd_ne m2 _ (hne3 huse2)).trans huse2
  have huse13 : m3.use fd1 = some (.tty i) := (use_openFd_ne m2 _ (hne3 huse12)).trans huse12
  have hterms (m' : Mux) (hm' : m'.terms = m.terms) (fd : ℤ) : (m'.sysClose fd).terms = m.terms :=
    (sysClose_frame m' fd).2.2.1.trans hm'
  split_ifs with hfork
  · -- all three are given back
    have h4 : (m3.sysClose fd2).Owned whole heard :=
      h3.closeNew huse23 (fun hfd => (hno rfl hfd).2) hzero2
    have h5 : ((m3.sysClose fd2).sysClose fd3).Owned whole heard := by
      refine h4.closeNew (u := .other) ?_ (fun _ => id) hzero3
      rw [use_sysClose _ _ _ (hne3 huse2).symm, huse3]
    refine h5.closeNew (u := .tty i) ?_ (fun hfd => (hno ?_ hfd).1) hzero1
    · rw [use_sysClose _ _ _ (hne3 huse12), use_sysClose _ _ _ hne12, huse13]
    · exact hterms _ (hterms m3 rfl fd2) fd3
  · have h4 : (m3.sysClose fd3).Owned whole heard := h3.closeNew huse3 (fun _ => id) hzero3
    have hset : ((m3.sysClose fd3).setTerm i { (m3.sysClose fd3).term i with
        ctlfd := fd2, ttyfd := fd1, pid := sys.fork, tty := tty,
        session := (m3.sysClose fd3).sessions }).Owned whole heard := by
      refine h4.setTerm ⟨fun _ => (use_sysClose _ _ _ (hne3 huse12)).trans huse13,
        fun _ => (use_sysClose _ _ _ (hne3 huse2)).trans huse23, fun hw _ => ?_⟩
      exact h.openFd_pos hw (.tty i)
    exact hset.same rfl rfl rfl rfl rfl

end

/-! ### Ends of sessions -/

/-- A terminal that has a descriptor is there. -/
theorem term_of_pos {fd : ℤ} (hfd : 0 < fd)
    (hfield : (m.term i).ctlfd = fd ∨ (m.term i).ttyfd = fd) : m.terms[i]? = some (m.term i) := by
  rcases hget : m.terms[i]? with _ | vt
  · rw [Mux.term, getD_eq_getElem?_getD, hget, getD_none] at hfield
    rcases hfield with rfl | rfl <;> exact absurd hfd (lt_irrefl 0)
  · rw [term_eq hget]

lemma Owned.reopenTtyDevice (h : m.Owned whole heard) (hpid : 0 < (m.term i).pid)
    (error : Option Errno) : (m.reopenTtyDevice i error).Owned whole heard := by
  unfold Mux.reopenTtyDevice
  rcases error with _ | e
  swap
  · exact h
  dsimp only
  rw [sysClose_setTerm]
  set m1 := (m.openFd (.tty i)).2 with hm1
  set fd := (m.openFd (.tty i)).1 with hfd
  have h1 : m1.Owned whole heard := h.openFd nofun
  have huse : m1.use fd = some (.tty i) := use_openFd m _
  have hterm : m1.term i = m.term i := rfl
  have hold := h.term i
  have h2 : (m1.setTerm i { m1.term i with ttyfd := fd }).Owned whole heard :=
    h1.setTerm ⟨fun _ => huse, (h1.term i).ctl, fun hw _ => h.openFd_pos hw (.tty i)⟩
  refine h2.sysClose (fun hpos => ?_) fun hw => (hold.running hw hpid).ne'
  -- the old descriptor is written there no more
  have hbefore : m1.use (m.term i).ttyfd = some (.tty i) := (h1.term i).tty hpos
  refine h2.not_holds hbefore ?_ hpos
  rintro ⟨vt, hvt, hsame⟩
  rcases getElem?_set hvt with ⟨-, rfl⟩ | ⟨hne, -⟩
  · change fd = (m.term i).ttyfd at hsame
    have hnone := use_openFd_before m (.tty i)
    rw [← hfd, hsame, hold.tty hpos] at hnone
    cases hnone
  · exact hne rfl

lemma Owned.closePipe (h : m.Owned whole heard) (hfd : 0 < (m.term i).ctlfd) :
    (m.closePipe i).Owned whole heard := by
  unfold Mux.closePipe
  rw [sysClose_setTerm]
  have hold := h.term i
  have hset : (m.setTerm i { m.term i with ctlfd := -1 }).Owned whole heard :=
    h.setTerm ⟨hold.tty, fun hneg => absurd hneg (by simp), hold.running⟩
  refine hset.closeNew (u := .ctl i) (hold.ctl hfd) (fun _ => ?_) fun _ => hfd.ne'
  rintro ⟨vt, hvt, hsame⟩
  rcases getElem?_set hvt with ⟨-, rfl⟩ | ⟨hne, -⟩
  · change -1 = (m.term i).ctlfd at hsame
    omega
  · exact hne rfl

lemma Owned.finalize (h : m.Owned whole heard) (i : ℕ) : (m.finalize i).Owned whole heard := by
  have hold := h.term i
  have hgone := h.freeTermSlot i
  have hno {m' : Mux} (hm' : m'.terms = (m.freeTermSlot i).terms) {fd : ℤ} (hfd : 0 < fd) :
      ¬m'.Holds fd (.tty i) ∧ ¬m'.Holds fd (.ctl i) := by
    have hback := (freeSlot_spec Term.nonzero {} m.terms i).1 i
    constructor
    · rintro ⟨vt, hvt, rfl⟩
      rw [hm'] at hvt
      rcases hback vt hvt with rfl | ⟨hne, -⟩
      · exact absurd hfd (lt_irrefl 0)
      · exact hne rfl
    · rintro ⟨vt, hvt, rfl⟩
      rw [hm'] at hvt
      rcases hback vt hvt with rfl | ⟨hne, -⟩
      · exact absurd hfd (lt_irrefl 0)
      · exact hne rfl
  -- the descriptors are given back after the slot, which makes no difference
  have heq : m.finalize i = (if 0 < (m.term i).ttyfd then
        (if 0 < (m.term i).ctlfd then (m.freeTermSlot i).sysClose
          (m.term i).ctlfd else m.freeTermSlot i).sysClose
          (m.term i).ttyfd
      else if 0 < (m.term i).ctlfd then (m.freeTermSlot i).sysClose
        (m.term i).ctlfd else m.freeTermSlot i) := by
    unfold Mux.finalize
    dsimp only
    split_ifs
    · rw [sysClose_freeTermSlot, sysClose_freeTermSlot]
    · rw [sysClose_freeTermSlot]
    · rw [sysClose_freeTermSlot]
    · rfl
  rw [heq]
  generalize hm1 : (if 0 < (m.term i).ctlfd then (m.freeTermSlot i).sysClose (m.term i).ctlfd
    else m.freeTermSlot i) = m1
  have hctl : m1.Owned whole heard ∧ m1.terms = (m.freeTermSlot i).terms ∧
      (0 < (m.term i).ttyfd → m1.use (m.term i).ttyfd = some (.tty i)) := by
    subst hm1
    split_ifs with hfd
    · refine ⟨hgone.closeNew (u := .ctl i) (hold.ctl hfd) (fun _ => (hno rfl hfd).2) fun _ =>
        hfd.ne',
        (sysClose_frame _ _).2.2.1, fun hpos => ?_⟩
      rw [use_sysClose]
      · exact hold.tty hpos
      · intro hsame
        have hboth := hold.ctl hfd
        rw [← hsame, hold.tty hpos] at hboth
        cases hboth
    · exact ⟨hgone, rfl, hold.tty⟩
  obtain ⟨h1, hterms, huse⟩ := hctl
  split_ifs with hfd
  · exact h1.closeNew (u := .tty i) (huse hfd) (fun _ => (hno hterms hfd).1) fun _ => hfd.ne'
  · exact h1

lemma Owned.handleDead (h : m.Owned whole heard) (i status : ℕ) :
    (m.handleDead i status).Owned whole heard := by
  obtain ⟨m1, greetertty, lastusertty, hm1, m2, hm2, heq⟩ := handleDead_eq m i status
  have h1 : m1.Owned whole heard := by
    rw [hm1]
    exact (h.disableAllDevsFor (m.term i).tty).same rfl rfl rfl rfl rfl
  have h2 : m2.Owned whole heard := by
    rw [hm2]
    split_ifs with hfd
    · exact h1.closePipe hfd
    · exact h1
  rw [heq]
  split_ifs
  · exact h2.finalize i
  · exact h2.setTerm ⟨(h2.term i).tty, (h2.term i).ctl, fun _ hpid => absurd hpid (lt_irrefl 0)⟩

/-- **Sessions start and end**, and what is written in the slots is kept. -/
theorem owned_lasting : Lasting (Owned whole heard) where
  mark _ _ _ h := h.same rfl rfl rfl rfl rfl
  activate tty sys h := h.activate tty sys
  grab hgrab h := h.grabTerm hgrab
  start tty sys hfree h := h.startCmdOn hfree tty sys
  free _ h := h.freeTermSlot _
  reopen error hpid h := h.reopenTtyDevice hpid error
  dead i status h := h.handleDead i status
  finalize _ h := h.finalize _

/-! ### Requests for devices -/

lemma setMdev_setMdev (m : Mux) (s : ℕ) (md md' : Mdev) :
    (m.setMdev s md).setMdev s md' = m.setMdev s md' := by
  unfold Mux.setMdev
  rw [set_set]

lemma freeMdevSlot_setMdev (m : Mux) (s : ℕ) (md : Mdev) :
    (m.setMdev s md).freeMdevSlot s = m.freeMdevSlot s := by
  unfold Mux.setMdev Mux.freeMdevSlot freeSlot
  rw [set_set]

lemma sysClose_setMdev (m : Mux) (fd : ℤ) (s : ℕ) (md : Mdev) :
    (m.setMdev s md).sysClose fd = (m.sysClose fd).setMdev s md := by
  unfold sysClose
  split_ifs <;> rfl

section

variable (h : m.Owned whole heard)
include h

/-- **A device that has been opened** gets into the slot that was taken, or the slot is given up. -/
theorem Owned.addManagedDev {k dev : ℕ} {dfd : ℤ} (hfree : (m.mdev s).nonzero = false)
    (huse : m.use dfd = some (.dev s k)) (hpos : whole → 0 < dfd) (i : ℕ) :
    (m.addManagedDev i s k dev dfd).2.Owned whole heard := by
  have hzero := (free_mdev hfree).1
  unfold Mux.addManagedDev
  dsimp only
  split_ifs
  · -- the device is open already
    rw [sysClose_setMdev, freeMdevSlot_setMdev]
    refine (h.closeNew huse (fun hfd => ?_) fun hw => (hpos hw).ne').freeMdevSlot s
    rintro ⟨md, hmd, rfl, -⟩
    rw [mdev_eq hmd] at hzero
    omega
  all_goals rw [setMdev_setMdev]
  all_goals
    have hset (md : Mdev) (hfd : md.fd = dfd) (hfile : md.file = k) :
      (m.setMdev s md).Owned whole heard :=
      h.setMdev ⟨fun _ => by rw [hfd, hfile, huse], fun hw _ => hfd ▸ hpos hw⟩
  · have h1 := (hset { (m.setMdev s { m.mdev s with dev := dev }).mdev s with
      fd := dfd, tty := (m.term i).tty, file := k } rfl rfl).disable s false
    exact h1.setTerm ⟨(h1.term i).tty, (h1.term i).ctl, (h1.term i).running⟩
  · exact (hset _ rfl rfl).disable s false
  · have h1 := hset { (m.setMdev s { m.mdev s with dev := dev }).mdev s with
      fd := dfd, tty := (m.term i).tty, file := k } rfl rfl
    exact h1.setTerm ⟨(h1.term i).tty, (h1.term i).ctl, (h1.term i).running⟩
  · exact hset _ rfl rfl

lemma Owned.openManagedDev (i : ℕ) (o : Opening) : (m.openManagedDev i o).2.Owned whole heard := by
  unfold Mux.openManagedDev
  rcases hgrab : grabSlot Mdev.nonzero NMDEVS {} m.mdevs with _ | ⟨s, mdevs⟩
  · exact h
  have h1 := h.grabMdev hgrab
  obtain ⟨⟨md, hmd, hfree⟩, -, -⟩ := grabSlot_spec hgrab (by decide)
  have hslot : (Mux.mdev { m with mdevs := mdevs } s).nonzero = false := by
    rw [mdev_eq (m := { m with mdevs := mdevs }) hmd, hfree]
  generalize hm1 : ({ m with mdevs := mdevs } : Mux) = m1 at h1 hslot
  have hfiles : m.files = m1.files := by rw [← hm1]
  dsimp only
  rw [hm1, hfiles]
  rcases o.error with _ | e
  swap
  · exact h1
  rcases checkManagedDev o.stat with e | dev
  · have h2 : (m1.openFd .other).2.Owned whole heard := h1.openFd nofun
    exact h2.closeNew (use_openFd m1 .other) (fun _ => id) fun hw => (h1.openFd_pos hw _).ne'
  · have h2 : Owned whole heard { (m1.openFd (.dev s m1.files.length)).2 with
      files := m1.files ++ [⟨dev, [], true⟩] } :=
      Owned.same (h1.openFd (u := .dev s m1.files.length) nofun) rfl rfl rfl rfl rfl
    refine h2.addManagedDev hslot (use_openFd m1 _) (fun hw => ?_) i
    exact h1.openFd_pos hw (.dev s m1.files.length)

lemma Owned.reqOpen (i : ℕ) (o : Opening) : (m.reqOpen i o).Owned whole heard := by
  have hopened := h.openManagedDev i o
  unfold Mux.reqOpen
  dsimp only
  split_ifs
  · exact hopened
  · unfold Mux.replySendFd
    split
    · exact hopened.same rfl rfl rfl rfl rfl
    · exact hopened

/-! ### Connections -/

lemma Owned.acceptCtrl : m.acceptCtrl.Owned whole heard := by
  unfold Mux.acceptCtrl
  dsimp only
  split_ifs with hcfd
  · exact h.openFd nofun
  rcases hgrab : grabSlot Conn.nonzero NCONNS {} m.conns with _ | ⟨j, conns⟩
  · have h1 : (m.openFd .other).2.Owned whole heard := h.openFd nofun
    exact h1.closeNew (use_openFd m .other) (fun _ => id) fun _ => by omega
  obtain ⟨⟨cn0, hcn0, hfree⟩, hforth, hback⟩ := grabSlot_spec hgrab (by decide)
  refine h.openConn (u := .conn j) (fun j' cn hj hfd => ?_) (fun fd j' hj => ?_) fun hh cn hcn => ?_
  · rcases getElem?_set hj with ⟨rfl, rfl⟩ | ⟨-, hj⟩
    · exact use_openFd m _
    · have hne : cn.fd ≠ 0 := by omega
      have hold := h.conns j' cn (hback j' cn hj (by simp [Conn.nonzero, hne])) hfd
      rw [use_openFd_ne m _, hold]
      intro hsame
      rw [hsame, use_openFd_before] at hold
      cases hold
  · by_cases hfd : fd = (m.openFd (.conn j)).1
    · rw [hfd, use_openFd] at hj
      obtain rfl : j = j' := Use.conn.inj (Option.some.inj hj)
      change ¬(m.openFd (.conn j)).1 ≤ 0 at hcfd
      refine ⟨by omega, ⟨(m.openFd .other).1⟩, ?_, hfd.symm⟩
      rw [List.getElem?_set, if_pos rfl, if_pos (List.getElem?_eq_some_iff.mp hcn0).1]
    · rw [use_openFd_ne m _ hfd] at hj
      obtain ⟨hpos, cn, hcn, rfl⟩ := h.back fd j' hj
      have hne : j ≠ j' := by
        -- the slot that was taken had no descriptor
        rintro rfl
        obtain rfl : cn = cn0 := Option.some.inj ((hforth j cn hcn).symm.trans hcn0)
        exact absurd (of_decide_eq_false hfree) (not_not.mpr hpos.ne')
      exact ⟨hpos, cn, by rw [List.getElem?_set, if_neg hne, hforth j' cn hcn], rfl⟩
  · rcases mem_or_eq_of_mem_set hcn with hold | rfl
    · by_cases hzero : cn.fd = 0
      · exact hzero.symm.le
      · obtain ⟨j', hj'⟩ := mem_iff_getElem?.mp hold
        exact h.hears hh cn (mem_of_getElem? (hback j' cn hj' (by simp [Conn.nonzero, hzero])))
    · exact openFd_nonneg m .other

/-- **A connection is closed**, and nothing that is a descriptor is left in its slot. -/
theorem Owned.setConn (j : ℕ) (hused : (m.conns.getD j {}).fd ≠ 0) {fd : ℤ} (hfd : fd ≤ 0)
    (hears : heard → fd = 0) :
    Owned whole heard { m.sysClose (m.conns.getD j {}).fd with conns := m.conns.set j ⟨fd⟩ } := by
  set old := (m.conns.getD j {}).fd with hold
  have hslot : m.conns[j]? = some ⟨old⟩ := by
    rw [hold, getD_eq_getElem?_getD] at hused ⊢
    rcases hget : m.conns[j]? with _ | cn
    · rw [hget] at hused
      exact absurd rfl hused
    · rfl
  obtain ⟨hmdevs, -, hterms, -⟩ := sysClose_frame m old
  obtain ⟨-, hctrl⟩ := sysClose_same m old
  have huse {n : ℤ} {u : Use} (hn : m.use n = some u) (hu : u ≠ .conn j) : (m.sysClose old).use n =
    some u := by
    rw [use_sysClose _ _ _, hn]
    rintro rfl
    by_cases hpos : 0 < old
    · rw [h.conns j _ hslot hpos] at hn
      exact hu (Option.some.inj hn).symm
    · rw [Mux.use, if_pos (by omega)] at hn
      cases hn
  refine ⟨fun i vt hi => ?_, fun s md hs => ?_, fun j' cn hj hpos => ?_, fun hpos => ?_,
    fun n j' hn => ?_, fun hw => ?_,
    fun hh cn hcn => ?_⟩
  · have hvt := h.terms i vt (hterms ▸ hi)
    exact ⟨fun hpos => huse (hvt.tty hpos) (by rintro ⟨⟩),
      fun hpos => huse (hvt.ctl hpos) (by rintro ⟨⟩), hvt.running⟩
  · have hmd := h.mdevs s md (hmdevs ▸ hs)
    exact ⟨fun hpos => huse (hmd.fd hpos) (by rintro ⟨⟩), hmd.filled⟩
  · rcases getElem?_set hj with ⟨-, rfl⟩ | ⟨hne, hj⟩
    · exact absurd hpos (not_lt.mpr hfd)
    · exact huse (h.conns j' cn hj hpos) fun hsame => hne (Use.conn.inj hsame)
  · have hpos' : 0 < m.ctrlfd := hctrl ▸ hpos
    show (m.sysClose old).use (m.sysClose old).ctrlfd = _
    rw [hctrl]
    exact huse (h.ctrl hpos') (by rintro ⟨⟩)
  · change (m.sysClose old).use n = _ at hn
    have hne : n ≠ old := by
      intro hsame
      rw [hsame, use_sysClose_self] at hn
      cases hn
    obtain ⟨hpos, cn, hcn, rfl⟩ := h.back n j' ((use_sysClose _ _ _ hne).symm.trans hn)
    refine ⟨hpos, cn, ?_, rfl⟩
    have hjj : j ≠ j' := by
      rintro rfl
      rw [hslot] at hcn
      exact hne (congrArg Conn.fd (Option.some.inj hcn)).symm
    show (m.conns.set j _)[j']? = _
    rw [List.getElem?_set, if_neg hjj, hcn]
  · exact huse (h.zero hw) (by rintro ⟨⟩)
  · rcases mem_or_eq_of_mem_set hcn with hold | rfl
    · exact h.hears hh cn hold
    · exact (hears hh).symm.le

lemma Owned.lostCtrl (hfd : 0 < m.ctrlfd) : m.lostCtrl.Owned whole heard := by
  have hset : Owned whole heard { m with ctrlfd := -1 } :=
    ⟨fun i vt hi => (h.terms i vt hi).congr fun _ _ _ => rfl,
      fun s md hs => (h.mdevs s md hs).congr fun _ => rfl,
      h.conns, fun hneg => absurd hneg (by simp), h.back, h.zero, h.hears⟩
  have heq : m.lostCtrl = Mux.sysClose { m with ctrlfd := -1 } m.ctrlfd := by
    unfold Mux.lostCtrl Mux.sysClose
    split_ifs <;> rfl
  rw [heq]
  refine hset.closeNew (u := .ctrl) (h.ctrl hfd) (fun _ hsame => ?_) fun _ => hfd.ne'
  change -1 = m.ctrlfd at hsame
  omega

end

/-! ### Flushing -/

/-- Every slot that is counted is in use. -/
def Dense (m : Mux) : Prop := ∀ md ∈ m.mdevs, md.nonzero = true

/-- A slot that is freed is free, and the others stay as they are. -/
theorem freeMdevSlot_mdev (m : Mux) (s s' : ℕ) :
    (s' = s → (m.freeMdevSlot s).mdev s' = {}) ∧
      (s' ≠ s → ((m.freeMdevSlot s).mdev s').fd = (m.mdev s').fd ∧
        ((m.freeMdevSlot s).mdev s').tty = (m.mdev s').tty ∧
          ((m.freeMdevSlot s).mdev s').dev = (m.mdev s').dev) := by
  obtain ⟨hback, hforth⟩ := freeSlot_spec Mdev.nonzero {} m.mdevs s
  rcases hget : (m.freeMdevSlot s).mdevs[s']? with _ | md
  · have hnew : (m.freeMdevSlot s).mdev s' = {} := by
      rw [mdev, getD_eq_getElem?_getD, hget, getD_none]
    refine ⟨fun _ => hnew, fun hne => ?_⟩
    rw [hnew]
    rcases hold : m.mdevs[s']? with _ | md
    · rw [mdev, getD_eq_getElem?_getD, hold]
      exact ⟨rfl, rfl, rfl⟩
    · rw [mdev_eq hold]
      have hfree : md.nonzero = false := by
        by_contra hused
        have := hforth s' md hold (Bool.not_eq_false _ ▸ hused) hne
        cases hget.symm.trans this
      obtain ⟨h1, h2, h3⟩ := free_mdev hfree
      exact ⟨h1.symm, h2.symm, h3.symm⟩
  · have hnew : (m.freeMdevSlot s).mdev s' = md := mdev_eq hget
    rw [hnew]
    rcases hback s' md hget with rfl | ⟨hne, hold⟩
    · refine ⟨fun _ => rfl, fun hne => ?_⟩
      rcases hold : m.mdevs[s']? with _ | md'
      · rw [mdev, getD_eq_getElem?_getD, hold]
        exact ⟨rfl, rfl, rfl⟩
      · rw [mdev_eq hold]
        have hfree : md'.nonzero = false := by
          by_contra hused
          have hsame := hforth s' md' hold (Bool.not_eq_false _ ▸ hused) hne
          rw [← Option.mem_unique hget hsame] at hused
          exact hused rfl
        obtain ⟨h1, h2, h3⟩ := free_mdev hfree
        exact ⟨h1.symm, h2.symm, h3.symm⟩
    · exact ⟨fun hsame => absurd hsame hne, fun _ => by rw [mdev_eq hold]; exact ⟨rfl, rfl, rfl⟩⟩

lemma sysClose_mdev (m : Mux) (fd : ℤ) (s : ℕ) : (m.sysClose fd).mdev s = m.mdev s := by
  rw [mdev, (sysClose_frame m fd).1, mdev]

/-- One turn of the loop of `flush_mdevs` does not touch the other slots. -/
theorem flushMdev_mdev (m : Mux) {s s' : ℕ} (hne : s' ≠ s) :
    ((m.flushMdev s).mdev s').fd = (m.mdev s').fd ∧
      ((m.flushMdev s).mdev s').tty = (m.mdev s').tty ∧
      ((m.flushMdev s).mdev s').dev = (m.mdev s').dev := by
  unfold flushMdev
  split_ifs
  · rw [← sysClose_mdev m (m.mdev s).fd s']
    exact (freeMdevSlot_mdev _ s s').2 hne
  · exact ⟨rfl, rfl, rfl⟩

/-- One turn of the loop of `flush_mdevs`. -/
theorem Owned.flushMdev (h : m.Owned whole heard) (s : ℕ) (hzero : whole → (m.mdev s).fd ≠ 0) :
    (m.flushMdev s).Owned whole heard := by
  unfold Mux.flushMdev
  split_ifs
  swap
  · exact h
  rw [sysClose_freeMdevSlot]
  have hfree := h.freeMdevSlot s
  refine hfree.sysClose (fun hpos => hfree.not_holds (u := .dev s (m.mdev s).file)
    ((h.mdev s).fd hpos) ?_ hpos) hzero
  rintro ⟨md, hmd, hsame, -⟩
  have hgone := (freeMdevSlot_mdev m s s).1 rfl
  rw [mdev_eq hmd] at hgone
  rw [hgone] at hsame
  exact absurd hpos (not_lt.mpr hsame.symm.le)

/-- **Flushing** gives back the descriptors of devices that are gone, and zero only for a slot that
is not in use. -/
theorem Owned.flushMdevs (h : m.Owned whole heard) (hdense : whole → m.Dense) :
    m.flushMdevs.Owned whole heard := by
  have hloop : m.flushMdevs.Owned whole heard ∧ ∀ s, m.mdevs.length ≤ s →
      (m.flushMdevs.mdev s).fd = (m.mdev s).fd := by
    refine loop_invariant (P := fun n (m' : Mux) => m'.Owned whole heard ∧ ∀ s, n ≤ s →
      (m'.mdev s).fd = (m.mdev s).fd)
      ⟨h, fun _ _ => rfl⟩ ?_
    rintro n hn m' ⟨h', hrest⟩
    refine ⟨h'.flushMdev n fun hw hzero => ?_, fun s hs => (flushMdev_mdev m' (by omega)).1.trans
      (hrest s (by omega))⟩
    -- the slot was in use, and so it has a descriptor
    have hmd : m.mdevs[n]? = some (m.mdev n) := by
      rw [Mux.mdev, getD_eq_getElem?_getD, getElem?_eq_getElem hn, getD_some]
    have hpos := (h.mdev n).filled hw (hdense hw _ (mem_of_getElem? hmd))
    rw [hrest n le_rfl] at hzero
    omega
  exact hloop.1

/-! ### Runs -/

/-- A flush finds no slot that is not in use. -/
def Full (m : Mux) : Event → Prop
  | .flush => m.Dense
  | _ => True

/-- **A step**, of any kind. -/
theorem Owned.step (h : m.Owned whole heard) {e : Event} (hok : whole → m.Full e)
    (hears : heard → ∀ j, e ≠ .drop j) (hstep : m.step e = some m') : m'.Owned whole heard := by
  cases e with
  | command cmd sys =>
    cases hstep
    exact owned_lasting.dispatchCmd h cmd sys
  | request i o =>
    obtain ⟨-, hm⟩ := ite_none_right_eq_some.mp hstep
    cases hm
    exact h.reqOpen i o
  | hangup i =>
    obtain ⟨hlive, hm⟩ := ite_none_right_eq_some.mp hstep
    cases hm
    exact h.closePipe hlive.2
  | enter i sys =>
    obtain ⟨hdead, hm⟩ := ite_none_right_eq_some.mp hstep
    cases hm
    exact owned_lasting.finalEnter h hdead.1 sys
  | reap shutdown deaths sys =>
    cases hstep
    exact owned_lasting.waitPids h shutdown deaths sys
  | accept =>
    obtain ⟨-, hm⟩ := ite_none_right_eq_some.mp hstep
    cases hm
    exact h.acceptCtrl
  | drop j =>
    obtain ⟨hfd, hm⟩ := ite_none_right_eq_some.mp hstep
    cases hm
    exact h.setConn j hfd.ne' (by decide) fun hh => absurd rfl (hears hh j)
  | clear j =>
    obtain ⟨hfd, hm⟩ := ite_none_right_eq_some.mp hstep
    cases hm
    exact h.setConn j hfd le_rfl fun _ => rfl
  | lost =>
    obtain ⟨hfd, hm⟩ := ite_none_right_eq_some.mp hstep
    cases hm
    exact h.lostCtrl hfd
  | flush =>
    obtain ⟨-, hm⟩ := ite_none_right_eq_some.mp hstep
    cases hm
    exact Owned.same (h.flushMdevs hok) rfl rfl rfl rfl rfl

/-- What the process may start from. -/
def Starts (m : Mux) : Prop := ∃ activetty primarytty pinmask,
    m = start activetty primarytty pinmask

lemma owned_start (h : m.Starts) : m.Owned whole heard := by
  obtain ⟨activetty, primarytty, pinmask, rfl⟩ := h
  refine ⟨by rintro _ _ ⟨⟩, by rintro _ _ ⟨⟩, by rintro _ _ ⟨⟩, fun _ => rfl, fun fd j hj => ?_,
    fun _ => rfl, by rintro _ _ ⟨⟩⟩
  rw [use] at hj
  split_ifs at hj
  generalize fd.toNat = n at hj
  rcases n with _ | _ | _ | _ | _ | n <;> cases hj

/-- A switch to the terminal that is asked for, where all that is needed can be had. -/
def fine (pid : ℤ) (hpid : pid ≠ 0) : Sys :=
    ⟨fun tty _ => ⟨0, 0, tty⟩, .ok 0, none, none, none, pid, hpid⟩

lemma pid_100 : (100 : ℤ) ≠ 0 := by decide

lemma pid_101 : (101 : ℤ) ≠ 0 := by decide

/-- A device that is there. -/
def device (dev : ℕ) : Opening := ⟨none, .ok ⟨true, dev⟩, true⟩

/-- A device that is not there. -/
def missing : Opening := ⟨some ⟨-2, by decide⟩, .ok ⟨true, 0⟩, true⟩

/-- `/dev/input/event0`. -/
def event0 : ℕ := 13 * 2 ^ 8 + 64

/-- The process, on the first of three terminals, two of which are pinned. -/
def pinned23 : Mux := start 1 1 0b1100

/-- What a list of events makes of the process. -/
def run (es : List Event) : Option Mux := es.foldlM step pinned23

end Mux

end Minibase.Vtmux
