import Minibase.Lib.Runs
import Minibase.Vtmux.Devices

/-!
# The moves of vtmux

What the parts of a step do to the process, as far as no device is concerned: descriptors are given
out and back, and slots of terminals are filled and freed. Whatever is kept by the few moves that a
switch and the start of a session are made of is kept by all that switches (`Vtmux.Mux.Steady`), and
with the moves at the end of a session also by all that waits for one (`Vtmux.Mux.Lasting`). -/

namespace Minibase.Vtmux

namespace Mux

variable {m m' : Mux} {i s : ℕ}

/-! ### Descriptors and slots -/

lemma sysClose_eq (m : Mux) (fd : ℤ) : ∃ fds, m.sysClose fd = { m with fds := fds } := by
  unfold sysClose
  split_ifs
  · exact ⟨m.fds, rfl⟩
  · exact ⟨_, rfl⟩

lemma sysClose_frame (m : Mux) (fd : ℤ) :
    (m.sysClose fd).mdevs = m.mdevs ∧ (m.sysClose fd).files = m.files ∧
      (m.sysClose fd).terms = m.terms ∧
      (m.sysClose fd).activetty = m.activetty := by
  obtain ⟨fds, heq⟩ := sysClose_eq m fd
  rw [heq]
  exact ⟨rfl, rfl, rfl, rfl⟩

lemma sysClose_same (m : Mux) (fd : ℤ) : (m.sysClose fd).conns = m.conns ∧
    (m.sysClose fd).ctrlfd = m.ctrlfd := by
  obtain ⟨fds, heq⟩ := sysClose_eq m fd
  rw [heq]
  exact ⟨rfl, rfl⟩

lemma sysClose_setTerm (m : Mux) (fd : ℤ) (i : ℕ) (vt : Term) :
    (m.sysClose fd).setTerm i vt = (m.setTerm i vt).sysClose fd := by
  unfold sysClose
  split_ifs <;> rfl

lemma sysClose_freeTermSlot (m : Mux) (fd : ℤ) (i : ℕ) :
    (m.sysClose fd).freeTermSlot i = (m.freeTermSlot i).sysClose fd := by
  unfold sysClose
  split_ifs <;> rfl

lemma sysClose_freeMdevSlot (m : Mux) (fd : ℤ) (s : ℕ) :
    (m.sysClose fd).freeMdevSlot s = (m.freeMdevSlot s).sysClose fd := by
  unfold sysClose
  split_ifs <;> rfl

/-- A slot that is free has no descriptors. -/
theorem free_term {vt : Term} (h : vt.nonzero = false) : vt.ttyfd = 0 ∧ vt.ctlfd = 0 ∧
    vt.pid = 0 := by
  simp only [Term.nonzero, Bool.or_eq_false_iff, decide_eq_false_iff_not, not_not, ne_eq] at h
  exact ⟨h.1.1.1.2, h.1.1.2, h.1.2⟩

lemma free_mdev {md : Mdev} (h : md.nonzero = false) : md.fd = 0 ∧ md.tty = 0 ∧ md.dev = 0 := by
  simp only [Mdev.nonzero, Bool.or_eq_false_iff, decide_eq_false_iff_not, not_not, ne_eq] at h
  exact ⟨h.1.1, h.1.2, h.2⟩

lemma used_of_pid {vt : Term} (h : 0 < vt.pid) : vt.nonzero = true := by
  have hne : vt.pid ≠ 0 := by omega
  simp [Term.nonzero, hne]

lemma pid_of_find {pid : ℤ} (h : m.findTermByPid pid = some i) : (m.term i).pid = pid := by
  obtain ⟨hlt, hpid, -⟩ := List.findIdx?_eq_some_iff_getElem.mp h
  rw [term_eq (List.getElem?_eq_getElem hlt)]
  exact of_decide_eq_true hpid

/-! ### Switching -/

/-- Nothing changes but devices. -/
def OnlyDevices (m m' : Mux) : Prop :=
  ∃ mdevs files mdevreq, m' = { m with mdevs := mdevs, files := files, mdevreq := mdevreq }

lemma OnlyDevices.refl (m : Mux) : m.OnlyDevices m := ⟨_, _, _, rfl⟩

lemma OnlyDevices.trans {m'' : Mux} (h : m.OnlyDevices m') (h' : m'.OnlyDevices m'') :
    m.OnlyDevices m'' := by
  obtain ⟨mdevs, files, mdevreq, rfl⟩ := h
  obtain ⟨mdevs', files', mdevreq', rfl⟩ := h'
  exact ⟨mdevs', files', mdevreq', rfl⟩

lemma setFile_onlyDevices (m : Mux) (fd : ℤ) (maj : ℕ) (enabled : Bool) :
    m.OnlyDevices (m.setFile fd maj enabled) := by
  obtain ⟨files, heq, -⟩ := setFile_spec m fd maj enabled
  exact ⟨_, files, _, heq⟩

lemma disable_onlyDevices (m : Mux) (s : ℕ) (drop : Bool) : m.OnlyDevices (m.disable s drop) := by
  unfold Mux.disable
  dsimp only
  have hoff : m.OnlyDevices (if major (intDev (m.mdev s).dev) = DRI_MAJOR ∨
    major (intDev (m.mdev s).dev) = INPUT_MAJOR
      then m.setFile (m.mdev s).fd (major (intDev (m.mdev s).dev)) false else m) := by
    split_ifs
    · exact setFile_onlyDevices ..
    · exact .refl m
  generalize (if major (intDev (m.mdev s).dev) = DRI_MAJOR ∨
    major (intDev (m.mdev s).dev) = INPUT_MAJOR
    then m.setFile (m.mdev s).fd (major (intDev (m.mdev s).dev)) false else m) = m1 at hoff ⊢
  split_ifs
  · exact hoff.trans ⟨_, _, _, rfl⟩
  · exact hoff

lemma disableAllDevsFor_onlyDevices (m : Mux) (tty : ℤ) : m.OnlyDevices
    (m.disableAllDevsFor tty) := by
  refine loop_invariant (P := fun _ m' => m.OnlyDevices m') (.refl m) fun s _ m' h => ?_
  split_ifs
  · exact h.trans (disable_onlyDevices m' s true)
  · exact h

lemma disengage_onlyDevices (m : Mux) (tty : ℤ) : m.OnlyDevices (m.disengage tty) := by
  refine loop_invariant (P := fun _ m' => m.OnlyDevices m') (.refl m) fun s _ m' h => ?_
  split_ifs
  · exact h.trans (disable_onlyDevices m' s false)
  · exact h

lemma engage_onlyDevices (m : Mux) (tty : ℤ) : m.OnlyDevices (m.engage tty) := by
  refine loop_invariant (P := fun _ m' => m.OnlyDevices m') (.refl m) fun s _ m' h => ?_
  split_ifs
  · exact h.trans (setFile_onlyDevices ..)
  · exact h

/-- A switch changes the terminal that is shown besides. -/
theorem activate_onlyDevices (m : Mux) (tty : ℤ) (sys : Sys) :
    ∃ activetty, OnlyDevices { m with activetty := activetty } (m.activate tty sys).2 := by
  unfold Mux.activate
  split_ifs
  · exact ⟨_, .refl m⟩
  obtain ⟨mdevs, files, mdevreq, heq⟩ := disengage_onlyDevices m m.activetty
  rcases switchLoop tty (sys.tries tty) 7 0 with ret | ⟨swret, ret⟩
  · exact ⟨_, mdevs, files, mdevreq, heq⟩
  · have hshown : OnlyDevices { m with activetty := ret }
      { m.disengage m.activetty with activetty := ret } := by
      rw [heq]
      exact ⟨mdevs, files, mdevreq, rfl⟩
    exact ⟨ret, hshown.trans (engage_onlyDevices _ ret)⟩

lemma OnlyDevices.terms (h : m.OnlyDevices m') : m'.terms = m.terms := by
  obtain ⟨mdevs, files, mdevreq, rfl⟩ := h
  rfl

lemma OnlyDevices.activetty (h : m.OnlyDevices m') : m'.activetty = m.activetty := by
  obtain ⟨mdevs, files, mdevreq, rfl⟩ := h
  rfl

lemma activate_terms (m : Mux) (tty : ℤ) (sys : Sys) : (m.activate tty sys).2.terms = m.terms := by
  obtain ⟨activetty, h⟩ := activate_onlyDevices m tty sys
  exact h.terms

/-- **A session is started**, or nothing changes but descriptors. -/
theorem startCmdOn_eq (m : Mux) (i : ℕ) (tty : ℤ) (sys : Sys) :
    (∃ fds, (m.startCmdOn i tty sys).1 < 0 ∧ (m.startCmdOn i tty sys).2 = { m with fds := fds }) ∨
      ∃ fds vt sessions, (m.startCmdOn i tty sys).1 = 0 ∧
        (m.startCmdOn i tty sys).2 = { m with
          fds := fds, terms := m.terms.set i vt, sessions := sessions } := by
  unfold startCmdOn
  rcases sys.tty with _ | e
  swap
  · exact .inl ⟨m.fds, e.2, rfl⟩
  rcases sys.pair with _ | e
  swap
  · obtain ⟨fds, heq⟩ := sysClose_eq (m.openFd (.tty i)).2 (m.openFd (.tty i)).1
    exact .inl ⟨fds, e.2, heq⟩
  dsimp only
  split_ifs with hfork
  · obtain ⟨fds1, heq1⟩ := sysClose_eq (((m.openFd (.tty i)).2.openFd (.ctl i)).2.openFd .other).2
      ((m.openFd (.tty i)).2.openFd (.ctl i)).1
    rw [heq1]
    obtain ⟨fds2, heq2⟩ := sysClose_eq { (((m.openFd (.tty i)).2.openFd
      (.ctl i)).2.openFd .other).2 with fds := fds1 }
      (((m.openFd (.tty i)).2.openFd (.ctl i)).2.openFd .other).1
    rw [heq2]
    obtain ⟨fds3, heq3⟩ := sysClose_eq { (((m.openFd (.tty i)).2.openFd
      (.ctl i)).2.openFd .other).2 with fds := fds2 }
      (m.openFd (.tty i)).1
    exact .inl ⟨fds3, hfork, heq3⟩
  · obtain ⟨fds, heq⟩ := sysClose_eq (((m.openFd (.tty i)).2.openFd (.ctl i)).2.openFd .other).2
      (((m.openFd (.tty i)).2.openFd (.ctl i)).2.openFd .other).1
    rw [heq]
    exact .inr ⟨fds, _, _, rfl, rfl⟩

lemma startCmdOn_terms (m : Mux) (i : ℕ) (tty : ℤ)
    (sys : Sys) (h : (m.startCmdOn i tty sys).1 ≠ 0) :
    (m.startCmdOn i tty sys).2.terms = m.terms := by
  obtain ⟨fds, -, heq⟩ := (startCmdOn_eq m i tty sys).resolve_right fun
    ⟨_, _, _, hzero, _⟩ => h hzero
  rw [heq]

/-- **What is kept by all that switches**: what is kept by what this is made of. -/
structure Steady (P : Mux → Prop) : Prop where
  mark : ∀ {m : Mux} (greetertty lastusertty : ℤ) (switchlock : Bool), P m →
    P { m with greetertty := greetertty, lastusertty := lastusertty, switchlock := switchlock }
  activate : ∀ {m : Mux} (tty : ℤ) (sys : Sys), P m → P (m.activate tty sys).2
  grab : ∀ {m : Mux} {i : ℕ} {terms : List Term}, grabSlot Term.nonzero NTERMS {} m.terms = some
    (i, terms) → P m →
    P { m with terms := terms }
  start : ∀ {m : Mux} {i : ℕ} (tty : ℤ) (sys : Sys), (m.term i).nonzero = false → P m →
    P (m.startCmdOn i tty sys).2
  free : ∀ {m : Mux} {i : ℕ}, (m.term i).nonzero = false → P m → P (m.freeTermSlot i)

namespace Steady

variable {P : Mux → Prop}

lemma spawn (hP : Steady P) (h : P m) (tty : ℤ) (sys : Sys) : P (m.spawn tty sys).2 := by
  unfold Mux.spawn
  rcases sys.access with _ | e
  swap
  · exact h
  rcases hgrab : grabSlot Term.nonzero NTERMS {} m.terms with _ | ⟨i, terms⟩
  · exact h
  dsimp only
  obtain ⟨⟨vt, hvt, hfree⟩, -, -⟩ := grabSlot_spec hgrab (by decide)
  -- the slot stays free while terminals are switched
  have hslot {m' : Mux} (hm' : m'.terms = terms) : (m'.term i).nonzero = false := by
    have hin : m'.terms[i]? = some vt := by rw [hm', hvt]
    rw [term_eq hin]
    exact hfree
  have h1 := hP.activate tty sys (hP.grab hgrab h)
  have hterms1 := activate_terms { m with terms := terms } tty sys
  generalize Mux.activate { m with terms := terms } tty sys = r1 at h1 hterms1 ⊢
  obtain ⟨ret, m1⟩ := r1
  have h2 := hP.start tty sys (hslot hterms1) h1
  have hterms2 := startCmdOn_terms m1 i tty sys
  generalize m1.startCmdOn i tty sys = r2 at h2 hterms2 ⊢
  obtain ⟨ret', m2⟩ := r2
  split_ifs with hret hret'
  · exact hP.free (hslot hterms1) h1
  · exact h2
  · refine hP.free (hslot ?_) (hP.activate m.activetty sys h2)
    exact (activate_terms m2 m.activetty sys).trans ((hterms2 hret').trans hterms1)

lemma switchto (hP : Steady P) (h : P m) (tty : ℤ) (sys : Sys) : P (m.switchto tty sys).2 := by
  have hlock : P { m with switchlock := false } := hP.mark m.greetertty m.lastusertty false h
  unfold Mux.switchto
  dsimp only
  split_ifs
  · exact h
  · exact h
  · exact hP.activate tty sys hlock
  · exact hP.spawn hlock tty sys
  · exact hlock

lemma showGreeter (hP : Steady P) (h : P m) (sys : Sys) : P (m.showGreeter sys).2 := by
  unfold Mux.showGreeter
  dsimp only
  have hlast : P (if m.activetty ≠ m.greetertty then
    { m with lastusertty := m.activetty } else m) := by
    split_ifs
    · exact hP.mark m.greetertty m.activetty m.switchlock h
    · exact h
  generalize (if m.activetty ≠ m.greetertty then { m with lastusertty := m.activetty } else m) =
    m1 at hlast ⊢
  split_ifs
  · exact hP.switchto hlast _ sys
  · exact hlast
  · exact hP.spawn (hP.mark (m1.queryGreeterTty sys) m1.lastusertty m1.switchlock hlast) _ sys

lemma switchToSmth (hP : Steady P) (h : P m) (sys : Sys) : P (m.switchToSmth sys) := by
  unfold Mux.switchToSmth
  split
  · exact hP.switchto h _ sys
  · split
    · exact hP.showGreeter h sys
    · exact hP.switchto h _ sys

lemma dispatchCmd (hP : Steady P) (h : P m) (cmd : Cmd) (sys : Sys) : P
    (m.dispatchCmd cmd sys) := by
  have hlock (switchlock : Bool) : P { m with switchlock := switchlock } :=
    hP.mark m.greetertty m.lastusertty switchlock h
  unfold Mux.dispatchCmd
  cases cmd with
  | status => exact h
  | switch tty =>
    dsimp only
    split_ifs
    · exact h
    · exact hP.showGreeter h sys
    · exact hP.switchto h tty sys
  | swback =>
    split_ifs
    · exact h
    · exact hP.switchto h _ sys
    · exact hP.switchto h _ sys
    · exact h
  | swlock => exact hlock true
  | unlock => exact hlock false

end Steady

/-! ### Ends of sessions -/

/-- The terminal may be opened again. -/
theorem reopenTtyDevice_eq (m : Mux) (i : ℕ) (error : Option Errno) :
    m.reopenTtyDevice i error = m ∨
    ∃ fds fd, m.reopenTtyDevice i error =
      { m with fds := fds, terms := m.terms.set i { m.term i with ttyfd := fd } } := by
  unfold reopenTtyDevice
  rcases error with _ | e
  · dsimp only
    obtain ⟨fds, heq⟩ := sysClose_eq (m.openFd (.tty i)).2 ((m.openFd (.tty i)).2.term i).ttyfd
    rw [heq]
    exact .inr ⟨fds, _, rfl⟩
  · exact .inl rfl

lemma closePipe_eq (m : Mux) (i : ℕ) :
    ∃ fds, m.closePipe i = { m with fds := fds, terms := m.terms.set i { m.term i with ctlfd := -1 }
      } := by
  unfold closePipe
  obtain ⟨fds, heq⟩ := sysClose_eq m (m.term i).ctlfd
  rw [heq]
  exact ⟨fds, rfl⟩

lemma finalize_eq (m : Mux) (i : ℕ) :
    ∃ fds, m.finalize i = { m with fds := fds, terms := freeSlot Term.nonzero {} m.terms i } := by
  have hclose (p : Prop) [Decidable p] (m : Mux) (fd : ℤ) :
      ∃ fds, (if p then m.sysClose fd else m) = { m with fds := fds } := by
    split_ifs
    · exact sysClose_eq m fd
    · exact ⟨m.fds, rfl⟩
  unfold finalize
  dsimp only
  obtain ⟨fds, heq⟩ := hclose (0 < (m.term i).ctlfd) m (m.term i).ctlfd
  rw [heq]
  obtain ⟨fds', heq'⟩ := hclose (0 < (m.term i).ttyfd) { m with fds := fds } (m.term i).ttyfd
  rw [heq']
  exact ⟨fds', rfl⟩

/-- The end of a session: its devices are dropped, it is forgotten where it was the greeter or the
last one, its pipe is closed, and its terminal is given up or kept for what is on it. -/
theorem handleDead_eq (m : Mux) (i status : ℕ) : ∃ m1 greetertty lastusertty,
    m1 = { m.disableAllDevsFor (m.term i).tty with
      greetertty := greetertty, lastusertty := lastusertty } ∧
    ∃ m2, m2 = (if 0 < (m1.term i).ctlfd then m1.closePipe i else m1) ∧
      m.handleDead i status =
        if status = 0 then m2.finalize i else m2.setTerm i { m2.term i with pid := 0 } := by
  have hforget (tty : ℤ) (m : Mux) : ∃ greetertty lastusertty,
      (if tty = (if tty = m.greetertty then { m with greetertty := 0 } else m).lastusertty then
        { (if tty = m.greetertty then { m with greetertty := 0 } else m) with lastusertty := 0 }
      else if tty = m.greetertty then { m with greetertty := 0 } else m) =
        { m with greetertty := greetertty, lastusertty := lastusertty } := by
    split_ifs <;> exact ⟨_, _, rfl⟩
  obtain ⟨greetertty, lastusertty, hm1⟩ := hforget (m.term i).tty
    (m.disableAllDevsFor (m.term i).tty)
  unfold Mux.handleDead
  dsimp only
  rw [hm1]
  exact ⟨_, greetertty, lastusertty, rfl, _, rfl, rfl⟩

lemma setTerm_term (m : Mux) {i j : ℕ} (hij : i ≠ j) (vt : Term) :
    (m.setTerm j vt).term i = m.term i := by
  show (m.terms.set j vt).getD i {} = m.terms.getD i {}
  rw [List.getD_eq_getElem?_getD, List.getD_eq_getElem?_getD, List.getElem?_set, if_neg hij.symm]

lemma freeTermSlot_term (m : Mux) {i j : ℕ} (hij : i ≠ j) (hused : (m.term i).nonzero = true) :
    (m.freeTermSlot j).term i = m.term i := by
  rcases hget : m.terms[i]? with _ | vt
  · rw [Mux.term, List.getD_eq_getElem?_getD, hget] at hused
    cases hused
  · rw [term_eq hget] at hused ⊢
    exact term_eq ((freeSlot_spec Term.nonzero {} m.terms j).2 i vt hget hused hij)

/-- **The end of a session** leaves the other sessions alone. -/
theorem handleDead_term (m : Mux) {i j : ℕ}
    (hij : i ≠ j) (hused : (m.term i).nonzero = true) (status : ℕ) :
    (m.handleDead j status).term i = m.term
      i ∧ (m.handleDead j status).activetty = m.activetty := by
  obtain ⟨m1, greetertty, lastusertty, hm1, m2, hm2, heq⟩ := handleDead_eq m j status
  have hdims := disableAllDevsFor_onlyDevices m (m.term j).tty
  have h1 : m1.term i = m.term i ∧ m1.activetty = m.activetty := by
    rw [hm1, Mux.term, Mux.term]
    exact ⟨congrArg (fun l : List Term => l.getD i {}) hdims.terms, hdims.activetty⟩
  have h2 : m2.term i = m.term i ∧ m2.activetty = m.activetty := by
    rw [hm2]
    split_ifs
    · obtain ⟨fds, hpipe⟩ := closePipe_eq m1 j
      rw [hpipe]
      exact ⟨(setTerm_term m1 hij _).trans h1.1, h1.2⟩
    · exact h1
  rw [heq]
  split_ifs
  · obtain ⟨fds, hfinal⟩ := finalize_eq m2 j
    rw [hfinal]
    exact ⟨(freeTermSlot_term m2 hij (h2.1.symm ▸ hused)).trans h2.1, h2.2⟩
  · exact ⟨(setTerm_term m2 hij _).trans h2.1, h2.2⟩

lemma reopenTtyDevice_term (m : Mux) {i j : ℕ} (hij : i ≠ j) (error : Option Errno) :
    (m.reopenTtyDevice j error).term i = m.term i ∧
      (m.reopenTtyDevice j error).activetty = m.activetty := by
  rcases reopenTtyDevice_eq m j error with heq | ⟨fds, fd, heq⟩
  · rw [heq]
    exact ⟨rfl, rfl⟩
  · rw [heq]
    exact ⟨setTerm_term m hij _, rfl⟩

/-- **What is kept by all that waits for the end of a session** as well. -/
structure Lasting (P : Mux → Prop) : Prop extends Steady P where
  reopen : ∀ {m : Mux} {i : ℕ} (error : Option Errno), 0 < (m.term i).pid → P m →
    P (m.reopenTtyDevice i error)
  dead : ∀ {m : Mux} (i status : ℕ), P m → P (m.handleDead i status)
  finalize : ∀ {m : Mux} {i : ℕ}, (m.term i).pid ≤ 0 → P m → P (m.finalize i)

namespace Lasting

variable {P : Mux → Prop}

lemma finalEnter (hP : Lasting P) (h : P m) (hpid : (m.term i).pid ≤ 0) (sys : Sys) : P
    (m.finalEnter i sys) := by
  have hfinal := hP.finalize hpid h
  unfold Mux.finalEnter
  dsimp only
  split_ifs
  · exact hfinal
  · exact hP.spawn hfinal _ sys
  · exact hP.switchToSmth hfinal sys

/-- The processes that have ended are found, and the one whose terminal is shown is left for
later. -/
theorem waitLoop (hP : Lasting P) (h : P m) (deaths : List Death) (active : Option (ℕ × Death))
    (hactive : ∀ i d, active = some (i, d) → 0 < (m.term i).pid ∧ (m.term i).tty = m.activetty) :
    P (waitLoop deaths active m).2 ∧ ∀ i d, (Mux.waitLoop deaths active m).1 = some (i, d) →
      0 < ((Mux.waitLoop deaths active m).2.term i).pid := by
  induction deaths generalizing m active with
  | nil => exact ⟨h, fun i d hi => (hactive i d hi).1⟩
  | cons d ds ih =>
    unfold Mux.waitLoop
    split
    · exact ih h active hactive
    · rename_i j hj
      have hpid : 0 < (m.term j).pid := pid_of_find hj ▸ d.pos
      split_ifs with hshown
      · refine ih h _ fun i d' hi => ?_
        obtain ⟨rfl, -⟩ := Prod.mk.inj (Option.some.inj hi)
        exact ⟨hpid, hshown⟩
      · refine ih (hP.dead _ _ (hP.reopen _ hpid h)) active fun i d' hi => ?_
        obtain ⟨hpid', htty⟩ := hactive i d' hi
        have hij : i ≠ j := by
          rintro rfl
          exact hshown htty
        obtain ⟨hterm1, hact1⟩ := reopenTtyDevice_term m hij d.reopen
        obtain ⟨hterm2, hact2⟩ := handleDead_term (m.reopenTtyDevice j d.reopen) hij
          (hterm1.symm ▸ used_of_pid hpid') d.status
        rw [hterm2, hterm1, hact2, hact1]
        exact ⟨hpid', htty⟩

lemma waitPids (hP : Lasting P) (h : P m) (shutdown : Bool) (deaths : List Death) (sys : Sys) :
    P (m.waitPids shutdown deaths sys) := by
  have hloop := hP.waitLoop h deaths none nofun
  unfold Mux.waitPids
  generalize Mux.waitLoop deaths none m = r at hloop ⊢
  rcases r with ⟨_ | ⟨i, d⟩, m1⟩
  · exact hloop.1
  · have h2 := hP.reopen d.reopen (hloop.2 i d rfl) hloop.1
    dsimp only
    split_ifs
    · exact hP.dead i d.status (hP.switchToSmth h2 sys)
    · exact hP.dead i d.status h2

end Lasting

/-! ### Connections -/

lemma acceptCtrl_eq (m : Mux) : ∃ fds conns,
    m.acceptCtrl = { m with fds := fds, conns := conns } := by
  unfold acceptCtrl
  dsimp only
  split_ifs
  · exact ⟨_, m.conns, rfl⟩
  split
  · obtain ⟨fds, heq⟩ := sysClose_eq (m.openFd .other).2 (m.openFd .other).1
    exact ⟨fds, m.conns, heq⟩
  · exact ⟨_, _, rfl⟩

end Mux

end Minibase.Vtmux
