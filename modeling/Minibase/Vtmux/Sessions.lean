import Minibase.Vtmux.Switching

/-!
# Sessions of vtmux

The devices stay with the foreground as long as descriptor zero is not given to a device for the
terminal that is shown, and the numbers of devices fit an `int` (`Vtmux.Mux.for_foreground`).
Descriptor zero is one to be had, since `flush_mdevs` closes it for each slot that is free, and
`disengage` takes a device with that descriptor for none.
-/

namespace Minibase.Vtmux

namespace Mux

open List

variable {m : Mux} {i : ℕ}

/-! ### Starting a session -/

lemma Runs.congr {m' : Mux} {x : ℕ} {tty : ℤ} (h : m.Runs x tty) (hterms : m'.terms = m.terms) :
    m'.Runs x tty := by
  rw [Runs, hterms]
  exact h

/-- A terminal changes, and the session on it goes on. -/
theorem Runs.setTerm {x : ℕ} {tty : ℤ} {vt : Term} (h : m.Runs x tty)
    (hkeep : (m.term i).tty = tty → 0 < (m.term i).pid →
      vt.session = (m.term i).session ∧ vt.tty = (m.term i).tty ∧ 0 < vt.pid) :
        (m.setTerm i vt).Runs x tty := by
  obtain ⟨vt', hvt', rfl, htty, hpid⟩ := h
  obtain ⟨j, hj⟩ := mem_iff_getElem?.mp hvt'
  by_cases hji : j = i
  · subst hji
    rw [term_eq hj] at hkeep
    obtain ⟨hsession, htty', hpid'⟩ := hkeep htty hpid
    refine ⟨vt, mem_iff_getElem?.mpr ⟨j, ?_⟩, hsession, htty'.trans htty, hpid'⟩
    show (m.terms.set j vt)[j]? = _
    rw [List.getElem?_set, if_pos rfl, if_pos (List.getElem?_eq_some_iff.mp hj).1]
  · refine ⟨vt', mem_iff_getElem?.mpr ⟨j, ?_⟩, rfl, htty, hpid⟩
    show (m.terms.set i vt)[j]? = _
    rw [List.getElem?_set, if_neg (Ne.symm hji), hj]

/-- A terminal goes away on which no session runs. -/
theorem Runs.freeTermSlot {x : ℕ} {tty : ℤ} (h : m.Runs x tty)
    (hkeep : (m.term i).tty = tty → ¬0 < (m.term i).pid) : (m.freeTermSlot i).Runs x tty := by
  obtain ⟨vt, hvt, rfl, htty, hpid⟩ := h
  obtain ⟨j, hj⟩ := mem_iff_getElem?.mp hvt
  have hji : j ≠ i := by
    rintro rfl
    rw [term_eq hj] at hkeep
    exact hkeep htty hpid
  exact ⟨vt, mem_iff_getElem?.mpr
    ⟨j, (freeSlot_spec Term.nonzero {} m.terms i).2 j vt hj (used_of_pid hpid) hji⟩, rfl, htty,
      hpid⟩

/-- Everything is in order, and what is written in the slots is for what they say. -/
def Orderly (m : Mux) : Prop := m.Sound ∧ m.Owned False False

/-- **A session is started**, or it is not. -/
theorem Orderly.startCmdOn (h : m.Orderly) (hfree : (m.term i).nonzero = false) (tty : ℤ)
    (sys : Sys) : (m.startCmdOn i tty sys).2.Orderly := by
  have howned := h.2.startCmdOn hfree tty sys
  refine ⟨?_, howned⟩
  rcases startCmdOn_eq m i tty sys with ⟨fds, -, heq⟩ | ⟨fds, vt, sessions, -, heq⟩
  · rw [heq] at howned ⊢
    exact h.1.runs howned rfl rfl rfl fun _ _ _ _ _ _ hx => hx
  · rw [heq] at howned ⊢
    refine h.1.runs howned rfl rfl rfl fun _ _ _ _ _ x hx => Runs.setTerm hx fun _ hpid => ?_
    rw [(free_term hfree).2.2] at hpid
    exact absurd hpid (lt_irrefl 0)

/-- A slot is taken. -/
theorem Orderly.grabTerm (h : m.Orderly) {terms : List Term}
    (hgrab : grabSlot Term.nonzero NTERMS {} m.terms = some (i, terms)) : Orderly
    { m with terms := terms } := by
  have howned := h.2.grabTerm hgrab
  refine ⟨h.1.runs howned rfl rfl rfl fun _ _ _ _ _ x hx => ?_, howned⟩
  obtain ⟨vt, hvt, hvt'⟩ := hx
  obtain ⟨j, hj⟩ := mem_iff_getElem?.mp hvt
  exact ⟨vt, mem_iff_getElem?.mpr ⟨j, (grabSlot_spec hgrab (by decide)).2.1 j vt hj⟩, hvt'⟩

/-! ### The end of a session -/

lemma Orderly.reopenTtyDevice (h : m.Orderly) (hpid : 0 < (m.term i).pid) (error : Option Errno) :
    (m.reopenTtyDevice i error).Orderly := by
  have howned := h.2.reopenTtyDevice hpid error
  refine ⟨?_, howned⟩
  rcases reopenTtyDevice_eq m i error with heq | ⟨fds, fd, heq⟩
  · rw [heq]
    exact h.1
  · rw [heq] at howned ⊢
    exact h.1.runs howned rfl rfl rfl fun _ _ _ _ _ x hx => Runs.setTerm hx fun _ hpid =>
      ⟨rfl, rfl, hpid⟩

lemma Orderly.closePipe (h : m.Orderly) (hfd : 0 < (m.term i).ctlfd) : (m.closePipe i).Orderly := by
  have howned := h.2.closePipe hfd
  obtain ⟨fds, heq⟩ := closePipe_eq m i
  rw [heq] at howned ⊢
  exact ⟨h.1.runs howned rfl rfl rfl fun _ _ _ _ _ x hx => Runs.setTerm hx fun _ hpid =>
    ⟨rfl, rfl, hpid⟩, howned⟩

/-- **A terminal is given up** if no session runs on it that has devices. -/
theorem Orderly.finalize (h : m.Orderly)
    (hkeep : ∀ (s : ℕ) (md : Mdev), m.mdevs[s]? = some md → md.dev ≠ 0 → (m.term i).tty = md.tty →
      ¬0 < (m.term i).pid) : (m.finalize i).Orderly := by
  have howned := h.2.finalize i
  obtain ⟨fds, heq⟩ := finalize_eq m i
  rw [heq] at howned ⊢
  exact ⟨h.1.runs howned rfl rfl rfl fun s md hs _ hdev x hx => Runs.freeTermSlot hx
    (hkeep s md hs hdev), howned⟩

/-- **The end of a session** disables its devices, and then its terminal may go. -/
theorem Orderly.handleDead (h : m.Orderly) (i status : ℕ) : (m.handleDead i status).Orderly := by
  obtain ⟨m1, greetertty, lastusertty, hm1, m2, hm2, heq⟩ := handleDead_eq m i status
  obtain ⟨hkept, hdims, hclear⟩ := disableAllDevsFor_spec h.1.kept (m.term i).tty
  have hdisabled : (m.disableAllDevsFor (m.term i).tty).Sound := h.1.dims hkept hdims
  have howned1 : m1.Owned False False := by
    rw [hm1]
    exact (h.2.disableAllDevsFor (m.term i).tty).same rfl rfl rfl rfl rfl
  have h1 : m1.Orderly := by
    refine ⟨?_, howned1⟩
    rw [hm1] at howned1 ⊢
    exact hdisabled.runs howned1 rfl rfl rfl fun _ _ _ _ _ _ hx => hx
  have hterm1 : m1.term i = m.term i := by
    rw [hm1]
    show (m.disableAllDevsFor (m.term i).tty).term i = m.term i
    rw [term, hdims.terms, term]
  have h2 : m2.Orderly ∧ m2.mdevs = m1.mdevs ∧ (m2.term i).tty = (m1.term i).tty := by
    rw [hm2]
    split_ifs with hfd
    · refine ⟨h1.closePipe hfd, ?_⟩
      obtain ⟨fds, hpipe⟩ := closePipe_eq m1 i
      rw [hpipe]
      refine ⟨rfl, ?_⟩
      have hin : (m1.terms.set i { m1.term i with ctlfd := -1 })[i]? = some { m1.term
        i with ctlfd := -1 } := by
        rw [List.getElem?_set, if_pos rfl, if_pos]
        exact (List.getElem?_eq_some_iff.mp (term_of_pos hfd (.inl rfl))).1
      rw [term_eq (m := { m1 with fds := fds, terms := m1.terms.set i { m1.term i with ctlfd := -1 }
        }) hin]
    · exact ⟨h1, rfl, rfl⟩
  obtain ⟨h2, hmdevs2, htty2⟩ := h2
  have hnobody : ∀ (s : ℕ) (md : Mdev), m2.mdevs[s]? = some md → md.dev ≠
    0 → (m2.term i).tty ≠ md.tty := by
    intro s md hs hdev hsame
    rw [hmdevs2, hm1] at hs
    rw [htty2, hterm1] at hsame
    exact hclear s md hs hdev hsame.symm
  have howned := h.2.handleDead i status
  rw [heq] at howned ⊢
  split_ifs at howned ⊢
  · exact h2.finalize fun s md hs hdev hsame _ => hnobody s md hs hdev hsame
  · exact ⟨h2.1.runs howned rfl rfl rfl fun s md hs _ hdev x hx =>
      Runs.setTerm hx fun hsame _ => absurd hsame (hnobody s md hs hdev), howned⟩

/-- **Sessions start and end**, and everything remains in order. -/
theorem orderly_lasting : Lasting Orderly where
  mark {m} greetertty lastusertty switchlock h := by
    have howned : Owned False False { m with
        greetertty := greetertty, lastusertty := lastusertty, switchlock := switchlock } :=
          h.2.same rfl rfl rfl rfl rfl
    exact ⟨h.1.runs howned rfl rfl rfl fun _ _ _ _ _ _ hx => hx, howned⟩
  activate tty sys h := ⟨(activate_spec h.1 tty sys).1, h.2.activate tty sys⟩
  grab hgrab h := h.grabTerm hgrab
  start tty sys hfree h := h.startCmdOn hfree tty sys
  free {m i} hfree h := by
    have howned := h.2.freeTermSlot i
    refine ⟨h.1.runs howned rfl rfl rfl fun _ _ _ _ _ x hx => Runs.freeTermSlot hx fun _ hpid => ?_,
      howned⟩
    rw [(free_term hfree).2.2] at hpid
    exact absurd hpid (lt_irrefl 0)
  reopen error hpid h := h.reopenTtyDevice hpid error
  dead i status h := h.handleDead i status
  finalize hpid h := h.finalize fun _ _ _ _ _ hpos => absurd hpos (not_lt.mpr hpid)

end Mux

end Minibase.Vtmux
