import Minibase.Svchub.Moves

/-!
# Events and moves

Every event makes moves, unless it forces the shutdown (`Svchub.handle_moves`). The
moves are clean if the event is careful (`Svchub.Hub.Careful`): it does not ask for a
service without a name, and the hub does not run out of processes just as it starts a service
again. They are quiet if it starts nothing (`Svchub.Hub.Still`).
-/

namespace Minibase.Svchub

open Hub

/-- The service that a command asks for, with the flags it is to have. -/
def Cmd.request : Cmd → Option (Name × Flags)
  | .start (some name) => some (name, {})
  | .spawn (some name) => some (name, { once := true })
  | .stout (some name) => some (name, { pass := true })
  | _ => none

/-- An event that does not have an effect it should not have on the table. -/
def Hub.Careful (h : Hub) : Event → Prop
  | .command _ cmd a => ∀ r ∈ cmd.request, ¬h.nameless a r.1.chars r.2
  | .reap pid _ a => ∀ i ∈ h.findByPid pid, h.scrpid ≠ pid →
      ¬(h.respawns a i ∧ a.forkless (h.proc i).flags.pass)
  | .connect | .hangup _ | .output _ _ _ | .chld | .settle _ | .signal _ _ | .alrm _ => True

/-- An event that starts no service. -/
def Hub.Still (h : Hub) : Event → Prop
  | .command _ cmd a => ∀ r ∈ cmd.request, ¬h.startable a r.1.chars r.2
  | .reap pid _ a => ∀ i ∈ h.findByPid pid, h.scrpid ≠ pid →
      ¬(h.respawns a i ∧ a.runs (h.proc i).flags.pass)
  | .connect | .hangup _ | .output _ _ _ | .chld | .settle _ | .signal _ _ | .alrm _ => True

instance (h : Hub) : ∀ e, Decidable (h.Careful e)
  | .command _ cmd _ => inferInstanceAs (Decidable (∀ r ∈ cmd.request, _))
  | .reap pid _ _ => inferInstanceAs (Decidable (∀ i ∈ h.findByPid pid, _))
  | .connect | .hangup _ | .output _ _ _ | .chld | .settle _ | .signal _ _ | .alrm _ =>
    inferInstanceAs (Decidable True)

variable {h h' : Hub} {a : Answers} {clean quiet : Prop}

/-! ### Commands -/

/-- A command to stop the system. -/
def Cmd.isStop : Cmd → Bool
  | .reboot | .shutdown | .poweroff => true
  | _ => false

/-- The commands about services. -/
theorem dispatch_spec {conn : ℕ} {cmd : Cmd} (hn : h.view.Neat) (hstop : cmd.isStop = false)
    (hc : clean → ∀ r ∈ cmd.request, ¬h.nameless a r.1.chars r.2)
    (hq : quiet → ∀ r ∈ cmd.request, ¬h.startable a r.1.chars r.2) :
    Spec clean quiet h (h.dispatch a conn cmd).2 := by
  cases cmd with
  | list => exact .refl
  | status name => exact named_spec fun _ _ => report_spec
  | getbuf name => exact named_spec fun _ _ => report_spec
  | flush name => exact named_spec fun _ _ => flushProc_spec
  | remove name => exact named_spec fun _ _ => removeProc_spec
  | stop name => exact named_spec fun _ _ => cmdStop_spec
  | sighup name => exact named_spec fun _ _ => killProc_spec
  | reboot => cases hstop
  | shutdown => cases hstop
  | poweroff => cases hstop
  | start name =>
    refine named_spec ?_
    rintro n rfl
    exact startProc_spec hn rfl (fun hcl => hc hcl _ rfl) fun hqq => hq hqq _ rfl
  | spawn name =>
    refine named_spec ?_
    rintro n rfl
    exact startProc_spec hn rfl (fun hcl => hc hcl _ rfl) fun hqq => hq hqq _ rfl
  | stout name =>
    refine named_spec ?_
    rintro n rfl
    exact startProc_spec hn rfl (fun hcl => hc hcl _ rfl) fun hqq => hq hqq _ rfl
  | unknown => exact .refl

/-- A stop command is one of `command_stop`. -/
theorem dispatch_stop {conn : ℕ} {cmd : Cmd} (hstop : cmd.isStop = true) :
    ∃ mode, (h.dispatch a conn cmd).2 = (h.commandStop a (some mode)).2 := by
  cases cmd with
  | reboot => exact ⟨_, rfl⟩
  | shutdown => exact ⟨_, rfl⟩
  | poweroff => exact ⟨_, rfl⟩
  | _ => cases hstop

/-! ### Stopping everything -/

/-- A number of slots are marked. -/
theorem marks_moves {f : Slot → Slot}
    (hf : ∀ s, f s = s ∨ (s.Live ∧ f s = { s with flags := { s.flags with killed := true } }))
    (v : View) : Moves clean quiet v { v with slots := v.slots.map f } := by
  have hgen : ∀ l pre : List Slot,
      Moves clean quiet { v with slots := pre ++ l } { v with slots := pre ++ l.map f } := by
    intro l
    induction l with
    | nil => exact fun pre => .refl
    | cons s l ih =>
      intro pre
      have hrest := ih (pre ++ [f s])
      rw [List.append_assoc, List.append_assoc] at hrest
      refine Relation.ReflTransGen.trans ?_ hrest
      rcases hf s with hs | ⟨hlive, hs⟩
      · rw [hs]
        exact .refl
      · refine .single ?_
        have hmark : Move clean quiet { v with slots := pre ++ s :: l }
            (View.put { v with slots := pre ++ s :: l } pre.length
              { s with flags := { s.flags with killed := true } }) := .mark (by simp) hlive
        rw [hs]
        simpa [View.put] using hmark
  simpa using hgen v.slots []

/-- What `stop_all_procs` does to a slot. -/
def Hub.stopSlot (h : Hub) (a : Answers) (s : Slot) : Slot :=
  if s.flags ≠ {} ∧ s.Live ∧ h.kill a s.pid then
    { s with flags := { s.flags with killed := true } }
  else s

lemma stopOne_slot (pc : Proc) : (h.stopOne a pc).slot = h.stopSlot a pc.slot := by
  rw [stopOne, stopSlot]
  by_cases hs : (pc.signalable && h.kill a pc.pid) = true
  · have hs' : pc.slot.flags ≠ {} ∧ pc.slot.Live ∧ h.kill a pc.slot.pid := by
      simpa [Proc.signalable, Slot.Live, Proc.slot, and_assoc] using hs
    rw [if_pos hs, if_pos hs']
    rfl
  · have hs' : ¬(pc.slot.flags ≠ {} ∧ pc.slot.Live ∧ h.kill a pc.slot.pid) := fun hs' =>
      hs (by simpa [Proc.signalable, Slot.Live, Proc.slot, and_assoc] using hs')
    rw [if_neg hs, if_neg hs']

/-- The view after `stop_all_procs`, but for the script. -/
theorem stopped_view :
    view { h with procs := h.procs.map (h.stopOne a) } =
      { h.view with slots := h.view.slots.map (h.stopSlot a) } := by
  simp [view, stopOne_slot, Function.comp_def]

lemma stopConShell_moves : Moves clean quiet h.view (h.stopConShell a).view := by
  rw [stopConShell]
  split_ifs with hscr hkill
  · exact .refl
  · exact .refl
  · refine .single (.forget (v := h.view) fun hmem => hkill ?_)
    have hmem' : h.scrpid.toNat ∈ h.kids.map Kid.pid := hmem
    simp [kill, hmem']

lemma commandStop_moves {mode : Option String} :
    Moves clean quiet h.view (h.commandStop a mode).2.view := by
  rw [commandStop]
  split_ifs
  · exact .refl
  · set h0 := { h with state := .stopping, rbmode := mode, sigcnt := 0 }.did .accepted with hh0
    have hmarks : Moves clean quiet h.view
        (view { h0 with procs := h0.procs.map (h0.stopOne a) }) := by
      rw [stopped_view]
      refine marks_moves (fun s => ?_) h.view
      rw [stopSlot]
      split_ifs with hs
      · exact .inr ⟨hs.2.1, rfl⟩
      · exact .inl rfl
    exact hmarks.trans stopConShell_moves

/-! ### Scripts -/

lemma spawnScript_moves {r : ℤ} (hs : h.spawnScript a = .ok (r, h')) :
    Moves clean quiet h.view h'.view := by
  rw [spawnScript] at hs
  split_ifs at hs with hacc hbusy
  · cases hs
    exact .refl
  · cases hs
    exact .refl
  · split at hs
    · cases hs
    · cases hs
      exact .single (.script (by simpa [view] using hbusy) (freshPid_fresh _ _))

lemma spawnShutdown_moves (hs : h.spawnShutdown a = .ok h') : Moves clean quiet h.view h'.view := by
  obtain ⟨⟨r, h1⟩, hscript, hrest⟩ := ok_of_bind hs
  dsimp only at hrest
  split at hrest
  · cases hrest
    exact spawnScript_moves (h := { h with state := .shutdown, ctlfd := false }.did .shutdown)
      hscript
  · cases hrest

/-- The end of the script. -/
theorem scriptExit_moves {pid status : ℕ} (hpid : h.scrpid = pid)
    (hs : (h.bereft pid).scriptExit a status = .ok h') : Moves clean quiet h.view h'.view := by
  have hended : Moves clean quiet h.view
      (view { h.bereft pid with scrpid := 0, state := .unknown }) := .single (.ended hpid)
  refine hended.trans ?_
  rw [scriptExit] at hs
  split at hs
  · rw [startupDone] at hs
    split_ifs at hs
    obtain ⟨⟨r, h1⟩, hscript, hrest⟩ := ok_of_bind hs
    cases hrest
    exact spawnScript_moves (h := { h.bereft pid with scrpid := 0, state := .running }) hscript
  · cases hs
  · rw [shellExit] at hs
    dsimp only at hs
    split_ifs at hs
    cases hs
    exact commandStop_moves
  · cases hs
    exact .refl

/-! ### All events -/

/-- The slot that `find_by_pid` finds has the process. -/
theorem findByPid_some {pid i : ℕ} (hfind : h.findByPid pid = some i) :
    ∃ pc, h.procs[i]? = some pc ∧ pc.slot.Live ∧ pc.pid = pid := by
  rw [findByPid] at hfind
  split at hfind
  · cases hfind
  · rename_i hzero
    obtain ⟨hlt, hp, -⟩ := List.findIdx?_eq_some_iff_getElem.mp hfind
    have hp' : h.procs[i].flags.status = false ∧ h.procs[i].pid = pid := by simpa using hp
    exact ⟨h.procs[i], List.getElem?_eq_getElem hlt,
      ⟨fun h0 => hzero (hp'.2.symm.trans h0), hp'.1⟩, hp'.2⟩

lemma findByPid_none {pid : ℕ} (hfind : h.findByPid pid = none) :
    ∀ s ∈ h.view.slots, s.Live → s.pid ≠ pid := by
  intro s hs hlive heq
  rw [findByPid, if_neg (by rw [← heq]; exact hlive.1)] at hfind
  obtain ⟨pc, hpc, rfl⟩ := List.mem_map.mp hs
  have hno : pc.flags.status = false → ¬pc.pid = pid := by
    simpa using List.findIdx?_eq_none_iff.mp hfind pc hpc
  exact hno hlive.2 heq

lemma reap_moves {pid status : ℕ} (hn : h.view.Neat)
    (hs : (h.bereft pid).reapChild a pid status = .ok h')
    (hc : clean → ∀ i ∈ h.findByPid pid, h.scrpid ≠ pid →
      ¬(h.respawns a i ∧ a.forkless (h.proc i).flags.pass))
    (hq : quiet → ∀ i ∈ h.findByPid pid, h.scrpid ≠ pid →
      ¬(h.respawns a i ∧ a.runs (h.proc i).flags.pass)) :
    Moves clean quiet h.view h'.view := by
  rw [reapChild, show (h.bereft pid).scrpid = h.scrpid from rfl] at hs
  by_cases hscr : h.scrpid = pid
  · rw [if_pos hscr] at hs
    exact scriptExit_moves hscr hs
  · rw [if_neg hscr] at hs
    rcases hfind : h.findByPid pid with _ | i
    · rw [show (h.bereft pid).findByPid pid = none from hfind] at hs
      cases hs
      exact .single (.orphan hscr (findByPid_none hfind))
    · rw [show (h.bereft pid).findByPid pid = some i from hfind] at hs
      cases hs
      obtain ⟨pc, hi, hlive, rfl⟩ := findByPid_some hfind
      have hproc := proc_of_getElem? hi
      refine (procDied_spec hi hlive hscr hn (fun hcl => ?_) fun hqq => ?_).moves
      · have := hc hcl i hfind hscr
        rwa [hproc] at this
      · have := hq hqq i hfind hscr
        rwa [hproc] at this

/-- A script that is started changes little. -/
theorem spawnScript_frame {r : ℤ} (hs : h.spawnScript a = .ok (r, h')) :
    h'.frame = h.frame ∧ h'.log = h.log := by
  rw [spawnScript] at hs
  split_ifs at hs
  · obtain ⟨-, rfl⟩ := Prod.mk.inj (Except.ok.inj hs)
    exact ⟨rfl, rfl⟩
  · obtain ⟨-, rfl⟩ := Prod.mk.inj (Except.ok.inj hs)
    exact ⟨rfl, rfl⟩
  · split at hs
    · cases hs
    · obtain ⟨-, rfl⟩ := Prod.mk.inj (Except.ok.inj hs)
      exact ⟨rfl, rfl⟩

/-- `spawn_shutdown` leaves a record. -/
theorem spawnShutdown_log (hs : h.spawnShutdown a = .ok h') : h'.log = h.log ++ [.shutdown] := by
  obtain ⟨⟨r, h1⟩, hscript, hrest⟩ := ok_of_bind hs
  dsimp only at hrest
  split at hrest
  · cases hrest
    exact (spawnScript_frame hscript).2
  · cases hrest

lemma forceShutdown_log (hs : h.forceShutdown a = .ok h') :
    h'.log = h.log ++ [.forced, .shutdown] := by
  rw [forceShutdown] at hs
  rw [spawnShutdown_log hs]
  simp [did]

/-- What an alarm does. -/
theorem handleAlarm_cases (hs : h.handleAlarm a = .ok h') :
    (h.state ≠ .stopping ∧ h' = h) ∨
    (h.state = .stopping ∧ h.sigcnt < 3 ∧ h' = { h with sigcnt := h.sigcnt + 1, alarm := true }) ∨
    (h.state = .stopping ∧ 3 ≤ h.sigcnt ∧ { h with sigcnt := 0 }.forceShutdown a = .ok h') := by
  unfold handleAlarm at hs
  by_cases hst : h.state = .stopping
  swap
  · rw [if_pos hst] at hs
    exact .inl ⟨hst, (Except.ok.inj hs).symm⟩
  rw [if_neg (not_not.mpr hst)] at hs
  dsimp only at hs
  split_ifs at hs with hcnt
  · exact .inr (.inl ⟨hst, hcnt, (Except.ok.inj hs).symm⟩)
  · exact .inr (.inr ⟨hst, by omega, hs⟩)

/-- **Every event makes moves**, unless it forces the shutdown. -/
theorem handle_moves {e : Event} (hn : h.view.Neat) (hok : h.handle e = .ok h')
    (hc : clean → h.Careful e) (hq : quiet → h.Still e) :
    Moves clean quiet h.view h'.view ∨
      ∃ (g : Hub) (a : Answers), g.view = h.view ∧ g.forceShutdown a = .ok h' := by
  cases e with
  | command conn cmd a =>
    cases hok
    have hdisp : Moves clean quiet h.view (h.dispatch a conn cmd).2.view := by
      rcases hstop : cmd.isStop with _ | _
      · exact (dispatch_spec hn hstop hc hq).moves
      · obtain ⟨mode, hmode⟩ : ∃ mode, (h.dispatch a conn cmd).2 =
          (h.commandStop a (some mode)).2 :=
          dispatch_stop hstop
        rw [hmode]
        exact commandStop_moves
    rw [checkConn]
    split_ifs
    · exact .inl hdisp
    · exact .inl hdisp
  | connect =>
    cases hok
    rw [checkSocket]
    split
    · exact .inl .refl
    · split_ifs <;> exact .inl .refl
  | hangup conn =>
    cases hok
    exact .inl closeConn_spec.moves
  | output slot mapped got =>
    cases hok
    exact .inl checkProc_spec.moves
  | chld =>
    cases hok
    exact .inl .refl
  | reap pid status a => exact .inl (reap_moves hn hok hc hq)
  | settle a =>
    rw [handle, settle] at hok
    split_ifs at hok
    · cases hok
      exact .inl .refl
    · exact .inl (spawnShutdown_moves (h := { h with reaping := false }) hok)
  | signal mode a =>
    rw [handle, signalStop] at hok
    split at hok
    · exact .inr ⟨h, a, rfl, hok⟩
    · cases hok
    · cases hok
      exact .inl commandStop_moves
  | alrm a =>
    rcases handleAlarm_cases hok with ⟨-, rfl⟩ | ⟨-, -, rfl⟩ | ⟨-, -, hforce⟩
    · exact .inl .refl
    · exact .inl .refl
    · exact .inr ⟨{ h with alarm := false, sigcnt := 0 }, a, rfl, hforce⟩

end Minibase.Svchub
