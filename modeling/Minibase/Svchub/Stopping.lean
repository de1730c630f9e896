import Minibase.Svchub.Table

/-!
# The way to the shutdown script

What the events do about the shutdown is a `Svchub.Turn`. From the time `command_stop` has agreed
until the shutdown script is called for the hub has to be in the state `S_STOPPING`, for only then
an alarm is taken notice of. But `script_exit` clears the state whenever the script ends, and that
may well be the console shell that `command_stop` has just sent a signal to. In the runs in which
no script ends in between (`Svchub.Hub.KeepsScript`) the request is not lost:
`Svchub.stop_not_lost`.
-/

namespace Minibase.Svchub

open List Option Hub

variable {h h' : Hub} {a : Answers} {clean quiet : Prop}

/-- What an event can do about the shutdown. -/
inductive Turn (quiet : Prop) (h h' : Hub) : Event → Prop
  /-- Nothing. -/
  | aside {e : Event} : (∀ a, e ≠ .alrm a) → h'.state = h.state → h'.sigcnt = h.sigcnt →
      h'.alarm = h.alarm → (∀ x ∈ h'.log, ¬quiet ∧ ∃ i, x = .started i) → Turn quiet h h' e
  /-- `command_stop` agrees. -/
  | agree {e : Event} : h.state ≠ .stopping → h'.state = .stopping → h'.sigcnt = 0 →
      h'.alarm = true → h'.log = [.accepted] →
      (∃ (g : Hub) (a : Answers) (mode : Option String), g.procs = h.procs ∧ g.log = [] ∧
        h'.view = (g.commandStop a mode).2.view ∧ .accepted ∈ (g.commandStop a mode).2.log) →
      Turn quiet h h' e
  /-- `spawn_shutdown` is called. -/
  | shutdown {e : Event} : .shutdown ∈ h'.log → .accepted ∉ h'.log → (∀ i, .started i ∉ h'.log) →
      Turn quiet h h' e
  /-- Another alarm is waited for. -/
  | wait {a : Answers} : h.sigcnt < 3 → h'.state = h.state → h'.sigcnt = h.sigcnt + 1 →
      h'.alarm = true → h'.log = [] → Turn quiet h h' (.alrm a)
  /-- An alarm is ignored. -/
  | ignore {a : Answers} : h.state ≠ .stopping → h'.log = [] → Turn quiet h h' (.alrm a)
  /-- A script ends. -/
  | script {pid status : ℕ} {a : Answers} : h.scrpid = pid → h'.log = [] →
      Turn quiet h h' (.reap pid status a)

/-! ### Stop requests -/

lemma stopConShell_frame : (h.stopConShell a).frame = h.frame ∧ (h.stopConShell a).log = h.log := by
  rw [stopConShell]
  split_ifs <;> exact ⟨rfl, rfl⟩

/-- **What `command_stop` does**: it says that this has been asked for before, or it agrees. -/
theorem commandStop_cases (mode : Option String) :
    ((h.state = .stopping ∨ h.state = .shutdown) ∧ h.commandStop a mode = (-EALREADY, h)) ∨
    (h.state ≠ .stopping ∧ (h.commandStop a mode).2.state = .stopping ∧
      (h.commandStop a mode).2.sigcnt = 0 ∧ (h.commandStop a mode).2.alarm = true ∧
      (h.commandStop a mode).2.log = h.log ++ [.accepted]) := by
  rw [commandStop]
  split_ifs with hst
  · exact .inl ⟨hst, rfl⟩
  · set h0 := { h with state := .stopping, rbmode := mode, sigcnt := 0 }.did .accepted with hh0
    obtain ⟨hframe, hlog⟩ :=
      stopConShell_frame (h := { h0 with procs := h0.procs.map (h0.stopOne a) }) (a := a)
    refine .inr ⟨fun hs => hst (.inl hs), ?_, ?_, rfl, ?_⟩
    · exact congrArg (fun f => f.1) hframe
    · exact congrArg (fun f => f.2.2.1) hframe
    · exact hlog

variable {e : Event}

lemma commandStop_turn {mode : Option String} (he : ∀ a, e ≠ .alrm a)
    (hlog : h.log = []) : Turn quiet h (h.commandStop a mode).2 e := by
  rcases commandStop_cases (h := h) (a := a) mode with ⟨-, heq⟩ | ⟨hst, hst', hcnt, halarm, hlog'⟩
  · rw [heq]
    exact .aside he rfl rfl rfl (by simp [hlog])
  · have hacc : (h.commandStop a mode).2.log = [.accepted] := by
      rw [hlog', hlog]
      rfl
    exact .agree hst hst' hcnt halarm hacc ⟨h, a, mode, rfl, hlog, rfl, by simp [hacc]⟩

/-- The changes of the table have nothing to do with the shutdown. -/
theorem Spec.turn (hs : Spec clean quiet h h') (he : ∀ a, e ≠ .alrm a)
    (hlog : h.log = []) : Turn quiet h h' e := by
  refine .aside he (congrArg (fun f => f.1) hs.frame) (congrArg (fun f => f.2.2.1) hs.frame)
    (congrArg (fun f => f.2.2.2.2.1) hs.frame) fun x hx => ?_
  rcases hs.log x hx with hx | hx
  · rw [hlog] at hx
    cases hx
  · exact hx

lemma spawnShutdown_turn {g : Hub} (hlog : h.log = [])
    (hs : h.spawnShutdown a = .ok h') : Turn quiet g h' e := by
  have hl := spawnShutdown_log hs
  rw [hlog] at hl
  exact .shutdown (by simp [hl]) (by simp [hl]) (by simp [hl])

lemma forceShutdown_turn {g : Hub} (hlog : h.log = [])
    (hs : h.forceShutdown a = .ok h') : Turn quiet g h' e := by
  have hl := forceShutdown_log hs
  rw [hlog] at hl
  exact .shutdown (by simp [hl]) (by simp [hl]) (by simp [hl])

/-! ### Scripts -/

/-- The end of the script. -/
theorem scriptExit_turn {pid status : ℕ} (hlog : h.log = []) (hpid : h.scrpid = pid)
    (hs : (h.bereft pid).scriptExit a status = .ok h') : Turn quiet h h' (.reap pid status a) := by
  rw [scriptExit] at hs
  split at hs
  · rw [startupDone] at hs
    split_ifs at hs
    obtain ⟨⟨r, h1⟩, hscript, hrest⟩ := ok_of_bind hs
    cases hrest
    exact .script hpid ((spawnScript_frame hscript).2.trans hlog)
  · cases hs
  · rename_i hrun
    rw [shellExit] at hs
    dsimp only at hs
    split_ifs at hs
    cases hs
    -- the state is cleared first, so `command_stop` agrees here
    set g : Hub := { h.bereft pid with scrpid := 0, state := .unknown } with hg
    rcases commandStop_cases (h := g) (a := a) none with
      ⟨hst, -⟩ | ⟨-, hst', hcnt, halarm, hlog'⟩
    · rcases hst with hst | hst <;> cases hst
    · have hglog : g.log = [] := hlog
      have hacc : (g.commandStop a none).2.log = [.accepted] := by
        rw [hlog', hglog]
        rfl
      refine .agree ?_ hst' hcnt halarm hacc ⟨g, a, none, rfl, hglog, rfl, by simp [hacc]⟩
      rw [show h.state = .running from hrun]
      exact fun h => by cases h
  · cases hs
    exact .script hpid hlog

/-! ### All events -/

lemma reap_turn {pid status : ℕ} (hn : h.view.Neat) (hlog : h.log = [])
    (hs : (h.bereft pid).reapChild a pid status = .ok h')
    (hq : quiet → h.Still (.reap pid status a)) : Turn quiet h h' (.reap pid status a) := by
  rw [reapChild, show (h.bereft pid).scrpid = h.scrpid from rfl] at hs
  by_cases hscr : h.scrpid = pid
  · rw [if_pos hscr] at hs
    exact scriptExit_turn hlog hscr hs
  · rw [if_neg hscr] at hs
    rcases hfind : h.findByPid pid with _ | i
    · rw [show (h.bereft pid).findByPid pid = none from hfind] at hs
      cases hs
      exact .aside (by rintro _ ⟨⟩) rfl rfl rfl (by simp [bereft, hlog])
    · rw [show (h.bereft pid).findByPid pid = some i from hfind] at hs
      cases hs
      obtain ⟨pc, hi, hlive, rfl⟩ := findByPid_some hfind
      have hspec : Spec False quiet h ((h.bereft pc.pid).procDied a i status) := by
        refine procDied_spec hi hlive hscr hn False.elim fun hqq => ?_
        have := hq hqq i hfind hscr
        rwa [proc_of_getElem? hi] at this
      exact hspec.turn (by rintro _ ⟨⟩) hlog

/-- **Every event is one of the turns.** -/
theorem handle_turn (hn : h.view.Neat) (hlog : h.log = []) (hok : h.handle e = .ok h')
    (hq : quiet → h.Still e) : Turn quiet h h' e := by
  cases e with
  | command conn cmd a =>
    cases hok
    have hdisp : Turn quiet h (h.dispatch a conn cmd).2 (.command conn cmd a) := by
      rcases hstop : cmd.isStop with _ | _
      · have hspec : Spec False quiet h (h.dispatch a conn cmd).2 :=
          dispatch_spec hn hstop False.elim hq
        exact hspec.turn (by rintro _ ⟨⟩) hlog
      · obtain ⟨mode, hmode⟩ : ∃ mode, (h.dispatch a conn cmd).2 =
          (h.commandStop a (some mode)).2 :=
          dispatch_stop hstop
        rw [hmode]
        exact commandStop_turn (by rintro _ ⟨⟩) hlog
    rw [checkConn]
    split_ifs
    · cases hdisp with
      | aside he h1 h2 h3 h4 => exact .aside he h1 h2 h3 h4
      | agree h1 h2 h3 h4 h5 h6 => exact .agree h1 h2 h3 h4 h5 h6
      | shutdown h1 h2 h3 => exact .shutdown h1 h2 h3
    · exact hdisp
  | connect =>
    cases hok
    rw [checkSocket]
    split
    · exact .aside (by rintro _ ⟨⟩) rfl rfl rfl (by simp [hlog])
    · split_ifs <;> exact .aside (by rintro _ ⟨⟩) rfl rfl rfl (by simp [hlog])
  | hangup conn =>
    cases hok
    have hspec : Spec False quiet h (h.closeConn conn) := closeConn_spec
    exact hspec.turn (by rintro _ ⟨⟩) hlog
  | output slot mapped got =>
    cases hok
    have hspec : Spec False quiet h (h.checkProc slot mapped got) := checkProc_spec
    exact hspec.turn (by rintro _ ⟨⟩) hlog
  | chld =>
    cases hok
    exact .aside (by rintro _ ⟨⟩) rfl rfl rfl (by simp [hlog])
  | reap pid status a => exact reap_turn hn hlog hok hq
  | settle a =>
    rw [handle, settle] at hok
    split_ifs at hok
    · cases hok
      exact .aside (by rintro _ ⟨⟩) rfl rfl rfl (by simp [hlog])
    · exact spawnShutdown_turn (h := { h with reaping := false }) hlog hok
  | signal mode a =>
    rw [handle, signalStop] at hok
    split at hok
    · exact forceShutdown_turn hlog hok
    · cases hok
    · cases hok
      exact commandStop_turn (by rintro _ ⟨⟩) hlog
  | alrm a =>
    rcases handleAlarm_cases hok with ⟨hst, rfl⟩ | ⟨-, hcnt, rfl⟩ | ⟨-, -, hforce⟩
    · exact .ignore hst hlog
    · exact .wait hcnt rfl rfl rfl hlog
    · exact forceShutdown_turn (h := { h with alarm := false, sigcnt := 0 }) hlog hforce

/-! ### Empty slots stay empty -/

section Neat

variable {v v' : View}

lemma View.Neat.put (hn : v.Neat) {i : ℕ} {s : Slot} (hs : s.flags.inUse ∨ s = {}) :
    (v.put i s).Neat := by
  intro t ht
  rcases mem_or_eq_of_mem_set ht with ht | rfl
  · exact hn t ht
  · exact hs

lemma View.Neat.inUse_of_live (hn : v.Neat) {i : ℕ} {s : Slot} (hi : v.slots[i]? = some s)
    (hlive : s.Live) : s.flags.inUse := by
  rcases hn s (mem_of_getElem? hi) with huse | rfl
  · exact huse
  · exact absurd rfl hlive.1

lemma View.Neat.move (hn : v.Neat) (hm : Move clean quiet v v') : v'.Neat := by
  cases hm with
  | grow =>
    intro t ht
    rcases mem_append.mp ht with ht | ht
    · exact hn t ht
    · exact .inr (mem_singleton.mp ht)
  | mark hi hlive =>
    have huse := hn.inUse_of_live hi hlive
    exact hn.put (.inl huse)
  | clear hi hdead =>
    refine hn.put ?_
    rcases hn _ (mem_of_getElem? hi) with huse | rfl
    · exact .inl huse
    · exact .inr rfl
  | wipe hi hdead => exact hn.put (.inr rfl)
  | claim => exact hn.put (.inl rfl)
  | @spawn i s pid _ _ _ huse =>
    have hput : (v.put i { s with pid := pid }).Neat := hn.put (.inl huse)
    exact hput
  | @reap i s s' hi hlive _ _ hslot =>
    have hput : (v.put i s').Neat := by
      refine hn.put (hslot.symm.imp_left fun h => ?_)
      rw [h.2]
      exact hn.inUse_of_live hi hlive
    exact hput
  | lose => exact hn
  | script => exact hn
  | ended => exact hn
  | forget => exact hn
  | orphan => exact hn

lemma View.Neat.moves (hn : v.Neat) (hm : Moves clean quiet v v') : v'.Neat := by
  induction hm with
  | refl => exact hn
  | tail _ hstep ih => exact ih.move hstep

end Neat

/-- `force_shutdown`, before the script is called for. -/
def Hub.disowned (h : Hub) : Hub :=
  { h with procs := h.procs.map forceOne, scrpid := if 0 < h.scrpid then -1 else h.scrpid }.did
    .forced

/-- No process is left that the hub knows of. -/
theorem disowned_slots (hn : h.view.Neat) {s : Slot} (hs : s ∈ h.disowned.view.slots) :
    ¬s.Live ∧ (s.flags.inUse ∨ s = {}) := by
  have hs' : s ∈ (h.procs.map forceOne).map Proc.slot := hs
  rw [List.map_map] at hs'
  obtain ⟨pc, hpc, rfl⟩ := List.mem_map.mp hs'
  have hold := hn pc.slot (List.mem_map.mpr ⟨pc, hpc, rfl⟩)
  rw [Function.comp_apply, forceOne]
  split_ifs with hsig
  · refine ⟨fun hl => hl.1 rfl, hold.imp_right fun hzero => ?_⟩
    have hpid : pc.pid = 0 := congrArg Slot.pid hzero
    simp [Proc.signalable, hpid] at hsig
  · refine ⟨fun hl => hsig ?_, hold⟩
    have huse : pc.slot.flags.inUse := by
      rcases hold with huse | hzero
      · exact huse
      · exact absurd (congrArg Slot.pid hzero) hl.1
    have hne : pc.flags ≠ {} := fun hf => by simp [Proc.slot, hf] at huse
    have hl' : pc.pid ≠ 0 ∧ pc.flags.status = false := hl
    simpa [Proc.signalable, hne] using hl'

lemma forceShutdown_moves (hs : h.forceShutdown a = .ok h') :
    Moves clean quiet h.disowned.view h'.view := spawnShutdown_moves hs

lemma disowned_neat (hn : h.view.Neat) : h.disowned.view.Neat :=
  fun _ hs => (disowned_slots hn hs).2

lemma handle_neat (hn : h.view.Neat) (hok : h.handle e = .ok h') : h'.view.Neat := by
  rcases handle_moves hn hok (False.elim : False → _) (False.elim : False → _) with
    hm | ⟨g, a, hg, hforce⟩
  · exact hn.moves hm
  · have hm : Moves False False g.disowned.view h'.view := forceShutdown_moves hforce
    exact (disowned_neat (by rwa [hg])).moves hm

/-! ### Runs -/

/-- An event that is not the end of a script on the way to the shutdown. -/
def Hub.KeepsScript (h : Hub) : Event → Prop
  | .reap pid _ _ => h.state = .stopping → h.scrpid ≠ pid
  | .command _ _ _ | .connect | .hangup _ | .output _ _ _ | .chld | .settle _ | .signal _ _
  | .alrm _ => True

instance (h : Hub) : ∀ e, Decidable (h.KeepsScript e)
  | .reap _ _ _ => inferInstanceAs (Decidable (_ → _))
  | .command _ _ _ | .connect | .hangup _ | .output _ _ _ | .chld | .settle _ | .signal _ _
  | .alrm _ => inferInstanceAs (Decidable True)

/-- The hub on its way to the shutdown script, with the alarms it has had. -/
structure World.Awaits (w : World) (n : ℕ) : Prop where
  state : w.hub.state = .stopping
  alarm : w.hub.alarm = true
  sigcnt : w.hub.sigcnt = n
  le : n ≤ 3

/-- The request to stop is not lost. -/
structure World.OnCourse (w : World) : Prop where
  neat : w.hub.view.Neat
  awaits : ∀ n, w.waiting = some n → w.Awaits n

lemma boot_onCourse {w : World} (hw : Boot w) : w.OnCourse := by
  refine ⟨(boot_sound hw).names.neat, fun n hn => ?_⟩
  obtain ⟨pid, -, rfl⟩ := hw
  cases hn

variable {w w' : World} {e : Event}

/-- The history of what an event does. -/
theorem Turn.awaits (hw : ∀ n, w.waiting = some n → w.Awaits n)
    (hkeep : w.hub.KeepsScript e) (ht : Turn quiet { w.hub with log := [] } h e) :
    ∀ n, (w.after e h).waiting = some n → (w.after e h).Awaits n := by
  intro n hn
  simp only [World.after] at hn
  cases ht with
  | aside he hst hcnt halarm hlog =>
    have hno : ∀ x ∈ h.log, x ≠ .shutdown ∧ x ≠ .accepted := by
      intro x hx
      obtain ⟨-, i, rfl⟩ := hlog x hx
      exact ⟨by rintro ⟨⟩, by rintro ⟨⟩⟩
    have hn' : w.waiting = some n := by
      rw [if_neg fun hx => (hno _ hx).1 rfl, if_neg fun hx => (hno _ hx).2 rfl] at hn
      cases e with
      | alrm a => exact absurd rfl (he a)
      | _ => exact hn
    obtain ⟨h1, h2, h3, h4⟩ := hw n hn'
    exact ⟨hst.trans h1, halarm.trans h2, hcnt.trans h3, h4⟩
  | agree _ hst hcnt halarm hlog =>
    rw [if_neg (by simp [hlog]), if_pos (by simp [hlog])] at hn
    cases hn
    exact ⟨hst, halarm, hcnt, Nat.zero_le _⟩
  | shutdown hlog =>
    rw [if_pos hlog] at hn
    cases hn
  | wait hlt hst hcnt halarm hlog =>
    rw [if_neg (by simp [hlog]), if_neg (by simp [hlog])] at hn
    obtain ⟨m, hm, rfl⟩ := map_eq_some_iff.mp hn
    obtain ⟨h1, -, h3, -⟩ := hw m hm
    have hm3 : w.hub.sigcnt < 3 := hlt
    exact ⟨hst.trans h1, halarm, hcnt.trans (congrArg (· + 1) h3), by omega⟩
  | ignore hst hlog =>
    rw [if_neg (by simp [hlog]), if_neg (by simp [hlog])] at hn
    obtain ⟨m, hm, rfl⟩ := map_eq_some_iff.mp hn
    exact absurd (hw m hm).state hst
  | script hpid hlog =>
    rw [if_neg (by simp [hlog]), if_neg (by simp [hlog])] at hn
    exact absurd hpid (hkeep (hw n hn).state)

lemma step_onCourse (hw : w.OnCourse) (hkeep : w.hub.KeepsScript e)
    (hstep : step w e = some w') : w'.OnCourse := by
  obtain ⟨-, h', hh, rfl⟩ := step_eq_some hstep
  have hn : view { w.hub with log := [] } |>.Neat := hw.neat
  have ht : Turn False { w.hub with log := [] } h' e := handle_turn hn rfl hh False.elim
  exact ⟨handle_neat hn hh, ht.awaits hw.awaits hkeep⟩

/-- While the hub waits, it does not agree to stop once more. -/
theorem Awaits.not_accepted {n : ℕ} (hn : w.hub.view.Neat) (hw : w.Awaits n)
    (hstep : step w e = some w') : .accepted ∉ w'.hub.log := by
  obtain ⟨-, h', hh, rfl⟩ := step_eq_some hstep
  have ht : Turn False { w.hub with log := [] } h' e := handle_turn hn rfl hh False.elim
  show .accepted ∉ h'.log
  cases ht with
  | aside _ _ _ _ hlog =>
    intro hx
    obtain ⟨-, i, hi⟩ := hlog _ hx
    cases hi
  | agree hst => exact absurd hw.state hst
  | shutdown _ hno => exact hno
  | wait _ _ _ _ hlog => simp [hlog]
  | ignore _ hlog => simp [hlog]
  | script _ hlog => simp [hlog]

/-- What should hold from the time `command_stop` agrees until the shutdown script is called for,
when there have been so many alarms. -/
structure World.Held (w : World) (n : ℕ) : Prop where
  state : w.hub.state = .stopping
  alarm : w.hub.alarm = true
  /-- No other request is agreed to. -/
  again : ∀ e w', step w e = some w' → .accepted ∉ w'.hub.log
  /-- The fourth alarm has `force_shutdown` called. -/
  le : n ≤ 3
  force : n = 3 → ∀ a, ∃ g : Hub, w.hub.handle (.alrm a) = g.forceShutdown a

/-- **A request to stop is not lost**, in every run in which no script ends on the way to the
shutdown. -/
theorem stop_not_lost {n : ℕ} (h : Reach Boot step (fun w e => w.hub.KeepsScript e) w)
    (hw : w.waiting = some n) : w.Held n := by
  have hinv : w.OnCourse := h.invariant (fun _ => boot_onCourse) fun _ _ _ => step_onCourse
  have haw := hinv.awaits n hw
  refine ⟨haw.state, haw.alarm, fun e w' => Awaits.not_accepted hinv.neat haw, haw.le, ?_⟩
  rintro rfl a
  refine ⟨{ w.hub with alarm := false, sigcnt := 0 }, ?_⟩
  rw [handle, handleAlarm, if_neg (not_not.mpr haw.state)]
  rw [if_neg (by rw [haw.sigcnt]; decide)]

/-- The startup script starts a service and ends, the system is to be turned off, and then come
more events. -/
def sampleStop (rest : List Event) : List Event :=
  [.connect, .command 0 (.start (some ⟨[97], nonul_a⟩)) { fork := some 5, time := 100 },
    .chld, .reap 1 0 { fork := some 2 }, .settle {}, .command 0 .poweroff {}] ++ rest

/-- The service does not end, and three alarms pass. -/
theorem stop_not_lost_sample : ∃ w : World, w.hub.nalive = 1 ∧ w.waiting = some 3 ∧ w.Held 3 := by
  have hrun : ((sampleStop [.alrm {}, .alrm {}, .alrm {}]).foldlM
      (fun w e => if Hub.KeepsScript (World.hub w) e then step w e else none) sampleBoot).any
      (fun w => w.hub.nalive = 1 ∧ w.waiting = some 3) = true := by
    decide +kernel
  obtain ⟨w, hw, hrest⟩ := (any_eq_true _ _).mp hrun
  obtain ⟨hone, hwait⟩ := of_decide_eq_true hrest
  exact ⟨w, hone, hwait, stop_not_lost ((Reach.start sampleBoot_boot).foldlM hw) hwait⟩

/-- **A request to stop that is lost**: the service does not end, but the console shell does. -/
theorem stop_lost :
    ¬∀ w n, Reach Boot step (fun _ _ => True) w → w.waiting = some n → w.Held n := by
  intro h
  have hrun : ((sampleStop [.chld, .reap 2 15 {}, .settle {}]).foldlM
      (fun w e => if True then step w e else none) sampleBoot).any
      (fun w => w.waiting = some 0 ∧ w.hub.state = .unknown) = true := by
    decide +kernel
  obtain ⟨w, hw, hrest⟩ := (any_eq_true _ _).mp hrun
  obtain ⟨hwait, hstate⟩ := of_decide_eq_true hrest
  have hheld := h w 0 ((Reach.start sampleBoot_boot).foldlM hw) hwait
  rw [hheld.state] at hstate
  cases hstate

end Minibase.Svchub
