import Minibase.Svchub.Stopping

/-!
# Nothing is started on the way down

Once the hub has agreed to stop, services that end are not started again, since `stop_all_procs`
marks every one of them: a slot that has a process and no mark has one that is not a child of the
hub (`Svchub.View.Quelled`). But the connections that are open stay open, and `start_proc` does
not ask for the state of the hub. So `Svchub.none_started` is about the runs in which no client
asks for a service that could be started then.
-/

namespace Minibase.Svchub

open List Option

variable {h h' : Hub} {a : Answers} {clean quiet : Prop}

/-- A slot with a process has been marked, unless the end of that process will never be taken for
one of a service. -/
def View.Quelled (v : View) : Prop :=
  ∀ s ∈ v.slots, s.Live → s.flags.killed = false → ∀ k ∈ v.kids, k.pid = s.pid → v.scrpid = k.pid

namespace View

variable {v v' : View}

lemma Quelled.put (hv : v.Quelled) {i : ℕ} {s : Slot} (hs : s.Live → s.flags.killed = true) :
    (v.put i s).Quelled := by
  intro t ht hlive hkill
  rcases mem_or_eq_of_mem_set ht with ht | rfl
  · exact hv t ht hlive hkill
  · rw [hs hlive] at hkill
    cases hkill

lemma Quelled.bury (hv : v.Quelled) (pid : ℕ) : (v.bury pid).Quelled :=
  fun s hs hlive hkill k hk => hv s hs hlive hkill k (mem_filter.mp hk).1

/-- **A quiet move leaves nothing that would be started again.** -/
theorem Quelled.move (hv : v.Quelled) (hm : Move clean True v v') : v'.Quelled := by
  cases hm with
  | grow =>
    intro t ht hlive
    rcases mem_append.mp ht with ht | ht
    · exact hv t ht hlive
    · obtain rfl := mem_singleton.mp ht
      exact absurd rfl hlive.1
  | mark => exact hv.put fun _ => rfl
  | clear => exact hv.put fun hl => absurd rfl hl.1
  | wipe => exact hv.put fun hl => absurd rfl hl.1
  | claim => exact hv.put fun hl => absurd rfl hl.1
  | spawn _ _ _ _ _ hq => exact absurd trivial hq
  | @reap i s s' _ _ _ hdead _ =>
    have hput : (v.put i s').Quelled := hv.put fun hl => absurd hl hdead
    exact hput.bury s.pid
  | @lose i s => exact hv.bury s.pid
  | script hscr hfresh =>
    intro t ht hlive hkill k hk heq
    rcases mem_cons.mp hk with rfl | hk
    · rfl
    · -- there was no script, so the process was no child either
      have hold := hv t ht hlive hkill k hk heq
      have hpos := hlive.1
      omega
  | @ended pid hpid =>
    intro t ht hlive hkill k hk heq
    obtain ⟨hk, hne⟩ := mem_filter.mp hk
    have hold := hv t ht hlive hkill k hk heq
    have hne' : k.pid ≠ pid := of_decide_eq_true hne
    omega
  | forget hno =>
    intro t ht hlive hkill k hk heq
    have hold := hv t ht hlive hkill k hk heq
    refine absurd (mem_map.mpr ⟨k, hk, ?_⟩) hno
    omega
  | @orphan pid => exact hv.bury pid

lemma Quelled.moves (hv : v.Quelled) (hm : Moves clean True v v') : v'.Quelled := by
  induction hm with
  | refl => exact hv
  | tail _ hstep ih => exact ih.move hstep

end View

/-- The processes that `force_shutdown` gives up are nobody's. -/
theorem disowned_quelled (hn : h.view.Neat) : h.disowned.view.Quelled :=
  fun _ hs hlive => absurd hlive (disowned_slots hn hs).1

/-- The services that are there when `command_stop` agrees are marked. -/
theorem commandStop_quelled {mode : Option String} (hn : h.view.Neat)
    (hlog : .accepted ∉ h.log) (hacc : .accepted ∈ (h.commandStop a mode).2.log) :
    (h.commandStop a mode).2.view.Quelled := by
  rw [Hub.commandStop] at hacc ⊢
  split_ifs at hacc ⊢ with hst
  · exact absurd hacc hlog
  set h0 := { h with state := .stopping, rbmode := mode, sigcnt := 0 }.did .accepted with hh0
  have hq : (Hub.view { h0 with procs := h0.procs.map (h0.stopOne a) }).Quelled := by
    rw [stopped_view]
    intro s hs hlive hkill k hk heq
    obtain ⟨t, ht, rfl⟩ := mem_map.mp hs
    by_cases hcond : t.flags ≠ {} ∧ t.Live ∧ h0.kill a t.pid
    · rw [Hub.stopSlot, if_pos hcond] at hkill
      cases hkill
    · rw [Hub.stopSlot, if_neg hcond] at hlive heq
      refine absurd ⟨?_, hlive, ?_⟩ hcond
      · rintro hzero
        rcases hn t ht with huse | rfl
        · simp [hzero] at huse
        · exact hlive.1 rfl
      · have hmem : t.pid ∈ h0.kids.map Kid.pid := mem_map.mpr ⟨k, hk, heq⟩
        simp [Hub.kill, hmem]
  have hm : Moves False True _ _ :=
    stopConShell_moves (h := { h0 with procs := h0.procs.map (h0.stopOne a) }) (a := a)
  exact hq.moves hm

/-! ### Runs -/

/-- An event that is not a request for a service that could be started. -/
def Hub.Declines (h : Hub) : Event → Prop
  | .command _ cmd a => ∀ r ∈ cmd.request, ¬h.startable a r.1.chars r.2
  | .connect | .hangup _ | .output _ _ _ | .chld | .reap _ _ _ | .settle _ | .signal _ _
  | .alrm _ => True

instance (h : Hub) : ∀ e, Decidable (h.Declines e)
  | .command _ cmd _ => inferInstanceAs (Decidable (∀ r ∈ cmd.request, _))
  | .connect | .hangup _ | .output _ _ _ | .chld | .reap _ _ _ | .settle _ | .signal _ _
  | .alrm _ => inferInstanceAs (Decidable True)

/-- Nothing will be started any more, if the hub has agreed to stop. -/
structure World.Quelled (w : World) : Prop where
  neat : w.hub.view.Neat
  quelled : w.stopped = true → w.hub.view.Quelled
  log : w.stopped = true → ∀ i, .started i ∉ w.hub.log

variable {w w' : World} {e : Event}

lemma boot_quelled (hw : Boot w) : w.Quelled := by
  refine ⟨(boot_sound hw).names.neat, fun hs => ?_, fun hs => ?_⟩
  · obtain ⟨pid, -, rfl⟩ := hw
    cases hs
  · obtain ⟨pid, -, rfl⟩ := hw
    cases hs

/-- Services that end are not started again. -/
theorem still_of_quelled (hv : h.view.Quelled) (hpos : h.possible e) (hd : h.Declines e) :
    h.Still e := by
  cases e with
  | command conn cmd a => exact hd
  | reap pid status a =>
    rintro i hfind hscr ⟨hresp, -⟩
    obtain ⟨pc, hi, hlive, rfl⟩ := findByPid_some hfind
    rw [Hub.respawns, proc_of_getElem? hi] at hresp
    have hkid : pc.pid ∈ h.kids.map Kid.pid := by
      have hand : h.reaping = true ∧ pc.pid ∈ h.kids.map Kid.pid := by
        simpa [Hub.possible] using hpos
      exact hand.2
    obtain ⟨k, hk, heq⟩ := mem_map.mp hkid
    have hkill : pc.flags.killed = false := by simpa using hresp.1
    have := hv pc.slot (mem_of_getElem? (view_slot hi)) hlive hkill k hk heq
    exact hscr (this.trans (congrArg Nat.cast heq))
  | _ => trivial

lemma Turn.not_started (ht : Turn True h h' e) : ∀ i, .started i ∉ h'.log := by
  intro i
  cases ht with
  | aside _ _ _ _ hlog => exact fun hx => (hlog _ hx).1 trivial
  | agree _ _ _ _ hlog => simp [hlog]
  | shutdown _ _ hno => exact hno i
  | wait _ _ _ _ hlog => simp [hlog]
  | ignore _ hlog => simp [hlog]
  | script _ hlog => simp [hlog]

/-- Once the hub has agreed, it stays that way. -/
theorem handle_quelled (hn : h.view.Neat) (hlog : h.log = []) (hv : h.view.Quelled)
    (hpos : h.possible e) (hd : h.Declines e) (hok : h.handle e = .ok h') :
    h'.view.Quelled ∧ ∀ i, .started i ∉ h'.log := by
  have hstill : True → h.Still e := fun _ => still_of_quelled hv hpos hd
  refine ⟨?_, (handle_turn hn hlog hok hstill).not_started⟩
  rcases handle_moves hn hok (False.elim : False → _) hstill with hm | ⟨g, a, hg, hforce⟩
  · exact hv.moves hm
  · have hm : Moves False True g.disowned.view h'.view := forceShutdown_moves hforce
    exact (disowned_quelled (by rwa [hg])).moves hm

/-- It is that way as soon as the hub agrees. -/
theorem Turn.quelled (hn : h.view.Neat) (ht : Turn quiet h h' e) (hacc : .accepted ∈ h'.log) :
    h'.view.Quelled ∧ ∀ i, .started i ∉ h'.log := by
  cases ht with
  | aside _ _ _ _ hlog =>
    obtain ⟨-, i, hi⟩ := hlog _ hacc
    cases hi
  | agree _ _ _ _ hlog hstop =>
    refine ⟨?_, by simp [hlog]⟩
    obtain ⟨g, a, mode, hprocs, hglog, hview, hg⟩ := hstop
    rw [hview]
    refine commandStop_quelled ?_ (by simp [hglog]) hg
    rw [View.Neat, Hub.view, hprocs]
    exact hn
  | shutdown _ hno => exact absurd hacc hno
  | wait _ _ _ _ hlog => simp [hlog] at hacc
  | ignore _ hlog => simp [hlog] at hacc
  | script _ hlog => simp [hlog] at hacc

lemma step_quelled (hw : w.Quelled) (hd : w.stopped = true → w.hub.Declines e)
    (hstep : step w e = some w') : w'.Quelled := by
  obtain ⟨hpos, h', hh, rfl⟩ := step_eq_some hstep
  set h0 : Hub := { w.hub with log := [] } with hh0
  have hn : h0.view.Neat := hw.neat
  have hboth : (w.after e h').stopped = true → h'.view.Quelled ∧ ∀ i, .started i ∉ h'.log := by
    intro hs
    rcases Bool.or_eq_true_iff.mp hs with hold | hacc
    · have hd0 : h0.Declines e := by
        have := hd hold
        cases e <;> exact this
      have hpos0 : h0.possible e := by
        cases e <;> exact hpos
      exact handle_quelled hn rfl (hw.quelled hold) hpos0 hd0 hh
    · have ht : Turn False h0 h' e := handle_turn hn rfl hh False.elim
      exact ht.quelled hn (of_decide_eq_true hacc)
  exact ⟨handle_neat hn hh, fun hs => (hboth hs).1, fun hs => (hboth hs).2⟩

/-- **No service is started on the way down**: in every run in which, once the hub has agreed to
stop, no client asks for a service that could be started, none is started from then on. -/
theorem none_started
    (h : Reach Boot step (fun w e => w.stopped = true → w.hub.Declines e) w)
    (hw : w.stopped = true) : ∀ i, .started i ∉ w.hub.log := by
  have hinv : w.Quelled := h.invariant (fun _ => boot_quelled) fun _ _ _ => step_quelled
  exact hinv.log hw

lemma nonul_b : (0 : UInt8) ∉ [98] := by decide

/-- A request for another service that comes after the hub has agreed to stop. -/
def sampleLate (access : ℕ) : Event :=
  .command 0 (.start (some ⟨[98], nonul_b⟩)) { access := access, fork := some 6, time := 200 }

/-- The service that is asked for is not there, and the one that runs ends. -/
theorem none_started_sample :
    ∃ w : World, w.stopped = true ∧ w.hub.nalive = 0 ∧ ∀ i, .started i ∉ w.hub.log := by
  have hrun : ((sampleStop [sampleLate 2, .chld, .reap 5 15 { fork := some 6, time := 200 }]).foldlM
      (fun w e => if World.stopped w = true → w.hub.Declines e then step w e else none)
      sampleBoot).any (fun w => w.stopped = true ∧ w.hub.nalive = 0) = true := by
    decide +kernel
  obtain ⟨w, hw, hrest⟩ := (any_eq_true _ _).mp hrun
  obtain ⟨hstopped, hnone⟩ := of_decide_eq_true hrest
  exact ⟨w, hstopped, hnone, none_started ((Reach.start sampleBoot_boot).foldlM hw) hstopped⟩

/-- **A service that is started on the way down**: the client that has asked for the system to be
turned off asks for a service. -/
theorem late_started :
    ¬∀ w, Reach Boot step (fun _ _ => True) w → w.stopped = true → ∀ i, .started i ∉ w.hub.log := by
  intro h
  have hrun : ((sampleStop [sampleLate 0]).foldlM
      (fun w e => if True then step w e else none) sampleBoot).any
      (fun w => w.stopped = true ∧ w.hub.log = [.started 1]) = true := by
    decide +kernel
  obtain ⟨w, hw, hrest⟩ := (any_eq_true _ _).mp hrun
  obtain ⟨hstopped, hlog⟩ := of_decide_eq_true hrest
  refine h w ((Reach.start sampleBoot_boot).foldlM hw) hstopped 1 ?_
  rw [hlog]
  exact mem_singleton_self _

end Minibase.Svchub
