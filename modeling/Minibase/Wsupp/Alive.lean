import Minibase.Wsupp.Progress

/-!
# Runs that do not get stuck

Every function of the supplicant leaves the top level going
(`Wsupp.Going`) as long as no slip is made: the functions that end something need
not even find it going, since the first thing they do is to clear the timer
(`Wsupp.Held`). It follows that a run without slips is live all along
(`Wsupp.live_of_sound`).
-/

namespace Minibase.Wsupp

open Oper Sys Trace

/-- The invariant, without the timer. -/
structure Held (c : Ctl) : Prop where
  scan : c.operstate.isScan = true → c.scanstate ≠ .idle
  abort : c.operstate.isAbort = true → c.abortstate.isPending = false

lemma Going.held {c : Ctl} (h : Going c) : Held c := ⟨h.scan, h.abort⟩

/-- Where no timer is needed there is no difference. -/
theorem Held.going {c : Ctl} (h : Held c) (ht : c.operstate.timeout = none) : Going c :=
  ⟨h.scan, (fun _ hc => nomatch ht.symm.trans hc), h.abort⟩

lemma keeps_going {α : Type} {x : M α} (hx : Keeps ctl x) :
    Triple Sound (fun s => Going (ctl s)) x fun _ s => Going (ctl s) :=
  triple_of_keeps sound_past hx

lemma keeps_held {α : Type} {x : M α} (hx : Keeps ctl x) :
    Triple Sound (fun s => Held (ctl s)) x fun _ s => Held (ctl s) :=
  triple_of_keeps sound_past hx

variable {P : Sys → Prop} {op : Oper} {cb : Callback}

/-- Writing a mark shows that it is no slip. -/
theorem triple_mark {m : Mark} {Q : Unit → Sys → Prop}
    (h : ∀ s, P s → m.slip = false → Q () { s with log := m :: s.log }) :
    Triple Sound P (mark m) Q :=
  .modify (fun _ => sound_past.mark) fun s hp hs => h s hp (not_slip_of_sound hs)

/-! ### Ends of connections -/

lemma reassessSituation_going : Triple Sound P reassessSituation fun _ s => Going (ctl s) := by
  refine .bind (Q := fun _ s => s.operstate = .netScan)
    (triple_modify sound_past (fun _ => rfl) fun _ _ => rfl) fun _ => ?_
  refine .bind (startScan_in sound_past 0) fun ret => .ite (fun _ => .get fun t => ?_) fun _ => ?_
  · refine triple_mark ?_
    rintro s ⟨⟨ho, -⟩, rfl⟩ hm
    have hs : s.scanstate ≠ .idle := of_decide_eq_false hm
    exact going_of_scan (c := ctl _) (congrArg isScan ho) hs
  · refine .bind (Q := fun _ s => s.operstate = .searching)
      (triple_modify sound_past (fun _ => rfl) fun _ _ => rfl) fun _ => ?_
    exact triple_modify sound_past (fun _ => rfl) fun s h =>
      going_of_rest (c := ctl _) (congrArg isRest h)

/-- A state to go back to, once the timer is cleared. -/
theorem going_of_not_moves {c : Ctl} (hm : c.operstate.moves = false)
    (hp : c.operstate.isPending = false)
    (hs : c.operstate ∈ [fgScan, .netScan, .bssScan] → c.scanstate ≠ .idle) : Going c := by
  rcases rest_or_scan hm hp with hr | ⟨hl, hc⟩
  · exact going_of_rest hr
  · exact going_of_scan hc (hs hl)

variable (err : ℤ)

lemma endedIn_going :
    Triple Sound (fun s => s.operstate.isPending = false ∧
      (s.operstate ∈ [fgScan, .netScan, .bssScan] → s.scanstate ≠ .idle)) (endedIn err)
      fun _ s => Going (ctl s) := by
  refine ((endedIn_ok sound_past (n := 0) (V := fun c => c.operstate.isPending = false ∧
    (c.operstate ∈ [fgScan, .netScan, .bssScan] → c.scanstate ≠ .idle)) reassessSituation_going
    (fun s h => h.2) err).pre fun s h => ⟨h, Nat.zero_le _⟩).post ?_
  rintro - s (h | ⟨⟨hp, hs⟩, hm⟩)
  · exact h
  · exact going_of_not_moves hm hp hs

/-- **`connection_ended`** leaves the top level going. -/
theorem connectionEnded_going :
    Triple Sound (fun s => Held (ctl s)) (connectionEnded err) fun _ s => Going (ctl s) := by
  refine .get fun t => .bind (Q := fun _ s => Held (ctl s) ∧
    s.operstate ∉ [waitAbort, .waitDisconn])
    (triple_mark ?_) fun _ => ?_
  · rintro s ⟨h, rfl⟩ hm
    exact ⟨⟨h.scan, h.abort⟩, of_decide_eq_false hm⟩
  refine .bind (Q := fun _ s => Held (ctl s) ∧ s.operstate ∉ [waitAbort, .waitDisconn])
    (triple_modify sound_past (fun _ => rfl) fun s h => ⟨⟨h.1.scan, h.1.abort⟩, h.2⟩) fun _ =>
      .test ?_ ?_
  · refine .get fun t => .get fun u => .bind (Q := fun _ s => s.abortstate.isPending = false ∧
      (s.abortstate ∈ [fgScan, .netScan, .bssScan] → s.scanstate ≠ .idle))
        (triple_mark ?_) fun _ => ?_
    · rintro s ⟨⟨⟨⟨h, -⟩, ha⟩, rfl⟩, rfl⟩ hm
      refine ⟨h.abort (congrArg isAbort ha), fun hl hs => ?_⟩
      exact of_decide_eq_false hm ⟨hl, hs⟩
    · refine .bind (Q := fun _ s => s.operstate.isPending = false ∧
        (s.operstate ∈ [fgScan, .netScan, .bssScan] → s.scanstate ≠ .idle))
        (triple_modify sound_past (fun _ => rfl) fun s h => h) fun _ => ?_
      exact .get fun t => (endedIn_going _).pre fun s h => h.1
  · refine (endedIn_going err).pre ?_
    rintro s ⟨⟨h, hw⟩, ha⟩
    refine ⟨?_, fun hl => h.scan ?_⟩
    · revert hw ha
      cases s.operstate <;> decide
    · show s.operstate.isScan = true
      revert hl
      cases s.operstate <;> decide

/-- `start_disconnect`, and `connection_ended` if it fails. -/
theorem startDisconnect_going {f : ℤ → M Unit}
    (hf : ∀ ret, ∃ err, f ret = if ret ≥ 0 then setTimer 1 .abortTimeout else connectionEnded err) :
    Triple Sound (fun s => Held (ctl s) ∧ s.operstate.timeout = some .abortTimeout)
      (startDisconnect >>= f) fun _ s => Going (ctl s) := by
  refine .bind (triple_of_keeps sound_past
    (V := fun c => Held c ∧ c.operstate.timeout = some .abortTimeout)
    startDisconnect_ctl) fun ret => ?_
  obtain ⟨err, he⟩ := hf ret
  rw [he]
  refine .ite (fun _ => triple_modify sound_past (fun _ => rfl) fun s h => ?_) fun _ => ?_
  · exact going_of_timer (c := ctl _) h.2 rfl h.1.abort
  · exact (connectionEnded_going err).pre fun s h => h.1

/-- **`script_exit`** leaves the top level going, if it is or if the script was waited
for. -/
theorem scriptExit_going :
    Triple Sound (fun s => Held (ctl s) ∧
      (s.operstate ∉ [waitDisconn, .waitAbort] → Going (ctl s)))
      scriptExit fun _ s => Going (ctl s) := by
  refine .test ?_ (.test ?_ (.pure ?_))
  · refine .bind (triple_modify sound_past (fun _ => rfl) fun s h => ?_) fun _ =>
      startDisconnect_going fun ret => ⟨-ESRCH, rfl⟩
    exact ⟨⟨(fun h => nomatch h), (fun h => nomatch h)⟩, rfl⟩
  · refine .bind (triple_modify sound_past (fun _ => rfl) ?_) fun _ =>
      startDisconnect_going fun ret => ⟨-ESRCH, rfl⟩
    rintro s ⟨⟨⟨h, -⟩, -⟩, ha⟩
    exact ⟨⟨(fun h => nomatch h), fun _ => h.abort (congrArg isAbort ha)⟩, rfl⟩
  · rintro s ⟨⟨⟨-, h⟩, hd⟩, ha⟩
    refine h fun hm => ?_
    rcases List.mem_pair.mp hm with hm | hm
    · exact hd hm
    · exact ha hm

/-- In the middle of a handler, the end of the script is no slip only where `script_exit` has
nothing to do. -/
theorem interrupted_sound {V : Ctl → Prop} :
    Triple Sound (fun s => V (ctl s)) interrupted fun _ s => V (ctl s) := by
  have hv : ∀ {α : Type} {x : M α}, Keeps ctl x →
      Triple Sound (fun s => V (ctl s)) x fun _ s => V (ctl s) := triple_of_keeps sound_past
  refine .bind (hv (keeps_ctl sigchld_view)) fun pid => .test (.pure fun s h => h.1)
    (.get fun t => ?_)
  refine .bind (Q := fun _ s => V (ctl s) ∧ s.operstate ∉ [waitAbort, .waitDisconn])
    (triple_mark ?_) fun _ => .ite (fun _ => .pure fun s h => h.1) fun _ => ?_
  · rintro s ⟨⟨hs, -⟩, rfl⟩ hm
    have hc : ctl { s with log := .preempted s.operstate :: s.log } = ctl s := by
      rw [ctl, List.filter_cons_of_neg (Bool.eq_false_iff.mp hm)]
      rfl
    exact ⟨hc ▸ hs, of_decide_eq_false hm⟩
  · refine .test (.pure fun s h => h.1.1) (.bind (Q := fun _ s => V (ctl s) ∧
      s.operstate ∉ [waitAbort, .waitDisconn]) ?_ fun _ s => ?_)
    · exact triple_modify sound_past (fun _ => rfl) fun s h => h.1
    · refine ⟨(scriptExit_going s).1, fun h _ => ?_⟩
      rw [scriptExit_idle h.2]
      exact h.1

/-- **`abort_connection`** leaves the top level going. -/
theorem abortConnection_going : Triple Sound P (abortConnection err) fun _ s => Going (ctl s) := by
  have hi : ∀ {V : Ctl → Prop}, Triple Sound (fun s => V (ctl s)) interrupted fun _ s =>
    V (ctl s) :=
    interrupted_sound
  refine .get fun t => .bind (Q := fun _ s => s.operstate.isPending = false)
    (triple_mark ?_) fun _ => ?_
  · rintro s ⟨-, rfl⟩ hm
    exact hm
  refine .seq (hi (V := fun c => c.operstate.isPending = false)) ?_
  refine .bind (Q := fun _ s => s.operstate = .waitAbort ∧ s.abortstate.isPending = false)
    (triple_modify sound_past (fun _ => rfl) fun s h => ⟨rfl, h⟩) fun _ => ?_
  have hw := @hi fun c => c.operstate = .waitAbort ∧ c.abortstate.isPending = false
  refine .seq hw (.bind (triple_of_keeps sound_past (V := fun c => c.operstate = .waitAbort ∧
    c.abortstate.isPending = false) (keeps_ctl killScript_view)) fun ret =>
      .ite (fun _ => ?_) fun _ => ?_)
  · exact .seq hw (triple_modify sound_past (fun _ => rfl) fun s h =>
      going_of_timer (c := ctl _) (congrArg timeout h.1) rfl fun _ => h.2)
  · refine .bind (triple_modify sound_past (fun _ => rfl) fun s h => ?_) fun _ =>
      startDisconnect_going fun ret => ⟨ret, rfl⟩
    exact ⟨⟨(fun h => nomatch h), fun _ => h.2⟩, rfl⟩

/-! ### Timers -/

/-- Starting a scan from a state of rest. -/
theorem scanIn_held (hop : op.isScan = true) {rest : Oper} (hr : rest.isRest = true) :
    Triple Sound (fun s => s.operstate = rest) (scanIn op) fun _ s =>
      Held (ctl s) ∧ s.operstate.timeout = none := by
  refine .bind (startScan_in sound_past 0) fun ret => .ite (fun h0 => ?_) fun _ => .pure ?_
  · refine triple_modify sound_past (fun _ => rfl) fun s h => ?_
    have hg := going_of_scan (c := ctl { s with operstate := op }) hop (h.2 h0)
    exact ⟨hg.held, (of_isScan hop).1⟩
  · intro s h
    have hr' : s.operstate.isRest = true := (congrArg isRest h.1).trans hr
    exact ⟨(going_of_rest (c := ctl s) hr').held, (of_isRest hr').2.1⟩

/-- Setting a timer where none is needed. -/
theorem setTimer_going (m : ℕ) (cb : Callback) :
    Triple Sound (fun s => Held (ctl s) ∧ s.operstate.timeout = none) (setTimer m cb) fun _ s =>
      Going (ctl s) :=
  triple_modify sound_past (fun _ => rfl) fun _ h => Held.going (c := ctl _)
    ⟨h.1.scan, h.1.abort⟩ h.2

/-- When the timer fires, it is the one that was needed. -/
def Fires (cb : Callback) (s : Sys) : Prop :=
  Held (ctl s) ∧ ∀ cb', s.operstate.timeout = some cb' → cb' = cb

/-- A timer that no state needs. -/
theorem Fires.going {s : Sys} (h : Fires cb s) (hcb : ∀ op : Oper, op.timeout ≠ some cb) :
    Going (ctl s) := by
  refine h.1.going ?_
  rcases ht : s.operstate.timeout with - | cb'
  · exact ht
  · rw [h.2 cb' ht] at ht
    exact absurd ht (hcb _)

lemma routineScan_going {rest : Oper} (hr : rest.isRest = true) (hop : op.isScan = true) (m : ℕ)
    (hcb : ∀ op : Oper, op.timeout ≠ some cb) :
    Triple Sound (Fires cb) (routineScan rest op m cb) fun _ s => Going (ctl s) := by
  refine .test (.pure fun s h => h.1.going hcb) ?_
  exact .seq ((scanIn_held hop hr).pre fun s h => not_not.mp h.2) (setTimer_going m cb)

/-- **What the timer calls leaves the top level going.** -/
theorem call_going (cb : Callback) : Triple Sound (Fires cb) cb.call fun _ s => Going (ctl s) := by
  cases cb with
  | connectTimeout => exact abortConnection_going _
  | routineFgScan => exact routineScan_going rfl rfl _ fun op => by cases op <;> decide
  | routineBgScan => exact routineScan_going rfl rfl _ fun op => by cases op <;> decide
  | searchingScan =>
    refine .test (.pure fun s h => h.1.going fun op => by cases op <;> decide) ?_
    refine .bind (Q := fun _ s => s.operstate = .searching) ?_ fun _ => ?_
    · refine .test ?_ ?_
      · exact triple_modify sound_past (fun _ => rfl) fun s h => not_not.mp h.1.2
      · exact triple_modify sound_past (fun _ => rfl) fun s h => not_not.mp h.1.2
    · exact .seq (scanIn_held rfl rfl) (setTimer_going _ _)
  | abortTimeout =>
    exact .seq ((keeps_held fun _ => rfl).pre fun s h => h.1) (connectionEnded_going _)
  | swaitTimeout =>
    refine .seq (triple_of_keeps sound_past (V := fun c => Held c ∧
      ∀ cb', c.operstate.timeout = some cb' → cb' = .swaitTimeout) (keeps_ctl forceScript_view)) ?_
    refine scriptExit_going.pre fun s h => ⟨h.1, fun hw => ?_⟩
    refine h.1.going ?_
    have hc : ∀ cb', s.operstate.timeout = some cb' → cb' = .swaitTimeout := h.2
    revert hc hw
    show _ → _ → s.operstate.timeout = none
    cases s.operstate <;> simp [timeout]

/-! ### Reports from below -/

lemma eapolSuccess_going :
    Triple Sound (fun s => Going (ctl s)) eapolSuccess fun _ s => Going (ctl s) := by
  refine .test (.pure fun s h => h.1) ?_
  refine .bind (Q := fun _ s => s.operstate = .connected)
    (triple_modify sound_past (fun _ => rfl) fun _ _ => rfl) fun _ => ?_
  refine .bind (triple_of_keeps sound_past (V := fun c => c.operstate = .connected) fun _ => rfl)
    fun _ => ?_
  refine .bind (Q := fun _ s => Going (ctl s)) (triple_modify sound_past (fun _ => rfl) ?_) fun _ =>
    ?_
  · exact fun s h => going_of_rest (c := ctl _) (congrArg isRest h)
  · refine .bind (keeps_going (keeps_ctl spawnScript_view)) fun _ => ?_
    exact .ite (fun _ => abortConnection_going _) fun _ => keeps_going (keeps_ctl (report_view _))

lemma connectionReady_going :
    Triple Sound (fun s => Going (ctl s)) connectionReady fun _ s => Going (ctl s) := by
  refine .bind (keeps_going fun _ => rfl) fun _ => .test (.pure fun s h => h.1) ?_
  refine .bind (Q := fun _ s => Going (ctl s)) (triple_modify sound_past (fun _ => rfl) ?_) fun _ =>
    ?_
  · rintro s ⟨h, hc⟩
    obtain ⟨m, ht⟩ := h.timer .connectTimeout (congrArg timeout (not_not.mp hc))
    exact going_of_timer (c := ctl _) rfl ht fun h => nomatch h
  · refine .bind (keeps_going (keeps_ctl allowEapol_view)) fun _ => ?_
    exact .ite (fun _ => .pure fun s h => h) fun _ => abortConnection_going _

/-- **The end of a scan** leaves the top level going, even if it waited for it. -/
theorem scanOver_going :
    Triple Sound (fun s => Going (ctl s)) (scanOver err) fun _ s => Going (ctl s) := by
  have hland : ∀ {P : Sys → Prop} {x : M Unit}, Triple Sound P x (fun _ s => Arrived 0 s) →
      Triple Sound P x fun _ s => Going (ctl s) := fun h => h.post fun _ _ h => h.2
  refine .bind (Q := fun _ s => s.operstate.isScan = false → Going (ctl s))
    (triple_modify sound_past (fun _ => rfl) ?_) fun _ => ?_
  · exact fun s h hs => ⟨(fun h' => nomatch hs.symm.trans h'), h.timer, h.abort⟩
  refine .bind (triple_of_keeps sound_past (V := fun c => c.operstate.isScan = false → Going c)
    (keeps_ctl (report_view _))) fun _ =>
      .ite (fun _ => hland (snapToNetdown_ok sound_past)) fun _ => ?_
  refine .test (hland ((tryAnotherBss_ok sound_past).pre fun s _ => Nat.zero_le _)) ?_
  refine .test (hland ((reconnectCurrent_ok sound_past).pre fun s _ => Nat.zero_le _)) ?_
  refine .test ?_ (.test ?_ (.pure ?_))
  · exact triple_modify sound_past (fun _ => rfl) fun s _ => going_of_rest (c := ctl _) rfl
  · exact triple_modify sound_past (fun _ => rfl) fun s _ => going_of_rest (c := ctl _) rfl
  · rintro s ⟨⟨⟨⟨h, hn⟩, hb⟩, hf⟩, hg⟩
    refine h ?_
    revert hn hb hf hg
    show _ → _ → _ → _ → s.operstate.isScan = false
    cases s.operstate <;> decide

lemma triggerScanDump_going :
    Triple Sound (fun s => Going (ctl s)) triggerScanDump fun _ s => Going (ctl s) := by
  refine .get fun t => .bind ((keeps_going fun _ => rfl).pre fun s h => h.1) fun _ => ?_
  refine .bind (keeps_going (keeps_ctl syscall_view)) fun _ =>
    .ite (fun _ => .get fun t => ?_) fun _ => ?_
  · refine .bind (Q := fun _ s => Going (ctl s) ∧ s.operstate.isScan = false)
      (triple_mark ?_) fun _ => ?_
    · rintro s ⟨h, rfl⟩ hm
      exact ⟨⟨h.scan, h.timer, h.abort⟩, hm⟩
    · refine triple_modify sound_past (fun _ => rfl) fun s h => ?_
      exact ⟨(fun h' => nomatch h.2.symm.trans h'), h.1.timer, h.1.abort⟩
  · exact triple_modify sound_past (fun _ => rfl) fun s h =>
      ⟨fun _ => Scan.noConfusion, h.timer, h.abort⟩

/-! ### Netlink -/

lemma startScan_going (freq : ℕ) :
    Triple Sound (fun s => Going (ctl s)) (startScan freq) fun _ s => Going (ctl s) := by
  refine (startScan_ok sound_past freq).post ?_
  rintro ret s (⟨-, h⟩ | ⟨-, hs, ss, h⟩)
  · exact h
  · exact ⟨fun _ => hs, h.timer, h.abort⟩

lemma snapToExternal_going :
    Triple Sound (fun s => Going (ctl s)) snapToExternal fun _ s => Going (ctl s) :=
  .seq (keeps_going fun _ => rfl) ((connectionEnded_going _).pre fun _ h => h.held)

lemma authEnded_going :
    Triple Sound (fun s => Going (ctl s)) (authEnded err) fun _ s => Going (ctl s) :=
  .seq (keeps_going fun _ => rfl) ((connectionEnded_going _).pre fun _ h => h.held)

lemma connectStatus_going (status : Option UInt16) :
    Triple Sound (fun s => Going (ctl s)) (connectStatus status) fun _ s => Going (ctl s) := by
  rw [connectStatus]
  cases failure status with
  | some err => exact (connectionEnded_going err).pre fun s h => h.held
  | none => exact .seq (keeps_going fun _ => rfl) connectionReady_going

lemma retryConnect_ctl (ret : ℤ) : Keeps ctl (retryConnect ret) := by
  refine .ite (.pure _) (.test (.pure _) (.test (.pure _) ?_))
  exact .bind (keeps_ctl (trigger_view _)) fun _ => .ite (.pure _) (.seq (fun _ => rfl) (.pure _))

lemma dispatch_going (msg : Msg) :
    Triple Sound (fun s => Going (ctl s)) msg.dispatch fun _ s => Going (ctl s) := by
  have hdone : ∀ {P : Sys → Prop}, (∀ s, P s → Going (ctl s)) →
      Triple Sound P (pure () : M Unit) fun _ s => Going (ctl s) := fun h => .pure h
  cases msg with
  | triggerScan => exact hdone fun s h => h
  | scanResults multi =>
    refine .ite (fun _ => hdone fun s h => h) fun _ => .test ?_ (hdone fun s h => h.1)
    exact triggerScanDump_going.pre fun s h => h.1
  | scanAborted => exact .test (hdone fun s h => h.1) ((scanOver_going _).pre fun s h => h.1)
  | authenticate =>
    refine .test (hdone fun s h => h.1) (.test (snapToExternal_going.pre fun s h => h.1.1) ?_)
    exact .bind ((keeps_going (keeps_ctl (trigger_view _))).pre fun s h => h.1.1) fun _ =>
      keeps_going fun _ => rfl
  | associate =>
    refine .test (hdone fun s h => h.1) (.test (snapToExternal_going.pre fun s h => h.1.1) ?_)
    exact (keeps_going fun _ => rfl).pre fun s h => h.1.1
  | connect status =>
    refine .test (hdone fun s h => h.1) (.test ?_
      ((connectStatus_going status).pre fun s h => h.1.1))
    exact .seq (snapToExternal_going.pre fun s h => h.1.1) (connectStatus_going status)
  | disconnect =>
    refine .test (hdone fun s h => h.1) (.test ?_ ((authEnded_going 0).pre fun s h => h.1.1))
    refine .bind ((keeps_going triggerConnection_ctl).pre fun s h => h.1.1) fun err => ?_
    exact .ite (fun _ => hdone fun s h => h) fun _ => authEnded_going err

lemma genlError_going (seq : UInt32) (err : ℤ) :
    Triple Sound (fun s => Going (ctl s)) (genlError seq err) fun _ s => Going (ctl s) := by
  refine .ite (fun _ => .pure fun s h => h) fun _ => .test ?_ (.test ?_ (abortConnection_going err))
  · exact .ite (fun _ => .pure fun s h => h.1) fun _ => (scanOver_going err).pre fun s h => h.1
  · refine .test (.pure fun s h => h.1.1.1) ?_
    refine .bind ((keeps_going (retryConnect_ctl err)).pre fun s h => h.1.1.1) fun err => ?_
    exact .ite (fun _ => .pure fun s h => h) fun _ => authEnded_going err

/-! ### Requests -/

lemma apConnect_going (ssid : List UInt8) (psk : Bytes 32) :
    Triple Sound (fun s => Going (ctl s)) (apConnect ssid psk) fun _ s => Going (ctl s) := by
  have hset : Keeps ctl (setNetwork ssid psk) := .ite (.pure _) (.seq (fun _ => rfl) (.pure _))
  refine .test (.pure fun s h => h.1) (.test (.pure fun s h => h.1.1) ?_)
  refine .bind ((keeps_going hset).pre fun s h => h.1.1) fun ret =>
    .ite (fun _ => .pure fun s h => h) fun _ => ?_
  refine .bind ((connectToSomething_ok sound_past (n := 0) (V := Going)).pre fun s h =>
    ⟨h, Nat.zero_le _⟩)
    fun ret => .ite (fun hr => .pure ?_) fun hr => ?_
  · rintro s (⟨-, h, -⟩ | ⟨-, h⟩)
    · exact h
    · exact h.2
  · refine .bind ((keeps_going fun _ => rfl).pre ?_) fun _ => .pure fun s h => h
    rintro s (⟨-, h, -⟩ | ⟨-, h⟩)
    · exact h
    · exact h.2

/-- In a state that is timed, its timer is set. -/
theorem timed_going {m : ℕ} (ht : op.timeout = some cb) (ha : op.isAbort = false) :
    Triple Sound (fun s => s.operstate = op) (setTimer m cb >>= fun _ => pure (0 : ℤ)) fun _ s =>
      Going (ctl s) := by
  refine .bind (Q := fun _ s => Going (ctl s))
    (triple_modify sound_past (fun _ => rfl) fun s h => ?_) fun _ => ?_
  · refine going_of_timer (c := ctl _) ((congrArg timeout h).trans ht) rfl fun hb => ?_
    exact nomatch (ha.symm.trans (congrArg isAbort h).symm).trans hb
  · exact .pure fun s h => h

lemma apDisconnect_going :
    Triple Sound (fun s => Going (ctl s)) apDisconnect fun _ s => Going (ctl s) := by
  have hdrop : ∀ {P : Sys → Prop}, Triple Sound P dropNetwork fun _ s => Going (ctl s) := by
    intro P
    have hop : ∀ {Q : Sys → Prop} {op : Oper}, op.isRest = true →
        Triple Sound Q (setOperstate op >>= fun _ => pure (-ECANCELED)) fun _ s =>
          Going (ctl s) := by
      intro Q op hr
      refine .bind (Q := fun _ s => Going (ctl s))
        (triple_modify sound_past (fun _ => rfl) ?_) fun _ => ?_
      · exact fun s _ => going_of_rest (c := ctl _) hr
      · exact .pure fun s h => h
    refine .test (hop rfl) (.bind (triple_any sound_past fun _ => rfl) fun _ => ?_)
    refine .bind (triple_any sound_past fun _ => rfl) fun _ => ?_
    exact .bind (triple_any sound_past fun _ => rfl) fun _ => hop rfl
  have hset : ∀ {P : Sys → Prop} {op : Oper}, Triple Sound P (setOperstate op) fun _ s =>
    s.operstate = op :=
    triple_modify sound_past (fun _ => rfl) fun _ _ => rfl
  have hi : ∀ {V : Ctl → Prop}, Triple Sound (fun s => V (ctl s)) interrupted fun _ s =>
    V (ctl s) :=
    interrupted_sound
  refine .bind (keeps_going (keeps_ctl killScript_view)) fun _ => .ite (fun _ => ?_) fun _ => ?_
  · refine .seq hi (.seq hset (.seq (hi (V := fun c => c.operstate = .waitDisconn)) ?_))
    exact timed_going rfl rfl
  refine .bind (keeps_going startDisconnect_ctl) fun _ => .ite (fun _ => ?_) fun _ => ?_
  · exact .seq hset (timed_going rfl rfl)
  refine .bind (keeps_going fun _ => rfl) fun _ => .bind (keeps_going fun _ => rfl) fun _ => ?_
  exact .bind (keeps_going fun _ => rfl) fun _ => .test (.pure fun s h => h.1) hdrop

/-- `ap_detach`, if it works, stops. -/
theorem apDetach_going : Triple Sound (fun s => Going (ctl s)) apDetach fun ret s =>
      Going (ctl s) ∧ (0 ≤ ret → s.operstate = .stopped) := by
  refine .test (.pure fun s h => ⟨h.1, fun h => absurd h (by decide)⟩) ?_
  refine .bind (triple_any sound_past fun _ => rfl) fun _ =>
    .bind (triple_any sound_past fun _ => rfl) fun _ => ?_
  refine .bind (triple_any sound_past fun _ => rfl) fun _ =>
    .bind (triple_any sound_past fun _ => rfl) fun _ => ?_
  refine .bind (triple_any sound_past fun _ => rfl) fun _ => ?_
  refine .bind (Q := fun _ s => s.operstate = .stopped)
    (triple_modify sound_past (fun _ => rfl) fun _ _ => rfl) fun _ => ?_
  exact .pure fun s h => ⟨going_of_rest (c := ctl _) (congrArg isRest h), fun _ => h⟩

/-- The scan is forgotten when the socket is closed, but the top level has stopped then. -/
theorem cmdDetach_going :
    Triple Sound (fun s => Going (ctl s)) cmdDetach fun _ s => Going (ctl s) := by
  have hclose : Triple Sound (fun s => s.operstate = .stopped) closeNetlink fun _ s =>
      s.operstate = .stopped := by
    refine .test (.pure fun s h => h.1) (.bind (Q := fun _ s => s.operstate = .stopped) ?_ fun _ =>
      ?_)
    · exact triple_modify sound_past (fun _ => rfl) fun s h => h.1
    refine .bind (Q := fun _ s => s.operstate = .stopped) ?_ fun _ => ?_
    · exact triple_modify sound_past (fun _ => rfl) fun s h => h
    · exact triple_modify sound_past (fun _ => rfl) fun s h => h
  refine .test (.pure fun s h => h.1) (.bind (apDetach_going.pre fun s h => h.1) fun ret => ?_)
  refine .ite (fun _ => .pure fun s h => h.1) fun hr => ?_
  refine .bind (hclose.pre fun s h => h.2 (not_lt.mp hr)) fun _ => .pure fun s h => ?_
  exact going_of_rest (c := ctl _) (congrArg isRest h)

lemma apResume_going : Triple Sound (fun s => Going (ctl s)) apResume fun _ s => Going (ctl s) := by
  refine .test (.pure fun s h => h.1) (.bind
    ((startScan_ok sound_past 0).pre fun s h => h.1) fun ret => ?_)
  refine .ite (fun hr => .pure ?_) fun hr => ?_
  · rintro s (⟨-, h⟩ | ⟨h0, -⟩)
    · exact h
    · exact absurd hr (not_lt.mpr h0)
  · refine .bind (Q := fun _ s => Going (ctl s))
      (triple_modify sound_past (fun _ => rfl) ?_) fun _ =>
      .pure fun s h => h
    rintro s (⟨hr', -⟩ | ⟨-, hs, -⟩)
    · exact absurd hr' hr
    · by_cases hsuc : s.ap.success = true
      · exact going_of_scan (c := ctl _) (congrArg isScan (if_pos hsuc)) hs
      · exact going_of_rest (c := ctl _) (congrArg isRest (if_neg hsuc))

lemma clientRequest_going (r : Request) :
    Triple Sound (fun s => Going (ctl s)) (clientRequest r) fun _ s => Going (ctl s) := by
  refine .bind ?_ fun _ => keeps_going (keeps_ctl (report_view _))
  cases r with
  | setdev ifi =>
    refine .test (.pure fun s h => h.1) ?_
    cases ifi with
    | none => exact .pure fun s h => h.1
    | some ifi =>
      refine .bind ((keeps_going (keeps_ctl (openNetlink_view ifi))).pre fun s h => h.1) fun _ => ?_
      exact .ite (fun _ => .pure fun s h => h) fun _ => apResume_going
  | runscan => exact .test (.pure fun s h => h.1) ((startScan_going 0).pre fun s h => h.1)
  | connect ssid psk =>
    refine .test (.pure fun s h => h.1) ?_
    rcases ssid with - | ssid
    · exact .pure fun s h => h.1
    · rcases psk with - | psk
      · exact .pure fun s h => h.1
      · exact .ite (fun _ => .pure fun s h => h.1) fun _ => (apConnect_going _ _).pre fun s h => h.1
  | neutral => exact apDisconnect_going
  | detach => exact cmdDetach_going
  | resume => exact .test (.pure fun s h => h.1) (apResume_going.pre fun s h => h.1)

/-! ### Runs -/

lemma followUp_going (c : Option Call) :
    Triple Sound (fun s => Going (ctl s)) (followUp c) fun _ s => Going (ctl s) := by
  rcases c with - | c
  · exact .pure fun s h => h
  · cases c with
    | success => exact eapolSuccess_going
    | abort err => exact abortConnection_going err
    | _ => exact .pure fun s h => h

lemma timerExpired_going :
    Triple Sound (fun s => Going (ctl s)) timerExpired fun _ s => Going (ctl s) := by
  refine .get fun t => ?_
  rcases ht : t.timer with - | ⟨m, cb⟩
  · exact .pure fun s h => h.1
  · have hi : Triple Sound (fun s => Going (ctl s) ∧ s.timer = some (m, cb)) interrupted fun _ s =>
        Going (ctl s) ∧ s.timer = some (m, cb) :=
      interrupted_sound (V := fun c => Going c ∧ c.timer = some (m, cb))
    refine .seq (hi.pre fun s h => ⟨h.1, h.2 ▸ ht⟩)
      (.seq (triple_modify sound_past (fun _ => rfl) ?_) (call_going cb))
    rintro s ⟨h, ht⟩
    refine ⟨⟨h.scan, h.abort⟩, fun cb' hc => ?_⟩
    obtain ⟨m', ht'⟩ := h.timer cb' hc
    exact (Prod.mk.inj (Option.mem_unique ht' ht)).2

/-- **No input leaves the top level with nothing to wait for**, unless a slip is made. -/
theorem handle_going (i : Input) :
    Triple Sound (fun s => Going (ctl s)) (handle i) fun _ s => Going (ctl s) := by
  have hopen : ∀ {c : Sys → Bool} {x : M Unit},
      Triple Sound (fun s => Going (ctl s)) x (fun _ s => Going (ctl s)) →
      Triple Sound (fun s => Going (ctl s)) (whenOpen c x) fun _ s => Going (ctl s) :=
    fun hx => .test (hx.pre fun s h => h.1) (.pure fun s h => h.1)
  cases i with
  | request r => exact clientRequest_going r
  | done seq =>
    refine hopen (.test (.test (.pure fun s h => h.1.1) ?_) (.pure fun s h => h.1))
    exact (scanOver_going 0).pre fun s h => h.1.1
  | error seq err => exact hopen (genlError_going seq err)
  | message ifi msg =>
    exact hopen (.test ((dispatch_going msg).pre fun s h => h.1) (.pure fun s h => h.1))
  | frame sender frame =>
    refine hopen (.get fun t => .bind ((keeps_going (keeps_ctl (putOut_view _))).pre fun s h => h.1)
      fun _ => ?_)
    exact followUp_going _
  | rawsockLost => exact keeps_going fun _ => rfl
  | child pid =>
    refine .ite (fun _ => .pure fun s h => h) fun _ => .test (.pure fun s h => h.1) ?_
    refine .bind ((keeps_going fun _ => rfl).pre fun s h => h.1) fun _ => ?_
    exact scriptExit_going.pre fun s h => ⟨h.held, fun _ => h⟩
  | timer => exact timerExpired_going

/-- A run that is sound now was sound before. -/
theorem sound_of_next {s : Sys} {ev : Happening} (h : Sound (s.next ev)) : Sound s :=
  sound_past.keep rfl ((handle_going ev.input { s with env := ev.env }).1 h)

lemma going_of_sound (l : List Happening) (h : Sound (init.after l)) :
    Going (ctl (init.after l)) := by
  induction l using List.reverseRecOn with
  | nil => exact going_of_rest rfl
  | append_singleton l ev ih =>
    rw [after_concat] at h ⊢
    exact (handle_going ev.input { init.after l with env := ev.env }).2 (ih (sound_of_next h)) h

/-- **A run without slips does not get stuck**: at its end – and before, since every part of
such a run is one – something is being waited for that will come, or nothing is. -/
theorem live_of_sound (l : List Happening) (h : Sound (init.after l)) :
    Live (init.after l) :=
  live_of_going (going_of_sound l h)

/-- For instance, while connecting, which the timer puts an end to. -/
theorem connecting_live :
    (init.after connecting).operstate = .connecting ∧ Live
    (init.after connecting) :=
  ⟨by decide +kernel, live_of_sound connecting (by unfold Sound; decide +kernel)⟩

namespace Trace

/-- The card does not know the station. -/
def noEntry (seq : UInt32) (env : Env) : Happening := ⟨.error seq (-ENOENT), env⟩

/-- The station is scanned for, found, and connected to again, and again the card does not
know it. Then the request for a scan of everything cannot be sent. -/
def reassessed : List Happening :=
  connecting ++ noEntry 2 {} ::
    [message .triggerScan, message (.scanResults false), message (.scanResults true),
      ⟨.done 4, { random := [.ok snonce], inScans := [true] }⟩] ++
    [noEntry 5 { sys := [-ENOBUFS] }]

end Trace

/-- **A run that gets stuck**: `reassess_situation` returns when its scan could not be started,
and waits for the end of it, with no timer set, rather than when it could. -/
theorem reassess_stuck :
    (init.after reassessed).operstate = .netScan ∧
    (init.after reassessed).scanstate = .idle ∧
    (init.after reassessed).timer = none ∧ ¬Live (init.after reassessed) := by
  have ho : (init.after reassessed).operstate = .netScan := by decide +kernel
  have hs : (init.after reassessed).scanstate = .idle := by decide +kernel
  have ht : (init.after reassessed).timer = none := by decide +kernel
  refine ⟨ho, hs, ht, fun h => ?_⟩
  obtain h | ⟨m, cb, h, -⟩ := h (by rw [ho]; rfl)
  · exact h.2 hs
  · exact nomatch ht.symm.trans h

end Minibase.Wsupp
