import Minibase.Wsupp.Steady

/-!
# Always something to wait for

In most of its states the top level of the supplicant waits for something that may never come, and
is therefore timed, or – the card sees to that – ends by itself. The machine would be stuck in a
state if neither were so (`Wsupp.Live`). The invariant behind this is `Wsupp.Going`; each function
is shown to establish it, whatever state it leaves, but in the branches of `Wsupp.Mark.slip`. So
`Wsupp.live_of_sound` is about runs that do not take them (`Wsupp.Sound`), and a run that does gets
stuck in `Wsupp.reassess_stuck`.

That a timer moves the machine on is a fact about the top level alone, slips or not: it
lands in another state, or starts another attempt to connect (`Wsupp.Landed`).
-/

namespace Minibase.Wsupp

open Oper

/-! ### States to wait in -/

/-- What times a state out. -/
def Oper.timeout : Oper → Option Callback
  | connecting => some .connectTimeout
  | eapol => some .connectTimeout
  | disconnecting => some .abortTimeout
  | aborting => some .abortTimeout
  | waitDisconn => some .swaitTimeout
  | waitAbort => some .swaitTimeout
  | _ => none

/-- Aborts. -/
def Oper.isAbort (op : Oper) : Bool := op ∈ [.aborting, .waitAbort]

/-- Aborts, and waiting for the script to exit: the states an abort must not go back to. -/
def Oper.isPending (op : Oper) : Bool := op ∈ [.aborting, .waitAbort, .waitDisconn]

/-- The states in which nothing is waited for. -/
def Oper.isRest (op : Oper) : Bool :=
  op ∈ [.stopped, .monitoring, .connected, .searching, .netdown, .external]

lemma Oper.of_isScan {op : Oper} (h : op.isScan = true) : op.timeout = none ∧
    op.isAbort = false := by
  revert h
  cases op <;> decide

lemma Oper.of_isRest {op : Oper} (h : op.isRest = true) :
    op.isScan = false ∧ op.timeout = none ∧ op.isAbort = false := by
  revert h
  cases op <;> decide

/-- The states in which something is waited for. -/
def Oper.waits (op : Oper) : Bool :=
  op ∈ [.fgScan, .bgScan, .netScan, .bssScan, .connecting, .eapol, .disconnecting, .aborting,
    .waitDisconn, .waitAbort]

/-- The machine has left the state it was in: it is in another one, or it has started another
attempt to connect. -/
def Leaves (s t : Sys) : Prop := t.operstate ≠ s.operstate ∨ attempts s.log < attempts t.log

/-- **The machine is not stuck**: where something is waited for, a scan is going on or a
timer is set, and when it fires, whatever the world answers, the machine leaves its state. -/
def Live (s : Sys) : Prop :=
  s.operstate.waits = true →
    s.operstate.isScan = true ∧ s.scanstate ≠ .idle ∨
    ∃ n cb, s.timer = some (n, cb) ∧ ∀ env, Leaves s (s.next ⟨.timer, env⟩)

/-- **The invariant.** -/
structure Going (c : Ctl) : Prop where
  scan : c.operstate.isScan = true → c.scanstate ≠ .idle
  timer : ∀ cb, c.operstate.timeout = some cb → ∃ n, c.timer = some (n, cb)
  abort : c.operstate.isAbort = true → c.abortstate.isPending = false

lemma going_of_rest {c : Ctl} (h : c.operstate.isRest = true) : Going c := by
  obtain ⟨hs, ht, ha⟩ := of_isRest h
  refine ⟨fun h => ?_, fun cb h => ?_, fun h => ?_⟩
  · exact nomatch hs.symm.trans h
  · exact nomatch ht.symm.trans h
  · exact nomatch ha.symm.trans h

lemma going_of_scan {c : Ctl} (h : c.operstate.isScan = true) (hs : c.scanstate ≠ .idle) :
    Going c := by
  obtain ⟨ht, ha⟩ := of_isScan h
  refine ⟨fun _ => hs, fun cb h => ?_, fun h => ?_⟩
  · exact nomatch ht.symm.trans h
  · exact nomatch ha.symm.trans h

variable {cb : Callback}

lemma going_of_timer {c : Ctl} {n : ℕ} (h : c.operstate.timeout = some cb)
    (ht : c.timer = some (n, cb))
    (ha : c.operstate.isAbort = true → c.abortstate.isPending = false) : Going c := by
  refine ⟨fun hs => ?_, fun cb' h' => ?_, ha⟩
  · exact nomatch (of_isScan hs).1.symm.trans h
  · cases h.symm.trans h'
    exact ⟨n, ht⟩

/-! ### Sound runs -/

/-- **None of the slips has been made.** -/
def Sound (s : Sys) : Prop := (ctl s).slips = []

/-- A property of the past that only slips can break. -/
structure Past (G : Sys → Prop) : Prop where
  keep : ∀ {s t : Sys}, (ctl s).slips = (ctl t).slips → G s → G t
  mark : ∀ {s : Sys} {m : Mark}, G { s with log := m :: s.log } → G s

lemma sound_past : Past Sound where
  keep h hs := h.symm.trans hs
  mark {s m} h := by
    have hf : List.filter Mark.slip (m :: s.log) = [] := h
    rw [List.filter_cons] at hf
    split_ifs at hf with hm
    exact hf

lemma true_past : Past fun _ => True := ⟨fun _ h => h, fun _ => trivial⟩

variable {s : Sys}

lemma not_slip_of_sound {m : Mark} (h : Sound { s with log := m :: s.log }) : m.slip = false := by
  have hf : List.filter Mark.slip (m :: s.log) = [] := h
  rw [List.filter_cons] at hf
  split_ifs at hf with hm
  exact Bool.eq_false_iff.mpr hm

/-! ### Functions that the top level does not see -/

lemma triggerConnection_ctl : Keeps ctl triggerConnection := by
  refine .test (.bind (keeps_ctl (trigger_view _)) fun _ => .ite (.pure _) ?_)
    (.bind (keeps_ctl (trigger_view _)) fun _ => .ite (.pure _) ?_)
  · exact .seq (fun _ => rfl) (.pure _)
  · exact .seq (fun _ => rfl) (.pure _)

lemma startConnection_ctl : Keeps ctl startConnection :=
  .seq (fun _ => rfl) (.test (.pure _) triggerConnection_ctl)

lemma startDisconnect_ctl : Keeps ctl startDisconnect := by
  refine .test (.pure _) (.bind (keeps_ctl (trigger_view _)) fun _ => .ite (.pure _) ?_)
  exact .seq (fun _ => rfl) (.pure _)

lemma openRawsock_ctl : Keeps ctl openRawsock := by
  refine .test (.pure _) (.bind (keeps_ctl syscall_view) fun _ => .ite (.pure _) ?_)
  exact .bind (keeps_ctl syscall_view) fun _ => .ite (.pure _) (.seq (fun _ => rfl) (.pure _))

lemma pickBestBss_ctl : Keeps ctl pickBestBss := by
  refine .bind (keeps_ctl getBestBss_view) fun sc => ?_
  cases sc with
  | none => exact .pure _
  | some sc => exact .seq (fun _ => rfl) (.pure _)

/-! ### Landing -/

/-- The states that ends of scans and connections lead to, apart from a new attempt. -/
def Oper.isLanding (op : Oper) : Bool :=
  op ∈ [.stopped, .monitoring, .searching, .netScan, .bssScan, .netdown]

/-- **The top level has come to rest, or to the next thing to wait for**, after `n` attempts to
connect: it is in one of these states, or has started another attempt. -/
def Landed (n : ℕ) (s : Sys) : Prop :=
  s.operstate.isLanding = true ∨ s.operstate = .connecting ∧ n < attempts s.log

/-- The same, with all that is needed to go on. -/
def Arrived (n : ℕ) (s : Sys) : Prop := Landed n s ∧ Going (ctl s)

lemma arrived_of_eq {n : ℕ} {op : Oper} (h : s.operstate = op)
    (hl : op.isLanding = true) (hr : op.isRest = true) : Arrived n s :=
  ⟨.inl (h ▸ hl), going_of_rest (c := ctl s) ((congrArg isRest h).trans hr)⟩

lemma arrived_of_scan {n : ℕ} {op : Oper} (h : s.operstate = op)
    (hl : op.isLanding = true) (hc : op.isScan = true) (hs : s.scanstate ≠ .idle) : Arrived n s :=
  ⟨.inl (h ▸ hl), going_of_scan (c := ctl s) ((congrArg isScan h).trans hc) hs⟩

section Landing

variable {G : Sys → Prop} (hG : Past G) {n : ℕ} {V : Ctl → Prop}
include hG

lemma triple_of_keeps {α : Type} {x : M α} (hx : Keeps ctl x) :
    Triple G (fun s => V (ctl s)) x fun _ s => V (ctl s) :=
  .of_keeps hx fun _ _ h hs => hG.keep (congrArg Ctl.slips h) hs

variable {P : Sys → Prop}

/-- An update that makes no slip. -/
theorem triple_modify {Q : Unit → Sys → Prop} {u : Sys → Sys}
    (hs : ∀ s, (ctl (u s)).slips = (ctl s).slips) (h : ∀ s, P s → Q () (u s)) :
    Triple G P (modify u) Q :=
  .modify (fun s => hG.keep (hs s)) fun s hp _ => h s hp

/-- `start_scan`: if it works, a scan is going on. -/
theorem startScan_ok (freq : ℕ) : Triple G (fun s => V (ctl s)) (startScan freq) fun ret s =>
    ret < 0 ∧ V (ctl s) ∨ 0 ≤ ret ∧ s.scanstate ≠ .idle ∧ ∃ ss, V
    { ctl s with scanstate := ss } := by
  refine .test (.pure fun s h => .inl ⟨by decide, h.1⟩) (.test (.test (.pure ?_) (.pure ?_)) ?_)
  · exact fun s h => .inl ⟨by decide, h.1.1.1⟩
  · exact fun s h => .inr ⟨le_rfl, h.1.2, _, h.1.1.1⟩
  refine .bind ((triple_of_keeps hG (keeps_ctl triggerScan_view)).pre fun s h => h.1.1) fun ret =>
    ?_
  refine .ite (fun hr => .pure fun s h => .inl ⟨hr, h⟩) fun _ => ?_
  refine .bind (Q := fun _ s => s.scanstate ≠ .idle ∧ ∃ ss, V { ctl s with scanstate := ss })
    (triple_modify hG (fun _ => rfl) fun s h => ⟨Scan.noConfusion, s.scanstate, h⟩) fun _ => ?_
  exact .pure fun s h => .inr ⟨le_rfl, h⟩

/-- `start_scan` in a state that waits for a scan. -/
theorem startScan_in {op : Oper} (freq : ℕ) :
    Triple G (fun s => s.operstate = op) (startScan freq) fun ret s =>
      s.operstate = op ∧ (0 ≤ ret → s.scanstate ≠ .idle) := by
  refine (startScan_ok hG (V := fun c => c.operstate = op) freq).post ?_
  rintro ret s (⟨hr, h⟩ | ⟨-, hs, ss, h⟩)
  · exact ⟨h, fun h0 => absurd hr (not_lt.mpr h0)⟩
  · exact ⟨h, fun _ => hs⟩

/-- **`proceed_with_connect`** starts an attempt, or leaves the top level alone. -/
theorem proceedWithConnect_ok :
    Triple G (fun s => V (ctl s) ∧ n ≤ attempts s.log) proceedWithConnect fun ret s =>
      ret < 0 ∧ V (ctl s) ∧ n ≤ attempts s.log ∨ 0 ≤ ret ∧ Arrived n s := by
  have hk : ∀ {α : Type} {x : M α}, Keeps ctl x →
      Triple G (fun s => V (ctl s) ∧ n ≤ attempts s.log) x fun _ s => V (ctl s) ∧
        n ≤ attempts s.log :=
    fun hx => triple_of_keeps hG (V := fun c => V c ∧ n ≤ c.attempts) hx
  refine .seq (hk fun _ => rfl) (.bind (hk fun _ => rfl) fun ret => ?_)
  refine .ite (fun hr => .pure fun s h => .inl ⟨hr, h⟩) fun _ =>
    .bind (hk openRawsock_ctl) fun ret => ?_
  refine .ite (fun hr => .pure fun s h => .inl ⟨hr, h⟩) fun _ =>
    .bind (hk startConnection_ctl) fun ret => ?_
  refine .ite (fun hr => .pure fun s h => .inl ⟨hr, h⟩) fun hr => ?_
  refine .bind (Q := fun _ s => s.timer = some (2, .connectTimeout) ∧ n ≤ attempts s.log)
    (triple_modify hG (fun _ => rfl) fun s h => ⟨rfl, h.2⟩) fun _ => ?_
  refine .bind (Q := fun _ s => s.operstate = .connecting ∧ s.timer = some (2, .connectTimeout) ∧
    n ≤ attempts s.log) (triple_modify hG (fun _ => rfl) fun s h => ⟨rfl, h⟩) fun _ => ?_
  refine .bind (Q := fun _ s => Arrived n s) (triple_modify hG (fun _ => rfl) ?_) fun _ => ?_
  · rintro s ⟨ho, ht, hn⟩
    have ha : s.operstate.isAbort = true → s.abortstate.isPending = false := by
      rw [ho]
      exact fun h => nomatch h
    exact ⟨.inr ⟨ho, Nat.lt_succ_of_le hn⟩,
      going_of_timer (c := ctl _) (congrArg timeout ho) ht ha⟩
  · exact .pure fun s h => .inr ⟨not_lt.mp hr, h⟩

lemma connectToSomething_ok :
    Triple G (fun s => V (ctl s) ∧ n ≤ attempts s.log) connectToSomething fun ret s =>
      ret < 0 ∧ V (ctl s) ∧ n ≤ attempts s.log ∨ 0 ≤ ret ∧ Arrived n s := by
  refine .bind (triple_of_keeps hG (V := fun c => V c ∧ n ≤ c.attempts) pickBestBss_ctl) fun ret =>
    ?_
  exact .ite (fun hr => .pure fun s h => .inl ⟨hr, h⟩) fun _ => proceedWithConnect_ok hG

/-- Setting `operstate` to a state of rest. -/
theorem setOperstate_ok {op : Oper} (hl : op.isLanding = true) (hr : op.isRest = true) :
    Triple G P (setOperstate op) fun _ s => Arrived n s :=
  triple_modify hG (fun _ => rfl) fun _ _ => arrived_of_eq rfl hl hr

/-- What comes before that does not matter, as long as it makes no slip. -/
theorem triple_any {α : Type} {x : M α} (hx : Keeps (fun s => (ctl s).slips) x) :
    Triple G P x fun _ _ => True :=
  fun s => ⟨hG.keep (hx s), fun _ _ => trivial⟩

/-- **`try_another_bss`** always lands. -/
theorem tryAnotherBss_ok : Triple G (fun s => n ≤ attempts s.log) tryAnotherBss fun _ s =>
    Arrived n s := by
  have hs : ∀ {α : Type} {x : M α}, Keeps ctl x → Keeps (fun s => (ctl s).slips) x :=
    fun hx => hx.comp Ctl.slips
  refine .bind ((connectToSomething_ok hG (V := fun _ => True)).pre fun s h => ⟨trivial, h⟩)
    fun ret => ?_
  refine .ite (fun hr => .pure ?_) fun _ => ?_
  · rintro s (⟨hr', -⟩ | ⟨-, h⟩)
    · exact absurd hr' (not_lt.mpr hr)
    · exact h
  refine .bind (triple_any hG (hs (keeps_ctl (trigger_view _)))) fun _ => ?_
  refine .bind (triple_any hG (hs (keeps_ctl (report_view _)))) fun _ => .test ?_ ?_
  · exact .bind (triple_any hG fun _ => rfl) fun _ => setOperstate_ok hG rfl rfl
  · refine .bind (triple_any hG fun _ => rfl) fun _ => .bind (triple_any hG fun _ => rfl) fun _ =>
      ?_
    exact setOperstate_ok hG rfl rfl

lemma reconnectCurrent_ok :
    Triple G (fun s => n ≤ attempts s.log) reconnectCurrent fun _ s => Arrived n s := by
  refine .bind (triple_of_keeps hG (V := fun c => n ≤ c.attempts)
    (keeps_ctl currentBssInScans_view)) fun _ => ?_
  refine .ite (fun _ => tryAnotherBss_ok hG) fun _ => ?_
  refine .bind ((proceedWithConnect_ok hG (V := fun _ => True)).pre fun s h => ⟨trivial, h⟩)
    fun ret => ?_
  refine .ite (fun hr => (tryAnotherBss_ok hG).pre ?_) fun hr => .pure ?_
  · rintro s (⟨-, -, h⟩ | ⟨hr', -⟩)
    · exact h
    · exact absurd hr (not_lt.mpr hr')
  · rintro s (⟨hr', -⟩ | ⟨-, h⟩)
    · exact absurd hr' hr
    · exact h

/-- **`rescan_current_bss`** always lands. -/
theorem rescanCurrentBss_ok : Triple G P rescanCurrentBss fun _ s => Arrived n s := by
  refine .bind (Q := fun _ s => s.operstate = .bssScan)
    (triple_modify hG (fun _ => rfl) fun _ _ => rfl) fun _ => ?_
  refine .bind (triple_of_keeps hG (V := fun c => c.operstate = .bssScan) fun _ => rfl) fun _ =>
    .get fun t => ?_
  refine .bind ((startScan_in hG _).pre fun s h => h.1) fun ret =>
    .ite (fun hr => .pure ?_) fun _ => ?_
  · rintro s ⟨ho, hs⟩
    exact arrived_of_scan ho rfl rfl (hs hr)
  · refine .bind (Q := fun _ s => s.operstate = .searching)
      (triple_modify hG (fun _ => rfl) fun _ _ => rfl) fun _ => ?_
    exact triple_modify hG (fun _ => rfl) fun s h => arrived_of_eq h rfl rfl

lemma lostGoodConnection_ok : Triple G P lostGoodConnection fun _ s => Arrived n s :=
  .bind (triple_any hG fun _ => rfl) fun _ => .bind (triple_any hG fun _ => rfl) fun _ =>
    rescanCurrentBss_ok hG

lemma expectedDisconnect_ok : Triple G P expectedDisconnect fun _ s => Arrived n s :=
  .bind (triple_any hG fun _ => rfl) fun _ => .bind (triple_any hG fun _ => rfl) fun _ =>
    setOperstate_ok hG rfl rfl

lemma snapToMonitoring_ok : Triple G P snapToMonitoring fun _ s => Arrived n s :=
  .bind (triple_any hG fun _ => rfl) fun _ => .bind (triple_any hG fun _ => rfl) fun _ =>
    .bind (triple_any hG fun _ => rfl) fun _ => setOperstate_ok hG rfl rfl

lemma snapToNetdown_ok : Triple G P snapToNetdown fun _ s => Arrived n s := by
  refine .bind (triple_any hG fun _ => rfl) fun _ => .bind (triple_any hG fun _ => rfl) fun _ => ?_
  refine .bind (triple_any hG fun _ => rfl) fun _ => .bind (triple_any hG fun _ => rfl) fun _ => ?_
  refine .bind (triple_any hG fun _ => rfl) fun _ => .bind (triple_any hG fun s => ?_) fun _ => ?_
  · show (ctl (if s.ap.success then s else { s with ap := Ap.zero })).slips = _
    split_ifs
    · rfl
    · rfl
  · refine triple_modify hG (fun _ => rfl) fun s _ => ?_
    by_cases hs : s.ap.slen ≠ 0
    · exact @arrived_of_eq _ _ .netdown (if_pos hs) rfl rfl
    · exact @arrived_of_eq _ _ .stopped (if_neg hs) rfl rfl

lemma nextBss_ok (err : ℤ) : Triple G (fun s => n ≤ attempts s.log)
    (nextBss err) fun _ s => Arrived n s := by
  refine .ite (fun _ => ?_) fun _ => .ite (fun _ => ?_) fun _ => ?_
  · exact .bind (triple_any hG fun _ => rfl) fun _ => snapToNetdown_ok hG
  · exact .bind (triple_any hG fun _ => rfl) fun _ => snapToMonitoring_ok hG
  · exact .seq (triple_modify hG (fun _ => rfl) fun _ h => h) (tryAnotherBss_ok hG)

/-- **`unexpected_disconnect`** lands, or leaves the top level alone. -/
theorem unexpectedDisconnect_ok (err : ℤ) :
    Triple G (fun s => V (ctl s) ∧ n ≤ attempts s.log) (unexpectedDisconnect err) fun _ s =>
      Arrived n s ∨ V (ctl s) ∧ s.operstate ∉ [connecting, .eapol] ∧
        s.operstate ∉ [connected, .bgScan] := by
  refine .test (((nextBss_ok hG err).pre fun s h => h.1.2).post fun _ _ => .inl) (.test ?_ ?_)
  · refine .ite (fun _ => (lostGoodConnection_ok hG).post fun _ _ => .inl) fun _ => ?_
    exact ((nextBss_ok hG err).pre fun s h => h.1.1.2).post fun _ _ => .inl
  · exact .pure fun s h => .inr ⟨h.1.1.1, h.1.2, h.2⟩

end Landing

/-! ### Ends of connections -/

/-- The states in which the end of a connection leads somewhere else. -/
def Oper.moves (op : Oper) : Bool := op ∈ [.connecting, .eapol, .connected, .bgScan, .disconnecting]

/-- What remains, apart from aborts and from waiting for the script. -/
theorem Oper.rest_or_scan {op : Oper} (hm : op.moves = false) (hp : op.isPending = false) :
    op.isRest = true ∨ op ∈ [fgScan, .netScan, .bssScan] ∧ op.isScan = true := by
  revert hm hp
  cases op <;> decide

section Ended

variable {G : Sys → Prop} (hG : Past G) {n : ℕ} {V : Ctl → Prop} {Q : Sys → Prop}
include hG

lemma tryFastRescan_of (hr : Triple G (fun s => n ≤ attempts s.log) reassessSituation fun _ => Q)
    (hq : ∀ s, Arrived n s → Q s) :
    Triple G (fun s => n ≤ attempts s.log) tryFastRescan fun _ => Q :=
  .test ((rescanCurrentBss_ok hG).post fun _ s => hq s) (hr.pre fun _ h => h.1)

/-- **The end of a connection lands**, or leaves the top level alone. -/
theorem endedIn_ok (hr : Triple G (fun s => n ≤ attempts s.log) reassessSituation fun _ => Q)
    (hq : ∀ s, Arrived n s → Q s) (err : ℤ) :
    Triple G (fun s => V (ctl s) ∧ n ≤ attempts s.log) (endedIn err) fun _ s =>
      Q s ∨ V (ctl s) ∧ s.operstate.moves = false := by
  refine .test (((tryFastRescan_of hG hr hq).pre fun _ h => h.1.2).post fun _ _ => .inl) ?_
  refine .bind ((triple_of_keeps hG (V := fun c => V c ∧ n ≤ c.attempts)
    (keeps_ctl (report_view _))).pre fun s h => h.1) fun _ => .test ?_ ?_
  · exact (expectedDisconnect_ok hG).post fun _ s h => .inl (hq s h)
  · refine ((unexpectedDisconnect_ok hG (V := fun c => V c ∧ c.operstate ≠ .disconnecting) err).pre
      fun _ h => ⟨⟨h.1.1, h.2⟩, h.1.2⟩).post ?_
    rintro - s (h | ⟨⟨hv, hd⟩, hc, hg⟩)
    · exact .inl (hq s h)
    · refine .inr ⟨hv, ?_⟩
      revert hd hc hg
      show s.operstate ≠ _ → _
      generalize s.operstate = op
      cases op <;> decide

end Ended

/-- What `connection_ended` takes to have ended. -/
def Sys.resumes (s : Sys) : Oper := if s.operstate = .aborting then s.abortstate else s.operstate

section Landed

variable {n : ℕ} {op : Oper}

lemma reassessSituation_landed {P : Sys → Prop} :
    Triple (fun _ => True) P reassessSituation fun _ => Landed n := by
  refine .bind (Q := fun _ s => s.operstate = .netScan) (.of_forall fun _ _ => rfl) fun _ => ?_
  refine .bind (startScan_in true_past 0) fun ret => .ite (fun _ => .get fun t => ?_) fun _ => ?_
  · exact .of_forall fun s h => .inl (congrArg isLanding h.1.1)
  · refine .bind (Q := fun _ s => s.operstate = .searching) (.of_forall fun _ _ => rfl) fun _ => ?_
    exact .of_forall fun s h => .inl (congrArg isLanding h)

/-- **Where `connection_ended` leads**, slips or not. -/
theorem connectionEnded_landed (err : ℤ) :
    Triple (fun _ => True) (fun s => s.resumes = op ∧ n ≤ attempts s.log) (connectionEnded err)
      fun _ s => Landed n s ∨ s.operstate = op ∧ op.moves = false := by
  have he : ∀ err, Triple (fun _ => True) (fun s => s.operstate = op ∧ n ≤ attempts s.log)
    (endedIn err) fun _ s => Landed n s ∨ s.operstate = op ∧ op.moves = false := by
    intro err
    refine (endedIn_ok true_past (V := fun c => c.operstate = op) reassessSituation_landed
      (fun s h => h.1) err).post ?_
    rintro - s (h | ⟨h, hm⟩)
    · exact .inl h
    · exact .inr ⟨h, (congrArg moves h).symm.trans hm⟩
  refine .get fun t => .bind (Q := fun _ s => s.resumes = op ∧ n ≤ attempts s.log)
    (.of_forall fun s h => h.1) fun _ => ?_
  refine .bind (Q := fun _ s => s.resumes = op ∧ n ≤ attempts s.log)
    (.of_forall fun s h => h) fun _ => ?_
  refine .test (.get fun t => .get fun u => ?_) ((he err).pre ?_)
  · refine .bind (Q := fun _ s => s.abortstate = op ∧ n ≤ attempts s.log) (.of_forall ?_) fun _ =>
      ?_
    · rintro s ⟨⟨⟨⟨hr, hn⟩, ha⟩, -⟩, -⟩
      exact ⟨(if_pos ha).symm.trans hr, hn⟩
    · refine .bind (Q := fun _ s => s.operstate = op ∧ n ≤ attempts s.log)
        (.of_forall fun s h => h) fun _ => ?_
      exact .get fun t => (he _).pre fun s h => h.1
  · rintro s ⟨⟨hr, hn⟩, ha⟩
    exact ⟨(if_neg ha).symm.trans hr, hn⟩

/-- `start_disconnect`, and `connection_ended` if it fails. -/
theorem startDisconnect_landed {a : Oper} {f : ℤ → M Unit}
    (hf : ∀ ret, ∃ err, f ret = if ret ≥ 0 then setTimer 1 .abortTimeout else connectionEnded err) :
    Triple (fun _ => True) (fun s => s.operstate = a ∧ s.resumes = op ∧ n ≤ attempts s.log)
      (startDisconnect >>= f)
      fun _ s => s.operstate = a ∨ Landed n s ∨ s.operstate = op ∧ op.moves = false := by
  refine .bind (triple_of_keeps true_past (V := fun c => c.operstate = a ∧
    (if c.operstate = .aborting then c.abortstate else c.operstate) = op ∧ n ≤ c.attempts)
    startDisconnect_ctl) fun ret => ?_
  obtain ⟨err, he⟩ := hf ret
  rw [he]
  refine .ite (fun _ => .of_forall fun s h => .inl h.1) fun _ => ?_
  exact ((connectionEnded_landed err).pre fun s h => h.2).post fun _ _ => .inr

/-- **Where `script_exit` leads** after a disconnect. -/
theorem scriptExit_waitDisconn :
    Triple (fun _ => True) (fun s => s.operstate = .waitDisconn ∧ n ≤ attempts s.log) scriptExit
      fun _ s => s.operstate = .disconnecting ∨ Landed n s := by
  refine .test ?_ (.of_forall fun s h => absurd h.1.1 h.2)
  refine .bind (Q := fun _ s => s.operstate = .disconnecting ∧ s.resumes = .disconnecting ∧
    n ≤ attempts s.log)
    (.of_forall fun s h => ⟨rfl, rfl, h.1.2⟩) fun _ => ?_
  refine (startDisconnect_landed fun ret => ⟨-ESRCH, rfl⟩).post ?_
  rintro - s (h | h | ⟨-, h⟩)
  · exact .inl h
  · exact .inr h
  · cases h

/-- The same, after an abort. -/
theorem scriptExit_waitAbort :
    Triple (fun _ => True) (fun s => s.operstate = .waitAbort ∧ s.abortstate = op ∧
      n ≤ attempts s.log)
      scriptExit fun _ s => s.operstate = .aborting ∨ Landed n s ∨ s.operstate = op ∧
        op.moves = false := by
  refine .test (.of_forall ?_) (.test ?_ (.of_forall fun s h => absurd h.1.1.1 h.2))
  · rintro s ⟨⟨h, -⟩, h'⟩
    cases h.symm.trans h'
  · refine .bind (Q := fun _ s => s.operstate = .aborting ∧ s.resumes = op ∧ n ≤ attempts s.log)
      (.of_forall fun s h => ⟨rfl, h.1.1.2⟩) fun _ => ?_
    exact startDisconnect_landed fun ret => ⟨-ESRCH, rfl⟩

/-- It does nothing in any other state. -/
theorem scriptExit_idle {s : Sys} (h : s.operstate ∉ [waitAbort, .waitDisconn]) :
    scriptExit s = ((), s) := by
  rw [List.mem_pair, not_or] at h
  rw [scriptExit, run_bind, run_get, run_ite, if_neg h.2, run_bind, run_get, run_ite, if_neg h.1]
  rfl

end Landed

/-! ### The end of the script in the middle of a handler -/

/-- What all of it leaves alone: where an abort goes back to, and the attempts so far. -/
def Grown (a : Oper) (n : ℕ) (s : Sys) : Prop := s.abortstate = a ∧ n ≤ attempts s.log

section Grown

variable {a : Oper} {n : ℕ}

lemma grown_of_ctl {α : Type} {x : M α} (hx : Keeps ctl x) : Preserves (Grown a n) x :=
  fun s h => ⟨(congrArg Ctl.abortstate (hx s)).trans h.1,
    h.2.trans_eq (congrArg Ctl.attempts (hx s)).symm⟩

lemma startScan_grown (freq : ℕ) : Preserves (Grown a n) (startScan freq) := by
  refine .test (.pure _) (.test (.test (.pure _) (.pure _)) ?_)
  exact .bind (grown_of_ctl (keeps_ctl triggerScan_view)) fun _ =>
    .ite (.pure _) (.seq (fun _ h => h) (.pure _))

lemma connectToSomething_grown : Preserves (Grown a n) connectToSomething := by
  refine .bind (grown_of_ctl pickBestBss_ctl) fun _ => .ite (.pure _) ?_
  refine .seq (fun _ h => h) (.bind (fun _ h => h) fun _ => .ite (.pure _) ?_)
  refine .bind (grown_of_ctl openRawsock_ctl) fun _ => .ite (.pure _) ?_
  refine .bind (grown_of_ctl startConnection_ctl) fun _ => .ite (.pure _) ?_
  refine .seq (fun _ h => h) (.seq (fun _ h => h) (.seq (fun s h => ?_) (.pure _)))
  exact ⟨h.1, Nat.le_succ_of_le h.2⟩

lemma tryAnotherBss_grown : Preserves (Grown a n) tryAnotherBss := by
  refine .bind connectToSomething_grown fun _ =>
    .ite (.pure _) (.seq (fun _ h => h) (.seq (fun _ h => h) ?_))
  exact .test (.seq (fun _ h => h) fun _ h => h)
    (.seq (fun _ h => h) (.seq (fun _ h => h) fun _ h => h))

lemma rescanCurrentBss_grown : Preserves (Grown a n) rescanCurrentBss := by
  refine .seq (fun _ h => h) (.seq (fun _ h => h)
    (.get fun _ => .bind (startScan_grown _) fun _ => ?_))
  exact .ite (.pure _) (.seq (fun _ h => h) fun _ h => h)

lemma reassessSituation_grown : Preserves (Grown a n) reassessSituation := by
  refine .seq (fun _ h => h) (.bind (startScan_grown 0) fun _ => .ite (.get fun _ _ h => h) ?_)
  exact .seq (fun _ h => h) fun _ h => h

lemma nextBss_grown (err : ℤ) : Preserves (Grown a n) (nextBss err) := by
  refine .ite (.seq (fun _ h => h) ?_) (.ite (.seq (fun _ h => h) ?_)
    (.seq (fun _ h => h) tryAnotherBss_grown))
  · refine .seq (fun _ h => h) (.seq (fun _ h => h) (.seq (fun _ h => h) (.seq (fun _ h => h) ?_)))
    refine .seq (fun _ h => h) (.seq (.modify fun s h => ?_) fun _ h => h)
    split_ifs
    · exact h
    · exact h
  · exact .seq (fun _ h => h) (.seq (fun _ h => h) (.seq (fun _ h => h) fun _ h => h))

lemma endedIn_grown (err : ℤ) : Preserves (Grown a n) (endedIn err) := by
  refine .test (.test rescanCurrentBss_grown reassessSituation_grown)
    (.seq (fun _ h => h) (.test ?_ ?_))
  · exact .seq (fun _ h => h) (.seq (fun _ h => h) fun _ h => h)
  refine .test (nextBss_grown err) (.test (.ite ?_ (nextBss_grown err)) (.pure _))
  exact .seq (fun _ h => h) (.seq (fun _ h => h) rescanCurrentBss_grown)

lemma scriptExit_grown : Preserves (Grown a n) scriptExit := by
  have hended : ∀ err, Preserves (Grown a n) (connectionEnded err) := by
    intro err
    refine .get fun _ => .seq (fun _ h => h) (.seq (fun _ h => h) (.test ?_ (endedIn_grown err)))
    exact .get fun _ => .get fun _ => .seq (fun _ h => h)
      (.seq (fun _ h => h) (.get fun _ => endedIn_grown _))
  have hnow : Preserves (Grown a n) disconnectNow :=
    .bind (grown_of_ctl startDisconnect_ctl) fun _ => .ite (fun _ h => h) (hended _)
  exact .test (.seq (fun _ h => h) hnow) (.test (.seq (fun _ h => h) hnow) (.pure _))

end Grown

/-- What `script_exit` preserves is preserved by it in the middle of a handler. -/
theorem interrupted_preserves {I : Sys → Prop} (hx : Preserves I scriptExit)
    (hI : ∀ {s t : Sys}, s.operstate = t.operstate → s.abortstate = t.abortstate →
      attempts s.log = attempts t.log → I s → I t) : Preserves I interrupted := by
  refine .bind (fun s => hI rfl rfl rfl) fun pid => .test (.pure _) (.get fun _ => ?_)
  refine .seq (fun s => hI rfl rfl rfl) (.ite (.pure _) (.test (.pure _) ?_))
  exact .seq (fun s => hI rfl rfl rfl) hx

section Abort

variable {op : Oper} {n : ℕ}

/-- In the middle of an abort of a connection, it puts off the abort or ends it. -/
theorem interrupted_abort (hm : op.moves = true) :
    Preserves (fun s => Grown op n s ∧ (s.operstate.isAbort = true ∨ Landed n s)) interrupted := by
  refine interrupted_preserves (fun s h => ⟨scriptExit_grown s h.1, ?_⟩) ?_
  · by_cases hw : s.operstate = .waitAbort
    · obtain h | h | ⟨-, h⟩ := scriptExit_waitAbort.forall_of ⟨hw, h.1⟩
      · exact .inl (congrArg isAbort h)
      · exact .inr h
      · exact nomatch hm.symm.trans h
    · have hd : s.operstate ≠ .waitDisconn := by
        rintro hd
        rcases h.2 with h | h | h
        · exact nomatch (congrArg isAbort hd).symm.trans h
        · exact nomatch (congrArg isLanding hd).symm.trans h
        · exact nomatch hd.symm.trans h.1
      rw [scriptExit_idle fun h => (List.mem_pair.mp h).elim hw hd]
      exact h.2
  · rintro s t ho ha hn ⟨hg, h⟩
    exact ⟨⟨ha ▸ hg.1, hn ▸ hg.2⟩, by rwa [Landed, ← ho, ← hn]⟩

/-- **Where `abort_connection` leads** from a connection, slips or not. -/
theorem abortConnection_landed (hm : op.moves = true) (err : ℤ) :
    Triple (fun _ => True) (fun s => s.operstate = op ∧ n ≤ attempts s.log) (abortConnection err)
      fun _ s => s.operstate.isAbort = true ∨ Landed n s := by
  have hop : op ∉ [waitAbort, .waitDisconn] := by
    revert hm
    cases op <;> decide
  have hi : Preserves (fun s => s.operstate = op ∧ n ≤ attempts s.log) interrupted := by
    refine interrupted_preserves (fun s h => ?_) fun ho _ hn h => ⟨ho ▸ h.1, hn ▸ h.2⟩
    rw [scriptExit_idle (h.1 ▸ hop)]
    exact h
  refine .get fun t => .bind (Q := fun _ s => s.operstate = op ∧ n ≤ attempts s.log)
    (.of_forall fun s h => h.1) fun _ => .seq (.of_preserves hi) ?_
  refine .seq (T := fun s => Grown op n s ∧ (s.operstate.isAbort = true ∨ Landed n s))
    (.of_forall fun s h => ⟨h, .inl rfl⟩) (.seq (.of_preserves (interrupted_abort hm)) ?_)
  refine .bind (triple_of_keeps true_past (V := fun c => (c.abortstate = op ∧ n ≤ c.attempts) ∧
    (c.operstate.isAbort = true ∨ c.operstate.isLanding = true ∨
      c.operstate = .connecting ∧ n < c.attempts)) (keeps_ctl killScript_view)) fun ret => ?_
  refine .ite (fun _ => .seq (.of_preserves (interrupted_abort hm)) ?_) fun _ => ?_
  · exact .of_forall fun s h => h.2
  · refine .bind (Q := fun _ s => s.operstate = .aborting ∧ s.resumes = op ∧ n ≤ attempts s.log)
      (.of_forall fun s h => ⟨rfl, h.1⟩) fun _ => ?_
    refine (startDisconnect_landed fun ret => ⟨ret, rfl⟩).post ?_
    rintro - s (h | h | ⟨-, h⟩)
    · exact .inl (congrArg isAbort h)
    · exact .inr h
    · exact nomatch hm.symm.trans h

end Abort

lemma leaves_of_landed {t : Sys} (hs : s.operstate.isLanding = false)
    (h : Landed (attempts s.log) t) : Leaves s t := by
  rcases h with h | h
  · refine .inl fun ho => ?_
    rw [ho, hs] at h
    cases h
  · exact .inr h.2

section Timeout

/-! `t` is the state the timer fires in: like `s`, but with no timer set any more. -/

/-- Nothing has happened since. -/
def Unmoved (s t : Sys) : Prop := t.operstate = s.operstate ∧ Grown s.abortstate (attempts s.log) t

/-- The machine has left its state, and does not wait for the script any more. -/
def Gone (s t : Sys) : Prop := t.operstate ∉ [waitAbort, .waitDisconn] ∧ Leaves s t

variable {s t : Sys}

lemma leaves_connectTimeout (h : Unmoved s t) (hm : s.operstate.moves = true)
    (hl : s.operstate.isLanding = false) (hb : s.operstate.isAbort = false) :
    Leaves s (connectTimeout t).2 := by
  obtain h | h := (abortConnection_landed hm (-ETIMEDOUT)).forall_of ⟨h.1, h.2.2⟩
  · refine .inl fun he => ?_
    rw [← he] at hb
    exact nomatch hb.symm.trans h
  · exact leaves_of_landed hl h

lemma leaves_abortTimeout (h : Unmoved s t)
    (hr : t.resumes = s.operstate → s.operstate.moves = true)
    (hl : s.operstate.isLanding = false) : Leaves s (abortTimeout t).2 := by
  obtain h | ⟨h, hm⟩ := (@connectionEnded_landed _ t.resumes (-ETIMEDOUT)).forall_of
    (s := (resetAuthState t).2) ⟨rfl, h.2.2⟩
  · exact leaves_of_landed hl h
  · refine .inl fun he => ?_
    have hre : t.resumes = s.operstate := h.symm.trans he
    rw [hre] at hm
    exact nomatch (hr hre).symm.trans hm

/-- **`script_exit` moves the machine on**, where the script is waited for. -/
theorem scriptExit_gone (hw : s.operstate ∈ [waitAbort, .waitDisconn])
    (hp : s.operstate.isAbort = true → s.abortstate.isPending = false)
    (h : Unmoved s t ∨ Gone s t) : Gone s (scriptExit t).2 := by
  have hl : s.operstate.isLanding = false := by
    revert hw
    cases s.operstate <;> decide
  have hland : ∀ {u : Sys}, Landed (attempts s.log) u → Gone s u := by
    refine fun {u} h => ⟨fun hu => ?_, leaves_of_landed hl h⟩
    rcases h with h | ⟨h, -⟩ <;> revert h hu <;> cases u.operstate <;> decide
  rcases h with ⟨ho, hg⟩ | h
  · rcases List.mem_pair.mp hw with hs | hs
    · obtain h | h | ⟨h, -⟩ := scriptExit_waitAbort.forall_of ⟨ho.trans hs, hg⟩
      · rw [Gone, Leaves, h, hs]
        exact ⟨by decide, .inl (by decide)⟩
      · exact hland h
      · have ha : (scriptExit t).2.operstate.isPending = false := h ▸ hp (congrArg isAbort hs)
        rw [Gone, Leaves, hs]
        revert ha
        cases (scriptExit t).2.operstate <;> simp [isPending]
    · obtain h | h := scriptExit_waitDisconn.forall_of ⟨ho.trans hs, hg.2⟩
      · rw [Gone, Leaves, h, hs]
        exact ⟨by decide, .inl (by decide)⟩
      · exact hland h
  · rw [scriptExit_idle h.1]
    exact h

lemma leaves_swaitTimeout (hw : s.operstate ∈ [waitAbort, .waitDisconn])
    (hp : s.operstate.isAbort = true → s.abortstate.isPending = false)
    (h : Unmoved s t ∨ Gone s t) : Leaves s (swaitTimeout t).2 := by
  have hctl : ctl (forceScript t).2 = ctl t := keeps_ctl forceScript_view t
  refine (scriptExit_gone (t := (forceScript t).2) hw hp ?_).2
  have ho : (forceScript t).2.operstate = t.operstate := congrArg Ctl.operstate hctl
  have ha : (forceScript t).2.abortstate = t.abortstate := congrArg Ctl.abortstate hctl
  have hn : attempts (forceScript t).2.log = attempts t.log := congrArg Ctl.attempts hctl
  rwa [Unmoved, Grown, Gone, Leaves, ho, ha, hn]

/-- What the timer fires in, if the script ends just before. -/
theorem interrupted_timer (hp : s.operstate.isAbort = true → s.abortstate.isPending = false) :
    Preserves (fun t => Unmoved s t ∨ s.operstate ∈ [waitAbort, .waitDisconn] ∧ Gone s t)
      interrupted := by
  refine interrupted_preserves (fun t h => ?_) ?_
  · by_cases hw : s.operstate ∈ [waitAbort, .waitDisconn]
    · exact .inr ⟨hw, scriptExit_gone hw hp (h.imp_right And.right)⟩
    · have hs : Unmoved s t := h.resolve_right fun h => hw h.1
      rw [scriptExit_idle (hs.1 ▸ hw)]
      exact .inl hs
  · rintro u v ho ha hn h
    rwa [Unmoved, Grown, Gone, Leaves, ← ho, ← ha, ← hn]

end Timeout

lemma leaves_call {t : Sys} (hg : Going (ctl s)) (hc : s.operstate.timeout = some cb)
    (h : Unmoved s t ∨ s.operstate ∈ [waitAbort, .waitDisconn] ∧ Gone s t) :
    Leaves s (cb.call t).2 := by
  have ha : s.operstate.isAbort = true → s.abortstate.isPending = false := hg.abort
  -- the six states that are timed, each with the function that times it
  cases hs : s.operstate <;> rw [hs] at hc ha h <;> cases hc
  case waitDisconn | waitAbort =>
    refine leaves_swaitTimeout ?_ ?_ (h.imp_right And.right)
    all_goals rw [hs]
    all_goals first | decide | exact ha
  all_goals have h : Unmoved s t := h.resolve_right fun h => absurd h.1 (by decide)
  case connecting | eapol =>
    refine leaves_connectTimeout h ?_ ?_ ?_
    all_goals rw [hs]; rfl
  case disconnecting =>
    refine leaves_abortTimeout h (fun _ => ?_) ?_
    all_goals rw [hs]; rfl
  case aborting =>
    refine leaves_abortTimeout h (fun hr => ?_) ?_
    · have hb : s.abortstate = .aborting :=
        h.2.1.symm.trans (((if_pos (h.1.trans hs)).symm.trans hr).trans hs)
      exact nomatch (congrArg isPending hb).symm.trans (ha rfl)
    · rw [hs]
      rfl

/-- **A timer moves the machine on.** -/
theorem leaves_of_going (hg : Going (ctl s)) {m : ℕ}
    (hc : s.operstate.timeout = some cb) (ht : s.timer = some (m, cb)) (env : Env) :
    Leaves s (s.next ⟨.timer, env⟩) := by
  have hn : s.next ⟨.timer, env⟩ =
      (cb.call { (interrupted { s with env := env }).2 with timer := none }).2 := by
    rw [Sys.next, handle, timerExpired, run_bind, run_get]
    rw [ht]
    rfl
  rw [hn]
  exact leaves_call hg hc (interrupted_timer hg.abort { s with env := env }
    (.inl ⟨rfl, rfl, le_rfl⟩))

/-- **The invariant is enough.** -/
theorem live_of_going (hg : Going (ctl s)) : Live s := by
  intro hw
  have hop : s.operstate.isScan = true ∨ s.operstate.timeout.isSome = true := by
    revert hw
    cases s.operstate <;> decide
  rcases hop with hs | hc
  · exact .inl ⟨hs, hg.scan hs⟩
  · obtain ⟨cb, hc⟩ := Option.isSome_iff_exists.mp hc
    obtain ⟨m, ht⟩ := hg.timer cb hc
    exact .inr ⟨m, cb, ht, leaves_of_going hg hc ht⟩

end Minibase.Wsupp
