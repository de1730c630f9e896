import Minibase.Wsupp.System

/-!
# What most of the supplicant leaves alone

`Wsupp.ctl` is the view of the top level: in what `operstate` it is, what it was doing before an
abort, which timer is set, whether a scan is going on. `Wsupp.side` is what else results are about:
`authstate`, the raw socket, the address of the access point, and what the log says of
`connection_ready` and of the key negotiations. An invariant of the second view is `Wsupp.Steady` if
it survives the few things that are ever done to it; all of the supplicant preserves it, apart from
the one place where `authstate` becomes `AS_CONNECTED` (`Wsupp.handle_steady`).
-/

namespace Minibase.Wsupp

/-! ### The log -/

/-- **The keys were cleared**: since `reset_eapol_state` was last called, `prime_eapol_state`
was not. -/
def cleared : List Mark → Bool
  | [] => false
  | .prime :: _ => false
  | .reset :: _ => true
  | _ :: l => cleared l

/-- How many times `connection_ready` was called. -/
def readies : List Mark → ℕ
  | [] => 0
  | .ready :: l => readies l + 1
  | _ :: l => readies l

/-- How many attempts to connect were started. -/
def attempts : List Mark → ℕ
  | [] => 0
  | .attempt :: l => attempts l + 1
  | _ :: l => attempts l

/-- Scans. -/
def Oper.isScan (op : Oper) : Bool := op ∈ [.fgScan, .bgScan, .netScan, .bssScan]

/-- **The branches that leave the top level without a way on**:

* an abort, while another one is going on or the script is being waited for;
* the end of a connection, while the script is being waited for;
* going back, after an abort, to a scan that is over;
* a request for the results of a scan that cannot be sent, while they are waited for;
* a scan that cannot be started in `reassess_situation`;
* the end of the script in the middle of a handler, while it is being waited for. -/
def Mark.slip : Mark → Bool
  | aborted op => op ∈ [.aborting, .waitAbort, .waitDisconn]
  | ended op => op ∈ [.waitAbort, .waitDisconn]
  | restored op scanstate => op ∈ [.fgScan, .netScan, .bssScan] ∧ scanstate = .idle
  | dumpFailed op => op.isScan
  | reassessFailed scanstate => scanstate = .idle
  | preempted op => op ∈ [.waitAbort, .waitDisconn]
  | _ => false

/-! ### Views -/

/-- The view of the top level. -/
structure Ctl where
  operstate : Oper
  abortstate : Oper
  timer : Option (ℕ × Callback)
  scanstate : Scan
  attempts : ℕ
  slips : List Mark

variable (s : Sys)

def ctl : Ctl :=
  ⟨s.operstate, s.abortstate, s.timer, s.scanstate, attempts s.log, s.log.filter Mark.slip⟩

/-- What is left over. -/
structure Side where
  authstate : Auth
  readies : ℕ
  cleared : Bool
  rawsock : Bool
  bssid : Bytes 6

def side : Side :=
  ⟨s.authstate, readies s.log, cleared s.log, s.rawsock, s.ap.bssid⟩

/-- Both. -/
def view : Side × Ctl := (side s, ctl s)

lemma keeps_side {α : Type} {x : M α} (h : Keeps view x) : Keeps side x := h.comp Prod.fst

lemma keeps_ctl {α : Type} {x : M α} (h : Keeps view x) : Keeps ctl x := h.comp Prod.snd

/-! ### Functions that leave both views alone -/

lemma syscall_view : Keeps view syscall := fun _ => rfl

lemma sigchld_view : Keeps view sigchld := fun _ => rfl

lemma getBestBss_view : Keeps view getBestBss := fun _ => rfl

lemma currentBssInScans_view : Keeps view currentBssInScans := fun _ => rfl

lemma report_view (r : Report) : Keeps view (report r) := fun _ => rfl

lemma trigger_view (cmd : Cmd) : Keeps view (trigger cmd) := fun _ => rfl

lemma putOut_view (o : Out) : Keeps view (putOut o) := fun _ => rfl

lemma triggerScan_view : Keeps view triggerScan :=
  .seq (fun _ => rfl) (.bind syscall_view fun _ => .ite (.pure _) (.pure _))

lemma killScript_view : Keeps view killScript := .test (.pure _) syscall_view

lemma forceScript_view : Keeps view forceScript :=
  .test (.pure _) (.seq syscall_view fun _ => rfl)

lemma spawnScript_view : Keeps view spawnScript := by
  refine .test (.pure _) (.bind syscall_view fun _ => .ite (.pure _) ?_)
  exact .bind syscall_view fun _ => .ite (.pure _) (.seq (fun _ => rfl) (.pure _))

lemma allowEapol_view : Keeps view allowEapol :=
  .get fun _ => .seq (putOut_view _) (.pure _)

lemma initNetlink_view (ifi : ℤ) : Keeps view (initNetlink ifi) := by
  refine .bind syscall_view fun _ => .ite (.pure _) (.get fun s => ?_)
  cases s.env.iface with
  | error err => exact .pure _
  | ok mac =>
    refine .seq (fun _ => rfl) (.get fun t => ?_)
    cases t.env.wiphy with
    | error err => exact .pure _
    | ok noauth =>
      refine .seq (fun _ => rfl) (.bind syscall_view fun _ => .ite (.pure _) ?_)
      exact .bind syscall_view fun _ => .ite (.pure _) (.pure _)

lemma openNetlink_view (ifi : ℤ) : Keeps view (openNetlink ifi) := by
  refine .test (.pure _) (.bind syscall_view fun _ => .ite (.pure _) ?_)
  refine .bind syscall_view fun _ => .ite (.pure _) ?_
  exact .bind (initNetlink_view ifi) fun _ => .ite (.pure _) (.seq (fun _ => rfl) (.pure _))

/-! ### Functions that leave the side view alone -/

lemma clearTimer_side : Keeps side clearTimer := fun _ => rfl

lemma setTimer_side (n : ℕ) (cb : Callback) : Keeps side (setTimer n cb) := fun _ => rfl

lemma setOperstate_side (op : Oper) : Keeps side (setOperstate op) := fun _ => rfl

lemma resetScanState_side : Keeps side resetScanState := fun _ => rfl

lemma startScan_side (freq : ℕ) : Keeps side (startScan freq) := by
  refine .test (.pure _) (.test (.test (.pure _) (.pure _)) ?_)
  exact .bind (keeps_side triggerScan_view) fun _ => .ite (.pure _) (.seq (fun _ => rfl) (.pure _))

lemma triggerScanDump_side : Keeps side triggerScanDump := by
  refine .get fun _ => .seq (fun _ => rfl)
    (.bind (keeps_side syscall_view) fun _ => .ite ?_ fun _ => rfl)
  exact .get fun _ => .seq (fun _ => rfl) resetScanState_side

lemma scanIn_side (op : Oper) : Keeps side (scanIn op) :=
  .bind (startScan_side 0) fun _ => .ite (setOperstate_side op) (.pure _)

lemma routineScan_side (rest op : Oper) (n : ℕ) (cb : Callback) :
    Keeps side (routineScan rest op n cb) :=
  .test (.pure _) (.seq (scanIn_side op) (setTimer_side n cb))

lemma rescanCurrentBss_side : Keeps side rescanCurrentBss := by
  refine .seq (setOperstate_side _) (.seq (fun _ => rfl) (.get fun _ => ?_))
  refine .bind (startScan_side _) fun _ => .ite (.pure _) ?_
  exact .seq (setOperstate_side _) (setTimer_side _ _)

lemma reassessSituation_side : Keeps side reassessSituation := by
  refine .seq (setOperstate_side _) (.bind (startScan_side _) fun _ => .ite ?_ ?_)
  · exact .get fun _ _ => rfl
  · exact .seq (setOperstate_side _) (setTimer_side _ _)

lemma lostGoodConnection_side : Keeps side lostGoodConnection :=
  .seq clearTimer_side (.seq (fun _ => rfl) rescanCurrentBss_side)

lemma tryFastRescan_side : Keeps side tryFastRescan :=
  .test rescanCurrentBss_side reassessSituation_side

lemma apResume_side : Keeps side apResume :=
  .test (.pure _) (.bind (startScan_side 0) fun _ => .ite (.pure _) (.seq (fun _ => rfl) (.pure _)))

/-! ### Steady invariants -/

/-- Another address of the access point. -/
def Sys.setBssid (b : Bytes 6) : Sys := { s with ap := { s.ap with bssid := b } }

/-- **An invariant of the side view that survives what is done to it.** The address of a
station is only set when the key negotiations are about to be primed, the raw socket only
opened after that, and the negotiations are only reset once the raw socket is closed or the
address is cleared. -/
structure Steady (I : Sys → Prop) : Prop where
  keep : ∀ {s t : Sys}, side t = side s → I s → I t
  auth : ∀ {s : Sys} {a : Auth}, a ≠ .connected → I s → I { s with authstate := a }
  close : ∀ {s : Sys}, I s → I { s with rawsock := false }
  clear : ∀ {s : Sys}, I s → I (s.setBssid (Bytes.zero 6))
  prime : ∀ {s : Sys} {b : Bytes 6}, I (s.setBssid b) → I { s with log := .prime :: s.log }
  opened : ∀ {s : Sys}, cleared s.log = false → I s → I { s with rawsock := true }
  reset : ∀ {s : Sys}, s.rawsock = false ∨ s.ap.bssid = Bytes.zero 6 → I s →
    I { s with log := .reset :: s.log }

section Steady

variable {I : Sys → Prop} (hI : Steady I)
include hI

lemma Steady.preserves {α : Type} {x : M α} (h : Keeps side x) : Preserves I x :=
  fun s => hI.keep (h s)

lemma setAuthstate_steady {a : Auth} (ha : a ≠ .connected) : Preserves I (setAuthstate a) :=
  fun _ h => hI.auth ha h

lemma resetAuthState_steady : Preserves I resetAuthState :=
  fun s h => hI.keep (s := { s with authstate := .idle }) rfl (hI.auth (by decide) h)

lemma triggerConnection_steady : Preserves I triggerConnection := by
  have ht : ∀ cmd, Preserves I (trigger cmd) :=
    fun cmd => hI.preserves (keeps_side (trigger_view cmd))
  refine .test (.bind (ht _) fun _ => .ite (.pure _) ?_) (.bind (ht _) fun _ => .ite (.pure _) ?_)
  · exact .seq (setAuthstate_steady hI (by decide)) (.pure _)
  · exact .seq (setAuthstate_steady hI (by decide)) (.pure _)

lemma startConnection_steady : Preserves I startConnection :=
  .seq (hI.preserves fun _ => rfl) (.test (.pure _) (triggerConnection_steady hI))

lemma startDisconnect_steady : Preserves I startDisconnect := by
  refine .test (.pure _) (.bind (hI.preserves (keeps_side (trigger_view _))) fun _ =>
    .ite (.pure _) ?_)
  exact .seq (setAuthstate_steady hI (by decide)) (.pure _)

lemma clearBssid_steady : Preserves I clearBssid :=
  fun s h => hI.keep (s := s.setBssid (Bytes.zero 6)) rfl (hI.clear h)

lemma clearSsidBssid_steady : Preserves I clearSsidBssid :=
  fun s h => hI.keep (s := s.setBssid (Bytes.zero 6)) rfl (hI.clear h)

lemma closeRawsock_steady : Preserves I closeRawsock := fun _ h => hI.close h

lemma resetEapol_steady : Triple (fun _ => True)
    (fun s => (s.rawsock = false ∨ s.ap.bssid = Bytes.zero 6) ∧ I s) resetEapol fun _ => I :=
  .of_forall fun s h => hI.keep (s := { s with log := .reset :: s.log }) rfl (hI.reset h.1 h.2)

/-- Whatever the address was set to, the invariant is back once the negotiations are
primed. -/
theorem primeEapol_steady : Triple (fun _ => True) (fun s => ∃ b, I (s.setBssid b)) primeEapol
    fun _ s => I s ∧ cleared s.log = false :=
  .of_forall fun s ⟨_, h⟩ => ⟨hI.keep (s := { s with log := .prime :: s.log }) rfl (hI.prime h),
    rfl⟩

lemma openRawsock_steady : Preserves (fun s => I s ∧ cleared s.log = false) openRawsock := by
  have hs : Preserves (fun s => I s ∧ cleared s.log = false) syscall :=
    fun s h => ⟨hI.preserves (keeps_side syscall_view) s h.1, h.2⟩
  refine .test (.pure _) (.bind hs fun _ => .ite (.pure _) (.bind hs fun _ => .ite (.pure _) ?_))
  exact .seq (fun s h => ⟨hI.opened h.2 h.1, h.2⟩) (.pure _)

lemma proceedWithConnect_steady : Triple (fun _ => True) (fun s => ∃ b, I (s.setBssid b))
    proceedWithConnect fun _ => I := by
  have hrest : Preserves I (startConnection >>= fun ret =>
      if ret < 0 then pure ret
      else setTimer 2 .connectTimeout >>= fun _ => setOperstate .connecting >>= fun _ =>
        mark .attempt >>= fun _ => pure ret) := by
    refine .bind (startConnection_steady hI) fun _ => .ite (.pure _) ?_
    refine .seq (hI.preserves (setTimer_side _ _)) (.seq (hI.preserves (setOperstate_side _)) ?_)
    exact .seq (hI.preserves fun _ => rfl) (.pure _)
  refine .bind (Q := fun _ s => ∃ b, I (s.setBssid b))
    (.of_forall fun s ⟨b, h⟩ => ⟨b, hI.keep (s := s.setBssid b) rfl h⟩) fun _ => ?_
  refine .bind (primeEapol_steady hI) fun _ => .ite (fun _ => .pure fun _ h => h.1) fun _ => ?_
  refine .bind (.of_preserves (openRawsock_steady hI)) fun _ =>
    .ite (fun _ => .pure fun _ h => h.1) fun _ => ?_
  exact (Triple.of_preserves hrest).pre fun _ h => h.1

lemma connectToSomething_steady : Preserves I connectToSomething := by
  have hpick : Triple (fun _ => True) I pickBestBss fun ret s => ∃ b, I (s.setBssid b) := by
    refine .bind (.of_preserves (hI.preserves (keeps_side getBestBss_view))) fun sc => ?_
    cases sc with
    | none => exact .pure fun s h => ⟨s.ap.bssid, h⟩
    | some sc =>
      exact .bind (Q := fun _ s => ∃ b, I (s.setBssid b))
        (.of_forall fun s h => ⟨s.ap.bssid, hI.keep (s := s) rfl h⟩) fun _ => .pure fun _ h => h
  have hfail : Triple (fun _ => True) I pickBestBss fun ret s => ret < 0 → I s := by
    refine .bind (.of_preserves (hI.preserves (keeps_side getBestBss_view))) fun sc => ?_
    cases sc with
    | none => exact .pure fun s h _ => h
    | some sc =>
      exact .bind (Q := fun _ _ => True) (.of_forall fun _ _ => trivial) fun _ =>
        .pure fun _ _ h => absurd h (lt_irrefl 0)
  intro s h
  rw [connectToSomething, run_bind, run_ite]
  split_ifs with hr
  · exact hfail.forall_of h hr
  · exact (proceedWithConnect_steady hI).forall_of (hpick.forall_of h)

lemma clearUnless_steady :
    Preserves I (modify fun s : Sys => if s.ap.success then s else { s with ap := Ap.zero }) := by
  refine .modify fun s h => ?_
  split_ifs
  · exact h
  · exact clearSsidBssid_steady hI s h

lemma snapToNetdown_steady : Preserves I snapToNetdown := by
  have hclose : Triple (fun _ => True) I closeRawsock fun _ s =>
      (s.rawsock = false ∨ s.ap.bssid = Bytes.zero 6) ∧ I s :=
    .of_forall fun s h => ⟨.inl rfl, hI.close h⟩
  have hrest := Triple.of_preserves <| (resetAuthState_steady hI).seq <|
    (hI.preserves resetScanState_side).seq <| (hI.preserves clearTimer_side).seq <|
    (clearUnless_steady hI).seq <| hI.preserves (x := modify fun s =>
      { s with operstate := if s.ap.slen ≠ 0 then .netdown else .stopped }) fun _ => rfl
  exact fun s h => (hclose.seq ((resetEapol_steady hI).seq hrest)).forall_of h

lemma tryAnotherBss_steady : Preserves I tryAnotherBss := by
  refine .bind (connectToSomething_steady hI) fun _ => .ite (.pure _) ?_
  refine .seq (hI.preserves (keeps_side (trigger_view _)))
    (.seq (hI.preserves (keeps_side (report_view _))) ?_)
  refine .test (.seq (hI.preserves (setTimer_side _ _)) (hI.preserves (setOperstate_side _))) ?_
  refine .seq (clearSsidBssid_steady hI) ?_
  exact .seq (hI.preserves (setTimer_side _ _)) (hI.preserves (setOperstate_side _))

lemma reconnectCurrent_steady : Preserves I reconnectCurrent := by
  have hp : Preserves I proceedWithConnect :=
    fun s h => (proceedWithConnect_steady hI).forall_of ⟨s.ap.bssid, h⟩
  refine .bind (hI.preserves (keeps_side currentBssInScans_view)) fun _ =>
    .ite (tryAnotherBss_steady hI) ?_
  exact .bind hp fun _ => .ite (tryAnotherBss_steady hI) (.pure _)

lemma expectedDisconnect_steady : Preserves I expectedDisconnect := by
  refine .seq (clearSsidBssid_steady hI) ?_
  exact .seq (hI.preserves (setTimer_side _ _)) (hI.preserves (setOperstate_side _))

lemma snapToMonitoring_steady : Preserves I snapToMonitoring :=
  .seq (hI.preserves (keeps_side (trigger_view _))) <| .seq (clearSsidBssid_steady hI) <|
    .seq (hI.preserves (setTimer_side _ _)) (hI.preserves (setOperstate_side _))

variable (err : ℤ)

lemma nextBss_steady : Preserves I (nextBss err) := by
  have hr : Preserves I (report .noConnect) := hI.preserves (keeps_side (report_view _))
  refine .ite (.seq hr (snapToNetdown_steady hI)) (.ite (.seq hr (snapToMonitoring_steady hI)) ?_)
  exact .seq (hI.preserves clearTimer_side) (tryAnotherBss_steady hI)

lemma unexpectedDisconnect_steady : Preserves I (unexpectedDisconnect err) :=
  .test (nextBss_steady hI err) <|
    .test (.ite (hI.preserves lostGoodConnection_side) (nextBss_steady hI err)) (.pure _)

lemma endedIn_steady : Preserves I (endedIn err) := by
  refine .test (hI.preserves tryFastRescan_side)
    (.seq (hI.preserves (keeps_side (report_view _))) ?_)
  exact .test (expectedDisconnect_steady hI) (unexpectedDisconnect_steady hI err)

lemma connectionEnded_steady : Preserves I (connectionEnded err) := by
  refine .get fun _ => .seq (hI.preserves fun _ => rfl) (.seq (hI.preserves clearTimer_side) ?_)
  refine .test (.get fun _ => .get fun _ => ?_) (endedIn_steady hI err)
  refine .seq (hI.preserves fun _ => rfl) (.seq (hI.preserves fun _ => rfl) ?_)
  exact .get fun _ => endedIn_steady hI _

lemma disconnectNow_steady : Preserves I disconnectNow :=
  .bind (startDisconnect_steady hI) fun _ =>
    .ite (hI.preserves (setTimer_side _ _)) (connectionEnded_steady hI _)

lemma scriptExit_steady : Preserves I scriptExit := by
  refine .test (.seq (hI.preserves (setOperstate_side _)) (disconnectNow_steady hI)) ?_
  exact .test (.seq (hI.preserves (setOperstate_side _)) (disconnectNow_steady hI)) (.pure _)

lemma checkScript_steady (pid : ℤ) : Preserves I (checkScript pid) :=
  .ite (.pure _) (.test (.pure _) (.seq (hI.preserves fun _ => rfl) (scriptExit_steady hI)))

lemma interrupted_steady : Preserves I interrupted := by
  refine .bind (hI.preserves (keeps_side sigchld_view)) fun pid => .test (.pure _) ?_
  exact .get fun _ => .seq (hI.preserves fun _ => rfl) (checkScript_steady hI pid)

lemma abortConnection_steady : Preserves I (abortConnection err) := by
  have hi := interrupted_steady hI
  refine .get fun _ => .seq (hI.preserves fun _ => rfl)
    (.seq hi (.seq (hI.preserves fun _ => rfl) ?_))
  refine .seq hi (.bind (hI.preserves (keeps_side killScript_view)) fun _ => .ite ?_ ?_)
  · exact .seq hi (hI.preserves (setTimer_side _ _))
  refine .seq (hI.preserves (setOperstate_side _)) (.bind (startDisconnect_steady hI) fun _ => ?_)
  exact .ite (hI.preserves (setTimer_side _ _)) (connectionEnded_steady hI _)

lemma eapolSuccess_steady : Preserves I eapolSuccess := by
  refine .test (.pure _) (.seq (hI.preserves (setOperstate_side _))
    (.seq (hI.preserves fun _ => rfl) ?_))
  refine .seq (hI.preserves (setTimer_side _ _))
    (.bind (hI.preserves (keeps_side spawnScript_view)) fun _ => ?_)
  exact .ite (abortConnection_steady hI _) (hI.preserves (keeps_side (report_view _)))

lemma searchingScan_steady : Preserves I searchingScan := by
  refine .test (.pure _) (.seq ?_ (.seq (hI.preserves (scanIn_side _))
    (hI.preserves (setTimer_side _ _))))
  exact .test (clearBssid_steady hI) (hI.preserves fun _ => rfl)

lemma call_steady (cb : Callback) : Preserves I cb.call := by
  cases cb with
  | connectTimeout => exact abortConnection_steady hI _
  | routineFgScan => exact hI.preserves (routineScan_side _ _ _ _)
  | routineBgScan => exact hI.preserves (routineScan_side _ _ _ _)
  | searchingScan => exact searchingScan_steady hI
  | abortTimeout => exact .seq (resetAuthState_steady hI) (connectionEnded_steady hI _)
  | swaitTimeout => exact .seq (hI.preserves (keeps_side forceScript_view)) (scriptExit_steady hI)

lemma scanEnded_steady : Preserves I (scanEnded err) := by
  refine .seq (hI.preserves (keeps_side (report_view _))) (.ite (snapToNetdown_steady hI) ?_)
  refine .test (tryAnotherBss_steady hI) (.test (reconnectCurrent_steady hI) ?_)
  refine .test (hI.preserves (setOperstate_side _)) (.test (hI.preserves (setOperstate_side _)) ?_)
  exact .pure _

/-- `connection_ready` logs its call, and then does nothing new. -/
theorem connectionReady_steady {s : Sys} (h : I { s with log := .ready :: s.log }) :
    I (connectionReady s).2 := by
  have hrest : Preserves I (MonadState.get >>= fun t =>
      if t.operstate ≠ .connecting then pure ()
      else setOperstate .eapol >>= fun _ => allowEapol >>= fun ret =>
        if ret ≥ 0 then pure () else abortConnection ret) := by
    refine .test (.pure _) (.seq (hI.preserves (setOperstate_side _)) ?_)
    refine .bind (hI.preserves (keeps_side allowEapol_view)) fun _ => ?_
    exact .ite (.pure _) (abortConnection_steady hI _)
  exact hrest _ h

/-! ### Steady invariants of whole inputs -/

lemma snapToExternal_steady : Preserves I snapToExternal :=
  .seq (setAuthstate_steady hI (by decide)) (connectionEnded_steady hI _)

lemma authEnded_steady : Preserves I (authEnded err) :=
  .seq (setAuthstate_steady hI (by decide)) (connectionEnded_steady hI _)

lemma nlmAuthenticate_steady : Preserves I nlmAuthenticate := by
  refine .test (.pure _) (.test (snapToExternal_steady hI) ?_)
  exact .seq (hI.preserves (keeps_side (trigger_view _))) (setAuthstate_steady hI (by decide))

lemma nlmAssociate_steady : Preserves I nlmAssociate :=
  .test (.pure _) (.test (snapToExternal_steady hI) (setAuthstate_steady hI (by decide)))

lemma nlmDisconnect_steady : Preserves I nlmDisconnect := by
  refine .test (.pure _) (.test (.bind (triggerConnection_steady hI) fun _ => ?_)
    (authEnded_steady hI _))
  exact .ite (.pure _) (authEnded_steady hI _)

lemma retryConnect_steady (ret : ℤ) : Preserves I (retryConnect ret) := by
  refine .ite (.pure _) (.test (.pure _) (.test (.pure _) ?_))
  refine .bind (hI.preserves (keeps_side (trigger_view _))) fun _ =>
    .ite (.pure _) (.seq ?_ (.pure _))
  exact fun s h => hI.keep (s := { s with authstate := .retrying }) rfl (hI.auth (by decide) h)

lemma nlmAuthError_steady : Preserves I (nlmAuthError err) := by
  refine .test (.pure _) (.bind (retryConnect_steady hI err) fun _ => ?_)
  exact .ite (.pure _) (authEnded_steady hI _)

lemma scanOver_steady : Preserves I (scanOver err) :=
  .seq (hI.preserves resetScanState_side) (scanEnded_steady hI err)

lemma genlDone_steady (seq : UInt32) : Preserves I (genlDone seq) :=
  .test (.test (.pure _) (scanOver_steady hI _)) (.pure _)

lemma genlError_steady (seq : UInt32) (err : ℤ) : Preserves I (genlError seq err) := by
  refine .ite (.pure _) (.test (.ite (.pure _) (scanOver_steady hI err)) ?_)
  exact .test (nlmAuthError_steady hI err) (abortConnection_steady hI err)

/-- `CONNECT`, if the invariant does not mind the link it reports. -/
theorem nlmConnect_steady
    (hl : ∀ s : Sys, I s → I { s with authstate := .connected, log := .ready :: s.log })
    (status : Option UInt16) : Preserves I (nlmConnect status) := by
  have hs : Preserves I (connectStatus status) := by
    rw [connectStatus]
    cases failure status with
    | some err => exact connectionEnded_steady hI err
    | none =>
      exact fun s h => connectionReady_steady hI (s := { s with authstate := .connected }) (hl s h)
  exact .test (.pure _) (.test (.seq (snapToExternal_steady hI) hs) hs)

/-- Messages other than `CONNECT`. -/
theorem dispatch_steady {msg : Msg} (h : ∀ status, msg ≠ .connect status) :
    Preserves I msg.dispatch := by
  cases msg with
  | triggerScan => exact .pure _
  | scanResults multi =>
    exact .ite (.pure _) (.test (hI.preserves triggerScanDump_side) (.pure _))
  | scanAborted => exact .test (.pure _) (scanOver_steady hI _)
  | authenticate => exact nlmAuthenticate_steady hI
  | associate => exact nlmAssociate_steady hI
  | connect status => exact absurd rfl (h status)
  | disconnect => exact nlmDisconnect_steady hI

lemma followUp_steady (c : Option Call) : Preserves I (followUp c) := by
  rcases c with - | c
  · exact .pure _
  · cases c with
    | success => exact eapolSuccess_steady hI
    | abort err => exact abortConnection_steady hI err
    | _ => exact .pure _

lemma rawsockFrame_steady (sender : Bytes 6) (frame : List UInt8) :
    Preserves I (rawsockFrame sender frame) :=
  .get fun _ => .seq (hI.preserves (keeps_side (putOut_view _))) (followUp_steady hI _)

lemma timerExpired_steady : Preserves I timerExpired := by
  refine .get fun s => ?_
  rcases s.timer with - | ⟨n, cb⟩
  · exact .pure _
  · exact .seq (interrupted_steady hI) (.seq (hI.preserves clearTimer_side) (call_steady hI cb))

/-- The address is cleared before the negotiations are reset. -/
theorem apDisconnect_steady : Preserves I apDisconnect := by
  have hdrop : Preserves I dropNetwork := by
    refine .test (.seq (hI.preserves (setOperstate_side _)) (.pure _)) ?_
    refine .seq (hI.preserves (keeps_side (trigger_view _)))
      (.seq (hI.preserves clearTimer_side) ?_)
    exact .seq (hI.preserves (setTimer_side _ _))
      (.seq (hI.preserves (setOperstate_side _)) (.pure _))
  have hreset : ∀ {y : M ℤ}, Preserves I y → Preserves I
      (clearSsidBssid >>= fun _ => resetAuthState >>= fun _ => resetEapol >>= fun _ => y) := by
    intro y hy s h
    have hc := ((clearSsidBssid_steady hI).seq (resetAuthState_steady hI)) s h
    exact hy _ ((resetEapol_steady hI).forall_of ⟨.inr rfl, hc⟩)
  have hi := interrupted_steady hI
  refine .bind (hI.preserves (keeps_side killScript_view)) fun _ => .ite ?_ ?_
  · refine .seq hi (.seq (hI.preserves (setOperstate_side _)) (.seq hi ?_))
    exact .seq (hI.preserves (setTimer_side _ _)) (.pure _)
  refine .bind (startDisconnect_steady hI) fun ret => .ite ?_ ?_
  · exact .seq (hI.preserves (setOperstate_side _))
      (.seq (hI.preserves (setTimer_side _ _)) (.pure _))
  · exact hreset (.test (.pure ret) hdrop)

/-- Here it is cleared right after. -/
theorem apDetach_steady : Preserves I apDetach := by
  have hreset : Preserves I (resetEapol >>= fun _ => clearSsidBssid) := fun s h =>
    hI.keep (s := { s.setBssid (Bytes.zero 6) with log := .reset :: s.log }) rfl
      (hI.reset (.inr rfl) (hI.clear h))
  have hrest : Preserves I (resetScanState >>= fun _ => clearTimer >>= fun _ =>
      setOperstate .stopped >>= fun _ => pure (0 : ℤ)) :=
    .seq (hI.preserves resetScanState_side) <| .seq (hI.preserves clearTimer_side) <|
      .seq (hI.preserves (setOperstate_side _)) (.pure _)
  exact .test (.pure _) (.seq (resetAuthState_steady hI) (hreset.seq hrest))

lemma apConnect_steady (ssid : List UInt8) (psk : Bytes 32) : Preserves I (apConnect ssid psk) := by
  have hset : Preserves I (setNetwork ssid psk) := by
    refine .ite (.pure _) (.seq (fun s h => ?_) (.pure _))
    exact hI.keep (s := s.setBssid (Bytes.zero 6)) rfl (hI.clear h)
  refine .test (.pure _) (.test (.pure _) (.bind hset fun _ => .ite (.pure _) ?_))
  refine .bind (connectToSomething_steady hI) fun _ => .ite (.pure _) ?_
  exact .seq (clearSsidBssid_steady hI) (.pure _)

lemma closeNetlink_steady : Preserves I closeNetlink :=
  .test (.pure _) <| .seq (resetAuthState_steady hI) <| .seq (hI.preserves resetScanState_side) <|
    hI.preserves fun _ => rfl

lemma clientRequest_steady (r : Request) : Preserves I (clientRequest r) := by
  refine .bind ?_ fun _ => hI.preserves (keeps_side (report_view _))
  cases r with
  | setdev ifi =>
    refine .test (.pure _) ?_
    cases ifi with
    | none => exact .pure _
    | some ifi =>
      refine .bind (hI.preserves (keeps_side (openNetlink_view ifi))) fun _ => .ite (.pure _) ?_
      exact hI.preserves apResume_side
  | runscan => exact .test (.pure _) (hI.preserves (startScan_side 0))
  | connect ssid psk =>
    refine .test (.pure _) ?_
    rcases ssid with - | ssid
    · exact .pure _
    · rcases psk with - | psk
      · exact .pure _
      · exact .ite (.pure _) (apConnect_steady hI _ _)
  | neutral => exact apDisconnect_steady hI
  | detach =>
    refine .test (.pure _) (.bind (apDetach_steady hI) fun _ => .ite (.pure _) ?_)
    exact .seq (closeNetlink_steady hI) (.pure _)
  | resume => exact .test (.pure _) (hI.preserves apResume_side)

/-- **A steady invariant is preserved by every input** but `CONNECT`. -/
theorem handle_steady {i : Input} (h : ∀ ifi status, i ≠ .message ifi (.connect status)) :
    Preserves I (handle i) := by
  cases i with
  | request r => exact clientRequest_steady hI r
  | done seq => exact .test (genlDone_steady hI seq) (.pure _)
  | error seq err => exact .test (genlError_steady hI seq err) (.pure _)
  | message ifi msg =>
    refine .test (.test (dispatch_steady hI fun status hm => ?_) (.pure _)) (.pure _)
    exact h ifi status (by rw [hm])
  | frame sender frame => exact .test (rawsockFrame_steady hI sender frame) (.pure _)
  | rawsockLost => exact closeRawsock_steady hI
  | child pid => exact checkScript_steady hI pid
  | timer => exact timerExpired_steady hI

end Steady

end Minibase.Wsupp
