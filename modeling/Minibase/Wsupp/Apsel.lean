import Minibase.Wsupp.Device

/-!
# Choosing an access point

`wsupp_apsel.c`, the top of the supplicant: run scans, connect to a station, cope with
disconnects, try other stations. The user connects, disconnects, detaches and resumes (the `ap_`
functions, at the end of the file); the modules below report how a scan, a connection or the key
negotiations went (`Wsupp.scanEnded`, `Wsupp.connectionEnded`, `Wsupp.connectionReady`,
`Wsupp.eapolSuccess`, `Wsupp.abortConnection`, `Wsupp.scriptExit`). One timer serves all of it
(`Wsupp.Callback.call`).
-/

namespace Minibase.Wsupp

/-! ### Networks and stations -/

variable (op : Oper)

def setOperstate : M Unit := modify fun s => { s with operstate := op }

/-- The access point is forgotten, but not the network. -/
def clearBssid : M Unit :=
  modify fun s => { s with ap := { s.ap with freq := 0, rescans := 0, bssid := Bytes.zero 6 } }

/-- The network is forgotten. -/
def clearSsidBssid : M Unit := modify fun s => { s with ap := Ap.zero }

def setCurrentBss (sc : Bss) : M Unit :=
  modify fun s => { s with
    ap := { s.ap with
      freq := sc.freq, bssid := sc.bssid, cipher := if sc.tkip then .tkip else .ccmp } }

def pickBestBss : M ℤ := do
  match ← getBestBss with
  | none => return -ENOENT
  | some sc =>
    setCurrentBss sc
    return 0

/-- EAPOL is made ready before the connection is asked for. -/
def proceedWithConnect : M ℤ := do
  modify fun s => { s with aborterr := 0 }
  let ret ← primeEapol
  if ret < 0 then
    return ret
  else
    let ret ← openRawsock
    if ret < 0 then
      return ret
    else
      let ret ← startConnection
      if ret < 0 then
        return ret
      else
        setTimer 2 .connectTimeout
        setOperstate .connecting
        mark .attempt
        return ret

def connectToSomething : M ℤ := do
  let ret ← pickBestBss
  if ret < 0 then return ret else proceedWithConnect

/-- Nothing goes on while the link is down. -/
def snapToNetdown : M Unit := do
  closeRawsock
  resetEapol
  resetAuthState
  resetScanState
  clearTimer
  modify fun s => if s.ap.success then s else { s with ap := Ap.zero }
  modify fun s => { s with operstate := if s.ap.slen ≠ 0 then .netdown else .stopped }

/-! ### Scans -/

/-- Start a scan of everything and, if that works, be in `op` meanwhile. -/
def scanIn : M Unit := do
  let ret ← startScan 0
  if ret ≥ 0 then setOperstate op else return ()

/-- What `routine_fg_scan` and `routine_bg_scan` do, each in a state of its own. -/
def routineScan (rest op : Oper) (seconds : ℕ) (cb : Callback) : M Unit := do
  if (← get).operstate ≠ rest then
    return ()
  else
    scanIn op
    setTimer seconds cb

def routineFgScan : M Unit := routineScan .monitoring .fgScan (1 * 60) .routineFgScan

def routineBgScan : M Unit := routineScan .connected .bgScan (5 * 60) .routineBgScan

/-- Count the scans of a search, and after ten of them look for any station. -/
def countRescan : M Unit := do
  if (← get).ap.rescans > 10 then
    clearBssid
  else
    modify fun s => { s with ap := { s.ap with rescans := s.ap.rescans + 1 } }

/-- A network is looked for again and again. -/
def searchingScan : M Unit := do
  if (← get).operstate ≠ .searching then
    return ()
  else
    countRescan
    scanIn .netScan
    setTimer 10 .searchingScan

/-! ### Disconnects -/

def expectedDisconnect : M Unit := do
  clearSsidBssid
  setTimer 5 .routineFgScan
  setOperstate .monitoring

/-- The best access point there is, or a wait for one. -/
def tryAnotherBss : M Unit := do
  let ret ← connectToSomething
  if ret ≥ 0 then
    return ()
  else
    let _ ← forceDisconnect
    report .noConnect
    if (← get).ap.success then
      setTimer 10 .searchingScan
      setOperstate .searching
    else
      clearSsidBssid
      setTimer (1 * 60) .routineFgScan
      setOperstate .monitoring

/-- The same access point, if it is still there. -/
def reconnectCurrent : M Unit := do
  let here ← currentBssInScans
  if here = false then
    tryAnotherBss
  else
    let ret ← proceedWithConnect
    if ret < 0 then tryAnotherBss else return ()

/-- Is the access point still there? Only its frequency is scanned. -/
def rescanCurrentBss : M Unit := do
  setOperstate .bssScan
  modify fun s => { s with ap := { s.ap with rescans := s.ap.rescans + 1 } }
  let ret ← startScan (← get).ap.freq
  if ret ≥ 0 then
    return ()
  else
    setOperstate .searching
    setTimer 10 .searchingScan

/-- A scan of everything, to see what there is. -/
def reassessSituation : M Unit := do
  setOperstate .netScan
  let ret ← startScan 0
  if ret < 0 then
    mark (.reassessFailed (← get).scanstate)
  else
    setOperstate .searching
    setTimer 10 .searchingScan

def lostGoodConnection : M Unit := do
  clearTimer
  modify fun s => { s with ap := { s.ap with rescans := 0 } }
  rescanCurrentBss

def snapToMonitoring : M Unit := do
  let _ ← forceDisconnect
  clearSsidBssid
  setTimer (1 * 60) .routineFgScan
  setOperstate .monitoring

variable (err : ℤ)

/-- What `unexpected_disconnect` does at its label `next`. -/
def nextBss : M Unit := do
  if err = -ENETDOWN then
    report .noConnect
    snapToNetdown
  else if err = -EINVAL then
    report .noConnect
    snapToMonitoring
  else
    clearTimer
    tryAnotherBss

/-- A connection breaks: it is tried again if it was a good one. -/
def unexpectedDisconnect : M Unit := do
  if (← get).operstate ∈ [.connecting, .eapol] then
    nextBss err
  else if (← get).operstate ∈ [.connected, .bgScan] then
    if err ≥ 0 then lostGoodConnection else nextBss err
  else
    return ()

def tryFastRescan : M Unit := do
  if (← get).ap.rescans = 0 then rescanCurrentBss else reassessSituation

/-- `connection_ended`, once it is known what has ended. -/
def endedIn : M Unit := do
  if (← get).operstate = .connecting ∧ err = -ENOENT then
    tryFastRescan
  else
    report .disconnect
    if (← get).operstate = .disconnecting then expectedDisconnect else unexpectedDisconnect err

/-- The end of a connection, or of an abort, after which the state before it is restored. -/
def connectionEnded : M Unit := do
  mark (.ended (← get).operstate)
  clearTimer
  if (← get).operstate = .aborting then
    mark (.restored (← get).abortstate (← get).scanstate)
    modify fun s => { s with operstate := s.abortstate }
    endedIn (← get).aborterr
  else
    endedIn err

def abortTimeout : M Unit := do
  resetAuthState
  connectionEnded (-ETIMEDOUT)

/-! ### The script -/

/-- The second half of `script_exit`. -/
def disconnectNow : M Unit := do
  let ret ← startDisconnect
  if ret ≥ 0 then setTimer 1 .abortTimeout else connectionEnded (-ESRCH)

/-- The script that was waited for before a disconnect is gone. -/
def scriptExit : M Unit := do
  if (← get).operstate = .waitDisconn then
    setOperstate .disconnecting
    disconnectNow
  else if (← get).operstate = .waitAbort then
    setOperstate .aborting
    disconnectNow
  else
    return ()

/-- `check_script`, with what `waitpid` returns. -/
def checkScript (pid : ℤ) : M Unit := do
  if pid ≤ 0 then
    return ()
  else if pid ≠ (← get).running then
    return ()
  else
    modify fun s => { s with running := 0 }
    scriptExit

/-- **A point in the middle of a handler** at which `SIGCHLD` may come. `sighandler` does not
wait for the handler to return. -/
def interrupted : M Unit := do
  let pid ← sigchld
  if pid ≤ 0 ∨ pid ≠ (← get).running then
    return ()
  else
    mark (.preempted (← get).operstate)
    checkScript pid

/-! ### Aborts -/

/-- A script is told to end first; it may have ended wherever `interrupted` stands. -/
def abortConnection : M Unit := do
  mark (.aborted (← get).operstate)
  interrupted
  modify fun s => { s with aborterr := err, abortstate := s.operstate, operstate := .waitAbort }
  interrupted
  let ret ← sighupScript
  if ret ≥ 0 then
    -- the script may be gone by now, and `script_exit` have set another timer
    interrupted
    setTimer 2 .swaitTimeout
  else
    setOperstate .aborting
    let ret ← startDisconnect
    if ret ≥ 0 then setTimer 1 .abortTimeout else connectionEnded ret

def connectTimeout : M Unit := abortConnection (-ETIMEDOUT)

/-- The script did not end by itself. -/
def swaitTimeout : M Unit := do
  forceScript
  scriptExit

/-! ### Reports from below -/

def eapolSuccess : M Unit := do
  if (← get).operstate ≠ .eapol then
    return ()
  else
    setOperstate .connected
    modify fun s => { s with ap := { s.ap with rescans := 0, success := true } }
    setTimer (5 * 60) .routineBgScan
    let ret ← spawnScript
    if ret < 0 then abortConnection ret else report .linkReady

def connectionReady : M Unit := do
  mark .ready
  if (← get).operstate ≠ .connecting then
    return ()
  else
    setOperstate .eapol
    let ret ← allowEapol
    if ret ≥ 0 then return () else abortConnection ret

/-- What comes after a scan depends on what it was for. -/
def scanEnded : M Unit := do
  report (.scanEnd err)
  if err = -ENETDOWN then
    snapToNetdown
  else if (← get).operstate = .netScan then
    tryAnotherBss
  else if (← get).operstate = .bssScan then
    reconnectCurrent
  else if (← get).operstate = .fgScan then
    setOperstate .monitoring
  else if (← get).operstate = .bgScan then
    setOperstate .connected
  else
    return ()

/-- **What the timer calls.** -/
def Callback.call : Callback → M Unit
  | connectTimeout => Wsupp.connectTimeout
  | routineFgScan => Wsupp.routineFgScan
  | routineBgScan => Wsupp.routineBgScan
  | searchingScan => Wsupp.searchingScan
  | abortTimeout => Wsupp.abortTimeout
  | swaitTimeout => Wsupp.swaitTimeout

/-! ### Requests from the user -/

def canChangeNetwork : Bool :=
  op ∈ [.stopped, .netdown, .monitoring, .searching, .fgScan, .netScan]

def needResumeFirst : Bool := op ∈ [.stopped, .netdown]

/-- The name and the key of the network to be in. -/
def setNetwork (ssid : List UInt8) (psk : Bytes 32) : M ℤ := do
  if ssid.length > 32 then
    return -ENAMETOOLONG
  else
    modify fun s => { s with ap := { Ap.zero with ssid := ssid }, PSK := psk }
    return 0

def apConnect (ssid : List UInt8) (psk : Bytes 32) : M ℤ := do
  if canChangeNetwork (← get).operstate = false then
    return -EISCONN
  else if needResumeFirst (← get).operstate then
    return -ENONET
  else
    let ret ← setNetwork ssid psk
    if ret < 0 then
      return ret
    else
      let ret ← connectToSomething
      if ret ≥ 0 then
        return ret
      else
        clearSsidBssid
        return ret

/-- What `ap_disconnect` does when there is nothing to wait for. -/
def dropNetwork : M ℤ := do
  if (← get).operstate = .netdown then
    setOperstate .stopped
    return -ECANCELED
  else
    let _ ← forceDisconnect
    clearTimer
    setTimer 10 .routineFgScan
    setOperstate .monitoring
    return -ECANCELED

/-- The script is told to end, and then the connection. -/
def apDisconnect : M ℤ := do
  let ret ← sigintScript
  if ret ≥ 0 then
    interrupted
    setOperstate .waitDisconn
    interrupted
    setTimer 2 .swaitTimeout
    return 0
  else
    let ret ← startDisconnect
    if ret ≥ 0 then
      setOperstate .disconnecting
      setTimer 1 .abortTimeout
      return 0
    else
      clearSsidBssid
      resetAuthState
      resetEapol
      if (← get).operstate ∈ [.stopped, .monitoring, .fgScan] then return ret else dropNetwork

def apDetach : M ℤ := do
  if canChangeNetwork (← get).operstate = false then
    return -EISCONN
  else
    resetAuthState
    resetEapol
    clearSsidBssid
    resetScanState
    clearTimer
    setOperstate .stopped
    return 0

def apResume : M ℤ := do
  if needResumeFirst (← get).operstate = false then
    return -EALREADY
  else
    let ret ← startScan 0
    if ret < 0 then
      return ret
    else
      modify fun s => { s with operstate := if s.ap.success then .netScan else .monitoring }
      return 0

end Minibase.Wsupp
