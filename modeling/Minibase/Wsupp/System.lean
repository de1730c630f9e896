import Minibase.Wsupp.Apsel

/-!
# The supplicant as a whole

Everything that can happen to `wsupp` is an `Wsupp.Input`: a request on the control
socket (`wsupp_control.c`), a message or an error from netlink, an EAPOL frame, the end of
the script, the timer. `Wsupp.handle` is what `main` calls for it – `wsupp_nlauth.c`
and `wsupp_nlscan.c` have the handlers of netlink messages –, and `Wsupp.Sys.after`
the state after a sequence of inputs, each with the answers of the rest of the world.

An input is handled before the next one is looked at, but for the end of the script: it comes
as a signal, and `SIGCHLD` does not wait. It may come where `Wsupp.interrupted` stands, in
`abort_connection`, `ap_disconnect` and `timer_expired`. Anywhere else it is taken to come
before the input or after it.
-/

namespace Minibase.Wsupp

/-! ### Authentication messages -/

/-- Someone else makes a connection. -/
def snapToExternal : M Unit := do
  setAuthstate .external
  connectionEnded 2

def nlmAuthenticate : M Unit := do
  if (← get).authstate = .idle then
    return ()
  else if (← get).authstate ≠ .authenticating then
    snapToExternal
  else
    let _ ← triggerAssociation
    setAuthstate .associating

def nlmAssociate : M Unit := do
  if (← get).authstate = .idle then
    return ()
  else if (← get).authstate ≠ .associating then
    snapToExternal
  else
    setAuthstate .connecting

/-- The status in a message that is not absent, and not zero. -/
def failure : Option UInt16 → Option ℤ
  | none => none
  | some status => if status ≠ 0 then some status.toNat else none

/-- `nlm_connect`, from where it looks at the status. -/
def connectStatus (status : Option UInt16) : M Unit := do
  match failure status with
  | some err => connectionEnded err
  | none =>
    setAuthstate .connected
    connectionReady

/-- The driver has connected, or failed to. -/
def nlmConnect (status : Option UInt16) : M Unit := do
  if (← get).authstate = .idle then
    return ()
  else if (← get).authstate ≠ .connecting then
    -- no return here
    snapToExternal
    connectStatus status
  else
    connectStatus status

variable (err : ℤ)

/-- The end of `nlm_disconnect` and of `nlm_auth_error`. -/
def authEnded : M Unit := do
  setAuthstate .idle
  connectionEnded err

/-- A disconnect that was asked for, or not. -/
def nlmDisconnect : M Unit := do
  if (← get).authstate = .idle then
    return ()
  else if (← get).authstate = .retrying then
    let err ← triggerConnection
    if err ≥ 0 then return () else authEnded err
  else
    authEnded 0

/-- A connection left over is broken, and asked for once more. -/
def retryConnect (ret : ℤ) : M ℤ := do
  if ret ≠ -EALREADY then
    return ret
  else if (← get).retried then
    return ret
  else if (← get).authstate ∉ [.authenticating, .associating, .connecting] then
    return ret
  else
    let ret ← triggerDisconnect
    if ret < 0 then
      return ret
    else
      modify fun s => { s with authstate := .retrying, retried := true }
      return 0

def nlmAuthError : M Unit := do
  if (← get).authstate = .idle then
    return ()
  else
    let err ← retryConnect err
    if err ≥ 0 then return () else authEnded err

/-! ### Scan messages -/

/-- `nlm_scan_results`. The results themselves go into the table. -/
def nlmScanResults (multi : Bool) : M Unit := do
  if multi then
    return ()
  else if (← get).scanstate = .scanning then
    triggerScanDump
  else
    return ()

/-- What the ends of a scan have in common. -/
def scanOver : M Unit := do
  resetScanState
  scanEnded err

def nlmScanAborted : M Unit := do
  if (← get).scanstate ≠ .scanning then return () else scanOver (-EINTR)

def nlmScanDone : M Unit := do
  if (← get).scanstate ≠ .scandump then return () else scanOver 0

def nlmScanError : M Unit :=
  if err = 0 then return () else scanOver err

/-! ### Netlink -/

/-- A message from the card. -/
inductive Msg where
  | triggerScan
  | scanResults (multi : Bool)
  | scanAborted
  | authenticate
  | associate
  | connect (status : Option UInt16)
  | disconnect
deriving DecidableEq

/-- `dispatch`, in `wsupp_netlink.c`. A `TRIGGER_SCAN` only marks stations in the table. -/
def Msg.dispatch : Msg → M Unit
  | triggerScan => return ()
  | scanResults multi => nlmScanResults multi
  | scanAborted => nlmScanAborted
  | authenticate => nlmAuthenticate
  | associate => nlmAssociate
  | connect status => nlmConnect status
  | disconnect => nlmDisconnect

def genlDone (seq : UInt32) : M Unit := do
  if seq = (← get).scanseq then nlmScanDone else return ()

def genlError (seq : UInt32) (err : ℤ) : M Unit := do
  if err = 0 then
    return ()
  else if seq = (← get).scanseq then
    nlmScanError err
  else if seq = (← get).authseq then
    nlmAuthError err
  else
    abortConnection err

/-- `match_ifi`, and what follows. -/
def genlMessage (ifi : Option ℤ) (msg : Msg) : M Unit := do
  if ifi = some (← get).ifindex then msg.dispatch else return ()

/-! ### Frames and the timer -/

/-- The call the key negotiations end with. -/
def followUp : Option Call → M Unit
  | some .success => eapolSuccess
  | some (.abort err) => abortConnection err
  | _ => return ()

/-- `handle_rawsock`, with a frame to be received. -/
def rawsockFrame (sender : Bytes 6) (frame : List UInt8) : M Unit := do
  let s ← get
  let o := handleRawsock s.link s.env.io sender frame s.eapol
  putOut o
  followUp o.calls.getLast?

/-- The timer is gone before its callback runs. -/
def timerExpired : M Unit := do
  match (← get).timer with
  | none => return ()
  | some (_, cb) =>
    interrupted
    clearTimer
    cb.call

/-! ### Commands -/

def cmdSetdev (ifi : Option ℤ) : M ℤ := do
  if (← get).ifindex > 0 then
    return -EBUSY
  else
    match ifi with
    | none => return -EINVAL
    | some ifi =>
      let ret ← openNetlink ifi
      if ret < 0 then return ret else apResume

def cmdRunscan : M ℤ := do
  if (← get).ifindex ≤ 0 then return -ENODEV else startScan 0

def cmdConnect (ssid psk : Option (List UInt8)) : M ℤ := do
  if (← get).ifindex ≤ 0 then
    return -ENODEV
  else
    match ssid, psk with
    | some ssid, some psk =>
      if psk.length ≠ 32 then return -EINVAL else apConnect ssid (Bytes.ofList 32 psk)
    | _, _ => return -EINVAL

def cmdNeutral : M ℤ := apDisconnect

def cmdDetach : M ℤ := do
  if (← get).ifindex ≤ 0 then
    return -EALREADY
  else
    let ret ← apDetach
    if ret < 0 then
      return ret
    else
      closeNetlink
      return 0

def cmdResume : M ℤ := do
  if (← get).ifindex ≤ 0 then return -ENODEV else apResume

/-- The requests that do more than look. -/
inductive Request where
  | setdev (ifi : Option ℤ)
  | runscan
  | connect (ssid psk : Option (List UInt8))
  | neutral
  | detach
  | resume

/-- `dispatch_cmd`. -/
def Request.dispatch : Request → M ℤ
  | setdev ifi => cmdSetdev ifi
  | runscan => cmdRunscan
  | connect ssid psk => cmdConnect ssid psk
  | neutral => cmdNeutral
  | detach => cmdDetach
  | resume => cmdResume

/-! ### Inputs -/

/-- **Something that happens to the supplicant.** -/
inductive Input where
  /-- A client asks for something. -/
  | request (r : Request)
  /-- `NLMSG_DONE`. -/
  | done (seq : UInt32)
  /-- `NLMSG_ERROR`. -/
  | error (seq : UInt32) (err : ℤ)
  /-- Any other message, with its interface if it names one. -/
  | message (ifi : Option ℤ) (msg : Msg)
  /-- An EAPOL frame. -/
  | frame (sender : Bytes 6) (frame : List UInt8)
  /-- The raw socket fails. -/
  | rawsockLost
  /-- A child exits. -/
  | child (pid : ℤ)
  | timer

/-- A request, and its reply. -/
def clientRequest (r : Request) : M Unit := do
  let ret ← r.dispatch
  report (.reply ret)

/-- Only open sockets are polled. -/
def whenOpen (c : Sys → Bool) (x : M Unit) : M Unit := do
  if c (← get) then x else return ()

/-- **What is called about an input.** -/
def handle : Input → M Unit
  | .request r => clientRequest r
  | .done seq => whenOpen Sys.netlink (genlDone seq)
  | .error seq err => whenOpen Sys.netlink (genlError seq err)
  | .message ifi msg => whenOpen Sys.netlink (genlMessage ifi msg)
  | .frame sender frame => whenOpen Sys.rawsock (rawsockFrame sender frame)
  | .rawsockLost => closeRawsock
  | .child pid => checkScript pid
  | .timer => timerExpired

/-- An input and what the world answers. -/
structure Happening where
  input : Input
  env : Env

/-- **The state after an input.** -/
def Sys.next (s : Sys) (ev : Happening) : Sys := (handle ev.input { s with env := ev.env }).2

/-- **The state after a sequence of inputs.** -/
def Sys.after (s : Sys) (l : List Happening) : Sys := l.foldl Sys.next s

@[simp] lemma Sys.after_nil (s : Sys) : s.after [] = s := rfl

lemma Sys.after_concat (s : Sys) (l : List Happening) (ev : Happening) :
    s.after (l ++ [ev]) = (s.after l).next ev :=
  List.foldl_concat ..

/-! ### The beginning of a run -/

namespace Trace

/-- The station that is connected to. -/
def station : Bss := ⟨Bytes.ofList 6 [2, 0, 0, 0, 0, 1], 2412, false⟩

/-- A nonce of our own. -/
def snonce : Bytes 32 := Bytes.ofList 32 (List.replicate 32 0x5A)

def setdev : Happening :=
  ⟨.request (.setdev (some 3)),
    { sys := [4, 0, 0, 0, 0], iface := .ok (Bytes.ofList 6 [2, 0, 0, 0, 0, 2]),
      wiphy := .ok false }⟩

/-- A message from the card, all commands sent in answer to it going through. -/
def message (msg : Msg) : Happening := ⟨.message (some 3) msg, {}⟩

/-- A scan is reported, its results are asked for with sequence number `seq`, and they come. -/
def scan (seq : UInt32) : List Happening :=
  [message .triggerScan, message (.scanResults false), message (.scanResults true), ⟨.done seq, {}⟩]

def connect : Happening :=
  ⟨.request (.connect (some [0x6E, 0x65, 0x74]) (some (List.replicate 32 7))),
    { random := [.ok snonce], best := [some station] }⟩

/-- A device is set, a scan is made, a station is found and connected to. -/
def connecting : List Happening := setdev :: scan 1 ++ [connect]

end Trace

end Minibase.Wsupp
