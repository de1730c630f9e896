import Minibase.Lib.Triple
import Minibase.Wsupp.Eapol

/-!
# The supplicant and the card

The state of `wsupp` outside the key negotiations, and the functions that talk to the
card or to the system and decide nothing: the commands of `wsupp_nlauth.c` and
`wsupp_nlscan.c`, opening and closing the netlink socket (`wsupp_netlink.c`,
`wsupp_nlinit.c`) and the raw socket (`wsupp_eapol.c`), the script (`wsupp_script.c`) and
the timer (`wsupp.c`).

A program is a `StateM` over `Wsupp.Sys`. What the rest of the world answers – the results of
system calls, in the order they are made, and what is found in the table of scanned stations – is
in `Wsupp.Env`, and is used up from the front. Nothing depends on the table, the clients of the
control socket and the attributes of netlink messages but through these answers. `Wsupp.Sys.log`
is no part of the program: it lists, newest first, the commands, reports, calls and branches that
later results are about, and nothing reads it.
-/

namespace Minibase.Wsupp

/-! ### Errors -/

def ENOENT : ℤ := 2
def ESRCH : ℤ := 3
def EINTR : ℤ := 4
def EBUSY : ℤ := 16
def ENODEV : ℤ := 19
def ENAMETOOLONG : ℤ := 36
def ENONET : ℤ := 64
def ENETDOWN : ℤ := 100
def ENOBUFS : ℤ := 105
def EISCONN : ℤ := 106
def ENOTCONN : ℤ := 107
def ETIMEDOUT : ℤ := 110
def EALREADY : ℤ := 114
def ECANCELED : ℤ := 125

/-! ### State -/

/-- `operstate`. -/
inductive Oper where
  | stopped
  | monitoring
  | connected
  | searching
  | fgScan
  | bgScan
  | netScan
  | bssScan
  | connecting
  | eapol
  | disconnecting
  | aborting
  | netdown
  | external
  | waitDisconn
  | waitAbort
deriving DecidableEq

/-- `authstate`. -/
inductive Auth where
  | idle
  | authenticating
  | associating
  | connecting
  | connected
  | disconnecting
  | netdown
  | external
  | retrying
deriving DecidableEq

/-- `scanstate`. -/
inductive Scan where
  | idle
  | scanning
  | scandump
deriving DecidableEq

/-- The functions a timer is set to call. -/
inductive Callback where
  | connectTimeout
  | routineFgScan
  | routineBgScan
  | searchingScan
  | abortTimeout
  | swaitTimeout
deriving DecidableEq

/-- Commands to the card. -/
inductive Cmd where
  | authenticate
  | associate
  | connect
  | disconnect
  | triggerScan
  | getScan
deriving DecidableEq

/-- Reports to the clients. -/
inductive Report where
  | scanEnd (err : ℤ)
  | disconnect
  | noConnect
  | linkReady
  /-- The reply to a command. -/
  | reply (ret : ℤ)
deriving DecidableEq

/-- What is logged. -/
inductive Mark where
  /-- A command was sent to the card, with its sequence number. -/
  | command (cmd : Cmd) (seq : UInt32)
  | report (r : Report)
  /-- `prime_eapol_state` was called. -/
  | prime
  /-- `reset_eapol_state` was called. -/
  | reset
  /-- `connection_ready` was called. -/
  | ready
  /-- `proceed_with_connect` went through. -/
  | attempt
  /-- `abort_connection` was called, in this `operstate`. -/
  | aborted (op : Oper)
  /-- `connection_ended` was called, in this `operstate`. -/
  | ended (op : Oper)
  /-- `connection_ended` went back to this `operstate` after an abort. -/
  | restored (op : Oper) (scanstate : Scan)
  /-- `trigger_scan_dump` could not send its request. -/
  | dumpFailed (op : Oper)
  /-- `reassess_situation` could not start its scan. -/
  | reassessFailed (scanstate : Scan)
  /-- `script_exit` was called in the middle of another handler, in this `operstate`. -/
  | preempted (op : Oper)
deriving DecidableEq

/-- `struct ap`, without the fields that are set along with the ciphers. -/
structure Ap where
  ssid : List UInt8
  cipher : Cipher
  bssid : Bytes 6
  freq : ℕ
  success : Bool
  rescans : ℕ

namespace Ap

/-- All zeros. -/
def zero : Ap := ⟨[], .none, Bytes.zero 6, 0, false, 0⟩

/-- `ap.slen`. -/
def slen (ap : Ap) : ℕ := ap.ssid.length

end Ap

/-- A station in the table that can be connected to: what `set_current_bss` copies. -/
structure Bss where
  bssid : Bytes 6
  freq : ℕ
  /-- `SF_TKIP`. -/
  tkip : Bool

/-- **What the rest of the world answers** while an event is handled. -/
structure Env where
  /-- The results of system calls. -/
  sys : List ℤ := []
  /-- What `waitpid` returns to the handler of `SIGCHLD`, at each point in the middle of another
  handler at which it may be called; zero where it is not. -/
  sigchld : List ℤ := []
  /-- What `getrandom` does. -/
  random : List (Except ℤ (Bytes 32)) := []
  /-- What `get_best_bss` finds. -/
  best : List (Option Bss) := []
  /-- Does `find_current_bss` find the address, provided it is not zero? -/
  inScans : List Bool := []
  /-- What becomes of frames and keys. -/
  io : Io := ⟨0, 0, 0⟩
  /-- The address in the reply to `query_iface`. -/
  iface : Except ℤ (Bytes 6) := .error 0
  /-- Is `AUTHENTICATE` missing from the reply to `query_wiphy`? -/
  wiphy : Except ℤ Bool := .error 0

/-- **The state of the supplicant.** -/
structure Sys where
  operstate : Oper
  abortstate : Oper
  aborterr : ℤ
  /-- Seconds and function, while a timer is set. -/
  timer : Option (ℕ × Callback)
  authstate : Auth
  authseq : UInt32
  retried : Bool
  drvconnect : Bool
  scanstate : Scan
  scanseq : UInt32
  scanreq : ℕ
  nlseq : UInt32
  /-- Is the netlink socket open? -/
  netlink : Bool
  ifindex : ℤ
  ifaddr : Bytes 6
  /-- Is the raw socket open? -/
  rawsock : Bool
  /-- The process of the script, zero if there is none. -/
  running : ℤ
  ap : Ap
  PSK : Bytes 32
  eapol : Eapol
  env : Env
  log : List Mark

/-- The state in `main`, before the first event. -/
def Sys.init : Sys where
  operstate := .stopped
  abortstate := .stopped
  aborterr := 0
  timer := none
  authstate := .idle
  authseq := 0
  retried := false
  drvconnect := false
  scanstate := .idle
  scanseq := 0
  scanreq := 0
  nlseq := 0
  netlink := false
  ifindex := 0
  ifaddr := Bytes.zero 6
  rawsock := false
  running := 0
  ap := Ap.zero
  PSK := Bytes.zero 32
  eapol := Eapol.init
  env := {}
  log := []

/-- What the key negotiations see. -/
def Sys.link (s : Sys) : Link := ⟨s.PSK, s.ifaddr, s.ap.bssid, s.ap.cipher⟩

/-- Programs. -/
abbrev M (α : Type) : Type := StateM Sys α

/-! ### Answers -/

/-- Write into the log. -/
def mark (m : Mark) : M Unit := modify fun s => { s with log := m :: s.log }

/-- What the clients are told. -/
def report (r : Report) : M Unit := mark (.report r)

/-- The result of the next system call. -/
def syscall : M ℤ :=
  modifyGet fun s => (s.env.sys.headD 0, { s with env := { s.env with sys := s.env.sys.tail } })

/-- Does `SIGCHLD` come here, and for which process? -/
def sigchld : M ℤ :=
  modifyGet fun s =>
    (s.env.sigchld.headD 0, { s with env := { s.env with sigchld := s.env.sigchld.tail } })

def getrandom : M (Except ℤ (Bytes 32)) :=
  modifyGet fun s =>
    (s.env.random.headD (.error (-EAGAIN)),
      { s with env := { s.env with random := s.env.random.tail } })

/-- `get_best_bss`, whose choice is an answer of the scans. -/
def getBestBss : M (Option Bss) :=
  modifyGet fun s =>
    (s.env.best.headD none, { s with env := { s.env with best := s.env.best.tail } })

def currentBssInScans : M Bool :=
  modifyGet fun s =>
    (decide (s.ap.bssid ≠ Bytes.zero 6) && s.env.inScans.headD false,
      { s with env := { s.env with inScans := s.env.inScans.tail } })

/-! ### Timer -/

def clearTimer : M Unit := modify fun s => { s with timer := none }

def setTimer (seconds : ℕ) (cb : Callback) : M Unit :=
  modify fun s => { s with timer := some (seconds, cb) }

/-! ### Authentication commands -/

/-- A request with the next number, which is the one to be answered. -/
def putCommand (cmd : Cmd) : M Unit :=
  modify fun s =>
    { s with nlseq := s.nlseq + 1, authseq := s.nlseq, log := .command cmd s.nlseq :: s.log }

def sendCommand : M ℤ := syscall

/-- The four `trigger_` functions of `wsupp_nlauth.c`, which put different attributes. -/
def trigger (cmd : Cmd) : M ℤ := do
  putCommand cmd
  sendCommand

def triggerAuthentication : M ℤ := trigger .authenticate
def triggerAssociation : M ℤ := trigger .associate
def triggerConnect : M ℤ := trigger .connect
def triggerDisconnect : M ℤ := trigger .disconnect

def setAuthstate (a : Auth) : M Unit := modify fun s => { s with authstate := a }

/-- By `connect`, if the driver has it, or in two steps. -/
def triggerConnection : M ℤ := do
  if (← get).drvconnect then
    let ret ← triggerConnect
    if ret < 0 then
      return ret
    else
      setAuthstate .connecting
      return 0
  else
    let ret ← triggerAuthentication
    if ret < 0 then
      return ret
    else
      setAuthstate .authenticating
      return 0

def startConnection : M ℤ := do
  modify fun s => { s with retried := false }
  if (← get).netlink = false then
    return -ENODEV
  else
    triggerConnection

def startDisconnect : M ℤ := do
  if (← get).authstate ≠ .connected then
    return -ENOTCONN
  else
    let ret ← triggerDisconnect
    if ret < 0 then
      return ret
    else
      setAuthstate .disconnecting
      return 0

def forceDisconnect : M ℤ := triggerDisconnect

def resetAuthState : M Unit :=
  modify fun s => { s with authstate := .idle, authseq := 0, retried := false }

/-! ### Scan commands -/

def resetScanState : M Unit := modify fun s => { s with scanstate := .idle, scanreq := 0 }

/-- `trigger_scan`. The frequency goes into the message. -/
def triggerScan : M ℤ := do
  modify fun s =>
    { s with
      nlseq := s.nlseq + 1, scanseq := s.nlseq, log := .command .triggerScan s.nlseq :: s.log }
  let ret ← syscall
  if ret < 0 then return ret else return 0

/-- A scan of one frequency, or of all if it is zero. -/
def startScan (freq : ℕ) : M ℤ := do
  if (← get).netlink = false then
    return -ENODEV
  else if (← get).scanstate ≠ .idle then
    -- a single frequency is being scanned, or everything is
    if (← get).scanreq ≠ 0 then return -EBUSY else return 0
  else
    let ret ← triggerScan
    if ret < 0 then
      return ret
    else
      modify fun s => { s with scanreq := freq, scanstate := .scanning }
      return 0

def triggerScanDump : M Unit := do
  let seq := (← get).nlseq
  modify fun s => { s with nlseq := seq + 1, log := .command .getScan seq :: s.log }
  let ret ← syscall
  if ret < 0 then
    mark (.dumpFailed (← get).operstate)
    resetScanState
  else
    modify fun s => { s with scanstate := .scandump, scanseq := seq }

/-! ### The script -/

/-- A signal to the script, with the result of `kill`. -/
def killScript : M ℤ := do
  if (← get).running ≤ 0 then return -ESRCH else syscall

def sighupScript : M ℤ := killScript
def sigintScript : M ℤ := killScript

/-- The script is killed and no longer waited for. -/
def forceScript : M Unit := do
  if (← get).running ≤ 0 then
    return ()
  else
    let _ ← syscall
    modify fun s => { s with running := 0 }

/-- `spawn_script`: `access` and `fork`, in the parent. -/
def spawnScript : M ℤ := do
  if (← get).running > 0 then
    return -EBUSY
  else
    let ret ← syscall
    if ret < 0 then
      return 0
    else
      let pid ← syscall
      if pid < 0 then
        return ret
      else
        modify fun s => { s with running := pid }
        return pid

/-! ### Sockets and keys -/

/-- `open_rawsock`: `socket` and `bind`. -/
def openRawsock : M ℤ := do
  if (← get).rawsock then
    return 0
  else
    let fd ← syscall
    if fd < 0 then
      return fd
    else
      let ret ← syscall
      if ret < 0 then
        return ret
      else
        modify fun s => { s with rawsock := true }
        return 0

def closeRawsock : M Unit := modify fun s => { s with rawsock := false }

/-- `prime_eapol_state`. -/
def primeEapol : M ℤ := do
  mark .prime
  let random ← getrandom
  let e := (← get).eapol
  modify fun s => { s with eapol := (primeEapolState random e).2 }
  return (primeEapolState random e).1

/-- `reset_eapol_state`. -/
def resetEapol : M Unit := do
  mark .reset
  modify fun s => { s with eapol := resetEapolState s.eapol }

/-- How many messages to the card a call takes. -/
def Call.messages : Call → UInt32
  | uploadPtk _ => 1
  | uploadGtk .. => 1
  | _ => 0

/-- What the key negotiations leave behind, apart from their last call: their own state,
and a sequence number used up for each key that was sent to the card. -/
def putOut (o : Out) : M Unit :=
  modify fun s => { s with eapol := o.eapol, nlseq := s.nlseq + (o.calls.map Call.messages).sum }

/-- `allow_eapol_sends`. -/
def allowEapol : M ℤ := do
  let s ← get
  let o := allowEapolSends s.link s.env.io s.eapol
  putOut o
  return o.ret

/-- A failure is negative in any case. -/
def nle (ret : ℤ) : ℤ := if ret < 0 then ret else -1

/-- `init_netlink`: the queries for the family, the interface and the driver, and two
subscriptions. -/
def initNetlink (ifi : ℤ) : M ℤ := do
  let ret ← syscall
  if ret < 0 then
    return nle ret
  else
    match (← get).env.iface with
    | .error err => return nle err
    | .ok mac =>
      modify fun s => { s with ifindex := ifi, ifaddr := mac }
      match (← get).env.wiphy with
      | .error err => return nle err
      | .ok noauth =>
        modify fun s => { s with drvconnect := noauth }
        let mlme ← syscall
        if mlme < 0 then
          return nle mlme
        else
          let scan ← syscall
          if scan < 0 then return nle scan else return 0

def openNetlink (ifi : ℤ) : M ℤ := do
  if (← get).netlink then
    return -EBUSY
  else
    let fd ← syscall
    if fd < 0 then
      return fd
    else
      let ret ← syscall
      if ret < 0 then
        return ret
      else
        let ret ← initNetlink ifi
        if ret < 0 then
          return ret
        else
          modify fun s => { s with netlink := true }
          return 0

def closeNetlink : M Unit := do
  if (← get).netlink = false then
    return ()
  else
    resetAuthState
    resetScanState
    modify fun s => { s with netlink := false, nlseq := 0, ifindex := 0 }

end Minibase.Wsupp
