import Minibase.Dhconf.Packet
import Minibase.Lib.Outcome

/-!
# The DHCP client

The client of `dhconf.c` and `dhconf_packet.c`: what it remembers (`Dhconf.Client`, with the
timer the kernel runs for it), and what it does with a datagram (`Dhconf.recvIncoming`) and
when its timer expires (`Dhconf.timeoutWaiting`). A handler either returns or ends the process,
`quit`; what had been done by then is on record in `Client.log`. Times are in seconds and 64
bits wide. Scripts have no say in any of this and are left out.
-/

namespace Minibase.Dhconf

/-- The values of `ctx->state`. -/
inductive State
  | discover
  | request
  | leased
  | renewing
  | deconf
  | released
deriving DecidableEq, Repr

/-- The messages that are sent. -/
inductive Kind
  | discover
  | request
  | renew
  | release
deriving DecidableEq, Repr

/-- What an event makes the client do to the world. -/
inductive Effect
  /-- A message has been sent. -/
  | sent (kind : Kind)
  /-- `config_iface`: the address is on the interface. -/
  | configured
  /-- `update_iface`: its times are renewed. -/
  | updated
  /-- `deconf_iface`: it is gone from the interface. -/
  | deconfigured
deriving DecidableEq, Repr

/-- What the system calls made for one event return. -/
structure Answers where
  /-- The packet could be sent. -/
  send : Bool := true
  /-- A netlink socket could be opened. -/
  nlsock : Bool := true
  /-- `RTM_NEWADDR` was acknowledged. -/
  newaddr : Bool := true
  /-- `RTM_NEWROUTE` was acknowledged. -/
  newroute : Bool := true
deriving DecidableEq

/-- `struct top`. -/
structure Client where
  state : State
  count : ℕ
  /-- The raw socket is open. -/
  rawfd : Bool
  /-- Seconds the timer was set to, zero if it is not running. -/
  timer : ℕ
  /-- It has been set while the event was handled. -/
  reset : Bool := false
  timeact : Bool
  xid : ℕ
  origref : ℕ
  timeref : ℕ
  leaseTime : ℕ
  renewTime : ℕ
  srvip : List UInt8
  ourip : List UInt8
  srvmac : List UInt8
  options : List UInt8
  log : List Effect
deriving DecidableEq

/-- The end of the process, with the state it had. -/
structure Exit where
  msg : String
  client : Client
deriving DecidableEq

/-- A handler returns or ends the process. -/
abbrev Handled := Except Exit Client

variable (a : Answers) (now : ℕ) (c : Client)

def quit (msg : String) : Handled := .error ⟨msg, c⟩

/-- Something has been done. -/
def Client.did (e : Effect) : Client := { c with log := c.log ++ [e] }

/-- Ends the process unless a system call went well. -/
def quitUnless (ok : Bool) (msg : String) : Handled := if ok then .ok c else quit c msg

/-! ### State and timer -/

def setTimerSec (sec : ℕ) : Client := { c with timer := sec, reset := true }

/-- A new state, with the timer off. -/
def setState (state : State) : Client :=
  let c := { c with state := state, count := 0 }
  if c.timeact then { setTimerSec c 0 with timeact := false } else c

def closeRawSocket : Client := { c with rawfd := false }

/-- The timer is set, and the socket closed if it is ten seconds or more. -/
def setTimer (sec : ℕ) : Client :=
  let c := { setTimerSec c sec with timeact := true }
  if sec < 10 then c else closeRawSocket c

/-! ### The interface -/

def configIface : Handled := do
  let c ← quitUnless c a.nlsock "netlink socket"
  let c ← quitUnless c a.newaddr "netlink RTM_NEWADDR"
  quitUnless (c.did .configured) a.newroute "netlink RTM_NEWROUTE"

def updateIface : Handled := do
  let c ← quitUnless c a.nlsock "netlink socket"
  let c ← quitUnless c a.newaddr "netlink RTM_NEWADDR"
  return c.did .updated

def deconfIface : Handled := do
  let c ← quitUnless c a.nlsock "netlink socket"
  return c.did .deconfigured

/-! ### Sending -/

/-- `send_raw_packet`, which opens the socket again if need be. -/
def sendRawPacket (kind : Kind) : Handled := do
  let c ← quitUnless { c with rawfd := true } a.send "send"
  return c.did (.sent kind)

/-- A message is sent, and a second given for the reply. -/
def sendMessage (kind : Kind) : Handled := do
  let c ← sendRawPacket a c kind
  return setTimer c 1

def sendDiscover : Handled := sendMessage a c .discover

def sendRequest : Handled := sendMessage a c .request

def sendRenew : Handled := sendMessage a c .renew

/-- `send_release`, with no timer. -/
def sendRelease : Handled := sendRawPacket a c .release

/-! ### Receiving -/

variable (dg : Dgram)

/-- The lease, and the time to renew it, which is half of it. -/
def storeTimings : Handled :=
  match dg.leaseTime with
  | none => quit c "no lease time option"
  | some lt => .ok { c with leaseTime := lt, renewTime := lt / 2 }

def storeOptions : Client := { c with options := dg.options.take 500 }

/-- An offer names a server and an address. -/
def checkOffer : Handled :=
  if dg.msgType ≠ some DHCPOFFER then .ok c
  else match dg.getMsgOpt DHCP_SERVER_ID 4 with
    | none => quit c "offer without srvid"
    | some srvid =>
      .ok (setState { c with srvip := srvid, ourip := dg.yiaddr, srvmac := dg.mac,
                             timeref := now } .request)

/-- The packet is from the server whose offer was taken. -/
def Client.servedBy : Bool := c.srvmac = dg.mac && c.srvip = dg.saddr

/-- The answer to a request. -/
def checkAcknak : Handled :=
  if !c.servedBy dg then .ok c
  else if dg.msgType = some DHCPNAK then quit c "lease NAK"
  else if dg.msgType ≠ some DHCPACK then .ok c
  else do
    let c := storeOptions { setState c .leased with ourip := dg.yiaddr } dg
    let c ← storeTimings c dg
    return { c with origref := c.timeref }

/-- The answer to a renewal, whose times are not stored. -/
def checkNewack : Handled :=
  if !c.servedBy dg then .ok c
  else if dg.msgType = some DHCPACK then .ok (setState c .leased)
  else if dg.msgType = some DHCPNAK then .ok (setState c .deconf)
  else .ok c

/-- `recv_packet`, with `handle_packet`. The socket may have been closed by what was done
about a signal of the same round. -/
def recvPacket : Handled :=
  if !c.rawfd then quit c "recv"
  else if !dg.relevant c.xid then .ok c
  else match c.state with
    | .discover => checkOffer now c dg
    | .request => checkAcknak c dg
    | .renewing => checkNewack c dg
    | _ => .ok c

/-! ### What follows -/

def retryDiscover : Handled := do
  let c ← deconfIface a c
  sendDiscover a (setState c .discover)

def leaseObtained : Handled := configIface a (setTimer c c.renewTime)

def leaseRenewed : Handled := updateIface a (setTimer c c.renewTime)

def leaseLost : Handled := retryDiscover a c

/-- The lease has ended, or is to be renewed. -/
def timeToRenew : Handled :=
  if (c.timeref + c.leaseTime) % 2 ^ 64 ≤ now then retryDiscover a c
  else sendRenew a (setState c .renewing)

/-- Tried again in a minute, until ten minutes before the lease ends. -/
def renewTimeout : Handled :=
  if (c.timeref + c.leaseTime + 2 ^ 64 - 10 * 60) % 2 ^ 64 < now then retryDiscover a c
  else .ok (setTimer { c with state := .leased } 60)

def timeoutWaiting : Handled :=
  let count := c.count
  let c := { c with count := count + 1 }
  match c.state with
  | .leased => timeToRenew a now c
  | .renewing => renewTimeout a now c
  | .discover =>
    if 5 ≤ count then quit c "timed out"
    else if 3 ≤ count then quit c "timed out"
    else sendDiscover a c
  | .request => if 3 ≤ count then quit c "timed out" else sendRequest a c
  | _ => if 3 ≤ count then quit c "timed out" else quit c "timed out, state"

/-- What a change of the state leads to. -/
def nextAction (state0 : State) : Handled :=
  match state0, c.state with
  | _, .discover => sendDiscover a c
  | _, .request => sendRequest a c
  | .request, .leased => leaseObtained a c
  | .renewing, .leased => leaseRenewed a c
  | _, .deconf => leaseLost a c
  | _, _ => quit c "invalid next, state"

def recvIncoming : Handled := do
  let c' ← recvPacket now c dg
  if c'.state = c.state then return c' else nextAction a c' c.state

def startDiscover : Handled := sendDiscover a (setState c .discover)

/-- An address there is is given back. -/
def releaseAddress : Handled :=
  if c.state ≠ .leased ∧ c.state ≠ .renewing then .ok c
  else do
    let c ← sendRelease a c
    return setState c .released

/-! ### Events -/

/-- The signals that end the client. -/
inductive Signal
  | int
  | hup
  | term
deriving DecidableEq, Repr

/-- What `poll` may find. -/
inductive What
  /-- `SIGALRM`, the timer. -/
  | alarm
  /-- `SIGCHLD`, the end of a script. -/
  | child
  | signal (sig : Signal)
  | packet (dg : Dgram)
deriving DecidableEq

/-- `handle_signal` for the signals after which the process exits. -/
def lastSignal (sig : Signal) : Handled :=
  match sig with
  | .int => do
    let c ← releaseAddress a c
    let c ← deconfIface a c
    quit c "SIGINT"
  | .hup => do
    let c ← deconfIface a c
    quit c "SIGHUP"
  | .term => quit c "SIGTERM"

/-- One event is handled. -/
def handle (what : What) : Handled :=
  let c := { c with log := [], reset := false }
  match what with
  | .alarm => timeoutWaiting a now { c with timer := 0, timeact := false }
  | .child => .ok c
  | .signal sig => lastSignal a c sig
  | .packet dg => recvIncoming a now c dg

end Minibase.Dhconf
