import Minibase.Lib.Bytes
import Minibase.Lib.Runs

/-!
# The time service

`timed` asks one server at a time for the time: first each of them, to find the nearest one, then
that one at long intervals. It is one process around `ppoll`, which ends with a packet, a command,
the end of a wait, or a signal from the timer that is used for long waits (`Timed.Event`);
`Timed.handle` is what happens then. A handler that calls `quit` has no result. Next to what the
process keeps, a state has what has been asked of the clock, and which requests were sent and which
packets taken for answers.
-/

namespace Minibase.Timed

/-! ### What the process keeps -/

abbrev NSERVS : ℕ := 4

/-- `struct serv`, with a field for each flag. -/
structure Serv where
  set : Bool
  ipv6 : Bool
  kill : Bool
  fail : Bool
  ping : Bool
  hasRtt : Bool
  port : UInt16
  addr : List UInt8
  rtt : UInt32
deriving DecidableEq

/-- A slot that is not used. -/
def Serv.empty : Serv := ⟨false, false, false, false, false, false, 0, List.replicate 16 0, 0⟩

/-- `top.state`. -/
inductive State
  | idle
  | select
  | pingSent
  | pingWait
  | pollSent
  | pollWait
deriving DecidableEq

/-- `top.tistate`. -/
inductive Timer
  | none
  | clear
  | armed
deriving DecidableEq

/-- What the clock is told. -/
inductive Timex
  | step (sec : Int64) (nsec : UInt64)
  | slew (offset : Int64) (constant : ℕ)
deriving DecidableEq

/-- What goes on between the process and the servers. -/
inductive Mail
  /-- a request is sent to an address, with a transmit stamp -/
  | sent (dest : List UInt8) (stamp : UInt64)
  /-- a packet from an address is taken for an answer, because of its originate field -/
  | taken (src : List UInt8) (originate : UInt64)
deriving DecidableEq

/-- `struct top`, with the numbers in the order of the host, and what is seen from outside. -/
structure Top where
  /-- whether there is a socket -/
  ntpfd : Bool
  servs : List Serv
  alarmSec : ℤ
  alarmNsec : ℤ
  interval : UInt32
  pollexp : UInt32
  tistate : Timer
  state : State
  sendtime : UInt64
  reference : UInt64
  current : Option ℕ
  failures : ℕ
  bestidx : Option ℕ
  bestrtt : UInt32
  lastrtt : UInt32
  ref : UInt64
  lo : Int64
  hi : Int64
  polltime : UInt64
  synctime : UInt64
  syncdt : Int64
  /-- what the clock was told, the last first -/
  clock : List Timex
  /-- requests and answers, the last first -/
  log : List Mail

/-- The process at its start. -/
def Top.init : Top :=
  ⟨false, List.replicate NSERVS Serv.empty, 0, 0, 0, 0, .none, .idle, 0, 0, none, 0, some 0, 0, 0,
    0, 0, 0, 0, 0, 0, [], []⟩

/-- What the system answers while an event is handled. -/
structure Env where
  /-- the time, as in a packet -/
  now : UInt64
  /-- `CLOCK_BOOTTIME` -/
  boot : UInt64
  socket : Bool
  sendto : Bool
  timerCreate : Bool
  timerSettime : Bool
  /-- how much of the wait was left -/
  leftSec : ℕ
  leftNsec : ℕ

/-- A packet: where it comes from, and its bytes. -/
structure Packet where
  src : List UInt8
  data : List UInt8

/-- The servers in a command: addresses and ports, where there are both. -/
abbrev SrvAttr := Option (List UInt8 × ℤ)

/-- The commands. -/
inductive Cmd
  | status
  | server (srvs : List SrvAttr)
  | srlist
  | retry
  | reset
  | force

/-- What `ppoll` ends with. -/
inductive Event
  | packet (p : Packet)
  | command (cmd : Cmd)
  | timeout
  | signal

/-! ### Waiting -/

variable (env : Env) (ctx : Top)

/-- A timer for a long wait, which may fail to be made or set. -/
def startPollTimer : Top :=
  if ctx.tistate = .none && !env.timerCreate then ctx
  else if !env.timerSettime then
    { ctx with tistate := if ctx.tistate = .none then .clear else ctx.tistate }
  else { ctx with tistate := .armed }

/-- A timer that is set is put off. -/
def clearPollTimer : Top :=
  if ctx.tistate ≠ .armed then ctx else { ctx with tistate := .clear }

def deletePollTimer : Top := { ctx with tistate := .none }

/-- Nothing is asked, and nothing is waited for. -/
def stopService : Top :=
  deletePollTimer { ctx with state := .idle, current := none, failures := 0, interval := 0 }

/-- The next state, and how long to stay in it: more than five minutes by the timer. -/
def setTimed (state : State) (sec : ℕ) : Top :=
  let ctx := { ctx with state := state }
  if state = .pollWait ∧ sec > 5 * 60 then
    { startPollTimer env ctx with alarmSec := 0, alarmNsec := -1 }
  else
    { clearPollTimer ctx with alarmSec := sec, alarmNsec := 0 }

/-- `wait_timeout`: whether there is one, which is the alarm. -/
def waitTimeout : Bool := ctx.state ≠ .idle ∧ ctx.tistate ≠ .armed

/-! ### Servers -/

/-- `current`: the server that has its turn, unless its slot is empty. -/
def current : Option Serv := do
  let i ← ctx.current
  let sv ← ctx.servs[i]?
  if sv.set then some sv else none

/-- `put_server_address`: the bytes of the address. -/
def putServerAddress (sv : Serv) : List UInt8 :=
  if sv.ipv6 then
    [10, 0] ++ [sv.port.toNat / 256, sv.port.toNat].map UInt8.ofNat ++ List.replicate 4 0 ++
      sv.addr.take 16 ++
      List.replicate 4 0
  else
    [2, 0] ++ [sv.port.toNat / 256, sv.port.toNat].map UInt8.ofNat ++ sv.addr.take 4 ++
      List.replicate 8 0

/-- `find_next_best`: of those with the least round trip time the last one. -/
def findNextBest : Option ℕ :=
  (List.range ctx.servs.length).foldl (fun best i =>
    match ctx.servs[i]? with
    | none => best
    | some sv =>
      if !(sv.set && sv.hasRtt && !sv.kill && !sv.fail) then best
      else
        match best.bind (ctx.servs[·]?) with
        | none => some i
        | some b => if sv.rtt > b.rtt then best else some i) none

/-- A server that was not asked in this pass. -/
def findUnpinged : Option ℕ := ctx.servs.findIdx? fun sv => sv.set && !sv.ping

def selectNextBest : Top := { ctx with current := findNextBest ctx }

/-- The next server of a pass, marked as asked. -/
def selectUnpinged : Option Top :=
  let ctx := { ctx with current := findUnpinged ctx }
  match ctx.current with
  | none => some ctx
  | some i => do
    let _ ← current ctx
    some { ctx with servs := ctx.servs.modify i fun sv => { sv with ping := true } }

/-- The server that has its turn is marked, and loses it. -/
def markCurrent (flag : Serv → Serv) : Option Top := do
  let _ ← current ctx
  let i ← ctx.current
  some { ctx with servs := ctx.servs.modify i flag, current := none }

/-- `sv->flags |= SF_KILL` -/
def markKill (sv : Serv) : Serv := { sv with kill := true }

/-- `sv->flags |= SF_FAIL` -/
def markFail (sv : Serv) : Serv := { sv with fail := true }

/-! ### The clock -/

def slewTimeConstant (ival : UInt32) : ℕ := Nat.log2 ival.toNat - 5

def resetInterval : Top := { ctx with interval := 1024 }

def increaseInterval : Top :=
  if ctx.interval = 0 then { ctx with interval := 1024 }
  else if ctx.interval < 4096 then { ctx with interval := ctx.interval * 2 }
  else ctx

def decreaseInterval : Top :=
  if ctx.interval = 0 then { ctx with interval := 1024 }
  else if ctx.interval > 1024 then { ctx with interval := ctx.interval / 2 }
  else ctx

/-- The clock is set, by seconds and nanoseconds. -/
def requestClockStep (dt : Int64) : Timex :=
  .step (dt >>> 32) ((dt.toUInt64 &&& 0xFFFFFFFF) * 1000000000 / 4294967296)

/-- The clock is corrected slowly. -/
def requestClockSlew (dt : Int64) (ival : UInt32) : Timex :=
  .slew (dt * 1000000000 / 4294967296) (slewTimeConstant ival)

/-- `adjust`: the second half of `consider_synching`, with an offset to be corrected. -/
def considerOffset (dt : Int64) : Top :=
  let ad := if dt < 0 then -dt else dt
  if ad < 4194304 then increaseInterval ctx
  else
    let ctx := { ctx with syncdt := dt, synctime := ctx.polltime }
    -- `1<<31` is an `int`, and the least one
    let ctx :=
      if ad ≥ -2147483648 then resetInterval ctx
      else if ad ≥ 536870912 then decreaseInterval ctx
      else increaseInterval ctx
    let tmx := if ad ≥ 2147483648 then requestClockStep dt else requestClockSlew dt ctx.interval
    { ctx with clock := tmx :: ctx.clock }

/-- The clock is corrected if zero does not lie from `lo` to `hi`. -/
def considerSynching : Option Top := do
  let sv ← current ctx
  let bound : Int64 := (sv.rtt / 2).toUInt64.toInt64
  if ctx.lo > 0 then some (considerOffset ctx (-(ctx.lo + bound)))
  else if ctx.hi < 0 then some (considerOffset ctx (-(ctx.hi - bound)))
  else some (increaseInterval ctx)

/-! ### Choosing a server -/

/-- The nearest server is taken, and its answer used if it is the one noted. -/
def pingPassComplete : Option Top := do
  let ai := findNextBest ctx
  let bi := ctx.bestidx
  let ctx := { ctx with current := ai }
  let ctx ←
    if ai.isNone then some (stopService ctx)
    else if ai = bi then do
      let ctx ← considerSynching { ctx with lastrtt := ctx.bestrtt }
      some (setTimed env ctx .pollWait (max ctx.interval.toNat 60))
    else some (setTimed env { ctx with polltime := 0, lastrtt := 0xFFFFFFFF } .pollWait 2)
  some { ctx with bestidx := none, bestrtt := 0 }

/-- The next best server, when the one in use does not answer. -/
def switchToBackup : Top :=
  let ctx := selectNextBest ctx
  if ctx.current.isSome then setTimed env ctx .pollWait 10 else stopService ctx

def pingNextServer : Option Top := do
  let ctx ← selectUnpinged ctx
  if ctx.current.isSome then some (setTimed env ctx .pingWait 1) else pingPassComplete env ctx

/-- The server said not to ask, or that its clock is not set. -/
def dropServer (flag : Serv → Serv) : Option Top := do
  let ctx ← markCurrent ctx flag
  match ctx.state with
  | .pingSent => pingNextServer env ctx
  | .pollSent => some (switchToBackup env ctx)
  | _ => none

/-! ### Packets -/

/-- A long wait does without a socket. -/
def maybeCloseSocket : Top :=
  if ctx.state = .idle ∨ ctx.state = .pollWait then { ctx with ntpfd := false } else ctx

/-- `send_packet`, and whether it succeeds. -/
def sendPacket : Option (Bool × Top) := do
  let sv ← current ctx
  let ctx := { ctx with ntpfd := ctx.ntpfd || env.socket }
  if !ctx.ntpfd || !env.sendto then some (false, ctx)
  else some (true, { ctx with
    sendtime := env.now, reference := env.now,
    log := .sent (putServerAddress sv) env.now :: ctx.log })

variable (p : Packet)

namespace Packet

/-- A number in a packet. -/
def field (off len : ℕ) : ℕ := beVal ((p.data.drop off).take len)

def code : ℕ := p.field 0 4

def originate : UInt64 := .ofNat (p.field 24 8)

def receive : UInt64 := .ofNat (p.field 32 8)

def transmit : UInt64 := .ofNat (p.field 40 8)

def li : ℕ := p.code / 1073741824 % 4

def version : ℕ := p.code / 134217728 % 8

def mode : ℕ := p.code / 16777216 % 8

def stratum : ℕ := p.code / 65536 % 256

end Packet

/-- The first part of `add_ping_point`, for the `i`-th server: what is noted. -/
def notePing (i : ℕ) (ref : UInt64) (lo hi : Int64) : Top :=
  let rtt := hi - lo
  if rtt < 0 ∨ rtt > 0xFFFFFFFF then ctx
  else
    let urtt : UInt32 := rtt.toUInt64.toUInt32
    let ctx := { ctx with servs := ctx.servs.modify i fun sv =>
      { sv with rtt := urtt, hasRtt := true } }
    if ctx.bestidx.isSome ∧ ctx.bestrtt < urtt then ctx
    else { ctx with
      ref := ref, lo := lo, hi := hi, interval := 0, pollexp := 0, bestidx := ctx.current,
      bestrtt := urtt, polltime := env.boot }

def addPingPoint (ref : UInt64) (lo hi : Int64) : Option Top := do
  let _ ← current ctx
  let i ← ctx.current
  let ctx ← selectUnpinged (notePing env ctx i ref lo hi)
  if ctx.current.isSome then some { ctx with state := .pingWait } else pingPassComplete env ctx

/-- The first part of `add_poll_point`, for the `i`-th server: what is noted. -/
def notePoll (i : ℕ) (ref : UInt64) (lo hi : Int64) : Top :=
  let rtt := hi - lo
  let urtt : UInt32 :=
    if rtt < 0 then 0 else if rtt > 0xFFFFFFFF then 0xFFFFFFFF else rtt.toUInt64.toUInt32
  { ctx with
    lastrtt := urtt, ref := ref, lo := lo, hi := hi, polltime := env.boot,
    servs := ctx.servs.modify i fun sv => if sv.rtt > urtt then { sv with rtt := urtt } else sv }

def addPollPoint (ref : UInt64) (lo hi : Int64) : Option Top := do
  let _ ← current ctx
  let i ← ctx.current
  let ctx ← considerSynching (notePoll env ctx i ref lo hi)
  some (setTimed env ctx .pollWait (max ctx.interval.toNat 1))

/-- The end of `handle_packet`: what is made of the times in an answer. -/
def addPoint : State → Option Top :=
  let ref := p.receive + (p.transmit - p.receive) / 2
  let lo := (ctx.sendtime - p.receive).toInt64
  let hi := (env.now - p.transmit).toInt64
  fun
  | .pingSent => addPingPoint env ctx ref lo hi
  | .pollSent => addPollPoint env ctx ref lo hi
  | _ => some ctx

/-- What an answer says: not to ask, that there is no time, or the time. -/
def handlePacket : Option Top :=
  if p.stratum = 0 then dropServer env ctx markKill
  else if p.li = 3 then dropServer env ctx markFail
  else addPoint env { ctx with failures := 0 } p ctx.state

/-- `valid_packet`, without what it does to the mark. -/
def validPacket : Bool :=
  (p.version = 3 || p.version = 4) && p.mode = 4 && p.originate = ctx.reference

/-- `recv_packet`: whether there is one. -/
def recvPacket : Option Bool :=
  if ctx.current.isNone then some false
  else do
    let sv ← current ctx
    some (p.src = putServerAddress sv ∧ 48 ≤ p.data.length)

/-- A packet that is taken clears the mark, so that there is no second answer. -/
def checkPacket : Option Top := do
  let got ← recvPacket ctx p
  if !got || !validPacket ctx p then some ctx
  else do
    let ctx ← handlePacket env
      { ctx with reference := 0, log := .taken p.src p.originate :: ctx.log } p
    some (maybeCloseSocket ctx)

/-! ### Timeouts -/

/-- Two attempts to send, then the next server. -/
def sendPingRequest : Option Top := do
  let (sent, ctx) ← sendPacket env ctx
  if sent then some (setTimed env ctx .pingSent 1)
  else if ctx.failures < 1 then
    some (setTimed env { ctx with failures := ctx.failures + 1 } .pingWait 1)
  else do
    let ctx ← selectUnpinged ctx
    if ctx.current.isSome then some (setTimed env ctx .pingWait 1) else pingPassComplete env ctx

def handlePingTimeout : Option Top :=
  if ctx.failures < 1 then sendPingRequest env { ctx with failures := ctx.failures + 1 }
  else do
    let ctx ← selectUnpinged ctx
    if ctx.current.isSome then sendPingRequest env ctx else pingPassComplete env ctx

def sendPollRequest : Option Top := do
  let (sent, ctx) ← sendPacket env ctx
  if sent then some (setTimed env ctx .pollSent 1)
  else if ctx.failures < 3 then
    some (setTimed env { ctx with failures := ctx.failures + 1 } .pollWait 60)
  else do
    let ctx ← markCurrent ctx markFail
    some (switchToBackup env ctx)

def handlePollTimeout : Option Top :=
  if ctx.failures < 3 then
    some (setTimed env { ctx with failures := ctx.failures + 1 } .pollWait (60 - 1))
  else do
    let ctx ← markCurrent ctx markFail
    some (setTimed env ctx .select 1)

def startSelection : Option Top := do
  let ctx ← selectUnpinged { ctx with bestidx := none, bestrtt := 0 }
  if ctx.current.isSome then sendPingRequest env ctx else pingPassComplete env ctx

def handleTimeout : Option Top := do
  let ctx ←
    match ctx.state with
    | .select => startSelection env ctx
    | .pingSent => handlePingTimeout env ctx
    | .pollSent => handlePollTimeout env ctx
    | .pingWait => sendPingRequest env ctx
    | .pollWait => sendPollRequest env ctx
    | .idle => some ctx
  some (maybeCloseSocket ctx)

/-! ### Commands -/

variable (servs : List Serv)

def findServerSlot (ip : List UInt8) (port : ℤ) : Option ℕ :=
  if ip.length = 16 ∨ ip.length = 4 then
    servs.findIdx? fun sv =>
      sv.ipv6 == (ip.length = 16 : Bool) &&
        (sv.port.toNat : ℤ) == port && sv.addr.take ip.length == ip
  else none

def grabServerSlot : Option ℕ := servs.findIdx? fun sv => !sv.set

/-- `check_server`, if there is an address and a port. -/
def checkServer (at_ : SrvAttr) : Option (List Serv) :=
  match at_ with
  | none => none
  | some (ip, port) =>
    if ip.length ≠ 4 ∧ ip.length ≠ 16 then none
    else
      match findServerSlot servs ip port with
      | some i => some (servs.modify i fun sv => { sv with fail := false })
      | none =>
        match grabServerSlot servs with
        | none => some servs
        | some i => some (servs.set i { Serv.empty with
            set := true, ipv6 := ip.length = 16, port := UInt16.ofInt port,
            addr := ip ++ List.replicate (16 - ip.length) 0 })

/-- The loop of `cmd_server`: the servers, and whether all attributes were good. -/
def addServers : List Serv → List SrvAttr → List Serv × Bool
  | servs, [] => (servs, true)
  | servs, at_ :: rest =>
    match checkServer servs at_ with
    | none => (servs, false)
    | some servs => addServers servs rest

def wipeFailed : List Serv :=
  ctx.servs.mapIdx fun i sv =>
    if ctx.current ≠ some i ∧ sv.set ∧ (sv.kill ∨ sv.fail) then Serv.empty else sv

def gotUsableServers : Bool := servs.any fun sv => sv.set && !sv.kill && !sv.fail

def cmdServer (srvs : List SrvAttr) : Top :=
  match addServers (wipeFailed ctx) srvs with
  | (servs, false) => { ctx with servs := servs }
  | (servs, true) =>
    let ctx := { ctx with servs := servs }
    if ctx.state = .idle ∧ gotUsableServers servs then setTimed env ctx .select 1 else ctx

def cmdRetry : Top :=
  if ctx.servs.any fun sv => sv.set && !sv.kill then
    setTimed env { ctx with
      servs := ctx.servs.map fun sv => if sv.set && !sv.kill then
        { sv with fail := false } else sv } .select 1
  else ctx

def cmdReset : Top := stopService { ctx with servs := List.replicate NSERVS Serv.empty }

def cmdForce : Top :=
  if ctx.state = .pollWait then setTimed env ctx .pollWait 1 else ctx

/-- `cmd_status`, which looks at the current server if there is one. -/
def cmdStatus : Option Top :=
  if (ctx.state = .pollSent ∨ ctx.state = .pollWait) ∧ ctx.current.isSome then do
    let _ ← current ctx
    some ctx
  else some ctx

/-- `dispatch_cmd`, of a command there is. -/
def dispatchCmd : Cmd → Option Top
  | .status => cmdStatus ctx
  | .server srvs => some (cmdServer env ctx srvs)
  | .srlist => some ctx
  | .retry => some (cmdRetry env ctx)
  | .reset => some (cmdReset ctx)
  | .force => some (cmdForce env ctx)

/-! ### The loop -/

/-- What is left of a wait is written over it. -/
def waited : Top :=
  if waitTimeout ctx then { ctx with alarmSec := env.leftSec, alarmNsec := env.leftNsec } else ctx

/-- What is done after `ppoll`. -/
def handleEvent : Event → Option Top
  | .packet p => checkPacket env ctx p
  | .command cmd => dispatchCmd env ctx cmd
  | .timeout => handleTimeout env { ctx with alarmNsec := -1 }
  | .signal => if ctx.tistate ≠ .armed then some ctx else handleTimeout env
    { ctx with tistate := .clear }

/-- One turn of the loop of `main`. A wait that is not valid makes `ppoll` fail. -/
def handle (e : Env × Event) : Option Top :=
  if waitTimeout ctx ∧ ctx.alarmNsec < 0 then none else handleEvent e.1 (waited e.1 ctx) e.2

/-- Whether `ppoll` can end so. -/
def Possible : Event → Prop
  | .packet _ => ctx.ntpfd = true
  | .timeout => waitTimeout ctx = true
  | _ => True

instance (ctx : Top) (ev : Event) : Decidable (Possible ctx ev) :=
  match ev with
  | .packet _ => inferInstanceAs (Decidable (ctx.ntpfd = true))
  | .timeout => inferInstanceAs (Decidable (waitTimeout ctx = true))
  | .command _ => .isTrue trivial
  | .signal => .isTrue trivial

end Minibase.Timed
