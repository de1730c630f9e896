import Minibase.Ifmon.Links
import Minibase.Lib.Runs

/-!
# ifmon, its scripts and its clients

`ifmon` runs a script for a link when something is needed, which is what the `LF_NEED` flags are
for, and tells the clients that asked for it what has become of a script. A step of the process
(`Ifmon.Mon.step`) is one message of the kernel, one command, one exit of a script, or
`check_links`, with which the loop of `main` ends each time. Next to what the process has in
memory, the state says which links a client has asked for, and what was sent to whom.
-/

namespace Minibase.Ifmon

def NCONNS : ℕ := 8

def TAGLEN : ℕ := 16

/-- `-ENOENT`. -/
def noEntry : ℤ := -2

/-! ### Scripts of a link -/

/-- What the system answers if a script of a link is to be run, under one name or another: the id of
the process, or an error. -/
structure Forks where
  mode : ℤ
  stop : ℤ
  flush : ℤ
  poke : ℤ
  conf : ℤ
  config : ℤ

/-- A link for which scripts are run, the processes that have been started, and the number of
reports that have been made. -/
structure Work where
  ls : Link
  pids : List ℕ := []
  reports : ℕ := 0

namespace Link

def setCurrentScript (ls : Link) (what : Script) : Link :=
  { ls with flags := { ls.flags with script := what, running := false } }

def clearLinkMode (ls : Link) : Link :=
  { ls with mode := [], flags := { ls.flags with carrier := false } }

def canRun (ls : Link) (need : Flags → Bool) : Bool :=
    !ls.flags.running && !ls.flags.failed && need ls.flags

lemma canRun_iff {ls : Link} {need : Flags → Bool} :
    ls.canRun need = true ↔ ls.flags.running = false ∧ ls.flags.failed = false ∧
      need ls.flags = true := by
  rw [canRun, Bool.and_eq_true, Bool.and_eq_true, Bool.not_eq_true', Bool.not_eq_true', and_assoc]

end Link

namespace Work

variable (r : Forks) (w : Work)

/-- `spawn`, when it succeeds. -/
def spawn (pid : ℤ) : Work :=
  { w with
    ls := { w.ls with pid := pid.toNat, flags := { w.ls.flags with running := true } }
    pids := w.pids ++ [pid.toNat] }

/-- `report_mode_errno` and its like. -/
def report : Work := { w with reports := w.reports + 1 }

def spawnMode : Work :=
  let ls := { w.ls with flags := { w.ls.flags with needMode := false } }
  let w := { w with ls := ls.setCurrentScript .mode }
  if r.mode > 0 then w.spawn r.mode
  else { w.report with ls := { w.ls with flags := { w.ls.flags with failed := true } } }

def spawnStop : Work :=
  let ls := { w.ls with flags := { w.ls.flags with needStop := false } }
  let w := { w with ls := ls.setCurrentScript .stop }
  if r.stop > 0 then w.spawn r.stop
  else if r.stop ≠ noEntry then w.report
  else if r.flush > 0 then w.spawn r.flush
  else if r.flush ≠ noEntry then w.report
  else { w.report with ls := w.ls.clearLinkMode }

def spawnPoke : Work :=
  let w := { w with ls := w.ls.setCurrentScript .poke }
  if r.poke > 0 then w.spawn r.poke else w

def spawnDhcp : Work :=
  let w := { w with ls := w.ls.setCurrentScript .dhcp }
  if r.conf > 0 then w.spawn r.conf
  else if r.conf ≠ noEntry then w
  else if r.config > 0 then w.spawn r.config
  else w

/-- Something is done for a link, if it is needed and `can_run` says so. -/
def tryRun (need : Flags → Bool) (clear : Flags → Flags) (spawn : Work → Work) : Work :=
  if w.ls.canRun need then spawn { w with ls := { w.ls with flags := clear w.ls.flags } } else w

/-- The body of the loop of `check_links`, for a marked link. -/
def checkLink : Work :=
  let w := w.tryRun (·.needMode) (fun f => { f with needMode := false }) (spawnMode r)
  let w := w.tryRun (·.needStop) (fun f => { f with needStop := false }) (spawnStop r)
  let w := w.tryRun (·.needPoke) (fun f => { f with needPoke := false }) (spawnPoke r)
  let w := w.tryRun (·.needDhcp) (fun f => { f with needDhcp := false }) (spawnDhcp r)
  { w with ls := { w.ls with flags := { w.ls.flags with marked := false } } }

end Work

/-! ### The process -/

/-- `struct conn`, and what has happened since the connection was accepted. -/
structure Conn where
  fd : ℤ := 0
  ifi : ℤ := 0
  /-- the links that were asked for in a request that succeeded -/
  asked : List ℤ := []
  /-- whether `ifi` is that of the connection before, which was in the same slot -/
  left : Bool := false
deriving DecidableEq

/-- Something that is sent to a client: which link it is about, and which ones the client has asked
for. -/
structure Report where
  ifi : ℤ
  asked : List ℤ
deriving DecidableEq

/-- `struct top`, and what has been reported. -/
structure Mon where
  top : Top
  nconns : ℕ
  conns : List Conn
  reports : List Report

/-- What the client asks for. -/
inductive Cmd
  | status
  | idmode
  | mode
  | stop
  | kill
  | drop
  | dhcpAuto
  | dhcpStop
  | reconnect
deriving DecidableEq

/-- A command, with the attributes in the message. -/
structure Req where
  cmd : Cmd
  ifi : Option ℤ
  mode : Option (List UInt8)

/-- What happens, with what the system answers meanwhile. -/
inductive Event
  | netlink (msg : Msg)
  | accept (fd : ℤ)
  | command (j : ℕ) (req : Req) (replied : Bool)
  | hangup (j : ℕ)
  | reap (pid status : ℕ) (sends : ℤ → ℕ → Bool)
  | checkLinks (forks : ℕ → Forks) (sends : ℤ → ℕ → Bool)

namespace Mon

variable (m : Mon)

/-- What `main` starts from. -/
def init : Mon := ⟨Top.init, 0, List.replicate NCONNS {}, []⟩

variable (i : ℕ)

/-- The link in a slot. -/
def link : Link := m.top.links.getD i {}

variable (j : ℕ)

/-- The connection in a slot. -/
def conn : Conn := m.conns.getD j {}

/-- Changes a link. -/
def putLink (ls : Link) : Mon := { m with top := m.top.put i ls }

/-- `sys_kill`. -/
def kill (k : Kill) : Mon := { m with top := { m.top with kills := m.top.kills ++ [k] } }

/-! ### Connections -/

/-- The loop of `close_conn`, from below a slot: how many slots there are then. -/
def lastOpen (conns : List Conn) : ℕ → ℕ
  | 0 => 0
  | n + 1 => if 0 ≤ (conns.getD n {}).fd then n + 1 else lastOpen conns n

def closeConn : Mon :=
  if m.nconns = 0 then m
  else
    let m := { m with conns := m.conns.set j { m.conn j with fd := -1 } }
    if j + 1 ≠ m.nconns then m else { m with nconns := lastOpen m.conns m.nconns }

def grabConnSlot : Option (ℕ × Mon) :=
  match (m.conns.take m.nconns).findIdx? fun cn => cn.fd < 0 with
  | some j => some (j, m)
  | none => if NCONNS ≤ m.nconns then none else some (m.nconns, { m with nconns := m.nconns + 1 })

/-- `accept_ctrl`, for one connection. -/
def acceptCtrl (fd : ℤ) : Mon :=
  match m.grabConnSlot with
  | none => m
  | some (j, m) =>
    { m with conns := m.conns.set j { m.conn j with fd := fd, asked := [], left := (m.conn j).ifi ≠
      0 } }

/-- The body of the loop of `send_report`. -/
def sendTo (sends : ℤ → ℕ → Bool) (ifi : ℤ) (j : ℕ) : Mon :=
  let cn := m.conn j
  if cn.ifi ≠ ifi ∨ cn.fd ≤ 0 then m
  else
    let m := { m with reports := m.reports ++ [⟨ifi, cn.asked⟩] }
    if sends ifi j then m else m.closeConn j

def sendReport (sends : ℤ → ℕ → Bool) (ifi : ℤ) : Mon :=
  (List.range m.nconns).foldl (fun m j => m.sendTo sends ifi j) m

/-! ### Commands -/

/-- `cn->ifi = ls->ifi`, after which the request succeeds. -/
def subscribe (ifi : ℤ) : Mon :=
  let cn := m.conn j
  { m with conns := m.conns.set j { cn with ifi := ifi, asked := ifi :: cn.asked, left := false } }

/-- A link gets a mode, which is to be started. -/
def setMode (j i : ℕ) (mode : Option (List UInt8)) : ℤ × Mon :=
  let ls := m.link i
  match mode with
  | none => (-22, m)
  | some mode =>
    if mode.length = 0 ∨ mode.length > TAGLEN then (-22, m)
    else
      let flags := { ls.flags with failed := false, needMode := true, marked := true }
      (0, (m.putLink i { ls with mode := mode, flags := flags }).subscribe j ls.ifi)

def cmdIdmode (j i : ℕ) (mode : Option (List UInt8)) : ℤ × Mon :=
  if (m.link i).flags.script ≠ .idef then (-16, m) else m.setMode j i mode

def cmdMode (j i : ℕ) (mode : Option (List UInt8)) : ℤ × Mon :=
  if (m.link i).mode ≠ [] then (-16, m)
  else if (m.link i).flags.running then (-16, m)
  else m.setMode j i mode

/-- What runs is ended, and a stop script is needed. -/
def cmdStop (j i : ℕ) : ℤ × Mon :=
  let ls := m.link i
  if ls.mode = [] then (-3, m)
  else
    let m :=
      if !ls.flags.running then m
      else if ls.flags.script = .dhcp then m.kill (.int ls.pid)
      else m.kill (.term ls.pid)
    let flags := { ls.flags with
      failed := false, autoDhcp := false, needMode := false, needStop := true, marked := true }
    (0, (m.putLink i { ls with flags := flags }).subscribe j ls.ifi)

def cmdKill : ℤ × Mon :=
  if !(m.link i).flags.running then (-10, m) else (0, m.kill (.term (m.link i).pid))

/-- The link is let go, whatever runs for it. -/
def cmdDrop : ℤ × Mon :=
  let ls := m.link i
  let m := if ls.flags.running then m.kill (.term ls.pid) else m
  (0, m.putLink i { ls with
    pid := 0, mode := [], flags := { ls.flags with enabled := false, carrier := false } })

def cmdDhcpAuto : ℤ × Mon :=
  let ls := m.link i
  let flags := { ls.flags with
    autoDhcp := true, marked := true, needDhcp := ls.flags.needDhcp || ls.flags.carrier }
  (0, m.putLink i { ls with flags := flags })

def cmdDhcpStop : ℤ × Mon :=
  let ls := m.link i
  let m := m.putLink i { ls with flags := { ls.flags with autoDhcp := false } }
  (0, if ls.flags.running ∧ ls.flags.script = .dhcp then m.kill (.hup ls.pid) else m)

/-- `cmd_reconnect`, with `simulate_reconnect`. -/
def cmdReconnect : ℤ × Mon :=
  let (ls, kills) := (m.link i).carrierFall
  (0, (kills.foldl kill m).putLink i ls.carrierRise)

/-- A command about a link that is there. -/
def call (j i : ℕ) (req : Req) : ℤ × Mon :=
  match req.cmd with
  | .status => (1, m)
  | .idmode => m.cmdIdmode j i req.mode
  | .mode => m.cmdMode j i req.mode
  | .stop => m.cmdStop j i
  | .kill => m.cmdKill i
  | .drop => m.cmdDrop i
  | .dhcpAuto => m.cmdDhcpAuto i
  | .dhcpStop => m.cmdDhcpStop i
  | .reconnect => m.cmdReconnect i

/-- `dispatch`: the link is looked for, and there is a reply. -/
def dispatch (req : Req) : ℤ × Mon :=
  if req.cmd = .status then (1, m)
  else
    match req.ifi with
    | none => (-22, m)
    | some ifi =>
      if req.cmd = .mode ∧ req.mode = none then (-22, m)
      else
        match m.top.findLinkSlot ifi with
        | none => (-19, m)
        | some i => m.call j i req

def handleConn (req : Req) (replied : Bool) : Mon :=
  let m := (m.dispatch j req).2
  if replied then m else m.closeConn j

/-! ### Scripts -/

/-- `script_exit`, and whether it reports. -/
def scriptExit (ls : Link) (status : ℕ) : Link × Bool :=
  let what := ls.flags.script
  let ls := if what = .mode ∧ status ≠ 0 then
    { ls with flags := { ls.flags with failed := true } } else ls
  let ls := if what = .stop then ls.clearLinkMode else
    { ls with flags := { ls.flags with marked := true } }
  (ls, what = .mode ∨ what = .stop)

def findLinkPid (pid : ℕ) : Option ℕ := m.top.used.findIdx? fun ls =>
    ls.flags.running && ls.pid == pid

/-- `got_sigchld`, for one process. -/
def gotSigchld (pid status : ℕ) (sends : ℤ → ℕ → Bool) : Mon :=
  let m := { m with top := { m.top with children := m.top.children.filter fun c => c.2 ≠ pid } }
  match m.findLinkPid pid with
  | none => m
  | some i =>
    let ls := m.link i
    let out := scriptExit { ls with pid := status, flags := { ls.flags with running := false } }
      status
    let m := m.putLink i out.1
    if out.2 then m.sendReport sends ls.ifi else m

/-- Some reports about a link. -/
def sendReports (sends : ℤ → ℕ → Bool) (ifi : ℤ) : ℕ → Mon → Mon
  | 0, m => m
  | n + 1, m => sendReports sends ifi n (m.sendReport sends ifi)

/-- The body of the loop of `check_links`. -/
def checkSlot (forks : ℕ → Forks) (sends : ℤ → ℕ → Bool) (i : ℕ) : Mon :=
  let ls := m.link i
  if !ls.flags.marked then m
  else
    let w := Work.checkLink (forks i) { ls := ls }
    let m := m.putLink i w.ls
    let m := { m with top := { m.top with children := m.top.children ++ w.pids.map (i, ·) } }
    sendReports sends ls.ifi w.reports m

/-- What is marked is looked at, once for each slot. -/
def checkLinks (forks : ℕ → Forks) (sends : ℤ → ℕ → Bool) : Mon :=
  (List.range m.top.nlinks.toNat).foldl (fun m i => m.checkSlot forks sends i) m

/-! ### Steps -/

/-- What an event does, if it can happen. -/
def after : Event → Option Mon
  | .netlink msg => (m.top.dispatch msg).toOption.map fun top => { m with top := top }
  | .accept fd => if 0 < fd then some (m.acceptCtrl fd) else none
  | .command j req replied => if j < m.nconns ∧
    0 < (m.conn j).fd then some (m.handleConn j req replied) else none
  | .hangup j => if j < m.nconns then some (m.closeConn j) else none
  | .reap pid status sends =>
    if pid ∈ m.top.children.map Prod.snd then some (m.gotSigchld pid status sends) else none
  | .checkLinks forks sends => some (m.checkLinks forks sends)

/-- **A step.** The system never gives two processes the same id. -/
def step (e : Event) : Option Mon :=
  (m.after e).filter fun m => decide (m.top.children.map Prod.snd).Nodup

end Mon

end Minibase.Ifmon
