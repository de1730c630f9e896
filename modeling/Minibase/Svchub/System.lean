import Minibase.Svchub.Hub
import Minibase.Lib.Outcome
import Minibase.Lib.Runs

/-!
# The service hub as a whole

What `svchub_boot.c` does about scripts, stop requests, alarms and dead children, the
commands of `svchub_ctrl.c`, and the step of the main loop, `Svchub.step`. For `SIGCHLD`,
`check_children` waits for one child after the other until there is none left; each of these is a
step of its own (`Svchub.Event.reap`), and so is what follows (`Svchub.Event.settle`), and nothing
else happens in between. `Svchub.World` adds a history to the hub: whether it has ever agreed to
stop, how many alarms there have been since, and whether it has used force.
-/

namespace Minibase.Svchub

namespace Hub

variable (h : Hub) (a : Answers)

/-! ### Scripts -/

def spawnScript : Except String (ℤ × Hub) :=
  if a.access ≠ 0 then .ok (-a.access, h)
  else if 0 < h.scrpid then .ok (-EBUSY, h)
  else match a.fork with
    | none => .error "fork"
    | some next =>
      let pid := freshPid h.kids next
      .ok (0, { h with scrpid := pid, kids := ⟨pid, none⟩ :: h.kids })

/-- `spawn_shutdown`, with `close_socket`. -/
def spawnShutdown : Except String Hub := do
  let h := { h with state := .shutdown, ctlfd := false }.did .shutdown
  let (ret, h) ← h.spawnScript a
  if 0 ≤ ret then .ok h else .error "no shutdown script"

def stopConShell : Hub :=
  if h.scrpid ≤ 0 then h
  else if h.kill a h.scrpid.toNat then h
  else { h with scrpid := 0 }

/-- `stop_all_procs`, for one slot. -/
def stopOne (pc : Proc) : Proc :=
  if pc.signalable && h.kill a pc.pid then { pc with flags := { pc.flags with killed := true } }
  else pc

def stopAllProcs : Hub := { h with procs := h.procs.map (h.stopOne a) }.stopConShell a

def armShutdownTimer : Hub := { h with alarm := true }

def commandStop (mode : Option String) : ℤ × Hub :=
  if h.state = .stopping ∨ h.state = .shutdown then (-EALREADY, h)
  else
    (0, (({ h with state := .stopping, rbmode := mode, sigcnt := 0 }.did .accepted).stopAllProcs
      a).armShutdownTimer)

/-- `force_shutdown`, for one slot. -/
def forceOne (pc : Proc) : Proc := if pc.signalable then { pc with pid := 0 } else pc

def forceShutdown : Except String Hub :=
  ({ h with procs := h.procs.map forceOne,
            scrpid := if 0 < h.scrpid then -1 else h.scrpid }.did .forced).spawnShutdown a

def handleAlarm : Except String Hub :=
  if h.state ≠ .stopping then .ok h
  else
    let count := h.sigcnt
    let h := { h with sigcnt := count + 1 }
    if count < 3 then .ok h.armShutdownTimer
    else { h with sigcnt := 0 }.forceShutdown a

def signalStop (mode : String) : Except String Hub :=
  match h.state with
  | .stopping => h.forceShutdown a
  | .shutdown => .error "aborting"
  | _ => .ok (h.commandStop a (some mode)).2

def shellExit : Except String Hub :=
  let (ret, h) := h.commandStop a none
  if 0 ≤ ret then .ok h else .error "cannot shutdown"

def startupDone (status : ℕ) : Except String Hub :=
  if status ≠ 0 then .error "startup failed"
  else do
    let (_, h) ← { h with state := .running }.spawnScript a
    return h

def scriptExit (status : ℕ) : Except String Hub :=
  let state := h.state
  let h := { h with scrpid := 0, state := .unknown }
  match state with
  | .startup => h.startupDone a status
  | .shutdown => .error "shutdown script"
  | .running => h.shellExit a
  | _ => .ok h

/-- One round of the loop of `check_children`, for a child that `waitpid` has returned. -/
def reapChild (pid status : ℕ) : Except String Hub :=
  if h.scrpid = pid then h.scriptExit a status
  else match h.findByPid pid with
    | some i => .ok (h.procDied a i status)
    | none => .ok h

/-- The rest of `check_children`. -/
def settle : Except String Hub :=
  if h.nalive ≠ 0 ∨ 0 < h.scrpid then .ok h
  else if h.state = .shutdown then .error "failure at shutdown"
  else h.spawnShutdown a

/-! ### Commands -/

end Hub

/-- The commands of `common.h`; a name is missing if the attribute is not a string. -/
inductive Cmd
  | list
  | status (name : Option Name)
  | getbuf (name : Option Name)
  | flush (name : Option Name)
  | remove (name : Option Name)
  | stop (name : Option Name)
  | sighup (name : Option Name)
  | reboot
  | shutdown
  | poweroff
  | start (name : Option Name)
  | spawn (name : Option Name)
  | stout (name : Option Name)
  | unknown
deriving DecidableEq

namespace Hub

variable (h : Hub) (a : Answers)

def check (ret : ℤ × Hub) : ℤ × Hub := (if ret.1 < 0 then ret.1 else 0, ret.2)

/-- A command about one name. -/
def named (name : Option Name) (f : List UInt8 → ℤ × Hub) : ℤ × Hub :=
  match name with
  | none => (-EINVAL, h)
  | some n => f n.chars

/-- The commands that only report; the reply they make themselves is `REPLIED`. -/
def report (name : List UInt8) : ℤ × Hub :=
  match h.findByName name with
  | none => (-ENOENT, h)
  | some _ => (1, h)

def cmdStop (conn : ℕ) (name : List UInt8) : ℤ × Hub :=
  let (ret, h) := h.stopProc a name
  if ret < 0 then (ret, h)
  else (0, { h with conns := h.conns.modify conn fun cn => { cn with pid := ret.toNat } })

def dispatch (conn : ℕ) (cmd : Cmd) : ℤ × Hub :=
  match cmd with
  | .list => (1, h)
  | .reboot => check (h.commandStop a (some "reboot"))
  | .shutdown => check (h.commandStop a (some "shutdown"))
  | .poweroff => check (h.commandStop a (some "poweroff"))
  | .status name => h.named name h.report
  | .getbuf name => h.named name h.report
  | .flush name => h.named name fun n => check (h.flushProc a n)
  | .remove name => h.named name (h.removeProc a)
  | .stop name => h.named name (h.cmdStop a conn)
  | .sighup name => h.named name fun n => check (h.killProc a n)
  | .start name => h.named name fun n => h.startProc a n {}
  | .spawn name => h.named name fun n => h.startProc a n { once := true }
  | .stout name => h.named name fun n => h.startProc a n { pass := true }
  | .unknown => (-ENOSYS, h)

/-- `check_conn`, for a message that could be read: a connection that cannot be replied to is
closed. -/
def checkConn (conn : ℕ) (cmd : Cmd) : Hub :=
  let (_, h) := h.dispatch a conn cmd
  if conn ∈ a.deaf then h.closeConn conn else h

def checkSocket : Hub :=
  match h.conns.findIdx? fun cn => !cn.fd with
  | some i => { h with conns := h.conns.modify i fun cn => { cn with fd := true } }
  | none =>
    if 10 ≤ h.conns.length then h else { h with conns := h.conns ++ [{ fd := true }] }

end Hub

/-! ### Events -/

/-- What can happen to the hub. -/
inductive Event
  /-- A client that is connected sends a command. -/
  | command (conn : ℕ) (cmd : Cmd) (a : Answers)
  /-- A client connects. -/
  | connect
  /-- A client is gone, or sends nonsense. -/
  | hangup (conn : ℕ)
  /-- A service has output, or an end of it. -/
  | output (slot : ℕ) (mapped : Bool) (got : Option ℕ)
  /-- `SIGCHLD`. -/
  | chld
  /-- `waitpid` returns a child. -/
  | reap (pid status : ℕ) (a : Answers)
  /-- `waitpid` has no child to return. -/
  | settle (a : Answers)
  /-- `SIGINT`, `SIGTERM` or `SIGPWR`. -/
  | signal (mode : String) (a : Answers)
  /-- `SIGALRM`. -/
  | alrm (a : Answers)
deriving DecidableEq

/-- An event as the hub handles it. It is an error if the process ends. -/
def Hub.handle (h : Hub) : Event → Except String Hub
  | .command conn cmd a => .ok (h.checkConn a conn cmd)
  | .connect => .ok h.checkSocket
  | .hangup conn => .ok (h.closeConn conn)
  | .output slot mapped got => .ok (h.checkProc slot mapped got)
  | .chld => .ok { h with reaping := true }
  | .reap pid status a =>
    { h with kids := h.kids.filter fun k => k.pid ≠ pid }.reapChild a pid status
  | .settle a => { h with reaping := false }.settle a
  | .signal mode a => h.signalStop a mode
  | .alrm a => { h with alarm := false }.handleAlarm a

/-- The events that can happen: while children are waited for, nothing else is looked at,
`waitpid` returns children, and only open sockets are read from. -/
def Hub.possible (h : Hub) : Event → Bool
  | .command conn _ _ => !h.reaping && (h.conns.getD conn {}).fd
  | .connect => !h.reaping && h.ctlfd
  | .hangup conn => !h.reaping && (h.conns.getD conn {}).fd
  | .output slot _ _ => !h.reaping && (h.proc slot).fd
  | .chld => !h.reaping
  | .reap pid _ _ => h.reaping && pid ∈ h.kids.map Kid.pid
  | .settle _ => h.reaping
  | .signal _ _ => !h.reaping
  | .alrm _ => !h.reaping

/-- The hub and its history. -/
structure World where
  hub : Hub
  /-- It has agreed to stop, at some time. -/
  stopped : Bool
  /-- The alarms since it has, if it has and the shutdown script is still to be called for. -/
  waiting : Option ℕ
  /-- `force_shutdown` has been called. -/
  forced : Bool
deriving DecidableEq

/-- The history is written. -/
def World.after (w : World) (e : Event) (h : Hub) : World where
  hub := h
  stopped := w.stopped || .accepted ∈ h.log
  waiting :=
    if .shutdown ∈ h.log then none
    else if .accepted ∈ h.log then some 0
    else match e with
      | .alrm _ => w.waiting.map (· + 1)
      | _ => w.waiting
  forced := w.forced || .forced ∈ h.log

/-- One step of the main loop. -/
def step (w : World) (e : Event) : Option World :=
  if w.hub.possible e then
    match { w.hub with log := [] }.handle e with
    | .ok h => some (w.after e h)
    | .error _ => none
  else none

/-- What `main` starts from: its memory is zeroed, the control socket is open, and
`start_script` has run. -/
def Boot (w : World) : Prop :=
  ∃ pid : ℕ, pid ≠ 0 ∧
    w = ⟨{ state := .startup, rbmode := none, scrpid := pid, sigcnt := 0, ctlfd := true,
           nalive := 0, procs := [], conns := [], kids := [⟨pid, none⟩], alarm := false,
           reaping := false, log := [] }, false, none, false⟩

end Minibase.Svchub
