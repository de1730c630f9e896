import Minibase.Lib.Slots
import Mathlib.Algebra.Order.Group.Int

/-!
# vtmux

`vtmux` runs sessions on virtual terminals and opens graphics and input devices for them. When
another terminal is switched to, the devices of the one before are disabled
(`Vtmux.Mux.disengage`), and those of the other are enabled again (`Vtmux.Mux.engage`). The kernel
goes with it as far as devices are concerned: the descriptors (`Mux.fds`), given out from the
lowest, and the devices that have been opened (`Mux.files`), each with the sessions it was sent to,
and whether it is enabled.
-/

namespace Minibase.Vtmux

def NTERMS : ℕ := 12

def NCONNS : ℕ := 10

def NMDEVS : ℕ := 60

def INPUT_MAJOR : ℕ := 13

def DRI_MAJOR : ℕ := 226

/-- `major`. The two parts of the number have no bit in common. -/
def major (dev : ℕ) : ℕ := dev / 2 ^ 8 % 2 ^ 12 + dev / 2 ^ 32 % 2 ^ 32 / 2 ^ 12 * 2 ^ 12

/-- What becomes of a device number in an `int`, as a number of 64 bits again. -/
def intDev (dev : ℕ) : ℕ :=
  if dev % 2 ^ 32 < 2 ^ 31 then dev % 2 ^ 32 else dev % 2 ^ 32 + (2 ^ 64 - 2 ^ 32)

/-- `struct term`, with the number of the session, which is never used again. -/
structure Term where
  tty : ℤ := 0
  ttyfd : ℤ := 0
  ctlfd : ℤ := 0
  pid : ℤ := 0
  graph : Bool := false
  session : ℕ := 0
deriving DecidableEq

/-- `struct mdev`, with the number of the device among all those opened. -/
structure Mdev where
  fd : ℤ := 0
  tty : ℤ := 0
  dev : ℕ := 0
  file : ℕ := 0
deriving DecidableEq

/-- `struct conn`. -/
structure Conn where
  fd : ℤ := 0
deriving DecidableEq

/-- `nonzero`, for a terminal. -/
def Term.nonzero (vt : Term) : Bool := vt.tty ≠ 0 || vt.ttyfd ≠ 0 || vt.ctlfd ≠ 0 || vt.pid ≠
    0 || vt.graph

/-- `nonzero`, for a device. -/
def Mdev.nonzero (md : Mdev) : Bool := md.fd ≠ 0 || md.tty ≠ 0 || md.dev ≠ 0

/-- `nonzero`, for a connection. -/
def Conn.nonzero (cn : Conn) : Bool := cn.fd ≠ 0

/-- What a descriptor is for. -/
inductive Use
  | other
  | ctrl
  | tty (i : ℕ)
  | ctl (i : ℕ)
  | conn (j : ℕ)
  | dev (s k : ℕ)
deriving DecidableEq

/-- A device that has been opened: which one, the sessions it was sent to, and whether it is of use,
that is, its owner is the DRM master, or it is an input that has not been revoked. -/
structure File where
  dev : ℕ
  holders : List ℕ
  enabled : Bool
deriving DecidableEq

/-- The variables of the process, the descriptors it has, and the devices that have been opened. -/
structure Mux where
  terms : List Term
  mdevs : List Mdev
  conns : List Conn
  ctrlfd : ℤ
  activetty : ℤ
  primarytty : ℤ
  greetertty : ℤ
  lastusertty : ℤ
  switchlock : Bool
  mdevreq : Bool
  pinmask : ℕ
  fds : Table Use
  files : List File
  sessions : ℕ

/-! ### What the system answers -/

/-- An error. -/
abbrev Errno := { e : ℤ // e < 0 }

/-- One attempt to switch: what `unlock_switch`, `switch_wait` and `lock_switch` return. -/
structure Try where
  unlock : ℤ
  wait : ℤ
  lock : ℤ

/-- `struct stat`, as far as it is looked at: whether it is a character device, and which. -/
structure Stat where
  chr : Bool
  rdev : ℕ

/-- Opening a device: the error, if there is one, what `fstat` says, and whether the reply is
sent. -/
structure Opening where
  error : Option Errno
  stat : Except Errno Stat
  sent : Bool

/-- What a switch, and the start of a session, may need: what comes of the attempts to switch, the
terminals that are in use or an error, whether the script can be run, whether the terminal, a socket
pair and a process can be had. -/
structure Sys where
  tries : ℤ → ℕ → Try
  vts : Except Errno ℕ
  access : Option Errno
  tty : Option Errno
  pair : Option Errno
  fork : ℤ
  fork_ne : fork ≠ 0

/-- A process that has ended, how, and whether its terminal can be opened again. -/
structure Death where
  pid : ℤ
  pos : 0 < pid
  status : ℕ
  reopen : Option Errno

namespace Mux

variable (m : Mux)

/-! ### Descriptors -/

/-- What a descriptor is for. -/
def use (fd : ℤ) : Option Use := if fd < 0 then none else m.fds.get fd.toNat

/-- A descriptor is given out. -/
def openFd (u : Use) : ℤ × Mux := (m.fds.lowest, { m with fds := m.fds.alloc u })

/-- `sys_close`: a negative descriptor is an error, and zero is not. -/
def sysClose (fd : ℤ) : Mux := if fd < 0 then m else { m with fds := m.fds.close fd.toNat }

/-- The device at a descriptor is enabled or disabled, if it is of the kind the request is for. -/
def setFile (fd : ℤ) (maj : ℕ) (enabled : Bool) : Mux :=
  match m.use fd with
  | some (.dev _ k) =>
    { m with files := m.files.modify k fun f => if major f.dev = maj then
      { f with enabled := enabled } else f }
  | _ => m

/-! ### Slots -/

variable (i : ℕ)

/-- A terminal. -/
def term : Term := m.terms.getD i {}

variable (s : ℕ)

/-- A device. -/
def mdev : Mdev := m.mdevs.getD s {}

/-- Changes a terminal. -/
def setTerm (vt : Term) : Mux := { m with terms := m.terms.set i vt }

/-- Changes a device. -/
def setMdev (md : Mdev) : Mux := { m with mdevs := m.mdevs.set s md }

def freeTermSlot : Mux := { m with terms := freeSlot Term.nonzero {} m.terms i }

def freeMdevSlot : Mux := { m with mdevs := freeSlot Mdev.nonzero {} m.mdevs s }

def findTermByTty (tty : ℤ) : Option ℕ := m.terms.findIdx? fun vt => vt.tty = tty

def findTermByPid (pid : ℤ) : Option ℕ := m.terms.findIdx? fun vt => vt.pid = pid

/-! ### Devices -/

/-- A device is taken from its session; its major number decides how. -/
def disable (drop : Bool) : Mux :=
  let md := m.mdev s
  let maj := major (intDev md.dev)
  let m := if maj = DRI_MAJOR ∨ maj = INPUT_MAJOR then m.setFile md.fd maj false else m
  if drop ∨ maj = INPUT_MAJOR then { m.setMdev s { md with tty := 0, dev := 0 } with
    mdevreq := true } else m

/-- The body of the loop of `flush_mdevs`. -/
def flushMdev : Mux := if (m.mdev s).dev = 0 then (m.sysClose (m.mdev s).fd).freeMdevSlot s else m

def flushMdevs : Mux := (List.range m.mdevs.length).foldl flushMdev m

def disableAllDevsFor (tty : ℤ) : Mux :=
  (List.range m.mdevs.length).foldl
    (fun m s => if (m.mdev s).tty = tty then m.disable s true else m) m

/-- The devices of a terminal that is left are disabled; only those for input are dropped. -/
def disengage (tty : ℤ) : Mux :=
  (List.range m.mdevs.length).foldl
    (fun m s => if (m.mdev s).tty = tty ∧ 0 < (m.mdev s).fd then m.disable s false else m) m

/-- The DRM devices of the terminal that is shown are enabled. -/
def engage (tty : ℤ) : Mux :=
  (List.range m.mdevs.length).foldl
    (fun m s => if (m.mdev s).tty = tty ∧ 0 < (m.mdev s).fd ∧ major (m.mdev s).dev = DRI_MAJOR then
      m.setFile (m.mdev s).fd DRI_MAJOR true else m) m

/-! ### Switching -/

/-- The loop of `activate`: what it returns early with, or the results of the last attempt. -/
def switchLoop (tty : ℤ) (tries : ℕ → Try) : ℕ → ℕ → ℤ ⊕ ℤ × ℤ
  | 0, t => .inr ((tries t).wait, (tries t).lock)
  | fuel + 1, t =>
    let r := tries t
    if r.unlock < 0 then .inl r.unlock
    else if r.lock < 0 then .inl r.lock
    else if r.lock ≠ tty ∧ r.wait = 0 ∧ t < 5 then switchLoop tty tries fuel (t + 1)
    else .inr (r.wait, r.lock)

/-- Six attempts to switch, each with the lock off; the devices are disabled before. -/
def activate (tty : ℤ) (sys : Sys) : ℤ × Mux :=
  if m.activetty = tty then (0, m)
  else
    let m := m.disengage m.activetty
    match switchLoop tty (sys.tries tty) 7 0 with
    | .inl ret => (ret, m)
    | .inr (swret, ret) =>
      let m := { m with activetty := ret }
      let m := m.engage ret
      (if swret < 0 then swret else if ret ≠ tty then -11 else ret, m)

def pinned (tty : ℤ) : Bool := 0 < tty && tty < 32 && m.pinmask.testBit tty.toNat

/-! ### Sessions -/

/-- A session is started in a slot, if its descriptors can be had. -/
def startCmdOn (tty : ℤ) (sys : Sys) : ℤ × Mux :=
  match sys.tty with
  | some e => (e.1, m)
  | none =>
    let (ttyfd, m) := m.openFd (.tty i)
    match sys.pair with
    | some e => (e.1, m.sysClose ttyfd)
    | none =>
      let (sk0, m) := m.openFd (.ctl i)
      let (sk1, m) := m.openFd .other
      if sys.fork < 0 then (sys.fork, ((m.sysClose sk0).sysClose sk1).sysClose ttyfd)
      else
        let m := m.sysClose sk1
        (0, { m.setTerm i { m.term i with
          ctlfd := sk0, ttyfd := ttyfd, pid := sys.fork, tty := tty, session := m.sessions } with
          sessions := m.sessions + 1 })

/-- A terminal is switched to, and a session started there; else it goes back. -/
def spawn (tty : ℤ) (sys : Sys) : ℤ × Mux :=
  let old := m.activetty
  match sys.access with
  | some e => (e.1, m)
  | none =>
    match grabSlot Term.nonzero NTERMS {} m.terms with
    | none => (-24, m)
    | some (i, terms) =>
      let m := { m with terms := terms }
      match m.activate tty sys with
      | (ret, m) =>
        if ret < 0 then (ret, m.freeTermSlot i)
        else
          match m.startCmdOn i tty sys with
          | (ret, m) => if ret = 0 then (0, m) else (ret, (m.activate old sys).2.freeTermSlot i)

/-- Neither pinned nor in use. -/
def usable (vts tty : ℕ) : Bool := !m.pinned tty && !vts.testBit tty

variable (sys : Sys)

/-- A terminal for the greeter: 12 to 10 first, then those above, then any. -/
def queryGreeterTty : ℤ :=
  match sys.vts with
  | .error e => e.1
  | .ok vts =>
    match ([12, 11, 10] ++ (List.range 8).map (13 + ·) ++ (List.range 32).map (1 + ·)).find?
      (m.usable vts) with
    | some tty => (tty : ℤ)
    | none => -25

/-- A terminal with a session is shown, and on a pinned one a session is started. -/
def switchto (tty : ℤ) (sys : Sys) : ℤ × Mux :=
  if tty ≤ 0 then (-22, m)
  else if tty = m.activetty then (0, m)
  else
    let m := { m with switchlock := false }
    if (m.findTermByTty tty).isSome then m.activate tty sys
    else if m.pinned tty then m.spawn tty sys
    else (-2, m)

def showGreeter : ℤ × Mux :=
  let m := if m.activetty ≠ m.greetertty then { m with lastusertty := m.activetty } else m
  if m.greetertty ≠ 0 then m.switchto m.greetertty sys
  else
    let tty := m.queryGreeterTty sys
    if tty < 0 then (tty, m) else { m with greetertty := tty }.spawn tty sys

/-! ### Ends of sessions -/

/-- `reopen_tty_device`, with the error if the terminal cannot be opened. -/
def reopenTtyDevice (error : Option Errno) : Mux :=
  match error with
  | some _ => m
  | none =>
    let (fd, m) := m.openFd (.tty i)
    let vt := m.term i
    (m.sysClose vt.ttyfd).setTerm i { vt with ttyfd := fd }

def finalize : Mux :=
  let vt := m.term i
  let m := if 0 < vt.ctlfd then m.sysClose vt.ctlfd else m
  let m := if 0 < vt.ttyfd then m.sysClose vt.ttyfd else m
  m.freeTermSlot i

/-- A session ends: its devices are dropped, and its terminal is no longer gone back to. -/
def handleDead (status : ℕ) : Mux :=
  let tty := (m.term i).tty
  let m := m.disableAllDevsFor tty
  let m := if tty = m.greetertty then { m with greetertty := 0 } else m
  let m := if tty = m.lastusertty then { m with lastusertty := 0 } else m
  let vt := m.term i
  let m := if 0 < vt.ctlfd then (m.sysClose vt.ctlfd).setTerm i { vt with ctlfd := -1 } else m
  if status = 0 then m.finalize i else m.setTerm i { m.term i with pid := 0 }

/-- The primary terminal, or the first with a session. -/
def switchToSmth : Mux :=
  match (m.findTermByTty m.primarytty).filter fun i => (m.term i).pid ≠ 0 ∧
    (m.term i).tty ≠ m.activetty with
  | some _ => (m.switchto m.primarytty sys).2
  | none =>
    match (m.terms.drop 1).find? fun vt => vt.pid ≠ 0 ∧ vt.tty ≠ m.activetty with
    | none => (m.showGreeter sys).2
    | some vt => (m.switchto vt.tty sys).2

/-- A session that was left on screen is cleared away. -/
def finalEnter : Mux :=
  let tty := (m.term i).tty
  let m := m.finalize i
  if tty ≠ m.activetty then m
  else if tty = m.primarytty ∧ m.pinned tty then (m.spawn tty sys).2
  else m.switchToSmth sys

/-- The loop of `wait_pids`: the terminal that is shown, if its process has ended, and how. -/
def waitLoop : List Death → Option (ℕ × Death) → Mux → Option (ℕ × Death) × Mux
  | [], active, m => (active, m)
  | d :: ds, active, m =>
    match m.findTermByPid d.pid with
    | none => waitLoop ds active m
    | some i =>
      if (m.term i).tty = m.activetty then waitLoop ds (some (i, d)) m
      else waitLoop ds active ((m.reopenTtyDevice i d.reopen).handleDead i d.status)

def waitPids (shutdown : Bool) (deaths : List Death) (sys : Sys) : Mux :=
  match waitLoop deaths none m with
  | (none, m) => m
  | (some (i, d), m) =>
    let m := m.reopenTtyDevice i d.reopen
    let m := if d.status = 0 ∧ !shutdown then m.switchToSmth sys else m
    m.handleDead i d.status

/-! ### Requests of sessions -/

/-- `check_managed_dev`. All of the number of the device is kept. -/
def checkManagedDev (stat : Except Errno Stat) : Except Errno ℕ :=
  match stat with
  | .error e => .error e
  | .ok st =>
    if !st.chr then .error ⟨-13, by decide⟩
    else if major st.rdev ≠ DRI_MAJOR ∧ major st.rdev ≠ INPUT_MAJOR then .error ⟨-13, by decide⟩
    else .ok st.rdev

/-- A device that the session has open already. -/
def checkForDuplicate (s dev : ℕ) (tty : ℤ) : ℤ :=
  match (List.range m.mdevs.length).find? fun x => x ≠ s ∧ (m.mdev x).tty = tty ∧
    (m.mdev x).dev = dev with
  | some x => (m.mdev x).fd
  | none => 0

/-- The end of `open_managed_dev`, for a device that has been opened: one that is open already is
used instead, or else it gets into the table, and is disabled unless its terminal is shown. -/
def addManagedDev (i s k dev : ℕ) (dfd : ℤ) : ℤ × Mux :=
  let tty := (m.term i).tty
  let m := m.setMdev s { m.mdev s with dev := dev }
  let dup := m.checkForDuplicate s dev tty
  if 0 < dup then (dup, (m.sysClose dfd).freeMdevSlot s)
  else
    let m := m.setMdev s { m.mdev s with fd := dfd, tty := tty, file := k }
    let m := if tty ≠ m.activetty then m.disable s false else m
    let m := if major (m.mdev s).dev = DRI_MAJOR then m.setTerm i
      { m.term i with graph := true } else m
    (dfd, m)

/-- `open_managed_dev`, for a terminal. -/
def openManagedDev (o : Opening) : ℤ × Mux :=
  match grabSlot Mdev.nonzero NMDEVS {} m.mdevs with
  | none => (-24, m)
  | some (s, mdevs) =>
    let m := { m with mdevs := mdevs }
    match o.error with
    | some e => (e.1, m)
    | none =>
      match checkManagedDev o.stat with
      | .error e => (e.1, (m.openFd .other).2.sysClose (m.openFd .other).1)
      | .ok dev =>
        let k := m.files.length
        let (dfd, m) := m.openFd (.dev s k)
        { m with files := m.files ++ [File.mk dev [] true] }.addManagedDev i s k dev dfd

def replySendFd (fd : ℤ) (sent : Bool) : Mux :=
  match sent, m.use fd with
  | true, some (.dev _ k) =>
    { m with files := m.files.modify k fun f =>
      { f with holders := (m.term i).session :: f.holders } }
  | _, _ => m

def reqOpen (o : Opening) : Mux :=
  let r := m.openManagedDev i o
  if r.1 < 0 then r.2 else r.2.replySendFd i r.1 o.sent

/-! ### Events -/

end Mux

/-- What a client asks for. -/
inductive Cmd
  | status
  | switch (tty : ℤ)
  | swback
  | swlock
  | unlock

/-- What happens, with what the system answers meanwhile. -/
inductive Event
  | command (cmd : Cmd) (sys : Sys)
  | request (i : ℕ) (o : Opening)
  | hangup (i : ℕ)
  | enter (i : ℕ) (sys : Sys)
  | reap (shutdown : Bool) (deaths : List Death) (sys : Sys)
  | accept
  | drop (j : ℕ)
  | clear (j : ℕ)
  | lost
  | flush

namespace Mux

variable (m : Mux)

/-- `dispatch_cmd`, without the reply. -/
def dispatchCmd (cmd : Cmd) (sys : Sys) : Mux :=
  match cmd with
  | .status => m
  | .switch tty =>
    if m.switchlock then m
    else if tty = 0 then (m.showGreeter sys).2
    else (m.switchto tty sys).2
  | .swback =>
    if m.switchlock then m
    else if m.lastusertty ≠ 0 ∧ (m.findTermByTty m.lastusertty).isSome then
      (m.switchto m.lastusertty sys).2
    else if m.primarytty ≠ 0 ∧ (m.findTermByTty m.primarytty).isSome then
      (m.switchto m.primarytty sys).2
    else m
  | .swlock => { m with switchlock := true }
  | .unlock => { m with switchlock := false }

/-- `check_pipe`, when the other end is gone. -/
def closePipe (i : ℕ) : Mux :=
  (m.sysClose (m.term i).ctlfd).setTerm i { m.term i with ctlfd := -1 }

/-- `accept_ctrl`, for one connection. -/
def acceptCtrl : Mux :=
  let (cfd, m') := m.openFd .other
  if cfd ≤ 0 then m'
  else
    match grabSlot Conn.nonzero NCONNS {} m.conns with
    | none => m'.sysClose cfd
    | some (j, conns) =>
      { m with fds := m.fds.alloc (.conn j), conns := conns.set j ⟨cfd⟩ }

def closeConn (j : ℕ) : Mux :=
  { m.sysClose (m.conns.getD j {}).fd with conns := m.conns.set j ⟨-1⟩ }

/-- `check_conn`, when the other end is gone. -/
def clearConn (j : ℕ) : Mux :=
  { m.sysClose (m.conns.getD j {}).fd with conns := m.conns.set j ⟨0⟩ }

/-- `recv_ctrl`, when the control socket fails. -/
def lostCtrl : Mux := { m.sysClose m.ctrlfd with ctrlfd := -1 }

/-- What an event does, if it can happen. -/
def step : Event → Option Mux
  | .command cmd sys => some (m.dispatchCmd cmd sys)
  | .request i o => if 0 < (m.term i).pid ∧ 0 < (m.term i).ctlfd then some (m.reqOpen i o) else none
  | .hangup i => if 0 < (m.term i).pid ∧ 0 < (m.term i).ctlfd then some (m.closePipe i) else none
  | .enter i sys => if (m.term i).pid ≤ 0 ∧ 0 < (m.term i).ttyfd then some
    (m.finalEnter i sys) else none
  | .reap shutdown deaths sys => some (m.waitPids shutdown deaths sys)
  | .accept => if 0 < m.ctrlfd then some m.acceptCtrl else none
  | .drop j => if 0 < (m.conns.getD j {}).fd then some (m.closeConn j) else none
  | .clear j => if (m.conns.getD j {}).fd ≠ 0 then some (m.clearConn j) else none
  | .lost => if 0 < m.ctrlfd then some m.lostCtrl else none
  | .flush => if m.mdevreq then some { m.flushMdevs with mdevreq := false } else none

/-- What `poll_inputs` starts from: the standard descriptors, `/dev/tty0` and the control socket are
open, some terminal is shown, and some terminals are pinned. -/
def start (activetty primarytty : ℤ) (pinmask : ℕ) : Mux where
  terms := []
  mdevs := []
  conns := []
  ctrlfd := 4
  activetty := activetty
  primarytty := primarytty
  greetertty := 0
  lastusertty := 0
  switchlock := false
  mdevreq := false
  pinmask := pinmask
  fds := [some .other, some .other, some .other, some .other, some .ctrl]
  files := []
  sessions := 0

/-- **Devices are for the foreground**: one that is enabled was sent to nobody but the session of
the terminal that is shown. -/
def Foreground : Prop :=
  ∀ f ∈ m.files, f.enabled = true → ∀ h ∈ f.holders, ∃ vt ∈ m.terms, vt.session = h ∧
    vt.tty = m.activetty

end Mux

end Minibase.Vtmux
