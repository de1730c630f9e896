import Mathlib.Data.UInt

/-!
# The service hub: processes

The table of services of `svchub`, and what `svchub_proc.c` does with it. A service has a
slot of the table, `Svchub.Proc`; its `pid` is that of the process that runs, or the
status with which it ended if `P_STATUS` is set. The hub goes with the part of the kernel it
depends on: the children it has not been told the end of yet, each with the slot it was started
for, and whether an alarm is pending. What else the system calls return is `Svchub.Answers`. The
end of the process, `fail`, is an error.
-/

namespace Minibase.Svchub

/-- A name as a client sends it, without the zero at its end. -/
structure Name where
  chars : List UInt8
  nonul : 0 ∉ chars

instance : DecidableEq Name := fun a b => decidable_of_iff (a.chars = b.chars)
  ⟨fun h => by cases a; cases b; cases h; rfl, congrArg Name.chars⟩

/-- `pc->flags`. -/
structure Flags where
  inUse : Bool := false
  killed : Bool := false
  status : Bool := false
  once : Bool := false
  pass : Bool := false
deriving DecidableEq, Repr

/-- `struct proc`. The name is what stands in its 16 bytes before the padding, `fd` says
whether there is a pipe from the process, and `buf` whether its output has been kept. -/
structure Proc where
  name : List UInt8 := []
  pid : ℕ := 0
  fd : Bool := false
  time : ℕ := 0
  flags : Flags := {}
  ptr : ℕ := 0
  buf : Bool := false
deriving DecidableEq, Repr

/-- A slot whose process can be sent signals. -/
def Proc.signalable (pc : Proc) : Bool := pc.flags ≠ {} && pc.pid ≠ 0 && !pc.flags.status

/-- `struct conn`: whether it is open, and the process it waits for. -/
structure Conn where
  fd : Bool := false
  pid : ℕ := 0
deriving DecidableEq, Repr

/-- The values of `ctx->state`. -/
inductive State
  | unknown
  | startup
  | running
  | stopping
  | shutdown
deriving DecidableEq, Repr

/-- A child of the hub that has not been waited for: the script, or a service. -/
structure Kid where
  pid : ℕ
  slot : Option ℕ
deriving DecidableEq, Repr

/-- What the hub does that matters to others. -/
inductive Effect
  /-- `command_stop` has agreed. -/
  | accepted
  /-- `spawn_path` has started a service. -/
  | started (slot : ℕ)
  /-- `force_shutdown` has been called. -/
  | forced
  /-- `spawn_shutdown` has been called. -/
  | shutdown
deriving DecidableEq, Repr

/-- `struct top`, with the tables and the kernel's side of things. -/
structure Hub where
  state : State
  rbmode : Option String
  scrpid : ℤ
  sigcnt : ℕ
  ctlfd : Bool
  nalive : ℤ
  procs : List Proc
  conns : List Conn
  kids : List Kid
  alarm : Bool
  /-- The loop of `check_children` is being run. -/
  reaping : Bool
  log : List Effect
deriving DecidableEq

/-- What system calls return: an error number or zero, the process id that is next if it is
free, the time, and who else is there to be sent signals or cannot be written to. -/
structure Answers where
  access : ℕ := 0
  pipe : ℕ := 0
  fork : Option ℕ := some 1
  munmap : ℕ := 0
  time : ℕ := 0
  strangers : List ℕ := []
  deaf : List ℕ := []
deriving DecidableEq

def NAMELEN : ℕ := 16

def NPROCS : ℕ := 70

def RINGSIZE : ℕ := 4096

/-- The error codes in use. -/
def ENOENT : ℤ := 2

@[inherit_doc ENOENT] def EAGAIN : ℤ := 11

@[inherit_doc ENOENT] def ENOMEM : ℤ := 12

@[inherit_doc ENOENT] def EBUSY : ℤ := 16

@[inherit_doc ENOENT] def EINVAL : ℤ := 22

@[inherit_doc ENOENT] def ENAMETOOLONG : ℤ := 36

@[inherit_doc ENOENT] def ENOSYS : ℤ := 38

@[inherit_doc ENOENT] def ENODATA : ℤ := 61

@[inherit_doc ENOENT] def EALREADY : ℤ := 114

/-- The child that a `fork` makes: it has an id that no other child has. -/
def freshPid (kids : List Kid) (next : ℕ) : ℕ :=
  if next ≠ 0 ∧ next ∉ kids.map Kid.pid then next else (kids.map Kid.pid).sum + 1

namespace Hub

variable (h : Hub) (a : Answers) (i : ℕ)

/-- A slot. -/
def proc : Proc := h.procs.getD i {}

/-- Changes a slot. -/
def setProc (f : Proc → Proc) : Hub := { h with procs := h.procs.modify i f }

/-- Something has been done. -/
def did (e : Effect) : Hub := { h with log := h.log ++ [e] }

/-- `sys_kill`: a child can always be sent a signal, and so can others that exist. -/
def kill (pid : ℕ) : Bool := pid ∈ h.kids.map Kid.pid || pid ∈ a.strangers

/-! ### Finding slots -/

variable (name : List UInt8)

/-- An entry of a name; the empty name has none. -/
def findByName : Option ℕ :=
  if name = [] then none else h.procs.findIdx? fun pc => pc.name = name

def findByPid (pid : ℕ) : Option ℕ :=
  if pid = 0 then none else h.procs.findIdx? fun pc => !pc.flags.status && pc.pid = pid

/-- The first slot with no flags, or one more at the end. -/
def grabProcSlot : Option ℕ × Hub :=
  match h.procs.findIdx? fun pc => pc.flags = {} with
  | some i => (some i, h)
  | none =>
    if NPROCS ≤ h.procs.length then (none, h)
    else (some h.procs.length, { h with procs := h.procs ++ [{}] })

/-! ### Starting -/

/-- The rest of `spawn_path`, with a child that has been forked, and `save_child_pipe`. -/
def spawned (next : ℕ) : Hub :=
  let pid := freshPid h.kids next
  { h.setProc i fun pc => { pc with pid := pid, fd := if pc.flags.pass then pc.fd else true } with
    nalive := h.nalive + 1, kids := ⟨pid, some i⟩ :: h.kids, log := h.log ++ [.started i] }

def spawnPath : ℤ × Hub :=
  let pass := (h.proc i).flags.pass
  if a.access ≠ 0 then (-a.access, h)
  else if !pass ∧ a.pipe ≠ 0 then (-a.pipe, h)
  else match a.fork with
    -- what is returned then is the result of the call before, which went well
    | none => (0, h)
    | some next => (0, h.spawned i next)

def spawnProc : ℤ × Hub := h.spawnPath a i

def updateProcTime : Hub := h.setProc i fun pc => { pc with time := a.time % 2 ^ 32 }

/-- The ring of an entry is unmapped, if it has one. -/
def flushRingBuf : ℤ × Hub :=
  if !(h.proc i).buf then (-ENODATA, h)
  else if a.munmap ≠ 0 then (-a.munmap, h.setProc i fun pc => { pc with ptr := 0 })
  else (0, h.setProc i fun pc => { pc with buf := false, ptr := 0 })

/-- The end of `restart_proc` and of `prep_and_start`. -/
def spawnAndTime : ℤ × Hub :=
  let (ret, h) := h.spawnProc a i
  if ret < 0 then (ret, h) else (ret, h.updateProcTime a i)

/-- `restart_proc`, once it is known that the process does not run. -/
def restartIdle : ℤ × Hub :=
  if (h.proc i).buf then
    let (ret, h) := h.flushRingBuf a i
    if ret < 0 then (ret, h) else h.spawnAndTime a i
  else h.spawnAndTime a i

variable (flags : Flags)

def restartProc : ℤ × Hub :=
  let pc := h.proc i
  if flags ≠ {} then (-EINVAL, h)
  else if pc.flags.status then
    (h.setProc i fun pc =>
      { pc with flags := { pc.flags with status := false, killed := false }, pid := 0 }).restartIdle
        a i
  else if pc.pid ≠ 0 then (-EBUSY, h)
  else h.restartIdle a i

/-- `memzero` of a slot. -/
def wipeProcSlot : Hub := h.setProc i fun _ => {}

/-- An entry is made, and stays whether or not it starts. -/
def prepAndStart : ℤ × Hub :=
  let h := h.wipeProcSlot i
  if NAMELEN < name.length then (-ENAMETOOLONG, h)
  else (h.setProc i fun pc =>
    { pc with flags := { flags with inUse := true }, name := name }).spawnAndTime a i

/-- A name that is known is started again, another gets an entry. -/
def startProc : ℤ × Hub :=
  match h.findByName name with
  | some i => h.restartProc a i flags
  | none =>
    match h.grabProcSlot with
    | (none, h) => (-ENOMEM, h)
    | (some i, h) =>
      let (ret, h) := h.prepAndStart a i name flags
      if ret < 0 then (ret, h.wipeProcSlot i) else (ret, h)

/-! ### Stopping and removing -/

/-- The flag that it was asked to stop, and `SIGCONT` and `SIGTERM`. -/
def stopProc : ℤ × Hub :=
  match h.findByName name with
  | none => (-ENOENT, h)
  | some i =>
    let pc := h.proc i
    if pc.flags.status ∨ pc.pid = 0 then (-EAGAIN, h)
    else
      let h := h.setProc i fun pc => { pc with flags := { pc.flags with killed := true } }
      if h.kill a pc.pid then (pc.pid, h) else (-ENOENT, h)

def flushProc : ℤ × Hub :=
  match h.findByName name with
  | none => (-ENOENT, h)
  | some i => h.flushRingBuf a i

def removeProc : ℤ × Hub :=
  match h.findByName name with
  | none => (-ENOENT, h)
  | some i =>
    let pc := h.proc i
    if pc.pid ≠ 0 ∧ !pc.flags.status then (-EBUSY, h)
    else
      let (ret, h) := h.flushRingBuf a i
      if ret < 0 then (ret, h) else (0, h.wipeProcSlot i)

def killProc : ℤ × Hub :=
  match h.findByName name with
  | none => (-ENOENT, h)
  | some i =>
    let pc := h.proc i
    if pc.pid = 0 ∨ pc.flags.status then (-EAGAIN, h)
    else if h.kill a pc.pid then (0, h) else (-ENOENT, h)

/-! ### Output -/

def closeProc : Hub := h.setProc i fun pc => { pc with fd := false }

/-- `check_proc`. A buffer that is not there is mapped first, if it can be; then some bytes are
read, or none can be. -/
def checkProc (mapped : Bool) (got : Option ℕ) : Hub :=
  if !(h.proc i).buf ∧ !mapped then h.closeProc i
  else
    let h := h.setProc i fun pc => if pc.buf then pc else { pc with buf := true, ptr := 0 }
    match got with
    | none => h.closeProc i
    | some n => h.setProc i fun pc =>
        let ptr := pc.ptr + n
        { pc with
          ptr := (if RINGSIZE < ptr then RINGSIZE + ptr % RINGSIZE else ptr) % 2 ^ 16 }

/-! ### Connections -/

def closeConn : Hub := { h with conns := h.conns.modify i fun cn => if cn.fd then {} else cn }

/-- A client that cannot be written to is closed. -/
def notify : Hub :=
  if (h.conns.getD i {}).fd ∧ i ∈ a.deaf then h.closeConn i else h

/-- Those that wait for a process are told. -/
def notifyDead (pid : ℕ) : Hub :=
  (List.range h.conns.length).foldl
    (fun h i => if (h.conns.getD i {}).pid = pid then h.notify a i else h) h

/-! ### The end of a process -/

/-- `ran_long_enough`, which notes the time as well. -/
def ranLongEnough : Bool := 10 < (a.time % 2 ^ 32 + 2 ^ 32 - (h.proc i).time) % 2 ^ 32

def markStopped : Hub :=
  h.setProc i fun pc => { pc with flags := { pc.flags with killed := false }, pid := 0, time := 0 }

variable (status : ℕ)

def markDied : Hub :=
  h.setProc i fun pc => { pc with pid := status, flags := { pc.flags with status := true } }

/-- `proc_died`, for a service that is to be started again if it ran for long. -/
def respawn : Hub :=
  let long := h.ranLongEnough a i
  let h := h.updateProcTime a i
  if !long then h.markDied i status
  else
    let (ret, h) := h.spawnProc a i
    if ret < 0 then h.markDied i status else h

/-- An entry was to stop, was to run once, or is to be started again. -/
def procDied : Hub :=
  let pid := (h.proc i).pid
  let h := { h with nalive := h.nalive - 1 }.closeProc i
  let flags := (h.proc i).flags
  if flags.killed then (h.markStopped i).notifyDead a pid
  else if flags.once ∧ status = 0 then (h.flushRingBuf a i).2.wipeProcSlot i
  else if flags.once then h.markDied i status
  else h.respawn a i status

end Hub

end Minibase.Svchub
