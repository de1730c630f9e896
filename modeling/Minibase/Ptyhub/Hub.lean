import Minibase.Hubs.Table

/-!
# The terminal hub

What `ptyhub` does with its table of processes, `ptyhub_proc.c`, and with what its clients ask
for once the message has been read, `ptyhub_ctrl.c`. A process runs on a terminal whose master
side the hub has. A client may be attached to it, which then has a copy of the master; without
one the hub polls the master and throws away what comes.

`Ptyhub.step` is one turn of the loop in `main`.
-/

namespace Minibase.Ptyhub

open Hubs

/-- The descriptors of a process: the master side of its terminal, the connection of the client
attached to it, and the pipe for its errors. -/
structure Fds where
  mfd : ℤ
  cfd : ℤ
  efd : ℤ
deriving DecidableEq, Repr

instance : Zero Fds := ⟨⟨0, 0, 0⟩⟩

/-- The hub. -/
abbrev Hub := Hubs.Hub Fds

/-- What system calls return while the hub handles a request: error numbers or zero, whether
the heap grows, the new master and pipe, the process forked, the entries whose buffers cannot
be unmapped, and whether the client gets what it is sent. -/
structure Answers where
  access : ℕ := 0
  brk : Bool := true
  open_ : ℕ := 0
  ends : ℤ × ℤ := (0, 0)
  pid : ℤ := 0
  stuck : List ℕ := []
  kill : ℕ := 0
  send : ℕ := 0
  reply : Bool := true
deriving DecidableEq

/-- What clients ask for. A message that does not get as far is refused with an error. -/
inductive Request
  | status (start : ℤ)
  | start (argv envp : List (List UInt8))
  | spawn (argv envp : List (List UInt8))
  | detach (xid : ℤ)
  | attach (xid : ℤ)
  | sigterm (xid : ℤ)
  | sigkill (xid : ℤ)
  | fetch (xid : ℤ)
  | flush (xid : ℤ)
  | clear
  | refused (error : ℤ)
deriving DecidableEq

def validateName (name : List UInt8) : Bool := name.all fun b => !(b < 0x20 || b = 0x2F)

namespace Hub

variable (h : Hub) (i : ℕ) (a : Answers)

/-! ### Descriptors -/

/-- The descriptors recorded in an entry. -/
def fdsAt : Fds := (h.procs[i]?.map Proc.fds).getD 0

/-- Records other descriptors in an entry. -/
def setFds (f : Fds → Fds) : Hub :=
  { h with procs := h.procs.modify i fun pc => { pc with fds := f pc.fds } }

/-- The kernel does something. -/
def withKernel (kernel : Kernel) : Hub := { h with kernel := kernel }

def addStdoutFd : Hub := h.addEpollFd (fdsAt h i).mfd (pkey 2 i)

def addStderrFd : Hub := h.addEpollFd (fdsAt h i).efd (pkey 3 i)

def delStdoutFd : Hub := withKernel h (h.kernel.del (fdsAt h i).mfd)

/-- `close_stdout`: the master is closed, but not taken out of epoll. -/
def closeStdout : Hub :=
  let fd := (fdsAt h i).mfd
  if fd ≤ 0 then h
  else withKernel (setFds h i fun fds => { fds with mfd := -1 }) (h.kernel.close fd)

/-- `handle_stdout`, with whether the output can be discarded. -/
def handleStdout (flushed : Bool) : Hub := if flushed then h else closeStdout h i

/-- The descriptor leaves the set before it is closed. -/
def closeStderr : Hub :=
  let fd := (fdsAt h i).efd
  if fd ≤ 0 then h
  else withKernel (setFds h i fun fds => { fds with efd := -1 }) ((h.kernel.del fd).close fd)

/-- `handle_stderr`, with whether a buffer can be had, and how much is read. -/
def handleStderr (mmap : Bool) (read : Option ℕ) : Hub :=
  match h.procs[i]? with
  | none => h
  | some pc =>
    if !pc.buf ∧ !mmap then closeStderr h i
    else
      let ptr := if pc.buf then pc.ptr else 0
      h.setProc i { pc with buf := true, ptr := read.elim ptr (advance ptr) }

/-! ### Clients -/

def detach : Hub := addStdoutFd (setFds h i fun fds => { fds with cfd := -1 }) i

variable (fd : ℤ)

/-- All processes of a client lose it. -/
def detachClient : Hub :=
  (List.range h.procs.length).foldl (fun h i => if (fdsAt h i).cfd = fd then detach h i else h) h

def closeConn (c : ℕ) : Hub :=
  match h.conns[c]? with
  | none => h
  | some fd =>
    if fd < 0 then h else Hubs.Hub.updateNconns (detachClient (h.closeConnFd c fd) fd)

def findConn : Option ℕ := if fd < 0 then none else h.conns.findIdx? fun c => c = fd

def notifyExit (e : Exit) : Hub :=
  match findConn h (fdsAt h i).cfd with
  | none => h
  | some c => if e.told then h else closeConn h c

/-! ### Starting and ending -/

/-- What `spawn_proc` does when nothing fails. -/
def forked : Hub :=
  { h with
    kernel := (h.kernel.openFile a.ends.1).openFile a.ends.2
    procs := h.procs.modify i fun pc =>
      { pc with pid := a.pid, fds := { pc.fds with mfd := a.ends.1, efd := a.ends.2 } } }

/-- `spawn_proc`: if one of its calls fails all it has opened is closed again. -/
def spawnProc : ℤ × Hub := if a.open_ ≠ 0 then (-a.open_, h) else (0, forked h i a)

variable (xid : ℤ)

/-- The rest of `spawn_child`, with an entry for the process. -/
def spawnAt (name : List UInt8) : ℤ × Hub :=
  let out := spawnProc (h.setProc i (.fresh xid name)) i a
  if out.1 < 0 then (out.1, out.2.wipeProc i)
  else (xid, ((addStderrFd out.2 i).wipeStaleEntries i).updateProcCounts)

lemma spawnAt_of_eq_zero {h : Hub} {i : ℕ} {a : Answers} {xid : ℤ} {name : List UInt8}
    (hok : a.open_ = 0) : spawnAt h i a xid name =
      (xid, ((addStderrFd (forked (h.setProc i (.fresh xid name)) i a) i).wipeStaleEntries
        i).updateProcCounts) := by
  simp [spawnAt, spawnProc, hok]

lemma spawnAt_of_ne_zero {h : Hub} {i : ℕ} {a : Answers} {xid : ℤ} {name : List UInt8}
    (hok : a.open_ ≠ 0) :
    spawnAt h i a xid name = (-(a.open_ : ℤ), (h.setProc i (.fresh xid name)).wipeProc i) := by
  simp [spawnAt, spawnProc, hok, Nat.pos_of_ne_zero hok]

/-- A process in a new entry, after checks of its name and of how many there are. -/
def spawnChild (argv : List (List UInt8)) : ℤ × Hub :=
  let name := argv.headD []
  if 19 < name.length then (-ENAMETOOLONG, h)
  else if !validateName name then (-ENOENT, h)
  else if MAX_RUNNING_PROCS < h.running then (-EMFILE, h)
  else if h.pickUnusedXid.1 < 0 then (-EMFILE, h.pickUnusedXid.2)
  else if a.access ≠ 0 then (-a.access, h.pickUnusedXid.2)
  else match h.pickUnusedXid.2.grabProc a.brk with
    | none => (-ENOMEM, h.pickUnusedXid.2)
    | some (i, h') => spawnAt h' i a h.pickUnusedXid.1 name

/-- The loop of `flush_dead_procs`. -/
def flushDead (stuck : List ℕ) : ℕ → List (Proc Fds) → ℤ × List (Proc Fds)
  | _, [] => (0, [])
  | i, pc :: rest =>
    if pc.xid = 0 ∨ 0 < pc.pid then
      ((flushDead stuck (i + 1) rest).1, pc :: (flushDead stuck (i + 1) rest).2)
    else if pc.buf ∧ i ∈ stuck then (-ENOMEM, pc :: rest)
    else ((flushDead stuck (i + 1) rest).1, 0 :: (flushDead stuck (i + 1) rest).2)

def flushDeadProcs : ℤ × Hub :=
  let out := flushDead a.stuck 0 h.procs
  (out.1, Hubs.Hub.updateProcCounts { h with procs := out.2 })

def checkChildren (last : ℤ) (batch : List Exit) : Option (Hub × List Exit) :=
  Hubs.Hub.checkChildren notifyExit last h batch

/-! ### Requests -/

/-- `reply_start`: the client is sent a copy of the master. -/
def replyStart : ℤ × Hub :=
  match h.kernel.fileOf (fdsAt h i).mfd with
  | none => (-EBADF, h)
  | some f => if a.send ≠ 0 then (-a.send, h) else (1, withKernel h (h.kernel.hold f))

def cmdStart (argv : List (List UInt8)) : ℤ × Hub :=
  let out := spawnChild h a argv
  if out.1 < 0 then out
  else match out.2.findProc out.1 with
    | none => (-EFAULT, out.2)
    | some i => replyStart (setFds out.2 i fun fds => { fds with cfd := fd }) i a

def cmdSpawn (argv : List (List UInt8)) : ℤ × Hub :=
  let out := spawnChild h a argv
  if out.1 < 0 then out
  else match out.2.findProc out.1 with
    | none => (-EFAULT, out.2)
    | some i => (if a.send ≠ 0 then -a.send else 1, detach out.2 i)

def cmdDetach (fd xid : ℤ) : ℤ × Hub :=
  match h.findProc xid with
  | none => (-ESRCH, h)
  | some i =>
    if (fdsAt h i).cfd < 0 then (-EBADF, h)
    else if (fdsAt h i).cfd ≠ fd then (-EPERM, h)
    else (0, detach h i)

/-- A client takes a process over, and may fail after that. -/
def cmdAttach (fd xid : ℤ) : ℤ × Hub :=
  match h.findProc xid with
  | none => (-ESRCH, h)
  | some i =>
    if (fdsAt h i).cfd = fd then (-EALREADY, h)
    else if 0 < (fdsAt h i).cfd then (-EBUSY, h)
    else replyStart (delStdoutFd (setFds h i fun fds => { fds with cfd := fd }) i) i a

def signalProc : ℤ :=
  match h.findProc xid with
  | none => -ESRCH
  | some i => if (h.procs[i]?.map Proc.pid).getD 0 ≤ 0 then -ECHILD else -a.kill

/-- `cmd_fetch`. -/
def fetchProc : ℤ :=
  match h.findProc xid with
  | none => -ESRCH
  | some i => if (h.procs[i]?.map Proc.buf).getD false then 1 else -ENOENT

def cmdFlush : ℤ × Hub :=
  match h.findProc xid with
  | none => (-ESRCH, h)
  | some i =>
    if ((h.procs[i]?.map Proc.buf).getD false) ∧ i ∈ a.stuck then (-ENOMEM, h)
    else (0, h.flushProc i)

/-- What the handler of a request returns, and what it does, for the client with a descriptor.
It is more than zero if the handler has answered by itself. -/
def call : Request → ℤ × Hub
  | .status start => (if start < 0 then -EINVAL else if h.procs.length ≤ start then 0 else 1, h)
  | .start argv _ => cmdStart h a fd argv
  | .spawn argv _ => cmdSpawn h a argv
  | .detach xid => cmdDetach h fd xid
  | .attach xid => cmdAttach h a fd xid
  | .sigterm xid => (signalProc h a xid, h)
  | .sigkill xid => (signalProc h a xid, h)
  | .fetch xid => (fetchProc h xid, h)
  | .flush xid => cmdFlush h a xid
  | .clear => flushDeadProcs h a
  | .refused error => (-error, h)

def handleConn (c : ℕ) (req : Request) : Hub :=
  match h.conns[c]? with
  | none => h
  | some fd =>
    let out := call h a fd req
    if 0 < out.1 ∨ a.reply then out.2 else closeConn out.2 c

end Hub

/-- What can happen. -/
inductive Event
  /-- A client connects. -/
  | connect (fd : ℤ)
  /-- A client asks for something. -/
  | request (c : ℕ) (req : Request) (a : Answers)
  /-- A client goes away, or sends what is not a message. -/
  | hangup (c : ℕ)
  /-- Children have ended. -/
  | exits (batch : List Exit) (last : ℤ)
  /-- epoll reports what it was asked to watch. -/
  | poll (r : Reg) (input other flushed mmap : Bool) (read : Option ℕ)
  /-- Another process gets a copy of a file, or closes the last it had. -/
  | hold (f : ℕ)
  | release (f : ℕ)

/-- The hub, and whether it has given up. -/
abbrev World := Hubs.World Fds

def processStdout (h : Hub) (i : ℕ) (input other flushed : Bool) : World :=
  if h.procs.length ≤ i then ⟨h, true⟩
  else
    let h := if input then Hub.handleStdout h i flushed else h
    ⟨if other then Hub.closeStdout h i else h, false⟩

def processStderr (h : Hub) (i : ℕ) (input other mmap : Bool) (read : Option ℕ) : World :=
  if h.procs.length ≤ i then ⟨h, true⟩
  else
    let h := if input then Hub.handleStderr h i mmap read else h
    ⟨if other then Hub.closeStderr h i else h, false⟩

/-- What the kernel can return: new descriptors are not open, and a new process is not one
whose end the hub has not been told of. -/
def Answers.possible (a : Answers) (h : Hub) : Prop :=
  h.free a.ends.1 ∧ h.free a.ends.2 ∧ a.ends.1 ≠ a.ends.2 ∧ 0 < a.pid ∧ a.pid ∉ pids h.procs
deriving Decidable

/-- One turn of the loop, while the hub runs. -/
def turn (h : Hub) : Event → Option World
  | .connect fd => if h.free fd then some ⟨h.checkSocket fd, false⟩ else none
  | .request c req a =>
    if (∃ fd ∈ h.conns[c]?, 0 ≤ fd) ∧ a.possible h then some ⟨Hub.handleConn h a c req, false⟩
    else none
  | .hangup c => some ⟨Hub.closeConn h c, false⟩
  | .exits batch last => (Hub.checkChildren h last batch).map fun out => ⟨out.1, false⟩
  | .poll r input other flushed mmap read =>
    if r ∈ h.kernel.regs ∧ 2 ≤ pkeyGroup r.key then
      if pkeyGroup r.key = 2 then some (processStdout h (pkeyIndex r.key) input other flushed)
      else if pkeyGroup r.key = 3 then
        some (processStderr h (pkeyIndex r.key) input other mmap read)
      else some ⟨h, true⟩
    else none
  | .hold f => some ⟨{ h with kernel := h.kernel.hold f }, false⟩
  | .release f => some ⟨{ h with kernel := h.kernel.release f }, false⟩

/-- One step: nothing comes after giving up. -/
def step (w : World) (e : Event) : Option World := if w.failed then none else turn w.hub e

end Minibase.Ptyhub
