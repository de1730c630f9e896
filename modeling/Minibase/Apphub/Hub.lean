import Minibase.Hubs.Table

/-!
# The application hub

What `apphub` does with its table of processes, `apphub_proc.c`, and with what its clients ask
for once the message has been read, `apphub_ctrl.c`. A process has one descriptor, the reading
end of a pipe that is its output.

`Apphub.step` is one turn of the loop in `main`: epoll reports something about a
connection or a pipe, or a signal says that children have ended.
-/

namespace Minibase.Apphub

open Hubs

/-- The hub, with `fd` for the descriptors of a process. -/
abbrev Hub := Hubs.Hub ℤ

/-- What system calls return while the hub handles a request: error numbers or zero, whether
the heap grows, the ends of a new pipe, the process forked, and whether the client gets the
answer. -/
structure Answers where
  access : ℕ := 0
  brk : Bool := true
  pipe : ℕ := 0
  ends : ℤ × ℤ := (0, 0)
  fork : Option ℤ := none
  munmap : ℕ := 0
  kill : ℕ := 0
  reply : Bool := true
deriving DecidableEq

/-- What clients ask for. A message that does not get as far is refused with an error. -/
inductive Request
  | status (start : ℤ)
  | spawn (argv envp : List (List UInt8))
  | sigterm (xid : ℤ)
  | sigkill (xid : ℤ)
  | fetch (xid : ℤ)
  | flush (xid : ℤ)
  | refused (error : ℤ)
deriving DecidableEq

def validateName (name : List UInt8) : Bool := name.all fun b => !(b < 0x20 || b = 0x2F)

namespace Hub

variable (h : Hub) (i : ℕ) (a : Answers)

def addPipeFd : Hub :=
  match h.procs[i]? with
  | none => h
  | some pc => h.addEpollFd pc.fds (pkey 2 i)

/-- What `spawn_proc` does with a pipe. If there is no new process it stays open. -/
def forked : Hub :=
  match a.fork with
  | none => { h with kernel := (h.kernel.openFile a.ends.1).openFile a.ends.2 }
  | some pid =>
    { h with
      kernel := h.kernel.openFile a.ends.1
      procs := h.procs.modify i fun pc => { pc with fds := a.ends.1, pid := pid } }

/-- `spawn_proc`. If there is no new process what is returned is the result of the call
before, which went well. -/
def spawnProc : ℤ × Hub := if a.pipe ≠ 0 then (-a.pipe, h) else (0, forked h i a)

variable (xid : ℤ)

/-- The rest of `spawn_child`, with an entry for the process. -/
def spawnAt (name : List UInt8) : ℤ × Hub :=
  let out := spawnProc (h.setProc i (.fresh xid name)) i a
  if out.1 < 0 then (out.1, out.2.wipeProc i)
  else (xid, ((addPipeFd out.2 i).wipeStaleEntries i).updateProcCounts)

lemma spawnAt_of_eq_zero {h : Hub} {i : ℕ} {a : Answers} {xid : ℤ} {name : List UInt8}
    (hok : a.pipe = 0) : spawnAt h i a xid name =
      (xid, ((addPipeFd (forked (h.setProc i (.fresh xid name)) i a) i).wipeStaleEntries
        i).updateProcCounts) := by
  simp [spawnAt, spawnProc, hok]

lemma spawnAt_of_ne_zero {h : Hub} {i : ℕ} {a : Answers} {xid : ℤ} {name : List UInt8}
    (hok : a.pipe ≠ 0) :
    spawnAt h i a xid name = (-(a.pipe : ℤ), (h.setProc i (.fresh xid name)).wipeProc i) := by
  simp [spawnAt, spawnProc, hok, Nat.pos_of_ne_zero hok]

def spawnChild (argv : List (List UInt8)) : ℤ × Hub :=
  let name := argv.headD []
  if 19 < name.length then (-ENAMETOOLONG, h)
  else if !validateName name then (-ENOENT, h)
  else if MAX_RUNNING_PROCS < h.running then (-EMFILE, h)
  else if h.pickUnusedXid.1 ≤ 0 then (-EAGAIN, h.pickUnusedXid.2)
  else if a.access ≠ 0 then (-a.access, h.pickUnusedXid.2)
  else match h.pickUnusedXid.2.grabProc a.brk with
    | none => (-ENOMEM, h.pickUnusedXid.2)
    | some (i, h') => spawnAt h' i a h.pickUnusedXid.1 name

def closePipe : Hub :=
  match h.procs[i]? with
  | none => h
  | some pc =>
    if pc.fds ≤ 0 then h
    else { h with
      procs := h.procs.set i { pc with fds := -1 }
      kernel := (h.kernel.del pc.fds).close pc.fds }

/-- `handle_pipe`, with whether a buffer can be had, and how much is read. -/
def handlePipe (mmap : Bool) (read : Option ℕ) : Hub :=
  match h.procs[i]? with
  | none => h
  | some pc =>
    if !pc.buf ∧ !mmap then closePipe h i
    else
      let ptr := if pc.buf then pc.ptr else 0
      h.setProc i { pc with buf := true, ptr := read.elim ptr (advance ptr) }

def cmdFlush : ℤ × Hub :=
  match h.findProc xid with
  | none => (-ESRCH, h)
  | some i =>
    if ((h.procs[i]?.map Proc.buf).getD false) ∧ a.munmap ≠ 0 then (-a.munmap, h)
    else (0, h.flushProc i)

def signalProc : ℤ :=
  match h.findProc xid with
  | none => -ESRCH
  | some i => if (h.procs[i]?.map Proc.pid).getD 0 ≤ 0 then -ECHILD else -a.kill

/-- `cmd_fetch`. -/
def fetchProc : ℤ :=
  match h.findProc xid with
  | none => -ESRCH
  | some i => if (h.procs[i]?.map Proc.buf).getD false then 1 else -ENOENT

/-- What the handler of a request returns, and what it does. It is more than zero if the handler
has answered by itself. -/
def call : Request → ℤ × Hub
  | .status start => (if start < 0 then -EINVAL else if h.procs.length ≤ start then 0 else 1, h)
  | .spawn argv _ => (min (spawnChild h a argv).1 0, (spawnChild h a argv).2)
  | .sigterm xid => (signalProc h a xid, h)
  | .sigkill xid => (signalProc h a xid, h)
  | .fetch xid => (fetchProc h xid, h)
  | .flush xid => cmdFlush h a xid
  | .refused error => (-error, h)

def closeConn (c : ℕ) : Hub :=
  match h.conns[c]? with
  | none => h
  | some fd =>
    if fd < 0 then h else (h.closeConnFd c fd).updateNconns

def handleConn (c : ℕ) (req : Request) : Hub :=
  let h' := (call h a req).2
  if a.reply then h' else closeConn h' c

def checkChildren (last : ℤ) (batch : List Exit) : Option (Hub × List Exit) :=
  Hubs.Hub.checkChildren (fun h _ _ => h) last h batch

end Hub

/-- What can happen. -/
inductive Event
  /-- A client connects. -/
  | connect (fd : ℤ)
  /-- A client asks for something. -/
  | request (c : ℕ) (req : Request) (a : Answers)
  /-- A client goes away, or sends what is not a message. -/
  | hangup (c : ℕ)
  /-- Children have ended. -/
  | exits (batch : List Exit) (last : ℤ)
  /-- epoll reports what it was asked to watch. -/
  | poll (r : Reg) (input other mmap : Bool) (read : Option ℕ)
  /-- Another process gets a copy of a file, or closes the last it had. -/
  | hold (f : ℕ)
  | release (f : ℕ)

/-- The hub, and whether it has given up. -/
abbrev World := Hubs.World ℤ

def processProc (h : Hub) (i : ℕ) (input other mmap : Bool) (read : Option ℕ) : World :=
  if h.procs.length ≤ i then ⟨h, true⟩
  else
    let h := if input then Hub.handlePipe h i mmap read else h
    ⟨if other then Hub.closePipe h i else h, false⟩

/-- What the kernel can return: new descriptors are not open, and a new process is not one
whose end the hub has not been told of. -/
def Answers.possible (a : Answers) (h : Hub) : Prop :=
  h.free a.ends.1 ∧ h.free a.ends.2 ∧ a.ends.1 ≠ a.ends.2 ∧
    ∀ pid ∈ a.fork, 0 < pid ∧ pid ∉ pids h.procs
deriving Decidable

/-- One turn of the loop, while the hub runs. -/
def turn (h : Hub) : Event → Option World
  | .connect fd => if h.free fd then some ⟨h.checkSocket fd, false⟩ else none
  | .request c req a =>
    if (∃ fd ∈ h.conns[c]?, 0 ≤ fd) ∧ a.possible h then some ⟨Hub.handleConn h a c req, false⟩
    else none
  | .hangup c => some ⟨Hub.closeConn h c, false⟩
  | .exits batch last => (Hub.checkChildren h last batch).map fun out => ⟨out.1, false⟩
  | .poll r input other mmap read =>
    if r ∈ h.kernel.regs ∧ 2 ≤ pkeyGroup r.key then
      if pkeyGroup r.key = 2 then some (processProc h (pkeyIndex r.key) input other mmap read)
      else some ⟨h, true⟩
    else none
  | .hold f => some ⟨{ h with kernel := h.kernel.hold f }, false⟩
  | .release f => some ⟨{ h with kernel := h.kernel.release f }, false⟩

/-- One step: nothing comes after giving up. -/
def step (w : World) (e : Event) : Option World := if w.failed then none else turn w.hub e

end Minibase.Apphub
