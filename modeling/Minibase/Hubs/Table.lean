import Mathlib.Data.List.DropRight
import Minibase.Lib.Epoll

/-!
# The process table of the hubs

`apphub` and `ptyhub` keep the processes they have started in the same kind of table. What
differs is the descriptors of a process, `D` here: `apphub` has one pipe, `ptyhub` the master
side of a terminal, the client attached to it and a pipe for errors. The hub goes with the part
of the kernel it uses, its descriptors and its epoll instance.

The main result is `Hubs.settles_iff`, on `check_children`: whether all exits are taken note of
and the counts are right again, by which the hub decides on its own end.
-/

namespace Minibase.Hubs

open List Option

/-- `struct proc`: the name is what stands before the padding, `buf` says whether there is a
ring buffer. -/
structure Proc (D : Type) where
  xid : ℤ
  pid : ℤ
  name : List UInt8
  buf : Bool
  ptr : ℕ
  fds : D
deriving DecidableEq, Repr

/-- What `memzero` leaves. -/
instance {D : Type} [Zero D] : Zero (Proc D) := ⟨⟨0, 0, [], false, 0, 0⟩⟩

/-- An entry with a name and a number, and no process yet. -/
def Proc.fresh {D : Type} [Zero D] (xid : ℤ) (name : List UInt8) : Proc D :=
  ⟨xid, 0, name, false, 0, 0⟩

/-- `struct top`: the entries below `nprocs` with the counts kept of them, and the connections
below `nconns`, each by its descriptor. -/
structure Hub (D : Type) where
  procs : List (Proc D)
  nonempty : ℕ
  running : ℕ
  lastxid : ℤ
  conns : List ℤ
  kernel : Kernel
deriving DecidableEq, Repr

/-- The hub, and whether it has given up on an event it could not make out. -/
structure World (D : Type) where
  hub : Hub D
  failed : Bool
deriving DecidableEq

/-- What `waitpid` returns of a child, and whether a client that is told of it listens. -/
structure Exit where
  pid : ℤ
  status : ℤ
  told : Bool
  positive : 0 < pid
deriving DecidableEq

def RING_SIZE : ℕ := 8192

def MAX_RUNNING_PROCS : ℕ := 4096

def NCONNS : ℕ := 32

/-- The error codes in use. -/
def ESRCH : ℤ := 3

@[inherit_doc ESRCH] def EBADF : ℤ := 9

@[inherit_doc ESRCH] def ECHILD : ℤ := 10

@[inherit_doc ESRCH] def EAGAIN : ℤ := 11

@[inherit_doc ESRCH] def ENOMEM : ℤ := 12

@[inherit_doc ESRCH] def EPERM : ℤ := 1

@[inherit_doc ESRCH] def ENOENT : ℤ := 2

@[inherit_doc ESRCH] def EFAULT : ℤ := 14

@[inherit_doc ESRCH] def EBUSY : ℤ := 16

@[inherit_doc ESRCH] def EINVAL : ℤ := 22

@[inherit_doc ESRCH] def EMFILE : ℤ := 24

@[inherit_doc ESRCH] def ENAMETOOLONG : ℤ := 36

@[inherit_doc ESRCH] def EALREADY : ℤ := 114

/-- A key of `epoll`: a group and an index in it. -/
def pkey (group index : ℕ) : ℕ := (group * 65536) ||| index

def pkeyGroup (key : ℕ) : ℕ := key / 65536

def pkeyIndex (key : ℕ) : ℕ := key % 65536

variable {D : Type}

/-- The loop of `update_proc_counts`: the limit, the entries in use and those that run. -/
def recount : List (Proc D) → ℕ → ℕ × ℕ × ℕ → ℕ × ℕ × ℕ
  | [], _, counts => counts
  | pc :: rest, i, (limit, nonempty, running) =>
    if pc.xid = 0 then recount rest (i + 1) (limit, nonempty, running)
    else if pc.pid ≤ 0 then recount rest (i + 1) (i + 1, nonempty + 1, running)
    else recount rest (i + 1) (i + 1, nonempty + 1, running + 1)

/-- How far the ring buffer is filled after a read. -/
def advance (ptr n : ℕ) : ℕ :=
  if RING_SIZE < ptr + n then RING_SIZE + (ptr + n) % RING_SIZE else ptr + n

variable (pc : Proc D)

/-- `mark_dead`: the status is kept in the lower half of a negative number. -/
def markDead (status : ℤ) : Proc D := { pc with pid := status % 65536 - 65536 }

namespace Hub

variable [Zero D] (h : Hub D)

/-- `update_proc_counts`. Entries past the limit are given back with the heap. -/
def updateProcCounts : Hub D :=
  let counts := recount h.procs 0 (0, 0, 0)
  { h with procs := h.procs.take counts.1, nonempty := counts.2.1, running := counts.2.2 }

/-- Writes an entry. -/
def setProc (i : ℕ) (pc : Proc D) : Hub D := { h with procs := h.procs.set i pc }

def wipeProc (i : ℕ) : Hub D := h.setProc i 0

/-- The entry of an id. -/
def findProc (xid : ℤ) : Option ℕ := h.procs.findIdx? fun pc => pc.xid = xid

/-- An id, with either sign. -/
def xidIsInUse (val : ℤ) : Bool :=
  h.procs.any fun pc => pc.xid ≠ 0 && (if pc.xid < 0 then -pc.xid else pc.xid) = val

/-- The number `pick_unused_xid` tries. -/
def nextXid : ℤ :=
  if 100 < h.lastxid + 1 ∧ 2 * h.nonempty < h.lastxid + 1 then 1 else h.lastxid + 1

/-- `pick_unused_xid`: all the tries are with the same number. -/
def pickUnusedXid : ℤ × Hub D :=
  if h.xidIsInUse h.nextXid then (-EAGAIN, h) else (h.nextXid, { h with lastxid := h.nextXid })

/-- `grab_proc`, the heap permitting: the entry is zeroed. -/
def grabProc (brk : Bool) : Option (ℕ × Hub D) :=
  match h.procs.findIdx? fun pc => pc.xid = 0 with
  | some i => some (i, h.wipeProc i)
  | none => if brk then some (h.procs.length, { h with procs := h.procs ++ [0] }) else none

/-- `wipe_stale_entries`: those of the name of entry `i` that do not run. -/
def wipeStaleEntries (i : ℕ) : Hub D :=
  let name := (h.procs[i]?.map Proc.name).getD []
  { h with procs := h.procs.mapIdx fun j pc =>
      if j ≠ i ∧ pc.xid ≠ 0 ∧ pc.pid ≤ 0 ∧ pc.name = name then 0 else pc }

/-- `flush_proc`, if the buffer can be unmapped. -/
def flushProc (i : ℕ) : Hub D :=
  match h.procs[i]? with
  | none => h
  | some pc =>
    if pc.pid ≤ 0 then (h.wipeProc i).updateProcCounts
    else h.setProc i { pc with buf := false, ptr := if pc.buf then 0 else pc.ptr }

/-- What `check_children` makes of an entry whose process has ended. -/
def endProc (i : ℕ) (status : ℤ) : Hub D :=
  match h.procs[i]? with
  | none => h
  | some pc => h.setProc i (if status = 0 ∧ !pc.buf then 0 else markDead pc status)

/-- `check_children`, with what else the hub does about an exit, the children there are to be
waited for, and what `waitpid` returns after the last of them: the hub, unless it gave up, and
the children not waited for. -/
def checkChildren (notify : Hub D → ℕ → Exit → Hub D) (last : ℤ) :
    Hub D → List Exit → Option (Hub D × List Exit)
  | h, [] => if last < 0 ∧ last ≠ -ECHILD then none else some (h.updateProcCounts, [])
  | h, e :: rest =>
    match h.procs.findIdx? fun pc => pc.pid = e.pid with
    -- not one of its own
    | none => some (h, rest)
    | some i => checkChildren notify last ((notify h i e).endProc i e.status) rest

/-! ### Connections -/

variable (fd : ℤ)

/-- A descriptor the kernel may give out. Standard input is open all the time. -/
def free : Prop := 0 < fd ∧ h.kernel.fileOf fd = none
deriving Decidable

/-- `grab_conn_slot`, for a new connection. -/
def grabConnSlot : Option (ℕ × Hub D) :=
  match h.conns.findIdx? fun c => c < 0 with
  | some c => some (c, { h with conns := h.conns.set c fd })
  | none =>
    if NCONNS ≤ h.conns.length then none
    else some (h.conns.length, { h with conns := h.conns ++ [fd] })

def addEpollFd (key : ℕ) : Hub D :=
  if pkeyIndex key = 65535 then h else { h with kernel := h.kernel.add fd key }

/-- `check_socket`, with a client waiting. -/
def checkSocket : Hub D :=
  let opened := { h with kernel := h.kernel.openFile fd }
  match opened.grabConnSlot fd with
  | none => { opened with kernel := opened.kernel.close fd }
  | some (c, h') => h'.addEpollFd fd (pkey 1 c)

/-- The beginning of `close_conn`. -/
def closeConnFd (c : ℕ) (fd : ℤ) : Hub D :=
  { h with kernel := (h.kernel.del fd).close fd, conns := h.conns.set c (-1) }

/-- The end of `close_conn`: `nconns` goes down to the last that is open. -/
def updateNconns : Hub D := { h with conns := h.conns.rdropWhile fun c => c < 0 }

end Hub

lemma pickUnusedXid_snd (h : Hub D) :
    h.pickUnusedXid.2 = { h with lastxid := h.pickUnusedXid.2.lastxid } := by
  rw [Hub.pickUnusedXid]
  split <;> rfl

@[simp] lemma procs_pickUnusedXid (h : Hub D) : h.pickUnusedXid.2.procs = h.procs := by
  rw [pickUnusedXid_snd]

/-- **What `grab_proc` does**: an entry not in use is zeroed, maybe a new one. -/
theorem grabProc_spec [Zero D] {h h' : Hub D} {brk : Bool} {i : ℕ}
    (hg : h.grabProc brk = some (i, h')) :
    h' = { h with procs := h'.procs } ∧ i ≤ h.procs.length ∧ h'.procs[i]? = some 0 ∧
      (∀ pc, h.procs[i]? = some pc → pc.xid = 0) ∧
      ∀ j, j ≠ i → h'.procs[j]? = h.procs[j]? := by
  rw [Hub.grabProc] at hg
  split at hg
  · rename_i j hj
    cases hg
    obtain ⟨hlt, hx, -⟩ := findIdx?_eq_some_iff_getElem.mp hj
    refine ⟨rfl, le_of_lt hlt, getElem?_set_self hlt, fun pc hpc => ?_, fun k hk => ?_⟩
    · rw [getElem?_eq_getElem hlt] at hpc
      cases hpc
      simpa using hx
    · exact getElem?_set_ne hk.symm
  · split at hg
    · cases hg
      refine ⟨rfl, le_refl _, getElem?_concat_length, fun pc hpc => ?_, fun k hk => ?_⟩
      · rw [getElem?_eq_none (le_refl _)] at hpc
        cases hpc
      · show (h.procs ++ [0])[k]? = h.procs[k]?
        rcases lt_or_ge k h.procs.length with hlt | hge
        · exact getElem?_append_left hlt
        · rw [getElem?_eq_none hge, getElem?_eq_none]
          rw [length_append, length_singleton]
          omega
    · cases hg

lemma length_grabProc [Zero D] {h h' : Hub D} {brk : Bool} {i : ℕ}
    (hg : h.grabProc brk = some (i, h')) : h'.procs.length ≤ h.procs.length + 1 := by
  rw [Hub.grabProc] at hg
  split at hg
  · cases hg
    exact Nat.le_succ_of_le (le_of_eq (length_set ..))
  · split at hg
    · cases hg
      exact le_of_eq (length_append ..)
    · cases hg

/-! ### Counting -/

/-- An entry in use. -/
def Proc.inUse : Bool := pc.xid ≠ 0

/-- An entry whose process runs. -/
def Proc.runs : Bool := pc.xid ≠ 0 && 0 < pc.pid

lemma recount_append (l₁ l₂ : List (Proc D)) (i : ℕ) (counts : ℕ × ℕ × ℕ) :
    recount (l₁ ++ l₂) i counts = recount l₂ (i + l₁.length) (recount l₁ i counts) := by
  induction l₁ generalizing i counts with
  | nil => rfl
  | cons pc rest ih =>
    have hlen : i + (pc :: rest).length = i + 1 + rest.length := by
      rw [length_cons]
      omega
    rw [cons_append, recount, recount, hlen]
    split
    · exact ih _ _
    · split <;> exact ih _ _

/-- The entries up to the last one in use. -/
def trimmed (procs : List (Proc D)) : List (Proc D) := procs.rdropWhile fun pc => !pc.inUse

lemma trimmed_concat (procs : List (Proc D)) (pc : Proc D) :
    trimmed (procs ++ [pc]) = if pc.inUse then procs ++ [pc] else trimmed procs := by
  rw [trimmed, rdropWhile_concat]
  cases pc.inUse <;> rfl

lemma trimmed_sublist (procs : List (Proc D)) : (trimmed procs).Sublist procs :=
  ( rdropWhile_prefix _ _).sublist

/-- **What the loop counts**: up to where there are entries in use, how many there are, and how
many of them run. -/
theorem recount_eq (procs : List (Proc D)) :
    recount procs 0 (0, 0, 0) =
      ((trimmed procs).length, procs.countP Proc.inUse, procs.countP Proc.runs) := by
  induction procs using reverseRecOn with
  | nil => rfl
  | append_singleton rest pc ih =>
    rw [recount_append, ih, zero_add, countP_append, countP_append, trimmed_concat]
    by_cases hx : pc.xid = 0
    · simp [recount, hx, Proc.inUse, Proc.runs]
    · by_cases hp : pc.pid ≤ 0
      · simp [recount, hx, hp, Proc.inUse, Proc.runs]
      · simp [recount, hx, hp, Proc.inUse, Proc.runs, Int.not_le.mp hp]

lemma countP_trimmed {p : Proc D → Bool} (hp : ∀ pc, p pc → pc.inUse) (procs : List (Proc D)) :
    (trimmed procs).countP p = procs.countP p := by
  induction procs using reverseRecOn with
  | nil => rfl
  | append_singleton rest pc ih =>
    rw [trimmed_concat]
    split
    · rfl
    · rename_i hpc
      have hno : p pc = false := Bool.eq_false_iff.mpr fun h => hpc (hp pc h)
      rw [ih, countP_append, countP_singleton, hno]
      rfl

/-- The counts kept are those of the table. -/
def Counted (h : Hub D) : Prop :=
  recount h.procs 0 (0, 0, 0) = (h.procs.length, h.nonempty, h.running)
deriving Decidable

@[simp] lemma procs_updateProcCounts (h : Hub D) : h.updateProcCounts.procs = trimmed h.procs := by
  rw [Hub.updateProcCounts, recount_eq]
  exact (prefix_iff_eq_take.mp ( rdropWhile_prefix _ _)).symm

lemma Proc.inUse_of_runs (h : pc.runs) : pc.inUse := (Bool.and_eq_true_iff.mp h).1

/-- **After `update_proc_counts` the counts are right.** -/
theorem counted_updateProcCounts (h : Hub D) : Counted h.updateProcCounts := by
  rw [Counted, recount_eq, procs_updateProcCounts, countP_trimmed fun _ => id,
    countP_trimmed Proc.inUse_of_runs, trimmed, trimmed, rdropWhile_idempotent]
  rw [Hub.updateProcCounts, recount_eq]

/-! ### Which processes run -/

/-- The process ids in the table. -/
def pids (procs : List (Proc D)) : List ℤ := (procs.map Proc.pid).filter fun p => 0 < p

lemma mem_pids {procs : List (Proc D)} {p : ℤ} :
    p ∈ pids procs ↔ 0 < p ∧ ∃ pc ∈ procs, pc.pid = p := by
  rw [pids, mem_filter, List.mem_map, decide_eq_true_iff, and_comm]

lemma pids_append (l₁ l₂ : List (Proc D)) : pids (l₁ ++ l₂) = pids l₁ ++ pids l₂ := by
  rw [pids, map_append, filter_append]
  rfl

lemma pids_cons_pos {pc : Proc D} (h : 0 < pc.pid) (l : List (Proc D)) :
    pids (pc :: l) = pc.pid :: pids l := by
  simp [pids, h]

lemma pids_cons_neg {pc : Proc D} (h : pc.pid ≤ 0) (l : List (Proc D)) :
    pids (pc :: l) = pids l := by
  simp [pids, Int.not_lt.mpr h]

/-- No two entries have the same process, and one with a process is in use. -/
structure Orderly (procs : List (Proc D)) : Prop where
  distinct : (pids procs).Nodup
  used : ∀ pc ∈ procs, 0 < pc.pid → pc.xid ≠ 0

/-- What is so of every table: it is in order, there are not more processes than have been
counted, and the numbers given to them are positive. -/
structure Tidy (h : Hub D) : Prop extends Orderly h.procs where
  counted : h.procs.countP Proc.runs ≤ h.running
  numbered : 0 ≤ h.lastxid

/-- By which an entry is known and counted. -/
def Proc.core : ℤ × ℤ := (pc.xid, pc.pid)

/-- The tables have the same processes in the same places, and the same counts. -/
structure Like (h h' : Hub D) : Prop where
  cores : h'.procs.map Proc.core = h.procs.map Proc.core
  nonempty : h'.nonempty = h.nonempty
  running : h'.running = h.running
  lastxid : h'.lastxid = h.lastxid

namespace Like

variable {h h' h'' : Hub D}

lemma refl (h : Hub D) : Like h h := ⟨rfl, rfl, rfl, rfl⟩

lemma trans (h₁ : Like h h') (h₂ : Like h' h'') : Like h h'' :=
  ⟨h₂.cores.trans h₁.cores, h₂.nonempty.trans h₁.nonempty, h₂.running.trans h₁.running,
    h₂.lastxid.trans h₁.lastxid⟩

lemma pids_eq (hl : Like h h') : h'.procs.map Proc.pid = h.procs.map Proc.pid := by
  have := congrArg (List.map Prod.snd) hl.cores
  rwa [List.map_map, List.map_map] at this

lemma countP_eq (hl : Like h h') : h'.procs.countP Proc.runs = h.procs.countP Proc.runs := by
  have := congrArg (countP fun c : ℤ × ℤ => c.1 ≠ 0 && 0 < c.2) hl.cores
  rwa [countP_map, countP_map] at this

lemma findIdx?_eq (hl : Like h h') (p : ℤ) :
    h'.procs.findIdx? (fun pc => pc.pid = p) = h.procs.findIdx? fun pc => pc.pid = p := by
  have := congrArg (findIdx? fun q : ℤ => q = p) hl.pids_eq
  rwa [findIdx?_map, findIdx?_map] at this

lemma tidy (hl : Like h h') (ht : Tidy h) : Tidy h' where
  distinct := by
    rw [pids, hl.pids_eq]
    exact ht.distinct
  used pc hpc hpos := by
    have hmem : pc.core ∈ h.procs.map Proc.core := hl.cores ▸ mem_map_of_mem hpc
    obtain ⟨pc', hpc', heq⟩ := mem_map.mp hmem
    have hpid : pc'.pid = pc.pid := congrArg Prod.snd heq
    have hxid : pc'.xid = pc.xid := congrArg Prod.fst heq
    rw [← hxid]
    exact ht.used pc' hpc' (hpid ▸ hpos)
  counted := by
    rw [hl.countP_eq, hl.running]
    exact ht.counted
  numbered := hl.lastxid ▸ ht.numbered

end Like

/-- What a hub does about an exit leaves the table and its counts as they are. -/
def Quiet (notify : Hub D → ℕ → Exit → Hub D) : Prop := ∀ h i e, Like h (notify h i e)

/-! ### An exit -/

section

variable [Zero D] {h : Hub D} {i : ℕ} {e : Exit}

@[simp] lemma pid_zero : (0 : Proc D).pid = 0 := rfl

omit [Zero D] in
lemma split_at {l : List (Proc D)} {pc : Proc D} (hi : l[i]? = some pc) :
    l = l.take i ++ pc :: l.drop (i + 1) ∧
      ∀ pc', l.set i pc' = l.take i ++ pc' :: l.drop (i + 1) := by
  obtain ⟨hlt, rfl⟩ := List.getElem?_eq_some_iff.mp hi
  refine ⟨?_, fun pc' => set_eq_take_append_cons_drop.trans (if_pos hlt)⟩
  rw [getElem_cons_drop, take_append_drop]

/-- What becomes of an entry whose process has ended. -/
theorem endProc_eq {pc : Proc D} (hi : h.procs[i]? = some pc) (status : ℤ) :
    ∃ pc' : Proc D, pc'.pid ≤ 0 ∧ h.endProc i status = h.setProc i pc' := by
  simp only [Hub.endProc, hi]
  by_cases hs : status = 0 ∧ (!pc.buf) = true
  · exact ⟨0, Int.le_of_eq pid_zero, by rw [if_pos hs]⟩
  · refine ⟨markDead pc status, ?_, by rw [if_neg hs]⟩
    have := Int.emod_lt_of_pos status (show (0 : ℤ) < 65536 by decide)
    show status % 65536 - 65536 ≤ 0
    omega

/-- **One exit**: its process is gone from the table, and the others are not. -/
theorem Tidy.endProc (ht : Tidy h) (hi : h.procs.findIdx? (fun pc => pc.pid = e.pid) = some i) :
    Tidy (h.endProc i e.status) ∧
      (h.endProc i e.status).procs.countP Proc.runs + 1 = h.procs.countP Proc.runs ∧
      ∀ p, p ∈ pids (h.endProc i e.status).procs ↔ p ∈ pids h.procs ∧ p ≠ e.pid := by
  obtain ⟨hlt, hpid, -⟩ := findIdx?_eq_some_iff_getElem.mp hi
  have hget : h.procs[i]? = some h.procs[i] := getElem?_eq_getElem hlt
  have hpid : h.procs[i].pid = e.pid := by simpa using hpid
  have hpos : 0 < h.procs[i].pid := hpid ▸ e.positive
  have hruns : h.procs[i].runs = true := by
    simp [Proc.runs, hpos, ht.used _ (getElem_mem hlt) hpos]
  obtain ⟨pc', hpc', heq⟩ := endProc_eq hget e.status
  obtain ⟨hsplit, hset⟩ := split_at hget
  have hprocs : (h.endProc i e.status).procs = h.procs.take i ++ pc' :: h.procs.drop (i + 1) := by
    rw [heq]
    exact hset pc'
  have hruns' : pc'.runs = false := by simp [Proc.runs, Int.not_lt.mpr hpc']
  have hpids : pids h.procs = pids (h.procs.take i) ++ e.pid :: pids (h.procs.drop (i + 1)) := by
    rw [hsplit, pids_append, pids_cons_pos hpos, hpid, ← hsplit]
  have hpids' : pids (h.endProc i e.status).procs =
      pids (h.procs.take i) ++ pids (h.procs.drop (i + 1)) := by
    rw [hprocs, pids_append, pids_cons_neg hpc']
  have hcount : (h.endProc i e.status).procs.countP Proc.runs + 1 = h.procs.countP Proc.runs := by
    rw [hprocs, countP_append, countP_cons_of_neg (by simp [hruns'])]
    conv_rhs => rw [hsplit, countP_append, countP_cons_of_pos hruns]
    omega
  have hnodup := ht.distinct
  rw [hpids, nodup_middle, nodup_cons] at hnodup
  refine ⟨⟨⟨hpids' ▸ hnodup.2, ?_⟩, ?_, ?_⟩, hcount, ?_⟩
  · intro pc hpc hrun
    rw [hprocs, mem_append, mem_cons] at hpc
    rcases hpc with hpc | rfl | hpc
    · exact ht.used pc (mem_of_mem_take hpc) hrun
    · exact absurd hrun (Int.not_lt.mpr hpc')
    · exact ht.used pc (mem_of_mem_drop hpc) hrun
  · have hrunning : (h.endProc i e.status).running = h.running := by rw [heq]; rfl
    have := ht.counted
    omega
  · rw [heq]
    exact ht.numbered
  · intro p
    rw [hpids', hpids, mem_append, mem_append, mem_cons]
    constructor
    · intro hp
      refine ⟨hp.imp_right .inr, ?_⟩
      rintro rfl
      exact hnodup.1 (mem_append.mpr hp)
    · rintro ⟨hp | rfl | hp, hne⟩
      · exact .inl hp
      · exact absurd rfl hne
      · exact .inr hp

/-- What has to be so when `check_children` returns: all children have been waited for, none of
them is in the table any more, and the counts are right. -/
def Settles (batch : List Exit) (out : Option (Hub D × List Exit)) : Prop :=
  ∀ h' rest, out = some (h', rest) →
    rest = [] ∧ (∀ e ∈ batch, ∀ pc ∈ h'.procs, pc.pid ≠ e.pid) ∧ Counted h'

/-- All the children are in the table, and none comes twice. -/
def Known (h : Hub D) (batch : List Exit) : Prop :=
  (batch.map Exit.pid).Nodup ∧ ∀ e ∈ batch, e.pid ∈ pids h.procs

variable {notify : Hub D → ℕ → Exit → Hub D} {last : ℤ} {batch rest : List Exit}

omit [Zero D] in
lemma findIdx?_isSome (h : Hub D) (e : Exit) :
    (h.procs.findIdx? fun pc => pc.pid = e.pid).isSome ↔ e.pid ∈ pids h.procs := by
  rw [List.findIdx?_isSome, List.any_eq_true, mem_pids]
  simp [e.positive]

/-- One round of the loop, with a child that is in the table. -/
theorem round (hq : Quiet notify) (ht : Tidy h)
    (hi : h.procs.findIdx? (fun pc => pc.pid = e.pid) = some i) :
    let h₁ := (notify h i e).endProc i e.status
    Tidy h₁ ∧ h₁.running = h.running ∧
      h₁.procs.countP Proc.runs + 1 = h.procs.countP Proc.runs ∧
      ∀ p, p ∈ pids h₁.procs ↔ p ∈ pids h.procs ∧ p ≠ e.pid := by
  have hl := hq h i e
  have hi' := (hl.findIdx?_eq e.pid).trans hi
  obtain ⟨ht₁, hcount, hpids⟩ := (hl.tidy ht).endProc hi'
  obtain ⟨hlt, -, -⟩ := findIdx?_eq_some_iff_getElem.mp hi'
  obtain ⟨pc', -, heq⟩ := endProc_eq (getElem?_eq_getElem hlt) e.status
  refine ⟨ht₁, ?_, hl.countP_eq ▸ hcount, fun p => ?_⟩
  · rw [heq]
    exact hl.running
  · rw [hpids, pids, hl.pids_eq, pids]

omit [Zero D] in
/-- What is left of a batch after its first child, which was in the table. -/
theorem known_cons {h₁ : Hub D} (hmem : e.pid ∈ pids h.procs)
    (hpids : ∀ p, p ∈ pids h₁.procs ↔ p ∈ pids h.procs ∧ p ≠ e.pid) :
    Known h (e :: batch) ↔ Known h₁ batch := by
  simp only [Known, map_cons, nodup_cons, forall_mem_cons, hpids]
  constructor
  · rintro ⟨⟨hnew, hnodup⟩, -, hall⟩
    refine ⟨hnodup, fun e' he' => ⟨hall e' he', fun heq' => hnew ?_⟩⟩
    exact heq' ▸ mem_map_of_mem he'
  · rintro ⟨hnodup, hall⟩
    refine ⟨⟨?_, hnodup⟩, hmem, fun e' he' => (hall e' he').1⟩
    intro hin
    obtain ⟨e', he', heq'⟩ := mem_map.mp hin
    exact (hall e' he').2 heq'

/-- With only known children the loop goes through all of them. -/
theorem checkChildren_of_known (hq : Quiet notify) (ht : Tidy h) (hk : Known h batch) :
    ∀ h' rest, Hub.checkChildren notify last h batch = some (h', rest) →
      rest = [] ∧ Counted h' ∧ ∀ p ∈ pids h'.procs, p ∈ pids h.procs ∧ p ∉ batch.map Exit.pid := by
  induction batch generalizing h with
  | nil =>
    intro h' rest hout
    rw [Hub.checkChildren] at hout
    split at hout
    · cases hout
    · cases hout
      refine ⟨rfl, counted_updateProcCounts h, fun p hp => ⟨?_, not_mem_nil⟩⟩
      rw [procs_updateProcCounts, pids] at hp
      exact ((trimmed_sublist h.procs).map Proc.pid).filter _ |>.subset hp
  | cons e batch ih =>
    intro h' rest hout
    have hmem := hk.2 e mem_cons_self
    obtain ⟨i, hi⟩ := isSome_iff_exists.mp ((findIdx?_isSome h e).mpr hmem)
    simp only [Hub.checkChildren, hi] at hout
    obtain ⟨ht₁, -, -, hpids₁⟩ := round hq ht hi
    obtain ⟨hrest, hcounted, hpids⟩ := ih ht₁ ((known_cons hmem hpids₁).mp hk) h' rest hout
    refine ⟨hrest, hcounted, fun p hp => ?_⟩
    obtain ⟨hp₁, hnot⟩ := hpids p hp
    obtain ⟨hp₀, hne⟩ := (hpids₁ p).mp hp₁
    exact ⟨hp₀, not_mem_cons_of_ne_of_not_mem hne hnot⟩

/-- With an unknown child the loop ends there. If it was the last one, all before it have been
taken note of but the counts are those of before. -/
theorem checkChildren_of_unknown (hq : Quiet notify) (ht : Tidy h) (hk : ¬Known h batch) :
    ∃ h' rest, Hub.checkChildren notify last h batch = some (h', rest) ∧
      h'.running = h.running ∧
      (rest = [] → h'.procs.countP Proc.runs + batch.length ≤ h.procs.countP Proc.runs + 1) := by
  induction batch generalizing h with
  | nil => exact absurd ⟨nodup_nil, fun e he => nomatch he⟩ hk
  | cons e batch ih =>
    cases hi : h.procs.findIdx? fun pc => pc.pid = e.pid with
    | none =>
      refine ⟨h, batch, by simp only [Hub.checkChildren, hi], rfl, ?_⟩
      rintro rfl
      exact le_refl _
    | some i =>
      obtain ⟨ht₁, hrunning, hcount, hpids₁⟩ := round hq ht hi
      have hmem : e.pid ∈ pids h.procs := (findIdx?_isSome h e).mp (by rw [hi]; rfl)
      obtain ⟨h', rest, hout, hrun', hle⟩ := ih ht₁ (mt (known_cons hmem hpids₁).mpr hk)
      refine ⟨h', rest, by simp only [Hub.checkChildren, hi, hout], hrun'.trans hrunning, ?_⟩
      intro hrest
      have := hle hrest
      rw [length_cons]
      omega

lemma checkChildren_unknown (hk : ¬Known h [e]) :
    e.pid ∉ pids h.procs ∧ Hub.checkChildren notify last h [e] = some (h, []) := by
  have hmem : e.pid ∉ pids h.procs := by
    intro hmem
    exact hk ⟨nodup_singleton _, forall_mem_singleton.mpr hmem⟩
  have hi : h.procs.findIdx? (fun pc => pc.pid = e.pid) = none :=
    not_isSome_iff_eq_none.mp (mt (findIdx?_isSome h e).mp hmem)
  exact ⟨hmem, by simp only [Hub.checkChildren, hi]⟩

/-- If all children have been waited for although one of them was unknown, there was no
other. -/
theorem length_of_settles (hq : Quiet notify) (ht : Tidy h) (hk : ¬Known h batch)
    (hs : Settles batch (Hub.checkChildren notify last h batch)) : batch.length = 1 := by
  obtain ⟨h', rest, hout, hrunning, hle⟩ := checkChildren_of_unknown hq ht hk
  obtain ⟨hrest, -, hcounted⟩ := hs h' rest hout
  have hle := hle hrest
  have hcount : h'.procs.countP Proc.runs = h'.running := by
    rw [Counted, recount_eq] at hcounted
    exact congrArg (fun c : ℕ × ℕ × ℕ => c.2.2) hcounted
  have hne : batch ≠ [] := by
    rintro rfl
    exact hk ⟨nodup_nil, fun e he => nomatch he⟩
  have hpos := length_pos_iff.mpr hne
  have := ht.counted
  omega

/-- **`check_children` does what it is for** just if it meets no child that is not in the
table, or if that is the only one and the counts were right before. -/
theorem settles_iff (hq : Quiet notify) (ht : Tidy h) (batch : List Exit) :
    Settles batch (Hub.checkChildren notify last h batch) ↔
      Known h batch ∨ (batch.length = 1 ∧ Counted h) := by
  by_cases hk : Known h batch
  · refine ⟨fun _ => .inl hk, fun _ h' rest hout => ?_⟩
    obtain ⟨hrest, hcounted, hpids⟩ := checkChildren_of_known hq ht hk h' rest hout
    refine ⟨hrest, fun e he pc hpc heq => ?_, hcounted⟩
    exact (hpids e.pid (mem_pids.mpr ⟨e.positive, pc, hpc, heq⟩)).2 (mem_map_of_mem he)
  · rw [or_iff_right hk]
    constructor
    · intro hs
      have hlen := length_of_settles hq ht hk hs
      obtain ⟨e, rfl⟩ := length_eq_one_iff.mp hlen
      exact ⟨hlen, (hs h [] (checkChildren_unknown hk).2).2.2⟩
    · rintro ⟨hlen, hcounted⟩ h' rest hout
      obtain ⟨e, rfl⟩ := length_eq_one_iff.mp hlen
      obtain ⟨hmem, hsame⟩ := checkChildren_unknown hk
      obtain ⟨rfl, rfl⟩ := Prod.mk.inj (Option.mem_unique hout hsame)
      refine ⟨rfl, forall_mem_singleton.mpr fun pc hpc heq => hmem ?_, hcounted⟩
      exact mem_pids.mpr ⟨e.positive, pc, hpc, heq⟩

end

end Minibase.Hubs
