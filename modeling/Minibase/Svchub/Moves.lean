import Minibase.Svchub.System
import Mathlib.Algebra.Order.BigOperators.Group.List
import Mathlib.Algebra.Order.Group.Nat

/-!
# What the hub can do to its table

The results about the table only depend on the name, the process id and the flags of the slots,
and on the children there are: `Svchub.View`. The functions of `svchub_proc.c` make
`Svchub.Move`s on it, one after the other, and leave the rest of the hub alone (`Svchub.Spec`).
Two of the moves are not as they should be – a slot can be taken for a service with no name, and
a slot can keep the id of a process that is gone –, and a `clean` move is none of these. A
`quiet` move does not start a process.
-/

namespace Minibase.Svchub

open List Hub Proc

/-! ### Views -/

/-- What matters of a slot. -/
structure Slot where
  name : List UInt8 := []
  pid : ℕ := 0
  flags : Flags := {}
deriving DecidableEq

/-- The slot has a process, or so it says. -/
def Slot.Live (s : Slot) : Prop := s.pid ≠ 0 ∧ s.flags.status = false
deriving Decidable

@[inherit_doc Slot] def Proc.slot (pc : Proc) : Slot := ⟨pc.name, pc.pid, pc.flags⟩

/-- What matters of the hub. -/
structure View where
  slots : List Slot
  nalive : ℤ
  kids : List Kid
  scrpid : ℤ
deriving DecidableEq

namespace View

variable (v : View)

/-- Another slot in some place. -/
def put (i : ℕ) (s : Slot) : View := { v with slots := v.slots.set i s }

/-- A child is gone. -/
def bury (pid : ℕ) : View := { v with kids := v.kids.filter fun k => k.pid ≠ pid }

/-- A child is there. -/
def bear (k : Kid) : View := { v with kids := k :: v.kids }

end View

@[inherit_doc View] def Hub.view (h : Hub) : View where
  slots := h.procs.map slot
  nalive := h.nalive
  kids := h.kids
  scrpid := h.scrpid

/-- An id that no child has. -/
def Fresh (kids : List Kid) (pid : ℕ) : Prop := pid ≠ 0 ∧ pid ∉ kids.map Kid.pid

/-- One change of the table. -/
inductive Move (clean quiet : Prop) : View → View → Prop
  /-- `grab_proc_slot` takes one more slot into use. -/
  | grow {v : View} : Move clean quiet v { v with slots := v.slots ++ [{}] }
  /-- A process is going to be killed. -/
  | mark {v : View} {i : ℕ} {s : Slot} : v.slots[i]? = some s → s.Live →
      Move clean quiet v (v.put i { s with flags := { s.flags with killed := true } })
  /-- A slot is made ready for another start. -/
  | clear {v : View} {i : ℕ} {s : Slot} : v.slots[i]? = some s → ¬s.Live →
      Move clean quiet v
        (v.put i { s with flags := { s.flags with status := false, killed := false }, pid := 0 })
  /-- A slot is given up. -/
  | wipe {v : View} {i : ℕ} {s : Slot} : v.slots[i]? = some s → ¬s.Live →
      Move clean quiet v (v.put i {})
  /-- A slot is taken for a name. -/
  | claim {v : View} {i : ℕ} {s : Slot} {name : List UInt8} {flags : Flags} :
      v.slots[i]? = some s → s.flags = {} → s.pid = 0 →
      (∀ t ∈ v.slots, t.name = name → name = []) →
      (clean → name ≠ []) → flags.status = false →
      Move clean quiet v (v.put i ⟨name, 0, { flags with inUse := true }⟩)
  /-- A process is started. -/
  | spawn {v : View} {i : ℕ} {s : Slot} {pid : ℕ} : v.slots[i]? = some s → s.pid = 0 →
      s.flags.status = false → s.flags.inUse → Fresh v.kids pid → ¬quiet →
      Move clean quiet v
        { (v.put i { s with pid := pid }).bear ⟨pid, some i⟩ with nalive := v.nalive + 1 }
  /-- The end of a process: its slot is left without one. -/
  | reap {v : View} {i : ℕ} {s s' : Slot} : v.slots[i]? = some s → s.Live →
      v.scrpid ≠ s.pid → ¬s'.Live → (s' = {} ∨
        (s'.name = s.name ∧ s'.flags.inUse = s.flags.inUse)) →
      Move clean quiet v { (v.put i s').bury s.pid with nalive := v.nalive - 1 }
  /-- The end of a process that could not be started again: the slot is left as it is. -/
  | lose {v : View} {i : ℕ} {s : Slot} : v.slots[i]? = some s → s.Live → ¬s.flags.killed →
      ¬clean → Move clean quiet v { v.bury s.pid with nalive := v.nalive - 1 }
  /-- A script is started. -/
  | script {v : View} {pid : ℕ} : v.scrpid ≤ 0 → Fresh v.kids pid →
      Move clean quiet v { v.bear ⟨pid, none⟩ with scrpid := pid }
  /-- The end of the script. -/
  | ended {v : View} {pid : ℕ} : v.scrpid = pid → Move clean quiet v { v.bury pid with scrpid := 0 }
  /-- A script that is not there is forgotten. -/
  | forget {v : View} : v.scrpid.toNat ∉ v.kids.map Kid.pid →
      Move clean quiet v { v with scrpid := 0 }
  /-- The end of a child that no slot knows of. -/
  | orphan {v : View} {pid : ℕ} : v.scrpid ≠ pid → (∀ s ∈ v.slots, s.Live → s.pid ≠ pid) →
      Move clean quiet v (v.bury pid)

/-- Any number of changes. -/
abbrev Moves (clean quiet : Prop) : View → View → Prop := Relation.ReflTransGen (Move clean quiet)

/-- What the changes of the table have nothing to do with. -/
def Hub.frame (h : Hub) : State × Option String × ℕ × Bool × Bool × Bool :=
  (h.state, h.rbmode, h.sigcnt, h.ctlfd, h.alarm, h.reaping)

/-- The table is changed, a record is made of the processes that are started, and the rest
stays as it is. -/
structure Spec (clean quiet : Prop) (h h' : Hub) : Prop where
  moves : Moves clean quiet h.view h'.view
  frame : h'.frame = h.frame
  log : ∀ e ∈ h'.log, e ∈ h.log ∨ (¬quiet ∧ ∃ i, e = .started i)

section Rules

variable {clean quiet : Prop} {h h' h'' : Hub}

lemma Spec.refl : Spec clean quiet h h := ⟨.refl, rfl, fun _ he => .inl he⟩

lemma Spec.trans (h1 : Spec clean quiet h h') (h2 : Spec clean quiet h' h'') :
    Spec clean quiet h h'' where
  moves := h1.moves.trans h2.moves
  frame := h2.frame.trans h1.frame
  log e he := by
    rcases h2.log e he with he | he
    · exact h1.log e he
    · exact .inr he

/-- A change that cannot be seen. -/
theorem Spec.of_view (hv : h'.view = h.view) (hf : h'.frame = h.frame) (hl : h'.log = h.log) :
    Spec clean quiet h h' :=
  ⟨by rw [hv], hf, fun e he => .inl (by rwa [hl] at he)⟩

/-- One move that starts no process. -/
theorem Spec.of_move (hm : Move clean quiet h.view h'.view) (hf : h'.frame = h.frame)
    (hl : h'.log = h.log) : Spec clean quiet h h' :=
  ⟨.single hm, hf, fun e he => .inl (by rwa [hl] at he)⟩

end Rules

/-! ### Slots of the hub and of its view -/

section Slots

variable {h : Hub} {i : ℕ} {pc : Proc} {f : Proc → Proc}

section

variable (hi : h.procs[i]? = some pc)
include hi

lemma view_slot : h.view.slots[i]? = some pc.slot := by
  simp [view, hi]

lemma proc_of_getElem? : h.proc i = pc := by
  simp [proc, hi]

lemma setProc_getElem? : (h.setProc i f).procs[i]? = some (f pc) := by
  simp [setProc, hi]

lemma setProc_view : (h.setProc i f).view = h.view.put i (f pc).slot := by
  have hmod : h.procs.modify i f = h.procs.set i (f pc) := by
    apply ext_getElem?
    intro j
    rw [getElem?_modify, getElem?_set]
    by_cases hij : i = j
    · subst hij
      obtain ⟨hlt, hget⟩ := List.getElem?_eq_some_iff.mp hi
      simp [hlt, hget]
    · simp [hij]
  simp [view, setProc, View.put, hmod, map_set]

end

/-- A change of the parts of a slot that do not matter. -/
theorem setProc_view_of_slot (hf : ∀ pc, (f pc).slot = pc.slot) :
    (h.setProc i f).view = h.view := by
  have hmap : (h.procs.modify i f).map slot = h.procs.map slot := by
    apply ext_getElem?
    intro j
    rw [getElem?_map, getElem?_map, getElem?_modify]
    by_cases hij : i = j
    · subst hij
      cases h.procs[i]? <;> simp [hf]
    · simp [hij]
  simp [view, setProc, hmap]

lemma setProc_spec_of_slot {clean quiet : Prop} (hf : ∀ pc, (f pc).slot = pc.slot) :
    Spec clean quiet h (h.setProc i f) :=
  .of_view (setProc_view_of_slot hf) rfl rfl

end Slots

/-! ### Starting -/

/-- The system calls of `spawn_path` all go well. -/
def Answers.runs (a : Answers) (pass : Bool) : Prop :=
  a.access = 0 ∧ (pass ∨ a.pipe = 0) ∧ a.fork.isSome
deriving Decidable

lemma freshPid_fresh (kids : List Kid) (next : ℕ) : Fresh kids (freshPid kids next) := by
  rw [freshPid]
  split
  · rename_i hnext
    exact hnext
  · refine ⟨by omega, fun hmem => ?_⟩
    have hle := le_sum_of_mem hmem
    omega

section Start

variable {h : Hub} {a : Answers} {i : ℕ} {pc : Proc}

/-- **What `spawn_path` does**: nothing, or it starts a process. -/
theorem spawnPath_cases (hi : h.procs[i]? = some pc) :
    (¬a.runs pc.flags.pass ∧ (h.spawnPath a i).2 = h) ∨
    (a.runs pc.flags.pass ∧ (h.spawnPath a i).1 = 0 ∧ ∃ pid, Fresh h.kids pid ∧
      (h.spawnPath a i).2.view =
        { (h.view.put i { pc.slot with pid := pid }).bear ⟨pid, some i⟩ with
          nalive := h.nalive + 1 } ∧
      (h.spawnPath a i).2.frame = h.frame ∧
      (h.spawnPath a i).2.log = h.log ++ [.started i]) := by
  rw [spawnPath, proc_of_getElem? hi]
  by_cases hacc : a.access = 0
  swap
  · exact .inl ⟨fun hr => hacc hr.1, by rw [if_pos hacc]⟩
  rw [if_neg (not_not.mpr hacc)]
  by_cases hpipe : pc.flags.pass = true ∨ a.pipe = 0
  swap
  · have hp : (!pc.flags.pass) = true ∧ a.pipe ≠ 0 := by
      simpa [not_or] using hpipe
    exact .inl ⟨fun hr => hpipe hr.2.1, by rw [if_pos hp]⟩
  have hp : ¬((!pc.flags.pass) = true ∧ a.pipe ≠ 0) := by
    rcases hpipe with hp | hp <;> simp [hp]
  rw [if_neg hp]
  rcases hfork : a.fork with _ | next
  · exact .inl ⟨fun hr => by simp [Answers.runs, hfork] at hr, rfl⟩
  · refine .inr ⟨⟨hacc, hpipe, by simp [hfork]⟩, rfl, freshPid h.kids next,
      freshPid_fresh _ _, ?_, rfl, rfl⟩
    have hv := setProc_view (f := fun pc => { pc with
      pid := freshPid h.kids next, fd := if pc.flags.pass then pc.fd else true }) hi
    exact congrArg (fun v : View =>
      { v.bear ⟨freshPid h.kids next, some i⟩ with nalive := h.nalive + 1 }) hv

/-- Slots that are not in use are empty. -/
def View.Neat (v : View) : Prop := ∀ s ∈ v.slots, s.flags.inUse ∨ s = {}

variable {clean quiet : Prop}

lemma spawnAndTime_spec (hi : h.procs[i]? = some pc) (hpid : pc.pid = 0)
    (hstatus : pc.flags.status = false) (huse : pc.flags.inUse)
    (hq : quiet → ¬a.runs pc.flags.pass) : Spec clean quiet h (h.spawnAndTime a i).2 := by
  have hspawn : Spec clean quiet h (h.spawnProc a i).2 := by
    rcases spawnPath_cases (a := a) hi with ⟨-, heq⟩ | ⟨hrun, -, pid, hfresh, hv, hf, hl⟩
    · rw [spawnProc, heq]
      exact .refl
    · have hnq : ¬quiet := fun hqq => hq hqq hrun
      refine ⟨.single ?_, hf, fun e he => ?_⟩
      · rw [spawnProc, hv]
        exact .spawn (view_slot hi) hpid hstatus huse hfresh hnq
      · rw [spawnProc, hl, mem_append] at he
        rcases he with he | he
        · exact .inl he
        · exact .inr ⟨hnq, i, mem_singleton.mp he⟩
  rw [spawnAndTime]
  dsimp only
  split
  · exact hspawn
  · exact hspawn.trans (setProc_spec_of_slot fun _ => rfl)

/-- `flush_ring_buf` changes nothing that matters. -/
theorem flushRingBuf_spec : Spec clean quiet h (h.flushRingBuf a i).2 := by
  rw [flushRingBuf]
  split_ifs
  · exact .refl
  · exact setProc_spec_of_slot fun _ => rfl
  · exact setProc_spec_of_slot fun _ => rfl

lemma flushRingBuf_slot (hi : h.procs[i]? = some pc) :
    ∃ pc', (h.flushRingBuf a i).2.procs[i]? = some pc' ∧ pc'.slot = pc.slot := by
  rw [flushRingBuf]
  split_ifs
  · exact ⟨pc, hi, rfl⟩
  · exact ⟨_, setProc_getElem? hi, rfl⟩
  · exact ⟨_, setProc_getElem? hi, rfl⟩

lemma flushRingBuf_neg (hi : h.procs[i]? = some pc) (hbuf : pc.buf) :
    (h.flushRingBuf a i).1 < 0 ↔ a.munmap ≠ 0 := by
  rw [flushRingBuf, proc_of_getElem? hi, if_neg (by simp [hbuf])]
  split_ifs with hm
  · exact ⟨fun _ => hm, fun _ => by simp; omega⟩
  · exact ⟨fun hlt => absurd hlt (by simp), fun hn => absurd hn hm⟩

/-- A slot whose process does not run can be started again. -/
def Proc.restartable (pc : Proc) (a : Answers) : Prop :=
  (pc.buf → a.munmap = 0) ∧ a.runs pc.flags.pass
deriving Decidable

lemma restartIdle_spec (hi : h.procs[i]? = some pc) (hpid : pc.pid = 0)
    (hstatus : pc.flags.status = false) (huse : pc.flags.inUse)
    (hq : quiet → ¬pc.restartable a) : Spec clean quiet h (h.restartIdle a i).2 := by
  rw [restartIdle, proc_of_getElem? hi]
  by_cases hbuf : pc.buf
  · rw [if_pos hbuf]
    obtain ⟨pc', hi', hslot⟩ := flushRingBuf_slot (a := a) hi
    have hflags : pc'.flags = pc.flags := congrArg Slot.flags hslot
    have hpid' : pc'.pid = pc.pid := congrArg Slot.pid hslot
    dsimp only
    split
    · exact flushRingBuf_spec
    · rename_i hret
      have hm : a.munmap = 0 := not_not.mp fun hm => hret ((flushRingBuf_neg hi hbuf).mpr hm)
      refine flushRingBuf_spec.trans (spawnAndTime_spec hi' (hpid'.trans hpid)
        (by rw [hflags]; exact hstatus) (by rw [hflags]; exact huse) fun hqq hrun => ?_)
      exact hq hqq ⟨fun _ => hm, by rwa [hflags] at hrun⟩
  · rw [if_neg hbuf]
    exact spawnAndTime_spec hi hpid hstatus huse fun hqq hrun =>
      hq hqq ⟨fun hb => absurd hb hbuf, hrun⟩

lemma restartProc_spec {flags : Flags} (hi : h.procs[i]? = some pc) (huse : pc.flags.inUse)
    (hq : quiet → ¬(flags = {} ∧ ¬pc.slot.Live ∧ pc.restartable a)) :
    Spec clean quiet h (h.restartProc a i flags).2 := by
  rw [restartProc, proc_of_getElem? hi]
  by_cases hflags : flags = {}
  swap
  · rw [if_pos hflags]
    exact .refl
  rw [if_neg (not_not.mpr hflags)]
  by_cases hstatus : pc.flags.status
  · rw [if_pos hstatus]
    have hlive : ¬pc.slot.Live := fun hl => by simp [Slot.Live, slot, hstatus] at hl
    refine Spec.trans ?_ (restartIdle_spec (setProc_getElem? hi) rfl rfl huse ?_)
    · refine .of_move ?_ rfl rfl
      rw [setProc_view hi]
      exact .clear (view_slot hi) hlive
    · exact fun hqq hr => hq hqq ⟨hflags, hlive, hr⟩
  rw [if_neg hstatus]
  by_cases hpid : pc.pid = 0
  · rw [if_neg (not_not.mpr hpid)]
    exact restartIdle_spec hi hpid (by simpa using hstatus) huse fun hqq hr =>
      hq hqq ⟨hflags, fun hl => hl.1 hpid, hr⟩
  · rw [if_pos hpid]
    exact .refl

end Start

section Names

variable {h : Hub} {a : Answers} {i : ℕ} {pc : Proc} {name : List UInt8} {clean quiet : Prop}

/-- The slot that `find_by_name` finds has the name, which is not empty. -/
theorem findByName_some (hfind : h.findByName name = some i) :
    name ≠ [] ∧ ∃ pc, h.procs[i]? = some pc ∧ pc.name = name := by
  rw [findByName] at hfind
  split at hfind
  · cases hfind
  · rename_i hname
    obtain ⟨hlt, hp, -⟩ := findIdx?_eq_some_iff_getElem.mp hfind
    exact ⟨hname, h.procs[i], getElem?_eq_getElem hlt, by simpa using hp⟩

/-- It finds every name that is there, except the empty one. -/
theorem findByName_none (hfind : h.findByName name = none) :
    ∀ t ∈ h.view.slots, t.name = name → name = [] := by
  rw [findByName] at hfind
  split at hfind
  · rename_i hname
    exact fun _ _ _ => hname
  · intro t ht htn
    obtain ⟨pc, hpc, rfl⟩ := mem_map.mp ht
    have hno : ¬pc.name = name := by simpa using findIdx?_eq_none_iff.mp hfind pc hpc
    exact absurd htn hno

/-- A slot that has a name is in use. -/
theorem inUse_of_name (hn : h.view.Neat) (hi : h.procs[i]? = some pc) (hname : pc.name ≠ []) :
    pc.flags.inUse := by
  have hmem : pc.slot ∈ h.view.slots := mem_of_getElem? (view_slot hi)
  rcases hn _ hmem with huse | hzero
  · exact huse
  · exact absurd (congrArg Slot.name hzero) hname

/-- The slot that `grab_proc_slot` returns is free; there may be one more than before. -/
theorem grabProcSlot_spec (hn : h.view.Neat) {h' : Hub} {r : Option ℕ}
    (hgrab : h.grabProcSlot = (r, h')) :
    Spec clean quiet h h' ∧ (∀ t ∈ h'.view.slots, t ∈ h.view.slots ∨ t = {}) ∧
      ∀ i, r = some i → ∃ pc, h'.procs[i]? = some pc ∧ pc.slot = {} := by
  rw [grabProcSlot] at hgrab
  split at hgrab
  · rename_i i hidx
    obtain ⟨rfl, rfl⟩ := Prod.mk.inj hgrab
    obtain ⟨hlt, hp, -⟩ := findIdx?_eq_some_iff_getElem.mp hidx
    refine ⟨.refl, fun t ht => .inl ht, ?_⟩
    rintro _ ⟨⟩
    have hi : h.procs[i]? = some h.procs[i] := getElem?_eq_getElem hlt
    refine ⟨_, hi, ?_⟩
    have hmem : h.procs[i].slot ∈ h.view.slots := mem_of_getElem? (view_slot hi)
    have hflags : h.procs[i].flags = {} := by simpa using hp
    rcases hn _ hmem with huse | hzero
    · exact absurd huse (by simp [slot, hflags])
    · exact hzero
  · split at hgrab
    · obtain ⟨rfl, rfl⟩ := Prod.mk.inj hgrab
      exact ⟨.refl, fun t ht => .inl ht, (fun i hi => nomatch hi)⟩
    · obtain ⟨rfl, rfl⟩ := Prod.mk.inj hgrab
      have hview : view { h with procs := h.procs ++ [{}] } =
          { h.view with slots := h.view.slots ++ [{}] } := by
        simp [view, slot]
      refine ⟨.of_move (by rw [hview]; exact .grow) rfl rfl, ?_, ?_⟩
      · intro t ht
        rw [hview, mem_append, mem_singleton] at ht
        exact ht
      · rintro _ ⟨⟩
        exact ⟨{}, by simp, rfl⟩

/-- There is a slot to be had. -/
def Hub.hasSlot (h : Hub) : Prop :=
  (h.procs.findIdx? fun pc => pc.flags = {}).isSome ∨ h.procs.length < NPROCS
deriving Decidable

lemma hasSlot_of_grab {h' : Hub} (hgrab : h.grabProcSlot = (some i, h')) : h.hasSlot := by
  rw [grabProcSlot] at hgrab
  split at hgrab
  · rename_i hidx
    exact .inl (by simp [hidx])
  · split at hgrab
    · cases hgrab
    · exact .inr (by omega)

/-- The request gets as far as starting a process. -/
def Hub.startable (h : Hub) (a : Answers) (name : List UInt8) (flags : Flags) : Prop :=
  match h.findByName name with
  | some i => flags = {} ∧ ¬(h.proc i).slot.Live ∧ (h.proc i).restartable a
  | none => h.hasSlot ∧ name.length ≤ NAMELEN ∧ a.runs flags.pass

instance (h : Hub) (a : Answers) (name : List UInt8) (flags : Flags) :
    Decidable (h.startable a name flags) :=
  match hfind : h.findByName name with
  | some i =>
    decidable_of_iff (flags = {} ∧ ¬(h.proc i).slot.Live ∧ (h.proc i).restartable a)
      (by rw [startable, hfind])
  | none =>
    decidable_of_iff (h.hasSlot ∧ name.length ≤ NAMELEN ∧ a.runs flags.pass)
      (by rw [startable, hfind])

/-- The request is for a service without a name, and gets as far as a process to start. -/
def Hub.nameless (h : Hub) (a : Answers) (name : List UInt8) (flags : Flags) : Prop :=
  name = [] ∧ h.hasSlot ∧ a.access = 0 ∧ (flags.pass ∨ a.pipe = 0)
deriving Decidable

lemma spawnPath_nonneg (hi : h.procs[i]? = some pc) (hret : ¬(h.spawnPath a i).1 < 0) :
    a.access = 0 ∧ (pc.flags.pass ∨ a.pipe = 0) := by
  rw [spawnPath, proc_of_getElem? hi] at hret
  by_cases hacc : a.access = 0
  swap
  · rw [if_pos hacc] at hret
    simp at hret
    omega
  rw [if_neg (not_not.mpr hacc)] at hret
  refine ⟨hacc, ?_⟩
  by_contra hpipe
  have hp : (!pc.flags.pass) = true ∧ a.pipe ≠ 0 := by simpa [not_or] using hpipe
  rw [if_pos hp] at hret
  simp at hret
  exact hp.2 hret

/-- What `start_proc` returns with an error leaves a free slot free. -/
theorem wipe_spec (hi : h.procs[i]? = some pc) (hlive : ¬pc.slot.Live) :
    Spec clean quiet h (h.wipeProcSlot i) :=
  .of_move (by rw [wipeProcSlot, setProc_view hi]; exact .wipe (view_slot hi) hlive) rfl rfl

lemma setProc_wipe {f : Proc → Proc} : (h.setProc i f).wipeProcSlot i = h.wipeProcSlot i := by
  have hmod : (h.procs.modify i f).modify i (fun _ => {}) = h.procs.modify i fun _ => {} := by
    apply ext_getElem?
    intro j
    rw [getElem?_modify, getElem?_modify, getElem?_modify]
    by_cases hij : i = j
    · simp [hij, Function.comp_def]
    · simp [hij]
  simp [wipeProcSlot, setProc, hmod]

lemma wipe_wipe : (h.wipeProcSlot i).wipeProcSlot i = h.wipeProcSlot i := setProc_wipe

lemma spawnAndTime_neg (hi : h.procs[i]? = some pc) (hret : (h.spawnAndTime a i).1 < 0) :
    (h.spawnAndTime a i).2 = h := by
  rw [spawnAndTime] at hret ⊢
  dsimp only at hret ⊢
  split at hret
  · rename_i hneg
    rw [if_pos hneg]
    rcases spawnPath_cases (a := a) hi with ⟨-, heq⟩ | ⟨-, hzero, -⟩
    · exact heq
    · rw [spawnProc, hzero] at hneg
      exact absurd hneg (by simp)
  · rename_i hneg
    exact absurd hret hneg

lemma spawnAndTime_nonneg (hi : h.procs[i]? = some pc)
    (hret : ¬(h.spawnAndTime a i).1 < 0) : a.access = 0 ∧ (pc.flags.pass ∨ a.pipe = 0) := by
  refine spawnPath_nonneg hi fun hneg => hret ?_
  have hneg' : (h.spawnProc a i).1 < 0 := hneg
  rw [spawnAndTime]
  dsimp only
  rw [if_pos hneg']
  exact hneg

/-- A slot that is free is taken, or stays free. -/
theorem prepAndStart_spec {flags : Flags} (hi : h.procs[i]? = some pc) (hfree : pc.slot = {})
    (hnew : ∀ t ∈ h.view.slots, t.name = name → name = []) (hstatus : flags.status = false)
    (hc : clean → ¬(name = [] ∧ a.access = 0 ∧ (flags.pass ∨ a.pipe = 0)))
    (hq : quiet → ¬(name.length ≤ NAMELEN ∧ a.runs flags.pass)) :
    Spec clean quiet h (if (h.prepAndStart a i name flags).1 < 0 then
        (h.prepAndStart a i name flags).2.wipeProcSlot i
        else (h.prepAndStart a i name flags).2) := by
  have hdead : ¬pc.slot.Live := fun hl => by simp [Slot.Live, hfree] at hl
  rw [prepAndStart]
  by_cases hlen : NAMELEN < name.length
  · have hneg : -ENAMETOOLONG < 0 := by decide
    rw [if_pos hlen, if_pos hneg]
    show Spec clean quiet h ((h.wipeProcSlot i).wipeProcSlot i)
    rw [wipe_wipe]
    exact wipe_spec hi hdead
  rw [if_neg hlen]
  -- the slot once its name has been written to it
  set pc' : Proc := { flags := { flags with inUse := true }, name := name } with hpc'
  set h' := (h.wipeProcSlot i).setProc i fun pc =>
    { pc with flags := { flags with inUse := true }, name := name } with hh'
  have hi' : h'.procs[i]? = some pc' := setProc_getElem? (setProc_getElem? hi)
  split
  · rename_i hret
    rw [spawnAndTime_neg hi' hret, hh', setProc_wipe, wipe_wipe]
    exact wipe_spec hi hdead
  · rename_i hret
    have hview : h'.view = h.view.put i ⟨name, 0, { flags with inUse := true }⟩ := by
      rw [hh', wipeProcSlot, setProc_view (setProc_getElem? hi), setProc_view hi]
      simp [View.put, slot]
    have hclaim : Spec clean quiet h h' := by
      refine .of_move ?_ rfl rfl
      rw [hview]
      exact .claim (view_slot hi) (congrArg Slot.flags hfree) (congrArg Slot.pid hfree) hnew
        (fun hcl hname => hc hcl ⟨hname, spawnAndTime_nonneg hi' hret⟩) hstatus
    exact hclaim.trans (spawnAndTime_spec hi' rfl hstatus rfl fun hqq hrun =>
      hq hqq ⟨by omega, hrun⟩)

/-- **`start_proc`**, for a request whose flags say nothing about a status. -/
theorem startProc_spec {flags : Flags} (hn : h.view.Neat) (hstatus : flags.status = false)
    (hc : clean → ¬h.nameless a name flags) (hq : quiet → ¬h.startable a name flags) :
    Spec clean quiet h (h.startProc a name flags).2 := by
  rw [startProc]
  rw [startable] at hq
  rcases hfind : h.findByName name with _ | i
  · rw [hfind] at hq
    have hnew := findByName_none hfind
    rcases hgrab : h.grabProcSlot with ⟨_ | i, h'⟩
    · exact (grabProcSlot_spec hn hgrab).1
    · obtain ⟨hspec, hslots, hfree⟩ : Spec clean quiet h h' ∧ _ ∧ _ := grabProcSlot_spec hn hgrab
      obtain ⟨pc, hi, hslot⟩ := hfree i rfl
      have hnew' : ∀ t ∈ h'.view.slots, t.name = name → name = [] := by
        intro t ht htn
        rcases hslots t ht with ht | rfl
        · exact hnew t ht htn
        · exact htn.symm
      have hstart : Spec clean quiet h' _ := prepAndStart_spec (a := a) hi hslot hnew'
        hstatus (fun hcl hbad => hc hcl ⟨hbad.1, hasSlot_of_grab hgrab, hbad.2⟩)
        fun hqq hrun => hq hqq ⟨hasSlot_of_grab hgrab, hrun⟩
      dsimp only
      split at hstart
      · rename_i hret
        rw [if_pos hret]
        exact hspec.trans hstart
      · rename_i hret
        rw [if_neg hret]
        exact hspec.trans hstart
  · rw [hfind] at hq
    obtain ⟨hname, pc, hi, hpc⟩ := findByName_some hfind
    refine restartProc_spec hi (inUse_of_name hn hi (by rwa [hpc])) fun hqq hr => hq hqq ?_
    show flags = {} ∧ ¬(h.proc i).slot.Live ∧ (h.proc i).restartable a
    rwa [proc_of_getElem? hi]

end Names

/-! ### Stopping, removing, reporting -/

section Rest

variable {h : Hub} {a : Answers} {i : ℕ} {pc : Proc} {name : List UInt8} {clean quiet : Prop}

lemma stopProc_spec : Spec clean quiet h (h.stopProc a name).2 := by
  rw [stopProc]
  rcases hfind : h.findByName name with _ | i
  · exact .refl
  · obtain ⟨-, pc, hi, -⟩ := findByName_some hfind
    simp only [proc_of_getElem? hi]
    by_cases hidle : pc.flags.status = true ∨ pc.pid = 0
    · rw [if_pos hidle]
      exact .refl
    rw [if_neg hidle]
    have hmark : Spec clean quiet h
        (h.setProc i fun pc => { pc with flags := { pc.flags with killed := true } }) := by
      refine .of_move ?_ rfl rfl
      rw [setProc_view hi]
      refine .mark (view_slot hi) ⟨fun hp => hidle (.inr hp), ?_⟩
      exact Bool.eq_false_iff.mpr fun hs => hidle (.inl hs)
    split <;> exact hmark

lemma flushProc_spec : Spec clean quiet h (h.flushProc a name).2 := by
  rw [flushProc]
  split
  · exact .refl
  · exact flushRingBuf_spec

lemma removeProc_spec : Spec clean quiet h (h.removeProc a name).2 := by
  rw [removeProc]
  rcases hfind : h.findByName name with _ | i
  · exact .refl
  · obtain ⟨-, pc, hi, -⟩ := findByName_some hfind
    simp only [proc_of_getElem? hi]
    by_cases hbusy : pc.pid ≠ 0 ∧ (!pc.flags.status) = true
    · rw [if_pos hbusy]
      exact .refl
    rw [if_neg hbusy]
    obtain ⟨pc', hi', hslot⟩ := flushRingBuf_slot (a := a) hi
    split
    · exact flushRingBuf_spec
    · refine flushRingBuf_spec.trans (wipe_spec hi' ?_)
      rw [hslot]
      exact fun hl => hbusy ⟨hl.1, by simpa [slot] using hl.2⟩

lemma killProc_spec : Spec clean quiet h (h.killProc a name).2 := by
  rw [killProc]
  rcases h.findByName name with _ | i
  · exact .refl
  · dsimp only
    split_ifs <;> exact .refl

lemma cmdStop_spec {conn : ℕ} : Spec clean quiet h (h.cmdStop a conn name).2 := by
  rw [cmdStop]
  dsimp only
  split
  · exact stopProc_spec
  · exact stopProc_spec.trans (.of_view rfl rfl rfl)

lemma closeConn_spec {conn : ℕ} : Spec clean quiet h (h.closeConn conn) := .of_view rfl rfl rfl

lemma notifyDead_spec {pid : ℕ} : Spec clean quiet h (h.notifyDead a pid) := by
  rw [notifyDead]
  generalize range h.conns.length = l
  induction l generalizing h with
  | nil => exact .refl
  | cons j l ih =>
    refine Spec.trans ?_ (ih (h := _))
    dsimp only
    split_ifs
    · rw [notify]
      split_ifs
      · exact closeConn_spec
      · exact .refl
    · exact .refl

lemma checkProc_spec {mapped : Bool} {got : Option ℕ} :
    Spec clean quiet h (h.checkProc i mapped got) := by
  rw [checkProc]
  split_ifs
  · exact setProc_spec_of_slot fun _ => rfl
  · have hmap : Spec clean quiet h
        (h.setProc i fun pc => if pc.buf then pc else { pc with buf := true, ptr := 0 }) := by
      refine setProc_spec_of_slot fun pc => ?_
      split_ifs <;> rfl
    rcases got with _ | n
    · exact hmap.trans (setProc_spec_of_slot fun _ => rfl)
    · exact hmap.trans (setProc_spec_of_slot fun _ => rfl)

/-- A command that is not about the hub as a whole. -/
theorem named_spec {nm : Option Name} {f : List UInt8 → ℤ × Hub}
    (hf : ∀ n, nm = some n → Spec clean quiet h (f n.chars).2) :
    Spec clean quiet h (h.named nm f).2 := by
  rcases nm with _ | n
  · exact .refl
  · exact hf n rfl

lemma report_spec : Spec clean quiet h (h.report name).2 := by
  rw [report]
  split <;> exact .refl

/-! ### The end of a process -/

/-- The service is going to be started again: it has run for long, and is neither being killed
nor to be run only once. -/
def Hub.respawns (h : Hub) (a : Answers) (i : ℕ) : Prop :=
  ¬(h.proc i).flags.killed ∧ ¬(h.proc i).flags.once ∧ h.ranLongEnough a i
deriving Decidable

/-- All goes well, except that there is no process to be had. -/
def Answers.forkless (a : Answers) (pass : Bool) : Prop :=
  a.access = 0 ∧ (pass ∨ a.pipe = 0) ∧ a.fork = none
deriving Decidable

/-- The hub once `waitpid` has returned the process of a slot. -/
def Hub.bereft (h : Hub) (pid : ℕ) : Hub := { h with kids := h.kids.filter fun k => k.pid ≠ pid }

/-- A slot without its process, as the end of `proc_died` leaves it. -/
theorem reap_spec {f : Proc → Proc} (hi : h.procs[i]? = some pc) (hlive : pc.slot.Live)
    (hscr : h.scrpid ≠ pc.pid) (hdead : ¬(f pc).slot.Live)
    (hslot : (f pc).slot = {} ∨ ((f pc).name = pc.name ∧ (f pc).flags.inUse = pc.flags.inUse)) :
    Spec clean quiet h ({ h.bereft pc.pid with nalive := h.nalive - 1 }.setProc i f) := by
  refine .of_move ?_ rfl rfl
  rw [setProc_view (h := { h.bereft pc.pid with nalive := h.nalive - 1 }) hi]
  exact .reap (view_slot hi) hlive hscr hdead hslot

lemma setProc_setProc {f g : Proc → Proc} :
    (h.setProc i f).setProc i g = h.setProc i fun pc => g (f pc) := by
  have hmod : (h.procs.modify i f).modify i g = h.procs.modify i fun pc => g (f pc) := by
    apply ext_getElem?
    intro j
    rw [getElem?_modify, getElem?_modify, getElem?_modify]
    by_cases hij : i = j
    · simp [hij, Function.comp_def]
    · simp [hij]
  simp [setProc, hmod]

lemma flush_wipe : (h.flushRingBuf a i).2.wipeProcSlot i = h.wipeProcSlot i := by
  rw [flushRingBuf]
  split_ifs
  · rfl
  · exact setProc_wipe
  · exact setProc_wipe

/-- The hub as `proc_died` finds the slot: the child is gone and no longer counted, and there
is no pipe. -/
def Hub.dying (h : Hub) (pid i : ℕ) : Hub :=
  { h.bereft pid with nalive := h.nalive - 1 }.closeProc i

lemma dying_view {pid : ℕ} :
    (h.dying pid i).view = { h.view.bury pid with nalive := h.nalive - 1 } :=
  setProc_view_of_slot (h := { h.bereft pid with nalive := h.nalive - 1 }) fun _ => rfl

section Dying

variable {status : ℕ} (hi : h.procs[i]? = some pc) (hlive : pc.slot.Live)
  (hscr : h.scrpid ≠ pc.pid)

include hi

lemma dying_getElem? : (h.dying pc.pid i).procs[i]? = some { pc with fd := false } :=
  setProc_getElem? (h := { h.bereft pc.pid with nalive := h.nalive - 1 }) hi

include hlive hscr

/-- Whatever way the slot is left without a process. -/
theorem dying_spec {f : Proc → Proc} (hdead : ¬(f { pc with fd := false }).slot.Live)
    (hname : (f { pc with fd := false }).name = pc.name)
    (huse : (f { pc with fd := false }).flags.inUse = pc.flags.inUse) :
    Spec clean quiet h ((h.dying pc.pid i).setProc i f) := by
  rw [dying, closeProc, setProc_setProc]
  exact reap_spec hi hlive hscr hdead (.inr ⟨hname, huse⟩)

lemma dying_died_spec {g : Proc → Proc} (hg : ∀ pc, (g pc).slot = pc.slot) :
    Spec clean quiet h (((h.dying pc.pid i).setProc i g).markDied i status) := by
  rw [markDied, setProc_setProc]
  refine dying_spec hi hlive hscr (fun hl => by simp [Slot.Live, slot] at hl) ?_ ?_
  · exact congrArg Slot.name (hg { pc with fd := false })
  · exact congrArg (fun s => s.flags.inUse) (hg { pc with fd := false })

/-- The slot is emptied, and then filled again. -/
theorem reborn_moves {pid : ℕ} (huse : pc.flags.inUse) (hfresh : Fresh (h.bereft pc.pid).kids pid)
    (hnq : ¬quiet) :
    Moves clean quiet h.view
      { ((h.dying pc.pid i).view.put i { pc.slot with pid := pid }).bear ⟨pid, some i⟩ with
        nalive := h.nalive - 1 + 1 } := by
  have hlt : i < h.procs.length := (List.getElem?_eq_some_iff.mp hi).1
  set v : View := { (h.view.put i { pc.slot with pid := 0 }).bury pc.slot.pid with
    nalive := h.view.nalive - 1 } with hv
  have hreap : Move clean quiet h.view v :=
    .reap (view_slot hi) hlive hscr (fun hl => hl.1 rfl) (.inr ⟨rfl, rfl⟩)
  have hslot : v.slots[i]? = some { pc.slot with pid := 0 } := by
    simp [hv, View.put, View.bury, view, hlt]
  have hspawn := @Move.spawn clean quiet v i { pc.slot with pid := 0 } pid hslot rfl hlive.2 huse
    hfresh hnq
  refine (Relation.ReflTransGen.single hreap).tail ?_
  rw [dying_view]
  rw [hv] at hspawn ⊢
  simp only [View.put, View.bear, View.bury, set_set] at hspawn ⊢
  exact hspawn

/-- A service that is started again, if it has run for long. -/
theorem respawn_spec (hn : h.view.Neat) (hkill : ¬pc.flags.killed) (honce : ¬pc.flags.once)
    (hc : clean → ¬(h.respawns a i ∧ a.forkless pc.flags.pass))
    (hq : quiet → ¬(h.respawns a i ∧ a.runs pc.flags.pass)) :
    Spec clean quiet h ((h.dying pc.pid i).respawn a i status) := by
  have hlong : (h.dying pc.pid i).ranLongEnough a i = h.ranLongEnough a i := by
    rw [ranLongEnough, proc_of_getElem? (dying_getElem? hi), ranLongEnough,
      proc_of_getElem? hi]
  rw [respawn, hlong]
  by_cases hl : h.ranLongEnough a i = true
  swap
  · rw [if_pos (by simpa using hl)]
    exact dying_died_spec hi hlive hscr fun _ => rfl
  rw [if_neg (by simpa using hl)]
  have hresp : h.respawns a i := by
    rw [respawns, proc_of_getElem? hi]
    exact ⟨hkill, honce, hl⟩
  have hi2 : ((h.dying pc.pid i).updateProcTime a i).procs[i]? =
      some { pc with fd := false, time := a.time % 2 ^ 32 } :=
    setProc_getElem? (dying_getElem? hi)
  have hview2 : ((h.dying pc.pid i).updateProcTime a i).view = (h.dying pc.pid i).view :=
    setProc_view_of_slot fun _ => rfl
  dsimp only
  rcases spawnPath_cases (a := a) hi2 with ⟨hno, heq⟩ | ⟨hrun, hzero, pid, hfresh, hv, hf, hlog⟩
  · split
    · rw [spawnProc, heq]
      exact dying_died_spec hi hlive hscr fun _ => rfl
    · rename_i hret
      have hok := spawnPath_nonneg hi2 hret
      have hfork : a.fork = none := by
        rcases hfk : a.fork with _ | next
        · rfl
        · exact absurd ⟨hok.1, hok.2, by simp [hfk]⟩ hno
      rw [spawnProc, heq]
      refine .of_move ?_ rfl rfl
      rw [hview2, dying_view]
      exact .lose (view_slot hi) hlive hkill fun hcl => hc hcl ⟨hresp, hok.1, hok.2, hfork⟩
  · have hnq : ¬quiet := fun hqq => hq hqq ⟨hresp, hrun⟩
    have huse : pc.flags.inUse := by
      rcases hn _ (mem_of_getElem? (view_slot hi)) with huse | hzero'
      · exact huse
      · exact absurd (congrArg Slot.pid hzero') hlive.1
    have hret : ¬(((h.dying pc.pid i).updateProcTime a i).spawnProc a i).1 < 0 := by
      rw [spawnProc, hzero]
      simp
    rw [if_neg hret, spawnProc]
    refine ⟨?_, hf, fun e he => ?_⟩
    · rw [hv, hview2]
      exact reborn_moves hi hlive hscr huse hfresh hnq
    · rw [hlog, mem_append] at he
      rcases he with he | he
      · exact .inl he
      · exact .inr ⟨hnq, i, mem_singleton.mp he⟩

/-- **The end of a process** that a slot knows of. -/
theorem procDied_spec (hn : h.view.Neat)
    (hc : clean → ¬(h.respawns a i ∧ a.forkless pc.flags.pass))
    (hq : quiet → ¬(h.respawns a i ∧ a.runs pc.flags.pass)) :
    Spec clean quiet h ((h.bereft pc.pid).procDied a i status) := by
  have hproc : (h.dying pc.pid i).proc i = { pc with fd := false } :=
    proc_of_getElem? (dying_getElem? hi)
  show Spec clean quiet h (if ((h.dying pc.pid i).proc i).flags.killed then
      ((h.dying pc.pid i).markStopped i).notifyDead a _
    else if ((h.dying pc.pid i).proc i).flags.once ∧ status = 0 then
      ((h.dying pc.pid i).flushRingBuf a i).2.wipeProcSlot i
    else if ((h.dying pc.pid i).proc i).flags.once then (h.dying pc.pid i).markDied i status
    else (h.dying pc.pid i).respawn a i status)
  simp only [hproc]
  split_ifs with hkill honce0 honce
  · exact Spec.trans (dying_spec hi hlive hscr (fun hl => hl.1 rfl) rfl rfl) notifyDead_spec
  · rw [flush_wipe, dying, closeProc, setProc_wipe]
    exact reap_spec hi hlive hscr (fun hl => hl.1 rfl) (.inl rfl)
  · exact dying_spec hi hlive hscr (fun hl => by simp [Slot.Live, slot] at hl) rfl rfl
  · exact respawn_spec hi hlive hscr hn hkill honce hc hq

end Dying

end Rest

end Minibase.Svchub
