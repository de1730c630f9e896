import Minibase.Svchub.Stopping
import Mathlib.Data.List.GetD

/-!
# Commands that fail

When `start_proc`, `flush_proc` or `remove_proc` has failed, the entries of the table,
`Svchub.Hub.entries`, should be what they were; when all is well, it should have done what it was
asked for; and an entry without a process should be easy to get rid of (`Svchub.AllOrNothing`).

It does not hold. `restart_proc` forgets how the process ended, and gives up its output, before
it knows whether there can be another one; `spawn_path` does not tell that there is none to be
had; and a buffer that cannot be unmapped is taken for an empty one. Nor can a service be
removed that has never said anything, or one that has no name, or one whose slot still has the id
of a process that is gone. `Svchub.all_or_nothing_iff` says exactly when none of this is in the
way, for tables in which no name but the empty one is there twice, as in every run
(`Svchub.reach_tidy`).
-/

namespace Minibase.Svchub

open List Option Function Hub Proc

/-! ### Names in the table -/

namespace View

variable {v v' : View} {clean quiet : Prop}

/-- What is true of the table in all runs: slots that are not in use are empty, and no name but the
empty one is there twice. -/
structure Tidy (v : View) : Prop where
  neat : v.Neat
  distinct : v.Distinct

/-- **Every move keeps the table tidy**, also those that are not clean. -/
theorem Tidy.move (hv : v.Tidy) (hm : Move clean quiet v v') : v'.Tidy := by
  refine ⟨hv.neat.move hm, ?_⟩
  have hd := hv.distinct
  cases hm with
  | grow => exact hd.grow
  | mark hi _ => exact hd.put_same hi (.inr rfl)
  | clear hi _ => exact hd.put_same hi (.inr rfl)
  | wipe hi _ => exact hd.put_same hi (.inl rfl)
  -- the only move that gives a slot a name, which is new
  | claim hi _ _ hnew _ _ =>
    exact hd.put hi fun hne j t _ hj heq => hne (hnew t (mem_of_getElem? hj) heq)
  | @spawn i s pid hi _ _ _ _ _ =>
    have hput : (v.put i { s with pid := pid }).Distinct := hd.put_same hi (.inr rfl)
    exact hput
  | @reap i s s' hi _ _ _ hslot =>
    have hput : (v.put i s').Distinct :=
      hd.put_same hi (hslot.imp (fun h => congrArg Slot.name h) fun h => h.1)
    exact hput
  | lose => exact hd
  | script => exact hd
  | ended => exact hd
  | forget => exact hd
  | orphan => exact hd

lemma Tidy.moves (hv : v.Tidy) (hm : Moves clean quiet v v') : v'.Tidy := by
  induction hm with
  | refl => exact hv
  | tail _ hstep ih => exact ih.move hstep

end View

section Runs

variable {h h' : Hub}

/-- Using force changes no name. -/
theorem disowned_tidy (ht : h.view.Tidy) : h.disowned.view.Tidy := by
  refine ⟨disowned_neat ht.neat, fun i j s t hi hj => ?_⟩
  have hname : ∀ {k : ℕ} {u : Slot}, h.disowned.view.slots[k]? = some u →
      ∃ u', h.view.slots[k]? = some u' ∧ u'.name = u.name := by
    intro k u hk
    have hk' : ((h.procs.map forceOne).map slot)[k]? = some u := hk
    rw [List.map_map, List.getElem?_map] at hk'
    obtain ⟨pc, hpc, rfl⟩ := map_eq_some_iff.mp hk'
    refine ⟨pc.slot, view_slot hpc, ?_⟩
    rw [comp_apply, forceOne]
    split_ifs <;> rfl
  obtain ⟨s', hs, hsn⟩ := hname hi
  obtain ⟨t', ht', htn⟩ := hname hj
  rw [← hsn, ← htn]
  exact ht.distinct i j s' t' hs ht'

lemma handle_tidy {e : Event} (ht : h.view.Tidy) (hok : h.handle e = .ok h') : h'.view.Tidy := by
  rcases handle_moves ht.neat hok (False.elim : False → _) (False.elim : False → _) with
    hm | ⟨g, a, hg, hforce⟩
  · exact ht.moves hm
  · have hm : Moves False False g.disowned.view h'.view := forceShutdown_moves hforce
    exact (disowned_tidy (by rwa [hg])).moves hm

lemma step_tidy {w w' : World} {e : Event} (ht : w.hub.view.Tidy) (hstep : step w e = some w') :
    w'.hub.view.Tidy := by
  obtain ⟨-, h', hh, rfl⟩ := step_eq_some hstep
  exact handle_tidy (h := { w.hub with log := [] }) ht hh

/-- **The table is tidy in every state that is reached.** -/
theorem reach_tidy {ok : World → Event → Prop} {w : World} (h : Reach Boot step ok w) :
    w.hub.view.Tidy := by
  induction h with
  | start hw => exact ⟨(boot_sound hw).names.neat, (boot_sound hw).names.distinct⟩
  | next _ _ hstep ih => exact step_tidy ih hstep

/-- It is tidy, too, where a service could not be started again. -/
theorem reach_tidy_broken : ∃ w : World, w.hub.procs.countP signalable = 1 ∧
    w.hub.view.Tidy := by
  have hrun : ((sampleService none).foldlM
    (fun w e => if True then step w e else none) sampleBoot).any
      (fun w => w.hub.procs.countP signalable = 1) = true := by
    decide +kernel
  obtain ⟨w, hw, hone⟩ := (any_eq_true _ _).mp hrun
  exact ⟨w, of_decide_eq_true hone, reach_tidy ((Reach.start sampleBoot_boot).foldlM hw)⟩

end Runs

/-! ### Entries -/

/-- What there is to know about a service: its name and flags, its process or how it ended, and
the output that has been kept. -/
structure Entry where
  name : List UInt8
  flags : Flags
  pid : ℕ
  buf : Bool
  ptr : ℕ
deriving DecidableEq

/-- The entry in a slot, if it is in use. -/
def Proc.entry (pc : Proc) : Option Entry :=
  if pc.flags = {} then none else some ⟨pc.name, pc.flags, pc.pid, pc.buf, pc.ptr⟩

@[inherit_doc Proc.entry] def Hub.entries (h : Hub) (i : ℕ) : Option Entry := (h.proc i).entry

section Entries

variable {h : Hub} {i : ℕ} {pc : Proc} {f : Proc → Proc}

lemma entries_of_getElem? (hi : h.procs[i]? = some pc) : h.entries i = pc.entry := by
  rw [entries, proc_of_getElem? hi]

/-- A change of one slot is a change of one entry. -/
theorem entries_setProc (hi : h.procs[i]? = some pc) :
    (h.setProc i f).entries = update h.entries i (f pc).entry := by
  funext j
  rcases eq_or_ne j i with rfl | hj
  · rw [update_self, entries_of_getElem? (setProc_getElem? hi)]
  · have hproc : (h.setProc i f).proc j = h.proc j := by
      simp [proc, setProc, Ne.symm hj]
    rw [update_of_ne hj, entries, hproc, entries]

lemma entries_setProc_eq (hi : h.procs[i]? = some pc) :
    (h.setProc i f).entries = h.entries ↔ (f pc).entry = pc.entry := by
  rw [entries_setProc hi, update_eq_self_iff, entries_of_getElem? hi]

/-- Two slots with the same entry, of which one is in use. -/
theorem entry_eq_iff {q : Proc} (hpc : pc.flags ≠ {}) : q.entry = pc.entry ↔
    q.name = pc.name ∧ q.flags = pc.flags ∧ q.pid = pc.pid ∧ q.buf = pc.buf ∧ q.ptr = pc.ptr := by
  rw [entry, entry, if_neg hpc]
  by_cases hq : q.flags = {}
  · rw [if_pos hq]
    exact ⟨(fun h => nomatch h), fun h => absurd (h.2.1.symm.trans hq) hpc⟩
  · rw [if_neg hq, Option.some.injEq, Entry.mk.injEq]

/-- An empty slot has no entry. -/
theorem entries_grow (h : Hub) : entries { h with procs := h.procs ++ [{}] } = h.entries := by
  funext j
  have hproc : proc { h with procs := h.procs ++ [{}] } j = h.proc j := by
    rw [proc, proc]
    rcases lt_or_ge j h.procs.length with hj | hj
    · exact getD_append _ _ _ _ hj
    · rw [getD_append_right _ _ _ _ hj, getD_eq_default _ _ hj]
      rcases j - h.procs.length with _ | k <;> rfl
  rw [entries, hproc, entries]

end Entries

/-! ### Starting a process -/

/-- What `spawn_path` asks for before it forks, it gets. -/
def Answers.reaches (a : Answers) (pass : Bool) : Prop := a.access = 0 ∧ (pass ∨ a.pipe = 0)
deriving Decidable

/-- There is one more child, of a service with this name. -/
def Begun (h h' : Hub) (name : List UInt8) : Prop :=
  ∃ i pid, h'.kids = ⟨pid, some i⟩ :: h.kids ∧ (h'.proc i).name = name

section Start

variable {h : Hub} {a : Answers} {i : ℕ} {pc : Proc}

/-- No child, no success. -/
theorem not_begun {h' : Hub} {name : List UInt8} (hkids : h'.kids = h.kids) : ¬Begun h h' name := by
  rintro ⟨i, pid, hcons, -⟩
  rw [hkids] at hcons
  exact cons_ne_self _ _ hcons.symm

/-- `spawn_path`, once it has what it needs. -/
theorem spawnPath_reaches (hi : h.procs[i]? = some pc) (hr : a.reaches pc.flags.pass) :
    h.spawnPath a i = (0, (a.fork.map (h.spawned i)).getD h) := by
  have hpipe : ¬((!pc.flags.pass) = true ∧ a.pipe ≠ 0) := by
    rcases hr.2 with hp | hp <;> simp [hp]
  rw [spawnPath, proc_of_getElem? hi, if_neg (not_not.mpr hr.1), if_neg hpipe]
  rcases a.fork with _ | next <;> rfl

lemma spawned_begun (hi : h.procs[i]? = some pc) (next : ℕ) :
    Begun h ((h.spawned i next).updateProcTime a i) pc.name := by
  refine ⟨i, freshPid h.kids next, rfl, ?_⟩
  have hspawned : (h.spawned i next).procs[i]? = some { pc with
      pid := freshPid h.kids next, fd := if pc.flags.pass then pc.fd else true } :=
    setProc_getElem? hi
  rw [updateProcTime, proc_of_getElem? (setProc_getElem? hspawned)]

/-- **How a start ends**: it fails early and changes nothing, or it returns zero, and there is a
child if `fork` made one. -/
theorem spawnAndTime_cases (hi : h.procs[i]? = some pc) :
    (¬a.reaches pc.flags.pass ∧ (h.spawnAndTime a i).1 < 0 ∧ (h.spawnAndTime a i).2 = h) ∨
    (a.reaches pc.flags.pass ∧ (h.spawnAndTime a i).1 = 0 ∧
      (a.fork.isSome ↔ Begun h (h.spawnAndTime a i).2 pc.name)) := by
  by_cases hr : a.reaches pc.flags.pass
  · refine .inr ⟨hr, ?_⟩
    rw [spawnAndTime, spawnProc, spawnPath_reaches hi hr]
    refine ⟨rfl, ?_⟩
    rcases a.fork with _ | next
    · exact ⟨(fun hf => by cases hf), fun hb => absurd hb (not_begun rfl)⟩
    · exact ⟨fun _ => spawned_begun hi next, fun _ => rfl⟩
  · have hneg : (h.spawnAndTime a i).1 < 0 := by
      by_contra hret
      exact hr (spawnAndTime_nonneg hi hret)
    exact .inl ⟨hr, hneg, spawnAndTime_neg hi hneg⟩

end Start

/-! ### Starting a service again -/

/-- The slot once `restart_proc` has forgotten how the process ended. -/
def Proc.forgotten (pc : Proc) : Proc :=
  if pc.flags.status then
    { pc with flags := { pc.flags with status := false, killed := false }, pid := 0 }
  else pc

/-- The slot without its output. -/
def Proc.flushed (pc : Proc) : Proc := if pc.buf then { pc with buf := false, ptr := 0 } else pc

/-- The output that may be there can be given up. -/
def Proc.flushable (pc : Proc) (a : Answers) : Prop := pc.buf → a.munmap = 0
deriving Decidable

section Restart

variable {h : Hub} {a : Answers} {i : ℕ} {pc : Proc} {f g : Proc → Proc}

section

variable (hi : h.procs[i]? = some pc)
include hi

lemma setProc_congr (hfg : f pc = g pc) : h.setProc i f = h.setProc i g := by
  have hmod : h.procs.modify i f = h.procs.modify i g := by
    apply ext_getElem?
    intro j
    rw [getElem?_modify, getElem?_modify]
    by_cases hij : i = j
    · subst hij
      simp [hi, hfg]
    · simp [hij]
  simp [setProc, hmod]

lemma setProc_same (hf : f pc = pc) : h.setProc i f = h := by
  rw [setProc_congr (g := id) hi hf]
  simp [setProc]

/-- Whether or not there is a status to forget. -/
theorem restartProc_idle (hidle : ¬pc.slot.Live) :
    h.restartProc a i {} = (h.setProc i forgotten).restartIdle a i := by
  rw [restartProc, proc_of_getElem? hi]
  rw [if_neg (not_not.mpr rfl)]
  by_cases hstatus : pc.flags.status
  · rw [if_pos hstatus]
    refine congrArg (fun g : Hub => g.restartIdle a i) (setProc_congr hi ?_)
    rw [forgotten, if_pos hstatus]
  · have hpid : pc.pid = 0 := by
      by_contra hpid
      exact hidle ⟨hpid, Bool.eq_false_iff.mpr hstatus⟩
    rw [if_neg hstatus, if_neg (not_not.mpr hpid),
      setProc_same hi (by rw [forgotten, if_neg hstatus])]

/-- The output is given up first, if there is any and if that works. -/
theorem restartIdle_flushable (hf : pc.flushable a) :
    h.restartIdle a i = (h.setProc i flushed).spawnAndTime a i := by
  rw [restartIdle, proc_of_getElem? hi]
  by_cases hbuf : pc.buf
  · have hflush : h.flushRingBuf a i = (0, h.setProc i flushed) := by
      rw [flushRingBuf, proc_of_getElem? hi, if_neg (by simp [hbuf]),
        if_neg (not_not.mpr (hf hbuf))]
      refine congrArg (Prod.mk 0) (setProc_congr hi ?_)
      rw [flushed, if_pos hbuf]
    rw [if_pos hbuf, hflush]
    rfl
  · rw [if_neg hbuf, setProc_same hi (by rw [flushed, if_neg hbuf])]

lemma flushRingBuf_stuck (hbuf : pc.buf) (hm : a.munmap ≠ 0) :
    (h.flushRingBuf a i).1 < 0 ∧
      (h.flushRingBuf a i).2 = h.setProc i fun pc => { pc with ptr := 0 } := by
  refine ⟨(flushRingBuf_neg hi hbuf).mpr hm, ?_⟩
  rw [flushRingBuf, proc_of_getElem? hi, if_neg (by simp [hbuf]), if_pos hm]

lemma restartIdle_stuck (hf : ¬pc.flushable a) :
    (h.restartIdle a i).1 < 0 ∧
      (h.restartIdle a i).2 = h.setProc i fun pc => { pc with ptr := 0 } := by
  obtain ⟨hbuf, hm⟩ := Classical.not_imp.mp hf
  obtain ⟨hneg, heq⟩ := flushRingBuf_stuck hi hbuf hm
  rw [restartIdle, proc_of_getElem? hi, if_pos hbuf]
  dsimp only
  rw [if_pos hneg]
  exact ⟨hneg, heq⟩

/-- A request that asks for other flags, or for a process that runs, is turned down. -/
theorem restartProc_busy {flags : Flags} (hno : ¬(flags = {} ∧ ¬pc.slot.Live)) :
    (h.restartProc a i flags).1 < 0 ∧ (h.restartProc a i flags).2 = h := by
  have hinval : -EINVAL < 0 := by decide
  have hbusy : -EBUSY < 0 := by decide
  rw [restartProc, proc_of_getElem? hi]
  by_cases hflags : flags = {}
  · have hlive : pc.pid ≠ 0 ∧ pc.flags.status = false := not_not.mp fun hl => hno ⟨hflags, hl⟩
    have hstatus : ¬pc.flags.status = true := by simp [hlive.2]
    rw [if_neg (not_not.mpr hflags), if_neg hstatus, if_pos hlive.1]
    exact ⟨hbusy, rfl⟩
  · rw [if_pos hflags]
    exact ⟨hinval, rfl⟩

end

@[simp] lemma forgotten_buf (pc : Proc) : pc.forgotten.buf = pc.buf := by
  rw [forgotten]
  split_ifs <;> rfl

@[simp] lemma forgotten_pass (pc : Proc) : pc.forgotten.flags.pass = pc.flags.pass := by
  rw [forgotten]
  split_ifs <;> rfl

@[simp] lemma forgotten_name (pc : Proc) : pc.forgotten.name = pc.name := by
  rw [forgotten]
  split_ifs <;> rfl

@[simp] lemma flushed_flags (pc : Proc) : pc.flushed.flags = pc.flags := by
  rw [flushed]
  split_ifs <;> rfl

@[simp] lemma flushed_name (pc : Proc) : pc.flushed.name = pc.name := by
  rw [flushed]
  split_ifs <;> rfl

/-- **How a restart ends**: the output cannot be given up, or the process cannot be started, and
the slot is not what it was; or all goes well, as far as `restart_proc` can tell. -/
theorem restartProc_cases (hi : h.procs[i]? = some pc) (hidle : ¬pc.slot.Live) :
    (¬pc.flushable a ∧ (h.restartProc a i {}).1 < 0 ∧
      (h.restartProc a i {}).2 = h.setProc i fun pc => { pc.forgotten with ptr := 0 }) ∨
    (pc.flushable a ∧ ¬a.reaches pc.flags.pass ∧ (h.restartProc a i {}).1 < 0 ∧
      (h.restartProc a i {}).2 = h.setProc i fun pc => pc.forgotten.flushed) ∨
    (pc.flushable a ∧ a.reaches pc.flags.pass ∧ (h.restartProc a i {}).1 = 0 ∧
      (a.fork.isSome ↔ Begun h (h.restartProc a i {}).2 pc.name)) := by
  have hi' : (h.setProc i forgotten).procs[i]? = some pc.forgotten := setProc_getElem? hi
  rw [restartProc_idle hi hidle]
  by_cases hf : pc.flushable a
  swap
  · obtain ⟨hneg, heq⟩ := restartIdle_stuck hi' (a := a) (by rwa [flushable, forgotten_buf])
    rw [setProc_setProc] at heq
    exact .inl ⟨hf, hneg, heq⟩
  rw [restartIdle_flushable hi' (by rwa [flushable, forgotten_buf])]
  rcases spawnAndTime_cases (a := a) (setProc_getElem? (f := flushed) hi') with
    ⟨hno, hneg, heq⟩ | ⟨hr, hzero, hbegun⟩
  · have hno' : ¬a.reaches pc.flags.pass := by rwa [flushed_flags, forgotten_pass] at hno
    exact .inr (.inl ⟨hf, hno', hneg, heq.trans setProc_setProc⟩)
  · rw [flushed_flags, forgotten_pass] at hr
    rw [flushed_name, forgotten_name] at hbegun
    exact .inr (.inr ⟨hf, hr, hzero, hbegun⟩)

lemma forgotten_flags_eq : pc.forgotten.flags = pc.flags ↔ pc.flags.status = false := by
  rw [forgotten]
  by_cases hstatus : pc.flags.status
  · rw [if_pos hstatus, hstatus]
    refine ⟨fun h => ?_, (fun h => nomatch h)⟩
    have hfalse := congrArg Flags.status h
    rw [hstatus] at hfalse
    cases hfalse
  · rw [if_neg hstatus]
    exact ⟨fun _ => Bool.eq_false_iff.mpr hstatus, fun _ => rfl⟩

lemma forgotten_eq (hstatus : pc.flags.status = false) : pc.forgotten = pc := by
  rw [forgotten, hstatus, if_neg (by decide)]

/-- An entry survives a failure to give up its output if there was neither a status nor any
output to speak of. -/
theorem entry_cut (hpc : pc.flags ≠ {}) : ({ pc.forgotten with ptr := 0 } : Proc).entry = pc.entry ↔
    pc.flags.status = false ∧ pc.ptr = 0 := by
  rw [entry_eq_iff hpc]
  refine ⟨fun ⟨_, hflags, _, _, hptr⟩ => ⟨forgotten_flags_eq.mp hflags, hptr.symm⟩, ?_⟩
  rintro ⟨hstatus, hptr⟩
  rw [forgotten_eq hstatus]
  exact ⟨rfl, rfl, rfl, rfl, hptr.symm⟩

/-- An entry survives a failure to start its process if there was neither a status nor a
buffer. -/
theorem entry_flushed (hpc : pc.flags ≠ {}) :
    pc.forgotten.flushed.entry = pc.entry ↔ pc.flags.status = false ∧ pc.buf = false := by
  rw [entry_eq_iff hpc]
  constructor
  · rintro ⟨-, hflags, -, hbuf, -⟩
    rw [flushed_flags] at hflags
    have hstatus := forgotten_flags_eq.mp hflags
    rw [forgotten_eq hstatus, flushed] at hbuf
    refine ⟨hstatus, ?_⟩
    by_cases hb : pc.buf
    · rw [if_pos hb] at hbuf
      exact hbuf.symm
    · exact Bool.eq_false_iff.mpr hb
  · rintro ⟨hstatus, hbuf⟩
    rw [forgotten_eq hstatus, flushed, if_neg (by simp [hbuf])]
    exact ⟨rfl, rfl, rfl, rfl, rfl⟩

end Restart

/-! ### Starting a service for the first time -/

section New

variable {h : Hub} {a : Answers} {i : ℕ} {pc : Proc} {name : List UInt8} {flags : Flags}

lemma entry_free (hfree : pc.flags = {}) : pc.entry = none := by
  rw [entry, if_pos hfree]

/-- The slot that is taken has no entry, and the entries stay what they are. -/
theorem grabProcSlot_entries {h' : Hub} {r : Option ℕ} (hgrab : h.grabProcSlot = (r, h')) :
    h'.kids = h.kids ∧ h'.entries = h.entries ∧ (r = none → ¬h.hasSlot) ∧
      ∀ i, r = some i → h.hasSlot ∧ ∃ pc, h'.procs[i]? = some pc ∧ pc.flags = {} := by
  rw [grabProcSlot] at hgrab
  split at hgrab
  · rename_i i hidx
    obtain ⟨rfl, rfl⟩ := Prod.mk.inj hgrab
    obtain ⟨hlt, hp, -⟩ := findIdx?_eq_some_iff_getElem.mp hidx
    refine ⟨rfl, rfl, (fun hr => by cases hr), ?_⟩
    rintro _ ⟨⟩
    exact ⟨.inl (by simp [hidx]), _, getElem?_eq_getElem hlt, of_decide_eq_true hp⟩
  · rename_i hidx
    split at hgrab
    · rename_i hfull
      obtain ⟨rfl, rfl⟩ := Prod.mk.inj hgrab
      refine ⟨rfl, rfl, fun _ hslot => ?_, (fun i hi => by cases hi)⟩
      rcases hslot with hslot | hslot
      · simp [hidx] at hslot
      · omega
    · rename_i hroom
      obtain ⟨rfl, rfl⟩ := Prod.mk.inj hgrab
      refine ⟨rfl, entries_grow h, (fun hr => by cases hr), ?_⟩
      rintro _ ⟨⟩
      exact ⟨.inr (by omega), {}, by simp, rfl⟩

/-- A slot that is prepared can be wiped again as if nothing had happened. -/
theorem prepAndStart_cases (a : Answers) (name : List UInt8) (flags : Flags)
    (hi : h.procs[i]? = some pc) :
    (¬(name.length ≤ NAMELEN ∧ a.reaches flags.pass) ∧ (h.prepAndStart a i name flags).1 < 0 ∧
      (h.prepAndStart a i name flags).2.wipeProcSlot i = h.wipeProcSlot i) ∨
    (name.length ≤ NAMELEN ∧ a.reaches flags.pass ∧ (h.prepAndStart a i name flags).1 = 0 ∧
      (a.fork.isSome ↔ Begun h (h.prepAndStart a i name flags).2 name)) := by
  rw [prepAndStart]
  by_cases hlen : NAMELEN < name.length
  · have hneg : -ENAMETOOLONG < 0 := by decide
    rw [if_pos hlen]
    exact .inl ⟨fun hl => by omega, hneg, wipe_wipe⟩
  rw [if_neg hlen]
  have hi' := setProc_getElem? (f := fun pc =>
    { pc with flags := { flags with inUse := true }, name := name })
    (setProc_getElem? (f := fun _ => {}) hi)
  rcases spawnAndTime_cases (a := a) hi' with ⟨hno, hneg, heq⟩ | ⟨hr, hzero, hbegun⟩
  · refine .inl ⟨fun hl => hno hl.2, hneg, ?_⟩
    exact (congrArg (fun g : Hub => g.wipeProcSlot i) heq).trans (setProc_wipe.trans wipe_wipe)
  · exact .inr ⟨by omega, hr, hzero, hbegun⟩

/-- **How a first start ends**: it fails and no entry has changed, or all goes well, as far as
`start_proc` can tell. -/
theorem startProc_new (a : Answers) (flags : Flags) (hfind : h.findByName name = none) :
    (¬(h.hasSlot ∧ name.length ≤ NAMELEN ∧ a.reaches flags.pass) ∧
      (h.startProc a name flags).1 < 0 ∧ (h.startProc a name flags).2.entries = h.entries) ∨
    (h.hasSlot ∧ name.length ≤ NAMELEN ∧ a.reaches flags.pass ∧
      (h.startProc a name flags).1 = 0 ∧
      (a.fork.isSome ↔ Begun h (h.startProc a name flags).2 name)) := by
  rw [startProc, hfind]
  rcases hgrab : h.grabProcSlot with ⟨_ | i, h'⟩
  · obtain ⟨-, hentries, hno, -⟩ := grabProcSlot_entries hgrab
    have hneg : -ENOMEM < 0 := by decide
    exact .inl ⟨fun hs => hno rfl hs.1, hneg, hentries⟩
  obtain ⟨hkids, hentries, -, hsome⟩ := grabProcSlot_entries hgrab
  obtain ⟨hslot, pc, hi, hfree⟩ := hsome i rfl
  dsimp only
  rcases prepAndStart_cases a name flags hi with
    ⟨hno, hneg, hwipe⟩ | ⟨hlen, hr, hzero, hbegun⟩
  · rw [if_pos hneg, hwipe]
    refine .inl ⟨fun hs => hno hs.2, hneg, ?_⟩
    rw [← hentries]
    exact (entries_setProc_eq hi).mpr ((entry_free rfl).trans (entry_free hfree).symm)
  · rw [if_neg (by rw [hzero]; decide)]
    refine .inr ⟨hslot, hlen, hr, hzero, ?_⟩
    rwa [Begun, ← hkids]

end New

/-! ### All or nothing -/

section Whole

variable (h : Hub) (a : Answers) (name : List UInt8) (flags : Flags)

/-- What a client of `start_proc` may rely on. -/
structure StartWhole : Prop where
  /-- If it fails nothing has changed. -/
  fails : (h.startProc a name flags).1 < 0 → (h.startProc a name flags).2.entries = h.entries
  /-- If it does not there is a child. -/
  starts : 0 ≤ (h.startProc a name flags).1 → Begun h (h.startProc a name flags).2 name

/-- What a client of `flush_proc` may rely on. -/
def FlushWhole : Prop :=
  (h.flushProc a name).1 < 0 → (h.flushProc a name).2.entries = h.entries

/-- The slot has no child that lives. -/
def Hub.childless (i : ℕ) : Prop := ∀ k ∈ h.kids, k.slot ≠ some i

/-- What a client of `remove_proc` may rely on. -/
structure RemoveWhole : Prop where
  /-- If it fails nothing has changed. -/
  fails : (h.removeProc a name).1 < 0 → (h.removeProc a name).2.entries = h.entries
  /-- An entry with no live child is removed: there is no such name any more, and the slot is
  free. -/
  removes : ∀ (i : ℕ) (pc : Proc), h.procs[i]? = some pc → pc.flags ≠ {} → pc.name = name →
    h.childless i → (h.removeProc a name).1 = 0 ∧
      (h.removeProc a name).2.findByName name = none ∧ (h.removeProc a name).2.proc i = {}

/-- **Commands are all or nothing.** -/
structure AllOrNothing : Prop where
  start : StartWhole h a name flags
  flush : FlushWhole h a name
  remove : RemoveWhole h a name

/-- A process that is started again has nothing to lose: all goes well, or there is neither a
status to forget nor output to give up. -/
def Proc.restartsWell (pc : Proc) : Prop :=
  if pc.flushable a ∧ a.reaches pc.flags.pass then a.fork.isSome = true
  else pc.flags.status = false ∧ (pc.buf → a.munmap ≠ 0 ∧ pc.ptr = 0)

/-- Whether `start_proc` does what it should. -/
def Hub.startsWell : Prop :=
  match h.findByName name with
  | none => h.hasSlot ∧ name.length ≤ NAMELEN ∧ a.reaches flags.pass → a.fork.isSome
  | some i => flags = {} ∧ ¬(h.proc i).slot.Live → (h.proc i).restartsWell a

/-- Whether `flush_proc` does: a buffer that cannot be unmapped must be empty. -/
def Hub.flushesWell : Prop :=
  ∀ i ∈ h.findByName name, (h.proc i).buf → a.munmap ≠ 0 → (h.proc i).ptr = 0

/-- Whether `remove_proc` does: what goes for `flush_proc` goes for it as well, if it gets that
far, and an entry with no live child must know that, and have a name and a buffer that can be
unmapped. -/
def Hub.removesWell : Prop :=
  (∀ i ∈ h.findByName name, ¬(h.proc i).slot.Live → (h.proc i).buf → a.munmap ≠ 0 →
    (h.proc i).ptr = 0) ∧
  ∀ (i : ℕ) (pc : Proc), h.procs[i]? = some pc → pc.flags ≠ {} → pc.name = name →
    h.childless i → ¬pc.slot.Live ∧ name ≠ [] ∧ pc.buf ∧ a.munmap = 0

end Whole

section Iff

variable {h : Hub} {a : Answers} {name : List UInt8} {flags : Flags} {i : ℕ}

/-- A service that is found is in use. -/
theorem findByName_flags (hn : h.view.Neat) (hfind : h.findByName name = some i) :
    name ≠ [] ∧ ∃ pc, h.procs[i]? = some pc ∧ pc.name = name ∧ pc.flags ≠ {} := by
  obtain ⟨hname, pc, hi, hpc⟩ := findByName_some hfind
  refine ⟨hname, pc, hi, hpc, fun hflags => ?_⟩
  have huse := inUse_of_name hn hi (by rwa [hpc])
  simp [hflags] at huse

variable {pc : Proc}

/-- Starting a service again. -/
theorem restart_whole_iff (hi : h.procs[i]? = some pc) (hpc : pc.flags ≠ {})
    (hidle : ¬pc.slot.Live) :
    (((h.restartProc a i {}).1 < 0 → (h.restartProc a i {}).2.entries = h.entries) ∧
      (0 ≤ (h.restartProc a i {}).1 → Begun h (h.restartProc a i {}).2 pc.name)) ↔
      pc.restartsWell a := by
  rw [restartsWell]
  rcases restartProc_cases (a := a) hi hidle with
    ⟨hf, hneg, heq⟩ | ⟨hf, hr, hneg, heq⟩ | ⟨hf, hr, hzero, hbegun⟩
  · -- the output cannot be given up
    obtain ⟨hbuf, hm⟩ := Classical.not_imp.mp hf
    rw [if_neg fun h => hf h.1, heq, entries_setProc_eq hi, entry_cut hpc]
    constructor
    · rintro ⟨hsame, -⟩
      obtain ⟨hstatus, hptr⟩ := hsame hneg
      exact ⟨hstatus, fun _ => ⟨hm, hptr⟩⟩
    · rintro ⟨hstatus, hptr⟩
      exact ⟨fun _ => ⟨hstatus, (hptr hbuf).2⟩, fun hpos => absurd hneg (by omega)⟩
  · -- there is no way to start the process
    rw [if_neg fun h => hr h.2, heq, entries_setProc_eq hi, entry_flushed hpc]
    constructor
    · rintro ⟨hsame, -⟩
      obtain ⟨hstatus, hbuf⟩ := hsame hneg
      exact ⟨hstatus, fun hb => absurd hb (by simp [hbuf])⟩
    · rintro ⟨hstatus, hptr⟩
      refine ⟨fun _ => ⟨hstatus, ?_⟩, fun hpos => absurd hneg (by omega)⟩
      exact Bool.eq_false_iff.mpr fun hbuf => (hptr hbuf).1 (hf hbuf)
  · -- it is up to `fork`
    rw [if_pos ⟨hf, hr⟩, hbegun]
    exact ⟨fun hw => hw.2 (by rw [hzero]),
      fun hb => ⟨fun hneg => absurd hneg (by omega), fun _ => hb⟩⟩

lemma start_whole_iff (hn : h.view.Neat) :
    StartWhole h a name flags ↔ h.startsWell a name flags := by
  rw [startsWell]
  rcases hfind : h.findByName name with _ | i
  · rcases startProc_new a flags hfind with
      ⟨hno, hneg, hsame⟩ | ⟨hslot, hlen, hr, hzero, hbegun⟩
    · exact ⟨fun _ hs => absurd hs hno, fun _ => ⟨fun _ => hsame, fun hpos => by omega⟩⟩
    · constructor
      · exact fun hw _ => hbegun.mpr (hw.starts (by rw [hzero]))
      · exact fun hw => ⟨fun hneg => by omega, fun _ => hbegun.mp (hw ⟨hslot, hlen, hr⟩)⟩
  · obtain ⟨-, pc, hi, rfl, hpc⟩ := findByName_flags hn hfind
    have hstart : h.startProc a pc.name flags = h.restartProc a i flags := by
      rw [startProc, hfind]
    have hproc := proc_of_getElem? hi
    dsimp only
    rw [hproc]
    by_cases hgo : flags = {} ∧ ¬pc.slot.Live
    · obtain ⟨rfl, hidle⟩ := hgo
      rw [← restart_whole_iff hi hpc hidle, ← hstart]
      exact ⟨fun hw _ => ⟨hw.fails, hw.starts⟩,
        fun hw => ⟨(hw ⟨rfl, hidle⟩).1, (hw ⟨rfl, hidle⟩).2⟩⟩
    · -- the request is turned down
      have hno : (h.startProc a pc.name flags).1 < 0 ∧ (h.startProc a pc.name flags).2 = h := by
        rw [hstart]
        exact restartProc_busy hi hgo
      refine ⟨fun _ hs => absurd hs hgo, fun _ => ⟨fun _ => by rw [hno.2], fun hpos => ?_⟩⟩
      have := hno.1
      omega

/-- A buffer that cannot be unmapped stays, but its length is forgotten. -/
theorem flushRingBuf_same (hi : h.procs[i]? = some pc) (hpc : pc.flags ≠ {})
    (hbuf : pc.buf) (hm : a.munmap ≠ 0) :
    (h.flushRingBuf a i).2.entries = h.entries ↔ pc.ptr = 0 := by
  rw [(flushRingBuf_stuck hi hbuf hm).2, entries_setProc_eq hi, entry_eq_iff hpc]
  exact ⟨fun hentry => hentry.2.2.2.2.symm, fun hptr => ⟨rfl, rfl, rfl, rfl, hptr.symm⟩⟩

lemma flush_whole_iff (hn : h.view.Neat) : FlushWhole h a name ↔ h.flushesWell a name := by
  rw [FlushWhole, flushesWell, flushProc]
  rcases hfind : h.findByName name with _ | i
  · exact ⟨fun _ i hi => (by cases hi), fun _ _ => rfl⟩
  obtain ⟨-, pc, hi, -, hpc⟩ := findByName_flags hn hfind
  have hproc := proc_of_getElem? hi
  constructor
  · rintro hsame _ ⟨⟩ hbuf hm
    rw [hproc] at hbuf ⊢
    exact (flushRingBuf_same hi hpc hbuf hm).mp (hsame (flushRingBuf_stuck hi hbuf hm).1)
  · intro hwell hneg
    by_cases hbuf : pc.buf
    · have hm := (flushRingBuf_neg hi hbuf).mp hneg
      have hptr := hwell i rfl (by rwa [hproc]) hm
      rw [hproc] at hptr
      exact (flushRingBuf_same hi hpc hbuf hm).mpr hptr
    · dsimp only
      rw [flushRingBuf, hproc, if_pos (by simpa using hbuf)]

/-- A service that has been removed cannot be found. -/
theorem wipe_findByName (ht : h.view.Tidy) (hi : h.procs[i]? = some pc)
    (hname : pc.name ≠ []) : (h.wipeProcSlot i).findByName pc.name = none := by
  rcases hfind : (h.wipeProcSlot i).findByName pc.name with _ | j
  · rfl
  obtain ⟨-, qc, hj, hqc⟩ := findByName_some hfind
  have hslot : (h.view.put i {}).slots[j]? = some qc.slot := by
    rw [← show (({} : Proc)).slot = {} from rfl, ← setProc_view (f := fun _ => {}) hi]
    exact view_slot hj
  rcases View.put_getElem? (view_slot hi) hslot with ⟨-, hzero⟩ | ⟨hne, hj'⟩
  · exact absurd (hqc.symm.trans (congrArg Slot.name hzero)) hname
  · exact absurd (ht.distinct j i qc.slot pc.slot hj' (view_slot hi) hqc (by rwa [← hqc] at hname))
      hne

/-- A name that is not empty leads to its entry. -/
theorem findByName_tidy (ht : h.view.Tidy) (hi : h.procs[i]? = some pc)
    (hname : pc.name ≠ []) : h.findByName pc.name = some i :=
  findByName_unique hname hi rfl fun j qc hj hqc =>
    ht.distinct j i qc.slot pc.slot (view_slot hj) (view_slot hi) hqc (by
      show qc.name ≠ []
      rwa [hqc])

section Remove

variable {i : ℕ} {pc : Proc} (hfind : h.findByName name = some i) (hi : h.procs[i]? = some pc)

include hfind hi

lemma removeProc_live (hlive : pc.slot.Live) :
    (h.removeProc a name).1 < 0 ∧ (h.removeProc a name).2 = h := by
  have hbusy : -EBUSY < 0 := by decide
  have hlive' : pc.pid ≠ 0 ∧ (!pc.flags.status) = true := ⟨hlive.1, by
    rw [show pc.flags.status = false from hlive.2]
    rfl⟩
  rw [removeProc, hfind]
  dsimp only
  rw [proc_of_getElem? hi, if_pos hlive']
  exact ⟨hbusy, rfl⟩

/-- **How a removal ends**, if nothing runs: all is gone if there was any output to give up,
and what is left is what `flush_ring_buf` leaves otherwise. -/
theorem removeProc_cases (hidle : ¬pc.slot.Live) :
    (pc.buf ∧ a.munmap = 0 ∧ h.removeProc a name = (0, h.wipeProcSlot i)) ∨
    (¬(pc.buf ∧ a.munmap = 0) ∧ (h.removeProc a name).1 < 0 ∧
      h.removeProc a name = h.flushRingBuf a i) := by
  have hidle' : ¬(pc.pid ≠ 0 ∧ (!pc.flags.status) = true) := fun hl =>
    hidle ⟨hl.1, by simpa [slot] using hl.2⟩
  have hnodata : -ENODATA < 0 := by decide
  rw [removeProc, hfind]
  dsimp only
  rw [proc_of_getElem? hi, if_neg hidle']
  by_cases hbuf : pc.buf
  swap
  · have hflush : h.flushRingBuf a i = (-ENODATA, h) := by
      rw [flushRingBuf, proc_of_getElem? hi, if_pos (by simpa using hbuf)]
    rw [hflush]
    exact .inr ⟨fun hb => hbuf hb.1, hnodata, rfl⟩
  by_cases hm : a.munmap = 0
  · have hret : ¬(h.flushRingBuf a i).1 < 0 := fun hneg => (flushRingBuf_neg hi hbuf).mp hneg hm
    rw [if_neg hret, flush_wipe]
    exact .inl ⟨hbuf, hm, rfl⟩
  · obtain ⟨hneg, -⟩ := flushRingBuf_stuck hi hbuf hm
    rw [if_pos hneg]
    exact .inr ⟨fun hb => hm hb.2, hneg, rfl⟩

end Remove

lemma remove_whole_iff (ht : h.view.Tidy) : RemoveWhole h a name ↔ h.removesWell a name := by
  constructor
  · refine fun hw => ⟨?_, ?_⟩
    · intro i hfind hidle hbuf hm
      obtain ⟨-, pc, hi, -, hflags⟩ := findByName_flags ht.neat hfind
      rw [proc_of_getElem? hi] at hidle hbuf ⊢
      rcases removeProc_cases (a := a) hfind hi hidle with ⟨-, hzero, -⟩ | ⟨-, hneg, heq⟩
      · exact absurd hzero hm
      · have hsame := hw.fails hneg
        rw [heq] at hsame
        exact (flushRingBuf_same hi hflags hbuf hm).mp hsame
    · rintro i pc hi hflags rfl hchild
      obtain ⟨hzero, -⟩ := hw.removes i pc hi hflags rfl hchild
      -- an empty name is never found
      have hname : pc.name ≠ [] := by
        intro hname
        have hnone : h.findByName pc.name = none := by rw [findByName, if_pos hname]
        have henoent : -ENOENT ≠ 0 := by decide
        rw [removeProc, hnone] at hzero
        exact henoent hzero
      have hfind := findByName_tidy ht hi hname
      -- a service that runs is not removed
      have hidle : ¬pc.slot.Live := fun hlive => by
        have := (removeProc_live (a := a) hfind hi hlive).1
        omega
      refine ⟨hidle, hname, ?_⟩
      rcases removeProc_cases (a := a) hfind hi hidle with ⟨hbuf, hm, -⟩ | ⟨-, hneg, -⟩
      · exact ⟨hbuf, hm⟩
      · omega
  · rintro ⟨hcut, hwell⟩
    refine ⟨fun hneg => ?_, ?_⟩
    · rcases hfind : h.findByName name with _ | i
      · rw [removeProc, hfind]
      obtain ⟨-, pc, hi, -, hflags⟩ := findByName_flags ht.neat hfind
      by_cases hlive : pc.slot.Live
      · rw [(removeProc_live hfind hi hlive).2]
      have hcut' := hcut i hfind
      rw [proc_of_getElem? hi] at hcut'
      rcases removeProc_cases (a := a) hfind hi hlive with ⟨-, -, heq⟩ | ⟨hno, -, heq⟩
      · rw [heq] at hneg
        exact absurd hneg (lt_irrefl 0)
      · rw [heq]
        by_cases hbuf : pc.buf
        · have hm : a.munmap ≠ 0 := fun hm => hno ⟨hbuf, hm⟩
          exact (flushRingBuf_same hi hflags hbuf hm).mpr (hcut' hlive hbuf hm)
        · rw [flushRingBuf, proc_of_getElem? hi, if_pos (by simpa using hbuf)]
    · rintro i pc hi hflags rfl hchild
      obtain ⟨hidle, hname, hb⟩ := hwell i pc hi hflags rfl hchild
      rcases removeProc_cases (a := a) (findByName_tidy ht hi hname) hi hidle with
        ⟨-, -, heq⟩ | ⟨hno, -⟩
      · rw [heq]
        exact ⟨rfl, wipe_findByName ht hi hname, proc_of_getElem? (setProc_getElem? hi)⟩
      · exact absurd hb hno

/-- **When the commands of the hub are all or nothing.** -/
theorem all_or_nothing_iff (ht : h.view.Tidy) : AllOrNothing h a name flags ↔
    h.startsWell a name flags ∧ h.flushesWell a name ∧ h.removesWell a name := by
  rw [← start_whole_iff ht.neat, ← flush_whole_iff ht.neat, ← remove_whole_iff ht]
  exact ⟨fun hw => ⟨hw.start, hw.flush, hw.remove⟩, fun hw => ⟨hw.1, hw.2.1, hw.2.2⟩⟩

end Iff

/-! ### A service that has ended -/

/-- A service that has ended, and whose output has been kept. -/
def sampleEnded : Hub :=
  { sampleBoot.hub with
    procs := [{ name := [97], pid := 256, flags := { inUse := true, status := true }, ptr := 3,
                buf := true }] }

lemma sampleEnded_tidy : sampleEnded.view.Tidy where
  neat s hs := by
    obtain rfl := mem_singleton.mp hs
    exact .inl rfl
  distinct i j s t hi hj _ _ := by
    have hlt : ∀ {k : ℕ} {u : Slot}, sampleEnded.view.slots[k]? = some u → k < 1 := fun hk =>
      (List.getElem?_eq_some_iff.mp hk).1
    have hi1 := hlt hi
    have hj1 := hlt hj
    omega

/-- It can be started again, and what it said can be thrown away, and so can the service. -/
theorem all_or_nothing_iff_ended : AllOrNothing sampleEnded {} [97] {} := by
  refine (all_or_nothing_iff sampleEnded_tidy).mpr ⟨fun _ => ?_, ?_, ?_⟩
  · have hrun : flushable (sampleEnded.proc 0) {} ∧
        Answers.reaches {} (sampleEnded.proc 0).flags.pass := by decide
    rw [restartsWell, if_pos hrun]
    rfl
  · exact fun i _ _ hm => absurd rfl hm
  · refine ⟨fun i _ _ _ hm => absurd rfl hm, fun i pc hi _ _ _ => ?_⟩
    obtain rfl := mem_singleton.mp (mem_of_getElem? hi)
    decide

/-- The script starts a service, which fails within five seconds and says nothing. -/
def sampleSilent : List Event :=
  [.connect, .command 0 (.start (some ⟨[97], nonul_a⟩)) { fork := some 5, time := 100 },
    .chld, .reap 5 256 { time := 105 }]

/-- **A service that cannot be removed**: it has ended, and nothing is known of it but its
status, but `remove_proc` fails since there is no output to give up. -/
theorem not_all_or_nothing :
    ¬∀ w, Reach Boot step (fun _ _ => True) w →
      ∀ (a : Answers) (name : List UInt8) (flags : Flags), AllOrNothing w.hub a name flags := by
  intro h
  have hrun : (sampleSilent.foldlM
      (fun w e => if True then step w e else none) sampleBoot).any
      (fun w => (w.hub.removeProc {} [97]).1 = -ENODATA ∧ w.hub.kids = [⟨1, none⟩] ∧
        w.hub.procs = [{ name := [97], pid := 256, flags := { inUse := true, status := true },
                         time := 105 }]) = true := by
    decide +kernel
  obtain ⟨w, hw, hrest⟩ := (any_eq_true _ _).mp hrun
  obtain ⟨hnodata, hkids, hprocs⟩ := of_decide_eq_true hrest
  have hreach : Reach Boot step (fun _ _ => True) w := (Reach.start sampleBoot_boot).foldlM hw
  have hchild : w.hub.childless 0 := by
    rw [childless, hkids]
    decide
  have hzero := ((h w hreach {} [97] {}).remove.removes 0 _ (by rw [hprocs]; rfl)
    (by decide) rfl hchild).1
  rw [hnodata] at hzero
  exact absurd hzero (by decide)

end Minibase.Svchub
