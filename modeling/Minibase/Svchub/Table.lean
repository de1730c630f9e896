import Minibase.Svchub.Events

/-!
# The process table

What the table of the hub should be like, `Svchub.TableOk`: the slots in use have
names of their own by which they are found, those that say they have a process have one,
`nalive` counts them, and no process is left without a slot. A service can be started without a
name, though, and if there is no process to be had for a service that is to be started again,
`proc_died` leaves the slot with the process that has just died. In the runs in which neither
happens (`Svchub.Hub.Careful`) the table is as it should be until force is used:
`Svchub.table_ok`.
-/

namespace Minibase.Svchub

open List Option

/-- What the table should be like. -/
structure TableOk (h : Hub) : Prop where
  /-- A slot in use has a name, and is found by it. -/
  named : ∀ i pc, h.procs[i]? = some pc → pc.flags ≠ {} →
    pc.name ≠ [] ∧ h.findByName pc.name = some i
  /-- No two slots in use have the same name. -/
  distinct : ∀ (i j : ℕ) (pc pc' : Proc), h.procs[i]? = some pc → h.procs[j]? = some pc' →
    pc.flags ≠ {} →
    pc'.flags ≠ {} → pc.name = pc'.name → i = j
  /-- A slot that says it has a process is in use and has a child. -/
  child : ∀ i pc, h.procs[i]? = some pc → pc.pid ≠ 0 → pc.flags.status = false →
    pc.flags ≠ {} ∧ ⟨pc.pid, some i⟩ ∈ h.kids
  /-- These slots are counted. -/
  nalive : h.nalive = h.procs.countP Proc.signalable
  /-- Their processes are different. -/
  pids : ∀ (i j : ℕ) (pc pc' : Proc), h.procs[i]? = some pc → h.procs[j]? = some pc' →
    pc.signalable →
    pc'.signalable → pc.pid = pc'.pid → i = j
  /-- All other slots are without a child. -/
  idle : ∀ i pc, h.procs[i]? = some pc → pc.flags.status = true ∨ pc.pid = 0 →
    ∀ k ∈ h.kids, k.slot ≠ some i

namespace View

/-- Names and flags of the slots. -/
structure Names (v : View) : Prop where
  neat : v.Neat
  named : ∀ s ∈ v.slots, s.flags.inUse → s.name ≠ []
  distinct : ∀ (i j : ℕ) (s t : Slot), v.slots[i]? = some s → v.slots[j]? = some t →
    s.name = t.name →
    s.name ≠ [] → i = j

/-- Processes of the slots. -/
structure Kids (v : View) : Prop where
  child : ∀ i s, v.slots[i]? = some s → s.Live → ⟨s.pid, some i⟩ ∈ v.kids
  slot : ∀ k ∈ v.kids, ∀ i, k.slot = some i → ∃ s, v.slots[i]? = some s ∧ s.Live ∧ s.pid = k.pid
  nodup : (v.kids.map Kid.pid).Nodup
  count : v.nalive = v.slots.countP fun s => s.Live
  script : 0 < v.scrpid → ⟨v.scrpid.toNat, none⟩ ∈ v.kids

variable {v : View} {i : ℕ} {s s' : Slot}

lemma put_getElem? (hi : v.slots[i]? = some s) {j : ℕ} {t : Slot}
    (hj : (v.put i s').slots[j]? = some t) : (j = i ∧ t = s') ∨ (j ≠ i ∧ v.slots[j]? = some t) := by
  obtain ⟨hlt, -⟩ := List.getElem?_eq_some_iff.mp hi
  have hj' : (if i = j then some s' else v.slots[j]?) = some t := by
    rw [← hj, put, getElem?_set, if_pos hlt]
  split at hj'
  · rename_i hij
    subst hij
    exact .inl ⟨rfl, (Option.some.inj hj').symm⟩
  · rename_i hij
    exact .inr ⟨fun h => hij h.symm, hj'⟩

lemma put_getElem?_self (hi : v.slots[i]? = some s) : (v.put i s').slots[i]? = some s' := by
  obtain ⟨hlt, -⟩ := List.getElem?_eq_some_iff.mp hi
  simp [put, hlt]

lemma put_getElem?_ne {j : ℕ} (hj : j ≠ i) : (v.put i s').slots[j]? = v.slots[j]? := by
  simp [put, Ne.symm hj]

lemma mem_put {t : Slot} (hi : v.slots[i]? = some s) (ht : t ∈ (v.put i s').slots) :
    t = s' ∨ t ∈ v.slots := by
  obtain ⟨j, hj⟩ := mem_iff_getElem?.mp ht
  rcases put_getElem? hi hj with ⟨-, rfl⟩ | ⟨-, hj'⟩
  · exact .inl rfl
  · exact .inr (mem_of_getElem? hj')

/-- No name is there twice. -/
def Distinct (v : View) : Prop :=
  ∀ (i j : ℕ) (s t : Slot), v.slots[i]? = some s → v.slots[j]? = some t → s.name = t.name →
    s.name ≠ [] → i = j

/-- Another slot with a name that no other has. -/
theorem Distinct.put (hv : v.Distinct) (hi : v.slots[i]? = some s)
    (hnew : s'.name ≠ [] → ∀ j t, j ≠ i → v.slots[j]? = some t → t.name ≠ s'.name) :
    (v.put i s').Distinct := by
  intro j k t u hj hk heq hne
  rcases put_getElem? hi hj with ⟨rfl, rfl⟩ | ⟨hji, hj'⟩
  · rcases put_getElem? hi hk with ⟨rfl, -⟩ | ⟨hki, hk'⟩
    · rfl
    · exact absurd heq.symm (hnew hne k u hki hk')
  · rcases put_getElem? hi hk with ⟨rfl, rfl⟩ | ⟨-, hk'⟩
    · exact absurd heq (hnew (heq ▸ hne) j t hji hj')
    · exact hv j k t u hj' hk' heq hne

/-- A slot that keeps its name, or loses it. -/
theorem Distinct.put_same (hv : v.Distinct) (hi : v.slots[i]? = some s)
    (hname : s'.name = [] ∨ s'.name = s.name) : (v.put i s').Distinct := by
  refine hv.put hi fun hne j t hji hj heq => ?_
  have hs := hname.resolve_left hne
  rw [hs] at hne heq
  exact hji (hv j i t s hj hi heq (by rwa [heq]))

/-- One more slot, which is empty. -/
theorem grow_getElem? {j : ℕ} {t : Slot} (hj : (v.slots ++ [({} : Slot)])[j]? = some t) :
    v.slots[j]? = some t ∨ t = {} := by
  rw [getElem?_append] at hj
  split at hj
  · exact .inl hj
  · exact .inr (mem_singleton.mp (mem_of_getElem? hj))

lemma Distinct.grow (hv : v.Distinct) : Distinct { v with slots := v.slots ++ [{}] } := by
  intro i j s t hi hj heq hne
  rcases grow_getElem? hi with hi' | rfl
  · rcases grow_getElem? hj with hj' | rfl
    · exact hv i j s t hi' hj' heq hne
    · exact absurd heq hne
  · exact absurd rfl hne

/-- Another slot that keeps the names as they should be. -/
theorem Names.put (hv : v.Names) (hi : v.slots[i]? = some s) (hneat : s'.flags.inUse ∨ s' = {})
    (hnamed : s'.flags.inUse → s'.name ≠ [])
    (hnew : s'.name ≠ [] → ∀ j t, j ≠ i → v.slots[j]? = some t → t.name ≠ s'.name) :
    (v.put i s').Names where
  neat t ht := by
    rcases mem_put hi ht with rfl | ht
    · exact hneat
    · exact hv.neat t ht
  named t ht := by
    rcases mem_put hi ht with rfl | ht
    · exact hnamed
    · exact hv.named t ht
  distinct := Distinct.put hv.distinct hi hnew

/-- The same name as before is no problem. -/
theorem Names.put_same (hv : v.Names) (hi : v.slots[i]? = some s)
    (hslot : s' = {} ∨ (s'.name = s.name ∧ s'.flags.inUse = s.flags.inUse ∧
      (s = {} → s' = {}))) : (v.put i s').Names := by
  have hs := mem_of_getElem? hi
  rcases hslot with rfl | ⟨hname, huse, hzero⟩
  · exact hv.put hi (.inr rfl) (fun h => nomatch h) fun h => absurd rfl h
  · refine hv.put hi ?_ ?_ ?_
    · rcases hv.neat s hs with h | h
      · exact .inl (by rwa [huse])
      · exact .inr (hzero h)
    · rw [huse, hname]
      exact hv.named s hs
    · intro hne j t hji hj heq
      rw [hname] at hne heq
      exact hji (hv.distinct j i t s hj hi heq (by rwa [heq]))

/-- The number of live slots with another slot in some place. -/
theorem countP_put (hi : v.slots[i]? = some s) (s' : Slot) :
    ((v.put i s').slots.countP fun s => s.Live) + (if s.Live then 1 else 0) =
      (v.slots.countP fun s => s.Live) + if s'.Live then 1 else 0 := by
  obtain ⟨hlt, hget⟩ := List.getElem?_eq_some_iff.mp hi
  have hle := boole_getElem_le_countP (p := fun s : Slot => decide s.Live) hlt
  rw [put, countP_set hlt]
  simp only [hget, decide_eq_true_eq] at hle ⊢
  omega

/-- Two children with the same id are the same. -/
theorem Kids.eq_of_pid (hv : v.Kids) {k l : Kid} (hk : k ∈ v.kids) (hl : l ∈ v.kids)
    (h : k.pid = l.pid) : k = l :=
  inj_on_of_nodup_map hv.nodup hk hl h

/-- The slots change, but not which of them are live, nor their processes. -/
theorem Kids.put_live (hv : v.Kids) (hi : v.slots[i]? = some s) (hlive : s'.Live ↔ s.Live)
    (hpid : s.Live → s'.pid = s.pid) : (v.put i s').Kids where
  child j t hj ht := by
    rcases put_getElem? hi hj with ⟨rfl, rfl⟩ | ⟨-, hj⟩
    · rw [hpid (hlive.mp ht)]
      exact hv.child j s hi (hlive.mp ht)
    · exact hv.child j t hj ht
  slot k hk j hj := by
    obtain ⟨t, ht, htl, htp⟩ := hv.slot k hk j hj
    by_cases hji : j = i
    · subst hji
      obtain rfl : s = t := Option.mem_unique hi ht
      exact ⟨s', put_getElem?_self hi, hlive.mpr htl, (hpid htl).trans htp⟩
    · exact ⟨t, by rw [put_getElem?_ne hji]; exact ht, htl, htp⟩
  nodup := hv.nodup
  count := by
    have hc := countP_put hi s'
    have hv' := hv.count
    simp only [hlive] at hc
    show v.nalive = _
    omega
  script := hv.script

/-- A slot without a process gets one. -/
theorem Kids.spawn (hv : v.Kids) {pid : ℕ} (hi : v.slots[i]? = some s) (hpid : s.pid = 0)
    (hstatus : s.flags.status = false) (hfresh : Fresh v.kids pid) :
    View.Kids { (v.put i { s with pid := pid }).bear ⟨pid, some i⟩ with
      nalive := v.nalive + 1 } where
  child j t hj ht := by
    rcases put_getElem? hi hj with ⟨rfl, rfl⟩ | ⟨-, hj⟩
    · exact mem_cons_self
    · exact mem_cons_of_mem _ (hv.child j t hj ht)
  slot k hk j hj := by
    rcases mem_cons.mp hk with rfl | hk
    · obtain rfl : i = j := Option.some.inj hj
      exact ⟨_, put_getElem?_self hi, ⟨hfresh.1, hstatus⟩, rfl⟩
    · obtain ⟨t, ht, htl, htp⟩ := hv.slot k hk j hj
      have hji : j ≠ i := by
        rintro rfl
        obtain rfl : s = t := Option.mem_unique hi ht
        exact htl.1 hpid
      exact ⟨t, by rw [← ht]; exact put_getElem?_ne hji, htl, htp⟩
  nodup := nodup_cons.mpr ⟨hfresh.2, hv.nodup⟩
  count := by
    have hc := countP_put hi { s with pid := pid }
    rw [if_neg (fun hl => hl.1 hpid), if_pos ⟨hfresh.1, hstatus⟩] at hc
    have hv' := hv.count
    show v.nalive + 1 = ((v.put i { s with pid := pid }).slots.countP _ : ℕ)
    omega
  script h := mem_cons_of_mem _ (hv.script h)

/-- A child is gone that no live slot has. -/
theorem Kids.bury (hv : v.Kids) {pid : ℕ} (hscr : v.scrpid ≠ pid)
    (hno : ∀ (i : ℕ) (s : Slot), v.slots[i]? = some s → s.Live → s.pid ≠ pid) :
    (v.bury pid).Kids where
  child j t hj ht := by
    have hne := hno j t hj ht
    exact mem_filter.mpr ⟨hv.child j t hj ht, by simpa using hne⟩
  slot k hk j hj := hv.slot k (mem_filter.mp hk).1 j hj
  nodup := hv.nodup.sublist (filter_sublist.map _)
  count := hv.count
  script h := by
    refine mem_filter.mpr ⟨hv.script h, ?_⟩
    have hpos : 0 < v.scrpid := h
    have hne : v.scrpid.toNat ≠ pid := by omega
    exact decide_eq_true hne

/-- A slot loses its process. -/
theorem Kids.reap (hv : v.Kids) (hi : v.slots[i]? = some s) (hlive : s.Live)
    (hscr : v.scrpid ≠ s.pid) (hdead : ¬s'.Live) :
    View.Kids { (v.put i s').bury s.pid with nalive := v.nalive - 1 } where
  child j t hj ht := by
    rcases put_getElem? hi hj with ⟨rfl, rfl⟩ | ⟨hji, hj⟩
    · exact absurd ht hdead
    · have hmem := hv.child j t hj ht
      refine mem_filter.mpr ⟨hmem, ?_⟩
      have hne : t.pid ≠ s.pid := by
        intro heq
        have hkid := hv.eq_of_pid hmem (hv.child i s hi hlive) heq
        exact hji (Option.some.inj (congrArg Kid.slot hkid))
      simpa using hne
  slot k hk j hj := by
    obtain ⟨hmem, hne⟩ := mem_filter.mp hk
    obtain ⟨t, ht, htl, htp⟩ := hv.slot k hmem j hj
    have hji : j ≠ i := by
      rintro rfl
      obtain rfl : s = t := Option.mem_unique hi ht
      simp [htp] at hne
    exact ⟨t, by rw [← ht]; exact put_getElem?_ne hji, htl, htp⟩
  nodup := hv.nodup.sublist (filter_sublist.map _)
  count := by
    have hc := countP_put hi s'
    rw [if_pos hlive, if_neg hdead] at hc
    have hv' := hv.count
    show v.nalive - 1 = ((v.put i s').slots.countP _ : ℕ)
    omega
  script h := by
    refine mem_filter.mpr ⟨hv.script h, ?_⟩
    have hpos : 0 < v.scrpid := h
    have hne : v.scrpid.toNat ≠ s.pid := by omega
    exact decide_eq_true hne

/-- The table is as it should be. -/
structure Sound (v : View) : Prop where
  names : v.Names
  kids : v.Kids

/-- One more slot. -/
theorem Sound.grow (hv : v.Sound) : Sound { v with slots := v.slots ++ [{}] } := by
  have hn := hv.names
  have hk := hv.kids
  refine ⟨⟨?_, ?_, Distinct.grow hn.distinct⟩, ⟨?_, ?_, hk.nodup, ?_, hk.script⟩⟩
  · intro t ht
    rcases mem_append.mp ht with ht | ht
    · exact hn.neat t ht
    · exact .inr (mem_singleton.mp ht)
  · intro t ht huse
    rcases mem_append.mp ht with ht | ht
    · exact hn.named t ht huse
    · obtain rfl := mem_singleton.mp ht
      cases huse
  · intro j t hj ht
    rcases grow_getElem? hj with hj' | rfl
    · exact hk.child j t hj' ht
    · exact absurd rfl ht.1
  · intro k hk' j hj
    obtain ⟨t, ht, hrest⟩ := hk.slot k hk' j hj
    refine ⟨t, ?_, hrest⟩
    show (v.slots ++ [({} : Slot)])[j]? = some t
    rw [List.getElem?_append_left (List.getElem?_eq_some_iff.mp ht).1]
    exact ht
  · show v.nalive = ((v.slots ++ [({} : Slot)]).countP _ : ℕ)
    rw [hk.count, countP_append]
    rfl

/-- The script is gone, which no slot is about. -/
theorem Kids.ended (hk : v.Kids) {pid : ℕ} (hpid : v.scrpid = pid) :
    View.Kids { v.bury pid with scrpid := 0 } := by
  have hno : ∀ (j : ℕ) (t : Slot), v.slots[j]? = some t → t.Live → t.pid ≠ pid := by
    intro j t hj ht heq
    have hpos : 0 < v.scrpid := by
      have := ht.1
      omega
    have hkid := hk.eq_of_pid (hk.child j t hj ht) (hk.script hpos) (by
      show t.pid = v.scrpid.toNat
      omega)
    cases congrArg Kid.slot hkid
  refine ⟨?_, ?_, ?_, hk.count, (fun h => nomatch h)⟩
  · intro j t hj ht
    exact mem_filter.mpr ⟨hk.child j t hj ht, decide_eq_true (hno j t hj ht)⟩
  · exact fun k hk' j hj => hk.slot k (mem_filter.mp hk').1 j hj
  · exact hk.nodup.sublist (filter_sublist.map _)

/-- **A clean move keeps the table as it should be.** -/
theorem Sound.move {quiet : Prop} {v v' : View} (hv : v.Sound) (hm : Move True quiet v v') :
    v'.Sound := by
  have hn := hv.names
  have hk := hv.kids
  cases hm with
  | grow => exact hv.grow
  | mark hi hlive =>
    refine ⟨hn.put_same hi (.inr ⟨rfl, rfl, ?_⟩), hk.put_live hi Iff.rfl fun _ => rfl⟩
    rintro rfl
    exact absurd rfl hlive.1
  | clear hi hdead =>
    refine ⟨hn.put_same hi (.inr ⟨rfl, rfl, ?_⟩),
      hk.put_live hi ⟨fun h => absurd rfl h.1, fun h => absurd h hdead⟩ fun h => absurd h hdead⟩
    rintro rfl
    rfl
  | wipe hi hdead =>
    exact ⟨hn.put_same hi (.inl rfl),
      hk.put_live hi ⟨fun h => absurd rfl h.1, fun h => absurd h hdead⟩ fun h => absurd h hdead⟩
  | claim hi hfree hpid hnew hname hstatus =>
    refine ⟨hn.put hi (.inl rfl) (fun _ => hname trivial) ?_,
      hk.put_live hi ⟨fun h => absurd rfl h.1, fun h => absurd hpid h.1⟩ fun h => absurd hpid h.1⟩
    exact fun hne j t _ hj heq => hne (hnew t (mem_of_getElem? hj) heq)
  | @spawn i s pid hi hpid hstatus huse hfresh _ =>
    have hput : (v.put i { s with pid := pid }).Names := by
      refine hn.put_same hi (.inr ⟨rfl, rfl, ?_⟩)
      rintro rfl
      cases huse
    exact ⟨⟨hput.neat, hput.named, hput.distinct⟩, hk.spawn hi hpid hstatus hfresh⟩
  | @reap i s s' hi hlive hscr hdead hslot =>
    have hput : (v.put i s').Names := by
      refine hn.put_same hi (hslot.imp_right fun h => ⟨h.1, h.2, ?_⟩)
      rintro rfl
      exact absurd rfl hlive.1
    exact ⟨⟨hput.neat, hput.named, hput.distinct⟩, hk.reap hi hlive hscr hdead⟩
  | lose _ _ _ hno => exact absurd trivial hno
  | script hscr hfresh =>
    refine ⟨⟨hn.neat, hn.named, hn.distinct⟩, ⟨?_, ?_, ?_, hk.count, ?_⟩⟩
    · exact fun j t hj ht => mem_cons_of_mem _ (hk.child j t hj ht)
    · intro k hk' j hj
      rcases mem_cons.mp hk' with rfl | hk'
      · cases hj
      · exact hk.slot k hk' j hj
    · exact nodup_cons.mpr ⟨hfresh.2, hk.nodup⟩
    · exact fun _ => mem_cons_self
  | ended hpid => exact ⟨⟨hn.neat, hn.named, hn.distinct⟩, hk.ended hpid⟩
  | forget _ =>
    exact ⟨⟨hn.neat, hn.named, hn.distinct⟩,
      ⟨hk.child, hk.slot, hk.nodup, hk.count, (fun h => nomatch h)⟩⟩
  | orphan hscr hno =>
    refine ⟨⟨hn.neat, hn.named, hn.distinct⟩, hk.bury hscr fun i s hi hs => ?_⟩
    exact hno s (mem_of_getElem? hi) hs

lemma Sound.moves {quiet : Prop} {v v' : View} (hv : v.Sound) (hm : Moves True quiet v v') :
    v'.Sound := by
  induction hm with
  | refl => exact hv
  | tail _ hstep ih => exact ih.move hstep

end View

/-! ### The hub -/

section Hub

variable {h : Hub}

lemma findByName_unique {name : List UInt8} {i : ℕ} {pc : Proc} (hne : name ≠ [])
    (hi : h.procs[i]? = some pc) (hname : pc.name = name)
    (huniq : ∀ (j : ℕ) (pc' : Proc), h.procs[j]? = some pc' → pc'.name = name → j = i) :
    h.findByName name = some i := by
  obtain ⟨hlt, hget⟩ := List.getElem?_eq_some_iff.mp hi
  rw [Hub.findByName, if_neg hne, findIdx?_eq_some_iff_getElem]
  refine ⟨hlt, by simp [hget, hname], fun j hj hp => ?_⟩
  have hjlt : j < h.procs.length := hj.trans hlt
  have := huniq j h.procs[j] (getElem?_eq_getElem hjlt) (by simpa using hp)
  omega

lemma signalable_iff (hv : h.view.Sound) {pc : Proc} (hpc : pc ∈ h.procs) :
    pc.signalable = true ↔ pc.slot.Live := by
  have hslot : pc.slot ∈ h.view.slots := mem_map.mpr ⟨pc, hpc, rfl⟩
  rw [Proc.signalable, Slot.Live]
  simp only [Bool.and_eq_true, decide_eq_true_eq, Bool.not_eq_true', and_assoc]
  refine ⟨fun h => h.2, fun h => ⟨?_, h⟩⟩
  rintro hzero
  rcases hv.names.neat _ hslot with huse | hz
  · have : pc.slot.flags.inUse = true := huse
    simp [Proc.slot, hzero] at this
  · exact h.1 (congrArg Slot.pid hz)

lemma Sound.tableOk (hv : h.view.Sound) : TableOk h := by
  have hlook : ∀ {i : ℕ} {pc : Proc}, h.procs[i]? = some pc → h.view.slots[i]? = some pc.slot :=
    fun hi => view_slot hi
  have huse : ∀ {pc : Proc}, pc ∈ h.procs → pc.flags ≠ {} → pc.flags.inUse := by
    intro pc hpc hne
    rcases hv.names.neat pc.slot (mem_map.mpr ⟨pc, hpc, rfl⟩) with hu | hz
    · exact hu
    · exact absurd (congrArg Slot.flags hz) hne
  have hname : ∀ {pc : Proc}, pc ∈ h.procs → pc.flags ≠ {} → pc.name ≠ [] := fun hpc hne =>
    hv.names.named _ (mem_map.mpr ⟨_, hpc, rfl⟩) (huse hpc hne)
  refine ⟨?_, ?_, ?_, ?_, ?_, ?_⟩
  · intro i pc hi hne
    have hn := hname (mem_of_getElem? hi) hne
    refine ⟨hn, findByName_unique hn hi rfl fun j pc' hj hn' => ?_⟩
    exact hv.names.distinct j i pc'.slot pc.slot (hlook hj) (hlook hi) hn' (by
      show pc'.name ≠ []
      rw [hn']
      exact hn)
  · intro i j pc pc' hi hj hne _ heq
    exact hv.names.distinct i j pc.slot pc'.slot (hlook hi) (hlook hj) heq
      (hname (mem_of_getElem? hi) hne)
  · intro i pc hi hpid hstatus
    have hs := (signalable_iff hv (mem_of_getElem? hi)).mpr ⟨hpid, hstatus⟩
    refine ⟨?_, hv.kids.child i pc.slot (hlook hi) ⟨hpid, hstatus⟩⟩
    rintro hzero
    simp [Proc.signalable, hzero] at hs
  · have hc : h.nalive = (h.view.slots.countP fun s => s.Live : ℕ) := hv.kids.count
    rw [hc]
    show ((h.procs.map Proc.slot).countP _ : ℤ) = _
    rw [countP_map]
    refine congrArg Nat.cast (countP_congr fun pc hpc => ?_)
    rw [signalable_iff hv hpc]
    simp
  · intro i j pc pc' hi hj hs hs' heq
    have h1 := hv.kids.child i pc.slot (hlook hi) ((signalable_iff hv (mem_of_getElem? hi)).mp hs)
    have h2 := hv.kids.child j pc'.slot (hlook hj) ((signalable_iff hv (mem_of_getElem? hj)).mp hs')
    have hkid := hv.kids.eq_of_pid h1 h2 heq
    exact Option.some.inj (congrArg Kid.slot hkid)
  · intro i pc hi hidle k hk hki
    obtain ⟨s, hs, hlive, -⟩ := hv.kids.slot k hk i hki
    obtain rfl : pc.slot = s := Option.some.inj ((hlook hi).symm.trans hs)
    rcases hidle with hst | hpid
    · have := hlive.2
      simp [Proc.slot, hst] at this
    · exact hlive.1 hpid

end Hub

/-! ### Runs -/

/-- One step of the main loop is an event that is handled. -/
theorem step_eq_some {w w' : World} {e : Event} (h : step w e = some w') :
    w.hub.possible e ∧ ∃ h', { w.hub with log := [] }.handle e = .ok h' ∧ w' = w.after e h' := by
  rw [step] at h
  split_ifs at h with hp
  split at h
  · rename_i h' hh
    exact ⟨hp, h', hh, (Option.some.inj h).symm⟩
  · cases h

lemma boot_sound {w : World} (hw : Boot w) : w.hub.view.Sound := by
  obtain ⟨pid, hpid, rfl⟩ := hw
  refine ⟨⟨?_, ?_, ?_⟩, ⟨?_, ?_, ?_, rfl, ?_⟩⟩
  · exact fun s hs => nomatch hs
  · exact fun s hs => nomatch hs
  · exact fun i j s t hi => nomatch hi
  · exact fun i s hi => nomatch hi
  · intro k hk i hi
    obtain rfl := mem_singleton.mp hk
    cases hi
  · exact nodup_singleton _
  · intro _
    simp [Hub.view]

/-- The table is as it should be, until force is used. -/
def World.Tabled (w : World) : Prop := w.forced = false → w.hub.view.Sound

lemma step_tabled {w w' : World} {e : Event} (hw : w.Tabled) (hcare : w.hub.Careful e)
    (hstep : step w e = some w') : w'.Tabled := by
  intro hf
  obtain ⟨-, h', hh, rfl⟩ := step_eq_some hstep
  obtain ⟨hf0, hf'⟩ := Bool.or_eq_false_iff.mp hf
  have hs := hw hf0
  have hf'' : .forced ∉ h'.log := by simpa using hf'
  have hcare' : { w.hub with log := [] }.Careful e := by
    cases e <;> exact hcare
  rcases handle_moves (h := { w.hub with log := [] }) hs.names.neat hh (fun _ : True => hcare')
    (False.elim : False → _) with hm | ⟨g, a, -, hforce⟩
  · exact hs.moves hm
  · exact absurd (forceShutdown_log hforce) fun hl => hf'' (by simp [hl])

lemma boot_tabled {w : World} (hw : Boot w) : w.Tabled := fun _ => boot_sound hw

/-- **The process table**: in every run in which all events are careful, the table is as it
should be, until force is used. -/
theorem table_ok {w : World} (h : Reach Boot step (fun w e => w.hub.Careful e) w)
    (hforced : w.forced = false) : TableOk w.hub := by
  have hinv : w.Tabled := h.invariant (fun _ => boot_tabled) fun _ _ _ => step_tabled
  exact Sound.tableOk (hinv hforced)

/-! ### Two runs -/

/-- The hub with its startup script. -/
def sampleBoot : World :=
  ⟨{ state := .startup, rbmode := none, scrpid := 1, sigcnt := 0, ctlfd := true, nalive := 0,
     procs := [], conns := [], kids := [⟨1, none⟩], alarm := false, reaping := false,
     log := [] }, false, none, false⟩

lemma sampleBoot_boot : Boot sampleBoot := ⟨1, by decide, rfl⟩

lemma nonul_a : (0 : UInt8) ∉ [97] := by decide

/-- The script starts a service, which ends a hundred seconds later. -/
def sampleService (fork : Option ℕ) : List Event :=
  [.connect, .command 0 (.start (some ⟨[97], nonul_a⟩)) { fork := some 5, time := 100 },
    .chld, .reap 5 0 { fork := fork, time := 200 }]

/-- A service is started, and again when it ends. -/
theorem table_ok_sample :
    ∃ w : World, w.hub.nalive = 1 ∧ w.hub.kids = [⟨7, some 0⟩, ⟨1, none⟩] ∧ TableOk w.hub := by
  have hrun : ((sampleService (some 7)).foldlM
      (fun w e => if Hub.Careful (World.hub w) e then step w e else none) sampleBoot).any
      (fun w => w.forced = false ∧ w.hub.nalive = 1 ∧
        w.hub.kids = [⟨7, some 0⟩, ⟨1, none⟩]) = true := by
    decide +kernel
  obtain ⟨w, hw, hrest⟩ := (any_eq_true _ _).mp hrun
  obtain ⟨hforced, hone, hkids⟩ := of_decide_eq_true hrest
  exact ⟨w, hone, hkids, table_ok ((Reach.start sampleBoot_boot).foldlM hw) hforced⟩

/-- **A process that is not there**: if there is none to be had for a service that is to be
started again, its slot keeps the one that has died. -/
theorem table_broken :
    ¬∀ w, Reach Boot step (fun _ _ => True) w → w.forced = false → TableOk w.hub := by
  intro h
  have hrun : ((sampleService none).foldlM
      (fun w e => if True then step w e else none) sampleBoot).any
      (fun w => w.forced = false ∧ w.hub.nalive = 0 ∧
        w.hub.procs.countP Proc.signalable = 1) = true := by
    decide +kernel
  obtain ⟨w, hw, hrest⟩ := (any_eq_true _ _).mp hrun
  obtain ⟨hforced, hnone, hone⟩ := of_decide_eq_true hrest
  have hreach : Reach Boot step (fun _ _ => True) w := (Reach.start sampleBoot_boot).foldlM hw
  have hcount := (h w hreach hforced).nalive
  rw [hnone, hone] at hcount
  cases hcount

end Minibase.Svchub
