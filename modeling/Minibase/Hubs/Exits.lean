import Minibase.Lib.Runs
import Minibase.Apphub.Hub
import Minibase.Ptyhub.Hub

/-!
# Children that end

Both hubs ask to be told of orphans too, so `waitpid` may return processes that are in no
entry. `Hubs.checkChildren_settles_iff` says when all exits are taken note of, for every table
that is in order, `Hubs.Tidy`; those the hubs get into are (`Apphub.tidy_of_reach` and
`Ptyhub.tidy_of_reach`). Entries change in two ways only: processes go (`Hubs.Fading`), and a
new one comes to an entry not in use.
-/

namespace Minibase

namespace Hubs

open List Proc

variable {D : Type}

/-! ### Entries going -/

/-- Every entry has its process as before, or none any more. -/
def Fading (procs procs' : List (Proc D)) : Prop :=
  List.Forall₂ (fun pc pc' => pc'.core = pc.core ∨ pc'.pid ≤ 0) procs procs'

namespace Fading

variable {l l' l'' : List (Proc D)} {i : ℕ}

lemma refl (l : List (Proc D)) : Fading l l := forall₂_same.mpr fun _ _ => .inl rfl

lemma trans (h : Fading l l') (h' : Fading l' l'') : Fading l l'' := by
  induction h generalizing l'' with
  | nil => exact h'
  | cons hpc _ ih =>
    obtain ⟨pc'', rest'', hpc', hrest, rfl⟩ := forall₂_cons_left_iff.mp h'
    refine .cons ?_ (ih hrest)
    rcases hpc' with hpc' | hdead
    · exact hpc.imp hpc'.trans fun hle => (congrArg Prod.snd hpc').trans_le hle
    · exact .inr hdead

lemma of_cores (h : l'.map core = l.map core) : Fading l l' := by
  induction l generalizing l' with
  | nil =>
    rw [map_nil, map_eq_nil_iff] at h
    exact h ▸ .nil
  | cons pc rest ih =>
    obtain ⟨pc', rest', rfl, hpc, hrest⟩ := map_eq_cons_iff.mp h
    exact .cons (.inl hpc) (ih hrest)

lemma set {pc' : Proc D} (h : ∀ pc, l[i]? = some pc → pc'.core = pc.core ∨ pc'.pid ≤ 0) :
    Fading l (l.set i pc') := by
  induction l generalizing i with
  | nil => exact .nil
  | cons pc rest ih =>
    cases i with
    | zero => exact .cons (h pc rfl) (refl rest)
    | succ i => exact .cons (.inl rfl) (ih h)

lemma mapIdx {f : ℕ → Proc D → Proc D} (h : ∀ j pc, f j pc = pc ∨ (f j pc).pid ≤ 0)
    (l : List (Proc D)) : Fading l (l.mapIdx f) := by
  induction l generalizing f with
  | nil => exact .nil
  | cons pc rest ih =>
    rw [mapIdx_cons]
    exact .cons ((h 0 pc).imp_left (congrArg core)) (ih fun j pc => h (j + 1) pc)

lemma pids_sublist (h : Fading l l') : (pids l').Sublist (pids l) := by
  induction h with
  | nil => exact List.Sublist.refl _
  | @cons pc pc' l l' hpc _ ih =>
    by_cases hle : pc'.pid ≤ 0
    · rw [pids_cons_neg hle]
      refine ih.trans ?_
      exact ((sublist_cons_self pc l).map pid).filter _
    · have hpid : pc'.pid = pc.pid := congrArg Prod.snd (hpc.resolve_right hle)
      rw [pids_cons_pos (Int.not_le.mp hle), hpid, pids_cons_pos (hpid ▸ Int.not_le.mp hle)]
      exact ih.cons_cons _

lemma countP_le (h : Fading l l') : l'.countP runs ≤ l.countP runs := by
  induction h with
  | nil => exact le_refl _
  | @cons pc pc' l l' hpc _ ih =>
    have hruns : pc'.runs = true → pc.runs = true := by
      intro hr
      rcases hpc with hcore | hle
      · have hx : pc'.xid = pc.xid := congrArg Prod.fst hcore
        have hp : pc'.pid = pc.pid := congrArg Prod.snd hcore
        rwa [runs, hx, hp] at hr
      · exact absurd hle (Int.not_le.mpr (by simpa using (Bool.and_eq_true_iff.mp hr).2))
    rw [countP_cons, countP_cons]
    by_cases hr : pc'.runs = true
    · rw [if_pos hr, if_pos (hruns hr)]
      omega
    · rw [if_neg hr]
      omega

lemma exists_core (h : Fading l l') {pc' : Proc D} (hpc' : pc' ∈ l') (hpos : 0 < pc'.pid) :
    ∃ pc ∈ l, pc'.core = pc.core := by
  induction h with
  | nil => cases hpc'
  | @cons pc _ l _ hpc _ ih =>
    rcases mem_cons.mp hpc' with rfl | hrest
    · exact ⟨pc, mem_cons_self, hpc.resolve_right (Int.not_le.mpr hpos)⟩
    · obtain ⟨pc₁, hmem, hcore⟩ := ih hrest
      exact ⟨pc₁, mem_cons_of_mem _ hmem, hcore⟩

/-- A table stays in order when processes go. -/
theorem orderly (h : Fading l l') (ho : Orderly l) : Orderly l' where
  distinct := ho.distinct.sublist h.pids_sublist
  used pc' hpc' hpos := by
    obtain ⟨pc, hpc, hcore⟩ := h.exists_core hpc' hpos
    have hx : pc'.xid = pc.xid := congrArg Prod.fst hcore
    have hp : pc'.pid = pc.pid := congrArg Prod.snd hcore
    rw [hx]
    exact ho.used pc hpc (hp ▸ hpos)

end Fading

namespace Orderly

variable {l l' : List (Proc D)}

lemma sublist (h : l'.Sublist l) (ho : Orderly l) : Orderly l' where
  distinct := ho.distinct.sublist ((h.map pid).filter _)
  used pc hpc := ho.used pc (h.subset hpc)

/-- A new process comes to an entry. -/
theorem set {pc : Proc D} (ho : Orderly l) (hx : pc.xid ≠ 0) (hp : pc.pid ∉ pids l) (i : ℕ) :
    Orderly (l.set i pc) where
  distinct := by
    by_cases hle : pc.pid ≤ 0
    · exact ho.distinct.sublist (Fading.set fun _ _ => .inr hle).pids_sublist
    · cases hi : l[i]? with
      | none =>
        rw [set_eq_of_length_le (getElem?_eq_none_iff.mp hi)]
        exact ho.distinct
      | some old =>
        obtain ⟨hsplit, hset⟩ := split_at hi
        have hsub : (pids (l.take i) ++ pids (l.drop (i + 1))).Sublist (pids l) := by
          conv_rhs => rw [hsplit, pids_append]
          refine List.Sublist.append_left ?_ _
          exact ((sublist_cons_self old _).map pid).filter _
        rw [hset, pids_append, pids_cons_pos (Int.not_le.mp hle), nodup_middle, nodup_cons]
        exact ⟨fun hmem => hp (hsub.subset hmem), ho.distinct.sublist hsub⟩
  used pc' hpc' hpos := by
    rcases mem_or_eq_of_mem_set hpc' with hmem | rfl
    · exact ho.used pc' hmem hpos
    · exact hx

end Orderly

namespace Tidy

variable {h h' : Hub D}

/-- Processes have gone, with the counts as they were. -/
theorem fade (ht : Tidy h) (hf : Fading h.procs h'.procs) (hr : h'.running = h.running)
    (hx : h'.lastxid = h.lastxid) : Tidy h' where
  toOrderly := hf.orderly ht.toOrderly
  counted := hr ▸ hf.countP_le.trans ht.counted
  numbered := hx ▸ ht.numbered

/-- The counts have been made anew. -/
theorem recounted (ho : Orderly h.procs) (hx : 0 ≤ h.lastxid) : Tidy h.updateProcCounts where
  toOrderly := by
    rw [procs_updateProcCounts]
    exact ho.sublist (trimmed_sublist _)
  counted := by
    have := counted_updateProcCounts h
    rw [Counted, recount_eq] at this
    exact le_of_eq (congrArg (fun c : ℕ × ℕ × ℕ => c.2.2) this)
  numbered := hx

end Tidy

/-! ### What the hubs do -/

section

variable [Zero D] {h : Hub D} {i : ℕ}

lemma fading_wipeProc (h : Hub D) (i : ℕ) : Fading h.procs (h.wipeProc i).procs :=
  .set fun _ _ => .inr (Int.le_of_eq pid_zero)

lemma fading_wipeStaleEntries (h : Hub D) (i : ℕ) :
    Fading h.procs (h.wipeStaleEntries i).procs := by
  refine .mapIdx (fun j pc => ?_) _
  split
  · exact .inr (Int.le_of_eq pid_zero)
  · exact .inl rfl

lemma Tidy.flushProc (ht : Tidy h) (i : ℕ) : Tidy (h.flushProc i) := by
  rw [Hub.flushProc]
  split
  · exact ht
  · rename_i pc hpc
    split
    · exact .recounted ((fading_wipeProc h i).orderly ht.toOrderly) ht.numbered
    · refine ht.fade (.set fun pc' hpc' => .inl ?_) rfl rfl
      obtain rfl : pc = pc' := Option.mem_unique hpc hpc'
      rfl

omit [Zero D] in
lemma Tidy.nextXid_pos (ht : Tidy h) : 0 < h.nextXid := by
  have := ht.numbered
  rw [Hub.nextXid]
  split <;> omega

omit [Zero D] in
lemma Tidy.pickUnusedXid (ht : Tidy h) : Tidy h.pickUnusedXid.2 ∧ h.pickUnusedXid.1 ≠ 0 := by
  have hnext := ht.nextXid_pos
  rw [Hub.pickUnusedXid]
  split
  · refine ⟨ht, ?_⟩
    show -EAGAIN ≠ 0
    decide
  · exact ⟨⟨ht.toOrderly, ht.counted, Int.le_of_lt hnext⟩, Int.ne_of_gt hnext⟩

lemma Tidy.grabProc (ht : Tidy h) {brk : Bool} {h' : Hub D} (hg : h.grabProc brk = some (i, h')) :
    Tidy h' ∧ (∀ p, p ∈ pids h'.procs → p ∈ pids h.procs) := by
  rw [Hub.grabProc] at hg
  split at hg
  · rename_i j _
    obtain ⟨rfl, rfl⟩ := Prod.mk.inj (Option.some.inj hg)
    have hf := fading_wipeProc h j
    exact ⟨ht.fade hf rfl rfl, fun p hp => hf.pids_sublist.subset hp⟩
  · split at hg
    · obtain ⟨rfl, rfl⟩ := Prod.mk.inj (Option.some.inj hg)
      have hpids : pids (h.procs ++ [(0 : Proc D)]) = pids h.procs := by
        rw [pids_append, pids_cons_neg (Int.le_of_eq pid_zero)]
        exact append_nil _
      refine ⟨⟨⟨hpids ▸ ht.distinct, fun pc hpc hpos => ?_⟩, ?_, ht.numbered⟩,
        fun p hp => hpids ▸ hp⟩
      · rcases mem_append.mp hpc with hpc | hpc
        · exact ht.used pc hpc hpos
        · obtain rfl := mem_singleton.mp hpc
          exact absurd hpos (Int.lt_irrefl 0)
      · rw [countP_append]
        exact ht.counted
    · cases hg

lemma Tidy.checkChildren {notify : Hub D → ℕ → Exit → Hub D} (hq : Quiet notify) {last : ℤ}
    {batch : List Exit} (ht : Tidy h) {h' : Hub D} {rest : List Exit}
    (hout : Hub.checkChildren notify last h batch = some (h', rest)) : Tidy h' := by
  induction batch generalizing h with
  | nil =>
    rw [Hub.checkChildren] at hout
    split at hout
    · cases hout
    · cases hout
      exact .recounted ht.toOrderly ht.numbered
  | cons e batch ih =>
    rw [Hub.checkChildren] at hout
    split at hout
    · cases hout
      exact ht
    · rename_i i hi
      exact ih (round hq ht hi).1 hout

end

section

variable {h : Hub D} {h' : Hub D}

lemma Like.of_procs (hp : h'.procs = h.procs) (hn : h'.nonempty = h.nonempty)
    (hr : h'.running = h.running) (hx : h'.lastxid = h.lastxid) : Like h h' :=
  ⟨congrArg _ hp, hn, hr, hx⟩

@[simp] lemma procs_addEpollFd (h : Hub D) (fd : ℤ) (key : ℕ) :
    (h.addEpollFd fd key).procs = h.procs := by
  rw [Hub.addEpollFd]
  split <;> rfl

lemma Like.addEpollFd (h : Hub D) (fd : ℤ) (key : ℕ) : Like h (h.addEpollFd fd key) := by
  rw [Hub.addEpollFd]
  split <;> exact .of_procs rfl rfl rfl rfl

lemma grabConnSlot_eq {fd : ℤ} {c : ℕ} (hg : h.grabConnSlot fd = some (c, h')) :
    h' = { h with conns := h'.conns } := by
  rw [Hub.grabConnSlot] at hg
  split at hg
  · obtain ⟨-, rfl⟩ := Prod.mk.inj (Option.some.inj hg)
    rfl
  · split at hg
    · cases hg
    · obtain ⟨-, rfl⟩ := Prod.mk.inj (Option.some.inj hg)
      rfl

lemma Like.checkSocket (h : Hub D) (fd : ℤ) : Like h (h.checkSocket fd) := by
  simp only [Hub.checkSocket]
  split
  · exact .of_procs rfl rfl rfl rfl
  · rename_i c h' hg
    refine Like.trans ?_ (Like.addEpollFd h' fd _)
    rw [grabConnSlot_eq hg]
    exact .of_procs rfl rfl rfl rfl

variable {l : List (Proc D)}

/-- An entry is changed in other things than its process. -/
theorem cores_set {i : ℕ} {pc pc' : Proc D} (hi : l[i]? = some pc)
    (hc : pc'.core = pc.core) : (l.set i pc').map core = l.map core := by
  obtain ⟨hsplit, hset⟩ := split_at hi
  rw [hset, map_append, map_cons, hc]
  conv_rhs => rw [hsplit, map_append, map_cons]

lemma Like.orderly (hl : Like h h') (ho : Orderly h.procs) : Orderly h'.procs :=
  (Fading.of_cores hl.cores).orderly ho

lemma modify_eq_set {i : ℕ} {pc : Proc D} (hi : l[i]? = some pc)
    (f : Proc D → Proc D) : l.modify i f = l.set i (f pc) := by
  refine ext_getElem? fun j => ?_
  rw [getElem?_modify, getElem?_set]
  obtain ⟨hlt, -⟩ := List.getElem?_eq_some_iff.mp hi
  by_cases hj : i = j
  · subst hj
    rw [if_pos rfl, if_pos hlt, hi]
    simp
  · rw [if_neg hj]
    simp [hj]

lemma modify_eq_self {i : ℕ} (hi : l[i]? = none) (f : Proc D → Proc D) : l.modify i f = l :=
  List.modify_eq_self (List.getElem?_eq_none_iff.mp hi)

lemma cores_modify {f : Proc D → Proc D} (hf : ∀ pc, (f pc).core = pc.core) (l : List (Proc D))
    (i : ℕ) : (l.modify i f).map core = l.map core := by
  cases hi : l[i]? with
  | none => rw [modify_eq_self hi]
  | some pc =>
    rw [modify_eq_set hi]
    exact cores_set hi (hf pc)

/-- The hub as it starts: there are no processes and no clients, and epoll watches the control
socket and the signals. -/
structure Boot (w : World D) : Prop where
  failed : w.failed = false
  procs : w.hub.procs = []
  nonempty : w.hub.nonempty = 0
  running : w.hub.running = 0
  lastxid : w.hub.lastxid = 0
  conns : w.hub.conns = []
  sound : w.hub.kernel.Sound
  nonneg : ∀ (fd : ℤ) (f : ℕ), w.hub.kernel.fileOf fd = some f → 0 ≤ fd
  keyed : ∀ r ∈ w.hub.kernel.regs, pkeyGroup r.key = 0

/-- A hub that has just started. -/
def newHub (D : Type) : World D := ⟨⟨[], 0, 0, 0, [], ⟨[], [], 0, []⟩⟩, false⟩

lemma boot_newHub (D : Type) : Boot (newHub D) where
  failed := rfl
  procs := rfl
  nonempty := rfl
  running := rfl
  lastxid := rfl
  conns := rfl
  sound := ⟨fun _ hp => (nomatch hp), fun _ hp => (nomatch hp), fun _ hr => (nomatch hr)⟩
  nonneg _ _ hf := nomatch hf
  keyed _ hr := nomatch hr

lemma Boot.tidy {w : World D} (hb : Boot w) : Tidy w.hub where
  distinct := by
    rw [hb.procs]
    exact nodup_nil
  used := by
    rw [hb.procs]
    exact fun pc hpc => nomatch hpc
  counted := by
    rw [hb.procs]
    exact Nat.zero_le _
  numbered := Int.le_of_eq hb.lastxid.symm

end

end Hubs

/-! ### The application hub -/

namespace Apphub

open Hubs

variable {h : Hub} {i : ℕ} {a : Answers}

/-- A process has been started in an entry with a name, or none has. -/
theorem orderly_forked {pc : Proc ℤ} (ho : Orderly h.procs) (hi : h.procs[i]? = some pc)
    (hx : pc.xid ≠ 0) (hfork : ∀ pid ∈ a.fork, pid ∉ pids h.procs) :
    Orderly (Hub.forked h i a).procs := by
  rw [Hub.forked]
  split
  · exact ho
  · rename_i pid hpid
    rw [modify_eq_set hi]
    refine ho.set ?_ ?_ i
    · exact hx
    · exact hfork pid hpid

lemma lastxid_forked (h : Hub) (i : ℕ) (a : Answers) : (Hub.forked h i a).lastxid = h.lastxid := by
  rw [Hub.forked]
  split <;> rfl

lemma like_addPipeFd (h : Hub) (i : ℕ) : Like h (Hub.addPipeFd h i) := by
  rw [Hub.addPipeFd]
  split
  · exact .refl h
  · exact Like.addEpollFd ..

lemma tidy_spawnAt {xid : ℤ} {name : List UInt8} (ht : Tidy h) (hi : i < h.procs.length)
    (hx : xid ≠ 0) (hfork : ∀ pid ∈ a.fork, pid ∉ pids h.procs) :
    Tidy (Hub.spawnAt h i a xid name).2 := by
  have hnamed : Fading h.procs (h.setProc i (.fresh xid name)).procs :=
    .set fun _ _ => .inr (Int.le_refl 0)
  by_cases hok : a.pipe = 0
  · have hget : (h.setProc i (.fresh xid name)).procs[i]? = some (.fresh xid name) :=
      List.getElem?_set_self hi
    have hforked := orderly_forked (hnamed.orderly ht.toOrderly) hget hx
      fun pid hpid hmem => hfork pid hpid (hnamed.pids_sublist.subset hmem)
    have hlike := like_addPipeFd (Hub.forked (h.setProc i (.fresh xid name)) i a) i
    rw [Hub.spawnAt_of_eq_zero hok]
    refine .recounted ((fading_wipeStaleEntries _ i).orderly (hlike.orderly hforked)) ?_
    exact (hlike.lastxid.trans (lastxid_forked ..)).symm ▸ ht.numbered
  · rw [Hub.spawnAt_of_ne_zero hok]
    exact ht.fade (hnamed.trans (fading_wipeProc _ _)) rfl rfl

lemma tidy_spawnChild {argv : List (List UInt8)} (ht : Tidy h)
    (hfork : ∀ pid ∈ a.fork, pid ∉ pids h.procs) : Tidy (Hub.spawnChild h a argv).2 := by
  obtain ⟨hpick, hne⟩ := ht.pickUnusedXid
  simp only [Hub.spawnChild]
  split
  · exact ht
  split
  · exact ht
  split
  · exact ht
  split
  · exact hpick
  split
  · exact hpick
  split
  · exact hpick
  · rename_i i h' hg
    obtain ⟨ht', hpids⟩ := hpick.grabProc hg
    obtain ⟨-, -, hzero, -⟩ := grabProc_spec hg
    have hlt := (getElem?_eq_some_iff.mp hzero).choose
    refine tidy_spawnAt ht' hlt hne fun pid hpid hmem => ?_
    exact hfork pid hpid (procs_pickUnusedXid h ▸ hpids pid hmem)

lemma like_closePipe (h : Hub) (i : ℕ) : Like h (Hub.closePipe h i) := by
  rw [Hub.closePipe]
  split
  · exact .refl h
  · rename_i pc hpc
    split
    · exact .refl h
    · exact ⟨cores_set hpc rfl, rfl, rfl, rfl⟩

lemma like_handlePipe (h : Hub) (i : ℕ) (mmap : Bool) (read : Option ℕ) :
    Like h (Hub.handlePipe h i mmap read) := by
  rw [Hub.handlePipe]
  split
  · exact .refl h
  · rename_i pc hpc
    split
    · exact like_closePipe h i
    · exact ⟨cores_set hpc rfl, rfl, rfl, rfl⟩

lemma like_closeConn (h : Hub) (c : ℕ) : Like h (Hub.closeConn h c) := by
  rw [Hub.closeConn]
  split
  · exact .refl h
  · split
    · exact .refl h
    · exact .of_procs rfl rfl rfl rfl

lemma tidy_call {req : Request} (ht : Tidy h) (hfork : ∀ pid ∈ a.fork, pid ∉ pids h.procs) :
    Tidy (Hub.call h a req).2 := by
  cases req with
  | spawn argv envp => exact tidy_spawnChild ht hfork
  | flush xid =>
    rw [Hub.call, Hub.cmdFlush]
    split
    · exact ht
    · split
      · exact ht
      · exact ht.flushProc _
  | _ => exact ht

lemma tidy_handleConn {c : ℕ} {req : Request} (ht : Tidy h)
    (hfork : ∀ pid ∈ a.fork, pid ∉ pids h.procs) : Tidy (Hub.handleConn h a c req) := by
  have hcall : Tidy (Hub.call h a req).2 := tidy_call ht hfork
  simp only [Hub.handleConn]
  split
  · exact hcall
  · exact (like_closeConn _ c).tidy hcall

lemma tidy_processProc {input other mmap : Bool} {read : Option ℕ} (ht : Tidy h) :
    Tidy (processProc h i input other mmap read).hub := by
  simp only [processProc]
  split
  · exact ht
  · have hin : Tidy (if input then Hub.handlePipe h i mmap read else h) := by
      split
      · exact (like_handlePipe h i mmap read).tidy ht
      · exact ht
    split
    · exact (like_closePipe _ i).tidy hin
    · exact hin

lemma tidy_turn {w : World} {e : Event} (ht : Tidy h) (hs : turn h e = some w) : Tidy w.hub := by
  cases e with
  | connect fd =>
    obtain ⟨-, hs⟩ := Option.ite_none_right_eq_some.mp hs
    cases hs
    exact (Like.checkSocket h fd).tidy ht
  | request c req a =>
    obtain ⟨hpos, hs⟩ := Option.ite_none_right_eq_some.mp hs
    cases hs
    exact tidy_handleConn ht fun pid hpid => (hpos.2.2.2.2 pid hpid).2
  | hangup c =>
    cases hs
    exact (like_closeConn h c).tidy ht
  | exits batch last =>
    obtain ⟨⟨h', rest⟩, hout, rfl⟩ := Option.map_eq_some_iff.mp hs
    exact ht.checkChildren (fun h _ _ => .refl h) hout
  | poll r input other mmap read =>
    obtain ⟨-, hs⟩ := Option.ite_none_right_eq_some.mp hs
    split at hs
    · cases hs
      exact tidy_processProc ht
    · cases hs
      exact ht
  | hold f =>
    cases hs
    exact Like.tidy (h := h) (.of_procs rfl rfl rfl rfl) ht
  | release f =>
    cases hs
    exact Like.tidy (h := h) (.of_procs rfl rfl rfl rfl) ht

/-- **Whatever happens, the table is in order.** -/
theorem tidy_of_reach {w : World} (hw : Reach Boot step (fun _ _ => True) w) : Tidy w.hub := by
  induction hw with
  | start hb => exact hb.tidy
  | next _ _ hs ih =>
    obtain ⟨-, hs⟩ := Option.ite_none_left_eq_some.mp hs
    exact tidy_turn ih hs

end Apphub

/-! ### The terminal hub -/

namespace Ptyhub

open Hubs

variable {h : Hub} {i : ℕ} {a : Answers}

lemma like_setFds (h : Hub) (i : ℕ) (f : Fds → Fds) : Like h (Hub.setFds h i f) := by
  have hf : ∀ pc : Proc Fds, ({ pc with fds := f pc.fds } : Proc Fds).core = pc.core :=
    fun _ => rfl
  exact ⟨cores_modify hf h.procs i, rfl, rfl, rfl⟩

lemma like_withKernel (h : Hub) (k : Kernel) : Like h (Hub.withKernel h k) :=
    .of_procs rfl rfl rfl rfl

lemma like_detach (h : Hub) (i : ℕ) : Like h (Hub.detach h i) :=
  (like_setFds h i _).trans (Like.addEpollFd ..)

lemma like_detachClient (h : Hub) (fd : ℤ) : Like h (Hub.detachClient h fd) := by
  rw [Hub.detachClient]
  generalize List.range h.procs.length = l
  induction l generalizing h with
  | nil => exact .refl h
  | cons i l ih =>
    rw [List.foldl_cons]
    refine Like.trans ?_ (ih _)
    split
    · exact like_detach h i
    · exact .refl h

lemma like_closeConn (h : Hub) (c : ℕ) : Like h (Hub.closeConn h c) := by
  rw [Hub.closeConn]
  split
  · exact .refl h
  · rename_i fd _
    split
    · exact .refl h
    · have hclosed : Like h (h.closeConnFd c fd) := .of_procs rfl rfl rfl rfl
      have hdetached := hclosed.trans (like_detachClient _ fd)
      exact ⟨hdetached.cores, hdetached.nonempty, hdetached.running, hdetached.lastxid⟩

/-- What the hub tells a client changes nothing about the processes. -/
theorem quiet_notifyExit : Quiet Hub.notifyExit := by
  intro h i e
  rw [Hub.notifyExit]
  split
  · exact .refl h
  · split
    · exact .refl h
    · exact like_closeConn h _

lemma like_closeStdout (h : Hub) (i : ℕ) : Like h (Hub.closeStdout h i) := by
  simp only [Hub.closeStdout]
  split
  · exact .refl h
  · exact (like_setFds h i _).trans (like_withKernel ..)

lemma like_closeStderr (h : Hub) (i : ℕ) : Like h (Hub.closeStderr h i) := by
  simp only [Hub.closeStderr]
  split
  · exact .refl h
  · exact (like_setFds h i _).trans (like_withKernel ..)

lemma like_handleStdout (h : Hub) (i : ℕ) (flushed : Bool) :
    Like h (Hub.handleStdout h i flushed) := by
  rw [Hub.handleStdout]
  split
  · exact .refl h
  · exact like_closeStdout h i

lemma like_handleStderr (h : Hub) (i : ℕ) (mmap : Bool) (read : Option ℕ) :
    Like h (Hub.handleStderr h i mmap read) := by
  rw [Hub.handleStderr]
  split
  · exact .refl h
  · rename_i pc hpc
    split
    · exact like_closeStderr h i
    · exact ⟨cores_set hpc rfl, rfl, rfl, rfl⟩

lemma like_replyStart (h : Hub) (i : ℕ) (a : Answers) : Like h (Hub.replyStart h i a).2 := by
  rw [Hub.replyStart]
  split
  · exact .refl h
  · split
    · exact .refl h
    · exact like_withKernel ..

lemma orderly_forked {pc : Proc Fds} (ho : Orderly h.procs) (hi : h.procs[i]? = some pc)
    (hx : pc.xid ≠ 0) (hpid : a.pid ∉ pids h.procs) : Orderly (Hub.forked h i a).procs := by
  rw [Hub.forked, modify_eq_set hi]
  refine ho.set ?_ ?_ i
  · exact hx
  · exact hpid

lemma like_addStderrFd (h : Hub) (i : ℕ) : Like h (Hub.addStderrFd h i) := Like.addEpollFd ..

lemma tidy_spawnAt {xid : ℤ} {name : List UInt8} (ht : Tidy h) (hi : i < h.procs.length)
    (hx : xid ≠ 0) (hpid : a.pid ∉ pids h.procs) : Tidy (Hub.spawnAt h i a xid name).2 := by
  have hnamed : Fading h.procs (h.setProc i (.fresh xid name)).procs :=
    .set fun _ _ => .inr (Int.le_refl 0)
  by_cases hok : a.open_ = 0
  · have hget : (h.setProc i (.fresh xid name)).procs[i]? = some (.fresh xid name) :=
      List.getElem?_set_self hi
    have hforked := orderly_forked (hnamed.orderly ht.toOrderly) hget hx
      fun hmem => hpid (hnamed.pids_sublist.subset hmem)
    have hlike := like_addStderrFd (Hub.forked (h.setProc i (.fresh xid name)) i a) i
    rw [Hub.spawnAt_of_eq_zero hok]
    refine .recounted ((fading_wipeStaleEntries _ i).orderly (hlike.orderly hforked)) ?_
    exact hlike.lastxid.symm ▸ ht.numbered
  · rw [Hub.spawnAt_of_ne_zero hok]
    exact ht.fade (hnamed.trans (fading_wipeProc _ _)) rfl rfl

lemma tidy_spawnChild {argv : List (List UInt8)} (ht : Tidy h) (hpid : a.pid ∉ pids h.procs) :
    Tidy (Hub.spawnChild h a argv).2 := by
  obtain ⟨hpick, hne⟩ := ht.pickUnusedXid
  simp only [Hub.spawnChild]
  split
  · exact ht
  split
  · exact ht
  split
  · exact ht
  split
  · exact hpick
  split
  · exact hpick
  split
  · exact hpick
  · rename_i i h' hg
    obtain ⟨ht', hpids⟩ := hpick.grabProc hg
    obtain ⟨-, -, hzero, -⟩ := grabProc_spec hg
    have hlt := (getElem?_eq_some_iff.mp hzero).choose
    refine tidy_spawnAt ht' hlt hne fun hmem => ?_
    exact hpid (procs_pickUnusedXid h ▸ hpids _ hmem)

lemma fading_flushDead (stuck : List ℕ) (l : List (Proc Fds)) (i : ℕ) :
    Fading l (Hub.flushDead stuck i l).2 := by
  induction l generalizing i with
  | nil => exact .nil
  | cons pc rest ih =>
    rw [Hub.flushDead]
    split
    · exact .cons (.inl rfl) (ih (i + 1))
    · split
      · exact .refl _
      · exact .cons (.inr (Int.le_of_eq pid_zero)) (ih (i + 1))

lemma tidy_call {fd : ℤ} {req : Request} (ht : Tidy h) (hpid : a.pid ∉ pids h.procs) :
    Tidy (Hub.call h a fd req).2 := by
  have hspawn (argv : List (List UInt8)) : Tidy (Hub.spawnChild h a argv).2 :=
    tidy_spawnChild ht hpid
  cases req with
  | start argv envp =>
    simp only [Hub.call, Hub.cmdStart]
    split
    · exact hspawn argv
    · split
      · exact hspawn argv
      · exact ((like_setFds _ _ _).trans (like_replyStart ..)).tidy (hspawn argv)
  | spawn argv envp =>
    simp only [Hub.call, Hub.cmdSpawn]
    split
    · exact hspawn argv
    · split
      · exact hspawn argv
      · exact (like_detach ..).tidy (hspawn argv)
  | detach xid =>
    simp only [Hub.call, Hub.cmdDetach]
    split
    · exact ht
    · split
      · exact ht
      · split
        · exact ht
        · exact (like_detach ..).tidy ht
  | attach xid =>
    simp only [Hub.call, Hub.cmdAttach]
    split
    · exact ht
    · split
      · exact ht
      · split
        · exact ht
        · exact (((like_setFds _ _ _).trans (like_withKernel ..)).trans (like_replyStart ..)).tidy
            ht
  | flush xid =>
    rw [Hub.call, Hub.cmdFlush]
    split
    · exact ht
    · split
      · exact ht
      · exact ht.flushProc _
  | clear => exact .recounted ((fading_flushDead _ _ 0).orderly ht.toOrderly) ht.numbered
  | _ => exact ht

lemma tidy_handleConn {c : ℕ} {req : Request} (ht : Tidy h) (hpid : a.pid ∉ pids h.procs) :
    Tidy (Hub.handleConn h a c req) := by
  rw [Hub.handleConn]
  split
  · exact ht
  · rename_i fd _
    have hcall : Tidy (Hub.call h a fd req).2 := tidy_call ht hpid
    dsimp only
    split
    · exact hcall
    · exact (like_closeConn _ c).tidy hcall

lemma tidy_processStdout {input other flushed : Bool} (ht : Tidy h) :
    Tidy (processStdout h i input other flushed).hub := by
  simp only [processStdout]
  split
  · exact ht
  · have hin : Tidy (if input then Hub.handleStdout h i flushed else h) := by
      split
      · exact (like_handleStdout h i flushed).tidy ht
      · exact ht
    split
    · exact (like_closeStdout _ i).tidy hin
    · exact hin

lemma tidy_processStderr {input other mmap : Bool} {read : Option ℕ} (ht : Tidy h) :
    Tidy (processStderr h i input other mmap read).hub := by
  simp only [processStderr]
  split
  · exact ht
  · have hin : Tidy (if input then Hub.handleStderr h i mmap read else h) := by
      split
      · exact (like_handleStderr h i mmap read).tidy ht
      · exact ht
    split
    · exact (like_closeStderr _ i).tidy hin
    · exact hin

lemma tidy_turn {w : World} {e : Event} (ht : Tidy h) (hs : turn h e = some w) : Tidy w.hub := by
  cases e with
  | connect fd =>
    obtain ⟨-, hs⟩ := Option.ite_none_right_eq_some.mp hs
    cases hs
    exact (Like.checkSocket h fd).tidy ht
  | request c req a =>
    obtain ⟨hpos, hs⟩ := Option.ite_none_right_eq_some.mp hs
    cases hs
    exact tidy_handleConn ht hpos.2.2.2.2.2
  | hangup c =>
    cases hs
    exact (like_closeConn h c).tidy ht
  | exits batch last =>
    obtain ⟨⟨h', rest⟩, hout, rfl⟩ := Option.map_eq_some_iff.mp hs
    exact ht.checkChildren quiet_notifyExit hout
  | poll r input other flushed mmap read =>
    obtain ⟨-, hs⟩ := Option.ite_none_right_eq_some.mp hs
    split at hs
    · cases hs
      exact tidy_processStdout ht
    · split at hs
      · cases hs
        exact tidy_processStderr ht
      · cases hs
        exact ht
  | hold f =>
    cases hs
    exact Like.tidy (h := h) (.of_procs rfl rfl rfl rfl) ht
  | release f =>
    cases hs
    exact Like.tidy (h := h) (.of_procs rfl rfl rfl rfl) ht

/-- **Whatever happens, the table is in order.** -/
theorem tidy_of_reach {w : World} (hw : Reach Boot step (fun _ _ => True) w) : Tidy w.hub := by
  induction hw with
  | start hb => exact hb.tidy
  | next _ _ hs ih =>
    obtain ⟨-, hs⟩ := Option.ite_none_left_eq_some.mp hs
    exact tidy_turn ih hs

end Ptyhub

/-! ### When exits are taken note of -/

namespace Hubs

/-- **Both hubs take note of all exits** just if every child there is to wait for is in the
table and none comes twice, or if there is one only, which is not in the table, and the counts
were right. -/
theorem checkChildren_settles_iff (h : Apphub.Hub) (g : Ptyhub.Hub) (batch : List Exit) (last : ℤ) :
    (Tidy h → (Settles batch (Apphub.Hub.checkChildren h last batch) ↔
      Known h batch ∨ (batch.length = 1 ∧ Counted h))) ∧
    (Tidy g → (Settles batch (Ptyhub.Hub.checkChildren g last batch) ↔
      Known g batch ∨ (batch.length = 1 ∧ Counted g))) :=
  ⟨fun ht => settles_iff (fun h _ _ => .refl h) ht batch,
    fun ht => settles_iff Ptyhub.quiet_notifyExit ht batch⟩

/-- A table with one process. -/
def soleProc (D : Type) [Zero D] : Hub D :=
  ⟨[⟨1, 7, [], false, 0, 0⟩], 1, 1, 1, [], ⟨[], [], 0, []⟩⟩

/-- An orphan and then a child of the hub: the child stays in the table. -/
def orphanFirst : List Exit := [⟨9, 0, true, by decide⟩, ⟨7, 0, true, by decide⟩]

theorem orphan_hides_child :
    ¬Settles orphanFirst (Apphub.Hub.checkChildren (soleProc ℤ) 0 orphanFirst) ∧
      ¬Settles orphanFirst (Ptyhub.Hub.checkChildren (soleProc Ptyhub.Fds) 0 orphanFirst) := by
  refine ⟨fun hs => ?_, fun hs => ?_⟩
  · exact absurd (hs (soleProc ℤ) [⟨7, 0, true, by decide⟩] rfl).1 (List.cons_ne_nil _ _)
  · exact absurd (hs (soleProc Ptyhub.Fds) [⟨7, 0, true, by decide⟩] rfl).1 (List.cons_ne_nil _ _)

/-- A table with two processes. -/
def twoProcs (D : Type) [Zero D] : Hub D :=
  ⟨[⟨1, 7, [], false, 0, 0⟩, ⟨2, 8, [], false, 0, 0⟩], 2, 2, 2, [], ⟨[], [], 0, []⟩⟩

lemma pids_twoProcs (D : Type) [Zero D] : pids (twoProcs D).procs = [7, 8] := rfl

lemma tidy_twoProcs (D : Type) [Zero D] : Tidy (twoProcs D) where
  distinct := by
    rw [pids_twoProcs]
    decide
  used pc hpc _ := by
    obtain rfl | rfl := List.mem_pair.mp hpc
    · exact Int.one_ne_zero
    · exact two_ne_zero
  counted := Nat.le_refl 2
  numbered := Int.ofNat_nonneg 2

/-- Both children exit, the later one first, with a status and by a signal. -/
def bothExit : List Exit := [⟨8, 256, true, by decide⟩, ⟨7, 15, true, by decide⟩]

theorem children_are_settled :
    Settles bothExit (Apphub.Hub.checkChildren (twoProcs ℤ) 0 bothExit) ∧
      Settles bothExit (Ptyhub.Hub.checkChildren (twoProcs Ptyhub.Fds) 0 bothExit) := by
  refine ⟨((checkChildren_settles_iff _ (twoProcs _) _ _).1 (tidy_twoProcs ℤ)).mpr (.inl ?_),
    ((checkChildren_settles_iff (twoProcs _) _ _ _).2 (tidy_twoProcs Ptyhub.Fds)).mpr (.inl ?_)⟩ <;>
  exact ⟨by decide, by simp [bothExit, pids_twoProcs]⟩

end Hubs

end Minibase
