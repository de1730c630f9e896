import Mathlib.Algebra.Order.Group.Int
import Minibase.Lib.Runs

/-!
# Waiting for devices

`rdinit_udev.c`: while the setup script looks for the devices it needs, `rdinit` feeds the modpipe
and waits for one of the two to end. It is process 1, so that orphans become its children too.
The kernel goes with it: the children that run, those that have exited and not been waited for,
and whether a `SIGCHLD` is pending. Reading the signal and waiting for a child are two steps of
`Init.step`, and children exit in between as they please.

`check_children` waits for one child only; one that is left over is not waited for until another
exits. Where there is never more than one, all is well (`Init.never_waits`).
-/

namespace Minibase.Init

open Prod

/-- What a child is. -/
inductive Role
  | script
  | modpipe
  | orphan
deriving DecidableEq, Repr

/-- A child of process 1. -/
structure Child where
  role : Role
  pid : ℤ
deriving DecidableEq, Repr

/-- `struct top`: `FL_DONE`, `FL_FAILURE` and the two children there are. -/
structure Top where
  done : Bool := false
  failure : Bool := false
  runpid : ℤ := 0
  modpid : ℤ
deriving DecidableEq, Repr

/-- Where `locate_devices` is. -/
inductive Phase
  /-- Before `start_script`. -/
  | starting
  /-- In the loop, in front of `ppoll`. -/
  | polling
  /-- In `recv_signal`, with the signal read. -/
  | reaping
deriving DecidableEq, Repr

/-- The process and its children. `exits` and `waited` are kept for reference: who has exited, and
who has been waited for, in that order, each with the status. -/
structure World where
  ctx : Top
  phase : Phase := .starting
  running : List Child
  zombies : List (Child × ℤ) := []
  pending : Bool := false
  exits : List (Role × ℤ) := []
  waited : List (Role × ℤ) := []
deriving DecidableEq

/-- What can happen. -/
inductive Event
  /-- An orphan becomes a child. -/
  | orphan (pid : ℤ)
  /-- A child exits. -/
  | exit (c : Child) (status : ℤ)
  /-- `start_script`, and the loop is entered. -/
  | start (pid : ℤ)
  /-- `poll` has found the signal, and `recv_signal` reads it. -/
  | signal
  /-- `check_children`, with what `waitpid` returns. -/
  | wait (z : Option (Child × ℤ))
deriving DecidableEq

namespace World

variable (w : World)

/-- The children that have not been waited for. -/
def children : List Child := w.running ++ w.zombies.map fst

/-- A process id the kernel may give out. -/
def free (pid : ℤ) : Prop := 0 < pid ∧ ∀ c ∈ w.children, c.pid ≠ pid
deriving Decidable

/-- `kill_check`. The call fails if there is no such process. -/
def killCheck (pid : ℤ) : World :=
  if ∃ c ∈ w.children, c.pid = pid then w else { w with ctx := { w.ctx with done := true } }

def handleScriptExit (status : ℤ) : World :=
  let modpid := w.ctx.modpid
  let ctx := { w.ctx with runpid := -1, failure := w.ctx.failure || status ≠ 0 }
  if 0 < modpid then killCheck { w with ctx := ctx } modpid
  else { w with ctx := { ctx with done := true } }

def handleModpipeExit : World :=
  let runpid := w.ctx.runpid
  let ctx := { w.ctx with modpid := -1 }
  if 0 < runpid then killCheck { w with ctx := { ctx with failure := true } } runpid
  else { w with ctx := { ctx with done := true } }

/-- `check_children`, after `waitpid`. -/
def checkChildren (pid status : ℤ) : World :=
  if pid = w.ctx.runpid then w.handleScriptExit status
  else if pid = w.ctx.modpid then w.handleModpipeExit
  else w

/-- What `waitpid` does with an exited child. -/
def reap (z : Child × ℤ) : World :=
  { w with
    phase := .polling
    zombies := w.zombies.erase z
    waited := w.waited ++ [(z.1.role, z.2)] }

end World

open World Role List

/-- One step, while the loop is not over. -/
def step (w : World) (e : Event) : Option World :=
  if w.ctx.done then none
  else match e with
  | .orphan pid => if w.free pid then some
    { w with running := w.running ++ [⟨.orphan, pid⟩] } else none
  | .exit c status =>
    if c ∈ w.running then
      some { w with
        running := w.running.erase c
        zombies := w.zombies ++ [(c, status)]
        pending := true
        exits := w.exits ++ [(c.role, status)] }
    else none
  | .start pid =>
    if w.phase = .starting ∧ w.free pid then
      some { w with
        phase := .polling
        ctx := { w.ctx with runpid := pid }
        running := w.running ++ [⟨.script, pid⟩] }
    else none
  | .signal =>
    if w.phase = .polling ∧ w.pending then some { w with phase := .reaping, pending := false }
    else none
  | .wait none =>
    if w.phase = .reaping ∧ w.zombies = [] then some { w with phase := .polling } else none
  | .wait (some z) =>
    if w.phase = .reaping ∧ z ∈ w.zombies then some ((w.reap z).checkChildren z.1.pid z.2)
    else none

/-- **Where it starts**: the modpipe runs, if there is one. -/
def init (w : World) : Prop :=
  w = { ctx := { modpid := -1 }, running := [] } ∨
    ∃ pid, 0 < pid ∧ w = { ctx := { modpid := pid }, running := [⟨.modpipe, pid⟩] }

/-! ### What is asked for -/

/-- `ppoll` would wait, for what is not the exit of a child that has exited. -/
def Blocked (w : World) : Prop := w.phase = .polling ∧ w.ctx.done = false ∧ w.pending = false

/-- The script exited with an error, or the modpipe died before it. -/
def Failed (exits : List (Role × ℤ)) : Prop :=
  (∃ status, status ≠ 0 ∧ (script, status) ∈ exits) ∨
    ∃ before status after, exits = before ++ (modpipe, status) :: after ∧
      ∀ s, (script, s) ∉ before

/-- When a child is waited for it is the only one that has exited. -/
def Alone (w : World) (e : Event) : Prop := ∀ z, e = .wait (some z) → w.zombies.length ≤ 1

instance (w : World) (e : Event) : Decidable (Alone w e) :=
  match e with
  | .wait (some z) => decidable_of_iff (w.zombies.length ≤ 1) ⟨fun h _ _ => h, fun h => h z rfl⟩
  | .wait none | .orphan _ | .exit _ _ | .start _ | .signal => isTrue fun _ h => by cases h

/-! ### Who has been waited for -/

variable {l : List (Role × ℤ)}

/-- A list with one more at the end is cut either before that or at it. -/
theorem exists_cut_concat {P : List (Role × ℤ) → Prop} {x : Role × ℤ} :
    (∃ before status after, l ++ [x] = before ++ (modpipe, status) :: after ∧ P before) ↔
      (∃ before status after, l = before ++ (modpipe, status) :: after ∧ P before) ∨
        x.1 = .modpipe ∧ P l := by
  constructor
  · rintro ⟨before, status, after, hl, hP⟩
    rcases eq_nil_or_concat after with rfl | ⟨after', y, rfl⟩
    · obtain ⟨rfl, hx⟩ := append_inj' hl rfl
      obtain rfl := singleton_inj.mp hx
      exact .inr ⟨rfl, hP⟩
    · rw [concat_eq_append, ← cons_append, ← append_assoc] at hl
      exact .inl ⟨before, status, after', (append_inj' hl rfl).1, hP⟩
  · rintro (⟨before, status, after, rfl, hP⟩ | ⟨hx, hP⟩)
    · exact ⟨before, status, after ++ [x], by rw [append_assoc, cons_append], hP⟩
    · exact ⟨l, x.2, [], by rw [← hx], hP⟩

variable {status : ℤ}

lemma failed_concat_script : Failed (l ++ [(.script, status)]) ↔ Failed l ∨ status ≠ 0 := by
  rw [Failed, Failed, exists_cut_concat]
  constructor
  · rintro (⟨s, hs, hmem⟩ | h | ⟨h, -⟩)
    · rcases mem_append.mp hmem with h | h
      · exact .inl (.inl ⟨s, hs, h⟩)
      · obtain ⟨-, rfl⟩ := mk.inj (mem_singleton.mp h)
        exact .inr hs
    · exact .inl (.inr h)
    · cases h
  · rintro ((⟨s, hs, hmem⟩ | h) | h)
    · exact .inl ⟨s, hs, mem_append_left _ hmem⟩
    · exact .inr (.inl h)
    · exact .inl ⟨status, h, mem_append_right _ (mem_singleton.mpr rfl)⟩

lemma failed_concat_modpipe :
    Failed (l ++ [(.modpipe, status)]) ↔ Failed l ∨ ∀ s, (script, s) ∉ l := by
  have hscript : (∃ s, s ≠ 0 ∧ (script, s) ∈ l ++ [(.modpipe, status)]) ↔
      ∃ s, s ≠ 0 ∧ (script, s) ∈ l := by
    simp only [mem_append, mem_singleton, Prod.mk.injEq, reduceCtorEq, false_and,
      or_false]
  rw [Failed, Failed, exists_cut_concat, hscript, or_assoc]
  simp only [true_and]

lemma failed_concat_orphan : Failed (l ++ [(.orphan, status)]) ↔ Failed l := by
  have hscript : (∃ s, s ≠ 0 ∧ (script, s) ∈ l ++ [(.orphan, status)]) ↔
      ∃ s, s ≠ 0 ∧ (script, s) ∈ l := by
    simp only [mem_append, mem_singleton, Prod.mk.injEq, reduceCtorEq, false_and,
      or_false]
  rw [Failed, Failed, exists_cut_concat, hscript]
  simp only [reduceCtorEq, false_and, or_false]

/-! ### What the process knows -/

/-- **What `rdinit` knows of its children is right**, and none that has exited is forgotten. -/
structure Inv (w : World) : Prop where
  nodup : (w.children.map Child.pid).Nodup
  pos : ∀ c ∈ w.children, 0 < c.pid
  script : ∀ c ∈ w.children, c.role = .script → w.ctx.runpid = c.pid
  modpipe : ∀ c ∈ w.children, c.role = .modpipe → w.ctx.modpid = c.pid
  runs : 0 < w.ctx.runpid → ⟨.script, w.ctx.runpid⟩ ∈ w.children
  pipes : 0 < w.ctx.modpid → ⟨.modpipe, w.ctx.modpid⟩ ∈ w.children
  begun : w.phase = .starting → w.ctx.runpid = 0 ∧ w.waited = []
  unwaited : w.phase ≠ .starting → (0 < w.ctx.runpid ↔ ∀ s, (Role.script, s) ∉ w.waited)
  alive : w.phase ≠ .starting → w.ctx.done = false → 0 < w.ctx.runpid ∨ 0 < w.ctx.modpid
  failure : w.ctx.failure = true ↔ Failed w.waited
  exits : w.exits = w.waited ++ w.zombies.map fun z => (z.1.role, z.2)
  quiet : w.phase ≠ .reaping → w.pending = false → w.zombies = []
  ended : w.ctx.done = true → w.zombies = []

variable {w w' : World}

lemma not_failed_nil : ¬Failed [] := by
  rintro (⟨s, -, h⟩ | ⟨before, s, after, h, -⟩)
  · cases h
  · cases before <;> cases h

lemma inv_init (h : init w) : Inv w := by
  have hnever : ∀ s : ℤ, (Role.script, s) ∉ ([] : List (Role × ℤ)) := fun s h => by cases h
  rcases h with rfl | ⟨pid, hpid, rfl⟩
  · refine ⟨nodup_nil, ?_, ?_, ?_, ?_, ?_, ?_, ?_, ?_, ?_, ?_, ?_, ?_⟩ <;>
      simp [children, not_failed_nil]
  · refine ⟨nodup_singleton _, ?_, ?_, ?_, ?_, ?_, ?_, ?_, ?_, ?_, ?_, ?_, ?_⟩ <;>
      simp [children, not_failed_nil, hpid]

namespace Inv

/-- Children are told apart by their process ids. -/
theorem eq_of_pid (h : Inv w) {c d : Child} (hc : c ∈ w.children) (hd : d ∈ w.children)
    (hpid : c.pid = d.pid) : c = d :=
  inj_on_of_nodup_map h.nodup hc hd hpid

/-- **Two worlds with the same children**, and of which the process knows the same. -/
theorem of_perm (h : Inv w) (hperm : w'.children.Perm w.children) (hctx : w'.ctx = w.ctx)
    (hwaited : w'.waited = w.waited) (hphase : w'.phase = .starting ↔ w.phase = .starting)
    (hexits : w'.exits = w'.waited ++ w'.zombies.map fun z => (z.1.role, z.2))
    (hquiet : w'.phase ≠ .reaping → w'.pending = false → w'.zombies = [])
    (hended : w'.ctx.done = true → w'.zombies = []) : Inv w' where
  nodup := (hperm.map _).nodup_iff.mpr h.nodup
  pos c hc := h.pos c (hperm.mem_iff.mp hc)
  script c hc := hctx ▸ h.script c (hperm.mem_iff.mp hc)
  modpipe c hc := hctx ▸ h.modpipe c (hperm.mem_iff.mp hc)
  runs hpos := by
    rw [hctx] at hpos ⊢
    exact hperm.mem_iff.mpr (h.runs hpos)
  pipes hpos := by
    rw [hctx] at hpos ⊢
    exact hperm.mem_iff.mpr (h.pipes hpos)
  begun hs := by
    rw [hctx, hwaited]
    exact h.begun (hphase.mp hs)
  unwaited hs := by
    rw [hctx, hwaited]
    exact h.unwaited (mt hphase.mpr hs)
  alive hs := by
    rw [hctx]
    exact h.alive (mt hphase.mpr hs)
  failure := by
    rw [hctx, hwaited]
    exact h.failure
  exits := hexits
  quiet := hquiet
  ended := hended

/-- A new child. -/
theorem nodup_concat (h : Inv w) {c : Child} (hfree : w.free c.pid)
    (hperm : w'.children.Perm (c :: w.children)) : (w'.children.map Child.pid).Nodup := by
  refine (hperm.map _).nodup_iff.mpr (nodup_cons.mpr ⟨fun hmem => ?_, h.nodup⟩)
  obtain ⟨d, hd, hpid⟩ := mem_map.mp hmem
  exact hfree.2 d hd hpid

end Inv

/-! ### What a step does -/

/-- One more running child is one more child. -/
theorem children_concat (w : World) (c : Child) :
    (w.running ++ [c] ++ w.zombies.map fst).Perm (c :: w.children) := by
  rw [append_assoc, singleton_append]
  exact perm_middle

lemma inv_orphan (h : Inv w) {pid : ℤ} (hfree : w.free pid) :
    Inv { w with running := w.running ++ [⟨.orphan, pid⟩] } := by
  have hperm := children_concat w ⟨.orphan, pid⟩
  have hsub : ∀ c, c ∈ w.running ++ [⟨.orphan, pid⟩] ++ w.zombies.map fst →
      c = ⟨.orphan, pid⟩ ∨ c ∈ w.children :=
    fun c hc => mem_cons.mp (hperm.mem_iff.mp hc)
  have hsup : ∀ c, c ∈ w.children → c ∈ w.running ++ [⟨.orphan, pid⟩] ++ w.zombies.map fst :=
    fun c hc => hperm.mem_iff.mpr (mem_cons_of_mem _ hc)
  refine ⟨h.nodup_concat (c := ⟨.orphan, pid⟩) hfree hperm, fun c hc => ?_, fun c hc hr => ?_,
    fun c hc hr => ?_, fun hp => hsup _ (h.runs hp), fun hp => hsup _ (h.pipes hp), h.begun,
    h.unwaited, h.alive, h.failure, h.exits, h.quiet, h.ended⟩
  · rcases hsub c hc with rfl | hc
    · exact hfree.1
    · exact h.pos c hc
  · rcases hsub c hc with rfl | hc
    · cases hr
    · exact h.script c hc hr
  · rcases hsub c hc with rfl | hc
    · cases hr
    · exact h.modpipe c hc hr

lemma inv_start (h : Inv w) {pid : ℤ} (hphase : w.phase = .starting) (hfree : w.free pid) :
    Inv { w with
      phase := .polling
      ctx := { w.ctx with runpid := pid }
      running := w.running ++ [⟨.script, pid⟩] } := by
  obtain ⟨hrun, hwaited⟩ := h.begun hphase
  have hperm := children_concat w ⟨.script, pid⟩
  have hsub : ∀ c, c ∈ w.running ++ [⟨.script, pid⟩] ++ w.zombies.map fst →
      c = ⟨.script, pid⟩ ∨ c ∈ w.children :=
    fun c hc => mem_cons.mp (hperm.mem_iff.mp hc)
  have hsup : ∀ c, c ∈ w.children → c ∈ w.running ++ [⟨.script, pid⟩] ++ w.zombies.map fst :=
    fun c hc => hperm.mem_iff.mpr (mem_cons_of_mem _ hc)
  refine ⟨h.nodup_concat (c := ⟨.script, pid⟩) hfree hperm, fun c hc => ?_, fun c hc hr => ?_,
    fun c hc hr => ?_, fun _ => hperm.mem_iff.mpr mem_cons_self, fun hp => hsup _ (h.pipes hp),
    (fun hs => by cases hs), fun _ => ?_, fun _ _ => .inl hfree.1, h.failure, h.exits,
    fun _ => h.quiet (by rw [hphase]; exact Phase.noConfusion), h.ended⟩
  · rcases hsub c hc with rfl | hc
    · exact hfree.1
    · exact h.pos c hc
  · rcases hsub c hc with rfl | hc
    · rfl
    · -- there is no script before this one
      have hzero := h.script c hc hr
      have hpos := h.pos c hc
      omega
  · rcases hsub c hc with rfl | hc
    · cases hr
    · exact h.modpipe c hc hr
  · refine ⟨fun _ s hs => ?_, fun _ => hfree.1⟩
    rw [show w.waited = [] from hwaited] at hs
    cases hs

lemma inv_exit (h : Inv w) (hdone : w.ctx.done = false) {c : Child}
    (hc : c ∈ w.running) :
    Inv { w with
      running := w.running.erase c
      zombies := w.zombies ++ [(c, status)]
      pending := true
      exits := w.exits ++ [(c.role, status)] } := by
  have hperm : (w.running.erase c ++ (w.zombies ++ [(c, status)]).map fst).Perm
    w.children := by
    rw [map_append, map_singleton, ← append_assoc, children]
    refine (perm_append_singleton _ _).trans ?_
    rw [← cons_append]
    exact List.Perm.append_right _ (perm_cons_erase hc).symm
  refine h.of_perm hperm rfl rfl Iff.rfl ?_ (fun _ hp => by cases hp) fun hd => ?_
  · show w.exits ++ [(c.role, status)] = _
    rw [h.exits, map_append, append_assoc]
    rfl
  · exact absurd (hdone.symm.trans hd) Bool.false_ne_true

/-! ### Waiting -/

section

variable {z : Child × ℤ}

/-- Its process id says what it was. -/
theorem Inv.role_script (h : Inv w) (hz : z.1 ∈ w.children) :
    z.1.pid = w.ctx.runpid ↔ z.1.role = .script := by
  refine ⟨fun hpid => ?_, fun hr => (h.script _ hz hr).symm⟩
  have hpos := h.pos _ hz
  rw [h.eq_of_pid hz (h.runs (hpid ▸ hpos)) hpid]

lemma Inv.role_modpipe (h : Inv w) (hz : z.1 ∈ w.children) :
    z.1.pid = w.ctx.modpid ↔ z.1.role = .modpipe := by
  refine ⟨fun hpid => ?_, fun hr => (h.modpipe _ hz hr).symm⟩
  have hpos := h.pos _ hz
  rw [h.eq_of_pid hz (h.pipes (hpid ▸ hpos)) hpid]

variable (h : Inv w) (hz : w.zombies = [z])

include hz in
lemma children_of_zombies : w.children = w.running ++ [z.1] := by
  rw [children, hz]
  rfl

include hz in
lemma children_reap : (w.reap z).children = w.running := by
  rw [reap, children]
  show w.running ++ (w.zombies.erase z).map fst = w.running
  rw [hz, erase_cons_head, map_nil, append_nil]

include hz in
lemma mem_children : z.1 ∈ w.children := by
  rw [children_of_zombies hz]
  exact mem_append_right _ (mem_singleton.mpr rfl)

include h hz in
/-- The other children are left. -/
theorem mem_running {c : Child} : c ∈ w.running ↔ c ∈ w.children ∧ c ≠ z.1 := by
  have hch := children_of_zombies hz
  have hnd : (w.running ++ [z.1]).Nodup := hch ▸ h.nodup.of_map
  rw [hch]
  refine ⟨fun hc => ⟨mem_append_left _ hc, ?_⟩, fun ⟨hc, hne⟩ => ?_⟩
  · rintro rfl
    exact (nodup_append.mp hnd).2.2 _ hc _ (mem_singleton.mpr rfl) rfl
  · exact (mem_append.mp hc).resolve_right fun hs => hne (mem_singleton.mp hs)

include h hz in
/-- **The process is left as it should be**, if what it has learnt is right. -/
theorem inv_reaped {ctx : Top}
    (hscript : ∀ c ∈ w.running, c.role = .script → ctx.runpid = c.pid)
    (hmodpipe : ∀ c ∈ w.running, c.role = .modpipe → ctx.modpid = c.pid)
    (hruns : 0 < ctx.runpid → ⟨.script, ctx.runpid⟩ ∈ w.running)
    (hpipes : 0 < ctx.modpid → ⟨.modpipe, ctx.modpid⟩ ∈ w.running)
    (hunwaited : 0 < ctx.runpid ↔ ∀ s, (Role.script, s) ∉ (w.reap z).waited)
    (halive : ctx.done = false → 0 < ctx.runpid ∨ 0 < ctx.modpid)
    (hfailure : ctx.failure = true ↔ Failed (w.reap z).waited) :
    Inv { w.reap z with ctx := ctx } := by
  have hch : children { w.reap z with ctx := ctx } = w.running := children_reap hz
  have hnil : (w.reap z).zombies = [] := by
    show w.zombies.erase z = []
    rw [hz, erase_cons_head]
  refine ⟨?_, ?_, ?_, ?_, ?_, ?_, (fun hs => by cases hs), fun _ => hunwaited, fun _ => halive,
    hfailure, ?_, fun _ _ => hnil, fun _ => hnil⟩
  · rw [hch]
    have hnd := h.nodup
    rw [children_of_zombies hz, map_append] at hnd
    exact (nodup_append.mp hnd).1
  · rw [hch]
    exact fun c hc => h.pos c ((mem_running h hz).mp hc).1
  · rwa [hch]
  · rwa [hch]
  · rwa [hch]
  · rwa [hch]
  · show w.exits = (w.waited ++ [(z.1.role, z.2)]) ++ (w.zombies.erase z).map _
    rw [h.exits, hz, erase_cons_head, map_nil, append_nil, map_singleton]

include h hz in
/-- **The script is waited for**, and the modpipe told to end, if there is one. -/
theorem checkChildren_script (hdone : w.ctx.done = false) (hr : z.1.role = .script) :
    (w.reap z).checkChildren z.1.pid z.2 = { w.reap z with ctx := {
      done := decide (w.ctx.modpid ≤ 0)
      failure := w.ctx.failure || decide (z.2 ≠ 0)
      runpid := -1
      modpid := w.ctx.modpid } } := by
  have hpid : z.1.pid = (w.reap z).ctx.runpid := (h.role_script (mem_children hz)).mpr hr
  rw [checkChildren, if_pos hpid, handleScriptExit]
  by_cases hmod : 0 < w.ctx.modpid
  · have hpipe : (⟨.modpipe, w.ctx.modpid⟩ : Child) ∈ w.running := by
      refine (mem_running h hz).mpr ⟨h.pipes hmod, fun heq => ?_⟩
      rw [← heq] at hr
      cases hr
    have hkill : ∃ c ∈ (w.reap z).children, c.pid = w.ctx.modpid := by
      rw [children_reap hz]
      exact ⟨_, hpipe, rfl⟩
    have hle : decide (w.ctx.modpid ≤ 0) = w.ctx.done := by
      rw [hdone, decide_eq_false (Int.not_le.mpr hmod)]
    rw [hle]
    show (if 0 < w.ctx.modpid then killCheck _ w.ctx.modpid else _) = _
    rw [if_pos hmod, killCheck]
    exact if_pos hkill
  · rw [decide_eq_true (Int.not_lt.mp hmod)]
    exact if_neg hmod

include h hz in
/-- **The modpipe is waited for**, and the script told to end, if it still runs. -/
theorem checkChildren_modpipe (hdone : w.ctx.done = false) (hr : z.1.role = .modpipe) :
    (w.reap z).checkChildren z.1.pid z.2 = { w.reap z with ctx := {
      done := decide (w.ctx.runpid ≤ 0)
      failure := w.ctx.failure || decide (0 < w.ctx.runpid)
      runpid := w.ctx.runpid
      modpid := -1 } } := by
  have hrun : ¬z.1.pid = (w.reap z).ctx.runpid := by
    refine mt (h.role_script (mem_children hz)).mp ?_
    rw [hr]
    exact noConfusion
  have hpid : z.1.pid = (w.reap z).ctx.modpid := (h.role_modpipe (mem_children hz)).mpr hr
  rw [checkChildren, if_neg hrun, if_pos hpid, handleModpipeExit]
  by_cases hmod : 0 < w.ctx.runpid
  · have hscript : (⟨.script, w.ctx.runpid⟩ : Child) ∈ w.running := by
      refine (mem_running h hz).mpr ⟨h.runs hmod, fun heq => ?_⟩
      rw [← heq] at hr
      cases hr
    have hkill : ∃ c ∈ (w.reap z).children, c.pid = w.ctx.runpid := by
      rw [children_reap hz]
      exact ⟨_, hscript, rfl⟩
    have hle : decide (w.ctx.runpid ≤ 0) = w.ctx.done := by
      rw [hdone, decide_eq_false (Int.not_le.mpr hmod)]
    rw [hle, decide_eq_true hmod, Bool.or_true]
    show (if 0 < w.ctx.runpid then killCheck _ w.ctx.runpid else _) = _
    rw [if_pos hmod, killCheck]
    exact if_pos hkill
  · rw [decide_eq_true (Int.not_lt.mp hmod), decide_eq_false hmod, Bool.or_false]
    exact if_neg hmod

include h hz in
/-- Nothing is learnt from an orphan. -/
theorem checkChildren_orphan (hr : z.1.role = .orphan) :
    (w.reap z).checkChildren z.1.pid z.2 = w.reap z := by
  have hrun : ¬z.1.pid = (w.reap z).ctx.runpid := by
    refine mt (h.role_script (mem_children hz)).mp ?_
    rw [hr]
    exact noConfusion
  have hmod : ¬z.1.pid = (w.reap z).ctx.modpid := by
    refine mt (h.role_modpipe (mem_children hz)).mp ?_
    rw [hr]
    exact noConfusion
  rw [checkChildren, if_neg hrun, if_neg hmod]

include h hz in
/-- A child that runs is not of the same role as the one that is waited for, unless both are
orphans. -/
theorem role_running {c : Child} (hc : c ∈ w.running) (hr : z.1.role ≠ .orphan) :
    c.role ≠ z.1.role := by
  obtain ⟨hmem, hne⟩ := (mem_running h hz).mp hc
  refine fun heq => hne (h.eq_of_pid hmem (mem_children hz) ?_)
  cases hz1 : z.1.role with
  | script => rw [← h.script c hmem (heq.trans hz1), h.script z.1 (mem_children hz) hz1]
  | modpipe => rw [← h.modpipe c hmem (heq.trans hz1), h.modpipe z.1 (mem_children hz) hz1]
  | orphan => exact absurd hz1 hr

include h hz in
/-- **Waiting for the only child that has exited.** -/
theorem inv_wait (hdone : w.ctx.done = false) (hphase : w.phase = .reaping) :
    Inv ((w.reap z).checkChildren z.1.pid z.2) := by
  have hbegun : w.phase ≠ .starting := by
    rw [hphase]
    exact Phase.noConfusion
  have hunw := h.unwaited hbegun
  have hother : ∀ c ∈ w.children, c.role ≠ z.1.role → c ∈ w.running := fun c hc hne =>
    (mem_running h hz).mpr ⟨hc, fun heq => hne (congrArg Child.role heq)⟩
  cases hr : z.1.role with
  | script =>
    rw [checkChildren_script h hz hdone hr]
    have hwaited : (w.reap z).waited = w.waited ++ [(.script, z.2)] := by rw [reap, hr]
    refine inv_reaped h hz (fun c hc hs => ?_) (fun c hc => ?_) (fun hpos => ?_) (fun hpos => ?_) ?_
      (fun hd => ?_) ?_
    · exact absurd (hs.trans hr.symm) (role_running h hz hc (by rw [hr]; exact Role.noConfusion))
    · exact h.modpipe c ((mem_running h hz).mp hc).1
    · exact absurd hpos (Int.not_lt.mpr (Int.negSucc_le_zero 0))
    · exact hother _ (h.pipes hpos) (by rw [hr]; exact Role.noConfusion)
    · rw [hwaited]
      refine ⟨fun hpos => absurd hpos (Int.not_lt.mpr (Int.negSucc_le_zero 0)), fun hno => ?_⟩
      exact absurd (mem_append_right _ (mem_singleton.mpr rfl)) (hno z.2)
    · exact .inr (Int.not_le.mp (of_decide_eq_false hd))
    · rw [hwaited, failed_concat_script, ← h.failure, Bool.or_eq_true, decide_eq_true_eq]
  | modpipe =>
    rw [checkChildren_modpipe h hz hdone hr]
    have hwaited : (w.reap z).waited = w.waited ++ [(.modpipe, z.2)] := by rw [reap, hr]
    refine inv_reaped h hz (fun c hc => ?_) (fun c hc hs => ?_) (fun hpos => ?_) (fun hpos => ?_) ?_
      (fun hd => ?_) ?_
    · exact h.script c ((mem_running h hz).mp hc).1
    · exact absurd (hs.trans hr.symm) (role_running h hz hc (by rw [hr]; exact Role.noConfusion))
    · exact hother _ (h.runs hpos) (by rw [hr]; exact Role.noConfusion)
    · exact absurd hpos (Int.not_lt.mpr (Int.negSucc_le_zero 0))
    · rw [hwaited]
      refine hunw.trans (forall_congr' fun s => not_congr ?_)
      simp only [mem_append, mem_singleton, Prod.mk.injEq, reduceCtorEq, false_and,
        or_false]
    · exact .inl (Int.not_le.mp (of_decide_eq_false hd))
    · rw [hwaited, failed_concat_modpipe, ← h.failure, ← hunw, Bool.or_eq_true, decide_eq_true_eq]
  | orphan =>
    rw [checkChildren_orphan h hz hr]
    have hwaited : (w.reap z).waited = w.waited ++ [(.orphan, z.2)] := by rw [reap, hr]
    refine @inv_reaped w z h hz w.ctx (fun c hc => ?_) (fun c hc => ?_) (fun hpos => ?_)
      (fun hpos => ?_) ?_ (h.alive hbegun) ?_
    · exact h.script c ((mem_running h hz).mp hc).1
    · exact h.modpipe c ((mem_running h hz).mp hc).1
    · exact hother _ (h.runs hpos) (by rw [hr]; exact Role.noConfusion)
    · exact hother _ (h.pipes hpos) (by rw [hr]; exact Role.noConfusion)
    · rw [hwaited]
      refine hunw.trans (forall_congr' fun s => not_congr ?_)
      simp only [mem_append, mem_singleton, Prod.mk.injEq, reduceCtorEq, false_and,
        or_false]
    · rw [hwaited, failed_concat_orphan, h.failure]

end

/-- **Every step that meets the condition keeps the invariant.** -/
theorem inv_step {e : Event} (h : Inv w) (halone : Alone w e) (hs : step w e = some w') :
    Inv w' := by
  rw [step.eq_def] at hs
  split at hs
  · cases hs
  · rename_i hd
    have hdone : w.ctx.done = false := Bool.not_eq_true _ ▸ hd
    cases e with
    | orphan pid =>
      obtain ⟨hfree, hw⟩ := Option.ite_none_right_eq_some.mp hs
      exact Option.some.inj hw ▸ inv_orphan h hfree
    | exit c status =>
      obtain ⟨hc, hw⟩ := Option.ite_none_right_eq_some.mp hs
      exact Option.some.inj hw ▸ inv_exit h hdone hc
    | start pid =>
      obtain ⟨⟨hphase, hfree⟩, hw⟩ := Option.ite_none_right_eq_some.mp hs
      exact Option.some.inj hw ▸ inv_start h hphase hfree
    | signal =>
      obtain ⟨⟨hphase, -⟩, hw⟩ := Option.ite_none_right_eq_some.mp hs
      refine Option.some.inj hw ▸ h.of_perm (List.Perm.refl _) rfl rfl ?_ h.exits
        (fun hp => absurd rfl hp) h.ended
      rw [hphase]
      exact ⟨fun hp => (by cases hp), fun hp => (by cases hp)⟩
    | wait z =>
      cases z with
      | none =>
        obtain ⟨⟨hphase, hnil⟩, hw⟩ := Option.ite_none_right_eq_some.mp hs
        refine Option.some.inj hw ▸ h.of_perm (List.Perm.refl _) rfl rfl ?_ h.exits
          (fun _ _ => hnil) h.ended
        rw [hphase]
        exact ⟨fun hp => (by cases hp), fun hp => (by cases hp)⟩
      | some z =>
        obtain ⟨⟨hphase, hmem⟩, hw⟩ := Option.ite_none_right_eq_some.mp hs
        refine Option.some.inj hw ▸ inv_wait h ?_ hdone hphase
        obtain ⟨y, hy⟩ := length_eq_one_iff.mp
          (le_antisymm (halone z rfl) (length_pos_of_mem hmem))
        rw [hy] at hmem ⊢
        rw [mem_singleton.mp hmem]

/-! ### The loop -/

/-- Whatever is learnt from it, one child less is left. -/
theorem zombies_checkChildren (w : World) (z : Child × ℤ) (pid status : ℤ) :
    ((w.reap z).checkChildren pid status).zombies = w.zombies.erase z := by
  rw [checkChildren]
  split_ifs
  · rw [handleScriptExit]
    simp only [killCheck]
    split_ifs <;> rfl
  · rw [handleModpipeExit]
    simp only [killCheck]
    split_ifs <;> rfl
  · rfl

/-- **After a wait nothing is left of what has exited** exactly if that was one child at most. -/
theorem zombies_wait {z : Option (Child × ℤ)} (hs : step w (.wait z) = some w') :
    w'.zombies = [] ↔ Alone w (.wait z) := by
  rw [step.eq_def] at hs
  split at hs
  · cases hs
  · cases z with
    | none =>
      obtain ⟨⟨-, hnil⟩, hw⟩ := Option.ite_none_right_eq_some.mp hs
      cases hw
      exact ⟨fun _ z hz => (by cases hz), fun _ => hnil⟩
    | some z =>
      obtain ⟨⟨-, hmem⟩, hw⟩ := Option.ite_none_right_eq_some.mp hs
      cases hw
      rw [zombies_checkChildren, ← length_eq_zero_iff, length_erase_of_mem hmem]
      have hpos := length_pos_of_mem hmem
      exact ⟨fun h _ _ => by omega, fun h => by have := h z rfl; omega⟩

lemma inv_of_reach (h : Reach init step Alone w) : Inv w :=
  h.invariant (fun _ => inv_init) fun _ _ _ hi ha hs => inv_step hi ha hs

/-- **The process never waits for a dead child**, in every run in which there is one to be waited
for at a time. Nothing that has exited is left after a wait; where `ppoll` blocks the script or the
modpipe runs; and at the end it is known whether there was a failure. -/
theorem never_waits (h : Reach init step Alone w) :
    (∀ z w', step w (.wait z) = some w' → (w'.zombies = [] ↔ Alone w (.wait z))) ∧
      (Blocked w → w.zombies = [] ∧ ∃ c ∈ w.running, c.role ≠ .orphan) ∧
      (w.ctx.done = true → (w.ctx.failure = true ↔ Failed w.exits)) := by
  have hinv := inv_of_reach h
  refine ⟨fun _ _ => zombies_wait, fun ⟨hphase, hdone, hpending⟩ => ?_, fun hdone => ?_⟩
  · have hnil : w.zombies = [] :=
      hinv.quiet (by rw [hphase]; exact Phase.noConfusion) hpending
    have hrunning : w.children = w.running := by
      rw [children, hnil, map_nil, append_nil]
    refine ⟨hnil, ?_⟩
    rcases hinv.alive (by rw [hphase]; exact Phase.noConfusion) hdone with hpos | hpos
    · exact ⟨_, hrunning ▸ hinv.runs hpos, Role.noConfusion⟩
    · exact ⟨_, hrunning ▸ hinv.pipes hpos, Role.noConfusion⟩
  · rw [hinv.failure, hinv.exits, hinv.ended hdone, map_nil, append_nil]

/-- The script exits with an error, and then the modpipe does as it is told. -/
def sampleExits : List Event :=
  [.start 3, .exit ⟨.script, 3⟩ 256, .signal, .wait (some (⟨.script, 3⟩, 256)),
    .exit ⟨.modpipe, 2⟩ 15, .signal, .wait (some (⟨.modpipe, 2⟩, 15))]

theorem never_waits_script : ∃ w, Reach init step Alone w ∧ w.ctx.done = true ∧
    (w.ctx.failure = true ↔ Failed w.exits) := by
  have hrun : (sampleExits.foldlM (fun w e => if Alone w e then step w e else none)
      ({ ctx := { modpid := 2 }, running := [⟨.modpipe, 2⟩] } : World)).any
        (fun w => w.ctx.done) = true := by
    decide
  obtain ⟨w, hw, hdone⟩ := (Option.any_eq_true _ _).mp hrun
  have hreach : Reach init step Alone w :=
    Reach.foldlM (.start (.inr ⟨2, by decide, rfl⟩)) hw
  exact ⟨w, hreach, hdone, (never_waits hreach).2.2 hdone⟩

/-- The modpipe and the script have both exited when the signal is read. -/
def sampleBoth : List Event :=
  [.start 3, .exit ⟨.modpipe, 2⟩ 0, .exit ⟨.script, 3⟩ 0, .signal, .wait (some (⟨.modpipe, 2⟩, 0))]

/-- **A dead child is waited for**: there is no other, and nobody to send a signal. -/
theorem waits_for_dead : ¬∀ w, Reach init step (fun _ _ => True) w →
    Blocked w → ∃ c ∈ w.running, c.role ≠ .orphan := by
  intro hall
  have hrun : (sampleBoth.foldlM (fun w e => if True then step w e else none)
      ({ ctx := { modpid := 2 }, running := [⟨.modpipe, 2⟩] } : World)).any
        (fun w => decide (w.phase = .polling ∧ w.ctx.done = false ∧ w.pending = false ∧
          w.running = [])) = true := by
    decide
  obtain ⟨w, hw, hdead⟩ := (Option.any_eq_true _ _).mp hrun
  obtain ⟨hphase, hdone, hpending, hnone⟩ := of_decide_eq_true hdead
  have hreach : Reach init step (fun _ _ => True) w :=
    Reach.foldlM (.start (.inr ⟨2, by decide, rfl⟩)) hw
  obtain ⟨c, hc, -⟩ := hall w hreach ⟨hphase, hdone, hpending⟩
  rw [hnone] at hc
  cases hc

end Minibase.Init
