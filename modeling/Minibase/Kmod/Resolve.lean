import Minibase.Lib.Walk
import Minibase.Kmod.Index

/-!
# Dependencies of modules

`seen_this_module`, `try_resolve_name`, `try_resolve_deps` and `resolve_module` of
`src/kmod/depmod.c`. The line for a module has the modules it needs, depth first, and names that
were seen are left out. There are fifty slots for these, and names are compared byte by byte
there: a line is as it should be if whatever is met again has a slot, and no two names are of
one module (`Kmod.resolve_module_iff`). A name that is not found is reported only before the
first one of the module that is found (`Kmod.missing_reported_iff`).
-/

namespace Minibase.Kmod

open List Option Function Walker

def comma : UInt8 := 0x2C

/-- The size of `seen`. -/
def SLOTS : ℕ := 50

/-- The modules, and `modules.builtin`. -/
structure Ctx where
  mods : List Mod
  builtin : Option (List UInt8)

/-- While a line is written: the names that are still to be looked at, those of the innermost
call first, each with the module it is in the list of; what is in the slots; the line; and what
was reported. -/
structure Resolving where
  pending : List (Mod × List UInt8)
  seen : List (List UInt8)
  transitive : Bool
  mdep : List (List UInt8)
  reports : List (Mod × List UInt8)

/-- The names in `deps`. There is none after a comma at the end. -/
def Mod.names (md : Mod) : List (List UInt8) :=
  match md.deps with
  | none => []
  | some deps =>
    let (ds, t) := pieces comma deps
    if t = [] then ds else ds ++ [t]

/-- `try_resolve_deps`: the calls it makes. -/
def tryResolveDeps (md : Mod) : List (Mod × List UInt8) := md.names.map (md, ·)

/-- One call of `try_resolve_name`. There are no more of them once `kernel_builtin` has broken. -/
def tryResolveName (ctx : Ctx) (st : Resolving) : Resolving :=
  match st.pending with
  | [] => st
  | (md, name) :: rest =>
    if name ∈ st.seen then { st with pending := rest }
    else
      let seen := note SLOTS st.seen name
      match findIndexedModule ctx.mods name with
      | some dd =>
        { st with
          pending := tryResolveDeps dd ++ rest, seen := seen, transitive := true,
          mdep := st.mdep ++ [dd.path] }
      | none =>
        if st.transitive then { st with pending := rest, seen := seen }
        else
          match kernelBuiltin ctx.builtin name with
          | none => st
          | some true => { st with pending := rest, seen := seen }
          | some false => { st with
            pending := rest, seen := seen, reports := st.reports ++ [(md, name)] }

/-- `resolve_module`, after so many of these calls. -/
def resolveModule (ctx : Ctx) (md : Mod) (k : ℕ) : Resolving :=
  (tryResolveName ctx)^[k] ⟨tryResolveDeps md, [], false, [md.path], []⟩

/-- **A line is written**, and it has no module twice. -/
def Resolved (ctx : Ctx) (md : Mod) : Prop :=
  ∃ k, (resolveModule ctx md k).pending = [] ∧ (resolveModule ctx md k).mdep.Nodup

/-- The names that come next of a name. -/
def nextOf (ctx : Ctx) (name : List UInt8) : Option (List (List UInt8)) :=
  (findIndexedModule ctx.mods name).map Mod.names

/-- What is written for a name that is found. -/
def pathOf (ctx : Ctx) (name : List UInt8) : List UInt8 :=
  ((findIndexedModule ctx.mods name).map Mod.path).getD []

/-- The names of a module before the first one that is found. -/
def leading (ctx : Ctx) (md : Mod) : List (List UInt8) :=
  md.names.takeWhile fun n => (findIndexedModule ctx.mods n).isNone

/-! ### Names that are not found -/

section Leading

variable {ctx : Ctx} {md : Mod} {st : Resolving}

lemma step_ended (h : st.pending = []) : tryResolveName ctx st = st := by
  rw [tryResolveName, h]

section Step

variable {m : Mod} {n : List UInt8} {rest : List (Mod × List UInt8)}

lemma step_seen (hp : st.pending = (m, n) :: rest) (hn : n ∈ st.seen) :
    tryResolveName ctx st = { st with pending := rest } := by
  rw [tryResolveName, hp]
  exact if_pos hn

lemma step_found {dd : Mod} (hp : st.pending = (m, n) :: rest) (hn : n ∉ st.seen)
    (hfind : findIndexedModule ctx.mods n = some dd) :
    tryResolveName ctx st =
      { st with
        pending := tryResolveDeps dd ++ rest, seen := Walker.note SLOTS st.seen n,
        transitive := true,
                mdep := st.mdep ++ [dd.path] } := by
  rw [tryResolveName, hp]
  dsimp only
  rw [if_neg hn, hfind]

/-- What `try_resolve_name` does about a name that is not found. -/
theorem step_none (hp : st.pending = (m, n) :: rest) (hn : n ∉ st.seen)
    (hfind : findIndexedModule ctx.mods n = none) :
    tryResolveName ctx st =
      if st.transitive then { st with pending := rest, seen := note SLOTS st.seen n }
      else
        match kernelBuiltin ctx.builtin n with
        | none => st
        | some true => { st with pending := rest, seen := note SLOTS st.seen n }
        | some false =>
          { st with pending := rest, seen := note SLOTS st.seen n, reports := st.reports ++
            [(m, n)] } := by
  rw [tryResolveName, hp]
  dsimp only
  rw [if_neg hn, hfind]

end Step

/-- Nothing happens any more. -/
def Stuck (ctx : Ctx) (st : Resolving) : Prop :=
  ∃ m n rest, st.pending = (m, n) :: rest ∧ n ∉ st.seen ∧ findIndexedModule ctx.mods n = none ∧
    st.transitive = false ∧ kernelBuiltin ctx.builtin n = none

lemma Stuck.step (h : Stuck ctx st) : tryResolveName ctx st = st := by
  obtain ⟨m, n, rest, hp, hn, hfind, htrans, hb⟩ := h
  rw [step_none hp hn hfind, htrans, if_neg (by decide), hb]

/-- **Before a module is found**: the names are those of the module itself, and of those that
are done the ones that are not built in are reported. -/
structure Own (ctx : Ctx) (md : Mod) (st : Resolving) (done left : List (List UInt8)) : Prop where
  names : md.names = done ++ left
  pending : st.pending = left.map (md, ·)
  transitive : st.transitive = false
  mdep : st.mdep = [md.path]
  seen : ∀ n ∈ st.seen, n ∈ done
  not_found : ∀ n ∈ done, findIndexedModule ctx.mods n = none
  not_broken : ∀ n ∈ done, kernelBuiltin ctx.builtin n ≠ none
  reported : ∀ n ∈ done, kernelBuiltin ctx.builtin n = some false → (md, n) ∈ st.reports

/-- **What happens**, until a module is found and after that. -/
structure Ahead (ctx : Ctx) (md : Mod) (st : Resolving) : Prop where
  own : st.transitive = true ∨ ∃ done left, Own ctx md st done left
  few : ∀ r ∈ st.reports, r.1 = md ∧ r.2 ∈ leading ctx md ∧
    kernelBuiltin ctx.builtin r.2 = some false

lemma mem_note {slots : ℕ} {seen : List (List UInt8)} {n m : List UInt8}
    (h : m ∈ note slots seen n) : m ∈ seen ∨ m = n := by
  rw [note] at h
  split_ifs at h
  · exact (mem_append.mp h).imp_right mem_singleton.mp
  · exact .inl h

/-- A flag that is set stays so, and nothing is reported then. -/
theorem step_transitive (h : st.transitive = true) :
    (tryResolveName ctx st).transitive = true ∧ (tryResolveName ctx st).reports = st.reports := by
  rcases hp : st.pending with - | ⟨⟨m, n⟩, rest⟩
  · rw [step_ended hp]
    exact ⟨h, rfl⟩
  by_cases hn : n ∈ st.seen
  · rw [step_seen hp hn]
    exact ⟨h, rfl⟩
  cases hfind : findIndexedModule ctx.mods n with
  | none =>
    rw [step_none hp hn hfind, if_pos h]
    exact ⟨h, rfl⟩
  | some dd =>
    rw [step_found hp hn hfind]
    exact ⟨rfl, rfl⟩

section Own

variable {done left : List (List UInt8)} {n : List UInt8}

section

variable (h : Own ctx md st done (n :: left))
include h

lemma Own.mem_leading (hn : findIndexedModule ctx.mods n = none) : n ∈ leading ctx md := by
  have hdone : ∀ x ∈ done, (findIndexedModule ctx.mods x).isNone = true :=
    fun x hx => isNone_iff_eq_none.mpr (h.not_found x hx)
  rw [leading, h.names, takeWhile_append_of_pos hdone]
  refine mem_append_right _ ?_
  rw [takeWhile_cons, hn]
  exact mem_cons_self

/-- Going over a name that is not found. -/
theorem Own.over {seen : List (List UInt8)} {reports : List (Mod × List UInt8)}
    (hseen : ∀ x ∈ seen, x ∈ st.seen ∨ x = n) (hmore : ∀ r ∈ st.reports, r ∈ reports)
    (hfind : findIndexedModule ctx.mods n = none) (hb : kernelBuiltin ctx.builtin n ≠ none)
    (hrep : kernelBuiltin ctx.builtin n = some false → (md, n) ∈ reports) :
    Own ctx md { st with pending := left.map (md, ·), seen := seen, reports := reports }
    (done ++ [n]) left := by
  have hboth : ∀ {P : List UInt8 → Prop}, (∀ x ∈ done, P x) → P n → ∀ x ∈ done ++ [n], P x := by
    intro P hdone hn x hx
    rcases mem_append.mp hx with hx | hx
    · exact hdone x hx
    · rwa [mem_singleton.mp hx]
  refine ⟨by rw [h.names, append_assoc]; rfl, rfl, h.transitive, h.mdep, ?_, ?_, ?_, ?_⟩
  · intro x hx
    rcases hseen x hx with hx | rfl
    · exact mem_append_left _ (h.seen x hx)
    · exact mem_append_right _ (mem_singleton_self x)
  · exact hboth h.not_found hfind
  · exact hboth h.not_broken hb
  · exact hboth (fun x hx hx' => hmore _ (h.reported x hx hx')) hrep

/-- **A name that is not found** is gone over, unless that is where it breaks. -/
theorem Own.step (hfind : findIndexedModule ctx.mods n = none)
    (hb : kernelBuiltin ctx.builtin n ≠ none) :
    Own ctx md (tryResolveName ctx st) (done ++ [n]) left := by
  by_cases hseen : n ∈ st.seen
  · rw [step_seen h.pending hseen]
    exact h.over (fun _ => .inl) (fun _ => id) hfind hb (h.reported n (h.seen n hseen))
  · have hmem := mem_append_right st.reports (mem_singleton_self (md, n))
    rw [step_none h.pending hseen hfind, if_neg (by rw [h.transitive]; decide)]
    rcases hk : kernelBuiltin ctx.builtin n with - | b
    · exact absurd hk hb
    · cases b with
      | true =>
        refine h.over (fun _ => mem_note) (fun _ => id) hfind hb fun hf => ?_
        rw [hk] at hf
        cases hf
      | false =>
        exact h.over (fun _ => mem_note) (fun _ => mem_append_left _) hfind hb fun _ => hmem

/-- What is reported by a step over a name that is not found. -/
theorem Own.mem_reports (hfind : findIndexedModule ctx.mods n = none) {r : Mod × List UInt8}
    (hr : r ∈ (tryResolveName ctx st).reports) :
    r ∈ st.reports ∨ (r = (md, n) ∧ kernelBuiltin ctx.builtin n = some false) := by
  by_cases hseen : n ∈ st.seen
  · rw [step_seen h.pending hseen] at hr
    exact .inl hr
  · rw [step_none h.pending hseen hfind, h.transitive, if_neg (by decide)] at hr
    rcases hk : kernelBuiltin ctx.builtin n with - | b
    · rw [hk] at hr
      exact .inl hr
    · rw [hk] at hr
      cases b with
      | true => exact .inl hr
      | false => exact (mem_append.mp hr).imp_right fun h => ⟨mem_singleton.mp h, rfl⟩

/-- The first module that is found. -/
theorem Own.found {dd : Mod} (hfind : findIndexedModule ctx.mods n = some dd) :
    (tryResolveName ctx st).transitive = true ∧ (tryResolveName ctx st).reports = st.reports := by
  have hseen : n ∉ st.seen := by
    intro hseen
    have hnone := h.not_found n (h.seen n hseen)
    rw [hfind] at hnone
    cases hnone
  rw [step_found h.pending hseen hfind]
  exact ⟨rfl, rfl⟩

/-- Where it breaks. -/
theorem Own.stuck (hfind : findIndexedModule ctx.mods n = none)
    (hb : kernelBuiltin ctx.builtin n = none) : Stuck ctx st :=
  ⟨md, n, _, h.pending, fun hseen => h.not_broken n (h.seen n hseen) hb, hfind, h.transitive, hb⟩

end

end Own

lemma own_start (ctx : Ctx) (md : Mod) : Own ctx md (resolveModule ctx md 0) [] md.names := by
  constructor <;> first | rfl | exact fun _ h => absurd h not_mem_nil

lemma Ahead.step (h : Ahead ctx md st) : Ahead ctx md (tryResolveName ctx st) := by
  rcases h.own with htrans | ⟨done, left, hown⟩
  · obtain ⟨htrans', hreports⟩ : (tryResolveName ctx st).transitive = true ∧
        (tryResolveName ctx st).reports = st.reports := step_transitive htrans
    exact ⟨.inl htrans', hreports ▸ h.few⟩
  obtain - | ⟨n, left⟩ := left
  · rwa [step_ended hown.pending]
  cases hfind : findIndexedModule ctx.mods n with
  | some dd =>
    obtain ⟨htrans', hreports⟩ := hown.found hfind
    exact ⟨.inl htrans', hreports ▸ h.few⟩
  | none =>
    have hfew : ∀ r ∈ (tryResolveName ctx st).reports,
        r.1 = md ∧ r.2 ∈ leading ctx md ∧ kernelBuiltin ctx.builtin r.2 = some false := by
      intro r hr
      rcases hown.mem_reports hfind hr with hr | ⟨rfl, hb⟩
      · exact h.few r hr
      · exact ⟨rfl, hown.mem_leading hfind, hb⟩
    -- where it breaks, it stays as it is
    by_cases hb : kernelBuiltin ctx.builtin n = none
    · rwa [(hown.stuck hfind hb).step]
    · exact ⟨.inr ⟨_, _, hown.step hfind hb⟩, hfew⟩

lemma ahead_run (ctx : Ctx) (md : Mod) (k : ℕ) : Ahead ctx md (resolveModule ctx md k) := by
  induction k with
  | zero => exact ⟨.inr ⟨_, _, own_start ctx md⟩, fun _ h => absurd h not_mem_nil⟩
  | succ k ih =>
    rw [resolveModule, iterate_succ_apply']
    exact ih.step

/-- **The names before the first module that is found** are gone over one after the other. -/
theorem own_run {done left : List (List UInt8)} (hnames : md.names = done ++ left)
    (hfind : ∀ n ∈ done, findIndexedModule ctx.mods n = none)
    (hb : ∀ n ∈ done, kernelBuiltin ctx.builtin n ≠ none) :
    Own ctx md (resolveModule ctx md done.length) done left := by
  induction done using reverseRecOn generalizing left with
  | nil =>
    have hstart := own_start ctx md
    rwa [hnames] at hstart
  | append_singleton done n ih =>
    have hn := mem_append_right done (mem_singleton_self n)
    rw [append_assoc] at hnames
    have hown := ih hnames (fun x hx => hfind x (mem_append_left _ hx)) fun x hx =>
      hb x (mem_append_left _ hx)
    rw [length_append, length_singleton, resolveModule, iterate_succ_apply']
    exact hown.step (hfind n hn) (hb n hn)

lemma leading_append (ctx : Ctx) (md : Mod) :
    ∃ rest, md.names = leading ctx md ++ rest ∧ ∀ n ∈ leading ctx md,
      findIndexedModule ctx.mods n = none :=
  ⟨_, (takeWhile_append_dropWhile ..).symm,
    fun _ hn => isNone_iff_eq_none.mp
      (mem_takeWhile_imp (p := fun n => (findIndexedModule ctx.mods n).isNone) hn)⟩

/-- A name that is neither that of a module nor built in. -/
def Missing (ctx : Ctx) (n : List UInt8) : Prop :=
  (∀ x ∈ ctx.mods, eqstrnncmp x.stem n ≠ 0) ∧ kernelBuiltin ctx.builtin n ≠ some true

/-- **What is missing is reported** exactly if all of it comes before the first name that is
found, and it can be told that it is not built in. -/
theorem missing_reported_iff (ctx : Ctx) (md : Mod) :
    (∀ n ∈ md.names, Missing ctx n → ∃ k, (md, n) ∈ (resolveModule ctx md k).reports) ↔
      ∀ n ∈ md.names, Missing ctx n → n ∈ leading ctx md ∧
        kernelBuiltin ctx.builtin n = some false := by
  constructor
  · intro h n hn hmiss
    obtain ⟨k, hk⟩ := h n hn hmiss
    exact ((ahead_run ctx md k).few _ hk).2
  · intro h n hn hmiss
    obtain ⟨rest, hnames, hfind⟩ := leading_append ctx md
    have hb : ∀ x ∈ leading ctx md, kernelBuiltin ctx.builtin x ≠ none := by
      intro x hx hnone
      have hin : x ∈ md.names := by
        rw [hnames]
        exact mem_append_left _ hx
      have hmiss : Missing ctx x := ⟨findIndexedModule_eq_none_iff.mp
        (hfind x hx), by rw [hnone]; simp⟩
      have hsome := (h x hin hmiss).2
      rw [hnone] at hsome
      cases hsome
    obtain ⟨hlead, hno⟩ := h n hn hmiss
    exact ⟨_, (own_run hnames hfind hb).reported n hlead hno⟩

/-- A module in a directory `d`, with a name of one letter. -/
def moduleOf (c : UInt8) (deps : List UInt8) : Mod :=
    ⟨[0x64, 0x2F, c, 0x2E, 0x6B, 0x6F], 1, 1, some deps⟩

/-- **What is missing may go unreported**: `a` needs `b` and `c`, and there is no `c`. -/
theorem not_missing_reported : ¬ ∀ (ctx : Ctx) (md : Mod), md ∈ ctx.mods → ∀ n ∈ md.names,
    Missing ctx n →
    ∃ k, (md, n) ∈ (resolveModule ctx md k).reports := by
  intro h
  have hmiss : Missing ⟨[moduleOf 0x61 [0x62, 0x2C, 0x63], moduleOf 0x62 []], none⟩ [0x63] :=
    ⟨by decide, by decide⟩
  obtain ⟨k, hk⟩ := h _ (moduleOf 0x61 [0x62, 0x2C, 0x63]) mem_cons_self [0x63] (by decide) hmiss
  exact absurd ((ahead_run _ _ k).few _ hk).2.1 (by decide)

end Leading

/-! ### The line -/

section Line

variable {ctx : Ctx} {md : Mod} {st : Resolving} {w : Walker (List UInt8)}

/-- What is done is a walk over names, and the paths of the modules are written. -/
structure Walks (ctx : Ctx) (md : Mod) (st : Resolving) (w : Walker (List UInt8)) : Prop where
  seen : w.seen = st.seen
  pending : w.pending = st.pending.map Prod.snd
  mdep : st.mdep = md.path :: w.out.map (pathOf ctx)

lemma Walks.step (h : Walks ctx md st w) (hstuck : ¬ Stuck ctx st) :
    Walks ctx md (tryResolveName ctx st) (w.step (nextOf ctx) SLOTS) := by
  obtain ⟨seen, pending, out⟩ := w
  obtain ⟨rfl, rfl, hmdep⟩ := h
  rcases hp : st.pending with - | ⟨⟨m, n⟩, rest⟩
  · rw [step_ended hp, Walker.step_ended (by rfl)]
    exact ⟨rfl, by rw [hp], hmdep⟩
  rw [map_cons, step]
  dsimp only
  by_cases hn : n ∈ st.seen
  · rw [step_seen hp hn, if_pos hn]
    exact ⟨rfl, rfl, hmdep⟩
  rw [if_neg hn, nextOf]
  cases hfind : findIndexedModule ctx.mods n with
  | some dd =>
    rw [step_found hp hn hfind]
    refine ⟨rfl, ?_, ?_⟩
    · simp [tryResolveDeps, comp_def]
    · have hpath : pathOf ctx n = dd.path := by
        rw [pathOf, hfind]
        rfl
      show st.mdep ++ [dd.path] = md.path :: (out ++ [n]).map (pathOf ctx)
      rw [hmdep, map_append, map_singleton, hpath]
      rfl
  | none =>
    -- whether it is reported makes no difference to the walk
    rw [step_none hp hn hfind]
    by_cases htrans : st.transitive = true
    · rw [if_pos htrans]
      exact ⟨rfl, rfl, hmdep⟩
    · rw [if_neg htrans]
      rcases hb : kernelBuiltin ctx.builtin n with - | b
      · exact absurd ⟨m, n, rest, hp, hn, hfind, Bool.not_eq_true _ ▸ htrans, hb⟩ hstuck
      · cases b <;> exact ⟨rfl, rfl, hmdep⟩

/-- It does not break if it does not at the names before the first one that is found. -/
theorem not_stuck (hb : ∀ n ∈ leading ctx md, kernelBuiltin ctx.builtin n ≠ none) (k : ℕ) :
    ¬ Stuck ctx (resolveModule ctx md k) := by
  rintro ⟨m, n, rest, hp, -, hfind, htrans, hnone⟩
  rcases (ahead_run ctx md k).own with h | ⟨done, left, hown⟩
  · rw [htrans] at h
    cases h
  · have hpend := hown.pending
    rw [hp] at hpend
    obtain - | ⟨n', left⟩ := left
    · cases hpend
    · obtain ⟨hhead, -⟩ := cons.inj hpend
      obtain ⟨rfl, rfl⟩ := Prod.mk.inj hhead
      exact hb n (hown.mem_leading hfind) hnone

/-- The walk that is done for a module. -/
def walker (ctx : Ctx) (md : Mod) (k : ℕ) : Walker (List UInt8) :=
  (step (nextOf ctx) SLOTS)^[k] ⟨[], md.names, []⟩

lemma walks_run (hb : ∀ n ∈ leading ctx md, kernelBuiltin ctx.builtin n ≠ none) (k : ℕ) :
    Walks ctx md (resolveModule ctx md k) (walker ctx md k) := by
  induction k with
  | zero =>
    refine ⟨rfl, ?_, rfl⟩
    show md.names = (tryResolveDeps md).map Prod.snd
    rw [tryResolveDeps, List.map_map]
    exact (map_id _).symm
  | succ k ih =>
    have hstep := ih.step (not_stuck hb k)
    rwa [walker, resolveModule, iterate_succ_apply', iterate_succ_apply']

/-- **It does not end** where it breaks. -/
theorem not_ended_of_broken {n : List UInt8} (hn : n ∈ leading ctx md)
    (hb : kernelBuiltin ctx.builtin n = none) (k : ℕ) : (resolveModule ctx md k).pending ≠ [] := by
  obtain ⟨rest, hnames, hfind⟩ := leading_append ctx md
  -- up to the first name of that kind
  obtain ⟨x, hx⟩ : ∃ x, (leading ctx md).find? (fun n => (kernelBuiltin ctx.builtin n).isNone) =
    some x := by
    rw [← isSome_iff_exists, find?_isSome]
    exact ⟨n, hn, by rw [hb]; rfl⟩
  obtain ⟨hxb, pre, post, hsplit, hpre⟩ := find?_eq_some_iff_append.mp hx
  rw [hsplit, append_assoc] at hnames
  rw [hsplit] at hfind
  have hown : Own ctx md (resolveModule ctx md pre.length) pre (x :: (post ++ rest)) := by
    refine own_run hnames (fun y hy => hfind y (mem_append_left _ hy)) fun y hy hnone => ?_
    have := hpre y hy
    rw [hnone] at this
    cases this
  have hxfind := hfind x (mem_append_right _ mem_cons_self)
  have hstuck := hown.stuck hxfind (isNone_iff_eq_none.mp hxb)
  -- both are for good: that it has ended, and that it is stuck before the end
  intro hend
  have hstay : ∀ j, resolveModule ctx md (j + pre.length) = resolveModule ctx md pre.length := by
    intro j
    rw [resolveModule, iterate_add_apply]
    exact iterate_fixed hstuck.step j
  have hdone : resolveModule ctx md (pre.length + k) = resolveModule ctx md k := by
    rw [resolveModule, iterate_add_apply]
    exact iterate_fixed (step_ended hend) pre.length
  have hpend := hown.pending
  rw [← hstay k, add_comm, hdone, hend] at hpend
  cases hpend

/-- **A walk over the names** of a module, and of those it leads to, that fits into the slots
and meets no module under two names, nor the module itself. -/
structure Clean (ctx : Ctx) (md : Mod) (met : List (List UInt8)) : Prop where
  fits : Fits (nextOf ctx) SLOTS [] met
  once : ∀ n ∈ met, ∀ n' ∈ met, ∀ d d', findIndexedModule ctx.mods n = some d →
    findIndexedModule ctx.mods n' = some d' → d.path = d'.path → n = n'
  other : ∀ n ∈ met, ∀ d, findIndexedModule ctx.mods n = some d → d.path ≠ md.path

lemma mem_visits_nextOf {met : List (List UInt8)} {n : List UInt8} :
    n ∈ visits (nextOf ctx) [] met ↔ n ∈ met ∧ ∃ d, findIndexedModule ctx.mods n = some d := by
  rw [mem_visits_iff, nextOf, isSome_map, isSome_iff_exists]
  exact and_congr_right fun _ => and_iff_right not_mem_nil

/-- What is written has no path twice. -/
theorem nodup_visits_iff {met : List (List UInt8)} :
    (md.path :: (visits (nextOf ctx) [] met).map (pathOf ctx)).Nodup ↔
      (∀ n ∈ met, ∀ n' ∈ met, ∀ d d', findIndexedModule ctx.mods n = some d →
        findIndexedModule ctx.mods n' = some d' → d.path = d'.path → n = n') ∧
      ∀ n ∈ met, ∀ d, findIndexedModule ctx.mods n = some d → d.path ≠ md.path := by
  have hpath : ∀ {n d}, findIndexedModule ctx.mods n = some d → pathOf ctx n = d.path := by
    intro n d h
    rw [pathOf, h]
    rfl
  rw [nodup_cons, nodup_map_iff_inj_on (nodup_visits [] met), and_comm]
  refine and_congr ⟨?_, ?_⟩ ⟨?_, ?_⟩
  · intro h n hn n' hn' d d' hd hd' heq
    refine h n (mem_visits_nextOf.mpr ⟨hn, d, hd⟩) n' (mem_visits_nextOf.mpr ⟨hn', d', hd'⟩) ?_
    rw [hpath hd, hpath hd', heq]
  · intro h n hn n' hn' heq
    obtain ⟨hn, d, hd⟩ := mem_visits_nextOf.mp hn
    obtain ⟨hn', d', hd'⟩ := mem_visits_nextOf.mp hn'
    rw [hpath hd, hpath hd'] at heq
    exact h n hn n' hn' d d' hd hd' heq
  · intro h n hn d hd heq
    refine h (mem_map.mpr ⟨n, mem_visits_nextOf.mpr ⟨hn, d, hd⟩, ?_⟩)
    rw [hpath hd, heq]
  · intro h hin
    obtain ⟨n, hn, heq⟩ := mem_map.mp hin
    obtain ⟨hn, d, hd⟩ := mem_visits_nextOf.mp hn
    rw [hpath hd] at heq
    exact h n hn d hd heq

/-- The names of modules are finitely many. -/
theorem exists_met (ctx : Ctx) (md : Mod) : ∃ met, Tour (nextOf ctx) [] md.names met := by
  have hworld : ∀ n ∈ ((md :: ctx.mods).flatMap Mod.names).toFinset, ∀ m ∈ (nextOf ctx n).getD [],
      m ∈ ((md :: ctx.mods).flatMap Mod.names).toFinset := by
    intro n _ m hm
    rw [nextOf] at hm
    rcases hfind : findIndexedModule ctx.mods n with - | d
    · rw [hfind] at hm
      exact absurd hm not_mem_nil
    · rw [hfind] at hm
      rw [List.mem_toFinset, mem_flatMap]
      exact ⟨d, mem_cons_of_mem _ (findIndexedModule_some hfind).1, hm⟩
  refine exists_walk hworld fun n hn => ?_
  rw [List.mem_toFinset, mem_flatMap]
  exact ⟨md, mem_cons_self, hn⟩

/-- **A line is as it should be** exactly if the walk over the names is clean and it does not
break on the way. -/
theorem resolve_module_iff (ctx : Ctx) (md : Mod) :
    Resolved ctx md ↔
      (∃ met, Tour (nextOf ctx) [] md.names met ∧ Clean ctx md met) ∧
        ∀ n ∈ leading ctx md, kernelBuiltin ctx.builtin n ≠ none := by
  constructor
  · rintro ⟨k, hend, hnodup⟩
    have hb : ∀ n ∈ leading ctx md, kernelBuiltin ctx.builtin n ≠ none :=
      fun n hn hnone => not_ended_of_broken hn hnone k hend
    obtain ⟨met, hwalk⟩ := exists_met ctx md
    have hrun := walks_run hb k
    have hwend : (walker ctx md k).pending = [] := by rw [hrun.pending, hend, map_nil]
    rw [hrun.mdep] at hnodup
    -- names of different paths are different
    have hfits := (ends_iff hwalk).mp ⟨k, hwend, (nodup_cons.mp hnodup).2.of_map⟩
    have hout : (walker ctx md k).out = _ := out_of_ended hwalk hfits hwend
    rw [hout] at hnodup
    obtain ⟨honce, hother⟩ := nodup_visits_iff.mp hnodup
    exact ⟨⟨met, hwalk, hfits, honce, hother⟩, hb⟩
  · rintro ⟨⟨met, hwalk, hclean⟩, hb⟩
    obtain ⟨k, hwend, -⟩ := (ends_iff hwalk).mpr hclean.fits
    have hout : (walker ctx md k).out = _ := out_of_ended hwalk hclean.fits hwend
    have hrun := walks_run hb k
    refine ⟨k, ?_, ?_⟩
    · have hmap : (resolveModule ctx md k).pending.map Prod.snd = [] :=
        hrun.pending.symm.trans hwend
      exact map_eq_nil_iff.mp hmap
    · rw [hrun.mdep, hout]
      exact nodup_visits_iff.mpr ⟨hclean.once, hclean.other⟩

/-- The module `a`, which needs `a`, and nothing else. -/
def alone : Ctx := ⟨[moduleOf 0x61 [0x61]], none⟩

/-- **A module may be listed twice**. -/
theorem not_resolved : ¬ ∀ (ctx : Ctx) (md : Mod), md ∈ ctx.mods → Resolved ctx md := by
  intro h
  obtain ⟨k, hend, hnodup⟩ := h alone (moduleOf 0x61 [0x61]) mem_cons_self
  obtain - | k := k
  · exact absurd hend (by decide)
  · have hrun : Walks alone (moduleOf 0x61 [0x61])
      (resolveModule alone (moduleOf 0x61 [0x61]) (k + 1)) _ :=
      walks_run (by decide) (k + 1)
    have hfirst : (walker alone (moduleOf 0x61 [0x61]) 1).out = [[0x61]] := by decide
    have hmore : [[0x61]] <+: (walker alone (moduleOf 0x61 [0x61]) (k + 1)).out := by
      rw [← hfirst, walker, walker, iterate_add_apply]
      exact out_prefix_run _ k
    -- what is written for it is what the line began with
    have hpath : pathOf alone [0x61] = (moduleOf 0x61 [0x61]).path := by decide
    rw [hrun.mdep] at hnodup
    refine (nodup_cons.mp hnodup).1 (mem_map.mpr ⟨[0x61], ?_, hpath⟩)
    exact hmore.subset (mem_singleton_self _)

end Line

end Minibase.Kmod
