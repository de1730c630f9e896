import Minibase.Msh.Entries

/-!
# Changes of the entries

What the functions of `msh_cmd_envp.c` that look for variables, append them and take them out of
use do to the list of entries (`Msh.kind`). New entries are written over the arguments of the
command, so the string of a variable has to be out of the way (`Msh.appendVariable_spec`), which
is what the copies are for that the commands make first.
-/

namespace Minibase.Msh

open List

/-! ### Names -/

/-- How a variable is written. -/
def pair (name val : List UInt8) : List UInt8 := name ++ 61 :: val

lemma named_iff {var name : List UInt8} : named var name = true ↔ ∃ val, var = pair name val := by
  induction var generalizing name with
  | nil =>
    rw [named]
    exact ⟨(fun h => nomatch h), fun ⟨val, h⟩ => by simp [pair] at h⟩
  | cons v var ih =>
    cases name with
    | nil => simp [named, pair]
    | cons n name =>
      rw [named]
      split_ifs with hv
      · subst hv
        rw [ih]
        simp [pair]
      · refine ⟨(fun h => nomatch h), fun ⟨val, h⟩ => hv ?_⟩
        simp only [pair, cons_append, cons.injEq] at h
        exact h.1

/-- A variable has one name. -/
theorem pair_inj {n m v u : List UInt8} (hn : 61 ∉ n) (hm : 61 ∉ m) (h : pair n v = pair m u) :
    n = m ∧ v = u := by
  induction n generalizing m with
  | nil =>
    cases m with
    | nil => simpa [pair] using h
    | cons b m =>
      simp only [pair, nil_append, cons_append, cons.injEq] at h
      exact absurd (h.1 ▸ mem_cons_self) hm
  | cons a n ih =>
    cases m with
    | nil =>
      simp only [pair, nil_append, cons_append, cons.injEq] at h
      exact absurd (h.1 ▸ mem_cons_self) hn
    | cons b m =>
      simp only [pair, cons_append, cons.injEq] at h
      obtain ⟨rfl, rfl⟩ := ih (fun h' => hn (mem_cons_of_mem _ h'))
        (fun h' => hm (mem_cons_of_mem _ h')) h.2
      exact ⟨by rw [h.1], rfl⟩

lemma named_pair {n m v : List UInt8} (hn : 61 ∉ n) (hm : 61 ∉ m) :
    named (pair n v) m = true ↔ n = m := by
  rw [named_iff]
  constructor
  · rintro ⟨u, h⟩
    exact (pair_inj hn hm h).1
  · rintro rfl
    exact ⟨v, rfl⟩

/-! ### Loops over the entries -/

section Loops

variable {ctx : Sh} {es : List Ent}

lemma map_offsets {β : Type} {F : ℕ → β} {G : Ent → β}
    (h : ∀ pre e post, es = pre ++ e :: post → F (total pre) = G e) :
    (offsets 0 es).map F = es.map G := by
  have hgen : ∀ post pre, es = pre ++ post → (offsets (total pre) post).map F = post.map G := by
    intro post
    induction post with
    | nil => exact fun _ _ => rfl
    | cons e post ih =>
      intro pre hes
      have hrest := ih (pre ++ [e]) (by simp [hes])
      simp only [total_append, total_cons, total_nil, add_zero] at hrest
      rw [offsets, map_cons, map_cons, h pre e post hes, hrest]
  exact hgen es [] rfl

variable {t : Mark}

/-- The values of the entries of a kind, as the loops meet them. -/
theorem envValues_eq (h : ctx.Keeps es) (hfits : Fits es) (ht : t ≠ .gone) :
    ctx.envs.map (fun ev => ctx.envValue ev t.bits) =
      es.map fun e => if e.mark = t then some (e.text ctx.environ) else none := by
  rw [envs_eq h hfits]
  refine map_offsets fun pre e post hes => ?_
  subst hes
  exact h.envValue_entry ht

/-- The variables of a kind. -/
def kind (environ : List Str) (t : Mark) (es : List Ent) : List (List UInt8) :=
  (es.filter fun e => e.mark = t).map (Ent.text environ)

lemma filterMap_mark (environ : List Str) (t : Mark) (es : List Ent) :
    (es.map fun e => if e.mark = t then some (e.text environ) else none).filterMap id =
      kind environ t es := by
  induction es with
  | nil => rfl
  | cons e es ih =>
    by_cases hm : e.mark = t
    · simpa [kind, hm] using ih
    · simpa [kind, hm] using ih

lemma filterMap_envValue (h : ctx.Keeps es) (hfits : Fits es) (ht : t ≠ .gone) :
    ctx.envs.filterMap (fun ev => ctx.envValue ev t.bits) = kind ctx.environ t es := by
  rw [← filterMap_mark, ← envValues_eq h hfits ht, filterMap_map]
  rfl

/-- A search through the entries is one through the variables of the kind. -/
theorem findSome_envValue {β : Type} (h : ctx.Keeps es) (hfits : Fits es) (ht : t ≠ .gone)
    (F : List UInt8 → Option β) :
    (ctx.envs.findSome? fun ev =>
      match ctx.envValue ev t.bits with
      | none => none
      | some var => F var) = (kind ctx.environ t es).findSome? F := by
  rw [← filterMap_envValue h hfits ht]
  induction ctx.envs with
  | nil => rfl
  | cons ev evs ih =>
    rw [findSome?_cons, filterMap_cons]
    rcases ctx.envValue ev t.bits with _ | var
    · exact ih
    · rw [findSome?_cons, ih]

lemma any_holdsVar (h : ctx.Keeps es) (hfits : Fits es) (ht : t ≠ .gone) (name : List UInt8) :
    ctx.envs.any (ctx.holdsVar t.bits name) = (kind ctx.environ t es).any fun var =>
      named var name := by
  rw [← filterMap_envValue h hfits ht, any_filterMap]
  congr 1
  funext ev
  rw [Sh.holdsVar]
  cases ctx.envValue ev t.bits <;> rfl

end Loops

/-! ### Entries that are appended and taken out of use -/

section Changes

variable {ctx ctx' : Sh} {es : List Ent}

/-- What a command leaves alone. -/
def Sh.SameShell (ctx ctx' : Sh) : Prop :=
    ctx'.environ = ctx.environ ∧ ctx'.customenvp = ctx.customenvp

/-- `clear_definition`, for an entry. -/
def clearEnt (environ : List Str) (name : List UInt8) (e : Ent) : Ent :=
  if e.mark = .envp ∧ named (e.text environ) name = true then e.dropped else e

/-- `clear_all_entries`, for an entry. -/
def dropEnt (e : Ent) : Ent := if e.mark = .envp then e.dropped else e

lemma clearEnt_body (environ : List Str) (name : List UInt8) (e : Ent) :
    (clearEnt environ name e).body = e.body := by
  rw [clearEnt]
  split_ifs <;> rfl

lemma dropEnt_body (e : Ent) : (dropEnt e).body = e.body := by
  rw [dropEnt]
  split_ifs <;> rfl

variable {p : ℕ}

lemma clearOne_eq {pre post : List Ent} {e : Ent} (h : ctx.Keeps (pre ++ e :: post)) :
    ctx.clearOne p (total pre) =
      if e.mark = .envp ∧ named (e.text ctx.environ) (ctx.str p) = true then
        ctx.setKey (total pre) e.dropped.key
      else ctx := by
  have hvar : ctx.holdsVar EV_ENVP (ctx.str p) (total pre) = true ↔
      e.mark = .envp ∧ named (e.text ctx.environ) (ctx.str p) = true := by
    rw [Sh.holdsVar, show EV_ENVP = Mark.envp.bits from rfl,
      h.envValue_entry (t := .envp) (fun h => nomatch h)]
    by_cases hm : e.mark = .envp
    · simp [hm]
    · simp [hm]
  rw [Sh.clearOne, h.key_entry, Ent.key_clear_both h.ok_entry]
  simp only [hvar]

section

variable (h : ctx.Keeps es)
include h

/-- **`clear_definition`** takes the variable of that name out of the environment. -/
theorem clearDefinition_keeps (hfits : Fits es) (hp : ctx.asep ≤ p) :
    (ctx.clearDefinition p).Keeps (es.map (clearEnt ctx.environ (ctx.str p))) ∧
      ctx.Frame (ctx.clearDefinition p) := by
  refine forEnvs_keeps (clearEnt_body _ _) (fun ctx' pre e post hframe hk => ?_) h hfits
  rw [clearOne_eq hk, hframe.str hp, show ctx'.environ = ctx.environ by rw [hframe.same], clearEnt]
  split_ifs
  · exact .inr rfl
  · exact .inl ⟨rfl, rfl⟩

/-- Without an environment of its own there is nothing to be taken out. -/
theorem clearDefinition_idle
    (hno : ∀ e ∈ es, e.mark = .envp → named (e.text ctx.environ) (ctx.str p) = false) :
    ctx.clearDefinition p = ctx := by
  refine forEnvs_idle (fun pre e post hes => ?_) h
  subst hes
  rw [clearOne_eq h, if_neg]
  rintro ⟨hm, hn⟩
  rw [hno e (by simp) hm] at hn
  cases hn

lemma clearAllEntries_keeps (hfits : Fits es) :
    (ctx.clearAllEntries EV_ENVP).Keeps (es.map dropEnt) ∧
      ctx.Frame (ctx.clearAllEntries EV_ENVP) := by
  refine forEnvs_keeps dropEnt_body (fun ctx' pre e post _ hk => ?_) h hfits
  have hmark : e.key &&& EV_ENVP = 0 ↔ e.mark ≠ .envp :=
    Ent.key_and_mark (t := .envp) hk.ok_entry (fun h => nomatch h)
  rw [Sh.dropOne, hk.key_entry, dropEnt]
  by_cases hm : e.mark = .envp
  · rw [if_neg (by rw [hmark]; exact not_not.mpr hm), if_pos hm, Ent.key_clear_envp hk.ok_entry hm]
    exact .inr rfl
  · rw [if_pos (hmark.mpr hm), if_neg hm]
    exact .inl ⟨rfl, rfl⟩

/-- One more entry. -/
theorem Sh.Keeps.append {e : Ent} {m : Mem} (hok : e.Ok ctx.environ)
    (hm : ∀ i, i < ctx.asep → m i = ctx.mem i) (hat : e.At m ctx.asep)
    (hle : ctx.asep + e.body.size ≤ ctx.hptr) :
    Sh.Keeps { ctx with mem := m, asep := ctx.asep + e.body.size,
                        appended := ctx.appended ++ [ctx.asep] } (es ++ [e]) := by
  refine ⟨layout_append.mpr ⟨h.layout.congr fun i _ hi => hm i ?_, ?_, trivial⟩, ?_, ?_, ?_, hle⟩
  · rw [h.asep]
    omega
  · rw [zero_add, ← h.asep]
    exact hat
  · intro x hx
    rcases mem_append.mp hx with hx | hx
    · exact h.ok x hx
    · obtain rfl := mem_singleton.mp hx
      exact hok
  · simp [h.asep]
  · simp [h.appended, offsets_append, offsets, h.asep]

/-- **`append_variable`**, with a string that is out of the way. -/
theorem appendVariable_spec {s : List UInt8} {t : Mark} (hs : 0 ∉ s)
    (hp : ctx.mem.Holds p (s ++ [0])) (hlo : ctx.asep + Body.size (.text s) ≤ p)
    (hhi : p + s.length + 1 ≤ ctx.hptr) (hok : ctx.appendVariable p t.bits = .ok ctx') :
    ctx'.Keeps (es ++ [⟨t, .text s⟩]) ∧ ctx.SameShell ctx' := by
  have hstr : ctx.str p = s := str_of_holds hp hs hhi
  have hround : ENV + s.length + 1 ≤ Body.size (.text s) := le_roundUp4 _
  unfold Sh.appendVariable at hok
  simp only [hstr] at hok
  split_ifs at hok with hsize
  have hkey : t.bits ||| roundUp4 (ENV + s.length + 1) = Ent.key ⟨t, .text s⟩ := by
    simp [Ent.key, refBit, Body.isRef, Body.low, Body.size]
  set m1 := ctx.mem.store ctx.asep (le 4 (t.bits ||| roundUp4 (ENV + s.length + 1))) with hm1
  have hload : m1.load p (s.length + 1) = s ++ [0] := by
    have hh : m1.Holds p (s ++ [0]) := hp.store (.inl (by simp [ENV] at hround ⊢; omega))
    have := Mem.holds_iff_load.mp hh
    simpa using this
  have hadd : ctx.asep + roundUp4 (ENV + s.length + 1) - roundUp4 (ENV + s.length + 1) + ENV =
      ctx.asep + ENV := by omega
  have hctx : ctx' = { ctx with mem := m1.store (ctx.asep + ENV) (s ++ [0]),
                                asep := ctx.asep + roundUp4 (ENV + s.length + 1),
                                appended := ctx.appended ++ [ctx.asep] } := by
    rw [← Except.ok.inj hok]
    simp only [Sh.write, Sh.setKey, ← hm1, hload, hadd]
  rw [hctx]
  refine ⟨h.append (e := ⟨t, .text s⟩) ⟨hs, Nat.not_lt.mp hsize⟩ (fun i hi => ?_) ⟨?_, ?_⟩ ?_, rfl,
    rfl⟩
  · rw [Mem.store_of_not_mem (by omega), hm1, Mem.store_of_not_mem (by omega)]
  · refine Mem.Holds.store ?_ (.inr (by rw [length_le]; exact le_rfl))
    rw [hm1, hkey]
    exact Mem.holds_store _ _ _
  · rintro s' ⟨⟩
    exact Mem.holds_store _ _ _
  · simp only
    omega

/-- **`append_reference`.** -/
theorem appendReference_spec {idx : ℕ} {t : Mark} (hidx : idx < ctx.environ.length)
    (hle : ctx.asep + ENV ≤ ctx.hptr) (hok : ctx.appendReference idx t.bits = .ok ctx') :
    ctx'.Keeps (es ++ [⟨t, .ref idx⟩]) ∧
      ctx' = { ctx with mem := ctx'.mem, asep := ctx.asep + ENV,
                        appended := ctx.appended ++ [ctx.asep] } ∧
      ∀ i, ctx.asep + ENV ≤ i → ctx'.mem i = ctx.mem i := by
  unfold Sh.appendReference at hok
  split_ifs at hok with hsize
  have hkey : EV_REF ||| t.bits ||| idx = Ent.key ⟨t, .ref idx⟩ := by
    simp [Ent.key, refBit, Body.isRef, Body.low]
  have hctx : ctx' = { ctx with mem := ctx.mem.store ctx.asep (le 4 (Ent.key ⟨t, .ref idx⟩)),
                                asep := ctx.asep + ENV,
                                appended := ctx.appended ++ [ctx.asep] } := by
    rw [← Except.ok.inj hok, Sh.setKey, hkey]
  rw [hctx]
  refine ⟨h.append (e := ⟨t, .ref idx⟩) ⟨Nat.not_lt.mp hsize, hidx⟩ (fun i hi => ?_)
    ⟨?_, fun s hs => by cases hs⟩ hle, rfl, fun i hi => ?_⟩
  · exact Mem.store_of_not_mem (by omega)
  · exact Mem.holds_store _ _ _
  · exact Mem.store_of_not_mem (by rw [length_le]; exact .inr hi)

end

/-- The references to the strings of the environment from one on. -/
def refsFrom (k n : ℕ) : List Ent := (range' k n).map fun i => ⟨.envp, .ref i⟩

lemma total_refsFrom (k n : ℕ) : total (refsFrom k n) = n * ENV := by
  induction n generalizing k with
  | zero => rfl
  | succ n ih =>
    have := ih (k + 1)
    simp only [refsFrom] at this
    simp only [refsFrom, range'_succ, map_cons, total_cons, this, Body.size]
    rw [Nat.succ_mul, add_comm]

lemma appendReferences_spec {n : ℕ} (h : ctx.Keeps es) (hn : n ≤ ctx.environ.length)
    (hle : ctx.asep + n * ENV ≤ ctx.hptr) (hok : Sh.appendReferences n ctx = .ok ctx') :
    ctx'.Keeps (es ++ refsFrom (ctx.environ.length - n) n) ∧
      ctx' = { ctx with mem := ctx'.mem, asep := ctx'.asep, appended := ctx'.appended } ∧
      ∀ i, ctx.asep + n * ENV ≤ i → ctx'.mem i = ctx.mem i := by
  induction n generalizing ctx es with
  | zero =>
    cases hok
    refine ⟨?_, rfl, fun _ _ => rfl⟩
    simpa [refsFrom] using h
  | succ n ih =>
    rw [Nat.succ_mul] at hle
    obtain ⟨c, hone, hrest⟩ := ok_of_bind hok
    obtain ⟨hk, hc, hmem⟩ := appendReference_spec (t := .envp) h (by omega) (by omega) hone
    have henv : c.environ = ctx.environ := by rw [hc]
    have hasep : c.asep = ctx.asep + ENV := by rw [hc]
    have hptr : c.hptr = ctx.hptr := by rw [hc]
    obtain ⟨hk', hc', hmem'⟩ := ih hk (by rw [henv]; omega) (by rw [hasep, hptr]; omega) hrest
    refine ⟨?_, ?_, fun i hi => ?_⟩
    · have hsub : ctx.environ.length - n = ctx.environ.length - (n + 1) + 1 := by omega
      rw [henv, hsub, append_assoc] at hk'
      simpa [refsFrom, range'_succ] using hk'
    · rw [hc', hc]
    · rw [Nat.succ_mul] at hi
      rw [hmem' i (by rw [hasep]; omega), hmem i (by omega)]

/-- **`start_custom_envp`**, for the first time. -/
theorem startCustomEnvp_first (h : ctx.Keeps es) (hcustom : ctx.customenvp < 0)
    (hle : ctx.asep + ctx.environ.length * ENV ≤ ctx.hptr)
    (hok : ctx.startCustomEnvp = .ok ctx') :
    ctx'.Keeps (es ++ refsFrom 0 ctx.environ.length) ∧
      ctx' = { ctx with mem := ctx'.mem, asep := ctx'.asep, appended := ctx'.appended,
                        customenvp := ctx.environ.length } ∧
      ∀ i, ctx.asep + ctx.environ.length * ENV ≤ i → ctx'.mem i = ctx.mem i := by
  rw [Sh.startCustomEnvp, if_neg (by omega)] at hok
  obtain ⟨c, hrefs, hc⟩ := ok_of_bind hok
  cases hc
  obtain ⟨hk, heq, hmem⟩ := appendReferences_spec h le_rfl hle hrefs
  rw [Nat.sub_self] at hk
  refine ⟨⟨hk.layout, hk.ok, hk.asep, hk.appended, hk.le⟩, ?_, hmem⟩
  have henv : c.environ = ctx.environ := by rw [heq]
  rw [heq]

end Changes

end Minibase.Msh
