import Minibase.Ctool.Enact

/-!
# What `ctool use` makes

The last of the three passes of `cmd_use` makes the links, scripts and configs. What it makes
is read off the statements of the description (`Ctool.Use.Rule.read`) by a rule that says which
prefix, interpreter and config a statement goes by. One would expect it to go by what is above
it (`Ctool.Use.aboveRule`), but the passes share one context, so that where nothing is above, it
goes by the last one below (`Ctool.Use.lastRule`): the descriptions that come with the program
have a config in front of the interpreter that it is to be given.
-/

namespace Minibase.Ctool.Use

open List Option

open Mpkg (PAGE)

/-! ### Reading a description -/

/-- What `prefix`, `interp` and `config` say. -/
structure Settings where
  pref : Option (Str × Option Str)
  interp : Option Str
  config : Option Str

namespace Settings

/-- What is said once a statement has been read. -/
def after (g : Settings) : Statement → Settings
  | .pref path common => { g with pref := some (path, common) }
  | .config dst _ => { g with config := some dst }
  | .interp path => { g with interp := some path }
  | _ => g

/-- What is said here or, failing that, there. -/
def orElse (g g' : Settings) : Settings :=
  ⟨g.pref.or g'.pref, g.interp.or g'.interp, g.config.or g'.config⟩

/-- A name with the prefix, if there is one. -/
def target (g : Settings) (name : Str) : Str :=
  match g.pref with
  | none => name
  | some (path, common) => path ++ [0x2F] ++ common.getD [] ++ name

end Settings

/-- **What some statements say.** -/
def given (ss : List Statement) : Settings := ss.foldl Settings.after ⟨none, none, none⟩

/-- The directory that the command is used in. -/
def Env.workdir (env : Env) : Str :=
  match env.getcwd 1024 with
  | .ok dir => dir
  | .error _ => []

/-- The file under a name, if it is one. -/
def Env.textOf (env : Env) (made : List Made) (name : Str) : List UInt8 :=
  match env.find made name with
  | .ok (.file data) => data
  | _ => []

/-- What the variables stand for. -/
def value (env : Env) (g : Settings) (tool : Str) : Var → Str
  | .tool => tool
  | .tooldir => env.workdir
  | .interp => g.interp.getD []
  | .config => g.config.getD []

/-- What a statement asks for by some settings, if `$TOOL` is put in in some way. -/
def makes (putIn : Str → Str) (env : Env) (g : Settings) (made : List Made) :
    Statement → Option Made
  | .link dst target => some (.link (BIN ++ 0x2F :: dst) (g.target target))
  | .config dst src =>
    some (.file dst 0o644
      (expand (value env g []) (env.textOf made (makeSrcPath env CONFIG (some src)))))
  | .script dst src tool =>
    some (.file (BIN ++ 0x2F :: dst) 0o755
      (expand (value env g (putIn (g.target tool)))
        (env.textOf made (makeSrcPath env SCRIPT (some src)))))
  | .repo path => some (.repo path)
  | .pref _ _ => none
  | .interp _ => none

/-- A rule for reading a description: the settings of a statement below some others, and how
`$TOOL` is put in. -/
structure Rule where
  settings : List Statement → Statement → Settings
  putIn : Str → Str

/-- **What a description asks for**, statement by statement, below those above. -/
def Rule.read (r : Rule) (env : Env) : List Statement → List Made → List Statement → List Made
  | _, made, [] => made
  | above, made, s :: below =>
    r.read env (above ++ [s]) (made ++ (makes r.putIn env (r.settings above s) made s).toList) below

/-- A statement goes by those above it. -/
def aboveRule : Rule := ⟨fun above _ => given above, id⟩

/-- A statement goes by those above it and what it says itself or, failing that, by what the
description says last; a `$TOOL` that is no shorter than a page is left out. -/
def lastRule (ss : List Statement) : Rule :=
  ⟨fun above s => (given (above ++ [s])).orElse (given ss), fun tool => upToEnd (some tool)⟩

/-! ### Settings -/

section

variable (g g' : Settings) (ss : List Statement) (s : Statement)

lemma Settings.orElse_after : (g.orElse g').after s = (g.after s).orElse g' := by
  cases s <;> rfl

lemma Settings.empty_orElse : (⟨none, none, none⟩ : Settings).orElse g = g := by
  rcases g with ⟨_, _, _⟩
  rfl

lemma Settings.orElse_self : g.orElse g = g := by
  rcases g with ⟨pref, interp, config⟩
  rw [orElse, Option.or_self, Option.or_self, Option.or_self]

lemma given_append_singleton : given (ss ++ [s]) = (given ss).after s := by
  rw [given, foldl_append]
  rfl

/-- What was said before counts for what is not said again. -/
theorem foldl_after : ss.foldl Settings.after g = (given ss).orElse g := by
  suffices h : ∀ (ss : List Statement) (g₀ : Settings),
      ss.foldl Settings.after (g₀.orElse g) = (ss.foldl Settings.after g₀).orElse g by
    have := h ss ⟨none, none, none⟩
    rwa [Settings.empty_orElse] at this
  intro ss
  induction ss with
  | nil => exact fun g₀ => rfl
  | cons s ss ih =>
    intro g₀
    rw [foldl_cons, foldl_cons, Settings.orElse_after, ih]

end

/-! ### What a statement leaves as it is -/

/-- The settings in the context, and that nothing is being written. -/
structure Holds (env : Env) (g : Settings) (cct : Cct) : Prop where
  pref : cct.pref = g.pref.map Prod.fst
  common : cct.common = g.pref.bind Prod.snd
  interp : cct.interp = g.interp
  config : cct.config = g.config
  tooldir : cct.tooldir = some env.workdir
  tool : cct.tool = none

/-- What goes into templates fits a page. -/
structure Settings.Short (g : Settings) : Prop where
  interp : ∀ path, g.interp = some path → path.length < PAGE
  config : ∀ dst, g.config = some dst → dst.length < PAGE

/-- What carrying out a statement does not touch. -/
structure Kept (cct cct' : Cct) : Prop where
  mode : cct'.mode = cct.mode
  pref : cct'.pref = cct.pref
  common : cct'.common = cct.common
  interp : cct'.interp = cct.interp
  config : cct'.config = cct.config
  tooldir : cct'.tooldir = cct.tooldir

section

variable {env : Env} {g : Settings} {cct cct' : Cct} {name dst src : Str} {st : Stmt}
  {s : Statement}
  {ss above : List Statement} {sts : List Stmt}

lemma Kept.refl (cct : Cct) : Kept cct cct := ⟨rfl, rfl, rfl, rfl, rfl, rfl⟩

lemma Kept.holds (hkept : Kept cct cct') (htool : cct'.tool = none) (h : Holds env g cct) :
    Holds env g cct' :=
  ⟨hkept.pref.trans h.pref, hkept.common.trans h.common, hkept.interp.trans h.interp,
    hkept.config.trans h.config, hkept.tooldir.trans h.tooldir, htool⟩

lemma Settings.Short.after (hg : g.Short) (hs : s.Short) : (g.after s).Short := by
  rcases hg with ⟨hinterp, hconfig⟩
  cases s with
  | interp path =>
    refine ⟨?_, hconfig⟩
    rintro _ ⟨⟩
    exact hs path mem_cons_self
  | config dst src =>
    refine ⟨hinterp, ?_⟩
    rintro _ ⟨⟩
    exact hs dst mem_cons_self
  | pref _ _ => exact ⟨hinterp, hconfig⟩
  | link _ _ => exact ⟨hinterp, hconfig⟩
  | repo _ => exact ⟨hinterp, hconfig⟩
  | script _ _ _ => exact ⟨hinterp, hconfig⟩

lemma upToEnd_some (h : name.length < PAGE) : upToEnd (some name) = name := if_pos h

lemma Env.workdir_lt (env : Env) : env.workdir.length < PAGE := by
  have hbuf : (1024 : ℕ) < PAGE := by decide
  rw [Env.workdir]
  split
  · rename_i dir hdir
    exact lt_trans (env.getcwd_lt _ _ hdir) hbuf
  · exact lt_trans (Nat.zero_lt_succ _) hbuf

/-- What the context has for the variables is what they stand for. -/
theorem Holds.value (h : Holds env g cct) (hg : g.Short) (tool : Option Str) :
    (fun v => upToEnd ({ cct with tool := tool }.var v)) = value env g (upToEnd tool) := by
  funext v
  cases v with
  | tool => rfl
  | tooldir =>
    show upToEnd cct.tooldir = env.workdir
    rw [h.tooldir, upToEnd_some env.workdir_lt]
  | interp =>
    show upToEnd cct.interp = g.interp.getD []
    rw [h.interp]
    rcases hi : g.interp with - | path
    · rfl
    · exact upToEnd_some (hg.interp path hi)
  | config =>
    show upToEnd cct.config = g.config.getD []
    rw [h.config]
    rcases hc : g.config with - | dst
    · rfl
    · exact upToEnd_some (hg.config dst hc)

lemma Holds.target (h : Holds env g cct) (hname : name.length < PAGE) :
    makeLinkTarget cct (some name) = g.target name := by
  rw [makeLinkTarget, h.pref, h.common, upToEnd_some hname, Settings.target]
  rcases g.pref with - | ⟨path, common⟩
  · rfl
  · rfl

lemma makeDstPath_bin (hname : name.length < PAGE) :
    makeDstPath (some BIN) (some name) = BIN ++ 0x2F :: name := by
  rw [makeDstPath, upToEnd_some hname]
  rfl

lemma makeDstPath_none (hname : name.length < PAGE) : makeDstPath none (some name) = name := by
  rw [makeDstPath, upToEnd_some hname]
  rfl

/-! ### Single calls -/

lemma unlinkFile_spec (h : unlinkFile env cct name = .ok cct') : cct' = cct := by
  rw [unlinkFile] at h
  split at h <;> cases h <;> rfl

lemma checkIsdir_spec (h : checkIsdir env cct name = .ok cct') : cct' = cct := by
  obtain ⟨found, -, h⟩ := ok_of_bind h
  cases found <;> cases h
  rfl

lemma checkNexist_spec (h : checkNexist env cct name = .ok cct') : cct' = cct := by
  rw [checkNexist] at h
  split at h <;> cases h
  rfl

lemma addPath_spec (h : addPath cct name = .ok cct') :
    Kept cct cct' ∧ cct'.tool = cct.tool ∧ cct'.made = cct.made := by
  obtain ⟨_, -, h⟩ := ok_of_bind h
  cases h
  exact ⟨⟨rfl, rfl, rfl, rfl, rfl, rfl⟩, rfl, rfl⟩

lemma linkTool_spec {target : Str} (h : linkTool env cct name target = .ok cct') :
    cct' = { cct with made := cct.made ++ [.link name target] } := by
  obtain ⟨_, -, h⟩ := ok_of_bind h
  cases h
  rfl

lemma linkRepo_spec (h : linkRepo env cct name = .ok cct') :
    cct' = { cct with made := cct.made ++ [.repo name] } := by
  obtain ⟨cct₁, hdir, hrest⟩ := ok_of_bind h
  obtain rfl := checkIsdir_spec hdir
  obtain ⟨_, -, hrest⟩ := ok_of_bind hrest
  obtain ⟨_, -, hrest⟩ := ok_of_bind hrest
  cases hrest
  rfl

lemma readTemplate_spec (h : readTemplate env cct src = .ok cct') :
    cct' = { cct with rd := env.textOf cct.made src } := by
  obtain ⟨found, hfind, h⟩ := ok_of_bind h
  obtain ⟨_, -, h⟩ := ok_of_bind h
  cases found with
  | dir => cases h
  | other => cases h
  | file data =>
    obtain ⟨_, -, h⟩ := ok_of_bind h
    obtain ⟨_, -, h⟩ := ok_of_bind h
    obtain ⟨_, -, h⟩ := ok_of_bind h
    cases h
    rw [Env.textOf]
    rcases hf : env.find cct.made src with e | found
    · rw [hf] at hfind
      cases hfind
    · rw [hf] at hfind
      cases hfind
      rfl

lemma writeResults_spec {mode : ℕ} (h : writeResults env cct dst mode = .ok cct') :
    cct' = { cct with made := cct.made ++ [.file dst mode cct.wr] } := by
  obtain ⟨_, -, h⟩ := ok_of_bind h
  obtain ⟨_, -, h⟩ := ok_of_bind h
  obtain ⟨_, -, h⟩ := ok_of_bind h
  obtain ⟨_, -, h⟩ := ok_of_bind h
  cases h
  rfl

/-- **A template is written with its variables replaced.** -/
theorem copyWithSubst_spec {mode : ℕ} (h : copyWithSubst env cct dst src mode = .ok cct') :
    Kept cct cct' ∧ cct'.tool = cct.tool ∧ cct'.made = cct.made ++
      [.file dst mode (expand (fun v => upToEnd (cct.var v)) (env.textOf cct.made src))] := by
  obtain ⟨cct₁, hread, h⟩ := ok_of_bind h
  obtain ⟨cct₂, hsubst, h⟩ := ok_of_bind h
  obtain rfl := readTemplate_spec hread
  obtain rfl := substituteVars_spec hsubst
  obtain rfl := writeResults_spec h
  refine ⟨⟨rfl, rfl, rfl, rfl, rfl, rfl⟩, rfl, ?_⟩
  have hvar : ∀ v, Cct.var { cct with rd := env.textOf cct.made src } v = cct.var v := by
    intro v
    cases v <;> rfl
  simp only [hvar]

/-! ### Statements -/

/-- What carrying out a statement that asks for one thing does. -/
structure Does (made : Made) (cct cct' : Cct) : Prop where
  kept : Kept cct cct'
  tool : cct.tool = none → cct'.tool = none
  idle : cct.mode ≠ .real → cct'.made = cct.made
  real : cct.mode = .real → cct'.made = cct.made ++ [made]

variable {made : Made}

lemma Does.of_eq (hmode : cct.mode ≠ .real) (h : cct' = cct) : Does made cct cct' := by
  subst h
  exact ⟨.refl _, id, fun _ => rfl, fun hreal => absurd hreal hmode⟩

lemma Does.of_addPath (hmode : cct.mode ≠ .real) (h : addPath cct name = .ok cct') :
    Does made cct cct' := by
  obtain ⟨hkept, htool, hmade⟩ := addPath_spec h
  exact ⟨hkept, fun hnone => htool.trans hnone, fun _ => hmade, fun hreal => absurd hreal hmode⟩

/-- Only making what a statement asks for differs from one statement to the next. -/
theorem Does.of_modes {real : Except Halt Cct} (h : (match cct.mode with
      | .dry => checkNexist env cct name
      | .dele => unlinkFile env cct name
      | .real => real
      | .list => addPath cct name) = .ok cct')
    (hreal : cct.mode = .real → real = .ok cct' → Does made cct cct') : Does made cct cct' := by
  cases hmode : cct.mode with
  | dry =>
    rw [hmode] at h
    exact .of_eq (hmode ▸ Mode.noConfusion) (checkNexist_spec h)
  | dele =>
    rw [hmode] at h
    exact .of_eq (hmode ▸ Mode.noConfusion) (unlinkFile_spec h)
  | list =>
    rw [hmode] at h
    exact .of_addPath (hmode ▸ Mode.noConfusion) h
  | real =>
    rw [hmode] at h
    exact hreal hmode h

lemma doLink_spec {dst target : Option Str} (h : doLink env cct dst target = .ok cct') :
    Does (.link (makeDstPath (some BIN) dst) (makeLinkTarget cct target)) cct cct' := by
  refine .of_modes h fun hmode hmake => ?_
  obtain rfl := linkTool_spec hmake
  exact ⟨⟨rfl, rfl, rfl, rfl, rfl, rfl⟩, id, fun hne => absurd hmode hne, fun _ => rfl⟩

lemma doConfig_spec {dst src : Option Str} (h : doConfig env cct dst src = .ok cct') :
    Does (.file (makeDstPath none dst) 0o644 (expand (fun v => upToEnd (cct.var v))
      (env.textOf cct.made (makeSrcPath env CONFIG src)))) cct cct' := by
  refine .of_modes h fun hmode hmake => ?_
  obtain ⟨hkept, htool, hmade⟩ := copyWithSubst_spec hmake
  exact ⟨hkept, fun hnone => htool.trans hnone, fun hne => absurd hmode hne, fun _ => hmade⟩

lemma doScript_spec {dst src tool : Option Str} (h : doScript env cct dst src tool = .ok cct') :
    Does (.file (makeDstPath (some BIN) dst) 0o755
      (expand (fun v => upToEnd ({ cct with tool := some (makeLinkTarget cct tool) }.var v))
        (env.textOf cct.made (makeSrcPath env SCRIPT src)))) cct cct' := by
  obtain ⟨cct₁, hdo, h⟩ := ok_of_bind h
  cases h
  have hdoes : Does (.file (makeDstPath (some BIN) dst) 0o755
      (expand (fun v => upToEnd ({ cct with tool := some (makeLinkTarget cct tool) }.var v))
        (env.textOf cct.made (makeSrcPath env SCRIPT src))))
      { cct with tool := some (makeLinkTarget cct tool) } cct₁ := by
    refine .of_modes hdo fun hmode hmake => ?_
    obtain ⟨hkept, htool, hmade⟩ := copyWithSubst_spec hmake
    exact ⟨hkept, fun hnone => htool.trans hnone, fun hne => absurd hmode hne, fun _ => hmade⟩
  -- the tool is taken out again in every mode
  obtain ⟨⟨hmode, hpref, hcommon, hinterp, hconfig, htooldir⟩, -, hidle, hreal⟩ := hdoes
  exact ⟨⟨hmode, hpref, hcommon, hinterp, hconfig, htooldir⟩, fun _ => rfl, hidle, hreal⟩

lemma doRepo_spec (h : doRepo env cct (some name) = .ok cct') : Does (.repo name) cct cct' := by
  rw [doRepo] at h
  cases hmode : cct.mode with
  | dry =>
    rw [hmode] at h
    exact .of_eq (hmode ▸ Mode.noConfusion) (checkIsdir_spec h)
  | dele =>
    rw [hmode] at h
    exact .of_eq (hmode ▸ Mode.noConfusion) (unlinkFile_spec h)
  | list =>
    rw [hmode] at h
    cases h
    exact .of_eq (hmode ▸ Mode.noConfusion) rfl
  | real =>
    rw [hmode] at h
    obtain rfl := linkRepo_spec h
    exact ⟨⟨rfl, rfl, rfl, rfl, rfl, rfl⟩, id, fun hne => absurd hmode hne, fun _ => rfl⟩

/-! ### Passes -/

lemma Settings.Short.orElse {g' : Settings} (hg : g.Short) (hg' : g'.Short) :
    (g.orElse g').Short := by
  refine ⟨fun path hpath => ?_, fun dst hdst => ?_⟩
  · exact (or_eq_some_iff.mp hpath).elim (fun h => hg.interp path h) fun h => hg'.interp path h.2
  · exact (or_eq_some_iff.mp hdst).elim (hg.config dst) fun h => hg'.config dst h.2

lemma short_foldl (hg : g.Short) (hss : ∀ s ∈ ss, s.Short) : (ss.foldl Settings.after g).Short := by
  induction ss generalizing g with
  | nil => exact hg
  | cons s ss ih =>
    exact ih (hg.after (hss s mem_cons_self)) fun s' hs' => hss s' (mem_cons_of_mem _ hs')

lemma short_empty : (⟨none, none, none⟩ : Settings).Short := by
  constructor
  · rintro _ ⟨⟩
  · rintro _ ⟨⟩

lemma short_of_reads (hreads : List.Forall₂ Reads sts ss) : ∀ s ∈ ss, s.Short := by
  induction hreads with
  | nil => exact fun _ hs => nomatch hs
  | cons hst _ ih => exact forall_mem_cons.mpr ⟨hst.short, ih⟩

/-- The number of the line is not among the settings. -/
theorem Holds.atLine (h : Holds env g cct) (line : ℤ) : Holds env g { cct with line := line } :=
  ⟨h.pref, h.common, h.interp, h.config, h.tooldir, h.tool⟩

/-- Nor are the mode and the buffers. -/
theorem Holds.start (h : Holds env g cct) (mode : Mode) :
    Holds env g { cct with mode := mode, wr := [], rd := [] } :=
  ⟨h.pref, h.common, h.interp, h.config, h.tooldir, h.tool⟩

/-- What is put in for `$TOOL`. -/
abbrev fitted (tool : Str) : Str := upToEnd (some tool)

/-- What one statement does in a pass. -/
structure Steps (env : Env) (g : Settings) (s : Statement) (cct cct' : Cct) : Prop where
  holds : Holds env (g.after s) cct'
  mode : cct'.mode = cct.mode
  idle : cct.mode ≠ .real → cct'.made = cct.made
  real : cct.mode = .real → cct'.made = cct.made ++ (makes fitted env (g.after s) cct.made s).toList

lemma Does.steps (h : Does made cct cct') (hg : Holds env (g.after s) cct)
    (hmakes : makes fitted env (g.after s) cct.made s = some made) : Steps env g s cct cct' := by
  refine ⟨h.kept.holds (h.tool hg.tool) hg, h.kept.mode, h.idle, fun hreal => ?_⟩
  rw [hmakes]
  exact h.real hreal

/-- **A statement is carried out by what has been said so far and by itself.** -/
theorem run_spec {kw : Str × Key} (hreads : Reads st s) (hg : Holds env g cct) (hshort : g.Short)
    (hkw : keywords[st.code]? = some kw) (h : kw.2.run env cct st = .ok cct') :
    Steps env g s cct cct' := by
  obtain ⟨⟨word, hcode⟩, hmeans, hs⟩ := hreads
  obtain rfl : (word, s.key) = kw := Option.mem_unique hcode hkw
  have hshort' := hshort.after hs
  cases s with
  | pref path common =>
    cases h
    exact ⟨⟨hmeans.1, hmeans.2, hg.interp, hg.config, hg.tooldir, hg.tool⟩, rfl, fun _ => rfl,
      fun _ => (append_nil _).symm⟩
  | interp path =>
    cases h
    exact ⟨⟨hg.pref, hg.common, hmeans, hg.config, hg.tooldir, hg.tool⟩, rfl, fun _ => rfl,
      fun _ => (append_nil _).symm⟩
  | config dst src =>
    have hdst : dst.length < PAGE := hs dst mem_cons_self
    have hdo : doConfig env { cct with config := st.argStr 0 } (st.argStr 0) (st.argStr 1)
        = .ok cct' := h
    rw [hmeans.1, hmeans.2] at hdo
    have hg' : Holds env (g.after (.config dst src)) { cct with config := some dst } :=
      ⟨hg.pref, hg.common, hg.interp, rfl, hg.tooldir, hg.tool⟩
    have hsteps := (doConfig_spec hdo).steps (s := .config dst src) (g := g) hg' (by
      have hvalue := hg'.value hshort' none
      rw [makes, makeDstPath_none hdst, ← show upToEnd none = [] from rfl, ← hvalue]
      rw [show cct.tool = none from hg.tool])
    exact ⟨hsteps.holds, hsteps.mode, hsteps.idle, hsteps.real⟩
  | link dst target =>
    have hdst : dst.length < PAGE := hs dst mem_cons_self
    have htarget : target.length < PAGE := hs target (mem_cons_of_mem _ mem_cons_self)
    have hdo : doLink env cct (st.argStr 0) (st.argStr 1) = .ok cct' := h
    rw [hmeans.1, hmeans.2] at hdo
    refine (doLink_spec hdo).steps hg ?_
    rw [makes, makeDstPath_bin hdst, hg.target htarget]
    rfl
  | repo path =>
    have hdo : doRepo env cct (st.argStr 0) = .ok cct' := h
    rw [show st.argStr 0 = some path from hmeans] at hdo
    exact (doRepo_spec hdo).steps hg rfl
  | script dst src tool =>
    have hdst : dst.length < PAGE := hs dst mem_cons_self
    have htool : tool.length < PAGE :=
      hs tool (mem_cons_of_mem _ (mem_cons_of_mem _ mem_cons_self))
    have hdo : doScript env cct (st.argStr 0) (st.argStr 1) (st.argStr 2) = .ok cct' := h
    rw [hmeans.1, hmeans.2.1, hmeans.2.2] at hdo
    refine (doScript_spec hdo).steps hg ?_
    rw [makes, makeDstPath_bin hdst, hg.target htool, hg.value hshort]
    rfl

/-- The passes that only look leave behind what the description says last. -/
theorem runFrom_idle (hreads : List.Forall₂ Reads sts ss) (hg : Holds env g cct) (hshort : g.Short)
    (hmode : cct.mode ≠ .real) (h : runFrom env cct sts = .ok cct') :
    Holds env (ss.foldl Settings.after g) cct' ∧ cct'.made = cct.made := by
  induction hreads generalizing g cct with
  | nil =>
    cases h
    exact ⟨hg, rfl⟩
  | @cons st s sts ss hst _ ih =>
    rw [runFrom] at h
    split at h
    · cases h
    · rename_i kw hkw
      obtain ⟨cct₁, hrun, h⟩ := ok_of_bind h
      have hsteps := run_spec hst (hg.atLine st.shortLine) hshort hkw hrun
      have hrest := ih hsteps.holds (hshort.after hst.short) (hsteps.mode ▸ hmode) h
      exact ⟨hrest.1, hrest.2.trans (hsteps.idle hmode)⟩

/-- **The last pass makes what the rule says**, below those above. -/
theorem runFrom_real {all : List Statement} (hreads : List.Forall₂ Reads sts ss)
    (hall : (given all).Short) (habove : (given above).Short)
    (hg : Holds env ((given above).orElse (given all)) cct) (hmode : cct.mode = .real)
    (h : runFrom env cct sts = .ok cct') :
    cct'.made = (lastRule all).read env above cct.made ss := by
  induction hreads generalizing above cct with
  | nil =>
    cases h
    rfl
  | @cons st s sts ss hst _ ih =>
    rw [runFrom] at h
    split at h
    · cases h
    · rename_i kw hkw
      obtain ⟨cct₁, hrun, h⟩ := ok_of_bind h
      have hsteps := run_spec hst (hg.atLine st.shortLine) (habove.orElse hall) hkw hrun
      have hnext : ((given above).orElse (given all)).after s
          = (given (above ++ [s])).orElse (given all) := by
        rw [Settings.orElse_after, given_append_singleton]
      have hholds := hsteps.holds
      have hreal := hsteps.real hmode
      rw [hnext] at hholds hreal
      have habove' : (given (above ++ [s])).Short := by
        rw [given_append_singleton]
        exact habove.after hst.short
      rw [ih habove' hholds (hsteps.mode.trans hmode) h, hreal]
      rfl

end

/-! ### The command -/

/-- The path of the description that is to be used. -/
def descPath (env : Env) (name : Str) : Str := if 0x2F ∈ name then name else prepDescName env name

section

variable {env : Env} {name : Str} {text : List UInt8} {cct : Cct} {sts : List Stmt}

lemma commonBinInit_spec (htext : env.find [] (descPath env name) = .ok (.file text))
    (h : commonBinInit env name = .ok (cct, sts)) :
    parseToolDesc text = .ok sts ∧ Holds env ⟨none, none, none⟩ cct ∧ cct.made = [] := by
  obtain ⟨path, hpath, h⟩ := ok_of_bind h
  obtain ⟨_, -, hpath⟩ := ok_of_bind hpath
  cases hpath
  obtain ⟨text', hload, h⟩ := ok_of_bind h
  obtain ⟨tooldir, hdir, h⟩ := ok_of_bind h
  obtain ⟨sts', hparse, h⟩ := ok_of_bind h
  cases h
  have hpath : (if decide (0x2F ∈ name) = true then name else prepDescName env name)
      = descPath env name := by simp only [descPath, decide_eq_true_eq]
  rw [hpath, loadToolDesc, htext] at hload
  obtain ⟨_, ⟨⟩, hload⟩ := ok_of_bind hload
  obtain ⟨_, -, hload⟩ := ok_of_bind hload
  obtain ⟨_, -, hload⟩ := ok_of_bind hload
  obtain ⟨_, -, hload⟩ := ok_of_bind hload
  cases hload
  have hwork : env.workdir = tooldir := by
    rw [prepTooldir] at hdir
    rw [Env.workdir]
    cases hcwd : env.getcwd 1024 with
    | error e =>
      rw [hcwd] at hdir
      cases hdir
    | ok dir =>
      rw [hcwd] at hdir
      cases hdir
      rfl
  exact ⟨hparse, ⟨rfl, rfl, rfl, rfl, congrArg some hwork.symm, rfl⟩, rfl⟩

/-- **What `ctool use` makes**: the links, scripts and configs of the description, each by what is
said above it and by itself or, failing that, by what the description says last. -/
theorem use_read (htext : env.find [] (descPath env name) = .ok (.file text))
    (h : cmdUse env name = .ok cct) :
    cct.made = (lastRule (statementsOf text)).read env [] [] (statementsOf text) := by
  obtain ⟨stamped, -, h⟩ := ok_of_bind h
  obtain ⟨⟨cct₀, sts⟩, hinit, h⟩ := ok_of_bind h
  obtain ⟨cct₁, hdry, h⟩ := ok_of_bind h
  obtain ⟨_, -, h⟩ := ok_of_bind h
  obtain ⟨cct₂, hlist, h⟩ := ok_of_bind h
  obtain ⟨cct₃, hwrite, h⟩ := ok_of_bind h
  have hreal : runStatements env cct₃ .real sts = .ok cct := by
    cases stamped with
    | true => exact h
    | false =>
      obtain ⟨_, -, h⟩ := ok_of_bind h
      exact h
  obtain ⟨hparse, h₀, hmade₀⟩ := commonBinInit_spec htext hinit
  have hreads := parseToolDesc_spec hparse
  have hgiven : (given (statementsOf text)).Short := short_foldl short_empty (short_of_reads hreads)
  -- the first pass leaves behind what the description says last, and the second keeps it
  obtain ⟨h₁, hmade₁⟩ :=
    runFrom_idle hreads (h₀.start .dry) short_empty (fun hm => Mode.noConfusion hm) hdry
  obtain ⟨h₂, hmade₂⟩ :=
    runFrom_idle hreads (h₁.start .list) hgiven (fun hm => Mode.noConfusion hm) hlist
  obtain ⟨_, -, hwrite⟩ := ok_of_bind hwrite
  obtain ⟨_, -, hwrite⟩ := ok_of_bind hwrite
  cases hwrite
  rw [show (statementsOf text).foldl Settings.after ⟨none, none, none⟩ = given (statementsOf text)
    from rfl, foldl_after, Settings.orElse_self] at h₂
  have hmade : cct₂.made = [] := hmade₂.trans (hmade₁.trans hmade₀)
  have h₃ : Holds env (given (statementsOf text)) { cct₂ with wr := [] } :=
    ⟨h₂.pref, h₂.common, h₂.interp, h₂.config, h₂.tooldir, h₂.tool⟩
  have h₄ : Holds env ((given []).orElse (given (statementsOf text)))
      { cct₂ with mode := .real, wr := [], rd := [] } := h₃.start .real
  have hnone : (given []).Short := short_empty
  rw [runFrom_real hreads hgiven hnone h₄ rfl hreal]
  exact congrArg (fun made => (lastRule (statementsOf text)).read env [] made (statementsOf text))
    hmade

/-! ### A config in front of its interpreter -/

/-- The line `config c` and below it `interp /i`. -/
def specText : List UInt8 :=
  [0x63, 0x6F, 0x6E, 0x66, 0x69, 0x67, 0x20, 0x63, 0x0A,
    0x69, 0x6E, 0x74, 0x65, 0x72, 0x70, 0x20, 0x2F, 0x69, 0x0A]

/-- A system with this description at `/d`, and with `$INTERP` for the template of `c`. -/
def specEnv : Env where
  baseEtc := []
  getcwd n := if 1 < n then .ok [0x2F] else .error .EINVAL
  getcwd_lt n s h := by
    split at h
    · cases h
      assumption
    · cases h
  find _ name :=
    if name = [0x2F, 0x64] then .ok (.file specText)
    else if name = [0x2F, 0x74, 0x6F, 0x6F, 0x6C, 0x2F] ++ CONFIG ++ [0x2F, 0x63] then
      .ok (.file [0x24, 0x49, 0x4E, 0x54, 0x45, 0x52, 0x50])
    else .error .ENOENT
  call _ c :=
    match c with
    | .write _ data => .ok data.length
    | _ => .ok 0

lemma specEnv_made : (cmdUse specEnv [0x2F, 0x64]).toOption.map Cct.made
    = some [.file [0x63] 0o644 [0x2F, 0x69]] := by
  decide +kernel

lemma specEnv_ok : ∃ cct, cmdUse specEnv [0x2F, 0x64] = .ok cct ∧
    cct.made = [.file [0x63] 0o644 [0x2F, 0x69]] := by
  have hmade := specEnv_made
  rcases hrun : cmdUse specEnv [0x2F, 0x64] with e | cct
  · rw [hrun] at hmade
    cases hmade
  · rw [hrun] at hmade
    exact ⟨cct, rfl, Option.some.inj hmade⟩

theorem specEnv_read : ∃ cct, cmdUse specEnv [0x2F, 0x64] = .ok cct ∧
    cct.made = (lastRule (statementsOf specText)).read specEnv [] [] (statementsOf specText) := by
  obtain ⟨cct, hrun, -⟩ := specEnv_ok
  exact ⟨cct, hrun, use_read rfl hrun⟩

/-- **A config is not made by what is above it** alone: this one is given the interpreter that is
below it. -/
theorem use_not_above : ¬∀ (env : Env) (name : Str) (text : List UInt8) (cct : Cct),
    env.find [] (descPath env name) = .ok (.file text) → cmdUse env name = .ok cct →
      cct.made = aboveRule.read env [] [] (statementsOf text) := by
  intro h
  obtain ⟨cct, hrun, hmade⟩ := specEnv_ok
  have habove := h specEnv [0x2F, 0x64] specText cct rfl hrun
  have hread : aboveRule.read specEnv [] [] (statementsOf specText) = [.file [0x63] 0o644 []] := by
    decide +kernel
  rw [hmade, hread] at habove
  cases habove

end

end Minibase.Ctool.Use
