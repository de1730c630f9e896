import Minibase.Msh.Commands
import Minibase.Lib.Runs

/-!
# Variables as two maps

`set` and `getenv` define variables of the script, each once; `setenv`, `delenv` and `clearenv`
change the environment of the processes started later on. `Msh.World` has these two maps beside
the heap, and the heap gives the same answers (`Msh.World.Behaves`) in every run in which no entry
is followed by less than its own size (`Msh.World.Suits`, `Msh.variables_behave`). In others the
entries at the end are not seen, `Msh.variable_hidden`.
-/

namespace Minibase.Msh

open List Option Sh

/-! ### The system -/

/-- A command about variables. -/
inductive Cmd
  | set (name val : Str)
  | getenv (name : Str)
  | setenv (name val : Str)
  | delenv (name : Str)
  | clearenv
deriving DecidableEq

/-- The arguments it has. -/
def Cmd.args : Cmd → List (List UInt8)
  | .set n v => [Verb.set.name, n.chars, v.chars]
  | .getenv n => [Verb.getenv.name, n.chars]
  | .setenv n v => [Verb.setenv.name, n.chars, v.chars]
  | .delenv n => [Verb.delenv.name, n.chars]
  | .clearenv => [Verb.clearenv.name]

/-- The shell, the variables of the script and the environment. -/
structure World where
  ctx : Sh
  vars : List (List UInt8 × List UInt8)
  env : List (List UInt8)

/-- The value of a variable in the environment that the shell has been given. -/
def originally (environ : List Str) (name : List UInt8) : List UInt8 :=
  ((environ.map Str.chars).find? fun var => named var name).getD [] |>.drop (name.length + 1)

/-- What a command means. -/
def World.after (w : World) (ctx : Sh) : Cmd → World
  | .set n v => { w with ctx := ctx, vars := w.vars ++ [(n.chars, v.chars)] }
  | .getenv n => { w with
    ctx := ctx, vars := w.vars ++ [(n.chars, originally ctx.environ n.chars)] }
  | .setenv n v => { w with
      ctx := ctx, env := (w.env.filter fun var => !named var n.chars) ++ [pair n.chars v.chars] }
  | .delenv n => { w with ctx := ctx, env := w.env.filter fun var => !named var n.chars }
  | .clearenv => { w with ctx := ctx, env := [] }

/-- A command that does not fail. -/
def step (w : World) (c : Cmd) : Option World :=
  match w.ctx.execute c.args with
  | .ok ctx => some (w.after ctx c)
  | .error _ => none

/-- What `main` starts from. -/
def Boot (w : World) : Prop :=
  ∃ environ brk mem,
    w = ⟨{ environ := environ, customenvp := -1, argp := 0, argv := [], asep := 0, hptr := 0,
           brk := brk, mem := mem, appended := [] }, [], environ.map Str.chars⟩

/-- The names of the variables among strings. -/
def names (l : List (List UInt8)) : List (List UInt8) :=
  (l.filter fun var => 61 ∈ var).map fun var => var.takeWhile (· ≠ 61)

/-- **The heap stands for the two maps.** -/
structure World.Behaves (w : World) : Prop where
  /-- The loops meet every entry that has ever been appended, each once. -/
  met : w.ctx.envs = w.ctx.appended
  once : w.ctx.appended.Nodup
  /-- `$name` is the value of the one definition of that name. -/
  value : ∀ name, 61 ∉ name → w.ctx.valueof name = (w.vars.find? fun v => v.1 = name).map Prod.snd
  defined : (w.vars.map Prod.fst).Nodup
  /-- Processes get the environment, and each name in it once. -/
  env : w.ctx.prepenvp = w.env
  single : (names (w.ctx.environ.map Str.chars)).Nodup → (names w.env).Nodup

/-- The size of the last entry. -/
def World.last (w : World) : ℕ :=
  match w.ctx.appended.getLast? with
  | none => 0
  | some a => w.ctx.asep - a

/-- The size of the entry for a variable. -/
def pairSize (n v : Str) : ℕ := roundUp4 (ENV + (pair n.chars v.chars).length + 1)

/-- A command that does not leave less after the last entry than that takes up itself. -/
def World.Suits (w : World) : Cmd → Prop
  | .set n v => w.last ≤ pairSize n v
  | .getenv _ => w.last ≤ ENV
  | .setenv n v =>
    w.last ≤ w.ctx.extra ∨
      ((w.ctx.extra ≠ 0 → ∀ s ∈ w.ctx.environ, named s.chars n.chars = false) ∧
        w.last ≤ w.ctx.extra + pairSize n v)
  | .delenv _ => w.ctx.extra ≠ 0 → w.last ≤ w.ctx.extra
  | .clearenv => True

instance (w : World) : ∀ c, Decidable (w.Suits c)
  | .set _ _ => inferInstanceAs (Decidable (_ ≤ _))
  | .getenv _ => inferInstanceAs (Decidable (_ ≤ _))
  | .setenv _ _ => inferInstanceAs (Decidable (_ ∨ _))
  | .delenv _ => inferInstanceAs (Decidable (_ → _))
  | .clearenv => inferInstanceAs (Decidable True)

/-! ### Running a command -/

section Execute

variable {ctx ctx' : Sh} {es : List Ent}

lemma builtin_name (v : Verb) : Verb.builtin v.name = some v := by
  cases v <;> rfl

lemma Sh.command_eq {c : Sh} {v : Verb} {argv : List ℕ} (h : c.str (argv.getD 0 0) = v.name) :
    c.command argv = do
      let d ← v.func { c with argp := 1, argv := argv }
      return { d with argv := [] } := by
  have hlead : str { c with argp := 1, argv := argv } (argv.getD 0 0) = v.name := h
  rw [command, hlead, builtin_name]

/-- The parser and `command` prepare what a command finds. -/
theorem execute_spec {v : Verb} {params : List (List UInt8)} (h : ctx.Keeps es)
    (hidle : ctx.hptr = ctx.asep) (hparams : ∀ s ∈ params, 0 ∉ s)
    (hok : ctx.execute (v.name :: params) = .ok ctx') :
    ∃ c d, c.Ready es (v.name :: params) ∧ c.environ = ctx.environ ∧
      c.customenvp = ctx.customenvp ∧ v.func c = .ok d ∧
      ctx' = { d with argv := [], hptr := d.asep } := by
  have hname : 0 ∉ v.name := by
    cases v <;> decide
  rw [execute, if_neg (cons_ne_nil _ _)] at hok
  obtain ⟨c0, hpush, hok⟩ := ok_of_bind hok
  obtain ⟨⟨p, c1⟩, halloc, hok⟩ := ok_of_bind hok
  obtain ⟨c2, hcmd, hok⟩ := ok_of_bind hok
  cases hok
  obtain ⟨⟨q, c3⟩, hq, hc0⟩ := ok_of_bind hpush
  unfold heapAlloc at hq halloc
  split_ifs at hq
  cases hq
  cases hc0
  split_ifs at halloc
  cases halloc
  dsimp only [write] at hcmd
  set args := v.name :: params with hargs
  set m := ctx.mem.store ctx.hptr (argBytes args) with hm
  set c : Sh := { ctx with
    mem := m, hptr := ctx.hptr + (argBytes args).length + (args.length + 1) * 8,
                           argp := 1, argv := indexArgs ctx.asep args } with hc
  have hholds : c.mem.Holds c.asep (argBytes args) := by
    show m.Holds ctx.asep _
    rw [hm, hidle]
    exact Mem.holds_store _ _ _
  have hready : c.Ready es args := by
    refine ⟨?_, rfl, rfl, hholds, ?_, ?_⟩
    · refine h.of_args rfl rfl rfl ?_ fun i hi => Mem.store_of_not_mem (.inl ?_)
      · show ctx.hptr ≤ ctx.hptr + _ + _
        omega
      · omega
    · show ctx.hptr + _ + _ = ctx.asep + _ + _
      rw [hidle]
    · intro s hs
      rcases mem_cons.mp hs with rfl | hs
      · exact hname
      · exact hparams s hs
  have hlead : c.str ctx.asep = v.name := by
    have hb : argBytes args = (v.name ++ [0]) ++ argBytes params := rfl
    rw [hb, Mem.holds_append] at hholds
    refine str_of_holds hholds.1 hname ?_
    show ctx.asep + _ + 1 ≤ ctx.hptr + _ + _
    rw [hb, length_append, length_append, length_singleton]
    omega
  rw [@Sh.command_eq _ v (indexArgs ctx.asep args) ?lead] at hcmd
  case lead => exact hlead
  obtain ⟨d, hd, hc2⟩ := ok_of_bind hcmd
  cases hc2
  exact ⟨c, d, hready, rfl, rfl, hd, rfl⟩

/-- After a command only the entries are left. -/
theorem Sh.Keeps.done {d : Sh} (h : d.Keeps es) :
    Sh.Keeps { d with argv := [], hptr := d.asep } es :=
  ⟨h.layout, h.ok, h.asep, h.appended, le_rfl⟩

end Execute

/-! ### Sizes -/

section Sizes

variable {es xs ys : List Ent}

/-- The size of the last entry of a list. -/
def lastSize (es : List Ent) : ℕ := (es.getLast?.map fun e => e.body.size).getD 0

lemma Fits.append (hx : Fits xs) (hy : Fits ys) (h : ys = [] ∨ lastSize xs ≤ total ys) :
    Fits (xs ++ ys) := by
  induction xs with
  | nil => exact hy
  | cons e xs ih =>
    obtain ⟨hle, hrest⟩ := hx
    rcases xs with _ | ⟨e', xs⟩
    · refine ⟨?_, hy⟩
      simpa [lastSize] using h
    · refine ⟨.inr ?_, ih hrest ?_⟩
      · rcases hle with hnil | hle
        · cases hnil
        · show e.body.size ≤ total ((e' :: xs) ++ ys)
          rw [total_append]
          omega
      · simpa [lastSize] using h

lemma fits_map {g : Ent → Ent} (hg : ∀ e, (g e).body = e.body) :
    Fits (xs.map g ++ ys) ↔ Fits (xs ++ ys) := by
  induction xs with
  | nil => rfl
  | cons e xs ih =>
    rw [map_cons, cons_append, cons_append, Fits, Fits, ih, hg, total_append,
      total_append, total_map hg]
    simp

lemma fits_refsFrom (k n : ℕ) : Fits (refsFrom k n) := by
  induction n generalizing k with
  | zero => trivial
  | succ n ih =>
    have hrest := ih (k + 1)
    simp only [refsFrom] at hrest
    simp only [refsFrom, range'_succ, map_cons]
    refine ⟨?_, hrest⟩
    rcases n with _ | n
    · exact .inl rfl
    · exact .inr (four_le_total (by simp))

lemma lastSize_append_singleton (xs : List Ent) (e : Ent) : lastSize (xs ++ [e]) = e.body.size := by
  simp [lastSize]

lemma lastSize_refsFrom (xs : List Ent) (k n : ℕ) (hn : n ≠ 0) : lastSize
    (xs ++ refsFrom k n) = ENV := by
  obtain ⟨n, rfl⟩ := Nat.exists_eq_succ_of_ne_zero hn
  rw [refsFrom, range'_concat, map_append, ← append_assoc]
  exact lastSize_append_singleton _ _

/-- The last entry ends at `asep`. -/
theorem last_eq {w : World} (h : w.ctx.Keeps es) : w.last = lastSize es := by
  rw [World.last, h.appended, h.asep]
  rcases eq_nil_or_concat es with rfl | ⟨init, e, rfl⟩
  · rfl
  · rw [concat_eq_append, offsets_append, lastSize_append_singleton]
    simp [offsets]

end Sizes

/-! ### Kinds of variables -/

section Kinds

variable {environ : List Str} {xs ys : List Ent} {n : List UInt8}

lemma kind_append (t : Mark) : kind environ t
    (xs ++ ys) = kind environ t xs ++ kind environ t ys := by
  simp [kind]

lemma kind_refsFrom_svar (k m : ℕ) : kind environ .svar (refsFrom k m) = [] := by
  simp [kind, refsFrom, List.filter_map, Function.comp_def]

lemma kind_refsFrom_envp : kind environ .envp
    (refsFrom 0 environ.length) = environ.map Str.chars := by
  simp only [kind, refsFrom]
  rw [List.filter_eq_self.mpr (by simp), List.map_map]
  apply List.ext_getElem
  · simp
  · intro i h1 h2
    have hi : i < environ.length := by simpa using h1
    simp [Ent.text, hi]

/-- `clear_definition` is about the environment only. -/
theorem kind_clear_svar (es : List Ent) :
    kind environ .svar (es.map (clearEnt environ n)) = kind environ .svar es := by
  induction es with
  | nil => rfl
  | cons e es ih =>
    simp only [kind, map_cons, filter_cons] at ih ⊢
    by_cases hc : e.mark = .envp ∧ named (e.text environ) n = true
    · simp only [clearEnt, if_pos hc]
      simpa [Ent.dropped, hc.1] using ih
    · simp only [clearEnt, if_neg hc]
      by_cases hm : e.mark = .svar
      · simpa [hm] using ih
      · simpa [hm] using ih

lemma kind_clear_envp (es : List Ent) :
    kind environ .envp (es.map (clearEnt environ n)) =
      (kind environ .envp es).filter fun var => !named var n := by
  induction es with
  | nil => rfl
  | cons e es ih =>
    simp only [kind, map_cons, filter_cons] at ih ⊢
    by_cases hm : e.mark = .envp
    · by_cases hn : named (e.text environ) n = true
      · simp only [clearEnt, if_pos (And.intro hm hn)]
        simpa [Ent.dropped, hm, hn] using ih
      · simp only [clearEnt, if_neg (fun h : e.mark = .envp ∧ _ => hn h.2)]
        simpa [hm, hn] using ih
    · simp only [clearEnt, if_neg (fun h : e.mark = .envp ∧ _ => hm h.1)]
      simpa [hm] using ih

lemma kind_drop_svar (es : List Ent) : kind environ .svar
    (es.map dropEnt) = kind environ .svar es := by
  induction es with
  | nil => rfl
  | cons e es ih =>
    simp only [kind, map_cons, filter_cons] at ih ⊢
    by_cases hm : e.mark = .envp
    · simp only [dropEnt, if_pos hm]
      simpa [Ent.dropped, hm] using ih
    · simp only [dropEnt, if_neg hm]
      by_cases hm' : e.mark = .svar
      · simpa [hm'] using ih
      · simpa [hm'] using ih

lemma kind_drop_envp (es : List Ent) : kind environ .envp (es.map dropEnt) = [] := by
  induction es with
  | nil => rfl
  | cons e es ih =>
    simp only [kind, map_cons, filter_cons] at ih ⊢
    by_cases hm : e.mark = .envp
    · simp only [dropEnt, if_pos hm]
      simpa [Ent.dropped] using ih
    · simp only [dropEnt, if_neg hm]
      simpa [hm] using ih

end Kinds

/-! ### Names -/

lemma takeWhile_pair {n v : List UInt8} (hn : 61 ∉ n) :
    (pair n v).takeWhile (fun b => decide (b ≠ 61)) = n := by
  rw [pair, takeWhile_append_of_pos fun x hx => decide_eq_true (ne_of_mem_of_not_mem hx hn)]
  simp

/-- A variable is written as its name and its value. -/
theorem eq_pair_of_mem {s : List UInt8} (hs : 61 ∈ s) :
    ∃ v, s = pair (s.takeWhile fun b => decide (b ≠ 61)) v := by
  induction s with
  | nil => cases hs
  | cons b s ih =>
    by_cases hb : b = 61
    · subst hb
      exact ⟨s, by simp [pair]⟩
    · obtain ⟨v, hv⟩ := ih ((mem_cons.mp hs).resolve_left (Ne.symm hb))
      refine ⟨v, ?_⟩
      rw [takeWhile_cons_of_pos (by simpa using hb)]
      rw [pair] at hv ⊢
      rw [cons_append, ← hv]

lemma names_append (l l' : List (List UInt8)) : names (l ++ l') = names l ++ names l' := by
  simp [names]

lemma names_pair {n v : List UInt8} (hn : 61 ∉ n) : names [pair n v] = [n] := by
  have hmem : 61 ∈ pair n v := by simp [pair]
  simp only [names, filter_cons, hmem, decide_true, if_true, filter_nil, map_cons,
    map_nil, takeWhile_pair hn]

lemma names_filter_nodup {l : List (List UInt8)} (p : List UInt8 → Bool) (h : (names l).Nodup) :
    (names (l.filter p)).Nodup := by
  refine h.sublist (List.Sublist.map _ ?_)
  exact List.Sublist.filter _ filter_sublist

/-- A variable is set in place of the old one. -/
theorem names_setenv {l : List (List UInt8)} {n v : List UInt8} (hn : 61 ∉ n)
    (h : (names l).Nodup) : (names ((l.filter fun var => !named var n) ++ [pair n v])).Nodup := by
  rw [names_append, names_pair hn, nodup_append]
  refine ⟨names_filter_nodup _ h, nodup_singleton n, ?_⟩
  intro a ha b hb hab
  obtain rfl := mem_singleton.mp hb
  subst hab
  obtain ⟨s, hs, hname⟩ := mem_map.mp ha
  obtain ⟨hs, heq⟩ := mem_filter.mp hs
  obtain ⟨u, hu⟩ := eq_pair_of_mem (of_decide_eq_true heq)
  have hnot := (mem_filter.mp hs).2
  rw [hname] at hu
  have hnamed : named s a = true := named_iff.mpr ⟨u, hu⟩
  simp [hnamed] at hnot

/-! ### Runs -/

/-- The entries stand for the two maps. -/
structure World.Rep (w : World) (es : List Ent) : Prop where
  keeps : w.ctx.Keeps es
  fits : Fits es
  idle : w.ctx.hptr = w.ctx.asep
  vars : kind w.ctx.environ .svar es = w.vars.map fun v => pair v.1 v.2
  named : ∀ v ∈ w.vars, 61 ∉ v.1
  nodup : (w.vars.map Prod.fst).Nodup
  env : (w.ctx.customenvp < 0 ∧ kind w.ctx.environ .envp es = [] ∧
      w.env = w.ctx.environ.map Str.chars) ∨
    (0 ≤ w.ctx.customenvp ∧ kind w.ctx.environ .envp es = w.env)
  single : (names (w.ctx.environ.map Str.chars)).Nodup → (names w.env).Nodup

variable {w w' : World} {es : List Ent}

/-- A search for the value of a name. -/
theorem findSome_vars {vars : List (List UInt8 × List UInt8)} {name : List UInt8}
    (hvars : ∀ v ∈ vars, 61 ∉ v.1) (hname : 61 ∉ name) :
    ((vars.map fun v => pair v.1 v.2).findSome? fun var =>
      if var.take name.length = name ∧ (var.drop name.length).head? = some 61 then
        some (var.drop (name.length + 1))
      else none) = (vars.find? fun v => v.1 = name).map Prod.snd := by
  induction vars with
  | nil => rfl
  | cons v vars ih =>
    have hrest := ih fun v hv => hvars v (mem_cons_of_mem _ hv)
    rw [map_cons, findSome?_cons]
    by_cases hv : v.1 = name
    · subst hv
      rw [find?_cons_of_pos (by simp)]
      simp [pair]
    · rw [find?_cons_of_neg (by simpa using hv), ← hrest, if_neg]
      rintro ⟨htake, hhead⟩
      refine hv ((named_pair (v := v.2) (hvars v mem_cons_self) hname).mp (named_iff.mpr ?_))
      obtain ⟨u, hu⟩ := head?_eq_some_iff.mp hhead
      refine ⟨u, ?_⟩
      calc pair v.1 v.2 = (pair v.1 v.2).take name.length ++ (pair v.1 v.2).drop name.length :=
            (take_append_drop _ _).symm
        _ = pair name u := by rw [htake, hu, pair]

/-- **The heap behaves** if its entries stand for the maps. -/
theorem World.Rep.behaves (h : w.Rep es) : w.Behaves := by
  have hmet := envs_eq h.keeps h.fits
  refine ⟨hmet.trans h.keeps.appended.symm, ?_, fun name hname => ?_, h.nodup, ?_, h.single⟩
  · rw [h.keeps.appended]
    exact (offsets_pairwise 0 es).1.imp fun hlt => ne_of_lt hlt
  · refine (findSome_envValue (t := .svar) h.keeps h.fits (by decide) _).trans ?_
    rw [h.vars]
    exact findSome_vars h.named hname
  · rw [prepenvp]
    rcases h.env with ⟨hc, -, henv⟩ | ⟨hc, henv⟩
    · rw [if_pos hc, henv]
    · rw [if_neg (by omega), ← henv]
      exact filterMap_envValue (t := .envp) h.keeps h.fits (by decide)

lemma boot_rep (hw : Boot w) : w.Rep [] := by
  obtain ⟨environ, brk, mem, rfl⟩ := hw
  refine ⟨⟨trivial, ?_, rfl, rfl, le_rfl⟩, trivial, rfl, rfl, ?_, nodup_nil,
    .inl ⟨by simp, rfl, rfl⟩, id⟩
  · exact fun e he => nomatch he
  · exact fun v hv => nomatch hv

variable {ctx : Sh}

/-- One more variable of the script. -/
theorem World.Rep.define (h : w.Rep es) {e : Ent} {n v : List UInt8} (hm : e.mark = .svar)
    (hkeeps : ctx.Keeps (es ++ [e])) (hidle : ctx.hptr = ctx.asep) (hsame : w.ctx.SameShell ctx)
    (htext : e.text w.ctx.environ = pair n v) (hn : 61 ∉ n)
    (hnew : ∀ var ∈ kind w.ctx.environ .svar es, Msh.named var n = false)
    (hlast : w.last ≤ e.body.size) :
    World.Rep { w with ctx := ctx, vars := w.vars ++ [(n, v)] } (es ++ [e]) := by
  obtain ⟨henv, hcustom⟩ := hsame
  have hsvar : kind w.ctx.environ .svar [e] = [pair n v] := by simp [kind, hm, htext]
  have henvp : kind w.ctx.environ .envp [e] = [] := by simp [kind, hm]
  refine ⟨hkeeps, h.fits.append ⟨.inl rfl, trivial⟩ (.inr ?_), hidle, ?_, ?_, ?_, ?_, ?_⟩
  · rw [← last_eq h.keeps]
    simpa using hlast
  · show kind ctx.environ .svar _ = _
    rw [henv, kind_append, h.vars, hsvar]
    simp
  · intro p hp
    rcases mem_append.mp hp with hp | hp
    · exact h.named p hp
    · obtain rfl := mem_singleton.mp hp
      exact hn
  · rw [map_append, nodup_append]
    refine ⟨h.nodup, nodup_singleton n, ?_⟩
    intro a ha b hb hab
    obtain rfl := mem_singleton.mp hb
    subst hab
    obtain ⟨p, hp, rfl⟩ := mem_map.mp ha
    have hin : pair p.1 p.2 ∈ kind w.ctx.environ .svar es := by
      rw [h.vars]
      exact mem_map.mpr ⟨p, hp, rfl⟩
    have hno := hnew _ hin
    rw [(named_pair hn hn).mpr rfl] at hno
    cases hno
  · show (ctx.customenvp < 0 ∧ kind ctx.environ .envp _ = [] ∧ _) ∨ (0 ≤ ctx.customenvp ∧ _)
    rw [henv, hcustom, kind_append, henvp, append_nil]
    exact h.env
  · show (names (ctx.environ.map Str.chars)).Nodup → _
    rw [henv]
    exact h.single

/-- The value that `getenv` finds. -/
theorem text_of_findIdx {environ : List Str} {n : List UInt8} {i : ℕ}
    (hi : environ.findIdx? (fun var => named var.chars n) = some i) :
    Ent.text environ ⟨.svar, .ref i⟩ = pair n (originally environ n) := by
  obtain ⟨hlt, hnamed, hbefore⟩ := findIdx?_eq_some_iff_getElem.mp hi
  have hfind : (environ.map Str.chars).find? (fun var => named var n) = some environ[i].chars := by
    rw [find?_eq_some_iff_getElem]
    refine ⟨hnamed, i, by simpa using hlt, by simp, fun j hj => ?_⟩
    simpa using hbefore j hj
  obtain ⟨v, hv⟩ := named_iff.mp hnamed
  rw [originally, hfind, getD_some, hv]
  simp [Ent.text, hlt, hv, pair]

/-- The environment is one of its own from now on. -/
theorem World.Rep.started (h : w.Rep es) :
    0 ≤ w.ctx.custom ∧ kind w.ctx.environ .svar (w.ctx.started es) = kind w.ctx.environ .svar es ∧
      kind w.ctx.environ .envp (w.ctx.started es) = w.env := by
  rw [Sh.custom, Sh.started]
  rcases h.env with ⟨hc, hno, henv⟩ | ⟨hc, henv⟩
  · rw [if_pos hc, if_pos hc, kind_append, kind_append, kind_refsFrom_svar, kind_refsFrom_envp, hno,
      henv]
    exact ⟨Int.natCast_nonneg _, append_nil _, rfl⟩
  · rw [if_neg (by omega), if_neg (by omega)]
    exact ⟨hc, rfl, henv⟩

lemma started_of_extra (h : ctx.extra = 0) : ctx.started es = es := by
  rw [extra] at h
  rw [started]
  split_ifs at h ⊢ with hc
  · have hlen : ctx.environ.length = 0 := by simpa [ENV] using h
    rw [hlen]
    exact append_nil es
  · rfl

lemma started_of_extra_ne (es : List Ent) (h : ctx.extra ≠ 0) :
    ctx.customenvp < 0 ∧ ctx.environ.length ≠ 0 ∧ ctx.extra = ctx.environ.length * ENV ∧
      ctx.started es = es ++ refsFrom 0 ctx.environ.length := by
  rw [extra] at h ⊢
  rw [started]
  split_ifs at h ⊢ with hc
  · exact ⟨hc, fun h0 => h (by rw [h0, zero_mul]), rfl, rfl⟩
  · exact absurd rfl h

lemma fits_started (h : Fits es) (hle : ctx.extra ≠ 0 → lastSize es ≤ ctx.extra) :
    Fits (ctx.started es) := by
  by_cases h0 : ctx.extra = 0
  · rw [started_of_extra h0]
    exact h
  · obtain ⟨-, -, hextra, hst⟩ := started_of_extra_ne es h0
    rw [hst]
    exact h.append (fits_refsFrom _ _) (.inr (by rw [total_refsFrom, ← hextra]; exact hle h0))

lemma fits_started_append {e : Ent} (h : Fits es)
    (hle : lastSize es ≤ ctx.extra + e.body.size) : Fits (ctx.started es ++ [e]) := by
  have hone : Fits [e] := ⟨.inl rfl, trivial⟩
  by_cases h0 : ctx.extra = 0
  · rw [started_of_extra h0]
    exact h.append hone (.inr (by simpa [h0] using hle))
  · obtain ⟨-, hlen, hextra, hst⟩ := started_of_extra_ne es h0
    have hrefs := lastSize_refsFrom [] 0 _ hlen
    rw [nil_append] at hrefs
    rw [hst, append_assoc]
    refine h.append ((fits_refsFrom _ _).append hone (.inr ?_)) (.inr ?_)
    · rw [hrefs]
      simpa using four_le_size e.body
    · rw [total_append, total_refsFrom, ← hextra]
      simpa using hle

/-- The environment has been changed. -/
theorem World.Rep.change (h : w.Rep es) {es' : List Ent} {env : List (List UInt8)}
    (hkeeps : ctx.Keeps es') (hfits : Fits es') (hidle : ctx.hptr = ctx.asep)
    (henv : ctx.environ = w.ctx.environ) (hcustom : 0 ≤ ctx.customenvp)
    (hsvar : kind w.ctx.environ .svar es' = kind w.ctx.environ .svar es)
    (henvp : kind w.ctx.environ .envp es' = env)
    (hsingle : (names w.env).Nodup → (names env).Nodup) :
    World.Rep { w with ctx := ctx, env := env } es' := by
  refine ⟨hkeeps, hfits, hidle, ?_, h.named, h.nodup, .inr ⟨hcustom, ?_⟩, ?_⟩
  · show kind ctx.environ .svar es' = _
    rw [henv, hsvar]
    exact h.vars
  · show kind ctx.environ .envp es' = env
    rw [henv, henvp]
  · show (names (ctx.environ.map Str.chars)).Nodup → _
    rw [henv]
    exact fun hd => hsingle (h.single hd)

/-- The old definition is found in the environment, if there is one. -/
theorem World.Rep.clears (h : w.Rep es) {n : List UInt8}
    (hs : w.last ≤ w.ctx.extra ∨
      (w.ctx.extra ≠ 0 → ∀ s ∈ w.ctx.environ, Msh.named s.chars n = false)) :
    Clears w.ctx.environ n (w.ctx.started es) := by
  rw [last_eq h.keeps] at hs
  rcases hs with hle | hno
  · exact .inl (fits_started h.fits fun _ => hle)
  by_cases h0 : w.ctx.extra = 0
  · exact .inl (fits_started h.fits fun hne => absurd h0 hne)
  · refine .inr fun e he hm => ?_
    have hmem : e.text w.ctx.environ ∈ kind w.ctx.environ .envp (w.ctx.started es) :=
      mem_map.mpr ⟨e, mem_filter.mpr ⟨he, by simpa using hm⟩, rfl⟩
    obtain ⟨hc, -⟩ := started_of_extra_ne es h0
    rw [h.started.2.2] at hmem
    rcases h.env with ⟨-, -, henv⟩ | ⟨hc', -⟩
    · rw [henv] at hmem
      obtain ⟨s, hs, hse⟩ := mem_map.mp hmem
      rw [← hse]
      exact hno h0 s hs
    · omega

/-- **A command that suits keeps the entries in line with the maps.** -/
theorem step_rep {c : Cmd} (h : w.Rep es) (hsuits : w.Suits c) (hstep : step w c = some w') :
    ∃ es', w'.Rep es' := by
  rw [step] at hstep
  split at hstep
  swap
  · cases hstep
  rename_i ctx hexec
  cases hstep
  cases c with
  | set n v =>
    obtain ⟨c, d, hready, henv, hcustom, hfunc, rfl⟩ := execute_spec (v := .set) h.keeps h.idle
      (by simp [n.nonul, v.nonul]) hexec
    obtain ⟨hn, hnew, hkeeps, hsame⟩ := cmdSet_spec hready h.fits hfunc
    rw [henv] at hnew
    exact ⟨_, h.define rfl hkeeps.done rfl ⟨hsame.1.trans henv, hsame.2.trans hcustom⟩ rfl hn hnew
      hsuits⟩
  | getenv n =>
    obtain ⟨c, d, hready, henv, hcustom, hfunc, rfl⟩ := execute_spec (v := .getenv) h.keeps h.idle
      (by simp [n.nonul]) hexec
    obtain ⟨hn, hnew, ⟨i, hi, hkeeps⟩, hsame⟩ := cmdGetenv_spec hready h.fits hfunc
    rw [henv] at hnew hi
    have hval : originally d.environ n.chars = originally w.ctx.environ n.chars := by
      rw [hsame.1, henv]
    refine ⟨es ++ [⟨.svar, .ref i⟩], ?_⟩
    show World.Rep { w with ctx := _, vars := w.vars ++ [(n.chars, originally d.environ n.chars)] }
      _
    rw [hval]
    exact h.define rfl hkeeps.done rfl ⟨hsame.1.trans henv, hsame.2.trans hcustom⟩
      (text_of_findIdx hi) hn hnew hsuits
  | setenv n v =>
    obtain ⟨c, d, hready, henv, hcustom, hfunc, rfl⟩ := execute_spec (v := .setenv) h.keeps h.idle
      (by simp [n.nonul, v.nonul]) hexec
    have hst : c.started es = w.ctx.started es := by rw [started, started, henv, hcustom]
    have hcu : c.custom = w.ctx.custom := by rw [custom, custom, henv, hcustom]
    obtain ⟨hn, hkeeps, henv', hcustom'⟩ := cmdSetenv_spec hready
      (by rw [henv, hst]; exact h.clears (hsuits.imp_right And.left)) hfunc
    obtain ⟨hpos, hsvar, henvp⟩ := h.started
    rw [henv, hst] at hkeeps
    refine ⟨_, h.change hkeeps.done ?_ rfl (henv'.trans henv) ?_ ?_ ?_ (names_setenv hn)⟩
    · rw [fits_map (clearEnt_body _ _)]
      refine fits_started_append h.fits ?_
      rw [← last_eq h.keeps]
      rcases hsuits with hle | ⟨-, hle⟩
      · exact hle.trans (Nat.le_add_right _ _)
      · exact hle
    · show 0 ≤ d.customenvp
      rw [hcustom', hcu]
      exact hpos
    · rw [kind_append, kind_clear_svar, hsvar]
      exact append_nil _
    · rw [kind_append, kind_clear_envp, henvp]
      rfl
  | delenv n =>
    obtain ⟨c, d, hready, henv, hcustom, hfunc, rfl⟩ := execute_spec (v := .delenv) h.keeps h.idle
      (by simp [n.nonul]) hexec
    have hst : c.started es = w.ctx.started es := by rw [started, started, henv, hcustom]
    have hcu : c.custom = w.ctx.custom := by rw [custom, custom, henv, hcustom]
    have hfits : Fits (w.ctx.started es) := by
      refine fits_started h.fits fun h0 => ?_
      rw [← last_eq h.keeps]
      exact hsuits h0
    obtain ⟨hn, hkeeps, henv', hcustom'⟩ := cmdDelenv_spec hready
      (by rw [henv, hst]; exact .inl hfits) hfunc
    obtain ⟨hpos, hsvar, henvp⟩ := h.started
    rw [henv, hst] at hkeeps
    refine ⟨_, h.change hkeeps.done ?_ rfl (henv'.trans henv) ?_ ?_ ?_ (names_filter_nodup _)⟩
    · rw [← append_nil (map _ _), fits_map (clearEnt_body _ _), append_nil]
      exact hfits
    · show 0 ≤ d.customenvp
      rw [hcustom', hcu]
      exact hpos
    · rw [kind_clear_svar, hsvar]
    · rw [kind_clear_envp, henvp]
  | clearenv =>
    obtain ⟨c, d, hready, henv, hcustom, hfunc, rfl⟩ := execute_spec (v := .clearenv) h.keeps h.idle
      (by simp) hexec
    obtain ⟨henv', hcases⟩ := cmdClearenv_spec hready h.fits hfunc
    rcases hcases with ⟨hneg, hkeeps, hzero⟩ | ⟨hnonneg, hkeeps, hsame⟩
    · refine ⟨es, h.change hkeeps.done h.fits rfl (henv'.trans henv) ?_ rfl ?_ fun _ => nodup_nil⟩
      · show 0 ≤ d.customenvp
        omega
      · rcases h.env with ⟨-, hno, -⟩ | ⟨hpos, -⟩
        · exact hno
        · omega
    · refine ⟨es.map dropEnt, h.change hkeeps.done ?_ rfl (henv'.trans henv) ?_ (kind_drop_svar es)
        (kind_drop_envp es) fun _ => nodup_nil⟩
      · rw [← append_nil (map _ _), fits_map dropEnt_body, append_nil]
        exact h.fits
      · show 0 ≤ d.customenvp
        rw [hsame]
        exact hnonneg

/-- The entries are in line with the maps. -/
def World.InLine (w : World) : Prop := ∃ es, w.Rep es

/-- **Variables behave as two maps**, in every run of commands that suit. -/
theorem variables_behave (h : Reach Boot step World.Suits w) : w.Behaves := by
  have hinv : w.InLine :=
    h.invariant (fun _ hw => ⟨[], boot_rep hw⟩) fun _ _ _ ⟨_, hr⟩ hs hstep => step_rep hr hs hstep
  obtain ⟨es, hr⟩ := hinv
  exact hr.behaves

/-! ### Two runs -/

/-- A shell with two variables in its environment. -/
def sampleBoot : World :=
  ⟨{ environ := [⟨[72, 61, 47], by decide⟩, ⟨[80, 61, 120], by decide⟩], customenvp := -1,
     argp := 0, argv := [], asep := 0, hptr := 0, brk := 4096, mem := fun _ => 0, appended := [] },
   [], [[72, 61, 47], [80, 61, 120]]⟩

lemma sampleBoot_boot : Boot sampleBoot := ⟨_, 4096, fun _ => 0, rfl⟩

/-- A variable of the script, and one of the environment that is given another value. -/
theorem variables_behave_sample :
    ∃ w : World, w.vars = [([97], [98])] ∧ w.env = [[80, 61, 120], [72, 61, 121]] ∧ w.Behaves := by
  have hrun : ([.set ⟨[97], by decide⟩ ⟨[98], by decide⟩,
      .setenv ⟨[72], by decide⟩ ⟨[121], by decide⟩].foldlM
      (fun w c => if World.Suits w c then step w c else none) sampleBoot).any
      (fun w => w.vars = [([97], [98])] ∧ w.env = [[80, 61, 120], [72, 61, 121]]) = true := by
    decide +kernel
  obtain ⟨w, hw, hrest⟩ := (any_eq_true _ _).mp hrun
  obtain ⟨hvars, henv⟩ := of_decide_eq_true hrest
  exact ⟨w, hvars, henv, variables_behave ((Reach.start sampleBoot_boot).foldlM hw)⟩

/-- **A variable that is not seen**: the reference that `getenv` appends is shorter than the
entry before it. -/
theorem variable_hidden : ¬∀ w, Reach Boot step (fun _ _ => True) w → w.Behaves := by
  intro h
  have hrun : ([.set ⟨[97], by decide⟩ ⟨[98], by decide⟩, .getenv ⟨[72], by decide⟩].foldlM
      (fun w c => if True then step w c else none) sampleBoot).any
      (fun w => w.ctx.envs = [0] ∧ w.ctx.appended = [0, 8]) = true := by
    decide +kernel
  obtain ⟨w, hw, hrest⟩ := (any_eq_true _ _).mp hrun
  obtain ⟨hmet, happ⟩ := of_decide_eq_true hrest
  have hb := h w ((Reach.start sampleBoot_boot).foldlM hw)
  have := hb.met
  rw [hmet, happ] at this
  cases this

end Minibase.Msh
