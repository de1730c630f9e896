import Minibase.Msh.Changes

/-!
# What the commands about variables do

The commands of `msh_cmd_envp.c` as changes of the list of entries, each in one lemma. A command
finds its arguments right after the entries (`Msh.Sh.Ready`). The entries it appends are written
over them and never reach as far as the copies.
-/

namespace Minibase.Msh

open List Sh

/-! ### A command that is about to run -/

/-- The arguments are in place. -/
structure Sh.Ready (ctx : Sh) (es : List Ent) (args : List (List UInt8)) : Prop where
  keeps : ctx.Keeps es
  argv : ctx.argv = indexArgs ctx.asep args
  argp : ctx.argp = 1
  holds : ctx.mem.Holds ctx.asep (argBytes args)
  hptr : ctx.hptr = ctx.asep + (argBytes args).length + (args.length + 1) * 8
  nonul : ∀ s ∈ args, 0 ∉ s

section Ready

variable {ctx ctx' : Sh} {es : List Ent} {args : List (List UInt8)} {lead s n v : List UInt8}

lemma refuse_eq_ok {p : Prop} [Decidable p] {msg : String} {u : Unit}
    (h : refuse p msg = .ok u) : ¬p := by
  intro hp
  rw [refuse, if_pos hp] at h
  cases h

/-- The one argument of a command. -/
theorem Sh.Ready.one (h : ctx.Ready es [lead, s]) :
    ∃ p, ctx.shift = .ok (p, { ctx with argp := 2 }) ∧ ctx.str p = s ∧
      ctx.mem.Holds p (s ++ [0]) ∧ p = ctx.asep + lead.length + 1 := by
  have hh := h.holds
  have hptr := h.hptr
  simp only [argBytes, flatMap_cons, flatMap_nil, append_nil, append_assoc] at hh hptr
  rw [← append_assoc, Mem.holds_append] at hh
  refine ⟨ctx.asep + lead.length + 1, ?_, ?_, ?_, rfl⟩
  · rw [shift, h.argv, h.argp]
    rfl
  · refine str_of_holds (by simpa [add_assoc] using hh.2) (h.nonul s (by simp)) ?_
    simp at hptr
    omega
  · simpa [add_assoc] using hh.2

/-- The two arguments of a command. -/
theorem Sh.Ready.two (h : ctx.Ready es [lead, n, v]) :
    ∃ p q, ctx.shift = .ok (p, { ctx with argp := 2 }) ∧
      shift { ctx with argp := 2 } = .ok (q, { ctx with argp := 3 }) ∧
      ctx.str p = n ∧ ctx.str q = v ∧ ctx.mem.Holds p (n ++ [0]) ∧ ctx.mem.Holds q (v ++ [0]) ∧
      p = ctx.asep + lead.length + 1 ∧ q = p + n.length + 1 := by
  have hh := h.holds
  have hptr := h.hptr
  simp only [argBytes, flatMap_cons, flatMap_nil, append_nil] at hh hptr
  obtain ⟨hp, hq⟩ := Mem.holds_append.mp (Mem.holds_append.mp hh).2
  replace hp : ctx.mem.Holds (ctx.asep + lead.length + 1) (n ++ [0]) := by
    simpa [add_assoc] using hp
  replace hq : ctx.mem.Holds (ctx.asep + lead.length + 1 + n.length + 1) (v ++ [0]) := by
    simpa [add_assoc] using hq
  simp at hptr
  refine ⟨_, _, ?_, ?_, ?_, ?_, hp, hq, rfl, rfl⟩
  · rw [shift, h.argv, h.argp]
    rfl
  · rw [shift, h.argv]
    rfl
  · exact str_of_holds hp (h.nonul n (by simp)) (by omega)
  · exact str_of_holds hq (h.nonul v (by simp)) (by omega)

/-- A string has been copied to the end of the heap. -/
structure Sh.Copied (ctx : Sh) (s : List UInt8) (new : ℕ) (c : Sh) : Prop where
  at_end : new = ctx.hptr
  holds : c.mem.Holds new (s ++ [0])
  same : c = { ctx with mem := c.mem, hptr := ctx.hptr + roundUp4 (s.length + 1) }
  mem : ∀ i, i < ctx.hptr → c.mem i = ctx.mem i

/-- Memory is taken for a string and it is written there. -/
theorem copied_of_alloc {r : ℕ × Sh} (hok : (do
      let (new, ctx) ← ctx.heapAlloc (roundUp4 (s.length + 1))
      return (new, ctx.write new (s ++ [0]))) = Except.ok r) : ctx.Copied s r.1 r.2 := by
  obtain ⟨⟨new, c⟩, halloc, hr⟩ := ok_of_bind hok
  unfold heapAlloc at halloc
  split_ifs at halloc
  cases halloc
  cases hr
  exact ⟨rfl, Mem.holds_store _ _ _, rfl, fun i hi => Mem.store_of_not_mem (.inl hi)⟩

variable {c : Sh}

lemma reallocHigher_spec {p new : ℕ} (hs : ctx.str p = s)
    (hok : ctx.reallocHigher p = .ok (new, c)) : ctx.Copied s new c := by
  subst hs
  exact copied_of_alloc hok

lemma length_pair (n v : List UInt8) : (pair n v).length = n.length + v.length + 1 := by
  simp [pair, add_assoc]

lemma pair_nonul (hn : 0 ∉ n) (hv : 0 ∉ v) : 0 ∉ pair n v := by
  simp [pair, hn, hv]

lemma reallocPair_spec {p q new : ℕ} (hn : ctx.str p = n) (hv : ctx.str q = v)
    (hok : ctx.reallocPair p q = .ok (new, c)) : ctx.Copied (pair n v) new c := by
  unfold reallocPair at hok
  simp only [hn, hv] at hok
  have hlen : n.length + v.length + 2 = (pair n v).length + 1 := by rw [length_pair]
  rw [hlen] at hok
  exact copied_of_alloc hok

/-- The entries are not touched by what is done to the arguments. -/
theorem Sh.Keeps.of_args (h : ctx.Keeps es) (henv : c.environ = ctx.environ)
    (hasep : c.asep = ctx.asep) (happ : c.appended = ctx.appended) (hle : ctx.hptr ≤ c.hptr)
    (hm : ∀ i, i < ctx.asep → c.mem i = ctx.mem i) : c.Keeps es := by
  refine ⟨h.layout.congr fun i _ hi => hm i ?_, ?_, hasep.trans h.asep, happ.trans h.appended, ?_⟩
  · rw [h.asep]
    omega
  · rw [henv]
    exact h.ok
  · rw [hasep]
    exact h.le.trans hle

lemma Sh.Keeps.copied {new : ℕ} (h : ctx.Keeps es) (hc : ctx.Copied s new c) : c.Keeps es := by
  have hsame := hc.same
  refine h.of_args (by rw [hsame]) (by rw [hsame]) (by rw [hsame]) (by rw [hsame]; simp) fun i hi =>
    ?_
  exact hc.mem i (lt_of_lt_of_le hi h.le)

/-- **`set`.** -/
theorem cmdSet_spec (h : ctx.Ready es [lead, n, v]) (hfits : Fits es)
    (hok : ctx.cmdSet = .ok ctx') :
    61 ∉ n ∧ (∀ var ∈ kind ctx.environ .svar es, named var n = false) ∧
      ctx'.Keeps (es ++ [⟨.svar, .text (pair n v)⟩]) ∧ ctx.SameShell ctx' := by
  obtain ⟨p, q, hshift, hshift', hp, hq, -, -, -, -⟩ := h.two
  have hptr := h.hptr
  simp [argBytes] at hptr
  rw [cmdSet, hshift] at hok
  obtain ⟨r1, hr1, hok⟩ := ok_of_bind hok
  obtain rfl := (Except.ok.inj hr1).symm
  obtain ⟨r2, hr2, hok⟩ := ok_of_bind hok
  cases hshift'.symm.trans hr2
  obtain ⟨_, hmore, hok⟩ := ok_of_bind hok
  obtain ⟨_, hvalid, hok⟩ := ok_of_bind hok
  obtain ⟨_, hdef, hok⟩ := ok_of_bind hok
  obtain ⟨⟨pr, c⟩, hpair, hok⟩ := ok_of_bind hok
  have hvalid' : 61 ∉ n := hp ▸ refuse_eq_ok hvalid
  have hkeeps : Sh.Keeps { ctx with argp := 3 } es :=
    h.keeps.of_args rfl rfl rfl le_rfl fun _ _ => rfl
  have hdef' := refuse_eq_ok hdef
  rw [show EV_SVAR = Mark.svar.bits from rfl, any_holdsVar hkeeps hfits (by decide)] at hdef'
  have hc : Sh.Copied { ctx with argp := 3 } (pair n v) pr c := reallocPair_spec hp hq hpair
  have hsame := hc.same
  have hasep : c.asep = ctx.asep := by rw [hsame]
  have hcptr : c.hptr = ctx.hptr + roundUp4 ((pair n v).length + 1) := by rw [hsame]
  have hnew : pr = ctx.hptr := hc.at_end
  have hround := le_roundUp4 ((pair n v).length + 1)
  have hround' : roundUp4 (ENV + (pair n v).length + 1) ≤ ENV + (pair n v).length + 4 := by
    simp only [roundUp4]
    omega
  have hlen := length_pair n v
  obtain ⟨hk', hsame'⟩ := appendVariable_spec (t := .svar) (hkeeps.copied hc)
    (pair_nonul (h.nonul n (by simp)) (h.nonul v (by simp))) hc.holds
    (by simp only [Body.size, ENV] at hround' ⊢; omega) (by omega) hok
  have hp' : str { ctx with argp := 3 } p = n := hp
  rw [hp'] at hdef'
  refine ⟨hvalid', ?_, hk', ?_⟩
  · simpa using hdef'
  · exact ⟨hsame'.1.trans (by rw [hsame]), hsame'.2.trans (by rw [hsame])⟩

/-- **`getenv`.** -/
theorem cmdGetenv_spec (h : ctx.Ready es [lead, n]) (hfits : Fits es)
    (hok : ctx.cmdGetenv = .ok ctx') :
    61 ∉ n ∧ (∀ var ∈ kind ctx.environ .svar es, named var n = false) ∧
      (∃ i, ctx.environ.findIdx? (fun var => named var.chars n) = some i ∧
        ctx'.Keeps (es ++ [⟨.svar, .ref i⟩])) ∧ ctx.SameShell ctx' := by
  obtain ⟨p, hshift, hp, -, -⟩ := h.one
  have hptr := h.hptr
  simp [argBytes] at hptr
  rw [cmdGetenv, hshift] at hok
  obtain ⟨r1, hr1, hok⟩ := ok_of_bind hok
  obtain rfl := (Except.ok.inj hr1).symm
  obtain ⟨_, hmore, hok⟩ := ok_of_bind hok
  obtain ⟨_, hvalid, hok⟩ := ok_of_bind hok
  obtain ⟨_, hdef, hok⟩ := ok_of_bind hok
  have hp' : str { ctx with argp := 2 } p = n := hp
  have hkeeps : Sh.Keeps { ctx with argp := 2 } es :=
    h.keeps.of_args rfl rfl rfl le_rfl fun _ _ => rfl
  have hvalid' : 61 ∉ n := hp ▸ refuse_eq_ok hvalid
  have hdef' := refuse_eq_ok hdef
  rw [show EV_SVAR = Mark.svar.bits from rfl, any_holdsVar hkeeps hfits (by decide), hp'] at hdef'
  simp only [hp'] at hok
  split at hok
  · cases hok
  · rename_i i hi
    have hlt : i < ctx.environ.length := (findIdx?_eq_some_iff_getElem.mp hi).1
    obtain ⟨hk, heq, -⟩ := appendReference_spec (t := .svar) hkeeps hlt
      (show ctx.asep + ENV ≤ ctx.hptr by simp only [ENV]; omega) hok
    refine ⟨hvalid', by simpa using hdef', ⟨i, hi, hk⟩, ?_, ?_⟩
    · rw [heq]
    · rw [heq]

/-! ### The environment -/

/-- The entries once the environment is one of its own. -/
def Sh.started (ctx : Sh) (es : List Ent) : List Ent :=
  if ctx.customenvp < 0 then es ++ refsFrom 0 ctx.environ.length else es

/-- The memory that takes. -/
def Sh.extra (ctx : Sh) : ℕ := if ctx.customenvp < 0 then ctx.environ.length * ENV else 0

/-- What `customenvp` is then. -/
def Sh.custom (ctx : Sh) : ℤ := if ctx.customenvp < 0 then ctx.environ.length else ctx.customenvp

lemma total_started (es : List Ent) : total (ctx.started es) = total es + ctx.extra := by
  rw [started, extra]
  split_ifs
  · rw [total_append, total_refsFrom]
  · rfl

lemma reserveOrigEnvp_spec (hok : ctx.reserveOrigEnvp = .ok c) :
    ∃ k, c = { ctx with hptr := ctx.hptr + k } ∧ ctx.extra ≤ k := by
  rw [reserveOrigEnvp] at hok
  split_ifs at hok with hcustom
  · cases hok
    exact ⟨0, rfl, by rw [extra, if_neg (by omega)]⟩
  · obtain ⟨⟨p, c'⟩, halloc, hr⟩ := ok_of_bind hok
    unfold heapAlloc at halloc
    split_ifs at halloc
    obtain ⟨-, rfl⟩ := Prod.mk.inj (Except.ok.inj halloc)
    cases hr
    refine ⟨(ctx.environ.length + 1) * ENV, rfl, ?_⟩
    rw [extra, if_pos (by omega), Nat.succ_mul]
    omega

lemma startCustomEnvp_spec (h : ctx.Keeps es) (hle : ctx.asep + ctx.extra ≤ ctx.hptr)
    (hok : ctx.startCustomEnvp = .ok c) :
    c.Keeps (ctx.started es) ∧
      c = { ctx with mem := c.mem, asep := c.asep, appended := c.appended,
                     customenvp := ctx.custom } ∧
      ∀ i, ctx.asep + ctx.extra ≤ i → c.mem i = ctx.mem i := by
  by_cases hcustom : ctx.customenvp < 0
  · rw [extra, if_pos hcustom] at hle ⊢
    rw [started, if_pos hcustom, custom, if_pos hcustom]
    exact startCustomEnvp_first h hcustom hle hok
  · rw [startCustomEnvp, if_pos (by omega)] at hok
    cases hok
    rw [started, if_neg hcustom, custom, if_neg hcustom]
    exact ⟨h, rfl, fun _ _ => rfl⟩

/-- The loop of `clear_definition` gets far enough. -/
def Clears (environ : List Str) (name : List UInt8) (es : List Ent) : Prop :=
  Fits es ∨ ∀ e ∈ es, e.mark = .envp → named (e.text environ) name = false

lemma clearDefinition_spec {p : ℕ} (h : ctx.Keeps es) (hp : ctx.asep ≤ p) (hn : ctx.str p = n)
    (hclear : Clears ctx.environ n es) :
    (ctx.clearDefinition p).Keeps (es.map (clearEnt ctx.environ n)) ∧
      ctx.Frame (ctx.clearDefinition p) := by
  subst hn
  rcases hclear with hfits | hno
  · exact clearDefinition_keeps h hfits hp
  · rw [clearDefinition_idle h hno]
    have hmap : es.map (clearEnt ctx.environ (ctx.str p)) = es.map id := by
      refine map_congr_left fun e he => ?_
      rw [clearEnt, if_neg]
      · rfl
      · rintro ⟨hm, hn⟩
        rw [hno e he hm] at hn
        cases hn
    rw [hmap, map_id]
    exact ⟨h, .refl ctx⟩

/-- What `setenv` and `delenv` have in common: the name has been copied, the environment is one of
its own, and the old definition is taken out of it. -/
theorem redefine_spec {key : ℕ} (h : ctx.Keeps es) (hs : 0 ∉ n)
    (hclear : Clears ctx.environ n (ctx.started es)) (hkey : ctx.mem.Holds key (n ++ [0]))
    (hlo : ctx.asep + ctx.extra ≤ key) (hhi : key + n.length + 1 ≤ ctx.hptr)
    (hok : ctx.startCustomEnvp = .ok c) :
    (c.clearDefinition key).Keeps ((ctx.started es).map (clearEnt ctx.environ n)) ∧
      (c.clearDefinition key).environ = ctx.environ ∧
      (c.clearDefinition key).customenvp = ctx.custom ∧
      (c.clearDefinition key).hptr = ctx.hptr ∧
      (c.clearDefinition key).asep = ctx.asep + ctx.extra ∧
      ∀ i, ctx.asep + ctx.extra ≤ i → (c.clearDefinition key).mem i = ctx.mem i := by
  obtain ⟨hk, hc, hm⟩ := startCustomEnvp_spec h (by omega) hok
  have hasep : c.asep = ctx.asep + ctx.extra := by rw [hk.asep, total_started, h.asep]
  have henv : c.environ = ctx.environ := by rw [hc]
  have hptr : c.hptr = ctx.hptr := by rw [hc]
  have hstr : c.str key = n :=
    str_of_holds (hkey.congr fun i hi _ => hm i (by omega)) hs (by omega)
  obtain ⟨hk', hframe⟩ := clearDefinition_spec hk (by omega) hstr (by rw [henv]; exact hclear)
  have hsame := hframe.same
  refine ⟨henv ▸ hk', ?_, ?_, ?_, ?_, fun i hi => ?_⟩
  · rw [hsame, henv]
  · rw [hsame, hc]
  · rw [hsame, hptr]
  · rw [hsame, hasep]
  · rw [hframe.args i (by omega), hm i hi]

/-- **`setenv`.** -/
theorem cmdSetenv_spec (h : ctx.Ready es [lead, n, v])
    (hclear : Clears ctx.environ n (ctx.started es)) (hok : ctx.cmdSetenv = .ok ctx') :
    61 ∉ n ∧
      ctx'.Keeps ((ctx.started es).map (clearEnt ctx.environ n) ++ [⟨.envp, .text (pair n v)⟩]) ∧
      ctx'.environ = ctx.environ ∧ ctx'.customenvp = ctx.custom := by
  obtain ⟨p, q, hshift, hshift', hp, -, hph, hqh, hpe, hqe⟩ := h.two
  have hptr := h.hptr
  simp [argBytes] at hptr
  rw [cmdSetenv, hshift] at hok
  obtain ⟨r1, hr1, hok⟩ := ok_of_bind hok
  obtain rfl := (Except.ok.inj hr1).symm
  obtain ⟨r2, hr2, hok⟩ := ok_of_bind hok
  cases hshift'.symm.trans hr2
  obtain ⟨_, hmore, hok⟩ := ok_of_bind hok
  obtain ⟨_, hvalid, hok⟩ := ok_of_bind hok
  obtain ⟨c0, hres, hok⟩ := ok_of_bind hok
  obtain ⟨⟨key, c1⟩, hkey, hok⟩ := ok_of_bind hok
  obtain ⟨⟨pr, c2⟩, hpair, hok⟩ := ok_of_bind hok
  obtain ⟨c3, hstart, hok⟩ := ok_of_bind hok
  have hnn := h.nonul n (by simp)
  have hvn := h.nonul v (by simp)
  obtain ⟨k, hc0, hextra⟩ := reserveOrigEnvp_spec hres
  have hextra' : ctx.extra ≤ k := hextra
  have h0mem : c0.mem = ctx.mem := by rw [hc0]
  have h0asep : c0.asep = ctx.asep := by rw [hc0]
  have h0ptr : c0.hptr = ctx.hptr + k := by rw [hc0]
  have hk0 : c0.Keeps es := by
    refine h.keeps.of_args (by rw [hc0]) h0asep (by rw [hc0]) (by omega) fun i _ => by rw [h0mem]
  -- the copies are made one after the other, and the originals are still there
  have hcopy := reallocHigher_spec
    (str_of_holds (by rw [h0mem]; exact hph) hnn (by omega) : c0.str p = n) hkey
  have hs1 := hcopy.same
  have h1asep : c1.asep = ctx.asep := by rw [hs1, h0asep]
  have h1ptr : c1.hptr = c0.hptr + roundUp4 (n.length + 1) := by rw [hs1]
  have hk1 : c1.Keeps es := hk0.copied hcopy
  have hround1 := le_roundUp4 (n.length + 1)
  have h1mem : ∀ i, i < ctx.hptr → c1.mem i = ctx.mem i := fun i hi => by
    rw [hcopy.mem i (by omega), h0mem]
  have hp1 : c1.str p = n := str_of_holds (hph.congr fun i _ hi => h1mem i (by
    simp at hi
    omega)) hnn (by omega)
  have hq1 : c1.str q = v := str_of_holds (hqh.congr fun i _ hi => h1mem i (by
    simp at hi
    omega)) hvn (by omega)
  have hcopy2 := reallocPair_spec hp1 hq1 hpair
  have hs2 := hcopy2.same
  have h2asep : c2.asep = ctx.asep := by rw [hs2, h1asep]
  have h2ptr : c2.hptr = c1.hptr + roundUp4 ((pair n v).length + 1) := by rw [hs2]
  have h2env : c2.environ = ctx.environ := by rw [hs2, hs1, hc0]
  have h2custom : c2.customenvp = ctx.customenvp := by rw [hs2, hs1, hc0]
  have hk2 : c2.Keeps es := hk1.copied hcopy2
  have hround2 := le_roundUp4 ((pair n v).length + 1)
  have hlen := length_pair n v
  have hround3 : roundUp4 (ENV + (pair n v).length + 1) ≤ ENV + (pair n v).length + 4 := by
    simp only [roundUp4]
    omega
  have hkeyat : key = c0.hptr := hcopy.at_end
  have hprat : pr = c1.hptr := hcopy2.at_end
  have h2extra : c2.extra = ctx.extra := by rw [extra, extra, h2env, h2custom]
  have h2started : c2.started es = ctx.started es := by rw [started, started, h2env, h2custom]
  have h2cust : c2.custom = ctx.custom := by rw [custom, custom, h2env, h2custom]
  have hkh : c2.mem.Holds key (n ++ [0]) := hcopy.holds.congr fun i _ hi => hcopy2.mem i (by
    simp at hi
    omega)
  obtain ⟨hk4, h4env, h4custom, h4ptr, h4asep, h4mem⟩ := redefine_spec hk2 hnn
    (by rw [h2env, h2started]; exact hclear) hkh (by omega) (by omega) hstart
  obtain ⟨hk5, hsame5⟩ := appendVariable_spec (t := .envp) hk4 (pair_nonul hnn hvn)
    (hcopy2.holds.congr fun i hi _ => h4mem i (by omega))
    (by simp only [Body.size, ENV] at hround3 ⊢; omega) (by omega) hok
  refine ⟨hp ▸ refuse_eq_ok hvalid, ?_, ?_, ?_⟩
  · rw [← h2env, ← h2started]
    exact hk5
  · rw [hsame5.1, h4env, h2env]
  · rw [hsame5.2, h4custom, h2cust]

/-- **`delenv`.** -/
theorem cmdDelenv_spec (h : ctx.Ready es [lead, n])
    (hclear : Clears ctx.environ n (ctx.started es)) (hok : ctx.cmdDelenv = .ok ctx') :
    61 ∉ n ∧ ctx'.Keeps ((ctx.started es).map (clearEnt ctx.environ n)) ∧
      ctx'.environ = ctx.environ ∧ ctx'.customenvp = ctx.custom := by
  obtain ⟨p, hshift, hp, hph, hpe⟩ := h.one
  have hptr := h.hptr
  simp [argBytes] at hptr
  rw [cmdDelenv, hshift] at hok
  obtain ⟨r1, hr1, hok⟩ := ok_of_bind hok
  obtain rfl := (Except.ok.inj hr1).symm
  obtain ⟨_, hmore, hok⟩ := ok_of_bind hok
  obtain ⟨_, hvalid, hok⟩ := ok_of_bind hok
  obtain ⟨c0, hres, hok⟩ := ok_of_bind hok
  obtain ⟨⟨key, c1⟩, hkey, hok⟩ := ok_of_bind hok
  obtain ⟨c2, hstart, hok⟩ := ok_of_bind hok
  cases hok
  have hnn := h.nonul n (by simp)
  obtain ⟨k, hc0, hextra⟩ := reserveOrigEnvp_spec hres
  have hextra' : ctx.extra ≤ k := hextra
  have h0mem : c0.mem = ctx.mem := by rw [hc0]
  have h0asep : c0.asep = ctx.asep := by rw [hc0]
  have h0ptr : c0.hptr = ctx.hptr + k := by rw [hc0]
  have hk0 : c0.Keeps es := by
    refine h.keeps.of_args (by rw [hc0]) h0asep (by rw [hc0]) (by omega) fun i _ => by rw [h0mem]
  have hcopy := reallocHigher_spec
    (str_of_holds (by rw [h0mem]; exact hph) hnn (by omega) : c0.str p = n) hkey
  have hs1 := hcopy.same
  have h1asep : c1.asep = ctx.asep := by rw [hs1, h0asep]
  have h1ptr : c1.hptr = c0.hptr + roundUp4 (n.length + 1) := by rw [hs1]
  have h1env : c1.environ = ctx.environ := by rw [hs1, hc0]
  have h1custom : c1.customenvp = ctx.customenvp := by rw [hs1, hc0]
  have hround1 := le_roundUp4 (n.length + 1)
  have hkeyat : key = c0.hptr := hcopy.at_end
  have h1extra : c1.extra = ctx.extra := by rw [extra, extra, h1env, h1custom]
  have h1started : c1.started es = ctx.started es := by rw [started, started, h1env, h1custom]
  have h1cust : c1.custom = ctx.custom := by rw [custom, custom, h1env, h1custom]
  obtain ⟨hk2, h2env, h2custom, -⟩ := redefine_spec (hk0.copied hcopy) hnn
    (by rw [h1env, h1started]; exact hclear) hcopy.holds (by omega) (by omega) hstart
  refine ⟨hp ▸ refuse_eq_ok hvalid, ?_, ?_, ?_⟩
  · rw [← h1env, ← h1started]
    exact hk2
  · rw [h2env, h1env]
  · rw [h2custom, h1cust]

/-- **`clearenv`.** -/
theorem cmdClearenv_spec (h : ctx.Ready es [lead]) (hfits : Fits es)
    (hok : ctx.cmdClearenv = .ok ctx') :
    ctx'.environ = ctx.environ ∧
      ((ctx.customenvp < 0 ∧ ctx'.Keeps es ∧ ctx'.customenvp = 0) ∨
        (0 ≤ ctx.customenvp ∧ ctx'.Keeps (es.map dropEnt) ∧ ctx'.customenvp = ctx.customenvp)) := by
  rw [cmdClearenv] at hok
  obtain ⟨_, hmore, hok⟩ := ok_of_bind hok
  cases hok
  split_ifs with hcustom
  · exact ⟨rfl, .inl ⟨hcustom, h.keeps.of_args rfl rfl rfl le_rfl fun _ _ => rfl, rfl⟩⟩
  · obtain ⟨hk, hframe⟩ := clearAllEntries_keeps h.keeps hfits
    have hsame := hframe.same
    exact ⟨by rw [hsame], .inr ⟨by omega, hk, by rw [hsame]⟩⟩

end Ready

end Minibase.Msh
