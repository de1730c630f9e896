import Minibase.Timed.Sound

/-!
# How a server is chosen

When a server is to be chosen, each one that is not known yet should be asked for the time once
before the nearest is taken (`Timed.Right`). Whether a server was asked is a flag that is set when
it is its turn and never taken back. Where a server did not answer, it is not asked any more when
the servers are looked at anew; and where the packet cannot be sent, the next server gets its turn.
In a run where neither happens all servers are asked in each pass, and the service is idle only if
none has answered (`Timed.right_of_fits`). The one that is taken is the nearest of those that are
known in any case (`Timed.best_findNextBest`).
-/

namespace Minibase.Timed

open List Option

/-! ### What should be so -/

/-- A server that may be asked. -/
structure Usable (sv : Serv) : Prop where
  set : sv.set = true
  kill : sv.kill = false
  fail : sv.fail = false

instance (sv : Serv) : Decidable (Usable sv) :=
  decidable_of_iff (sv.set = true ∧ sv.kill = false ∧ sv.fail = false)
    ⟨fun ⟨h1, h2, h3⟩ => ⟨h1, h2, h3⟩, fun ⟨h1, h2, h3⟩ => ⟨h1, h2, h3⟩⟩

/-- A server that may be chosen. -/
structure Eligible (sv : Serv) : Prop where
  usable : Usable sv
  hasRtt : sv.hasRtt = true

/-- A server has been sent a request since the log was as before. -/
def SentSince (before log : List Mail) (sv : Serv) : Prop :=
  ∃ recent stamp, log = recent ++ before ∧ .sent (putServerAddress sv) stamp ∈ recent

/-- **What a pass should come to**: all the servers were asked, there is none to be had only if no
one answered, and the nearest one is chosen. -/
structure Right (before : List Mail) (answers : List Packet) (ctx : Top) : Prop where
  asked : ∀ sv ∈ ctx.servs, Usable sv → sv.hasRtt = false → SentSince before ctx.log sv
  idle : ctx.state = .idle → answers = []
  nearest : ∀ i, ctx.current = some i → ∃ sv, ctx.servs[i]? = some sv ∧ Eligible sv ∧
    ∀ sv' ∈ ctx.servs, Eligible sv' → sv.rtt ≤ sv'.rtt

/-! ### Passes -/

/-- The wait is over. -/
def Expires (ctx : Top) (ev : Event) : Prop :=
  match ev with
  | .timeout => True
  | .signal => ctx.tistate = .armed
  | _ => False

instance (ctx : Top) (ev : Event) : Decidable (Expires ctx ev) :=
  match ev with
  | .timeout => .isTrue trivial
  | .signal => inferInstanceAs (Decidable (ctx.tistate = .armed))
  | .packet _ => .isFalse id
  | .command _ => .isFalse id

/-- How long an answer has taken, as it is measured. -/
def roundTrip (env : Env) (ctx : Top) (p : Packet) : Int64 :=
  (env.now - p.transmit).toInt64 - (ctx.sendtime - p.receive).toInt64

/-- A packet answers a ping: it is taken for an answer, does not say not to ask, and has taken a
time that there is. -/
def Answers (env : Env) (ctx : Top) (p : Packet) : Prop :=
  ctx.state = .pingSent ∧ recvPacket ctx p = some true ∧ validPacket ctx p = true ∧ p.stratum ≠ 0 ∧
    p.li ≠ 3 ∧
    ¬(roundTrip env ctx p < 0 ∨ roundTrip env ctx p > 0xFFFFFFFF)
deriving Decidable

/-- The process, with what the log was when the servers were looked at last, and the answers
since. -/
structure Pass where
  ctx : Top
  before : List Mail
  answers : List Packet

/-- The servers are looked at: `start_selection`. -/
def Begins (ctx : Top) (ev : Event) : Prop := ctx.state = .select ∧ Expires ctx ev
deriving Decidable

/-- The answer there is in an event. -/
def answersOf (ctx : Top) (e : Env × Event) : List Packet :=
  match e.2 with
  | .packet p => if Answers e.1 ctx p then [p] else []
  | _ => []

/-- One turn of the loop, with a note of where the pass began and who has answered. -/
def Pass.step (w : Pass) (e : Env × Event) : Option Pass :=
  (handle w.ctx e).map fun ctx =>
    if Begins w.ctx e.2 then ⟨ctx, w.ctx.log, []⟩ else
      ⟨ctx, w.before, answersOf w.ctx e ++ w.answers⟩

def Pass.init : Pass := ⟨Top.init, [], []⟩

/-- `ping_pass_complete` is run: the states of a pass are left, and not by a command. -/
def Completes (w : Pass) (e : Env × Event) (w' : Pass) : Prop :=
  (w.ctx.state = .select ∨ w.ctx.state = .pingSent ∨ w.ctx.state = .pingWait) ∧
    (∀ cmd, e.2 ≠ .command cmd) ∧
    (w'.ctx.state = .idle ∨ w'.ctx.state = .pollWait)

/-! ### What it takes -/

/-- No server is left out: those that are not known have not had their turn yet. -/
def Unflagged (ctx : Top) : Prop := ∀ sv ∈ ctx.servs, Usable sv → sv.hasRtt = false →
    sv.ping = false
deriving Decidable

/-- A packet cannot be sent, and there is no other try: the server that has its turn is passed
over. -/
def Skips (env : Env) (ctx : Top) : Prop :=
  ¬Sends env ctx ∧ 1 ≤ ctx.failures ∧
    (ctx.state = .pingWait ∨ (ctx.state = .select ∨ ctx.state = .pingSent) ∧
      findUnpinged ctx ≠ none)

instance (env : Env) (ctx : Top) : Decidable (Sends env ctx) := inferInstanceAs (Decidable (_ ∧ _))

instance (env : Env) (ctx : Top) : Decidable (Skips env ctx) := inferInstanceAs (Decidable (_ ∧ _))

/-- **What may happen**: no server is left out of a pass that begins, and none is passed over in
it. -/
structure Asking (w : Pass) (e : Env × Event) : Prop where
  possible : Possible w.ctx e.2
  unflagged : Begins w.ctx e.2 → Unflagged w.ctx
  skips : Expires w.ctx e.2 → ¬Skips e.1 w.ctx

instance (w : Pass) (e : Env × Event) : Decidable (Asking w e) :=
  decidable_of_iff (Possible w.ctx e.2 ∧ (Begins w.ctx e.2 → Unflagged w.ctx) ∧
    (Expires w.ctx e.2 → ¬Skips e.1 w.ctx))
    ⟨fun ⟨h1, h2, h3⟩ => ⟨h1, h2, h3⟩, fun ⟨h1, h2, h3⟩ => ⟨h1, h2, h3⟩⟩

section

variable {env : Env} {ctx ctx' c : Top} {before log : List Mail} {answers : List Packet} {sv : Serv}

/-! ### The nearest server -/

lemma eligible_iff (sv : Serv) : (sv.set && sv.hasRtt && !sv.kill && !sv.fail) = true ↔
    Eligible sv := by
  simp only [Bool.and_eq_true, Bool.not_eq_true']
  exact ⟨fun ⟨⟨⟨h1, h2⟩, h3⟩, h4⟩ => ⟨⟨h1, h3, h4⟩, h2⟩,
    fun ⟨⟨h1, h3, h4⟩, h2⟩ => ⟨⟨⟨h1, h2⟩, h3⟩, h4⟩⟩

/-- The best one among the first `k`. -/
structure Best (ctx : Top) (k : ℕ) (best : Option ℕ) : Prop where
  none : best = none → ∀ j < k, ∀ sv, ctx.servs[j]? = some sv → ¬Eligible sv
  some : ∀ i, best = some i → ∃ sv, ctx.servs[i]? = some sv ∧ Eligible sv ∧
    ∀ j < k, ∀ sv', ctx.servs[j]? = some sv' → Eligible sv' → sv.rtt ≤ sv'.rtt

/-- **`find_next_best` finds the nearest one.** -/
theorem best_findNextBest (ctx : Top) : Best ctx ctx.servs.length (findNextBest ctx) := by
  rw [findNextBest]
  refine loop_invariant (P := fun k best => Best ctx k best)
    ⟨fun _ j hj => absurd hj (Nat.not_lt_zero j), by rintro _ ⟨⟩⟩
    fun k hk best h => ?_
  obtain ⟨sv, hsv⟩ : ∃ sv, ctx.servs[k]? = some sv := ⟨_, getElem?_eq_getElem hk⟩
  -- what is said of the first `k`, and of the next one
  have hmore {P : Serv → Prop} (hbefore : ∀ j < k, ∀ sv', ctx.servs[j]? = some sv' → P sv')
    (hlast : P sv) : ∀ j < k + 1, ∀ sv', ctx.servs[j]? = some sv' → P sv' := by
    intro j hj sv' hsv'
    rcases Nat.lt_succ_iff_lt_or_eq.mp hj with hlt | rfl
    · exact hbefore j hlt sv' hsv'
    · cases hsv.symm.trans hsv'
      exact hlast
  rw [hsv]
  dsimp only
  by_cases helig : Eligible sv
  · rw [(eligible_iff sv).mpr helig, if_neg (by decide)]
    cases hbest : best with
    | none =>
      rw [bind_none]
      refine ⟨by rintro ⟨⟩, ?_⟩
      rintro i ⟨⟩
      exact ⟨sv, hsv, helig, hmore (fun j hj sv' hsv' h' => absurd h' (h.none hbest j hj sv' hsv'))
        fun _ => UInt32.le_refl _⟩
    | some i =>
      obtain ⟨b, hb, hbelig, hmin⟩ := h.some i hbest
      rw [bind_some, hb]
      dsimp only
      split_ifs with hfar
      · refine ⟨by rintro ⟨⟩, ?_⟩
        rintro _ ⟨⟩
        exact ⟨b, hb, hbelig, hmore hmin fun _ => UInt32.le_of_lt hfar⟩
      · refine ⟨by rintro ⟨⟩, ?_⟩
        rintro _ ⟨⟩
        exact ⟨sv, hsv, helig, hmore (fun j hj sv' hsv' h' =>
          UInt32.le_trans (UInt32.not_lt.mp hfar) (hmin j hj sv' hsv' h')) fun _ =>
            UInt32.le_refl _⟩
  · have hnot : (sv.set && sv.hasRtt && !sv.kill && !sv.fail) = false :=
      Bool.eq_false_iff.mpr fun h => helig ((eligible_iff sv).mp h)
    rw [hnot, if_pos (by decide)]
    refine ⟨fun hnone => hmore (h.none hnone) helig, fun i hi => ?_⟩
    obtain ⟨b, hb, hbelig, hmin⟩ := h.some i hi
    exact ⟨b, hb, hbelig, hmore hmin fun h' => absurd h' helig⟩

/-! ### What the flag says -/

/-- A server that had its turn and is not known. -/
structure Pending (sv : Serv) : Prop where
  usable : Usable sv
  ping : sv.ping = true
  hasRtt : sv.hasRtt = false

/-- A server that did not have its turn is as it was when it was added. -/
def Fresh (servs : List Serv) : Prop :=
  ∀ (i : ℕ) (sv : Serv), servs[i]? = some sv → sv.set = true → sv.ping = false → Usable sv ∧
    sv.hasRtt = false

/-- The current server had its turn. -/
structure Flagged (servs : List Serv) (cur : Option ℕ) : Prop where
  fresh : Fresh servs
  turn : ∀ (i : ℕ) (sv : Serv), cur = some i → servs[i]? = some sv → sv.ping = true

/-- **Who had a turn was asked**, all but one. -/
structure Covered (before : List Mail) (answers : List Packet) (servs : List Serv) (log : List Mail)
    (but : Option ℕ) : Prop where
  fresh : Fresh servs
  grown : ∃ recent, log = recent ++ before
  asked : ∀ (i : ℕ) (sv : Serv), servs[i]? = some sv → but ≠ some i → Pending sv →
    SentSince before log sv
  heard : answers ≠ [] → ∃ (i : ℕ) (sv : Serv), servs[i]? = some sv ∧ Eligible sv

/-- It is a server's turn. -/
def Turn (servs : List Serv) (cur : Option ℕ) : Prop :=
  ∃ (i : ℕ) (sv : Serv), cur = some i ∧ servs[i]? = some sv ∧ Pending sv

/-- How a pass stands while servers are asked: in `TS_PING_WAIT` the one that has its turn need not
have been. -/
structure Underway (before : List Mail) (answers : List Packet) (ctx : Top) (but : Option ℕ) :
    Prop where
  turn : Turn ctx.servs ctx.current
  covered : Covered before answers ctx.servs ctx.log but

/-- **How a pass goes on**, or ends. -/
inductive Goes (before : List Mail) (answers : List Packet) (ctx : Top) : Prop
  | sent (hstate : ctx.state = .pingSent) (h : Underway before answers ctx none)
  | wait (hstate : ctx.state = .pingWait) (h : Underway before answers ctx ctx.current)
  | done (hstate : ctx.state = .idle ∨ ctx.state = .pollWait) (h : Right before answers ctx)
      (hflagged : Flagged ctx.servs ctx.current)

variable {servs : List Serv} {f : Serv → Serv}

lemma getElem?_modify_eq_some {i j : ℕ} {sv : Serv}
    (h : (servs.modify i f)[j]? = some sv) :
    ∃ sv', servs[j]? = some sv' ∧ (i = j ∧ sv = f sv' ∨ i ≠ j ∧ sv = sv') := by
  rw [getElem?_modify] at h
  obtain ⟨sv', h1, h2⟩ := map_eq_some_iff.mp h
  refine ⟨sv', h1, ?_⟩
  split_ifs at h2 with hij
  · exact .inl ⟨hij, h2.symm⟩
  · exact .inr ⟨hij, h2.symm⟩

lemma SentSince.cons (h : SentSince before log sv) (m : Mail) : SentSince before (m :: log) sv := by
  obtain ⟨recent, stamp, rfl, h⟩ := h
  exact ⟨m :: recent, stamp, rfl, mem_cons_of_mem m h⟩

variable {but : Option ℕ}

lemma Covered.cons (h : Covered before answers servs log but) (m : Mail) :
    Covered before answers servs (m :: log) but := by
  refine ⟨h.fresh, ?_, fun i sv hi hne hp => (h.asked i sv hi hne hp).cons m, h.heard⟩
  obtain ⟨recent, rfl⟩ := h.grown
  exact ⟨m :: recent, rfl⟩

lemma Covered.weaken (h : Covered before answers servs log none) (but : Option ℕ) :
    Covered before answers servs log but :=
  ⟨h.fresh, h.grown, fun i sv hi _ => h.asked i sv hi nofun, h.heard⟩

/-- **The one that was left is asked.** -/
theorem Covered.ask {i : ℕ} (hi : servs[i]? = some sv)
    (hbut : but = none ∨ but = some i) (h : Covered before answers servs log but) (stamp : UInt64) :
    Covered before answers servs (.sent (putServerAddress sv) stamp :: log) none := by
  refine ⟨h.fresh, (h.cons _).grown, fun j sv' hj _ hp => ?_, h.heard⟩
  by_cases hij : i = j
  · subst hij
    cases hi.symm.trans hj
    obtain ⟨recent, rfl⟩ := h.grown
    exact ⟨_ :: recent, stamp, rfl, mem_cons_self⟩
  · refine (h.asked j sv' hj ?_ hp).cons _
    rintro rfl
    rcases hbut with hbut | hbut
    · cases hbut
    · exact hij (some.inj hbut).symm

variable {answers' : List Packet}

/-- **A server gets something said of it** that was not known: it has its turn, it does not answer
well, or it does. -/
theorem Covered.modify {i : ℕ} (hi : servs[i]? = some sv) (hrtt : sv.hasRtt = false)
    (h : Covered before answers servs log none) (hping : (f sv).ping = true)
    (hasked : but ≠ some i → ¬Pending (f sv))
    (hheard : answers' ≠ [] → Eligible (f sv) ∨ answers ≠ []) :
    Covered before answers' (servs.modify i f) log but := by
  refine ⟨fun j sv' hj hset hno => ?_, h.grown, fun j sv' hj hne hp => ?_, fun hans => ?_⟩
  · obtain ⟨sv₀, h0, ⟨rfl, rfl⟩ | ⟨hij, rfl⟩⟩ := getElem?_modify_eq_some hj
    · cases hi.symm.trans h0
      exact nomatch hping.symm.trans hno
    · exact h.fresh j sv' h0 hset hno
  · obtain ⟨sv₀, h0, ⟨rfl, rfl⟩ | ⟨hij, rfl⟩⟩ := getElem?_modify_eq_some hj
    · cases hi.symm.trans h0
      exact absurd hp (hasked hne)
    · exact h.asked j sv' h0 nofun hp
  · have hget (j : ℕ) (sv' : Serv) (hj : servs[j]? = some sv') :
        (servs.modify i f)[j]? = some (if i = j then f sv' else sv') := by
      rw [getElem?_modify, hj]
      rfl
    rcases hheard hans with hel | hans'
    · exact ⟨i, _, hget i sv hi, by rwa [if_pos rfl]⟩
    · obtain ⟨j, sv', hj, hel⟩ := h.heard hans'
      refine ⟨j, _, hget j sv' hj, ?_⟩
      rwa [if_neg]
      rintro rfl
      cases hi.symm.trans hj
      exact nomatch hrtt.symm.trans hel.hasRtt

/-! ### Functions of a pass -/

lemma findUnpinged_eq_none (h : findUnpinged ctx = none) (hmem : sv ∈ ctx.servs)
    (hset : sv.set = true) : sv.ping = true := by
  have hno := findIdx?_eq_none_iff.mp h sv hmem
  rwa [hset, Bool.true_and, Bool.not_eq_false'] at hno

lemma findUnpinged_eq_some {i : ℕ} (h : findUnpinged ctx = some i) :
    ∃ sv, ctx.servs[i]? = some sv ∧ sv.set = true ∧ sv.ping = false := by
  obtain ⟨hlt, hsv, -⟩ := findIdx?_eq_some_iff_getElem.mp h
  rw [Bool.and_eq_true, Bool.not_eq_true'] at hsv
  exact ⟨_, getElem?_eq_getElem hlt, hsv⟩

/-- **It is the next server's turn**, or they all had theirs. -/
theorem Covered.selectUnpinged (h : Covered before answers ctx.servs ctx.log none) :
    ∃ c, selectUnpinged ctx = some c ∧ Kept ctx c ∧
      (c.current = none ∧ findUnpinged c = none ∧ Covered before answers c.servs c.log none ∨
        (findUnpinged ctx ≠ none ∧ c.current ≠ none) ∧ Underway before answers c c.current) := by
  obtain ⟨c, hc, -, hcurrent, hservs, hkept⟩ := selectUnpinged_spec ctx
  refine ⟨c, hc, hkept, ?_⟩
  rw [pinged] at hservs
  cases hfind : findUnpinged ctx with
  | none =>
    rw [hfind] at hcurrent hservs
    refine .inl ⟨hcurrent, ?_, by rwa [hservs, hkept.log]⟩
    rw [findUnpinged, hservs]
    exact hfind
  | some i =>
    rw [hfind] at hcurrent hservs
    obtain ⟨sv, hsv, hset, hping⟩ := findUnpinged_eq_some hfind
    obtain ⟨husable, hrtt⟩ := h.fresh i sv hsv hset hping
    refine .inr ⟨⟨by rintro ⟨⟩, by rw [hcurrent]; rintro ⟨⟩⟩,
      ⟨i, { sv with ping := true }, hcurrent, ?_, ?_⟩, ?_⟩
    · rw [hservs, getElem?_modify_eq, hsv]
      rfl
    · exact ⟨⟨husable.set, husable.kill, husable.fail⟩, rfl, hrtt⟩
    · rw [hservs, hkept.log, hcurrent]
      exact h.modify hsv hrtt rfl (fun hne => absurd rfl hne) .inr

/-- Once the nearest server is chosen the flag still says what it did. -/
theorem Chosen.flagged (h : Chosen ctx ctx') (hfresh : Fresh ctx.servs) :
    Flagged ctx'.servs ctx'.current := by
  rw [h.servs, h.current]
  refine ⟨hfresh, fun i sv hi hsv => ?_⟩
  obtain ⟨sv', hsv', helig, -⟩ := (best_findNextBest ctx).some i hi
  cases hsv.symm.trans hsv'
  -- one that is known is not new
  by_contra hno
  have hnew := (hfresh i sv hsv helig.usable.set (Bool.not_eq_true _ ▸ hno)).2
  exact nomatch hnew.symm.trans helig.hasRtt

/-- **`ping_pass_complete` comes when it should**, and takes the nearest. -/
theorem Covered.pingPassComplete (h : Covered before answers ctx.servs ctx.log none)
    (hall : findUnpinged ctx = none) (env : Env) :
    ∃ ctx', pingPassComplete env ctx = some ctx' ∧ Goes before answers ctx' := by
  obtain ⟨ctx', hs, hended, hchosen⟩ := pingPassComplete_spec env ctx
  have hbest := best_findNextBest ctx
  refine ⟨ctx', hs, .done hchosen.rests ⟨fun sv hmem husable hrtt => ?_, fun hidle => ?_,
    fun i hi => ?_⟩
    (hchosen.flagged h.fresh)⟩
  · rw [hchosen.servs] at hmem
    rw [hended.log]
    obtain ⟨i, hi⟩ := getElem?_of_mem hmem
    exact h.asked i sv hi nofun ⟨husable, findUnpinged_eq_none hall hmem husable.set, hrtt⟩
  · have hnone := (hchosen.state.resolve_right fun hwait => nomatch hidle.symm.trans hwait).2
    by_contra hans
    obtain ⟨j, sv, hj, helig⟩ := h.heard hans
    obtain ⟨hlt, -⟩ := List.getElem?_eq_some_iff.mp hj
    exact hbest.none hnone j hlt sv hj helig
  · rw [hchosen.current] at hi
    rw [hchosen.servs]
    obtain ⟨sv, hsv, helig, hmin⟩ := hbest.some i hi
    refine ⟨sv, hsv, helig, fun sv' hmem helig' => ?_⟩
    obtain ⟨j, hj⟩ := getElem?_of_mem hmem
    exact hmin j (List.getElem?_eq_some_iff.mp hj).1 sv' hj helig'

lemma Covered.pingNextServer (h : Covered before answers ctx.servs ctx.log none) (env : Env) :
    ∃ ctx', pingNextServer env ctx = some ctx' ∧ Goes before answers ctx' := by
  obtain ⟨c, hc, -, ⟨hnone, hall, hcov⟩ | ⟨⟨-, hsome⟩, hway⟩⟩ := h.selectUnpinged
  · simp only [Timed.pingNextServer, hc, bind_eq_bind, bind_some, hnone]
    exact hcov.pingPassComplete hall env
  · simp only [Timed.pingNextServer, hc, bind_eq_bind, bind_some,
      isSome_iff_ne_none.mpr hsome, if_true]
    refine ⟨_, rfl, .wait (setTimed_state ..) ⟨?_, ?_⟩⟩
    · rw [setTimed_servs, setTimed_current]
      exact hway.turn
    · rw [setTimed_servs, setTimed_current, setTimed_log]
      exact hway.covered

/-- **A request is sent** to the server that has its turn, or will be; or the next one has its turn,
but not before this one was asked. -/
theorem Underway.sendPingRequest (h : Underway before answers ctx but)
    (hbut : but = none ∨ but = ctx.current)
    (hskip : ¬Sends env ctx → 1 ≤ ctx.failures → but = none) :
    ∃ ctx', sendPingRequest env ctx = some ctx' ∧ Goes before answers ctx' := by
  obtain ⟨i, sv, hi, hsv, hpending⟩ := h.turn
  have hcur : Timed.current ctx = some sv := current_eq_some.mpr ⟨i, hi, hsv, hpending.usable.set⟩
  by_cases hsends : Sends env ctx
  · obtain ⟨c, hc, hcurrent, hservs, -, hlog⟩ := sendPacket_of_sends hsends hcur
    simp only [Timed.sendPingRequest, hc, bind_eq_bind, bind_some, if_true]
    refine ⟨_, rfl, .sent (setTimed_state ..) ⟨?_, ?_⟩⟩
    · rw [setTimed_servs, setTimed_current, hservs, hcurrent]
      exact h.turn
    · rw [setTimed_servs, setTimed_log, hservs, hlog]
      exact h.covered.ask hsv (hi ▸ hbut) env.now
  · obtain ⟨c, hc, hcurrent, hservs, hfailures, -, hlog⟩ := sendPacket_of_not hsends hcur
    simp only [Timed.sendPingRequest, hc, bind_eq_bind, bind_some, hfailures]
    by_cases hfirst : ctx.failures < 1
    · rw [if_neg (by decide), if_pos hfirst]
      refine ⟨_, rfl, .wait (setTimed_state ..) ⟨?_, ?_⟩⟩
      · rw [setTimed_servs, setTimed_current]
        show Turn c.servs c.current
        rw [hservs, hcurrent]
        exact h.turn
      · rw [setTimed_servs, setTimed_current, setTimed_log]
        show Covered before answers c.servs c.log c.current
        rw [hservs, hcurrent, hlog]
        rcases hbut with rfl | rfl
        · exact h.covered.weaken _
        · exact h.covered
    · rw [if_neg (by decide), if_neg hfirst]
      have hcov : Covered before answers c.servs c.log none := by
        rw [hservs, hlog, ← hskip hsends (Nat.le_of_not_lt hfirst)]
        exact h.covered
      exact hcov.pingNextServer env

/-- The next server has its turn and is asked, or the pass is over. -/
theorem Covered.askNext (h : Covered before answers ctx.servs ctx.log none)
    (hskip : ¬Sends env ctx → 1 ≤ ctx.failures → findUnpinged ctx = none) :
    ∃ ctx', ((Timed.selectUnpinged ctx).bind fun c =>
      if c.current.isSome then sendPingRequest env c else Timed.pingPassComplete env c) =
        some ctx' ∧
        Goes before answers ctx' := by
  obtain ⟨c, hc, hkept, ⟨hnone, hall, hcov⟩ | ⟨⟨hleft, hsome⟩, hway⟩⟩ := h.selectUnpinged
  · rw [hc, bind_some, if_neg (by rw [hnone]; decide)]
    exact hcov.pingPassComplete hall env
  · rw [hc, bind_some, if_pos (isSome_iff_ne_none.mpr hsome)]
    refine hway.sendPingRequest (.inr rfl) fun hsends hlast => ?_
    exact absurd (hskip (fun hs => hsends ⟨hkept.ntpfd.symm ▸ hs.1, hs.2⟩) (hkept.failures ▸ hlast))
      hleft

lemma Underway.handlePingTimeout (h : Underway before answers ctx none)
    (hskip : ¬Sends env ctx → 1 ≤ ctx.failures → findUnpinged ctx = none) :
    ∃ ctx', handlePingTimeout env ctx = some ctx' ∧ Goes before answers ctx' := by
  rw [Timed.handlePingTimeout]
  split_ifs
  · -- the same one once more, which was asked
    exact @Underway.sendPingRequest env { ctx with failures := ctx.failures + 1 } before answers
      none
      ⟨h.turn, h.covered⟩ (.inl rfl) fun _ _ => rfl
  · exact h.covered.askNext hskip

/-- **A pass begins** with nobody who had a turn before. -/
theorem startSelection_goes (hfresh : Fresh ctx.servs) (hun : Unflagged ctx)
    (hskip : ¬Sends env ctx → 1 ≤ ctx.failures → findUnpinged ctx = none) :
    ∃ ctx', startSelection env ctx = some ctx' ∧ Goes ctx.log [] ctx' := by
  have hcov : Covered ctx.log [] ctx.servs ctx.log none := by
    refine ⟨hfresh, ⟨[], rfl⟩, fun i sv hi _ hp => ?_, fun hne => absurd rfl hne⟩
    exact nomatch hp.ping.symm.trans (hun sv (mem_of_getElem? hi) hp.usable hp.hasRtt)
  exact @Covered.askNext env { ctx with bestidx := none, bestrtt := 0 } ctx.log [] hcov hskip

/-- **A server that is dropped** was asked, and is not known. -/
theorem Underway.dropServer (h : Underway before answers ctx none) (hstate : ctx.state = .pingSent)
    {flag : Serv → Serv} (hping : ∀ sv, (flag sv).ping = sv.ping) (hflag : ∀ sv, ¬Usable (flag sv))
    (env : Env) : ∃ ctx', dropServer env ctx flag = some ctx' ∧ Goes before answers ctx' := by
  obtain ⟨i, sv, hi, hsv, hpending⟩ := h.turn
  have hcur : Timed.current ctx = some sv := current_eq_some.mpr ⟨i, hi, hsv, hpending.usable.set⟩
  obtain ⟨c, hc, -, hservs, hkept⟩ := markCurrent_spec hcur flag
  simp only [Timed.dropServer, hc, bind_eq_bind, bind_some, hkept.state, hstate]
  have hcov : Covered before answers c.servs c.log none := by
    rw [hservs i hi, hkept.log]
    exact h.covered.modify hsv hpending.hasRtt ((hping sv).trans hpending.ping)
      (fun _ hp => hflag sv hp.usable) .inr
  exact hcov.pingNextServer env

lemma not_usable_markKill (sv : Serv) : ¬Usable (markKill sv) :=
    fun h => nomatch (show true = false from h.kill)

lemma not_usable_markFail (sv : Serv) : ¬Usable (markFail sv) :=
    fun h => nomatch (show true = false from h.fail)

/-- **An answer makes a server known**, if it has taken a time that there is. -/
theorem Underway.notePing {i : ℕ} {lo hi : Int64}
    (h : Underway before answers ctx none) (hcur : ctx.current = some i)
    (hheard : answers' ≠ [] → answers ≠ [] ∨ ¬(hi - lo < 0 ∨ hi - lo > 0xFFFFFFFF)) (ref : UInt64) :
    Covered before answers' (notePing env ctx i ref lo hi).servs
    (notePing env ctx i ref lo hi).log none := by
  obtain ⟨j, sv, hj, hsv, hpending⟩ := h.turn
  cases hcur.symm.trans hj
  have hknown (rtt : UInt32) : Covered before answers'
      (ctx.servs.modify i fun sv => { sv with rtt := rtt, hasRtt := true }) ctx.log none :=
    h.covered.modify hsv hpending.hasRtt hpending.ping
      (fun _ hp => nomatch (show true = false from hp.hasRtt))
      fun _ => .inl ⟨⟨hpending.usable.set, hpending.usable.kill, hpending.usable.fail⟩, rfl⟩
  rw [Timed.notePing]
  dsimp only
  split_ifs with hbad
  · exact ⟨h.covered.fresh, h.covered.grown, h.covered.asked,
      fun hans => h.covered.heard ((hheard hans).resolve_right (not_not.mpr hbad))⟩
  · exact hknown _
  · exact hknown _

lemma Underway.addPingPoint {lo hi : Int64} (h : Underway before answers ctx none)
    (hheard : answers' ≠ [] → answers ≠ [] ∨ ¬(hi - lo < 0 ∨ hi - lo > 0xFFFFFFFF)) (ref : UInt64) :
    ∃ ctx', addPingPoint env ctx ref lo hi = some ctx' ∧ Goes before answers' ctx' := by
  obtain ⟨i, sv, hi', hsv, hpending⟩ := h.turn
  have hcur : Timed.current ctx = some sv := current_eq_some.mpr ⟨i, hi', hsv, hpending.usable.set⟩
  simp only [Timed.addPingPoint, hcur, hi', bind_eq_bind, bind_some]
  obtain ⟨c, hc, -, ⟨hnone, hall, hcov⟩ | ⟨⟨-, hsome⟩, hway⟩⟩ :=
    (@Underway.notePing env ctx before answers answers' i lo hi h hi' hheard ref).selectUnpinged
  · rw [hc, bind_some, if_neg (by rw [hnone]; decide)]
    exact hcov.pingPassComplete hall env
  · rw [hc, bind_some, if_pos (isSome_iff_ne_none.mpr hsome)]
    exact ⟨_, rfl, .wait rfl ⟨hway.turn, hway.covered⟩⟩

variable {p : Packet}

/-- **A packet from the server that was asked.** -/
theorem Underway.handlePacket (h : Underway before answers ctx none)
    (hstate : ctx.state = .pingSent)
    (hheard : answers' ≠ [] → answers ≠ [] ∨
      p.stratum ≠ 0 ∧ p.li ≠ 3 ∧ ¬(roundTrip env ctx p < 0 ∨ roundTrip env ctx p > 0xFFFFFFFF)) :
    ∃ ctx', handlePacket env ctx p = some ctx' ∧ Goes before answers' ctx' := by
  -- a packet that says not to ask is no answer
  have hdrop {flag : Serv → Serv} (hping : ∀ sv, (flag sv).ping = sv.ping)
    (hflag : ∀ sv, ¬Usable (flag sv))
      (hno : answers' ≠ [] → answers ≠ []) :
      ∃ ctx', Timed.dropServer env ctx flag = some ctx' ∧ Goes before answers' ctx' :=
    Underway.dropServer ⟨h.turn, h.covered.fresh, h.covered.grown, h.covered.asked,
      fun hans => h.covered.heard (hno hans)⟩ hstate hping hflag env
  rw [Timed.handlePacket]
  split_ifs with hkiss hli
  · exact hdrop (fun _ => rfl) not_usable_markKill fun hans => (hheard hans).resolve_right fun hp =>
      hp.1 hkiss
  · exact hdrop (fun _ => rfl) not_usable_markFail fun hans => (hheard hans).resolve_right fun hp =>
      hp.2.1 hli
  · have hway : Underway before answers { ctx with failures := 0, state := .pingSent } none :=
      ⟨h.turn, h.covered⟩
    simp only [hstate, addPoint]
    exact hway.addPingPoint (fun hans => (hheard hans).imp_right fun hp => hp.2.2) _

/-! ### Polls -/

/-- No server is pinged, and the flag says what it should. -/
structure Rests (ctx : Top) : Prop where
  flagged : Flagged ctx.servs ctx.current
  state : ctx.state ≠ .pingSent ∧ ctx.state ≠ .pingWait

/-- The current server gets something else said of it. -/
theorem Flagged.modify {i : ℕ} (h : Flagged servs (some i))
    (hf : ∀ sv, (f sv).ping = sv.ping) : Flagged (servs.modify i f) (some i) := by
  refine ⟨fun j sv hj hset hno => ?_, fun j sv hcur hj => ?_⟩
  · obtain ⟨sv₀, h0, ⟨rfl, rfl⟩ | ⟨-, rfl⟩⟩ := getElem?_modify_eq_some hj
    · exact nomatch ((hf sv₀).trans (h.turn i sv₀ rfl h0)).symm.trans hno
    · exact h.fresh j sv h0 hset hno
  · obtain ⟨sv₀, h0, ⟨-, rfl⟩ | ⟨-, rfl⟩⟩ := getElem?_modify_eq_some hj
    · exact (hf sv₀).trans (h.turn j sv₀ hcur h0)
    · exact h.turn j sv hcur h0

lemma Flagged.setTimed (h : Flagged ctx.servs ctx.current) (env : Env) (st : State) (sec : ℕ)
    (hst : st ≠ .pingSent ∧ st ≠ .pingWait) : Rests (setTimed env ctx st sec) :=
  ⟨by rwa [setTimed_servs, setTimed_current], by rwa [setTimed_state]⟩

lemma Chosen.rests_flagged (h : Chosen ctx ctx') (hfresh : Fresh ctx.servs) : Rests ctx' := by
  refine ⟨h.flagged hfresh, ?_⟩
  rcases h.rests with hst | hst <;> rw [hst] <;> exact ⟨nofun, nofun⟩

section

variable (h : Flagged ctx.servs ctx.current)
include h

namespace Flagged

/-- A current server is marked, and another one takes over. -/
theorem markCurrent (hcur : current ctx = some sv) (flag : Serv → Serv)
    (hflag : ∀ sv, (flag sv).ping = sv.ping) :
    ∃ c, markCurrent ctx flag = some c ∧ c.current = none ∧ Fresh c.servs ∧ Kept ctx c := by
  obtain ⟨i, hi, -, -⟩ := current_eq_some.mp hcur
  obtain ⟨c, hc, hnone, hservs, hkept⟩ := markCurrent_spec hcur flag
  rw [hi] at h
  exact ⟨c, hc, hnone, hservs i hi ▸ (h.modify hflag).fresh, hkept⟩

lemma sendPollRequest (hcur : current ctx = some sv) (env : Env) :
    ∃ ctx', sendPollRequest env ctx = some ctx' ∧ Rests ctx' := by
  by_cases hsends : Sends env ctx
  · obtain ⟨c, hc, hcurrent, hservs, -, -⟩ := sendPacket_of_sends hsends hcur
    simp only [Timed.sendPollRequest, hc, bind_eq_bind, bind_some, if_true]
    rw [← hservs, ← hcurrent] at h
    exact ⟨_, rfl, h.setTimed env .pollSent 1 ⟨by rintro ⟨⟩, by rintro ⟨⟩⟩⟩
  · obtain ⟨c, hc, hcurrent, hservs, -, -, -⟩ := sendPacket_of_not hsends hcur
    have hcur' : current c = some sv := (current_congr hcurrent hservs).trans hcur
    rw [← hservs, ← hcurrent] at h
    simp only [Timed.sendPollRequest, hc, bind_eq_bind, bind_some, Bool.false_eq_true, if_false]
    split_ifs
    · exact ⟨_, rfl, @setTimed { c with failures := c.failures + 1 } h env .pollWait 60
        ⟨by rintro ⟨⟩, by rintro ⟨⟩⟩⟩
    · obtain ⟨c', hc', -, hfresh, -⟩ := h.markCurrent hcur' markFail fun _ => rfl
      rw [hc', bind_some]
      exact ⟨_, rfl, (switchToBackup_ended env c').2.rests_flagged hfresh⟩

lemma handlePollTimeout (hcur : current ctx = some sv) (env : Env) :
    ∃ ctx', handlePollTimeout env ctx = some ctx' ∧ Rests ctx' := by
  rw [Timed.handlePollTimeout]
  split_ifs
  · exact ⟨_, rfl, @setTimed { ctx with failures := ctx.failures + 1 } h env .pollWait (60 - 1)
      ⟨by rintro ⟨⟩, by rintro ⟨⟩⟩⟩
  · obtain ⟨c, hc, hnone, hfresh, -⟩ := h.markCurrent hcur markFail fun _ => rfl
    rw [hc, bind_eq_bind, bind_some]
    have hflagged : Flagged c.servs c.current :=
      ⟨hfresh, fun i _ hi => by cases hnone.symm.trans hi⟩
    exact ⟨_, rfl, hflagged.setTimed env .select 1 ⟨by rintro ⟨⟩, by rintro ⟨⟩⟩⟩

lemma addPollPoint (hp : Cur ctx) (hcur : current ctx = some sv) (env : Env)
    (ref : UInt64) (lo hi : Int64) :
    ∃ ctx', addPollPoint env ctx ref lo hi = some ctx' ∧ Rests ctx' := by
  obtain ⟨i, hi', -, -⟩ := current_eq_some.mp hcur
  obtain ⟨ctx', hs, -, hstate, hcurrent, hservs⟩ := addPollPoint_spec env hp hcur ref lo hi
  refine ⟨ctx', hs, ?_, by rw [hstate]; exact ⟨nofun, nofun⟩⟩
  rw [hservs i hi', hcurrent, hi']
  rw [hi'] at h
  refine h.modify fun sv => ?_
  split_ifs <;> rfl

lemma dropServer (hcur : current ctx = some sv) (hstate : ctx.state = .pollSent)
    (flag : Serv → Serv) (hflag : ∀ sv, (flag sv).ping = sv.ping) (env : Env) :
    ∃ ctx', dropServer env ctx flag = some ctx' ∧ Rests ctx' := by
  obtain ⟨c, hc, -, hfresh, hkept⟩ := h.markCurrent hcur flag hflag
  simp only [Timed.dropServer, hc, bind_eq_bind, bind_some, hkept.state, hstate]
  exact ⟨_, rfl, (switchToBackup_ended env c).2.rests_flagged hfresh⟩

/-- **An answer to a poll** is no answer to a ping. -/
theorem handlePacket (hp : Cur ctx) (hcur : current ctx = some sv)
    (hstate : ctx.state = .pollSent) (env : Env) (p : Packet) :
    ∃ ctx', handlePacket env ctx p = some ctx' ∧ Rests ctx' := by
  rw [Timed.handlePacket]
  split_ifs
  · exact h.dropServer hcur hstate markKill (fun _ => rfl) env
  · exact h.dropServer hcur hstate markFail (fun _ => rfl) env
  · simp only [hstate, addPoint]
    exact @addPollPoint { ctx with failures := 0, state := .pollSent } sv h hp hcur env _ _ _

end Flagged

end

/-! ### Commands -/

/-- **What holds between events.** -/
inductive Stands (before : List Mail) (answers : List Packet) (ctx : Top) : Prop
  | rests (h : Rests ctx)
  | sent (hstate : ctx.state = .pingSent) (h : Underway before answers ctx none)
  | wait (hstate : ctx.state = .pingWait) (h : Underway before answers ctx ctx.current)

lemma Underway.flagged (h : Underway before answers ctx but) : Flagged ctx.servs ctx.current := by
  refine ⟨h.covered.fresh, fun i sv hi hsv => ?_⟩
  obtain ⟨j, sv', hj, hsv', hpending⟩ := h.turn
  cases hi.symm.trans hj
  cases hsv.symm.trans hsv'
  exact hpending.ping

lemma Stands.flagged (h : Stands before answers ctx) : Flagged ctx.servs ctx.current := by
  cases h with
  | rests h => exact h.flagged
  | sent _ h => exact h.flagged
  | wait _ h => exact h.flagged

/-- A server that does not fail, or is the current one, is not wiped. -/
theorem getElem?_wipeFailed_of_usable {i : ℕ} (hsv : ctx.servs[i]? = some sv)
    (h : ctx.current = some i ∨ Usable sv) : (wipeFailed ctx)[i]? = some sv := by
  rcases h with hi | husable
  · exact (getElem?_wipeFailed hi).trans hsv
  · rw [wipeFailed, getElem?_mapIdx, hsv, map_some, if_neg]
    rintro ⟨-, -, hkill | hfail⟩
    · cases husable.kill.symm.trans hkill
    · cases husable.fail.symm.trans hfail

/-- A server that there is after `cmd_server` is new, or it was there and did not fail, or is the
current one. -/
theorem Slots.wiped (h : Slots (wipeFailed ctx) servs) {i : ℕ} {sv' : Serv}
    (hi : servs[i]? = some sv') (hset : sv'.set = true) :
    (Usable sv' ∧ sv'.hasRtt = false ∧ sv'.ping = false) ∨
    ∃ sv fail, ctx.servs[i]? = some sv ∧ sv' = { sv with fail := fail } ∧
      (fail = true → sv.fail = true) ∧
      (ctx.current = some i ∨ Usable sv) := by
  have hrel := h i
  rw [hi, wipeFailed, getElem?_mapIdx] at hrel
  cases hsv : ctx.servs[i]? with
  | none =>
    rw [hsv] at hrel
    cases hrel
  | some sv =>
    rw [hsv] at hrel
    obtain hslot | - := hrel
    dsimp only at hslot
    split_ifs at hslot with hwipe
    · cases hslot with
      | kept => cases hset
      | new => exact .inl ⟨⟨rfl, rfl, rfl⟩, rfl, rfl⟩
    · cases hslot with
      | kept fail hfail =>
        refine .inr ⟨sv, fail, rfl, rfl, hfail, ?_⟩
        by_contra hno
        obtain ⟨hcur, husable⟩ := not_or.mp hno
        refine hwipe ⟨hcur, hset, ?_⟩
        by_contra hok
        rw [not_or, Bool.not_eq_true, Bool.not_eq_true] at hok
        exact husable ⟨hset, hok.1, hok.2⟩
      | new => exact .inl ⟨⟨rfl, rfl, rfl⟩, rfl, rfl⟩

lemma Fresh.added (h : Fresh ctx.servs) (hs : Slots (wipeFailed ctx) servs) : Fresh servs := by
  intro i sv' hi hset hping
  rcases hs.wiped hi hset with ⟨husable, hrtt, -⟩ | ⟨sv, fail, hsv, rfl, hfail, -⟩
  · exact ⟨husable, hrtt⟩
  · obtain ⟨husable, hrtt⟩ := h i sv hsv hset hping
    refine ⟨⟨hset, husable.kill, Bool.eq_false_iff.mpr fun hf => ?_⟩, hrtt⟩
    exact nomatch husable.fail.symm.trans (hfail hf)

lemma Flagged.added (h : Flagged ctx.servs ctx.current) (hcur : Cur ctx)
    (hs : Slots (wipeFailed ctx) servs) : Flagged servs ctx.current := by
  refine ⟨h.fresh.added hs, fun i sv' hi hsv' => ?_⟩
  obtain ⟨sv, hsv, hset⟩ := hcur i hi
  obtain ⟨fail, hsv'', -⟩ := hs.kept (getElem?_wipeFailed_of_usable hsv (.inl hi)) hset
  cases hsv''.symm.trans hsv'
  exact h.turn i sv hi hsv

/-- **A pass goes on** when servers are added. -/
theorem Underway.added (h : Underway before answers ctx but)
    (hs : Slots (wipeFailed ctx) servs) : Underway before answers
    { ctx with servs := servs } but := by
  obtain ⟨i, sv, hi, hsv, hpending⟩ := h.turn
  -- a server that does not fail stays as it is
  have hkept {j : ℕ} {sv : Serv} (hsv : ctx.servs[j]? = some sv) (husable : Usable sv) :
      ∃ fail, servs[j]? = some { sv with fail := fail } ∧ Usable { sv with fail := fail } := by
    obtain ⟨fail, hsv', hfail⟩ := hs.kept
      (getElem?_wipeFailed_of_usable hsv (.inr husable)) husable.set
    refine ⟨fail, hsv', husable.set, husable.kill, Bool.eq_false_iff.mpr fun hf => ?_⟩
    exact nomatch husable.fail.symm.trans (hfail hf)
  refine ⟨?_, h.covered.fresh.added hs, h.covered.grown, fun j sv' hj hne hp => ?_, fun hans => ?_⟩
  · obtain ⟨fail, hsv', husable⟩ := hkept hsv hpending.usable
    exact ⟨i, _, hi, hsv', husable, hpending.ping, hpending.hasRtt⟩
  · rcases hs.wiped hj hp.usable.set with ⟨-, -, hping⟩ | ⟨sv₀, fail, hsv₀, rfl, -, hcur | husable⟩
    · exact nomatch hp.ping.symm.trans hping
    · -- the current server has its turn, whatever it was
      cases hi.symm.trans hcur
      cases hsv.symm.trans hsv₀
      exact h.covered.asked i sv hsv hne hpending
    · exact h.covered.asked j sv₀ hsv₀ hne ⟨husable, hp.ping, hp.hasRtt⟩
  · obtain ⟨j, sv₀, hsv₀, helig⟩ := h.covered.heard hans
    obtain ⟨fail, hsv', husable⟩ := hkept hsv₀ helig.usable
    exact ⟨j, _, hsv', husable, helig.hasRtt⟩

/-- **A command** does not end a pass in a choice. -/
theorem Stands.dispatchCmd (h : Stands before answers ctx) (hp : Placed ctx) {cmd : Cmd}
    (hs : dispatchCmd env ctx cmd = some ctx') : Stands before answers ctx' := by
  cases cmd with
  | status =>
    simp only [Timed.dispatchCmd, cmdStatus, bind_eq_bind] at hs
    split_ifs at hs
    · obtain ⟨-, -, hs⟩ := bind_eq_some_iff.mp hs
      exact some.inj hs ▸ h
    · exact some.inj hs ▸ h
  | server srvs =>
    cases hs
    have hslots := addServers_slots (wipeFailed ctx) srvs
    rw [cmdServer]
    generalize addServers (wipeFailed ctx) srvs = out at hslots ⊢
    obtain ⟨servs, ok⟩ := out
    have hadded : Stands before answers { ctx with servs := servs } := by
      cases h with
      | rests h => exact .rests ⟨h.flagged.added hp.cur hslots, h.state⟩
      | sent hstate h => exact .sent hstate (h.added hslots)
      | wait hstate h => exact .wait hstate (h.added hslots)
    cases ok
    · exact hadded
    · dsimp only
      split_ifs
      · exact .rests (hadded.flagged.setTimed env .select 1 ⟨by rintro ⟨⟩, by rintro ⟨⟩⟩)
      · exact hadded
  | srlist => exact some.inj hs ▸ h
  | retry =>
    cases hs
    rw [cmdRetry]
    split_ifs
    · refine .rests (Flagged.setTimed ⟨fun i sv' hi hset hping => ?_, fun i sv' hi hsv' => ?_⟩ env
        .select 1
        ⟨by rintro ⟨⟩, by rintro ⟨⟩⟩)
      · obtain ⟨sv, hsv, rfl⟩ := map_eq_some_iff.mp (getElem?_map .. ▸ hi)
        split_ifs at hset hping ⊢
        · obtain ⟨husable, hrtt⟩ := h.flagged.fresh i sv hsv hset hping
          exact ⟨⟨husable.set, husable.kill, rfl⟩, hrtt⟩
        · exact h.flagged.fresh i sv hsv hset hping
      · obtain ⟨sv, hsv, rfl⟩ := map_eq_some_iff.mp (getElem?_map .. ▸ hsv')
        split_ifs <;> exact h.flagged.turn i sv hi hsv
    · exact h
  | reset =>
    cases hs
    refine .rests ⟨⟨fun i sv hi hset => ?_, by rintro _ _ ⟨⟩⟩, by rintro ⟨⟩, by rintro ⟨⟩⟩
    obtain rfl := eq_of_mem_replicate (mem_of_getElem? hi)
    cases hset
  | force =>
    cases hs
    rw [cmdForce]
    split_ifs
    · exact .rests (h.flagged.setTimed env .pollWait 1 ⟨by rintro ⟨⟩, by rintro ⟨⟩⟩)
    · exact h

/-! ### The loop -/

lemma Goes.stands (h : Goes before answers ctx) : Stands before answers ctx := by
  cases h with
  | sent hstate h => exact .sent hstate h
  | wait hstate h => exact .wait hstate h
  | done hstate _ hflagged =>
    refine .rests ⟨hflagged, ?_⟩
    rcases hstate with hst | hst <;> rw [hst] <;> exact ⟨nofun, nofun⟩

lemma Goes.right (h : Goes before answers ctx) (hover : ctx.state = .idle ∨ ctx.state = .pollWait) :
    Right before answers ctx := by
  cases h with
  | sent hstate => exact hover.elim (fun hst => nomatch hstate.symm.trans hst) fun hst =>
    nomatch hstate.symm.trans hst
  | wait hstate => exact hover.elim (fun hst => nomatch hstate.symm.trans hst) fun hst =>
    nomatch hstate.symm.trans hst
  | done _ h _ => exact h

lemma maybeCloseSocket_state (ctx : Top) : (maybeCloseSocket ctx).state = ctx.state := by
  rw [maybeCloseSocket]
  split_ifs <;> rfl

lemma Goes.maybeClose (h : Goes before answers ctx) : Goes before answers
    (maybeCloseSocket ctx) := by
  rcases maybeCloseSocket_cases ctx with ⟨heq, -⟩ | ⟨heq, -⟩ <;> rw [heq]
  · cases h with
    | sent hstate h => exact .sent hstate ⟨h.turn, h.covered⟩
    | wait hstate h => exact .wait hstate ⟨h.turn, h.covered⟩
    | done hstate h hflagged => exact .done hstate ⟨h.asked, h.idle, h.nearest⟩ hflagged
  · exact h

lemma Rests.maybeClose (h : Rests ctx) : Rests (maybeCloseSocket ctx) := by
  rcases maybeCloseSocket_cases ctx with ⟨heq, -⟩ | ⟨heq, -⟩ <;> rw [heq]
  · exact ⟨h.flagged, h.state⟩
  · exact h

section

variable (h : Stands before answers ctx)
include h

lemma Stands.of_sent (hstate : ctx.state = .pingSent) : Underway before answers ctx none := by
  cases h with
  | rests h => exact absurd hstate h.state.1
  | sent _ h => exact h
  | wait hwait => exact nomatch hstate.symm.trans hwait

lemma Stands.of_wait (hstate : ctx.state = .pingWait) :
    Underway before answers ctx ctx.current := by
  cases h with
  | rests h => exact absurd hstate h.state.2
  | sent hsent => exact nomatch hstate.symm.trans hsent
  | wait _ h => exact h

/-- What the alarm and the timer are does not matter. -/
theorem Stands.alarm (sec nsec : ℤ) (timer : Timer) :
    Stands before answers { ctx with alarmSec := sec, alarmNsec := nsec, tistate := timer } := by
  cases h with
  | rests h => exact .rests ⟨h.flagged, h.state⟩
  | sent hstate h => exact .sent hstate ⟨h.turn, h.covered⟩
  | wait hstate h => exact .wait hstate ⟨h.turn, h.covered⟩

/-- **A timeout** begins a pass, or goes on with one, or has to do with polls. -/
theorem Stands.handleTimeout (hp : Placed ctx) (hun : ctx.state = .select → Unflagged ctx)
    (hskip : ¬Skips env ctx) (hs : handleTimeout env ctx = some ctx') :
    ctx.state = .select ∧ Goes ctx.log [] ctx' ∨
    (ctx.state = .pingSent ∨ ctx.state = .pingWait) ∧ Goes before answers ctx' ∨
    ¬(ctx.state = .select ∨ ctx.state = .pingSent ∨ ctx.state = .pingWait) ∧ Rests ctx' := by
  have hleft (hst : ctx.state = .select ∨ ctx.state = .pingSent) :
      ¬Sends env ctx → 1 ≤ ctx.failures → findUnpinged ctx = none := by
    intro hsends hlast
    by_contra hne
    exact hskip ⟨hsends, hlast, .inr ⟨hst, hne⟩⟩
  have hgoes {b : List Mail} {a : List Packet} {x : Option Top}
      (hx : (x.bind fun c => some (maybeCloseSocket c)) = some ctx')
        (h : ∃ c, x = some c ∧ Goes b a c) :
      Goes b a ctx' := by
    obtain ⟨c, rfl, h⟩ := h
    cases hx
    exact h.maybeClose
  have hrests {x : Option Top} (hx : (x.bind fun c => some (maybeCloseSocket c)) = some ctx')
      (h : ∃ c, x = some c ∧ Rests c) : Rests ctx' := by
    obtain ⟨c, rfl, h⟩ := h
    cases hx
    exact h.maybeClose
  cases hstate : ctx.state <;> simp only [Timed.handleTimeout, hstate, bind_eq_bind] at hs
  case select =>
    exact .inl ⟨rfl, hgoes hs (startSelection_goes h.flagged.fresh (hun hstate)
      (hleft (.inl hstate)))⟩
  case pingSent =>
    exact .inr (.inl ⟨.inl rfl, hgoes hs ((h.of_sent hstate).handlePingTimeout
      (hleft (.inr hstate)))⟩)
  case pingWait =>
    refine .inr (.inl ⟨.inr rfl, hgoes hs
      ((h.of_wait hstate).sendPingRequest (.inr rfl) fun hsends hlast => ?_)⟩)
    exact absurd ⟨hsends, hlast, .inl hstate⟩ hskip
  case pollSent =>
    obtain ⟨sv, hsv⟩ := hp.current (by rw [hstate]; rintro ⟨⟩) (by rw [hstate]; rintro ⟨⟩)
    exact .inr (.inr ⟨by decide, hrests hs (h.flagged.handlePollTimeout hsv env)⟩)
  case pollWait =>
    obtain ⟨sv, hsv⟩ := hp.current (by rw [hstate]; rintro ⟨⟩) (by rw [hstate]; rintro ⟨⟩)
    exact .inr (.inr ⟨by decide, hrests hs (h.flagged.sendPollRequest hsv env)⟩)
  case idle =>
    exact .inr (.inr ⟨by decide, hrests hs
      ⟨ctx, rfl, h.flagged, by rw [hstate]; exact ⟨by rintro ⟨⟩, by rintro ⟨⟩⟩⟩⟩)

end

/-- Where nobody is asked nothing is made of an answer. -/
theorem handlePacket_of_not_asking (hno : ¬Unasked ctx p)
    (hst : ctx.state ≠ .pingSent ∧ ctx.state ≠ .pollSent) :
    handlePacket env ctx p = some { ctx with failures := 0 } := by
  have hr : ¬(p.stratum = 0 ∨ p.li = 3) := fun hr => hno ⟨hr, hst⟩
  rw [handlePacket, if_neg fun h => hr (.inl h), if_neg fun h => hr (.inr h)]
  cases hstate : ctx.state with
  | pingSent => exact absurd hstate hst.1
  | pollSent => exact absurd hstate hst.2
  | idle => rfl
  | select => rfl
  | pingWait => rfl
  | pollWait => rfl

/-- What answers a ping is accepted. -/
theorem Answers.accepts (h : Answers env ctx p) (hcur : Cur ctx) : Accepts ctx p := by
  obtain ⟨-, hrecv, hvalid, -⟩ := h
  cases hc : ctx.current with
  | none =>
    rw [recvPacket_of_none hc] at hrecv
    cases hrecv
  | some i =>
    obtain ⟨sv, hsv⟩ := hcur.current hc
    rw [recvPacket_of_some hsv] at hrecv
    obtain ⟨hsrc, hlen⟩ := of_decide_eq_true (some.inj hrecv)
    exact ⟨sv, hsv, hsrc, hlen, hvalid⟩

lemma answersOf_of_not (h : ¬Answers env ctx p) : answersOf ctx (env, .packet p) = [] := if_neg h

/-- **A packet** goes on with a pass, or has nothing to do with one. -/
theorem Stands.checkPacket (h : Stands before answers ctx) (hp : Placed ctx)
    (hs : checkPacket env ctx p = some ctx') :
    Goes before (answersOf ctx (env, .packet p) ++ answers) ctx' ∨
    (ctx.state ≠ .pingSent ∧ ctx.state ≠ .pingWait ∧ (ctx.state = .select → ctx'.state = .select)) ∧
      Rests ctx' := by
  by_cases ha : Accepts ctx p
  · rw [checkPacket_of_accepts env ha] at hs
    obtain ⟨c, hc, rfl⟩ := map_eq_some_iff.mp hs
    obtain ⟨sv, hsv, -⟩ := ha
    have hsv' : current (accept ctx p) = some sv := hsv
    have hno : ¬Unasked (accept ctx p) p :=
      fun hu => nomatch (handlePacket_unasked env hsv' hu).symm.trans hc
    -- in the other states only the counter is reset
    have hother (hst : ctx.state ≠ .pingSent ∧ ctx.state ≠ .pollSent) :
      { accept ctx p with failures := 0 } = c :=
      some.inj ((handlePacket_of_not_asking hno hst).symm.trans hc)
    by_cases hsent : ctx.state = .pingSent
    · have hway : Underway before answers (accept ctx p) none :=
        ⟨(h.of_sent hsent).turn, (h.of_sent hsent).covered.cons _⟩
      obtain ⟨c', hc', hgoes⟩ := @Underway.handlePacket env (accept ctx p) before answers
        (answersOf ctx (env, .packet p) ++ answers) p hway hsent fun hne => by
          by_cases hans : Answers env ctx p
          · exact .inr hans.2.2.2
          · rw [answersOf_of_not hans] at hne
            exact .inl hne
      cases hc.symm.trans hc'
      exact .inl hgoes.maybeClose
    by_cases hpoll : ctx.state = .pollSent
    · obtain ⟨c', hc', hrests⟩ := @Flagged.handlePacket
        (accept ctx p) sv h.flagged hp.cur hsv hpoll env p
      cases hc.symm.trans hc'
      rw [hpoll]
      exact .inr ⟨⟨nofun, nofun, nofun⟩, hrests.maybeClose⟩
    rw [← hother ⟨hsent, hpoll⟩]
    by_cases hwait : ctx.state = .pingWait
    · rw [answersOf_of_not fun hans => hsent hans.1]
      exact .inl (Goes.maybeClose (.wait hwait
        ⟨(h.of_wait hwait).turn, (h.of_wait hwait).covered.cons _⟩))
    · exact .inr ⟨⟨hsent, hwait, fun hst => (maybeCloseSocket_state _).trans hst⟩,
        Rests.maybeClose ⟨h.flagged, hsent, hwait⟩⟩
  · rw [checkPacket_of_not env hp.cur ha] at hs
    cases hs
    rw [answersOf_of_not fun hans => ha (hans.accepts hp.cur)]
    cases h with
    | rests h => exact .inr ⟨⟨h.state.1, h.state.2, id⟩, h⟩
    | sent hstate h => exact .inl (.sent hstate h)
    | wait hstate h => exact .inl (.wait hstate h)

lemma Placed.handleTimeout (h : Placed ctx) (hs : handleTimeout env ctx = some ctx') :
    Placed ctx' := by
  by_cases hidle : ctx.state = .idle
  · simp only [Timed.handleTimeout, hidle, bind_eq_bind, bind_some] at hs
    exact some.inj hs ▸ h.maybeClose
  · obtain ⟨c, hc, hleft, -⟩ := handleTimeout_spec env h hidle
    exact mem_unique hc hs ▸ hleft.placed.maybeClose

/-- **What a turn of the loop leaves**, and that the right server is chosen. -/
structure Steps (w : Pass) (e : Env × Event) (w' : Pass) : Prop where
  placed : Placed w'.ctx
  stands : Stands w'.before w'.answers w'.ctx
  right : Completes w e w' → Right w'.before w'.answers w'.ctx

variable {w w' : Pass} {e : Env × Event}

lemma Steps.of_goes (hp : Placed w'.ctx) (h : Goes w'.before w'.answers w'.ctx) : Steps w e w' :=
  ⟨hp, h.stands, fun hc => h.right hc.2.2⟩

lemma Steps.of_stands (hp : Placed w'.ctx) (h : Stands w'.before w'.answers w'.ctx)
    (hno : ¬Completes w e w') : Steps w e w' :=
  ⟨hp, h, fun hc => absurd hc hno⟩

/-- **A wait that is over.** -/
theorem Steps.timeout {ev : Event} {sec nsec : ℤ} {timer : Timer} (hp : Placed w.ctx)
    (h : Stands w.before w.answers w.ctx) (hask : Asking w (env, ev)) (hexp : Expires w.ctx ev)
    (hnone : answersOf w.ctx (env, ev) = [])
    (hs : handleTimeout env { w.ctx with alarmSec := sec, alarmNsec := nsec, tistate := timer } =
      some ctx') :
    Steps w (env, ev) (if Begins w.ctx ev then ⟨ctx', w.ctx.log, []⟩
      else ⟨ctx', w.before, answersOf w.ctx (env, ev) ++ w.answers⟩) := by
  have hp' : Placed { w.ctx with alarmSec := sec, alarmNsec := nsec, tistate := timer } :=
    ⟨hp.cur, hp.has, hp.idle⟩
  have hplaced := hp'.handleTimeout hs
  rw [hnone]
  rcases (h.alarm sec nsec timer).handleTimeout hp' (fun hst => hask.unflagged ⟨hst, hexp⟩)
    (hask.skips hexp) hs
    with ⟨hst, hgoes⟩ | ⟨hst, hgoes⟩ | ⟨hst, hrests⟩
  · rw [if_pos ⟨hst, hexp⟩]
    exact .of_goes hplaced hgoes
  · rw [if_neg fun hb => hst.elim (fun hsent => nomatch hb.1.symm.trans hsent) fun hwait =>
      nomatch hb.1.symm.trans hwait]
    exact .of_goes hplaced hgoes
  · rw [if_neg fun hb => hst (.inl hb.1)]
    exact .of_stands hplaced (.rests hrests) fun hc => hst hc.1

/-- **A turn of the loop** leaves what it finds, and if it ends a pass, the right server is
chosen. -/
theorem Stands.step (h : Stands w.before w.answers w.ctx) (hp : Placed w.ctx) (hask : Asking w e)
    (hs : w.step e = some w') : Steps w e w' := by
  obtain ⟨env, ev⟩ := e
  obtain ⟨ctx', hrun, rfl⟩ := map_eq_some_iff.mp hs
  rw [handle] at hrun
  obtain ⟨-, hrun⟩ := ite_none_left_eq_some.mp hrun
  obtain ⟨sec, nsec, hwaited⟩ := waited_eq env w.ctx
  simp only [hwaited] at hrun
  have hwait := h.alarm sec nsec w.ctx.tistate
  have hpw : Placed { w.ctx with alarmSec := sec, alarmNsec := nsec } := ⟨hp.cur, hp.has, hp.idle⟩
  cases ev with
  | packet p =>
    have hplaced : Placed ctx' := by
      rcases checkPacket_spec env hpw p with ⟨-, -, hnone⟩ | ⟨-, c, hc, hplaced, -⟩
      · cases hnone.symm.trans hrun
      · exact mem_unique hc hrun ▸ hplaced
    rw [if_neg fun hb => hb.2]
    rcases hwait.checkPacket hpw hrun with hgoes | ⟨⟨hsent, hpw', hsel⟩, hrests⟩
    · exact .of_goes hplaced hgoes
    · refine .of_stands hplaced (.rests hrests) ?_
      rintro ⟨hst, -, hover⟩
      rcases hst with hst | hst | hst
      · rcases hover with hst' | hst' <;> cases (hsel hst).symm.trans hst'
      · exact hsent hst
      · exact hpw' hst
  | command cmd =>
    obtain ⟨c, hc, hobeyed⟩ := dispatchCmd_spec env hpw cmd
    cases hc.symm.trans hrun
    rw [if_neg fun hb => hb.2]
    exact .of_stands hobeyed.placed (hwait.dispatchCmd hpw hrun) fun hc => hc.2.1 cmd rfl
  | timeout => exact .timeout hp h hask trivial rfl hrun
  | signal =>
    rw [handleEvent] at hrun
    split_ifs at hrun with harmed
    · cases hrun
      rw [if_neg fun hb => harmed hb.2]
      refine .of_stands hpw hwait ?_
      rintro ⟨hst, -, hover⟩
      rcases hst with hst | hst | hst <;> rcases hover with hst' | hst' <;> cases hst.symm.trans
        hst'
    · exact .timeout hp h hask (not_not.mp harmed) rfl hrun

end

/-- **The right server is chosen**, of all that there are: in every run in which no server is left
out of a pass that begins, and none is passed over because packets cannot be sent, whenever the
servers have been looked at they were all asked, the service is idle only if none has answered, and
otherwise polls the nearest. -/
theorem right_of_fits {w w' : Pass} {e : Env × Event} (h : Reach (· = Pass.init) Pass.step Asking w)
    (hask : Asking w e) (hs : w.step e = some w') (hend : Completes w e w') :
    Right w'.before w'.answers w'.ctx := by
  have hinv : Placed w.ctx ∧ Stands w.before w.answers w.ctx := by
    refine @Reach.invariant Pass _ _ _ _ (fun w => Placed w.ctx ∧ Stands w.before w.answers w.ctx)
      ?_ ?_ w h
    · rintro w rfl
      refine ⟨Top.placed_init.1, .rests ⟨⟨fun i sv hi hset => ?_, nofun⟩, nofun, nofun⟩⟩
      obtain rfl := eq_of_mem_replicate (mem_of_getElem? hi)
      exact nomatch hset
    · intro w e w' hi hask hs
      have hstep := hi.2.step hi.1 hask hs
      exact ⟨hstep.placed, hstep.stands⟩
  exact (hinv.2.step hinv.1 hask hs).right hend

/-! ### A run -/

/-- The first of two servers answers, and the second is asked two times. -/
def askSecondTwice : List (Env × Event) := firstAnswers ++ [(fine 7, .timeout), (fine 8, .timeout)]

/-- The second one has not answered, and the first one is polled. -/
theorem right_first : ∃ w w' : Pass, w.step (fine 9, .timeout) = some w' ∧
    w'.ctx.state = .pollWait ∧
    w'.ctx.current = some 0 ∧ w'.answers.length = 1 ∧ Right w'.before w'.answers w'.ctx := by
  let run := askSecondTwice.foldlM (fun w e => if Asking w e then w.step e else none) Pass.init
  have hsome : run.isSome = true := by decide +kernel
  have hlast : run.all (fun w => decide (Asking w (fine 9, .timeout) ∧ w.ctx.state = .pingSent) &&
      (w.step (fine 9, .timeout)).any fun w' =>
        decide (w'.ctx.state = .pollWait ∧ w'.ctx.current = some 0 ∧ w'.answers.length = 1)) =
          true := by
    decide +kernel
  obtain ⟨w, hw⟩ := isSome_iff_exists.mp hsome
  rw [hw, all_some, Bool.and_eq_true] at hlast
  obtain ⟨hask, hsent⟩ := of_decide_eq_true hlast.1
  obtain ⟨w', hs, hpoll⟩ := (any_eq_true _ _).mp hlast.2
  obtain ⟨hend, hcurrent, hone⟩ := of_decide_eq_true hpoll
  exact ⟨w, w', hs, hend, hcurrent, hone,
    right_of_fits (Reach.foldlM (.start rfl) hw) hask hs ⟨.inr (.inl hsent), nofun, .inr hend⟩⟩

/-- A server is added and asked two times, and when it has not answered, the service is started
again. -/
def askTwiceAndRetry : List (Env × Event) :=
  [(fine 5, .command (.server [some ([10, 0, 0, 1], 123)])), (fine 5, .timeout), (fine 6, .timeout),
    (fine 7, .timeout), (fine 8, .command .retry)]

/-- **A server that has not answered is not asked again** after `cmd_retry`, although nothing has
failed: the service is idle at once. -/
theorem not_right : ¬∀ w e w', Reach (· = Pass.init) Pass.step (fun w e => Possible w.ctx e.2) w →
    Possible w.ctx e.2 → w.step e = some w' → Completes w e w' →
      Right w'.before w'.answers w'.ctx := by
  intro hall
  let run := askTwiceAndRetry.foldlM (fun w e => if Possible w.ctx e.2 then w.step e else none)
    Pass.init
  have hsome : run.isSome = true := by decide +kernel
  have hlast : run.all (fun w => decide (waitTimeout w.ctx = true ∧ w.ctx.state = .select) &&
      (w.step (fine 9, .timeout)).any fun w' => decide (w'.ctx.state = .idle) &&
        (w'.ctx.servs.any fun sv => decide (Usable sv ∧ sv.hasRtt = false)) &&
          w'.ctx.log.length == w'.before.length) = true := by
    decide +kernel
  obtain ⟨w, hw⟩ := isSome_iff_exists.mp hsome
  rw [hw, all_some, Bool.and_eq_true] at hlast
  obtain ⟨hwait, hselect⟩ := of_decide_eq_true hlast.1
  obtain ⟨w', hs, hlast⟩ := (any_eq_true _ _).mp hlast.2
  simp only [Bool.and_eq_true, beq_iff_eq, decide_eq_true_eq, List.any_eq_true] at hlast
  obtain ⟨⟨hidle, sv, hmem, husable, hrtt⟩, hlen⟩ := hlast
  have hright := hall w (fine 9, .timeout) w' (Reach.foldlM (.start rfl) hw) hwait hs
    ⟨.inl hselect, nofun, .inl hidle⟩
  -- nothing was sent at all
  obtain ⟨recent, stamp, hlog, hsent⟩ := hright.asked sv hmem husable hrtt
  rw [hlog, List.length_append] at hlen
  obtain rfl := List.eq_nil_of_length_eq_zero (Nat.add_eq_right.mp hlen)
  cases hsent

end Minibase.Timed
