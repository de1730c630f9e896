import Minibase.Timed.Daemon

/-!
# What the time service keeps

Between events the process is in order (`Timed.Placed`): the current server is one that is
there, there is one whenever a server is asked or waited for, and none in `TS_IDLE`. Every function
that ends a handler leaves it so, and it leaves a wait to be ended (`Timed.Waiting`) if the
timer can be set.

What is not kept is that a packet only comes in when one was asked for: the mark is cleared to a
number like any other, and `cmd_retry` leaves it and the socket as they are, so a kiss-of-death
packet may come where `drop_server` gives up. **There is no other way to make the process quit**
(`Timed.handle_spec`), and in a run without one **it always waits for something** (`Timed.waits`).
-/

namespace Minibase.Timed

open List Option

/-! ### What holds between events -/

/-- The current server is one that is there. -/
def Cur (ctx : Top) : Prop := ∀ i, ctx.current = some i → ∃ sv, ctx.servs[i]? = some sv ∧
    sv.set = true

/-- **The process is in order.** -/
structure Placed (ctx : Top) : Prop where
  cur : Cur ctx
  has : ctx.state ≠ .idle → ctx.state ≠ .select → ctx.current ≠ none
  idle : ctx.state = .idle → ctx.current = none

/-- **There is a wait to be ended.** -/
structure Waiting (ctx : Top) : Prop where
  pending : ctx.state ≠ .idle → ctx.tistate = .armed ∨ 0 ≤ ctx.alarmNsec
  armed : ctx.tistate = .armed → ctx.state = .pollWait

/-- The process's own system calls succeed. -/
def Succeeds (env : Env) : Prop :=
  env.socket = true ∧ env.sendto = true ∧ env.timerCreate = true ∧ env.timerSettime = true
deriving Decidable

/-- What a function that ends a handler leaves. -/
structure Ended (env : Env) (ctx ctx' : Top) : Prop where
  placed : Placed ctx'
  waiting : Succeeds env → Waiting ctx'
  reference : ctx'.reference = ctx.reference
  log : ctx'.log = ctx.log

/-- What a function inside of a handler leaves alone. -/
structure Kept (ctx ctx' : Top) : Prop where
  ntpfd : ctx'.ntpfd = ctx.ntpfd
  state : ctx'.state = ctx.state
  tistate : ctx'.tistate = ctx.tistate
  alarmNsec : ctx'.alarmNsec = ctx.alarmNsec
  failures : ctx'.failures = ctx.failures
  reference : ctx'.reference = ctx.reference
  log : ctx'.log = ctx.log

lemma Ended.of_kept {env : Env} {ctx ctx' ctx'' : Top} (hk : Kept ctx ctx')
    (h : Ended env ctx' ctx'') : Ended env ctx ctx'' :=
  ⟨h.placed, h.waiting, h.reference.trans hk.reference, h.log.trans hk.log⟩

section

variable {env : Env} {ctx ctx' : Top}

lemma current_eq_some {sv : Serv} :
    current ctx = some sv ↔ ∃ i, ctx.current = some i ∧ ctx.servs[i]? = some sv ∧
      sv.set = true := by
  rw [current]
  constructor
  · intro h
    obtain ⟨i, hi, h⟩ := bind_eq_some_iff.mp h
    obtain ⟨sv', hsv, h⟩ := bind_eq_some_iff.mp h
    obtain ⟨hset, heq⟩ := ite_none_right_eq_some.mp h
    cases heq
    exact ⟨i, hi, hsv, hset⟩
  · rintro ⟨i, hi, hsv, hset⟩
    simp only [hi, hsv, bind_eq_bind, bind_some, hset, if_true]

variable {i : ℕ}

/-- **`current` does not quit** if there is a current server. -/
theorem Cur.current (h : Cur ctx) (hi : ctx.current = some i) : ∃ sv, current ctx = some sv := by
  obtain ⟨sv, hsv, hset⟩ := h i hi
  exact ⟨sv, current_eq_some.mpr ⟨i, hi, hsv, hset⟩⟩

/-- A change of a server that leaves it there leaves the current one there. -/
theorem Cur.modify (h : Cur ctx) (hcur : ctx'.current = ctx.current) {j : ℕ} {f : Serv → Serv}
    (hf : ∀ sv, (f sv).set = sv.set) (hservs : ctx'.servs = ctx.servs.modify j f) : Cur ctx' := by
  intro i hi
  obtain ⟨sv, hsv, hset⟩ := h i (hcur ▸ hi)
  rw [hservs, getElem?_modify, hsv, Option.map_eq_map, map_some]
  by_cases hij : j = i
  · exact ⟨f sv, by rw [if_pos hij], (hf sv).trans hset⟩
  · exact ⟨sv, by rw [if_neg hij], hset⟩

lemma Cur.congr (h : Cur ctx) (hcur : ctx'.current = ctx.current)
    (hservs : ctx'.servs = ctx.servs) : Cur ctx' := by
  rw [Cur, hcur, hservs]
  exact h

/-! ### Waiting -/

@[simp] lemma setTimed_state (st : State) (sec : ℕ) : (setTimed env ctx st sec).state = st := by
  simp only [setTimed, startPollTimer, clearPollTimer]
  split_ifs <;> rfl

@[simp] lemma setTimed_servs (st : State) (sec : ℕ) :
    (setTimed env ctx st sec).servs = ctx.servs := by
  simp only [setTimed, startPollTimer, clearPollTimer]
  split_ifs <;> rfl

@[simp] lemma setTimed_current (st : State) (sec : ℕ) :
    (setTimed env ctx st sec).current = ctx.current := by
  simp only [setTimed, startPollTimer, clearPollTimer]
  split_ifs <;> rfl

@[simp] lemma setTimed_ntpfd (st : State) (sec : ℕ) :
    (setTimed env ctx st sec).ntpfd = ctx.ntpfd := by
  simp only [setTimed, startPollTimer, clearPollTimer]
  split_ifs <;> rfl

@[simp] lemma setTimed_reference (st : State) (sec : ℕ) :
    (setTimed env ctx st sec).reference = ctx.reference := by
  simp only [setTimed, startPollTimer, clearPollTimer]
  split_ifs <;> rfl

@[simp] lemma setTimed_log (st : State) (sec : ℕ) : (setTimed env ctx st sec).log = ctx.log := by
  simp only [setTimed, startPollTimer, clearPollTimer]
  split_ifs <;> rfl

/-- **A state that is set with a time is waited in.** -/
theorem setTimed_waiting (henv : Succeeds env) (st : State) (sec : ℕ) : Waiting
    (setTimed env ctx st sec) := by
  obtain ⟨-, -, hcreate, hset⟩ := henv
  by_cases hlong : st = .pollWait ∧ sec > 5 * 60
  · refine ⟨fun _ => .inl ?_, fun _ => by rw [setTimed_state, hlong.1]⟩
    rw [setTimed, if_pos hlong]
    simp [startPollTimer, hcreate, hset]
  · have htimer : (setTimed env ctx st sec).tistate ≠ .armed := by
      rw [setTimed, if_neg hlong]
      simp only [clearPollTimer]
      split_ifs with h
      · exact h
      · exact nofun
    have halarm : (setTimed env ctx st sec).alarmNsec = 0 := by
      rw [setTimed, if_neg hlong]
    exact ⟨fun _ => .inr (Int.le_of_eq halarm.symm), fun h => absurd h htimer⟩

lemma setTimed_ended (st : State) (hcur : Cur ctx) (hidle : st ≠ .idle)
    (hhas : st ≠ .select → ctx.current ≠ none) (sec : ℕ) : Ended env ctx
    (setTimed env ctx st sec) := by
  refine ⟨⟨hcur.congr (setTimed_current ..) (setTimed_servs ..), ?_, ?_⟩,
    fun henv => setTimed_waiting henv st sec,
    setTimed_reference .., setTimed_log ..⟩
  · rw [setTimed_state, setTimed_current]
    exact fun _ => hhas
  · rw [setTimed_state]
    exact fun h => absurd h hidle

lemma stopService_ended (env : Env) (ctx : Top) : Ended env ctx (stopService ctx) :=
  ⟨⟨fun _ h => (nomatch (show (none : Option ℕ) = some _ from h)), fun h => absurd rfl h,
    fun _ => rfl⟩,
    fun _ => ⟨fun h => absurd rfl h, fun h => (nomatch (show Timer.none = .armed from h))⟩, rfl,
      rfl⟩

/-! ### Choosing a server -/

lemma findUnpinged_spec (h : findUnpinged ctx = some i) :
    ∃ sv, ctx.servs[i]? = some sv ∧ sv.set = true := by
  obtain ⟨hlt, hsv, -⟩ := findIdx?_eq_some_iff_getElem.mp h
  rw [Bool.and_eq_true] at hsv
  exact ⟨_, getElem?_eq_getElem hlt, hsv.1⟩

lemma findNextBest_spec (h : findNextBest ctx = some i) :
    ∃ sv, ctx.servs[i]? = some sv ∧ sv.set = true := by
  rw [findNextBest] at h
  -- the best one so far is among the servers, from the start of the loop to its end
  refine foldlRecOn (motive := fun best => ∀ i, best = some i → ∃ sv, ctx.servs[i]? = some sv ∧
    sv.set = true)
    (range ctx.servs.length) _ ?_ (fun best hbest j _ i hi => ?_) i h
  · exact fun _ h => nomatch h
  split at hi
  · exact hbest i hi
  · rename_i sv hsv
    split at hi
    · exact hbest i hi
    · rename_i hset
      have hj : ∃ sv, ctx.servs[j]? = some sv ∧ sv.set = true := by
        refine ⟨sv, hsv, ?_⟩
        simp only [Bool.not_eq_true', Bool.not_eq_false, Bool.and_eq_true] at hset
        exact hset.1.1.1
      split at hi
      · cases hi
        exact hj
      · split at hi
        · exact hbest i hi
        · cases hi
          exact hj

/-- The servers once one more is selected. -/
def pinged (ctx : Top) : List Serv :=
  match findUnpinged ctx with
  | none => ctx.servs
  | some i => ctx.servs.modify i fun sv => { sv with ping := true }

/-- **A server is selected**, if there is one left. -/
theorem selectUnpinged_spec (ctx : Top) :
    ∃ ctx', selectUnpinged ctx = some ctx' ∧ Cur ctx' ∧ ctx'.current = findUnpinged ctx ∧
      ctx'.servs = pinged ctx ∧ Kept ctx ctx' := by
  rw [selectUnpinged, pinged]
  cases hfind : findUnpinged ctx with
  | none => exact ⟨_, rfl, nofun, rfl, rfl, rfl, rfl, rfl, rfl, rfl, rfl, rfl⟩
  | some i =>
    have hcur : Cur { ctx with current := some i } := by
      rintro _ ⟨⟩
      exact findUnpinged_spec hfind
    obtain ⟨sv, hsv⟩ := hcur.current rfl
    simp only [hsv, bind_eq_bind, bind_some]
    refine ⟨_, rfl, ?_, rfl, rfl, rfl, rfl, rfl, rfl, rfl, rfl, rfl⟩
    exact @Cur.modify _ _ hcur rfl i (fun sv => { sv with ping := true }) (fun _ => rfl) rfl

/-- The interval is all that is changed. -/
theorem increaseInterval_eq (ctx : Top) : ∃ n,
    increaseInterval ctx = { ctx with interval := n } := by
  rw [increaseInterval]
  split_ifs
  · exact ⟨1024, rfl⟩
  · exact ⟨ctx.interval * 2, rfl⟩
  · exact ⟨ctx.interval, rfl⟩

lemma decreaseInterval_eq (ctx : Top) : ∃ n, decreaseInterval ctx = { ctx with interval := n } := by
  rw [decreaseInterval]
  split_ifs
  · exact ⟨1024, rfl⟩
  · exact ⟨ctx.interval / 2, rfl⟩
  · exact ⟨ctx.interval, rfl⟩

/-- Whichever way the interval is changed. -/
theorem changeInterval_eq (p q : Prop) [Decidable p] [Decidable q] (ctx : Top) :
    ∃ n, (if p then resetInterval ctx else if q then decreaseInterval ctx else increaseInterval
      ctx) =
      { ctx with interval := n } := by
  split_ifs
  · exact ⟨1024, rfl⟩
  · exact decreaseInterval_eq ctx
  · exact increaseInterval_eq ctx

lemma increaseInterval_kept (ctx : Top) :
    Kept ctx (increaseInterval ctx) ∧ (increaseInterval ctx).current = ctx.current ∧
      (increaseInterval ctx).servs = ctx.servs := by
  obtain ⟨n, hn⟩ := increaseInterval_eq ctx
  rw [hn]
  exact ⟨⟨rfl, rfl, rfl, rfl, rfl, rfl, rfl⟩, rfl, rfl⟩

/-- The clock is told, unless the offset is too small. -/
theorem considerOffset_eq (ctx : Top) (dt : Int64) :
    considerOffset ctx dt = increaseInterval ctx ∨
      ∃ n tmx, considerOffset ctx dt =
        { ctx with
          syncdt := dt, synctime := ctx.polltime, interval := n, clock := tmx :: ctx.clock } := by
  by_cases had : (if dt < 0 then -dt else dt) < 4194304
  · exact .inl (if_pos had)
  · obtain ⟨n, hn⟩ := changeInterval_eq ((if dt < 0 then -dt else dt) ≥ -2147483648)
      ((if dt < 0 then -dt else dt) ≥ 536870912) { ctx with syncdt := dt, synctime := ctx.polltime }
    exact .inr ⟨n, _, (if_neg had).trans (congrArg (fun c : Top => { c with
      clock := (if (if dt < 0 then -dt else dt) ≥ 2147483648 then requestClockStep dt
        else requestClockSlew dt c.interval) :: c.clock }) hn)⟩

lemma considerOffset_kept (ctx : Top) (dt : Int64) :
    Kept ctx (considerOffset ctx dt) ∧ (considerOffset ctx dt).current = ctx.current ∧
      (considerOffset ctx dt).servs = ctx.servs := by
  rcases considerOffset_eq ctx dt with heq | ⟨n, tmx, heq⟩
  · rw [heq]
    exact increaseInterval_kept ctx
  · rw [heq]
    exact ⟨⟨rfl, rfl, rfl, rfl, rfl, rfl, rfl⟩, rfl, rfl⟩

/-- **The clock is told**, or not, and the servers stay as they are. -/
theorem considerSynching_spec {sv : Serv} (h : current ctx = some sv) :
    ∃ ctx', considerSynching ctx = some ctx' ∧ Kept ctx ctx' ∧ ctx'.current = ctx.current ∧
      ctx'.servs = ctx.servs := by
  simp only [considerSynching, h, bind_eq_bind, bind_some]
  split_ifs
  · exact ⟨_, rfl, considerOffset_kept ..⟩
  · exact ⟨_, rfl, considerOffset_kept ..⟩
  · exact ⟨_, rfl, increaseInterval_kept ctx⟩

/-- What is left when the nearest server is chosen. -/
structure Chosen (ctx ctx' : Top) : Prop where
  servs : ctx'.servs = ctx.servs
  current : ctx'.current = findNextBest ctx
  state : ctx'.state = .idle ∧ findNextBest ctx = none ∨ ctx'.state = .pollWait

lemma Chosen.rests (h : Chosen ctx ctx') : ctx'.state = .idle ∨ ctx'.state = .pollWait :=
    h.state.imp_left And.left

/-- **A pass that is over** ends in a wait, or in nothing. -/
theorem pingPassComplete_spec (env : Env) (ctx : Top) :
    ∃ ctx', pingPassComplete env ctx = some ctx' ∧ Ended env ctx ctx' ∧ Chosen ctx ctx' := by
  have hfinish {c : Top} (h : Ended env ctx c) : Ended env ctx
    { c with bestidx := none, bestrtt := 0 } :=
    ⟨⟨h.placed.cur, h.placed.has, h.placed.idle⟩,
      fun henv => ⟨(h.waiting henv).pending, (h.waiting henv).armed⟩,
      h.reference, h.log⟩
  simp only [pingPassComplete, bind_eq_bind]
  cases hbest : findNextBest ctx with
  | none =>
    exact ⟨_, rfl, hfinish ((stopService_ended env _).of_kept ⟨rfl, rfl, rfl, rfl, rfl, rfl, rfl⟩),
      rfl, hbest.symm, .inl ⟨rfl, hbest⟩⟩
  | some i =>
    have hcur : ∀ c : Top, c.current = some i → c.servs = ctx.servs → Cur c := by
      intro c hc hs j hj
      rw [hs]
      exact findNextBest_spec (hbest.trans (hc.symm.trans hj))
    split_ifs with h1 h2
    · cases h1
    · obtain ⟨sv, hsv⟩ := (hcur { ctx with current := some i, lastrtt := ctx.bestrtt } rfl
        rfl).current rfl
      obtain ⟨c, hc, hkept, hcurr, hservs⟩ := considerSynching_spec hsv
      simp only [hc, bind_some]
      refine ⟨_, rfl, hfinish (.of_kept ⟨hkept.ntpfd, hkept.state, hkept.tistate, hkept.alarmNsec,
        hkept.failures, hkept.reference, hkept.log⟩
          (setTimed_ended .pollWait (hcur c hcurr hservs) nofun (fun _ => ?_) _)),
        (setTimed_servs ..).trans hservs, (setTimed_current ..).trans (hcurr.trans hbest.symm),
        .inr (setTimed_state ..)⟩
      rw [hcurr]
      exact nofun
    · have hquick := hcur { ctx with current := some i, polltime := 0, lastrtt := 0xFFFFFFFF } rfl
        rfl
      have hended := @setTimed_ended env _ .pollWait hquick nofun (fun _ => nofun) 2
      exact ⟨_, rfl, hfinish ⟨hended.placed, hended.waiting, hended.reference, hended.log⟩,
        setTimed_servs .., (setTimed_current ..).trans hbest.symm, .inr (setTimed_state ..)⟩

/-- **The next server is pinged**, or the pass is over. -/
theorem pingNextServer_spec (env : Env) (ctx : Top) :
    ∃ ctx', pingNextServer env ctx = some ctx' ∧ Ended env ctx ctx' ∧
      ((ctx'.state = .idle ∨ ctx'.state = .pollWait) ∨
        ctx'.state = .pingWait ∧ findUnpinged ctx ≠ none) := by
  obtain ⟨c, hc, hcur, hcurrent, -, hkept⟩ := selectUnpinged_spec ctx
  simp only [pingNextServer, hc, bind_eq_bind, bind_some]
  cases hsome : c.current with
  | none =>
    obtain ⟨ctx', h1, h2, h3⟩ := pingPassComplete_spec env c
    exact ⟨ctx', h1, .of_kept hkept h2, .inl h3.rests⟩
  | some i =>
    refine ⟨_, rfl, .of_kept hkept (setTimed_ended .pingWait hcur nofun (fun _ => ?_) _),
      .inr ⟨setTimed_state .., ?_⟩⟩
    · rw [hsome]
      exact nofun
    · rw [← hcurrent, hsome]
      exact nofun

/-- **Another server takes over**, or none does. -/
theorem switchToBackup_ended (env : Env) (ctx : Top) :
    Ended env ctx (switchToBackup env ctx) ∧ Chosen ctx (switchToBackup env ctx) := by
  rw [switchToBackup, selectNextBest]
  cases hbest : findNextBest ctx with
  | none =>
    have h := stopService_ended env { ctx with current := none }
    exact ⟨⟨h.placed, h.waiting, h.reference, h.log⟩, rfl, hbest.symm, .inl ⟨rfl, hbest⟩⟩
  | some i =>
    have hcur : Cur { ctx with current := some i } := by
      rintro _ ⟨⟩
      exact findNextBest_spec hbest
    have h := @setTimed_ended env _ .pollWait hcur nofun (fun _ => nofun) 10
    simp only [isSome_some, if_true]
    exact ⟨⟨h.placed, h.waiting, h.reference, h.log⟩, setTimed_servs ..,
      (setTimed_current ..).trans hbest.symm,
      .inr (setTimed_state ..)⟩

/-- The current server is marked, and there is none. -/
theorem markCurrent_spec {sv : Serv} (h : current ctx = some sv) (flag : Serv → Serv) :
    ∃ c, markCurrent ctx flag = some c ∧ c.current = none ∧
      (∀ i, ctx.current = some i → c.servs = ctx.servs.modify i flag) ∧ Kept ctx c := by
  obtain ⟨i, hi, -, -⟩ := current_eq_some.mp h
  simp only [markCurrent, h, hi, bind_eq_bind, bind_some]
  refine ⟨_, rfl, rfl, ?_, rfl, rfl, rfl, rfl, rfl, rfl, rfl⟩
  rintro _ ⟨⟩
  rfl

/-- **A server is dropped** while it is asked, and at no other time. -/
theorem dropServer_spec (env : Env) {sv : Serv} (h : current ctx = some sv) (flag : Serv → Serv) :
    (ctx.state = .pingSent ∨ ctx.state = .pollSent) ∧
      (∃ ctx', dropServer env ctx flag = some ctx' ∧ Ended env ctx ctx') ∨
    (ctx.state ≠ .pingSent ∧ ctx.state ≠ .pollSent) ∧ dropServer env ctx flag = none := by
  obtain ⟨c, hc, -, -, hkept⟩ := markCurrent_spec h flag
  simp only [dropServer, hc, bind_eq_bind, bind_some, hkept.state]
  cases ctx.state with
  | pingSent =>
    obtain ⟨ctx', h1, h2, -⟩ := pingNextServer_spec env c
    exact .inl ⟨.inl rfl, ctx', h1, .of_kept hkept h2⟩
  | pollSent => exact .inl ⟨.inr rfl, _, rfl, .of_kept hkept (switchToBackup_ended env c).1⟩
  | idle => exact .inr ⟨⟨nofun, nofun⟩, rfl⟩
  | select => exact .inr ⟨⟨nofun, nofun⟩, rfl⟩
  | pingWait => exact .inr ⟨⟨nofun, nofun⟩, rfl⟩
  | pollWait => exact .inr ⟨⟨nofun, nofun⟩, rfl⟩

/-! ### Packets -/

/-- **An answer to a ping** leads on to the next server. -/
theorem addPingPoint_spec (env : Env) {sv : Serv} (h : current ctx = some sv)
    (hstate : ctx.state = .pingSent) (ref : UInt64) (lo hi : Int64) :
    ∃ ctx', addPingPoint env ctx ref lo hi = some ctx' ∧ Placed ctx' ∧
      (Succeeds env → Waiting ctx → Waiting ctx') ∧ ctx'.reference = ctx.reference ∧
        ctx'.log = ctx.log := by
  obtain ⟨i, hi', -, -⟩ := current_eq_some.mp h
  simp only [addPingPoint, h, hi', bind_eq_bind, bind_some]
  have hkept : Kept ctx (notePing env ctx i ref lo hi) := by
    simp only [notePing]
    split_ifs <;> exact ⟨rfl, rfl, rfl, rfl, rfl, rfl, rfl⟩
  generalize notePing env ctx i ref lo hi = c at hkept ⊢
  obtain ⟨c', hc', hcur', -, -, hkept'⟩ := selectUnpinged_spec c
  simp only [hc', bind_some]
  cases hsome : c'.current with
  | none =>
    obtain ⟨ctx', h1, h2, -⟩ := pingPassComplete_spec env c'
    exact ⟨ctx', h1, h2.placed, fun henv _ => h2.waiting henv,
      h2.reference.trans (hkept'.reference.trans hkept.reference),
      h2.log.trans (hkept'.log.trans hkept.log)⟩
  | some j =>
    refine ⟨_, rfl, ⟨hcur'.congr hsome.symm rfl, fun _ _ => nofun, nofun⟩,
      fun _ hw => ⟨fun _ => ?_, fun harmed => ?_⟩,
      hkept'.reference.trans hkept.reference, hkept'.log.trans hkept.log⟩
    · have hpending := hw.pending (by rw [hstate]; exact nofun)
      rw [← hkept.tistate, ← hkept'.tistate, ← hkept.alarmNsec, ← hkept'.alarmNsec] at hpending
      exact hpending
    · have harmed' : ctx.tistate = .armed :=
        hkept.tistate.symm.trans (hkept'.tistate.symm.trans harmed)
      exact absurd ((hw.armed harmed').symm.trans hstate) nofun

/-- **An answer to a poll** is followed by a wait. -/
theorem addPollPoint_spec (env : Env) {sv : Serv} (hcur : Cur ctx) (h : current ctx = some sv)
    (ref : UInt64) (lo hi : Int64) :
    ∃ ctx', addPollPoint env ctx ref lo hi = some ctx' ∧ Ended env ctx ctx' ∧
      ctx'.state = .pollWait ∧
      ctx'.current = ctx.current ∧
      ∀ i, ctx.current = some i → ctx'.servs = (notePoll env ctx i ref lo hi).servs := by
  obtain ⟨i, hi', -, -⟩ := current_eq_some.mp h
  simp only [addPollPoint, h, hi', bind_eq_bind, bind_some]
  have hnoted : Cur (notePoll env ctx i ref lo hi) := by
    refine hcur.modify rfl (fun sv => ?_) rfl
    split_ifs <;> rfl
  obtain ⟨sv', hsv'⟩ := hnoted.current hi'
  obtain ⟨c, hc, hkept, hcurrent, hservs⟩ := considerSynching_spec hsv'
  simp only [hc, bind_some]
  have hended := @setTimed_ended env c .pollWait (hnoted.congr hcurrent hservs) nofun
    (fun _ => by rw [hcurrent]; exact fun h => nomatch hi'.symm.trans h) (max c.interval.toNat 1)
  refine ⟨_, rfl, ⟨hended.placed, hended.waiting, hended.reference.trans hkept.reference,
    hended.log.trans hkept.log⟩, setTimed_state .., ?_, ?_⟩
  · rw [setTimed_current, hcurrent]
    exact hi'
  · rintro _ ⟨⟩
    rw [setTimed_servs, hservs]

/-- **An answer is made use of**, if the process asked. -/
theorem addPoint_spec (env : Env) (hp : Placed ctx) {sv : Serv} (h : current ctx = some sv)
    (p : Packet)
    {st : State} (hst : ctx.state = st) :
    ∃ ctx', addPoint env ctx p st = some ctx' ∧ Placed ctx' ∧
      (Succeeds env → Waiting ctx → Waiting ctx') ∧
      ctx'.reference = ctx.reference ∧ ctx'.log = ctx.log := by
  cases st with
  | pingSent => exact addPingPoint_spec env h hst ..
  | pollSent =>
    obtain ⟨ctx', h1, h2, -⟩ := addPollPoint_spec env hp.cur h
      (p.receive + (p.transmit - p.receive) / 2)
      (ctx.sendtime - p.receive).toInt64 (env.now - p.transmit).toInt64
    exact ⟨ctx', h1, h2.placed, fun henv _ => h2.waiting henv, h2.reference, h2.log⟩
  | idle => exact ⟨ctx, rfl, hp, fun _ hw => hw, rfl, rfl⟩
  | select => exact ⟨ctx, rfl, hp, fun _ hw => hw, rfl, rfl⟩
  | pingWait => exact ⟨ctx, rfl, hp, fun _ hw => hw, rfl, rfl⟩
  | pollWait => exact ⟨ctx, rfl, hp, fun _ hw => hw, rfl, rfl⟩

/-- A packet that says not to ask, when no server is asked. -/
def Unasked (ctx : Top) (p : Packet) : Prop :=
  (p.stratum = 0 ∨ p.li = 3) ∧ ctx.state ≠ .pingSent ∧ ctx.state ≠ .pollSent

/-- **A packet is handled**, unless it makes the process drop a server that is not asked. -/
theorem handlePacket_spec (env : Env) (hp : Placed ctx) {sv : Serv} (h : current ctx = some sv)
    {p : Packet}
    (hno : ¬Unasked ctx p) :
    ∃ ctx', handlePacket env ctx p = some ctx' ∧ Placed ctx' ∧
      (Succeeds env → Waiting ctx → Waiting ctx') ∧
      ctx'.reference = ctx.reference ∧ ctx'.log = ctx.log := by
  have hdrop (flag : Serv → Serv) (hr : p.stratum = 0 ∨ p.li = 3) :
      ∃ ctx', dropServer env ctx flag = some ctx' ∧ Placed ctx' ∧
        (Succeeds env → Waiting ctx → Waiting ctx') ∧ ctx'.reference = ctx.reference ∧
          ctx'.log = ctx.log := by
    rcases dropServer_spec env h flag with ⟨-, ctx', h1, h2⟩ | ⟨hstate, -⟩
    · exact ⟨ctx', h1, h2.placed, fun henv _ => h2.waiting henv, h2.reference, h2.log⟩
    · exact absurd ⟨hr, hstate⟩ hno
  rw [handlePacket]
  split_ifs with hkiss hli
  · exact hdrop markKill (.inl hkiss)
  · exact hdrop markFail (.inr hli)
  · obtain ⟨ctx', h1, h2, h3, h4, h5⟩ := @addPoint_spec { ctx with failures := 0 } env
      ⟨hp.cur, hp.has, hp.idle⟩ sv h p ctx.state rfl
    exact ⟨ctx', h1, h2, fun henv hw => h3 henv ⟨hw.pending, hw.armed⟩, h4, h5⟩

/-- **Such a packet makes it quit.** -/
theorem handlePacket_unasked (env : Env) {sv : Serv} (h : current ctx = some sv) {p : Packet}
    (hbad : Unasked ctx p) : handlePacket env ctx p = none := by
  have hdrop (flag : Serv → Serv) : dropServer env ctx flag = none := by
    rcases dropServer_spec env h flag with ⟨hstate, -⟩ | ⟨-, hnone⟩
    · exact absurd hstate (fun h => h.elim hbad.2.1 hbad.2.2)
    · exact hnone
  rw [handlePacket]
  split_ifs with hkiss hli
  · exact hdrop markKill
  · exact hdrop markFail
  · exact absurd hbad.1 (fun h => h.elim hkiss hli)

/-! ### Sending -/

/-- Whether a packet can be sent. -/
def Sends (env : Env) (ctx : Top) : Prop := (ctx.ntpfd || env.socket) = true ∧ env.sendto = true

lemma current_congr (hcurrent : ctx'.current = ctx.current) (hservs : ctx'.servs = ctx.servs) :
    current ctx' = current ctx := by
  rw [current, current, hcurrent, hservs]

/-- **A packet is sent**, and this is the request that is out. -/
theorem sendPacket_of_sends (h : Sends env ctx) {sv : Serv} (hsv : current ctx = some sv) :
    ∃ c, sendPacket env ctx = some (true, c) ∧ c.current = ctx.current ∧ c.servs = ctx.servs ∧
      c.reference = env.now ∧ c.log = .sent (putServerAddress sv) env.now :: ctx.log := by
  simp only [sendPacket, hsv, bind_eq_bind, bind_some, h.1, h.2]
  exact ⟨_, rfl, rfl, rfl, rfl, rfl⟩

lemma sendPacket_of_not (h : ¬Sends env ctx) {sv : Serv} (hsv : current ctx = some sv) :
    ∃ c, sendPacket env ctx = some (false, c) ∧ c.current = ctx.current ∧ c.servs = ctx.servs ∧
      c.failures = ctx.failures ∧ c.reference = ctx.reference ∧ c.log = ctx.log := by
  simp only [sendPacket, hsv, bind_eq_bind, bind_some]
  rw [if_pos]
  · exact ⟨_, rfl, rfl, rfl, rfl, rfl, rfl⟩
  rw [Bool.or_eq_true, Bool.not_eq_true', Bool.not_eq_true']
  by_contra hc
  simp only [not_or, Bool.not_eq_false] at hc
  exact h hc

/-- What a timeout leaves. -/
structure Left (env : Env) (ctx' : Top) : Prop where
  placed : Placed ctx'
  waiting : Succeeds env → Waiting ctx'

lemma Ended.left (h : Ended env ctx ctx') : Left env ctx' := ⟨h.placed, h.waiting⟩

/-- **What a timeout does about the request that is out**: it sends another one, or it does not, and
then either the socket will be closed, or there is no current server, or this is the same one still,
or another one. -/
inductive Outgoing (env : Env) (ctx ctx' : Top) : Prop
  | sent (sv : Serv) (hsv : current ctx' = some sv)
    (hstate : ctx'.state = .pingSent ∨ ctx'.state = .pollSent)
      (hreference : ctx'.reference = env.now)
      (hlog : ctx'.log = .sent (putServerAddress sv) env.now :: ctx.log)
  | rests (hstate : (ctx'.state = .idle ∨ ctx'.state = .pollWait) ∨ ctx'.state = .select ∧
    ctx'.current = none) (hreference : ctx'.reference = ctx.reference) (hlog : ctx'.log = ctx.log)
  | stays (hsends : ¬Sends env ctx) (hstate : ctx'.state = .pingWait)
      (hcurrent : current ctx' = current ctx) (hfailures : ctx.failures < 1)
      (hreference : ctx'.reference = ctx.reference) (hlog : ctx'.log = ctx.log)
  | moves (hsends : ¬Sends env ctx) (hstate : ctx'.state = .pingWait) (hfailures : 1 ≤ ctx.failures)
      (hleft : ctx.servs.findIdx? (fun sv => sv.set && !sv.ping) ≠ none)
      (hreference : ctx'.reference = ctx.reference) (hlog : ctx'.log = ctx.log)

/-- **A ping**, of the current server. -/
theorem sendPingRequest_spec (env : Env) (hcur : Cur ctx) {sv : Serv}
    (hsv : current ctx = some sv) :
    ∃ ctx', sendPingRequest env ctx = some ctx' ∧ Left env ctx' ∧ Outgoing env ctx ctx' := by
  obtain ⟨i, hi, -, -⟩ := current_eq_some.mp hsv
  by_cases hsends : Sends env ctx
  · obtain ⟨c, hc, hcurrent, hservs, hreference, hlog⟩ := sendPacket_of_sends hsends hsv
    simp only [sendPingRequest, hc, bind_eq_bind, bind_some, if_true]
    have hended := @setTimed_ended env c .pingSent (hcur.congr hcurrent hservs) nofun
      (fun _ h => nomatch hi.symm.trans (hcurrent.symm.trans h)) 1
    refine ⟨_, rfl, hended.left, .sent sv ?_ (.inl (setTimed_state ..))
      (hended.reference.trans hreference)
      (hended.log.trans hlog)⟩
    rw [current_congr (setTimed_current ..) (setTimed_servs ..), current_congr hcurrent hservs, hsv]
  · obtain ⟨c, hc, hcurrent, hservs, hfailures, hreference, hlog⟩ := sendPacket_of_not hsends hsv
    simp only [sendPingRequest, hc, bind_eq_bind, bind_some, hfailures]
    by_cases hfirst : ctx.failures < 1
    · rw [if_pos hfirst]
      have hended := @setTimed_ended env { c with failures := ctx.failures + 1 } .pingWait
        (hcur.congr hcurrent hservs) nofun
          (fun _ h => nomatch hi.symm.trans (hcurrent.symm.trans h)) 1
      refine ⟨_, rfl, hended.left, .stays hsends (setTimed_state ..) ?_ hfirst
        (hended.reference.trans hreference) (hended.log.trans hlog)⟩
      rw [current_congr (setTimed_current ..) (setTimed_servs ..)]
      exact current_congr hcurrent hservs
    · rw [if_neg hfirst]
      obtain ⟨ctx', h1, h2, h3⟩ := pingNextServer_spec env c
      refine ⟨ctx', h1, h2.left, ?_⟩
      rcases h3 with hrest | ⟨hstate, hleft⟩
      · exact .rests (.inl hrest) (h2.reference.trans hreference) (h2.log.trans hlog)
      · rw [findUnpinged, hservs] at hleft
        exact .moves hsends hstate (Nat.le_of_not_lt hfirst) hleft (h2.reference.trans hreference)
          (h2.log.trans hlog)

/-! ### Timeouts -/

/-- The next server but one that is to be pinged. -/
def nextUnpinged (ctx : Top) : Option ℕ := findUnpinged { ctx with servs := pinged ctx }

/-- **A packet that cannot be sent** makes the process wait for another server than it last sent one
to. -/
def Strays (ctx : Top) : Prop :=
  (ctx.state = .pingWait ∧ 1 ≤ ctx.failures ∧ findUnpinged ctx ≠ none) ∨
  (ctx.state = .select ∨ ctx.state = .pingSent) ∧
    (ctx.failures < 1 ∧ findUnpinged ctx ≠ none ∨ nextUnpinged ctx ≠ none)

/-- **What a timeout comes to.** -/
inductive Comes (env : Env) (ctx ctx' : Top) : Prop
  | sent (sv : Serv) (hsv : current ctx' = some sv)
    (hstate : ctx'.state = .pingSent ∨ ctx'.state = .pollSent)
      (hreference : ctx'.reference = env.now)
      (hlog : ctx'.log = .sent (putServerAddress sv) env.now :: ctx.log)
  | rests (hstate : (ctx'.state = .idle ∨ ctx'.state = .pollWait) ∨ ctx'.state = .select ∧
    ctx'.current = none) (hreference : ctx'.reference = ctx.reference) (hlog : ctx'.log = ctx.log)
  | stays (hbefore : ctx.state = .pingWait) (hstate : ctx'.state = .pingWait)
      (hcurrent : current ctx' = current ctx)
      (hreference : ctx'.reference = ctx.reference) (hlog : ctx'.log = ctx.log)
  | strays (hsends : ¬Sends env ctx) (hstrays : Strays ctx) (hstate : ctx'.state = .pingWait)
      (hreference : ctx'.reference = ctx.reference) (hlog : ctx'.log = ctx.log)

/-- **A poll**, of the current server. -/
theorem sendPollRequest_spec (env : Env) (hcur : Cur ctx) {sv : Serv}
    (hsv : current ctx = some sv) :
    ∃ ctx', sendPollRequest env ctx = some ctx' ∧ Left env ctx' ∧ Comes env ctx ctx' := by
  obtain ⟨i, hi, -, -⟩ := current_eq_some.mp hsv
  by_cases hsends : Sends env ctx
  · obtain ⟨c, hc, hcurrent, hservs, hreference, hlog⟩ := sendPacket_of_sends hsends hsv
    simp only [sendPollRequest, hc, bind_eq_bind, bind_some, if_true]
    have hended := @setTimed_ended env c .pollSent (hcur.congr hcurrent hservs) nofun
      (fun _ h => nomatch hi.symm.trans (hcurrent.symm.trans h)) 1
    refine ⟨_, rfl, hended.left, .sent sv ?_ (.inr (setTimed_state ..))
      (hended.reference.trans hreference)
      (hended.log.trans hlog)⟩
    rw [current_congr (setTimed_current ..) (setTimed_servs ..), current_congr hcurrent hservs, hsv]
  · obtain ⟨c, hc, hcurrent, hservs, hfailures, hreference, hlog⟩ := sendPacket_of_not hsends hsv
    simp only [sendPollRequest, hc, bind_eq_bind, bind_some, hfailures]
    by_cases hfirst : ctx.failures < 3
    · rw [if_pos hfirst]
      have hended := @setTimed_ended env { c with failures := ctx.failures + 1 } .pollWait
        (hcur.congr hcurrent hservs) nofun
          (fun _ h => nomatch hi.symm.trans (hcurrent.symm.trans h)) 60
      exact ⟨_, rfl, hended.left, .rests (.inl (.inr (setTimed_state ..)))
        (hended.reference.trans hreference) (hended.log.trans hlog)⟩
    · rw [if_neg hfirst]
      have hsvc : current c = some sv := (current_congr hcurrent hservs).trans hsv
      obtain ⟨c', hc', -, -, hkept⟩ := markCurrent_spec hsvc markFail
      obtain ⟨hended, hrest⟩ := switchToBackup_ended env c'
      simp only [hc', bind_some]
      exact ⟨_, rfl, hended.left, .rests (.inl hrest.rests)
        (hended.reference.trans (hkept.reference.trans hreference))
        (hended.log.trans (hkept.log.trans hlog))⟩

/-- **A poll that is not answered** is tried again, or the servers are looked at anew. -/
theorem handlePollTimeout_spec (env : Env) (hcur : Cur ctx) {sv : Serv}
    (hsv : current ctx = some sv) :
    ∃ ctx', handlePollTimeout env ctx = some ctx' ∧ Left env ctx' ∧ Comes env ctx ctx' := by
  obtain ⟨i, hi, -, -⟩ := current_eq_some.mp hsv
  rw [handlePollTimeout]
  by_cases hfirst : ctx.failures < 3
  · rw [if_pos hfirst]
    have hended := @setTimed_ended env { ctx with failures := ctx.failures + 1 } .pollWait hcur
      nofun
      (fun _ h => nomatch hi.symm.trans h) (60 - 1)
    exact ⟨_, rfl, hended.left, .rests (.inl (.inr (setTimed_state ..))) hended.reference
      hended.log⟩
  · rw [if_neg hfirst]
    obtain ⟨c, hc, hnone, -, hkept⟩ := markCurrent_spec hsv markFail
    have hended := @setTimed_ended env c .select (fun i hi => nomatch hnone.symm.trans hi) nofun
      (fun h => absurd rfl h) 1
    simp only [hc, bind_eq_bind, bind_some]
    exact ⟨_, rfl, hended.left, .rests (.inr ⟨setTimed_state .., (setTimed_current ..).trans hnone⟩)
      (hended.reference.trans hkept.reference) (hended.log.trans hkept.log)⟩

lemma Placed.current (hp : Placed ctx) (h1 : ctx.state ≠ .idle) (h2 : ctx.state ≠ .select) :
    ∃ sv, current ctx = some sv := by
  obtain ⟨i, hi⟩ := ne_none_iff_exists'.mp (hp.has h1 h2)
  exact hp.cur.current hi

/-- A ping that is not answered is sent again, or the next server is pinged. -/
theorem handlePingTimeout_spec (env : Env) (hp : Placed ctx) (hstate : ctx.state = .pingSent) :
    ∃ ctx', handlePingTimeout env ctx = some ctx' ∧ Left env ctx' ∧ Comes env ctx ctx' := by
  rw [handlePingTimeout]
  by_cases hfirst : ctx.failures < 1
  · rw [if_pos hfirst]
    obtain ⟨sv, hsv⟩ := hp.current (by rw [hstate]; exact nofun) (by rw [hstate]; exact nofun)
    obtain ⟨ctx', h1, h2, h3⟩ :=
      @sendPingRequest_spec { ctx with failures := ctx.failures + 1 } env hp.cur sv hsv
    refine ⟨ctx', h1, h2, ?_⟩
    cases h3 with
    | sent sv h1 h2 h3 h4 => exact .sent sv h1 h2 h3 h4
    | rests h1 h2 h3 => exact .rests h1 h2 h3
    | stays _ _ _ hlt => exact absurd hlt (by show ¬ctx.failures + 1 < 1; omega)
    | moves h1 h2 _ hleft h3 h4 =>
      exact .strays h1 (.inr ⟨.inr hstate, .inl ⟨hfirst, hleft⟩⟩) h2 h3 h4
  · rw [if_neg hfirst]
    obtain ⟨c, hc, hcur, hcurrent, hservs, hkept⟩ := selectUnpinged_spec ctx
    simp only [hc, bind_eq_bind, bind_some]
    cases hsome : c.current with
    | none =>
      obtain ⟨ctx', h1, h2, h3⟩ := pingPassComplete_spec env c
      exact ⟨ctx', h1, h2.left, .rests (.inl h3.rests) (h2.reference.trans hkept.reference)
        (h2.log.trans hkept.log)⟩
    | some i =>
      obtain ⟨sv, hsv⟩ := hcur.current hsome
      obtain ⟨ctx', h1, h2, h3⟩ := sendPingRequest_spec env hcur hsv
      refine ⟨ctx', h1, h2, ?_⟩
      cases h3 with
      | sent sv h1 h2 h3 h4 => exact .sent sv h1 h2 h3 (h4.trans (by rw [hkept.log]))
      | rests h1 h2 h3 => exact .rests h1 (h2.trans hkept.reference) (h3.trans hkept.log)
      | stays _ _ _ hlt => exact absurd (hkept.failures ▸ hlt) hfirst
      | moves h1 h2 _ hleft h3 h4 =>
        rw [hservs] at hleft
        exact .strays (fun hs => h1 ⟨hkept.ntpfd ▸ hs.1, hs.2⟩) (.inr ⟨.inr hstate, .inr hleft⟩) h2
          (h3.trans hkept.reference) (h4.trans hkept.log)

/-- The servers are looked at anew. -/
theorem startSelection_spec (env : Env) (hstate : ctx.state = .select) :
    ∃ ctx', startSelection env ctx = some ctx' ∧ Left env ctx' ∧ Comes env ctx ctx' := by
  obtain ⟨c, hc, hcur, hcurrent, hservs, hkept⟩ :=
    selectUnpinged_spec { ctx with bestidx := none, bestrtt := 0 }
  simp only [startSelection, hc, bind_eq_bind, bind_some]
  cases hsome : c.current with
  | none =>
    obtain ⟨ctx', h1, h2, h3⟩ := pingPassComplete_spec env c
    exact ⟨ctx', h1, h2.left, .rests (.inl h3.rests) (h2.reference.trans hkept.reference)
      (h2.log.trans hkept.log)⟩
  | some i =>
    have hleft : findUnpinged ctx ≠ none := fun h => nomatch hsome.symm.trans (hcurrent.trans h)
    obtain ⟨sv, hsv⟩ := hcur.current hsome
    obtain ⟨ctx', h1, h2, h3⟩ := sendPingRequest_spec env hcur hsv
    refine ⟨ctx', h1, h2, ?_⟩
    have hsends : ¬Sends env c → ¬Sends env ctx := fun h hs => h ⟨hkept.ntpfd ▸ hs.1, hs.2⟩
    cases h3 with
    | sent sv h1 h2 h3 h4 => exact .sent sv h1 h2 h3 (h4.trans (by rw [hkept.log]))
    | rests h1 h2 h3 => exact .rests h1 (h2.trans hkept.reference) (h3.trans hkept.log)
    | stays h1 h2 _ hlt h3 h4 =>
      exact .strays (hsends h1) (.inr ⟨.inl hstate, .inl ⟨hkept.failures ▸ hlt, hleft⟩⟩) h2
        (h3.trans hkept.reference) (h4.trans hkept.log)
    | moves h1 h2 _ hleft h3 h4 =>
      rw [hservs] at hleft
      exact .strays (hsends h1) (.inr ⟨.inl hstate, .inr hleft⟩) h2 (h3.trans hkept.reference)
        (h4.trans hkept.log)

/-- A function that only asks the current server. -/
theorem Outgoing.comes {ctx' : Top} (h : Outgoing env ctx ctx')
    (hping : ctx'.state = .pingWait → ctx.state = .pingWait) : Comes env ctx ctx' := by
  cases h with
  | sent sv h1 h2 h3 h4 => exact .sent sv h1 h2 h3 h4
  | rests h1 h2 h3 => exact .rests h1 h2 h3
  | stays _ h1 h2 _ h3 h4 => exact .stays (hping h1) h1 h2 h3 h4
  | moves h1 h2 h3 h4 h5 h6 => exact .strays h1 (.inl ⟨hping h2, h3, h4⟩) h2 h5 h6

/-- **A timeout is handled**, and the process never quits because of one. -/
theorem handleTimeout_spec (env : Env) (hp : Placed ctx) (hidle : ctx.state ≠ .idle) :
    ∃ ctx', handleTimeout env ctx = some (maybeCloseSocket ctx') ∧ Left env ctx' ∧
      Comes env ctx ctx' := by
  have hdone {x : Option Top} (heq : handleTimeout env ctx = x.bind fun c =>
    some (maybeCloseSocket c))
      (hx : ∃ ctx', x = some ctx' ∧ Left env ctx' ∧ Comes env ctx ctx') :
      ∃ ctx', handleTimeout env ctx = some (maybeCloseSocket ctx') ∧ Left env ctx' ∧
        Comes env ctx ctx' := by
    obtain ⟨ctx', rfl, h⟩ := hx
    exact ⟨ctx', heq, h⟩
  cases hstate : ctx.state with
  | idle => exact absurd hstate hidle
  | select =>
    exact hdone (by simp only [handleTimeout, hstate, bind_eq_bind])
      (startSelection_spec env hstate)
  | pingSent =>
    exact hdone (by simp only [handleTimeout, hstate, bind_eq_bind])
      (handlePingTimeout_spec env hp hstate)
  | pingWait =>
    obtain ⟨sv, hsv⟩ := hp.current hidle (by rw [hstate]; exact nofun)
    obtain ⟨ctx', h1, h2, h3⟩ := sendPingRequest_spec env hp.cur hsv
    exact hdone (by simp only [handleTimeout, hstate, bind_eq_bind])
      ⟨ctx', h1, h2, h3.comes fun _ => hstate⟩
  | pollSent =>
    obtain ⟨sv, hsv⟩ := hp.current hidle (by rw [hstate]; exact nofun)
    obtain ⟨ctx', h1, h2, h3⟩ := handlePollTimeout_spec env hp.cur hsv
    exact hdone (by simp only [handleTimeout, hstate, bind_eq_bind]) ⟨ctx', h1, h2, h3⟩
  | pollWait =>
    obtain ⟨sv, hsv⟩ := hp.current hidle (by rw [hstate]; exact nofun)
    obtain ⟨ctx', h1, h2, h3⟩ := sendPollRequest_spec env hp.cur hsv
    exact hdone (by simp only [handleTimeout, hstate, bind_eq_bind]) ⟨ctx', h1, h2, h3⟩

/-! ### Closing the socket -/

lemma maybeCloseSocket_cases (ctx : Top) :
    maybeCloseSocket ctx = { ctx with ntpfd := false } ∧
      (ctx.state = .idle ∨ ctx.state = .pollWait) ∨
    maybeCloseSocket ctx = ctx ∧ ctx.state ≠ .idle ∧ ctx.state ≠ .pollWait := by
  rw [maybeCloseSocket]
  split_ifs with h
  · exact .inl ⟨rfl, h⟩
  · exact .inr ⟨rfl, not_or.mp h⟩

lemma Placed.maybeClose (h : Placed ctx) : Placed (maybeCloseSocket ctx) := by
  rcases maybeCloseSocket_cases ctx with ⟨heq, -⟩ | ⟨heq, -⟩ <;> rw [heq]
  · exact ⟨h.cur, h.has, h.idle⟩
  · exact h

lemma Waiting.maybeClose (h : Waiting ctx) : Waiting (maybeCloseSocket ctx) := by
  rcases maybeCloseSocket_cases ctx with ⟨heq, -⟩ | ⟨heq, -⟩ <;> rw [heq]
  · exact ⟨h.pending, h.armed⟩
  · exact h

/-! ### Packets that come in -/

/-- **A packet is accepted**: it comes from the current server, and it answers the request that is
out, or looks so. -/
def Accepts (ctx : Top) (p : Packet) : Prop :=
  ∃ sv, current ctx = some sv ∧ p.src = putServerAddress sv ∧ 48 ≤ p.data.length ∧
    validPacket ctx p = true

lemma recvPacket_of_none (h : ctx.current = none) (p : Packet) : recvPacket ctx p = some false := by
  rw [recvPacket, h]
  rfl

lemma recvPacket_of_some {sv : Serv} (h : current ctx = some sv) (p : Packet) :
    recvPacket ctx p = some (decide (p.src = putServerAddress sv ∧ 48 ≤ p.data.length)) := by
  obtain ⟨i, hi, -⟩ := current_eq_some.mp h
  simp only [recvPacket, hi, h, isNone_some, Bool.false_eq_true, if_false, bind_eq_bind, bind_some]

/-- **A packet that is not accepted** changes nothing. -/
theorem checkPacket_of_not (env : Env) (hcur : Cur ctx) {p : Packet} (h : ¬Accepts ctx p) :
    checkPacket env ctx p = some ctx := by
  cases hc : ctx.current with
  | none =>
    rw [checkPacket, recvPacket_of_none hc]
    rfl
  | some i =>
    obtain ⟨sv, hsv⟩ := hcur.current hc
    rw [checkPacket, recvPacket_of_some hsv, bind_eq_bind, bind_some, if_pos]
    rw [Bool.or_eq_true, Bool.not_eq_true', Bool.not_eq_true']
    by_contra hno
    simp only [not_or, Bool.not_eq_false, decide_eq_true_eq] at hno
    exact h ⟨sv, hsv, hno.1.1, hno.1.2, hno.2⟩

/-- A packet is accepted: the mark is cleared, and the packet is handled. -/
def accept (ctx : Top) (p : Packet) : Top :=
  { ctx with reference := 0, log := .taken p.src p.originate :: ctx.log }

lemma checkPacket_of_accepts (env : Env) {p : Packet} (h : Accepts ctx p) :
    checkPacket env ctx p = (handlePacket env (accept ctx p) p).map maybeCloseSocket := by
  obtain ⟨sv, hsv, hsrc, hlen, hvalid⟩ := h
  rw [checkPacket, recvPacket_of_some hsv, bind_eq_bind, bind_some, hvalid,
    decide_eq_true ⟨hsrc, hlen⟩]
  simp only [Bool.not_true, Bool.or_self, Bool.false_eq_true, if_false, bind_eq_bind]
  rw [map_eq_bind]
  rfl

/-! ### Commands -/

/-- A server that is there keeps its address. -/
def SameServ (sv sv' : Serv) : Prop := sv'.set = sv.set ∧ putServerAddress sv' = putServerAddress sv

/-- What may become of a slot when servers are added. -/
inductive Slot (sv : Serv) : Serv → Prop
  /-- the server that is there is not taken for failed any more -/
  | kept (fail : Bool) (hfail : fail = true → sv.fail = true) : Slot sv { sv with fail := fail }
  /-- a new one takes it, if it is free -/
  | new (ipv6 : Bool) (port : UInt16) (addr : List UInt8) (hfree : sv.set = false) :
      Slot sv { Serv.empty with set := true, ipv6 := ipv6, port := port, addr := addr }

/-- What may become of the slots. -/
def Slots (servs servs' : List Serv) : Prop := ∀ i : ℕ, Option.Rel Slot servs[i]? servs'[i]?

lemma Slot.refl (sv : Serv) : Slot sv sv := .kept sv.fail id

lemma Slot.trans {a b c : Serv} (h : Slot a b) (h' : Slot b c) : Slot a c := by
  cases h with
  | kept fail hfail =>
    cases h' with
    | kept fail' hfail' => exact .kept fail' fun hf => hfail (hfail' hf)
    | new ipv6 port addr hfree => exact .new ipv6 port addr hfree
  | new ipv6 port addr hfree =>
    cases h' with
    | kept fail' hfail' =>
      obtain rfl : fail' = false := Bool.eq_false_iff.mpr fun hf =>
        nomatch (show false = true from hfail' hf)
      exact .new ipv6 port addr hfree
    | new _ _ _ hfree' => exact nomatch (show true = false from hfree')

lemma Slots.refl (servs : List Serv) : Slots servs servs := by
  intro i
  cases servs[i]? with
  | none => exact .none
  | some sv => exact .some (.refl sv)

lemma Slots.trans {l₁ l₂ l₃ : List Serv} (h : Slots l₁ l₂) (h' : Slots l₂ l₃) : Slots l₁ l₃ := by
  intro i
  have hi := h i
  have hi' := h' i
  revert hi hi'
  generalize l₁[i]? = a, l₂[i]? = b, l₃[i]? = c
  rintro (hab | -) hi'
  · obtain hbc | - := hi'
    exact .some (hab.trans hbc)
  · cases hi'
    exact .none

/-- **One server is added**, or is there. -/
theorem checkServer_slots {servs servs' : List Serv} {at_ : SrvAttr}
    (h : checkServer servs at_ = some servs') : Slots servs servs' := by
  obtain - | ⟨ip, port⟩ := at_
  · cases h
  rw [checkServer] at h
  split at h
  · cases h
  split at h
  · cases h
    rename_i j _
    intro i
    rw [getElem?_modify]
    cases servs[i]? with
    | none => exact .none
    | some sv =>
      rw [Option.map_eq_map, map_some]
      split_ifs
      · exact .some (.kept false nofun)
      · exact .some (.refl sv)
  split at h
  · cases h
    exact .refl servs
  · cases h
    rename_i j hgrab
    intro i
    -- the slot that is grabbed was not in use
    obtain ⟨hlt, hfree, -⟩ := findIdx?_eq_some_iff_getElem.mp hgrab
    by_cases hij : j = i
    · subst hij
      rw [getElem?_set_self hlt, getElem?_eq_getElem hlt]
      exact .some (.new _ _ _ (Bool.not_eq_true' _ ▸ hfree))
    · rw [getElem?_set_ne hij]
      exact Slots.refl servs i

lemma addServers_slots (servs : List Serv) (srvs : List SrvAttr) : Slots servs
    (addServers servs srvs).1 := by
  induction srvs generalizing servs with
  | nil => exact .refl servs
  | cons at_ rest ih =>
    rw [addServers]
    cases hc : checkServer servs at_ with
    | none => exact .refl servs
    | some servs' => exact (checkServer_slots hc).trans (ih servs')

/-- **A server that is there stays there** when others are added. -/
theorem Slots.kept {servs servs' : List Serv} (h : Slots servs servs') {sv : Serv}
    (hi : servs[i]? = some sv) (hset : sv.set = true) :
    ∃ fail, servs'[i]? = some { sv with fail := fail } ∧ (fail = true → sv.fail = true) := by
  have hrel := h i
  rw [hi] at hrel
  generalize servs'[i]? = o at hrel ⊢
  obtain hslot | - := hrel
  cases hslot with
  | kept fail hfail => exact ⟨fail, rfl, hfail⟩
  | new _ _ _ hfree => exact nomatch hset.symm.trans hfree

lemma getElem?_wipeFailed (h : ctx.current = some i) : (wipeFailed ctx)[i]? = ctx.servs[i]? := by
  rw [wipeFailed, getElem?_mapIdx]
  cases ctx.servs[i]? with
  | none => rfl
  | some sv => exact congrArg some (if_neg fun hc => hc.1 h)

/-- What a command leaves. -/
structure Obeyed (env : Env) (ctx ctx' : Top) : Prop where
  placed : Placed ctx'
  waiting : Succeeds env → Waiting ctx → Waiting ctx'
  ntpfd : ctx'.ntpfd = ctx.ntpfd
  reference : ctx'.reference = ctx.reference
  log : ctx'.log = ctx.log
  state : ctx'.state = ctx.state ∨ ctx'.state = .select ∨ ctx'.state = .idle
  current : ctx'.state = .idle ∨ ctx'.current = ctx.current ∧
    ∀ sv, current ctx = some sv → ∃ sv', current ctx' = some sv' ∧
      putServerAddress sv' = putServerAddress sv

/-- A command that changes servers, and leaves those that are there with their addresses. -/
theorem obeyed_of_servs (hp : Placed ctx) {servs : List Serv}
    (hs : ∀ i sv, ctx.current = some i → ctx.servs[i]? = some sv → sv.set = true →
      ∃ sv', servs[i]? = some sv' ∧ SameServ sv sv') :
    Obeyed env ctx { ctx with servs := servs } := by
  have hcur : Cur { ctx with servs := servs } := by
    intro i hi
    obtain ⟨sv, h1, h2⟩ := hp.cur i hi
    obtain ⟨sv', h3, h4⟩ := hs i sv hi h1 h2
    exact ⟨sv', h3, h4.1.trans h2⟩
  refine ⟨⟨hcur, hp.has, hp.idle⟩, fun _ hw => ⟨hw.pending, hw.armed⟩, rfl, rfl, rfl, .inl rfl,
    .inr ⟨rfl, fun sv hsv => ?_⟩⟩
  obtain ⟨i, hi, h1, h2⟩ := current_eq_some.mp hsv
  obtain ⟨sv', h3, h4⟩ := hs i sv hi h1 h2
  exact ⟨sv', current_eq_some.mpr ⟨i, hi, h3, h4.1.trans h2⟩, h4.2⟩

/-- A command that in the end starts the selection. -/
theorem Obeyed.select (h : Obeyed env ctx ctx')
    (hidle : ctx'.state = .idle → ctx'.current = ctx.current) :
    Obeyed env ctx (setTimed env ctx' .select 1) := by
  have hended := @setTimed_ended env ctx' .select h.placed.cur nofun (fun hne => absurd rfl hne) 1
  refine ⟨hended.placed, fun henv _ => hended.waiting henv, (setTimed_ntpfd ..).trans h.ntpfd,
    hended.reference.trans h.reference, hended.log.trans h.log, .inr (.inl (setTimed_state ..)),
      .inr ?_⟩
  rw [setTimed_current]
  rcases h.current with hst | ⟨h1, h2⟩
  · refine ⟨hidle hst, fun sv hsv => ?_⟩
    obtain ⟨i, hi, -⟩ := current_eq_some.mp hsv
    have hnone := h.placed.idle hst
    rw [hidle hst, hi] at hnone
    cases hnone
  · refine ⟨h1, fun sv hsv => ?_⟩
    obtain ⟨sv', h3, h4⟩ := h2 sv hsv
    exact ⟨sv', (current_congr (setTimed_current ..) (setTimed_servs ..)).trans h3, h4⟩

/-- **A command is obeyed**, and the process never quits because of one. -/
theorem dispatchCmd_spec (env : Env) (hp : Placed ctx) (cmd : Cmd) :
    ∃ ctx', dispatchCmd env ctx cmd = some ctx' ∧ Obeyed env ctx ctx' := by
  have hself : Obeyed env ctx ctx :=
    ⟨hp, fun _ hw => hw, rfl, rfl, rfl, .inl rfl, .inr ⟨rfl, fun sv hsv => ⟨sv, hsv, rfl⟩⟩⟩
  cases cmd with
  | status =>
    refine ⟨ctx, ?_, hself⟩
    rw [dispatchCmd, cmdStatus]
    split_ifs with h
    · obtain ⟨i, hi⟩ := isSome_iff_exists.mp h.2
      obtain ⟨sv, hsv⟩ := hp.cur.current hi
      rw [hsv]
      rfl
    · rfl
  | server srvs =>
    refine ⟨_, rfl, ?_⟩
    have hservs := @obeyed_of_servs env ctx hp
      (addServers (wipeFailed ctx) srvs).1 fun i sv hi h1 h2 => by
      obtain ⟨fail, h3, -⟩ := (addServers_slots (wipeFailed ctx) srvs).kept
        ((getElem?_wipeFailed hi).trans h1) h2
      exact ⟨_, h3, rfl, rfl⟩
    rw [cmdServer]
    generalize addServers (wipeFailed ctx) srvs = out at hservs ⊢
    obtain ⟨servs, ok⟩ := out
    cases ok
    · exact hservs
    · simp only
      split_ifs
      · exact hservs.select fun _ => rfl
      · exact hservs
  | srlist => exact ⟨ctx, rfl, hself⟩
  | retry =>
    refine ⟨_, rfl, ?_⟩
    rw [cmdRetry]
    split_ifs
    · refine (@obeyed_of_servs env ctx hp _ fun i sv _ h1 _ => ?_).select fun _ => rfl
      rw [getElem?_map, h1]
      refine ⟨_, rfl, ?_⟩
      dsimp only
      split_ifs <;> exact ⟨rfl, rfl⟩
    · exact hself
  | reset =>
    have hended := stopService_ended env { ctx with servs := replicate NSERVS Serv.empty }
    exact ⟨_, rfl, hended.placed, fun henv _ => hended.waiting henv, rfl, hended.reference,
      hended.log,
      .inr (.inr rfl), .inl rfl⟩
  | force =>
    refine ⟨_, rfl, ?_⟩
    rw [cmdForce]
    split_ifs with hst
    · have hhas : ctx.current ≠ none := hp.has (by rw [hst]; exact nofun) (by rw [hst]; exact nofun)
      have hended := @setTimed_ended env ctx .pollWait hp.cur nofun (fun _ => hhas) 1
      refine ⟨hended.placed, fun henv _ => hended.waiting henv, setTimed_ntpfd .., hended.reference,
        hended.log,
        .inl ((setTimed_state ..).trans hst.symm),
          .inr ⟨setTimed_current .., fun sv hsv => ⟨sv, ?_, rfl⟩⟩⟩
      rw [current_congr (setTimed_current ..) (setTimed_servs ..), hsv]
    · exact hself

/-! ### The loop -/

/-- What is left of a wait is a wait. -/
theorem waited_waiting (env : Env) (hw : Waiting ctx) : Waiting (waited env ctx) := by
  rw [waited]
  split_ifs with h
  · exact ⟨fun _ => .inr (Int.natCast_nonneg _), hw.armed⟩
  · exact hw

lemma waited_eq (env : Env) (ctx : Top) : ∃ sec nsec,
    waited env ctx = { ctx with alarmSec := sec, alarmNsec := nsec } := by
  rw [waited]
  split_ifs
  · exact ⟨_, _, rfl⟩
  · exact ⟨ctx.alarmSec, ctx.alarmNsec, rfl⟩

/-- A packet that comes in is accepted or not, and quits or not. -/
theorem checkPacket_spec (env : Env) (hp : Placed ctx) (p : Packet) :
    (Accepts ctx p ∧ Unasked ctx p ∧ checkPacket env ctx p = none) ∨
    ¬(Accepts ctx p ∧ Unasked ctx p) ∧ ∃ ctx', checkPacket env ctx p = some ctx' ∧ Placed ctx' ∧
      (Succeeds env → Waiting ctx → Waiting ctx') := by
  by_cases ha : Accepts ctx p
  · obtain ⟨sv, hsv, -⟩ := id ha
    have hsv' : current (accept ctx p) = some sv := hsv
    rw [checkPacket_of_accepts env ha]
    by_cases hu : Unasked ctx p
    · refine .inl ⟨ha, hu, ?_⟩
      rw [handlePacket_unasked env hsv' hu]
      rfl
    · obtain ⟨ctx', h1, h2, h3, -, -⟩ := @handlePacket_spec (accept ctx p) env
        ⟨hp.cur, hp.has, hp.idle⟩ sv hsv' p hu
      refine .inr ⟨fun h => hu h.2, _, by rw [h1]; rfl, h2.maybeClose, fun henv hw => ?_⟩
      exact (h3 henv ⟨hw.pending, hw.armed⟩).maybeClose
  · exact .inr ⟨fun h => ha h.1, ctx, checkPacket_of_not env hp.cur ha, hp, fun _ hw => hw⟩

/-- **The process quits for one reason only**: it drops a server that is not asked. -/
theorem handle_spec (env : Env) (hp : Placed ctx) (hw : Waiting ctx) {ev : Event}
    (hev : Possible ctx ev) :
    (∃ p, ev = .packet p ∧ Accepts ctx p ∧ Unasked ctx p) ∧ handle ctx (env, ev) = none ∨
    (∀ p, ev = .packet p → ¬(Accepts ctx p ∧ Unasked ctx p)) ∧
      ∃ ctx', handle ctx (env, ev) = some ctx' ∧ Placed ctx' ∧ (Succeeds env → Waiting ctx') := by
  have hvalid : ¬(waitTimeout ctx = true ∧ ctx.alarmNsec < 0) := by
    rintro ⟨h1, h2⟩
    obtain ⟨h3, h4⟩ := of_decide_eq_true h1
    exact (hw.pending h3).elim h4 fun h => absurd h2 (Int.not_lt.mpr h)
  rw [handle, if_neg hvalid]
  have hww := waited_waiting env hw
  obtain ⟨sec, nsec, hwaited⟩ := waited_eq env ctx
  rw [hwaited] at hww ⊢
  have hpw : Placed { ctx with alarmSec := sec, alarmNsec := nsec } := ⟨hp.cur, hp.has, hp.idle⟩
  have htimeout (c : Top) (hpc : Placed c) (hidle : c.state ≠ .idle) :
      ∃ ctx', handleTimeout env c = some ctx' ∧ Placed ctx' ∧ (Succeeds env → Waiting ctx') := by
    obtain ⟨ctx', h1, h2, -⟩ := handleTimeout_spec env hpc hidle
    exact ⟨_, h1, h2.placed.maybeClose, fun henv => (h2.waiting henv).maybeClose⟩
  cases ev with
  | packet p =>
    rcases checkPacket_spec env hpw p with ⟨h1, h2, h3⟩ | ⟨h1, ctx', h2, h3, h4⟩
    · exact .inl ⟨⟨p, rfl, h1, h2⟩, h3⟩
    · refine .inr ⟨?_, ctx', h2, h3, fun henv => h4 henv hww⟩
      rintro _ ⟨⟩
      exact h1
  | command cmd =>
    obtain ⟨ctx', h1, h2⟩ := dispatchCmd_spec env hpw cmd
    exact .inr ⟨nofun, ctx', h1, h2.placed, fun henv => h2.waiting henv hww⟩
  | timeout =>
    exact .inr ⟨nofun, htimeout _ ⟨hp.cur, hp.has, hp.idle⟩ (of_decide_eq_true hev).1⟩
  | signal =>
    refine .inr ⟨nofun, ?_⟩
    rw [handleEvent]
    split_ifs with harmed
    · exact ⟨_, rfl, hpw, fun _ => hww⟩
    · refine htimeout _ ⟨hp.cur, hp.has, hp.idle⟩ fun hidle => ?_
      exact nomatch (hw.armed (not_not.mp harmed)).symm.trans hidle

end

/-! ### Runs -/

/-- **What may happen**: what can, with system calls that succeed, and no packet that makes the
process drop a server that is not asked. -/
def Fits (ctx : Top) (e : Env × Event) : Prop :=
  Succeeds e.1 ∧ Possible ctx e.2 ∧ ∀ p, e.2 = .packet p → ¬(Accepts ctx p ∧ Unasked ctx p)

lemma Top.placed_init : Placed Top.init ∧ Waiting Top.init :=
  ⟨⟨nofun, fun h => absurd rfl h, fun _ => rfl⟩, ⟨fun h => absurd rfl h, nofun⟩⟩

/-- **The process never quits and always waits for something**, in every run without a packet that
makes it drop a server that is not asked; and where there is such a packet, it does quit. -/
theorem waits {ctx : Top} (h : Reach (· = Top.init) handle Fits ctx) :
    (ctx.state ≠ .idle → ctx.tistate = .armed ∨ 0 ≤ ctx.alarmNsec) ∧
    ∀ env ev, Succeeds env → Possible ctx ev →
      (handle ctx (env, ev) ≠ none ↔ ∀ p, ev = .packet p → ¬(Accepts ctx p ∧ Unasked ctx p)) := by
  have hinv : Placed ctx ∧ Waiting ctx := by
    refine h.invariant (fun s hs => hs ▸ Top.placed_init) ?_
    rintro s ⟨env, ev⟩ s' ⟨hp, hw⟩ ⟨henv, hev, hno⟩ hs
    rcases handle_spec env hp hw hev with ⟨⟨p, h1, h2⟩, -⟩ | ⟨-, ctx', h1, h2, h3⟩
    · exact absurd h2 (hno p h1)
    · cases h1.symm.trans hs
      exact ⟨h2, h3 henv⟩
  refine ⟨hinv.2.pending, fun env ev _ hev => ?_⟩
  rcases handle_spec env hinv.1 hinv.2 hev with ⟨⟨p, h1, h2⟩, hnone⟩ | ⟨hno, ctx', h1, -⟩
  · exact ⟨fun hne => absurd hnone hne, fun hall => absurd h2 (hall p h1)⟩
  · exact ⟨fun _ => hno, fun _ hnone => nomatch h1.symm.trans hnone⟩

/-! ### A run -/

/-- A system where all goes well, at a time. -/
def fine (now : UInt64) : Env := ⟨now, 0, true, true, true, true, 1, 0⟩

lemma succeeds_fine (now : UInt64) : Succeeds (fine now) := ⟨rfl, rfl, rfl, rfl⟩

/-- A packet from `10.0.0.n`, of a stratum. -/
def answer (n stratum : UInt8) (originate : List UInt8) : Packet :=
  ⟨[2, 0, 0, 123, 10, 0, 0, n] ++ replicate 8 0,
    [36, stratum, 0, 0] ++ replicate 20 0 ++ originate ++ replicate 16 0⟩

/-- Two servers are added. -/
def addTwo : Event := .command (.server [some ([10, 0, 0, 1], 123), some ([10, 0, 0, 2], 123)])

/-- The first of two servers is asked. -/
def askFirst : List (Env × Event) := [(fine 5, addTwo), (fine 5, .timeout)]

theorem waits_asked : ∃ ctx, askFirst.foldlM handle Top.init = some ctx ∧
    (ctx.state ≠ .idle → ctx.tistate = .armed ∨ 0 ≤ ctx.alarmNsec) ∧ handle ctx
    (fine 6, .timeout) ≠ none := by
  have h1 : (handle Top.init (fine 5, addTwo)).isSome = true := by decide +kernel
  obtain ⟨c, hc⟩ := isSome_iff_exists.mp h1
  have hwait : (handle Top.init (fine 5, addTwo)).any waitTimeout = true := by decide +kernel
  rw [hc] at hwait
  have h2 : (askFirst.foldlM handle Top.init).isSome = true := by decide +kernel
  obtain ⟨c', hc'⟩ := isSome_iff_exists.mp h2
  have hwait' : (askFirst.foldlM handle Top.init).any waitTimeout = true := by decide +kernel
  rw [hc'] at hwait'
  refine ⟨c', hc', ?_⟩
  have hask : handle c (fine 5, .timeout) = some c' := by
    simpa [askFirst, hc] using hc'
  have hfits1 : Fits Top.init (fine 5, addTwo) := ⟨succeeds_fine 5, trivial, nofun⟩
  have hfits2 : Fits c (fine 5, .timeout) := ⟨succeeds_fine 5, hwait, nofun⟩
  have h := waits (.next (.next (.start rfl) hfits1 hc) hfits2 hask)
  exact ⟨h.1, (h.2 (fine 6) .timeout (succeeds_fine 6) hwait').mpr nofun⟩

/-- The first of two servers answers. -/
def firstAnswers : List (Env × Event) :=
  askFirst ++ [(fine 6, .packet (answer 1 1 [0, 0, 0, 0, 0, 0, 0, 5]))]

/-- The second one is not asked, and sends a packet with nothing in it. -/
def kissOfDeath : Event := .packet (answer 2 0 (replicate 8 0))

/-- **A kiss of death that nobody asked for** makes the process quit. -/
theorem quits : ¬∀ ctx, Reach (· = Top.init) handle (fun c e => Succeeds e.1 ∧ Possible c e.2) ctx →
    ∀ env ev, Succeeds env → Possible ctx ev → handle ctx (env, ev) ≠ none := by
  intro hall
  let run := firstAnswers.foldlM
    (fun c e => if Succeeds e.1 ∧ Possible c e.2 then handle c e else none) Top.init
  have hsome : run.isSome = true := by decide +kernel
  have hlast : run.all (fun c => c.ntpfd && (handle c (fine 7, kissOfDeath)).isNone) = true := by
    decide +kernel
  obtain ⟨ctx, hctx⟩ := isSome_iff_exists.mp hsome
  rw [hctx, all_some, Bool.and_eq_true] at hlast
  exact hall ctx (Reach.foldlM (.start rfl) hctx) (fine 7) kissOfDeath (succeeds_fine 7) hlast.1
    (isNone_iff_eq_none.mp hlast.2)

end Minibase.Timed
