import Minibase.Timed.Sound

/-!
# What the time service believes

A packet is to be taken for an answer if a request is out, it comes from where the request went, and
it has the stamp of the request in it. `valid_packet` and `recv_packet` know the mark and the
current server, which belong together as long as the mark is that of a request sent to this
server (`Timed.Tied`). There are two exceptions: a mark that has been cleared, which a packet with
nothing in it answers as well (`Timed.Blank`), and a packet that cannot be sent to the next server,
so that the mark of the one before stays (`Timed.Strays`). Where neither happens **the service
believes nothing but answers** (`Timed.believes`).
-/

namespace Minibase.Timed

open Option

/-- The request that is out: where it was sent to, and its stamp. -/
def asked : List Mail → Option (List UInt8 × UInt64)
  | .sent dest stamp :: _ => some (dest, stamp)
  | _ => none

/-- **Whatever was taken for an answer is one**, to a request that was out, and the only one to it:
right before it, with nothing sent or taken in between, a request was sent to where it comes from,
with its stamp. -/
def answered : List Mail → Bool
  | [] => true
  | .sent _ _ :: l => answered l
  | .taken src originate :: l => asked l = some (src, originate) && answered l

/-- A packet from the current server with an empty originate field. -/
def Blank (ctx : Top) (p : Packet) : Prop :=
  p.originate = 0 ∧ p.mode = 4 ∧ (p.version = 3 ∨ p.version = 4) ∧ 48 ≤ p.data.length ∧
    ∃ sv, current ctx = some sv ∧ p.src = putServerAddress sv

/-- **What may happen.** When nothing was asked, no packet with an empty originate field comes from
the current server; and while a request is out, no packet to another server cannot be sent. -/
def FitsAsked (ctx : Top) (e : Env × Event) : Prop :=
  Possible ctx e.2 ∧
    match e.2 with
    | .packet p => asked ctx.log = none → ¬Blank ctx p
    | .command _ => True
    | _ => asked ctx.log = none ∨ Sends e.1 ctx ∨ ¬Strays ctx

/-- **The request that is out was sent to the current server.** -/
def Tied (ctx : Top) : Prop :=
  ∀ dest stamp, asked ctx.log = some (dest, stamp) → ∃ sv, current ctx = some sv ∧
    putServerAddress sv = dest

/-- What the process knows of the request that is out. -/
structure Asks (ctx : Top) : Prop where
  placed : Placed ctx
  mark : ctx.reference = (asked ctx.log).elim 0 Prod.snd
  answered : answered ctx.log = true
  /-- in all states in which a packet may come in -/
  tied : (ctx.state = .pingSent ∨ ctx.state = .pingWait ∨ ctx.state = .pollSent ∨
    ctx.state = .select ∧ ctx.ntpfd = true ∧ ctx.current ≠ none) → Tied ctx
  closed : ctx.state = .pollWait → ctx.ntpfd = false

section

variable {env : Env} {ctx ctx' : Top}

lemma tied_of_none (h : asked ctx.log = none) : Tied ctx := fun _ _ h' => nomatch h.symm.trans h'

/-- Closing the socket. -/
theorem Asks.maybeClose (hplaced : Placed ctx)
    (hmark : ctx.reference = (asked ctx.log).elim 0 Prod.snd)
    (hanswered : Timed.answered ctx.log = true)
    (htied : (ctx.state = .pingSent ∨ ctx.state = .pingWait ∨ ctx.state = .pollSent ∨
      ctx.state = .select ∧ ctx.current ≠ none) → Tied ctx) : Asks (maybeCloseSocket ctx) := by
  rcases maybeCloseSocket_cases ctx with ⟨heq, hst⟩ | ⟨heq, h1, h2⟩ <;> rw [heq]
  · refine ⟨⟨hplaced.cur, hplaced.has, hplaced.idle⟩, hmark, hanswered, fun h => htied ?_,
      fun _ => rfl⟩
    exact h.imp_right (Or.imp_right (Or.imp_right fun h => ⟨h.1, h.2.2⟩))
  · refine ⟨hplaced, hmark, hanswered, fun h => htied ?_, fun h => absurd h h2⟩
    exact h.imp_right (Or.imp_right (Or.imp_right fun h => ⟨h.1, h.2.2⟩))

/-- **A packet that is accepted answers the request that is out**, unless it is blank. -/
theorem Asks.accepts (h : Asks ctx) (hopen : ctx.ntpfd = true) {p : Packet}
    (hblank : asked ctx.log = none → ¬Blank ctx p) (ha : Accepts ctx p) :
    asked ctx.log = some (p.src, p.originate) := by
  obtain ⟨sv, hsv, hsrc, hlen, hvalid⟩ := ha
  simp only [validPacket, Bool.and_eq_true, Bool.or_eq_true, decide_eq_true_eq] at hvalid
  obtain ⟨⟨hversion, hmode⟩, horiginate⟩ := hvalid
  have hmark := h.mark
  cases hasked : asked ctx.log with
  | none =>
    rw [hasked] at hmark
    exact absurd ⟨horiginate.trans hmark, hmode, hversion, hlen, sv, hsv, hsrc⟩ (hblank hasked)
  | some r =>
    obtain ⟨dest, stamp⟩ := r
    rw [hasked] at hmark
    obtain ⟨i, hi, -⟩ := current_eq_some.mp hsv
    have hcurrent : ctx.current ≠ none := fun hn => nomatch hi.symm.trans hn
    have htied : Tied ctx := by
      refine h.tied ?_
      -- the socket is open, and there is a current server
      cases hst : ctx.state with
      | idle => exact absurd (h.placed.idle hst) hcurrent
      | select => exact .inr (.inr (.inr ⟨rfl, hopen, hcurrent⟩))
      | pingSent => exact .inl rfl
      | pingWait => exact .inr (.inl rfl)
      | pollSent => exact .inr (.inr (.inl rfl))
      | pollWait => exact nomatch (h.closed hst).symm.trans hopen
    obtain ⟨sv', hsv', hdest⟩ := htied dest stamp hasked
    cases hsv.symm.trans hsv'
    rw [hsrc, hdest, horiginate, hmark]
    rfl

/-- **A packet** is believed only if it is an answer. -/
theorem Asks.checkPacket (h : Asks ctx) (hopen : ctx.ntpfd = true) {p : Packet}
    (hblank : asked ctx.log = none → ¬Blank ctx p) (hs : checkPacket env ctx p = some ctx') :
      Asks ctx' := by
  by_cases ha : Accepts ctx p
  · have hasked := h.accepts hopen hblank ha
    rw [checkPacket_of_accepts env ha] at hs
    obtain ⟨c, hc, rfl⟩ := map_eq_some_iff.mp hs
    obtain ⟨sv, hsv, -⟩ := ha
    have hsv' : current (accept ctx p) = some sv := hsv
    have hno : ¬Unasked (accept ctx p) p :=
      fun hu => nomatch (handlePacket_unasked env hsv' hu).symm.trans hc
    obtain ⟨c', h1, h2, -, h3, h4⟩ :=
      @handlePacket_spec (accept ctx p) env
        ⟨h.placed.cur, h.placed.has, h.placed.idle⟩ sv hsv' p hno
    obtain rfl := Option.mem_unique h1 hc
    have hnone : asked c'.log = none := by
      rw [h4]
      rfl
    refine .maybeClose h2 ?_ ?_ fun _ => tied_of_none hnone
    · rw [h3, hnone]
      rfl
    · rw [h4]
      simp only [accept, Timed.answered, hasked, decide_true, Bool.true_and]
      exact h.answered
  · rw [checkPacket_of_not env h.placed.cur ha] at hs
    exact Option.some.inj hs ▸ h

/-- **A timeout** leaves the request that is out, or puts another one in its place. -/
theorem Asks.handleTimeout (h : Asks ctx)
    (hfits : asked ctx.log = none ∨ Sends env ctx ∨ ¬Strays ctx)
    (hs : handleTimeout env ctx = some ctx') : Asks ctx' := by
  by_cases hidle : ctx.state = .idle
  · have hrun : Timed.handleTimeout env ctx = some (maybeCloseSocket ctx) := by
      simp only [Timed.handleTimeout, hidle, bind_eq_bind, bind_some]
    cases hrun.symm.trans hs
    refine .maybeClose h.placed h.mark h.answered fun hst => ?_
    rw [hidle] at hst
    exact (hst.elim (by rintro ⟨⟩) (Or.rec (by rintro ⟨⟩)
      (Or.rec (by rintro ⟨⟩) fun h => by cases h.1)))
  obtain ⟨c, hc, hleft, hcomes⟩ := handleTimeout_spec env h.placed hidle
  cases hc.symm.trans hs
  have hmark := h.mark
  cases hcomes with
  | sent sv hsv hstate hreference hlog =>
    refine .maybeClose hleft.placed ?_ ?_ fun _ dest stamp hasked => ⟨sv, hsv, ?_⟩
    · rw [hlog, hreference]
      rfl
    · rw [hlog]
      exact h.answered
    · rw [hlog] at hasked
      cases hasked
      rfl
  | rests hstate hreference hlog =>
    refine .maybeClose hleft.placed (by rw [hreference, hlog, hmark])
      (by rw [hlog, h.answered]) fun hst => ?_
    rcases hstate with (hst' | hst') | ⟨hst', hnone⟩
    · rw [hst'] at hst
      exact (hst.elim (by rintro ⟨⟩) (Or.rec (by rintro ⟨⟩)
        (Or.rec (by rintro ⟨⟩) fun h => by cases h.1)))
    · rw [hst'] at hst
      exact (hst.elim (by rintro ⟨⟩) (Or.rec (by rintro ⟨⟩)
        (Or.rec (by rintro ⟨⟩) fun h => by cases h.1)))
    · rw [hst'] at hst
      exact (hst.elim (by rintro ⟨⟩) (Or.rec (by rintro ⟨⟩)
        (Or.rec (by rintro ⟨⟩) fun h => absurd hnone h.2)))
  | stays hbefore hstate hcurrent hreference hlog =>
    refine .maybeClose hleft.placed (by rw [hreference, hlog, hmark]) (by rw [hlog, h.answered])
      fun _ dest stamp hasked => ?_
    rw [hlog] at hasked
    rw [hcurrent]
    exact h.tied (.inr (.inl hbefore)) dest stamp hasked
  | strays hsends hstrays hstate hreference hlog =>
    have hnone : asked ctx.log = none := hfits.resolve_right fun hor => hor.elim hsends (· hstrays)
    exact .maybeClose hleft.placed (by rw [hreference, hlog, hmark]) (by rw [hlog, h.answered])
      fun _ => tied_of_none (by rw [hlog, hnone])

/-- **A command** leaves the request that is out. -/
theorem Asks.obeyed (h : Asks ctx) (ho : Obeyed env ctx ctx') : Asks ctx' := by
  have hkeep (hne : ctx'.state ≠ .idle) (ht : Tied ctx) : Tied ctx' := by
    intro dest stamp hasked
    rw [ho.log] at hasked
    obtain ⟨sv, h1, h2⟩ := ht dest stamp hasked
    obtain ⟨-, hcurrent⟩ := ho.current.resolve_left hne
    obtain ⟨sv', h3, h4⟩ := hcurrent sv h1
    exact ⟨sv', h3, h4.trans h2⟩
  refine ⟨ho.placed, by rw [ho.reference, ho.log, h.mark], by rw [ho.log, h.answered],
    fun hst => ?_, fun hst => ?_⟩
  · have hne : ctx'.state ≠ .idle := by
      intro hidle
      rw [hidle] at hst
      exact (hst.elim nofun (Or.rec nofun (Or.rec nofun fun h => nomatch h.1)))
    refine hkeep hne (h.tied ?_)
    obtain ⟨hcurrent, -⟩ := ho.current.resolve_left hne
    rcases ho.state with hsame | hselect | hidle
    · rw [hsame, ho.ntpfd, hcurrent] at hst
      exact hst
    · rw [hselect, ho.ntpfd, hcurrent] at hst
      have hst' : ctx.ntpfd = true ∧ ctx.current ≠ none :=
        (hst.elim nofun (Or.rec nofun (Or.rec nofun fun h => h.2)))
      cases hwas : ctx.state with
      | idle => exact absurd (h.placed.idle hwas) hst'.2
      | select => exact .inr (.inr (.inr ⟨rfl, hst'⟩))
      | pingSent => exact .inl rfl
      | pingWait => exact .inr (.inl rfl)
      | pollSent => exact .inr (.inr (.inl rfl))
      | pollWait => exact nomatch (h.closed hwas).symm.trans hst'.1
    · exact absurd hidle hne
  · rcases ho.state with hsame | hselect | hidle
    · exact ho.ntpfd.trans (h.closed (hsame.symm.trans hst))
    · exact nomatch hselect.symm.trans hst
    · exact nomatch hidle.symm.trans hst

/-- What the alarm and the timer are does not matter. -/
theorem Asks.alarm (h : Asks ctx) (sec nsec : ℤ) (timer : Timer) :
    Asks { ctx with alarmSec := sec, alarmNsec := nsec, tistate := timer } :=
  ⟨⟨h.placed.cur, h.placed.has, h.placed.idle⟩, h.mark, h.answered, h.tied, h.closed⟩

/-- **An event** leaves it so, if it may happen. -/
theorem Asks.handle (h : Asks ctx) {e : Env × Event} (hfits : FitsAsked ctx e)
    (hs : handle ctx e = some ctx') : Asks ctx' := by
  obtain ⟨env, ev⟩ := e
  rw [Timed.handle] at hs
  obtain ⟨-, hs⟩ := ite_none_left_eq_some.mp hs
  obtain ⟨sec, nsec, hwaited⟩ := waited_eq env ctx
  simp only [hwaited] at hs
  have hwait := h.alarm sec nsec ctx.tistate
  cases ev with
  | packet p => exact hwait.checkPacket hfits.1 hfits.2 hs
  | command cmd =>
    obtain ⟨c, h1, h2⟩ := dispatchCmd_spec env hwait.placed cmd
    cases h1.symm.trans hs
    exact hwait.obeyed h2
  | timeout => exact (h.alarm sec (-1) ctx.tistate).handleTimeout hfits.2 hs
  | signal =>
    rw [handleEvent] at hs
    split_ifs at hs with harmed
    · exact Option.some.inj hs ▸ hwait
    · exact (h.alarm sec nsec .clear).handleTimeout hfits.2 hs

end

/-- **The service believes nothing but answers**, in every run in which no blank packet comes in
when nothing was asked, and no packet to another server fails to be sent while a request is out. -/
theorem believes {ctx : Top} (h : Reach (· = Top.init) handle FitsAsked ctx) :
    answered ctx.log = true ∧
    ∀ env p, FitsAsked ctx (env, .packet p) →
      (Accepts ctx p → asked ctx.log = some (p.src, p.originate)) ∧
      (asked ctx.log = none → ∀ ctx', handle ctx (env, .packet p) = some ctx' →
        ctx' = waited env ctx) := by
  have hasks : Asks ctx := by
    refine h.invariant ?_ fun s e s' hi hfits hs => hi.handle hfits hs
    rintro s rfl
    exact ⟨Top.placed_init.1, rfl, rfl, fun _ => tied_of_none rfl, fun _ => rfl⟩
  refine ⟨hasks.answered, fun env p hfits =>
    ⟨hasks.accepts hfits.1 hfits.2, fun hnone ctx' hs => ?_⟩⟩
  have hno : ¬Accepts ctx p := fun ha => nomatch hnone.symm.trans (hasks.accepts hfits.1 hfits.2 ha)
  rw [handle] at hs
  obtain ⟨-, hs⟩ := ite_none_left_eq_some.mp hs
  obtain ⟨sec, nsec, hwaited⟩ := waited_eq env ctx
  have hcur : Cur (waited env ctx) := by
    rw [hwaited]
    exact hasks.placed.cur
  have hno' : ¬Accepts (waited env ctx) p := by
    rw [hwaited]
    exact hno
  exact (Option.some.inj ((checkPacket_of_not env hcur hno').symm.trans hs)).symm

/-! ### Runs -/

/-- The first of two servers is asked, and what is accepted then is an answer to that. -/
theorem believes_first : ∃ ctx, askFirst.foldlM handle Top.init = some ctx ∧
    ∀ p, Accepts ctx p → asked ctx.log = some (p.src, p.originate) := by
  have h1 : (handle Top.init (fine 5, addTwo)).isSome = true := by decide +kernel
  obtain ⟨c, hc⟩ := isSome_iff_exists.mp h1
  have hnone : (handle Top.init (fine 5, addTwo)).all
    (fun c => waitTimeout c && (asked c.log).isNone) = true := by
    decide +kernel
  rw [hc, all_some, Bool.and_eq_true] at hnone
  have h2 : (askFirst.foldlM handle Top.init).isSome = true := by decide +kernel
  obtain ⟨c', hc'⟩ := isSome_iff_exists.mp h2
  have hopen : (askFirst.foldlM handle Top.init).all (fun c => c.ntpfd && (asked c.log).isSome) =
    true := by
    decide +kernel
  rw [hc', all_some, Bool.and_eq_true] at hopen
  refine ⟨c', hc', fun p => ?_⟩
  have hask : handle c (fine 5, .timeout) = some c' := by
    simpa [askFirst, hc] using hc'
  have hfits1 : FitsAsked Top.init (fine 5, addTwo) := ⟨trivial, trivial⟩
  have hfits2 : FitsAsked c (fine 5, .timeout) := ⟨hnone.1, .inl (isNone_iff_eq_none.mp hnone.2)⟩
  have hfits3 : FitsAsked c' (fine 6, .packet p) :=
    ⟨hopen.1, fun hn => absurd (isSome_iff_ne_none.mp hopen.2) (not_not.mpr hn)⟩
  exact ((believes (.next (.next (.start rfl) hfits1 hc) hfits2 hask)).2 (fine 6) p hfits3).1

/-- The second of two servers answers without being asked. -/
def secondAnswers : List (Env × Event) :=
  firstAnswers ++ [(fine 7, .packet (answer 2 1 (List.replicate 8 0)))]

/-- **A packet with nothing in it is believed**, from a server that was not asked. -/
theorem believes_blank : ¬∀ ctx, Reach (· = Top.init) handle (fun c e => Possible c e.2) ctx →
    answered ctx.log = true := by
  intro hall
  let run := secondAnswers.foldlM (fun c e => if Possible c e.2 then handle c e else none) Top.init
  have hsome : run.isSome = true := by decide +kernel
  have hlast : run.all (fun c => !answered c.log) = true := by decide +kernel
  obtain ⟨ctx, hctx⟩ := isSome_iff_exists.mp hsome
  have hans := hall ctx (Reach.foldlM (.start rfl) hctx)
  rw [hctx, all_some, hans] at hlast
  cases hlast

end Minibase.Timed
