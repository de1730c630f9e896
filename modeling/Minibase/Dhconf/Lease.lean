import Minibase.Dhconf.Client
import Minibase.Lib.Runs

/-!
# The lease law

A lease that has been acknowledged runs from the time it was asked for, and a renewal that is
acknowledged starts a new one. `Dhconf.World` keeps the books of that, and `Dhconf.Lawful` is
what the client has to do about it: run a timer as long as it has a lease, take the interface
down only on a NAK or in the last ten minutes, and neither renew nor keep a lease that is over.

The client keeps no such books. It measures every lease against the time of the first offer,
`timeref`, and by the lease time of the first acknowledgement. So the law holds in the runs in
which the renewals never move the end of the lease and come before its second half is over, and
the lease times are long enough for the client's arithmetic (`Dhconf.World.Sound`,
`Dhconf.lease_law`). A server that extends leases, as servers do, gets the interface taken down
in the middle of the renewed lease, `Dhconf.lease_law_broken`.
-/

namespace Minibase.Dhconf

open Ends

/-! ### The world -/

/-- A period for which an address is granted. -/
structure Lease where
  start : ℕ
  length : ℕ
deriving DecidableEq

/-- The end of a lease. -/
def Lease.stop (l : Lease) : ℕ := l.start + l.length

/-- The client, the clock, and the books: when the timer goes off, when the request that is out was
made, and the lease acknowledged last. -/
structure World where
  client : Client
  alive : Bool
  clock : ℕ
  due : ℕ
  requested : ℕ
  lease : Option Lease
deriving DecidableEq

/-- Something happens, some seconds after the last thing that did. -/
structure Event where
  dt : ℕ
  what : What
  answers : Answers := {}
deriving DecidableEq

/-- The client has an address. -/
def Client.Bound (c : Client) : Prop := c.state = .leased ∨ c.state = .renewing
deriving Decidable

/-- The client as a handler leaves it, dead or alive. -/
def clientOf : Handled → Client
  | .ok c => c
  | .error x => x.client

/-- The process goes on. -/
def survived : Handled → Bool
  | .ok _ => true
  | .error _ => false

namespace World

variable (w : World)

/-- A message of some type from the server, which the client is going to look at. -/
def gets (dg : Dgram) (type : UInt8) : Prop :=
  w.client.rawfd ∧ dg.relevant w.client.xid ∧ w.client.servedBy dg ∧ dg.msgType = some type
deriving Decidable

/-- A DHCPACK the client has been waiting for. -/
def acked : What → Option Dgram
  | .packet dg =>
    if w.gets dg DHCPACK ∧ (w.client.state = .request ∨ w.client.state = .renewing) then some dg
    else none
  | _ => none

/-- The lease time granted; if none is given, as long as before. -/
def granted (dg : Dgram) : ℕ := dg.leaseTime.getD (w.lease.elim 0 Lease.length)

/-- The books after an event. -/
def after (e : Event) (h : Handled) : World where
  client := clientOf h
  alive := survived h
  clock := w.clock + e.dt
  due := if (clientOf h).reset then w.clock + e.dt + (clientOf h).timer else w.due
  requested :=
    if (clientOf h).state ≠ w.client.state ∧
        ((clientOf h).state = .request ∨ (clientOf h).state = .renewing) then w.clock + e.dt
    else w.requested
  lease := (w.acked e.what).elim w.lease fun dg => some ⟨w.requested, w.granted dg⟩

end World

/-- The step of the whole: an event is handled as long as there is a process, and seconds
fit in a signed word of 64 bits. -/
def step (w : World) (e : Event) : Option World :=
  if w.alive ∧ w.clock + e.dt < 2 ^ 63 then
    some (w.after e (handle e.answers (w.clock + e.dt) w.client e.what))
  else none

/-- What `main` has set up before it starts. -/
def zero (xid : ℕ) : Client where
  state := .discover
  count := 0
  rawfd := true
  timer := 0
  timeact := false
  xid := xid
  origref := 0
  timeref := 0
  leaseTime := 0
  renewTime := 0
  srvip := []
  ourip := []
  srvmac := []
  options := []
  log := []

/-- The state `main` enters its loop with. -/
def Boot (w : World) : Prop :=
  ∃ xid a, startDiscover a (zero xid) = .ok w.client ∧ w.alive ∧ w.clock < 2 ^ 63 ∧ w.lease = none

/-! ### The law -/

/-- A timer is running as long as there is a lease to look after. -/
def World.Armed (w : World) : Prop := w.alive → w.client.Bound → w.client.timer ≠ 0

/-- The timer goes off before the lease is over. -/
def World.Timely (w : World) : Prop :=
  w.alive → w.client.Bound → ∃ l, w.lease = some l ∧ w.due ≤ l.stop

/-- What one step has to be like. -/
structure Lawful (w : World) (e : Event) (w' : World) : Prop where
  /-- As long as there is a lease, the timer is running. -/
  armed : w'.Armed
  /-- The interface is taken down on a NAK or with less than ten minutes of the lease left. -/
  takenDown : (∀ sig, e.what ≠ .signal sig) → .deconfigured ∈ w'.client.log →
    (∃ dg, e.what = .packet dg ∧ w.gets dg DHCPNAK) ∨
      ∃ l, w.lease = some l ∧ l.stop < w'.clock + 10 * 60
  /-- A lease that is over is not renewed. -/
  renewed : .sent .renew ∈ w'.client.log → ∃ l, w.lease = some l ∧ w'.clock < l.stop
  /-- Neither is it kept until the timer has been set again, -/
  timely : w'.Timely
  /-- nor by what is done then. -/
  kept : e.what = .alarm ∨ (w.acked e.what).isSome → w'.alive → w'.client.Bound →
    ∃ l, w'.lease = some l ∧ w'.clock < l.stop

/-- What the client's own books are good enough for: a first lease that is two seconds long
at least, and half of which is left; a renewed lease that ends when the first one would, in no less
than half of the time of that; and, with a renewal out, a lease that has a minute left if it ends in
the first ten minutes of the clock. -/
def World.SoundAt (w : World) (now : ℕ) : What → Prop
  | .packet dg =>
    w.gets dg DHCPACK →
      (w.client.state = .request → ∀ lt ∈ dg.leaseTime, 2 ≤ lt ∧ now + lt / 2 ≤ w.requested + lt) ∧
      (w.client.state = .renewing →
        w.requested + w.granted dg = w.client.timeref + w.client.leaseTime ∧
          now + w.client.renewTime ≤ w.client.timeref + w.client.leaseTime)
  | .alarm =>
    w.client.state = .renewing →
      10 * 60 ≤ w.client.timeref + w.client.leaseTime ∨
        now + 60 ≤ w.client.timeref + w.client.leaseTime
  | .child => True
  | .signal _ => True

instance (w : World) (now : ℕ) : ∀ what, Decidable (w.SoundAt now what)
  | .packet _ => inferInstanceAs (Decidable (_ → _))
  | .alarm => inferInstanceAs (Decidable (_ → _))
  | .child => inferInstanceAs (Decidable True)
  | .signal _ => inferInstanceAs (Decidable True)

/-- The steps that the client's own books are good enough for. -/
def World.Sound (w : World) (e : Event) : Prop := w.SoundAt (w.clock + e.dt) e.what
deriving Decidable

/-! ### One step at a time -/

section Spec

variable {a : Answers} {now : ℕ} {c : Client}

lemma setState_eq (st : State) :
    setState c st =
      { c with state := st, count := 0, timer := if c.timeact then 0 else c.timer,
               reset := c.timeact || c.reset, timeact := false } := by
  rcases h : c.timeact <;> simp [setState, setTimerSec, h]

lemma setTimer_eq (sec : ℕ) :
    setTimer c sec =
      { c with timer := sec, reset := true, timeact := true,
               rawfd := if sec < 10 then c.rawfd else false } := by
  by_cases h : sec < 10 <;> simp [setTimer, setTimerSec, closeRawSocket, h]

/-- The client's own books are left alone. -/
def SameBooks (c c' : Client) : Prop :=
  c'.timeref = c.timeref ∧ c'.leaseTime = c.leaseTime ∧ c'.renewTime = c.renewTime

lemma quitUnless_ends {ok : Bool} {msg : String} {Q : Exit → Prop} (hQ : Q ⟨msg, c⟩) :
    Ends (quitUnless c ok msg) (fun c' => c' = c) Q := by
  cases ok
  · exact hQ
  · exact rfl

lemma sendRawPacket_ends (kind : Kind) :
    Ends (sendRawPacket a c kind)
      (fun c' => c' = { c with rawfd := true, log := c.log ++ [.sent kind] })
      fun x => x.client.log = c.log := by
  refine bind (quitUnless_ends rfl) ?_
  rintro _ rfl
  exact rfl

lemma deconfIface_ends :
    Ends (deconfIface a c) (fun c' => c' = c.did .deconfigured) fun x => x.client = c := by
  refine bind (quitUnless_ends rfl) ?_
  rintro _ rfl
  exact rfl

/-- The timer has been set. -/
def Client.SetTo (c : Client) (sec : ℕ) : Prop := c.timer = sec ∧ c.reset = true

/-- A message that is sent leaves the state and the books alone. -/
theorem sendMessage_ends (kind : Kind) :
    Ends (sendMessage a c kind)
      (fun c' => c'.state = c.state ∧ c'.SetTo 1 ∧ c'.log = c.log ++ [.sent kind] ∧ SameBooks c c')
      fun x => x.client.log = c.log := by
  refine (sendRawPacket_ends kind).bind ?_
  rintro _ rfl
  rw [setTimer_eq]
  exact ⟨rfl, ⟨rfl, rfl⟩, rfl, rfl, rfl, rfl⟩

/-- `retry_discover` takes the interface down and starts all over. -/
theorem retryDiscover_ends :
    Ends (retryDiscover a c)
      (fun c' => c'.state = .discover ∧ c'.log = c.log ++ [.deconfigured, .sent .discover])
      fun x => x.client.log = c.log ∨ x.client.log = c.log ++ [.deconfigured] := by
  refine (deconfIface_ends.mono (fun _ h => h) fun x hx => .inl (congrArg Client.log hx)).bind ?_
  rintro _ rfl
  rw [setState_eq]
  refine (sendMessage_ends .discover).mono ?_ fun x hx => .inr hx
  rintro c' ⟨hst, -, hlog, -⟩
  exact ⟨hst, by simpa [Client.did] using hlog⟩

/-- The end of the lease by the client's own books. -/
def Client.stop (c : Client) : ℕ := c.timeref + c.leaseTime

/-- **When it is time to renew**, the client starts all over if the lease is over by its own
books, and sends a renewal if it is not. -/
theorem timeToRenew_ends (hlog : c.log = []) (hfit : c.stop < 2 ^ 64) :
    Ends (timeToRenew a now c) (fun c' =>
        (c.stop ≤ now ∧ c'.state = .discover ∧ .sent .renew ∉ c'.log) ∨
        (now < c.stop ∧ c'.state = .renewing ∧ c'.SetTo 1 ∧ .deconfigured ∉ c'.log ∧
          SameBooks c c'))
      fun x => (c.stop ≤ now ∧ .sent .renew ∉ x.client.log) ∨
        (now < c.stop ∧ .deconfigured ∉ x.client.log) := by
  have hmod : (c.timeref + c.leaseTime) % 2 ^ 64 = c.stop := Nat.mod_eq_of_lt hfit
  rw [timeToRenew, hmod]
  refine ite (fun h => ?_) fun h => ?_
  · refine retryDiscover_ends.mono ?_ ?_
    · rintro c' ⟨hst, hl⟩
      exact .inl ⟨h, hst, by simp [hl, hlog]⟩
    · rintro x (hl | hl) <;> exact .inl ⟨h, by simp [hl, hlog]⟩
  · rw [setState_eq]
    refine (sendMessage_ends .renew).mono ?_ ?_
    · rintro c' ⟨hst, ht, hl, hb⟩
      exact .inr ⟨by omega, hst, ht, by simp [hl, hlog], hb⟩
    · intro x hl
      exact .inr ⟨by omega, by simp [hl, hlog]⟩

/-- **When a renewal stays unanswered**, the client starts all over if there are less than ten
minutes left, unless ten minutes ago is before the beginning of time. -/
theorem renewTimeout_ends (hlog : c.log = []) (hfit : c.stop < 2 ^ 64) (hnow : now < 2 ^ 63) :
    Ends (renewTimeout a now c) (fun c' =>
        (c.stop < now + 10 * 60 ∧ c'.state = .discover ∧ .sent .renew ∉ c'.log) ∨
        ((c.stop < 10 * 60 ∨ now + 10 * 60 ≤ c.stop) ∧ c'.state = .leased ∧ c'.SetTo 60 ∧
          c'.log = [] ∧ SameBooks c c'))
      fun x => c.stop < now + 10 * 60 ∧ .sent .renew ∉ x.client.log := by
  have hstop : c.timeref + c.leaseTime = c.stop := rfl
  rw [renewTimeout, hstop]
  refine ite (fun h => ?_) fun h => ?_
  · have hlate : c.stop < now + 10 * 60 := by omega
    refine retryDiscover_ends.mono ?_ ?_
    · rintro c' ⟨hst, hl⟩
      exact .inl ⟨hlate, hst, by simp [hl, hlog]⟩
    · rintro x (hl | hl) <;> exact ⟨hlate, by simp [hl, hlog]⟩
  · rw [setTimer_eq]
    exact .inr ⟨by omega, rfl, ⟨rfl, rfl⟩, hlog, rfl, rfl, rfl⟩

/-- An offer or the answer to a request does not reach the interface. -/
theorem checkOffer_ends (dg : Dgram) :
    Ends (checkOffer now c dg)
      (fun c' => c' = c ∨ (c'.state = .request ∧ c'.timeref = now ∧ c'.log = c.log))
      fun x => x.client = c := by
  rw [checkOffer]
  refine ite (fun _ => .inl rfl) fun _ => ?_
  split
  · exact rfl
  · rw [setState_eq]
    exact .inr ⟨rfl, rfl, rfl⟩

lemma checkAcknak_ends (dg : Dgram) :
    Ends (checkAcknak c dg)
      (fun c' => (c' = c ∧ ¬(c.servedBy dg ∧ dg.msgType = some DHCPACK)) ∨
        (c.servedBy dg ∧ dg.msgType = some DHCPACK ∧ c'.state = .leased ∧
        dg.leaseTime = some c'.leaseTime ∧ c'.renewTime = c'.leaseTime / 2 ∧
        c'.timeref = c.timeref ∧ c'.log = c.log))
      fun x => x.client.log = c.log := by
  rw [checkAcknak]
  refine ite (fun h => .inl ⟨rfl, fun h' => by simp [h'.1] at h⟩) fun hserved => ?_
  refine ite (fun _ => rfl) fun _ => ?_
  refine ite (fun h => .inl ⟨rfl, fun h' => h h'.2⟩) fun hack => ?_
  rw [setState_eq]
  rcases hlt : dg.leaseTime with _ | lt
  · simp only [storeTimings, hlt]
    exact rfl
  · simp only [storeTimings, hlt]
    exact .inr ⟨by simpa using hserved, not_not.mp hack, rfl, rfl, rfl, rfl, rfl⟩

lemma checkNewack_ends (dg : Dgram) :
    Ends (checkNewack c dg)
      (fun c' => (c' = c ∧ ¬(c.servedBy dg ∧ dg.msgType = some DHCPACK)) ∨
        (c.servedBy dg ∧ dg.msgType = some DHCPACK ∧ c'.state = .leased ∧ c'.log = c.log ∧
          SameBooks c c') ∨
        (c.servedBy dg ∧ dg.msgType = some DHCPNAK ∧ c'.state = .deconf ∧ c'.log = c.log))
      fun _ => False := by
  rw [checkNewack]
  refine ite (fun h => .inl ⟨rfl, fun h' => by simp [h'.1] at h⟩) fun hserved => ?_
  have hs : c.servedBy dg := by simpa using hserved
  refine ite (fun hack => ?_) fun hno => ite (fun hnak => ?_) fun _ =>
    .inl ⟨rfl, fun h => hno h.2⟩
  · rw [setState_eq]
    exact .inr (.inl ⟨hs, hack, rfl, rfl, rfl, rfl, rfl⟩)
  · rw [setState_eq]
    exact .inr (.inr ⟨hs, hnak, rfl, rfl⟩)

/-- The log says nothing of a lease given up or renewed. -/
def Client.Calm (c : Client) : Prop := .deconfigured ∉ c.log ∧ .sent .renew ∉ c.log

lemma leaseObtained_ends (hlog : c.log = []) :
    Ends (leaseObtained a c)
      (fun c' => c'.state = c.state ∧ c'.SetTo c.renewTime ∧ c'.Calm ∧ SameBooks c c')
      fun x => x.client.Calm := by
  rw [leaseObtained, setTimer_eq]
  have hcalm : c.Calm := by simp [Client.Calm, hlog]
  have hdid : (c.did .configured).Calm := by simp [Client.Calm, Client.did, hlog]
  refine bind (quitUnless_ends hcalm) ?_
  rintro _ rfl
  refine bind (quitUnless_ends hcalm) ?_
  rintro _ rfl
  refine (quitUnless_ends hdid).mono ?_ fun _ h => h
  rintro _ rfl
  exact ⟨rfl, ⟨rfl, rfl⟩, hdid, rfl, rfl, rfl⟩

lemma leaseRenewed_ends (hlog : c.log = []) :
    Ends (leaseRenewed a c)
      (fun c' => c'.state = c.state ∧ c'.SetTo c.renewTime ∧ c'.Calm ∧ SameBooks c c')
      fun x => x.client.Calm := by
  rw [leaseRenewed, setTimer_eq]
  have hcalm : c.Calm := by simp [Client.Calm, hlog]
  refine bind (quitUnless_ends hcalm) ?_
  rintro _ rfl
  refine bind (quitUnless_ends hcalm) ?_
  rintro _ rfl
  exact ⟨rfl, ⟨rfl, rfl⟩, by simp [Client.Calm, Client.did, hlog], rfl, rfl, rfl⟩

/-- The signals end the process, without renewing anything. -/
theorem lastSignal_ends (sig : Signal) (hlog : c.log = []) :
    Ends (lastSignal a c sig) (fun _ => False) fun x => .sent .renew ∉ x.client.log := by
  have hdown : ∀ (c : Client) msg, .sent .renew ∉ c.log →
      Ends (do let c ← deconfIface a c; quit c msg) (fun _ => False)
        fun x => .sent .renew ∉ x.client.log := by
    intro c msg hno
    refine (deconfIface_ends.mono (fun _ h => h) fun x hx => by rw [hx]; exact hno).bind ?_
    rintro _ rfl
    show .sent .renew ∉ (c.did .deconfigured).log
    simpa [Client.did] using hno
  cases sig with
  | int =>
    have hrel : Ends (releaseAddress a c) (fun c' => .sent .renew ∉ c'.log)
        fun x => .sent .renew ∉ x.client.log := by
      rw [releaseAddress]
      refine ite (fun _ => by simp [Ends, hlog]) fun _ => ?_
      refine ((sendRawPacket_ends .release).mono (fun _ h => h) ?_).bind ?_
      · intro x hx
        simp [hx, hlog]
      · rintro _ rfl
        rw [setState_eq]
        simp [Ends, pure, Except.pure, hlog]
    exact hrel.bind fun c' hc' => hdown c' _ hc'
  | hup => exact hdown c _ (by simp [hlog])
  | term => simp [lastSignal, quit, Ends, hlog]

end Spec

/-! ### What is kept -/

/-- The client has a lease, and the right idea of when it ends. -/
structure World.Held (w : World) : Prop where
  timer : w.client.timer ≠ 0
  renewTime : w.client.renewTime ≠ 0
  fits : w.client.stop < 2 ^ 64
  due : w.due ≤ w.client.stop
  lease : ∃ l, w.lease = some l ∧ l.stop = w.client.stop

/-- What holds of the books and the client between events. -/
def World.Kept (w : World) : Prop :=
  w.clock < 2 ^ 63 ∧ (w.alive →
    match w.client.state with
    | .discover => True
    | .request => w.requested = w.client.timeref ∧ w.client.timeref < 2 ^ 63
    | .leased | .renewing => w.Held
    | .deconf | .released => False)

variable {w : World}

lemma World.Kept.armed (h : w.Kept) : w.Armed := by
  intro ha hb
  have hk := h.2 ha
  rcases hb with hb | hb <;> rw [hb] at hk <;> exact hk.timer

lemma World.Held.timely (h : w.Held) : w.Timely := by
  obtain ⟨l, hl, hstop⟩ := h.lease
  exact fun _ _ => ⟨l, hl, by rw [hstop]; exact h.due⟩

lemma World.Kept.timely (h : w.Kept) : w.Timely := by
  intro ha hb
  have hk := h.2 ha
  have hheld : w.Held := by
    rcases hb with hb | hb <;> rw [hb] at hk <;> exact hk
  exact hheld.timely ha hb

lemma boot_kept (h : Boot w) : w.Kept := by
  obtain ⟨xid, a, hstart, -, hclock, -⟩ := h
  refine ⟨hclock, fun _ => ?_⟩
  have hst : w.client.state = .discover := by
    have hends := sendMessage_ends (a := a) (c := setState (zero xid) .discover) .discover
    rw [show sendMessage a (setState (zero xid) .discover) .discover = .ok w.client from hstart]
      at hends
    exact hends.1.trans (by rw [setState_eq])
  rw [hst]
  trivial

/-- What a step has to be shown to do. -/
def Fine (w : World) (e : Event) (h : Handled) : Prop :=
  (w.after e h).Kept ∧ Lawful w e (w.after e h)

section Step

variable {w : World} {e : Event} {c' : Client} {x : Exit}

section

variable (hclock : w.clock + e.dt < 2 ^ 63)
include hclock

/-- A process that is gone has nothing to answer for but what it has done. -/
theorem fine_error (hdown : (∀ sig, e.what ≠ .signal sig) → .deconfigured ∈ x.client.log →
      (∃ dg, e.what = .packet dg ∧ w.gets dg DHCPNAK) ∨
        ∃ l, w.lease = some l ∧ l.stop < w.clock + e.dt + 10 * 60)
    (hrenew : .sent .renew ∈ x.client.log →
      ∃ l, w.lease = some l ∧ w.clock + e.dt < l.stop) : Fine w e (.error x) := by
  refine ⟨⟨hclock, (fun h => nomatch h)⟩, (fun h => nomatch h), hdown, hrenew,
    (fun h => nomatch h), ?_⟩
  rintro - ⟨⟩

lemma fine_quit (hx : x.client.Calm) : Fine w e (.error x) :=
  fine_error hclock (fun _ h => absurd h hx.1) fun h => absurd h hx.2

/-- A client without a lease has nothing to answer for either. -/
theorem fine_free (hst : c'.state = .discover ∨ (c'.state = .request ∧
      (w.after e (.ok c')).requested = c'.timeref ∧ c'.timeref < 2 ^ 63))
    (hdown : (∀ sig, e.what ≠ .signal sig) → .deconfigured ∈ c'.log →
      (∃ dg, e.what = .packet dg ∧ w.gets dg DHCPNAK) ∨
        ∃ l, w.lease = some l ∧ l.stop < w.clock + e.dt + 10 * 60)
    (hrenew : .sent .renew ∉ c'.log) : Fine w e (.ok c') := by
  have hfree : ¬(w.after e (.ok c')).client.Bound := by
    show ¬c'.Bound
    rcases hst with h | ⟨h, -⟩ <;> simp [Client.Bound, h]
  refine ⟨⟨hclock, fun _ => ?_⟩, fun _ h => absurd h hfree, hdown, fun h => absurd h hrenew,
    fun _ h => absurd h hfree, fun _ _ h => absurd h hfree⟩
  show match c'.state with
    | .discover => True
    | .request => (w.after e (.ok c')).requested = c'.timeref ∧ c'.timeref < 2 ^ 63
    | .leased | .renewing => (w.after e (.ok c')).Held
    | .deconf | .released => False
  rcases hst with h | ⟨h, hr⟩
  · rw [h]
    trivial
  · rw [h]
    exact hr

/-- A client with a lease has its books in order. -/
theorem fine_bound (hb : c'.Bound) (hheld : (w.after e (.ok c')).Held)
    (hdown : .deconfigured ∉ c'.log)
    (hrenew : .sent .renew ∈ c'.log → ∃ l, w.lease = some l ∧ w.clock + e.dt < l.stop)
    (hkept : e.what = .alarm ∨ (w.acked e.what).isSome → w.clock + e.dt < c'.stop) :
    Fine w e (.ok c') := by
  have hk : (w.after e (.ok c')).Kept := by
    refine ⟨hclock, fun _ => ?_⟩
    show match c'.state with
      | .discover => True
      | .request => (w.after e (.ok c')).requested = c'.timeref ∧ c'.timeref < 2 ^ 63
      | .leased | .renewing => (w.after e (.ok c')).Held
      | .deconf | .released => False
    rcases hb with h | h <;> rw [h] <;> exact hheld
  refine ⟨hk, hk.armed, fun _ h => absurd h hdown, hrenew, hk.timely, fun hw _ _ => ?_⟩
  obtain ⟨l, hl, hstop⟩ := hheld.lease
  exact ⟨l, hl, by rw [hstop]; exact hkept hw⟩

end

lemma SameBooks.stop {c : Client} (h : SameBooks c c') : c'.stop = c.stop := by
  rw [Client.stop, Client.stop, h.1, h.2.1]

/-- A lease that stays is held on to. -/
theorem World.Held.after (h : w.Held) (hack : w.acked e.what = none) (ht : c'.timer ≠ 0)
    (hdue : (w.after e (.ok c')).due ≤ c'.stop) (hb : SameBooks w.client c') :
    (w.after e (.ok c')).Held where
  timer := ht
  due := hdue
  renewTime := by
    show c'.renewTime ≠ 0
    rw [hb.2.2]
    exact h.renewTime
  fits := by
    show c'.stop < 2 ^ 64
    rw [hb.stop]
    exact h.fits
  lease := by
    obtain ⟨l, hl, hstop⟩ := h.lease
    refine ⟨l, ?_, hstop.trans hb.stop.symm⟩
    show (w.acked e.what).elim w.lease _ = some l
    rw [hack]
    exact hl

/-- A timer that has been set goes off in so many seconds. -/
theorem due_of_setTo {sec : ℕ} (h : c'.SetTo sec) :
    (w.after e (.ok c')).due = w.clock + e.dt + sec := by
  show (if c'.reset = true then w.clock + e.dt + c'.timer else w.due) = _
  rw [if_pos h.2, h.1]

variable {a : Answers} (hclock : w.clock + e.dt < 2 ^ 63)

include hclock

section Alarm

variable (hwhat : e.what = .alarm)

include hwhat

/-- The timer goes off with a lease. -/
theorem alarm_leased_fine (hheld : w.Held) {c : Client}
    (hlog : c.log = []) (hb : SameBooks w.client c) :
    Fine w e (timeToRenew a (w.clock + e.dt) c) := by
  obtain ⟨l, hl, hstop⟩ := hheld.lease
  have hc : c.stop = w.client.stop := hb.stop
  have hends : Ends (timeToRenew a (w.clock + e.dt) c) _ _ :=
    timeToRenew_ends hlog (by rw [hc]; exact hheld.fits)
  revert hends
  rcases timeToRenew a (w.clock + e.dt) c with x | c'
  · rintro (⟨hle, hno⟩ | ⟨hlt, hno⟩)
    · exact fine_error hclock (fun _ _ => .inr ⟨l, hl, by omega⟩) fun h => absurd h hno
    · exact fine_error hclock (fun _ h => absurd h hno) fun _ => ⟨l, hl, by omega⟩
  · rintro (⟨hle, hst, hno⟩ | ⟨hlt, hst, ht, hno, hb'⟩)
    · exact fine_free hclock (.inl hst) (fun _ _ => .inr ⟨l, hl, by omega⟩) hno
    · refine fine_bound hclock (.inr hst)
        (hheld.after (by rw [hwhat]; rfl) (by rw [ht.1]; decide) ?_ ?_) hno
        (fun _ => ⟨l, hl, by omega⟩) fun _ => ?_
      · rw [due_of_setTo ht, hb'.stop]
        omega
      · exact ⟨hb'.1.trans hb.1, hb'.2.1.trans hb.2.1, hb'.2.2.trans hb.2.2⟩
      · rw [hb'.stop]
        exact hlt

/-- The timer goes off with a renewal out. -/
theorem alarm_renewing_fine (hheld : w.Held)
    (hsound : 10 * 60 ≤ w.client.stop ∨ w.clock + e.dt + 60 ≤ w.client.stop) {c : Client}
    (hlog : c.log = []) (hb : SameBooks w.client c) :
    Fine w e (renewTimeout a (w.clock + e.dt) c) := by
  obtain ⟨l, hl, hstop⟩ := hheld.lease
  have hc : c.stop = w.client.stop := hb.stop
  have hends : Ends (renewTimeout a (w.clock + e.dt) c) _ _ :=
    renewTimeout_ends hlog (by rw [hc]; exact hheld.fits) hclock
  revert hends
  rcases renewTimeout a (w.clock + e.dt) c with x | c'
  · rintro ⟨hlate, hno⟩
    exact fine_error hclock (fun _ _ => .inr ⟨l, hl, by omega⟩) fun h => absurd h hno
  · rintro (⟨hlate, hst, hno⟩ | ⟨hleft, hst, ht, hl', hb'⟩)
    · exact fine_free hclock (.inl hst) (fun _ _ => .inr ⟨l, hl, by omega⟩) hno
    · refine fine_bound hclock (.inl hst)
        (hheld.after (by rw [hwhat]; rfl) (by rw [ht.1]; decide) ?_ ?_) (by simp [hl'])
        (fun h => by simp [hl'] at h) fun _ => ?_
      · rw [due_of_setTo ht, hb'.stop]
        omega
      · exact ⟨hb'.1.trans hb.1, hb'.2.1.trans hb.2.1, hb'.2.2.trans hb.2.2⟩
      · rw [hb'.stop]
        omega

omit hwhat in
/-- Before there is a lease, the timer makes the client repeat itself. -/
theorem repeat_fine {c : Client} {kind : Kind} (hlog : c.log = []) (hkind : kind ≠ .renew)
    (hst : c.state = w.client.state) (htime : c.timeref = w.client.timeref)
    (hw : w.client.state = .discover ∨ (w.client.state = .request ∧
      w.requested = w.client.timeref ∧ w.client.timeref < 2 ^ 63)) :
    Fine w e (sendMessage a c kind) := by
  have hends := sendMessage_ends (a := a) (c := c) kind
  revert hends
  rcases sendMessage a c kind with x | c'
  · intro hl
    have hx : x.client.log = [] := Eq.trans hl hlog
    exact fine_quit hclock (by simp [Client.Calm, hx])
  · rintro ⟨hst', -, hl, hb⟩
    refine fine_free hclock ?_ (fun _ h => by simp [hl, hlog] at h)
      (by simpa [hl, hlog] using hkind.symm)
    rcases hw with hw | ⟨hw, hr, hlt⟩
    · exact .inl (hst'.trans (hst.trans hw))
    · refine .inr ⟨hst'.trans (hst.trans hw), ?_, by rw [hb.1, htime]; exact hlt⟩
      have hsame : (clientOf (.ok c')).state = w.client.state := hst'.trans hst
      show ite _ _ _ = _
      rw [if_neg (fun h => h.1 hsame), hr, hb.1, htime]

lemma alarm_fine (halive : w.alive) (hk : w.Kept) (hsound : w.Sound e) :
    Fine w e (handle a (w.clock + e.dt) w.client .alarm) := by
  have hst := hk.2 halive
  rw [World.Sound, hwhat, World.SoundAt] at hsound
  have hquit : ∀ msg (c : Client), c.log = [] → Fine w e (quit c msg) := fun msg c hlog =>
    fine_quit hclock (by simp [Client.Calm, hlog])
  rw [handle, timeoutWaiting]
  rcases h : w.client.state with _ | _ | _ | _ | _ | _ <;> simp only [h] at hst ⊢
  · split_ifs
    · exact hquit _ _ rfl
    · exact hquit _ _ rfl
    · exact repeat_fine hclock rfl (by simp) h.symm rfl (.inl h)
  · split_ifs
    · exact hquit _ _ rfl
    · exact repeat_fine hclock rfl (by simp) h.symm rfl (.inr ⟨h, hst⟩)
  · exact alarm_leased_fine hclock hwhat hst rfl ⟨rfl, rfl, rfl⟩
  · exact alarm_renewing_fine hclock hwhat hst (hsound h) rfl ⟨rfl, rfl, rfl⟩

end Alarm

/-- An event that means nothing to the client. -/
theorem same_fine (halive : w.alive) (hk : w.Kept) (hwhat : e.what ≠ .alarm)
    (hack : w.acked e.what = none) :
    Fine w e (.ok { w.client with log := [], reset := false }) := by
  have hst := hk.2 halive
  have hbound : w.client.Bound → w.Held →
    Fine w e (.ok { w.client with log := [], reset := false }) := by
    intro hb hheld
    refine fine_bound hclock hb (hheld.after hack hheld.timer hheld.due ⟨rfl, rfl, rfl⟩) (by simp)
      (fun h => by simp at h) ?_
    rintro (h | h)
    · exact absurd h hwhat
    · simp [hack] at h
  rcases h : w.client.state with _ | _ | _ | _ | _ | _ <;> simp only [h] at hst
  · exact fine_free hclock (.inl h) (fun _ h => by simp at h) (by simp)
  · refine fine_free hclock (.inr ⟨h, ?_, hst.2⟩) (fun _ h => by simp at h) (by simp)
    show ite _ _ _ = _
    rw [if_neg (fun h' => h'.1 rfl), hst.1]
  · exact hbound (.inl h) hst
  · exact hbound (.inr h) hst

/-- A packet that is not for the client in the state it is in. -/
theorem ignored_fine (halive : w.alive) (hk : w.Kept) (hwhat : e.what ≠ .alarm)
    (hack : w.acked e.what = none) :
    Fine w e (do
      let c' ← (.ok { w.client with log := [], reset := false } : Handled)
      if c'.state = w.client.state then return c' else nextAction a c' w.client.state) := by
  show Fine w e (if _ then _ else _)
  rw [if_pos rfl]
  exact same_fine hclock halive hk hwhat hack

section Packet

variable {dg : Dgram} (hwhat : e.what = .packet dg)

include hwhat

omit hclock in
lemma acked_eq_none
    (h : ¬(w.gets dg DHCPACK ∧ (w.client.state = .request ∨ w.client.state = .renewing))) :
    w.acked e.what = none := by
  rw [hwhat]
  exact if_neg h

omit hclock in
lemma acked_eq_some (h : w.gets dg DHCPACK)
    (hst : w.client.state = .request ∨ w.client.state = .renewing) : w.acked e.what = some dg := by
  rw [hwhat]
  exact if_pos ⟨h, hst⟩

/-- An offer. -/
theorem offer_fine (halive : w.alive) (hk : w.Kept) (h : w.client.state = .discover) : Fine w e (do
      let c' ← checkOffer (w.clock + e.dt) { w.client with log := [], reset := false } dg
      if c'.state = w.client.state then return c' else nextAction a c' w.client.state) := by
  have hends : Ends (checkOffer (w.clock + e.dt) { w.client with log := [], reset := false } dg) _
    _ :=
    checkOffer_ends dg
  revert hends
  rcases checkOffer (w.clock + e.dt) { w.client with log := [], reset := false } dg with x | c'
  · intro hx
    have hlog : x.client.log = [] := congrArg Client.log hx
    exact fine_quit hclock (by simp [Client.Calm, hlog])
  · rintro (rfl | ⟨hst, htime, hlog⟩)
    · have hnone : w.acked e.what = none := acked_eq_none hwhat (by simp [h])
      exact ignored_fine hclock halive hk (by simp [hwhat]) hnone
    · have hne : c'.state ≠ w.client.state := by simp [hst, h]
      show Fine w e (if c'.state = w.client.state then _ else nextAction a c' w.client.state)
      rw [if_neg hne]
      simp only [nextAction, hst, h]
      have hends := sendMessage_ends (a := a) (c := c') .request
      revert hends
      show Ends (sendRequest a c') _ _ → Fine w e (sendRequest a c')
      rcases sendRequest a c' with x | c''
      · intro hl
        have hx : x.client.log = [] := Eq.trans hl hlog
        exact fine_quit hclock (by simp [Client.Calm, hx])
      · rintro ⟨hst', -, hl, hb⟩
        have hs : c''.state = .request := hst'.trans hst
        refine fine_free hclock (.inr ⟨hs, ?_, by rw [hb.1, htime]; exact hclock⟩)
          (fun _ h' => by simp [hl, hlog] at h') (by simp [hl, hlog])
        show ite _ _ _ = _
        rw [if_pos ⟨by simp [clientOf, hs, h], .inl hs⟩, hb.1, htime]

/-- The answer to a request. -/
theorem acknak_fine (halive : w.alive) (hk : w.Kept) (h : w.client.state = .request)
    (hsound : w.Sound e) (hopen : w.client.rawfd) (hrel : dg.relevant w.client.xid) :
    Fine w e (do
      let c' ← checkAcknak { w.client with log := [], reset := false } dg
      if c'.state = w.client.state then return c' else nextAction a c' w.client.state) := by
  have hst0 := hk.2 halive
  rw [h] at hst0
  rw [World.Sound, hwhat, World.SoundAt] at hsound
  have hends := checkAcknak_ends (c := { w.client with log := [], reset := false }) dg
  revert hends
  rcases checkAcknak { w.client with log := [], reset := false } dg with x | c'
  · intro hx
    have hlog : x.client.log = [] := hx
    exact fine_quit hclock (by simp [Client.Calm, hlog])
  · rintro (⟨rfl, hno⟩ | ⟨hserved, hack, hst, hlt, hrenew, htime, hlog⟩)
    · have hnone : w.acked e.what = none :=
        acked_eq_none hwhat fun h' => hno ⟨h'.1.2.2.1, h'.1.2.2.2⟩
      exact ignored_fine hclock halive hk (by simp [hwhat]) hnone
    · have hgets : w.gets dg DHCPACK := ⟨hopen, hrel, hserved, hack⟩
      obtain ⟨htwo, hin⟩ := (hsound hgets).1 h _ hlt
      have hne : c'.state ≠ w.client.state := by simp [hst, h]
      show Fine w e (if c'.state = w.client.state then _ else nextAction a c' w.client.state)
      rw [if_neg hne]
      simp only [nextAction, hst, h]
      have hends := leaseObtained_ends (a := a) (c := c') hlog
      revert hends
      show Ends (leaseObtained a c') _ _ → Fine w e (leaseObtained a c')
      rcases leaseObtained a c' with x | c''
      · exact fun hx => fine_quit hclock hx
      · rintro ⟨hst', ht, hcalm, hb⟩
        have hstop : c''.stop = w.requested + c'.leaseTime := by
          rw [hb.stop, Client.stop, htime, hst0.1]
        have hlease := Dgram.leaseTime_lt hlt
        have hpos : c'.renewTime ≠ 0 := by omega
        refine fine_bound hclock (.inl (hst'.trans hst)) ⟨?_, ?_, ?_, ?_, ?_⟩ hcalm.1
          (fun h' => absurd h' hcalm.2) fun _ => by rw [hstop]; omega
        · show c''.timer ≠ 0
          rwa [ht.1]
        · show c''.renewTime ≠ 0
          rwa [hb.2.2]
        · show c''.stop < 2 ^ 64
          rw [hstop, hst0.1]
          omega
        · show (w.after e (.ok c'')).due ≤ c''.stop
          rw [due_of_setTo ht, hstop, hrenew]
          exact hin
        · refine ⟨⟨w.requested, w.granted dg⟩, ?_, ?_⟩
          · show (w.acked e.what).elim w.lease _ = _
            rw [acked_eq_some hwhat hgets (.inl h)]
            rfl
          · show w.requested + w.granted dg = c''.stop
            rw [hstop, World.granted, hlt]
            rfl

/-- The answer to a renewal. -/
theorem newack_fine (halive : w.alive) (hk : w.Kept) (h : w.client.state = .renewing)
    (hsound : w.Sound e) (hopen : w.client.rawfd) (hrel : dg.relevant w.client.xid) :
    Fine w e (do
      let c' ← checkNewack { w.client with log := [], reset := false } dg
      if c'.state = w.client.state then return c' else nextAction a c' w.client.state) := by
  have hheld := hk.2 halive
  rw [h] at hheld
  rw [World.Sound, hwhat, World.SoundAt] at hsound
  have hends := checkNewack_ends (c := { w.client with log := [], reset := false }) dg
  revert hends
  rcases checkNewack { w.client with log := [], reset := false } dg with x | c'
  · exact fun hx => hx.elim
  · rintro (⟨rfl, hno⟩ | ⟨hserved, hack, hst, hlog, hb⟩ | ⟨hserved, hnak, hst, hlog⟩)
    · have hnone : w.acked e.what = none :=
        acked_eq_none hwhat fun h' => hno ⟨h'.1.2.2.1, h'.1.2.2.2⟩
      exact ignored_fine hclock halive hk (by simp [hwhat]) hnone
    · have hgets : w.gets dg DHCPACK := ⟨hopen, hrel, hserved, hack⟩
      obtain ⟨hend, hin⟩ := (hsound hgets).2 h
      have hne : c'.state ≠ w.client.state := by simp [hst, h]
      show Fine w e (if c'.state = w.client.state then _ else nextAction a c' w.client.state)
      rw [if_neg hne]
      simp only [nextAction, hst, h]
      have hends := leaseRenewed_ends (a := a) (c := c') hlog
      revert hends
      show Ends (leaseRenewed a c') _ _ → Fine w e (leaseRenewed a c')
      rcases leaseRenewed a c' with x | c''
      · exact fun hx => fine_quit hclock hx
      · rintro ⟨hst', ht, hcalm, hb'⟩
        have hrenew : c'.renewTime ≠ 0 := by
          rw [hb.2.2]
          exact hheld.renewTime
        have hstop : c''.stop = w.client.stop := hb'.stop.trans hb.stop
        have hlong : w.clock + e.dt + c'.renewTime ≤ w.client.stop := by
          rw [hb.2.2]
          exact hin
        refine fine_bound hclock (.inl (hst'.trans hst)) ⟨?_, ?_, ?_, ?_, ?_⟩ hcalm.1
          (fun h' => absurd h' hcalm.2) fun _ => by rw [hstop]; omega
        · show c''.timer ≠ 0
          rwa [ht.1]
        · show c''.renewTime ≠ 0
          rwa [hb'.2.2]
        · show c''.stop < 2 ^ 64
          rw [hstop]
          exact hheld.fits
        · show (w.after e (.ok c'')).due ≤ c''.stop
          rw [due_of_setTo ht, hstop]
          exact hlong
        · refine ⟨⟨w.requested, w.granted dg⟩, ?_, ?_⟩
          · show (w.acked e.what).elim w.lease _ = _
            rw [acked_eq_some hwhat hgets (.inr h)]
            rfl
          · exact hend.trans hstop.symm
    · have hne : c'.state ≠ w.client.state := by simp [hst, h]
      have hnaked : ∃ dg', e.what = .packet dg' ∧ w.gets dg' DHCPNAK :=
        ⟨dg, hwhat, hopen, hrel, hserved, hnak⟩
      show Fine w e (if c'.state = w.client.state then _ else nextAction a c' w.client.state)
      rw [if_neg hne]
      simp only [nextAction, hst, h]
      have hends := retryDiscover_ends (a := a) (c := c')
      revert hends
      show Ends (leaseLost a c') _ _ → Fine w e (leaseLost a c')
      rcases leaseLost a c' with x | c''
      · intro hx
        refine fine_error hclock (fun _ _ => .inl hnaked) fun h' => ?_
        rcases hx with hx | hx <;> simp [hx, hlog] at h'
      · rintro ⟨hst', hl⟩
        exact fine_free hclock (.inl hst') (fun _ _ => .inl hnaked) (by simp [hl, hlog])

lemma packet_fine (halive : w.alive) (hk : w.Kept) (hsound : w.Sound e) :
    Fine w e (handle a (w.clock + e.dt) w.client (.packet dg)) := by
  have hst := hk.2 halive
  rw [handle, recvIncoming, recvPacket]
  by_cases hopen : w.client.rawfd
  swap
  · rw [if_pos (by simpa using hopen)]
    exact fine_quit hclock (by simp [Client.Calm])
  rw [if_neg (by simpa using hopen)]
  by_cases hrel : dg.relevant w.client.xid
  swap
  · rw [if_pos (by simpa using hrel)]
    have hnone : w.acked e.what = none := acked_eq_none hwhat fun h => hrel h.1.2.1
    exact ignored_fine hclock halive hk (by simp [hwhat]) hnone
  rw [if_neg (by simpa using hrel)]
  rcases h : w.client.state with _ | _ | _ | _ | _ | _ <;> simp only [h] at hst ⊢
  · have := offer_fine (a := a) hclock hwhat halive hk h
    simpa only [h] using this
  · have := acknak_fine (a := a) hclock hwhat halive hk h hsound hopen hrel
    simpa only [h] using this
  · have hnone : w.acked e.what = none := acked_eq_none hwhat (by simp [h])
    have := ignored_fine (a := a) hclock halive hk (by simp [hwhat]) hnone
    simpa only [h] using this
  · have := newack_fine (a := a) hclock hwhat halive hk h hsound hopen hrel
    simpa only [h] using this

end Packet

lemma signal_fine {sig : Signal} (hwhat : e.what = .signal sig) :
    Fine w e (handle a (w.clock + e.dt) w.client (.signal sig)) := by
  have hends := lastSignal_ends (a := a) (c := { w.client with log := [], reset := false }) sig rfl
  rw [handle]
  revert hends
  rcases lastSignal a { w.client with log := [], reset := false } sig with x | c'
  · exact fun hno => fine_error hclock (fun h => absurd hwhat (h sig)) fun h => absurd h hno
  · exact fun h => h.elim

end Step

/-- **One step**: what is kept is kept, and the step is lawful. -/
theorem step_fine {w' : World} {e : Event} (hk : w.Kept) (hsound : w.Sound e)
    (h : step w e = some w') : w'.Kept ∧ Lawful w e w' := by
  rw [step] at h
  split at h
  · rename_i hal
    obtain ⟨halive, hclock⟩ := hal
    cases h
    rcases hwhat : e.what with _ | _ | sig | dg
    · exact alarm_fine hclock hwhat halive hk hsound
    · exact same_fine hclock halive hk (by simp [hwhat]) (by rw [hwhat]; rfl)
    · exact signal_fine hclock hwhat
    · exact packet_fine hclock hwhat halive hk hsound
  · cases h

/-- **The lease law** holds in every run whose steps are all sound: in every state reached the
timer is running if there is a lease, and goes off before that is over, and every further sound step
is lawful. -/
theorem lease_law {w : World} (h : Reach Boot step World.Sound w) :
    w.Armed ∧ w.Timely ∧ ∀ e w', w.Sound e → step w e = some w' → Lawful w e w' := by
  have hk : w.Kept := h.invariant (fun _ => boot_kept) fun _ _ _ hk hs hst =>
    (step_fine hk hs hst).1
  exact ⟨hk.armed, hk.timely, fun e w' hs hst => (step_fine hk hs hst).2⟩

/-! ### Two runs -/

/-- A reply of some type from `10.0.0.1`, with a lease time in hours. -/
def sampleReply (type : UInt8) (hours : UInt8) : Dgram where
  bytes :=
    [0x45, 0, 1, 44, 0, 0, 0, 0, 64, 17, 0, 0, 10, 0, 0, 1, 255, 255, 255, 255] ++
      [0, 67, 0, 68, 1, 24, 0, 0] ++
      [2, 1, 6, 0, 0, 0, 0, 7] ++ List.replicate 8 0 ++ [10, 0, 0, 9] ++ List.replicate 216 0 ++
      [0x63, 0x82, 0x53, 0x63] ++
      [53, 1, type, 54, 4, 10, 0, 0, 1, 51, 4, 0, 0, hours * 14, hours * 16]
  mac := [2, 0, 0, 0, 0, 1]

/-- A client that has just started. -/
def sampleBoot : World where
  client := clientOf (startDiscover {} (zero 7))
  alive := true
  clock := 1000
  due := 0
  requested := 0
  lease := none

/-- A lease is taken, and a renewal sent later. -/
def sampleRun (hours : UInt8) (later : ℕ) : List Event :=
  [⟨0, .packet (sampleReply 2 hours), {}⟩, ⟨0, .packet (sampleReply 5 hours), {}⟩,
    ⟨later, .alarm, {}⟩]

lemma sampleBoot_boot : Boot sampleBoot := ⟨7, {}, rfl, rfl, by decide, rfl⟩

/-- A lease of an hour is taken, and a renewal sent after half of it. -/
theorem lease_law_sample :
    ∃ w, w.client.state = .renewing ∧ w.lease = some ⟨1000, 3600⟩ ∧ w.Armed ∧ w.Timely ∧
      ∀ e w', w.Sound e → step w e = some w' → Lawful w e w' := by
  have hrun : ((sampleRun 1 1800).foldlM
      (fun w e => if World.Sound w e then step w e else none) sampleBoot).any
      (fun w => w.client.state = .renewing ∧ w.lease = some ⟨1000, 3600⟩) = true := by
    decide +kernel
  obtain ⟨w, hw, hlease⟩ := (Option.any_eq_true _ _).mp hrun
  obtain ⟨hst, hlease⟩ := of_decide_eq_true hlease
  exact ⟨w, hst, hlease, lease_law ((Reach.start sampleBoot_boot).foldlM hw)⟩

/-- **A renewed lease is cut short**: with leases of two hours, renewed after one, the
interface is taken down when the renewed lease has an hour left. -/
theorem lease_law_broken :
    ¬∀ w, Reach Boot step (fun _ _ => True) w →
      w.Armed ∧ w.Timely ∧ ∀ e w', step w e = some w' → Lawful w e w' := by
  intro h
  have hrun : ((sampleRun 2 3600 ++ [(⟨0, .packet (sampleReply 5 2), {}⟩ : Event)]).foldlM
      (fun w e => if True then step w e else none) sampleBoot).any
      (fun w => w.lease = some ⟨4600, 7200⟩ ∧ (step w ⟨3600, .alarm, {}⟩).any
        fun w' => .deconfigured ∈ w'.client.log ∧ w'.clock = 8200) = true := by
    decide +kernel
  obtain ⟨w, hw, hrest⟩ := (Option.any_eq_true _ _).mp hrun
  obtain ⟨hlease, hstep⟩ := of_decide_eq_true hrest
  obtain ⟨w', hw', hdown⟩ := (Option.any_eq_true _ _).mp hstep
  obtain ⟨hdown, hclock⟩ := of_decide_eq_true hdown
  have hreach : Reach Boot step (fun _ _ => True) w := (Reach.start sampleBoot_boot).foldlM hw
  have hlaw := (h w hreach).2.2 _ _ hw'
  rcases hlaw.takenDown (by simp) hdown with ⟨dg, hdg, -⟩ | ⟨l, hl, hlt⟩
  · cases hdg
  · rw [hlease] at hl
    cases hl
    simp only [Lease.stop, hclock] at hlt
    omega

end Minibase.Dhconf
