import Minibase.Wsupp.Reaction

/-!
# Runs of the key negotiations

The rest of the program and the access point are a sequence of `Wsupp.Event`s, in any order, with
any frames, and with every send or upload failing or not as it happens. `Wsupp.step` is what the
code does about one of them, and `Wsupp.Moves` what that can be; `Wsupp.current` remembers on the
side which handshake is going on.

`Wsupp.keys_single_shot`: between two primings the pairwise key is uploaded once at most; whatever
is uploaded came with a frame that was right under the keys of the current handshake; and the
replay counters of those frames grow. They do so between two primings only
(`Wsupp.replay_starts_over`).
-/

namespace Minibase.Wsupp

open List Call

/-! ### Events -/

/-- Something that happens to the negotiations. -/
inductive Event where
  /-- `prime_eapol_state`, and what `getrandom` does. -/
  | prime (random : Except ℤ (Bytes 32))
  /-- `allow_eapol_sends`. -/
  | allow (ln : Link) (io : Io)
  /-- `handle_rawsock`, with a frame to be received. -/
  | recv (ln : Link) (io : Io) (sender : Bytes 6) (frame : List UInt8)
  /-- `reset_eapol_state`. -/
  | reset

/-- Is this event a priming? -/
def Event.isPrime : Event → Bool
  | prime _ => true
  | _ => false

/-- What the code does about an event. -/
def step (e : Eapol) : Event → Out
  | .prime random => ⟨(primeEapolState random e).1, (primeEapolState random e).2, []⟩
  | .allow ln io => allowEapolSends ln io e
  | .recv ln io sender frame => handleRawsock ln io sender frame e
  | .reset => ⟨0, resetEapolState e, []⟩

/-- The state after a sequence of events. -/
def run (e : Eapol) (l : List Event) : Eapol := l.foldl (fun e ev => (step e ev).eapol) e

/-- The calls made during a sequence of events. -/
def calls (e : Eapol) : List Event → List Call
  | [] => []
  | ev :: l => (step e ev).calls ++ calls (step e ev).eapol l

@[simp] lemma run_nil (e : Eapol) : run e [] = e := rfl

lemma run_cons (e : Eapol) (ev : Event) (l : List Event) :
    run e (ev :: l) = run (step e ev).eapol l := rfl

lemma run_singleton (e : Eapol) (ev : Event) : run e [ev] = (step e ev).eapol := rfl

lemma run_append (e : Eapol) (a b : List Event) : run e (a ++ b) = run (run e a) b :=
  foldl_append

/-! ### The handshake going on -/

/-- What is agreed on with packet 1. -/
structure Handshake where
  /-- The sixty bytes of key material. -/
  key : List UInt8
  /-- The replay counter of the frame. -/
  replay : Bytes 8

/-- The key that MICs are made with. -/
def Handshake.KCK (h : Handshake) : Bytes 16 := Bytes.ofList 16 h.key

/-- The key that keys are wrapped with. -/
def Handshake.KEK (h : Handshake) : Bytes 16 := Bytes.ofList 16 (h.key.drop 16)

/-- The handshake an event starts. -/
def starts (e : Eapol) : Event → Option Handshake
  | .recv ln _ sender frame =>
    if e.eapolstate = .waiting14 ∧ sender = ln.bssid ∧ Framed frame ∧ isPacket1 (frameOf frame) then
      some ⟨pairwiseKey ln.PSK ln.ifaddr ln.bssid e.snonce (frameOf frame).nonce,
        (frameOf frame).replay⟩
    else none
  | _ => none

/-- The current handshake after an event. -/
def next (e : Eapol) (h : Option Handshake) : Event → Option Handshake
  | .prime _ => none
  | ev => (starts e ev).or h

/-- **The current handshake**: that of the last packet 1 that was taken since the
negotiations were last primed. -/
def current (e : Eapol) (h : Option Handshake) : List Event → Option Handshake
  | [] => h
  | ev :: l => current (step e ev).eapol (next e h ev) l

/-! ### What a step can do -/

/-- Is this call an upload of the pairwise key? -/
def Call.isPtk : Call → Bool
  | uploadPtk _ => true
  | _ => false

/-- Is this call an upload of a key? -/
def Call.isUpload : Call → Bool
  | uploadPtk _ => true
  | uploadGtk .. => true
  | _ => false

/-- Keys are uploaded. -/
def Out.uploads (o : Out) : Prop := ∃ c ∈ o.calls, c.isUpload = true

/-- The keys of the handshake stay what they are. -/
structure SameKeys (e e' : Eapol) : Prop where
  KCK : e'.KCK = e.KCK
  KEK : e'.KEK = e.KEK

/-- **What a step can do**, as far as states, keys and uploads are concerned. -/
inductive Moves (e : Eapol) : Event → Out → Prop
  | primed {random : Except ℤ (Bytes 32)} {o : Out} (hc : o.calls = [])
      (hs : o.eapol.eapolstate = .waiting14) : Moves e (.prime random) o
  | wiped {o : Out} (hc : o.calls = []) (hs : o.eapol.eapolstate = e.eapolstate)
      (hr : o.eapol.replay = e.replay) : Moves e .reset o
  /-- Nothing of note happens. -/
  | quiet {ev : Event} {o : Out} (hp : ev.isPrime = false) (hc : ¬o.uploads)
    (hk : SameKeys e o.eapol)
      (hs : o.eapol.eapolstate = e.eapolstate) (hr : o.eapol.replay = e.replay) : Moves e ev o
  /-- A handshake starts, and packet 2 is sent or is due. -/
  | started {ev : Event} {o : Out} {h : Handshake} (hp : ev.isPrime = false) (hc : ¬o.uploads)
      (hw : e.eapolstate = .waiting14) (hh : starts e ev = some h) (hK : o.eapol.KCK = h.KCK)
      (hE : o.eapol.KEK = h.KEK) (hr : o.eapol.replay = h.replay) : Moves e ev o
  /-- Packet 2 is sent later. -/
  | resumed {ev : Event} {o : Out} (hp : ev.isPrime = false) (hc : ¬o.uploads)
      (hk : SameKeys e o.eapol) (hw : e.eapolstate = .waiting24)
      (hs : o.eapol.eapolstate = .waiting24 ∨ o.eapol.eapolstate = .waiting34)
      (hr : o.eapol.replay = e.replay) : Moves e ev o
  /-- Packet 3 is taken. If packet 4 can be sent, the keys are uploaded. -/
  | ended {ln : Link} {io : Io} {sender : Bytes 6} {frame : List UInt8} {o : Out}
      (hw : e.eapolstate = .waiting34) (hb : sender = ln.bssid)
      (hv : Proven e (frameOf frame) (rd frame)) (hk : SameKeys e o.eapol)
      (hr : o.eapol.replay = (frameOf frame).replay)
      (hs : (o.eapol.eapolstate = .waiting34 ∧ ¬o.uploads) ∨
        (o.eapol.eapolstate = .negotiated ∧ o.calls.countP isPtk ≤ 1)) :
      Moves e (.recv ln io sender frame) o
  /-- A group key is taken. -/
  | rekeyed {ln : Link} {io : Io} {sender : Bytes 6} {frame : List UInt8} {o : Out}
      (hw : e.eapolstate = .negotiated) (hb : sender = ln.bssid)
      (hv : Proven e (frameOf frame) (rd frame)) (hk : SameKeys e o.eapol)
      (hr : o.eapol.replay = (frameOf frame).replay) (hs : o.eapol.eapolstate = .negotiated)
      (hc : o.calls.countP isPtk = 0) : Moves e (.recv ln io sender frame) o

section Senders

variable {ln : Link} {io : Io} {e : Eapol}

lemma not_uploads_of_calls {o : Out} (h : o.calls = [] ∨ ∃ d pkt, o.calls = [.send d pkt]) :
    ¬o.uploads := by
  rintro ⟨c, hc, hu⟩
  obtain h | ⟨d, pkt, h⟩ := h
  · rw [h] at hc
    cases hc
  · rw [h] at hc
    obtain rfl := mem_singleton.mp hc
    cases hu

lemma not_uploads_finish {o : Out} (h : o.calls = [] ∨ ∃ d pkt, o.calls = [.send d pkt]) :
    ¬(finish o).uploads := by
  rintro ⟨c, hc, hu⟩
  rcases mem_finish hc with hm | rfl
  · exact not_uploads_of_calls h ⟨c, hm, hu⟩
  · cases hu

lemma countP_finish (o : Out) : (finish o).calls.countP isPtk = o.calls.countP isPtk := by
  rw [finish]
  split_ifs
  · rw [countP_append]
    rfl
  · rfl

/-- What `send_packet_2` leaves. -/
theorem sendPacket2_eapol (ln : Link) (io : Io) (e : Eapol) :
    ∃ p s, (sendPacket2 ln io e).eapol = { e with packet := p, eapolstate := s } ∧
      (s = e.eapolstate ∨ s = .waiting34) := by
  simp only [sendPacket2]
  split_ifs
  · exact ⟨_, _, rfl, .inl rfl⟩
  · exact ⟨_, _, rfl, .inr rfl⟩

lemma sendPacket2_calls (ln : Link) (io : Io) (e : Eapol) :
    ∃ d pkt, (sendPacket2 ln io e).calls = [.send d pkt] := by
  simp only [sendPacket2]
  split_ifs
  · exact ⟨_, _, rfl⟩
  · exact ⟨_, _, rfl⟩

/-- What `send_packet_4` does: the state changes once the frame is out, and it is only then
that keys are uploaded. -/
theorem sendPacket4_cases (ln : Link) (io : Io) (e : Eapol) :
    SameKeys e (sendPacket4 ln io e).eapol ∧ (sendPacket4 ln io e).eapol.replay = e.replay ∧
    (((sendPacket4 ln io e).eapol.eapolstate = e.eapolstate ∧
      ¬(finish (sendPacket4 ln io e)).uploads) ∨
      ((sendPacket4 ln io e).eapol.eapolstate = .negotiated ∧
        (finish (sendPacket4 ln io e)).calls.countP isPtk ≤ 1)) := by
  simp only [sendPacket4]
  split_ifs with h1 h2 h3
  · refine ⟨⟨rfl, rfl⟩, rfl, .inl ⟨rfl, not_uploads_finish ?_⟩⟩
    exact .inr ⟨_, _, rfl⟩
  · refine ⟨⟨rfl, rfl⟩, rfl, .inr ⟨rfl, ?_⟩⟩
    rw [countP_finish]
    exact le_rfl
  · refine ⟨⟨rfl, rfl⟩, rfl, .inr ⟨rfl, ?_⟩⟩
    rw [countP_finish]
    exact le_rfl
  · refine ⟨⟨rfl, rfl⟩, rfl, .inr ⟨rfl, ?_⟩⟩
    rw [countP_finish]
    exact le_rfl

/-- What `send_group_2` does. -/
theorem sendGroup2_cases (ln : Link) (io : Io) (e : Eapol) :
    SameKeys e (sendGroup2 ln io e).eapol ∧ (sendGroup2 ln io e).eapol.replay = e.replay ∧
    (sendGroup2 ln io e).eapol.eapolstate = e.eapolstate ∧
    (finish (sendGroup2 ln io e)).calls.countP isPtk = 0 := by
  rw [countP_finish]
  simp only [sendGroup2]
  split_ifs
  · exact ⟨⟨rfl, rfl⟩, rfl, rfl, rfl⟩
  · exact ⟨⟨rfl, rfl⟩, rfl, rfl, rfl⟩
  · exact ⟨⟨rfl, rfl⟩, rfl, rfl, rfl⟩

/-- What follows packet 1. -/
theorem answer1_cases (ln : Link) (io : Io) (e : Eapol) :
    SameKeys e (answer1 ln io e).eapol ∧ (answer1 ln io e).eapol.replay = e.replay ∧
    ¬(finish (answer1 ln io e)).uploads := by
  rw [answer1]
  split_ifs
  · obtain ⟨p, s, he, -⟩ := sendPacket2_eapol ln io e
    obtain ⟨d, pkt, hc⟩ := sendPacket2_calls ln io e
    rw [he]
    exact ⟨⟨rfl, rfl⟩, rfl, not_uploads_finish (.inr ⟨d, pkt, hc⟩)⟩
  · exact ⟨⟨rfl, rfl⟩, rfl, not_uploads_finish (.inl rfl)⟩

end Senders

/-- **A step does nothing else.** -/
theorem step_moves (e : Eapol) (ev : Event) : Moves e ev (step e ev) := by
  cases ev with
  | prime random =>
    refine .primed rfl ?_
    cases random with
    | error err => rfl
    | ok nonce => rfl
  | reset => exact .wiped rfl rfl rfl
  | allow ln io =>
    rw [step, allowEapolSends]
    split
    · exact .quiet rfl (not_uploads_of_calls (.inl rfl)) ⟨rfl, rfl⟩ rfl rfl
    · rename_i hw
      obtain ⟨p, s, he, hs⟩ := sendPacket2_eapol ln io e
      obtain ⟨d, pkt, hc⟩ := sendPacket2_calls ln io e
      refine .resumed rfl (not_uploads_of_calls (.inr ⟨d, pkt, hc⟩)) ?_ hw ?_ ?_
      · rw [he]
        exact ⟨rfl, rfl⟩
      · rw [he]
        exact hs.imp (fun h => h.trans hw) id
      · rw [he]
    · exact .quiet rfl (not_uploads_of_calls (.inl rfl)) ⟨rfl, rfl⟩ rfl rfl
  | recv ln io sender frame =>
    obtain ⟨p, h⟩ | ⟨hb, hf, o, h, hr⟩ := handleRawsock_cases ln io sender frame e
    · rw [step, h]
      exact .quiet rfl (not_uploads_of_calls (.inl rfl)) ⟨rfl, rfl⟩ rfl rfl
    rw [step, h]
    cases hr with
    | drop p gtk idx ret _ =>
      refine .quiet rfl (not_uploads_finish (.inl rfl)) ?_ ?_ ?_
      all_goals rw [finish_eapol]
      · exact ⟨rfl, rfl⟩
      · rfl
      · rfl
    | first p hs h1 =>
      obtain ⟨hk, hr, hc⟩ := answer1_cases ln io
        (takePacket1 ln (frameOf frame) { e with packet := p })
      refine .started rfl hc hs (if_pos ⟨hs, hb, hf, h1⟩) ?_ ?_ ?_
      all_goals rw [finish_eapol]
      · exact hk.KCK
      · exact hk.KEK
      · exact hr
    | third p gtk idx rsc hs hv =>
      obtain ⟨hk, hr, hc⟩ := sendPacket4_cases ln io (e.take p gtk idx rsc (frameOf frame).replay)
      refine .ended hs hb hv ?_ ?_ ?_
      all_goals rw [finish_eapol]
      · exact ⟨hk.KCK, hk.KEK⟩
      · exact hr
      · exact hc.imp_left fun h => ⟨h.1.trans hs, h.2⟩
    | group p gtk idx rsc hs hv =>
      obtain ⟨hk, hr, hw, hc⟩ := sendGroup2_cases ln io
        (e.take p gtk idx rsc (frameOf frame).replay)
      refine .rekeyed hs hb hv ?_ ?_ ?_ hc
      all_goals rw [finish_eapol]
      · exact ⟨hk.KCK, hk.KEK⟩
      · exact hr
      · exact hw.trans hs

/-! ### Uploads -/

/-- The replay counter of the frame that arrives, as a number. -/
def Event.counter : Event → ℕ
  | recv _ _ _ frame => beVal (frameOf frame).replay.data
  | _ => 0

section Uploads

variable {e : Eapol} {ev : Event} {o : Out}

/-- **Where uploads come from.** -/
theorem Moves.of_uploads (hm : Moves e ev o) (hu : o.uploads) :
    ∃ ln io sender frame, ev = .recv ln io sender frame ∧ sender = ln.bssid ∧
      Proven e (frameOf frame) (rd frame) ∧
      (e.eapolstate = .waiting34 ∨ e.eapolstate = .negotiated) ∧
      o.eapol.eapolstate = .negotiated ∧ o.eapol.replay = (frameOf frame).replay ∧
      SameKeys e o.eapol := by
  cases hm with
  | primed hc _ =>
    obtain ⟨c, hc', -⟩ := hu
    rw [hc] at hc'
    cases hc'
  | wiped hc _ _ =>
    obtain ⟨c, hc', -⟩ := hu
    rw [hc] at hc'
    cases hc'
  | quiet _ hc _ _ _ => exact absurd hu hc
  | started _ hc _ _ _ _ _ => exact absurd hu hc
  | resumed _ hc _ _ _ _ => exact absurd hu hc
  | ended hw hb hv hk hr hs =>
    obtain ⟨-, hn⟩ | ⟨hs, -⟩ := hs
    · exact absurd hu hn
    · exact ⟨_, _, _, _, rfl, hb, hv, .inl hw, hs, hr, hk⟩
  | rekeyed hw hb hv hk hr hs _ => exact ⟨_, _, _, _, rfl, hb, hv, .inr hw, hs, hr, hk⟩

/-- A frame that leads to an upload has a greater counter than all before it. -/
theorem Moves.counter_gt (hm : Moves e ev o) (hu : o.uploads) :
    beVal e.replay.data < ev.counter ∧ ev.counter = beVal o.eapol.replay.data := by
  obtain ⟨ln, io, sender, frame, rfl, -, hv, -, -, hr, -⟩ := hm.of_uploads hu
  rw [hr]
  exact ⟨hv.fresh, rfl⟩

lemma countP_isPtk_eq_zero (h : ¬o.uploads) : o.calls.countP isPtk = 0 := by
  rw [countP_eq_zero]
  intro c hc hp
  refine h ⟨c, hc, ?_⟩
  cases c with
  | uploadPtk key => rfl
  | uploadGtk key idx rsc => rfl
  | send d pkt => cases hp
  | success => cases hp
  | abort err => cases hp

/-- **Once negotiated, always negotiated**, until the next priming: no pairwise key is
uploaded any more, and the replay counter does not go back. -/
theorem Moves.negotiated (hm : Moves e ev o) (hp : ev.isPrime = false)
    (hs : e.eapolstate = .negotiated) :
    o.eapol.eapolstate = .negotiated ∧ o.calls.countP isPtk = 0 ∧
      beVal e.replay.data ≤ beVal o.eapol.replay.data := by
  cases hm with
  | primed _ _ => cases hp
  | wiped hc hs' hr =>
    rw [hc, hr]
    exact ⟨hs'.trans hs, rfl, le_rfl⟩
  | quiet _ hc _ hs' hr =>
    rw [hr]
    exact ⟨hs'.trans hs, countP_isPtk_eq_zero hc, le_rfl⟩
  | started _ _ hw _ _ _ _ =>
    rw [hs] at hw
    cases hw
  | resumed _ _ _ hw _ _ =>
    rw [hs] at hw
    cases hw
  | ended hw _ _ _ _ _ =>
    rw [hs] at hw
    cases hw
  | rekeyed _ _ hv _ hr hs' hc =>
    rw [hr]
    exact ⟨hs', hc, hv.fresh.le⟩

/-- The pairwise key is uploaded once at most, and then the state says so. -/
theorem Moves.countP_le (hm : Moves e ev o) :
    o.calls.countP isPtk = 0 ∨
      (o.calls.countP isPtk ≤ 1 ∧ o.eapol.eapolstate = .negotiated) := by
  cases hm with
  | primed hc _ => rw [hc]; exact .inl rfl
  | wiped hc _ _ => rw [hc]; exact .inl rfl
  | quiet _ hc _ _ _ => exact .inl (countP_isPtk_eq_zero hc)
  | started _ hc _ _ _ _ _ => exact .inl (countP_isPtk_eq_zero hc)
  | resumed _ hc _ _ _ _ => exact .inl (countP_isPtk_eq_zero hc)
  | ended _ _ _ _ _ hs =>
    obtain ⟨-, hn⟩ | ⟨hs, hc⟩ := hs
    · exact .inl (countP_isPtk_eq_zero hn)
    · exact .inr ⟨hc, hs⟩
  | rekeyed _ _ _ _ _ _ hc => exact .inl hc

end Uploads

/-- Between two primings. -/
def Unprimed (l : List Event) : Prop := ∀ ev ∈ l, ev.isPrime = false

variable {ev : Event}

lemma unprimed_cons {l : List Event} :
    Unprimed (ev :: l) ↔ ev.isPrime = false ∧ Unprimed l := forall_mem_cons

variable {e : Eapol} {b : List Event}

/-- After the pairwise key was negotiated, only the replay counter moves. -/
theorem run_negotiated (hb : Unprimed b)
    (hs : e.eapolstate = .negotiated) :
    (run e b).eapolstate = .negotiated ∧ (calls e b).countP isPtk = 0 ∧
      beVal e.replay.data ≤ beVal (run e b).replay.data := by
  induction b generalizing e with
  | nil => exact ⟨hs, rfl, le_rfl⟩
  | cons ev b ih =>
    obtain ⟨hp, hb⟩ := unprimed_cons.mp hb
    obtain ⟨h1, h2, h3⟩ := (step_moves e ev).negotiated hp hs
    obtain ⟨i1, i2, i3⟩ := ih hb h1
    refine ⟨i1, ?_, h3.trans i3⟩
    rw [calls, countP_append, h2, i2]

/-- **At most one upload of the pairwise key** between two primings. -/
theorem countP_calls_le (hb : Unprimed b) (e : Eapol) : (calls e b).countP isPtk ≤ 1 := by
  induction b generalizing e with
  | nil => exact Nat.zero_le 1
  | cons ev b ih =>
    obtain ⟨-, hb⟩ := unprimed_cons.mp hb
    rw [calls, countP_append]
    obtain h | ⟨h, hs⟩ := (step_moves e ev).countP_le
    · rw [h, Nat.zero_add]
      exact ih hb _
    · rw [(run_negotiated hb hs).2.1]
      exact h

/-- **Replay counters grow** from one frame that led to an upload to the next. -/
theorem counter_lt {ev' : Event} (hb : Unprimed b)
    (h : (step e ev).uploads) (h' : (step (run e (ev :: b)) ev').uploads) :
    ev.counter < ev'.counter := by
  obtain ⟨-, -, -, -, -, -, -, -, hs, -⟩ := (step_moves e ev).of_uploads h
  calc ev.counter
      = beVal (step e ev).eapol.replay.data := ((step_moves e ev).counter_gt h).2
    _ ≤ beVal (run e (ev :: b)).replay.data := (run_negotiated hb hs).2.2
    _ < ev'.counter := ((step_moves _ ev').counter_gt h').1

/-! ### Keys -/

/-- From packet 1 on, the keys are those of the current handshake. -/
def Keyed (e : Eapol) (h : Option Handshake) : Prop :=
  (e.eapolstate = .waiting24 ∨ e.eapolstate = .waiting34 ∨ e.eapolstate = .negotiated) →
    ∃ k, h = some k ∧ e.KCK = k.KCK ∧ e.KEK = k.KEK

lemma starts_eq_none (h : e.eapolstate ≠ .waiting14) (ev : Event) : starts e ev = none := by
  cases ev with
  | recv ln io sender frame => exact if_neg fun h' => h h'.1
  | prime random => rfl
  | allow ln io => rfl
  | reset => rfl

variable {h : Option Handshake}

lemma next_of_not_prime (hp : ev.isPrime = false) : next e h ev = (starts e ev).or h := by
  cases ev with
  | prime random => cases hp
  | recv ln io sender frame => rfl
  | allow ln io => rfl
  | reset => rfl

/-- A step that leaves the keys and does not start a handshake keeps them right. -/
theorem Keyed.of_same {e' : Eapol} (hi : Keyed e h)
    (hp : ev.isPrime = false) (hk : SameKeys e e')
    (hs : e.eapolstate = .waiting24 ∨ e.eapolstate = .waiting34 ∨ e.eapolstate = .negotiated) :
    Keyed e' (next e h ev) := by
  intro _
  obtain ⟨k, hh, h1, h2⟩ := hi hs
  refine ⟨k, ?_, hk.KCK.trans h1, hk.KEK.trans h2⟩
  rw [next_of_not_prime hp, starts_eq_none (by rcases hs with hs | hs | hs <;> simp [hs]), hh]
  rfl

lemma Keyed.step (hi : Keyed e h) (hev : ev ≠ .reset) : Keyed (step e ev).eapol (next e h ev) := by
  cases step_moves e ev with
  | primed _ hs =>
    intro h'
    simp [hs] at h'
  | wiped _ _ _ => exact absurd rfl hev
  | quiet hp _ hk hs _ =>
    intro h'
    rw [hs] at h'
    exact hi.of_same hp hk h' (by rwa [hs])
  | started hp _ _ hh hK hE _ =>
    intro _
    refine ⟨_, ?_, hK, hE⟩
    rw [next_of_not_prime hp, hh]
    rfl
  | resumed hp _ hk hw _ _ => exact hi.of_same hp hk (.inl hw)
  | ended hw _ _ hk _ _ => exact hi.of_same rfl hk (.inr (.inl hw))
  | rekeyed hw _ _ hk _ _ _ => exact hi.of_same rfl hk (.inr (.inr hw))

lemma Keyed.run {a : List Event} (ha : .reset ∉ a)
    (hi : Keyed e h) : Keyed (run e a) (current e h a) := by
  induction a generalizing e h with
  | nil => exact hi
  | cons ev a ih =>
    rw [mem_cons, not_or] at ha
    exact ih ha.2 (hi.step (Ne.symm ha.1))

lemma keyed_init : Keyed Eapol.init none := by
  intro h
  simp [Eapol.init] at h

/-- **A frame that was right**: it came from the access point, its MIC is that of the
current handshake, and its payload was wrapped with the key of the same handshake. -/
def Authentic (h : Option Handshake) (ev : Event) : Prop :=
  ∃ ln io sender frame k, ev = .recv ln io sender frame ∧ sender = ln.bssid ∧ h = some k ∧
    (checkMic k.KCK (frameOf frame) (rd frame)).1 = 0 ∧
    (unwrapKey k.KEK (frameOf frame).keydata).1 = 0

lemma authentic_of_uploads (hi : Keyed e h) (hu : (step e ev).uploads) : Authentic h ev := by
  obtain ⟨ln, io, sender, frame, rfl, hb, hv, hs, -, -⟩ := (step_moves e ev).of_uploads hu
  obtain ⟨k, hh, h1, h2⟩ := hi (.inr hs)
  exact ⟨ln, io, sender, frame, k, rfl, hb, hh, h1 ▸ hv.mic, h2 ▸ hv.unwrap⟩

/-! ### The result -/

/-- **Keys are installed once, and only for frames that were right.** In every run without
a reset: between two primings the pairwise key is uploaded at most once; every upload is
due to a frame whose MIC and payload were right under the keys of the current handshake;
and between two primings the replay counters of these frames are strictly increasing. -/
theorem keys_single_shot (l : List Event) (hl : .reset ∉ l) :
    (∀ a b c, l = a ++ b ++ c → Unprimed b → (calls (run .init a) b).countP isPtk ≤ 1) ∧
    (∀ a ev c, l = a ++ ev :: c → (step (run .init a) ev).uploads →
      Authentic (current .init none a) ev) ∧
    (∀ a ev b ev' c, l = a ++ ev :: (b ++ ev' :: c) → Unprimed b →
      (step (run .init a) ev).uploads → (step (run .init (a ++ ev :: b)) ev').uploads →
      ev.counter < ev'.counter) := by
  refine ⟨fun a b c _ hb => countP_calls_le hb _, fun a ev c h hu => ?_,
    fun a ev b ev' c _ hb hu hu' => ?_⟩
  · have ha : .reset ∉ a := fun hr => hl (h ▸ mem_append_left _ hr)
    exact authentic_of_uploads (keyed_init.run ha) hu
  · rw [run_append] at hu'
    exact counter_lt hb hu hu'

/-! ### Two handshakes

An access point that starts counting anew with every connection, as they do. -/

namespace Example

/-- A link protected with a key of all sevens. -/
def link : Link where
  PSK := ⟨replicate 32 7, rfl⟩
  ifaddr := ⟨[2, 0, 0, 0, 0, 1], rfl⟩
  bssid := ⟨[2, 0, 0, 0, 0, 2], rfl⟩
  cipher := .ccmp

def nonce (n : UInt8) : Bytes 32 := ⟨replicate 32 n, rfl⟩

/-- A frame of this access point. -/
def frame (keyinfo : UInt16) (n : UInt8) (payload : List UInt8) : Eapolkey :=
  { zeroPacket with
    version := 2
    pactype := EAPOL_KEY
    paclen := UInt16.ofNat (95 + payload.length)
    type := EAPOL_KEY_RSN
    keyinfo := KI_SHA ||| keyinfo
    replay := ⟨[0, 0, 0, 0, 0, 0, 0, n], rfl⟩
    nonce := nonce 2
    paylen := UInt16.ofNat payload.length
    payload := payload }

/-- A frame with its MIC. -/
def signed (kck : Bytes 16) (ek : Eapolkey) : Eapolkey :=
  ek.signed kck ek.bytes.length

def packet1 (n : UInt8) : Eapolkey := frame (KI_PAIRWISE ||| KI_ACK) n []

def packet3 (kck : Bytes 16) (n : UInt8) (payload : List UInt8) : Eapolkey :=
  signed kck (frame (KI_PAIRWISE ||| KI_ACK ||| KI_MIC ||| KI_ENCRYPTED ||| KI_SECURE) n payload)

/-- The frame arrives, and whatever is sent and uploaded in return gets through. -/
def arrives (ek : Eapolkey) (sent : ℤ) : Event := .recv link ⟨sent, 0, 0⟩ link.bssid ek.bytes

/-- A connection up to packet 3: the nonce of this side, and the first replay counter. -/
def opening (m n : UInt8) : List Event :=
  [.prime (.ok (nonce m)), .allow link ⟨0, 0, 0⟩, arrives (packet1 n) 121]

/-- The keys of the first handshake, and a group key wrapped with them. -/
def kck1 : Bytes 16 :=
  ⟨[0x64, 0xfc, 0x13, 0x1a, 0x27, 0x65, 0x68, 0xad, 0xaf, 0x2d, 0xdc, 0x31, 0x67, 0x83, 0xd2,
    0x1b], rfl⟩

@[inherit_doc kck1]
def kek1 : Bytes 16 :=
  ⟨[0x0b, 0x59, 0xa5, 0x9b, 0xf5, 0xb6, 0x63, 0x7f, 0xe8, 0x72, 0xad, 0xe6, 0xc3, 0xa5, 0x6c,
    0x73], rfl⟩

@[inherit_doc kck1]
def wrapped1 : List UInt8 :=
  [0x9b, 0x75, 0x98, 0x9e, 0xf2, 0xf4, 0x10, 0xef, 0xe7, 0xc6, 0xe9, 0x2c, 0x08, 0x1f, 0xc5, 0x58,
    0xe1, 0xd4, 0xa6, 0x90, 0x82, 0xab, 0x9a, 0x50, 0x9c, 0x5e, 0xe0, 0x79, 0xc0, 0xa8, 0x53, 0x29]

/-- The same for the second handshake. -/
def kck2 : Bytes 16 :=
  ⟨[0xbd, 0x4f, 0xb9, 0xcc, 0xb0, 0xfb, 0x6b, 0x8c, 0x40, 0x74, 0xed, 0x90, 0x09, 0xdf, 0xbb,
    0xb7], rfl⟩

@[inherit_doc kck2]
def kek2 : Bytes 16 :=
  ⟨[0x80, 0x5b, 0x23, 0x40, 0xe4, 0x15, 0xf5, 0x2e, 0x19, 0x89, 0x6c, 0xda, 0x55, 0x23, 0xb7,
    0xe5], rfl⟩

@[inherit_doc kck2]
def wrapped2 : List UInt8 :=
  [0xc8, 0x6f, 0x16, 0x2b, 0x2c, 0xf0, 0x36, 0xd4, 0x8d, 0x85, 0x43, 0xff, 0xf4, 0x6f, 0x17, 0x29,
    0xbb, 0x29, 0xa0, 0xa3, 0xfe, 0x91, 0x55, 0x8a, 0x2b, 0xfa, 0x2e, 0xef, 0xbd, 0xa3, 0xce, 0x4a]

/-- What both of them unwrap to: the check block, and one element with the group key. -/
def unwrapped : List UInt8 :=
  replicate 8 0xA6 ++ [0xdd, 22, 0x00, 0x0F, 0xAC, 0x01, 1, 0] ++ replicate 16 5

lemma unwrapKey1 : unwrapKey kek1 wrapped1 = (0, unwrapped) := by decide +kernel

lemma unwrapKey2 : unwrapKey kek2 wrapped2 = (0, unwrapped) := by decide +kernel

section Frames

variable {kck kek : Bytes 16} {k : UInt16} {n : UInt8} {w : List UInt8}

lemma length_signed (kck : Bytes 16) (k : UInt16) (n : UInt8) (hl : w.length = 32) :
    (signed kck (frame k n w)).bytes.length = 131 := by
  rw [Eapolkey.length_bytes]
  exact congrArg (99 + ·) hl

lemma frameOf_signed (hl : w.length = 32) :
    frameOf (signed kck (frame k n w)).bytes = signed kck (frame k n w) :=
  frameOf_bytes (by rw [length_signed kck k n hl]; decide)

lemma rd_signed (hl : w.length = 32) : rd (signed kck (frame k n w)).bytes = 131 := by
  rw [rd, length_signed kck k n hl]
  rfl

lemma framed_signed (hl : w.length = 32) : Framed (signed kck (frame k n w)).bytes := by
  rw [Framed, frameOf_signed hl, rd_signed hl, wellFramed_iff]
  refine ⟨by decide, ?_, ?_, rfl⟩
  · show (UInt16.ofNat (95 + w.length)).toNat + 4 = 131
    rw [hl]
    rfl
  · show 99 + (UInt16.ofNat w.length).toNat ≤ 131
    rw [hl]
    decide

lemma keydata_signed (hl : w.length = 32) : (signed kck (frame k n w)).keydata = w := by
  show w.take (UInt16.ofNat w.length).toNat = w
  rw [hl]
  exact take_of_length_le hl.le

lemma ptype_signed {b : UInt16} (h : ptype (frame k 0 []) b = true) :
    ptype (signed kck (frame k n w)) b = true := h

/-- A signed frame brings what is asked for. -/
theorem proven_signed {e : Eapol} (hK : e.KCK = kck) (hE : e.KEK = kek)
    (hn : beVal e.replay.data < n.toNat) (hw : unwrapKey kek w = (0, unwrapped))
    (hl : w.length = 32) : Proven e (signed kck (frame k n w)) 131 where
  fresh := by
    have hc : beVal (signed kck (frame k n w)).replay.data = n.toNat := by
      show beVal [0, 0, 0, 0, 0, 0, 0, n] = n.toNat
      simp [beVal]
    rw [hc]
    exact hn
  mic := by
    have h131 : (frame k n w).bytes.length = 131 := by
      rw [Eapolkey.length_bytes]
      exact congrArg (99 + ·) hl
    rw [hK, signed, h131]
    exact checkMic_signed rfl kck 131
  unwrap := by
    rw [keydata_signed hl, hE, hw]

lemma hasGtk_signed (hw : unwrapKey kek w = (0, unwrapped)) (hl : w.length = 32) :
    HasGtk link kek (signed kck (frame k n w)) := by
  intro e
  have hp : (signed kck (frame k n w)).paylen.toNat = 32 := by
    show (UInt16.ofNat w.length).toNat = 32
    rw [hl]
    rfl
  rw [keydata_signed hl, hw, hp]
  rfl

end Frames

/-- Waiting for packet 3, with these keys. -/
structure Ready (e : Eapol) (kck kek : Bytes 16) : Prop where
  eapolstate : e.eapolstate = .waiting34
  anonce : e.anonce = nonce 2
  KCK : e.KCK = kck
  KEK : e.KEK = kek

/-- Packet 3 is taken, and keys are uploaded. -/
theorem uploads_packet3 {e : Eapol} {kck kek : Bytes 16} {n : UInt8} {w : List UInt8}
    (he : Ready e kck kek) (hn : beVal e.replay.data < n.toNat)
    (hw : unwrapKey kek w = (0, unwrapped)) (hl : w.length = 32) :
    (step e (arrives (packet3 kck n w) 99)).uploads := by
  have hf : Framed (packet3 kck n w).bytes := framed_signed hl
  have he3 : frameOf (packet3 kck n w).bytes = packet3 kck n w := frameOf_signed hl
  obtain ⟨p, gtk, idx, rsc, h⟩ := handleRawsock_third link ⟨99, 0, 0⟩
    he.eapolstate hf (by rw [he3]; exact ptype_signed (by decide)) (by rw [he3, he.anonce]; rfl)
    (by rw [he3, packet3, rd_signed hl]; exact proven_signed he.KCK he.KEK hn hw hl)
    (by rw [he3, he.KEK]; exact hasGtk_signed hw hl)
  rw [arrives, step, h]
  exact ⟨.uploadPtk e.PTK, mem_cons_of_mem _ mem_cons_self, rfl⟩

/-- The first handshake, up to packet 3. -/
theorem ready_first : Ready (run .init (opening 1 9)) kck1 kek1 := by
  -- evaluated together, so that the handshake is run once
  have h : (run .init (opening 1 9)).eapolstate = .waiting34 ∧
    (run .init (opening 1 9)).anonce = nonce 2 ∧
      (run .init (opening 1 9)).KCK = kck1 ∧
        (run .init (opening 1 9)).KEK = kek1 := by decide +kernel
  exact ⟨h.1, h.2.1, h.2.2.1, h.2.2.2⟩

/-- The second one, after the first. -/
theorem ready_second : Ready (run .init (opening 1 9 ++
    arrives (packet3 kck1 10 wrapped1) 99 :: opening 3 0)) kck2 kek2 := by
  obtain ⟨e, he⟩ : ∃ e, run .init (opening 1 9 ++ arrives (packet3 kck1 10 wrapped1) 99 ::
    opening 3 0) = e :=
    ⟨_, rfl⟩
  have h : e.eapolstate = .waiting34 ∧ e.anonce = nonce 2 ∧ e.KCK = kck2 ∧ e.KEK = kek2 := by
    rw [← he]
    decide +kernel
  rw [he]
  exact ⟨h.1, h.2.1, h.2.2.1, h.2.2.2⟩

end Example

open Example in
/-- The frame that ends the first handshake is right under its keys. -/
theorem first_packet3_authentic :
    Authentic (current .init none (opening 1 9)) (arrives (packet3 kck1 10 wrapped1) 99) :=
  (keys_single_shot (opening 1 9 ++ [arrives (packet3 kck1 10 wrapped1) 99])
    (by simp [opening, arrives])).2.1 _ _ [] rfl
    (uploads_packet3 ready_first (by decide +kernel) unwrapKey1 rfl)

open Example in
/-- **Across primings the counters need not grow**: two handshakes with an access point that
counts from `9` in the first one and from `0` in the second. Keys are uploaded for the
counters `10` and `1`, in this order. -/
theorem replay_starts_over :
    ¬∀ l : List Event, .reset ∉ l → ∀ a ev b ev' c, l = a ++ ev :: (b ++ ev' :: c) →
      (step (run .init a) ev).uploads → (step (run .init (a ++ ev :: b)) ev').uploads →
      ev.counter < ev'.counter := by
  intro h
  have hlt := h (opening 1 9 ++ arrives (packet3 kck1 10 wrapped1) 99 ::
    (opening 3 0 ++ [arrives (packet3 kck2 1 wrapped2) 99])) ?_ _ _ _ _ [] rfl
    (uploads_packet3 ready_first ?_ unwrapKey1 rfl) (uploads_packet3 ready_second ?_ unwrapKey2 rfl)
  · revert hlt
    decide +kernel
  · simp [opening, arrives]
  · decide +kernel
  · decide +kernel

end Minibase.Wsupp
