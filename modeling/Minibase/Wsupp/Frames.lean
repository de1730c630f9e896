import Minibase.Wsupp.Handshake

/-!
# Frames sent

Three functions of `wsupp_eapol.c` build frames by hand, and each of them has to respect
the rules `handle_rawsock`, `ptype` and `check_mic` apply to what comes in
(`Wsupp.WellFormed`). Packets 2 and 4 do. The answer to a group key update never
does: it counts the four bytes of the frame header into `paclen` and leaves the type out of
`keyinfo` (`Wsupp.sent_wellFormed_iff`, `Wsupp.group_reply_malformed`).
-/

namespace Minibase.Wsupp

open List Eapolkey

/-- **The receive rules**, for a frame that answers one with the given replay counter. -/
structure WellFormed (kck : Bytes 16) (replay : Option (Bytes 8)) (pkt : List UInt8) : Prop where
  /-- `packet size mismatch` does not apply. -/
  paclen : 4 + (ofBytes pkt).paclen.toNat = pkt.length
  /-- Neither does `truncated payload`. -/
  paylen : eksize + (ofBytes pkt).paylen.toNat = pkt.length
  keytype : (ofBytes pkt).keyinfo &&& KI_TYPEMASK = KI_SHA
  replay : replay = some (ofBytes pkt).replay
  mic : (checkMic kck (ofBytes pkt) pkt.length).1 = 0

/-- The replay counter of the frame that is answered during an event: the one that arrives,
or packet 1 of the current handshake, if its answer had to wait. -/
def answered (h : Option Handshake) : Event → Option (Bytes 8)
  | .recv _ _ _ frame => some (frameOf frame).replay
  | .allow _ _ => h.map Handshake.replay
  | _ => none

/-! ### Signed frames -/

/-- The bytes of a signed frame with a payload of length `n`. -/
def Eapolkey.sent (ek : Eapolkey) (kck : Bytes 16) (n : ℕ) : List UInt8 :=
  (ek.signed kck (eksize + n)).bytes.take (eksize + n)

section Signed

variable {ek : Eapolkey} {n : ℕ}

lemma ofBytes_sent (ek : Eapolkey) (kck : Bytes 16) (n : ℕ) :
    ofBytes (ek.sent kck n) =
    { ek.signed kck (eksize + n) with payload := ek.payload.take n } := by
  rw [sent, take_bytes, ofBytes_header_append]
  rfl

lemma length_sent (kck : Bytes 16) (hn : n ≤ ek.payload.length) :
    (ek.sent kck n).length = eksize + n := by
  have hp : (ek.signed kck (eksize + n)).payload = ek.payload := rfl
  rw [sent, length_take, length_bytes, hp]
  omega

/-- The MIC does not depend on what is behind the frame in the buffer. -/
theorem signed_take (ek : Eapolkey) (kck : Bytes 16) (n : ℕ) :
    { ek.signed kck (eksize + n) with payload := ek.payload.take n } =
    { ek with payload := ek.payload.take n : Eapolkey }.signed kck (eksize + n) := by
  have hb : ek.bytes.take (eksize + n) =
      { ek with payload := ek.payload.take n : Eapolkey }.bytes.take (eksize + n) := by
    rw [take_bytes, take_bytes, take_take, Nat.min_self]
    rfl
  simp only [signed, makeMic, hb]

/-- **When a signed frame is well formed**: its MIC is right in any case. -/
theorem wellFormed_sent_iff (hn : n ≤ ek.payload.length) (hm : ek.mic = Bytes.zero 16)
    (kck : Bytes 16) (replay : Option (Bytes 8)) :
    WellFormed kck replay (ek.sent kck n) ↔
      4 + ek.paclen.toNat = eksize + n ∧ ek.paylen.toNat = n ∧
        ek.keyinfo &&& KI_TYPEMASK = KI_SHA ∧ replay = some ek.replay := by
  have ho := ofBytes_sent ek kck n
  have hl := length_sent kck hn
  constructor
  · rintro ⟨h1, h2, h3, h4, -⟩
    rw [ho] at h1 h2 h3 h4
    rw [hl] at h1 h2
    exact ⟨h1, Nat.add_left_cancel h2, h3, h4⟩
  · rintro ⟨h1, h2, h3, h4⟩
    refine ⟨?_, ?_, ?_, ?_, ?_⟩
    · rw [ho, hl]
      exact h1
    · rw [ho, hl]
      show eksize + ek.paylen.toNat = eksize + n
      rw [h2]
    · rw [ho]
      exact h3
    · rw [ho]
      exact h4
    · rw [ho, hl, signed_take]
      exact @checkMic_signed { ek with payload := ek.payload.take n } hm kck _

end Signed

/-! ### The three senders -/

section Senders

variable {ln : Link} {io : Io} {e : Eapol} {d : Bytes 6} {pkt : List UInt8}

lemma mem_sendPacket2 (h : .send d pkt ∈ (sendPacket2 ln io e).calls) :
    pkt = (packet2 ln e).sent e.KCK ln.cipher.txies.length := by
  simp only [sendPacket2] at h
  split_ifs at h
  all_goals
    simp only [mem_singleton, Call.send.injEq] at h
    exact h.2

lemma mem_sendPacket4 (h : .send d pkt ∈ (sendPacket4 ln io e).calls) :
    pkt = (packet4 e).sent e.KCK 0 := by
  simp only [sendPacket4, ptkCall, gtkCall] at h
  split_ifs at h
  all_goals
    simp only [mem_cons, not_mem_nil, or_false, Call.send.injEq, reduceCtorEq] at h
    exact h.2

lemma mem_sendGroup2 (h : .send d pkt ∈ (sendGroup2 ln io e).calls) :
    pkt = (group2 e).sent e.KCK 0 := by
  simp only [sendGroup2, gtkCall] at h
  split_ifs at h
  all_goals
    simp only [mem_cons, not_mem_nil, or_false, Call.send.injEq, reduceCtorEq] at h
    exact h.2

/-- Packet 2 is well formed. -/
theorem wellFormed_packet2 (ln : Link) (e : Eapol) :
    WellFormed e.KCK (some e.replay) ((packet2 ln e).sent e.KCK ln.cipher.txies.length) := by
  have hn : ln.cipher.txies.length ≤ (packet2 ln e).payload.length := by
    show _ ≤ (ln.cipher.txies ++ _).length
    rw [length_append]
    exact Nat.le_add_right _ _
  have h1 : 4 + (UInt16.ofNat (eksize + ln.cipher.txies.length - 4)).toNat =
      eksize + ln.cipher.txies.length := by
    cases ln.cipher <;> rfl
  have h2 : (UInt16.ofNat ln.cipher.txies.length).toNat = ln.cipher.txies.length := by
    cases ln.cipher <;> rfl
  have h3 : (KI_SHA ||| KI_PAIRWISE ||| KI_MIC) &&& KI_TYPEMASK = KI_SHA := by decide
  exact (wellFormed_sent_iff hn rfl _ _).mpr ⟨h1, h2, h3, rfl⟩

/-- So is packet 4. -/
theorem wellFormed_packet4 (e : Eapol) :
    WellFormed e.KCK (some e.replay) ((packet4 e).sent e.KCK 0) := by
  have h3 : (KI_SHA ||| KI_PAIRWISE ||| KI_MIC ||| KI_SECURE) &&& KI_TYPEMASK = KI_SHA := by decide
  exact (wellFormed_sent_iff (Nat.zero_le _) rfl _ _).mpr ⟨rfl, rfl, h3, rfl⟩

/-- **The answer to a group update is not**: `paclen` is four too large. -/
theorem not_wellFormed_group2 (e : Eapol) (replay : Option (Bytes 8)) :
    ¬WellFormed e.KCK replay ((group2 e).sent e.KCK 0) := by
  intro h
  have h1 : 4 + (UInt16.ofNat eksize).toNat = eksize + 0 :=
    ((wellFormed_sent_iff (Nat.zero_le _) rfl _ _).mp h).1
  revert h1
  decide

end Senders

/-! ### Runs -/

/-- As long as the answer to packet 1 is due, its replay counter is the one remembered. -/
def Due (e : Eapol) (h : Option Handshake) : Prop :=
  e.eapolstate = .waiting24 → h.map Handshake.replay = some e.replay

lemma Due.step {e : Eapol} {h : Option Handshake} (hi : Due e h) (ev : Event) :
    Due (step e ev).eapol (next e h ev) := by
  intro hw
  have hsame : ev.isPrime = false → e.eapolstate = .waiting24 →
      (Wsupp.step e ev).eapol.replay = e.replay →
      (next e h ev).map Handshake.replay = some (Wsupp.step e ev).eapol.replay := by
    intro hp hs hr
    rw [next_of_not_prime hp, starts_eq_none (by rw [hs]; decide), hr]
    exact hi hs
  cases step_moves e ev with
  | primed _ hs =>
    rw [hs] at hw
    cases hw
  | wiped _ hs hr => exact hsame rfl (hs.symm.trans hw) hr
  | quiet hp _ _ hs hr => exact hsame hp (hs.symm.trans hw) hr
  | started hp _ _ hh _ _ hr =>
    rw [next_of_not_prime hp, hh, hr]
    rfl
  | resumed hp _ _ hs _ hr => exact hsame hp hs hr
  | ended _ _ _ _ _ hs =>
    obtain ⟨hs, -⟩ | ⟨hs, -⟩ := hs
    · rw [hs] at hw
      cases hw
    · rw [hs] at hw
      cases hw
  | rekeyed _ _ _ _ _ hs _ =>
    rw [hs] at hw
    cases hw

lemma Due.run {e : Eapol} {h : Option Handshake} (hi : Due e h) (l : List Event) :
    Due (run e l) (current e h l) := by
  induction l generalizing e h with
  | nil => exact hi
  | cons ev l ih => exact ih (hi.step ev)

lemma due_init : Due Eapol.init none := fun h => by cases h

lemma mem_of_mem_finish {o : Out} {d : Bytes 6} {pkt : List UInt8}
    (h : .send d pkt ∈ (finish o).calls) : .send d pkt ∈ o.calls :=
  (mem_finish h).resolve_right fun h => by cases h

/-- **A frame is well formed if and only if the handshake was going on when it was sent**, in
every state that can be reached. -/
theorem sent_wellFormed_iff (l : List Event) (ev : Event) (d : Bytes 6) (pkt : List UInt8)
    (h : .send d pkt ∈ (step (run .init l) ev).calls) :
    WellFormed (step (run .init l) ev).eapol.KCK (answered (current .init none l) ev) pkt ↔
      (run .init l).eapolstate ≠ .negotiated := by
  have hdue := due_init.run l
  generalize run .init l = e at h hdue ⊢
  generalize current .init none l = hs at hdue ⊢
  cases ev with
  | prime random => cases h
  | reset => cases h
  | allow ln io =>
    rw [step, allowEapolSends] at h ⊢
    split at h
    · cases h
    · rename_i hw
      obtain ⟨p, s, he, -⟩ := sendPacket2_eapol ln io e
      rw [mem_sendPacket2 h, he, hw, answered, hdue hw]
      exact ⟨fun _ => by decide, fun _ => wellFormed_packet2 ln e⟩
    · cases h
  | recv ln io sender frame =>
    obtain ⟨p, hq⟩ | ⟨-, -, o, hq, hr⟩ := handleRawsock_cases ln io sender frame e
    · rw [step, hq] at h
      cases h
    rw [step, hq] at h ⊢
    rw [finish_eapol]
    have h := mem_of_mem_finish h
    cases hr with
    | drop p gtk idx ret _ => cases h
    | first p hw _ =>
      rw [answer1] at h ⊢
      split_ifs at h ⊢
      · generalize he : takePacket1 ln (frameOf frame) { e with packet := p } = e' at h ⊢
        have hr : e'.replay = (frameOf frame).replay := by
          rw [← he]
          rfl
        obtain ⟨q, s, hs, -⟩ := sendPacket2_eapol ln io e'
        rw [mem_sendPacket2 h, hs, hw, answered, ← hr]
        exact ⟨fun _ => by decide, fun _ => wellFormed_packet2 ln e'⟩
      · cases h
    | third p gtk idx rsc hw _ =>
      have hk := (sendPacket4_cases ln io (e.take p gtk idx rsc (frameOf frame).replay)).1.KCK
      rw [mem_sendPacket4 h, hk, hw]
      exact ⟨fun _ => by decide, fun _ => wellFormed_packet4 (e.take p gtk idx rsc _)⟩
    | group p gtk idx rsc hw _ =>
      have hk := (sendGroup2_cases ln io (e.take p gtk idx rsc (frameOf frame).replay)).1.KCK
      rw [mem_sendGroup2 h, hk, hw]
      exact ⟨fun hwf => absurd hwf (not_wellFormed_group2 _ _), fun hne => absurd rfl hne⟩

/-- Packet 1 arrives before the radio link is up. -/
def Example.early : List Event := [.prime (.ok (nonce 1)), arrives (packet1 9) 0]

open Example in
/-- Its answer, sent as soon as that is allowed. -/
theorem packet2_wellFormed : ∃ d pkt,
    .send d pkt ∈ (step (run .init early) (.allow link ⟨121, 0, 0⟩)).calls ∧
    WellFormed (step (run .init early) (.allow link ⟨121, 0, 0⟩)).eapol.KCK
      (answered (current .init none early) (.allow link ⟨121, 0, 0⟩)) pkt := by
  have hw : (run .init early).eapolstate = .waiting24 := by decide +kernel
  obtain ⟨d, pkt, hc⟩ := sendPacket2_calls link ⟨121, 0, 0⟩ (run .init early)
  have hm : .send d pkt ∈ (step (run .init early) (.allow link ⟨121, 0, 0⟩)).calls := by
    rw [step, allowEapolSends, hw]
    exact hc ▸ mem_singleton_self _
  exact ⟨d, pkt, hm, (sent_wellFormed_iff _ _ d pkt hm).mpr (by rw [hw]; decide)⟩

/-! ### A group update -/

namespace Example

def group1 (kck : Bytes 16) (n : UInt8) (payload : List UInt8) : Eapolkey :=
  signed kck (frame (KI_SECURE ||| KI_ENCRYPTED ||| KI_ACK ||| KI_MIC) n payload)

/-- The state after the first handshake. -/
def connected : List Event := opening 1 9 ++ [arrives (packet3 kck1 10 wrapped1) 99]

lemma connected_state : (run .init connected).eapolstate = .negotiated ∧
    (run .init connected).KCK = kck1 ∧ (run .init connected).KEK = kek1 ∧
    beVal (run .init connected).replay.data = 10 := by
  have hu := uploads_packet3 (n := 10) ready_first (by decide +kernel) unwrapKey1 rfl
  obtain ⟨ln, io, sender, fr, hev, -, -, -, hs, hr, hk⟩ := (step_moves _ _).of_uploads hu
  have hrun : run .init connected = (step (run .init (opening 1 9))
      (arrives (packet3 kck1 10 wrapped1) 99)).eapol := by
    rw [connected, run_append, run_singleton]
  rw [hrun]
  refine ⟨hs, hk.KCK.trans ready_first.KCK, hk.KEK.trans ready_first.KEK, ?_⟩
  obtain ⟨rfl, rfl, rfl, rfl⟩ : link = ln ∧ (⟨99, 0, 0⟩ : Io) = io ∧ link.bssid = sender ∧
      (packet3 kck1 10 wrapped1).bytes = fr := by
    simpa [arrives] using hev
  rw [hr, packet3, frameOf_signed rfl]
  rfl

/-- A group update that is right is answered. -/
theorem answers_group1 {s : Eapol} (hs : s.eapolstate = .negotiated) (hK : s.KCK = kck1)
    (hE : s.KEK = kek1) (hc : beVal s.replay.data = 10) :
    ∃ e, step s (arrives (group1 kck1 11 wrapped1) 99) = finish (sendGroup2 link ⟨99, 0, 0⟩ e) := by
  have hl : wrapped1.length = 32 := rfl
  have hf : Framed (group1 kck1 11 wrapped1).bytes := framed_signed hl
  have hg1 : frameOf (group1 kck1 11 wrapped1).bytes = group1 kck1 11 wrapped1 := frameOf_signed hl
  obtain ⟨p, gtk, idx, rsc, h⟩ := handleRawsock_group link ⟨99, 0, 0⟩ hs hf (by rw [hg1]; rfl)
    (by rw [hg1]; exact ptype_signed (by decide))
    (by rw [hg1, group1, rd_signed hl]
        exact proven_signed hK hE (by rw [hc]; decide) unwrapKey1 hl)
    (by rw [hg1, hE]; exact hasGtk_signed unwrapKey1 hl)
  exact ⟨_, h⟩

end Example

open Example in
/-- **No answer to a group update is well formed.** After the first handshake the access
point sends a new group key with the counter `11`; the answer has `paclen` equal to its
whole length. -/
theorem group_reply_malformed :
    ¬∀ (l : List Event) (ev : Event) (d : Bytes 6) (pkt : List UInt8),
      .send d pkt ∈ (step (run .init l) ev).calls →
      WellFormed (step (run .init l) ev).eapol.KCK (answered (current .init none l) ev) pkt := by
  intro hall
  obtain ⟨hs, hK, hE, hc⟩ := connected_state
  obtain ⟨e, hstep⟩ := answers_group1 hs hK hE hc
  have hw := hall connected (arrives (group1 kck1 11 wrapped1) 99) e.amac ((group2 e).sent e.KCK 0)
  rw [hstep, finish_eapol, (sendGroup2_cases _ _ e).1.KCK] at hw
  exact not_wellFormed_group2 e _ (hw mem_cons_self)

/-! ### After the handshake -/

/-- **No key is installed again** once the keys are negotiated: whatever arrives or fails, the
negotiations stay over and the keys of the handshake what they are, until it is primed or reset. -/
theorem no_reinstallation (l : List Event) {b : List Event} (hb : Unprimed b) (hr : .reset ∉ b)
    (hs : (run .init l).eapolstate = .negotiated) :
    (run .init (l ++ b)).eapolstate = .negotiated ∧ SameKeys (run .init l) (run .init (l ++ b)) ∧
      (calls (run .init l) b).countP Call.isPtk = 0 := by
  rw [run_append]
  obtain ⟨hend, hcalls, -⟩ := run_negotiated hb hs
  refine ⟨hend, ?_, hcalls⟩
  clear hend hcalls
  generalize run .init l = e at hs ⊢
  induction b generalizing e with
  | nil => exact ⟨rfl, rfl⟩
  | cons ev b ih =>
    obtain ⟨hp, hb⟩ := unprimed_cons.mp hb
    have hm := step_moves e ev
    have hkeys : SameKeys e (step e ev).eapol := by
      cases hm with
      | primed => cases hp
      | wiped => exact absurd mem_cons_self hr
      | quiet _ _ hk => exact hk
      | started _ _ hw => cases hs.symm.trans hw
      | resumed _ _ hk => exact hk
      | ended _ _ _ hk => exact hk
      | rekeyed _ _ _ hk => exact hk
    have hrest := ih hb (fun h => hr (mem_cons_of_mem _ h)) _ (hm.negotiated hp hs).1
    exact ⟨hrest.KCK.trans hkeys.KCK, hrest.KEK.trans hkeys.KEK⟩

open Example in
/-- Packet 3 comes a second time, and a group key is sent. -/
theorem no_reinstallation_replayed :
    (calls (run .init connected) [arrives (packet3 kck1 10 wrapped1) 99,
      arrives (group1 kck1 11 wrapped1) 99]).countP
      Call.isPtk = 0 :=
  (no_reinstallation connected (by simp [Unprimed, arrives, Event.isPrime])
    (by simp [arrives]) connected_state.1).2.2

end Minibase.Wsupp
