import Minibase.Wsupp.Reaction
import Minibase.Wsupp.Steady

/-!
# After a reset

`reset_eapol_state` should leave the key negotiations with nothing to say until they are primed
again. It does not touch `eapolstate`, though: what was waited for before the reset is waited for
after it. What keeps the negotiations quiet is the address: the raw socket is closed or the address
of the access point is all zeros (`Wsupp.after_silenced`). A frame from there that is of the kind
that was waited for (`Wsupp.Provokes`) is answered. All others are ignored
(`Wsupp.quiet_after_reset_iff`).
-/

namespace Minibase.Wsupp

open Trace Sys

/-! ### Frames that are answered -/

/-- **A frame of the kind that is waited for**, and that the state has an answer to. -/
def Answered (e : Eapol) (ek : Eapolkey) (len : ℕ) : Prop :=
  match e.eapolstate with
  | .waiting14 => e.eapolsends = true ∧ isPacket1 ek = true
  | .waiting34 => ptype ek (KI_PAIRWISE ||| KI_ACK ||| KI_MIC ||| KI_ENCRYPTED ||| KI_SECURE) = true
  | .negotiated => ek.type = EAPOL_KEY_RSN ∧
      ptype ek (KI_SECURE ||| KI_ENCRYPTED ||| KI_ACK ||| KI_MIC) = true ∧
      beVal e.replay.data < beVal ek.replay.data ∧ (checkMic e.KCK ek len).1 = 0
  | _ => False

/-- Nothing was called and no error returned. -/
def Out.Silent (o : Out) : Prop := o.calls = [] ∧ 0 ≤ o.ret

lemma finish_calls_eq_nil_iff {o : Out} : (finish o).calls = [] ↔ o.Silent := by
  rw [finish, Out.Silent]
  split_ifs with h
  · simp [h]
  · simp [not_lt.mp h]

variable {ln : Link} {io : Io} {e : Eapol}

lemma sendPacket2_speaks : (sendPacket2 ln io e).calls ≠ [] := by
  simp only [sendPacket2]
  split_ifs
  · exact List.cons_ne_nil _ _
  · exact List.cons_ne_nil _ _

lemma sendPacket4_speaks : (sendPacket4 ln io e).calls ≠ [] := by
  simp only [sendPacket4]
  split_ifs
  all_goals exact List.cons_ne_nil _ _

lemma sendGroup2_speaks : (sendGroup2 ln io e).calls ≠ [] := by
  simp only [sendGroup2]
  split_ifs
  all_goals exact List.cons_ne_nil _ _

/-- The common half of packet 3 and of a group update ends with an error or an answer. -/
theorem takeKeys_not_silent {send : Eapol → Out} (hs : ∀ e, (send e).calls ≠ []) (e : Eapol) :
    ¬(takeKeys ln send e).Silent := by
  have hkey : ¬0 ≤ -ENOKEY := by decide
  obtain ⟨p, gtk, idx, h, -⟩ | ⟨-, p, gtk, idx, rsc, h⟩ := takeKeys_cases ln send e
  · rw [h]
    exact fun hq => hkey hq.2
  · rw [h]
    exact fun hq => hs _ hq.1

lemma recvPacket1_silent_iff : (recvPacket1 ln io e).Silent ↔
    ¬(e.eapolsends = true ∧ isPacket1 e.packet = true) := by
  have hk : (takePacket1 ln e.packet e).eapolsends = e.eapolsends := rfl
  rw [recvPacket1, ite_not]
  split_ifs with h1
  · simp only [hk]
    split_ifs with hs
    · exact iff_of_false (fun h => sendPacket2_speaks h.1) (not_not.mpr ⟨hs, h1⟩)
    · exact iff_of_true ⟨rfl, le_rfl⟩ fun h => hs h.1
  · exact iff_of_true ⟨rfl, le_rfl⟩ fun h => h1 h.2

/-- Any packet 3 is answered, if only by an abort. -/
theorem recvPacket3_silent_iff : (recvPacket3 ln io e).Silent ↔
    ¬ptype e.packet (KI_PAIRWISE ||| KI_ACK ||| KI_MIC ||| KI_ENCRYPTED ||| KI_SECURE) = true := by
  have hbad : ¬0 ≤ -EBADMSG := by decide
  simp only [recvPacket3, ite_not]
  split_ifs with h1 h3 hn hr hm
  · exact iff_of_true ⟨rfl, le_rfl⟩ (ptype_unique h1 (by decide))
  · exact iff_of_false (fun h => hbad h.2) (not_not.mpr h3)
  · exact iff_of_false (takeKeys_not_silent (fun _ => sendPacket4_speaks) _) (not_not.mpr h3)
  · exact iff_of_false (fun h => hbad h.2) (not_not.mpr h3)
  · exact iff_of_false (fun h => hbad h.2) (not_not.mpr h3)
  · exact iff_of_true ⟨rfl, le_rfl⟩ h3

lemma recvGroup1_silent_iff : (recvGroup1 ln io e).Silent ↔
    ¬(e.packet.type = EAPOL_KEY_RSN ∧
      ptype e.packet (KI_SECURE ||| KI_ENCRYPTED ||| KI_ACK ||| KI_MIC) = true ∧
      beVal e.replay.data < beVal e.packet.replay.data ∧
      (checkMic e.KCK e.packet (4 + e.packet.paclen.toNat)).1 = 0) := by
  simp only [recvGroup1, ite_not]
  split_ifs with ht hb hr hm
  · exact iff_of_true ⟨rfl, le_rfl⟩ fun h => memcmp_of_beVal_lt h.2.2.1 hr
  · exact iff_of_false (takeKeys_not_silent (fun _ => sendGroup2_speaks) _)
      (not_not.mpr ⟨ht, hb, beVal_lt_of_memcmp hr, hm⟩)
  · exact iff_of_true ⟨rfl, le_rfl⟩ fun h => hm h.2.2.2
  · exact iff_of_true ⟨rfl, le_rfl⟩ fun h => hb h.2.1
  · exact iff_of_true ⟨rfl, le_rfl⟩ fun h => ht h.1

lemma dispatch_silent_iff : (dispatch ln io e).Silent ↔
    ¬Answered e e.packet (4 + e.packet.paclen.toNat) := by
  rw [dispatch, Answered]
  cases e.eapolstate with
  | idle => exact iff_of_true ⟨rfl, le_rfl⟩ id
  | waiting14 => exact recvPacket1_silent_iff
  | waiting24 => exact iff_of_true ⟨rfl, le_rfl⟩ id
  | waiting34 => exact recvPacket3_silent_iff
  | negotiated => exact recvGroup1_silent_iff

/-- The bytes behind a frame make no difference to what it is. -/
theorem answered_padded {frame : List UInt8} (hf : Framed frame) (stale : List UInt8)
    (p : Eapolkey) :
    Answered { e with packet := p } ((frameOf frame).padded stale) (rd frame) ↔
      Answered e (frameOf frame) (rd frame) := by
  rw [Answered, Answered]
  cases e.eapolstate with
  | negotiated =>
    rw [checkMic_append hf]
    exact Iff.rfl
  | _ => exact Iff.rfl

/-- **Which frames make `handle_rawsock` do something.** -/
theorem handleRawsock_quiet_iff (ln : Link) (io : Io) (sender : Bytes 6) (frame : List UInt8)
    (e : Eapol) : (handleRawsock ln io sender frame e).calls = [] ↔
      ¬(sender = ln.bssid ∧ Framed frame ∧ Answered e (frameOf frame) (rd frame)) := by
  by_cases hb : sender = ln.bssid ∧ Framed frame
  · obtain ⟨rfl, hf⟩ := hb
    obtain ⟨stale, h⟩ := handleRawsock_of_framed hf ln io e
    have hlen : 4 + ((frameOf frame).padded stale).paclen.toNat = rd frame := paclen_of_framed hf
    rw [h, finish_calls_eq_nil_iff, dispatch_silent_iff, hlen, answered_padded hf]
    exact not_congr ⟨fun h => ⟨rfl, hf, h⟩, fun h => h.2.2⟩
  · refine iff_of_true ?_ fun h => hb ⟨h.1, h.2.1⟩
    obtain ⟨p, h⟩ | ⟨hs, hf, -⟩ := handleRawsock_cases ln io sender frame e
    · rw [h]
    · exact absurd ⟨hs, hf⟩ hb

/-! ### Cleared keys -/

/-- **While the keys are cleared** no frame is looked at, or only those from an address of
zeros. -/
def Silenced (s : Sys) : Prop :=
  cleared s.log = true → s.rawsock = false ∨ s.ap.bssid = Bytes.zero 6

lemma silenced_steady : Steady Silenced where
  keep := by
    intro s t h hs hc
    obtain ⟨-, -, hcl, hr, hb⟩ := Side.mk.inj h
    rw [hr, hb]
    exact hs (hcl ▸ hc)
  auth _ hs := hs
  close _ _ := .inl rfl
  clear _ _ := .inr rfl
  prime _ hc := nomatch (hc : false = true)
  opened hn _ hc := absurd hc (by rw [hn]; decide)
  reset h _ _ := h

/-- No input changes that. -/
theorem next_silenced {s : Sys} (hs : Silenced s) (ev : Happening) : Silenced (s.next ev) := by
  by_cases hc : ∃ ifi status, ev.input = .message ifi (.connect status)
  · obtain ⟨ifi, status, hi⟩ := hc
    rw [Sys.next, hi]
    have hp : Preserves Silenced (handle (.message ifi (.connect status))) :=
      .test (.test (nlmConnect_steady silenced_steady (fun _ h => h) status) (.pure _)) (.pure _)
    exact hp _ hs
  · push Not at hc
    exact handle_steady silenced_steady hc _ hs

/-- **In every run, cleared keys mean a closed socket or an address of zeros.** -/
theorem after_silenced (l : List Happening) : Silenced (init.after l) := by
  induction l using List.reverseRecOn with
  | nil => exact fun h => absurd h (by decide)
  | append_singleton l ev ih =>
    rw [after_concat]
    exact next_silenced ih ev

/-- **A frame that wakes the negotiations up** although their keys are cleared: from an
address of zeros, and of the kind that was waited for before. -/
def Provokes (e : Eapol) (sender : Bytes 6) (frame : List UInt8) : Prop :=
  sender = Bytes.zero 6 ∧ Framed frame ∧ Answered e (frameOf frame) (rd frame)

/-- **After a reset, exactly the frames that provoke an answer get one.** In every run, while
the keys are cleared and the raw socket is open, a frame makes `handle_rawsock` send nothing,
upload nothing and abort nothing if and only if it does not come from an address of zeros or
is not of the kind `eapolstate` still waits for. -/
theorem quiet_after_reset_iff (l : List Happening) (io : Io) (sender : Bytes 6) (frame : List UInt8)
    (hc : cleared (init.after l).log = true) (ho : (init.after l).rawsock = true) :
    (handleRawsock (init.after l).link io sender frame (init.after l).eapol).calls = [] ↔
      ¬Provokes (init.after l).eapol sender frame := by
  have hb : (init.after l).link.bssid = Bytes.zero 6 :=
    (after_silenced l hc).resolve_left (by rw [ho]; decide)
  rw [handleRawsock_quiet_iff, hb]
  exact Iff.rfl

namespace Trace

/-- A link is confirmed. -/
def linked : List Happening :=
  connecting ++ [message .authenticate, message .associate, message (.connect (some 0))]

/-- The user disconnects, twice: the second time there is nothing left to wait for. -/
def disconnected : List Happening :=
  linked ++ [⟨.request .neutral, {}⟩, ⟨.request .neutral, {}⟩]

/-- Packet 1, as any access point would send it. -/
def packet1 : List UInt8 := [1, 3, 0, 95, 2, 0, 0x8A, 0, 16] ++ List.replicate 90 0

end Trace

/-- **A packet is sent after a reset**: a frame from an address of zeros starts a handshake,
under the key of the network that was just left. -/
theorem reset_provoked :
    cleared (init.after disconnected).log = true ∧
    (init.after disconnected).rawsock = true ∧
    (handleRawsock (init.after disconnected).link ⟨121, 0, 0⟩ (Bytes.zero 6) packet1
      (init.after disconnected).eapol).calls ≠ [] := by
  have hc : cleared (init.after disconnected).log = true := by decide +kernel
  have ho : (init.after disconnected).rawsock = true := by decide +kernel
  have hs : (init.after disconnected).eapol.eapolstate = .waiting14 := by decide +kernel
  have he : (init.after disconnected).eapol.eapolsends = true := by decide +kernel
  have h1 : isPacket1 (frameOf packet1) = true := by decide +kernel
  have hf : Framed packet1 := by decide +kernel
  have hb : (init.after disconnected).link.bssid = Bytes.zero 6 :=
    (after_silenced _ hc).resolve_left (by rw [ho]; decide)
  refine ⟨hc, ho, fun h => ?_⟩
  rw [handleRawsock_quiet_iff, hb] at h
  refine h ⟨rfl, hf, ?_⟩
  rw [Answered, hs]
  exact ⟨he, h1⟩

/-- Any other frame is ignored there: that of the access point itself, for one. -/
theorem reset_ignores :
    (handleRawsock (init.after disconnected).link
      ⟨121, 0, 0⟩ station.bssid packet1
      (init.after disconnected).eapol).calls = [] :=
  (quiet_after_reset_iff disconnected ⟨121, 0, 0⟩ station.bssid packet1
    (by decide +kernel) (by decide +kernel)).mpr fun h => absurd h.1 (by decide +kernel)

end Minibase.Wsupp
