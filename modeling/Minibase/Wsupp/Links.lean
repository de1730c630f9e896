import Minibase.Wsupp.Steady

/-!
# Which links are reported

`wsupp_nlauth.c` is to report a link only after it has negotiated it: in answer to a `CONNECT`
message while in `AS_CONNECTING`. Confirmations that come at other times are to end the connection
and nothing else (`Wsupp.Honest`). `nlm_authenticate` and `nlm_associate` return once they have
called `snap_to_external`, `nlm_connect` goes on: a `CONNECT` that reports success where it was not
waited for (`Wsupp.Intrudes`) is exactly what breaks the rule (`Wsupp.honest_iff`).
-/

namespace Minibase.Wsupp

open Trace

/-! ### What is asked -/

/-- The state in which a confirmation is waited for. -/
def Msg.awaited : Msg → Option Auth
  | authenticate => some .authenticating
  | associate => some .associating
  | connect _ => some .connecting
  | _ => none

/-- The state an input is handled in: that before it, with the answers to come. -/
def Sys.facing (s : Sys) (ev : Happening) : Sys := { s with env := ev.env }

/-- A message for this interface arrives. -/
def Receives (s : Sys) (ev : Happening) (msg : Msg) : Prop :=
  s.netlink = true ∧ ev.input = .message (some s.ifindex) msg

/-- A `CONNECT` arrives in `AS_CONNECTING`. -/
def Confirmed (s : Sys) (ev : Happening) : Prop :=
  (∃ status, Receives s ev (.connect status)) ∧ s.authstate = .connecting

/-- **What is asked of an input**: a link is reported only when it was confirmed, and a
confirmation that was not waited for ends the connection, with `authstate` as
`connection_ended` leaves it. -/
structure Honest (s : Sys) (ev : Happening) : Prop where
  ready : readies (s.next ev).log ≠ readies s.log → Confirmed s ev
  connected : (s.next ev).authstate = .connected → s.authstate ≠ .connected → Confirmed s ev
  stray : ∀ msg a, Receives s ev msg → msg.awaited = some a → s.authstate ≠ .idle →
    s.authstate ≠ a →
    (∃ u err, (u = { s.facing ev with authstate := .external } ∨
      u = (snapToExternal (s.facing ev)).2) ∧
      (s.next ev).authstate = (connectionEnded err u).2.authstate) ∧
    (s.next ev).authstate ≠ .connected

/-- **The case that goes wrong**: a `CONNECT` that reports success, neither waited for nor
ignored. -/
def Intrudes (s : Sys) (ev : Happening) : Prop :=
  ∃ status, Receives s ev (.connect status) ∧ failure status = none ∧
    s.authstate ≠ .idle ∧ s.authstate ≠ .connecting

/-! ### What inputs do -/

/-- So many calls of `connection_ready`, and `AS_CONNECTED` only under a condition. -/
def Linked (n : ℕ) (c : Prop) (s : Sys) : Prop :=
  readies s.log = n ∧ (s.authstate = .connected → c)

lemma linked_steady (n : ℕ) (c : Prop) : Steady (Linked n c) where
  keep := by
    intro s t h hs
    obtain ⟨ha, hr, -⟩ := Side.mk.inj h
    exact ⟨hr.trans hs.1, fun ht => hs.2 (ha.symm.trans ht)⟩
  auth ha hs := ⟨hs.1, fun h => absurd h ha⟩
  close hs := hs
  clear hs := hs
  prime hs := hs
  opened _ hs := hs
  reset _ hs := hs

lemma readies_snapToExternal (s : Sys) : readies (snapToExternal s).2.log = readies s.log :=
  (snapToExternal_steady (linked_steady (readies s.log) True) s ⟨rfl, fun _ => trivial⟩).1

/-- `connection_ended` does not connect anything. -/
theorem connectionEnded_linked (err : ℤ) {s : Sys} (h : s.authstate ≠ .connected) :
    (connectionEnded err s).2.authstate ≠ .connected :=
  (connectionEnded_steady (linked_steady (readies s.log) False) err s ⟨rfl, h⟩).2

/-- `connection_ready` logs its call. -/
theorem readies_connectionReady (s : Sys) : readies (connectionReady s).2.log = readies s.log + 1 :=
  (connectionReady_steady (linked_steady (readies s.log + 1) True) (s := s)
    ⟨rfl, fun _ => trivial⟩).1

section Message

variable {s : Sys} {ev : Happening} {msg : Msg}

/-- A message that is received is dispatched. -/
theorem next_of_receives (h : Receives s ev msg) : s.next ev = (msg.dispatch (s.facing ev)).2 := by
  have hn : (s.facing ev).netlink = true := h.1
  rw [Sys.next, h.2]
  show (handle (.message (some s.ifindex) msg) (s.facing ev)).2 = _
  rw [handle, whenOpen, run_bind, run_get, if_pos hn, genlMessage, run_bind, run_get]
  exact congrArg Prod.snd (if_pos rfl ▸ rfl)

/-- A message that is not received is not looked at. -/
theorem next_of_not_receives {ifi : Option ℤ} (hi : ev.input = .message ifi msg)
    (h : ¬Receives s ev msg) : s.next ev = s.facing ev := by
  rw [Sys.next, hi]
  show (handle (.message ifi msg) (s.facing ev)).2 = _
  rw [handle, whenOpen, run_bind, run_get, run_ite]
  split_ifs with hn
  · rw [genlMessage, run_bind, run_get, run_ite]
    split_ifs with hf
    · exact absurd ⟨hn, by rw [hi, hf]; rfl⟩ h
    · rfl
  · rfl

/-- `nlm_connect` goes on after `snap_to_external`. -/
theorem nlmConnect_stray (status : Option UInt16) {t : Sys} (hi : t.authstate ≠ .idle)
    (hc : t.authstate ≠ .connecting) :
    (nlmConnect status t).2 = (connectStatus status (snapToExternal t).2).2 := by
  rw [nlmConnect, run_bind, run_get, if_neg hi, run_bind, run_get, if_pos hc]
  rfl

/-- What `nlm_authenticate`, `nlm_associate` and `nlm_connect` do first. -/
theorem dispatch_stray {a : Auth} (hm : msg.awaited = some a) {t : Sys}
    (hi : t.authstate ≠ .idle) (ha : t.authstate ≠ a) :
    (msg.dispatch t).2 = (snapToExternal t).2 ∨
      ∃ status, msg = .connect status ∧
        (msg.dispatch t).2 = (connectStatus status (snapToExternal t).2).2 := by
  cases msg with
  | authenticate =>
    cases hm
    refine .inl ?_
    rw [Msg.dispatch, nlmAuthenticate, run_bind, run_get, if_neg hi, run_bind, run_get, if_pos ha]
  | associate =>
    cases hm
    refine .inl ?_
    rw [Msg.dispatch, nlmAssociate, run_bind, run_get, if_neg hi, run_bind, run_get, if_pos ha]
  | connect status =>
    cases hm
    exact .inr ⟨status, rfl, nlmConnect_stray status hi ha⟩
  | _ => exact nomatch hm

variable {status : Option UInt16}

lemma connectStatus_failure {err : ℤ} (h : failure status = some err) :
    connectStatus status = connectionEnded err := by
  rw [connectStatus, h]

lemma connectStatus_success (h : failure status = none) :
    connectStatus status = setAuthstate .connected >>= fun _ => connectionReady := by
  rw [connectStatus, h]

/-- **The only way to report a link** is `CONNECT`. -/
theorem next_linked (h : ∀ status, ¬Receives s ev (.connect status)) :
    Linked (readies s.log) (s.authstate = .connected) (s.next ev) := by
  have hs : Linked (readies s.log) (s.authstate = .connected) (s.facing ev) := ⟨rfl, id⟩
  by_cases hc : ∃ ifi status, ev.input = .message ifi (.connect status)
  · obtain ⟨ifi, status, hi⟩ := hc
    rw [next_of_not_receives hi (h status)]
    exact hs
  · push Not at hc
    exact handle_steady (linked_steady _ _) hc (s.facing ev) hs

/-- A stray confirmation, if it does not intrude, ends with `connection_ended`. -/
theorem next_stray {a : Auth} (hr : Receives s ev msg) (hm : msg.awaited = some a)
    (hi : s.authstate ≠ .idle) (ha : s.authstate ≠ a) (h : ¬Intrudes s ev) :
    ∃ u err, (u = { s.facing ev with authstate := .external } ∨
      u = (snapToExternal (s.facing ev)).2) ∧
      u.authstate ≠ .connected ∧ readies u.log = readies s.log ∧
      s.next ev = (connectionEnded err u).2 := by
  have hx : Auth.external ≠ .connected := by decide
  rw [next_of_receives hr]
  obtain hd | ⟨status, rfl, hd⟩ := dispatch_stray hm (t := s.facing ev) hi ha
  · exact ⟨{ s.facing ev with authstate := .external }, 2, .inl rfl, hx, rfl, hd⟩
  · cases hm
    rcases hf : failure status with - | err
    · exact absurd ⟨status, hr, hf, hi, ha⟩ h
    · rw [connectStatus_failure hf] at hd
      refine ⟨(snapToExternal (s.facing ev)).2, err, .inr rfl, ?_, ?_, hd⟩
      · exact connectionEnded_linked 2 (s := { s.facing ev with authstate := .external }) hx
      · exact readies_snapToExternal (s.facing ev)

/-- What is true of the state before is true after, if `CONNECT` was ignored or ended the
connection. -/
theorem next_connect (hr : Receives s ev (.connect status))
    (hc : s.authstate ≠ .connecting) (h : ¬Intrudes s ev) :
    Linked (readies s.log) (s.authstate = .connected) (s.next ev) := by
  by_cases hi : s.authstate = .idle
  · have hf : (s.facing ev).authstate = .idle := hi
    rw [next_of_receives hr, Msg.dispatch, nlmConnect, run_bind, run_get, if_pos hf]
    exact ⟨rfl, id⟩
  · obtain ⟨u, err, -, hu, hl, hn⟩ := next_stray hr rfl hi hc h
    rw [hn]
    exact connectionEnded_steady (linked_steady _ _) err u ⟨hl, fun h => absurd h hu⟩

/-- An input that does not intrude is handled as it should be. -/
theorem honest_of_not_intrudes (h : ¬Intrudes s ev) : Honest s ev := by
  have hl : Confirmed s ev ∨ Linked (readies s.log) (s.authstate = .connected) (s.next ev) := by
    by_cases hr : ∃ status, Receives s ev (.connect status)
    · by_cases hc : s.authstate = .connecting
      · exact .inl ⟨hr, hc⟩
      · obtain ⟨status, hr⟩ := hr
        exact .inr (next_connect hr hc h)
    · exact .inr (next_linked fun status hs => hr ⟨status, hs⟩)
  refine ⟨fun hr => ?_, fun ht hs => ?_, fun msg a hr hm hi ha => ?_⟩
  · exact hl.resolve_right fun hl => hr hl.1
  · exact hl.resolve_right fun hl => hs (hl.2 ht)
  · obtain ⟨u, err, hu, hc, -, hn⟩ := next_stray hr hm hi ha h
    rw [hn]
    exact ⟨⟨u, err, hu, rfl⟩, connectionEnded_linked err hc⟩

/-- An input that intrudes reports a link that was not confirmed. -/
theorem not_honest_of_intrudes (h : Intrudes s ev) : ¬Honest s ev := by
  obtain ⟨status, hr, hf, hi, hc⟩ := h
  intro hh
  have hd := nlmConnect_stray status (t := s.facing ev) hi hc
  have hn : readies (s.next ev).log = readies s.log + 1 := by
    rw [next_of_receives hr, Msg.dispatch, hd, connectStatus_success hf, run_bind,
      readies_connectionReady]
    exact congrArg (· + 1) (readies_snapToExternal (s.facing ev))
  exact hc (hh.ready (by rw [hn]; exact Nat.succ_ne_self _)).2

end Message

/-- **Links are reported as they should be, but for the inputs that intrude**: in every run,
every input is handled honestly if and only if none of them is a `CONNECT` that reports
success in a state that neither waits for it nor ignores it. -/
theorem honest_iff (l : List Happening) :
    (∀ a ev b, l = a ++ ev :: b → Honest (Sys.init.after a) ev) ↔
      ∀ a ev b, l = a ++ ev :: b → ¬Intrudes (Sys.init.after a) ev :=
  ⟨fun h a ev b hl hi => not_honest_of_intrudes hi (h a ev b hl),
    fun h a ev b hl => honest_of_not_intrudes (h a ev b hl)⟩

/-- **A link that was not negotiated is reported.** While the station is being authenticated
with, a `CONNECT` comes that another supplicant has brought about. The connection is ended,
there is no other station to try – and then `authstate` becomes `AS_CONNECTED`. -/
theorem connect_intrudes :
    (Sys.init.after connecting).authstate = .authenticating ∧
    ¬Honest (Sys.init.after connecting) (message (.connect (some 0))) ∧
    ((Sys.init.after connecting).next (message (.connect (some 0)))).authstate =
      .connected ∧
    ((Sys.init.after connecting).next (message (.connect (some 0)))).operstate =
      .monitoring := by
  have ha : (Sys.init.after connecting).authstate = .authenticating := by decide +kernel
  have hn : (Sys.init.after connecting).netlink = true := by decide +kernel
  have hf : (Sys.init.after connecting).ifindex = 3 := by decide +kernel
  refine ⟨ha, not_honest_of_intrudes ⟨some 0, ⟨hn, ?_⟩, rfl, ?_, ?_⟩, ?_, ?_⟩
  · rw [hf]
    rfl
  · rw [ha]
    decide
  · rw [ha]
    decide
  · decide +kernel
  · decide +kernel

end Minibase.Wsupp
