import Minibase.Wsupp.Eapol

/-!
# What a frame can do

A frame can do four things only (`Wsupp.Reaction`): it is turned down, with nothing changed but the
buffer and the group key, or it is taken as packet 1, as packet 3 or as a group key update, each in
the one state that waits for it. The last two have been checked before (`Wsupp.Proven`).
`Wsupp.dispatch_reaction` says that this is all, and `Wsupp.handleRawsock_cases` brings it to the
bytes that were received: the rest of the buffer has no part in it.
-/

namespace Minibase.Wsupp

open Eapolkey Bytes

variable {ln : Link} {io : Io} {e : Eapol}

/-! ### Frames as received -/

/-- The number of bytes `recvfrom` returns. -/
def rd (frame : List UInt8) : ℕ := min frame.length 1024

/-- What was received, without the rest of the buffer. -/
def frameOf (frame : List UInt8) : Eapolkey := ofBytes (frame.take 1024)

/-- A frame that passes the checks of `handle_rawsock`. -/
def Framed (frame : List UInt8) : Prop := wellFramed (frameOf frame) (rd frame) = true
deriving Decidable

variable {ek : Eapolkey} {o : Out}

lemma wellFramed_iff {n : ℕ} : wellFramed ek n = true ↔
    eksize ≤ n ∧ ek.paclen.toNat + 4 = n ∧ eksize + ek.paylen.toNat ≤ n ∧
      ek.pactype = EAPOL_KEY := by
  simp [wellFramed]

lemma length_take_frame (frame : List UInt8) : (frame.take 1024).length = rd frame := by
  rw [List.length_take, rd, Nat.min_comm]

/-- A frame with something left behind it in the buffer. -/
def Eapolkey.padded (ek : Eapolkey) (stale : List UInt8) : Eapolkey :=
  { ek with payload := ek.payload ++ stale }

variable {frame : List UInt8}

/-- The buffer after a frame was received: old bytes are behind its payload only. -/
theorem recvfrom_eq (h : eksize ≤ rd frame) (ek : Eapolkey) :
    ∃ stale, recvfrom frame ek = (frameOf frame).padded stale := by
  refine ⟨ek.bytes.drop frame.length, ?_⟩
  have hb : (frameOf frame).header ++ (frameOf frame).payload = frame.take 1024 :=
    bytes_ofBytes (by rw [length_take_frame]; exact h)
  rw [recvfrom, ← hb, List.append_assoc, ofBytes_header_append]
  rfl

/-- A short frame leaves the fields behind it as they were, but that is not looked at. -/
theorem wellFramed_recvfrom : wellFramed (recvfrom frame ek) (rd frame) = true ↔ Framed frame := by
  by_cases h : eksize ≤ rd frame
  · obtain ⟨stale, hs⟩ := recvfrom_eq h ek
    rw [Framed, hs, wellFramed_iff, wellFramed_iff]
    exact Iff.rfl
  · rw [Framed, wellFramed_iff, wellFramed_iff]
    exact ⟨fun h' => absurd h'.1 h, fun h' => absurd h'.1 h⟩

lemma length_payload (h : Framed frame) :
    eksize + (frameOf frame).payload.length = rd frame := by
  have hb := bytes_ofBytes (l := frame.take 1024)
    (by rw [length_take_frame]; exact (wellFramed_iff.mp h).1)
  rw [← length_take_frame, ← hb, length_bytes]
  rfl

section Stale

variable {frame : List UInt8}

/-- The payload that is unwrapped was received. -/
theorem keydata_append (h : Framed frame) (stale : List UInt8) :
    ((frameOf frame).padded stale).keydata = (frameOf frame).keydata := by
  have h1 := length_payload h
  have h2 := (wellFramed_iff.mp h).2.2.1
  have hle : (frameOf frame).paylen.toNat ≤ (frameOf frame).payload.length := by omega
  exact List.take_append_of_le_length hle

/-- The bytes under the MIC were received. -/
theorem checkMic_append (h : Framed frame) (stale : List UInt8) (kck : Bytes 16) :
    (checkMic kck ((frameOf frame).padded stale)
      (rd frame)).1 = (checkMic kck (frameOf frame) (rd frame)).1 := by
  have ht : ∀ ek : Eapolkey, ek.payload = (frameOf frame).payload →
      (ek.padded stale).bytes.take (rd frame) = ek.bytes.take (rd frame) := by
    intro ek hp
    rw [← length_payload h, take_bytes, take_bytes, ← hp, padded,
      List.take_append_of_le_length le_rfl]
    rfl
  exact congrArg (fun l => memxcmp ((hmacSha1 kck.data 16 l).take 16) (frameOf frame).mic.data)
    (ht { frameOf frame with mic := zero 16 } rfl)

end Stale

/-- **What `make_mic` makes `check_mic` accepts**, if the field was zero before. -/
theorem checkMic_signed (h : ek.mic = zero 16) (kck : Bytes 16) (len : ℕ) :
    (checkMic kck (ek.signed kck len) len).1 = 0 := by
  have he : { ek with mic := zero 16 } = ek := by rw [← h]
  have hd : (makeMic kck ek len).data = (hmacSha1 kck.data 16 (ek.bytes.take len)).take 16 :=
    data_ofList (by rw [length_hmacSha1]; decide)
  show memxcmp ((hmacSha1 kck.data 16 ({ ek with mic := zero 16 : Eapolkey }.bytes.take
    len)).take 16)
    (makeMic kck ek len).data = 0
  rw [he, hd]
  exact (memxcmp_eq_zero_iff rfl).mpr rfl

/-- A frame that fits into the buffer is received as it was sent. -/
theorem frameOf_bytes (h : ek.bytes.length ≤ 1024) : frameOf ek.bytes = ek := by
  rw [frameOf, List.take_of_length_le h, ofBytes_bytes]

/-! ### Reactions -/

/-- **What is asked of a frame that brings keys**: a new replay counter, the right MIC and
a payload that can be unwrapped. -/
structure Proven (e : Eapol) (ek : Eapolkey) (len : ℕ) : Prop where
  fresh : beVal e.replay.data < beVal ek.replay.data
  mic : (checkMic e.KCK ek len).1 = 0
  unwrap : (unwrapKey e.KEK ek.keydata).1 = 0

/-- What a frame that is turned down may have changed. -/
def Eapol.put (e : Eapol) (ek : Eapolkey) (gtk : Bytes 32) (idx : ℕ) : Eapol :=
  { e with packet := ek, GTK := gtk, gtkindex := idx }

/-- What a frame that brings a group key changes before it is answered. -/
def Eapol.take (e : Eapol) (ek : Eapolkey) (gtk : Bytes 32) (idx : ℕ) (rsc : Bytes 6)
    (replay : Bytes 8) : Eapol :=
  { e.put ek gtk idx with RSC := rsc, replay := replay }

/-- What follows after packet 1 was taken: it is answered at once, or when that is
allowed. -/
def answer1 (ln : Link) (io : Io) (e : Eapol) : Out :=
  if e.eapolsends then sendPacket2 ln io e else ⟨0, { e with eapolstate := .waiting24 }, []⟩

/-- **The four things a frame can do.** -/
inductive Reaction (ln : Link) (io : Io) (ek : Eapolkey) (len : ℕ) (e : Eapol) : Out → Prop
  /-- The frame is turned down. -/
  | drop (p : Eapolkey) (gtk : Bytes 32) (idx : ℕ) (ret : ℤ) (h : ret ≤ 0) :
      Reaction ln io ek len e ⟨ret, e.put p gtk idx, []⟩
  /-- It starts a handshake. -/
  | first (p : Eapolkey) (hs : e.eapolstate = .waiting14) (h1 : isPacket1 ek = true) :
      Reaction ln io ek len e (answer1 ln io (takePacket1 ln ek { e with packet := p }))
  /-- It ends one. -/
  | third (p : Eapolkey) (gtk : Bytes 32) (idx : ℕ) (rsc : Bytes 6)
      (hs : e.eapolstate = .waiting34) (h : Proven e ek len) :
      Reaction ln io ek len e (sendPacket4 ln io (e.take p gtk idx rsc ek.replay))
  /-- It brings a new group key. -/
  | group (p : Eapolkey) (gtk : Bytes 32) (idx : ℕ) (rsc : Bytes 6)
      (hs : e.eapolstate = .negotiated) (h : Proven e ek len) :
      Reaction ln io ek len e (sendGroup2 ln io (e.take p gtk idx rsc ek.replay))

lemma storeGtk_cases (idx : ℕ) (buf : List UInt8) (e : Eapol) :
    ∃ gtk i, (storeGtk ln idx buf e).2 = e.put e.packet gtk i := by
  simp only [storeGtk]
  split_ifs
  · exact ⟨_, _, rfl⟩
  · exact ⟨_, _, rfl⟩
  · exact ⟨_, _, rfl⟩

/-- Looking for the group key changes nothing else. -/
theorem fetchGtk_cases (ln : Link) (n : ℕ) (buf : List UInt8) (e : Eapol) :
    ∃ gtk i, (fetchGtk ln n buf e).2 = e.put e.packet gtk i := by
  induction n generalizing buf with
  | zero => exact ⟨_, _, rfl⟩
  | succ n ih =>
    have hno : ∃ gtk i, e = e.put e.packet gtk i := ⟨_, _, rfl⟩
    simp only [fetchGtk]
    split_ifs
    · exact hno
    · exact ih _
    · exact ih _
    · exact ih _
    · exact hno
    · exact storeGtk_cases _ _ e
    · exact hno

/-- There is a group key in the payload of a frame. -/
def HasGtk (ln : Link) (kek : Bytes 16) (ek : Eapolkey) : Prop :=
  ∀ e, (fetchGtk ln ek.paylen.toNat ((unwrapKey kek ek.keydata).2.drop 8) e).1 = 0

/-- **What the common half of packet 3 and of a group update does.** -/
theorem takeKeys_cases (ln : Link) (send : Eapol → Out) (e : Eapol) :
    (∃ p gtk idx, takeKeys ln send e = ⟨-ENOKEY, e.put p gtk idx, []⟩ ∧
      ¬((unwrapKey e.KEK e.packet.keydata).1 = 0 ∧ HasGtk ln e.KEK e.packet)) ∨
    (unwrapKey e.KEK e.packet.keydata).1 = 0 ∧
      ∃ p gtk idx rsc, takeKeys ln send e = send (e.take p gtk idx rsc e.packet.replay) := by
  have hr : (e.packet.unwrapped e.KEK).replay = e.packet.replay := rfl
  have hl : (e.packet.unwrapped e.KEK).paylen = e.packet.paylen := rfl
  simp only [takeKeys]
  generalize e.packet.unwrapped e.KEK = p at hr hl
  obtain ⟨gtk, idx, hf⟩ := fetchGtk_cases ln p.paylen.toNat
    ((unwrapKey e.KEK e.packet.keydata).2.drop 8) { e with packet := p }
  split_ifs with hu hg
  · exact .inl ⟨p, e.GTK, e.gtkindex, rfl, fun h => hu h.1⟩
  · refine .inl ⟨p, gtk, idx, ?_, fun h => hg ?_⟩
    · rw [hf]
      rfl
    · rw [hl]
      exact h.2 _
  · refine .inr ⟨not_not.mp hu, p, gtk, idx, ofList 6 p.rsc.data, ?_⟩
    rw [hf, ← hr]
    rfl

lemma beVal_lt_of_memcmp {n : ℕ} {a b : Bytes n} (h : ¬memcmp a.data b.data ≥ 0) :
    beVal a.data < beVal b.data :=
  (memcmp_neg_iff (by rw [a.size, b.size])).mp (not_le.mp h)

lemma Reaction.ignore {p : Eapolkey} {len : ℕ} {ret : ℤ} (h : ret ≤ 0) :
    Reaction ln io ek len e ⟨ret, { e with packet := p }, []⟩ :=
  .drop p e.GTK e.gtkindex ret h

lemma recvPacket1_reaction (hs : e.eapolstate = .waiting14) (len : ℕ) :
    Reaction ln io e.packet len e (recvPacket1 ln io e) := by
  rw [recvPacket1, ite_not]
  split_ifs with h1
  · exact .first e.packet hs h1
  · exact .ignore le_rfl

/-- Checking the MIC comes before the common half, and looks at the same payload. -/
theorem takeKeys_reaction {send : Eapol → Out}
    (hr : ¬memcmp e.replay.data e.packet.replay.data ≥ 0)
    (hm : (checkMic e.KCK e.packet (4 + e.packet.paclen.toNat)).1 = 0)
    (h : ∀ p gtk idx rsc, Proven e e.packet (4 + e.packet.paclen.toNat) →
      Reaction ln io e.packet (4 + e.packet.paclen.toNat) e
        (send (e.take p gtk idx rsc e.packet.replay))) :
    Reaction ln io e.packet (4 + e.packet.paclen.toNat) e
      (takeKeys ln send
        { e with packet := (checkMic e.KCK e.packet (4 + e.packet.paclen.toNat)).2 }) := by
  obtain ⟨p, gtk, idx, ht, -⟩ | ⟨hu, p, gtk, idx, rsc, ht⟩ := takeKeys_cases ln send
    { e with packet := (checkMic e.KCK e.packet (4 + e.packet.paclen.toNat)).2 }
  · rw [ht]
    exact .drop p gtk idx _ (by decide)
  · rw [ht]
    exact h p gtk idx rsc ⟨beVal_lt_of_memcmp hr, hm, hu⟩

lemma recvPacket3_reaction (hs : e.eapolstate = .waiting34) :
    Reaction ln io e.packet (4 + e.packet.paclen.toNat) e (recvPacket3 ln io e) := by
  have hbad : -EBADMSG ≤ 0 := by decide
  simp only [recvPacket3, ite_not]
  split_ifs with _ _ _ hr hm
  · exact .ignore le_rfl
  · exact .ignore hbad
  · exact takeKeys_reaction hr hm fun p gtk idx rsc hp => .third p gtk idx rsc hs hp
  · exact .ignore hbad
  · exact .ignore hbad
  · exact .ignore le_rfl

lemma recvGroup1_reaction (hs : e.eapolstate = .negotiated) :
    Reaction ln io e.packet (4 + e.packet.paclen.toNat) e (recvGroup1 ln io e) := by
  simp only [recvGroup1, ite_not]
  split_ifs with _ _ hr hm
  · exact .ignore le_rfl
  · exact takeKeys_reaction hr hm fun p gtk idx rsc hp => .group p gtk idx rsc hs hp
  · exact .ignore le_rfl
  · exact .ignore le_rfl
  · exact .ignore le_rfl

lemma dispatch_waiting34 (hs : e.eapolstate = .waiting34) :
    dispatch ln io e = recvPacket3 ln io e := by
  rw [dispatch, hs]

lemma dispatch_negotiated (hs : e.eapolstate = .negotiated) :
    dispatch ln io e = recvGroup1 ln io e := by
  rw [dispatch, hs]

/-- **`dispatch` does nothing else.** -/
theorem dispatch_reaction (ln : Link) (io : Io) (e : Eapol) :
    Reaction ln io e.packet (4 + e.packet.paclen.toNat) e (dispatch ln io e) := by
  rw [dispatch]
  split
  · exact recvPacket1_reaction ‹_› _
  · exact recvPacket3_reaction ‹_›
  · exact recvGroup1_reaction ‹_›
  · exact .ignore le_rfl

/-! ### From the buffer to the frame -/

/-- `handle_rawsock` turns an error into an abort. -/
def finish (o : Out) : Out := if o.ret < 0 then { o with calls := o.calls ++ [.abort o.ret] } else o

@[simp] lemma finish_eapol (o : Out) : (finish o).eapol = o.eapol := by
  rw [finish]
  split_ifs
  · rfl
  · rfl

lemma mem_finish {c : Call} (h : c ∈ (finish o).calls) : c ∈ o.calls ∨ c = .abort o.ret := by
  rw [finish] at h
  split_ifs at h
  · simpa using h
  · exact .inl h

lemma Proven.of_append {stale : List UInt8} (hf : Framed frame)
    (h : Proven e ((frameOf frame).padded stale) (rd frame)) :
    Proven e (frameOf frame) (rd frame) where
  fresh := h.fresh
  mic := (checkMic_append hf stale e.KCK).symm.trans h.mic
  unwrap := by
    rw [← keydata_append hf stale]
    exact h.unwrap

/-- Nor does what is left of it behind the frame. -/
theorem Reaction.of_append {stale : List UInt8} (hf : Framed frame)
    (h : Reaction ln io ((frameOf frame).padded stale) (rd frame)
      e o) : Reaction ln io (frameOf frame) (rd frame) e o := by
  cases h with
  | drop p gtk idx ret h => exact .drop p gtk idx ret h
  | first p hs h1 => exact .first p hs h1
  | third p gtk idx rsc hs h => exact .third p gtk idx rsc hs (h.of_append hf)
  | group p gtk idx rsc hs h => exact .group p gtk idx rsc hs (h.of_append hf)

/-- What was in the buffer before makes no difference. -/
theorem Reaction.of_packet {p : Eapolkey} {len : ℕ}
    (h : Reaction ln io ek len { e with packet := p } o) : Reaction ln io ek len e o := by
  cases h with
  | drop p gtk idx ret h => exact .drop p gtk idx ret h
  | first p hs h1 => exact .first p hs h1
  | third p gtk idx rsc hs h => exact .third p gtk idx rsc hs ⟨h.fresh, h.mic, h.unwrap⟩
  | group p gtk idx rsc hs h => exact .group p gtk idx rsc hs ⟨h.fresh, h.mic, h.unwrap⟩

/-- A frame that passes the checks of `handle_rawsock` goes to `dispatch`. -/
theorem handleRawsock_of_framed (hf : Framed frame) (ln : Link) (io : Io)
    (e : Eapol) :
    ∃ stale, handleRawsock ln io ln.bssid frame e = finish (dispatch ln io
      { e with packet := (frameOf frame).padded stale }) := by
  obtain ⟨stale, hs⟩ := recvfrom_eq (wellFramed_iff.mp hf).1 e.packet
  refine ⟨stale, ?_⟩
  rw [← hs, handleRawsock]
  exact (if_neg (not_not.mpr (memcmp_self _))).trans
    (if_neg (not_not.mpr (wellFramed_recvfrom.mpr hf)))

lemma paclen_of_framed (hf : Framed frame) : 4 + (frameOf frame).paclen.toNat = rd frame := by
  rw [add_comm]
  exact (wellFramed_iff.mp hf).2.1

/-- **What a frame can do**, said of the bytes received: nothing, if it is not for this
program, or one of the four reactions to it. -/
theorem handleRawsock_cases (ln : Link) (io : Io) (sender : Bytes 6) (frame : List UInt8)
    (e : Eapol) :
    (∃ p, handleRawsock ln io sender frame e = ⟨0, { e with packet := p }, []⟩) ∨
    sender = ln.bssid ∧ Framed frame ∧ ∃ o, handleRawsock ln io sender frame e = finish o ∧
      Reaction ln io (frameOf frame) (rd frame) e o := by
  by_cases hm : memcmp ln.bssid.data sender.data = 0
  swap
  · exact .inl ⟨_, if_pos hm⟩
  by_cases hf : Framed frame
  swap
  · refine .inl ⟨_, (if_neg (not_not.mpr hm)).trans (if_pos fun h => ?_)⟩
    exact hf (wellFramed_recvfrom.mp h)
  obtain rfl : sender = ln.bssid :=
    ext ((memcmp_eq_zero_iff (by rw [ln.bssid.size, sender.size])).mp hm).symm
  obtain ⟨stale, h⟩ := handleRawsock_of_framed hf ln io e
  refine .inr ⟨rfl, hf, _, h, ?_⟩
  have hr := dispatch_reaction ln io { e with packet := (frameOf frame).padded stale }
  have hlen : 4 + ((frameOf frame).padded stale).paclen.toNat = rd frame := paclen_of_framed hf
  rw [hlen] at hr
  exact hr.of_packet.of_append hf

/-! ### Frames that are taken

The other direction, for the frames of an access point that plays by the rules. -/

/-- The common half of packet 3 and of a group update, when all is well. -/
theorem takeKeys_of_hasGtk (send : Eapol → Out) (hu : (unwrapKey e.KEK e.packet.keydata).1 = 0)
    (hg : HasGtk ln e.KEK e.packet) :
    ∃ p gtk idx rsc, takeKeys ln send e = send (e.take p gtk idx rsc e.packet.replay) := by
  obtain ⟨p, gtk, idx, -, h⟩ | ⟨-, h⟩ := takeKeys_cases ln send e
  · exact absurd ⟨hu, hg⟩ h
  · exact h

section Taken

variable {frame : List UInt8}

lemma HasGtk.append {kek : Bytes 16} (hf : Framed frame) (h : HasGtk ln kek (frameOf frame))
    (stale : List UInt8) : HasGtk ln kek ((frameOf frame).padded stale) := by
  intro e
  rw [keydata_append hf]
  exact h e

lemma Proven.append (hf : Framed frame) (h : Proven e (frameOf frame) (rd frame))
    (stale : List UInt8) :
    Proven e ((frameOf frame).padded stale) (rd frame) where
  fresh := h.fresh
  mic := (checkMic_append hf stale e.KCK).trans h.mic
  unwrap := by
    rw [keydata_append hf]
    exact h.unwrap

lemma memcmp_of_beVal_lt {n : ℕ} {a b : Bytes n} (h : beVal a.data < beVal b.data) :
    ¬memcmp a.data b.data ≥ 0 :=
  not_le.mpr ((memcmp_neg_iff (by rw [a.size, b.size])).mpr h)

lemma ptype_unique {ek : Eapolkey} {b b' : UInt16} (h : ptype ek b = true) (hne : b ≠ b') :
    ¬ptype ek b' = true := by
  intro h'
  simp only [ptype, decide_eq_true_eq] at h h'
  exact hne (h.2.symm.trans h'.2)

/-- Once its MIC is checked, what counts is the rest of the frame. -/
theorem takeKeys_of_mic (send : Eapol → Out) (len : ℕ)
    (hu : (unwrapKey e.KEK e.packet.keydata).1 = 0) (hg : HasGtk ln e.KEK e.packet) :
    ∃ p gtk idx rsc, takeKeys ln send { e with packet := (checkMic e.KCK e.packet len).2 } =
      send (e.take p gtk idx rsc e.packet.replay) := by
  have hm : (checkMic e.KCK e.packet len).2 = { e.packet with mic := zero 16 } := rfl
  rw [hm]
  exact takeKeys_of_hasGtk (e := { e with packet := { e.packet with mic := zero 16 } })
    send hu hg

/-- **A proper packet 3 is answered.** -/
theorem recvPacket3_of_proven (io : Io)
    (ht : ptype e.packet (KI_PAIRWISE ||| KI_ACK ||| KI_MIC ||| KI_ENCRYPTED ||| KI_SECURE) = true)
    (hn : e.packet.nonce = e.anonce) (hv : Proven e e.packet (4 + e.packet.paclen.toNat))
    (hg : HasGtk ln e.KEK e.packet) :
    ∃ p gtk idx rsc, recvPacket3 ln io e =
      sendPacket4 ln io (e.take p gtk idx rsc e.packet.replay) := by
  simp only [recvPacket3]
  rw [if_neg (ptype_unique ht (by decide)), if_neg (not_not.mpr ht),
    if_neg (not_not.mpr ((memcmp_eq_zero_iff (by simp)).mpr (congrArg _ hn.symm))),
    if_neg (memcmp_of_beVal_lt hv.fresh), if_neg (not_not.mpr hv.mic)]
  exact takeKeys_of_mic _ _ hv.unwrap hg

/-- **A proper group update is answered.** -/
theorem recvGroup1_of_proven (io : Io) (hy : e.packet.type = EAPOL_KEY_RSN)
    (ht : ptype e.packet (KI_SECURE ||| KI_ENCRYPTED ||| KI_ACK ||| KI_MIC) = true)
    (hv : Proven e e.packet (4 + e.packet.paclen.toNat)) (hg : HasGtk ln e.KEK e.packet) :
    ∃ p gtk idx rsc, recvGroup1 ln io e =
      sendGroup2 ln io (e.take p gtk idx rsc e.packet.replay) := by
  simp only [recvGroup1]
  rw [if_neg (not_not.mpr hy), if_neg (not_not.mpr ht), if_neg (memcmp_of_beVal_lt hv.fresh),
    if_neg (not_not.mpr hv.mic)]
  exact takeKeys_of_mic _ _ hv.unwrap hg

lemma handleRawsock_third (ln : Link) (io : Io) (hs : e.eapolstate = .waiting34) (hf : Framed frame)
    (ht : ptype (frameOf frame) (KI_PAIRWISE ||| KI_ACK ||| KI_MIC ||| KI_ENCRYPTED ||| KI_SECURE) =
      true)
    (hn : (frameOf frame).nonce = e.anonce) (hv : Proven e (frameOf frame) (rd frame))
    (hg : HasGtk ln e.KEK (frameOf frame)) :
    ∃ p gtk idx rsc, handleRawsock ln io ln.bssid frame e =
      finish (sendPacket4 ln io (e.take p gtk idx rsc (frameOf frame).replay)) := by
  obtain ⟨stale, h⟩ := handleRawsock_of_framed hf ln io e
  have hv' := hv.append hf stale
  rw [← paclen_of_framed hf] at hv'
  obtain ⟨p, gtk, idx, rsc, h3⟩ := recvPacket3_of_proven io
    (e := { e with packet := (frameOf frame).padded stale }) ht hn
    ⟨hv'.fresh, hv'.mic, hv'.unwrap⟩ (hg.append hf stale)
  refine ⟨p, gtk, idx, rsc, ?_⟩
  rw [h, dispatch_waiting34 (by exact hs), h3]
  rfl

lemma handleRawsock_group (ln : Link) (io : Io) (hs : e.eapolstate = .negotiated)
    (hf : Framed frame)
    (hy : (frameOf frame).type = EAPOL_KEY_RSN)
    (ht : ptype (frameOf frame) (KI_SECURE ||| KI_ENCRYPTED ||| KI_ACK ||| KI_MIC) = true)
    (hv : Proven e (frameOf frame) (rd frame)) (hg : HasGtk ln e.KEK (frameOf frame)) :
    ∃ p gtk idx rsc, handleRawsock ln io ln.bssid frame e =
      finish (sendGroup2 ln io (e.take p gtk idx rsc (frameOf frame).replay)) := by
  obtain ⟨stale, h⟩ := handleRawsock_of_framed hf ln io e
  have hv' := hv.append hf stale
  rw [← paclen_of_framed hf] at hv'
  obtain ⟨p, gtk, idx, rsc, h3⟩ := recvGroup1_of_proven io
    (e := { e with packet := (frameOf frame).padded stale }) hy ht
    ⟨hv'.fresh, hv'.mic, hv'.unwrap⟩ (hg.append hf stale)
  refine ⟨p, gtk, idx, rsc, ?_⟩
  rw [h, dispatch_negotiated (by exact hs), h3]
  rfl

end Taken

end Minibase.Wsupp
