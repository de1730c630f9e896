import Minibase.Crypto.Mem
import Minibase.Crypto.Aes128
import Minibase.Wsupp.Eapolkey

/-!
# Key negotiations

`wsupp_eapol.c`: the supplicant's side of the four-way handshake and of the group key
updates that follow it. What the file keeps between two calls is in `Wsupp.Eapol`; what it reads of
the rest of the program is in `Wsupp.Link`. The functions return an `Wsupp.Out`: their own result,
the state they leave, and the calls they made out of the file, in order. How a send or an upload
turns out comes in as `Wsupp.Io`. Frames are received into, checked in and built in the one buffer
`packet`: checking a MIC zeroes it there, and unwrapping a key happens in place.
-/

namespace Minibase.Wsupp

open Bytes Eapolkey

/-! ### Errors -/

def EAGAIN : ℤ := 11
def EINVAL : ℤ := 22
def EBADMSG : ℤ := 74
def EMSGSIZE : ℤ := 90
def ENOKEY : ℤ := 126

/-! ### State -/

/-- `eapolstate`: which message is waited for, or that there are keys. -/
inductive EapolState where
  | idle
  | waiting14
  | waiting24
  | waiting34
  | negotiated
deriving DecidableEq

/-- The ciphers chosen for the current network, none before one was: what `ap.txies`,
`ap.iesize` and `ap.gtklen` are set to, always together. -/
inductive Cipher where
  | none
  | ccmp
  | tkip
deriving DecidableEq

namespace Cipher

/-- `ap.txies`, `ap.iesize` bytes of it. -/
def txies : Cipher → List UInt8
  | none => []
  | ccmp => [0x30, 0x14, 0x01, 0x00, 0x00, 0x0F, 0xAC, 0x04, 0x01, 0x00, 0x00, 0x0F, 0xAC, 0x04,
      0x01, 0x00, 0x00, 0x0F, 0xAC, 0x02, 0x00, 0x00]
  | tkip => [0x30, 0x14, 0x01, 0x00, 0x00, 0x0F, 0xAC, 0x02, 0x01, 0x00, 0x00, 0x0F, 0xAC, 0x04,
      0x01, 0x00, 0x00, 0x0F, 0xAC, 0x02, 0x00, 0x00]

/-- `ap.gtklen`. -/
def gtklen : Cipher → ℕ
  | none => 0
  | ccmp => 16
  | tkip => 32

end Cipher

/-- What the negotiations read of the rest of the program. -/
structure Link where
  /-- `PSK`. -/
  PSK : Bytes 32
  /-- `ifaddr`, the address of the card. -/
  ifaddr : Bytes 6
  /-- `ap.bssid`, the address of the access point. -/
  bssid : Bytes 6
  cipher : Cipher

/-- The state of `wsupp_eapol.c`. -/
structure Eapol where
  eapolstate : EapolState
  eapolsends : Bool
  version : UInt8
  /-- The address of the authenticator. -/
  amac : Bytes 6
  /-- The address of the supplicant. -/
  smac : Bytes 6
  anonce : Bytes 32
  snonce : Bytes 32
  replay : Bytes 8
  KCK : Bytes 16
  KEK : Bytes 16
  PTK : Bytes 16
  GTK : Bytes 32
  RSC : Bytes 6
  gtkindex : ℕ
  packet : Eapolkey

/-- The buffer, all zeros: 1024 bytes. -/
def zeroPacket : Eapolkey := ofBytes (List.replicate 1024 0)

/-- Static storage as the program starts. -/
def Eapol.init : Eapol where
  eapolstate := .idle
  eapolsends := false
  version := 0
  amac := zero 6
  smac := zero 6
  anonce := zero 32
  snonce := zero 32
  replay := zero 8
  KCK := zero 16
  KEK := zero 16
  PTK := zero 16
  GTK := zero 32
  RSC := zero 6
  gtkindex := 0
  packet := zeroPacket

/-- A call out of the file. -/
inductive Call where
  /-- `send_packet`: the address and the bytes. -/
  | send (dest : Bytes 6) (pkt : List UInt8)
  /-- `upload_ptk`, and the key it sends to the card. -/
  | uploadPtk (key : Bytes 16)
  /-- `upload_gtk`, with the key, its index and its sequence number. -/
  | uploadGtk (key : List UInt8) (idx : ℕ) (rsc : Bytes 6)
  /-- `eapol_success`. -/
  | success
  /-- `abort_connection`. -/
  | abort (err : ℤ)
deriving DecidableEq

/-- What the system calls return: `sendto`, and the two messages to the card. -/
structure Io where
  sendto : ℤ
  uploadPtk : ℤ
  uploadGtk : ℤ

/-- What a function does: its result, the state after it and its calls. -/
structure Out where
  ret : ℤ
  eapol : Eapol
  calls : List Call

/-! ### Cryptography -/

/-- `PRF480`: three times HMAC over the same input, but for its last byte. -/
def PRF480 (key str mac1 mac2 nonce1 nonce2 : List UInt8) : List UInt8 :=
  let ibuf := str ++ [0] ++ mac1 ++ mac2 ++ nonce1 ++ nonce2
  hmacSha1 key 32 (ibuf ++ [0]) ++ hmacSha1 key 32 (ibuf ++ [1]) ++ hmacSha1 key 32 (ibuf ++ [2])

/-- The label of the pairwise keys: `Pairwise key expansion`. -/
def astr : List UInt8 :=
  [0x50, 0x61, 0x69, 0x72, 0x77, 0x69, 0x73, 0x65, 0x20, 0x6b, 0x65, 0x79, 0x20, 0x65, 0x78, 0x70,
    0x61, 0x6e, 0x73, 0x69, 0x6f, 0x6e]

/-- The keys `pmk_to_ptk` derives, from both addresses and both nonces: the smaller one
of each goes first. -/
def pairwiseKey (PSK : Bytes 32) (smac amac : Bytes 6) (snonce anonce : Bytes 32) : List UInt8 :=
  let macs := if memcmp smac.data amac.data < 0 then (smac.data, amac.data)
    else (amac.data, smac.data)
  let nonces := if memcmp snonce.data anonce.data < 0 then (snonce.data, anonce.data)
    else (anonce.data, snonce.data)
  PRF480 PSK.data astr macs.1 macs.2 nonces.1 nonces.2

def pmkToPtk (ln : Link) (e : Eapol) : Eapol :=
  let key := pairwiseKey ln.PSK ln.ifaddr ln.bssid e.snonce e.anonce
  { e with
    smac := ln.ifaddr
    amac := ln.bssid
    KCK := ofList 16 key
    KEK := ofList 16 (key.drop 16)
    PTK := ofList 16 (key.drop 32) }

/-- `make_mic`, over the first `len` bytes of the buffer. -/
def makeMic (kck : Bytes 16) (ek : Eapolkey) (len : ℕ) : Bytes 16 :=
  ofList 16 (hmacSha1 kck.data 16 (ek.bytes.take len))

/-- `check_mic`: zero if the MIC is right. The MIC in the buffer is zeroed. -/
def checkMic (kck : Bytes 16) (ek : Eapolkey) (len : ℕ) : UInt32 × Eapolkey :=
  let copy := ek.mic
  let ek := { ek with mic := zero 16 }
  (memxcmp ((hmacSha1 kck.data 16 (ek.bytes.take len)).take 16) copy.data, ek)

/-- `unwrap_key`: zero if the key was unwrapped, and the buffer after it. -/
def unwrapKey (kek : Bytes 16) (buf : List UInt8) : UInt32 × List UInt8 :=
  if buf.length % 8 ≠ 0 ∨ buf.length < 16 then (0xFFFFFFFF, buf)
  else
    let buf := aes128Unwrap kek.data buf
    (memxcmp (buf.take 8) (List.replicate 8 0xA6), buf)

/-! ### The group key -/

def kdeTypeGtk : List UInt8 := [0x00, 0x0F, 0xAC, 0x01]

/-- `store_gtk`. The halves of the second part of a long key are swapped. -/
def storeGtk (ln : Link) (idx : ℕ) (buf : List UInt8) (e : Eapol) : ℤ × Eapol :=
  let explen := ln.cipher.gtklen
  if buf.length ≠ explen then (-1, e)
  else
    let tail := if explen = 32 then (buf.drop 24).take 8 ++ (buf.drop 16).take 8
      else e.GTK.data.drop 16
    (0, { e with gtkindex := idx, GTK := ofList 32 (buf.take 16 ++ tail) })

/-- `fetch_gtk`: the first suitable element of the list is it. Every turn of the loop
moves forward by two bytes at least, so that the length of the buffer bounds their
number. -/
def fetchGtk (ln : Link) : ℕ → List UInt8 → Eapol → ℤ × Eapol
  | 0, _, e => (-1, e)
  | n + 1, buf, e =>
    let magic := buf.getD 0 0
    let len := (buf.getD 1 0).toNat
    let kdlen := 2 + len
    let rest := buf.drop kdlen
    let datalen : ℤ := len + 2 - 6
    let data := (buf.drop 6).take (len - 4)
    if ¬6 < buf.length then (-1, e)
    else if buf.length < kdlen then (-1, e)
    else if magic ≠ 0xDD then fetchGtk ln n rest e
    else if memcmp ((buf.drop 2).take 4) kdeTypeGtk ≠ 0 then fetchGtk ln n rest e
    else if datalen < 2 + 16 then fetchGtk ln n rest e
    else if data.getD 0 0 &&& 3 = 0 then (-1, e)
    else storeGtk ln (data.getD 0 0 &&& 3).toNat (data.drop 2) e

/-! ### Starting over -/

variable (e : Eapol)

def cleanupKeys : Eapol :=
  { e with
    packet := zeroPacket
    anonce := zero 32
    snonce := zero 32
    PTK := zero 16
    GTK := zero 32 }

def resetEapolState : Eapol :=
  { cleanupKeys e with
    KCK := zero 16
    GTK := zero 32
    KEK := zero 16
    snonce := zero 32
    anonce := zero 32
    amac := zero 6
    smac := zero 6
    version := 0 }

/-- `prime_eapol_state`, given what `getrandom` did: fail, or fill in the nonce. -/
def primeEapolState (random : Except ℤ (Bytes 32)) (e : Eapol) : ℤ × Eapol :=
  let e := { e with eapolstate := .waiting14, eapolsends := false }
  match random with
  | .error err => (err, e)
  | .ok nonce => (32, { e with snonce := nonce })

/-! ### Frames out -/

/-- `keyinfo` bits. -/
def KI_TYPEMASK : UInt16 := 0x0007
def KI_SHA : UInt16 := 2
def KI_PAIRWISE : UInt16 := (1 : UInt16) <<< 3
def KI_ACK : UInt16 := (1 : UInt16) <<< 7
def KI_MIC : UInt16 := (1 : UInt16) <<< 8
def KI_SECURE : UInt16 := (1 : UInt16) <<< 9
def KI_ENCRYPTED : UInt16 := (1 : UInt16) <<< 12

def EAPOL_KEY : UInt8 := 3
def EAPOL_KEY_RSN : UInt8 := 2

/-- The result of `send_packet`: a short write is an error too. -/
def sendPacket (io : Io) (len : ℕ) : ℤ :=
  if io.sendto < 0 then io.sendto else if io.sendto ≠ len then -EMSGSIZE else io.sendto

variable (ek : Eapolkey)

/-- The frame with its MIC, made over `len` bytes. -/
def Eapolkey.signed (kck : Bytes 16) (len : ℕ) : Eapolkey :=
  { ek with mic := makeMic kck ek len }

/-- The frame of `send_packet_2`, but for the MIC. -/
def packet2 (ln : Link) (e : Eapol) : Eapolkey :=
  let payload := ln.cipher.txies
  let paylen := payload.length
  let paclen := eksize + paylen
  { e.packet with
    version := e.version
    pactype := EAPOL_KEY
    type := EAPOL_KEY_RSN
    keyinfo := KI_SHA ||| KI_PAIRWISE ||| KI_MIC
    keylen := 16
    replay := e.replay
    nonce := e.snonce
    iv := zero 16
    rsc := zero 8
    mic := zero 16
    reserved := zero 8
    paylen := UInt16.ofNat paylen
    paclen := UInt16.ofNat (paclen - 4)
    payload := payload ++ e.packet.payload.drop paylen }

def sendPacket2 (ln : Link) (io : Io) (e : Eapol) : Out :=
  let paclen := eksize + ln.cipher.txies.length
  let e := { e with packet := (packet2 ln e).signed e.KCK paclen }
  let ret := sendPacket io paclen
  let sent := Call.send e.amac (e.packet.bytes.take paclen)
  if ret < 0 then ⟨ret, e, [sent]⟩
  else ⟨0, { e with eapolstate := .waiting34 }, [sent]⟩

/-- The frame of `send_packet_4`, but for the MIC. -/
def packet4 : Eapolkey :=
  let paclen := eksize
  { e.packet with
    version := e.version
    pactype := 3
    type := 2
    keyinfo := KI_SHA ||| KI_PAIRWISE ||| KI_MIC ||| KI_SECURE
    keylen := 0
    replay := e.replay
    nonce := zero 32
    iv := zero 16
    rsc := zero 8
    mic := zero 16
    reserved := zero 8
    paylen := 0
    paclen := UInt16.ofNat (paclen - 4) }

/-- The call of `upload_ptk`. -/
def ptkCall : Call := .uploadPtk e.PTK

/-- The call of `upload_gtk`. -/
def gtkCall (ln : Link) (e : Eapol) : Call :=
  .uploadGtk (e.GTK.data.take ln.cipher.gtklen) e.gtkindex e.RSC

def sendPacket4 (ln : Link) (io : Io) (e : Eapol) : Out :=
  let paclen := eksize
  let e := { e with packet := (packet4 e).signed e.KCK paclen }
  let ret := sendPacket io paclen
  let sent := Call.send e.amac (e.packet.bytes.take paclen)
  if ret < 0 then ⟨ret, e, [sent]⟩
  else
    let e := { e with eapolstate := .negotiated }
    if io.uploadPtk < 0 then ⟨io.uploadPtk, e, [sent, ptkCall e]⟩
    else if io.uploadGtk < 0 then ⟨io.uploadGtk, e, [sent, ptkCall e, gtkCall ln e]⟩
    else ⟨0, cleanupKeys e, [sent, ptkCall e, gtkCall ln e, .success]⟩

/-- The frame of `send_group_2`, but for the MIC. -/
def group2 : Eapolkey :=
  let paclen := eksize
  { e.packet with
    version := e.version
    pactype := 3
    type := 2
    keyinfo := KI_MIC ||| KI_SECURE
    keylen := 0
    replay := e.replay
    nonce := zero 32
    iv := zero 16
    rsc := zero 8
    mic := zero 16
    reserved := zero 8
    paylen := 0
    paclen := UInt16.ofNat paclen }

def sendGroup2 (ln : Link) (io : Io) (e : Eapol) : Out :=
  let paclen := eksize
  let e := { e with packet := (group2 e).signed e.KCK paclen }
  let ret := sendPacket io paclen
  let sent := Call.send e.amac (e.packet.bytes.take paclen)
  if ret < 0 then ⟨ret, e, [sent]⟩
  else if io.uploadGtk < 0 then ⟨io.uploadGtk, e, [sent, gtkCall ln e]⟩
  else ⟨0, e, [sent, gtkCall ln e]⟩

def allowEapolSends (ln : Link) (io : Io) (e : Eapol) : Out :=
  match e.eapolstate with
  | .waiting14 => ⟨0, { e with eapolsends := true }, []⟩
  | .waiting24 => sendPacket2 ln io e
  | _ => ⟨-EINVAL, e, []⟩

/-! ### Frames in -/

def ptype (bits : UInt16) : Bool :=
  let mask := KI_PAIRWISE ||| KI_ACK ||| KI_SECURE ||| KI_MIC ||| KI_ENCRYPTED
  ek.keyinfo &&& KI_TYPEMASK = KI_SHA ∧ ek.keyinfo &&& mask = bits

/-- The first frame of a handshake: the conditions under which `recv_packet_1` takes
it. -/
def isPacket1 : Bool :=
  ek.type = EAPOL_KEY_RSN ∧ ptype ek (KI_PAIRWISE ||| KI_ACK)

/-- What `recv_packet_1` remembers of a frame, keys included. -/
def takePacket1 (ln : Link) (ek : Eapolkey) (e : Eapol) : Eapol :=
  pmkToPtk ln { e with version := ek.version, anonce := ek.nonce, replay := ek.replay }

/-- `recv_packet_1`, on the frame in the buffer. -/
def recvPacket1 (ln : Link) (io : Io) (e : Eapol) : Out :=
  if ¬isPacket1 e.packet then ⟨0, e, []⟩
  else
    let e := takePacket1 ln e.packet e
    if e.eapolsends then sendPacket2 ln io e
    else ⟨0, { e with eapolstate := .waiting24 }, []⟩

/-- The payload of the frame in the buffer. -/
def Eapolkey.keydata : List UInt8 := ek.payload.take ek.paylen.toNat

/-- The frame in the buffer after its payload was unwrapped in place. -/
def Eapolkey.unwrapped (kek : Bytes 16) (ek : Eapolkey) : Eapolkey :=
  { ek with payload := (unwrapKey kek ek.keydata).2 ++ ek.payload.drop ek.paylen.toNat }

/-- What the second half of `recv_packet_3` and of `recv_group_1` does: unwrap the
payload, find the group key there, and remember what came with it. -/
def takeKeys (ln : Link) (send : Eapol → Out) (e : Eapol) : Out :=
  let u := unwrapKey e.KEK e.packet.keydata
  let e := { e with packet := e.packet.unwrapped e.KEK }
  if u.1 ≠ 0 then ⟨-ENOKEY, e, []⟩
  else
    let f := fetchGtk ln e.packet.paylen.toNat (u.2.drop 8) e
    let e := f.2
    if f.1 ≠ 0 then ⟨-ENOKEY, e, []⟩
    else send { e with RSC := ofList 6 e.packet.rsc.data, replay := e.packet.replay }

def recvPacket3 (ln : Link) (io : Io) (e : Eapol) : Out :=
  let paclen := 4 + e.packet.paclen.toNat
  if ptype e.packet (KI_PAIRWISE ||| KI_ACK) then ⟨0, e, []⟩
  else if ¬ptype e.packet (KI_PAIRWISE ||| KI_ACK ||| KI_MIC ||| KI_ENCRYPTED ||| KI_SECURE) then
    ⟨0, e, []⟩
  else if memcmp e.anonce.data e.packet.nonce.data ≠ 0 then ⟨-EBADMSG, e, []⟩
  else if memcmp e.replay.data e.packet.replay.data ≥ 0 then ⟨-EBADMSG, e, []⟩
  else
    let m := checkMic e.KCK e.packet paclen
    let e := { e with packet := m.2 }
    if m.1 ≠ 0 then ⟨-EBADMSG, e, []⟩
    else takeKeys ln (sendPacket4 ln io) e

def recvGroup1 (ln : Link) (io : Io) (e : Eapol) : Out :=
  let paclen := 4 + e.packet.paclen.toNat
  if e.packet.type ≠ EAPOL_KEY_RSN then ⟨0, e, []⟩
  else if ¬ptype e.packet (KI_SECURE ||| KI_ENCRYPTED ||| KI_ACK ||| KI_MIC) then ⟨0, e, []⟩
  else if memcmp e.replay.data e.packet.replay.data ≥ 0 then ⟨0, e, []⟩
  else
    let m := checkMic e.KCK e.packet paclen
    let e := { e with packet := m.2 }
    if m.1 ≠ 0 then ⟨0, e, []⟩
    else takeKeys ln (sendGroup2 ln io) e

def dispatch (ln : Link) (io : Io) (e : Eapol) : Out :=
  match e.eapolstate with
  | .waiting14 => recvPacket1 ln io e
  | .waiting34 => recvPacket3 ln io e
  | .negotiated => recvGroup1 ln io e
  | _ => ⟨0, e, []⟩

/-- `recvfrom`: what arrives overwrites the front of the buffer, and what does not fit is
cut off. -/
def recvfrom (frame : List UInt8) (ek : Eapolkey) : Eapolkey :=
  ofBytes (frame.take 1024 ++ ek.bytes.drop frame.length)

/-- The checks of `handle_rawsock` on `rd` bytes in the buffer. -/
def wellFramed (rd : ℕ) : Bool :=
  eksize ≤ rd ∧ ek.paclen.toNat + 4 = rd ∧ eksize + ek.paylen.toNat ≤ rd ∧
    ek.pactype = EAPOL_KEY

/-- `handle_rawsock`, with the frame that is there to be received. -/
def handleRawsock (ln : Link) (io : Io) (sender : Bytes 6) (frame : List UInt8) (e : Eapol) : Out :=
  let rd := min frame.length 1024
  let e := { e with packet := recvfrom frame e.packet }
  if memcmp ln.bssid.data sender.data ≠ 0 then ⟨0, e, []⟩
  else if ¬wellFramed e.packet rd then ⟨0, e, []⟩
  else
    let o := dispatch ln io e
    if o.ret < 0 then { o with calls := o.calls ++ [.abort o.ret] } else o

end Minibase.Wsupp
