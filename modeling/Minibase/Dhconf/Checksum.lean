import Minibase.Lib.Bytes
import Minibase.Lib.OnesSum

/-!
# Checksums of outgoing packets

`put_ip_udp` of `dhconf_packet.c`, with `checksum`, `flipcarry`, `ipchecksum` and `udpchecksum`.
What goes out adds up (`Dhconf.Checksum.finished`), and all of it fits into thirty-two bits.
But a checksum of zero says that there is none, and nothing is done about one that comes to
zero: the packet is right exactly if it does not (`Dhconf.Checksum.put_ip_udp_iff`).
-/

namespace Minibase.Dhconf

namespace Checksum

open List

/-- The size of the buffer a packet is made in. -/
def CMDSIZE : ℕ := 350

def BOOT_SERVER_PORT : ℕ := 67
def BOOT_CLIENT_PORT : ℕ := 68
def IPV4IHL5 : UInt8 := 0x45
def IPPROTO_UDP : UInt8 := 17
def IPDEFTTL : UInt8 := 64

/-- A field of sixteen bits. -/
structure U16 where
  val : ℕ
  lt : val < 65536

/-- What is put into a field, as `htons` puts it. -/
def U16.of (n : ℕ) : U16 := ⟨n % 65536, Nat.mod_lt _ (by decide)⟩

/-- Its bytes, as they are sent. -/
def U16.bytes (x : U16) : List UInt8 := [UInt8.ofNat (x.val / 256), UInt8.ofNat x.val]

/-- `struct iphdr`. -/
structure Iphdr where
  verihl : UInt8
  tos : UInt8
  totLen : U16
  id : U16
  fragOff : U16
  ttl : UInt8
  protocol : UInt8
  check : U16
  saddr : Bytes 4
  daddr : Bytes 4

/-- `struct udphdr`. -/
structure Udphdr where
  source : U16
  dest : U16
  len : U16
  check : U16

def Iphdr.bytes (ip : Iphdr) : List UInt8 :=
  [ip.verihl, ip.tos] ++ ip.totLen.bytes ++ ip.id.bytes ++ ip.fragOff.bytes ++
    [ip.ttl, ip.protocol] ++
    ip.check.bytes ++ ip.saddr.data ++ ip.daddr.data

def Udphdr.bytes (udp : Udphdr) : List UInt8 :=
  udp.source.bytes ++ udp.dest.bytes ++ udp.len.bytes ++ udp.check.bytes

/-- A packet: its headers, and the `dhcp` part with the options. -/
structure Msg where
  ip : Iphdr
  udp : Udphdr
  body : List UInt8

/-- The loop of `checksum`, in thirty-two bits. -/
def checksumFrom : List UInt8 → ℕ → ℕ
  | a :: b :: l, sum => checksumFrom l ((((sum + a.toNat * 256) % 2 ^ 32) + b.toNat) % 2 ^ 32)
  | [a], sum => (sum + a.toNat * 256) % 2 ^ 32
  | [], sum => sum

def checksum (buf : List UInt8) : ℕ := checksumFrom buf 0

/-- `sum = (sum & 0xFFFF) + (sum >> 16)`. -/
def addCarry (sum : ℕ) : ℕ := (sum % 65536 + sum / 65536) % 2 ^ 32

def flipcarry (sum : ℕ) : ℕ := (2 ^ 32 - 1 - addCarry (addCarry sum)) % 65536

def ipchecksum (buf : List UInt8) : ℕ := flipcarry (checksum buf)

/-- The sum in `udpchecksum`. -/
def udpsum (buf ips : List UInt8) : ℕ :=
  ((checksum buf + checksum ips) % 2 ^ 32 + (buf.length + IPPROTO_UDP.toNat)) % 2 ^ 32

def udpchecksum (buf ips : List UInt8) : ℕ := flipcarry (udpsum buf ips)

/-- The headers before the checksum of the datagram is made. -/
def fillUdp (msg : Msg) : Msg :=
  { msg with
    ip := { msg.ip with
      protocol := IPPROTO_UDP, saddr := ⟨[0, 0, 0, 0], rfl⟩, daddr := ⟨[255, 255, 255, 255], rfl⟩ }
    udp := { msg.udp with source := .of BOOT_CLIENT_PORT, dest := .of BOOT_SERVER_PORT,
                          len := .of (8 + msg.body.length) } }

/-- The checksum of the datagram, and the other fields of the header. -/
def fillIp (msg : Msg) : Msg :=
  { msg with
    udp := { msg.udp with
             check := .of (udpchecksum (msg.udp.bytes ++ msg.body)
               (msg.ip.saddr.data ++ msg.ip.daddr.data)) }
    ip := { msg.ip with totLen := .of (28 + msg.body.length), verihl := IPV4IHL5, ttl := IPDEFTTL }
      }

def putIpUdp (msg : Msg) : Msg :=
  let msg := fillIp (fillUdp msg)
  { msg with ip := { msg.ip with check := .of (ipchecksum msg.ip.bytes) } }

/-! ### What the sums are -/

/-- The header that a datagram is summed up with. -/
def pseudo (msg : Msg) : List UInt8 :=
  msg.ip.saddr.data ++ msg.ip.daddr.data ++ [0, IPPROTO_UDP] ++ msg.udp.len.bytes

/-- **A packet that adds up.** -/
structure Valid (msg : Msg) : Prop where
  ip : onesSum (words msg.ip.bytes) = 0xFFFF
  udp : onesSum (words (pseudo msg ++ (msg.udp.bytes ++ msg.body))) = 0xFFFF

lemma checksumFrom_eq {l : List UInt8} {sum : ℕ} (h : sum + (words l).sum < 2 ^ 32) :
    checksumFrom l sum = sum + (words l).sum := by
  fun_induction checksumFrom l sum with
  | case1 a b l sum ih =>
    rw [words, sum_cons] at h ⊢
    have hmod : ((sum + a.toNat * 256) % 2 ^ 32 + b.toNat) % 2 ^ 32 =
      sum + (a.toNat * 256 + b.toNat) := by omega
    rw [hmod] at ih
    rw [hmod, ih (by omega)]
    omega
  | case2 a sum =>
    rw [words, sum_singleton] at h ⊢
    exact Nat.mod_eq_of_lt h
  | case3 sum => rfl

lemma addCarry_eq {n : ℕ} (h : n < 2 ^ 32) : addCarry n = carried n := by
  rw [addCarry, carried]
  omega

/-- **The complement** of a sum with all carries taken care of. -/
theorem flipcarry_eq {n : ℕ} (h : n < 2 ^ 32) : flipcarry n = 65535 - settled n := by
  have hc : carried n < 2 ^ 32 := by
    rw [carried]
    omega
  have hle := settled_le n
  rw [flipcarry, addCarry_eq h, addCarry_eq hc, carried_carried h]
  omega

lemma words_u16 (x : U16) (l : List UInt8) : words (x.bytes ++ l) = x.val :: words l := by
  have hlt := x.lt
  have hval : (UInt8.ofNat (x.val / 256)).toNat * 256 + (UInt8.ofNat x.val).toNat = x.val := by
    rw [UInt8.toNat_ofNat', UInt8.toNat_ofNat']
    omega
  show _ :: words l = _
  rw [hval]

lemma words_pair (a b : UInt8) (l : List UInt8) :
    words ([a, b] ++ l) = (a.toNat * 256 + b.toNat) :: words l :=
  rfl

lemma sum_words_le (l : List UInt8) : (words l).sum ≤ 65535 * l.length := by
  fun_induction words l with
  | case1 a b l ih =>
    have ha := a.toNat_lt
    have hb := b.toNat_lt
    rw [sum_cons, length_cons, length_cons]
    omega
  | case2 a =>
    have ha := a.toNat_lt
    rw [sum_singleton, length_singleton]
    omega
  | case3 => exact le_refl 0

lemma onesSum_words (l : List UInt8) : onesSum (words l) = settled (words l).sum :=
  onesSum_eq fun _ => words_lt

/-! ### What goes out -/

/-- **A packet is cleared** before it is filled, and it is in a buffer. -/
structure Fresh (msg : Msg) : Prop where
  ip : msg.ip.check.val = 0
  udp : msg.udp.check.val = 0
  size : 28 + msg.body.length ≤ CMDSIZE

/-- What goes into the checksum of the datagram. -/
def udpWords (msg : Msg) : ℕ :=
  131070 + 17 + (8 + msg.body.length) + (68 + (67 + (8 + msg.body.length + (words msg.body).sum)))

/-- What goes into that of the header. -/
def ipWords (msg : Msg) : ℕ :=
  0x4500 + msg.ip.tos.toNat + (28 + msg.body.length) + msg.ip.id.val + msg.ip.fragOff.val + 0x4011 +
    131070

section Sums

variable {msg : Msg}

lemma val_of {n : ℕ} (h : n < 65536) : (U16.of n).val = n := Nat.mod_eq_of_lt h

/-- The words of the datagram, with some checksum. -/
theorem sum_udp (h : Fresh msg) (check : U16) :
    (words ((fillUdp { msg with udp := { msg.udp with check := check } }).udp.bytes ++
      msg.body)).sum =
      68 + (67 + (8 + msg.body.length + (check.val + (words msg.body).sum))) := by
  have hsize := h.size
  rw [CMDSIZE] at hsize
  have hlen : (U16.of (8 + msg.body.length)).val = 8 + msg.body.length := val_of (by omega)
  rw [Udphdr.bytes, append_assoc, append_assoc, append_assoc, words_u16, words_u16, words_u16,
    words_u16]
  simp only [sum_cons, fillUdp, hlen]
  rfl

lemma sum_body_le (h : Fresh msg) : (words msg.body).sum ≤ 65535 * 322 := by
  have hsize := h.size
  have hle := sum_words_le msg.body
  rw [CMDSIZE] at hsize
  omega

/-- The addresses. -/
def ips (msg : Msg) : List UInt8 := (fillUdp msg).ip.saddr.data ++ (fillUdp msg).ip.daddr.data

lemma checksum_ips (msg : Msg) : checksum (ips msg) = 131070 := by
  show checksum [0, 0, 0, 0, 255, 255, 255, 255] = 131070
  decide

/-- **The sum of the datagram**, with nothing lost. -/
theorem udpsum_eq (h : Fresh msg) :
    udpsum ((fillUdp msg).udp.bytes ++ msg.body) (ips msg) = udpWords msg := by
  have hsum := sum_udp h msg.udp.check
  have hbody := sum_body_le h
  have hsize := h.size
  rw [CMDSIZE] at hsize
  rw [h.udp, zero_add] at hsum
  have hbuf : checksum ((fillUdp msg).udp.bytes ++ msg.body) = _ :=
    (checksumFrom_eq (by rw [zero_add]; exact hsum ▸ (by omega))).trans ((zero_add _).trans hsum)
  have hlen : ((fillUdp msg).udp.bytes ++ msg.body).length = 8 + msg.body.length := length_append ..
  have hproto : IPPROTO_UDP.toNat = 17 := rfl
  rw [udpsum, hbuf, checksum_ips, hlen, hproto, udpWords]
  omega

lemma sum_words_ip (ip : Iphdr) : (words ip.bytes).sum =
    ip.verihl.toNat * 256 + ip.tos.toNat + (ip.totLen.val + (ip.id.val + (ip.fragOff.val +
      (ip.ttl.toNat * 256 + ip.protocol.toNat +
        (ip.check.val + (words (ip.saddr.data ++ ip.daddr.data)).sum))))) := by
  simp only [Iphdr.bytes, append_assoc, words_pair, words_u16, sum_cons]

lemma sum_ip (h : Fresh msg) (check : U16) :
    (words { (fillIp (fillUdp msg)).ip with check := check }.bytes).sum = ipWords msg +
      check.val := by
  have hsize := h.size
  rw [CMDSIZE] at hsize
  have hlen : (U16.of (28 + msg.body.length)).val = 28 + msg.body.length := val_of (by omega)
  have haddr : (words ([0, 0, 0, 0] ++ [255, 255, 255, 255])).sum = 131070 := by decide
  have hsum : (words { (fillIp (fillUdp msg)).ip with check := check }.bytes).sum =
      IPV4IHL5.toNat * 256 + msg.ip.tos.toNat + ((U16.of (28 + msg.body.length)).val +
        (msg.ip.id.val +
        (msg.ip.fragOff.val + (IPDEFTTL.toNat * 256 + IPPROTO_UDP.toNat + (check.val +
          (words ([0, 0, 0, 0] ++ [255, 255, 255, 255])).sum))))) := sum_words_ip _
  have hver : IPV4IHL5.toNat = 0x45 := rfl
  have httl : IPDEFTTL.toNat = 64 := rfl
  have hproto : IPPROTO_UDP.toNat = 17 := rfl
  rw [hsum, hver, httl, hproto, hlen, haddr, ipWords]
  omega

/-- **The sum of the header**, with nothing lost. -/
theorem checksum_ip (h : Fresh msg) : checksum (fillIp (fillUdp msg)).ip.bytes = ipWords msg := by
  have hsum := sum_ip h msg.ip.check
  rw [h.ip, add_zero] at hsum
  have hsize := h.size
  rw [CMDSIZE] at hsize
  have htos := msg.ip.tos.toNat_lt
  have hid := msg.ip.id.lt
  have hfrag := msg.ip.fragOff.lt
  have hlt : ipWords msg < 2 ^ 32 := by
    rw [ipWords]
    omega
  exact (checksumFrom_eq (by rw [zero_add]; exact hsum ▸ hlt)).trans ((zero_add _).trans hsum)

lemma udpWords_lt (h : Fresh msg) : udpWords msg < 2 ^ 32 := by
  have hbody := sum_body_le h
  have hsize := h.size
  rw [CMDSIZE] at hsize
  rw [udpWords]
  omega

lemma ipWords_lt (h : Fresh msg) : ipWords msg < 2 ^ 32 := by
  have htos := msg.ip.tos.toNat_lt
  have hid := msg.ip.id.lt
  have hfrag := msg.ip.fragOff.lt
  have hsize := h.size
  rw [CMDSIZE] at hsize
  rw [ipWords]
  omega

/-- A checksum as it is sent. -/
theorem val_of_flipcarry {n : ℕ} (hn : n < 2 ^ 32) :
    (U16.of (flipcarry n)).val = 65535 - settled n := by
  rw [flipcarry_eq hn]
  exact val_of (by omega)

/-- The words of the header that a datagram is summed up with. -/
theorem sum_pseudo (h : Fresh msg) {m : Msg} (hsaddr : m.ip.saddr.data = [0, 0, 0, 0])
    (hdaddr : m.ip.daddr.data = [255, 255, 255, 255]) (hudp : m.udp.len = .of (8 + msg.body.length))
    (l : List UInt8) :
    (words (pseudo m ++ l)).sum = 131070 + 17 + (8 + msg.body.length) + (words l).sum := by
  have hsize := h.size
  rw [CMDSIZE] at hsize
  have hlen : (U16.of (8 + msg.body.length)).val = 8 + msg.body.length := val_of (by omega)
  have hwords : words (pseudo m ++ l) =
      0 :: 0 :: 65535 :: 65535 :: 17 :: words ((U16.of (8 + msg.body.length)).bytes ++ l) := by
    rw [pseudo, hsaddr, hdaddr, hudp]
    rfl
  rw [hwords, words_u16, hlen]
  simp only [sum_cons]
  omega

/-- **What goes out adds up.** -/
theorem finished (h : Fresh msg) : Valid (putIpUdp msg) := by
  constructor
  · have hsum := sum_ip h (.of (ipchecksum (fillIp (fillUdp msg)).ip.bytes))
    have hcheck : (U16.of (ipchecksum (fillIp (fillUdp msg)).ip.bytes)).val =
      65535 - settled (ipWords msg) := by
      rw [ipchecksum, checksum_ip h]
      exact val_of_flipcarry (ipWords_lt h)
    rw [hcheck] at hsum
    exact (onesSum_words _).trans ((congrArg settled hsum).trans (settled_add_compl _))
  · have hsum := sum_udp h (.of (udpchecksum ((fillUdp msg).udp.bytes ++ msg.body) (ips msg)))
    have hcheck : (U16.of (udpchecksum ((fillUdp msg).udp.bytes ++ msg.body) (ips msg))).val =
        65535 - settled (udpWords msg) := by
      rw [udpchecksum, udpsum_eq h]
      exact val_of_flipcarry (udpWords_lt h)
    rw [hcheck] at hsum
    -- it is summed up with the header that is not sent
    have hall := sum_pseudo h (m := putIpUdp msg) rfl rfl
      rfl ((putIpUdp msg).udp.bytes ++ (putIpUdp msg).body)
    have hbytes : (words ((putIpUdp msg).udp.bytes ++ (putIpUdp msg).body)).sum = _ := hsum
    rw [hbytes] at hall
    have htotal : (words (pseudo (putIpUdp msg) ++ ((putIpUdp msg).udp.bytes ++
      (putIpUdp msg).body))).sum = udpWords msg + (65535 - settled (udpWords msg)) := by
      rw [hall, udpWords]
      omega
    exact (onesSum_words _).trans ((congrArg settled htotal).trans (settled_add_compl _))

/-- **A packet with checksums that are right**: it adds up, nothing was lost or left over when
the sums were made, and the one of the datagram is not taken for none. -/
structure Right (msg : Msg) : Prop where
  valid : Valid (putIpUdp msg)
  ip_exact : checksum (fillIp (fillUdp msg)).ip.bytes = (words (fillIp (fillUdp msg)).ip.bytes).sum
  udp_exact : udpsum ((fillUdp msg).udp.bytes ++ msg.body) (ips msg) =
    (words (pseudo (fillUdp msg) ++ ((fillUdp msg).udp.bytes ++ msg.body))).sum
  ip_carried : addCarry (addCarry (checksum (fillIp (fillUdp msg)).ip.bytes)) < 65536
  udp_carried : addCarry (addCarry (udpsum ((fillUdp msg).udp.bytes ++ msg.body) (ips msg))) < 65536
  present : (putIpUdp msg).udp.check.val ≠ 0

lemma addCarry_addCarry_lt {n : ℕ} (h : n < 2 ^ 32) : addCarry (addCarry n) < 65536 := by
  have hc : carried n < 2 ^ 32 := by
    rw [carried]
    omega
  rw [addCarry_eq h, addCarry_eq hc, carried_carried h]
  exact Nat.lt_succ_of_le (settled_le n)

/-- The checksum of the datagram. -/
theorem check_val (h : Fresh msg) : (putIpUdp msg).udp.check.val =
    65535 - settled (udpWords msg) := by
  show (U16.of (udpchecksum ((fillUdp msg).udp.bytes ++ msg.body) (ips msg))).val = _
  rw [udpchecksum, udpsum_eq h]
  exact val_of_flipcarry (udpWords_lt h)

/-- **The checksums are right** exactly if that of the datagram does not come to zero. -/
theorem put_ip_udp_iff (h : Fresh msg) :
    Right msg ↔ ¬ 65535 ∣ 152 + 2 * (8 + msg.body.length) + (words msg.body).sum := by
  have hcheck := check_val h
  have hzero : (putIpUdp msg).udp.check.val ≠ 0 ↔
      ¬ 65535 ∣ 152 + 2 * (8 + msg.body.length) + (words msg.body).sum := by
    have hle := settled_le (udpWords msg)
    have hiff := settled_eq_iff (udpWords msg)
    -- the addresses add up to twice 65535, which makes no difference
    have hsame : (0 < udpWords msg ∧ 65535 ∣ udpWords msg) ↔
        65535 ∣ 152 + 2 * (8 + msg.body.length) + (words msg.body).sum := by
      rw [udpWords]
      omega
    rw [hcheck, not_iff_not, ← hsame, ← hiff]
    omega
  rw [← hzero]
  constructor
  · exact fun hright => hright.present
  · intro hpresent
    have hip := sum_ip h msg.ip.check
    have hudp := sum_udp h msg.udp.check
    have hpseudo := sum_pseudo h (m := fillUdp msg) rfl rfl
      rfl ((fillUdp msg).udp.bytes ++ msg.body)
    rw [h.ip, add_zero] at hip
    rw [h.udp, zero_add] at hudp
    refine ⟨finished h, ?_, ?_, ?_, ?_, hpresent⟩
    · exact (checksum_ip h).trans hip.symm
    · rw [udpsum_eq h, udpWords, ← hudp]
      exact hpseudo.symm
    · rw [checksum_ip h]
      exact addCarry_addCarry_lt (ipWords_lt h)
    · rw [udpsum_eq h]
      exact addCarry_addCarry_lt (udpWords_lt h)

end Sums

variable (body : List UInt8)

/-- A header of a message that was cleared, with what is in it otherwise. -/
def cleared : Msg where
  ip := ⟨0, 0, .of 0, .of 0, .of 0, 0, 0, .of 0, .zero 4, .zero 4⟩
  udp := ⟨.of 0, .of 0, .of 0, .of 0⟩
  body := body

lemma cleared_body : (cleared body).body = body := rfl

lemma cleared_fresh {body : List UInt8} (h : 28 + body.length ≤ CMDSIZE) : Fresh (cleared body) :=
    ⟨rfl, rfl, h⟩

lemma udpWords_cleared : udpWords (cleared body) =
    131070 + 17 + (8 + body.length) + (68 + (67 + (8 + body.length + (words body).sum))) := rfl

/-- So many words of zeros. -/
def zeros (k : ℕ) : List UInt8 := replicate (2 * k) 0

lemma length_zeros (k : ℕ) : (zeros k).length = 2 * k := length_replicate

lemma sum_zeros (k : ℕ) (l : List UInt8) : (words (zeros k ++ l)).sum = (words l).sum := by
  induction k with
  | zero => rfl
  | succ k ih =>
    have hcons : zeros (k + 1) ++ l = 0 :: 0 :: (zeros k ++ l) := rfl
    rw [hcons, words, sum_cons, ih]
    exact Nat.zero_add _

/-- `DHCPDISCOVER` of the address 02:00:00:00:00:01, with the transaction that it is for. -/
def discover (xid : List UInt8) : List UInt8 :=
  [1, 1, 6, 0] ++ (xid ++ (zeros 10 ++ ([2, 0, 0, 0, 0, 1] ++ (zeros 101 ++
    [0x63, 0x82, 0x53, 0x63, 53, 1, 1, 255]))))

lemma length_discover (xid : List UInt8) : (discover xid).length = 240 + xid.length := by
  simp only [discover, length_append, length_zeros, length_cons, length_nil]
  omega

lemma sum_discover (a b c d : UInt8) (l : List UInt8) :
    (words (discover [a, b, c, d] ++ l)).sum =
      63207 + (a.toNat * 256 + b.toNat) + (c.toNat * 256 + d.toNat) + (words l).sum := by
  have hend : ∀ k, (words (zeros 101 ++ ([0x63, 0x82, 0x53, 0x63, 53, 1, 1, 255] ++ k))).sum =
      25474 + (21347 + (13569 + (511 + (words k).sum))) := by
    intro k
    -- zeros add nothing
    rw [sum_zeros]
    rfl
  have hmac : ∀ k, (words ([2, 0, 0, 0, 0, 1] ++ k)).sum = 512 + (0 + (1 + (words k).sum)) :=
    fun _ => rfl
  have hstart : ∀ k, (words ([1, 1, 6, 0] ++ ([a, b, c, d] ++ k))).sum =
      257 + (1536 + (a.toNat * 256 + b.toNat + (c.toNat * 256 + d.toNat + (words k).sum))) :=
    fun _ => rfl
  rw [discover]
  simp only [append_assoc]
  rw [hstart, sum_zeros, hmac, hend]
  omega

/-- A body of odd length: a message with a byte of padding. -/
theorem put_ip_udp_iff_odd : Right (cleared (discover [0, 0, 0, 1] ++ [0])) := by
  have hlen : (discover [0, 0, 0, 1] ++ [0]).length = 245 := by
    rw [length_append, length_discover]
    rfl
  have hfresh : Fresh (cleared (discover [0, 0, 0, 1] ++ [0])) := by
    refine cleared_fresh ?_
    rw [hlen, CMDSIZE]
    decide
  refine (put_ip_udp_iff hfresh).mpr ?_
  rw [cleared_body, hlen, sum_discover]
  simp [words]

/-- **A checksum may come to zero**, for one transaction in so many. -/
theorem not_put_ip_udp : ¬ ∀ msg : Msg, Fresh msg → Right msg := by
  intro h
  have hlen : (discover [0, 0, 0x06, 0x88]).length = 244 := length_discover _
  have hfresh : Fresh (cleared (discover [0, 0, 0x06, 0x88])) := by
    refine cleared_fresh ?_
    rw [hlen, CMDSIZE]
    decide
  have hsum : (words (discover [0, 0, 0x06, 0x88])).sum = 64879 := by
    have hsum := sum_discover 0 0 0x06 0x88 []
    rwa [append_nil] at hsum
  have hwords : udpWords (cleared (discover [0, 0, 0x06, 0x88])) = 3 * 65535 := by
    rw [udpWords_cleared, hlen, hsum]
  refine (h _ hfresh).present ?_
  rw [check_val hfresh, hwords]
  decide

end Checksum

end Minibase.Dhconf
