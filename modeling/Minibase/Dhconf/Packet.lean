import Minibase.Lib.Bytes

/-!
# DHCP packets as the client reads them

`dhconf` listens on a raw socket, so that what it gets is an IP packet with everything in
it, `struct dhcpmsg` of `dhconf.h`: 20 bytes of IP header, 8 of UDP header, 240 of DHCP
header, and the options. `Dhconf.getOpt` is the search through the options
(`dhconf_options.c`), which knows neither the padding option nor the end mark.
-/

namespace Minibase.Dhconf

/-- A datagram: its bytes and the address of the interface it came from. -/
structure Dgram where
  bytes : List UInt8
  mac : List UInt8
deriving DecidableEq

/-- `sizeof(struct dhcpmsg)`. -/
def msgSize : ℕ := 268

/-- `REPSIZE`, the room for a reply. -/
def repsize : ℕ := 750

/-- The message types of RFC 2132 that are looked for. -/
def DHCPOFFER : UInt8 := 2

@[inherit_doc DHCPOFFER] def DHCPACK : UInt8 := 5

@[inherit_doc DHCPOFFER] def DHCPNAK : UInt8 := 6

/-- The options that are looked for. -/
def DHCP_LEASE_TIME : UInt8 := 51

@[inherit_doc DHCP_LEASE_TIME] def DHCP_MESSAGE_TYPE : UInt8 := 53

@[inherit_doc DHCP_LEASE_TIME] def DHCP_SERVER_ID : UInt8 := 54

/-! ### Options -/

/-- The loop of `get_opt`; every round eats two bytes at least. -/
def getOptIn (code : UInt8) : ℕ → List UInt8 → Option (List UInt8)
  | fuel + 1, c :: n :: rest =>
    if rest.length < n.toNat then none
    else if c ≠ code then getOptIn code fuel (rest.drop n.toNat)
    else some (rest.take n.toNat)
  | _, _ => none

/-- `get_opt`: the payload of the first option with a given code. -/
def getOpt (code : UInt8) (options : List UInt8) : Option (List UInt8) :=
  getOptIn code options.length options

def checkSize (size : ℕ) (opt : Option (List UInt8)) : Option (List UInt8) :=
  opt.filter fun payload => payload.length = size

namespace Dgram

/-! ### Fields -/

variable (dg : Dgram)

/-- What `recvfrom` puts into the buffer. -/
def buf : List UInt8 := dg.bytes.take repsize

/-- Some bytes of the message. -/
def slice (off len : ℕ) : List UInt8 := (dg.buf.drop off).take len

/-- `ip.verihl`. -/
def verihl : List UInt8 := dg.slice 0 1

/-- `ip.tot_len`. -/
def totLen : ℕ := beVal (dg.slice 2 2)

/-- `ip.protocol`. -/
def protocol : List UInt8 := dg.slice 9 1

/-- `ip.saddr`. -/
def saddr : List UInt8 := dg.slice 12 4

/-- `udp.dest`. -/
def dest : ℕ := beVal (dg.slice 22 2)

/-- `udp.len`. -/
def udpLen : ℕ := beVal (dg.slice 24 2)

/-- `dhcp.xid`. -/
def xid : ℕ := beVal (dg.slice 32 4)

/-- `dhcp.yiaddr`. -/
def yiaddr : List UInt8 := dg.slice 44 4

/-- `dhcp.cookie`. -/
def cookie : ℕ := beVal (dg.slice 264 4)

def options : List UInt8 := dg.buf.drop msgSize

def getMsgOpt (code : UInt8) (size : ℕ) : Option (List UInt8) :=
  checkSize size (getOpt code dg.options)

/-- The message type, an option of one byte. -/
def msgType : Option UInt8 := (dg.getMsgOpt DHCP_MESSAGE_TYPE 1).bind List.head?

/-- The lease time, an option of four. -/
def leaseTime : Option ℕ := (dg.getMsgOpt DHCP_LEASE_TIME 4).map beVal

/-- `DHCP_COOKIE`. -/
def magic : ℕ := 0x63825363

/-- The checks of `recv_packet` and `handle_packet`, in their order: the packet is long
enough, it is UDP over IP to the port of a client, and it answers this client. -/
def relevant (xid : ℕ) : Bool :=
  msgSize ≤ dg.buf.length && dg.protocol = [17] && dg.verihl = [0x45] && dg.dest = 68 &&
    (dg.udpLen : ℤ) = dg.totLen - 20 && dg.cookie = magic && dg.xid = xid

end Dgram

/-! ### Lease times fit in 32 bits -/

lemma checkSize_eq_some {size : ℕ} {opt : Option (List UInt8)} {l : List UInt8}
    (h : checkSize size opt = some l) : l.length = size := by
  rw [checkSize, Option.filter_eq_some_iff] at h
  simpa using h.2

lemma Dgram.leaseTime_lt {dg : Dgram} {lt : ℕ} (h : dg.leaseTime = some lt) : lt < 2 ^ 32 := by
  rw [Dgram.leaseTime, Option.map_eq_some_iff] at h
  obtain ⟨l, hl, rfl⟩ := h
  have hlen : l.length = 4 := checkSize_eq_some hl
  have hlt := beVal_lt l
  rw [hlen] at hlt
  calc beVal l < 256 ^ 4 := hlt
    _ = 2 ^ 32 := rfl

end Minibase.Dhconf
