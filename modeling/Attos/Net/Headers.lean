import Attos.Lib.Bytes
import Attos.Lib.Word

/-!
# Addresses, headers and the checksum

The packet formats of `attos/net/net.h` that the network stack reads and
writes. A header is read from memory at an offset; only the fields that the
stack looks at are kept. The constants of an enumeration are plain numbers,
because a received field can hold any value.
-/

namespace Attos.Net

open Lib

/-- An Ethernet address. -/
abbrev MacAddress : Type := Vector UInt8 6

/-- `mac_address::broadcast` -/
def MacAddress.broadcast : MacAddress := #v[0xff, 0xff, 0xff, 0xff, 0xff, 0xff]

/-- The Ethernet address at `a`. -/
def macAt (m : ℕ → UInt8) (a : ℕ) : MacAddress :=
  #v[m a, m (a + 1), m (a + 2), m (a + 3), m (a + 4), m (a + 5)]

/-- An IPv4 address, in host byte order. -/
abbrev Ipv4Address : Type := UInt32

/-- `inaddr_any` -/
def inaddrAny : Ipv4Address := 0

/-- `inaddr_broadcast` -/
def inaddrBroadcast : Ipv4Address := 0xffffffff

/-- The IPv4 address at `a`. -/
def ipv4At (m : ℕ → UInt8) (a : ℕ) : Ipv4Address := UInt32.ofNat (be32 m a)

/-- The bytes of an IPv4 address. -/
def putIpv4 (ip : Ipv4Address) : List UInt8 := put32 ip.toNat

/-! ## Ethernet -/

/-- `sizeof(ethernet_header)` -/
def sizeofEthernetHeader : ℕ := 14

/-- `ethernet_max_bytes` -/
def ethernetMaxBytes : ℕ := 1500

/-- `ethertype::ipv4` -/
def Ethertype.ipv4 : ℕ := 0x0800

/-- `ethertype::arp` -/
def Ethertype.arp : ℕ := 0x0806

/-- `ethertype::ipv6` -/
def Ethertype.ipv6 : ℕ := 0x86dd

/-- The bytes of an `ethernet_header`. -/
def putEthernetHeader (dst src : MacAddress) (type : ℕ) : List UInt8 :=
  dst.toList ++ src.toList ++ put16 type

/-! ## ARP -/

/-- `sizeof(arp_header)` -/
def sizeofArpHeader : ℕ := 28

/-- `arp_htype::ethernet` -/
def ArpHtype.ethernet : ℕ := 1

/-- `arp_operation::request` -/
def ArpOperation.request : ℕ := 1

/-- `arp_operation::reply` -/
def ArpOperation.reply : ℕ := 2

/-- `arp_header` -/
structure ArpHeader : Type where
  /-- hardware type -/
  htype : ℕ
  /-- protocol type -/
  ptype : ℕ
  /-- hardware address length -/
  hlen : UInt8
  /-- protocol address length -/
  plen : UInt8
  /-- operation -/
  oper : ℕ
  /-- sender hardware address -/
  sha : MacAddress
  /-- sender protocol address -/
  spa : Ipv4Address
  /-- target hardware address -/
  tha : MacAddress
  /-- target protocol address -/
  tpa : Ipv4Address

/-- The `arp_header` at `a`. -/
def ArpHeader.read (m : ℕ → UInt8) (a : ℕ) : ArpHeader where
  htype := be16 m a
  ptype := be16 m (a + 2)
  hlen := m (a + 4)
  plen := m (a + 5)
  oper := be16 m (a + 6)
  sha := macAt m (a + 8)
  spa := ipv4At m (a + 14)
  tha := macAt m (a + 18)
  tpa := ipv4At m (a + 24)

/-- The bytes of an `arp_header`. -/
def ArpHeader.put (ah : ArpHeader) : List UInt8 :=
  put16 ah.htype ++ put16 ah.ptype ++ [ah.hlen, ah.plen] ++ put16 ah.oper ++ ah.sha.toList ++
    putIpv4 ah.spa ++ ah.tha.toList ++ putIpv4 ah.tpa

/-! ## IPv4 -/

/-- `sizeof(ipv4_header)` -/
def sizeofIpv4Header : ℕ := 20

/-- `ip_protocol::icmp` -/
def IpProtocol.icmp : UInt8 := 0x01

/-- `ip_protocol::igmp` -/
def IpProtocol.igmp : UInt8 := 0x02

/-- `ip_protocol::tcp` -/
def IpProtocol.tcp : UInt8 := 0x06

/-- `ip_protocol::udp` -/
def IpProtocol.udp : UInt8 := 0x11

/-- `ipv4_header` -/
structure Ipv4Header : Type where
  /-- header length in units of four bytes -/
  ihl : ℕ
  /-- version -/
  ver : ℕ
  /-- total length -/
  length : ℕ
  /-- protocol of the payload -/
  protocol : UInt8
  /-- source address -/
  src : Ipv4Address
  /-- destination address -/
  dst : Ipv4Address

/-- The `ipv4_header` at `a`. -/
def Ipv4Header.read (m : ℕ → UInt8) (a : ℕ) : Ipv4Header where
  ihl := (m a).toNat % 16
  ver := (m a).toNat / 16
  length := be16 m (a + 2)
  protocol := m (a + 9)
  src := ipv4At m (a + 12)
  dst := ipv4At m (a + 16)

/-! ## ICMP and UDP -/

/-- `sizeof(icmp_header)` -/
def sizeofIcmpHeader : ℕ := 8

/-- `icmp_type::echo_reply` -/
def IcmpType.echoReply : UInt8 := 0

/-- `icmp_type::echo_request` -/
def IcmpType.echoRequest : UInt8 := 8

/-- `icmp_header` -/
structure IcmpHeader : Type where
  /-- type -/
  type : UInt8
  /-- code -/
  code : UInt8
  /-- identifier and sequence number of an echo -/
  restOfHeader : ℕ

/-- The `icmp_header` at `a`. -/
def IcmpHeader.read (m : ℕ → UInt8) (a : ℕ) : IcmpHeader where
  type := m a
  code := m (a + 1)
  restOfHeader := be32 m (a + 4)

/-- `sizeof(udp_header)` -/
def sizeofUdpHeader : ℕ := 8

/-- `udp_header` -/
structure UdpHeader : Type where
  /-- source port -/
  srcPort : ℕ
  /-- destination port -/
  dstPort : ℕ
  /-- length of header and data -/
  length : ℕ

/-- The `udp_header` at `a`. -/
def UdpHeader.read (m : ℕ → UInt8) (a : ℕ) : UdpHeader where
  srcPort := be16 m a
  dstPort := be16 m (a + 2)
  length := be16 m (a + 4)

/-! ## The Internet checksum -/

/-- The summation loop of `inet_csum`. -/
def csumLoop : List UInt8 → ℕ → ℕ
  | b₀ :: b₁ :: bs, result => csumLoop bs (u32 (result + (b₀.toNat * 256 + b₁.toNat)))
  | [b], result => u32 (result + b.toNat * 256)
  | [], result => result

/-- `inet_csum` of the bytes `src`, started from `init`. -/
def inetCsum (src : List UInt8) (init : ℕ) : ℕ :=
  let result := csumLoop src init
  let result := result / 2 ^ 16 + result % 2 ^ 16
  let result := result + result / 2 ^ 16
  2 ^ 16 - 1 - result % 2 ^ 16

end Attos.Net
