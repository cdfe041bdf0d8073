import Attos.Lib.Proc
import Attos.Net.Headers

/-!
# The IPv4 stack

`ipv4_ethernet_device` of `attos/net/tftp.cpp`: what happens to a received
Ethernet frame, from `eth_in` down to the receive function of a UDP socket.

A frame lies at the start of a memory that goes on behind it, so a read past
the received bytes reads something, and a pair of an offset and a length can
name bytes that were never received. Each handler announces the bytes it was
given as an event before it looks at them, and these events remain when the
handler aborts.
-/

namespace Attos.Net

open Lib

/-- A received frame: the first `length` bytes of `mem`. -/
structure Frame : Type where
  /-- the memory from the start of the frame on -/
  mem : ℕ → UInt8
  /-- the number of bytes received -/
  length : ℕ
  /-- the length is a `uint32_t` -/
  word : length < 2 ^ 32

/-- A part of a frame as it is handed on: a pointer and a length. -/
structure Slice : Type where
  /-- the distance of the pointer from the start of the frame -/
  offset : ℕ
  /-- the number of bytes -/
  length : ℕ
  deriving DecidableEq

/-- `ipv4_net_config` -/
structure Ipv4NetConfig : Type where
  /-- the address of the device -/
  addr : Ipv4Address
  /-- the mask of its subnet -/
  netmask : Ipv4Address
  /-- where packets for other subnets go -/
  gateway : Ipv4Address
  deriving DecidableEq

/-- `ipv4_net_config_none` -/
def ipv4NetConfigNone : Ipv4NetConfig := ⟨inaddrAny, inaddrAny, inaddrAny⟩

/-- `arp_entry` -/
structure ArpEntry : Type where
  /-- protocol address -/
  pa : Ipv4Address
  /-- hardware address -/
  ha : MacAddress
  deriving DecidableEq

/-- `open_udp_socket`: the address and the port of the socket, and which
receive function it was opened with. -/
structure OpenUdpSocket : Type where
  /-- `local_addr()` of the socket -/
  localAddr : Ipv4Address
  /-- `local_port()` of the socket -/
  localPort : ℕ
  /-- the receive function -/
  recvFunc : ℕ
  deriving DecidableEq

/-- `ipv4_ethernet_device` -/
structure Ipv4EthernetDevice : Type where
  /-- `hw_address()` of the Ethernet device -/
  hwAddress : MacAddress
  /-- the configuration -/
  ipv4Config_ : Ipv4NetConfig
  /-- the ARP cache -/
  arpEntries_ : List ArpEntry
  /-- the open sockets -/
  udpSockets_ : List OpenUdpSocket

/-- What others see of the stack. -/
inductive NetEvent : Type where
  /-- `ipv4_in` is called with this payload -/
  | ipv4In : Slice → NetEvent
  /-- `icmp_in` is called with this payload -/
  | icmpIn : Slice → NetEvent
  /-- `udp_in` is called with this payload -/
  | udpIn : Slice → NetEvent
  /-- the receive function of a socket is called with this datagram -/
  | recv : OpenUdpSocket → Slice → NetEvent
  /-- a frame is sent -/
  | send : List UInt8 → NetEvent
  deriving DecidableEq

/-- A member function of the device. -/
abbrev NetProc : Type → Type := Proc Ipv4EthernetDevice NetEvent

namespace Ipv4EthernetDevice

open Proc

/-- `ipv4_ethernet_device()` -/
def ofHwAddress (hwAddress : MacAddress) : Ipv4EthernetDevice :=
  ⟨hwAddress, ipv4NetConfigNone, [], []⟩

/-- `ipv4_config`: a device is configured once. -/
def ipv4Config (config : Ipv4NetConfig) : NetProc Unit := do
  let dev ← get
  require (dev.ipv4Config_.addr = inaddrAny)
  require (config.addr ≠ inaddrAny ∧ config.addr ≠ inaddrBroadcast)
  require (config.netmask ≠ inaddrAny)
  modify fun dev => { dev with ipv4Config_ := config }

/-- **`ipv4_config`** returns once. -/
theorem ipv4Config_done {dev : Ipv4EthernetDevice} {config : Ipv4NetConfig}
    (h : (ipv4Config config dev).outcome = .done ⟨⟩) :
    dev.ipv4Config_.addr = inaddrAny ∧ config.addr ≠ inaddrAny ∧
      (ipv4Config config dev).state = { dev with ipv4Config_ := config } := by
  rw [ipv4Config, get_bind_run] at h ⊢
  by_cases hnone : dev.ipv4Config_.addr = inaddrAny
  · rw [require_pos hnone, pure_bind] at h ⊢
    by_cases haddr : config.addr ≠ inaddrAny ∧ config.addr ≠ inaddrBroadcast
    · rw [require_pos haddr, pure_bind] at h ⊢
      by_cases hnetmask : config.netmask ≠ inaddrAny
      · rw [require_pos hnetmask, pure_bind, modify_run]
        exact ⟨hnone, haddr.1, rfl⟩
      · rw [require_neg hnetmask, abort_bind, abort_run] at h
        cases h
    · rw [require_neg haddr, abort_bind, abort_run] at h
      cases h
  · rw [require_neg hnone, abort_bind, abort_run] at h
    cases h

/-! ## ARP -/

/-- The first entry for the address. -/
def findArpEntry (dev : Ipv4EthernetDevice) (ip : Ipv4Address) : Option ArpEntry :=
  dev.arpEntries_.find? fun e => e.pa = ip

/-- `e->ha = ha` for the first entry `e` of the address. -/
def setHa (ip : Ipv4Address) (ha : MacAddress) : List ArpEntry → List ArpEntry
  | [] => []
  | e :: es => if e.pa = ip then { e with ha := ha } :: es else e :: setHa ip ha es

/-- Append an entry for a new address. -/
def addArpEntry (pa : Ipv4Address) (ha : MacAddress) : NetProc Unit := do
  let dev ← get
  require (dev.findArpEntry pa = none)
  modify fun dev => { dev with arpEntries_ := dev.arpEntries_ ++ [⟨pa, ha⟩] }

/-- `if (!merge_flag) add_arp_entry(pa, ha)` -/
def addUnless (mergeFlag : Bool) (pa : Ipv4Address) (ha : MacAddress) : NetProc Unit :=
  if mergeFlag then pure () else addArpEntry pa ha

/-- Send an ARP packet. -/
def sendArp (oper : ℕ) (spa : Ipv4Address) (tha : MacAddress) (tpa : Ipv4Address) :
    NetProc Unit := do
  let dev ← get
  let ah : ArpHeader :=
    { htype := ArpHtype.ethernet, ptype := Ethertype.ipv4, hlen := 0x06, plen := 0x04, oper := oper
      sha := dev.hwAddress, spa := spa, tha := tha, tpa := tpa }
  emit (.send (putEthernetHeader tha dev.hwAddress Ethertype.arp ++ ah.put))

/-- Update the cache from a received packet and answer a request. -/
def arpIn (ah : ArpHeader) : NetProc Unit := do
  require (ah.htype = ArpHtype.ethernet)
  require (ah.ptype = Ethertype.ipv4)
  require (ah.hlen = 0x06)
  require (ah.plen = 0x04)
  require (ah.oper = ArpOperation.request ∨ ah.oper = ArpOperation.reply)
  require (ah.sha ≠ MacAddress.broadcast)
  let dev ← get
  if dev.ipv4Config_.addr = inaddrAny then
    -- no address yet: ignore ARP
    pure ()
  else do
    let mergeFlag := (dev.findArpEntry ah.spa).isSome
    modify fun dev => { dev with arpEntries_ := setHa ah.spa ah.sha dev.arpEntries_ }
    if dev.ipv4Config_.addr = ah.tpa then do
      addUnless mergeFlag ah.spa ah.sha
      if ah.oper = ArpOperation.request then
        sendArp ArpOperation.reply ah.tpa ah.sha ah.spa
      else
        pure ()
    else
      pure ()

/-! ## IPv4 output -/

/-- Fill in the Ethernet header of the buffer and send it. -/
def sendIpv4 (data : List UInt8) (dst : MacAddress) : NetProc Unit := do
  let dev ← get
  emit (.send (putEthernetHeader dst dev.hwAddress Ethertype.ipv4 ++ data.drop sizeofEthernetHeader))

/-- The address in the own subnet that a packet to `dst` goes to. -/
def nextHop (dst : Ipv4Address) : NetProc Ipv4Address := do
  let dev ← get
  if dst &&& dev.ipv4Config_.netmask ≠ dev.ipv4Config_.addr &&& dev.ipv4Config_.netmask then do
    require (dev.ipv4Config_.gateway ≠ inaddrAny)
    pure dev.ipv4Config_.gateway
  else
    pure dst

/-- Send the IPv4 packet in the buffer, which has room for the Ethernet header
at its front, or ask for the hardware address of the next hop. -/
def ipv4Out (data : List UInt8) : NetProc Unit := do
  require (sizeofEthernetHeader + sizeofIpv4Header ≤ data.length ∧ data.length ≤ ethernetMaxBytes)
  let ih := Ipv4Header.read (view data) sizeofEthernetHeader
  require (ih.ver = 4 ∧ ih.ihl = 5)
  if ih.dst = inaddrBroadcast then
    sendIpv4 data MacAddress.broadcast
  else if ih.dst = inaddrAny then
    abort
  else do
    let tpa ← nextHop ih.dst
    let dev ← get
    match dev.findArpEntry tpa with
    | some ae => sendIpv4 data ae.ha
    | none => sendArp ArpOperation.request dev.ipv4Config_.addr MacAddress.broadcast tpa

/-- The bytes of an `ipv4_header` without options, as the stack fills it in. -/
def putIpv4Header (length : ℕ) (protocol : UInt8) (checksum : ℕ) (src dst : Ipv4Address) :
    List UInt8 :=
  [0x45, 0] ++ put16 length ++ [0, 0, 0, 0, 64, protocol] ++ put16 checksum ++
    putIpv4 src ++ putIpv4 dst

/-- The header with its checksum. -/
def ipv4Header (length : ℕ) (protocol : UInt8) (src dst : Ipv4Address) : List UInt8 :=
  putIpv4Header length protocol (inetCsum (putIpv4Header length protocol 0 src dst) 0) src dst

/-! ## ICMP -/

/-- The bytes of an `icmp_header`. -/
def putIcmpHeader (type code : UInt8) (checksum restOfHeader : ℕ) : List UInt8 :=
  [type, code] ++ put16 checksum ++ put32 restOfHeader

/-- The ICMP message that answers an echo request. -/
def echoReply (restOfHeader : ℕ) (payload : List UInt8) : List UInt8 :=
  let unsummed := putIcmpHeader IcmpType.echoReply 0 0 restOfHeader ++ payload
  putIcmpHeader IcmpType.echoReply 0 (inetCsum unsummed 0) restOfHeader ++ payload

/-- Answer an echo request. -/
def icmpIn (fr : Frame) (ih : Ipv4Header) (icmpH : IcmpHeader) (data : Slice) : NetProc Unit := do
  emit (.icmpIn data)
  let dev ← get
  if ih.dst ≠ inaddrAny ∧ ih.dst = dev.ipv4Config_.addr ∧ icmpH.type = IcmpType.echoRequest then do
    require (icmpH.code = 0)
    require (data.length <
      ethernetMaxBytes - (sizeofEthernetHeader + sizeofIpv4Header + sizeofIcmpHeader))
    let payload := bytesAt fr.mem data.offset data.length
    ipv4Out (List.replicate sizeofEthernetHeader 0 ++
      ipv4Header (sizeofIpv4Header + sizeofIcmpHeader + data.length) IpProtocol.icmp ih.dst ih.src ++
      echoReply icmpH.restOfHeader payload)
  else
    pure ()

/-! ## UDP -/

/-- The first socket that takes datagrams for this address and port. -/
def findOpenUdpSocket (dev : Ipv4EthernetDevice) (localAddr : Ipv4Address) (localPort : ℕ) :
    Option OpenUdpSocket :=
  dev.udpSockets_.find? fun s =>
    (s.localAddr = inaddrAny ∨ s.localAddr = localAddr) ∧ s.localPort = localPort

/-- Pass the datagram to the socket it is for. -/
def udpIn (ih : Ipv4Header) (uh : UdpHeader) (data : Slice) : NetProc Unit := do
  emit (.udpIn data)
  require (uh.length ≥ sizeofUdpHeader)
  require (data.length ≥ uh.length - sizeofUdpHeader)
  let dev ← get
  match dev.findOpenUdpSocket ih.dst uh.dstPort with
  | some s => emit (.recv s ⟨data.offset, uh.length - sizeofUdpHeader⟩)
  | none => pure ()

/-! ## Input -/

/-- Pass on the payload of an IPv4 packet. -/
def ipv4In (fr : Frame) (ih : Ipv4Header) (data : Slice) : NetProc Unit := do
  emit (.ipv4In data)
  if ih.protocol = IpProtocol.icmp then do
    require (data.length ≥ sizeofIcmpHeader)
    require (inetCsum (bytesAt fr.mem data.offset (u16 data.length)) 0 = 0)
    icmpIn fr ih (IcmpHeader.read fr.mem data.offset)
      ⟨data.offset + sizeofIcmpHeader, data.length - sizeofIcmpHeader⟩
  else if ih.protocol = IpProtocol.igmp ∨ ih.protocol = IpProtocol.tcp then
    pure ()
  else if ih.protocol = IpProtocol.udp then do
    require (data.length ≥ sizeofUdpHeader)
    udpIn ih (UdpHeader.read fr.mem data.offset)
      ⟨data.offset + sizeofUdpHeader, data.length - sizeofUdpHeader⟩
  else
    abort

/-- A received frame. -/
def ethIn (fr : Frame) : NetProc Unit := do
  require (fr.length ≥ sizeofEthernetHeader)
  let type := be16 fr.mem 12
  let data := sizeofEthernetHeader
  let length := fr.length - sizeofEthernetHeader
  if type = Ethertype.ipv4 then do
    require (length ≥ sizeofIpv4Header)
    let ih := Ipv4Header.read fr.mem data
    require (ih.ver = 4)
    require (ih.ihl ≥ 5)
    require (ih.ihl * 4 ≤ length)
    require (ih.length ≤ length)
    require (inetCsum (bytesAt fr.mem data (ih.ihl * 4)) 0 = 0)
    -- the difference is computed in `int` and passed on as `uint32_t`
    ipv4In fr ih ⟨data + ih.ihl * 4, sub32 ih.length (ih.ihl * 4)⟩
  else if type = Ethertype.arp then do
    require (length ≥ sizeofArpHeader)
    arpIn (ArpHeader.read fr.mem data)
  else if type = Ethertype.ipv6 then do
    require (length ≥ 40)
    require ((fr.mem data).toNat / 16 = 6)
  else
    abort

end Ipv4EthernetDevice

end Attos.Net
