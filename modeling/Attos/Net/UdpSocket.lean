import Attos.Net.Checksum
import Attos.Net.Ipv4Device

/-!
# UDP sockets

Sending a datagram. A datagram
that one device sends is received by another one as it was: the headers that
`sendto` and `ipv4_out` write pass the checks of `eth_in`, also when the frame is
padded, and the bytes that reach the receive function are the ones that were
sent (`udp_round_trip`).
-/

namespace Attos.Net

open Lib

/-- `udp_socket` -/
structure UdpSocket : Type where
  /-- `local_addr_` -/
  localAddr_ : Ipv4Address
  /-- `local_port_` -/
  localPort_ : ℕ
  deriving DecidableEq

/-- The bytes of a `udp_header`. -/
def putUdpHeader (srcPort dstPort length checksum : ℕ) : List UInt8 :=
  put16 srcPort ++ put16 dstPort ++ put16 length ++ put16 checksum

namespace Ipv4EthernetDevice

open Proc

/-- `sendto`. The Ethernet header at the front of the buffer is filled in
later. -/
def sendto (s : UdpSocket) (remoteAddr : Ipv4Address) (remotePort : ℕ) (data : List UInt8) :
    NetProc Unit := do
  require (data.length ≤
    ethernetMaxBytes - (sizeofEthernetHeader + sizeofIpv4Header + sizeofUdpHeader))
  ipv4Out (List.replicate sizeofEthernetHeader 0 ++
    ipv4Header (u16 (sizeofIpv4Header + sizeofUdpHeader + data.length)) IpProtocol.udp
      s.localAddr_ remoteAddr ++
    putUdpHeader s.localPort_ remotePort (u16 (sizeofUdpHeader + data.length)) 0 ++ data)

end Ipv4EthernetDevice

/-! ## Headers in memory -/

section Headers

open Ipv4EthernetDevice

variable {m : ℕ → UInt8} {a : ℕ}

/-- An address is read as it was written. -/
theorem ipv4At_of_stores {ip : Ipv4Address} (h : Stores m a (putIpv4 ip)) : ipv4At m a = ip := by
  rw [ipv4At, h.be32_eq ip.toNat_lt, UInt32.ofNat_toNat]

/-- The header that the stack writes is read back. -/
theorem ipv4Header_of_stores {length checksum : ℕ} {protocol : UInt8} {src dst : Ipv4Address}
    (hlength : length < 2 ^ 16)
    (h : Stores m a (putIpv4Header length protocol checksum src dst)) :
    Ipv4Header.read m a = ⟨5, 4, length, protocol, src, dst⟩ := by
  rw [putIpv4Header] at h
  simp only [Stores.append_iff, Stores.cons_iff, List.length_append, List.length_cons,
    List.length_nil, length_put16, Nat.reduceAdd, ← Nat.add_assoc] at h
  obtain ⟨⟨⟨⟨⟨⟨hver, -⟩, hlen⟩, -, -, -, -, -, hproto, -⟩, -⟩, hsrc⟩, hdst⟩ := h
  have hdst' : ipv4At m (a + 16) = dst := ipv4At_of_stores hdst
  have hproto' : m (a + 9) = protocol := hproto
  simp [Ipv4Header.read, hver, hlen.be16_eq hlength, hproto', ipv4At_of_stores hsrc, hdst']

/-- So is the header of a datagram. -/
theorem udpHeader_of_stores {srcPort dstPort length checksum : ℕ} (hsrc : srcPort < 2 ^ 16)
    (hdst : dstPort < 2 ^ 16) (hlength : length < 2 ^ 16)
    (h : Stores m a (putUdpHeader srcPort dstPort length checksum)) :
    UdpHeader.read m a = ⟨srcPort, dstPort, length⟩ := by
  rw [putUdpHeader] at h
  simp only [Stores.append_iff, List.length_append, length_put16, Nat.reduceAdd] at h
  obtain ⟨⟨⟨hs, hd⟩, hl⟩, -⟩ := h
  simp [UdpHeader.read, hs.be16_eq hsrc, hd.be16_eq hdst, hl.be16_eq hlength]

@[simp] theorem length_ipv4Header (length : ℕ) (protocol : UInt8) (src dst : Ipv4Address) :
    (ipv4Header length protocol src dst).length = 20 := rfl

@[simp] theorem length_putUdpHeader (srcPort dstPort length checksum : ℕ) :
    (putUdpHeader srcPort dstPort length checksum).length = 8 := rfl

@[simp] theorem length_putEthernetHeader (dst src : MacAddress) (type : ℕ) :
    (putEthernetHeader dst src type).length = 14 := by
  simp [putEthernetHeader]

/-- **The header has the checksum zero.** -/
theorem inetCsum_ipv4Header (length : ℕ) (protocol : UInt8) (src dst : Ipv4Address) :
    inetCsum (ipv4Header length protocol src dst) 0 = 0 := by
  have hfill := @inetCsum_fill ([0x45, 0] ++ put16 length ++ [0, 0, 0, 0, 64, protocol])
    (putIpv4 src ++ putIpv4 dst) (by simp) (by simp [putIpv4])
  simpa only [ipv4Header, putIpv4Header, List.append_assoc] using hfill

end Headers

/-! ## A datagram on its way -/

/-- The socket takes datagrams for this address and port. -/
def OpenUdpSocket.IsFor (s : OpenUdpSocket) (addr : Ipv4Address) (port : ℕ) : Prop :=
  (s.localAddr = inaddrAny ∨ s.localAddr = addr) ∧ s.localPort = port

instance (s : OpenUdpSocket) (addr : Ipv4Address) (port : ℕ) : Decidable (s.IsFor addr port) :=
  inferInstanceAs (Decidable (_ ∧ _))

/-- The datagrams that the receive functions are called with. -/
def deliveries (fr : Frame) (events : List NetEvent) : List (OpenUdpSocket × List UInt8) :=
  events.filterMap fun
    | .recv s data => some (s, bytesAt fr.mem data.offset data.length)
    | _ => none

namespace Ipv4EthernetDevice

open Proc

variable {tx rx : Ipv4EthernetDevice} {dst hop : Ipv4Address} {data : List UInt8}

/-- The address that a packet to `dst` goes to: `dst` itself in the own subnet,
the gateway otherwise. -/
def NextHop (dev : Ipv4EthernetDevice) (dst hop : Ipv4Address) : Prop :=
  if dst &&& dev.ipv4Config_.netmask = dev.ipv4Config_.addr &&& dev.ipv4Config_.netmask then
    hop = dst
  else dev.ipv4Config_.gateway ≠ inaddrAny ∧ hop = dev.ipv4Config_.gateway

instance (dev : Ipv4EthernetDevice) (dst hop : Ipv4Address) : Decidable (dev.NextHop dst hop) :=
  inferInstanceAs (Decidable (ite _ _ _))

theorem nextHop_run (h : tx.NextHop dst hop) : nextHop dst tx = ⟨.done hop, tx, []⟩ := by
  rw [NextHop] at h
  rw [nextHop]
  rw [get_bind_run]
  split_ifs at h with hsubnet
  · rw [if_neg (not_not.mpr hsubnet), pure_run, h]
  · rw [if_pos hsubnet, require_pos h.1, pure_bind, pure_run, h.2]

/-- The first entry of an address is found. -/
theorem findArpEntry_of_mem {e : ArpEntry} (he : e ∈ tx.arpEntries_) (hpa : e.pa = hop) :
    ∃ ae, tx.findArpEntry hop = some ae := by
  apply Option.isSome_iff_exists.mp
  rw [findArpEntry, List.find?_isSome]
  exact ⟨e, he, by simpa using hpa⟩

/-- **A packet for an address with an ARP entry is sent.** -/
theorem ipv4Out_run {length : ℕ} {protocol : UInt8} {src : Ipv4Address} {e : ArpEntry}
    (hdata : sizeofEthernetHeader + sizeofIpv4Header ≤ data.length ∧
      data.length ≤ ethernetMaxBytes) (hlength : length < 2 ^ 16)
    (hheader : Stores (view data) 14 (ipv4Header length protocol src dst)) (hdst : dst ≠ inaddrAny)
    (hhop : tx.NextHop dst hop) (he : e ∈ tx.arpEntries_) (hpa : e.pa = hop) :
    ∃ ha, ipv4Out data tx =
      ⟨.done ⟨⟩, tx, [.send (putEthernetHeader ha tx.hwAddress Ethertype.ipv4 ++ data.drop 14)]⟩ := by
  have hread : Ipv4Header.read (view data) sizeofEthernetHeader =
      ⟨5, 4, length, protocol, src, dst⟩ := ipv4Header_of_stores hlength hheader
  rw [ipv4Out]
  rw [require_pos hdata, pure_bind, hread]
  dsimp only
  rw [require_pos ⟨rfl, rfl⟩, pure_bind]
  by_cases hbroadcast : dst = inaddrBroadcast
  · rw [if_pos hbroadcast]
    exact ⟨_, rfl⟩
  · rw [if_neg hbroadcast, if_neg hdst]
    obtain ⟨ae, hae⟩ := findArpEntry_of_mem he hpa
    refine ⟨ae.ha, ?_⟩
    rw [bind_run (nextHop_run hhop), get_bind_run, hae]
    rfl

/-- **A frame that passes the checks of `eth_in`** -/
theorem ethIn_valid {fr : Frame} {ih : Ipv4Header} (htype : be16 fr.mem 12 = Ethertype.ipv4) (hih : Ipv4Header.read fr.mem 14 = ih)
    (hver : ih.ver = 4) (hihl : 5 ≤ ih.ihl) (hheader : ih.ihl * 4 ≤ ih.length)
    (hlength : 14 + ih.length ≤ fr.length) (hcsum : inetCsum (bytesAt fr.mem 14 (ih.ihl * 4)) 0 = 0) :
    ethIn fr = ipv4In fr ih ⟨14 + ih.ihl * 4, ih.length - ih.ihl * 4⟩ := by
  have hword := fr.word
  have hsub : sub32 ih.length (ih.ihl * 4) = ih.length - ih.ihl * 4 := sub32_of_le hheader (by omega)
  have heth : fr.length ≥ sizeofEthernetHeader := by
    rw [sizeofEthernetHeader]
    omega
  have hip : fr.length - sizeofEthernetHeader ≥ sizeofIpv4Header := by
    rw [sizeofEthernetHeader, sizeofIpv4Header]
    omega
  have hrest : ih.length ≤ fr.length - sizeofEthernetHeader := by
    rw [sizeofEthernetHeader]
    omega
  have hih' : Ipv4Header.read fr.mem sizeofEthernetHeader = ih := hih
  have hcsum' : inetCsum (bytesAt fr.mem sizeofEthernetHeader (ih.ihl * 4)) 0 = 0 := hcsum
  rw [ethIn, require_pos heth, pure_bind]
  dsimp only
  rw [if_pos htype, require_pos hip, pure_bind, hih', require_pos hver, pure_bind, require_pos hihl,
    pure_bind, require_pos (hheader.trans hrest), pure_bind, require_pos hrest, pure_bind,
    require_pos hcsum', pure_bind, hsub]
  rfl

/-- **A frame with an IPv4 packet passes the checks**, padded or not. -/
theorem ethIn_ipv4 {fr : Frame} {length : ℕ} {protocol : UInt8} {ha ha' : MacAddress}
    {src : Ipv4Address} (hlength : length < 2 ^ 16) (hheader : 20 ≤ length)
    (hfr : 14 + length ≤ fr.length)
    (heth : Stores fr.mem 0 (putEthernetHeader ha ha' Ethertype.ipv4))
    (hip : Stores fr.mem 14 (ipv4Header length protocol src dst)) :
    ethIn fr = ipv4In fr ⟨5, 4, length, protocol, src, dst⟩ ⟨34, length - 20⟩ := by
  have htype : be16 fr.mem 12 = Ethertype.ipv4 := by
    rw [putEthernetHeader] at heth
    have hstores := (Stores.append_iff.mp heth).2
    simp only [List.length_append, Vector.length_toList, Nat.reduceAdd] at hstores
    exact hstores.be16_eq (by decide)
  have hread : Ipv4Header.read fr.mem sizeofEthernetHeader = ⟨5, 4, length, protocol, src, dst⟩ :=
    ipv4Header_of_stores hlength hip
  have hcsum : inetCsum (bytesAt fr.mem sizeofEthernetHeader (5 * 4)) 0 = 0 := by
    have hbytes : bytesAt fr.mem sizeofEthernetHeader (5 * 4) = _ := hip.bytesAt_eq
    rw [hbytes, inetCsum_ipv4Header]
  exact ethIn_valid htype hread rfl le_rfl hheader hfr hcsum

/-- A datagram is passed to its socket. -/
theorem udpIn_run {ih : Ipv4Header} {uh : UdpHeader} {offset length : ℕ} {t : OpenUdpSocket}
    (hlength : uh.length = 8 + length) (ht : rx.findOpenUdpSocket ih.dst uh.dstPort = some t) :
    udpIn ih uh ⟨offset, length⟩ rx =
      ⟨.done ⟨⟩, rx, [.udpIn ⟨offset, length⟩, .recv t ⟨offset, length⟩]⟩ := by
  have hheader : uh.length ≥ sizeofUdpHeader := hlength ▸ Nat.le_add_right _ _
  have hsize : uh.length - sizeofUdpHeader = length := by
    rw [hlength, sizeofUdpHeader, Nat.add_sub_cancel_left]
  have hfits : length ≥ uh.length - sizeofUdpHeader := hsize.le
  simp only [udpIn, emit_bind_run, require_pos hheader, require_pos hfits, Proc.pure_bind,
    get_bind_run, ht, hsize, emit_run]

/-- An IPv4 packet with a datagram is passed to the socket. -/
theorem ipv4In_udp {fr : Frame} {ih : Ipv4Header} {offset length srcPort dstPort : ℕ}
    {t : OpenUdpSocket} (hproto : ih.protocol = IpProtocol.udp)
    (huh : UdpHeader.read fr.mem offset = ⟨srcPort, dstPort, 8 + length⟩)
    (ht : rx.findOpenUdpSocket ih.dst dstPort = some t) :
    ipv4In fr ih ⟨offset, 8 + length⟩ rx = ⟨.done ⟨⟩, rx, [.ipv4In ⟨offset, 8 + length⟩,
      .udpIn ⟨offset + 8, length⟩, .recv t ⟨offset + 8, length⟩]⟩ := by
  have hicmp : ¬ ih.protocol = IpProtocol.icmp := by rw [hproto]; decide
  have hother : ¬ (ih.protocol = IpProtocol.igmp ∨ ih.protocol = IpProtocol.tcp) := by
    rw [hproto]
    decide
  have hheader : 8 + length ≥ sizeofUdpHeader := Nat.le_add_right _ _
  have hsize : 8 + length - sizeofUdpHeader = length := Nat.add_sub_cancel_left _ _
  have hudp := @udpIn_run rx ih ⟨srcPort, dstPort, 8 + length⟩ (offset + 8) length t rfl ht
  simp only [ipv4In, emit_bind_run, if_neg hicmp, if_neg hother, if_pos hproto,
    require_pos hheader, Proc.pure_bind, huh, hsize]
  exact congrArg (fun x : Effect _ _ _ => (⟨x.outcome, x.state, _ :: x.events⟩ : Effect _ _ _)) hudp

/-- The socket that is found is one for the address and the port. -/
theorem findOpenUdpSocket_eq_some {addr : Ipv4Address} {port : ℕ} {t : OpenUdpSocket}
    (h : rx.findOpenUdpSocket addr port = some t) : t ∈ rx.udpSockets_ ∧ t.IsFor addr port := by
  rw [findOpenUdpSocket] at h
  have hfor := List.find?_some h
  exact ⟨List.mem_of_find?_eq_some h, of_decide_eq_true hfor⟩

/-- If there is one, one is found. -/
theorem exists_findOpenUdpSocket {addr : Ipv4Address} {port : ℕ}
    (h : ∃ r ∈ rx.udpSockets_, r.IsFor addr port) : ∃ t, rx.findOpenUdpSocket addr port = some t := by
  obtain ⟨r, hr, hfor⟩ := h
  apply Option.isSome_iff_exists.mp
  rw [findOpenUdpSocket, List.find?_isSome]
  exact ⟨r, hr, decide_eq_true hfor⟩

/-- The IPv4 packet with a datagram. -/
def datagram (s : UdpSocket) (dst : Ipv4Address) (dstPort : ℕ) (data : List UInt8) : List UInt8 :=
  ipv4Header (28 + data.length) IpProtocol.udp s.localAddr_ dst ++
    (putUdpHeader s.localPort_ dstPort (8 + data.length) 0 ++ data)

theorem length_datagram (s : UdpSocket) (dst : Ipv4Address) (dstPort : ℕ) (data : List UInt8) :
    (datagram s dst dstPort data).length = 28 + data.length := by
  simp only [datagram, List.length_append, length_ipv4Header, length_putUdpHeader]
  omega

/-- **The sender**: a datagram leaves as one frame. -/
theorem sendto_run {s : UdpSocket} {dstPort : ℕ} {e : ArpEntry} (hdata : data.length ≤ 1458)
    (hdst : dst ≠ inaddrAny) (hhop : tx.NextHop dst hop) (he : e ∈ tx.arpEntries_)
    (hpa : e.pa = hop) :
    ∃ ha, sendto s dst dstPort data tx = ⟨.done ⟨⟩, tx, [.send
      (putEthernetHeader ha tx.hwAddress Ethertype.ipv4 ++ datagram s dst dstPort data)]⟩ := by
  have hlength : u16 (sizeofIpv4Header + sizeofUdpHeader + data.length) = 28 + data.length :=
    u16_of_lt (by unfold sizeofIpv4Header sizeofUdpHeader; omega)
  have hudplength : u16 (sizeofUdpHeader + data.length) = 8 + data.length :=
    u16_of_lt (by unfold sizeofUdpHeader; omega)
  let buffer := List.replicate sizeofEthernetHeader 0 ++ datagram s dst dstPort data
  have hbuffer : sizeofEthernetHeader + sizeofIpv4Header ≤ buffer.length ∧
      buffer.length ≤ ethernetMaxBytes := by
    simp only [buffer, List.length_append, List.length_replicate, length_datagram,
      sizeofEthernetHeader, sizeofIpv4Header, ethernetMaxBytes]
    omega
  have hheader : Stores (view buffer) 14
      (ipv4Header (28 + data.length) IpProtocol.udp s.localAddr_ dst) := by
    have hself := (Stores.append_iff.mp (Stores.view_self buffer)).2
    rw [List.length_replicate, Nat.zero_add] at hself
    exact (Stores.append_iff.mp hself).1
  obtain ⟨ha, hout⟩ := ipv4Out_run hbuffer (by omega) hheader hdst hhop he hpa
  have hsend : sendto s dst dstPort data tx = ipv4Out buffer tx := by
    rw [sendto]
    rw [require_pos (le_trans hdata (by decide)), pure_bind, hlength, hudplength]
    simp only [buffer, datagram, List.append_assoc]
  have hdrop : buffer.drop 14 = datagram s dst dstPort data := by
    simp [buffer, sizeofEthernetHeader]
  rw [hdrop] at hout
  exact ⟨ha, hsend.trans hout⟩

/-- **The receiver**: the payload of the frame is passed to a socket. -/
theorem ethIn_datagram {fr : Frame} {ha ha' : MacAddress} {s : UdpSocket} {dstPort : ℕ}
    {t : OpenUdpSocket} (hdata : data.length ≤ 1458) (hsrc : s.localPort_ < 2 ^ 16)
    (hport : dstPort < 2 ^ 16) (hfr : 42 + data.length ≤ fr.length)
    (hmem : Stores fr.mem 0
      (putEthernetHeader ha ha' Ethertype.ipv4 ++ datagram s dst dstPort data))
    (ht : rx.findOpenUdpSocket dst dstPort = some t) :
    (ethIn fr rx).outcome = .done ⟨⟩ ∧ (ethIn fr rx).state = rx ∧
      deliveries fr (ethIn fr rx).events = [(t, data)] := by
  obtain ⟨heth, hip, hudp, hpayload⟩ : Stores fr.mem 0 _ ∧ Stores fr.mem 14 _ ∧
      Stores fr.mem 34 _ ∧ Stores fr.mem 42 data := by
    simpa only [datagram, Stores.append_iff, length_putEthernetHeader, length_ipv4Header,
      length_putUdpHeader, Nat.reduceAdd] using hmem
  have hin : ethIn fr rx = _ := congrFun (ethIn_ipv4 (by omega) (by omega) (by omega) heth hip) rx
  have hrest : 28 + data.length - 20 = 8 + data.length := by omega
  rw [hrest, ipv4In_udp rfl (udpHeader_of_stores hsrc hport (by omega) hudp) ht] at hin
  have hbytes := hpayload.bytesAt_eq
  rw [hin]
  exact ⟨rfl, rfl, by simp [deliveries, hbytes]⟩

end Ipv4EthernetDevice

open Ipv4EthernetDevice in
/-- **What is sent is what is received.** A datagram that is sent to an address
with an ARP entry for its next hop leaves as one frame; a device that receives
this frame, with any padding behind it, passes exactly the bytes that were sent
to one socket for this address and port, if it has one. -/
theorem udp_round_trip (tx rx : Ipv4EthernetDevice) (s : UdpSocket) (dst : Ipv4Address)
    (dstPort : ℕ) (data : List UInt8) (hdata : data.length ≤ 1458) (hsrc : s.localPort_ < 2 ^ 16)
    (hport : dstPort < 2 ^ 16) (hdst : dst ≠ inaddrAny) {hop : Ipv4Address}
    (hhop : tx.NextHop dst hop) (harp : ∃ e ∈ tx.arpEntries_, e.pa = hop)
    (hopen : ∃ r ∈ rx.udpSockets_, r.IsFor dst dstPort) :
    ∃ frame : List UInt8, sendto s dst dstPort data tx = ⟨.done ⟨⟩, tx, [.send frame]⟩ ∧
      ∀ fr : Frame, frame.length ≤ fr.length → Stores fr.mem 0 frame →
        (ethIn fr rx).outcome = .done ⟨⟩ ∧ (ethIn fr rx).state = rx ∧
          ∃ t ∈ rx.udpSockets_, t.IsFor dst dstPort ∧
            deliveries fr (ethIn fr rx).events = [(t, data)] := by
  obtain ⟨e, he, hpa⟩ := harp
  obtain ⟨ha, hsend⟩ := @sendto_run tx dst hop data s dstPort e hdata hdst hhop he hpa
  refine ⟨_, hsend, fun fr hfr hmem => ?_⟩
  rw [List.length_append, length_putEthernetHeader, length_datagram] at hfr
  obtain ⟨t, ht⟩ := exists_findOpenUdpSocket hopen
  obtain ⟨hmem', hfor⟩ := findOpenUdpSocket_eq_some ht
  obtain ⟨hdone, hstate, hdeliver⟩ := ethIn_datagram hdata hsrc hport (by omega) hmem ht
  exact ⟨hdone, hstate, t, hmem', hfor, hdeliver⟩

/-- A device with the address 192.168.10.2 that knows 192.168.10.1. -/
def clientDevice : Ipv4EthernetDevice :=
  ⟨Vector.replicate 6 2, ⟨0xc0a80a02, 0xffffff00, inaddrAny⟩,
    [⟨0xc0a80a01, Vector.replicate 6 1⟩], []⟩

/-- A device with the address 192.168.10.1 and a socket for port 69. -/
def serverDevice : Ipv4EthernetDevice :=
  ⟨Vector.replicate 6 1, ⟨0xc0a80a01, 0xffffff00, inaddrAny⟩, [], [⟨0xc0a80a01, 69, 0⟩]⟩

open Ipv4EthernetDevice in
/-- Three bytes from one to the other. -/
theorem udp_round_trip_three : ∃ frame : List UInt8,
    sendto ⟨0xc0a80a02, 49152⟩ 0xc0a80a01 69 [1, 2, 3] clientDevice =
      ⟨.done ⟨⟩, clientDevice, [.send frame]⟩ ∧
      ∀ fr : Frame, frame.length ≤ fr.length → Stores fr.mem 0 frame →
        (ethIn fr serverDevice).outcome = .done ⟨⟩ ∧ (ethIn fr serverDevice).state = serverDevice ∧
          ∃ t ∈ serverDevice.udpSockets_, t.IsFor 0xc0a80a01 69 ∧
            deliveries fr (ethIn fr serverDevice).events = [(t, [1, 2, 3])] :=
  udp_round_trip clientDevice serverDevice ⟨0xc0a80a02, 49152⟩ 0xc0a80a01 69 [1, 2, 3]
    (by decide) (by decide) (by decide) (by decide)
    (show clientDevice.NextHop 0xc0a80a01 0xc0a80a01 by decide)
    ⟨_, List.mem_singleton_self _, rfl⟩ ⟨_, List.mem_singleton_self _, .inr rfl, rfl⟩

end Attos.Net
