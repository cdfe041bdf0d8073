import Attos.Net.UdpSocket

/-!
# Echo requests

A valid echo request for the address of the device (`EchoRequest`) is answered with one frame,
unless it comes from 0.0.0.0. A device that receives this frame, padded or not, accepts both of
its headers and both checksums, and finds an echo reply with the payload of the request
(`EchoReplied`, `echoReplied_iff`).
-/

namespace Attos.Net

open Lib

/-- An echo request for the device that passes the checks of `eth_in`, `ipv4_in` and `icmp_in`. -/
structure EchoRequest (dev : Ipv4EthernetDevice) (fr : Frame) (ih : Ipv4Header) (icmpH : IcmpHeader)
    (payload : List UInt8) : Prop where
  /-- an IPv4 packet -/
  type : be16 fr.mem 12 = Ethertype.ipv4
  /-- its header -/
  header : Ipv4Header.read fr.mem 14 = ih
  /-- the version -/
  ver : ih.ver = 4
  /-- the length of the header -/
  ihl : 5 ≤ ih.ihl
  /-- the length of the packet -/
  length : 14 + ih.length ≤ fr.length
  /-- the checksum of the header -/
  headerChecksum : inetCsum (bytesAt fr.mem 14 (ih.ihl * 4)) 0 = 0
  /-- the packet is for this device, which has an address -/
  dst : ih.dst = dev.ipv4Config_.addr ∧ ih.dst ≠ inaddrAny
  /-- an ICMP message -/
  protocol : ih.protocol = IpProtocol.icmp
  /-- its header -/
  icmpHeader : IcmpHeader.read fr.mem (14 + ih.ihl * 4) = icmpH
  /-- an echo request -/
  request : icmpH.type = IcmpType.echoRequest ∧ icmpH.code = 0
  /-- the payload behind it -/
  size : ih.length = ih.ihl * 4 + (8 + payload.length)
  /-- its bytes -/
  bytes : bytesAt fr.mem (14 + ih.ihl * 4 + 8) payload.length = payload
  /-- the checksum of the message -/
  checksum : inetCsum (bytesAt fr.mem (14 + ih.ihl * 4) (8 + payload.length)) 0 = 0

namespace Ipv4EthernetDevice

open Proc

variable {dev rx : Ipv4EthernetDevice} {fr : Frame} {ih : Ipv4Header} {icmpH : IcmpHeader}
  {payload : List UInt8} {restOfHeader : ℕ}

/-- An ICMP message with the right checksum -/
theorem ipv4In_icmp {offset : ℕ} (hprotocol : ih.protocol = IpProtocol.icmp) (hpayload : payload.length < 2 ^ 15)
    (hcsum : inetCsum (bytesAt fr.mem offset (8 + payload.length)) 0 = 0) :
    ipv4In fr ih ⟨offset, 8 + payload.length⟩ = emit (.ipv4In ⟨offset, 8 + payload.length⟩) >>= fun _ =>
      icmpIn fr ih (IcmpHeader.read fr.mem offset) ⟨offset + 8, payload.length⟩ := by
  have hsize : 8 + payload.length ≥ sizeofIcmpHeader := Nat.le_add_right _ _
  have hu16 : u16 (8 + payload.length) = 8 + payload.length := u16_of_lt (by omega)
  have hcsum' : inetCsum (bytesAt fr.mem offset (u16 (8 + payload.length))) 0 = 0 := by rwa [hu16]
  have hrest : 8 + payload.length - sizeofIcmpHeader = payload.length := Nat.add_sub_cancel_left _ _
  rw [ipv4In, if_pos hprotocol, require_pos hsize, pure_bind, require_pos hcsum', pure_bind, hrest]
  rfl

/-- The packet that answers an echo request from `src`, behind the room for the Ethernet header. -/
def echoPacket (src dst : Ipv4Address) (restOfHeader : ℕ) (payload : List UInt8) : List UInt8 :=
  List.replicate sizeofEthernetHeader 0 ++
    (ipv4Header (28 + payload.length) IpProtocol.icmp dst src ++ echoReply restOfHeader payload)

theorem length_echoPacket {src dst : Ipv4Address} :
    (echoPacket src dst restOfHeader payload).length = 42 + payload.length := by
  simp only [echoPacket, echoReply, putIcmpHeader, List.length_append, List.length_replicate,
    length_ipv4Header, length_put16, length_put32, List.length_cons, List.length_nil, sizeofEthernetHeader]
  omega

theorem echoPacket_fits {src dst : Ipv4Address} (hpayload : payload.length ≤ 1457) :
    sizeofEthernetHeader + sizeofIpv4Header ≤ (echoPacket src dst restOfHeader payload).length ∧
      (echoPacket src dst restOfHeader payload).length ≤ ethernetMaxBytes := by
  rw [length_echoPacket]
  simp only [sizeofEthernetHeader, sizeofIpv4Header, ethernetMaxBytes]
  omega

theorem echoPacket_header {src dst : Ipv4Address} :
    Stores (view (echoPacket src dst restOfHeader payload)) 14
      (ipv4Header (28 + payload.length) IpProtocol.icmp dst src) := by
  have hself := (Stores.append_iff.mp (Stores.view_self (echoPacket src dst restOfHeader payload))).2
  rw [List.length_replicate, Nat.zero_add] at hself
  exact (Stores.append_iff.mp hself).1

/-- An echo request for the device is given to `ipv4_out`. -/
theorem icmpIn_echoRequest {offset : ℕ}
    (hdst : ih.dst = dev.ipv4Config_.addr ∧ ih.dst ≠ inaddrAny)
    (hrequest : icmpH.type = IcmpType.echoRequest ∧ icmpH.code = 0) (hpayload : payload.length ≤ 1457)
    (hbytes : bytesAt fr.mem offset payload.length = payload) :
    icmpIn fr ih icmpH ⟨offset, payload.length⟩ dev =
      (emit (.icmpIn ⟨offset, payload.length⟩) >>= fun _ =>
        ipv4Out (echoPacket ih.src ih.dst icmpH.restOfHeader payload)) dev := by
  have hfits : payload.length <
      ethernetMaxBytes - (sizeofEthernetHeader + sizeofIpv4Header + sizeofIcmpHeader) := by
    simp only [ethernetMaxBytes, sizeofEthernetHeader, sizeofIpv4Header, sizeofIcmpHeader]
    omega
  have hlength : sizeofIpv4Header + sizeofIcmpHeader + payload.length = 28 + payload.length := by
    rw [sizeofIpv4Header, sizeofIcmpHeader]
  rw [icmpIn, emit_bind_run, get_bind_run, if_pos ⟨hdst.2, hdst.1, hrequest.1⟩, require_pos hrequest.2,
    pure_bind, require_pos hfits, pure_bind, hbytes, hlength, List.append_assoc, emit_bind_run, echoPacket]

/-- An echo request is answered, if there is an ARP entry for the next hop. -/
theorem icmpIn_request {offset : ℕ} {hop : Ipv4Address} {e : ArpEntry}
    (hdst : ih.dst = dev.ipv4Config_.addr ∧ ih.dst ≠ inaddrAny) (hsrc : ih.src ≠ inaddrAny)
    (hrequest : icmpH.type = IcmpType.echoRequest ∧ icmpH.code = 0) (hpayload : payload.length ≤ 1457)
    (hbytes : bytesAt fr.mem offset payload.length = payload) (hhop : dev.NextHop ih.src hop)
    (he : e ∈ dev.arpEntries_) (hpa : e.pa = hop) :
    ∃ ha, icmpIn fr ih icmpH ⟨offset, payload.length⟩ dev = ⟨.done ⟨⟩, dev,
      [.icmpIn ⟨offset, payload.length⟩, .send (putEthernetHeader ha dev.hwAddress Ethertype.ipv4 ++
        (ipv4Header (28 + payload.length) IpProtocol.icmp ih.dst ih.src ++
          echoReply icmpH.restOfHeader payload))]⟩ := by
  obtain ⟨ha, hout⟩ := ipv4Out_run (echoPacket_fits hpayload) (by omega)
    (@echoPacket_header payload icmpH.restOfHeader ih.src ih.dst) hsrc hhop he hpa
  refine ⟨ha, ?_⟩
  rw [icmpIn_echoRequest hdst hrequest hpayload hbytes, emit_bind_run, hout]
  simp [echoPacket, sizeofEthernetHeader]

/-- `ipv4_out` does not send to 0.0.0.0. -/
theorem ipv4Out_any {data : List UInt8} {length : ℕ} {protocol : UInt8} {src : Ipv4Address}
    (hdata : sizeofEthernetHeader + sizeofIpv4Header ≤ data.length ∧ data.length ≤ ethernetMaxBytes)
    (hlength : length < 2 ^ 16)
    (hheader : Stores (view data) 14 (ipv4Header length protocol src inaddrAny)) :
    ipv4Out data dev = ⟨.abort, dev, []⟩ := by
  have hread : Ipv4Header.read (view data) sizeofEthernetHeader =
      ⟨5, 4, length, protocol, src, inaddrAny⟩ := ipv4Header_of_stores hlength hheader
  rw [ipv4Out, require_pos hdata, pure_bind, hread]
  dsimp only
  rw [require_pos ⟨rfl, rfl⟩, pure_bind, if_neg (by decide), if_pos rfl]
  rfl

/-- An echo request from 0.0.0.0 cannot be answered. -/
theorem icmpIn_request_any {offset : ℕ} (hdst : ih.dst = dev.ipv4Config_.addr ∧ ih.dst ≠ inaddrAny)
    (hsrc : ih.src = inaddrAny) (hrequest : icmpH.type = IcmpType.echoRequest ∧ icmpH.code = 0)
    (hpayload : payload.length ≤ 1457) (hbytes : bytesAt fr.mem offset payload.length = payload) :
    (icmpIn fr ih icmpH ⟨offset, payload.length⟩ dev).outcome = .abort := by
  have hheader := @echoPacket_header payload icmpH.restOfHeader ih.src ih.dst
  rw [hsrc] at hheader
  rw [icmpIn_echoRequest hdst hrequest hpayload hbytes, emit_bind_run, hsrc,
    ipv4Out_any (echoPacket_fits hpayload) (by omega) hheader]

/-- An echo reply is not answered. -/
theorem icmpIn_reply {data : Slice} (hreply : icmpH.type = IcmpType.echoReply) :
    icmpIn fr ih icmpH data dev = ⟨.done ⟨⟩, dev, [.icmpIn data]⟩ := by
  have hother : ¬ (ih.dst ≠ inaddrAny ∧ ih.dst = dev.ipv4Config_.addr ∧ icmpH.type = IcmpType.echoRequest) := by
    rintro ⟨-, -, hrequest⟩
    rw [hreply] at hrequest
    exact absurd hrequest (by decide)
  rw [icmpIn, emit_bind_run, get_bind_run, if_neg hother, pure_run]

/-- **An echo reply has the checksum zero**, whatever its payload. -/
theorem inetCsum_echoReply (hpayload : payload.length < 2 ^ 15) : inetCsum (echoReply restOfHeader payload) 0 = 0 := by
  have hfill := @inetCsum_fill [IcmpType.echoReply, 0] (put32 restOfHeader ++ payload) (by simp)
    (by simp only [List.length_append, length_put32, List.length_cons, List.length_nil]; omega)
  simpa only [echoReply, putIcmpHeader, List.append_assoc] using hfill

/-- An ICMP header is read as it was written. -/
theorem icmpHeader_of_stores {m : ℕ → UInt8} {a checksum : ℕ} {type code : UInt8}
    (hrest : restOfHeader < 2 ^ 32) (h : Stores m a (putIcmpHeader type code checksum restOfHeader)) :
    IcmpHeader.read m a = ⟨type, code, restOfHeader⟩ := by
  rw [putIcmpHeader] at h
  simp only [Stores.append_iff, Stores.cons_iff, List.length_append, List.length_cons, List.length_nil,
    length_put16, Nat.reduceAdd] at h
  obtain ⟨⟨⟨htype, hcode, -⟩, -⟩, hnumber⟩ := h
  simp [IcmpHeader.read, htype, hcode, hnumber.be32_eq hrest]

/-- **The other side**: the frame with the reply is accepted, padded or not. -/
theorem ethIn_echoReply {length : ℕ} {ha ha' : MacAddress} {src dst : Ipv4Address}
    (hlength : payload.length = length) (hpayload : length ≤ 1457) (hrest : restOfHeader < 2 ^ 32)
    (hfr : 42 + length ≤ fr.length)
    (hmem : Stores fr.mem 0 (putEthernetHeader ha ha' Ethertype.ipv4 ++
      (ipv4Header (28 + length) IpProtocol.icmp src dst ++ echoReply restOfHeader payload))) :
    Ipv4Header.read fr.mem 14 = ⟨5, 4, 28 + length, IpProtocol.icmp, src, dst⟩ ∧
      IcmpHeader.read fr.mem 34 = ⟨IcmpType.echoReply, 0, restOfHeader⟩ ∧
      bytesAt fr.mem 42 length = payload ∧
      ethIn fr rx = ⟨.done ⟨⟩, rx, [.ipv4In ⟨34, 8 + length⟩, .icmpIn ⟨42, length⟩]⟩ := by
  subst hlength
  obtain ⟨heth, hip, hicmp⟩ : Stores fr.mem 0 (putEthernetHeader ha ha' Ethertype.ipv4) ∧
      Stores fr.mem 14 (ipv4Header (28 + payload.length) IpProtocol.icmp src dst) ∧
        Stores fr.mem 34 (echoReply restOfHeader payload) := by
    simpa only [Stores.append_iff, length_putEthernetHeader, length_ipv4Header, Nat.reduceAdd] using hmem
  have hreply : (echoReply restOfHeader payload).length = 8 + payload.length := by
    simp only [echoReply, putIcmpHeader, List.length_append, length_put16, length_put32, List.length_cons,
      List.length_nil]
  have hcsum : inetCsum (bytesAt fr.mem 34 (8 + payload.length)) 0 = 0 := by
    rw [← hreply, hicmp.bytesAt_eq, inetCsum_echoReply (by omega)]
  obtain ⟨hheader, hbytes⟩ := Stores.append_iff.mp hicmp
  have hread := icmpHeader_of_stores hrest hheader
  refine ⟨ipv4Header_of_stores (by omega) hip, hread, hbytes.bytesAt_eq, ?_⟩
  have hin := ethIn_ipv4 (by omega) (by omega) (by omega) heth hip
  have hrest' : 28 + payload.length - 20 = 8 + payload.length := by omega
  rw [hin, hrest', ipv4In_icmp rfl (by omega) hcsum, emit_bind_run, icmpIn_reply (by rw [hread])]

/-- The device sends exactly one frame. Every device that receives this frame, padded or not,
accepts both headers and both checksums: the frame carries an echo reply from the destination of
the request to its source, with the same identifier and number and the same payload. -/
def EchoReplied (dev : Ipv4EthernetDevice) (fr : Frame) (ih : Ipv4Header) (icmpH : IcmpHeader)
    (payload : List UInt8) : Prop :=
  ∃ (frame : List UInt8) (message data : Slice),
    ethIn fr dev = ⟨.done ⟨⟩, dev, [.ipv4In message, .icmpIn data, .send frame]⟩ ∧
    ∀ (rx : Ipv4EthernetDevice) (fr' : Frame), frame.length ≤ fr'.length → Stores fr'.mem 0 frame →
      ethIn fr' rx = ⟨.done ⟨⟩, rx, [.ipv4In ⟨34, 8 + payload.length⟩, .icmpIn ⟨42, payload.length⟩]⟩ ∧
        Ipv4Header.read fr'.mem 14 = ⟨5, 4, 28 + payload.length, IpProtocol.icmp, ih.dst, ih.src⟩ ∧
        IcmpHeader.read fr'.mem 34 = ⟨IcmpType.echoReply, 0, icmpH.restOfHeader⟩ ∧
        bytesAt fr'.mem 42 payload.length = payload

/-- A valid echo request is given to `icmp_in`. -/
theorem ethIn_echoRequest (h : EchoRequest dev fr ih icmpH payload) (hpayload : payload.length ≤ 1457) :
    ethIn fr dev = (emit (.ipv4In ⟨14 + ih.ihl * 4, 8 + payload.length⟩) >>= fun _ =>
      icmpIn fr ih icmpH ⟨14 + ih.ihl * 4 + 8, payload.length⟩) dev := by
  have hsize := h.size
  rw [ethIn_valid h.type h.header h.ver h.ihl (by omega) h.length h.headerChecksum, h.size,
    Nat.add_sub_cancel_left, ipv4In_icmp h.protocol (by omega) h.checksum, h.icmpHeader]

/-- An echo request that does not come from 0.0.0.0 is answered. -/
theorem echoRequest_replied (h : EchoRequest dev fr ih icmpH payload) (hpayload : payload.length ≤ 1457)
    {hop : Ipv4Address} (hhop : dev.NextHop ih.src hop) (harp : ∃ e ∈ dev.arpEntries_, e.pa = hop)
    (hsrc : ih.src ≠ inaddrAny) : EchoReplied dev fr ih icmpH payload := by
  obtain ⟨e, he, hpa⟩ := harp
  obtain ⟨ha, hicmp⟩ := icmpIn_request h.dst hsrc h.request hpayload h.bytes hhop he hpa
  refine ⟨_, _, _, by rw [ethIn_echoRequest h hpayload, emit_bind_run, hicmp], fun rx fr' hfr hmem => ?_⟩
  have hrest : icmpH.restOfHeader < 2 ^ 32 := by
    rw [← h.icmpHeader]
    have h₁ := be16_lt fr.mem (14 + ih.ihl * 4 + 4)
    have h₂ := be16_lt fr.mem (14 + ih.ihl * 4 + 4 + 2)
    simp only [IcmpHeader.read, be32]
    omega
  have hlength : 42 + payload.length ≤ fr'.length := by
    refine le_trans (le_of_eq ?_) hfr
    simp only [List.length_append, length_putEthernetHeader, length_ipv4Header, echoReply, putIcmpHeader,
      length_put16, length_put32, List.length_cons, List.length_nil]
    omega
  obtain ⟨hheader, hicmpHeader, hbytes, hrun⟩ := @ethIn_echoReply rx fr' payload icmpH.restOfHeader _ _ _ _ _ rfl hpayload hrest hlength hmem
  exact ⟨hrun, hheader, hicmpHeader, hbytes⟩

/-- An echo request from 0.0.0.0 ends the program. -/
theorem echoRequest_aborts (h : EchoRequest dev fr ih icmpH payload) (hpayload : payload.length ≤ 1457)
    (hsrc : ih.src = inaddrAny) : (ethIn fr dev).outcome = .abort := by
  rw [ethIn_echoRequest h hpayload, emit_bind_run]
  exact icmpIn_request_any h.dst hsrc h.request hpayload h.bytes

/-- **Echo requests are answered**, if they do not come from 0.0.0.0: for every echo request for
the device that passes the checks, with at most 1457 bytes of payload, and an ARP entry for the
next hop of its source. -/
theorem echoReplied_iff (dev : Ipv4EthernetDevice) (fr : Frame) (ih : Ipv4Header) (icmpH : IcmpHeader)
    (payload : List UInt8) (h : EchoRequest dev fr ih icmpH payload) (hpayload : payload.length ≤ 1457)
    {hop : Ipv4Address} (hhop : dev.NextHop ih.src hop) (harp : ∃ e ∈ dev.arpEntries_, e.pa = hop) :
    EchoReplied dev fr ih icmpH payload ↔ ih.src ≠ inaddrAny := by
  refine ⟨fun hreplied hsrc => ?_, echoRequest_replied h hpayload hhop harp⟩
  obtain ⟨frame, message, data, hrun, -⟩ := hreplied
  have habort := echoRequest_aborts h hpayload hsrc
  rw [hrun] at habort
  cases habort

/-- An echo request from `src` to 192.168.10.2 with three bytes of payload. -/
def echoFrame (src : Ipv4Address) : Frame where
  mem := view (putEthernetHeader (Vector.replicate 6 2) (Vector.replicate 6 1) Ethertype.ipv4 ++
    ipv4Header 31 IpProtocol.icmp src 0xc0a80a02 ++
    putIcmpHeader IcmpType.echoRequest 0 0xf3fb 0x10001 ++ [1, 2, 3])
  length := 45
  word := by decide

/-- The three bytes come back to 192.168.10.1. -/
theorem echoReplied_iff_three :
    EchoReplied clientDevice (echoFrame 0xc0a80a01) ⟨5, 4, 31, IpProtocol.icmp, 0xc0a80a01, 0xc0a80a02⟩
        ⟨IcmpType.echoRequest, 0, 0x10001⟩ [1, 2, 3] ↔
      (0xc0a80a01 : Ipv4Address) ≠ inaddrAny :=
  echoReplied_iff clientDevice (echoFrame 0xc0a80a01) ⟨5, 4, 31, IpProtocol.icmp, 0xc0a80a01, 0xc0a80a02⟩
    ⟨IcmpType.echoRequest, 0, 0x10001⟩ [1, 2, 3]
    { type := by decide
      header := by rfl
      ver := by decide
      ihl := by decide
      length := by decide
      headerChecksum := by decide
      dst := by decide
      protocol := by decide
      icmpHeader := by rfl
      request := by decide
      size := by decide
      bytes := by decide
      checksum := by decide }
    (by decide) (show clientDevice.NextHop 0xc0a80a01 0xc0a80a01 by decide)
    ⟨_, List.mem_singleton_self _, rfl⟩

/-- A device with the address 192.168.10.2 that knows its gateway 192.168.10.1. -/
def routedDevice : Ipv4EthernetDevice :=
  ⟨Vector.replicate 6 2, ⟨0xc0a80a02, 0xffffff00, 0xc0a80a01⟩,
    [⟨0xc0a80a01, Vector.replicate 6 1⟩], []⟩

/-- The next hop of 0.0.0.0 is the gateway, but a request from there ends the program. -/
theorem not_echoReplied : ¬ ∀ (dev : Ipv4EthernetDevice) (fr : Frame) (ih : Ipv4Header)
    (icmpH : IcmpHeader) (payload : List UInt8) (hop : Ipv4Address),
    EchoRequest dev fr ih icmpH payload → payload.length ≤ 1457 → dev.NextHop ih.src hop →
      (∃ e ∈ dev.arpEntries_, e.pa = hop) → EchoReplied dev fr ih icmpH payload := by
  intro hall
  have hrequest : EchoRequest routedDevice (echoFrame inaddrAny)
      ⟨5, 4, 31, IpProtocol.icmp, inaddrAny, 0xc0a80a02⟩ ⟨IcmpType.echoRequest, 0, 0x10001⟩ [1, 2, 3] :=
    { type := by decide
      header := by rfl
      ver := by decide
      ihl := by decide
      length := by decide
      headerChecksum := by decide
      dst := by decide
      protocol := by decide
      icmpHeader := by rfl
      request := by decide
      size := by decide
      bytes := by decide
      checksum := by decide }
  obtain ⟨frame, message, data, hrun, -⟩ := hall _ _ _ _ _ 0xc0a80a01 hrequest (by decide) (by decide)
    ⟨_, List.mem_singleton_self _, rfl⟩
  have habort := echoRequest_aborts hrequest (by decide) rfl
  rw [hrun] at habort
  cases habort

end Ipv4EthernetDevice

end Attos.Net
