import Attos.Net.Ipv4Device

/-!
# What the handlers are given

Each handler of the IPv4 stack gets a pointer and a length. They name received
bytes as long as the total length of the IPv4 packet is not less than its
header length. `eth_in` does not check this: of a packet that claims to be
shorter than its own header it passes on a length that has wrapped around
(`ethIn_inside_iff`, `not_ethIn_inside`). `udp_in` does make the corresponding
check.
-/

namespace Attos.Net

open Lib

/-- The bytes lie inside the first `n`. -/
def Slice.Inside (n : ℕ) (data : Slice) : Prop := data.offset + data.length ≤ n

/-- The bytes that a handler is given lie inside the first `n`. -/
def NetEvent.Inside (n : ℕ) : NetEvent → Prop
  | .ipv4In data => data.Inside n
  | .icmpIn data => data.Inside n
  | .udpIn data => data.Inside n
  | .recv _ data => data.Inside n
  | .send _ => True

instance (n : ℕ) (data : Slice) : Decidable (data.Inside n) :=
  inferInstanceAs (Decidable (_ ≤ _))

namespace Ipv4EthernetDevice

open Proc

/-! ## The events of each handler -/

section Emits

variable {P : NetEvent → Prop} (hsend : ∀ packet, P (.send packet))

include hsend

theorem sendArp_emits (oper : ℕ) (spa tpa : Ipv4Address) (tha : MacAddress) :
    Emits P (sendArp oper spa tha tpa) :=
  emits_bind emits_get fun _ => emits_emit (hsend _)

omit hsend in
theorem addUnless_emits (mergeFlag : Bool) (pa : Ipv4Address) (ha : MacAddress) :
    Emits P (addUnless mergeFlag pa ha) := by
  refine emits_ite (fun _ => emits_pure _) fun _ => ?_
  exact emits_bind emits_get fun _ => emits_require_bind fun _ => emits_modify _

theorem arpIn_emits (ah : ArpHeader) : Emits P (arpIn ah) := by
  rw [arpIn]
  iterate 6 refine emits_require_bind fun _ => ?_
  refine emits_bind emits_get fun dev => ?_
  refine emits_ite (fun _ => emits_pure _) fun _ => ?_
  refine emits_bind (emits_modify _) fun _ => ?_
  refine emits_ite (fun _ => ?_) fun _ => emits_pure _
  refine emits_bind (addUnless_emits _ _ _) fun _ => ?_
  exact emits_ite (fun _ => sendArp_emits hsend _ _ _ _) fun _ => emits_pure _

theorem sendIpv4_emits (data : List UInt8) (dst : MacAddress) : Emits P (sendIpv4 data dst) :=
  emits_bind emits_get fun _ => emits_emit (hsend _)

omit hsend in
theorem nextHop_emits (dst : Ipv4Address) : Emits P (nextHop dst) := by
  refine emits_bind emits_get fun dev => ?_
  exact emits_ite (fun _ => emits_require_bind fun _ => emits_pure _) fun _ => emits_pure _

theorem ipv4Out_emits (data : List UInt8) : Emits P (ipv4Out data) := by
  rw [ipv4Out]
  iterate 2 refine emits_require_bind fun _ => ?_
  refine emits_ite (fun _ => sendIpv4_emits hsend _ _) fun _ => ?_
  refine emits_ite (fun _ => emits_abort) fun _ => ?_
  refine emits_bind (nextHop_emits _) fun tpa => ?_
  refine emits_bind emits_get fun dev => ?_
  cases dev.findArpEntry tpa with
  | some ae => exact sendIpv4_emits hsend _ _
  | none => exact sendArp_emits hsend _ _ _ _

theorem icmpIn_emits (fr : Frame) (ih : Ipv4Header) (icmpH : IcmpHeader) {data : Slice}
    (hdata : P (.icmpIn data)) : Emits P (icmpIn fr ih icmpH data) := by
  refine emits_bind (emits_emit hdata) fun _ => ?_
  refine emits_bind emits_get fun dev => ?_
  refine emits_ite (fun _ => ?_) fun _ => emits_pure _
  iterate 2 refine emits_require_bind fun _ => ?_
  exact ipv4Out_emits hsend _

omit hsend in
theorem udpIn_emits (ih : Ipv4Header) (uh : UdpHeader) {data : Slice} (hdata : P (.udpIn data))
    (hrecv : ∀ s length, length ≤ data.length → P (.recv s ⟨data.offset, length⟩)) :
    Emits P (udpIn ih uh data) := by
  refine emits_bind (emits_emit hdata) fun _ => ?_
  refine emits_require_bind fun _ => emits_require_bind fun hle => ?_
  refine emits_bind emits_get fun dev => ?_
  cases dev.findOpenUdpSocket ih.dst uh.dstPort with
  | some s => exact emits_emit (hrecv s _ hle)
  | none => exact emits_pure _

end Emits

/-- A payload inside the frame is handed on inside the frame. -/
theorem ipv4In_inside (fr : Frame) (ih : Ipv4Header) {data : Slice} {n : ℕ}
    (hdata : data.Inside n) : Emits (NetEvent.Inside n) (ipv4In fr ih data) := by
  have hsend : ∀ packet, NetEvent.Inside n (.send packet) := fun _ => trivial
  have hskip : ∀ k, k ≤ data.length → Slice.Inside n ⟨data.offset + k, data.length - k⟩ := by
    intro k hk
    simp only [Slice.Inside] at hdata ⊢
    omega
  rw [ipv4In]
  refine emits_bind (emits_emit hdata) fun _ => ?_
  refine emits_ite (fun _ => ?_) fun _ => ?_
  · refine emits_require_bind fun hlen => emits_require_bind fun _ => ?_
    exact icmpIn_emits hsend fr ih _ (hskip _ hlen)
  refine emits_ite (fun _ => emits_pure _) fun _ => ?_
  refine emits_ite (fun _ => ?_) fun _ => emits_abort
  refine emits_require_bind fun hlen => ?_
  refine udpIn_emits ih _ (hskip _ hlen) fun s length hle => ?_
  have h := hskip _ hlen
  simp only [NetEvent.Inside, Slice.Inside] at h hle ⊢
  omega

/-! ## The frames that are handled within bounds -/

/-- The IPv4 header of a frame. -/
def Frame.ipv4Header (fr : Frame) : Ipv4Header := Ipv4Header.read fr.mem sizeofEthernetHeader

/-- `eth_in` takes the frame for an IPv4 packet and passes its payload on. -/
structure PassedOn (fr : Frame) : Prop where
  /-- the frame has an Ethernet header -/
  ethernet : sizeofEthernetHeader ≤ fr.length
  /-- that says IPv4 -/
  type : be16 fr.mem 12 = Ethertype.ipv4
  /-- there is room for an IPv4 header -/
  header : sizeofIpv4Header ≤ fr.length - sizeofEthernetHeader
  /-- of version 4 -/
  ver : (Frame.ipv4Header fr).ver = 4
  /-- whose length is at least the least -/
  ihl : 5 ≤ (Frame.ipv4Header fr).ihl
  /-- the header was received -/
  options : (Frame.ipv4Header fr).ihl * 4 ≤ fr.length - sizeofEthernetHeader
  /-- the whole packet was received -/
  length : (Frame.ipv4Header fr).length ≤ fr.length - sizeofEthernetHeader
  /-- the checksum of the header is right -/
  checksum : inetCsum (bytesAt fr.mem sizeofEthernetHeader ((Frame.ipv4Header fr).ihl * 4)) 0 = 0

/-- A packet that is passed on is given to `ipv4_in`. -/
theorem PassedOn.ipv4In_mem {fr : Frame} (h : PassedOn fr) (dev : Ipv4EthernetDevice) :
    .ipv4In ⟨sizeofEthernetHeader + (Frame.ipv4Header fr).ihl * 4,
      sub32 (Frame.ipv4Header fr).length ((Frame.ipv4Header fr).ihl * 4)⟩ ∈
      (ethIn fr dev).events := by
  have hver := h.ver
  have hihl := h.ihl
  have hoptions := h.options
  have hlength := h.length
  have hchecksum := h.checksum
  simp only [Frame.ipv4Header] at hver hihl hoptions hlength hchecksum ⊢
  rw [ethIn]
  rw [require_pos h.ethernet, pure_bind, if_pos h.type, require_pos h.header, pure_bind,
    require_pos hver, pure_bind, require_pos hihl, pure_bind, require_pos hoptions, pure_bind,
    require_pos hlength, pure_bind, require_pos hchecksum, pure_bind]
  rw [ipv4In]
  rw [emit_bind_run]
  exact List.mem_cons_self

/-- **What the handlers are given lies inside the frame**, whatever the frame
and the state of the device, if and only if a packet that is passed on is not
shorter than its own header. -/
theorem ethIn_inside_iff (dev : Ipv4EthernetDevice) (fr : Frame) :
    (∀ e ∈ (ethIn fr dev).events, e.Inside fr.length) ↔
      (PassedOn fr → (Frame.ipv4Header fr).ihl * 4 ≤ (Frame.ipv4Header fr).length) := by
  constructor
  · intro hall hp
    by_contra hlt
    have hin := hall _ (hp.ipv4In_mem dev)
    have hword := fr.word
    have hihl : (Frame.ipv4Header fr).ihl < 16 := Nat.mod_lt _ (by norm_num)
    simp only [NetEvent.Inside, Slice.Inside, sub32, u32] at hin
    omega
  · intro hcond
    suffices h : Emits (NetEvent.Inside fr.length) (ethIn fr) from h dev
    rw [ethIn]
    refine emits_require_bind fun heth => ?_
    refine emits_ite (fun htype => ?_) fun _ => ?_
    · refine emits_require_bind fun hheader => emits_require_bind fun hver => ?_
      refine emits_require_bind fun hihl => emits_require_bind fun hoptions => ?_
      refine emits_require_bind fun hlength => emits_require_bind fun hchecksum => ?_
      refine ipv4In_inside fr _ ?_
      have hle := hcond ⟨heth, htype, hheader, hver, hihl, hoptions, hlength, hchecksum⟩
      have hbound := be16_lt fr.mem (sizeofEthernetHeader + 2)
      have hsub : sub32 (Frame.ipv4Header fr).length ((Frame.ipv4Header fr).ihl * 4) =
          (Frame.ipv4Header fr).length - (Frame.ipv4Header fr).ihl * 4 :=
        sub32_of_le hle (lt_trans hbound (by norm_num))
      simp only [Frame.ipv4Header] at hsub hle
      simp only [Slice.Inside, hsub]
      omega
    refine emits_ite (fun _ => ?_) fun _ => ?_
    · exact emits_require_bind fun _ => arpIn_emits (fun _ => trivial) _
    refine emits_ite (fun _ => ?_) fun _ => emits_abort
    exact emits_require_bind fun _ => emits_require

/-! ### A packet that is shorter than its header -/

/-- The bytes of a UDP packet in an Ethernet frame of 60 bytes. The IPv4 header
says that the packet is 16 bytes long, the UDP header says 1000. -/
def shortPacket : List UInt8 :=
  putEthernetHeader MacAddress.broadcast #v[2, 0, 0, 0, 0, 1] Ethertype.ipv4 ++
    ipv4Header 16 IpProtocol.udp 0x0a000001 inaddrBroadcast ++
    put16 67 ++ put16 68 ++ put16 1000 ++ put16 0 ++ List.replicate 18 0

/-- The frame with these bytes. -/
def shortFrame : Frame := ⟨view shortPacket, 60, by norm_num⟩

/-- A device that waits for a DHCP offer. -/
def waitingDevice : Ipv4EthernetDevice :=
  ⟨#v[2, 0, 0, 0, 0, 2], ipv4NetConfigNone, [], [⟨inaddrAny, 68, 0⟩]⟩

/-- **A read out of bounds.** The receive function of the socket is called with
992 bytes of a frame that has 60. -/
theorem not_ethIn_inside :
    ¬ ∀ (dev : Ipv4EthernetDevice) (fr : Frame),
      ∀ e ∈ (ethIn fr dev).events, e.Inside fr.length := by
  intro hall
  have hmem : .recv ⟨inaddrAny, 68, 0⟩ ⟨42, 992⟩ ∈ (ethIn shortFrame waitingDevice).events := by
    decide
  have hin : (⟨42, 992⟩ : Slice).Inside 60 := hall _ _ _ hmem
  exact absurd hin (by decide)

end Ipv4EthernetDevice

end Attos.Net
