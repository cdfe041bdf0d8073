import Attos.Lib.Reach
import Attos.Net.Dhcp
import Attos.Net.Ipv4Device

/-!
# The DHCP client

`dhcp_handler` of `attos/net/tftp.cpp`: it sends a discover message, takes the
first offer it gets, requests the address, and is finished when the request is
acknowledged. When the timer runs out it starts over, also after it has
finished. A call gives the new state and the datagrams that are broadcast.

The transaction id never changes, so a reply to an earlier attempt is as good as
any other. What ties the configuration to the request is that every offer that
is taken is requested at once, and an acknowledgment for another address makes
the handler abort (`dhcp_finished`).
-/

namespace Attos.Net

open Lib

/-! ## Messages -/

namespace DhcpMessageType

/-- `dhcp_message_type::discover` -/
def discover : UInt8 := 1

/-- `dhcp_message_type::offer` -/
def offer : UInt8 := 2

/-- `dhcp_message_type::request` -/
def request : UInt8 := 3

/-- `dhcp_message_type::ack` -/
def ack : UInt8 := 5

/-- `dhcp_message_type::nak` -/
def nak : UInt8 := 6

end DhcpMessageType

/-- `bootp_operation::request` -/
def BootpOperation.request : UInt8 := 1

/-- `bootp_broadcast_flag` -/
def bootpBroadcastFlag : ℕ := 0x8000

/-- `dhcp_option::requested_ip` -/
def DhcpOption.requestedIp : UInt8 := 50

/-- `dhcp_dst_port` -/
def dhcpDstPort : ℕ := 67

/-- A datagram that is sent: address, port and payload. -/
abbrev Datagram : Type := Ipv4Address × ℕ × List UInt8

/-- `start_request`: the fixed header. -/
def startRequest (hwAddress : MacAddress) (messageType : UInt8) (flags : ℕ) : List UInt8 :=
  [BootpOperation.request, UInt8.ofNat ArpHtype.ethernet, 6, 0] ++ put32 transactionId ++
    put16 0 ++ put16 flags ++ List.replicate 16 0 ++ hwAddress.toList ++ List.replicate 202 0 ++
    put32 dhcpMagicCookie ++ [DhcpOption.messageType, 1, messageType]

theorem length_startRequest (hwAddress : MacAddress) (messageType : UInt8) (flags : ℕ) :
    (startRequest hwAddress messageType flags).length = 243 := by
  simp only [startRequest, List.length_append, List.length_replicate, List.length_cons,
    List.length_nil, length_put16, length_put32, Vector.length_toList, Nat.reduceAdd]

/-- `put_option` -/
def putOption (opt : UInt8) (addr : Ipv4Address) : List UInt8 := [opt, 4] ++ putIpv4 addr

/-- `finish_request`: the end mark, and the broadcast. -/
def finishRequest (message : List UInt8) : Outcome Datagram := do
  Outcome.require (sizeofDhcpHeader ≤ message.length ∧ message.length < 512 - 1)
  pure (inaddrBroadcast, dhcpDstPort, message ++ [DhcpOption.end_])

/-! ## The handler -/

/-- `dhcp_handler::state` -/
inductive DhcpState : Type where
  /-- `wait_for_offer` -/
  | waitForOffer : DhcpState
  /-- `wait_for_ack` -/
  | waitForAck : DhcpState
  /-- `finished` -/
  | finished : DhcpState
  deriving DecidableEq

/-- `dhcp_handler` -/
structure DhcpHandler : Type where
  /-- the configuration -/
  config_ : Ipv4NetConfig
  /-- the state -/
  state_ : DhcpState
  /-- ticks until the next timeout, or 0 -/
  timeout_ : ℕ
  deriving DecidableEq

namespace DhcpHandler

variable (hwAddress : MacAddress)

/-- `finished` -/
def finished (h : DhcpHandler) : Bool := h.state_ = .finished

/-- `config` -/
def config (h : DhcpHandler) : Outcome Ipv4NetConfig := do
  Outcome.require h.finished
  pure h.config_

/-- `send_dhcp_discover` -/
def sendDhcpDiscover (h : DhcpHandler) : Outcome (DhcpHandler × List Datagram) := do
  let d ← finishRequest (startRequest hwAddress DhcpMessageType.discover bootpBroadcastFlag)
  pure ({ h with state_ := .waitForOffer, timeout_ := 50 }, [d])

/-- The message that requests an address. -/
def dhcpRequest (address serverId : Ipv4Address) : List UInt8 :=
  startRequest hwAddress DhcpMessageType.request bootpBroadcastFlag ++
    putOption DhcpOption.requestedIp address ++ putOption DhcpOption.serverIdentifier serverId

/-- `send_dhcp_request` -/
def sendDhcpRequest (h : DhcpHandler) (address serverId : Ipv4Address) :
    Outcome (DhcpHandler × List Datagram) := do
  let d ← finishRequest (dhcpRequest hwAddress address serverId)
  pure ({ h with state_ := .waitForAck, timeout_ := 50 }, [d])

/-- The constructor, after it has opened the socket. -/
def construct : Outcome (DhcpHandler × List Datagram) :=
  sendDhcpDiscover hwAddress ⟨ipv4NetConfigNone, .waitForOffer, 0⟩

/-- `tick` -/
def tick (h : DhcpHandler) : Outcome (DhcpHandler × List Datagram) :=
  if h.timeout_ = 1 then sendDhcpDiscover hwAddress { h with timeout_ := 0 }
  else .done ({ h with timeout_ := h.timeout_ - 1 }, [])

/-- The configuration of an offer. -/
def offered (pr : DhcpParseResult) : Ipv4NetConfig where
  addr := pr.dh.yiaddr
  netmask := if pr.netmask = inaddrAny then 0xffffff00 else pr.netmask
  gateway := pr.router

/-- `dhcp_in` -/
def dhcpIn (fuel : ℕ) (h : DhcpHandler) (data : List UInt8) :
    Outcome (DhcpHandler × List Datagram) :=
  match h.state_ with
  | .waitForOffer => do
    let pr ← parseReply fuel hwAddress DhcpMessageType.offer data
    Outcome.require (pr.dh.yiaddr ≠ inaddrAny ∧ pr.dh.yiaddr ≠ inaddrBroadcast)
    sendDhcpRequest hwAddress { h with config_ := offered pr, state_ := .waitForAck }
      pr.dh.yiaddr pr.serverId
  | .waitForAck => do
    let pr ← parseReply fuel hwAddress DhcpMessageType.ack data
    Outcome.require (pr.dh.yiaddr = h.config_.addr)
    pure ({ h with state_ := .finished }, [])
  | .finished => .done (h, [])

end DhcpHandler

/-! ## What a call does -/

namespace DhcpParseResult

/-- The options do not change the header. -/
theorem readOption_dh {res res' : DhcpParseResult} {type : UInt8} {len : ℕ} {data : List UInt8}
    (h : res.readOption type len data = .done res') : res'.dh = res.dh := by
  revert h
  apply readOption_of (p := fun x => x = .done res' → res'.dh = res.dh)
  · intro ok _ h
    obtain ⟨-, h⟩ := Outcome.require_bind_eq_done.mp h
    cases h
    rfl
  · intro h
    obtain ⟨-, h⟩ := Outcome.require_bind_eq_done.mp h
    cases h
    rfl
  · intro h
    obtain ⟨-, h⟩ := Outcome.require_bind_eq_done.mp h
    obtain ⟨-, h⟩ := Outcome.require_bind_eq_done.mp h
    cases h
    rfl
  · intro h
    obtain ⟨-, h⟩ := Outcome.require_bind_eq_done.mp h
    cases h
    rfl

theorem readOptions_dh {fuel : ℕ} {res res' : DhcpParseResult} {data rest : List UInt8}
    (h : readOptions fuel res data = .done (res', rest)) : res'.dh = res.dh := by
  induction fuel generalizing res data with
  | zero => cases h
  | succ fuel ih =>
    match data, h with
    | [], h =>
      cases h
      rfl
    | [_], h =>
      cases h
      rfl
    | type :: len :: data, h =>
      rw [readOptions] at h
      split_ifs at h with hpad hend
      · exact ih h
      · cases h
        rfl
      · obtain ⟨-, h⟩ := Outcome.require_bind_eq_done.mp h
        obtain ⟨res₁, hres₁, h⟩ := Outcome.bind_eq_done.mp h
        exact (ih h).trans (readOption_dh hres₁)

end DhcpParseResult

/-- A reply that is accepted has the expected header. -/
theorem parseReply_eq_done {fuel : ℕ} {hwAddress : MacAddress} {expectedMessage : UInt8}
    {data : List UInt8} {pr : DhcpParseResult}
    (h : parseReply fuel hwAddress expectedMessage data = .done pr) :
    HeaderOk hwAddress expectedMessage data ∧ pr.dh = DhcpHeader.read (view data) := by
  rw [parseReply] at h
  simp only [Outcome.require_bind_eq_done] at h
  obtain ⟨h₁, h₂, h₃, h₄, h₅, h₆, h₇, h₈, h₉, h₁₀, h₁₁, h⟩ := h
  obtain ⟨⟨res, rest⟩, hloop, h⟩ := Outcome.bind_eq_done.mp h
  obtain ⟨-, h⟩ := Outcome.require_bind_eq_done.mp h
  refine ⟨⟨h₁, h₂, h₃, h₄, h₅, h₆, h₇, h₈, h₉, h₁₀, h₁₁⟩, ?_⟩
  have hdh := DhcpParseResult.readOptions_dh hloop
  simp only [Outcome.pure_eq, Outcome.done.injEq] at h
  rw [← h]
  split_ifs <;> exact hdh

namespace DhcpHandler

variable {hwAddress : MacAddress} {h h' : DhcpHandler} {out : List Datagram}

/-- The datagram that requests an address. -/
def requestDatagram (hwAddress : MacAddress) (address serverId : Ipv4Address) : Datagram :=
  (inaddrBroadcast, dhcpDstPort, dhcpRequest hwAddress address serverId ++ [DhcpOption.end_])

/-- Discover messages fit the buffer. -/
theorem sendDhcpDiscover_eq (hwAddress : MacAddress) (h : DhcpHandler) : ∃ d,
    sendDhcpDiscover hwAddress h = .done ({ h with state_ := .waitForOffer, timeout_ := 50 }, [d]) := by
  rw [sendDhcpDiscover, finishRequest]
  rw [Outcome.require_pos (by rw [length_startRequest]; decide)]
  exact ⟨_, rfl⟩

/-- So do requests. -/
theorem sendDhcpRequest_eq (hwAddress : MacAddress) (h : DhcpHandler)
    (address serverId : Ipv4Address) : sendDhcpRequest hwAddress h address serverId =
      .done ({ h with state_ := .waitForAck, timeout_ := 50 },
        [requestDatagram hwAddress address serverId]) := by
  have hlength : (dhcpRequest hwAddress address serverId).length = 255 := by
    simp only [dhcpRequest, List.length_append, length_startRequest]
    rfl
  rw [sendDhcpRequest, finishRequest]
  rw [Outcome.require_pos (by rw [hlength]; decide)]
  rfl

/-- **A tick** does nothing, or starts over. -/
theorem tick_eq (hwAddress : MacAddress) (h : DhcpHandler) :
    ∃ h' out, tick hwAddress h = .done (h', out) ∧ h'.config_ = h.config_ ∧
      (h'.state_ = h.state_ ∧ out = [] ∨ h'.state_ = .waitForOffer) := by
  rw [tick]
  split_ifs with htimeout
  · obtain ⟨d, hd⟩ := sendDhcpDiscover_eq hwAddress { h with timeout_ := 0 }
    exact ⟨_, _, hd, rfl, .inr rfl⟩
  · exact ⟨_, _, rfl, rfl, .inl ⟨rfl, rfl⟩⟩

/-- **An offer** that is taken is requested. -/
theorem dhcpIn_offer {fuel : ℕ} {data : List UInt8} (hstate : h.state_ = .waitForOffer)
    (hrun : dhcpIn hwAddress fuel h data = .done (h', out)) :
    ∃ pr, parseReply fuel hwAddress DhcpMessageType.offer data = .done pr ∧
      pr.dh.yiaddr ≠ inaddrAny ∧ pr.dh.yiaddr ≠ inaddrBroadcast ∧
      h' = ⟨offered pr, .waitForAck, 50⟩ ∧
      out = [requestDatagram hwAddress pr.dh.yiaddr pr.serverId] := by
  rw [dhcpIn] at hrun
  rw [hstate] at hrun
  obtain ⟨pr, hpr, hrun⟩ := Outcome.bind_eq_done.mp hrun
  obtain ⟨⟨hany, hbroadcast⟩, hrun⟩ := Outcome.require_bind_eq_done.mp hrun
  rw [sendDhcpRequest_eq] at hrun
  cases hrun
  exact ⟨pr, hpr, hany, hbroadcast, rfl, rfl⟩

/-- **An acknowledgment** that is taken is for the address of the
configuration. -/
theorem dhcpIn_ack {fuel : ℕ} {data : List UInt8} (hstate : h.state_ = .waitForAck)
    (hrun : dhcpIn hwAddress fuel h data = .done (h', out)) :
    ∃ pr, parseReply fuel hwAddress DhcpMessageType.ack data = .done pr ∧
      pr.dh.yiaddr = h.config_.addr ∧ h' = { h with state_ := .finished } ∧ out = [] := by
  rw [dhcpIn] at hrun
  rw [hstate] at hrun
  obtain ⟨pr, hpr, hrun⟩ := Outcome.bind_eq_done.mp hrun
  obtain ⟨haddr, hrun⟩ := Outcome.require_bind_eq_done.mp hrun
  cases hrun
  exact ⟨pr, hpr, haddr, rfl, rfl⟩

/-- **After that** datagrams are ignored. -/
theorem dhcpIn_finished (fuel : ℕ) (data : List UInt8) (hstate : h.state_ = .finished) :
    dhcpIn hwAddress fuel h data = .done (h, []) := by
  rw [dhcpIn]
  rw [hstate]

/-- The mask of an offer is not zero. -/
theorem offered_netmask (pr : DhcpParseResult) : (offered pr).netmask ≠ inaddrAny := by
  rw [offered]
  dsimp only
  split_ifs with hmask
  · decide
  · exact hmask

end DhcpHandler

/-! ## Runs -/

/-- A run of the handler so far: the state, the offers and the acknowledgments
that were accepted and the datagrams that were sent, the latest one first. -/
structure DhcpRun : Type where
  /-- the handler -/
  handler : DhcpHandler
  /-- the offers -/
  offers : List (List UInt8)
  /-- the acknowledgments -/
  acks : List (List UInt8)
  /-- what was sent -/
  sent : List Datagram

namespace DhcpRun

variable (hwAddress : MacAddress)

/-- The handler was constructed. -/
def Init (r : DhcpRun) : Prop :=
  DhcpHandler.construct hwAddress = .done (r.handler, r.sent) ∧ r.offers = [] ∧ r.acks = []

/-- The timer ticks, or a datagram comes in. -/
inductive Step : DhcpRun → DhcpRun → Prop where
  /-- a tick -/
  | tick {r : DhcpRun} {h : DhcpHandler} {out : List Datagram} :
      r.handler.tick hwAddress = .done (h, out) →
        Step r { r with handler := h, sent := out ++ r.sent }
  /-- a datagram -/
  | receive {r : DhcpRun} {fuel : ℕ} {data : List UInt8} {h : DhcpHandler} {out : List Datagram} :
      r.handler.dhcpIn hwAddress fuel data = .done (h, out) →
        Step r
          { handler := h
            offers := if r.handler.state_ = .waitForOffer then data :: r.offers else r.offers
            acks := if r.handler.state_ = .waitForAck then data :: r.acks else r.acks
            sent := out ++ r.sent }

/-- The runs that have not aborted. -/
abbrev Reachable : DhcpRun → Prop := Reach (Init hwAddress) (Step hwAddress)

/-- The address that a message offers or acknowledges. -/
def yiaddr (data : List UInt8) : Ipv4Address := (DhcpHeader.read (view data)).yiaddr

/-- The configuration is that of the last offer, which was requested last. -/
structure Requested (r : DhcpRun) : Prop where
  /-- the last offer -/
  offer : ∃ offer offers, r.offers = offer :: offers ∧ yiaddr offer = r.handler.config_.addr
  /-- the last datagram -/
  sent : ∃ serverId sent, r.sent =
    DhcpHandler.requestDatagram hwAddress r.handler.config_.addr serverId :: sent
  /-- the address can be used -/
  addr : r.handler.config_.addr ≠ inaddrAny ∧ r.handler.config_.addr ≠ inaddrBroadcast
  /-- so can the mask -/
  netmask : r.handler.config_.netmask ≠ inaddrAny

/-- The last acknowledgment is for the configuration. -/
def Acknowledged (r : DhcpRun) : Prop :=
  ∃ ack acks, r.acks = ack :: acks ∧ yiaddr ack = r.handler.config_.addr

/-- What is known in each state. -/
structure Inv (r : DhcpRun) : Prop where
  /-- with an offer -/
  requested : r.handler.state_ ≠ .waitForOffer → Requested hwAddress r
  /-- with an acknowledgment -/
  acknowledged : r.handler.state_ = .finished → Acknowledged r

variable {hwAddress} {r r' : DhcpRun}

/-- A tick keeps what is known, or goes back to the start. -/
theorem Inv.tick {h : DhcpHandler} {out : List Datagram} (hr : Inv hwAddress r)
    (hrun : r.handler.tick hwAddress = .done (h, out)) :
    Inv hwAddress { r with handler := h, sent := out ++ r.sent } := by
  obtain ⟨h', out', hrun', hconfig, hcases⟩ := DhcpHandler.tick_eq hwAddress r.handler
  rw [hrun] at hrun'
  cases hrun'
  rcases hcases with ⟨hstate, rfl⟩ | hstate
  · refine ⟨fun hne => ?_, fun hfin => ?_⟩
    · have hreq := hr.requested (hstate ▸ hne)
      constructor <;> simp only [hconfig, List.nil_append]
      · exact hreq.offer
      · exact hreq.sent
      · exact hreq.addr
      · exact hreq.netmask
    · obtain ⟨ack, acks, hacks, haddr⟩ := hr.acknowledged (hstate ▸ hfin)
      exact ⟨ack, acks, hacks, haddr.trans (by rw [hconfig])⟩
  · refine ⟨fun hne => absurd hstate hne, fun hfin => ?_⟩
    change h.state_ = .finished at hfin
    rw [hstate] at hfin
    cases hfin

/-- A datagram advances the exchange. -/
theorem Inv.receive {fuel : ℕ} {data : List UInt8} {h : DhcpHandler} {out : List Datagram}
    (hr : Inv hwAddress r) (hrun : r.handler.dhcpIn hwAddress fuel data = .done (h, out)) :
    Inv hwAddress
      { handler := h
        offers := if r.handler.state_ = .waitForOffer then data :: r.offers else r.offers
        acks := if r.handler.state_ = .waitForAck then data :: r.acks else r.acks
        sent := out ++ r.sent } := by
  cases hstate : r.handler.state_ with
  | waitForOffer =>
    obtain ⟨pr, hpr, hany, hbroadcast, rfl, rfl⟩ := DhcpHandler.dhcpIn_offer hstate hrun
    have hdh := (parseReply_eq_done hpr).2
    refine ⟨fun _ => ⟨⟨data, r.offers, rfl, ?_⟩, ⟨pr.serverId, r.sent, rfl⟩,
      ⟨hany, hbroadcast⟩, DhcpHandler.offered_netmask pr⟩, fun hfin => nomatch hfin⟩
    exact congrArg DhcpHeader.yiaddr hdh.symm
  | waitForAck =>
    obtain ⟨pr, hpr, haddr, rfl, rfl⟩ := DhcpHandler.dhcpIn_ack hstate hrun
    have hdh := (parseReply_eq_done hpr).2
    have hreq := hr.requested (by rw [hstate]; simp)
    refine ⟨fun _ => ⟨hreq.offer, hreq.sent, hreq.addr, hreq.netmask⟩, fun _ => ?_⟩
    exact ⟨data, r.acks, rfl, (congrArg DhcpHeader.yiaddr hdh).symm.trans haddr⟩
  | finished =>
    rw [DhcpHandler.dhcpIn_finished fuel data hstate] at hrun
    cases hrun
    exact ⟨fun hne => ⟨(hr.requested hne).offer, (hr.requested hne).sent, (hr.requested hne).addr,
      (hr.requested hne).netmask⟩, fun hfin => hr.acknowledged hfin⟩

/-- **The invariant of the exchange.** -/
theorem reachable_inv (hr : Reachable hwAddress r) : Inv hwAddress r := by
  apply Reach.invariant (Inv hwAddress) hr
  · rintro r ⟨hinit, -, -⟩
    obtain ⟨d, hd⟩ := DhcpHandler.sendDhcpDiscover_eq hwAddress ⟨ipv4NetConfigNone, .waitForOffer, 0⟩
    rw [DhcpHandler.construct] at hinit
    rw [hd] at hinit
    simp only [Outcome.done.injEq, Prod.mk.injEq] at hinit
    have hstate : r.handler.state_ = .waitForOffer := by rw [← hinit.1]
    refine ⟨fun hne => absurd hstate hne, fun hfin => ?_⟩
    rw [hstate] at hfin
    cases hfin
  · intro r r' hr hstep
    cases hstep with
    | tick hrun => exact hr.tick hrun
    | receive hrun => exact hr.receive hrun

end DhcpRun

open DhcpRun in
/-- **A finished handler has the address it was given.** In every run of ticks
and datagrams that has not aborted, the configuration of a finished handler is
that of the last offer, which the last datagram requested, and of the last
acknowledgment, and no datagram changes it. -/
theorem dhcp_finished (hwAddress : MacAddress) {r : DhcpRun} (hr : Reachable hwAddress r)
    (hfin : r.handler.finished = true) :
    (∃ offer offers, r.offers = offer :: offers ∧ yiaddr offer = r.handler.config_.addr) ∧
      (∃ serverId sent, r.sent =
        DhcpHandler.requestDatagram hwAddress r.handler.config_.addr serverId :: sent) ∧
      (∃ ack acks, r.acks = ack :: acks ∧ yiaddr ack = r.handler.config_.addr) ∧
      r.handler.config_.addr ≠ inaddrAny ∧ r.handler.config_.addr ≠ inaddrBroadcast ∧
      r.handler.config_.netmask ≠ inaddrAny ∧
      ∀ fuel data, r.handler.dhcpIn hwAddress fuel data = .done (r.handler, []) := by
  have hinv := reachable_inv hr
  have hstate : r.handler.state_ = .finished := by simpa [DhcpHandler.finished] using hfin
  have hreq := hinv.requested (by rw [hstate]; simp)
  exact ⟨hreq.offer, hreq.sent, hinv.acknowledged hstate, hreq.addr.1, hreq.addr.2, hreq.netmask,
    fun fuel data => DhcpHandler.dhcpIn_finished fuel data hstate⟩

/-! ## An exchange -/

/-- The hardware address `02:00:00:00:00:01`. -/
def dhcpClient : MacAddress := Vector.replicate 6 1

/-- A reply of this type to this client, which gives it the address
192.168.10.2. -/
def dhcpReply (messageType : UInt8) : List UInt8 :=
  [2, 1, 6, 0] ++ put32 transactionId ++ List.replicate 8 0 ++ putIpv4 0xc0a80a02 ++
    List.replicate 8 0 ++ dhcpClient.toList ++ List.replicate 202 0 ++ put32 dhcpMagicCookie ++
    [53, 1, messageType] ++ [255]

namespace DhcpHandler

/-- After the constructor. -/
def started : DhcpHandler := ⟨ipv4NetConfigNone, .waitForOffer, 50⟩

/-- After the offer. -/
def requesting : DhcpHandler := ⟨⟨0xc0a80a02, 0xffffff00, inaddrAny⟩, .waitForAck, 50⟩

/-- The offer is taken. -/
theorem started_offer : started.dhcpIn dhcpClient 1 (dhcpReply DhcpMessageType.offer) =
    .done (requesting, [requestDatagram dhcpClient 0xc0a80a02 inaddrAny]) := by
  decide +kernel

/-- The acknowledgment is taken. -/
theorem requesting_ack : requesting.dhcpIn dhcpClient 1 (dhcpReply DhcpMessageType.ack) =
    .done ({ requesting with state_ := .finished }, []) := by
  decide +kernel

end DhcpHandler

open DhcpHandler in
/-- An offer and its acknowledgment. -/
theorem dhcp_finished_exchange : ∃ r : DhcpRun, DhcpRun.Reachable dhcpClient r ∧
    r.handler.finished = true ∧ r.handler.config_.addr = 0xc0a80a02 ∧
    (∃ ack acks, r.acks = ack :: acks ∧ DhcpRun.yiaddr ack = r.handler.config_.addr) := by
  obtain ⟨d, hd⟩ := sendDhcpDiscover_eq dhcpClient ⟨ipv4NetConfigNone, .waitForOffer, 0⟩
  have h₀ : DhcpRun.Reachable dhcpClient ⟨started, [], [], [d]⟩ := .start ⟨hd, rfl, rfl⟩
  have h₁ := h₀.step (.receive started_offer)
  have h₂ := h₁.step (.receive requesting_ack)
  exact ⟨_, h₂, rfl, rfl, (dhcp_finished dhcpClient h₂ rfl).2.2.1⟩

end Attos.Net
