import Attos.Net.DhcpHandler

/-!
# Unexpected DHCP replies

The handler does not ignore a reply it has no use for: while it waits, every
reply that is not for this client, in this transaction, of the expected type and
free of options that the parser does not accept makes it abort
(`handled_iff`). A second offer is enough, be it from another server or a copy
of the first one (`not_dhcp_never_aborts`).
-/

namespace Attos.Net

open Lib

/-! ## When the parser returns -/

namespace DhcpOption

/-- Accepted options, then the end mark. -/
def Ended (data : List UInt8) : Prop :=
  ∃ opts rest, data = encode opts ++ end_ :: rest ∧ ∀ o ∈ opts, Legal o.1 o.2

/-- The end mark ends the options. -/
theorem Ended.here (rest : List UInt8) : Ended (end_ :: rest) := ⟨[], rest, rfl, by simp⟩

/-- An option in front does not change that. -/
theorem Ended.cons {type : UInt8} {value data : List UInt8} (ho : Legal type value)
    (h : Ended data) : Ended (type :: UInt8.ofNat value.length :: (value ++ data)) := by
  obtain ⟨opts, rest, rfl, hopts⟩ := h
  refine ⟨(type, value) :: opts, rest, by simp [encode], ?_⟩
  exact List.forall_mem_cons.mpr ⟨ho, hopts⟩

end DhcpOption

namespace DhcpParseResult

open DhcpOption

/-- An option that the loop goes past is a legal one. -/
theorem legal_of_readOption {res res' : DhcpParseResult} {type len : UInt8} {data : List UInt8}
    (hpad : type ≠ padding) (hend : type ≠ end_) (hlen : len.toNat ≤ data.length)
    (h : res.readOption type len.toNat data = .done res') :
    Legal type (data.take len.toNat) ∧ (data.take len.toNat).length = len.toNat := by
  have htake : (data.take len.toNat).length = len.toNat := by simpa using hlen
  have hdata : data = data.take len.toNat ++ data.drop len.toNat := by simp
  refine ⟨⟨⟨hpad, hend⟩, htake.trans_lt len.toNat_lt, ?_⟩, htake⟩
  rw [← readOption_returns, htake, ← hdata]
  exact ⟨res', h⟩

/-- **A loop that stops at an end mark** has gone past legal options. -/
theorem ended_of_readOptions {fuel : ℕ} {res res' : DhcpParseResult} {data rest : List UInt8}
    (h : readOptions fuel res data = .done (res', rest)) (hrest : rest.head? = some 0xff) :
    Ended data := by
  induction fuel generalizing res data with
  | zero => cases h
  | succ fuel ih =>
    match data, h with
    | [], h =>
      cases h
      cases hrest
    | [b], h =>
      cases h
      obtain rfl : b = 0xff := by simpa using hrest
      exact .here []
    | type :: len :: data, h =>
      rw [readOptions] at h
      by_cases hpad : type = padding
      · rw [if_pos hpad] at h
        exact ih h
      rw [if_neg hpad] at h
      by_cases hend : type = end_
      · exact hend ▸ .here _
      rw [if_neg hend] at h
      obtain ⟨hlen, h⟩ := Outcome.require_bind_eq_done.mp h
      obtain ⟨res₁, hres₁, h⟩ := Outcome.bind_eq_done.mp h
      obtain ⟨hlegal, htake⟩ := legal_of_readOption hpad hend hlen hres₁
      have hcons := (ih h).cons hlegal
      rwa [htake, List.take_append_drop, UInt8.ofNat_toNat] at hcons

/-- **Behind legal options** the loop stops at the end mark. -/
theorem readOptions_ended {data : List UInt8} (h : Ended data) (res : DhcpParseResult) :
    ∃ fuel res' rest, readOptions fuel res data = .done (res', rest) ∧ rest.head? = some 0xff := by
  obtain ⟨opts, tail, rfl, hopts⟩ := h
  induction opts generalizing res with
  | nil =>
    rw [encode, List.nil_append]
    cases tail with
    | nil => exact ⟨1, res, _, rfl, rfl⟩
    | cons b tail =>
      refine ⟨1, res, end_ :: b :: tail, ?_, rfl⟩
      rw [readOptions, if_neg (by decide), if_pos rfl]
  | cons o opts ih =>
    obtain ⟨type, value⟩ := o
    obtain ⟨⟨⟨hpad, hend⟩, hbyte, hacc⟩, hopts⟩ := List.forall_mem_cons.mp hopts
    have hlen : (UInt8.ofNat value.length).toNat = value.length := by simp; omega
    obtain ⟨res₁, hres₁⟩ := readOption_returns.mpr hacc
    obtain ⟨fuel, res', rest, hrun, hrest⟩ := ih res₁ hopts
    refine ⟨fuel + 1, res', rest, ?_, hrest⟩
    have hdata : encode ((type, value) :: opts) ++ end_ :: tail =
        type :: UInt8.ofNat value.length :: (value ++ (encode opts ++ end_ :: tail)) := by
      simp [encode]
    rw [hdata, readOptions, if_neg hpad, if_neg hend, hlen, Outcome.require_pos (by simp),
      Outcome.done_bind, hres₁, Outcome.done_bind, List.drop_left]
    exact hrun

end DhcpParseResult

/-- A reply that the parser accepts. -/
structure Acceptable (hwAddress : MacAddress) (messageType : UInt8) (data : List UInt8) :
    Prop where
  /-- the header is the expected one -/
  header : HeaderOk hwAddress messageType data
  /-- the options are legal and end -/
  options : DhcpOption.Ended (data.drop sizeofDhcpHeader)

/-- **The parser returns** for the replies it accepts. -/
theorem parseReply_returns_iff {hwAddress : MacAddress} {messageType : UInt8}
    {data : List UInt8} :
    (∃ fuel, (parseReply fuel hwAddress messageType data).Returns) ↔
      Acceptable hwAddress messageType data := by
  constructor
  · rintro ⟨fuel, pr, h⟩
    refine ⟨(parseReply_eq_done h).1, ?_⟩
    rw [parseReply] at h
    simp only [Outcome.require_bind_eq_done] at h
    obtain ⟨-, -, -, -, -, -, -, -, -, -, -, h⟩ := h
    obtain ⟨⟨res, rest⟩, hloop, h⟩ := Outcome.bind_eq_done.mp h
    exact DhcpParseResult.ended_of_readOptions hloop (Outcome.require_bind_eq_done.mp h).1
  · rintro ⟨hok, hended⟩
    obtain ⟨fuel, res, rest, hloop, hrest⟩ := DhcpParseResult.readOptions_ended hended
      ⟨DhcpHeader.read (view data), inaddrAny, inaddrAny, inaddrAny⟩
    refine ⟨fuel, ?_⟩
    rw [parseReply]
    simp only [Outcome.require_bind_returns]
    refine ⟨hok.length, hok.op, hok.htype, hok.hlen, hok.xid, hok.chaddr, hok.cookie,
      hok.messageTypeOpt, hok.messageTypeLen, hok.messageType, hok.giaddr, ?_⟩
    rw [Outcome.bind_returns]
    exact ⟨(res, rest), hloop, Outcome.require_bind_returns.mpr ⟨hrest, Outcome.done_returns _⟩⟩

/-! ## When the handler returns -/

namespace DhcpHandler

variable (hwAddress : MacAddress)

/-- The reply is what the handler waits for: in its transaction, for its device
and of the type that the state expects. -/
def Matches (h : DhcpHandler) (data : List UInt8) : Prop :=
  (DhcpHeader.read (view data)).xid = transactionId ∧
    (DhcpHeader.read (view data)).chaddr = hwAddress ∧
    (h.state_ = .waitForOffer ∧
        (DhcpHeader.read (view data)).messageType = DhcpMessageType.offer ∨
      h.state_ = .waitForAck ∧ (DhcpHeader.read (view data)).messageType = DhcpMessageType.ack)

/-- The reply is handled: the call returns, and a reply that does not match
changes nothing. -/
def Handles (h : DhcpHandler) (data : List UInt8) : Prop :=
  ∃ fuel h' out, h.dhcpIn hwAddress fuel data = .done (h', out) ∧
    (¬ h.Matches hwAddress data → h'.state_ = h.state_ ∧ h'.config_ = h.config_)

/-- The reply is expected: the handler is finished, or it is an offer of a
possible address or the acknowledgment of the requested one. -/
def Expects (h : DhcpHandler) (data : List UInt8) : Prop :=
  match h.state_ with
  | .waitForOffer => Acceptable hwAddress DhcpMessageType.offer data ∧
      DhcpRun.yiaddr data ≠ inaddrAny ∧ DhcpRun.yiaddr data ≠ inaddrBroadcast
  | .waitForAck => Acceptable hwAddress DhcpMessageType.ack data ∧
      DhcpRun.yiaddr data = h.config_.addr
  | .finished => True

variable {hwAddress}

theorem dhcpIn_of_offer {h : DhcpHandler} {fuel : ℕ} {data : List UInt8} {pr : DhcpParseResult}
    (hstate : h.state_ = .waitForOffer)
    (hpr : parseReply fuel hwAddress DhcpMessageType.offer data = .done pr)
    (haddr : pr.dh.yiaddr ≠ inaddrAny ∧ pr.dh.yiaddr ≠ inaddrBroadcast) :
    h.dhcpIn hwAddress fuel data = .done (⟨offered pr, .waitForAck, 50⟩,
      [requestDatagram hwAddress pr.dh.yiaddr pr.serverId]) := by
  rw [dhcpIn]
  simp only [hstate, hpr, Outcome.done_bind, Outcome.require_pos haddr, sendDhcpRequest_eq]

theorem dhcpIn_of_ack {h : DhcpHandler} {fuel : ℕ} {data : List UInt8} {pr : DhcpParseResult}
    (hstate : h.state_ = .waitForAck)
    (hpr : parseReply fuel hwAddress DhcpMessageType.ack data = .done pr)
    (haddr : pr.dh.yiaddr = h.config_.addr) :
    h.dhcpIn hwAddress fuel data = .done ({ h with state_ := .finished }, []) := by
  rw [dhcpIn]
  simp only [hstate, hpr, Outcome.done_bind, Outcome.require_pos haddr, Outcome.pure_eq]

/-- **Exactly the expected replies are handled.** -/
theorem handles_iff (h : DhcpHandler) (data : List UInt8) :
    h.Handles hwAddress data ↔ h.Expects hwAddress data := by
  rw [Expects]
  cases hstate : h.state_ with
  | waitForOffer =>
    constructor
    · rintro ⟨fuel, h', out, hrun, -⟩
      obtain ⟨pr, hpr, hany, hbroadcast, -, -⟩ := dhcpIn_offer hstate hrun
      rw [(parseReply_eq_done hpr).2] at hany hbroadcast
      exact ⟨parseReply_returns_iff.mp ⟨fuel, pr, hpr⟩, hany, hbroadcast⟩
    · rintro ⟨hok, hany, hbroadcast⟩
      obtain ⟨fuel, pr, hpr⟩ := parseReply_returns_iff.mpr hok
      have hdh := (parseReply_eq_done hpr).2
      refine ⟨fuel, _, _, dhcpIn_of_offer hstate hpr (by rw [hdh]; exact ⟨hany, hbroadcast⟩),
        fun hnot => absurd ?_ hnot⟩
      exact ⟨hok.header.xid, hok.header.chaddr, .inl ⟨hstate, hok.header.messageType⟩⟩
  | waitForAck =>
    constructor
    · rintro ⟨fuel, h', out, hrun, -⟩
      obtain ⟨pr, hpr, haddr, -, -⟩ := dhcpIn_ack hstate hrun
      rw [(parseReply_eq_done hpr).2] at haddr
      exact ⟨parseReply_returns_iff.mp ⟨fuel, pr, hpr⟩, haddr⟩
    · rintro ⟨hok, haddr⟩
      obtain ⟨fuel, pr, hpr⟩ := parseReply_returns_iff.mpr hok
      have hdh := (parseReply_eq_done hpr).2
      refine ⟨fuel, _, _, dhcpIn_of_ack hstate hpr (by rw [hdh]; exact haddr),
        fun hnot => absurd ?_ hnot⟩
      exact ⟨hok.header.xid, hok.header.chaddr, .inr ⟨hstate, hok.header.messageType⟩⟩
  | finished =>
    exact iff_of_true ⟨0, h, [], dhcpIn_finished 0 data hstate, fun _ => ⟨rfl, rfl⟩⟩ trivial

end DhcpHandler

/-! ## Runs -/

/-- A step of the handler when only datagrams with `C` come in. A datagram that
is not handled ends the run. -/
inductive DhcpStep (hwAddress : MacAddress) (C : DhcpHandler → List UInt8 → Prop) :
    Option DhcpHandler → Option DhcpHandler → Prop where
  /-- a tick -/
  | tick {h h' : DhcpHandler} {out : List Datagram} :
      h.tick hwAddress = .done (h', out) → DhcpStep hwAddress C (some h) (some h')
  /-- a tick that aborts -/
  | tickAborts {h : DhcpHandler} :
      ¬ (h.tick hwAddress).Returns → DhcpStep hwAddress C (some h) none
  /-- a datagram -/
  | receive {h h' : DhcpHandler} {fuel : ℕ} {data : List UInt8} {out : List Datagram} :
      C h data → h.dhcpIn hwAddress fuel data = .done (h', out) →
        DhcpStep hwAddress C (some h) (some h')
  /-- a datagram that is not handled -/
  | fails {h : DhcpHandler} {data : List UInt8} :
      C h data → ¬ h.Handles hwAddress data → DhcpStep hwAddress C (some h) none

/-- The handler was constructed. -/
def DhcpInit (hwAddress : MacAddress) (t : Option DhcpHandler) : Prop :=
  ∃ h out, t = some h ∧ DhcpHandler.construct hwAddress = .done (h, out)

/-- In a run in which only datagrams with `C` come in, every datagram is
handled. -/
def DhcpNeverAborts (hwAddress : MacAddress) (C : DhcpHandler → List UInt8 → Prop) : Prop :=
  ∀ t, Reach (DhcpInit hwAddress) (DhcpStep hwAddress C) t → t ≠ none

/-- **Expected replies never make the handler abort**, in any order with ticks,
and each reply that is not expected is not handled. -/
theorem dhcp_never_aborts (hwAddress : MacAddress) :
    DhcpNeverAborts hwAddress (DhcpHandler.Expects hwAddress) ∧
      ∀ h data, DhcpHandler.Handles hwAddress h data ↔ DhcpHandler.Expects hwAddress h data := by
  refine ⟨fun t ht => ?_, DhcpHandler.handles_iff⟩
  apply Reach.invariant (fun t => t ≠ none) ht
  · rintro t ⟨h, out, rfl, -⟩
    simp
  · rintro t t' - hstep
    cases hstep with
    | tick => simp
    | tickAborts hnot =>
      obtain ⟨h', out, hrun, -⟩ := DhcpHandler.tick_eq hwAddress _
      exact absurd ⟨_, hrun⟩ hnot
    | receive => simp
    | fails hC hnot => exact absurd ((DhcpHandler.handles_iff _ _).mpr hC) hnot

/-- A well-formed reply of a DHCP server: an offer, an acknowledgment or a
refusal, with legal options. -/
structure WellFormedReply (data : List UInt8) : Prop where
  /-- header and end mark -/
  length : sizeofDhcpHeader + 1 ≤ data.length
  /-- a reply -/
  op : (DhcpHeader.read (view data)).op = BootpOperation.reply
  /-- to an Ethernet device -/
  htype : (DhcpHeader.read (view data)).htype.toNat = ArpHtype.ethernet
  /-- with addresses of six bytes -/
  hlen : (DhcpHeader.read (view data)).hlen = 6
  /-- with DHCP options -/
  cookie : (DhcpHeader.read (view data)).cookie = dhcpMagicCookie
  /-- that start with the message type -/
  messageTypeOpt : (DhcpHeader.read (view data)).messageTypeOpt = DhcpOption.messageType
  /-- of one byte -/
  messageTypeLen : (DhcpHeader.read (view data)).messageTypeLen = 1
  /-- which is one of a server -/
  messageType : (DhcpHeader.read (view data)).messageType = DhcpMessageType.offer ∨
    (DhcpHeader.read (view data)).messageType = DhcpMessageType.ack ∨
    (DhcpHeader.read (view data)).messageType = DhcpMessageType.nak
  /-- and the other options are legal -/
  options : DhcpOption.Ended (data.drop sizeofDhcpHeader)

/-- An offer to a client is well formed. -/
theorem wellFormed_offer : WellFormedReply (dhcpReply DhcpMessageType.offer) := by
  have hended : DhcpOption.Ended ((dhcpReply DhcpMessageType.offer).drop sizeofDhcpHeader) :=
    DhcpOption.Ended.here []
  constructor <;> first | exact hended | decide +kernel

/-- **A second offer**, while the handler waits for the acknowledgment of its
request, makes it abort. -/
theorem not_dhcp_never_aborts : ¬ ∀ hwAddress : MacAddress,
    DhcpNeverAborts hwAddress fun _ data => WellFormedReply data := by
  intro hall
  obtain ⟨d, hd⟩ := DhcpHandler.sendDhcpDiscover_eq dhcpClient ⟨ipv4NetConfigNone, .waitForOffer, 0⟩
  have hnot : ¬ DhcpHandler.requesting.Handles dhcpClient (dhcpReply DhcpMessageType.offer) := by
    rw [DhcpHandler.handles_iff]
    intro hexpects
    have htype := hexpects.1.header.messageType
    exact absurd htype (by decide +kernel)
  have h₀ : Reach (DhcpInit dhcpClient) (DhcpStep dhcpClient fun _ data => WellFormedReply data)
      (some DhcpHandler.started) := .start ⟨_, _, rfl, hd⟩
  have h₁ := h₀.step (.receive wellFormed_offer DhcpHandler.started_offer)
  exact hall dhcpClient none (h₁.step (.fails wellFormed_offer hnot)) rfl

end Attos.Net
