import Attos.Lib.Outcome
import Attos.Net.Headers

/-!
# DHCP replies

`dhcp_handler::parse_reply` of `attos/net/tftp.cpp`. The fixed header is
followed by a list of options, each a type, a length and a value; padding and
the end mark are single bytes. The option loop carries a fuel argument, so that
a loop that never ends is one that is `running` with every fuel.
-/

namespace Attos.Net

open Lib

/-! ## The fixed header -/

/-- `bootp_operation::reply` -/
def BootpOperation.reply : UInt8 := 2

/-- `dhcp_magic_cookie` -/
def dhcpMagicCookie : ℕ := 0x63825363

/-- `dhcp_handler::transaction_id_` -/
def transactionId : ℕ := 0x2a2a2a2a

/-- `sizeof(dhcp_header)` -/
def sizeofDhcpHeader : ℕ := 243

/-- `dhcp_header` -/
structure DhcpHeader : Type where
  /-- operation -/
  op : UInt8
  /-- hardware type -/
  htype : UInt8
  /-- hardware address length -/
  hlen : UInt8
  /-- transaction -/
  xid : ℕ
  /-- the address offered to the client -/
  yiaddr : Ipv4Address
  /-- the server -/
  siaddr : Ipv4Address
  /-- the gateway -/
  giaddr : Ipv4Address
  /-- hardware address of the client -/
  chaddr : MacAddress
  /-- marks the packet as DHCP -/
  cookie : ℕ
  /-- type of the first option -/
  messageTypeOpt : UInt8
  /-- length of the first option -/
  messageTypeLen : UInt8
  /-- value of the first option -/
  messageType : UInt8
  deriving DecidableEq

/-- The `dhcp_header` at the start of a packet. -/
def DhcpHeader.read (m : ℕ → UInt8) : DhcpHeader where
  op := m 0
  htype := m 1
  hlen := m 2
  xid := be32 m 4
  yiaddr := ipv4At m 16
  siaddr := ipv4At m 20
  giaddr := ipv4At m 24
  chaddr := macAt m 28
  cookie := be32 m 236
  messageTypeOpt := m 240
  messageTypeLen := m 241
  messageType := m 242

/-! ## The options -/

namespace DhcpOption

/-- `dhcp_option::padding` -/
def padding : UInt8 := 0

/-- `dhcp_option::subnet_mask` -/
def subnetMask : UInt8 := 1

/-- `dhcp_option::router` -/
def router : UInt8 := 3

/-- `dhcp_option::domain_name_server` -/
def domainNameServer : UInt8 := 6

/-- `dhcp_option::domain_name` -/
def domainName : UInt8 := 15

/-- `dhcp_option::broadcast_address` -/
def broadcastAddress : UInt8 := 28

/-- `dhcp_option::netbios_name_server` -/
def netbiosNameServer : UInt8 := 44

/-- `dhcp_option::lease_time` -/
def leaseTime : UInt8 := 51

/-- `dhcp_option::message_type` -/
def messageType : UInt8 := 53

/-- `dhcp_option::server_identifier` -/
def serverIdentifier : UInt8 := 54

/-- `dhcp_option::renewal_time` -/
def renewalTime : UInt8 := 58

/-- `dhcp_option::rebinding_time` -/
def rebindingTime : UInt8 := 59

/-- `dhcp_option::end` -/
def end_ : UInt8 := 255

end DhcpOption

/-- `dhcp_parse_result` -/
structure DhcpParseResult : Type where
  /-- the header of the packet -/
  dh : DhcpHeader
  /-- the server -/
  serverId : Ipv4Address
  /-- the mask of the subnet -/
  netmask : Ipv4Address
  /-- the router of the subnet -/
  router : Ipv4Address
  deriving DecidableEq

namespace DhcpParseResult

/-- A subnet mask of `len` bytes at the start of `data`. -/
def readNetmask (res : DhcpParseResult) (len : ℕ) (data : List UInt8) : Outcome DhcpParseResult := do
  Outcome.require (len = 4)
  pure { res with netmask := ipv4At (view data) 0 }

/-- A list of routers. -/
def readRouter (res : DhcpParseResult) (len : ℕ) (data : List UInt8) : Outcome DhcpParseResult := do
  Outcome.require (len ≥ 4 ∧ len % 4 = 0)
  pure { res with router := ipv4At (view data) 0 }

/-- A server identifier. -/
def readServerId (res : DhcpParseResult) (len : ℕ) (data : List UInt8) :
    Outcome DhcpParseResult := do
  Outcome.require (len = 4)
  let serverId := ipv4At (view data) 0
  Outcome.require (serverId ≠ inaddrAny ∧ serverId ≠ inaddrBroadcast)
  pure { res with serverId := serverId }

/-- An option whose value is not used, of a length that satisfies `ok`. -/
def skip (res : DhcpParseResult) (ok : Prop) [Decidable ok] : Outcome DhcpParseResult := do
  Outcome.require ok
  pure res

/-- The `switch` over the option types. The `default` case has no `break`: a
type it does not know is treated as a subnet mask. -/
def readOption (res : DhcpParseResult) (type : UInt8) (len : ℕ) (data : List UInt8) :
    Outcome DhcpParseResult :=
  if type = DhcpOption.router then res.readRouter len data
  else if type = DhcpOption.domainNameServer then res.skip (len ≥ 4 ∧ len % 4 = 0)
  else if type = DhcpOption.domainName then res.skip (len > 0)
  else if type = DhcpOption.broadcastAddress then res.skip (len = 4)
  else if type = DhcpOption.netbiosNameServer then res.skip (len ≥ 4 ∧ len % 4 = 0)
  else if type = DhcpOption.leaseTime then res.skip (len = 4)
  else if type = DhcpOption.serverIdentifier then res.readServerId len data
  else if type = DhcpOption.renewalTime then res.skip (len = 4)
  else if type = DhcpOption.rebindingTime then res.skip (len = 4)
  else res.readNetmask len data

/-- The option loop: the result and the input that is left. -/
def readOptions : ℕ → DhcpParseResult → List UInt8 → Outcome (DhcpParseResult × List UInt8)
  | 0, _, _ => .running
  | fuel + 1, res, type :: len :: data =>
    if type = DhcpOption.padding then
      -- `continue` without advancing
      readOptions fuel res (type :: len :: data)
    else if type = DhcpOption.end_ then
      .done (res, type :: len :: data)
    else do
      Outcome.require (len.toNat ≤ data.length)
      let res ← res.readOption type len.toNat data
      readOptions fuel res (data.drop len.toNat)
  | _ + 1, res, data => .done (res, data)

end DhcpParseResult

/-- Parse a reply to this device, which has the address `hwAddress`. -/
def parseReply (fuel : ℕ) (hwAddress : MacAddress) (expectedMessage : UInt8) (data : List UInt8) :
    Outcome DhcpParseResult := do
  Outcome.require (data.length ≥ sizeofDhcpHeader + 1)
  let dh := DhcpHeader.read (view data)
  Outcome.require (dh.op = BootpOperation.reply)
  Outcome.require (dh.htype.toNat = ArpHtype.ethernet)
  Outcome.require (dh.hlen = 6)
  Outcome.require (dh.xid = transactionId)
  Outcome.require (dh.chaddr = hwAddress)
  Outcome.require (dh.cookie = dhcpMagicCookie)
  Outcome.require (dh.messageTypeOpt = DhcpOption.messageType)
  Outcome.require (dh.messageTypeLen = 1)
  Outcome.require (dh.messageType = expectedMessage)
  Outcome.require (dh.giaddr = inaddrAny)
  let (res, rest) ← DhcpParseResult.readOptions fuel ⟨dh, inaddrAny, inaddrAny, inaddrAny⟩
    (data.drop sizeofDhcpHeader)
  Outcome.require (rest.head? = some 0xff)
  pure (if res.serverId = inaddrAny then { res with serverId := dh.siaddr } else res)

/-! ## Termination

The option loop advances past every option but padding. It is therefore stuck
exactly at a padding byte that is not the last byte of the packet, once the
options before it have been accepted (`parseReply_ends_iff`).
-/

namespace DhcpOption

/-- The loop accepts this value for an option of the type. -/
def Accepted (type : UInt8) (value : List UInt8) : Prop :=
  if type = router ∨ type = domainNameServer ∨ type = netbiosNameServer then
    4 ≤ value.length ∧ value.length % 4 = 0
  else if type = domainName then 0 < value.length
  else value.length = 4 ∧ (type = serverIdentifier →
    ipv4At (view value) 0 ≠ inaddrAny ∧ ipv4At (view value) 0 ≠ inaddrBroadcast)

/-- An option with a length and a value, which the loop accepts. -/
structure Legal (type : UInt8) (value : List UInt8) : Prop where
  /-- the type is not that of a single byte -/
  long : type ≠ padding ∧ type ≠ end_
  /-- the length of the value fits its byte -/
  byte : value.length < 256
  /-- the value is accepted -/
  accepted : Accepted type value

/-- The bytes of a list of options. -/
def encode : List (UInt8 × List UInt8) → List UInt8
  | [] => []
  | (type, value) :: opts => type :: UInt8.ofNat value.length :: (value ++ encode opts)

/-- Accepted options, then a padding byte, then at least one more byte. -/
def Padded (data : List UInt8) : Prop :=
  ∃ opts b rest, data = encode opts ++ padding :: b :: rest ∧ ∀ o ∈ opts, Legal o.1 o.2

/-- A padding byte at the front is one. -/
theorem Padded.here (b : UInt8) (rest : List UInt8) : Padded (padding :: b :: rest) :=
  ⟨[], b, rest, rfl, by simp⟩

/-- An option in front of it does not change that. -/
theorem Padded.cons {type : UInt8} {value data : List UInt8} (ho : Legal type value)
    (h : Padded data) : Padded (type :: UInt8.ofNat value.length :: (value ++ data)) := by
  obtain ⟨opts, b, rest, rfl, hopts⟩ := h
  refine ⟨(type, value) :: opts, b, rest, by simp [encode], ?_⟩
  exact List.forall_mem_cons.mpr ⟨ho, hopts⟩

end DhcpOption

namespace DhcpParseResult

open DhcpOption

/-- The value of an option lies before the rest of the packet. -/
theorem ipv4At_append {value rest : List UInt8} (h : 4 ≤ value.length) :
    ipv4At (view (value ++ rest)) 0 = ipv4At (view value) 0 := by
  have hget : ∀ i < 4, view (value ++ rest) i = view value i := by
    intro i hi
    have hlt : i < value.length := lt_of_lt_of_le hi h
    simp [view, List.getD_eq_getElem?_getD, List.getElem?_append_left hlt]
  have h₀ := hget 0 (by norm_num)
  have h₁ := hget 1 (by norm_num)
  have h₂ := hget 2 (by norm_num)
  have h₃ := hget 3 (by norm_num)
  simp only [ipv4At, be32, be16, Nat.reduceAdd, h₀, h₁, h₂, h₃]

theorem skip_returns {res : DhcpParseResult} {ok : Prop} [Decidable ok] :
    (res.skip ok).Returns ↔ ok := by
  simp [skip, Outcome.require_bind_returns]

theorem readNetmask_returns {res : DhcpParseResult} {len : ℕ} {data : List UInt8} :
    (res.readNetmask len data).Returns ↔ len = 4 := by
  simp [readNetmask, Outcome.require_bind_returns]

theorem readRouter_returns {res : DhcpParseResult} {len : ℕ} {data : List UInt8} :
    (res.readRouter len data).Returns ↔ 4 ≤ len ∧ len % 4 = 0 := by
  simp [readRouter, Outcome.require_bind_returns]

theorem readServerId_returns {res : DhcpParseResult} {value rest : List UInt8} :
    (res.readServerId value.length (value ++ rest)).Returns ↔ value.length = 4 ∧
      ipv4At (view value) 0 ≠ inaddrAny ∧ ipv4At (view value) 0 ≠ inaddrBroadcast := by
  by_cases h : value.length = 4
  · simp [readServerId, Outcome.require_bind_returns, ipv4At_append h.ge]
  · simp [readServerId, h]

/-- The `switch` skips an option or reads it: a property of both is one of the result. -/
theorem readOption_of {res : DhcpParseResult} {type : UInt8} {len : ℕ} {data : List UInt8}
    {p : Outcome DhcpParseResult → Prop} (hskip : ∀ (ok : Prop) [Decidable ok], p (res.skip ok))
    (hrouter : p (res.readRouter len data)) (hserver : p (res.readServerId len data))
    (hmask : p (res.readNetmask len data)) : p (res.readOption type len data) := by
  have hite : ∀ (c : Prop) [Decidable c] {x y : Outcome DhcpParseResult}, p x → p y → p (if c then x else y) := by
    intro c _ x y hx hy
    split
    · exact hx
    · exact hy
  rw [readOption]
  apply hite _ hrouter
  apply hite _ (hskip _)
  apply hite _ (hskip _)
  apply hite _ (hskip _)
  apply hite _ (hskip _)
  apply hite _ (hskip _)
  apply hite _ hserver
  apply hite _ (hskip _)
  exact hite _ (hskip _) hmask

/-- **The `switch` returns exactly for the accepted options.** -/
theorem readOption_returns {res : DhcpParseResult} {type : UInt8} {value rest : List UInt8} :
    (res.readOption type value.length (value ++ rest)).Returns ↔ Accepted type value := by
  rw [readOption, Accepted]
  rcases eq_or_ne type DhcpOption.router with rfl | h₁
  · rw [if_pos rfl, if_pos (.inl rfl), readRouter_returns]
  rcases eq_or_ne type domainNameServer with rfl | h₂
  · rw [if_neg h₁, if_pos rfl, if_pos (.inr (.inl rfl)), skip_returns]
  rcases eq_or_ne type netbiosNameServer with rfl | h₃
  · have h₄ : netbiosNameServer ≠ domainName := by decide
    have h₅ : netbiosNameServer ≠ broadcastAddress := by decide
    rw [if_neg h₁, if_neg h₂, if_neg h₄, if_neg h₅, if_pos rfl, if_pos (.inr (.inr rfl)), skip_returns]
  rw [if_neg h₁, if_neg h₂, if_neg h₃, if_neg (not_or.mpr ⟨h₁, not_or.mpr ⟨h₂, h₃⟩⟩)]
  rcases eq_or_ne type domainName with rfl | h₄
  · rw [if_pos rfl, if_pos rfl, skip_returns]
  rw [if_neg h₄, if_neg h₄]
  rcases eq_or_ne type serverIdentifier with rfl | h₅
  · have h₆ : serverIdentifier ≠ broadcastAddress := by decide
    have h₇ : serverIdentifier ≠ leaseTime := by decide
    rw [if_neg h₆, if_neg h₇, if_pos rfl, readServerId_returns, forall_prop_of_true rfl]
  -- the remaining types take four bytes
  rw [if_neg h₅, and_iff_left fun h => absurd h h₅]
  split
  · exact skip_returns
  split
  · exact skip_returns
  split
  · exact skip_returns
  split
  · exact skip_returns
  · exact readNetmask_returns

theorem skip_ends {res : DhcpParseResult} {ok : Prop} [Decidable ok] : (res.skip ok).Ends :=
  Outcome.require_ends.bind fun _ _ => Outcome.done_ends _

/-- The `switch` comes to an end. -/
theorem readOption_ends (res : DhcpParseResult) (type : UInt8) (len : ℕ) (data : List UInt8) :
    (res.readOption type len data).Ends := by
  apply readOption_of
  · exact fun ok _ => skip_ends
  · exact Outcome.require_ends.bind fun _ _ => Outcome.done_ends _
  · exact Outcome.require_ends.bind fun _ _ => Outcome.require_ends.bind fun _ _ => Outcome.done_ends _
  · exact Outcome.require_ends.bind fun _ _ => Outcome.done_ends _

/-- **At a padding byte the loop is stuck**, with every fuel. -/
theorem readOptions_padded {data : List UInt8} (h : Padded data) (fuel : ℕ)
    (res : DhcpParseResult) : readOptions fuel res data = .running := by
  obtain ⟨opts, b, rest, rfl, hopts⟩ := h
  induction fuel generalizing opts res with
  | zero => rfl
  | succ fuel ih =>
    cases opts with
    | nil =>
      -- the pass ends where it began
      have hstep := ih res [] (by simp)
      rw [encode, List.nil_append] at hstep ⊢
      rw [readOptions, if_pos rfl, hstep]
    | cons o opts =>
      obtain ⟨type, value⟩ := o
      obtain ⟨⟨⟨hpad, hend⟩, hbyte, hacc⟩, hopts⟩ := List.forall_mem_cons.mp hopts
      have hlen : (UInt8.ofNat value.length).toNat = value.length := by simp; omega
      have hdata : encode ((type, value) :: opts) ++ padding :: b :: rest =
          type :: UInt8.ofNat value.length :: (value ++ (encode opts ++ padding :: b :: rest)) := by
        simp [encode]
      obtain ⟨res', hres⟩ := readOption_returns.mpr hacc
      rw [hdata, readOptions, if_neg hpad, if_neg hend, hlen, hres,
        Outcome.require_pos (by simp), Outcome.done_bind, Outcome.done_bind, List.drop_left]
      exact ih res' opts hopts

/-- **A loop that runs out of fuel has met a padding byte**, if it had fuel for
every byte. -/
theorem padded_of_readOptions {fuel : ℕ} {res : DhcpParseResult} {data : List UInt8}
    (hfuel : data.length < fuel) (h : readOptions fuel res data = .running) : Padded data := by
  induction fuel generalizing res data with
  | zero => omega
  | succ fuel ih =>
    match data, hfuel, h with
    | [], _, h => cases h
    | [_], _, h => cases h
    | type :: len :: data, hfuel, h =>
      rw [readOptions] at h
      split at h
      · rename_i hpad
        exact hpad ▸ .here len data
      split at h
      · cases h
      rename_i hpad hend
      rw [Outcome.require_bind_eq_running] at h
      obtain ⟨hlen, h⟩ := h
      have htake : (data.take len.toNat).length = len.toNat := by simpa using hlen
      have hdata : data = data.take len.toNat ++ data.drop len.toNat := by simp
      rcases Outcome.bind_eq_running.mp h with h | ⟨res', hres, h⟩
      · exact absurd h (readOption_ends _ _ _ _)
      have hacc : Accepted type (data.take len.toNat) := by
        rw [← readOption_returns, htake, ← hdata]
        exact ⟨res', hres⟩
      have hrest : Padded (data.drop len.toNat) := by
        refine ih ?_ h
        simp only [List.length_cons, List.length_drop] at hfuel ⊢
        omega
      have hlegal : Legal type (data.take len.toNat) :=
        ⟨⟨hpad, hend⟩, htake.trans_lt len.toNat_lt, hacc⟩
      have hcons := hrest.cons hlegal
      rwa [htake, ← hdata, UInt8.ofNat_toNat] at hcons

end DhcpParseResult

/-- The fixed header passes the checks of `parse_reply`. -/
structure HeaderOk (hwAddress : MacAddress) (expectedMessage : UInt8) (data : List UInt8) :
    Prop where
  /-- header and one byte of options -/
  length : sizeofDhcpHeader + 1 ≤ data.length
  /-- a reply -/
  op : (DhcpHeader.read (view data)).op = BootpOperation.reply
  /-- to an Ethernet device -/
  htype : (DhcpHeader.read (view data)).htype.toNat = ArpHtype.ethernet
  /-- with addresses of six bytes -/
  hlen : (DhcpHeader.read (view data)).hlen = 6
  /-- in this transaction -/
  xid : (DhcpHeader.read (view data)).xid = transactionId
  /-- to this device -/
  chaddr : (DhcpHeader.read (view data)).chaddr = hwAddress
  /-- with DHCP options -/
  cookie : (DhcpHeader.read (view data)).cookie = dhcpMagicCookie
  /-- that start with the message type -/
  messageTypeOpt : (DhcpHeader.read (view data)).messageTypeOpt = DhcpOption.messageType
  /-- of one byte -/
  messageTypeLen : (DhcpHeader.read (view data)).messageTypeLen = 1
  /-- which is the expected one -/
  messageType : (DhcpHeader.read (view data)).messageType = expectedMessage
  /-- and not relayed -/
  giaddr : (DhcpHeader.read (view data)).giaddr = inaddrAny

/-- `parse_reply` runs out of fuel exactly where its option loop does. -/
theorem parseReply_eq_running {fuel : ℕ} {hwAddress : MacAddress} {expectedMessage : UInt8}
    {data : List UInt8} :
    parseReply fuel hwAddress expectedMessage data = .running ↔
      HeaderOk hwAddress expectedMessage data ∧
        DhcpParseResult.readOptions fuel
          ⟨DhcpHeader.read (view data), inaddrAny, inaddrAny, inaddrAny⟩
          (data.drop sizeofDhcpHeader) = .running := by
  rw [parseReply]
  simp only [Outcome.require_bind_eq_running]
  constructor
  · rintro ⟨h₁, h₂, h₃, h₄, h₅, h₆, h₇, h₈, h₉, h₁₀, h₁₁, hloop⟩
    refine ⟨⟨h₁, h₂, h₃, h₄, h₅, h₆, h₇, h₈, h₉, h₁₀, h₁₁⟩, ?_⟩
    rcases Outcome.bind_eq_running.mp hloop with hloop | ⟨⟨res, rest⟩, -, hlast⟩
    · exact hloop
    · exact absurd hlast (Outcome.require_ends.bind fun _ _ => Outcome.done_ends _)
  · rintro ⟨hok, hloop⟩
    exact ⟨hok.length, hok.op, hok.htype, hok.hlen, hok.xid, hok.chaddr, hok.cookie,
      hok.messageTypeOpt, hok.messageTypeLen, hok.messageType, hok.giaddr,
      Outcome.bind_eq_running.mpr (.inl hloop)⟩

/-- **`parse_reply` comes to an end**, for some fuel, if and only if the header
fails a check or no padding byte other than the last byte of the packet follows
the accepted options. -/
theorem parseReply_ends_iff (hwAddress : MacAddress) (expectedMessage : UInt8)
    (data : List UInt8) :
    (∃ fuel, (parseReply fuel hwAddress expectedMessage data).Ends) ↔
      ¬ (HeaderOk hwAddress expectedMessage data ∧
        DhcpOption.Padded (data.drop sizeofDhcpHeader)) := by
  constructor
  · rintro ⟨fuel, hends⟩ ⟨hok, hpad⟩
    exact hends (parseReply_eq_running.mpr ⟨hok, DhcpParseResult.readOptions_padded hpad _ _⟩)
  · intro hcond
    refine ⟨(data.drop sizeofDhcpHeader).length + 1, fun hrun => hcond ?_⟩
    obtain ⟨hok, hloop⟩ := parseReply_eq_running.mp hrun
    exact ⟨hok, DhcpParseResult.padded_of_readOptions (Nat.lt_succ_self _) hloop⟩

/-- An offer to the device `02:00:00:00:00:01` whose options are padded. -/
def paddedOffer : List UInt8 :=
  [2, 1, 6, 0] ++ put32 transactionId ++ List.replicate 20 0 ++ [2, 0, 0, 0, 0, 1] ++
    List.replicate 202 0 ++ put32 dhcpMagicCookie ++ [53, 1, 2] ++ [0, 255]

/-- **A packet that hangs the parser**: one padding byte before the end mark. -/
theorem not_parseReply_ends :
    ¬ ∀ (hwAddress : MacAddress) (expectedMessage : UInt8) (data : List UInt8),
      ∃ fuel, (parseReply fuel hwAddress expectedMessage data).Ends := by
  intro hall
  obtain ⟨fuel, hends⟩ := hall #v[2, 0, 0, 0, 0, 1] 2 paddedOffer
  have hok : HeaderOk #v[2, 0, 0, 0, 0, 1] 2 paddedOffer := by
    constructor <;> decide +kernel
  have hpad : DhcpOption.Padded (paddedOffer.drop sizeofDhcpHeader) :=
    DhcpOption.Padded.here 255 []
  exact hends (parseReply_eq_running.mpr ⟨hok, DhcpParseResult.readOptions_padded hpad _ _⟩)

end Attos.Net
