import Attos.Net.DhcpAborts

/-!
# The meaning of DHCP options

The options of a reply are a list of types and values. What `parse_reply` is to
take from it are the addresses of the last subnet mask, router and server
identifier (`meaning`); all other options do not matter.

The `default` case of its `switch` has no `break` and goes on with the case of a
subnet mask. An option of a type without a case of its own therefore makes the
parser abort if its length is not four, and is taken for a subnet mask if it is
(`parseReply_meaning_iff`).
-/

namespace Attos.Net

open Lib

namespace DhcpOption

/-- The types that the `switch` has a case for. -/
def handled : List UInt8 :=
  [subnetMask, router, domainNameServer, domainName, broadcastAddress, netbiosNameServer, leaseTime,
   serverIdentifier, renewalTime, rebindingTime]

/-- The lengths that an option of a type can have, for the types of
`dhcp_option`. Any other type can have any length. -/
def LengthOk (type : UInt8) (len : ℕ) : Prop :=
  if type ∈ [router, domainNameServer, netbiosNameServer] then 4 ≤ len ∧ len % 4 = 0
  else if type = domainName then 0 < len
  else if type ∈ [subnetMask, broadcastAddress, requestedIp, leaseTime, serverIdentifier, renewalTime,
    rebindingTime] then len = 4
  else if type = messageType then len = 1
  else True

/-- A well-formed option that is neither padding nor the end mark. A server
identifier is the address of a host. -/
structure WellFormed (o : UInt8 × List UInt8) : Prop where
  /-- the type is not that of a single byte -/
  long : o.1 ≠ padding ∧ o.1 ≠ end_
  /-- the length of the value fits its byte -/
  byte : o.2.length < 256
  /-- the length is one of the type -/
  length : LengthOk o.1 o.2.length
  /-- a server identifier is neither unspecified nor the broadcast address -/
  server : o.1 = serverIdentifier →
    ipv4At (view o.2) 0 ≠ inaddrAny ∧ ipv4At (view o.2) 0 ≠ inaddrBroadcast

/-- The first four bytes of the last option whose type is selected. -/
def lastAddress (sel : UInt8 → Bool) (opts : List (UInt8 × List UInt8)) : Option Ipv4Address :=
  (opts.filter fun o => sel o.1).getLast?.map fun o => ipv4At (view o.2) 0

/-- What a list of options says, in a packet with the header `dh`. -/
def meaning (dh : DhcpHeader) (opts : List (UInt8 × List UInt8)) : DhcpParseResult where
  dh := dh
  serverId := (lastAddress (· = serverIdentifier) opts).getD dh.siaddr
  netmask := (lastAddress (· = subnetMask) opts).getD inaddrAny
  router := (lastAddress (· = router) opts).getD inaddrAny

/-- The type of a subnet mask, or one that the `default` case takes for it. -/
def maskLike (type : UInt8) : Bool := type = subnetMask ∨ type ∉ handled

/-- Options that go through the `default` case do no harm: they have four bytes,
and what the last of them says, if no subnet mask comes behind it, is what the
subnet mask would be anyway. -/
structure DefaultHarmless (opts : List (UInt8 × List UInt8)) : Prop where
  /-- they are as long as a subnet mask -/
  length : ∀ o ∈ opts, o.1 ∉ handled → o.2.length = 4
  /-- they do not change the subnet mask -/
  netmask : (lastAddress maskLike opts).getD inaddrAny =
    (lastAddress (· = subnetMask) opts).getD inaddrAny

theorem lastAddress_append (sel : UInt8 → Bool) (opts : List (UInt8 × List UInt8))
    (o : UInt8 × List UInt8) : lastAddress sel (opts ++ [o]) =
      if sel o.1 then some (ipv4At (view o.2) 0) else lastAddress sel opts := by
  rw [lastAddress, lastAddress, List.filter_append]
  cases hsel : sel o.1 with
  | true => simp [hsel]
  | false => simp [hsel]

/-- The last address is that of an option of the list. -/
theorem mem_of_lastAddress {sel : UInt8 → Bool} {opts : List (UInt8 × List UInt8)} {a : Ipv4Address}
    (h : lastAddress sel opts = some a) : ∃ o ∈ opts, sel o.1 ∧ ipv4At (view o.2) 0 = a := by
  obtain ⟨o, ho, ha⟩ := Option.map_eq_some_iff.mp h
  obtain ⟨hmem, hsel⟩ := List.mem_filter.mp (List.mem_of_getLast? ho)
  exact ⟨o, hmem, hsel, ha⟩

/-- An option with a case of its own is accepted. -/
theorem WellFormed.accepted_of_handled {o : UInt8 × List UInt8} (ho : WellFormed o)
    (h : o.1 ∈ handled) : Accepted o.1 o.2 := by
  obtain ⟨type, value⟩ := o
  have hlen := ho.length
  have hserver := ho.server
  simp only [handled, List.mem_cons, List.not_mem_nil, or_false] at h
  -- lists of addresses and the domain name have their own lengths, the others four bytes
  rcases h with rfl | rfl | rfl | rfl | rfl | rfl | rfl | rfl | rfl | rfl
  · exact ⟨hlen, hserver⟩
  · exact hlen
  · exact hlen
  · exact hlen
  · exact ⟨hlen, hserver⟩
  · exact hlen
  · exact ⟨hlen, hserver⟩
  · exact ⟨hlen, hserver⟩
  · exact ⟨hlen, hserver⟩
  · exact ⟨hlen, hserver⟩

/-- An option without one is accepted if it has four bytes. -/
theorem accepted_of_not_handled {type : UInt8} {value : List UInt8} (h : type ∉ handled) :
    Accepted type value ↔ value.length = 4 := by
  simp only [handled, List.mem_cons, List.not_mem_nil, or_false, not_or] at h
  obtain ⟨-, hrouter, hdns, hname, -, hnetbios, -, hserver, -, -⟩ := h
  rw [Accepted, if_neg (by simp [hrouter, hdns, hnetbios]), if_neg hname]
  exact and_iff_left fun heq => absurd heq hserver

/-- Well-formed options are accepted, unless the `default` case has to do with
one that does not have four bytes. -/
theorem accepted_iff {opts : List (UInt8 × List UInt8)} (hopts : ∀ o ∈ opts, WellFormed o) :
    (∀ o ∈ opts, Accepted o.1 o.2) ↔ ∀ o ∈ opts, o.1 ∉ handled → o.2.length = 4 := by
  constructor
  · exact fun h o ho hcase => (accepted_of_not_handled hcase).mp (h o ho)
  · intro h o ho
    by_cases hcase : o.1 ∈ handled
    · exact (hopts o ho).accepted_of_handled hcase
    · exact (accepted_of_not_handled hcase).mpr (h o ho hcase)

end DhcpOption

namespace DhcpParseResult

open DhcpOption

/-- What an accepted option does to the result. -/
def applyOption (res : DhcpParseResult) (o : UInt8 × List UInt8) : DhcpParseResult :=
  if o.1 = DhcpOption.router then { res with router := ipv4At (view o.2) 0 }
  else if o.1 = serverIdentifier then { res with serverId := ipv4At (view o.2) 0 }
  else if maskLike o.1 then { res with netmask := ipv4At (view o.2) 0 }
  else res

theorem skip_eq {res : DhcpParseResult} {ok : Prop} [Decidable ok] (h : ok) :
    res.skip ok = .done res := by
  rw [skip, Outcome.require_pos h]
  rfl

theorem readNetmask_eq {res : DhcpParseResult} {value rest : List UInt8} (h : value.length = 4) :
    res.readNetmask value.length (value ++ rest) =
      .done { res with netmask := ipv4At (view value) 0 } := by
  rw [readNetmask, Outcome.require_pos h, ipv4At_append h.ge]
  rfl

theorem readRouter_eq {res : DhcpParseResult} {value rest : List UInt8}
    (h : 4 ≤ value.length ∧ value.length % 4 = 0) :
    res.readRouter value.length (value ++ rest) =
      .done { res with router := ipv4At (view value) 0 } := by
  rw [readRouter, Outcome.require_pos h, ipv4At_append h.1]
  rfl

theorem readServerId_eq {res : DhcpParseResult} {value rest : List UInt8} (h : value.length = 4)
    (hid : ipv4At (view value) 0 ≠ inaddrAny ∧ ipv4At (view value) 0 ≠ inaddrBroadcast) :
    res.readServerId value.length (value ++ rest) =
      .done { res with serverId := ipv4At (view value) 0 } := by
  rw [readServerId, Outcome.require_pos h, ipv4At_append h.ge, Outcome.done_bind]
  dsimp only
  rw [Outcome.require_pos hid]
  rfl

/-- The `switch` on an accepted option is `applyOption`. -/
theorem readOption_eq {res : DhcpParseResult} {type : UInt8} {value rest : List UInt8}
    (h : Accepted type value) :
    res.readOption type value.length (value ++ rest) = .done (res.applyOption (type, value)) := by
  by_cases hcase : type ∈ handled
  · simp only [handled, List.mem_cons, List.not_mem_nil, or_false] at hcase
    rcases hcase with rfl | rfl | rfl | rfl | rfl | rfl | rfl | rfl | rfl | rfl
    · exact readNetmask_eq h.1
    · exact readRouter_eq h
    · exact skip_eq h
    · exact skip_eq h
    · exact skip_eq h.1
    · exact skip_eq h
    · exact skip_eq h.1
    · exact readServerId_eq h.1 (h.2 rfl)
    · exact skip_eq h.1
    · exact skip_eq h.1
  · have hmask : maskLike type = true := by simp [maskLike, hcase]
    have hlen := (accepted_of_not_handled hcase).mp h
    simp only [handled, List.mem_cons, List.not_mem_nil, or_false, not_or] at hcase
    obtain ⟨-, h₁, h₂, h₃, h₄, h₅, h₆, h₇, h₈, h₉⟩ := hcase
    rw [readOption, if_neg h₁, if_neg h₂, if_neg h₃, if_neg h₄, if_neg h₅, if_neg h₆, if_neg h₇,
      if_neg h₈, if_neg h₉, readNetmask_eq hlen, applyOption, if_neg h₁, if_neg h₇, if_pos hmask]

/-- **The option loop over a list of options** stops at the end mark, exactly if
all of them are accepted, and has applied them in order. -/
theorem readOptions_encode {opts : List (UInt8 × List UInt8)} {tail : List UInt8}
    (hlong : ∀ o ∈ opts, (o.1 ≠ padding ∧ o.1 ≠ end_) ∧ o.2.length < 256) (res : DhcpParseResult)
    (x : DhcpParseResult × List UInt8) :
    (∃ fuel, readOptions fuel res (encode opts ++ end_ :: tail) = .done x) ↔
      (∀ o ∈ opts, Accepted o.1 o.2) ∧ x = (opts.foldl applyOption res, end_ :: tail) := by
  induction opts generalizing res with
  | nil =>
    have hstop : ∀ fuel, readOptions (fuel + 1) res (end_ :: tail) = .done (res, end_ :: tail) := by
      intro fuel
      cases tail with
      | nil => rfl
      | cons b tail => rw [readOptions, if_neg (by decide), if_pos rfl]
    simp only [encode, List.nil_append, List.not_mem_nil, false_imp_iff, implies_true, true_and,
      List.foldl_nil]
    constructor
    · rintro ⟨fuel, h⟩
      cases fuel with
      | zero => cases h
      | succ fuel => exact (Outcome.done.inj (h.symm.trans (hstop fuel)))
    · rintro rfl
      exact ⟨1, hstop 0⟩
  | cons o opts ih =>
    obtain ⟨type, value⟩ := o
    obtain ⟨⟨⟨hpad, hend⟩, hbyte⟩, hlong⟩ := List.forall_mem_cons.mp hlong
    have hlen : (UInt8.ofNat value.length).toNat = value.length := by simp; omega
    have hstep : ∀ fuel, readOptions (fuel + 1) res (encode ((type, value) :: opts) ++ end_ :: tail) =
        (res.readOption type value.length (value ++ (encode opts ++ end_ :: tail)) >>= fun res =>
          readOptions fuel res (encode opts ++ end_ :: tail)) := by
      intro fuel
      have hdata : encode ((type, value) :: opts) ++ end_ :: tail =
          type :: UInt8.ofNat value.length :: (value ++ (encode opts ++ end_ :: tail)) := by
        simp [encode]
      rw [hdata, readOptions, if_neg hpad, if_neg hend, hlen, Outcome.require_pos (by simp),
        Outcome.done_bind, List.drop_left]
    rw [List.forall_mem_cons, List.foldl_cons, and_assoc, ← ih hlong]
    constructor
    · rintro ⟨fuel, h⟩
      cases fuel with
      | zero => cases h
      | succ fuel =>
        rw [hstep] at h
        obtain ⟨res', hres, hrest⟩ := Outcome.bind_eq_done.mp h
        have hacc : Accepted type value := readOption_returns.mp ⟨res', hres⟩
        rw [readOption_eq hacc] at hres
        cases hres
        exact ⟨hacc, fuel, hrest⟩
    · rintro ⟨hacc, fuel, h⟩
      refine ⟨fuel + 1, ?_⟩
      rw [hstep, readOption_eq hacc, Outcome.done_bind]
      exact h

section Fold

variable (res : DhcpParseResult) (opts : List (UInt8 × List UInt8)) (o : UInt8 × List UInt8)

theorem applyOption_dh : (res.applyOption o).dh = res.dh := by
  rw [applyOption]
  split_ifs <;> rfl

theorem applyOption_router : (res.applyOption o).router =
    if decide (o.1 = DhcpOption.router) then ipv4At (view o.2) 0 else res.router := by
  rw [applyOption]
  by_cases h : o.1 = DhcpOption.router
  · rw [if_pos h, if_pos (decide_eq_true h)]
  · rw [if_neg h, if_neg (mt of_decide_eq_true h)]
    split_ifs <;> rfl

theorem applyOption_serverId : (res.applyOption o).serverId =
    if decide (o.1 = serverIdentifier) then ipv4At (view o.2) 0 else res.serverId := by
  rw [applyOption]
  by_cases h : o.1 = serverIdentifier
  · have hrouter : o.1 ≠ DhcpOption.router := by
      rw [h]
      decide
    rw [if_neg hrouter, if_pos h, if_pos (decide_eq_true h)]
  · rw [if_neg h, if_neg (mt of_decide_eq_true h)]
    split_ifs <;> rfl

theorem applyOption_netmask : (res.applyOption o).netmask =
    if maskLike o.1 then ipv4At (view o.2) 0 else res.netmask := by
  rw [applyOption]
  by_cases h : maskLike o.1
  · -- neither a router nor a server identifier goes through this case
    have hne : ∀ type, maskLike type = false → o.1 ≠ type := by
      rintro _ hfalse rfl
      rw [h] at hfalse
      cases hfalse
    rw [if_neg (hne DhcpOption.router (by decide)), if_neg (hne serverIdentifier (by decide)),
      if_pos h, if_pos h]
  · rw [if_neg h, if_neg h]
    split_ifs <;> rfl

/-- A component that selected options set has the value of the last of them. -/
theorem foldl_last {get : DhcpParseResult → Ipv4Address} {sel : UInt8 → Bool}
    (hstep : ∀ res o, get (applyOption res o) = if sel o.1 then ipv4At (view o.2) 0 else get res) :
    get (opts.foldl applyOption res) = (lastAddress sel opts).getD (get res) := by
  induction opts using List.reverseRecOn with
  | nil => rfl
  | append_singleton opts o ih =>
    rw [List.foldl_append, List.foldl_cons, List.foldl_nil, lastAddress_append, hstep, ih]
    split <;> rfl

theorem foldl_dh : (opts.foldl applyOption res).dh = res.dh := by
  induction opts generalizing res with
  | nil => rfl
  | cons o opts ih => rw [List.foldl_cons, ih, applyOption_dh]

/-- What the loop makes of a list of options. -/
theorem foldl_applyOption : opts.foldl applyOption res =
    ⟨res.dh, (lastAddress (· = serverIdentifier) opts).getD res.serverId,
      (lastAddress maskLike opts).getD res.netmask,
      (lastAddress (· = DhcpOption.router) opts).getD res.router⟩ := by
  rw [← foldl_last res opts applyOption_serverId, ← foldl_last res opts applyOption_netmask,
    ← foldl_last res opts applyOption_router, ← foldl_dh res opts]

end Fold

end DhcpParseResult

/-- Behind a header that passes its checks `parse_reply` is the option loop and
what follows it. -/
theorem parseReply_of_headerOk {hwAddress : MacAddress} {expectedMessage : UInt8}
    {data : List UInt8} (h : HeaderOk hwAddress expectedMessage data) (fuel : ℕ)
    (x : DhcpParseResult) :
    parseReply fuel hwAddress expectedMessage data = .done x ↔
      ∃ res rest, DhcpParseResult.readOptions fuel
          ⟨DhcpHeader.read (view data), inaddrAny, inaddrAny, inaddrAny⟩
          (data.drop sizeofDhcpHeader) = .done (res, rest) ∧ rest.head? = some 0xff ∧
        x = if res.serverId = inaddrAny then
            { res with serverId := (DhcpHeader.read (view data)).siaddr } else res := by
  rw [parseReply]
  simp only [Outcome.require_pos h.length, Outcome.done_bind, Outcome.require_pos h.op,
    Outcome.require_pos h.htype, Outcome.require_pos h.hlen, Outcome.require_pos h.xid,
    Outcome.require_pos h.chaddr, Outcome.require_pos h.cookie,
    Outcome.require_pos h.messageTypeOpt, Outcome.require_pos h.messageTypeLen,
    Outcome.require_pos h.messageType, Outcome.require_pos h.giaddr]
  rw [Outcome.bind_eq_done]
  constructor
  · rintro ⟨⟨res, rest⟩, hloop, hlast⟩
    obtain ⟨hend, hx⟩ := Outcome.require_bind_eq_done.mp hlast
    exact ⟨res, rest, hloop, hend, (Outcome.done.inj hx).symm⟩
  · rintro ⟨res, rest, hloop, hend, hx⟩
    exact ⟨(res, rest), hloop, Outcome.require_bind_eq_done.mpr ⟨hend, by rw [hx]; rfl⟩⟩

/-- **The meaning of a reply.** For a reply whose header passes the checks and
whose options are well formed, `parse_reply` returns what the options mean if
and only if those that go through the `default` case do no harm. -/
theorem parseReply_meaning_iff {hwAddress : MacAddress} {expectedMessage : UInt8}
    {data tail : List UInt8} {opts : List (UInt8 × List UInt8)}
    (h : HeaderOk hwAddress expectedMessage data)
    (hdata : data.drop sizeofDhcpHeader = DhcpOption.encode opts ++ DhcpOption.end_ :: tail)
    (hopts : ∀ o ∈ opts, DhcpOption.WellFormed o) :
    (∃ fuel, parseReply fuel hwAddress expectedMessage data =
        .done (DhcpOption.meaning (DhcpHeader.read (view data)) opts)) ↔
      DhcpOption.DefaultHarmless opts := by
  set dh := DhcpHeader.read (view data)
  set start : DhcpParseResult := ⟨dh, inaddrAny, inaddrAny, inaddrAny⟩
  have hlong : ∀ o ∈ opts, (o.1 ≠ DhcpOption.padding ∧ o.1 ≠ DhcpOption.end_) ∧ o.2.length < 256 :=
    fun o ho => ⟨(hopts o ho).long, (hopts o ho).byte⟩
  have hloop := @DhcpParseResult.readOptions_encode opts tail hlong start
  have hfold := DhcpParseResult.foldl_applyOption start opts
  -- what is returned once the loop has gone through the options
  have hfinish : (if (opts.foldl DhcpParseResult.applyOption start).serverId = inaddrAny then
        { opts.foldl DhcpParseResult.applyOption start with serverId := dh.siaddr }
      else opts.foldl DhcpParseResult.applyOption start) =
      { DhcpOption.meaning dh opts with
        netmask := (DhcpOption.lastAddress DhcpOption.maskLike opts).getD inaddrAny } := by
    rw [hfold]
    cases hlast : DhcpOption.lastAddress (· = DhcpOption.serverIdentifier) opts with
    | none => simp [start, DhcpOption.meaning, hlast]
    | some a =>
      obtain ⟨o, ho, hsel, ha⟩ := DhcpOption.mem_of_lastAddress hlast
      have hne : a ≠ inaddrAny := ha ▸ ((hopts o ho).server (of_decide_eq_true hsel)).1
      simp [start, DhcpOption.meaning, hlast, hne]
  have hreturn : (∃ fuel, parseReply fuel hwAddress expectedMessage data =
      .done (DhcpOption.meaning dh opts)) ↔ (∀ o ∈ opts, DhcpOption.Accepted o.1 o.2) ∧
        DhcpOption.meaning dh opts = { DhcpOption.meaning dh opts with
          netmask := (DhcpOption.lastAddress DhcpOption.maskLike opts).getD inaddrAny } := by
    constructor
    · rintro ⟨fuel, hrun⟩
      obtain ⟨res, rest, hres, -, hx⟩ := (parseReply_of_headerOk h fuel _).mp hrun
      rw [hdata] at hres
      obtain ⟨hacc, heq⟩ := (hloop _).mp ⟨fuel, hres⟩
      obtain ⟨rfl, rfl⟩ := Prod.mk.inj heq
      exact ⟨hacc, hx.trans hfinish⟩
    · rintro ⟨hacc, heq⟩
      obtain ⟨fuel, hres⟩ := (hloop _).mpr ⟨hacc, rfl⟩
      refine ⟨fuel, (parseReply_of_headerOk h fuel _).mpr ⟨_, _, hdata ▸ hres, rfl, ?_⟩⟩
      exact heq.trans hfinish.symm
  rw [hreturn, DhcpOption.accepted_iff hopts]
  constructor
  · rintro ⟨hlen, heq⟩
    exact ⟨hlen, (congrArg DhcpParseResult.netmask heq).symm⟩
  · rintro ⟨hlen, hmask⟩
    exact ⟨hlen, by rw [hmask]; rfl⟩

/-- An offer with some options. -/
def offerWith (opts : List (UInt8 × List UInt8)) : List UInt8 :=
  (dhcpReply DhcpMessageType.offer).take sizeofDhcpHeader ++ (DhcpOption.encode opts ++ [DhcpOption.end_])

/-- A subnet mask, a router, a server identifier and a name server. -/
def commonOptions : List (UInt8 × List UInt8) :=
  [(DhcpOption.subnetMask, [255, 255, 255, 0]), (DhcpOption.router, [192, 168, 10, 1]),
   (DhcpOption.serverIdentifier, [192, 168, 10, 1]), (DhcpOption.domainNameServer, [192, 168, 10, 1])]

/-- The common options are understood. -/
theorem parseReply_meaning_common : ∃ fuel,
    parseReply fuel dhcpClient DhcpMessageType.offer (offerWith commonOptions) =
      .done (DhcpOption.meaning (DhcpHeader.read (view (offerWith commonOptions))) commonOptions) := by
  have hok : HeaderOk dhcpClient DhcpMessageType.offer (offerWith commonOptions) := by
    constructor <;> decide +kernel
  have hopts : ∀ o ∈ commonOptions, DhcpOption.WellFormed o := by
    intro o ho
    simp only [commonOptions, List.mem_cons, List.not_mem_nil, or_false] at ho
    rcases ho with rfl | rfl | rfl | rfl
    all_goals exact ⟨by decide, by decide, by simp [DhcpOption.LengthOk], by decide +kernel⟩
  refine (@parseReply_meaning_iff _ _ _ [] _ hok rfl hopts).mpr ⟨?_, ?_⟩
  · decide
  · decide +kernel

/-- **An option that aborts the parser**: a host name of three bytes. -/
theorem not_parseReply_meaning : ¬ ∀ (hwAddress : MacAddress) (expectedMessage : UInt8)
    (data tail : List UInt8) (opts : List (UInt8 × List UInt8)),
    HeaderOk hwAddress expectedMessage data →
    data.drop sizeofDhcpHeader = DhcpOption.encode opts ++ DhcpOption.end_ :: tail →
    (∀ o ∈ opts, DhcpOption.WellFormed o) →
    ∃ fuel, parseReply fuel hwAddress expectedMessage data =
      .done (DhcpOption.meaning (DhcpHeader.read (view data)) opts) := by
  intro hall
  have hok : HeaderOk dhcpClient DhcpMessageType.offer (offerWith [(12, [97, 98, 99])]) := by
    constructor <;> decide +kernel
  have hopts : ∀ o ∈ [((12 : UInt8), ([97, 98, 99] : List UInt8))], DhcpOption.WellFormed o := by
    intro o ho
    obtain rfl := List.mem_singleton.mp ho
    exact ⟨by decide, by decide, trivial, by decide⟩
  obtain ⟨fuel, hrun⟩ := hall _ _ _ [] _ hok rfl hopts
  obtain ⟨res, rest, hres, -, -⟩ := (parseReply_of_headerOk hok fuel _).mp hrun
  have hlong : ∀ o ∈ [((12 : UInt8), ([97, 98, 99] : List UInt8))],
      (o.1 ≠ DhcpOption.padding ∧ o.1 ≠ DhcpOption.end_) ∧ o.2.length < 256 :=
    fun o ho => ⟨(hopts o ho).long, (hopts o ho).byte⟩
  have hacc := ((@DhcpParseResult.readOptions_encode _ [] hlong _ _).mp ⟨fuel, hres⟩).1
  have hlen := (DhcpOption.accepted_of_not_handled (by decide)).mp (hacc _ (List.mem_singleton_self _))
  cases hlen

end Attos.Net
