import Attos.Lib.Reach
import Attos.Net.Ipv4Device

/-!
# The ARP cache

The ARP cache of a device over its whole life. The packets received since the configuration
determine it: an address is learned from the first packet with this sender that is meant for
the device, and every later packet with this sender, meant for whomever, renews it
(`Learned`). The cache holds exactly what was learned (`arp_cache`).
-/

namespace Attos.Net

open Lib

/-- What the cache takes part in. -/
inductive ArpEvent : Type where
  /-- an ARP packet is received -/
  | received : ArpHeader → ArpEvent
  /-- an IPv4 packet is to be sent -/
  | sent : List UInt8 → ArpEvent
  /-- the device is configured -/
  | configured : Ipv4NetConfig → ArpEvent

/-- The packet of an event. -/
def ArpEvent.packet? : ArpEvent → Option ArpHeader
  | .received ah => some ah
  | .sent _ => none
  | .configured _ => none

/-- The ARP packets received since the configuration. -/
def sinceConfiguration : List ArpEvent → List ArpHeader
  | [] => []
  | .configured _ :: events => events.filterMap ArpEvent.packet?
  | .received _ :: events => sinceConfiguration events
  | .sent _ :: events => sinceConfiguration events

/-- What comes before it does not count. -/
theorem sinceConfiguration_skip {events : List ArpEvent} (h : ∀ c, ArpEvent.configured c ∉ events)
    (rest : List ArpEvent) : sinceConfiguration (events ++ rest) = sinceConfiguration rest := by
  induction events with
  | nil => rfl
  | cons event events ih =>
    have htail := ih fun c hc => h c (List.mem_cons_of_mem _ hc)
    cases event with
    | configured c => exact absurd List.mem_cons_self (h c)
    | received ah => exact htail
    | sent data => exact htail

/-- Without a configuration there are none. -/
theorem sinceConfiguration_of_unconfigured {events : List ArpEvent}
    (h : ∀ c, ArpEvent.configured c ∉ events) : sinceConfiguration events = [] := by
  have hskip := sinceConfiguration_skip h []
  rwa [List.append_nil] at hskip

/-- After it every packet counts. -/
theorem sinceConfiguration_append {events : List ArpEvent} (h : ∃ c, ArpEvent.configured c ∈ events)
    (event : ArpEvent) :
    sinceConfiguration (events ++ [event]) = sinceConfiguration events ++ event.packet?.toList := by
  obtain ⟨c, hc⟩ := h
  induction events with
  | nil => cases hc
  | cons first events ih =>
    cases first with
    | configured c' =>
      change (events ++ [event]).filterMap ArpEvent.packet? = _
      rw [List.filterMap_append, sinceConfiguration]
      cases event <;> rfl
    | received ah =>
      rcases List.mem_cons.mp hc with hc | hc
      · cases hc
      · exact ih hc
    | sent data =>
      rcases List.mem_cons.mp hc with hc | hc
      · cases hc
      · exact ih hc

/-- The configuration itself is no packet. -/
theorem sinceConfiguration_configured {events : List ArpEvent}
    (h : ∀ c, ArpEvent.configured c ∉ events) (c : Ipv4NetConfig) :
    sinceConfiguration (events ++ [.configured c]) = [] := sinceConfiguration_skip h _

/-- The packet passes the checks of `arp_in`. -/
structure ArpHeader.Valid (ah : ArpHeader) : Prop where
  /-- Ethernet -/
  htype : ah.htype = ArpHtype.ethernet
  /-- IPv4 -/
  ptype : ah.ptype = Ethertype.ipv4
  /-- the length of a hardware address -/
  hlen : ah.hlen = 0x06
  /-- the length of a protocol address -/
  plen : ah.plen = 0x04
  /-- a request or a reply -/
  oper : ah.oper = ArpOperation.request ∨ ah.oper = ArpOperation.reply
  /-- from one sender -/
  sha : ah.sha ≠ MacAddress.broadcast

/-! ## What is learned from a history -/

/-- The packet is from `a` and for the device with the address `addr`. -/
def ArpHeader.Creates (addr a : Ipv4Address) (ah : ArpHeader) : Prop := ah.spa = a ∧ ah.tpa = addr

instance (addr a : Ipv4Address) (ah : ArpHeader) : Decidable (ah.Creates addr a) :=
  inferInstanceAs (Decidable (_ ∧ _))

/-- The device with the address `addr` has learned `ha` for `a`: one packet of the history was the
first to create the entry, and of it and the packets after it the latest one from `a` came
from `ha`. -/
def Learned (addr : Ipv4Address) (history : List ArpHeader) (a : Ipv4Address) (ha : MacAddress) : Prop :=
  ∃ before created after, history = before ++ created :: after ∧
    (∀ ah ∈ before, ¬ ah.Creates addr a) ∧ created.Creates addr a ∧
    ((created :: after).filter (·.spa = a)).getLast?.map (·.sha) = some ha

section Learned

variable {addr a : Ipv4Address} {history : List ArpHeader} {ha : MacAddress} {p : ArpHeader}

/-- Nothing is learned from nothing. -/
theorem not_learned_nil : ¬ Learned addr [] a ha := by
  rintro ⟨before, created, after, hsplit, -⟩
  exact List.append_ne_nil_of_right_ne_nil before (List.cons_ne_nil _ _) hsplit.symm

/-- **An address is learned** if a packet created its entry. -/
theorem exists_learned_iff : (∃ ha, Learned addr history a ha) ↔ ∃ ah ∈ history, ah.Creates addr a := by
  constructor
  · rintro ⟨ha, before, created, after, rfl, -, hcreates, -⟩
    exact ⟨created, List.mem_append_right _ List.mem_cons_self, hcreates⟩
  · intro h
    obtain ⟨created, hfind⟩ := Option.isSome_iff_exists.mp
      (List.find?_isSome (p := fun ah => decide (ArpHeader.Creates addr a ah)).mpr (by simpa using h))
    obtain ⟨hcreates, before, after, hsplit, hbefore⟩ := List.find?_eq_some_iff_append.mp hfind
    have hcreates' : created.Creates addr a := by simpa using hcreates
    have hfilter : (created :: after).filter (·.spa = a) ≠ [] :=
      List.ne_nil_of_mem (List.mem_filter.mpr ⟨List.mem_cons_self, decide_eq_true hcreates'.1⟩)
    refine ⟨(List.getLast _ hfilter).sha, before, created, after, hsplit, by simpa using hbefore,
      hcreates', ?_⟩
    rw [List.getLast?_eq_some_getLast hfilter]
    rfl

/-- A packet from somebody else changes nothing. -/
theorem learned_append_other (hp : p.spa ≠ a) : Learned addr (history ++ [p]) a ha ↔ Learned addr history a ha := by
  constructor
  · rintro ⟨before, created, after, hsplit, hbefore, hcreates, hlatest⟩
    rcases List.eq_nil_or_concat' after with rfl | ⟨after, last, rfl⟩
    · obtain ⟨-, hlast⟩ := List.append_inj' hsplit rfl
      obtain rfl : p = created := by simpa using hlast
      exact absurd hcreates.1 hp
    · rw [← List.cons_append, ← List.append_assoc] at hsplit
      obtain ⟨hhistory, hlast⟩ := List.append_inj' hsplit rfl
      obtain rfl : p = last := by simpa using hlast
      rw [← List.cons_append, List.filter_append, List.filter_singleton, decide_eq_false hp] at hlatest
      exact ⟨before, created, after, hhistory, hbefore, hcreates, by simpa using hlatest⟩
  · rintro ⟨before, created, after, rfl, hbefore, hcreates, hlatest⟩
    refine ⟨before, created, after ++ [p], by simp, hbefore, hcreates, ?_⟩
    rw [← List.cons_append, List.filter_append, List.filter_singleton, decide_eq_false hp]
    simpa using hlatest

/-- **A packet from `a`** renews what is known of `a`, or creates the entry. -/
theorem learned_append_same (hp : p.spa = a) : Learned addr (history ++ [p]) a ha ↔
    ha = p.sha ∧ (p.tpa = addr ∨ ∃ ha', Learned addr history a ha') := by
  have hlast : ∀ l : List ArpHeader, ((l ++ [p]).filter (·.spa = a)).getLast?.map (·.sha) = some p.sha := by
    intro l
    rw [List.filter_append, List.filter_singleton, decide_eq_true hp]
    simp
  constructor
  · intro h
    have hcreated := exists_learned_iff.mp ⟨ha, h⟩
    obtain ⟨before, created, after, hsplit, hbefore, hcreates, hlatest⟩ := h
    constructor
    · rcases List.eq_nil_or_concat' after with rfl | ⟨after, last, rfl⟩
      · obtain ⟨-, hp'⟩ := List.append_inj' hsplit rfl
        obtain rfl : p = created := by simpa using hp'
        exact Option.some.inj (hlatest.symm.trans (hlast []))
      · rw [← List.cons_append, ← List.append_assoc] at hsplit
        obtain ⟨-, hp'⟩ := List.append_inj' hsplit rfl
        obtain rfl : p = last := by simpa using hp'
        exact Option.some.inj (hlatest.symm.trans (hlast (created :: after)))
    · obtain ⟨ah, hmem, hah⟩ := hcreated
      rcases List.mem_append.mp hmem with hmem | hmem
      · exact .inr (exists_learned_iff.mpr ⟨ah, hmem, hah⟩)
      · obtain rfl := List.mem_singleton.mp hmem
        exact .inl hah.2
  · rintro ⟨rfl, h⟩
    by_cases hknown : ∃ ha', Learned addr history a ha'
    · obtain ⟨ha', before, created, after, rfl, hbefore, hcreates, -⟩ := hknown
      exact ⟨before, created, after ++ [p], by simp, hbefore, hcreates, hlast (created :: after)⟩
    · have hnone : ∀ ah ∈ history, ¬ ah.Creates addr a := fun ah hmem hah =>
        hknown (exists_learned_iff.mpr ⟨ah, hmem, hah⟩)
      exact ⟨history, p, [], rfl, hnone, ⟨hp, h.resolve_right hknown⟩, hlast []⟩

end Learned

/-! ## What the cache holds -/

namespace Ipv4EthernetDevice

open Proc

variable {dev : Ipv4EthernetDevice} {ah : ArpHeader} {es : List ArpEntry} {pa : Ipv4Address} {ha : MacAddress}

/-- An entry is found if there is one. -/
theorem findArpEntry_isSome : (dev.findArpEntry pa).isSome ↔ ∃ e ∈ dev.arpEntries_, e.pa = pa := by
  rw [findArpEntry, List.find?_isSome]
  simp only [decide_eq_true_eq]

/-- The addresses stay. -/
theorem map_setHa : (setHa pa ha es).map (·.pa) = es.map (·.pa) := by
  induction es with
  | nil => rfl
  | cons e es ih =>
    rw [setHa]
    split
    · rfl
    · rw [List.map_cons, List.map_cons, ih]

/-- The entry of the address is changed, the others stay. -/
theorem mem_setHa (hnodup : (es.map (·.pa)).Nodup) {e : ArpEntry} : e ∈ setHa pa ha es ↔
    if e.pa = pa then e.ha = ha ∧ ∃ e' ∈ es, e'.pa = pa else e ∈ es := by
  induction es with
  | nil => simp [setHa]
  | cons first es ih =>
    obtain ⟨hfirst, hnodup⟩ := List.nodup_cons.mp hnodup
    have hothers : ∀ e' ∈ es, e'.pa ≠ first.pa := fun e' he' heq =>
      hfirst (List.mem_map.mpr ⟨e', he', heq⟩)
    rw [setHa]
    by_cases hpa : first.pa = pa
    · rw [if_pos hpa, List.mem_cons]
      split_ifs with he
      · constructor
        · rintro (rfl | hmem)
          · exact ⟨rfl, first, List.mem_cons_self, hpa⟩
          · exact absurd (he.trans hpa.symm) (hothers e hmem)
        · rintro ⟨hha, -⟩
          left
          cases e
          simp_all
      · rw [List.mem_cons]
        constructor
        · rintro (rfl | hmem)
          · exact absurd hpa he
          · exact .inr hmem
        · rintro (rfl | hmem)
          · exact absurd hpa he
          · exact .inr hmem
    · rw [if_neg hpa, List.mem_cons, ih hnodup]
      split_ifs with he
      · constructor
        · rintro (rfl | ⟨hha, e', he', hpa'⟩)
          · exact absurd he hpa
          · exact ⟨hha, e', List.mem_cons_of_mem _ he', hpa'⟩
        · rintro ⟨hha, e', he', hpa'⟩
          rcases List.mem_cons.mp he' with rfl | he'
          · exact absurd hpa' hpa
          · exact .inr ⟨hha, e', he', hpa'⟩
      · rw [List.mem_cons]

/-- The cache after a packet for the device with the address `addr`. -/
def learn (addr : Ipv4Address) (ah : ArpHeader) (es : List ArpEntry) : List ArpEntry :=
  setHa ah.spa ah.sha es ++
    if addr = ah.tpa ∧ ¬ ∃ e ∈ es, e.pa = ah.spa then [⟨ah.spa, ah.sha⟩] else []

/-- Two entries never have one address. -/
theorem nodup_learn {addr : Ipv4Address} (hnodup : (es.map (·.pa)).Nodup) :
    ((learn addr ah es).map (·.pa)).Nodup := by
  rw [learn, List.map_append, map_setHa]
  split_ifs with hnew
  · refine List.nodup_append.mpr ⟨hnodup, List.nodup_singleton _, ?_⟩
    rintro pa hpa _ hnew' rfl
    obtain rfl := List.mem_singleton.mp hnew'
    obtain ⟨e, he, hpa⟩ := List.mem_map.mp hpa
    exact hnew.2 ⟨e, he, hpa⟩
  · rwa [List.map_nil, List.append_nil]

/-- **The merge.** The sender's entry is renewed, or created by a packet for the device; every other
entry stays. -/
theorem mem_learn {addr : Ipv4Address} (hnodup : (es.map (·.pa)).Nodup) {e : ArpEntry} :
    e ∈ learn addr ah es ↔
      if e.pa = ah.spa then e.ha = ah.sha ∧ (addr = ah.tpa ∨ ∃ e' ∈ es, e'.pa = ah.spa) else e ∈ es := by
  have hmem := @mem_setHa es ah.spa ah.sha hnodup e
  have hself : e = ⟨ah.spa, ah.sha⟩ ↔ e.pa = ah.spa ∧ e.ha = ah.sha := by
    cases e
    simp
  rw [learn, List.mem_append, hmem]
  split_ifs with hpa hnew hnew
  · rw [List.mem_singleton, hself]
    simp only [hpa, hnew.1, hnew.2, and_false, true_and, false_or, true_or, and_true]
  · -- the sender is known if the packet is for the device
    rw [not_and_not_right] at hnew
    simp only [List.not_mem_nil, or_false, or_iff_right_of_imp hnew]
  · rw [List.mem_singleton, hself]
    exact or_iff_left fun h => hpa h.1
  · simp

/-- A new entry is appended. -/
theorem addArpEntry_run (hnew : ¬ ∃ e ∈ dev.arpEntries_, e.pa = pa) : addArpEntry pa ha dev =
    ⟨.done ⟨⟩, { dev with arpEntries_ := dev.arpEntries_ ++ [⟨pa, ha⟩] }, []⟩ := by
  have hnone : dev.findArpEntry pa = none := by
    rw [← Option.not_isSome_iff_eq_none, findArpEntry_isSome]
    exact hnew
  rw [addArpEntry, get_bind_run, require_pos hnone, pure_bind, modify_run]

/-- The packet is in the cache before it is answered. -/
theorem addUnless_run {addr : Ipv4Address} (haddr : addr = ah.tpa) :
    addUnless (dev.findArpEntry ah.spa).isSome ah.spa ah.sha
        { dev with arpEntries_ := setHa ah.spa ah.sha dev.arpEntries_ } =
      ⟨.done ⟨⟩, { dev with arpEntries_ := learn addr ah dev.arpEntries_ }, []⟩ := by
  by_cases hknown : ∃ e ∈ dev.arpEntries_, e.pa = ah.spa
  · have hmerge : (dev.findArpEntry ah.spa).isSome = true := findArpEntry_isSome.mpr hknown
    rw [addUnless, if_pos hmerge, pure_run, learn, if_neg fun h => h.2 hknown, List.append_nil]
  · have hmerge : ¬ (dev.findArpEntry ah.spa).isSome = true := fun h => hknown (findArpEntry_isSome.mp h)
    have hnew : ¬ ∃ e ∈ setHa ah.spa ah.sha dev.arpEntries_, e.pa = ah.spa := by
      rintro ⟨e, he, hpa⟩
      have hmem : e.pa ∈ (setHa ah.spa ah.sha dev.arpEntries_).map (·.pa) := List.mem_map_of_mem he
      rw [map_setHa] at hmem
      obtain ⟨e', he', hpa'⟩ := List.mem_map.mp hmem
      exact hknown ⟨e', he', hpa'.trans hpa⟩
    rw [addUnless, if_neg hmerge, addArpEntry_run hnew, learn, if_pos ⟨haddr, hknown⟩]

/-- **`arp_in`** of a valid packet returns, and merges it into the cache. -/
theorem arpIn_valid (hvalid : ah.Valid) (haddr : dev.ipv4Config_.addr ≠ inaddrAny) :
    (arpIn ah dev).outcome = .done ⟨⟩ ∧
      (arpIn ah dev).state = { dev with arpEntries_ := learn dev.ipv4Config_.addr ah dev.arpEntries_ } := by
  rw [arpIn, require_pos hvalid.htype, pure_bind, require_pos hvalid.ptype, pure_bind,
    require_pos hvalid.hlen, pure_bind, require_pos hvalid.plen, pure_bind, require_pos hvalid.oper,
    pure_bind, require_pos hvalid.sha, pure_bind, get_bind_run, if_neg haddr, modify_bind_run]
  by_cases htpa : dev.ipv4Config_.addr = ah.tpa
  · rw [if_pos htpa, bind_run (addUnless_run htpa)]
    split_ifs
    · exact ⟨rfl, rfl⟩
    · exact ⟨rfl, rfl⟩
  · rw [if_neg htpa, pure_run, learn, if_neg fun h => htpa h.1, List.append_nil]
    exact ⟨rfl, rfl⟩

/-- A device without an address ignores it. -/
theorem arpIn_unconfigured (hvalid : ah.Valid) (haddr : dev.ipv4Config_.addr = inaddrAny) :
    arpIn ah dev = ⟨.done ⟨⟩, dev, []⟩ := by
  rw [arpIn, require_pos hvalid.htype, pure_bind, require_pos hvalid.ptype, pure_bind,
    require_pos hvalid.hlen, pure_bind, require_pos hvalid.plen, pure_bind, require_pos hvalid.oper,
    pure_bind, require_pos hvalid.sha, pure_bind, get_bind_run, if_pos haddr, pure_run]

/-- **`ipv4_out`** only looks at the cache. -/
theorem keeps_ipv4Out (data : List UInt8) : Keeps (ipv4Out data) := by
  have harp : ∀ oper spa tha tpa, Keeps (sendArp oper spa tha tpa) := fun _ _ _ _ =>
    keeps_bind keeps_get fun _ => keeps_emit _
  have hsend : ∀ dst, Keeps (sendIpv4 data dst) := fun _ => keeps_bind keeps_get fun _ => keeps_emit _
  have hhop : ∀ dst, Keeps (nextHop dst) := fun dst => keeps_bind keeps_get fun dev =>
    keeps_ite (keeps_bind keeps_require fun _ => keeps_pure _) (keeps_pure _)
  refine keeps_bind keeps_require fun _ => keeps_bind keeps_require fun _ => keeps_ite (hsend _)
    (keeps_ite keeps_abort (keeps_bind (hhop _) fun tpa => keeps_bind keeps_get fun dev => ?_))
  cases dev.findArpEntry tpa with
  | some ae => exact hsend ae.ha
  | none => exact harp _ _ _ _

end Ipv4EthernetDevice

/-! ## Runs -/

/-- A device and what has happened to it. -/
structure ArpRun : Type where
  /-- the device -/
  dev : Ipv4EthernetDevice
  /-- what has happened, the earliest first -/
  events : List ArpEvent

namespace ArpRun

open Ipv4EthernetDevice

/-- A new device. -/
def Init (s : ArpRun) : Prop := ∃ hwAddress, s = ⟨ofHwAddress hwAddress, []⟩

/-- A valid ARP packet is received, an IPv4 packet is sent, or the device is configured. -/
inductive Step : ArpRun → ArpRun → Prop where
  /-- `arp_in` -/
  | received {dev : Ipv4EthernetDevice} {events : List ArpEvent} {ah : ArpHeader} : ah.Valid →
      Step ⟨dev, events⟩ ⟨(arpIn ah dev).state, events ++ [.received ah]⟩
  /-- `ipv4_out` -/
  | sent {dev : Ipv4EthernetDevice} {events : List ArpEvent} {data : List UInt8} :
      Step ⟨dev, events⟩ ⟨(ipv4Out data dev).state, events ++ [.sent data]⟩
  /-- `ipv4_config` -/
  | configured {dev : Ipv4EthernetDevice} {events : List ArpEvent} {config : Ipv4NetConfig} :
      (ipv4Config config dev).outcome = .done ⟨⟩ →
      Step ⟨dev, events⟩ ⟨(ipv4Config config dev).state, events ++ [.configured config]⟩

/-- The states of all runs. -/
abbrev Reachable : ArpRun → Prop := Reach Init Step

/-- The cache holds what was learned. -/
structure Inv (s : ArpRun) : Prop where
  /-- a device has an address if it was configured -/
  configured : s.dev.ipv4Config_.addr ≠ inaddrAny ↔ ∃ c, ArpEvent.configured c ∈ s.events
  /-- one entry for an address -/
  nodup : (s.dev.arpEntries_.map (·.pa)).Nodup
  /-- the entries -/
  learned : ∀ e, e ∈ s.dev.arpEntries_ ↔
    Learned s.dev.ipv4Config_.addr (sinceConfiguration s.events) e.pa e.ha

namespace Inv

variable {dev : Ipv4EthernetDevice} {events : List ArpEvent}

theorem start {s : ArpRun} (h : s.Init) : s.Inv := by
  obtain ⟨hwAddress, rfl⟩ := h
  constructor
  · simp [ofHwAddress, ipv4NetConfigNone]
  · exact List.nodup_nil
  · intro e
    simp only [ofHwAddress, List.not_mem_nil, sinceConfiguration, false_iff]
    exact not_learned_nil

/-- Before the configuration nothing counts. -/
theorem unconfigured (h : Inv ⟨dev, events⟩) (haddr : dev.ipv4Config_.addr = inaddrAny) :
    ∀ c, ArpEvent.configured c ∉ events := fun c hc => h.configured.mpr ⟨c, hc⟩ haddr

/-- An event that is no packet and no configuration, and changes nothing -/
theorem skip (h : Inv ⟨dev, events⟩) {event : ArpEvent} (hevent : ∀ c, event ≠ .configured c)
    (hpacket : dev.ipv4Config_.addr = inaddrAny ∨ event.packet? = none) : Inv ⟨dev, events ++ [event]⟩ := by
  have hconfigured : (∃ c, ArpEvent.configured c ∈ events ++ [event]) ↔ ∃ c, ArpEvent.configured c ∈ events := by
    constructor
    · rintro ⟨c, hc⟩
      rcases List.mem_append.mp hc with hc | hc
      · exact ⟨c, hc⟩
      · exact absurd (List.mem_singleton.mp hc).symm (hevent c)
    · rintro ⟨c, hc⟩
      exact ⟨c, List.mem_append_left _ hc⟩
  have hsame : sinceConfiguration (events ++ [event]) = sinceConfiguration events := by
    by_cases haddr : dev.ipv4Config_.addr = inaddrAny
    · have hnone := h.unconfigured haddr
      have hnone' : ∀ c, ArpEvent.configured c ∉ events ++ [event] := fun c hc => by
        obtain ⟨c', hc'⟩ := hconfigured.mp ⟨c, hc⟩
        exact hnone c' hc'
      rw [sinceConfiguration_of_unconfigured hnone, sinceConfiguration_of_unconfigured hnone']
    · rw [sinceConfiguration_append (h.configured.mp haddr), hpacket.resolve_left haddr, Option.toList_none,
        List.append_nil]
  exact ⟨h.configured.trans hconfigured.symm, h.nodup, fun e => by rw [hsame]; exact h.learned e⟩

/-- **A packet is merged**, as it is learned. -/
theorem received (h : Inv ⟨dev, events⟩) {ah : ArpHeader} (hvalid : ah.Valid) :
    Inv ⟨(arpIn ah dev).state, events ++ [.received ah]⟩ := by
  by_cases haddr : dev.ipv4Config_.addr = inaddrAny
  · rw [arpIn_unconfigured hvalid haddr]
    exact h.skip (by simp) (.inl haddr)
  · have hconfigured := h.configured.mp haddr
    rw [(arpIn_valid hvalid haddr).2]
    refine ⟨⟨fun _ => ?_, fun _ => haddr⟩, nodup_learn h.nodup, fun e => ?_⟩
    · obtain ⟨c, hc⟩ := hconfigured
      exact ⟨c, List.mem_append_left _ hc⟩
    · have hsplit : (∃ e' ∈ dev.arpEntries_, e'.pa = ah.spa) ↔
          ∃ ha, Learned dev.ipv4Config_.addr (sinceConfiguration events) ah.spa ha := by
        constructor
        · rintro ⟨e', he', hpa⟩
          exact ⟨e'.ha, hpa ▸ (h.learned e').mp he'⟩
        · rintro ⟨ha, hlearned⟩
          exact ⟨⟨ah.spa, ha⟩, (h.learned _).mpr hlearned, rfl⟩
      rw [sinceConfiguration_append hconfigured]
      change e ∈ learn _ ah _ ↔ Learned _ (_ ++ [ah]) e.pa e.ha
      rw [mem_learn h.nodup]
      split_ifs with hpa
      · rw [hpa, learned_append_same rfl, hsplit, eq_comm (a := dev.ipv4Config_.addr)]
      · rw [learned_append_other fun h => hpa h.symm]
        exact h.learned e

/-- The configuration of a device with an empty cache -/
theorem configure (h : Inv ⟨dev, events⟩) {config : Ipv4NetConfig}
    (hdone : (ipv4Config config dev).outcome = .done ⟨⟩) :
    Inv ⟨(ipv4Config config dev).state, events ++ [.configured config]⟩ := by
  obtain ⟨hany, haddr, hstate⟩ := ipv4Config_done hdone
  have hnone := h.unconfigured hany
  rw [hstate]
  refine ⟨⟨fun _ => ⟨config, List.mem_append_right _ List.mem_cons_self⟩, fun _ => haddr⟩, h.nodup, fun e => ?_⟩
  have hlearned := h.learned e
  rw [sinceConfiguration_of_unconfigured hnone] at hlearned
  rw [sinceConfiguration_configured hnone]
  exact hlearned.trans (iff_of_false not_learned_nil not_learned_nil)

theorem step {s t : ArpRun} (h : s.Inv) (hstep : Step s t) : t.Inv := by
  cases hstep with
  | received hvalid => exact h.received hvalid
  | @sent dev events data =>
    rw [keeps_ipv4Out data dev]
    exact h.skip (by simp) (.inr rfl)
  | configured hdone => exact h.configure hdone

theorem reachable {s : ArpRun} (hs : Reachable s) : s.Inv :=
  hs.invariant Inv (fun _ => start) fun _ _ => step

end Inv

end ArpRun

open Ipv4EthernetDevice in
/-- **The cache is determined by the packets.** In every state that is reached by receiving valid
ARP packets, sending IPv4 packets and configuring the device, in any order: no two entries have
one protocol address; there is an entry for `a` if and only if a packet from `a` for the address of
the device was received since the configuration; its hardware address is that of the latest
packet from `a` since the entry was created; and `arp_in` returns for every valid packet. -/
theorem arp_cache {s : ArpRun} (hs : ArpRun.Reachable s) :
    (s.dev.arpEntries_.map (·.pa)).Nodup ∧
      (∀ a, (∃ e ∈ s.dev.arpEntries_, e.pa = a) ↔
        ∃ ah ∈ sinceConfiguration s.events, ah.spa = a ∧ ah.tpa = s.dev.ipv4Config_.addr) ∧
      (∀ e ∈ s.dev.arpEntries_,
        Learned s.dev.ipv4Config_.addr (sinceConfiguration s.events) e.pa e.ha) ∧
      ∀ ah : ArpHeader, ah.Valid → (arpIn ah s.dev).outcome = .done ⟨⟩ := by
  have hinv := ArpRun.Inv.reachable hs
  refine ⟨hinv.nodup, fun a => ?_, fun e => (hinv.learned e).mp, fun ah hvalid => ?_⟩
  · refine Iff.trans ⟨?_, ?_⟩ exists_learned_iff
    · rintro ⟨e, he, rfl⟩
      exact ⟨e.ha, (hinv.learned e).mp he⟩
    · rintro ⟨ha, hlearned⟩
      exact ⟨⟨a, ha⟩, (hinv.learned _).mpr hlearned, rfl⟩
  · by_cases haddr : s.dev.ipv4Config_.addr = inaddrAny
    · rw [arpIn_unconfigured hvalid haddr]
    · exact (arpIn_valid hvalid haddr).1

/-- An ARP request from 192.168.10.1 -/
def arpRequest (tpa : Ipv4Address) (sha : MacAddress) : ArpHeader where
  htype := ArpHtype.ethernet
  ptype := Ethertype.ipv4
  hlen := 0x06
  plen := 0x04
  oper := ArpOperation.request
  sha := sha
  spa := 0xc0a80a01
  tha := Vector.replicate 6 0
  tpa := tpa

open Ipv4EthernetDevice in
/-- 192.168.10.2 is asked for its address by 192.168.10.1, which then asks another machine from
another hardware address. -/
def renewed : ArpRun where
  dev := (arpIn (arpRequest 0xc0a80a03 (Vector.replicate 6 3)) (arpIn
    (arpRequest 0xc0a80a02 (Vector.replicate 6 1)) (ipv4Config ⟨0xc0a80a02, 0xffffff00, inaddrAny⟩
      (ofHwAddress (Vector.replicate 6 2))).state).state).state
  events := [] ++ [.configured ⟨0xc0a80a02, 0xffffff00, inaddrAny⟩] ++
    [.received (arpRequest 0xc0a80a02 (Vector.replicate 6 1))] ++
    [.received (arpRequest 0xc0a80a03 (Vector.replicate 6 3))]

theorem arpRequest_valid {tpa : Ipv4Address} {sha : MacAddress} (h : sha ≠ MacAddress.broadcast) :
    (arpRequest tpa sha).Valid := ⟨rfl, rfl, rfl, rfl, .inl rfl, h⟩

theorem renewed_reachable : ArpRun.Reachable renewed :=
  .step (.step (.step (.start ⟨Vector.replicate 6 2, rfl⟩) (.configured (by decide)))
    (.received (arpRequest_valid (by decide)))) (.received (arpRequest_valid (by decide)))

example : renewed.dev.arpEntries_ = [⟨0xc0a80a01, Vector.replicate 6 3⟩] := by decide

open Ipv4EthernetDevice in
/-- Its cache -/
theorem arp_cache_renewed : (renewed.dev.arpEntries_.map (·.pa)).Nodup ∧
    (∀ a, (∃ e ∈ renewed.dev.arpEntries_, e.pa = a) ↔
      ∃ ah ∈ sinceConfiguration renewed.events, ah.spa = a ∧ ah.tpa = renewed.dev.ipv4Config_.addr) ∧
    (∀ e ∈ renewed.dev.arpEntries_,
      Learned renewed.dev.ipv4Config_.addr (sinceConfiguration renewed.events) e.pa e.ha) ∧
    ∀ ah : ArpHeader, ah.Valid → (arpIn ah renewed.dev).outcome = .done ⟨⟩ :=
  arp_cache renewed_reachable

end Attos.Net
