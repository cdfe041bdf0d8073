import Attos.Lib.Reach
import Attos.Net.UdpSocket

/-!
# Open sockets

A device finds a socket by its address and port, and a socket without an address is one for
every address. The same search is used to deliver a datagram, to open a socket and to close it.
It looks at the sockets in the order they were opened, so a socket that is opened must not be
found by an earlier one; from this alone it follows that a socket is closed and no other one in
its place (`udpClose_own`).

The converse is not checked: a socket for every address can be opened while another one has its
port, and then both are for the same datagrams. Where this does not happen, at most one socket
is for a datagram (`udp_at_most_one`).
-/

namespace Attos.Net

open Lib

/-! ## Erasing from a vector -/

namespace Kvector

variable {α : Type}

/-- The loop of `erase`: the element at `i` and each one behind it is overwritten by the next. -/
def eraseLoop : ℕ → List α → ℕ → List α
  | 0, elems, _ => elems
  | fuel + 1, elems, i =>
    match elems[i + 1]? with
    | some e => eraseLoop fuel (elems.set i e) (i + 1)
    | none => elems

/-- `erase` -/
def erase (elems : List α) (i : ℕ) : List α := (eraseLoop elems.length elems i).dropLast

/-- The loop moves the rest up by one. -/
theorem dropLast_eraseLoop {fuel : ℕ} {before after : List α} {elem : α} (hfuel : after.length ≤ fuel) :
    (eraseLoop fuel (before ++ elem :: after) before.length).dropLast = before ++ after := by
  induction after generalizing fuel before elem with
  | nil =>
    cases fuel with
    | zero => simp [eraseLoop]
    | succ fuel => simp [eraseLoop]
  | cons next after ih =>
    cases fuel with
    | zero => simp at hfuel
    | succ fuel =>
      have hnext : (before ++ elem :: next :: after)[before.length + 1]? = some next := by
        simp
      have hset : (before ++ elem :: next :: after).set before.length next =
          (before ++ [next]) ++ next :: after := by
        simp
      have hlength : before.length + 1 = (before ++ [next]).length := by simp
      rw [eraseLoop, hnext]
      dsimp only
      rw [hset, hlength, ih (Nat.le_of_succ_le_succ hfuel), List.append_assoc]
      rfl

/-- **`erase`** takes out one element and leaves the others in their order. -/
theorem erase_eq {elems : List α} {i : ℕ} (hi : i < elems.length) : erase elems i = elems.eraseIdx i := by
  have hsplit : elems = elems.take i ++ elems[i] :: elems.drop (i + 1) := by
    rw [List.cons_getElem_drop_succ, List.take_append_drop]
  have htake : (elems.take i).length = i := List.length_take_of_le hi.le
  have hloop := @dropLast_eraseLoop α elems.length (elems.take i) (elems.drop (i + 1)) elems[i]
    (by rw [List.length_drop]; exact Nat.sub_le _ _)
  rw [← hsplit, htake] at hloop
  rw [erase, hloop, List.eraseIdx_eq_take_drop_succ]

end Kvector

namespace Ipv4EthernetDevice

open Proc

/-- The first port that no socket for the address has, from 49152 on. -/
def unusedPort (dev : Ipv4EthernetDevice) (localAddr : Ipv4Address) : ℕ :=
  ((List.range' 49152 (65535 - 49152)).find? fun localPort =>
    (dev.findOpenUdpSocket localAddr localPort).isNone).getD 65535

/-- The port that `udp_open` takes when it is given this one. -/
def chosenPort (dev : Ipv4EthernetDevice) (localAddr : Ipv4Address) (localPort : ℕ) : ℕ :=
  if localPort = 0 then dev.unusedPort localAddr else localPort

/-- `udp_open` -/
def udpOpen (localAddr : Ipv4Address) (localPort recvFunc : ℕ) : NetProc UdpSocket := do
  let dev ← get
  let localPort := dev.chosenPort localAddr localPort
  require (localAddr = dev.ipv4Config_.addr ∨ localAddr = inaddrAny)
  require (dev.findOpenUdpSocket localAddr localPort = none)
  -- the constructor of `udp_socket`
  require (localPort ≠ 0)
  modify fun dev => { dev with udpSockets_ := dev.udpSockets_ ++ [⟨localAddr, localPort, recvFunc⟩] }
  pure ⟨localAddr, localPort⟩

/-- `udp_close` -/
def udpClose (localAddr : Ipv4Address) (port : ℕ) : NetProc Unit := do
  let dev ← get
  -- where the socket is that `find_open_udp_socket` finds
  match dev.udpSockets_.findIdx? fun s => s.IsFor localAddr port with
  | none => abort
  | some s => modify fun dev => { dev with udpSockets_ := Kvector.erase dev.udpSockets_ s }

variable {dev : Ipv4EthernetDevice} {localAddr : Ipv4Address} {localPort recvFunc : ℕ}

/-- No socket is found if none is for the address and the port. -/
theorem findOpenUdpSocket_eq_none : dev.findOpenUdpSocket localAddr localPort = none ↔
    ∀ s ∈ dev.udpSockets_, ¬ s.IsFor localAddr localPort := by
  rw [findOpenUdpSocket, List.find?_eq_none]
  simp only [decide_eq_true_eq, OpenUdpSocket.IsFor]

/-- **Opening a socket** appends it, if no socket is found that is for its address and port. -/
theorem udpOpen_done {s : UdpSocket} (h : (udpOpen localAddr localPort recvFunc dev).outcome = .done s) :
    s = ⟨localAddr, dev.chosenPort localAddr localPort⟩ ∧
      (∀ t ∈ dev.udpSockets_, ¬ t.IsFor localAddr (dev.chosenPort localAddr localPort)) ∧
      (udpOpen localAddr localPort recvFunc dev).state = { dev with udpSockets_ :=
        dev.udpSockets_ ++ [⟨localAddr, dev.chosenPort localAddr localPort, recvFunc⟩] } := by
  rw [udpOpen, get_bind_run] at h ⊢
  by_cases haddr : localAddr = dev.ipv4Config_.addr ∨ localAddr = inaddrAny
  · rw [require_pos haddr, pure_bind] at h ⊢
    by_cases hfind : dev.findOpenUdpSocket localAddr (dev.chosenPort localAddr localPort) = none
    · rw [require_pos hfind, pure_bind] at h ⊢
      by_cases hport : dev.chosenPort localAddr localPort ≠ 0
      · rw [require_pos hport, pure_bind, modify_bind_run, pure_run] at h ⊢
        exact ⟨(Outcome.done.inj h).symm, findOpenUdpSocket_eq_none.mp hfind, rfl⟩
      · rw [require_neg hport, abort_bind, abort_run] at h
        cases h
    · rw [require_neg hfind, abort_bind, abort_run] at h
      cases h
  · rw [require_neg haddr, abort_bind, abort_run] at h
    cases h

/-- The first port from 49152 on for which no socket is found, or the last port. -/
structure FirstFree (dev : Ipv4EthernetDevice) (localAddr : Ipv4Address) (port : ℕ) : Prop where
  /-- a port that is searched -/
  range : 49152 ≤ port ∧ port ≤ 65535
  /-- the ports before it have sockets -/
  earlier : ∀ earlier, 49152 ≤ earlier → earlier < port → dev.findOpenUdpSocket localAddr earlier ≠ none
  /-- it has none -/
  free : port < 65535 → dev.findOpenUdpSocket localAddr port = none

/-- **The search** stops at the first free port. -/
theorem firstFree_unusedPort : dev.FirstFree localAddr (dev.unusedPort localAddr) := by
  rw [unusedPort]
  cases hfind : (List.range' 49152 (65535 - 49152)).find? fun localPort =>
      (dev.findOpenUdpSocket localAddr localPort).isNone with
  | some port =>
    obtain ⟨hnone, hrange, hearlier⟩ := List.find?_range'_eq_some.mp hfind
    obtain ⟨hlo, hhi⟩ := List.mem_range'_1.mp hrange
    have hle : port ≤ 65535 := by omega
    refine ⟨⟨hlo, hle⟩, fun earlier hle hlt => ?_, fun _ => Option.isNone_iff_eq_none.mp hnone⟩
    exact Option.ne_none_iff_isSome.mpr (by simpa using hearlier earlier hle hlt)
  | none =>
    refine ⟨⟨by simp, le_rfl⟩, fun earlier hle hlt => ?_, fun hlt => absurd hlt (lt_irrefl _)⟩
    simpa using List.find?_eq_none.mp hfind earlier (List.mem_range'_1.mpr ⟨hle, hlt⟩)

/-- No socket is for the address and the port of a later one. -/
def Ordered (sockets : List OpenUdpSocket) : Prop :=
  sockets.Pairwise fun s t => ¬ s.IsFor t.localAddr t.localPort

/-- **Closing a socket** takes out its own entry. -/
theorem udpClose_own {sockets : List OpenUdpSocket} (hdev : dev.udpSockets_ = sockets)
    (hordered : Ordered sockets) {i : ℕ} (hi : i < sockets.length) :
    udpClose sockets[i].localAddr sockets[i].localPort dev =
      ⟨.done ⟨⟩, { dev with udpSockets_ := sockets.eraseIdx i }, []⟩ := by
  subst hdev
  have hself : dev.udpSockets_[i].IsFor dev.udpSockets_[i].localAddr dev.udpSockets_[i].localPort :=
    ⟨.inr rfl, rfl⟩
  have hfind : dev.udpSockets_.findIdx? (fun s =>
      decide (s.IsFor dev.udpSockets_[i].localAddr dev.udpSockets_[i].localPort)) = some i := by
    refine List.findIdx?_eq_some_iff_getElem.mpr ⟨hi, decide_eq_true hself, fun j hj => ?_⟩
    have hearlier := List.pairwise_iff_getElem.mp hordered j i (hj.trans hi) hi hj
    simpa using hearlier
  rw [udpClose, get_bind_run, hfind]
  dsimp only
  rw [modify_run, Kvector.erase_eq hi]

end Ipv4EthernetDevice

/-! ## Runs -/

/-- A device and the sockets that were opened and not destroyed, each with the receive function it
was opened with. -/
structure SocketRun : Type where
  /-- the device -/
  dev : Ipv4EthernetDevice
  /-- the sockets, in the order they were opened -/
  live : List OpenUdpSocket

namespace SocketRun

open Ipv4EthernetDevice

/-- A new device. -/
def Init (s : SocketRun) : Prop := ∃ hwAddress, s = ⟨ofHwAddress hwAddress, []⟩

/-- A socket is opened where `C` holds, a socket is destroyed, or the device is configured. -/
inductive Step (C : Ipv4EthernetDevice → Ipv4Address → ℕ → Prop) : SocketRun → SocketRun → Prop where
  /-- `udp_open` -/
  | opened {dev : Ipv4EthernetDevice} {live : List OpenUdpSocket} {localAddr : Ipv4Address}
      {localPort recvFunc : ℕ} {s : UdpSocket} : C dev localAddr localPort →
      (udpOpen localAddr localPort recvFunc dev).outcome = .done s →
      Step C ⟨dev, live⟩ ⟨(udpOpen localAddr localPort recvFunc dev).state,
        live ++ [⟨s.localAddr_, s.localPort_, recvFunc⟩]⟩
  /-- `~udp_socket` -/
  | destroyed {dev : Ipv4EthernetDevice} {live : List OpenUdpSocket} {i : ℕ} (hi : i < live.length) :
      Step C ⟨dev, live⟩ ⟨(udpClose live[i].localAddr live[i].localPort dev).state, live.eraseIdx i⟩
  /-- `ipv4_config` -/
  | configured {dev : Ipv4EthernetDevice} {live : List OpenUdpSocket} {config : Ipv4NetConfig} :
      (ipv4Config config dev).outcome = .done ⟨⟩ →
      Step C ⟨dev, live⟩ ⟨(ipv4Config config dev).state, live⟩

/-- The states of all runs. -/
abbrev Reachable : SocketRun → Prop := Reach Init (Step fun _ _ _ => True)

/-- The device has the entries of the sockets, and they are ordered. -/
structure Inv (s : SocketRun) : Prop where
  /-- the entries -/
  entries : s.dev.udpSockets_ = s.live
  /-- an earlier one is not for the address and port of a later one -/
  ordered : Ordered s.live

namespace Inv

theorem start {s : SocketRun} (h : s.Init) : s.Inv := by
  obtain ⟨hwAddress, rfl⟩ := h
  exact ⟨rfl, List.Pairwise.nil⟩

theorem step {C : Ipv4EthernetDevice → Ipv4Address → ℕ → Prop} {s t : SocketRun} (h : s.Inv)
    (hstep : Step C s t) : t.Inv := by
  cases hstep with
  | @opened dev live localAddr localPort recvFunc s _ hdone =>
    obtain ⟨rfl, hnew, hstate⟩ := udpOpen_done hdone
    obtain rfl : dev.udpSockets_ = live := h.entries
    rw [hstate]
    refine ⟨rfl, List.pairwise_append.mpr ⟨h.ordered, List.pairwise_singleton _ _, ?_⟩⟩
    intro s hs t ht
    obtain rfl := List.mem_singleton.mp ht
    exact hnew s hs
  | destroyed hi =>
    rw [udpClose_own h.entries h.ordered hi]
    exact ⟨rfl, h.ordered.sublist (List.eraseIdx_sublist _ _)⟩
  | configured hdone =>
    rw [(ipv4Config_done hdone).2.2]
    exact ⟨h.entries, h.ordered⟩

theorem reachable {C : Ipv4EthernetDevice → Ipv4Address → ℕ → Prop} {s : SocketRun}
    (hs : Reach Init (Step C) s) : s.Inv :=
  hs.invariant Inv (fun _ => start) fun _ _ => step

end Inv

end SocketRun

open Ipv4EthernetDevice

/-- **A socket is closed and no other one.** After any sequence of opening sockets, destroying them
and configuring the device, the device has the entries of the sockets that were not destroyed, in
the order they were opened and with their receive functions; destroying any of them returns and
takes out its own entry. -/
theorem udp_close_own {s : SocketRun} (hs : SocketRun.Reachable s) :
    s.dev.udpSockets_ = s.live ∧ ∀ (i : ℕ) (hi : i < s.live.length),
      udpClose s.live[i].localAddr s.live[i].localPort s.dev =
        ⟨.done ⟨⟩, { s.dev with udpSockets_ := s.live.eraseIdx i }, []⟩ := by
  have hinv := SocketRun.Inv.reachable hs
  exact ⟨hinv.entries, fun i hi => udpClose_own hinv.entries hinv.ordered hi⟩

/-- 192.168.10.2 with a socket for its port 69. -/
def specificSocket : Ipv4EthernetDevice :=
  (udpOpen 0xc0a80a02 69 0 (ipv4Config ⟨0xc0a80a02, 0xffffff00, inaddrAny⟩
    (ofHwAddress (Vector.replicate 6 2))).state).state

/-- With a socket for the port 69 of every address -/
def twoSockets : SocketRun where
  dev := (udpOpen inaddrAny 69 1 specificSocket).state
  live := [] ++ [⟨0xc0a80a02, 69, 0⟩] ++ [⟨inaddrAny, 69, 1⟩]

theorem twoSockets_reachable : SocketRun.Reachable twoSockets :=
  .step (.step (.step (.start ⟨Vector.replicate 6 2, rfl⟩) (.configured (by decide)))
    (.opened (s := ⟨0xc0a80a02, 69⟩) trivial (by decide)))
    (.opened (s := ⟨inaddrAny, 69⟩) trivial (by decide))

/-- One of the two is destroyed. -/
theorem udp_close_own_two : twoSockets.dev.udpSockets_ = twoSockets.live ∧
    ∀ (i : ℕ) (hi : i < twoSockets.live.length),
      udpClose twoSockets.live[i].localAddr twoSockets.live[i].localPort twoSockets.dev =
        ⟨.done ⟨⟩, { twoSockets.dev with udpSockets_ := twoSockets.live.eraseIdx i }, []⟩ :=
  udp_close_own twoSockets_reachable

/-! ## One socket for a datagram -/

/-- Two sockets are for one address and port if they have the same port, and one of them is for every
address or they have the same address. -/
theorem OpenUdpSocket.clash_iff {s t : OpenUdpSocket} :
    (∃ addr port, s.IsFor addr port ∧ t.IsFor addr port) ↔ s.localPort = t.localPort ∧
      (s.localAddr = inaddrAny ∨ t.localAddr = inaddrAny ∨ s.localAddr = t.localAddr) := by
  constructor
  · rintro ⟨addr, port, ⟨hs, rfl⟩, ht, hport⟩
    refine ⟨hport.symm, ?_⟩
    rcases hs with hs | rfl
    · exact .inl hs
    · exact .inr (ht.imp_right Eq.symm)
  · rintro ⟨hport, hs | ht | hsame⟩
    · exact ⟨t.localAddr, t.localPort, ⟨.inl hs, hport⟩, .inr rfl, rfl⟩
    · exact ⟨s.localAddr, s.localPort, ⟨.inr rfl, rfl⟩, .inl ht, hport.symm⟩
    · exact ⟨s.localAddr, s.localPort, ⟨.inr rfl, rfl⟩, .inr hsame.symm, hport.symm⟩

/-- At most one of the sockets is for any address and port. -/
def AtMostOne (sockets : List OpenUdpSocket) : Prop :=
  sockets.Pairwise fun s t => ∀ addr port, ¬ (s.IsFor addr port ∧ t.IsFor addr port)

/-- Two of them are not for one address and port. -/
theorem AtMostOne.apart {sockets : List OpenUdpSocket} (h : AtMostOne sockets) {s t : OpenUdpSocket}
    (hs : s ∈ sockets) (ht : t ∈ sockets) (hne : s ≠ t) (addr : Ipv4Address) (port : ℕ) :
    ¬ (s.IsFor addr port ∧ t.IsFor addr port) := by
  have hsymm : Std.Symm fun s t : OpenUdpSocket => ∀ addr port, ¬ (s.IsFor addr port ∧ t.IsFor addr port) :=
    ⟨fun s t h addr port hboth => h addr port hboth.symm⟩
  exact List.Pairwise.forall h hs ht hne addr port

namespace Ipv4EthernetDevice

variable {dev : Ipv4EthernetDevice} {localAddr : Ipv4Address} {localPort recvFunc port : ℕ}

/-- A socket for every address has this port. -/
def HasWildcard (dev : Ipv4EthernetDevice) (port : ℕ) : Prop :=
  ∃ s ∈ dev.udpSockets_, s.localAddr = inaddrAny ∧ s.localPort = port

/-- The first port from 49152 on that no socket for every address has, or the last port. -/
structure FirstUnused (dev : Ipv4EthernetDevice) (port : ℕ) : Prop where
  /-- a port that is searched -/
  range : 49152 ≤ port ∧ port ≤ 65535
  /-- the ports before it are taken -/
  earlier : ∀ earlier, 49152 ≤ earlier → earlier < port → dev.HasWildcard earlier
  /-- it is not -/
  unused : port < 65535 → ¬ dev.HasWildcard port

/-- A socket for every address is opened only if no socket for the address of the device has its port,
be this the port that is asked for or the first unused one. -/
def PortFree (dev : Ipv4EthernetDevice) (localAddr : Ipv4Address) (localPort : ℕ) : Prop :=
  localAddr = inaddrAny → ∀ port, (if localPort = 0 then dev.FirstUnused port else port = localPort) →
    ∀ s ∈ dev.udpSockets_, s.localPort = port → s.localAddr = inaddrAny

/-- A socket is found for the address 0.0.0.0 if it is for every address. -/
theorem findOpenUdpSocket_any : dev.findOpenUdpSocket inaddrAny port = none ↔ ¬ dev.HasWildcard port := by
  rw [findOpenUdpSocket_eq_none]
  simp only [OpenUdpSocket.IsFor, or_self, HasWildcard, not_exists, not_and]

/-- The search stops at the first unused port. -/
theorem firstUnused_unusedPort : dev.FirstUnused (dev.unusedPort inaddrAny) := by
  have hfirst := @firstFree_unusedPort dev inaddrAny
  refine ⟨hfirst.range, fun earlier hle hlt => ?_, fun hlt => ?_⟩
  · have hsome := hfirst.earlier earlier hle hlt
    rw [ne_eq, findOpenUdpSocket_any, not_not] at hsome
    exact hsome
  · exact findOpenUdpSocket_any.mp (hfirst.free hlt)

/-- There is one first unused port. -/
theorem FirstUnused.unique {port' : ℕ} (h : dev.FirstUnused port) (h' : dev.FirstUnused port') :
    port = port' := by
  have hrange := h.range
  have hrange' := h'.range
  rcases lt_trichotomy port port' with hlt | heq | hlt
  · exact absurd (h'.earlier port hrange.1 hlt) (h.unused (by omega))
  · exact heq
  · exact absurd (h.earlier port' hrange'.1 hlt) (h'.unused (by omega))

/-- The condition is one on the port that is chosen. -/
theorem portFree_iff : dev.PortFree localAddr localPort ↔ (localAddr = inaddrAny →
    ∀ s ∈ dev.udpSockets_, s.localPort = dev.chosenPort localAddr localPort → s.localAddr = inaddrAny) := by
  refine imp_congr_right fun haddr => ?_
  subst haddr
  have hchosen : ∀ port, (if localPort = 0 then dev.FirstUnused port else port = localPort) ↔
      port = dev.chosenPort inaddrAny localPort := by
    intro port
    rw [chosenPort]
    split_ifs
    · exact ⟨fun h => h.unique firstUnused_unusedPort, fun h => h ▸ firstUnused_unusedPort⟩
    · rfl
  simp only [hchosen, forall_eq]

/-- **One open.** A socket that is opened is for the datagrams of another one exactly where the
condition fails. -/
theorem atMostOne_append (hone : AtMostOne dev.udpSockets_)
    (hnew : ∀ t ∈ dev.udpSockets_, ¬ t.IsFor localAddr (dev.chosenPort localAddr localPort)) :
    AtMostOne (dev.udpSockets_ ++ [⟨localAddr, dev.chosenPort localAddr localPort, recvFunc⟩]) ↔
      dev.PortFree localAddr localPort := by
  rw [portFree_iff, AtMostOne, List.pairwise_append]
  simp only [List.mem_singleton, forall_eq, List.pairwise_singleton, true_and]
  constructor
  · rintro ⟨-, hclash⟩ haddr s hs hport
    let opened : OpenUdpSocket := ⟨localAddr, dev.chosenPort localAddr localPort, recvFunc⟩
    obtain ⟨addr, port, hboth⟩ :=
      (@OpenUdpSocket.clash_iff s opened).mpr ⟨hport, .inr (.inl haddr)⟩
    exact absurd hboth (hclash s hs addr port)
  · intro hfree
    refine ⟨hone, fun s hs addr port hboth => ?_⟩
    obtain ⟨hport, haddr⟩ := OpenUdpSocket.clash_iff.mp ⟨addr, port, hboth⟩
    rcases haddr with haddr | haddr | haddr
    · exact hnew s hs ⟨.inl haddr, hport⟩
    · exact hnew s hs ⟨.inl (hfree haddr s hs hport), hport⟩
    · exact hnew s hs ⟨.inr haddr, hport⟩

end Ipv4EthernetDevice

/-- Where the condition holds, sockets stay apart. -/
theorem SocketRun.atMostOne {s : SocketRun}
    (hs : Reach SocketRun.Init (SocketRun.Step PortFree) s) : AtMostOne s.dev.udpSockets_ := by
  induction hs with
  | start h =>
    obtain ⟨hwAddress, rfl⟩ := h
    exact List.Pairwise.nil
  | step hs hstep ih =>
    have hinv := SocketRun.Inv.reachable hs
    cases hstep with
    | opened hfree hdone =>
      obtain ⟨-, hnew, hstate⟩ := udpOpen_done hdone
      rw [hstate]
      exact (atMostOne_append ih hnew).mpr hfree
    | destroyed hi =>
      rw [udpClose_own hinv.entries hinv.ordered hi]
      have hentries := hinv.entries
      dsimp only at hentries
      subst hentries
      exact ih.sublist (List.eraseIdx_sublist _ _)
    | configured hdone =>
      rw [(ipv4Config_done hdone).2.2]
      exact ih

/-- **At most one socket is for a datagram**, in every run in which a socket for every address is opened
only if no other socket has its port: a datagram is delivered to the one socket that is for it,
wherever this stands in the list. From each of these states, opening a socket leads to another
one with this property if and only if the condition holds. -/
theorem udp_at_most_one {s : SocketRun} (hs : Reach SocketRun.Init (SocketRun.Step PortFree) s) :
    AtMostOne s.dev.udpSockets_ ∧
      (∀ addr port t, s.dev.findOpenUdpSocket addr port = some t ↔
        t ∈ s.dev.udpSockets_ ∧ t.IsFor addr port) ∧
      ∀ localAddr localPort recvFunc opened,
        (udpOpen localAddr localPort recvFunc s.dev).outcome = .done opened →
        (AtMostOne (udpOpen localAddr localPort recvFunc s.dev).state.udpSockets_ ↔
          s.dev.PortFree localAddr localPort) := by
  have hone := SocketRun.atMostOne hs
  refine ⟨hone, fun addr port t => ⟨findOpenUdpSocket_eq_some, ?_⟩, ?_⟩
  · rintro ⟨ht, hfor⟩
    obtain ⟨r, hr⟩ := exists_findOpenUdpSocket ⟨t, ht, hfor⟩
    obtain ⟨hr', hfor'⟩ := findOpenUdpSocket_eq_some hr
    rw [hr]
    by_contra hne
    exact hone.apart hr' ht (fun heq => hne (congrArg some heq)) addr port ⟨hfor', hfor⟩
  · intro localAddr localPort recvFunc opened hdone
    obtain ⟨-, hnew, hstate⟩ := udpOpen_done hdone
    rw [hstate]
    exact atMostOne_append hone hnew

/-- A socket for every address is opened first, and then one for another port. -/
def apartSockets : SocketRun where
  dev := (udpOpen 0xc0a80a02 69 1 (ipv4Config ⟨0xc0a80a02, 0xffffff00, inaddrAny⟩
    (udpOpen inaddrAny 68 0 (ofHwAddress (Vector.replicate 6 2))).state).state).state
  live := [] ++ [⟨inaddrAny, 68, 0⟩] ++ [⟨0xc0a80a02, 69, 1⟩]

theorem apartSockets_reachable : Reach SocketRun.Init (SocketRun.Step PortFree) apartSockets := by
  refine .step (.step (.step (.start ⟨Vector.replicate 6 2, rfl⟩)
    (.opened (s := ⟨inaddrAny, 68⟩) ?_ (by decide))) (.configured (by decide)))
    (.opened (s := ⟨0xc0a80a02, 69⟩) ?_ (by decide))
  · intro haddr port hport s hs
    cases hs
  · intro haddr
    exact absurd haddr (by decide)

/-- These two are apart. -/
theorem udp_at_most_one_apart : AtMostOne apartSockets.dev.udpSockets_ ∧
    (∀ addr port t, apartSockets.dev.findOpenUdpSocket addr port = some t ↔
      t ∈ apartSockets.dev.udpSockets_ ∧ t.IsFor addr port) ∧
    ∀ localAddr localPort recvFunc opened,
      (udpOpen localAddr localPort recvFunc apartSockets.dev).outcome = .done opened →
      (AtMostOne (udpOpen localAddr localPort recvFunc apartSockets.dev).state.udpSockets_ ↔
        apartSockets.dev.PortFree localAddr localPort) :=
  udp_at_most_one apartSockets_reachable

/-- **Two sockets for one datagram**: the socket for every address is opened last. Both are for
datagrams to the port 69 of 192.168.10.2. -/
theorem two_sockets_clash : ∃ s, SocketRun.Reachable s ∧ ¬ AtMostOne s.dev.udpSockets_ := by
  refine ⟨twoSockets, twoSockets_reachable, fun h => ?_⟩
  have hsockets : twoSockets.dev.udpSockets_ = [⟨0xc0a80a02, 69, 0⟩, ⟨inaddrAny, 69, 1⟩] := by decide
  rw [hsockets] at h
  exact h.apart List.mem_cons_self (List.mem_cons_of_mem _ List.mem_cons_self) (by decide) 0xc0a80a02 69
    (by decide)

end Attos.Net
