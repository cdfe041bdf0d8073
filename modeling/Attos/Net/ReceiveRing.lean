import Attos.Lib.Outcome
import Attos.Lib.Reach
import Attos.Lib.Ring

/-!
# The receive ring of the i825x driver

The network card and `do_process_packets` share a ring of 16 descriptors. The
card fills the descriptor at `RDH` as long as `RDH` is not `RDT`; the driver
takes packets from the descriptor at `rx_head_`, clears its status and then
gives it back by writing its index to `RDT`.

The card and the driver take their steps in any order, one memory or register
access at a time. Counting the packets that were received, completed and
processed, and the descriptors that were given back, `Inv` says where each of
them lies in the ring; it holds in every reachable state (`Inv.of_reachable`).
-/

namespace Attos.Net.I825x

open Lib Lib.Outcome

/-! ## The ring and the driver -/

/-- `num_rx_descriptors`. -/
def numRxDescriptors : ℕ := 16

/-- `RXD_STAT_DD`: descriptor done. -/
def rxdStatDd : UInt8 := 0x01

/-- `RXD_STAT_EOP`: end of packet. -/
def rxdStatEop : UInt8 := 0x02

/-- `rx_desc`. The address is the index of the receive buffer it is the
physical address of. -/
structure RxDesc : Type where
  /-- `buffer_addr` -/
  bufferAddr : ℕ
  /-- `length` -/
  length : UInt16
  /-- `status` -/
  status : UInt8
  /-- `errors` -/
  errors : UInt8
  deriving DecidableEq

/-- The receive ring: what the driver and the card share, and the driver's
index into it. -/
structure Ring : Type where
  /-- `rx_desc_` -/
  rxDesc : ℕ → RxDesc
  /-- `rx_buffer_` -/
  rxBuffer : ℕ → List UInt8
  /-- `rx_head_` -/
  rxHead : ℕ
  /-- the register `RDH0` -/
  rdh0 : ℕ
  /-- the register `RDT0` -/
  rdt0 : ℕ

/-- What `reset` does to the receive ring. -/
def reset (r : Ring) : Ring :=
  { r with
    rdh0 := 0
    rdt0 := numRxDescriptors - 1
    rxDesc := fun i => ⟨i, 0, 0, 0⟩
    rxHead := 0 }

/-- The loop of `do_process_packets`, with `left` iterations to do; the packets
it passes to the callback are listed. -/
def processLoop : ℕ → Ring → Outcome (Ring × List (List UInt8))
  | 0, r => pure (r, [])
  | left + 1, r => do
    let rd := r.rxDesc r.rxHead
    if rd.status &&& rxdStatDd = 0 then
      pure (r, [])
    else
      require (rd.status &&& rxdStatEop ≠ 0)
      let ppf := if rd.errors = 0 then [(r.rxBuffer r.rxHead).take rd.length.toNat] else []
      let r := { r with rxDesc := Function.update r.rxDesc r.rxHead { rd with status := 0 } }
      let r := { r with rdt0 := r.rxHead }
      let r := { r with rxHead := (r.rxHead + 1) % numRxDescriptors }
      let (r, rest) ← processLoop left r
      pure (r, ppf ++ rest)

/-- `do_process_packets`, while the card does nothing. -/
def doProcessPackets (maxPackets : ℤ) (r : Ring) : Outcome (Ring × List (List UInt8)) := do
  require (1 ≤ maxPackets)
  processLoop maxPackets.toNat r

/-- Where a call of `do_process_packets` is, with the iterations left after the
current one. -/
inductive Pc : Type where
  /-- before the test of the loop -/
  | test (left : ℕ)
  /-- the descriptor is done -/
  | found (left : ℕ)
  /-- the packet ends in this descriptor -/
  | checked (left : ℕ)
  /-- at the call of the callback -/
  | passing (left : ℕ)
  /-- before the status is cleared -/
  | passed (left : ℕ)
  /-- before `RDT` is written -/
  | cleared (left : ℕ)
  /-- before `rx_head_` is advanced -/
  | released (left : ℕ)
  deriving DecidableEq

/-- One access of the driver: the ring after it, where the call is then, and
what was passed to the callback. -/
def driverStep (r : Ring) : Pc → Outcome (Ring × Option Pc × Option (List UInt8))
  | .test 0 => pure (r, none, none)
  | .test (left + 1) =>
    if (r.rxDesc r.rxHead).status &&& rxdStatDd = 0 then pure (r, none, none)
    else pure (r, some (.found left), none)
  | .found left => do
    require ((r.rxDesc r.rxHead).status &&& rxdStatEop ≠ 0)
    pure (r, some (.checked left), none)
  | .checked left =>
    if (r.rxDesc r.rxHead).errors = 0 then pure (r, some (.passing left), none)
    else pure (r, some (.passed left), none)
  | .passing left =>
    pure (r, some (.passed left),
      some ((r.rxBuffer r.rxHead).take (r.rxDesc r.rxHead).length.toNat))
  | .passed left =>
    pure ({ r with
      rxDesc := Function.update r.rxDesc r.rxHead { r.rxDesc r.rxHead with status := 0 } },
      some (.cleared left), none)
  | .cleared left => pure ({ r with rdt0 := r.rxHead }, some (.released left), none)
  | .released left =>
    pure ({ r with rxHead := (r.rxHead + 1) % numRxDescriptors }, some (.test left), none)

/-- A call of `do_process_packets` starts. -/
def driverCall (maxPackets : ℤ) : Outcome Pc := do
  require (1 ≤ maxPackets)
  pure (.test maxPackets.toNat)

/-! ## The card -/

/-- A packet, and what the card reports about it. -/
structure Packet : Type where
  /-- the data of the packet -/
  bytes : List UInt8
  /-- the error bits -/
  errors : UInt8
  /-- the status bits -/
  status : UInt8
  /-- the packet fits in a receive buffer -/
  fits : bytes.length ≤ 2048
  /-- the card reports it as done -/
  dd : status &&& rxdStatDd ≠ 0
  /-- it ends in its descriptor -/
  eop : status &&& rxdStatEop ≠ 0

/-- The descriptor of a packet in the receive buffer `i`. -/
def Packet.desc (p : Packet) (i : ℕ) : RxDesc :=
  ⟨i, UInt16.ofNat p.bytes.length, p.status, p.errors⟩

@[simp] theorem Packet.desc_status (p : Packet) (i : ℕ) : (p.desc i).status = p.status := rfl

@[simp] theorem Packet.desc_errors (p : Packet) (i : ℕ) : (p.desc i).errors = p.errors := rfl

@[simp] theorem Packet.desc_length (p : Packet) (i : ℕ) :
    (p.desc i).length = UInt16.ofNat p.bytes.length := rfl

/-- What the card is doing. -/
inductive Nic : Type where
  /-- it waits for a packet -/
  | ready
  /-- the data of a packet is in the buffer -/
  | written (p : Packet)
  /-- the descriptor is done -/
  | completed

/-- The card writes the data of a packet to the buffer at `RDH`. -/
def nicWrite (p : Packet) (r : Ring) : Ring :=
  let i := (r.rxDesc r.rdh0).bufferAddr
  { r with rxBuffer :=
      Function.update r.rxBuffer i (p.bytes ++ (r.rxBuffer i).drop p.bytes.length) }

/-- The card completes the descriptor at `RDH`. -/
def nicComplete (p : Packet) (r : Ring) : Ring :=
  { r with rxDesc :=
      Function.update r.rxDesc r.rdh0 (p.desc (r.rxDesc r.rdh0).bufferAddr) }

/-- The card advances `RDH`. -/
def nicAdvance (r : Ring) : Ring := { r with rdh0 := (r.rdh0 + 1) % numRxDescriptors }

/-! ## Runs of both -/

/-- The driver and the card, and what happened so far. -/
structure System : Type where
  /-- the ring -/
  ring : Ring
  /-- the card -/
  nic : Nic
  /-- the call of `do_process_packets`, if there is one -/
  driver : Option Pc
  /-- the packets the card received -/
  received : List Packet
  /-- how many of them are complete -/
  completed : ℕ
  /-- what was passed to the callback -/
  passed : List (List UInt8)
  /-- how many packets the driver passed on or skipped -/
  processed : ℕ

/-- The packet at hand was passed on or skipped. -/
def handled : Option Pc → ℕ
  | some (.passed _) | some (.cleared _) | some (.released _) => 1
  | _ => 0

/-- The step to this place passed on or skipped a packet. -/
def justHandled : Option Pc → ℕ
  | some (.passed _) => 1
  | _ => 0

/-- The state after `reset`. -/
def Init (s : System) : Prop :=
  (∃ r, s.ring = reset r) ∧ s.nic = .ready ∧ s.driver = none ∧
    s.received = [] ∧ s.completed = 0 ∧ s.passed = [] ∧ s.processed = 0

/-- The driver or the card takes a step. -/
inductive Step : System → System → Prop where
  /-- `do_process_packets` is called -/
  | call {s : System} {maxPackets : ℤ} {pc : Pc} : s.driver = none →
      driverCall maxPackets = done pc → Step s { s with driver := some pc }
  /-- the call goes on -/
  | driver {s : System} {pc : Pc} {r : Ring} {pc' : Option Pc} {data : Option (List UInt8)} :
      s.driver = some pc → driverStep s.ring pc = done (r, pc', data) →
        Step s { s with
          ring := r
          driver := pc'
          passed := s.passed ++ data.toList
          processed := s.processed + justHandled pc' }
  /-- the card receives a packet -/
  | receive {s : System} (p : Packet) : s.nic = .ready → s.ring.rdh0 ≠ s.ring.rdt0 →
      Step s { s with
        ring := nicWrite p s.ring
        nic := .written p
        received := s.received ++ [p] }
  /-- the card completes its descriptor -/
  | complete {s : System} {p : Packet} : s.nic = .written p →
      Step s { s with
        ring := nicComplete p s.ring
        nic := .completed
        completed := s.completed + 1 }
  /-- the card goes to the next descriptor -/
  | advance {s : System} : s.nic = .completed →
      Step s { s with ring := nicAdvance s.ring, nic := .ready }

/-- The states of all runs. -/
abbrev Reachable : System → Prop := Reach Init Step

/-! ## The invariant -/

/-- The card accepted a packet for the descriptor at `RDH`. -/
def Nic.accepted : Nic → ℕ
  | ready => 0
  | written _ => 1
  | completed => 1

/-- The card completed the descriptor at `RDH`. -/
def Nic.finished : Nic → ℕ
  | ready => 0
  | written _ => 0
  | completed => 1

/-- The driver works on the descriptor at `rx_head_`. -/
def working : Option Pc → ℕ
  | none | some (.test _) => 0
  | _ => 1

/-- The driver cleared the descriptor at `rx_head_`. -/
def cleared : Option Pc → ℕ
  | some (.cleared _) | some (.released _) => 1
  | _ => 0

/-- The driver gave back the descriptor at `rx_head_`. -/
def released : Option Pc → ℕ
  | some (.released _) => 1
  | _ => 0

/-- What the callback is to get of a list of packets. -/
def deliver (ps : List Packet) : List (List UInt8) :=
  (ps.filter (·.errors = 0)).map (·.bytes)

@[simp] theorem deliver_nil : deliver [] = [] := rfl

theorem deliver_append (ps qs : List Packet) : deliver (ps ++ qs) = deliver ps ++ deliver qs := by
  simp [deliver]

/-- Where the packets lie when the driver cleared `S` descriptors and gave back
`R`: the completed descriptors that are not cleared hold the packets, the
others are clear, and the buffers of the packets that were not given back are
kept. -/
structure Layout (r : Ring) (received : List Packet) (completed S R : ℕ) : Prop where
  /-- `RDT` is one behind what was given back -/
  rdt0 : r.rdt0 = (R + 15) % numRxDescriptors
  /-- the card is less than one round ahead -/
  room : received.length ≤ R + 15
  /-- a descriptor is cleared before it is given back -/
  order : R ≤ S
  /-- a descriptor is completed before it is cleared -/
  behind : S ≤ completed
  /-- the completed descriptors -/
  full : Window numRxDescriptors r.rxDesc S completed
    fun k d => ∃ p, received[k]? = some p ∧ d = p.desc (k % numRxDescriptors)
  /-- the other descriptors -/
  clear : Window numRxDescriptors r.rxDesc completed (S + numRxDescriptors)
    fun k d => d.status = 0 ∧ d.bufferAddr = k % numRxDescriptors
  /-- the buffers -/
  kept : Window numRxDescriptors r.rxBuffer R received.length
    fun k b => ∃ p, received[k]? = some p ∧ b.take p.bytes.length = p.bytes

namespace Layout

variable {r : Ring} {received : List Packet} {completed S R : ℕ}

/-- The driver clears the next descriptor. -/
theorem clear_next (h : Layout r received completed S R) (hS : S < completed)
    (hreceived : completed ≤ received.length) (hhead : r.rxHead = S % numRxDescriptors) :
    Layout { r with rxDesc :=
      Function.update r.rxDesc r.rxHead { r.rxDesc r.rxHead with status := 0 } }
      received completed (S + 1) R := by
  have hroom := h.room
  have horder := h.order
  have haddr : (r.rxDesc r.rxHead).bufferAddr = S % numRxDescriptors := by
    obtain ⟨p, -, hp⟩ := h.full S le_rfl hS
    rw [hhead, hp]
    rfl
  have hround : r.rxHead = (S + numRxDescriptors) % numRxDescriptors := by
    rw [hhead, Nat.add_mod_right]
  constructor
  case rdt0 => exact h.rdt0
  case room => exact hroom
  case order => exact horder.trans (Nat.le_succ S)
  case behind => exact hS
  case kept => exact h.kept
  case full =>
    simp only
    rw [hhead]
    refine (h.full.shrink (Nat.le_succ S) le_rfl).update_slot (Nat.le_succ S) ?_ le_rfl
      ?_ (.inl (Nat.lt_succ_self S)) <;> simp only [numRxDescriptors] <;> omega
  case clear =>
    simp only
    rw [Nat.add_right_comm]
    rw [hround] at haddr ⊢
    exact h.clear.push (by omega) ⟨rfl, haddr.trans (Nat.add_mod_right _ _).symm⟩

/-- The driver gives back the next descriptor. -/
theorem release_next (h : Layout r received completed S R) (hR : R < S)
    (hhead : r.rxHead = R % numRxDescriptors) :
    Layout { r with rdt0 := r.rxHead } received completed S (R + 1) := by
  have hroom := h.room
  constructor
  case rdt0 => simp only [hhead, numRxDescriptors]; omega
  case room => omega
  case order => exact hR
  case behind => exact h.behind
  case full => exact h.full
  case clear => exact h.clear
  case kept => exact h.kept.shrink (Nat.le_succ R) le_rfl

/-- The descriptor at `RDH` is clear while the card waits for a packet. -/
theorem at_rdh0 (h : Layout r received completed S R) (hreceived : received.length = completed)
    (hrdh0 : r.rdh0 = completed % numRxDescriptors) :
    (r.rxDesc r.rdh0).bufferAddr = completed % numRxDescriptors := by
  have hroom := h.room
  have horder := h.order
  rw [hrdh0]
  exact (h.clear completed le_rfl (by simp only [numRxDescriptors]; omega)).2

/-- There is room for a packet as long as `RDH` is not `RDT`. -/
theorem room_of_ne (h : Layout r received completed S R)
    (hrdh0 : r.rdh0 = received.length % numRxDescriptors) (hne : r.rdh0 ≠ r.rdt0) :
    received.length < R + 15 := by
  refine lt_of_le_of_ne h.room fun heq => hne ?_
  rw [hrdh0, h.rdt0, heq]

/-- The card receives a packet. -/
theorem receive (h : Layout r received completed S R) (hreceived : received.length = completed)
    (hrdh0 : r.rdh0 = completed % numRxDescriptors) (hne : r.rdh0 ≠ r.rdt0) (p : Packet) :
    Layout (nicWrite p r) (received ++ [p]) completed S R := by
  have hlt := h.room_of_ne (hreceived ▸ hrdh0) hne
  have hgrow : ∀ {k q}, received[k]? = some q → (received ++ [p])[k]? = some q :=
    fun hk => (List.getElem?_append_left (List.getElem?_eq_some_iff.1 hk).1).trans hk
  constructor
  case rdt0 => exact h.rdt0
  case room => rw [List.length_append]; exact hlt
  case order => exact h.order
  case behind => exact h.behind
  case full => exact h.full.imp fun k d _ _ ⟨q, hq, hd⟩ => ⟨q, hgrow hq, hd⟩
  case clear => exact h.clear
  case kept =>
    rw [nicWrite, h.at_rdh0 hreceived hrdh0, ← hreceived, List.length_append]
    refine (h.kept.imp fun k b _ _ ⟨q, hq, hb⟩ => ⟨q, hgrow hq, hb⟩).push
      (by simp only [numRxDescriptors]; omega) ⟨p, ?_, ?_⟩
    · rw [List.getElem?_append_right le_rfl, Nat.sub_self]
      rfl
    · rw [List.take_left]

/-- The card completes a descriptor. -/
theorem complete (h : Layout r received completed S R)
    (hreceived : received.length = completed + 1)
    (hrdh0 : r.rdh0 = completed % numRxDescriptors) {p : Packet}
    (hp : received[completed]? = some p) :
    Layout (nicComplete p r) received (completed + 1) S R := by
  have hroom := h.room
  have horder := h.order
  have hbehind := h.behind
  have haddr : (r.rxDesc r.rdh0).bufferAddr = completed % numRxDescriptors := by
    rw [hrdh0]
    exact (h.clear completed le_rfl (by simp only [numRxDescriptors]; omega)).2
  constructor
  case rdt0 => exact h.rdt0
  case room => exact hroom
  case order => exact horder
  case behind => omega
  case kept => exact h.kept
  case full =>
    rw [nicComplete, haddr, hrdh0]
    exact h.full.push (by simp only [numRxDescriptors]; omega) ⟨p, hp, rfl⟩
  case clear =>
    rw [nicComplete, hrdh0]
    refine (h.clear.shrink (Nat.le_succ completed) le_rfl).update_slot ?_ le_rfl
      hbehind ?_ (.inl (Nat.lt_succ_self completed))
    · omega
    · simp only [numRxDescriptors]; omega

end Layout

/-- What holds when the card has advanced `A` times and the driver has finished
`F` packets. -/
structure Inv (s : System) (A F : ℕ) : Prop where
  /-- where the card is -/
  rdh0 : s.ring.rdh0 = A % numRxDescriptors
  /-- where the driver is -/
  rxHead : s.ring.rxHead = F % numRxDescriptors
  /-- the packets received -/
  received : s.received.length = A + s.nic.accepted
  /-- the packets completed -/
  completed : s.completed = A + s.nic.finished
  /-- the packet that is being written -/
  writing : ∀ p, s.nic = .written p → s.received[A]? = some p
  /-- where the packets lie -/
  layout : Layout s.ring s.received s.completed (F + cleared s.driver) (F + released s.driver)
  /-- the driver works on completed packets -/
  behind : F + working s.driver ≤ s.completed
  /-- the packets processed -/
  processed : s.processed = F + handled s.driver
  /-- what the callback got -/
  passed : s.passed = deliver (s.received.take s.processed)
  /-- a packet that is passed on has no errors -/
  passing : ∀ left, s.driver = some (.passing left) → (s.ring.rxDesc s.ring.rxHead).errors = 0

/-- The packets all lie in the ring in the end. -/
theorem Nic.finished_le (n : Nic) : n.finished ≤ n.accepted := by
  cases n <;> simp [Nic.finished, Nic.accepted]

namespace Inv

variable {s : System} {A F left : ℕ}

/-- Completed packets were received. -/
theorem completed_le (h : Inv s A F) : s.completed ≤ s.received.length := by
  rw [h.completed, h.received]
  exact Nat.add_le_add_left s.nic.finished_le A

/-- The invariant holds after `reset`. -/
theorem init (h : Init s) : Inv s 0 0 := by
  obtain ⟨⟨r, hr⟩, hnic, hdriver, hreceived, hcompleted, hpassed, hprocessed⟩ := h
  constructor
  case layout =>
    rw [hr, hreceived, hcompleted, hdriver]
    refine ⟨rfl, Nat.zero_le _, le_rfl, le_rfl, .empty le_rfl, fun k _ hk => ⟨rfl, ?_⟩, .empty le_rfl⟩
    rfl
  all_goals simp [hr, hnic, hdriver, hreceived, hcompleted, hpassed, hprocessed, reset,
    handled, working, Nic.accepted, Nic.finished, numRxDescriptors]

/-- The packet at `rx_head_`, until the driver clears its descriptor. -/
theorem head (h : Inv s A F) (hlt : F < s.completed) (hc : cleared s.driver = 0) :
    ∃ p, s.received[F]? = some p ∧ s.ring.rxDesc s.ring.rxHead = p.desc (F % numRxDescriptors) := by
  rw [h.rxHead]
  exact h.layout.full F (by rw [hc, Nat.add_zero]) hlt

/-- The data of the packet at `rx_head_`, until the driver gives it back. -/
theorem data (h : Inv s A F) (hlt : F < s.completed) (hr : released s.driver = 0) {p : Packet}
    (hp : s.received[F]? = some p) :
    (s.ring.rxBuffer s.ring.rxHead).take (UInt16.ofNat p.bytes.length).toNat = p.bytes := by
  have hfits := p.fits
  obtain ⟨q, hq, hdata⟩ :=
    h.layout.kept F (by rw [hr, Nat.add_zero]) (hlt.trans_le h.completed_le)
  obtain rfl : q = p := Option.some.inj (hq.symm.trans hp)
  rw [h.rxHead, UInt16.toNat_ofNat_of_lt' (by simp only [UInt16.size]; omega)]
  exact hdata

/-- A complete packet is found at `rx_head_`. -/
theorem dd (h : Inv s A F) (hlt : F < s.completed) (hc : cleared s.driver = 0) :
    (s.ring.rxDesc s.ring.rxHead).status &&& rxdStatDd ≠ 0 := by
  obtain ⟨p, -, hp⟩ := h.head hlt hc
  rw [hp]
  exact p.dd

/-- Nothing but a complete packet is found at `rx_head_`. -/
theorem lt_of_dd (h : Inv s A F) (hc : cleared s.driver = 0)
    (hdd : (s.ring.rxDesc s.ring.rxHead).status &&& rxdStatDd ≠ 0) : F < s.completed := by
  have hb := h.behind
  by_contra hle
  have hclear := h.layout.clear F (by omega) (by simp only [hc, numRxDescriptors]; omega)
  rw [← h.rxHead] at hclear
  rw [hclear.1] at hdd
  exact hdd (by decide)

/-- The call goes on without an access that changes anything. -/
theorem move (h : Inv s A F) {pc : Option Pc} (hr : released pc = released s.driver)
    (hc : cleared pc = cleared s.driver) (hh : handled pc = handled s.driver)
    (hb : F + working pc ≤ s.completed)
    (hp : ∀ left, pc = some (.passing left) → (s.ring.rxDesc s.ring.rxHead).errors = 0) :
    Inv { s with driver := pc } A F where
  rdh0 := h.rdh0
  rxHead := h.rxHead
  received := h.received
  completed := h.completed
  writing := h.writing
  layout := by simpa only [hr, hc] using h.layout
  behind := hb
  processed := by simpa only [hh] using h.processed
  passed := h.passed
  passing := hp

/-- The packet at hand is passed on or skipped. -/
theorem handle (h : Inv s A F) {data : Option (List UInt8)} {p : Packet}
    (hlt : F < s.completed) (hr : released s.driver = 0)
    (hc : cleared s.driver = 0) (hh : handled s.driver = 0) (hp : s.received[F]? = some p)
    (hdata : data.toList = deliver [p]) :
    Inv { s with
      driver := some (.passed left)
      passed := s.passed ++ data.toList
      processed := s.processed + 1 } A F where
  rdh0 := h.rdh0
  rxHead := h.rxHead
  received := h.received
  completed := h.completed
  writing := h.writing
  layout := by
    have hl := h.layout
    rw [hr, hc] at hl
    exact hl
  behind := hlt
  processed := by rw [h.processed, hh]; rfl
  passed := by
    have hF : s.processed = F := by rw [h.processed, hh, Nat.add_zero]
    simp only [hdata]
    rw [h.passed, hF, List.take_add_one, hp, deliver_append]
    rfl
  passing := by simp

/-- The status of the packet at hand is cleared. -/
theorem clearStatus (h : Inv s A F) (hd : s.driver = some (.passed left)) :
    Inv { s with
      ring := { s.ring with
        rxDesc := Function.update s.ring.rxDesc s.ring.rxHead
          { s.ring.rxDesc s.ring.rxHead with status := 0 } }
      driver := some (.cleared left) } A F where
  rdh0 := h.rdh0
  rxHead := h.rxHead
  received := h.received
  completed := h.completed
  writing := h.writing
  layout := by
    have hl := h.layout
    have hb := h.behind
    rw [hd] at hl hb
    exact hl.clear_next hb h.completed_le h.rxHead
  behind := by
    have hb := h.behind
    rw [hd] at hb
    exact hb
  processed := by
    have hp := h.processed
    rw [hd] at hp
    exact hp
  passed := h.passed
  passing := by simp

/-- The descriptor at hand is given back. -/
theorem release (h : Inv s A F) (hd : s.driver = some (.cleared left)) :
    Inv { s with
      ring := { s.ring with rdt0 := s.ring.rxHead }
      driver := some (.released left) } A F where
  rdh0 := h.rdh0
  rxHead := h.rxHead
  received := h.received
  completed := h.completed
  writing := h.writing
  layout := by
    have hl := h.layout
    rw [hd] at hl
    exact hl.release_next (Nat.lt_succ_self F) h.rxHead
  behind := by
    have hb := h.behind
    rw [hd] at hb
    exact hb
  processed := by
    have hp := h.processed
    rw [hd] at hp
    exact hp
  passed := h.passed
  passing := by simp

/-- The driver goes to the next descriptor. -/
theorem next (h : Inv s A F) (hd : s.driver = some (.released left)) :
    Inv { s with
      ring := { s.ring with rxHead := (s.ring.rxHead + 1) % numRxDescriptors }
      driver := some (.test left) } A (F + 1) where
  rdh0 := h.rdh0
  rxHead := by
    change (s.ring.rxHead + 1) % numRxDescriptors = (F + 1) % numRxDescriptors
    rw [h.rxHead, Nat.mod_add_mod]
  received := h.received
  completed := h.completed
  writing := h.writing
  layout := by
    have hl := h.layout
    rw [hd] at hl
    exact ⟨hl.rdt0, hl.room, hl.order, hl.behind, hl.full, hl.clear, hl.kept⟩
  behind := by
    have hb := h.behind
    rw [hd] at hb
    exact hb
  processed := by
    have hp := h.processed
    rw [hd] at hp
    exact hp
  passed := h.passed
  passing := by simp

/-- **The driver keeps the invariant.** -/
theorem driver (h : Inv s A F) {pc : Pc} {r : Ring} {pc' : Option Pc} {data : Option (List UInt8)}
    (hd : s.driver = some pc) (hstep : driverStep s.ring pc = done (r, pc', data)) :
    ∃ F', Inv { s with
      ring := r
      driver := pc'
      passed := s.passed ++ data.toList
      processed := s.processed + justHandled pc' } A F' := by
  have hb := h.behind
  cases pc with
  | test left =>
    rw [hd] at hb
    cases left with
    | zero =>
      cases hstep
      simpa [justHandled] using ⟨F, h.move (by rw [hd]; rfl) (by rw [hd]; rfl) (by rw [hd]; rfl) hb
        (by simp)⟩
    | succ left =>
      simp only [driverStep] at hstep
      split at hstep
      · cases hstep
        simpa [justHandled] using ⟨F, h.move (by rw [hd]; rfl) (by rw [hd]; rfl)
          (by rw [hd]; rfl) hb (by simp)⟩
      · rename_i hdd
        cases hstep
        have hlt : F < s.completed := h.lt_of_dd (by rw [hd]; rfl) hdd
        simpa [justHandled] using ⟨F, h.move (by rw [hd]; rfl) (by rw [hd]; rfl)
          (by rw [hd]; rfl) hlt (by simp)⟩
  | found left =>
    rw [hd] at hb
    obtain ⟨-, hstep⟩ := require_bind_eq_done.1 hstep
    cases hstep
    simpa [justHandled] using ⟨F, h.move (by rw [hd]; rfl) (by rw [hd]; rfl) (by rw [hd]; rfl) hb
      (by simp)⟩
  | checked left =>
    rw [hd] at hb
    simp only [driverStep] at hstep
    split at hstep
    · rename_i herrors
      cases hstep
      simpa [justHandled] using ⟨F, h.move (by rw [hd]; rfl) (by rw [hd]; rfl)
        (by rw [hd]; rfl) hb fun _ _ => herrors⟩
    · rename_i herrors
      cases hstep
      obtain ⟨p, hp, hdesc⟩ := h.head hb (by rw [hd]; rfl)
      rw [hdesc] at herrors
      exact ⟨F, h.handle hb (by rw [hd]; rfl) (by rw [hd]; rfl) (by rw [hd]; rfl) hp
        (by simpa [deliver] using herrors)⟩
  | passing left =>
    rw [hd] at hb
    cases hstep
    obtain ⟨p, hp, hdesc⟩ := h.head hb (by rw [hd]; rfl)
    have herrors : p.errors = 0 := by simpa [hdesc] using h.passing left hd
    have hdata := h.data hb (by rw [hd]; rfl) hp
    refine ⟨F, h.handle hb (by rw [hd]; rfl) (by rw [hd]; rfl) (by rw [hd]; rfl) hp ?_⟩
    rw [hdesc]
    simpa [deliver, herrors] using hdata
  | passed left =>
    cases hstep
    simpa [justHandled] using ⟨F, h.clearStatus hd⟩
  | cleared left =>
    cases hstep
    simpa [justHandled] using ⟨F, h.release hd⟩
  | released left =>
    cases hstep
    simpa [justHandled] using ⟨F + 1, h.next hd⟩

/-- **The card keeps the invariant: it receives a packet.** -/
theorem receive (h : Inv s A F) (hnic : s.nic = .ready) (hne : s.ring.rdh0 ≠ s.ring.rdt0)
    (p : Packet) :
    Inv { s with
      ring := nicWrite p s.ring
      nic := .written p
      received := s.received ++ [p] } A F := by
  have hreceived := h.received
  have hcompleted := h.completed
  simp only [hnic, Nic.accepted, Nic.finished, Nat.add_zero] at hreceived hcompleted
  have hlayout := h.layout.receive (hreceived.trans hcompleted.symm) (hcompleted ▸ h.rdh0) hne p
  constructor
  case rdh0 => exact h.rdh0
  case rxHead => exact h.rxHead
  case received => simp [hreceived, Nic.accepted]
  case completed => simp [hcompleted, Nic.finished]
  case writing =>
    rintro q hq
    cases hq
    rw [List.getElem?_append_right hreceived.le, hreceived, Nat.sub_self]
    rfl
  case layout => exact hlayout
  case behind => exact h.behind
  case processed => exact h.processed
  case passed =>
    have hle : s.processed ≤ s.received.length := by
      rw [h.processed, hreceived, ← hcompleted]
      refine le_trans (Nat.add_le_add_left ?_ F) h.behind
      obtain _ | pc := s.driver
      · exact le_rfl
      · cases pc <;> simp [handled, working]
    rw [List.take_append_of_le_length hle]
    exact h.passed
  case passing => exact h.passing

/-- **The card keeps the invariant: it completes the descriptor.** -/
theorem complete (h : Inv s A F) {p : Packet} (hnic : s.nic = .written p) :
    Inv { s with
      ring := nicComplete p s.ring
      nic := .completed
      completed := s.completed + 1 } A F := by
  have hreceived := h.received
  have hcompleted := h.completed
  simp only [hnic, Nic.accepted, Nic.finished, Nat.add_zero] at hreceived hcompleted
  have hp := h.writing p hnic
  have hlayout := h.layout.complete (by rw [hreceived, hcompleted]) (hcompleted ▸ h.rdh0)
    (hcompleted ▸ hp)
  constructor
  case rdh0 => exact h.rdh0
  case rxHead => exact h.rxHead
  case received => exact hreceived
  case completed => exact congrArg (· + 1) hcompleted
  case writing => simp
  case layout => exact hlayout
  case behind => exact h.behind.trans (Nat.le_succ _)
  case processed => exact h.processed
  case passed => exact h.passed
  case passing =>
    intro left hd
    have hb := h.behind
    have hl := h.layout
    rw [hd] at hb hl
    change F + 1 ≤ s.completed at hb
    have hroom : s.received.length ≤ F + 15 := hl.room
    -- the driver works on another descriptor
    have hne : s.ring.rxHead ≠ s.ring.rdh0 := by
      rw [h.rxHead, h.rdh0]
      intro heq
      have : F = A := eq_of_slot_eq le_rfl (Nat.lt_add_of_pos_right (by decide))
        (by omega) (by rw [numRxDescriptors]; omega) heq
      omega
    change (Function.update s.ring.rxDesc s.ring.rdh0 _ s.ring.rxHead).errors = 0
    rw [Function.update_of_ne hne]
    exact h.passing left hd

/-- **The card keeps the invariant: it goes to the next descriptor.** -/
theorem advance (h : Inv s A F) (hnic : s.nic = .completed) :
    Inv { s with ring := nicAdvance s.ring, nic := .ready } (A + 1) F := by
  have hreceived := h.received
  have hcompleted := h.completed
  simp only [hnic, Nic.accepted, Nic.finished] at hreceived hcompleted
  have hl := h.layout
  constructor
  case rdh0 =>
    change (s.ring.rdh0 + 1) % numRxDescriptors = (A + 1) % numRxDescriptors
    rw [h.rdh0, Nat.mod_add_mod]
  case rxHead => exact h.rxHead
  case received => exact hreceived
  case completed => exact hcompleted
  case writing => simp
  case layout => exact ⟨hl.rdt0, hl.room, hl.order, hl.behind, hl.full, hl.clear, hl.kept⟩
  case behind => exact h.behind
  case processed => exact h.processed
  case passed => exact h.passed
  case passing => exact h.passing

/-- **A step keeps the invariant.** -/
theorem step (h : Inv s A F) {t : System} (hst : Step s t) : ∃ A' F', Inv t A' F' := by
  cases hst with
  | call hd hcall =>
    obtain ⟨-, hcall⟩ := require_bind_eq_done.1 hcall
    cases hcall
    have hb := h.behind
    rw [hd] at hb
    exact ⟨A, F, h.move (by rw [hd]; rfl) (by rw [hd]; rfl) (by rw [hd]; rfl) hb (by simp)⟩
  | driver hd hstep => exact ⟨A, h.driver hd hstep⟩
  | receive p hnic hne => exact ⟨A, F, h.receive hnic hne p⟩
  | complete hnic => exact ⟨A, F, h.complete hnic⟩
  | advance hnic => exact ⟨A + 1, F, h.advance hnic⟩

/-- Any number of steps keep the invariant. -/
theorem steps (h : Inv s A F) {t : System} (hst : Relation.ReflTransGen Step s t) :
    ∃ A' F', Inv t A' F' := by
  induction hst with
  | refl => exact ⟨A, F, h⟩
  | tail _ hst ih =>
    obtain ⟨A', F', h'⟩ := ih
    exact h'.step hst

/-- The invariant holds in every reachable state. -/
theorem of_reachable (hs : Reachable s) : ∃ A F, Inv s A F := by
  refine hs.invariant (fun s => ∃ A F, Inv s A F) (fun s hs => ⟨0, 0, init hs⟩) ?_
  rintro s t ⟨A, F, h⟩ hst
  exact h.step hst

/-- No check of the driver fails. -/
theorem driver_returns (h : Inv s A F) {pc : Pc} (hd : s.driver = some pc) :
    (driverStep s.ring pc).Returns := by
  cases pc with
  | found left =>
    have hb := h.behind
    rw [hd] at hb
    obtain ⟨p, -, hp⟩ := h.head hb (by rw [hd]; rfl)
    refine require_bind_returns.2 ⟨?_, done_returns _⟩
    rw [hp]
    exact p.eop
  | test left =>
    cases left with
    | zero => exact done_returns _
    | succ left =>
      simp only [driverStep]
      split <;> exact done_returns _
  | checked left =>
    simp only [driverStep]
    split <;> exact done_returns _
  | _ => exact done_returns _

end Inv

/-! ## A call without interruption -/

/-- Steps of the driver and the card. -/
abbrev Steps : System → System → Prop := Relation.ReflTransGen Step

section Call

variable {s : System} {A F left : ℕ}

/-- An access of the driver that handles no packet. -/
theorem Step.silent {pc : Pc} {r : Ring} {pc' : Option Pc} (hd : s.driver = some pc)
    (hstep : driverStep s.ring pc = done (r, pc', none)) (hpc : justHandled pc' = 0) :
    Step s { s with ring := r, driver := pc' } := by
  simpa [hpc] using Step.driver hd hstep

/-- What the callback gets of the packet at `rx_head_`. -/
def atHead (r : Ring) : List (List UInt8) :=
  if (r.rxDesc r.rxHead).errors = 0 then
    [(r.rxBuffer r.rxHead).take (r.rxDesc r.rxHead).length.toNat]
  else []

/-- The ring when the packet at `rx_head_` is done with. -/
def nextHead (r : Ring) : Ring :=
  { r with
    rxDesc := Function.update r.rxDesc r.rxHead { r.rxDesc r.rxHead with status := 0 }
    rdt0 := r.rxHead
    rxHead := (r.rxHead + 1) % numRxDescriptors }

/-- The packet is passed on or skipped. -/
theorem steps_handle (hd : s.driver = some (.checked left)) :
    Steps s { s with
      driver := some (.passed left)
      passed := s.passed ++ atHead s.ring
      processed := s.processed + 1 } := by
  by_cases herrors : (s.ring.rxDesc s.ring.rxHead).errors = 0
  · have h₁ : Step s { s with driver := some (.passing left) } :=
      .silent hd (by simp [driverStep, herrors]) rfl
    refine .tail (.single h₁) ?_
    simpa [atHead, herrors, justHandled] using
      @Step.driver { s with driver := some (.passing left) } _ _ _ _ rfl rfl
  · have h₁ := @Step.driver s _ s.ring (some (.passed left)) none hd (by simp [driverStep, herrors])
    refine .single ?_
    simpa [atHead, herrors, justHandled] using h₁

/-- The packet is found. -/
theorem steps_find (hd : s.driver = some (.test (left + 1)))
    (hdd : (s.ring.rxDesc s.ring.rxHead).status &&& rxdStatDd ≠ 0)
    (heop : (s.ring.rxDesc s.ring.rxHead).status &&& rxdStatEop ≠ 0) :
    Steps s { s with driver := some (.checked left) } := by
  have h₁ : Step s { s with driver := some (.found left) } :=
    .silent hd (by simp [driverStep, hdd]) rfl
  refine .tail (.single h₁) (@Step.silent _ _ s.ring _ rfl ?_ rfl)
  simp [driverStep, heop]

/-- The descriptor is cleared and given back. -/
theorem steps_next (hd : s.driver = some (.passed left)) :
    Steps s { s with ring := nextHead s.ring, driver := some (.test left) } := by
  have h₁ := Relation.ReflTransGen.single (@Step.silent s _ _ _ hd rfl rfl)
  have h₂ := h₁.tail (@Step.silent _ (.cleared left) _ _ rfl rfl rfl)
  exact h₂.tail (@Step.silent _ (.released left) _ _ rfl rfl rfl)

/-- One iteration of the loop. -/
theorem processLoop_succ {r : Ring} (hdd : (r.rxDesc r.rxHead).status &&& rxdStatDd ≠ 0)
    (heop : (r.rxDesc r.rxHead).status &&& rxdStatEop ≠ 0) :
    processLoop (left + 1) r = (do
      let (r', rest) ← processLoop left (nextHead r)
      pure (r', atHead r ++ rest)) := by
  rw [processLoop]
  simp only [hdd, if_false, require_pos heop, done_bind]
  rfl

/-- **A call that is not interrupted** passes on what is complete, up to the
number of packets it may process. -/
theorem Inv.call (h : Inv s A F) (hd : s.driver = some (.test left)) :
    ∃ t ppf, Steps s t ∧ t.driver = none ∧ processLoop left s.ring = done (t.ring, ppf) ∧
      t.received = s.received ∧ t.completed = s.completed ∧ t.passed = s.passed ++ ppf ∧
      t.processed = s.processed + min left (s.completed - s.processed) := by
  induction left generalizing s A F with
  | zero =>
    exact ⟨{ s with driver := none }, [], .single (.silent hd rfl rfl), rfl, rfl, rfl, rfl,
      (List.append_nil _).symm, by rw [Nat.zero_min]; rfl⟩
  | succ left ih =>
    have hprocessed : s.processed = F := by rw [h.processed, hd]; rfl
    have hb := h.behind
    rw [hd] at hb
    by_cases hlt : F < s.completed
    · obtain ⟨p, hp, hdesc⟩ := h.head hlt (by rw [hd]; rfl)
      have hdd : (s.ring.rxDesc s.ring.rxHead).status &&& rxdStatDd ≠ 0 := hdesc ▸ p.dd
      have heop : (s.ring.rxDesc s.ring.rxHead).status &&& rxdStatEop ≠ 0 := hdesc ▸ p.eop
      have hs := ((steps_find hd hdd heop).trans (steps_handle rfl)).trans (steps_next rfl)
      obtain ⟨A', F', h'⟩ := h.steps hs
      obtain ⟨t, ppf, ht, hdone, hloop, hreceived, hcompleted, hpassed, hcount⟩ := ih h' rfl
      refine ⟨t, atHead s.ring ++ ppf, hs.trans ht, hdone, ?_, hreceived, hcompleted, ?_, ?_⟩
      · rw [processLoop_succ hdd heop]
        change (do let (r', rest) ← processLoop left (nextHead s.ring); pure _) = _
        rw [hloop]
        rfl
      · rw [hpassed, List.append_assoc]
      · rw [hcount]
        simp only
        omega
    · have hdd : (s.ring.rxDesc s.ring.rxHead).status &&& rxdStatDd = 0 := by
        by_contra hdd
        exact hlt (h.lt_of_dd (by rw [hd]; rfl) hdd)
      have hzero : s.completed - s.processed = 0 := by
        rw [hprocessed]
        exact Nat.sub_eq_zero_of_le (not_lt.1 hlt)
      refine ⟨{ s with driver := none }, [], .single (.silent hd ?_ rfl), rfl, ?_, rfl, rfl,
        (List.append_nil _).symm, by rw [hzero, Nat.min_zero]; rfl⟩
      · simp [driverStep, hdd]
      · simp [processLoop, hdd]

end Call

/-! ## What the ring guarantees -/

/-- The receive ring loses, repeats, reorders and damages no packet. -/
structure Safe (s : System) : Prop where
  /-- the callback got the packets without errors among those processed, once
  each and in the order they were received -/
  order : s.passed = deliver (s.received.take s.processed)
  /-- only completed packets are processed -/
  processed_le : s.processed ≤ s.completed
  /-- only received packets are completed -/
  completed_le : s.completed ≤ s.received.length
  /-- no check of the driver fails -/
  returns : ∀ pc, s.driver = some pc → (driverStep s.ring pc).Returns
  /-- what is handed on is the oldest packet that is not processed, and the card
  has completed it -/
  hands_on : ∀ pc r pc' data, s.driver = some pc →
    driverStep s.ring pc = done (r, pc', some data) →
      ∃ p, s.received[s.processed]? = some p ∧ s.processed < s.completed ∧ p.errors = 0 ∧
        data = p.bytes
  /-- the data of a packet that is not processed is in its buffer -/
  kept : ∀ k p, s.processed ≤ k → s.received[k]? = some p →
    (s.ring.rxBuffer (k % numRxDescriptors)).take p.bytes.length = p.bytes
  /-- and its descriptor describes it once it is complete -/
  described : ∀ k p, s.processed ≤ k → k < s.completed → s.received[k]? = some p →
    s.ring.rxDesc (k % numRxDescriptors) = p.desc (k % numRxDescriptors)
  /-- the card receives no packet into the buffer of a packet that is not processed -/
  buffer_spared : s.nic = .ready → s.ring.rdh0 ≠ s.ring.rdt0 → ∀ k, s.processed ≤ k →
    k < s.received.length → (s.ring.rxDesc s.ring.rdh0).bufferAddr ≠ k % numRxDescriptors
  /-- the card completes no descriptor of a packet that is complete and not processed -/
  desc_spared : ∀ p, s.nic = .written p → ∀ k, s.processed ≤ k → k < s.completed →
    s.ring.rdh0 ≠ k % numRxDescriptors
  /-- a call that is not interrupted passes on what is complete, up to the number
  of packets it may process -/
  drains : ∀ maxPackets : ℤ, 1 ≤ maxPackets → s.driver = none →
    ∃ r, doProcessPackets maxPackets s.ring = done (r, deliver
      ((s.received.drop s.processed).take (min maxPackets.toNat (s.completed - s.processed))))

namespace Inv

variable {s : System} {A F : ℕ}

/-- The driver counts a packet as processed while it works on it, and gives it
back after that. -/
theorem counts (pc : Option Pc) :
    released pc ≤ cleared pc ∧ cleared pc ≤ handled pc ∧ handled pc ≤ working pc := by
  obtain _ | pc := pc
  · exact ⟨le_rfl, le_rfl, le_rfl⟩
  · cases pc <;> simp [released, cleared, handled, working]

/-- Only completed packets are processed. -/
theorem processed_le (h : Inv s A F) : s.processed ≤ s.completed := by
  rw [h.processed]
  exact (Nat.add_le_add_left (counts s.driver).2.2 F).trans h.behind

/-- Only the callback is handed data, and only the data of the packet at hand. -/
theorem hands_on (h : Inv s A F) {pc : Pc} {r : Ring} {pc' : Option Pc} {data : List UInt8}
    (hd : s.driver = some pc) (hstep : driverStep s.ring pc = done (r, pc', some data)) :
    ∃ p, s.received[s.processed]? = some p ∧ s.processed < s.completed ∧ p.errors = 0 ∧
      data = p.bytes := by
  cases pc with
  | passing left =>
    have hb := h.behind
    have hprocessed := h.processed
    rw [hd] at hb hprocessed
    obtain ⟨p, hp, hdesc⟩ := h.head hb (by rw [hd]; rfl)
    cases hstep
    have herrors := h.passing left hd
    rw [hdesc] at herrors ⊢
    exact ⟨p, hprocessed ▸ hp, hprocessed ▸ hb, herrors, h.data hb (by rw [hd]; rfl) hp⟩
  | test left =>
    cases left with
    | zero => cases hstep
    | succ left =>
      simp only [driverStep] at hstep
      split at hstep <;> cases hstep
  | found left =>
    obtain ⟨-, hstep⟩ := require_bind_eq_done.1 hstep
    cases hstep
  | checked left =>
    simp only [driverStep] at hstep
    split at hstep <;> cases hstep
  | passed left => cases hstep
  | cleared left => cases hstep
  | released left => cases hstep

/-- The card has room for the next packet. -/
theorem room (h : Inv s A F) (hnic : s.nic = .ready) (hne : s.ring.rdh0 ≠ s.ring.rdt0) :
    s.received.length < F + released s.driver + 15 := by
  refine h.layout.room_of_ne ?_ hne
  rw [h.rdh0, h.received, hnic]
  rfl

/-- A call from between two calls. -/
theorem drains (h : Inv s A F) {maxPackets : ℤ} (hmax : 1 ≤ maxPackets) (hd : s.driver = none) :
    ∃ r, doProcessPackets maxPackets s.ring = done (r, deliver
      ((s.received.drop s.processed).take (min maxPackets.toNat (s.completed - s.processed)))) := by
  have hcall : Step s { s with driver := some (.test maxPackets.toNat) } :=
    .call hd (by rw [driverCall, require_pos hmax]; rfl)
  obtain ⟨A', F', h'⟩ := h.step hcall
  obtain ⟨t, ppf, ht, -, hloop, hreceived, -, hpassed, hcount⟩ := h'.call rfl
  obtain ⟨A'', F'', h''⟩ := h'.steps ht
  refine ⟨t.ring, ?_⟩
  have hout : s.passed ++ ppf = s.passed ++ deliver
      ((s.received.drop s.processed).take (min maxPackets.toNat (s.completed - s.processed))) :=
    calc s.passed ++ ppf
        = deliver (t.received.take t.processed) := by rw [← h''.passed, hpassed]
      _ = deliver (s.received.take s.processed) ++ deliver
          ((s.received.drop s.processed).take
            (min maxPackets.toNat (s.completed - s.processed))) := by
        rw [hreceived, hcount, ← deliver_append, ← List.take_add]
      _ = _ := by rw [← h.passed]
  rw [doProcessPackets, require_pos hmax, done_bind, ← List.append_cancel_left hout]
  exact hloop

end Inv

/-- **The receive ring is safe** in every reachable state. -/
theorem reachable_safe {s : System} (hs : Reachable s) : Safe s := by
  obtain ⟨A, F, h⟩ := Inv.of_reachable hs
  obtain ⟨hrc, hch, hhw⟩ := Inv.counts s.driver
  have hprocessed := h.processed
  have hroom := h.layout.room
  have hcompleted := h.completed
  constructor
  case order => exact h.passed
  case processed_le => exact h.processed_le
  case completed_le => exact h.completed_le
  case returns => exact fun pc hd => h.driver_returns hd
  case hands_on => exact fun pc r pc' data hd hstep => h.hands_on hd hstep
  case kept =>
    intro k p hk hp
    obtain ⟨q, hq, hdata⟩ := h.layout.kept k (by omega) (List.getElem?_eq_some_iff.1 hp).1
    obtain rfl : q = p := Option.some.inj (hq.symm.trans hp)
    exact hdata
  case described =>
    intro k p hk hlt hp
    obtain ⟨q, hq, hdesc⟩ := h.layout.full k (by omega) hlt
    obtain rfl : q = p := Option.some.inj (hq.symm.trans hp)
    exact hdesc
  case buffer_spared =>
    intro hnic hne k hk hlt heq
    have hreceived : s.received.length = s.completed := by
      rw [h.received, hcompleted, hnic]
      rfl
    have hrdh0 : s.ring.rdh0 = s.completed % numRxDescriptors := by
      rw [h.rdh0, hcompleted, hnic]
      rfl
    have hspace := h.room hnic hne
    rw [h.layout.at_rdh0 hreceived hrdh0] at heq
    have : s.completed = k := eq_of_slot_eq h.processed_le (by rw [numRxDescriptors]; omega) hk
      (by rw [numRxDescriptors]; omega) heq
    omega
  case desc_spared =>
    intro p hnic k hk hlt heq
    have hreceived := h.received
    simp only [hnic, Nic.accepted, Nic.finished] at hreceived hcompleted
    rw [h.rdh0] at heq
    have : A = k := eq_of_slot_eq (by omega) (by rw [numRxDescriptors]; omega) hk
      (by rw [numRxDescriptors]; omega) heq
    omega
  case drains => exact fun maxPackets hmax hd => h.drains hmax hd

/-- The ring after `reset`, when its memory was zero before. -/
def afterReset : System where
  ring := reset ⟨fun _ => ⟨0, 0, 0, 0⟩, fun _ => [], 0, 0, 0⟩
  nic := .ready
  driver := none
  received := []
  completed := 0
  passed := []
  processed := 0

/-- A packet of two bytes. -/
def twoBytes : Packet := ⟨[1, 2], 0, 3, by decide, by decide, by decide⟩

/-- The card received it, and the driver handed it on. -/
def firstHandedOn : System where
  ring := nicAdvance (nicComplete twoBytes (nicWrite twoBytes afterReset.ring))
  nic := .ready
  driver := some (.passed 0)
  received := [twoBytes]
  completed := 1
  passed := [[1, 2]]
  processed := 1

theorem reachable_firstHandedOn : Reachable firstHandedOn := by
  have hstart : Reachable afterReset := .start ⟨⟨⟨fun _ => ⟨0, 0, 0, 0⟩, fun _ => [], 0, 0, 0⟩, rfl⟩, rfl, rfl, rfl, rfl, rfl, rfl⟩
  have hadvanced := ((hstart.step (.receive twoBytes rfl (by decide))).step (.complete rfl)).step (.advance rfl)
  have htest := hadvanced.step (@Step.call _ 1 _ rfl rfl)
  have hfound := htest.step (@Step.driver _ _ _ (some (.found 0)) none rfl rfl)
  have hchecked := hfound.step (@Step.driver _ _ _ (some (.checked 0)) none rfl rfl)
  have hpassing := hchecked.step (@Step.driver _ _ _ (some (.passing 0)) none rfl rfl)
  exact hpassing.step (@Step.driver _ _ _ (some (.passed 0)) (some [1, 2]) rfl rfl)

theorem reachable_safe_firstHandedOn : Safe firstHandedOn := reachable_safe reachable_firstHandedOn

end Attos.Net.I825x
