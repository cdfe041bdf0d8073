import Attos.Lib.Outcome
import Attos.Lib.Reach

/-!
# The transmit ring of the i825x driver

`do_send_packet` takes the descriptor at `tx_tail_`, writes the packet to it, gives it to the card
by advancing `TDT`, and waits until the card reports it as done, but not for ever. The card
completes the descriptor at `TDH` as long as `TDH` is not `TDT`, at any time, also after the driver
has given up.

The driver and the card take their steps in any order. For every descriptor the run keeps what
became of the send that used it last (`Use`). A send that is given up leaves its descriptor
behind; if the card completes it later, nobody clears its status, and the send that finds it at
`tx_tail_` sixteen sends later fails (`send_fails_late`). This is the only way in which a send
fails (`send_returns`).
-/

namespace Attos.Net.I825x.Transmit

open Lib Lib.Outcome

/-! ## The ring and the driver -/

/-- `num_tx_descriptors` -/
def numTxDescriptors : ℕ := 16

/-- `TXD_STAT_DD`: descriptor done -/
def txdStatDd : UInt8 := 0x01

/-- `TXD_CMD_RS | TXD_CMD_EOP | TXD_CMD_IFCS` -/
def txdCmd : ℕ := 0x0b000000

/-- `tx_desc` -/
structure TxDesc : Type where
  /-- `buffer_addr` -/
  bufferAddr : ℕ
  /-- `lower.data` -/
  lower : ℕ
  /-- `upper.fields.status` -/
  status : UInt8

/-- The transmit ring: what the driver and the card share, and the driver's index into it. -/
structure Ring : Type where
  /-- `tx_desc_` -/
  txDesc : ℕ → TxDesc
  /-- `tx_tail_` -/
  txTail : ℕ
  /-- the register `TDH0` -/
  tdh0 : ℕ
  /-- the register `TDT0` -/
  tdt0 : ℕ

/-- What `reset` does to the transmit ring. -/
def reset : Ring where
  txDesc := fun _ => ⟨0, 0, 0⟩
  txTail := 0
  tdh0 := 0
  tdt0 := 0

/-- Write the status of a descriptor. -/
def Ring.setStatus (r : Ring) (i : ℕ) (status : UInt8) : Ring :=
  { r with txDesc := Function.update r.txDesc i { r.txDesc i with status := status } }

/-- Where a call of `do_send_packet` is that uses the descriptor `i`. -/
inductive Pc : Type where
  /-- at the check that the descriptor is free -/
  | claimed (i data length : ℕ)
  /-- before the descriptor is filled in -/
  | free (i data length : ℕ)
  /-- before `TDT` is written -/
  | filled (i : ℕ)
  /-- at the test of the loop -/
  | test (i timeout : ℕ)
  /-- the processor is halted -/
  | halted (i timeout : ℕ)
  /-- behind the loop -/
  | completed (i : ℕ)
  /-- before the status is cleared -/
  | done (i : ℕ)
  /-- at the last check -/
  | cleared

/-- A call of `do_send_packet` starts, for the packet at the physical address `data`. -/
def driverCall (linkUp : Bool) (data length : ℕ) (r : Ring) : Outcome (Ring × Option Pc) := do
  require (length ≤ 1500)
  if linkUp then
    pure ({ r with txTail := (r.txTail + 1) % numTxDescriptors }, some (.claimed r.txTail data length))
  else
    -- the link is not up: the packet is dropped
    pure (r, none)

/-- One access of the driver: the ring after it, and where the call is then. -/
def driverStep (r : Ring) : Pc → Outcome (Ring × Option Pc)
  | .claimed i data length => do
    require ((r.txDesc i).status = 0)
    pure (r, some (.free i data length))
  | .free i data length =>
    pure ({ r with txDesc := Function.update r.txDesc i ⟨data, length ||| txdCmd, 0⟩ }, some (.filled i))
  | .filled i => pure ({ r with tdt0 := r.txTail }, some (.test i 100))
  | .test i timeout =>
    if (r.txDesc i).status = 0 then pure (r, some (.halted i timeout)) else pure (r, some (.completed i))
  | .halted _ 0 => pure (r, none)
  | .halted i (timeout + 1) => pure (r, some (.test i timeout))
  | .completed i => do
    require ((r.txDesc i).status = txdStatDd)
    pure (r, some (.done i))
  | .done i => pure (r.setStatus i 0, some .cleared)
  | .cleared => do
    require (r.tdh0 = r.tdt0)
    pure (r, none)

/-- The card completes the descriptor at `TDH`. -/
def nicComplete (r : Ring) : Ring :=
  { r.setStatus r.tdh0 txdStatDd with tdh0 := (r.tdh0 + 1) % numTxDescriptors }

/-! ## Runs of both -/

/-- What became of the send that used a descriptor last. -/
inductive Use : Type where
  /-- there was none -/
  | unused
  /-- the driver waits for it -/
  | waiting
  /-- it was completed while the driver waited -/
  | completed
  /-- and the driver saw it -/
  | inTime
  /-- the driver gave up -/
  | timedOut
  /-- it was completed, but the driver gave up before it looked again -/
  | late
  deriving DecidableEq

/-- The driver and the card, and what became of the sends. -/
structure System : Type where
  /-- the ring -/
  ring : Ring
  /-- the call of `do_send_packet`, if there is one -/
  driver : Option Pc
  /-- the last use of each descriptor -/
  use : ℕ → Use

/-- What an access of the driver means for its send. -/
def noteDriver (use : ℕ → Use) : Pc → ℕ → Use
  | .free i _ _ => Function.update use i .waiting
  | .halted i 0 => Function.update use i (if use i = .completed then .late else .timedOut)
  | .done i => Function.update use i .inTime
  | _ => use

/-- What the completion of a descriptor means for its send. -/
def noteComplete (use : ℕ → Use) (i : ℕ) : ℕ → Use :=
  Function.update use i (if use i = .timedOut then .late else .completed)

/-- The state after `reset`. -/
def Init (s : System) : Prop := s = ⟨reset, none, fun _ => .unused⟩

/-- A packet is sent where `C` holds, or the driver or the card takes a step. -/
inductive Step (C : System → Bool → Prop) : System → System → Prop where
  /-- `do_send_packet` is called -/
  | call {s : System} {linkUp : Bool} {data length : ℕ} {r : Ring} {pc : Option Pc} : s.driver = none →
      C s linkUp → driverCall linkUp data length s.ring = done (r, pc) →
      Step C s { s with ring := r, driver := pc }
  /-- the call goes on -/
  | driver {s : System} {pc : Pc} {r : Ring} {pc' : Option Pc} : s.driver = some pc →
      driverStep s.ring pc = done (r, pc') →
      Step C s { ring := r, driver := pc', use := noteDriver s.use pc }
  /-- the card completes a descriptor -/
  | complete {s : System} : s.ring.tdh0 ≠ s.ring.tdt0 →
      Step C s { s with ring := nicComplete s.ring, use := noteComplete s.use s.ring.tdh0 }

/-- The states of all runs. -/
abbrev Reachable : System → Prop := Reach Init (Step fun _ _ => True)

/-! ## The invariant -/

/-- The descriptor belongs to the card. -/
def Ring.InWindow (r : Ring) (j : ℕ) : Prop := (j + 16 - r.tdh0) % 16 < (r.tdt0 + 16 - r.tdh0) % 16

/-- The descriptor of the send that the driver waits for. -/
def inFlight : Option Pc → Option ℕ
  | some (.filled i) | some (.test i _) | some (.halted i _) | some (.completed i) | some (.done i) => some i
  | _ => none

/-- The status of a descriptor after its last use. -/
def Use.Allows (status : UInt8) : Use → Prop
  | unused => status = 0
  | waiting => status = 0
  | completed => status = txdStatDd
  | inTime => status = 0
  | timedOut => status = 0
  | late => status = txdStatDd

/-- The descriptor `i` is the last one that the card was given; it is complete if the card has none. -/
def Waits (r : Ring) (i : ℕ) : Prop :=
  r.tdt0 = (i + 1) % 16 ∧ ((r.txDesc i).status = 0 ∨ (r.txDesc i).status = txdStatDd ∧ r.tdh0 = r.tdt0)

/-- Where the registers are during a call. -/
def DriverInv (r : Ring) : Option Pc → Prop
  | none => r.tdt0 = r.txTail
  | some (.claimed i _ _) => r.tdt0 = i ∧ r.txTail = (i + 1) % 16
  | some (.free i _ _) => r.tdt0 = i ∧ r.txTail = (i + 1) % 16
  | some (.filled i) => r.tdt0 = i ∧ r.txTail = (i + 1) % 16 ∧ (r.txDesc i).status = 0
  | some (.test i _) => r.tdt0 = r.txTail ∧ Waits r i
  | some (.halted i _) => r.tdt0 = r.txTail ∧ Waits r i
  | some (.completed i) => r.tdt0 = r.txTail ∧ (r.txDesc i).status = txdStatDd ∧ r.tdh0 = r.tdt0
  | some (.done i) => r.tdt0 = r.txTail ∧ (r.txDesc i).status = txdStatDd ∧ r.tdh0 = r.tdt0
  | some .cleared => r.tdt0 = r.txTail ∧ r.tdh0 = r.tdt0

/-- What holds in every state. -/
structure Inv (s : System) : Prop where
  /-- the indices are in the ring -/
  bounds : s.ring.txTail < 16 ∧ s.ring.tdh0 < 16 ∧ s.ring.tdt0 < 16
  /-- the call of the driver -/
  driver : DriverInv s.ring s.driver
  /-- the card has descriptors of sends that are not complete -/
  window : ∀ j < 16, s.ring.InWindow j → s.use j = .timedOut ∨ s.use j = .waiting
  /-- the driver waits for one -/
  waiting : ∀ j, s.use j = .waiting ∨ s.use j = .completed ↔ inFlight s.driver = some j
  /-- this is one of the ring -/
  current : ∀ i, inFlight s.driver = some i → i < 16
  /-- the status of each descriptor -/
  status : ∀ j < 16, (s.use j).Allows (s.ring.txDesc j).status

namespace Inv

variable {s : System}

theorem init (h : Init s) : Inv s := by
  subst h
  refine ⟨by decide, rfl, ?_, ?_, ?_, fun j _ => rfl⟩
  · intro j _ hj
    exact absurd hj (Nat.not_lt_zero _)
  · intro j
    simp [inFlight]
  · rintro i ⟨⟩

/-- Only the place of the call changes. -/
theorem move (h : Inv s) {pc : Option Pc} (hdriver : DriverInv s.ring pc) (hcurrent : inFlight pc = inFlight s.driver) :
    Inv { s with driver := pc } :=
  ⟨h.bounds, hdriver, h.window, fun j => by rw [hcurrent]; exact h.waiting j, by rw [hcurrent]; exact h.current,
    h.status⟩

/-- A call starts. -/
theorem call (h : Inv s) (hd : s.driver = none) {linkUp : Bool} {data length : ℕ} {r : Ring} {pc : Option Pc}
    (hcall : driverCall linkUp data length s.ring = done (r, pc)) : Inv { s with ring := r, driver := pc } := by
  obtain ⟨-, hcall⟩ := require_bind_eq_done.mp hcall
  have hdriver := h.driver
  rw [hd] at hdriver
  cases linkUp with
  | false =>
    obtain ⟨rfl, rfl⟩ := Prod.mk.inj (Outcome.done.inj hcall)
    exact h.move hdriver (by rw [hd])
  | true =>
    obtain ⟨rfl, rfl⟩ := Prod.mk.inj (Outcome.done.inj hcall)
    have hwaiting := h.waiting
    have hcurrent := h.current
    rw [hd] at hwaiting hcurrent
    exact ⟨⟨Nat.mod_lt _ (by decide), h.bounds.2⟩, ⟨hdriver, rfl⟩, h.window, hwaiting, hcurrent, h.status⟩

/-- The driver fills in the descriptor. -/
theorem fill (h : Inv s) {i data length : ℕ} (hd : s.driver = some (.free i data length)) :
    Inv { ring := { s.ring with txDesc := Function.update s.ring.txDesc i ⟨data, length ||| txdCmd, 0⟩ }
          driver := some (.filled i)
          use := Function.update s.use i .waiting } := by
  obtain ⟨htdt0, htail⟩ : s.ring.tdt0 = i ∧ s.ring.txTail = (i + 1) % 16 := by
    have hdriver := h.driver
    rwa [hd] at hdriver
  have hwaiting := h.waiting
  rw [hd] at hwaiting
  refine ⟨h.bounds, ⟨htdt0, htail, by simp⟩, fun j hj hin => ?_, fun j => ?_, ?_, fun j hj => ?_⟩
  · by_cases hji : j = i
    · subst hji
      exact .inr (Function.update_self ..)
    · simp only [Function.update_of_ne hji]
      exact h.window j hj hin
  · by_cases hji : j = i
    · subst hji
      simp [inFlight]
    · simp only [Function.update_of_ne hji, hwaiting j, inFlight]
      simp [Ne.symm hji]
  · rintro j hj
    obtain rfl : i = j := Option.some.inj hj
    exact htdt0 ▸ h.bounds.2.2
  · by_cases hji : j = i
    · subst hji
      simp [Use.Allows]
    · simp only [Function.update_of_ne hji]
      exact h.status j hj

/-- The driver gives it to the card. -/
theorem give (h : Inv s) {i : ℕ} (hd : s.driver = some (.filled i)) :
    Inv { s with ring := { s.ring with tdt0 := s.ring.txTail }, driver := some (.test i 100) } := by
  obtain ⟨htdt0, htail, hstatus⟩ : s.ring.tdt0 = i ∧ s.ring.txTail = (i + 1) % 16 ∧ _ := by
    have hdriver := h.driver
    rwa [hd] at hdriver
  have hwaiting := h.waiting
  have hcurrent := h.current
  rw [hd] at hwaiting hcurrent
  obtain ⟨hbound, hbound', hbound''⟩ := h.bounds
  refine ⟨⟨hbound, hbound', hbound⟩, ⟨rfl, htail, .inl hstatus⟩, fun j hj hin => ?_, hwaiting, hcurrent, h.status⟩
  by_cases hji : j = i
  · subst hji
    have hdd := h.status j hj
    rcases (hwaiting j).mpr rfl with huse | huse
    · exact .inr huse
    · rw [huse, Use.Allows, hstatus] at hdd
      exact absurd hdd (by decide)
  · refine h.window j hj ?_
    simp only [Ring.InWindow, htail] at hin ⊢
    omega

/-- The send at hand is the only one in flight. -/
theorem use_ne (h : Inv s) {i j : ℕ} (hi : inFlight s.driver = some i) (hji : j ≠ i) :
    s.use j ≠ .waiting ∧ s.use j ≠ .completed := by
  constructor
  all_goals
    intro huse
    have hj := (h.waiting j).mp (by simp [huse])
    rw [hi] at hj
    exact hji (Option.some.inj hj).symm

/-- The call comes to an end for the descriptor. -/
theorem close (h : Inv s) {i : ℕ} {r : Ring} {pc : Option Pc} {use : Use} (hi : inFlight s.driver = some i)
    (hbounds : r.txTail < 16 ∧ r.tdh0 < 16 ∧ r.tdt0 < 16) (hdriver : DriverInv r pc) (hpc : inFlight pc = none)
    (hwindow : ∀ j, r.InWindow j → s.ring.InWindow j ∧ (j = i → use = .timedOut))
    (huse : use ≠ .waiting ∧ use ≠ .completed) (hstatus : use.Allows (r.txDesc i).status)
    (hothers : ∀ j ≠ i, r.txDesc j = s.ring.txDesc j) :
    Inv ⟨r, pc, Function.update s.use i use⟩ := by
  refine ⟨hbounds, hdriver, fun j hj hin => ?_, fun j => ?_, ?_, fun j hj => ?_⟩
  · obtain ⟨hin, hlast⟩ := hwindow j hin
    by_cases hji : j = i
    · subst hji
      exact .inl (by simp [hlast rfl])
    · simp only [Function.update_of_ne hji]
      exact h.window j hj hin
  · rw [hpc]
    by_cases hji : j = i
    · subst hji
      simp [huse.1, huse.2]
    · have hne := h.use_ne hi hji
      simp [Function.update_of_ne hji, hne.1, hne.2]
  · rw [hpc]
    rintro j ⟨⟩
  · by_cases hji : j = i
    · subst hji
      simpa using hstatus
    · simp only [Function.update_of_ne hji, hothers j hji]
      exact h.status j hj

/-- The driver gives up. -/
theorem giveUp (h : Inv s) {i : ℕ} (hd : s.driver = some (.halted i 0)) :
    Inv { s with driver := none
                 use := Function.update s.use i (if s.use i = .completed then .late else .timedOut) } := by
  obtain ⟨htdt0, hwaits⟩ : s.ring.tdt0 = s.ring.txTail ∧ Waits s.ring i := by
    have hdriver := h.driver
    rwa [hd] at hdriver
  have hi : inFlight s.driver = some i := by rw [hd]; rfl
  have hstatus := h.status i (h.current i hi)
  refine h.close hi h.bounds htdt0 rfl (fun j hin => ⟨hin, ?_⟩) ?_ ?_ fun _ _ => rfl
  · rintro rfl
    rcases (h.waiting j).mpr hi with huse | huse
    · rw [if_neg (by rw [huse]; decide)]
    · rw [huse, Use.Allows] at hstatus
      rcases hwaits.2 with hzero | ⟨-, hempty⟩
      · rw [hstatus] at hzero
        exact absurd hzero (by decide)
      · simp [Ring.InWindow, hempty] at hin
  · split_ifs
    · decide
    · decide
  · rcases (h.waiting i).mpr hi with huse | huse
    · rw [if_neg (by rw [huse]; decide)]
      rwa [huse] at hstatus
    · rw [if_pos huse]
      rwa [huse] at hstatus

/-- The driver clears the status. -/
theorem reclaim (h : Inv s) {i : ℕ} (hd : s.driver = some (.done i)) :
    Inv { ring := s.ring.setStatus i 0, driver := some .cleared, use := Function.update s.use i .inTime } := by
  obtain ⟨htdt0, -, hempty⟩ : s.ring.tdt0 = s.ring.txTail ∧ _ ∧ s.ring.tdh0 = s.ring.tdt0 := by
    have hdriver := h.driver
    rwa [hd] at hdriver
  have hi : inFlight s.driver = some i := by rw [hd]; rfl
  refine h.close hi h.bounds ⟨htdt0, hempty⟩ rfl (fun j hin => ?_) (by decide) ?_ fun j hj => ?_
  · simp [Ring.InWindow, Ring.setStatus, hempty] at hin
  · simp [Ring.setStatus, Use.Allows]
  · exact Function.update_of_ne hj ..

/-- The card completes the descriptor of the send that the driver waits for, or of one that it gave
up. -/
theorem driverInv_complete (h : Inv s) (hne : s.ring.tdh0 ≠ s.ring.tdt0) :
    DriverInv (nicComplete s.ring) s.driver := by
  have hdriver := h.driver
  obtain ⟨hbound, hbound', hbound''⟩ := h.bounds
  have hother : ∀ i, i ≠ s.ring.tdh0 → ((nicComplete s.ring).txDesc i).status = (s.ring.txDesc i).status := by
    intro i hi
    exact congrArg TxDesc.status (Function.update_of_ne hi ..)
  have hself : ((nicComplete s.ring).txDesc s.ring.tdh0).status = txdStatDd := by
    simp [nicComplete, Ring.setStatus]
  have hwaits : ∀ i < 16, Waits s.ring i → Waits (nicComplete s.ring) i := by
    rintro i hi ⟨htdt0, hstatus⟩
    refine ⟨htdt0, ?_⟩
    by_cases hlast : i = s.ring.tdh0
    · right
      subst hlast
      exact ⟨hself, htdt0.symm⟩
    · rw [hother i hlast]
      rcases hstatus with hzero | ⟨-, hempty⟩
      · exact .inl hzero
      · exact absurd hempty hne
  cases hd : s.driver with
  | none =>
    rw [hd] at hdriver
    exact hdriver
  | some pc =>
    rw [hd] at hdriver
    cases pc with
    | claimed i data length => exact hdriver
    | free i data length => exact hdriver
    | filled i =>
      obtain ⟨htdt0, htail, hzero⟩ := hdriver
      exact ⟨htdt0, htail, (hother i (by rintro rfl; exact hne htdt0.symm)).trans hzero⟩
    | test i timeout => exact ⟨hdriver.1, hwaits i (h.current i (by rw [hd]; rfl)) hdriver.2⟩
    | halted i timeout => exact ⟨hdriver.1, hwaits i (h.current i (by rw [hd]; rfl)) hdriver.2⟩
    | completed i => exact absurd hdriver.2.2 hne
    | done i => exact absurd hdriver.2.2 hne
    | cleared => exact absurd hdriver.2 hne

/-- The card has one descriptor less. -/
theorem inWindow_complete {r : Ring} (hbounds : r.tdh0 < 16 ∧ r.tdt0 < 16) (hne : r.tdh0 ≠ r.tdt0) {j : ℕ} (hj : j < 16)
    (hin : (nicComplete r).InWindow j) : r.InWindow j ∧ j ≠ r.tdh0 := by
  simp only [Ring.InWindow, nicComplete, Ring.setStatus, numTxDescriptors] at hin ⊢
  omega

theorem complete (h : Inv s) (hne : s.ring.tdh0 ≠ s.ring.tdt0) :
    Inv { s with ring := nicComplete s.ring, use := noteComplete s.use s.ring.tdh0 } := by
  obtain ⟨hbound, hbound', hbound''⟩ := h.bounds
  have hin : s.ring.InWindow s.ring.tdh0 := by
    rw [Ring.InWindow]
    omega
  have huse := h.window _ hbound' hin
  have hsame : ∀ j ≠ s.ring.tdh0, noteComplete s.use s.ring.tdh0 j = s.use j := fun j hj =>
    Function.update_of_ne hj ..
  refine ⟨⟨hbound, Nat.mod_lt _ (by decide), hbound''⟩, h.driverInv_complete hne, fun j hj hin' => ?_, fun j => ?_,
    h.current, fun j hj => ?_⟩
  · obtain ⟨hin', hjne⟩ := inWindow_complete ⟨hbound', hbound''⟩ hne hj hin'
    dsimp only
    rw [hsame j hjne]
    exact h.window j hj hin'
  · by_cases hj : j = s.ring.tdh0
    · subst hj
      rw [← h.waiting]
      rcases huse with huse | huse
      · simp [noteComplete, huse]
      · simp [noteComplete, huse]
    · dsimp only
      rw [hsame j hj]
      exact h.waiting j
  · by_cases hj' : j = s.ring.tdh0
    · subst hj'
      have hdd : ((nicComplete s.ring).txDesc s.ring.tdh0).status = txdStatDd := by
        simp [nicComplete, Ring.setStatus]
      rcases huse with huse | huse
      · simpa [noteComplete, huse, Use.Allows] using hdd
      · simpa [noteComplete, huse, Use.Allows] using hdd
    · have hdesc : (nicComplete s.ring).txDesc j = s.ring.txDesc j := Function.update_of_ne hj' ..
      dsimp only
      rw [hsame j hj', hdesc]
      exact h.status j hj

/-- **The driver goes on.** -/
theorem driverGoes (h : Inv s) {pc : Pc} (hd : s.driver = some pc) {r : Ring} {pc' : Option Pc}
    (hstep : driverStep s.ring pc = done (r, pc')) :
    Inv { ring := r, driver := pc', use := noteDriver s.use pc } := by
  have hdriver := h.driver
  rw [hd] at hdriver
  cases pc with
  | claimed i data length =>
    obtain ⟨-, hstep⟩ := require_bind_eq_done.mp hstep
    obtain ⟨rfl, rfl⟩ := Prod.mk.inj (Outcome.done.inj hstep)
    exact h.move hdriver (by rw [hd]; rfl)
  | free i data length =>
    obtain ⟨rfl, rfl⟩ := Prod.mk.inj (Outcome.done.inj hstep)
    exact h.fill hd
  | filled i =>
    obtain ⟨rfl, rfl⟩ := Prod.mk.inj (Outcome.done.inj hstep)
    exact h.give hd
  | test i timeout =>
    rw [driverStep] at hstep
    split_ifs at hstep with hzero
    · obtain ⟨rfl, rfl⟩ := Prod.mk.inj (Outcome.done.inj hstep)
      exact h.move hdriver (by rw [hd]; rfl)
    · obtain ⟨rfl, rfl⟩ := Prod.mk.inj (Outcome.done.inj hstep)
      obtain ⟨htdt0, -, hwaits⟩ := hdriver
      exact h.move ⟨htdt0, hwaits.resolve_left hzero⟩ (by rw [hd]; rfl)
  | halted i timeout =>
    cases timeout with
    | zero =>
      obtain ⟨rfl, rfl⟩ := Prod.mk.inj (Outcome.done.inj hstep)
      exact h.giveUp hd
    | succ timeout =>
      obtain ⟨rfl, rfl⟩ := Prod.mk.inj (Outcome.done.inj hstep)
      exact h.move hdriver (by rw [hd]; rfl)
  | completed i =>
    obtain ⟨-, hstep⟩ := require_bind_eq_done.mp hstep
    obtain ⟨rfl, rfl⟩ := Prod.mk.inj (Outcome.done.inj hstep)
    exact h.move hdriver (by rw [hd]; rfl)
  | done i =>
    obtain ⟨rfl, rfl⟩ := Prod.mk.inj (Outcome.done.inj hstep)
    exact h.reclaim hd
  | cleared =>
    obtain ⟨-, hstep⟩ := require_bind_eq_done.mp hstep
    obtain ⟨rfl, rfl⟩ := Prod.mk.inj (Outcome.done.inj hstep)
    exact h.move hdriver.1 (by rw [hd]; rfl)

theorem step {C : System → Bool → Prop} {t : System} (h : Inv s) (hst : Step C s t) : Inv t := by
  cases hst with
  | call hd _ hcall => exact h.call hd hcall
  | driver hd hstep => exact h.driverGoes hd hstep
  | complete hne => exact h.complete hne

theorem of_reachable {C : System → Bool → Prop} (hs : Reach Init (Step C) s) : Inv s :=
  hs.invariant Inv (fun _ => init) fun _ _ => step

/-- **The checks** of a call: only the first one can fail. -/
theorem driverStep_abort (h : Inv s) {pc : Pc} (hd : s.driver = some pc) :
    driverStep s.ring pc = abort ↔ ∃ i data length, pc = .claimed i data length ∧ s.use i = .late := by
  have hdriver := h.driver
  rw [hd] at hdriver
  cases pc with
  | claimed i data length =>
    obtain ⟨rfl, -⟩ := hdriver
    have hwaiting := h.waiting s.ring.tdt0
    have hstatus := h.status s.ring.tdt0 h.bounds.2.2
    rw [hd] at hwaiting
    have hcheck : driverStep s.ring (.claimed s.ring.tdt0 data length) = abort ↔
        (s.ring.txDesc s.ring.tdt0).status ≠ 0 := by
      rw [driverStep, bind_eq_abort, require_eq_abort]
      simp
    have hlate : (s.ring.txDesc s.ring.tdt0).status ≠ 0 ↔ s.use s.ring.tdt0 = .late := by
      cases huse : s.use s.ring.tdt0 with
      | waiting => exact absurd (hwaiting.mp (.inl huse)) (by simp [inFlight])
      | completed => exact absurd (hwaiting.mp (.inr huse)) (by simp [inFlight])
      | late =>
        rw [huse, Use.Allows] at hstatus
        simp [hstatus, txdStatDd]
      | unused =>
        rw [huse, Use.Allows] at hstatus
        simp [hstatus]
      | inTime =>
        rw [huse, Use.Allows] at hstatus
        simp [hstatus]
      | timedOut =>
        rw [huse, Use.Allows] at hstatus
        simp [hstatus]
    rw [hcheck, hlate]
    simp
  | completed i =>
    have hdd : (s.ring.txDesc i).status = txdStatDd := hdriver.2.1
    simp [driverStep, hdd]
  | cleared =>
    have hempty : s.ring.tdh0 = s.ring.tdt0 := hdriver.2
    simp [driverStep, hempty]
  | test i timeout =>
    rw [driverStep]
    split_ifs
    · simp
    · simp
  | halted i timeout =>
    cases timeout with
    | zero => simp [driverStep]
    | succ timeout => simp [driverStep]
  | free i data length => simp [driverStep]
  | filled i => simp [driverStep]
  | done i => simp [driverStep]

end Inv

/-! ## Sends -/

/-- The send that used the descriptor at `tx_tail_` last was not given up and completed afterwards. -/
def NotLate (s : System) (linkUp : Bool) : Prop := linkUp = true → s.use s.ring.txTail ≠ .late

/-- A call does not get back to its start. -/
theorem driverStep_ne_claimed {r r' : Ring} {pc : Pc} {i data length : ℕ} :
    driverStep r pc ≠ done (r', some (.claimed i data length)) := by
  intro hstep
  cases pc with
  | claimed j data' length' =>
    obtain ⟨-, hstep⟩ := require_bind_eq_done.mp hstep
    cases hstep
  | completed j =>
    obtain ⟨-, hstep⟩ := require_bind_eq_done.mp hstep
    cases hstep
  | cleared =>
    obtain ⟨-, hstep⟩ := require_bind_eq_done.mp hstep
    cases hstep
  | test j timeout =>
    rw [driverStep] at hstep
    split_ifs at hstep
    · cases hstep
    · cases hstep
  | halted j timeout =>
    cases timeout with
    | zero => cases hstep
    | succ timeout => cases hstep
  | free j data' length' => cases hstep
  | filled j => cases hstep
  | done j => cases hstep

/-- A descriptor that was not completed late stays so until it is checked. -/
theorem claimed_ne_late {s : System} (hs : Reach Init (Step NotLate) s) {i data length : ℕ}
    (hd : s.driver = some (.claimed i data length)) : s.use i ≠ .late := by
  induction hs with
  | start h =>
    subst h
    cases hd
  | @step s t hs hst ih =>
    have hinv := Inv.of_reachable hs
    cases hst with
    | @call linkUp _ _ _ _ _ hlate hcall =>
      obtain ⟨-, hcall⟩ := require_bind_eq_done.mp hcall
      cases linkUp with
      | false =>
        obtain ⟨rfl, rfl⟩ := Prod.mk.inj (Outcome.done.inj hcall)
        cases hd
      | true =>
        obtain ⟨rfl, rfl⟩ := Prod.mk.inj (Outcome.done.inj hcall)
        obtain ⟨rfl, -, -⟩ := Pc.claimed.inj (Option.some.inj hd)
        exact hlate rfl
    | driver _ hstep =>
      dsimp only at hd
      rw [hd] at hstep
      exact absurd hstep driverStep_ne_claimed
    | complete hne =>
      have hdriver := hinv.driver
      rw [hd] at hdriver
      dsimp only
      rw [noteComplete, Function.update_of_ne (by rw [← hdriver.1]; exact hne.symm)]
      exact ih hd

/-- **Sends do not fail**, in every run in which no packet is sent while the link is up and the send that
used the descriptor at `tx_tail_` last was given up and completed afterwards: every check of the
driver passes. From each of these states, a send with at most 1500 bytes gets to the check of its
descriptor, which fails if and only if this is not so; if the link is not up the packet is
dropped. -/
theorem send_returns {s : System} (hs : Reach Init (Step NotLate) s) :
    (∀ pc, s.driver = some pc → driverStep s.ring pc ≠ abort) ∧
      (s.driver = none → ∀ data length, length ≤ 1500 →
        driverCall false data length s.ring = done (s.ring, none) ∧
        ∃ r, driverCall true data length s.ring = done (r, some (.claimed s.ring.txTail data length)) ∧
          (driverStep r (.claimed s.ring.txTail data length) = abort ↔ s.use s.ring.txTail = .late)) := by
  have hinv := Inv.of_reachable hs
  refine ⟨fun pc hd habort => ?_, fun hd data length hlength => ?_⟩
  · obtain ⟨i, data, length, rfl, hlate⟩ := (hinv.driverStep_abort hd).mp habort
    exact claimed_ne_late hs hd hlate
  · have hfalse : driverCall false data length s.ring = done (s.ring, none) := by
      rw [driverCall, require_pos hlength]
      rfl
    have htrue : driverCall true data length s.ring =
        done ({ s.ring with txTail := (s.ring.txTail + 1) % numTxDescriptors },
          some (.claimed s.ring.txTail data length)) := by
      rw [driverCall, require_pos hlength]
      rfl
    refine ⟨hfalse, _, htrue, ?_⟩
    have habort := (hinv.call hd htrue).driverStep_abort rfl
    rw [habort]
    constructor
    · rintro ⟨i, data', length', heq, hlate⟩
      obtain ⟨rfl, -, -⟩ := Pc.claimed.inj heq
      exact hlate
    · intro hlate
      exact ⟨_, _, _, rfl, hlate⟩

/-- The first packet is sent. -/
def firstSend : System :=
  ⟨{ reset with txTail := 1 }, some (.claimed 0 0 60), fun _ => .unused⟩

theorem firstSend_reachable : Reach Init (Step NotLate) firstSend :=
  .step (.start rfl) (@Step.call _ ⟨reset, none, fun _ => .unused⟩ true 0 60 _ _ rfl (fun _ => by decide) rfl)

/-- It does not fail. -/
theorem send_returns_first : (∀ pc, firstSend.driver = some pc → driverStep firstSend.ring pc ≠ abort) ∧
    (firstSend.driver = none → ∀ data length, length ≤ 1500 →
      driverCall false data length firstSend.ring = done (firstSend.ring, none) ∧
      ∃ r, driverCall true data length firstSend.ring =
          done (r, some (.claimed firstSend.ring.txTail data length)) ∧
        (driverStep r (.claimed firstSend.ring.txTail data length) = abort ↔
          firstSend.use firstSend.ring.txTail = .late)) :=
  send_returns firstSend_reachable

/-! ## A send that fails -/

/-- Steps of the driver and the card. -/
abbrev Steps : System → System → Prop := Relation.ReflTransGen (Step fun _ _ => True)

/-- No call is under way, every descriptor is complete, and `k` is the next one. -/
def idle (txDesc : ℕ → TxDesc) (use : ℕ → Use) (k : ℕ) : System :=
  ⟨⟨txDesc, k, k, k⟩, none, use⟩

/-- The driver waits for the descriptor `k`, the only one that the card has. -/
def waits (txDesc : ℕ → TxDesc) (use : ℕ → Use) (k timeout : ℕ) : System :=
  ⟨⟨txDesc, (k + 1) % numTxDescriptors, k, (k + 1) % numTxDescriptors⟩, some (.test k timeout), use⟩

section Runs

variable {txDesc : ℕ → TxDesc} {use : ℕ → Use} {k : ℕ}

/-- A packet is given to the card. -/
theorem steps_give (hfree : (txDesc k).status = 0) : Steps (idle txDesc use k)
    (waits (Function.update txDesc k ⟨0, 60 ||| txdCmd, 0⟩) (Function.update use k .waiting) k 100) := by
  have hcall : Step (fun _ _ => True) (idle txDesc use k)
      ⟨⟨txDesc, (k + 1) % numTxDescriptors, k, k⟩, some (.claimed k 0 60), use⟩ :=
    @Step.call _ _ true 0 60 _ _ rfl trivial rfl
  have hcheck : driverStep ⟨txDesc, (k + 1) % numTxDescriptors, k, k⟩ (.claimed k 0 60) =
      done (⟨txDesc, (k + 1) % numTxDescriptors, k, k⟩, some (.free k 0 60)) := by
    rw [driverStep, require_pos hfree]
    rfl
  have h₁ := (Relation.ReflTransGen.single hcall).tail (@Step.driver _ _ (.claimed k 0 60) _ _ rfl hcheck)
  have h₂ := h₁.tail (@Step.driver _ _ (.free k 0 60) _ _ rfl rfl)
  exact h₂.tail (@Step.driver _ _ (.filled k) _ _ rfl rfl)

/-- The driver gives up. -/
theorem steps_giveUp (hzero : (txDesc k).status = 0) (hwaiting : use k = .waiting) (timeout : ℕ) :
    Steps (waits txDesc use k timeout) { waits txDesc use k timeout with
      driver := none
      use := Function.update use k .timedOut } := by
  have hhalt : ∀ timeout, Step (fun _ _ => True) (waits txDesc use k timeout)
      { waits txDesc use k timeout with driver := some (.halted k timeout) } := by
    intro timeout
    have htest : driverStep (waits txDesc use k timeout).ring (.test k timeout) =
        done ((waits txDesc use k timeout).ring, some (.halted k timeout)) := by
      rw [driverStep]
      exact if_pos hzero
    exact @Step.driver _ _ (.test k timeout) _ _ rfl htest
  induction timeout with
  | zero =>
    have hlast := (Relation.ReflTransGen.single (hhalt 0)).tail (@Step.driver _ _ (.halted k 0) _ _ rfl rfl)
    have hne : ¬ use k = .completed := by
      rw [hwaiting]
      decide
    have hnote : noteDriver use (.halted k 0) = Function.update use k .timedOut := by
      rw [noteDriver, if_neg hne]
    exact hnote ▸ hlast
  | succ timeout ih =>
    exact ((Relation.ReflTransGen.single (hhalt _)).tail
      (@Step.driver _ _ (.halted k (timeout + 1)) _ _ rfl rfl)).trans ih

/-- The driver sees that the descriptor is done. -/
theorem steps_finish {r : Ring} {timeout : ℕ} (hdd : (r.txDesc k).status = txdStatDd) (hempty : r.tdh0 = r.tdt0) :
    Steps ⟨r, some (.test k timeout), use⟩ ⟨r.setStatus k 0, none, Function.update use k .inTime⟩ := by
  have htest : driverStep r (.test k timeout) = done (r, some (.completed k)) := by
    rw [driverStep, hdd]
    rfl
  have hdone : driverStep r (.completed k) = done (r, some (.done k)) := by
    rw [driverStep, require_pos hdd]
    rfl
  have hlast : driverStep (r.setStatus k 0) .cleared = done (r.setStatus k 0, none) := by
    have hempty' : (r.setStatus k 0).tdh0 = (r.setStatus k 0).tdt0 := hempty
    rw [driverStep, require_pos hempty']
    rfl
  have h₁ := Relation.ReflTransGen.single
    (@Step.driver (fun _ _ => True) ⟨r, some (.test k timeout), use⟩ _ _ _ rfl htest)
  have h₂ := h₁.tail (@Step.driver _ _ (.completed k) _ _ rfl hdone)
  have h₃ := h₂.tail (@Step.driver _ _ (.done k) _ _ rfl rfl)
  exact h₃.tail (@Step.driver _ _ .cleared _ _ rfl hlast)

/-- The next descriptor is another one. -/
theorem ne_next (k : ℕ) : k ≠ (k + 1) % numTxDescriptors := by
  rw [numTxDescriptors]
  omega

/-- **A send that is completed late** -/
theorem steps_late (hfree : (txDesc k).status = 0) :
    ∃ txDesc' use', Steps (idle txDesc use k) (idle txDesc' use' ((k + 1) % numTxDescriptors)) ∧
      (txDesc' k).status = txdStatDd ∧ ∀ j ≠ k, (txDesc' j).status = (txDesc j).status := by
  have hgiveUp := @steps_giveUp (Function.update txDesc k ⟨0, 60 ||| txdCmd, 0⟩)
    (Function.update use k .waiting) k (by simp) (by simp) 100
  refine ⟨_, _, ((steps_give hfree).trans hgiveUp).tail (.complete (ne_next k)), ?_, fun j hj => ?_⟩
  · simp [Ring.setStatus, waits]
  · simp [Ring.setStatus, waits, Function.update_of_ne hj]

/-- **A send that is completed in time** -/
theorem steps_inTime (hfree : (txDesc k).status = 0) :
    ∃ txDesc' use', Steps (idle txDesc use k) (idle txDesc' use' ((k + 1) % numTxDescriptors)) ∧
      ∀ j, (txDesc' j).status = (txDesc j).status := by
  have hcomplete := (@steps_give txDesc use k hfree).tail (.complete (ne_next k))
  have hfinish := @steps_finish
    (noteComplete (Function.update use k .waiting) k) k
    (nicComplete (waits (Function.update txDesc k ⟨0, 60 ||| txdCmd, 0⟩) (Function.update use k .waiting) k 100).ring)
    100 (by simp [nicComplete, Ring.setStatus, waits]) rfl
  refine ⟨_, _, hcomplete.trans hfinish, fun j => ?_⟩
  by_cases hj : j = k
  · subst hj
    simp [hfree]
  · simp [nicComplete, Ring.setStatus, waits, Function.update_of_ne hj]

/-- Some more of them -/
theorem steps_inTimes (n : ℕ) (hn : n < 16) (hfree : ∀ j < n, (txDesc (j + 1)).status = 0) :
    ∃ txDesc' use', Steps (idle txDesc use 1) (idle txDesc' use' ((n + 1) % numTxDescriptors)) ∧
      ∀ j, (txDesc' j).status = (txDesc j).status := by
  induction n with
  | zero => exact ⟨txDesc, use, .refl, fun _ => rfl⟩
  | succ n ih =>
    obtain ⟨txDesc', use', hsteps, hsame⟩ := ih (Nat.lt_of_succ_lt hn) fun j hj => hfree j (Nat.lt_succ_of_lt hj)
    have hmod : (n + 1) % numTxDescriptors = n + 1 := Nat.mod_eq_of_lt hn
    rw [hmod] at hsteps
    obtain ⟨txDesc'', use'', hsend, hsame'⟩ :=
      @steps_inTime txDesc' use' (n + 1) ((hsame _).trans (hfree n (Nat.lt_succ_self n)))
    exact ⟨txDesc'', use'', hsteps.trans hsend, fun j => (hsame' j).trans (hsame j)⟩

end Runs

/-- **A send fails.** The first send is given up and completed later, fifteen more are completed in
time, and then the next one is for the first descriptor again. The card has completed every
descriptor that it was given. -/
theorem send_fails_late : ∃ s pc, Reachable s ∧ s.driver = some pc ∧ s.ring.tdh0 = s.ring.tdt0 ∧
    driverStep s.ring pc = abort := by
  obtain ⟨txDesc, use, hlate, hdd, hothers⟩ := @steps_late reset.txDesc (fun _ => .unused) 0 rfl
  obtain ⟨txDesc', use', hsends, hsame⟩ := @steps_inTimes txDesc use 15 (by decide)
    fun j _ => hothers (j + 1) (Nat.succ_ne_zero j)
  have hreachable : Reachable (idle txDesc' use' 0) := Reach.steps (.start rfl) (hlate.trans hsends)
  have hcall : Step (fun _ _ => True) (idle txDesc' use' 0)
      ⟨⟨txDesc', 1, 0, 0⟩, some (.claimed 0 0 60), use'⟩ :=
    @Step.call _ _ true 0 60 _ _ rfl trivial rfl
  refine ⟨_, _, .step hreachable hcall, rfl, rfl, ?_⟩
  rw [driverStep, require_neg]
  · rfl
  · rw [hsame, hdd]
    decide

end Attos.Net.I825x.Transmit
