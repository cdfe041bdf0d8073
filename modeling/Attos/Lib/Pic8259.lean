import Mathlib.Tactic

/-!
# A pair of 8259A interrupt controllers

A controller has eight lines. A request on a line is latched, and goes to the processor if the line is
not masked and no line of the same or a higher priority is in service. The processor acknowledges it,
gets a vector, and the line is in service until a command ends it. The output of the second controller
is line 2 of the first one.

The controllers are in fully nested mode. Rotating priorities, polling, special masks, and requests
that are taken back before they are acknowledged are left out.
-/

namespace Lib.Pic8259

/-! ## One controller -/

/-- What is written to a controller to set it up. -/
structure Setup : Type where
  /-- the lines that are masked -/
  imr : BitVec 8
  /-- the vector of line 0 -/
  vector : BitVec 8
  /-- the lines with another controller, or the line of another controller that this one is at -/
  cascade : BitVec 8
  /-- lines are not kept in service -/
  autoEoi : Bool
  /-- the initialization word that comes next, if any -/
  expects : ℕ
  /-- there is no third word -/
  single : Bool
  /-- there is a fourth word -/
  icw4 : Bool
  deriving DecidableEq

/-- A controller. -/
structure Chip : Type where
  /-- what is set up -/
  setup : Setup
  /-- the lines with a request -/
  irr : BitVec 8
  /-- the lines in service -/
  isr : BitVec 8
  deriving DecidableEq

/-- The line of a set with the highest priority. -/
def highest (lines : BitVec 8) : Option (Fin 8) := (List.finRange 8).find? fun i => lines.getLsbD i

local instance neZeroEight : NeZero 8 := ⟨Nat.succ_ne_zero 7⟩

/-- A line, as a set. -/
def bit (i : Fin 8) : BitVec 8 := 1#8 <<< i.val

namespace Chip

/-- The line that the processor is interrupted for. -/
def request (c : Chip) : Option (Fin 8) := do
  let i ← highest (c.irr &&& ~~~c.setup.imr)
  if ∃ j ≤ i, c.isr.getLsbD j then none else pure i

/-- The processor acknowledges a line. -/
def acknowledge (c : Chip) (i : Fin 8) : Chip :=
  { c with irr := c.irr &&& ~~~bit i, isr := if c.setup.autoEoi then c.isr else c.isr ||| bit i }

/-- The line in service with the highest priority is not in service any more. -/
def eoi (c : Chip) : Chip :=
  match highest c.isr with
  | some i => { c with isr := c.isr &&& ~~~bit i }
  | none => c

/-- Write to the command port. -/
def command (c : Chip) (v : BitVec 8) : Chip :=
  if v.getLsbD 4 then
    { c with
      setup := { c.setup with imr := 0, autoEoi := false, expects := 2, single := v.getLsbD 1, icw4 := v.getLsbD 0 }
      irr := 0 }
  else if v = 0x20 then c.eoi
  else c

/-- Write to the data port. -/
def data (c : Chip) (v : BitVec 8) : Chip :=
  { c with
    setup :=
      if c.setup.expects = 2 then
        { c.setup with
          vector := v &&& 0xf8
          expects := if c.setup.single then if c.setup.icw4 then 4 else 0 else 3 }
      else if c.setup.expects = 3 then { c.setup with cascade := v, expects := if c.setup.icw4 then 4 else 0 }
      else if c.setup.expects = 4 then { c.setup with autoEoi := v.getLsbD 1, expects := 0 }
      else { c.setup with imr := v } }

end Chip

/-! ## Two of them -/

/-- The controllers. -/
structure Pair : Type where
  /-- the one that the processor sees -/
  master : Chip
  /-- the one at line 2 of it -/
  slave : Chip
  deriving DecidableEq

namespace Pair

/-- The first controller, with the output of the second one. -/
def wired (p : Pair) : Chip :=
  { p.master with irr := if p.slave.request.isSome then p.master.irr ||| bit 2 else p.master.irr &&& ~~~bit 2 }

/-- The line of the pair for a line of the first controller. -/
def first (i : Fin 8) : Fin 16 := ⟨i, by omega⟩

/-- The line of the pair for a line of the second controller. -/
def second (i : Fin 8) : Fin 16 := ⟨8 + i, by omega⟩

/-- The rank of a line of the pair. The one with the lowest rank has the highest priority, and the lines of
the second controller come in at line 2 of the first one. -/
def rank (irq : Fin 16) : ℕ := if irq.val < 2 then irq else if irq.val < 8 then irq + 8 else irq - 6

/-- The processor acknowledges an interrupt: the line, the vector, and what it leaves. -/
def acknowledge (p : Pair) : Option (Fin 16 × BitVec 8 × Pair) := do
  let i ← p.wired.request
  if p.master.setup.cascade.getLsbD i then
    let j ← p.slave.request
    pure (second j, p.slave.setup.vector + BitVec.ofNat 8 j, ⟨p.wired.acknowledge i, p.slave.acknowledge j⟩)
  else pure (first i, p.master.setup.vector + BitVec.ofNat 8 i, ⟨p.wired.acknowledge i, p.slave⟩)

/-- A device raises a line. -/
def raise (p : Pair) (irq : Fin 16) : Pair :=
  if h : irq.val < 8 then { p with master := { p.master with irr := p.master.irr ||| bit ⟨irq, h⟩ } }
  else { p with slave := { p.slave with irr := p.slave.irr ||| bit ⟨irq - 8, by omega⟩ } }

/-- There is a request on a line. -/
def requested (p : Pair) (irq : Fin 16) : Bool :=
  if irq.val < 8 then p.master.irr.getLsbD irq else p.slave.irr.getLsbD (irq.val - 8)

/-- A line is masked. -/
def masked (p : Pair) (irq : Fin 16) : Bool :=
  if irq.val < 8 then p.master.setup.imr.getLsbD irq else p.slave.setup.imr.getLsbD (irq.val - 8)

/-- Write to a port. -/
def outb (p : Pair) (port : ℕ) (v : BitVec 8) : Pair :=
  if port = 0x20 then { p with master := p.master.command v }
  else if port = 0x21 then { p with master := p.master.data v }
  else if port = 0xA0 then { p with slave := p.slave.command v }
  else if port = 0xA1 then { p with slave := p.slave.data v }
  else p

/-- Read from a data port. -/
def inb (p : Pair) (port : ℕ) : BitVec 8 := if port = 0x21 then p.master.setup.imr else p.slave.setup.imr

end Pair

/-! ## Lemmas -/

section Lines

variable {lines : BitVec 8} {i : Fin 8}

theorem highest_bit (i : Fin 8) : highest (bit i) = some i := by
  revert i
  decide

theorem bit_and_not (i : Fin 8) : bit i &&& ~~~bit i = 0 := BitVec.and_not_self _

theorem getLsbD_of_highest (h : highest lines = some i) : lines.getLsbD i :=
  List.find?_some (p := fun i : Fin 8 => lines.getLsbD i) h

/-- No other line of the set has a higher priority. -/
theorem highest_le {j : Fin 8} (h : highest lines = some i) (hj : lines.getLsbD j) : i ≤ j := by
  obtain ⟨-, k, hk, hi, hbefore⟩ := List.find?_eq_some_iff_getElem.mp h
  rw [List.getElem_finRange] at hi
  obtain rfl : k = i.val := congrArg Fin.val hi
  by_contra hlt
  have hfalse := hbefore j (not_le.mp hlt)
  rw [List.getElem_finRange] at hfalse
  exact absurd hj ((Bool.not_eq_true' ..).mp hfalse ▸ Bool.false_ne_true)

theorem highest_isSome (h : lines.getLsbD i) : (highest lines).isSome :=
  List.find?_isSome.mpr ⟨i, List.mem_finRange i, h⟩

end Lines

namespace Chip

variable {c : Chip} {i : Fin 8}

/-- The line that is acknowledged has a request and is not masked. -/
theorem request_eq_some (h : c.request = some i) : c.irr.getLsbD i ∧ c.setup.imr.getLsbD i = false := by
  obtain ⟨j, hj, h⟩ := Option.bind_eq_some_iff.mp h
  split at h
  · cases h
  · cases h
    have hline := getLsbD_of_highest hj
    rw [BitVec.getLsbD_and, BitVec.getLsbD_not, decide_eq_true i.isLt, Bool.true_and, Bool.and_eq_true] at hline
    exact ⟨hline.1, (Bool.not_eq_eq_eq_not ..).mp hline.2⟩

/-- It has the highest priority of them. -/
theorem request_le {j : Fin 8} (h : c.request = some i) (hirr : c.irr.getLsbD j) (himr : c.setup.imr.getLsbD j = false) :
    i ≤ j := by
  obtain ⟨k, hk, h⟩ := Option.bind_eq_some_iff.mp h
  split at h
  · cases h
  · cases h
    refine highest_le hk ?_
    rw [BitVec.getLsbD_and, BitVec.getLsbD_not, decide_eq_true j.isLt, hirr, himr]
    rfl

/-- When nothing is in service, a request that is not masked interrupts the processor. -/
theorem request_isSome (hisr : c.isr = 0) (hirr : c.irr.getLsbD i) (himr : c.setup.imr.getLsbD i = false) :
    c.request.isSome := by
  have hline : (c.irr &&& ~~~c.setup.imr).getLsbD i := by
    rw [BitVec.getLsbD_and, BitVec.getLsbD_not, decide_eq_true i.isLt, hirr, himr]
    rfl
  obtain ⟨j, hj⟩ := Option.isSome_iff_exists.mp (highest_isSome hline)
  have hnone : ¬ ∃ k ≤ j, c.isr.getLsbD k := by
    rintro ⟨k, -, hk⟩
    rw [hisr, BitVec.ofNat_eq_ofNat, BitVec.getLsbD_zero] at hk
    cases hk
  rw [request, hj, Option.bind_eq_bind, Option.bind_some, if_neg hnone]
  rfl

/-- The line that is acknowledged is in service. -/
theorem acknowledge_isr (hisr : c.isr = 0) (hauto : c.setup.autoEoi = false) (i : Fin 8) :
    (c.acknowledge i).isr = bit i := by
  rw [acknowledge, hauto, hisr]
  exact BitVec.zero_or

/-- The only line in service is not in service any more. -/
theorem eoi_bit (hisr : c.isr = bit i) : c.eoi = { c with isr := 0 } := by
  rw [eoi, hisr, highest_bit]
  exact congrArg (fun isr => { c with isr := isr }) (bit_and_not i)

theorem eoi_setup (c : Chip) : c.eoi.setup = c.setup := by
  rw [eoi]
  split <;> rfl

/-- A word that is not one of the initialization is the mask. -/
theorem data_mask (h : c.setup.expects = 0) (v : BitVec 8) : c.data v = { c with setup := { c.setup with imr := v } } := by
  rw [data, h]
  rfl

end Chip

namespace Pair

variable {p p' : Pair} {irq : Fin 16} {n : BitVec 8}

/-- **An interrupt is acknowledged** for a line of the first controller or of the second one. -/
theorem acknowledge_cases (h : p.acknowledge = some (irq, n, p')) :
    (∃ i : Fin 8, p.master.setup.cascade.getLsbD i = false ∧ p.master.setup.imr.getLsbD i = false ∧ irq = first i ∧
      n = p.master.setup.vector + BitVec.ofNat 8 i ∧ p' = ⟨p.wired.acknowledge i, p.slave⟩) ∨
    ∃ i j : Fin 8, p.master.setup.cascade.getLsbD i ∧ p.slave.setup.imr.getLsbD j = false ∧ irq = second j ∧
      n = p.slave.setup.vector + BitVec.ofNat 8 j ∧ p' = ⟨p.wired.acknowledge i, p.slave.acknowledge j⟩ := by
  obtain ⟨i, hi, h⟩ := Option.bind_eq_some_iff.mp h
  split at h
  · rename_i hcascade
    obtain ⟨j, hj, h⟩ := Option.bind_eq_some_iff.mp h
    cases h
    exact .inr ⟨i, j, hcascade, (Chip.request_eq_some hj).2, rfl, rfl, rfl⟩
  · rename_i hcascade
    cases h
    exact .inl ⟨i, Bool.not_eq_true _ ▸ hcascade, (Chip.request_eq_some hi).2, rfl, rfl, rfl⟩

/-- The output of the second controller. -/
theorem wired_line2 (p : Pair) : p.wired.irr.getLsbD 2 = p.slave.request.isSome := by
  have hbit : (bit 2).getLsbD 2 = true := rfl
  rw [wired]
  split_ifs with h
  · rw [h, BitVec.getLsbD_or, hbit, Bool.or_true]
  · rw [BitVec.getLsbD_and, BitVec.getLsbD_not, hbit, Bool.not_true, Bool.and_false, Bool.and_false]
    exact (Bool.not_eq_true _ ▸ h).symm

/-- The other lines of the first controller are its own. -/
theorem wired_line (p : Pair) {i : Fin 8} (hi : i ≠ 2) : p.wired.irr.getLsbD i = p.master.irr.getLsbD i := by
  have hbit : (bit 2).getLsbD i = false := by
    revert i
    decide
  rw [wired]
  split_ifs
  · rw [BitVec.getLsbD_or, hbit, Bool.or_false]
  · rw [BitVec.getLsbD_and, BitVec.getLsbD_not, hbit, decide_eq_true i.isLt, Bool.not_false, Bool.and_true, Bool.and_true]

theorem rank_first {i k : Fin 8} (h : i ≤ k) : rank (first i) ≤ rank (first k) := by
  revert i k
  decide

theorem rank_second {j l : Fin 8} (h : j ≤ l) : rank (second j) ≤ rank (second l) := by
  revert j l
  decide

/-- The lines below line 2 come before the ones of the second controller. -/
theorem rank_first_second {i : Fin 8} (l : Fin 8) (h : i ≤ 2) (hne : i ≠ 2) : rank (first i) ≤ rank (second l) := by
  revert i l
  decide

/-- The lines above it come after them. -/
theorem rank_second_first {k : Fin 8} (j : Fin 8) (h : 2 ≤ k) (hne : k ≠ 2) : rank (second j) ≤ rank (first k) := by
  revert j k
  decide

/-- A request, as the first controller sees it: on line 2 if it is one of the second controller. -/
theorem exists_wired_line (hslave : p.slave.isr = 0) (hline2 : p.master.setup.imr.getLsbD 2 = false) (hne : irq ≠ 2)
    (hrequest : p.requested irq = true) (hmask : p.masked irq = false) :
    ∃ i : Fin 8, p.wired.irr.getLsbD i ∧ p.master.setup.imr.getLsbD i = false ∧
      (irq = first i ∧ i ≠ 2 ∨ i = 2 ∧ ∃ j, irq = second j ∧ p.slave.irr.getLsbD j ∧ p.slave.setup.imr.getLsbD j = false) := by
  rw [requested] at hrequest
  rw [masked] at hmask
  split_ifs at hrequest with hlt
  · rw [if_pos hlt] at hmask
    have hi : (⟨irq, hlt⟩ : Fin 8) ≠ 2 := fun heq => hne (Fin.ext (congrArg (fun i : Fin 8 => i.val) heq))
    exact ⟨⟨irq, hlt⟩, (p.wired_line hi).trans hrequest, hmask, .inl ⟨rfl, hi⟩⟩
  · rw [if_neg hlt] at hmask
    have hisSome := Chip.request_isSome (i := ⟨irq - 8, by omega⟩) hslave hrequest hmask
    have hirq : irq = second ⟨irq - 8, by omega⟩ := Fin.ext (by change irq.val = 8 + (irq.val - 8); omega)
    exact ⟨2, p.wired_line2.trans hisSome, hline2, .inr ⟨rfl, _, hirq, hrequest, hmask⟩⟩

/-- **A request interrupts the processor** when nothing is in service, if its line is not masked: the
processor acknowledges that line or one of a higher priority. -/
theorem exists_acknowledge (hmaster : p.master.isr = 0) (hslave : p.slave.isr = 0)
    (hcascade : ∀ i : Fin 8, p.master.setup.cascade.getLsbD i = true ↔ i = 2)
    (hline2 : p.master.setup.imr.getLsbD 2 = false) (hne : irq ≠ 2) (hrequest : p.requested irq = true)
    (hmask : p.masked irq = false) : ∃ line n p', p.acknowledge = some (line, n, p') ∧ rank line ≤ rank irq := by
  obtain ⟨k, hirr, himr, hirq⟩ := exists_wired_line hslave hline2 hne hrequest hmask
  have hisr : p.wired.isr = 0 := hmaster
  obtain ⟨i, hi⟩ := Option.isSome_iff_exists.mp (Chip.request_isSome hisr hirr himr)
  have hle := Chip.request_le hi hirr himr
  rw [acknowledge, hi, Option.bind_eq_bind, Option.bind_some]
  split_ifs with h
  · obtain rfl := (hcascade i).mp h
    obtain ⟨j, hj⟩ := Option.isSome_iff_exists.mp (p.wired_line2.symm.trans (Chip.request_eq_some hi).1)
    rw [hj]
    refine ⟨_, _, _, rfl, ?_⟩
    obtain ⟨rfl, hk⟩ | ⟨-, l, rfl, hline, hunmasked⟩ := hirq
    · exact rank_second_first j hle hk
    · exact rank_second (Chip.request_le hj hline hunmasked)
  · have hi2 : i ≠ 2 := fun heq => h ((hcascade i).mpr heq)
    refine ⟨_, _, _, rfl, ?_⟩
    obtain ⟨rfl, -⟩ | ⟨rfl, l, rfl, -⟩ := hirq
    · exact rank_first hle
    · exact rank_first_second l hle hi2

end Pair

end Lib.Pic8259
