import Attos.Lib.Threads
import Attos.Lib.Pic8259

/-!
# Handlers of interrupt requests

`isr_handler_impl` has a handler for each of the 16 lines of the interrupt controllers. A line is unmasked
behind the registration of its handler and masked before it is taken back. Each of these reads and
writes four ports, and interrupts come in between.

Whatever the devices do, an interrupt is always one of a line that has a handler, and when its handler
is through no line is in service, so that none is blocked (`irq_handled`). The controllers are set up
by the constructor of `pic_state`, and its destructor gives them back with the mask that they had
(`picState_restores`).
-/

namespace Attos.Isr

open Lib Lib.Pic8259

local instance neZeroEight : NeZero 8 := ⟨Nat.succ_ne_zero 7⟩

local instance neZeroSixteen : NeZero 16 := ⟨Nat.succ_ne_zero 15⟩

/-- The interrupt controllers and `irq_handlers_`. The lines that were acknowledged and the ones whose
handlers were called are recorded. -/
structure State (H : Type) : Type where
  /-- the interrupt controllers -/
  pic : Pair
  /-- `irq_handlers_` -/
  handlers : Fin 16 → Option H
  /-- the lines that were acknowledged -/
  acknowledged : List (Fin 16)
  /-- the lines whose handlers were called -/
  called : List (Fin 16)

/-! ## The code -/

section Code

variable {H : Type}

/-- `__inbyte` -/
def inb (port : ℕ) : Thread (State H) (BitVec 8) := .read fun s => s.pic.inb port

/-- `__outbyte` -/
def outb (port : ℕ) (v : BitVec 8) : Thread (State H) Unit := .write fun s => { s with pic := s.pic.outb port v }

/-- `pic1_command` -/
def pic1Command : ℕ := 0x20

/-- `pic1_data` -/
def pic1Data : ℕ := 0x21

/-- `pic2_command` -/
def pic2Command : ℕ := 0xA0

/-- `pic2_data` -/
def pic2Data : ℕ := 0xA1

/-- `pic_irq_mask_all` -/
def picIrqMaskAll : BitVec 16 := 0xFFFF

/-- The mask of all the lines. -/
def wide (lo hi : BitVec 8) : BitVec 16 := lo.setWidth 16 ||| (hi.setWidth 16 <<< 8)

/-- `pic_irq_mask`, which reads the mask. -/
def picIrqMask : Thread (State H) (BitVec 16) := do
  let lo ← inb pic1Data
  let hi ← inb pic2Data
  pure (wide lo hi)

/-- `pic_irq_mask`, which writes the mask. -/
def picSetIrqMask (mask : BitVec 16) : Thread (State H) Unit := do
  outb pic1Data ((mask &&& 0xff).setWidth 8)
  outb pic2Data ((mask >>> 8).setWidth 8)

/-- `pic_remap` -/
def picRemap (pic1Offset pic2Offset : BitVec 8) : Thread (State H) Unit := do
  picSetIrqMask picIrqMaskAll
  outb pic1Command 0x11
  outb pic2Command 0x11
  outb pic1Data pic1Offset
  outb pic2Data pic2Offset
  outb pic1Data 4
  outb pic2Data 2
  outb pic1Data 1
  outb pic2Data 1
  picSetIrqMask picIrqMaskAll

/-- `pic_mask_irq` -/
def picMaskIrq (irq : BitVec 8) : Thread (State H) Unit := do
  Thread.require (irq < 16 ∧ irq ≠ 2)
  let mask := (1 : BitVec 16) <<< irq.toNat
  let irqMask ← picIrqMask
  Thread.require (irqMask &&& mask = 0)
  let irqMask ← picIrqMask
  picSetIrqMask (irqMask ||| mask)

/-- `pic_unmask_irq` -/
def picUnmaskIrq (irq : BitVec 8) : Thread (State H) Unit := do
  Thread.require (irq < 16 ∧ irq ≠ 2)
  let mask := (1 : BitVec 16) <<< irq.toNat
  let irqMask ← picIrqMask
  Thread.require (irqMask &&& mask ≠ 0)
  let irqMask ← picIrqMask
  picSetIrqMask (irqMask &&& ~~~mask)

/-- `pic_send_eoi` -/
def picSendEoi (irq : Fin 16) : Thread (State H) Unit := do
  if 8 ≤ irq.val then outb pic2Command 0x20
  outb pic1Command 0x20

/-- The constructor of `pic_state`, which returns `old_pic_mask_`. -/
def picState : Thread (State H) (BitVec 16) := do
  let oldPicMask ← picIrqMask
  picRemap 0x30 0x38
  picSetIrqMask (picIrqMaskAll &&& ~~~(1#16 <<< 2))
  pure oldPicMask

/-- The destructor of `isr_handler_impl`, with the one of `pic_state`. -/
def isrHandlerDestroy (oldPicMask : BitVec 16) : Thread (State H) Unit := do
  let handlers ← .read fun s : State H => s.handlers
  Thread.require (∀ irq, (handlers irq).isNone)
  picRemap 0x08 0x70
  picSetIrqMask oldPicMask

/-- `is_irq` -/
def IsIrq (n : BitVec 8) : Prop := 0x30 ≤ n ∧ n ≤ 0x3F

instance (n : BitVec 8) : Decidable (IsIrq n) := inferInstanceAs (Decidable (0x30 ≤ n ∧ n ≤ 0x3F))

/-- `irq_number`, as an index of `irq_handlers_`. -/
def irqNumber (n : BitVec 8) : Fin 16 := Fin.ofNat 16 (n - 0x30).toNat

/-- `on_irq`. The handler is only called. -/
def onIrq (irq : Fin 16) : Thread (State H) Bool := do
  let handler ← .read fun s : State H => s.handlers irq
  match handler with
  | some _ => do
    Thread.write fun s => { s with called := s.called ++ [irq] }
    picSendEoi irq
    pure true
  | none => pure false

/-- `interrupt_service_routine`. What is not handled halts the kernel. -/
def interruptServiceRoutine (n : BitVec 8) : Thread (State H) Unit :=
  if IsIrq n then do
    let handled ← onIrq (irqNumber n)
    if handled then pure () else .abort
  else .abort

/-- The element of `irq_handlers_` for a line. -/
def index (irq : BitVec 8) : Fin 16 := Fin.ofNat 16 irq.toNat

/-- `register_irq_handler`. The array has 16 elements. -/
def registerIrqHandler (irq : BitVec 8) (handler : H) : Thread (State H) Unit := do
  Thread.require (irq < 16)
  let old ← .read fun s : State H => s.handlers (index irq)
  Thread.require old.isNone
  Thread.write fun s => { s with handlers := Function.update s.handlers (index irq) (some handler) }
  picUnmaskIrq irq

/-- The destructor of `isr_registration_impl`. -/
def isrRegistrationDestroy (irq : BitVec 8) : Thread (State H) Unit := do
  picMaskIrq irq
  let handler ← .read fun s : State H => s.handlers (index irq)
  Thread.require handler.isSome
  Thread.write fun s => { s with handlers := Function.update s.handlers (index irq) none }

end Code

/-! ## What the programs rely on -/

section Conditions

variable {H : Type}

/-- The mask of the lines. -/
def State.mask (s : State H) : BitVec 16 := wide s.pic.master.setup.imr s.pic.slave.setup.imr

/-- The controllers are set up the same, and the handlers are the same. -/
structure Same (s t : State H) : Prop where
  /-- the handlers -/
  handlers : t.handlers = s.handlers
  /-- the first controller -/
  master : t.pic.master.setup = s.pic.master.setup
  /-- the second controller -/
  slave : t.pic.slave.setup = s.pic.slave.setup

/-- The same lines are in service, and the same interrupts are recorded. -/
structure SameService (s t : State H) : Prop where
  /-- the first controller -/
  master : t.pic.master.isr = s.pic.master.isr
  /-- the second controller -/
  slave : t.pic.slave.isr = s.pic.slave.isr
  /-- the lines that were acknowledged -/
  acknowledged : t.acknowledged = s.acknowledged
  /-- the lines whose handlers were called -/
  called : t.called = s.called

/-- A controller is set up as the kernel uses it. -/
structure SetUp (setup : Setup) (vector cascade : BitVec 8) : Prop where
  /-- the vector of line 0 -/
  vector : setup.vector = vector
  /-- the other controller -/
  cascade : setup.cascade = cascade
  /-- the end of an interrupt is a command -/
  autoEoi : setup.autoEoi = false
  /-- the initialization is complete -/
  expects : setup.expects = 0

/-- The controllers are set up, and the lines that are not masked have handlers, except for the one of the
second controller. -/
structure Good (s : State H) : Prop where
  /-- the first controller -/
  master : SetUp s.pic.master.setup 0x30 4
  /-- the second controller -/
  slave : SetUp s.pic.slave.setup 0x38 2
  /-- the line of the second controller -/
  line2 : s.mask.getLsbD 2 = false ∧ s.handlers 2 = none
  /-- the other lines -/
  handled : ∀ irq : Fin 16, irq ≠ 2 → s.mask.getLsbD irq = false → (s.handlers irq).isSome

/-- What the main program does: it does not handle interrupts. -/
def Registering (s t : State H) : Prop := Good t ∧ SameService s t

/-- No interrupt is handled. -/
structure Idle (s : State H) : Prop where
  /-- the controllers are set up -/
  good : Good s
  /-- no line of the first controller is in service -/
  master : s.pic.master.isr = 0
  /-- nor is one of the second controller -/
  slave : s.pic.slave.isr = 0
  /-- the handlers of all the lines that were acknowledged were called, in this order -/
  called : s.called = s.acknowledged

/-- No handler is being registered or taken back: exactly the lines with handlers are not masked. -/
def Settled (s : State H) : Prop := ∀ irq : Fin 16, irq ≠ 2 → (s.mask.getLsbD irq = false ↔ (s.handlers irq).isSome)

variable {s t u : State H}

theorem Same.refl (s : State H) : Same s s := ⟨rfl, rfl, rfl⟩

theorem Same.trans (h : Same s t) (h' : Same t u) : Same s u :=
  ⟨h'.handlers.trans h.handlers, h'.master.trans h.master, h'.slave.trans h.slave⟩

theorem SameService.refl (s : State H) : SameService s s := ⟨rfl, rfl, rfl, rfl⟩

theorem SameService.trans (h : SameService s t) (h' : SameService t u) : SameService s u :=
  ⟨h'.master.trans h.master, h'.slave.trans h.slave, h'.acknowledged.trans h.acknowledged, h'.called.trans h.called⟩

theorem Same.mask (h : Same s t) : t.mask = s.mask := by
  rw [State.mask, State.mask, h.master, h.slave]

theorem Good.same (hgood : Good s) (h : Same s t) : Good t := by
  refine ⟨h.master ▸ hgood.master, h.slave ▸ hgood.slave, ?_, fun irq hne hmask => ?_⟩
  · rw [h.mask, h.handlers]
    exact hgood.line2
  · rw [h.mask] at hmask
    rw [h.handlers]
    exact hgood.handled irq hne hmask

theorem Idle.of_sameService (h : Idle s) (hgood : Good t) (hsame : SameService s t) : Idle t :=
  ⟨hgood, hsame.master.trans h.master, hsame.slave.trans h.slave, by rw [hsame.called, hsame.acknowledged, h.called]⟩

end Conditions

/-! ## Masks -/

section Masks

variable {lo hi : BitVec 8} {m : BitVec 16} {i : ℕ}

theorem getLsbD_wide (h : i < 16) : (wide lo hi).getLsbD i = if i < 8 then lo.getLsbD i else hi.getLsbD (i - 8) := by
  rw [wide, BitVec.getLsbD_or, BitVec.getLsbD_setWidth, BitVec.getLsbD_shiftLeft, BitVec.getLsbD_setWidth]
  have hdiff : i - 8 < 16 := by omega
  split_ifs with hi8
  · simp [h, hi8]
  · have hlo : lo.getLsbD i = false := BitVec.getLsbD_of_ge _ _ (by omega)
    simp [h, hi8, hdiff, hlo]

theorem getLsbD_low (h : i < 8) : ((m &&& 0xff).setWidth 8).getLsbD i = m.getLsbD i := by
  have hbit : (0xff : BitVec 16).getLsbD i = true := by
    interval_cases i <;> rfl
  rw [BitVec.getLsbD_setWidth, BitVec.getLsbD_and, hbit, decide_eq_true h, Bool.true_and, Bool.and_true]

theorem getLsbD_high (h : i < 8) : ((m >>> 8).setWidth 8).getLsbD i = m.getLsbD (8 + i) := by
  rw [BitVec.getLsbD_setWidth, decide_eq_true h, Bool.true_and, BitVec.getLsbD_ushiftRight]

/-- The two halves of a mask make the mask. -/
theorem wide_halves (m : BitVec 16) : wide ((m &&& 0xff).setWidth 8) ((m >>> 8).setWidth 8) = m := by
  apply BitVec.eq_of_getLsbD_eq
  intro i hi
  rw [getLsbD_wide hi]
  split_ifs with h
  · exact getLsbD_low h
  · rw [getLsbD_high (by omega), Nat.add_sub_of_le (by omega)]

theorem getLsbD_shift_one {k : ℕ} (h : i < 16) : ((1 : BitVec 16) <<< k).getLsbD i = decide (i = k) := by
  rw [BitVec.getLsbD_shiftLeft, decide_eq_true h, Bool.true_and]
  by_cases hk : i < k
  · rw [decide_eq_true hk, decide_eq_false (by omega)]
    rfl
  · rw [decide_eq_false hk]
    change (!false && (1#16).getLsbD (i - k)) = _
    rw [Bool.not_false, Bool.true_and, BitVec.getLsbD_one, decide_eq_true (by decide : 0 < 16), Bool.true_and]
    exact decide_eq_decide.mpr (by omega)

end Masks

/-! ## Accesses to the controllers -/

section Accesses

variable {H : Type} {s t : State H}

theorem outb_pic1Data (hgood : Good s) (v : BitVec 8) :
    s.pic.outb pic1Data v =
      { s.pic with master := { s.pic.master with setup := { s.pic.master.setup with imr := v } } } :=
  congrArg (fun c => { s.pic with master := c }) (Chip.data_mask hgood.master.expects v)

theorem outb_pic2Data (hgood : Good s) (v : BitVec 8) :
    s.pic.outb pic2Data v =
      { s.pic with slave := { s.pic.slave with setup := { s.pic.slave.setup with imr := v } } } :=
  congrArg (fun c => { s.pic with slave := c }) (Chip.data_mask hgood.slave.expects v)

/-- A mask of the first controller leaves the mask of the second one. -/
theorem Good.outb_pic1Data (hgood : Good s) {v : BitVec 8} (h2 : v.getLsbD 2 = false)
    (h : ∀ irq : Fin 16, irq.val < 8 → irq ≠ 2 → v.getLsbD irq = false → (s.handlers irq).isSome) :
    Good { s with pic := s.pic.outb pic1Data v } ∧ SameService s { s with pic := s.pic.outb pic1Data v } := by
  rw [Isr.outb_pic1Data hgood]
  refine ⟨⟨⟨hgood.master.vector, hgood.master.cascade, hgood.master.autoEoi, hgood.master.expects⟩, hgood.slave,
    ⟨?_, hgood.line2.2⟩, fun irq hne hmask => ?_⟩, rfl, rfl, rfl, rfl⟩
  · rw [State.mask, getLsbD_wide (by decide), if_pos (by decide)]
    exact h2
  · rw [State.mask, getLsbD_wide irq.isLt] at hmask
    split_ifs at hmask with hlt
    · exact h irq hlt hne hmask
    · refine hgood.handled irq hne ?_
      rwa [State.mask, getLsbD_wide irq.isLt, if_neg hlt]

/-- A mask of the second controller leaves the mask of the first one. -/
theorem Good.outb_pic2Data (hgood : Good s) {v : BitVec 8}
    (h : ∀ irq : Fin 16, ¬ irq.val < 8 → v.getLsbD (irq.val - 8) = false → (s.handlers irq).isSome) :
    Good { s with pic := s.pic.outb pic2Data v } ∧ SameService s { s with pic := s.pic.outb pic2Data v } := by
  rw [Isr.outb_pic2Data hgood]
  refine ⟨⟨hgood.master, ⟨hgood.slave.vector, hgood.slave.cascade, hgood.slave.autoEoi, hgood.slave.expects⟩,
    ⟨?_, hgood.line2.2⟩, fun irq hne hmask => ?_⟩, rfl, rfl, rfl, rfl⟩
  · have hline := hgood.line2.1
    rw [State.mask, getLsbD_wide (by decide), if_pos (by decide)] at hline ⊢
    exact hline
  · rw [State.mask, getLsbD_wide irq.isLt] at hmask
    split_ifs at hmask with hlt
    · refine hgood.handled irq hne ?_
      rwa [State.mask, getLsbD_wide irq.isLt, if_pos hlt]
    · exact h irq hlt hmask

/-- **The mask is read**, whatever interrupts come in between. -/
theorem picIrqMask_safe (hgood : Good s) :
    Thread.Safe Same Registering (fun v t => Same s t ∧ v = s.mask) picIrqMask s := by
  have hread : ∀ {s : State H} (port : ℕ), Good s →
      Thread.Safe Same Registering (fun v t => Same s t ∧ v = s.pic.inb port) (inb port) s := by
    intro s port hgood
    refine .read (fun t ht => ⟨hgood.same ht, .refl t⟩) fun t u ht hu => ⟨ht.trans hu, ?_⟩
    rw [Pair.inb, Pair.inb, ht.master, ht.slave]
  refine (hread pic1Data hgood).bind Same.refl fun lo t ⟨ht, hlo⟩ => ?_
  refine (hread pic2Data (hgood.same ht)).bind Same.refl fun hi u ⟨hu, hhi⟩ => ?_
  refine fun v hv => ⟨(ht.trans hu).trans hv, ?_⟩
  rw [hlo, hhi, State.mask, ← ht.slave]
  rfl

/-- **The mask is written**, if there are handlers for the lines that are not masked any more. -/
theorem picSetIrqMask_safe (hgood : Good s) {m : BitVec 16} (h2 : m.getLsbD 2 = false)
    (h : ∀ irq : Fin 16, irq ≠ 2 → m.getLsbD irq = false → (s.handlers irq).isSome) :
    Thread.Safe Same Registering (fun _ t => Good t ∧ t.handlers = s.handlers ∧ t.mask = m) (picSetIrqMask m) s := by
  let low := (m &&& 0xff).setWidth 8
  let high := (m >>> 8).setWidth 8
  -- Between the two writes, the lines of the second controller are masked as before.
  have hfirst : ∀ t, Same s t → Good { t with pic := t.pic.outb pic1Data low } ∧
      SameService t { t with pic := t.pic.outb pic1Data low } := by
    intro t ht
    refine (hgood.same ht).outb_pic1Data ((getLsbD_low (by decide)).trans h2) fun irq hlt hne hmask => ?_
    rw [getLsbD_low hlt] at hmask
    rw [ht.handlers]
    exact h irq hne hmask
  refine Thread.Safe.through (fun _ u => ∃ t, Same s t ∧ Same { t with pic := t.pic.outb pic1Data low } u)
    Same.refl (.write hfirst fun t u ht hu => ⟨t, ht, hu⟩) fun _ u ⟨t, ht, hu⟩ => ?_
  have hgoodt := hgood.same ht
  have hgoodu := (hfirst t ht).1.same hu
  have hhandlers : u.handlers = s.handlers := hu.handlers.trans ht.handlers
  have hsecond : ∀ v, Same u v → Good { v with pic := v.pic.outb pic2Data high } ∧
      SameService v { v with pic := v.pic.outb pic2Data high } := by
    intro v hv
    refine (hgoodu.same hv).outb_pic2Data fun irq hlt hmask => ?_
    have hsum : 8 + (irq.val - 8) = irq := by omega
    rw [getLsbD_high (by omega), hsum] at hmask
    rw [hv.handlers, hhandlers]
    exact h irq (fun heq => hlt (heq ▸ by decide)) hmask
  refine .write hsecond fun v w hv hw => ⟨(hsecond v hv).1.same hw, ?_, ?_⟩
  · rw [hw.handlers, ← hhandlers]
    exact hv.handlers
  · rw [hw.mask, State.mask, Isr.outb_pic2Data (hgoodu.same hv)]
    have hmaster : v.pic.master.setup.imr = low := by
      rw [hv.master, hu.master, Isr.outb_pic1Data hgoodt]
    change wide v.pic.master.setup.imr high = m
    rw [hmaster]
    exact wide_halves m

end Accesses

/-! ## Registrations -/

section Registrations

variable {H : Type} {s t : State H} {irq : BitVec 8}

/-- A line that can have a handler. -/
def IsLine (irq : BitVec 8) : Prop := irq < 16 ∧ irq ≠ 2

instance (irq : BitVec 8) : Decidable (IsLine irq) := inferInstanceAs (Decidable (irq < 16 ∧ irq ≠ 2))

theorem index_val (h : IsLine irq) : (index irq).val = irq.toNat ∧ index irq ≠ 2 := by
  have hlt : irq.toNat < 16 := h.1
  have hval : (index irq).val = irq.toNat := Nat.mod_eq_of_lt hlt
  refine ⟨hval, fun heq => h.2 (BitVec.eq_of_toNat_eq ?_)⟩
  rw [← hval, heq]
  rfl

theorem getLsbD_line (h : IsLine irq) (i : Fin 16) :
    ((1 : BitVec 16) <<< irq.toNat).getLsbD i = decide (i = index irq) := by
  rw [getLsbD_shift_one i.isLt, ← (index_val h).1]
  exact decide_eq_decide.mpr Fin.val_inj

/-- The bit of a line is in a mask. -/
theorem and_line_eq_zero (h : IsLine irq) (m : BitVec 16) :
    m &&& ((1 : BitVec 16) <<< irq.toNat) = 0 ↔ m.getLsbD (index irq) = false := by
  constructor
  · intro hzero
    have hbit := congrArg (fun w => w.getLsbD (index irq)) hzero
    rw [BitVec.getLsbD_and, getLsbD_line h, decide_eq_true rfl, Bool.and_true] at hbit
    exact hbit.trans BitVec.getLsbD_zero
  · intro hbit
    refine BitVec.eq_of_getLsbD_eq fun i hi => ?_
    rw [BitVec.getLsbD_and, getLsbD_line h ⟨i, hi⟩]
    by_cases heq : (⟨i, hi⟩ : Fin 16) = index irq
    · have hline : m.getLsbD i = false := by rw [← hbit, ← heq]
      rw [hline, Bool.false_and]
      exact BitVec.getLsbD_zero.symm
    · rw [decide_eq_false heq, Bool.and_false]
      exact BitVec.getLsbD_zero.symm

/-- **A line is unmasked**, if it is masked and has a handler. -/
theorem picUnmaskIrq_safe (hgood : Good s) (h : IsLine irq) (hmask : s.mask.getLsbD (index irq) = true)
    (hhandler : (s.handlers (index irq)).isSome) :
    Thread.Safe Same Registering (fun _ t => Good t ∧ t.handlers = s.handlers ∧
      ∀ i : Fin 16, t.mask.getLsbD i = (s.mask.getLsbD i && decide (i ≠ index irq))) (picUnmaskIrq irq) s := by
  refine Thread.Safe.through (fun _ => Same s) Same.refl (.require h fun t ht => ht) fun _ s₁ h₁ => ?_
  refine (picIrqMask_safe (hgood.same h₁)).bind Same.refl fun v s₂ ⟨h₂, hv⟩ => ?_
  have hbit : v &&& ((1 : BitVec 16) <<< irq.toNat) ≠ 0 := by
    rw [Ne, and_line_eq_zero h, hv, h₁.mask, hmask]
    decide
  refine Thread.Safe.through (fun _ => Same s) Same.refl (.require hbit fun t ht => (h₁.trans h₂).trans ht)
    fun _ s₃ h₃ => ?_
  refine (picIrqMask_safe (hgood.same h₃)).bind Same.refl fun w s₄ ⟨h₄, hw⟩ => ?_
  have hsame := h₃.trans h₄
  have hnew : ∀ i : Fin 16, (w &&& ~~~((1 : BitVec 16) <<< irq.toNat)).getLsbD i =
      (s.mask.getLsbD i && decide (i ≠ index irq)) := by
    intro i
    rw [BitVec.getLsbD_and, BitVec.getLsbD_not, getLsbD_line h, decide_eq_true i.isLt, Bool.true_and, hw, h₃.mask,
      decide_not]
  refine (picSetIrqMask_safe (hgood.same hsame) ?_ fun i hne hclear => ?_).weaken
    fun _ t ⟨hgoodt, hhandlers, hmaskt⟩ => ⟨hgoodt, hhandlers.trans hsame.handlers, fun i => hmaskt ▸ hnew i⟩
  · exact (hnew 2).trans ((congrArg (· && _) hgood.line2.1).trans (Bool.false_and _))
  · rw [hnew, Bool.and_eq_false_iff] at hclear
    rw [hsame.handlers]
    rcases hclear with hclear | hline
    · exact hgood.handled i hne hclear
    · rw [not_ne_iff.mp (of_decide_eq_false hline)]
      exact hhandler

/-- **A line is masked**, if it is not. -/
theorem picMaskIrq_safe (hgood : Good s) (h : IsLine irq) (hmask : s.mask.getLsbD (index irq) = false) :
    Thread.Safe Same Registering (fun _ t => Good t ∧ t.handlers = s.handlers ∧
      ∀ i : Fin 16, t.mask.getLsbD i = (s.mask.getLsbD i || decide (i = index irq))) (picMaskIrq irq) s := by
  refine Thread.Safe.through (fun _ => Same s) Same.refl (.require h fun t ht => ht) fun _ s₁ h₁ => ?_
  refine (picIrqMask_safe (hgood.same h₁)).bind Same.refl fun v s₂ ⟨h₂, hv⟩ => ?_
  have hbit : v &&& ((1 : BitVec 16) <<< irq.toNat) = 0 := by
    rw [and_line_eq_zero h, hv, h₁.mask, hmask]
  refine Thread.Safe.through (fun _ => Same s) Same.refl (.require hbit fun t ht => (h₁.trans h₂).trans ht)
    fun _ s₃ h₃ => ?_
  refine (picIrqMask_safe (hgood.same h₃)).bind Same.refl fun w s₄ ⟨h₄, hw⟩ => ?_
  have hsame := h₃.trans h₄
  have hnew : ∀ i : Fin 16, (w ||| ((1 : BitVec 16) <<< irq.toNat)).getLsbD i =
      (s.mask.getLsbD i || decide (i = index irq)) := by
    intro i
    rw [BitVec.getLsbD_or, getLsbD_line h, hw, h₃.mask]
  refine (picSetIrqMask_safe (hgood.same hsame) ?_ fun i hne hclear => ?_).weaken
    fun _ t ⟨hgoodt, hhandlers, hmaskt⟩ => ⟨hgoodt, hhandlers.trans hsame.handlers, fun i => hmaskt ▸ hnew i⟩
  · exact (hnew 2).trans ((congrArg (· || _) hgood.line2.1).trans (decide_eq_false (index_val h).2.symm))
  · rw [hnew, Bool.or_eq_false_iff] at hclear
    rw [hsame.handlers]
    exact hgood.handled i hne hclear.1

/-- The state with another element of `irq_handlers_`. -/
def State.setHandler (s : State H) (i : Fin 16) (handler : Option H) : State H :=
  { s with handlers := Function.update s.handlers i handler }

theorem Good.setHandler (hgood : Good s) {i : Fin 16} (hne : i ≠ 2) {handler : Option H}
    (h : s.mask.getLsbD i = false → handler.isSome) :
    Good (s.setHandler i handler) ∧ SameService s (s.setHandler i handler) := by
  refine ⟨⟨hgood.master, hgood.slave, ⟨hgood.line2.1, ?_⟩, fun j hj hmask => ?_⟩, rfl, rfl, rfl, rfl⟩
  · exact (Function.update_of_ne hne.symm ..).trans hgood.line2.2
  · change (Function.update s.handlers i handler j).isSome
    by_cases heq : j = i
    · rw [heq, Function.update_self]
      exact h (heq ▸ hmask)
    · rw [Function.update_of_ne heq]
      exact hgood.handled j hj hmask

/-- **A handler is registered** for a line that has none. -/
theorem registerIrqHandler_safe (hgood : Good s) (hsettled : Settled s) (h : IsLine irq) (handler : H)
    (hnone : s.handlers (index irq) = none) :
    Thread.Safe Same Registering (fun _ => Settled) (registerIrqHandler irq handler) s := by
  have hmask : s.mask.getLsbD (index irq) = true := by
    have hiff := hsettled _ (index_val h).2
    rw [hnone] at hiff
    exact Bool.not_eq_false _ |>.mp fun hfalse => Bool.false_ne_true (hiff.mp hfalse)
  refine Thread.Safe.through (fun _ => Same s) Same.refl (.require h.1 fun t ht => ht) fun _ s₁ h₁ => ?_
  refine Thread.Safe.through (fun old t => old = none ∧ Same s t) Same.refl
    (.read (fun t ht => ⟨(hgood.same h₁).same ht, .refl t⟩) fun t u ht hu => ⟨?_, (h₁.trans ht).trans hu⟩)
    fun old s₂ ⟨hold, h₂⟩ => ?_
  · rw [ht.handlers, h₁.handlers, hnone]
  refine Thread.Safe.through (fun _ => Same s) Same.refl (.require (by rw [hold]; rfl) fun t ht => h₂.trans ht)
    fun _ s₃ h₃ => ?_
  have hwrite : ∀ t, Same s₃ t → Good (t.setHandler (index irq) (some handler)) ∧
      SameService t (t.setHandler (index irq) (some handler)) :=
    fun t ht => (hgood.same (h₃.trans ht)).setHandler (index_val h).2 fun _ => rfl
  refine Thread.Safe.through (fun _ u => Same (s.setHandler (index irq) (some handler)) u ∧ Good u) Same.refl
    (.write hwrite fun t u ht hu => ⟨?_, (hwrite t ht).1.same hu⟩) fun _ s₄ ⟨h₄, hgood₄⟩ => ?_
  · refine ⟨hu.handlers.trans ?_, hu.master.trans (h₃.trans ht).master, hu.slave.trans (h₃.trans ht).slave⟩
    exact congrArg (fun handlers => Function.update handlers _ _) (h₃.trans ht).handlers
  have hmask₄ : s₄.mask = s.mask := h₄.mask
  have hhandlers₄ : s₄.handlers = Function.update s.handlers (index irq) (some handler) := h₄.handlers
  refine (picUnmaskIrq_safe hgood₄ h (by rw [hmask₄, hmask]) (by rw [hhandlers₄, Function.update_self]; rfl)).weaken
    fun _ t ⟨_, hhandlers, hbits⟩ i hi => ?_
  rw [hbits, hmask₄, hhandlers, hhandlers₄]
  by_cases heq : i = index irq
  · rw [heq, Function.update_self, decide_eq_false (not_not.mpr rfl), Bool.and_false]
    exact iff_of_true rfl rfl
  · rw [Function.update_of_ne heq, decide_eq_true heq, Bool.and_true]
    exact hsettled i hi

/-- A line that cannot have a handler, or has one, stops the kernel. -/
theorem registerIrqHandler_abort (handler : H) (h : IsLine irq → (s.handlers (index irq)).isSome) :
    (registerIrqHandler irq handler).run s = .abort := by
  by_cases hlt : irq < 16
  · rw [registerIrqHandler, Thread.require, if_pos hlt]
    change (Thread.require (s.handlers (index irq)).isNone >>= fun _ => _).run s = .abort
    by_cases hnone : (s.handlers (index irq)).isNone
    · have hnot : ¬ (irq < 16 ∧ irq ≠ 2) := fun hline => by
        have hsome := h hline
        rw [Option.isNone_iff_eq_none.mp hnone] at hsome
        cases hsome
      rw [Thread.require, if_pos hnone]
      change (Thread.require (irq < 16 ∧ irq ≠ 2) >>= fun _ => _).run _ = .abort
      rw [Thread.require, if_neg hnot]
      rfl
    · rw [Thread.require, if_neg hnone]
      rfl
  · rw [registerIrqHandler, Thread.require, if_neg hlt]
    rfl

/-- **A registration is taken back.** -/
theorem isrRegistrationDestroy_safe (hgood : Good s) (hsettled : Settled s) (h : IsLine irq)
    (hsome : (s.handlers (index irq)).isSome) :
    Thread.Safe Same Registering (fun _ => Settled) (isrRegistrationDestroy irq) s := by
  have hmask := (hsettled _ (index_val h).2).mpr hsome
  refine (picMaskIrq_safe hgood h hmask).bind Same.refl fun _ s₁ ⟨hgood₁, hhandlers₁, hbits⟩ => ?_
  refine Thread.Safe.through (fun handler t => handler.isSome ∧ Same s₁ t) Same.refl
    (.read (fun t ht => ⟨hgood₁.same ht, .refl t⟩) fun t u ht hu => ⟨?_, ht.trans hu⟩) fun handler s₂ ⟨hhandler, h₂⟩ => ?_
  · rw [ht.handlers, hhandlers₁]
    exact hsome
  refine Thread.Safe.through (fun _ => Same s₁) Same.refl (.require hhandler fun t ht => h₂.trans ht)
    fun _ s₃ h₃ => ?_
  have hmasked : ∀ t, Same s₃ t → t.mask.getLsbD (index irq) = true := by
    intro t ht
    rw [ht.mask, h₃.mask, hbits, decide_eq_true rfl, Bool.or_true]
  have hwrite : ∀ t, Same s₃ t → Good (t.setHandler (index irq) none) ∧ SameService t (t.setHandler (index irq) none) :=
    fun t ht => (hgood₁.same (h₃.trans ht)).setHandler (index_val h).2 fun hclear =>
      absurd ((hmasked t ht).symm.trans hclear) (by decide)
  refine .write hwrite fun t u ht hu i hi => ?_
  have hhandlers : u.handlers = Function.update s.handlers (index irq) none := by
    rw [hu.handlers, ← hhandlers₁, ← h₃.handlers, ← ht.handlers]
  have hmasku : u.mask.getLsbD i = (s.mask.getLsbD i || decide (i = index irq)) := by
    rw [hu.mask, ← hbits, ← h₃.mask, ← ht.mask]
    rfl
  rw [hmasku, hhandlers]
  by_cases heq : i = index irq
  · rw [heq, Function.update_self, decide_eq_true rfl, Bool.or_true]
    exact iff_of_false (by decide) Bool.false_ne_true
  · rw [Function.update_of_ne heq, decide_eq_false heq, Bool.or_false]
    exact hsettled i hi

end Registrations

/-! ## Interrupts -/

section Interrupts

variable {H : Type} {s t : State H} {irq : Fin 16} {n : BitVec 8}

/-- What a handler relies on: nothing but requests of devices comes in between. -/
def Quiet (s t : State H) : Prop := Same s t ∧ SameService s t

theorem Idle.quiet {s t : State H} (h : Idle s) (hst : Quiet s t) : Idle t :=
  h.of_sameService (h.good.same hst.1) hst.2

/-- Only the line is in service. -/
def InService (s : State H) (irq : Fin 16) : Prop :=
  (∃ i, irq = Pair.first i ∧ s.pic.master.isr = bit i ∧ s.pic.slave.isr = 0) ∨
    ∃ j, irq = Pair.second j ∧ s.pic.master.isr = bit 2 ∧ s.pic.slave.isr = bit j

theorem Quiet.refl (s : State H) : Quiet s s := ⟨.refl s, .refl s⟩

theorem Quiet.trans {s t u : State H} (h : Quiet s t) (h' : Quiet t u) : Quiet s u :=
  ⟨h.1.trans h'.1, h.2.trans h'.2⟩

/-- The end of an interrupt does not set a controller up. -/
theorem same_outb_eoi (s : State H) {port : ℕ} (hport : port = pic1Command ∨ port = pic2Command) :
    Same s { s with pic := s.pic.outb port 0x20 } := by
  rcases hport with rfl | rfl
  · exact ⟨rfl, Chip.eoi_setup _, rfl⟩
  · exact ⟨rfl, rfl, Chip.eoi_setup _⟩

/-- **The end of an interrupt**: no line is in service any more. -/
theorem picSendEoi_safe (hgood : Good s) (hservice : InService s irq) (hcalled : s.called = s.acknowledged) :
    Thread.Safe Quiet Same (fun _ => Idle) (picSendEoi irq) s := by
  -- The command to the first controller comes last.
  have hlast : ∀ {s : State H} {i : Fin 8}, Good s → s.pic.master.isr = bit i → s.pic.slave.isr = 0 →
      s.called = s.acknowledged → Thread.Safe Quiet Same (fun _ => Idle) (outb pic1Command 0x20) s := by
    intro s i hgood hmaster hslave hcalled
    refine .write (fun t _ => same_outb_eoi t (.inl rfl)) fun t u ht hu => ?_
    have hgoodt := (hgood.same ht.1).same (same_outb_eoi t (.inl rfl))
    refine ⟨hgoodt.same hu.1, hu.2.master.trans ?_, hu.2.slave.trans (ht.2.slave.trans hslave), ?_⟩
    · exact congrArg Chip.isr (Chip.eoi_bit (ht.2.master.trans hmaster))
    · rw [hu.2.called, hu.2.acknowledged]
      exact ht.2.called.trans (hcalled.trans ht.2.acknowledged.symm)
  rcases hservice with ⟨i, rfl, hmaster, hslave⟩ | ⟨j, rfl, hmaster, hslave⟩
  · have hfirst : ¬ 8 ≤ (Pair.first i).val := Nat.not_le.mpr i.isLt
    rw [picSendEoi, if_neg hfirst]
    exact hlast hgood hmaster hslave hcalled
  · have hsecond : 8 ≤ (Pair.second j).val := Nat.le_add_right ..
    rw [picSendEoi, if_pos hsecond]
    refine Thread.Safe.through (fun _ u => Good u ∧ u.pic.master.isr = bit 2 ∧ u.pic.slave.isr = 0 ∧
      u.called = u.acknowledged) Quiet.refl (.write (fun t _ => same_outb_eoi t (.inr rfl)) fun t u ht hu => ?_)
      fun _ u ⟨hgoodu, hmasteru, hslaveu, hcalledu⟩ => hlast hgoodu hmasteru hslaveu hcalledu
    have hgoodt := (hgood.same ht.1).same (same_outb_eoi t (.inr rfl))
    refine ⟨hgoodt.same hu.1, hu.2.master.trans (ht.2.master.trans hmaster), hu.2.slave.trans ?_, ?_⟩
    · exact congrArg Chip.isr (Chip.eoi_bit (ht.2.slave.trans hslave))
    · rw [hu.2.called, hu.2.acknowledged]
      exact ht.2.called.trans (hcalled.trans ht.2.acknowledged.symm)

/-- **An interrupt of a line with a handler** is handled. -/
theorem interruptServiceRoutine_safe (hgood : Good s) (hn : IsIrq n ∧ irqNumber n = irq)
    (hhandler : (s.handlers irq).isSome) (hservice : InService s irq) (hcalled : s.called ++ [irq] = s.acknowledged) :
    Thread.Safe Quiet Same (fun _ => Idle) (interruptServiceRoutine n) s := by
  obtain ⟨hirq, hnumber⟩ := hn
  rw [interruptServiceRoutine, if_pos hirq, hnumber]
  refine Thread.Safe.through (fun handled u => handled = true ∧ Idle u) Quiet.refl ?_ fun handled u ⟨hhandled, hidle⟩ => ?_
  · refine Thread.Safe.through (fun handler u => handler.isSome ∧ Quiet s u) Quiet.refl
      (.read (fun t _ => .refl t) fun t u ht hu => ⟨?_, ht.trans hu⟩) fun handler s₁ ⟨hsome, h₁⟩ => ?_
    · rw [ht.1.handlers]
      exact hhandler
    obtain ⟨h, rfl⟩ := Option.isSome_iff_exists.mp hsome
    refine Thread.Safe.through (fun _ u => Good u ∧ InService u irq ∧ u.called = u.acknowledged) Quiet.refl
      (.write (fun t _ => ⟨rfl, rfl, rfl⟩) fun t u ht hu => ?_) fun _ u ⟨hgoodu, hserviceu, hcalledu⟩ => ?_
    · have hst := h₁.trans ht
      refine ⟨((hgood.same hst.1).same (t := { t with called := t.called ++ [irq] }) ⟨rfl, rfl, rfl⟩).same hu.1, ?_, ?_⟩
      · have hmaster : u.pic.master.isr = s.pic.master.isr := hu.2.master.trans hst.2.master
        have hslave : u.pic.slave.isr = s.pic.slave.isr := hu.2.slave.trans hst.2.slave
        rw [InService, hmaster, hslave]
        exact hservice
      · rw [hu.2.called, hu.2.acknowledged]
        change t.called ++ [irq] = t.acknowledged
        rw [hst.2.called, hst.2.acknowledged]
        exact hcalled
    · refine (picSendEoi_safe hgoodu hserviceu hcalledu).bind Quiet.refl fun _ v hv => ?_
      exact fun w hw => ⟨rfl, hv.quiet hw⟩
  · rw [if_pos hhandled]
    exact fun w hw => hidle.quiet hw

/-- A device raises a line. -/
inductive Raises : State H → State H → Prop where
  /-- the request is latched -/
  | raise {s : State H} (irq : Fin 16) : Raises s { s with pic := s.pic.raise irq }

/-- The processor acknowledges an interrupt and gets a vector. -/
inductive Fires (n : BitVec 8) : State H → State H → Prop where
  /-- the line is in service -/
  | acknowledge {s : State H} {irq : Fin 16} {p : Pair} : s.pic.acknowledge = some (irq, n, p) →
      Fires n s { s with pic := p, acknowledged := s.acknowledged ++ [irq] }

/-- What the kernel calls: a handler is registered for a line that has none, or a registration is taken
back. -/
inductive Calls : State H → Thread (State H) Unit → Prop where
  /-- `register_irq_handler` -/
  | register {s : State H} {irq : BitVec 8} (handler : H) : IsLine irq → s.handlers (index irq) = none →
      Calls s (registerIrqHandler irq handler)
  /-- the destructor of a registration -/
  | destroy {s : State H} {irq : BitVec 8} : IsLine irq → (s.handlers (index irq)).isSome →
      Calls s (isrRegistrationDestroy irq)

theorem quiet_raise (s : State H) (irq : Fin 16) : Quiet s { s with pic := s.pic.raise irq } := by
  rw [Pair.raise]
  split
  · exact ⟨⟨rfl, rfl, rfl⟩, rfl, rfl, rfl, rfl⟩
  · exact ⟨⟨rfl, rfl, rfl⟩, rfl, rfl, rfl, rfl⟩

/-- The vectors of the first controller. -/
theorem irqNumber_first (i : Fin 8) :
    IsIrq (0x30 + BitVec.ofNat 8 i.val) ∧ irqNumber (0x30 + BitVec.ofNat 8 i.val) = Pair.first i := by
  revert i
  decide

/-- The vectors of the second controller. -/
theorem irqNumber_second (j : Fin 8) :
    IsIrq (0x38 + BitVec.ofNat 8 j.val) ∧ irqNumber (0x38 + BitVec.ofNat 8 j.val) = Pair.second j := by
  revert j
  decide

/-- The only line with another controller. -/
theorem cascade_iff (hgood : Good s) (i : Fin 8) : s.pic.master.setup.cascade.getLsbD i = true ↔ i = 2 := by
  rw [hgood.master.cascade]
  revert i
  decide

/-- **An interrupt fires** for a line with a handler, and is handled. -/
theorem Fires.safe (h : Fires n s t) (hidle : Idle s) :
    Same s t ∧ Thread.Safe Quiet Same (fun _ => Idle) (interruptServiceRoutine n) t := by
  obtain ⟨hp⟩ := h
  have hgood := hidle.good
  have hauto := hgood.master.autoEoi
  rcases Pair.acknowledge_cases hp with ⟨i, hcascade, hmask, rfl, rfl, rfl⟩ | ⟨i, j, hcascade, hmask, rfl, rfl, rfl⟩
  · let t : State H := { s with
      pic := ⟨s.pic.wired.acknowledge i, s.pic.slave⟩, acknowledged := s.acknowledged ++ [Pair.first i] }
    have hsame : Same s t := ⟨rfl, rfl, rfl⟩
    have hline : Pair.first i ≠ 2 := fun heq => by
      have hi : i = 2 := Fin.ext (congrArg (fun k : Fin 16 => k.val) heq)
      exact Bool.false_ne_true (hcascade.symm.trans ((cascade_iff hgood i).mpr hi))
    have hhandler : (s.handlers (Pair.first i)).isSome := by
      refine hgood.handled _ hline ?_
      rw [State.mask, getLsbD_wide (Pair.first i).isLt, if_pos (show (Pair.first i).val < 8 from i.isLt)]
      exact hmask
    have hservice : InService t (Pair.first i) :=
      .inl ⟨i, rfl, Chip.acknowledge_isr hidle.master hauto i, hidle.slave⟩
    rw [hgood.master.vector]
    exact ⟨hsame, interruptServiceRoutine_safe (hgood.same hsame) (irqNumber_first i) hhandler hservice
      (congrArg (· ++ [Pair.first i]) hidle.called)⟩
  · obtain rfl := (cascade_iff hgood i).mp hcascade
    let t : State H := { s with
      pic := ⟨s.pic.wired.acknowledge 2, s.pic.slave.acknowledge j⟩
      acknowledged := s.acknowledged ++ [Pair.second j] }
    have hsame : Same s t := ⟨rfl, rfl, rfl⟩
    have hge : ¬ (Pair.second j).val < 8 := Nat.not_lt.mpr (Nat.le_add_right ..)
    have hhandler : (s.handlers (Pair.second j)).isSome := by
      refine hgood.handled _ (fun heq => hge (heq ▸ by decide)) ?_
      rw [State.mask, getLsbD_wide (Pair.second j).isLt, if_neg hge]
      refine (congrArg s.pic.slave.setup.imr.getLsbD ?_).trans hmask
      exact Nat.add_sub_cancel_left ..
    have hservice : InService t (Pair.second j) :=
      .inr ⟨j, rfl, Chip.acknowledge_isr hidle.master hauto 2, Chip.acknowledge_isr hidle.slave hgood.slave.autoEoi j⟩
    rw [hgood.slave.vector]
    exact ⟨hsame, interruptServiceRoutine_safe (hgood.same hsame) (irqNumber_second j) hhandler hservice
      (congrArg (· ++ [Pair.second j]) hidle.called)⟩

/-- The programs are safe together. -/
theorem compatible : Processor.Compatible (σ := State H) Raises Fires interruptServiceRoutine Calls Same Registering Quiet Same
    Idle Settled where
  refl_main := .refl
  trans_main := .trans
  refl_isr := .refl
  trans_isr := .trans
  env_rely h := by
    obtain ⟨irq⟩ := h
    exact ⟨(quiet_raise _ irq).1, quiet_raise _ irq, fun hidle => hidle.quiet (quiet_raise _ irq)⟩
  main_idle h hidle := hidle.of_sameService h.1 h.2
  isr_rely := id
  fire_safe h hidle := h.safe hidle
  call_safe h hidle hsettled := by
    cases h with
    | register handler hline hnone => exact registerIrqHandler_safe hidle.good hsettled hline handler hnone
    | destroy hline hsome => exact isrRegistrationDestroy_safe hidle.good hsettled hline hsome

end Interrupts

/-! ## The beginning and the end -/

section Lifetime

variable {H : Type}

/-- A controller that is set up, with no requests. -/
def setUp (vector cascade imr isr : BitVec 8) : Chip := ⟨⟨imr, vector &&& 0xf8, cascade, false, 0, false, true⟩, 0, isr⟩

/-- **`pic_remap`** sets the controllers up, whatever they were doing before. -/
theorem picRemap_run (s : State H) (pic1Offset pic2Offset : BitVec 8) :
    (picRemap pic1Offset pic2Offset).run s = .done ((), { s with
      pic := ⟨setUp pic1Offset 4 0xff s.pic.master.isr, setUp pic2Offset 2 0xff s.pic.slave.isr⟩ }) := by
  rfl

/-- The controllers before the kernel uses them: no interrupt is handled. -/
structure Booted (s : State H) : Prop where
  /-- no line of the first controller is in service -/
  master : s.pic.master.isr = 0
  /-- nor is one of the second controller -/
  slave : s.pic.slave.isr = 0
  /-- there are no handlers -/
  handlers : s.handlers = fun _ => none
  /-- nothing is recorded -/
  recorded : s.acknowledged = [] ∧ s.called = []

/-- The system when the constructor is through. -/
def Started (s : State H) (sys : Processor (State H)) : Prop :=
  ∃ oldPicMask t, picState.run s = .done (oldPicMask, t) ∧ sys = ⟨.ret (), none, t⟩

/-- The steps of the devices, of the processor and of the kernel. -/
abbrev Step : Processor (State H) → Processor (State H) → Prop := Processor.Step Raises Fires interruptServiceRoutine Calls

/-- The system is safe. -/
abbrev Inv : Processor (State H) → Prop := Processor.Inv Same Registering Quiet Same Idle Settled

variable {s : State H} {sys : Processor (State H)}

/-- **The constructor** masks all the lines, except for the one of the second controller. -/
theorem Started.inv (hboot : Booted s) (h : Started s sys) : Inv sys := by
  obtain ⟨oldPicMask, t, hrun, rfl⟩ := h
  have hstarted : picState.run s = .done (s.mask, { s with
      pic := ⟨setUp 0x30 4 0xfb s.pic.master.isr, setUp 0x38 2 0xff s.pic.slave.isr⟩ }) := rfl
  cases hstarted.symm.trans hrun
  have hmask : ∀ irq : Fin 16, irq ≠ 2 → (wide 0xfb 0xff).getLsbD irq = true := by decide
  have hline : (wide 0xfb 0xff).getLsbD 2 = false := by decide
  have hgood : Good { s with pic := ⟨setUp 0x30 4 0xfb s.pic.master.isr, setUp 0x38 2 0xff s.pic.slave.isr⟩ } :=
    ⟨⟨rfl, rfl, rfl, rfl⟩, ⟨rfl, rfl, rfl, rfl⟩, ⟨hline, congrFun hboot.handlers 2⟩, fun irq hne hclear =>
      absurd ((hmask irq hne).symm.trans hclear) (by decide)⟩
  refine ⟨fun u hu irq hne => ?_, fun p hp => (by cases hp), fun _ => ⟨hgood, hboot.master, hboot.slave, ?_⟩⟩
  · rw [hu.mask, hu.handlers]
    change (wide 0xfb 0xff).getLsbD irq = false ↔ (s.handlers irq).isSome
    rw [hmask irq hne, hboot.handlers]
    exact iff_of_false (by decide) Bool.false_ne_true
  · exact hboot.recorded.2.trans hboot.recorded.1.symm

/-- **Interrupts are handled** in every run: devices raise lines at any time, handlers are registered and taken
back, and interrupts come in between. Neither the kernel nor the code for an interrupt stops.
When no interrupt is handled, no line is in service, the handlers of all the lines that were
acknowledged were called, and if there is a request of a line that is not masked, an interrupt fires
for that line or for one of a higher priority. When no handler is being registered or taken back,
exactly the lines with handlers are not masked. -/
theorem irq_handled (hboot : Booted s) (h : Reach (Started s) Step sys) :
    sys.main ≠ .abort ∧ sys.handler ≠ some .abort ∧
      (sys.handler = none → Idle sys.state ∧ ∀ irq, irq ≠ 2 → sys.state.pic.requested irq = true →
        sys.state.pic.masked irq = false → ∃ n line t, Fires n sys.state t ∧
          t.acknowledged = sys.state.acknowledged ++ [line] ∧ Pair.rank line ≤ Pair.rank irq) ∧
      (sys.main = .ret () → Settled sys.state) := by
  have hinv : Inv sys := Processor.invariant compatible (fun _ h => h.inv hboot) h
  obtain ⟨hmain, hhandler, hidle⟩ := hinv
  refine ⟨fun habort => ?_, fun habort => hhandler _ habort, fun hnone => ⟨hidle hnone, fun irq hne hrequest hmask => ?_⟩,
    fun hret => ?_⟩
  · rw [habort] at hmain
    exact hmain
  · have hi := hidle hnone
    have hline2 := hi.good.line2.1
    rw [State.mask, getLsbD_wide (by decide), if_pos (by decide)] at hline2
    obtain ⟨line, n, p, hp, hrank⟩ := Pair.exists_acknowledge hi.master hi.slave (cascade_iff hi.good) hline2 hne
      hrequest hmask
    exact ⟨n, line, _, .acknowledge hp, rfl, hrank⟩
  · rw [hret] at hmain
    exact hmain _ (.refl _)

/-- Controllers as the firmware leaves them, with some requests. -/
def firmware : State Unit where
  pic := ⟨⟨⟨0xb8, 0x08, 4, false, 0, false, true⟩, 0x01, 0⟩, ⟨⟨0x8e, 0x70, 2, false, 0, false, true⟩, 0x40, 0⟩⟩
  handlers _ := none
  acknowledged := []
  called := []

/-- The controllers behind the constructor, with what else is recorded. -/
def remapped (imr irr : BitVec 8) (handlers : Fin 16 → Option Unit) (lines : List (Fin 16)) : State Unit where
  pic := ⟨⟨⟨imr, 0x30, 4, false, 0, false, true⟩, irr, 0⟩, ⟨⟨0xff, 0x38, 2, false, 0, false, true⟩, 0, 0⟩⟩
  handlers := handlers
  acknowledged := lines
  called := lines

/-- The keyboard has a handler. -/
def keyboard : Fin 16 → Option Unit := Function.update (fun _ => none) (index 1) (some ())

/-- A handler for the keyboard is registered, the keyboard raises its line, and the interrupt is handled. -/
theorem reach_keyboard {init : Processor (State Unit) → Prop}
    (h : Reach init Step ⟨.ret (), none, remapped 0xfb 0 (fun _ => none) []⟩) :
    Reach init Step ⟨.ret (), none, remapped 0xf9 0 keyboard [1]⟩ := by
  have hcalled : Reach init Step ⟨registerIrqHandler 1 (), none, remapped 0xfb 0 (fun _ => none) []⟩ :=
    h.step (.call (.register () (by decide) rfl))
  have hregistered : Reach init Step ⟨.ret (), none, remapped 0xf9 0 keyboard []⟩ := Processor.run_main rfl hcalled
  have hraised : Reach init Step ⟨.ret (), none, remapped 0xf9 2 keyboard []⟩ := hregistered.step (.env (.raise 1))
  exact Processor.run_handler rfl (hraised.step (.fire (.acknowledge (n := 0x31) rfl)))

/-- An interrupt of the keyboard is handled, and the next one fires. -/
theorem irq_handled_keyboard : ∃ sys : Processor (State Unit), Reach (Started firmware) Step sys ∧
    sys.state.called = [1] ∧ Idle sys.state ∧ Settled sys.state ∧
    ∃ n line t, Fires n sys.state t ∧ t.acknowledged = [1, line] ∧ Pair.rank line ≤ Pair.rank 1 := by
  have hstart : Reach (Started firmware) Step ⟨.ret (), none, remapped 0xfb 0 (fun _ => none) []⟩ := .start ⟨_, _, rfl, rfl⟩
  have hraised := (reach_keyboard hstart).step (.env (.raise 1))
  obtain ⟨-, -, hidle, hsettled⟩ := irq_handled ⟨rfl, rfl, rfl, rfl, rfl⟩ hraised
  exact ⟨_, hraised, rfl, (hidle rfl).1, hsettled rfl, (hidle rfl).2 1 (by decide) rfl rfl⟩

/-- **The controllers are given back** at the end of every run in which all the registrations were taken back: they
have the vectors of the firmware and the mask that the constructor found. -/
theorem picState_restores (hboot : Booted s) {oldPicMask : BitVec 16} {t : State H}
    (hstart : picState.run s = .done (oldPicMask, t))
    (h : Reach (fun sys => sys = ⟨.ret (), none, t⟩) Step sys) (hhandler : sys.handler = none)
    (hnone : ∀ irq, sys.state.handlers irq = none) :
    ∃ u, (isrHandlerDestroy oldPicMask).run sys.state = .done ((), u) ∧ u.mask = s.mask ∧
      u.pic.master = setUp 0x08 4 s.pic.master.setup.imr 0 ∧ u.pic.slave = setUp 0x70 2 s.pic.slave.setup.imr 0 := by
  have hinv : Inv sys := Processor.invariant compatible (fun _ h => Started.inv hboot ⟨_, _, hstart, h⟩) h
  have hi := hinv.idle hhandler
  cases (show picState.run s = .done (s.mask, _) from rfl).symm.trans hstart
  have hnone' : ∀ irq, (sys.state.handlers irq).isNone := fun irq => by rw [hnone irq]; rfl
  have hrun : (isrHandlerDestroy s.mask).run sys.state = .done ((), { sys.state with
      pic := ⟨setUp 0x08 4 ((s.mask &&& 0xff).setWidth 8) sys.state.pic.master.isr,
        setUp 0x70 2 ((s.mask >>> 8).setWidth 8) sys.state.pic.slave.isr⟩ }) := by
    change (Thread.require (∀ irq, (sys.state.handlers irq).isNone) >>= fun _ => _).run sys.state = _
    rw [Thread.require, if_pos hnone']
    rfl
  have hlow : (s.mask &&& 0xff).setWidth 8 = s.pic.master.setup.imr := by
    refine BitVec.eq_of_getLsbD_eq fun i hi => (getLsbD_low hi).trans ?_
    rw [State.mask, getLsbD_wide (by omega), if_pos hi]
  have hhigh : (s.mask >>> 8).setWidth 8 = s.pic.slave.setup.imr := by
    refine BitVec.eq_of_getLsbD_eq fun i hi => (getLsbD_high hi).trans ?_
    rw [State.mask, getLsbD_wide (by omega), if_neg (by omega), Nat.add_sub_cancel_left]
  rw [hi.master, hi.slave, hlow, hhigh] at hrun
  exact ⟨_, hrun, rfl, rfl, rfl⟩

/-- An interrupt of the keyboard is handled, and the registration is taken back. -/
theorem picState_restores_firmware : ∃ t u : State Unit, t.called = [1] ∧
    (isrHandlerDestroy 0x8eb8).run t = .done ((), u) ∧ u.mask = 0x8eb8 := by
  have hrun : picState.run firmware = .done (0x8eb8, remapped 0xfb 0 (fun _ => none) []) := rfl
  have hstart : Reach (fun sys => sys = ⟨.ret (), none, remapped 0xfb 0 (fun _ => none) []⟩) Step
      ⟨.ret (), none, remapped 0xfb 0 (fun _ => none) []⟩ := .start rfl
  have hcall : Calls (remapped 0xf9 0 keyboard [1]) (isrRegistrationDestroy 1) := .destroy (by decide) rfl
  have hdestroyed := Processor.run_main rfl ((reach_keyboard hstart).step (.call hcall))
  obtain ⟨u, hdestroy, hmask, -⟩ := picState_restores ⟨rfl, rfl, rfl, rfl, rfl⟩ hrun hdestroyed rfl (by decide)
  exact ⟨_, u, rfl, hdestroy, hmask⟩

end Lifetime

end Attos.Isr
