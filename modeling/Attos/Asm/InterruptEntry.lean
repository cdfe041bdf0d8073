import Attos.Asm.Win64Proc
import Attos.Asm.RegistersStruct

/-!
# Interrupts

The processor pushes a machine frame, `isr_code` pushes an error code if there is none and the number
of the interrupt, and `isr_common` saves the registers of the interrupted program below, as a
`registers` that it gives to `interrupt_service_routine`. Behind the call, it loads what is there
then, and the machine frame too.

So the service routine sees the registers of the interrupted program, and the program goes on with
those that it leaves there (`interrupt_transparent`): if it leaves them as they are, the program
is not interrupted as far as its registers are concerned.
-/

namespace Attos.Asm

open Lib Lib.X64 Registers

/-! ## The code -/

/-- `has_error_code` -/
def HasErrorCode (n : BitVec 8) : Prop :=
  n = 0x08 ∨ n = 0x0A ∨ n = 0x0B ∨ n = 0x0C ∨ n = 0x0D ∨ n = 0x0E ∨ n = 0x11

instance (n : BitVec 8) : Decidable (HasErrorCode n) :=
  inferInstanceAs (Decidable (n = 0x08 ∨ n = 0x0A ∨ n = 0x0B ∨ n = 0x0C ∨ n = 0x0D ∨ n = 0x0E ∨ n = 0x11))

/-- The instructions of `isr_code` for an interrupt, in front of the jump to `isr_common`. -/
def isrCode (n : BitVec 8) : List Instr := (if HasErrorCode n then [] else [.pushImm 0]) ++ [.pushImm n]

/-- `isr_local_size` -/
def isrLocalSize : ℕ := 32

/-- `isr_common_stack_alloc` -/
def isrCommonStackAlloc : ℕ := savedSize + isrLocalSize

/-- `isr_common_reg_offset` -/
def isrCommonRegOffset (field : RegistersField) : ℕ := isrLocalSize + registersOffset field

/-- `kernel_cs` -/
def kernelCs : BitVec 16 := 0x08

/-- The registers that are saved, in this order. -/
def savedRegs : List Reg := [.rax, .rbx, .rcx, .rdx, .rbp, .rsi, .rdi, .r8, .r9, .r10, .r11, .r12, .r13, .r14, .r15]

/-- The prologue of `isr_common`. -/
def isrPrologue : List PrologueMacro :=
  [.pushMachineframeUnwind, .allocUnwind (2 * 8), .alloc isrCommonStackAlloc] ++
    savedRegs.map fun r => .saveReg (isrCommonRegOffset (.reg r)) r

/-- `isr_common`, up to the call of `interrupt_service_routine`. -/
def isrEnter : List Instr :=
  prologueCode isrPrologue ++ [.fxsave .rsp (isrCommonRegOffset .fxState), .cld, .lea .rcx .rsp isrLocalSize]

/-- `isr_common`, behind the call and up to `iretq`. -/
def isrLeave : Option (List Instr) := do
  let epilogue ← win64Epilogue (layout 0 isrPrologue)
  pure (.fxrstor .rsp (isrCommonRegOffset .fxState) :: epilogue)

/-! ## The frame -/

/-- The frame of `isr_common`. -/
def isrFrame : Frame := ⟨696, 16, savedRegs.reverse.map fun r => (664 - registersOffset (.reg r), r)⟩

theorem isrFrame_steps : Frame.empty.steps isrPrologue = some isrFrame := rfl

theorem isrFrame_saved {r : Reg} (hr : r ≠ .rsp) : (664 - registersOffset (.reg r), r) ∈ isrFrame.saved := by
  refine List.mem_map_of_mem (f := fun r => (664 - registersOffset (.reg r), r)) (List.mem_reverse.mpr ?_)
  cases r <;> first | exact absurd rfl hr | decide

section Frame

variable {top : Word} {m m' : Machine}

/-- Where a field of the structure is. -/
theorem fieldAddr_below (field : RegistersField) (h : registersOffset field ≤ 664) :
    fieldAddr (below top 664) field = below top (664 - registersOffset field) := below_add top h

theorem registersOffset_reg {r : Reg} (hr : r ≠ .rsp) : registersOffset (.reg r) ≤ 112 := by
  cases r <;> first | exact absurd rfl hr | decide

/-- The area of `fxsave` is aligned. -/
theorem fx_aligned (htop : top.toNat % 16 = 8) : (below top 536).toNat % 16 = 0 := by
  rw [below, BitVec.toNat_sub, BitVec.toNat_ofNat]
  omega

/-- The machine has saved the registers of another one in a structure below `top`. -/
structure Saved (top : Word) (m m' : Machine) : Prop where
  /-- the stack pointer is below it -/
  rsp : m'.reg .rsp = below top 696
  /-- it is the argument -/
  rcx : m'.reg .rcx = below top 664
  /-- the general registers -/
  reg : ∀ r, r ≠ .rsp → m'.mem.load64 (fieldAddr (below top 664) (.reg r)) = m.reg r
  /-- the x87 and SSE state -/
  fx : ∀ i : Fin 512, m'.mem (fieldAddr (below top 664) .fxState + BitVec.ofNat 64 i) = m.fx i
  /-- memory is written there only -/
  memory : ∀ x, ¬ InBlock (below top 696) 680 x → m'.mem x = m.mem x

/-- **The registers are saved.** -/
theorem isrEnter_saved (hrsp : m.reg .rsp = below top 16) (htop : top.toNat % 16 = 8) :
    ∃ m', Machine.run isrEnter m = .done m' ∧ Saved top m m' := by
  obtain ⟨m₁, hrun, h⟩ := (Built.empty hrsp).steps Frame.empty_valid isrFrame_steps (by decide) rfl
  have hrsp₁ : m₁.reg .rsp = below top 696 := h.rsp
  have haddr : m₁.addr .rsp (isrCommonRegOffset .fxState) = below top 536 := by
    rw [Machine.addr, hrsp₁]
    exact below_add top (by decide)
  have hstruct : below top 696 + BitVec.ofNat 64 isrLocalSize = below top 664 := below_add top (by decide)
  have hfx : fieldAddr (below top 664) .fxState = below top 536 := fieldAddr_below _ (by decide)
  refine ⟨({ m₁ with mem := m₁.fxStore (below top 536), flags := m₁.flags &&& ~~~directionFlag }).set .rcx (below top 664), ?_, ?_⟩
  · rw [isrEnter, Machine.run_append, hrun, Outcome.done_bind, Machine.run_cons,
      Machine.exec_fxsave haddr (fx_aligned htop), Outcome.done_bind]
    have hlea : m₁.addr .rsp isrLocalSize = below top 664 := by
      rw [Machine.addr, hrsp₁, hstruct]
    exact congrArg (fun a => Outcome.done (Machine.set _ .rcx a)) hlea
  · refine ⟨?_, Machine.set_reg_self .., ?_, ?_, ?_⟩
    · rw [Machine.set_reg_ne _ _ (by decide)]
      exact hrsp₁
    · intro r hr
      have hle := registersOffset_reg hr
      have hplace := h.saved _ (isrFrame_saved hr)
      rw [fieldAddr_below _ (by omega), ← hplace]
      exact m₁.load64_fxStore_apart (apart_below top (.inr (by omega)) (by decide) (by omega) (by decide) (by decide)
        (by decide) (by decide))
    · intro i
      rw [hfx]
      exact (m₁.fxStore_byte (below top 536) i).trans (congrFun h.rest.1 i)
    · intro x hx
      have hout : ¬ InBlock (below top 536) 512 x :=
        fun hin => hx (inBlock_below hin (by decide) (by decide) (by decide))
      exact (m₁.fxStore_of_not_inBlock hout).trans (h.memory x hx)

/-- The machine `m'` has loaded the registers of a structure below `top`, from the machine `m`. -/
structure Loaded (top : Word) (m m' : Machine) : Prop where
  /-- the stack pointer is above it -/
  rsp : m'.reg .rsp = top
  /-- the general registers -/
  reg : ∀ r, r ≠ .rsp → m'.reg r = m.mem.load64 (fieldAddr (below top 664) (.reg r))
  /-- the x87 and SSE state -/
  fx : ∀ i : Fin 512, m'.fx i = m.mem (fieldAddr (below top 664) .fxState + BitVec.ofNat 64 i)
  /-- memory is as it was -/
  mem : m'.mem = m.mem

/-- **The registers are loaded.** -/
theorem isrLeave_loaded (hrsp : m.reg .rsp = below top 696) (htop : top.toNat % 16 = 8) :
    ∃ code m', isrLeave = some code ∧ Machine.run code m = .done m' ∧ Loaded top m m' := by
  have hsteps : Frame.empty.steps ((layout 0 isrPrologue).map Prod.snd) = some isrFrame := by
    rw [map_snd_layout]
    exact isrFrame_steps
  have hepilogue := win64Epilogue_eq hsteps (List.cons_ne_nil _ _) (by decide)
  rw [map_snd_layout] at hepilogue
  have haddr : m.addr .rsp (isrCommonRegOffset .fxState) = below top 536 := by
    rw [Machine.addr, hrsp]
    exact below_add top (by decide)
  have hfx : fieldAddr (below top 664) .fxState = below top 536 := fieldAddr_below _ (by decide)
  obtain ⟨m', hrun, h⟩ := undoCode_restores (m := { m with fx := m.fxImage (below top 536) }) isrFrame_steps hrsp
  refine ⟨.fxrstor .rsp (isrCommonRegOffset .fxState) :: undoCode isrPrologue, m', ?_, ?_, h.rsp, ?_, ?_, h.rest.1⟩
  · rw [isrLeave, hepilogue]
    rfl
  · rw [Machine.run_cons, Machine.exec_fxrstor haddr (fx_aligned htop), Outcome.done_bind]
    exact hrun
  · intro r hr
    have hle := registersOffset_reg hr
    rw [fieldAddr_below _ (by omega)]
    exact h.saved _ (isrFrame_saved hr)
  · intro i
    rw [h.rest.2.1, hfx]
    rfl

end Frame

/-! ## The machine frame -/

section Interrupt

variable (m : Machine) (rsp0 handler : Word) (n : BitVec 8) (error : Option Word)

/-- What is on the stack when `isr_common` is entered. -/
def interruptWords : List Word :=
  [m.ss.setWidth 64, m.reg .rsp, m.flags, m.cs.setWidth 64, m.rip, error.getD 0, n.signExtend 64]

/-- Where it is. -/
def interruptBase : Word := (if m.cs &&& 3 ≠ 0 then rsp0 else m.reg .rsp) &&& ~~~15

theorem interruptBase_aligned : (interruptBase m rsp0).toNat % 16 = 0 := by
  have hand : (interruptBase m rsp0) &&& 15 = 0 := by
    rw [interruptBase, BitVec.and_assoc]
    exact BitVec.and_zero
  have hmod : (interruptBase m rsp0).toNat &&& 15 = 0 := congrArg BitVec.toNat hand
  rwa [Nat.and_two_pow_sub_one_eq_mod _ 4] at hmod

/-- An aligned stack pointer is used as it is. -/
theorem and_of_aligned {w : Word} (h : w.toNat % 16 = 0) : w &&& ~~~15 = w := by
  have hlow : w &&& 15 = 0#64 := by
    apply BitVec.eq_of_toNat_eq
    exact (Nat.and_two_pow_sub_one_eq_mod w.toNat 4).trans h
  have hall : (15 ||| ~~~15 : Word) = BitVec.allOnes 64 := by decide
  calc w &&& ~~~15 = (w &&& 15) ||| (w &&& ~~~15) := by rw [hlow, BitVec.zero_or]
    _ = w &&& (15 ||| ~~~15) := BitVec.and_or_distrib_left.symm
    _ = w := by rw [hall, BitVec.and_allOnes]

/-- `push` extends the number of an interrupt, and its low byte stays as it is. -/
theorem setWidth_signExtend (n : BitVec 8) : (n.signExtend 64).setWidth 8 = n := by
  ext i hi
  rw [BitVec.getElem_setWidth, BitVec.getLsbD_signExtend, if_pos hi, decide_eq_true (hi.trans (by decide)),
    Bool.true_and, BitVec.getLsbD_eq_getElem hi]

/-- The words of an interrupt, in the parts that they are pushed in. -/
theorem interruptWords_eq (herror : error.isSome ↔ HasErrorCode n) :
    interruptWords m n error = ([m.ss.setWidth 64, m.reg .rsp, m.flags, m.cs.setWidth 64, m.rip] ++ error.toList) ++
      ((if HasErrorCode n then [] else [0]) ++ [n.signExtend 64]) := by
  cases error with
  | none => rw [if_neg fun h => Bool.false_ne_true (herror.mpr h)]; rfl
  | some e => rw [if_pos (herror.mp rfl)]; rfl

/-- The words that the code of an interrupt pushes. -/
def isrWords (n : BitVec 8) : List Word := (if HasErrorCode n then [] else [0]) ++ [n.signExtend 64]

theorem isrCode_pushes : Machine.run (isrCode n) m = .done (m.pushWords (isrWords n)) := by
  rw [isrCode, isrWords]
  split_ifs <;> rfl

/-- What is pushed does not depend on where the code is. -/
theorem pushWords_with (m : Machine) (ws : List Word) (rip flags : Word) (cs ss : BitVec 16) :
    Machine.pushWords { m with rip := rip, flags := flags, cs := cs, ss := ss } ws =
      { m.pushWords ws with rip := rip, flags := flags, cs := cs, ss := ss } := by
  induction ws generalizing m with
  | nil => rfl
  | cons w ws ih => exact ih (m.pushWord w)

/-- **The machine that enters `isr_common`.** -/
theorem isrCode_run (herror : error.isSome ↔ HasErrorCode n) :
    Machine.run (isrCode n) (m.interrupt rsp0 kernelCs handler error) =
      .done { (m.set .rsp (interruptBase m rsp0)).pushWords (interruptWords m n error) with
        rip := handler
        cs := kernelCs
        ss := if m.cs &&& 3 ≠ 0 then 0 else m.ss
        flags := m.flags &&& ~~~Machine.interruptClears } := by
  rw [isrCode_pushes, Machine.interrupt, pushWords_with, ← Machine.pushWords_append, isrWords,
    ← interruptWords_eq m n error herror]
  rfl

/-- The structure ends at the base. -/
theorem fieldAddr_base (base : Word) (field : RegistersField) (h : registersOffset field ≤ 704) :
    fieldAddr (below (below base 40) 664) field = below base (704 - registersOffset field) := by
  rw [below, below_sub]
  exact below_add base h

/-- The fields of the machine frame, from its address. -/
theorem fieldAddr_machineframe (top : Word) (field : RegistersField) (k : ℕ) (h : registersOffset field = 664 + k) :
    fieldAddr (below top 664) field = top + BitVec.ofNat 64 k := by
  rw [fieldAddr, h, BitVec.ofNat_add, below]
  grind

/-- **`iretq`** loads the machine frame of the structure, if the other registers are loaded already. -/
theorem Loaded.iretq {top : Word} {m m' : Machine} (h : Loaded top m m') :
    (Registers.read m.mem (below top 664)).Of m'.iretq ∧
      m'.iretq.flags = m.mem.load64 (fieldAddr (below top 664) .rflags) := by
  have haddr : ∀ (field : RegistersField) (k : ℕ), registersOffset field = 664 + k →
      m'.addr .rsp k = fieldAddr (below top 664) field := by
    intro field k hk
    rw [fieldAddr_machineframe top field k hk, Machine.addr, h.rsp]
  have hflags : m'.iretq.flags = m.mem.load64 (fieldAddr (below top 664) .rflags) := by
    rw [Machine.iretq_flags, haddr .rflags 16 rfl, h.mem]
  refine ⟨⟨fun r => ?_, fun i => (read_fxState ..).trans (h.fx i).symm, ?_, ?_, ?_, ?_⟩, hflags⟩
  · rw [read_get]
    by_cases hr : r = .rsp
    · rw [hr, Machine.iretq_rsp, haddr (.reg .rsp) 24 rfl, h.mem]
    · rw [Machine.iretq_reg _ hr, h.reg r hr]
  · rw [read_rip, Machine.iretq_rip, haddr .rip 0 rfl, h.mem]
  · rw [read_cs, Machine.iretq_cs, haddr .cs 8 rfl, h.mem, Ram.load16_eq]
  · rw [read_eflags, hflags]
  · rw [read_ss, Machine.iretq_ss, haddr .ss 32 rfl, h.mem, Ram.load16_eq]

/-- The machine `m₁` has saved the registers of the interrupted machine `m` for the service routine. -/
structure Interrupted (m₁ : Machine) : Prop where
  /-- the stack pointer is below the structure -/
  rsp : m₁.reg .rsp = below (interruptBase m rsp0) 736
  /-- the structure is the argument -/
  rcx : m₁.reg .rcx = below (interruptBase m rsp0) 704
  /-- the registers are in it -/
  of : (Registers.read m₁.mem (m₁.reg .rcx)).Of m
  /-- so are all the flags -/
  flags : m₁.mem.load64 (fieldAddr (m₁.reg .rcx) .rflags) = m.flags
  /-- so is the number of the interrupt -/
  interruptNo : (Registers.read m₁.mem (m₁.reg .rcx)).interruptNo = n
  /-- so is the error code -/
  errorCode : (Registers.read m₁.mem (m₁.reg .rcx)).errorCode = error.getD 0
  /-- memory is written there only -/
  memory : ∀ x, ¬ InBlock (below (interruptBase m rsp0) 736) 736 x → m₁.mem x = m.mem x

theorem interruptBase_top : (below (interruptBase m rsp0) 40).toNat % 16 = 8 := by
  have haligned := interruptBase_aligned m rsp0
  rw [below, BitVec.toNat_sub, BitVec.toNat_ofNat]
  omega

/-- **The registers are saved**, with the machine frame. -/
theorem interrupt_saves (herror : error.isSome ↔ HasErrorCode n) :
    ∃ m₀ m₁, Machine.run (isrCode n) (m.interrupt rsp0 kernelCs handler error) = .done m₀ ∧
      Machine.run isrEnter m₀ = .done m₁ ∧ Interrupted m rsp0 n error m₁ := by
  let base := interruptBase m rsp0
  let top := below base 40
  have hpushed := Machine.pushWords_pushed (m.set .rsp base) (interruptWords m n error) (by simp [interruptWords])
  have hrun := isrCode_run m rsp0 handler n error herror
  generalize hm₀ : ({ (m.set .rsp (interruptBase m rsp0)).pushWords (interruptWords m n error) with
    rip := handler
    cs := kernelCs
    ss := if m.cs &&& 3 ≠ 0 then 0 else m.ss
    flags := m.flags &&& ~~~Machine.interruptClears } : Machine) = m₀ at hrun
  have hmem₀ : m₀.mem = ((m.set .rsp base).pushWords (interruptWords m n error)).mem := hm₀ ▸ rfl
  have hreg₀ : m₀.reg = ((m.set .rsp base).pushWords (interruptWords m n error)).reg := hm₀ ▸ rfl
  have hfx₀ : m₀.fx = m.fx := hm₀ ▸ hpushed.rest.1
  have hbase : (m.set .rsp base).reg .rsp = base := Machine.set_reg_self ..
  have hrsp₀ : m₀.reg .rsp = below top 16 := by
    rw [hreg₀, hpushed.rsp, hbase]
    exact (below_sub base (d := 40) (k := 16)).symm
  obtain ⟨m₁, hrun₁, hsaved⟩ := isrEnter_saved hrsp₀ (interruptBase_top m rsp0)
  -- The words that are pushed are above the registers that are saved.
  have hword : ∀ (field : RegistersField) (i : ℕ) (hi : i < 7), registersOffset field + 8 * (i + 1) = 704 →
      m₁.mem.load64 (fieldAddr (below top 664) field) = (interruptWords m n error)[i] := by
    intro field i hi hoffset
    rw [fieldAddr_base base field (by omega)]
    have hat := hpushed.word i hi
    rw [hbase, ← hmem₀] at hat
    have hplace : 704 - registersOffset field = 8 * (i + 1) := by omega
    rw [hplace, ← hat]
    refine Ram.load64_congr fun x hx => hsaved.memory x fun hin => ?_
    rw [below, below_sub] at hin
    exact (apart_below base (.inl (by omega)) (by decide) (by omega) (by decide) (by decide) (by decide)
      (by decide)).not_inBlock hx hin
  have hof : (Registers.read m₁.mem (m₁.reg .rcx)).Of m := by
    rw [hsaved.rcx]
    refine ⟨fun r => ?_, fun i => (read_fxState ..).trans ((hsaved.fx i).trans (congrFun hfx₀ i)), ?_, ?_, ?_, ?_⟩
    · rw [read_get]
      by_cases hr : r = .rsp
      · rw [hr]
        exact hword (.reg .rsp) 1 (by decide) rfl
      · rw [hsaved.reg r hr, hreg₀, hpushed.reg r hr, Machine.set_reg_ne _ _ hr]
    · rw [read_rip]
      exact hword .rip 4 (by decide) rfl
    · rw [read_cs, hword .cs 3 (by decide) rfl]
      exact BitVec.setWidth_setWidth_of_le _ (by decide)
    · rw [read_eflags, hword .rflags 2 (by decide) rfl]
      rfl
    · rw [read_ss, hword .ss 0 (by decide) rfl]
      exact BitVec.setWidth_setWidth_of_le _ (by decide)
  have hrsp₁ : m₁.reg .rsp = below base 736 := by
    rw [hsaved.rsp, below, below_sub]
  have hrcx₁ : m₁.reg .rcx = below base 704 := by
    rw [hsaved.rcx, below, below_sub]
  refine ⟨m₀, m₁, hrun, hrun₁, hrsp₁, hrcx₁, hof, ?_, ?_, ?_, ?_⟩
  · rw [hsaved.rcx]
    exact hword .rflags 2 (by decide) rfl
  · rw [hsaved.rcx, read_interruptNo, hword .interruptNo 6 (by decide) rfl]
    exact setWidth_signExtend n
  · rw [hsaved.rcx, read_errorCode]
    exact hword .errorCode 5 (by decide) rfl
  · intro x hx
    have hframe : ¬ InBlock (below top 696) 680 x := by
      rw [below, below_sub]
      exact fun hin => hx (inBlock_below hin le_rfl (by decide) (by decide))
    have hwords : ¬ InBlock ((m.set .rsp base).reg .rsp - BitVec.ofNat 64 (8 * (interruptWords m n error).length))
        (8 * (interruptWords m n error).length) x := by
      rw [hbase]
      exact fun hin => hx (inBlock_below hin (by simp [interruptWords]) (by simp [interruptWords]) (by decide))
    rw [hsaved.memory x hframe, hmem₀, hpushed.memory x hwords, Machine.set_mem]

/-- **An interrupt** is transparent. The service routine gets the registers of the interrupted
program, the number of the interrupt and the error code. It can do with memory what it likes: when
it returns, the program goes on with the registers that are in the structure then. If it left the
structure as it was, they are those of the program. -/
theorem interrupt_transparent (herror : error.isSome ↔ HasErrorCode n) :
    ∃ m₀ m₁, Machine.run (isrCode n) (m.interrupt rsp0 kernelCs handler error) = .done m₀ ∧
      Machine.run isrEnter m₀ = .done m₁ ∧ Interrupted m rsp0 n error m₁ ∧
      ∀ m₂ : Machine, m₂.reg .rsp = m₁.reg .rsp → ∃ code m₃, isrLeave = some code ∧
        Machine.run code m₂ = .done m₃ ∧ m₃.iretq.mem = m₂.mem ∧
        (Registers.read m₂.mem (m₁.reg .rcx)).Of m₃.iretq ∧
        ((∀ x, InBlock (m₁.reg .rcx) registersSize x → m₂.mem x = m₁.mem x) →
          m₃.iretq.reg = m.reg ∧ m₃.iretq.fx = m.fx ∧ m₃.iretq.rip = m.rip ∧ m₃.iretq.cs = m.cs ∧
            m₃.iretq.flags = m.flags ∧ m₃.iretq.ss = m.ss) := by
  obtain ⟨m₀, m₁, hrun, hrun₁, h⟩ := interrupt_saves m rsp0 handler n error herror
  refine ⟨m₀, m₁, hrun, hrun₁, h, fun m₂ hrsp₂ => ?_⟩
  have hstruct : below (below (interruptBase m rsp0) 40) 664 = m₁.reg .rcx := by
    rw [h.rcx, below, below_sub]
  have hrsp : m₂.reg .rsp = below (below (interruptBase m rsp0) 40) 696 := by
    rw [hrsp₂, h.rsp]
    exact (below_sub _ (d := 40) (k := 696)).symm
  obtain ⟨code, m₃, hcode, hrun₃, hloaded⟩ := isrLeave_loaded hrsp (interruptBase_top m rsp0)
  obtain ⟨hof₃, hflags₃⟩ := hloaded.iretq
  rw [hstruct] at hof₃ hflags₃
  refine ⟨code, m₃, hcode, hrun₃, hloaded.mem, hof₃, fun hkept => ?_⟩
  obtain ⟨hreg, hfx, hrip, hcs, hss⟩ := h.of.congr hof₃ hkept
  refine ⟨hreg, hfx, hrip, hcs, ?_, hss⟩
  rw [hflags₃, load64_field_congr hkept _ (by decide), h.flags]

end Interrupt

/-- IRQ 0 interrupts a program, and the service routine sees its registers. -/
theorem interrupt_irq0 : ∃ m₀ m₁ code m₃,
    Machine.run (isrCode 0x30) (entered.interrupt 0 kernelCs 0x500000 none) = .done m₀ ∧
    Machine.run isrEnter m₀ = .done m₁ ∧ (Registers.read m₁.mem (m₁.reg .rcx)).Of entered ∧
    (Registers.read m₁.mem (m₁.reg .rcx)).interruptNo = 0x30 ∧ isrLeave = some code ∧
    Machine.run code m₁ = .done m₃ ∧ m₃.iretq.reg = entered.reg := by
  obtain ⟨m₀, m₁, hcode, henter, h, hleave⟩ := interrupt_transparent entered 0 0x500000 0x30 none (by decide)
  obtain ⟨code, m₃, hisr, hrun, -, -, hkept⟩ := hleave m₁ rfl
  exact ⟨m₀, m₁, code, m₃, hcode, henter, h.of, h.interruptNo, hisr, hrun, (hkept fun _ _ => rfl).1⟩

end Attos.Asm
