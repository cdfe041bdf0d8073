import Attos.Asm.InterruptEntry

/-!
# System calls

`syscall` leaves the stack pointer as it is, so `syscall_handler` has one word of memory that holds
the stack pointer of the kernel and exchanges the two. It saves the registers of the program in a
`registers` for `syscall_service_routine`, which hands it to the handler of the kernel, and loads it
again behind the call.

The handler sees the registers of the program, and the program goes on with those that the handler
returns, except for the two that `syscall` and `sysret` use themselves (`syscall_transparent`).
The word holds the stack pointer of the kernel again, so this is so for every system call of a
run (`syscalls_transparent`).
-/

namespace Attos.Asm

open Lib Lib.X64 Registers

/-! ## The code -/

/-- `user_cs` -/
def userCs : BitVec 16 := 0x23

/-- `user_ds` -/
def userDs : BitVec 16 := 0x1b

/-- What `syscall_enabler` writes to `msr_star`. -/
def syscallStar : Word := (kernelCs.setWidth 64 <<< 32) ||| ((userDs - 8).setWidth 64 <<< 48)

/-- What it writes to `msr_fmask`. -/
def syscallFmask : Word := (1 <<< 8) ||| (1 <<< 9) ||| (1 <<< 10) ||| (3 <<< 12) ||| (1 <<< 18)

/-- `syscall_local_size` -/
def syscallLocalSize : ℕ := 32

/-- `syscall_common_stack_alloc` -/
def syscallCommonStackAlloc : ℕ := registersSize + syscallLocalSize

/-- `syscall_common_reg_offset` -/
def syscallCommonRegOffset (field : RegistersField) : ℕ := syscallLocalSize + registersOffset field

/-- `syscall_unwind_hack_stack_adjust` -/
def syscallUnwindHackStackAdjust : ℕ := 5 * 8

/-- The macros at the beginning of `syscall_handler`. -/
def syscallAlloc : List PrologueMacro :=
  [.pushMachineframeUnwind, .alloc (syscallCommonStackAlloc - syscallUnwindHackStackAdjust)]

/-- The macros that save registers. -/
def syscallSaves : List PrologueMacro := savedRegs.map fun r => .saveReg (syscallCommonRegOffset (.reg r)) r

/-- The prologue of `syscall_handler`. It begins behind an `xchg` of seven bytes, and there is a `sub` of
four bytes in it. -/
def syscallPrologue : List (ℕ × PrologueMacro) := layout 7 syscallAlloc ++ layout 18 syscallSaves

/-- `syscall_handler`, up to the call of `syscall_service_routine`. -/
def syscallEnter (ptr : Word) : List Instr :=
  [.xchgAbs ptr .rsp] ++ prologueCode syscallAlloc ++ [.sub .rsp syscallUnwindHackStackAdjust] ++
    prologueCode syscallSaves ++
    [.loadAbs .rax ptr, .store .rsp (syscallCommonRegOffset (.reg .rsp)) .rax,
      .fxsave .rsp (syscallCommonRegOffset .fxState), .lea .rcx .rsp syscallLocalSize]

/-- `syscall_handler`, behind the call and up to `sysret`. -/
def syscallLeave (ptr : Word) : Option (List Instr) := do
  let epilogue ← win64Epilogue syscallPrologue
  pure ([.fxrstor .rsp (syscallCommonRegOffset .fxState), .load .rax .rsp (syscallCommonRegOffset (.reg .rsp)),
    .storeAbs ptr .rax] ++ epilogue ++ [.add .rsp syscallUnwindHackStackAdjust, .xchgAbs ptr .rsp])

/-- The registers that `syscall_service_routine` gives to the handler. -/
def serviceArg (regs : Registers) : Registers :=
  { regs with cs := userCs, rip := regs.rcx, ss := userDs, eflags := regs.r11.setWidth 32 }

/-- `syscall_service_routine`, with `syscall_handler_`, which also changes the state of the kernel. -/
def syscallServiceRoutine {σ : Type} (handler : Registers → Outcome (Registers × σ)) (regs : Registers) :
    Outcome (Registers × σ) := do
  let (regs, s) ← handler (serviceArg regs)
  Outcome.require (regs.cs = userCs)
  Outcome.require (regs.ss = userDs)
  pure ({ regs with rcx := regs.rip, r11 := regs.eflags.setWidth 64 }, s)

/-! ## The frame -/

/-- The frame of `syscall_handler`, below the machine frame that is not there. -/
def syscallFrame : Frame := ⟨696, 0, savedRegs.reverse.map fun r => (664 - registersOffset (.reg r), r)⟩

theorem syscallFrame_steps : Frame.empty.steps (syscallPrologue.map Prod.snd) = some syscallFrame := rfl

theorem syscallSaves_steps : Frame.steps ⟨696, 0, []⟩ syscallSaves = some syscallFrame := rfl

theorem syscallFrame_saved {r : Reg} (hr : r ≠ .rsp) : (664 - registersOffset (.reg r), r) ∈ syscallFrame.saved :=
  isrFrame_saved hr

section Frame

variable {ptr stack : Word} {m m' : Machine}

/-- Where a field of the structure is, from the top of the stack. -/
theorem fieldAddr_stack (field : RegistersField) (h : registersOffset field ≤ 704) :
    fieldAddr (below stack 704) field = below stack (704 - registersOffset field) := below_add stack h

/-- The area of `fxsave` is aligned. -/
theorem stack_fx_aligned (hstack : stack.toNat % 16 = 0) : (below stack 576).toNat % 16 = 0 := by
  rw [below, BitVec.toNat_sub, BitVec.toNat_ofNat]
  omega

/-- The machine has saved the registers of another one in a structure at the top of the kernel stack, with
the stack pointer that was there. -/
structure SyscallSaved (ptr stack : Word) (m m' : Machine) : Prop where
  /-- the stack pointer is below it -/
  rsp : m'.reg .rsp = below stack 736
  /-- it is the argument -/
  rcx : m'.reg .rcx = below stack 704
  /-- the general registers -/
  reg : ∀ r, m'.mem.load64 (fieldAddr (below stack 704) (.reg r)) = m.reg r
  /-- the x87 and SSE state -/
  fx : ∀ i : Fin 512, m'.mem (fieldAddr (below stack 704) .fxState + BitVec.ofNat 64 i) = m.fx i
  /-- memory is written there and at the word for the stack pointer only -/
  memory : ∀ x, ¬ InBlock (below stack 736) 736 x → ¬ InBlock ptr 8 x → m'.mem x = m.mem x

/-- The stack is allocated, before registers are saved. -/
theorem syscallAlloc_built (hrsp : m.reg .rsp = stack) :
    ∃ m', Machine.run (prologueCode syscallAlloc ++ [.sub .rsp syscallUnwindHackStackAdjust]) m = .done m' ∧
      Built (below stack 40) m 0 ⟨696, 0, []⟩ m' := by
  refine ⟨_, rfl, ?_, fun r hr => ?_, nofun, fun _ _ => rfl, rfl, rfl, rfl⟩
  · change m.reg .rsp - BitVec.ofNat 64 696 - BitVec.ofNat 64 40 = below stack 40 - BitVec.ofNat 64 696
    rw [hrsp, below]
    grind
  · exact (Machine.set_reg_ne _ _ hr).trans (Machine.set_reg_ne _ _ hr)

/-- **The registers are saved.** -/
theorem syscallEnter_saved (hptr : m.mem.load64 ptr = stack) (hstack : stack.toNat % 16 = 0)
    (hapart : Lib.Apart (below stack 736) 736 ptr 8) :
    ∃ m', Machine.run (syscallEnter ptr) m = .done m' ∧ SyscallSaved ptr stack m m' := by
  -- The stack pointers are exchanged.
  let m₀ := (m.set .rsp (m.mem.load64 ptr)).write ptr (m.reg .rsp)
  have hrsp₀ : m₀.reg .rsp = stack := by
    rw [Machine.write_reg, Machine.set_reg_self, hptr]
  have hreg₀ : ∀ r, r ≠ .rsp → m₀.reg r = m.reg r := by
    intro r hr
    rw [Machine.write_reg, Machine.set_reg_ne _ _ hr]
  obtain ⟨m₁, hrun₁, hbuilt₁⟩ := syscallAlloc_built hrsp₀
  obtain ⟨m₂, hrun₂, hbuilt⟩ := hbuilt₁.steps (by exact ⟨rfl, by decide, nofun, .nil, .nil, nofun⟩) syscallSaves_steps
    (by decide) rfl
  have hrsp₂ : m₂.reg .rsp = below stack 736 := by
    rw [hbuilt.rsp, below, below_sub]
    rfl
  -- The stack pointer of the program is still where it was put.
  have hptr₂ : m₂.mem.load64 ptr = m.reg .rsp := by
    have hkept : m₂.mem.load64 ptr = m₀.mem.load64 ptr := by
      refine Ram.load64_congr fun x hx => hbuilt.memory x fun hin => ?_
      rw [below, below_sub] at hin
      exact hapart.not_inBlock hx (inBlock_below hin le_rfl (by decide) (by decide))
    rw [hkept, Machine.write_mem, Ram.load64_store64]
  have hfx : fieldAddr (below stack 704) .fxState = below stack 576 := fieldAddr_stack _ (by decide)
  have hword : fieldAddr (below stack 704) (.reg .rsp) = below stack 16 := fieldAddr_stack _ (by decide)
  let m₃ := m₂.set .rax (m.reg .rsp)
  let m₄ := m₃.write (below stack 16) (m.reg .rsp)
  let m₅ : Machine := { m₄ with mem := m₄.fxStore (below stack 576) }
  have hrsp₃ : m₃.reg .rsp = below stack 736 := (Machine.set_reg_ne _ _ (by decide)).trans hrsp₂
  have hstore : m₃.addr .rsp (syscallCommonRegOffset (.reg .rsp)) = below stack 16 := by
    rw [Machine.addr, hrsp₃]
    exact below_add stack (by decide)
  have hfxsave : m₄.addr .rsp (syscallCommonRegOffset .fxState) = below stack 576 := by
    rw [Machine.addr, Machine.write_reg, hrsp₃]
    exact below_add stack (by decide)
  have hlea : m₅.addr .rsp syscallLocalSize = below stack 704 := by
    rw [Machine.addr]
    change m₃.reg .rsp + _ = _
    rw [hrsp₃]
    exact below_add stack (by decide)
  have hload : m₂.exec (.loadAbs .rax ptr) = .done m₃ := by
    rw [Machine.exec, hptr₂]
  have hstored : m₃.exec (.store .rsp (syscallCommonRegOffset (.reg .rsp)) .rax) = .done m₄ := by
    rw [Machine.exec_store hstore, Machine.set_reg_self]
  have hrun₃ : Machine.run [.loadAbs .rax ptr, .store .rsp (syscallCommonRegOffset (.reg .rsp)) .rax,
      .fxsave .rsp (syscallCommonRegOffset .fxState), .lea .rcx .rsp syscallLocalSize] m₂ =
      .done (m₅.set .rcx (below stack 704)) := by
    rw [Machine.run_cons, hload, Outcome.done_bind, Machine.run_cons, hstored, Outcome.done_bind, Machine.run_cons,
      Machine.exec_fxsave hfxsave (stack_fx_aligned hstack), Outcome.done_bind, Machine.run_cons,
      Machine.exec_lea hlea, Outcome.done_bind, Machine.run_nil]
  refine ⟨m₅.set .rcx (below stack 704), ?_, ?_, Machine.set_reg_self .., fun r => ?_, fun i => ?_, fun x hx hptrx => ?_⟩
  · rw [syscallEnter, Machine.run_append, Machine.run_append, List.append_assoc, Machine.run_append]
    change (((Outcome.done m₀ >>= _) >>= _) >>= _) = _
    rw [Outcome.done_bind, hrun₁, Outcome.done_bind, hrun₂, Outcome.done_bind]
    exact hrun₃
  · exact (Machine.set_reg_ne _ _ (by decide)).trans hrsp₃
  · by_cases hr : r = .rsp
    · rw [hr, hword]
      refine (m₄.load64_fxStore_apart ?_).trans (Ram.load64_store64 ..)
      exact apart_below stack (.inl (by decide)) (by decide) (by decide) (by decide) (by decide) (by decide) (by decide)
    · have hle := registersOffset_reg hr
      have hplace := hbuilt.saved _ (syscallFrame_saved hr)
      rw [below, below_sub] at hplace
      rw [fieldAddr_stack _ (by omega)]
      have hsum : 40 + (664 - registersOffset (.reg r)) = 704 - registersOffset (.reg r) := by omega
      rw [hsum, hreg₀ r hr] at hplace
      refine (m₄.load64_fxStore_apart ?_).trans ((Ram.load64_store64_apart ?_).trans hplace)
      · exact apart_below stack (.inr (by omega)) (by decide) (by omega) (by decide) (by decide) (by decide) (by decide)
      · exact apart_below stack (.inr (by omega)) (by decide) (by omega) (by decide) (by decide) (by decide) (by decide)
  · rw [hfx]
    exact (m₄.fxStore_byte (below stack 576) i).trans (congrFun hbuilt.rest.1 i)
  · have hinside : ∀ {d n : ℕ}, d ≤ 736 → n ≤ d → ¬ InBlock (below stack d) n x :=
      fun hd hn hin => hx (inBlock_below hin hd (by omega) (by decide))
    have hframe : ¬ InBlock (below (below stack 40) (max syscallFrame.depth 0)) (max syscallFrame.depth 0 - 0) x := by
      rw [below, below_sub]
      exact hinside (by decide) (by decide)
    have hfxArea : ¬ InBlock (below stack 576) 512 x := hinside (by decide) (by decide)
    have hrspWord : ¬ InBlock (below stack 16) 8 x := hinside (by decide) (by decide)
    change m₅.mem x = m.mem x
    calc m₅.mem x = m₄.mem x := m₄.fxStore_of_not_inBlock hfxArea
      _ = m₂.mem x := Ram.store_of_not_inBlock hrspWord
      _ = m₀.mem x := hbuilt.memory x hframe
      _ = m.mem x := Ram.store_of_not_inBlock hptrx

/-- The machine `m'` has loaded the registers of the structure at the top of the kernel stack, from the machine
`m`. -/
structure SyscallLoaded (ptr stack : Word) (m m' : Machine) : Prop where
  /-- the general registers -/
  reg : ∀ r, m'.reg r = m.mem.load64 (fieldAddr (below stack 704) (.reg r))
  /-- the x87 and SSE state -/
  fx : ∀ i : Fin 512, m'.fx i = m.mem (fieldAddr (below stack 704) .fxState + BitVec.ofNat 64 i)
  /-- the stack pointer of the kernel is where it was -/
  word : m'.mem.load64 ptr = stack
  /-- the rest of memory is as it was -/
  memory : ∀ x, ¬ InBlock ptr 8 x → m'.mem x = m.mem x

/-- **The registers are loaded.** -/
theorem syscallLeave_loaded (hrsp : m.reg .rsp = below stack 736) (hstack : stack.toNat % 16 = 0)
    (hapart : Lib.Apart (below stack 736) 736 ptr 8) :
    ∃ code m', syscallLeave ptr = some code ∧ Machine.run code m = .done m' ∧ SyscallLoaded ptr stack m m' := by
  have hepilogue := win64Epilogue_eq syscallFrame_steps (List.cons_ne_nil _ _) (by decide)
  have hfx : fieldAddr (below stack 704) .fxState = below stack 576 := fieldAddr_stack _ (by decide)
  have hword : fieldAddr (below stack 704) (.reg .rsp) = below stack 16 := fieldAddr_stack _ (by decide)
  let m₁ : Machine := { m with fx := m.fxImage (below stack 576) }
  let m₂ := m₁.set .rax (m.mem.load64 (below stack 16))
  let m₃ := m₂.write ptr (m.mem.load64 (below stack 16))
  have hrsp₃ : m₃.reg .rsp = below stack 736 := by
    rw [Machine.write_reg, Machine.set_reg_ne _ _ (by decide)]
    exact hrsp
  have hfxrstor : m.addr .rsp (syscallCommonRegOffset .fxState) = below stack 576 := by
    rw [Machine.addr, hrsp]
    exact below_add stack (by decide)
  have hload : m₁.addr .rsp (syscallCommonRegOffset (.reg .rsp)) = below stack 16 := by
    rw [Machine.addr]
    change m.reg .rsp + _ = _
    rw [hrsp]
    exact below_add stack (by decide)
  have hframe : m₃.reg .rsp = below (below stack 40) syscallFrame.depth := by
    rw [hrsp₃]
    exact (below_sub stack (d := 40) (k := 696)).symm
  obtain ⟨m₄, hrun, h⟩ := undoCode_restores syscallFrame_steps hframe
  let m₅ := m₄.set .rsp (m₄.reg .rsp + BitVec.ofNat 64 syscallUnwindHackStackAdjust)
  let flags := addFlags m₄.flags (m₄.reg .rsp) (BitVec.ofNat 64 syscallUnwindHackStackAdjust)
  have hrsp₅ : m₅.reg .rsp = stack := by
    rw [Machine.set_reg_self, h.rsp]
    exact (below_add stack le_rfl).trans (BitVec.sub_zero stack)
  have hmem₅ : m₅.mem = m.mem.store64 ptr (m.mem.load64 (below stack 16)) := h.rest.1
  let m₆ := ({ m₅ with flags := flags }.set .rsp (m₅.mem.load64 ptr)).write ptr (m₅.reg .rsp)
  refine ⟨[.fxrstor .rsp (syscallCommonRegOffset .fxState), .load .rax .rsp (syscallCommonRegOffset (.reg .rsp)),
      .storeAbs ptr .rax] ++ undoCode (syscallPrologue.map Prod.snd) ++
      [.add .rsp syscallUnwindHackStackAdjust, .xchgAbs ptr .rsp], m₆, ?_, ?_, ?_⟩
  · rw [syscallLeave, hepilogue]
    rfl
  · have hstored : m₂.exec (.storeAbs ptr .rax) = .done m₃ := by
      rw [Machine.exec, Machine.set_reg_self]
    rw [Machine.run_append, Machine.run_append, Machine.run_cons,
      Machine.exec_fxrstor hfxrstor (stack_fx_aligned hstack), Outcome.done_bind, Machine.run_cons,
      Machine.exec_load hload, Outcome.done_bind, Machine.run_cons]
    change (((m₂.exec (.storeAbs ptr .rax) >>= _) >>= _) >>= _) = _
    rw [hstored, Outcome.done_bind, Machine.run_nil, Outcome.done_bind, hrun]
    rfl
  · refine ⟨fun r => ?_, fun i => ?_, ?_, fun x hx => ?_⟩
    · by_cases hr : r = .rsp
      · rw [hr, Machine.write_reg, Machine.set_reg_self, hmem₅, Ram.load64_store64, hword]
      · have hle := registersOffset_reg hr
        have hplace := h.saved _ (syscallFrame_saved hr)
        have hsum : 40 + (664 - registersOffset (.reg r)) = 704 - registersOffset (.reg r) := by omega
        rw [below, below_sub, hsum] at hplace
        rw [Machine.write_reg, Machine.set_reg_ne _ _ hr]
        refine (Machine.set_reg_ne _ _ hr).trans (hplace.trans ?_)
        rw [fieldAddr_stack _ (by omega)]
        refine Ram.load64_congr fun x hx => Ram.store_of_not_inBlock fun hin => hapart.not_inBlock hin ?_
        exact inBlock_below hx (by omega) (by omega) (by decide)
    · rw [hfx]
      exact congrFun h.rest.2.1 i
    · rw [Machine.write_mem, hrsp₅, Ram.load64_store64]
    · refine (Ram.store_of_not_inBlock hx).trans ?_
      change m₅.mem x = m.mem x
      rw [hmem₅]
      exact Ram.store_of_not_inBlock hx

end Frame

/-! ## System calls -/

/-- The registers that the handler of the kernel gets from a program. -/
structure CallRegisters (m : Machine) (regs : Registers) : Prop where
  /-- the general registers, except for those that `syscall` uses -/
  reg : ∀ r, r ≠ .rcx → r ≠ .r11 → regs.get r = m.reg r
  /-- where the program goes on -/
  rip : regs.rip = m.rip ∧ regs.rcx = m.rip
  /-- the flags -/
  flags : regs.eflags = (m.flags &&& ~~~0x10000).setWidth 32 ∧ regs.r11 = m.flags &&& ~~~0x10000
  /-- the segments -/
  segments : regs.cs = userCs ∧ regs.ss = userDs
  /-- the x87 and SSE state -/
  fx : ∀ i : Fin 512, regs.fxState i = m.fx i

/-- The program that goes on with some registers. -/
structure ReturnRegisters (regs : Registers) (m : Machine) : Prop where
  /-- the general registers, except for those that `sysret` uses -/
  reg : ∀ r, r ≠ .rcx → r ≠ .r11 → m.reg r = regs.get r
  /-- where it goes on -/
  rip : m.rip = regs.rip ∧ m.reg .rcx = regs.rip
  /-- the flags -/
  flags : m.flags = (regs.eflags.setWidth 64 &&& Machine.sysretMask) ||| 2 ∧ m.reg .r11 = regs.eflags.setWidth 64
  /-- the segments -/
  segments : m.cs = userCs ∧ m.ss = userDs
  /-- the x87 and SSE state -/
  fx : ∀ i : Fin 512, m.fx i = regs.fxState i

section Call

variable {σ : Type} {ptr stack lstar : Word} {m m₂ : Machine} {handler : Registers → Outcome (Registers × σ)}
  {regs regs' : Registers} {s : σ}

theorem syscallServiceRoutine_eq_done (h : syscallServiceRoutine handler regs = .done (regs', s)) :
    ∃ served, handler (serviceArg regs) = .done (served, s) ∧ served.cs = userCs ∧ served.ss = userDs ∧
      regs' = { served with rcx := served.rip, r11 := served.eflags.setWidth 64 } := by
  obtain ⟨⟨served, s'⟩, hserved, h⟩ := Outcome.bind_eq_done.mp h
  obtain ⟨hcs, h⟩ := Outcome.require_bind_eq_done.mp h
  obtain ⟨hss, h⟩ := Outcome.require_bind_eq_done.mp h
  cases h
  exact ⟨served, hserved, hcs, hss, rfl⟩

theorem sysret_segments (m : Machine) :
    (m.sysret syscallStar).cs = userCs ∧ (m.sysret syscallStar).ss = userDs := by
  have hcs : ((syscallStar >>> 48).setWidth 16 + 16) ||| 3 = userCs := by decide
  have hss : ((syscallStar >>> 48).setWidth 16 + 8) ||| 3 = userDs := by decide
  exact ⟨hcs, hss⟩

variable (lstar) in
/-- **A system call** is transparent. The program gets to `syscall_service_routine` with the stack pointer
of the kernel that is in the word. When that returns, the program goes on with the registers that
the handler of the kernel returned, and the word is as it was. -/
theorem syscall_transparent (m : Machine) (hptr : m.mem.load64 ptr = stack) (hstack : stack.toNat % 16 = 0)
    (hapart : Lib.Apart (below stack 736) 736 ptr 8) :
    ∃ m₁, Machine.run (syscallEnter ptr) (m.syscall syscallStar lstar syscallFmask) = .done m₁ ∧
      m₁.reg .rsp = below stack 736 ∧ CallRegisters m (serviceArg (Registers.read m₁.mem (m₁.reg .rcx))) ∧
      (∀ x, ¬ InBlock (below stack 736) 736 x → ¬ InBlock ptr 8 x → m₁.mem x = m.mem x) ∧
      ∀ (handler : Registers → Outcome (Registers × σ)) (s : σ) (m₂ : Machine), m₂.reg .rsp = m₁.reg .rsp →
        syscallServiceRoutine handler (Registers.read m₁.mem (m₁.reg .rcx)) =
          .done (Registers.read m₂.mem (m₁.reg .rcx), s) →
        ∃ code m₃ regs, syscallLeave ptr = some code ∧ Machine.run code m₂ = .done m₃ ∧
          handler (serviceArg (Registers.read m₁.mem (m₁.reg .rcx))) = .done (regs, s) ∧
          ReturnRegisters regs (m₃.sysret syscallStar) ∧ m₃.mem.load64 ptr = stack ∧
          ∀ x, ¬ InBlock ptr 8 x → m₃.mem x = m₂.mem x := by
  have hptr' : (m.syscall syscallStar lstar syscallFmask).mem.load64 ptr = stack := hptr
  obtain ⟨m₁, hrun, hsaved⟩ := syscallEnter_saved hptr' hstack hapart
  have hget : ∀ r, (Registers.read m₁.mem (m₁.reg .rcx)).get r =
      (m.syscall syscallStar lstar syscallFmask).reg r := by
    intro r
    rw [hsaved.rcx, read_get]
    exact hsaved.reg r
  have hfx : ∀ i : Fin 512, (Registers.read m₁.mem (m₁.reg .rcx)).fxState i = m.fx i := by
    intro i
    rw [hsaved.rcx, read_fxState]
    exact hsaved.fx i
  refine ⟨m₁, hrun, hsaved.rsp, ?_, hsaved.memory, ?_⟩
  · generalize Registers.read m₁.mem (m₁.reg .rcx) = regs at hget hfx
    have hrcx : regs.rcx = m.rip := (hget .rcx).trans (m.syscall_rcx ..)
    have hr11 : regs.r11 = m.flags &&& ~~~0x10000 := (hget .r11).trans (m.syscall_r11 ..)
    have hflags : regs.r11.setWidth 32 = (m.flags &&& ~~~0x10000).setWidth 32 := congrArg _ hr11
    refine ⟨fun r hr hr' => ?_, ⟨hrcx, hrcx⟩, ⟨hflags, hr11⟩, ⟨rfl, rfl⟩, hfx⟩
    have harg : (serviceArg regs).get r = regs.get r := by
      cases r <;> rfl
    rw [harg, hget, m.syscall_reg _ _ _ hr hr']
  · intro handler s m₂ hrsp hserved
    rw [hsaved.rcx] at hserved ⊢
    obtain ⟨served, hhandler, hcs, hss, heq⟩ := syscallServiceRoutine_eq_done hserved
    obtain ⟨code, m₃, hcode, hrun₃, hloaded⟩ := syscallLeave_loaded (hrsp.trans hsaved.rsp) hstack hapart
    have hreg : ∀ r, m₃.reg r = ({ served with rcx := served.rip, r11 := served.eflags.setWidth 64 } : Registers).get r := by
      intro r
      rw [hloaded.reg, ← read_get, heq]
    refine ⟨code, m₃, served, hcode, hrun₃, hhandler, ⟨fun r hr hr' => ?_, ⟨hreg .rcx, hreg .rcx⟩, ⟨?_, hreg .r11⟩,
      sysret_segments m₃, fun i => ?_⟩, hloaded.word, hloaded.memory⟩
    · refine (hreg r).trans ?_
      cases r <;> first | rfl | exact absurd rfl hr | exact absurd rfl hr'
    · exact congrArg (fun r11 => (r11 &&& Machine.sysretMask) ||| 2) (hreg .r11)
    · refine (hloaded.fx i).trans ((read_fxState m₂.mem (below stack 704) i).symm.trans ?_)
      rw [heq]

end Call

/-! ## Runs

A program takes steps of its own, which are of any kind but for the word with the stack pointer of the
kernel, and calls the kernel. -/

section Runs

variable {σ : Type} (user : Machine → Machine → Prop) (handler : σ → Registers → Outcome (Registers × σ))

/-- A step of a program, or a system call as the machine does it. Between the two halves of
`syscall_handler` the machine only has to come back with its stack pointer. -/
inductive SyscallStep (ptr lstar : Word) : Machine × σ → Machine × σ → Prop where
  /-- the program does something -/
  | user {m m' : Machine} (s : σ) : user m m' → SyscallStep ptr lstar (m, s) (m', s)
  /-- the program calls the kernel -/
  | call {m m₁ m₂ m₃ : Machine} {code : List Instr} {s s' : σ} :
      Machine.run (syscallEnter ptr) (m.syscall syscallStar lstar syscallFmask) = .done m₁ →
      m₂.reg .rsp = m₁.reg .rsp →
      syscallServiceRoutine (handler s) (Registers.read m₁.mem (m₁.reg .rcx)) =
        .done (Registers.read m₂.mem (m₁.reg .rcx), s') →
      syscallLeave ptr = some code → Machine.run code m₂ = .done m₃ →
      SyscallStep ptr lstar (m, s) (m₃.sysret syscallStar, s')

/-- A step of a program, or a system call as a program sees it: the handler of the kernel gets its registers
and gives it others. -/
inductive ServiceStep : Machine × σ → Machine × σ → Prop where
  /-- the program does something -/
  | user {m m' : Machine} (s : σ) : user m m' → ServiceStep (m, s) (m', s)
  /-- the program calls the kernel -/
  | call {m m' : Machine} {regs served : Registers} {s s' : σ} :
      CallRegisters m regs → handler s regs = .done (served, s') → ReturnRegisters served m' →
      ServiceStep (m, s) (m', s')

variable {user handler} {ptr stack lstar : Word} {m m' : Machine} {s s' : σ}

/-- What one step keeps. -/
theorem SyscallStep.service (huser : ∀ m m', user m m' → m'.mem.load64 ptr = m.mem.load64 ptr)
    (hstack : stack.toNat % 16 = 0) (hapart : Lib.Apart (below stack 736) 736 ptr 8)
    (hptr : m.mem.load64 ptr = stack) (h : SyscallStep user handler ptr lstar (m, s) (m', s')) :
    ServiceStep user handler (m, s) (m', s') ∧ m'.mem.load64 ptr = stack := by
  cases h with
  | user _ h => exact ⟨.user s h, (huser _ _ h).trans hptr⟩
  | call henter hrsp hserved hcode hleave =>
    obtain ⟨m₁, hrun, -, hcall, -, hreturn⟩ := syscall_transparent (σ := σ) _ m hptr hstack hapart
    cases henter.symm.trans hrun
    obtain ⟨code, m₃, served, hcode', hrun₃, hhandler, hregs, hword, -⟩ := hreturn _ _ _ hrsp hserved
    cases hcode.symm.trans hcode'
    cases hleave.symm.trans hrun₃
    exact ⟨.call hcall hhandler hregs, hword⟩

/-- **System calls** are transparent in every run. What the machine does is what the program sees, and
the word holds the stack pointer of the kernel after it. So the next call gets to the handler with the
registers of the program and comes back. -/
theorem syscalls_transparent (huser : ∀ m m', user m m' → m'.mem.load64 ptr = m.mem.load64 ptr)
    (hstack : stack.toNat % 16 = 0) (hapart : Lib.Apart (below stack 736) 736 ptr 8)
    (hptr : m.mem.load64 ptr = stack)
    (hrun : Relation.ReflTransGen (SyscallStep user handler ptr lstar) (m, s) (m', s')) :
    Relation.ReflTransGen (ServiceStep user handler) (m, s) (m', s') ∧ m'.mem.load64 ptr = stack ∧
      ∃ m₁, Machine.run (syscallEnter ptr) (m'.syscall syscallStar lstar syscallFmask) = .done m₁ ∧
        CallRegisters m' (serviceArg (Registers.read m₁.mem (m₁.reg .rcx))) ∧
        ∀ m₂, m₂.reg .rsp = m₁.reg .rsp → ∃ code m₃, syscallLeave ptr = some code ∧ Machine.run code m₂ = .done m₃ := by
  -- In every state of the run the word holds the stack pointer of the kernel.
  have hinv : ∀ t, Relation.ReflTransGen (SyscallStep user handler ptr lstar) (m, s) t →
      Relation.ReflTransGen (ServiceStep user handler) (m, s) t ∧ t.1.mem.load64 ptr = stack := by
    intro t ht
    induction ht with
    | refl => exact ⟨.refl, hptr⟩
    | tail _ hstep ih =>
      obtain ⟨hservice, hword⟩ := hstep.service huser hstack hapart ih.2
      exact ⟨ih.1.tail hservice, hword⟩
  obtain ⟨hservice, hword⟩ := hinv _ hrun
  obtain ⟨m₁, henter, hrsp, hcall, -⟩ := syscall_transparent (σ := σ) lstar m' hword hstack hapart
  refine ⟨hservice, hword, m₁, henter, hcall, fun m₂ hrsp₂ => ?_⟩
  obtain ⟨code, m₃, hcode, hleave, -⟩ := syscallLeave_loaded (hrsp₂.trans hrsp) hstack hapart
  exact ⟨code, m₃, hcode, hleave⟩

/-- A memory with cleared registers, of a program, at the top of the stack at `0x8000`. -/
def clearedMemory : Ram := fun x => if x = 0x7fe0 then 0x23 else if x = 0x7ff8 then 0x1b else 0

/-- A program that enters with the stack pointer of the kernel in the word at `0x3000`. -/
def callingProgram : Machine := entered.write 0x3000 0x8000

/-- The step of a program that clears a register. -/
def ClearsRax (m m' : Machine) : Prop := m' = m.set .rax 0

/-- A handler that clears the registers. -/
def clearRegisters (_ : Unit) (_ : Registers) : Outcome (Registers × Unit) :=
  .done (Registers.read clearedMemory 0x7d40, ())

/-- A program clears a register and calls the kernel, which clears the other ones. -/
theorem syscalls_clear : ∃ m',
    Relation.ReflTransGen (SyscallStep ClearsRax clearRegisters 0x3000 0x1000) (callingProgram, ()) (m', ()) ∧
    Relation.ReflTransGen (ServiceStep ClearsRax clearRegisters) (callingProgram, ()) (m', ()) ∧
    m'.mem.load64 0x3000 = 0x8000 ∧ m'.reg .rbx = 0 := by
  have hptr : callingProgram.mem.load64 0x3000 = (0x8000 : Word) := Ram.load64_store64 ..
  have hapart : Lib.Apart (below 0x8000 736) 736 (0x3000 : Word) 8 := ⟨by decide, by decide⟩
  have hptr' : ((callingProgram.set .rax 0).syscall syscallStar 0x1000 syscallFmask).mem.load64 0x3000 = (0x8000 : Word) :=
    hptr
  obtain ⟨m₁, henter, hsaved⟩ := syscallEnter_saved hptr' (by decide) hapart
  let m₂ : Machine := { m₁ with mem := clearedMemory }
  have hrsp : m₂.reg .rsp = below 0x8000 736 := hsaved.rsp
  obtain ⟨code, m₃, hcode, hleave, hloaded⟩ := syscallLeave_loaded hrsp (by decide) hapart
  have hrsp₂ : m₂.reg .rsp = m₁.reg .rsp := rfl
  have hserved : syscallServiceRoutine (clearRegisters ()) (Registers.read m₁.mem (m₁.reg .rcx)) =
      .done (Registers.read m₂.mem (m₁.reg .rcx), ()) := by
    rw [hsaved.rcx]
    rfl
  have huser : SyscallStep ClearsRax clearRegisters 0x3000 0x1000 (callingProgram, ()) (callingProgram.set .rax 0, ()) :=
    .user () rfl
  have hcall : SyscallStep ClearsRax clearRegisters 0x3000 0x1000 (callingProgram.set .rax 0, ())
      (m₃.sysret syscallStar, ()) :=
    .call henter hrsp₂ hserved hcode hleave
  have hrun := (Relation.ReflTransGen.single huser).tail hcall
  obtain ⟨hservice, hword, -⟩ := syscalls_transparent (fun _ _ h => by rw [h, Machine.set_mem]) (by decide) hapart hptr hrun
  exact ⟨_, hrun, hservice, hword, (hloaded.reg .rbx).trans rfl⟩

end Runs

end Attos.Asm
