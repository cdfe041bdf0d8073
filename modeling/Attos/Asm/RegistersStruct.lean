import Attos.Lib.X64
import Attos.UserProcess

/-!
# The registers of an interrupted program

The assembler files and the kernel have a structure of their own for the registers of a program that
was interrupted: `struc registers` of `kernel.inc` and `registers` of `attos/cpu.h`. The compiler
aligns its members, and they are where the assembler has its fields (`memberOffset_eq`). So the
kernel reads what the assembler files stored (`read_get`).
-/

namespace Attos.Asm

open Lib Lib.X64

/-! ## The layouts -/

/-- A field of `registers`. -/
inductive RegistersField : Type where
  /-- a general register -/
  | reg (r : Reg)
  /-- `reserved0` -/
  | reserved0
  /-- `fx_state` -/
  | fxState
  /-- `reserved1` -/
  | reserved1
  /-- `interrupt_no` -/
  | interruptNo
  /-- `error_code` -/
  | errorCode
  /-- `rip` -/
  | rip
  /-- `cs` -/
  | cs
  /-- `rflags`, or `eflags` -/
  | rflags
  /-- `ss` -/
  | ss
  deriving DecidableEq

/-- `struc registers`: the fields and their sizes. -/
def struc : List (RegistersField × ℕ) :=
  [(.reg .rax, 8), (.reg .rbx, 8), (.reg .rcx, 8), (.reg .rdx, 8), (.reg .rbp, 8), (.reg .rsi, 8), (.reg .rdi, 8),
    (.reg .r8, 8), (.reg .r9, 8), (.reg .r10, 8), (.reg .r11, 8), (.reg .r12, 8), (.reg .r13, 8), (.reg .r14, 8),
    (.reg .r15, 8), (.reserved0, 8), (.fxState, 512), (.reserved1, 8),
    (.interruptNo, 8), (.errorCode, 8), (.rip, 8), (.cs, 8), (.rflags, 8), (.reg .rsp, 8), (.ss, 8)]

/-- Where a field of a structure is. -/
def strucOffset (field : RegistersField) : List (RegistersField × ℕ) → ℕ
  | [] => 0
  | (f, size) :: rest => if f = field then 0 else size + strucOffset field rest

/-- `registers.field` -/
def registersOffset (field : RegistersField) : ℕ := strucOffset field struc

/-- `registers.saved_size` -/
def savedSize : ℕ := registersOffset .interruptNo

/-- `registers_size` -/
def registersSize : ℕ := (struc.map Prod.snd).sum

/-- `struct registers`: the members, if they are not reserved for alignment, with their sizes and
alignments. -/
def members : List (Option RegistersField × ℕ × ℕ) :=
  [(some (.reg .rax), 8, 8), (some (.reg .rbx), 8, 8), (some (.reg .rcx), 8, 8), (some (.reg .rdx), 8, 8),
    (some (.reg .rbp), 8, 8), (some (.reg .rsi), 8, 8), (some (.reg .rdi), 8, 8), (some (.reg .r8), 8, 8),
    (some (.reg .r9), 8, 8), (some (.reg .r10), 8, 8), (some (.reg .r11), 8, 8), (some (.reg .r12), 8, 8),
    (some (.reg .r13), 8, 8), (some (.reg .r14), 8, 8), (some (.reg .r15), 8, 8), (some .reserved0, 8, 8),
    (some .fxState, 512, 16), (some .reserved1, 8, 8), (some .interruptNo, 1, 1), (none, 7, 1), (some .errorCode, 8, 8),
    (some .rip, 8, 8), (some .cs, 2, 2), (none, 6, 1), (some .rflags, 4, 4), (none, 4, 1), (some (.reg .rsp), 8, 8),
    (some .ss, 2, 2), (none, 6, 1)]

/-- Where the compiler puts a member, from `pos` on. -/
def memberOffsetFrom (field : RegistersField) : ℕ → List (Option RegistersField × ℕ × ℕ) → ℕ
  | pos, [] => pos
  | pos, (f, size, align) :: rest =>
    let start := (pos + (align - 1)) / align * align
    if f = some field then start else memberOffsetFrom field (start + size) rest

/-- The offset of a member. -/
def memberOffset (field : RegistersField) : ℕ := memberOffsetFrom field 0 members

/-- **The layouts are the same.** -/
theorem memberOffset_eq (field : RegistersField) : memberOffset field = registersOffset field := by
  cases field with
  | reg r => cases r <;> rfl
  | reserved0 => rfl
  | fxState => rfl
  | reserved1 => rfl
  | interruptNo => rfl
  | errorCode => rfl
  | rip => rfl
  | cs => rfl
  | rflags => rfl
  | ss => rfl

end Attos.Asm

/-! ## The structure in memory -/

namespace Attos.Registers

open Lib Lib.X64 Asm

/-- A general register. -/
def get (regs : Registers) : Reg → Word
  | .rax => regs.rax
  | .rcx => regs.rcx
  | .rdx => regs.rdx
  | .rbx => regs.rbx
  | .rsp => regs.rsp
  | .rbp => regs.rbp
  | .rsi => regs.rsi
  | .rdi => regs.rdi
  | .r8 => regs.r8
  | .r9 => regs.r9
  | .r10 => regs.r10
  | .r11 => regs.r11
  | .r12 => regs.r12
  | .r13 => regs.r13
  | .r14 => regs.r14
  | .r15 => regs.r15

/-- The structure at an address. -/
def read (mem : Ram) (a : Word) : Registers :=
  let at' (field : RegistersField) : Word := a + BitVec.ofNat 64 (memberOffset field)
  { rax := mem.load64 (at' (.reg .rax))
    rbx := mem.load64 (at' (.reg .rbx))
    rcx := mem.load64 (at' (.reg .rcx))
    rdx := mem.load64 (at' (.reg .rdx))
    rbp := mem.load64 (at' (.reg .rbp))
    rsi := mem.load64 (at' (.reg .rsi))
    rdi := mem.load64 (at' (.reg .rdi))
    r8 := mem.load64 (at' (.reg .r8))
    r9 := mem.load64 (at' (.reg .r9))
    r10 := mem.load64 (at' (.reg .r10))
    r11 := mem.load64 (at' (.reg .r11))
    r12 := mem.load64 (at' (.reg .r12))
    r13 := mem.load64 (at' (.reg .r13))
    r14 := mem.load64 (at' (.reg .r14))
    r15 := mem.load64 (at' (.reg .r15))
    fxState := fun i => if i < 512 then mem (at' .fxState + BitVec.ofNat 64 i) else 0
    interruptNo := (mem (at' .interruptNo)).toBitVec
    errorCode := mem.load64 (at' .errorCode)
    rip := mem.load64 (at' .rip)
    cs := mem.load16 (at' .cs)
    eflags := mem.load32 (at' .rflags)
    rsp := mem.load64 (at' (.reg .rsp))
    ss := mem.load16 (at' .ss) }

/-- The registers of a machine are those of the structure. -/
structure Of (regs : Registers) (m : Machine) : Prop where
  /-- the general registers -/
  reg : ∀ r, regs.get r = m.reg r
  /-- the x87 and SSE state -/
  fx : ∀ i : Fin 512, regs.fxState i = m.fx i
  /-- the instruction pointer -/
  rip : regs.rip = m.rip
  /-- the code segment -/
  cs : regs.cs = m.cs
  /-- the flags -/
  eflags : regs.eflags = m.flags.setWidth 32
  /-- the stack segment -/
  ss : regs.ss = m.ss

section Read

variable (mem : Ram) (a : Word)

/-- The address of a field. -/
abbrev fieldAddr (field : RegistersField) : Word := a + BitVec.ofNat 64 (registersOffset field)

/-- **A register is read** where the assembler has it. -/
theorem read_get (r : Reg) : (read mem a).get r = mem.load64 (fieldAddr a (.reg r)) := by
  rw [fieldAddr, ← memberOffset_eq]
  cases r <;> rfl

theorem read_fxState (i : Fin 512) : (read mem a).fxState i = mem (fieldAddr a .fxState + BitVec.ofNat 64 i) := by
  rw [fieldAddr, ← memberOffset_eq]
  exact if_pos i.isLt

theorem read_interruptNo : (read mem a).interruptNo = (mem.load64 (fieldAddr a .interruptNo)).setWidth 8 := by
  rw [fieldAddr, ← memberOffset_eq]
  exact Ram.load8_eq mem _

theorem read_errorCode : (read mem a).errorCode = mem.load64 (fieldAddr a .errorCode) := by
  rw [fieldAddr, ← memberOffset_eq]
  rfl

theorem read_rip : (read mem a).rip = mem.load64 (fieldAddr a .rip) := by
  rw [fieldAddr, ← memberOffset_eq]
  rfl

theorem read_cs : (read mem a).cs = (mem.load64 (fieldAddr a .cs)).setWidth 16 := by
  rw [fieldAddr, ← memberOffset_eq]
  exact Ram.load16_eq mem _

theorem read_eflags : (read mem a).eflags = (mem.load64 (fieldAddr a .rflags)).setWidth 32 := by
  rw [fieldAddr, ← memberOffset_eq]
  exact Ram.load32_eq mem _

theorem read_ss : (read mem a).ss = (mem.load64 (fieldAddr a .ss)).setWidth 16 := by
  rw [fieldAddr, ← memberOffset_eq]
  exact Ram.load16_eq mem _

end Read

section Congr

variable {mem mem' : Ram} {a : Word}

/-- A field is in the structure. -/
theorem load64_field_congr (h : ∀ x, InBlock a registersSize x → mem' x = mem x) (field : RegistersField)
    (hfield : registersOffset field + 8 ≤ registersSize) :
    mem'.load64 (fieldAddr a field) = mem.load64 (fieldAddr a field) := by
  have hsize : registersSize = 704 := rfl
  refine Ram.load64_congr fun x hx => h x ?_
  obtain ⟨i, hi, rfl⟩ := hx.exists_add
  rw [fieldAddr, BitVec.add_assoc, ← BitVec.ofNat_add]
  exact inBlock_add a (by omega) (by rw [hsize]; decide)

theorem fxState_congr (h : ∀ x, InBlock a registersSize x → mem' x = mem x) (i : Fin 512) :
    (read mem' a).fxState i = (read mem a).fxState i := by
  have hsize : registersSize = 704 := rfl
  have hoffset : registersOffset .fxState = 128 := rfl
  rw [read_fxState, read_fxState]
  refine h _ ?_
  rw [fieldAddr, BitVec.add_assoc, ← BitVec.ofNat_add]
  exact inBlock_add a (by omega) (by rw [hsize]; decide)

/-- **The structure is the same** if its bytes are. -/
theorem Of.congr {m m' : Machine} (h : (read mem a).Of m) (h' : (read mem' a).Of m')
    (hkept : ∀ x, InBlock a registersSize x → mem' x = mem x) :
    m'.reg = m.reg ∧ m'.fx = m.fx ∧ m'.rip = m.rip ∧ m'.cs = m.cs ∧ m'.ss = m.ss := by
  refine ⟨funext fun r => ?_, funext fun i => ?_, ?_, ?_, ?_⟩
  · rw [← h.reg, ← h'.reg, read_get, read_get]
    exact load64_field_congr hkept _ (by cases r <;> decide)
  · rw [← h.fx, ← h'.fx]
    exact fxState_congr hkept i
  · rw [← h.rip, ← h'.rip, read_rip, read_rip]
    exact load64_field_congr hkept _ (by decide)
  · rw [← h.cs, ← h'.cs, read_cs, read_cs]
    exact congrArg _ (load64_field_congr hkept _ (by decide))
  · rw [← h.ss, ← h'.ss, read_ss, read_ss]
    exact congrArg _ (load64_field_congr hkept _ (by decide))

end Congr

end Attos.Registers
