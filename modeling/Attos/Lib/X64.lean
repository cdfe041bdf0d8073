import Attos.Lib.Outcome
import Attos.Lib.Ram

/-!
# A 64-bit machine

Some instructions of the AMD64 architecture, in long mode and at the highest privilege level, on a
machine with its general registers, flags, memory and the image of its x87 and SSE state that
`fxsave` stores. Blocks of instructions have no jumps in them; the instruction pointer is only
known where control is transferred. All memory is mapped, so that only misaligned operands of
`fxsave` and `fxrstor` fault.
-/

namespace Lib.X64

open Lib

/-- A word of the machine. -/
abbrev Word : Type := BitVec 64

/-- The general registers, in the order of their numbers. -/
inductive Reg : Type where
  | rax
  | rcx
  | rdx
  | rbx
  | rsp
  | rbp
  | rsi
  | rdi
  | r8
  | r9
  | r10
  | r11
  | r12
  | r13
  | r14
  | r15
  deriving DecidableEq

/-- The number of a register. -/
def Reg.number : Reg → ℕ
  | rax => 0
  | rcx => 1
  | rdx => 2
  | rbx => 3
  | rsp => 4
  | rbp => 5
  | rsi => 6
  | rdi => 7
  | r8 => 8
  | r9 => 9
  | r10 => 10
  | r11 => 11
  | r12 => 12
  | r13 => 13
  | r14 => 14
  | r15 => 15

/-- The register with a number. -/
def Reg.ofNumber (n : ℕ) : Option Reg :=
  [rax, rcx, rdx, rbx, rsp, rbp, rsi, rdi, r8, r9, r10, r11, r12, r13, r14, r15][n]?

theorem Reg.number_lt (r : Reg) : r.number < 16 := by
  cases r <;> decide

@[simp] theorem Reg.ofNumber_number (r : Reg) : ofNumber r.number = some r := by
  cases r <;> rfl

/-- The machine. -/
structure Machine : Type where
  /-- the general registers -/
  reg : Reg → Word
  /-- the instruction pointer -/
  rip : Word
  /-- the flags -/
  flags : Word
  /-- the code segment -/
  cs : BitVec 16
  /-- the stack segment -/
  ss : BitVec 16
  /-- the x87 and SSE state -/
  fx : Fin 512 → UInt8
  /-- the memory -/
  mem : Ram

/-! ## Flags -/

/-- The bits of the carry, parity, adjust, zero, sign and overflow flags. -/
def statusMask : Word := 0x8d5

/-- The direction flag. -/
def directionFlag : Word := 0x400

/-- The flags that `popfq` can change. -/
def popfMask : Word := 0x247fd5

/-- The flags that `pushfq` does not store. -/
def pushfClears : Word := 0x30000

/-- A flag at a bit, if the condition holds. -/
def flagBit (bit : ℕ) (p : Bool) : Word := if p then 1 <<< bit else 0

/-- The bits of the low byte that are set, counted modulo 2. -/
def parity (w : Word) : Bool := (List.range 8).foldl (fun p i => p ^^ w.getLsbD i) true

/-- The status flags of a result. -/
def setStatus (flags result : Word) (carry adjust overflow : Bool) : Word :=
  (flags &&& ~~~statusMask) ||| flagBit 0 carry ||| flagBit 2 (parity result) ||| flagBit 4 adjust |||
    flagBit 6 (result == 0) ||| flagBit 7 result.msb ||| flagBit 11 overflow

/-- The flags after `a - b`. -/
def subFlags (flags a b : Word) : Word :=
  setStatus flags (a - b) (decide (a < b)) (decide (a &&& 0xf < b &&& 0xf))
    ((a.msb != b.msb) && ((a - b).msb != a.msb))

/-- The flags after `a + b`. -/
def addFlags (flags a b : Word) : Word :=
  setStatus flags (a + b) (decide (a + b < a)) (decide ((a + b) &&& 0xf < a &&& 0xf))
    ((a.msb == b.msb) && ((a + b).msb != a.msb))

/-- Arithmetic only changes the status flags. -/
theorem setStatus_and (flags result : Word) (carry adjust overflow : Bool) :
    setStatus flags result carry adjust overflow &&& ~~~statusMask = flags &&& ~~~statusMask := by
  have h₀ : ∀ p, flagBit 0 p &&& ~~~statusMask = 0#64 := by decide
  have h₂ : ∀ p, flagBit 2 p &&& ~~~statusMask = 0#64 := by decide
  have h₄ : ∀ p, flagBit 4 p &&& ~~~statusMask = 0#64 := by decide
  have h₆ : ∀ p, flagBit 6 p &&& ~~~statusMask = 0#64 := by decide
  have h₇ : ∀ p, flagBit 7 p &&& ~~~statusMask = 0#64 := by decide
  have h₁₁ : ∀ p, flagBit 11 p &&& ~~~statusMask = 0#64 := by decide
  simp only [setStatus, BitVec.and_or_distrib_right, h₀, h₂, h₄, h₆, h₇, h₁₁, BitVec.or_zero, BitVec.and_assoc,
    BitVec.and_self]

/-! ## Instructions -/

/-- An instruction. Operands in memory are a register and a displacement, or an address. -/
inductive Instr : Type where
  /-- `mov dst, src` -/
  | mov (dst src : Reg)
  /-- `mov dst, [base + disp]` -/
  | load (dst base : Reg) (disp : ℕ)
  /-- `mov [base + disp], src` -/
  | store (base : Reg) (disp : ℕ) (src : Reg)
  /-- `mov [base + disp], cs` -/
  | storeCs (base : Reg) (disp : ℕ)
  /-- `mov [base + disp], ss` -/
  | storeSs (base : Reg) (disp : ℕ)
  /-- `mov dst, [addr]` -/
  | loadAbs (dst : Reg) (addr : Word)
  /-- `mov [addr], src` -/
  | storeAbs (addr : Word) (src : Reg)
  /-- `xchg [addr], reg` -/
  | xchgAbs (addr : Word) (reg : Reg)
  /-- `lea dst, [base + disp]` -/
  | lea (dst base : Reg) (disp : ℕ)
  /-- `add dst, imm` -/
  | add (dst : Reg) (imm : ℕ)
  /-- `sub dst, imm` -/
  | sub (dst : Reg) (imm : ℕ)
  /-- `push src` -/
  | push (src : Reg)
  /-- `push imm`, of a byte -/
  | pushImm (imm : BitVec 8)
  /-- `pop dst` -/
  | pop (dst : Reg)
  /-- `push qword [base + disp]` -/
  | pushMem (base : Reg) (disp : ℕ)
  /-- `pop qword [base + disp]` -/
  | popMem (base : Reg) (disp : ℕ)
  /-- `pushfq` -/
  | pushf
  /-- `popfq` -/
  | popf
  /-- `fxsave [base + disp]` -/
  | fxsave (base : Reg) (disp : ℕ)
  /-- `fxrstor [base + disp]` -/
  | fxrstor (base : Reg) (disp : ℕ)
  /-- `cld` -/
  | cld
  deriving DecidableEq

namespace Machine

/-- The machine with another value in a register. -/
def set (m : Machine) (r : Reg) (v : Word) : Machine := { m with reg := Function.update m.reg r v }

/-- The machine with another word in memory. -/
def write (m : Machine) (a v : Word) : Machine := { m with mem := m.mem.store64 a v }

/-- The address of an operand. -/
def addr (m : Machine) (base : Reg) (disp : ℕ) : Word := m.reg base + BitVec.ofNat 64 disp

/-- Put a word on the stack. -/
def pushWord (m : Machine) (v : Word) : Machine := (m.set .rsp (m.reg .rsp - 8)).write (m.reg .rsp - 8) v

/-- Put some words on the stack, one after the other. -/
def pushWords (m : Machine) (ws : List Word) : Machine := ws.foldl pushWord m

/-- The word at the top of the stack. -/
def top (m : Machine) : Word := m.mem.load64 (m.reg .rsp)

/-- The machine without the word at the top of the stack. -/
def drop (m : Machine) : Machine := m.set .rsp (m.reg .rsp + 8)

/-- The memory with the x87 and SSE state at an address. -/
def fxStore (m : Machine) (a : Word) : Ram := m.mem.store a 512 fun i => if h : i < 512 then m.fx ⟨i, h⟩ else 0

/-- The image that is at an address. -/
def fxImage (m : Machine) (a : Word) : Fin 512 → UInt8 := fun i => m.mem (a + BitVec.ofNat 64 i)

/-- Execute an instruction. -/
def exec (m : Machine) : Instr → Outcome Machine
  | .mov dst src => .done (m.set dst (m.reg src))
  | .load dst base disp => .done (m.set dst (m.mem.load64 (m.addr base disp)))
  | .store base disp src => .done (m.write (m.addr base disp) (m.reg src))
  | .storeCs base disp =>
      .done { m with mem := m.mem.store (m.addr base disp) 2 (byteOf (m.cs.setWidth 64)) }
  | .storeSs base disp =>
      .done { m with mem := m.mem.store (m.addr base disp) 2 (byteOf (m.ss.setWidth 64)) }
  | .loadAbs dst addr => .done (m.set dst (m.mem.load64 addr))
  | .storeAbs addr src => .done (m.write addr (m.reg src))
  | .xchgAbs addr reg => .done ((m.set reg (m.mem.load64 addr)).write addr (m.reg reg))
  | .lea dst base disp => .done (m.set dst (m.addr base disp))
  | .add dst imm =>
      .done { m.set dst (m.reg dst + BitVec.ofNat 64 imm) with
        flags := addFlags m.flags (m.reg dst) (BitVec.ofNat 64 imm) }
  | .sub dst imm =>
      .done { m.set dst (m.reg dst - BitVec.ofNat 64 imm) with
        flags := subFlags m.flags (m.reg dst) (BitVec.ofNat 64 imm) }
  | .push src => .done (m.pushWord (m.reg src))
  | .pushImm imm => .done (m.pushWord (imm.signExtend 64))
  | .pop dst => .done (m.drop.set dst m.top)
  -- The address of an operand of `push` is computed before the stack pointer changes, that of an
  -- operand of `pop` after it.
  | .pushMem base disp => .done (m.pushWord (m.mem.load64 (m.addr base disp)))
  | .popMem base disp => .done (m.drop.write (m.drop.addr base disp) m.top)
  | .pushf => .done (m.pushWord (m.flags &&& ~~~pushfClears))
  | .popf => .done { m.drop with flags := (m.top &&& popfMask) ||| (m.flags &&& ~~~(popfMask ||| 0x10000)) }
  | .fxsave base disp => do
      Outcome.require ((m.addr base disp).toNat % 16 = 0)
      pure { m with mem := m.fxStore (m.addr base disp) }
  | .fxrstor base disp => do
      Outcome.require ((m.addr base disp).toNat % 16 = 0)
      pure { m with fx := m.fxImage (m.addr base disp) }
  | .cld => .done { m with flags := m.flags &&& ~~~directionFlag }

/-- Execute a block of instructions. -/
def run : List Instr → Machine → Outcome Machine
  | [], m => .done m
  | i :: is, m => do
    let m ← m.exec i
    run is m

/-! ## Transfers of control -/

/-- `call`: the return address is put on the stack. -/
def call (m : Machine) (ret target : Word) : Machine := { m.pushWord ret with rip := target }

/-- `ret` -/
def ret (m : Machine) : Machine := { m.drop with rip := m.top }

/-- `iretq`: the instruction pointer, the code segment, the flags, the stack pointer and the stack
segment are on the stack. -/
def iretq (m : Machine) : Machine :=
  { m with
    reg := Function.update m.reg .rsp (m.mem.load64 (m.addr .rsp 24))
    rip := m.mem.load64 (m.addr .rsp 0)
    cs := m.mem.load16 (m.addr .rsp 8)
    flags := m.mem.load64 (m.addr .rsp 16)
    ss := m.mem.load16 (m.addr .rsp 32) }

/-- The flags that are cleared when an interrupt is delivered through an interrupt gate: those for
interrupts, single steps, nested tasks, resuming and virtual 8086 mode. -/
def interruptClears : Word := 0x34300

/-- An interrupt is delivered to a handler of the kernel. If it comes from there, the handler uses the
stack as it is; if not, it uses the one at `rsp0`, and there is no stack segment. -/
def interrupt (m : Machine) (rsp0 : Word) (selector : BitVec 16) (handler : Word) (error : Option Word) : Machine :=
  let user : Prop := m.cs &&& 3 ≠ 0
  let base := (if user then rsp0 else m.reg .rsp) &&& ~~~15
  { (m.set .rsp base).pushWords ([m.ss.setWidth 64, m.reg .rsp, m.flags, m.cs.setWidth 64, m.rip] ++ error.toList) with
    rip := handler
    cs := selector
    ss := if user then 0 else m.ss
    flags := m.flags &&& ~~~interruptClears }

/-- `syscall`, with what is in the model-specific registers for it. -/
def syscall (m : Machine) (star lstar fmask : Word) : Machine :=
  { (m.set .rcx m.rip).set .r11 (m.flags &&& ~~~0x10000) with
    rip := lstar
    flags := m.flags &&& ~~~fmask &&& ~~~0x10000
    cs := (star >>> 32).setWidth 16 &&& ~~~3
    ss := (star >>> 32).setWidth 16 + 8 }

/-- The flags that `sysret` can change. -/
def sysretMask : Word := 0x3c7fd7

/-- `sysret`, to 64-bit code. -/
def sysret (m : Machine) (star : Word) : Machine :=
  { m with
    rip := m.reg .rcx
    flags := (m.reg .r11 &&& sysretMask) ||| 2
    cs := ((star >>> 48).setWidth 16 + 16) ||| 3
    ss := ((star >>> 48).setWidth 16 + 8) ||| 3 }

/-! ## Lemmas -/

section Lemmas

variable (m : Machine) (r r' : Reg) (a v : Word)

@[simp] theorem set_reg_self : (m.set r v).reg r = v := Function.update_self ..

variable {r r'} in
@[simp] theorem set_reg_ne (h : r' ≠ r) : (m.set r v).reg r' = m.reg r' := Function.update_of_ne h ..

@[simp] theorem set_mem : (m.set r v).mem = m.mem := rfl

@[simp] theorem set_fx : (m.set r v).fx = m.fx := rfl

@[simp] theorem set_flags : (m.set r v).flags = m.flags := rfl

@[simp] theorem set_rip : (m.set r v).rip = m.rip := rfl

@[simp] theorem set_cs : (m.set r v).cs = m.cs := rfl

@[simp] theorem set_ss : (m.set r v).ss = m.ss := rfl

@[simp] theorem write_reg : (m.write a v).reg = m.reg := rfl

@[simp] theorem write_mem : (m.write a v).mem = m.mem.store64 a v := rfl

@[simp] theorem write_fx : (m.write a v).fx = m.fx := rfl

@[simp] theorem write_flags : (m.write a v).flags = m.flags := rfl

@[simp] theorem write_cs : (m.write a v).cs = m.cs := rfl

@[simp] theorem write_ss : (m.write a v).ss = m.ss := rfl

theorem iretq_rsp : m.iretq.reg .rsp = m.mem.load64 (m.addr .rsp 24) :=
  set_reg_self m .rsp (m.mem.load64 (m.addr .rsp 24))

variable {r} in
theorem iretq_reg (h : r ≠ .rsp) : m.iretq.reg r = m.reg r :=
  set_reg_ne m (m.mem.load64 (m.addr .rsp 24)) h

theorem iretq_rip : m.iretq.rip = m.mem.load64 (m.addr .rsp 0) := rfl

theorem iretq_cs : m.iretq.cs = m.mem.load16 (m.addr .rsp 8) := rfl

theorem iretq_flags : m.iretq.flags = m.mem.load64 (m.addr .rsp 16) := rfl

theorem iretq_ss : m.iretq.ss = m.mem.load16 (m.addr .rsp 32) := rfl

@[simp] theorem iretq_fx : m.iretq.fx = m.fx := rfl

@[simp] theorem iretq_mem : m.iretq.mem = m.mem := rfl

section Syscall

variable (star lstar fmask : Word)

theorem syscall_rcx : (m.syscall star lstar fmask).reg .rcx = m.rip := by
  change ((m.set .rcx m.rip).set .r11 (m.flags &&& ~~~0x10000)).reg .rcx = m.rip
  rw [set_reg_ne _ _ (by decide), set_reg_self]

theorem syscall_r11 : (m.syscall star lstar fmask).reg .r11 = m.flags &&& ~~~0x10000 :=
  set_reg_self (m.set .rcx m.rip) .r11 (m.flags &&& ~~~0x10000)

variable {r} in
theorem syscall_reg (hrcx : r ≠ .rcx) (hr11 : r ≠ .r11) : (m.syscall star lstar fmask).reg r = m.reg r :=
  (set_reg_ne (m.set .rcx m.rip) (m.flags &&& ~~~0x10000) hr11).trans (set_reg_ne m m.rip hrcx)

end Syscall

@[simp] theorem run_nil : run [] m = .done m := rfl

@[simp] theorem run_cons (i : Instr) (is : List Instr) : run (i :: is) m = m.exec i >>= run is := rfl

/-- A block in two parts. -/
theorem run_append (is is' : List Instr) : run (is ++ is') m = run is m >>= run is' := by
  induction is generalizing m with
  | nil => rfl
  | cons i is ih =>
    rw [List.cons_append, run_cons, run_cons]
    cases m.exec i with
    | done m => exact ih m
    | abort => rfl
    | running => rfl

@[simp] theorem pushWords_nil : m.pushWords [] = m := rfl

@[simp] theorem pushWords_cons (ws : List Word) : m.pushWords (v :: ws) = (m.pushWord v).pushWords ws := rfl

theorem pushWords_append (ws ws' : List Word) : m.pushWords (ws ++ ws') = (m.pushWords ws).pushWords ws' :=
  List.foldl_append ..

theorem pushWord_rsp : (m.pushWord v).reg .rsp = m.reg .rsp - 8 := by
  rw [pushWord, write_reg, set_reg_self]

theorem pushWord_mem : (m.pushWord v).mem = m.mem.store64 (m.reg .rsp - 8) v := rfl

variable (i : Fin 512) in
theorem fxStore_byte : m.fxStore a (a + BitVec.ofNat 64 i) = m.fx i := by
  have hin : InBlock a 512 (a + BitVec.ofNat 64 i) := inBlock_add a i.isLt (by decide)
  have hindex : (a + BitVec.ofNat 64 i - a).toNat = i := add_sub_toNat a (i.isLt.trans (by decide))
  rw [fxStore, Ram.store_of_inBlock hin, hindex, dif_pos i.isLt]

variable {a} in
theorem fxStore_of_not_inBlock {x : Word} (h : ¬ InBlock a 512 x) : m.fxStore a x = m.mem x :=
  Ram.store_of_not_inBlock h

variable {a} in
theorem load64_fxStore_apart {b : Word} (h : Apart a 512 b 8) : (m.fxStore a).load64 b = m.mem.load64 b :=
  Ram.load64_store_apart h

/-! ### Instructions with operands at known addresses -/

variable {m a} {base : Reg} {disp : ℕ}

theorem exec_store (h : m.addr base disp = a) (src : Reg) :
    m.exec (.store base disp src) = .done (m.write a (m.reg src)) := by
  subst h
  rfl

theorem exec_storeCs (h : m.addr base disp = a) :
    m.exec (.storeCs base disp) = .done { m with mem := m.mem.store a 2 (byteOf (m.cs.setWidth 64)) } := by
  subst h
  rfl

theorem exec_storeSs (h : m.addr base disp = a) :
    m.exec (.storeSs base disp) = .done { m with mem := m.mem.store a 2 (byteOf (m.ss.setWidth 64)) } := by
  subst h
  rfl

theorem exec_load (h : m.addr base disp = a) (dst : Reg) :
    m.exec (.load dst base disp) = .done (m.set dst (m.mem.load64 a)) := by
  subst h
  rfl

theorem exec_lea (h : m.addr base disp = a) (dst : Reg) : m.exec (.lea dst base disp) = .done (m.set dst a) := by
  subst h
  rfl

/-- `fxsave` stores the x87 and SSE state. -/
theorem exec_fxsave (h : m.addr base disp = a) (ha : a.toNat % 16 = 0) :
    m.exec (.fxsave base disp) = .done { m with mem := m.fxStore a } := by
  rw [exec, h, Outcome.require_pos ha]
  rfl

/-- `fxrstor` loads it. -/
theorem exec_fxrstor (h : m.addr base disp = a) (ha : a.toNat % 16 = 0) :
    m.exec (.fxrstor base disp) = .done { m with fx := m.fxImage a } := by
  rw [exec, h, Outcome.require_pos ha]
  rfl

theorem drop_pushWord (m : Machine) (v : Word) :
    (m.pushWord v).drop = { m with mem := m.mem.store64 (m.reg .rsp - 8) v } := by
  refine congrArg (fun reg => { m with reg := reg, mem := m.mem.store64 (m.reg .rsp - 8) v }) (funext fun r => ?_)
  by_cases hr : r = .rsp
  · rw [hr, pushWord_rsp, Function.update_self, BitVec.sub_add_cancel]
  · rw [Function.update_of_ne hr]
    exact set_reg_ne m _ hr

theorem top_pushWord (m : Machine) (v : Word) : (m.pushWord v).top = v := by
  rw [top, pushWord_rsp, pushWord_mem, Ram.load64_store64]

/-- `pushfq` and `pop` move the flags, by way of the stack. -/
theorem run_pushf_popMem (m : Machine) (disp : ℕ) :
    run [.pushf, .popMem .rsp disp] m =
      .done { m with
        mem := (m.mem.store64 (m.reg .rsp - 8) (m.flags &&& ~~~pushfClears)).store64 (m.addr .rsp disp)
          (m.flags &&& ~~~pushfClears) } := by
  rw [run_cons, exec, Outcome.done_bind, run_cons, exec, drop_pushWord, top_pushWord, Outcome.done_bind, run_nil]
  rfl

/-- `push` and `popfq` load flags. -/
theorem run_pushMem_popf (m : Machine) (base : Reg) (disp : ℕ) :
    run [.pushMem base disp, .popf] m =
      .done { m with
        mem := m.mem.store64 (m.reg .rsp - 8) (m.mem.load64 (m.addr base disp))
        flags := (m.mem.load64 (m.addr base disp) &&& popfMask) ||| (m.flags &&& ~~~(popfMask ||| 0x10000)) } := by
  rw [run_cons, exec, Outcome.done_bind, run_cons, exec, drop_pushWord, top_pushWord, Outcome.done_bind, run_nil]
  rfl

/-! ### Blocks of moves -/

section Moves

variable {rs : List Reg}

/-- Registers are stored in a structure. -/
theorem run_stores (m : Machine) (base : Reg) (offset : Reg → ℕ) (rs : List Reg) :
    run (rs.map fun r => .store base (offset r) r) m =
      .done { m with mem := rs.foldl (fun mem r => mem.store64 (m.addr base (offset r)) (m.reg r)) m.mem } := by
  induction rs generalizing m with
  | nil => rfl
  | cons r rs ih =>
    rw [List.map_cons, run_cons]
    exact ih (m.write (m.addr base (offset r)) (m.reg r))

/-- Registers are loaded from a structure. -/
theorem run_loads (m : Machine) (offset : Reg → ℕ) (hbase : base ∉ rs) :
    run (rs.map fun r => .load r base (offset r)) m =
      .done { m with reg := fun r => if r ∈ rs then m.mem.load64 (m.addr base (offset r)) else m.reg r } := by
  induction rs generalizing m with
  | nil => rfl
  | cons r rs ih =>
    have hne : base ≠ r := fun h => hbase (h ▸ List.mem_cons_self)
    have haddr : ∀ v d, (m.set r v).addr base d = m.addr base d := by
      intro v d
      rw [addr, set_reg_ne _ _ hne, addr]
    rw [List.map_cons, run_cons, exec, Outcome.done_bind, ih _ fun h => hbase (List.mem_cons_of_mem r h)]
    simp only [haddr, set_mem]
    congr 1
    refine congrArg (fun reg => { m with reg := reg }) (funext fun r' => ?_)
    by_cases hrest : r' ∈ rs
    · rw [if_pos hrest, if_pos (List.mem_cons_of_mem r hrest)]
    · rw [if_neg hrest]
      by_cases hr : r' = r
      · rw [hr, set_reg_self, if_pos List.mem_cons_self]
      · rw [set_reg_ne _ _ hr, if_neg fun h => hrest ((List.mem_cons.mp h).resolve_left hr)]

/-- Words are copied by way of a register, from where nothing is written. -/
theorem run_copies (m : Machine) (tmp src dst : Reg) (hsrc : src ≠ tmp) (hdst : dst ≠ tmp) (cs : List (ℕ × ℕ))
    (h : ∀ c ∈ cs, ∀ c' ∈ cs, Apart (m.addr dst c'.2) 8 (m.addr src c.1) 8) :
    ∃ reg, run (cs.flatMap fun c => [.load tmp src c.1, .store dst c.2 tmp]) m =
        .done { m with
          reg := reg
          mem := cs.foldl (fun mem c => mem.store64 (m.addr dst c.2) (m.mem.load64 (m.addr src c.1))) m.mem } ∧
      ∀ r, r ≠ tmp → reg r = m.reg r := by
  induction cs generalizing m with
  | nil => exact ⟨m.reg, rfl, fun _ _ => rfl⟩
  | cons c cs ih =>
    let m₁ := (m.set tmp (m.mem.load64 (m.addr src c.1))).write (m.addr dst c.2) (m.mem.load64 (m.addr src c.1))
    have haddr : ∀ r d, r ≠ tmp → m₁.addr r d = m.addr r d := by
      intro r d hr
      rw [addr, write_reg, set_reg_ne _ _ hr, addr]
    have hkept : ∀ c' ∈ cs, m₁.mem.load64 (m.addr src c'.1) = m.mem.load64 (m.addr src c'.1) :=
      fun c' hc' => Ram.load64_store64_apart (h c' (List.mem_cons_of_mem c hc') c List.mem_cons_self)
    have hexec : run [.load tmp src c.1, .store dst c.2 tmp] m = .done m₁ := by
      rw [run_cons, exec, Outcome.done_bind, run_cons, exec, Outcome.done_bind, run_nil, set_reg_self]
      exact congrArg (fun a => Outcome.done ((m.set tmp _).write a _)) (haddr dst c.2 hdst)
    obtain ⟨reg, hrun, hreg⟩ := ih m₁ fun c₁ h₁ c₂ h₂ => by
      rw [haddr _ _ hdst, haddr _ _ hsrc]
      exact h c₁ (List.mem_cons_of_mem c h₁) c₂ (List.mem_cons_of_mem c h₂)
    refine ⟨reg, ?_, fun r hr => ?_⟩
    · rw [List.flatMap_cons, run_append, hexec, Outcome.done_bind, hrun, List.foldl_cons]
      refine congrArg (fun mem => Outcome.done { m with reg := reg, mem := mem })
        (List.foldl_ext _ _ _ fun mem c' hc' => ?_)
      rw [haddr _ _ hdst, haddr _ _ hsrc, hkept c' hc']
    · rw [hreg r hr, write_reg, set_reg_ne _ _ hr]

end Moves

end Lemmas

/-- The machine `m'` has pushed some words. -/
structure Pushed (m : Machine) (ws : List Word) (m' : Machine) : Prop where
  /-- the stack pointer is below them -/
  rsp : m'.reg .rsp = m.reg .rsp - BitVec.ofNat 64 (8 * ws.length)
  /-- the other registers are as they were -/
  reg : ∀ r, r ≠ .rsp → m'.reg r = m.reg r
  /-- the words are on the stack, the last one below the others -/
  word : ∀ i (h : i < ws.length), m'.mem.load64 (m.reg .rsp - BitVec.ofNat 64 (8 * (i + 1))) = ws[i]
  /-- memory is written there only -/
  memory : ∀ x, ¬ InBlock (m.reg .rsp - BitVec.ofNat 64 (8 * ws.length)) (8 * ws.length) x → m'.mem x = m.mem x
  /-- the rest of the machine is as it was -/
  rest : m'.fx = m.fx ∧ m'.flags = m.flags ∧ m'.rip = m.rip ∧ m'.cs = m.cs ∧ m'.ss = m.ss

/-- **Words are pushed**, as long as the stack does not wrap around. -/
theorem pushWords_pushed (m : Machine) (ws : List Word) (hlength : 8 * ws.length ≤ 2 ^ 62) :
    Pushed m ws (m.pushWords ws) := by
  induction ws generalizing m with
  | nil => exact ⟨(BitVec.sub_zero _).symm, fun _ _ => rfl, nofun, fun _ _ => rfl, rfl, rfl, rfl, rfl, rfl⟩
  | cons w ws ih =>
    rw [List.length_cons] at hlength
    have h := ih (m.pushWord w) (by omega)
    have hbelow : ∀ n, (m.pushWord w).reg .rsp - BitVec.ofNat 64 (8 * n) =
        m.reg .rsp - BitVec.ofNat 64 (8 * (n + 1)) := by
      intro n
      rw [pushWord_rsp, Nat.mul_add, BitVec.ofNat_add]
      change m.reg .rsp - 8 - BitVec.ofNat 64 (8 * n) = m.reg .rsp - (BitVec.ofNat 64 (8 * n) + 8)
      grind
    have hfirst : m.reg .rsp - 8 = m.reg .rsp - BitVec.ofNat 64 (8 * (0 + 1)) := rfl
    refine ⟨?_, ?_, ?_, ?_, h.rest⟩
    · rw [pushWords_cons, h.rsp, hbelow, List.length_cons]
    · intro r hr
      rw [pushWords_cons, h.reg r hr, pushWord, write_reg, set_reg_ne _ _ hr]
    · intro i hi
      cases i with
      | zero =>
        -- The other words are below this one.
        have hkept : ∀ x, InBlock (m.reg .rsp - 8) 8 x → (m.pushWords (w :: ws)).mem x = (m.pushWord w).mem x := by
          intro x hx
          refine h.memory x fun hin => ?_
          rw [hbelow] at hin
          have hpos : 0 < 8 * ws.length := Nat.zero_lt_of_lt hin
          rw [hfirst] at hx
          exact (apart_below (m.reg .rsp) (.inl (by omega)) (by omega) (by omega) hpos (by decide) (by omega)
            (by decide)).not_inBlock hx hin
        change (m.pushWords (w :: ws)).mem.load64 (m.reg .rsp - 8) = w
        rw [Ram.load64_congr hkept, pushWord_mem, Ram.load64_store64]
      | succ i =>
        have hi : i < ws.length := Nat.lt_of_succ_lt_succ hi
        rw [List.getElem_cons_succ, ← h.word i hi, hbelow, pushWords_cons]
    · intro x hx
      rw [List.length_cons] at hx
      have hrest : ¬ InBlock ((m.pushWord w).reg .rsp - BitVec.ofNat 64 (8 * ws.length)) (8 * ws.length) x := by
        rw [hbelow]
        intro hin
        exact hx (inBlock_below hin le_rfl (by omega) (by omega))
      have hword : ¬ InBlock (m.reg .rsp - 8) 8 x := by
        rw [hfirst]
        intro hin
        exact hx (inBlock_below hin (by omega) (by omega) (by omega))
      rw [pushWords_cons, h.memory x hrest, pushWord_mem, Ram.store64, Ram.store_of_not_inBlock hword]

end Machine

end Lib.X64
