import Attos.Disasm.Instructions
import Attos.Lib.Outcome

/-!
# The disassembler

`do_disasm` decodes one instruction. It reads prefixes, the last `REX` byte of which extends the
register numbers, an opcode of one or two bytes, and the `ModR/M` byte where the opcode has one. A
group of instructions is searched for the right one. The operands are decoded one after the other,
and the code is read further where their addressing modes say so: the `SIB` byte, displacements and
immediate data.

Where there is no byte left to read, there is no instruction.
-/

namespace Attos.Disasm

open Lib

/-- A byte. -/
abbrev Byte := BitVec 8

/-! ## Masks -/

/-- `rex_b_mask`: extension of the rm field, the base field, or the reg field of the opcode -/
def rexB : Byte := 0x1

/-- `rex_x_mask`: extension of the index field -/
def rexX : Byte := 0x2

/-- `rex_r_mask`: extension of the reg field -/
def rexR : Byte := 0x4

/-- `rex_w_mask`: operands of 64 bits -/
def rexW : Byte := 0x8

/-- `prefix_flag_lock` -/
def lock : Unsigned := 0x100

/-- `prefix_flag_repnz` -/
def repnz : Unsigned := 0x200

/-- `prefix_flag_rep` -/
def rep : Unsigned := 0x400

/-- `prefix_flag_cs` -/
def cs : Unsigned := 0x800

/-- `prefix_flag_gs` -/
def gs : Unsigned := 0x10000

/-- `prefix_flag_opsize` -/
def opsize : Unsigned := 0x20000

/-- `prefix_flag_rex` -/
def rexFlag : Unsigned := 0x40

/-- The `REX` prefix and some of its bits. -/
def rexBits (mask : Byte) : Unsigned := rexFlag ||| mask.setWidth 32

/-- `modrm_mod` -/
def modrmMod (modrm : Byte) : Byte := (modrm >>> 6) &&& 3

/-- `modrm_reg` -/
def modrmReg (modrm : Byte) : Byte := (modrm >>> 3) &&& 7

/-- `modrm_rm` -/
def modrmRm (modrm : Byte) : Byte := modrm &&& 7

/-! ## Operands -/

/-- The types of registers of `decoded_operand_type`. -/
inductive RegisterType : Type where
  | reg8
  | reg8Rex
  | reg16
  | reg32
  | reg64
  | xmmreg
  | sreg
  | creg
  | dreg
  deriving DecidableEq

/-- `mem_op` -/
structure MemOp : Type where
  /-- `reg` -/
  reg : Byte
  /-- `reg2` -/
  reg2 : Byte
  /-- `reg2scale` -/
  reg2scale : Byte
  /-- `dispbits` -/
  dispbits : ℕ
  /-- `disp` -/
  disp : BitVec 32
  /-- `bits` -/
  bits : ℕ
  deriving DecidableEq

/-- `decoded_operand` -/
inductive DecodedOperand : Type where
  | reg (type : RegisterType) (reg : Byte)
  | disp32 (disp : BitVec 32)
  | immediate (value : BitVec 64) (bits : ℕ)
  | mem (mem : MemOp)
  | absaddr (absaddr : BitVec 64)
  deriving DecidableEq

/-- The type of a register. -/
def DecodedOperand.type? : DecodedOperand → Option RegisterType
  | reg type _ => some type
  | _ => none

/-- `reg_rax` -/
def regRax : Byte := 0

/-- `reg_rcx` -/
def regRcx : Byte := 1

/-- `reg_rdx` -/
def regRdx : Byte := 2

/-- `reg_rip` -/
def regRip : Byte := 16

/-- `reg_invalid` -/
def regInvalid : Byte := 255

/-- `has_modrm` -/
def hasModrm : List InstructionOperandInfo → Outcome Bool
  | [] => .done false
  | o :: os =>
    match o.addrMode with
    | .C | .D | .E | .G | .M | .R | .S | .V | .W => .done true
    | .lowInstructionBits | .rax | .rcx | .rdx | .const1 | .I | .J | .O => hasModrm os
    | .U => .abort

/-! ## Reading -/

/-- `get_u8` -/
def getU8 : List Byte → Outcome (Byte × List Byte)
  | b :: rest => .done (b, rest)
  | [] => .abort

/-- `get_u16` -/
def getU16 (code : List Byte) : Outcome (BitVec 16 × List Byte) := do
  let (low, code) ← getU8 code
  let (high, code) ← getU8 code
  pure (high ++ low, code)

/-- `get_u32` -/
def getU32 (code : List Byte) : Outcome (BitVec 32 × List Byte) := do
  let (low, code) ← getU16 code
  let (high, code) ← getU16 code
  pure (high ++ low, code)

/-- `get_u64` -/
def getU64 (code : List Byte) : Outcome (BitVec 64 × List Byte) := do
  let (low, code) ← getU32 code
  let (high, code) ← getU32 code
  pure (high ++ low, code)

/-- The loop that reads prefixes: the flags of the prefixes and the last `REX` byte. -/
def readPrefixes (prefixes : Unsigned) (rex : Byte) : List Byte → Outcome (Unsigned × Byte × List Byte)
  | [] => .abort
  | b :: rest =>
    if b = 0xf0 then readPrefixes (prefixes ||| lock) rex rest
    else if b = 0xf2 then readPrefixes (prefixes ||| repnz) rex rest
    else if b = 0xf3 then readPrefixes (prefixes ||| rep) rex rest
    else if b = 0x2e then readPrefixes (prefixes ||| cs) rex rest
    else if b = 0x65 then readPrefixes (prefixes ||| gs) rex rest
    else if b = 0x66 then readPrefixes (prefixes ||| opsize) rex rest
    else if b &&& 0xf0 = 0x40 then readPrefixes (prefixes ||| b.setWidth 32) b rest
    else .done (prefixes, rex, b :: rest)

/-- The opcode: where it is in the table, and its last byte. -/
def readOpcode (code : List Byte) : Outcome (ℕ × Byte × List Byte) := do
  let (instructionByte, code) ← getU8 code
  if instructionByte = 0x0f then
    let (instructionByte, code) ← getU8 code
    pure (instructionByte.toNat + 256, instructionByte, code)
  else pure (instructionByte.toNat, instructionByte, code)

/-- `get_prefix_group`: the number, the prefixes that are left, and those that are used. -/
def getPrefixGroup (groupFlags prefixes : Unsigned) : Outcome (ℕ × Unsigned × Unsigned) := do
  Outcome.require (groupFlags &&& prefixGroup ≠ 0)
  if prefixes &&& opsize ≠ 0 then pure (1, prefixes &&& ~~~opsize, opsize)
  else if prefixes &&& rep ≠ 0 then pure (2, prefixes &&& ~~~rep, rep)
  else if prefixes &&& repnz ≠ 0 then pure (3, prefixes &&& ~~~repnz, repnz)
  else pure (0, prefixes, 0)

/-- There is a group of instructions, and not only names. -/
def InstructionInfo.IsGroup : InstructionInfo → Prop
  | .group _ _ => True
  | _ => False

instance : DecidablePred InstructionInfo.IsGroup
  | .normal _ => .isFalse not_false
  | .groupNames _ _ => .isFalse not_false
  | .group _ _ => .isTrue trivial

/-- Select the number in a group: the number, the prefixes that are left, and those that are used. -/
def selectGroup (index : ℕ) (info : InstructionInfo) (modrm : Byte) (prefixes : Unsigned) :
    Outcome (ℕ × Unsigned × Unsigned) := do
  let groupFlags := info.flags &&& (prefixGroup ||| regGroup ||| memGroup)
  if groupFlags = prefixGroup then
    Outcome.require info.IsGroup
    getPrefixGroup groupFlags prefixes
  else if groupFlags = regGroup then pure ((modrmReg modrm).toNat, prefixes, 0)
  else if groupFlags = regGroup ||| prefixGroup then
    Outcome.require (modrmMod modrm = 3 ∨ index = 256 + 0xc7)
    Outcome.require info.IsGroup
    let (n, prefixes, used) ← getPrefixGroup groupFlags prefixes
    pure ((modrmReg modrm).toNat + n * 8, prefixes, used)
  else
    Outcome.require (groupFlags = regGroup ||| memGroup)
    Outcome.require info.IsGroup
    Outcome.require (index ≠ 256 + 0x01 ∨ modrmMod modrm ≠ 3 ∨ modrmRm modrm = 0)
    pure ((modrmReg modrm).toNat + (if modrmMod modrm = 3 then 8 else 0), prefixes, 0)

/-- What is in front of the operands. -/
structure Header : Type where
  /-- the `REX` byte -/
  rex : Byte
  /-- the prefixes that are left -/
  prefixes : Unsigned
  /-- the prefixes that are used -/
  used : Unsigned
  /-- where the opcode is in the table -/
  index : ℕ
  /-- the last byte of the opcode -/
  instructionByte : Byte
  /-- the number in the group -/
  group : Option ℕ
  /-- the `ModR/M` byte -/
  modrm : Byte

/-- The instruction that the opcode and the group select. -/
def Header.entry (h : Header) : Entry := (instruction h.index).entry h.group

/-- The `ModR/M` byte is read at once, in front of the group. -/
def fetchesModrm (info : InstructionInfo) : Outcome Bool :=
  if info.flags &&& regGroup ≠ 0 then .done true else hasModrm info.operands

/-- The `ModR/M` byte is read for the instruction that was selected. -/
def fetchesModrmLater (fetched : Bool) (entry : Entry) : Outcome Bool :=
  if fetched then .done false else hasModrm entry.operands

/-- Read the `ModR/M` byte, if it is there. -/
def fetchModrm (fetch : Bool) (modrm : Byte) (code : List Byte) : Outcome (Byte × List Byte) :=
  if fetch then getU8 code else .done (modrm, code)

/-- The number in the group, if there is one: the prefixes that are left, and those that are used. -/
def readGroup (index : ℕ) (info : InstructionInfo) (modrm : Byte) (prefixes : Unsigned) :
    Outcome (Option ℕ × Unsigned × Unsigned) :=
  match info with
  | .normal _ => .done (none, prefixes, 0)
  | _ => do
    let (n, prefixes, used) ← selectGroup index info modrm prefixes
    pure (some n, prefixes, used)

/-- The part of `do_disasm` in front of the operands. -/
def readHeader (code : List Byte) : Outcome (Header × List Byte) := do
  let (prefixes, rex, code) ← readPrefixes 0 0 code
  let (index, instructionByte, code) ← readOpcode code
  let fetched ← fetchesModrm (instruction index)
  let (modrm, code) ← fetchModrm fetched 0 code
  let (group, prefixes, used) ← readGroup index (instruction index) modrm prefixes
  let fetchedLater ← fetchesModrmLater fetched ((instruction index).entry group)
  let (modrm, code) ← fetchModrm fetchedLater modrm code
  pure (⟨rex, prefixes, used, index, instructionByte, group, modrm⟩, code)

/-! ## Addressing modes -/

/-- What the operands depend on. -/
structure Context : Type where
  /-- the `REX` byte -/
  rex : Byte
  /-- the prefixes that are left -/
  prefixes : Unsigned
  /-- the last byte of the opcode -/
  instructionByte : Byte
  /-- the `ModR/M` byte -/
  modrm : Byte

namespace Context

variable (c : Context)

/-- A bit of the `REX` byte is set. -/
def Rex (mask : Byte) : Prop := c.rex &&& mask ≠ 0

/-- The operand-size prefix is left. -/
def Opsize : Prop := c.prefixes &&& opsize ≠ 0

instance (mask : Byte) : Decidable (c.Rex mask) := inferInstanceAs (Decidable (c.rex &&& mask ≠ 0))

instance : Decidable c.Opsize := inferInstanceAs (Decidable (c.prefixes &&& opsize ≠ 0))

/-- What a bit of the `REX` byte adds to the number of a register. -/
def ext (mask : Byte) : Byte := if c.Rex mask then 8 else 0

/-- The prefixes that are used where a bit of the `REX` byte adds to the number. -/
def usedIf (mask : Byte) : Unsigned := if c.Rex mask then rexBits mask else 0

/-- `do_reg` -/
def doReg (type : OperandType) (reg : Byte) : Outcome DecodedOperand :=
  match type with
  | .b => .done (.reg (if c.rex ≠ 0 then .reg8Rex else .reg8) reg)
  | .w => .done (.reg .reg16 reg)
  | .v | .y => .done (.reg (if c.Rex rexW then .reg64 else .reg32) reg)
  | .dq | .ss | .sd | .pd | .ps | .x => .done (.reg .xmmreg reg)
  | _ => .abort

/-- `low_instruction_bits`: the register, and the prefixes that are used -/
def lowInstructionBits (type : OperandType) : Outcome (DecodedOperand × Unsigned) :=
  let reg := (c.instructionByte &&& 7) + c.ext rexB
  let used := c.usedIf rexB
  match type with
  | .q => .done (.reg .reg64 reg, used)
  | .v =>
    if c.Rex rexW then .done (.reg .reg64 reg, used ||| rexBits rexW)
    else if c.Opsize then .done (.reg .reg16 reg, used ||| opsize)
    else .done (.reg .reg32 reg, used)
  | .b => .done (.reg (if c.rex ≠ 0 then .reg8Rex else .reg8) reg, used ||| rexFlag)
  | .w => .done (.reg .reg16 reg, used)
  | _ => .abort

/-- `rax` -/
def rax (type : OperandType) : Outcome (DecodedOperand × Unsigned) :=
  match type with
  | .b => .done (.reg .reg8 regRax, 0)
  | .w => .done (.reg .reg16 regRax, 0)
  | .z =>
    if c.Opsize then do
      Outcome.require (¬ c.Rex rexW)
      pure (.reg .reg16 regRax, opsize)
    else .done (.reg (if c.Rex rexW then .reg64 else .reg32) regRax, rexBits rexW)
  | _ => .abort

/-- `rcx` -/
def rcx (type : OperandType) : Outcome (DecodedOperand × Unsigned) := do
  Outcome.require (type = .b)
  pure (.reg .reg8 regRcx, 0)

/-- `rdx` -/
def rdx (type : OperandType) : Outcome (DecodedOperand × Unsigned) := do
  Outcome.require (type = .w)
  pure (.reg .reg16 regRdx, 0)

/-- `const1` -/
def const1 (type : OperandType) : Outcome (DecodedOperand × Unsigned) := do
  Outcome.require (type = .b)
  pure (.immediate 1 1, 0)

/-- The register of `E`, `M` and `W`, before it is checked. -/
def rmRegister (type : OperandType) : Outcome (DecodedOperand × Unsigned) :=
  let rm := modrmRm c.modrm
  if c.Opsize then do
    Outcome.require (type = .v ∨ type = .b ∨ type = .w)
    pure (.reg .reg16 (rm + c.ext rexB), c.usedIf rexB ||| opsize)
  else
    let reg := rm + c.ext rexB
    let used := rexBits (rexB ||| rexW)
    if type = .z then
      if c.Opsize then .done (.reg .reg16 reg, used ||| opsize) else .done (.reg .reg32 reg, used)
    else do
      let op ← c.doReg type reg
      pure (op, used)

/-- The check of the register of `W`. -/
def checkXmmRegister (o : InstructionOperandInfo) (op : DecodedOperand) : Outcome Unit :=
  if o.addrMode = .W then do
    Outcome.require (o.opType ∈ [OperandType.pd, .ps, .x, .dq, .ss, .sd])
    Outcome.require (op.type? = some .xmmreg)
  else .done ()

/-- The registers of an address: the base, the index and its scale, and the prefixes that are used. -/
def addressRegisters (code : List Byte) : Outcome (Byte × Byte × Byte × Unsigned × List Byte) :=
  let mod := modrmMod c.modrm
  let rm := modrmRm c.modrm
  if rm = 4 then do
    let (sib, code) ← getU8 code
    let reg := if mod = 0 ∧ sib &&& 7 = 5 then regInvalid else (sib &&& 7) + c.ext rexB
    let reg2 := ((sib >>> 3) &&& 7) + c.ext rexX
    let reg2scale : Byte := if reg2 = 4 then 0 else 1 <<< ((sib >>> 6) &&& 3).toNat
    pure (reg, reg2, reg2scale, rexBits (rexB ||| rexX), code)
  else if mod = 0 ∧ rm = 5 then .done (regRip, 0xff, 0, 0, code)
  else .done (rm + c.ext rexB, 0xff, 0, c.usedIf rexB, code)

/-- The displacement of an address, and the number of its bits. -/
def displacement (reg : Byte) (code : List Byte) : Outcome (ℕ × BitVec 32 × List Byte) :=
  let mod := modrmMod c.modrm
  if mod = 1 then do
    let (disp, code) ← getU8 code
    pure (8, disp.signExtend 32, code)
  else if mod = 2 ∨ (mod = 0 ∧ modrmRm c.modrm = 5) ∨ reg = regInvalid then do
    let (disp, code) ← getU32 code
    pure (32, disp, code)
  else .done (0, 0, code)

/-- The number of bits in memory, and the prefixes that are used. -/
def memBits (o : InstructionOperandInfo) : Outcome (ℕ × Unsigned) :=
  if o.addrMode = .W then
    match o.opType with
    | .ss => .done (32, 0)
    | .sd => .done (64, 0)
    | .ps | .x => .done (128, 0)
    | _ => .abort
  else do
    Outcome.require (o.addrMode = .E ∨ o.addrMode = .M)
    match o.opType with
    | .mem => do
      Outcome.require (¬ c.Opsize)
      pure (0, 0)
    | .b => do
      Outcome.require (¬ c.Opsize)
      pure (8, 0)
    | .w => do
      Outcome.require (¬ c.Opsize)
      pure (16, 0)
    | .d => do
      Outcome.require (¬ c.Opsize)
      pure (32, 0)
    | .dq => do
      Outcome.require (¬ c.Opsize)
      pure (64, 0)
    | .z => if c.Opsize then pure (16, opsize) else pure (32, 0)
    | .y => if c.Rex rexW then pure (64, rexBits rexW) else pure (32, 0)
    | .v =>
      if c.Opsize then do
        Outcome.require (¬ c.Rex rexW)
        pure (16, rexBits rexW ||| opsize)
      else pure (if c.Rex rexW then 64 else 32, rexBits rexW)
    | _ => .abort

/-- `E`, `M` and `W` -/
def rmOperand (o : InstructionOperandInfo) (code : List Byte) : Outcome (DecodedOperand × Unsigned × List Byte) :=
  if modrmMod c.modrm = 3 then do
    Outcome.require (o.addrMode ≠ .M)
    let (op, used) ← c.rmRegister o.opType
    checkXmmRegister o op
    pure (op, used, code)
  else do
    let (reg, reg2, reg2scale, used, code) ← c.addressRegisters code
    let (dispbits, disp, code) ← c.displacement reg code
    let (bits, used') ← c.memBits o
    pure (.mem ⟨reg, reg2, reg2scale, dispbits, disp, bits⟩, used ||| used', code)

/-- `G` -/
def generalRegister (type : OperandType) : Outcome (DecodedOperand × Unsigned) :=
  if c.Opsize then .done (.reg .reg16 (modrmReg c.modrm + c.ext rexR), c.usedIf rexR ||| opsize)
  else do
    let op ← c.doReg type (modrmReg c.modrm + c.ext rexR)
    pure (op, rexBits (rexR ||| rexW))

/-- `I` -/
def immediate (type : OperandType) (code : List Byte) : Outcome (DecodedOperand × Unsigned × List Byte) :=
  match type with
  | .b => do
    let (value, code) ← getU8 code
    pure (.immediate (value.signExtend 64) 8, 0, code)
  | .ub => do
    let (value, code) ← getU8 code
    pure (.immediate (value.signExtend 64 &&& 0xff) 8, 0, code)
  | .v =>
    if c.Rex rexW then do
      let (value, code) ← getU64 code
      pure (.immediate value 64, rexBits rexW, code)
    else if c.Opsize then do
      let (value, code) ← getU16 code
      pure (.immediate (value.signExtend 64) 16, opsize, code)
    else do
      let (value, code) ← getU32 code
      pure (.immediate (value.signExtend 64) 32, 0, code)
  | .w => do
    let (value, code) ← getU16 code
    pure (.immediate (value.signExtend 64) 16, 0, code)
  | .z =>
    if c.Opsize then do
      let (value, code) ← getU16 code
      pure (.immediate (value.signExtend 64) 16, opsize, code)
    else do
      let (value, code) ← getU32 code
      pure (.immediate (value.signExtend 64) 32, 0, code)
  | _ => .abort

/-- `J` -/
def relative (type : OperandType) (code : List Byte) : Outcome (DecodedOperand × List Byte) :=
  match type with
  | .b => do
    let (disp, code) ← getU8 code
    pure (.disp32 (disp.signExtend 32), code)
  | .z => do
    let (disp, code) ← getU32 code
    pure (.disp32 disp, code)
  | _ => .abort

/-- `C` -/
def controlRegister (type : OperandType) : Outcome (DecodedOperand × Unsigned) := do
  Outcome.require (type = .d)
  pure (.reg .creg (modrmReg c.modrm + c.ext rexR), rexBits rexR)

/-- `D` -/
def debugRegister (type : OperandType) : Outcome (DecodedOperand × Unsigned) := do
  Outcome.require (¬ c.Rex rexR)
  Outcome.require (type = .d)
  pure (.reg .dreg (modrmReg c.modrm), 0)

/-- `S` -/
def segmentRegister : Outcome (DecodedOperand × Unsigned) := do
  Outcome.require (¬ c.Rex rexR)
  pure (.reg .sreg (modrmReg c.modrm), 0)

/-- `R` -/
def rmGeneralRegister (type : OperandType) : Outcome (DecodedOperand × Unsigned) := do
  Outcome.require (type = .d)
  Outcome.require (modrmMod c.modrm = 3)
  pure (.reg .reg64 (modrmRm c.modrm + c.ext rexB), rexBits rexB)

/-- `U`. The register is in the rm field, and `REX.R` extends it. -/
def rmXmmRegister (type : OperandType) : Outcome (DecodedOperand × Unsigned) := do
  Outcome.require (type = .x)
  Outcome.require (modrmMod c.modrm = 3)
  pure (.reg .xmmreg (modrmRm c.modrm + c.ext rexR), rexBits rexR)

/-- `V` -/
def xmmRegister (type : OperandType) : Outcome (DecodedOperand × Unsigned) := do
  Outcome.require (type ∈ [OperandType.ss, .sd, .ps, .x, .q, .y])
  pure (.reg .xmmreg (modrmReg c.modrm + c.ext rexR), rexBits rexR)

/-- `O` -/
def offset (type : OperandType) (code : List Byte) : Outcome (DecodedOperand × List Byte) := do
  Outcome.require (type = .b ∨ type = .v)
  let (absaddr, code) ← getU64 code
  pure (.absaddr absaddr, code)

/-- An addressing mode that does not read the code. -/
def ofRegister (op : Outcome (DecodedOperand × Unsigned)) (code : List Byte) :
    Outcome (DecodedOperand × Unsigned × List Byte) := do
  let (op, used) ← op
  pure (op, used, code)

/-- An operand: the prefixes that are used for it, and the code behind it. -/
def operand (o : InstructionOperandInfo) (code : List Byte) : Outcome (DecodedOperand × Unsigned × List Byte) :=
  match o.addrMode with
  | .lowInstructionBits => ofRegister (c.lowInstructionBits o.opType) code
  | .rax => ofRegister (c.rax o.opType) code
  | .rcx => ofRegister (rcx o.opType) code
  | .rdx => ofRegister (rdx o.opType) code
  | .const1 => ofRegister (const1 o.opType) code
  | .E | .M | .W => c.rmOperand o code
  | .G => ofRegister (c.generalRegister o.opType) code
  | .I => c.immediate o.opType code
  | .J => do
    let (op, code) ← relative o.opType code
    pure (op, 0, code)
  | .C => ofRegister (c.controlRegister o.opType) code
  | .D => ofRegister (c.debugRegister o.opType) code
  | .S => ofRegister c.segmentRegister code
  | .R => ofRegister (c.rmGeneralRegister o.opType) code
  | .U => ofRegister (c.rmXmmRegister o.opType) code
  | .V => ofRegister (c.xmmRegister o.opType) code
  | .O => do
    let (op, code) ← offset o.opType code
    pure (op, 0, code)

/-- The loop over the operands of an instruction with these flags. -/
def operands (flags : Unsigned) : List InstructionOperandInfo → Unsigned → List Byte →
    Outcome (List DecodedOperand × Unsigned × List Byte)
  | [], used, code => .done ([], used, code)
  | o :: os, used, code => do
    Outcome.require (flags &&& ~~~(f64 ||| regGroup ||| prefixGroup) = 0)
    let (op, used', code) ← c.operand o code
    let (ops, used, code) ← operands flags os (used ||| used') code
    pure (op :: ops, used, code)

end Context

/-! ## Instructions -/

/-- `decoded_instruction` -/
structure DecodedInstruction : Type where
  /-- `prefixes` -/
  prefixes : Unsigned
  /-- `unused_prefixes` -/
  unusedPrefixes : Unsigned
  /-- `start` -/
  start : List Byte
  /-- `len` -/
  len : ℕ
  /-- `info`: where it is in the table -/
  info : ℕ
  /-- `group` -/
  group : Option ℕ
  /-- `operands` -/
  operands : List DecodedOperand
  deriving DecidableEq

/-- The instruction that the opcode and the group select. -/
def DecodedInstruction.entry (ins : DecodedInstruction) : Entry := (instruction ins.info).entry ins.group

/-- The operand size is forced to 64 bits. -/
def Header.forced (h : Header) : Bool := h.entry.flags &&& f64 ≠ 0

/-- What the operands of the instruction depend on. -/
def Header.context (h : Header) : Context where
  rex := if h.forced then h.rex ||| rexW else h.rex
  prefixes := h.prefixes
  instructionByte := h.instructionByte
  modrm := h.modrm

/-- `do_disasm` -/
def doDisasm (code : List Byte) : Outcome DecodedInstruction := do
  let (h, rest) ← readHeader code
  let (operands, used, rest) ← h.context.operands h.entry.flags h.entry.operands h.used rest
  let unused := h.prefixes &&& ~~~used
  pure
    { prefixes := h.prefixes
      unusedPrefixes := if h.forced ∧ h.rex &&& rexW ≠ 0 then unused ||| rexBits rexW else unused
      start := code
      len := code.length - rest.length
      info := h.index
      group := h.group
      operands := operands }

end Attos.Disasm
