import Mathlib.Tactic

/-!
# The instructions of the disassembler

What `do_disasm` knows about an instruction is its name and, for each operand, an addressing mode
and a type. Some opcodes have groups of instructions, one of which is selected by the prefixes or
by the byte with `mod`, `reg` and `rm` behind the opcode.
-/

namespace Attos.Disasm

/-- Flags. -/
abbrev Unsigned := BitVec 32

/-- `addressing_mode` -/
inductive AddressingMode : Type where
  | lowInstructionBits
  | rax
  | rcx
  | rdx
  | const1
  /-- the reg field selects a control register -/
  | C
  /-- the reg field selects a debug register -/
  | D
  /-- the operand is a general-purpose register or a memory address -/
  | E
  /-- the reg field selects a general register -/
  | G
  /-- immediate data -/
  | I
  /-- a relative offset -/
  | J
  /-- refers only to memory -/
  | M
  /-- the offset of the operand, without a ModR/M byte -/
  | O
  /-- the rm field may refer only to a general register -/
  | R
  /-- the reg field selects a segment register -/
  | S
  /-- the rm field selects an XMM register -/
  | U
  /-- the reg field selects an XMM register -/
  | V
  /-- the operand is an XMM register or a memory address -/
  | W
  deriving DecidableEq

/-- `operand_type`. An operand of type `none` is one that is not there. -/
inductive OperandType : Type where
  | mem
  | b
  | ub
  | d
  | dq
  | v
  | w
  | q
  | o
  | z
  | x
  | y
  | pd
  | ps
  | ss
  | sd
  deriving DecidableEq

/-- `instruction_operand_info` -/
structure InstructionOperandInfo : Type where
  /-- `addr_mode` -/
  addrMode : AddressingMode
  /-- `op_type` -/
  opType : OperandType
  deriving DecidableEq

/-- `instruction_info_flag_f64`: the operand size is forced to 64 bits -/
def f64 : Unsigned := 1

/-- `instruction_info_flag_d64`: the operand size is 64 bits if not changed -/
def d64 : Unsigned := 2

/-- `instruction_info_flag_reg_group` -/
def regGroup : Unsigned := 4

/-- `instruction_info_flag_prefix_group` -/
def prefixGroup : Unsigned := 8

/-- `instruction_info_flag_mem_group` -/
def memGroup : Unsigned := 16

/-- An `instruction_info` of the type `normal`, with its operands up to the first one that is not
there. -/
structure Entry : Type where
  /-- `name` -/
  name : Option String := none
  /-- `flags` -/
  flags : Unsigned := 0
  /-- `operands` -/
  operands : List InstructionOperandInfo := []
  deriving DecidableEq

/-- `instruction_info` -/
inductive InstructionInfo : Type where
  | normal (entry : Entry)
  | groupNames (names : List (Option String)) (operands : List InstructionOperandInfo)
  | group (entries : List Entry) (flags : Unsigned)

namespace InstructionInfo

/-- `flags` -/
def flags : InstructionInfo → Unsigned
  | normal entry => entry.flags
  | groupNames _ _ => regGroup
  | group _ flags => flags

/-- `operands` -/
def operands : InstructionInfo → List InstructionOperandInfo
  | normal entry => entry.operands
  | groupNames _ operands => operands
  | group _ _ => []

/-- What is selected by the number of a group, if there is one. -/
def entry (n : Option ℕ) : InstructionInfo → Entry
  | normal entry => entry
  | groupNames names operands => ⟨(names[n.getD 0]?).join, regGroup, operands⟩
  | group entries _ => entries.getD (n.getD 0) {}

end InstructionInfo

/-- An instruction without flags. -/
def ins (name : String) (operands : List InstructionOperandInfo) : Entry := ⟨some name, 0, operands⟩

/-! ## The operands -/

def Cd : InstructionOperandInfo := ⟨.C, .d⟩
def Dd : InstructionOperandInfo := ⟨.D, .d⟩
def Eb : InstructionOperandInfo := ⟨.E, .b⟩
def Ev : InstructionOperandInfo := ⟨.E, .v⟩
def Ew : InstructionOperandInfo := ⟨.E, .w⟩
def Ey : InstructionOperandInfo := ⟨.E, .y⟩
def Ez : InstructionOperandInfo := ⟨.E, .z⟩
def Gb : InstructionOperandInfo := ⟨.G, .b⟩
def Gv : InstructionOperandInfo := ⟨.G, .v⟩
def Gy : InstructionOperandInfo := ⟨.G, .y⟩
def Ib : InstructionOperandInfo := ⟨.I, .b⟩
def Iub : InstructionOperandInfo := ⟨.I, .ub⟩
def Iv : InstructionOperandInfo := ⟨.I, .v⟩
def Iw : InstructionOperandInfo := ⟨.I, .w⟩
def Iz : InstructionOperandInfo := ⟨.I, .z⟩
def Jb : InstructionOperandInfo := ⟨.J, .b⟩
def Jz : InstructionOperandInfo := ⟨.J, .z⟩
def M : InstructionOperandInfo := ⟨.M, .mem⟩
def Md : InstructionOperandInfo := ⟨.M, .d⟩
def Mdq : InstructionOperandInfo := ⟨.M, .dq⟩
def Ms : InstructionOperandInfo := ⟨.M, .mem⟩
def Mw : InstructionOperandInfo := ⟨.M, .w⟩
def Ob : InstructionOperandInfo := ⟨.O, .b⟩
def Ov : InstructionOperandInfo := ⟨.O, .v⟩
def Rd : InstructionOperandInfo := ⟨.R, .d⟩
def Sw : InstructionOperandInfo := ⟨.S, .w⟩
def Ux : InstructionOperandInfo := ⟨.U, .x⟩
def Vps : InstructionOperandInfo := ⟨.V, .ps⟩
def Vq : InstructionOperandInfo := ⟨.V, .q⟩
def Vsd : InstructionOperandInfo := ⟨.V, .sd⟩
def Vss : InstructionOperandInfo := ⟨.V, .ss⟩
def Vx : InstructionOperandInfo := ⟨.V, .x⟩
def Vy : InstructionOperandInfo := ⟨.V, .y⟩
def Wdq : InstructionOperandInfo := ⟨.W, .dq⟩
def Wps : InstructionOperandInfo := ⟨.W, .ps⟩
def Wpd : InstructionOperandInfo := ⟨.W, .pd⟩
def Wsd : InstructionOperandInfo := ⟨.W, .sd⟩
def Wss : InstructionOperandInfo := ⟨.W, .ss⟩
def Wx : InstructionOperandInfo := ⟨.W, .x⟩
def R8 : InstructionOperandInfo := ⟨.lowInstructionBits, .b⟩
def R16 : InstructionOperandInfo := ⟨.lowInstructionBits, .w⟩
def R64v : InstructionOperandInfo := ⟨.lowInstructionBits, .v⟩
def R64 : InstructionOperandInfo := ⟨.lowInstructionBits, .q⟩
def rAL : InstructionOperandInfo := ⟨.rax, .b⟩
def rAX : InstructionOperandInfo := ⟨.rax, .w⟩
def rAXz : InstructionOperandInfo := ⟨.rax, .z⟩
def rCL : InstructionOperandInfo := ⟨.rcx, .b⟩
def rDX : InstructionOperandInfo := ⟨.rdx, .w⟩
def const1 : InstructionOperandInfo := ⟨.const1, .b⟩

/-! ## The groups -/

/-- `group1` -/
def group1 : List (Option String) :=
  [some "add", some "or", some "adc", some "sbb", some "and", some "sub", some "xor", some "cmp"]

/-- `group_90` -/
def group90 : List Entry :=
  [ins "nop" [], ins "xchg" [R16, rAX], ins "pause" [], {}]

/-- `group2` -/
def group2 : List (Option String) :=
  [some "rol", some "ror", some "rcl", some "rcr", some "shl", some "shr", none, some "sar"]

/-- `group3b` -/
def group3b : List Entry :=
  [ins "test" [Eb, Ib], {}, ins "not" [Eb], ins "neg" [Eb], ins "mul" [Eb], ins "imul" [Eb], ins "div" [Eb],
    ins "idiv" [Eb]]

/-- `group3z` -/
def group3z : List Entry :=
  [ins "test" [Ev, Iz], {}, ins "not" [Ev], ins "neg" [Ev], ins "mul" [Ev], ins "imul" [Ev], ins "div" [Ev],
    ins "idiv" [Ev]]

/-- `group4` -/
def group4 : List Entry :=
  [ins "inc" [Eb], ins "dec" [Eb], {}, {}, {}, {}, {}, {}]

/-- `group5` -/
def group5 : List Entry :=
  [ins "inc" [Ev], ins "dec" [Ev], ⟨some "call", f64, [Ev]⟩, {}, ⟨some "jmp", f64, [Ev]⟩, {},
    ⟨some "push", f64, [Ev]⟩, {}]

/-- `group6` -/
def group6 : List Entry :=
  [ins "sldt" [Mw], ins "str" [Mw], ins "lldt" [Ew], ins "ltr" [Ew], {}, {}, {}, {}]

/-- `group7` -/
def group7 : List Entry :=
  [ins "sgdt" [Ms], ins "sidt" [Ms], ins "lgdt" [Ms], ins "lidt" [Ms], {}, {}, {}, {},
   {}, {}, ins "xgetbv" [], {}, {}, {}, {}, {}]

/-- `group_0f_10` -/
def group0f10 : List Entry :=
  [ins "movups" [Vps, Wps], {}, ins "movss" [Vx, Wss], ins "movsd" [Vx, Wsd]]

/-- `group_0f_11` -/
def group0f11 : List Entry :=
  [ins "movups" [Wps, Vps], {}, ins "movss" [Wss, Vss], ins "movsd" [Wsd, Vsd]]

/-- `group16` -/
def group16 : List Entry :=
  [ins "prefetchnta" [Eb], {}, {}, {}, {}, {}, {}, {}]

/-- `group_0f_29` -/
def group0f29 : List Entry :=
  [ins "movaps" [Wps, Vps], {}, {}, {}]

/-- `group_0f_2a` -/
def group0f2a : List Entry :=
  [{}, {}, ins "cvtsi2ss" [Vss, Ey], ins "cvtsi2sd" [Vsd, Ey]]

/-- `group_0f_2c` -/
def group0f2c : List Entry :=
  [{}, {}, ins "cvttss2si" [Gy, Wss], ins "cvttsd2si" [Gy, Wsd]]

/-- `group_0f_2f` -/
def group0f2f : List Entry :=
  [ins "comiss" [Vss, Wss], ins "comisd" [Vsd, Wsd], {}, {}]

/-- `group_0f_54` -/
def group0f54 : List Entry :=
  [ins "andps" [Vps, Wps], {}, {}, {}]

/-- `group_0f_57` -/
def group0f57 : List Entry :=
  [ins "xorps" [Vps, Wps], {}, {}, {}]

/-- `group_0f_58` -/
def group0f58 : List Entry :=
  [{}, {}, {}, ins "addsd" [Vsd, Wsd]]

/-- `group_0f_59` -/
def group0f59 : List Entry :=
  [{}, {}, ins "mulss" [Vss, Wss], ins "mulsd" [Vsd, Wsd]]

/-- `group_0f_5a` -/
def group0f5a : List Entry :=
  [{}, {}, ins "cvtss2sd" [Vx, Wx], ins "cvtsd2ss" [Vss, Wsd]]

/-- `group_0f_5b` -/
def group0f5b : List Entry :=
  [ins "cvtdq2ps" [Vps, Wdq], {}, {}, {}]

/-- `group_0f_5c` -/
def group0f5c : List Entry :=
  [{}, {}, ins "subss" [Vss, Wss], ins "subsd" [Vsd, Wsd]]

/-- `group_0f_5e` -/
def group0f5e : List Entry :=
  [{}, {}, ins "divss" [Vss, Wss], ins "divsd" [Vsd, Wsd]]

/-- `group_0f_6e` -/
def group0f6e : List Entry :=
  [{}, ins "movd/q" [Vy, Ey], {}, {}]

/-- `group_0f_6f` -/
def group0f6f : List Entry :=
  [{}, ins "movdqa" [Vx, Wx], ins "movdqu" [Vx, Wx], {}]

/-- `group_0f_73` -/
def group0f73 : List Entry :=
  [{}, {}, {}, {}, {}, {}, {}, {},
   {}, {}, {}, ins "psrldq" [Ux, Ib], {}, {}, {}, {},
   {}, {}, {}, {}, {}, {}, {}, {},
   {}, {}, {}, {}, {}, {}, {}, {}]

/-- `group_0f_7e` -/
def group0f7e : List Entry :=
  [{}, ins "movd/q" [Ey, Vq], {}, {}]

/-- `group_0f_7f` -/
def group0f7f : List Entry :=
  [{}, ins "movdqa" [Wx, Vx], ins "movdqu" [Wx, Vx], {}]

/-- `group15` -/
def group15 : List Entry :=
  [ins "fxsave" [M], ins "fxrstor" [M], ins "ldmxcsr" [Md], ins "stmxcsr" [Md], {}, {}, {}, {},
   {}, {}, {}, {}, {}, {}, ins "mfence" [], {}]

/-- `group8` -/
def group8 : List (Option String) :=
  [none, none, none, none, some "bt", some "bts", some "btr", some "btc"]

/-- `group9` -/
def group9 : List Entry :=
  [{}, ins "cmpxchg16b" [Mdq], {}, {}, {}, {}, {}, {},
   {}, {}, {}, {}, {}, {}, {}, {},
   {}, {}, {}, {}, {}, {}, {}, {},
   {}, {}, {}, {}, {}, {}, {}, {}]

/-- `group_0f_e6` -/
def group0fe6 : List Entry :=
  [{}, {}, ins "cvtdq2pd" [Vx, Wpd], {}]

/-- `group_0f_ef` -/
def group0fef : List Entry :=
  [{}, ins "pxor" [Vx, Wx], {}, {}]

/-! ## The table -/

/-- The instructions with one byte. -/
def instructions : List (ℕ × InstructionInfo) :=
  [(0x00, .normal (ins "add" [Eb, Gb])),
   (0x01, .normal (ins "add" [Ev, Gv])),
   (0x02, .normal (ins "add" [Gb, Eb])),
   (0x03, .normal (ins "add" [Gv, Ev])),
   (0x04, .normal (ins "add" [rAL, Ib])),
   (0x05, .normal (ins "add" [rAXz, Iz])),
   (0x08, .normal (ins "or" [Eb, Gb])),
   (0x09, .normal (ins "or" [Ev, Gv])),
   (0x0a, .normal (ins "or" [Gb, Eb])),
   (0x0b, .normal (ins "or" [Gv, Ev])),
   (0x0c, .normal (ins "or" [rAL, Ib])),
   (0x0d, .normal (ins "or" [rAXz, Iz])),
   (0x10, .normal (ins "adc" [Eb, Gb])),
   (0x11, .normal (ins "adc" [Ev, Gv])),
   (0x12, .normal (ins "adc" [Gb, Eb])),
   (0x13, .normal (ins "adc" [Gv, Ev])),
   (0x14, .normal (ins "adc" [rAL, Ib])),
   (0x15, .normal (ins "adc" [rAXz, Iz])),
   (0x18, .normal (ins "sbb" [Eb, Gb])),
   (0x19, .normal (ins "sbb" [Ev, Gv])),
   (0x1a, .normal (ins "sbb" [Gb, Eb])),
   (0x1b, .normal (ins "sbb" [Gv, Ev])),
   (0x1c, .normal (ins "sbb" [rAL, Ib])),
   (0x1d, .normal (ins "sbb" [rAXz, Iz])),
   (0x20, .normal (ins "and" [Eb, Gb])),
   (0x21, .normal (ins "and" [Ev, Gv])),
   (0x22, .normal (ins "and" [Gb, Eb])),
   (0x23, .normal (ins "and" [Gv, Ev])),
   (0x24, .normal (ins "and" [rAL, Ib])),
   (0x25, .normal (ins "and" [rAXz, Iz])),
   (0x28, .normal (ins "sub" [Eb, Gb])),
   (0x29, .normal (ins "sub" [Ev, Gv])),
   (0x2a, .normal (ins "sub" [Gb, Eb])),
   (0x2b, .normal (ins "sub" [Gv, Ev])),
   (0x2c, .normal (ins "sub" [rAL, Ib])),
   (0x2d, .normal (ins "sub" [rAXz, Iz])),
   (0x30, .normal (ins "xor" [Eb, Gb])),
   (0x31, .normal (ins "xor" [Ev, Gv])),
   (0x32, .normal (ins "xor" [Gb, Eb])),
   (0x33, .normal (ins "xor" [Gv, Ev])),
   (0x34, .normal (ins "xor" [rAL, Ib])),
   (0x35, .normal (ins "xor" [rAXz, Iz])),
   (0x38, .normal (ins "cmp" [Eb, Gb])),
   (0x39, .normal (ins "cmp" [Ev, Gv])),
   (0x3a, .normal (ins "cmp" [Gb, Eb])),
   (0x3b, .normal (ins "cmp" [Gv, Ev])),
   (0x3c, .normal (ins "cmp" [rAL, Ib])),
   (0x3d, .normal (ins "cmp" [rAXz, Iz])),
   (0x50, .normal (ins "push" [R64])),
   (0x51, .normal (ins "push" [R64])),
   (0x52, .normal (ins "push" [R64])),
   (0x53, .normal (ins "push" [R64])),
   (0x54, .normal (ins "push" [R64])),
   (0x55, .normal (ins "push" [R64])),
   (0x56, .normal (ins "push" [R64])),
   (0x57, .normal (ins "push" [R64])),
   (0x58, .normal (ins "pop" [R64])),
   (0x59, .normal (ins "pop" [R64])),
   (0x5a, .normal (ins "pop" [R64])),
   (0x5b, .normal (ins "pop" [R64])),
   (0x5c, .normal (ins "pop" [R64])),
   (0x5d, .normal (ins "pop" [R64])),
   (0x5e, .normal (ins "pop" [R64])),
   (0x5f, .normal (ins "pop" [R64])),
   (0x63, .normal (ins "movsxd" [Gv, Ez])),
   (0x69, .normal (ins "imul" [Gv, Ev, Iz])),
   (0x6b, .normal (ins "imul" [Gv, Ev, Ib])),
   (0x6d, .normal (ins "ins" [])),
   (0x6f, .normal (ins "outs" [])),
   (0x70, .normal (ins "jo" [Jb])),
   (0x71, .normal (ins "jno" [Jb])),
   (0x72, .normal (ins "jb" [Jb])),
   (0x73, .normal (ins "jae" [Jb])),
   (0x74, .normal (ins "je" [Jb])),
   (0x75, .normal (ins "jne" [Jb])),
   (0x76, .normal (ins "jbe" [Jb])),
   (0x77, .normal (ins "ja" [Jb])),
   (0x78, .normal (ins "js" [Jb])),
   (0x79, .normal (ins "jns" [Jb])),
   (0x7c, .normal (ins "jl" [Jb])),
   (0x7d, .normal (ins "jge" [Jb])),
   (0x7e, .normal (ins "jle" [Jb])),
   (0x7f, .normal (ins "jg" [Jb])),
   (0x80, .groupNames group1 [Eb, Ib]),
   (0x81, .groupNames group1 [Ev, Iz]),
   (0x83, .groupNames group1 [Ev, Ib]),
   (0x84, .normal (ins "test" [Eb, Gb])),
   (0x85, .normal (ins "test" [Ev, Gv])),
   (0x86, .normal (ins "xchg" [Eb, Gb])),
   (0x87, .normal (ins "xchg" [Ev, Gv])),
   (0x88, .normal (ins "mov" [Eb, Gb])),
   (0x89, .normal (ins "mov" [Ev, Gv])),
   (0x8a, .normal (ins "mov" [Gb, Eb])),
   (0x8b, .normal (ins "mov" [Gv, Ev])),
   (0x8c, .normal (ins "mov" [Ev, Sw])),
   (0x8d, .normal (ins "lea" [Gv, M])),
   (0x8e, .normal (ins "mov" [Sw, Ew])),
   (0x8f, .normal ⟨some "pop", f64, [Ev]⟩),
   (0x90, .group group90 prefixGroup),
   (0x91, .normal (ins "xchg" [R64v, rAXz])),
   (0x92, .normal (ins "xchg" [R64v, rAXz])),
   (0x93, .normal (ins "xchg" [R64v, rAXz])),
   (0x94, .normal (ins "xchg" [R64v, rAXz])),
   (0x95, .normal (ins "xchg" [R64v, rAXz])),
   (0x96, .normal (ins "xchg" [R64v, rAXz])),
   (0x97, .normal (ins "xchg" [R64v, rAXz])),
   (0x98, .normal (ins "cdqe" [])),
   (0x99, .normal (ins "cdq" [])),
   (0x9c, .normal ⟨some "pushfq", d64, []⟩),
   (0x9d, .normal ⟨some "popfq", d64, []⟩),
   (0xa1, .normal (ins "mov" [rAXz, Ov])),
   (0xa2, .normal (ins "mov" [Ob, rAL])),
   (0xa4, .normal (ins "movsb" [])),
   (0xa5, .normal (ins "stos" [])),
   (0xa6, .normal (ins "cmpsb" [])),
   (0xa8, .normal (ins "test" [rAL, Ib])),
   (0xa9, .normal (ins "test" [rAXz, Iz])),
   (0xaa, .normal (ins "stosb" [])),
   (0xab, .normal (ins "stos" [])),
   (0xae, .normal (ins "scasb" [])),
   (0xaf, .normal (ins "scas" [])),
   (0xb0, .normal (ins "mov" [R8, Ib])),
   (0xb1, .normal (ins "mov" [R8, Ib])),
   (0xb2, .normal (ins "mov" [R8, Ib])),
   (0xb3, .normal (ins "mov" [R8, Ib])),
   (0xb4, .normal (ins "mov" [R8, Ib])),
   (0xb5, .normal (ins "mov" [R8, Ib])),
   (0xb6, .normal (ins "mov" [R8, Ib])),
   (0xb7, .normal (ins "mov" [R8, Ib])),
   (0xb8, .normal (ins "mov" [R64v, Iv])),
   (0xb9, .normal (ins "mov" [R64v, Iv])),
   (0xba, .normal (ins "mov" [R64v, Iv])),
   (0xbb, .normal (ins "mov" [R64v, Iv])),
   (0xbc, .normal (ins "mov" [R64v, Iv])),
   (0xbd, .normal (ins "mov" [R64v, Iv])),
   (0xbe, .normal (ins "mov" [R64v, Iv])),
   (0xbf, .normal (ins "mov" [R64v, Iv])),
   (0xc0, .groupNames group2 [Eb, Iub]),
   (0xc1, .groupNames group2 [Ev, Iub]),
   (0xc2, .normal (ins "ret" [Iw])),
   (0xc3, .normal (ins "ret" [])),
   (0xc6, .normal (ins "mov" [Eb, Ib])),
   (0xc7, .normal (ins "mov" [Ev, Iz])),
   (0xc8, .normal (ins "enter" [Iw, Ib])),
   (0xcc, .normal (ins "int3" [])),
   (0xcd, .normal (ins "int" [Ib])),
   (0xcf, .normal (ins "iretq" [])),
   (0xd0, .groupNames group2 [Eb, const1]),
   (0xd1, .groupNames group2 [Ev, const1]),
   (0xd2, .groupNames group2 [Eb, rCL]),
   (0xd3, .groupNames group2 [Ev, rCL]),
   (0xe4, .normal (ins "in" [rAL, Ib])),
   (0xe8, .normal (ins "call" [Jz])),
   (0xe9, .normal (ins "jmp" [Jz])),
   (0xeb, .normal (ins "jmp" [Jb])),
   (0xec, .normal (ins "in" [rAL, rDX])),
   (0xed, .normal (ins "in" [rAXz, rDX])),
   (0xee, .normal (ins "out" [rDX, rAL])),
   (0xef, .normal (ins "out" [rDX, rAXz])),
   (0xf4, .normal (ins "hlt" [])),
   (0xf6, .group group3b regGroup),
   (0xf7, .group group3z regGroup),
   (0xfa, .normal (ins "cli" [])),
   (0xfb, .normal (ins "sti" [])),
   (0xfc, .normal (ins "cld" [])),
   (0xfd, .normal (ins "std" [])),
   (0xfe, .group group4 regGroup),
   (0xff, .group group5 regGroup)]

/-- Those with two bytes, the first of which is `0x0f`. -/
def ins0f : List (ℕ × InstructionInfo) :=
  [(0x00, .group group6 regGroup),
   (0x01, .group group7 (regGroup ||| memGroup)),
   (0x05, .normal (ins "syscall" [])),
   (0x07, .normal (ins "sysret" [])),
   (0x0d, .normal (ins "prefetchw" [Eb])),
   (0x10, .group group0f10 prefixGroup),
   (0x11, .group group0f11 prefixGroup),
   (0x18, .group group16 regGroup),
   (0x1f, .normal (ins "nop" [Ev])),
   (0x20, .normal (ins "mov" [Rd, Cd])),
   (0x22, .normal (ins "mov" [Cd, Rd])),
   (0x23, .normal (ins "mov" [Dd, Rd])),
   (0x28, .normal (ins "movaps" [Vps, Wps])),
   (0x29, .group group0f29 prefixGroup),
   (0x2a, .group group0f2a prefixGroup),
   (0x2c, .group group0f2c prefixGroup),
   (0x2f, .group group0f2f prefixGroup),
   (0x30, .normal (ins "wrmsr" [])),
   (0x31, .normal (ins "rdtsc" [])),
   (0x32, .normal (ins "rdmsr" [])),
   (0x33, .normal (ins "rdpmc" [])),
   (0x34, .normal (ins "sysenter" [])),
   (0x35, .normal (ins "sysexit" [])),
   (0x40, .normal (ins "cmovo" [Gv, Ev])),
   (0x41, .normal (ins "cmovno" [Gv, Ev])),
   (0x42, .normal (ins "cmovb" [Gv, Ev])),
   (0x43, .normal (ins "cmovae" [Gv, Ev])),
   (0x44, .normal (ins "cmove" [Gv, Ev])),
   (0x45, .normal (ins "cmovne" [Gv, Ev])),
   (0x46, .normal (ins "cmovbe" [Gv, Ev])),
   (0x47, .normal (ins "cmova" [Gv, Ev])),
   (0x48, .normal (ins "cmovs" [Gv, Ev])),
   (0x49, .normal (ins "cmovns" [Gv, Ev])),
   (0x4c, .normal (ins "cmovl" [Gv, Ev])),
   (0x4d, .normal (ins "cmovge" [Gv, Ev])),
   (0x4e, .normal (ins "cmovle" [Gv, Ev])),
   (0x4f, .normal (ins "cmovg" [Gv, Ev])),
   (0x54, .group group0f54 prefixGroup),
   (0x57, .group group0f57 prefixGroup),
   (0x58, .group group0f58 prefixGroup),
   (0x59, .group group0f59 prefixGroup),
   (0x5a, .group group0f5a prefixGroup),
   (0x5b, .group group0f5b prefixGroup),
   (0x5c, .group group0f5c prefixGroup),
   (0x5e, .group group0f5e prefixGroup),
   (0x6e, .group group0f6e prefixGroup),
   (0x6f, .group group0f6f prefixGroup),
   (0x73, .group group0f73 (regGroup ||| prefixGroup)),
   (0x7e, .group group0f7e prefixGroup),
   (0x7f, .group group0f7f prefixGroup),
   (0x80, .normal (ins "jo" [Jz])),
   (0x81, .normal (ins "jno" [Jz])),
   (0x82, .normal (ins "jb" [Jz])),
   (0x83, .normal (ins "jae" [Jz])),
   (0x84, .normal (ins "je" [Jz])),
   (0x85, .normal (ins "jne" [Jz])),
   (0x86, .normal (ins "jbe" [Jz])),
   (0x87, .normal (ins "ja" [Jz])),
   (0x88, .normal (ins "js" [Jz])),
   (0x89, .normal (ins "jns" [Jz])),
   (0x8c, .normal (ins "jl" [Jz])),
   (0x8d, .normal (ins "jge" [Jz])),
   (0x8e, .normal (ins "jle" [Jz])),
   (0x8f, .normal (ins "jg" [Jz])),
   (0x90, .normal (ins "seto" [Eb])),
   (0x91, .normal (ins "setno" [Eb])),
   (0x92, .normal (ins "setb" [Eb])),
   (0x93, .normal (ins "setae" [Eb])),
   (0x94, .normal (ins "sete" [Eb])),
   (0x95, .normal (ins "setne" [Eb])),
   (0x96, .normal (ins "setbe" [Eb])),
   (0x97, .normal (ins "seta" [Eb])),
   (0x98, .normal (ins "sets" [Eb])),
   (0x99, .normal (ins "setns" [Eb])),
   (0x9c, .normal (ins "setl" [Eb])),
   (0x9d, .normal (ins "setge" [Eb])),
   (0x9e, .normal (ins "setle" [Eb])),
   (0x9f, .normal (ins "setg" [Eb])),
   (0xa2, .normal (ins "cpuid" [])),
   (0xa3, .normal (ins "bt" [Ev, Gv])),
   (0xab, .normal (ins "bts" [Ev, Gv])),
   (0xae, .group group15 (regGroup ||| memGroup)),
   (0xaf, .normal (ins "imul" [Gv, Ev])),
   (0xb0, .normal (ins "cmpxchg" [Eb, Gb])),
   (0xb1, .normal (ins "cmpxchg" [Ev, Gv])),
   (0xb3, .normal (ins "btr" [Ev, Gv])),
   (0xb6, .normal (ins "movzx" [Gv, Eb])),
   (0xb7, .normal (ins "movzx" [Gv, Ew])),
   (0xba, .groupNames group8 [Ev, Ib]),
   (0xbc, .normal (ins "bsf" [Gv, Ev])),
   (0xbd, .normal (ins "bsr" [Gv, Ev])),
   (0xbe, .normal (ins "movsx" [Gv, Eb])),
   (0xbf, .normal (ins "movsx" [Gv, Ew])),
   (0xc0, .normal (ins "xadd" [Eb, Gb])),
   (0xc1, .normal (ins "xadd" [Ev, Gv])),
   (0xc7, .group group9 (regGroup ||| prefixGroup)),
   (0xc8, .normal (ins "bswap" [R64v])),
   (0xc9, .normal (ins "bswap" [R64v])),
   (0xca, .normal (ins "bswap" [R64v])),
   (0xcb, .normal (ins "bswap" [R64v])),
   (0xcc, .normal (ins "bswap" [R64v])),
   (0xcd, .normal (ins "bswap" [R64v])),
   (0xce, .normal (ins "bswap" [R64v])),
   (0xcf, .normal (ins "bswap" [R64v])),
   (0xe6, .group group0fe6 prefixGroup),
   (0xef, .group group0fef prefixGroup)]

/-- The table, in which those with two bytes are behind the others. -/
def table : List (ℕ × InstructionInfo) := instructions ++ ins0f.map (Prod.map (· + 256) id)

/-- An entry of the table. Opcodes that it leaves out have neither a name nor operands. -/
def instruction (n : ℕ) : InstructionInfo := ((table.find? fun p => p.1 = n).map Prod.snd).getD (.normal {})

end Attos.Disasm
