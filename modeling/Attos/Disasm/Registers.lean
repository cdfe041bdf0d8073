import Attos.Disasm.Decode

/-!
# The numbers of registers

The bytes of an instruction have fields for registers, and the last `REX` byte has a bit for each of
them that adds 8 to the number. `Fields` finds these bytes in the code on its own, and `Numbered` is
what the addressing modes say about the operands. The operands of `do_disasm` have these numbers
except in one instruction (`registers_iff`): the rm field of `psrldq`, the only one with the
addressing mode `U`, is extended by the bit for the reg field.
-/

namespace Attos.Disasm

open Lib

/-! ## Fields -/

/-- A `REX` byte. -/
def isRex (b : Byte) : Bool := b &&& 0xf0 = 0x40

/-- The prefixes that `do_disasm` knows. -/
def isPrefix (b : Byte) : Bool := b ∈ [0xf0, 0xf2, 0xf3, 0x2e, 0x65, 0x66] ∨ isRex b

/-- The bytes with fields for registers. -/
structure Fields : Type where
  /-- the last `REX` byte among the prefixes -/
  rex : Byte
  /-- the last byte of the opcode -/
  opcode : Byte
  /-- the byte behind it -/
  modrm : Byte
  /-- and the next one -/
  sib : Byte

/-- The last `REX` byte, or one without bits. -/
def lastRex (prefixes : List Byte) : Byte := (prefixes.filter isRex).getLast?.getD 0

/-- The bytes of an instruction. Bytes that are not there are zero. -/
def fields (code : List Byte) : Fields :=
  let opcode := code.dropWhile isPrefix
  let last := if opcode.head? = some 0x0f then opcode.drop 1 else opcode
  ⟨lastRex (code.takeWhile isPrefix), last.getD 0 0, last.getD 1 0, last.getD 2 0⟩

namespace Fields

variable (f : Fields)

/-- `REX.B` -/
def b : ℕ := f.rex.toNat % 2

/-- `REX.X` -/
def x : ℕ := f.rex.toNat / 2 % 2

/-- `REX.R` -/
def r : ℕ := f.rex.toNat / 4 % 2

/-- the mod field -/
def mod : ℕ := f.modrm.toNat / 64

/-- the reg field -/
def reg : ℕ := f.modrm.toNat / 8 % 8

/-- the rm field -/
def rm : ℕ := f.modrm.toNat % 8

/-- the index field -/
def index : ℕ := f.sib.toNat / 8 % 8

/-- the base field -/
def base : ℕ := f.sib.toNat % 8

/-- the low bits of the opcode -/
def low : ℕ := f.opcode.toNat % 8

end Fields

/-- The operand is the register with this number. -/
def DecodedOperand.IsReg (n : ℕ) (op : DecodedOperand) : Prop := ∃ type reg, op = .reg type reg ∧ reg.toNat = n

/-- The registers of the address have these numbers. A base of 5 and an rm field of 5 are no
registers if there is no displacement. -/
def DecodedOperand.HasAddress (f : Fields) (op : DecodedOperand) : Prop :=
  ∃ m, op = .mem m ∧
    if f.rm = 4 then (¬ (f.mod = 0 ∧ f.base = 5) → m.reg.toNat = f.base + 8 * f.b) ∧ m.reg2.toNat = f.index + 8 * f.x
    else ¬ (f.mod = 0 ∧ f.rm = 5) → m.reg.toNat = f.rm + 8 * f.b

/-- The operand is numbered as the addressing mode says. -/
def Numbered (f : Fields) (o : InstructionOperandInfo) (op : DecodedOperand) : Prop :=
  match o.addrMode with
  | .lowInstructionBits => op.IsReg (f.low + 8 * f.b)
  | .C | .D | .G | .S | .V => op.IsReg (f.reg + 8 * f.r)
  | .R | .U => op.IsReg (f.rm + 8 * f.b)
  | .E | .M | .W => if f.mod = 3 then op.IsReg (f.rm + 8 * f.b) else op.HasAddress f
  | .rax | .rcx | .rdx | .const1 | .I | .J | .O => True

/-- All operands are numbered as their addressing modes say. -/
def RegistersNumbered (code : List Byte) (ins : DecodedInstruction) : Prop :=
  List.Forall₂ (Numbered (fields code)) ins.entry.operands ins.operands

/-- The code is `psrldq`. -/
def Psrldq (code : List Byte) : Prop :=
  0x66 ∈ code.takeWhile isPrefix ∧ [0x0f, 0x73] <+: code.dropWhile isPrefix ∧ (fields code).reg = 3

instance (code : List Byte) : Decidable (Psrldq code) :=
  inferInstanceAs (Decidable (0x66 ∈ code.takeWhile isPrefix ∧ [0x0f, 0x73] <+: code.dropWhile isPrefix ∧
    (fields code).reg = 3))

variable {code code' rest : List Byte} {b : Byte} {f : Fields} {h : Header} {c : Context}

/-! ## Prefixes -/

/-- The flag of a prefix. -/
def prefixFlag (b : Byte) : Unsigned :=
  if b = 0xf0 then lock else if b = 0xf2 then repnz else if b = 0xf3 then rep else if b = 0x2e then cs
  else if b = 0x65 then gs else if b = 0x66 then opsize else b.setWidth 32

theorem prefixFlag_opsize : ∀ b, isPrefix b = true → (prefixFlag b &&& opsize ≠ 0 ↔ b = 0x66) := by decide

/-- One round of the loop. -/
theorem readPrefixes_cons (prefixes : Unsigned) (rex b : Byte) (rest : List Byte) :
    readPrefixes prefixes rex (b :: rest) =
      if isPrefix b then readPrefixes (prefixes ||| prefixFlag b) (if isRex b then b else rex) rest
      else .done (prefixes, rex, b :: rest) := by
  rw [readPrefixes]
  by_cases hmem : b ∈ [0xf0, 0xf2, 0xf3, 0x2e, 0x65, 0x66]
  · simp only [List.mem_cons, List.not_mem_nil, or_false] at hmem
    rcases hmem with rfl | rfl | rfl | rfl | rfl | rfl
    · rfl
    · rfl
    · rfl
    · rfl
    · rfl
    · rfl
  · have hprefix : isPrefix b = isRex b := by
      rw [Bool.eq_iff_iff, isPrefix, decide_eq_true_iff, or_iff_right hmem]
    simp only [List.mem_cons, List.not_mem_nil, or_false, not_or] at hmem
    obtain ⟨h₁, h₂, h₃, h₄, h₅, h₆⟩ := hmem
    rw [prefixFlag, hprefix, if_neg h₁, if_neg h₂, if_neg h₃, if_neg h₄, if_neg h₅, if_neg h₆, if_neg h₁, if_neg h₂,
      if_neg h₃, if_neg h₄, if_neg h₅, if_neg h₆, isRex]
    by_cases hrex : b &&& 0xf0 = 0x40
    · rw [if_pos hrex, if_pos (decide_eq_true hrex), if_pos (decide_eq_true hrex)]
    · rw [if_neg hrex, decide_eq_false hrex, if_neg Bool.false_ne_true]

theorem and_opsize_or {p q : Unsigned} : (p ||| q) &&& opsize ≠ 0 ↔ p &&& opsize ≠ 0 ∨ q &&& opsize ≠ 0 := by
  rw [BitVec.and_or_distrib_right]
  exact (not_congr BitVec.or_eq_zero_iff).trans not_and_or

/-- **The loop stops at the opcode**, and has found the last `REX` byte. -/
theorem readPrefixes_eq_done {prefixes prefixes' : Unsigned} {rex rex' : Byte}
    (h : readPrefixes prefixes rex code = .done (prefixes', rex', rest)) :
    rest = code.dropWhile isPrefix ∧ rex' = ((code.takeWhile isPrefix).filter isRex).getLast?.getD rex ∧
      (prefixes' &&& opsize ≠ 0 ↔ prefixes &&& opsize ≠ 0 ∨ 0x66 ∈ code.takeWhile isPrefix) := by
  induction code generalizing prefixes rex with
  | nil =>
    rw [readPrefixes] at h
    cases h
  | cons b code ih =>
    rw [readPrefixes_cons] at h
    split_ifs at h with hprefix hrex
    · obtain ⟨hrest, hlast, hopsize⟩ := ih h
      rw [List.takeWhile_cons_of_pos hprefix, List.dropWhile_cons_of_pos hprefix, List.filter_cons_of_pos hrex,
        List.getLast?_cons]
      refine ⟨hrest, hlast, ?_⟩
      rw [hopsize, and_opsize_or, prefixFlag_opsize b hprefix, List.mem_cons, or_assoc, eq_comm (a := b)]
    · obtain ⟨hrest, hlast, hopsize⟩ := ih h
      rw [List.takeWhile_cons_of_pos hprefix, List.dropWhile_cons_of_pos hprefix, List.filter_cons_of_neg hrex]
      refine ⟨hrest, hlast, ?_⟩
      rw [hopsize, and_opsize_or, prefixFlag_opsize b hprefix, List.mem_cons, or_assoc, eq_comm (a := b)]
    · cases h
      rw [List.takeWhile_cons_of_neg hprefix, List.dropWhile_cons_of_neg hprefix]
      exact ⟨rfl, rfl, ⟨Or.inl, fun h => h.resolve_right List.not_mem_nil⟩⟩

/-! ## The opcode -/

theorem getU8_eq_done : getU8 code = .done (b, rest) ↔ code = b :: rest := by
  constructor
  · intro h
    cases code with
    | nil => cases h
    | cons a code =>
      cases h
      rfl
  · rintro rfl
    rfl

/-- The opcode is what is behind the prefixes. -/
theorem readOpcode_eq_done {index : ℕ} {instructionByte : Byte}
    (h : readOpcode code = .done (index, instructionByte, rest)) :
    (code = 0x0f :: instructionByte :: rest ∧ index = instructionByte.toNat + 256) ∨
      (code = instructionByte :: rest ∧ instructionByte ≠ 0x0f ∧ index = instructionByte.toNat) := by
  obtain ⟨⟨b, code'⟩, hbyte, h⟩ := Outcome.bind_eq_done.mp h
  rw [getU8_eq_done] at hbyte
  dsimp only at h
  split_ifs at h with htwo
  · obtain ⟨⟨b', code''⟩, hbyte', h⟩ := Outcome.bind_eq_done.mp h
    rw [getU8_eq_done] at hbyte'
    cases h
    exact .inl ⟨by rw [hbyte, hbyte', htwo], rfl⟩
  · cases h
    exact .inr ⟨hbyte, htwo, rfl⟩

/-- The fields behind the prefixes. -/
theorem fields_of_opcode {index : ℕ} {instructionByte : Byte}
    (h : readOpcode (code.dropWhile isPrefix) = .done (index, instructionByte, rest)) :
    fields code = ⟨lastRex (code.takeWhile isPrefix), instructionByte, rest.getD 0 0, rest.getD 1 0⟩ ∧
      (index = 0x73 + 256 ↔ [0x0f, 0x73] <+: code.dropWhile isPrefix) := by
  rw [fields]
  obtain ⟨hcode, hindex⟩ | ⟨hcode, hne, hindex⟩ := readOpcode_eq_done h
  · rw [hcode]
    refine ⟨rfl, ?_⟩
    rw [List.cons_prefix_cons, List.cons_prefix_cons, hindex, Nat.add_right_cancel_iff, eq_comm]
    exact ⟨fun h => ⟨rfl, BitVec.eq_of_toNat_eq h, List.nil_prefix⟩, fun h => congrArg BitVec.toNat h.2.1⟩
  · rw [hcode]
    have hhead : ¬ (instructionByte :: rest).head? = some 0x0f := fun h => hne (Option.some.inj h)
    refine ⟨?_, ?_⟩
    · rw [if_neg hhead]
      rfl
    · have hlt := instructionByte.isLt
      rw [List.cons_prefix_cons, hindex]
      exact ⟨fun h => by omega, fun h => absurd h.1.symm hne⟩

/-! ## The table -/

/-- The operands are in an address, and further bytes may follow. -/
def AddressingMode.Address (m : AddressingMode) : Prop := m ∈ [E, M, W]

/-- The code is read further. -/
def AddressingMode.ReadsCode (m : AddressingMode) : Prop := m ∈ [E, M, W, I, J, O]

/-- The operand depends on the byte with `mod`, `reg` and `rm`. -/
def AddressingMode.UsesModrm (m : AddressingMode) : Prop := m ∈ [C, D, E, G, M, R, S, V, W]

instance (m : AddressingMode) : Decidable m.Address := inferInstanceAs (Decidable (m ∈ _))

instance (m : AddressingMode) : Decidable m.ReadsCode := inferInstanceAs (Decidable (m ∈ _))

instance (m : AddressingMode) : Decidable m.UsesModrm := inferInstanceAs (Decidable (m ∈ _))

/-- The operands of all instructions of an opcode. -/
def InstructionInfo.allOperands : InstructionInfo → List (List InstructionOperandInfo)
  | .normal entry => [entry.operands]
  | .groupNames _ operands => [operands]
  | .group entries _ => entries.map Entry.operands

/-- The code has not been read further when an address is decoded. -/
def InOrder (os : List InstructionOperandInfo) : Prop :=
  os.Pairwise fun o o' => o.addrMode.ReadsCode → ¬ o'.addrMode.Address

instance : DecidablePred InOrder := fun os => inferInstanceAs (Decidable (os.Pairwise _))

theorem table_inOrder : ∀ p ∈ table, ∀ os ∈ p.2.allOperands, InOrder os := by decide +kernel

/-- One opcode only has instructions with the addressing mode `U`. -/
theorem table_U : ∀ p ∈ table, ∀ os ∈ p.2.allOperands, ∀ o ∈ os, o.addrMode = .U → p.1 = 0x73 + 256 := by
  decide +kernel

theorem entry_operands (info : InstructionInfo) (n : Option ℕ) :
    (info.entry n).operands ∈ info.allOperands ∨ (info.entry n).operands = [] := by
  cases info with
  | normal entry => exact .inl List.mem_cons_self
  | groupNames names operands => exact .inl List.mem_cons_self
  | group entries flags =>
    rw [InstructionInfo.entry, List.getD_eq_getElem?_getD]
    cases hget : entries[n.getD 0]? with
    | none => exact .inr rfl
    | some e => exact .inl (List.mem_map_of_mem (List.mem_of_getElem? hget))

/-- What the table says about an instruction. -/
theorem entry_spec (index : ℕ) (n : Option ℕ) : InOrder ((instruction index).entry n).operands ∧
    (index ≠ 0x73 + 256 → ∀ o ∈ ((instruction index).entry n).operands, o.addrMode ≠ .U) := by
  obtain hmem | hnil := entry_operands (instruction index) n
  · rw [instruction] at hmem ⊢
    cases hfind : table.find? fun p => p.1 = index with
    | none =>
      rw [hfind] at hmem
      exact ⟨.nil, fun _ o ho => absurd ho List.not_mem_nil⟩
    | some p =>
      rw [hfind] at hmem
      have hsome := List.find?_some hfind
      have hindex : p.1 = index := of_decide_eq_true hsome
      have hp := List.mem_of_find?_eq_some hfind
      exact ⟨table_inOrder p hp _ hmem, fun hne o ho hU => hne (hindex ▸ table_U p hp _ hmem o ho hU)⟩
  · rw [hnil]
    exact ⟨.nil, fun _ o ho => absurd ho List.not_mem_nil⟩

/-! ## The header -/

theorem hasModrm_cons (o : InstructionOperandInfo) (os : List InstructionOperandInfo) : hasModrm (o :: os) =
    if o.addrMode.UsesModrm then .done true else if o.addrMode = .U then .abort else hasModrm os := by
  rw [hasModrm]
  cases o.addrMode <;> rfl

theorem hasModrm_eq_false {os : List InstructionOperandInfo} (h : hasModrm os = .done false) :
    ∀ o ∈ os, ¬ o.addrMode.UsesModrm := by
  induction os with
  | nil => exact fun o ho => absurd ho List.not_mem_nil
  | cons o os ih =>
    rw [hasModrm_cons] at h
    split_ifs at h with hmodrm hU
    · cases h
    · exact List.forall_mem_cons.mpr ⟨hmodrm, ih h⟩

/-- What the header has to do with the fields. -/
structure Reads (h : Header) (f : Fields) (rest : List Byte) : Prop where
  /-- the last `REX` byte -/
  rex : h.rex = f.rex
  /-- the opcode -/
  instructionByte : h.instructionByte = f.opcode
  /-- the byte behind the opcode has been read, or is not used -/
  modrm : (h.modrm = f.modrm ∧ rest.getD 0 0 = f.sib) ∨ ∀ o ∈ h.entry.operands, ¬ o.addrMode.UsesModrm

/-- The header of an opcode with `psrldq`. -/
structure ReadsPsrldq (h : Header) (f : Fields) (opsizeFirst : Prop) : Prop where
  /-- the byte behind the opcode has been read -/
  modrm : h.modrm = f.modrm
  /-- the number in the group -/
  group : ∃ n < 4, h.group = some (f.reg + n * 8) ∧ (n = 1 ↔ opsizeFirst)

theorem toNat_modrmReg : ∀ modrm, (modrmReg modrm).toNat = modrm.toNat / 8 % 8 := by decide

theorem toNat_modrmRm : ∀ modrm, (modrmRm modrm).toNat = modrm.toNat % 8 := by decide

theorem toNat_modrmMod : ∀ modrm, (modrmMod modrm).toNat = modrm.toNat / 64 := by decide

/-- The first group is the one of the operand-size prefix. -/
theorem getPrefixGroup_eq_done {groupFlags prefixes prefixes' used : Unsigned} {n : ℕ}
    (h : getPrefixGroup groupFlags prefixes = .done (n, prefixes', used)) : n < 4 ∧ (n = 1 ↔ prefixes &&& opsize ≠ 0) := by
  obtain ⟨-, h⟩ := Outcome.require_bind_eq_done.mp h
  split_ifs at h with hopsize hrep hrepnz
  · cases h
    exact ⟨by decide, iff_of_true rfl hopsize⟩
  · cases h
    exact ⟨by decide, iff_of_false (by decide) hopsize⟩
  · cases h
    exact ⟨by decide, iff_of_false (by decide) hopsize⟩
  · cases h
    exact ⟨by decide, iff_of_false (by decide) hopsize⟩

theorem instruction_psrldq : instruction (0x73 + 256) = .group group0f73 (regGroup ||| prefixGroup) := rfl

/-- The number in the group of `psrldq`. -/
theorem readGroup_psrldq {index : ℕ} {modrm : Byte} {prefixes prefixes' used : Unsigned} {group : Option ℕ}
    (h : readGroup index (.group group0f73 (regGroup ||| prefixGroup)) modrm prefixes = .done (group, prefixes', used)) :
    ∃ n < 4, group = some (modrm.toNat / 8 % 8 + n * 8) ∧ (n = 1 ↔ prefixes &&& opsize ≠ 0) := by
  obtain ⟨⟨k, prefixes₁, used₁⟩, hselect, h⟩ := Outcome.bind_eq_done.mp h
  cases h
  have hflags : (regGroup ||| prefixGroup) &&& (prefixGroup ||| regGroup ||| memGroup) = regGroup ||| prefixGroup := by
    decide
  rw [selectGroup, InstructionInfo.flags, hflags, if_neg (by decide), if_neg (by decide), if_pos rfl] at hselect
  obtain ⟨-, hselect⟩ := Outcome.require_bind_eq_done.mp hselect
  obtain ⟨-, hselect⟩ := Outcome.require_bind_eq_done.mp hselect
  obtain ⟨⟨n, prefixes₂, used₂⟩, hn, hselect⟩ := Outcome.bind_eq_done.mp hselect
  cases hselect
  obtain ⟨hlt, hiff⟩ := getPrefixGroup_eq_done hn
  refine ⟨n, hlt, ?_, hiff⟩
  rw [toNat_modrmReg]

theorem fetchModrm_true {modrm modrm' : Byte} (h : fetchModrm true modrm code = .done (modrm', rest)) :
    code = modrm' :: rest := by
  rw [fetchModrm, if_pos rfl, getU8_eq_done] at h
  exact h

theorem fetchModrm_false {modrm modrm' : Byte} (h : fetchModrm false modrm code = .done (modrm', rest)) :
    modrm = modrm' ∧ code = rest := Prod.mk.inj (Outcome.done.inj h)

/-- **What `do_disasm` reads in front of the operands.** -/
theorem readHeader_eq_done (hdone : readHeader code = .done (h, rest)) :
    Reads h (fields code) rest ∧ (h.index = 0x73 + 256 ↔ [0x0f, 0x73] <+: code.dropWhile isPrefix) ∧
      (h.index = 0x73 + 256 → ReadsPsrldq h (fields code) (0x66 ∈ code.takeWhile isPrefix)) := by
  obtain ⟨⟨prefixes, rex, code₁⟩, hprefixes, hdone⟩ := Outcome.bind_eq_done.mp hdone
  obtain ⟨rfl, hrex, hopsize⟩ := readPrefixes_eq_done hprefixes
  obtain ⟨⟨index, instructionByte, code₂⟩, hopcode, hdone⟩ := Outcome.bind_eq_done.mp hdone
  obtain ⟨hfields, hindex⟩ := fields_of_opcode hopcode
  obtain ⟨fetched, hfetched, hdone⟩ := Outcome.bind_eq_done.mp hdone
  obtain ⟨⟨modrm, code₃⟩, hmodrm, hdone⟩ := Outcome.bind_eq_done.mp hdone
  obtain ⟨⟨group, prefixes', used⟩, hgroup, hdone⟩ := Outcome.bind_eq_done.mp hdone
  obtain ⟨fetchedLater, hlater, hdone⟩ := Outcome.bind_eq_done.mp hdone
  obtain ⟨⟨modrm', code₄⟩, hmodrm', hdone⟩ := Outcome.bind_eq_done.mp hdone
  cases hdone
  rw [hfields]
  cases fetched with
  | true =>
    obtain rfl := fetchModrm_true hmodrm
    obtain rfl : false = fetchedLater := Outcome.done.inj hlater
    obtain ⟨rfl, rfl⟩ := fetchModrm_false hmodrm'
    refine ⟨⟨hrex, rfl, .inl ⟨rfl, rfl⟩⟩, hindex, fun hpsrldq => ⟨rfl, ?_⟩⟩
    obtain rfl : index = 0x73 + 256 := hpsrldq
    rw [instruction_psrldq] at hgroup
    obtain ⟨n, hlt, hn, hiff⟩ := readGroup_psrldq hgroup
    refine ⟨n, hlt, hn, hiff.trans (hopsize.trans ?_)⟩
    exact or_iff_right fun h => h (by decide)
  | false =>
    obtain ⟨rfl, rfl⟩ := fetchModrm_false hmodrm
    refine ⟨⟨hrex, rfl, ?_⟩, hindex, fun hpsrldq => ?_⟩
    · cases fetchedLater with
      | true =>
        obtain rfl := fetchModrm_true hmodrm'
        exact .inl ⟨rfl, rfl⟩
      | false => exact .inr (hasModrm_eq_false hlater)
    · -- the group of `psrldq` is selected by the byte behind the opcode
      obtain rfl : index = 0x73 + 256 := hpsrldq
      cases hfetched

/-! ## The operands -/

/-- The context of the operands has to do with the fields. -/
structure Context.Reads (c : Context) (f : Fields) : Prop where
  /-- `REX.B` adds 8 -/
  extB : (c.ext rexB).toNat = 8 * f.b
  /-- `REX.X` adds 8 -/
  extX : (c.ext rexX).toNat = 8 * f.x
  /-- `REX.R` adds 8 -/
  extR : (c.ext rexR).toNat = 8 * f.r
  /-- the opcode -/
  instructionByte : c.instructionByte = f.opcode

theorem toNat_ext : ∀ rex : Byte, (if rex &&& rexB ≠ 0 then (8 : Byte) else 0).toNat = 8 * (rex.toNat % 2) ∧
    (if rex &&& rexX ≠ 0 then (8 : Byte) else 0).toNat = 8 * (rex.toNat / 2 % 2) ∧
    (if rex &&& rexR ≠ 0 then (8 : Byte) else 0).toNat = 8 * (rex.toNat / 4 % 2) := by decide

/-- Where the operand size is forced, the register numbers stay as they are. -/
theorem toNat_or_rexW : ∀ rex : Byte, (rex ||| rexW).toNat % 2 = rex.toNat % 2 ∧
    (rex ||| rexW).toNat / 2 % 2 = rex.toNat / 2 % 2 ∧ (rex ||| rexW).toNat / 4 % 2 = rex.toNat / 4 % 2 := by
  decide

theorem Reads.context (hr : Reads h f rest) : h.context.Reads f := by
  have hbits : h.context.rex.toNat % 2 = f.b ∧ h.context.rex.toNat / 2 % 2 = f.x ∧
      h.context.rex.toNat / 4 % 2 = f.r := by
    rw [Header.context, hr.rex]
    dsimp only
    split_ifs
    · exact toNat_or_rexW f.rex
    · exact ⟨rfl, rfl, rfl⟩
  obtain ⟨hb, hx, hr'⟩ := toNat_ext h.context.rex
  rw [hbits.1] at hb
  rw [hbits.2.1] at hx
  rw [hbits.2.2] at hr'
  exact ⟨hb, hx, hr', hr.instructionByte⟩

/-- A field of three bits and a bit of `REX` are the number. -/
theorem toNat_add_ext {field : Byte} {n bit : ℕ} {mask : Byte} (hfield : field.toNat = n) (hn : n < 8)
    (hext : (c.ext mask).toNat = 8 * bit) (hbit : bit < 2) : (field + c.ext mask).toNat = n + 8 * bit := by
  rw [BitVec.toNat_add, hfield, hext]
  omega

theorem Fields.b_lt : f.b < 2 := Nat.mod_lt _ (by decide)

theorem Fields.x_lt : f.x < 2 := Nat.mod_lt _ (by decide)

theorem Fields.r_lt : f.r < 2 := Nat.mod_lt _ (by decide)

namespace Context

variable {op : DecodedOperand} {used : Unsigned} {type : OperandType} {o : InstructionOperandInfo}

/-- A register in the reg field. -/
theorem Reads.reg (hc : c.Reads f) (hmodrm : c.modrm = f.modrm) :
    (modrmReg c.modrm + c.ext rexR).toNat = f.reg + 8 * f.r := by
  apply toNat_add_ext _ (Nat.mod_lt _ (by decide)) hc.extR Fields.r_lt
  rw [toNat_modrmReg, hmodrm]

/-- A register in the rm field. -/
theorem Reads.rm (hc : c.Reads f) (hmodrm : c.modrm = f.modrm) :
    (modrmRm c.modrm + c.ext rexB).toNat = f.rm + 8 * f.b := by
  apply toNat_add_ext _ (Nat.mod_lt _ (by decide)) hc.extB Fields.b_lt
  rw [toNat_modrmRm, hmodrm]

theorem toNat_and_seven : ∀ b : Byte, (b &&& 7).toNat = b.toNat % 8 := by decide

/-- `do_reg` keeps the number. -/
theorem doReg_eq_done {reg : Byte} (h : c.doReg type reg = .done op) : op.IsReg reg.toNat := by
  rw [doReg.eq_def] at h
  cases type <;> cases h <;> exact ⟨_, _, rfl, rfl⟩

theorem lowInstructionBits_eq_done (hc : c.Reads f) (h : c.lowInstructionBits type = .done (op, used)) :
    op.IsReg (f.low + 8 * f.b) := by
  have hreg : ((c.instructionByte &&& 7) + c.ext rexB).toNat = f.low + 8 * f.b := by
    apply toNat_add_ext _ (Nat.mod_lt _ (by decide)) hc.extB Fields.b_lt
    rw [toNat_and_seven, hc.instructionByte]
  rw [lowInstructionBits.eq_def] at h
  cases type with
  | q =>
    cases h
    exact ⟨_, _, rfl, hreg⟩
  | v =>
    dsimp only at h
    split_ifs at h
    · cases h
      exact ⟨_, _, rfl, hreg⟩
    · cases h
      exact ⟨_, _, rfl, hreg⟩
    · cases h
      exact ⟨_, _, rfl, hreg⟩
  | b =>
    cases h
    exact ⟨_, _, rfl, hreg⟩
  | w =>
    cases h
    exact ⟨_, _, rfl, hreg⟩
  | _ => cases h

theorem rmRegister_eq_done (hc : c.Reads f) (hmodrm : c.modrm = f.modrm) (h : c.rmRegister type = .done (op, used)) :
    op.IsReg (f.rm + 8 * f.b) := by
  have hreg := hc.rm hmodrm
  rw [rmRegister] at h
  split_ifs at h
  · obtain ⟨-, h⟩ := Outcome.require_bind_eq_done.mp h
    cases h
    exact ⟨_, _, rfl, hreg⟩
  · cases h
    exact ⟨_, _, rfl, hreg⟩
  · obtain ⟨op', hop, h⟩ := Outcome.bind_eq_done.mp h
    cases h
    exact hreg ▸ doReg_eq_done hop

theorem generalRegister_eq_done (hc : c.Reads f) (hmodrm : c.modrm = f.modrm)
    (h : c.generalRegister type = .done (op, used)) : op.IsReg (f.reg + 8 * f.r) := by
  have hreg := hc.reg hmodrm
  rw [generalRegister] at h
  split_ifs at h
  · cases h
    exact ⟨_, _, rfl, hreg⟩
  · obtain ⟨op', hop, h⟩ := Outcome.bind_eq_done.mp h
    cases h
    exact hreg ▸ doReg_eq_done hop

/-- Without `REX.R` the reg field is the number. -/
theorem Reads.reg_of_not (hc : c.Reads f) (hmodrm : c.modrm = f.modrm) (h : ¬ c.Rex rexR) :
    (modrmReg c.modrm).toNat = f.reg + 8 * f.r := by
  have hext := hc.reg hmodrm
  rw [ext, if_neg h] at hext
  rw [← hext, BitVec.ofNat_eq_ofNat, BitVec.add_zero]

theorem modrmMod_eq_iff (hmodrm : c.modrm = f.modrm) {n : ℕ} (hn : n < 256) :
    modrmMod c.modrm = BitVec.ofNat 8 n ↔ f.mod = n := by
  rw [← BitVec.toNat_inj, toNat_modrmMod, hmodrm, BitVec.toNat_ofNat, Nat.mod_eq_of_lt hn]
  rfl

theorem modrmRm_eq_iff (hmodrm : c.modrm = f.modrm) {n : ℕ} (hn : n < 256) :
    modrmRm c.modrm = BitVec.ofNat 8 n ↔ f.rm = n := by
  rw [← BitVec.toNat_inj, toNat_modrmRm, hmodrm, BitVec.toNat_ofNat, Nat.mod_eq_of_lt hn]
  rfl

theorem toNat_index : ∀ sib : Byte, ((sib >>> 3) &&& 7).toNat = sib.toNat / 8 % 8 := by decide

/-- **The registers of an address** have the numbers of the fields. -/
theorem addressRegisters_eq_done (hc : c.Reads f) (hmodrm : c.modrm = f.modrm) (hsib : code.getD 0 0 = f.sib)
    {reg reg2 reg2scale : Byte} (h : c.addressRegisters code = .done (reg, reg2, reg2scale, used, rest)) :
    if f.rm = 4 then (¬ (f.mod = 0 ∧ f.base = 5) → reg.toNat = f.base + 8 * f.b) ∧ reg2.toNat = f.index + 8 * f.x
    else ¬ (f.mod = 0 ∧ f.rm = 5) → reg.toNat = f.rm + 8 * f.b := by
  have hmod : modrmMod c.modrm = 0 ↔ f.mod = 0 := modrmMod_eq_iff hmodrm (by decide)
  have hrm4 : modrmRm c.modrm = 4 ↔ f.rm = 4 := modrmRm_eq_iff hmodrm (by decide)
  have hrm5 : modrmRm c.modrm = 5 ↔ f.rm = 5 := modrmRm_eq_iff hmodrm (by decide)
  rw [addressRegisters] at h
  simp only [hmod, hrm4, hrm5] at h
  split_ifs at h ⊢ with hsibThere hrip
  · obtain ⟨⟨sib, code'⟩, hbyte, h⟩ := Outcome.bind_eq_done.mp h
    obtain rfl := getU8_eq_done.mp hbyte
    obtain rfl : sib = f.sib := hsib
    cases h
    refine ⟨fun hbase => ?_, ?_⟩
    · have hseven : f.sib &&& 7 = 5 ↔ f.base = 5 := by
        rw [← BitVec.toNat_inj, toNat_and_seven]
        rfl
      have hnot : ¬ (f.mod = 0 ∧ f.sib &&& 7 = 5) := by
        rw [hseven]
        exact hbase
      dsimp only
      rw [if_neg hnot]
      exact toNat_add_ext (toNat_and_seven f.sib) (Nat.mod_lt _ (by decide)) hc.extB Fields.b_lt
    · exact toNat_add_ext (toNat_index f.sib) (Nat.mod_lt _ (by decide)) hc.extX Fields.x_lt
  · cases h
    exact fun hn => absurd hrip hn
  · cases h
    exact fun _ => hc.rm hmodrm

theorem rmOperand_eq_done (hc : c.Reads f) (hmodrm : c.modrm = f.modrm) (hsib : code.getD 0 0 = f.sib)
    (h : c.rmOperand o code = .done (op, used, rest)) :
    if f.mod = 3 then op.IsReg (f.rm + 8 * f.b) else op.HasAddress f := by
  have hmod : modrmMod c.modrm = 3 ↔ f.mod = 3 := modrmMod_eq_iff hmodrm (by decide)
  rw [rmOperand] at h
  simp only [hmod] at h
  split_ifs at h ⊢ with hthree
  · obtain ⟨-, h⟩ := Outcome.require_bind_eq_done.mp h
    obtain ⟨⟨op', used'⟩, hreg, h⟩ := Outcome.bind_eq_done.mp h
    obtain ⟨-, -, h⟩ := Outcome.bind_eq_done.mp h
    cases h
    exact rmRegister_eq_done hc hmodrm hreg
  · obtain ⟨⟨reg, reg2, reg2scale, used₁, code₁⟩, hregs, h⟩ := Outcome.bind_eq_done.mp h
    obtain ⟨⟨dispbits, disp, code₂⟩, -, h⟩ := Outcome.bind_eq_done.mp h
    obtain ⟨⟨bits, used₂⟩, -, h⟩ := Outcome.bind_eq_done.mp h
    cases h
    exact ⟨_, rfl, addressRegisters_eq_done hc hmodrm hsib hregs⟩

/-- An addressing mode that does not read the code leaves it alone. -/
theorem ofRegister_eq_done {x : Outcome (DecodedOperand × Unsigned)} (h : ofRegister x code = .done (op, used, rest)) :
    x = .done (op, used) ∧ rest = code := by
  obtain ⟨⟨op', used'⟩, hop, h⟩ := Outcome.bind_eq_done.mp h
  cases h
  exact ⟨hop, rfl⟩

/-- A register is decoded after a check. -/
theorem checked_eq_done {p : Prop} [Decidable p] {type : RegisterType} {reg : Byte} {used' : Unsigned}
    (h : (Outcome.require p >>= fun _ => pure (DecodedOperand.reg type reg, used')) = .done (op, used)) :
    p ∧ op.IsReg reg.toNat := by
  obtain ⟨hp, h⟩ := Outcome.require_bind_eq_done.mp h
  cases h
  exact ⟨hp, _, _, rfl, rfl⟩

/-- **Each operand is numbered as its addressing mode says**, except for the mode `U`. -/
theorem operand_numbered (hc : c.Reads f) (hmodrm : o.addrMode.UsesModrm → c.modrm = f.modrm)
    (hsib : o.addrMode.Address → code.getD 0 0 = f.sib) (hU : o.addrMode ≠ .U)
    (h : c.operand o code = .done (op, used, rest)) : Numbered f o op := by
  rw [operand] at h
  rw [Numbered]
  cases hmode : o.addrMode with
  | lowInstructionBits =>
    rw [hmode] at h
    exact lowInstructionBits_eq_done hc (ofRegister_eq_done h).1
  | C =>
    rw [hmode] at h hmodrm
    exact hc.reg (hmodrm (by decide)) ▸ (checked_eq_done (ofRegister_eq_done h).1).2
  | D =>
    rw [hmode] at h hmodrm
    obtain ⟨hrex, h⟩ := Outcome.require_bind_eq_done.mp (ofRegister_eq_done h).1
    exact hc.reg_of_not (hmodrm (by decide)) hrex ▸ (checked_eq_done h).2
  | E =>
    rw [hmode] at h hmodrm hsib
    exact rmOperand_eq_done hc (hmodrm (by decide)) (hsib (by decide)) h
  | G =>
    rw [hmode] at h hmodrm
    exact generalRegister_eq_done hc (hmodrm (by decide)) (ofRegister_eq_done h).1
  | M =>
    rw [hmode] at h hmodrm hsib
    exact rmOperand_eq_done hc (hmodrm (by decide)) (hsib (by decide)) h
  | R =>
    rw [hmode] at h hmodrm
    obtain ⟨-, h⟩ := Outcome.require_bind_eq_done.mp (ofRegister_eq_done h).1
    exact hc.rm (hmodrm (by decide)) ▸ (checked_eq_done h).2
  | S =>
    rw [hmode] at h hmodrm
    obtain ⟨hrex, hreg⟩ := checked_eq_done (ofRegister_eq_done h).1
    exact hc.reg_of_not (hmodrm (by decide)) hrex ▸ hreg
  | U => exact absurd hmode hU
  | V =>
    rw [hmode] at h hmodrm
    exact hc.reg (hmodrm (by decide)) ▸ (checked_eq_done (ofRegister_eq_done h).1).2
  | W =>
    rw [hmode] at h hmodrm hsib
    exact rmOperand_eq_done hc (hmodrm (by decide)) (hsib (by decide)) h
  | rax => trivial
  | rcx => trivial
  | rdx => trivial
  | const1 => trivial
  | I => trivial
  | J => trivial
  | O => trivial

/-- The addressing mode `U` has the other bit. -/
theorem operand_U (hc : c.Reads f) (hmodrm : c.modrm = f.modrm) (hU : o.addrMode = .U)
    (h : c.operand o code = .done (op, used, rest)) : op.IsReg (f.rm + 8 * f.r) := by
  rw [operand, hU] at h
  obtain ⟨-, h⟩ := Outcome.require_bind_eq_done.mp (ofRegister_eq_done h).1
  have hreg : (modrmRm c.modrm + c.ext rexR).toNat = f.rm + 8 * f.r := by
    apply toNat_add_ext _ (Nat.mod_lt _ (by decide)) hc.extR Fields.r_lt
    rw [toNat_modrmRm, hmodrm]
  exact hreg ▸ (checked_eq_done h).2

/-- Other operands than those that read the code leave it alone. -/
theorem operand_code (hreads : ¬ o.addrMode.ReadsCode) (h : c.operand o code = .done (op, used, rest)) :
    rest = code := by
  rw [operand] at h
  rw [AddressingMode.ReadsCode] at hreads
  cases hmode : o.addrMode with
  | E | M | W | I | J | O =>
    rw [hmode] at hreads
    exact absurd (by decide) hreads
  | _ =>
    rw [hmode] at h
    exact (ofRegister_eq_done h).2

/-- **All operands are numbered as their addressing modes say.** The code has not been read further
when the one with an address is decoded. -/
theorem operands_numbered {flags used used' : Unsigned} {os : List InstructionOperandInfo} {ops : List DecodedOperand}
    (hc : c.Reads f) (hmodrm : ∀ o ∈ os, o.addrMode.UsesModrm → c.modrm = f.modrm)
    (hsib : ∀ o ∈ os, o.addrMode.Address → code.getD 0 0 = f.sib) (hU : ∀ o ∈ os, o.addrMode ≠ .U)
    (horder : InOrder os) (h : c.operands flags os used code = .done (ops, used', rest)) :
    List.Forall₂ (Numbered f) os ops := by
  induction os generalizing used code ops with
  | nil =>
    cases h
    exact .nil
  | cons o os ih =>
    obtain ⟨-, h⟩ := Outcome.require_bind_eq_done.mp h
    obtain ⟨⟨op, used₁, code₁⟩, hop, h⟩ := Outcome.bind_eq_done.mp h
    obtain ⟨⟨ops', used₂, code₂⟩, hops, h⟩ := Outcome.bind_eq_done.mp h
    cases h
    rw [List.forall_mem_cons] at hmodrm hsib hU
    obtain ⟨hfirst, horder⟩ := List.pairwise_cons.mp horder
    refine .cons (operand_numbered hc hmodrm.1 hsib.1 hU.1 hop) (ih hmodrm.2 ?_ hU.2 horder hops)
    intro o' ho' haddress
    have hcode : code₁ = code := operand_code (fun hreads => hfirst o' ho' hreads haddress) hop
    rw [hcode]
    exact hsib.2 o' ho' haddress

end Context

/-! ## The instruction -/

theorem AddressingMode.Address.usesModrm {m : AddressingMode} (h : m.Address) : m.UsesModrm := by
  rw [AddressingMode.Address] at h
  rw [AddressingMode.UsesModrm]
  simp only [List.mem_cons, List.not_mem_nil, or_false] at h ⊢
  tauto

/-- `psrldq` is the only instruction in its group. -/
theorem group0f73_operands (n : ℕ) : (group0f73.getD n {}).operands = if n = 11 then [Ux, Ib] else [] := by
  by_cases hn : n < 32
  · have hall : ∀ k < 32, (group0f73.getD k {}).operands = if k = 11 then [Ux, Ib] else [] := by decide
    exact hall n hn
  · have hlength : group0f73.length ≤ n := not_lt.mp hn
    rw [List.getD_eq_getElem?_getD, List.getElem?_eq_none hlength, if_neg (by omega)]
    rfl

theorem IsReg.unique {op : DecodedOperand} {m n : ℕ} (h : op.IsReg m) (h' : op.IsReg n) : m = n := by
  obtain ⟨_, _, rfl, rfl⟩ := h
  obtain ⟨_, _, hop, rfl⟩ := h'
  cases hop
  rfl

/-- Other instructions have no operand with the mode `U`. -/
theorem Reads.numbered {ops : List DecodedOperand} {used used' : Unsigned} (hr : Reads h f rest)
    (hU : ∀ o ∈ h.entry.operands, o.addrMode ≠ .U)
    (hops : h.context.operands h.entry.flags h.entry.operands used rest = .done (ops, used', code')) :
    List.Forall₂ (Numbered f) h.entry.operands ops := by
  have horder : InOrder h.entry.operands := (entry_spec h.index h.group).1
  apply Context.operands_numbered hr.context _ _ hU horder hops
  · intro o ho hmodrm
    obtain hfetched | hnone := hr.modrm
    · exact hfetched.1
    · exact absurd hmodrm (hnone o ho)
  · intro o ho haddress
    obtain hfetched | hnone := hr.modrm
    · exact hfetched.2
    · exact absurd haddress.usesModrm (hnone o ho)

/-- The register of `psrldq` has the number of the other bit. -/
theorem psrldq_numbered {flags used used' : Unsigned} {ops : List DecodedOperand} (hc : c.Reads f)
    (hmodrm : c.modrm = f.modrm) (hops : c.operands flags [Ux, Ib] used rest = .done (ops, used', code')) :
    List.Forall₂ (Numbered f) [Ux, Ib] ops ↔ f.r = f.b := by
  obtain ⟨-, hops⟩ := Outcome.require_bind_eq_done.mp hops
  obtain ⟨⟨op, used₁, code₁⟩, hop, hops⟩ := Outcome.bind_eq_done.mp hops
  obtain ⟨⟨ops₁, used₂, code₂⟩, hops₁, hops⟩ := Outcome.bind_eq_done.mp hops
  cases hops
  obtain ⟨-, hops₁⟩ := Outcome.require_bind_eq_done.mp hops₁
  obtain ⟨⟨op', used₃, code₃⟩, -, hops₁⟩ := Outcome.bind_eq_done.mp hops₁
  cases hops₁
  have hreg := Context.operand_U hc hmodrm rfl hop
  constructor
  · intro h
    obtain ⟨hnumbered, -⟩ := List.forall₂_cons.mp h
    have heq := IsReg.unique hreg hnumbered
    omega
  · intro heq
    rw [heq] at hreg
    exact .cons hreg (.cons trivial .nil)

/-- **The registers of `do_disasm` are numbered by the fields**, unless the instruction is `psrldq` with
different bits for the reg and rm fields. -/
theorem registers_iff {ins : DecodedInstruction} (hdone : doDisasm code = .done ins) :
    RegistersNumbered code ins ↔ ¬ (Psrldq code ∧ (fields code).r ≠ (fields code).b) := by
  obtain ⟨⟨h, rest⟩, hheader, hdone⟩ := Outcome.bind_eq_done.mp hdone
  obtain ⟨⟨ops, used, rest'⟩, hops, hdone⟩ := Outcome.bind_eq_done.mp hdone
  cases hdone
  obtain ⟨hreads, hindex, hpsrldq⟩ := readHeader_eq_done hheader
  rw [RegistersNumbered]
  change List.Forall₂ _ h.entry.operands ops ↔ _
  by_cases hopcode : h.index = 0x73 + 256
  · obtain ⟨hmodrm, n, hlt, hgroup, hn⟩ := hpsrldq hopcode
    have hentry : h.entry.operands = if (fields code).reg + n * 8 = 11 then [Ux, Ib] else [] := by
      rw [Header.entry, hopcode, instruction_psrldq, hgroup]
      exact group0f73_operands _
    have hreg : (fields code).reg < 8 := Nat.mod_lt _ (by decide)
    rw [hentry] at hops ⊢
    split_ifs at hops ⊢ with hnumber
    · have hthis : Psrldq code := ⟨hn.mp (by omega), hindex.mp hopcode, by omega⟩
      rw [psrldq_numbered hreads.context hmodrm hops, and_iff_right hthis, not_not]
    · cases hops
      refine iff_of_true .nil ?_
      rintro ⟨⟨hopsize, -, hthree⟩, -⟩
      have hone := hn.mpr hopsize
      omega
  · have hU : ∀ o ∈ h.entry.operands, o.addrMode ≠ .U := (entry_spec h.index h.group).2 hopcode
    refine iff_of_true (hreads.numbered hU hops) ?_
    rintro ⟨⟨-, hprefix, -⟩, -⟩
    exact hopcode (hindex.mpr hprefix)

/-- `mov rax, [r12 + r8*2]` -/
def movRaxMem : List Byte := [0x4b, 0x8b, 0x04, 0x44]

theorem registers_iff_movRaxMem : ∃ ins, doDisasm movRaxMem = .done ins ∧ ins.operands.length = 2 ∧
    (RegistersNumbered movRaxMem ins ↔ ¬ (Psrldq movRaxMem ∧ (fields movRaxMem).r ≠ (fields movRaxMem).b)) := by
  refine ⟨_, rfl, ?_, ?_⟩
  · rfl
  · exact registers_iff rfl

/-- `psrldq xmm0, 8`, with `REX.R` -/
def psrldqXmm0 : List Byte := [0x66, 0x44, 0x0f, 0x73, 0xd8, 0x08]

/-- What it is decoded as: `psrldq xmm8, 8`. -/
def psrldqXmm8 : DecodedInstruction where
  prefixes := rexFlag ||| 4
  unusedPrefixes := 0
  start := psrldqXmm0
  len := 6
  info := 0x73 + 256
  group := some 11
  operands := [.reg .xmmreg 8, .immediate 8 8]

theorem doDisasm_psrldqXmm0 : doDisasm psrldqXmm0 = .done psrldqXmm8 := by decide

/-- **The wrong bit.** The register is decoded as `xmm8`. -/
theorem not_registersNumbered : ¬ ∀ code ins, doDisasm code = .done ins → RegistersNumbered code ins := by
  intro hall
  have hnumbered := hall _ _ doDisasm_psrldqXmm0
  have hentry : psrldqXmm8.entry.operands = [Ux, Ib] := by
    rw [DecodedInstruction.entry, psrldqXmm8, instruction_psrldq]
    exact group0f73_operands 11
  rw [RegistersNumbered, hentry, List.forall₂_cons_left_iff] at hnumbered
  obtain ⟨op, ops, ⟨type, reg, rfl, hreg⟩, -, hops⟩ := hnumbered
  cases hops
  exact absurd hreg (by decide)

end Attos.Disasm
