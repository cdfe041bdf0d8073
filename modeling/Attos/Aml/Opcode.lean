import Mathlib.Tactic

/-!
# AML opcodes

The enumeration `opcode`. A byte of the input is cast to it without a check, so
the values that are no enumerator are kept as well (`other`).
-/

namespace Attos.Aml

/-- `opcode` -/
inductive Opcode : Type where
  | zero | one | name | byte | word | dword | string | qword | scope | buffer | package
  | method | extPrefix | local0 | local1 | local2 | local3 | local4 | local5 | local6 | local7
  | arg0 | arg1 | arg2 | arg3 | arg4 | arg5 | arg6 | store | add | concat | subtract
  | increment | decrement | multiply | divide | shiftLeft | shiftRight | and | or | xor | not
  | findSetLeftBit | findSetRightBit | derefOf | notify | sizeOf | index | createDwordField
  | createWordField | createByteField | createBitField | objectType | createQwordField | land
  | lor | lnot | lequal | lgreater | lless | mid | if_ | else_ | while_ | noop | return_ | ones
  | mutex | condRefOf | createField | sleep | acquire | release | fatal | opRegion | field
  | device | processor | powerRes | thermalZone | indexField | reservedField | accessField
  | namedField | packageElement | nullName | constant | nameLookup | methodCall | deadScope
  | invalid
  /-- a value without an enumerator -/
  | other (value : ℕ)
  deriving DecidableEq

namespace Opcode

/-- The values of the enumerators. -/
def codes : List (ℕ × Opcode) :=
  [(0x00, .zero), (0x01, .one), (0x08, .name), (0x0a, .byte), (0x0b, .word), (0x0c, .dword),
   (0x0d, .string), (0x0e, .qword), (0x10, .scope), (0x11, .buffer), (0x12, .package),
   (0x14, .method), (0x5b, .extPrefix), (0x60, .local0), (0x61, .local1), (0x62, .local2),
   (0x63, .local3), (0x64, .local4), (0x65, .local5), (0x66, .local6), (0x67, .local7),
   (0x68, .arg0), (0x69, .arg1), (0x6a, .arg2), (0x6b, .arg3), (0x6c, .arg4), (0x6d, .arg5),
   (0x6e, .arg6), (0x70, .store), (0x72, .add), (0x73, .concat), (0x74, .subtract),
   (0x75, .increment), (0x76, .decrement), (0x77, .multiply), (0x78, .divide), (0x79, .shiftLeft),
   (0x7a, .shiftRight), (0x7b, .and), (0x7d, .or), (0x7f, .xor), (0x80, .not),
   (0x81, .findSetLeftBit), (0x82, .findSetRightBit), (0x83, .derefOf), (0x86, .notify),
   (0x87, .sizeOf), (0x88, .index), (0x8a, .createDwordField), (0x8b, .createWordField),
   (0x8c, .createByteField), (0x8d, .createBitField), (0x8e, .objectType),
   (0x8f, .createQwordField), (0x90, .land), (0x91, .lor), (0x92, .lnot), (0x93, .lequal),
   (0x94, .lgreater), (0x95, .lless), (0x9e, .mid), (0xa0, .if_), (0xa1, .else_), (0xa2, .while_),
   (0xa3, .noop), (0xa4, .return_), (0xff, .ones), (0x5b01, .mutex), (0x5b12, .condRefOf),
   (0x5b13, .createField), (0x5b22, .sleep), (0x5b23, .acquire), (0x5b27, .release),
   (0x5b32, .fatal), (0x5b80, .opRegion), (0x5b81, .field), (0x5b82, .device),
   (0x5b83, .processor), (0x5b84, .powerRes), (0x5b85, .thermalZone), (0x5b86, .indexField),
   (0x8000, .reservedField), (0x8001, .accessField), (0x8002, .namedField),
   (0x8003, .packageElement), (0x8004, .nullName), (0x8005, .constant), (0x8006, .nameLookup),
   (0x8007, .methodCall), (0xfffe, .deadScope), (0xffff, .invalid)]

/-- The opcode with a value. -/
def ofNat (value : ℕ) : Opcode := (codes.lookup value).getD (.other value)

/-- The value of an opcode. -/
def toNat : Opcode → ℕ
  | other value => value
  | op => ((codes.find? fun c => c.2 = op).map Prod.fst).getD 0

/-- `is_extended` -/
def isExtended (op : Opcode) : Prop := 0xff < op.toNat

instance (op : Opcode) : Decidable op.isExtended := inferInstanceAs (Decidable (0xff < op.toNat))

theorem toNat_of_mem {c : ℕ × Opcode} (h : c ∈ codes) : c.2.toNat = c.1 := by
  revert h c
  decide

/-- The value of a cast is the value that was cast. -/
theorem toNat_ofNat (value : ℕ) : (ofNat value).toNat = value := by
  rw [ofNat]
  cases h : codes.lookup value with
  | none => rfl
  | some op =>
    obtain ⟨l₁, l₂, hcodes, -⟩ := List.lookup_eq_some_iff.1 h
    have hmem : (value, op) ∈ codes := by simp [hcodes]
    exact toNat_of_mem hmem

end Opcode

end Attos.Aml
