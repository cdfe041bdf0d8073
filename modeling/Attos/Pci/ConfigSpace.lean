import Attos.Lib.Outcome

/-!
# The configuration space of PCI

The functions of the devices have 64 registers each. Bits of a register that are not writable keep
their value when the register is written: so a register that was written has its old value again
once that value is written to it (`restore`).
-/

namespace Attos.Pci

open Lib

/-- `device_address` -/
structure DeviceAddress : Type where
  /-- the bus -/
  bus : UInt8
  /-- the device on the bus -/
  slot : Fin 32
  /-- the function of the device -/
  func : Fin 8
  deriving DecidableEq

/-- A register. -/
structure Register : Type where
  /-- what is read -/
  value : UInt32
  /-- the bits that can be changed -/
  writable : UInt32
  deriving DecidableEq

/-- The register after a value is written to it. -/
def Register.write (r : Register) (v : UInt32) : Register :=
  { r with value := (v &&& r.writable) ||| (r.value &&& ~~~r.writable) }

/-- The registers of all functions. -/
abbrev ConfigSpace : Type := DeviceAddress → ℕ → Register

/-- `config_area_num_dwords` -/
def configAreaNumDwords : ℕ := 64

/-- `read_config_dword` -/
def readConfigDword (space : ConfigSpace) (addr : DeviceAddress) (reg : ℕ) : Outcome UInt32 := do
  Outcome.require (reg < configAreaNumDwords)
  pure (space addr reg).value

/-- The space after a register is replaced. -/
def ConfigSpace.set (space : ConfigSpace) (addr : DeviceAddress) (reg : ℕ) (r : Register) : ConfigSpace :=
  Function.update space addr (Function.update (space addr) reg r)

/-- `write_config_dword` -/
def writeConfigDword (space : ConfigSpace) (addr : DeviceAddress) (reg : ℕ) (v : UInt32) : Outcome ConfigSpace := do
  Outcome.require (reg < configAreaNumDwords)
  pure (space.set addr reg ((space addr reg).write v))

section Registers

variable {r : Register} {v : UInt32} {space : ConfigSpace} {addr : DeviceAddress} {reg : ℕ}

/-- Bits that are not writable stay. -/
theorem Register.restore (r : Register) (v : UInt32) : (r.write v).write r.value = r := by
  rw [Register.write, Register.write]
  congr 1
  apply UInt32.eq_of_toBitVec_eq
  ext i hi
  simp only [UInt32.toBitVec_or, UInt32.toBitVec_and, UInt32.toBitVec_not, BitVec.getElem_or, BitVec.getElem_and,
    BitVec.getElem_not]
  cases r.writable.toBitVec[i] <;> simp

/-- The writable bits are those that stick when ones are written. -/
theorem Register.write_ones (r : Register) : (r.write (~~~0)).value = r.writable ||| r.value := by
  rw [Register.write]
  apply UInt32.eq_of_toBitVec_eq
  ext i hi
  simp only [UInt32.toBitVec_or, UInt32.toBitVec_and, UInt32.toBitVec_not, BitVec.getElem_or, BitVec.getElem_and,
    BitVec.getElem_not]
  cases r.writable.toBitVec[i] <;> simp

theorem readConfigDword_eq (h : reg < configAreaNumDwords) :
    readConfigDword space addr reg = .done (space addr reg).value := by
  rw [readConfigDword, Outcome.require_pos h]
  rfl

theorem writeConfigDword_eq (h : reg < configAreaNumDwords) :
    writeConfigDword space addr reg v = .done (space.set addr reg ((space addr reg).write v)) := by
  rw [writeConfigDword, Outcome.require_pos h]
  rfl

@[simp] theorem set_self : (space.set addr reg r) addr reg = r := by
  rw [ConfigSpace.set, Function.update_self, Function.update_self]

/-- **A register is restored** by writing its old value. -/
theorem set_restore : (space.set addr reg ((space addr reg).write v)).set addr reg
    (((space addr reg).write v).write (space addr reg).value) = space := by
  rw [Register.restore, ConfigSpace.set, ConfigSpace.set, Function.update_self, Function.update_idem,
    Function.update_idem, Function.update_eq_self, Function.update_eq_self]

end Registers

end Attos.Pci
