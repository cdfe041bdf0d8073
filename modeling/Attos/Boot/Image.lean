import Attos.Boot.Stage2

/-!
# The kernel image behind the boot loader

The kernel is entered with the page tables that `test_longmode` has built. What it finds at the
addresses it was linked for is the contents of its file: every section whose address in the image is
its place in the file has its bytes there (`readVirtual_section`), and these are the bytes of the drive
that the boot sector has loaded (`boot_section`).
-/

namespace Attos.Boot

open Lib

/-- `VirtualAddress` of a section. -/
def virtualAddress (m : Memory) (edi : ℕ) : ℕ := le32 m (edi + 12)

/-- `SizeOfRawData` of a section. -/
def sizeOfRawData (m : Memory) (edi : ℕ) : ℕ := le32 m (edi + 16)

/-- `PointerToRawData` of a section. -/
def pointerToRawData (m : Memory) (edi : ℕ) : ℕ := le32 m (edi + 20)

/-- The header of a section. -/
def sectionHeader (m : Memory) (esi k : ℕ) : ℕ := sectionHeaders m esi + 40 * k

/-- A section that is in the image as it is in the file, in the pages that are mapped. -/
structure InPlace (m : Memory) (esi edi : ℕ) : Prop where
  /-- its address is its place in the file -/
  place : virtualAddress m edi = pointerToRawData m edi
  /-- it does not wrap around -/
  word : pointerToRawData m edi + sizeOfRawData m edi < 2 ^ 32
  /-- its pages are mapped -/
  mapped : virtualAddress m edi + sizeOfRawData m edi ≤ 4096 * (sizeOfImage m esi / 4096)

section Image

variable {m m' : Memory} {stage3 esp esi edi ecx n i k : ℕ}

theorem le_sections : ecx ≤ sections m n edi ecx := by
  induction n generalizing edi ecx with
  | zero => exact le_rfl
  | succ n ih =>
    rw [sections]
    refine le_trans ?_ ih
    split <;> omega

/-- **The loop over the sections** finds an extent that contains all of them. -/
theorem extent_le_sections (hk : k < n) (hlt : edi + 40 * n < 2 ^ 32) :
    u32 (pointerToRawData m (edi + 40 * k) + sizeOfRawData m (edi + 40 * k)) ≤ sections m n edi ecx := by
  induction n generalizing edi ecx k with
  | zero => exact absurd hk k.not_lt_zero
  | succ n ih =>
    rw [sections, u32_of_lt (by omega : edi + 40 < 2 ^ 32)]
    cases k with
    | zero =>
      refine le_trans ?_ le_sections
      rw [Nat.mul_zero, Nat.add_zero, pointerToRawData, sizeOfRawData]
      split <;> omega
    | succ k =>
      have hplace : edi + 40 * (k + 1) = edi + 40 + 40 * k := by omega
      rw [hplace]
      exact ih (Nat.lt_of_succ_lt_succ hk) (by omega)

/-- The address of a byte of the image. -/
theorem toNat_image (hlimits : Limits m stage3) (hi : i < 4096 * (sizeOfImage m (ntHeaders m stage3) / 4096)) :
    (BitVec.ofNat 64 (imageBase m (ntHeaders m stage3) + i)).toNat = imageBase m (ntHeaders m stage3) + i := by
  have hbase := hlimits.base
  have haligned := hlimits.aligned
  have hmax := hlimits.size_le
  have hend : imageBase m (ntHeaders m stage3) < 2 ^ 64 := le64_lt ..
  rw [BitVec.toNat_ofNat]
  omega

/-- **The image is read** at the addresses behind its base: first the bytes of the file, then zeros. -/
theorem readVirtual_image (hlimits : Limits m stage3) (h : Booted m stage3 esp m')
    (hi : i < 4096 * (sizeOfImage m (ntHeaders m stage3) / 4096)) (hscratch : stage3Copy + i < scratchAddress + scratchSize) :
    readVirtual m' (BitVec.ofNat 64 (imageBase m (ntHeaders m stage3) + i)) =
      some (if i < largestExtent m (ntHeaders m stage3) then m (stage3 + i) else 0) := by
  have hbase := hlimits.base
  have haligned := hlimits.aligned
  have hapart := hlimits.apart
  have hmax := hlimits.size_le
  have hstart := identityMapStart_eq
  have hv := toNat_image hlimits hi
  have hcanonical : MemoryManager.Canonical (BitVec.ofNat 64 (imageBase m (ntHeaders m stage3) + i)) := by
    rw [MemoryManager.Canonical, hv]
    omega
  have htranslate := translate_booted hlimits h hcanonical
  rw [bootTranslation, hv] at htranslate
  rw [if_neg (by omega), if_neg (by omega), if_pos ⟨Nat.le_add_right .., by omega⟩, Nat.add_sub_cancel_left] at htranslate
  rw [readVirtual, htranslate, Option.map_some]
  split
  · next hlt => rw [h.copy i hlt]
  · next hge => rw [h.zero i (Nat.le_of_not_lt hge) hscratch]

/-- **The sections are where they were linked for.** -/
theorem readVirtual_section (hlimits : Limits m stage3) (h : Booted m stage3 esp m')
    (hk : k < numberOfSections m (ntHeaders m stage3))
    (hplace : InPlace m (ntHeaders m stage3) (sectionHeader m (ntHeaders m stage3) k))
    (hi : i < sizeOfRawData m (sectionHeader m (ntHeaders m stage3) k)) :
    readVirtual m' (BitVec.ofNat 64 (imageBase m (ntHeaders m stage3) +
        (virtualAddress m (sectionHeader m (ntHeaders m stage3) k) + i))) =
      some (m (stage3 + (pointerToRawData m (sectionHeader m (ntHeaders m stage3) k) + i))) := by
  have hscratch := scratchAddress_eq
  have hcopy := stage3Copy_eq
  have hend := scratch_end
  have hheaders := hlimits.sectionHeaders
  have hextent := hlimits.extent
  obtain ⟨hsame, hword, hmapped⟩ := hplace
  have hle : u32 (pointerToRawData m (sectionHeader m (ntHeaders m stage3) k) +
      sizeOfRawData m (sectionHeader m (ntHeaders m stage3) k)) ≤ largestExtent m (ntHeaders m stage3) :=
    extent_le_sections hk (by omega)
  rw [u32_of_lt hword] at hle
  rw [readVirtual_image hlimits h (by omega) (by omega), if_pos (by omega), hsame]

/-- **What the drive holds is what the kernel finds.** The boot sector has loaded the file of the kernel,
and up to the call of `test_longmode` it has not changed. -/
theorem boot_section {disk : ℕ → UInt8} {int13 : ExtendedRead} (hbios : Reads disk int13) {total : BitVec 64}
    (htotal : 1 < total.toNat) (hsigned : total.toNat ≤ 0x8000 ∨ 0x10000 ≤ total.toNat) {addr : ℕ} {m₀ : Memory}
    (hsector : BootSector addr m₀) {fuel : ℕ} (hfuel : maxSectors ≤ fuel) {s : Reading}
    (hrun : readLoop int13 addr fuel (start total m₀) = .done s)
    (hsame : ∀ a, stage3 ≤ a → a < loadAddr + 512 * min (total.toNat - 1) maxSectors → m a = s.mem a)
    (hlimits : Limits m stage3) {r : Registers} (hstack : Stacked r.esp) {fuel' : ℕ} (hfuel' : 512 ≤ fuel') :
    ∃ m', testLongmode fuel' stage3 r m = .done m' ∧ ∀ k < numberOfSections m (ntHeaders m stage3),
      InPlace m (ntHeaders m stage3) (sectionHeader m (ntHeaders m stage3) k) →
      stage3 + (pointerToRawData m (sectionHeader m (ntHeaders m stage3) k) +
        sizeOfRawData m (sectionHeader m (ntHeaders m stage3) k)) ≤ loadAddr + 512 * min (total.toNat - 1) maxSectors →
      ∀ i < sizeOfRawData m (sectionHeader m (ntHeaders m stage3) k),
        readVirtual m' (BitVec.ofNat 64 (imageBase m (ntHeaders m stage3) +
            (virtualAddress m (sectionHeader m (ntHeaders m stage3) k) + i))) =
          some (disk (512 + (stage3 - loadAddr) +
            (pointerToRawData m (sectionHeader m (ntHeaders m stage3) k) + i))) := by
  obtain ⟨m', hlongmode, hbooted⟩ := testLongmode_booted hlimits hstack hfuel'
  have hloads := loads_of_done hbios htotal hsigned hsector hfuel hrun
  have hstage3 := hlimits.loaded.1
  refine ⟨m', hlongmode, fun k hk hplace hloaded i hi => ?_⟩
  rw [readVirtual_section hlimits hbooted hk hplace hi, hsame _ (by omega) (by omega)]
  have hdata := hloads.data (stage3 - loadAddr + (pointerToRawData m (sectionHeader m (ntHeaders m stage3) k) + i))
    (by omega)
  rw [← Nat.add_assoc, Nat.add_sub_cancel' hstage3, ← Nat.add_assoc 512] at hdata
  exact congrArg some hdata

end Image

/-! ## The small kernel -/

theorem smallKernel_inPlace :
    InPlace smallKernel (ntHeaders smallKernel 0x9000) (sectionHeader smallKernel (ntHeaders smallKernel 0x9000) 0) where
  place := by decide
  word := by decide
  mapped := by decide

/-- A drive with this image behind the second stage. -/
def smallDrive : ℕ → UInt8 := fun i => smallKernel (loadAddr + i - 512)

/-- The byte 5 of the section is found at its address. -/
theorem boot_section_small : ∃ s m', readLoop (driveRead smallDrive) 0x7d00 449 (start 40 bootMemory) = .done s ∧
    testLongmode 512 0x9000 smallRegisters smallKernel = .done m' ∧ readVirtual m' 0xFFFFFFFFFF001005 = some 42 := by
  have htotal : 1 < (40 : BitVec 64).toNat := by decide
  have hsigned : (40 : BitVec 64).toNat ≤ 0x8000 ∨ 0x10000 ≤ (40 : BitVec 64).toNat := .inl (by decide)
  have hrun : ∃ s, readLoop (driveRead smallDrive) 0x7d00 449 (start 40 bootMemory) = .done s := ⟨_, rfl⟩
  obtain ⟨s, hdone⟩ := hrun
  have hloads := loads_of_done (driveRead_reads smallDrive) htotal hsigned bootMemory_sector le_rfl hdone
  have hsame : ∀ a, 0x9000 ≤ a → a < loadAddr + 512 * min ((40 : BitVec 64).toNat - 1) maxSectors →
      smallKernel a = s.mem a := by
    have hload := loadAddr_eq
    intro a hlo hhi
    have hdata := hloads.data (a - loadAddr) (by omega)
    rw [Nat.add_sub_cancel' (by omega)] at hdata
    rw [hdata, smallDrive]
    exact congrArg smallKernel (by omega)
  obtain ⟨m', hlongmode, hsection⟩ := boot_section (driveRead_reads smallDrive) htotal hsigned bootMemory_sector le_rfl
    hdone hsame smallKernel_limits (by decide : Stacked smallRegisters.esp) le_rfl
  have hbyte := hsection 0 (by decide) smallKernel_inPlace (by decide) 5 (by decide)
  have haddress : BitVec.ofNat 64 (imageBase smallKernel (ntHeaders smallKernel 0x9000) +
      (virtualAddress smallKernel (sectionHeader smallKernel (ntHeaders smallKernel 0x9000) 0) + 5)) =
        0xFFFFFFFFFF001005 := by decide
  have hvalue : smallDrive (512 + (0x9000 - loadAddr) +
      (pointerToRawData smallKernel (sectionHeader smallKernel (ntHeaders smallKernel 0x9000) 0) + 5)) = 42 := by decide
  rw [haddress, hvalue] at hbyte
  exact ⟨s, m', hdone, hlongmode, hbyte⟩

end Attos.Boot
