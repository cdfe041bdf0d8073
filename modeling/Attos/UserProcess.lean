import Attos.PhysicalPages

/-!
# User processes and their images

`user_process` of `kernel/kernel.cpp` and what it takes to load a PE image into
one: the headers of `attos/pe.h`, `alloc_and_copy_section` and
`alloc_and_map_user_exe`.

An image is the function from the offset of a byte behind its start to the byte.
The objects that a process has open and its place in the list of processes are
part of the data, as the system calls need them; processes are named by their
addresses.
-/

namespace Attos

open Lib

/-! ## PE images -/

/-- The bytes behind an `IMAGE_DOS_HEADER`. -/
abbrev Image : Type := ℕ → UInt8

/-- `IMAGE_SECTION_HEADER` -/
structure SectionHeader : Type where
  /-- size in memory -/
  virtualSize : ℕ
  /-- offset from the image base -/
  virtualAddress : ℕ
  /-- size in the file -/
  sizeOfRawData : ℕ
  /-- offset in the file -/
  pointerToRawData : ℕ
  /-- flags -/
  characteristics : BitVec 32

namespace Image

/-- `nt_headers()` -/
def ntHeaders (image : Image) : ℕ := le32 image 0x3c

/-- `OptionalHeader` of the headers. -/
def optionalHeader (image : Image) : ℕ := image.ntHeaders + 24

/-- `is_64bit_exe` -/
def Is64bitExe (image : Image) : Prop :=
  le16 image 0 = 0x5a4d ∧ le32 image image.ntHeaders = 0x4550 ∧
    le16 image (image.ntHeaders + 4) = 0x8664 ∧ le16 image image.optionalHeader = 0x20b

instance (image : Image) : Decidable image.Is64bitExe := inferInstanceAs (Decidable (_ ∧ _))

/-- `FileHeader.NumberOfSections` -/
def numberOfSections (image : Image) : ℕ := le16 image (image.ntHeaders + 6)

/-- `FileHeader.SizeOfOptionalHeader` -/
def sizeOfOptionalHeader (image : Image) : ℕ := le16 image (image.ntHeaders + 20)

/-- `OptionalHeader.AddressOfEntryPoint` -/
def addressOfEntryPoint (image : Image) : ℕ := le32 image (image.optionalHeader + 16)

/-- `OptionalHeader.ImageBase` -/
def imageBase (image : Image) : Word := BitVec.ofNat 64 (le64 image (image.optionalHeader + 24))

/-- `OptionalHeader.SizeOfHeaders` -/
def sizeOfHeaders (image : Image) : ℕ := le32 image (image.optionalHeader + 60)

/-- `OptionalHeader.SizeOfStackCommit` -/
def sizeOfStackCommit (image : Image) : ℕ := le64 image (image.optionalHeader + 80)

/-- The section header at an offset. -/
def sectionAt (image : Image) (a : ℕ) : SectionHeader where
  virtualSize := le32 image (a + 8)
  virtualAddress := le32 image (a + 12)
  sizeOfRawData := le32 image (a + 16)
  pointerToRawData := le32 image (a + 20)
  characteristics := BitVec.ofNat 32 (le32 image (a + 36))

/-- `sections()` -/
def sections (image : Image) : List SectionHeader :=
  (List.range image.numberOfSections).map fun i =>
    image.sectionAt (image.optionalHeader + image.sizeOfOptionalHeader + 40 * i)

end Image

/-- `section_memory_type` -/
def sectionMemoryType (characteristics : BitVec 32) : MemoryType :=
  (if characteristics &&& 0x20000000 ≠ 0 then MemoryType.execute else 0) |||
    (if characteristics &&& 0x40000000 ≠ 0 then MemoryType.read else 0) |||
    if characteristics &&& 0x80000000 ≠ 0 then MemoryType.write else 0

/-! ## Processes -/

/-- `registers` -/
structure Registers : Type where
  /-- `rax` -/
  rax : Word
  /-- `rbx` -/
  rbx : Word
  /-- `rcx` -/
  rcx : Word
  /-- `rdx` -/
  rdx : Word
  /-- `rbp` -/
  rbp : Word
  /-- `rsi` -/
  rsi : Word
  /-- `rdi` -/
  rdi : Word
  /-- `r8` -/
  r8 : Word
  /-- `r9` -/
  r9 : Word
  /-- `r10` -/
  r10 : Word
  /-- `r11` -/
  r11 : Word
  /-- `r12` -/
  r12 : Word
  /-- `r13` -/
  r13 : Word
  /-- `r14` -/
  r14 : Word
  /-- `r15` -/
  r15 : Word
  /-- the 512 bytes of `fx_state` -/
  fxState : ℕ → UInt8
  /-- `interrupt_no` -/
  interruptNo : BitVec 8
  /-- `error_code` -/
  errorCode : Word
  /-- `rip` -/
  rip : Word
  /-- `cs` -/
  cs : BitVec 16
  /-- `eflags` -/
  eflags : BitVec 32
  /-- `rsp` -/
  rsp : Word
  /-- `ss` -/
  ss : BitVec 16

/-- `registers{}` -/
def Registers.zero : Registers :=
  ⟨0, 0, 0, 0, 0, 0, 0, 0, 0, 0, 0, 0, 0, 0, 0, fun _ => 0, 0, 0, 0, 0, 0, 0, 0⟩

/-- `mem_map_helper`: a window to physical memory in the address space of a
process. -/
structure MemMapHelper : Type where
  /-- the process whose manager it is in -/
  mm_ : ℕ
  /-- physical address -/
  phys_ : Word
  /-- number of bytes -/
  length_ : Word
  /-- type -/
  type_ : MemoryType
  /-- where it is mapped -/
  mappedVirt_ : Word

/-- A `kernel_object` that a process has open. -/
inductive KernelObject : Type where
  /-- `ko_ethdev` -/
  | ethdev : KernelObject
  /-- `ko_keyboard` -/
  | keyboard : KernelObject
  /-- `user_process` -/
  | process : ℕ → KernelObject
  /-- `mem_map_helper` -/
  | memMap : MemMapHelper → KernelObject

/-- `states` -/
inductive ProcessState : Type where
  /-- not started -/
  | created : ProcessState
  /-- started -/
  | running : ProcessState
  /-- ended -/
  | exited : ProcessState
  deriving DecidableEq

/-- `user_process` -/
structure UserProcess : Type where
  /-- where in its life it is -/
  state_ : ProcessState
  /-- its address space -/
  mm_ : MemoryManager
  /-- the page with the mappings of `mm_` -/
  memoryMappingsPhys_ : Block
  /-- its memory -/
  allocations_ : List Block
  /-- its registers while it does not run -/
  context_ : Registers
  /-- what it exited with -/
  exitCode_ : Word
  /-- the objects it has open, by index -/
  objects_ : ℕ → Option KernelObject
  /-- where its image is -/
  imageBase_ : Word
  /-- the next process in the list -/
  next_ : Option ℕ

/-- The constructor. -/
def UserProcess.new (memoryMappingsPhys : Block) (mm : MemoryManager) (next : Option ℕ) :
    UserProcess where
  state_ := .created
  mm_ := mm
  memoryMappingsPhys_ := memoryMappingsPhys
  allocations_ := []
  context_ := Registers.zero
  exitCode_ := 0
  objects_ := fun _ => none
  imageBase_ := 0
  next_ := next

namespace KernelMemoryManager

/-- `alloc_and_copy_section` -/
def allocAndCopySection (k : KernelMemoryManager) (proc : UserProcess) (fuel : ℕ) (virt : Word)
    (virtSize : ℕ) (type : MemoryType) (source : Image) (srcSize : ℕ) :
    Outcome (UserProcess × KernelMemoryManager) := do
  Outcome.require (proc.state_ = .created)
  Outcome.require (virt &&& 0xfff = 0)
  let physSize := roundUp virtSize
  let (phys, k) ← k.allocPhysical physSize
  let k := if srcSize ≠ 0 then
    { k with mem := memcpy k.mem phys.ptr (min virtSize srcSize) source } else k
  let (_, mm, k) ← k.mapMemory proc.mm_ fuel virt (BitVec.ofNat 64 physSize) type
    (BitVec.ofNat 64 phys.ptr)
  pure ({ proc with mm_ := mm, allocations_ := proc.allocations_ ++ [phys] }, k)

/-- The loop over the sections of `alloc_and_map_user_exe`. -/
def mapSections (fuel : ℕ) (image : Image) :
    List SectionHeader → UserProcess → KernelMemoryManager →
      Outcome (UserProcess × KernelMemoryManager)
  | [], proc, k => .done (proc, k)
  | s :: sections, proc, k => do
    let (proc, k) ← k.allocAndCopySection proc fuel
      (image.imageBase + BitVec.ofNat 64 s.virtualAddress) s.virtualSize
      (sectionMemoryType s.characteristics ||| MemoryType.user)
      (fun i => image (s.pointerToRawData + i)) s.sizeOfRawData
    mapSections fuel image sections proc k

/-- `alloc_and_map_user_exe` -/
def allocAndMapUserExe (k : KernelMemoryManager) (proc : UserProcess) (fuel : ℕ) (image : Image) :
    Outcome (UserProcess × KernelMemoryManager) := do
  Outcome.require image.Is64bitExe
  -- the headers
  let (proc, k) ← k.allocAndCopySection proc fuel image.imageBase image.sizeOfHeaders
    (MemoryType.read ||| MemoryType.user) image image.sizeOfHeaders
  -- the sections
  let (proc, k) ← mapSections fuel image image.sections proc k
  -- the stack
  Outcome.require (image.sizeOfStackCommit ≤ 0x8000)
  let (proc, k) ← k.allocAndCopySection proc fuel (image.imageBase - 0x8000) 0x8000
    (MemoryType.read ||| MemoryType.write ||| MemoryType.user) (fun _ => 0) 0
  -- the image base
  Outcome.require (proc.state_ = .created)
  Outcome.require (proc.imageBase_ = 0)
  let proc := { proc with imageBase_ := image.imageBase }
  -- the context
  Outcome.require (proc.state_ ≠ .exited)
  pure ({ proc with context_ := { proc.context_ with
    cs := 0x23
    rip := image.imageBase + BitVec.ofNat 64 image.addressOfEntryPoint
    ss := 0x1b
    rsp := image.imageBase - 0x28
    eflags := 2 } }, k)

end KernelMemoryManager

end Attos
