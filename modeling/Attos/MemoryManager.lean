import Attos.Lib.RadixTable
import Attos.Tree

/-!
# The memory manager

`memory_manager_base` of `kernel/mm.cpp`: it records mappings of virtual
addresses in a tree and writes x86-64 page tables for them.

Physical memory is a function from a page and an index to the 64-bit word
there; a page is named by its physical address, which is what a table pointer
is up to the constant offset of the identity map. The pages that
`alloc_physical` will hand out next are part of the state, as is the list of
those it has handed out to this manager. The objects of type `memory_mapping`
are named by their offset in the page that holds them.
-/

namespace Attos

open Lib

/-- A `uint64_t`. -/
abbrev Word : Type := BitVec 64

/-! ## Flags and types -/

namespace PageFlag

/-- `PAGEF_PRESENT` -/
def present : Word := 0x1

/-- `PAGEF_WRITE` -/
def write : Word := 0x2

/-- `PAGEF_USER` -/
def user : Word := 0x4

/-- `PAGEF_PWT` -/
def pwt : Word := 0x8

/-- `PAGEF_PCD` -/
def pcd : Word := 0x10

/-- `PAGEF_ACCESSED` -/
def accessed : Word := 0x20

/-- `PAGEF_DIRTY` -/
def dirty : Word := 0x40

/-- `PAGEF_PAGESIZE` -/
def pagesize : Word := 0x80

/-- `PAGEF_NX` -/
def nx : Word := 0x8000000000000000

end PageFlag

/-- A `memory_type`: a set of flags. -/
abbrev MemoryType : Type := BitVec 32

namespace MemoryType

/-- `memory_type::read` -/
def read : MemoryType := 0x0001

/-- `memory_type::write` -/
def write : MemoryType := 0x0002

/-- `memory_type::execute` -/
def execute : MemoryType := 0x0004

/-- `memory_type::user` -/
def user : MemoryType := 0x0008

/-- `memory_type::cache_disable` -/
def cacheDisable : MemoryType := 0x0010

/-- `memory_type::ps_2mb` -/
def ps2mb : MemoryType := 0x1000

/-- `memory_type::ps_1gb` -/
def ps1gb : MemoryType := 0x2000

/-- `static_cast<uint32_t>(type & flag)` as a condition. -/
def Has (type flag : MemoryType) : Prop := type &&& flag ≠ 0

instance (type flag : MemoryType) : Decidable (type.Has flag) :=
  inferInstanceAs (Decidable (_ ≠ _))

/-- `memory_type_page_size` -/
def pageSize (type : MemoryType) : Word :=
  if type.Has ps1gb then 0x40000000 else if type.Has ps2mb then 0x200000 else 0x1000

end MemoryType

/-! ## Addresses -/

/-- `pml4e()` -/
def pml4e (virt : Word) : ℕ := ((virt >>> 39) &&& 0x1ff).toNat

/-- `pdpe()` -/
def pdpe (virt : Word) : ℕ := ((virt >>> 30) &&& 0x1ff).toNat

/-- `pde()` -/
def pde (virt : Word) : ℕ := ((virt >>> 21) &&& 0x1ff).toNat

/-- `pte()` -/
def pte (virt : Word) : ℕ := ((virt >>> 12) &&& 0x1ff).toNat

/-- `memory_areas_overlap` -/
def MemoryAreasOverlap (start₁ len₁ start₂ len₂ : Word) : Prop :=
  let fin := if start₂ + len₂ < start₁ + len₁ then start₂ + len₂ else start₁ + len₁
  let start := if start₁ < start₂ then start₂ else start₁
  0 < (fin - start).toInt

instance (start₁ len₁ start₂ len₂ : Word) :
    Decidable (MemoryAreasOverlap start₁ len₁ start₂ len₂) :=
  inferInstanceAs (Decidable (_ < _))

/-! ## Page tables -/

/-- The words of physical memory, by page and index. -/
abbrev PhysicalMemory : Type := Word → ℕ → Word

/-- `table_entry` -/
def tableEntry (tableValue : Word) : Word := tableValue &&& ~~~(PageFlag.nx ||| 0xfff)

/-- The `REQUIRE` of `present_table_entry`. -/
def Present (tableValue : Word) : Prop := tableValue &&& PageFlag.present ≠ 0

instance (tableValue : Word) : Decidable (Present tableValue) :=
  inferInstanceAs (Decidable (_ ≠ _))

/-- `entry & PAGEF_PAGESIZE` as a condition. -/
def Large (tableValue : Word) : Prop := tableValue &&& PageFlag.pagesize ≠ 0

instance (tableValue : Word) : Decidable (Large tableValue) :=
  inferInstanceAs (Decidable (_ ≠ _))

/-- `present_table_entry` -/
def presentTableEntry (tableValue : Word) : Outcome Word := do
  Outcome.require (Present tableValue)
  pure (tableEntry tableValue)

/-- The physical address that an entry for a page of size `size` gives. -/
def leafAddress (entry virt size : Word) : Word :=
  (entry &&& ~~~(PageFlag.nx ||| (size - 1))) ||| (virt &&& (size - 1))

/-- `virt_to_phys` -/
def virtToPhys (mem : PhysicalMemory) (pml4 virt : Word) : Outcome Word := do
  let pml4e := mem (tableEntry pml4) (pml4e virt)
  Outcome.require (Present pml4e)
  let pdpe := mem (tableEntry pml4e) (pdpe virt)
  Outcome.require (Present pdpe)
  if Large pdpe then
    pure (leafAddress pdpe virt 0x40000000)
  else do
    let pde := mem (tableEntry pdpe) (pde virt)
    Outcome.require (Present pde)
    if Large pde then
      pure (leafAddress pde virt 0x200000)
    else do
      let pte := mem (tableEntry pde) (pte virt)
      Outcome.require (Present pte)
      pure (leafAddress pte virt 0x1000)

/-! ## The manager -/

/-- `memory_mapping` -/
structure MemoryMapping : Type where
  /-- first virtual address -/
  addr_ : Word
  /-- number of bytes -/
  length_ : Word
  /-- type -/
  type_ : MemoryType
  deriving Inhabited

/-- `sizeof(memory_mapping)` -/
def sizeofMemoryMapping : ℕ := 48

/-- `memory_manager_base` -/
structure MemoryManager : Type where
  /-- physical memory -/
  mem : PhysicalMemory
  /-- the pages that `alloc_physical` hands out next -/
  pool : List Word
  /-- the pages it has handed out to this manager as tables -/
  used : List Word
  /-- the objects in the page of the mappings -/
  mappings : ℕ → MemoryMapping
  /-- the number of bytes of this page in use -/
  cur_ : ℕ
  /-- the recorded mappings -/
  memoryMapTree_ : Tree ℕ
  /-- the root table -/
  pml4_ : Word
  /-- where the next virtual addresses are allocated -/
  freeVirtBase_ : Word

namespace MemoryManager

/-- `memory_mapping::compare` -/
def compare (s : MemoryManager) (l r : ℕ) : Prop := (s.mappings l).addr_ < (s.mappings r).addr_

instance (s : MemoryManager) : DecidableRel s.compare := fun l r =>
  inferInstanceAs (Decidable ((s.mappings l).addr_ < (s.mappings r).addr_))

/-- Write a word of a table. -/
def writeEntry (s : MemoryManager) (table : Word) (i : ℕ) (value : Word) : MemoryManager :=
  { s with mem := RadixTable.write s.mem table i value }

/-- `alloc_table`: a page of `alloc_physical`, which clears it. -/
def allocTable (s : MemoryManager) : Outcome (Word × MemoryManager) :=
  match s.pool with
  | [] => .abort
  | page :: pool =>
    .done (page, { s with
      mem := fun p i => if p = page then 0 else s.mem p i
      pool := pool
      used := page :: s.used })

/-- `alloc_table_entry` for the entry `i` of `table`. -/
def allocTableEntry (s : MemoryManager) (table : Word) (i : ℕ) (flags : Word) :
    Outcome (Word × MemoryManager) := do
  let (page, s) ← s.allocTable
  pure (page, s.writeEntry table i (page ||| flags))

/-- The `check_mask` of `alloc_if_not_present`. -/
def checkMask : Word := (PageFlag.nx ||| 0xfff) &&& ~~~(PageFlag.accessed ||| PageFlag.dirty)

/-- `alloc_if_not_present` for the entry `i` of `table`. -/
def allocIfNotPresent (s : MemoryManager) (table : Word) (i : ℕ) (flags : Word) :
    Outcome (Word × MemoryManager) :=
  let parent := s.mem table i
  if Present parent then do
    Outcome.require (parent &&& checkMask = flags &&& checkMask)
    pure (tableEntry parent, s)
  else
    s.allocTableEntry table i flags

/-- `virtual_alloc` -/
def virtualAlloc (s : MemoryManager) (length : Word) : Outcome (Word × MemoryManager) := do
  Outcome.require (length &&& 0xfff = 0)
  let addr := s.freeVirtBase_
  Outcome.require (addr ≤ s.freeVirtBase_ + length)
  pure (addr, { s with freeVirtBase_ := s.freeVirtBase_ + length })

/-- `map_alloc_virt` -/
def mapAllocVirt : Word := -1

/-- `map_alloc_virt_close_to_kernel` -/
def mapAllocVirtCloseToKernel : Word := -2

/-- The virtual address of a request: the given one, or an allocated one. -/
def chooseVirt (s : MemoryManager) (virt length : Word) : Outcome (Word × MemoryManager) :=
  if virt = mapAllocVirt ∨ virt = mapAllocVirtCloseToKernel then s.virtualAlloc length
  else .done (virt, s)

/-- The loop of `find_if`, from the node `it` on. -/
def findLoop (s : MemoryManager) (addr length : Word) : ℕ → Option ℕ → Outcome (Option ℕ)
  | 0, _ => .running
  | _ + 1, none => .done none
  | fuel + 1, some m =>
    if MemoryAreasOverlap addr length (s.mappings m).addr_ (s.mappings m).length_ then
      .done (some m)
    else do
      let next ← s.memoryMapTree_.successorNode fuel (some m)
      s.findLoop addr length fuel next

/-- `find_mapping` -/
def findMapping (s : MemoryManager) (fuel : ℕ) (addr length : Word) : Outcome (Option ℕ) := do
  let first ← s.memoryMapTree_.begin fuel
  s.findLoop addr length fuel first

/-- `memory_mappings_.construct` -/
def construct (s : MemoryManager) (addr length : Word) (type : MemoryType) :
    Outcome (ℕ × MemoryManager) := do
  Outcome.require (s.cur_ + sizeofMemoryMapping ≤ 4096)
  Outcome.require (length ≠ 0)
  pure (s.cur_, { s with
    mappings := Function.update s.mappings s.cur_ ⟨addr, length, type⟩
    cur_ := s.cur_ + sizeofMemoryMapping
    memoryMapTree_ := ((s.memoryMapTree_.setParent s.cur_ none).setLeft s.cur_ none).setRight
      s.cur_ none })

/-- The `flags` of `do_map_memory`. -/
def tableFlags (type : MemoryType) : Word :=
  PageFlag.present ||| if type.Has MemoryType.user then PageFlag.user else 0

/-- The `page_flags` of `do_map_memory`. -/
def pageFlags (type : MemoryType) : Word :=
  tableFlags type ||| (if type.Has MemoryType.write then PageFlag.write else 0) |||
    (if type.Has MemoryType.execute then 0 else PageFlag.nx) |||
    if type.Has MemoryType.cacheDisable then PageFlag.pwt ||| PageFlag.pcd else 0

/-- The loop body of `do_map_memory`: map one page. -/
def mapPage (s : MemoryManager) (virt : Word) (type : MemoryType) (phys : Word) :
    Outcome MemoryManager := do
  let flags := tableFlags type ||| PageFlag.write
  let (pdp, s) ← s.allocIfNotPresent s.pml4_ (pml4e virt) flags
  if type.Has MemoryType.ps1gb then
    pure (s.writeEntry pdp (pdpe virt) (phys ||| PageFlag.pagesize ||| pageFlags type))
  else do
    let (pd, s) ← s.allocIfNotPresent pdp (pdpe virt) flags
    if type.Has MemoryType.ps2mb then
      pure (s.writeEntry pd (pde virt) (phys ||| PageFlag.pagesize ||| pageFlags type))
    else do
      let (pt, s) ← s.allocIfNotPresent pd (pde virt) flags
      pure (s.writeEntry pt (pte virt) (phys ||| pageFlags type))

/-- The loop of `do_map_memory`. -/
def mapLoop (type : MemoryType) : ℕ → MemoryManager → Word → Word → Word → Outcome MemoryManager
  | 0, _, _, _, _ => .running
  | fuel + 1, s, virt, length, phys =>
    if length ≠ 0 then do
      let s ← s.mapPage virt type phys
      mapLoop type fuel s (virt + type.pageSize) (length - type.pageSize) (phys + type.pageSize)
    else
      .done s

/-- `do_map_memory` -/
def mapMemory (s : MemoryManager) (fuel : ℕ) (virt length : Word) (type : MemoryType)
    (phys : Word) : Outcome (Word × MemoryManager) := do
  let mapPageSize := type.pageSize
  Outcome.require (0 < length)
  Outcome.require (length &&& (mapPageSize - 1) = 0)
  Outcome.require (phys &&& (mapPageSize - 1) = 0)
  Outcome.require (phys < 0x100000000)
  let (virt, s) ← s.chooseVirt virt length
  Outcome.require (virt &&& (mapPageSize - 1) = 0)
  Outcome.require (virt < virt + length)
  let it ← s.findMapping fuel virt length
  Outcome.require (it = none)
  Outcome.require (type.Has MemoryType.read)
  let (mm, s) ← s.construct virt length type
  let tree ← s.memoryMapTree_.insert s.compare fuel mm
  let s ← mapLoop type fuel { s with memoryMapTree_ := tree } virt length phys
  pure (virt, s)

/-- The loop body of `do_unmap_memory`: clear the entry of one page. -/
def unmapPage (s : MemoryManager) (virt : Word) (type : MemoryType) : Outcome MemoryManager := do
  let pdp ← presentTableEntry (s.mem s.pml4_ (pml4e virt))
  if type.Has MemoryType.ps1gb then
    pure (s.writeEntry pdp (pdpe virt) 0)
  else do
    let pd ← presentTableEntry (s.mem pdp (pdpe virt))
    if type.Has MemoryType.ps2mb then
      pure (s.writeEntry pd (pde virt) 0)
    else do
      let pt ← presentTableEntry (s.mem pd (pde virt))
      pure (s.writeEntry pt (pte virt) 0)

/-- The loop of `do_unmap_memory`. -/
def unmapLoop (type : MemoryType) : ℕ → MemoryManager → Word → Word → Outcome MemoryManager
  | 0, _, _, _ => .running
  | fuel + 1, s, virt, length =>
    if length ≠ 0 then do
      let s ← s.unmapPage virt type
      unmapLoop type fuel s (virt + type.pageSize) (length - type.pageSize)
    else
      .done s

/-- `do_unmap_memory` -/
def unmapMemory (s : MemoryManager) (fuel : ℕ) (virt length : Word) : Outcome MemoryManager := do
  let it ← s.findMapping fuel virt length
  let mm ← Outcome.requireSome it
  let type := (s.mappings mm).type_
  Outcome.require ((s.mappings mm).length_ = length)
  let tree ← s.memoryMapTree_.remove fuel mm
  let s ← unmapLoop type fuel { s with memoryMapTree_ := tree } virt length
  let tree ← s.memoryMapTree_.remove fuel mm
  pure { s with memoryMapTree_ := tree }

end MemoryManager

end Attos
