import Attos.Lib.Reach
import Attos.PageTables

/-!
# Runs of the memory manager: mapping

A run starts with a constructed manager and maps and unmaps ranges, in any
order; in between the rest of the system writes to its own pages and allocates
from `alloc_physical`. Unmapping a range that is not the range of a mapping can
clear a word of any page, so also one of the page with the recorded mappings,
and a run can change these at will. The page tables survive all of this
(`reachable_tables`), which is what makes mapping correct
(`mapMemory_translates`).
-/

namespace Attos

open Lib

namespace MemoryManager

/-- A manager right after its constructor. -/
structure Init (s : MemoryManager) : Prop where
  /-- the root table is a page -/
  isPage : IsPage s.pml4_
  /-- the only one handed out -/
  used : s.used = [s.pml4_]
  /-- which is clear -/
  clear : ∀ i, s.mem s.pml4_ i = 0
  /-- the other pages are fresh -/
  pool : FreshPages s.pool s.used
  /-- nothing is recorded -/
  root : s.memoryMapTree_.root_ = none

/-- The memory outside the tables changes, and the pages that are free. -/
structure Elsewhere (s s' : MemoryManager) : Prop where
  /-- tables do not change -/
  mem : ∀ p ∈ s.used, ∀ i, s'.mem p i = s.mem p i
  /-- the free pages are fresh -/
  pool : FreshPages s'.pool s.used
  /-- nothing else changes -/
  eq : s' = { s with mem := s'.mem, pool := s'.pool }

/-- The records of the mappings change. -/
def RecordsOnly (s s' : MemoryManager) : Prop :=
  s' = { s with mappings := s'.mappings, memoryMapTree_ := s'.memoryMapTree_ }

/-- A call returns, or something outside the tables changes. -/
inductive Step : MemoryManager → MemoryManager → Prop where
  /-- a range is mapped -/
  | map {s s' : MemoryManager} {fuel : ℕ} {virt length phys ret : Word} {type : MemoryType} :
      s.mapMemory fuel virt length type phys = .done (ret, s') → Step s s'
  /-- a range is unmapped -/
  | unmap {s s' : MemoryManager} {fuel : ℕ} {virt length : Word} :
      s.unmapMemory fuel virt length = .done s' → Step s s'
  /-- other pages change -/
  | elsewhere {s s' : MemoryManager} : Elsewhere s s' → Step s s'
  /-- the page of the mappings changes -/
  | records {s s' : MemoryManager} : RecordsOnly s s' → Step s s'

/-- The states of all runs. -/
abbrev Reachable : MemoryManager → Prop := Reach Init Step

variable {s s' : MemoryManager} {level : Word → Option ℕ} {fuel : ℕ} {virt length phys ret : Word}
  {type : MemoryType}

/-! ## The tables of a run -/

/-- The two states have the same tables. -/
structure SameTables (s s' : MemoryManager) : Prop where
  /-- the same memory -/
  mem : s'.mem = s.mem
  /-- the same free pages -/
  pool : s'.pool = s.pool
  /-- the same pages in use -/
  used : s'.used = s.used
  /-- the same root -/
  pml4_ : s'.pml4_ = s.pml4_

theorem SameTables.entryAt (h : SameTables s s') : s'.entryAt = s.entryAt := by
  unfold MemoryManager.entryAt
  rw [h.mem, h.pml4_]

theorem Tables.congr (h : Tables s level) (hs : SameTables s s') : Tables s' level where
  forest := hs.mem ▸ h.forest
  root := hs.pml4_ ▸ h.root
  isPage := hs.pml4_ ▸ h.isPage
  used := hs.used ▸ h.used
  pool := hs.used ▸ hs.pool ▸ h.pool

/-- The constructed manager has one table. -/
theorem Init.tables (h : Init s) : ∃ level, Tables s level := by
  have hpages : ∀ {p n}, (if p = s.pml4_ then some 4 else none) = some n → p = s.pml4_ ∧ n = 4 := by
    intro p n hp
    split_ifs at hp with heq
    exact ⟨heq, (Option.some.inj hp).symm⟩
  have hclear : ∀ {p q i n}, (if p = s.pml4_ then some 4 else none) = some n →
      kind n (s.mem p i) ≠ .table q := by
    intro p q i n hp
    obtain ⟨rfl, rfl⟩ := hpages hp
    rw [h.clear]
    exact kind_zero_ne_table 4 q
  refine ⟨fun p => if p = s.pml4_ then some 4 else none, ⟨?_, ?_⟩, if_pos rfl, h.isPage, ?_, h.pool⟩
  · intro p q i n hp hq
    exact absurd hq (hclear hp)
  · intro p p' q i i' n n' hp _ hq _
    exact absurd hq (hclear hp)
  · intro p n hp
    rw [h.used, (hpages hp).1]
    exact List.mem_singleton_self _

/-- The tables do not see changes outside them. -/
theorem Tables.elsewhere (h : Tables s level) (he : Elsewhere s s') : Tables s' level := by
  have hforest : RadixTable.Forest kind level s'.mem :=
    h.forest.mono fun p n i hp => .inl (he.mem p (h.used hp) i)
  have hpool := he.pool
  rw [he.eq]
  exact ⟨hforest, h.root, h.isPage, h.used, hpool⟩

/-! ## Mapping a range -/

/-- The search sees only the records. -/
theorem findMapping_congr (hm : s'.mappings = s.mappings)
    (ht : s'.memoryMapTree_ = s.memoryMapTree_) (fuel : ℕ) (addr length : Word) :
    s'.findMapping fuel addr length = s.findMapping fuel addr length := by
  have hloop : ∀ fuel it, s'.findLoop addr length fuel it = s.findLoop addr length fuel it := by
    intro fuel
    induction fuel with
    | zero => exact fun _ => rfl
    | succ fuel ih =>
      intro it
      cases it with
      | none => rfl
      | some m => simp only [findLoop, hm, ht, ih]
  simp only [findMapping, ht, hloop]

/-- A mapping is recorded: nothing overlaps it, and it is inserted in the tree. -/
structure Recorded (s : MemoryManager) (fuel : ℕ) (addr length : Word) (type : MemoryType)
    (s' : MemoryManager) : Prop where
  /-- no mapping overlaps the range -/
  find : s.findMapping fuel addr length = .done none
  /-- the record -/
  mappings : s'.mappings = Function.update s.mappings s.cur_ ⟨addr, length, type⟩
  /-- behind the other ones -/
  cur_ : s'.cur_ = s.cur_ + sizeofMemoryMapping
  /-- is in the tree -/
  tree : (((s.memoryMapTree_.setParent s.cur_ none).setLeft s.cur_ none).setRight s.cur_ none).insert
    s'.compare fuel s.cur_ = .done s'.memoryMapTree_

/-- What a call of `do_map_memory` that returns has checked and done. -/
structure Mapped (s : MemoryManager) (fuel : ℕ) (length : Word) (type : MemoryType) (phys ret : Word)
    (s' : MemoryManager) : Prop where
  /-- the length is a number of pages -/
  length_mod : length.toNat % type.pageSize.toNat = 0
  /-- the physical address is that of a page -/
  phys_mod : phys.toNat % type.pageSize.toNat = 0
  /-- below 4 GB -/
  phys_lt : phys.toNat < 2 ^ 32
  /-- the virtual address is that of a page -/
  ret_mod : ret.toNat % type.pageSize.toNat = 0
  /-- the length is not zero -/
  length_ne : length ≠ 0
  /-- the range does not wrap around -/
  no_wrap : ret.toNat + length.toNat < 2 ^ 64
  /-- the mapping is recorded, and then its pages are mapped -/
  run : ∃ s₁, SameTables s s₁ ∧ Recorded s fuel ret length type s₁ ∧
    mapLoop type fuel s₁ ret length phys = .done s'

theorem chooseVirt_eq_done (h : s.chooseVirt virt length = .done (ret, s')) :
    s' = { s with freeVirtBase_ := s'.freeVirtBase_ } := by
  rw [chooseVirt] at h
  split_ifs at h
  · rw [virtualAlloc] at h
    obtain ⟨-, h⟩ := Outcome.require_bind_eq_done.mp h
    obtain ⟨-, h⟩ := Outcome.require_bind_eq_done.mp h
    cases h
    rfl
  · cases h
    rfl

/-- Where the range of a call of `do_map_memory` starts. -/
def mapStart (s : MemoryManager) (virt : Word) : Word :=
  if virt = mapAllocVirt ∨ virt = mapAllocVirtCloseToKernel then s.freeVirtBase_ else virt

theorem chooseVirt_start (h : s.chooseVirt virt length = .done (ret, s')) : ret = s.mapStart virt := by
  rw [chooseVirt] at h
  rw [mapStart]
  split_ifs at h ⊢
  · rw [virtualAlloc] at h
    obtain ⟨-, h⟩ := Outcome.require_bind_eq_done.mp h
    obtain ⟨-, h⟩ := Outcome.require_bind_eq_done.mp h
    cases h
    rfl
  · cases h
    rfl

/-- `construct` changes the records. -/
theorem construct_eq_done {mm : ℕ} (h : s.construct virt length type = .done (mm, s')) :
    mm = s.cur_ ∧ length ≠ 0 ∧ SameTables s s' ∧
      s'.mappings = Function.update s.mappings s.cur_ ⟨virt, length, type⟩ ∧
      s'.cur_ = s.cur_ + sizeofMemoryMapping ∧
      s'.memoryMapTree_ = ((s.memoryMapTree_.setParent s.cur_ none).setLeft s.cur_ none).setRight
        s.cur_ none := by
  rw [construct] at h
  obtain ⟨-, h⟩ := Outcome.require_bind_eq_done.mp h
  obtain ⟨hne, h⟩ := Outcome.require_bind_eq_done.mp h
  cases h
  exact ⟨rfl, hne, ⟨rfl, rfl, rfl, rfl⟩, rfl, rfl, rfl⟩

/-- Inversion for `do_map_memory`. -/
theorem mapMemory_eq_done (h : s.mapMemory fuel virt length type phys = .done (ret, s')) :
    Mapped s fuel length type phys ret s' := by
  rw [mapMemory] at h
  obtain ⟨-, h⟩ := Outcome.require_bind_eq_done.mp h
  obtain ⟨hlength, h⟩ := Outcome.require_bind_eq_done.mp h
  obtain ⟨hphys, h⟩ := Outcome.require_bind_eq_done.mp h
  obtain ⟨hlt, h⟩ := Outcome.require_bind_eq_done.mp h
  obtain ⟨⟨virt', s₁⟩, hchoose, h⟩ := Outcome.bind_eq_done.mp h
  obtain ⟨hvirt, h⟩ := Outcome.require_bind_eq_done.mp h
  obtain ⟨hwrap, h⟩ := Outcome.require_bind_eq_done.mp h
  obtain ⟨it, hfind, h⟩ := Outcome.bind_eq_done.mp h
  obtain ⟨hnone, h⟩ := Outcome.require_bind_eq_done.mp h
  obtain ⟨-, h⟩ := Outcome.require_bind_eq_done.mp h
  obtain ⟨⟨mm, s₂⟩, hconstruct, h⟩ := Outcome.bind_eq_done.mp h
  obtain ⟨tree, hinsert, h⟩ := Outcome.bind_eq_done.mp h
  obtain ⟨s₃, hloop, h⟩ := Outcome.bind_eq_done.mp h
  cases h
  have hbase := chooseVirt_eq_done hchoose
  obtain ⟨rfl, hne, hsame, hmappings, hcur, htree⟩ := construct_eq_done hconstruct
  have hsame' : SameTables s { s₂ with memoryMapTree_ := tree } := by
    rw [hbase] at hsame
    exact ⟨hsame.mem, hsame.pool, hsame.used, hsame.pml4_⟩
  rw [hnone] at hfind
  rw [htree] at hinsert
  rw [hbase] at hmappings hcur hinsert hfind
  have hfind' : s.findMapping fuel ret length = .done none := by
    rw [← hfind]
    exact (findMapping_congr (by rfl) (by rfl) fuel ret length).symm
  have hwrap' : ret.toNat + length.toNat < 2 ^ 64 := by
    rw [BitVec.lt_def, BitVec.toNat_add] at hwrap
    have hlen := length.isLt
    omega
  exact ⟨and_pageSize_eq_zero.mp hlength, and_pageSize_eq_zero.mp hphys, hlt,
    and_pageSize_eq_zero.mp hvirt, hne, hwrap', { s₂ with memoryMapTree_ := tree }, hsame',
    ⟨hfind', hmappings, hcur, hinsert⟩, hloop⟩

/-- A mapped range starts where the request says. -/
theorem mapMemory_ret (h : s.mapMemory fuel virt length type phys = .done (ret, s')) :
    ret = s.mapStart virt := by
  rw [mapMemory] at h
  obtain ⟨-, h⟩ := Outcome.require_bind_eq_done.mp h
  obtain ⟨-, h⟩ := Outcome.require_bind_eq_done.mp h
  obtain ⟨-, h⟩ := Outcome.require_bind_eq_done.mp h
  obtain ⟨-, h⟩ := Outcome.require_bind_eq_done.mp h
  obtain ⟨⟨start, s₁⟩, hchoose, h⟩ := Outcome.bind_eq_done.mp h
  obtain ⟨-, h⟩ := Outcome.require_bind_eq_done.mp h
  obtain ⟨-, h⟩ := Outcome.require_bind_eq_done.mp h
  obtain ⟨it, -, h⟩ := Outcome.bind_eq_done.mp h
  obtain ⟨-, h⟩ := Outcome.require_bind_eq_done.mp h
  obtain ⟨-, h⟩ := Outcome.require_bind_eq_done.mp h
  obtain ⟨⟨mm, s₂⟩, -, h⟩ := Outcome.bind_eq_done.mp h
  obtain ⟨tree, -, h⟩ := Outcome.bind_eq_done.mp h
  obtain ⟨s₃, -, h⟩ := Outcome.bind_eq_done.mp h
  cases h
  exact chooseVirt_start hchoose

theorem Mapped.tables (hm : Mapped s fuel length type phys ret s') (h : Tables s level) :
    (∃ level', Tables s' level') ∧ s'.pml4_ = s.pml4_ := by
  obtain ⟨s₁, hsame, -, hloop⟩ := hm.run
  obtain ⟨level', ht, hr⟩ := (h.congr hsame).mapLoop hloop
  exact ⟨⟨level', ht⟩, hr.pml4_eq.trans hsame.pml4_⟩

theorem Mapped.mappings (hm : Mapped s fuel length type phys ret s') (h : Tables s level) :
    s'.mappings = Function.update s.mappings s.cur_ ⟨ret, length, type⟩ := by
  obtain ⟨s₁, hsame, hrec, hloop⟩ := hm.run
  obtain ⟨-, -, hr⟩ := (h.congr hsame).mapLoop hloop
  rw [hr, ← hrec.mappings]

/-- **The range is mapped** and no other translation changes. -/
theorem Mapped.mapsTo (hm : Mapped s fuel length type phys ret s') (h : Tables s level)
    (hhalf : InHalf ret length) :
    (∀ v, Canonical v → InRange ret length v → s'.MapsTo type v (phys + (v - ret))) ∧
      ∀ v, Canonical v → ¬ InRange ret length v →
        s'.entryAt (indices v) = s.entryAt (indices v) := by
  obtain ⟨s₁, hsame, -, hloop⟩ := hm.run
  have hlt : phys.toNat + length.toNat < 2 ^ 63 := by
    have hphys := hm.phys_lt
    rw [InHalf] at hhalf
    omega
  rw [← hsame.entryAt]
  exact (h.congr hsame).mapLoop_mapsTo hm.ret_mod hm.length_mod hm.phys_mod hhalf hlt hloop

/-- So `virt_to_phys` finds the range, and does what it did before for all other addresses. -/
theorem Mapped.translates (hm : Mapped s fuel length type phys ret s') (h : Tables s level) (hhalf : InHalf ret length) :
    (∀ v, InRange ret length v → virtToPhys s'.mem s'.pml4_ v = .done (phys + (v - ret))) ∧
      ∀ v, Canonical v → ¬ InRange ret length v →
        virtToPhys s'.mem s'.pml4_ v = virtToPhys s.mem s.pml4_ v := by
  obtain ⟨⟨level', h'⟩, -⟩ := hm.tables h
  obtain ⟨hin, hout⟩ := hm.mapsTo h hhalf
  refine ⟨?_, ?_⟩
  · intro v hv
    rw [h'.virtToPhys]
    exact (hin v (hhalf.canonical hv) hv).translation
  · intro v hc hv
    rw [h'.virtToPhys, h.virtToPhys, hout v hc hv]

/-! ## Unmapping a range -/

/-- Unmapping keeps the tables, whatever range is unmapped. -/
theorem unmapMemory_tables (h : Tables s level) (hrun : s.unmapMemory fuel virt length = .done s') :
    Tables s' level := by
  rw [unmapMemory] at hrun
  obtain ⟨it, -, hrun⟩ := Outcome.bind_eq_done.mp hrun
  obtain ⟨mm, -, hrun⟩ := Outcome.bind_eq_done.mp hrun
  obtain ⟨-, hrun⟩ := Outcome.require_bind_eq_done.mp hrun
  obtain ⟨tree, -, hrun⟩ := Outcome.bind_eq_done.mp hrun
  obtain ⟨s₁, hloop, hrun⟩ := Outcome.bind_eq_done.mp hrun
  obtain ⟨tree', -, hrun⟩ := Outcome.bind_eq_done.mp hrun
  cases hrun
  have h₀ : Tables { s with memoryMapTree_ := tree } level := h.congr ⟨rfl, rfl, rfl, rfl⟩
  exact (h₀.unmapLoop hloop).1.congr ⟨rfl, rfl, rfl, rfl⟩

/-! ## Every run -/

/-- **The tables of every reachable state** are a forest of its own pages. -/
theorem reachable_tables (hs : Reachable s) : ∃ level, Tables s level := by
  refine Reach.invariant (fun s => ∃ level, Tables s level) hs (fun s h => h.tables) ?_
  rintro s s' ⟨level, h⟩ hstep
  cases hstep with
  | map hrun => exact ((mapMemory_eq_done hrun).tables h).1
  | unmap hrun => exact ⟨level, unmapMemory_tables h hrun⟩
  | elsewhere he => exact ⟨level, h.elsewhere he⟩
  | records hr =>
    rw [hr]
    exact ⟨level, h.congr ⟨rfl, rfl, rfl, rfl⟩⟩

/-- **Mapping is correct.** When `do_map_memory` returns in a reachable state and
its range is in one half, `virt_to_phys` gives the physical address of each
address in the range, and does for every other canonical address what it did
before. -/
theorem mapMemory_translates (hs : Reachable s)
    (hrun : s.mapMemory fuel virt length type phys = .done (ret, s')) (hhalf : InHalf ret length) :
    (∀ v, InRange ret length v → virtToPhys s'.mem s'.pml4_ v = .done (phys + (v - ret))) ∧
      ∀ v, Canonical v → ¬ InRange ret length v →
        virtToPhys s'.mem s'.pml4_ v = virtToPhys s.mem s.pml4_ v := by
  obtain ⟨level, h⟩ := reachable_tables hs
  exact (mapMemory_eq_done hrun).translates h hhalf

/-- A manager with a clear root table at `0x1000` and three free pages. -/
def fresh : MemoryManager where
  mem := fun _ _ => 0
  pool := [0x2000, 0x3000, 0x4000]
  used := [0x1000]
  mappings := fun _ => ⟨0, 0, 0⟩
  cur_ := 0
  memoryMapTree_ := ⟨fun _ => none, fun _ => none, fun _ => none, none⟩
  pml4_ := 0x1000
  freeVirtBase_ := 0x40000000

theorem fresh_init : Init fresh where
  isPage := by decide
  used := rfl
  clear _ := rfl
  pool := by
    refine ⟨by simp [fresh], fun p hp => ?_⟩
    simp only [fresh, List.mem_cons, List.not_mem_nil, or_false] at hp
    rcases hp with rfl | rfl | rfl <;> exact ⟨by decide, by simp [fresh]⟩
  root := rfl

/-- Map two pages for reading and writing. -/
theorem mapMemory_translates_fresh :
    ∃ s', fresh.mapMemory 10 0x200000 0x2000 (MemoryType.read ||| MemoryType.write) 0x8000 =
        .done (0x200000, s') ∧
      (∀ v, InRange 0x200000 0x2000 v →
        virtToPhys s'.mem s'.pml4_ v = .done (0x8000 + (v - 0x200000))) ∧
      ∀ v, Canonical v → ¬ InRange 0x200000 0x2000 v →
        virtToPhys s'.mem s'.pml4_ v = virtToPhys fresh.mem fresh.pml4_ v := by
  have hrun : ∃ s', fresh.mapMemory 10 0x200000 0x2000 (MemoryType.read ||| MemoryType.write)
      0x8000 = .done (0x200000, s') := ⟨_, rfl⟩
  obtain ⟨s', hrun⟩ := hrun
  exact ⟨s', hrun, mapMemory_translates (.start fresh_init) hrun (by decide)⟩

end MemoryManager

end Attos
