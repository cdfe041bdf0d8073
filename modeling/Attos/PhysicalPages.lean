import Attos.DefaultMemoryManager
import Attos.Lib.Bytes
import Attos.Lib.Word
import Attos.SimpleHeapRun

/-!
# Physical memory

`alloc_physical` of `kernel_memory_manager` in `kernel/mm.cpp`: physical memory
comes in pages from a heap of free blocks, and is cleared when it is handed out.
The free list is that of `simple_heap` as a list of blocks (`takeFit`).

In every run of the heap its free blocks are as `PageBlocks` says
(`pageBlocks_of_run`).

A manager gets the pages of its tables from the same heap, one by one
(`takePages`): a call of one of its functions is run on the memory and the pages
of this moment (`enter`), and takes the pages it used with it (`leave`).

The contents of memory are also read and written as bytes (`readByte`,
`memcpy`).
-/

namespace Attos

open Lib

/-- `round_up` to a multiple of the page size. -/
def roundUp (n : ℕ) : ℕ := if n % 4096 ≠ 0 then u64 (n + 4096 - n % 4096) else n

/-- `kernel_memory_manager` -/
structure KernelMemoryManager : Type where
  /-- physical memory -/
  mem : PhysicalMemory
  /-- the free blocks of the heap of physical pages -/
  physicalPages_ : List Block
  /-- the kernel's root table -/
  pml4_ : Word

/-! ## Bytes of memory -/

/-- The byte at a physical address. -/
def readByte (mem : PhysicalMemory) (a : ℕ) : UInt8 :=
  byteOf (mem (BitVec.ofNat 64 (a / 4096 * 4096)) (a % 4096 / 8)) (a % 8)

/-- `__stosq` of zeros over whole pages. -/
def stosq (mem : PhysicalMemory) (b : Block) : PhysicalMemory := fun p i =>
  if b.ptr ≤ p.toNat ∧ p.toNat < b.fin then 0 else mem p i

/-- `memcpy` of `n` bytes to `dst`. -/
def memcpy (mem : PhysicalMemory) (dst n : ℕ) (src : ℕ → UInt8) : PhysicalMemory := fun p i =>
  if i < 512 ∧ dst < p.toNat + 8 * i + 8 ∧ p.toNat + 8 * i < dst + n then
    wordOf fun j =>
      if dst ≤ p.toNat + 8 * i + j ∧ p.toNat + 8 * i + j < dst + n then
        src (p.toNat + 8 * i + j - dst)
      else byteOf (mem p i) j
  else mem p i

variable {mem : PhysicalMemory} {a dst n : ℕ} {src : ℕ → UInt8} {b : Block} {p : Word}

theorem toNat_page (ha : a < 2 ^ 64) : (BitVec.ofNat 64 (a / 4096 * 4096)).toNat = a / 4096 * 4096 := by
  rw [BitVec.toNat_ofNat]
  exact Nat.mod_eq_of_lt (by omega)

/-- Cleared pages have zero bytes. -/
theorem readByte_stosq (hptr : 4096 ∣ b.ptr) (hsize : 4096 ∣ b.size) (ha : a ∈ b.bytes)
    (hlt : a < 2 ^ 64) : readByte (stosq mem b) a = 0 := by
  have hin : b.ptr ≤ a / 4096 * 4096 ∧ a / 4096 * 4096 < b.fin := by
    simp only [Block.mem_bytes, Block.fin] at ha ⊢
    omega
  rw [readByte, stosq]
  rw [toNat_page hlt, if_pos hin]
  simp [byteOf]

/-- The copied bytes are read. -/
theorem readByte_memcpy (ha : dst ≤ a ∧ a < dst + n) (hlt : a < 2 ^ 64) :
    readByte (memcpy mem dst n src) a = src (a - dst) := by
  have hplace : a / 4096 * 4096 + 8 * (a % 4096 / 8) + a % 8 = a := by omega
  rw [readByte, memcpy]
  rw [toNat_page hlt, if_pos (by omega), byteOf_wordOf _ (Nat.mod_lt _ (by decide))]
  simp only [hplace]
  exact if_pos ha

/-- The other bytes stay. -/
theorem readByte_memcpy_of_not (ha : ¬ (dst ≤ a ∧ a < dst + n)) (hlt : a < 2 ^ 64) :
    readByte (memcpy mem dst n src) a = readByte mem a := by
  have hplace : a / 4096 * 4096 + 8 * (a % 4096 / 8) + a % 8 = a := by omega
  rw [readByte, memcpy]
  rw [toNat_page hlt]
  split_ifs
  · rw [byteOf_wordOf _ (Nat.mod_lt _ (by decide))]
    simp only [hplace]
    exact if_neg ha
  · rfl

/-- So do the words of pages that nothing is copied to. -/
theorem memcpy_of_apart (hp : 4096 ∣ p.toNat) (hdst : 4096 ∣ dst)
    (hout : p.toNat < dst ∨ dst + n ≤ p.toNat) (i : ℕ) : memcpy mem dst n src p i = mem p i := by
  refine if_neg ?_
  omega

/-- And those of pages that are not cleared. -/
theorem stosq_of_not (hp : p.toNat ∉ b.bytes) (i : ℕ) : stosq mem b p i = mem p i := if_neg hp

/-! ## Free pages -/

/-- The address is free. -/
def IsFree (l : List Block) (a : ℕ) : Prop := ∃ b ∈ l, a ∈ b.bytes

/-- The free blocks of a heap that hands out whole pages from an address on that
is `rem` behind a page: blocks below `2^63`, in ascending order. -/
structure PageBlocks (rem : ℕ) (l : List Block) : Prop where
  /-- in order -/
  ascending : Ascending l
  /-- a number of pages apart -/
  rem_eq : ∀ b ∈ l, b.ptr % 4096 = rem
  /-- and they are real addresses -/
  bound : ∀ b ∈ l, b.fin ≤ 2 ^ 63

/-- `n` calls of `alloc_physical` for a page each: the pages, and the free blocks
that are left. -/
def takePages : ℕ → List Block → List Word × List Block
  | 0, l => ([], l)
  | n + 1, l =>
    match takeFit 4096 l with
    | none => ([], l)
    | some (page, l) => (BitVec.ofNat 64 page :: (takePages n l).1, (takePages n l).2)

namespace KernelMemoryManager

/-- `alloc_physical`: the memory it hands out, cleared. -/
def allocPhysical (k : KernelMemoryManager) (size : ℕ) : Outcome (Block × KernelMemoryManager) :=
  match takeFit (roundUp size) k.physicalPages_ with
  | none => .abort
  | some (ptr, free) => .done (⟨ptr, roundUp size⟩,
      { k with mem := stosq k.mem ⟨ptr, roundUp size⟩, physicalPages_ := free })

/-- The pages that `alloc_physical` hands out one by one. -/
def pool (k : KernelMemoryManager) : List Word :=
  (takePages ((k.physicalPages_.map Block.size).sum / 4096) k.physicalPages_).1

/-- A manager on the memory of this moment. -/
def enter (k : KernelMemoryManager) (mm : MemoryManager) : MemoryManager :=
  { mm with mem := k.mem, pool := k.pool }

/-- The memory after a call of a function of a manager. -/
def leave (k : KernelMemoryManager) (mm : MemoryManager) : KernelMemoryManager :=
  { k with
    mem := mm.mem
    physicalPages_ := (takePages (k.pool.length - mm.pool.length) k.physicalPages_).2 }

/-- `map_memory` of a `default_memory_manager` -/
def mapMemory (k : KernelMemoryManager) (mm : MemoryManager) (fuel : ℕ) (virt length : Word)
    (type : MemoryType) (phys : Word) : Outcome (Word × MemoryManager × KernelMemoryManager) := do
  let (ret, mm) ← DefaultMemoryManager.mapMemory (k.enter mm) fuel virt length type phys
  pure (ret, mm, k.leave mm)

/-- `create_default_memory_manager`: a page for the mappings, one for the root
table, and the kernel's entry in it. The page for the mappings is returned as
well. -/
def createDefaultMemoryManager (k : KernelMemoryManager) :
    Outcome (Block × MemoryManager × KernelMemoryManager) := do
  let (memoryMappingsPhys, k) ← k.allocPhysical 4096
  let (table, k) ← k.allocPhysical 4096
  let pml4 := BitVec.ofNat 64 table.ptr
  let mm := DefaultMemoryManager.create {
    mem := k.mem
    pool := k.pool
    used := [pml4]
    mappings := fun _ => ⟨0, 0, 0⟩
    cur_ := 0
    memoryMapTree_ := ⟨fun _ => none, fun _ => none, fun _ => none, none⟩
    pml4_ := pml4
    freeVirtBase_ := 0x100000 } k.pml4_
  pure (memoryMappingsPhys, mm, { k with mem := mm.mem })

end KernelMemoryManager

/-! ## Allocation -/

variable {l l' : List Block} {r : ℕ × List Block} {size rem : ℕ}

/-- Ascending blocks tile the free addresses. -/
theorem Ascending.tiles (h : Ascending l) : Tiles {a | IsFree l a} Block.bytes l where
  disjoint := h.imp fun hbc => Set.disjoint_left.mpr fun a ha ha' => by
    simp only [Block.mem_bytes] at ha ha'
    omega
  cover _ := Iff.rfl

/-- **Allocation takes free pages.** -/
theorem PageBlocks.takeFit (h : PageBlocks rem l) (hsize : 4096 ∣ size)
    (hr : takeFit size l = some r) :
    PageBlocks rem r.2 ∧ r.1 % 4096 = rem ∧ r.1 + size ≤ 2 ^ 63 ∧
      (∀ a, IsFree l a ↔ a ∈ (⟨r.1, size⟩ : Block).bytes ∨ IsFree r.2 a) ∧
      ∀ a ∈ (⟨r.1, size⟩ : Block).bytes, ¬ IsFree r.2 a := by
  obtain ⟨pre, b, post, hl, -, hle, rfl⟩ := takeFit_eq_some hr
  have hb : b ∈ l := by simp [hl]
  have hbound := h.bound b hb
  have htiles := (takeFit_retile hr {a | IsFree l a} []).mp (by simpa using h.ascending.tiles)
  rw [List.append_nil] at htiles
  have hforall : ∀ c ∈ pre ++ carve b size post, c.ptr % 4096 = rem ∧ c.fin ≤ 2 ^ 63 := by
    refine takeFit_forall hr (fun c hc => ⟨h.rem_eq c hc, h.bound c hc⟩) ?_
    rintro ⟨q, m⟩ ⟨hq, hfin⟩ hlt
    simp only [Block.fin] at hfin hlt hq ⊢
    omega
  refine ⟨⟨takeFit_ascending hr h.ascending, fun c hc => (hforall c hc).1,
    fun c hc => (hforall c hc).2⟩, h.rem_eq b hb, ?_, fun a => ?_, fun a ha hfree => ?_⟩
  · simp only [Block.fin] at hbound
    omega
  · have hcover := htiles.cover a
    simpa [IsFree] using hcover
  · obtain ⟨c, hc, hac⟩ := hfree
    exact htiles.not_mem_of_append (List.mem_singleton_self _) hc ha hac

/-- **The free blocks of the heap of physical pages** in every run in which whole
pages are handed out, on a region of real addresses. -/
theorem pageBlocks_of_run {R : Region} {s : SimpleHeap.Run} (hfin : R.fin ≤ 2 ^ 63)
    (hs : Reach (SimpleHeap.Run.Init R) (fun s s' =>
      SimpleHeap.Run.Step (fun _ _ => True) s s' ∧ ∀ b ∈ s'.live, 4096 ∣ b.size) s) :
    ∃ l, SimpleHeap.FreeList R s.heap l ∧ PageBlocks (R.base % 4096) l := by
  obtain ⟨l, hinv, hrem⟩ : ∃ l, SimpleHeap.Inv R s l ∧
      ∀ b ∈ s.live ++ l, b.ptr % 4096 = R.base % 4096 := by
    refine Reach.invariant (fun s => ∃ l, SimpleHeap.Inv R s l ∧
      ∀ b ∈ s.live ++ l, b.ptr % 4096 = R.base % 4096) hs (fun s h => ?_) ?_
    · refine ⟨_, .init h, ?_⟩
      simp [h.1]
    · rintro s s' ⟨l, hinv, hrem⟩ ⟨hstep, hpages⟩
      cases hstep with
      | @alloc h h' live size p hpos hdvd hrun =>
        obtain ⟨l', hfit, hinv'⟩ := hinv.alloc hpos hdvd hrun
        have hsize : 4096 ∣ size := hpages ⟨p, size⟩ (List.mem_cons_self ..)
        have hl' := takeFit_forall (P := fun b => b.ptr % 4096 = R.base % 4096) hfit
          (fun b hb => hrem b (List.mem_append_right _ hb)) fun b hb hlt => by
            change (b.ptr + size) % 4096 = R.base % 4096
            omega
        obtain ⟨pre, b, post, rfl, -, -, heq⟩ := takeFit_eq_some hfit
        obtain ⟨rfl, -⟩ := Prod.mk.inj heq
        refine ⟨l', hinv', ?_⟩
        rw [List.cons_append, List.forall_mem_cons, List.forall_mem_append]
        exact ⟨hrem b (by simp), fun c hc => hrem c (List.mem_append_left _ hc), hl'⟩
      | @free h h' live b hb _ hrun =>
        refine ⟨_, hinv.free hb hrun, ?_⟩
        rw [List.forall_mem_append]
        refine ⟨fun c hc => hrem c (List.mem_append_left _ (List.mem_of_mem_erase hc)), ?_⟩
        exact freeInsert_forall _ (hrem b (List.mem_append_left _ hb))
          (fun c hc => hrem c (List.mem_append_right _ hc)) fun c d hc _ _ => hc
      | write hmem => exact ⟨l, hinv.write hmem, hrem⟩
  refine ⟨l, hinv.list, hinv.list.ascending, fun b hb => hrem b (List.mem_append_right _ hb),
    fun b hb => (hinv.list.node b hb).hi.trans hfin⟩

theorem dvd_roundUp (n : ℕ) : 4096 ∣ roundUp n := by
  rw [roundUp, u64]
  split_ifs with h <;> omega

theorem isPage_of_dvd (hp : 4096 ∣ p.toNat) (hlt : p.toNat < 2 ^ 63) : IsPage p := by
  have hlow : p &&& ((0 : MemoryType).pageSize - 1) = 0 := by
    refine MemoryManager.and_pageSize_eq_zero.mpr ?_
    exact Nat.mod_eq_zero_of_dvd hp
  rw [isPage_iff, BitVec.and_or_distrib_left, and_nx_eq_zero hlt]
  exact (congrArg (0 ||| ·) hlow).trans (by decide)

/-- **The pages taken one by one** are free, different, and not free afterwards. -/
theorem PageBlocks.takePages (h : PageBlocks 0 l) (n : ℕ) :
    PageBlocks 0 (takePages n l).2 ∧ (takePages n l).1.Nodup ∧
      (∀ p ∈ (takePages n l).1, IsPage p ∧ 4096 ∣ p.toNat ∧ IsFree l p.toNat ∧
        ∀ a, p.toNat ≤ a → a < p.toNat + 4096 → ¬ IsFree (takePages n l).2 a) ∧
      ∀ a, IsFree (takePages n l).2 a → IsFree l a := by
  induction n generalizing l with
  | zero => exact ⟨h, List.nodup_nil, by simp [Attos.takePages], fun a ha => ha⟩
  | succ n ih =>
    rw [Attos.takePages]
    cases hfit : Attos.takeFit 4096 l with
    | none => exact ⟨h, List.nodup_nil, by simp, fun a ha => ha⟩
    | some r =>
      obtain ⟨page, l₁⟩ := r
      obtain ⟨hblocks, hpage, hbound, hfree, hnot⟩ := h.takeFit (by decide) hfit
      obtain ⟨hblocks', hnodup, hpages, hsub⟩ := ih hblocks
      have hnat : (BitVec.ofNat 64 page).toNat = page := by
        rw [BitVec.toNat_ofNat]
        exact Nat.mod_eq_of_lt (by omega)
      have hself : page ∈ (⟨page, 4096⟩ : Block).bytes := by simp
      have hdvd : 4096 ∣ page := Nat.dvd_of_mod_eq_zero hpage
      refine ⟨hblocks', List.nodup_cons.mpr ⟨fun hmem => ?_, hnodup⟩, ?_, fun a ha =>
        (hfree a).mpr (.inr (hsub a ha))⟩
      · have hl₁ := (hpages _ hmem).2.2.1
        rw [hnat] at hl₁
        exact hnot page hself hl₁
      · intro p hp
        rcases List.mem_cons.mp hp with rfl | hp
        · rw [hnat]
          refine ⟨isPage_of_dvd (by rwa [hnat]) (by omega), hdvd, (hfree page).mpr (.inl hself),
            fun a hle hlt hafree => ?_⟩
          exact hnot a ⟨hle, hlt⟩ (hsub a hafree)
        · obtain ⟨hispage, hdvd, hl₁, hafter⟩ := hpages p hp
          exact ⟨hispage, hdvd, (hfree _).mpr (.inr hl₁), hafter⟩

theorem length_takePages_le (n : ℕ) (l : List Block) : (takePages n l).1.length ≤ n := by
  induction n generalizing l with
  | zero => simp [takePages]
  | succ n ih =>
    rw [takePages]
    cases takeFit 4096 l with
    | none => simp
    | some r => simpa using ih r.2

/-- The first ones of more pages. -/
theorem take_takePages {k n : ℕ} (h : k ≤ n) (l : List Block) :
    (takePages n l).1.take k = (takePages k l).1 := by
  induction k generalizing n l with
  | zero => simp [takePages]
  | succ k ih =>
    obtain ⟨m, rfl⟩ : ∃ m, n = m + 1 := ⟨n - 1, by omega⟩
    simp only [takePages]
    cases takeFit 4096 l with
    | none => simp
    | some r =>
      obtain ⟨page, l₁⟩ := r
      simp only [List.take_succ_cons, ih (by omega : k ≤ m)]

end Attos
