import Attos.PhysicalPages

/-!
# Address spaces

The tables of a manager in physical memory (`AddressSpace`): they are pages that
are not free, so handing out pages, clearing them and copying to them changes no
translation (`AddressSpace.elsewhere`). Mapping a range takes free pages for the
new tables, and changes no other page (`AddressSpace.map`).
-/

namespace Attos

open Lib RadixTable MemoryManager DefaultMemoryManager

variable {k k' : KernelMemoryManager} {mm mm' : MemoryManager} {level : Word → Option ℕ}
  {p virt length phys ret : Word} {fuel size rem a : ℕ} {type : MemoryType} {b : Block}

/-- No address of the page is free. -/
def Taken (k : KernelMemoryManager) (p : Word) : Prop :=
  ∀ a, p.toNat ≤ a → a < p.toNat + 4096 → ¬ IsFree k.physicalPages_ a

/-- The entry that the path leads to, but not through the kernel's entry. -/
def entryOf (k : KernelMemoryManager) (mm : MemoryManager) : List ℕ → Option (ℕ × Word) :=
  (mask (k.enter mm)).entryAt

/-- The tables of a manager, apart from the kernel's entry. -/
structure AddressSpace (k : KernelMemoryManager) (mm : MemoryManager) : Prop where
  /-- the free memory is pages -/
  free : PageBlocks 0 k.physicalPages_
  /-- the tables are a forest -/
  tables : ∃ level, Tables (mask (k.enter mm)) level
  /-- of pages -/
  pages : ∀ p ∈ mm.used, 4096 ∣ p.toNat
  /-- that are not free -/
  used : ∀ p ∈ mm.used, Taken k p

/-- The pages to hand out are fresh for a manager whose pages are not free. -/
theorem freshPages_pool (hfree : PageBlocks 0 k.physicalPages_) {used : List Word}
    (hused : ∀ p ∈ used, Taken k p) : FreshPages k.pool used := by
  obtain ⟨-, hnodup, hpages, -⟩ :=
    hfree.takePages ((k.physicalPages_.map Block.size).sum / 4096)
  refine ⟨hnodup, fun p hp => ⟨(hpages p hp).1, fun hmem => ?_⟩⟩
  exact hused p hmem p.toNat (le_refl _) (by omega) (hpages p hp).2.2.1

/-- The rest of the system runs: it takes and frees pages and writes to its own. -/
structure OthersRan (rem : ℕ) (k : KernelMemoryManager) (mm : MemoryManager)
    (k' : KernelMemoryManager) : Prop where
  /-- the free memory is pages -/
  free : PageBlocks rem k'.physicalPages_
  /-- the tables stay -/
  mem : ∀ p ∈ mm.used, ∀ i, k'.mem p i = k.mem p i
  /-- and do not become free -/
  used : ∀ p ∈ mm.used, Taken k' p

/-- **Changes outside the tables** keep the address space and its entries. -/
theorem AddressSpace.others (h : AddressSpace k mm) (ho : OthersRan 0 k mm k') :
    AddressSpace k' mm ∧ entryOf k' mm = entryOf k mm := by
  obtain ⟨level, ht⟩ := h.tables
  have hused := ho.used
  have hmask : ∀ p ∈ mm.used, ∀ i, (mask (k'.enter mm)).mem p i = (mask (k.enter mm)).mem p i := by
    intro p hp i
    simp only [mask, MemoryManager.writeEntry, RadixTable.write, KernelMemoryManager.enter]
    rw [ho.mem p hp i]
  have helsewhere : MemoryManager.Elsewhere (mask (k.enter mm)) (mask (k'.enter mm)) :=
    ⟨hmask, freshPages_pool ho.free hused, rfl⟩
  refine ⟨⟨ho.free, ⟨level, ht.elsewhere helsewhere⟩, h.pages, hused⟩, ?_⟩
  funext is
  exact lookup_congr ht.forest ht.root (fun p n i hp => hmask p (ht.used hp) i) is

/-- What `alloc_physical` does when it returns. -/
structure Allocates (rem : ℕ) (k : KernelMemoryManager) (size : ℕ) (b : Block)
    (k' : KernelMemoryManager) : Prop where
  /-- the length is rounded up -/
  size_eq : b.size = roundUp size
  /-- the memory starts where all memory of the heap does -/
  rem_eq : b.ptr % 4096 = rem
  /-- and is real memory -/
  bound : b.fin ≤ 2 ^ 63
  /-- it is free before -/
  before : ∀ a ∈ b.bytes, IsFree k.physicalPages_ a
  /-- but not after -/
  after : ∀ a ∈ b.bytes, ¬ IsFree k'.physicalPages_ a
  /-- nothing else becomes free -/
  sub : ∀ a, IsFree k'.physicalPages_ a → IsFree k.physicalPages_ a
  /-- the free memory is pages -/
  free : PageBlocks rem k'.physicalPages_
  /-- the memory is cleared -/
  eq : k' = { k with mem := stosq k.mem b, physicalPages_ := k'.physicalPages_ }

theorem allocPhysical_eq_done (h : PageBlocks rem k.physicalPages_)
    (hs : k.allocPhysical size = .done (b, k')) : Allocates rem k size b k' := by
  rw [KernelMemoryManager.allocPhysical] at hs
  cases hfit : takeFit (roundUp size) k.physicalPages_ with
  | none => simp [hfit] at hs
  | some r =>
    obtain ⟨ptr, free⟩ := r
    rw [hfit] at hs
    cases hs
    obtain ⟨hblocks, hptr, hbound, hfree, hnot⟩ := h.takeFit (dvd_roundUp size) hfit
    exact ⟨rfl, hptr, hbound, fun a ha => (hfree a).mpr (.inl ha), hnot,
      fun a ha => (hfree a).mpr (.inr ha), hblocks, rfl⟩

theorem Taken.mono (hp : Taken k p)
    (hsub : ∀ a, IsFree k'.physicalPages_ a → IsFree k.physicalPages_ a) : Taken k' p :=
  fun a hle hlt hafree => hp a hle hlt (hsub a hafree)

/-- A page that is not free is outside of free memory. -/
theorem Taken.not_mem (hp : Taken k p) (hb : ∀ a ∈ b.bytes, IsFree k.physicalPages_ a) :
    p.toNat ∉ b.bytes := fun hmem => hp p.toNat (le_refl _) (by omega) (hb _ hmem)

/-- **Allocation** is outside of the tables. -/
theorem AddressSpace.alloc (h : AddressSpace k mm) (ha : Allocates 0 k size b k') :
    OthersRan 0 k mm k' := by
  refine ⟨ha.free, fun p hp i => ?_, fun p hp => (h.used p hp).mono ha.sub⟩
  rw [ha.eq]
  exact stosq_of_not ((h.used p hp).not_mem ha.before) i

/-- **A new address space** is empty. -/
theorem createDefaultMemoryManager_eq_done (hfree : PageBlocks 0 k.physicalPages_)
    (hs : k.createDefaultMemoryManager = .done (b, mm, k')) : AddressSpace k' mm ∧ Listed mm [] := by
  rw [KernelMemoryManager.createDefaultMemoryManager] at hs
  obtain ⟨⟨b₁, k₁⟩, halloc₁, hs⟩ := Outcome.bind_eq_done.mp hs
  obtain ⟨⟨b, k₂⟩, halloc₂, hs⟩ := Outcome.bind_eq_done.mp hs
  cases hs
  have ha := allocPhysical_eq_done (allocPhysical_eq_done hfree halloc₁).free halloc₂
  have hsize : b.size = 4096 := ha.size_eq.trans (by decide)
  have hdvd : 4096 ∣ b.ptr := Nat.dvd_of_mod_eq_zero ha.rem_eq
  have hbound := ha.bound
  simp only [Block.fin] at hbound
  have hnat : (BitVec.ofNat 64 b.ptr).toNat = b.ptr := by
    rw [BitVec.toNat_ofNat]
    exact Nat.mod_eq_of_lt (by omega)
  have htaken : Taken k₂ (BitVec.ofNat 64 b.ptr) := by
    intro a hle hlt
    rw [hnat] at hle hlt
    exact ha.after a ⟨hle, by simp only [Block.fin]; omega⟩
  have hused : ∀ p ∈ [BitVec.ofNat 64 b.ptr], Taken k₂ p ∧ 4096 ∣ p.toNat := by
    simpa [hnat] using ⟨htaken, hdvd⟩
  -- the manager before it has the kernel's entry
  have hclear : ∀ i, k₂.mem (BitVec.ofNat 64 b.ptr) i = 0 := by
    intro i
    rw [ha.eq]
    refine if_pos ?_
    rw [hnat]
    simp only [Block.fin]
    omega
  have hinit : MemoryManager.Init {
      mem := k₂.mem
      pool := k₂.pool
      used := [BitVec.ofNat 64 b.ptr]
      mappings := fun _ => ⟨0, 0, 0⟩
      cur_ := 0
      memoryMapTree_ := ⟨fun _ => none, fun _ => none, fun _ => none, none⟩
      pml4_ := BitVec.ofNat 64 b.ptr
      freeVirtBase_ := 0x100000 } := by
    refine ⟨isPage_of_dvd ?_ ?_, rfl, hclear, freshPages_pool ha.free fun p hp => (hused p hp).1, rfl⟩
    · exact hnat.symm ▸ hdvd
    · change (BitVec.ofNat 64 b.ptr).toNat < 2 ^ 63
      omega
  have hlisted := hinit.agree.listed
  refine ⟨⟨ha.free, ?_, fun p hp => (hused p hp).2, fun p hp => (hused p hp).1⟩,
    hlisted.records, hlisted.ordered, hlisted.constructed⟩
  obtain ⟨level, ht⟩ := hinit.tables
  exact ⟨level, (mask_create (hinit.clear _)).symm ▸ ht⟩

/-! ## Mapping -/

/-- A page of the pool is free, and one that is left in it is free afterwards. -/
theorem mem_pool (hfree : PageBlocks 0 k.physicalPages_) (hp : p ∈ k.pool) :
    4096 ∣ p.toNat ∧ IsFree k.physicalPages_ p.toNat :=
  have hpages := (hfree.takePages ((k.physicalPages_.map Block.size).sum / 4096)).2.2.1 p hp
  ⟨hpages.2.1, hpages.2.2.1⟩

/-- The manager only took pages from the pool. -/
structure Took (k : KernelMemoryManager) (mm mm' : MemoryManager) : Prop where
  /-- the rest of the pool is left -/
  pool : mm'.pool = k.pool.drop (k.pool.length - mm'.pool.length)
  /-- and the taken pages are in use -/
  used : ∀ p ∈ mm'.used, p ∈ mm.used ∨ p ∈ k.pool.take (k.pool.length - mm'.pool.length)
  /-- as the old ones -/
  keep : ∀ p ∈ mm.used, p ∈ mm'.used

theorem took_of_low {n : ℕ} (h : Low n (k.enter mm) mm') : Took k mm mm' := by
  obtain ⟨m, hpool, hused⟩ := h.taken
  have hpool' : mm'.pool = k.pool.drop m := hpool
  have hlen : k.pool.length - mm'.pool.length = min m k.pool.length := by
    rw [hpool', List.length_drop]
    omega
  have htake : k.pool.take (min m k.pool.length) = k.pool.take m := by
    rw [List.take_eq_take_iff]
    omega
  have hdrop : k.pool.drop (min m k.pool.length) = k.pool.drop m := by
    rcases Nat.le_total m k.pool.length with hle | hle
    · rw [Nat.min_eq_left hle]
    · rw [Nat.min_eq_right hle, List.drop_eq_nil_of_le hle, List.drop_length]
  have hused' : mm'.used = (k.pool.take m).reverse ++ mm.used := hused
  refine ⟨?_, fun p hp => ?_, fun p hp => ?_⟩
  · rw [hlen, hdrop, hpool']
  · rw [hused', List.mem_append, List.mem_reverse] at hp
    rw [hlen, htake]
    exact hp.symm
  · rw [hused']
    exact List.mem_append_right _ hp

/-- The memory after a call has the pages that the manager did not take. -/
theorem Took.leave (h : Took k mm mm') (hspace : AddressSpace k mm) :
    PageBlocks 0 (k.leave mm').physicalPages_ ∧
      (∀ a, IsFree (k.leave mm').physicalPages_ a → IsFree k.physicalPages_ a) ∧
      ∀ p ∈ mm'.used, 4096 ∣ p.toNat ∧ Taken (k.leave mm') p := by
  obtain ⟨hblocks, -, hpages, hsub⟩ :=
    hspace.free.takePages (k.pool.length - mm'.pool.length)
  refine ⟨hblocks, hsub, fun p hp => ?_⟩
  rcases h.used p hp with hp | hp
  · exact ⟨hspace.pages p hp, (hspace.used p hp).mono hsub⟩
  · -- a page of the pool
    have hle := length_takePages_le ((k.physicalPages_.map Block.size).sum / 4096) k.physicalPages_
    have htake := take_takePages ((Nat.sub_le _ mm'.pool.length).trans hle) k.physicalPages_
    rw [KernelMemoryManager.pool, htake] at hp
    obtain ⟨-, hdvd, -, hnot⟩ := hpages p hp
    exact ⟨hdvd, hnot⟩

/-- What `map_memory` does when it returns. -/
structure Maps (k : KernelMemoryManager) (mm : MemoryManager) (length : Word) (type : MemoryType)
    (phys ret : Word) (mm' : MemoryManager) (k' : KernelMemoryManager) : Prop where
  /-- the tables are still in memory -/
  space : AddressSpace k' mm'
  /-- the entries of the range are written -/
  entry : ∀ v, entryOf k' mm' (indices v) = if offset ret v < length.toNat
    then some (leafLevel type, leafWord type (pageOf type ret phys v))
    else entryOf k mm (indices v)
  /-- pages that are neither free nor tables stay -/
  mem : ∀ p, p ∉ mm.used → ¬ IsFree k.physicalPages_ p.toNat → ∀ i, k'.mem p i = k.mem p i
  /-- no page becomes free -/
  sub : ∀ a, IsFree k'.physicalPages_ a → IsFree k.physicalPages_ a
  /-- new tables were free pages -/
  used : ∀ p ∈ mm'.used, p ∈ mm.used ∨ IsFree k.physicalPages_ p.toNat
  /-- the mapping is recorded -/
  added : ∀ l, Listed mm l → ∃ l', Added mm l ret length type mm' l'

/-- The records do not see the kernel's entry. -/
theorem sameRecords_of_mask {s s' : MemoryManager} (h : SameRecords (mask s) (mask s')) :
    SameRecords s s' := by
  unfold SameRecords mask MemoryManager.writeEntry at h
  have h₁ := congrArg MemoryManager.mappings h
  have h₂ := congrArg MemoryManager.cur_ h
  have h₃ := congrArg MemoryManager.memoryMapTree_ h
  have h₄ := congrArg MemoryManager.pml4_ h
  have h₅ := congrArg MemoryManager.freeVirtBase_ h
  simp only at h₁ h₂ h₃ h₄ h₅
  unfold SameRecords
  rw [← h₁, ← h₂, ← h₃, ← h₄, ← h₅]

/-- **Mapping a range** writes its entries, and changes no others. -/
theorem AddressSpace.map (h : AddressSpace k mm) (hbelow : Below kernelPml4 (startOf mm virt) length)
    (hmax : length.toNat ≤ 2 ^ 48)
    (hs : k.mapMemory mm fuel virt length type phys = .done (ret, mm', k')) :
    ret = startOf mm virt ∧ Mapped (k.enter mm) fuel length type phys ret mm' ∧
      Maps k mm length type phys ret mm' k' := by
  rw [KernelMemoryManager.mapMemory] at hs
  obtain ⟨⟨ret', mm₁⟩, hrun, hs⟩ := Outcome.bind_eq_done.mp hs
  cases hs
  obtain ⟨hret, hrun⟩ := mapMemory_start hrun
  have hret : ret = startOf mm virt := hret
  have hm := mapMemory_eq_done hrun
  refine ⟨hret, hm, ?_⟩
  obtain ⟨level, ht⟩ := h.tables
  obtain ⟨s₁, hsame, hrec, hloop⟩ := hm.run
  have ht₁ := ht.congr (mask_congr hsame)
  rw [hret] at hloop
  obtain ⟨hmask, hlow⟩ := mapLoop_low ht₁ (le_refl _) hbelow hm.length_mod hloop
  obtain ⟨level', ht', hr⟩ := ht₁.mapLoop hmask
  have hlow' : Low kernelPml4 (k.enter mm) mm' := (Low.of_sameTables hsame).trans hlow
  have htook := took_of_low hlow'
  obtain ⟨hfree, hsub, hused⟩ := htook.leave h
  have helsewhere : MemoryManager.Elsewhere (mask mm') (mask ((k.leave mm').enter mm')) :=
    ⟨fun _ _ _ => rfl, freshPages_pool hfree fun p hp => (hused p hp).2, rfl⟩
  have hpool : ∀ p ∈ k.pool, IsFree k.physicalPages_ p.toNat := fun p hp => (mem_pool h.free hp).2
  refine ⟨⟨hfree, ⟨level', ht'.elsewhere helsewhere⟩, fun p hp => (hused p hp).1,
    fun p hp => (hused p hp).2⟩, fun v => ?_, fun p hp hnot i => ?_,
    hsub, fun p hp => ?_, fun l hl => ?_⟩
  · have hentry := ht₁.mapLoop_entryAt (hret ▸ hm.ret_mod) hm.length_mod hmax hmask v
    rw [← hret, (mask_congr hsame).entryAt] at hentry
    exact hentry
  · refine (hlow'.mem p i).resolve_right fun hown => ?_
    rcases hown.1 with hmem | hmem
    · exact hp hmem
    · exact hnot (hpool p hmem)
  · rcases htook.used p hp with hmem | hmem
    · exact .inl hmem
    · exact .inr (hpool p (List.mem_of_mem_take hmem))
  · have hl' : Listed (k.enter mm) l := ⟨hl.records, hl.ordered, hl.constructed⟩
    obtain ⟨l', ha⟩ := hl'.added hrec (sameRecords_of_mask hr)
    exact ⟨l', ha.listed, ha.mem, ha.self, ha.old, ha.free⟩

end Attos
