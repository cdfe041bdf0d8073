import Attos.UnmapMemory

/-!
# The memory manager of a process

`default_memory_manager` of `kernel/mm.cpp`: a process shares the upper half of
its address space with the kernel, by the kernel's entry in its root table. The
manager checks the start of a range that it is asked to map against this, but
not the end of the range, nor an address that it allocates itself, and it checks
nothing when it unmaps. So a range that starts in the lower half reaches into
the upper one (`not_lower_half`).

As long as the mapped and unmapped ranges are in the lower half as a whole, and
no larger pages are unmapped than were mapped, calls write to the tables of the
lower half only (`Low`) and the upper half stays as it is (`lower_half`). The
invariant is that the manager without the kernel's entry (`mask`) has tables of
its own, and that none of the kernel's tables is a page of its own (`Apart`).
-/

namespace Attos

open Lib RadixTable

namespace DefaultMemoryManager

open MemoryManager

/-! ## The manager -/

/-- `kernel_pml4` -/
def kernelPml4 : ℕ := 0x1ff

/-- The constructor: the kernel's entry of the root table `kernel` is copied. -/
def create (base : MemoryManager) (kernel : Word) : MemoryManager :=
  base.writeEntry base.pml4_ kernelPml4 (base.mem kernel kernelPml4)

/-- `do_map_memory` -/
def mapMemory (s : MemoryManager) (fuel : ℕ) (virt length : Word) (type : MemoryType)
    (phys : Word) : Outcome (Word × MemoryManager) := do
  Outcome.require (virt ≠ mapAllocVirt → pml4e virt ≠ kernelPml4)
  Outcome.require (virt ≠ mapAllocVirt → pml4e virt < 0x100)
  s.mapMemory fuel virt length type phys

/-! ## Runs -/

/-- The page is one of the manager's, or will be. -/
def Own (s : MemoryManager) (p : Word) : Prop := p ∈ s.used ∨ p ∈ s.pool

/-- No table of the kernel is a page of the manager: `alloc_physical` handed it
out to the kernel. -/
def Apart (kernel : Word) (s : MemoryManager) : Prop :=
  ∀ path p, Reaches kind s.mem 4 kernel path p → ¬ Own s p

/-- A manager right after its constructor. -/
structure Init (kernel : Word) (s : MemoryManager) : Prop where
  /-- it copies the kernel's entry to a manager for the lower half -/
  create : ∃ base, MemoryManager.Init base ∧ base.freeVirtBase_ = 0x100000 ∧
    s = create base kernel
  /-- the kernel has its tables -/
  apart : Apart kernel s

/-- A call that returns. -/
inductive Call : MemoryManager → MemoryManager → Prop where
  /-- a range is mapped -/
  | map {s s' : MemoryManager} {fuel : ℕ} {virt length phys ret : Word} {type : MemoryType} :
      mapMemory s fuel virt length type phys = .done (ret, s') → Call s s'
  /-- a range is unmapped -/
  | unmap {s s' : MemoryManager} {fuel : ℕ} {virt length : Word} :
      s.unmapMemory fuel virt length = .done s' → Call s s'

/-- The rest of the system writes to its own pages and allocates some. -/
structure Elsewhere (kernel : Word) (s s' : MemoryManager) : Prop
    extends MemoryManager.Elsewhere s s' where
  /-- the kernel keeps its table of the upper half -/
  entry : s'.mem kernel kernelPml4 = s.mem kernel kernelPml4
  /-- new tables of the kernel are its own -/
  apart : Apart kernel s'

/-- The states of all runs with calls of a kind. -/
abbrev Reachable (kernel : Word) (call : MemoryManager → MemoryManager → Prop) :
    MemoryManager → Prop :=
  Reach (Init kernel) fun s s' => call s s' ∨ Elsewhere kernel s s'

/-- The upper half is the kernel's: its entry is the kernel's, and no other one
is present. -/
structure UpperEntries (kernel : Word) (s : MemoryManager) : Prop where
  /-- the kernel's entry -/
  kernel : s.mem s.pml4_ kernelPml4 = s.mem kernel kernelPml4
  /-- the other ones -/
  absent : ∀ i, 0x100 ≤ i → i ≠ kernelPml4 → ¬ Present (s.mem s.pml4_ i)

/-- The addresses of the upper half are translated as before. -/
def SameUpper (s s' : MemoryManager) : Prop :=
  ∀ v, 0x100 ≤ pml4e v → virtToPhys s'.mem s'.pml4_ v = virtToPhys s.mem s.pml4_ v

/-- **The upper half is safe**: its entries are the kernel's, and no call changes
the translation of an address in it. -/
def UpperSafe (kernel : Word) (call : MemoryManager → MemoryManager → Prop) (s : MemoryManager) :
    Prop :=
  UpperEntries kernel s ∧ ∀ s', call s s' → SameUpper s s'

/-- All addresses of the range have entries below `n` in the root table. -/
def Below (n : ℕ) (virt length : Word) : Prop := ∀ v, InRange virt length v → pml4e v < n

/-- Where the range of a call of `do_map_memory` starts. -/
def startOf (s : MemoryManager) (virt : Word) : Word :=
  if virt = mapAllocVirt then s.freeVirtBase_ else virt

/-- No address of the range is in a page larger than those of the mapping that
`find_mapping` finds for it. -/
def NoLarger (s : MemoryManager) (fuel : ℕ) (virt length : Word) : Prop :=
  ∀ m, s.findMapping fuel virt length = .done (some m) → ∀ v, InRange virt length v →
    ∀ n w, s.entryAt (indices v) = some (n, w) → n ≤ leafLevel (s.mappings m).type_

/-- A call whose range is in the lower half. -/
inductive LowerCall : MemoryManager → MemoryManager → Prop where
  /-- a range is mapped -/
  | map {s s' : MemoryManager} {fuel : ℕ} {virt length phys ret : Word} {type : MemoryType} :
      mapMemory s fuel virt length type phys = .done (ret, s') →
        Below 0x100 (startOf s virt) length → LowerCall s s'
  /-- a range is unmapped, and there are no larger pages in it -/
  | unmap {s s' : MemoryManager} {fuel : ℕ} {virt length : Word} :
      s.unmapMemory fuel virt length = .done s' → Below 0x100 virt length →
        NoLarger s fuel virt length → LowerCall s s'

variable {s s' s₁ : MemoryManager} {kernel p q virt length phys ret : Word} {i n fuel : ℕ}
  {path : List ℕ} {type : MemoryType} {level : Word → Option ℕ}

/-! ## Steps below an entry of the root table -/

/-- Only words of the manager's own pages change, and in the root table only
entries below `n`. -/
structure Low (n : ℕ) (s s' : MemoryManager) : Prop where
  /-- the words that change -/
  mem : ∀ p i, s'.mem p i = s.mem p i ∨ Own s p ∧ (p = s.pml4_ → i < n)
  /-- new tables are taken from the free pages, in order -/
  taken : ∃ k, s'.pool = s.pool.drop k ∧ s'.used = (s.pool.take k).reverse ++ s.used
  /-- the root table stays -/
  pml4_ : s'.pml4_ = s.pml4_

theorem Low.own (h : Low n s s') (hp : Own s' p) : Own s p := by
  obtain ⟨k, hpool, hused⟩ := h.taken
  rw [Own] at hp ⊢
  rw [hpool, hused, List.mem_append, List.mem_reverse] at hp
  rcases hp with (hp | hp) | hp
  · exact .inr (List.mem_of_mem_take hp)
  · exact .inl hp
  · exact .inr (List.mem_of_mem_drop hp)

theorem Low.of_sameTables (h : SameTables s s') : Low n s s' where
  mem p i := .inl (by rw [h.mem])
  taken := ⟨0, by simpa using h.pool, by simpa using h.used⟩
  pml4_ := h.pml4_

theorem Low.trans (h : Low n s s₁) (h' : Low n s₁ s') : Low n s s' where
  mem p i := by
    rcases h'.mem p i with hsame | ⟨hown, hroot⟩
    · rw [hsame]
      exact h.mem p i
    · rw [h.pml4_] at hroot
      exact .inr ⟨h.own hown, hroot⟩
  taken := by
    obtain ⟨k, hpool, hused⟩ := h.taken
    obtain ⟨k', hpool', hused'⟩ := h'.taken
    refine ⟨k + k', ?_, ?_⟩
    · rw [hpool', hpool, List.drop_drop]
    · rw [hused', hpool, hused, List.take_add, List.reverse_append, List.append_assoc]
  pml4_ := h'.pml4_.trans h.pml4_

/-- A write to a page of its own. -/
theorem Low.writeEntry (hp : Own s p) (hi : p = s.pml4_ → i < n) (w : Word) :
    Low n s (s.writeEntry p i w) where
  mem p' i' := by
    by_cases hslot : p' = p ∧ i' = i
    · obtain ⟨rfl, rfl⟩ := hslot
      exact .inr ⟨hp, hi⟩
    · exact .inl (write_of_ne hslot)
  taken := ⟨0, by simp [MemoryManager.writeEntry], by simp [MemoryManager.writeEntry]⟩
  pml4_ := rfl

/-- A free page is taken. -/
theorem Low.allocTable (hroot : s.pml4_ ∉ s.pool) (hs : s.allocTable = .done (q, s')) :
    Low n s s' := by
  obtain ⟨pool, hpool, rfl⟩ := allocTable_eq_done hs
  have hpage : q ∈ s.pool := by simp [hpool]
  refine ⟨fun p i => ?_, ⟨1, by simp [hpool], by simp [hpool]⟩, rfl⟩
  by_cases hp : p = q
  · subst hp
    exact .inr ⟨.inr hpage, fun heq => absurd (heq ▸ hpage) hroot⟩
  · exact .inl (if_neg hp)

/-- **The kernel's tables do not change.** -/
theorem Low.kernel_mem (h : Low n s s') (ha : Apart kernel s) :
    ∀ path p, Reaches kind s.mem 4 kernel path p → ∀ i, s'.mem p i = s.mem p i :=
  fun path p hp i => (h.mem p i).resolve_right fun hown => ha path p hp hown.1

theorem Low.apart (h : Low n s s') (ha : Apart kernel s) : Apart kernel s' :=
  fun path p hp hown => ha path p (hp.of_congr (h.kernel_mem ha)) (h.own hown)

/-- **The entries of the upper half do not change.** -/
theorem Low.upperEntries (h : Low 0x100 s s') (ha : Apart kernel s) (hu : UpperEntries kernel s) :
    UpperEntries kernel s' := by
  have hroot : ∀ i, 0x100 ≤ i → s'.mem s'.pml4_ i = s.mem s.pml4_ i := by
    intro i hi
    rw [h.pml4_]
    refine (h.mem s.pml4_ i).resolve_right fun hchange => ?_
    exact absurd (hchange.2 rfl) (Nat.not_lt.mpr hi)
  constructor
  · rw [hroot kernelPml4 (by decide), h.kernel_mem ha [] kernel .root]
    exact hu.kernel
  · intro i hi hne
    rw [hroot i hi]
    exact hu.absent i hi hne

/-- An address of the upper half is translated by the kernel's tables. -/
theorem UpperEntries.lookup (h : UpperEntries kernel s) {v : Word} (hv : 0x100 ≤ pml4e v) :
    s.entryAt (indices v) =
      if pml4e v = kernelPml4 then lookup kind s.mem 4 kernel (indices v) else none := by
  rw [entryAt, indices]
  split_ifs with hk
  · simp only [RadixTable.lookup, hk, h.kernel]
  · have habsent : kind 4 (s.mem s.pml4_ (pml4e v)) = .absent := if_pos (h.absent _ hv hk)
    simp only [RadixTable.lookup, habsent]

/-- **No translation of the upper half changes.** -/
theorem Low.sameUpper (h : Low 0x100 s s') (ha : Apart kernel s) (hu : UpperEntries kernel s)
    (hroot : IsPage s.pml4_) : SameUpper s s' := by
  intro v hv
  have hroot' : IsPage s'.pml4_ := h.pml4_ ▸ hroot
  have hentry : s'.entryAt (indices v) = s.entryAt (indices v) := by
    rw [hu.lookup hv, (h.upperEntries ha hu).lookup hv]
    split_ifs
    · exact lookup_congr_of_reaches (h.kernel_mem ha) _
    · rfl
  rw [virtToPhys_eq, virtToPhys_eq, hroot, hroot']
  unfold entryAt at hentry
  rw [hentry]

/-! ## The manager without the kernel's entry -/

/-- The manager with an empty entry in place of the kernel's. -/
def mask (s : MemoryManager) : MemoryManager := s.writeEntry s.pml4_ kernelPml4 0

theorem mask_mem_of_ne (h : ¬ (p = s.pml4_ ∧ i = kernelPml4)) : (mask s).mem p i = s.mem p i :=
  write_of_ne h

theorem mask_congr (h : SameTables s s') : SameTables (mask s) (mask s') where
  mem := by
    unfold mask MemoryManager.writeEntry
    rw [h.mem, h.pml4_]
  pool := h.pool
  used := h.used
  pml4_ := h.pml4_

/-- A write elsewhere. -/
theorem mask_writeEntry (h : ¬ (p = s.pml4_ ∧ i = kernelPml4)) (w : Word) :
    mask (s.writeEntry p i w) = (mask s).writeEntry p i w := by
  have hmem : ∀ p' i', (mask (s.writeEntry p i w)).mem p' i' =
      ((mask s).writeEntry p i w).mem p' i' := by
    intro p' i'
    simp only [mask, MemoryManager.writeEntry, RadixTable.write]
    split_ifs with h₁ h₂ <;> try rfl
    exact absurd ⟨h₂.1.symm.trans h₁.1, h₂.2.symm.trans h₁.2⟩ h
  exact congrArg (fun mem => { s with mem := mem }) (funext fun p' => funext fun i' => hmem p' i')

/-- The kernel's entry changes no lookup in the lower half. -/
theorem mask_entryAt (h : Tables (mask s) level) {is : List ℕ} (his : ¬ [kernelPml4] <+: is) :
    (mask s).entryAt is = s.entryAt is := by
  have hmem : s.mem = RadixTable.write (mask s).mem s.pml4_ kernelPml4 (s.mem s.pml4_ kernelPml4) := by
    funext p i
    by_cases hslot : p = s.pml4_ ∧ i = kernelPml4
    · rw [hslot.1, hslot.2, write_self]
    · rw [write_of_ne hslot, mask_mem_of_ne hslot]
  unfold entryAt
  rw [hmem]
  exact (lookup_write_off_path h.forest h.root .root his).symm

/-- Clearing a new page and clearing the kernel's entry commute. -/
theorem mask_allocTable (hs : s.allocTable = .done (q, s')) :
    (mask s).allocTable = .done (q, mask s') := by
  obtain ⟨pool, hpool, rfl⟩ := allocTable_eq_done hs
  have hmem : (fun p i => if p = q then 0 else (mask s).mem p i) =
      RadixTable.write (fun p i => if p = q then 0 else s.mem p i) s.pml4_ kernelPml4 0 := by
    funext p i
    simp only [mask, MemoryManager.writeEntry, RadixTable.write]
    split_ifs <;> rfl
  have hpool' : (mask s).pool = q :: pool := hpool
  rw [MemoryManager.allocTable, hpool']
  exact congrArg (fun mem => Outcome.done (q,
    { s with mem := mem, pool := pool, used := q :: s.used })) hmem

/-- An entry other than the kernel's is filled the same way. -/
theorem mask_allocIfNotPresent {flags : Word} (h : ¬ (p = s.pml4_ ∧ i = kernelPml4))
    (hs : s.allocIfNotPresent p i flags = .done (q, s')) :
    (mask s).allocIfNotPresent p i flags = .done (q, mask s') := by
  rw [allocIfNotPresent] at hs ⊢
  simp only [mask_mem_of_ne h]
  by_cases hpresent : Present (s.mem p i)
  · rw [if_pos hpresent] at hs ⊢
    obtain ⟨hcheck, hs⟩ := Outcome.require_bind_eq_done.mp hs
    cases hs
    exact Outcome.require_bind_eq_done.mpr ⟨hcheck, rfl⟩
  · rw [if_neg hpresent] at hs ⊢
    rw [MemoryManager.allocTableEntry] at hs ⊢
    obtain ⟨⟨page, s₁⟩, halloc, hs⟩ := Outcome.bind_eq_done.mp hs
    cases hs
    obtain ⟨pool, -, hs₁⟩ := allocTable_eq_done halloc
    have hpml4 : s₁.pml4_ = s.pml4_ := by rw [hs₁]
    rw [mask_allocTable halloc, mask_writeEntry (by rwa [hpml4])]
    rfl

/-! ## Mapping -/

/-- A table of the manager is its own, and the root is the one at the empty path. -/
theorem Tables.own (h : Tables (mask s) level) (hp : (mask s).TableAt path p) :
    p ∈ s.used ∧ (p = s.pml4_ → path = []) := by
  have hlevel := (hp.level_eq h.forest h.root).2
  refine ⟨h.used hlevel, fun hroot => ?_⟩
  subst hroot
  have hlen := (hp.level_eq h.forest h.root).1
  have hfour := h.root.symm.trans hlevel
  simp only [Option.some.injEq] at hfour
  exact List.length_eq_zero_iff.mp (by omega)

theorem Tables.root_not_mem_pool (h : Tables (mask s) level) : s.pml4_ ∉ s.pool :=
  fun hmem => (h.pool.2 s.pml4_ hmem).2 (h.used h.root)

/-- **Filling an entry below `n`.** -/
theorem allocIfNotPresent_low (h : Tables (mask s) level) (hp : (mask s).TableAt path p)
    (hlen : path.length ≤ 2) (hn : n ≤ kernelPml4) (hi : path = [] → i < n)
    (hs : s.allocIfNotPresent p i (entryFlags type) = .done (q, s')) :
    (mask s).allocIfNotPresent p i (entryFlags type) = .done (q, mask s') ∧
      (∃ level', Tables (mask s') level') ∧ (mask s').TableAt (path ++ [i]) q ∧ Low n s s' := by
  obtain ⟨hown, hroot⟩ := Tables.own h hp
  have hlow : p = s.pml4_ → i < n := fun heq => hi (hroot heq)
  have hne : ¬ (p = s.pml4_ ∧ i = kernelPml4) := by
    rintro ⟨heq, rfl⟩
    exact absurd (hlow heq) (Nat.not_lt.mpr hn)
  have hmask := mask_allocIfNotPresent hne hs
  obtain ⟨level', h', -, hq, -⟩ := h.allocIfNotPresent hp hlen hmask
  refine ⟨hmask, ⟨level', h'⟩, hq, ?_⟩
  -- a present entry is followed, an absent one is written
  rw [allocIfNotPresent] at hs
  by_cases hpresent : Present (s.mem p i)
  · rw [if_pos hpresent] at hs
    obtain ⟨-, hs⟩ := Outcome.require_bind_eq_done.mp hs
    cases hs
    exact .of_sameTables ⟨rfl, rfl, rfl, rfl⟩
  · rw [if_neg hpresent] at hs
    rw [MemoryManager.allocTableEntry] at hs
    obtain ⟨⟨page, s₁⟩, halloc, hs⟩ := Outcome.bind_eq_done.mp hs
    cases hs
    have hlow₁ : Low n s s₁ := .allocTable (Tables.root_not_mem_pool h) halloc
    obtain ⟨pool, -, hs₁⟩ := allocTable_eq_done halloc
    refine hlow₁.trans (.writeEntry (.inl ?_) ?_ _)
    · rw [hs₁]
      exact List.mem_cons_of_mem _ hown
    · rw [hlow₁.pml4_]
      exact hlow

/-- A write to a table other than the root. -/
theorem writeEntry_low {w : Word} (h : Tables (mask s) level) (hp : (mask s).TableAt path p)
    (hpath : path ≠ []) :
    mask (s.writeEntry p i w) = (mask s).writeEntry p i w ∧ Low n s (s.writeEntry p i w) := by
  obtain ⟨hown, hroot⟩ := Tables.own h hp
  have hne : p ≠ s.pml4_ := fun heq => hpath (hroot heq)
  exact ⟨mask_writeEntry (fun hslot => hne hslot.1) w,
    .writeEntry (.inl hown) (fun heq => absurd heq hne) w⟩

/-- **Mapping a page below `n`** does the same without the kernel's entry. -/
theorem mapPage_low (h : Tables (mask s) level) (hn : n ≤ kernelPml4) (hvirt : pml4e virt < n)
    (hs : s.mapPage virt type phys = .done s') :
    (mask s).mapPage virt type phys = .done (mask s') ∧ Low n s s' := by
  rw [mapPage] at hs ⊢
  obtain ⟨⟨pdp, s₁⟩, h₁, hs⟩ := Outcome.bind_eq_done.mp hs
  obtain ⟨hm₁, ⟨level₁, ht₁⟩, hp₁, hlow₁⟩ :=
    allocIfNotPresent_low h .root (by simp) hn (fun _ => hvirt) h₁
  rcases leafLevel_cases type with ⟨-, hgb, -⟩ | ⟨-, hgb, hmb, -⟩ | ⟨-, hgb, hmb, -⟩
  · simp only [hgb, if_true] at hs
    cases hs
    obtain ⟨hmask, hlow⟩ := writeEntry_low ht₁ hp₁ (by simp)
    refine ⟨Outcome.bind_eq_done.mpr ⟨(pdp, mask s₁), hm₁, ?_⟩, hlow₁.trans hlow⟩
    rw [hmask]
    exact if_pos hgb
  · simp only [hgb, if_false] at hs
    obtain ⟨⟨pd, s₂⟩, h₂, hs⟩ := Outcome.bind_eq_done.mp hs
    obtain ⟨hm₂, ⟨level₂, ht₂⟩, hp₂, hlow₂⟩ :=
      allocIfNotPresent_low ht₁ hp₁ (by simp) hn (by simp) h₂
    simp only [hmb, if_true] at hs
    cases hs
    obtain ⟨hmask, hlow⟩ := writeEntry_low ht₂ hp₂ (by simp)
    refine ⟨Outcome.bind_eq_done.mpr ⟨(pdp, mask s₁), hm₁, ?_⟩, (hlow₁.trans hlow₂).trans hlow⟩
    simp only [hgb, if_false]
    refine Outcome.bind_eq_done.mpr ⟨(pd, mask s₂), hm₂, ?_⟩
    rw [hmask]
    exact if_pos hmb
  · simp only [hgb, if_false] at hs
    obtain ⟨⟨pd, s₂⟩, h₂, hs⟩ := Outcome.bind_eq_done.mp hs
    obtain ⟨hm₂, ⟨level₂, ht₂⟩, hp₂, hlow₂⟩ :=
      allocIfNotPresent_low ht₁ hp₁ (by simp) hn (by simp) h₂
    simp only [hmb, if_false] at hs
    obtain ⟨⟨pt, s₃⟩, h₃, hs⟩ := Outcome.bind_eq_done.mp hs
    obtain ⟨hm₃, ⟨level₃, ht₃⟩, hp₃, hlow₃⟩ :=
      allocIfNotPresent_low ht₂ hp₂ (by simp) hn (by simp) h₃
    cases hs
    obtain ⟨hmask, hlow⟩ := writeEntry_low ht₃ hp₃ (by simp)
    refine ⟨Outcome.bind_eq_done.mpr ⟨(pdp, mask s₁), hm₁, ?_⟩,
      ((hlow₁.trans hlow₂).trans hlow₃).trans hlow⟩
    simp only [hgb, if_false]
    refine Outcome.bind_eq_done.mpr ⟨(pd, mask s₂), hm₂, ?_⟩
    simp only [hmb, if_false]
    refine Outcome.bind_eq_done.mpr ⟨(pt, mask s₃), hm₃, ?_⟩
    rw [hmask]
    rfl

/-- A range is its first page and the rest. -/
theorem Below.split (h : Below n virt length) (hn : n ≤ kernelPml4) (hne : length ≠ 0)
    (hmod : length.toNat % type.pageSize.toNat = 0) :
    pml4e virt < n ∧ (length - type.pageSize).toNat % type.pageSize.toNat = 0 ∧
      ∀ v, InRange (virt + type.pageSize) (length - type.pageSize) v → InRange virt length v := by
  have hpos : length.toNat ≠ 0 := by simpa [BitVec.toNat_eq] using hne
  have hv := virt.isLt
  have hl := length.isLt
  rw [kernelPml4] at hn
  -- the range ends below `2^64`, where the entries are the last one
  have hwrap : virt.toNat + length.toNat < 2 ^ 64 := by
    by_contra hwrap
    have htop := h (BitVec.ofNat 64 (2 ^ 64 - 1))
    rw [pml4e_eq] at htop
    rw [InRange] at htop
    simp only [BitVec.toNat_ofNat] at htop
    omega
  have hfirst : pml4e virt < n := h virt ⟨le_refl _, by omega⟩
  rcases pageSize_toNat type with hP | hP | hP <;> rw [hP] at hmod
  all_goals
    refine ⟨hfirst, ?_, fun v => ?_⟩ <;>
    simp only [InRange, BitVec.toNat_add, BitVec.toNat_sub, hP] <;> omega

/-- **The loop of `do_map_memory`**, in the same way. -/
theorem mapLoop_low (h : Tables (mask s) level) (hn : n ≤ kernelPml4) (hvirt : Below n virt length)
    (hmod : length.toNat % type.pageSize.toNat = 0)
    (hs : mapLoop type fuel s virt length phys = .done s') :
    mapLoop type fuel (mask s) virt length phys = .done (mask s') ∧ Low n s s' := by
  induction fuel generalizing s level virt length phys with
  | zero => simp [mapLoop] at hs
  | succ fuel ih =>
    rw [mapLoop] at hs ⊢
    by_cases hne : length ≠ 0
    · rw [if_pos hne] at hs ⊢
      obtain ⟨s₁, h₁, hs⟩ := Outcome.bind_eq_done.mp hs
      obtain ⟨hfirst, hmod', hrest⟩ := hvirt.split hn hne hmod
      obtain ⟨hmask, hlow₁⟩ := mapPage_low h hn hfirst h₁
      obtain ⟨level₁, ht₁, -⟩ := h.mapPage hmask
      obtain ⟨hmask', hlow⟩ := ih ht₁ (fun v hv => hvirt v (hrest v hv)) hmod' hs
      exact ⟨by rw [hmask]; exact hmask', hlow₁.trans hlow⟩
    · rw [if_neg hne] at hs ⊢
      cases hs
      exact ⟨rfl, .of_sameTables ⟨rfl, rfl, rfl, rfl⟩⟩

/-! ## Unmapping -/

/-- **A pointer is followed** where no larger page is in the way. -/
theorem tableAt_of_present {rest : List ℕ} (h : Tables s level) (hp : s.TableAt path p)
    (hlen : path.length < 4)
    (hsmall : ∀ n w, s.entryAt (path ++ i :: rest) = some (n, w) → n < 4 - path.length)
    (hq : presentTableEntry (s.mem p i) = .done q) : s.TableAt (path ++ [i]) q := by
  rw [presentTableEntry] at hq
  obtain ⟨hpresent, hq⟩ := Outcome.require_bind_eq_done.mp hq
  cases hq
  refine hp.step ?_
  obtain ⟨k, hk⟩ : ∃ k, 4 - path.length = k + 1 := ⟨3 - path.length, by omega⟩
  have hlookup := hp.lookup h.forest h.root (i :: rest)
  rw [hk] at hlookup hsmall ⊢
  rw [RadixTable.lookup] at hlookup
  -- the entry is present, and it is no page
  by_cases htable : k + 1 = 4 ∨ (k + 1 = 2 ∨ k + 1 = 3) ∧ ¬ Large (s.mem p i)
  · rw [kind, if_neg (not_not.mpr hpresent), if_pos htable]
  · have hleaf : kind (k + 1) (s.mem p i) = .leaf := by
      rw [kind, if_neg (not_not.mpr hpresent), if_neg htable]
    rw [hleaf] at hlookup
    exact absurd (hsmall _ _ hlookup) (lt_irrefl _)

/-- Clearing an entry makes no page larger. -/
theorem clear_low (h : Tables (mask s) level) (hp : (mask s).TableAt path p)
    (hlen : path.length < 4) (hpath : path ≠ []) :
    Tables (mask (s.writeEntry p i 0)) level ∧ Low n s (s.writeEntry p i 0) ∧
      ∀ is e, (mask (s.writeEntry p i 0)).entryAt is = some e → (mask s).entryAt is = some e := by
  obtain ⟨hmask, hlow⟩ := writeEntry_low h hp hpath
  obtain ⟨h', -, he⟩ := h.writeEntry hp hlen (kind_zero_ne_table (4 - path.length))
  rw [hmask]
  refine ⟨h', hlow, fun is e => ?_⟩
  rw [he, kind_zero]
  by_cases hpre : path ++ [i] <+: is <;> simp [hpre]

/-- **Unmapping a page below `n`**, if it is in no larger page. -/
theorem unmapPage_low (h : Tables (mask s) level) (hn : n ≤ kernelPml4) (hvirt : pml4e virt < n)
    (hsmall : ∀ n w, (mask s).entryAt (indices virt) = some (n, w) → n ≤ leafLevel type)
    (hs : s.unmapPage virt type = .done s') :
    Tables (mask s') level ∧ Low n s s' ∧
      ∀ is e, (mask s').entryAt is = some e → (mask s).entryAt is = some e := by
  rw [unmapPage] at hs
  obtain ⟨pdp, h₁, hs⟩ := Outcome.bind_eq_done.mp hs
  have hkernel : ¬ (s.pml4_ = s.pml4_ ∧ pml4e virt = kernelPml4) := by
    rintro ⟨-, heq⟩
    rw [heq] at hvirt
    exact absurd hvirt (Nat.not_lt.mpr hn)
  have hother : ∀ {path p i}, (mask s).TableAt path p → path ≠ [] →
      (mask s).mem p i = s.mem p i := fun hp hpath =>
    mask_mem_of_ne fun hslot => hpath ((Tables.own h hp).2 hslot.1)
  have hle : leafLevel type ≤ 3 := by
    rcases leafLevel_cases type with ⟨hl, -⟩ | ⟨hl, -⟩ | ⟨hl, -⟩ <;> omega
  -- a table above the page has pointers only
  have habove : ∀ path : List ℕ, path.length + leafLevel type < 4 → ∀ n w,
      (mask s).entryAt (indices virt) = some (n, w) → n < 4 - path.length := by
    intro path hpath n w hw
    have hle := hsmall n w hw
    omega
  rw [← mask_mem_of_ne hkernel] at h₁
  have hp₁ : (mask s).TableAt ([] ++ [pml4e virt]) pdp :=
    tableAt_of_present h .root (by simp) (habove [] (by rw [List.length_nil]; omega)) h₁
  rcases leafLevel_cases type with ⟨hl, hgb, -⟩ | ⟨hl, hgb, hmb, -⟩ | ⟨hl, hgb, hmb, -⟩
  · simp only [hgb, if_true, Outcome.pure_eq, Outcome.done.injEq] at hs
    subst hs
    exact clear_low h hp₁ (by simp) (by simp)
  · simp only [hgb, if_false] at hs
    obtain ⟨pd, h₂, hs⟩ := Outcome.bind_eq_done.mp hs
    rw [← hother hp₁ (by simp)] at h₂
    have hp₂ := tableAt_of_present h hp₁ (by simp) (habove _ (by simp [hl])) h₂
    simp only [hmb, if_true, Outcome.pure_eq, Outcome.done.injEq] at hs
    subst hs
    exact clear_low h hp₂ (by simp) (by simp)
  · simp only [hgb, if_false] at hs
    obtain ⟨pd, h₂, hs⟩ := Outcome.bind_eq_done.mp hs
    rw [← hother hp₁ (by simp)] at h₂
    have hp₂ := tableAt_of_present h hp₁ (by simp) (habove _ (by simp [hl])) h₂
    simp only [hmb, if_false] at hs
    obtain ⟨pt, h₃, hs⟩ := Outcome.bind_eq_done.mp hs
    rw [← hother hp₂ (by simp)] at h₃
    have hp₃ := tableAt_of_present h hp₂ (by simp) (habove _ (by simp [hl])) h₃
    simp only [Outcome.pure_eq, Outcome.done.injEq] at hs
    subst hs
    exact clear_low h hp₃ (by simp) (by simp)

/-- The loop of `do_unmap_memory` ends after whole pages only. -/
theorem unmapLoop_mod (hs : unmapLoop type fuel s virt length = .done s') :
    length.toNat % type.pageSize.toNat = 0 := by
  induction fuel generalizing s virt length with
  | zero => simp [unmapLoop] at hs
  | succ fuel ih =>
    rw [unmapLoop] at hs
    split_ifs at hs with hne
    · obtain ⟨s₁, -, hs⟩ := Outcome.bind_eq_done.mp hs
      have hrest := ih hs
      have hl := length.isLt
      rw [BitVec.toNat_sub] at hrest
      rcases pageSize_toNat type with hP | hP | hP <;> rw [hP] at hrest ⊢ <;> omega
    · have hzero : length = 0 := not_not.mp hne
      rw [hzero]
      exact Nat.zero_mod _

/-- **The loop of `do_unmap_memory`**, in the same way. -/
theorem unmapLoop_low (h : Tables (mask s) level) (hn : n ≤ kernelPml4)
    (hvirt : Below n virt length)
    (hsmall : ∀ v, InRange virt length v → ∀ n w,
      (mask s).entryAt (indices v) = some (n, w) → n ≤ leafLevel type)
    (hs : unmapLoop type fuel s virt length = .done s') :
    Tables (mask s') level ∧ Low n s s' := by
  induction fuel generalizing s virt length with
  | zero => simp [unmapLoop] at hs
  | succ fuel ih =>
    have hmod := unmapLoop_mod hs
    rw [unmapLoop] at hs
    split_ifs at hs with hne
    · obtain ⟨s₁, h₁, hs⟩ := Outcome.bind_eq_done.mp hs
      obtain ⟨hfirst, -, hrest⟩ := hvirt.split hn hne hmod
      have hpos : length.toNat ≠ 0 := by simpa [BitVec.toNat_eq] using hne
      obtain ⟨ht₁, hlow₁, he₁⟩ := unmapPage_low h hn hfirst
        (hsmall virt ⟨le_refl _, Nat.lt_add_of_pos_right (Nat.pos_of_ne_zero hpos)⟩) h₁
      obtain ⟨ht, hlow⟩ := ih ht₁ (fun v hv => hvirt v (hrest v hv))
        (fun v hv n w hw => hsmall v (hrest v hv) n w (he₁ _ _ hw)) hs
      exact ⟨ht, hlow₁.trans hlow⟩
    · cases hs
      exact ⟨h, .of_sameTables ⟨rfl, rfl, rfl, rfl⟩⟩

/-! ## Every run in the lower half -/

/-- What holds in every run: the manager has tables of its own apart from the
kernel's entry, and the upper half is the kernel's. -/
structure Inv (kernel : Word) (s : MemoryManager) : Prop where
  /-- the tables of the lower half -/
  tables : ∃ level, Tables (mask s) level
  /-- the kernel has its tables -/
  apart : Apart kernel s
  /-- and the entries of the upper half -/
  upper : UpperEntries kernel s

/-- Without the kernel's entry, a new manager is what it was made from. -/
theorem mask_create {base : MemoryManager} (h : base.mem base.pml4_ kernelPml4 = 0) :
    mask (create base kernel) = base := by
  have hmem : (mask (create base kernel)).mem = base.mem := by
    funext p i
    simp only [mask, DefaultMemoryManager.create, MemoryManager.writeEntry, RadixTable.write]
    split_ifs with hslot
    · rw [hslot.1, hslot.2, h]
    · rfl
  exact congrArg (fun mem => { base with mem := mem }) hmem

theorem Init.inv (h : Init kernel s) : Inv kernel s := by
  obtain ⟨base, hbase, -, hs⟩ := h.create
  obtain ⟨level, ht⟩ := hbase.tables
  have hpml4 : s.pml4_ = base.pml4_ := by rw [hs]; rfl
  have hself : s.mem s.pml4_ kernelPml4 = base.mem kernel kernelPml4 := by
    rw [hpml4, hs]
    exact write_self _ _ _ _
  have hne : kernel ≠ s.pml4_ := by
    intro heq
    refine h.apart [] kernel .root (.inl ?_)
    rw [heq, hpml4, hs]
    exact ht.used ht.root
  have hmask : mask s = base := by
    rw [hs]
    exact mask_create (hbase.clear _)
  refine ⟨⟨level, hmask ▸ ht⟩, h.apart, ?_, fun i _ hi => ?_⟩
  · rw [hself, hs]
    refine (write_of_ne ?_).symm
    rintro ⟨heq, -⟩
    exact hne (heq.trans hpml4.symm)
  · have hclear : s.mem s.pml4_ i = 0 := by
      rw [hpml4, hs]
      refine (write_of_ne ?_).trans (hbase.clear i)
      rintro ⟨-, heq⟩
      exact hi heq
    rw [hclear]
    decide

/-- A mapped range starts where the request says. -/
theorem mapMemory_start (hs : mapMemory s fuel virt length type phys = .done (ret, s')) :
    ret = startOf s virt ∧ s.mapMemory fuel virt length type phys = .done (ret, s') := by
  rw [mapMemory] at hs
  obtain ⟨hkernel, hs⟩ := Outcome.require_bind_eq_done.mp hs
  obtain ⟨-, hs⟩ := Outcome.require_bind_eq_done.mp hs
  refine ⟨?_, hs⟩
  have hclose : virt ≠ mapAllocVirtCloseToKernel := by
    rintro rfl
    exact hkernel (by decide) (by decide)
  rw [mapMemory_ret hs, mapStart, startOf]
  by_cases halloc : virt = mapAllocVirt
  · rw [if_pos (.inl halloc), if_pos halloc]
  · rw [if_neg (not_or.mpr ⟨halloc, hclose⟩), if_neg halloc]

/-- A given address is in the lower half. -/
theorem mapMemory_lower (hs : mapMemory s fuel virt length type phys = .done (ret, s'))
    (hvirt : virt ≠ mapAllocVirt) : pml4e virt < 0x100 := by
  rw [mapMemory] at hs
  obtain ⟨-, hs⟩ := Outcome.require_bind_eq_done.mp hs
  exact (Outcome.require_bind_eq_done.mp hs).1 hvirt

/-- **A call in the lower half** keeps to the lower half. -/
theorem LowerCall.low (h : LowerCall s s') (ht : Tables (mask s) level) :
    (∃ level', Tables (mask s') level') ∧ Low 0x100 s s' := by
  have hn : 0x100 ≤ kernelPml4 := by decide
  cases h with
  | @map fuel virt length phys ret type hrun hlower =>
    obtain ⟨rfl, hrun⟩ := mapMemory_start hrun
    have hm := mapMemory_eq_done hrun
    obtain ⟨s₁, hsame, -, hloop⟩ := hm.run
    have ht₁ := ht.congr (mask_congr hsame)
    obtain ⟨hmask, hlow⟩ := mapLoop_low ht₁ hn hlower hm.length_mod hloop
    obtain ⟨level', ht', -⟩ := ht₁.mapLoop hmask
    exact ⟨⟨level', ht'⟩, (Low.of_sameTables hsame).trans hlow⟩
  | @unmap fuel virt length hrun hlower hsmall =>
    obtain ⟨m, tree, s₁, hfind, -, -, hloop, -, hs'⟩ := unmapMemory_eq_done hrun
    have hsame : SameTables s { s with memoryMapTree_ := tree } := ⟨rfl, rfl, rfl, rfl⟩
    have hsame' : SameTables s₁ s' := by
      rw [hs']
      exact ⟨rfl, rfl, rfl, rfl⟩
    have ht₀ := ht.congr (mask_congr hsame)
    obtain ⟨ht₁, hlow⟩ := unmapLoop_low ht₀ hn hlower (fun v hv n w hw => by
      refine hsmall m hfind v hv n w ?_
      -- the kernel's entry is not on the path of `v`
      rw [mask_entryAt ht₀] at hw
      · exact hw
      · have hv' := hlower v hv
        simp only [indices, List.cons_prefix_cons, not_and]
        intro heq
        rw [← heq] at hv'
        exact absurd hv' (by decide)) hloop
    exact ⟨⟨level, ht₁.congr (mask_congr hsame')⟩,
      ((Low.of_sameTables hsame).trans hlow).trans (.of_sameTables hsame')⟩

/-- **The invariant survives a call** in the lower half, and the translations of
the upper half stay. -/
theorem Inv.call (h : Inv kernel s) (hcall : LowerCall s s') :
    Inv kernel s' ∧ SameUpper s s' := by
  obtain ⟨level, ht⟩ := h.tables
  obtain ⟨ht', hlow⟩ := hcall.low ht
  exact ⟨⟨ht', hlow.apart h.apart, hlow.upperEntries h.apart h.upper⟩,
    hlow.sameUpper h.apart h.upper ht.isPage⟩

/-- The rest of the system does not touch the manager's tables. -/
theorem Inv.elsewhere (h : Inv kernel s) (he : Elsewhere kernel s s') : Inv kernel s' := by
  obtain ⟨level, ht⟩ := h.tables
  have hpml4 : s'.pml4_ = s.pml4_ := by rw [he.eq]
  have hroot : ∀ i, s'.mem s'.pml4_ i = s.mem s.pml4_ i := by
    intro i
    rw [hpml4]
    exact he.mem _ (ht.used ht.root) i
  refine ⟨⟨level, ?_⟩, he.apart, ?_, fun i hi hne => ?_⟩
  · refine ht.elsewhere ⟨fun p hp i => ?_, he.pool, ?_⟩
    · simp only [mask, MemoryManager.writeEntry, RadixTable.write, hpml4]
      rw [he.mem p hp i]
    · rw [he.eq]
      rfl
  · rw [hroot, he.entry]
    exact h.upper.kernel
  · rw [hroot]
    exact h.upper.absent i hi hne

theorem reachable_inv (hs : Reachable kernel LowerCall s) : Inv kernel s := by
  refine Reach.invariant (Inv kernel) hs (fun s h => h.inv) ?_
  rintro s s' h (hcall | he)
  · exact (h.call hcall).1
  · exact h.elsewhere he

/-- **The upper half stays the kernel's** in every run whose calls are in the
lower half. -/
theorem lower_half (hs : Reachable kernel LowerCall s) : UpperSafe kernel LowerCall s := by
  have h := reachable_inv hs
  exact ⟨h.upper, fun s' hcall => (h.call hcall).2⟩

/-- A manager for the lower half with seven free pages; the kernel has its root
table at `0x100000` and maps 1 GB in the upper half. -/
def lower : MemoryManager :=
  { fresh with
    mem := fun p i => if p = 0x100000 ∧ i = kernelPml4 then 0x101003
      else if p = 0x101000 ∧ i = 0x1fe then 0x83 else 0
    pool := [0x2000, 0x3000, 0x4000, 0x5000, 0x6000, 0x7000, 0x8000]
    freeVirtBase_ := 0x100000 }

/-- The manager of a new process. -/
def process : MemoryManager := create lower 0x100000

theorem process_init : Init 0x100000 process where
  create := by
    refine ⟨lower, ⟨by decide, rfl, fun i => ?_, ⟨by decide, fun p hp => ?_⟩, rfl⟩, rfl, rfl⟩
    · simp [lower, fresh]
    · simp only [lower, List.mem_cons, List.not_mem_nil, or_false] at hp
      rcases hp with rfl | rfl | rfl | rfl | rfl | rfl | rfl <;>
        exact ⟨by decide, by simp [lower, fresh]⟩
  apart := by
    -- the kernel has two tables
    have htables : ∀ path p, Reaches kind process.mem 4 0x100000 path p →
        path.length = 0 ∧ p = 0x100000 ∨ path.length = 1 ∧ p = 0x101000 := by
      intro path p hp
      induction hp with
      | root => exact .inl ⟨rfl, rfl⟩
      | @step path i p q _ hq ih =>
        rcases ih with ⟨hlen, rfl⟩ | ⟨hlen, rfl⟩
        · rw [hlen] at hq
          by_cases hi : i = kernelPml4
          · subst hi
            exact .inr ⟨by simp [hlen], (Entry.table.inj hq).symm⟩
          · have hzero : process.mem 0x100000 i = 0 := by
              simp [process, create, lower, writeEntry, RadixTable.write, fresh, hi]
            rw [hzero] at hq
            exact absurd hq (kind_zero_ne_table _ _)
        · rw [hlen] at hq
          by_cases hi : i = 0x1fe
          · subst hi
            have hleaf : kind (4 - 1) (process.mem 0x101000 0x1fe) = .leaf := by decide
            rw [hleaf] at hq
            cases hq
          · have hzero : process.mem 0x101000 i = 0 := by
              simp [process, create, lower, writeEntry, RadixTable.write, fresh, hi]
            rw [hzero] at hq
            exact absurd hq (kind_zero_ne_table _ _)
    intro path p hp
    rcases htables path p hp with ⟨-, rfl⟩ | ⟨-, rfl⟩ <;> unfold Own <;> decide

/-- Map a page and unmap it. -/
theorem lower_half_process : ∃ s s', mapMemory process 10 0x200000 0x1000 MemoryType.read 0x8000 =
    .done (0x200000, s) ∧ s.unmapMemory 10 0x200000 0x1000 = .done s' ∧
      UpperSafe 0x100000 LowerCall s' := by
  obtain ⟨s, s', hmap, hunmap, hfind, htype, hentry⟩ : ∃ s s',
      mapMemory process 10 0x200000 0x1000 MemoryType.read 0x8000 = .done (0x200000, s) ∧
        s.unmapMemory 10 0x200000 0x1000 = .done s' ∧
        s.findMapping 10 0x200000 0x1000 = .done (some 0) ∧
        leafLevel (s.mappings 0).type_ = 1 ∧
        s.entryAt [0, 0, 1, 0] = some (1, 0x8000000000008001) :=
    ⟨_, _, rfl, rfl, rfl, rfl, rfl⟩
  have hlower : Below 0x100 0x200000 0x1000 := by
    intro v hv
    have hv' : 0x200000 ≤ v.toNat ∧ v.toNat < 0x200000 + 0x1000 := hv
    rw [pml4e_eq]
    omega
  have hlarger : NoLarger s 10 0x200000 0x1000 := by
    intro m hm v hv n w hw
    rw [hfind] at hm
    cases hm
    have hindices : indices v = [0, 0, 1, 0] := by
      have hv' : 0x200000 ≤ v.toNat ∧ v.toNat < 0x200000 + 0x1000 := hv
      simp only [indices, pml4e_eq, pdpe_eq, pde_eq, pte_eq, List.cons.injEq, and_true]
      omega
    rw [hindices, hentry] at hw
    cases hw
    exact htype.ge
  have hs : Reachable 0x100000 LowerCall s' :=
    .step (.step (.start process_init) (.inl (.map hmap hlower))) (.inl (.unmap hunmap hlower hlarger))
  exact ⟨s, s', hmap, hunmap, lower_half hs⟩

/-- Map the last page of the lower half and the page behind it. -/
theorem not_lower_half : ¬ ∀ (kernel : Word) (s : MemoryManager),
    Reachable kernel Call s → UpperSafe kernel Call s := by
  intro h
  obtain ⟨s, hmap, hpresent⟩ : ∃ s,
      mapMemory process 10 0x7ffffffff000 0x2000 MemoryType.read 0x8000 = .done (0x7ffffffff000, s) ∧
        Present (s.mem s.pml4_ 0x100) := ⟨_, rfl, by decide⟩
  have hs : Reachable 0x100000 Call s := .step (.start process_init) (.inl (.map hmap))
  exact (h 0x100000 s hs).1.absent 0x100 (le_refl _) (by decide) hpresent

end DefaultMemoryManager

end Attos
