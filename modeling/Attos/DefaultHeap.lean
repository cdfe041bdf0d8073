import Attos.SimpleHeapRun

/-!
# The default heap

`default_heap` of `attos/mem.cpp` puts a header in front of each allocation:
the number of bytes taken from the simple heap, and a cookie, the address of
the header itself. `free` finds the size there and checks the cookie.

A run allocates, frees what it got, and writes to the bytes it asked for. Next
to each live allocation it records which bytes left the free list when it was
made (`Allocation.taken`). The invariant (`Inv`) is the one of the simple heap,
for the blocks that the headers describe, together with the headers.

Header and rounding are added to the size in 64-bit arithmetic. The sum wraps
for the 31 largest sizes, and a heap with free memory then hands out one node,
or none, instead of giving up (`not_allocSound`). Below that every allocation is
placed and given back as it should be (`allocSound_iff_freeExact`).
-/

namespace Attos

open Lib

/-- A heap whose allocations carry their size. -/
structure DefaultHeap : Type where
  /-- the heap the memory comes from -/
  heap_ : SimpleHeap

namespace DefaultHeap

/-- The alignment of the allocations, and the size of the header. -/
def align : ℕ := 16

/-- `round_up` for 64-bit numbers. -/
def roundUp (val align : ℕ) : ℕ :=
  if val % align ≠ 0 then sub64 (u64 (val + align)) (val % align) else val

/-- Store the 64-bit word `v` at `a`. -/
def setWord (h : SimpleHeap) (a v : ℕ) : SimpleHeap :=
  { h with mem := Function.update h.mem a v }

@[simp] theorem setWord_mem (h : SimpleHeap) (a v : ℕ) :
    (setWord h a v).mem = Function.update h.mem a v := rfl

/-- The constructor, over the memory contents `mem`. -/
def new (mem : ℕ → ℕ) (base length : ℕ) : Outcome DefaultHeap := do
  let heap ← SimpleHeap.new mem base length
  .done ⟨heap⟩

/-- The size with the header, as `alloc` computes it. -/
def extended (size : ℕ) : ℕ := roundUp (u64 (size + align)) align

/-- Allocate `size` bytes behind a header. -/
def alloc (h : DefaultHeap) (size : ℕ) : Outcome (ℕ × DefaultHeap) := do
  let size := extended size
  let (ptr, heap) ← h.heap_.alloc size
  let heap := setWord heap ptr size
  let heap := setWord heap (ptr + 8) ptr
  .done (u64 (ptr + align), ⟨heap⟩)

/-- Free the allocation at `ptr`. -/
def free (h : DefaultHeap) (ptr : ℕ) : Outcome DefaultHeap := do
  let p := sub64 ptr align
  let size := h.heap_.mem p
  Outcome.require (h.heap_.mem (p + 8) = p)
  let heap ← (setWord h.heap_ (p + 8) 0).free p size
  .done ⟨heap⟩

/-! ## Sizes -/

theorem roundUp_of_mod_eq {val n : ℕ} (h : val % n = 0) : roundUp val n = val :=
  if_neg (not_not.mpr h)

theorem roundUp_of_mod_ne {val n : ℕ} (h : val % n ≠ 0) :
    roundUp val n = sub64 (u64 (val + n)) (val % n) :=
  if_pos h

/-- The header and the rounding do not overflow. -/
theorem extended_of_le {size : ℕ} (h : size + 2 * align ≤ 2 ^ 64) :
    align ∣ extended size ∧ size + align ≤ extended size ∧ extended size < 2 ^ 64 := by
  have hval : u64 (size + align) = size + align := by
    simp only [align] at h ⊢
    exact u64_of_lt (by omega)
  by_cases hmod : u64 (size + align) % align = 0
  · rw [extended, roundUp_of_mod_eq hmod]
    rw [hval] at hmod ⊢
    simp only [align] at h hmod ⊢
    omega
  · rw [extended, roundUp_of_mod_ne hmod]
    rw [hval] at hmod ⊢
    simp only [align] at h hmod ⊢
    rw [u64_of_lt (by omega), sub64_of_le (by omega) (by omega)]
    omega

theorem extended_pos {size : ℕ} (h : size + 2 * align ≤ 2 ^ 64) : 0 < extended size := by
  have := (extended_of_le h).2.1
  simp only [align] at this
  omega

/-- From `2 ^ 64 - 31` on the sum wraps, and one node or nothing is left. -/
theorem extended_of_gt {size : ℕ} (h : 2 ^ 64 < size + 2 * align) (hsize : size < 2 ^ 64) :
    extended size = 0 ∨ extended size = nodeSize := by
  by_cases hmod : u64 (size + align) % align = 0
  · rw [extended, roundUp_of_mod_eq hmod]
    simp only [align, nodeSize, u64] at h hmod ⊢
    omega
  · rw [extended, roundUp_of_mod_ne hmod]
    simp only [align, nodeSize, u64, sub64] at h hmod ⊢
    omega

/-! ## Runs -/

/-- The bytes of the blocks in the free list. -/
def FreeBytes (R : Region) (h : DefaultHeap) : Set ℕ :=
  {i | ∃ fs, SimpleHeap.FreeList R h.heap_ fs ∧ i ∈ covered Block.bytes fs}

/-- An allocation that has not been given back. -/
structure Allocation : Type where
  /-- the pointer that `alloc` returned -/
  ptr : ℕ
  /-- the size it was asked for -/
  size : ℕ
  /-- the bytes that `alloc` took from the free list -/
  taken : Set ℕ

/-- The header and the bytes of the user. -/
def Allocation.storage (a : Allocation) : Set ℕ := Set.Ico (a.ptr - align) (a.ptr + a.size)

/-- The bytes of the user. -/
def Allocation.payload (a : Allocation) : Set ℕ := Set.Ico a.ptr (a.ptr + a.size)

/-- A heap and its live allocations. -/
structure Run : Type where
  /-- the heap -/
  heap : DefaultHeap
  /-- what has been allocated and not been freed -/
  live : List Allocation

/-- The constructor has just returned. -/
def Run.Init (R : Region) (s : Run) : Prop :=
  s.live = [] ∧ ∃ mem, DefaultHeap.new mem R.base R.length = .done s.heap

/-- One operation. `Ok` limits which sizes may be asked for in which states. -/
inductive Run.Step (R : Region) (Ok : DefaultHeap → ℕ → Prop) : Run → Run → Prop where
  /-- an allocation returns -/
  | alloc {h h' : DefaultHeap} {live : List Allocation} {size p : ℕ} :
      size < 2 ^ 64 → Ok h size → h.alloc size = .done (p, h') →
      Step R Ok ⟨h, live⟩ ⟨h', ⟨p, size, FreeBytes R h \ FreeBytes R h'⟩ :: live⟩
  /-- a live allocation is freed -/
  | free {h h' : DefaultHeap} {pre post : List Allocation} {a : Allocation} :
      h.free a.ptr = .done h' → Step R Ok ⟨h, pre ++ a :: post⟩ ⟨h', pre ++ post⟩
  /-- the users write to the bytes they asked for -/
  | write {h : DefaultHeap} {live : List Allocation} {mem : ℕ → ℕ} :
      (∀ i, (∀ a ∈ live, i ∉ a.payload) → mem i = h.heap_.mem i) →
      Step R Ok ⟨h, live⟩ ⟨⟨{ h.heap_ with mem := mem }⟩, live⟩

/-- `alloc` gives up, or what it returns is aligned, lies in the heap, and
overlaps neither a live allocation nor a node of the free list. -/
def AllocSound (R : Region) (s : Run) (size : ℕ) : Prop :=
  s.heap.alloc size = .abort ∨
    ∃ p h', s.heap.alloc size = .done (p, h') ∧ align ∣ p ∧ align ≤ p ∧
      Set.Ico (p - align) (p + size) ⊆ Set.Ico R.base R.fin ∧
      (∀ a ∈ s.live, Disjoint (Set.Ico (p - align) (p + size)) (a.storage ∪ a.taken)) ∧
      ∃ fs, SimpleHeap.FreeList R h'.heap_ fs ∧
        ∀ b ∈ fs, Disjoint (Set.Ico (p - align) (p + size)) b.bytes

/-- `free` passes its checks and puts back exactly the bytes that were taken. -/
def FreeExact (R : Region) (s : Run) (a : Allocation) : Prop :=
  ∃ h', s.heap.free a.ptr = .done h' ∧ FreeBytes R h' = FreeBytes R s.heap ∪ a.taken ∧
    Disjoint (FreeBytes R s.heap) a.taken

/-- The size does not overflow, or there is no free memory at all. -/
def Fits (h : DefaultHeap) (size : ℕ) : Prop :=
  size + 2 * align ≤ 2 ^ 64 ∨ h.heap_.free_ = endOfList

/-! ## The invariant -/

/-- The block that the header describes. -/
def Allocation.block (a : Allocation) : Block := ⟨a.ptr - align, extended a.size⟩

/-- The header of a live allocation, and where it lies. -/
structure Header (h : DefaultHeap) (a : Allocation) : Prop where
  /-- there is room for the header below the pointer -/
  room : align ≤ a.ptr
  /-- the pointer is aligned -/
  aligned : align ∣ a.ptr
  /-- the size did not overflow -/
  fits : a.size + 2 * align ≤ 2 ^ 64
  /-- the size word -/
  size_eq : h.heap_.mem a.block.ptr = a.block.size
  /-- the cookie -/
  cookie : h.heap_.mem (a.block.ptr + 8) = a.block.ptr
  /-- the block is what was taken from the free list -/
  taken_eq : a.taken = a.block.bytes

/-- The invariant: the one of the simple heap, and the headers. -/
structure Inv (R : Region) (s : Run) (fs : List Block) : Prop where
  /-- the free list and the blocks behind the headers tile the region -/
  simple : SimpleHeap.Inv R ⟨s.heap.heap_, s.live.map Allocation.block⟩ fs
  /-- free blocks are aligned -/
  aligned : ∀ b ∈ fs, align ∣ b.ptr
  /-- so is the end of the region -/
  end_aligned : align ∣ R.fin
  /-- every live allocation has its header -/
  header : ∀ a ∈ s.live, Header s.heap a

/-- The free bytes are those of the one free list. -/
theorem freeBytes_eq {R : Region} {h : DefaultHeap} {fs : List Block}
    (hf : SimpleHeap.FreeList R h.heap_ fs) : FreeBytes R h = covered Block.bytes fs := by
  ext i
  constructor
  · rintro ⟨fs', hf', hi⟩
    rwa [← hf.unique hf'] at hi
  · exact fun hi => ⟨fs, hf, hi⟩

/-- A word stored in a live block keeps the invariant of the simple heap. -/
theorem inv_setWord {R : Region} {h : SimpleHeap} {live fs : List Block}
    (hi : SimpleHeap.Inv R ⟨h, live⟩ fs) {b : Block} (hb : b ∈ live) {a : ℕ} (ha : a ∈ b.bytes)
    (v : ℕ) : SimpleHeap.Inv R ⟨setWord h a v, live⟩ fs := by
  refine hi.write fun i hout => Function.update_of_ne ?_ _ _
  rintro rfl
  exact hout b hb ha

/-- A list that ends at once is empty. -/
theorem eq_nil {R : Region} {h : SimpleHeap} {fs : List Block} (hf : SimpleHeap.FreeList R h fs)
    (hend : h.free_ = endOfList) : fs = [] := by
  cases fs with
  | nil => rfl
  | cons b bs =>
    have hptr : h.free_ = b.ptr := hf.chain.1
    exact absurd (hptr.symm.trans hend) (hf.node b List.mem_cons_self).ptr_lt.ne

/-- `alloc` gives up when no free block is large enough. -/
theorem alloc_of_none {R : Region} {h : DefaultHeap} {fs : List Block} {size : ℕ}
    (hf : SimpleHeap.FreeList R h.heap_ fs) (htake : takeFit (extended size) fs = none) : h.alloc size = .abort := by
  have habort : h.heap_.alloc (extended size) = .abort := SimpleHeap.alloc_of_none hf htake
  rw [DefaultHeap.alloc, habort]
  rfl

/-- A header does not change with memory it does not own. -/
theorem Header.congr {h h' : DefaultHeap} {a : Allocation} (ha : Header h a)
    (hmem : ∀ i, i = a.block.ptr ∨ i = a.block.ptr + 8 → h'.heap_.mem i = h.heap_.mem i) :
    Header h' a :=
  { ha with
    size_eq := (hmem _ (Or.inl rfl)).trans ha.size_eq
    cookie := (hmem _ (Or.inr rfl)).trans ha.cookie }

namespace Header

variable {h : DefaultHeap} {a : Allocation}

/-- The block starts with the header, and the user's bytes fit in the rest. -/
theorem bounds (ha : Header h a) : a.ptr = a.block.ptr + align ∧ a.ptr + a.size ≤ a.block.fin := by
  have hroom := ha.room
  have hext := (extended_of_le ha.fits).2.1
  simp only [Allocation.block, Block.fin]
  omega

theorem storage_subset (ha : Header h a) : a.storage ⊆ a.block.bytes := by
  intro i hi
  have hlo : a.ptr - align ≤ i := hi.1
  exact ⟨hlo, lt_of_lt_of_le hi.2 ha.bounds.2⟩

theorem payload_subset (ha : Header h a) : a.payload ⊆ a.block.bytes := by
  intro i hi
  have hlo : a.ptr ≤ i := hi.1
  exact ⟨le_trans (Nat.sub_le _ _) hlo, lt_of_lt_of_le hi.2 ha.bounds.2⟩

/-- The two words of the header lie in the block and before the user's bytes. -/
theorem words (ha : Header h a) {i : ℕ} (hi : i = a.block.ptr ∨ i = a.block.ptr + 8) :
    i ∈ a.block.bytes ∧ i ∉ a.payload := by
  have hb := ha.bounds
  simp only [align] at hb
  refine ⟨⟨?_, ?_⟩, fun hp => ?_⟩
  · omega
  · omega
  · have : a.ptr ≤ i := hp.1
    omega

end Header

namespace Inv

variable {R : Region} {s : Run} {fs : List Block}

/-- Two allocations do not share a byte. -/
theorem disjoint (hi : Inv R s fs) {a b : Allocation} (ha : a ∈ s.live) (hb : b ∈ s.live)
    (hab : a ≠ b) : Disjoint a.block.bytes b.block.bytes := by
  have hd := (List.pairwise_append.mp hi.simple.tiles.disjoint).1
  rcases rel_or_rel_of_pairwise (List.pairwise_map.mp hd) ha hb hab with h | h
  · exact h
  · exact h.symm

/-- An allocation and a free block do not share a byte. -/
theorem disjoint_free (hi : Inv R s fs) {a : Allocation} (ha : a ∈ s.live) {b : Block}
    (hb : b ∈ fs) : Disjoint a.block.bytes b.bytes :=
  (List.pairwise_append.mp hi.simple.tiles.disjoint).2.2 _ (List.mem_map_of_mem ha) _ hb

theorem node (hi : Inv R s fs) {a : Allocation} (ha : a ∈ s.live) : R.Node a.block :=
  hi.simple.node _ (List.mem_map_of_mem ha)

/-- The invariant does not depend on the order of the allocations. -/
theorem perm {live : List Allocation} (hi : Inv R s fs) (hp : s.live.Perm live) :
    Inv R ⟨s.heap, live⟩ fs where
  simple := hi.simple.perm (hp.map _)
  aligned := hi.aligned
  end_aligned := hi.end_aligned
  header a ha := hi.header a (hp.mem_iff.mpr ha)

/-- The constructor establishes the invariant. -/
theorem init (hbase : align ∣ R.base) (h : Run.Init R s) : Inv R s [⟨R.base, R.length⟩] := by
  obtain ⟨hlive, mem, hrun⟩ := h
  obtain ⟨heap, hnew, hdone⟩ := Outcome.bind_eq_done.1 hrun
  obtain ⟨⟨heap'⟩, live⟩ := s
  obtain rfl : heap = heap' := by simpa using hdone
  obtain rfl : live = [] := hlive
  have hlen : align ∣ R.length := by
    rw [SimpleHeap.new, Outcome.require_bind_eq_done, Outcome.require_bind_eq_done] at hnew
    exact Nat.dvd_of_mod_eq_zero hnew.2.1
  exact ⟨SimpleHeap.Inv.init ⟨rfl, mem, hnew⟩, by simpa using hbase, Nat.dvd_add hbase hlen,
    by simp⟩

/-- **Writes of the users keep the invariant.** -/
theorem write {mem : ℕ → ℕ} (hi : Inv R s fs)
    (hmem : ∀ i, (∀ a ∈ s.live, i ∉ a.payload) → mem i = s.heap.heap_.mem i) :
    Inv R ⟨⟨{ s.heap.heap_ with mem := mem }⟩, s.live⟩ fs := by
  refine ⟨hi.simple.write fun i hout => hmem i fun a ha hp => ?_, hi.aligned, hi.end_aligned,
    fun a ha => ?_⟩
  · exact hout a.block (List.mem_map_of_mem ha) ((hi.header a ha).payload_subset hp)
  · -- the header words of `a` are outside every payload, its own included
    refine (hi.header a ha).congr fun i hw => hmem i fun b hb hp => ?_
    obtain ⟨hin, hout⟩ := (hi.header a ha).words hw
    by_cases hab : a = b
    · exact hout (hab ▸ hp)
    · exact Set.disjoint_left.mp (hi.disjoint ha hb hab) hin ((hi.header b hb).payload_subset hp)

/-- **An allocation that the free list can serve** returns, and keeps the
invariant. -/
theorem alloc {size q : ℕ} {fs' : List Block} (hi : Inv R s fs) (hfin : R.fin < 2 ^ 64)
    (hfits : size + 2 * align ≤ 2 ^ 64) (htake : takeFit (extended size) fs = some (q, fs')) :
    ∃ h', s.heap.alloc size = .done (q + align, h') ∧
      Inv R ⟨h', ⟨q + align, size, FreeBytes R s.heap \ FreeBytes R h'⟩ :: s.live⟩ fs' := by
  obtain ⟨hdvd, hle, -⟩ := extended_of_le hfits
  have hpos := extended_pos hfits
  obtain ⟨h₁, hrun, -, hframe⟩ := SimpleHeap.alloc_of_some hi.simple.list hpos hdvd htake
  obtain ⟨fs'', htake', hi₁⟩ := hi.simple.alloc hpos hdvd hrun
  obtain rfl : fs' = fs'' := by simpa [htake] using htake'
  have hnode : R.Node ⟨q, extended size⟩ := hi₁.node _ (by simp)
  have hptr : u64 (q + align) = q + align := by
    have hhi := hnode.hi
    simp only [Block.fin_mk] at hhi
    exact u64_of_lt (by omega)
  have hsize : align ≤ extended size := by omega
  set heap := setWord (setWord h₁ q (extended size)) (q + 8) q with hheap
  have hi₂ : SimpleHeap.Inv R ⟨heap, ⟨q, extended size⟩ :: s.live.map Allocation.block⟩ fs' := by
    simp only [align] at hsize
    refine inv_setWord (inv_setWord hi₁ List.mem_cons_self ?_ _) List.mem_cons_self ?_ _
    · exact ⟨le_rfl, Nat.lt_add_of_pos_right hpos⟩
    · exact ⟨Nat.le_add_right _ _, by simp only [Block.fin_mk]; omega⟩
  have hwords : heap.mem q = extended size ∧ heap.mem (q + 8) = q := by
    simp [hheap]
  have hq : align ∣ q := by
    obtain ⟨pre, b, post, rfl, -, -, hr⟩ := takeFit_eq_some htake
    obtain rfl : q = b.ptr := congrArg Prod.fst hr
    exact hi.aligned b (by simp)
  -- what left the free list is the block of the new header
  have htaken : FreeBytes R s.heap \ FreeBytes R ⟨heap⟩ = (⟨q, extended size⟩ : Block).bytes := by
    obtain ⟨hunion, hdisj⟩ := hi.simple.tiles.move hi₂.tiles
    rw [freeBytes_eq hi.simple.list, @freeBytes_eq R ⟨heap⟩ _ hi₂.list, hunion,
      Set.union_sdiff_left, hdisj.symm.sdiff_eq_left]
  set a : Allocation := ⟨q + align, size, FreeBytes R s.heap \ FreeBytes R ⟨heap⟩⟩ with ha
  have hblock : a.block = ⟨q, extended size⟩ := by
    rw [Allocation.block, ha, Nat.add_sub_cancel]
  refine ⟨⟨heap⟩, ?_, ?_, ?_, hi.end_aligned, ?_⟩
  · rw [DefaultHeap.alloc, hrun]
    simp only [Outcome.done_bind, hptr]
    rfl
  · rw [List.map_cons, hblock]
    exact hi₂
  · refine takeFit_forall htake hi.aligned fun b hb _ => ?_
    exact Nat.dvd_add hb hdvd
  · refine List.forall_mem_cons.mpr ⟨?_, fun b hb => (hi.header b hb).congr fun i hw => ?_⟩
    · refine ⟨Nat.le_add_left _ _, Nat.dvd_add hq dvd_rfl, hfits, ?_, ?_, ?_⟩
      · rw [hblock]
        exact hwords.1
      · rw [hblock]
        exact hwords.2
      · rw [hblock]
        exact htaken
    · -- the older headers lie outside the free list, and outside the new block
      obtain ⟨hin, -⟩ := (hi.header b hb).words hw
      have hnew : i ∉ (⟨q, extended size⟩ : Block).bytes := fun hq =>
        Set.disjoint_left.mp ((List.pairwise_cons.mp hi₂.tiles.disjoint).1 b.block
          (List.mem_append_left _ (List.mem_map_of_mem hb))) hq hin
      simp only [Block.mem_bytes, Block.fin_mk, align] at hnew hsize
      have hold : h₁.mem i = s.heap.heap_.mem i :=
        hframe i fun c hc hic => Set.disjoint_left.mp (hi.disjoint_free hb hc) hin hic
      rw [← hold, hheap, setWord_mem, setWord_mem, Function.update_of_ne (by omega),
        Function.update_of_ne (by omega)]

/-- **Freeing an allocation** returns, and keeps the invariant. -/
theorem free {h : DefaultHeap} {a : Allocation} {live : List Allocation} (hi : Inv R ⟨h, a :: live⟩ fs)
    (hfin : R.fin < 2 ^ 64) :
    ∃ h', h.free a.ptr = .done h' ∧ Inv R ⟨h', live⟩ (freeInsert a.block fs) := by
  have ha : Header h a := hi.header a List.mem_cons_self
  have hnode : R.Node a.block := hi.node List.mem_cons_self
  have hbounds := ha.bounds
  have hp : sub64 a.ptr align = a.block.ptr := by
    have hhi := hnode.hi
    exact sub64_of_le ha.room (by omega)
  have hi₁ : SimpleHeap.Inv R
      ⟨setWord h.heap_ (a.block.ptr + 8) 0, a.block :: live.map Allocation.block⟩ fs :=
    inv_setWord hi.simple List.mem_cons_self (ha.words (Or.inr rfl)).1 0
  obtain ⟨h', hrun, hframe⟩ := hi₁.free_returns hfin List.mem_cons_self
  have hi₂ : SimpleHeap.Inv R ⟨h', live.map Allocation.block⟩ (freeInsert a.block fs) := by
    have h := hi₁.free List.mem_cons_self hrun
    rwa [List.erase_cons_head] at h
  refine ⟨⟨h'⟩, ?_, hi₂, ?_, hi.end_aligned, fun b hb => ?_⟩
  · rw [DefaultHeap.free]
    simp only [hp, ha.cookie, ha.size_eq, Outcome.require_true, Outcome.done_bind, hrun]
  · refine freeInsert_forall _ (Nat.dvd_sub ha.aligned dvd_rfl) hi.aligned fun c d hc _ _ => hc
  · -- the other headers lie in other blocks than the freed one, and outside the free list
    have hbin : b ∈ a :: live := List.mem_cons_of_mem _ hb
    refine (hi.header b hbin).congr fun i hw => ?_
    obtain ⟨hin, -⟩ := (hi.header b hbin).words hw
    have hab : i ∉ a.block.bytes := fun hia =>
      Set.disjoint_left.mp ((List.pairwise_cons.mp hi.simple.tiles.disjoint).1 b.block
        (List.mem_append_left _ (List.mem_map_of_mem hb))) hia hin
    have hfree : ∀ c ∈ a.block :: fs, R.Node c ∧ i ∉ c.bytes :=
      List.forall_mem_cons.mpr ⟨⟨hnode, hab⟩, fun c hc => ⟨hi.simple.list.node c hc, fun hic =>
        Set.disjoint_left.mp (hi.disjoint_free hbin hc) hin hic⟩⟩
    have huntouched : Untouched (a.block :: fs) i := by
      intro c hc
      obtain ⟨hcn, hic⟩ := hfree c hc
      have hcb := hcn.bounds
      simp only [Block.mem_bytes, nodeSize] at hic hcb
      omega
    rw [hframe i huntouched]
    refine Function.update_of_ne ?_ _ _
    rintro rfl
    exact hab (ha.words (Or.inr rfl)).1

/-- A list that ends at once is empty. -/
theorem free_eq_nil (hi : Inv R s fs) (h : s.heap.heap_.free_ = endOfList) : fs = [] := eq_nil hi.simple.list h

/-- `alloc` gives up when no free block is large enough. -/
theorem alloc_abort {size : ℕ} (hi : Inv R s fs) (htake : takeFit (extended size) fs = none) :
    s.heap.alloc size = .abort := alloc_of_none hi.simple.list htake

/-- An allocation whose size fits is sound. -/
theorem allocSound (hi : Inv R s fs) (hfin : R.fin < 2 ^ 64) {size : ℕ} (hfits : Fits s.heap size) :
    AllocSound R s size := by
  cases htake : takeFit (extended size) fs with
  | none => exact Or.inl (hi.alloc_abort htake)
  | some r =>
    obtain ⟨q, fs'⟩ := r
    have hsize : size + 2 * align ≤ 2 ^ 64 := by
      rcases hfits with h | h
      · exact h
      · rw [hi.free_eq_nil h] at htake
        cases htake
    obtain ⟨h', hrun, hi'⟩ := hi.alloc hfin hsize htake
    set a : Allocation := ⟨q + align, size, FreeBytes R s.heap \ FreeBytes R h'⟩ with ha
    have hlive : a ∈ a :: s.live := List.mem_cons_self
    have hhead := hi'.header a hlive
    refine Or.inr ⟨q + align, h', hrun, hhead.aligned, hhead.room, ?_, fun b hb => ?_,
      fs', hi'.simple.list, fun b hb => ?_⟩
    · refine hhead.storage_subset.trans ?_
      exact hi'.simple.tiles.subset (List.mem_append_left _ (List.mem_map_of_mem hlive))
    · have hd : Disjoint a.block.bytes b.block.bytes :=
        (List.pairwise_cons.mp hi'.simple.tiles.disjoint).1 b.block
          (List.mem_append_left _ (List.mem_map_of_mem hb))
      have hbh := hi.header b hb
      refine hd.mono hhead.storage_subset ?_
      rw [hbh.taken_eq]
      exact Set.union_subset hbh.storage_subset subset_rfl
    · exact (hi'.disjoint_free hlive hb).mono_left hhead.storage_subset

/-- A size that wraps is served from whatever is free, and is too large to be
served. -/
theorem not_allocSound (hi : Inv R s fs) (hfin : R.fin < 2 ^ 64) {size : ℕ} (hsize : size < 2 ^ 64)
    (hnot : ¬ Fits s.heap size) : ¬ AllocSound R s size := by
  obtain ⟨hbig, hfree⟩ := not_or.mp hnot
  have hend := hi.end_aligned
  rintro (habort | ⟨p, h', -, -, hroom, hin, -⟩)
  · cases fs with
    | nil => exact hfree hi.simple.list.chain
    | cons b bs =>
      have hle : extended size ≤ b.size := by
        have hb := (hi.simple.list.node b (by simp)).size_le
        rcases extended_of_gt (not_le.mp hbig) hsize with h | h
        · exact h ▸ Nat.zero_le _
        · exact h ▸ hb
      obtain ⟨r, hr⟩ := SimpleHeap.alloc_returns_of_head hi.simple.list hle
      rw [DefaultHeap.alloc, show s.heap.heap_.alloc (extended size) = .done r from hr] at habort
      cases habort
  · simp only [align] at hroom hbig hend
    have hlast : p + size - 1 ∈ Set.Ico (p - align) (p + size) := by
      simp only [Set.mem_Ico, align]
      omega
    have hlt := (hin hlast).2
    omega

/-- A live allocation is given back exactly. -/
theorem freeExact (hi : Inv R s fs) (hfin : R.fin < 2 ^ 64) {a : Allocation} (ha : a ∈ s.live) :
    FreeExact R s a := by
  obtain ⟨pre, post, hlive⟩ := List.append_of_mem ha
  have hi₁ : Inv R ⟨s.heap, a :: (pre ++ post)⟩ fs :=
    hi.perm (hlive ▸ List.perm_middle)
  obtain ⟨h', hrun, hi₂⟩ := hi₁.free hfin
  obtain ⟨hunion, hdisj⟩ := hi₂.simple.tiles.move hi₁.simple.tiles
  have htaken : a.taken = a.block.bytes := (hi.header a ha).taken_eq
  refine ⟨h', hrun, ?_, ?_⟩
  · rw [freeBytes_eq hi₂.simple.list, freeBytes_eq hi.simple.list, hunion, htaken]
  · rw [freeBytes_eq hi.simple.list, htaken]
    exact hdisj

end Inv

/-- **Every reachable state satisfies the invariant**, if the sizes fit. -/
theorem reachable_inv {R : Region} (hbase : align ∣ R.base) (hfin : R.fin < 2 ^ 64) {s : Run}
    (hs : Reach (Run.Init R) (Run.Step R Fits) s) : ∃ fs, Inv R s fs := by
  refine Reach.invariant (fun s => ∃ fs, Inv R s fs) hs (fun s h => ⟨_, Inv.init hbase h⟩) ?_
  rintro s t ⟨fs, hi⟩ hstep
  cases hstep with
  | @alloc h h' live size p hsize hfits hrun =>
    cases htake : takeFit (extended size) fs with
    | none =>
      rw [hi.alloc_abort htake] at hrun
      cases hrun
    | some r =>
      have hle : size + 2 * align ≤ 2 ^ 64 := by
        rcases hfits with hle | hnil
        · exact hle
        · rw [hi.free_eq_nil hnil] at htake
          cases htake
      obtain ⟨h'', hrun', hi'⟩ := hi.alloc hfin hle htake
      obtain ⟨rfl, rfl⟩ : r.1 + align = p ∧ h'' = h' := by
        have heq := hrun'.symm.trans hrun
        simpa using heq
      exact ⟨_, hi'⟩
  | @free h h' pre post a hrun =>
    have hi₁ : Inv R ⟨h, a :: (pre ++ post)⟩ fs := hi.perm List.perm_middle
    obtain ⟨h'', hrun', hi'⟩ := hi₁.free hfin
    obtain rfl : h'' = h' := by simpa using hrun'.symm.trans hrun
    exact ⟨_, hi'⟩
  | write hmem => exact ⟨fs, hi.write hmem⟩

/-- **Allocations of the default heap.** In every run in which no size
overflows while memory is free: an allocation is sound exactly if its size does
not overflow either, the bytes of every live allocation are among those it
took, and freeing it passes the checks and gives back exactly these. -/
theorem allocSound_iff_freeExact {R : Region} (hbase : align ∣ R.base) (hfin : R.fin < 2 ^ 64)
    {s : Run} (hs : Reach (Run.Init R) (Run.Step R Fits) s) :
    (∀ size < 2 ^ 64, AllocSound R s size ↔ Fits s.heap size) ∧
      ∀ a ∈ s.live, a.storage ⊆ a.taken ∧ FreeExact R s a := by
  obtain ⟨fs, hi⟩ := reachable_inv hbase hfin hs
  refine ⟨fun size hsize => ⟨fun h => ?_, hi.allocSound hfin⟩, fun a ha => ?_⟩
  · by_contra hnot
    exact hi.not_allocSound hfin hsize hnot h
  · have hhead := hi.header a ha
    exact ⟨hhead.taken_eq ▸ hhead.storage_subset, hi.freeExact hfin ha⟩

/-- A heap over a region of whole nodes can be constructed. -/
theorem exists_init (R : Region) (hpos : 0 < R.length) (hdvd : nodeSize ∣ R.length) :
    ∃ h, Run.Init R ⟨h, []⟩ := by
  obtain ⟨h, -, mem, hnew⟩ := SimpleHeap.exists_init R hpos hdvd
  refine ⟨⟨h⟩, rfl, mem, ?_⟩
  rw [DefaultHeap.new, hnew]
  rfl

/-- An allocation of one byte from four nodes of memory. -/
theorem allocSound_iff_freeExact_fourNodes :
    ∃ s, s.live ≠ [] ∧
      (∀ size < 2 ^ 64, AllocSound SimpleHeap.fourNodes s size ↔ Fits s.heap size) ∧
      ∀ a ∈ s.live, a.storage ⊆ a.taken ∧ FreeExact SimpleHeap.fourNodes s a := by
  obtain ⟨h, hinit⟩ := exists_init SimpleHeap.fourNodes (by decide) (by decide)
  have hi : Inv SimpleHeap.fourNodes ⟨h, []⟩ [⟨4096, 64⟩] := Inv.init (by decide) hinit
  obtain ⟨h', hrun, -⟩ :=
    @Inv.alloc _ _ _ 1 4096 [⟨4128, 32⟩] hi (by decide) (by decide) (by decide)
  have hr : Reach (Run.Init SimpleHeap.fourNodes) (Run.Step SimpleHeap.fourNodes Fits) _ :=
    (Reach.start hinit).step (.alloc (by decide) (Or.inl (by decide)) hrun)
  exact ⟨_, List.cons_ne_nil _ _, allocSound_iff_freeExact (by decide) (by decide) hr⟩

/-- **An allocation that is smaller than what was asked for.** A fresh heap of
64 bytes asked for `2 ^ 64 - 1` bytes hands out one node. -/
theorem not_allocSound_fourNodes :
    ¬ ∀ (R : Region) (s : Run), align ∣ R.base → R.fin < 2 ^ 64 →
      Reach (Run.Init R) (Run.Step R fun _ _ => True) s →
      (∀ size < 2 ^ 64, AllocSound R s size) ∧
        ∀ a ∈ s.live, a.storage ⊆ a.taken ∧ FreeExact R s a := by
  intro hall
  obtain ⟨h, hinit⟩ := exists_init SimpleHeap.fourNodes (by decide) (by decide)
  have hi : Inv SimpleHeap.fourNodes ⟨h, []⟩ [⟨4096, 64⟩] := Inv.init (by decide) hinit
  have hsound := (hall _ _ (by decide) (by decide) (.start hinit)).1 (2 ^ 64 - 1) (by decide)
  refine hi.not_allocSound (by decide) (by decide) ?_ hsound
  rintro (hfits | hfree)
  · simp [align] at hfits
  · cases hi.free_eq_nil hfree

end DefaultHeap

end Attos
