import Attos.PhysicalPages

/-!
# The memory of the kernel

`construct_mm` in `kernel/kernel.cpp` selects an area of the BIOS memory map for the heap of
physical pages. The pages are accessed through the identity map of the first gigabyte. An area is
selected if it begins in the identity map, but nothing is said about its end. If it ends there as
well, all pages that are ever handed out can be accessed (`pages_in_identityMap`); else the heap
reaches behind the identity map (`constructMm_safe_iff`).
-/

namespace Attos

open Lib

/-- `identity_map_start` -/
def identityMapStart : ℕ := 0xFFFFFFFF00000000

/-- `identity_map_length` -/
def identityMapLength : ℕ := 2 ^ 30

/-- `smap_entry` -/
structure SmapEntry : Type where
  /-- the first address -/
  base : UInt64
  /-- the number of bytes -/
  length : UInt64
  /-- the type of memory -/
  type : UInt32

namespace SmapType

/-- `smap_type::end_of_list` -/
def endOfList : UInt32 := 0

/-- `smap_type::available` -/
def available : UInt32 := 1

end SmapType

/-- `min_len_megabytes` -/
def minLenMegabytes : UInt64 := 4

/-- `min_base` -/
def minBase : UInt64 := (1 : UInt64) <<< 20

/-- `min_len` -/
def minLen : UInt64 := minLenMegabytes <<< 20

/-- `max_base`, a number of bytes less a number of megabytes. -/
def maxBase : UInt64 := UInt64.ofNat identityMapLength - minLenMegabytes

/-- An area that can be selected. -/
def SmapEntry.Suitable (e : SmapEntry) : Prop :=
  e.type = SmapType.available ∧ e.base ≥ minBase ∧ e.base ≤ maxBase ∧ e.length ≥ minLen

instance : DecidablePred SmapEntry.Suitable := fun e =>
  inferInstanceAs (Decidable (e.type = SmapType.available ∧ e.base ≥ minBase ∧ e.base ≤ maxBase ∧ e.length ≥ minLen))

/-- The loop of `construct_mm` over the entries in front of the terminator. -/
def selectLoop : List SmapEntry → UInt64 → UInt64 → UInt64 × UInt64
  | [], baseAddr, baseLen => (baseAddr, baseLen)
  | e :: es, baseAddr, baseLen =>
    if e.type = SmapType.endOfList then (baseAddr, baseLen)
    else if e.Suitable ∧ baseLen = 0 then selectLoop es e.base e.length
    else selectLoop es baseAddr baseLen

/-- `construct_mm` up to the call of `mm_init`: the region that it hands over. -/
def constructMm (smap : List SmapEntry) : Outcome (UInt64 × UInt64) := do
  let (baseAddr, baseLen) := selectLoop smap 0 0
  Outcome.require (baseLen ≠ 0)
  pure (baseAddr, baseLen)

/-- The area that is selected: the first suitable one of the list. -/
def selected (smap : List SmapEntry) : Option SmapEntry :=
  (smap.takeWhile fun e => e.type ≠ SmapType.endOfList).find? fun e => e.Suitable

/-! ## The heap of physical pages -/

/-- `__stosq` of zeros. -/
def SimpleHeap.clear (h : SimpleHeap) (b : Block) : SimpleHeap :=
  { h with mem := fun a => if b.ptr ≤ a ∧ a < b.fin then 0 else h.mem a }

/-- `physical_pages_` has just been constructed; it manages the region in the identity map. -/
def PagesInit (base length : UInt64) (s : SimpleHeap.Run) : Prop :=
  s.live = [] ∧ ∃ mem, SimpleHeap.new mem (u64 (base.toNat + identityMapStart)) length.toNat = .done s.heap

/-- What happens to the pages. -/
inductive PagesStep : SimpleHeap.Run → SimpleHeap.Run → Prop where
  /-- `alloc_physical`. An allocation without bytes is not freed. -/
  | allocPhysical {h h' : SimpleHeap} {live : List Block} {size p : ℕ} :
      h.alloc (roundUp size) = .done (p, h') →
      PagesStep ⟨h, live⟩
        ⟨h'.clear ⟨p, roundUp size⟩, if roundUp size = 0 then live else ⟨p, roundUp size⟩ :: live⟩
  /-- `free_physical` -/
  | freePhysical {h h' : SimpleHeap} {live : List Block} {b : Block} :
      b ∈ live → h.free b.ptr b.size = .done h' → PagesStep ⟨h, live⟩ ⟨h', live.erase b⟩
  /-- pages are written to -/
  | write {h : SimpleHeap} {live : List Block} {mem : ℕ → ℕ} :
      (∀ a, (∀ b ∈ live, a ∉ b.bytes) → mem a = h.mem a) →
      PagesStep ⟨h, live⟩ ⟨{ h with mem := mem }, live⟩

/-- The block is accessed through the identity map. -/
def InIdentityMap (b : Block) : Prop :=
  identityMapStart ≤ b.ptr ∧ b.fin ≤ identityMapStart + identityMapLength

section Select

variable {smap : List SmapEntry} {e : SmapEntry} {baseAddr baseLen : UInt64}

theorem minLen_ne_zero {len : UInt64} (h : len ≥ minLen) : len ≠ 0 := by
  rintro rfl
  exact absurd h (by decide)

/-- Once an area is selected, it stays. -/
theorem selectLoop_selected (h : baseLen ≠ 0) : selectLoop smap baseAddr baseLen = (baseAddr, baseLen) := by
  induction smap with
  | nil => rfl
  | cons e es ih =>
    rw [selectLoop, if_neg (c := e.Suitable ∧ baseLen = 0) fun hsuitable => h hsuitable.2, ih, ite_self]

/-- **The loop** selects the first suitable area. -/
theorem selectLoop_eq : selectLoop smap 0 0 =
    match selected smap with
    | some e => (e.base, e.length)
    | none => (0, 0) := by
  induction smap with
  | nil => rfl
  | cons e es ih =>
    rw [selectLoop, selected]
    by_cases hend : e.type = SmapType.endOfList
    · rw [if_pos hend, List.takeWhile_cons_of_neg (by simp [hend])]
      rfl
    · rw [if_neg hend, List.takeWhile_cons_of_pos (by simp [hend])]
      by_cases hsuitable : e.Suitable
      · rw [if_pos ⟨hsuitable, rfl⟩, List.find?_cons_of_pos]
        · exact selectLoop_selected (minLen_ne_zero hsuitable.2.2.2)
        · exact decide_eq_true hsuitable
      · rw [if_neg fun h => hsuitable h.1, List.find?_cons_of_neg, ih]
        · rfl
        · simp [hsuitable]

/-- The selected area is suitable. -/
theorem suitable_of_selected (h : selected smap = some e) : e.Suitable := by
  have hfound := List.find?_some h
  exact of_decide_eq_true hfound

/-- **What is handed over** is the selected area. -/
theorem constructMm_eq_done {base length : UInt64} :
    constructMm smap = .done (base, length) ↔ ∃ e, selected smap = some e ∧ e.base = base ∧ e.length = length := by
  rw [constructMm, selectLoop_eq]
  cases hselected : selected smap with
  | none => simp
  | some e =>
    have hlen := minLen_ne_zero (suitable_of_selected hselected).2.2.2
    simp [hlen]

end Select

/-! ## Pages in the identity map -/

section Pages

variable {R : Region} {s : SimpleHeap.Run} {h h' : SimpleHeap} {fs : List Block} {b : Block} {p : ℕ}
  {base length : UInt64}

/-- An allocation without bytes changes nothing. -/
theorem SimpleHeap.FreeList.alloc_zero (hf : SimpleHeap.FreeList R h fs) (halloc : h.alloc 0 = .done (p, h')) :
    h' = h := by
  cases fs with
  | nil =>
    rw [SimpleHeap.alloc_of_none hf rfl] at halloc
    cases halloc
  | cons b bs =>
    obtain ⟨hload, hsize, -⟩ := hf.chain
    have hnode := hf.node b List.mem_cons_self
    have hbounds := hnode.bounds
    have hne : b.ptr ≠ endOfList := hnode.ptr_lt.ne
    have hlt : b.ptr < 2 ^ 64 := Nat.lt_of_lt_of_le hnode.ptr_lt (by decide)
    have hptr : u64 (b.ptr + 0 / nodeSize * nodeSize) = b.ptr := by
      rw [Nat.zero_div, Nat.zero_mul, Nat.add_zero, u64_of_lt hlt]
    have hrest : sub64 (h.size b.ptr) 0 = h.size b.ptr := by
      rw [SimpleHeap.size, hsize, sub64_of_le (Nat.zero_le _) hbounds.2.2, Nat.sub_zero]
    have hpos : h.size b.ptr ≠ 0 := by
      rw [SimpleHeap.size, hsize]
      exact hnode.pos.ne'
    have hfind : h.findFit 0 maxNodes .head = .done .head := by
      rw [show maxNodes = (2 ^ 60 - 1) + 1 from rfl, SimpleHeap.findFit, if_neg fun hlt => absurd hlt.2 (Nat.not_lt_zero _)]
    have hsize : h.setSize b.ptr (h.size b.ptr) = h := by
      rw [SimpleHeap.setSize, SimpleHeap.size, Function.update_eq_self]
    have hnext : h.setNext b.ptr (h.next b.ptr) = h := by
      rw [SimpleHeap.setNext, SimpleHeap.next, Function.update_eq_self]
    rw [SimpleHeap.alloc, hfind, Outcome.done_bind, SimpleHeap.takeFrom, SimpleHeap.load, hload,
      Outcome.require_pos hne, Outcome.done_bind] at halloc
    simp only [hptr, hrest, hsize, hnext] at halloc
    rw [if_pos hpos, SimpleHeap.store, ← hload] at halloc
    exact (Prod.mk.inj (Outcome.done.inj halloc)).2.symm

/-- Clearing an allocation is a write to it. -/
theorem SimpleHeap.Inv.clear (hi : SimpleHeap.Inv R s fs) (hb : b ∈ s.live) :
    SimpleHeap.Inv R ⟨s.heap.clear b, s.live⟩ fs := by
  apply hi.write
  intro a ha
  exact if_neg (ha b hb)

theorem SimpleHeap.clear_empty (h : SimpleHeap) (p : ℕ) : h.clear ⟨p, 0⟩ = h := by
  have hout : ∀ a, ¬ ((⟨p, 0⟩ : Block).ptr ≤ a ∧ a < (⟨p, 0⟩ : Block).fin) := by
    intro a ha
    exact absurd ha.2 (Nat.not_lt.mpr ha.1)
  rw [SimpleHeap.clear, funext fun a => if_neg (hout a)]

/-- **The step**: the allocations and the free pages make up the region. -/
theorem PagesStep.inv {s' : SimpleHeap.Run} (hstep : PagesStep s s') (hinv : ∃ fs, SimpleHeap.Inv R s fs) :
    ∃ fs, SimpleHeap.Inv R s' fs := by
  obtain ⟨fs, hi⟩ := hinv
  cases hstep with
  | @allocPhysical h h' live size p halloc =>
    by_cases hzero : roundUp size = 0
    · rw [hzero] at halloc ⊢
      rw [if_pos rfl, SimpleHeap.clear_empty, hi.list.alloc_zero halloc]
      exact ⟨fs, hi⟩
    · have hdvd : nodeSize ∣ roundUp size := Nat.dvd_trans (by decide) (dvd_roundUp size)
      obtain ⟨fs', -, hi'⟩ := hi.alloc (Nat.pos_of_ne_zero hzero) hdvd halloc
      rw [if_neg hzero]
      exact ⟨fs', hi'.clear List.mem_cons_self⟩
  | freePhysical hb hfree => exact ⟨_, hi.free hb hfree⟩
  | write hmem => exact ⟨fs, hi.write hmem⟩

/-- **The run**: every allocation is in the region. -/
theorem node_of_reach (hinit : ∀ s, PagesInit base length s → SimpleHeap.Run.Init R s)
    (hs : Reach (PagesInit base length) PagesStep s) : ∀ b ∈ s.live, R.Node b := by
  have hinv : ∃ fs, SimpleHeap.Inv R s fs :=
    Reach.invariant (fun s => ∃ fs, SimpleHeap.Inv R s fs) hs (fun s h => ⟨_, .init (hinit s h)⟩)
      fun s s' hi hstep => hstep.inv hi
  obtain ⟨fs, hi⟩ := hinv
  exact hi.node

/-- The identity map ends with the address space. -/
theorem identityMap_fits {base length : ℕ} (hfits : base + length ≤ identityMapLength) :
    base + identityMapStart + length ≤ 2 ^ 64 := by
  rw [identityMapLength] at hfits
  rw [identityMapStart]
  omega

/-- The region of the heap, if it ends in the identity map. -/
def pagesRegion (base length : UInt64) (hfits : base.toNat + length.toNat ≤ identityMapLength) : Region where
  base := base.toNat + identityMapStart
  length := length.toNat
  word := length.toNat_lt
  fits := identityMap_fits hfits

/-- **Pages are in the identity map** if the region is. -/
theorem pages_in_identityMap (hfits : base.toNat + length.toNat ≤ identityMapLength)
    (hs : Reach (PagesInit base length) PagesStep s) : ∀ b ∈ s.live, InIdentityMap b := by
  have hinit : ∀ s, PagesInit base length s → SimpleHeap.Run.Init (pagesRegion base length hfits) s := by
    rintro s ⟨hlive, mem, hnew⟩
    rw [identityMapLength] at hfits
    rw [u64_of_lt (by rw [identityMapStart]; omega)] at hnew
    exact ⟨hlive, mem, hnew⟩
  intro b hb
  have hnode := node_of_reach hinit hs b hb
  have hlo : base.toNat + identityMapStart ≤ b.ptr := hnode.lo
  have hhi : b.fin ≤ base.toNat + identityMapStart + length.toNat := hnode.hi
  exact ⟨by omega, by omega⟩

/-- **The identity map** reaches over all pages exactly if the selected area ends there. -/
theorem constructMm_safe_iff (smap : List SmapEntry) :
    (∀ base length, constructMm smap = .done (base, length) →
      base.toNat + length.toNat ≤ identityMapLength ∧
        ∀ s, Reach (PagesInit base length) PagesStep s → ∀ b ∈ s.live, InIdentityMap b) ↔
      ∀ e, selected smap = some e → e.base.toNat + e.length.toNat ≤ identityMapLength := by
  constructor
  · intro h e he
    exact (h e.base e.length (constructMm_eq_done.mpr ⟨e, he, rfl, rfl⟩)).1
  · intro h base length hdone
    obtain ⟨e, he, rfl, rfl⟩ := constructMm_eq_done.mp hdone
    exact ⟨h e he, fun s hs => pages_in_identityMap (h e he) hs⟩

/-- The memory map of a machine with 3 GB. -/
def threeGigabytes : List SmapEntry :=
  [⟨0, 0x9FC00, SmapType.available⟩, ⟨0x100000, 0xBFF00000, SmapType.available⟩]

/-- The region that is handed over does not end in the identity map. -/
theorem not_constructMm_safe : ¬ ∀ smap base length, constructMm smap = .done (base, length) →
    base.toNat + length.toNat ≤ identityMapLength ∧
      ∀ s, Reach (PagesInit base length) PagesStep s → ∀ b ∈ s.live, InIdentityMap b := by
  intro h
  have hdone : constructMm threeGigabytes = .done (0x100000, 0xBFF00000) := by decide
  exact absurd (h threeGigabytes _ _ hdone).1 (by decide)

end Pages

end Attos
