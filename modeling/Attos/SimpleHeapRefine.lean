import Attos.SimpleHeap
import Attos.FreeList

/-!
# The simple heap refines its free list

The pointer-level operations of `SimpleHeap` compute, on the list threaded
through the free blocks, exactly the operations of `FreeList`:

* `coalesceFrom` is `mergeRun` (`coalesceFrom_refines`),
* `insertFree` is `freeInsert` (`insertFree_refines`),
* `alloc` is `takeFit` (`alloc_refines`).

They write only to words of free blocks, so the rest of the list, and the
memory the heap has handed out, stay as they were.
-/

namespace Attos

open Lib

/-- A range of memory that exists in a 64-bit address space. -/
structure Region : Type where
  /-- the first address -/
  base : ℕ
  /-- the number of bytes -/
  length : ℕ
  /-- the length is a 64-bit number -/
  word : length < 2 ^ 64
  /-- the range does not leave the address space -/
  fits : base + length ≤ 2 ^ 64

namespace Region

/-- The address after the last one. -/
def fin (R : Region) : ℕ := R.base + R.length

/-- A block of the region that can hold a list node, and whose parts can. -/
structure Node (R : Region) (b : Block) : Prop where
  /-- the block is not empty -/
  pos : 0 < b.size
  /-- its size is a multiple of the node size -/
  granular : nodeSize ∣ b.size
  /-- it starts in the region -/
  lo : R.base ≤ b.ptr
  /-- it ends in the region -/
  hi : b.fin ≤ R.fin

variable {R : Region} {b c : Block}

theorem Node.size_le (h : R.Node b) : nodeSize ≤ b.size := Nat.le_of_dvd h.pos h.granular

/-- The numbers behind a node: there is room for its two words below `2 ^ 64`. -/
theorem Node.bounds (h : R.Node b) : b.ptr + nodeSize ≤ b.fin ∧ b.fin ≤ 2 ^ 64 ∧
    b.size < 2 ^ 64 := by
  have hs := h.size_le
  have hlo := h.lo
  have hhi := h.hi
  have hw := R.word
  have hf := R.fits
  simp only [fin, Block.fin] at hhi ⊢
  omega

theorem Node.ptr_lt (h : R.Node b) : b.ptr < endOfList := by
  have := h.bounds
  simp only [endOfList, nodeSize] at this ⊢
  omega

/-- Joining two neighbours gives a node again. -/
theorem Node.join (hb : R.Node b) (hc : R.Node c) (h : b.fin = c.ptr) :
    R.Node ⟨b.ptr, b.size + c.size⟩ where
  pos := Nat.add_pos_left hb.pos _
  granular := (Nat.dvd_add_right hb.granular).mpr hc.granular
  lo := hb.lo
  hi := by
    have := hc.hi
    simp only [Block.fin] at this h ⊢
    omega

/-- The rest of a node is a node again. -/
theorem Node.rest (hb : R.Node b) {size : ℕ} (hs : nodeSize ∣ size) (hlt : size < b.size) :
    R.Node ⟨b.ptr + size, b.size - size⟩ where
  pos := Nat.sub_pos_of_lt hlt
  granular := Nat.dvd_sub hb.granular hs
  lo := hb.lo.trans (Nat.le_add_right _ _)
  hi := by
    have := hb.hi
    simp only [Block.fin] at this ⊢
    omega

/-- Ascending nodes of a region are fewer than the fuel of the list loops. -/
theorem length_lt {l : List Block} (hl : Ascending l) (hn : ∀ b ∈ l, R.Node b) :
    l.length < maxNodes := by
  have hroom : ∀ (l : List Block) (lo : ℕ), Ascending l → (∀ b ∈ l, R.Node b ∧ lo ≤ b.ptr) →
      lo ≤ R.fin → lo + nodeSize * l.length ≤ R.fin := by
    intro l
    induction l with
    | nil =>
      intro lo _ _ hle
      simpa using hle
    | cons b bs ih =>
      intro lo hl hn hle
      obtain ⟨hb, hbs⟩ := List.pairwise_cons.mp hl
      obtain ⟨hnode, hlo⟩ := hn b (by simp)
      have hrec := ih b.fin hbs
        (fun c hc => ⟨(hn c (List.mem_cons_of_mem _ hc)).1, hb c hc⟩) hnode.hi
      have hbounds := hnode.bounds
      simp only [List.length_cons, nodeSize] at hrec hbounds ⊢
      omega
  have h := hroom l R.base hl (fun b hb => ⟨hn b hb, (hn b hb).lo⟩) (Nat.le_add_right _ _)
  have hw := R.word
  simp only [fin, nodeSize, maxNodes] at h ⊢
  omega

end Region

/-- The list from the node `p` on runs through the blocks `bs` and then
reaches `q`. -/
def Segment (mem : ℕ → ℕ) : ℕ → List Block → ℕ → Prop
  | p, [], q => p = q
  | p, b :: bs, q => p = b.ptr ∧ mem b.ptr = b.size ∧ Segment mem (mem (b.ptr + 8)) bs q

/-- A segment depends on the two words of each of its nodes only. -/
theorem Segment.congr {mem mem' : ℕ → ℕ} {q : ℕ} :
    ∀ {bs : List Block} {p : ℕ}, Segment mem p bs q →
      (∀ b ∈ bs, mem' b.ptr = mem b.ptr ∧ mem' (b.ptr + 8) = mem (b.ptr + 8)) →
      Segment mem' p bs q
  | [], _, h, _ => h
  | b :: bs, p, ⟨hp, hs, hrest⟩, hag => by
    obtain ⟨hag₁, hag₂⟩ := hag b (by simp)
    refine ⟨hp, hag₁.trans hs, ?_⟩
    rw [hag₂]
    exact hrest.congr fun c hc => hag c (List.mem_cons_of_mem _ hc)

/-- The next pointer of every node leads upwards. -/
def Rising (mem : ℕ → ℕ) (bs : List Block) : Prop := ∀ b ∈ bs, b.ptr < mem (b.ptr + 8)

/-- The list of nodes in ascending order leads upwards. -/
theorem Segment.rising {R : Region} {mem : ℕ → ℕ} {bs : List Block} {p : ℕ} (h : Segment mem p bs endOfList)
    (hasc : Ascending bs) (hn : ∀ b ∈ bs, R.Node b) : Rising mem bs := by
  induction bs generalizing p with
  | nil => exact fun b hb => absurd hb List.not_mem_nil
  | cons b bs ih =>
    obtain ⟨-, -, hrest⟩ := h
    obtain ⟨hb, hasc'⟩ := List.pairwise_cons.mp hasc
    obtain ⟨hbn, hn'⟩ := List.forall_mem_cons.mp hn
    refine List.forall_mem_cons.mpr ⟨?_, ih hrest hasc' hn'⟩
    cases bs with
    | nil =>
      rw [show mem (b.ptr + 8) = endOfList from hrest]
      exact hbn.ptr_lt
    | cons c cs =>
      rw [hrest.1]
      exact Nat.lt_of_lt_of_le (Nat.lt_add_of_pos_right hbn.pos) (hb c List.mem_cons_self)

/-- The address is not one of the two words of a node in the list. -/
def Untouched (bs : List Block) (a : ℕ) : Prop := ∀ b ∈ bs, a ≠ b.ptr ∧ a ≠ b.ptr + 8

/-- The link is `free_`, or belongs to a node below every block of the list. -/
def Link.Below : Link → List Block → Prop
  | .head, _ => True
  | .next f, bs => ∀ b ∈ bs, f + nodeSize ≤ b.ptr

/-- The address is not the word of the link. -/
def Link.Apart : Link → ℕ → Prop
  | .head, _ => True
  | .next f, a => a ≠ f + 8

/-- The words of a node that starts above a link are not the word of the link. -/
theorem Link.Below.apart {fp : Link} {bs : List Block} (h : fp.Below bs) {b : Block}
    (hb : b ∈ bs) {a : ℕ} (ha : b.ptr ≤ a) : fp.Apart a := by
  cases fp with
  | head => trivial
  | next f =>
    have := h b hb
    simp only [nodeSize] at this
    change a ≠ f + 8
    omega

namespace SimpleHeap

@[simp] theorem setSize_mem (h : SimpleHeap) (f v : ℕ) :
    (h.setSize f v).mem = Function.update h.mem f v := rfl

@[simp] theorem setNext_mem (h : SimpleHeap) (f v : ℕ) :
    (h.setNext f v).mem = Function.update h.mem (f + 8) v := rfl

variable {R : Region}

/-- `coalesce_from` joins the run of blocks that starts at its node, and writes
to no other node. -/
theorem coalesceFrom_refines {b : Block} {bs : List Block} {fuel : ℕ} {h : SimpleHeap}
    (hseg : Segment h.mem b.ptr (b :: bs) endOfList) (hasc : Ascending (b :: bs))
    (hn : ∀ c ∈ b :: bs, R.Node c) (hfuel : bs.length < fuel) :
    ∃ m, coalesceFrom fuel h b.ptr = .done { h with mem := m } ∧
      Segment m b.ptr (mergeRun b bs) endOfList ∧
      ∀ a, a ≠ b.ptr → a ≠ b.ptr + 8 → m a = h.mem a := by
  induction bs generalizing b fuel h with
  | nil =>
    obtain ⟨n, rfl⟩ : ∃ n, fuel = n + 1 := ⟨fuel - 1, by omega⟩
    have hnext : h.next b.ptr = endOfList := hseg.2.2
    exact ⟨h.mem, by simp [coalesceFrom, hnext], hseg, fun _ _ _ => rfl⟩
  | cons c cs ih =>
    obtain ⟨n, rfl⟩ : ∃ n, fuel = n + 1 := ⟨fuel - 1, by omega⟩
    rw [List.length_cons] at hfuel
    obtain ⟨-, hsize, hnext, hcsize, hcs⟩ := hseg
    obtain ⟨hb, hasc'⟩ := List.pairwise_cons.mp hasc
    have hbn := hn b (by simp)
    have hcn := hn c (by simp)
    have hbc : b.fin ≤ c.ptr := hb c (by simp)
    have hbb := hbn.ptr_lt
    have hcb := hcn.ptr_lt
    have hfin : u64 (b.ptr + h.size b.ptr) = b.fin := by
      have hu : u64 b.fin = b.fin := u64_of_lt (by simp only [endOfList] at hcb; omega)
      rw [size, hsize]
      exact hu
    by_cases hadj : b.fin = c.ptr
    · -- the next node touches this one: one pass of the loop joins them
      have hjoin := hbn.join hcn hadj
      have hcur : h.next b.ptr = c.ptr := hnext
      have hsum : u64 (h.size b.ptr + h.size (h.next b.ptr)) = b.size + c.size := by
        rw [hcur, size, size, hsize, hcsize]
        exact u64_of_lt hjoin.bounds.2.2
      have hstep : coalesceFrom (n + 1) h b.ptr =
          coalesceFrom n ((h.setSize b.ptr (b.size + c.size)).setNext b.ptr (h.next c.ptr))
            b.ptr := by
        have hcond : b.ptr ≠ endOfList ∧ h.next b.ptr ≠ endOfList ∧
            u64 (b.ptr + h.size b.ptr) = h.next b.ptr := by
          rw [hfin, hcur]
          exact ⟨hbb.ne, hcb.ne, hadj⟩
        have hkeep : ∀ f, f ≠ b.ptr → (h.setSize b.ptr (b.size + c.size)).mem f = h.mem f :=
          fun f hf => Function.update_of_ne hf _ _
        have hbsz := hbn.bounds
        simp only [nodeSize, Block.fin] at hbsz hadj
        rw [coalesceFrom, if_pos hcond, hsum]
        simp only [next, hkeep (b.ptr + 8) (by omega), hnext, hkeep (c.ptr + 8) (by omega)]
      have hfar : ∀ d ∈ cs, d.ptr ≠ b.ptr ∧ d.ptr ≠ b.ptr + 8 ∧ d.ptr + 8 ≠ b.ptr := by
        intro d hd
        have hbd := hb d (by simp [hd])
        have hbsz := hbn.bounds
        simp only [nodeSize] at hbsz
        omega
      have hseg' : Segment ((h.setSize b.ptr (b.size + c.size)).setNext b.ptr (h.next c.ptr)).mem
          b.ptr (⟨b.ptr, b.size + c.size⟩ :: cs) endOfList := by
        refine ⟨rfl, ?_, ?_⟩
        · simp
        · simp only [setNext_mem, setSize_mem, Function.update_self]
          refine hcs.congr fun d hd => ?_
          obtain ⟨h₁, h₂, h₃⟩ := hfar d hd
          simp [Function.update_of_ne, h₁, h₂, h₃]
      have hlt : cs.length < n := by omega
      obtain ⟨m, hrun, hm, hframe⟩ := ih hseg' (hasc.join hadj)
        (List.forall_mem_cons.mpr ⟨hjoin, fun d hd => hn d (by simp [hd])⟩) hlt
      refine ⟨m, by rw [hstep, hrun]; rfl, ?_, fun a h₁ h₂ => ?_⟩
      · rw [mergeRun, if_pos hadj]
        exact hm
      · rw [hframe a h₁ h₂, setNext_mem, setSize_mem, Function.update_of_ne h₂,
          Function.update_of_ne h₁]
    · -- the next node does not: the loop ends here
      have hcond : ¬ (b.ptr ≠ endOfList ∧ h.next b.ptr ≠ endOfList ∧
          u64 (b.ptr + h.size b.ptr) = h.next b.ptr) := by
        rintro ⟨-, -, heq⟩
        rw [hfin] at heq
        exact hadj (heq.trans hnext)
      refine ⟨h.mem, by rw [coalesceFrom, if_neg hcond], ?_, fun _ _ _ => rfl⟩
      rw [mergeRun, if_neg hadj]
      exact ⟨rfl, hsize, hnext, hcsize, hcs⟩

/-- The nodes that were joined lead upwards as well, as only the one that takes them in is
written to. -/
theorem rising_mergeRun {b : Block} {bs : List Block} {mem m : ℕ → ℕ}
    (hseg : Segment mem b.ptr (b :: bs) endOfList) (hasc : Ascending (b :: bs))
    (hn : ∀ c ∈ b :: bs, R.Node c) (hm : Segment m b.ptr (mergeRun b bs) endOfList)
    (hframe : ∀ a, a ≠ b.ptr → a ≠ b.ptr + 8 → m a = mem a) : Rising m (b :: bs) := by
  obtain ⟨hb, hbs⟩ := List.forall_mem_cons.mp hn
  have hbn := hb.bounds
  simp only [nodeSize] at hbn
  refine List.forall_mem_cons.mpr ⟨?_, fun c hc => ?_⟩
  · obtain ⟨c, rest, heq, hptr, -⟩ := mergeRun_gap hasc fun c hc => (hbs c hc).pos
    have hnode' : ∀ c ∈ mergeRun b bs, R.Node c :=
      mergeRun_forall hb hbs fun c d hc hd hcd => hc.join hd hcd
    have hrising := hm.rising (mergeRun_ascending hasc) hnode'
    rw [← hptr]
    exact hrising c (heq ▸ List.mem_cons_self)
  · have hbc : b.fin ≤ c.ptr := (List.pairwise_cons.mp hasc).1 c hc
    rw [hframe _ (by omega) (by omega)]
    exact hseg.rising hasc hn c (List.mem_cons_of_mem _ hc)

/-- Linking `b` behind its predecessor `c` and coalescing from there. -/
theorem linkAfter_refines {b c : Block} {cs : List Block} {h : SimpleHeap}
    (hseg : Segment h.mem c.ptr (c :: cs) endOfList) (hsize : h.mem b.ptr = b.size)
    (hasc : Ascending (c :: b :: cs)) (hn : ∀ d ∈ c :: b :: cs, R.Node d)
    (hmax : cs.length + 1 < maxNodes) :
    ∃ m, coalesceFrom maxNodes ((h.setNext b.ptr (h.next c.ptr)).setNext c.ptr b.ptr) c.ptr =
        .done { h with mem := m } ∧
      Segment m c.ptr (mergeRun c (b :: cs)) endOfList ∧
      (∀ a, Untouched (b :: c :: cs) a → m a = h.mem a) ∧ Rising m (c :: b :: cs) := by
  obtain ⟨-, hcsize, hcs⟩ := hseg
  obtain ⟨hc, hbcs⟩ := List.pairwise_cons.mp hasc
  have hb := (List.pairwise_cons.mp hbcs).1
  have hcb : c.fin ≤ b.ptr := hc b (by simp)
  have hcn := (hn c (by simp)).bounds
  have hbn := (hn b (by simp)).bounds
  simp only [nodeSize] at hcn hbn
  have hseg' : Segment ((h.setNext b.ptr (h.next c.ptr)).setNext c.ptr b.ptr).mem c.ptr
      (c :: b :: cs) endOfList := by
    refine ⟨rfl, ?_, ?_, ?_, ?_⟩
    · simp only [setNext_mem]
      rw [Function.update_of_ne (by omega), Function.update_of_ne (by omega), hcsize]
    · simp
    · simp only [setNext_mem]
      rw [Function.update_of_ne (by omega), Function.update_of_ne (by omega), hsize]
    · simp only [setNext_mem]
      rw [Function.update_of_ne (by omega), Function.update_self]
      refine hcs.congr fun d hd => ?_
      have hbd := hb d hd
      constructor
      · rw [Function.update_of_ne (by omega), Function.update_of_ne (by omega)]
      · rw [Function.update_of_ne (by omega), Function.update_of_ne (by omega)]
  obtain ⟨m, hrun, hm, hframe⟩ := coalesceFrom_refines hseg' hasc hn hmax
  refine ⟨m, hrun, hm, fun a ha => ?_, rising_mergeRun hseg' hasc hn hm hframe⟩
  have hab := ha b (by simp)
  have hac := ha c (by simp)
  rw [hframe a hac.1 hac.2]
  simp only [setNext_mem]
  rw [Function.update_of_ne hac.2, Function.update_of_ne hab.2]

/-- The search for the insertion point and the insertion there (the second half
of `insert_free`) are `insertAfter`. -/
theorem insertAfter_refines {b c : Block} {cs : List Block} {fuel : ℕ} {h : SimpleHeap}
    (hseg : Segment h.mem c.ptr (c :: cs) endOfList) (hsize : h.mem b.ptr = b.size)
    (hins : Insertable c b cs) (hb : R.Node b) (hn : ∀ d ∈ c :: cs, R.Node d)
    (hfuel : cs.length < fuel) (hmax : cs.length + 1 < maxNodes) :
    ∃ prev m, h.findPrev b.ptr fuel c.ptr = .done prev ∧
      coalesceFrom maxNodes ((h.setNext b.ptr (h.next prev)).setNext prev b.ptr) prev =
        .done { h with mem := m } ∧
      Segment m c.ptr (insertAfter c b cs) endOfList ∧
      (∀ a, Untouched (b :: c :: cs) a → m a = h.mem a) ∧ Rising m (c :: b :: cs) := by
  induction cs generalizing c fuel with
  | nil =>
    obtain ⟨n, rfl⟩ : ∃ n, fuel = n + 1 := ⟨fuel - 1, by omega⟩
    have hnext : h.next c.ptr = endOfList := hseg.2.2
    have hasc : Ascending [c, b] := List.pairwise_pair.mpr hins.before
    have hn' : ∀ d ∈ [c, b], R.Node d := by simpa using ⟨hn c (by simp), hb⟩
    obtain ⟨m, hrun, hm, hframe, hrising⟩ := linkAfter_refines hseg hsize hasc hn' hmax
    exact ⟨c.ptr, m, by simp [findPrev, hnext], hrun, hm, hframe, hrising⟩
  | cons d ds ih =>
    obtain ⟨n, rfl⟩ : ∃ n, fuel = n + 1 := ⟨fuel - 1, by omega⟩
    rw [List.length_cons] at hfuel hmax
    have hnext : h.next c.ptr = d.ptr := hseg.2.2.1
    have hdb := (hn d (by simp)).ptr_lt
    by_cases hlt : d.ptr < b.ptr
    · have hseg' : Segment h.mem d.ptr (d :: ds) endOfList := ⟨rfl, hseg.2.2.2⟩
      obtain ⟨prev, m, hfind, hrun, hm, hframe, hrising⟩ := ih hseg' (hins.step hlt)
        (fun e he => hn e (List.mem_cons_of_mem _ he)) (by omega : ds.length < n) (by omega)
      have hcond : h.next c.ptr ≠ endOfList ∧ h.next c.ptr < b.ptr := by
        rw [hnext]
        exact ⟨hdb.ne, hlt⟩
      -- the writes behind `c` leave the two words of `c` alone
      have hcn := (hn c (by simp)).bounds
      have hcd := (List.pairwise_cons.mp hins.ascending).1
      have hbefore := hins.before
      simp only [nodeSize] at hcn
      have hfar : ∀ e ∈ b :: d :: ds, c.ptr + 16 ≤ e.ptr := by
        intro e he
        rcases List.mem_cons.mp he with rfl | he
        · omega
        · have := hcd e he
          omega
      have hkeep : ∀ a, a < c.ptr + 16 → m a = h.mem a := by
        intro a ha
        refine hframe a fun e he => ?_
        have := hfar e he
        constructor <;> omega
      have hcnext : m (c.ptr + 8) = d.ptr := (hkeep _ (by omega)).trans hnext
      refine ⟨prev, m, ?_, hrun, ?_, fun a ha => ?_, ?_⟩
      · rw [findPrev, if_pos hcond, hnext, hfind]
      · rw [insertAfter, if_pos hlt]
        refine ⟨rfl, (hkeep _ (by omega)).trans hseg.2.1, ?_⟩
        rw [hcnext]
        exact hm
      · exact hframe a fun e he => ha e (by
          rcases List.mem_cons.mp he with rfl | he
          · simp
          · simp [List.mem_cons_of_mem _ he])
      · obtain ⟨hd, hbds⟩ := List.forall_mem_cons.mp hrising
        have hcd' := hcd d (by simp)
        refine List.forall_mem_cons.mpr ⟨by omega, List.forall_mem_cons.mpr ⟨hbds b (by simp), ?_⟩⟩
        exact List.forall_mem_cons.mpr ⟨hd, fun e he => hbds e (List.mem_cons_of_mem _ he)⟩
    · have hcond : ¬ (h.next c.ptr ≠ endOfList ∧ h.next c.ptr < b.ptr) := by
        rw [hnext]
        exact fun hc => hlt hc.2
      have habove := hins.above hlt
      have hasc : Ascending (c :: b :: d :: ds) := by
        obtain ⟨hc, hds⟩ := List.pairwise_cons.mp hins.ascending
        refine List.pairwise_cons.mpr ⟨fun e he => ?_, List.pairwise_cons.mpr ⟨habove, hds⟩⟩
        rcases List.mem_cons.mp he with rfl | he
        · exact hins.before
        · exact hc e he
      have hn' : ∀ e ∈ c :: b :: d :: ds, R.Node e := by
        intro e he
        rcases List.mem_cons.mp he with rfl | he
        · exact hn e (by simp)
        · rcases List.mem_cons.mp he with rfl | he
          · exact hb
          · exact hn e (List.mem_cons_of_mem _ he)
      obtain ⟨m, hrun, hm, hframe, hrising⟩ := linkAfter_refines hseg hsize hasc hn' (by simpa using hmax)
      refine ⟨c.ptr, m, by rw [findPrev, if_neg hcond], hrun, ?_, hframe, hrising⟩
      rw [insertAfter, if_neg hlt]
      exact hm

/-- Linking `b` in as the new head and coalescing from there. -/
theorem linkHead_refines {b : Block} {fs : List Block} {h : SimpleHeap}
    (hseg : Segment h.mem h.free_ fs endOfList) (hsize : h.mem b.ptr = b.size)
    (hasc : Ascending (b :: fs)) (hn : ∀ c ∈ b :: fs, R.Node c) (hmax : fs.length < maxNodes) :
    ∃ m, coalesceFrom maxNodes { h.setNext b.ptr h.free_ with free_ := b.ptr } b.ptr =
        .done { h with free_ := b.ptr, mem := m } ∧
      Segment m b.ptr (mergeRun b fs) endOfList ∧
      (∀ a, Untouched (b :: fs) a → m a = h.mem a) ∧ Rising m (b :: fs) := by
  have hb := (List.pairwise_cons.mp hasc).1
  have hbn := (hn b (by simp)).bounds
  simp only [nodeSize] at hbn
  set h' : SimpleHeap := { h.setNext b.ptr h.free_ with free_ := b.ptr } with hh'
  have hseg' : Segment h'.mem b.ptr (b :: fs) endOfList := by
    have hmem : h'.mem = Function.update h.mem (b.ptr + 8) h.free_ := rfl
    refine ⟨rfl, ?_, ?_⟩
    · rw [hmem, Function.update_of_ne (by omega), hsize]
    · rw [hmem, Function.update_self]
      refine hseg.congr fun c hc => ?_
      have hbc := hb c hc
      constructor
      · rw [Function.update_of_ne (by omega)]
      · rw [Function.update_of_ne (by omega)]
  obtain ⟨m, hrun, hm, hframe⟩ := coalesceFrom_refines hseg' hasc hn hmax
  refine ⟨m, hrun, hm, fun a ha => ?_, rising_mergeRun hseg' hasc hn hm hframe⟩
  have hab := ha b (by simp)
  rw [hframe a hab.1 hab.2]
  exact Function.update_of_ne hab.2 _ _

/-- The heap manages the region `R`, and its free list is `fs`. -/
structure FreeList (R : Region) (h : SimpleHeap) (fs : List Block) : Prop where
  /-- the heap starts where the region does -/
  base_eq : h.base_ = R.base
  /-- the heap ends where the region does -/
  end_eq : h.end_ = u64 R.fin
  /-- the nodes from `free_` on are the blocks of `fs` -/
  chain : Segment h.mem h.free_ fs endOfList
  /-- the blocks are sorted by address and do not overlap -/
  ascending : Ascending fs
  /-- each block can hold a list node -/
  node : ∀ b ∈ fs, R.Node b

/-- **`insert_free` is `freeInsert`.** -/
theorem insertFree_refines {h : SimpleHeap} {fs : List Block} {b : Block}
    (hf : FreeList R h fs) (hb : R.Node b) (hap : ∀ c ∈ fs, Apart b c) :
    ∃ h', h.insertFree b.ptr b.size = .done h' ∧ FreeList R h' (freeInsert b fs) ∧
      (∀ a, Untouched (b :: fs) a → h'.mem a = h.mem a) ∧ Rising h'.mem (b :: fs) := by
  have hfree : Freeable b fs := ⟨hap, fun c hc => (hf.node c hc).pos⟩
  have hasc' := freeInsert_ascending hfree hf.ascending hb.pos
  have hnode' : ∀ c ∈ freeInsert b fs, R.Node c :=
    freeInsert_forall R.Node hb hf.node fun c d hc hd hcd => hc.join hd hcd
  have hlen : fs.length < maxNodes := R.length_lt hf.ascending hf.node
  have hbn := hb.bounds
  simp only [nodeSize] at hbn
  -- the words of the new node are not words of the list
  have hfar : ∀ c ∈ fs, c.ptr ≠ b.ptr ∧ c.ptr ≠ b.ptr + 8 ∧ c.ptr + 8 ≠ b.ptr := by
    intro c hc
    have hcn := (hf.node c hc).bounds
    have := hap c hc
    simp only [nodeSize] at hcn
    rcases this with hle | hle <;> omega
  set h₀ := (h.setSize b.ptr b.size).setNext b.ptr endOfList with hh₀
  have hmem₀ : ∀ a, a ≠ b.ptr → a ≠ b.ptr + 8 → h₀.mem a = h.mem a := by
    intro a h₁ h₂
    rw [hh₀, setNext_mem, setSize_mem, Function.update_of_ne h₂, Function.update_of_ne h₁]
  have hsize₀ : h₀.mem b.ptr = b.size := by
    rw [hh₀, setNext_mem, setSize_mem, Function.update_of_ne (by omega), Function.update_self]
  have hseg₀ : Segment h₀.mem h₀.free_ fs endOfList := by
    refine hf.chain.congr fun c hc => ?_
    obtain ⟨h₁, h₂, h₃⟩ := hfar c hc
    exact ⟨hmem₀ _ h₁ h₂, hmem₀ _ h₃ (by omega)⟩
  have hframe₀ : ∀ a, Untouched (b :: fs) a → h₀.mem a = h.mem a := fun a ha =>
    hmem₀ a (ha b (by simp)).1 (ha b (by simp)).2
  have hnodes : ∀ c ∈ b :: fs, R.Node c := List.forall_mem_cons.mpr ⟨hb, hf.node⟩
  by_cases hhead : ∀ c ∈ fs, b.ptr < c.ptr
  · -- the list is empty or the block lies below its head
    have hcond : h₀.free_ = endOfList ∨ b.ptr < h₀.free_ := by
      cases fs with
      | nil => exact Or.inl hseg₀
      | cons c cs => exact Or.inr (hseg₀.1 ▸ hhead c (by simp))
    have hasc : Ascending (b :: fs) := by
      cases fs with
      | nil => exact List.pairwise_singleton ..
      | cons c cs =>
        exact List.pairwise_cons.mpr ⟨hfree.above hf.ascending (hhead c (by simp)), hf.ascending⟩
    have habs : freeInsert b fs = mergeRun b fs := by
      cases fs with
      | nil => rfl
      | cons c cs => rw [freeInsert, if_pos (hhead c (by simp))]
    obtain ⟨m, hrun, hm, hframe, hrising⟩ := linkHead_refines hseg₀ hsize₀ hasc hnodes hlen
    refine ⟨{ h with free_ := b.ptr, mem := m }, ?_,
      ⟨hf.base_eq, hf.end_eq, habs ▸ hm, hasc', hnode'⟩, fun a ha => ?_, hrising⟩
    · change (if h₀.free_ = endOfList ∨ b.ptr < h₀.free_ then _ else _) = _
      rw [if_pos hcond]
      exact hrun
    · exact (hframe a ha).trans (hframe₀ a ha)
  · -- the block lies above the head
    obtain ⟨c, cs, rfl⟩ : ∃ c cs, fs = c :: cs := by
      cases fs with
      | nil => exact absurd (by simp) hhead
      | cons c cs => exact ⟨c, cs, rfl⟩
    have hge : ¬ b.ptr < c.ptr := fun hlt => hhead fun d hd => by
      have := hfree.above hf.ascending hlt d hd
      have := hb.pos
      simp only [Block.fin] at *
      omega
    have hfst : h₀.free_ = c.ptr := hseg₀.1
    have hcond : ¬ (h₀.free_ = endOfList ∨ b.ptr < h₀.free_) := by
      rw [hfst]
      rintro (heq | hlt)
      · exact (hf.node c (by simp)).ptr_lt.ne heq
      · exact hge hlt
    have hlen' : cs.length + 1 < maxNodes := hlen
    obtain ⟨prev, m, hfind, hrun, hm, hframe, hrising⟩ := insertAfter_refines (hfst ▸ hseg₀) hsize₀
      (hfree.insertable hf.ascending hge hb.pos) hb hf.node (by omega : cs.length < maxNodes) hlen'
    have habs : freeInsert b (c :: cs) = insertAfter c b cs := by rw [freeInsert, if_neg hge]
    refine ⟨{ h with mem := m }, ?_, ⟨hf.base_eq, hf.end_eq, ?_, hasc', hnode'⟩,
      fun a ha => ?_, ?_⟩
    · change (if h₀.free_ = endOfList ∨ b.ptr < h₀.free_ then _ else _) = _
      rw [if_neg hcond, hfst, hfind]
      exact hrun
    · rw [habs, show h.free_ = c.ptr from hfst]
      exact hm
    · exact (hframe a ha).trans (hframe₀ a ha)
    · obtain ⟨hc, hbcs⟩ := List.forall_mem_cons.mp hrising
      obtain ⟨hbr, hcs⟩ := List.forall_mem_cons.mp hbcs
      exact List.forall_mem_cons.mpr ⟨hbr, List.forall_mem_cons.mpr ⟨hc, hcs⟩⟩

/-! ## Allocation -/

@[simp] theorem load_store (h : SimpleHeap) (fp : Link) (v : ℕ) : (h.store fp v).load fp = v := by
  cases fp with
  | head => rfl
  | next f => simp [store, load, next]

theorem store_mem_of_apart {h : SimpleHeap} {fp : Link} {v a : ℕ} (ha : fp.Apart a) :
    (h.store fp v).mem a = h.mem a := by
  cases fp with
  | head => rfl
  | next f => exact Function.update_of_ne ha _ _

/-- What `takeFrom` leaves behind. -/
structure Taken (h h' : SimpleHeap) (fp : Link) (bs fs : List Block) : Prop where
  /-- the link now leads to the new list -/
  chain : Segment h'.mem (h'.load fp) fs endOfList
  /-- the bounds of the heap are as they were -/
  base_eq : h'.base_ = h.base_
  end_eq : h'.end_ = h.end_
  /-- `free_` changes only through the link -/
  free_eq : fp ≠ .head → h'.free_ = h.free_
  /-- memory changes only inside the free blocks and in the link -/
  frame : ∀ a, (∀ b ∈ bs, a ∉ b.bytes) → fp.Apart a → h'.mem a = h.mem a

/-- Taking from the first block of the list. -/
theorem takeFrom_refines {h : SimpleHeap} {fp : Link} {b : Block} {bs : List Block} {size : ℕ}
    (hseg : Segment h.mem (h.load fp) (b :: bs) endOfList) (hasc : Ascending (b :: bs))
    (hb : R.Node b) (hbelow : fp.Below (b :: bs)) (hpos : 0 < size) (hdvd : nodeSize ∣ size)
    (hle : size ≤ b.size) :
    ∃ h', h.takeFrom fp size = .done (b.ptr, h') ∧ Taken h h' fp (b :: bs) (carve b size bs) := by
  obtain ⟨hload, hsize, hrest⟩ := hseg
  have hbn := hb.bounds
  have hsz := Nat.le_of_dvd hpos hdvd
  simp only [nodeSize, Block.fin] at hbn hsz
  have hfree : sub64 (h.size b.ptr) size = b.size - size := by
    rw [SimpleHeap.size, hsize, sub64_of_le hle hbn.2.2]
  have hnext : size / nodeSize * nodeSize = size := Nat.div_mul_cancel hdvd
  have hreq : b.ptr ≠ endOfList := hb.ptr_lt.ne
  have habove := (List.pairwise_cons.mp hasc).1
  by_cases hwhole : b.size = size
  · -- the whole block is taken: its successor takes its place in the list
    refine ⟨h.store fp (h.next b.ptr), ?_, ?_⟩
    · rw [takeFrom, hload, Outcome.require_pos hreq, Outcome.done_bind]
      simp [hfree, hwhole]
    · refine ⟨?_, by cases fp <;> rfl, by cases fp <;> rfl, ?_, fun a _ ha => store_mem_of_apart ha⟩
      · rw [load_store, carve, if_pos hwhole]
        refine hrest.congr fun c hc => ?_
        have hc' : c ∈ b :: bs := List.mem_cons_of_mem _ hc
        exact ⟨store_mem_of_apart (hbelow.apart hc' le_rfl),
          store_mem_of_apart (hbelow.apart hc' (Nat.le_add_right _ _))⟩
      · intro hne
        cases fp with
        | head => exact absurd rfl hne
        | next f => rfl
  · -- the rest of the block becomes a node of its own
    have hgran : nodeSize ∣ b.size - size := Nat.dvd_sub hb.granular hdvd
    have hrestle := Nat.le_of_dvd (by omega) hgran
    simp only [nodeSize] at hrestle
    have hptr : u64 (b.ptr + size / nodeSize * nodeSize) = b.ptr + size := by
      rw [hnext]
      exact u64_of_lt (by omega)
    set h₁ := h.setSize (b.ptr + size) (b.size - size) with hh₁
    set h₂ := h₁.setNext (b.ptr + size) (h.next b.ptr) with hh₂
    have hnext₁ : h₁.next b.ptr = h.next b.ptr := Function.update_of_ne (by omega) _ _
    have hmem₂ : ∀ a, a ≠ b.ptr + size → a ≠ b.ptr + size + 8 → h₂.mem a = h.mem a := by
      intro a ha₁ ha₂
      rw [hh₂, setNext_mem, Function.update_of_ne ha₂, hh₁, setSize_mem, Function.update_of_ne ha₁]
    refine ⟨h₂.store fp (b.ptr + size), ?_, ?_⟩
    · rw [takeFrom, hload, Outcome.require_pos hreq, Outcome.done_bind]
      simp only [hfree, hptr]
      rw [if_pos (by omega), ← hh₁, hnext₁]
    · refine ⟨?_, by cases fp <;> rfl, by cases fp <;> rfl, ?_, fun a ha hap => ?_⟩
      · rw [load_store, carve, if_neg hwhole]
        have hb' : b ∈ b :: bs := List.mem_cons_self
        refine ⟨rfl, ?_, ?_⟩
        · rw [store_mem_of_apart (hbelow.apart hb' (by simp))]
          have hne : b.ptr + size ≠ b.ptr + size + 8 := by omega
          rw [hh₂, setNext_mem, Function.update_of_ne hne, hh₁, setSize_mem, Function.update_self]
        · rw [store_mem_of_apart (hbelow.apart hb' (by change b.ptr ≤ b.ptr + size + 8; omega))]
          rw [hh₂, setNext_mem, Function.update_self]
          refine hrest.congr fun c hc => ?_
          have hc' : c ∈ b :: bs := List.mem_cons_of_mem _ hc
          have hbc := habove c hc
          simp only [Block.fin] at hbc
          constructor
          · rw [store_mem_of_apart (hbelow.apart hc' le_rfl)]
            exact hmem₂ _ (by omega) (by omega)
          · rw [store_mem_of_apart (hbelow.apart hc' (Nat.le_add_right _ _))]
            exact hmem₂ _ (by omega) (by omega)
      · intro hne
        cases fp with
        | head => exact absurd rfl hne
        | next f => rfl
      · have hout := ha b (by simp)
        simp only [Block.mem_bytes, Block.fin] at hout
        rw [store_mem_of_apart hap]
        exact hmem₂ _ (by omega) (by omega)

/-- The search stops at the end of the list when no block is large enough. -/
theorem findFit_of_none {h : SimpleHeap} {fp : Link} {bs : List Block} {size fuel : ℕ}
    (hseg : Segment h.mem (h.load fp) bs endOfList) (hn : ∀ b ∈ bs, R.Node b)
    (hfuel : bs.length < fuel) (htake : takeFit size bs = none) :
    ∃ fp', h.findFit size fuel fp = .done fp' ∧ h.load fp' = endOfList := by
  induction bs generalizing fp fuel with
  | nil =>
    obtain ⟨n, rfl⟩ : ∃ n, fuel = n + 1 := ⟨fuel - 1, by omega⟩
    have hend : h.load fp = endOfList := hseg
    exact ⟨fp, by simp [findFit, hend], hend⟩
  | cons b bs ih =>
    obtain ⟨n, rfl⟩ : ∃ n, fuel = n + 1 := ⟨fuel - 1, by omega⟩
    rw [List.length_cons] at hfuel
    obtain ⟨hload, hsize, hrest⟩ := hseg
    have hall := takeFit_eq_none.mp htake
    have hcond : h.load fp ≠ endOfList ∧ h.size (h.load fp) < size := by
      rw [hload, SimpleHeap.size, hsize]
      exact ⟨(hn b (by simp)).ptr_lt.ne, hall b (by simp)⟩
    have hnone : takeFit size bs = none :=
      takeFit_eq_none.mpr fun c hc => hall c (List.mem_cons_of_mem _ hc)
    rw [findFit, if_pos hcond, hload]
    exact ih hrest (fun c hc => hn c (List.mem_cons_of_mem _ hc)) (by omega) hnone

/-- The search and the taking are `takeFit`. -/
theorem findFit_of_some {h : SimpleHeap} {fp : Link} {bs : List Block} {size fuel : ℕ}
    {r : ℕ × List Block} (hseg : Segment h.mem (h.load fp) bs endOfList) (hasc : Ascending bs)
    (hn : ∀ b ∈ bs, R.Node b) (hbelow : fp.Below bs) (hpos : 0 < size) (hdvd : nodeSize ∣ size)
    (hfuel : bs.length < fuel) (htake : takeFit size bs = some r) :
    ∃ fp' h', h.findFit size fuel fp = .done fp' ∧ h.takeFrom fp' size = .done (r.1, h') ∧
      Taken h h' fp bs r.2 := by
  induction bs generalizing fp fuel r with
  | nil => simp [takeFit] at htake
  | cons b bs ih =>
    obtain ⟨n, rfl⟩ : ∃ n, fuel = n + 1 := ⟨fuel - 1, by omega⟩
    rw [List.length_cons] at hfuel
    have hload := hseg.1
    have hsize := hseg.2.1
    have hbnode := hn b (by simp)
    by_cases hsmall : b.size < size
    · -- the block is too small: the search goes on through its `next` field
      rw [takeFit, if_pos hsmall, Option.map_eq_some_iff] at htake
      obtain ⟨r', htake', rfl⟩ := htake
      have hcond : h.load fp ≠ endOfList ∧ h.size (h.load fp) < size := by
        rw [hload, SimpleHeap.size, hsize]
        exact ⟨hbnode.ptr_lt.ne, hsmall⟩
      obtain ⟨habove, hasc'⟩ := List.pairwise_cons.mp hasc
      have hbelow' : Link.Below (.next b.ptr) bs := fun c hc =>
        hbnode.bounds.1.trans (habove c hc)
      have hseg' : Segment h.mem (h.load (.next b.ptr)) bs endOfList := hseg.2.2
      obtain ⟨fp', h', hfind, htaken, ht⟩ := ih hseg' hasc'
        (fun c hc => hn c (List.mem_cons_of_mem _ hc)) hbelow' (by omega : bs.length < n) htake'
      have hbn := hbnode.bounds
      simp only [nodeSize] at hbn
      have hlow : ∀ a, a < b.ptr + 8 → h'.mem a = h.mem a := by
        intro a ha
        refine ht.frame a (fun c hc hac => ?_) (by change a ≠ b.ptr + 8; omega)
        have := habove c hc
        rw [Block.mem_bytes] at hac
        omega
      have hload' : h'.load fp = b.ptr := by
        rw [← hload]
        cases fp with
        | head => exact ht.free_eq (by simp)
        | next f =>
          have := hbelow b (by simp)
          simp only [nodeSize] at this
          exact hlow (f + 8) (by omega)
      refine ⟨fp', h', ?_, htaken, ⟨?_, ht.base_eq, ht.end_eq, ?_, fun a ha hap => ?_⟩⟩
      · rw [findFit, if_pos hcond, hload]
        exact hfind
      · exact ⟨hload', (hlow _ (by omega)).trans hsize, ht.chain⟩
      · exact fun _ => ht.free_eq (by simp)
      · refine ht.frame a (fun c hc => ha c (List.mem_cons_of_mem _ hc)) ?_
        have hout := ha b (by simp)
        rw [Block.mem_bytes] at hout
        change a ≠ b.ptr + 8
        omega
    · -- the block is large enough: this is where the loop stops
      rw [takeFit, if_neg hsmall, Option.some.injEq] at htake
      subst htake
      have hcond : ¬ (h.load fp ≠ endOfList ∧ h.size (h.load fp) < size) := by
        rw [hload, SimpleHeap.size, hsize]
        exact fun hc => hsmall hc.2
      obtain ⟨h', htaken, ht⟩ := takeFrom_refines hseg hasc hbnode hbelow hpos hdvd (by omega)
      exact ⟨fp, h', by rw [findFit, if_neg hcond], htaken, ht⟩

/-- **`alloc` is `takeFit`**, when some block is large enough. -/
theorem alloc_of_some {h : SimpleHeap} {fs : List Block} {size : ℕ} {r : ℕ × List Block}
    (hf : FreeList R h fs) (hpos : 0 < size) (hdvd : nodeSize ∣ size)
    (htake : takeFit size fs = some r) :
    ∃ h', h.alloc size = .done (r.1, h') ∧ FreeList R h' r.2 ∧
      ∀ a, (∀ b ∈ fs, a ∉ b.bytes) → h'.mem a = h.mem a := by
  obtain ⟨fp', h', hfind, htaken, ht⟩ := findFit_of_some hf.chain hf.ascending hf.node
    (show Link.Below .head fs from trivial) hpos hdvd (R.length_lt hf.ascending hf.node) htake
  refine ⟨h', ?_, ⟨ht.base_eq.trans hf.base_eq, ht.end_eq.trans hf.end_eq, ht.chain,
    takeFit_ascending htake hf.ascending, ?_⟩, fun a ha => ht.frame a ha trivial⟩
  · rw [alloc, hfind]
    exact htaken
  · exact takeFit_forall htake hf.node fun b hb hlt => hb.rest hdvd hlt

/-- **`alloc` aborts** when no block is large enough. -/
theorem alloc_of_none {h : SimpleHeap} {fs : List Block} {size : ℕ} (hf : FreeList R h fs)
    (htake : takeFit size fs = none) : h.alloc size = .abort := by
  obtain ⟨fp', hfind, hend⟩ := findFit_of_none (show Segment h.mem (h.load .head) fs endOfList from
    hf.chain) hf.node (R.length_lt hf.ascending hf.node) htake
  rw [alloc, hfind, Outcome.done_bind, takeFrom, Outcome.require_neg (by simpa using hend)]
  rfl

/-- `alloc` of at most the size of the first block returns, also of size zero. -/
theorem alloc_returns_of_head {h : SimpleHeap} {b : Block} {bs : List Block} {size : ℕ}
    (hf : FreeList R h (b :: bs)) (hle : size ≤ b.size) : (h.alloc size).Returns := by
  obtain ⟨hload, hsize, -⟩ := hf.chain
  have hne : h.load .head ≠ endOfList := by
    rw [load, hload]
    exact (hf.node b (by simp)).ptr_lt.ne
  have hcond : ¬ (h.load .head ≠ endOfList ∧ h.size (h.load .head) < size) := by
    rw [load, hload, SimpleHeap.size, hsize]
    exact fun hc => absurd hle (not_le.mpr hc.2)
  have hfind : h.findFit size maxNodes .head = .done .head := by
    rw [show maxNodes = (2 ^ 60 - 1) + 1 from rfl, findFit, if_neg hcond]
  rw [alloc, hfind, Outcome.done_bind, takeFrom, Outcome.require_pos hne, Outcome.done_bind]
  dsimp only
  split
  · exact Outcome.done_returns _
  · exact Outcome.done_returns _

end SimpleHeap

end Attos
