import Attos.DefaultHeap

/-!
# Freeing an allocation twice

`default_heap::free` finds the cookie in front of a pointer, or fails. The word of the cookie is
that of the next pointer once the header is a node of the free list. A next pointer leads upwards
(`Rising`), and it stays as it is when the node is joined with the one below: so the cookie does not
come back (`Freed.noAlloc`), whatever else is freed, and freeing the pointer again fails
(`doubleFree_detected`).

This takes headers that are nodes of their own. An allocation whose size wraps around to nothing
puts its header over the first free node and leaves that in the list. When it is freed, the node is
linked to itself, and the next pointer is the cookie (`not_doubleFree_detected`).
-/

namespace Attos.DefaultHeap

open Lib

/-- What can happen without an allocation. -/
inductive Run.NoAlloc : Run → Run → Prop where
  /-- a live allocation is freed -/
  | free {h h' : DefaultHeap} {pre post : List Allocation} {a : Allocation} :
      h.free a.ptr = .done h' → NoAlloc ⟨h, pre ++ a :: post⟩ ⟨h', pre ++ post⟩
  /-- the users write to the bytes they asked for -/
  | write {h : DefaultHeap} {live : List Allocation} {mem : ℕ → ℕ} :
      (∀ i, (∀ a ∈ live, i ∉ a.payload) → mem i = h.heap_.mem i) →
      NoAlloc ⟨h, live⟩ ⟨⟨{ h.heap_ with mem := mem }⟩, live⟩

/-- The cookie is in front of the pointer. -/
def Cookie (h : DefaultHeap) (ptr : ℕ) : Prop := h.heap_.mem (sub64 ptr align + 8) = sub64 ptr align

instance {h : DefaultHeap} {ptr : ℕ} : Decidable (Cookie h ptr) :=
  inferInstanceAs (Decidable (h.heap_.mem (sub64 ptr align + 8) = sub64 ptr align))

/-- The pointer was freed: without an allocation, freeing it again fails because of the cookie. -/
def Detects (s : Run) (ptr : ℕ) : Prop :=
  ∀ s', Relation.ReflTransGen Run.NoAlloc s s' → ¬ Cookie s'.heap ptr ∧ s'.heap.free ptr = .abort

/-! ## Headers -/

/-- The block of the header, wherever the pointer is. -/
def Allocation.node (a : Allocation) : Block := ⟨sub64 a.ptr align, extended a.size⟩

/-- The invariant: the headers belong to blocks of their own. -/
structure Held (R : Region) (s : Run) (fs : List Block) : Prop where
  /-- the free list and the blocks of the headers tile the region -/
  simple : SimpleHeap.Inv R ⟨s.heap.heap_, s.live.map Allocation.node⟩ fs
  /-- they are some nodes apart -/
  apart : ∀ b ∈ s.live.map Allocation.node ++ fs, b.ptr % align = R.base % align
  /-- the sizes did not overflow -/
  fits : ∀ a ∈ s.live, a.size + 2 * align ≤ 2 ^ 64
  /-- the pointers are behind the headers -/
  ptr_eq : ∀ a ∈ s.live, a.ptr = u64 (a.node.ptr + align)
  /-- the size words -/
  size_eq : ∀ a ∈ s.live, s.heap.heap_.mem a.node.ptr = a.node.size

theorem free_eq_done {h h' : DefaultHeap} {ptr : ℕ} (hrun : h.free ptr = .done h') :
    (setWord h.heap_ (sub64 ptr align + 8) 0).free (sub64 ptr align) (h.heap_.mem (sub64 ptr align)) =
      .done h'.heap_ := by
  rw [DefaultHeap.free] at hrun
  obtain ⟨-, hrun⟩ := Outcome.require_bind_eq_done.mp hrun
  obtain ⟨heap, hheap, hdone⟩ := Outcome.bind_eq_done.mp hrun
  rw [hheap, ← Outcome.done.inj hdone]

theorem free_of_not_cookie {h : DefaultHeap} {ptr : ℕ} (hcookie : ¬ Cookie h ptr) : h.free ptr = .abort := by
  have hreq : Outcome.require (h.heap_.mem (sub64 ptr align + 8) = sub64 ptr align) = .abort :=
    Outcome.require_neg hcookie
  rw [DefaultHeap.free, hreq]
  rfl

theorem sub64_u64_add {q : ℕ} (h : q < 2 ^ 64) : sub64 (u64 (q + align)) align = q := by
  rw [sub64, u64, u64, align]
  omega

namespace Held

variable {R : Region} {s : Run} {fs : List Block} {h h' : DefaultHeap} {a : Allocation} {live : List Allocation} {i : ℕ}

/-- The invariant does not depend on the order of the allocations. -/
theorem perm (hi : Held R s fs) (hp : s.live.Perm live) : Held R ⟨s.heap, live⟩ fs where
  simple := hi.simple.perm (hp.map _)
  apart b hb := hi.apart b (((hp.map _).append_right fs).mem_iff.mpr hb)
  fits a ha := hi.fits a (hp.mem_iff.mpr ha)
  ptr_eq a ha := hi.ptr_eq a (hp.mem_iff.mpr ha)
  size_eq a ha := hi.size_eq a (hp.mem_iff.mpr ha)

theorem node (hi : Held R s fs) (ha : a ∈ s.live) : R.Node a.node := hi.simple.node _ (List.mem_map_of_mem ha)

/-- The bytes of the user are behind the header in its block. -/
theorem payload (hi : Held R s fs) (ha : a ∈ s.live) (hp : i ∈ a.payload) :
    a.node.ptr + align ≤ i ∧ i < a.node.fin := by
  have hptr := hi.ptr_eq a ha
  have hext := (extended_of_le (hi.fits a ha)).2.1
  have hbounds := (hi.node ha).bounds
  have hfin : a.node.fin = a.node.ptr + extended a.size := rfl
  obtain ⟨hlo, hhi⟩ := hp
  rw [u64] at hptr
  rw [align] at hext hptr ⊢
  omega

/-- The blocks of two allocations do not overlap. -/
theorem disjoint_cons (hi : Held R ⟨h, a :: live⟩ fs) {b : Allocation} (hb : b ∈ live) :
    Disjoint a.node.bytes b.node.bytes :=
  (List.pairwise_cons.mp hi.simple.tiles.disjoint).1 b.node (List.mem_append_left _ (List.mem_map_of_mem hb))

theorem disjoint_free (hi : Held R s fs) (ha : a ∈ s.live) {b : Block} (hb : b ∈ fs) :
    Disjoint a.node.bytes b.bytes :=
  (List.pairwise_append.mp hi.simple.tiles.disjoint).2.2 _ (List.mem_map_of_mem ha) _ hb

theorem mem_node (hi : Held R s fs) (ha : a ∈ s.live) : a.node.ptr ∈ a.node.bytes :=
  ⟨Nat.le_refl _, Nat.lt_add_of_pos_right (hi.node ha).pos⟩

/-- The constructor establishes the invariant. -/
theorem init (h : Run.Init R s) : Held R s [⟨R.base, R.length⟩] := by
  obtain ⟨hlive, mem, hrun⟩ := h
  obtain ⟨heap, hnew, hdone⟩ := Outcome.bind_eq_done.mp hrun
  obtain ⟨⟨heap'⟩, live⟩ := s
  obtain rfl : heap = heap' := congrArg DefaultHeap.heap_ (Outcome.done.inj hdone)
  obtain rfl : live = [] := hlive
  exact ⟨SimpleHeap.Inv.init ⟨rfl, mem, hnew⟩, by simp, by simp, by simp, by simp⟩

/-- **Writes of the users keep the invariant.** -/
theorem write {mem : ℕ → ℕ} (hi : Held R s fs)
    (hmem : ∀ i, (∀ a ∈ s.live, i ∉ a.payload) → mem i = s.heap.heap_.mem i) :
    Held R ⟨⟨{ s.heap.heap_ with mem := mem }⟩, s.live⟩ fs := by
  refine ⟨hi.simple.write fun i hout => hmem i fun a ha hp => ?_, hi.apart, hi.fits, hi.ptr_eq, fun a ha => ?_⟩
  · have hin := hi.payload ha hp
    exact hout a.node (List.mem_map_of_mem ha) ⟨by omega, hin.2⟩
  · -- the size word is in no payload, as it is in front of the one of its block
    refine (hmem _ fun b hb hp => ?_).trans (hi.size_eq a ha)
    have hin := hi.payload hb hp
    rw [align] at hin
    by_cases hab : a = b
    · rw [← hab] at hin
      omega
    · have hd := List.pairwise_map.mp (List.pairwise_append.mp hi.simple.tiles.disjoint).1
      have hmemb : a.node.ptr ∈ b.node.bytes := ⟨by omega, hin.2⟩
      rcases rel_or_rel_of_pairwise hd ha hb hab with hd | hd
      · exact Set.disjoint_left.mp hd (hi.mem_node ha) hmemb
      · exact Set.disjoint_right.mp hd (hi.mem_node ha) hmemb

/-- **An allocation that returns keeps the invariant**, if its size does not wrap around. -/
theorem alloc {size p : ℕ} {taken : Set ℕ} (hi : Held R ⟨h, live⟩ fs) (hfits : size + 2 * align ≤ 2 ^ 64)
    (hrun : h.alloc size = .done (p, h')) : ∃ fs', Held R ⟨h', ⟨p, size, taken⟩ :: live⟩ fs' := by
  obtain ⟨hdvd, hle, -⟩ := extended_of_le hfits
  have hpos := extended_pos hfits
  rw [DefaultHeap.alloc] at hrun
  obtain ⟨⟨q, h₁⟩, halloc, hdone⟩ := Outcome.bind_eq_done.mp hrun
  obtain ⟨rfl, rfl⟩ := Prod.mk.inj (Outcome.done.inj hdone)
  obtain ⟨fs', htake, hi₁⟩ := hi.simple.alloc hpos hdvd halloc
  obtain ⟨h₂, halloc', -, hframe⟩ := SimpleHeap.alloc_of_some hi.simple.list hpos hdvd htake
  obtain rfl : h₁ = h₂ := (Prod.mk.inj (Outcome.done.inj (halloc.symm.trans halloc'))).2
  have hnode : R.Node ⟨q, extended size⟩ := hi₁.node _ List.mem_cons_self
  have hbounds := hnode.bounds
  simp only [Block.fin_mk, nodeSize] at hbounds
  have hq : sub64 (u64 (q + align)) align = q := sub64_u64_add (by omega)
  have hin : q ∈ (⟨q, extended size⟩ : Block).bytes := ⟨Nat.le_refl _, Nat.lt_add_of_pos_right hpos⟩
  have hin' : q + 8 ∈ (⟨q, extended size⟩ : Block).bytes := by
    simp only [Block.mem_bytes, Block.fin_mk]
    omega
  have hi₂ := inv_setWord (inv_setWord hi₁ List.mem_cons_self hin (extended size)) List.mem_cons_self hin' q
  set a : Allocation := ⟨u64 (q + align), size, taken⟩ with ha
  have hblock : a.node = ⟨q, extended size⟩ := by
    rw [Allocation.node, ha, hq]
  refine ⟨fs', ?_, ?_, List.forall_mem_cons.mpr ⟨hfits, hi.fits⟩, List.forall_mem_cons.mpr ⟨?_, hi.ptr_eq⟩, ?_⟩
  · rw [List.map_cons, hblock]
    exact hi₂
  · -- the block is the front of a free block, and what is left of that is nodes behind
    have hfree : ∀ b ∈ fs, b.ptr % align = R.base % align := fun b hb => hi.apart b (List.mem_append_right _ hb)
    have hfree' := takeFit_forall (P := fun b => b.ptr % align = R.base % align) htake hfree fun b hb _ => by
      obtain ⟨k, hk⟩ := hdvd
      rw [hk, Nat.add_mul_mod_self_left]
      exact hb
    obtain ⟨pre, b, post, rfl, -, -, hr⟩ := takeFit_eq_some htake
    obtain rfl : q = b.ptr := congrArg Prod.fst hr
    rw [List.map_cons, hblock, List.cons_append]
    refine List.forall_mem_cons.mpr ⟨hfree b (by simp), fun c hc => ?_⟩
    rcases List.mem_append.mp hc with hc | hc
    · exact hi.apart c (List.mem_append_left _ hc)
    · exact hfree' c hc
  · rw [hblock]
  · refine List.forall_mem_cons.mpr ⟨?_, fun b hb => ?_⟩
    · rw [hblock]
      rw [setWord_mem, Function.update_of_ne (show q ≠ q + 8 by omega), setWord_mem, Function.update_self]
    · -- the older headers lie outside the free list, and outside the new block
      have hold : b.node.ptr ∉ (⟨q, extended size⟩ : Block).bytes := fun hq =>
        Set.disjoint_left.mp ((List.pairwise_cons.mp hi₂.tiles.disjoint).1 b.node
          (List.mem_append_left _ (List.mem_map_of_mem hb))) hq (hi.mem_node hb)
      simp only [Block.mem_bytes, Block.fin_mk] at hold
      rw [setWord_mem, Function.update_of_ne (by omega), setWord_mem, Function.update_of_ne (by omega), hframe]
      · exact hi.size_eq b hb
      · exact fun c hc hic => Set.disjoint_left.mp (hi.disjoint_free hb hc) (hi.mem_node hb) hic

/-- What freeing does to the memory: the header becomes a node of the list, and no other words are
written than those of nodes. -/
structure FreeEffect (h h' : DefaultHeap) (b : Block) (fs : List Block) : Prop where
  /-- other words stay -/
  frame : ∀ i, Untouched (b :: fs) i → h'.heap_.mem i = h.heap_.mem i
  /-- the nodes lead upwards -/
  rising : Rising h'.heap_.mem (b :: fs)

/-- **Freeing an allocation keeps the invariant.** -/
theorem free (hi : Held R ⟨h, a :: live⟩ fs) (hrun : h.free a.ptr = .done h') :
    Held R ⟨h', live⟩ (freeInsert a.node fs) ∧ FreeEffect h h' a.node fs := by
  have hnode := hi.node List.mem_cons_self
  have hbounds := hnode.bounds
  rw [nodeSize] at hbounds
  have hin : a.node.ptr + 8 ∈ a.node.bytes := ⟨Nat.le_add_right _ _, by omega⟩
  have hi₁ := inv_setWord hi.simple List.mem_cons_self hin 0
  have hfree : (setWord h.heap_ (a.node.ptr + 8) 0).free a.node.ptr a.node.size = .done h'.heap_ := by
    rw [← hi.size_eq a List.mem_cons_self]
    exact free_eq_done hrun
  have hi₂ : SimpleHeap.Inv R ⟨h'.heap_, live.map Allocation.node⟩ (freeInsert a.node fs) := by
    have h := hi₁.free List.mem_cons_self hfree
    rwa [List.map_cons, List.erase_cons_head] at h
  rw [SimpleHeap.free, Outcome.require_bind_eq_done] at hfree
  obtain ⟨h₁, hinsert, -, hframe, hrising⟩ :=
    SimpleHeap.insertFree_refines hi₁.list hnode fun c hc => hi₁.apart List.mem_cons_self hc
  obtain rfl : h₁ = h'.heap_ := Outcome.done.inj (hinsert.symm.trans hfree.2)
  have heffect : FreeEffect h h' a.node fs := by
    refine ⟨fun i hun => (hframe i hun).trans (Function.update_of_ne ?_ _ _), hrising⟩
    exact (hun a.node List.mem_cons_self).2
  refine ⟨⟨hi₂, fun b hb => ?_, fun b hb => hi.fits b (List.mem_cons_of_mem _ hb),
    fun b hb => hi.ptr_eq b (List.mem_cons_of_mem _ hb), fun b hb => ?_⟩, heffect⟩
  · rcases List.mem_append.mp hb with hb | hb
    · exact hi.apart b (List.mem_append_left _ (List.mem_cons_of_mem _ hb))
    · refine freeInsert_forall (fun b => b.ptr % align = R.base % align) ?_ ?_ (fun c d hc _ _ => hc) b hb
      · exact hi.apart _ (List.mem_append_left _ List.mem_cons_self)
      · exact fun c hc => hi.apart c (List.mem_append_right _ hc)
  · have hbin : b ∈ a :: live := List.mem_cons_of_mem _ hb
    have hself := hi.mem_node hbin
    refine (heffect.frame _ fun c hc => ?_).trans (hi.size_eq b hbin)
    have hout : R.Node c ∧ b.node.ptr ∉ c.bytes := by
      rcases List.mem_cons.mp hc with rfl | hc
      · exact ⟨hnode, fun hcb => Set.disjoint_left.mp (hi.disjoint_cons hb) hcb hself⟩
      · exact ⟨hi.simple.list.node c hc, fun hcb => Set.disjoint_left.mp (hi.disjoint_free hbin hc) hself hcb⟩
    have hcb := hout.1.bounds
    have hnot := hout.2
    rw [Block.mem_bytes] at hnot
    rw [nodeSize] at hcb
    omega

end Held

/-- **Every reachable state satisfies the invariant**, if the sizes fit. -/
theorem reachable_held {R : Region} {s : Run} (hs : Reach (Run.Init R) (Run.Step R Fits) s) :
    ∃ fs, Held R s fs := by
  refine Reach.invariant (fun s => ∃ fs, Held R s fs) hs (fun s h => ⟨_, .init h⟩) ?_
  rintro s t ⟨fs, hi⟩ hstep
  cases hstep with
  | @alloc h h' live size p _ hfits hrun =>
    rcases hfits with hle | hnil
    · exact hi.alloc hle hrun
    · obtain rfl : fs = [] := eq_nil hi.simple.list hnil
      rw [alloc_of_none hi.simple.list rfl] at hrun
      cases hrun
  | @free h h' pre post a hrun =>
    have hi₁ : Held R ⟨h, a :: (pre ++ post)⟩ fs := hi.perm List.perm_middle
    exact ⟨_, (hi₁.free hrun).1⟩
  | write hmem => exact ⟨fs, hi.write hmem⟩

/-! ## The word of the cookie -/

/-- The header at `q` is in a free block, and its second word leads upwards. -/
structure Freed (R : Region) (s : Run) (fs : List Block) (q : ℕ) : Prop where
  /-- the headers of the other allocations -/
  held : Held R s fs
  /-- where the header is -/
  place : q % align = R.base % align
  /-- it is free -/
  isFree : ∃ b ∈ fs, q ∈ b.bytes
  /-- the word of the cookie -/
  up : q < s.heap.heap_.mem (q + 8)

section Freed

variable {R : Region} {s s' : Run} {fs : List Block} {h h' : DefaultHeap} {a : Allocation} {live : List Allocation}
  {q ptr : ℕ}

/-- What was free, and what is freed, is free afterwards. -/
theorem Held.free_mono (hi : Held R ⟨h, a :: live⟩ fs) (hi' : Held R ⟨h', live⟩ (freeInsert a.node fs))
    (hq : ∃ b ∈ a.node :: fs, q ∈ b.bytes) : ∃ b ∈ freeInsert a.node fs, q ∈ b.bytes := by
  obtain ⟨b, hb, hqb⟩ := hq
  have hlive : ∀ c ∈ live.map Allocation.node, q ∉ c.bytes := by
    intro c hc hqc
    obtain ⟨hself, hrest⟩ := List.pairwise_cons.mp hi.simple.tiles.disjoint
    rcases List.mem_cons.mp hb with rfl | hb
    · exact Set.disjoint_left.mp (hself c (List.mem_append_left _ hc)) hqb hqc
    · exact Set.disjoint_left.mp ((List.pairwise_append.mp hrest).2.2 c hc b hb) hqc hqb
  have hin : q ∈ Set.Ico R.base R.fin := by
    refine hi.simple.tiles.subset ?_ hqb
    rcases List.mem_cons.mp hb with rfl | hb
    · exact List.mem_append_left _ List.mem_cons_self
    · exact List.mem_append_right _ hb
  obtain ⟨c, hc, hqc⟩ := (hi'.simple.tiles.cover q).mp hin
  rcases List.mem_append.mp hc with hc | hc
  · exact absurd hqc (hlive c hc)
  · exact ⟨c, hc, hqc⟩

/-- **The pointer is freed**: its header is a node, and leads upwards. -/
theorem Freed.of_free (hi : Held R ⟨h, a :: live⟩ fs) (hrun : h.free a.ptr = .done h') :
    Freed R ⟨h', live⟩ (freeInsert a.node fs) a.node.ptr := by
  obtain ⟨hi', heffect⟩ := hi.free hrun
  refine ⟨hi', hi.apart _ (List.mem_append_left _ List.mem_cons_self), ?_, ?_⟩
  · exact hi.free_mono hi' ⟨_, List.mem_cons_self, hi.mem_node List.mem_cons_self⟩
  · exact heffect.rising _ List.mem_cons_self

/-- **Another free** leaves the word alone, or writes another pointer upwards. -/
theorem Freed.free (hf : Freed R ⟨h, a :: live⟩ fs q) (hrun : h.free a.ptr = .done h') :
    Freed R ⟨h', live⟩ (freeInsert a.node fs) q := by
  have hi := hf.held
  obtain ⟨hi', heffect⟩ := hi.free hrun
  obtain ⟨b, hb, hqb⟩ := hf.isFree
  refine ⟨hi', hf.place, hi.free_mono hi' ⟨b, List.mem_cons_of_mem _ hb, hqb⟩, ?_⟩
  by_cases hnode : ∃ c ∈ a.node :: fs, c.ptr = q
  · obtain ⟨c, hc, rfl⟩ := hnode
    exact heffect.rising c hc
  · -- the header is inside of a block, and nodes are some nodes apart
    have huntouched : Untouched (a.node :: fs) (q + 8) := by
      intro c hc
      have hne : c.ptr ≠ q := fun heq => hnode ⟨c, hc, heq⟩
      have hplace : c.ptr % align = R.base % align := by
        rcases List.mem_cons.mp hc with rfl | hc
        · exact hi.apart _ (List.mem_append_left _ List.mem_cons_self)
        · exact hi.apart c (List.mem_append_right _ hc)
      have hq := hf.place
      rw [align] at hplace hq
      omega
    change q < h'.heap_.mem (q + 8)
    rw [heffect.frame _ huntouched]
    exact hf.up

/-- **A write** of a user is to other words. -/
theorem Freed.write {mem : ℕ → ℕ} (hf : Freed R ⟨h, live⟩ fs q)
    (hmem : ∀ i, (∀ a ∈ live, i ∉ a.payload) → mem i = h.heap_.mem i) :
    Freed R ⟨⟨{ h.heap_ with mem := mem }⟩, live⟩ fs q := by
  have hi := hf.held
  obtain ⟨b, hb, hqb⟩ := hf.isFree
  refine ⟨hi.write hmem, hf.place, hf.isFree, ?_⟩
  have hnode := hi.simple.list.node b hb
  have hin : q + 8 ∈ b.bytes := by
    obtain ⟨k, hk⟩ := hnode.granular
    have hplace := hi.apart b (List.mem_append_right _ hb)
    have hq := hf.place
    simp only [Block.mem_bytes, Block.fin, nodeSize, align] at *
    omega
  change q < mem (q + 8)
  rw [hmem]
  · exact hf.up
  · intro a ha hp
    have hpayload := hi.payload ha hp
    exact Set.disjoint_left.mp (hi.disjoint_free ha hb) ⟨by omega, hpayload.2⟩ hin

/-- **The step.** -/
theorem Freed.noAlloc (hf : ∃ fs, Freed R s fs q) (hstep : Run.NoAlloc s s') : ∃ fs, Freed R s' fs q := by
  obtain ⟨fs, hf⟩ := hf
  cases hstep with
  | @free h h' pre post a hrun =>
    have hf₁ : Freed R ⟨h, a :: (pre ++ post)⟩ fs q := ⟨hf.held.perm List.perm_middle, hf.place, hf.isFree, hf.up⟩
    exact ⟨_, hf₁.free hrun⟩
  | write hmem => exact ⟨fs, hf.write hmem⟩

/-- Without an allocation, freeing the pointer again fails. -/
theorem Freed.detects (hf : Freed R s fs (sub64 ptr align)) : Detects s ptr := by
  intro s' hsteps
  have hfreed : ∃ fs, Freed R s' fs (sub64 ptr align) := by
    induction hsteps with
    | refl => exact ⟨fs, hf⟩
    | tail _ hstep ih => exact Freed.noAlloc ih hstep
  obtain ⟨fs', hf'⟩ := hfreed
  have hcookie : ¬ Cookie s'.heap ptr := fun heq => absurd heq (Nat.ne_of_gt hf'.up)
  exact ⟨hcookie, free_of_not_cookie hcookie⟩

end Freed

/-- **Freeing an allocation twice** is detected in every run in which no size overflows while
memory is free. -/
theorem doubleFree_detected {R : Region} {h h' : DefaultHeap} {pre post : List Allocation} {a : Allocation}
    (hs : Reach (Run.Init R) (Run.Step R Fits) ⟨h, pre ++ a :: post⟩) (hrun : h.free a.ptr = .done h') :
    Detects ⟨h', pre ++ post⟩ a.ptr := by
  obtain ⟨fs, hi⟩ := reachable_held hs
  have hi₁ : Held R ⟨h, a :: (pre ++ post)⟩ fs := hi.perm List.perm_middle
  exact (Freed.of_free hi₁ hrun).detects

/-! ## Runs of a heap of 64 bytes -/

/-- Two allocations take all the memory. -/
theorem exists_twoAllocations : ∃ h a b,
    Reach (Run.Init SimpleHeap.fourNodes) (Run.Step SimpleHeap.fourNodes Fits) ⟨h, [b, a]⟩ ∧
    Inv SimpleHeap.fourNodes ⟨h, [b, a]⟩ [] ∧ a.block = ⟨4096, 32⟩ ∧ b.block = ⟨4128, 32⟩ := by
  obtain ⟨h₀, hinit⟩ := exists_init SimpleHeap.fourNodes (by decide) (by decide)
  have hi₀ : Inv SimpleHeap.fourNodes ⟨h₀, []⟩ [⟨4096, 64⟩] := Inv.init (by decide) hinit
  have hextended : extended 1 = 32 := by decide
  have hblock : ∀ p taken, Allocation.block ⟨p + align, 1, taken⟩ = ⟨p, 32⟩ := fun p _ => by
    rw [Allocation.block, Nat.add_sub_cancel, hextended]
  obtain ⟨h₁, halloc, hi₁⟩ := @Inv.alloc _ _ _ 1 4096 [⟨4128, 32⟩] hi₀ (by decide) (by decide) (by decide)
  obtain ⟨h₂, halloc', hi₂⟩ := @Inv.alloc _ _ _ 1 4128 [] hi₁ (by decide) (by decide) (by decide)
  exact ⟨h₂, _, _, ((Reach.start hinit).step (.alloc (by decide) (Or.inl (by decide)) halloc)).step
    (.alloc (by decide) (Or.inl (by decide)) halloc'), hi₂, hblock .., hblock ..⟩

/-- They are freed, and the second one is merged into the first one. -/
theorem doubleFree_detected_fourNodes : ∃ h h₁ h₂ a b,
    Run.Step SimpleHeap.fourNodes Fits ⟨h, [b, a]⟩ ⟨h₁, [b]⟩ ∧ Detects ⟨h₁, [b]⟩ a.ptr ∧
    Run.Step SimpleHeap.fourNodes Fits ⟨h₁, [b]⟩ ⟨h₂, []⟩ ∧ Detects ⟨h₂, []⟩ b.ptr ∧
    SimpleHeap.FreeList SimpleHeap.fourNodes h₂.heap_ [⟨4096, 64⟩] := by
  obtain ⟨h, a, b, hr, hi, ha, hb⟩ := exists_twoAllocations
  obtain ⟨h₁, hfree, hi₁⟩ := (hi.perm (List.Perm.swap a b [])).free (by decide)
  rw [ha] at hi₁
  have hstep := @Run.Step.free SimpleHeap.fourNodes Fits _ _ [b] [] _ hfree
  obtain ⟨h₂, hfree', hi₂⟩ := hi₁.free (by decide)
  rw [hb] at hi₂
  exact ⟨h, h₁, h₂, a, b, hstep, @doubleFree_detected _ _ _ [b] [] _ hr hfree, @Run.Step.free _ _ _ _ [] [] _ hfree',
    @doubleFree_detected _ _ _ [] [] _ (hr.step hstep) hfree', hi₂.simple.list⟩

/-- Three allocations, where the size of the third one wraps around to nothing. The first one and
then the third one are freed, and the cookie is still there. -/
def wrapAndFree : Outcome (ℕ × DefaultHeap) := do
  let h₀ ← DefaultHeap.new (fun _ => 0) 4096 64
  let a ← h₀.alloc 0
  let b ← a.2.alloc 0
  let p ← b.2.alloc (2 ^ 64 - 16)
  let h ← p.2.free a.1
  let h' ← h.free p.1
  Outcome.require (Cookie h' p.1)
  pure (p.1, h')

/-- **A cookie that comes back.** The third allocation can be freed again. -/
theorem not_doubleFree_detected : ¬ ∀ (R : Region) (h h' : DefaultHeap) (pre post : List Allocation) (a : Allocation),
    Reach (Run.Init R) (Run.Step R fun _ _ => True) ⟨h, pre ++ a :: post⟩ → h.free a.ptr = .done h' →
    Detects ⟨h', pre ++ post⟩ a.ptr := by
  intro hall
  obtain ⟨r, hrun⟩ : wrapAndFree.Returns := by decide +kernel
  obtain ⟨h₀, hnew, hrun⟩ := Outcome.bind_eq_done.mp hrun
  obtain ⟨a, ha, hrun⟩ := Outcome.bind_eq_done.mp hrun
  obtain ⟨b, hb, hrun⟩ := Outcome.bind_eq_done.mp hrun
  obtain ⟨p, hp, hrun⟩ := Outcome.bind_eq_done.mp hrun
  obtain ⟨h, hfree, hrun⟩ := Outcome.bind_eq_done.mp hrun
  obtain ⟨h', hfree', hrun⟩ := Outcome.bind_eq_done.mp hrun
  obtain ⟨hcookie, -⟩ := Outcome.require_bind_eq_done.mp hrun
  have hr₀ : Reach (Run.Init SimpleHeap.fourNodes) (Run.Step SimpleHeap.fourNodes fun _ _ => True) ⟨h₀, []⟩ :=
    .start ⟨rfl, _, hnew⟩
  have hr₁ := hr₀.step (.alloc (by decide) trivial ha)
  have hr₂ := hr₁.step (.alloc (by decide) trivial hb)
  have hr₃ := hr₂.step (.alloc (by decide) trivial hp)
  have hr₄ := hr₃.step (@Run.Step.free _ _ _ _ [_, _] [] _ hfree)
  exact (hall _ h h' [] [_] _ hr₄ hfree' _ .refl).1 hcookie

end Attos.DefaultHeap
