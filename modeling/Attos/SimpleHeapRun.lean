import Attos.Lib.Reach
import Attos.SimpleHeapRefine

/-!
# Runs of the simple heap

A run starts with the constructor on a region of memory and then allocates,
frees live blocks in any order, and lets the users of live blocks write to
them. The heap does not know which blocks are live; the run does.

The invariant (`Inv`) is that the live blocks and the blocks of the free list
tile the region. It holds in every reachable state (`reachable_inv`), so no
byte is handed out twice and none is lost.

What does not hold in every reachable state is what the header promises, that
blocks are coalesced on `free()`. A freed block whose left neighbour in the
list does not touch it is not joined with the free block on its right, and a
later allocation can fail although enough consecutive bytes are free
(`not_coalesced`). The promise holds in every run in which this never happens
(`coalesced_of_mergesRight`).

At the front of the list joining never fails (`inv_frontJoined`). So when every
block has been given back the list is one block again, and the destructor finds
what it asks for (`destroy_of_no_live`).
-/

namespace Attos

open Lib

namespace SimpleHeap

/-- A heap together with the blocks its users hold. -/
structure Run : Type where
  /-- the heap -/
  heap : SimpleHeap
  /-- the blocks handed out and not given back -/
  live : List Block

/-- The constructor has just returned. -/
def Run.Init (R : Region) (s : Run) : Prop :=
  s.live = [] ∧ ∃ mem, SimpleHeap.new mem R.base R.length = .done s.heap

/-- One operation on the heap or on the memory it has handed out. `Ok` limits
which live blocks may be freed in which states. -/
inductive Run.Step (Ok : SimpleHeap → Block → Prop) : Run → Run → Prop where
  /-- an allocation of a positive multiple of the node size returns -/
  | alloc {h h' : SimpleHeap} {live : List Block} {size p : ℕ} :
      0 < size → nodeSize ∣ size → h.alloc size = .done (p, h') →
      Step Ok ⟨h, live⟩ ⟨h', ⟨p, size⟩ :: live⟩
  /-- a live block is freed -/
  | free {h h' : SimpleHeap} {live : List Block} {b : Block} :
      b ∈ live → Ok h b → h.free b.ptr b.size = .done h' →
      Step Ok ⟨h, live⟩ ⟨h', live.erase b⟩
  /-- a user writes to live blocks -/
  | write {h : SimpleHeap} {live : List Block} {mem : ℕ → ℕ} :
      (∀ a, (∀ b ∈ live, a ∉ b.bytes) → mem a = h.mem a) →
      Step Ok ⟨h, live⟩ ⟨{ h with mem := mem }, live⟩

/-- The states of runs in which any live block may be freed at any time. -/
def Reachable (R : Region) : Run → Prop := Reach (Run.Init R) (Run.Step fun _ _ => True)

/-- The invariant: the free list and the live blocks tile the region. -/
structure Inv (R : Region) (s : Run) (fs : List Block) : Prop where
  /-- the list in the free blocks is `fs` -/
  list : FreeList R s.heap fs
  /-- live and free blocks tile the region -/
  tiles : Tiles (Set.Ico R.base R.fin) Block.bytes (s.live ++ fs)
  /-- live blocks can be put back into the list -/
  node : ∀ b ∈ s.live, R.Node b

namespace Inv

variable {R : Region} {s : Run} {fs : List Block}

/-- A live block and a free block do not overlap. -/
theorem apart (h : Inv R s fs) {b c : Block} (hb : b ∈ s.live) (hc : c ∈ fs) : Apart b c := by
  have hd := (List.pairwise_append.mp h.tiles.disjoint).2.2 b hb c hc
  exact Block.le_or_le_of_disjoint (h.node b hb).pos (h.list.node c hc).pos hd

/-- The constructor establishes the invariant. -/
theorem init (h : Run.Init R s) : Inv R s [⟨R.base, R.length⟩] := by
  obtain ⟨hlive, mem, hnew⟩ := h
  simp only [new, Outcome.require_bind_eq_done] at hnew
  obtain ⟨hlen, hmod, hins⟩ := hnew
  have hpos : 0 < R.length := by
    simp only [nodeSize] at hlen
    omega
  have hb : R.Node ⟨R.base, R.length⟩ :=
    ⟨hpos, Nat.dvd_of_mod_eq_zero hmod, le_rfl, le_rfl⟩
  have hempty : FreeList R ⟨R.base, u64 (R.base + R.length), endOfList, mem⟩ [] :=
    ⟨rfl, rfl, rfl, List.Pairwise.nil, by simp⟩
  obtain ⟨h', hrun, hlist, -⟩ := insertFree_refines hempty hb (by simp)
  obtain rfl : h' = s.heap := by simpa using hrun.symm.trans hins
  refine ⟨hlist, ⟨?_, fun a => ?_⟩, by simp [hlive]⟩
  · simp [hlive]
  · simp [hlive, Region.fin]

/-- **An allocation keeps the invariant**, and the list is what `takeFit`
leaves. -/
theorem alloc {size p : ℕ} {h' : SimpleHeap} (hi : Inv R s fs) (hpos : 0 < size)
    (hdvd : nodeSize ∣ size) (hrun : s.heap.alloc size = .done (p, h')) :
    ∃ fs', takeFit size fs = some (p, fs') ∧ Inv R ⟨h', ⟨p, size⟩ :: s.live⟩ fs' := by
  cases htake : takeFit size fs with
  | none =>
    rw [alloc_of_none hi.list htake] at hrun
    cases hrun
  | some r =>
    obtain ⟨h'', hrun', hlist, -⟩ := alloc_of_some hi.list hpos hdvd htake
    obtain ⟨rfl, rfl⟩ : r.1 = p ∧ h'' = h' := by
      have heq := hrun'.symm.trans hrun
      simpa using heq
    have htiles : Tiles (Set.Ico R.base R.fin) Block.bytes (⟨r.1, size⟩ :: s.live ++ r.2) := by
      have h₁ := (hi.tiles.perm List.perm_append_comm)
      have h₂ := (takeFit_retile htake _ _).mp h₁
      refine h₂.perm ?_
      exact List.Perm.cons _ List.perm_append_comm
    have hcarved : R.Node ⟨r.1, size⟩ := by
      obtain ⟨pre, b, post, rfl, -, hle, rfl⟩ := takeFit_eq_some htake
      have hb := hi.list.node b (by simp)
      have hhi := hb.hi
      refine ⟨hpos, hdvd, hb.lo, ?_⟩
      simp only [Block.fin] at hhi ⊢
      omega
    exact ⟨r.2, rfl, hlist, htiles, List.forall_mem_cons.mpr ⟨hcarved, hi.node⟩⟩

/-- **Freeing a live block keeps the invariant**, and the list is what
`freeInsert` makes of it. -/
theorem free {b : Block} {h' : SimpleHeap} (hi : Inv R s fs) (hb : b ∈ s.live)
    (hrun : s.heap.free b.ptr b.size = .done h') :
    Inv R ⟨h', s.live.erase b⟩ (freeInsert b fs) := by
  simp only [SimpleHeap.free, Outcome.require_bind_eq_done] at hrun
  obtain ⟨h'', hrun', hlist, -⟩ := insertFree_refines hi.list (hi.node b hb)
    fun c hc => hi.apart hb hc
  obtain rfl : h'' = h' := by simpa using hrun'.symm.trans hrun.2
  refine ⟨hlist, ?_, fun c hc => hi.node c (List.mem_of_mem_erase hc)⟩
  have h₁ : Tiles (Set.Ico R.base R.fin) Block.bytes (b :: fs ++ s.live.erase b) := by
    refine hi.tiles.perm ?_
    have h₂ : (s.live ++ fs).Perm (b :: s.live.erase b ++ fs) :=
      (List.perm_cons_erase hb).append_right fs
    exact h₂.trans (List.Perm.cons _ List.perm_append_comm)
  exact ((freeInsert_retile b fs _ _).mp h₁).perm List.perm_append_comm

/-- **Writes to live blocks keep the invariant**, and the list as it is. -/
theorem write {mem : ℕ → ℕ} (hi : Inv R s fs)
    (hmem : ∀ a, (∀ b ∈ s.live, a ∉ b.bytes) → mem a = s.heap.mem a) :
    Inv R ⟨{ s.heap with mem := mem }, s.live⟩ fs := by
  have hfree : ∀ c ∈ fs, ∀ a ∈ c.bytes, mem a = s.heap.mem a := fun c hc a ha =>
    hmem a fun b hb hab => hi.tiles.not_mem_of_append hb hc hab ha
  refine ⟨⟨hi.list.base_eq, hi.list.end_eq, ?_, hi.list.ascending, hi.list.node⟩, hi.tiles, hi.node⟩
  refine hi.list.chain.congr fun c hc => ?_
  have hbn := (hi.list.node c hc).bounds
  simp only [nodeSize] at hbn
  exact ⟨hfree c hc _ (Block.mem_bytes.mpr (by omega)),
    hfree c hc _ (Block.mem_bytes.mpr (by omega))⟩

/-- A live block can be freed: what it needs of the free list. -/
theorem freeable {b : Block} (hi : Inv R s fs) (hb : b ∈ s.live) : Freeable b fs :=
  ⟨fun _ hc => hi.apart hb hc, fun c hc => (hi.list.node c hc).pos⟩

/-- Freeing a live block returns, and writes to the nodes of the list only. -/
theorem free_returns {b : Block} (hi : Inv R s fs) (hfin : R.fin < 2 ^ 64) (hb : b ∈ s.live) :
    ∃ h, s.heap.free b.ptr b.size = .done h ∧
      ∀ a, Untouched (b :: fs) a → h.mem a = s.heap.mem a := by
  have hbn := hi.node b hb
  obtain ⟨h, hrun, -, hframe, -⟩ := insertFree_refines hi.list hbn fun c hc => hi.apart hb hc
  refine ⟨h, ?_, hframe⟩
  have hhi := hbn.hi
  have hend : u64 b.fin = b.fin := u64_of_lt (by omega)
  simp only [SimpleHeap.free, Outcome.require_bind_eq_done, hi.list.base_eq, hi.list.end_eq,
    u64_of_lt hfin]
  exact ⟨⟨hbn.lo, hend.trans_le hhi⟩, hrun⟩

/-- The invariant does not depend on the order of the live blocks. -/
theorem perm {live : List Block} (hi : Inv R s fs) (hp : s.live.Perm live) :
    Inv R ⟨s.heap, live⟩ fs where
  list := hi.list
  tiles := hi.tiles.perm (hp.append_right fs)
  node b hb := hi.node b (hp.mem_iff.mpr hb)

end Inv

/-- **Every reachable state satisfies the invariant.** -/
theorem reachable_inv {R : Region} {s : Run} (hs : Reachable R s) : ∃ fs, Inv R s fs := by
  refine Reach.invariant (fun s => ∃ fs, Inv R s fs) hs (fun s h => ⟨_, Inv.init h⟩) ?_
  rintro s t ⟨fs, hi⟩ hstep
  cases hstep with
  | alloc hpos hdvd hrun =>
    obtain ⟨fs', -, hi'⟩ := hi.alloc hpos hdvd hrun
    exact ⟨fs', hi'⟩
  | free hb _ hrun => exact ⟨_, hi.free hb hrun⟩
  | write hmem => exact ⟨fs, hi.write hmem⟩

/-- **The free list and the live blocks partition the heap.** In every
reachable state the list that starts at `free_` ends (so it is acyclic), its
blocks are strictly sorted by address, and together with the live blocks they
tile the managed region. -/
theorem freeList_partition {R : Region} {s : Run} (hs : Reachable R s) :
    ∃ fs, Segment s.heap.mem s.heap.free_ fs endOfList ∧
      (fs.Pairwise fun b c => b.ptr < c.ptr) ∧
      Tiles (Set.Ico R.base R.fin) Block.bytes (s.live ++ fs) := by
  obtain ⟨fs, hi⟩ := reachable_inv hs
  refine ⟨fs, hi.list.chain, ?_, hi.tiles⟩
  refine hi.list.ascending.imp_of_mem fun {b c} hb _ hbc => ?_
  have hpos := (hi.list.node b hb).pos
  simp only [Block.fin] at hbc
  omega

/-! ## Coalescing -/

/-- No two blocks of the free list are adjacent. -/
def FullyCoalesced (R : Region) (s : Run) : Prop :=
  ∃ fs, FreeList R s.heap fs ∧ fs.Pairwise fun b c => b.fin ≠ c.ptr ∧ c.fin ≠ b.ptr

/-- Allocation aborts only if there is no run of `size` bytes that no user
holds. -/
def AllocComplete (R : Region) (s : Run) : Prop :=
  ∀ size, 0 < size → nodeSize ∣ size → s.heap.alloc size = .abort →
    ¬ ∃ a, R.base ≤ a ∧ a + size ≤ R.fin ∧
      ∀ i, a ≤ i → i < a + size → ∀ b ∈ s.live, i ∉ b.bytes

/-- In this state the freed block is joined with its right neighbour. -/
def JoinsRight (R : Region) (h : SimpleHeap) (b : Block) : Prop :=
  ∃ fs, FreeList R h fs ∧ MergesRight b fs

/-- A heap has one free list. -/
theorem FreeList.unique {R : Region} {h : SimpleHeap} {fs fs' : List Block} (hf : FreeList R h fs)
    (hf' : FreeList R h fs') : fs = fs' := by
  have huniq : ∀ {fs fs' : List Block} {p : ℕ}, (∀ b ∈ fs, R.Node b) → (∀ b ∈ fs', R.Node b) →
      Segment h.mem p fs endOfList → Segment h.mem p fs' endOfList → fs = fs' := by
    intro fs
    induction fs with
    | nil =>
      intro fs' p _ hn' hp hp'
      cases fs' with
      | nil => rfl
      | cons c cs => exact absurd (hp'.1.symm.trans hp) (hn' c (by simp)).ptr_lt.ne
    | cons b bs ih =>
      intro fs' p hn hn' hp hp'
      cases fs' with
      | nil => exact absurd (hp.1.symm.trans hp') (hn b (by simp)).ptr_lt.ne
      | cons c cs =>
        obtain ⟨hb, hbsize, hbs⟩ := hp
        obtain ⟨hc, hcsize, hcs⟩ := hp'
        have hptr : b.ptr = c.ptr := hb.symm.trans hc
        have hbc : b = c := by
          obtain ⟨q, m⟩ := b
          obtain ⟨q', m'⟩ := c
          simp only at hptr hbsize hcsize
          subst hptr
          rw [← hbsize, ← hcsize]
        subst hbc
        rw [ih (fun d hd => hn d (List.mem_cons_of_mem _ hd))
          (fun d hd => hn' d (List.mem_cons_of_mem _ hd)) hbs hcs]
  exact huniq hf.node hf'.node hf.chain hf'.chain

/-- Every state of a run that joins each freed block with its right neighbour
has a coalesced free list. -/
theorem inv_coalesced {R : Region} {s : Run} (hs : Reach (Run.Init R) (Run.Step (JoinsRight R)) s) :
    ∃ fs, Inv R s fs ∧ Coalesced fs := by
  refine Reach.invariant (fun s => ∃ fs, Inv R s fs ∧ Coalesced fs) hs
    (fun s h => ⟨_, Inv.init h, List.pairwise_singleton ..⟩) ?_
  rintro s t ⟨fs, hi, hc⟩ hstep
  cases hstep with
  | alloc hpos hdvd hrun =>
    obtain ⟨fs', htake, hi'⟩ := hi.alloc hpos hdvd hrun
    exact ⟨fs', hi', takeFit_coalesced htake hc⟩
  | free hb hok hrun =>
    obtain ⟨fs', hlist, hm⟩ := hok
    obtain rfl := hi.list.unique hlist
    exact ⟨_, hi.free hb hrun, freeInsert_coalesced (hi.freeable hb) hc (hi.node _ hb).pos hm⟩
  | write hmem => exact ⟨fs, hi.write hmem, hc⟩

/-- In a coalesced state allocation aborts only for want of memory. -/
theorem Inv.allocComplete {R : Region} {s : Run} {fs : List Block} (hi : Inv R s fs)
    (hc : Coalesced fs) : AllocComplete R s := by
  rintro size hpos hdvd habort ⟨a, hlo, hhi, hfree⟩
  cases htake : takeFit size fs with
  | some r =>
    obtain ⟨h', hrun, -⟩ := alloc_of_some hi.list hpos hdvd htake
    rw [habort] at hrun
    cases hrun
  | none =>
    -- every byte of the run lies in a free block, hence the whole run in one of them
    have hrun : ∀ i, a ≤ i → i < a + size → ∃ b ∈ fs, i ∈ b.bytes := by
      intro i hai hia
      obtain ⟨b, hb, hib⟩ := (hi.tiles.cover i).mp ⟨by omega, by omega⟩
      rcases List.mem_append.mp hb with hb | hb
      · exact absurd hib (hfree i hai hia b hb)
      · exact ⟨b, hb, hib⟩
    obtain ⟨b, hb, hba, hab⟩ := hc.run_in_block hpos hrun
    have hsmall := takeFit_eq_none.mp htake b hb
    simp only [Block.fin] at hab
    omega

/-- **Coalescing.** In every run in which each freed block is joined with its
right neighbour, no two free blocks are ever adjacent, and an allocation aborts
only if no run of bytes of its size is free. -/
theorem coalesced_of_mergesRight {R : Region} {s : Run}
    (hs : Reach (Run.Init R) (Run.Step (JoinsRight R)) s) :
    FullyCoalesced R s ∧ AllocComplete R s := by
  obtain ⟨fs, hi, hc⟩ := inv_coalesced hs
  refine ⟨⟨fs, hi.list, hc.imp_of_mem fun {b c} _ hc' hbc => ?_⟩, hi.allocComplete hc⟩
  have hpos := (hi.list.node c hc').pos
  simp only [Block.fin] at hbc ⊢
  omega

/-! ### The run that leaves two free blocks adjacent -/

/-- A region can be managed: the constructor returns. -/
theorem exists_init (R : Region) (hpos : 0 < R.length) (hdvd : nodeSize ∣ R.length) :
    ∃ h, Run.Init R ⟨h, []⟩ := by
  have hb : R.Node ⟨R.base, R.length⟩ := ⟨hpos, hdvd, le_rfl, le_rfl⟩
  have hempty : FreeList R ⟨R.base, u64 (R.base + R.length), endOfList, fun _ => 0⟩ [] :=
    ⟨rfl, rfl, rfl, List.Pairwise.nil, by simp⟩
  obtain ⟨h, hrun, -, -⟩ := insertFree_refines hempty hb (by simp)
  refine ⟨h, rfl, fun _ => 0, ?_⟩
  simp only [new, Outcome.require_bind_eq_done]
  exact ⟨hb.size_le, Nat.mod_eq_zero_of_dvd hdvd, hrun⟩

/-- An allocation that the free list can serve returns. -/
theorem Inv.alloc_progress {R : Region} {s : Run} {fs fs' : List Block} {size p : ℕ}
    {Ok : SimpleHeap → Block → Prop} (hi : Inv R s fs) (hpos : 0 < size) (hdvd : nodeSize ∣ size)
    (htake : takeFit size fs = some (p, fs')) :
    ∃ h, Run.Step Ok s ⟨h, ⟨p, size⟩ :: s.live⟩ ∧ Inv R ⟨h, ⟨p, size⟩ :: s.live⟩ fs' := by
  obtain ⟨h, hrun, -⟩ := alloc_of_some hi.list hpos hdvd htake
  obtain ⟨fs'', htake', hi'⟩ := hi.alloc hpos hdvd hrun
  obtain rfl : fs' = fs'' := by simpa [htake] using htake'
  exact ⟨h, .alloc hpos hdvd hrun, hi'⟩

/-- Freeing a live block returns. -/
theorem Inv.free_progress {R : Region} {s : Run} {fs : List Block} {b : Block}
    {Ok : SimpleHeap → Block → Prop} (hi : Inv R s fs) (hfin : R.fin < 2 ^ 64) (hb : b ∈ s.live)
    (hok : Ok s.heap b) :
    ∃ h, Run.Step Ok s ⟨h, s.live.erase b⟩ ∧ Inv R ⟨h, s.live.erase b⟩ (freeInsert b fs) := by
  obtain ⟨h, hrun, -⟩ := hi.free_returns hfin hb
  exact ⟨h, .free hb hok hrun, hi.free hb hrun⟩

/-- Four nodes of memory. -/
def fourNodes : Region := ⟨4096, 64, by norm_num, by norm_num⟩

/-- A run that allocates the four nodes one by one and frees the first, the
last and the third, in this order. -/
theorem fourNodes_run :
    ∃ h, Reachable fourNodes ⟨h, [⟨4112, 16⟩]⟩ ∧
      Inv fourNodes ⟨h, [⟨4112, 16⟩]⟩ [⟨4096, 16⟩, ⟨4128, 16⟩, ⟨4144, 16⟩] := by
  obtain ⟨h₀, hinit⟩ := exists_init fourNodes (by decide) (by decide)
  have hi₀ : Inv fourNodes ⟨h₀, []⟩ [⟨4096, 64⟩] := Inv.init hinit
  obtain ⟨h₁, hs₁, hi₁⟩ : ∃ h, Run.Step (fun _ _ => True) ⟨h₀, []⟩ ⟨h, [⟨4096, 16⟩]⟩ ∧
      Inv fourNodes ⟨h, [⟨4096, 16⟩]⟩ [⟨4112, 48⟩] :=
    hi₀.alloc_progress (by decide) (by decide) rfl
  obtain ⟨h₂, hs₂, hi₂⟩ : ∃ h, Run.Step (fun _ _ => True) ⟨h₁, _⟩
      ⟨h, [⟨4112, 16⟩, ⟨4096, 16⟩]⟩ ∧
      Inv fourNodes ⟨h, [⟨4112, 16⟩, ⟨4096, 16⟩]⟩ [⟨4128, 32⟩] :=
    hi₁.alloc_progress (by decide) (by decide) rfl
  obtain ⟨h₃, hs₃, hi₃⟩ : ∃ h, Run.Step (fun _ _ => True) ⟨h₂, _⟩
      ⟨h, [⟨4128, 16⟩, ⟨4112, 16⟩, ⟨4096, 16⟩]⟩ ∧
      Inv fourNodes ⟨h, [⟨4128, 16⟩, ⟨4112, 16⟩, ⟨4096, 16⟩]⟩ [⟨4144, 16⟩] :=
    hi₂.alloc_progress (by decide) (by decide) rfl
  obtain ⟨h₄, hs₄, hi₄⟩ : ∃ h, Run.Step (fun _ _ => True) ⟨h₃, _⟩
      ⟨h, [⟨4144, 16⟩, ⟨4128, 16⟩, ⟨4112, 16⟩, ⟨4096, 16⟩]⟩ ∧
      Inv fourNodes ⟨h, [⟨4144, 16⟩, ⟨4128, 16⟩, ⟨4112, 16⟩, ⟨4096, 16⟩]⟩ [] :=
    hi₃.alloc_progress (by decide) (by decide) rfl
  obtain ⟨h₅, hs₅, hi₅⟩ : ∃ h, Run.Step (fun _ _ => True) ⟨h₄, _⟩
      ⟨h, [⟨4144, 16⟩, ⟨4128, 16⟩, ⟨4112, 16⟩]⟩ ∧
      Inv fourNodes ⟨h, [⟨4144, 16⟩, ⟨4128, 16⟩, ⟨4112, 16⟩]⟩ [⟨4096, 16⟩] :=
    @Inv.free_progress _ _ _ ⟨4096, 16⟩ _ hi₄ (by decide) (by simp) trivial
  obtain ⟨h₆, hs₆, hi₆⟩ : ∃ h, Run.Step (fun _ _ => True) ⟨h₅, _⟩
      ⟨h, [⟨4128, 16⟩, ⟨4112, 16⟩]⟩ ∧
      Inv fourNodes ⟨h, [⟨4128, 16⟩, ⟨4112, 16⟩]⟩ [⟨4096, 16⟩, ⟨4144, 16⟩] :=
    @Inv.free_progress _ _ _ ⟨4144, 16⟩ _ hi₅ (by decide) (by simp) trivial
  obtain ⟨h₇, hs₇, hi₇⟩ : ∃ h, Run.Step (fun _ _ => True) ⟨h₆, _⟩ ⟨h, [⟨4112, 16⟩]⟩ ∧
      Inv fourNodes ⟨h, [⟨4112, 16⟩]⟩ [⟨4096, 16⟩, ⟨4128, 16⟩, ⟨4144, 16⟩] :=
    @Inv.free_progress _ _ _ ⟨4128, 16⟩ _ hi₆ (by decide) (by simp) trivial
  have hr₀ : Reachable fourNodes ⟨h₀, []⟩ := .start hinit
  exact ⟨h₇, ((((((hr₀.step hs₁).step hs₂).step hs₃).step hs₄).step hs₅).step hs₆).step hs₇, hi₇⟩

/-- The run of `fourNodes_run` is partitioned. -/
theorem freeList_partition_fourNodes :
    ∃ s, Reachable fourNodes s ∧
      ∃ fs, Segment s.heap.mem s.heap.free_ fs endOfList ∧
        (fs.Pairwise fun b c => b.ptr < c.ptr) ∧
        Tiles (Set.Ico fourNodes.base fourNodes.fin) Block.bytes (s.live ++ fs) := by
  obtain ⟨h, hr, -⟩ := fourNodes_run
  exact ⟨_, hr, freeList_partition hr⟩

/-- **A free list that is not coalesced.** In the run of `fourNodes_run` the
third node is linked behind the first, does not touch it, and is not joined
with the last. The 32 bytes from 4128 on are free and cannot be allocated. -/
theorem not_coalesced :
    ¬ ∀ (R : Region) (s : Run), Reachable R s → FullyCoalesced R s ∧ AllocComplete R s := by
  intro hall
  obtain ⟨h, hr, hi⟩ := fourNodes_run
  have habort : h.alloc 32 = .abort := alloc_of_none hi.list rfl
  refine (hall fourNodes _ hr).2 32 (by decide) (by decide) habort
    ⟨4128, by decide, by decide, fun i hlo _ b hb => ?_⟩
  obtain rfl : b = ⟨4112, 16⟩ := by simpa using hb
  simp only [Block.mem_bytes, Block.fin_mk]
  omega

/-- A run of `fourNodes` that allocates one node and gives it back joins it
with the rest. -/
theorem coalesced_of_mergesRight_fourNodes :
    ∃ s, Reach (Run.Init fourNodes) (Run.Step (JoinsRight fourNodes)) s ∧
      FullyCoalesced fourNodes s ∧ AllocComplete fourNodes s := by
  obtain ⟨h₀, hinit⟩ := exists_init fourNodes (by decide) (by decide)
  have hi₀ : Inv fourNodes ⟨h₀, []⟩ [⟨4096, 64⟩] := Inv.init hinit
  obtain ⟨h₁, hs₁, hi₁⟩ : ∃ h, Run.Step (JoinsRight fourNodes) ⟨h₀, []⟩ ⟨h, [⟨4096, 16⟩]⟩ ∧
      Inv fourNodes ⟨h, [⟨4096, 16⟩]⟩ [⟨4112, 48⟩] :=
    hi₀.alloc_progress (by decide) (by decide) rfl
  obtain ⟨h₂, hs₂, -⟩ := @Inv.free_progress _ _ _ ⟨4096, 16⟩ (JoinsRight fourNodes) hi₁ (by decide)
    (by simp) ⟨_, hi₁.list, by simp [MergesRight]⟩
  have hr₀ : Reach (Run.Init fourNodes) (Run.Step (JoinsRight fourNodes)) ⟨h₀, []⟩ := .start hinit
  exact ⟨_, (hr₀.step hs₁).step hs₂, coalesced_of_mergesRight ((hr₀.step hs₁).step hs₂)⟩

/-! ## The destructor -/

/-- Every reachable state satisfies the invariant, and the front of its free
list is joined. -/
theorem inv_frontJoined {R : Region} {s : Run} (hs : Reachable R s) :
    0 < R.length ∧ ∃ fs, Inv R s fs ∧ FrontJoined R.base fs := by
  refine Reach.invariant (fun s => 0 < R.length ∧ ∃ fs, Inv R s fs ∧ FrontJoined R.base fs) hs
    ?_ ?_
  · intro s hinit
    refine ⟨?_, _, Inv.init hinit, fun _ => by simp⟩
    obtain ⟨-, mem, hnew⟩ := hinit
    rw [new, Outcome.require_bind_eq_done] at hnew
    exact lt_of_lt_of_le (by decide) hnew.1
  · rintro s t ⟨hlen, fs, hi, hf⟩ hstep
    refine ⟨hlen, ?_⟩
    cases hstep with
    | alloc hpos hdvd hrun =>
      obtain ⟨fs', htake, hi'⟩ := hi.alloc hpos hdvd hrun
      exact ⟨fs', hi', takeFit_frontJoined htake hf hi.list.ascending
        (fun b hb => ⟨(hi.list.node b hb).lo, (hi.list.node b hb).pos⟩) hpos⟩
    | free hb _ hrun =>
      exact ⟨_, hi.free hb hrun, freeInsert_frontJoined (hi.freeable hb) hf hi.list.ascending
        (hi.node _ hb).pos⟩
    | write hmem => exact ⟨fs, hi.write hmem, hf⟩

/-- The size of a heap that ends where its region does, also where the region
ends with the address space and `end_` is zero. -/
theorem FreeList.end_sub_base {R : Region} {h : SimpleHeap} {fs : List Block}
    (hf : FreeList R h fs) (hpos : 0 < R.length) : sub64 h.end_ h.base_ = R.length := by
  have hw := R.word
  have hfits := R.fits
  rw [hf.end_eq, hf.base_eq]
  simp only [Region.fin, u64, sub64]
  omega

/-- **The destructor.** In every reachable state in which no block is live the
free list is one block, which starts at `base_` and is as large as the heap,
and the check of the destructor passes. -/
theorem destroy_of_no_live {R : Region} {s : Run} (hs : Reachable R s) (hlive : s.live = []) :
    Segment s.heap.mem s.heap.free_ [⟨s.heap.base_, sub64 s.heap.end_ s.heap.base_⟩] endOfList ∧
      s.heap.destroy = .done () := by
  obtain ⟨hpos, fs, hi, hfront⟩ := inv_frontJoined hs
  have hcover : ∀ a, a ∈ Set.Ico R.base R.fin ↔ ∃ b ∈ fs, a ∈ b.bytes := by
    have htiles := hi.tiles
    rw [hlive, List.nil_append] at htiles
    exact htiles.cover
  have hone : fs = [⟨R.base, R.fin - R.base⟩] :=
    hfront.single hi.list.ascending
      (fun b hb => ⟨(hi.list.node b hb).lo, (hi.list.node b hb).pos⟩)
      (Nat.lt_add_of_pos_right hpos) hcover
  have hsize : R.fin - R.base = sub64 s.heap.end_ s.heap.base_ := by
    rw [hi.list.end_sub_base hpos, Region.fin, Nat.add_sub_cancel_left]
  have hchain : Segment s.heap.mem s.heap.free_
      [⟨s.heap.base_, sub64 s.heap.end_ s.heap.base_⟩] endOfList := by
    have h := hi.list.chain
    rwa [hone, hsize, ← hi.list.base_eq] at h
  have hfree : s.heap.free_ = s.heap.base_ := hchain.1
  have hcheck : s.heap.size s.heap.free_ = sub64 s.heap.end_ s.heap.base_ := by
    rw [hfree]
    exact hchain.2.1
  exact ⟨hchain, Outcome.require_pos ⟨hfree, hcheck⟩⟩

/-- The run of `fourNodes_run` goes on and frees its last live block. -/
theorem destroy_of_no_live_fourNodes :
    ∃ s, Reachable fourNodes s ∧
      Segment s.heap.mem s.heap.free_ [⟨s.heap.base_, sub64 s.heap.end_ s.heap.base_⟩] endOfList ∧
      s.heap.destroy = .done () := by
  obtain ⟨h, hr, hi⟩ := fourNodes_run
  obtain ⟨h', hstep, -⟩ := @Inv.free_progress _ _ _ ⟨4112, 16⟩ (fun _ _ => True) hi (by decide)
    (by simp) trivial
  exact ⟨_, hr.step hstep, destroy_of_no_live (hr.step hstep) rfl⟩

end SimpleHeap

end Attos
