import Attos.Lib.Tiling

/-!
# The free list as a list of blocks

What `simple_heap` is for, without memory: the free blocks are a list sorted
by address. Allocation takes the first block that fits (`takeFit`); freeing
inserts the block at its place and joins blocks from the insertion point on
(`freeInsert`). Both only retile the memory (`takeFit_retile`,
`freeInsert_retile`), and both keep the list ascending.

Joining starts at the *predecessor* of the inserted block and stops at the
first gap. So a freed block is joined with its right neighbour only if it is
the new head or touches its left neighbour: `MergesRight` is that condition,
and under it no two blocks of the list stay adjacent (`freeInsert_coalesced`).
The blocks at the front of the list are joined in any case
(`freeInsert_frontJoined`), so once everything is free the list is one block
(`FrontJoined.single`).
-/

namespace Attos

open Lib

/-- Blocks in ascending order that do not overlap. -/
def Ascending (l : List Block) : Prop := l.Pairwise fun b c => b.fin ≤ c.ptr

/-- Blocks in ascending order with a gap between any two. -/
def Coalesced (l : List Block) : Prop := l.Pairwise fun b c => b.fin < c.ptr

theorem Coalesced.ascending {l : List Block} (h : Coalesced l) : Ascending l :=
  h.imp fun hlt => hlt.le

/-- Join `b` with the blocks that directly follow it. -/
def mergeRun (b : Block) : List Block → List Block
  | [] => [b]
  | c :: cs => if b.fin = c.ptr then mergeRun ⟨b.ptr, b.size + c.size⟩ cs else b :: c :: cs

/-- Insert `b` somewhere after `prev`, and join from its predecessor on. -/
def insertAfter (prev b : Block) : List Block → List Block
  | [] => mergeRun prev [b]
  | c :: cs =>
    if c.ptr < b.ptr then prev :: insertAfter c b cs else mergeRun prev (b :: c :: cs)

/-- Insert `b` at its place in the list and join from the insertion point. -/
def freeInsert (b : Block) : List Block → List Block
  | [] => [b]
  | c :: cs => if b.ptr < c.ptr then mergeRun b (c :: cs) else insertAfter c b cs

/-- What is left of the free block `b` when its first `size` bytes are taken. -/
def carve (b : Block) (size : ℕ) (bs : List Block) : List Block :=
  if b.size = size then bs else ⟨b.ptr + size, b.size - size⟩ :: bs

/-- Take `size` bytes from the first block that has them. -/
def takeFit (size : ℕ) : List Block → Option (ℕ × List Block)
  | [] => none
  | b :: bs =>
    if b.size < size then (takeFit size bs).map fun r => (r.1, b :: r.2)
    else some (b.ptr, carve b size bs)

/-! ## Allocation -/

/-- Allocation fails exactly when every free block is too small. -/
theorem takeFit_eq_none {size : ℕ} {l : List Block} :
    takeFit size l = none ↔ ∀ b ∈ l, b.size < size := by
  induction l with
  | nil => simp [takeFit]
  | cons b bs ih =>
    by_cases hb : b.size < size
    · simp [takeFit, hb, ih]
    · simp [takeFit, hb]

/-- Inversion for `takeFit`: the block taken from and its surroundings. -/
theorem takeFit_eq_some {size : ℕ} {l : List Block} {r : ℕ × List Block}
    (h : takeFit size l = some r) :
    ∃ pre b post, l = pre ++ b :: post ∧ (∀ c ∈ pre, c.size < size) ∧ size ≤ b.size ∧
      r = (b.ptr, pre ++ carve b size post) := by
  induction l generalizing r with
  | nil => simp [takeFit] at h
  | cons b bs ih =>
    by_cases hb : b.size < size
    · simp only [takeFit, if_pos hb, Option.map_eq_some_iff] at h
      obtain ⟨r', hr', rfl⟩ := h
      obtain ⟨pre, c, post, rfl, hpre, hc, rfl⟩ := ih hr'
      refine ⟨b :: pre, c, post, rfl, ?_, hc, rfl⟩
      exact List.forall_mem_cons.mpr ⟨hb, hpre⟩
    · simp only [takeFit, if_neg hb, Option.some.injEq] at h
      exact ⟨[], b, bs, rfl, by simp, by omega, h.symm⟩

/-- Carving cuts a block in two, or hands it out whole. -/
theorem carve_retile {b : Block} {size : ℕ} (h : size ≤ b.size) (bs : List Block) :
    Retile Block.bytes (b :: bs) (⟨b.ptr, size⟩ :: carve b size bs) := by
  obtain ⟨p, n⟩ := b
  obtain ⟨k, rfl⟩ := Nat.exists_eq_add_of_le h
  by_cases hk : k = 0
  · subst hk
    simpa [carve] using Retile.refl _
  · have hne : size + k ≠ size := by omega
    simpa [carve, hne, hk] using retile_split p size k bs

/-- **Allocation retiles**: the block handed out and the new free list cover
exactly what the old free list covered. -/
theorem takeFit_retile {size : ℕ} {l : List Block} {r : ℕ × List Block}
    (h : takeFit size l = some r) : Retile Block.bytes l (⟨r.1, size⟩ :: r.2) := by
  obtain ⟨pre, b, post, rfl, -, hb, rfl⟩ := takeFit_eq_some h
  clear h
  induction pre with
  | nil => exact carve_retile hb post
  | cons c pre ih => exact (ih.cons c).trans (Retile.of_perm (List.Perm.swap ..))

/-- A property of blocks that carving keeps is kept by allocation. -/
theorem takeFit_forall {P : Block → Prop} {size : ℕ} {l : List Block} {r : ℕ × List Block}
    (h : takeFit size l = some r) (hl : ∀ b ∈ l, P b)
    (hP : ∀ b, P b → size < b.size → P ⟨b.ptr + size, b.size - size⟩) : ∀ b ∈ r.2, P b := by
  obtain ⟨pre, b, post, rfl, -, hb, rfl⟩ := takeFit_eq_some h
  intro c hc
  rcases List.mem_append.mp hc with hc | hc
  · exact hl c (List.mem_append_left _ hc)
  · by_cases hs : b.size = size
    · rw [carve, if_pos hs] at hc
      exact hl c (by simp [hc])
    · rw [carve, if_neg hs] at hc
      rcases List.mem_cons.mp hc with rfl | hc
      · exact hP b (hl b (by simp)) (by omega)
      · exact hl c (by simp [hc])

/-- Carving keeps any relation between blocks that looks at the end of the
left block and at the start of the right one, and survives a later start. -/
theorem takeFit_pairwise (R : ℕ → ℕ → Prop) {size : ℕ} {l : List Block} {r : ℕ × List Block}
    (h : takeFit size l = some r) (hR : ∀ e p p', R e p → p ≤ p' → R e p')
    (hl : l.Pairwise fun b c => R b.fin c.ptr) : r.2.Pairwise fun b c => R b.fin c.ptr := by
  obtain ⟨pre, b, post, rfl, -, hb, rfl⟩ := takeFit_eq_some h
  obtain ⟨hpre, hbp, hcross⟩ := List.pairwise_append.mp hl
  obtain ⟨hbpost, hpost⟩ := List.pairwise_cons.mp hbp
  by_cases hs : b.size = size
  · rw [carve, if_pos hs]
    exact List.pairwise_append.mpr
      ⟨hpre, hpost, fun c hc d hd => hcross c hc d (List.mem_cons_of_mem _ hd)⟩
  · rw [carve, if_neg hs]
    refine List.pairwise_append.mpr ⟨hpre, List.pairwise_cons.mpr ⟨fun c hc => ?_, hpost⟩, ?_⟩
    · have hfin : (⟨b.ptr + size, b.size - size⟩ : Block).fin = b.fin := by
        simp only [Block.fin]
        omega
      rw [hfin]
      exact hbpost c hc
    · intro c hc d hd
      rcases List.mem_cons.mp hd with rfl | hd
      · exact hR _ _ _ (hcross c hc b (by simp)) (by simp)
      · exact hcross c hc d (List.mem_cons_of_mem _ hd)

theorem takeFit_ascending {size : ℕ} {l : List Block} {r : ℕ × List Block}
    (h : takeFit size l = some r) (hl : Ascending l) : Ascending r.2 :=
  takeFit_pairwise (fun e p => e ≤ p) h (fun _ _ _ h₁ h₂ => h₁.trans h₂) hl

theorem takeFit_coalesced {size : ℕ} {l : List Block} {r : ℕ × List Block}
    (h : takeFit size l = some r) (hl : Coalesced l) : Coalesced r.2 :=
  takeFit_pairwise (fun e p => e < p) h (fun _ _ _ h₁ h₂ => lt_of_lt_of_le h₁ h₂) hl

/-! ## Freeing -/

/-- Joining blocks retiles. -/
theorem mergeRun_retile (b : Block) (l : List Block) :
    Retile Block.bytes (b :: l) (mergeRun b l) := by
  induction l generalizing b with
  | nil => exact Retile.refl _
  | cons c cs ih =>
    obtain ⟨p, m⟩ := b
    obtain ⟨q, n⟩ := c
    by_cases hc : p + m = q
    · subst hc
      simp only [mergeRun, Block.fin_mk, if_true]
      exact (retile_split p m n cs).symm.trans (ih _)
    · rw [mergeRun, if_neg (by exact hc)]
      exact Retile.refl _

theorem insertAfter_retile (prev b : Block) (l : List Block) :
    Retile Block.bytes (b :: prev :: l) (insertAfter prev b l) := by
  induction l generalizing prev with
  | nil =>
    exact (Retile.of_perm (List.Perm.swap ..)).trans (mergeRun_retile prev [b])
  | cons c cs ih =>
    rw [insertAfter]
    split
    · exact (Retile.of_perm (List.Perm.swap ..)).trans ((ih c).cons prev)
    · exact (Retile.of_perm (List.Perm.swap ..)).trans (mergeRun_retile prev _)

/-- **Freeing retiles**: the new free list covers exactly the freed block and
the old free list. -/
theorem freeInsert_retile (b : Block) (l : List Block) :
    Retile Block.bytes (b :: l) (freeInsert b l) := by
  cases l with
  | nil => exact Retile.refl _
  | cons c cs =>
    rw [freeInsert]
    split
    · exact mergeRun_retile b _
    · exact insertAfter_retile c b cs

/-- A property of blocks that joining keeps is kept by joining a run. -/
theorem mergeRun_forall {P : Block → Prop} {b : Block} {l : List Block} (hb : P b)
    (hl : ∀ c ∈ l, P c)
    (hP : ∀ c d, P c → P d → c.fin = d.ptr → P ⟨c.ptr, c.size + d.size⟩) :
    ∀ c ∈ mergeRun b l, P c := by
  induction l generalizing b with
  | nil => simpa [mergeRun] using hb
  | cons c cs ih =>
    rw [List.forall_mem_cons] at hl
    rw [mergeRun]
    split
    · rename_i hfin
      exact ih (hP b c hb hl.1 hfin) hl.2
    · simpa using ⟨hb, hl⟩

theorem insertAfter_forall (P : Block → Prop) {prev b : Block} {l : List Block} (hprev : P prev)
    (hb : P b) (hl : ∀ c ∈ l, P c)
    (hP : ∀ c d, P c → P d → c.fin = d.ptr → P ⟨c.ptr, c.size + d.size⟩) :
    ∀ c ∈ insertAfter prev b l, P c := by
  induction l generalizing prev with
  | nil => exact mergeRun_forall hprev (by simpa using hb) hP
  | cons c cs ih =>
    rw [List.forall_mem_cons] at hl
    rw [insertAfter]
    split
    · exact List.forall_mem_cons.mpr ⟨hprev, ih hl.1 hl.2⟩
    · exact mergeRun_forall hprev (by simpa using ⟨hb, hl⟩) hP

/-- A property of blocks that joining keeps is kept by freeing. -/
theorem freeInsert_forall (P : Block → Prop) {b : Block} {l : List Block} (hb : P b)
    (hl : ∀ c ∈ l, P c)
    (hP : ∀ c d, P c → P d → c.fin = d.ptr → P ⟨c.ptr, c.size + d.size⟩) :
    ∀ c ∈ freeInsert b l, P c := by
  cases l with
  | nil => simpa [freeInsert] using hb
  | cons c cs =>
    rw [freeInsert]
    split
    · exact mergeRun_forall hb hl hP
    · rw [List.forall_mem_cons] at hl
      exact insertAfter_forall P hl.1 hb hl.2 hP

/-! ### Order -/

/-- The two blocks do not overlap, whichever comes first. -/
def Apart (b c : Block) : Prop := b.fin ≤ c.ptr ∨ c.fin ≤ b.ptr

/-- Of two blocks that do not overlap, the one with the larger start is above. -/
theorem Apart.fin_le {b c : Block} (h : Apart b c) (hle : b.ptr ≤ c.ptr) (hc : 0 < c.size) : b.fin ≤ c.ptr := by
  rcases h with hfin | hfin
  · exact hfin
  · rw [Block.fin] at hfin
    omega

theorem Apart.symm {b c : Block} (h : Apart b c) : Apart c b := Or.symm h

/-- What is above the first block of an ascending list is below the other ones. -/
theorem Ascending.fin_le {b c : Block} {cs : List Block} (h : Ascending (c :: cs)) (hc : b.fin ≤ c.ptr) :
    ∀ d ∈ c :: cs, b.fin ≤ d.ptr := by
  intro d hd
  rcases List.mem_cons.mp hd with rfl | hd
  · exact hc
  · have hfin : c.fin ≤ d.ptr := (List.pairwise_cons.mp h).1 d hd
    exact hc.trans ((Nat.le_add_right _ _).trans hfin)

/-- Joining the first two blocks keeps a list ascending. -/
theorem Ascending.join {b c : Block} {cs : List Block} (h : Ascending (b :: c :: cs))
    (hfin : b.fin = c.ptr) : Ascending (⟨b.ptr, b.size + c.size⟩ :: cs) := by
  obtain ⟨hc, hcs⟩ := List.pairwise_cons.mp (List.pairwise_cons.mp h).2
  refine List.pairwise_cons.mpr ⟨fun d hd => ?_, hcs⟩
  have := hc d hd
  simp only [Block.fin] at this hfin ⊢
  omega

theorem mergeRun_ascending {b : Block} {l : List Block} (h : Ascending (b :: l)) :
    Ascending (mergeRun b l) := by
  induction l generalizing b with
  | nil => exact h
  | cons c cs ih =>
    rw [mergeRun]
    split
    · rename_i hfin
      exact ih (h.join hfin)
    · exact h

/-- Joining closes the only gap it can: what follows was coalesced already. -/
theorem mergeRun_coalesced {b : Block} {l : List Block} (hb : ∀ c ∈ l, b.fin ≤ c.ptr)
    (h : Coalesced l) : Coalesced (mergeRun b l) := by
  induction l generalizing b with
  | nil => exact List.pairwise_singleton ..
  | cons c cs ih =>
    obtain ⟨hc, hcs⟩ := List.pairwise_cons.mp h
    have hbc : b.fin ≤ c.ptr := hb c (by simp)
    rw [mergeRun]
    split
    · rename_i hfin
      refine ih (fun d hd => ?_) hcs
      have := hc d hd
      simp only [Block.fin] at this hfin ⊢
      omega
    · rename_i hfin
      refine List.pairwise_cons.mpr ⟨fun d hd => ?_, h⟩
      rcases List.mem_cons.mp hd with rfl | hd
      · omega
      · have := hc d hd
        simp only [Block.fin] at this hbc ⊢
        omega

/-- What `insertAfter` needs to know about the place it works in. -/
structure Insertable (prev b : Block) (l : List Block) : Prop where
  /-- the list is ascending -/
  ascending : Ascending (prev :: l)
  /-- the search starts before the block -/
  before : prev.fin ≤ b.ptr
  /-- the block overlaps nothing -/
  apart : ∀ c ∈ l, Apart b c
  /-- no block is empty -/
  pos : ∀ c ∈ l, 0 < c.size

namespace Insertable

variable {prev b c : Block} {cs : List Block}

/-- One step of the search for the insertion point. -/
theorem step (h : Insertable prev b (c :: cs)) (hlt : c.ptr < b.ptr) : Insertable c b cs where
  ascending := (List.pairwise_cons.mp h.ascending).2
  before := by
    rcases h.apart c List.mem_cons_self with hle | hle
    · have hfin : b.ptr ≤ b.fin := Nat.le_add_right _ _
      omega
    · exact hle
  apart := fun d hd => h.apart d (List.mem_cons_of_mem _ hd)
  pos := fun d hd => h.pos d (List.mem_cons_of_mem _ hd)

/-- At the insertion point everything that follows lies above the block. -/
theorem above (h : Insertable prev b (c :: cs)) (hge : ¬ c.ptr < b.ptr) :
    ∀ d ∈ c :: cs, b.fin ≤ d.ptr := by
  have hascending : Ascending (c :: cs) := (List.pairwise_cons.mp h.ascending).2
  exact hascending.fin_le ((h.apart c List.mem_cons_self).fin_le (not_lt.mp hge) (h.pos c List.mem_cons_self))

end Insertable

theorem insertAfter_ascending {prev b : Block} {l : List Block} (h : Insertable prev b l) :
    Ascending (insertAfter prev b l) := by
  induction l generalizing prev with
  | nil => exact mergeRun_ascending (List.pairwise_pair.mpr h.before)
  | cons c cs ih =>
    obtain ⟨hprev, hl⟩ := List.pairwise_cons.mp h.ascending
    rw [insertAfter]
    split
    · rename_i hlt
      refine List.pairwise_cons.mpr ⟨?_, ih (h.step hlt)⟩
      exact insertAfter_forall (fun d => prev.fin ≤ d.ptr) (hprev c (by simp)) h.before
        (fun d hd => hprev d (List.mem_cons_of_mem _ hd)) (fun _ _ hc _ _ => hc)
    · rename_i hge
      refine mergeRun_ascending (List.pairwise_cons.mpr ⟨fun d hd => ?_, ?_⟩)
      · rcases List.mem_cons.mp hd with rfl | hd
        · exact h.before
        · exact hprev d hd
      · exact List.pairwise_cons.mpr ⟨h.above hge, hl⟩

/-- The new block fits in the list of free blocks. -/
structure Freeable (b : Block) (l : List Block) : Prop where
  /-- the block overlaps no free block -/
  apart : ∀ c ∈ l, Apart b c
  /-- no free block is empty -/
  pos : ∀ c ∈ l, 0 < c.size

theorem Freeable.insertable {b c : Block} {cs : List Block} (h : Freeable b (c :: cs))
    (hl : Ascending (c :: cs)) (hge : ¬ b.ptr < c.ptr) (hb : 0 < b.size) : Insertable c b cs where
  ascending := hl
  before := (h.apart c List.mem_cons_self).symm.fin_le (not_lt.mp hge) hb
  apart := fun d hd => h.apart d (List.mem_cons_of_mem _ hd)
  pos := fun d hd => h.pos d (List.mem_cons_of_mem _ hd)

/-- A block below the first free block lies below every free block. -/
theorem Freeable.above {b c : Block} {cs : List Block} (h : Freeable b (c :: cs))
    (hl : Ascending (c :: cs)) (hlt : b.ptr < c.ptr) : ∀ d ∈ c :: cs, b.fin ≤ d.ptr :=
  hl.fin_le ((h.apart c List.mem_cons_self).fin_le hlt.le (h.pos c List.mem_cons_self))

/-- **Freeing keeps the list ascending.** -/
theorem freeInsert_ascending {b : Block} {l : List Block} (h : Freeable b l) (hl : Ascending l)
    (hb : 0 < b.size) : Ascending (freeInsert b l) := by
  cases l with
  | nil => exact List.pairwise_singleton ..
  | cons c cs =>
    rw [freeInsert]
    split
    · rename_i hlt
      exact mergeRun_ascending (List.pairwise_cons.mpr ⟨h.above hl hlt, hl⟩)
    · rename_i hge
      exact insertAfter_ascending (h.insertable hl hge hb)

/-! ### Coalescing -/

/-- The freed block is joined with its right neighbour, if it has one: it is
the new head of the list, or it touches its left neighbour. -/
def MergesRight (b : Block) (l : List Block) : Prop :=
  (∃ c ∈ l, c.ptr = b.fin) → (∀ c ∈ l, b.ptr < c.ptr) ∨ ∃ c ∈ l, c.fin = b.ptr

theorem insertAfter_coalesced {prev b : Block} {l : List Block} (h : Insertable prev b l)
    (hl : Coalesced (prev :: l)) (hb : 0 < b.size)
    (hm : (∃ c ∈ l, c.ptr = b.fin) → ∃ c ∈ prev :: l, c.fin = b.ptr) :
    Coalesced (insertAfter prev b l) := by
  induction l generalizing prev with
  | nil =>
    refine mergeRun_coalesced (fun c hc => ?_) (List.pairwise_singleton ..)
    rw [List.mem_singleton.mp hc]
    exact h.before
  | cons c cs ih =>
    obtain ⟨hprev, hcs⟩ := List.pairwise_cons.mp hl
    have hpc : prev.fin < c.ptr := hprev c (by simp)
    rw [insertAfter]
    split
    · rename_i hlt
      have hstep := h.step hlt
      refine List.pairwise_cons.mpr ⟨?_, ih hstep hcs ?_⟩
      · refine insertAfter_forall (fun d => prev.fin < d.ptr) hpc ?_
          (fun d hd => hprev d (List.mem_cons_of_mem _ hd)) (fun _ _ hc _ _ => hc)
        exact hpc.trans hlt
      · rintro ⟨d, hd, hdb⟩
        obtain ⟨e, he, heb⟩ := hm ⟨d, List.mem_cons_of_mem _ hd, hdb⟩
        rcases List.mem_cons.mp he with rfl | he
        · omega
        · exact ⟨e, he, heb⟩
    · rename_i hge
      have habove := h.above hge
      by_cases hpb : prev.fin = b.ptr
      · -- the predecessor touches the block, so joining goes on past it
        rw [mergeRun, if_pos hpb]
        refine mergeRun_coalesced (fun d hd => ?_) hcs
        have := habove d hd
        simp only [Block.fin] at this hpb ⊢
        omega
      · -- the predecessor does not, so joining stops there and `hm` rules out a right neighbour
        rw [mergeRun, if_neg hpb]
        have hbefore := h.before
        have hno : ∀ d ∈ c :: cs, b.fin ≠ d.ptr := by
          intro d hd hdb
          obtain ⟨e, he, heb⟩ := hm ⟨d, hd, hdb.symm⟩
          rcases List.mem_cons.mp he with rfl | he
          · exact hpb heb
          · have := habove e he
            simp only [Block.fin] at this heb
            omega
        refine List.pairwise_cons.mpr ⟨fun d hd => ?_, List.pairwise_cons.mpr ⟨fun d hd => ?_, hcs⟩⟩
        · rcases List.mem_cons.mp hd with rfl | hd
          · omega
          · exact hprev d hd
        · exact lt_of_le_of_ne (habove d hd) (hno d hd)

/-- **Freeing keeps the list coalesced**, if the freed block is joined with its
right neighbour. -/
theorem freeInsert_coalesced {b : Block} {l : List Block} (h : Freeable b l) (hl : Coalesced l)
    (hb : 0 < b.size) (hm : MergesRight b l) : Coalesced (freeInsert b l) := by
  cases l with
  | nil => exact List.pairwise_singleton ..
  | cons c cs =>
    rw [freeInsert]
    split
    · rename_i hlt
      exact mergeRun_coalesced (h.above hl.ascending hlt) hl
    · rename_i hge
      refine insertAfter_coalesced (h.insertable hl.ascending hge hb) hl hb ?_
      rintro ⟨d, hd, hdb⟩
      rcases hm ⟨d, List.mem_cons_of_mem _ hd, hdb⟩ with hall | hex
      · exact absurd (hall c (by simp)) hge
      · exact hex

/-- A run of bytes that belong to the blocks of a coalesced list lies inside
one of them. -/
theorem Coalesced.run_in_block {l : List Block} (hl : Coalesced l) {a n : ℕ} (hn : 0 < n)
    (hrun : ∀ i, a ≤ i → i < a + n → ∃ b ∈ l, i ∈ b.bytes) : ∃ b ∈ l, b.ptr ≤ a ∧ a + n ≤ b.fin := by
  induction n, hn using Nat.le_induction with
  | base =>
    obtain ⟨b, hb, hab⟩ := hrun a le_rfl (by omega)
    rw [Block.mem_bytes] at hab
    exact ⟨b, hb, hab.1, by omega⟩
  | succ n hn ih =>
    obtain ⟨b, hb, hba, hbn⟩ := ih fun i hi hin => hrun i hi (by omega)
    refine ⟨b, hb, hba, ?_⟩
    by_contra hlt
    -- the byte after `b` lies in another block, which would have to start right there
    obtain ⟨c, hc, hac⟩ := hrun (a + n) (by omega) (by omega)
    rw [Block.mem_bytes] at hac
    have hbc : b ≠ c := by
      rintro rfl
      omega
    rcases rel_or_rel_of_pairwise hl hb hc hbc with hgap | hgap
    · omega
    · omega

/-! ### The front of the list -/

/-- If the first block starts at `base`, the block after it does not touch it:
the free bytes from `base` on are one block. -/
def FrontJoined (base : ℕ) : List Block → Prop
  | [] => True
  | b :: bs => b.ptr = base → ∀ c ∈ bs, b.fin < c.ptr

/-- **Allocation keeps the front joined.** Carving moves the start of a block
up, so nothing can come to touch the first block, and the first block itself no
longer starts at `base` once it is carved. -/
theorem takeFit_frontJoined {base size : ℕ} {l : List Block} {r : ℕ × List Block}
    (h : takeFit size l = some r) (hl : FrontJoined base l) (hasc : Ascending l)
    (hn : ∀ b ∈ l, base ≤ b.ptr ∧ 0 < b.size) (hs : 0 < size) : FrontJoined base r.2 := by
  cases l with
  | nil => simp [takeFit] at h
  | cons b bs =>
    obtain ⟨hbase, hpos⟩ := hn b (by simp)
    by_cases hsmall : b.size < size
    · rw [takeFit, if_pos hsmall, Option.map_eq_some_iff] at h
      obtain ⟨r', hr', rfl⟩ := h
      intro hb
      exact takeFit_forall (P := fun c => b.fin < c.ptr) hr' (hl hb)
        fun c hc _ => hc.trans_le (Nat.le_add_right _ _)
    · rw [takeFit, if_neg hsmall, Option.some.injEq] at h
      subst h
      have habove := (List.pairwise_cons.mp hasc).1
      by_cases hwhole : b.size = size
      · -- the new first block lies above a block that starts at `base` or later
        rw [carve, if_pos hwhole]
        cases bs with
        | nil => trivial
        | cons c cs =>
          have hbc := habove c (by simp)
          simp only [Block.fin] at hbc
          intro hc
          omega
      · rw [carve, if_neg hwhole]
        intro hb
        simp only at hb
        omega

/-- A run of joined blocks ends in a gap. -/
theorem mergeRun_gap {b : Block} {l : List Block} (h : Ascending (b :: l))
    (hpos : ∀ c ∈ l, 0 < c.size) :
    ∃ m rest, mergeRun b l = m :: rest ∧ m.ptr = b.ptr ∧ ∀ c ∈ rest, m.fin < c.ptr := by
  induction l generalizing b with
  | nil => exact ⟨b, [], rfl, rfl, by simp⟩
  | cons c cs ih =>
    rw [mergeRun]
    split
    · rename_i hfin
      exact ih (h.join hfin) fun d hd => hpos d (List.mem_cons_of_mem _ hd)
    · rename_i hfin
      obtain ⟨hb, hcs⟩ := List.pairwise_cons.mp h
      have hbc := hb c (by simp)
      have hc := hpos c (by simp)
      refine ⟨b, c :: cs, rfl, rfl, fun d hd => ?_⟩
      rcases List.mem_cons.mp hd with rfl | hd
      · exact lt_of_le_of_ne hbc hfin
      · have hcd := (List.pairwise_cons.mp hcs).1 d hd
        simp only [Block.fin] at hbc hcd ⊢
        omega

/-- Joining from the first block on leaves the front joined. -/
theorem mergeRun_frontJoined (base : ℕ) {b : Block} {l : List Block} (h : Ascending (b :: l))
    (hpos : ∀ c ∈ l, 0 < c.size) : FrontJoined base (mergeRun b l) := by
  obtain ⟨m, rest, heq, -, hgap⟩ := mergeRun_gap h hpos
  rw [heq]
  exact fun _ => hgap

/-- **Freeing keeps the front joined**, wherever the block is inserted. -/
theorem freeInsert_frontJoined {base : ℕ} {b : Block} {l : List Block} (h : Freeable b l)
    (hl : FrontJoined base l) (hasc : Ascending l) (hb : 0 < b.size) :
    FrontJoined base (freeInsert b l) := by
  cases l with
  | nil => exact fun _ => by simp
  | cons c cs =>
    rw [freeInsert]
    split
    · rename_i hlt
      exact mergeRun_frontJoined base (List.pairwise_cons.mpr ⟨h.above hasc hlt, hasc⟩) h.pos
    · rename_i hge
      have hins := h.insertable hasc hge hb
      have hcs : ∀ d ∈ cs, 0 < d.size := hins.pos
      obtain ⟨habove, hasc'⟩ := List.pairwise_cons.mp hasc
      cases cs with
      | nil =>
        refine mergeRun_frontJoined base (List.pairwise_pair.mpr hins.before) ?_
        simpa using hb
      | cons d ds =>
        rw [insertAfter]
        split
        · -- the block lands behind the second one, which the first did not touch
          rename_i hlt
          intro hc
          obtain ⟨hcd, hcds⟩ := List.forall_mem_cons.mp (hl hc)
          exact insertAfter_forall (fun e => c.fin < e.ptr) hcd (hcd.trans hlt) hcds
            fun _ _ he _ _ => he
        · -- the block lands behind the first one, and joining starts at the first
          rename_i hge'
          refine mergeRun_frontJoined base (List.pairwise_cons.mpr ⟨?_, ?_⟩) ?_
          · exact List.forall_mem_cons.mpr ⟨hins.before, habove⟩
          · exact List.pairwise_cons.mpr ⟨hins.above hge', hasc'⟩
          · exact List.forall_mem_cons.mpr ⟨hb, hcs⟩

/-- A list whose front is joined and that covers everything from `base` to
`fin` is one block. -/
theorem FrontJoined.single {base fin : ℕ} {l : List Block} (hl : FrontJoined base l)
    (hasc : Ascending l) (hn : ∀ b ∈ l, base ≤ b.ptr ∧ 0 < b.size) (hlt : base < fin)
    (hcover : ∀ a, a ∈ Set.Ico base fin ↔ ∃ b ∈ l, a ∈ b.bytes) : l = [⟨base, fin - base⟩] := by
  have hfirst : ∃ b ∈ l, base ∈ b.bytes := (hcover base).mp ⟨le_rfl, hlt⟩
  cases l with
  | nil => simp at hfirst
  | cons b bs =>
    have habove := (List.pairwise_cons.mp hasc).1
    obtain ⟨hb, hpos⟩ := hn b (by simp)
    have hptr : b.ptr = base := by
      obtain ⟨c, hc, hbase⟩ := hfirst
      rw [Block.mem_bytes] at hbase
      rcases List.mem_cons.mp hc with rfl | hc
      · omega
      · have := habove c hc
        simp only [Block.fin] at this
        omega
    have hin : b.fin ≤ fin := by
      have hlast : b.fin - 1 ∈ Set.Ico base fin :=
        (hcover _).mpr ⟨b, by simp, by simp only [Block.mem_bytes, Block.fin]; omega⟩
      have := hlast.2
      omega
    -- the byte after the first block would lie in a block that touches it
    have hfin : b.fin = fin := by
      by_contra hne
      have hmem : b.fin ∈ Set.Ico base fin :=
        ⟨by simp only [Block.fin]; omega, lt_of_le_of_ne hin hne⟩
      obtain ⟨c, hc, hcb⟩ := (hcover _).mp hmem
      rw [Block.mem_bytes] at hcb
      rcases List.mem_cons.mp hc with rfl | hc
      · omega
      · have := hl hptr c hc
        omega
    have hnil : bs = [] := by
      refine List.eq_nil_iff_forall_not_mem.mpr fun c hc => ?_
      have hbc := hl hptr c hc
      have hcpos := (hn c (List.mem_cons_of_mem _ hc)).2
      have hcin : c.ptr ∈ Set.Ico base fin :=
        (hcover _).mpr ⟨c, List.mem_cons_of_mem _ hc, by simp only [Block.mem_bytes, Block.fin]; omega⟩
      have := hcin.2
      omega
    obtain ⟨p, n⟩ := b
    simp only [Block.fin] at hptr hfin
    subst hptr hnil
    rw [← hfin, Nat.add_sub_cancel_left]

end Attos
