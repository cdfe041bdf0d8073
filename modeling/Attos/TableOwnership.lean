import Attos.DefaultMemoryManager
import Attos.Lib.RadixWalk

/-!
# The pages of the tables

A manager takes a page from `alloc_physical` for each new table, and gives pages back in its
destructor only, which walks through the tables that it finds (`freedTables`). So the pages that it
was handed out have to be these tables, each of them once (`NoLeak`).

Unmapping leaves empty tables in place, and mapping larger pages over them overwrites the pointers to
them: then the tables are lost (`mapMemory_noLeak_iff`). In runs in which no table hangs at the entry
of a page that is mapped, and unmapping clears no pointer to a table, nothing is lost
(`tables_owned`).
-/

namespace Attos

open Lib RadixTable

namespace MemoryManager

/-- `table_size` -/
def tableSize : ℕ := 512

/-! ## The destructor -/

/-- The pages that `~memory_manager_base` frees with `free_table`, in order. -/
def freedTables (s : MemoryManager) : List Word :=
  ((List.range tableSize).flatMap fun l4 =>
    if ¬ Present (s.mem s.pml4_ l4) then [] else
      let pdpt := tableEntry (s.mem s.pml4_ l4)
      ((List.range tableSize).flatMap fun l3 =>
        if ¬ Present (s.mem pdpt l3) then [] else
        if Large (s.mem pdpt l3) then [] else
          let pdt := tableEntry (s.mem pdpt l3)
          ((List.range tableSize).flatMap fun l2 =>
            if ¬ Present (s.mem pdt l2) then [] else
            if Large (s.mem pdt l2) then [] else
              [tableEntry (s.mem pdt l2)]) ++ [pdt]) ++ [pdpt]) ++ [s.pml4_]

/-- The pages that were handed out for tables are the tables that the root leads to, and the
destructor frees each of them once. -/
structure NoLeak (s : MemoryManager) : Prop where
  /-- the handed-out pages are the tables -/
  used : ∀ p, p ∈ s.used ↔ ∃ path, (∀ i ∈ path, i < tableSize) ∧ s.TableAt path p
  /-- they are handed out once -/
  nodup : s.used.Nodup
  /-- and freed once -/
  freed : s.freedTables.Perm s.used

variable {s s' s₁ : MemoryManager} {level : Word → Option ℕ} {fuel n i : ℕ}
  {virt length phys ret p q v : Word} {type : MemoryType} {path : List ℕ}

/-- What is visited for an entry of the root table. -/
theorem visit_root {f : Word → List Word} (w : Word) :
    visit f (kind 4 w) = if ¬ Present w then [] else f (tableEntry w) := by
  by_cases hpresent : Present w
  · rw [kind, if_neg (not_not.mpr hpresent), if_pos (.inl rfl), if_neg (not_not.mpr hpresent), visit]
  · rw [kind, if_pos hpresent, if_pos hpresent, visit]

/-- What is visited for an entry below it. -/
theorem visit_inner {f : Word → List Word} (hn : n = 2 ∨ n = 3) (w : Word) :
    visit f (kind n w) = if ¬ Present w then [] else if Large w then [] else f (tableEntry w) := by
  by_cases hpresent : Present w
  · rw [kind, if_neg (not_not.mpr hpresent), if_neg (not_not.mpr hpresent)]
    by_cases hlarge : Large w
    · have hleaf : ¬ (n = 4 ∨ (n = 2 ∨ n = 3) ∧ ¬ Large w) := by
        rintro (hfour | ⟨-, hsmall⟩)
        · omega
        · exact hsmall hlarge
      rw [if_neg hleaf, if_pos hlarge, visit]
    · rw [if_pos (.inr ⟨hn, hlarge⟩), if_neg hlarge, visit]
  · rw [kind, if_pos hpresent, if_pos hpresent, visit]

/-- Nothing is visited for an entry of a table of level 1. -/
theorem visit_last {f : Word → List Word} (w : Word) : visit f (kind 1 w) = [] := by
  by_cases hpresent : Present w
  · rw [kind, if_neg (not_not.mpr hpresent), if_neg (by omega), visit]
  · rw [kind, if_pos hpresent, visit]

/-- **The destructor** walks through all tables. -/
theorem freedTables_eq : s.freedTables = postorder kind (List.range tableSize) s.mem 4 s.pml4_ := by
  have hone : ∀ p, postorder kind (List.range tableSize) s.mem 1 p = [p] := by
    intro p
    have hnil : ((List.range tableSize).flatMap fun i => visit (postorder kind (List.range tableSize) s.mem 0)
        (kind 1 (s.mem p i))) = [] := List.flatMap_eq_nil_iff.mpr fun i _ => visit_last _
    exact congrArg (· ++ [p]) hnil
  have hinner : ∀ n p, n = 1 ∨ n = 2 → postorder kind (List.range tableSize) s.mem (n + 1) p =
      ((List.range tableSize).flatMap fun i => if ¬ Present (s.mem p i) then [] else
        if Large (s.mem p i) then [] else
          postorder kind (List.range tableSize) s.mem n (tableEntry (s.mem p i))) ++ [p] := by
    intro n p hn
    exact congrArg (fun f => (List.range tableSize).flatMap f ++ [p])
      (funext fun i => visit_inner (by omega) _)
  have hroot : postorder kind (List.range tableSize) s.mem 4 s.pml4_ =
      ((List.range tableSize).flatMap fun i => if ¬ Present (s.mem s.pml4_ i) then [] else
        postorder kind (List.range tableSize) s.mem 3 (tableEntry (s.mem s.pml4_ i))) ++ [s.pml4_] :=
    congrArg (fun f => (List.range tableSize).flatMap f ++ [s.pml4_]) (funext fun i => visit_root _)
  simp only [hroot, hinner 2 _ (.inr rfl), hinner 1 _ (.inl rfl), hone]
  rfl

/-! ## The tables of a manager -/

theorem Tables.mem_used (h : Tables s level) (hp : s.TableAt path p) : p ∈ s.used :=
  h.used (Reaches.level_eq hp h.forest h.root).2

/-- The pages that were handed out are tables. -/
structure OwnTables (s : MemoryManager) : Prop where
  /-- the tables are a forest -/
  tables : ∃ level, Tables s level
  /-- pages are handed out once -/
  nodup : s.used.Nodup
  /-- for tables -/
  reached : ∀ p ∈ s.used, ∃ path, (∀ i ∈ path, i < tableSize) ∧ s.TableAt path p

/-- **Nothing is lost** if this is so. -/
theorem OwnTables.noLeak (h : OwnTables s) : NoLeak s := by
  obtain ⟨level, ht⟩ := h.tables
  have hused : ∀ p, p ∈ s.used ↔ ∃ path, (∀ i ∈ path, i < tableSize) ∧ s.TableAt path p := by
    intro p
    constructor
    · exact h.reached p
    · rintro ⟨path, -, hp⟩
      exact ht.mem_used hp
  refine ⟨hused, h.nodup, ?_⟩
  rw [freedTables_eq]
  apply (List.perm_ext_iff_of_nodup (nodup_postorder List.nodup_range ht.forest ht.root) h.nodup).mpr
  intro p
  rw [mem_postorder ht.forest ht.root, hused]
  simp only [List.mem_range]
  exact Iff.rfl

theorem Init.ownTables (h : Init s) : OwnTables s where
  tables := h.tables
  nodup := by
    rw [h.used]
    exact List.nodup_singleton _
  reached p hp := by
    rw [h.used, List.mem_singleton] at hp
    exact ⟨[], fun _ hi => absurd hi List.not_mem_nil, hp ▸ .root⟩

/-- The table `q` hangs at the end of the path, as an old or as a new one. -/
structure Filled (s : MemoryManager) (path : List ℕ) (q : Word) (s' : MemoryManager) : Prop where
  /-- the other tables are the old ones -/
  tableAt : ∀ path' p, s'.TableAt path' p ↔ s.TableAt path' p ∨ path' = path ∧ p = q
  /-- it is in use -/
  used : ∀ p, p ∈ s'.used ↔ p ∈ s.used ∨ p = q
  /-- pages are handed out once -/
  nodup : s.used.Nodup → s'.used.Nodup
  /-- an old one hung there before -/
  old : q ∈ s.used → s.TableAt path q

/-- **`alloc_if_not_present` fills an entry.** -/
theorem Tables.filled (h : Tables s level) (hp : s.TableAt path p) (hlen : path.length ≤ 2)
    (hs : s.allocIfNotPresent p i (entryFlags type) = .done (q, s')) : Filled s (path ++ [i]) q s' := by
  by_cases hpresent : Present (s.mem p i)
  · simp only [MemoryManager.allocIfNotPresent, hpresent, if_true] at hs
    obtain ⟨hcheck, hs⟩ := Outcome.require_bind_eq_done.mp hs
    cases hs
    have hq : s.TableAt (path ++ [i]) (tableEntry (s.mem p i)) :=
      hp.step (kind_of_check (by omega) hpresent hcheck)
    refine ⟨fun path' p' => ⟨.inl, ?_⟩, fun p' => ⟨.inl, ?_⟩, id, fun _ => hq⟩
    · rintro (h | ⟨rfl, rfl⟩)
      · exact h
      · exact hq
    · rintro (h | rfl)
      · exact h
      · exact Tables.mem_used h hq
  · simp only [MemoryManager.allocIfNotPresent, hpresent, if_false] at hs
    obtain ⟨⟨page, s₁⟩, halloc, hs⟩ := Outcome.bind_eq_done.mp hs
    cases hs
    have ht := h.allocTable halloc
    have hpml4 : s₁.pml4_ = s.pml4_ := ht.records.pml4_eq
    have hsame : ∀ path p, Reaches kind s.mem 4 s.pml4_ path p → ∀ i, s₁.mem p i = s.mem p i :=
      fun path p hp i => ht.same _ _ i (hp.level_eq h.forest h.root).2
    have hreach : Reaches kind s₁.mem 4 s.pml4_ path p := Reaches.congr hp h.forest h.root ht.same
    have hlevel := (Reaches.level_eq hp h.forest h.root).2
    obtain ⟨k, hk⟩ : ∃ k, 4 - path.length = k + 1 := ⟨3 - path.length, by omega⟩
    rw [hk] at hlevel
    have hword : kind (k + 1) (q ||| entryFlags type) = .table q := kind_table (by omega) ht.isPage type
    have habsent : kind (k + 1) (s₁.mem p i) = .absent := by
      rw [ht.same _ _ _ hlevel, kind, if_pos hpresent]
    have hused : (s₁.writeEntry p i (q ||| entryFlags type)).used = q :: s.used := ht.used
    refine ⟨fun path' p' => ?_, fun p' => ?_, fun hnodup => ?_, fun hq => absurd hq ht.unused⟩
    · have hlink := @reaches_link _ _ _ kind level s₁.mem 4 s.pml4_ p q p' path path' i
        (q ||| entryFlags type) _ _ k ht.forest h.root hreach hk habsent ht.noTable ht.empty hword
      have hold : Reaches kind s₁.mem 4 s.pml4_ path' p' ↔ s.TableAt path' p' :=
        ⟨fun h' => h'.of_congr hsame, fun h' => Reaches.congr h' h.forest h.root ht.same⟩
      rw [hold, ← hpml4] at hlink
      exact hlink
    · rw [hused, List.mem_cons]
      exact or_comm
    · rw [hused]
      exact List.nodup_cons.mpr ⟨ht.unused, hnodup⟩

/-! ## Mapping -/

/-- Tables are added as new pages, at paths shorter than `n`. -/
structure Adds (n : ℕ) (s s' : MemoryManager) : Prop where
  /-- a table is an old one or a new page -/
  old : ∀ path p, s'.TableAt path p → s.TableAt path p ∨ p ∉ s.used ∧ path.length < n
  /-- pages stay in use -/
  used : ∀ p ∈ s.used, p ∈ s'.used

theorem Adds.trans (h : Adds n s s₁) (h' : Adds n s₁ s') : Adds n s s' where
  old path p hp := by
    rcases h'.old path p hp with hp | ⟨hunused, hlen⟩
    · exact h.old path p hp
    · exact .inr ⟨fun hused => hunused (h.used p hused), hlen⟩
  used p hp := h'.used p (h.used p hp)

theorem Adds.refl : Adds n s s where
  old _ _ := .inl
  used _ := id

/-- Long paths are not new. -/
theorem Adds.not_tableAt (h : Adds n s s') (hlen : n ≤ path.length) (hno : ∀ q, ¬ s.TableAt path q) :
    ∀ q, ¬ s'.TableAt path q := by
  intro q hq
  rcases h.old path q hq with hq | ⟨-, hlt⟩
  · exact hno q hq
  · exact absurd hlt (Nat.not_lt.mpr hlen)

theorem Filled.adds (h : Filled s path q s') (hlen : path.length < n) : Adds n s s' where
  old path' p hp := by
    rcases (h.tableAt path' p).mp hp with hp | ⟨rfl, rfl⟩
    · exact .inl hp
    · by_cases hused : p ∈ s.used
      · exact .inl (h.old hused)
      · exact .inr ⟨hused, hlen⟩
  used p hp := (h.used p).mpr (.inl hp)

theorem Filled.ownTables (h : Filled s path q s') (hindices : ∀ i ∈ path, i < tableSize)
    (ht : ∃ level', Tables s' level') (ho : OwnTables s) : OwnTables s' where
  tables := ht
  nodup := h.nodup ho.nodup
  reached p hp := by
    rcases (h.used p).mp hp with hp | rfl
    · obtain ⟨path', hpath', hp⟩ := ho.reached p hp
      exact ⟨path', hpath', (h.tableAt path' p).mpr (.inl hp)⟩
    · exact ⟨path, hindices, (h.tableAt path p).mpr (.inr ⟨rfl, rfl⟩)⟩

/-- The indices of an address are those of a table. -/
theorem lt_tableSize_of_mem (hi : i ∈ indices virt) : i < tableSize := by
  have hmod : ∀ m, m % 2 ^ 9 < tableSize := fun m => Nat.mod_lt m (by decide)
  rw [indices, List.mem_cons, List.mem_cons, List.mem_cons, List.mem_singleton] at hi
  rcases hi with rfl | rfl | rfl | rfl
  · exact pml4e_eq virt ▸ hmod _
  · exact pdpe_eq virt ▸ hmod _
  · exact pde_eq virt ▸ hmod _
  · exact pte_eq virt ▸ hmod _

/-- **The entry of a page is written**: no table hangs there any more, and none is lost if none hung
there before. -/
theorem Tables.writeLeaf_tableAt (h : Tables s level) (hp : s.TableAt path p) (hlen : path.length < 4)
    {w : Word} (hw : ∀ q, kind (4 - path.length) w ≠ .table q) :
    Adds n s (s.writeEntry p i w) ∧ (∀ q, ¬ (s.writeEntry p i w).TableAt (path ++ [i]) q) ∧
      ((∀ q, ¬ s.TableAt (path ++ [i]) q) → OwnTables s → OwnTables (s.writeEntry p i w)) := by
  have hback : ∀ path' q, (s.writeEntry p i w).TableAt path' q → s.TableAt path' q :=
    fun path' q hq => Reaches.of_write hq hp h.forest h.root hw
  refine ⟨⟨fun path' q hq => .inl (hback path' q hq), fun _ => id⟩, fun q hq => ?_, fun hno ho => ?_⟩
  · obtain ⟨p', hp', hq⟩ := hq.exists_of_append
    obtain rfl := hp.functional (hback path p' hp')
    have hword : (s.writeEntry p i w).mem p i = w := write_self _ _ _ _
    rw [hword] at hq
    exact hw q hq
  · refine ⟨⟨level, (h.writeEntry hp hlen hw).1⟩, ho.nodup, fun r hr => ?_⟩
    obtain ⟨path', hpath', hr⟩ := ho.reached r hr
    exact ⟨path', hpath', hr.write_of_not_table hp h.forest h.root fun q hq => hno q (hp.step hq)⟩

/-- **Mapping a page** loses no table if none hangs at its entry. -/
theorem Tables.mapPage_tableAt (h : Tables s level) (hs : s.mapPage virt type phys = .done s') :
    Adds (5 - leafLevel type) s s' ∧ (∀ q, ¬ s'.TableAt (pagePath type virt) q) ∧
      ((∀ q, ¬ s.TableAt (pagePath type virt) q) → OwnTables s → OwnTables s') := by
  obtain ⟨level₁, s₁, path, p, i, ht₁, ⟨hadds, hown⟩, hp, hpath, rfl⟩ :=
    h.mapPage_walk (R := fun s₁ => Adds (5 - leafLevel type) s s₁ ∧ (OwnTables s → OwnTables s₁))
      (fun ht hp hpre hlen hfill hR => by
        have hpos := one_le_leafLevel type
        have hfilled := Tables.filled ht hp (by omega) hfill
        obtain ⟨level', ht', -⟩ := ht.allocIfNotPresent hp (by omega) hfill
        refine ⟨hR.1.trans (hfilled.adds ?_), fun ho => ?_⟩
        · rw [List.length_append, List.length_singleton]
          omega
        · exact hfilled.ownTables (fun j hj => lt_tableSize_of_mem (hpre.subset hj)) ⟨level', ht'⟩ (hR.2 ho))
      ⟨.refl, id⟩ hs
  have hlength := congrArg List.length hpath
  rw [List.length_append, List.length_singleton, length_pagePath] at hlength
  have hpos := one_le_leafLevel type
  have hlevel : 4 - path.length = leafLevel type := by
    have hle : leafLevel type ≤ 3 := by rcases leafLevel_cases type with ⟨hl, -⟩ | ⟨hl, -⟩ | ⟨hl, -⟩ <;> omega
    omega
  have hw : ∀ q, kind (4 - path.length) (leafWord type phys) ≠ .table q := by
    intro q hq
    rw [hlevel, kind_leafWord] at hq
    cases hq
  obtain ⟨hadds', hnone, hown'⟩ := Tables.writeLeaf_tableAt (i := i) (n := 5 - leafLevel type) ht₁ hp (by omega) hw
  rw [hpath] at hnone hown'
  refine ⟨hadds.trans hadds', hnone, fun hno ho => hown' (hadds.not_tableAt ?_ hno) (hown ho)⟩
  rw [length_pagePath]

/-- The addresses of the pages of a range, one after the other. -/
def Visits (type : MemoryType) (virt length v : Word) : Prop :=
  ∃ k, k * type.pageSize.toNat < length.toNat ∧ v = virt + BitVec.ofNat 64 (k * type.pageSize.toNat)

theorem visits_first (hne : length ≠ 0) : Visits type virt length virt := by
  have hpos : length.toNat ≠ 0 := fun hzero => hne (BitVec.eq_of_toNat_eq hzero)
  refine ⟨0, ?_, ?_⟩
  · rw [Nat.zero_mul]
    exact Nat.pos_of_ne_zero hpos
  · rw [Nat.zero_mul]
    exact (BitVec.add_zero virt).symm

/-- The pages behind the first one. -/
theorem visits_rest (hne : length ≠ 0) (hmod : length.toNat % type.pageSize.toNat = 0) :
    (length - type.pageSize).toNat % type.pageSize.toNat = 0 ∧
      ∀ v, Visits type virt length v ↔ v = virt ∨ Visits type (virt + type.pageSize) (length - type.pageSize) v := by
  obtain ⟨hle, -, hmod', hlen⟩ := @rest_of_pages type 0 length (Nat.zero_mod _) hmod hne
  refine ⟨hmod', fun v => ?_⟩
  have hnext : ∀ k, virt + type.pageSize + BitVec.ofNat 64 (k * type.pageSize.toNat) =
      virt + BitVec.ofNat 64 ((k + 1) * type.pageSize.toNat) := by
    intro k
    rw [Nat.succ_mul, BitVec.ofNat_add, BitVec.ofNat_toNat, BitVec.setWidth_eq, BitVec.add_assoc,
      BitVec.add_comm type.pageSize]
  constructor
  · rintro ⟨k, hk, rfl⟩
    cases k with
    | zero =>
      rw [Nat.zero_mul]
      exact .inl (BitVec.add_zero virt)
    | succ k =>
      rw [Nat.succ_mul] at hk
      exact .inr ⟨k, by omega, (hnext k).symm⟩
  · rintro (rfl | ⟨k, hk, rfl⟩)
    · exact visits_first hne
    · refine ⟨k + 1, ?_, hnext k⟩
      rw [Nat.succ_mul]
      omega

/-- No table hangs at the entry of a page of the range. -/
def FreeOfTables (s : MemoryManager) (type : MemoryType) (virt length : Word) : Prop :=
  ∀ v, Visits type virt length v → ∀ q, ¬ s.TableAt (pagePath type v) q

/-- **The loop of `do_map_memory`** loses no table if none hangs at the entry of a page of the range,
and leaves none there. -/
theorem Tables.mapLoop_tableAt (h : Tables s level) (hmod : length.toNat % type.pageSize.toNat = 0)
    (hs : MemoryManager.mapLoop type fuel s virt length phys = .done s') :
    Adds (5 - leafLevel type) s s' ∧ FreeOfTables s' type virt length ∧
      (FreeOfTables s type virt length → OwnTables s → OwnTables s') := by
  induction fuel generalizing s level virt length phys with
  | zero => cases hs
  | succ fuel ih =>
    rw [MemoryManager.mapLoop] at hs
    split_ifs at hs with hne
    · obtain ⟨s₁, h₁, hs⟩ := Outcome.bind_eq_done.mp hs
      obtain ⟨level₁, ht₁, -⟩ := h.mapPage h₁
      obtain ⟨hmod', hvisits⟩ := @visits_rest virt length type hne hmod
      obtain ⟨hadds₁, hnone₁, hown₁⟩ := Tables.mapPage_tableAt h h₁
      obtain ⟨hadds, hnone, hown⟩ := ih ht₁ hmod' hs
      refine ⟨hadds₁.trans hadds, fun v hv => ?_, fun hfree ho => ?_⟩
      · rcases (hvisits v).mp hv with rfl | hv
        · exact hadds.not_tableAt (length_pagePath type v).ge hnone₁
        · exact hnone v hv
      · refine hown (fun v hv => ?_) (hown₁ (hfree virt (visits_first hne)) ho)
        exact hadds₁.not_tableAt (length_pagePath type v).ge (hfree v ((hvisits v).mpr (.inr hv)))
    · cases hs
      refine ⟨.refl, fun v hv => ?_, fun _ => id⟩
      obtain ⟨k, hk, -⟩ := hv
      rw [not_not.mp hne] at hk
      exact absurd hk (Nat.not_lt_zero _)

/-! ## Unmapping -/

/-- The word that the loop body of `do_unmap_memory` clears for a page, as page and index. -/
def clearedWord (s : MemoryManager) (virt : Word) (type : MemoryType) : Outcome (Word × ℕ) := do
  let pdp ← presentTableEntry (s.mem s.pml4_ (pml4e virt))
  if type.Has MemoryType.ps1gb then
    pure (pdp, pdpe virt)
  else do
    let pd ← presentTableEntry (s.mem pdp (pdpe virt))
    if type.Has MemoryType.ps2mb then
      pure (pd, pde virt)
    else do
      let pt ← presentTableEntry (s.mem pd (pde virt))
      pure (pt, pte virt)

theorem unmapPage_eq_clearedWord (hs : s.unmapPage virt type = .done s') :
    ∃ w, s.clearedWord virt type = .done w ∧ s' = s.writeEntry w.1 w.2 0 := by
  rw [unmapPage] at hs
  rw [clearedWord]
  obtain ⟨pdp, h₁, hs⟩ := Outcome.bind_eq_done.mp hs
  by_cases hgb : type.Has MemoryType.ps1gb
  · rw [if_pos hgb] at hs
    cases hs
    refine ⟨(pdp, pdpe virt), Outcome.bind_eq_done.mpr ⟨pdp, h₁, ?_⟩, rfl⟩
    rw [if_pos hgb]
    rfl
  · rw [if_neg hgb] at hs
    obtain ⟨pd, h₂, hs⟩ := Outcome.bind_eq_done.mp hs
    by_cases hmb : type.Has MemoryType.ps2mb
    · rw [if_pos hmb] at hs
      cases hs
      refine ⟨(pd, pde virt), Outcome.bind_eq_done.mpr ⟨pdp, h₁, ?_⟩, rfl⟩
      rw [if_neg hgb]
      refine Outcome.bind_eq_done.mpr ⟨pd, h₂, ?_⟩
      rw [if_pos hmb]
      rfl
    · rw [if_neg hmb] at hs
      obtain ⟨pt, h₃, hs⟩ := Outcome.bind_eq_done.mp hs
      cases hs
      refine ⟨(pt, pte virt), Outcome.bind_eq_done.mpr ⟨pdp, h₁, ?_⟩, rfl⟩
      rw [if_neg hgb]
      refine Outcome.bind_eq_done.mpr ⟨pd, h₂, ?_⟩
      rw [if_neg hmb]
      exact Outcome.bind_eq_done.mpr ⟨pt, h₃, rfl⟩

/-- Some words are cleared, and maybe the records change. -/
structure Clears (s : MemoryManager) (ws : List (Word × ℕ)) (s' : MemoryManager) : Prop where
  /-- the words are cleared -/
  mem : ∀ p i, s'.mem p i = if (p, i) ∈ ws then 0 else s.mem p i
  /-- no page is handed out -/
  pool : s'.pool = s.pool
  /-- or given back -/
  used : s'.used = s.used
  /-- the root stays -/
  pml4_ : s'.pml4_ = s.pml4_

variable {ws : List (Word × ℕ)} {w : Word × ℕ}

theorem Clears.nil (h : SameTables s s') : Clears s [] s' where
  mem p i := by rw [h.mem, if_neg List.not_mem_nil]
  pool := h.pool
  used := h.used
  pml4_ := h.pml4_

/-- One word is cleared, and then some. -/
theorem Clears.cons (h : Clears (s.writeEntry w.1 w.2 0) ws s') : Clears s (w :: ws) s' where
  mem p i := by
    rw [h.mem]
    by_cases hmem : (p, i) ∈ ws
    · rw [if_pos hmem, if_pos (List.mem_cons_of_mem _ hmem)]
    · rw [if_neg hmem]
      by_cases hslot : p = w.1 ∧ i = w.2
      · obtain ⟨rfl, rfl⟩ := hslot
        rw [if_pos List.mem_cons_self]
        exact write_self _ _ _ _
      · have hne : (p, i) ≠ w := fun heq => hslot ⟨congrArg Prod.fst heq, congrArg Prod.snd heq⟩
        rw [if_neg (fun hin => (List.mem_cons.mp hin).elim hne hmem)]
        exact write_of_ne hslot
  pool := h.pool
  used := h.used
  pml4_ := h.pml4_

/-- A word that is still present was not cleared. -/
theorem Clears.presentTableEntry (h : Clears s ws s') (hq : presentTableEntry (s'.mem p i) = .done q) :
    presentTableEntry (s.mem p i) = .done q := by
  rw [h.mem] at hq
  by_cases hmem : (p, i) ∈ ws
  · rw [if_pos hmem] at hq
    cases hq
  · rwa [if_neg hmem] at hq

/-- The walk of `do_unmap_memory` was the same before. -/
theorem Clears.clearedWord (h : Clears s ws s') (hw : s'.clearedWord virt type = .done w) :
    s.clearedWord virt type = .done w := by
  rw [MemoryManager.clearedWord] at hw ⊢
  obtain ⟨pdp, h₁, hw⟩ := Outcome.bind_eq_done.mp hw
  rw [h.pml4_] at h₁
  refine Outcome.bind_eq_done.mpr ⟨pdp, h.presentTableEntry h₁, ?_⟩
  split_ifs at hw ⊢
  · exact hw
  · obtain ⟨pd, h₂, hw⟩ := Outcome.bind_eq_done.mp hw
    exact Outcome.bind_eq_done.mpr ⟨pd, h.presentTableEntry h₂, hw⟩
  · obtain ⟨pd, h₂, hw⟩ := Outcome.bind_eq_done.mp hw
    obtain ⟨pt, h₃, hw⟩ := Outcome.bind_eq_done.mp hw
    exact Outcome.bind_eq_done.mpr ⟨pd, h.presentTableEntry h₂,
      Outcome.bind_eq_done.mpr ⟨pt, h.presentTableEntry h₃, hw⟩⟩

/-- **The loop of `do_unmap_memory`** clears one word for each page of the range. -/
theorem unmapLoop_clears (hs : unmapLoop type fuel s virt length = .done s') :
    ∃ ws, Clears s ws s' ∧ (∀ w ∈ ws, ∃ v, Visits type virt length v ∧ s.clearedWord v type = .done w) ∧
      ∀ v, Visits type virt length v → ∃ w ∈ ws, s.clearedWord v type = .done w := by
  induction fuel generalizing s virt length with
  | zero => cases hs
  | succ fuel ih =>
    have hmod := DefaultMemoryManager.unmapLoop_mod hs
    rw [unmapLoop] at hs
    split_ifs at hs with hne
    · obtain ⟨s₁, h₁, hs⟩ := Outcome.bind_eq_done.mp hs
      obtain ⟨w, hw, rfl⟩ := unmapPage_eq_clearedWord h₁
      obtain ⟨ws, hclears, hall, hevery⟩ := ih hs
      obtain ⟨-, hvisits⟩ := @visits_rest virt length type hne hmod
      have hone : Clears s [w] (s.writeEntry w.1 w.2 0) := .cons (.nil ⟨rfl, rfl, rfl, rfl⟩)
      refine ⟨w :: ws, hclears.cons, fun w' hw' => ?_, fun v hv => ?_⟩
      · rcases List.mem_cons.mp hw' with rfl | hw'
        · exact ⟨virt, visits_first hne, hw⟩
        · obtain ⟨v, hv, hcleared⟩ := hall w' hw'
          exact ⟨v, (hvisits v).mpr (.inr hv), hone.clearedWord hcleared⟩
      · rcases (hvisits v).mp hv with rfl | hv
        · exact ⟨w, List.mem_cons_self, hw⟩
        · obtain ⟨w', hw', hcleared⟩ := hevery v hv
          exact ⟨w', List.mem_cons_of_mem _ hw', hone.clearedWord hcleared⟩
    · cases hs
      refine ⟨[], .nil ⟨rfl, rfl, rfl, rfl⟩, fun _ hw => absurd hw List.not_mem_nil, fun v hv => ?_⟩
      obtain ⟨k, hk, -⟩ := hv
      rw [not_not.mp hne] at hk
      exact absurd hk (Nat.not_lt_zero _)

/-- The word is a pointer of a table to another one. -/
def Pointer (s : MemoryManager) (w : Word × ℕ) : Prop :=
  ∃ path q, s.TableAt path w.1 ∧ kind (4 - path.length) (s.mem w.1 w.2) = .table q

/-- No word that `do_unmap_memory` clears is a pointer of the manager `own` to a table. -/
def SparesTables (s own : MemoryManager) (fuel : ℕ) (virt length : Word) : Prop :=
  ∀ m, s.findMapping fuel virt length = .done (some m) → ∀ v, Visits (s.mappings m).type_ virt length v →
    ∀ w, s.clearedWord v (s.mappings m).type_ = .done w → ¬ own.Pointer w

/-- Cleared words add no tables. -/
theorem Clears.tableAt (h : Clears s ws s') (hp : s'.TableAt path p) : s.TableAt path p := by
  rw [TableAt, h.pml4_] at hp
  refine Reaches.of_clear hp fun p' i => ?_
  rw [h.mem]
  by_cases hmem : (p', i) ∈ ws
  · rw [if_pos hmem]
    exact .inr fun m r => kind_zero_ne_table m r
  · exact .inl (if_neg hmem)

/-- **No table is lost** if no pointer is cleared. -/
theorem OwnTables.clears (h : OwnTables s) (hc : Clears s ws s') (hspare : ∀ w ∈ ws, ¬ s.Pointer w) :
    OwnTables s' where
  tables := by
    obtain ⟨level, ht⟩ := h.tables
    refine ⟨level, ht.forest.mono fun p n i _ => ?_, hc.pml4_ ▸ ht.root, hc.pml4_ ▸ ht.isPage,
      hc.used ▸ ht.used, hc.used ▸ hc.pool ▸ ht.pool⟩
    rw [hc.mem]
    by_cases hmem : (p, i) ∈ ws
    · rw [if_pos hmem]
      exact .inr (kind_zero_ne_table n)
    · exact .inl (if_neg hmem)
  nodup := hc.used ▸ h.nodup
  reached p hp := by
    rw [hc.used] at hp
    obtain ⟨path, hpath, hp⟩ := h.reached p hp
    refine ⟨path, hpath, ?_⟩
    rw [TableAt, hc.pml4_]
    refine Reaches.keep hp fun path' p' i r hp' hr => ?_
    rw [hc.mem, if_neg]
    exact fun hmem => hspare _ hmem ⟨path', r, hp', hr⟩

/-- A table is lost if the pointer to it is cleared. -/
theorem OwnTables.not_noLeak_of_clears (h : OwnTables s) (hc : Clears s ws s') (hw : w ∈ ws)
    (hpointer : s.Pointer w) : ¬ NoLeak s' := by
  intro hno
  obtain ⟨level, ht⟩ := h.tables
  obtain ⟨path, q, hp, hq⟩ := hpointer
  have hqused : q ∈ s'.used := hc.used ▸ Tables.mem_used ht (hp.step hq)
  obtain ⟨path', -, hq'⟩ := (hno.used q).mp hqused
  obtain rfl := (hc.tableAt hq').unique (hp.step hq) ht.forest ht.root
  obtain ⟨p, hp', hkind⟩ := hq'.exists_of_append
  obtain rfl := hp.functional (hc.tableAt hp')
  rw [hc.mem, if_pos hw] at hkind
  exact kind_zero_ne_table _ _ hkind

/-- What `do_unmap_memory` clears. -/
theorem unmapMemory_clears (hs : s.unmapMemory fuel virt length = .done s') :
    ∃ m ws, s.findMapping fuel virt length = .done (some m) ∧ Clears s ws s' ∧
      (∀ w ∈ ws, ∃ v, Visits (s.mappings m).type_ virt length v ∧
        s.clearedWord v (s.mappings m).type_ = .done w) ∧
      ∀ v, Visits (s.mappings m).type_ virt length v →
        ∃ w ∈ ws, s.clearedWord v (s.mappings m).type_ = .done w := by
  obtain ⟨m, tree, s₁, hfind, -, -, hloop, -, hs'⟩ := unmapMemory_eq_done hs
  obtain ⟨ws, hclears, hall, hevery⟩ := unmapLoop_clears hloop
  refine ⟨m, ws, hfind, ?_, hall, hevery⟩
  rw [hs']
  exact ⟨hclears.mem, hclears.pool, hclears.used, hclears.pml4_⟩

/-! ## One call -/

theorem OwnTables.congr (h : OwnTables s) (hs : SameTables s s') : OwnTables s' :=
  h.clears (.nil hs) fun _ hw => absurd hw List.not_mem_nil

theorem tableAt_congr (hs : SameTables s s') : s'.TableAt path p ↔ s.TableAt path p := by
  rw [TableAt, TableAt, hs.mem, hs.pml4_]

theorem FreeOfTables.congr (h : FreeOfTables s type virt length) (hs : SameTables s s') :
    FreeOfTables s' type virt length := fun v hv q hq => h v hv q ((tableAt_congr hs).mp hq)

/-- What a call of `do_map_memory` does to the tables. -/
theorem Mapped.tableAt (hm : Mapped s fuel length type phys ret s') (h : Tables s level) :
    Adds (5 - leafLevel type) s s' ∧ FreeOfTables s' type ret length ∧
      (FreeOfTables s type ret length → OwnTables s → OwnTables s') := by
  obtain ⟨s₁, hsame, -, hloop⟩ := hm.run
  obtain ⟨hadds, hnone, hown⟩ := Tables.mapLoop_tableAt (h.congr hsame) hm.length_mod hloop
  refine ⟨⟨fun path p hp => ?_, fun p hp => hadds.used p (hsame.used ▸ hp)⟩, hnone,
    fun hfree ho => hown (hfree.congr hsame) (ho.congr hsame)⟩
  rw [← tableAt_congr hsame, ← hsame.used]
  exact hadds.old path p hp

/-- **Mapping a range** loses no table exactly if none hangs at the entry of a page of the range. -/
theorem mapMemory_noLeak_iff (h : OwnTables s)
    (hs : s.mapMemory fuel virt length type phys = .done (ret, s')) :
    NoLeak s' ↔ FreeOfTables s type (s.mapStart virt) length := by
  obtain ⟨level, ht⟩ := h.tables
  obtain ⟨hadds, hnone, hown⟩ := (mapMemory_eq_done hs).tableAt ht
  rw [← mapMemory_ret hs]
  constructor
  · intro hno v hv q hq
    -- the table is still in use, but it is not there any more
    have hused := Tables.mem_used ht hq
    obtain ⟨path, -, hpath⟩ := (hno.used q).mp (hadds.used q hused)
    rcases hadds.old path q hpath with hold | ⟨hunused, -⟩
    · obtain rfl := hold.unique hq ht.forest ht.root
      exact hnone v hv q hpath
    · exact hunused hused
  · exact fun hfree => (hown hfree h).noLeak

/-- **Unmapping a range** loses no table exactly if it clears no pointer to one. -/
theorem unmapMemory_noLeak_iff (h : OwnTables s) (hs : s.unmapMemory fuel virt length = .done s') :
    NoLeak s' ↔ SparesTables s s fuel virt length := by
  obtain ⟨m, ws, hfind, hclears, hall, hevery⟩ := unmapMemory_clears hs
  constructor
  · intro hno m' hfind' v hv w hw hpointer
    obtain rfl : m = m' := Option.some.inj (Outcome.done.inj (hfind.symm.trans hfind'))
    obtain ⟨w', hmem, hw'⟩ := hevery v hv
    obtain rfl : w = w' := Outcome.done.inj (hw.symm.trans hw')
    exact h.not_noLeak_of_clears hclears hmem hpointer hno
  · intro hspare
    refine (h.clears hclears fun w hmem => ?_).noLeak
    obtain ⟨v, hv, hw⟩ := hall w hmem
    exact hspare m hfind v hv w hw

theorem OwnTables.elsewhere (h : OwnTables s) (he : Elsewhere s s') : OwnTables s' where
  tables := by
    obtain ⟨level, ht⟩ := h.tables
    exact ⟨level, ht.elsewhere he⟩
  nodup := by
    rw [he.eq]
    exact h.nodup
  reached p hp := by
    obtain ⟨level, ht⟩ := h.tables
    rw [he.eq] at hp
    obtain ⟨path, hpath, hp⟩ := h.reached p hp
    have hpml4 : s'.pml4_ = s.pml4_ := by rw [he.eq]
    refine ⟨path, hpath, ?_⟩
    rw [TableAt, hpml4]
    exact Reaches.congr hp ht.forest ht.root fun p' n i hp' => he.mem p' (ht.used hp') i

/-! ## Every run -/

/-- Calls that keep the tables. -/
inductive KeepingStep : MemoryManager → MemoryManager → Prop where
  /-- a range is mapped, and no table hangs at the entry of a page of it -/
  | map {s s' : MemoryManager} {fuel : ℕ} {virt length phys ret : Word} {type : MemoryType} :
      s.mapMemory fuel virt length type phys = .done (ret, s') →
        FreeOfTables s type (s.mapStart virt) length → KeepingStep s s'
  /-- a range is unmapped, and no pointer to a table is cleared -/
  | unmap {s s' : MemoryManager} {fuel : ℕ} {virt length : Word} :
      s.unmapMemory fuel virt length = .done s' → SparesTables s s fuel virt length → KeepingStep s s'
  /-- other pages change -/
  | elsewhere {s s' : MemoryManager} : Elsewhere s s' → KeepingStep s s'
  /-- the page of the mappings changes -/
  | records {s s' : MemoryManager} : RecordsOnly s s' → KeepingStep s s'

theorem KeepingStep.ownTables (hstep : KeepingStep s s') (h : OwnTables s) : OwnTables s' := by
  cases hstep with
  | map hs hfree =>
    obtain ⟨level, ht⟩ := h.tables
    rw [← mapMemory_ret hs] at hfree
    exact ((mapMemory_eq_done hs).tableAt ht).2.2 hfree h
  | unmap hs hspare =>
    obtain ⟨m, ws, hfind, hclears, hall, -⟩ := unmapMemory_clears hs
    refine h.clears hclears fun w hmem => ?_
    obtain ⟨v, hv, hw⟩ := hall w hmem
    exact hspare m hfind v hv w hw
  | elsewhere he => exact h.elsewhere he
  | records hr =>
    rw [hr]
    exact h.congr ⟨rfl, rfl, rfl, rfl⟩

end MemoryManager

namespace DefaultMemoryManager

open MemoryManager

variable {s s' : MemoryManager} {kernel : Word}

/-- The pages that `~default_memory_manager` and the destructor of its base free with `free_table`. -/
def freedTables (kernel : Word) (s : MemoryManager) : Outcome (List Word) := do
  Outcome.require (s.mem s.pml4_ kernelPml4 = s.mem kernel kernelPml4)
  pure (s.writeEntry s.pml4_ kernelPml4 0).freedTables

/-- Calls that keep the tables apart from the kernel's. -/
inductive KeepingStep : MemoryManager → MemoryManager → Prop where
  /-- a range is mapped that does not reach the kernel's entry, and no table hangs at the entry of a
  page of it -/
  | map {s s' : MemoryManager} {fuel : ℕ} {virt length phys ret : Word} {type : MemoryType} :
      mapMemory s fuel virt length type phys = .done (ret, s') →
        Below kernelPml4 (startOf s virt) length → FreeOfTables (mask s) type (startOf s virt) length →
          KeepingStep s s'
  /-- a range is unmapped, and no pointer to a table is cleared -/
  | unmap {s s' : MemoryManager} {fuel : ℕ} {virt length : Word} :
      s.unmapMemory fuel virt length = .done s' → SparesTables s (mask s) fuel virt length →
        KeepingStep s s'
  /-- other pages change -/
  | elsewhere {s s' : MemoryManager} : MemoryManager.Elsewhere s s' → KeepingStep s s'
  /-- the page of the mappings changes -/
  | records {s s' : MemoryManager} : RecordsOnly s s' → KeepingStep s s'

/-- Words that are cleared are cleared without the kernel's entry, too. -/
theorem mask_clears {ws : List (Word × ℕ)} (h : Clears s ws s') : Clears (mask s) ws (mask s') where
  mem p i := by
    simp only [mask, MemoryManager.writeEntry, RadixTable.write, h.pml4_, h.mem]
    split_ifs <;> rfl
  pool := h.pool
  used := h.used
  pml4_ := h.pml4_

theorem mask_elsewhere (h : MemoryManager.Elsewhere s s') : MemoryManager.Elsewhere (mask s) (mask s') where
  mem p hp i := by
    have hpml4 : s'.pml4_ = s.pml4_ := by rw [h.eq]
    simp only [mask, MemoryManager.writeEntry, RadixTable.write, hpml4]
    rw [h.mem p hp i]
  pool := h.pool
  eq := by
    rw [h.eq]
    rfl

theorem KeepingStep.ownTables (hstep : KeepingStep s s') (h : OwnTables (mask s)) : OwnTables (mask s') := by
  cases hstep with
  | map hs hbelow hfree =>
    obtain ⟨rfl, hs⟩ := mapMemory_start hs
    have hm := mapMemory_eq_done hs
    obtain ⟨level, ht⟩ := h.tables
    obtain ⟨s₁, hsame, -, hloop⟩ := hm.run
    have hsame' := mask_congr hsame
    obtain ⟨hmask, -⟩ := mapLoop_low (ht.congr hsame') (le_refl _) hbelow hm.length_mod hloop
    exact (Tables.mapLoop_tableAt (ht.congr hsame') hm.length_mod hmask).2.2 (hfree.congr hsame') (h.congr hsame')
  | unmap hs hspare =>
    obtain ⟨m, ws, hfind, hclears, hall, -⟩ := unmapMemory_clears hs
    refine h.clears (mask_clears hclears) fun w hmem => ?_
    obtain ⟨v, hv, hw⟩ := hall w hmem
    exact hspare m hfind v hv w hw
  | elsewhere he => exact h.elsewhere (mask_elsewhere he)
  | records hr =>
    rw [hr]
    exact h.congr ⟨rfl, rfl, rfl, rfl⟩

theorem Init.ownTables (h : Init kernel s) : OwnTables (mask s) := by
  obtain ⟨base, hbase, -, hs⟩ := h.create
  rw [hs, mask_create (hbase.clear _)]
  exact hbase.ownTables

end DefaultMemoryManager

namespace MemoryManager

variable {s : MemoryManager} {virt length : Word} {type : MemoryType}

/-- **No table is lost** in every run in which no table hangs at the entry of a page that is mapped,
and no pointer to a table is cleared: the pages that were handed out are the tables that the root leads
to, and the destructor frees each of them once. This is so for the kernel's manager, and for that of a
process apart from the kernel's entry. -/
theorem tables_owned (kernel : Word) (s : MemoryManager) : (Reach Init KeepingStep s → NoLeak s) ∧
    (Reach (DefaultMemoryManager.Init kernel) DefaultMemoryManager.KeepingStep s →
      NoLeak (DefaultMemoryManager.mask s) ∧
        ∀ freed, DefaultMemoryManager.freedTables kernel s = .done freed → freed.Perm s.used) := by
  constructor
  · intro hs
    have hown := Reach.invariant OwnTables hs (fun s h => h.ownTables) fun s s' h hstep => hstep.ownTables h
    exact hown.noLeak
  · intro hs
    have hown := Reach.invariant (fun s => OwnTables (DefaultMemoryManager.mask s)) hs
      (fun s h => h.ownTables) fun s s' h hstep => hstep.ownTables h
    refine ⟨hown.noLeak, fun freed hfreed => ?_⟩
    obtain ⟨-, hfreed⟩ := Outcome.require_bind_eq_done.mp hfreed
    rw [Outcome.pure_eq, Outcome.done.injEq] at hfreed
    rw [← hfreed]
    exact hown.noLeak.freed

/-- Mapping small pages loses no table. -/
theorem freeOfTables_of_small (hsmall : leafLevel type = 1) : FreeOfTables s type virt length := by
  intro v _ q hq
  have hpath : pagePath type v = [pml4e v, pdpe v, pde v] ++ [pte v] := by
    rw [pagePath, hsmall]
    rfl
  rw [hpath] at hq
  obtain ⟨p, -, hq⟩ := hq.exists_of_append
  have hkind : kind 1 (s.mem p (pte v)) = .table q := hq
  rw [kind] at hkind
  split_ifs at hkind with hpresent hlevel
  exact absurd hlevel (by omega)

/-- A page is mapped by a manager and by that of a process. -/
theorem tables_owned_fresh :
    (∃ s, fresh.mapMemory 10 0x200000 0x1000 MemoryType.read 0x8000 = .done (0x200000, s) ∧ NoLeak s) ∧
      ∃ s, DefaultMemoryManager.mapMemory DefaultMemoryManager.process 10 0x200000 0x1000 MemoryType.read
        0x8000 = .done (0x200000, s) ∧ NoLeak (DefaultMemoryManager.mask s) := by
  constructor
  · obtain ⟨s, hmap⟩ : ∃ s, fresh.mapMemory 10 0x200000 0x1000 MemoryType.read 0x8000 =
        .done (0x200000, s) := ⟨_, rfl⟩
    exact ⟨s, hmap, (tables_owned 0 s).1
      (.step (.start fresh_init) (.map hmap (freeOfTables_of_small (by decide))))⟩
  · obtain ⟨s, hmap⟩ : ∃ s, DefaultMemoryManager.mapMemory DefaultMemoryManager.process 10 0x200000 0x1000
        MemoryType.read 0x8000 = .done (0x200000, s) := ⟨_, rfl⟩
    have hlower : DefaultMemoryManager.Below DefaultMemoryManager.kernelPml4 0x200000 0x1000 := by
      intro v hv
      have hv' : 0x200000 ≤ v.toNat ∧ v.toNat < 0x200000 + 0x1000 := hv
      have hfirst : pml4e v = 0 := by
        rw [pml4e_eq]
        omega
      rw [hfirst]
      decide
    exact ⟨s, hmap, ((tables_owned 0x100000 s).2 (.step (.start DefaultMemoryManager.process_init)
      (.map hmap hlower (freeOfTables_of_small (by decide))))).1⟩

/-- Map a page, unmap it, and map a large page in its place. -/
theorem not_tables_owned : ¬ ∀ s, Reachable s → NoLeak s := by
  intro h
  obtain ⟨s₁, s₂, s₃, hmap, hunmap, hlarge, hfind, htype, hcleared, h₄, h₃, h₂, h₄', h₃', h₂'⟩ :
      ∃ s₁ s₂ s₃, fresh.mapMemory 10 0x200000 0x1000 MemoryType.read 0x8000 = .done (0x200000, s₁) ∧
        s₁.unmapMemory 10 0x200000 0x1000 = .done s₂ ∧
        s₂.mapMemory 10 0x200000 0x200000 (MemoryType.read ||| MemoryType.ps2mb) 0x200000 =
          .done (0x200000, s₃) ∧
        s₁.findMapping 10 0x200000 0x1000 = .done (some 0) ∧ (s₁.mappings 0).type_ = MemoryType.read ∧
        s₁.clearedWord 0x200000 MemoryType.read = .done (0x4000, 0) ∧
        kind 4 (s₁.mem s₁.pml4_ 0) = .table 0x2000 ∧ kind 3 (s₁.mem 0x2000 0) = .table 0x3000 ∧
        kind 2 (s₁.mem 0x3000 1) = .table 0x4000 ∧
        kind 4 (s₂.mem s₂.pml4_ 0) = .table 0x2000 ∧ kind 3 (s₂.mem 0x2000 0) = .table 0x3000 ∧
        kind 2 (s₂.mem 0x3000 1) = .table 0x4000 :=
    ⟨_, _, _, rfl, rfl, rfl, rfl, rfl, rfl, rfl, rfl, rfl, rfl, rfl, rfl⟩
  have hpath₁ : s₁.TableAt [0, 0, 1] 0x4000 := .step (.step (.step .root h₄) h₃) h₂
  have hpath₂ : s₂.TableAt [0, 0, 1] 0x4000 := .step (.step (.step .root h₄') h₃') h₂'
  have hown₁ : OwnTables s₁ :=
    (KeepingStep.map hmap (freeOfTables_of_small (by decide))).ownTables fresh_init.ownTables
  -- the cleared word is in the last table
  have hspare : SparesTables s₁ s₁ 10 0x200000 0x1000 := by
    intro m hm v hv w hw hpointer
    obtain rfl : 0 = m := Option.some.inj (Outcome.done.inj (hfind.symm.trans hm))
    rw [htype] at hv hw
    obtain ⟨k, hk, rfl⟩ := hv
    have hk' : k * 0x1000 < 0x1000 := hk
    obtain rfl : k = 0 := by omega
    obtain rfl : (0x4000, 0) = w := Outcome.done.inj (hcleared.symm.trans hw)
    obtain ⟨path, q, hp, hq⟩ := hpointer
    obtain ⟨level, ht⟩ := hown₁.tables
    obtain rfl := hp.unique hpath₁ ht.forest ht.root
    have hsmall : FreeOfTables s₁ MemoryType.read 0x200000 0x1000 := freeOfTables_of_small (by decide)
    exact hsmall 0x200000 (visits_first (by decide)) q (hp.step hq)
  have hown₂ : OwnTables s₂ := (KeepingStep.unmap hunmap hspare).ownTables hown₁
  have hrun : Reachable s₃ :=
    .step (.step (.step (.start fresh_init) (.map hmap)) (.unmap hunmap)) (.map hlarge)
  have hfree := (mapMemory_noLeak_iff hown₂ hlarge).mp (h s₃ hrun)
  exact hfree 0x200000 (visits_first (by decide)) 0x4000 hpath₂

end MemoryManager

end Attos
