import Attos.MapMemory
import Attos.TreeIterate

/-!
# Runs of the memory manager: unmapping

`do_unmap_memory` takes the first recorded mapping that overlaps the range it is
given, and checks its length alone. So it unmaps a range that is not the range
of any mapping, and leaves a part of the mapping behind (`not_unmapMemory_exact`).

Runs that map ranges inside one half and unmap from the addresses of recorded
mappings keep the tree, the records and the tables in agreement (`Agree`); in
them, unmapping does what it is for exactly if the address is that of a recorded
mapping and the range does not wrap around (`unmapMemory_exact_iff`).
-/

namespace Attos

open Lib

namespace MemoryManager

variable {s s' : MemoryManager} {level : Word → Option ℕ} {fuel : ℕ} {virt length phys ret : Word}
  {type : MemoryType} {l : List ℕ} {m : ℕ}

/-! ## Overlapping ranges -/

/-- `memory_areas_overlap` for ranges that do not wrap around: the difference of
the smaller end and the larger start is positive as a signed number. -/
theorem memoryAreasOverlap_iff {a b k n : Word} (ha : a.toNat + k.toNat < 2 ^ 64)
    (hb : b.toNat + n.toNat < 2 ^ 64) :
    MemoryAreasOverlap a k b n ↔
      let fin := min (a.toNat + k.toNat) (b.toNat + n.toNat)
      let start := max a.toNat b.toNat
      start < fin ∧ fin < start + 2 ^ 63 ∨ fin + 2 ^ 63 < start := by
  have hk := k.isLt
  have hn := n.isLt
  rw [MemoryAreasOverlap]
  simp only [BitVec.lt_def, BitVec.toNat_add, Nat.mod_eq_of_lt ha, Nat.mod_eq_of_lt hb]
  rw [BitVec.toInt_eq_toNat_cond, BitVec.toNat_sub]
  split_ifs <;> simp only [BitVec.toNat_add, Nat.mod_eq_of_lt ha, Nat.mod_eq_of_lt hb] at * <;> omega

theorem memoryAreasOverlap_comm {a b k n : Word} :
    MemoryAreasOverlap a k b n ↔ MemoryAreasOverlap b n a k := by
  unfold MemoryAreasOverlap
  have hfin : (if b + n < a + k then b + n else a + k) = if a + k < b + n then a + k else b + n := by
    split_ifs <;> bv_omega
  have hstart : (if a < b then b else a) = if b < a then a else b := by
    split_ifs <;> bv_omega
  rw [hfin, hstart]

/-- Ranges with a common address overlap. -/
theorem memoryAreasOverlap_of_inRange {a b k n v : Word} (ha : a.toNat + k.toNat < 2 ^ 64)
    (hb : b.toNat + n.toNat < 2 ^ 64) (hk : k.toNat < 2 ^ 63) (hv : InRange a k v)
    (hv' : InRange b n v) : MemoryAreasOverlap a k b n := by
  rw [memoryAreasOverlap_iff ha hb]
  rw [InRange] at hv hv'
  omega

theorem InHalf.length_lt {a k : Word} (h : InHalf a k) : k.toNat < 2 ^ 63 := by
  rw [InHalf] at h
  omega

/-- Two ranges with one start overlap. -/
theorem memoryAreasOverlap_start {a k n : Word} (hk : a.toNat + k.toNat < 2 ^ 64)
    (hn : a.toNat + n.toNat < 2 ^ 64) (hk₀ : k ≠ 0) (hn₀ : n ≠ 0) (hhalf : InHalf a n) :
    MemoryAreasOverlap a k a n := by
  have hkpos : k.toNat ≠ 0 := by simpa [BitVec.toNat_eq] using hk₀
  have hnpos : n.toNat ≠ 0 := by simpa [BitVec.toNat_eq] using hn₀
  rw [memoryAreasOverlap_iff hk hn]
  rw [InHalf] at hhalf
  omega

/-- A range before the range at `a` does not overlap one of its own length at
`a`. -/
theorem not_memoryAreasOverlap_before {a b k n : Word} (hn : a.toNat + n.toNat < 2 ^ 64)
    (hk : a.toNat + k.toNat < 2 ^ 64) (hb : b.toNat + k.toNat < 2 ^ 64) (hn₀ : n ≠ 0)
    (hle : b.toNat ≤ a.toNat) (h : ¬ MemoryAreasOverlap a n b k) :
    ¬ MemoryAreasOverlap a k b k := by
  have hnpos : n.toNat ≠ 0 := by simpa [BitVec.toNat_eq] using hn₀
  rw [memoryAreasOverlap_iff hn hb] at h
  rw [memoryAreasOverlap_iff hk hb]
  omega

/-! ## The search -/

/-- The recorded mappings, in order. -/
def Records (s : MemoryManager) (l : List ℕ) : Prop :=
  ∃ t, s.memoryMapTree_.Represents t ∧ inorder t = l

/-- The mapping overlaps the range. -/
def Overlaps (s : MemoryManager) (addr length : Word) (m : ℕ) : Prop :=
  MemoryAreasOverlap addr length (s.mappings m).addr_ (s.mappings m).length_

instance (s : MemoryManager) (addr length : Word) : DecidablePred (s.Overlaps addr length) :=
  fun _ => inferInstanceAs (Decidable (MemoryAreasOverlap addr length _ _))

/-- **`find_mapping` finds the first mapping that overlaps the range.** -/
theorem Records.findMapping (h : s.Records l) (addr length : Word) :
    Computes (fun fuel => s.findMapping fuel addr length)
      (l.find? fun m => decide (s.Overlaps addr length m)) := by
  obtain ⟨t, ht, rfl⟩ := h
  have hloop : ∀ l₂ l₁, inorder t = l₁ ++ l₂ →
      Computes (fun fuel => s.findLoop addr length fuel l₂.head?)
        (l₂.find? fun m => decide (s.Overlaps addr length m)) := by
    intro l₂
    induction l₂ with
    | nil => exact fun _ _ => .step rfl (fun _ => rfl) (.of_done fun _ => rfl)
    | cons m l₂ ih =>
      intro l₁ hl
      by_cases ho : s.Overlaps addr length m
      · -- the search ends at the first one
        rw [List.find?_cons_of_pos (by simpa using ho)]
        refine .step rfl (fun fuel => ?_) (.of_done fun _ => rfl)
        exact if_pos ho
      · rw [List.find?_cons_of_neg (by simpa using ho)]
        refine .step rfl (fun fuel => ?_) ((ht.successorNode hl).bind (ih (l₁ ++ [m]) (by simp [hl])))
        exact if_neg ho
  exact ht.begin.bind (hloop _ [] rfl)

/-! ## The agreement of records and tables -/

/-- The pages of a recorded mapping are in the tables. -/
structure InTables (s : MemoryManager) (mapping : MemoryMapping) : Prop where
  /-- it starts at a page -/
  addr_mod : mapping.addr_.toNat % mapping.type_.pageSize.toNat = 0
  /-- and has whole pages -/
  length_mod : mapping.length_.toNat % mapping.type_.pageSize.toNat = 0
  /-- at least one -/
  length_ne : mapping.length_ ≠ 0
  /-- it does not wrap around -/
  no_wrap : mapping.addr_.toNat + mapping.length_.toNat < 2 ^ 64
  /-- and is in one half -/
  half : InHalf mapping.addr_ mapping.length_
  /-- its addresses are translated by pages of its type -/
  entry : ∀ v, Canonical v → InRange mapping.addr_ mapping.length_ v →
    ∃ w, s.entryAt (indices v) = some (leafLevel mapping.type_, w)

/-- The tree, the records and the tables agree. -/
structure Agree (s : MemoryManager) (l : List ℕ) : Prop where
  /-- the tree has the mappings of the list -/
  records : s.Records l
  /-- which are ordered by address -/
  ordered : Ordered s.compare l
  /-- were constructed -/
  constructed : ∀ m ∈ l, m < s.cur_
  /-- are in the tables -/
  inTables : ∀ m ∈ l, InTables s (s.mappings m)
  /-- and do not overlap -/
  apart : ∀ m ∈ l, ∀ m' ∈ l, m ≠ m' → ¬ s.Overlaps (s.mappings m).addr_ (s.mappings m).length_ m'

instance (s : MemoryManager) : IsStrictWeakOrder ℕ s.compare where
  irrefl m := BitVec.lt_irrefl (s.mappings m).addr_
  trans _ _ _ hab hbc := BitVec.lt_trans hab hbc
  incomp_trans a b c := by
    unfold compare
    bv_omega

theorem Init.agree (h : Init s) : Agree s [] where
  records := ⟨.nil, ⟨h.root, trivial, List.nodup_nil⟩, rfl⟩
  ordered := List.Pairwise.nil
  constructed := by simp
  inTables := by simp
  apart := by simp

/-- An address is in one mapping at most. -/
theorem Agree.not_inRange (h : Agree s l) {m m' : ℕ} (hm : m ∈ l) (hm' : m' ∈ l) (hne : m ≠ m')
    {v : Word} (hv : InRange (s.mappings m).addr_ (s.mappings m).length_ v) :
    ¬ InRange (s.mappings m').addr_ (s.mappings m').length_ v := fun hv' =>
  h.apart m hm m' hm' hne (memoryAreasOverlap_of_inRange (h.inTables m hm).no_wrap
    (h.inTables m' hm').no_wrap (h.inTables m hm).half.length_lt hv hv')

/-- Entries that stay as they were keep a mapping in the tables. -/
theorem InTables.congr {mapping : MemoryMapping} (h : InTables s mapping)
    (he : ∀ v, Canonical v → InRange mapping.addr_ mapping.length_ v →
      s'.entryAt (indices v) = s.entryAt (indices v)) : InTables s' mapping where
  addr_mod := h.addr_mod
  length_mod := h.length_mod
  length_ne := h.length_ne
  no_wrap := h.no_wrap
  half := h.half
  entry v hv hrange := he v hv hrange ▸ h.entry v hv hrange

/-- Changes outside the tables keep the agreement. -/
theorem Agree.elsewhere (h : Agree s l) (ht : Tables s level) (he : Elsewhere s s') :
    Agree s' l := by
  have hentry : s'.entryAt = s.entryAt := by
    funext is
    have hsame := RadixTable.lookup_congr ht.forest ht.root
      (fun p n i hp => he.mem p (ht.used hp) i) is
    rw [he.eq]
    exact hsame
  have hmappings : s'.mappings = s.mappings := by rw [he.eq]
  have htree : s'.memoryMapTree_ = s.memoryMapTree_ := by rw [he.eq]
  have hcur : s'.cur_ = s.cur_ := by rw [he.eq]
  constructor
  · rw [Records]
    rw [htree]
    exact h.records
  · unfold MemoryManager.compare
    rw [hmappings]
    exact h.ordered
  · rw [hcur]
    exact h.constructed
  · intro m hm
    rw [hmappings]
    exact (h.inTables m hm).congr fun v _ _ => by rw [hentry]
  · unfold Overlaps
    rw [hmappings]
    exact h.apart

/-! ## Mapping -/

/-- A tree does not change when a node that is not in it is constructed. -/
theorem Records.construct (h : s.Records l) {n : ℕ} (hn : n ∉ l) :
    ∃ t, (((s.memoryMapTree_.setParent n none).setLeft n none).setRight n none).Represents t ∧
      inorder t = l := by
  obtain ⟨t, ht, rfl⟩ := h
  refine ⟨t, ⟨ht.root, ht.hangs.congr fun a ha => ?_, ht.nodup⟩, rfl⟩
  have hne : a ≠ n := fun han => hn (han ▸ ha)
  exact ((Tree.sameAt_setParent hne).trans (Tree.sameAt_setLeft hne)).trans
    (Tree.sameAt_setRight hne)

/-- The tree has the mappings of the list, in order. -/
structure Listed (s : MemoryManager) (l : List ℕ) : Prop where
  /-- the tree has the mappings of the list -/
  records : s.Records l
  /-- which are ordered by address -/
  ordered : Ordered s.compare l
  /-- and were constructed -/
  constructed : ∀ m ∈ l, m < s.cur_

theorem Agree.listed (h : Agree s l) : Listed s l := ⟨h.records, h.ordered, h.constructed⟩

/-- What a mapping does to the list of mappings. -/
structure Added (s : MemoryManager) (l : List ℕ) (addr length : Word) (type : MemoryType)
    (s' : MemoryManager) (l' : List ℕ) : Prop where
  /-- the new list -/
  listed : Listed s' l'
  /-- has the new mapping -/
  mem : ∀ m, m ∈ l' ↔ m = s.cur_ ∨ m ∈ l
  /-- which is recorded -/
  self : s'.mappings s.cur_ = ⟨addr, length, type⟩
  /-- next to the old ones -/
  old : ∀ m ∈ l, s'.mappings m = s.mappings m
  /-- that do not overlap it -/
  free : ∀ m ∈ l, ¬ s.Overlaps addr length m

/-- **Recording a mapping adds it to the list.** -/
theorem Listed.added {s₁ : MemoryManager} (h : Listed s l) (hrec : Recorded s fuel ret length type s₁)
    (hr : SameRecords s₁ s') : ∃ l', Added s l ret length type s' l' := by
  have hmappings : s'.mappings = Function.update s.mappings s.cur_ ⟨ret, length, type⟩ := by
    rw [hr, ← hrec.mappings]
  have hnew : s.cur_ ∉ l := fun hmem => lt_irrefl _ (h.constructed _ hmem)
  have hold : ∀ m ∈ l, s'.mappings m = s.mappings m := by
    intro m hmem
    have hne : m ≠ s.cur_ := fun heq => hnew (heq ▸ hmem)
    rw [hmappings, Function.update_of_ne hne]
  have hfree : ∀ m ∈ l, ¬ s.Overlaps ret length m := by
    have hfind := (h.records.findMapping ret length).eq_of_done hrec.find
    simpa using hfind
  have hordered : Ordered s₁.compare l := by
    refine h.ordered.imp_of_mem fun ha hb hab => ?_
    have heq := hold _ ha
    have heq' := hold _ hb
    rw [hmappings, ← hrec.mappings] at heq heq'
    rw [MemoryManager.compare]
    rwa [heq, heq']
  obtain ⟨t, hrep, rfl⟩ := h.records.construct hnew
  obtain ⟨tree, t', hcomp, hrep', hlist⟩ := hrep.insert hordered hnew
    ⟨by simp, by simp, by simp⟩
  obtain rfl := hcomp.eq_of_done hrec.tree
  have hmem : ∀ m, m ∈ inorder t' ↔ m = s.cur_ ∨ m ∈ inorder t := by
    intro m
    rw [hlist, mem_insertOrdered]
  refine ⟨inorder t', ⟨⟨t', ?_, rfl⟩, ?_, ?_⟩, hmem, ?_, hold, hfree⟩
  · rw [hr]
    exact hrep'
  · have hsorted := hordered.insertOrdered (n := s.cur_)
    rw [← hlist] at hsorted
    rw [hr]
    exact hsorted
  · intro m hm'
    have hcur : s'.cur_ = s.cur_ + sizeofMemoryMapping := by rw [hr, ← hrec.cur_]
    rw [hcur, sizeofMemoryMapping]
    rcases (hmem m).mp hm' with rfl | hm'
    · omega
    · have := h.constructed m hm'
      omega
  · rw [hmappings, Function.update_self]

/-- **Mapping keeps the agreement**, with the new mapping. -/
theorem Agree.map (h : Agree s l) (ht : Tables s level)
    (hm : Mapped s fuel length type phys ret s') (hhalf : InHalf ret length) :
    ∃ l', Agree s' l' := by
  obtain ⟨hin, hout⟩ := hm.mapsTo ht hhalf
  obtain ⟨s₁, hsame, hrec, hloop⟩ := hm.run
  obtain ⟨-, -, hr⟩ := (ht.congr hsame).mapLoop hloop
  obtain ⟨l', ha⟩ := h.listed.added hrec hr
  refine ⟨l', ha.listed.records, ha.listed.ordered, ha.listed.constructed, ?_, ?_⟩
  · intro m hm'
    rcases (ha.mem m).mp hm' with rfl | hm'
    · rw [ha.self]
      refine ⟨hm.ret_mod, hm.length_mod, hm.length_ne, hm.no_wrap, hhalf, fun v hv hrange => ?_⟩
      obtain ⟨w, hw, -⟩ := hin v hv hrange
      exact ⟨w, hw⟩
    · rw [ha.old m hm']
      refine (h.inTables m hm').congr fun v hv hrange => hout v hv fun hnew => ?_
      exact ha.free m hm' (memoryAreasOverlap_of_inRange hm.no_wrap (h.inTables m hm').no_wrap
        hhalf.length_lt hnew hrange)
  · intro a hmem b hmem' hab
    rw [Overlaps]
    rcases (ha.mem a).mp hmem with rfl | hmem
    · rcases (ha.mem b).mp hmem' with rfl | hmem'
      · exact absurd rfl hab
      · rw [ha.self, ha.old b hmem']
        exact ha.free b hmem'
    · rcases (ha.mem b).mp hmem' with rfl | hmem'
      · rw [ha.self, ha.old a hmem, memoryAreasOverlap_comm]
        exact ha.free a hmem
      · rw [ha.old a hmem, ha.old b hmem']
        exact h.apart a hmem b hmem' hab

/-! ## Unmapping -/

/-- What a call of `do_unmap_memory` that returns has checked and done. -/
theorem unmapMemory_eq_done (hrun : s.unmapMemory fuel virt length = .done s') :
    ∃ m tree s₁, s.findMapping fuel virt length = .done (some m) ∧
      (s.mappings m).length_ = length ∧ s.memoryMapTree_.remove fuel m = .done tree ∧
      unmapLoop (s.mappings m).type_ fuel { s with memoryMapTree_ := tree } virt length =
        .done s₁ ∧
      s₁.memoryMapTree_.remove fuel m = .done s'.memoryMapTree_ ∧
      s' = { s₁ with memoryMapTree_ := s'.memoryMapTree_ } := by
  rw [unmapMemory] at hrun
  obtain ⟨it, hfind, hrun⟩ := Outcome.bind_eq_done.mp hrun
  obtain ⟨m, hm, hrun⟩ := Outcome.bind_eq_done.mp hrun
  obtain ⟨hlength, hrun⟩ := Outcome.require_bind_eq_done.mp hrun
  obtain ⟨tree, htree, hrun⟩ := Outcome.bind_eq_done.mp hrun
  obtain ⟨s₁, hloop, hrun⟩ := Outcome.bind_eq_done.mp hrun
  obtain ⟨tree', htree', hrun⟩ := Outcome.bind_eq_done.mp hrun
  cases hrun
  cases it with
  | none => cases hm
  | some n =>
    obtain rfl : n = m := Outcome.done.inj hm
    exact ⟨n, tree, s₁, hfind, hlength, htree, hloop, htree', rfl⟩

/-- The range starts at a recorded mapping and does not wrap around. -/
def AtMapping (s : MemoryManager) (virt length : Word) : Prop :=
  (∃ l, s.Records l ∧ ∃ m ∈ l, (s.mappings m).addr_ = virt) ∧
    virt.toNat + length.toNat < 2 ^ 64

/-- **What unmapping is for**: the range was that of a recorded mapping, which
is no longer recorded; its addresses are not translated any more, and all other
translations are the same. -/
def Unmaps (s s' : MemoryManager) (virt length : Word) : Prop :=
  (∃ l, s.Records l ∧ ∃ m ∈ l, (s.mappings m).addr_ = virt ∧ (s.mappings m).length_ = length ∧
    s'.Records (l.erase m) ∧ s'.mappings = s.mappings) ∧
  (∀ v, InRange virt length v → virtToPhys s'.mem s'.pml4_ v = .abort) ∧
  ∀ v, Canonical v → ¬ InRange virt length v →
    virtToPhys s'.mem s'.pml4_ v = virtToPhys s.mem s.pml4_ v

/-- The tree determines the list. -/
theorem Records.unique {l' : List ℕ} (h : s.Records l) (h' : s.Records l') : l = l' := by
  obtain ⟨t, ht, rfl⟩ := h
  obtain ⟨t', ht', rfl⟩ := h'
  rw [ht.unique ht']

/-- **The search finds the mapping** at the start of the range. -/
theorem Agree.find_eq (h : Agree s l) {m m' : ℕ} (hm : m ∈ l) (haddr : (s.mappings m).addr_ = virt)
    (hwrap : virt.toNat + length.toNat < 2 ^ 64)
    (hfind : l.find? (fun m => decide (s.Overlaps virt length m)) = some m')
    (hlength : (s.mappings m').length_ = length) : m' = m := by
  subst haddr hlength
  obtain ⟨hover, as, bs, hl, hbefore⟩ := List.find?_eq_some_iff_append.mp hfind
  have hm' : m' ∈ l := by simp [hl]
  have hin := h.inTables m hm
  have hin' := h.inTables m' hm'
  have hself : s.Overlaps (s.mappings m).addr_ (s.mappings m').length_ m :=
    memoryAreasOverlap_start hwrap hin.no_wrap hin'.length_ne hin.length_ne hin.half
  by_contra hne
  have hle : (s.mappings m').addr_.toNat ≤ (s.mappings m).addr_.toNat := by
    -- `m` is behind `m'`, which is the first to overlap
    have hord := h.ordered
    rw [hl, Ordered, List.pairwise_append, List.pairwise_cons] at hord
    rw [hl, List.mem_append, List.mem_cons] at hm
    rcases hm with hm | rfl | hm
    · simpa [hself] using hbefore m hm
    · exact absurd rfl hne
    · exact BitVec.not_lt.mp (hord.2.1.1 m hm)
  exact not_memoryAreasOverlap_before hin.no_wrap hwrap hin'.no_wrap hin.length_ne hle
    (h.apart m hm m' hm' (Ne.symm hne)) (of_decide_eq_true hover)

/-- What unmapping does to the list of mappings. -/
structure Removed (s : MemoryManager) (l : List ℕ) (fuel : ℕ) (virt length : Word) (m : ℕ)
    (s' : MemoryManager) : Prop where
  /-- the first mapping that overlaps the range -/
  find : l.find? (fun m => decide (s.Overlaps virt length m)) = some m
  /-- has its length -/
  length_eq : (s.mappings m).length_ = length
  /-- and is not in the new list -/
  listed : Listed s' (l.erase m)
  /-- the records stay -/
  mappings : s'.mappings = s.mappings
  /-- the entries of its pages are cleared -/
  run : ∃ tree s₁, unmapLoop (s.mappings m).type_ fuel { s with memoryMapTree_ := tree } virt length =
    .done s₁ ∧ SameTables s₁ s'

/-- **Unmapping takes one mapping out of the list.** -/
theorem Listed.removed (h : Listed s l) (ht : Tables s level)
    (hrun : s.unmapMemory fuel virt length = .done s') : ∃ m, Removed s l fuel virt length m s' := by
  obtain ⟨m, tree, s₁, hfind, hlength, hremove, hloop, hremove', hs'⟩ := unmapMemory_eq_done hrun
  have hfirst := (h.records.findMapping virt length).eq_of_done hfind
  obtain ⟨t, hrep, rfl⟩ := h.records
  obtain ⟨tree', t', hcomp, hrep', hlist, hdetached⟩ := hrep.remove (List.mem_of_find?_eq_some hfirst)
  obtain rfl := hcomp.eq_of_done hremove
  have ht₀ : Tables { s with memoryMapTree_ := tree' } level := ht.congr ⟨rfl, rfl, rfl, rfl⟩
  obtain ⟨-, hr⟩ := ht₀.unmapLoop hloop
  have htree₁ : s₁.memoryMapTree_ = tree' := by rw [hr]
  have hnot : m ∉ inorder t' := by
    rw [hlist]
    exact hrep.nodup.not_mem_erase
  rw [htree₁] at hremove'
  -- the second removal of the node changes nothing
  have htree : s'.memoryMapTree_ = tree' := hrep'.remove_of_notMem hnot hdetached hremove'
  have hmappings : s'.mappings = s.mappings := by rw [hs', hr]
  have hcur : s'.cur_ = s.cur_ := by rw [hs', hr]
  have hcompare : s'.compare = s.compare := by
    funext a b
    rw [MemoryManager.compare, MemoryManager.compare, hmappings]
  refine ⟨m, hfirst, hlength, ⟨⟨t', htree ▸ hrep', hlist⟩, ?_, fun n hn => ?_⟩, hmappings, tree', s₁, hloop, ?_⟩
  · rw [hcompare]
    exact h.ordered.sublist List.erase_sublist
  · rw [hcur]
    exact h.constructed n (List.mem_of_mem_erase hn)
  · rw [hs']
    exact ⟨rfl, rfl, rfl, rfl⟩

/-- **Unmapping from the start of a mapping** takes this mapping out of the tree
and the tables. -/
theorem Agree.unmap (h : Agree s l) (ht : Tables s level) (hat : AtMapping s virt length)
    (hrun : s.unmapMemory fuel virt length = .done s') :
    Unmaps s s' virt length ∧ ∃ l', Agree s' l' := by
  obtain ⟨⟨l₀, hl₀, m, hm, haddr⟩, hwrap⟩ := hat
  obtain rfl := h.records.unique hl₀
  obtain ⟨m', hremoved⟩ := h.listed.removed ht hrun
  obtain rfl : m' = m := h.find_eq hm haddr hwrap hremoved.find hremoved.length_eq
  have hnodup : l.Nodup := by
    obtain ⟨t, hrep, rfl⟩ := h.records
    exact hrep.nodup
  have hlength := hremoved.length_eq
  subst haddr hlength
  -- the tables after the call
  obtain ⟨tree', s₁, hloop, hsame⟩ := hremoved.run
  have ht₀ : Tables { s with memoryMapTree_ := tree' } level := ht.congr ⟨rfl, rfl, rfl, rfl⟩
  obtain ⟨ht₁, -⟩ := ht₀.unmapLoop hloop
  have hin := h.inTables m' hm
  have hentry : ∀ v, Canonical v → s'.entryAt (indices v) =
      if InRange (s.mappings m').addr_ (s.mappings m').length_ v then none
      else s.entryAt (indices v) := by
    rw [hsame.entryAt]
    exact ht₀.unmapLoop_of_mapped hin.addr_mod hin.length_mod hin.half hin.entry hloop
  have ht' := ht₁.congr hsame
  refine ⟨⟨⟨_, h.records, m', hm, rfl, rfl, hremoved.listed.records, hremoved.mappings⟩, fun v hv => ?_,
    fun v hc hv => ?_⟩, l.erase m', hremoved.listed.records, hremoved.listed.ordered,
    hremoved.listed.constructed, ?_, ?_⟩
  · rw [ht'.virtToPhys, hentry v (hin.half.canonical hv), if_pos hv]
    rfl
  · rw [ht'.virtToPhys, hentry v hc, if_neg hv, ht.virtToPhys]
  · intro m hmem
    have hne := (hnodup.mem_erase_iff.mp hmem).1
    have hm' := List.mem_of_mem_erase hmem
    rw [hremoved.mappings]
    refine (h.inTables m hm').congr fun v hv hrange => ?_
    rw [hentry v hv, if_neg (h.not_inRange hm' hm hne hrange)]
  · intro a ha b hb
    rw [Overlaps]
    rw [hremoved.mappings]
    exact h.apart a (List.mem_of_mem_erase ha) b (List.mem_of_mem_erase hb)

/-! ## Every careful run -/

/-- Steps that map ranges inside one half and unmap from the addresses of
recorded mappings. -/
inductive CarefulStep : MemoryManager → MemoryManager → Prop where
  /-- a range inside one half is mapped -/
  | map {s s' : MemoryManager} {fuel : ℕ} {virt length phys ret : Word} {type : MemoryType} :
      s.mapMemory fuel virt length type phys = .done (ret, s') → InHalf ret length →
        CarefulStep s s'
  /-- a range that starts at a mapping is unmapped -/
  | unmap {s s' : MemoryManager} {fuel : ℕ} {virt length : Word} :
      s.unmapMemory fuel virt length = .done s' → AtMapping s virt length → CarefulStep s s'
  /-- other pages change -/
  | elsewhere {s s' : MemoryManager} : Elsewhere s s' → CarefulStep s s'

/-- The states of all careful runs. -/
abbrev CarefullyReachable : MemoryManager → Prop := Reach Init CarefulStep

/-- **Records and tables agree** in every careful run. -/
theorem carefullyReachable_agree (hs : CarefullyReachable s) :
    ∃ level l, Tables s level ∧ Agree s l := by
  refine Reach.invariant (fun s => ∃ level l, Tables s level ∧ Agree s l) hs (fun s h => ?_) ?_
  · obtain ⟨level, ht⟩ := h.tables
    exact ⟨level, [], ht, h.agree⟩
  · rintro s s' ⟨level, l, ht, ha⟩ hstep
    cases hstep with
    | map hrun hhalf =>
      have hm := mapMemory_eq_done hrun
      obtain ⟨⟨level', ht'⟩, -⟩ := hm.tables ht
      obtain ⟨l', ha'⟩ := ha.map ht hm hhalf
      exact ⟨level', l', ht', ha'⟩
    | unmap hrun hat =>
      obtain ⟨-, l', ha'⟩ := ha.unmap ht hat hrun
      exact ⟨level, l', unmapMemory_tables ht hrun, ha'⟩
    | elsewhere he => exact ⟨level, l, ht.elsewhere he, ha.elsewhere ht he⟩

/-- **Unmapping does what it is for exactly at the start of a mapping.** In a
careful run, a call of `do_unmap_memory` that returns unmaps the range of one
recorded mapping, and nothing else, if and only if the range starts at a
recorded mapping and does not wrap around. -/
theorem unmapMemory_exact_iff (hs : CarefullyReachable s)
    (hrun : s.unmapMemory fuel virt length = .done s') :
    Unmaps s s' virt length ↔ AtMapping s virt length := by
  obtain ⟨level, l, ht, ha⟩ := carefullyReachable_agree hs
  constructor
  · rintro ⟨⟨l', hl', m, hm, haddr, hlength, -⟩, -⟩
    obtain rfl := ha.records.unique hl'
    have hwrap := (ha.inTables m hm).no_wrap
    rw [haddr, hlength] at hwrap
    exact ⟨⟨l, hl', m, hm, haddr⟩, hwrap⟩
  · exact fun hat => (ha.unmap ht hat hrun).1

/-- Map two pages and unmap them. -/
theorem unmapMemory_exact_iff_fresh :
    ∃ s s', s.unmapMemory 10 0x1000 0x2000 = .done s' ∧
      (Unmaps s s' 0x1000 0x2000 ↔ AtMapping s 0x1000 0x2000) := by
  obtain ⟨s, s', hmap, hunmap⟩ : ∃ s s',
      fresh.mapMemory 10 0x1000 0x2000 MemoryType.read 0x8000 = .done (0x1000, s) ∧
        s.unmapMemory 10 0x1000 0x2000 = .done s' := ⟨_, _, rfl, rfl⟩
  have hs : CarefullyReachable s := .step (.start fresh_init) (.map hmap (by decide))
  exact ⟨s, s', hunmap, unmapMemory_exact_iff hs hunmap⟩

/-- Map two pages and unmap two pages from the second one on. -/
theorem not_unmapMemory_exact : ¬ ∀ (s s' : MemoryManager) (fuel : ℕ) (virt length : Word),
    Reachable s → s.unmapMemory fuel virt length = .done s' → Unmaps s s' virt length := by
  intro h
  obtain ⟨s, s', hmap, hunmap⟩ : ∃ s s',
      fresh.mapMemory 10 0x1000 0x2000 MemoryType.read 0x8000 = .done (0x1000, s) ∧
        s.unmapMemory 10 0x2000 0x2000 = .done s' := ⟨_, _, rfl, rfl⟩
  obtain ⟨⟨l, -, m, -, hm, -⟩, -⟩ := h s s' 10 0x2000 0x2000
    (.step (.start fresh_init) (.map hmap)) hunmap
  -- no mapping starts at the second page
  obtain ⟨level, ht⟩ := fresh_init.tables
  rw [(mapMemory_eq_done hmap).mappings ht] at hm
  by_cases hm₀ : m = fresh.cur_
  · rw [hm₀, Function.update_self] at hm
    exact absurd hm (by decide)
  · rw [Function.update_of_ne hm₀] at hm
    have hzero : (fresh.mappings m).addr_ = 0 := rfl
    rw [hzero] at hm
    exact absurd hm (by decide)

end MemoryManager

end Attos
